/-
  Ntopng.Protocols.MdnsQuestion — the question for the name of an address, and the address read
  back from it (src/MDNS.cpp).

  An address is four bytes as they stand in memory. Read in network byte order by a
  little-endian host it is printed backwards, which is how the name of the question has it.

  Proved:
  - `buildMDNSRequest_wire`: a query of labels is built as a header, the name on the wire, and
    type and class.
  - `prepareIPv4ResolveQuery_wire`: the same of the query for an address.
  - `scanAddress_asked`: from that name with its lengths as dots `sscanf` reads the address in
    host byte order.
-/

import Ntopng.Lib.DnsName
import Ntopng.Protocols.Mdns

namespace Ntopng.Protocols.MdnsQuestion

open Ntopng.Lib.CString
open Ntopng.Lib.CNumber (isDigit)
open Ntopng.Lib.DnsName
open Ntopng.Protocols.Mdns

/-! ## Building -/

/-- Characters of a label are written behind the place of its length. -/
theorem buildLoop_chars {room k d : ℕ} {a cur rest l : List UInt8} {x : UInt8} (s : List UInt8)
    (ha : a.length = headerLen + d) (hk : k = d + cur.length) (hl : ch '.' ∉ l) (hroom : k + l.length ≤ room)
    (hrest : l.length ≤ rest.length) :
    buildLoop room (l ++ s) k d (a ++ x :: (cur ++ rest)) =
      buildLoop room s (k + l.length) d (a ++ x :: (cur ++ l ++ rest.drop l.length)) := by
  induction l generalizing k cur rest with
  | nil => simp
  | cons c l ih =>
    rw [List.mem_cons, not_or] at hl
    rw [List.length_cons] at hroom hrest
    obtain ⟨y, rest, rfl⟩ := List.exists_cons_of_length_pos (Nat.lt_of_lt_of_le (Nat.succ_pos _) hrest)
    rw [List.length_cons] at hrest
    have hstore : store (a ++ x :: (cur ++ y :: rest)) (headerLen + (k + 1)) c = some (a ++ x :: (cur ++ c :: rest)) := by
      have h : store (a ++ x :: cur ++ y :: rest) (headerLen + (k + 1)) c = some (a ++ x :: cur ++ c :: rest) :=
        store_at (by rw [List.length_append, List.length_cons, ha]; omega) c
      rw [List.append_assoc, List.append_assoc] at h
      exact h
    rw [List.cons_append, buildLoop, if_pos (by omega), if_neg (Ne.symm hl.1), hstore, Option.bind_some,
      show cur ++ c :: rest = (cur ++ [c]) ++ rest by simp,
      ih (by rw [List.length_append, List.length_singleton]; omega) hl.2 (by omega) (by omega)]
    simp [Nat.add_assoc, Nat.add_comm 1]

theorem buildLoop_start {room d : ℕ} {a rest l : List UInt8} {x : UInt8} (s : List UInt8) (ha : a.length = headerLen + d)
    (hl : ch '.' ∉ l) (hroom : d + l.length ≤ room) (hrest : l.length ≤ rest.length) :
    buildLoop room (l ++ s) d d (a ++ x :: rest) =
      buildLoop room s (d + l.length) d (a ++ x :: (l ++ rest.drop l.length)) :=
  @buildLoop_chars _ _ _ _ [] _ _ _ s ha (Nat.add_zero d).symm hl hroom hrest

/-- At the end of the query all labels but the last have their lengths. -/
theorem buildLoop_labels {room d : ℕ} {a rest l : List UInt8} {ls : Name} {x : UInt8}
    (ha : a.length = headerLen + d) (hdot : ∀ l' ∈ l :: ls, ch '.' ∉ l') (hroom : d + (l ++ dots ls).length ≤ room)
    (hrest : (l ++ dots ls).length ≤ rest.length) :
    ∃ a' x' cur d', buildLoop room (l ++ dots ls) d d (a ++ x :: rest) =
        some (d + (l ++ dots ls).length, d', a' ++ x' :: (cur ++ rest.drop (l ++ dots ls).length)) ∧
      a'.length = headerLen + d' ∧ d + (l ++ dots ls).length = d' + cur.length ∧
      a' ++ UInt8.ofNat cur.length :: cur = a ++ wire (l :: ls) := by
  have hl : ch '.' ∉ l := hdot l (List.mem_cons_self ..)
  induction ls generalizing d a rest l x with
  | nil =>
    have hd : dots [] = [] := rfl
    rw [hd, List.append_nil] at hroom hrest ⊢
    refine ⟨a, x, l, d, ?_, ha, rfl, by rw [wire_cons]; simp [wire]⟩
    have h := buildLoop_start (x := x) [] ha hl hroom hrest
    rw [List.append_nil] at h
    rw [h]
    rfl
  | cons l' ls ih =>
    rw [dots_cons, List.length_append, List.length_cons] at hroom hrest
    have hroom' : d + l.length ≤ room := by omega
    have hrest' : l.length ≤ rest.length := by omega
    have h := buildLoop_start (x := x) (ch '.' :: (l' ++ dots ls)) ha hl hroom' hrest'
    obtain ⟨y, r, hr⟩ := List.exists_cons_of_length_pos
      (show 0 < (rest.drop l.length).length by rw [List.length_drop]; omega)
    have hrl : (rest.drop l.length).length = r.length + 1 := by rw [hr, List.length_cons]
    rw [List.length_drop] at hrl
    have hr' : (l' ++ dots ls).length ≤ r.length := by omega
    obtain ⟨a', x', cur, d', hb, ha', hk, hw⟩ := ih (d := d + l.length + 1) (a := a ++ UInt8.ofNat l.length :: l)
      (x := y) (l := l') (by rw [List.length_append, List.length_cons, ha]; omega)
      (fun l'' h'' => hdot l'' (List.mem_cons_of_mem l h'')) (by omega) hr'
      (hdot l' (List.mem_cons_of_mem l (List.mem_cons_self ..)))
    have hdrop : rest.drop (l ++ dots (l' :: ls)).length = r.drop (l' ++ dots ls).length := by
      rw [dots_cons, List.length_append, ← List.drop_drop, hr, List.length_cons, List.drop_succ_cons]
    have hlen : d + (l ++ dots (l' :: ls)).length = d + l.length + 1 + (l' ++ dots ls).length := by
      rw [dots_cons, List.length_append, List.length_cons]
      omega
    refine ⟨a', x', cur, d', ?_, ha', hlen.trans hk, ?_⟩
    · rw [hlen, hdrop, dots_cons, h, buildLoop, if_pos (by omega), if_pos rfl, store_at ha.symm, Option.bind_some,
        Nat.add_sub_cancel_left, ← hb, hr]
      simp
    · rw [hw, wire_cons l (l' :: ls)]
      simp

theorem length_header (tid : UInt16) : (header tid).length = headerLen := rfl

theorem buildMDNSRequest_wire {m : Mem} {l : List UInt8} {ls : Name} (hdot : ∀ l' ∈ l :: ls, ch '.' ∉ l')
    (hm : (joined (l :: ls)).length + 18 ≤ m.length) (hm32 : m.length < 2 ^ 32) (queryType : UInt8) (tid : UInt16) :
    ∃ r, buildMDNSRequest (joined (l :: ls)) queryType m tid =
      some (header tid ++ (wire (l :: ls) ++ [0, 0, queryType, 0, 1]) ++ r, (joined (l :: ls)).length + 18) := by
  rw [joined_cons] at hm ⊢
  have hheader : storeAll m 0 (header tid) = some (header tid ++ m.drop 12) := by
    rw [storeAll_some (by rw [length_header]; unfold headerLen; omega), List.take_zero, List.nil_append, Nat.zero_add,
      length_header]
    rfl
  obtain ⟨x, rest, hr⟩ := List.exists_cons_of_length_pos (show 0 < (m.drop 12).length by rw [List.length_drop]; omega)
  have hrest : rest.length + 13 = m.length := by
    have := congrArg List.length hr
    rw [List.length_drop, List.length_cons] at this
    omega
  have hroom : (m.length + 2 ^ 32 - (headerLen + 4)) % 2 ^ 32 = m.length - 16 := by
    unfold headerLen
    omega
  have hfit : 0 + (l ++ dots ls).length ≤ m.length - 16 := by omega
  have hfit' : (l ++ dots ls).length ≤ rest.length := by omega
  obtain ⟨a, x', cur, d, hloop, ha, hk, hw⟩ := buildLoop_labels (x := x) (length_header tid) hdot hfit hfit'
  rw [Nat.zero_add] at hloop hk
  have hlen : (header tid ++ wire (l :: ls)).length = headerLen + ((l ++ dots ls).length + 1) := by
    rw [← hw, List.length_append, List.length_cons, ha, hk]
    omega
  refine ⟨rest.drop ((l ++ dots ls).length + 5), ?_⟩
  unfold buildMDNSRequest
  rw [hheader, Option.bind_eq_bind, Option.bind_some, hroom, hr]
  simp only
  rw [hloop, Option.bind_eq_bind, Option.bind_some]
  simp only
  rw [store_at ha.symm, Option.bind_some, show (l ++ dots ls).length - d = cur.length by omega,
    show ∀ t, a ++ UInt8.ofNat cur.length :: (cur ++ t) = header tid ++ wire (l :: ls) ++ t by
      intro t; rw [← hw]; simp]
  have htail : storeAll (header tid ++ wire (l :: ls) ++ rest.drop (l ++ dots ls).length)
      (headerLen + ((l ++ dots ls).length + 1)) [0, 0, queryType, 0, 1] =
      some (header tid ++ wire (l :: ls) ++ [0, 0, queryType, 0, 1] ++ rest.drop ((l ++ dots ls).length + 5)) := by
    have h5 : 5 ≤ (rest.drop (l ++ dots ls).length).length := by
      rw [List.length_drop]
      omega
    rw [storeAll_at (s := [0, 0, queryType, 0, 1]) hlen.symm h5, List.drop_drop]
    rfl
  rw [htail, Option.bind_some, List.append_assoc (header tid)]
  unfold headerLen
  rw [show 12 + ((l ++ dots ls).length + 6) = (l ++ dots ls).length + 18 by omega]

/-! ## Addresses -/

/-- `a.b.c.d` -/
structure Ipv4 where
  a : UInt8
  b : UInt8
  c : UInt8
  d : UInt8
  deriving DecidableEq, Repr

namespace Ipv4

/-- The integer a little-endian host reads from the bytes of the address. -/
def network (x : Ipv4) : ℕ := x.a.toNat + 2 ^ 8 * x.b.toNat + 2 ^ 16 * x.c.toNat + 2 ^ 24 * x.d.toNat

/-- The address in host byte order. -/
def host (x : Ipv4) : ℕ := x.a.toNat * 2 ^ 24 + x.b.toNat * 2 ^ 16 + x.c.toNat * 2 ^ 8 + x.d.toNat

def asked (x : Ipv4) : Name :=
  [intoaByte x.d.toNat, intoaByte x.c.toNat, intoaByte x.b.toNat, intoaByte x.a.toNat, text "in-addr", text "arpa"]

end Ipv4

theorem intoaByte_digits : ∀ n < 256, (intoaByte n).all isDigit ∧ digitsValue (intoaByte n) = n ∧ intoaByte n ≠ [] ∧
    (intoaByte n).length ≤ 3 := by
  -- By the two hexadecimal digits of `n`.
  have all : ∀ m < 16, ∀ n < 16, (intoaByte (m * 16 + n)).all isDigit ∧ digitsValue (intoaByte (m * 16 + n)) = m * 16 + n ∧
      intoaByte (m * 16 + n) ≠ [] ∧ (intoaByte (m * 16 + n)).length ≤ 3 := by decide
  intro n hn
  have h := all (n / 16) (by omega) (n % 16) (by omega)
  rwa [show n / 16 * 16 + n % 16 = n from by omega] at h

theorem intoaV4_network (x : Ipv4) : intoaV4 x.network = intoaByte x.d.toNat ++ ch '.' :: (intoaByte x.c.toNat ++
    ch '.' :: (intoaByte x.b.toNat ++ ch '.' :: intoaByte x.a.toNat)) := by
  have ha := x.a.toNat_lt
  have hb := x.b.toNat_lt
  have hc := x.c.toNat_lt
  have hd := x.d.toNat_lt
  have h0 : x.network % 256 = x.a.toNat := by unfold Ipv4.network; omega
  have h1 : x.network / 256 % 256 = x.b.toNat := by unfold Ipv4.network; omega
  have h2 : x.network / 256 / 256 % 256 = x.c.toNat := by unfold Ipv4.network; omega
  have h3 : x.network / 256 / 256 / 256 % 256 = x.d.toNat := by unfold Ipv4.network; omega
  unfold intoaV4
  simp only [intoaLoop, h0, h1, h2, h3]
  simp

/-- The words a query ends with. -/
theorem arpa_words : text ".in-addr.arpa" = ch '.' :: (text "in-addr" ++ ch '.' :: text "arpa") ∧
    (text "in-addr").length = 7 ∧ (text "arpa").length = 4 ∧
    (text "in-addr" ++ text "arpa").all (fun c => decide (32 ≤ c ∧ c ≤ 126 ∧ c ≠ ch '.')) := by
  decide

theorem intoaByte_printable (b : UInt8) :
    (1 ≤ (intoaByte b.toNat).length ∧ (intoaByte b.toNat).length < 4) ∧ ∀ c ∈ intoaByte b.toNat, isDigit c := by
  obtain ⟨hd, -, hne, hlen⟩ := intoaByte_digits b.toNat b.toNat_lt
  exact ⟨⟨List.length_pos_of_ne_nil hne, by omega⟩, List.all_eq_true.mp hd⟩

/-- Digits start a number without blanks or a sign. -/
theorem isDigit_starts {c : UInt8} (h : isDigit c) : isSpace c = false ∧ c ≠ ch '-' ∧ c ≠ ch '+' := by
  unfold isDigit at h
  rw [Bool.and_eq_true, decide_eq_true_iff, decide_eq_true_iff] at h
  have h1 : ch '0' = 48 := by decide
  have h2 : ch '9' = 57 := by decide
  have h3 : ch ' ' = 32 := by decide
  have h4 : ch '-' = 45 := by decide
  have h5 : ch '+' = 43 := by decide
  rw [h1, h2, UInt8.le_iff_toNat_le, UInt8.le_iff_toNat_le] at h
  unfold isSpace
  rw [h3, h4, h5, Bool.or_eq_false_iff, Bool.and_eq_false_iff, decide_eq_false_iff_not, decide_eq_false_iff_not,
    decide_eq_false_iff_not, UInt8.le_iff_toNat_le, UInt8.le_iff_toNat_le, ne_eq, ne_eq, ← UInt8.toNat_inj, ← UInt8.toNat_inj,
    ← UInt8.toNat_inj]
  simp only [UInt8.reduceToNat] at h ⊢
  omega

theorem isDigit_printable {c : UInt8} (h : isDigit c) : 32 ≤ c ∧ c ≤ 126 ∧ c ≠ ch '.' := by
  unfold isDigit at h
  rw [Bool.and_eq_true, decide_eq_true_iff, decide_eq_true_iff] at h
  have h1 : ch '0' = 48 := by decide
  have h2 : ch '9' = 57 := by decide
  have h3 : ch '.' = 46 := by decide
  rw [h1, h2, UInt8.le_iff_toNat_le, UInt8.le_iff_toNat_le] at h
  rw [h3, UInt8.le_iff_toNat_le, UInt8.le_iff_toNat_le, ne_eq, ← UInt8.toNat_inj]
  simp only [UInt8.reduceToNat] at h ⊢
  omega

/-- The labels of the name are short, printable and without dots. -/
theorem asked_labels (x : Ipv4) : ∀ l ∈ x.asked, (1 ≤ l.length ∧ l.length < 32) ∧ ∀ c ∈ l, 32 ≤ c ∧ c ≤ 126 ∧ c ≠ ch '.' := by
  have digits : ∀ b : UInt8, (1 ≤ (intoaByte b.toNat).length ∧ (intoaByte b.toNat).length < 32) ∧
      ∀ c ∈ intoaByte b.toNat, 32 ≤ c ∧ c ≤ 126 ∧ c ≠ ch '.' := fun b => by
    obtain ⟨hlen, hd⟩ := intoaByte_printable b
    exact ⟨⟨hlen.1, by omega⟩, fun c hc => isDigit_printable (hd c hc)⟩
  have words : ∀ w ∈ [text "in-addr", text "arpa"], (1 ≤ w.length ∧ w.length < 32) ∧
      ∀ c ∈ w, 32 ≤ c ∧ c ≤ 126 ∧ c ≠ ch '.' := by
    obtain ⟨-, h1, h2, hall⟩ := arpa_words
    have hchars := List.all_iff_forall_prop.mp hall
    intro w hw
    rw [List.mem_cons, List.mem_singleton] at hw
    rcases hw with rfl | rfl
    · exact ⟨by omega, fun c hc => hchars c (List.mem_append_left _ hc)⟩
    · exact ⟨by omega, fun c hc => hchars c (List.mem_append_right _ hc)⟩
  intro l hl
  simp only [Ipv4.asked, List.mem_cons, List.not_mem_nil, or_false] at hl
  rcases hl with rfl | rfl | rfl | rfl | hl
  · exact digits _
  · exact digits _
  · exact digits _
  · exact digits _
  · exact words l (by simpa using hl)

theorem query_eq (x : Ipv4) : (intoaV4 x.network ++ text ".in-addr.arpa").take 63 = joined x.asked := by
  have hlen := fun b => (intoaByte_printable b).1.2
  have ha := hlen x.a
  have hb := hlen x.b
  have hc := hlen x.c
  have hd := hlen x.d
  obtain ⟨hwords, h1, h2, -⟩ := arpa_words
  rw [intoaV4_network, hwords, Ipv4.asked, joined_cons]
  rw [List.take_of_length_le]
  · simp [dots]
  · simp only [List.length_append, List.length_cons, h1, h2]
    omega

theorem length_query_le (x : Ipv4) : (joined x.asked).length ≤ 28 := by
  have hlen := fun b => (intoaByte_printable b).1.2
  have ha := hlen x.a
  have hb := hlen x.b
  have hc := hlen x.c
  have hd := hlen x.d
  obtain ⟨-, h1, h2, -⟩ := arpa_words
  simp only [Ipv4.asked, joined_cons, dots, List.flatMap_cons, List.flatMap_nil, List.length_append, List.length_cons, h1, h2,
    List.length_nil]
  omega

theorem prepareIPv4ResolveQuery_wire {m : Mem} (hm : 46 ≤ m.length) (hm32 : m.length < 2 ^ 32) (x : Ipv4) (tid : UInt16) :
    ∃ r, prepareIPv4ResolveQuery x.network m tid =
      some (header tid ++ (wire x.asked ++ [0, 0, 0x0C, 0, 1]) ++ r, (joined x.asked).length + 18) := by
  have hdot : ∀ l ∈ x.asked, ch '.' ∉ l := fun l hl h => ((asked_labels x l hl).2 _ h).2.2 rfl
  have hroom : (joined x.asked).length + 18 ≤ m.length := by
    have := length_query_le x
    omega
  unfold prepareIPv4ResolveQuery
  rw [query_eq]
  exact buildMDNSRequest_wire hdot hroom hm32 0x0C tid

/-! ## Reading the address back -/

theorem scanInt_intoaByte (b : UInt8) (r : List UInt8) :
    scanInt (intoaByte b.toNat ++ ch '.' :: r) = some (b.toNat, ch '.' :: r) := by
  obtain ⟨hd, hv, hne, -⟩ := intoaByte_digits b.toNat b.toNat_lt
  have hlt := b.toNat_lt
  have hd := List.all_eq_true.mp hd
  obtain ⟨c, s, hs⟩ := List.exists_cons_of_ne_nil hne
  have hc := hd c (hs ▸ List.mem_cons_self ..)
  have hspace : (intoaByte b.toNat ++ ch '.' :: r).dropWhile isSpace = intoaByte b.toNat ++ ch '.' :: r := by
    rw [hs, List.cons_append, List.dropWhile_cons_of_neg (by rw [(isDigit_starts hc).1]; exact Bool.false_ne_true)]
  have hsign : sign (intoaByte b.toNat ++ ch '.' :: r) = (false, intoaByte b.toNat ++ ch '.' :: r) := by
    rw [hs, List.cons_append, sign, if_neg (isDigit_starts hc).2.1, if_neg (isDigit_starts hc).2.2]
  have htake : (intoaByte b.toNat ++ ch '.' :: r).takeWhile isDigit = intoaByte b.toNat := by
    rw [List.takeWhile_append_of_pos hd]
    exact List.append_nil _
  have hdrop : (intoaByte b.toNat ++ ch '.' :: r).dropWhile isDigit = ch '.' :: r := by
    rw [List.dropWhile_append_of_pos hd]
    rfl
  have hlow : lowByte false b.toNat = b.toNat := by
    unfold lowByte
    simp only [Bool.false_eq_true, if_false]
    omega
  unfold scanInt
  rw [hspace]
  simp only [hsign, htake, hdrop, hv, hlow, if_neg hne]

theorem scanDot_intoaByte (b : UInt8) (r : List UInt8) :
    scanDot (ch '.' :: (intoaByte b.toNat ++ ch '.' :: r)) = some (b.toNat, ch '.' :: r) := by
  rw [scanDot, if_pos rfl, scanInt_intoaByte]

/-- The numbers come in the reverse order, and so does the address from them. -/
theorem scanAddress_asked (x : Ipv4) : scanAddress (dots x.asked) = some x.host := by
  have hdots : dots x.asked = ch '.' :: (intoaByte x.d.toNat ++ ch '.' :: (intoaByte x.c.toNat ++ ch '.' ::
      (intoaByte x.b.toNat ++ ch '.' :: (intoaByte x.a.toNat ++ ch '.' :: (text "in-addr" ++ ch '.' :: text "arpa"))))) := by
    simp [Ipv4.asked, dots]
  unfold scanAddress
  rw [hdots, scanDot_intoaByte, Option.bind_eq_bind, Option.bind_some]
  simp only
  rw [scanDot_intoaByte, Option.bind_some]
  simp only
  rw [scanDot_intoaByte, Option.bind_some]
  simp only
  rw [scanDot_intoaByte, Option.bind_some]
  rfl

end Ntopng.Protocols.MdnsQuestion
