/-
  Ntopng.Protocols.MdnsReply — the reply to the question for the name of an address
  (src/MDNS.cpp).

  A reply (`Reply`) has a header, the question as it was built, and one answer: a pointer to
  the question's name, type, class, time to live, the length of the data, and the name. What
  follows the answer is left open.

  Proved:
  - `decodes_iff`: the address and the name are returned just if the question's name fits into
    the buffer, every label but the first is shorter than 32 characters (or has as many as the
    code of a dot), the name is not `.local` alone, and an empty name is not followed by more.
  - `decoders_law`: with it, when the three decoders stay within the packet and the buffer.
-/

import Ntopng.Protocols.MdnsQuestion

namespace Ntopng.Protocols.MdnsReply

open Ntopng.Lib.CString
open Ntopng.Lib.DnsName
open Ntopng.Protocols.Mdns
open Ntopng.Protocols.MdnsQuestion

/-! ## Replies -/

def be16 (v : UInt16) : List UInt8 := [(v >>> 8).toUInt8, v.toUInt8]

structure Reply where
  address : Ipv4
  tid : UInt16
  /-- Where the question was built. -/
  mdnsbuf : Mem
  room : 46 ≤ mdnsbuf.length ∧ mdnsbuf.length < 2 ^ 32
  trId : UInt16
  flags : UInt16
  authorityRrs : UInt16
  additionalRrs : UInt16
  rrClass : UInt16
  ttlHigh : UInt16
  ttlLow : UInt16
  labels : Name
  printable : Printable labels
  more : List UInt8

namespace Reply

variable (x : Reply)

def rdata : List UInt8 := wire x.labels ++ [0]

/-- What stands before the data of the answer. -/
def answer : List UInt8 :=
  [0xC0, 0x0C] ++ be16 0x0C ++ be16 x.rrClass ++ be16 x.ttlHigh ++ be16 x.ttlLow ++ be16 (UInt16.ofNat x.rdata.length)

def start : List UInt8 := be16 x.trId ++ be16 x.flags ++ be16 1 ++ be16 1 ++ be16 x.authorityRrs ++ be16 x.additionalRrs

/-- The question is the one that was built. -/
def bytes : Option Mem :=
  (prepareIPv4ResolveQuery x.address.network x.mdnsbuf x.tid).map fun q =>
    x.start ++ ((q.1.take q.2).drop headerLen ++ (x.answer ++ (x.rdata ++ x.more)))

end Reply

/-- A trailing `.local` removed. -/
def stripLocal (s : List UInt8) : List UInt8 := if dotLocal <:+ s then s.take (s.length - dotLocal.length) else s

/-! ## Skipping the question -/

variable {q : Mem}

/-- The bytes of a name go to the buffer with dots for lengths. -/
theorem skipQueries_bytes {toSkip n i off ip : ℕ} {w t a b : List UInt8} (h : q.drop off = w ++ t) (hw : 0 ∉ w)
    (hi : i < toSkip) (hb : w.length ≤ b.length) :
    skipQueries q toSkip (w.length + n) ⟨i, off, a.length, a ++ b, ip⟩ =
      skipQueries q toSkip n ⟨i, off + w.length, a.length + w.length, a ++ w.map dotted ++ b.drop w.length, ip⟩ := by
  induction w generalizing off a b with
  | nil => simp
  | cons c w ih =>
    rw [List.mem_cons, not_or] at hw
    rw [List.length_cons] at hb
    obtain ⟨y, b, rfl⟩ := List.exists_cons_of_length_pos (Nat.lt_of_lt_of_le (Nat.succ_pos _) hb)
    rw [List.length_cons] at hb
    have hc : q[off]? = some c := get_drop h
    have hoff : off < q.length := (List.getElem?_eq_some_iff.mp hc).1
    have hlen : a.length < (a ++ y :: b).length := by
      rw [List.length_append, List.length_cons]
      omega
    have ih := ih (a := a ++ [dotted c]) (drop_succ h) hw.2 (Nat.le_of_succ_le_succ hb)
    rw [List.length_append, List.length_singleton] at ih
    rw [List.length_cons, Nat.add_right_comm, skipQueries, if_pos ⟨hi, hoff, hlen⟩, hc, Option.bind_some,
      if_pos (Ne.symm hw.1), store_at rfl, Option.bind_some]
    rw [List.append_assoc, List.singleton_append] at ih
    rw [ih]
    simp [Nat.add_assoc, Nat.add_comm 1]

theorem dotted_ne_zero (c : UInt8) : dotted c ≠ 0 := by
  unfold dotted
  split
  · decide
  · rename_i h
    rintro rfl
    exact h (Or.inl (by decide))

theorem dotted_printable {c : UInt8} (h : 32 ≤ c ∧ c ≤ 126) : dotted c = c := by
  unfold dotted
  rw [if_neg]
  rw [UInt8.le_iff_toNat_le, UInt8.le_iff_toNat_le] at h
  rw [UInt8.lt_iff_toNat_lt, UInt8.le_iff_toNat_le]
  simp only [UInt8.reduceToNat] at h ⊢
  omega

theorem map_dotted {l : List UInt8} (h : ∀ c ∈ l, 32 ≤ c ∧ c ≤ 126) : l.map dotted = l := by
  rw [List.map_congr_left fun c hc => dotted_printable (h c hc), List.map_id']

/-- A length below 64 as a character: a dot if it is below 32, or that of a dot. -/
theorem dotted_length {n : ℕ} (h : n ≤ 63) : dotted (UInt8.ofNat n) = ch '.' ↔ n < 32 ∨ n = 46 := by
  have hn : (UInt8.ofNat n).toNat = n := by
    rw [UInt8.toNat_ofNat']
    omega
  unfold dotted
  split
  · rename_i hlt
    rw [UInt8.lt_iff_toNat_lt, UInt8.le_iff_toNat_le, hn] at hlt
    simp only [UInt8.reduceToNat] at hlt
    exact ⟨fun _ => by omega, fun _ => rfl⟩
  · rename_i hlt
    rw [UInt8.lt_iff_toNat_lt, UInt8.le_iff_toNat_le, hn] at hlt
    simp only [UInt8.reduceToNat] at hlt
    have h46 : ch '.' = 46 := by decide
    rw [h46, ← UInt8.toNat_inj, hn]
    simp only [UInt8.reduceToNat]
    omega

/-- The name as the decoder spells it, from behind its first length. -/
def spelled : Name → List UInt8
  | [] => []
  | l :: ls => l ++ ls.flatMap fun l => dotted (UInt8.ofNat l.length) :: l

theorem map_dotted_wire {ls : Name} (h : ∀ l ∈ ls, ∀ c ∈ l, 32 ≤ c ∧ c ≤ 126) :
    (wire ls).map dotted = ls.flatMap fun l => dotted (UInt8.ofNat l.length) :: l := by
  induction ls with
  | nil => rfl
  | cons l ls ih =>
    rw [wire_cons, List.map_cons, List.map_append, map_dotted (h l (List.mem_cons_self ..)),
      ih fun l' h' => h l' (List.mem_cons_of_mem l h'), List.flatMap_cons]
    rfl

theorem dots_of_short {ls : Name} (h : ∀ l ∈ ls, l.length < 32) :
    (ls.flatMap fun l => dotted (UInt8.ofNat l.length) :: l) = dots ls := by
  unfold dots
  refine List.flatMap_congr fun l hl => ?_
  have := h l hl
  rw [(dotted_length (by omega)).mpr (Or.inl this)]

theorem zero_notMem_wire {ls : Name} (h : ∀ l ∈ ls, (1 ≤ l.length ∧ l.length ≤ 63) ∧ ∀ c ∈ l, 32 ≤ c ∧ c ≤ 126) :
    0 ∉ wire ls := by
  intro h0
  obtain ⟨l, hl, h0⟩ := List.mem_flatMap.mp h0
  obtain ⟨hlen, hc⟩ := h l hl
  rcases List.mem_cons.mp h0 with h0 | h0
  · have h0 := congrArg UInt8.toNat h0
    rw [UInt8.toNat_ofNat', UInt8.toNat_zero] at h0
    omega
  · have := (hc 0 h0).1
    revert this
    decide

theorem asked_dotted (a : Ipv4) : (wire a.asked).map dotted = dots a.asked := by
  rw [map_dotted_wire fun l hl c hc => ⟨((asked_labels a l hl).2 c hc).1, ((asked_labels a l hl).2 c hc).2.1⟩]
  exact dots_of_short fun l hl => (asked_labels a l hl).1.2

theorem asked_wire_nul (a : Ipv4) : 0 ∉ wire a.asked := zero_notMem_wire fun l hl => by
  obtain ⟨hlen, hc⟩ := asked_labels a l hl
  exact ⟨⟨hlen.1, by omega⟩, fun c h => ⟨(hc c h).1, (hc c h).2.1⟩⟩

theorem length_asked (a : Ipv4) : (wire a.asked).length = (joined a.asked).length + 1 := by
  have hne : a.asked ≠ [] := List.cons_ne_nil _ _
  rw [← length_dots, dots_eq hne, List.length_cons]

/-- At the NUL of the question the buffer holds its name, which is read as the address. -/
theorem endOfQuery_asked (a : Ipv4) {off ip : ℕ} {b : List UInt8} (hb : 0 < b.length) :
    ∃ buf, buf.length = (dots a.asked).length + b.length ∧
      endOfQuery ⟨0, off, (dots a.asked).length, dots a.asked ++ b, ip⟩ = some ⟨1, off + 4, 0, buf, a.host⟩ := by
  obtain ⟨y, b, rfl⟩ := List.exists_cons_of_length_pos hb
  have hnul : 0 ∉ dots a.asked := by
    rw [← asked_dotted]
    intro h
    obtain ⟨c, -, hc⟩ := List.mem_map.mp h
    exact dotted_ne_zero c hc
  refine ⟨dots a.asked ++ 0 :: b, by rw [List.length_append, List.length_cons, List.length_cons], ?_⟩
  have hname : cstr (dots a.asked ++ 0 :: b) 0 = some (dots a.asked) := cstr_drop rfl hnul
  unfold endOfQuery
  rw [if_pos rfl]
  simp only
  rw [store_at rfl, Option.bind_eq_bind, Option.bind_some, hname, Option.bind_some, scanAddress_asked]
  rfl

/-- A question whose name fits is skipped up to the last byte of its class. -/
theorem skipQueries_asked (a : Ipv4) {q t buf : Mem} (h : q = wire a.asked ++ 0 :: t)
    (hfit : (wire a.asked).length < buf.length) :
    ∃ buf', buf'.length = buf.length ∧ skipQueries q 1 (q.length + 1) ⟨0, 0, 0, buf, 0⟩ =
      some ⟨1, (wire a.asked).length + 4, 0, buf', a.host⟩ := by
  have hlen : q.length + 1 = (wire a.asked).length + (t.length + 2) := by
    rw [h, List.length_append, List.length_cons]
    omega
  have hbytes := @skipQueries_bytes q 1 (t.length + 2) 0 0 0 (wire a.asked) (0 :: t) [] buf h (asked_wire_nul a)
    (by decide) (Nat.le_of_lt hfit)
  rw [asked_dotted, List.length_nil, List.nil_append, Nat.zero_add, List.nil_append] at hbytes
  obtain ⟨buf', hlen', hend⟩ := @endOfQuery_asked a (wire a.asked).length 0 (buf.drop (wire a.asked).length)
    (by rw [List.length_drop]; omega)
  have hget : q[(wire a.asked).length]? = some 0 := by
    rw [h, List.getElem?_append_right (Nat.le_refl _), Nat.sub_self]
    rfl
  have hoff : (wire a.asked).length < q.length := (List.getElem?_eq_some_iff.mp hget).1
  refine ⟨buf', by rw [hlen', length_dots, List.length_drop]; omega, ?_⟩
  have hidx : (wire a.asked).length < (dots a.asked ++ buf.drop (wire a.asked).length).length := by
    rw [List.length_append, length_dots, List.length_drop]
    omega
  rw [length_dots] at hend
  rw [hlen, hbytes, skipQueries, if_pos ⟨Nat.zero_lt_one, hoff, hidx⟩, hget, Option.bind_some, if_neg (not_not.mpr rfl),
    hend, Option.bind_some, skipQueries, if_neg (by simp)]

/-- A name that does not fit is not read as an address. -/
theorem skipQueries_long (a : Ipv4) {q t buf : Mem} (h : q = wire a.asked ++ t) (hlong : buf.length ≤ (wire a.asked).length) :
    ∃ s, skipQueries q 1 (q.length + 1) ⟨0, 0, 0, buf, 0⟩ = some s ∧ s.resolvedIp = 0 := by
  have hq : q = (wire a.asked).take buf.length ++ ((wire a.asked).drop buf.length ++ t) := by
    rw [← List.append_assoc, List.take_append_drop, h]
  have hw : ((wire a.asked).take buf.length).length = buf.length := List.length_take_of_le hlong
  obtain ⟨n, hn⟩ := Nat.exists_eq_add_of_le (show buf.length + 1 ≤ q.length + 1 by rw [h, List.length_append]; omega)
  have hbytes := @skipQueries_bytes q 1 (n + 1) 0 0 0 _ _ [] buf hq (fun h0 => asked_wire_nul a (List.mem_of_mem_take h0))
    (by decide) (Nat.le_of_eq hw)
  rw [hw, List.length_nil, List.nil_append, Nat.zero_add, List.nil_append, List.drop_length, List.append_nil] at hbytes
  refine ⟨⟨0, buf.length, buf.length, ((wire a.asked).take buf.length).map dotted, 0⟩, ?_, rfl⟩
  rw [hn, show buf.length + 1 + n = buf.length + (n + 1) by omega, hbytes, skipQueries, if_neg (by simp)]

/-! ## The name -/

/-- A text without NULs that fits is copied up to the NUL behind it or to the end of the packet. -/
theorem copyName_text {n off : ℕ} {w t a b : List UInt8} (h : q.drop off = w ++ t) (hw : 0 ∉ w)
    (ht : t.head? = none ∨ t.head? = some 0) (hoff : off ≤ q.length) (hb : w.length < b.length) (hn : w.length < n) :
    copyName q n off a.length (a ++ b) = some (a.length + w.length, a ++ w.map dotted ++ b.drop w.length) := by
  induction w generalizing off a b n with
  | nil =>
    obtain ⟨n, rfl⟩ := Nat.exists_eq_add_of_lt hn
    rw [List.nil_append] at h
    rw [List.length_nil, Nat.zero_add, copyName]
    simp only [List.map_nil, List.append_nil, List.drop_zero, Nat.add_zero]
    cases t with
    | nil => rw [if_neg (Nat.not_lt.mpr (List.drop_eq_nil_iff.mp h))]
    | cons c t =>
      have hc : c = 0 := by
        rcases ht with ht | ht
        · cases ht
        · exact Option.some.inj ht
      subst hc
      have hget : q[off]? = some 0 := get_drop h
      rw [if_pos (List.getElem?_eq_some_iff.mp hget).1, hget, Option.bind_some, if_neg (fun hc => hc.1 rfl)]
  | cons c w ih =>
    rw [List.mem_cons, not_or] at hw
    rw [List.length_cons] at hb hn
    obtain ⟨n, rfl⟩ := Nat.exists_eq_add_of_lt (Nat.lt_of_le_of_lt (Nat.zero_le _) hn)
    obtain ⟨y, b, rfl⟩ := List.exists_cons_of_length_pos (Nat.lt_of_le_of_lt (Nat.zero_le _) hb)
    rw [List.length_cons] at hb
    have hget : q[off]? = some c := get_drop h
    have hlt := (List.getElem?_eq_some_iff.mp hget).1
    have hroom : a.length < (a ++ y :: b).length - 1 := by
      rw [List.length_append, List.length_cons]
      omega
    have hb' : w.length < b.length := by omega
    have hn' : w.length < n := by omega
    have ih := ih (a := a ++ [dotted c]) (drop_succ h) hw.2 hlt hb' hn'
    rw [List.length_append, List.length_singleton, List.append_assoc, List.singleton_append] at ih
    rw [Nat.zero_add, copyName, if_pos hlt, hget, Option.bind_some, if_pos ⟨Ne.symm hw.1, hroom⟩, store_at rfl,
      Option.bind_some, ih]
    simp [Nat.add_assoc, Nat.add_comm 1]

/-- What the last cut leaves of a text. -/
def codeCut (s : List UInt8) : List UInt8 := if 6 < s.length ∧ s.drop (s.length - 6) = dotLocal then s.take (s.length - 6) else s

theorem cutLocal_text (s r : List UInt8) : cutLocal (s ++ r) s.length = (codeCut s).length := by
  unfold cutLocal codeCut
  have hdrop : ((s ++ r).drop (s.length - 6)).take 6 = s.drop (s.length - 6) ∨ ¬ 6 < s.length := by
    by_cases h : 6 < s.length
    · refine Or.inl ?_
      rw [List.drop_append_of_le_length (Nat.sub_le _ _), List.take_append_of_le_length (by rw [List.length_drop]; omega),
        List.take_of_length_le (by rw [List.length_drop]; omega)]
    · exact Or.inr h
  rcases hdrop with hdrop | hdrop
  · rw [hdrop]
    split
    · rw [List.length_take, Nat.min_eq_left (Nat.sub_le _ _)]
    · rfl
  · rw [if_neg fun h => hdrop h.1, if_neg fun h => hdrop h.1]

theorem codeCut_start (s : List UInt8) : codeCut s <+: s := by
  unfold codeCut
  split
  · exact List.take_prefix _ _
  · exact List.prefix_rfl

/-- The buffer in the end: the text, cut. -/
theorem finish_text {s r : List UInt8} (hs : 0 ∉ s) (hr : 0 < r.length) :
    ∃ buf, store (s ++ r) (cutLocal (s ++ r) s.length) 0 = some buf ∧ cstr buf 0 = some (codeCut s) := by
  obtain ⟨t, ht⟩ := codeCut_start s
  have hnul : 0 ∉ codeCut s := fun h => hs ((codeCut_start s).subset h)
  obtain ⟨y, rest, hy⟩ := List.exists_cons_of_length_pos (show 0 < (t ++ r).length by rw [List.length_append]; omega)
  have hsr : s ++ r = codeCut s ++ y :: rest := by rw [← hy, ← List.append_assoc, ht]
  refine ⟨codeCut s ++ 0 :: rest, ?_, cstr_drop rfl hnul⟩
  rw [cutLocal_text, hsr, store_at rfl]

/-! ## The cut against its purpose -/

theorem length_dotLocal : dotLocal.length = 6 := by decide

theorem suffix_dotLocal {s : List UInt8} : dotLocal <:+ s ↔ 6 ≤ s.length ∧ s.drop (s.length - 6) = dotLocal := by
  rw [List.suffix_iff_eq_drop, length_dotLocal]
  constructor
  · intro h
    have := congrArg List.length h
    rw [length_dotLocal, List.length_drop] at this
    exact ⟨by omega, h.symm⟩
  · exact fun h => h.2.symm

/-- The cut of one text is the purpose of another of its length just if they are the same, and
    more than `.local`. -/
theorem codeCut_eq_stripLocal {s j : List UInt8} (hlen : s.length = j.length) :
    codeCut s = stripLocal j ↔ s = j ∧ j ≠ dotLocal := by
  unfold codeCut stripLocal
  rw [length_dotLocal]
  constructor
  · intro h
    by_cases hj : dotLocal <:+ j
    · have hj6 := suffix_dotLocal.mp hj
      rw [if_pos hj] at h
      by_cases hs : 6 < s.length ∧ s.drop (s.length - 6) = dotLocal
      · rw [if_pos hs] at h
        refine ⟨?_, fun he => ?_⟩
        · rw [← List.take_append_drop (s.length - 6) s, h, hs.2, ← hj6.2, List.take_append_drop]
        · rw [he, length_dotLocal] at hlen
          omega
      · rw [if_neg hs] at h
        have := congrArg List.length h
        rw [List.length_take, Nat.min_eq_left (Nat.sub_le _ _)] at this
        omega
    · rw [if_neg hj] at h
      by_cases hs : 6 < s.length ∧ s.drop (s.length - 6) = dotLocal
      · rw [if_pos hs] at h
        have := congrArg List.length h
        rw [List.length_take, Nat.min_eq_left (Nat.sub_le _ _)] at this
        omega
      · rw [if_neg hs] at h
        exact ⟨h, fun he => hj (he ▸ List.suffix_rfl)⟩
  · rintro ⟨rfl, hne⟩
    by_cases hj : dotLocal <:+ s
    · have h6 := suffix_dotLocal.mp hj
      have hlt : 6 < s.length := by
        rcases Nat.lt_or_eq_of_le h6.1 with h | h
        · exact h
        · rw [← h, Nat.sub_self, List.drop_zero] at h6
          exact absurd h6.2 hne
      rw [if_pos hj, if_pos ⟨hlt, h6.2⟩]
    · rw [if_neg hj, if_neg fun h => hj (suffix_dotLocal.mpr ⟨Nat.le_of_lt h.1, h.2⟩)]

theorem flatMap_dotted_iff {ls : Name} (h : ∀ l ∈ ls, l.length ≤ 63) :
    (ls.flatMap fun l => dotted (UInt8.ofNat l.length) :: l) = dots ls ↔ ∀ l ∈ ls, l.length < 32 ∨ l.length = 46 := by
  induction ls with
  | nil => exact ⟨(fun _ l hl => by cases hl), fun _ => rfl⟩
  | cons l ls ih =>
    have ih := ih fun l' h' => h l' (List.mem_cons_of_mem l h')
    rw [List.flatMap_cons, dots_cons, List.cons_append, List.cons.injEq, List.append_cancel_left_eq, ih,
      dotted_length (h l (List.mem_cons_self ..)), List.forall_mem_cons]

theorem length_spelled (ls : Name) : (spelled ls).length = (joined ls).length := by
  cases ls with
  | nil => rfl
  | cons l ls =>
    rw [joined_cons, spelled, List.length_append, List.length_append]
    congr 1
    induction ls with
    | nil => rfl
    | cons l' ls ih => rw [List.flatMap_cons, dots_cons, List.length_append, ih, List.length_cons, List.length_cons,
        List.length_append, Nat.add_right_comm]

theorem spelled_iff {ls : Name} (h : ∀ l ∈ ls, l.length ≤ 63) :
    spelled ls = joined ls ↔ ∀ l ∈ ls.tail, l.length < 32 ∨ l.length = 46 := by
  cases ls with
  | nil => exact ⟨(fun _ l hl => by cases hl), fun _ => rfl⟩
  | cons l ls =>
    rw [joined_cons, spelled, List.append_cancel_left_eq]
    exact flatMap_dotted_iff fun l' h' => h l' (List.mem_cons_of_mem l h')

/-! ## The reply as it is decoded -/

theorem length_answer (x : Reply) : x.answer.length = 12 := rfl

/-- The packet: twelve bytes, the question's name, the rest of the question and the answer. -/
theorem bytes_eq (x : Reply) : ∃ pkt, x.bytes = some pkt ∧ ntohs pkt 4 = some 1 ∧ headerLen ≤ pkt.length ∧
    pkt.drop headerLen = wire x.address.asked ++ 0 :: ([0, 0x0C, 0, 1] ++ (x.answer ++ (x.rdata ++ x.more))) := by
  obtain ⟨r, hr⟩ := prepareIPv4ResolveQuery_wire x.room.1 x.room.2 x.address x.tid
  have htake : ((header x.tid ++ (wire x.address.asked ++ [0, 0, 0x0C, 0, 1]) ++ r).take
      ((joined x.address.asked).length + 18)).drop headerLen = wire x.address.asked ++ [0, 0, 0x0C, 0, 1] := by
    have hlen : (header x.tid ++ (wire x.address.asked ++ [0, 0, 0x0C, 0, 1])).length =
        (joined x.address.asked).length + 18 := by
      rw [List.length_append, length_header, List.length_append, length_asked]
      show 12 + (_ + 1 + 5) = _
      omega
    rw [← hlen, List.take_left]
    rfl
  refine ⟨_, by rw [Reply.bytes, hr, Option.map_some], rfl, ?_, ?_⟩
  · rw [List.length_append]
    exact Nat.le_add_right 12 _
  · rw [htake]
    show wire x.address.asked ++ [0, 0, 0x0C, 0, 1] ++ _ = _
    rw [List.append_assoc]
    rfl

/-- With a buffer for the question's name what is left is the copy of the text behind the first
    length of the answer's name. -/
theorem decode_fits (x : Reply) {buf : Mem} (hfit : (joined x.address.asked).length + 1 < buf.length) :
    ∃ pkt q off buf', x.bytes = some pkt ∧ buf'.length = buf.length ∧ off ≤ q.length ∧
      q.drop off = (x.rdata ++ x.more).tail ∧
      decodePTRResponse pkt buf = (copyName q (q.length + 1) off 0 buf').bind fun r =>
        (store r.2 (cutLocal r.2 r.1) 0).map fun b => (b, x.address.host) := by
  obtain ⟨pkt, hpkt, hn, hlen, hq⟩ := bytes_eq x
  have hstore := store_some (m := buf) (i := 0) (by omega) 0
  have hfit' : (wire x.address.asked).length < (buf.set 0 0).length := by
    rw [List.length_set, length_asked]
    omega
  obtain ⟨buf', hbuf, hskip⟩ := skipQueries_asked x.address hq hfit'
  have hoff : (pkt.drop headerLen).drop ((wire x.address.asked).length + 18) = (x.rdata ++ x.more).tail := by
    rw [hq, ← List.drop_drop, List.drop_left]
    show (x.rdata ++ x.more).drop 1 = _
    exact List.drop_one
  refine ⟨pkt, pkt.drop headerLen, (wire x.address.asked).length + 18, buf', hpkt, hbuf.trans List.length_set, ?_, hoff, ?_⟩
  · rw [hq, List.length_append, List.length_cons, List.length_append, List.length_append, length_answer, List.length_append,
      Reply.rdata, List.length_append]
    simp only [List.length_cons, List.length_nil]
    omega
  · unfold decodePTRResponse
    rw [hn, Option.bind_eq_bind, Option.bind_some, hstore, Option.bind_eq_bind, Option.bind_some,
      if_neg (Nat.not_lt.mpr hlen)]
    simp only
    rw [hskip, Option.bind_eq_bind, Option.bind_some]
    cases copyName (pkt.drop headerLen) ((pkt.drop headerLen).length + 1) ((wire x.address.asked).length + 18) 0 buf' with
    | none => rfl
    | some r =>
      show (store r.2 (cutLocal r.2 r.1) 0).bind _ = (store r.2 (cutLocal r.2 r.1) 0).map _
      cases store r.2 (cutLocal r.2 r.1) 0 <;> rfl

/-- The buffer has the name without a trailing `.local`, and the address is that of the question. -/
def Decodes (x : Reply) (buf : Mem) : Prop :=
  ∃ pkt r, x.bytes = some pkt ∧ decodePTRResponse pkt buf = some r ∧ cstr r.1 0 = some (stripLocal (joined x.labels)) ∧
    r.2 = x.address.host

structure Told (x : Reply) (bufLen : ℕ) : Prop where
  question : (joined x.address.asked).length + 1 < bufLen
  labels : ∀ l ∈ x.labels.tail, l.length < 32 ∨ l.length = 46
  name : joined x.labels ≠ dotLocal
  empty : x.labels = [] → x.more.head? = none ∨ x.more.head? = some 0

theorem decode_long (x : Reply) {buf : Mem} (hlong : ¬ (joined x.address.asked).length + 1 < buf.length)
    (hhost : x.address.host ≠ 0) : ¬ Decodes x buf := by
  rintro ⟨pkt, r, hpkt, hr, -, hip⟩
  obtain ⟨pkt', hpkt', hn, hlen, hq⟩ := bytes_eq x
  obtain rfl : pkt' = pkt := Option.some.inj (hpkt'.symm.trans hpkt)
  unfold decodePTRResponse at hr
  rw [hn, Option.bind_eq_bind, Option.bind_some] at hr
  obtain ⟨b, hb, hr⟩ := Option.bind_eq_some_iff.mp hr
  rw [if_neg (Nat.not_lt.mpr hlen)] at hr
  have hblen : b.length = buf.length := by
    by_cases h0 : 0 < buf.length
    · rw [store_some h0] at hb
      rw [← Option.some.inj hb, List.length_set]
    · rw [store_none (by omega)] at hb
      cases hb
  have hlong : b.length ≤ (wire x.address.asked).length := by
    rw [hblen, length_asked]
    omega
  obtain ⟨s, hs, h0⟩ := skipQueries_long x.address hq hlong
  simp only at hr
  rw [hs, Option.bind_eq_bind, Option.bind_some] at hr
  obtain ⟨c, -, hr⟩ := Option.bind_eq_some_iff.mp hr
  obtain ⟨b', -, hr⟩ := Option.bind_eq_some_iff.mp hr
  rw [← Option.some.inj hr] at hip
  exact hhost (hip.symm.trans h0)

/-- What is in the buffer before stays. -/
theorem copyName_keeps {n off : ℕ} {a b : List UInt8} {r : ℕ × Mem} (h : copyName q n off a.length (a ++ b) = some r) :
    a.length ≤ r.1 ∧ ∃ b', r.2 = a ++ b' := by
  induction n generalizing off a b with
  | zero => cases h
  | succ n ih =>
    unfold copyName at h
    split at h
    · obtain ⟨c, -, h⟩ := Option.bind_eq_some_iff.mp h
      split at h
      · rename_i hc
        obtain ⟨m, hm, h⟩ := Option.bind_eq_some_iff.mp h
        have hb : 0 < b.length := by
          have := hc.2
          rw [List.length_append] at this
          omega
        obtain ⟨y, b, rfl⟩ := List.exists_cons_of_length_pos hb
        rw [store_at rfl] at hm
        obtain rfl := Option.some.inj hm
        have ih := ih (a := a ++ [dotted c]) (b := b) (by rw [List.length_append, List.append_assoc]; exact h)
        rw [List.length_append, List.length_singleton] at ih
        obtain ⟨hle, b', hb'⟩ := ih
        exact ⟨by omega, dotted c :: b', by rw [hb', List.append_assoc]; rfl⟩
      · rw [← Option.some.inj h]
        exact ⟨Nat.le_refl _, b, rfl⟩
    · rw [← Option.some.inj h]
      exact ⟨Nat.le_refl _, b, rfl⟩

/-- A text that starts with something is not left empty. -/
theorem copied_nonempty {n off : ℕ} {c : UInt8} {t buf : List UInt8} {r : ℕ × Mem} {b : Mem} (h : q.drop off = c :: t)
    (hc : c ≠ 0) (hbuf : 1 < buf.length) (hr : copyName q (n + 1) off 0 buf = some r)
    (hb : store r.2 (cutLocal r.2 r.1) 0 = some b) : cstr b 0 ≠ some [] := by
  obtain ⟨y, buf, rfl⟩ := List.exists_cons_of_length_pos (Nat.lt_of_le_of_lt (Nat.zero_le _) hbuf)
  have hget : q[off]? = some c := get_drop h
  have hroom : 0 < (y :: buf).length - 1 := by omega
  have hstore : store (y :: buf) 0 (dotted c) = some (dotted c :: buf) := store_at (a := []) rfl _
  rw [copyName, if_pos (List.getElem?_eq_some_iff.mp hget).1, hget, Option.bind_some, if_pos ⟨hc, hroom⟩, hstore,
    Option.bind_some] at hr
  obtain ⟨hle, b', hb'⟩ := copyName_keeps (a := [dotted c]) hr
  have hcut : 1 ≤ cutLocal r.2 r.1 := by
    rw [List.length_singleton] at hle
    unfold cutLocal
    split <;> omega
  have hfirst : b[0]? = some (dotted c) := by
    unfold store at hb
    split at hb
    · rw [← Option.some.inj hb, List.getElem?_set_ne (by omega), hb']
      rfl
    · cases hb
  obtain ⟨s, rfl⟩ : ∃ s, b = dotted c :: s := by
    cases b with
    | nil => cases hfirst
    | cons d s => exact ⟨s, by rw [Option.some.inj hfirst]⟩
  intro hs
  unfold cstr at hs
  rw [List.drop_zero, scan, if_neg (dotted_ne_zero c)] at hs
  obtain ⟨s', -, hs⟩ := Option.map_eq_some_iff.mp hs
  cases hs

theorem joined_nil : joined [] = [] := rfl

theorem stripLocal_nil : stripLocal [] = [] := by decide

theorem notMem_spelled {ls : Name} (h : Printable ls) : 0 ∉ spelled ls := by
  cases ls with
  | nil => exact List.not_mem_nil
  | cons l ls =>
    have hp : ∀ l' ∈ l :: ls, ∀ c ∈ l', 32 ≤ c ∧ c ≤ 126 := fun l' h' => (h l' h').2
    rw [spelled, ← map_dotted (hp l (List.mem_cons_self ..)),
      ← map_dotted_wire fun l' h' => hp l' (List.mem_cons_of_mem l h'), ← List.map_append]
    intro h0
    obtain ⟨c, -, hc⟩ := List.mem_map.mp h0
    exact dotted_ne_zero c hc

/-- The text behind the first length of a name with labels: it ends with the NUL of the name. -/
theorem tail_labels (x : Reply) {l : List UInt8} {ls : Name} (hl : x.labels = l :: ls) :
    (x.rdata ++ x.more).tail = (l ++ wire ls) ++ 0 :: x.more := by
  rw [Reply.rdata, hl, wire_cons]
  simp

theorem tail_empty (x : Reply) (hl : x.labels = []) : (x.rdata ++ x.more).tail = x.more := by
  rw [Reply.rdata, hl]
  rfl

theorem copyName_labels (x : Reply) {l : List UInt8} {ls : Name} (hl : x.labels = l :: ls) {q buf : Mem} {off : ℕ}
    (hoff : off ≤ q.length) (h : q.drop off = (x.rdata ++ x.more).tail) (hfit : (joined x.labels).length < buf.length) :
    copyName q (q.length + 1) off 0 buf =
      some ((spelled x.labels).length, spelled x.labels ++ buf.drop (spelled x.labels).length) := by
  have hp : Printable (l :: ls) := hl ▸ x.printable
  have hc : ∀ l' ∈ l :: ls, ∀ c ∈ l', 32 ≤ c ∧ c ≤ 126 := fun l' h' => (hp l' h').2
  rw [tail_labels x hl] at h
  have hmap : (l ++ wire ls).map dotted = spelled (l :: ls) := by
    rw [List.map_append, map_dotted (hc l (List.mem_cons_self ..)),
      map_dotted_wire fun l' h' => hc l' (List.mem_cons_of_mem l h'), spelled]
  have hlen : (l ++ wire ls).length = (spelled (l :: ls)).length := by rw [← hmap, List.length_map]
  have hw : 0 ∉ l ++ wire ls := by
    rw [List.mem_append, not_or]
    refine ⟨fun h0 => ?_, zero_notMem_wire fun l' h' => hp l' (List.mem_cons_of_mem l h')⟩
    have := (hc l (List.mem_cons_self ..) 0 h0).1
    revert this
    decide
  have hq : (l ++ wire ls).length < q.length + 1 := by
    have := congrArg List.length h
    rw [List.length_drop, @List.length_append _ _ (0 :: x.more)] at this
    omega
  rw [hl, ← length_spelled, ← hlen] at hfit
  rw [hl, ← hlen, ← hmap]
  have := copyName_text (a := []) h hw (Or.inr rfl) hoff hfit hq
  rw [List.nil_append, List.nil_append, List.length_nil, Nat.zero_add] at this
  exact this

/-- For every reply whose name is shorter than the buffer. -/
theorem decodes_iff (x : Reply) (buf : Mem) (hname : (joined x.labels).length < buf.length)
    (hasked : (joined x.address.asked).length + 1 < buf.length ∨ x.address.host ≠ 0) :
    Decodes x buf ↔ Told x buf.length := by
  by_cases hfit : (joined x.address.asked).length + 1 < buf.length
  · obtain ⟨pkt, q, off, buf', hpkt, hbuf, hoff, hq, hdec⟩ := decode_fits x hfit
    rw [← hbuf] at hname hfit
    have decided : ∀ {b : Mem} {s : List UInt8}, decodePTRResponse pkt buf = some (b, x.address.host) → cstr b 0 = some s →
        (Decodes x buf ↔ s = stripLocal (joined x.labels)) := by
      intro b s hd hs
      constructor
      · rintro ⟨pkt', r, hpkt', hr, hcs, -⟩
        obtain rfl : pkt = pkt' := Option.some.inj (hpkt.symm.trans hpkt')
        obtain rfl : (b, x.address.host) = r := Option.some.inj (hd.symm.trans hr)
        exact Option.some.inj (hs.symm.trans hcs)
      · rintro rfl
        exact ⟨pkt, _, hpkt, hd, hs, rfl⟩
    have told : Told x buf'.length ↔ (∀ l ∈ x.labels.tail, l.length < 32 ∨ l.length = 46) ∧ joined x.labels ≠ dotLocal ∧
        (x.labels = [] → x.more.head? = none ∨ x.more.head? = some 0) :=
      ⟨fun h => ⟨h.labels, h.name, h.empty⟩, fun h => ⟨hfit, h.1, h.2.1, h.2.2⟩⟩
    rw [← hbuf, told]
    cases hl : x.labels with
    | cons l ls =>
      have hcopy := copyName_labels x hl hoff hq hname
      rw [hl] at hcopy hname
      have hs : 0 ∉ spelled (l :: ls) := hl ▸ notMem_spelled x.printable
      obtain ⟨b, hb, hcs⟩ := finish_text hs (r := buf'.drop (spelled (l :: ls)).length)
        (by rw [List.length_drop, length_spelled]; omega)
      rw [hcopy, Option.bind_some] at hdec
      simp only at hdec
      rw [hb, Option.map_some] at hdec
      have h63 : ∀ l' ∈ l :: ls, l'.length ≤ 63 := fun l' h' => (x.printable l' (hl ▸ h')).1.2
      rw [decided hdec hcs, hl, codeCut_eq_stripLocal (length_spelled _), spelled_iff h63]
      exact ⟨fun h => ⟨h.1, h.2, (fun h' => by cases h')⟩, fun h => ⟨h.1, h.2.1⟩⟩
    | nil =>
      rw [tail_empty x hl] at hq
      by_cases hmore : x.more.head? = none ∨ x.more.head? = some 0
      · have hcopy := copyName_text (a := []) (b := buf') (w := []) (n := q.length + 1) hq List.not_mem_nil hmore hoff
          (by rw [List.length_nil]; omega) (Nat.succ_pos _)
        obtain ⟨b, hb, hcs⟩ := finish_text (s := []) (r := buf') List.not_mem_nil (by omega)
        rw [show copyName q (q.length + 1) off 0 buf' = some (0, buf') from hcopy, Option.bind_some] at hdec
        simp only at hdec
        rw [show store buf' (cutLocal buf' 0) 0 = some b from hb, Option.map_some] at hdec
        rw [decided hdec hcs, hl, joined_nil, stripLocal_nil]
        refine ⟨fun _ => ⟨(fun l h => by cases h), ?_, fun _ => hmore⟩, fun _ => by decide⟩
        intro h
        have := congrArg List.length h
        rw [length_dotLocal] at this
        cases this
      · refine ⟨fun h => ?_, fun h => absurd (h.2.2 rfl) hmore⟩
        obtain ⟨pkt', r, hpkt', hr, hcs, -⟩ := h
        obtain rfl : pkt = pkt' := Option.some.inj (hpkt.symm.trans hpkt')
        rw [hl, joined_nil, stripLocal_nil] at hcs
        rw [hr] at hdec
        obtain ⟨s, hs, hdec⟩ := Option.bind_eq_some_iff.mp hdec.symm
        obtain ⟨b, hb, rfl⟩ := Option.map_eq_some_iff.mp hdec
        cases hm : x.more with
        | nil => exact absurd (Or.inl (by rw [hm]; rfl)) hmore
        | cons c t =>
          rw [hm] at hq
          have hc : c ≠ 0 := fun h0 => hmore (Or.inr (by rw [hm, h0]; rfl))
          exact absurd hcs (copied_nonempty hq hc (by omega) hs hb)
  · have hhost : x.address.host ≠ 0 := hasked.resolve_left hfit
    exact ⟨fun h => absurd h (decode_long x hfit hhost), fun h => absurd h.question hfit⟩

/-- What is returned of a reply, and for which packets and buffers each decoder stays within them. -/
theorem decoders_law (x : Reply) (pkt buf : Mem) (n : ℕ) :
    ((joined x.labels).length < buf.length →
      ((joined x.address.asked).length + 1 < buf.length ∨ x.address.host ≠ 0) → (Decodes x buf ↔ Told x buf.length)) ∧
    (Reads (decodePTRResponse pkt buf) (fun r => Filled buf r.1) ↔ 6 ≤ pkt.length ∧ 0 < buf.length) ∧
    (Reads (decodeAnyResponse pkt buf) (Filled buf) ↔ 0 < buf.length) ∧
    ((∀ out : Mem, out.length = n → Reads (decodeNetBIOS pkt out) (Filled out)) ↔
      0 < n ∧ ∀ offset, nbName pkt = some (some offset) → 16 ≤ n ∧ NameEnds (pkt.drop offset)) :=
  ⟨decodes_iff x buf, decodePTRResponse_ok pkt buf, decodeAnyResponse_ok pkt buf, decodeNetBIOS_ok pkt n⟩

/-- `a.bb…b` with a second label of 32 characters, for 192.168.2.20. -/
def longLabel : Reply where
  address := ⟨192, 168, 2, 20⟩
  tid := 0
  mdnsbuf := List.replicate 512 0
  room := by
    rw [List.length_replicate]
    decide
  trId := 0
  flags := 0x8400
  authorityRrs := 0
  additionalRrs := 0
  rrClass := 1
  ttlHigh := 0
  ttlLow := 120
  labels := [[ch 'a'], List.replicate 32 (ch 'b')]
  printable := by
    intro l hl
    rw [List.mem_cons, List.mem_singleton] at hl
    rcases hl with rfl | rfl
    · exact ⟨by decide, List.all_iff_forall_prop.mp (by decide)⟩
    · exact ⟨by decide, fun c hc => by rw [List.eq_of_mem_replicate hc]; decide⟩
  more := []

/-- The length of a long label is taken for a blank, not for a dot. -/
theorem long_label_misread : (joined longLabel.labels).length < (List.replicate 128 (0 : UInt8)).length ∧
    ¬ Decodes longLabel (List.replicate 128 0) := by
  have hname : (joined longLabel.labels).length < (List.replicate 128 (0 : UInt8)).length := by decide +kernel
  have hasked : (joined longLabel.address.asked).length + 1 < (List.replicate 128 (0 : UInt8)).length := by
    have := length_query_le longLabel.address
    rw [List.length_replicate]
    omega
  refine ⟨hname, fun h => ?_⟩
  have := ((decodes_iff _ _ hname (Or.inl hasked)).mp h).labels _ (List.mem_singleton_self _)
  rw [List.length_replicate] at this
  omega

end Ntopng.Protocols.MdnsReply
