/-
  Ntopng.Protocols.MdnsNames — what becomes of a name of a response in the work buffer
  (`_dissectMDNS`, src/NetworkDiscovery.cpp).

  The code does not go along with the labels: it starts somewhere near the first of them
  (`Start`), copies bytes up to a NUL or a pointer, and after a pointer the labels in place
  where it leads (`Ends`).

  Proved: where the reading of a name ends and what is copied (`readName_wireName`), for names
  with at most one pointer that is followed; that questions are skipped, and where what comes
  next is met (`skipQueries_all`); that the copy of a spelled name is its text (`spelled_text`);
  and the data of a PTR (`readData_ptr`).
-/

import Ntopng.Protocols.MdnsResponses

namespace Ntopng.Protocols.MdnsNames

open Ntopng.Lib.CString Ntopng.Lib.DnsName
open Ntopng.Protocols.Mdns (headerLen ntohs)
open Ntopng.Protocols.MdnsReply (be16)
open Ntopng.Protocols.MdnsDissect Ntopng.Protocols.MdnsResponses

variable {buf : Mem} {w w' s rest a b : List UInt8} {o n : ℕ}

/-! ## Bytes of a name -/

/-- How a byte of a name is copied. -/
def dotted (c : UInt8) : UInt8 := if c < 32 then ch '.' else c

theorem dotted_ne_zero {c : UInt8} (h : Passes c) : dotted c ≠ 0 := by
  unfold dotted
  split
  · decide
  · exact h.1

theorem passes_clear {c : UInt8} (h : Clear c) : Passes c := by
  refine ⟨?_, h.2⟩
  rintro rfl
  exact absurd h.1 (by decide)

theorem dotted_clear {c : UInt8} (h : Clear c) : dotted c = c := by
  have hnot : ¬ c < 32 := by
    have := UInt8.le_iff_toNat_le.mp h.1
    rw [UInt8.lt_iff_toNat_lt]
    omega
  exact if_neg hnot

/-- Where a copy behind a pointer ends: with a NUL, or a pointer that does not go forward. -/
def Stops (o : ℕ) (s : List UInt8) : Prop := (∃ r, s = 0 :: r) ∨ ∃ lo r, s = 0xC0 :: lo :: r ∧ lo.toNat ≤ o

/-- A loop that copies the bytes of a name one by one copies a row of them. -/
theorem copy_bytes {α : Type} (F : ℕ → ℕ → ℕ → Mem → Option α)
    (hF : ∀ n o idx m c, buf[o]? = some c → Passes c → idx < rspLen - 1 →
      F (n + 1) o idx m = (store m idx (dotted c)).bind fun m => F n (o + 1) (idx + 1) m)
    (h : buf.drop o = w ++ s) (hw : ∀ c ∈ w, Passes c) (hidx : a.length + w.length < rspLen) (hb : w.length ≤ b.length) :
    F (w.length + n) o a.length (a ++ b) =
      F n (o + w.length) (a.length + w.length) (a ++ w.map dotted ++ b.drop w.length) := by
  induction w generalizing o a b with
  | nil => simp
  | cons c w ih =>
    rw [List.forall_mem_cons] at hw
    rw [List.length_cons] at hb hidx
    obtain ⟨y, b, rfl⟩ := List.exists_cons_of_length_pos (Nat.lt_of_lt_of_le (Nat.succ_pos _) hb)
    rw [List.length_cons] at hb
    have hidx' : (a ++ [dotted c]).length + w.length < rspLen := by
      rw [List.length_append, List.length_singleton]
      omega
    have ih := ih (a := a ++ [dotted c]) (b := b) (drop_succ h) hw.2 hidx' (by omega)
    rw [List.length_append, List.length_singleton, List.append_assoc, List.singleton_append] at ih
    rw [List.length_cons, Nat.add_right_comm, hF _ _ _ _ c (get_drop h) hw.1 (by omega), store_at rfl, Option.bind_some, ih]
    simp [Nat.add_assoc, Nat.add_comm 1]

theorem follow_copy {idx : ℕ} {m : Mem} {c : UInt8} (hc : buf[o]? = some c) (hp : Passes c) (hidx : idx < rspLen - 1) :
    follow buf (n + 1) o idx m = (store m idx (dotted c)).bind fun m => follow buf n (o + 1) (idx + 1) m := by
  have hin : idx < rspLen - 1 ∧ o < buf.length := ⟨hidx, (List.getElem?_eq_some_iff.mp hc).1⟩
  rw [follow, if_pos hin, hc, Option.bind_some, if_neg hp.1, dotted]
  by_cases hlt : c < 32
  · rw [if_pos hlt, if_pos hlt]
  · rw [if_neg hlt, if_neg hp.2, if_neg hlt]

theorem walk_copy {idx : ℕ} {m : Mem} {c : UInt8} (hc : buf[o]? = some c) (hp : Passes c) (hidx : idx < rspLen - 1) :
    walk buf (n + 1) ⟨o, idx, false, m⟩ =
      (store m idx (dotted c)).bind fun m => walk buf n ⟨o + 1, idx + 1, false, m⟩ := by
  have hin : o < buf.length ∧ idx < rspLen - 1 := ⟨(List.getElem?_eq_some_iff.mp hc).1, hidx⟩
  rw [walk, if_pos hin, hc, Option.bind_some, if_neg hp.1, dotted]
  by_cases hlt : c < 32
  · rw [if_pos hlt, if_pos hlt]
  · rw [if_neg hlt, if_neg hp.2, if_neg hlt]

theorem follow_stop {idx : ℕ} {m : Mem} (h : buf.drop o = s) (hs : Stops o s) :
    follow buf (n + 1) o idx m = some (idx, m) := by
  rw [follow]
  split
  · rcases hs with ⟨r, rfl⟩ | ⟨lo, r, rfl, hlo⟩
    · rw [get_drop h, Option.bind_some, if_pos rfl]
    · have hlo' := get_drop (drop_succ h)
      have hnext : o + 1 < buf.length := (List.getElem?_eq_some_iff.mp hlo').1
      rw [get_drop h, Option.bind_some, if_neg (by decide), if_neg (by decide), if_pos rfl, if_neg (by omega), hlo',
        Option.bind_some, if_pos hlo]
  · rfl

theorem follow_word (h : buf.drop o = w ++ s) (hw : ∀ c ∈ w, Passes c) (hs : Stops (o + w.length) s)
    (hidx : a.length + w.length < rspLen) (hb : w.length ≤ b.length) :
    follow buf followRounds o a.length (a ++ b) =
      some (a.length + w.length, a ++ w.map dotted ++ b.drop w.length) := by
  have hrsp : rspLen = 512 := rfl
  have hrounds : followRounds = w.length + (followRounds - w.length - 1 + 1) := by
    have : followRounds = 131072 := rfl
    omega
  have hdrop : buf.drop (o + w.length) = s := by rw [← List.drop_drop, h, List.drop_left]
  have hcopy := copy_bytes (n := followRounds - w.length - 1 + 1) (follow buf) (fun _ _ _ _ _ => follow_copy) h hw hidx hb
  rw [hrounds, hcopy, follow_stop hdrop hs]

theorem walk_bytes (h : buf.drop o = w ++ s) (hw : ∀ c ∈ w, Passes c) (hlen : w.length < rspLen) {m : Mem}
    (hm : m.length = rspLen) :
    walk buf (w.length + n) ⟨o, 0, false, m⟩ =
      walk buf n ⟨o + w.length, w.length, false, w.map dotted ++ m.drop w.length⟩ := by
  have hidx : ([] : List UInt8).length + w.length < rspLen := by
    rw [List.length_nil]
    omega
  have hcopy := copy_bytes (n := n) (fun n o idx m => walk buf n ⟨o, idx, false, m⟩) (fun _ _ _ _ _ => walk_copy) h hw hidx
    (b := m) (by omega)
  simpa only [List.nil_append, List.length_nil, Nat.zero_add] using hcopy

/-- What a pointer leads to is copied, and one byte is left out. -/
theorem walk_pointer {lo : UInt8} (h : buf.drop o = w ++ 0xC0 :: lo :: rest) (hw : ∀ c ∈ w, Passes c)
    (h' : buf.drop lo.toNat = w' ++ s) (hw' : ∀ c ∈ w', Passes c) (hs : Stops (lo.toNat + w'.length) s)
    (hlen : (w ++ w').length < rspLen - 1) {m : Mem} (hm : m.length = rspLen) :
    walk buf (w.length + (n + 1)) ⟨o, 0, false, m⟩ =
      walk buf n ⟨o + w.length + 2, (w ++ w').length + 1, true, (w ++ w').map dotted ++ m.drop (w ++ w').length⟩ := by
  rw [List.length_append] at hlen
  have hdrop : buf.drop (o + w.length) = 0xC0 :: lo :: rest := by rw [← List.drop_drop, h, List.drop_left]
  have hlo := get_drop (drop_succ hdrop)
  have hnext : o + w.length + 1 < buf.length := (List.getElem?_eq_some_iff.mp hlo).1
  have hpointer : pointerAt buf (o + w.length) = some lo.toNat := by
    rw [pointerAt, if_pos hnext, hlo, Option.map_some]
  have hin : o + w.length < buf.length ∧ w.length < rspLen - 1 := by omega
  have hfollow := follow_word (a := w.map dotted) (b := m.drop w.length) h' hw' hs (by rw [List.length_map]; omega)
    (by rw [List.length_drop]; omega)
  rw [List.length_map] at hfollow
  rw [walk_bytes h hw (by omega) hm, walk, if_pos hin, get_drop hdrop, Option.bind_some, if_neg (by decide),
    if_neg (by decide), if_pos rfl, hpointer, Option.bind_some, hfollow, Option.bind_some, List.map_append, List.drop_drop,
    List.length_append]

theorem walk_nul {idx : ℕ} {p : Bool} {m : Mem} (h : buf.drop o = 0 :: rest) (hidx : idx < rspLen - 1) :
    walk buf (n + 1) ⟨o, idx, p, m⟩ = some ⟨if p then o - 1 else o, idx, p, m⟩ := by
  have hc := get_drop h
  have hin : o < buf.length ∧ idx < rspLen - 1 := ⟨(List.getElem?_eq_some_iff.mp hc).1, hidx⟩
  rw [walk, if_pos hin, hc, Option.bind_some, if_pos rfl]

/-! ## Names -/

/-- The bytes of a name from where the code starts: it may start with another byte, or without its first. -/
inductive Start : (w : List UInt8) → (labels : Name) → Prop where
  | exact (ls : Name) : Start (wire ls) ls
  | early (c : UInt8) (ls : Name) (h : Passes c) : Start (c :: wire ls) ls
  | late (l : List UInt8) (ls : Name) : Start (l ++ wire ls) (l :: ls)

/-- How a name ends, and what stands where a pointer leads. -/
inductive Ends (buf : Mem) : (e w' : List UInt8) → Prop where
  | nul : Ends buf [0] []
  | pointer (lo : UInt8) (w' s : List UInt8) (h : buf.drop lo.toNat = w' ++ s) (hw' : ∀ c ∈ w', Passes c)
      (hs : Stops (lo.toNat + w'.length) s) : Ends buf [0xC0, lo] w'

theorem notMem_map_dotted (h : ∀ c ∈ w, Passes c) : 0 ∉ w.map dotted := by
  intro h0
  rcases List.mem_map.mp h0 with ⟨c, hc, hzero⟩
  exact dotted_ne_zero (h c hc) hzero

/-- A name is read up to the last byte of its end. -/
theorem readName_word {e : List UInt8} (he : Ends buf e w') (h : buf.drop o = w ++ (e ++ rest))
    (hrest : e = [0] ∨ ∃ r, rest = 0 :: r) (hw : ∀ c ∈ w, Passes c) (hlen : (w ++ w').length < rspLen - 2) {m : Mem}
    (hm : m.length = rspLen) :
    ∃ m', readName buf o m = some (o + w.length + (e.length - 1), m') ∧ m'.length = rspLen ∧
      (m = zeros → cstr m' 0 = some ((w ++ w').map dotted)) := by
  have hrsp : rspLen = 512 := rfl
  cases he with
  | nul =>
    rw [List.append_nil] at hlen ⊢
    have hdrop : buf.drop (o + w.length) = 0 :: rest := by
      rw [← List.drop_drop, h, List.drop_left]
      rfl
    have hn : rspLen = w.length + (rspLen - w.length - 1 + 1) := by omega
    have hwalk : walk buf rspLen ⟨o, 0, false, m⟩ = some ⟨o + w.length, w.length, false, w.map dotted ++ m.drop w.length⟩ := by
      rw [hn, walk_bytes h hw (by omega) hm, walk_nul hdrop (by omega)]
      rfl
    obtain ⟨y, r, hr⟩ := List.exists_cons_of_length_pos (show 0 < (m.drop w.length).length by rw [List.length_drop]; omega)
    refine ⟨w.map dotted ++ 0 :: r, ?_, ?_, fun _ => ?_⟩
    · rw [readName, hwalk, Option.bind_some]
      dsimp only
      rw [if_neg (by omega), hr, store_at (List.length_map _).symm, Option.map_some]
      rfl
    · have hlen' := congrArg List.length hr
      rw [List.length_drop, List.length_cons] at hlen'
      rw [List.length_append, List.length_map, List.length_cons]
      omega
    · exact scan_append (notMem_map_dotted hw) r
  | pointer lo w' s h' hw' hs =>
    rcases hrest with hrest | ⟨r, rfl⟩
    · cases hrest
    have hpass : ∀ c ∈ w ++ w', Passes c := fun c hc => (List.mem_append.mp hc).elim (hw c) (hw' c)
    have hdrop : buf.drop (o + w.length + 2) = 0 :: r := by
      rw [Nat.add_assoc, ← List.drop_drop, h, ← List.drop_drop, List.drop_left]
      rfl
    have hlen' : w.length ≤ (w ++ w').length := by
      rw [List.length_append]
      exact Nat.le_add_right _ _
    have hn : rspLen = w.length + (rspLen - w.length - 2 + 1 + 1) := by omega
    have hwalk : walk buf rspLen ⟨o, 0, false, m⟩ =
        some ⟨o + w.length + 1, (w ++ w').length + 1, true, (w ++ w').map dotted ++ m.drop (w ++ w').length⟩ := by
      rw [hn, walk_pointer h hw h' hw' hs (by omega) hm, walk_nul hdrop (by omega)]
      rfl
    -- Behind the copy one byte is left as it was.
    obtain ⟨x, r1, hr1⟩ :=
      List.exists_cons_of_length_pos (show 0 < (m.drop (w ++ w').length).length by rw [List.length_drop]; omega)
    have hlen1 := congrArg List.length hr1
    rw [List.length_drop, List.length_cons] at hlen1
    obtain ⟨y, r2, rfl⟩ := List.exists_cons_of_length_pos (show 0 < r1.length by omega)
    rw [List.length_cons] at hlen1
    refine ⟨(w ++ w').map dotted ++ x :: 0 :: r2, ?_, ?_, fun hz => ?_⟩
    · have hplace : (w ++ w').length + 1 = ((w ++ w').map dotted ++ [x]).length := by
        simp only [List.length_append, List.length_map, List.length_singleton]
      have hstore : store (((w ++ w').map dotted ++ [x]) ++ y :: r2) ((w ++ w').length + 1) 0 =
          some (((w ++ w').map dotted ++ [x]) ++ 0 :: r2) := store_at hplace 0
      rw [List.append_assoc, List.append_assoc, List.singleton_append, List.singleton_append] at hstore
      rw [readName, hwalk, Option.bind_some]
      dsimp only
      rw [if_neg (by omega), hr1, hstore, Option.map_some]
      rfl
    · rw [List.length_append, List.length_map, List.length_cons, List.length_cons]
      omega
    · have hx : x = 0 := by
        have hmem : x ∈ m := List.mem_of_mem_drop (hr1 ▸ List.mem_cons_self ..)
        rw [hz] at hmem
        exact List.eq_of_mem_replicate hmem
      rw [hx]
      exact scan_append (notMem_map_dotted hpass) (0 :: r2)

theorem wire_append (ls ls' : Name) : wire (ls ++ ls') = wire ls ++ wire ls' := List.flatMap_append

theorem name_labels (n : WireName) : ∃ ls, n.name = n.labels ++ ls := by
  cases n with
  | plain ls => exact ⟨[], (List.append_nil ls).symm⟩
  | pointer ls target rest => exact ⟨rest.name, rfl⟩

theorem name_behind (n : WireName) : ∃ ls, n.name = n.labels ++ n.behind ++ ls := by
  cases n with
  | plain ls =>
    refine ⟨[], ?_⟩
    rw [List.append_nil]
    exact (List.append_nil ls).symm
  | pointer ls target rest =>
    obtain ⟨ls', hname⟩ := name_labels rest
    refine ⟨ls', ?_⟩
    rw [WireName.name, hname, List.append_assoc]
    rfl

theorem name_direct {n : WireName} (h : n.Direct) : n.name = n.labels ++ n.behind := by
  cases n with
  | plain ls => exact (List.append_nil ls).symm
  | pointer ls target rest =>
    cases rest with
    | plain ls' => rfl
    | pointer ls' target' rest' =>
      rw [WireName.name, WireName.name, h.2.2, List.append_nil]
      rfl

theorem skipped_direct {n : WireName} (h : n.Direct) : n.Skipped := by
  cases n with
  | plain ls => trivial
  | pointer ls target rest =>
    refine ⟨h.1, ?_⟩
    cases rest with
    | plain ls' => trivial
    | pointer => exact h.2.1

theorem ending_near {ls : Name} {target : ℕ} {r : WireName} (h : target < 256) :
    (WireName.pointer ls target r).ending = [0xC0, UInt8.ofNat target] ∧ (UInt8.ofNat target).toNat = target := by
  have hdiv : target / 256 = 0 := Nat.div_eq_of_lt h
  have hmod : target % 256 = target := Nat.mod_eq_of_lt h
  rw [WireName.ending, hdiv, hmod, UInt8.toNat_ofNat']
  exact ⟨rfl, hmod⟩

theorem ends_wireName {n : WireName} (hs : n.Skipped) (hplaced : n.Placed buf o)
    (hw' : ∀ c ∈ wire n.behind, Passes c) : Ends buf n.ending (wire n.behind) := by
  cases n with
  | plain ls => exact .nul
  | pointer ls target r =>
    obtain ⟨-, -, ⟨s, hr⟩, hplaced'⟩ := hplaced
    obtain ⟨hending, htarget⟩ := @ending_near ls target r hs.1
    rw [hending]
    have hdrop : buf.drop (UInt8.ofNat target).toNat = wire r.labels ++ (r.ending ++ s) := by
      rw [htarget, ← hr, WireName.bytes, List.append_assoc]
    refine .pointer _ _ _ hdrop hw' ?_
    cases r with
    | plain ls' => exact .inl ⟨s, rfl⟩
    | pointer ls' target' r' =>
      obtain ⟨hending', htarget'⟩ := @ending_near ls' target' r' hs.2
      refine .inr ⟨UInt8.ofNat target', s, by rw [hending']; rfl, ?_⟩
      rw [htarget', htarget]
      exact Nat.le_of_lt hplaced'.1

theorem passes_wire {ls : Name} (hlen : ∀ l ∈ ls, 1 ≤ l.length ∧ l.length ≤ 63) (h : ∀ l ∈ ls, ∀ c ∈ l, Passes c) :
    ∀ c ∈ wire ls, Passes c := by
  intro c hc
  obtain ⟨l, hl, hc⟩ := List.mem_flatMap.mp hc
  rcases List.mem_cons.mp hc with rfl | hc
  · have hl' := hlen l hl
    have hnat : (UInt8.ofNat l.length).toNat = l.length := by
      rw [UInt8.toNat_ofNat']
      omega
    constructor
    · intro h0
      rw [h0] at hnat
      exact absurd hnat (by rw [UInt8.toNat_zero]; omega)
    · intro h0
      rw [h0] at hnat
      exact absurd hnat (by simp only [UInt8.reduceToNat]; omega)
  · exact h l hl c hc

theorem Start.length_le {ls : Name} (h : Start w ls) : w.length ≤ (wire ls).length + 1 := by
  cases h with
  | exact => exact Nat.le_succ _
  | early c ls hc => exact Nat.le_refl _
  | late l ls =>
    rw [wire_cons, List.length_cons]
    omega

theorem Start.passes {ls : Name} (h : Start w ls) (hls : ∀ c ∈ wire ls, Passes c) : ∀ c ∈ w, Passes c := by
  cases h with
  | exact => exact hls
  | early c ls hc => exact List.forall_mem_cons.mpr ⟨hc, hls⟩
  | late l ls =>
    rw [wire_cons] at hls
    exact (List.forall_mem_cons.mp hls).2

theorem readName_wireName {n : WireName} {offset : ℕ} (hlegal : n.Legal) (hplaced : n.Placed buf offset) (hs : n.Skipped)
    (hp : ∀ l ∈ n.labels ++ n.behind, ∀ c ∈ l, Passes c) (hstart : Start w n.labels) (h : buf.drop o = w ++ (n.ending ++ rest))
    (hrest : n.ending = [0] ∨ ∃ r, rest = 0 :: r) {m : Mem} (hm : m.length = rspLen) :
    ∃ m', readName buf o m = some (o + w.length + (n.ending.length - 1), m') ∧ m'.length = rspLen ∧
      (m = zeros → cstr m' 0 = some ((w ++ wire n.behind).map dotted)) := by
  have hrsp : rspLen = 512 := rfl
  obtain ⟨ls, hname⟩ := name_behind n
  obtain ⟨hlabels, hlen⟩ := hlegal
  rw [hname, wire_append, wire_append, List.length_append, List.length_append] at hlen
  rw [hname, List.forall_mem_append] at hlabels
  have hpass := passes_wire hlabels.1 hp
  rw [wire_append] at hpass
  have hw := hstart.passes fun c hc => hpass c (List.mem_append_left _ hc)
  have hwlen := hstart.length_le
  have hbehind : ∀ c ∈ wire n.behind, Passes c := fun c hc => hpass c (List.mem_append_right _ hc)
  refine readName_word (ends_wireName hs hplaced hbehind) h hrest hw ?_ hm
  rw [List.length_append]
  omega

/-! ## Questions -/

theorem be16_small {v : UInt16} (h : v.toNat < 256) : be16 v = [0, v.toUInt8] := by
  have hhigh : (v >>> 8).toUInt8 = 0 := by
    rw [← UInt8.toNat_inj, UInt16.toNat_toUInt8, UInt16.toNat_shiftRight]
    simp only [UInt16.reduceToNat, UInt8.toNat_zero, Nat.shiftRight_eq_div_pow]
    show v.toNat / 256 % 256 = 0
    omega
  rw [be16, hhigh]

/-- A question is skipped up to the last byte of its class. -/
theorem skipQuery {q : Question} {offset : ℕ} (hlegal : q.name.Legal) (hplaced : q.name.Placed buf offset) (hs : q.Skipped)
    (hstart : Start w q.name.labels) (h : buf.drop o = w ++ (q.name.ending ++ (be16 q.qtype ++ be16 q.qclass ++ rest)))
    {m : Mem} (hm : m.length = rspLen) :
    ∃ e m', readName buf o m = some (e, m') ∧ m'.length = rspLen ∧ buf.drop (e + 4) = q.qclass.toUInt8 :: rest := by
  have hrest : q.name.ending = [0] ∨ ∃ r, be16 q.qtype ++ be16 q.qclass ++ rest = 0 :: r := by
    refine hs.qtype.imp_right fun hsmall => ?_
    rw [be16_small hsmall]
    exact ⟨_, rfl⟩
  obtain ⟨m', hread, hm', -⟩ := readName_wireName hlegal hplaced hs.direct hs.passes hstart h hrest hm
  refine ⟨_, m', hread, hm', ?_⟩
  have hpos : 0 < q.name.ending.length := by
    cases q.name <;> exact Nat.succ_pos _
  have hplace : o + w.length + (q.name.ending.length - 1) + 4 = o + (w.length + (q.name.ending.length + 3)) := by omega
  rw [hplace, ← List.drop_drop, h, ← List.drop_drop, List.drop_left, ← List.drop_drop, List.drop_left]
  rfl

/-- Questions, with a byte in front of them: one that passes is in front of what follows as well. -/
theorem skipQueries_early {qs : List Question} {offset : ℕ} {x : UInt8} (hlegal : QuestionsLegal buf offset qs)
    (hs : ∀ q ∈ qs, q.Skipped) (hx : Passes x) (h : buf.drop o = x :: (qs.flatMap Question.bytes ++ rest)) {m : Mem}
    (hm : m.length = rspLen) :
    ∃ e m', skipQueries buf qs.length o m = some (e, m') ∧ ∃ y, Passes y ∧ buf.drop e = y :: rest := by
  induction qs generalizing o offset x m with
  | nil => exact ⟨o, m, rfl, x, hx, h⟩
  | cons q qs ih =>
    rw [List.forall_mem_cons] at hs
    obtain ⟨hname, hplaced, hlegal'⟩ := hlegal
    have ho : o < buf.length := (List.getElem?_eq_some_iff.mp (get_drop h)).1
    have hq : buf.drop o = (x :: wire q.name.labels) ++
        (q.name.ending ++ (be16 q.qtype ++ be16 q.qclass ++ (qs.flatMap Question.bytes ++ rest))) := by
      rw [h, List.flatMap_cons, Question.bytes, WireName.bytes]
      simp only [List.append_assoc, List.cons_append]
    obtain ⟨e, m1, hread, hm1, hdrop⟩ := skipQuery hname hplaced hs.1 (.early x _ hx) hq hm
    obtain ⟨e', m', hskip, hrest⟩ := ih hlegal' hs.2 hs.1.qclass hdrop hm1
    refine ⟨e', m', ?_, hrest⟩
    rw [List.length_cons, skipQueries, if_pos ho, hread]
    exact hskip

/-- Where what follows the questions is met: behind its first byte, with a byte in front of it, or at its start. -/
inductive Ahead (buf : Mem) (o : ℕ) (rest : List UInt8) : List Question → Prop where
  | late (h : buf.drop o = rest.tail) : Ahead buf o rest []
  | early (qs : List Question) (y : UInt8) (hy : Passes y) (h : buf.drop o = y :: rest) : Ahead buf o rest qs
  | exact (q : Question) (hq : q.Root) (h : buf.drop o = rest) : Ahead buf o rest [q]

theorem skipQueries_some {k e : ℕ} {m m' : Mem} (ho : o < buf.length) (hread : readName buf o m = some (e, m')) :
    skipQueries buf (k + 1) o m = skipQueries buf k (e + 4) m' := by
  rw [skipQueries, if_pos ho, hread]
  rfl

theorem drop_lt (h : buf.drop o = s) (hs : s ≠ []) : o < buf.length := by
  have hpos := List.length_pos_iff.mpr hs
  rw [← h, List.length_drop] at hpos
  omega

/-- A question that is met at its start or behind its first byte, and others. -/
theorem skipQueries_cons {q : Question} {qs : List Question} {offset : ℕ} (hlegal : QuestionsLegal buf offset (q :: qs))
    (hs : ∀ q' ∈ q :: qs, q'.Skipped) (hstart : Start w q.name.labels)
    (h : buf.drop o = w ++ (q.name.ending ++ (be16 q.qtype ++ be16 q.qclass ++ (qs.flatMap Question.bytes ++ rest))))
    {m : Mem} (hm : m.length = rspLen) :
    ∃ e m' y, skipQueries buf (qs.length + 1) o m = some (e, m') ∧ Passes y ∧ buf.drop e = y :: rest := by
  rw [List.forall_mem_cons] at hs
  obtain ⟨hname, hplaced, hlegal'⟩ := hlegal
  obtain ⟨e, m1, hread, hm1, hdrop⟩ := skipQuery hname hplaced hs.1 hstart h hm
  obtain ⟨e', m', hskip, y, hy, hrest⟩ := skipQueries_early hlegal' hs.2 hs.1.qclass hdrop hm1
  have hending : q.name.ending ≠ [] := by
    cases q.name <;> exact List.cons_ne_nil _ _
  have ho := drop_lt h (List.append_ne_nil_of_right_ne_nil _ (List.append_ne_nil_of_left_ne_nil hending _))
  exact ⟨e', m', y, (skipQueries_some ho hread).trans hskip, hy, hrest⟩

/-- A question for the root name is skipped from behind its name on, to its end. -/
theorem skipQuery_root {q : Question} (hq : q.Root) (h : buf.drop o = be16 q.qtype ++ be16 q.qclass ++ rest) {m : Mem}
    (hm : m.length = rspLen) :
    ∃ m', readName buf o m = some (o, m') ∧ m'.length = rspLen ∧ buf.drop (o + 4) = rest := by
  rw [be16_small hq.2] at h
  obtain ⟨m', hread, hm', -⟩ := readName_word (w := []) .nul h (.inl rfl) (fun c hc => nomatch hc) (by decide) hm
  refine ⟨m', hread, hm', ?_⟩
  rw [← List.drop_drop, h]
  rfl

theorem root_labels {q : Question} (hq : q.Root) : q.name.labels = [] := by
  have hbytes := hq.1
  rw [WireName.bytes] at hbytes
  cases hl : q.name.labels with
  | nil => rfl
  | cons l ls =>
    have hlen := congrArg List.length hbytes
    have hpos : 0 < q.name.ending.length := by
      cases q.name <;> exact Nat.succ_pos _
    rw [hl, wire_cons, List.length_append, List.length_cons, List.length_singleton] at hlen
    omega

/-- All questions are skipped. -/
theorem skipQueries_all {qs : List Question} {offset : ℕ} (hlegal : QuestionsLegal buf offset qs)
    (hfirst : ∀ q ∈ qs.head?, q.name.labels ≠ [] ∧ q.Skipped ∨ q.Root) (hs : ∀ q ∈ qs.tail, q.Skipped)
    (h : buf.drop o = (qs.flatMap Question.bytes ++ rest).tail) {m : Mem} (hm : m.length = rspLen) :
    ∃ e m', skipQueries buf qs.length o m = some (e, m') ∧ Ahead buf e rest qs := by
  cases qs with
  | nil => exact ⟨o, m, rfl, .late h⟩
  | cons q qs =>
    rcases hfirst q rfl with ⟨hne, hskipped⟩ | hroot
    · obtain ⟨l, ls, hls⟩ := List.exists_cons_of_ne_nil hne
      have hq : buf.drop o = (l ++ wire ls) ++
          (q.name.ending ++ (be16 q.qtype ++ be16 q.qclass ++ (qs.flatMap Question.bytes ++ rest))) := by
        rw [h, List.flatMap_cons, Question.bytes, WireName.bytes, hls, wire_cons]
        simp only [List.append_assoc, List.cons_append, List.tail_cons]
      obtain ⟨e, m', y, hskip, hy, hrest⟩ := skipQueries_cons hlegal (List.forall_mem_cons.mpr ⟨hskipped, hs⟩) (hls ▸ .late l ls) hq hm
      exact ⟨e, m', hskip, .early _ y hy hrest⟩
    · have hq : buf.drop o = be16 q.qtype ++ be16 q.qclass ++ (qs.flatMap Question.bytes ++ rest) := by
        rw [h, List.flatMap_cons, Question.bytes, hroot.1]
        simp only [List.append_assoc, List.cons_append, List.nil_append, List.tail_cons]
      have ho : o < buf.length := by
        refine drop_lt hq ?_
        rw [be16_small hroot.2]
        exact List.cons_ne_nil _ _
      obtain ⟨m1, hread, hm1, hdrop⟩ := skipQuery_root hroot hq hm
      rw [List.length_cons, skipQueries_some ho hread]
      cases qs with
      | nil => exact ⟨o + 4, m1, rfl, .exact q hroot hdrop⟩
      | cons q' qs =>
        have hq' : buf.drop (o + 4) = wire q'.name.labels ++
            (q'.name.ending ++ (be16 q'.qtype ++ be16 q'.qclass ++ (qs.flatMap Question.bytes ++ rest))) := by
          rw [hdrop, List.flatMap_cons, Question.bytes, WireName.bytes]
          simp only [List.append_assoc]
        obtain ⟨e, m', y, hskip, hy, hrest⟩ :=
          skipQueries_cons hlegal.2.2 hs (.exact _) hq' hm1
        exact ⟨e, m', hskip, .early _ y hy hrest⟩

/-! ## Text -/

theorem map_dotted_clear {l : List UInt8} (h : ∀ c ∈ l, Clear c) : l.map dotted = l := by
  rw [List.map_congr_left fun c hc => dotted_clear (h c hc), List.map_id']

theorem dotted_length {k : ℕ} (h : k < 32 ∨ k = 46) : dotted (UInt8.ofNat k) = ch '.' := by
  have hall : ∀ k < 47, k < 32 ∨ k = 46 → dotted (UInt8.ofNat k) = ch '.' := by decide
  exact hall k (by omega) h

theorem map_dotted_wire {ls : Name} (h : ∀ l ∈ ls, ∀ c ∈ l, Clear c) (hlen : ∀ l ∈ ls, l.length < 32 ∨ l.length = 46) :
    (wire ls).map dotted = dots ls := by
  induction ls with
  | nil => rfl
  | cons l ls ih =>
    rw [List.forall_mem_cons] at h hlen
    rw [wire_cons, dots_cons, List.map_cons, List.map_append, map_dotted_clear h.1, ih h.2 hlen.2, dotted_length hlen.1]

/-- A name that is spelled is copied as it is written, behind at most two bytes. -/
theorem spelled_text {n : WireName} (h : n.Spelled) (hstart : Start w n.labels) :
    ∃ pre, (w ++ wire n.behind).map dotted = pre ++ joined n.name ∧
      pre.length + (wire n.labels).length ≤ w.length + 1 := by
  have hname := name_direct h.direct
  cases hls : n.name with
  | nil =>
    -- the root name: there is at most the byte in front of it
    rw [hls, eq_comm, List.append_eq_nil_iff] at hname
    obtain ⟨hlabels, hbehind⟩ := hname
    rw [hlabels] at hstart ⊢
    refine ⟨w.map dotted, ?_, ?_⟩
    · rw [hbehind, List.map_append]
      rfl
    · rw [List.length_map]
      exact Nat.le_succ _
  | cons l ls =>
    have hclear := h.clear
    have hdots := h.dots
    rw [hls, List.forall_mem_cons] at hclear
    rw [hls, List.tail_cons] at hdots
    have hwire : (wire n.labels ++ wire n.behind).map dotted = dotted (UInt8.ofNat l.length) :: joined (l :: ls) := by
      rw [← wire_append, ← hname, hls, wire_cons, joined_cons, List.map_cons, List.map_append, map_dotted_clear hclear.1,
        map_dotted_wire hclear.2 hdots]
    generalize n.labels = labels at hstart hwire
    cases hstart with
    | exact ls' =>
      refine ⟨[dotted (UInt8.ofNat l.length)], hwire, ?_⟩
      rw [List.length_singleton, Nat.add_comm]
    | early c ls' hc =>
      refine ⟨[dotted c, dotted (UInt8.ofNat l.length)], congrArg (dotted c :: ·) hwire, ?_⟩
      simp only [List.length_cons, List.length_nil]
      omega
    | late l' ls' =>
      rw [wire_cons, List.cons_append, List.map_cons] at hwire
      refine ⟨[], (List.cons.inj hwire).2, ?_⟩
      rw [wire_cons, List.length_nil, List.length_cons, Nat.zero_add]

theorem cstr_take {m t : List UInt8} (h : m.take (t.length + 1) = t ++ [0]) (ht : 0 ∉ t) : cstr m 0 = some t := by
  have hm : m.drop 0 = t ++ 0 :: m.drop (t.length + 1) := by
    rw [List.drop_zero]
    conv_lhs => rw [← List.take_append_drop (t.length + 1) m, h, List.append_assoc, List.singleton_append]
  exact cstr_drop hm ht

/-- Whatever follows the name, its text is in the work buffer. -/
theorem walk_word {e : List UInt8} (he : Ends buf e w') (h : buf.drop o = w ++ (e ++ rest)) (hw : ∀ c ∈ w, Passes c)
    (hlen : (w ++ w').length < rspLen - 2) :
    Reads (walk buf rspLen ⟨o, 0, false, zeros⟩) fun x => x.idx ≤ rspLen ∧ x.rspbuf.length = rspLen ∧
      (x.idx = (w ++ w').length ∧ x.rspbuf.take (w ++ w').length = (w ++ w').map dotted ∨
        (w ++ w').length < x.idx ∧ x.rspbuf.take ((w ++ w').length + 1) = (w ++ w').map dotted ++ [0]) := by
  have hrsp : rspLen = 512 := rfl
  have hz := length_zeros
  have htake : ∀ v : List UInt8, v.length < rspLen →
      (v.map dotted ++ zeros.drop v.length).take (v.length + 1) = v.map dotted ++ [0] := by
    intro v hv
    have hdrop : zeros.drop v.length = 0 :: List.replicate (rspLen - v.length - 1) 0 := by
      rw [zeros, List.drop_replicate, ← List.replicate_succ]
      congr 1
      omega
    rw [hdrop, List.take_append, List.length_map, List.take_of_length_le (by rw [List.length_map]; omega),
      Nat.add_sub_cancel_left]
    rfl
  have hlength : ∀ v : List UInt8, v.length < rspLen → (v.map dotted ++ zeros.drop v.length).length = rspLen := by
    intro v hv
    rw [List.length_append, List.length_map, List.length_drop]
    omega
  cases he with
  | nul =>
    rw [List.append_nil] at hlen ⊢
    have hdrop : buf.drop (o + w.length) = 0 :: rest := by
      rw [← List.drop_drop, h, List.drop_left]
      rfl
    have hn : rspLen = w.length + (rspLen - w.length - 1 + 1) := by omega
    refine ⟨⟨o + w.length, w.length, false, w.map dotted ++ zeros.drop w.length⟩, ?_, by dsimp only; omega, hlength w (by omega),
      .inl ⟨rfl, ?_⟩⟩
    · conv_lhs => rw [hn]
      rw [walk_bytes h hw (by omega) hz, walk_nul hdrop (by omega)]
      rfl
    · exact List.take_left' (List.length_map _)
  | pointer lo w' s h' hw' hs =>
    have hlen' : w.length ≤ (w ++ w').length := by
      rw [List.length_append]
      exact Nat.le_add_right _ _
    have hn : rspLen = w.length + (rspLen - w.length - 1 + 1) := by omega
    have hwalk := walk_pointer (n := rspLen - w.length - 1) h hw h' hw' hs (by omega) hz
    rw [← hn] at hwalk
    rw [hwalk]
    have hok := @walk_ok buf (rspLen - w.length - 1) ⟨o + w.length + 2, (w ++ w').length + 1, true,
      (w ++ w').map dotted ++ zeros.drop (w ++ w').length⟩ (by dsimp only; omega) (by dsimp only; omega) (hlength _ (by omega))
    refine hok.mono fun x hx => ⟨hx.2.1, hx.2.2.1, .inr ⟨hx.1, ?_⟩⟩
    exact hx.2.2.2.trans (htake _ (by omega))

theorem passes_spelled {n : WireName} (h : n.Spelled) : ∀ l ∈ n.name, ∀ c ∈ l, Passes c := fun l hl c hc =>
  passes_clear (h.clear l hl c hc)

theorem joined_notMem {n : WireName} (hlegal : n.Legal) (h : n.Spelled) : 0 ∉ joined n.name := by
  have hpass := passes_wire hlegal.1 (passes_spelled h)
  have hclear := h.clear
  have hdots := h.dots
  cases hls : n.name with
  | nil => exact List.not_mem_nil
  | cons l ls =>
    rw [hls, wire_cons] at hpass
    rw [hls, List.forall_mem_cons] at hclear
    rw [hls, List.tail_cons] at hdots
    have htext : joined (l :: ls) = (l ++ wire ls).map dotted := by
      rw [joined_cons, List.map_append, map_dotted_clear hclear.1, map_dotted_wire hclear.2 hdots]
    rw [htext]
    exact notMem_map_dotted (List.forall_mem_cons.mp hpass).2

/-- The data of a PTR. -/
theorem readData_ptr {n : WireName} {offset : ℕ} (hlegal : n.Legal) (hplaced : n.Placed buf offset) (hs : n.Spelled)
    (hlabels : n.labels ≠ []) (h : buf.drop o = n.bytes ++ rest) (dataLen : ℕ) :
    ∃ m, readData buf typePtr dataLen o = some m ∧ cstr m 0 = some (joined n.name) := by
  have hrsp : rspLen = 512 := rfl
  obtain ⟨l, ls, hls⟩ := List.exists_cons_of_ne_nil hlabels
  have hpass := passes_wire hlegal.1 (passes_spelled hs)
  have hlen := hlegal.2
  rw [name_direct hs.direct, wire_append] at hpass
  rw [name_direct hs.direct, wire_append, List.length_append] at hlen
  have hstart : Start (l ++ wire ls) n.labels := hls ▸ .late l ls
  have hw := hstart.passes fun c hc => hpass c (List.mem_append_left _ hc)
  have hwlen := hstart.length_le
  have hends := ends_wireName (skipped_direct hs.direct) hplaced fun c hc => hpass c (List.mem_append_right _ hc)
  have hdrop : buf.drop (o + 1) = (l ++ wire ls) ++ (n.ending ++ rest) := by
    rw [← List.drop_drop, h, WireName.bytes, hls, wire_cons]
    simp only [List.append_assoc, List.cons_append, List.drop_succ_cons, List.drop_zero]
  obtain ⟨pre, htext, hpre⟩ := spelled_text hs hstart
  have hlate : (wire n.labels).length = (l ++ wire ls).length + 1 := by
    rw [hls, wire_cons, List.length_cons]
  have hpre0 : pre = [] := List.length_eq_zero_iff.mp (by omega)
  rw [hpre0, List.nil_append] at htext
  have hlen2 : ((l ++ wire ls) ++ wire n.behind).length < rspLen - 2 := by
    rw [List.length_append]
    omega
  have hlength : ((l ++ wire ls) ++ wire n.behind).length = (joined n.name).length := by
    rw [← htext, List.length_map]
  obtain ⟨x, hx, hidx, hxlen, hcase⟩ := walk_word hends hdrop hw hlen2
  rw [htext, hlength] at hcase
  rw [hlength] at hlen2
  have hplace : (if x.idx ≥ rspLen then rspLen - 1 else x.idx) < rspLen := by
    split <;> omega
  obtain ⟨m, hm, hkeeps⟩ := store_keeps hplace hxlen 0
  refine ⟨m, ?_, cstr_take ?_ (joined_notMem hlegal hs)⟩
  · rw [readData, if_pos rfl, hx, Option.bind_some, hm]
  · rcases hcase with ⟨hat, htake⟩ | ⟨hlt, htake⟩
    · have hnot : ¬ x.idx ≥ rspLen := by omega
      rw [if_neg hnot, store_some (by omega), Option.some.injEq, hat] at hm
      rw [← hm, List.take_add_one, List.take_set_of_le (Nat.le_refl _), htake, List.getElem?_set_self (by omega)]
      rfl
    · rw [← htake]
      have hle : (joined n.name).length + 1 ≤ if x.idx ≥ rspLen then rspLen - 1 else x.idx := by
        split <;> omega
      have hkeep := congrArg (List.take ((joined n.name).length + 1)) hkeeps.2
      rwa [List.take_take, List.take_take, Nat.min_eq_left hle] at hkeep

end Ntopng.Protocols.MdnsNames
