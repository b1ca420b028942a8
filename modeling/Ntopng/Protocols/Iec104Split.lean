/-
  Ntopng.Protocols.Iec104Split — the APDUs of a payload, and those that are visited
  (`IEC104Stats::processPacket`, src/IEC104Stats.cpp).

  A payload is split at the length fields: an APDU starts with its start byte and ends where
  its length says; what follows is an APDU if it starts like one. A type-I APDU has a type id,
  a cause of transmission and the address of its ASDU at fixed places.

  `Law`: the walk ends without a read past the payload, it visits the APDUs of the split, and
  records the fields of every type-I APDU, and nothing of one that is too short for them or
  cut before their end. The first part always holds (`walk_some`). The cause is read a byte
  early and the address after the offset was moved on; a start byte is not asked for after
  types S and U; a repeated type I ends the walk.

  Proved: the law holds exactly of the payloads that are regular (`law_iff_regular`).
-/

import Ntopng.Protocols.Iec104

namespace Ntopng.Protocols.Iec104Split

open Ntopng.Protocols.Iec104

/-! ## The split -/

section Payload

variable (payload : List UInt8) (p : ℕ)

def len : ℕ := (byteAt payload (p + 1)).toNat

/-- Where the APDU at `p` ends. -/
def after : ℕ := p + len payload p + 2

/-- A start byte, a length that is not 0, and the control field begins. -/
def Starts : Prop := p + 2 < payload.length ∧ byteAt payload p = 0x68 ∧ byteAt payload (p + 1) ≠ 0

instance : Decidable (Starts payload p) := inferInstanceAs (Decidable (_ ∧ _ ∧ _))

def split : ℕ → ℕ → List ℕ
  | 0, _ => []
  | fuel + 1, p => if Starts payload p then p :: split fuel (after payload p) else []

/-- The shortest APDU has six bytes. -/
def apdus : List ℕ := if 6 ≤ payload.length then split payload payload.length 0 else []

def TypeI : Prop := byteAt payload (p + 2) &&& 0x01 = 0

instance : Decidable (TypeI payload p) := inferInstanceAs (Decidable (_ = _))

structure Fields where
  typeId : UInt8
  cause : UInt8
  address : UInt16
  deriving DecidableEq, Repr

def word (i : ℕ) : UInt16 := (byteAt payload i).toUInt16 + (byteAt payload (i + 1)).toUInt16 <<< 8

/-- The fields of an ASDU are inside of the APDU, and the payload does not end before they do. -/
def HasFields : Prop := 10 ≤ len payload p ∧ p + 12 ≤ payload.length

instance : Decidable (HasFields payload p) := inferInstanceAs (Decidable (_ ∧ _))

def fieldsAt : Option Fields :=
  if HasFields payload p then some ⟨byteAt payload (p + 6), byteAt payload (p + 8) &&& 0x3F, word payload (p + 10)⟩
  else none

end Payload

variable {α : Type}

def recorded (v : Visit) : Option Fields := v.record.map fun r => ⟨r.typeId, r.causeTx, r.asdu⟩

/-- The fields of the APDU, as far as it has them. -/
def Told (payload : List UInt8) (v : Visit) : Prop := TypeI payload v.pos → recorded v = fieldsAt payload v.pos

structure Exact (payload : List UInt8) (visits : List Visit) (split : List ℕ) : Prop where
  visited : visits.map Visit.pos = split
  told : ∀ v ∈ visits, Told payload v

def Law (env : Env α) (dir : Bool) (payload : List UInt8) (s : Stats α) : Prop :=
  ∃ s' visits, walk env dir payload s = some (s', visits) ∧ Exact payload visits (apdus payload)

/-! ## Regular payloads -/

/-- The bytes read for the address: those of what follows the APDU, or none. -/
def addressRead (payload : List UInt8) (p : ℕ) : UInt16 :=
  if 12 ≤ len payload p ∧ after payload p + 6 ≤ payload.length then word payload (after payload p + 4) else 0

/-- Both numbers are those seen last. -/
def Repeated (dir : Bool) (payload : List UInt8) (q : Seq) (p : ℕ) : Prop :=
  lines dir (numbersAt payload (p + 1)) = q.numbers

/-- A type-I APDU that is recorded: no repetition, and at most its last two bytes are missing. -/
def Taken (dir : Bool) (payload : List UInt8) (q : Seq) (p : ℕ) : Prop :=
  6 ≤ len payload p ∧ p + 7 < payload.length ∧ p + len payload p ≤ payload.length ∧ ¬ Repeated dir payload q p

/-- A type-I APDU with fields is recorded, its cause looks like the byte before, and its address like what is read for
    it; one without is not recorded. -/
def Readable (dir : Bool) (payload : List UInt8) (q : Seq) (p : ℕ) : Prop :=
  if HasFields payload p then
    Taken dir payload q p ∧ byteAt payload (p + 7) &&& 0x3F = byteAt payload (p + 8) &&& 0x3F ∧
      addressRead payload p = word payload (p + 10)
  else ¬ Taken dir payload q p

/-- Of an APDU at `p`. One of type S or U is not followed by what only looks like an APDU. One of type I that is
    followed by an APDU is no repetition and has a length of 6 at least, and it is readable. -/
def Regular (dir : Bool) (payload : List UInt8) (q : Seq) (p : ℕ) : Prop :=
  if TypeI payload p then
    (Starts payload (after payload p) → 6 ≤ len payload p ∧ ¬ Repeated dir payload q p) ∧ Readable dir payload q p
  else
    after payload p + 2 < payload.length → byteAt payload (after payload p + 1) ≠ 0 →
      byteAt payload (after payload p) = 0x68

/-- The numbers after the APDU at `p`. -/
def seqAfter (dir : Bool) (payload : List UInt8) (q : Seq) (p : ℕ) : Seq :=
  if TypeI payload p ∧ p + 7 < payload.length ∧ 6 ≤ len payload p then
    q.next dir (lines dir (numbersAt payload (p + 1)))
  else q

def RegularFrom (dir : Bool) (payload : List UInt8) : ℕ → Seq → ℕ → Prop
  | 0, _, _ => True
  | fuel + 1, q, p =>
    Starts payload p →
      Regular dir payload q p ∧ RegularFrom dir payload fuel (seqAfter dir payload q p) (after payload p)

/-! ## The loop at an APDU -/

section Loop

variable {env : Env α} {dir : Bool} {payload : List UInt8} {s : Stats α} {p fuel : ℕ}

theorem split_not (h : ¬ Starts payload p) : split payload fuel p = [] := by
  cases fuel with
  | zero => rfl
  | succ fuel => exact if_neg h

theorem regularFrom_not {q : Seq} (h : ¬ Starts payload p) : RegularFrom dir payload fuel q p := by
  cases fuel with
  | zero => trivial
  | succ fuel => exact fun hs => absurd hs h

/-- Where the loop turns again, whatever the start byte. -/
def Goes (payload : List UInt8) (p : ℕ) : Prop := p + 2 < payload.length ∧ byteAt payload (p + 1) ≠ 0

theorem loop_stops (h : ¬ Goes payload p) {r : Stats α × List Visit}
    (hr : loop env dir payload fuel s (p + 1) = some r) : r.2 = [] := by
  unfold loop at hr
  by_cases hlt : p + 1 + 1 < payload.length
  · rw [if_pos hlt, get_byteAt (show p + 1 < payload.length by omega)] at hr
    cases fuel with
    | zero => cases hr
    | succ fuel =>
      have hzero : byteAt payload (p + 1) = 0 := Classical.byContradiction fun hne => h ⟨hlt, hne⟩
      simp only [Option.bind_eq_bind, Option.bind_some, if_pos hzero] at hr
      rw [← Option.some.inj hr]
  · rw [if_neg hlt] at hr
    rw [← Option.some.inj hr]

/-- What a turn of the loop visits and where it goes on. -/
theorem loop_goes (h : Goes payload p) {r : Stats α × List Visit}
    (hr : loop env dir payload (fuel + 1) s (p + 1) = some r) :
    ∃ t, turn env dir payload s (p + 1) (byteAt payload (p + 1)) = some t ∧
      ((t.next = none ∧ r.2 = [⟨p, t.record⟩]) ∨
        ∃ o r', t.next = some o ∧ loop env dir payload fuel t.stats o = some r' ∧ r.2 = ⟨p, t.record⟩ :: r'.2) := by
  obtain ⟨t, ht, -⟩ := turn_some env dir s (byteAt payload (p + 1)) h.1
  refine ⟨t, ht, ?_⟩
  unfold loop at hr
  rw [if_pos h.1, get_byteAt (show p + 1 < payload.length by have := h.1; omega)] at hr
  simp only [Option.bind_eq_bind, Option.bind_some, if_neg h.2, ht] at hr
  cases ho : t.next with
  | none =>
    simp only [ho] at hr
    exact .inl ⟨rfl, by rw [← Option.some.inj hr]; rfl⟩
  | some o =>
    simp only [ho] at hr
    cases hl : loop env dir payload fuel t.stats o with
    | none => rw [hl] at hr; cases hr
    | some r' =>
      rw [hl] at hr
      exact .inr ⟨o, r', rfl, hl, by rw [← Option.some.inj hr]; rfl⟩

theorem goes_of_starts (h : Starts payload p) : Goes payload p := ⟨h.1, h.2.2⟩

theorem exact_cons {v : Visit} {visits : List Visit} {l : List ℕ} :
    Exact payload (v :: visits) (v.pos :: l) ↔ Told payload v ∧ Exact payload visits l := by
  constructor
  · intro h
    have hv := h.visited
    rw [List.map_cons, List.cons.injEq] at hv
    exact ⟨h.told v (List.mem_cons_self ..), hv.2, fun w hw => h.told w (List.mem_cons_of_mem _ hw)⟩
  · rintro ⟨hv, h⟩
    refine ⟨by rw [List.map_cons, h.visited], fun w hw => ?_⟩
    rcases List.mem_cons.mp hw with rfl | hw
    · exact hv
    · exact h.told w hw

theorem exact_nil_iff {l : List ℕ} : Exact payload [] l ↔ l = [] := by
  constructor
  · intro h
    exact h.visited.symm
  · rintro rfl
    exact ⟨rfl, fun v hv => by cases hv⟩

/-- No more visits: right exactly if no APDU follows. -/
theorem exact_rest (hf : 0 < fuel) : Exact payload [] (split payload fuel p) ↔ ¬ Starts payload p := by
  rw [exact_nil_iff]
  constructor
  · intro h hs
    obtain ⟨fuel, rfl⟩ := Nat.exists_eq_succ_of_ne_zero (Nat.ne_of_gt hf)
    unfold split at h
    rw [if_pos hs] at h
    cases h
  · exact split_not

theorem after_eq : p + 1 + (byteAt payload (p + 1)).toNat + 1 = after payload p := by
  unfold after len
  omega

theorem loop_other (hs : Starts payload p) (hc : ¬ TypeI payload p) {r : Stats α × List Visit}
    (hr : loop env dir payload (fuel + 1) s (p + 1) = some r) :
    ∃ s' r', s'.seq = s.seq ∧ loop env dir payload fuel s' (after payload p + 1) = some r' ∧ r.2 = ⟨p, none⟩ :: r'.2 := by
  obtain ⟨t, ht, hnext⟩ := loop_goes (goes_of_starts hs) hr
  obtain ⟨s', hturn, hq⟩ := turn_other env dir s (byteAt payload (p + 1)) (show p + 1 + 1 < payload.length from hs.1) hc
  cases ht.symm.trans hturn
  rcases hnext with ⟨hn, -⟩ | ⟨o, r', ho, hl, hv⟩
  · cases hn
  · have ho' : p + 1 + (byteAt payload (p + 1)).toNat + 2 = o := Option.some.inj ho
    have hafter := @after_eq payload p
    refine ⟨s', r', hq, ?_, hv⟩
    rw [show after payload p + 1 = o by omega]
    exact hl

/-- What the walk does at a type-I APDU: it ends there, or goes on behind it. -/
theorem loop_i (hs : Starts payload p) (hc : TypeI payload p) {r : Stats α × List Visit}
    (hr : loop env dir payload (fuel + 1) s (p + 1) = some r) :
    ∃ t, ITurn dir payload s.seq (p + 1) (byteAt payload (p + 1)) t ∧
      ((t.next = none ∧ r.2 = [⟨p, t.record⟩]) ∨
        ∃ o r', t.next = some o ∧ loop env dir payload fuel t.stats o = some r' ∧ r.2 = ⟨p, t.record⟩ :: r'.2) := by
  obtain ⟨t, ht, hnext⟩ := loop_goes (goes_of_starts hs) hr
  obtain ⟨t', hturn, hi⟩ := turn_i env dir s (byteAt payload (p + 1)) (show p + 1 + 1 < payload.length from hs.1) hc
  cases ht.symm.trans hturn
  exact ⟨t, hi, hnext⟩

theorem split_succ (hs : Starts payload p) :
    split payload (fuel + 1) p = p :: split payload fuel (after payload p) := if_pos hs

theorem regularFrom_succ {q : Seq} (hs : Starts payload p) :
    RegularFrom dir payload (fuel + 1) q p ↔
      Regular dir payload q p ∧ RegularFrom dir payload fuel (seqAfter dir payload q p) (after payload p) :=
  ⟨fun h => h hs, fun h _ => h⟩

theorem told_other (hc : ¬ TypeI payload p) (o : Option Record) : Told payload ⟨p, o⟩ := fun h => absurd h hc

theorem told_none (hc : TypeI payload p) : Told payload ⟨p, none⟩ ↔ ¬ HasFields payload p := by
  unfold Told fieldsAt
  rw [forall_prop_of_true hc]
  constructor
  · intro h hf
    rw [if_pos hf] at h
    cases h
  · intro hf
    rw [if_neg hf]
    rfl

/-- An APDU that ends the walk: right exactly if it has no fields and no APDU follows. -/
theorem exact_last (hf : 0 < fuel) (hs : Starts payload p) (hc : TypeI payload p) :
    Exact payload [⟨p, none⟩] (split payload (fuel + 1) p) ↔ ¬ HasFields payload p ∧ ¬ Starts payload (after payload p) := by
  rw [split_succ hs]
  exact exact_cons.trans (and_congr (told_none hc) (exact_rest hf))

theorem told_record (hc : TypeI payload p) :
    Told payload ⟨p, some (recordAt payload (p + 1) (byteAt payload (p + 1)))⟩ ↔
      HasFields payload p ∧ byteAt payload (p + 7) &&& 0x3F = byteAt payload (p + 8) &&& 0x3F ∧
        addressRead payload p = word payload (p + 10) := by
  have haddr : (recordAt payload (p + 1) (byteAt payload (p + 1))).asdu = addressRead payload p := by
    have hafter := @after_eq payload p
    unfold recordAt addressRead word
    dsimp only
    rw [show p + 1 + (byteAt payload (p + 1)).toNat + 7 = after payload p + 6 by omega,
      show p + 1 + (byteAt payload (p + 1)).toNat + 5 = after payload p + 4 by omega,
      show p + 1 + (byteAt payload (p + 1)).toNat + 6 = after payload p + 4 + 1 by omega]
    rfl
  unfold Told
  rw [forall_prop_of_true hc]
  change some (Fields.mk _ _ (recordAt payload (p + 1) (byteAt payload (p + 1))).asdu) = fieldsAt payload p ↔ _
  rw [haddr, fieldsAt]
  by_cases hf : HasFields payload p
  · rw [if_pos hf, Option.some.injEq, Fields.mk.injEq, and_iff_right hf]
    exact ⟨fun h => ⟨h.2.1, h.2.2⟩, fun h => ⟨rfl, h.1, h.2⟩⟩
  · rw [if_neg hf]
    exact iff_of_false (Option.some_ne_none _) fun h => hf h.1

theorem regular_i {q : Seq} (hc : TypeI payload p) :
    Regular dir payload q p ↔
      (Starts payload (after payload p) → 6 ≤ len payload p ∧ ¬ Repeated dir payload q p) ∧ Readable dir payload q p := by
  rw [Regular, if_pos hc]

/-- The walk ends at an APDU that it does not record, for a reason that is not regular if it matters. -/
theorem exact_stopped {q : Seq} (hf : 0 < fuel) (hs : Starts payload p) (hc : TypeI payload p)
    (hnext : Starts payload (after payload p) → ¬ (6 ≤ len payload p ∧ ¬ Repeated dir payload q p))
    (htaken : ¬ Taken dir payload q p) :
    Exact payload [⟨p, none⟩] (split payload (fuel + 1) p) ↔ RegularFrom dir payload (fuel + 1) q p := by
  have hread : Readable dir payload q p ↔ ¬ HasFields payload p := by
    unfold Readable
    by_cases hfields : HasFields payload p
    · rw [if_pos hfields]
      exact iff_of_false (fun h => htaken h.1) (not_not_intro hfields)
    · rw [if_neg hfields]
      exact iff_of_true htaken hfields
  rw [exact_last hf hs hc, regularFrom_succ hs, regular_i hc, hread]
  constructor
  · rintro ⟨hno, hlast⟩
    exact ⟨⟨fun h => absurd h hlast, hno⟩, regularFrom_not hlast⟩
  · rintro ⟨⟨h1, h2⟩, -⟩
    exact ⟨h2, fun h => hnext h (h1 h)⟩

/-- What is read of the APDU is recorded, and the walk goes on where the next one starts. -/
theorem exact_read {q : Seq} (hs : Starts payload p) (hc : TypeI payload p) (htaken : Taken dir payload q p)
    {rest : List Visit}
    (hrest : Exact payload rest (split payload fuel (after payload p)) ↔
      RegularFrom dir payload fuel (seqAfter dir payload q p) (after payload p)) :
    Exact payload (⟨p, some (recordAt payload (p + 1) (byteAt payload (p + 1)))⟩ :: rest) (split payload (fuel + 1) p) ↔
      RegularFrom dir payload (fuel + 1) q p := by
  have hread : Readable dir payload q p ↔ HasFields payload p ∧
      byteAt payload (p + 7) &&& 0x3F = byteAt payload (p + 8) &&& 0x3F ∧ addressRead payload p = word payload (p + 10) := by
    unfold Readable
    by_cases hfields : HasFields payload p
    · rw [if_pos hfields, and_iff_right htaken, and_iff_right hfields]
    · rw [if_neg hfields]
      exact iff_of_false (not_not_intro htaken) fun h => hfields h.1
  rw [split_succ hs, regularFrom_succ hs, regular_i hc, hread]
  refine exact_cons.trans (and_congr ((told_record hc).trans ?_) hrest)
  exact (and_iff_right fun _ => ⟨htaken.1, htaken.2.2.2⟩).symm

theorem nextAt_none (h : nextAt payload (p + 1) (byteAt payload (p + 1)) = none) : ¬ Starts payload (after payload p) := by
  intro hst
  unfold nextAt at h
  rw [@after_eq payload p, if_pos ⟨by have := hst.1; omega, hst.2.1⟩] at h
  cases h

theorem nextAt_some {o : ℕ} (h : nextAt payload (p + 1) (byteAt payload (p + 1)) = some o) :
    byteAt payload (after payload p) = 0x68 ∧ o = after payload p + 1 := by
  have hafter := @after_eq payload p
  unfold nextAt at h
  rw [hafter] at h
  split at h
  · rename_i hstart
    refine ⟨hstart.2, ?_⟩
    have := Option.some.inj h
    omega
  · cases h

/-- Where no APDU starts, nothing is visited, unless the walk goes on without a start byte. -/
theorem exact_behind (hf : 0 < fuel) (hno : ¬ Starts payload p) {r : Stats α × List Visit}
    (hl : loop env dir payload fuel s (p + 1) = some r) :
    Exact payload r.2 [] ↔ (Goes payload p → byteAt payload p = 0x68) := by
  by_cases hg : Goes payload p
  · obtain ⟨fuel, rfl⟩ := Nat.exists_eq_succ_of_ne_zero (Nat.ne_of_gt hf)
    obtain ⟨t, -, hvisit⟩ := loop_goes hg hl
    refine iff_of_false (fun he => ?_) fun h => hno ⟨hg.1, h hg, hg.2⟩
    have hnil := he.visited
    rcases hvisit with ⟨-, h⟩ | ⟨o, r', -, -, h⟩
    all_goals
      rw [h] at hnil
      cases hnil
  · rw [loop_stops hg hl]
    exact iff_of_true (exact_nil_iff.mpr rfl) fun h => absurd h hg

/-- From an APDU on, the walk is right exactly when what follows is regular. -/
theorem exact_iff_regular (fuel : ℕ) (s : Stats α) (p : ℕ) (hs : Starts payload p)
    (hfuel : payload.length ≤ p + fuel) {r : Stats α × List Visit}
    (hr : loop env dir payload fuel s (p + 1) = some r) :
    Exact payload r.2 (split payload fuel p) ↔ RegularFrom dir payload fuel s.seq p := by
  induction fuel generalizing s p r with
  | zero =>
    have := hs.1
    omega
  | succ fuel ih =>
    have hpos : 0 < fuel := by
      have := hs.1
      omega
    have hlater : payload.length ≤ after payload p + fuel := by
      unfold after
      omega
    have hafter := @after_eq payload p
    have hlenp : len payload p = (byteAt payload (p + 1)).toNat := rfl
    by_cases hc : TypeI payload p
    · obtain ⟨t, hi, hnext⟩ := loop_i hs hc hr
      cases hi with
      | short h s' hq =>
        rcases hnext with ⟨-, hv⟩ | ⟨o, r', ho, -, -⟩
        · rw [hv]
          refine exact_stopped hpos hs hc (fun hn hh => h ⟨?_, hh.1⟩) fun htaken => h ⟨?_, htaken.1⟩
          · have := hn.1
            omega
          · have := htaken.2.1
            omega
        · cases ho
      | retransmitted h hrep s' hq =>
        rcases hnext with ⟨-, hv⟩ | ⟨o, r', ho, -, -⟩
        · rw [hv]
          exact exact_stopped hpos hs hc (fun _ hh => hh.2 hrep) fun htaken => htaken.2.2.2 hrep
        · cases ho
      | cut h hrep hn s' hq =>
        rcases hnext with ⟨-, hv⟩ | ⟨o, r', ho, -, -⟩
        · rw [hv]
          refine exact_stopped hpos hs hc (fun hst => ?_) fun htaken => ?_
          · have := hst.1
            omega
          · have := htaken.2.2.1
            omega
        · cases ho
      | read h hrep hn s' hq =>
        have htaken : Taken dir payload s.seq p := by
          refine ⟨h.2, ?_, ?_, hrep⟩
          · have := h.1
            omega
          · omega
        have hseq : seqAfter dir payload s.seq p = s'.seq := by
          rw [seqAfter, if_pos ⟨hc, h.1, h.2⟩, Seq.next, if_neg hrep, hq]
        rcases hnext with ⟨hno, hv⟩ | ⟨o, r', ho, hl, hv⟩
        · have hlast := nextAt_none hno
          rw [hv]
          refine exact_read hs hc htaken (iff_of_true ?_ (regularFrom_not hlast))
          rw [split_not hlast]
          exact exact_nil_iff.mpr rfl
        · obtain ⟨hstart, rfl⟩ := nextAt_some ho
          rw [hv]
          refine exact_read hs hc htaken ?_
          rw [hseq]
          by_cases hst : Starts payload (after payload p)
          · exact ih s' (after payload p) hst hlater hl
          · rw [split_not hst, exact_behind hpos hst hl]
            exact iff_of_true (fun _ => hstart) (regularFrom_not hst)
    · obtain ⟨s', r', hq, hl, hv⟩ := loop_other hs hc hr
      have hseq : seqAfter dir payload s.seq p = s'.seq := by
        rw [seqAfter, if_neg fun h => hc h.1, hq]
      have hreg : Regular dir payload s.seq p ↔
          (Goes payload (after payload p) → byteAt payload (after payload p) = 0x68) := by
        rw [Regular, if_neg hc]
        exact ⟨fun h hg => h hg.1 hg.2, fun h h1 h2 => h ⟨h1, h2⟩⟩
      rw [hv, split_succ hs, regularFrom_succ hs, hseq, hreg]
      refine exact_cons.trans ?_
      rw [and_iff_right (told_other hc none)]
      by_cases hnext : Starts payload (after payload p)
      · rw [ih s' (after payload p) hnext hlater hl, and_iff_right fun _ => hnext.2.1]
      · rw [split_not hnext, and_iff_left (regularFrom_not hnext)]
        exact exact_behind hpos hnext hl

end Loop

/-- For every payload, in every state: the walk visits the APDUs of the split and records the fields of those
    of type I exactly when every APDU of the split is regular. -/
theorem law_iff_regular (env : Env α) (dir : Bool) (payload : List UInt8) (s : Stats α) :
    Law env dir payload s ↔ (6 ≤ payload.length → RegularFrom dir payload payload.length s.seq 0) := by
  obtain ⟨⟨s', visits⟩, hwalk⟩ := walk_some env dir payload s
  have hlaw : Law env dir payload s ↔ Exact payload visits (apdus payload) := by
    constructor
    · rintro ⟨s1, v1, h1, he⟩
      rw [hwalk] at h1
      cases h1
      exact he
    · intro he
      exact ⟨s', visits, hwalk, he⟩
  rw [hlaw]
  unfold walk at hwalk
  by_cases hlen : 6 ≤ payload.length
  · rw [apdus, if_pos hlen, forall_prop_of_true hlen]
    by_cases hstart : payload[0]? = some 0x68
    · rw [if_pos ⟨hlen, hstart⟩] at hwalk
      have hbyte : byteAt payload 0 = 0x68 := by
        rw [get_byteAt (show 0 < payload.length by omega)] at hstart
        exact Option.some.inj hstart
      have hq := countMsg_seq s dir
      by_cases hs : Starts payload 0
      · rw [← hq]
        exact exact_iff_regular payload.length (s.countMsg dir) 0 hs (by omega) hwalk
      · have hstop : ¬ Goes payload 0 := fun hg => hs ⟨hg.1, hbyte, hg.2⟩
        have hnil : visits = [] := loop_stops hstop hwalk
        rw [hnil, split_not hs]
        exact iff_of_true (exact_nil_iff.mpr rfl) (regularFrom_not hs)
    · rw [if_neg fun h => hstart h.2] at hwalk
      cases hwalk
      have hs : ¬ Starts payload 0 := by
        intro h
        rw [get_byteAt (show 0 < payload.length by omega), h.2.1] at hstart
        exact hstart rfl
      rw [split_not hs]
      exact iff_of_true (exact_nil_iff.mpr rfl) (regularFrom_not hs)
  · rw [if_neg fun h => hlen h.1] at hwalk
    cases hwalk
    rw [apdus, if_neg hlen]
    exact iff_of_true (exact_nil_iff.mpr rfl) fun h => absurd h hlen

/-- An interrogation command: type 100 with one object, cause 6 and address 1. -/
def interrogation : List UInt8 :=
  [0x68, 0x0E, 0x02, 0x00, 0x02, 0x00, 0x64, 0x01, 0x06, 0x00, 0x01, 0x00, 0x00, 0x00, 0x00, 0x14]

/-- Cause 1 is recorded, the number of objects, and address 0. -/
theorem interrogation_misread :
    ¬ ∀ (α : Type) (env : Env α) (dir : Bool) (payload : List UInt8) (s : Stats α), Law env dir payload s := by
  intro h
  obtain ⟨s', visits, hwalk, hx⟩ := h Unit ⟨0, 0, false, false, false, false, ⟨1, 0⟩, fun _ _ _ => ()⟩ true
    interrogation (.new ())
  have hvisits : visits = [⟨0, some ⟨100, 1, false, 0⟩⟩] := by
    have hrun : (walk ⟨0, 0, false, false, false, false, ⟨1, 0⟩, fun _ _ _ => ()⟩ true interrogation (.new ())).map
        Prod.snd = some [⟨0, some ⟨100, 1, false, 0⟩⟩] := by decide
    rw [hwalk] at hrun
    exact Option.some.inj hrun
  have htold := hx.told ⟨0, some ⟨100, 1, false, 0⟩⟩ (by rw [hvisits]; exact List.mem_cons_self ..)
  have htype : TypeI interrogation 0 := by decide
  have hfields := htold htype
  revert hfields
  decide

end Ntopng.Protocols.Iec104Split
