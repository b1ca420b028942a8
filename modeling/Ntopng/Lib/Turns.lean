/-
  Ntopng.Lib.Turns — computations over a buffer, and machines whose turns are such
  computations.

  A computation leaves behind where it read, in order, what it assigned to variables of so
  many bits, and what it reported. A machine takes turns: a turn leads to the next state or
  ends the run with a result. Bounds and reports of a whole run come from those of the turns
  of the states it reaches.

  Proved: a run of a machine with finitely many states, most of whose turns lower a number,
  ends iff it never comes back to a state whose turn does not (`halts_iff_of_measure`).
-/

import Mathlib

namespace Ntopng.Lib.Turns

/-- A number, and the width of the variable that it is assigned to. -/
structure Assignment where
  bits : Nat
  value : Nat

structure Walk (ρ α : Type) where
  /-- Offsets in the buffer. -/
  reads : List Int
  assigned : List Assignment
  reports : List ρ
  out : α

namespace Walk

variable {ρ α β : Type} {n : Nat}

instance : Monad (Walk ρ) where
  pure a := ⟨[], [], [], a⟩
  bind m f :=
    ⟨m.reads ++ (f m.out).reads, m.assigned ++ (f m.out).assigned, m.reports ++ (f m.out).reports, (f m.out).out⟩

def read (mem : Int → UInt8) (i : Int) : Walk ρ UInt8 := ⟨[i], [], [], mem i⟩

def assign (bits value : Nat) : Walk ρ Unit := ⟨[], [⟨bits, value⟩], [], ()⟩

def report (r : ρ) : Walk ρ Unit := ⟨[], [], [r], ()⟩

/-! ## What a computation leaves behind -/

@[simp] theorem out_pure (a : α) : (pure a : Walk ρ α).out = a := rfl
@[simp] theorem out_bind (m : Walk ρ α) (f : α → Walk ρ β) : (m >>= f).out = (f m.out).out := rfl
@[simp] theorem out_read (mem : Int → UInt8) (i : Int) : (read mem i : Walk ρ UInt8).out = mem i := rfl
@[simp] theorem out_assign (bits value : Nat) : (assign bits value : Walk ρ Unit).out = () := rfl
@[simp] theorem out_report (r : ρ) : (report r).out = () := rfl
@[simp] theorem out_ite (c : Prop) [Decidable c] (a b : Walk ρ α) :
    (if c then a else b).out = if c then a.out else b.out := apply_ite ..

@[simp] theorem reports_pure (a : α) : (pure a : Walk ρ α).reports = [] := (rfl)
@[simp] theorem reports_bind (m : Walk ρ α) (f : α → Walk ρ β) :
    (m >>= f).reports = m.reports ++ (f m.out).reports := rfl
@[simp] theorem reports_read (mem : Int → UInt8) (i : Int) : (read mem i : Walk ρ UInt8).reports = [] := (rfl)
@[simp] theorem reports_assign (bits value : Nat) : (assign bits value : Walk ρ Unit).reports = [] := (rfl)
@[simp] theorem reports_report (r : ρ) : (report r).reports = [r] := rfl
@[simp] theorem reports_ite (c : Prop) [Decidable c] (a b : Walk ρ α) :
    (if c then a else b).reports = if c then a.reports else b.reports := apply_ite ..

/-- Every read lies below `n`. -/
def ReadsBelow (n : Nat) (m : Walk ρ α) : Prop := ∀ i ∈ m.reads, 0 ≤ i ∧ i < n

@[simp] theorem readsBelow_pure (a : α) : ReadsBelow n (pure a : Walk ρ α) := nofun

@[simp] theorem readsBelow_report (r : ρ) : ReadsBelow n (report r) := nofun

@[simp] theorem readsBelow_assign (bits value : Nat) : ReadsBelow n (assign bits value : Walk ρ Unit) := nofun

@[simp] theorem readsBelow_read (mem : Int → UInt8) (i : Int) :
    ReadsBelow n (read mem i : Walk ρ UInt8) ↔ 0 ≤ i ∧ i < n := by
  simp [ReadsBelow, read]

@[simp] theorem readsBelow_bind (m : Walk ρ α) (f : α → Walk ρ β) :
    ReadsBelow n (m >>= f) ↔ ReadsBelow n m ∧ ReadsBelow n (f m.out) :=
  List.forall_mem_append

@[simp] theorem readsBelow_ite (c : Prop) [Decidable c] (a b : Walk ρ α) :
    ReadsBelow n (if c then a else b) ↔ (c → ReadsBelow n a) ∧ (¬ c → ReadsBelow n b) := by
  by_cases h : c <;> simp [h]

/-- Every variable can hold what it is assigned. -/
def Lossless (m : Walk ρ α) : Prop := ∀ a ∈ m.assigned, a.value < 2 ^ a.bits

@[simp] theorem lossless_pure (a : α) : Lossless (pure a : Walk ρ α) := nofun

@[simp] theorem lossless_read (mem : Int → UInt8) (i : Int) : Lossless (read mem i : Walk ρ UInt8) := nofun

@[simp] theorem lossless_report (r : ρ) : Lossless (report r) := nofun

@[simp] theorem lossless_assign (bits value : Nat) : Lossless (assign bits value : Walk ρ Unit) ↔ value < 2 ^ bits :=
  List.forall_mem_singleton

@[simp] theorem lossless_bind (m : Walk ρ α) (f : α → Walk ρ β) :
    Lossless (m >>= f) ↔ Lossless m ∧ Lossless (f m.out) :=
  List.forall_mem_append

@[simp] theorem lossless_ite (c : Prop) [Decidable c] (a b : Walk ρ α) :
    Lossless (if c then a else b) ↔ (c → Lossless a) ∧ (¬ c → Lossless b) := by
  by_cases h : c <;> simp [h]

/-- The result has the property. -/
def Yields (Q : α → Prop) (m : Walk ρ α) : Prop := Q m.out

@[simp] theorem yields_pure (Q : α → Prop) (a : α) : Yields Q (pure a : Walk ρ α) ↔ Q a := .rfl

@[simp] theorem yields_bind (Q : β → Prop) (m : Walk ρ α) (f : α → Walk ρ β) :
    Yields Q (m >>= f) ↔ Yields Q (f m.out) := .rfl

@[simp] theorem yields_ite (Q : α → Prop) (c : Prop) [Decidable c] (a b : Walk ρ α) :
    Yields Q (if c then a else b) ↔ (c → Yields Q a) ∧ (¬ c → Yields Q b) := by
  by_cases h : c <;> simp [h]

/-- Every read lies below `n`, and the result has the property. -/
def Sound (n : Nat) (Q : α → Prop) (m : Walk ρ α) : Prop := ReadsBelow n m ∧ Yields Q m

theorem sound_pure (Q : α → Prop) (a : α) : Sound n Q (pure a : Walk ρ α) ↔ Q a :=
  and_iff_right (readsBelow_pure a)

theorem sound_bind (Q : β → Prop) (m : Walk ρ α) (f : α → Walk ρ β) :
    Sound n Q (m >>= f) ↔ ReadsBelow n m ∧ Sound n Q (f m.out) := by
  simp only [Sound, readsBelow_bind, yields_bind, and_assoc]

theorem sound_ite (Q : α → Prop) (c : Prop) [Decidable c] (a b : Walk ρ α) :
    Sound n Q (if c then a else b) ↔ (c → Sound n Q a) ∧ (¬ c → Sound n Q b) := by
  by_cases h : c <;> simp [h]

/-- The results of two computations are related. -/
def Rel (R : α → β → Prop) (m : Walk ρ α) (m' : Walk ρ β) : Prop := R m.out m'.out

theorem rel_bind {γ δ : Type} {Q : α → β → Prop} {R : γ → δ → Prop} {m : Walk ρ α} {m' : Walk ρ β}
    {f : α → Walk ρ γ} {f' : β → Walk ρ δ} (hm : Rel Q m m') (hf : ∀ a b, Q a b → Rel R (f a) (f' b)) :
    Rel R (m >>= f) (m' >>= f') :=
  hf _ _ hm

end Walk

/-! ## Machines -/

section Machine

open Walk

variable {ρ σ β : Type} (turn : σ → Walk ρ (σ ⊕ β))

/-- At most so many turns; `none` where they do not suffice. -/
def iterate : Nat → σ → Walk ρ (Option β)
  | 0, _ => pure none
  | n + 1, s => do
    match ← turn s with
    | .inl s' => iterate n s'
    | .inr b => pure (some b)

def Leads (s s' : σ) : Prop := (turn s).out = .inl s'

instance [DecidableEq σ] [DecidableEq β] (s s' : σ) : Decidable (Leads turn s s') :=
  inferInstanceAs (Decidable (_ = _))

def Reached (s s' : σ) : Prop := Relation.ReflTransGen (Leads turn) s s'

/-- Some turns later the machine is in the same state again. -/
def Recurs (s : σ) : Prop := Relation.TransGen (Leads turn) s s

def Halts (s : σ) : Prop := ∃ n, (iterate turn n s).out ≠ none

variable {turn} {s s' : σ} {b : β} {n : Nat}

theorem iterate_of_leads (h : Leads turn s s') :
    iterate turn (n + 1) s =
      ⟨(turn s).reads ++ (iterate turn n s').reads, (turn s).assigned ++ (iterate turn n s').assigned,
        (turn s).reports ++ (iterate turn n s').reports, (iterate turn n s').out⟩ := by
  have h' : (turn s).out = .inl s' := h
  show (turn s >>= _) = _
  simp only [Bind.bind, h']

theorem iterate_of_ends (h : (turn s).out = .inr b) :
    iterate turn (n + 1) s = ⟨(turn s).reads, (turn s).assigned, (turn s).reports, some b⟩ := by
  show (turn s >>= _) = _
  simp only [Bind.bind, h, Pure.pure, List.append_nil]

variable (turn) in
theorem leads_or_ends (s : σ) : (∃ s', Leads turn s s') ∨ ∃ b, (turn s).out = .inr b := by
  cases h : (turn s).out with
  | inl s' => exact .inl ⟨s', h⟩
  | inr b => exact .inr ⟨b, rfl⟩

theorem leads_unique {s₁ s₂ : σ} (h₁ : Leads turn s s₁) (h₂ : Leads turn s s₂) : s₁ = s₂ :=
  Sum.inl.inj (h₁.symm.trans h₂)

theorem inv_reached {Inv : σ → Prop} (hstep : ∀ s s', Inv s → Leads turn s s' → Inv s') (h0 : Inv s)
    (h : Reached turn s s') : Inv s' := by
  induction h with
  | refl => exact h0
  | tail _ hl ih => exact hstep _ _ ih hl

/-! ## Bounds and reports of a run -/

theorem readsBelow_iterate {N : Nat} (h : ∀ s', Reached turn s s' → ReadsBelow N (turn s')) (n : Nat) :
    ReadsBelow N (iterate turn n s) := by
  induction n generalizing s with
  | zero => exact readsBelow_pure none
  | succ n ih =>
    obtain ⟨s', hl⟩ | ⟨b, hb⟩ := leads_or_ends turn s
    · rw [iterate_of_leads hl]
      exact List.forall_mem_append.mpr ⟨h s .refl, ih fun s'' hs => h s'' (hs.head hl)⟩
    · rw [iterate_of_ends hb]
      exact h s .refl

theorem readsBelow_of_iterate {N : Nat} (hr : Reached turn s s') (h : ∀ n, ReadsBelow N (iterate turn n s)) :
    ReadsBelow N (turn s') := by
  induction hr using Relation.ReflTransGen.head_induction_on with
  | refl =>
    have h1 := h 1
    obtain ⟨s'', hl⟩ | ⟨b, hb⟩ := leads_or_ends turn s'
    · rw [iterate_of_leads hl] at h1
      exact (List.forall_mem_append.mp h1).1
    · rw [iterate_of_ends hb] at h1
      exact h1
  | head hl _ ih =>
    refine ih fun n => ?_
    have hn := h (n + 1)
    rw [iterate_of_leads hl] at hn
    exact (List.forall_mem_append.mp hn).2

/-- A run stays below the bound iff every turn of a reached state does. -/
theorem readsBelow_iterate_iff {N : Nat} :
    (∀ n, ReadsBelow N (iterate turn n s)) ↔ ∀ s', Reached turn s s' → ReadsBelow N (turn s') :=
  ⟨fun h _ hr => readsBelow_of_iterate hr h, readsBelow_iterate⟩

/-- A run that ended did so in a reached state; where only last turns report, its reports are that turn's. -/
theorem ends_of_iterate (hquiet : ∀ s s', Leads turn s s' → (turn s).reports = [])
    (h : (iterate turn n s).out = some b) :
    ∃ s', Reached turn s s' ∧ (turn s').out = .inr b ∧ (iterate turn n s).reports = (turn s').reports := by
  induction n generalizing s with
  | zero => cases h
  | succ n ih =>
    obtain ⟨s', hl⟩ | ⟨b', hb⟩ := leads_or_ends turn s
    · rw [iterate_of_leads hl] at h ⊢
      obtain ⟨s'', hr, ho, hrep⟩ := ih h
      exact ⟨s'', hr.head hl, ho, by rw [hquiet s s' hl]; exact hrep⟩
    · rw [iterate_of_ends hb] at h ⊢
      obtain rfl : b' = b := Option.some.inj h
      exact ⟨s, .refl, hb, rfl⟩

theorem reached_of_iterate (h : (iterate turn n s).out = some b) : ∃ s', Reached turn s s' ∧ (turn s').out = .inr b := by
  induction n generalizing s with
  | zero => cases h
  | succ n ih =>
    obtain ⟨s', hl⟩ | ⟨b', hb⟩ := leads_or_ends turn s
    · rw [iterate_of_leads hl] at h
      obtain ⟨s'', hr, ho⟩ := ih h
      exact ⟨s'', hr.head hl, ho⟩
    · rw [iterate_of_ends hb] at h
      obtain rfl : b' = b := Option.some.inj h
      exact ⟨s, .refl, hb⟩

theorem iterate_of_reached (h : Reached turn s s') (hb : (turn s').out = .inr b) :
    ∃ n, (iterate turn n s).out = some b := by
  induction h using Relation.ReflTransGen.head_induction_on with
  | refl => exact ⟨1, by rw [iterate_of_ends hb]⟩
  | head hl _ ih =>
    obtain ⟨n, hn⟩ := ih
    exact ⟨n + 1, by rw [iterate_of_leads hl]; exact hn⟩

theorem iterate_mono {m : Nat} (h : (iterate turn n s).out ≠ none) (hm : n ≤ m) : iterate turn m s = iterate turn n s := by
  induction n generalizing s m with
  | zero => exact absurd rfl h
  | succ n ih =>
    obtain ⟨m, rfl⟩ : ∃ k, m = k + 1 := ⟨m - 1, by omega⟩
    obtain ⟨s', hl⟩ | ⟨b, hb⟩ := leads_or_ends turn s
    · rw [iterate_of_leads hl] at h ⊢
      rw [iterate_of_leads hl, ih h (by omega)]
    · rw [iterate_of_ends hb, iterate_of_ends hb]

/-- Runs that ended are the same run. -/
theorem iterate_unique {m : Nat} (hn : (iterate turn n s).out ≠ none) (hm : (iterate turn m s).out ≠ none) :
    iterate turn n s = iterate turn m s := by
  rw [← iterate_mono hn (Nat.le_max_left n m), ← iterate_mono hm (Nat.le_max_right n m)]

/-- The run that ends in a reached state; where only last turns report, its reports are that turn's. -/
theorem iterate_of_final (hquiet : ∀ s s', Leads turn s s' → (turn s).reports = []) (h : Reached turn s s')
    (hb : (turn s').out = .inr b) :
    ∃ n, (iterate turn n s).out = some b ∧ (iterate turn n s).reports = (turn s').reports := by
  induction h using Relation.ReflTransGen.head_induction_on with
  | refl => exact ⟨1, by rw [iterate_of_ends hb], by rw [iterate_of_ends hb]⟩
  | head hl _ ih =>
    obtain ⟨n, hout, hrep⟩ := ih
    refine ⟨n + 1, by rw [iterate_of_leads hl]; exact hout, ?_⟩
    rw [iterate_of_leads hl]
    show (turn _).reports ++ _ = _
    rw [hquiet _ _ hl]
    exact hrep

/-! ## Ending -/

theorem out_iterate_of_leads (h : Leads turn s s') : (iterate turn (n + 1) s).out = (iterate turn n s').out := by
  rw [iterate_of_leads h]

/-- The runs from a state on a path are the shorter ones. -/
theorem lt_of_transGen (h : Relation.TransGen (Leads turn) s s') (hn : (iterate turn n s).out ≠ none) :
    ∃ k, k < n ∧ (iterate turn k s').out ≠ none := by
  induction h using Relation.TransGen.head_induction_on generalizing n with
  | single hl =>
    cases n with
    | zero => exact absurd rfl hn
    | succ n => exact ⟨n, Nat.lt_succ_self n, by rwa [out_iterate_of_leads hl] at hn⟩
  | head hl _ ih =>
    cases n with
    | zero => exact absurd rfl hn
    | succ n =>
      rw [out_iterate_of_leads hl] at hn
      obtain ⟨k, hk, hout⟩ := ih hn
      exact ⟨k, Nat.lt_succ_of_lt hk, hout⟩

/-- States from each of which another one of them is reached. -/
theorem not_halts_of_loop {K : σ → Prop} (hK : ∀ s, K s → ∃ s', Relation.TransGen (Leads turn) s s' ∧ K s') (h : K s) :
    ¬ Halts turn s := by
  rintro ⟨n, hn⟩
  induction n using Nat.strongRecOn generalizing s with
  | ind n ih =>
    obtain ⟨s', hpath, hs'⟩ := hK s h
    obtain ⟨k, hk, hout⟩ := lt_of_transGen hpath hn
    exact ih k hk hs' hout

theorem not_recurs_of_halts (h : Halts turn s) : ¬ Recurs turn s := fun hr =>
  not_halts_of_loop (K := Eq s) (fun _ hs => ⟨s, hs ▸ hr, rfl⟩) rfl h

theorem halts_of_leads (h : Leads turn s s') : Halts turn s ↔ Halts turn s' := by
  constructor
  · rintro ⟨n, hn⟩
    obtain ⟨k, -, hout⟩ := lt_of_transGen (.single h) hn
    exact ⟨k, hout⟩
  · rintro ⟨n, hn⟩
    exact ⟨n + 1, by rwa [out_iterate_of_leads h]⟩

theorem halts_of_reached (hr : Reached turn s s') : Halts turn s ↔ Halts turn s' := by
  induction hr with
  | refl => rfl
  | tail _ hl ih => exact ih.trans (halts_of_leads hl)

theorem halts_of_ends (h : (turn s).out = .inr b) : Halts turn s :=
  ⟨1, by rw [iterate_of_ends h]; exact Option.some_ne_none _⟩

/-- Where a run that never ends is after so many turns. -/
theorem endless (h : ¬ Halts turn s) : ∃ f : Nat → σ, f 0 = s ∧ ∀ k, Leads turn (f k) (f (k + 1)) := by
  have hnext : ∀ s : {s // ¬ Halts turn s}, ∃ s' : {s // ¬ Halts turn s}, Leads turn s.1 s'.1 := by
    rintro ⟨s, hs⟩
    obtain ⟨s', hl⟩ | ⟨b, hb⟩ := leads_or_ends turn s
    · exact ⟨⟨s', fun h' => hs ((halts_of_leads hl).mpr h')⟩, hl⟩
    · exact absurd (halts_of_ends hb) hs
  choose next hleads using hnext
  refine ⟨fun k => (next^[k] ⟨s, h⟩).1, rfl, fun k => ?_⟩
  simp only [Function.iterate_succ', Function.comp_apply]
  exact hleads _

theorem reached_of_path {f : Nat → σ} (h : ∀ k, Leads turn (f k) (f (k + 1))) (n : Nat) : Reached turn (f 0) (f n) := by
  induction n with
  | zero => exact .refl
  | succ n ih => exact Relation.ReflTransGen.tail ih (h n)

theorem transGen_of_path {f : Nat → σ} (h : ∀ k, Leads turn (f k) (f (k + 1))) {m n : Nat} (hmn : m < n) :
    Relation.TransGen (Leads turn) (f m) (f n) := by
  induction n, hmn using Nat.le_induction with
  | base => exact .single (h m)
  | succ n _ ih => exact ih.tail (h n)

/-- A run that never ends comes back to some state. -/
theorem endless_loop [Finite σ] (h : ¬ Halts turn s) :
    ∃ f : Nat → σ, f 0 = s ∧ (∀ k, Leads turn (f k) (f (k + 1))) ∧ ∃ a b, a < b ∧ f a = f b := by
  obtain ⟨f, h0, hf⟩ := endless h
  obtain ⟨a, b, hne, heq⟩ := Finite.exists_ne_map_eq_of_infinite f
  obtain hab | hba := Nat.lt_or_gt_of_ne hne
  · exact ⟨f, h0, hf, a, b, hab, heq⟩
  · exact ⟨f, h0, hf, b, a, hba, heq.symm⟩

/-- Along a path whose turns lower the number, it falls. -/
theorem measure_path {μ : σ → Nat} {f : Nat → σ} {a b : Nat} (hab : a < b)
    (h : ∀ k, a ≤ k → k < b → μ (f (k + 1)) < μ (f k)) : μ (f b) < μ (f a) := by
  induction b, hab using Nat.le_induction with
  | base => exact h a (Nat.le_refl a) (Nat.lt_succ_self a)
  | succ b hb ih =>
    have hlast := h b (by omega) (Nat.lt_succ_self b)
    have hinit := ih fun k hk hlt => h k hk (by omega)
    omega

/-- With a number that all turns but those of `K` lower, only states of `K` need to be looked at. -/
theorem halts_iff_of_measure [Finite σ] (μ : σ → Nat) (K : σ → Prop)
    (hμ : ∀ s₁ s₂, Reached turn s s₁ → Leads turn s₁ s₂ → ¬ K s₁ → μ s₂ < μ s₁) :
    Halts turn s ↔ ∀ s', Reached turn s s' → K s' → ¬ Recurs turn s' := by
  refine ⟨fun h s' hr _ => not_recurs_of_halts ((halts_of_reached hr).mp h), fun h => ?_⟩
  refine Classical.byContradiction fun hn => ?_
  obtain ⟨f, rfl, hf, a, b, hab, heq⟩ := endless_loop hn
  obtain ⟨k, hak, hkb, hk⟩ : ∃ k, a ≤ k ∧ k < b ∧ K (f k) := by
    by_contra hno
    have hfalls : μ (f b) < μ (f a) := measure_path hab fun k hak hkb =>
      hμ (f k) (f (k + 1)) (reached_of_path hf k) (hf k) fun hK => hno ⟨k, hak, hkb, hK⟩
    rw [heq] at hfalls
    omega
  -- from there to the second visit, which is the first one, and on to there
  refine h (f k) (reached_of_path hf k) hk ?_
  have hto : Relation.TransGen (Leads turn) (f k) (f a) := heq ▸ transGen_of_path hf hkb
  obtain rfl | hlt := Nat.eq_or_lt_of_le hak
  · exact hto
  · exact hto.trans (transGen_of_path hf hlt)

end Machine

end Ntopng.Lib.Turns
