/-
  Ntopng.Flows.CustomScriptProofs — when a custom flow script gets the flows that its definition
  documents.

  Parsing stops at the first key or value that is not read, in the order of the code
  (`load_verdict`); what a table of addresses matches is what its values were read as
  (`parseIPs_matches`).

  Proved (`custom_law`):
  - a documented definition is loaded and its function is called for the flows that it wants, exactly
    if no value faults and what its IPv6 addresses are taken for makes no difference to the flow,
  - any other definition is refused exactly if the first of its keys and values that is not read is.
-/

import Ntopng.Flows.CustomScript

namespace Ntopng.Flows.CustomScript

open Ntopng.Addresses Ntopng.Lib.Prefixes
open Ntopng.Lib.CString (isspace isspace_le)
open Ntopng.Lib.CNumber (clampLong)

/-! ## The first that is not read -/

section

variable {α β : Type} {x : Parsed α} {f : α → Parsed β}

def Verdict.andThen (v w : Verdict) : Verdict := if v = .read then w else v

def verdictOf : Parsed α → Verdict
  | .ok _ => .read
  | .error (.refused _) => .refused
  | .error .fault => .fault

@[simp] theorem verdictOf_ok (a : α) : verdictOf (.ok a : Parsed α) = .read := rfl

@[simp] theorem verdictOf_refuse (err : List Text) : verdictOf (refuse err : Parsed α) = .refused := rfl

@[simp] theorem read_andThen (w : Verdict) : Verdict.andThen .read w = w := rfl

@[simp] theorem andThen_read (v : Verdict) : v.andThen .read = v := by cases v <;> rfl

theorem andThen_assoc (u v w : Verdict) : (u.andThen v).andThen w = u.andThen (v.andThen w) := by cases u <;> rfl

theorem andThen_eq_read {v w : Verdict} : v.andThen w = .read ↔ v = .read ∧ w = .read := by cases v <;> simp [Verdict.andThen]

theorem firstBad_cons (v : Verdict) (l : List Verdict) : firstBad (v :: l) = v.andThen (firstBad l) := by cases v <;> rfl

theorem firstBad_append (a b : List Verdict) : firstBad (a ++ b) = (firstBad a).andThen (firstBad b) := by
  induction a with
  | nil => rfl
  | cons v a ih => rw [List.cons_append, firstBad_cons, firstBad_cons, ih, andThen_assoc]

theorem firstBad_eq_read {l : List Verdict} : firstBad l = .read ↔ ∀ v ∈ l, v = .read := by
  induction l with
  | nil => simp [firstBad]
  | cons v l ih => rw [firstBad_cons, andThen_eq_read, ih, List.forall_mem_cons]

theorem verdictOf_eq_read : verdictOf x = .read ↔ ∃ a, x = .ok a := by
  rcases x with (err | _) | a
  · simp [verdictOf]
  · simp [verdictOf]
  · simp [verdictOf]

theorem verdictOf_eq_refused : verdictOf x = .refused ↔ ∃ err, x = .error (.refused err) := by
  rcases x with (err | _) | a
  · simp [verdictOf]
  · simp [verdictOf]
  · simp [verdictOf]

theorem bind_eq_ok {b : β} : (x >>= f) = .ok b ↔ ∃ a, x = .ok a ∧ f a = .ok b := by
  cases x with
  | error e => exact iff_of_false (by rintro ⟨⟩) (by rintro ⟨a, ha, -⟩; cases ha)
  | ok a => exact ⟨fun h => ⟨a, rfl, h⟩, by rintro ⟨a', ha, h⟩; cases ha; exact h⟩

theorem verdictOf_bind {w : Verdict} (h : ∀ a, x = .ok a → verdictOf (f a) = w) :
    verdictOf (x >>= f) = (verdictOf x).andThen w := by
  rcases x with (err | _) | a
  · rfl
  · rfl
  · exact h a rfl

theorem verdictOf_map (g : α → β) : verdictOf (g <$> x) = verdictOf x := by
  rcases x with (err | _) | a
  · rfl
  · rfl
  · rfl

theorem verdictOf_mapM {g : α → Parsed β} {v : α → Verdict} (l : List α) (h : ∀ a ∈ l, verdictOf (g a) = v a) :
    verdictOf (l.mapM g) = firstBad (l.map v) := by
  induction l with
  | nil => rfl
  | cons a l ih =>
    rw [List.forall_mem_cons] at h
    rw [List.mapM_cons, List.map_cons, firstBad_cons, ← h.1, ← ih h.2]
    refine verdictOf_bind fun b _ => ?_
    exact (verdictOf_bind (w := .read) fun _ _ => rfl).trans (andThen_read _)

theorem mapM_eq_ok {g : α → Parsed β} {l : List α} {bs : List β} (h : l.mapM g = .ok bs) :
    ∀ b, b ∈ bs ↔ ∃ a ∈ l, g a = .ok b := by
  induction l generalizing bs with
  | nil =>
    cases h
    simp
  | cons a l ih =>
    rw [List.mapM_cons, bind_eq_ok] at h
    rcases h with ⟨c, hc, h⟩
    rw [bind_eq_ok] at h
    rcases h with ⟨cs, hcs, h⟩
    cases h
    intro b
    rw [List.mem_cons, ih hcs b, List.exists_mem_cons_iff, hc]
    constructor
    · intro hb
      exact hb.imp_left fun heq => by rw [heq]
    · intro hb
      exact hb.imp_left fun heq => (Except.ok.inj heq).symm

theorem mapM_nil {g : α → Parsed β} {l : List α} {bs : List β} (h : l.mapM g = .ok bs) : bs = [] ↔ l = [] := by
  have hmem := mapM_eq_ok h
  cases l with
  | nil =>
    cases h
    exact iff_of_true rfl rfl
  | cons a l =>
    refine iff_of_false (fun hnil => ?_) (List.cons_ne_nil _ _)
    rw [List.mapM_cons, bind_eq_ok] at h
    rcases h with ⟨b, hb, -⟩
    have hb' := (hmem b).mpr ⟨a, List.mem_cons_self .., hb⟩
    rw [hnil] at hb'
    cases hb'

theorem verdictOf_forM {g : α → Parsed Unit} {v : α → Verdict} (l : List α) (h : ∀ a ∈ l, verdictOf (g a) = v a) :
    verdictOf (l.forM g) = firstBad (l.map v) := by
  induction l with
  | nil => rfl
  | cons a l ih =>
    rw [List.forall_mem_cons] at h
    rw [List.map_cons, firstBad_cons, ← h.1, ← ih h.2]
    show verdictOf (g a >>= fun _ => l.forM g) = _
    exact verdictOf_bind fun _ _ => rfl

theorem verdictOf_named (what : Text) : verdictOf (named what x) = verdictOf x := by
  rcases x with (err | _) | a
  · rfl
  · rfl
  · rfl

theorem named_eq_ok {what : Text} {a : α} : named what x = .ok a ↔ x = .ok a := by
  rcases x with (err | _) | b
  · exact iff_of_false (by rintro ⟨⟩) (by rintro ⟨⟩)
  · rfl
  · rfl

end

/-! ## Fields -/

section

variable {t : LuaTable} {field : Text}

def shape (v : Option Text) : Verdict := if v.isSome then .read else .refused

theorem getList_verdict (t : LuaTable) (field : Text) : verdictOf (getList t field) = firstBad ((values t field).map shape) := by
  rw [getList, values]
  cases lua_getfield t field with
  | nil => rfl
  | scalar s => rfl
  | other => rfl
  | table items more =>
    refine verdictOf_mapM items fun v _ => ?_
    cases v <;> rfl

theorem getList_ok {vs : List Text} (h : getList t field = .ok vs) :
    vs = ((values t field).filterMap id).map cut ∧ ∀ v ∈ values t field, v.isSome := by
  rw [getList] at h
  rw [values]
  cases hf : lua_getfield t field with
  | nil =>
    rw [hf] at h
    cases h
    exact ⟨rfl, by simp⟩
  | scalar s =>
    rw [hf] at h
    cases h
    exact ⟨rfl, by simp⟩
  | other =>
    rw [hf] at h
    cases h
  | table items more =>
    rw [hf] at h
    dsimp only at h ⊢
    clear hf
    induction items generalizing vs with
    | nil =>
      cases h
      exact ⟨rfl, by simp⟩
    | cons v items ih =>
      rw [List.mapM_cons, bind_eq_ok] at h
      rcases h with ⟨s, hs, h⟩
      rw [bind_eq_ok] at h
      rcases h with ⟨rest, hrest, h⟩
      cases h
      rcases ih hrest with ⟨heq, hall⟩
      cases v with
      | none => cases hs
      | some s' =>
        cases hs
        refine ⟨?_, ?_⟩
        · rw [heq]
          rfl
        · rw [List.forall_mem_cons]
          exact ⟨rfl, hall⟩

/-- A field is read as its list is, and then each of its values. -/
theorem field_verdict {β : Type} {p : List Text → Parsed β} {v : Text → Verdict} {field : String}
    (hp : ∀ vs, verdictOf (p vs) = firstBad (vs.map v)) :
    verdictOf (getList t field.toList >>= p) = firstBad (fieldVerdicts t field v) := by
  have hlist := getList_verdict t field.toList
  rw [verdictOf_bind (w := firstBad (((values t field.toList).filterMap id).map fun s => v (cut s))), hlist,
    fieldVerdicts, firstBad_append]
  · rfl
  · intro vs hvs
    rw [hp, (getList_ok hvs).1, List.map_map]
    rfl

end

/-! ## Addresses -/

section

variable {E : Env} {T : AddressTree E} {field : Text}

/-- What `addAddress` makes of a text. -/
def Reads (E : Env) (s : Text) (v4 : Bool) (w : List Bool) : Prop :=
  scanMac s = none ∧ v4 = decide ('.' ∈ s) ∧ ∃ f add bits p, Counts.ruleOf E s = some (f, add, bits) ∧
    fillPrefix f add bits (if '.' ∈ s then 32 else 128) = some p ∧ p.bits = w

/-- There are two trees, each for the addresses of its family. -/
structure Sane (T : AddressTree E) : Prop where
  shaped : Counts.Shaped T
  v6 : T.getTree false ≠ none

theorem sane_init : Sane (.init true : AddressTree E) := ⟨Counts.shaped_init true, Option.some_ne_none _⟩

theorem Sane.getTree (h : Sane T) (v4 : Bool) : ∃ q, T.getTree v4 = some q ∧ q.maxbits = if v4 then 32 else 128 := by
  have hne : T.getTree v4 ≠ none := by
    cases v4 with
    | false => exact h.v6
    | true => exact h.shaped.v4
  rcases Option.ne_none_iff_exists'.mp hne with ⟨q, hq⟩
  exact ⟨q, hq, h.shaped.width v4 q hq⟩

theorem Sane.of_width (h : Sane T) {T' : AddressTree E}
    (hw : ∀ v, (T'.getTree v).map PTree.maxbits = (T.getTree v).map PTree.maxbits) : Sane T' := by
  refine ⟨h.shaped.of_trees hw, fun hnone => ?_⟩
  have hfalse := hw false
  rw [hnone, Option.map_none] at hfalse
  exact h.v6 (Option.map_eq_none_iff.mp hfalse.symm)

theorem addAddress_mac {s : Text} {mac : List UInt8} (hmac : scanMac s = some mac) (field : Text) (T : AddressTree E) :
    ∃ T', addAddress E field T s = .ok T' ∧ ∀ v, T'.getTree v = T.getTree v := by
  refine ⟨{ T with macs := insertMac (mac2int mac) T.numAddresses.toUInt64.toInt64 T.macs }, ?_, ?_⟩
  · rw [addAddress, AddressTree.addAddress, hmac, if_pos rfl]
  · intro v
    cases v <;> rfl

theorem addAddress_rule (hP : E.P.Lawful) (h : Sane T) {s : Text} (hmac : scanMac s = none) {f : Family} {add : List Bool}
    {bits : ℤ} (hrule : Counts.ruleOf E s = some (f, add, bits)) {p : Prefix Family}
    (hp : fillPrefix f add bits (if '.' ∈ s then 32 else 128) = some p) :
    ∃ T', addAddress E field T s = .ok T' ∧ Sane T' ∧
      Counts.prefixes T' (decide ('.' ∈ s)) = insert p.bits (Counts.prefixes T (decide ('.' ∈ s))) ∧
      Counts.prefixes T' (!decide ('.' ∈ s)) = Counts.prefixes T (!decide ('.' ∈ s)) := by
  rcases h.getTree (decide ('.' ∈ s)) with ⟨q, hq, hwidth⟩
  have hp' : fillPrefix f add bits q.maxbits = some p := by
    rw [hwidth]
    by_cases hdot : '.' ∈ s
    · simpa [hdot] using hp
    · simpa [hdot] using hp
  rcases Counts.addToPtree_some hP hp' with ⟨q', hadd, hw, hwords⟩
  have hset := Counts.taken_setTree hq hw
  have hpre : Counts.prefixes (T.setTree (decide ('.' ∈ s)) (some q')) (decide ('.' ∈ s)) =
      insert p.bits (Counts.prefixes T (decide ('.' ∈ s))) := by
    rw [Counts.prefixes_setTree, hwords, Counts.prefixes_of hq]
    rfl
  have hnode := Counts.grown_setNode hP (⟨hpre, hset⟩ : Counts.Grown (decide ('.' ∈ s)) p.bits false T _) p
    T.numAddresses.toUInt64.toInt64.toUInt64
  refine ⟨{ ((T.setTree (decide ('.' ∈ s)) (some q')).setNodeU64 (decide ('.' ∈ s)) p
    T.numAddresses.toUInt64.toInt64.toUInt64) with numAddresses := T.numAddresses + 1 }, ?_, ?_, hnode.prefixes,
    hnode.taken.other⟩
  · rw [addAddress, AddressTree.addAddress, hmac, if_pos rfl]
    dsimp only
    rw [Counts.ptreeAddRule_eq, hrule, hq]
    dsimp only
    rw [hadd]
  · exact h.of_width hnode.taken.width

theorem addAddress_refused {s : Text} (hmac : scanMac s = none) (hrule : Counts.ruleOf E s = none) (field : Text)
    (T : AddressTree E) : verdictOf (addAddress E field T s) = .refused := by
  rw [addAddress, AddressTree.addAddress, hmac]
  dsimp only
  rw [Counts.ptreeAddRule_eq, hrule]
  rfl

theorem addAddress_fault (h : Sane T) {s : Text} (hmac : scanMac s = none) {f : Family} {add : List Bool} {bits : ℤ}
    (hrule : Counts.ruleOf E s = some (f, add, bits)) (hp : fillPrefix f add bits (if '.' ∈ s then 32 else 128) = none)
    (field : Text) : addAddress E field T s = .error .fault := by
  rcases h.getTree (decide ('.' ∈ s)) with ⟨q, hq, hwidth⟩
  have hp' : fillPrefix f add bits q.maxbits = none := by
    rw [hwidth]
    by_cases hdot : '.' ∈ s
    · simpa [hdot] using hp
    · simpa [hdot] using hp
  rw [addAddress, AddressTree.addAddress, hmac]
  dsimp only
  rw [Counts.ptreeAddRule_eq, hrule, hq]
  dsimp only
  rw [Env.addToPtree, hp']

/-- The cases of a text. -/
theorem text_cases (E : Env) (s : Text) :
    (∃ mac, scanMac s = some mac) ∨ (scanMac s = none ∧ Counts.ruleOf E s = none) ∨
      scanMac s = none ∧ ∃ f add bits, Counts.ruleOf E s = some (f, add, bits) := by
  rcases hmac : scanMac s with _ | mac
  · rcases hrule : Counts.ruleOf E s with _ | ⟨f, add, bits⟩
    · exact .inr (.inl ⟨rfl, rfl⟩)
    · exact .inr (.inr ⟨rfl, f, add, bits, rfl⟩)
  · exact .inl ⟨mac, rfl⟩

theorem addAddress_verdict (hP : E.P.Lawful) (h : Sane T) (field s : Text) :
    verdictOf (addAddress E field T s) = ipVerdict E s := by
  rcases text_cases E s with ⟨mac, hmac⟩ | ⟨hmac, hrule⟩ | ⟨hmac, f, add, bits, hrule⟩
  · rcases addAddress_mac hmac field T with ⟨T', hok, -⟩
    rw [hok, ipVerdict, hmac]
    rfl
  · rw [addAddress_refused hmac hrule, ipVerdict, hmac, hrule]
  · rw [ipVerdict, hmac, hrule]
    dsimp only
    rcases hp : fillPrefix f add bits (if '.' ∈ s then 32 else 128) with _ | p
    · rw [addAddress_fault h hmac hrule hp]
      rfl
    · rcases addAddress_rule hP h hmac hrule hp with ⟨T', hok, -⟩
      rw [hok]
      rfl

theorem addAddress_ok (hP : E.P.Lawful) (h : Sane T) {s : Text} {T' : AddressTree E} (hok : addAddress E field T s = .ok T') :
    Sane T' ∧ ∀ v4 w, w ∈ Counts.prefixes T' v4 ↔ w ∈ Counts.prefixes T v4 ∨ Reads E s v4 w := by
  rcases text_cases E s with ⟨mac, hmac⟩ | ⟨hmac, hrule⟩ | ⟨hmac, f, add, bits, hrule⟩
  · rcases addAddress_mac hmac field T with ⟨T'', hok', htrees⟩
    cases hok.symm.trans hok'
    refine ⟨h.of_width fun v => by rw [htrees], ?_⟩
    intro v4 w
    rw [Counts.prefixes_congr (htrees v4)]
    exact ⟨.inl, fun hw => hw.elim id fun hr => absurd (hmac.symm.trans hr.1) (Option.some_ne_none _)⟩
  · have hverdict := addAddress_refused hmac hrule field T
    rw [hok] at hverdict
    cases hverdict
  · rcases hp : fillPrefix f add bits (if '.' ∈ s then 32 else 128) with _ | p
    · rw [addAddress_fault h hmac hrule hp] at hok
      cases hok
    · rcases addAddress_rule hP h hmac hrule hp with ⟨T'', hok', hsane, hown, hother⟩
      cases hok.symm.trans hok'
      refine ⟨hsane, ?_⟩
      intro v4 w
      have hreads : Reads E s v4 w ↔ v4 = decide ('.' ∈ s) ∧ p.bits = w := by
        constructor
        · rintro ⟨-, hv, f', add', bits', p', hrule', hp', hw⟩
          cases hrule.symm.trans hrule'
          cases hp.symm.trans hp'
          exact ⟨hv, hw⟩
        · rintro ⟨hv, hw⟩
          exact ⟨hmac, hv, f, add, bits, p, hrule, hp, hw⟩
      rw [hreads]
      by_cases hv : v4 = decide ('.' ∈ s)
      · rw [hv, hown, Finset.mem_insert, or_comm, and_iff_right rfl, eq_comm]
      · have hv' : v4 = !decide ('.' ∈ s) := Bool.eq_not_of_ne hv
        rw [or_iff_left fun hw => hv hw.1, hv', hother]

/-- What a list of texts leaves in a tree. -/
theorem foldlM_addAddress (hP : E.P.Lawful) (h : Sane T) (vs : List Text) :
    verdictOf (vs.foldlM (addAddress E field) T) = firstBad (vs.map (ipVerdict E)) ∧
      ∀ T', vs.foldlM (addAddress E field) T = .ok T' →
        Sane T' ∧ ∀ v4 w, w ∈ Counts.prefixes T' v4 ↔ w ∈ Counts.prefixes T v4 ∨ ∃ s ∈ vs, Reads E s v4 w := by
  induction vs generalizing T with
  | nil =>
    refine ⟨rfl, fun T' hok => ?_⟩
    cases hok
    exact ⟨h, by simp⟩
  | cons s vs ih =>
    rw [List.foldlM_cons, List.map_cons, firstBad_cons, ← addAddress_verdict hP h]
    refine ⟨verdictOf_bind fun T₁ hok => (ih (addAddress_ok hP h hok).1).1, ?_⟩
    intro T' hok
    rcases bind_eq_ok.mp hok with ⟨T₁, hok₁, hrest⟩
    rcases addAddress_ok hP h hok₁ with ⟨hsane, hfirst⟩
    rcases (ih hsane).2 T' hrest with ⟨hsane', hall⟩
    refine ⟨hsane', ?_⟩
    intro v4 w
    rw [hall, hfirst, or_assoc, List.exists_mem_cons_iff]

theorem prefixes_init (v4 : Bool) : Counts.prefixes (.init true : AddressTree E) v4 = ∅ := by
  cases v4 with
  | false => exact E.P.words_new 128
  | true => exact E.P.words_new 32

theorem matchIP_iff (h : Sane T) (a : Option IpAddress) :
    matchIP T a ↔ ∃ b ∈ a, ∃ w ∈ Counts.prefixes T (Counts.isV4 b), w <+: b.bits := by
  cases a with
  | none => exact iff_of_false Bool.false_ne_true (by rintro ⟨b, hb, -⟩; cases hb)
  | some b =>
    have hne : T.getTree (Counts.isV4 b) ≠ none := by
      rcases h.getTree (Counts.isV4 b) with ⟨q, hq, -⟩
      rw [hq]
      exact Option.some_ne_none _
    rcases Counts.match_inRange h.shaped hne (Counts.inRange_width b) with ⟨r, hr, hnone⟩
    have hfull : b.bits.take (b.width : ℤ).toNat = b.bits := by
      rw [Int.toNat_natCast, ← Counts.length_ipa, List.take_length]
    rw [hfull] at hnone
    have hmatch : matchIP T (some b) ↔ r ≠ none := by
      rw [matchIP, hr]
      cases r with
      | none => exact iff_of_false Bool.false_ne_true fun hne => hne rfl
      | some n => exact iff_of_true rfl (Option.some_ne_none _)
    rw [hmatch, ne_eq, hnone, not_not]
    constructor
    · intro hc
      exact ⟨b, rfl, hc⟩
    · rintro ⟨b', hb', hc⟩
      cases hb'
      exact hc

end

/-! ## Documented addresses -/

section

variable {E : Env} {s r : Text}

theorem digits_slash (base width n v : ℕ) (s r : Text) (h : digit base '/' = none) :
    digits base width n v (s ++ '/' :: r) =
      ((digits base width n v s).1, (digits base width n v s).2.1, (digits base width n v s).2.2 ++ '/' :: r) := by
  induction s generalizing width n v with
  | nil =>
    cases width with
    | zero => rfl
    | succ width => simp only [List.nil_append, digits, h]
  | cons c s ih =>
    cases width with
    | zero => rfl
    | succ width =>
      rw [List.cons_append, digits, digits]
      cases digit base c with
      | none => rfl
      | some d => exact ih ..

theorem skipSpaces_slash (s r : Text) : skipSpaces (s ++ '/' :: r) = skipSpaces s ++ '/' :: r := by
  induction s with
  | nil => rfl
  | cons c s ih =>
    rw [skipSpaces] at ih ⊢
    rw [skipSpaces, List.cons_append]
    by_cases hc : isspace c
    · rw [List.dropWhile_cons_of_pos hc, List.dropWhile_cons_of_pos hc, ih, skipSpaces]
    · rw [List.dropWhile_cons_of_neg hc, List.dropWhile_cons_of_neg hc, List.cons_append]

theorem sign_slash (s r : Text) : sign (s ++ '/' :: r) = ((sign s).1, (sign s).2.1, (sign s).2.2 ++ '/' :: r) := by
  rcases s with _ | ⟨c, s⟩
  · rfl
  · by_cases hminus : c = '-'
    · subst hminus
      rfl
    · by_cases hplus : c = '+'
      · subst hplus
        rfl
      · have hsign : ∀ q, sign (c :: q) = (false, 0, c :: q) := by
          intro q
          rw [sign]
          · exact fun t ht => hminus (List.cons.inj ht).1
          · exact fun t ht => hplus (List.cons.inj ht).1
        rw [List.cons_append, hsign, hsign]
        rfl

theorem scan_slash (s r : Text) : scan 16 2 (s ++ '/' :: r) = (scan 16 2 s).map fun x => (x.1, x.2 ++ '/' :: r) := by
  have hslash : digit 16 '/' = none := by decide
  rw [scan, scan, skipSpaces_slash, sign_slash]
  dsimp only
  rw [digits_slash _ _ _ _ _ _ hslash]
  rcases digits 16 (2 - (sign (skipSpaces s)).2.1) 0 0 (sign (skipSpaces s)).2.2 with ⟨n, v, rest⟩
  dsimp only
  have hhead : ((rest ++ '/' :: r).head? = some 'x' ∨ (rest ++ '/' :: r).head? = some 'X') ↔
      (rest.head? = some 'x' ∨ rest.head? = some 'X') := by
    cases rest with
    | nil => simp
    | cons c rest => simp
  simp only [hhead]
  split
  · rfl
  · rfl

theorem scanMany_slash (n : ℕ) (s r : Text) : scanMany (scan 16 2) ':' n (s ++ '/' :: r) = scanMany (scan 16 2) ':' n s := by
  induction n generalizing s with
  | zero => rfl
  | succ n ih =>
    rw [scanMany, scanMany, scan_slash]
    rcases scan 16 2 s with _ | ⟨v, rest⟩
    · rfl
    · cases rest with
      | nil => rfl
      | cons c rest =>
        dsimp only [Option.map_some, List.cons_append]
        rw [ih]

/-- What follows a slash is not part of a MAC address. -/
theorem scanMac_slash (s r : Text) : scanMac (s ++ '/' :: r) = scanMac s := by
  rw [scanMac, scanMac, scanMany_slash]

def bitsText : Option ℕ → Text
  | none => []
  | some n => '/' :: Tags.decimal n

theorem none_bits : ∀ n ∈ (none : Option ℕ), n ≤ 128 := fun n hn => absurd hn (Option.not_mem_none n)

/-- A line that has its address in front of the bits. -/
theorem ruleOf_line {ip : Text} (hhead : '[' ∉ ip) (hslash : '/' ∉ ip) (hmac : scanMac ip = none) {bits : Option ℕ}
    (hbits : ∀ n ∈ bits, n ≤ 128) : Counts.ruleOf E (ip ++ bitsText bits) =
      if ':' ∈ ip then (E.inetPton6 ip).map fun addr6 => (.inet6, addr6.val, (bits.elim 128 (fun n => (n : ℤ)) : ℤ))
      else if (scanOctets ip).length ≥ 1 then
        some (.inet, byteBits ((scanOctets ip).getD 0 0 % 256) ++ byteBits ((scanOctets ip).getD 1 0 % 256) ++
          byteBits ((scanOctets ip).getD 2 0 % 256) ++ byteBits ((scanOctets ip).getD 3 0 % 256),
          min (bits.elim 32 (fun n => (n : ℤ))) 32)
      else none := by
  have hline : ¬ (ip ++ bitsText bits).head? = some '[' := by
    intro h
    have hmem := List.mem_of_mem_head? h
    rcases List.mem_append.mp hmem with hmem | hmem
    · exact hhead hmem
    · cases bits with
      | none => cases hmem
      | some n =>
        rcases List.mem_cons.mp hmem with hmem | hmem
        · cases hmem
        · exact absurd (Tags.decimal_isDigit hmem) (by decide)
  have htake : (ip ++ bitsText bits).takeWhile (· ≠ '/') = ip := by
    cases bits with
    | none => rw [bitsText, List.append_nil, Tags.takeWhile_ne hslash]
    | some n => exact Tags.before_append hslash
  have hdrop : ((ip ++ bitsText bits).dropWhile (· ≠ '/')).tail? = bits.map Tags.decimal := by
    cases bits with
    | none => rw [bitsText, List.append_nil, Tags.dropWhile_ne hslash, List.tail?_nil, Option.map_none]
    | some n => exact Tags.after_append hslash
  have hatoi : ∀ k : ℤ, (bits.map Tags.decimal).elim k atoi = bits.elim k fun n => (n : ℤ) := by
    intro k
    cases bits with
    | none => rfl
    | some n =>
      have hn := hbits n rfl
      exact Tags.atoi_decimal (by omega)
  rw [Counts.ruleOf, if_neg hline]
  simp only [htake, hdrop, hmac, hatoi]

theorem ruleOf_v4 (a : Bits 32) {bits : Option ℕ} (hbits : ∀ n ∈ bits, n ≤ 128) :
    Counts.ruleOf E (intoaV4 a.val ++ bitsText bits) = some (.inet, a.val, min (bits.elim 32 fun n => (n : ℤ)) 32) := by
  have hcolon : ':' ∉ intoaV4 a.val := Tags.intoaV4_ne (by decide) (by decide)
  have hbyte : ∀ i < 4, byteBits (bitsNat (Tags.octet a i) % 256) = Tags.octet a i := by
    intro i hi
    rw [Nat.mod_eq_of_lt (Tags.bitsNat_lt_256 (Tags.octet_length a hi)), Tags.byteBits_bitsNat (Tags.octet_length a hi)]
  rw [ruleOf_line (Tags.intoaV4_ne (by decide) (by decide)) (Tags.intoaV4_ne (by decide) (by decide)) (scanMac_sep hcolon) hbits,
    if_neg hcolon, Tags.scanOctets_intoaV4, if_pos (by simp)]
  simp only [List.getD_cons_zero, List.getD_cons_succ, hbyte 0 (by decide), hbyte 1 (by decide), hbyte 2 (by decide),
    hbyte 3 (by decide), Tags.octets_append]

theorem pton6_ne (hpton : Pton6 E) {a : Bits 128} (h : E.inetPton6 s = some a) {c : Char} (hcolon : c ≠ ':') (hdot : c ≠ '.')
    (hc : digit 16 c = none) : c ∉ s := by
  intro hmem
  rcases hpton.chars s a h c hmem with heq | heq | hdigit
  · exact hcolon heq
  · exact hdot heq
  · rw [hc] at hdigit
    cases hdigit

theorem ruleOf_v6 (hpton : Pton6 E) {a : Bits 128} (h : E.inetPton6 s = some a) (hmac : scanMac s = none) {bits : Option ℕ}
    (hbits : ∀ n ∈ bits, n ≤ 128) : Counts.ruleOf E (s ++ bitsText bits) = some (.inet6, a.val, bits.elim 128 fun n => (n : ℤ)) := by
  rw [ruleOf_line (pton6_ne hpton h (by decide) (by decide) (by decide))
    (pton6_ne hpton h (by decide) (by decide) (by decide)) hmac hbits, if_pos (hpton.colon s a h), h, Option.map_some]

/-- A documented address is one rule, for the bits that it says. -/
theorem docIp_rule (hpton : Pton6 E) {v4 : Bool} {w : List Bool} (h : DocIp E s v4 w) (hmac : scanMac s = none) :
    ∃ f add, ∃ n : ℕ, Counts.ruleOf E s = some (f, add, (n : ℤ)) ∧ add.take n = w ∧ w.length = n ∧
      n ≤ (if v4 then 32 else 128) ∧ n ≤ add.length := by
  cases h with
  | host4 a =>
    have hrule := @ruleOf_v4 E a none none_bits
    rw [bitsText, List.append_nil] at hrule
    refine ⟨.inet, a.val, 32, hrule, List.take_of_length_le (Nat.le_of_eq a.property), a.property, Nat.le_refl _, ?_⟩
    rw [a.property]
  | cidr4 a n hn =>
    have hrule := @ruleOf_v4 E a (some n) (fun k hk => by rw [← Option.some.inj hk]; omega)
    have hmin : min (n : ℤ) 32 = n := by omega
    rw [Option.elim_some, hmin] at hrule
    refine ⟨.inet, a.val, n, hrule, rfl, ?_, hn, ?_⟩
    · rw [List.length_take, a.property]
      omega
    · rw [a.property]
      exact hn
  | host6 s a ha =>
    have hrule := ruleOf_v6 hpton ha hmac none_bits
    rw [bitsText, List.append_nil] at hrule
    refine ⟨.inet6, a.val, 128, hrule, List.take_of_length_le (Nat.le_of_eq a.property), a.property, Nat.le_refl _, ?_⟩
    rw [a.property]
  | cidr6 s a ha n hn =>
    rw [scanMac_slash] at hmac
    have hrule := ruleOf_v6 hpton ha hmac (fun k (hk : k ∈ some n) => by rw [← Option.some.inj hk]; exact hn)
    rw [Option.elim_some] at hrule
    refine ⟨.inet6, a.val, n, hrule, rfl, ?_, hn, ?_⟩
    · rw [List.length_take, a.property]
      omega
    · rw [a.property]
      exact hn

theorem docIp_dot {v4 : Bool} {w : List Bool} (h : DocIp E s v4 w) (hv : v4 = true) : '.' ∈ s := by
  have hdot : ∀ a : Bits 32, '.' ∈ intoaV4 a.val := by
    intro a
    rw [Tags.intoaV4_eq]
    exact List.mem_append_right _ (List.mem_cons_self ..)
  cases h with
  | host4 a => exact hdot a
  | cidr4 a n hn => exact List.mem_append_left _ (hdot a)
  | host6 s a ha => cases hv
  | cidr6 s a ha n hn => cases hv

theorem docIp_cut (hpton : Pton6 E) {v4 : Bool} {w : List Bool} (h : DocIp E s v4 w) : cut s = s := by
  have hdigits : ∀ n, '\x00' ∉ Nat.toDigits 10 n := fun n hmem => absurd (Tags.decimal_isDigit (k := n) hmem) (by decide)
  have hslash : ∀ {ip : Text} (n : ℕ), '\x00' ∉ ip → '\x00' ∉ ip ++ '/' :: Nat.toDigits 10 n := by
    intro ip n hip hmem
    rcases List.mem_append.mp hmem with hmem | hmem
    · exact hip hmem
    · rcases List.mem_cons.mp hmem with hmem | hmem
      · exact absurd hmem (by decide)
      · exact hdigits n hmem
  refine Tags.takeWhile_ne ?_
  cases h with
  | host4 a => exact Tags.intoaV4_ne (by decide) (by decide)
  | cidr4 a n hn => exact hslash n (Tags.intoaV4_ne (by decide) (by decide))
  | host6 s a ha => exact pton6_ne hpton ha (by decide) (by decide) (by decide)
  | cidr6 s a ha n hn => exact hslash n (pton6_ne hpton ha (by decide) (by decide) (by decide))

theorem fillPrefix_bits {f : Family} {add : List Bool} {n maxbits : ℕ} (h : n ≤ maxbits) (hadd : n ≤ add.length) :
    ∃ p, fillPrefix f add n maxbits = some p ∧ p.bits = add.take n := by
  have hfill : (0 : ℤ) ≤ n ∧ (n : ℤ).toNat ≤ maxbits ∧ (n : ℤ).toNat ≤ add.length := ⟨Int.natCast_nonneg _, h, hadd⟩
  exact ⟨⟨f, add, (n : ℤ).toNat, hfill.2.2⟩, by rw [fillPrefix, dif_pos hfill], rfl⟩

theorem fillPrefix_eq_some {f : Family} {add : List Bool} {n maxbits : ℕ} {p : Prefix Family}
    (h : fillPrefix f add n maxbits = some p) : n ≤ maxbits ∧ p.bits = add.take n := by
  rw [fillPrefix] at h
  split at h
  · rename_i hfill
    cases h
    exact ⟨hfill.2.1, rfl⟩
  · cases h

/-- An IPv6 address that goes to the tree for IPv4 faults there if it has too many bits. -/
theorem tooLong_verdict (hpton : Pton6 E) (h : TooLong E s) : ipVerdict E s = .fault := by
  rcases h with ⟨w, hdoc, hmac, hdot, hbig⟩
  rcases docIp_rule hpton hdoc hmac with ⟨f, add, n, hrule, -, hlen, -, -⟩
  rw [ipVerdict, hmac, hrule]
  dsimp only
  rw [if_pos hdot, if_neg]
  intro hsome
  rcases Option.isSome_iff_exists.mp hsome with ⟨p, hp⟩
  have := (fillPrefix_eq_some hp).1
  omega

/-- The other documented addresses are read. -/
theorem docIp_verdict (hpton : Pton6 E) {v4 : Bool} {w : List Bool} (h : DocIp E s v4 w) (hlong : ¬ TooLong E s) :
    ipVerdict E s = .read := by
  rw [ipVerdict]
  rcases hmac : scanMac s with _ | mac
  · rcases docIp_rule hpton h hmac with ⟨f, add, n, hrule, hw, hlen, hmax, hadd⟩
    have hle : n ≤ if '.' ∈ s then 32 else 128 := by
      by_cases hdot : '.' ∈ s
      · rw [if_pos hdot]
        cases v4 with
        | true => exact hmax
        | false =>
          by_contra hbig
          exact hlong ⟨w, h, hmac, hdot, by omega⟩
      · rw [if_neg hdot]
        cases v4 with
        | true => exact absurd (docIp_dot h rfl) hdot
        | false => exact hmax
    rcases fillPrefix_bits (f := f) hle hadd with ⟨p, hp, -⟩
    rw [hrule]
    dsimp only
    rw [hp, Option.isSome_some, if_pos rfl]
  · rfl

/-- What a documented address is read as, unless it faults. -/
theorem reads_iff_taken (hpton : Pton6 E) {v : Bool} {w : List Bool} (h : DocIp E s v w) (hlong : ¬ TooLong E s)
    (v4 : Bool) (u : List Bool) : Reads E s v4 u ↔ Taken E s v4 u := by
  have hverdict := docIp_verdict hpton h hlong
  constructor
  · rintro ⟨hmac, hv, f, add, bits, p, hrule, hp, hu⟩
    rcases docIp_rule hpton h hmac with ⟨f', add', n, hrule', hw, -, -, -⟩
    cases hrule.symm.trans hrule'
    rw [(fillPrefix_eq_some hp).2, hw] at hu
    exact ⟨⟨v, hu ▸ h⟩, hmac, hv⟩
  · rintro ⟨⟨v', hdoc⟩, hmac, hv⟩
    rcases docIp_rule hpton hdoc hmac with ⟨f, add, n, hrule, hw, -, -, -⟩
    rw [ipVerdict, hmac, hrule] at hverdict
    dsimp only at hverdict
    rcases hp : fillPrefix f add n (if '.' ∈ s then 32 else 128) with _ | p
    · rw [hp] at hverdict
      cases hverdict
    · exact ⟨hmac, hv, f, add, n, p, hrule, hp, (fillPrefix_eq_some hp).2.trans hw⟩

end

/-! ## Documented numbers and names -/

section

variable {s : Text} {n max : ℕ}

theorem readNat_some (h : Lib.Decimal.readNat s = some n) : s ≠ [] ∧ (∀ c ∈ s, c.isDigit) ∧ Nat.ofDigitChars 10 s 0 = n := by
  rw [Lib.Decimal.readNat] at h
  split at h
  · rename_i hs
    exact ⟨hs.1, List.all_eq_true.mp hs.2, Option.some.inj h⟩
  · cases h

theorem valueFrom_digits (ds : Text) (v : ℕ) (hds : ∀ c ∈ ds, c.isDigit) : Tags.valueFrom 10 v ds = Nat.ofDigitChars 10 ds v := by
  induction ds generalizing v with
  | nil => rfl
  | cons d ds ih =>
    have hd := Tags.digit_of_isDigit (le_refl 10) (hds d (List.mem_cons_self ..))
    rw [Nat.ofDigitChars_cons, ← ih _ fun c hc => hds c (List.mem_cons_of_mem _ hc)]
    simp only [Tags.valueFrom, List.foldl_cons, hd, Option.getD_some]
    rw [Nat.mul_comm]

theorem isDigit_iff {c : Char} : c.isDigit ↔ 48 ≤ c.toNat ∧ c.toNat ≤ 57 := by
  simp only [Char.isDigit, Bool.and_eq_true, decide_eq_true_eq, UInt32.le_iff_toNat_le]
  rfl

theorem not_isspace {c : Char} (h : c.isDigit) : isspace c = false := by
  have hc := isDigit_iff.mp h
  by_contra hspace
  have := isspace_le (Bool.eq_true_of_not_eq_false hspace)
  omega

/-- A number in digits is read as it is. -/
theorem strtol_digits (h : Lib.Decimal.readNat s = some n) (hn : n ≤ 65535) : strtol s = ((n : ℤ), []) := by
  rcases readNat_some h with ⟨hne, hall, hval⟩
  rcases s with _ | ⟨c, s⟩
  · exact absurd rfl hne
  · have hc := hall c (List.mem_cons_self ..)
    have hdigit : ∀ d ∈ c :: s, (digit 10 d).isSome := fun d hd => by
      rw [Tags.digit_of_isDigit (le_refl 10) (hall d hd)]
      rfl
    have hspace : (c :: s).dropWhile isspace = c :: s := List.dropWhile_cons_of_neg (by rw [not_isspace hc]; decide)
    have hsign : sign (c :: s) = (false, 0, c :: s) :=
      Tags.sign_digit (by rw [Tags.digit_of_isDigit (by decide) hc]; rfl) s
    have hdigits := @Tags.digits_append 10 (c :: s) [] hdigit (c :: s).length 0 0 (Nat.le_refl _) (.inl rfl)
    rw [List.append_nil, valueFrom_digits _ _ hall, hval] at hdigits
    rw [strtol, hspace, hsign]
    dsimp only
    rw [hdigits]
    dsimp only
    rw [if_neg (by simp), if_neg Bool.false_ne_true, clampLong, min_eq_right (by omega), max_eq_right (by omega)]

theorem toInt_doc (h : DocNumber max s n) (hmax : max ≤ 65535) : toInt s 0 max = some (n : ℤ) := by
  have hle := h.2
  have hne := (readNat_some h.1).1
  rw [toInt, strtol_digits h.1 (by omega)]
  dsimp only
  rw [if_neg]
  rintro (hs | hs | hs | hs)
  · exact hne hs
  · exact hs rfl
  · omega
  · omega

theorem digits_all {base width v k : ℕ} (h : (digits base width k v s).2.2 = []) : ∀ c ∈ s, (digit base c).isSome := by
  induction s generalizing width v k with
  | nil => exact fun c hc => absurd hc List.not_mem_nil
  | cons d s ih =>
    cases width with
    | zero => cases h
    | succ width =>
      rw [digits] at h
      rcases hd : digit base d with _ | x
      · rw [hd] at h
        cases h
      · rw [hd] at h
        rw [List.forall_mem_cons, hd]
        exact ⟨rfl, ih h⟩

theorem isDigit_of_digit {c : Char} (h : (digit 10 c).isSome) : c.isDigit := by
  by_contra hno
  have hrange : ¬ ('0' ≤ c ∧ c ≤ '9') := fun hc => hno (isDigit_iff.mpr hc)
  have hnone : digit 10 c = none := by
    rw [digit, if_neg hrange]
    by_cases hlower : 'a' ≤ c ∧ c ≤ 'f'
    · rw [if_pos hlower, if_neg (by omega)]
    · rw [if_neg hlower]
      by_cases hupper : 'A' ≤ c ∧ c ≤ 'F'
      · rw [if_pos hupper, if_neg (by omega)]
      · rw [if_neg hupper, if_neg (Nat.lt_irrefl _)]
  rw [hnone] at h
  cases h

/-- What `toInt` takes is written with the characters of numbers. -/
theorem numeric_of_toInt {z m : ℤ} (h : toInt s 0 m = some z) : Numeric s := by
  have hends : s ≠ [] ∧ (strtol s).2 = [] := by
    rcases hst : strtol s with ⟨k, rest⟩
    rw [toInt, hst] at h
    dsimp only at h
    by_cases hbad : s = [] ∨ rest ≠ [] ∨ k < 0 ∨ m < k
    · rw [if_pos hbad] at h
      cases h
    · rw [not_or, not_or] at hbad
      exact ⟨hbad.1, Classical.not_not.mp hbad.2.1⟩
  · have hrest := hends.2
    rw [strtol] at hrest
    dsimp only at hrest
    split at hrest
    · exact absurd hrest hends.1
    · have hall := digits_all hrest
      intro c hc
      rw [← List.takeWhile_append_dropWhile (p := isspace) (l := s)] at hc
      rcases List.mem_append.mp hc with hc | hc
      · exact .inl (List.mem_takeWhile_imp hc)
      · right
        rcases hd : s.dropWhile isspace with _ | ⟨d, r⟩
        · rw [hd] at hc
          cases hc
        · rw [hd] at hc hall
          by_cases hminus : d = '-'
          · subst hminus
            rcases List.mem_cons.mp hc with hc | hc
            · exact .inl hc
            · exact .inr (.inr (isDigit_of_digit (hall c hc)))
          · by_cases hplus : d = '+'
            · subst hplus
              rcases List.mem_cons.mp hc with hc | hc
              · exact .inr (.inl hc)
              · exact .inr (.inr (isDigit_of_digit (hall c hc)))
            · have hsign : sign (d :: r) = (false, 0, d :: r) := by
                rw [sign]
                · exact fun t ht => hminus (List.cons.inj ht).1
                · exact fun t ht => hplus (List.cons.inj ht).1
              rw [hsign] at hall
              exact .inr (.inr (isDigit_of_digit (hall c hc)))

theorem ofInt16 (n : ℕ) : UInt16.ofInt (n : ℤ) = UInt16.ofNat n := by
  have h : ((n : ℤ) % 2 ^ 16).toNat = n % 2 ^ 16 := by omega
  rw [UInt16.ofInt, h]
  exact UInt16.ofNat_mod_size

theorem ofInt8 (n : ℕ) : UInt8.ofInt (n : ℤ) = UInt8.ofNat n := by
  have h : ((n : ℤ) % 2 ^ 8).toNat = n % 2 ^ 8 := by omega
  rw [UInt8.ofInt, h]
  exact UInt8.ofNat_mod_size

theorem parsePort_doc {field : Text} (h : DocNumber 65535 s n) :
    n < 65536 ∧ parsePort field s = .ok (UInt16.ofNat n) := by
  have hint : toInt s 0 65535 = some (n : ℤ) := toInt_doc h (Nat.le_refl _)
  have hle := h.2
  refine ⟨by omega, ?_⟩
  rw [parsePort, hint]
  exact congrArg Except.ok (ofInt16 n)

theorem strcasecmp_eq {a b : Text} (h : strcasecmp a b) (c : Text) : strcasecmp a c = strcasecmp b c := by
  have hab : a.map Char.toLower = b.map Char.toLower := of_decide_eq_true h
  rw [strcasecmp, strcasecmp, hab]

theorem numeric_lt {c : Char} (h : isspace c ∨ c = '-' ∨ c = '+' ∨ c.isDigit) : c.toNat < 65 := by
  rcases h with h | h | h | h
  · have := isspace_le h
    omega
  · subst h
    decide
  · subst h
    decide
  · have := isDigit_iff.mp h
    omega

theorem numeric_lower (h : Numeric s) : s.map Char.toLower = s := by
  refine (List.map_congr_left fun c hc => ?_).trans (List.map_id s)
  have hlt := numeric_lt (h c hc)
  rw [Char.toLower, dif_neg, id_eq]
  intro hupper
  have : 65 ≤ c.toNat := hupper.1
  omega

/-- No protocol's name is a number. -/
theorem l4Names_not_numeric {e : Text × UInt8} (he : e ∈ l4Names) (h : strcasecmp s e.1) : ¬ Numeric s := by
  intro hnum
  have hnames : ∀ e ∈ l4Names, (e.1.map Char.toLower).head?.any (fun c => decide (97 ≤ c.toNat)) = true := by decide
  have hletter := hnames e he
  have heq : s.map Char.toLower = e.1.map Char.toLower := of_decide_eq_true h
  rw [← heq, numeric_lower hnum, Option.any_eq_true] at hletter
  rcases hletter with ⟨c, hc, hle⟩
  have hlt := numeric_lt (hnum c (List.mem_of_mem_head? hc))
  have := of_decide_eq_true hle
  omega

theorem toInt_none (h : ¬ Numeric s) (m : ℤ) : toInt s 0 m = none := by
  rcases hint : toInt s 0 m with _ | z
  · rfl
  · exact absurd (numeric_of_toInt hint) h

theorem parseL4Value_doc (h : DocL4 s n) : n < 256 ∧ parseL4Value s = .ok (UInt8.ofNat n) := by
  rcases h with h | ⟨e, he, hcmp, hn⟩
  · have hint : toInt s 0 255 = some (n : ℤ) := toInt_doc h (by decide)
    have hle := h.2
    refine ⟨by omega, ?_⟩
    rw [parseL4Value, hint]
    exact congrArg Except.ok (ofInt8 n)
  · have hfold : ∀ e ∈ l4Names, l4Names.foldl (fun found e' => if strcasecmp e.1 e'.1 then some e'.2 else found) none =
        some e.2 := by decide
    have hname := hfold e he
    rw [parseL4Value, toInt_none (l4Names_not_numeric he hcmp)]
    simp only [strcasecmp_eq hcmp, hname, hn]
    exact ⟨e.2.toNat_lt, by rw [UInt8.ofNat_toNat]⟩

theorem parseL7Value_doc {getnDPIProtoByName : Text → UInt16} (h : DocL7 getnDPIProtoByName s n) :
    n < 65536 ∧ parseL7Value getnDPIProtoByName s = .ok (UInt16.ofNat n) := by
  rcases h with h | ⟨hnum, -, hknown, hn⟩
  · have hint : toInt s 0 65535 = some (n : ℤ) := toInt_doc h (Nat.le_refl _)
    have hle := h.2
    refine ⟨by omega, ?_⟩
    rw [parseL7Value, hint]
    exact congrArg Except.ok (ofInt16 n)
  · rw [parseL7Value, toInt_none hnum, hn, UInt16.ofNat_toNat]
    refine ⟨(getnDPIProtoByName s).toNat_lt, ?_⟩
    dsimp only
    rw [if_neg]
    rintro ⟨hzero, hcmp⟩
    rcases hknown with hknown | hknown
    · exact hknown hzero
    · rw [hknown] at hcmp
      cases hcmp

/-! ### They end at no NUL -/

theorem cut_eq (h : '\x00' ∉ s) : cut s = s := Tags.takeWhile_ne h

theorem docNumber_cut (h : DocNumber max s n) : cut s = s :=
  cut_eq fun hmem => absurd ((readNat_some h.1).2.1 _ hmem) (by decide)

theorem docL4_cut (h : DocL4 s n) : cut s = s := by
  rcases h with h | ⟨e, he, hcmp, -⟩
  · exact docNumber_cut h
  · refine cut_eq fun hmem => ?_
    have hnames : ∀ e ∈ l4Names, '\x00' ∉ e.1.map Char.toLower := by decide
    refine hnames e he ?_
    have heq : s.map Char.toLower = e.1.map Char.toLower := of_decide_eq_true hcmp
    rw [← heq]
    exact List.mem_map.mpr ⟨'\x00', hmem, by decide⟩

theorem docL7_cut {getnDPIProtoByName : Text → UInt16} (h : DocL7 getnDPIProtoByName s n) : cut s = s := by
  rcases h with h | ⟨-, hnul, -⟩
  · exact docNumber_cut h
  · exact cut_eq hnul

end

/-! ## Loading -/

section

variable {E : Env} {getnDPIProtoByName : Text → UInt16} {t : LuaTable}

theorem verdictOf_step {α β : Type} {x : Parsed α} {g : α → Parsed β} {v w : Verdict} (hx : verdictOf x = v)
    (hg : ∀ a, verdictOf (g a) = w) : verdictOf (x >>= g) = v.andThen w :=
  hx ▸ verdictOf_bind fun a _ => hg a

theorem checkKeys_verdict (t : LuaTable) : verdictOf (checkKeys t filterKeys "filter".toList) = firstBad (t.map fun e => keyVerdict e.1) := by
  refine verdictOf_forM t fun e _ => ?_
  cases e.1 with
  | none => rfl
  | some k =>
    rw [checkKey, keyVerdict]
    by_cases hk : cut k ∈ filterKeys
    · rw [if_pos hk, if_pos hk]
      rfl
    · rw [if_neg hk, if_neg hk]
      rfl

theorem parsePort_verdict (field v : Text) : verdictOf (parsePort field v) = numberVerdict 65535 v := by
  rw [parsePort, numberVerdict]
  cases toInt v 0 65535 <;> rfl

theorem foldl_names {p : Text → Bool} (l : List (Text × UInt8)) (found : Option UInt8) :
    l.foldl (fun found e => if p e.1 then some e.2 else found) found = none ↔ found = none ∧ ∀ e ∈ l, p e.1 = false := by
  induction l generalizing found with
  | nil => simp
  | cons e l ih =>
    rw [List.foldl_cons, ih, List.forall_mem_cons]
    cases hp : p e.1 with
    | false => simp
    | true => simp

theorem parseL4Value_verdict (v : Text) : verdictOf (parseL4Value v) = l4Verdict v := by
  rw [parseL4Value, l4Verdict]
  rcases toInt v 0 255 with _ | z
  · rcases hfold : l4Names.foldl (fun found e => if strcasecmp v e.1 then some e.2 else found) none with _ | n
    · have hno := ((foldl_names l4Names none).mp hfold).2
      dsimp only
      rw [hfold, if_neg]
      · rfl
      · rintro (h | ⟨e, he, h⟩)
        · cases h
        · rw [hno e he] at h
          cases h
    · dsimp only
      rw [hfold, if_pos]
      · rfl
      · by_contra hno
        rw [not_or] at hno
        have hnone := (foldl_names (p := strcasecmp v) l4Names none).mpr
          ⟨rfl, fun e he => Bool.eq_false_of_not_eq_true fun h => hno.2 ⟨e, he, h⟩⟩
        rw [hfold] at hnone
        cases hnone
  · rw [if_pos (.inl rfl)]
    rfl

theorem parseL7Value_verdict (v : Text) :
    verdictOf (parseL7Value getnDPIProtoByName v) = l7Verdict getnDPIProtoByName v := by
  rw [parseL7Value, l7Verdict]
  rcases toInt v 0 65535 with _ | z
  · dsimp only
    by_cases hknown : getnDPIProtoByName v ≠ 0 ∨ strcasecmp v "Unknown".toList
    · rw [if_neg, if_pos (.inr hknown)]
      · rfl
      · rintro ⟨hzero, hcmp⟩
        rcases hknown with h | h
        · exact h hzero
        · rw [h] at hcmp
          cases hcmp
    · rw [not_or, not_ne_iff, Bool.not_eq_true] at hknown
      rw [if_pos ⟨hknown.1, by rw [hknown.2]; rfl⟩, if_neg]
      · rfl
      · rintro (h | h | h)
        · cases h
        · exact h hknown.1
        · rw [hknown.2] at h
          cases h
  · dsimp only
    rw [if_pos (.inl rfl)]
    rfl

theorem parseIPs_verdict (hP : E.P.Lawful) (t : LuaTable) (field : String) :
    verdictOf (parseIPs E t field.toList) = firstBad (fieldVerdicts t field (ipVerdict E)) := by
  refine field_verdict fun vs => ?_
  cases vs with
  | nil => rfl
  | cons s vs =>
    rw [if_neg (List.cons_ne_nil _ _), verdictOf_map]
    exact (foldlM_addAddress hP sane_init (s :: vs)).1

theorem parsePorts_verdict (t : LuaTable) (field : String) :
    verdictOf (parsePorts t field.toList) = firstBad (fieldVerdicts t field (numberVerdict 65535)) :=
  field_verdict fun vs => verdictOf_mapM vs fun v _ => parsePort_verdict field.toList v

theorem parseTable_verdict (hP : E.P.Lawful) (t : LuaTable) :
    verdictOf (parseTable E getnDPIProtoByName t) = firstBad (verdicts E getnDPIProtoByName (.table t)) := by
  have hl4 : verdictOf (parseL4 t) = firstBad (fieldVerdicts t "l4_proto" l4Verdict) :=
    field_verdict fun vs => verdictOf_mapM vs fun v _ => parseL4Value_verdict v
  have hl7 : verdictOf (parseL7 getnDPIProtoByName t) = firstBad (fieldVerdicts t "l7_proto" (l7Verdict getnDPIProtoByName)) :=
    field_verdict fun vs => verdictOf_mapM vs fun v _ => parseL7Value_verdict v
  rw [verdicts, parseTable]
  simp only [firstBad_append, andThen_assoc]
  rw [← andThen_read (firstBad (fieldVerdicts t "l7_proto" (l7Verdict getnDPIProtoByName)))]
  exact verdictOf_step (checkKeys_verdict t) fun _ => verdictOf_step (parseIPs_verdict hP t "cli_ip") fun _ =>
    verdictOf_step (parseIPs_verdict hP t "srv_ip") fun _ => verdictOf_step (parseIPs_verdict hP t "ip") fun _ =>
    verdictOf_step (parsePorts_verdict t "cli_port") fun _ => verdictOf_step (parsePorts_verdict t "srv_port") fun _ =>
    verdictOf_step (parsePorts_verdict t "port") fun _ => verdictOf_step hl4 fun _ => verdictOf_step hl7 fun _ => rfl

theorem parse_verdict (hP : E.P.Lawful) (x : Side) :
    verdictOf (parse E getnDPIProtoByName x) = firstBad (verdicts E getnDPIProtoByName x) := by
  cases x with
  | nil => rfl
  | table t => exact parseTable_verdict hP t
  | other => rfl

/-- A definition is loaded, refused or faults as the first of its keys and values that is not read. -/
theorem load_verdict (hP : E.P.Lawful) (d : Definition) : verdictOf (load E getnDPIProtoByName d) =
    firstBad (verdicts E getnDPIProtoByName d.filter ++ verdicts E getnDPIProtoByName d.exclude) := by
  rw [firstBad_append, ← parse_verdict hP, ← parse_verdict hP, load]
  refine verdictOf_step (verdictOf_named _) fun _ => ?_
  exact (verdictOf_step (w := .read) (verdictOf_named _) fun _ => rfl).trans (andThen_read _)

end

/-! ## What a documented table matches -/

section

variable {E : Env} {getnDPIProtoByName : Text → UInt16} {t : LuaTable} {field : String} {doc : Text → Prop}

theorem getList_doc (hdoc : DocField t field doc) (hcut : ∀ s, doc s → cut s = s) {vs : List Text}
    (h : getList t field.toList = .ok vs) :
    (vs = [] ↔ values t field.toList = []) ∧ ∀ s, s ∈ vs ↔ some s ∈ values t field.toList := by
  rcases getList_ok h with ⟨hvs, -⟩
  have hmem : ∀ s, s ∈ vs ↔ some s ∈ values t field.toList := by
    intro s
    rw [hvs, List.mem_map]
    constructor
    · rintro ⟨s', hs', rfl⟩
      rcases List.mem_filterMap.mp hs' with ⟨v, hv, rfl : v = some s'⟩
      rcases hdoc.2 _ hv with ⟨s'', heq, hd⟩
      cases heq
      rw [hcut s' hd]
      exact hv
    · intro hs
      rcases hdoc.2 _ hs with ⟨s', heq, hd⟩
      cases heq
      exact ⟨s, List.mem_filterMap.mpr ⟨some s, hs, rfl⟩, hcut s hd⟩
  refine ⟨?_, hmem⟩
  constructor
  · intro hnil
    refine List.eq_nil_iff_forall_not_mem.mpr fun v hv => ?_
    rcases hdoc.2 v hv with ⟨s, rfl, -⟩
    have hs := (hmem s).mpr hv
    rw [hnil] at hs
    cases hs
  · intro hnil
    rw [hvs, hnil]
    rfl

/-- A field whose values become numbers. -/
theorem field_sat {β : Type} {g : Text → Parsed β} {ks : List β} (hdoc : DocField t field doc) (hcut : ∀ s, doc s → cut s = s)
    (h : (getList t field.toList >>= fun vs => vs.mapM g) = .ok ks) :
    (ks = [] ↔ values t field.toList = []) ∧ ∀ P : Text → Prop, ∀ Q : β → Prop,
      (∀ s, doc s → ((∃ k, g s = .ok k ∧ Q k) ↔ P s)) → ((ks = [] ∨ ∃ k ∈ ks, Q k) ↔ Sat t field P) := by
  rcases bind_eq_ok.mp h with ⟨vs, hvs, hks⟩
  rcases getList_doc hdoc hcut hvs with ⟨hnil, hmem⟩
  have hempty : ks = [] ↔ values t field.toList = [] := (mapM_nil hks).trans hnil
  refine ⟨hempty, ?_⟩
  intro P Q hPQ
  rw [hempty, Sat]
  refine or_congr_right ?_
  constructor
  · rintro ⟨k, hk, hQ⟩
    rcases (mapM_eq_ok hks k).mp hk with ⟨s, hs, hg⟩
    have hs' := (hmem s).mp hs
    rcases hdoc.2 _ hs' with ⟨s', heq, hd⟩
    cases heq
    exact ⟨s, hs', (hPQ s hd).mp ⟨k, hg, hQ⟩⟩
  · rintro ⟨s, hs, hP⟩
    rcases hdoc.2 _ hs with ⟨s', heq, hd⟩
    cases heq
    rcases (hPQ s hd).mpr hP with ⟨k, hg, hQ⟩
    exact ⟨k, (mapM_eq_ok hks k).mpr ⟨s, (hmem s).mpr hs, hg⟩, hQ⟩

/-- A value that is read as the one number it stands for. -/
theorem exists_ok {g : Text → Parsed UInt16} {doc : Text → ℕ → Prop} (hg : ∀ s n, doc s n → n < 65536 ∧ g s = .ok (UInt16.ofNat n))
    {s : Text} (hs : ∃ n, doc s n) (k : UInt16) : g s = .ok k ↔ doc s k.toNat := by
  constructor
  · intro hk
    rcases hs with ⟨n, hn⟩
    rcases hg s n hn with ⟨hlt, hok⟩
    cases hk.symm.trans hok
    rw [UInt16.toNat_ofNat_of_lt' hlt]
    exact hn
  · intro hk
    rw [(hg s _ hk).2, UInt16.ofNat_toNat]

theorem numbers_sat {g : Text → Parsed UInt16} {num : Text → ℕ → Prop} (hg : ∀ s n, num s n → n < 65536 ∧ g s = .ok (UInt16.ofNat n))
    (hcut : ∀ s n, num s n → cut s = s) {ks : List UInt16} (hdoc : DocField t field fun s => ∃ n, num s n)
    (h : (getList t field.toList >>= fun vs => vs.mapM g) = .ok ks) (k₁ k₂ : UInt16) :
    (ks = [] ↔ values t field.toList = []) ∧
      ((ks = [] ∨ k₁ ∈ ks ∨ k₂ ∈ ks) ↔ Sat t field fun s => num s k₁.toNat ∨ num s k₂.toNat) := by
  rcases field_sat hdoc (fun s hs => hcut s _ hs.choose_spec) h with ⟨hnil, hsat⟩
  refine ⟨hnil, ?_⟩
  rw [← hsat _ (fun k => k = k₁ ∨ k = k₂)]
  · refine or_congr_right ?_
    constructor
    · rintro (hk | hk)
      · exact ⟨k₁, hk, .inl rfl⟩
      · exact ⟨k₂, hk, .inr rfl⟩
    · rintro ⟨k, hk, rfl | rfl⟩
      · exact .inl hk
      · exact .inr hk
  · intro s hs
    have hok := fun k => exists_ok hg hs k
    constructor
    · rintro ⟨k, hk, rfl | rfl⟩
      · exact .inl ((hok k).mp hk)
      · exact .inr ((hok k).mp hk)
    · rintro (hk | hk)
      · exact ⟨k₁, (hok k₁).mpr hk, .inl rfl⟩
      · exact ⟨k₂, (hok k₂).mpr hk, .inr rfl⟩

theorem ports_sat {ks : List UInt16} (hdoc : DocField t field fun s => ∃ n, DocNumber 65535 s n)
    (h : parsePorts t field.toList = .ok ks) (k₁ k₂ : UInt16) :
    (ks = [] ↔ values t field.toList = []) ∧ ((ks = [] ∨ k₁ ∈ ks ∨ k₂ ∈ ks) ↔
      Sat t field fun s => DocNumber 65535 s k₁.toNat ∨ DocNumber 65535 s k₂.toNat) :=
  numbers_sat (g := parsePort field.toList) (fun _ _ => parsePort_doc) (fun _ _ => docNumber_cut) hdoc h k₁ k₂

theorem port_sat {ks : List UInt16} (hdoc : DocField t field fun s => ∃ n, DocNumber 65535 s n)
    (h : parsePorts t field.toList = .ok ks) (k : UInt16) :
    (ks = [] ∨ k ∈ ks) ↔ Sat t field fun s => DocNumber 65535 s k.toNat := by
  have hboth := (ports_sat hdoc h k k).2
  simp only [or_self] at hboth
  exact hboth

theorem l7_sat {ks : List UInt16} (hdoc : DocField t "l7_proto" fun s => ∃ n, DocL7 getnDPIProtoByName s n)
    (h : parseL7 getnDPIProtoByName t = .ok ks) (k₁ k₂ : UInt16) :
    (ks = [] ↔ values t "l7_proto".toList = []) ∧ ((ks = [] ∨ k₁ ∈ ks ∨ k₂ ∈ ks) ↔
      Sat t "l7_proto" fun s => DocL7 getnDPIProtoByName s k₁.toNat ∨ DocL7 getnDPIProtoByName s k₂.toNat) :=
  numbers_sat (g := parseL7Value getnDPIProtoByName) (fun _ _ => parseL7Value_doc) (fun _ _ => docL7_cut) hdoc h k₁ k₂

theorem l4_sat {ks : List UInt8} (hdoc : DocField t "l4_proto" fun s => ∃ n, DocL4 s n) (h : parseL4 t = .ok ks) (k : UInt8) :
    (ks = [] ↔ values t "l4_proto".toList = []) ∧
      ((ks = [] ∨ k ∈ ks) ↔ Sat t "l4_proto" fun s => DocL4 s k.toNat) := by
  rcases field_sat hdoc (fun s hs => docL4_cut hs.choose_spec) h with ⟨hnil, hsat⟩
  refine ⟨hnil, ?_⟩
  rw [← hsat _ (fun k' => k' = k)]
  · simp
  · rintro s ⟨n, hn⟩
    rcases parseL4Value_doc hn with ⟨hlt, hok⟩
    constructor
    · rintro ⟨k', hk, rfl⟩
      cases hk.symm.trans hok
      rw [UInt8.toNat_ofNat_of_lt' hlt]
      exact hn
    · intro hk
      refine ⟨k, ?_, rfl⟩
      rw [(parseL4Value_doc hk).2, UInt8.ofNat_toNat]

/-- The tree of a field has what its values are taken for. -/
theorem parseIPs_matches (hP : E.P.Lawful) (hpton : Pton6 E) (hdoc : DocField t field fun s => ∃ v4 w, DocIp E s v4 w)
    (hlong : ∀ s, some s ∈ values t field.toList → ¬ TooLong E s) {tree : Option (AddressTree E)}
    (h : parseIPs E t field.toList = .ok tree) :
    (tree = none ↔ values t field.toList = []) ∧
      ∀ T ∈ tree, ∀ a, matchIP T a ↔ ∃ s, some s ∈ values t field.toList ∧ HitIp (Taken E) a s := by
  rcases bind_eq_ok.mp h with ⟨vs, hvs, htree⟩
  have hcut : ∀ s, (∃ v4 w, DocIp E s v4 w) → cut s = s := by
    rintro s ⟨v4, w, hd⟩
    exact docIp_cut hpton hd
  rcases getList_doc hdoc hcut hvs with ⟨hnil, hmem⟩
  by_cases hempty : vs = []
  · rw [if_pos hempty] at htree
    cases htree
    exact ⟨iff_of_true rfl (hnil.mp hempty), fun T hT => absurd hT (Option.not_mem_none T)⟩
  · rw [if_neg hempty] at htree
    rcases hres : vs.foldlM (addAddress E field.toList) (.init true) with e | T'
    · rw [hres] at htree
      cases htree
    · rw [hres] at htree
      cases htree
      rcases (foldlM_addAddress hP (sane_init (E := E)) vs).2 T' hres with ⟨hsane, hpre⟩
      refine ⟨iff_of_false (Option.some_ne_none _) fun hv => hempty (hnil.mpr hv), ?_⟩
      intro T hT a
      cases hT
      have htaken : ∀ s, s ∈ vs → ∀ v4 w, Reads E s v4 w ↔ Taken E s v4 w := by
        intro s hs v4 w
        have hs' := (hmem s).mp hs
        rcases hdoc.2 _ hs' with ⟨s', heq, v, u, hd⟩
        cases heq
        exact reads_iff_taken hpton hd (hlong s hs') v4 w
      rw [matchIP_iff hsane]
      constructor
      · rintro ⟨b, hb, w, hw, hcov⟩
        rw [hpre, prefixes_init] at hw
        rcases hw with hw | ⟨s, hs, hr⟩
        · cases hw
        · exact ⟨s, (hmem s).mp hs, b, hb, _, w, (htaken s hs _ w).mp hr, rfl, hcov⟩
      · rintro ⟨s, hs, b, hb, v4, w, htk, hv, hcov⟩
        have hs' := (hmem s).mpr hs
        refine ⟨b, hb, w, ?_, hcov⟩
        rw [hpre]
        exact .inr ⟨s, hs', (htaken s hs' _ w).mpr (hv ▸ htk)⟩

theorem ip_sat {tree : Option (AddressTree E)} {P : Text → Prop} {m : AddressTree E → Prop}
    (hnone : tree = none ↔ values t field.toList = [])
    (hsome : ∀ T ∈ tree, (m T ↔ ∃ s, some s ∈ values t field.toList ∧ P s)) : (∀ T ∈ tree, m T) ↔ Sat t field P := by
  cases tree with
  | none => exact iff_of_true (fun T hT => absurd hT (Option.not_mem_none T)) (.inl (hnone.mp rfl))
  | some T =>
    have hset : values t field.toList ≠ [] := fun hv => Option.some_ne_none _ (hnone.mpr hv)
    rw [Sat, or_iff_right hset, ← hsome T rfl]
    constructor
    · exact fun h => h T rfl
    · intro h T' hT'
      cases hT'
      exact h

theorem ite_false_eq_true {p : Prop} [Decidable p] {b : Bool} : (if p then false else b) = true ↔ ¬ p ∧ b = true := by
  by_cases hp : p
  · simp [hp]
  · simp [hp]

theorem any_not {α : Type} (x : Option α) (m : α → Bool) : ¬ (x.any fun a => !m a) = true ↔ ∀ a ∈ x, m a := by
  cases x with
  | none => simp
  | some a => simp

structure Filter.Matches (x : Filter E) (f : Flow) : Prop where
  cliIp : ∀ T ∈ x.cliIp, matchIP T f.cliIp
  srvIp : ∀ T ∈ x.srvIp, matchIP T f.srvIp
  ip : ∀ T ∈ x.ip, matchIP T f.cliIp || matchIP T f.srvIp
  cliPort : x.cliPort = [] ∨ f.cliPort ∈ x.cliPort
  srvPort : x.srvPort = [] ∨ f.srvPort ∈ x.srvPort
  port : x.port = [] ∨ f.cliPort ∈ x.port ∨ f.srvPort ∈ x.port
  l4Proto : x.l4Proto = [] ∨ f.protocol ∈ x.l4Proto
  l7Proto : x.l7Proto = [] ∨ f.upperProtocol ∈ x.l7Proto ∨ f.lowerProtocol ∈ x.l7Proto

/-- The chain of early exits is the conjunction of the fields. -/
theorem match_iff {x : Filter E} {f : Flow} (hempty : x.empty = true → x.Matches f) : x.match_ f ↔ x.Matches f := by
  rw [Filter.match_]
  by_cases he : x.empty = true
  · rw [if_pos he]
    exact iff_of_true rfl (hempty he)
  · have hboth : (fun T : AddressTree E => !matchIP T f.cliIp && !matchIP T f.srvIp) =
        fun T => !(matchIP T f.cliIp || matchIP T f.srvIp) :=
      funext fun T => (Bool.not_or _ _).symm
    rw [if_neg he, hboth]
    simp only [ite_false_eq_true, any_not, ← not_or, not_not, and_true]
    constructor
    · rintro ⟨h4, h7, hc, hs, hp, hci, hsi, hi⟩
      exact ⟨hci, hsi, hi, hc, hs, hp, h4, h7⟩
    · intro h
      exact ⟨h.l4Proto, h.l7Proto, h.cliPort, h.srvPort, h.port, h.cliIp, h.srvIp, h.ip⟩

theorem parseTable_ok {x : Filter E} (h : parseTable E getnDPIProtoByName t = .ok x) :
    parseIPs E t "cli_ip".toList = .ok x.cliIp ∧ parseIPs E t "srv_ip".toList = .ok x.srvIp ∧
      parseIPs E t "ip".toList = .ok x.ip ∧ parsePorts t "cli_port".toList = .ok x.cliPort ∧
      parsePorts t "srv_port".toList = .ok x.srvPort ∧ parsePorts t "port".toList = .ok x.port ∧
      parseL4 t = .ok x.l4Proto ∧ parseL7 getnDPIProtoByName t = .ok x.l7Proto ∧
      x.empty = !(x.cliIp.isSome || x.srvIp.isSome || x.ip.isSome || x.cliPort ≠ [] || x.srvPort ≠ [] || x.port ≠ [] ||
        x.l4Proto ≠ [] || x.l7Proto ≠ []) := by
  rw [parseTable, bind_eq_ok] at h
  rcases h with ⟨-, -, h⟩
  simp only [bind_eq_ok] at h
  rcases h with ⟨cliIp, h1, srvIp, h2, ip, h3, cliPort, h4, srvPort, h5, port, h6, l4Proto, h7, l7Proto, h8, hx⟩
  cases hx
  exact ⟨h1, h2, h3, h4, h5, h6, h7, h8, rfl⟩

theorem sets_iff : Sets t ↔ ¬ ∀ k ∈ filterKeys, values t k = [] := by
  rw [Sets, not_forall]
  simp only [Classical.not_imp, ne_eq]

/-- A documented table, read, matches what it is for, and is empty if it sets nothing. -/
theorem parseTable_matches (hP : E.P.Lawful) (hpton : Pton6 E) (hdoc : DocTable E getnDPIProtoByName t)
    (hlong : ¬ HasTooLong E (.table t)) {x : Filter E} (h : parseTable E getnDPIProtoByName t = .ok x) (f : Flow) :
    (x.match_ f ↔ Satisfies getnDPIProtoByName (Taken E) f t) ∧ (x.empty = false ↔ Sets t) := by
  rcases parseTable_ok h with ⟨h1, h2, h3, h4, h5, h6, h7, h8, hempty⟩
  have hshort : ∀ field ∈ ipFields, ∀ s, some s ∈ values t field.toList → ¬ TooLong E s :=
    fun field hfield s hs hl => hlong ⟨field, hfield, s, hs, hl⟩
  rcases parseIPs_matches hP hpton hdoc.cliIp (hshort "cli_ip" (by decide)) h1 with ⟨n1, m1⟩
  rcases parseIPs_matches hP hpton hdoc.srvIp (hshort "srv_ip" (by decide)) h2 with ⟨n2, m2⟩
  rcases parseIPs_matches hP hpton hdoc.ip (hshort "ip" (by decide)) h3 with ⟨n3, m3⟩
  have n4 := (ports_sat hdoc.cliPort h4 0 0).1
  have n5 := (ports_sat hdoc.srvPort h5 0 0).1
  rcases ports_sat hdoc.port h6 f.cliPort f.srvPort with ⟨n6, m6⟩
  rcases l4_sat hdoc.l4Proto h7 f.protocol with ⟨n7, m7⟩
  rcases l7_sat hdoc.l7Proto h8 f.upperProtocol f.lowerProtocol with ⟨n8, m8⟩
  have hboth : ∀ T ∈ x.ip, ((matchIP T f.cliIp || matchIP T f.srvIp) = true ↔
      ∃ s, some s ∈ values t "ip".toList ∧ (HitIp (Taken E) f.cliIp s ∨ HitIp (Taken E) f.srvIp s)) := by
    intro T hT
    rw [Bool.or_eq_true, m3 T hT, m3 T hT, ← exists_or]
    simp only [← and_or_left]
  have hmatches : x.Matches f ↔ Satisfies getnDPIProtoByName (Taken E) f t := by
    constructor
    · intro hm
      exact ⟨(ip_sat n1 fun T hT => m1 T hT _).mp hm.cliIp, (ip_sat n2 fun T hT => m2 T hT _).mp hm.srvIp,
        (ip_sat n3 hboth).mp hm.ip, (port_sat hdoc.cliPort h4 _).mp hm.cliPort, (port_sat hdoc.srvPort h5 _).mp hm.srvPort,
        m6.mp hm.port, m7.mp hm.l4Proto, m8.mp hm.l7Proto⟩
    · intro hs
      exact ⟨(ip_sat n1 fun T hT => m1 T hT _).mpr hs.cliIp, (ip_sat n2 fun T hT => m2 T hT _).mpr hs.srvIp,
        (ip_sat n3 hboth).mpr hs.ip, (port_sat hdoc.cliPort h4 _).mpr hs.cliPort, (port_sat hdoc.srvPort h5 _).mpr hs.srvPort,
        m6.mpr hs.port, m7.mpr hs.l4Proto, m8.mpr hs.l7Proto⟩
  have hunset : x.empty = true ↔ ∀ k ∈ filterKeys, values t k = [] := by
    rw [hempty, Bool.not_eq_true', filterKeys]
    simp only [Bool.or_eq_false_iff, decide_eq_false_iff_not, not_not, Option.isSome_eq_false_iff, Option.isNone_iff_eq_none,
      n1, n2, n3, n4, n5, n6, n7, n8, List.forall_mem_cons, List.not_mem_nil, false_imp_iff, implies_true, and_true, and_assoc]
  refine ⟨?_, ?_⟩
  · rw [match_iff fun he => ?_, hmatches]
    have hall := hunset.mp he
    rw [hmatches]
    have hfield : ∀ k ∈ filterKeys, ∀ (field : String) (P : Text → Prop), field.toList = k → Sat t field P :=
      fun k hk field P hf => .inl (hf ▸ hall k hk)
    exact ⟨hfield _ (by decide) _ _ rfl, hfield _ (by decide) _ _ rfl, hfield _ (by decide) _ _ rfl,
      hfield _ (by decide) _ _ rfl, hfield _ (by decide) _ _ rfl, hfield _ (by decide) _ _ rfl,
      hfield _ (by decide) _ _ rfl, hfield _ (by decide) _ _ rfl⟩
  · rw [sets_iff, ← hunset, Bool.not_eq_true]

end

/-! ## What is not read of a documented definition -/

section

variable {E : Env} {getnDPIProtoByName : Text → UInt16} {t : LuaTable} {field : String} {doc : Text → Prop}

theorem fieldVerdicts_doc {verdict : Text → Verdict} (hdoc : DocField t field doc)
    (hcut : ∀ s, doc s → cut s = s) {v : Verdict} (hv : v ∈ fieldVerdicts t field verdict) :
    v = .read ∨ ∃ s, some s ∈ values t field.toList ∧ doc s ∧ v = verdict s := by
  rcases List.mem_append.mp hv with hv | hv
  · rcases List.mem_map.mp hv with ⟨x, hx, rfl⟩
    rcases hdoc.2 x hx with ⟨s, rfl, -⟩
    exact .inl rfl
  · rcases List.mem_map.mp hv with ⟨s, hs, rfl⟩
    rcases List.mem_filterMap.mp hs with ⟨x, hx, rfl : x = some s⟩
    rcases hdoc.2 _ hx with ⟨s', heq, hd⟩
    cases heq
    exact .inr ⟨s, hx, hd, by rw [hcut s hd]⟩

/-- Numbers and names that are documented are read. -/
theorem fieldVerdicts_read {verdict : Text → Verdict} (hdoc : DocField t field doc)
    (hcut : ∀ s, doc s → cut s = s) (hread : ∀ s, doc s → verdict s = .read) :
    ∀ v ∈ fieldVerdicts t field verdict, v = .read := by
  intro v hv
  rcases fieldVerdicts_doc hdoc hcut hv with h | ⟨s, -, hd, h⟩
  · exact h
  · exact h.trans (hread s hd)

theorem ipVerdicts_doc (hpton : Pton6 E) (hdoc : DocField t field fun s => ∃ v4 w, DocIp E s v4 w) (hfield : field ∈ ipFields) :
    ∀ v ∈ fieldVerdicts t field (ipVerdict E), v = .read ∨ (v = .fault ∧ HasTooLong E (.table t)) := by
  intro v hv
  have hcut : ∀ s, (∃ v4 w, DocIp E s v4 w) → cut s = s := by
    rintro s ⟨v4, w, hd⟩
    exact docIp_cut hpton hd
  rcases fieldVerdicts_doc hdoc hcut hv with h | ⟨s, hs, ⟨v4, w, hd⟩, h⟩
  · exact .inl h
  · by_cases hlong : TooLong E s
    · exact .inr ⟨h.trans (tooLong_verdict hpton hlong), field, hfield, s, hs, hlong⟩
    · exact .inl (h.trans (docIp_verdict hpton hd hlong))

theorem numberVerdict_doc {s : Text} (h : ∃ n, DocNumber 65535 s n) : numberVerdict 65535 s = .read := by
  rcases h with ⟨n, hn⟩
  have hint : toInt s 0 65535 = some (n : ℤ) := toInt_doc hn (Nat.le_refl _)
  rw [numberVerdict, hint]
  rfl

theorem l4Verdict_doc {s : Text} (h : ∃ n, DocL4 s n) : l4Verdict s = .read := by
  rcases h with ⟨n, hn⟩
  rw [← parseL4Value_verdict, (parseL4Value_doc hn).2]
  rfl

theorem l7Verdict_doc {s : Text} (h : ∃ n, DocL7 getnDPIProtoByName s n) : l7Verdict getnDPIProtoByName s = .read := by
  rcases h with ⟨n, hn⟩
  rw [← parseL7Value_verdict, (parseL7Value_doc hn).2]
  rfl

theorem keyVerdict_doc (hdoc : DocTable E getnDPIProtoByName t) : ∀ v ∈ t.map (fun e => keyVerdict e.1), v = .read := by
  intro v hv
  rcases List.mem_map.mp hv with ⟨e, he, rfl⟩
  rcases hdoc.keys e he with ⟨k, hk, hek⟩
  have hcut : ∀ k ∈ filterKeys, cut k = k := by decide
  rw [hek, keyVerdict, hcut k hk, if_pos hk]

/-- What is documented is read, but for the addresses that fault. -/
theorem verdicts_doc (hpton : Pton6 E) {x : Side} (hdoc : DocSide E getnDPIProtoByName x) :
    ∀ v ∈ verdicts E getnDPIProtoByName x, v = .read ∨ (v = .fault ∧ HasTooLong E x) := by
  cases x with
  | nil => exact fun v hv => absurd hv List.not_mem_nil
  | other => exact False.elim hdoc
  | table t =>
    have hdoc : DocTable E getnDPIProtoByName t := hdoc
    have hport : ∀ s, (∃ n, DocNumber 65535 s n) → cut s = s := fun s hs => docNumber_cut hs.choose_spec
    intro v hv
    rw [verdicts] at hv
    simp only [List.mem_append] at hv
    rcases hv with (((((((hv | hv) | hv) | hv) | hv) | hv) | hv) | hv) | hv
    · exact .inl (keyVerdict_doc hdoc v hv)
    · exact ipVerdicts_doc hpton hdoc.cliIp (by decide) v hv
    · exact ipVerdicts_doc hpton hdoc.srvIp (by decide) v hv
    · exact ipVerdicts_doc hpton hdoc.ip (by decide) v hv
    · exact .inl (fieldVerdicts_read hdoc.cliPort hport (fun s => numberVerdict_doc) v hv)
    · exact .inl (fieldVerdicts_read hdoc.srvPort hport (fun s => numberVerdict_doc) v hv)
    · exact .inl (fieldVerdicts_read hdoc.port hport (fun s => numberVerdict_doc) v hv)
    · exact .inl (fieldVerdicts_read hdoc.l4Proto (fun s hs => docL4_cut hs.choose_spec) (fun s => l4Verdict_doc) v hv)
    · exact .inl (fieldVerdicts_read hdoc.l7Proto (fun s hs => docL7_cut hs.choose_spec) (fun s => l7Verdict_doc) v hv)

theorem tooLong_mem (hpton : Pton6 E) {x : Side} (h : HasTooLong E x) : .fault ∈ verdicts E getnDPIProtoByName x := by
  cases x with
  | nil => exact False.elim h
  | other => exact False.elim h
  | table t =>
    rcases h with ⟨field, hfield, s, hs, hlong⟩
    have hcut : cut s = s := by
      rcases hlong with ⟨w, hd, -⟩
      exact docIp_cut hpton hd
    have hmem : Verdict.fault ∈ fieldVerdicts t field (ipVerdict E) := by
      refine List.mem_append_right _ (List.mem_map.mpr ⟨s, List.mem_filterMap.mpr ⟨some s, hs, rfl⟩, ?_⟩)
      rw [hcut, tooLong_verdict hpton hlong]
    rw [verdicts]
    simp only [List.mem_append]
    simp only [ipFields, List.mem_cons, List.not_mem_nil, or_false] at hfield
    rcases hfield with rfl | rfl | rfl
    · simp [hmem]
    · simp [hmem]
    · simp [hmem]

theorem firstBad_doc (hpton : Pton6 E) {d : Definition} (hdoc : Documented E getnDPIProtoByName d) :
    firstBad (verdicts E getnDPIProtoByName d.filter ++ verdicts E getnDPIProtoByName d.exclude) = .read ↔
      ¬ HasTooLong E d.filter ∧ ¬ HasTooLong E d.exclude := by
  rw [firstBad_append, andThen_eq_read, firstBad_eq_read, firstBad_eq_read]
  have hside : ∀ x : Side, DocSide E getnDPIProtoByName x →
      ((∀ v ∈ verdicts E getnDPIProtoByName x, v = .read) ↔ ¬ HasTooLong E x) := by
    intro x hx
    constructor
    · intro hall hlong
      cases hall _ (tooLong_mem hpton hlong)
    · intro hno v hv
      rcases verdicts_doc hpton hx v hv with h | ⟨-, hlong⟩
      · exact h
      · exact absurd hlong hno
  rw [hside _ hdoc.1, hside _ hdoc.2]

/-! ## The law -/

theorem parse_matches (hP : E.P.Lawful) (hpton : Pton6 E) {x : Side} (hdoc : DocSide E getnDPIProtoByName x)
    (hlong : ¬ HasTooLong E x) {y : Filter E} (h : parse E getnDPIProtoByName x = .ok y) (f : Flow) :
    (y.match_ f ↔ Filtered getnDPIProtoByName (Taken E) f x) ∧
      (y.empty = false ∧ y.match_ f ↔ Excluded getnDPIProtoByName (Taken E) f x) := by
  cases x with
  | nil =>
    cases h
    exact ⟨iff_of_true rfl trivial, iff_of_false (fun hy => Bool.noConfusion hy.1) id⟩
  | other => exact False.elim hdoc
  | table t =>
    rcases parseTable_matches hP hpton hdoc hlong h f with ⟨hmatch, hempty⟩
    exact ⟨hmatch, and_congr hempty hmatch⟩

theorem runs_iff {s : Script E} {f : Flow} :
    s.runs f ↔ s.filter.match_ f ∧ ¬ (s.exclude.empty = false ∧ s.exclude.match_ f) := by
  rw [Script.runs]
  cases s.filter.match_ f <;> cases s.exclude.empty <;> cases s.exclude.match_ f <;> simp

theorem load_runs (hP : E.P.Lawful) (hpton : Pton6 E) {d : Definition} (hdoc : Documented E getnDPIProtoByName d)
    (hlong : ¬ HasTooLong E d.filter ∧ ¬ HasTooLong E d.exclude) {s : Script E} (h : load E getnDPIProtoByName d = .ok s)
    (f : Flow) : s.runs f ↔ Wanted getnDPIProtoByName (Taken E) f d := by
  rw [load, bind_eq_ok] at h
  rcases h with ⟨x, hx, h⟩
  rw [bind_eq_ok] at h
  rcases h with ⟨y, hy, h⟩
  cases h
  rw [runs_iff, Wanted, (parse_matches hP hpton hdoc.1 hlong.1 (named_eq_ok.mp hx) f).1,
    (parse_matches hP hpton hdoc.2 hlong.2 (named_eq_ok.mp hy) f).2]

/-! ### Addresses that are taken for what they are -/

def Plain (E : Env) (s : Text) : Prop := ∀ v4 w, DocIp E s v4 w → Taken E s v4 w

def PlainSide (E : Env) : Side → Prop
  | .table t => ∀ field ∈ ipFields, ∀ s, some s ∈ values t field.toList → Plain E s
  | _ => True

theorem Plain.taken_iff {s : Text} (h : Plain E s) (v4 : Bool) (w : List Bool) : Taken E s v4 w ↔ DocIp E s v4 w := by
  constructor
  · rintro ⟨⟨v, hd⟩, -, hv⟩
    have hv' := (h v w hd).2.2
    rwa [hv, ← hv']
  · exact h v4 w

theorem Plain.hit_iff {s : Text} (h : Plain E s) (a : Option IpAddress) : HitIp (Taken E) a s ↔ HitIp (DocIp E) a s := by
  unfold HitIp
  simp only [h.taken_iff]

theorem Sat.congr {P Q : Text → Prop} (h : ∀ s, some s ∈ values t field.toList → (P s ↔ Q s)) : Sat t field P ↔ Sat t field Q := by
  refine or_congr_right (exists_congr fun s => ?_)
  exact and_congr_right fun hs => h s hs

theorem satisfies_plain {f : Flow} (h : PlainSide E (.table t)) :
    Satisfies getnDPIProtoByName (Taken E) f t ↔ Satisfies getnDPIProtoByName (DocIp E) f t := by
  have hcli : Sat t "cli_ip" (HitIp (Taken E) f.cliIp) ↔ Sat t "cli_ip" (HitIp (DocIp E) f.cliIp) :=
    Sat.congr fun s hs => (h "cli_ip" (by decide) s hs).hit_iff _
  have hsrv : Sat t "srv_ip" (HitIp (Taken E) f.srvIp) ↔ Sat t "srv_ip" (HitIp (DocIp E) f.srvIp) :=
    Sat.congr fun s hs => (h "srv_ip" (by decide) s hs).hit_iff _
  have hip : Sat t "ip" (fun s => HitIp (Taken E) f.cliIp s ∨ HitIp (Taken E) f.srvIp s) ↔
      Sat t "ip" fun s => HitIp (DocIp E) f.cliIp s ∨ HitIp (DocIp E) f.srvIp s :=
    Sat.congr fun s hs => or_congr ((h "ip" (by decide) s hs).hit_iff _) ((h "ip" (by decide) s hs).hit_iff _)
  constructor
  · intro hs
    exact ⟨hcli.mp hs.cliIp, hsrv.mp hs.srvIp, hip.mp hs.ip, hs.cliPort, hs.srvPort, hs.port, hs.l4Proto, hs.l7Proto⟩
  · intro hs
    exact ⟨hcli.mpr hs.cliIp, hsrv.mpr hs.srvIp, hip.mpr hs.ip, hs.cliPort, hs.srvPort, hs.port, hs.l4Proto, hs.l7Proto⟩

/-- Then nothing is taken for something else, whatever the flow. -/
theorem wanted_plain {d : Definition} (hfilter : PlainSide E d.filter) (hexclude : PlainSide E d.exclude) (f : Flow) :
    Wanted getnDPIProtoByName (Taken E) f d ↔ Wanted getnDPIProtoByName (DocIp E) f d := by
  rcases d with ⟨x, y⟩
  refine and_congr ?_ (not_congr ?_)
  · cases x with
    | table t => exact satisfies_plain hfilter
    | nil => exact Iff.rfl
    | other => exact Iff.rfl
  · cases y with
    | table t => exact and_congr_right fun _ => satisfies_plain hexclude
    | nil => exact Iff.rfl
    | other => exact Iff.rfl

/-- The script gets the flows that its definition documents, and a definition that is not documented is refused,
    exactly if what is taken for something else makes no difference. -/
theorem custom_law (E : Env) (hP : E.P.Lawful) (hpton : Pton6 E) (getnDPIProtoByName : Text → UInt16) (d : Definition)
    (f : Flow) : Meets E getnDPIProtoByName d f ↔ Ok E getnDPIProtoByName d f := by
  have hverdict := @load_verdict E getnDPIProtoByName hP d
  constructor
  · intro h
    refine ⟨fun hdoc => ?_, fun hdoc => ?_⟩
    · rcases h.documented hdoc with ⟨s, hs, hruns⟩
      rw [hs, verdictOf_ok] at hverdict
      have hlong := (firstBad_doc hpton hdoc).mp hverdict.symm
      exact ⟨hlong.1, hlong.2, (load_runs hP hpton hdoc hlong hs f).symm.trans hruns⟩
    · rw [← hverdict]
      exact verdictOf_eq_refused.mpr (h.other hdoc)
  · intro h
    refine ⟨fun hdoc => ?_, fun hdoc => ?_⟩
    · rcases h.documented hdoc with ⟨hfilter, hexclude, hsame⟩
      rw [(firstBad_doc hpton hdoc).mpr ⟨hfilter, hexclude⟩] at hverdict
      rcases verdictOf_eq_read.mp hverdict with ⟨s, hs⟩
      exact ⟨s, hs, (load_runs hP hpton hdoc ⟨hfilter, hexclude⟩ hs f).trans hsame⟩
    · rw [h.other hdoc] at hverdict
      exact verdictOf_eq_refused.mp hverdict

/-! ## An octet of 300 -/

def oneIp (v : String) : Definition := ⟨.table [(some "ip".toList, .scalar v.toList)], .nil⟩

def noFlow : Flow := ⟨none, none, 0, 0, 0, 0, 0⟩

theorem pton6_listEnv : Pton6 Counts.listEnv where
  colon s a h := by cases h
  chars s a h := by cases h

theorem custom_law_octet : Meets Counts.listEnv (fun _ => 0) (oneIp "10.0.0.300") noFlow ↔
    Ok Counts.listEnv (fun _ => 0) (oneIp "10.0.0.300") noFlow :=
  custom_law Counts.listEnv Patricia.ofList_lawful pton6_listEnv _ _ _

theorem not_docIp_octet : ∀ v4 w, ¬ DocIp Counts.listEnv "10.0.0.300".toList v4 w := by
  intro v4 w h
  generalize hs : "10.0.0.300".toList = s at h
  have hslash : '/' ∉ s := by
    rw [← hs]
    decide
  cases h with
  | host4 a =>
    have hscan := Tags.scanOctets_intoaV4 a
    rw [← hs, show scanOctets "10.0.0.300".toList = [10, 0, 0, 300] by decide] at hscan
    have hlt := Tags.bitsNat_lt_256 (Tags.octet_length a (i := 3) (by decide))
    simp only [List.cons.injEq] at hscan
    omega
  | cidr4 a n hn => exact hslash (List.mem_append_right _ (List.mem_cons_self ..))
  | host6 s a ha => cases ha
  | cidr6 s a ha n hn => cases ha

/-- 10.0.0.300 is taken for 10.0.0.44. -/
theorem octet_accepted : ¬ ∀ (E : Env), E.P.Lawful → Pton6 E → ∀ (getnDPIProtoByName : Text → UInt16) (d : Definition) (f : Flow),
    Meets E getnDPIProtoByName d f := by
  intro h
  have hmeets := h Counts.listEnv Patricia.ofList_lawful pton6_listEnv (fun _ => 0) (oneIp "10.0.0.300") noFlow
  have hdoc : ¬ Documented Counts.listEnv (fun _ => 0) (oneIp "10.0.0.300") := by
    rintro ⟨hfilter, -⟩
    have hfilter : DocTable Counts.listEnv (fun _ => 0) [(some "ip".toList, .scalar "10.0.0.300".toList)] := hfilter
    rcases hfilter.ip.2 (some "10.0.0.300".toList) (List.mem_singleton.mpr rfl) with ⟨s, hs, v4, w, hip⟩
    cases hs
    exact not_docIp_octet v4 w hip
  have hrefused := verdictOf_eq_refused.mpr (hmeets.other hdoc)
  rw [load_verdict Patricia.ofList_lawful] at hrefused
  revert hrefused
  decide

end

end Ntopng.Flows.CustomScript
