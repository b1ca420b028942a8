/-
  Ntopng.Text.LineProtocol — lines of the InfluxDB line protocol.

      measurement,tag=value,tag=value field=value,field=value time

  A comma or a space in a measurement has a backslash before it, and so has an equals sign in a key or the
  value of a tag. The value of a field is a string in quotes, a number or a boolean. A newline ends the
  line, and is in no text; what begins with a `#` is a comment. The time is an integer of 64 bits.

  How numbers are written is a parameter. Lines that leave out the time are left out.

  Proved: `parse_iff`: `parse` reads exactly what is a line, and each is the line of one point.
-/

import Ntopng.Lib.CString
import Ntopng.Lib.Decimal
import Ntopng.Lib.Escapes

namespace Ntopng.Text.LineProtocol

open Ntopng.Lib.CString Ntopng.Lib.Decimal Ntopng.Lib.Escapes

abbrev Bytes := List UInt8

/-- What neither separates nor quotes. -/
abbrev Plain (c : UInt8) : Prop := c ∉ [0, ch ',', ch '=', ch ' ', ch '\n', ch '"', ch '\\']

structure NumberText (N : Type) where
  read : Bytes → Option N
  plain : ∀ t x, read t = some x → ∀ c ∈ t, Plain c

inductive FieldValue (N : Type)
  | str (s : Bytes)
  | num (x : N)
  | bool (b : Bool)
  deriving DecidableEq

structure Point (N : Type) where
  measurement : Bytes
  tags : List (Bytes × Bytes)
  fields : List (Bytes × FieldValue N)
  time : ℤ

def measurementMarks : Marks UInt8 where
  esc := ch '\\'
  special c := c = ch ',' || c = ch ' '
  stop c := c = ch '\n'
  esc_special := by decide
  special_stop c hc := by
    rw [decide_eq_false_iff_not]
    rintro rfl
    exact absurd hc (by decide)

def keyMarks : Marks UInt8 where
  esc := ch '\\'
  special c := c = ch ',' || c = ch '=' || c = ch ' '
  stop c := c = ch '\n'
  esc_special := by decide
  special_stop c hc := by
    rw [decide_eq_false_iff_not]
    rintro rfl
    exact absurd hc (by decide)

/-! ## The parser -/

def skip (c : UInt8) : Bytes → Option Bytes
  | [] => none
  | d :: l => if d = c then some l else none

/-- `key=value` -/
def readPair {β : Type} (value : Reader UInt8 β) : Reader UInt8 (Bytes × β) := fun l =>
  let k := keyMarks.readText l
  if k.1 = [] then none else ((skip (ch '=') k.2).bind value).map fun p => ((k.1, p.1), p.2)

def readTagValue : Reader UInt8 Bytes := fun l =>
  let v := keyMarks.readText l
  if v.1 = [] ∨ v.2.head? ≠ some (ch ',') ∧ v.2.head? ≠ some (ch ' ') then none else some v

/-- Behind the opening quote. A backslash stands before quotes and backslashes. -/
def readQuoted : Reader UInt8 Bytes
  | [] => none
  | [c] => if c = ch '"' then some ([], []) else none
  | c :: d :: l =>
    if c = ch '"' then some ([], d :: l)
    else if c = ch '\n' then none
    else if c = ch '\\' ∧ (d = ch '"' ∨ d = ch '\\') then (readQuoted l).map fun p => (d :: p.1, p.2)
    else (readQuoted (d :: l)).map fun p => (c :: p.1, p.2)

def trues : List Bytes := [text "t", text "T", text "true", text "True", text "TRUE"]

def falses : List Bytes := [text "f", text "F", text "false", text "False", text "FALSE"]

local instance : LawfulBEq Bytes := List.instLawfulBEq

def readBool (t : Bytes) : Option Bool := if t ∈ trues then some true else if t ∈ falses then some false else none

def goesOn (c : UInt8) : Bool := c ≠ ch ',' && c ≠ ch ' ' && c ≠ ch '\n'

section

variable {N : Type} (nums : NumberText N)

def readUnquoted (t : Bytes) : Option (FieldValue N) := ((nums.read t).map .num).or ((readBool t).map .bool)

def readField : Reader UInt8 (FieldValue N) := fun l =>
  if l.head? = some (ch '"') then (readQuoted l.tail).map fun p => (.str p.1, p.2)
  else (readUnquoted nums (l.takeWhile goesOn)).map fun f => (f, l.dropWhile goesOn)

def readTime (t : Bytes) : Option ℤ :=
  (readInt (t.map fun c => Char.ofNat c.toNat)).filter fun z => -2 ^ 63 ≤ z ∧ z < 2 ^ 63

/-- The fields, the time and the end of the line. -/
def parseFields (measurement : Bytes) (tags : List (Bytes × Bytes)) (l : Bytes) : Option (Point N) :=
  (skip (ch ' ') l).bind fun l =>
    (items (ch ',') (readPair (readField nums)) l.length l).bind fun p =>
      (skip (ch ' ') p.2).bind fun l =>
        if l.getLast? = some (ch '\n') then (readTime l.dropLast).map fun t => ⟨measurement, tags, p.1, t⟩ else none

def parse (l : Bytes) : Option (Point N) :=
  let m := measurementMarks.readText l
  if m.1 = [] ∨ m.1.head? = some (ch '#') then none
  else if m.2.head? = some (ch ',') then
    (items (ch ',') (readPair readTagValue) m.2.tail.length m.2.tail).bind fun p => parseFields nums m.1 p.1 p.2
  else parseFields nums m.1 [] m.2

/-! ## The grammar -/

def PairText {β : Type} (R : β → Bytes → Prop) (p : Bytes × β) (t : Bytes) : Prop :=
  p.1 ≠ [] ∧ keyMarks.Writable p.1 ∧ ∃ s, R p.2 s ∧ t = keyMarks.escape p.1 ++ ch '=' :: s

def TagText (v t : Bytes) : Prop := v ≠ [] ∧ keyMarks.Writable v ∧ t = keyMarks.escape v

def FieldText (f : FieldValue N) (t : Bytes) : Prop := readField nums t = some (f, [])

def TagsText (tags : List (Bytes × Bytes)) (t : Bytes) : Prop :=
  tags = [] ∧ t = [] ∨ ∃ s, Joined (ch ',') (PairText TagText) tags s ∧ t = ch ',' :: s

structure Line (q : Point N) (l : Bytes) : Prop where
  measurement : q.measurement ≠ [] ∧ measurementMarks.Writable q.measurement
  comment : q.measurement.head? ≠ some (ch '#')
  text : ∃ tags fields time, TagsText q.tags tags ∧ Joined (ch ',') (PairText (FieldText nums)) q.fields fields ∧
    readTime time = some q.time ∧
    l = measurementMarks.escape q.measurement ++ (tags ++ ch ' ' :: (fields ++ ch ' ' :: (time ++ [ch '\n'])))

end

/-! ## Pairs and the values of tags -/

/-- What comes after a value. -/
def Follow (c : UInt8) : Prop := c = ch ',' ∨ c = ch ' '

theorem Follow.special {c : UInt8} (h : Follow c) : keyMarks.special c = true := by
  rcases h with rfl | rfl <;> rfl

theorem skip_some {c : UInt8} {l r : Bytes} : skip c l = some r ↔ l = c :: r := by
  cases l with
  | nil => simp [skip]
  | cons d l =>
    rw [skip, List.cons_eq_cons]
    by_cases hd : d = c
    · rw [if_pos hd, Option.some_inj]
      exact ⟨fun h => ⟨hd, h⟩, And.right⟩
    · rw [if_neg hd]
      exact ⟨fun h => absurd h (by simp), fun h => absurd h.1 hd⟩

section

variable {β : Type} {value : Reader UInt8 β} {R : β → Bytes → Prop}

theorem readPair_sound (h : Sound value R) : Sound (readPair value) (PairText R) := by
  intro l x r hread
  rw [readPair] at hread
  by_cases hk : (keyMarks.readText l).1 = []
  · rw [if_pos hk] at hread
    cases hread
  · rw [if_neg hk] at hread
    rcases Option.map_eq_some_iff.mp hread with ⟨p, hp, heq⟩
    cases heq
    rcases Option.bind_eq_some_iff.mp hp with ⟨s, hs, hval⟩
    rcases h s p.1 p.2 hval with ⟨t, ht, rfl⟩
    have htext := (Marks.readText_iff (show keyMarks.special (ch '=') = true from rfl)).mp (Prod.ext rfl (skip_some.mp hs))
    refine ⟨_, ⟨hk, htext.2, t, ht, rfl⟩, ?_⟩
    rw [List.append_assoc, List.cons_append]
    exact htext.1

theorem readPair_complete (h : Complete value R Follow) : Complete (readPair value) (PairText R) Follow := by
  rintro x t c r ⟨hne, hw, s, hs, rfl⟩ hc
  have htext : keyMarks.readText (keyMarks.escape x.1 ++ ch '=' :: (s ++ c :: r)) = (x.1, ch '=' :: (s ++ c :: r)) :=
    Marks.readText_escape hw rfl
  rw [List.append_assoc, List.cons_append, readPair, htext]
  rw [if_neg hne, skip_some.mpr rfl, Option.bind_some, h _ _ c r hs hc]
  rfl

theorem PairText.ne_nil {x : Bytes × β} {t : Bytes} (h : PairText R x t) : t ≠ [] := by
  rcases h with ⟨-, -, s, -, rfl⟩
  simp

end

theorem readTagValue_sound : Sound readTagValue TagText := by
  intro l v r hread
  rw [readTagValue] at hread
  split at hread
  · cases hread
  · rename_i h
    rw [not_or] at h
    have heq := Option.some.inj hread
    rw [heq] at h
    cases r with
    | nil => exact absurd ⟨by simp, by simp⟩ h.2
    | cons c r =>
      have hc : Follow c := by
        by_contra hfollow
        rw [Follow, not_or] at hfollow
        refine h.2 ⟨?_, ?_⟩
        · exact fun heq => hfollow.1 (Option.some.inj heq)
        · exact fun heq => hfollow.2 (Option.some.inj heq)
      have htext := (Marks.readText_iff hc.special).mp heq
      exact ⟨_, ⟨h.1, htext.2, rfl⟩, htext.1⟩

theorem readTagValue_complete : Complete readTagValue TagText Follow := by
  rintro v t c r ⟨hne, hw, rfl⟩ hc
  have htext : keyMarks.readText (keyMarks.escape v ++ c :: r) = (v, c :: r) := Marks.readText_escape hw hc.special
  rw [readTagValue, htext]
  refine if_neg ?_
  rintro (hnil | hfollow)
  · exact hne hnil
  · rcases hc with rfl | rfl
    · exact hfollow.1 rfl
    · exact hfollow.2 rfl

/-! ## The values of fields -/

theorem readQuoted_append {l s r : Bytes} (h : readQuoted l = some (s, r)) (x : Bytes) :
    readQuoted (l ++ x) = some (s, r ++ x) := by
  fun_induction readQuoted l generalizing s with
  | case1 => cases h
  | case2 =>
    cases h
    cases x with
    | nil => rfl
    | cons d x => rfl
  | case3 c hc => cases h
  | case4 d l =>
    cases h
    rfl
  | case5 d l hc => cases h
  | case6 c d l hc hn he ih =>
    rcases Option.map_eq_some_iff.mp h with ⟨⟨s', r'⟩, hs, heq⟩
    cases heq
    rw [List.cons_append, List.cons_append, readQuoted, if_neg hc, if_neg hn, if_pos he, ih hs]
    rfl
  | case7 c d l hc hn he ih =>
    rcases Option.map_eq_some_iff.mp h with ⟨⟨s', r'⟩, hs, heq⟩
    cases heq
    have hrest := ih hs
    rw [List.cons_append] at hrest
    rw [List.cons_append, List.cons_append, readQuoted, if_neg hc, if_neg hn, if_neg he, hrest]
    rfl

theorem readQuoted_some {l s r : Bytes} (h : readQuoted l = some (s, r)) :
    ∃ b, l = b ++ r ∧ readQuoted b = some (s, []) ∧ b.count (ch '"') = s.count (ch '"') + 1 := by
  fun_induction readQuoted l generalizing s with
  | case1 => cases h
  | case2 =>
    cases h
    exact ⟨[ch '"'], rfl, rfl, rfl⟩
  | case3 c hc => cases h
  | case4 d l =>
    cases h
    exact ⟨[ch '"'], rfl, rfl, rfl⟩
  | case5 d l hc => cases h
  | case6 c d l hc hn he ih =>
    rcases Option.map_eq_some_iff.mp h with ⟨⟨s', r'⟩, hs, heq⟩
    cases heq
    rcases ih hs with ⟨b, rfl, hb, hcount⟩
    refine ⟨c :: d :: b, rfl, ?_, ?_⟩
    · rw [readQuoted, if_neg hc, if_neg hn, if_pos he, hb]
      rfl
    · rw [List.count_cons_of_ne hc, List.count_cons, List.count_cons, hcount, Nat.add_right_comm]
  | case7 c d l hc hn he ih =>
    rcases Option.map_eq_some_iff.mp h with ⟨⟨s', r'⟩, hs, heq⟩
    cases heq
    rcases ih hs with ⟨b, hl, hb, hcount⟩
    cases b with
    | nil => cases hb
    | cons e b =>
      rcases List.cons.inj hl with ⟨rfl, rfl⟩
      refine ⟨c :: d :: b, rfl, ?_, ?_⟩
      · rw [readQuoted, if_neg hc, if_neg hn, if_neg he, hb]
        rfl
      · rw [List.count_cons_of_ne hc, List.count_cons_of_ne hc, hcount]

section

variable {N : Type} {nums : NumberText N}

theorem readField_quoted {l : Bytes} (h : l.head? = some (ch '"')) :
    readField nums l = (readQuoted l.tail).map fun p => (.str p.1, p.2) := if_pos h

theorem readField_unquoted {l : Bytes} (h : l.head? ≠ some (ch '"')) :
    readField nums l = (readUnquoted nums (l.takeWhile goesOn)).map fun f => (f, l.dropWhile goesOn) := if_neg h

theorem takeWhile_idem (l : Bytes) : (l.takeWhile goesOn).takeWhile goesOn = l.takeWhile goesOn := by
  rw [List.takeWhile_takeWhile]
  simp

theorem readField_sound : Sound (readField nums) (FieldText nums) := by
  intro l f r hread
  by_cases hq : l.head? = some (ch '"')
  · rw [readField_quoted hq] at hread
    rcases Option.map_eq_some_iff.mp hread with ⟨⟨s, r'⟩, hs, heq⟩
    cases heq
    rcases readQuoted_some hs with ⟨b, hl, hb, -⟩
    refine ⟨ch '"' :: b, ?_, ?_⟩
    · rw [FieldText, readField_quoted rfl, List.tail_cons, hb]
      rfl
    · rw [List.cons_append, ← hl]
      exact (List.cons_head?_tail hq).symm
  · rw [readField_unquoted hq] at hread
    rcases Option.map_eq_some_iff.mp hread with ⟨f', hf, heq⟩
    cases heq
    refine ⟨l.takeWhile goesOn, ?_, List.takeWhile_append_dropWhile.symm⟩
    have hhead : (l.takeWhile goesOn).head? ≠ some (ch '"') := by
      cases l with
      | nil => exact hq
      | cons c l =>
        rw [List.takeWhile_cons]
        split
        · exact hq
        · simp
    rw [FieldText, readField_unquoted hhead, takeWhile_idem, hf, Option.map_some, List.dropWhile_eq_nil_iff.mpr]
    exact fun c hc => List.mem_takeWhile_imp hc

theorem readField_complete : Complete (readField nums) (FieldText nums) Follow := by
  intro f t c r ht hc
  rw [FieldText] at ht
  by_cases hq : t.head? = some (ch '"')
  · rw [readField_quoted hq] at ht
    rcases Option.map_eq_some_iff.mp ht with ⟨⟨s, r'⟩, hs, heq⟩
    cases heq
    cases t with
    | nil => cases hq
    | cons d t =>
      have happ := readQuoted_append hs (c :: r)
      rw [readField_quoted (l := d :: t ++ c :: r) hq, List.cons_append, List.tail_cons]
      rw [List.tail_cons] at happ
      rw [happ]
      rfl
  · rw [readField_unquoted hq] at ht
    rcases Option.map_eq_some_iff.mp ht with ⟨f', hf, heq⟩
    rcases Prod.mk.inj heq with ⟨rfl, hnil⟩
    have hall := List.dropWhile_eq_nil_iff.mp hnil
    have hstop : goesOn c = false := by rcases hc with rfl | rfl <;> rfl
    have hhead : (t ++ c :: r).head? ≠ some (ch '"') := by
      cases t with
      | nil =>
        intro hhead
        have hquote := Option.some.inj hhead
        subst hquote
        exact absurd hstop (by decide)
      | cons d t => exact hq
    rw [List.takeWhile_eq_self_iff.mpr hall] at hf
    rw [readField_unquoted hhead, List.takeWhile_append_of_pos hall, List.dropWhile_append_of_pos hall,
      List.takeWhile_cons_of_neg (by simp [hstop]), List.dropWhile_cons_of_neg (by simp [hstop]), List.append_nil, hf]
    rfl

theorem readBool_plain {t : Bytes} {b : Bool} (h : readBool t = some b) : ∀ c ∈ t, Plain c := by
  have hall : ∀ {l : List Bytes}, (l.all fun t => t.all fun c => decide (Plain c)) = true → ∀ t ∈ l, ∀ c ∈ t, Plain c :=
    fun h t ht c hc => of_decide_eq_true (List.all_eq_true.mp (List.all_eq_true.mp h t ht) c hc)
  rw [readBool] at h
  by_cases ht : t ∈ trues
  · exact hall (by decide) t ht
  · rw [if_neg ht] at h
    by_cases hf : t ∈ falses
    · exact hall (by decide) t hf
    · rw [if_neg hf] at h
      cases h

theorem readUnquoted_plain {f : FieldValue N} {t : Bytes} (h : readUnquoted nums t = some f) :
    (∀ s, f ≠ .str s) ∧ ∀ c ∈ t, Plain c := by
  rcases Option.or_eq_some_iff.mp h with hnum | ⟨-, hbool⟩
  · rcases Option.map_eq_some_iff.mp hnum with ⟨x, hx, rfl⟩
    exact ⟨fun s => nofun, nums.plain t x hx⟩
  · rcases Option.map_eq_some_iff.mp hbool with ⟨b, hb, rfl⟩
    exact ⟨fun s => nofun, readBool_plain hb⟩

/-- Two quotes stand around a string. -/
theorem FieldText.count_str {s t : Bytes} (h : FieldText nums (.str s) t) :
    t.count (ch '"') = s.count (ch '"') + 2 := by
  rw [FieldText] at h
  by_cases hq : t.head? = some (ch '"')
  · rw [readField_quoted hq] at h
    rcases Option.map_eq_some_iff.mp h with ⟨⟨s', r'⟩, hs, heq⟩
    cases heq
    rcases readQuoted_some hs with ⟨b, hb, -, hcount⟩
    rw [← List.cons_head?_tail hq, List.count_cons_self, hb, List.append_nil, hcount]
  · rw [readField_unquoted hq] at h
    rcases Option.map_eq_some_iff.mp h with ⟨f, hf, heq⟩
    rcases Prod.mk.inj heq with ⟨rfl, -⟩
    exact absurd rfl ((readUnquoted_plain hf).1 s)

theorem FieldText.plain {f : FieldValue N} {t : Bytes} (h : FieldText nums f t) (hf : ∀ s, f ≠ .str s) :
    ∀ c ∈ t, Plain c := by
  rw [FieldText] at h
  by_cases hq : t.head? = some (ch '"')
  · rw [readField_quoted hq] at h
    rcases Option.map_eq_some_iff.mp h with ⟨p, -, heq⟩
    exact absurd (Prod.mk.inj heq).1.symm (hf p.1)
  · rw [readField_unquoted hq] at h
    rcases Option.map_eq_some_iff.mp h with ⟨g, hg, heq⟩
    have hall := List.dropWhile_eq_nil_iff.mp (Prod.mk.inj heq).2
    rw [List.takeWhile_eq_self_iff.mpr hall] at hg
    exact (readUnquoted_plain hg).2

/-- A text that is read as a number is a number. -/
theorem fieldText_num {x : N} {t : Bytes} (h : nums.read t = some x) : FieldText nums (.num x) t := by
  have hplain := nums.plain t x h
  have hall : ∀ c ∈ t, goesOn c = true := by
    intro c hc
    have hp := hplain c hc
    simp only [Plain, List.mem_cons, List.not_mem_nil, or_false, not_or] at hp
    simp only [goesOn, Bool.and_eq_true, decide_eq_true_eq]
    exact ⟨⟨hp.2.1, hp.2.2.2.1⟩, hp.2.2.2.2.1⟩
  have hq : t.head? ≠ some (ch '"') := by
    intro hhead
    exact absurd (hplain _ (List.mem_of_mem_head? hhead)) (by decide)
  rw [FieldText, readField_unquoted hq, List.takeWhile_eq_self_iff.mpr hall, List.dropWhile_eq_nil_iff.mpr hall,
    readUnquoted, h]
  rfl

theorem FieldText.num {x : N} {t : Bytes} (h : FieldText nums (.num x) t) : nums.read t = some x := by
  rw [FieldText] at h
  by_cases hq : t.head? = some (ch '"')
  · rw [readField_quoted hq] at h
    rcases Option.map_eq_some_iff.mp h with ⟨p, -, heq⟩
    exact absurd (Prod.mk.inj heq).1 (by simp)
  · rw [readField_unquoted hq] at h
    rcases Option.map_eq_some_iff.mp h with ⟨f, hf, heq⟩
    rcases Prod.mk.inj heq with ⟨rfl, hnil⟩
    rw [List.takeWhile_eq_self_iff.mpr (List.dropWhile_eq_nil_iff.mp hnil)] at hf
    rcases Option.or_eq_some_iff.mp hf with hnum | ⟨-, hbool⟩
    · rcases Option.map_eq_some_iff.mp hnum with ⟨y, hy, heq⟩
      cases heq
      exact hy
    · rcases Option.map_eq_some_iff.mp hbool with ⟨b, -, heq⟩
      cases heq

/-! ## Lines -/

theorem parseFields_iff {m : Bytes} {tags : List (Bytes × Bytes)} {l : Bytes} {q : Point N} :
    parseFields nums m tags l = some q ↔ q.measurement = m ∧ q.tags = tags ∧
      ∃ fields time, Joined (ch ',') (PairText (FieldText nums)) q.fields fields ∧ readTime time = some q.time ∧
        l = ch ' ' :: (fields ++ ch ' ' :: (time ++ [ch '\n'])) := by
  constructor
  · intro h
    rw [parseFields] at h
    rcases Option.bind_eq_some_iff.mp h with ⟨l', hl, h⟩
    rcases Option.bind_eq_some_iff.mp h with ⟨p, hp, h⟩
    rcases Option.bind_eq_some_iff.mp h with ⟨t, ht, h⟩
    rw [skip_some] at hl ht
    by_cases hlast : t.getLast? = some (ch '\n')
    · rw [if_pos hlast] at h
      rcases Option.map_eq_some_iff.mp h with ⟨z, hz, rfl⟩
      rcases items_sound (readPair_sound readField_sound) _ _ _ _ hp with ⟨s, hs, hl'⟩
      refine ⟨rfl, rfl, s, t.dropLast, hs, hz, ?_⟩
      rw [hl, hl', ht, List.dropLast_append_getLast? _ hlast]
    · rw [if_neg hlast] at h
      cases h
  · rintro ⟨rfl, rfl, fields, time, hf, ht, rfl⟩
    have hlen : q.fields.length ≤ (fields ++ ch ' ' :: (time ++ [ch '\n'])).length := by
      have hle := hf.length_le fun x _ t hx => hx.ne_nil
      rw [List.length_append]
      omega
    rw [parseFields, skip_some.mpr rfl, Option.bind_some,
      items_complete (readPair_complete readField_complete) (.inl rfl) hf hlen (.inr rfl) (by decide), Option.bind_some,
      skip_some.mpr rfl, Option.bind_some, List.getLast?_concat, if_pos rfl, List.dropLast_concat, ht]
    rfl

theorem tagsText_head {tags : List (Bytes × Bytes)} {t : Bytes} (h : TagsText tags t) (r : Bytes) :
    ∃ c s, t ++ ch ' ' :: r = c :: s ∧ Follow c := by
  rcases h with ⟨-, rfl⟩ | ⟨s, -, rfl⟩
  · exact ⟨_, _, rfl, .inr rfl⟩
  · exact ⟨_, _, rfl, .inl rfl⟩

theorem Follow.measurement {c : UInt8} (h : Follow c) : measurementMarks.special c = true := by
  rcases h with rfl | rfl <;> rfl

theorem parse_iff {l : Bytes} {q : Point N} : parse nums l = some q ↔ Line nums q l := by
  constructor
  · intro h
    rw [parse] at h
    split at h
    · cases h
    · rename_i hm
      rw [not_or] at hm
      split at h
      · rename_i hcomma
        rcases Option.bind_eq_some_iff.mp h with ⟨p, hp, h⟩
        rcases items_sound (readPair_sound readTagValue_sound) _ _ _ _ hp with ⟨s, hs, hl⟩
        rcases parseFields_iff.mp h with ⟨hmeas, htags, fields, time, hf, ht, hrest⟩
        have hsnd : (measurementMarks.readText l).2 = ch ',' :: (s ++ p.2) := by
          rw [← hl]
          exact (List.cons_head?_tail hcomma).symm
        have htext := (Marks.readText_iff (show measurementMarks.special (ch ',') = true from rfl)).mp (Prod.ext rfl hsnd)
        refine ⟨⟨hmeas ▸ hm.1, hmeas ▸ htext.2⟩, hmeas ▸ hm.2, ch ',' :: s, fields, time,
          .inr ⟨s, htags ▸ hs, rfl⟩, hf, ht, ?_⟩
        rw [hmeas, ← hrest]
        exact htext.1
      · rcases parseFields_iff.mp h with ⟨hmeas, htags, fields, time, hf, ht, hrest⟩
        have htext := (Marks.readText_iff (show measurementMarks.special (ch ' ') = true from rfl)).mp (Prod.ext rfl hrest)
        refine ⟨⟨hmeas ▸ hm.1, hmeas ▸ htext.2⟩, hmeas ▸ hm.2, [], fields, time, .inl ⟨htags, rfl⟩, hf, ht, ?_⟩
        rw [hmeas]
        exact htext.1
  · rintro ⟨⟨hne, hw⟩, hcomment, tags, fields, time, htags, hf, ht, rfl⟩
    rcases tagsText_head htags (fields ++ ch ' ' :: (time ++ [ch '\n'])) with ⟨c, s, hcs, hc⟩
    have hread : measurementMarks.readText (measurementMarks.escape q.measurement ++ c :: s) = (q.measurement, c :: s) :=
      Marks.readText_escape hw hc.measurement
    rw [parse, hcs, hread]
    simp only [if_neg (not_or.mpr ⟨hne, hcomment⟩), List.head?_cons, Option.some_inj, List.tail_cons]
    rcases htags with ⟨htags, rfl⟩ | ⟨t, htags, rfl⟩
    · rcases List.cons.inj hcs with ⟨rfl, rfl⟩
      rw [if_neg (by decide), parseFields_iff]
      exact ⟨rfl, htags, fields, time, hf, ht, rfl⟩
    · obtain rfl : ch ',' = c := (List.cons.inj hcs).1
      obtain rfl : s = t ++ ch ' ' :: (fields ++ ch ' ' :: (time ++ [ch '\n'])) := (List.cons.inj hcs).2.symm
      have hlen : q.tags.length ≤ (t ++ ch ' ' :: (fields ++ ch ' ' :: (time ++ [ch '\n']))).length := by
        have hle := htags.length_le fun x _ t hx => hx.ne_nil
        rw [List.length_append]
        omega
      rw [if_pos rfl, items_complete (readPair_complete readTagValue_complete) (.inl rfl) htags hlen (.inr rfl) (by decide),
        Option.bind_some, parseFields_iff]
      exact ⟨rfl, rfl, fields, time, hf, ht, rfl⟩

theorem Line.unique {l : Bytes} {q q' : Point N} (h : Line nums q l) (h' : Line nums q' l) : q = q' :=
  Option.some.inj ((parse_iff.mpr h).symm.trans (parse_iff.mpr h'))

/-! ## What is in a line -/

theorem plain_of_readInt {t : Bytes} {z : ℤ} (h : readInt (t.map fun c => Char.ofNat c.toNat) = some z) :
    ∀ c ∈ t, Plain c := by
  intro c hc hmem
  have hdigit := mem_of_readInt h (List.mem_map_of_mem hc)
  simp only [List.mem_cons, List.not_mem_nil, or_false] at hmem
  rcases hmem with rfl | rfl | rfl | rfl | rfl | rfl | rfl <;> exact absurd hdigit (by decide)

theorem readTime_plain {t : Bytes} {z : ℤ} (h : readTime t = some z) : ∀ c ∈ t, Plain c :=
  plain_of_readInt (Option.filter_eq_some_iff.mp h).1

theorem count_of_plain {t : Bytes} {b : UInt8} (h : ∀ c ∈ t, Plain c) (hb : ¬ Plain b) : t.count b = 0 :=
  List.count_eq_zero.mpr fun hmem => hb (h b hmem)

theorem Line.measurement_subset {l : Bytes} {q : Point N} (h : Line nums q l) : q.measurement ⊆ l := by
  obtain ⟨tags, fields, time, -, -, -, rfl⟩ := h.text
  exact fun c hc => List.mem_append_left _ (Marks.mem_escape hc)

theorem Line.tag {l : Bytes} {q : Point N} (h : Line nums q l) {p : Bytes × Bytes} (hp : p ∈ q.tags) :
    ∃ s, PairText TagText p s ∧ s ⊆ l := by
  obtain ⟨tags, fields, time, htags, -, -, rfl⟩ := h.text
  rcases htags with ⟨hnil, -⟩ | ⟨s, hs, rfl⟩
  · exact absurd hp (hnil ▸ List.not_mem_nil)
  · obtain ⟨t, ht, hsub⟩ := hs.mem hp
    exact ⟨t, ht, List.subset_append_of_subset_right _
      (List.subset_append_of_subset_left _ (List.subset_cons_of_subset _ hsub))⟩

theorem Line.field {l : Bytes} {q : Point N} (h : Line nums q l) {p : Bytes × FieldValue N} (hp : p ∈ q.fields) :
    ∃ s, PairText (FieldText nums) p s ∧ s ⊆ l := by
  obtain ⟨tags, fields, time, -, hf, -, rfl⟩ := h.text
  obtain ⟨t, ht, hsub⟩ := hf.mem hp
  exact ⟨t, ht, List.subset_append_of_subset_right _ (List.subset_append_of_subset_right _
    (List.subset_cons_of_subset _ (List.subset_append_of_subset_left _ hsub)))⟩

theorem Line.fields_ne_nil {l : Bytes} {q : Point N} (h : Line nums q l) : q.fields ≠ [] := by
  obtain ⟨tags, fields, time, -, hf, -, -⟩ := h.text
  exact hf.ne_nil

/-- How many quotes or backslashes are in a line. -/
theorem Line.count {l : Bytes} {q : Point N} (h : Line nums q l) {b : UInt8} (hb : b = ch '"' ∨ b = ch '\\')
    {w : FieldValue N → ℕ} (hw : ∀ p ∈ q.fields, ∀ t, FieldText nums p.2 t → t.count b = w p.2) :
    l.count b = (measurementMarks.escape q.measurement).count b +
      (q.tags.map fun p => (keyMarks.escape p.1).count b + (keyMarks.escape p.2).count b).sum +
      (q.fields.map fun p => (keyMarks.escape p.1).count b + w p.2).sum := by
  obtain ⟨tags, fields, time, htags, hf, htime, rfl⟩ := h.text
  have hplain : ¬ Plain b := by rcases hb with rfl | rfl <;> decide
  have hcomma : b ≠ ch ',' := by rcases hb with rfl | rfl <;> decide
  have hequals : ch '=' ≠ b := by rcases hb with rfl | rfl <;> decide
  have hspace : ch ' ' ≠ b := by rcases hb with rfl | rfl <;> decide
  have hnewline : ch '\n' ≠ b := by rcases hb with rfl | rfl <;> decide
  have hpair : ∀ {β : Type} {R : β → Bytes → Prop} {p : Bytes × β} {t : Bytes} {n : ℕ}, (∀ s, R p.2 s → s.count b = n) →
      PairText R p t → t.count b = (keyMarks.escape p.1).count b + n := by
    rintro β R p t n hn ⟨-, -, s, hs, rfl⟩
    rw [List.count_append, List.count_cons_of_ne hequals, hn s hs]
  have hcf : fields.count b = (q.fields.map fun p => (keyMarks.escape p.1).count b + w p.2).sum :=
    hf.count hcomma fun p hp t ht => hpair (hw p hp) ht
  have hct : tags.count b = (q.tags.map fun p => (keyMarks.escape p.1).count b + (keyMarks.escape p.2).count b).sum := by
    rcases htags with ⟨hnil, rfl⟩ | ⟨s, hs, rfl⟩
    · rw [hnil]
      rfl
    · rw [List.count_cons_of_ne (Ne.symm hcomma)]
      exact hs.count hcomma fun p hp t ht => hpair (fun s hs => by rw [hs.2.2]) ht
  rw [List.count_append, List.count_append, List.count_cons_of_ne hspace, List.count_append, List.count_cons_of_ne hspace,
    List.count_append, List.count_singleton, if_neg (by rwa [beq_iff_eq]), count_of_plain (readTime_plain htime) hplain, hcf,
    hct]
  omega

end

/-! ## Numbers as they are written -/

def rawText : NumberText Bytes where
  read t := if ∀ c ∈ t, Plain c then some t else none
  plain t x h := by
    split at h
    · assumption
    · cases h

theorem fieldText_raw {t : Bytes} (h : ∀ c ∈ t, Plain c) : FieldText rawText (.num t) t := fieldText_num (if_pos h)

section

variable {N : Type} {nums : NumberText N}

/-- The texts of the fields, where none is a string. -/
def RawField (nums : NumberText N) (p : Bytes × FieldValue N) (p' : Bytes × FieldValue Bytes) : Prop :=
  p'.1 = p.1 ∧ ∃ t, p'.2 = .num t ∧ FieldText nums p.2 t

theorem joined_raw {fs : List (Bytes × FieldValue N)} {l : Bytes} (h : Joined (ch ',') (PairText (FieldText nums)) fs l)
    (hstr : ∀ p ∈ fs, ∀ s, p.2 ≠ .str s) :
    ∃ fs', List.Forall₂ (RawField nums) fs fs' ∧ Joined (ch ',') (PairText (FieldText rawText)) fs' l := by
  have hone : ∀ {p : Bytes × FieldValue N} {t : Bytes}, PairText (FieldText nums) p t → (∀ s, p.2 ≠ .str s) →
      ∃ p', RawField nums p p' ∧ PairText (FieldText rawText) p' t := by
    rintro p t ⟨hne, hw, s, hs, rfl⟩ hp
    exact ⟨(p.1, .num s), ⟨rfl, s, rfl, hs⟩, hne, hw, s, fieldText_raw (hs.plain hp), rfl⟩
  induction h with
  | one hx =>
    obtain ⟨p', hp', ht⟩ := hone hx (hstr _ (List.mem_cons_self ..))
    exact ⟨[p'], .cons hp' .nil, .one ht⟩
  | more hx hrest ih =>
    obtain ⟨p', hp', ht⟩ := hone hx (hstr _ (List.mem_cons_self ..))
    obtain ⟨fs', hfs, hl⟩ := ih fun p hp => hstr p (List.mem_cons_of_mem _ hp)
    exact ⟨p' :: fs', .cons hp' hfs, .more ht hl⟩

theorem Line.raw {l : Bytes} {q : Point N} (h : Line nums q l) (hstr : ∀ p ∈ q.fields, ∀ s, p.2 ≠ .str s) :
    ∃ fs, List.Forall₂ (RawField nums) q.fields fs ∧ Line rawText ⟨q.measurement, q.tags, fs, q.time⟩ l := by
  obtain ⟨hm, hcomment, tags, fields, time, htags, hf, htime, rfl⟩ := h
  obtain ⟨fs, hfs, hjoined⟩ := joined_raw hf hstr
  exact ⟨fs, hfs, hm, hcomment, tags, fields, time, htags, hjoined, htime, rfl⟩

end

end Ntopng.Text.LineProtocol
