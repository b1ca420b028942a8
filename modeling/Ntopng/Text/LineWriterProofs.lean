/-
  Ntopng.Text.LineWriterProofs — when the lines of `line_protocol_write_line` can be read back (see
  `Ntopng.Text.LineWriter`).

  The line has to be parsed as the point of the arguments: the measurement, the time, and of each table the
  keys with their values, in any order. Tags are texts for the protocol, so of a number its text has to be
  read as the number.

  Proved (`writeLine_law`): every call writes within its buffers and gives such a line, or -1 and an empty string, exactly
  if the buffer is not empty and, where the line fits, the point is `Good`: nothing in it had to be escaped but
  spaces in the values of tags, no metric is a string, and the time is not negative. Two good points that differ
  have different lines.

  What had to be escaped and was not is found by counting: in a line that is read back each mark in
  a text has brought a backslash, and the writer has brought those for spaces only; each string has brought two quotes,
  and the writer none.
-/

import Ntopng.Text.LineWriter

namespace Ntopng.Text.LineWriter

open Ntopng.Lib.CString Ntopng.Lib.Decimal Ntopng.Lib.Escapes
open Ntopng.Text.LineProtocol

variable {N : Type}

section

variable (lua : Lua N) (nums : NumberText N)

/-! ## The point of a line -/

def Value.IsTag : Value N → Bytes → Prop
  | .str s, t => t = s
  | .num x, t => nums.read t = some x

def Value.field : Value N → FieldValue N
  | .str s => .str s
  | .num x => .num x

structure Same (a : Args N) (q : Point N) : Prop where
  measurement : q.measurement = a.schema
  tags : ∃ l, l.Perm q.tags ∧ List.Forall₂ (fun e p => p.1 = e.1 ∧ e.2.IsTag nums p.2) a.tags.entries l
  metrics : q.fields.Perm (a.metrics.entries.map fun e => (e.1, e.2.field))
  time : q.time = a.tstamp.toInt

/-- The result of one call: the buffer and the number returned. -/
def RoundTrip (a : Args N) (r : Mem × ℤ) : Prop :=
  ∃ l q, r.2 = (l.length : ℤ) ∧ cstr r.1 0 = some l ∧ parse nums l = some q ∧ Same nums a q

def Meets (a : Args N) (dstLine : Mem) : Prop :=
  ∀ tagsBuf metricsBuf : ValBuf,
    Reads (lineProtocolWriteLine lua (some escapeSpaces) a tagsBuf metricsBuf dstLine dstLine.length) fun r =>
      r.1.length = dstLine.length ∧ (r.2 = -1 ∧ cstr r.1 0 = some [] ∨ RoundTrip nums a r)

/-- The line of some call that did not fail. -/
def Writes (a : Args N) (l : Bytes) : Prop :=
  ∃ tagsBuf metricsBuf dstLine m n, n ≠ -1 ∧ cstr m 0 = some l ∧
    lineProtocolWriteLine lua (some escapeSpaces) a tagsBuf metricsBuf dstLine dstLine.length = some (m, n)

/-- The tags are compared as the texts they are. -/
structure SamePoint (a b : Args N) : Prop where
  schema : a.schema = b.schema
  tstamp : a.tstamp = b.tstamp
  tags : (a.tags.entries.map fun e => (e.1, e.2.tostring lua)) = b.tags.entries.map fun e => (e.1, e.2.tostring lua)
  metrics : a.metrics.entries = b.metrics.entries

/-! ## Points without marks -/

/-- A text that stands for itself. -/
def CleanText (marks : List UInt8) (s : Bytes) : Prop :=
  s ≠ [] ∧ (∀ c ∈ s, c ∉ 0 :: ch '\n' :: marks) ∧ s.getLast? ≠ some (ch '\\')

def CleanKey (s : Bytes) : Prop := CleanText [ch ',', ch '=', ch ' '] s

structure Clean (a : Args N) : Prop where
  schema : CleanText [ch ',', ch ' '] a.schema ∧ a.schema.head? ≠ some (ch '#')
  tags : ∀ e ∈ a.tags.entries, CleanKey e.1 ∧ CleanText [ch ',', ch '='] (e.2.tostring lua)
  metrics : a.metrics.entries ≠ []
  metric : ∀ e ∈ a.metrics.entries, CleanKey e.1 ∧ ∃ x, e.2 = .num x

structure Good (a : Args N) : Prop where
  clean : Clean lua a
  tags : ∀ e ∈ a.tags.entries, ∀ x, e.2 = .num x → nums.read (lua.tostring x) = some x
  metrics : ∀ e ∈ a.metrics.entries, ∀ x, e.2 = .num x → nums.read (lua.tostring x) = some x
  time : 0 ≤ a.tstamp.toInt

end

section

variable {lua : Lua N} {nums : NumberText N}

theorem cleanText_of_plain {marks : List UInt8} (hmarks : ∀ c ∈ marks, ¬ Plain c) {s : Bytes} (hne : s ≠ [])
    (h : ∀ c ∈ s, Plain c) : CleanText marks s := by
  refine ⟨hne, ?_, ?_⟩
  · intro c hc hmem
    rcases List.mem_cons.mp hmem with rfl | hmem
    · exact absurd (h _ hc) (by decide)
    · rcases List.mem_cons.mp hmem with rfl | hmem
      · exact absurd (h _ hc) (by decide)
      · exact hmarks c hmem (h c hc)
  · intro hlast
    exact absurd (h _ (List.mem_of_getLast? hlast)) (by decide)

theorem CleanText.no_nul {marks : List UInt8} {s : Bytes} (h : CleanText marks s) : cString s = s :=
  cString_eq_self fun hmem => h.2.1 0 hmem (List.mem_cons_self ..)

theorem CleanText.not_newline {marks : List UInt8} {s : Bytes} (h : CleanText marks s) {c : UInt8} (hc : c ∈ s) :
    c ≠ ch '\n' := by
  rintro rfl
  exact h.2.1 _ hc (List.mem_cons_of_mem _ (List.mem_cons_self ..))

theorem CleanText.not_mark {marks : List UInt8} {s : Bytes} (h : CleanText marks s) {c : UInt8} (hc : c ∈ s) :
    c ∉ marks := fun hmem => h.2.1 c hc (List.mem_cons_of_mem _ (List.mem_cons_of_mem _ hmem))

theorem clean_schema {s : Bytes} (h : CleanText [ch ',', ch ' '] s) :
    measurementMarks.Writable s ∧ measurementMarks.escape s = cString s := by
  refine ⟨⟨fun c hc => decide_eq_false (h.not_newline hc), h.2.2⟩, ?_⟩
  rw [h.no_nul]
  refine Marks.escape_eq_self fun c hc => ?_
  have hmark := h.not_mark hc
  simp only [List.mem_cons, List.not_mem_nil, or_false, not_or] at hmark
  simp [measurementMarks, hmark]

theorem clean_key {s : Bytes} (h : CleanKey s) : keyMarks.Writable s ∧ keyMarks.escape s = cString s := by
  refine ⟨⟨fun c hc => decide_eq_false (h.not_newline hc), h.2.2⟩, ?_⟩
  rw [h.no_nul]
  refine Marks.escape_eq_self fun c hc => ?_
  have hmark := h.not_mark hc
  simp only [List.mem_cons, List.not_mem_nil, or_false, not_or] at hmark
  simp [keyMarks, hmark]

theorem clean_tag {v : Value N} (h : CleanText [ch ',', ch '='] (v.tostring lua)) :
    keyMarks.Writable (v.tostring lua) ∧ keyMarks.escape (v.tostring lua) = valueText lua v := by
  refine ⟨⟨fun c hc => decide_eq_false (h.not_newline hc), h.2.2⟩, ?_⟩
  rw [valueText, h.no_nul, escaped]
  refine Marks.escape_congr rfl fun c hc => ?_
  have hmark := h.not_mark hc
  simp only [List.mem_cons, List.not_mem_nil, or_false, not_or] at hmark
  simp [keyMarks, spaceMarks, hmark]

theorem valueText_num (x : N) : valueText lua (.num x) = lua.tostring x := by
  have hplain := lua.plain x
  rw [valueText, Value.tostring, cString_eq_self fun h => absurd (hplain 0 h) (by decide), escaped]
  refine Marks.escape_eq_self fun c hc => decide_eq_false ?_
  rintro rfl
  exact absurd (hplain _ hc) (by decide)

/-- The point that is written, with the fields by `f`. -/
def point {M : Type} (lua : Lua N) (a : Args N) (f : Value N → FieldValue M) (t : ℤ) : Point M where
  measurement := a.schema
  tags := a.tags.entries.map fun e => (e.1, e.2.tostring lua)
  fields := a.metrics.entries.map fun e => (e.1, f e.2)
  time := t

theorem tagsText_join (t : Table N) (h : t.entries ≠ []) :
    tagsText lua t = ch ',' :: join (ch ',') (entryText lua) t.entries := by
  rw [tagsText]
  cases hes : t.entries with
  | nil => exact absurd hes h
  | cons e es => rfl

theorem line_of_clean {M : Type} {nm : NumberText M} {f : Value N → FieldValue M} {a : Args N} {t : ℤ} (h : Clean lua a)
    (hf : ∀ e ∈ a.metrics.entries, FieldText nm (f e.2) (e.2.tostring lua)) (ht : readTime (timeText a) = some t) :
    Line nm (point lua a f t) (line lua a) := by
  have hschema := clean_schema h.schema.1
  refine ⟨⟨h.schema.1.1, hschema.1⟩, h.schema.2, tagsText lua a.tags, join (ch ',') (entryText lua) a.metrics.entries,
    timeText a, ?_, ?_, ht, ?_⟩
  · by_cases hnil : a.tags.entries = []
    · refine .inl ⟨?_, ?_⟩
      · rw [point, hnil, List.map_nil]
      · rw [tagsText, hnil, List.flatMap_nil]
    · refine .inr ⟨_, joined_join hnil fun e he => ?_, tagsText_join a.tags hnil⟩
      obtain ⟨hkey, hvalue⟩ := h.tags e he
      refine ⟨hkey.1, (clean_key hkey).1, _, ⟨hvalue.1, (clean_tag hvalue).1, rfl⟩, ?_⟩
      rw [entryText, (clean_key hkey).2, (clean_tag hvalue).2]
  · refine joined_join h.metrics fun e he => ?_
    obtain ⟨hkey, x, hx⟩ := h.metric e he
    refine ⟨hkey.1, (clean_key hkey).1, _, hf e he, ?_⟩
    rw [entryText, (clean_key hkey).2, hx, valueText_num]
    rfl
  · rw [line, point, hschema.2]

/-! ## The time -/

theorem ofNat_ch {c : Char} (h : c.isDigit) : Char.ofNat (ch c).toNat = c := by
  have hlt : c.toNat < 256 := by
    have hle : c.toNat ≤ 57 := (Char.isDigit_iff_toNat.mp h).2
    omega
  rw [ch, UInt8.toNat_ofNat', Nat.mod_eq_of_lt hlt, Char.ofNat_toNat]

theorem plain_digit {d : Char} (hd : d.isDigit) : Plain (ch d) := by
  intro hmem
  have hdigit : (Char.ofNat (ch d).toNat).isDigit := by rwa [ofNat_ch hd]
  simp only [List.mem_cons, List.not_mem_nil, or_false] at hmem
  rcases hmem with h | h | h | h | h | h | h <;> (rw [h] at hdigit; exact absurd hdigit (by decide))

theorem timeText_plain (a : Args N) : ∀ c ∈ timeText a, Plain c := by
  intro c hc
  obtain ⟨d, hd, rfl⟩ := List.mem_map.mp hc
  exact plain_digit (isDigit_of_mem hd)

/-- `%lu` of a time: one that is negative is out of the range of the protocol. -/
theorem readTime_timeText (a : Args N) :
    readTime (timeText a) = if a.tstamp.toUInt64.toNat < 2 ^ 63 then some (a.tstamp.toUInt64.toNat : ℤ) else none := by
  have hchars : (timeText a).map (fun c => Char.ofNat c.toNat) = udec a.tstamp.toUInt64.toNat := by
    rw [timeText, List.map_map]
    exact (List.map_congr_left fun c hc => ofNat_ch (isDigit_of_mem hc)).trans (List.map_id _)
  rw [readTime, hchars, readInt_udec]
  by_cases h : a.tstamp.toUInt64.toNat < 2 ^ 63
  · rw [if_pos h]
    exact Option.filter_some_pos (decide_eq_true ⟨by omega, by omega⟩)
  · rw [if_neg h]
    exact Option.filter_some_neg (by simpa using h)

theorem time_nonneg (t : Int64) : 0 ≤ t.toInt ↔ t.toUInt64.toNat < 2 ^ 63 := by
  rw [← Int64.toInt_toBitVec, BitVec.toInt_pos_iff]
  change 2 * t.toUInt64.toNat < 2 ^ 64 ↔ _
  omega

theorem time_eq {t : Int64} (h : 0 ≤ t.toInt) : (t.toUInt64.toNat : ℤ) = t.toInt := by
  rw [← Int64.toInt_toBitVec, BitVec.toInt_pos_iff] at h
  rw [← Int64.toInt_toBitVec, BitVec.toInt_eq_toNat_of_lt h]
  rfl

/-- What stands behind the last space. -/
theorem last_part {x y t u : Bytes} (ht : ∀ c ∈ t, Plain c) (hu : ∀ c ∈ u, Plain c)
    (h : x ++ ch ' ' :: (t ++ [ch '\n']) = y ++ ch ' ' :: (u ++ [ch '\n'])) : t = u := by
  have hspace : ∀ {s : Bytes}, (∀ c ∈ s, Plain c) → ∀ c ∈ s.reverse, c ≠ ch ' ' := by
    rintro s hs c hc rfl
    exact absurd (hs _ (List.mem_reverse.mp hc)) (by decide)
  have hrev := congrArg List.reverse h
  simp only [List.reverse_append, List.reverse_cons, List.append_assoc, List.nil_append, List.cons_append,
    List.reverse_nil, List.cons.injEq, true_and] at hrev
  exact List.reverse_inj.mp (append_inj_of_stop (hspace ht) (hspace hu) (by simp) (by simp) hrev).1

/-! ## Counting -/

theorem flatMap_count (es : List (Bytes × Value N)) {b : UInt8} (hb : b ≠ ch ',') :
    (es.flatMap fun e => ch ',' :: entryText lua e).count b = (es.map fun e => (entryText lua e).count b).sum := by
  induction es with
  | nil => rfl
  | cons e es ih =>
    rw [List.flatMap_cons, List.count_append, List.count_cons_of_ne (Ne.symm hb), ih, List.map_cons, List.sum_cons]

theorem join_count (es : List (Bytes × Value N)) {b : UInt8} (hb : b ≠ ch ',') :
    (join (ch ',') (entryText lua) es).count b = (es.map fun e => (entryText lua e).count b).sum := by
  cases es with
  | nil => rfl
  | cons e es => rw [join, List.count_append, flatMap_count es hb, List.map_cons, List.sum_cons]

/-- How many quotes or backslashes the writer writes. -/
theorem line_count (lua : Lua N) (a : Args N) {b : UInt8} (hb : b = ch '"' ∨ b = ch '\\') :
    (line lua a).count b = (cString a.schema).count b +
      (a.tags.entries.map fun e => (entryText lua e).count b).sum +
      (a.metrics.entries.map fun e => (entryText lua e).count b).sum := by
  have hplain : ¬ Plain b := by rcases hb with rfl | rfl <;> decide
  have hcomma : b ≠ ch ',' := by rcases hb with rfl | rfl <;> decide
  have hspace : ch ' ' ≠ b := by rcases hb with rfl | rfl <;> decide
  have hnewline : ch '\n' ≠ b := by rcases hb with rfl | rfl <;> decide
  rw [line, tagsText, List.count_append, List.count_append, List.count_cons_of_ne hspace, List.count_append,
    List.count_cons_of_ne hspace, List.count_append, List.count_singleton, if_neg (by rwa [beq_iff_eq]),
    count_of_plain (timeText_plain a) hplain, flatMap_count _ hcomma, join_count _ hcomma]
  omega

theorem cString_count_le (s : Bytes) (b : UInt8) : (cString s).count b ≤ s.count b :=
  (List.takeWhile_sublist _).count_le b

theorem entryText_quotes_le (e : Bytes × Value N) :
    (entryText lua e).count (ch '"') ≤ e.1.count (ch '"') + (e.2.tostring lua).count (ch '"') := by
  have hkey := cString_count_le e.1 (ch '"')
  have hvalue := cString_count_le (e.2.tostring lua) (ch '"')
  rw [entryText, valueText, escaped, List.count_append, List.count_cons_of_ne (by decide),
    Marks.count_escape (show ch '"' ≠ spaceMarks.esc by decide)]
  omega

theorem entryText_backslashes_le (e : Bytes × Value N) :
    (entryText lua e).count (ch '\\') ≤ e.1.count (ch '\\') +
      ((e.2.tostring lua).count (ch '\\') + (e.2.tostring lua).countP spaceMarks.special) := by
  have hkey := cString_count_le e.1 (ch '\\')
  have hvalue := cString_count_le (e.2.tostring lua) (ch '\\')
  have hspaces : (cString (e.2.tostring lua)).countP spaceMarks.special ≤ (e.2.tostring lua).countP spaceMarks.special :=
    (List.takeWhile_sublist _).countP_le
  have hcount : (escaped (cString (e.2.tostring lua))).count (ch '\\') =
      (cString (e.2.tostring lua)).count (ch '\\') + (cString (e.2.tostring lua)).countP spaceMarks.special :=
    Marks.count_esc_escape (M := spaceMarks)
  rw [entryText, valueText, List.count_append, List.count_cons_of_ne (by decide), hcount]
  omega

theorem sum_squeeze {α : Type} {xs : List α} {f g : α → ℕ} (h : ∀ x ∈ xs, f x ≤ g x)
    (hle : (xs.map g).sum ≤ (xs.map f).sum) : ∀ x ∈ xs, g x ≤ f x := by
  intro x hx
  by_contra hlt
  have := List.sum_lt_sum f g h ⟨x, hx, Nat.lt_of_not_le hlt⟩
  omega

/-! ## Values and their texts -/

theorem Value.IsTag.text (lua : Lua N) {v : Value N} {t : Bytes} (h : v.IsTag nums t) :
    t = v.tostring lua ∨ (∀ c ∈ t, Plain c) ∧ ∀ c ∈ v.tostring lua, Plain c := by
  cases v with
  | str s => exact .inl h
  | num x => exact .inr ⟨nums.plain t x h, lua.plain x⟩

theorem Value.IsTag.count (lua : Lua N) {v : Value N} {t : Bytes} (h : v.IsTag nums t) {b : UInt8} (hb : ¬ Plain b) :
    t.count b = (v.tostring lua).count b := by
  rcases h.text lua with rfl | ⟨ht, hv⟩
  · rfl
  · rw [count_of_plain ht hb, count_of_plain hv hb]

theorem countP_of_plain {t : Bytes} (h : ∀ c ∈ t, Plain c) : t.countP keyMarks.special = 0 := by
  refine List.countP_eq_zero.mpr fun c hc hspecial => ?_
  have hp := h c hc
  simp only [Plain, List.mem_cons, List.not_mem_nil, or_false, not_or] at hp
  simp [keyMarks, hp] at hspecial

theorem Value.IsTag.countP (lua : Lua N) {v : Value N} {t : Bytes} (h : v.IsTag nums t) :
    t.countP keyMarks.special = (v.tostring lua).countP keyMarks.special := by
  rcases h.text lua with rfl | ⟨ht, hv⟩
  · rfl
  · rw [countP_of_plain ht, countP_of_plain hv]

variable {a : Args N} {q : Point N}

/-- A sum over the tags of the point is one over those of the arguments. -/
theorem Same.sum_tags (h : Same nums a q) {g : Bytes × Bytes → ℕ} {f : Bytes × Value N → ℕ}
    (hg : ∀ e t, e.2.IsTag nums t → g (e.1, t) = f e) : (q.tags.map g).sum = (a.tags.entries.map f).sum := by
  obtain ⟨l, hperm, hl⟩ := h.tags
  rw [← (hperm.map g).sum_eq]
  clear hperm
  generalize a.tags.entries = es at hl ⊢
  induction hl with
  | nil => rfl
  | cons hp _ ih =>
    obtain ⟨hkey, htag⟩ := hp
    rw [List.map_cons, List.map_cons, List.sum_cons, List.sum_cons, ih, ← hg _ _ htag, ← hkey]

theorem Same.sum_fields (h : Same nums a q) (g : Bytes × FieldValue N → ℕ) :
    (q.fields.map g).sum = (a.metrics.entries.map fun e => g (e.1, e.2.field)).sum := by
  rw [(h.metrics.map g).sum_eq, List.map_map]
  rfl

theorem Same.mem_fields (h : Same nums a q) {p : Bytes × FieldValue N} :
    p ∈ q.fields ↔ ∃ e ∈ a.metrics.entries, (e.1, e.2.field) = p := by
  rw [h.metrics.mem_iff, List.mem_map]

theorem Same.exists_tag (h : Same nums a q) {e : Bytes × Value N} (he : e ∈ a.tags.entries) :
    ∃ t, (e.1, t) ∈ q.tags ∧ e.2.IsTag nums t := by
  obtain ⟨l, hperm, hl⟩ := h.tags
  obtain ⟨p, hp, hkey, htag⟩ : ∃ p ∈ l, p.1 = e.1 ∧ e.2.IsTag nums p.2 := by
    clear hperm
    generalize a.tags.entries = es at hl he
    induction hl with
    | nil => cases he
    | cons hp _ ih =>
      rcases List.mem_cons.mp he with rfl | he
      · exact ⟨_, List.mem_cons_self .., hp⟩
      · obtain ⟨p, hmem, hp⟩ := ih he
        exact ⟨p, List.mem_cons_of_mem _ hmem, hp⟩
  exact ⟨p.2, hperm.mem_iff.mp (hkey ▸ hp), htag⟩

/-! ## What a line that is read back is of -/

/-- The quotes that a line has when its strings are between quotes. -/
def quotes : FieldValue N → ℕ
  | .str s => s.count (ch '"') + 2
  | _ => 0

theorem FieldText.quotes {f : FieldValue N} {t : Bytes} (h : FieldText nums f t) : t.count (ch '"') = quotes f := by
  cases f with
  | str s => exact h.count_str
  | num x => exact count_of_plain (h.plain fun s => nofun) (by decide)
  | bool b => exact count_of_plain (h.plain fun s => nofun) (by decide)

theorem quotes_field (v : Value N) : (v.tostring lua).count (ch '"') ≤ quotes v.field := by
  cases v with
  | str s => exact Nat.le_add_right _ 2
  | num x => rw [Value.tostring, count_of_plain (lua.plain x) (by decide)]; exact Nat.zero_le _

/-- Strings would have quotes that the writer does not write. -/
theorem no_string (h : Line nums q (line lua a)) (hs : Same nums a q) : ∀ e ∈ a.metrics.entries, ∃ x, e.2 = .num x := by
  have hread := h.count (.inl rfl) (w := quotes) fun p _ t ht => FieldText.quotes ht
  have hwrite := line_count lua a (.inl rfl : ch '"' = ch '"' ∨ ch '"' = ch '\\')
  have hschema := cString_count_le a.schema (ch '"')
  have hesc : ch '"' ≠ keyMarks.esc := by decide
  simp only [Marks.count_escape hesc] at hread
  rw [Marks.count_escape (show ch '"' ≠ measurementMarks.esc by decide), hs.measurement,
    hs.sum_tags (f := fun e => e.1.count (ch '"') + (e.2.tostring lua).count (ch '"'))
      (fun e t ht => by rw [ht.count lua (by decide)]),
    hs.sum_fields] at hread
  simp only at hread
  have htags : (a.tags.entries.map fun e => (entryText lua e).count (ch '"')).sum ≤
      (a.tags.entries.map fun e => e.1.count (ch '"') + (e.2.tostring lua).count (ch '"')).sum :=
    List.sum_le_sum fun e _ => entryText_quotes_le e
  have hle : ∀ e ∈ a.metrics.entries, e.1.count (ch '"') + (e.2.tostring lua).count (ch '"') ≤
      e.1.count (ch '"') + quotes e.2.field := fun e _ => Nat.add_le_add_left (quotes_field e.2) _
  have hmetrics : (a.metrics.entries.map fun e => (entryText lua e).count (ch '"')).sum ≤
      (a.metrics.entries.map fun e => e.1.count (ch '"') + (e.2.tostring lua).count (ch '"')).sum :=
    List.sum_le_sum fun e _ => entryText_quotes_le e
  have hsqueeze := sum_squeeze hle (by omega)
  intro e he
  have hbound := hsqueeze e he
  cases hv : e.2 with
  | num x => exact ⟨x, rfl⟩
  | str s =>
    rw [hv] at hbound
    simp only [Value.field, quotes, Value.tostring] at hbound
    omega

theorem of_countP_le {α : Type} {f g : α → Bool} {l : List α} (hfg : ∀ c ∈ l, g c → f c) (hle : l.countP f ≤ l.countP g) :
    ∀ c ∈ l, f c → g c := by
  induction l with
  | nil => exact fun c hc => absurd hc List.not_mem_nil
  | cons x l ih =>
    have hmono : l.countP g ≤ l.countP f := List.countP_mono_left fun c hc => hfg c (List.mem_cons_of_mem x hc)
    have hx := hfg x (List.mem_cons_self ..)
    rw [List.countP_cons, List.countP_cons] at hle
    have hrest : l.countP f ≤ l.countP g := by
      by_cases hg : g x
      · rw [if_pos hg, if_pos (hx hg)] at hle
        omega
      · rw [if_neg hg] at hle
        omega
    intro c hc hf
    rcases List.mem_cons.mp hc with rfl | hc
    · by_contra hg
      rw [if_pos hf, if_neg hg] at hle
      omega
    · exact ih (fun c hc => hfg c (List.mem_cons_of_mem x hc)) hrest c hc hf

/-- The marks that are in a point. -/
structure Unmarked (lua : Lua N) (a : Args N) : Prop where
  schema : ∀ c ∈ a.schema, measurementMarks.special c = false
  tags : ∀ e ∈ a.tags.entries, (∀ c ∈ e.1, keyMarks.special c = false) ∧
    ∀ c ∈ e.2.tostring lua, keyMarks.special c → spaceMarks.special c
  metrics : ∀ e ∈ a.metrics.entries, ∀ c ∈ e.1, keyMarks.special c = false

theorem special_of_space (c : UInt8) (h : spaceMarks.special c) : keyMarks.special c := by
  have hc : c = ch ' ' := of_decide_eq_true h
  rw [hc]
  rfl

/-- Marks would have backslashes that the writer does not write, but for the spaces in the values. -/
theorem unmarked (h : Line nums q (line lua a)) (hs : Same nums a q) : Unmarked lua a := by
  have hnum := no_string h hs
  have hfield : ∀ p ∈ q.fields, ∀ t, FieldText nums p.2 t → t.count (ch '\\') = 0 := by
    intro p hp t ht
    obtain ⟨e, he, rfl⟩ := hs.mem_fields.mp hp
    obtain ⟨x, hx⟩ := hnum e he
    refine count_of_plain (ht.plain fun s hstr => ?_) (by decide)
    simp only [hx, Value.field] at hstr
    cases hstr
  have hread := h.count (.inr rfl) (w := fun _ => 0) hfield
  have hwrite := line_count lua a (.inr rfl : ch '\\' = ch '"' ∨ ch '\\' = ch '\\')
  have hschema := cString_count_le a.schema (ch '\\')
  have hkey : ∀ d, (keyMarks.escape d).count (ch '\\') = d.count (ch '\\') + d.countP keyMarks.special :=
    fun d => Marks.count_esc_escape (M := keyMarks)
  have hmeas : (measurementMarks.escape q.measurement).count (ch '\\') =
      q.measurement.count (ch '\\') + q.measurement.countP measurementMarks.special :=
    Marks.count_esc_escape (M := measurementMarks)
  simp only [hkey, Nat.add_zero] at hread
  rw [hmeas, hs.measurement,
    hs.sum_tags (f := fun e => e.1.count (ch '\\') + e.1.countP keyMarks.special +
      ((e.2.tostring lua).count (ch '\\') + (e.2.tostring lua).countP keyMarks.special))
      (fun e t ht => by rw [ht.count lua (by decide), ht.countP lua]),
    hs.sum_fields] at hread
  simp only at hread
  have hspaces : ∀ d : Bytes, d.countP spaceMarks.special ≤ d.countP keyMarks.special :=
    fun d => List.countP_mono_left fun c _ => special_of_space c
  have htags : (a.tags.entries.map fun e => (entryText lua e).count (ch '\\')).sum ≤
      (a.tags.entries.map fun e => e.1.count (ch '\\') +
        ((e.2.tostring lua).count (ch '\\') + (e.2.tostring lua).countP spaceMarks.special)).sum :=
    List.sum_le_sum fun e _ => entryText_backslashes_le e
  have hmetrics : (a.metrics.entries.map fun e => (entryText lua e).count (ch '\\')).sum ≤
      (a.metrics.entries.map fun e => e.1.count (ch '\\')).sum := by
    refine List.sum_le_sum fun e he => ?_
    obtain ⟨x, hx⟩ := hnum e he
    have hle := cString_count_le e.1 (ch '\\')
    rw [entryText, hx, valueText_num, List.count_append, List.count_cons_of_ne (by decide),
      count_of_plain (lua.plain x) (by decide)]
    exact hle
  have htagsLe : ∀ e ∈ a.tags.entries, e.1.count (ch '\\') +
      ((e.2.tostring lua).count (ch '\\') + (e.2.tostring lua).countP spaceMarks.special) ≤
      e.1.count (ch '\\') + e.1.countP keyMarks.special +
        ((e.2.tostring lua).count (ch '\\') + (e.2.tostring lua).countP keyMarks.special) := by
    intro e _
    have := hspaces (e.2.tostring lua)
    omega
  have hmetricsLe : ∀ e ∈ a.metrics.entries,
      e.1.count (ch '\\') ≤ e.1.count (ch '\\') + e.1.countP keyMarks.special := fun e _ => Nat.le_add_right _ _
  have htagsSum := List.sum_le_sum htagsLe
  have hmetricsSum := List.sum_le_sum hmetricsLe
  have hzero : ∀ {M : Marks UInt8} {d : Bytes}, d.countP M.special = 0 → ∀ c ∈ d, M.special c = false := by
    intro M d hd c hc
    exact Bool.not_eq_true _ ▸ List.countP_eq_zero.mp hd c hc
  have hsqueezeTags := sum_squeeze htagsLe (by omega)
  have hsqueezeMetrics := sum_squeeze hmetricsLe (by omega)
  refine ⟨hzero (by omega), fun e he => ⟨hzero ?_, of_countP_le (fun c _ => special_of_space c) ?_⟩, fun e he => hzero ?_⟩
  · have := hsqueezeTags e he
    have := hspaces (e.2.tostring lua)
    omega
  · have := hsqueezeTags e he
    omega
  · have := hsqueezeMetrics e he
    omega

theorem entryText_no_nul (e : Bytes × Value N) : 0 ∉ entryText lua e := by
  rw [entryText, List.mem_append, List.mem_cons]
  rintro (h | h | h)
  · exact cString_no_nul _ h
  · exact absurd h (by decide)
  · exact escaped_no_nul (cString_no_nul _) h

theorem line_no_nul (a : Args N) : 0 ∉ line lua a := by
  have hentries : ∀ es : List (Bytes × Value N), 0 ∉ es.flatMap fun e => ch ',' :: entryText lua e := by
    intro es h
    obtain ⟨e, -, he⟩ := List.mem_flatMap.mp h
    rcases List.mem_cons.mp he with hc | he
    · exact absurd hc (by decide)
    · exact entryText_no_nul e he
  have hjoin : ∀ es : List (Bytes × Value N), 0 ∉ join (ch ',') (entryText lua) es := by
    intro es h
    cases es with
    | nil => exact absurd h List.not_mem_nil
    | cons e es =>
      rcases List.mem_append.mp h with he | hes
      · exact entryText_no_nul e he
      · exact hentries es hes
  simp only [line, tagsText, List.mem_append, List.mem_cons, List.not_mem_nil, or_false, not_or]
  refine ⟨cString_no_nul _, hentries _, by decide, hjoin _, by decide, fun h => ?_, by decide⟩
  exact absurd (timeText_plain a 0 h) (by decide)

/-- What the grammar has of a text, and that it is in a line of the writer. -/
theorem cleanText_of {M : Marks UInt8} (hesc : M.esc = ch '\\') (hstop : M.stop (ch '\n') = true) {marks : List UInt8}
    {s : Bytes} (hne : s ≠ []) (hw : M.Writable s) (hnul : 0 ∉ s) (hmarks : ∀ c ∈ s, c ∉ marks) : CleanText marks s := by
  refine ⟨hne, fun c hc hmem => ?_, hesc ▸ hw.last⟩
  rcases List.mem_cons.mp hmem with rfl | hmem
  · exact hnul hc
  · rcases List.mem_cons.mp hmem with rfl | hmem
    · rw [hw.stop _ hc] at hstop
      exact Bool.false_ne_true hstop
    · exact hmarks c hc hmem

theorem cleanKey_of_pair {β : Type} {R : β → Bytes → Prop} {p : Bytes × β} {t : Bytes} (h : PairText R p t)
    (hsub : t ⊆ line lua a) (hmarks : ∀ c ∈ p.1, keyMarks.special c = false) : CleanKey p.1 := by
  obtain ⟨hne, hw, s, -, rfl⟩ := h
  refine cleanText_of rfl rfl hne hw (fun hmem => ?_) fun c hc hmem => ?_
  · exact line_no_nul a (hsub (List.mem_append_left _ (Marks.mem_escape hmem)))
  · have hc := hmarks c hc
    simp only [List.mem_cons, List.not_mem_nil, or_false] at hmem
    rcases hmem with rfl | rfl | rfl <;> exact absurd hc (by decide)

theorem clean_of_line (h : Line nums q (line lua a)) (hs : Same nums a q) : Clean lua a := by
  have hmarks := unmarked h hs
  have hnum := no_string h hs
  refine ⟨⟨?_, hs.measurement ▸ h.comment⟩, fun e he => ?_, fun hnil => ?_, fun e he => ?_⟩
  · rw [← hs.measurement]
    refine cleanText_of rfl rfl h.measurement.1 h.measurement.2 (fun hmem => ?_) fun c hc hmem => ?_
    · exact line_no_nul a (h.measurement_subset hmem)
    · have hc := hmarks.schema c (hs.measurement ▸ hc)
      simp only [List.mem_cons, List.not_mem_nil, or_false] at hmem
      rcases hmem with rfl | rfl <;> exact absurd hc (by decide)
  · obtain ⟨t, ht, htag⟩ := hs.exists_tag he
    obtain ⟨s, hpair, hsub⟩ := h.tag ht
    refine ⟨cleanKey_of_pair (p := (e.1, t)) hpair hsub (hmarks.tags e he).1, ?_⟩
    obtain ⟨-, -, u, ⟨hne, hw, rfl⟩, rfl⟩ := hpair
    cases hv : e.2 with
    | num x =>
      refine cleanText_of_plain (fun c hc => ?_) (lua.ne_nil x) (lua.plain x)
      simp only [List.mem_cons, List.not_mem_nil, or_false] at hc
      rcases hc with rfl | rfl <;> decide
    | str v =>
      rw [hv] at htag
      obtain rfl : t = v := htag
      refine cleanText_of rfl rfl hne hw (fun hmem => ?_) fun c hc hmem => ?_
      · exact line_no_nul a (hsub (List.mem_append_right _ (List.mem_cons_of_mem _ (Marks.mem_escape hmem))))
      · have hspace := (hmarks.tags e he).2 c (by rw [hv]; exact hc)
        simp only [List.mem_cons, List.not_mem_nil, or_false] at hmem
        rcases hmem with rfl | rfl
        · exact absurd (hspace rfl) (by decide)
        · exact absurd (hspace rfl) (by decide)
  · have hperm := hs.metrics
    rw [hnil, List.map_nil] at hperm
    exact h.fields_ne_nil hperm.eq_nil
  · obtain ⟨s, hpair, hsub⟩ := h.field (hs.mem_fields.mpr ⟨e, he, rfl⟩)
    exact ⟨cleanKey_of_pair (p := (e.1, e.2.field)) hpair hsub (hmarks.metrics e he), hnum e he⟩

/-! ## Numbers and the time of a line that is read back -/

theorem time_of_line (h : Line nums q (line lua a)) : readTime (timeText a) = some q.time := by
  obtain ⟨tags, fields, time, -, -, htime, htext⟩ := h.text
  have heq : timeText a = time := by
    refine last_part (x := cString a.schema ++ (tagsText lua a.tags ++
      ch ' ' :: join (ch ',') (entryText lua) a.metrics.entries))
      (y := measurementMarks.escape q.measurement ++ (tags ++ ch ' ' :: fields)) (timeText_plain a) (readTime_plain htime) ?_
    rw [line] at htext
    simpa only [List.append_assoc, List.cons_append] using htext
  rw [heq, htime]

/-- Of a table with one value for each key, the values are those of the list with the same keys. -/
theorem forall_of_perm {κ α β : Type} {es : List (κ × α)} {l : List (κ × β)} {R : α → β → Prop} {g : α → β}
    (hnd : (es.map Prod.fst).Nodup) (h : List.Forall₂ (fun e p => p.1 = e.1 ∧ R e.2 p.2) es l)
    (hperm : l.Perm (es.map fun e => (e.1, g e.2))) : ∀ e ∈ es, R e.2 (g e.2) := by
  intro e he
  obtain ⟨p, hp, hkey, hR⟩ : ∃ p ∈ l, p.1 = e.1 ∧ R e.2 p.2 := by
    clear hperm hnd
    induction h with
    | nil => cases he
    | cons hp _ ih =>
      rcases List.mem_cons.mp he with rfl | he
      · exact ⟨_, List.mem_cons_self .., hp⟩
      · obtain ⟨p, hmem, hp⟩ := ih he
        exact ⟨p, List.mem_cons_of_mem _ hmem, hp⟩
  obtain ⟨e', he', rfl⟩ := List.mem_map.mp (hperm.mem_iff.mp hp)
  obtain rfl : e' = e := List.inj_on_of_nodup_map hnd he' he hkey
  exact hR

theorem good_of_line (h : Line nums q (line lua a)) (hs : Same nums a q) : Good lua nums a := by
  have hclean := clean_of_line h hs
  have htime := time_of_line h
  have hstr : ∀ p ∈ q.fields, ∀ s, p.2 ≠ .str s := by
    rintro p hp s hstr
    obtain ⟨e, he, rfl⟩ := hs.mem_fields.mp hp
    obtain ⟨x, hx⟩ := no_string h hs e he
    simp only [hx, Value.field] at hstr
    cases hstr
  -- with every number read as its text, the line is of one point only
  obtain ⟨fs, hfs, hraw⟩ := h.raw hstr
  have hwritten : Line rawText (point lua a (fun v => .num (v.tostring lua)) q.time) (line lua a) := by
    refine line_of_clean hclean (fun e he => fieldText_raw ?_) htime
    obtain ⟨x, hx⟩ := (hclean.metric e he).2
    rw [hx]
    exact lua.plain x
  have heq := hraw.unique hwritten
  rw [point, Point.mk.injEq] at heq
  obtain ⟨-, htags, hfields, -⟩ := heq
  refine ⟨hclean, fun e he x hx => ?_, fun e he x hx => ?_, ?_⟩
  · obtain ⟨l, hperm, hl⟩ := hs.tags
    rw [htags] at hperm
    have htag := forall_of_perm a.tags.nodup hl hperm e he
    rwa [hx] at htag
  · have hpairs : List.Forall₂ (fun e p => p.1 = e.1 ∧ FieldText nums p.2 (e.2.tostring lua)) a.metrics.entries q.fields := by
      rw [hfields, List.forall₂_map_right_iff] at hfs
      refine hfs.flip.imp ?_
      rintro e p ⟨hkey, t, ht, htext⟩
      cases ht
      exact ⟨hkey.symm, htext⟩
    have hfield := forall_of_perm (R := fun v f => FieldText nums f (v.tostring lua)) a.metrics.nodup hpairs hs.metrics e he
    rw [hx] at hfield
    exact hfield.num
  · rw [readTime_timeText] at htime
    rw [time_nonneg]
    by_contra hneg
    rw [if_neg hneg] at htime
    cases htime

theorem Good.line (h : Good lua nums a) : Line nums (point lua a Value.field a.tstamp.toInt) (line lua a) := by
  refine line_of_clean h.clean (fun e he => ?_) ?_
  · obtain ⟨x, hx⟩ := (h.clean.metric e he).2
    rw [hx]
    exact fieldText_num (h.metrics e he x hx)
  · rw [readTime_timeText, if_pos ((time_nonneg _).mp h.time), time_eq h.time]

theorem Good.same (h : Good lua nums a) : Same nums a (point lua a Value.field a.tstamp.toInt) := by
  refine ⟨rfl, ⟨_, List.Perm.refl _, ?_⟩, List.Perm.refl _, rfl⟩
  rw [point, List.forall₂_map_right_iff, List.forall₂_same]
  rintro e he
  refine ⟨rfl, ?_⟩
  cases hv : e.2 with
  | str s => exact rfl
  | num x => exact h.tags e he x hv

/-- The line is read back as the point of the arguments just if they are good. -/
theorem reads_back_iff : (∃ q, parse nums (line lua a) = some q ∧ Same nums a q) ↔ Good lua nums a := by
  constructor
  · rintro ⟨q, hq, hs⟩
    exact good_of_line (parse_iff.mp hq) hs
  · intro h
    exact ⟨_, parse_iff.mpr h.line, h.same⟩

/-! ## The result -/

theorem cstr_line (a : Args N) (r : Bytes) : cstr (line lua a ++ 0 :: r) 0 = some (line lua a) := by
  rw [cstr, List.drop_zero]
  exact scan_append (line_no_nul a) r

theorem meets_iff (a : Args N) (dstLine : Mem) :
    Meets lua nums a dstLine ↔ dstLine ≠ [] ∧ (Fits lua a dstLine.length → Good lua nums a) := by
  have hbuf : ∃ b : Mem, b.length = 128 := ⟨List.replicate 128 0, List.length_replicate⟩
  constructor
  · intro h
    obtain ⟨b, hb⟩ := hbuf
    obtain ⟨r, hr, hlen, hres⟩ := h ⟨b, hb⟩ ⟨b, hb⟩
    obtain ⟨r', hr', hout⟩ := writeLine_spec lua a ⟨b, hb⟩ ⟨b, hb⟩ dstLine
    obtain rfl : r = r' := Option.some.inj (hr.symm.trans hr')
    refine ⟨?_, fun hfits => ?_⟩
    · rintro rfl
      have hnil : cstr r.1 0 = none := by
        rw [List.length_eq_zero_iff.mp hlen]
        rfl
      rcases hres with ⟨-, hempty⟩ | ⟨l, q, -, hl, -⟩
      · rw [hnil] at hempty
        cases hempty
      · rw [hnil] at hl
        cases hl
    · obtain ⟨hn, t, ht⟩ := hout.done hfits
      rcases hres with ⟨hminus, -⟩ | ⟨l, q, -, hl, hq, hs⟩
      · rw [hn] at hminus
        omega
      · rw [ht, cstr_line] at hl
        cases hl
        exact reads_back_iff.mp ⟨q, hq, hs⟩
  · rintro ⟨hne, hgood⟩ tagsBuf metricsBuf
    refine (writeLine_spec lua a tagsBuf metricsBuf dstLine).mono fun r hout => ⟨hout.length, ?_⟩
    by_cases hfits : Fits lua a dstLine.length
    · obtain ⟨hn, t, ht⟩ := hout.done hfits
      obtain ⟨q, hq, hs⟩ := reads_back_iff.mpr (hgood hfits)
      exact .inr ⟨_, q, hn, by rw [ht, cstr_line], hq, hs⟩
    · obtain ⟨hn, hnul⟩ := hout.full hfits
      have hzero := hnul fun hlen => hne (List.length_eq_zero_iff.mp hlen)
      refine .inl ⟨hn, ?_⟩
      cases hm : r.1 with
      | nil =>
        rw [hm] at hzero
        cases hzero
      | cons c m =>
        rw [hm] at hzero
        obtain rfl : c = 0 := Option.some.inj hzero
        rfl

theorem Writes.line {l : Bytes} (h : Writes lua a l) : l = line lua a := by
  obtain ⟨tagsBuf, metricsBuf, dstLine, m, n, hn, hl, hrun⟩ := h
  obtain ⟨r, hr, hout⟩ := writeLine_spec lua a tagsBuf metricsBuf dstLine
  obtain rfl : (m, n) = r := Option.some.inj (hrun.symm.trans hr)
  by_cases hfits : Fits lua a dstLine.length
  · obtain ⟨-, t, ht⟩ := hout.done hfits
    simp only at ht
    rw [ht, cstr_line] at hl
    exact (Option.some.inj hl).symm
  · exact absurd (hout.full hfits).1 hn

theorem Value.field_injective : Function.Injective (Value.field (N := N)) := by
  intro v w h
  cases v <;> cases w <;> cases h <;> rfl

theorem samePoint_of_line {b : Args N} (ha : Good lua nums a) (hb : Good lua nums b)
    (h : line lua a = line lua b) :
    SamePoint lua a b := by
  have heq := ha.line.unique (h ▸ hb.line)
  rw [point, point, Point.mk.injEq] at heq
  obtain ⟨hschema, htags, hfields, htime⟩ := heq
  refine ⟨hschema, Int64.toInt_inj.mp htime, htags, List.map_injective_iff.mpr ?_ hfields⟩
  rintro ⟨k, v⟩ ⟨k', v'⟩ hp
  obtain ⟨rfl, hv⟩ := Prod.mk.inj hp
  rw [show v = v' from Value.field_injective hv]

end

theorem writeLine_law (lua : Lua N) (nums : NumberText N) :
    (∀ a dstLine, Meets lua nums a dstLine ↔ dstLine ≠ [] ∧ (Fits lua a dstLine.length → Good lua nums a)) ∧
    ∀ a b l, Good lua nums a → Good lua nums b → Writes lua a l → Writes lua b l → SamePoint lua a b := by
  refine ⟨meets_iff, fun a b l ha hb hwa hwb => samePoint_of_line ha hb ?_⟩
  rw [← hwa.line, ← hwb.line]

/-! ## A comma in a tag -/

def integers : Lua ℤ where
  tostring z := (idec z).map ch
  ne_nil z h := by
    rw [List.map_eq_nil_iff, idec] at h
    split at h
    · cases h
    · exact udec_ne_nil h
  plain z c hc := by
    obtain ⟨d, hd, rfl⟩ := List.mem_map.mp hc
    rcases mem_idec hd with rfl | hdigit
    · decide
    · exact plain_digit hdigit

def integerText : NumberText ℤ where
  read t := readInt (t.map fun c => Char.ofNat c.toNat)
  plain _ _ h := plain_of_readInt h

def bytesMetric : Table ℤ := ⟨[(text "bytes", .num 5)], by decide⟩

/-- The traffic of a profile that is called `a,b=c`. -/
def commaProfile : Args ℤ where
  schema := text "profile:traffic"
  tstamp := 1539358699
  tags := ⟨[(text "profile", .str (text "a,b=c"))], by decide⟩
  metrics := bytesMetric

def twoTags : Args ℤ where
  schema := text "profile:traffic"
  tstamp := 1539358699
  tags := ⟨[(text "profile", .str (text "a")), (text "b", .str (text "c"))], by decide⟩
  metrics := bytesMetric

theorem writes_line {lua : Lua N} {a : Args N} {n : ℕ} (h : Fits lua a n) : Writes lua a (line lua a) := by
  have hbuf : ∃ b : Mem, b.length = 128 := ⟨List.replicate 128 0, List.length_replicate⟩
  obtain ⟨b, hb⟩ := hbuf
  obtain ⟨⟨m, k⟩, hr, hout⟩ := writeLine_spec lua a ⟨b, hb⟩ ⟨b, hb⟩ (List.replicate n 0)
  have hlen : (List.replicate n (0 : UInt8)).length = n := List.length_replicate
  obtain ⟨hk, t, ht⟩ := hout.done (by rwa [hlen])
  simp only at hk ht
  exact ⟨⟨b, hb⟩, ⟨b, hb⟩, _, m, k, by omega, by rw [ht, cstr_line], hr⟩

/-- The tag is read as two tags, and two points have one line. -/
theorem comma_splits_tag : ¬ Meets integers integerText commaProfile (List.replicate 512 0) ∧
    ∃ l, Writes integers commaProfile l ∧ Writes integers twoTags l ∧ ¬ SamePoint integers commaProfile twoTags := by
  have hfits : Fits integers commaProfile 512 := by decide +kernel
  have hfits' : Fits integers twoTags 512 := by decide +kernel
  have hline : line integers commaProfile = line integers twoTags := by decide +kernel
  refine ⟨fun h => ?_, _, writes_line hfits, hline ▸ writes_line hfits', fun h => ?_⟩
  · have hgood := ((meets_iff commaProfile _).mp h).2 (by rwa [List.length_replicate])
    exact (hgood.clean.tags _ (List.mem_cons_self ..)).2.not_mark (c := ch ',') (by decide) (List.mem_cons_self ..)
  · exact absurd (congrArg List.length h.tags) (by decide)

end Ntopng.Text.LineWriter
