/-
  Ntopng.Text.LineWriter — `line_protocol_write_line` (src/TimeseriesExporter.cpp).

  A line of the InfluxDB line protocol is put together in the caller's buffer by five appends, and each is
  checked for room. The values go through `escape_fn` into a buffer of 128 bytes before that;
  `escape_spaces` puts a backslash before spaces. The measurement and the keys are written as they are.

  A table has its entries in the order of `lua_next`. How Lua writes numbers is a parameter. The time is the
  `time_t` that was made of the Lua number; the checks that the arguments have their types, and the
  trace, are left out. `none` is a byte outside of a buffer.

  Proved: `writeLine_spec`: no byte is outside of a buffer, and the result is the line, if it fits, or -1 and an
  empty string.
-/

import Ntopng.Text.LineProtocol

namespace Ntopng.Text.LineWriter

open Ntopng.Lib.CString Ntopng.Lib.Decimal Ntopng.Lib.Escapes
open Ntopng.Text.LineProtocol (Bytes Plain)

/-- `lua_tostring` of numbers. -/
structure Lua (N : Type) where
  tostring : N → Bytes
  ne_nil : ∀ x, tostring x ≠ []
  plain : ∀ x, ∀ c ∈ tostring x, Plain c

inductive Value (N : Type)
  | str (s : Bytes)
  | num (x : N)
  deriving DecidableEq

def Value.tostring {N : Type} (lua : Lua N) : Value N → Bytes
  | .str s => s
  | .num x => lua.tostring x

structure Table (N : Type) where
  entries : List (Bytes × Value N)
  nodup : (entries.map Prod.fst).Nodup

structure Args (N : Type) where
  schema : Bytes
  tstamp : Int64
  tags : Table N
  metrics : Table N

/-- What a `char *` to a Lua string shows of it. -/
def cString (s : Bytes) : Bytes := s.takeWhile (· ≠ 0)

/-! ## The code -/

/-- `snprintf` of a text; a length that no `int` holds makes no difference, as the buffer is shorter. -/
def snprintf (buf : Mem) (p size : ℕ) (s : Bytes) : Option (Mem × ℤ) :=
  if size = 0 then some (buf, s.length) else (storeAll buf p (s.take (size - 1) ++ [0])).map (·, (s.length : ℤ))

abbrev EscapeFn := Mem → ℕ → Bytes → Option (Mem × ℤ)

def escapeLoop (bufLen : ℕ) (buf : Mem) (curLen : ℕ) : Bytes → Option (Mem × ℤ)
  | [] => (store buf curLen 0).map (·, (curLen : ℤ))
  | c :: unescaped =>
    if (curLen : ℤ) ≥ bufLen - 2 then (store buf 0 0).map (·, -1)
    else if c = ch ' ' then
      (storeAll buf curLen [ch '\\', c]).bind fun buf => escapeLoop bufLen buf (curLen + 2) unescaped
    else (store buf curLen c).bind fun buf => escapeLoop bufLen buf (curLen + 1) unescaped

def escapeSpaces : EscapeFn := fun buf bufLen unescaped => escapeLoop bufLen buf 0 (cString unescaped)

abbrev ValBuf := { m : Mem // m.length = 128 }

/-- The error exits. -/
def error (buf : Mem) (p bufLen : ℕ) : Option (Mem × ℤ) :=
  if bufLen = 0 then some (buf, -1) else (store buf p 0).map (·, -1)

section

variable {N : Type} (lua : Lua N) (escapeFn : Option EscapeFn)

def escapeValue (valBuf : Mem) (s : Bytes) : Option (Mem × ℤ) :=
  match escapeFn with
  | some f => f valBuf 128 s
  | none => snprintf valBuf 0 128 (cString s)

/-- The buffer begins at `p`. -/
def concatLoop (p bufLen : ℕ) : (first : Bool) → (valBuf buf : Mem) → (curBufLen : ℕ) → List (Bytes × Value N) → Option (Mem × ℤ)
  | _, _, buf, curBufLen, [] => some (buf, curBufLen)
  | first, valBuf, buf, curBufLen, (key, value) :: entries =>
    (escapeValue escapeFn valBuf (value.tostring lua)).bind fun r =>
      if r.2 > 0 ∧ r.2 < 128 then
        (cstr r.1 0).bind fun val =>
          (snprintf buf (p + curBufLen) (bufLen - curBufLen)
            ((if first then [] else [ch ',']) ++ (cString key ++ ch '=' :: val))).bind fun w =>
              if w.2 > 0 ∧ w.2 < bufLen - curBufLen then
                concatLoop p bufLen false r.1 w.1 (curBufLen + w.2.toNat) entries
              else error w.1 p bufLen
      else error buf p bufLen

def lineProtocolConcatTableFields (t : Table N) (valBuf : ValBuf) (buf : Mem) (p bufLen : ℕ) : Option (Mem × ℤ) :=
  concatLoop lua escapeFn p bufLen true valBuf.1 buf 0 t.entries

/-- After an append: no room is an error. -/
def append (dstLineLen : ℕ) (r : Option (Mem × ℤ)) (curLineLen : ℕ) (next : Mem → ℕ → Option (Mem × ℤ)) :
    Option (Mem × ℤ) :=
  r.bind fun r =>
    if r.2 < 0 ∨ r.2 ≥ dstLineLen - curLineLen then error r.1 0 dstLineLen else next r.1 (curLineLen + r.2.toNat)

/-- Each table has a `val_buf`, which begins with any bytes. -/
def lineProtocolWriteLine (a : Args N) (tagsBuf metricsBuf : ValBuf) (dstLine : Mem) (dstLineLen : ℕ) : Option (Mem × ℤ) :=
  append dstLineLen
    (snprintf dstLine 0 dstLineLen (cString a.schema ++ if a.tags.entries.isEmpty then [] else [ch ','])) 0 fun m cur =>
  append dstLineLen (lineProtocolConcatTableFields lua escapeFn a.tags tagsBuf m cur (dstLineLen - cur)) cur fun m cur =>
  append dstLineLen (snprintf m cur (dstLineLen - cur) [ch ' ']) cur fun m cur =>
  append dstLineLen (lineProtocolConcatTableFields lua escapeFn a.metrics metricsBuf m cur (dstLineLen - cur)) cur fun m cur =>
  append dstLineLen
    (snprintf m cur (dstLineLen - cur) (ch ' ' :: ((udec a.tstamp.toUInt64.toNat).map ch ++ [ch '\n']))) cur fun m cur =>
  some (m, cur)

end

/-! ## What is written -/

def spaceMarks : Marks UInt8 where
  esc := ch '\\'
  special c := c = ch ' '
  stop _ := false
  esc_special := by decide
  special_stop _ _ := rfl

def escaped (s : Bytes) : Bytes := spaceMarks.escape s

section

variable {N : Type} (lua : Lua N)

def valueText (v : Value N) : Bytes := escaped (cString (v.tostring lua))

def entryText (e : Bytes × Value N) : Bytes := cString e.1 ++ ch '=' :: valueText lua e.2

def entriesText : (first : Bool) → List (Bytes × Value N) → Bytes
  | _, [] => []
  | first, e :: entries => (if first then [] else [ch ',']) ++ (entryText lua e ++ entriesText false entries)

def tagsText (t : Table N) : Bytes := t.entries.flatMap fun e => ch ',' :: entryText lua e

def timeText (a : Args N) : Bytes := (udec a.tstamp.toUInt64.toNat).map ch

def line (a : Args N) : Bytes :=
  cString a.schema ++ (tagsText lua a.tags ++
    ch ' ' :: (join (ch ',') (entryText lua) a.metrics.entries ++ ch ' ' :: (timeText a ++ [ch '\n'])))

/-- A value is not empty, and before its last character its escaped text has not come to the limit. -/
def ValueFits (v : Value N) : Prop :=
  cString (v.tostring lua) ≠ [] ∧ (escaped (cString (v.tostring lua)).dropLast).length < 126

def Fits (a : Args N) (dstLineLen : ℕ) : Prop :=
  (∀ e ∈ a.tags.entries, ValueFits lua e.2) ∧ (∀ e ∈ a.metrics.entries, ValueFits lua e.2) ∧
    (line lua a).length < dstLineLen

instance (v : Value N) : Decidable (ValueFits lua v) := inferInstanceAs (Decidable (_ ∧ _))

instance (a : Args N) (dstLineLen : ℕ) : Decidable (Fits lua a dstLineLen) := inferInstanceAs (Decidable (_ ∧ _ ∧ _))

end

/-! ## `escape_spaces` -/

theorem cString_no_nul (s : Bytes) : 0 ∉ cString s := by
  intro h
  exact absurd (List.mem_takeWhile_imp h) (by decide)

theorem cString_eq_self {s : Bytes} (h : 0 ∉ s) : cString s = s := by
  rw [cString, List.takeWhile_eq_self_iff]
  intro c hc
  rw [decide_eq_true_eq]
  rintro rfl
  exact h hc

theorem escaped_cons (c : UInt8) (s : Bytes) : escaped (c :: s) = escaped [c] ++ escaped s :=
  Marks.escape_append (d := [c])

theorem escaped_singleton (c : UInt8) : escaped [c] = if c = ch ' ' then [ch '\\', c] else [c] := by
  by_cases hc : c = ch ' '
  · subst hc
    rfl
  · have hspecial : spaceMarks.special c = false := decide_eq_false hc
    rw [escaped, Marks.escape_cons_plain hspecial, Marks.escape_nil, if_neg hc]

theorem length_escaped_singleton (c : UInt8) : 1 ≤ (escaped [c]).length ∧ (escaped [c]).length ≤ 2 := by
  rw [escaped_singleton]
  split
  · exact ⟨by simp, by simp⟩
  · exact ⟨by simp, by simp⟩

theorem escaped_dropLast {s : Bytes} (h : s ≠ []) : (escaped s).length ≤ (escaped s.dropLast).length + 2 := by
  have hsplit : escaped s = escaped s.dropLast ++ escaped [s.getLast h] := by
    rw [escaped, escaped, escaped, ← Marks.escape_append, List.dropLast_append_getLast]
  have hlast := length_escaped_singleton (s.getLast h)
  rw [hsplit, List.length_append]
  omega

theorem escaped_no_nul {s : Bytes} (h : 0 ∉ s) : 0 ∉ escaped s := by
  intro hmem
  rcases Marks.mem_of_mem_escape hmem with hesc | hs
  · exact absurd hesc (by decide)
  · exact h hs

/-- The loop comes to the end of the text. -/
def Room (bufLen curLen : ℕ) (s : Bytes) : Prop := s ≠ [] → curLen + (escaped s.dropLast).length + 2 < bufLen

theorem room_cons {bufLen curLen : ℕ} {c : UInt8} {s : Bytes} (h : curLen + 2 < bufLen) :
    Room bufLen curLen (c :: s) ↔ Room bufLen (curLen + (escaped [c]).length) s := by
  cases s with
  | nil => exact ⟨fun _ hne => absurd rfl hne, fun _ _ => h⟩
  | cons d s =>
    rw [Room, Room, List.dropLast_cons_cons, escaped_cons, List.length_append, ← Nat.add_assoc curLen]
    exact ⟨fun hroom _ => hroom (List.cons_ne_nil _ _), fun hroom _ => hroom (List.cons_ne_nil _ _)⟩

/-- `val_buf` -/
theorem room_val {s : Bytes} : Room 128 0 s ↔ (s ≠ [] → (escaped s.dropLast).length < 126) := by
  constructor
  · intro h hne
    have := h hne
    omega
  · intro h hne
    have := h hne
    omega

theorem escapeLoop_cons {bufLen curLen : ℕ} {c : UInt8} {s : Bytes} (h : curLen + 2 < bufLen) (buf : Mem) :
    escapeLoop bufLen buf curLen (c :: s) =
      (storeAll buf curLen (escaped [c])).bind fun buf => escapeLoop bufLen buf (curLen + (escaped [c]).length) s := by
  rw [escapeLoop, if_neg (by omega), escaped_singleton]
  by_cases hc : c = ch ' '
  · rw [if_pos hc, if_pos hc]
    rfl
  · rw [if_neg hc, if_neg hc, storeAll, Option.bind_assoc]
    rfl

theorem escapeLoop_spec {bufLen : ℕ} {w r : Bytes} (s : Bytes) (hlen : w.length + r.length = bufLen) (hr : r ≠ []) :
    Reads (escapeLoop bufLen (w ++ r) w.length s) fun p => p.1.length = bufLen ∧
      (Room bufLen w.length s → p.2 = (w ++ escaped s).length ∧ ∃ r', p.1 = w ++ escaped s ++ 0 :: r') ∧
      (¬ Room bufLen w.length s → p.2 = -1) := by
  induction s generalizing w r with
  | nil =>
    cases r with
    | nil => exact absurd rfl hr
    | cons x r =>
      rw [escapeLoop, store_at rfl]
      refine reads_some ⟨?_, fun _ => ⟨?_, r, ?_⟩, fun h => absurd (fun hne => absurd rfl hne) h⟩
      · rw [← hlen, List.length_append, List.length_cons, List.length_cons]
      · rw [escaped, Marks.escape_nil, List.append_nil]
      · rw [escaped, Marks.escape_nil, List.append_nil]
  | cons c s ih =>
    by_cases hlimit : w.length + 2 < bufLen
    · have hone := length_escaped_singleton c
      rw [escapeLoop_cons hlimit, storeAll_at rfl (by omega), Option.bind_some, room_cons hlimit, escaped_cons c s,
        ← List.append_assoc, ← List.length_append]
      refine ih ?_ ?_
      · rw [List.length_append, List.length_drop]
        omega
      · rw [← List.length_pos_iff, List.length_drop]
        omega
    · have hroom : ¬ Room bufLen w.length (c :: s) := by
        intro hroom
        have := hroom (List.cons_ne_nil c s)
        omega
      have hpos : 0 < (w ++ r).length := by
        have := List.length_pos_iff.mpr hr
        rw [List.length_append]
        omega
      rw [escapeLoop, if_pos (by omega), store_some hpos]
      refine reads_some ⟨?_, fun h => absurd h hroom, fun _ => rfl⟩
      rw [List.length_set, List.length_append, hlen]

variable {N : Type} {lua : Lua N}

theorem escapeSpaces_spec {valBuf : Mem} (hlen : valBuf.length = 128) (v : Value N) :
    Reads (escapeSpaces valBuf 128 (v.tostring lua)) fun p => p.1.length = 128 ∧
      (p.2 > 0 ∧ p.2 < 128 ↔ ValueFits lua v) ∧ (ValueFits lua v → cstr p.1 0 = some (valueText lua v)) := by
  have hr : valBuf ≠ [] := by
    rintro rfl
    cases hlen
  have hspec := escapeLoop_spec (w := []) (r := valBuf) (cString (v.tostring lua)) (by simpa using hlen) hr
  rw [List.nil_append, List.nil_append, List.length_nil, room_val] at hspec
  refine hspec.mono ?_
  rintro p ⟨hp, hroom, hfull⟩
  refine ⟨hp, ?_, ?_⟩
  · rw [ValueFits]
    by_cases hne : cString (v.tostring lua) = []
    · have hzero := (hroom fun h => absurd hne h).1
      rw [hne] at hzero
      exact ⟨fun h => absurd h.1 (by rw [hzero]; decide), fun h => absurd hne h.1⟩
    · have hle := escaped_dropLast hne
      have hpos : 0 < (escaped (cString (v.tostring lua))).length := by
        have hone := length_escaped_singleton ((cString (v.tostring lua)).head hne)
        rw [← List.cons_head_tail hne, escaped_cons, List.length_append]
        omega
      by_cases hlt : (escaped (cString (v.tostring lua)).dropLast).length < 126
      · rw [(hroom fun _ => hlt).1]
        exact ⟨fun _ => ⟨hne, hlt⟩, fun _ => ⟨by omega, by omega⟩⟩
      · rw [hfull fun h => hlt (h hne)]
        exact ⟨fun h => absurd h.1 (by decide), fun h => absurd h.2 hlt⟩
  · intro hfits
    obtain ⟨r', hr'⟩ := (hroom fun _ => hfits.2).2
    rw [hr', cstr, List.drop_zero]
    exact scan_append (escaped_no_nul (cString_no_nul _)) r'

/-! ## Appends -/

theorem snprintf_spec (w r s : Bytes) :
    Reads (snprintf (w ++ r) w.length r.length s) fun p => p.1.length = (w ++ r).length ∧ p.2 = s.length ∧
      (s.length < r.length → ∃ r', p.1 = w ++ s ++ 0 :: r') := by
  rw [snprintf]
  by_cases hr : r.length = 0
  · rw [if_pos hr]
    exact reads_some ⟨rfl, rfl, fun h => by omega⟩
  · have hle : (s.take (r.length - 1) ++ [0]).length ≤ r.length := by
      rw [List.length_append, List.length_take, List.length_singleton]
      omega
    rw [if_neg hr, storeAll_at rfl hle]
    refine reads_some ⟨?_, rfl, fun h => ⟨r.drop (s.length + 1), ?_⟩⟩
    · simp only [List.length_append, List.length_drop] at hle ⊢
      omega
    · rw [List.take_of_length_le (by omega), List.length_append, List.length_singleton, ← List.append_assoc,
        List.append_assoc, List.singleton_append]

theorem error_spec {buf : Mem} {p bufLen : ℕ} (h : bufLen = 0 ∨ p < buf.length) :
    Reads (error buf p bufLen) fun q => q.1.length = buf.length ∧ q.2 = -1 ∧ (bufLen ≠ 0 → q.1[p]? = some 0) := by
  rw [error]
  by_cases hz : bufLen = 0
  · rw [if_pos hz]
    exact reads_some ⟨rfl, rfl, fun hne => absurd hz hne⟩
  · have hp := h.resolve_left hz
    rw [if_neg hz, store_some hp]
    exact reads_some ⟨List.length_set, rfl, fun _ => List.getElem?_set_self hp⟩

section

variable {pre w r : Bytes} {bufLen : ℕ} {valBuf : Mem}

/-- What is appended for an entry. -/
def step (lua : Lua N) (first : Bool) (e : Bytes × Value N) : Bytes := (if first then [] else [ch ',']) ++ entryText lua e

theorem step_pos (lua : Lua N) (first : Bool) (e : Bytes × Value N) : 0 < (step lua first e).length := by
  rw [step, entryText, List.length_append, List.length_append, List.length_cons]
  omega

theorem entriesText_cons (first : Bool) (e : Bytes × Value N) (es : List (Bytes × Value N)) :
    entriesText lua first (e :: es) = step lua first e ++ entriesText lua false es := by
  rw [entriesText, step, List.append_assoc]

theorem concatLoop_next {first : Bool} {e : Bytes × Value N} (hval : valBuf.length = 128)
    (hlen : w.length + r.length = bufLen) (hv : ValueFits lua e.2) (hlt : (step lua first e).length < r.length)
    (es : List (Bytes × Value N)) :
    ∃ valBuf' r', valBuf'.length = 128 ∧ (step lua first e).length + (0 :: r').length = r.length ∧
      concatLoop lua (some escapeSpaces) pre.length bufLen first valBuf (pre ++ w ++ r) w.length (e :: es) =
        concatLoop lua (some escapeSpaces) pre.length bufLen false valBuf' (pre ++ (w ++ step lua first e) ++ 0 :: r')
          (w ++ step lua first e).length es := by
  obtain ⟨key, value⟩ := e
  obtain ⟨⟨m, n⟩, hesc, hm, hfits, hcstr⟩ := escapeSpaces_spec hval value
  obtain ⟨⟨m', n'⟩, hprint, hm', hn', hroom⟩ := snprintf_spec (pre ++ w) r (step lua first (key, value))
  obtain ⟨r', hr'⟩ := hroom hlt
  rw [hr', List.length_append, @List.length_append _ (pre ++ w), @List.length_append _ (pre ++ w)] at hm'
  have hsize : bufLen - w.length = r.length := by omega
  have hpos := step_pos lua first (key, value)
  have htext : (if first then [] else [ch ',']) ++ (cString key ++ ch '=' :: valueText lua value) =
      step lua first (key, value) := rfl
  rw [List.length_append] at hprint
  refine ⟨m, r', hm, by omega, ?_⟩
  rw [concatLoop, escapeValue, hesc, Option.bind_some, if_pos (hfits.mpr hv), hcstr hv, Option.bind_some, htext, hsize,
    hprint, Option.bind_some, if_pos ⟨by omega, by omega⟩, hr', hn', Int.toNat_natCast, List.length_append,
    List.append_assoc pre]

theorem concatLoop_stop {first : Bool} {e : Bytes × Value N} (hval : valBuf.length = 128)
    (hlen : w.length + r.length = bufLen) (h : ¬ (ValueFits lua e.2 ∧ (step lua first e).length < r.length))
    (es : List (Bytes × Value N)) :
    Reads (concatLoop lua (some escapeSpaces) pre.length bufLen first valBuf (pre ++ w ++ r) w.length (e :: es)) fun q =>
      q.1.length = (pre ++ w ++ r).length ∧ q.2 = -1 := by
  obtain ⟨key, value⟩ := e
  have herror : ∀ {m : Mem}, m.length = (pre ++ w ++ r).length →
      Reads (error m pre.length bufLen) fun q => q.1.length = (pre ++ w ++ r).length ∧ q.2 = -1 := by
    intro m hm
    have hle := hm
    rw [List.length_append, List.length_append] at hle
    refine (error_spec (by omega)).mono ?_
    rintro q ⟨hq, hn, -⟩
    exact ⟨hq.trans hm, hn⟩
  obtain ⟨⟨m, n⟩, hesc, hm, hfits, hcstr⟩ := escapeSpaces_spec hval value
  rw [concatLoop, escapeValue, hesc, Option.bind_some]
  by_cases hv : ValueFits lua value
  · obtain ⟨⟨m', n'⟩, hprint, hm', hn', -⟩ := snprintf_spec (pre ++ w) r (step lua first (key, value))
    have hsize : bufLen - w.length = r.length := by omega
    have htext : (if first then [] else [ch ',']) ++ (cString key ++ ch '=' :: valueText lua value) =
        step lua first (key, value) := rfl
    have hlt : ¬ (step lua first (key, value)).length < r.length := fun hlt => h ⟨hv, hlt⟩
    rw [List.length_append] at hprint
    rw [if_pos (hfits.mpr hv), hcstr hv, Option.bind_some, htext, hsize, hprint, Option.bind_some,
      if_neg (by rw [hn']; omega)]
    exact herror hm'
  · rw [if_neg fun hn => hv (hfits.mp hn)]
    exact herror rfl

/-- The entries fit into what is left of the buffer. -/
def EntriesFit (lua : Lua N) (first : Bool) (es : List (Bytes × Value N)) (size : ℕ) : Prop :=
  (∀ e ∈ es, ValueFits lua e.2) ∧ (entriesText lua first es).length < size

theorem entriesFit_cons {first : Bool} {e : Bytes × Value N} {es : List (Bytes × Value N)} {size : ℕ} :
    EntriesFit lua first (e :: es) size ↔
      ValueFits lua e.2 ∧ EntriesFit lua false es (size - (step lua first e).length) := by
  rw [EntriesFit, EntriesFit, List.forall_mem_cons, entriesText_cons, List.length_append]
  constructor
  · rintro ⟨⟨hv, hes⟩, hlt⟩
    exact ⟨hv, hes, by omega⟩
  · rintro ⟨hv, hes, hlt⟩
    exact ⟨⟨hv, hes⟩, by omega⟩

theorem concatLoop_spec (lua : Lua N) (pre : Bytes) (es : List (Bytes × Value N)) (first : Bool) (hval : valBuf.length = 128)
    (hlen : w.length + r.length = bufLen) (hr : 0 < r.length) :
    Reads (concatLoop lua (some escapeSpaces) pre.length bufLen first valBuf (pre ++ w ++ r) w.length es) fun q =>
      q.1.length = (pre ++ w ++ r).length ∧
      (EntriesFit lua first es r.length →
        q.2 = (w ++ entriesText lua first es).length ∧ ∃ r', q.1 = pre ++ (w ++ entriesText lua first es) ++ r') ∧
      (¬ EntriesFit lua first es r.length → q.2 = -1) := by
  induction es generalizing first valBuf w r with
  | nil =>
    rw [concatLoop, entriesText, List.append_nil]
    refine reads_some ⟨rfl, fun _ => ⟨rfl, r, ?_⟩, fun h => absurd ⟨fun e he => absurd he List.not_mem_nil, hr⟩ h⟩
    rw [List.append_assoc]
  | cons e es ih =>
    by_cases h : ValueFits lua e.2 ∧ (step lua first e).length < r.length
    · obtain ⟨valBuf', r', hval', hr', heq⟩ := concatLoop_next hval hlen h.1 h.2 es
      have hsize : r.length - (step lua first e).length = (0 :: r').length := by omega
      rw [heq, entriesText_cons, entriesFit_cons, hsize, and_iff_right h.1, ← List.append_assoc w]
      refine (ih false hval' (by rw [List.length_append]; omega) (by simp)).mono ?_
      rintro q ⟨hq, hsome, hnone⟩
      refine ⟨?_, hsome, hnone⟩
      rw [hq]
      simp only [List.length_append]
      omega
    · refine (concatLoop_stop hval hlen h es).mono ?_
      rintro q ⟨hq, hn⟩
      refine ⟨hq, fun hfit => absurd ?_ h, fun _ => hn⟩
      rw [entriesFit_cons] at hfit
      exact ⟨hfit.1, by have := hfit.2.2; omega⟩

/-- The append of `s` behind `w` when it fits, and what tells that it does not. -/
structure Appends (fits : Prop) (Z : Bytes → Prop) (w r s : Bytes) (q : Mem × ℤ) : Prop where
  length : q.1.length = (w ++ r).length
  room : fits → s.length < r.length
  done : fits → q.2 = s.length ∧ ∃ r', q.1 = w ++ s ++ r' ∧ Z r'
  full : ¬ fits → q.2 < 0 ∨ (r.length : ℤ) ≤ q.2

theorem snprintf_appends (w r s : Bytes) :
    Reads (snprintf (w ++ r) w.length r.length s)
      (Appends (s.length < r.length) (fun r' => r'.head? = some 0) w r s) := by
  refine (snprintf_spec w r s).mono ?_
  rintro q ⟨hlen, hn, hroom⟩
  refine ⟨hlen, id, fun h => ⟨hn, ?_⟩, fun h => .inr (by omega)⟩
  obtain ⟨r', hr'⟩ := hroom h
  exact ⟨0 :: r', hr', rfl⟩

theorem concat_appends (t : Table N) (valBuf : ValBuf) (hr : 0 < r.length) :
    Reads (lineProtocolConcatTableFields lua (some escapeSpaces) t valBuf (w ++ r) w.length r.length)
      (Appends (EntriesFit lua true t.entries r.length) (fun _ => True) w r (entriesText lua true t.entries)) := by
  have hspec := concatLoop_spec lua w (w := []) t.entries true valBuf.2 (Nat.zero_add _) hr
  rw [List.append_nil] at hspec
  refine hspec.mono ?_
  rintro q ⟨hlen, hsome, hnone⟩
  rw [List.nil_append] at hsome
  refine ⟨hlen, And.right, fun h => ⟨(hsome h).1, ?_⟩, fun h => .inl (by rw [hnone h]; decide)⟩
  obtain ⟨r', hr'⟩ := (hsome h).2
  exact ⟨r', hr', trivial⟩

/-- The text with its NUL when all fits, and otherwise -1 and an empty string. -/
structure Outcome (dstLineLen : ℕ) (fits : Prop) (text : Bytes) (q : Mem × ℤ) : Prop where
  length : q.1.length = dstLineLen
  done : fits → q.2 = text.length ∧ ∃ r, q.1 = text ++ 0 :: r
  full : ¬ fits → q.2 = -1 ∧ (dstLineLen ≠ 0 → q.1[0]? = some 0)

theorem append_spec {dstLineLen : ℕ} {fits rest : Prop} {Z : Bytes → Prop} {s text : Bytes} {res : Option (Mem × ℤ)}
    {next : Mem → ℕ → Option (Mem × ℤ)} (hlen : w.length + r.length = dstLineLen) (hres : Reads res (Appends fits Z w r s))
    (hnext : fits → ∀ r', Z r' → (w ++ s).length + r'.length = dstLineLen → 0 < r'.length →
      Reads (next (w ++ s ++ r') (w ++ s).length) (Outcome dstLineLen rest text)) :
    Reads (append dstLineLen res w.length next) (Outcome dstLineLen (fits ∧ rest) text) := by
  obtain ⟨⟨m, n⟩, rfl, ⟨hm, hroom, hdone, hfull⟩⟩ := hres
  rw [append, Option.bind_some]
  by_cases h : fits
  · obtain ⟨hn, r', hr', hz⟩ := hdone h
    have hlt := hroom h
    simp only at hn hr' hm
    have hsize : (w ++ s).length + r'.length = dstLineLen := by
      rw [hr', List.length_append, @List.length_append _ w r] at hm
      omega
    have hpos : 0 < r'.length := by
      rw [List.length_append] at hsize
      omega
    rw [if_neg (by rw [hn]; omega), hn, Int.toNat_natCast, hr', ← List.length_append, and_iff_right h]
    exact hnext h r' hz hsize hpos
  · have hstop := hfull h
    rw [if_pos (by omega)]
    refine (error_spec (by rw [hm, List.length_append]; omega)).mono ?_
    rintro q ⟨hq, hn, hnul⟩
    refine ⟨?_, fun hfit => absurd hfit.1 h, fun _ => ⟨hn, hnul⟩⟩
    rw [hq, hm, List.length_append, hlen]

end

theorem entriesText_false (es : List (Bytes × Value N)) :
    entriesText lua false es = es.flatMap fun e => ch ',' :: entryText lua e := by
  induction es with
  | nil => rfl
  | cons e es ih =>
    rw [entriesText_cons, ih, List.flatMap_cons]
    rfl

theorem entriesText_true (es : List (Bytes × Value N)) : entriesText lua true es = join (ch ',') (entryText lua) es := by
  cases es with
  | nil => rfl
  | cons e es =>
    rw [entriesText_cons, entriesText_false]
    rfl

/-- The comma behind the measurement is the one before the first tag. -/
theorem tagsText_eq (t : Table N) :
    (if t.entries.isEmpty then [] else [ch ',']) ++ entriesText lua true t.entries = tagsText lua t := by
  rw [tagsText, ← entriesText_false]
  cases t.entries with
  | nil => rfl
  | cons e es =>
    rw [entriesText_cons, entriesText_cons]
    rfl

theorem line_eq (a : Args N) :
    line lua a = cString a.schema ++ (if a.tags.entries.isEmpty then [] else [ch ',']) ++
      entriesText lua true a.tags.entries ++ [ch ' '] ++ entriesText lua true a.metrics.entries ++
        (ch ' ' :: (timeText a ++ [ch '\n'])) := by
  rw [line, ← tagsText_eq, ← entriesText_true]
  simp only [List.append_assoc, List.cons_append, List.nil_append]

/-- The line fits when each append does. -/
theorem fits_iff (a : Args N) (n : ℕ) :
    Fits lua a n ↔
      (cString a.schema ++ if a.tags.entries.isEmpty then [] else [ch ',']).length < n ∧
      EntriesFit lua true a.tags.entries
        (n - (cString a.schema ++ if a.tags.entries.isEmpty then [] else [ch ',']).length) ∧
      [ch ' '].length < n - (cString a.schema ++ (if a.tags.entries.isEmpty then [] else [ch ',']) ++
        entriesText lua true a.tags.entries).length ∧
      EntriesFit lua true a.metrics.entries (n - (cString a.schema ++ (if a.tags.entries.isEmpty then [] else [ch ',']) ++
        entriesText lua true a.tags.entries ++ [ch ' ']).length) ∧
      (ch ' ' :: (timeText a ++ [ch '\n'])).length < n - (cString a.schema ++
        (if a.tags.entries.isEmpty then [] else [ch ',']) ++ entriesText lua true a.tags.entries ++ [ch ' '] ++
        entriesText lua true a.metrics.entries).length ∧ True := by
  rw [Fits, line_eq, EntriesFit, EntriesFit]
  generalize cString a.schema ++ (if a.tags.entries.isEmpty then [] else [ch ',']) = s₁
  simp only [List.length_append]
  constructor
  · rintro ⟨htags, hmetrics, hlt⟩
    exact ⟨by omega, ⟨htags, by omega⟩, by omega, ⟨hmetrics, by omega⟩, by omega, trivial⟩
  · rintro ⟨-, ⟨htags, -⟩, -, ⟨hmetrics, -⟩, hlt, -⟩
    exact ⟨htags, hmetrics, by omega⟩

theorem writeLine_spec (lua : Lua N) (a : Args N) (tagsBuf metricsBuf : ValBuf) (dstLine : Mem) :
    Reads (lineProtocolWriteLine lua (some escapeSpaces) a tagsBuf metricsBuf dstLine dstLine.length)
      (Outcome dstLine.length (Fits lua a dstLine.length) (line lua a)) := by
  rw [fits_iff, line_eq, lineProtocolWriteLine]
  refine append_spec (w := []) (r := dstLine) (Nat.zero_add _) (snprintf_appends [] dstLine _) ?_
  intro _ r₁ _ hlen₁ hpos₁
  rw [List.nil_append] at hlen₁ ⊢
  rw [show dstLine.length - _ = r₁.length from Nat.sub_eq_of_eq_add' hlen₁.symm]
  refine append_spec hlen₁ (concat_appends a.tags tagsBuf hpos₁) ?_
  intro _ r₂ _ hlen₂ hpos₂
  rw [show dstLine.length - _ = r₂.length from Nat.sub_eq_of_eq_add' hlen₂.symm]
  refine append_spec hlen₂ (snprintf_appends _ r₂ _) ?_
  intro _ r₃ _ hlen₃ hpos₃
  rw [show dstLine.length - _ = r₃.length from Nat.sub_eq_of_eq_add' hlen₃.symm]
  refine append_spec hlen₃ (concat_appends a.metrics metricsBuf hpos₃) ?_
  intro _ r₄ _ hlen₄ hpos₄
  rw [show dstLine.length - _ = r₄.length from Nat.sub_eq_of_eq_add' hlen₄.symm]
  refine append_spec hlen₄ (snprintf_appends _ r₄ _) ?_
  intro _ r₅ hnul hlen₅ _
  refine reads_some ⟨?_, fun _ => ⟨rfl, r₅.tail, ?_⟩, fun h => absurd trivial h⟩
  · rw [List.length_append, hlen₅]
  · rw [List.cons_head?_tail hnul]
    rfl

end Ntopng.Text.LineWriter
