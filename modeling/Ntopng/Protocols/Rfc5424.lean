/-
  Ntopng.Protocols.Rfc5424 — the lines RFC 5424 allows, and what the parser makes of them
  (src/SyslogParserInterface.cpp).

  The grammar is a type: fields are printable and not empty, names of structured data have no
  `=`, `]` or quote, and values are any text, written with its escapes. A header ends with its
  structured data. A message is a space and then content, behind a byte order mark or not.

  Proved:
  - `parseLine_message`: of every header and message the parser returns the host, the
    application and the content.
  - `parseLine_bare`: the same header with no message behind it is refused as malformed, although
    the grammar allows it (`header_alone_refused`).
  - `messages_read`: both, and that no line is read past its NUL.
-/

import Ntopng.Protocols.Syslog

namespace Ntopng.Protocols.Rfc5424

open Ntopng.Lib.CString
open Ntopng.Lib.CNumber (isDigit)
open Ntopng.Protocols.Syslog

/-! ## The grammar -/

structure Token where
  bytes : List UInt8
  nonempty : bytes ≠ []
  printable : ∀ c ∈ bytes, 33 ≤ c ∧ c ≤ 126

structure Digits where
  bytes : List UInt8
  nonempty : bytes ≠ []
  digits : ∀ c ∈ bytes, isDigit c

/-- A time has a `T` between date and time; `-` stands for none. -/
structure Stamp extends Token where
  time : bytes = text "-" ∨ ch 'T' ∈ bytes

structure SdName extends Token where
  plain : ∀ c ∈ bytes, c ≠ ch '=' ∧ c ≠ ch ']' ∧ c ≠ ch '"'

structure Param where
  name : SdName
  value : List UInt8
  noNul : 0 ∉ value

structure Element where
  id : SdName
  params : List Param

structure Rfc5424Header where
  pri : Digits
  version : Digits
  timestamp : Stamp
  host : Token
  app : Token
  procId : Token
  msgId : Token
  elements : List Element

def bom : List UInt8 := [0xEF, 0xBB, 0xBF]

structure Content where
  mark : Bool
  msg : List UInt8
  noNul : 0 ∉ msg
  /-- Without a mark the content is not one that starts with it. -/
  bare : mark = false → ¬ bom <+: msg

/-! ## Written out -/

def escapeByte (c : UInt8) : List UInt8 :=
  if c = ch '"' ∨ c = ch '\\' ∨ c = ch ']' then [ch '\\', c] else [c]

def escape (v : List UInt8) : List UInt8 := v.flatMap escapeByte

def Param.write (p : Param) : List UInt8 :=
  ch ' ' :: (p.name.bytes ++ ch '=' :: ch '"' :: (escape p.value ++ [ch '"']))

def writeParams (ps : List Param) : List UInt8 := ps.flatMap Param.write

def Element.write (e : Element) : List UInt8 := ch '[' :: (e.id.bytes ++ (writeParams e.params ++ [ch ']']))

def writeElements (es : List Element) : List UInt8 := es.flatMap Element.write

def structuredData (es : List Element) : List UInt8 := if es = [] then text "-" else writeElements es

/-- The header from its version on, with `r` behind it. -/
def Rfc5424Header.fields (h : Rfc5424Header) (r : List UInt8) : List UInt8 :=
  h.version.bytes ++ ch ' ' :: (h.timestamp.bytes ++ ch ' ' :: (h.host.bytes ++ ch ' ' :: (h.app.bytes ++ ch ' ' ::
    (h.procId.bytes ++ ch ' ' :: (h.msgId.bytes ++ ch ' ' :: (structuredData h.elements ++ r))))))

def Rfc5424Header.before (h : Rfc5424Header) (r : List UInt8) : List UInt8 :=
  ch '<' :: (h.pri.bytes ++ ch '>' :: h.fields r)

def Content.write (c : Content) : List UInt8 := (if c.mark then bom else []) ++ c.msg

/-- What the grammar says a field is: `-` stands for none. -/
def Token.value (t : Token) : Option (List UInt8) := if t.bytes = text "-" then none else some t.bytes

/-! ## Bytes of the grammar -/

theorem Token.no_space (t : Token) : ch ' ' ∉ t.bytes := fun h => by
  have := (t.printable _ h).1
  revert this
  decide

theorem Token.no_nul (t : Token) : 0 ∉ t.bytes := fun h => by
  have := (t.printable _ h).1
  revert this
  decide

theorem Digits.no_byte (d : Digits) {c : UInt8} (hc : isDigit c = false) : c ∉ d.bytes := fun h => by
  rw [d.digits c h] at hc
  cases hc

theorem skipDigits_append {l : List UInt8} (h : ∀ c ∈ l, isDigit c) {c : UInt8} (hc : isDigit c = false) (r : List UInt8) :
    skipDigits (l ++ c :: r) = some l.length := by
  induction l with
  | nil =>
    unfold skipDigits
    simp only [List.nil_append, hc]
    rfl
  | cons d l ih =>
    rw [List.cons_append]
    unfold skipDigits
    rw [if_pos (h d (List.mem_cons_self ..)), ih fun c hc => h c (List.mem_cons_of_mem d hc)]
    rfl

/-! ## The scan of structured data -/

/-- The scan passes `w` and goes from one state to the other, whatever comes next. -/
def Passes (q q' : Bool) (w : List UInt8) : Prop := ∀ t, sdScan q (w ++ t) = (sdScan q' t).map (· + w.length)

theorem passes_nil (q : Bool) : Passes q q [] := fun t => by
  rw [List.nil_append]
  cases sdScan q t <;> rfl

theorem Passes.append {q q' q'' : Bool} {w w' : List UInt8} (h : Passes q q' w) (h' : Passes q' q'' w') :
    Passes q q'' (w ++ w') := fun t => by
  rw [List.append_assoc, h, h', Option.map_map, List.length_append]
  congr 1
  funext n
  simp only [Function.comp_apply]
  omega

theorem Passes.cons {q q' q'' : Bool} {c : UInt8} {w : List UInt8} (h : Passes q q' [c]) (h' : Passes q' q'' w) :
    Passes q q'' (c :: w) := h.append h'

theorem passes_flatMap {α : Type} {q : Bool} {f : α → List UInt8} {l : List α} (h : ∀ a ∈ l, Passes q q (f a)) :
    Passes q q (l.flatMap f) := by
  induction l with
  | nil => exact passes_nil q
  | cons a l ih =>
    rw [List.flatMap_cons]
    exact (h a (List.mem_cons_self ..)).append (ih fun b hb => h b (List.mem_cons_of_mem a hb))

theorem passes_quote (q : Bool) : Passes q (!q) [ch '"'] := fun t => sdScan_quote q t

/-- Outside of quotes only the NUL, quotes and brackets that close are special. -/
theorem passes_plain {c : UInt8} (h0 : c ≠ 0) (hq : c ≠ ch '"') (hb : c ≠ ch ']') : Passes false false [c] :=
  fun t => sdScan_step h0 hq (fun _ => rfl) (fun h => absurd h hb) t

theorem passes_token {l : List UInt8} (h : ∀ c ∈ l, c ≠ 0 ∧ c ≠ ch '"' ∧ c ≠ ch ']') : Passes false false l := by
  rw [show l = l.flatMap ([·]) by simp]
  exact passes_flatMap fun c hc => passes_plain (h c hc).1 (h c hc).2.1 (h c hc).2.2

theorem SdName.passes (n : SdName) : Passes false false n.bytes :=
  passes_token fun c hc => ⟨fun h => n.no_nul (h ▸ hc), (n.plain c hc).2.2, (n.plain c hc).2.1⟩

/-- Within quotes an escaped byte is passed with its backslash. -/
theorem passes_escapeByte {c : UInt8} (h0 : c ≠ 0) : Passes true true (escapeByte c) := by
  unfold escapeByte
  split
  · exact fun t => sdScan_escaped h0 t
  · rename_i h
    rw [not_or, not_or] at h
    exact fun t => sdScan_step h0 h.1 (fun hb => absurd hb h.2.1) (fun hc => absurd hc h.2.2) t

theorem passes_escape {v : List UInt8} (h : 0 ∉ v) : Passes true true (escape v) :=
  passes_flatMap fun _ hc => passes_escapeByte fun h0 => h (h0 ▸ hc)

theorem Param.passes (p : Param) : Passes false false p.write := by
  have space : Passes false false [ch ' '] := passes_plain (by decide) (by decide) (by decide)
  have equals : Passes false false [ch '='] := passes_plain (by decide) (by decide) (by decide)
  exact space.append (p.name.passes.append
    (equals.append ((passes_quote false).append ((passes_escape p.noNul).append (passes_quote true)))))

/-- An element up to the bracket that closes it. -/
theorem passes_element (e : Element) : Passes false false (ch '[' :: (e.id.bytes ++ writeParams e.params)) :=
  Passes.cons (passes_plain (by decide) (by decide) (by decide))
    (e.id.passes.append (passes_flatMap fun p _ => p.passes))

theorem sdScan_element (e : Element) (d : UInt8) (t : List UInt8) : sdScan false (e.write ++ d :: t) =
    if d = ch '[' then (sdScan false (d :: t)).map (· + e.write.length) else some e.write.length := by
  have hw : e.write = (ch '[' :: (e.id.bytes ++ writeParams e.params)) ++ [ch ']'] := by
    rw [List.cons_append, List.append_assoc]
    rfl
  rw [hw, List.append_assoc, passes_element e, List.singleton_append, sdScan_close, List.length_append]
  split
  · rw [Option.map_map]
    congr 1
    funext n
    simp only [Function.comp_apply, List.length_singleton]
    omega
  · rw [Option.map_some, List.length_singleton, Nat.add_comm]

theorem Element.write_cons (e : Element) : ∃ w, e.write = ch '[' :: w := ⟨_, rfl⟩

/-- By induction on the elements: one that is followed by another hands on, the last one stops. -/
theorem sdScan_elements {es : List Element} (hes : es ≠ []) {d : UInt8} (hd : d ≠ ch '[') (t : List UInt8) :
    sdScan false (writeElements es ++ d :: t) = some (writeElements es).length := by
  induction es with
  | nil => exact absurd rfl hes
  | cons e es ih =>
    unfold writeElements at ih ⊢
    rw [List.flatMap_cons, List.append_assoc]
    cases es with
    | nil => rw [List.flatMap_nil, List.nil_append, List.append_nil, sdScan_element, if_neg hd]
    | cons e' es =>
      have ih := ih (List.cons_ne_nil e' es)
      obtain ⟨w, hw⟩ := e'.write_cons
      rw [List.flatMap_cons, hw, List.cons_append] at ih ⊢
      rw [List.cons_append, sdScan_element, if_pos rfl, ← List.cons_append, ih, Option.map_some, List.length_append]
      congr 1
      rw [Nat.add_comm]

/-! ## Behind the header -/

variable {m : Mem} {p : ℕ}

/-- Structured data is followed by a space or by the end. -/
theorem skipStructuredData_drop (es : List Element) {d : UInt8} (hd : d = ch ' ' ∨ d = 0) (r : List UInt8)
    (h : m.drop p = structuredData es ++ d :: r) :
    skipStructuredData m p = some (if d = ch ' ' then some (p + (structuredData es).length + 1) else none) := by
  unfold structuredData at h ⊢
  by_cases hes : es = []
  · subst hes
    rw [if_pos rfl] at h ⊢
    have h0 : m[p]? = some (ch '-') := get_drop h
    have h1 : m[p + 1]? = some d := get_drop (drop_succ h)
    unfold skipStructuredData
    rw [h0, Option.bind_eq_bind, Option.bind_some, if_pos rfl, h1, Option.bind_some]
    rcases hd with rfl | rfl
    · rfl
    · rfl
  · rw [if_neg hes] at h ⊢
    obtain ⟨e, es', rfl⟩ := List.exists_cons_of_ne_nil hes
    obtain ⟨w, hw⟩ := e.write_cons
    have h0 : m[p]? = some (ch '[') := get_drop (by rw [h, writeElements, List.flatMap_cons, hw]; rfl)
    have hscan : sdScan false (m.drop p) = some (writeElements (e :: es')).length := by
      rw [h]
      refine sdScan_elements hes ?_ r
      rcases hd with rfl | rfl <;> decide
    have h1 : m[p + (writeElements (e :: es')).length]? = some d := by
      have hd : m.drop (p + (writeElements (e :: es')).length) = d :: r := by rw [← List.drop_drop, h, List.drop_left]
      exact get_drop hd
    unfold skipStructuredData
    rw [h0, Option.bind_eq_bind, Option.bind_some, if_neg (by decide), if_pos rfl, hscan, Option.bind_eq_bind,
      Option.bind_some, h1]
    rfl

theorem skipBom_cases {q : ℕ} (h : skipBom m p = some q) :
    q = p ∨ m[p]? = some 0xEF ∧ m[p + 1]? = some 0xBB ∧ m[p + 2]? = some 0xBF := by
  unfold skipBom at h
  obtain ⟨b0, h0, h⟩ := Option.bind_eq_some_iff.mp h
  by_cases e0 : b0 = 0xEF
  · rw [if_pos e0] at h
    obtain ⟨b1, h1, h⟩ := Option.bind_eq_some_iff.mp h
    by_cases e1 : b1 = 0xBB
    · rw [if_pos e1] at h
      obtain ⟨b2, h2, h⟩ := Option.bind_eq_some_iff.mp h
      by_cases e2 : b2 = 0xBF
      · exact Or.inr ⟨e0 ▸ h0, e1 ▸ h1, e2 ▸ h2⟩
      · rw [if_neg e2] at h
        exact Or.inl (Option.some.inj h).symm
    · rw [if_neg e1] at h
      exact Or.inl (Option.some.inj h).symm
  · rw [if_neg e0] at h
    exact Or.inl (Option.some.inj h).symm

theorem bom_start {s : List UInt8} (h0 : (s ++ [0])[0]? = some 0xEF) (h1 : (s ++ [0])[1]? = some 0xBB)
    (h2 : (s ++ [0])[2]? = some 0xBF) : bom <+: s := by
  rcases s with _ | ⟨a, _ | ⟨b, _ | ⟨c, s⟩⟩⟩
  · cases h0
  · cases h1
  · cases h2
  · obtain rfl : a = 0xEF := Option.some.inj h0
    obtain rfl : b = 0xBB := Option.some.inj h1
    obtain rfl : c = 0xBF := Option.some.inj h2
    exact ⟨s, rfl⟩

theorem skipBom_drop (c : Content) (h : m.drop p = c.write ++ [0]) :
    ∃ q, skipBom m p = some q ∧ m.drop q = c.msg ++ [0] := by
  obtain ⟨mark, msg, hn, bare⟩ := c
  cases mark with
  | true =>
    have h0 : m[p]? = some 0xEF := get_drop h
    have d1 := drop_succ h
    have h1 : m[p + 1]? = some 0xBB := get_drop d1
    have d2 := drop_succ d1
    have h2 : m[p + 2]? = some 0xBF := get_drop d2
    refine ⟨p + 3, ?_, drop_succ d2⟩
    unfold skipBom
    rw [h0, Option.bind_eq_bind, Option.bind_some, if_pos rfl, h1, Option.bind_some, if_pos rfl, h2, Option.bind_some,
      if_pos rfl]
  | false =>
    have h : m.drop p = msg ++ [0] := h
    obtain ⟨q, hq, -⟩ := skipBom_some (m := m) (p := p) (terminated_iff.mpr (by rw [h]; simp))
    rcases skipBom_cases hq with rfl | ⟨h0, h1, h2⟩
    · exact ⟨q, hq, h⟩
    · refine absurd (bom_start ?_ ?_ ?_) (bare rfl)
      · rw [← h, List.getElem?_drop, Nat.add_zero, h0]
      · rw [← h, List.getElem?_drop, h1]
      · rw [← h, List.getElem?_drop, h2]

/-! ## The header -/

theorem endOfField_drop (t : Token) {rest : List UInt8} (h : m.drop p = t.bytes ++ ch ' ' :: rest) (hr : 0 ∈ rest) :
    endOfField m p = some (some (p + t.bytes.length)) :=
  strchr_drop h t.no_space (by decide) t.no_nul hr

theorem kept_drop (t : Token) {rest : List UInt8} (h : m.drop p = t.bytes ++ 0 :: rest) :
    kept m p = some (if t.bytes = text "-" then none else some p) := by
  unfold kept
  rw [cstr_drop h t.no_nul]
  rfl

/-- What is kept of a field reads as the field, also once a NUL is written further on. -/
theorem optCstr_kept (t : Token) {rest : List UInt8} (h : m.drop p = t.bytes ++ 0 :: rest) :
    optCstr m (if t.bytes = text "-" then none else some p) = some t.value := by
  unfold Token.value
  split
  · rfl
  · show (cstr m p).map some = _
    rw [cstr_drop h t.no_nul]
    rfl

theorem andThen_some {α β : Type} (a : α) (f : α → Option (Option β)) : andThen (some (some a)) f = f a := rfl

/-- Of the header are left a host and an application, and a pointer to its structured data. -/
theorem parseRFC5424Header_drop (x : Rfc5424Header) {r : List UInt8} (hr : 0 ∈ r) (h : m.drop p = x.fields r) :
    ∃ m' device application q, parseRFC5424Header m p = parseContent m' device application q ∧
      m'.drop q = structuredData x.elements ++ r ∧ optCstr m' device = some x.host.value ∧
      optCstr m' application = some x.app.value := by
  have h1 : endOfField m p = some (some (p + x.version.bytes.length)) :=
    strchr_drop h (x.version.no_byte rfl) (by decide) (x.version.no_byte rfl) (by simp [hr])
  have d1 := drop_next h
  have h2 := endOfField_drop x.timestamp.toToken d1 (by simp [hr])
  have d2 := drop_next d1
  have h3 := endOfField_drop x.host d2 (by simp [hr])
  have c3 := drop_cut d2
  have d3 := drop_cut_next d2
  have h4 := endOfField_drop x.app d3 (by simp [hr])
  have c4 := drop_cut d3
  have d4 := drop_cut_next d3
  have h5 := endOfField_drop x.procId d4 (by simp [hr])
  have d5 := drop_next d4
  have h6 := endOfField_drop x.msgId d5 (by simp [hr])
  have d6 := drop_next d5
  obtain ⟨_, c5⟩ := drop_cut_behind c3 (Nat.lt_of_lt_of_le (Nat.lt_succ_self _) (Nat.le_add_right _ x.app.bytes.length))
  refine ⟨_, _, _, _, ?_, d6, optCstr_kept x.host c5, optCstr_kept x.app c4⟩
  unfold parseRFC5424Header
  rw [h1, andThen_some, h2, andThen_some, h3, andThen_some]
  show (kept (cut m _) _).bind _ = _
  rw [kept_drop x.host c3, Option.bind_some, h4, andThen_some]
  show (kept (cut (cut m _) _) _).bind _ = _
  rw [kept_drop x.app c4, Option.bind_some, h5, andThen_some, h6, andThen_some]

theorem text_dash : text "-" = [ch '-'] := by decide

theorem isRFC5424Header_drop (x : Rfc5424Header) {r : List UInt8} (hr : 0 ∈ r) (h : m.drop p = x.fields r) :
    isRFC5424Header m p = some true := by
  have hd : skipDigits (m.drop p) = some x.version.bytes.length := by
    rw [h]
    exact skipDigits_append x.version.digits rfl _
  have hc : m[p + x.version.bytes.length]? = some (ch ' ') := by
    have hd := congrArg (List.drop x.version.bytes.length) h
    rw [List.drop_drop, Rfc5424Header.fields, List.drop_left] at hd
    exact get_drop hd
  have d1 := drop_next h
  have hs := strchr_drop d1 x.timestamp.no_space (by decide) x.timestamp.no_nul (by simp [hr])
  have hn : ¬ (x.version.bytes.length = 0 ∨ ch ' ' ≠ ch ' ') := by
    rintro (h0 | h0)
    · exact x.version.nonempty (List.length_eq_zero_iff.mp h0)
    · exact h0 rfl
  unfold isRFC5424Header
  rw [hd, Option.bind_eq_bind, Option.bind_some, hc, Option.bind_eq_bind, Option.bind_some, if_neg hn]
  show (strchr m _ _).bind _ = _
  rw [hs, Option.bind_some]
  have ht := x.timestamp.time
  rw [text_dash] at ht
  simp only [Nat.add_sub_cancel_left]
  rw [d1, List.take_left, decide_eq_true ht]

/-! ## Lines -/

/-- The header's line with `r` behind the structured data, the NUL included. -/
theorem parseLine_before (x : Rfc5424Header) {r : List UInt8} (hr : 0 ∈ r) :
    ∃ m p prio, m.drop p = x.fields r ∧ parseLine (x.before r) = classify m prio none p := by
  have hr' : 0 ∈ x.fields r := by simp [Rfc5424Header.fields, hr]
  have d1 : (x.before r).drop 1 = x.pri.bytes ++ ch '>' :: x.fields r := rfl
  have hlt : strchr (x.before r) 0 (ch '<') = some (some 0) :=
    strchr_here (p := 0) rfl (by decide) (by simp [hr'])
  have hgt := strchr_drop d1 (x.pri.no_byte rfl) (by decide) (x.pri.no_byte rfl) hr'
  refine ⟨_, _, 1, drop_cut_next d1, ?_⟩
  have h0 : (x.before r)[0]? = some (ch '<') := rfl
  unfold parseLine
  rw [h0, Option.bind_eq_bind, Option.bind_some, if_neg (by decide), if_neg (by decide), hlt, Option.bind_eq_bind,
    Option.bind_some]
  show (strchr (x.before r) (0 + 1) (ch '>')).bind _ = _
  rw [hgt]
  rfl

theorem classify_fields (x : Rfc5424Header) {r : List UInt8} (hr : 0 ∈ r) (h : m.drop p = x.fields r) (prio : ℕ) :
    ∃ m' device application q, m'.drop q = structuredData x.elements ++ r ∧ optCstr m' device = some x.host.value ∧
      optCstr m' application = some x.app.value ∧ classify m prio none p = (parseContent m' device application q).map (ofHeader prio none) := by
  obtain ⟨m', device, application, q, hp, hq, hd, ha⟩ := parseRFC5424Header_drop x hr h
  refine ⟨m', device, application, q, hq, hd, ha, ?_⟩
  unfold classify
  rw [isRFC5424Header_drop x hr h, Option.bind_eq_bind, Option.bind_some, if_pos rfl, hp]
  cases parseContent m' device application q <;> rfl

/-- What the grammar reads off a message the parser returns. -/
theorem parseLine_message (x : Rfc5424Header) (c : Content) :
    ∃ l, parseLine (x.before (ch ' ' :: (c.write ++ [0]))) = some (.line true l) ∧
      optCstr l.mem l.device = some x.host.value ∧ optCstr l.mem l.application = some x.app.value ∧
      cstr l.mem l.content = some c.msg := by
  have hr : 0 ∈ ch ' ' :: (c.write ++ [0]) := by simp
  obtain ⟨m, p, prio, hm, hline⟩ := parseLine_before x hr
  obtain ⟨m', device, application, q, hq, hd, ha, hc⟩ := classify_fields x hr hm prio
  obtain ⟨content, hb, hcontent⟩ := skipBom_drop c (drop_next hq)
  refine ⟨⟨m', some prio, none, none, device, application, content⟩, ?_, hd, ha, cstr_drop hcontent c.noNul⟩
  rw [hline, hc]
  unfold parseContent
  rw [skipStructuredData_drop x.elements (Or.inl rfl) _ hq, if_pos rfl, andThen_some, hb]
  rfl

/-- Nor is there a message for a header alone. -/
theorem parseLine_bare (x : Rfc5424Header) : parseLine (x.before [0]) = some (.exit true) := by
  have hr : (0 : UInt8) ∈ [0] := List.mem_singleton_self 0
  obtain ⟨m, p, prio, hm, hline⟩ := parseLine_before x hr
  obtain ⟨m', device, application, q, hq, -, -, hc⟩ := classify_fields x hr hm prio
  rw [hline, hc]
  unfold parseContent
  rw [skipStructuredData_drop x.elements (Or.inr rfl) _ hq]
  rfl

/-- Messages are read as the grammar says and headers alone refused; and whatever the bytes, the
    parser returns without a read past the NUL. -/
theorem messages_read :
    (∀ (x : Rfc5424Header) (c : Content),
      ∃ l, parseLine (x.before (ch ' ' :: (c.write ++ [0]))) = some (.line true l) ∧
        optCstr l.mem l.device = some x.host.value ∧ optCstr l.mem l.application = some x.app.value ∧
        cstr l.mem l.content = some c.msg) ∧
    (∀ x : Rfc5424Header, parseLine (x.before [0]) = some (.exit true)) ∧
    ∀ (env : Env) (clientIp : Option (List UInt8)) (s : List UInt8), (parseLog env (some (s ++ [0])) clientIp).isSome := by
  refine ⟨parseLine_message, parseLine_bare, fun env clientIp s => ?_⟩
  have hs : Terminated (s ++ [0]) 0 := terminated_iff.mpr (by simp)
  obtain ⟨o, ho, -⟩ := parseLog_some env clientIp hs
  rw [ho]
  rfl

def dash : Token := ⟨[ch '-'], by decide, List.all_iff_forall_prop.mp (by decide)⟩

/-- `<13>1 - host app - - -` -/
def alone : Rfc5424Header where
  pri := ⟨[ch '1', ch '3'], by decide, List.all_iff_forall_prop.mp (by decide)⟩
  version := ⟨[ch '1'], by decide, List.all_iff_forall_prop.mp (by decide)⟩
  timestamp := ⟨dash, Or.inl text_dash.symm⟩
  host := ⟨[ch 'h', ch 'o', ch 's', ch 't'], by decide, List.all_iff_forall_prop.mp (by decide)⟩
  app := ⟨[ch 'a', ch 'p', ch 'p'], by decide, List.all_iff_forall_prop.mp (by decide)⟩
  procId := dash
  msgId := dash
  elements := []

/-- A line may end with its structured data, but then its host and application are not returned. -/
theorem header_alone_refused : alone.before [] = text "<13>1 - host app - - -" ∧
    ¬ ∃ l, parseLine (alone.before [] ++ [0]) = some (.line true l) ∧
      optCstr l.mem l.device = some alone.host.value ∧ optCstr l.mem l.application = some alone.app.value ∧
      cstr l.mem l.content = some [] := by
  refine ⟨by decide, ?_⟩
  rintro ⟨l, hl, -⟩
  have : parseLine (alone.before [] ++ [0]) = some (.exit true) := by decide
  rw [this] at hl
  cases hl

end Ntopng.Protocols.Rfc5424
