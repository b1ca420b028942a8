/-
  Ntopng.Protocols.Syslog — log lines (src/SyslogParserInterface.cpp).

  A line is taken apart in place: pointers into it are kept, and NULs written where its parts
  end. A line with the header of RFC 5424 is parsed field by field up to its structured data,
  which is scanned with a state for quotes; others are searched for what applications usually
  write. What names the producer of the log is looked up last.

  The line is a memory that ends with its NUL. `none` is a read past it. The producer mapping
  (`Env`) is a parameter; the dump of the line belongs to another edition.

  Proved: `parseLog_some`: for every byte string the parser stays within the line.
-/

import Ntopng.Lib.CNumber

namespace Ntopng.Protocols.Syslog

open Ntopng.Lib.CString Ntopng.Lib.CNumber

structure Env where
  getProducerName : List UInt8 → Option (List UInt8)
  /-- There is an engine to hand events to. -/
  engine : Bool

/-! ## RFC 5424 -/

/-- How many bytes the loop over digits passes. -/
def skipDigits : List UInt8 → Option ℕ
  | [] => none
  | c :: s => if isDigit c then (skipDigits s).map (· + 1) else some 0

def isRFC5424Header (m : Mem) (logLine : ℕ) : Option Bool := do
  let n ← skipDigits (m.drop logLine)
  let c ← m[logLine + n]?
  if n = 0 ∨ c ≠ ch ' ' then some false
  else
    let ts := logLine + n + 1
    let tsEnd ← strchr m ts (ch ' ')
    match tsEnd with
    | none => some false
    | some tsEnd =>
      let stamp := (m.drop ts).take (tsEnd - ts)
      some (decide (stamp = [ch '-'] ∨ ch 'T' ∈ stamp))

structure Header where
  mem : Mem
  device : Option ℕ
  application : Option ℕ
  content : ℕ
  deriving DecidableEq, Repr

/-- The scan of structured data; `quotes` while between quotes. The result is how many bytes it passed. -/
def sdScan (quotes : Bool) : List UInt8 → Option ℕ
  | [] => none
  | c :: s =>
    if c = 0 then some 0
    else if c = ch '\\' ∧ quotes = true then
      match s with
      | [] => none
      | d :: s' => if d ≠ 0 then (sdScan quotes s').map (· + 2) else (sdScan quotes (d :: s')).map (· + 1)
    else if c = ch '"' then (sdScan (!quotes) s).map (· + 1)
    else if c = ch ']' ∧ quotes = false then
      match s with
      | [] => none
      | d :: s' => if d = ch '[' then (sdScan quotes (d :: s')).map (· + 1) else some 1
    else (sdScan quotes s).map (· + 1)

/-- From the structured data to the content, unless there is none. What starts otherwise is content. -/
def skipStructuredData (m : Mem) (p : ℕ) : Option (Option ℕ) := do
  let c ← m[p]?
  if c = ch '-' then
    let d ← m[p + 1]?
    some (if d = ch ' ' then some (p + 2) else if d = 0 then none else some p)
  else if c = ch '[' then
    let n ← sdScan false (m.drop p)
    let d ← m[p + n]?
    some (if d = ch ' ' then some (p + n + 1) else none)
  else some (some p)

def skipBom (m : Mem) (p : ℕ) : Option ℕ := do
  let b0 ← m[p]?
  if b0 = 0xEF then
    let b1 ← m[p + 1]?
    if b1 = 0xBB then
      let b2 ← m[p + 2]?
      some (if b2 = 0xBF then p + 3 else p)
    else some p
  else some p

/-- The next field: where its space was. -/
def endOfField (m : Mem) (p : ℕ) : Option (Option ℕ) := strchr m p (ch ' ')

/-- A field whose string is kept; `-` stands for none. -/
def kept (m : Mem) (p : ℕ) : Option (Option ℕ) := (cstr m p).map fun s => if s = text "-" then none else some p

/-- `none` inside is what the source returns as false. -/
def andThen {α β : Type} (x : Option (Option α)) (f : α → Option (Option β)) : Option (Option β) :=
  match x with
  | none => none
  | some none => some none
  | some (some a) => f a

def parseContent (m : Mem) (device application : Option ℕ) (p : ℕ) : Option (Option Header) :=
  andThen (skipStructuredData m p) fun p => (skipBom m p).map fun content => some ⟨m, device, application, content⟩

def parseRFC5424Header (m : Mem) (logLine : ℕ) : Option (Option Header) :=
  andThen (endOfField m logLine) fun version =>
  andThen (endOfField m (version + 1)) fun timestamp =>
  andThen (endOfField m (timestamp + 1)) fun host =>
    let m := cut m host
    (kept m (timestamp + 1)).bind fun device =>
      andThen (endOfField m (host + 1)) fun app =>
        let m := cut m app
        (kept m (host + 1)).bind fun application =>
          andThen (endOfField m (app + 1)) fun procId =>
          andThen (endOfField m (procId + 1)) fun msgId => parseContent m device application (msgId + 1)

/-! ## Lines -/

structure Line where
  mem : Mem
  prio : Option ℕ
  parsedClientIp : Option ℕ
  producer : Option (List UInt8)
  device : Option ℕ
  application : Option ℕ
  content : ℕ
  deriving DecidableEq, Repr

inductive Parsed where
  | exit (malformed : Bool)
  /-- `counted` as an event. -/
  | line (counted : Bool) (l : Line)
  deriving DecidableEq, Repr

/-- `APPLICATION[PID]: `, found at `tmp`. -/
def parseBracket (m : Mem) (p tmp : ℕ) : Option (Mem × Option ℕ × Option ℕ) := do
  let m := cut m (tmp + 1)
  let bracket ← strrchr m p (ch '[')
  match bracket with
  | none => some (m, none, none)
  | some bracket =>
    let m := cut m bracket
    let app ← strrchr m p (ch ' ')
    match app with
    | none => some (m, none, none)
    | some app =>
      let m := cut m app
      let dev ← strrchr m p (ch ' ')
      some (m, dev.map (· + 1), some (app + 1))

/-- `APPLICATION: `, found at `tmp`. The application is not kept. -/
def parseColon (m : Mem) (p tmp : ℕ) : Option (Mem × Option ℕ) := do
  let m := cut m tmp
  let app ← strrchr m p (ch ' ')
  match app with
  | none => some (m, none)
  | some app =>
    let m := cut m app
    let dev ← strrchr m p (ch ' ')
    some (m, dev.map (· + 1))

/-- Lines that are not of RFC 5424. -/
def parsePlain (m : Mem) (prio : ℕ) (ip : Option ℕ) (p : ℕ) : Option Parsed := do
  let s ← cstr m p
  if (text "date=").isPrefixOf s then some (.line true ⟨m, some prio, ip, some (text "fortinet"), none, none, p⟩)
  else
    let bracket ← strstr m p (text "]: ")
    match bracket with
    | some tmp => do
      let (m, device, application) ← parseBracket m p tmp
      some (.line true ⟨m, some prio, ip, none, device, application, tmp + 3⟩)
    | none => do
      let colon ← strstr m p (text ": ")
      match colon with
      | some tmp => do
        let (m, device) ← parseColon m p tmp
        some (.line true ⟨m, some prio, ip, none, device, none, tmp + 2⟩)
      | none => some (.line true ⟨m, some prio, ip, none, none, none, p⟩)

def ofHeader (prio : ℕ) (ip : Option ℕ) : Option Header → Parsed
  | none => .exit true
  | some h => .line true ⟨h.mem, some prio, ip, none, h.device, h.application, h.content⟩

/-- What follows the priority. -/
def classify (m : Mem) (prio : ℕ) (ip : Option ℕ) (p : ℕ) : Option Parsed := do
  let rfc ← isRFC5424Header m p
  if rfc then
    let h ← parseRFC5424Header m p
    some (ofHeader prio ip h)
  else parsePlain m prio ip p

/-- `TIMESTAMP;HOST; ` before the priority. -/
def parseClientIp (m : Mem) (prio : ℕ) : Option (Mem × Option ℕ) :=
  if prio = 0 then some (m, none)
  else do
    let m := cut m prio
    let semicolon ← strchr m 0 (ch ';')
    match semicolon with
    | none => some (m, none)
    | some i => do
      let tmp ← strchr m (i + 1) (ch ';')
      some (tmp.elim m (cut m), some (i + 1))

def parseLine (m : Mem) : Option Parsed := do
  let first ← m[0]?
  if first = 0 then some (.exit false)
  else if first = ch '\x7b' then some (.line false ⟨m, none, none, none, none, none, 0⟩)
  else
    let lt ← strchr m 0 (ch '<')
    match lt with
    | none => some (.exit true)
    | some lt => do
      let (m, ip) ← parseClientIp m lt
      let gt ← strchr m (lt + 1) (ch '>')
      match gt with
      | none => some (.exit true)
      | some gt => classify (cut m gt) (lt + 1) ip (gt + 1)

/-! ## Events -/

structure Event where
  producer : List UInt8
  content : List UInt8
  clientIp : Option (List UInt8)
  prio : Int
  deriving DecidableEq, Repr

structure Outcome where
  event : Option Event
  totalEvents : ℕ
  malformed : ℕ
  deriving DecidableEq, Repr

/-- The name at `p` is normalized and handed to `lookup`, unless the producer is known already. -/
def lookupAt (lookup : List UInt8 → Option (List UInt8)) (p : Option ℕ) (x : Mem × Option (List UInt8)) :
    Option (Mem × Option (List UInt8)) :=
  match x.2, p with
  | none, some p => do
    let m ← mapString x.1 p toLower
    let name ← cstr m p
    some (m, lookup name)
  | _, _ => some x

def detectProducer (env : Env) (clientIp : Option (List UInt8)) (l : Line) : Option (Mem × Option (List UInt8)) := do
  let x ← lookupAt env.getProducerName l.parsedClientIp (l.mem, l.producer)
  let x ← lookupAt env.getProducerName l.device x
  let x := (x.1, x.2.orElse fun _ => clientIp.bind env.getProducerName)
  let x ← lookupAt some l.application x
  some (x.1, x.2.orElse fun _ => env.getProducerName (text "*"))

/-- The string of a pointer that may be NULL. -/
def optCstr (m : Mem) : Option ℕ → Option (Option (List UInt8))
  | none => some none
  | some p => (cstr m p).map some

def dispatch (env : Env) (clientIp : Option (List UInt8)) (counted : Bool) (l : Line) : Option Outcome := do
  let (m, producer) ← detectProducer env clientIp l
  match producer with
  | none => some ⟨none, counted.toNat, 0⟩
  | some producer => do
    let content ← cstr m l.content
    let ip ← optCstr m l.parsedClientIp
    let prio ← optCstr m l.prio
    let event : Event := ⟨producer, content, ip.orElse fun _ => clientIp, prio.elim 0 atoi⟩
    some ⟨if env.engine then some event else none, counted.toNat, 0⟩

/-- `none` is the NULL line. -/
def parseLog (env : Env) (logLine : Option Mem) (clientIp : Option (List UInt8)) : Option Outcome :=
  match logLine with
  | none => some ⟨none, 0, 0⟩
  | some m => do
    let parsed ← parseLine m
    match parsed with
    | .exit malformed => some ⟨none, 0, malformed.toNat⟩
    | .line counted l => dispatch env clientIp counted l

/-! ## Staying within the line -/

variable {m : Mem} {p : ℕ}

theorem skipDigits_some {l : List UInt8} (h : 0 ∈ l) : Reads (skipDigits l) fun n => 0 ∈ l.drop n := by
  induction l with
  | nil => cases h
  | cons c l ih =>
    unfold skipDigits
    by_cases hc : isDigit c
    · rw [if_pos hc]
      refine (ih (List.mem_of_ne_of_mem ?_ h)).map fun n hn => hn
      rintro rfl
      cases hc
    · rw [if_neg hc]
      exact reads_some h

theorem isRFC5424Header_some (h : Terminated m p) : Reads (isRFC5424Header m p) fun _ => True := by
  refine (skipDigits_some (terminated_iff.mp h)).bind fun n hn => ?_
  rw [List.drop_drop, ← terminated_iff] at hn
  refine hn.get.bind fun c hc => ?_
  split
  · exact reads_some trivial
  · rename_i hsp
    have hc' : c = ch ' ' := not_not.mp fun hne => hsp (Or.inr hne)
    subst hc'
    refine (strchr_some (hc (by decide)) _).bind fun r hr => ?_
    cases r
    · exact reads_some trivial
    · exact reads_some trivial

theorem sdScan_nul (q : Bool) (s : List UInt8) : sdScan q (0 :: s) = some 0 := by
  cases s <;> rfl

theorem sdScan_escaped {d : UInt8} (hd : d ≠ 0) (s : List UInt8) :
    sdScan true (ch '\\' :: d :: s) = (sdScan true s).map (· + 2) := if_pos hd

theorem sdScan_quote (q : Bool) (s : List UInt8) : sdScan q (ch '"' :: s) = (sdScan (!q) s).map (· + 1) := by
  cases s <;> rfl

theorem sdScan_close (d : UInt8) (s : List UInt8) :
    sdScan false (ch ']' :: d :: s) = if d = ch '[' then (sdScan false (d :: s)).map (· + 1) else some 1 := rfl

/-- The other bytes, and a backslash before the NUL. -/
theorem sdScan_step {q : Bool} {c : UInt8} (h0 : c ≠ 0) (hq : c ≠ ch '"') (hb : c = ch '\\' → q = false)
    (hc : c = ch ']' → q = true) (s : List UInt8) : sdScan q (c :: s) = (sdScan q s).map (· + 1) := by
  rw [sdScan.eq_def]
  simp only [if_neg h0, if_neg hq]
  rw [if_neg (fun h => by rw [hb h.1] at h; cases h.2), if_neg (fun h => by rw [hc h.1] at h; cases h.2)]

/-- The scan stops at the NUL at the latest. -/
theorem sdScan_some (q : Bool) {l : List UInt8} (h : 0 ∈ l) : Reads (sdScan q l) fun n => 0 ∈ l.drop n := by
  induction hn : l.length using Nat.strong_induction_on generalizing q l with
  | _ n ih =>
    subst hn
    cases l with
    | nil => cases h
    | cons c s =>
      by_cases h0 : c = 0
      · subst h0
        exact ⟨0, sdScan_nul q s, h⟩
      · have hs : 0 ∈ s := List.mem_of_ne_of_mem (Ne.symm h0) h
        have step : ∀ q', Reads ((sdScan q' s).map (· + 1)) fun n => 0 ∈ (c :: s).drop n := fun q' =>
          (ih s.length (Nat.lt_succ_self _) q' hs rfl).map fun n hn => hn
        by_cases hq : c = ch '"'
        · subst hq
          rw [sdScan_quote]
          exact step _
        · by_cases hb : c = ch '\\' ∧ q = true
          · obtain ⟨rfl, rfl⟩ := hb
            cases s with
            | nil => cases hs
            | cons d s =>
              by_cases hd : d = 0
              · subst hd
                exact step true
              · rw [sdScan_escaped hd]
                exact (ih s.length (by rw [List.length_cons, List.length_cons]; omega) true
                  (List.mem_of_ne_of_mem (Ne.symm hd) hs) rfl).map fun n hn => hn
          · by_cases hc : c = ch ']' ∧ q = false
            · obtain ⟨rfl, rfl⟩ := hc
              cases s with
              | nil => cases hs
              | cons d s =>
                rw [sdScan_close]
                split
                · exact step false
                · exact reads_some hs
            · rw [sdScan_step h0 hq (fun h => Bool.not_eq_true _ ▸ fun h' => hb ⟨h, h'⟩)
                (fun h => Bool.not_eq_false _ ▸ fun h' => hc ⟨h, h'⟩)]
              exact step q

/-- Pointers that are kept are NULL or have a NUL ahead. -/
def Ahead (m : Mem) (o : Option ℕ) : Prop := ∀ p, o = some p → Terminated m p

theorem ahead_none : Ahead m none := fun _ h => by cases h

theorem ahead_some (h : Terminated m p) : Ahead m (some p) := fun _ hq => Option.some.inj hq ▸ h

theorem Ahead.cut {o : Option ℕ} (h : Ahead m o) (q : ℕ) : Ahead (cut m q) o := fun p hp => (h p hp).cut q

theorem skipStructuredData_some (h : Terminated m p) : Reads (skipStructuredData m p) (Ahead m) := by
  refine h.get.bind fun c hc => ?_
  split
  · rename_i hd
    subst hd
    refine (hc (by decide)).get.bind fun d hd => reads_some ?_
    split
    · rename_i hs
      exact ahead_some (hd (hs ▸ by decide))
    · split
      · exact ahead_none
      · exact ahead_some h
  · split
    · refine (sdScan_some false (terminated_iff.mp h)).bind fun n hn => ?_
      rw [List.drop_drop, ← terminated_iff] at hn
      refine hn.get.bind fun d hd => reads_some ?_
      split
      · rename_i hs
        exact ahead_some (hd (hs ▸ by decide))
      · exact ahead_none
    · exact reads_some (ahead_some h)

theorem skipBom_some (h : Terminated m p) : Reads (skipBom m p) (Terminated m) := by
  refine h.get.bind fun b0 h0 => ?_
  split
  · rename_i e0
    have t1 := h0 (e0 ▸ by decide)
    refine t1.get.bind fun b1 h1 => ?_
    split
    · rename_i e1
      have t2 := h1 (e1 ▸ by decide)
      refine t2.get.bind fun b2 h2 => reads_some ?_
      split
      · rename_i e2
        exact h2 (e2 ▸ by decide)
      · exact h
    · exact reads_some h
  · exact reads_some h

theorem endOfField_some (h : Terminated m p) :
    Reads (endOfField m p) fun o => ∀ i, o = some i → p ≤ i ∧ Terminated m (i + 1) :=
  strchr_some h (ch ' ')

theorem kept_some (h : Terminated m p) : Reads (kept m p) (Ahead m) := by
  refine (cstr_some h).map fun s _ => ?_
  split
  · exact ahead_none
  · exact ahead_some h

theorem Reads.andThen {α β : Type} {P : α → Prop} {Q : β → Prop} {x : Option (Option α)} {f : α → Option (Option β)}
    (hx : Reads x fun o => ∀ a, o = some a → P a) (hf : ∀ a, P a → Reads (f a) fun o => ∀ b, o = some b → Q b) :
    Reads (andThen x f) fun o => ∀ b, o = some b → Q b := by
  obtain ⟨o, rfl, ho⟩ := hx
  cases o with
  | none => exact reads_some fun _ h => by cases h
  | some a => exact hf a (ho a rfl)

/-- `keeps`: what had a NUL ahead in `m` still has. -/
structure HeaderOk (m : Mem) (h : Header) : Prop where
  keeps : ∀ q, Terminated m q → Terminated h.mem q
  device : Ahead h.mem h.device
  application : Ahead h.mem h.application
  content : Terminated h.mem h.content

theorem parseContent_some {device application : Option ℕ} (hd : Ahead m device) (ha : Ahead m application)
    (h : Terminated m p) : Reads (parseContent m device application p) fun o => ∀ b, o = some b → HeaderOk m b :=
  Reads.andThen (skipStructuredData_some h) fun _ hq =>
    (skipBom_some hq).map fun _ hc _ hb => Option.some.inj hb ▸ ⟨fun _ h => h, hd, ha, hc⟩

theorem parseRFC5424Header_some (h : Terminated m p) :
    Reads (parseRFC5424Header m p) fun o => ∀ b, o = some b → HeaderOk m b := by
  unfold parseRFC5424Header
  refine Reads.andThen (endOfField_some h) fun version hv => ?_
  refine Reads.andThen (endOfField_some hv.2) fun timestamp ht => ?_
  refine Reads.andThen (endOfField_some ht.2) fun host hh => ?_
  have hdev : Terminated (cut m host) (timestamp + 1) := ht.2.cut host
  refine (kept_some hdev).bind fun device hd => ?_
  refine Reads.andThen (endOfField_some (hh.2.cut host)) fun app ha => ?_
  have happ : Terminated (cut (cut m host) app) (host + 1) := (hh.2.cut host).cut app
  refine (kept_some happ).bind fun application happ => ?_
  refine Reads.andThen (endOfField_some (ha.2.cut app)) fun procId hp => ?_
  refine Reads.andThen (endOfField_some hp.2) fun msgId hm => ?_
  refine (parseContent_some (hd.cut app) happ hm.2).mono fun o ho b hb => ?_
  exact { ho b hb with keeps := fun q hq => (ho b hb).keeps q ((hq.cut host).cut app) }

structure LineOk (l : Line) : Prop where
  prio : Ahead l.mem l.prio
  parsedClientIp : Ahead l.mem l.parsedClientIp
  device : Ahead l.mem l.device
  application : Ahead l.mem l.application
  content : Terminated l.mem l.content

def ParsedOk (r : Parsed) : Prop := ∀ counted l, r = .line counted l → LineOk l

theorem parsedOk_line {counted : Bool} {l : Line} (h : LineOk l) : ParsedOk (.line counted l) := by
  rintro _ _ ⟨⟩
  exact h

theorem parsedOk_exit (b : Bool) : ParsedOk (.exit b) := fun _ _ h => by cases h

theorem parseBracket_some (h : Terminated m p) (tmp : ℕ) :
    Reads (parseBracket m p tmp) fun r => (∀ q, Terminated m q → Terminated r.1 q) ∧ Ahead r.1 r.2.1 ∧ Ahead r.1 r.2.2 := by
  have h1 := h.cut (tmp + 1)
  refine (strrchr_some h1 _).bind fun bracket hb => ?_
  cases bracket with
  | none => exact reads_some ⟨fun q hq => hq.cut _, ahead_none, ahead_none⟩
  | some bracket =>
    have h2 := h1.cut bracket
    refine (strrchr_some h2 _).bind fun app ha => ?_
    cases app with
    | none => exact reads_some ⟨fun q hq => (hq.cut _).cut _, ahead_none, ahead_none⟩
    | some app =>
      have h3 := h2.cut app
      refine (strrchr_some h3 _).bind fun dev hd => ?_
      refine reads_some ⟨fun q hq => ((hq.cut _).cut _).cut _, ?_, ahead_some (((ha app rfl).2).cut app)⟩
      cases dev with
      | none => exact ahead_none
      | some dev => exact ahead_some (hd dev rfl).2

theorem parseColon_some (h : Terminated m p) (tmp : ℕ) :
    Reads (parseColon m p tmp) fun r => (∀ q, Terminated m q → Terminated r.1 q) ∧ Ahead r.1 r.2 := by
  have h1 := h.cut tmp
  refine (strrchr_some h1 _).bind fun app ha => ?_
  cases app with
  | none => exact reads_some ⟨fun q hq => hq.cut _, ahead_none⟩
  | some app =>
    have h2 := h1.cut app
    refine (strrchr_some h2 _).bind fun dev hd => ?_
    refine reads_some ⟨fun q hq => (hq.cut _).cut _, ?_⟩
    cases dev with
    | none => exact ahead_none
    | some dev => exact ahead_some (hd dev rfl).2

theorem parsePlain_some (h : Terminated m p) {prio : ℕ} (hprio : Terminated m prio) {ip : Option ℕ} (hip : Ahead m ip) :
    Reads (parsePlain m prio ip p) ParsedOk := by
  refine (cstr_some h).bind fun s _ => ?_
  split
  · exact reads_some (parsedOk_line ⟨ahead_some hprio, hip, ahead_none, ahead_none, h⟩)
  · refine (strstr_some h _).bind fun bracket hb => ?_
    cases bracket with
    | some tmp =>
      have ht : Terminated m (tmp + 3) := (hb tmp rfl).2
      refine (parseBracket_some h tmp).bind fun r hr => ?_
      obtain ⟨keeps, hd, ha⟩ := hr
      exact reads_some (parsedOk_line ⟨ahead_some (keeps _ hprio), fun q hq => keeps _ (hip q hq), hd, ha, keeps _ ht⟩)
    | none =>
      refine (strstr_some h _).bind fun colon hc => ?_
      cases colon with
      | some tmp =>
        have ht : Terminated m (tmp + 2) := (hc tmp rfl).2
        refine (parseColon_some h tmp).bind fun r hr => ?_
        obtain ⟨keeps, hd⟩ := hr
        exact reads_some
          (parsedOk_line ⟨ahead_some (keeps _ hprio), fun q hq => keeps _ (hip q hq), hd, ahead_none, keeps _ ht⟩)
      | none => exact reads_some (parsedOk_line ⟨ahead_some hprio, hip, ahead_none, ahead_none, h⟩)

theorem classify_some (h : Terminated m p) {prio : ℕ} (hprio : Terminated m prio) {ip : Option ℕ} (hip : Ahead m ip) :
    Reads (classify m prio ip p) ParsedOk := by
  refine (isRFC5424Header_some h).bind fun rfc _ => ?_
  split
  · refine (parseRFC5424Header_some h).bind fun o ho => reads_some ?_
    cases o with
    | none => exact parsedOk_exit true
    | some b =>
      have hb := ho b rfl
      exact parsedOk_line
        ⟨ahead_some (hb.keeps _ hprio), fun q hq => hb.keeps _ (hip q hq), hb.device, hb.application, hb.content⟩
  · exact parsePlain_some h hprio hip

theorem parseClientIp_some (h : Terminated m 0) (prio : ℕ) :
    Reads (parseClientIp m prio) fun r => (∀ q, Terminated m q → Terminated r.1 q) ∧ Ahead r.1 r.2 := by
  unfold parseClientIp
  split
  · exact reads_some ⟨fun _ h => h, ahead_none⟩
  · refine (strchr_some (h.cut prio) _).bind fun semicolon hs => ?_
    cases semicolon with
    | none => exact reads_some ⟨fun q hq => hq.cut _, ahead_none⟩
    | some i =>
      have hi := (hs i rfl).2
      refine (strchr_some hi _).bind fun tmp _ => reads_some ?_
      cases tmp with
      | none => exact ⟨fun q hq => hq.cut _, ahead_some hi⟩
      | some tmp => exact ⟨fun q hq => (hq.cut _).cut _, ahead_some (hi.cut tmp)⟩

theorem parseLine_some (h : Terminated m 0) : Reads (parseLine m) ParsedOk := by
  refine h.get.bind fun first _ => ?_
  split
  · exact reads_some (parsedOk_exit false)
  · split
    · exact reads_some (parsedOk_line ⟨ahead_none, ahead_none, ahead_none, ahead_none, h⟩)
    · refine (strchr_some h _).bind fun lt hlt => ?_
      cases lt with
      | none => exact reads_some (parsedOk_exit true)
      | some lt =>
        refine (parseClientIp_some h lt).bind fun r hr => ?_
        obtain ⟨keeps, hip⟩ := hr
        have hprio := keeps _ (hlt lt rfl).2
        refine (strchr_some hprio _).bind fun gt hgt => ?_
        cases gt with
        | none => exact reads_some (parsedOk_exit true)
        | some gt => exact classify_some ((hgt gt rfl).2.cut gt) (hprio.cut gt) (hip.cut gt)

/-! ## Names -/

theorem lookupAt_some (lookup : List UInt8 → Option (List UInt8)) {o : Option ℕ} {x : Mem × Option (List UInt8)}
    (h : Ahead x.1 o) : Reads (lookupAt lookup o x) fun y => ∀ q, Terminated x.1 q → Terminated y.1 q := by
  obtain ⟨m, name⟩ := x
  cases name with
  | some name => exact reads_some fun _ h => h
  | none =>
    cases o with
    | none => exact reads_some fun _ h => h
    | some p =>
      refine (mapString_some (h p rfl) toLower).bind fun m' hm => ?_
      exact (cstr_some (hm p (h p rfl))).bind fun name _ => reads_some hm

theorem detectProducer_some (env : Env) (clientIp : Option (List UInt8)) {l : Line} (h : LineOk l) :
    Reads (detectProducer env clientIp l) fun y => ∀ q, Terminated l.mem q → Terminated y.1 q := by
  refine (lookupAt_some env.getProducerName (o := l.parsedClientIp) (x := (l.mem, l.producer)) h.parsedClientIp).bind
    fun x hx => ?_
  refine (lookupAt_some env.getProducerName fun q hq => hx q (h.device q hq)).bind fun y hy => ?_
  refine (lookupAt_some some (x := (y.1, y.2.orElse fun _ => clientIp.bind env.getProducerName))
    fun q hq => hy q (hx q (h.application q hq))).bind fun z hz => ?_
  exact reads_some fun q hq => hz q (hy q (hx q hq))

theorem optCstr_some {o : Option ℕ} (h : Ahead m o) : Reads (optCstr m o) fun _ => True := by
  cases o with
  | none => exact reads_some trivial
  | some p => exact (cstr_some (h p rfl)).map fun _ _ => trivial

theorem dispatch_some (env : Env) (clientIp : Option (List UInt8)) (counted : Bool) {l : Line} (h : LineOk l) :
    Reads (dispatch env clientIp counted l) fun _ => True := by
  refine (detectProducer_some env clientIp h).bind fun r hr => ?_
  obtain ⟨m, producer⟩ := r
  cases producer with
  | none => exact reads_some trivial
  | some producer =>
    refine (cstr_some (hr _ h.content)).bind fun content _ => ?_
    refine (optCstr_some fun q hq => hr q (h.parsedClientIp q hq)).bind fun ip _ => ?_
    exact (optCstr_some fun q hq => hr q (h.prio q hq)).bind fun prio _ => reads_some trivial

/-- Whatever the bytes before its NUL are, nothing is read past the end of the line. -/
theorem parseLog_some (env : Env) (clientIp : Option (List UInt8)) (h : Terminated m 0) :
    Reads (parseLog env (some m) clientIp) fun _ => True := by
  refine (parseLine_some h).bind fun r hr => ?_
  cases r with
  | exit b => exact reads_some trivial
  | line counted l => exact dispatch_some env clientIp counted (hr counted l rfl)

end Ntopng.Protocols.Syslog
