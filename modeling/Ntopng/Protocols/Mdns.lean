/-
  Ntopng.Protocols.Mdns — questions by MDNS and what comes back (src/MDNS.cpp).

  A question for the name of an address is written label by label into a buffer. Replies are
  taken apart by walkers that know no records: the reply to such a question is the question's
  name up to its NUL, a fixed number of bytes, and then the name looked for; the reply to a
  question for anything is searched for texts; a reply of NetBIOS has its name at a place that
  depends on one length.

  A packet is the bytes received, a buffer the memory of the caller. `none` is a read outside
  of the packet, a write outside of the buffer, or a walk that does not end. `char` is signed.

  Proved: `decodePTRResponse_ok` (unless the packet ends before its number of questions),
  `decodeAnyResponse_ok` and `decodeNetBIOS_ok` (for a buffer of sixteen bytes and a name with
  a NUL or a blank in the right place): none of these happens, and the buffer has a string.
-/

import Ntopng.Lib.CNumber

namespace Ntopng.Protocols.Mdns

open Ntopng.Lib.CString
open Ntopng.Lib.CNumber (isDigit)

/-- The size of a DNS header. -/
def headerLen : ℕ := 12

def ntohs (m : Mem) (i : ℕ) : Option ℕ := do
  let a ← m[i]?
  let b ← m[i + 1]?
  some (a.toNat * 256 + b.toNat)

/-! ## Questions -/

/-- `byte` in decimal, as `Utils::intoaV4` writes it. -/
def intoaByte (byte : ℕ) : List UInt8 :=
  let digit (n : ℕ) : UInt8 := UInt8.ofNat (n % 10 + 48)
  if 0 < byte / 10 then
    if 0 < byte / 10 / 10 then [UInt8.ofNat (byte / 10 / 10 + 48), digit (byte / 10), digit byte]
    else [digit (byte / 10), digit byte]
  else [digit byte]

/-- The text is written from its end; `n` bytes of `addr` are left. -/
def intoaLoop : (n addr : ℕ) → List UInt8 → List UInt8
  | 0, _, cp => cp
  | n + 1, addr, cp =>
    let cp := intoaByte (addr % 256) ++ cp
    intoaLoop n (addr / 256) (if 0 < n then ch '.' :: cp else cp)

def intoaV4 (addr : ℕ) : List UInt8 := intoaLoop 4 addr []

/-- `k` characters of the query are written, behind the length at `lastDot`. -/
def buildLoop (room : ℕ) : List UInt8 → (k lastDot : ℕ) → Mem → Option (ℕ × ℕ × Mem)
  | [], k, lastDot, m => some (k, lastDot, m)
  | c :: s, k, lastDot, m =>
    if k < room then
      if c = ch '.' then
        (store m (headerLen + lastDot) (UInt8.ofNat (k - lastDot))).bind fun m => buildLoop room s (k + 1) (k + 1) m
      else (store m (headerLen + (k + 1)) c).bind fun m => buildLoop room s (k + 1) lastDot m
    else some (k, lastDot, m)

def header (tid : UInt16) : List UInt8 := [tid.toUInt8, (tid >>> 8).toUInt8, 0, 0, 0, 1, 0, 0, 0, 0, 0, 0]

/-- Returns the length of the question. -/
def buildMDNSRequest (query : List UInt8) (queryType : UInt8) (mdnsbuf : Mem) (tid : UInt16) : Option (Mem × ℕ) := do
  let m ← storeAll mdnsbuf 0 (header tid)
  let room := (mdnsbuf.length + 2 ^ 32 - (headerLen + 4)) % 2 ^ 32
  let (k, lastDot, m) ← buildLoop room query 0 0 m
  let m ← store m (headerLen + lastDot) (UInt8.ofNat (k - lastDot))
  let m ← storeAll m (headerLen + (k + 1)) [0, 0, queryType, 0, 1]
  some (m, headerLen + (k + 6))

/-- `ipv4addr` is in network byte order. -/
def prepareIPv4ResolveQuery (ipv4addr : ℕ) (mdnsbuf : Mem) (tid : UInt16) : Option (Mem × ℕ) :=
  buildMDNSRequest ((intoaV4 ipv4addr ++ text ".in-addr.arpa").take 63) 0x0C mdnsbuf tid

/-! ## `sscanf` of `.%d.%d.%d.%d.` -/

def digitsValue (s : List UInt8) : ℕ := s.foldl (fun v c => v * 10 + (c.toNat - 48)) 0

/-- A number is read as a `long` and kept as an `int`, of which the low byte is used. -/
def lowByte (negative : Bool) (v : ℕ) : ℕ :=
  let long : Int := if negative then max (-(v : Int)) (-2 ^ 63) else min v (2 ^ 63 - 1)
  (long % 256).toNat

def sign (s : List UInt8) : Bool × List UInt8 :=
  match s with
  | [] => (false, [])
  | c :: t => if c = ch '-' then (true, t) else if c = ch '+' then (false, t) else (false, s)

/-- `%d`: the low byte, and what is left. -/
def scanInt (s : List UInt8) : Option (ℕ × List UInt8) :=
  let (negative, s) := sign (s.dropWhile isSpace)
  let digits := s.takeWhile isDigit
  if digits = [] then none else some (lowByte negative (digitsValue digits), s.dropWhile isDigit)

def scanDot : List UInt8 → Option (ℕ × List UInt8)
  | [] => none
  | c :: s => if c = ch '.' then scanInt s else none

/-- The address, when all four are there. -/
def scanAddress (s : List UInt8) : Option ℕ := do
  let (a, s) ← scanDot s
  let (b, s) ← scanDot s
  let (c, s) ← scanDot s
  let (d, _) ← scanDot s
  some (d * 2 ^ 24 + c * 2 ^ 16 + b * 2 ^ 8 + a)

/-! ## Replies to a question for an address -/

/-- Lengths of labels are dots, as long as they are no printable characters. -/
def dotted (c : UInt8) : UInt8 := if c < 32 ∨ 128 ≤ c then ch '.' else c

structure Skip where
  i : ℕ
  offset : ℕ
  idx : ℕ
  buf : Mem
  resolvedIp : ℕ
  deriving DecidableEq, Repr

/-- At the NUL of a query: the first one may hold the address. -/
def endOfQuery (s : Skip) : Option Skip := do
  if s.i = 0 then
    let buf ← store s.buf s.idx 0
    let name ← cstr buf 0
    some ⟨s.i + 1, s.offset + 4, 0, buf, (scanAddress name).getD s.resolvedIp⟩
  else some ⟨s.i + 1, s.offset + 4, 0, s.buf, s.resolvedIp⟩

def skipQueries (queries : Mem) (toSkip : ℕ) : ℕ → Skip → Option Skip
  | 0, _ => none
  | n + 1, s =>
    if s.i < toSkip ∧ s.offset < queries.length ∧ s.idx < s.buf.length then
      queries[s.offset]?.bind fun c =>
        if c ≠ 0 then (store s.buf s.idx (dotted c)).bind fun buf =>
          skipQueries queries toSkip n ⟨s.i, s.offset + 1, s.idx + 1, buf, s.resolvedIp⟩
        else (endOfQuery s).bind (skipQueries queries toSkip n)
    else some s

def copyName (queries : Mem) : ℕ → (offset idx : ℕ) → Mem → Option (ℕ × Mem)
  | 0, _, _, _ => none
  | n + 1, offset, idx, buf =>
    if offset < queries.length then
      queries[offset]?.bind fun c =>
        if c ≠ 0 ∧ idx < buf.length - 1 then
          (store buf idx (dotted c)).bind fun buf => copyName queries n (offset + 1) (idx + 1) buf
        else some (idx, buf)
    else some (idx, buf)

def dotLocal : List UInt8 := text ".local"

/-- Where the name ends once a trailing `.local` is cut. -/
def cutLocal (buf : Mem) (idx : ℕ) : ℕ := if 6 < idx ∧ (buf.drop (idx - 6)).take 6 = dotLocal then idx - 6 else idx

/-- The buffer and the address. -/
def decodePTRResponse (mdnsbuf buf : Mem) : Option (Mem × ℕ) := do
  let toSkip ← ntohs mdnsbuf 4
  let buf ← store buf 0 0
  if mdnsbuf.length < headerLen then some (buf, 0)
  else
    let queries := mdnsbuf.drop headerLen
    let s ← skipQueries queries toSkip (queries.length + 1) ⟨0, 0, 0, buf, 0⟩
    let (idx, buf) ← copyName queries (queries.length + 1) (s.offset + 14) 0 s.buf
    let buf ← store buf (cutLocal buf idx) 0
    some (buf, s.resolvedIp)

/-! ## Replies to a question for anything -/

def skipAnyQueries (queries : Mem) (toSkip : ℕ) : ℕ → (i offset : ℕ) → Option ℕ
  | 0, _, _ => none
  | n + 1, i, offset =>
    if i < toSkip ∧ offset < queries.length then
      queries[offset]?.bind fun c =>
        if c ≠ 0 then skipAnyQueries queries toSkip n i (offset + 1)
        else skipAnyQueries queries toSkip n (i + 1) (offset + 4)
    else some offset

def skipReplies (queries : Mem) (toSkip : ℕ) : ℕ → (i offset : ℕ) → Option ℕ
  | 0, _, _ => none
  | n + 1, i, offset =>
    if i < toSkip ∧ offset < queries.length then
      if queries.length < offset + 10 + 2 then some (offset + 10)
      else (ntohs queries (offset + 10)).bind fun len => skipReplies queries toSkip n (i + 1) (offset + 10 + (len + 2))
    else some offset

/-- `n` bytes of the text at `offset` are left. -/
def copyTxt (queries : Mem) : ℕ → (offset idx : ℕ) → Mem → Option (ℕ × Mem)
  | 0, _, idx, buf => some (idx, buf)
  | n + 1, offset, idx, buf =>
    if offset < queries.length ∧ idx < buf.length - 1 then
      queries[offset]?.bind fun c =>
        if c < 32 then
          if 0 < idx then (store buf idx (ch ';')).bind fun buf => copyTxt queries n (offset + 1) (idx + 1) buf
          else copyTxt queries n (offset + 1) idx buf
        else (store buf idx c).bind fun buf => copyTxt queries n (offset + 1) (idx + 1) buf
    else some (idx, buf)

/-- The next byte that starts a compressed name. -/
def seekPointer (queries : Mem) (offset : ℕ) : ℕ :=
  offset + ((queries.drop offset).takeWhile fun c => c ≠ 0xC0).length

/-- The first text found is kept. -/
def searchTxt (queries : Mem) (toSkip : ℕ) : ℕ → (i offset : ℕ) → Mem → Option Mem
  | 0, _, _, _ => none
  | n + 1, i, offset, buf =>
    if i < toSkip ∧ offset < queries.length then
      let offset := seekPointer queries offset
      if queries.length < offset + 12 then some buf
      else
        (ntohs queries (offset + 2)).bind fun qtype =>
        (ntohs queries (offset + 10)).bind fun len =>
          if qtype = 0x10 then
            (copyTxt queries len (offset + 12) 0 buf).bind fun r =>
              if 0 < r.1 then store r.2 r.1 0 else searchTxt queries toSkip n (i + 1) (offset + 12 + len) r.2
          else searchTxt queries toSkip n (i + 1) (offset + 12 + len) buf
    else some buf

def decodeAnyResponse (mdnsbuf buf : Mem) : Option Mem := do
  let buf ← store buf 0 0
  if mdnsbuf.length < headerLen then some buf
  else
    let queries := mdnsbuf.drop headerLen
    let numQueries ← ntohs mdnsbuf 4
    let offset ← skipAnyQueries queries numQueries (queries.length + 1) 0 0
    let numAnswers ← ntohs mdnsbuf 6
    let offset ← skipReplies queries numAnswers (queries.length + 1) 0 (offset + 1)
    let additionalRrs ← ntohs mdnsbuf 10
    searchTxt queries additionalRrs (queries.length + 1) 0 offset buf

/-! ## Replies of NetBIOS -/

/-- A reply to the question sent, with an answer. -/
def nbHeader (buf : Mem) : Option Bool := do
  let transactionId ← ntohs buf 0
  let flags ← ntohs buf 2
  let questions ← ntohs buf 4
  let answerRrs ← ntohs buf 6
  some (decide (transactionId = 0x1234 ∧ 0x8000 ≤ flags ∧ questions = 0 ∧ answerRrs ≠ 0))

/-- Where the first name is, unless the reply has none. -/
def nbName (buf : Mem) : Option (Option ℕ) := do
  if buf.length < headerLen + 32 then some none
  else
    let reply ← nbHeader buf
    if reply = false then some none
    else
      let len ← buf[headerLen]?
      let offset := headerLen + (len.toNat + 2)
      if buf.length < offset + 2 then some none
      else
        let type ← ntohs buf offset
        if type ≠ 0x21 ∨ buf.length < offset + 10 + 1 then some none
        else
          let names ← buf[offset + 10]?
          if names = 0 ∨ buf.length < offset + 11 + 16 then some none else some (some (offset + 11))

/-- The bytes `strncpy` writes. -/
def strncpy16 (s : List UInt8) : List UInt8 :=
  let t := (s.take 16).takeWhile (· ≠ 0)
  t ++ List.replicate (16 - t.length) 0

/-- From the sixteenth byte back: blanks become NULs. -/
def trimName : ℕ → Mem → Option Mem
  | 0, out => some out
  | i + 1, out => do
    let c ← out[i + 1]?
    if c = ch ' ' ∨ c = 0 then
      let out ← store out (i + 1) 0
      trimName i out
    else some out

def decodeNetBIOS (buf out : Mem) : Option Mem := do
  let out ← store out 0 0
  let name ← nbName buf
  match name with
  | none => some out
  | some offset => do
    let out ← storeAll out 0 (strncpy16 (buf.drop offset))
    trimName 15 out

/-! ## Within the packet and the buffer -/

variable {m q buf : Mem}

theorem ntohs_some {i : ℕ} (h : i + 1 < m.length) : Reads (ntohs m i) fun _ => True := by
  unfold ntohs
  rw [List.getElem?_eq_getElem (by omega), List.getElem?_eq_getElem h]
  exact reads_some trivial

theorem ntohs_none {i : ℕ} (h : m.length ≤ i + 1) : ntohs m i = none := by
  unfold ntohs
  rw [List.getElem?_eq_none h]
  cases m[i]? <;> rfl

/-- A string in a buffer of the length it had. -/
def Filled (buf buf' : Mem) : Prop := buf'.length = buf.length ∧ 0 ∈ buf'

theorem endOfQuery_some {s : Skip} (h : s.idx < s.buf.length) :
    Reads (endOfQuery s) fun s' => s'.buf.length = s.buf.length ∧ s'.offset = s.offset + 4 := by
  unfold endOfQuery
  split
  · refine (store_reads h 0).bind fun b hb => ?_
    have hz : Terminated b 0 := terminated_iff.mpr hb.2
    exact (cstr_some hz).bind fun name _ => reads_some ⟨hb.1, rfl⟩
  · exact reads_some ⟨rfl, rfl⟩

/-- Fuel for a walk from `offset` that passes a byte at every turn. -/
def Enough (q : Mem) (n offset : ℕ) : Prop := 0 < n ∧ q.length < n + offset

theorem enough_start (q : Mem) (offset : ℕ) : Enough q (q.length + 1) offset := ⟨Nat.succ_pos _, by omega⟩

theorem Enough.step {n offset offset' : ℕ} (h : Enough q (n + 1) offset) (hlt : offset < q.length) (hle : offset < offset') :
    Enough q n offset' := by
  have := h.2
  exact ⟨by omega, by omega⟩

theorem skipQueries_some (toSkip : ℕ) {n : ℕ} {s : Skip} (hn : Enough q n s.offset) :
    Reads (skipQueries q toSkip n s) fun s' => s'.buf.length = s.buf.length := by
  induction n generalizing s with
  | zero => exact absurd hn.1 (Nat.lt_irrefl 0)
  | succ n ih =>
    unfold skipQueries
    split
    · rename_i h
      obtain ⟨-, hoff, hidx⟩ := h
      rw [List.getElem?_eq_getElem hoff, Option.bind_some]
      split
      · refine (store_reads hidx _).bind fun b hb => ?_
        exact (ih (s := ⟨s.i, s.offset + 1, s.idx + 1, b, s.resolvedIp⟩) (hn.step hoff (Nat.lt_succ_self _))).mono
          fun s' hs' => hs'.trans hb.1
      · refine (endOfQuery_some hidx).bind fun s1 h1 => ?_
        exact (ih (hn.step hoff (by omega))).mono fun s' hs' => hs'.trans h1.1
    · exact reads_some rfl

theorem copyName_some {n offset idx : ℕ} (hn : Enough q n offset) (hidx : idx < buf.length) :
    Reads (copyName q n offset idx buf) fun r => r.1 < buf.length ∧ r.2.length = buf.length := by
  induction n generalizing offset idx buf with
  | zero => exact absurd hn.1 (Nat.lt_irrefl 0)
  | succ n ih =>
    unfold copyName
    split
    · rename_i hoff
      rw [List.getElem?_eq_getElem hoff, Option.bind_some]
      split
      · rename_i hc
        refine (store_reads hidx _).bind fun b hb => ?_
        refine (ih (hn.step hoff (Nat.lt_succ_self _)) (by omega)).mono fun r hr => ?_
        exact ⟨hb.1 ▸ hr.1, hr.2.trans hb.1⟩
      · exact reads_some ⟨hidx, rfl⟩
    · exact reads_some ⟨hidx, rfl⟩

theorem cutLocal_le (buf : Mem) (idx : ℕ) : cutLocal buf idx ≤ idx := by
  unfold cutLocal
  split <;> omega

/-- The number of queries is read before the length is looked at. -/
theorem decodePTRResponse_ok (pkt buf : Mem) :
    Reads (decodePTRResponse pkt buf) (fun r => Filled buf r.1) ↔ 6 ≤ pkt.length ∧ 0 < buf.length := by
  constructor
  · rintro ⟨r, hr, -⟩
    unfold decodePTRResponse at hr
    obtain ⟨toSkip, ht, hr⟩ := Option.bind_eq_some_iff.mp hr
    obtain ⟨b, hb, -⟩ := Option.bind_eq_some_iff.mp hr
    constructor
    · by_contra hlt
      rw [ntohs_none (by omega)] at ht
      cases ht
    · by_contra hlt
      rw [store_none (by omega)] at hb
      cases hb
  · rintro ⟨hp, hb⟩
    refine (ntohs_some (by omega)).bind fun toSkip _ => ?_
    refine (store_reads hb 0).bind fun b h0 => ?_
    split
    · exact reads_some h0
    · refine (skipQueries_some toSkip (enough_start _ _)).bind fun s hs => ?_
      have hs : s.buf.length = b.length := hs
      refine (copyName_some (enough_start _ _) (by omega)).bind fun r hr => ?_
      have hle := cutLocal_le r.2 r.1
      refine (store_reads (i := cutLocal r.2 r.1) (by omega) 0).bind fun b' hb' => reads_some ⟨?_, hb'.2⟩
      exact hb'.1.trans (hr.2.trans (hs.trans h0.1))

/-! ### Texts -/

theorem skipAnyQueries_some (toSkip : ℕ) {n i offset : ℕ} (hn : Enough q n offset) :
    Reads (skipAnyQueries q toSkip n i offset) fun _ => True := by
  induction n generalizing i offset with
  | zero => exact absurd hn.1 (Nat.lt_irrefl 0)
  | succ n ih =>
    unfold skipAnyQueries
    split
    · rename_i h
      rw [List.getElem?_eq_getElem h.2, Option.bind_some]
      split
      · exact ih (hn.step h.2 (Nat.lt_succ_self _))
      · exact ih (hn.step h.2 (by omega))
    · exact reads_some trivial

theorem skipReplies_some (toSkip : ℕ) {n i offset : ℕ} (hn : Enough q n offset) :
    Reads (skipReplies q toSkip n i offset) fun _ => True := by
  induction n generalizing i offset with
  | zero => exact absurd hn.1 (Nat.lt_irrefl 0)
  | succ n ih =>
    unfold skipReplies
    split
    · rename_i h
      split
      · exact reads_some trivial
      · exact (ntohs_some (by omega)).bind fun len _ => ih (hn.step h.2 (by omega))
    · exact reads_some trivial

theorem copyTxt_some {n offset idx : ℕ} (hidx : idx < buf.length) :
    Reads (copyTxt q n offset idx buf) fun r =>
      r.1 < buf.length ∧ r.2.length = buf.length ∧ (0 < r.1 ∨ r.2 = buf ∧ idx = 0) := by
  induction n generalizing offset idx buf with
  | zero =>
    refine reads_some ⟨hidx, rfl, ?_⟩
    rcases Nat.eq_zero_or_pos idx with h | h
    · exact Or.inr ⟨rfl, h⟩
    · exact Or.inl h
  | succ n ih =>
    have stay : idx < buf.length ∧ buf.length = buf.length ∧ (0 < idx ∨ buf = buf ∧ idx = 0) := by
      refine ⟨hidx, rfl, ?_⟩
      rcases Nat.eq_zero_or_pos idx with h | h
      · exact Or.inr ⟨rfl, h⟩
      · exact Or.inl h
    have put : ∀ c, idx < buf.length - 1 → Reads ((store buf idx c).bind fun b => copyTxt q n (offset + 1) (idx + 1) b)
        fun r => r.1 < buf.length ∧ r.2.length = buf.length ∧ (0 < r.1 ∨ r.2 = buf ∧ idx = 0) := by
      intro c hlt
      refine (store_reads hidx c).bind fun b hb => ?_
      refine (ih (by omega)).mono fun r hr => ⟨hb.1 ▸ hr.1, hr.2.1.trans hb.1, ?_⟩
      rcases hr.2.2 with h | h
      · exact Or.inl h
      · exact absurd h.2 (Nat.succ_ne_zero idx)
    unfold copyTxt
    split
    · rename_i h
      rw [List.getElem?_eq_getElem h.1, Option.bind_some]
      split
      · split
        · exact put _ h.2
        · exact ih hidx
      · exact put _ h.2
    · exact reads_some stay

theorem searchTxt_some (toSkip : ℕ) {n i offset : ℕ} (hn : Enough q n offset) (hb : 0 < buf.length) (h0 : 0 ∈ buf) :
    Reads (searchTxt q toSkip n i offset buf) (Filled buf) := by
  induction n generalizing i offset with
  | zero => exact absurd hn.1 (Nat.lt_irrefl 0)
  | succ n ih =>
    unfold searchTxt
    split
    · rename_i h
      have hseek : offset ≤ seekPointer q offset := Nat.le_add_right _ _
      simp only
      split
      · exact reads_some ⟨rfl, h0⟩
      · refine (ntohs_some (by omega)).bind fun qtype _ => (ntohs_some (by omega)).bind fun len _ => ?_
        have next : Enough q n (seekPointer q offset + 12 + len) := hn.step h.2 (by omega)
        split
        · refine (copyTxt_some hb).bind fun r hr => ?_
          obtain ⟨hlt, hlen, hr⟩ := hr
          split
          · refine (store_reads (by omega) 0).mono fun b hb => ⟨hb.1.trans hlen, hb.2⟩
          · rcases hr with hr | ⟨hr, -⟩
            · contradiction
            · rw [hr]
              exact ih next
        · exact ih next
    · exact reads_some ⟨rfl, h0⟩

theorem decodeAnyResponse_ok (pkt buf : Mem) : Reads (decodeAnyResponse pkt buf) (Filled buf) ↔ 0 < buf.length := by
  constructor
  · rintro ⟨r, hr, -⟩
    unfold decodeAnyResponse at hr
    obtain ⟨b, hb, -⟩ := Option.bind_eq_some_iff.mp hr
    by_contra hlt
    rw [store_none (by omega)] at hb
    cases hb
  · intro hb
    refine (store_reads hb 0).bind fun b h0 => ?_
    split
    · exact reads_some h0
    · rename_i hp
      have hp : 12 ≤ pkt.length := Nat.le_of_not_lt hp
      refine (ntohs_some (by omega)).bind fun numQueries _ => ?_
      refine (skipAnyQueries_some numQueries (enough_start _ _)).bind fun offset _ => ?_
      refine (ntohs_some (by omega)).bind fun numAnswers _ => ?_
      refine (skipReplies_some numAnswers (enough_start _ _)).bind fun offset _ => ?_
      refine (ntohs_some (by omega)).bind fun additionalRrs _ => ?_
      refine (searchTxt_some additionalRrs (enough_start _ _) (by omega) h0.2).mono fun b' hb' => ?_
      exact ⟨hb'.1.trans h0.1, hb'.2⟩

/-! ### Names of NetBIOS -/

theorem nbHeader_some (h : 8 ≤ m.length) : Reads (nbHeader m) fun _ => True :=
  (ntohs_some (by omega)).bind fun _ _ => (ntohs_some (by omega)).bind fun _ _ => (ntohs_some (by omega)).bind fun _ _ =>
    (ntohs_some (by omega)).bind fun _ _ => reads_some trivial

/-- A name that is found has its sixteen bytes. -/
theorem nbName_some (pkt : Mem) : Reads (nbName pkt) fun o => ∀ offset, o = some offset → offset + 16 ≤ pkt.length := by
  unfold nbName
  split
  · exact reads_some fun _ h => by cases h
  · rename_i hlen
    have hlen : 44 ≤ pkt.length := Nat.le_of_not_lt hlen
    refine (nbHeader_some (by omega)).bind fun reply _ => ?_
    split
    · exact reads_some fun _ h => by cases h
    · have hh : headerLen < pkt.length := Nat.lt_of_lt_of_le (by decide) hlen
      rw [List.getElem?_eq_getElem hh, Option.bind_eq_bind, Option.bind_some]
      simp only
      split
      · exact reads_some fun _ h => by cases h
      · refine (ntohs_some (by omega)).bind fun type _ => ?_
        split
        · exact reads_some fun _ h => by cases h
        · rename_i h
          rw [not_or] at h
          rw [List.getElem?_eq_getElem (by omega), Option.bind_some]
          split
          · exact reads_some fun _ h => by cases h
          · rename_i h'
            rw [not_or] at h'
            refine reads_some fun offset ho => ?_
            rw [← Option.some.inj ho]
            omega

theorem length_strncpy16 (s : List UInt8) : (strncpy16 s).length = 16 := by
  have h : ((s.take 16).takeWhile (· ≠ 0)).length ≤ 16 :=
    Nat.le_trans (List.takeWhile_sublist _).length_le (List.length_take_le 16 s)
  unfold strncpy16
  rw [List.length_append, List.length_replicate]
  omega

theorem trimName_some {i : ℕ} {out : Mem} (h : i < out.length) :
    Reads (trimName i out) fun out' => out'.length = out.length ∧ (0 ∈ out → 0 ∈ out') := by
  induction i generalizing out with
  | zero => exact reads_some ⟨rfl, id⟩
  | succ i ih =>
    unfold trimName
    rw [List.getElem?_eq_getElem h, Option.bind_eq_bind, Option.bind_some]
    split
    · refine (store_reads h 0).bind fun b hb => ?_
      exact (ih (by omega)).mono fun out' ho => ⟨ho.1.trans hb.1, fun _ => ho.2 hb.2⟩
    · exact reads_some ⟨rfl, id⟩

theorem trimName_blank {i : ℕ} {out : Mem} (h : i + 1 < out.length) (hc : out[i + 1]? = some (ch ' ')) :
    Reads (trimName (i + 1) out) (Filled out) := by
  unfold trimName
  rw [hc, Option.bind_eq_bind, Option.bind_some, if_pos (Or.inl rfl)]
  refine (store_reads h 0).bind fun b hb => ?_
  exact (trimName_some (by omega)).mono fun out' ho => ⟨ho.1.trans hb.1, ho.2 hb.2⟩

/-- The sixteen bytes at `s` leave a NUL in the buffer: there is one, or the last is a blank. -/
def NameEnds (s : List UInt8) : Prop := 0 ∈ s.take 16 ∨ s[15]? = some (ch ' ')

theorem takeWhile_nul {t : List UInt8} (h : 0 ∉ t) (r : List UInt8) : (t ++ 0 :: r).takeWhile (· ≠ 0) = t := by
  induction t with
  | nil => rfl
  | cons c t ih =>
    rw [List.mem_cons, not_or] at h
    rw [List.cons_append, List.takeWhile_cons_of_pos (by simpa using Ne.symm h.1), ih h.2]

theorem mem_strncpy16 {s : List UInt8} (h : 0 ∈ s.take 16) : 0 ∈ strncpy16 s := by
  obtain ⟨t, -, hn, r, hr⟩ := scan_some h
  have hlen : t.length + (r.length + 1) ≤ 16 := by
    have := List.length_take_le 16 s
    rw [hr, List.length_append, List.length_cons] at this
    exact this
  unfold strncpy16
  rw [hr, takeWhile_nul hn]
  exact List.mem_append_right t (List.mem_replicate.mpr ⟨by omega, rfl⟩)

theorem strncpy16_eq {s : List UInt8} (h : 0 ∉ s.take 16) (hs : 16 ≤ s.length) : strncpy16 s = s.take 16 := by
  have htake : (s.take 16).takeWhile (· ≠ 0) = s.take 16 := by
    rw [List.takeWhile_eq_self_iff]
    intro c hc
    exact decide_eq_true fun h0 => h (h0 ▸ hc)
  unfold strncpy16
  simp only [htake]
  rw [List.length_take_of_le hs]
  exact List.append_nil _

/-- The buffer once the name is copied: its first bytes are those of the name. -/
theorem nameCopied {out : Mem} (h : 16 ≤ out.length) (s : List UInt8) :
    storeAll out 0 (strncpy16 s) = some (strncpy16 s ++ out.drop 16) := by
  rw [storeAll_some (by rw [length_strncpy16]; omega), length_strncpy16, List.take_zero, List.nil_append, Nat.zero_add]

theorem nameCopied_some {out : Mem} (h : 16 ≤ out.length) {s : List UInt8} (hs : 16 ≤ s.length) (he : NameEnds s) :
    Reads ((storeAll out 0 (strncpy16 s)).bind (trimName 15)) (Filled out) := by
  have hlen : (strncpy16 s ++ out.drop 16).length = out.length := by
    rw [List.length_append, length_strncpy16, List.length_drop]
    omega
  rw [nameCopied h, Option.bind_some]
  by_cases h0 : 0 ∈ s.take 16
  · exact (trimName_some (by omega)).mono fun out' ho =>
      ⟨ho.1.trans hlen, ho.2 (List.mem_append_left _ (mem_strncpy16 h0))⟩
  · rcases he with he | he
    · contradiction
    · have hc : (strncpy16 s ++ out.drop 16)[15]? = some (ch ' ') := by
        rw [List.getElem?_append_left (by rw [length_strncpy16]; omega), strncpy16_eq h0 hs, List.getElem?_take_of_lt (by omega),
          he]
      exact (trimName_blank (by omega) hc).mono fun out' ho => ⟨ho.1.trans hlen, ho.2⟩

/-- Without NULs behind the sixteen bytes there is none afterwards. -/
theorem nameCopied_open {out : Mem} (hout : 0 ∉ out.drop 16) {s : List UInt8} (hs : 16 ≤ s.length)
    (h : Reads ((storeAll out 0 (strncpy16 s)).bind (trimName 15)) (Filled out)) : 16 ≤ out.length ∧ NameEnds s := by
  obtain ⟨out', ho, -, h0⟩ := h
  have hlen : 16 ≤ out.length := by
    by_contra hn
    rw [storeAll_none (by rw [length_strncpy16]; omega) (Nat.zero_le _)] at ho
    cases ho
  refine ⟨hlen, ?_⟩
  by_contra he
  unfold NameEnds at he
  rw [not_or] at he
  have hc : (s.take 16 ++ out.drop 16)[15]? = some s[15] := by
    rw [List.getElem?_append_left (by rw [List.length_take_of_le hs]; omega), List.getElem?_take_of_lt (by omega),
      List.getElem?_eq_getElem]
  have h15 : s[15] ≠ ch ' ' := fun h => he.2 (by rw [List.getElem?_eq_getElem (by omega), h])
  have h15' : s[15] ≠ 0 := fun h => he.1 (h ▸ List.mem_of_getElem?
    (show (s.take 16)[15]? = some s[15] by rw [List.getElem?_take_of_lt (by omega), List.getElem?_eq_getElem]))
  rw [nameCopied hlen, Option.bind_some, strncpy16_eq he.1 hs] at ho
  unfold trimName at ho
  rw [hc, Option.bind_eq_bind, Option.bind_some, if_neg (not_or.mpr ⟨h15, h15'⟩)] at ho
  rw [← Option.some.inj ho, List.mem_append] at h0
  rcases h0 with h0 | h0
  · exact he.1 h0
  · exact hout h0

/-- Whatever the buffer held before. -/
theorem decodeNetBIOS_ok (pkt : Mem) (n : ℕ) :
    (∀ out : Mem, out.length = n → Reads (decodeNetBIOS pkt out) (Filled out)) ↔
      0 < n ∧ ∀ offset, nbName pkt = some (some offset) → 16 ≤ n ∧ NameEnds (pkt.drop offset) := by
  obtain ⟨name, hname, hroom⟩ := nbName_some pkt
  have hdrop : ∀ {offset}, name = some offset → 16 ≤ (pkt.drop offset).length := fun ho => by
    have := hroom _ ho
    rw [List.length_drop]
    omega
  constructor
  · intro h
    have h := h (List.replicate n 1) List.length_replicate
    have hn : 0 < n := by
      by_contra hn
      obtain ⟨out', ho, -⟩ := h
      unfold decodeNetBIOS at ho
      rw [store_none (by rw [List.length_replicate]; omega)] at ho
      cases ho
    refine ⟨hn, fun offset ho => ?_⟩
    rw [ho] at hname
    obtain rfl := Option.some.inj hname
    have hclean : 0 ∉ ((List.replicate n (1 : UInt8)).set 0 0).drop 16 := by
      rw [List.drop_set_of_lt (by omega), List.drop_replicate, List.mem_replicate]
      exact fun h => by cases h.2
    unfold decodeNetBIOS at h
    rw [store_some (by rw [List.length_replicate]; exact hn), Option.bind_eq_bind, Option.bind_some, ho] at h
    have := nameCopied_open hclean (hdrop rfl) (h.mono fun out' hf => ⟨hf.1.trans List.length_set.symm, hf.2⟩)
    rw [List.length_set, List.length_replicate] at this
    exact this
  · rintro ⟨hn, h⟩ out rfl
    refine (store_reads hn 0).bind fun b hb => ?_
    rw [hname, Option.bind_eq_bind, Option.bind_some]
    cases name with
    | none => exact reads_some hb
    | some offset =>
      obtain ⟨h16, he⟩ := h offset hname
      exact (nameCopied_some (by omega) (hdrop rfl) he).mono fun out' hf => ⟨hf.1.trans hb.1, hf.2⟩

end Ntopng.Protocols.Mdns
