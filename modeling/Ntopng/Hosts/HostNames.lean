/-
  Ntopng.Hosts.HostNames — which names a host may take from the network
  (src/Host.cpp, isValidDNSHostName, isValidUTF8DisplayName, isReverseLookupName).

  A name is its bytes before the NUL. A read behind them, other than of the NUL, is `none`.
  Against the code stand the names that its comments describe: `DnsHostName` by the labels
  between dots, `DisplayName` as the encoding of a list of characters.

  Proved, for every name (`names_law`): both functions return, and each accepts the names
  it should except for one kind.
  1. isValidDNSHostName is wrong about well-formed names that only begin with four numbers
     between dots, which it takes for addresses, and about reverse-lookup names that end in
     a dot or are not in lower case, which it does not know (`DnsMistaken`).
  2. isValidUTF8DisplayName is wrong about names made of whole byte sequences where a second
     byte makes one overlong, a surrogate, above U+10FFFF or a control character U+0080 to
     U+009F (`DisplayMistaken`).
-/

import Ntopng.Lib.CNumber
import Ntopng.Lib.Utf8

namespace Ntopng.Hosts.HostNames

open Ntopng.Lib.CString Ntopng.Lib.CNumber Ntopng.Lib.Utf8

abbrev Text := List UInt8

/-! ## Reverse-lookup names -/

def endsWith (base str : Text) : Bool := str.isSuffixOf base

/-- `%u`: what is left behind the number. -/
def scanNumber (s : Text) : Option Text :=
  let s := s.dropWhile isSpace
  let s := if s.head? = some (ch '+') ∨ s.head? = some (ch '-') then s.tail else s
  if s.takeWhile isDigit = [] then none else some (s.dropWhile isDigit)

def scanDot (s : Text) : Option Text := if s.head? = some (ch '.') then some s.tail else none

/-- `sscanf(name, "%u.%u.%u.%u", …) == 4` -/
def scansAddress (s : Text) : Bool :=
  ((scanNumber s).bind fun s => (scanDot s).bind fun s => (scanNumber s).bind fun s => (scanDot s).bind fun s =>
    (scanNumber s).bind fun s => (scanDot s).bind scanNumber).isSome

def inAddrArpa : Text := text ".in-addr.arpa"

def ip6Arpa : Text := text ".ip6.arpa"

def isReverseLookupName (name : Text) : Bool := endsWith name inAddrArpa || endsWith name ip6Arpa || scansAddress name

/-! ## isValidDNSHostName -/

def isalnum (c : UInt8) : Bool :=
  isDigit c || (ch 'A' ≤ c && c ≤ ch 'Z') || (ch 'a' ≤ c && c ≤ ch 'z')

/-- The loop with `r` turns left, at `i`; `some none` where the name is refused. -/
def labels (name : Text) : ℕ → ℕ → ℕ → Option (Option ℕ)
  | 0, _, labelLen => some (some labelLen)
  | r + 1, i, labelLen =>
    name[i]?.bind fun c =>
      if c = ch '.' then
        if labelLen = 0 then some none
        else name[i - 1]?.bind fun p => if p = ch '-' then some none else labels name r (i + 1) 0
      else if isalnum c || c = ch '_' || (c = ch '-' && decide (0 < labelLen)) then
        if labelLen + 1 > 63 then some none else labels name r (i + 1) (labelLen + 1)
      else some none

def isValidDNSHostName (name : Text) (allowTrailingDot : Bool) : Option Bool :=
  if name = [] ∨ name.head? = some (ch '_') then some false
  else
    let len := if allowTrailingDot ∧ name.getLast? = some (ch '.') then name.length - 1 else name.length
    if len = 0 ∨ len > 253 then some false
    else (labels name len 0 0).bind fun
      | none => some false
      | some labelLen =>
        if labelLen = 0 then some false
        else name[len - 1]?.bind fun p => if p = ch '-' then some false else some (!isReverseLookupName name)

/-! ## isValidUTF8DisplayName -/

/-- What is used for markup or quoting, as the source lists it. -/
def quoting : Text := [0x3C, 0x3E, 0x22, 0x5C, 0x60]

/-- How many bytes follow a leading byte. -/
def following (c : UInt8) : Option ℕ :=
  if c &&& 0xE0 = 0xC0 ∧ 0xC2 ≤ c then some 1
  else if c &&& 0xF0 = 0xE0 then some 2
  else if c &&& 0xF8 = 0xF0 ∧ c ≤ 0xF4 then some 3
  else none

/-- The loop over the following bytes with `r` turns left, at `k`. -/
def continues (name : Text) : ℕ → ℕ → Option Bool
  | 0, _ => some true
  | r + 1, k => name[k]?.bind fun c => if c &&& 0xC0 ≠ 0x80 then some false else continues name r (k + 1)

def utf8 (name : Text) (i : ℕ) : Option Bool :=
  if i < name.length then
    name[i]?.bind fun c =>
      if c < 0x80 then
        if c < 0x20 ∨ c = 0x7F ∨ c ∈ quoting then some false else utf8 name (i + 1)
      else match following c with
        | none => some false
        | some n =>
          if i + n ≥ name.length then some false
          else (continues name n (i + 1)).bind fun ok => if ok then utf8 name (i + (n + 1)) else some false
  else some true
termination_by name.length - i

def isValidUTF8DisplayName (name : Text) (maxLen : ℕ) : Option Bool :=
  if name = [] ∨ name.head? = some (ch ' ') then some false
  else if name.length > maxLen ∨ name.getLast? = some (ch ' ') then some false
  else utf8 name 0

/-! ## What is expected -/

/-- The name without its trailing dot, where there may be one. -/
def body (name : Text) (allowTrailingDot : Bool) : Text :=
  if allowTrailingDot ∧ name.getLast? = some (ch '.') then name.dropLast else name

/-- A label: letters, digits, hyphens that are not at its ends, and underscores. -/
structure Label (l : Text) : Prop where
  nonempty : l ≠ []
  short : l.length ≤ 63
  chars : ∀ c ∈ l, isalnum c ∨ c = ch '-' ∨ c = ch '_'
  first : l.head? ≠ some (ch '-')
  last : l.getLast? ≠ some (ch '-')

/-- The form of a host name. -/
structure WellFormed (name : Text) (allowTrailingDot : Bool) : Prop where
  labels : ∀ l ∈ (body name allowTrailingDot).splitOn (ch '.'), Label l
  short : (body name allowTrailingDot).length ≤ 253
  first : name.head? ≠ some (ch '_')

/-- Four numbers below 256, with dots between them. -/
def Ipv4Literal (s : Text) : Prop :=
  ∃ a b c d, s.splitOn (ch '.') = [a, b, c, d] ∧
    ∀ l ∈ [a, b, c, d], l ≠ [] ∧ (∀ x ∈ l, isDigit x) ∧ l.length ≤ 3 ∧ ofDigits l < 256

/-- Under in-addr.arpa or ip6.arpa, in whatever case. -/
def ReverseName (s : Text) : Prop := endsWith (s.map toLower) inAddrArpa ∨ endsWith (s.map toLower) ip6Arpa

structure DnsHostName (name : Text) (allowTrailingDot : Bool) : Prop where
  form : WellFormed name allowTrailingDot
  noAddress : ¬ Ipv4Literal (body name allowTrailingDot)
  noReverse : ¬ ReverseName (body name allowTrailingDot)

/-- Names that begin like an address, and reverse-lookup names that do not end as the code looks for. -/
def DnsMistaken (name : Text) (allowTrailingDot : Bool) : Prop :=
  WellFormed name allowTrailingDot ∧
    (scansAddress name ∧ ¬ Ipv4Literal (body name allowTrailingDot) ∧ ¬ ReverseName (body name allowTrailingDot) ∨
      ReverseName (body name allowTrailingDot) ∧ ¬ isReverseLookupName name)

/-- No control character, and none of the source's characters for markup and quoting. -/
def Shown (c : Char) : Prop :=
  0x20 ≤ c.toNat ∧ ¬ (0x7F ≤ c.toNat ∧ c.toNat ≤ 0x9F) ∧ c.toNat ∉ [0x3C, 0x3E, 0x22, 0x5C, 0x60]

structure DisplayName (name : Text) (maxLen : ℕ) : Prop where
  chars : ∃ cs : List Char, name = cs.flatMap String.utf8EncodeChar ∧ ∀ c ∈ cs, Shown c
  nonempty : name ≠ []
  short : name.length ≤ maxLen
  first : name.head? ≠ some (ch ' ')
  last : name.getLast? ≠ some (ch ' ')

/-- A whole sequence of bytes that the code lets through. -/
def Passes (l : Text) : Prop := Form l ∧ ∀ c, l = [c] → 0x20 ≤ c ∧ c ≠ 0x7F ∧ c ∉ quoting

/-- Its second byte makes it no character, or a control character. -/
def Wrong : Text → Prop
  | a :: b :: t => Excess (a :: b :: t) ∨ a = 0xC2 ∧ b < 0xA0
  | _ => False

def DisplayMistaken (name : Text) (maxLen : ℕ) : Prop :=
  name ≠ [] ∧ name.length ≤ maxLen ∧ name.head? ≠ some (ch ' ') ∧ name.getLast? ≠ some (ch ' ') ∧
    ∃ ls : List Text, name = ls.flatten ∧ (∀ l ∈ ls, Passes l) ∧ ∃ l ∈ ls, Wrong l

/-! ## Labels -/

variable {name : Text} {allow : Bool}

/-- The loop over what is left of the name: the length of the last label and the last character, where it is not
    refused; `p` is the character before. -/
def scan : ℕ → UInt8 → Text → Option (ℕ × UInt8)
  | n, p, [] => some (n, p)
  | n, p, c :: cs =>
    if c = ch '.' then if n = 0 ∨ p = ch '-' then none else scan 0 c cs
    else if isalnum c || c = ch '_' || (c = ch '-' && decide (0 < n)) then
      if n + 1 > 63 then none else scan (n + 1) c cs
    else none

theorem labels_eq {cs rest : Text} {i n : ℕ} {p : UInt8} (hprev : n ≠ 0 → 0 < i ∧ name[i - 1]? = some p)
    (hdrop : name.drop i = cs ++ rest) : labels name cs.length i n = some ((scan n p cs).map Prod.fst) := by
  induction cs generalizing i n p with
  | nil => rfl
  | cons c cs ih =>
    have hget : name[i]? = some c := by
      have hhead := congrArg (fun l => l[0]?) hdrop
      rwa [List.getElem?_drop] at hhead
    have hnext : name.drop (i + 1) = cs ++ rest := by
      rw [← List.drop_drop, hdrop]
      rfl
    have hkept : ∀ m, m ≠ 0 → 0 < i + 1 ∧ name[i + 1 - 1]? = some c := fun _ _ => ⟨Nat.succ_pos _, hget⟩
    rw [List.length_cons, labels, hget, Option.bind_some, scan]
    by_cases hdot : c = ch '.'
    · rw [if_pos hdot, if_pos hdot]
      by_cases hn : n = 0
      · rw [if_pos hn, if_pos (Or.inl hn)]
        rfl
      · rw [if_neg hn, (hprev hn).2, Option.bind_some, ih (hkept 0) hnext]
        by_cases hp : p = ch '-'
        · rw [if_pos hp, if_pos (Or.inr hp)]
          rfl
        · rw [if_neg hp, if_neg (not_or.mpr ⟨hn, hp⟩)]
    · rw [if_neg hdot, if_neg hdot, ih (hkept (n + 1)) hnext]
      split
      · split
        · rfl
        · rfl
      · rfl

theorem scan_last {cs : Text} {n m : ℕ} {p q : UInt8} (h : scan n p cs = some (m, q)) :
    q = (cs.getLast?).getD p := by
  induction cs generalizing n p with
  | nil =>
    rw [scan, Option.some.injEq, Prod.mk.injEq] at h
    exact h.2.symm
  | cons c cs ih =>
    have hlast : ((c :: cs).getLast?).getD p = (cs.getLast?).getD c := by
      rw [List.getLast?_cons]
      rfl
    rw [hlast]
    rw [scan] at h
    split at h
    · split at h
      · cases h
      · exact ih h
    · split at h
      · split at h
        · cases h
        · exact ih h
      · cases h

/-- What the loop has seen of the label it is in. -/
structure Begun (pre : Text) (n : ℕ) (p : UInt8) : Prop where
  length : pre.length = n
  short : n ≤ 63
  chars : ∀ c ∈ pre, isalnum c ∨ c = ch '-' ∨ c = ch '_'
  first : pre.head? ≠ some (ch '-')
  last : n ≠ 0 → pre.getLast? = some p

theorem dot_not_label {c : UInt8} (h : isalnum c ∨ c = ch '-' ∨ c = ch '_') : c ≠ ch '.' := by
  have all : ∀ c, isalnum c ∨ c = ch '-' ∨ c = ch '_' → c ≠ ch '.' := forall_byte (by decide)
  exact all c h

theorem Begun.no_dot {pre : Text} {n : ℕ} {p : UInt8} (h : Begun pre n p) : ch '.' ∉ pre :=
  fun hmem => dot_not_label (h.chars _ hmem) rfl

theorem Begun.label_iff {pre : Text} {n : ℕ} {p : UInt8} (h : Begun pre n p) :
    Label pre ↔ n ≠ 0 ∧ p ≠ ch '-' := by
  constructor
  · intro hl
    have hn : n ≠ 0 := fun hzero => hl.nonempty (List.length_eq_zero_iff.mp (h.length.trans hzero))
    refine ⟨hn, fun hp => hl.last ?_⟩
    rw [h.last hn, hp]
  · rintro ⟨hn, hp⟩
    refine ⟨fun hnil => hn ?_, by rw [h.length]; exact h.short, h.chars, h.first, ?_⟩
    · rw [← h.length, hnil, List.length_nil]
    · rw [h.last hn]
      exact fun heq => hp (Option.some.inj heq)

/-- The first label of what is left begins with what was seen of it. -/
theorem splitOn_begun {pre : Text} (hpre : ch '.' ∉ pre) (cs : Text) :
    ∃ l ls, (pre ++ cs).splitOn (ch '.') = (pre ++ l) :: ls := by
  induction cs generalizing pre with
  | nil => exact ⟨[], [], by rw [List.append_nil, List.splitOn_eq_singleton hpre]⟩
  | cons c cs ih =>
    by_cases hdot : c = ch '.'
    · refine ⟨[], cs.splitOn (ch '.'), ?_⟩
      rw [hdot, List.splitOn_append_cons_self_of_not_mem hpre, List.append_nil]
    · have hpre' : ch '.' ∉ pre ++ [c] := by
        rw [List.mem_append, List.mem_singleton, not_or]
        exact ⟨hpre, Ne.symm hdot⟩
      obtain ⟨l, ls, h⟩ := ih hpre'
      refine ⟨c :: l, ls, ?_⟩
      rwa [List.append_assoc, List.singleton_append, List.append_assoc, List.singleton_append] at h

theorem scan_iff {cs pre : Text} {n : ℕ} {p : UInt8} (h : Begun pre n p) :
    (∃ m q, scan n p cs = some (m, q) ∧ m ≠ 0 ∧ q ≠ ch '-') ↔ ∀ l ∈ (pre ++ cs).splitOn (ch '.'), Label l := by
  induction cs generalizing pre n p with
  | nil =>
    rw [List.append_nil, List.splitOn_eq_singleton h.no_dot, List.forall_mem_singleton, h.label_iff, scan]
    constructor
    · rintro ⟨m, q, heq, hm⟩
      rw [Option.some.injEq, Prod.mk.injEq] at heq
      rwa [heq.1, heq.2]
    · intro hp
      exact ⟨n, p, rfl, hp⟩
  | cons c cs ih =>
    rw [scan]
    by_cases hdot : c = ch '.'
    · rw [if_pos hdot, hdot, List.splitOn_append_cons_self_of_not_mem h.no_dot, List.forall_mem_cons, h.label_iff]
      by_cases hbad : n = 0 ∨ p = ch '-'
      · rw [if_pos hbad]
        refine iff_of_false (fun ⟨_, _, heq, _⟩ => by cases heq) fun hall => ?_
        rcases hbad with hn | hp
        · exact hall.1.1 hn
        · exact hall.1.2 hp
      · have hnew : Begun [] 0 (ch '.') :=
          ⟨rfl, Nat.zero_le _, fun x hx => absurd hx List.not_mem_nil, by simp, fun hz => absurd rfl hz⟩
        rw [if_neg hbad, ih hnew, List.nil_append]
        rw [not_or] at hbad
        exact (and_iff_right hbad).symm
    · obtain ⟨l, ls, hsplit⟩ := splitOn_begun h.no_dot (c :: cs)
      have hnodot : ch '.' ∉ pre ++ [c] := by
        rw [List.mem_append, List.mem_singleton, not_or]
        exact ⟨h.no_dot, Ne.symm hdot⟩
      obtain ⟨l', ls', hsplit'⟩ := splitOn_begun hnodot cs
      rw [List.append_assoc, List.singleton_append] at hsplit'
      rw [if_neg hdot]
      by_cases hchar : (isalnum c || decide (c = ch '_') || (decide (c = ch '-') && decide (0 < n))) = true
      · rw [if_pos hchar]
        have hok : isalnum c ∨ c = ch '-' ∨ c = ch '_' := by
          simp only [Bool.or_eq_true, Bool.and_eq_true, decide_eq_true_iff] at hchar
          rcases hchar with (hc | hc) | hc
          · exact Or.inl hc
          · exact Or.inr (Or.inr hc)
          · exact Or.inr (Or.inl hc.1)
        by_cases hlong : n + 1 > 63
        · rw [if_pos hlong, hsplit']
          refine iff_of_false (fun ⟨_, _, heq, _⟩ => by cases heq) fun hall => ?_
          have hshort := (hall _ (List.mem_cons_self ..)).short
          rw [List.length_append, List.length_append, List.length_singleton, h.length] at hshort
          omega
        · have hnext : Begun (pre ++ [c]) (n + 1) c := by
            have hlength : (pre ++ [c]).length = n + 1 := by rw [List.length_append, h.length, List.length_singleton]
            refine ⟨hlength, by omega, fun x hx => ?_, ?_, fun _ => ?_⟩
            · rcases List.mem_append.mp hx with hx | hx
              · exact h.chars x hx
              · rw [List.mem_singleton.mp hx]
                exact hok
            · rcases pre with _ | ⟨a, pre⟩
              · intro heq
                have hc : c = ch '-' := Option.some.inj heq
                rw [← h.length, hc] at hchar
                exact absurd hchar (by decide)
              · exact h.first
            · rw [List.getLast?_append, List.getLast?_singleton]
              rfl
          rw [if_neg hlong, ih hnext, List.append_assoc, List.singleton_append]
      · rw [if_neg hchar, hsplit']
        refine iff_of_false (fun ⟨_, _, heq, _⟩ => by cases heq) fun hall => ?_
        have hlabel := hall _ (List.mem_cons_self ..)
        have hmem : c ∈ pre ++ [c] ++ l' :=
          List.mem_append_left _ (List.mem_append_right _ (List.mem_singleton_self c))
        simp only [Bool.or_eq_true, Bool.and_eq_true, decide_eq_true_iff, not_or, not_and] at hchar
        rcases hlabel.chars c hmem with hc | hc | hc
        · exact hchar.1.1 hc
        · have hn : n = 0 := Nat.eq_zero_of_not_pos (hchar.2 hc)
          have hpre : pre = [] := List.length_eq_zero_iff.mp (h.length.trans hn)
          refine hlabel.first ?_
          rw [hpre, hc]
          rfl
        · exact hchar.1.2 hc

/-! ## isValidDNSHostName -/

theorem body_length (name : Text) (allow : Bool) : (body name allow).length =
    if allow ∧ name.getLast? = some (ch '.') then name.length - 1 else name.length := by
  rw [body]
  split
  · exact List.length_dropLast
  · rfl

/-- A name begins with its body; a dot may follow. -/
theorem body_append (name : Text) (allow : Bool) :
    name = body name allow ∨ name = body name allow ++ [ch '.'] := by
  rw [body]
  split
  · rename_i h
    exact Or.inr (List.dropLast_append_getLast? (ch '.') h.2).symm
  · exact Or.inl rfl

theorem getLast?_body (hne : body name allow ≠ []) :
    name[(body name allow).length - 1]? = (body name allow).getLast? := by
  have hpos := List.length_pos_iff.mpr hne
  rw [List.getLast?_eq_getElem?]
  rcases body_append name allow with h | h
  · rw [← h]
  · exact (congrArg (fun l => l[(body name allow).length - 1]?) h).trans (List.getElem?_append_left (by omega))

theorem not_wellFormed_nil (h : body name allow = []) : ¬ WellFormed name allow := by
  intro hform
  have hlabels := hform.labels
  rw [h, List.splitOn_nil] at hlabels
  exact (hlabels [] (List.mem_singleton_self _)).nonempty rfl

theorem begun_nil : Begun [] 0 0 :=
  ⟨rfl, Nat.zero_le _, fun x hx => absurd hx List.not_mem_nil, by simp, fun hz => absurd rfl hz⟩

/-- The test of the form, as the code makes it, before the test of reverse-lookup names. -/
theorem isValidDNSHostName_eq (name : Text) (allow : Bool) : ∃ form : Bool,
    (form = true ↔ WellFormed name allow) ∧
      isValidDNSHostName name allow = some (form && !isReverseLookupName name) := by
  have hbody := body_length name allow
  rw [isValidDNSHostName]
  by_cases hstart : name = [] ∨ name.head? = some (ch '_')
  · refine ⟨false, iff_of_false Bool.false_ne_true fun hform => ?_, by rw [if_pos hstart, Bool.false_and]⟩
    rcases hstart with hnil | hhead
    · refine not_wellFormed_nil ?_ hform
      rw [body, hnil]
      split
      · rfl
      · rfl
    · exact hform.first hhead
  · rw [if_neg hstart, ← hbody]
    simp only
    by_cases hlen : (body name allow).length = 0 ∨ (body name allow).length > 253
    · refine ⟨false, iff_of_false Bool.false_ne_true fun hform => ?_, by rw [if_pos hlen, Bool.false_and]⟩
      rcases hlen with hzero | hlong
      · exact not_wellFormed_nil (List.length_eq_zero_iff.mp hzero) hform
      · exact absurd hform.short (not_le.mpr hlong)
    · rw [not_or] at hlen hstart
      have hne : body name allow ≠ [] := fun h => hlen.1 (List.length_eq_zero_iff.mpr h)
      have hform : WellFormed name allow ↔ ∀ l ∈ (body name allow).splitOn (ch '.'), Label l :=
        ⟨WellFormed.labels, fun h => ⟨h, not_lt.mp hlen.2, hstart.2⟩⟩
      have hrest : ∃ rest, name.drop 0 = body name allow ++ rest := by
        rcases body_append name allow with h | h
        · exact ⟨[], by rw [List.append_nil]; exact h⟩
        · exact ⟨[ch '.'], h⟩
      obtain ⟨rest, hrest⟩ := hrest
      have hscan := @scan_iff (body name allow) _ _ _ begun_nil
      rw [List.nil_append, ← hform] at hscan
      rw [if_neg (not_or.mpr hlen), labels_eq (fun hz => absurd rfl hz) hrest, Option.bind_some]
      rcases hresult : scan 0 0 (body name allow) with _ | ⟨m, q⟩
      · refine ⟨false, iff_of_false Bool.false_ne_true fun h => ?_, rfl⟩
        obtain ⟨_, _, heq, _⟩ := hscan.mpr h
        rw [hresult] at heq
        cases heq
      · have hlast : name[(body name allow).length - 1]? = some q := by
          rw [getLast?_body hne, scan_last hresult, List.getLast?_eq_some_getLast hne]
          rfl
        have hdone : (m ≠ 0 ∧ q ≠ ch '-') ↔ WellFormed name allow := by
          rw [← hscan, hresult]
          constructor
          · intro h
            exact ⟨m, q, rfl, h⟩
          · rintro ⟨m', q', heq, h⟩
            rw [Option.some.injEq, Prod.mk.injEq] at heq
            rwa [heq.1, heq.2]
        refine ⟨decide (m ≠ 0 ∧ q ≠ ch '-'), by rw [decide_eq_true_iff, hdone], ?_⟩
        simp only [Option.map_some, hlast, Option.bind_some]
        by_cases hm : m = 0
        · simp [hm]
        · by_cases hq : q = ch '-'
          · simp [hq]
          · simp [hm, hq]

/-! ## Addresses and reverse-lookup names -/

theorem scanNumber_digits {l rest : Text} (hne : l ≠ []) (hall : ∀ x ∈ l, isDigit x)
    (hrest : ∀ c, rest.head? = some c → isDigit c = false) : scanNumber (l ++ rest) = some rest := by
  obtain ⟨c, t, rfl⟩ := List.exists_cons_of_ne_nil hne
  have hc := hall c (List.mem_cons_self ..)
  have hspace := not_isSpace (.inr hc)
  have htake : ((c :: t) ++ rest).takeWhile isDigit = c :: t := by
    rw [List.takeWhile_append_of_pos hall]
    cases rest with
    | nil => rw [List.takeWhile_nil, List.append_nil]
    | cons d rest => rw [List.takeWhile_cons_of_neg (by rw [hrest d rfl]; decide), List.append_nil]
  have hdrop : ((c :: t) ++ rest).dropWhile isDigit = rest := by
    have hsplit := List.takeWhile_append_dropWhile (p := isDigit) (l := (c :: t) ++ rest)
    rw [htake] at hsplit
    exact List.append_cancel_left hsplit
  have hnospace : ((c :: t) ++ rest).dropWhile isSpace = (c :: t) ++ rest := by
    rw [List.cons_append, List.dropWhile_cons_of_neg (by rw [hspace]; decide)]
  have hsign : ¬ (((c :: t) ++ rest).head? = some (ch '+') ∨ ((c :: t) ++ rest).head? = some (ch '-')) := by
    rw [List.cons_append, List.head?_cons, not_or]
    exact ⟨fun h => (isDigit_ne hc).2 (Option.some.inj h), fun h => (isDigit_ne hc).1 (Option.some.inj h)⟩
  rw [scanNumber, hnospace]
  simp only [if_neg hsign, htake, hdrop, if_neg (List.cons_ne_nil c t)]

theorem dot_not_digit {rest : Text} : ∀ c, (ch '.' :: rest).head? = some c → isDigit c = false := by
  intro c hc
  rw [List.head?_cons, Option.some.injEq] at hc
  rw [← hc]
  decide

theorem scanDot_dot (rest : Text) : scanDot (ch '.' :: rest) = some rest := rfl

theorem scansAddress_of_literal (h : Ipv4Literal (body name allow)) : scansAddress name = true := by
  obtain ⟨a, b, c, d, hsplit, hall⟩ := h
  have hbody : [ch '.'].intercalate ((body name allow).splitOn (ch '.')) = body name allow :=
    List.intercalate_splitOn _
  rw [hsplit] at hbody
  simp only [List.intercalate_cons_cons, List.intercalate_singleton, List.append_assoc, List.singleton_append] at hbody
  have hrest : ∃ rest, (∀ x, rest.head? = some x → isDigit x = false) ∧
      name = a ++ ch '.' :: (b ++ ch '.' :: (c ++ ch '.' :: (d ++ rest))) := by
    rcases body_append name allow with hname | hname
    · refine ⟨[], (fun x hx => by cases hx), ?_⟩
      rw [hname, ← hbody, List.append_nil]
    · refine ⟨[ch '.'], dot_not_digit, ?_⟩
      rw [hname, ← hbody]
      simp only [List.append_assoc, List.cons_append]
  obtain ⟨rest, hend, hname⟩ := hrest
  simp only [List.forall_mem_cons] at hall
  obtain ⟨ha, hb, hc, hd, _⟩ := hall
  rw [scansAddress, hname, scanNumber_digits ha.1 ha.2.1 dot_not_digit, Option.bind_some, scanDot_dot, Option.bind_some,
    scanNumber_digits hb.1 hb.2.1 dot_not_digit, Option.bind_some, scanDot_dot, Option.bind_some,
    scanNumber_digits hc.1 hc.2.1 dot_not_digit, Option.bind_some, scanDot_dot, Option.bind_some,
    scanNumber_digits hd.1 hd.2.1 hend]
  rfl

/-- What the code finds at the end of a name is at the end of its body. -/
theorem reverse_of_endsWith {arpa : Text} {q : UInt8} (hlower : arpa.map toLower = arpa)
    (hlast : arpa.getLast? = some q) (hdot : q ≠ ch '.') (h : endsWith name arpa = true) : endsWith ((body name allow).map toLower) arpa = true := by
  rw [endsWith, List.isSuffixOf_iff_suffix] at h ⊢
  obtain ⟨t, rfl⟩ := h
  have hbody : body (t ++ arpa) allow = t ++ arpa := by
    rw [body, if_neg]
    rintro ⟨_, hend⟩
    rw [List.getLast?_append, hlast, Option.some_or, Option.some.injEq] at hend
    exact hdot hend
  rw [hbody, List.map_append, hlower]
  exact List.suffix_append ..

theorem reverseName_of (h : endsWith name inAddrArpa = true ∨ endsWith name ip6Arpa = true) :
    ReverseName (body name allow) := by
  rcases h with h | h
  · exact Or.inl (reverse_of_endsWith (q := ch 'a') (by decide) (by decide) (by decide) h)
  · exact Or.inr (reverse_of_endsWith (q := ch 'a') (by decide) (by decide) (by decide) h)

/-- One test is too wide, the other too narrow. -/
theorem judged_iff {form literal reverse ends scans : Prop} (hliteral : literal → scans) (hreverse : ends → reverse) :
    (form ∧ ¬ (ends ∨ scans) ↔ form ∧ ¬ literal ∧ ¬ reverse) ↔
      ¬ (form ∧ (scans ∧ ¬ literal ∧ ¬ reverse ∨ reverse ∧ ¬ (ends ∨ scans))) := by
  tauto

theorem isReverseLookupName_iff (name : Text) : isReverseLookupName name = true ↔
    (endsWith name inAddrArpa = true ∨ endsWith name ip6Arpa = true) ∨ scansAddress name = true := by
  rw [isReverseLookupName, Bool.or_eq_true, Bool.or_eq_true]

/-- The names that are not judged as they should be. -/
theorem dns_iff (name : Text) (allow : Bool) :
    (isValidDNSHostName name allow = some true ↔ DnsHostName name allow) ↔ ¬ DnsMistaken name allow := by
  obtain ⟨form, hform, heq⟩ := isValidDNSHostName_eq name allow
  have hcode : isValidDNSHostName name allow = some true ↔
      WellFormed name allow ∧ ¬ isReverseLookupName name = true := by
    rw [heq, Option.some.injEq, Bool.and_eq_true, hform, Bool.not_eq_true', Bool.not_eq_true]
  have hspec : DnsHostName name allow ↔
      WellFormed name allow ∧ ¬ Ipv4Literal (body name allow) ∧ ¬ ReverseName (body name allow) :=
    ⟨fun h => ⟨h.form, h.noAddress, h.noReverse⟩, fun h => ⟨h.1, h.2.1, h.2.2⟩⟩
  rw [hcode, hspec, DnsMistaken, isReverseLookupName_iff]
  exact judged_iff scansAddress_of_literal reverseName_of

/-! ## isValidUTF8DisplayName -/

/-- The masks of the source, as ranges. -/
theorem byte_table (c : UInt8) : (c &&& 0xC0 = 0x80 ↔ Cont c) ∧ (0x80 ≤ c → following c =
    if 0xC2 ≤ c ∧ c ≤ 0xDF then some 1 else if 0xE0 ≤ c ∧ c ≤ 0xEF then some 2
    else if 0xF0 ≤ c ∧ c ≤ 0xF4 then some 3 else none) := by
  have all : ∀ c : UInt8, (c &&& 0xC0 = 0x80 ↔ Cont c) ∧ (0x80 ≤ c → following c =
      if 0xC2 ≤ c ∧ c ≤ 0xDF then some 1 else if 0xE0 ≤ c ∧ c ≤ 0xEF then some 2
      else if 0xF0 ≤ c ∧ c ≤ 0xF4 then some 3 else none) := forall_byte (by decide)
  exact all c

/-- A sequence is a leading byte and what should follow it. -/
theorem form_iff (c : UInt8) (t : Text) :
    Form (c :: t) ↔ c < 0x80 ∧ t = [] ∨ 0x80 ≤ c ∧ following c = some t.length ∧ ∀ x ∈ t, Cont x := by
  constructor
  · intro h
    cases h with
    | one h => exact Or.inl ⟨h, rfl⟩
    | two h1 h2 hb =>
      have hc : 0x80 ≤ c := le_trans (b := 0xC2) (by decide) h1
      refine Or.inr ⟨hc, ?_, by simpa using hb⟩
      rw [(byte_table c).2 hc, if_pos ⟨h1, h2⟩]
      rfl
    | three h1 h2 hb hd =>
      have hc : 0x80 ≤ c := le_trans (b := 0xE0) (by decide) h1
      have hno : ¬ (0xC2 ≤ c ∧ c ≤ 0xDF) := fun h => absurd (UInt8.le_trans h1 h.2) (by decide)
      refine Or.inr ⟨hc, ?_, by simpa using ⟨hb, hd⟩⟩
      rw [(byte_table c).2 hc, if_neg hno, if_pos ⟨h1, h2⟩]
      rfl
    | four h1 h2 hb hd he =>
      have hc : 0x80 ≤ c := le_trans (b := 0xF0) (by decide) h1
      have hno : ¬ (0xC2 ≤ c ∧ c ≤ 0xDF) := fun h => absurd (UInt8.le_trans h1 h.2) (by decide)
      have hno' : ¬ (0xE0 ≤ c ∧ c ≤ 0xEF) := fun h => absurd (UInt8.le_trans h1 h.2) (by decide)
      refine Or.inr ⟨hc, ?_, by simpa using ⟨hb, hd, he⟩⟩
      rw [(byte_table c).2 hc, if_neg hno, if_neg hno', if_pos ⟨h1, h2⟩]
      rfl
  · rintro (⟨hc, rfl⟩ | ⟨hc, hn, hcont⟩)
    · exact .one hc
    · rw [(byte_table c).2 hc] at hn
      split at hn
      · rename_i h
        obtain ⟨a, rfl⟩ := List.length_eq_one_iff.mp (Option.some.inj hn).symm
        exact .two h.1 h.2 (hcont a (List.mem_cons_self ..))
      · split at hn
        · rename_i h
          obtain ⟨a, b, rfl⟩ := List.length_eq_two.mp (Option.some.inj hn).symm
          exact .three h.1 h.2 (hcont a (by simp)) (hcont b (by simp))
        · split at hn
          · rename_i h
            obtain ⟨a, b, d, rfl⟩ := List.length_eq_three.mp (Option.some.inj hn).symm
            exact .four h.1 h.2 (hcont a (by simp)) (hcont b (by simp)) (hcont d (by simp))
          · cases hn

theorem following_pos {c : UInt8} {n : ℕ} (h : following c = some n) : 0 < n := by
  rw [following] at h
  split at h
  · rw [← Option.some.inj h]
    decide
  · split at h
    · rw [← Option.some.inj h]
      decide
    · split at h
      · rw [← Option.some.inj h]
        decide
      · cases h

theorem continues_eq {k r : ℕ} (h : k + r ≤ name.length) :
    ∃ b, continues name r k = some b ∧ (b = true ↔ ∀ x ∈ (name.drop k).take r, Cont x) := by
  induction r generalizing k with
  | zero => exact ⟨true, rfl, by simp⟩
  | succ r ih =>
    have hk : k < name.length := by omega
    obtain ⟨b, hb, hiff⟩ := ih (k := k + 1) (by omega)
    rw [continues, List.getElem?_eq_getElem hk, Option.bind_some, List.drop_eq_getElem_cons hk, List.take_succ_cons,
      List.forall_mem_cons, ← (byte_table name[k]).1, hb]
    by_cases hcont : name[k] &&& 0xC0 = 0x80
    · rw [if_neg (not_not.mpr hcont)]
      exact ⟨b, rfl, by rw [hiff, and_iff_right hcont]⟩
    · rw [if_pos hcont]
      exact ⟨false, rfl, iff_of_false Bool.false_ne_true fun hall => hcont hall.1⟩

/-- A string of sequences that pass. -/
def Sequences (s : Text) : Prop := ∃ ls : List Text, s = ls.flatten ∧ ∀ l ∈ ls, Passes l

theorem sequences_nil : Sequences [] := ⟨[], rfl, fun _ hl => absurd hl List.not_mem_nil⟩

theorem sequences_cons (c : UInt8) (t : Text) :
    Sequences (c :: t) ↔ ∃ u rest, t = u ++ rest ∧ Passes (c :: u) ∧ Sequences rest := by
  constructor
  · rintro ⟨ls, hs, hall⟩
    rcases ls with _ | ⟨l, ls⟩
    · cases hs
    · have hl := hall l (List.mem_cons_self ..)
      obtain ⟨a, u, rfl⟩ := List.exists_cons_of_ne_nil hl.1.ne_nil
      rw [List.flatten_cons, List.cons_append, List.cons.injEq] at hs
      obtain ⟨rfl, ht⟩ := hs
      exact ⟨u, ls.flatten, ht, hl, ls, rfl, fun v hv => hall v (List.mem_cons_of_mem _ hv)⟩
  · rintro ⟨u, rest, rfl, hl, ls, rfl, hall⟩
    refine ⟨(c :: u) :: ls, by rw [List.flatten_cons, List.cons_append], ?_⟩
    rw [List.forall_mem_cons]
    exact ⟨hl, hall⟩

theorem sequences_one {c : UInt8} {t : Text} (hc : c < 0x80) :
    Sequences (c :: t) ↔ ¬ (c < 0x20 ∨ c = 0x7F ∨ c ∈ quoting) ∧ Sequences t := by
  have hpasses : ∀ u, Passes (c :: u) ↔ u = [] ∧ ¬ (c < 0x20 ∨ c = 0x7F ∨ c ∈ quoting) := by
    intro u
    rw [Passes, form_iff, or_iff_left (fun h => absurd hc (UInt8.not_lt.mpr h.1)), and_iff_right hc]
    refine and_congr_right fun hu => ?_
    rw [hu, not_or, not_or, UInt8.not_lt]
    constructor
    · intro h
      exact h c rfl
    · rintro h x hx
      rw [← (List.cons.inj hx).1]
      exact h
  rw [sequences_cons]
  constructor
  · rintro ⟨u, rest, rfl, hu, hrest⟩
    obtain ⟨rfl, hok⟩ := (hpasses u).mp hu
    exact ⟨hok, hrest⟩
  · rintro ⟨hok, ht⟩
    exact ⟨[], t, rfl, (hpasses []).mpr ⟨rfl, hok⟩, ht⟩

theorem sequences_more {c : UInt8} {t : Text} (hc : 0x80 ≤ c) : Sequences (c :: t) ↔
    ∃ n, following c = some n ∧ n ≤ t.length ∧ (∀ x ∈ t.take n, Cont x) ∧ Sequences (t.drop n) := by
  have hpasses : ∀ u, Passes (c :: u) ↔ following c = some u.length ∧ ∀ x ∈ u, Cont x := by
    intro u
    rw [Passes, form_iff, or_iff_right (fun h => absurd h.1 (UInt8.not_lt.mpr hc)), and_iff_right hc]
    refine and_iff_left_of_imp fun h x hx => ?_
    have hpos := following_pos h.1
    rw [(List.cons.inj hx).2] at hpos
    exact absurd hpos (lt_irrefl _)
  rw [sequences_cons]
  constructor
  · rintro ⟨u, rest, rfl, hu, hrest⟩
    obtain ⟨hn, hcont⟩ := (hpasses u).mp hu
    refine ⟨u.length, hn, ?_, ?_, ?_⟩
    · rw [List.length_append]
      exact Nat.le_add_right ..
    · rwa [List.take_left]
    · rwa [List.drop_left]
  · rintro ⟨n, hn, hlen, hcont, hrest⟩
    refine ⟨t.take n, t.drop n, (List.take_append_drop n t).symm, (hpasses _).mpr ⟨?_, hcont⟩, hrest⟩
    rw [List.length_take, Nat.min_eq_left hlen]
    exact hn

/-- The loop returns, and accepts strings of sequences that pass. -/
theorem utf8_eq {i : ℕ} (hi : i ≤ name.length) : ∃ b, utf8 name i = some b ∧ (b = true ↔ Sequences (name.drop i)) := by
  induction hk : name.length - i using Nat.strong_induction_on generalizing i with
  | _ k ih =>
    rw [utf8]
    by_cases hlt : i < name.length
    · rw [if_pos hlt, List.getElem?_eq_getElem hlt, Option.bind_some, List.drop_eq_getElem_cons hlt]
      by_cases hone : name[i] < 0x80
      · obtain ⟨b, hb, hiff⟩ := ih (name.length - (i + 1)) (by omega) (i := i + 1) (by omega) rfl
        rw [if_pos hone, sequences_one hone]
        by_cases hbad : name[i] < 0x20 ∨ name[i] = 0x7F ∨ name[i] ∈ quoting
        · rw [if_pos hbad]
          exact ⟨false, rfl, iff_of_false Bool.false_ne_true fun h => h.1 hbad⟩
        · rw [if_neg hbad, hb]
          exact ⟨b, rfl, by rw [hiff, and_iff_right hbad]⟩
      · rw [if_neg hone, sequences_more (UInt8.not_lt.mp hone)]
        rcases hn : following name[i] with _ | n
        · exact ⟨false, rfl, iff_of_false Bool.false_ne_true fun ⟨_, h, _⟩ => by cases h⟩
        · simp only [Option.some.injEq, exists_eq_left']
          by_cases hshort : i + n ≥ name.length
          · rw [if_pos hshort]
            refine ⟨false, rfl, iff_of_false Bool.false_ne_true fun h => ?_⟩
            have hlen := h.1
            rw [List.length_drop] at hlen
            omega
          · obtain ⟨ok, hok, hcont⟩ := @continues_eq name (i + 1) n (by omega)
            obtain ⟨b, hb, hiff⟩ := ih (name.length - (i + (n + 1))) (by omega) (i := i + (n + 1)) (by omega) rfl
            have hlen : n ≤ (name.drop (i + 1)).length := by
              rw [List.length_drop]
              omega
            rw [if_neg hshort, hok, Option.bind_some, ← hcont, and_iff_right hlen, List.drop_drop, hb]
            have hnext : i + 1 + n = i + (n + 1) := by omega
            rw [hnext, ← hiff]
            cases ok with
            | false => exact ⟨false, rfl, by simp⟩
            | true => exact ⟨b, rfl, by simp⟩
    · rw [if_neg hlt, List.drop_eq_nil_of_le (by omega)]
      exact ⟨true, rfl, iff_of_true rfl sequences_nil⟩

/-! ## Characters -/

theorem not_excess {l : Text} (h : ¬ Wrong l) : ¬ Excess l := by
  rcases l with _ | ⟨a, _ | ⟨b, t⟩⟩
  · exact id
  · exact id
  · exact fun hex => h (Or.inl hex)

/-- In one byte, what the code lets through is what may be shown. -/
theorem passes_one {n : ℕ} (hn : n ≤ 0x7F) : (0x20 ≤ UInt8.ofNat n ∧ UInt8.ofNat n ≠ 0x7F ∧ UInt8.ofNat n ∉ quoting) ↔
    0x20 ≤ n ∧ ¬ (0x7F ≤ n ∧ n ≤ 0x9F) ∧ n ∉ [0x3C, 0x3E, 0x22, 0x5C, 0x60] := by
  have all : ∀ i < 8, ∀ j < 16, (0x20 ≤ UInt8.ofNat (i * 16 + j) ∧ UInt8.ofNat (i * 16 + j) ≠ 0x7F ∧
      UInt8.ofNat (i * 16 + j) ∉ quoting) ↔ 0x20 ≤ i * 16 + j ∧ ¬ (0x7F ≤ i * 16 + j ∧ i * 16 + j ≤ 0x9F) ∧
        i * 16 + j ∉ [0x3C, 0x3E, 0x22, 0x5C, 0x60] := by decide
  have h := all (n / 16) (by omega) (n % 16) (by omega)
  rwa [show n / 16 * 16 + n % 16 = n from by omega] at h

/-- Which encodings the code lets through without being wrong about them. -/
theorem encode_passes (c : Char) :
    (Passes (String.utf8EncodeChar c) ∧ ¬ Wrong (String.utf8EncodeChar c)) ↔ Shown c := by
  obtain ⟨hform, hex⟩ := encode_form c
  have hnat : c.toNat = c.val.toNat := rfl
  rw [Passes, and_iff_right hform, Shown, hnat]
  by_cases h1 : c.val.toNat ≤ 0x7F
  · rw [encode_one h1, ← passes_one h1]
    constructor
    · intro h
      exact h.1 _ rfl
    · intro h
      refine ⟨fun x hx => ?_, id⟩
      rw [← (List.cons.inj hx).1]
      exact h
  · have hshown : 0x20 ≤ c.val.toNat ∧ c.val.toNat ∉ [0x3C, 0x3E, 0x22, 0x5C, 0x60] := by
      refine ⟨by omega, fun hmem => ?_⟩
      have hsmall : ∀ n ∈ [0x3C, 0x3E, 0x22, 0x5C, 0x60], n ≤ 0x7F := by decide
      exact h1 (hsmall _ hmem)
    rw [and_iff_right hshown.1, and_iff_left hshown.2]
    by_cases h2 : c.val.toNat ≤ 0x7FF
    · rw [encode_two (by omega) h2] at hex ⊢
      have hwrong : Wrong [UInt8.ofNat (c.val.toNat / 64 % 32 + 0xC0), UInt8.ofNat (c.val.toNat % 64 + 0x80)] ↔
          c.val.toNat ≤ 0x9F := by
        rw [Wrong, or_iff_right hex, ← UInt8.toNat_inj, UInt8.lt_iff_toNat_lt, toNat_small (by omega),
          toNat_small (by omega)]
        show c.val.toNat / 64 % 32 + 0xC0 = 0xC2 ∧ c.val.toNat % 64 + 0x80 < 0xA0 ↔ _
        omega
      rw [hwrong, and_iff_right (fun x hx => by cases (List.cons.inj hx).2)]
      omega
    · have hmore : ∃ a b d t, String.utf8EncodeChar c = a :: b :: d :: t ∧ a ≠ 0xC2 := by
        by_cases h3 : c.val.toNat ≤ 0xFFFF
        · refine ⟨_, _, _, _, encode_three (by omega) h3, ?_⟩
          rw [Ne, ← UInt8.toNat_inj, toNat_small (by omega)]
          show c.val.toNat / 4096 % 16 + 0xE0 ≠ 0xC2
          omega
        · refine ⟨_, _, _, _, encode_four (by omega), ?_⟩
          rw [Ne, ← UInt8.toNat_inj, toNat_small (by omega)]
          show c.val.toNat / 262144 % 8 + 0xF0 ≠ 0xC2
          omega
      obtain ⟨a, b, d, t, heq, ha⟩ := hmore
      rw [heq] at hex ⊢
      refine iff_of_true ⟨(fun x hx => by cases (List.cons.inj hx).2), ?_⟩ (by omega)
      rw [Wrong, not_or]
      exact ⟨hex, fun h => ha h.1⟩

/-- Encodings of characters that may be shown are what passes rightly. -/
theorem encoded_iff (name : Text) : (∃ cs : List Char, name = cs.flatMap String.utf8EncodeChar ∧ ∀ c ∈ cs, Shown c) ↔
    ∃ ls : List Text, name = ls.flatten ∧ ∀ l ∈ ls, Passes l ∧ ¬ Wrong l := by
  constructor
  · rintro ⟨cs, rfl, hall⟩
    refine ⟨cs.map String.utf8EncodeChar, List.flatMap_def, fun l hl => ?_⟩
    obtain ⟨c, hc, rfl⟩ := List.mem_map.mp hl
    exact (encode_passes c).mpr (hall c hc)
  · rintro ⟨ls, rfl, hall⟩
    induction ls with
    | nil => exact ⟨[], rfl, fun c hc => absurd hc List.not_mem_nil⟩
    | cons l ls ih =>
      rw [List.forall_mem_cons] at hall
      obtain ⟨hl, hrest⟩ := hall
      obtain ⟨cs, hcs, hshown⟩ := ih hrest
      obtain ⟨c, rfl⟩ := (encodes_iff l).mpr ⟨hl.1.1, not_excess hl.2⟩
      refine ⟨c :: cs, by rw [List.flatten_cons, hcs, List.flatMap_cons], ?_⟩
      rw [List.forall_mem_cons]
      exact ⟨(encode_passes c).mp hl, hshown⟩

theorem isValidUTF8DisplayName_eq (name : Text) (maxLen : ℕ) : ∃ b, isValidUTF8DisplayName name maxLen = some b ∧
    (b = true ↔ (name ≠ [] ∧ name.length ≤ maxLen ∧ name.head? ≠ some (ch ' ') ∧ name.getLast? ≠ some (ch ' ')) ∧
      Sequences name) := by
  obtain ⟨b, hb, hiff⟩ := @utf8_eq name _ (Nat.zero_le _)
  rw [List.drop_zero] at hiff
  rw [isValidUTF8DisplayName]
  by_cases hfirst : name = [] ∨ name.head? = some (ch ' ')
  · rw [if_pos hfirst]
    refine ⟨false, rfl, iff_of_false Bool.false_ne_true fun h => ?_⟩
    exact hfirst.elim h.1.1 h.1.2.2.1
  · rw [if_neg hfirst]
    by_cases hlast : name.length > maxLen ∨ name.getLast? = some (ch ' ')
    · rw [if_pos hlast]
      refine ⟨false, rfl, iff_of_false Bool.false_ne_true fun h => ?_⟩
      exact hlast.elim (not_lt.mpr h.1.2.1) h.1.2.2.2
    · rw [if_neg hlast]
      rw [not_or] at hfirst hlast
      refine ⟨b, hb, ?_⟩
      rw [hiff]
      exact (and_iff_right ⟨hfirst.1, not_lt.mp hlast.1, hfirst.2, hlast.2⟩).symm

/-- The names that are not judged as they should be. -/
theorem display_iff (name : Text) (maxLen : ℕ) :
    (isValidUTF8DisplayName name maxLen = some true ↔ DisplayName name maxLen) ↔ ¬ DisplayMistaken name maxLen := by
  obtain ⟨b, hb, hiff⟩ := isValidUTF8DisplayName_eq name maxLen
  rw [hb, Option.some.injEq, hiff]
  have hspec : DisplayName name maxLen ↔
      (name ≠ [] ∧ name.length ≤ maxLen ∧ name.head? ≠ some (ch ' ') ∧ name.getLast? ≠ some (ch ' ')) ∧
        ∃ ls : List Text, name = ls.flatten ∧ ∀ l ∈ ls, Passes l ∧ ¬ Wrong l := by
    rw [← encoded_iff]
    exact ⟨fun h => ⟨⟨h.nonempty, h.short, h.first, h.last⟩, h.chars⟩,
      fun h => ⟨h.2, h.1.1, h.1.2.1, h.1.2.2.1, h.1.2.2.2⟩⟩
  rw [hspec]
  constructor
  · rintro heq ⟨hne, hshort, hfirst, hlast, ls, hname, hpasses, l, hl, hwrong⟩
    obtain ⟨_, ls', hname', hright⟩ := heq.mp ⟨⟨hne, hshort, hfirst, hlast⟩, ls, hname, hpasses⟩
    have hsame : ls = ls' := forms_unique (fun l hl => (hpasses l hl).1) (fun l hl => (hright l hl).1.1)
      (hname.symm.trans hname')
    exact (hright l (hsame ▸ hl)).2 hwrong
  · intro hno
    refine and_congr_right fun hends => ⟨fun hseq => ?_, fun hright => ?_⟩
    · obtain ⟨ls, hname, hpasses⟩ := hseq
      refine ⟨ls, hname, fun l hl => ⟨hpasses l hl, fun hwrong => hno ?_⟩⟩
      exact ⟨hends.1, hends.2.1, hends.2.2.1, hends.2.2.2, ls, hname, hpasses, l, hl, hwrong⟩
    · obtain ⟨ls, hname, hright⟩ := hright
      exact ⟨ls, hname, fun l hl => (hright l hl).1⟩

/-! ## Both -/

/-- Both functions return, and each judges a name as it should exactly if the name is not of the one kind. -/
theorem names_law (name : Text) (allowTrailingDot : Bool) (maxLen : ℕ) :
    ((isValidDNSHostName name allowTrailingDot).isSome ∧ (isValidUTF8DisplayName name maxLen).isSome) ∧
      ((isValidDNSHostName name allowTrailingDot = some true ↔ DnsHostName name allowTrailingDot) ↔
        ¬ DnsMistaken name allowTrailingDot) ∧
      ((isValidUTF8DisplayName name maxLen = some true ↔ DisplayName name maxLen) ↔ ¬ DisplayMistaken name maxLen) := by
  obtain ⟨_, _, hdns⟩ := isValidDNSHostName_eq name allowTrailingDot
  obtain ⟨_, hutf8, _⟩ := isValidUTF8DisplayName_eq name maxLen
  refine ⟨⟨?_, ?_⟩, dns_iff name allowTrailingDot, display_iff name maxLen⟩
  · rw [hdns]
    rfl
  · rw [hutf8]
    rfl

/-- The dot at the end hides that it is a reverse-lookup name. -/
theorem trailing_dot_passes : ¬ ∀ (name : Text) (allowTrailingDot : Bool) (maxLen : ℕ),
    (isValidDNSHostName name allowTrailingDot = some true ↔ DnsHostName name allowTrailingDot) ∧
      (isValidUTF8DisplayName name maxLen = some true ↔ DisplayName name maxLen) := by
  intro hall
  have hname := (hall (text "1.in-addr.arpa.") true 0).1.mp (by decide)
  exact hname.noReverse (Or.inl (by decide))

end Ntopng.Hosts.HostNames
