/-
  Ntopng.Text.Purify — `Utils::purifyHTTPparam` (src/Utils.cpp).

  One pass in place, in which a byte that is not good becomes '_', and so do both bytes of a
  pair that is not allowed. Two ways lead around it: a string that starts with a byte of UTF-8
  and is UTF-8 is left as it is, and a strict one with an XSS attempt is emptied. Otherwise a
  byte 0xC3 is judged by the byte behind it, taken for the second one of a Latin-1 letter: bit
  0x40 is set in what is tested, but not in what stays. The index is an `int`; `none` is its
  overflow.

  Proved: what comes out is never longer, and purified again it stays (`purify_again`). It is
  clean just if (`clean_iff`) the string that is left alone was, or the pass was strict, or
  there was no '<', '>' or '"' behind an odd number of bytes 0xC3 (`hidden`).
-/

import Ntopng.Lib.CString

namespace Ntopng.Text.Purify

open Ntopng.Lib.CString

/-! ## The function -/

def xssAttempts : List (List UInt8) :=
  ["<?import", "<applet", "<base", "<embed", "<frame", "<iframe", "<implementation", "<import", "<link", "<meta", "<object",
    "<script", "<style", "charset", "classid", "code", "codetype", "href", "http-equiv", "javascript:", "vbscript:",
    "vmlframe", "xlink:href", "="].map text

/-- `isprint` in the C locale, or a letter of Latin-1. -/
def isPrintableChar (c : UInt8) : Bool := (0x20 ≤ c && c ≤ 0x7e) || 192 ≤ c

def isContinuation (c : UInt8) : Bool := c >>> 6 = 0b10

def isValidUTF8 : List UInt8 → Bool
  | [] => true
  | byte :: s =>
    if byte < 0x80 then isValidUTF8 s
    else if byte >>> 5 = 0b110 then
      match s with
      | c1 :: s => isContinuation c1 && isValidUTF8 s
      | _ => false
    else if byte >>> 4 = 0b1110 then
      match s with
      | c1 :: c2 :: s => isContinuation c1 && isContinuation c2 && isValidUTF8 s
      | _ => false
    else if byte >>> 3 = 0b11110 then
      match s with
      | c1 :: c2 :: c3 :: s => isContinuation c1 && isContinuation c2 && isContinuation c3 && isValidUTF8 s
      | _ => false
    else false

def strictGood (c : UInt8) : Bool :=
  (ch 'a' ≤ c && c ≤ ch 'z') || (ch 'A' ≤ c && c ≤ ch 'Z') || (ch '0' ≤ c && c ≤ ch '9') || c = ch '_' || c = ch '@'

def isMarkup (c : UInt8) : Bool := c = ch '<' || c = ch '>' || c = ch '"'

def isGood (c : UInt8) : Bool := isPrintableChar c && !isMarkup c

structure Flags where
  strict : Bool
  allowURL : Bool
  allowDots : Bool

def isBad (fl : Flags) (c : UInt8) : Bool :=
  (!fl.allowDots && c = ch '.') || (!fl.allowURL && c = ch '/') || c = ch '\\'

/-- `param[i]` is `c`; what is before it is `done`, backwards. -/
def place (fl : Flags) (c : UInt8) : (done : List UInt8) → List UInt8
  | [] => [c]
  | p :: done => if isBad fl c ∧ p = c then ch '_' :: ch '_' :: done else c :: p :: done

def purifyLoop (fl : Flags) : List UInt8 → (done : List UInt8) → List UInt8
  | [], done => done.reverse
  | c :: s, done =>
    if fl.strict then purifyLoop fl s (place fl (if strictGood c then c else ch '_') done)
    else
      match s with
      | d :: s' =>
        if c = 0xC3 then
          -- Two bytes at once, of which the first one needs no check with what is before it.
          if isGood (d ||| 0x40) then purifyLoop fl s' (place fl d (c :: done))
          else purifyLoop fl (d :: s') (place fl (ch '_') done)
        else purifyLoop fl (d :: s') (place fl (if isGood c then c else ch '_') done)
      | [] => purifyLoop fl [] (place fl (if isGood c then c else ch '_') done)

def isUTF8String : List UInt8 → Bool
  | [] => false
  | c :: s => 0x80 ≤ c && isValidUTF8 (c :: s)

def isXss (s : List UInt8) : Bool := xssAttempts.any fun a => a <:+: s

def purifyHTTPparam (fl : Flags) (param : List UInt8) : Option (Bool × List UInt8) :=
  if isUTF8String param then some (true, param)
  else if fl.strict ∧ isXss param then some (true, [])
  else if param.length ≥ 2 ^ 31 then none
  else some (false, purifyLoop fl param [])

/-! ## What it is for -/

structure Clean (fl : Flags) (s : List UInt8) : Prop where
  bytes : ∀ c ∈ s, if fl.strict then strictGood c = true else isMarkup c = false
  dots : fl.allowDots = false → ¬ [ch '.', ch '.'] <:+: s
  slashes : fl.allowURL = false → ¬ [ch '/', ch '/'] <:+: s
  backslashes : ¬ [ch '\\', ch '\\'] <:+: s

/-- Purified: not longer, clean, and as it is purified again. -/
def Purifies (fl : Flags) (s : List UInt8) : Prop :=
  ∃ ret r, purifyHTTPparam fl s = some (ret, r) ∧ r.length ≤ s.length ∧ Clean fl r ∧
    ∃ ret', purifyHTTPparam fl r = some (ret', r)

/-- A byte of markup behind an odd number of bytes 0xC3. -/
def hidden : (odd : Bool) → List UInt8 → Bool
  | _, [] => false
  | odd, c :: s => if c = 0xC3 then hidden (!odd) s else (odd && isMarkup c) || hidden false s

def Holds (fl : Flags) (s : List UInt8) : Prop :=
  if isUTF8String s then Clean fl s
  else (fl.strict = true ∧ isXss s = true) ∨ (s.length < 2 ^ 31 ∧ (fl.strict = true ∨ hidden false s = false))

/-! ## Pairs -/

section Pairs

variable {fl : Flags}

/-- No pair that is not allowed. -/
def NoPair (fl : Flags) (s : List UInt8) : Prop := s.IsChain fun a b => ¬ (isBad fl a ∧ b = a)

theorem not_isBad_underscore : isBad fl (ch '_') = false := by
  cases fl with
  | mk strict url dots => cases url <;> cases dots <;> rfl

theorem noPair_cons {c : UInt8} {s : List UInt8} (h : NoPair fl s) (hc : ∀ p t, s = p :: t → ¬ (isBad fl c ∧ p = c)) :
    NoPair fl (c :: s) := by
  rcases s with _ | ⟨p, t⟩
  · exact List.isChain_singleton c
  · exact List.isChain_cons_cons.mpr ⟨hc p t rfl, h⟩

theorem noPair_underscore {s : List UInt8} (h : NoPair fl s) : NoPair fl (ch '_' :: s) :=
  noPair_cons h fun _ _ _ hb => by
    rw [not_isBad_underscore] at hb
    cases hb.1

theorem NoPair.tail {c : UInt8} {s : List UInt8} (h : NoPair fl (c :: s)) : NoPair fl s := by
  rcases s with _ | ⟨p, t⟩
  · exact List.isChain_nil
  · exact (List.isChain_cons_cons.mp h).2

theorem noPair_place (c : UInt8) {done : List UInt8} (h : NoPair fl done) : NoPair fl (place fl c done) := by
  rcases done with _ | ⟨p, t⟩
  · exact List.isChain_singleton c
  · rw [place]
    split
    · exact noPair_underscore (noPair_underscore h.tail)
    · rename_i hc
      exact List.isChain_cons_cons.mpr ⟨hc, h⟩

theorem place_stay {c : UInt8} {done : List UInt8} (h : NoPair fl (c :: done)) : place fl c done = c :: done := by
  rcases done with _ | ⟨p, t⟩
  · rfl
  · exact if_neg (List.isChain_cons_cons.mp h).1

theorem place_of_not_isBad {c : UInt8} (h : isBad fl c = false) (done : List UInt8) : place fl c done = c :: done := by
  rcases done with _ | ⟨p, t⟩
  · rfl
  · exact if_neg fun hb => by
      rw [h] at hb
      cases hb.1

theorem length_place (c : UInt8) (done : List UInt8) : (place fl c done).length = done.length + 1 := by
  rcases done with _ | ⟨p, t⟩
  · rfl
  · rw [place]
    split <;> rfl

theorem isBad_cases {c : UInt8} (h : isBad fl c) : c = ch '.' ∨ c = ch '/' ∨ c = ch '\\' := by
  simp only [isBad, Bool.or_eq_true, Bool.and_eq_true, decide_eq_true_eq] at h
  tauto

theorem not_isMarkup_of_isBad {c : UInt8} (h : isBad fl c) : isMarkup c = false := by
  rcases isBad_cases h with rfl | rfl | rfl
  · decide
  · decide
  · decide

/-- Markup is no pair, and stays. -/
theorem markup_place (c : UInt8) (done : List UInt8) :
    (∃ x ∈ place fl c done, isMarkup x) ↔ isMarkup c ∨ ∃ x ∈ done, isMarkup x := by
  rcases done with _ | ⟨p, t⟩
  · simp [place]
  · rw [place]
    split
    · rename_i hb
      obtain ⟨hbad, rfl⟩ := hb
      have hunder : isMarkup (ch '_') = false := by decide
      simp [hunder, not_isMarkup_of_isBad hbad]
    · simp

end Pairs

/-! ## The strict pass -/

def strictByte (c : UInt8) : UInt8 := if strictGood c then c else ch '_'

theorem strictGood_strictByte (c : UInt8) : strictGood (strictByte c) := by
  unfold strictByte
  split
  · assumption
  · decide

theorem not_isBad_of_strictGood {fl : Flags} {c : UInt8} (h : strictGood c) : isBad fl c = false := by
  have all : ∀ c, strictGood c → c ≠ ch '.' ∧ c ≠ ch '/' ∧ c ≠ ch '\\' := forall_byte (by decide)
  obtain ⟨h1, h2, h3⟩ := all c h
  simp [isBad, h1, h2, h3]

theorem strictLoop_eq {fl : Flags} (hst : fl.strict) (s done : List UInt8) :
    purifyLoop fl s done = done.reverse ++ s.map strictByte := by
  induction s generalizing done with
  | nil => rw [purifyLoop, List.map_nil, List.append_nil]
  | cons c s ih =>
    have hbad : isBad fl (strictByte c) = false := not_isBad_of_strictGood (strictGood_strictByte c)
    have hplace := place_of_not_isBad hbad done
    have hstep : purifyLoop fl (c :: s) done = purifyLoop fl s (place fl (strictByte c) done) := by
      rw [purifyLoop.eq_def]
      exact if_pos hst
    rw [hstep, hplace, ih, List.reverse_cons, List.append_assoc, List.singleton_append, List.map_cons]

/-- An attempt has no '_', so what the pass writes makes none. -/
theorem isXss_map {s : List UInt8} (h : isXss s = false) : isXss (s.map strictByte) = false := by
  rw [isXss, List.any_eq_false] at h ⊢
  intro a ha hin
  have hno : ∀ a ∈ xssAttempts, ch '_' ∉ a := by decide
  obtain ⟨u, v, huv⟩ := of_decide_eq_true hin
  obtain ⟨uw, w, rfl, huw, hw⟩ := List.map_eq_append_iff.mp huv.symm
  obtain ⟨u', x, rfl, hu, rfl⟩ := List.map_eq_append_iff.mp huw
  have hsame : x.map strictByte = x := by
    refine (List.map_congr_left fun c hc => ?_).trans (List.map_id x)
    by_contra hne
    have hc' : strictByte c = ch '_' := by
      by_cases hg : strictGood c
      · exact absurd (if_pos hg) hne
      · exact if_neg hg
    exact hno _ ha (hc' ▸ List.mem_map_of_mem hc)
  rw [hsame] at ha
  exact h x ha (decide_eq_true ⟨u', w, rfl⟩)

/-! ## The other pass -/

section Loose

variable {fl : Flags}

/-- The bytes that stay: good ones, and 0xC3 with a byte that is good behind it. Backwards. -/
inductive Closed : List UInt8 → Prop
  | nil : Closed []
  | single {c : UInt8} {l : List UInt8} : c ≠ 0xC3 → isGood c → Closed l → Closed (c :: l)
  | pair {d : UInt8} {l : List UInt8} : isGood (d ||| 0x40) → Closed l → Closed (d :: 0xC3 :: l)

theorem closed_underscore {p : UInt8} {l : List UInt8} (h : Closed (p :: l)) : Closed (ch '_' :: l) := by
  rcases h with _ | ⟨-, -, hl⟩ | ⟨-, hl⟩
  · exact .single (by decide) (by decide) hl
  · exact .pair (by decide) hl

theorem isBad_ne {c : UInt8} (h : isBad fl c) : c ≠ 0xC3 := by
  rintro rfl
  rcases isBad_cases h with h | h | h
  · revert h
    decide
  · revert h
    decide
  · revert h
    decide

theorem closed_place {c : UInt8} {done : List UInt8} (hc : c ≠ 0xC3) (hg : isGood c) (h : Closed done) :
    Closed (place fl c done) := by
  rcases done with _ | ⟨p, t⟩
  · exact .single hc hg h
  · rw [place]
    split
    · rename_i hb
      obtain ⟨hbad, rfl⟩ := hb
      exact .single (by decide) (by decide) (closed_underscore h)
    · exact .single hc hg h

theorem place_pair (d : UInt8) (done : List UInt8) : place fl d (0xC3 :: done) = d :: 0xC3 :: done := by
  refine if_neg ?_
  rintro ⟨hb, rfl⟩
  exact isBad_ne hb rfl

theorem place_c3 (done : List UInt8) : place fl 0xC3 done = 0xC3 :: done :=
  place_of_not_isBad (Bool.eq_false_iff.mpr fun hb => isBad_ne hb rfl) done

theorem isGood_byte (c : UInt8) : isGood (if isGood c then c else ch '_') := by
  split
  · assumption
  · decide

/-- What the pass keeps, with a byte 0xC3 at the end that has nothing behind it. -/
theorem loop_inv {P : List UInt8 → Prop} (hst : ¬ fl.strict)
    (hsingle : ∀ c done, c ≠ 0xC3 → isGood c → P done → P (place fl c done))
    (hpair : ∀ d done, isGood (d ||| 0x40) → P done → P (d :: 0xC3 :: done)) (s : List UInt8) {done : List UInt8} (h : P done) :
    ∃ l, P l ∧ (purifyLoop fl s done = l.reverse ∨ purifyLoop fl s done = (0xC3 :: l).reverse) := by
  have hbyte : ∀ c, c ≠ 0xC3 → (if isGood c then c else ch '_') ≠ 0xC3 := fun c hc => by
    split
    · exact hc
    · decide
  induction s, done using purifyLoop.induct fl with
  | case1 done => exact ⟨done, h, .inl (by rw [purifyLoop])⟩
  | case2 c s done hs _ => exact absurd hs hst
  | case3 done _ d s' hg ih =>
    rw [purifyLoop, if_neg hst, if_pos rfl, if_pos hg]
    exact ih (place_pair d done ▸ hpair d done hg h)
  | case4 done _ d s' hg ih =>
    rw [purifyLoop, if_neg hst, if_pos rfl, if_neg hg]
    exact ih (hsingle _ done (by decide) (by decide) h)
  | case5 c done _ d s' hc ih =>
    rw [purifyLoop, if_neg hst, if_neg hc]
    exact ih (hsingle _ done (hbyte c hc) (isGood_byte c) h)
  | case6 c done _ ih =>
    rw [purifyLoop, if_neg hst]
    by_cases hc : c = 0xC3
    · subst hc
      rw [if_pos (by decide), place_c3]
      exact ⟨done, h, .inr (by rw [purifyLoop])⟩
    · exact ih (hsingle _ done (hbyte c hc) (isGood_byte c) h)

theorem length_purifyLoop (s done : List UInt8) : (purifyLoop fl s done).length = done.length + s.length := by
  induction s, done using purifyLoop.induct fl with
  | case1 done => rw [purifyLoop, List.length_reverse, List.length_nil, Nat.add_zero]
  | case2 c s done hst ih =>
    have hstep : purifyLoop fl (c :: s) done = purifyLoop fl s (place fl (strictByte c) done) := by
      rw [purifyLoop.eq_def]
      exact if_pos hst
    rw [hstep]
    refine ih.trans ?_
    rw [length_place, List.length_cons]
    omega
  | case3 done hst d s' hg ih =>
    rw [purifyLoop, if_neg hst, if_pos rfl, if_pos hg, ih, length_place, List.length_cons, List.length_cons, List.length_cons]
    omega
  | case4 done hst d s' hg ih =>
    rw [purifyLoop, if_neg hst, if_pos rfl, if_neg hg, ih, length_place]
    simp only [List.length_cons]
    omega
  | case5 c done hst d s' hc ih =>
    rw [purifyLoop, if_neg hst, if_neg hc, ih, length_place]
    simp only [List.length_cons]
    omega
  | case6 c done hst ih =>
    rw [purifyLoop, if_neg hst, ih, length_place, List.length_nil, List.length_singleton]

/-- A pass over what is kept changes nothing. -/
theorem purifyLoop_closed (hst : ¬ fl.strict) {l : List UInt8} (h : Closed l) (hp : NoPair fl l) (t : List UInt8) :
    purifyLoop fl (l.reverse ++ t) [] = purifyLoop fl t l := by
  induction h generalizing t with
  | nil => rfl
  | @single c l hc hg _ ih =>
    rw [List.reverse_cons, List.append_assoc, List.singleton_append, ih hp.tail]
    rcases t with _ | ⟨d, t⟩
    · rw [purifyLoop, purifyLoop, if_neg hst, if_pos hg, place_stay hp, purifyLoop]
    · rw [purifyLoop, if_neg hst, if_neg hc, if_pos hg, place_stay hp]
  | @pair d l hg _ ih =>
    rw [List.reverse_cons, List.reverse_cons, List.append_assoc, List.append_assoc, List.singleton_append,
      List.singleton_append, ih hp.tail.tail, purifyLoop, if_neg hst, if_pos rfl, if_pos hg, place_stay hp]

/-- What the pass gives, pair by pair and once more. -/
theorem looseLoop_spec (hst : ¬ fl.strict) (s : List UInt8) :
    NoPair fl (purifyLoop fl s []).reverse ∧ purifyLoop fl (purifyLoop fl s []) [] = purifyLoop fl s [] := by
  have hpair : ∀ d done, isGood (d ||| 0x40) → Closed done ∧ NoPair fl done →
      Closed (d :: 0xC3 :: done) ∧ NoPair fl (d :: 0xC3 :: done) := fun d done hg h => by
    refine ⟨.pair hg h.1, ?_⟩
    have hp := noPair_place d (noPair_place 0xC3 h.2)
    rwa [place_c3, place_pair] at hp
  obtain ⟨l, ⟨hclosed, hp⟩, hl | hl⟩ := @loop_inv fl (fun l => Closed l ∧ NoPair fl l) hst
    (fun c done hc hg h => ⟨closed_place hc hg h.1, noPair_place c h.2⟩) hpair s [] ⟨.nil, List.isChain_nil⟩
  · rw [hl, List.reverse_reverse]
    refine ⟨hp, ?_⟩
    have hagain := purifyLoop_closed hst hclosed hp []
    rwa [List.append_nil, purifyLoop] at hagain
  · rw [hl, List.reverse_reverse]
    have hp' := noPair_place 0xC3 hp
    rw [place_c3] at hp'
    refine ⟨hp', ?_⟩
    rw [List.reverse_cons, purifyLoop_closed hst hclosed hp, purifyLoop, if_neg hst, if_pos (by decide), place_c3, purifyLoop,
      List.reverse_cons]

theorem markup_looseLoop (hst : ¬ fl.strict) (s done : List UInt8) :
    (∃ x ∈ purifyLoop fl s done, isMarkup x) ↔ (∃ x ∈ done, isMarkup x) ∨ hidden false s := by
  have hunder : isMarkup (ch '_') = false := by decide
  have hgood : ∀ c, isMarkup (if isGood c then c else ch '_') = false := fun c => by
    by_cases hg : isGood c
    · rw [if_pos hg]
      simp only [isGood, Bool.and_eq_true, Bool.not_eq_true'] at hg
      exact hg.2
    · rw [if_neg hg, hunder]
  induction s, done using purifyLoop.induct fl with
  | case1 done => simp [purifyLoop, hidden]
  | case2 c s done hs _ => exact absurd hs hst
  | case3 done _ d s' hg ih =>
    have hc3 : isMarkup 0xC3 = false := by decide
    have hnext : hidden false (0xC3 :: d :: s') = (isMarkup d || hidden false s') := by
      rw [hidden, if_pos rfl, hidden]
      by_cases hd : d = 0xC3
      · rw [if_pos hd, hd, hc3]
        rfl
      · rw [if_neg hd]
        rfl
    rw [purifyLoop, if_neg hst, if_pos rfl, if_pos hg]
    refine ih.trans ?_
    rw [markup_place, hnext]
    simp only [List.exists_mem_cons_iff, hc3, Bool.or_eq_true, Bool.false_eq_true, false_or]
    rw [or_assoc, or_left_comm]
  | case4 done _ d s' hg ih =>
    -- Neither 0xC3 nor markup is bad behind a byte 0xC3.
    have hd : d ≠ 0xC3 ∧ isMarkup d = false := by
      have all : ∀ d, ¬ isGood (d ||| 0x40) → d ≠ 0xC3 ∧ isMarkup d = false := forall_byte (by decide)
      exact all d hg
    have hnext : hidden false (0xC3 :: d :: s') = hidden false (d :: s') := by
      rw [hidden, if_pos rfl, hidden, hidden, if_neg hd.1, if_neg hd.1, hd.2]
      rfl
    rw [purifyLoop, if_neg hst, if_pos rfl, if_neg hg]
    refine ih.trans ?_
    rw [markup_place, hnext, hunder]
    simp
  | case5 c done _ d s' hc ih =>
    have hnext : hidden false (c :: d :: s') = hidden false (d :: s') := by
      rw [hidden, if_neg hc]
      rfl
    rw [purifyLoop, if_neg hst, if_neg hc]
    refine ih.trans ?_
    rw [markup_place, hnext, hgood]
    simp
  | case6 c done _ ih =>
    have hnext : hidden false [c] = hidden false [] := by
      by_cases hc : c = 0xC3
      · simp [hidden, hc]
      · simp [hidden, hc]
    rw [purifyLoop, if_neg hst]
    refine ih.trans ?_
    rw [markup_place, hnext, hgood]
    simp

end Loose

/-! ## Clean strings -/

section Clean

variable {fl : Flags} {s : List UInt8}

theorem NoPair.infix {c : UInt8} (h : NoPair fl s) (hc : isBad fl c) : ¬ [c, c] <:+: s := by
  rintro ⟨a, b, hab⟩
  have hs : s = a ++ c :: c :: b := by rw [← hab, List.append_assoc]; rfl
  exact List.isChain_iff_forall_rel_of_append_cons_cons.mp h hs ⟨hc, rfl⟩

/-- Without pairs, a string is clean as far as its bytes are. -/
theorem clean_of_noPair (h : NoPair fl s.reverse)
    (hbytes : ∀ c ∈ s, if fl.strict then strictGood c = true else isMarkup c = false) : Clean fl s := by
  have hno : ∀ c, isBad fl c → ¬ [c, c] <:+: s := fun c hc hin => h.infix hc (by simpa using hin.reverse)
  refine ⟨hbytes, fun hd => hno _ ?_, fun hu => hno _ ?_, hno _ ?_⟩
  · simp [isBad, hd]
  · simp [isBad, hu]
  · simp [isBad]

theorem clean_strict (hst : fl.strict) (h : ∀ c ∈ s, strictGood c) : Clean fl s := by
  refine clean_of_noPair (List.isChain_iff_forall_rel_of_append_cons_cons.mpr ?_) fun c hc => ?_
  · intro a b l1 l2 hs hab
    have hmem : a ∈ s := by
      rw [← List.mem_reverse, hs]
      simp
    have hbad := hab.1
    rw [not_isBad_of_strictGood (h a hmem)] at hbad
    cases hbad
  · rw [if_pos hst]
    exact h c hc

end Clean

/-! ## What is purified -/

section Purify

variable {fl : Flags} {s : List UInt8}

theorem purify_nil : purifyHTTPparam fl [] = some (false, []) := by
  have hx : isXss [] = false := by decide
  rw [purifyHTTPparam, if_neg (by simp [isUTF8String]), if_neg (by simp [hx]), if_neg (by simp), purifyLoop]
  rfl

theorem purifyLoop_again (fl : Flags) (s : List UInt8) : purifyLoop fl (purifyLoop fl s []) [] = purifyLoop fl s [] := by
  by_cases hst : fl.strict
  · have hidem : ∀ c, strictByte (strictByte c) = strictByte c := fun c => if_pos (strictGood_strictByte c)
    rw [strictLoop_eq hst, strictLoop_eq hst, List.reverse_nil, List.nil_append, List.nil_append, List.map_map]
    exact List.map_congr_left fun c _ => hidem c
  · exact (looseLoop_spec hst s).2

/-- Whatever comes out is not longer, and stays. -/
theorem purify_again {ret : Bool} {r : List UInt8} (h : purifyHTTPparam fl s = some (ret, r)) :
    r.length ≤ s.length ∧ ∃ ret', purifyHTTPparam fl r = some (ret', r) := by
  have h0 := h
  rw [purifyHTTPparam] at h
  split at h
  · cases h
    exact ⟨le_refl _, true, h0⟩
  · split at h
    · cases h
      exact ⟨Nat.zero_le _, false, purify_nil⟩
    · rename_i hx
      split at h
      · cases h
      · rename_i hlen
        cases h
        have hsame : (purifyLoop fl s []).length = s.length := by
          rw [length_purifyLoop, List.length_nil, Nat.zero_add]
        refine ⟨hsame.le, ?_⟩
        have hx' : ¬ (fl.strict ∧ isXss (purifyLoop fl s [])) := by
          rintro ⟨hst, hin⟩
          have hno : isXss s = false := Bool.eq_false_iff.mpr fun hxs => hx ⟨hst, hxs⟩
          rw [strictLoop_eq hst, List.reverse_nil, List.nil_append, isXss_map hno] at hin
          cases hin
        by_cases hutf : isUTF8String (purifyLoop fl s [])
        · exact ⟨true, if_pos hutf⟩
        · exact ⟨false, by rw [purifyHTTPparam, if_neg hutf, if_neg hx', if_neg (hsame ▸ hlen), purifyLoop_again]⟩

/-- The condition is exact. -/
theorem clean_iff : (∃ ret r, purifyHTTPparam fl s = some (ret, r) ∧ Clean fl r) ↔ Holds fl s := by
  have hone : ∀ {ret r}, purifyHTTPparam fl s = some (ret, r) →
      ((∃ ret r, purifyHTTPparam fl s = some (ret, r) ∧ Clean fl r) ↔ Clean fl r) := fun {ret r} h => by
    constructor
    · rintro ⟨ret', r', h', hclean⟩
      rw [h] at h'
      cases h'
      exact hclean
    · exact fun hclean => ⟨ret, r, h, hclean⟩
  unfold Holds
  by_cases hutf : isUTF8String s
  · rw [if_pos hutf]
    exact hone (if_pos hutf)
  rw [if_neg hutf]
  by_cases hx : fl.strict ∧ isXss s
  · have hrun : purifyHTTPparam fl s = some (true, []) := by rw [purifyHTTPparam, if_neg hutf, if_pos hx]
    exact (hone hrun).trans (iff_of_true (clean_strict hx.1 fun c hc => by cases hc) (.inl hx))
  by_cases hlen : s.length ≥ 2 ^ 31
  · have hrun : purifyHTTPparam fl s = none := by rw [purifyHTTPparam, if_neg hutf, if_neg hx, if_pos hlen]
    refine iff_of_false ?_ (not_or.mpr ⟨hx, fun h => absurd h.1 (Nat.not_lt.mpr hlen)⟩)
    rintro ⟨ret, r, h, -⟩
    rw [hrun] at h
    cases h
  have hrun : purifyHTTPparam fl s = some (false, purifyLoop fl s []) := by
    rw [purifyHTTPparam, if_neg hutf, if_neg hx, if_neg hlen]
  rw [hone hrun, or_iff_right hx, and_iff_right (Nat.lt_of_not_le hlen)]
  by_cases hst : fl.strict
  · refine iff_of_true (clean_strict hst fun c hc => ?_) (.inl hst)
    rw [strictLoop_eq hst, List.reverse_nil, List.nil_append] at hc
    obtain ⟨x, -, rfl⟩ := List.mem_map.mp hc
    exact strictGood_strictByte x
  · rw [or_iff_right hst, ← Bool.not_eq_true, ← not_congr ((markup_looseLoop hst s []).trans (or_iff_right (by simp)))]
    constructor
    · rintro hclean ⟨x, hx, hmark⟩
      have := hclean.bytes x hx
      rw [if_neg hst, hmark] at this
      cases this
    · intro hno
      refine clean_of_noPair (looseLoop_spec hst s).1 fun c hc => ?_
      rw [if_neg hst]
      exact Bool.eq_false_iff.mpr fun hmark => hno ⟨c, hc, hmark⟩

theorem purifies_iff : Purifies fl s ↔ Holds fl s := by
  rw [← clean_iff]
  constructor
  · rintro ⟨ret, r, h, -, hclean, -⟩
    exact ⟨ret, r, h, hclean⟩
  · rintro ⟨ret, r, h, hclean⟩
    obtain ⟨hlen, hagain⟩ := purify_again h
    exact ⟨ret, r, h, hlen, hclean, hagain⟩

end Purify

theorem purify_law (fl : Flags) (s : List UInt8) :
    (∀ ret r, purifyHTTPparam fl s = some (ret, r) → r.length ≤ s.length ∧ ∃ ret', purifyHTTPparam fl r = some (ret', r)) ∧
      (Purifies fl s ↔ Holds fl s) :=
  ⟨fun _ _ => purify_again, purifies_iff⟩

/-- The '<' behind 0xC3 stays. -/
theorem markup_stays : ¬ Purifies ⟨false, false, false⟩ [0xC3, ch '<'] := by
  rw [purifies_iff, Holds, if_neg (by decide)]
  rintro (⟨h, -⟩ | ⟨-, h | h⟩)
  · cases h
  · cases h
  · revert h
    decide

end Ntopng.Text.Purify
