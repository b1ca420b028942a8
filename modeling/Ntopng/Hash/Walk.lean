/-
  Ntopng.Hash.Walk — visiting the entries of the table page by page (`GenericHash::walk`,
  src/GenericHash.cpp).

  A call begins at a slot and calls the walker on the entries that are not idle, bucket after
  bucket. Once enough have matched, it ends after the bucket it is in, and says where to go on;
  at the end of the table that is slot 0 again. The walker may ask to stop, which ends the call at
  once. The count of the matches has 16 bits, and may come around in a long bucket.

  A bucket is the list of its entries, and what `idle` says of them stays. The walker is any
  function that also changes what it is given as `user_data`. Ghost fields: the entries `visited`
  and the buckets that the loop `came` to.

  Proved for every table and every walker (`walk_law`):
  1. if it never asks to stop, the pages from slot 0 to slot 0 end, and visit every entry that is
     not idle once, as one call with `walk_all` does,
  2. every call visits its entries in order, and where the walker asks to stop, the entry is the last one visited,
  3. over any number of calls, all buckets before the slot where the next begins have been come to.
  In the states that the table reaches, the buckets are these lists (`reached_walkChain`).
-/

import Ntopng.Hash.GenericProofs

namespace Ntopng.Hash.Walk

open Ntopng.Lib.Run Ntopng.Lib.Chain

/-! ## The code -/

/-- `MIN_NUM_HASH_WALK_ELEMS` -/
def minNumHashWalkElems : UInt16 := 512

/-- What the walker leaves of `user_data`, and its two answers. -/
structure Answer (σ : Type) where
  user : σ
  entryMatched : Bool
  stop : Bool

structure Scan (σ : Type) where
  user : σ
  totMatched : UInt16
  found : Bool
  visited : List ℕ

/-- A call that has ended. -/
structure Page (σ : Type) where
  scan : Scan σ
  beginSlot : ℕ
  came : List ℕ

section Code

variable {σ : Type} (numHashes : ℕ) (table : ℕ → List ℕ) (idle : ℕ → Bool) (walker : σ → ℕ → Answer σ)

/-- The call of the walker on an entry. -/
def visit (w : Scan σ) (head : ℕ) : Scan σ :=
  let rc := walker w.user head
  { user := rc.user
    totMatched := if rc.entryMatched then w.totMatched + 1 else w.totMatched
    found := rc.stop
    visited := w.visited ++ [head] }

/-- The `while` loop over a bucket. -/
def walkChain : List ℕ → Scan σ → Scan σ
  | [], w => w
  | head :: rest, w =>
    if idle head then walkChain rest w
    else if (visit walker w head).found then visit walker w head
    else walkChain rest (visit walker w head)

/-- The `for` loop with `turns` buckets left. -/
def walkBuckets (walkAll : Bool) (beginSlot : ℕ) : (turns : ℕ) → Scan σ → (came : List ℕ) → Page σ
  | 0, w, came => ⟨w, 0, came⟩
  | turns + 1, w, came =>
    let hashId := numHashes - (turns + 1)
    if table hashId = [] then walkBuckets walkAll beginSlot turns w (came ++ [hashId])
    else
      let w := walkChain idle walker (table hashId) w
      if w.totMatched ≥ minNumHashWalkElems ∧ !walkAll then
        ⟨w, if hashId = numHashes - 1 then 0 else hashId + 1, came ++ [hashId]⟩
      else if w.found then ⟨w, beginSlot, came ++ [hashId]⟩
      else walkBuckets walkAll beginSlot turns w (came ++ [hashId])

def walk (walkAll : Bool) (beginSlot : ℕ) (user : σ) : Page σ :=
  walkBuckets numHashes table idle walker walkAll beginSlot (numHashes - beginSlot) ⟨user, 0, false, []⟩ []

/-- Partial calls from a slot on until it is 0 again, at most `fuel` of them. -/
def pages : (fuel : ℕ) → (slot : ℕ) → σ → Option (σ × List ℕ)
  | 0, _, _ => none
  | fuel + 1, slot, user =>
    let p := walk numHashes table idle walker false slot user
    if p.beginSlot = 0 then some (p.scan.user, p.scan.visited)
    else (pages fuel p.beginSlot p.scan.user).map fun r => (r.1, p.scan.visited ++ r.2)

/-- Between two partial calls. `came` starts anew with slot 0. -/
structure Round (σ : Type) where
  slot : ℕ
  user : σ
  came : List ℕ

/-- The next call goes on where the last one said, whether or not it was stopped. -/
def resume (r : Round σ) : Round σ :=
  let p := walk numHashes table idle walker false r.slot r.user
  ⟨p.beginSlot, p.scan.user, if p.beginSlot = 0 then [] else r.came ++ p.came⟩

/-! ## What is expected -/

/-- The entries of the buckets from `a` to before `b` that are not idle. -/
def live (a b : ℕ) : List ℕ := ((List.range' a (b - a)).flatMap table).filter fun e => !idle e

/-- `user_data` after the walker was called on some entries. -/
def after (user : σ) (es : List ℕ) : σ := es.foldl (fun u e => (walker u e).user) user

/-- The walker does not ask to stop on any of them. -/
def Goes : σ → List ℕ → Prop
  | _, [] => True
  | user, e :: es => (walker user e).stop = false ∧ Goes (walker user e).user es

/-- The last of `visited` is the one on which the walker asked to stop, and then it was not called again. -/
def Stopped (user : σ) (es visited : List ℕ) : Prop :=
  ∃ pre e rest, es = pre ++ e :: rest ∧ visited = pre ++ [e] ∧ Goes walker user pre ∧
    (walker (after walker user pre) e).stop = true

/-- Of the entries `es`, those visited: all, or up to a stop. -/
structure Visits (user : σ) (es : List ℕ) (w : Scan σ) : Prop where
  user_eq : w.user = after walker user w.visited
  all : w.found = false → w.visited = es ∧ Goes walker user es
  stopped : w.found = true → Stopped walker user es w.visited

/-- What one call visits of the entries `es`: nothing behind an entry on which the walker asks to stop. -/
structure Heeds (user : σ) (es visited : List ℕ) (found : Bool) : Prop where
  among : visited <+: es
  last : ∀ pre e rest, visited = pre ++ e :: rest → (walker (after walker user pre) e).stop = true → rest = []
  found_iff : found = true ↔ Stopped walker user es visited

structure Right (user : σ) : Prop where
  pages : (∀ u e, (walker u e).stop = false) → ∃ fuel, ∃ r, pages numHashes table idle walker fuel 0 user = some r ∧
    r.2 = live table idle 0 numHashes ∧
    r = ((walk numHashes table idle walker true 0 user).scan.user, (walk numHashes table idle walker true 0 user).scan.visited) ∧
    ∀ e, r.2.count e = if idle e then 0 else (flat numHashes table).count e
  stops : ∀ walkAll slot, Heeds walker user (live table idle slot numHashes)
    (walk numHashes table idle walker walkAll slot user).scan.visited (walk numHashes table idle walker walkAll slot user).scan.found
  resumes : ∀ calls, ∀ b < ((resume numHashes table idle walker)^[calls] ⟨0, user, []⟩).slot,
    b ∈ ((resume numHashes table idle walker)^[calls] ⟨0, user, []⟩).came

end Code

variable {σ : Type} {numHashes : ℕ} {table : ℕ → List ℕ} {idle : ℕ → Bool} {walker : σ → ℕ → Answer σ}
variable {user : σ} {es es' : List ℕ} {w : Scan σ} {a b c : ℕ}

/-! ## Entries one after the other -/

@[simp] theorem after_nil : after walker user [] = user := rfl

theorem after_append : after walker user (es ++ es') = after walker (after walker user es) es' :=
  List.foldl_append

theorem goes_append : Goes walker user (es ++ es') ↔ Goes walker user es ∧ Goes walker (after walker user es) es' := by
  induction es generalizing user with
  | nil => simp [Goes]
  | cons e es ih => rw [List.cons_append, Goes, Goes, ih, and_assoc]; rfl

/-- It does not ask to stop on any entry before the last of them. -/
theorem Goes.not_stop (h : Goes walker user es) {pre rest : List ℕ} {e : ℕ} (hes : es = pre ++ e :: rest) :
    (walker (after walker user pre) e).stop = false := by
  rw [hes, goes_append] at h
  exact h.2.1

theorem Stopped.append (h : Stopped walker user es es') (more : List ℕ) : Stopped walker user (es ++ more) es' := by
  obtain ⟨pre, e, rest, hes, hvisited, hgoes, hstop⟩ := h
  refine ⟨pre, e, rest ++ more, ?_, hvisited, hgoes, hstop⟩
  rw [hes, List.append_assoc, List.cons_append]

/-- A walker that never asks to stop is not stopped. -/
theorem not_stopped (h : ∀ u e, (walker u e).stop = false) : ¬ Stopped walker user es es' := by
  rintro ⟨pre, e, rest, -, -, -, hstop⟩
  rw [h] at hstop
  cases hstop

theorem live_self : live table idle a a = [] := by
  rw [live, Nat.sub_self]
  rfl

theorem live_append (hab : a ≤ b) (hbc : b ≤ c) : live table idle a c = live table idle a b ++ live table idle b c := by
  have hrange : List.range' a (c - a) = List.range' a (b - a) ++ List.range' b (c - b) := by
    have happend := @List.range'_append a (b - a) (c - b) 1
    rw [show c - a = b - a + (c - b) by omega, ← happend, one_mul, show a + (b - a) = b by omega]
  rw [live, hrange, List.flatMap_append, List.filter_append, ← live, ← live]

theorem live_succ : live table idle a (a + 1) = (table a).filter fun e => !idle e := by
  rw [live, show a + 1 - a = 1 by omega, List.range'_one, List.flatMap_singleton]

theorem live_all : live table idle 0 numHashes = (flat numHashes table).filter fun e => !idle e := by
  rw [live, Nat.sub_zero, flat, List.range_eq_range']

theorem Visits.heeds (h : Visits walker user es w) : Heeds walker user es w.visited w.found := by
  by_cases hfound : w.found = true
  · obtain ⟨pre, e, rest, hes, hvisited, hgoes, -⟩ := h.stopped hfound
    refine ⟨?_, fun pre' e' rest' hsplit hstop => ?_, fun _ => h.stopped hfound, fun _ => hfound⟩
    · rw [hvisited, hes]
      exact ⟨rest, by rw [List.append_assoc, List.singleton_append]⟩
    · rcases List.eq_nil_or_concat rest' with hnil | ⟨more, last, rfl⟩
      · exact hnil
      · -- `e'` would stand before the last one visited
        rw [hvisited, List.concat_eq_append, ← List.cons_append, ← List.append_assoc] at hsplit
        have hpre := (List.append_inj' hsplit rfl).1
        rw [hgoes.not_stop hpre] at hstop
        cases hstop
  · rw [Bool.not_eq_true] at hfound
    obtain ⟨hvisited, hgoes⟩ := h.all hfound
    refine ⟨?_, fun pre e rest hsplit hstop => ?_, fun h => ?_, fun hstopped => ?_⟩
    · rw [hvisited]
    · rw [hvisited] at hsplit
      rw [hgoes.not_stop hsplit] at hstop
      cases hstop
    · rw [hfound] at h
      cases h
    · obtain ⟨pre, e, rest, hes, -, -, hstop⟩ := hstopped
      rw [hgoes.not_stop hes] at hstop
      cases hstop

theorem Heeds.append {visited : List ℕ} {found : Bool} (h : Heeds walker user es visited found) (more : List ℕ) :
    Heeds walker user (es ++ more) visited found := by
  refine ⟨h.among.trans (List.prefix_append _ _), h.last, fun hfound => (h.found_iff.mp hfound).append more, ?_⟩
  intro hstopped
  obtain ⟨pre, e, rest, -, hvisited, hgoes, hstop⟩ := hstopped
  obtain ⟨rest', hes⟩ := h.among
  refine h.found_iff.mpr ⟨pre, e, rest', ?_, hvisited, hgoes, hstop⟩
  rw [← hes, hvisited, List.append_assoc, List.singleton_append]

/-! ## One bucket -/

variable (idle) in
/-- The loop over a bucket goes on from what was visited before. -/
theorem walkChain_spec (hw : Visits walker user es w) (hfound : w.found = false) (chain : List ℕ) :
    Visits walker user (es ++ chain.filter fun e => !idle e) (walkChain idle walker chain w) := by
  induction chain generalizing es w with
  | nil => rwa [List.filter_nil, List.append_nil]
  | cons head rest ih =>
    rw [walkChain]
    by_cases hidle : idle head = true
    · rw [if_pos hidle, List.filter_cons_of_neg (by simp [hidle])]
      exact ih hw hfound
    · rw [if_neg hidle, List.filter_cons_of_pos (by simp [hidle])]
      obtain ⟨hvisited, hgoes⟩ := hw.all hfound
      have huser : (visit walker w head).user = after walker user (es ++ [head]) := by
        rw [visit, hw.user_eq, hvisited, after_append]
        rfl
      have hlast : (walker w.user head).stop = (walker (after walker user es) head).stop := by
        rw [hw.user_eq, hvisited]
      split
      · rename_i hstop
        refine ⟨?_, fun h => ?_, fun _ => ⟨es, head, rest.filter fun e => !idle e, rfl, ?_, hgoes, ?_⟩⟩
        · rw [huser, visit, hvisited]
        · rw [hstop] at h
          cases h
        · rw [visit, hvisited]
        · rw [← hlast]
          exact hstop
      · rename_i hgo
        rw [Bool.not_eq_true] at hgo
        have hnext : Visits walker user (es ++ [head]) (visit walker w head) := by
          refine ⟨?_, fun _ => ⟨?_, ?_⟩, fun h => ?_⟩
          · rw [huser, visit, hvisited]
          · rw [visit, hvisited]
          · rw [goes_append]
            refine ⟨hgoes, ?_, trivial⟩
            rw [← hlast]
            exact hgo
          · rw [hgo] at h
            cases h
        have hrest := ih hnext hgo
        rwa [List.append_assoc, List.singleton_append] at hrest

/-! ## One call -/

/-- A call that began at `slot` has come to the buckets up to before `j`. -/
structure Ended (numHashes : ℕ) (table : ℕ → List ℕ) (idle : ℕ → Bool) (walker : σ → ℕ → Answer σ) (walkAll : Bool)
    (slot : ℕ) (user : σ) (p : Page σ) (j : ℕ) : Prop where
  from_slot : slot ≤ j
  inside : j ≤ max slot numHashes
  came : p.came = List.range' slot (j - slot)
  visits : Visits walker user (live table idle slot j) p.scan
  next : (p.beginSlot = slot ∧ p.scan.found = true) ∨ (p.beginSlot = j ∧ slot < j ∧ j < numHashes ∧ walkAll = false) ∨
    (p.beginSlot = 0 ∧ numHashes ≤ j)

variable (idle) in
theorem walkBuckets_ended (walkAll : Bool) {slot turns : ℕ} (hturns : turns ≤ numHashes - slot)
    (hw : Visits walker user (live table idle slot (max slot numHashes - turns)) w) (hfound : w.found = false) :
    ∃ j, Ended numHashes table idle walker walkAll slot user (walkBuckets numHashes table idle walker walkAll slot turns w
      (List.range' slot (max slot numHashes - turns - slot))) j := by
  induction turns generalizing w with
  | zero =>
    refine ⟨max slot numHashes, by omega, by omega, rfl, hw, Or.inr (Or.inr ⟨rfl, by omega⟩)⟩
  | succ turns ih =>
    have hbucket : numHashes - (turns + 1) = max slot numHashes - (turns + 1) := by omega
    have hsucc : max slot numHashes - turns = max slot numHashes - (turns + 1) + 1 := by omega
    have hcame : List.range' slot (max slot numHashes - (turns + 1) - slot) ++ [numHashes - (turns + 1)] =
        List.range' slot (max slot numHashes - turns - slot) := by
      have hone := @List.range'_concat 1 slot (max slot numHashes - (turns + 1) - slot)
      rw [show max slot numHashes - turns - slot = max slot numHashes - (turns + 1) - slot + 1 by omega, hone, hbucket]
      congr 2
      omega
    have hlive : live table idle slot (max slot numHashes - turns) =
        live table idle slot (max slot numHashes - (turns + 1)) ++ (table (numHashes - (turns + 1))).filter fun e => !idle e := by
      rw [hsucc, live_append (b := max slot numHashes - (turns + 1)) (by omega) (by omega), live_succ, hbucket]
    have hnext := walkChain_spec idle hw hfound (table (numHashes - (turns + 1)))
    rw [← hlive] at hnext
    rw [walkBuckets]
    simp only [hcame]
    split
    · rename_i hempty
      rw [hempty] at hnext
      exact ih (by omega) hnext hfound
    · split
      · rename_i hpage
        have hall : walkAll = false := by simpa using hpage.2
        refine ⟨max slot numHashes - turns, by omega, by omega, rfl, hnext, ?_⟩
        split
        · rename_i hlast
          exact Or.inr (Or.inr ⟨rfl, by omega⟩)
        · exact Or.inr (Or.inl ⟨by simp only; omega, by omega, by omega, hall⟩)
      · split
        · rename_i hstop
          exact ⟨max slot numHashes - turns, by omega, by omega, rfl, hnext, Or.inl ⟨rfl, hstop⟩⟩
        · rename_i hgo
          exact ih (by omega) hnext (by simpa using hgo)

variable (numHashes table idle walker) in
theorem walk_ended (walkAll : Bool) (slot : ℕ) (user : σ) :
    ∃ j, Ended numHashes table idle walker walkAll slot user (walk numHashes table idle walker walkAll slot user) j := by
  have hstart : max slot numHashes - (numHashes - slot) = slot := by omega
  have hw : Visits walker user (live table idle slot (max slot numHashes - (numHashes - slot))) ⟨user, 0, false, []⟩ := by
    rw [hstart, live_self]
    exact ⟨rfl, fun _ => ⟨rfl, trivial⟩, fun h => by cases h⟩
  have hended := walkBuckets_ended idle walkAll (le_refl _) hw rfl
  rw [hstart, Nat.sub_self] at hended
  exact hended

/-! ## Many calls -/

/-- Without a stop, a call visits all up to where it says to go on. -/
theorem Ended.all (h : ∀ u e, (walker u e).stop = false) {walkAll : Bool} {slot j : ℕ} {p : Page σ}
    (hp : Ended numHashes table idle walker walkAll slot user p j) :
    p.scan.visited = live table idle slot j ∧ p.scan.user = after walker user (live table idle slot j) ∧
      p.scan.found = false := by
  have hfound : p.scan.found = false := by
    rw [← Bool.not_eq_true]
    exact fun hstop => not_stopped h (hp.visits.stopped hstop)
  have hvisited := (hp.visits.all hfound).1
  refine ⟨hvisited, ?_, hfound⟩
  rw [hp.visits.user_eq, hvisited]

/-- The pages from a slot on end, with the rest of the table. -/
theorem pages_all (h : ∀ u e, (walker u e).stop = false) {fuel slot : ℕ} (hslot : slot ≤ numHashes)
    (hfuel : numHashes - slot < fuel) (user : σ) : pages numHashes table idle walker fuel slot user =
      some (after walker user (live table idle slot numHashes), live table idle slot numHashes) := by
  induction fuel generalizing slot user with
  | zero => omega
  | succ fuel ih =>
    obtain ⟨j, hp⟩ := walk_ended numHashes table idle walker false slot user
    obtain ⟨hvisited, huser, hfound⟩ := hp.all h
    rw [pages]
    have hj := hp.from_slot
    rcases hp.next with ⟨-, hstop⟩ | ⟨hnext, hlt, hin, -⟩ | ⟨hnext, hend⟩
    · rw [hfound] at hstop
      cases hstop
    · have hlive : live table idle slot numHashes = live table idle slot j ++ live table idle j numHashes :=
        live_append hj (by omega)
      rw [if_neg (by omega), hnext, ih (by omega) (by omega), Option.map_some, hvisited, huser, hlive, after_append]
    · have hj' : j = numHashes := by
        have := hp.inside
        omega
      rw [if_pos hnext, hvisited, huser, hj']

variable (numHashes table idle) in
/-- One call with `walk_all` visits the whole table. -/
theorem walk_all_spec (h : ∀ u e, (walker u e).stop = false) (user : σ) :
    (walk numHashes table idle walker true 0 user).scan.visited = live table idle 0 numHashes ∧
      (walk numHashes table idle walker true 0 user).scan.user = after walker user (live table idle 0 numHashes) := by
  obtain ⟨j, hp⟩ := walk_ended numHashes table idle walker true 0 user
  obtain ⟨hvisited, huser, hfound⟩ := hp.all h
  have hj : j = numHashes := by
    have := hp.inside
    rcases hp.next with ⟨-, hstop⟩ | ⟨-, -, -, hall⟩ | ⟨-, hend⟩
    · rw [hfound] at hstop
      cases hstop
    · cases hall
    · omega
  rw [hvisited, huser, hj]
  exact ⟨rfl, rfl⟩

/-- A call goes on behind buckets it has come to, where it began, or at slot 0. -/
theorem Ended.behind {walkAll : Bool} {slot j : ℕ} {p : Page σ}
    (hp : Ended numHashes table idle walker walkAll slot user p j) : ∀ b, slot ≤ b → b < p.beginSlot → b ∈ p.came := by
  intro b hb hlt
  rw [hp.came, List.mem_range'_1]
  rcases hp.next with ⟨hnext, -⟩ | ⟨hnext, -, -, -⟩ | ⟨hnext, -⟩
  · omega
  · omega
  · omega

theorem resume_came {r : Round σ} (h : ∀ b < r.slot, b ∈ r.came) :
    ∀ b < (resume numHashes table idle walker r).slot, b ∈ (resume numHashes table idle walker r).came := by
  intro b hb
  obtain ⟨j, hp⟩ := walk_ended numHashes table idle walker false r.slot r.user
  rw [resume] at hb ⊢
  simp only at hb ⊢
  rw [if_neg (by omega), List.mem_append]
  by_cases hslot : b < r.slot
  · exact Or.inl (h b hslot)
  · exact Or.inr (hp.behind b (by omega) hb)

theorem resumes_came (user : σ) (calls : ℕ) :
    ∀ b < ((resume numHashes table idle walker)^[calls] ⟨0, user, []⟩).slot,
      b ∈ ((resume numHashes table idle walker)^[calls] ⟨0, user, []⟩).came := by
  induction calls with
  | zero =>
    intro b hb
    exact absurd hb (Nat.not_lt_zero b)
  | succ calls ih =>
    rw [Function.iterate_succ_apply']
    exact resume_came ih

/-- Pages visit what one full walk visits, a stop is the end, and no bucket is passed over. -/
theorem walk_law (numHashes : ℕ) (table : ℕ → List ℕ) (idle : ℕ → Bool) (walker : σ → ℕ → Answer σ) (user : σ) :
    Right numHashes table idle walker user := by
  refine ⟨fun h => ?_, fun walkAll slot => ?_, resumes_came user⟩
  · obtain ⟨hvisited, huser⟩ := walk_all_spec numHashes table idle h user
    refine ⟨numHashes + 1, _, pages_all h (Nat.zero_le _) (by omega) user, rfl, ?_, fun e => ?_⟩
    · rw [hvisited, huser]
    · rw [live_all]
      split
      · rename_i hidle
        exact List.count_eq_zero.mpr fun hmem => by simp [hidle] at hmem
      · rename_i hidle
        exact List.count_filter (by simpa using hidle)
  · obtain ⟨j, hp⟩ := walk_ended numHashes table idle walker walkAll slot user
    have hheeds := hp.visits.heeds
    have hj := hp.from_slot
    by_cases hle : j ≤ numHashes
    · rw [live_append (b := j) hj hle]
      exact hheeds.append _
    · -- the call began behind the table
      have hslot : j = slot := by
        have := hp.inside
        omega
      rw [hslot, live_self] at hheeds
      rwa [live, show numHashes - slot = 0 by omega]

/-! ## The pointers -/

/-- The `while` loop as it follows the pointers, for at most `fuel` entries. -/
def walkPointers (next : ℕ → Option ℕ) (idle : ℕ → Bool) (walker : σ → ℕ → Answer σ) :
    (fuel : ℕ) → Option ℕ → Scan σ → Option (Scan σ)
  | _, none, w => some w
  | 0, some _, _ => none
  | fuel + 1, some head, w =>
    if idle head then walkPointers next idle walker fuel (next head) w
    else if (visit walker w head).found then some (visit walker w head)
    else walkPointers next idle walker fuel (next head) (visit walker w head)

theorem walkPointers_linked {next : ℕ → Option ℕ} {head : Option ℕ} {chain : List ℕ} (h : Linked next head chain)
    {fuel : ℕ} (hfuel : chain.length ≤ fuel) (w : Scan σ) :
    walkPointers next idle walker fuel head w = some (walkChain idle walker chain w) := by
  induction chain generalizing head fuel w with
  | nil =>
    rw [linked_nil] at h
    rw [h, walkPointers, walkChain]
  | cons e rest ih =>
    obtain ⟨rfl, hrest⟩ := linked_cons.mp h
    cases fuel with
    | zero => simp at hfuel
    | succ fuel =>
      have hle : rest.length ≤ fuel := Nat.le_of_succ_le_succ hfuel
      rw [walkPointers, walkChain, ih hrest hle, ih hrest hle]
      split
      · rfl
      · split
        · rfl
        · rfl

open Ntopng.Hash.Generic in
/-- In every state that a table reaches, the loop over a bucket ends, and is the one over its list. -/
theorem reached_walkChain (config : Config) (evs : List Ev) (hok : Along (step config) AllocFine (some (new config)) evs) :
    ∃ s chains, run (step config) (some (new config)) evs = some s ∧ (flat config.numHashes chains).Nodup ∧
      ∀ b < config.numHashes, ∀ (idle : ℕ → Bool) (walker : σ → ℕ → Answer σ) (w : Scan σ),
        ∃ fuel, walkPointers s.next idle walker fuel (s.table b) w = some (walkChain idle walker (chains b) w) := by
  have hinv : RunInv config (run (step config) (some (new config)) evs) :=
    inv_run (step config) step_inv ⟨new config, fun _ => [], rfl, new_inv⟩ hok
  obtain ⟨s, chains, hrun, hs⟩ := hinv
  have hs' := conserved hs
  have hnodup := hs'.onePlace.nodup_iff.mpr hs'.nodup
  refine ⟨s, chains, hrun, (List.nodup_append.mp (List.nodup_append.mp hnodup).1).1, ?_⟩
  intro b hb idle walker w
  exact ⟨(chains b).length, walkPointers_linked (hs'.linked b hb) (le_refl _) w⟩

end Ntopng.Hash.Walk
