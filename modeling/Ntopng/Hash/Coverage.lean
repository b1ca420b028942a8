/-
  Ntopng.Hash.Coverage — which buckets `GenericHash::purgeIdle` comes to, call after call
  (src/GenericHash.cpp).

  A call walks the buckets from behind the one where the last call ended, around the end
  of the table, until it has looked at enough entries. A bucket whose lock is taken is left
  for another round. Here a call is one step, and a bucket the list of its entries; what
  the virtual methods and the locks answer is in the call's `Env`. The pointers and the
  other thread are in Ntopng.Hash.Generic; that its steps do what a call does here is proved
  in Ntopng.Hash.Refines.

  Proved for every size and every state that is reached (`coverage_law`):
  1. a call comes to no bucket twice,
  2. calls that come to `k` buckets each come to all buckets in ⌈n/k⌉ calls,
  3. an active entry that is ready whenever it is looked at is out of the table then, if
     the lock of its bucket is free,
  4. a call with `force_idle` and `full_scan` comes to all buckets and empties those whose
     lock is free.
  A taken lock keeps its bucket as it is, also in a forced call (`busy_bucket_stays`).
-/

import Ntopng.Lib.Circle
import Ntopng.Hash.Generic

namespace Ntopng.Hash.Coverage

open Ntopng.Lib.Run Ntopng.Lib.Circle

open Ntopng.Hash.Generic (HashEntryState Config minNumVisitedEntries)

/-! ## The code -/

structure Entry where
  id : ℕ
  state : HashEntryState
  deriving DecidableEq, Repr

structure GenericHash where
  table : ℕ → List Entry
  currentSize : ℕ
  lastPurgedHash : ℕ
  /-- The ids given so far. -/
  created : ℕ

def new (c : Config) : GenericHash := ⟨fun _ => [], 0, c.numHashes - 1, 0⟩

/-- A call's arguments, and what it meets. No `housekeep` sets an entry idle. -/
structure Env where
  forceIdle : Bool
  fullScan : Bool
  disablePurge : Bool
  /-- The allocation of the new shadow vector fails. -/
  vectorFails : Bool
  purgeIdleInterface : Bool
  /-- `trywrlock` on a bucket. -/
  lockFree : ℕ → Bool
  /-- `is_hash_entry_state_idle_transition_ready()` of an entry. -/
  ready : ℕ → Bool
  /-- The state in which `housekeep` leaves an entry. -/
  housekeep : ℕ → HashEntryState → HashEntryState
  housekeep_ne_idle : ∀ id st, st ≠ .idle → housekeep id st ≠ .idle

namespace Env

variable (env : Env)

def housekept (e : Entry) : Entry := { e with state := env.housekeep e.id e.state }

/-- Transition to active if the protocol is detected. -/
def advance (e : Entry) : Entry :=
  let e := env.housekept e
  if e.state = .flowProtocoldetected then { e with state := .active } else e

/-- An entry that stays in its bucket, or `none` where it is detached. -/
def visitEntry (e : Entry) : Option Entry :=
  match e.state with
  | .idle => some e
  | .allocated | .flowNotyetdetected | .flowProtocoldetected =>
    if env.forceIdle then none else some (env.advance e)
  | .active => if env.forceIdle || (env.purgeIdleInterface && env.ready e.id) then none else some (env.housekept e)

def visitChain (es : List Entry) : List Entry := es.filterMap env.visitEntry

end Env

/-- The loop over the buckets, and which of them it has come to. -/
structure Walk where
  hash : GenericHash
  bucketsChecked : ℕ
  numDetached : ℕ
  visited : List ℕ

variable (c : Config) (env : Env)

def visitFraction : ℕ := if !env.forceIdle && !env.fullScan then c.purgeStep else c.numHashes

/-- The loop ends early. -/
def enough (j bucketsChecked : ℕ) : Bool :=
  !env.fullScan && (decide (bucketsChecked > c.upperNumVisitedEntries) ||
    (decide (j > visitFraction c env) && decide (bucketsChecked > minNumVisitedEntries)))

def nextHash (last : ℕ) : ℕ := if last + 1 = c.numHashes then 0 else last + 1

def visitBucket (w : Walk) : Walk :=
  let i := nextHash c w.hash.lastPurgedHash
  let h := { w.hash with lastPurgedHash := i }
  if (h.table i).isEmpty || !env.lockFree i then { w with hash := h, visited := w.visited ++ [i] }
  else
    let kept := env.visitChain (h.table i)
    let detached := (h.table i).length - kept.length
    { hash := { h with table := Function.update h.table i kept, currentSize := h.currentSize - detached }
      bucketsChecked := w.bucketsChecked + (h.table i).length
      numDetached := w.numDetached + detached
      visited := w.visited ++ [i] }

/-- The `for` loop with `r` turns left. -/
def walk : ℕ → Walk → Walk
  | 0, w => w
  | r + 1, w => if enough c env (c.numHashes - (r + 1)) w.bucketsChecked then w else walk r (visitBucket c env w)

def purgeIdle (h : GenericHash) : Walk :=
  let w : Walk := ⟨h, 0, 0, []⟩
  if env.disablePurge || env.vectorFails then w else walk c env c.numHashes w

/-! ## Runs -/

inductive Ev where
  /-- An entry that was accepted. -/
  | add (key : ℕ) (state : HashEntryState) (notIdle : state ≠ .idle)
  | purgeIdle (env : Env)

def add (h : GenericHash) (key : ℕ) (state : HashEntryState) : GenericHash :=
  { h with
    table := Function.update h.table (c.bucket key) (⟨h.created, state⟩ :: h.table (c.bucket key))
    currentSize := h.currentSize + 1
    created := h.created + 1 }

def step (h : GenericHash) : Ev → GenericHash
  | .add key state _ => add c h key state
  | .purgeIdle env => (purgeIdle c env h).hash

/-- The buckets that a step comes to. -/
def visitedBy (h : GenericHash) : Ev → List ℕ
  | .add .. => []
  | .purgeIdle env => (purgeIdle c env h).visited

def Ev.isCall : Ev → Bool
  | .add .. => false
  | .purgeIdle _ => true

/-- The buckets that a run comes to. -/
def comesTo (h : GenericHash) : List Ev → List ℕ
  | [] => []
  | e :: es => visitedBy c h e ++ comesTo (step c h e) es

/-- A call comes to `k` buckets. -/
def Visits (k : ℕ) (h : GenericHash) (e : Ev) : Prop := e.isCall → (visitedBy c h e).length = k

/-- Where a call looks at the entry in bucket `b`, it can take it. -/
def Takes (b id : ℕ) : Ev → Prop
  | .add .. => True
  | .purgeIdle env => env.lockFree b ∧ env.purgeIdleInterface ∧ env.ready id

structure Covered (h : GenericHash) : Prop where
  once : ∀ env, (purgeIdle c env h).visited.Nodup
  cycle : ∀ k es, 0 < k → Along (step c) (Visits c k) h es → (c.numHashes + k - 1) / k ≤ es.countP Ev.isCall →
    ∀ b < c.numHashes, b ∈ comesTo c h es
  ready : ∀ k es, 0 < k → Along (step c) (Visits c k) h es → (c.numHashes + k - 1) / k ≤ es.countP Ev.isCall →
    ∀ b < c.numHashes, ∀ x ∈ h.table b, x.state = .active → (∀ e ∈ es, Takes b x.id e) →
      ∀ y ∈ (run (step c) h es).table b, y.id ≠ x.id
  forced : ∀ env : Env, env.forceIdle → env.fullScan → env.disablePurge = false → env.vectorFails = false →
    (∀ b < c.numHashes, b ∈ (purgeIdle c env h).visited) ∧
      (∀ b < c.numHashes, env.lockFree b → (purgeIdle c env h).hash.table b = []) ∧
      ((∀ b < c.numHashes, env.lockFree b) → (purgeIdle c env h).hash.currentSize = 0)

/-! ## One bucket -/

variable {c env} {w : Walk} {h : GenericHash}

/-- A bucket after the walk has come to it. -/
def after (env : Env) (b : ℕ) (es : List Entry) : List Entry := if env.lockFree b then env.visitChain es else es

theorem visitEntry_id {e e' : Entry} (he : env.visitEntry e = some e') : e'.id = e.id := by
  rw [Env.visitEntry] at he
  cases hst : e.state with
  | idle => simp [hst] at he; rw [← he]
  | active =>
    simp only [hst] at he
    split at he
    · cases he
    · rw [← Option.some.inj he]; rfl
  | _ =>
    simp only [hst] at he
    split at he
    · cases he
    · rw [← Option.some.inj he, Env.advance]
      split
      · rfl
      · rfl

theorem housekept_ne_idle (env : Env) {e : Entry} (he : e.state ≠ .idle) : (env.housekept e).state ≠ .idle :=
  env.housekeep_ne_idle e.id e.state he

theorem advance_ne_idle (env : Env) {e : Entry} (he : e.state ≠ .idle) : (env.advance e).state ≠ .idle := by
  rw [Env.advance]
  split
  · exact fun h => by cases h
  · exact housekept_ne_idle env he

theorem visitEntry_ne_idle {e e' : Entry} (he : env.visitEntry e = some e') (hne : e.state ≠ .idle) :
    e'.state ≠ .idle := by
  have hkept := housekept_ne_idle env hne
  have hadvanced := advance_ne_idle env hne
  rw [Env.visitEntry] at he
  cases hst : e.state with
  | idle => exact absurd hst hne
  | active =>
    simp only [hst] at he
    split at he
    · cases he
    · rwa [← Option.some.inj he]
  | _ =>
    simp only [hst] at he
    split at he
    · cases he
    · rwa [← Option.some.inj he]

/-- A forced call leaves nothing of a bucket, as no entry in it is idle. -/
theorem visitEntry_forced {e : Entry} (hforce : env.forceIdle) (hne : e.state ≠ .idle) : env.visitEntry e = none := by
  rw [Env.visitEntry]
  cases hst : e.state with
  | idle => exact absurd hst hne
  | _ => simp [hforce]

theorem visitEntry_ready {e : Entry} (hst : e.state = .active) (hpurge : env.purgeIdleInterface)
    (hready : env.ready e.id) : env.visitEntry e = none := by
  simp [Env.visitEntry, hst, hpurge, hready]

theorem visitChain_ids (env : Env) (es : List Entry) :
    ((env.visitChain es).map Entry.id).Sublist (es.map Entry.id) := by
  induction es with
  | nil => exact List.Sublist.refl _
  | cons e es ih =>
    rw [Env.visitChain, List.filterMap_cons]
    rcases he : env.visitEntry e with _ | e'
    · exact ih.cons _
    · rw [List.map_cons, List.map_cons, visitEntry_id he]
      exact ih.cons_cons _

theorem after_ids (env : Env) (b : ℕ) (es : List Entry) :
    ((after env b es).map Entry.id).Sublist (es.map Entry.id) := by
  rw [after]
  split
  · exact visitChain_ids env es
  · exact List.Sublist.refl _

theorem after_ne_idle {b : ℕ} {es : List Entry} (hes : ∀ e ∈ es, e.state ≠ .idle) :
    ∀ e ∈ after env b es, e.state ≠ .idle := by
  rw [after]
  split
  · intro e he
    obtain ⟨e', he', hvisit⟩ := List.mem_filterMap.mp he
    exact visitEntry_ne_idle hvisit (hes e' he')
  · exact hes

theorem nextHash_eq {last : ℕ} (hlast : last < c.numHashes) : nextHash c last = (last + 1) % c.numHashes := by
  rw [nextHash]
  split
  · rename_i hend
    rw [hend, Nat.mod_self]
  · rw [Nat.mod_eq_of_lt (by omega)]

theorem visitBucket_spec (env : Env) (hlast : w.hash.lastPurgedHash < c.numHashes) :
    (visitBucket c env w).visited = w.visited ++ [(w.hash.lastPurgedHash + 1) % c.numHashes] ∧
    (visitBucket c env w).hash.lastPurgedHash = (w.hash.lastPurgedHash + 1) % c.numHashes ∧
    (visitBucket c env w).hash.created = w.hash.created ∧
    ∀ b, (visitBucket c env w).hash.table b =
      if b = (w.hash.lastPurgedHash + 1) % c.numHashes then after env b (w.hash.table b) else w.hash.table b := by
  rw [visitBucket, nextHash_eq hlast]
  simp only
  split
  · rename_i hskip
    refine ⟨rfl, rfl, rfl, fun b => ?_⟩
    split
    · rename_i hb
      rw [← hb, Bool.or_eq_true, Bool.not_eq_true', List.isEmpty_iff] at hskip
      rw [after]
      rcases hskip with hempty | hbusy
      · rw [hempty]
        split <;> rfl
      · rw [hbusy]
        rfl
    · rfl
  · rename_i hvisit
    refine ⟨rfl, rfl, rfl, fun b => ?_⟩
    simp only [Function.update_apply]
    split
    · rename_i hb
      rw [← hb, Bool.or_eq_true, not_or, Bool.not_eq_true', Bool.not_eq_false] at hvisit
      rw [after, hvisit.2, if_pos rfl, ← hb]
    · rfl

/-- The entries of all buckets. -/
def total (c : Config) (f : ℕ → List Entry) : ℕ := ∑ b ∈ Finset.range c.numHashes, (f b).length

theorem total_update {f : ℕ → List Entry} {i : ℕ} (hi : i < c.numHashes) (es : List Entry) :
    total c (Function.update f i es) + (f i).length = total c f + es.length := by
  have hmem := Finset.mem_range.mpr hi
  rw [total, total, ← Finset.add_sum_erase _ _ hmem, ← Finset.add_sum_erase _ (fun b => (f b).length) hmem,
    Function.update_self]
  have hsame : ∑ b ∈ (Finset.range c.numHashes).erase i, (Function.update f i es b).length =
      ∑ b ∈ (Finset.range c.numHashes).erase i, (f b).length :=
    Finset.sum_congr rfl fun b hb => by rw [Function.update_of_ne (Finset.ne_of_mem_erase hb)]
  omega

theorem visitBucket_size (hlast : w.hash.lastPurgedHash < c.numHashes)
    (hsize : w.hash.currentSize = total c w.hash.table) :
    (visitBucket c env w).hash.currentSize = total c (visitBucket c env w).hash.table := by
  have hi : (w.hash.lastPurgedHash + 1) % c.numHashes < c.numHashes := Nat.mod_lt _ c.numHashes_pos
  rw [visitBucket, nextHash_eq hlast]
  simp only
  split
  · exact hsize
  · have hupdate := total_update (f := w.hash.table) hi
      (env.visitChain (w.hash.table ((w.hash.lastPurgedHash + 1) % c.numHashes)))
    have hle := (visitChain_ids env (w.hash.table ((w.hash.lastPurgedHash + 1) % c.numHashes))).length_le
    rw [List.length_map, List.length_map] at hle
    simp only
    omega

/-! ## One call -/

/-- What `r` turns do: they come to an arc of buckets, and to each once. -/
theorem walk_spec (env : Env) (w : Walk) {r : ℕ} (hr : r ≤ c.numHashes) (hlast : w.hash.lastPurgedHash < c.numHashes) :
    ∃ m ≤ r, (env.fullScan → m = r) ∧
      (walk c env r w).visited = w.visited ++ arc c.numHashes w.hash.lastPurgedHash m ∧
      (walk c env r w).hash.lastPurgedHash = (w.hash.lastPurgedHash + m) % c.numHashes ∧
      (walk c env r w).hash.created = w.hash.created ∧
      ∀ b, (walk c env r w).hash.table b = if b ∈ arc c.numHashes w.hash.lastPurgedHash m
        then after env b (w.hash.table b) else w.hash.table b := by
  induction r generalizing w with
  | zero =>
    refine ⟨0, le_refl _, fun _ => rfl, ?_, ?_, rfl, fun b => ?_⟩
    · rw [arc_zero, List.append_nil, walk]
    · rw [walk, Nat.add_zero, Nat.mod_eq_of_lt hlast]
    · rw [arc_zero, if_neg List.not_mem_nil, walk]
  | succ r ih =>
    rw [walk]
    by_cases hstop : enough c env (c.numHashes - (r + 1)) w.bucketsChecked = true
    · rw [if_pos hstop]
      refine ⟨0, Nat.zero_le _, fun hfull => ?_, ?_, ?_, rfl, fun b => ?_⟩
      · rw [enough, hfull] at hstop
        cases hstop
      · rw [arc_zero, List.append_nil]
      · rw [Nat.add_zero, Nat.mod_eq_of_lt hlast]
      · rw [arc_zero, if_neg List.not_mem_nil]
    · obtain ⟨hvisited, hnext, hcreated, htable⟩ := visitBucket_spec env hlast
      have hlast' : (visitBucket c env w).hash.lastPurgedHash < c.numHashes := by
        rw [hnext]
        exact Nat.mod_lt _ c.numHashes_pos
      obtain ⟨m, hm, hfull, hv, hl, hc, ht⟩ := ih _ (by omega) hlast'
      rw [hnext] at hv hl ht
      rw [if_neg hstop]
      refine ⟨m + 1, by omega, fun h => by rw [hfull h], ?_, ?_, hc.trans hcreated, fun b => ?_⟩
      · rw [hv, hvisited, arc_succ, List.append_assoc, List.singleton_append]
      · rw [hl, Nat.mod_add_mod, Nat.add_right_comm, Nat.add_assoc]
      · rw [ht, htable, arc_succ]
        by_cases hb : b = (w.hash.lastPurgedHash + 1) % c.numHashes
        · have hnew : b ∉ arc c.numHashes ((w.hash.lastPurgedHash + 1) % c.numHashes) m := by
            have hnodup := arc_nodup (n := c.numHashes) (a := w.hash.lastPurgedHash) (m := m + 1) (by omega)
            rw [arc_succ, List.nodup_cons] at hnodup
            rw [hb]
            exact hnodup.1
          rw [if_neg hnew, if_pos hb, if_pos (List.mem_cons.mpr (Or.inl hb))]
        · rw [if_neg hb]
          exact if_congr (List.mem_cons.trans (or_iff_right hb)).symm rfl rfl

theorem walk_size {r : ℕ} (hlast : w.hash.lastPurgedHash < c.numHashes)
    (hsize : w.hash.currentSize = total c w.hash.table) :
    (walk c env r w).hash.currentSize = total c (walk c env r w).hash.table := by
  induction r generalizing w with
  | zero => exact hsize
  | succ r ih =>
    rw [walk]
    split
    · exact hsize
    · refine ih ?_ (visitBucket_size hlast hsize)
      rw [(visitBucket_spec env hlast).2.1]
      exact Nat.mod_lt _ c.numHashes_pos

/-- What holds of every state that is reached. -/
structure Inv (c : Config) (h : GenericHash) : Prop where
  last : h.lastPurgedHash < c.numHashes
  size : h.currentSize = total c h.table
  notIdle : ∀ b, ∀ e ∈ h.table b, e.state ≠ .idle
  given : ∀ b, ∀ e ∈ h.table b, e.id < h.created
  nodup : ∀ b, ((h.table b).map Entry.id).Nodup

theorem purgeIdle_spec (env : Env) (hlast : h.lastPurgedHash < c.numHashes) : ∃ m ≤ c.numHashes,
    (env.fullScan → env.disablePurge = false → env.vectorFails = false → m = c.numHashes) ∧
      (purgeIdle c env h).visited = arc c.numHashes h.lastPurgedHash m ∧
      (purgeIdle c env h).hash.lastPurgedHash = (h.lastPurgedHash + m) % c.numHashes ∧
      (purgeIdle c env h).hash.created = h.created ∧
      ∀ b, (purgeIdle c env h).hash.table b =
        if b ∈ arc c.numHashes h.lastPurgedHash m then after env b (h.table b) else h.table b := by
  rw [purgeIdle]
  split
  · rename_i hskip
    refine ⟨0, Nat.zero_le _, fun _ hdisabled hfails => ?_, rfl, ?_, rfl, fun b => ?_⟩
    · rw [hdisabled, hfails] at hskip
      cases hskip
    · rw [Nat.add_zero, Nat.mod_eq_of_lt hlast]
    · rw [arc_zero, if_neg List.not_mem_nil]
  · obtain ⟨m, hm, hfull, hv, hrest⟩ := walk_spec env ⟨h, 0, 0, []⟩ (le_refl _) hlast
    exact ⟨m, hm, fun h _ _ => hfull h, hv, hrest⟩

theorem purgeIdle_table (hlast : h.lastPurgedHash < c.numHashes) (b : ℕ) : (purgeIdle c env h).hash.table b =
    if b ∈ (purgeIdle c env h).visited then after env b (h.table b) else h.table b := by
  obtain ⟨m, _, _, hv, _, _, ht⟩ := purgeIdle_spec env hlast
  rw [ht, hv]

theorem inv_purgeIdle (hinv : Inv c h) (env : Env) : Inv c (purgeIdle c env h).hash := by
  obtain ⟨m, _, _, _, hl, hc, ht⟩ := purgeIdle_spec env hinv.last
  refine ⟨?_, ?_, fun b => ?_, fun b e he => ?_, fun b => ?_⟩
  · rw [hl]
    exact Nat.mod_lt _ c.numHashes_pos
  · rw [purgeIdle]
    split
    · exact hinv.size
    · exact walk_size hinv.last hinv.size
  · rw [ht]
    split
    · exact after_ne_idle (hinv.notIdle b)
    · exact hinv.notIdle b
  · have hid : e.id ∈ (h.table b).map Entry.id := by
      rw [ht] at he
      split at he
      · exact (after_ids env b (h.table b)).subset (List.mem_map_of_mem he)
      · exact List.mem_map_of_mem he
    obtain ⟨e', he', heq⟩ := List.mem_map.mp hid
    rw [hc, ← heq]
    exact hinv.given b e' he'
  · rw [ht]
    split
    · exact (after_ids env b (h.table b)).nodup (hinv.nodup b)
    · exact hinv.nodup b

theorem add_table (h : GenericHash) (key : ℕ) (state : HashEntryState) (b : ℕ) : (add c h key state).table b =
    if b = c.bucket key then ⟨h.created, state⟩ :: h.table b else h.table b := by
  rw [add]
  simp only [Function.update_apply]
  split
  · rename_i hb
    rw [hb]
  · rfl

theorem inv_add (hinv : Inv c h) {key : ℕ} {state : HashEntryState} (hstate : state ≠ .idle) :
    Inv c (add c h key state) := by
  have hi : c.bucket key < c.numHashes := Nat.mod_lt _ c.numHashes_pos
  refine ⟨hinv.last, ?_, fun b e he => ?_, fun b e he => ?_, fun b => ?_⟩
  · have hupdate := total_update (f := h.table) hi (⟨h.created, state⟩ :: h.table (c.bucket key))
    have hsize := hinv.size
    rw [List.length_cons] at hupdate
    simp only [add]
    omega
  · rw [add_table] at he
    split at he
    · rcases List.mem_cons.mp he with rfl | he
      · exact hstate
      · exact hinv.notIdle b e he
    · exact hinv.notIdle b e he
  · have hcreated : (add c h key state).created = h.created + 1 := rfl
    rw [add_table] at he
    rw [hcreated]
    split at he
    · rcases List.mem_cons.mp he with rfl | he
      · exact Nat.lt_succ_self _
      · exact (hinv.given b e he).trans (Nat.lt_succ_self _)
    · exact (hinv.given b e he).trans (Nat.lt_succ_self _)
  · rw [add_table]
    split
    · rw [List.map_cons, List.nodup_cons]
      refine ⟨fun hmem => ?_, hinv.nodup b⟩
      obtain ⟨e, he, heq⟩ := List.mem_map.mp hmem
      exact absurd heq (ne_of_lt (hinv.given b e he))
    · exact hinv.nodup b

theorem inv_step (h : GenericHash) (e : Ev) (hinv : Inv c h) : Inv c (step c h e) := by
  cases e with
  | add key state hstate => exact inv_add hinv hstate
  | purgeIdle env => exact inv_purgeIdle hinv env

theorem inv_new (c : Config) : Inv c (new c) := by
  refine ⟨Nat.sub_lt c.numHashes_pos Nat.one_pos, ?_, fun b e he => ?_, fun b e he => ?_, fun b => List.nodup_nil⟩
  · rw [total]
    exact (Finset.sum_eq_zero fun b _ => rfl).symm
  · exact absurd he List.not_mem_nil
  · exact absurd he List.not_mem_nil

/-! ## Calls in a row -/

theorem step_last (hinv : Inv c h) (e : Ev) : visitedBy c h e =
      arc c.numHashes h.lastPurgedHash (visitedBy c h e).length ∧
    (step c h e).lastPurgedHash = (h.lastPurgedHash + (visitedBy c h e).length) % c.numHashes := by
  cases e with
  | add key state hstate => exact ⟨rfl, (Nat.mod_eq_of_lt hinv.last).symm⟩
  | purgeIdle env =>
    obtain ⟨m, _, _, hv, hl, _, _⟩ := purgeIdle_spec env hinv.last
    have hm : (visitedBy c h (.purgeIdle env)).length = m := by
      rw [visitedBy, hv, arc_length]
    rw [hm]
    exact ⟨hv, hl⟩

/-- Calls go on where the last one ended. -/
theorem comesTo_eq (hinv : Inv c h) (es : List Ev) :
    comesTo c h es = arc c.numHashes h.lastPurgedHash (comesTo c h es).length := by
  induction es generalizing h with
  | nil => rfl
  | cons e es ih =>
    obtain ⟨hvisited, hlast⟩ := step_last hinv e
    have hrest := ih (inv_step h e hinv)
    rw [hlast] at hrest
    rw [comesTo, List.length_append, ← arc_append, ← hvisited, ← hrest]

theorem comesTo_length {k : ℕ} {es : List Ev} (hk : Along (step c) (Visits c k) h es) :
    (comesTo c h es).length = k * es.countP Ev.isCall := by
  induction es generalizing h with
  | nil => rfl
  | cons e es ih =>
    rw [comesTo, List.length_append, ih hk.2, List.countP_cons]
    cases e with
    | add key state hstate => rw [visitedBy, Ev.isCall, List.length_nil]; simp
    | purgeIdle env =>
      rw [hk.1 rfl, Ev.isCall, if_pos rfl, Nat.mul_add, Nat.mul_one, Nat.add_comm]

theorem comesTo_all {k : ℕ} {es : List Ev} (hinv : Inv c h) (hpos : 0 < k)
    (hk : Along (step c) (Visits c k) h es) (hcalls : (c.numHashes + k - 1) / k ≤ es.countP Ev.isCall) {b : ℕ}
    (hb : b < c.numHashes) : b ∈ comesTo c h es := by
  have hround : c.numHashes ≤ (comesTo c h es).length := by
    rw [comesTo_length hk]
    have hceil : c.numHashes + k - 1 < k * ((c.numHashes + k - 1) / k + 1) := Nat.lt_mul_div_succ _ hpos
    have hmul := Nat.mul_le_mul_left k hcalls
    rw [Nat.mul_add, Nat.mul_one] at hceil
    omega
  rw [comesTo_eq hinv]
  exact mem_arc hround hb

/-! ## Ready entries -/

variable {b id : ℕ}

/-- An entry that is not in a bucket, and will not be added again, does not come back. -/
def Gone (h : GenericHash) (b id : ℕ) : Prop := id < h.created ∧ ∀ e ∈ h.table b, e.id ≠ id

theorem gone_step (hinv : Inv c h) (hgone : Gone h b id) (e : Ev) : Gone (step c h e) b id := by
  cases e with
  | add key state hstate =>
    refine ⟨hgone.1.trans (Nat.lt_succ_self _), fun e he => ?_⟩
    rw [step, add_table] at he
    split at he
    · rcases List.mem_cons.mp he with rfl | he
      · exact ne_of_gt hgone.1
      · exact hgone.2 e he
    · exact hgone.2 e he
  | purgeIdle env =>
    obtain ⟨m, _, _, _, _, hc, ht⟩ := purgeIdle_spec env hinv.last
    refine ⟨by rw [step, hc]; exact hgone.1, fun e he heq => ?_⟩
    have hid : e.id ∈ (h.table b).map Entry.id := by
      rw [step, ht] at he
      split at he
      · exact (after_ids env b (h.table b)).subset (List.mem_map_of_mem he)
      · exact List.mem_map_of_mem he
    obtain ⟨e', he', heq'⟩ := List.mem_map.mp hid
    exact hgone.2 e' he' (heq'.trans heq)

theorem gone_run (hinv : Inv c h) (hgone : Gone h b id) (es : List Ev) : Gone (run (step c) h es) b id := by
  induction es generalizing h with
  | nil => exact hgone
  | cons e es ih => exact ih (inv_step h e hinv) (gone_step hinv hgone e)

/-- The call that comes to its bucket takes a ready entry out. -/
theorem gone_visit (hinv : Inv c h) {x : Entry} (hx : x ∈ h.table b) (hactive : x.state = .active)
    (htakes : Takes b x.id (.purgeIdle env)) (hb : b ∈ (purgeIdle c env h).visited) :
    Gone (purgeIdle c env h).hash b x.id := by
  obtain ⟨hlock, hpurge, hready⟩ := htakes
  obtain ⟨m, _, _, _, _, hc, _⟩ := purgeIdle_spec env hinv.last
  refine ⟨by rw [hc]; exact hinv.given b x hx, fun e he heq => ?_⟩
  rw [purgeIdle_table hinv.last, if_pos hb, after, if_pos hlock] at he
  obtain ⟨e', he', hvisit⟩ := List.mem_filterMap.mp he
  have hsame : e' = x :=
    List.inj_on_of_nodup_map (hinv.nodup b) he' hx ((visitEntry_id hvisit).symm.trans heq)
  rw [hsame, visitEntry_ready hactive hpurge hready] at hvisit
  cases hvisit

theorem gone_of_comesTo (hinv : Inv c h) {x : Entry} (hx : x ∈ h.table b) (hactive : x.state = .active) {es : List Ev}
    (htakes : ∀ e ∈ es, Takes b x.id e) (hb : b ∈ comesTo c h es) : Gone (run (step c) h es) b x.id := by
  induction es generalizing h with
  | nil => exact absurd hb List.not_mem_nil
  | cons e es ih =>
    rw [run_cons]
    have hrest := fun e he => htakes e (List.mem_cons_of_mem _ he)
    rcases List.mem_append.mp hb with hnow | hlater
    · cases e with
      | add key state hstate => exact absurd hnow List.not_mem_nil
      | purgeIdle env =>
        have hgone := gone_visit hinv hx hactive (htakes _ (List.mem_cons_self ..)) hnow
        exact gone_run (inv_purgeIdle hinv env) hgone es
    · cases e with
      | add key state hstate =>
        refine ih (inv_add hinv hstate) ?_ hrest hlater
        rw [step, add_table]
        split
        · exact List.mem_cons_of_mem _ hx
        · exact hx
      | purgeIdle env =>
        by_cases hnow : b ∈ (purgeIdle c env h).visited
        · have hgone := gone_visit hinv hx hactive (htakes _ (List.mem_cons_self ..)) hnow
          exact gone_run (inv_purgeIdle hinv env) hgone es
        · refine ih (inv_purgeIdle hinv env) ?_ hrest hlater
          rw [step, purgeIdle_table hinv.last, if_neg hnow]
          exact hx

/-! ## Forced calls -/

theorem forced_visits (hinv : Inv c h) (hfull : env.fullScan) (hdisable : env.disablePurge = false)
    (hfails : env.vectorFails = false) (hb : b < c.numHashes) : b ∈ (purgeIdle c env h).visited := by
  obtain ⟨m, _, hm, hv, _⟩ := purgeIdle_spec env hinv.last
  rw [hv, hm hfull hdisable hfails]
  exact mem_arc (le_refl _) hb

theorem forced_empty (hinv : Inv c h) (hforce : env.forceIdle) (hfree : env.lockFree b)
    (hb : b ∈ (purgeIdle c env h).visited) : (purgeIdle c env h).hash.table b = [] := by
  rw [purgeIdle_table hinv.last, if_pos hb, after, if_pos hfree, Env.visitChain, List.filterMap_eq_nil_iff]
  exact fun e he => visitEntry_forced hforce (hinv.notIdle b e he)

theorem covered_of_inv (hinv : Inv c h) : Covered c h := by
  refine ⟨fun env => ?_, ?_, ?_, ?_⟩
  · obtain ⟨m, hm, _, hv, _⟩ := purgeIdle_spec env hinv.last
    rw [hv]
    exact arc_nodup hm
  · intro k es hpos hk hcalls b hb
    exact comesTo_all hinv hpos hk hcalls hb
  · intro k es hpos hk hcalls b hb x hx hactive htakes
    exact (gone_of_comesTo hinv hx hactive htakes (comesTo_all hinv hpos hk hcalls hb)).2
  · intro env hforce hfull hdisable hfails
    have hall := fun b hb => forced_visits (b := b) hinv hfull hdisable hfails hb
    refine ⟨hall, fun b hb hfree => forced_empty hinv hforce hfree (hall b hb), fun hfree => ?_⟩
    rw [(inv_purgeIdle hinv env).size, total]
    refine Finset.sum_eq_zero fun b hb => ?_
    have hlt := Finset.mem_range.mp hb
    rw [forced_empty hinv hforce (hfree b hlt) (hall b hlt), List.length_nil]

/-- What the walk promises, in every state that is reached. -/
theorem coverage_law (c : Config) (es : List Ev) : Covered c (run (step c) (new c) es) :=
  covered_of_inv (inv_run_all (step c) inv_step (inv_new c) es)

/-! ## What it does not promise -/

/-- A bucket whose lock is taken is as before. -/
theorem busy_bucket_stays (hinv : Inv c h) (hbusy : env.lockFree b = false) :
    (purgeIdle c env h).hash.table b = h.table b := by
  rw [purgeIdle_table hinv.last, after, hbusy]
  simp

/-- A forced scan of the whole table, with all locks taken. -/
def busyScan : Env where
  forceIdle := true
  fullScan := true
  disablePurge := false
  vectorFails := false
  purgeIdleInterface := true
  lockFree := fun _ => false
  ready := fun _ => true
  housekeep := fun _ st => st
  housekeep_ne_idle := fun _ _ h => h

/-- The one entry of the table stays. -/
theorem forced_call_leaves : ¬ ∀ (c : Config) (es : List Ev) (env : Env), env.forceIdle →
    (purgeIdle c env (run (step c) (new c) es)).hash.currentSize = 0 := by
  intro hall
  have h := hall ⟨1, 10, 0, by decide⟩ [.add 0 .active (by decide)] busyScan rfl
  revert h
  decide

end Ntopng.Hash.Coverage
