/-
  Ntopng.Hash.Refines — a call of Ntopng.Hash.Coverage is what the steps of Ntopng.Hash.Generic do.

  There a call of `purgeIdle` is one step on lists of entries. Here the inline thread makes one
  step per bucket, per entry and per detached entry, on heads and links. `Shows` reads the
  lists off the links, and `answers` gives each step what the call's `Env` says.

  Proved: the steps from a call to its return lead to the table, the position and the count of
  `Coverage.purgeIdle` (`purgeIdle_refines`); so does every run of whole calls, with additions
  and with steps of the other thread in between (`calls_refine`). So what is covered there is
  covered here (`calls_covered`). Left out are additions and steps of the other thread in the
  middle of a call.
-/

import Ntopng.Hash.Coverage
import Ntopng.Hash.GenericProofs

namespace Ntopng.Hash.Refines

open Ntopng.Lib.Run Ntopng.Lib.Chain

open Ntopng.Hash.Generic (HashEntryState Config GenericHashEntry Call Inv Kept)

open Relation (ReflTransGen)

/-! ## The table as lists -/

/-- What the walk looks at. -/
def seen (s : Generic.GenericHash) (id : ℕ) : Coverage.Entry :=
  ⟨id, ((s.entries id).map (·.hashEntryState)).getD .allocated⟩

variable (c : Config)

structure Shows (s : Generic.GenericHash) (chains : ℕ → List ℕ) (h : Coverage.GenericHash) : Prop where
  inv : Inv c s chains
  table : ∀ b < c.numHashes, h.table b = (chains b).map (seen s)
  currentSize : h.currentSize = s.currentSize
  lastPurgedHash : h.lastPurgedHash = s.lastPurgedHash
  created : h.created = s.created

/-- What the next step of the inline thread meets; what the call's `Env` does not say is in `base`. -/
def answers (env : Coverage.Env) (base : Generic.GenericHash → Generic.Env) (s : Generic.GenericHash) : Generic.Env :=
  { base s with
    lockFree := env.lockFree (Coverage.nextHash c s.lastPurgedHash)
    purgeIdleInterface := env.purgeIdleInterface
    idleTransitionReady := match s.purgeIdle with
      | .chain _ _ _ _ (some id) => env.ready id
      | _ => false
    housekeep := match s.purgeIdle with
      | .chain _ _ _ _ (some id) => env.housekeep id
      | _ => (base s).housekeep }

/-- A step of the inline thread. -/
def Turns (env : Coverage.Env) (base : Generic.GenericHash → Generic.Env) (s s' : Generic.GenericHash) : Prop :=
  Generic.fire c s (.purgeIdleStep (answers c env base s)) = some s'

variable {c} {env : Coverage.Env} {base : Generic.GenericHash → Generic.Env} {s s' : Generic.GenericHash}
  {chains : ℕ → List ℕ} {h : Coverage.GenericHash}

theorem seen_congr {id : ℕ}
    (hstate : (s'.entries id).map (·.hashEntryState) = (s.entries id).map (·.hashEntryState)) : seen s' id = seen s id := by
  rw [seen, seen, hstate]

theorem seen_some {id : ℕ} {e : GenericHashEntry} (he : s.entries id = some e) : seen s id = ⟨id, e.hashEntryState⟩ := by
  rw [seen, he]
  rfl

theorem seen_setEntry (s : Generic.GenericHash) (id : ℕ) (e : GenericHashEntry) (x : ℕ) :
    seen (s.setEntry id e) x = if x = id then ⟨id, e.hashEntryState⟩ else seen s x := by
  by_cases hx : x = id
  · rw [if_pos hx, hx]
    exact seen_some (Function.update_self ..)
  · rw [if_neg hx]
    refine seen_congr ?_
    simp only [Generic.GenericHash.setEntry, Function.update_of_ne hx]

theorem length_flat (f : ℕ → List ℕ) (n : ℕ) : (flat n f).length = ∑ b ∈ Finset.range n, (f b).length := by
  induction n with
  | zero => rfl
  | succ n ih => rw [flat_succ, List.length_append, ih, Finset.sum_range_succ]

theorem total_eq {f : ℕ → List Coverage.Entry} (htable : ∀ b < c.numHashes, f b = (chains b).map (seen s)) :
    Coverage.total c f = (flat c.numHashes chains).length := by
  rw [Coverage.total, length_flat]
  refine Finset.sum_congr rfl fun b hb => ?_
  rw [htable b (Finset.mem_range.mp hb), List.length_map]

/-- Both count the entries of the table. -/
theorem Shows.size (hs : Shows c s chains h) : h.currentSize = Coverage.total c h.table := by
  rw [total_eq hs.table, hs.currentSize, hs.inv.accounts.currentSize]

/-! ## One entry -/

theorem advance_state (e : GenericHashEntry) (genv : Generic.Env) {id : ℕ}
    (hhouse : genv.housekeep = env.housekeep id) :
    (env.advance ⟨id, e.hashEntryState⟩) = ⟨id, (e.advance genv).hashEntryState⟩ := by
  simp only [GenericHashEntry.advance, Coverage.Env.advance, GenericHashEntry.housekeep, Coverage.Env.housekept, hhouse]
  by_cases hst : env.housekeep id e.hashEntryState = .flowProtocoldetected
  · -- from detected to active is a valid transition
    simp [hst, GenericHashEntry.setHashEntryStateActive, GenericHashEntry.setState, HashEntryState.toNat]
  · rw [if_neg hst]
    exact if_neg hst

def looked (call : Call) : Call := { call with bucketsChecked := call.bucketsChecked + 1 }

/-- The walk in bucket `i` has passed `id`; of it `kept` is left. -/
structure Passed (c : Config) (s s' : Generic.GenericHash) (chains : ℕ → List ℕ) (call : Call) (j i id : ℕ)
    (pre kept rest : List ℕ) : Prop where
  inv : Inv c s' (Function.update chains i (pre ++ kept ++ rest))
  cursor : s'.purgeIdle = .chain { looked call with numDetached := call.numDetached + (1 - kept.length) } j i
    (pre ++ kept).getLast? rest.head?
  sub : kept.Sublist [id]
  others : ∀ x ≠ id, seen s' x = seen s x
  lastPurgedHash : s'.lastPurgedHash = s.lastPurgedHash
  created : s'.created = s.created

section

variable {call : Call} {j i id : ℕ} {pre rest : List ℕ} {e e' : GenericHashEntry}

theorem stepOver_passed (hinv : Inv c s chains) (hi : i < c.numHashes) (hcat : chains i = pre ++ id :: rest)
    (hpc : s.purgeIdle = .chain call j i pre.getLast? (some id)) (he : s.entries id = some e) (hkey : e'.key = e.key)
    (hnext : e'.hashNext = e.hashNext) (hset : e'.setIdle = e.setIdle) :
    Passed c s (s.stepOver (looked call) j i id e') chains call j i id pre [id]
      rest := by
  have hsame : Function.update chains i (pre ++ [id] ++ rest) = chains := by
    rw [List.append_assoc, List.singleton_append, ← hcat, Function.update_eq_self]
  have hlink := hinv.table.linked i hi
  rw [hcat] at hlink
  have hhead : e'.hashNext = rest.head? := by
    rw [hnext, ← hlink.next_eq, Generic.GenericHash.next, he, Option.bind_some]
  refine ⟨?_, ?_, List.Sublist.refl _, fun x hx => ?_, rfl, rfl⟩
  · have hcall : (looked call).oldSize = call.oldSize := rfl
    rw [hsame]
    exact Generic.stepOver_inv hinv hpc hcall he hkey hnext hset
  · rw [List.getLast?_concat, ← hhead]
    rfl
  · exact (seen_setEntry s id e' x).trans (if_neg hx)

theorem detach_passed (hinv : Inv c s chains) (hi : i < c.numHashes) (hcat : chains i = pre ++ id :: rest)
    (hpc : s.purgeIdle = .chain call j i pre.getLast? (some id)) (he : s.entries id = some e) :
    ∃ s', s.detach (looked call) j i pre.getLast? id e.hashNext = some s' ∧
      Passed c s s' chains call j i id pre [] rest := by
  have hcall : (looked call).oldSize = call.oldSize := rfl
  obtain ⟨s', heq, hinv', hpc', hkept⟩ := Generic.detach_at hinv hi hcat rfl hpc hcall he
  refine ⟨s', heq, ?_, ?_, List.nil_sublist _, fun x _ => seen_congr (hkept.states x), hkept.lastPurgedHash, hkept.created⟩
  · rw [List.append_nil]
    exact hinv'
  · rw [List.append_nil, hpc']
    rfl

theorem Passed.of_setEntry {kept : List ℕ} (h : Passed c (s.setEntry id e) s' chains call j i id pre kept rest) :
    Passed c s s' chains call j i id pre kept rest := by
  refine { h with others := fun x hx => ?_ }
  rw [h.others x hx, seen_setEntry, if_neg hx]

/-- The walk passes an entry, which stays or goes. -/
theorem visitEntry_passed {genv : Generic.Env} (hinv : Inv c s chains) (hi : i < c.numHashes)
    (hcat : chains i = pre ++ id :: rest) (hpc : s.purgeIdle = .chain call j i pre.getLast? (some id))
    (hforce : call.forceIdle = env.forceIdle) (hpurge : genv.purgeIdleInterface = env.purgeIdleInterface)
    (hready : genv.idleTransitionReady = env.ready id) (hhouse : genv.housekeep = env.housekeep id) :
    ∃ s' kept, s.visitEntry genv call j i pre.getLast? id = some s' ∧ Passed c s s' chains call j i id pre kept rest ∧
      kept.map (seen s') = (env.visitEntry (seen s id)).toList := by
  have hmem : id ∈ chains i := by
    rw [hcat]
    exact List.mem_append_right _ (List.mem_cons_self ..)
  obtain ⟨e, he, -⟩ := hinv.table.ownBucket i hi id hmem
  have hstays : ∀ e' : GenericHashEntry, e'.key = e.key → e'.hashNext = e.hashNext → e'.setIdle = e.setIdle →
      ∃ s' kept, some (s.stepOver (looked call) j i id e') = some s' ∧
        Passed c s s' chains call j i id pre kept rest ∧
        kept.map (seen s') = (some (⟨id, e'.hashEntryState⟩ : Coverage.Entry)).toList := by
    intro e' hkey hnext hset
    refine ⟨_, [id], rfl, stepOver_passed hinv hi hcat hpc he hkey hnext hset, ?_⟩
    exact congrArg ([·]) ((seen_setEntry s id e' id).trans (if_pos rfl))
  have hseen := seen_some he
  obtain ⟨hkey, hnext, hset⟩ := Generic.advance_frame genv e
  have hearly : ∃ s' kept, (if call.forceIdle = true then
        (s.setEntry id (e.advance genv)).detach (looked call) j i
          pre.getLast? id e.hashNext
        else some (s.stepOver (looked call) j i id (e.advance genv))) = some s' ∧
      Passed c s s' chains call j i id pre kept rest ∧
      kept.map (seen s') = (if env.forceIdle = true then none else some (env.advance ⟨id, e.hashEntryState⟩)).toList := by
    rw [← hforce]
    split
    · have hself : (s.setEntry id (e.advance genv)).entries id = some (e.advance genv) := Function.update_self ..
      obtain ⟨s', heq, hpassed⟩ := detach_passed (hinv.setEntry he hkey hnext hset) hi hcat hpc hself
      rw [hnext] at heq
      exact ⟨s', [], heq, hpassed.of_setEntry, rfl⟩
    · rw [advance_state e genv hhouse]
      exact hstays _ hkey hnext hset
  simp only [Generic.GenericHash.visitEntry, he, Option.bind_eq_bind, Option.bind_some, hseen, Coverage.Env.visitEntry]
  cases hst : e.hashEntryState with
  | idle =>
    have h := hstays e rfl rfl rfl
    rw [hst] at h
    exact h
  | allocated => rw [hst] at hearly; exact hearly
  | flowNotyetdetected => rw [hst] at hearly; exact hearly
  | flowProtocoldetected => rw [hst] at hearly; exact hearly
  | active =>
    simp only [hpurge, hready, ← hforce]
    split
    · obtain ⟨s', heq, hpassed⟩ := detach_passed hinv hi hcat hpc he
      exact ⟨s', [], heq, hpassed, rfl⟩
    · have h := hstays (e.housekeep genv) rfl rfl rfl
      simp only [GenericHashEntry.housekeep, hhouse, hst] at h ⊢
      exact h

variable (base) in
/-- The walk passes what is left of a bucket, and goes on with the next one. -/
theorem chain_turns {suf : List ℕ} (hinv : Inv c s chains) (hi : i < c.numHashes) (hcat : chains i = pre ++ suf)
    (hpc : s.purgeIdle = .chain call j i pre.getLast? suf.head?) (hforce : call.forceIdle = env.forceIdle) :
    ∃ s' out n, ReflTransGen (Turns c env base) s s' ∧ Inv c s' (Function.update chains i out) ∧
      s'.purgeIdle = .buckets { call with bucketsChecked := call.bucketsChecked + suf.length, numDetached := n } (j + 1) ∧
      out.map (seen s') = pre.map (seen s) ++ env.visitChain (suf.map (seen s)) ∧
      n + out.length = call.numDetached + (chains i).length ∧ (∀ x ∉ chains i, seen s' x = seen s x) ∧
      s'.lastPurgedHash = s.lastPurgedHash ∧ s'.created = s.created := by
  induction suf generalizing s chains pre call with
  | nil =>
    have hturn : Turns c env base s { s with purgeIdle := .buckets call (j + 1) } := by
      simp only [Turns, Generic.fire, hpc, List.head?_nil]
    refine ⟨_, pre, call.numDetached, .single hturn, ?_, rfl, ?_, ?_, fun x _ => rfl, rfl, rfl⟩
    · rw [← List.append_nil pre, ← hcat, Function.update_eq_self]
      exact Generic.endWalk_inv hinv hpc
    · rw [List.map_nil, Coverage.Env.visitChain, List.filterMap_nil, List.append_nil]
      rfl
    · rw [hcat, List.append_nil]
  | cons id suf ih =>
    have hhead : s.purgeIdle = .chain call j i pre.getLast? (some id) := hpc
    have hanswers : ∀ genv, answers c env base s = genv → genv.purgeIdleInterface = env.purgeIdleInterface ∧
        genv.idleTransitionReady = env.ready id ∧ genv.housekeep = env.housekeep id := by
      rintro _ rfl
      simp only [answers, hhead, and_self]
    obtain ⟨hpurge, hready, hhouse⟩ := hanswers _ rfl
    obtain ⟨s₁, kept, hvisit, hpassed, hseen⟩ := visitEntry_passed hinv hi hcat hhead hforce hpurge hready hhouse
    have hturn : Turns c env base s s₁ := by
      rw [Turns, ← hvisit]
      simp only [Generic.fire, hhead]
    obtain ⟨s', out, n, hturns, hinv', hpc', hout, hn, hothers, hlast, hcreated⟩ :=
      ih hpassed.inv (Function.update_self ..) hpassed.cursor hforce
    -- what was passed before and what comes behind is as it was
    have hnodup := hinv.accounts.chain_nodup hi
    rw [hcat, List.nodup_middle, List.nodup_cons, List.mem_append, not_or] at hnodup
    have hpre : pre.map (seen s₁) = pre.map (seen s) :=
      List.map_congr_left fun x hx => hpassed.others x fun heq => hnodup.1.1 (heq ▸ hx)
    have hsuf : suf.map (seen s₁) = suf.map (seen s) :=
      List.map_congr_left fun x hx => hpassed.others x fun heq => hnodup.1.2 (heq ▸ hx)
    have hkept := hpassed.sub.length_le
    rw [Function.update_self, List.length_append, List.length_append] at hn
    rw [List.length_singleton] at hkept
    refine ⟨s', out, n, .head hturn hturns, ?_, ?_, ?_, ?_, fun x hx => ?_, ?_, ?_⟩
    · rwa [Function.update_idem] at hinv'
    · rw [hpc', List.length_cons, looked, Nat.add_comm suf.length 1, ← Nat.add_assoc]
    · rw [hout, List.map_append, hpre, hseen, hsuf, List.append_assoc, List.map_cons, Coverage.Env.visitChain,
        Coverage.Env.visitChain, List.filterMap_cons]
      cases env.visitEntry (seen s id) <;> rfl
    · rw [hcat, List.length_append, List.length_cons]
      simp only at hn
      omega
    · rw [hcat] at hx
      have hne : x ≠ id := fun heq => hx (heq ▸ List.mem_append_right _ (List.mem_cons_self ..))
      rw [hothers x ?_, hpassed.others x hne]
      rw [Function.update_self]
      intro hmem
      simp only [List.mem_append, List.mem_cons, not_or] at hmem hx
      rcases hmem with (hmem | hmem) | hmem
      · exact hx.1 hmem
      · exact hne (List.mem_singleton.mp (hpassed.sub.subset hmem))
      · exact hx.2.2 hmem
    · rw [hlast, hpassed.lastPurgedHash]
    · rw [hcreated, hpassed.created]

end

/-! ## All buckets -/

/-- The locals of the call. -/
structure Counts (c : Config) (env : Coverage.Env) (call : Call) (w : Coverage.Walk) : Prop where
  forceIdle : call.forceIdle = env.forceIdle
  fullScan : call.fullScan = env.fullScan
  visitFraction : call.visitFraction = Coverage.visitFraction c env
  bucketsChecked : call.bucketsChecked = w.bucketsChecked
  numDetached : call.numDetached = w.numDetached

section

variable {call : Call} {j r : ℕ} {w : Coverage.Walk}

theorem enough_iff (hcounts : Counts c env call w) : Coverage.enough c env j w.bucketsChecked = true ↔
    !call.fullScan ∧ (call.bucketsChecked > c.upperNumVisitedEntries ∨
      (j > call.visitFraction ∧ call.bucketsChecked > Generic.minNumVisitedEntries)) := by
  rw [Coverage.enough, hcounts.fullScan, hcounts.bucketsChecked, hcounts.visitFraction]
  simp only [Bool.and_eq_true, Bool.or_eq_true, decide_eq_true_eq]

variable (env) in
/-- The table of the next bucket, read off its head. -/
theorem skips_iff {i : ℕ} (hs : Shows c s chains h) (hi : i < c.numHashes) :
    ((h.table i).isEmpty || !env.lockFree i) = !((s.table i).isSome && env.lockFree i) := by
  rw [hs.table i hi, (hs.inv.table.linked i hi).head_eq]
  cases chains i <;> rfl

/-- An entry of another bucket is not in this one. -/
theorem other_bucket {b i id : ℕ} (hinv : Inv c s chains) (hb : b < c.numHashes) (hi : i < c.numHashes) (hne : b ≠ i)
    (hid : id ∈ chains b) : id ∉ chains i := by
  intro hid'
  obtain ⟨e, he, hkey⟩ := hinv.table.ownBucket b hb id hid
  obtain ⟨e', he', hkey'⟩ := hinv.table.ownBucket i hi id hid'
  rw [he, Option.some.injEq] at he'
  exact hne (hkey.symm.trans (he' ▸ hkey'))

/-- What the call on the lists does with the next bucket. -/
theorem visitBucket_eq {i : ℕ} (hs : Shows c s chains w.hash) (hi : i < c.numHashes)
    (hnext : i = Coverage.nextHash c s.lastPurgedHash) :
    Coverage.visitBucket c env w = if (s.table i).isSome && env.lockFree i then
      { hash := { w.hash with
          lastPurgedHash := i
          table := Function.update w.hash.table i (env.visitChain (w.hash.table i))
          currentSize := w.hash.currentSize -
            ((w.hash.table i).length - (env.visitChain (w.hash.table i)).length) }
        bucketsChecked := w.bucketsChecked + (w.hash.table i).length
        numDetached := w.numDetached + ((w.hash.table i).length - (env.visitChain (w.hash.table i)).length)
        visited := w.visited ++ [i] }
      else { w with hash := { w.hash with lastPurgedHash := i }, visited := w.visited ++ [i] } := by
  simp only [Coverage.visitBucket, hs.lastPurgedHash, ← hnext, skips_iff env hs hi]
  cases (s.table i).isSome && env.lockFree i <;> rfl

/-- What the step does with it: the walk in the bucket begins, or it is skipped. -/
theorem nextBucket_eq {i : ℕ} (hcounts : Counts c env call w) (hnext : i = Coverage.nextHash c s.lastPurgedHash)
    (hj : j < c.numHashes) (hgo : ¬ Coverage.enough c env j w.bucketsChecked = true) :
    s.nextBucket c (answers c env base s) call j =
      if (s.table i).isSome && env.lockFree i then
        { s with lastPurgedHash := i, purgeIdle := .chain call j i none (s.table i) }
      else { s with lastPurgedHash := i, purgeIdle := .buckets call (j + 1) } := by
  rw [Generic.GenericHash.nextBucket, if_pos ⟨hj, fun h => hgo ((enough_iff hcounts).mpr h)⟩, hnext]
  rfl

variable (base) in
/-- One turn of the `for` loop. -/
theorem bucket_turns (hs : Shows c s chains w.hash) (hcounts : Counts c env call w) (hpc : s.purgeIdle = .buckets call j)
    (hj : j < c.numHashes) (hgo : ¬ Coverage.enough c env j w.bucketsChecked = true) :
    ∃ s' chains' call', ReflTransGen (Turns c env base) s s' ∧ Shows c s' chains' (Coverage.visitBucket c env w).hash ∧
      s'.purgeIdle = .buckets call' (j + 1) ∧ Counts c env call' (Coverage.visitBucket c env w) := by
  have hlast : w.hash.lastPurgedHash < c.numHashes := hs.lastPurgedHash ▸ hs.inv.table.lastPurged
  have hsize : (Coverage.visitBucket c env w).hash.currentSize = Coverage.total c (Coverage.visitBucket c env w).hash.table :=
    Coverage.visitBucket_size hlast hs.size
  obtain ⟨i, hnext⟩ : ∃ i, i = Coverage.nextHash c s.lastPurgedHash := ⟨_, rfl⟩
  have hi : i < c.numHashes := by
    rw [hnext, Coverage.nextHash_eq hs.inv.table.lastPurged]
    exact Nat.mod_lt _ c.numHashes_pos
  have hinv := Generic.nextBucket_inv hs.inv hpc (answers c env base s)
  have hfire : Generic.fire c s (.purgeIdleStep (answers c env base s)) =
      some (s.nextBucket c (answers c env base s) call j) := by
    simp only [Generic.fire, hpc]
  rw [nextBucket_eq hcounts hnext hj hgo] at hfire hinv
  rw [visitBucket_eq hs hi hnext] at hsize ⊢
  by_cases hfree : ((s.table i).isSome && env.lockFree i) = true
  · rw [if_pos hfree] at hfire hinv hsize ⊢
    have hlinked := (hs.inv.table.linked i hi).head_eq
    obtain ⟨s', out, n, hturns, hinv', hpc', hout, hn, hothers, hlast', hcreated⟩ :=
      chain_turns base hinv hi (List.nil_append _).symm (by rw [hlinked]; rfl) hcounts.forceIdle
    have htable : ∀ b < c.numHashes, Function.update w.hash.table i (env.visitChain (w.hash.table i)) b =
        (Function.update chains i out b).map (seen s') := by
      intro b hb
      by_cases hbi : b = i
      · rw [hbi, Function.update_self, Function.update_self, hout, hs.table i hi]
        rfl
      · rw [Function.update_of_ne hbi, Function.update_of_ne hbi, hs.table b hb]
        exact List.map_congr_left fun x hx => (hothers x (other_bucket hs.inv hb hi hbi hx)).symm
    have hkept : (env.visitChain (w.hash.table i)).length = out.length := by
      have hlen := congrArg List.length (htable i hi)
      rwa [Function.update_self, Function.update_self, List.length_map] at hlen
    have hle := List.length_filterMap_le env.visitEntry (w.hash.table i)
    have hchain : (w.hash.table i).length = (chains i).length := by rw [hs.table i hi, List.length_map]
    refine ⟨s', _, _, .head hfire hturns, ⟨hinv', htable, ?_, hlast'.symm, hs.created.trans hcreated.symm⟩, hpc', ?_⟩
    · rw [hsize, total_eq htable, hinv'.accounts.currentSize]
    · refine ⟨hcounts.forceIdle, hcounts.fullScan, hcounts.visitFraction, ?_, ?_⟩
      · dsimp only
        rw [hcounts.bucketsChecked, hchain]
      · have hsum := hcounts.numDetached
        dsimp only at hn ⊢
        rw [Coverage.Env.visitChain] at hkept ⊢
        omega
  · rw [if_neg hfree] at hfire hinv hsize ⊢
    refine ⟨_, chains, call, .single hfire, ⟨hinv, hs.table, hs.currentSize, rfl, hs.created⟩, rfl, ?_⟩
    exact { hcounts with }

/-- The `for` loop ends. -/
theorem stop_turns (hs : Shows c s chains w.hash) (hcounts : Counts c env call w) (hpc : s.purgeIdle = .buckets call j)
    (hend : ¬ (j < c.numHashes ∧ ¬ Coverage.enough c env j w.bucketsChecked = true)) :
    ∃ s' chains' call', ReflTransGen (Turns c env base) s s' ∧ Shows c s' chains' w.hash ∧
      s'.purgeIdle = .settle call' call'.oldSize ∧ call'.numDetached = w.numDetached := by
  have hinv := Generic.nextBucket_inv hs.inv hpc (answers c env base s)
  have hbucket : s.nextBucket c (answers c env base s) call j = { s with purgeIdle := .settle call call.oldSize } := by
    rw [Generic.GenericHash.nextBucket, if_neg]
    exact fun hgo => hend ⟨hgo.1, fun h => hgo.2 ((enough_iff hcounts).mp h)⟩
  have hturn : Turns c env base s { s with purgeIdle := .settle call call.oldSize } := by
    rw [← hbucket]
    simp only [Turns, Generic.fire, hpc]
  rw [hbucket] at hinv
  exact ⟨_, chains, call, .single hturn, { hs with inv := hinv }, rfl, hcounts.numDetached⟩

variable (base) in
/-- The `for` loop with `r` turns left. -/
theorem walk_turns (hs : Shows c s chains w.hash) (hcounts : Counts c env call w) (hpc : s.purgeIdle = .buckets call j)
    (hj : j + r = c.numHashes) :
    ∃ s' chains' call', ReflTransGen (Turns c env base) s s' ∧ Shows c s' chains' (Coverage.walk c env r w).hash ∧
      s'.purgeIdle = .settle call' call'.oldSize ∧ call'.numDetached = (Coverage.walk c env r w).numDetached := by
  induction r generalizing s chains call j w with
  | zero => exact stop_turns hs hcounts hpc fun hgo => absurd hgo.1 (by omega)
  | succ r ih =>
    have hturn : c.numHashes - (r + 1) = j := by omega
    rw [Coverage.walk, hturn]
    split
    · rename_i henough
      exact stop_turns hs hcounts hpc fun hgo => hgo.2 henough
    · rename_i hgo
      obtain ⟨s₁, chains₁, call₁, hturns, hs₁, hpc₁, hcounts₁⟩ :=
        bucket_turns base hs hcounts hpc (by omega) hgo
      obtain ⟨s', chains', call', hturns', hs', hpc', hdetached⟩ := ih hs₁ hcounts₁ hpc₁ (by omega)
      exact ⟨s', chains', call', hturns.trans hturns', hs', hpc', hdetached⟩

variable (base) in
/-- One detached entry is set idle; it is in no bucket. -/
theorem settle_turn {it : ℕ} (hs : Shows c s chains h) (hpc : s.purgeIdle = .settle call it)
    (hlt : it < s.shadowEntries.length) :
    ∃ s₁, Turns c env base s s₁ ∧ Shows c s₁ chains h ∧ s₁.purgeIdle = .settle call (it + 1) ∧
      s₁.shadowEntries = s.shadowEntries := by
  obtain ⟨s₁, hnext, hinv⟩ := Generic.settleNext_inv hs.inv hpc (answers c env base s)
  obtain ⟨v, -, -, hshadow⟩ :=
    hs.inv.vectors.shadow_some (Generic.shadow_ne_none hs.inv (by simp [Generic.GenericHash.inPurge, hpc]))
  have hwait : s.shadowEntries[it] ∈ s.waiting := by
    simp only [Generic.GenericHash.waiting, List.append_assoc, List.mem_append]
    exact .inl (List.getElem_mem hlt)
  obtain ⟨e, he⟩ := hs.inv.accounts.live _ hwait
  have hturn : Turns c env base s s₁ := by
    rw [Turns, ← hnext]
    simp only [Generic.fire, hpc]
  simp only [Generic.GenericHash.settleNext, hshadow, Option.bind_eq_bind, Option.bind_some,
    List.getElem?_eq_getElem hlt, he] at hnext
  obtain rfl := Option.some.inj hnext
  refine ⟨_, hturn, ⟨hinv, fun b hb => ?_, hs.currentSize, hs.lastPurgedHash, hs.created⟩, rfl, rfl⟩
  rw [hs.table b hb]
  refine List.map_congr_left fun x hx => ?_
  have hne : x ≠ s.shadowEntries[it] := by
    rintro rfl
    exact hs.inv.accounts.not_waiting (mem_flat.mpr ⟨b, hb, hx⟩) hwait
  exact ((seen_setEntry s _ _ x).trans (if_neg hne)).symm

/-- The call returns. -/
theorem settle_end {it : ℕ} (hs : Shows c s chains h) (hpc : s.purgeIdle = .settle call it)
    (hend : s.shadowEntries.length ≤ it) :
    ∃ s₁, Turns c env base s s₁ ∧ Shows c s₁ chains h ∧ s₁.purgeIdle = .returned call.numDetached := by
  obtain ⟨s₁, hnext, hinv⟩ := Generic.settleNext_inv hs.inv hpc (answers c env base s)
  obtain ⟨v, -, -, hshadow⟩ :=
    hs.inv.vectors.shadow_some (Generic.shadow_ne_none hs.inv (by simp [Generic.GenericHash.inPurge, hpc]))
  have hturn : Turns c env base s s₁ := by
    rw [Turns, ← hnext]
    simp only [Generic.fire, hpc]
  have hs₁ : { s with purgeIdle := .returned call.numDetached } = s₁ := by
    simpa [Generic.GenericHash.settleNext, hshadow, List.getElem?_eq_none hend] using hnext
  subst hs₁
  exact ⟨_, hturn, { hs with inv := hinv }, rfl⟩

variable (base) in
/-- The detached entries are set idle; the table stays as it is. -/
theorem settle_turns {it : ℕ} (hs : Shows c s chains h) (hpc : s.purgeIdle = .settle call it) :
    ∃ s', ReflTransGen (Turns c env base) s s' ∧ Shows c s' chains h ∧ s'.purgeIdle = .returned call.numDetached := by
  induction hk : s.shadowEntries.length - it generalizing s it with
  | zero =>
    obtain ⟨s₁, hturn, hs₁, hpc₁⟩ := settle_end hs hpc (by omega)
    exact ⟨s₁, .single hturn, hs₁, hpc₁⟩
  | succ k ih =>
    obtain ⟨s₁, hturn, hs₁, hpc₁, hshadow⟩ := settle_turn base hs hpc (by omega)
    obtain ⟨s', hturns, hs', hpc'⟩ := ih hs₁ hpc₁ (by rw [hshadow]; omega)
    exact ⟨s', .head hturn hturns, hs', hpc'⟩

end

/-! ## Calls -/

/-- The call of `purgeIdle`, up to the `for` loop. A vector is allocated if `idle_entries` is taken. -/
def called (env : Coverage.Env) : Generic.Ev := .purgeIdle env.forceIdle env.fullScan env.disablePurge (!env.vectorFails)

/-- `vectorFails` is about a vector that is needed, and there was none before to be moved. -/
def Fair (env : Coverage.Env) (s : Generic.GenericHash) : Prop :=
  env.vectorFails → env.disablePurge ∨ s.idleEntries = none ∧ s.idleEntriesShadow = none

theorem called_shows {n : ℕ} (hs : Shows c s chains h) (hpc : s.purgeIdle = .returned n) (hfair : Fair env s) :
    ∃ s₁, Generic.fire c s (called env) = some s₁ ∧ Shows c s₁ chains h ∧
      if env.disablePurge || env.vectorFails then s₁.purgeIdle = .returned 0
      else ∃ call, s₁.purgeIdle = .buckets call 0 ∧ Counts c env call ⟨h, 0, 0, []⟩ := by
  have hok : !env.vectorFails ∨ env.disablePurge ∨ s.idleEntries.isSome ∨ s.idleEntriesShadow = none := by
    cases hv : env.vectorFails with
    | false => exact .inl rfl
    | true => exact .inr ((hfair hv).imp_right fun h => .inr h.2)
  obtain ⟨s₁, hbegin, hinv⟩ :=
    Generic.purgeIdleBegin_inv hs.inv hpc env.forceIdle env.fullScan env.disablePurge (!env.vectorFails) hok
  refine ⟨s₁, ?_, ?_⟩
  · simp only [called, Generic.fire, hpc, hbegin]
  -- where the call stands, by what it finds
  cases hdisable : env.disablePurge with
  | true =>
    have hs₁ : { s with purgeIdle := .returned 0 } = s₁ := by
      simpa [Generic.GenericHash.purgeIdleBegin, hdisable] using hbegin
    subst hs₁
    exact ⟨{ hs with inv := hinv }, by simp⟩
  | false =>
    cases hv : env.vectorFails with
    | true =>
      rcases hfair hv with hd | ⟨hidle, hshadow⟩
      · rw [hdisable] at hd
        cases hd
      · have hs₁ : { s with idleEntries := s.idleEntriesShadow, purgeIdle := .returned 0 } = s₁ := by
          simpa [Generic.GenericHash.purgeIdleBegin, hdisable, hv, hidle] using hbegin
        subst hs₁
        exact ⟨{ hs with inv := hinv }, by simp⟩
    | false =>
      cases hidle : s.idleEntries with
      | some v =>
        have hsh : s.idleEntriesShadow ≠ none := fun hn => by simp [(hs.inv.vectors.shadowFirst hn).1] at hidle
        obtain ⟨v', -, -, hshadow⟩ := hs.inv.vectors.shadow_some hsh
        simp only [Generic.GenericHash.purgeIdleBegin, hdisable, hidle, hshadow, Bool.false_eq_true, if_false,
          Option.bind_eq_bind, Option.bind_some, Option.pure_def] at hbegin
        obtain rfl := Option.some.inj hbegin
        exact ⟨{ hs with inv := hinv }, _, rfl, rfl, rfl, rfl, rfl, rfl⟩
      | none =>
        simp only [Generic.GenericHash.purgeIdleBegin, hdisable, hidle, hv, Generic.GenericHash.shadow,
          Function.update_self, Bool.not_false, if_true, Bool.false_eq_true, if_false, Option.bind_eq_bind,
          Option.bind_some, Option.pure_def] at hbegin
        obtain rfl := Option.some.inj hbegin
        exact ⟨{ hs with inv := hinv }, _, rfl, rfl, rfl, rfl, rfl, rfl⟩

variable (base) in
/-- From its call to its return, `purgeIdle` does to the table what the call does to the lists. -/
theorem purgeIdle_refines {n : ℕ} (hs : Shows c s chains h) (hpc : s.purgeIdle = .returned n) (hfair : Fair env s) :
    ∃ s₁ s' chains', Generic.fire c s (called env) = some s₁ ∧ ReflTransGen (Turns c env base) s₁ s' ∧
      s'.purgeIdle = .returned (Coverage.purgeIdle c env h).numDetached ∧
      Shows c s' chains' (Coverage.purgeIdle c env h).hash := by
  obtain ⟨s₁, hfire, hs₁, hpc₁⟩ := called_shows hs hpc hfair
  rw [Coverage.purgeIdle]
  split at hpc₁
  · rename_i hskip
    rw [if_pos hskip]
    exact ⟨s₁, s₁, chains, hfire, .refl, hpc₁, hs₁⟩
  · rename_i hgo
    rw [if_neg hgo]
    obtain ⟨call, hpc₁, hcounts⟩ := hpc₁
    obtain ⟨s₂, chains₂, call₂, hturns, hs₂, hpc₂, hdetached⟩ :=
      walk_turns base hs₁ hcounts hpc₁ (Nat.zero_add _)
    obtain ⟨s', hturns', hs', hpc'⟩ := settle_turns base hs₂ hpc₂
    exact ⟨s₁, s', chains₂, hfire, hturns.trans hturns', hdetached ▸ hpc', hs'⟩

/-! ## Between calls -/

/-- An entry that is accepted. -/
theorem add_shows {n key : ℕ} {state : HashEntryState} (hs : Shows c s chains h) (hpc : s.purgeIdle = .returned n)
    (hroom : s.hasEmptyRoom c = true) :
    Shows c (s.add c key state) (Function.update chains (c.bucket key) (s.created :: chains (c.bucket key)))
      (Coverage.add c h key state) := by
  have hfree : s.locked (c.bucket key) = false := by simp [Generic.GenericHash.locked, hpc]
  have hinv := Generic.add_accepted hs.inv key state hfree hroom
  have hadd : s.add c key state = { s with
      created := s.created + 1
      entries := Function.update s.entries s.created
        (some ⟨key, s.table (c.bucket key), state, 0, c.hashMask ||| s.lastEntryId, false⟩)
      table := Function.update s.table (c.bucket key) (some s.created)
      currentSize := s.currentSize + 1
      lastEntryId := if s.lastEntryId + 1 = 0x00FFFFFF then 0 else s.lastEntryId + 1
      accepted := s.created :: s.accepted } := by
    simp only [Generic.GenericHash.add, hroom, if_true]
  rw [hadd] at hinv ⊢
  refine ⟨hinv, fun b hb => ?_, congrArg (· + 1) hs.currentSize, hs.lastPurgedHash, congrArg (· + 1) hs.created⟩
  generalize hs' : ({ s with created := _, entries := _, table := _, currentSize := _, lastEntryId := _, accepted := _ } :
    Generic.GenericHash) = s'
  have hself : s'.entries s.created =
      some ⟨key, s.table (c.bucket key), state, 0, c.hashMask ||| s.lastEntryId, false⟩ := by
    rw [← hs']
    exact Function.update_self ..
  have hnew : seen s' s.created = ⟨s.created, state⟩ := seen_some hself
  have hold : (chains b).map (seen s') = (chains b).map (seen s) := by
    refine List.map_congr_left fun x hx => seen_congr ?_
    have hlt := hs.inv.accounts.lt_created (.inl (mem_flat.mpr ⟨b, hb, hx⟩))
    rw [← hs']
    simp only [Function.update_of_ne (Nat.ne_of_lt hlt)]
  rw [Coverage.add_table]
  by_cases hbucket : b = c.bucket key
  · rw [if_pos hbucket, ← hbucket, Function.update_self, List.map_cons, hnew, hold, hs.table b hb, hs.created]
  · rw [if_neg hbucket, Function.update_of_ne hbucket, hold, hs.table b hb]

/-- Steps of the other thread and of the holders. -/
def Offline : Generic.Ev → Prop
  | .incUses _ | .decUses _ | .purgeQueuedIdleEntries | .purgeQueuedStep => True
  | _ => False

/-- They leave the table alone, and the entries that do not wait. -/
structure Aside (s s' : Generic.GenericHash) : Prop where
  purgeIdle : s'.purgeIdle = s.purgeIdle
  currentSize : s'.currentSize = s.currentSize
  lastPurgedHash : s'.lastPurgedHash = s.lastPurgedHash
  created : s'.created = s.created
  seen : ∀ id ∉ s.waiting, seen s' id = seen s id

theorem Aside.shows (h' : Aside s s') (hs : Shows c s chains h) (hinv : Inv c s' chains) : Shows c s' chains h := by
  refine ⟨hinv, fun b hb => ?_, h'.currentSize ▸ hs.currentSize, h'.lastPurgedHash ▸ hs.lastPurgedHash,
    h'.created ▸ hs.created⟩
  rw [hs.table b hb]
  refine List.map_congr_left fun x hx => (h'.seen x ?_).symm
  exact hs.inv.accounts.not_waiting (mem_flat.mpr ⟨b, hb, hx⟩)

theorem addUses_aside (s : Generic.GenericHash) (id : ℕ) (n : ℤ) : Aside s (s.addUses id n) := by
  rw [Generic.GenericHash.addUses]
  cases he : s.entries id with
  | none => exact ⟨rfl, rfl, rfl, rfl, fun _ _ => rfl⟩
  | some e =>
    refine ⟨rfl, rfl, rfl, rfl, fun x _ => (seen_setEntry s id _ x).trans ?_⟩
    split
    · rename_i hx
      rw [hx, seen_some he]
    · rfl

theorem delete_aside {id : ℕ} (hwait : id ∈ s.waiting) (e : GenericHashEntry) {s₁ : Generic.GenericHash}
    (h₁ : Aside s s₁) (hentries : s₁.entries = s.entries) : Aside s (s₁.delete id e) := by
  refine { h₁ with seen := fun x hx => seen_congr ?_ }
  have hne : x ≠ id := fun heq => hx (heq ▸ hwait)
  simp only [Generic.GenericHash.delete, Function.update_of_ne hne, hentries]

theorem purgeQueuedBegin_aside (s : Generic.GenericHash) : Aside s s.purgeQueuedBegin := by
  rw [Generic.GenericHash.purgeQueuedBegin]
  split <;> exact ⟨rfl, rfl, rfl, rfl, fun _ _ => rfl⟩

theorem drainNext_aside {before v it : ℕ} (hpc : s.purgeQueued = .drain before v it)
    (hnext : s.drainNext before v it = some s') : Aside s s' := by
  rw [Generic.GenericHash.drainNext] at hnext
  obtain ⟨l, hl, hnext⟩ := Option.bind_eq_some_iff.mp hnext
  cases hit : l[it]? with
  | none =>
    simp only [hit] at hnext
    rw [← Option.some.inj hnext]
    exact ⟨rfl, rfl, rfl, rfl, fun _ _ => rfl⟩
  | some id =>
    simp only [hit] at hnext
    obtain ⟨e, he, hnext⟩ := Option.bind_eq_some_iff.mp hnext
    have hwait : id ∈ s.waiting := by
      have hmem : id ∈ s.curIdleEntries := by
        simp only [Generic.GenericHash.curIdleEntries, hpc, hl, Option.getD_some]
        exact List.mem_of_getElem? (i := 0) (List.getElem?_drop.trans hit)
      simp only [Generic.GenericHash.waiting, List.mem_append, hmem, true_or, or_true]
    split at hnext
    · rw [← Option.some.inj hnext]
      exact delete_aside hwait e ⟨rfl, rfl, rfl, rfl, fun _ _ => rfl⟩ rfl
    · rw [← Option.some.inj hnext]
      exact ⟨rfl, rfl, rfl, rfl, fun _ _ => rfl⟩

theorem recheckNext_aside {before it : ℕ} (hnext : s.recheckNext before it = some s') : Aside s s' := by
  rw [Generic.GenericHash.recheckNext] at hnext
  cases hit : s.idleEntriesInUse[it]? with
  | none =>
    simp only [hit] at hnext
    rw [← Option.some.inj hnext]
    exact ⟨rfl, rfl, rfl, rfl, fun _ _ => rfl⟩
  | some id =>
    simp only [hit] at hnext
    obtain ⟨e, he, hnext⟩ := Option.bind_eq_some_iff.mp hnext
    have hwait : id ∈ s.waiting := by
      simp only [Generic.GenericHash.waiting, List.mem_append, List.mem_of_getElem? hit, or_true]
    split at hnext
    · rw [← Option.some.inj hnext]
      exact delete_aside hwait e ⟨rfl, rfl, rfl, rfl, fun _ _ => rfl⟩ rfl
    · rw [← Option.some.inj hnext]
      exact ⟨rfl, rfl, rfl, rfl, fun _ _ => rfl⟩

theorem offline_shows {e : Generic.Ev} (hs : Shows c s chains h) (he : Offline e) (hfire : Generic.fire c s e = some s') :
    Shows c s' chains h ∧ s'.purgeIdle = s.purgeIdle := by
  have haside : Aside s s' → Inv c s' chains → Shows c s' chains h ∧ s'.purgeIdle = s.purgeIdle :=
    fun haside hinv => ⟨haside.shows hs hinv, haside.purgeIdle⟩
  cases e with
  | add | purgeIdle | purgeIdleStep => exact he.elim
  | incUses id =>
    rw [← Option.some.inj hfire] at haside ⊢
    exact haside (addUses_aside s id 1) (hs.inv.addUses id 1)
  | decUses id =>
    rw [← Option.some.inj hfire] at haside ⊢
    exact haside (addUses_aside s id (-1)) (hs.inv.addUses id (-1))
  | purgeQueuedIdleEntries =>
    cases hpc : s.purgeQueued with
    | returned n =>
      simp only [Generic.fire, hpc] at hfire
      rw [← Option.some.inj hfire] at haside ⊢
      exact haside (purgeQueuedBegin_aside s) (Generic.purgeQueuedBegin_inv hs.inv hpc)
    | drain | recheck =>
      simp only [Generic.fire, hpc] at hfire
      rw [← Option.some.inj hfire]
      exact ⟨hs, rfl⟩
  | purgeQueuedStep =>
    cases hpc : s.purgeQueued with
    | returned n =>
      simp only [Generic.fire, hpc] at hfire
      rw [← Option.some.inj hfire]
      exact ⟨hs, rfl⟩
    | drain before v it =>
      simp only [Generic.fire, hpc] at hfire
      obtain ⟨s₁, heq, hinv⟩ := Generic.drainNext_inv hs.inv hpc
      rw [hfire, Option.some.injEq] at heq
      exact haside (drainNext_aside hpc hfire) (heq ▸ hinv)
    | recheck before it =>
      simp only [Generic.fire, hpc] at hfire
      obtain ⟨s₁, heq, hinv⟩ := Generic.recheckNext_inv hs.inv hpc
      rw [hfire, Option.some.injEq] at heq
      exact haside (recheckNext_aside hfire) (heq ▸ hinv)

/-! ## Runs of whole calls -/

variable (c base) in
/-- A run in which calls are not interrupted, and what is called in it. -/
inductive Calls : Generic.GenericHash → List Coverage.Ev → Generic.GenericHash → Prop where
  | nil (s : Generic.GenericHash) : Calls s [] s
  | add {s s' : Generic.GenericHash} {es : List Coverage.Ev} {key : ℕ} {state : HashEntryState} {hstate : state ≠ .idle}
      (hroom : s.hasEmptyRoom c = true) (rest : Calls (s.add c key state) es s') : Calls s (.add key state hstate :: es) s'
  | purgeIdle {s s₁ s₂ s' : Generic.GenericHash} {es : List Coverage.Ev} {env : Coverage.Env} {n : ℕ} (hfair : Fair env s)
      (hfire : Generic.fire c s (called env) = some s₁) (hturns : ReflTransGen (Turns c env base) s₁ s₂)
      (hpc : s₂.purgeIdle = .returned n) (rest : Calls s₂ es s') : Calls s (.purgeIdle env :: es) s'
  | other {s s₁ s' : Generic.GenericHash} {es : List Coverage.Ev} (e : Generic.Ev) (he : Offline e)
      (hfire : Generic.fire c s e = some s₁) (rest : Calls s₁ es s') : Calls s es s'

theorem turns_unique : Relator.RightUnique (Turns c env base) := by
  intro s s₁ s₂ h₁ h₂
  exact Option.some.inj (h₁.symm.trans h₂)

/-- A call that has returned goes nowhere. -/
theorem turns_returned {n : ℕ} (hpc : s.purgeIdle = .returned n) (hturns : ReflTransGen (Turns c env base) s s') : s' = s := by
  induction hturns with
  | refl => rfl
  | tail _ hturn ih =>
    rw [ih, Turns] at hturn
    simp only [Generic.fire, hpc] at hturn
    exact (Option.some.inj hturn).symm

/-- Where a call returns, the table is as after the call on the lists. -/
theorem returned_shows {s₁ s₂ : Generic.GenericHash} {n m : ℕ} (hs : Shows c s chains h) (hpc : s.purgeIdle = .returned n)
    (hfair : Fair env s) (hfire : Generic.fire c s (called env) = some s₁)
    (hturns : ReflTransGen (Turns c env base) s₁ s₂) (hpc₂ : s₂.purgeIdle = .returned m) :
    m = (Coverage.purgeIdle c env h).numDetached ∧ ∃ chains', Shows c s₂ chains' (Coverage.purgeIdle c env h).hash := by
  obtain ⟨s₁', s', chains', hfire', hturns', hpc', hs'⟩ := purgeIdle_refines base hs hpc hfair
  rw [hfire, Option.some.injEq] at hfire'
  subst hfire'
  have hsame : s' = s₂ := by
    rcases ReflTransGen.total_of_right_unique turns_unique hturns hturns' with hgo | hgo
    · exact turns_returned hpc₂ hgo
    · exact (turns_returned hpc' hgo).symm
  subst hsame
  rw [hpc₂, Generic.PurgeIdle.returned.injEq] at hpc'
  exact ⟨hpc', chains', hs'⟩

/-- A run of whole calls does to the table what the calls do to the lists. -/
theorem calls_refine {es : List Coverage.Ev} {n : ℕ} (hcalls : Calls c base s es s') (hs : Shows c s chains h)
    (hpc : s.purgeIdle = .returned n) :
    ∃ chains' m, Shows c s' chains' (run (Coverage.step c) h es) ∧ s'.purgeIdle = .returned m := by
  induction hcalls generalizing chains h n with
  | nil s => exact ⟨chains, n, hs, hpc⟩
  | @add s s' es key state hstate hroom _ ih =>
    have hpc' : (s.add c key state).purgeIdle = s.purgeIdle := by
      rw [Generic.GenericHash.add]
      split <;> rfl
    exact ih (add_shows hs hpc hroom) (hpc'.trans hpc)
  | purgeIdle hfair hfire hturns hpc₂ _ ih =>
    obtain ⟨-, chains₂, hs₂⟩ := returned_shows hs hpc hfair hfire hturns hpc₂
    exact ih hs₂ hpc₂
  | other e he hfire _ ih =>
    obtain ⟨hs₁, hpc₁⟩ := offline_shows hs he hfire
    exact ih hs₁ (hpc₁.trans hpc)

theorem new_shows (c : Config) : Shows c (Generic.new c) (fun _ => []) (Coverage.new c) :=
  ⟨Generic.new_inv, fun _ _ => rfl, rfl, rfl, rfl⟩

/-- What is covered by the calls is covered by the steps: a table that is reached by whole calls shows lists of which
    all that holds. -/
theorem calls_covered {es : List Coverage.Ev} (hcalls : Calls c base (Generic.new c) es s) :
    ∃ chains h m, Shows c s chains h ∧ s.purgeIdle = .returned m ∧ Coverage.Covered c h := by
  obtain ⟨chains, m, hs, hpc⟩ := calls_refine hcalls (new_shows c) rfl
  exact ⟨chains, _, m, hs, hpc, Coverage.coverage_law c es⟩

/-- A forced call of the whole table leaves it empty, if all locks are free. -/
theorem forced_call_empties {es : List Coverage.Ev} {s₁ : Generic.GenericHash} {n : ℕ}
    (hcalls : Calls c base (Generic.new c) es s) (hforce : env.forceIdle) (hfull : env.fullScan)
    (hdisable : env.disablePurge = false) (hfails : env.vectorFails = false) (hfree : ∀ b < c.numHashes, env.lockFree b)
    (hfire : Generic.fire c s (called env) = some s₁) (hturns : ReflTransGen (Turns c env base) s₁ s')
    (hpc' : s'.purgeIdle = .returned n) : s'.currentSize = 0 := by
  obtain ⟨chains, h, m, hs, hpc, hcovered⟩ := calls_covered hcalls
  have hfair : Fair env s := by
    intro hv
    rw [hfails] at hv
    cases hv
  obtain ⟨-, chains', hs'⟩ := returned_shows hs hpc hfair hfire hturns hpc'
  rw [← hs'.currentSize]
  exact (hcovered.forced env hforce hfull hdisable hfails).2.2 hfree

end Ntopng.Hash.Refines
