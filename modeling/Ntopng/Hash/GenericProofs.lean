/-
  Ntopng.Hash.GenericProofs — every accepted entry of a `GenericHash` is in one place.

  The invariant has three parts: the table (chains, buckets and the cursor of a walk), the
  vectors (which pointers are live, and that no two name one vector) and the accounts (the
  places add up to what was accepted, and the counters to the places). Each function keeps
  it; only a `purgeIdle` that moves the shadow vector and cannot allocate a new one
  breaks it.
-/

import Ntopng.Hash.Generic

namespace Ntopng.Hash.Generic

open Ntopng.Lib.Run Ntopng.Lib.Chain

namespace GenericHash

variable (s : GenericHash)

/-- The vector that `purgeQueuedIdleEntries` is working on. -/
def curIdle : Option Nat :=
  match s.purgeQueued with
  | .drain _ v _ => some v
  | _ => none

/-- How many entries of the shadow vector were set idle. -/
def settled : Nat :=
  match s.purgeIdle with
  | .returned _ => s.shadowEntries.length
  | .buckets call _ => call.oldSize
  | .chain call _ _ _ _ => call.oldSize
  | .settle _ it => it

def inPurge : Bool :=
  match s.purgeIdle with
  | .returned _ => false
  | _ => true

end GenericHash

variable (c : Config)

structure TableOk (s : GenericHash) (chains : Nat → List Nat) : Prop where
  linked : ∀ b, b < c.numHashes → Linked s.next (s.table b) (chains b)
  ownBucket : ∀ b, b < c.numHashes → ∀ id ∈ chains b, ∃ e, s.entries id = some e ∧ c.bucket e.key = b
  lastPurged : s.lastPurgedHash < c.numHashes
  /-- The walk of a bucket stands between two parts of its chain. -/
  cursor : ∀ call j i prev head, s.purgeIdle = .chain call j i prev head →
    i < c.numHashes ∧ ∃ pre suf, chains i = pre ++ suf ∧ prev = pre.getLast? ∧ head = suf.head?

structure VectorsOk (s : GenericHash) : Prop where
  shadowLive : ∀ v, s.idleEntriesShadow = some v → ∃ l, s.vectors v = some l
  idleLive : ∀ v, s.idleEntries = some v → ∃ l, s.vectors v = some l
  curLive : ∀ v, s.curIdle = some v → ∃ l, s.vectors v = some l
  fresh : ∀ v l, s.vectors v = some l → v < s.vectorsCreated
  shadow_ne_idle : ∀ v, s.idleEntriesShadow = some v → s.idleEntries ≠ some v
  shadow_ne_cur : ∀ v, s.idleEntriesShadow = some v → s.curIdle ≠ some v
  idle_ne_cur : ∀ v, s.idleEntries = some v → s.curIdle ≠ some v
  shadowFirst : s.idleEntriesShadow = none → s.idleEntries = none ∧ s.inPurge = false

structure AccountsOk (s : GenericHash) (chains : Nat → List Nat) : Prop where
  nodup : s.accepted.Nodup
  onePlace : (flat c.numHashes chains ++ s.waiting ++ s.deleted.map (·.1)).Perm s.accepted
  fresh : ∀ id ∈ s.accepted, id < s.created
  live : ∀ id ∈ s.waiting, ∃ e, s.entries id = some e
  currentSize : s.currentSize = (flat c.numHashes chains).length
  settled_le : s.settled ≤ s.shadowEntries.length
  transitions : s.numIdleTransitions =
    s.numPurged + (s.settled + s.queuedEntries.length + s.curIdleEntries.length + s.idleEntriesInUse.length)
  chainedUnset : ∀ id ∈ flat c.numHashes chains, s.isSetIdle id = false
  shadowUnset : ∀ id ∈ s.shadowEntries.drop s.settled, s.isSetIdle id = false
  shadowSet : ∀ id ∈ s.shadowEntries.take s.settled, s.isSetIdle id = true
  restSet : ∀ id ∈ s.queuedEntries ++ s.curIdleEntries ++ s.idleEntriesInUse, s.isSetIdle id = true
  unused : ∀ d ∈ s.deleted, d.2 = 0

structure Inv (s : GenericHash) (chains : Nat → List Nat) : Prop where
  table : TableOk c s chains
  vectors : VectorsOk s
  accounts : AccountsOk c s chains

variable {c} {s : GenericHash} {chains : Nat → List Nat}

/-! ## The invariant gives the property -/

theorem filter_set_length (h : AccountsOk c s chains) :
    (s.waiting.filter s.isSetIdle).length =
      s.settled + s.queuedEntries.length + s.curIdleEntries.length + s.idleEntriesInUse.length := by
  have hs : s.shadowEntries.filter s.isSetIdle = s.shadowEntries.take s.settled := by
    conv_lhs => rw [← List.take_append_drop s.settled s.shadowEntries]
    rw [List.filter_append, List.filter_eq_self.mpr h.shadowSet,
      List.filter_eq_nil_iff.mpr (by simpa using h.shadowUnset), List.append_nil]
  have hr := List.filter_eq_self.mpr h.restSet
  simp only [GenericHash.waiting, List.append_assoc, List.filter_append, List.length_append] at hr ⊢
  have hl := congrArg List.length hr
  simp only [List.length_append] at hl
  rw [hs, List.length_take, Nat.min_eq_left h.settled_le]
  omega

theorem conserved (h : Inv c s chains) : Conserved c s chains where
  linked := h.table.linked
  ownBucket := h.table.ownBucket
  nodup := h.accounts.nodup
  onePlace := h.accounts.onePlace
  currentSize := h.accounts.currentSize
  idleEntries := by rw [filter_set_length h.accounts]; exact h.accounts.transitions
  unused := h.accounts.unused

theorem new_inv : Inv c (new c) (fun _ => []) where
  table :=
    { linked := fun _ _ => rfl
      ownBucket := by simp
      lastPurged := by
        have := c.numHashes_pos
        simp only [new]; omega
      cursor := by simp [new] }
  vectors := by constructor <;> simp [new, GenericHash.curIdle, GenericHash.inPurge]
  accounts := by
    constructor <;>
      simp [new, GenericHash.waiting, GenericHash.shadowEntries, GenericHash.queuedEntries,
        GenericHash.curIdleEntries, GenericHash.settled]

/-! ## What the accounts say about one entry -/

theorem AccountsOk.places_nodup (h : AccountsOk c s chains) :
    (flat c.numHashes chains ++ s.waiting ++ s.deleted.map (·.1)).Nodup :=
  h.onePlace.nodup_iff.mpr h.nodup

theorem AccountsOk.lt_created (h : AccountsOk c s chains) {id : Nat}
    (hid : id ∈ flat c.numHashes chains ∨ id ∈ s.waiting) : id < s.created := by
  refine h.fresh id (h.onePlace.mem_iff.mp ?_)
  rcases hid with hid | hid <;> simp only [List.mem_append, hid, true_or, or_true]

theorem AccountsOk.not_waiting (h : AccountsOk c s chains) {id : Nat} (hid : id ∈ flat c.numHashes chains) :
    id ∉ s.waiting := by
  have hn := (List.nodup_append.mp h.places_nodup).1
  exact fun hw => (List.nodup_append.mp hn).2.2 id hid id hw rfl

theorem AccountsOk.chain_nodup (h : AccountsOk c s chains) {i : Nat} (hi : i < c.numHashes) : (chains i).Nodup := by
  have hn := (List.nodup_append.mp (List.nodup_append.mp h.places_nodup).1).1
  exact (List.nodup_flatMap.mp hn).1 i (List.mem_range.mpr hi)

/-! ## Frames -/

theorem AccountsOk.reentry (h : AccountsOk c s chains) {en : Nat → Option GenericHashEntry}
    (hlive : ∀ id ∈ s.waiting, ∃ e, en id = some e)
    (hset : ∀ id, id ∈ flat c.numHashes chains ∨ id ∈ s.waiting →
      ({ s with entries := en } : GenericHash).isSetIdle id = s.isSetIdle id) :
    AccountsOk c { s with entries := en } chains := by
  have hwait : ∀ id, id ∈ s.shadowEntries ∨ id ∈ s.queuedEntries ++ s.curIdleEntries ++ s.idleEntriesInUse →
      id ∈ s.waiting := by
    intro id hid
    simp only [GenericHash.waiting, List.append_assoc, List.mem_append] at hid ⊢
    exact hid
  refine { h with live := hlive, chainedUnset := ?_, shadowUnset := ?_, shadowSet := ?_, restSet := ?_ }
  · intro id hid
    rw [hset id (.inl hid)]
    exact h.chainedUnset id hid
  · intro id hid
    rw [hset id (.inr (hwait id (.inl (List.mem_of_mem_drop hid))))]
    exact h.shadowUnset id hid
  · intro id hid
    rw [hset id (.inr (hwait id (.inl (List.mem_of_mem_take hid))))]
    exact h.shadowSet id hid
  · intro id hid
    rw [hset id (.inr (hwait id (.inr hid)))]
    exact h.restSet id hid

theorem AccountsOk.setEntry (h : AccountsOk c s chains) {id : Nat} {e e' : GenericHashEntry}
    (he : s.entries id = some e) (hset : e'.setIdle = e.setIdle) : AccountsOk c (s.setEntry id e') chains := by
  refine h.reentry ?_ ?_
  · intro id' hid
    by_cases hne : id' = id
    · exact ⟨e', by rw [hne, Function.update_self]⟩
    · rw [Function.update_of_ne hne]
      exact h.live id' hid
  · intro id' _
    by_cases hne : id' = id
    · simp only [GenericHash.isSetIdle, hne, Function.update_self, he, Option.any_some, hset]
    · simp only [GenericHash.isSetIdle, Function.update_of_ne hne]

/-- Only the links, keys and idle marks of entries that are in the table or wait count. -/
theorem Inv.reentry (h : Inv c s chains) {en : Nat → Option GenericHashEntry}
    (hen : ∀ id, id ∈ flat c.numHashes chains ∨ id ∈ s.waiting → ∀ e, s.entries id = some e →
      ∃ e', en id = some e' ∧ e'.key = e.key ∧ e'.hashNext = e.hashNext ∧ e'.setIdle = e.setIdle) :
    Inv c { s with entries := en } chains := by
  have hchain : ∀ b, b < c.numHashes → ∀ id ∈ chains b, id ∈ flat c.numHashes chains :=
    fun b hb id hid => mem_flat.mpr ⟨b, hb, hid⟩
  refine ⟨⟨?_, ?_, h.table.lastPurged, h.table.cursor⟩, { h.vectors with }, h.accounts.reentry ?_ ?_⟩
  · intro b hb
    refine (h.table.linked b hb).congr fun id hid => ?_
    obtain ⟨e, he, -⟩ := h.table.ownBucket b hb id hid
    obtain ⟨e', he', -, hnext, -⟩ := hen id (.inl (hchain b hb id hid)) e he
    simp only [GenericHash.next, he, he', Option.bind_some, hnext]
  · intro b hb id hid
    obtain ⟨e, he, hkey⟩ := h.table.ownBucket b hb id hid
    obtain ⟨e', he', hk, -, -⟩ := hen id (.inl (hchain b hb id hid)) e he
    exact ⟨e', he', by rw [hk]; exact hkey⟩
  · intro id hid
    obtain ⟨e, he⟩ := h.accounts.live id hid
    obtain ⟨e', he', -⟩ := hen id (.inr hid) e he
    exact ⟨e', he'⟩
  · intro id hid
    have hlive : ∃ e, s.entries id = some e := by
      rcases hid with hid | hid
      · obtain ⟨b, hb, hmem⟩ := mem_flat.mp hid
        obtain ⟨e, he, -⟩ := h.table.ownBucket b hb id hmem
        exact ⟨e, he⟩
      · exact h.accounts.live id hid
    obtain ⟨e, he⟩ := hlive
    obtain ⟨e', he', -, -, hs⟩ := hen id hid e he
    simp only [GenericHash.isSetIdle, he, he', Option.any_some, hs]

theorem Inv.setEntry (h : Inv c s chains) {id : Nat} {e e' : GenericHashEntry} (he : s.entries id = some e)
    (hkey : e'.key = e.key) (hnext : e'.hashNext = e.hashNext) (hset : e'.setIdle = e.setIdle) :
    Inv c (s.setEntry id e') chains := by
  refine h.reentry fun id' _ e₀ he₀ => ?_
  by_cases hid : id' = id
  · subst hid
    cases he.symm.trans he₀
    exact ⟨e', Function.update_self .., hkey, hnext, hset⟩
  · exact ⟨e₀, by rw [Function.update_of_ne hid]; exact he₀, rfl, rfl, rfl⟩

/-- An object outside the table and the vectors may change or go. -/
theorem Inv.outside (h : Inv c s chains) {id : Nat} (hc : id ∉ flat c.numHashes chains) (hw : id ∉ s.waiting)
    (o : Option GenericHashEntry) : Inv c { s with entries := Function.update s.entries id o } chains := by
  refine h.reentry fun id' hid e he => ⟨e, ?_, rfl, rfl, rfl⟩
  have hne : id' ≠ id := by
    rintro rfl
    rcases hid with hid | hid
    · exact hc hid
    · exact hw hid
  rw [Function.update_of_ne hne]; exact he

theorem Inv.addUses (h : Inv c s chains) (id : Nat) (n : Int) : Inv c (s.addUses id n) chains := by
  cases he : s.entries id with
  | none => simpa only [GenericHash.addUses, he] using h
  | some e =>
    simp only [GenericHash.addUses, he]
    exact h.setEntry he rfl rfl rfl

/-- The inline thread may move on as long as it counts the same entries as set idle. -/
theorem Inv.setPurgeIdle (h : Inv c s chains) {pc : PurgeIdle}
    (hcur : ∀ call j i prev head, pc = .chain call j i prev head →
      i < c.numHashes ∧ ∃ pre suf, chains i = pre ++ suf ∧ prev = pre.getLast? ∧ head = suf.head?)
    (hset : ({ s with purgeIdle := pc } : GenericHash).settled = s.settled)
    (hbusy : s.idleEntriesShadow = none → ({ s with purgeIdle := pc } : GenericHash).inPurge = false) :
    Inv c { s with purgeIdle := pc } chains := by
  refine ⟨{ h.table with cursor := hcur },
    { h.vectors with shadowFirst := fun hs => ⟨(h.vectors.shadowFirst hs).1, hbusy hs⟩ }, ?_⟩
  refine { h.accounts with settled_le := ?_, transitions := ?_, shadowUnset := ?_, shadowSet := ?_ }
  · rw [hset]; exact h.accounts.settled_le
  · rw [hset]; exact h.accounts.transitions
  · rw [hset]; exact h.accounts.shadowUnset
  · rw [hset]; exact h.accounts.shadowSet

/-! ## add -/

theorem add_accepted (h : Inv c s chains) (key : Nat) (state : HashEntryState)
    (hlock : s.locked (c.bucket key) = false) (hroom : s.hasEmptyRoom c = true) :
    Inv c (s.add c key state)
      (Function.update chains (c.bucket key) (s.created :: chains (c.bucket key))) := by
  have hb : c.bucket key < c.numHashes := Nat.mod_lt _ c.numHashes_pos
  have hc : s.created ∉ flat c.numHashes chains := fun hm => absurd (h.accounts.lt_created (.inl hm)) (by omega)
  have hw : s.created ∉ s.waiting := fun hm => absurd (h.accounts.lt_created (.inr hm)) (by omega)
  simp only [GenericHash.add, hroom, if_true]
  generalize he : GenericHashEntry.mk key (s.table (c.bucket key)) state 0 (c.hashMask ||| s.lastEntryId) false = e
  have h1 := h.outside hc hw (some e)
  generalize hhash : c.bucket key = hash at *
  have hp := flat_push_perm chains (a := s.created) hb
  refine ⟨⟨?_, ?_, h.table.lastPurged, ?_⟩, { h.vectors with }, ?_⟩
  · intro b hbn
    by_cases hbe : b = hash
    · subst hbe
      simp only [Function.update_self]
      refine Linked.push (h1.table.linked b hbn) ?_ fun _ _ => rfl
      simp only [GenericHash.next, Function.update_self, Option.bind_some, ← he]
    · simp only [Function.update_of_ne hbe]
      exact h1.table.linked b hbn
  · intro b hbn id hid
    by_cases hbe : b = hash
    · subst hbe
      rw [Function.update_self] at hid
      rcases List.mem_cons.mp hid with rfl | hid
      · exact ⟨e, Function.update_self .., by rw [← he]; exact hhash⟩
      · exact h1.table.ownBucket b hbn id hid
    · rw [Function.update_of_ne hbe] at hid
      exact h1.table.ownBucket b hbn id hid
  · intro call j i prev head hpc
    obtain ⟨hi, pre, suf, hcat, hprev, hhead⟩ := h.table.cursor call j i prev head hpc
    have hne : i ≠ hash := by
      rintro rfl
      have hpc' : s.purgeIdle = .chain call j i prev head := hpc
      simp [GenericHash.locked, hpc'] at hlock
    exact ⟨hi, pre, suf, by rw [Function.update_of_ne hne]; exact hcat, hprev, hhead⟩
  · refine { h1.accounts with
      nodup := ?_, onePlace := ?_, fresh := ?_, currentSize := ?_, chainedUnset := ?_ }
    · exact List.nodup_cons.mpr ⟨fun hm => absurd (h.accounts.fresh _ hm) (by omega), h.accounts.nodup⟩
    · exact ((hp.append_right _).append_right _).trans (h.accounts.onePlace.cons _)
    · intro id hid
      rcases List.mem_cons.mp hid with rfl | hid
      · exact Nat.lt_succ_self _
      · exact Nat.lt_succ_of_lt (h.accounts.fresh id hid)
    · rw [hp.length_eq, List.length_cons]
      exact congrArg (· + 1) h.accounts.currentSize
    · intro id hid
      rcases List.mem_cons.mp (hp.mem_iff.mp hid) with rfl | hid
      · simp [GenericHash.isSetIdle, ← he]
      · exact h1.accounts.chainedUnset id hid

theorem add_inv (h : Inv c s chains) (key : Nat) (state : HashEntryState)
    (hlock : s.locked (c.bucket key) = false) : ∃ chains', Inv c (s.add c key state) chains' := by
  by_cases hroom : s.hasEmptyRoom c = true
  · exact ⟨_, add_accepted h key state hlock hroom⟩
  · have hc : s.created ∉ flat c.numHashes chains := fun hm => absurd (h.accounts.lt_created (.inl hm)) (by omega)
    have hw : s.created ∉ s.waiting := fun hm => absurd (h.accounts.lt_created (.inr hm)) (by omega)
    refine ⟨chains, ?_⟩
    simp only [GenericHash.add, hroom]
    generalize GenericHashEntry.mk key none state 0 0 false = e
    have h1 := h.outside hc hw (some e)
    exact ⟨{ h1.table with }, { h1.vectors with },
      { h1.accounts with fresh := fun id hid => Nat.lt_succ_of_lt (h.accounts.fresh id hid) }⟩

/-! ## purgeIdle: the call -/

theorem shadow_eq {v : Nat} {l : List Nat} (hs : s.idleEntriesShadow = some v) (hl : s.vectors v = some l) :
    s.shadow = some (v, l) := by
  simp [GenericHash.shadow, hs, hl]

theorem VectorsOk.shadow_some (h : VectorsOk s) (hs : s.idleEntriesShadow ≠ none) :
    ∃ v, s.idleEntriesShadow = some v ∧ s.vectors v = some s.shadowEntries ∧ s.shadow = some (v, s.shadowEntries) := by
  obtain ⟨v, hv⟩ := Option.ne_none_iff_exists'.mp hs
  obtain ⟨l, hl⟩ := h.shadowLive v hv
  have he : s.shadowEntries = l := by simp [GenericHash.shadowEntries, hv, hl]
  exact ⟨v, hv, by rw [he]; exact hl, by rw [he]; exact shadow_eq hv hl⟩

/-- The shadow vector becomes `idle_entries` and an empty one takes its place. -/
theorem swap_inv (h : Inv c s chains) {n : Nat} (hpc : s.purgeIdle = .returned n) (hidle : s.idleEntries = none) :
    Inv c { s with
      idleEntries := s.idleEntriesShadow
      vectors := Function.update s.vectors s.vectorsCreated (some [])
      vectorsCreated := s.vectorsCreated + 1
      idleEntriesShadow := some s.vectorsCreated } chains := by
  have hne : ∀ v l, s.vectors v = some l → v ≠ s.vectorsCreated :=
    fun v l hl => Nat.ne_of_lt (h.vectors.fresh v l hl)
  generalize hs' : ({ s with
      idleEntries := s.idleEntriesShadow
      vectors := Function.update s.vectors s.vectorsCreated (some [])
      vectorsCreated := s.vectorsCreated + 1
      idleEntriesShadow := some s.vectorsCreated } : GenericHash) = s'
  have hshadow : s'.shadowEntries = [] := by simp [← hs', GenericHash.shadowEntries]
  have hqueued : s'.queuedEntries = s.shadowEntries := by
    cases hsh : s.idleEntriesShadow with
    | none => simp [← hs', GenericHash.queuedEntries, GenericHash.shadowEntries, hsh]
    | some v =>
      obtain ⟨l, hl⟩ := h.vectors.shadowLive v hsh
      simp [← hs', GenericHash.queuedEntries, GenericHash.shadowEntries, hsh, Function.update_of_ne (hne v l hl)]
  have hcur : s'.curIdleEntries = s.curIdleEntries := by
    simp only [← hs', GenericHash.curIdleEntries]
    cases hq : s.purgeQueued with
    | returned => rfl
    | recheck => rfl
    | drain b v it =>
      obtain ⟨l, hl⟩ := h.vectors.curLive v (by simp [GenericHash.curIdle, hq])
      simp only [Function.update_of_ne (hne v l hl)]
  have hold : s.queuedEntries = [] := by simp [GenericHash.queuedEntries, hidle]
  have hwait : s'.waiting = s.waiting := by
    have hinUse : s'.idleEntriesInUse = s.idleEntriesInUse := by rw [← hs']
    simp only [GenericHash.waiting, hshadow, hqueued, hcur, hold, hinUse, List.append_nil, List.nil_append]
  have hsettled : s.settled = s.shadowEntries.length := by simp [GenericHash.settled, hpc]
  have hsettled' : s'.settled = 0 := by
    have hpc' : s'.purgeIdle = .returned n := by rw [← hs']; exact hpc
    simp [GenericHash.settled, hpc', hshadow]
  have hshset := h.accounts.shadowSet
  rw [hsettled, List.take_length] at hshset
  refine ⟨?_, ?_, ?_⟩
  · rw [← hs']; exact { h.table with }
  · have hinp : s'.inPurge = false := by
      have hpc' : s'.purgeIdle = .returned n := by rw [← hs']; exact hpc
      simp [GenericHash.inPurge, hpc']
    have hold' : ∀ v l, s.vectors v = some l → s'.vectors v = some l := by
      intro v l hl
      rw [← hs']
      simpa only [Function.update_of_ne (hne v l hl)] using hl
    have hcurp : s'.curIdle = s.curIdle := by rw [← hs']; rfl
    refine ⟨?_, ?_, ?_, ?_, ?_, ?_, ?_, fun hn => ?_⟩
    · intro v hv
      rw [← hs'] at hv ⊢
      cases hv
      exact ⟨[], Function.update_self ..⟩
    · intro v hv
      have hv' : s.idleEntriesShadow = some v := by rw [← hs'] at hv; exact hv
      obtain ⟨l, hl⟩ := h.vectors.shadowLive v hv'
      exact ⟨l, hold' v l hl⟩
    · intro v hv
      obtain ⟨l, hl⟩ := h.vectors.curLive v (hcurp ▸ hv)
      exact ⟨l, hold' v l hl⟩
    · intro v l hl
      rw [← hs'] at hl ⊢
      by_cases hv : v = s.vectorsCreated
      · subst hv; exact Nat.lt_succ_self _
      · have hl' : s.vectors v = some l := by simpa only [Function.update_of_ne hv] using hl
        exact Nat.lt_succ_of_lt (h.vectors.fresh v l hl')
    · intro v hv hi
      rw [← hs'] at hv hi
      cases hv
      obtain ⟨l, hl⟩ := h.vectors.shadowLive _ hi
      exact hne _ l hl rfl
    · intro v hv hcu
      rw [← hs'] at hv
      cases hv
      obtain ⟨l, hl⟩ := h.vectors.curLive _ (hcurp ▸ hcu)
      exact hne _ l hl rfl
    · intro v hv
      rw [hcurp]
      exact h.vectors.shadow_ne_cur v (by rw [← hs'] at hv; exact hv)
    · rw [← hs'] at hn; cases hn
  · have hrest := h.accounts.restSet
    have htr := h.accounts.transitions
    rw [hold] at hrest htr
    refine ⟨?_, ?_, ?_, ?_, ?_, ?_, ?_, ?_, ?_, ?_, ?_, ?_⟩
    · rw [← hs']; exact h.accounts.nodup
    · rw [hwait, ← hs']; exact h.accounts.onePlace
    · rw [← hs']; exact h.accounts.fresh
    · rw [hwait, ← hs']; exact h.accounts.live
    · rw [← hs']; exact h.accounts.currentSize
    · rw [hsettled']; exact Nat.zero_le _
    · rw [hsettled', hqueued, hcur, ← hs']
      simp only [List.length_nil] at htr
      simp only
      omega
    · rw [← hs']; exact h.accounts.chainedUnset
    · rw [hshadow]; simp
    · rw [hshadow]; simp
    · rw [hqueued, hcur, ← hs']
      intro id hid
      simp only [List.append_assoc, List.mem_append] at hid
      rcases hid with hid | hid
      · exact hshset id hid
      · exact hrest id (by simpa using hid)
    · rw [← hs']; exact h.accounts.unused

/-- From the allocation on: the `for` loop starts behind the entries already in the shadow vector. -/
theorem enter_inv (h : Inv c s chains) {n : Nat} (hpc : s.purgeIdle = .returned n)
    (hs : s.idleEntriesShadow ≠ none) (forceIdle fullScan : Bool) (fraction : Nat) :
    s.shadow = some (s.idleEntriesShadow.getD 0, s.shadowEntries) ∧
    Inv c { s with purgeIdle := .buckets ⟨forceIdle, fullScan, fraction, 0, 0, s.shadowEntries.length⟩ 0 } chains := by
  obtain ⟨v, hv, -, hsh⟩ := h.vectors.shadow_some hs
  refine ⟨by rw [hsh, hv]; rfl, h.setPurgeIdle (by simp) ?_ fun hn => absurd hn hs⟩
  simp only [GenericHash.settled, hpc]

theorem purgeIdleBegin_inv (h : Inv c s chains) {n : Nat} (hpc : s.purgeIdle = .returned n)
    (forceIdle fullScan disablePurge allocOk : Bool)
    (hok : allocOk ∨ disablePurge ∨ s.idleEntries.isSome ∨ s.idleEntriesShadow = none) :
    ∃ s', s.purgeIdleBegin c forceIdle fullScan disablePurge allocOk = some s' ∧ Inv c s' chains := by
  have hreturn : Inv c { s with purgeIdle := .returned 0 } chains := by
    refine h.setPurgeIdle (by simp) ?_ fun _ => rfl
    simp only [GenericHash.settled, hpc]; rfl
  by_cases hdis : disablePurge = true
  · exact ⟨_, by simp only [GenericHash.purgeIdleBegin, hdis, if_true], hreturn⟩
  cases hidle : s.idleEntries with
  | some v =>
    have hs : s.idleEntriesShadow ≠ none := fun hn => by simp [(h.vectors.shadowFirst hn).1] at hidle
    have hent := enter_inv h hpc hs forceIdle fullScan (if !forceIdle && !fullScan then c.purgeStep else c.numHashes)
    exact ⟨_, by simp [GenericHash.purgeIdleBegin, hdis, hidle, hent.1], hent.2⟩
  | none =>
    by_cases halloc : allocOk = true
    · have hswap := swap_inv h hpc hidle
      have hent := enter_inv hswap hpc (by simp) forceIdle fullScan
        (if !forceIdle && !fullScan then c.purgeStep else c.numHashes)
      exact ⟨_, by simp [GenericHash.purgeIdleBegin, hdis, hidle, halloc, hent.1], hent.2⟩
    · have hs : s.idleEntriesShadow = none := by simpa [halloc, hdis, hidle] using hok
      refine ⟨{ s with purgeIdle := .returned 0 }, ?_, hreturn⟩
      simp [GenericHash.purgeIdleBegin, hdis, hidle, halloc, hs]

/-! ## purgeIdle: the walk -/

theorem shadow_ne_none (h : Inv c s chains) (hpc : s.inPurge = true) : s.idleEntriesShadow ≠ none :=
  fun hn => by simp [(h.vectors.shadowFirst hn).2] at hpc

theorem nextBucket_inv (h : Inv c s chains) {call : Call} {j : Nat} (hpc : s.purgeIdle = .buckets call j)
    (env : Env) : Inv c (s.nextBucket c env call j) chains := by
  have hs := shadow_ne_none h (by simp [GenericHash.inPurge, hpc])
  have hsettled : s.settled = call.oldSize := by simp [GenericHash.settled, hpc]
  have hpos := c.numHashes_pos
  unfold GenericHash.nextBucket
  split
  · generalize hi : (if s.lastPurgedHash + 1 = c.numHashes then 0 else s.lastPurgedHash + 1) = i
    have hlt : i < c.numHashes := by
      have := h.table.lastPurged
      rw [← hi]; split <;> omega
    have h1 : Inv c { s with lastPurgedHash := i } chains :=
      ⟨{ h.table with lastPurged := hlt }, { h.vectors with }, { h.accounts with }⟩
    dsimp only
    split
    · refine h1.setPurgeIdle ?_ hsettled.symm fun hn => absurd hn hs
      intro call' j' i' prev head heq
      cases heq
      exact ⟨hlt, [], chains i, rfl, rfl, (h.table.linked i hlt).head_eq⟩
    · exact h1.setPurgeIdle (by simp) hsettled.symm fun hn => absurd hn hs
  · exact h.setPurgeIdle (by simp) hsettled.symm fun hn => absurd hn hs

theorem endWalk_inv (h : Inv c s chains) {call : Call} {j i : Nat} {prev head : Option Nat}
    (hpc : s.purgeIdle = .chain call j i prev head) :
    Inv c { s with purgeIdle := .buckets call (j + 1) } chains := by
  have hs := shadow_ne_none h (by simp [GenericHash.inPurge, hpc])
  refine h.setPurgeIdle (by simp) ?_ fun hn => absurd hn hs
  simp [GenericHash.settled, hpc]

/-- The walk steps over `head`; the entry may have changed, but not its link. -/
theorem stepOver_inv (h : Inv c s chains) {call call' : Call} {j i head : Nat} {prev : Option Nat}
    (hpc : s.purgeIdle = .chain call j i prev (some head)) (hcall : call'.oldSize = call.oldSize)
    {e e' : GenericHashEntry} (he : s.entries head = some e) (hkey : e'.key = e.key)
    (hnext : e'.hashNext = e.hashNext) (hset : e'.setIdle = e.setIdle) :
    Inv c (s.stepOver call' j i head e') chains := by
  have hs := shadow_ne_none h (by simp [GenericHash.inPurge, hpc])
  refine (h.setEntry he hkey hnext hset).setPurgeIdle ?_ ?_ fun hn => absurd hn hs
  · intro call₁ j₁ i₁ prev₁ head₁ heq
    cases heq
    obtain ⟨hi, pre, suf, hcat, -, hhead⟩ := h.table.cursor call j i prev (some head) hpc
    cases suf with
    | nil => simp at hhead
    | cons a rest =>
      cases hhead
      refine ⟨hi, pre ++ [head], rest, by simp [hcat], by simp, ?_⟩
      have hl := h.table.linked i hi
      rw [hcat] at hl
      have hn := hl.next_eq
      rwa [GenericHash.next, he, Option.bind_some, ← hnext] at hn
  · simp [GenericHash.settled, GenericHash.setEntry, hpc, hcall]

/-- What the move of `head` to the shadow vector does to the vectors and the accounts. -/
theorem detach_accounts (hv : VectorsOk s) (ha : AccountsOk c s chains) {call : Call} (call' : Call)
    {j i head : Nat} {prev : Option Nat} (next : Option Nat) (hpc : s.purgeIdle = .chain call j i prev (some head))
    (hcall : call'.oldSize = call.oldSize) {v : Nat} (hsh : s.idleEntriesShadow = some v)
    (hhead : ∃ e, s.entries head = some e)
    {chains' : Nat → List Nat} (hp : (flat c.numHashes chains).Perm (head :: flat c.numHashes chains'))
    (tb : Nat → Option Nat) :
    let s' := { s with
      table := tb
      vectors := Function.update s.vectors v (some (s.shadowEntries ++ [head]))
      currentSize := s.currentSize - 1
      purgeIdle := .chain call' j i prev next }
    VectorsOk s' ∧ AccountsOk c s' chains' := by
  intro s'
  have hshadow : s'.shadowEntries = s.shadowEntries ++ [head] := by
    simp [s', GenericHash.shadowEntries, hsh]
  have hqueued : s'.queuedEntries = s.queuedEntries := by
    cases hi : s.idleEntries with
    | none => simp [s', GenericHash.queuedEntries, hi]
    | some w =>
      have hne : w ≠ v := fun he => hv.shadow_ne_idle v hsh (he ▸ hi)
      simp [s', GenericHash.queuedEntries, hi, Function.update_of_ne hne]
  have hcur : s'.curIdleEntries = s.curIdleEntries := by
    simp only [s', GenericHash.curIdleEntries]
    cases hq : s.purgeQueued with
    | returned => rfl
    | recheck => rfl
    | drain b w it =>
      have hne : w ≠ v := fun he => hv.shadow_ne_cur v hsh (by simp [GenericHash.curIdle, hq, he])
      simp only [Function.update_of_ne hne]
  have hsettled : s'.settled = s.settled := by simp [s', GenericHash.settled, hpc, hcall]
  have hle := ha.settled_le
  have hwait : s'.waiting.Perm (head :: s.waiting) := by
    simp only [GenericHash.waiting, hshadow, hqueued, hcur, List.append_assoc]
    exact List.perm_middle
  have hmem : ∀ {a}, a ∈ flat c.numHashes chains ↔ a ∈ head :: flat c.numHashes chains' := hp.mem_iff
  constructor
  · refine { hv with shadowLive := ?_, idleLive := ?_, curLive := ?_, fresh := ?_, shadowFirst := ?_ }
    · intro w hw
      cases hsh.symm.trans hw
      exact ⟨_, Function.update_self ..⟩
    · intro w hw
      have hne : w ≠ v := fun he => hv.shadow_ne_idle v hsh (he ▸ hw)
      simp only [s', Function.update_of_ne hne]
      exact hv.idleLive w hw
    · intro w hw
      have hne : w ≠ v := fun he => hv.shadow_ne_cur v hsh (he ▸ hw)
      simp only [s', Function.update_of_ne hne]
      exact hv.curLive w hw
    · intro w l hl
      by_cases hw : w = v
      · obtain ⟨l', hl'⟩ := hv.shadowLive v hsh
        exact hw ▸ hv.fresh v l' hl'
      · simp only [s', Function.update_of_ne hw] at hl
        exact hv.fresh w l hl
    · intro hn
      cases hsh.symm.trans hn
  · refine ⟨ha.nodup, ?_, ha.fresh, ?_, ?_, ?_, ?_, ?_, ?_, ?_, ?_, ha.unused⟩
    · refine List.Perm.trans ?_ ha.onePlace
      refine List.Perm.append_right _ ?_
      calc flat c.numHashes chains' ++ s'.waiting
          |>.Perm (flat c.numHashes chains' ++ head :: s.waiting) := hwait.append_left _
        _ |>.Perm (head :: flat c.numHashes chains' ++ s.waiting) := List.perm_middle
        _ |>.Perm (flat c.numHashes chains ++ s.waiting) := hp.symm.append_right _
    · intro id hid
      rcases List.mem_cons.mp (hwait.mem_iff.mp hid) with rfl | hid
      · exact hhead
      · exact ha.live id hid
    · have h1 := hp.length_eq
      have h2 := ha.currentSize
      simp only [List.length_cons] at h1
      simp only [s']
      omega
    · rw [hsettled, hshadow, List.length_append]; omega
    · rw [hsettled, hqueued, hcur]; exact ha.transitions
    · exact fun id hid => ha.chainedUnset id (hmem.mpr (List.mem_cons_of_mem _ hid))
    · rw [hsettled, hshadow, List.drop_append_of_le_length hle]
      intro id hid
      rcases List.mem_append.mp hid with hid | hid
      · exact ha.shadowUnset id hid
      · rw [List.mem_singleton.mp hid]
        exact ha.chainedUnset head (hmem.mpr (List.mem_cons_self ..))
    · rw [hsettled, hshadow, List.take_append_of_le_length hle]
      exact ha.shadowSet
    · rw [hqueued, hcur]; exact ha.restSet

theorem detach_head {v head : Nat} {l : List Nat} (hs : s.shadow = some (v, l)) (call : Call) (j i : Nat)
    (next : Option Nat) :
    s.detach call j i none head next = some { s with
      table := Function.update s.table i next
      vectors := Function.update s.vectors v (some (l ++ [head]))
      currentSize := s.currentSize - 1
      purgeIdle := .chain { call with numDetached := call.numDetached + 1 } j i none next } := by
  simp [GenericHash.detach, hs, GenericHash.setVector]

theorem detach_behind {v head p : Nat} {l : List Nat} {ep : GenericHashEntry} (hs : s.shadow = some (v, l))
    (hp : s.entries p = some ep) (call : Call) (j i : Nat) (next : Option Nat) :
    s.detach call j i (some p) head next = some { s.setEntry p { ep with hashNext := next } with
      vectors := Function.update s.vectors v (some (l ++ [head]))
      currentSize := s.currentSize - 1
      purgeIdle := .chain { call with numDetached := call.numDetached + 1 } j i (some p) next } := by
  simp [GenericHash.detach, hs, GenericHash.setVector, GenericHash.setEntry, hp]

/-- What a step of the walk leaves alone, besides the states of other entries. -/
structure Kept (s s' : GenericHash) : Prop where
  lastPurgedHash : s'.lastPurgedHash = s.lastPurgedHash
  created : s'.created = s.created
  states : ∀ id, (s'.entries id).map (·.hashEntryState) = (s.entries id).map (·.hashEntryState)

/-- The entry that the walk stands on moves from its chain to the end of the shadow vector. -/
theorem detach_at (h : Inv c s chains) {call call' : Call} {j i head : Nat} {pre rest : List Nat} {prev : Option Nat}
    (hi : i < c.numHashes) (hcat : chains i = pre ++ head :: rest) (hprev : prev = pre.getLast?)
    (hpc : s.purgeIdle = .chain call j i prev (some head)) (hcall : call'.oldSize = call.oldSize)
    {e : GenericHashEntry} (he : s.entries head = some e) :
    ∃ s', s.detach call' j i prev head e.hashNext = some s' ∧ Inv c s' (Function.update chains i (pre ++ rest)) ∧
      s'.purgeIdle = .chain { call' with numDetached := call'.numDetached + 1 } j i prev rest.head? ∧ Kept s s' := by
  obtain ⟨v, hv, hvec, hshadow⟩ := h.vectors.shadow_some (shadow_ne_none h (by simp [GenericHash.inPurge, hpc]))
  have hlink := h.table.linked i hi
  rw [hcat] at hlink
  have hnext : s.next head = e.hashNext := by rw [GenericHash.next, he, Option.bind_some]
  have hnodup := h.accounts.chain_nodup hi
  rw [hcat] at hnodup
  have hp : (flat c.numHashes chains).Perm
      (head :: flat c.numHashes (Function.update chains i (pre ++ rest))) :=
    flat_update_perm chains hi (hcat ▸ List.perm_middle)
  have hcur : e.hashNext = rest.head? := hnext ▸ hlink.next_eq
  have hsub : ∀ b, b < c.numHashes → ∀ id ∈ Function.update chains i (pre ++ rest) b, id ∈ chains b := by
    intro b _ id hid
    by_cases hb : b = i
    · subst hb
      rw [Function.update_self] at hid
      rw [hcat]
      simp only [List.mem_append, List.mem_cons] at hid ⊢
      tauto
    · rwa [Function.update_of_ne hb] at hid
  cases hpre : pre.getLast? with
  | none =>
    -- the head of the bucket
    obtain rfl : pre = [] := List.getLast?_eq_none_iff.mp hpre
    obtain rfl : prev = none := hprev
    have hacc := detach_accounts h.vectors h.accounts { call' with numDetached := call'.numDetached + 1 } e.hashNext
      hpc hcall hv ⟨e, he⟩ hp (Function.update s.table i e.hashNext)
    refine ⟨_, detach_head hshadow .., ⟨⟨?_, ?_, h.table.lastPurged, ?_⟩, hacc.1, hacc.2⟩, by rw [hcur], rfl, rfl,
      fun _ => rfl⟩
    · intro b hb
      by_cases hbi : b = i
      · subst hbi
        simp only [Function.update_self, ← hnext]
        exact hlink.2
      · simp only [Function.update_of_ne hbi]
        exact h.table.linked b hb
    · exact fun b hb id hid => h.table.ownBucket b hb id (hsub b hb id hid)
    · intro call₁ j₁ i₁ prev₁ head₁ heq
      cases heq
      exact ⟨hi, [], rest, by simp, rfl, hcur⟩
  | some p =>
    -- behind the predecessor `p`, which is linked to what follows
    obtain ⟨pre', rfl⟩ : ∃ pre', pre = pre' ++ [p] := List.getLast?_eq_some_iff.mp hpre
    obtain rfl : prev = some p := hprev.trans hpre
    have hpi : p ∈ chains i := by simp [hcat]
    obtain ⟨ep, hep, hepkey⟩ := h.table.ownBucket i hi p hpi
    have hne : head ≠ p := by
      rintro rfl
      simp [List.nodup_append] at hnodup
    have hacc := detach_accounts (s := s.setEntry p { ep with hashNext := e.hashNext }) { h.vectors with }
      (h.accounts.setEntry hep rfl) { call' with numDetached := call'.numDetached + 1 } e.hashNext hpc hcall hv
      ⟨e, by simp only [GenericHash.setEntry, Function.update_of_ne hne, he]⟩ hp s.table
    refine ⟨_, detach_behind hshadow hep .., ⟨⟨?_, ?_, h.table.lastPurged, ?_⟩, hacc.1, hacc.2⟩, by rw [hcur], rfl, rfl,
      fun id => ?_⟩
    · intro b hb
      have hother : ∀ id, id ≠ p → (s.setEntry p { ep with hashNext := e.hashNext }).next id = s.next id := by
        intro id hid
        simp only [GenericHash.next, GenericHash.setEntry, Function.update_of_ne hid]
      have hself : (s.setEntry p { ep with hashNext := e.hashNext }).next p = s.next head := by
        simp only [GenericHash.next, GenericHash.setEntry, Function.update_self, Option.bind_some, he]
      by_cases hbi : b = i
      · subst hbi
        simp only [Function.update_self]
        simp only [List.append_assoc, List.cons_append, List.nil_append] at hlink hnodup ⊢
        exact hlink.unlink hnodup hself hother
      · simp only [Function.update_of_ne hbi]
        refine (h.table.linked b hb).congr fun id hid => hother id ?_
        rintro rfl
        -- an entry of another bucket has another key
        obtain ⟨e', he', hkey⟩ := h.table.ownBucket b hb id hid
        rw [hep] at he'
        cases he'
        exact hbi (hkey.symm.trans hepkey)
    · intro b hb id hid
      obtain ⟨e', he', hkey⟩ := h.table.ownBucket b hb id (hsub b hb id hid)
      by_cases hid' : id = p
      · subst hid'
        cases hep.symm.trans he'
        exact ⟨_, Function.update_self .., hkey⟩
      · exact ⟨e', by simpa only [GenericHash.setEntry, Function.update_of_ne hid'] using he', hkey⟩
    · intro call₁ j₁ i₁ prev₁ head₁ heq
      cases heq
      exact ⟨hi, pre' ++ [p], rest, by simp, by simp, hcur⟩
    · by_cases hid : id = p
      · simp only [GenericHash.setEntry, hid, Function.update_self, hep, Option.map_some]
      · simp only [GenericHash.setEntry, Function.update_of_ne hid]

theorem detach_inv (h : Inv c s chains) {call call' : Call} {j i head : Nat} {prev : Option Nat}
    (hpc : s.purgeIdle = .chain call j i prev (some head)) (hcall : call'.oldSize = call.oldSize)
    {e : GenericHashEntry} (he : s.entries head = some e) :
    ∃ s' chains', s.detach call' j i prev head e.hashNext = some s' ∧ Inv c s' chains' := by
  obtain ⟨hi, pre, suf, hcat, hprev, hhead⟩ := h.table.cursor call j i prev (some head) hpc
  obtain ⟨rest, rfl⟩ : ∃ rest, suf = head :: rest := by
    cases suf with
    | nil => simp at hhead
    | cons a rest => cases hhead; exact ⟨rest, rfl⟩
  obtain ⟨s', heq, hinv, -, -⟩ := detach_at h hi hcat hprev hpc hcall he
  exact ⟨s', _, heq, hinv⟩

@[simp] theorem advance_frame (env : Env) (e : GenericHashEntry) :
    (e.advance env).key = e.key ∧ (e.advance env).hashNext = e.hashNext ∧ (e.advance env).setIdle = e.setIdle := by
  simp only [GenericHashEntry.advance, GenericHashEntry.setHashEntryStateActive, GenericHashEntry.setState,
    GenericHashEntry.housekeep]
  split
  · split <;> simp
  · simp

theorem visitEntry_inv (h : Inv c s chains) {call : Call} {j i head : Nat} {prev : Option Nat}
    (hpc : s.purgeIdle = .chain call j i prev (some head)) (env : Env) :
    ∃ s' chains', s.visitEntry env call j i prev head = some s' ∧ Inv c s' chains' := by
  obtain ⟨hi, pre, suf, hcat, -, hhead⟩ := h.table.cursor call j i prev (some head) hpc
  have hmem : head ∈ chains i := by
    rw [hcat]
    exact List.mem_append_right _ (List.mem_of_mem_head? hhead.symm)
  obtain ⟨e, he, -⟩ := h.table.ownBucket i hi head hmem
  generalize hcall : ({ call with bucketsChecked := call.bucketsChecked + 1 } : Call) = call'
  have hold : call'.oldSize = call.oldSize := by rw [← hcall]
  obtain ⟨hk, hn, hs⟩ := advance_frame env e
  have hearly : ∃ s' chains', (if call.forceIdle = true then
      (s.setEntry head (e.advance env)).detach call' j i prev head e.hashNext
      else some (s.stepOver call' j i head (e.advance env))) = some s' ∧ Inv c s' chains' := by
    split
    · have hself : (s.setEntry head (e.advance env)).entries head = some (e.advance env) := Function.update_self ..
      have hdet := detach_inv (h.setEntry he hk hn hs) hpc hold hself
      rwa [hn] at hdet
    · exact ⟨_, chains, rfl, stepOver_inv h hpc hold he hk hn hs⟩
  simp only [GenericHash.visitEntry, he, hcall, Option.bind_eq_bind, Option.bind_some]
  cases hst : e.hashEntryState with
  | idle => exact ⟨_, chains, rfl, stepOver_inv h hpc hold he rfl rfl rfl⟩
  | allocated => exact hearly
  | flowNotyetdetected => exact hearly
  | flowProtocoldetected => exact hearly
  | active =>
    dsimp only
    split
    · exact detach_inv h hpc hold he
    · exact ⟨_, chains, rfl, stepOver_inv h hpc hold he rfl rfl rfl⟩

/-! ## purgeIdle: setting the detached entries idle -/

theorem setIdle_last (env : Env) (e : GenericHashEntry) : ((e.setHashEntryStateIdle env).housekeep env).setIdle = true := by
  simp only [GenericHashEntry.setHashEntryStateIdle, GenericHashEntry.setState, GenericHashEntry.housekeep]
  split
  · rfl
  · split <;> rfl

theorem settleNext_inv (h : Inv c s chains) {call : Call} {it : Nat} (hpc : s.purgeIdle = .settle call it)
    (env : Env) : ∃ s', s.settleNext env call it = some s' ∧ Inv c s' chains := by
  have hs := shadow_ne_none h (by simp [GenericHash.inPurge, hpc])
  obtain ⟨v, hv, hvec, hshadow⟩ := h.vectors.shadow_some hs
  have hsettled : s.settled = it := by simp [GenericHash.settled, hpc]
  have hle := h.accounts.settled_le
  rw [hsettled] at hle
  cases hit : s.shadowEntries[it]? with
  | none =>
    have hend : it = s.shadowEntries.length := by
      have := List.getElem?_eq_none_iff.mp hit
      omega
    refine ⟨{ s with purgeIdle := .returned call.numDetached }, ?_, h.setPurgeIdle (by simp) ?_ fun hn => absurd hn hs⟩
    · simp [GenericHash.settleNext, hshadow, hit]
    · rw [hsettled, hend]; rfl
  | some id =>
    obtain ⟨hlt, hid⟩ := List.getElem?_eq_some_iff.mp hit
    have hmem : id ∈ s.shadowEntries := hid ▸ List.getElem_mem hlt
    have hwait : id ∈ s.waiting := by
      simp only [GenericHash.waiting, List.append_assoc, List.mem_append]
      exact .inl hmem
    obtain ⟨e, he⟩ := h.accounts.live id hwait
    generalize he' : (e.setHashEntryStateIdle env).housekeep env = e'
    have hset : e'.setIdle = true := he' ▸ setIdle_last env e
    have hself : ∀ id', ({ s with entries := Function.update s.entries id (some e') } : GenericHash).isSetIdle id' =
        if id' = id then true else s.isSetIdle id' := by
      intro id'
      by_cases hne : id' = id
      · simp [GenericHash.isSetIdle, hne, hset]
      · simp only [GenericHash.isSetIdle, Function.update_of_ne hne, if_neg hne]
    have hnd : s.shadowEntries.Nodup := by
      have hn := (List.nodup_append.mp (List.nodup_append.mp h.accounts.places_nodup).1).2.1
      simp only [GenericHash.waiting, List.append_assoc] at hn
      exact (List.nodup_append.mp hn).1
    have hdrop : s.shadowEntries.drop it = id :: s.shadowEntries.drop (it + 1) := by
      rw [List.drop_eq_getElem_cons hlt, hid]
    have htake : s.shadowEntries.take (it + 1) = s.shadowEntries.take it ++ [id] := by
      rw [List.take_add_one, hit]; rfl
    have hunset := h.accounts.shadowUnset
    have hold := h.accounts.shadowSet
    rw [hsettled, hdrop] at hunset
    rw [hsettled] at hold
    have hnotin : id ∉ s.shadowEntries.drop (it + 1) := by
      have hsub := hnd.sublist (List.drop_sublist it _)
      rw [hdrop] at hsub
      exact (List.nodup_cons.mp hsub).1
    have hout : id ∉ flat c.numHashes chains := fun hc => h.accounts.not_waiting hc hwait
    refine ⟨{ s.setEntry id e' with
        numIdleTransitions := s.numIdleTransitions + 1, purgeIdle := .settle call (it + 1) }, ?_, ⟨?_, ?_, ?_, ?_⟩, ?_, ?_⟩
    · simp [GenericHash.settleNext, hshadow, hit, he, he', GenericHash.setEntry]
    · intro b hb
      refine (h.table.linked b hb).congr fun id' hid' => ?_
      have hne : id' ≠ id := fun heq => hout (mem_flat.mpr ⟨b, hb, heq ▸ hid'⟩)
      simp only [GenericHash.next, GenericHash.setEntry, Function.update_of_ne hne]
    · intro b hb id' hid'
      have hne : id' ≠ id := fun heq => hout (mem_flat.mpr ⟨b, hb, heq ▸ hid'⟩)
      simp only [GenericHash.setEntry, Function.update_of_ne hne]
      exact h.table.ownBucket b hb id' hid'
    · exact h.table.lastPurged
    · simp
    · exact { h.vectors with shadowFirst := fun hn => absurd hn hs }
    · refine { h.accounts with
        live := ?_, settled_le := hlt, transitions := ?_, chainedUnset := ?_, shadowUnset := ?_, shadowSet := ?_,
        restSet := ?_ }
      · intro id' hid'
        by_cases hne : id' = id
        · exact ⟨e', by simp [GenericHash.setEntry, hne]⟩
        · simp only [GenericHash.setEntry, Function.update_of_ne hne]
          exact h.accounts.live id' hid'
      · have htr := h.accounts.transitions
        rw [hsettled] at htr
        show s.numIdleTransitions + 1 =
          s.numPurged + (it + 1 + s.queuedEntries.length + s.curIdleEntries.length + s.idleEntriesInUse.length)
        omega
      · intro id' hid'
        refine (hself id').trans ?_
        rw [if_neg fun heq : id' = id => hout (heq ▸ hid')]
        exact h.accounts.chainedUnset id' hid'
      · intro id' hid'
        refine (hself id').trans ?_
        rw [if_neg fun heq : id' = id => hnotin (heq ▸ hid')]
        exact hunset id' (List.mem_cons_of_mem _ hid')
      · intro id' hid'
        refine (hself id').trans ?_
        by_cases hne : id' = id
        · rw [if_pos hne]
        · rw [if_neg hne]
          refine hold id' ?_
          have hin : id' ∈ s.shadowEntries.take (it + 1) := hid'
          rw [htake] at hin
          rcases List.mem_append.mp hin with hin | hin
          · exact hin
          · exact absurd (List.mem_singleton.mp hin) hne
      · intro id' hid'
        refine (hself id').trans ?_
        split
        · rfl
        · exact h.accounts.restSet id' hid'

/-! ## purgeQueuedIdleEntries -/

/-- The other thread takes entries from its two vectors and deletes some of them, unused. -/
theorem offline_inv (h : Inv c s chains) (pc : PurgeQueued) (inUse : List Nat) (dels : List (Nat × Int))
    (hcur : ({ s with purgeQueued := pc } : GenericHash).curIdle = s.curIdle)
    (hrest : (({ s with purgeQueued := pc } : GenericHash).curIdleEntries ++ inUse ++ dels.map (·.1)).Perm
      (s.curIdleEntries ++ s.idleEntriesInUse))
    (hunused : ∀ d ∈ dels, d.2 = 0) :
    Inv c { s with
      purgeQueued := pc
      idleEntriesInUse := inUse
      deleted := dels ++ s.deleted
      numPurged := s.numPurged + dels.length } chains := by
  generalize hc : ({ s with purgeQueued := pc } : GenericHash).curIdleEntries = cur at hrest
  have hmem : ∀ id, id ∈ cur ++ inUse → id ∈ s.curIdleEntries ++ s.idleEntriesInUse :=
    fun id hid => hrest.mem_iff.mp (List.mem_append_left _ hid)
  refine ⟨{ h.table with }, { h.vectors with curLive := ?_, shadow_ne_cur := ?_, idle_ne_cur := ?_ }, ?_⟩
  · intro v hv
    exact h.vectors.curLive v (hcur ▸ hv)
  · intro v hv hcu
    exact h.vectors.shadow_ne_cur v hv (hcur ▸ hcu)
  · intro v hv hcu
    exact h.vectors.idle_ne_cur v hv (hcur ▸ hcu)
  generalize hs' : ({ s with
      purgeQueued := pc
      idleEntriesInUse := inUse
      deleted := dels ++ s.deleted
      numPurged := s.numPurged + dels.length } : GenericHash) = s'
  have hcur' : s'.curIdleEntries = cur := by rw [← hc, ← hs']; rfl
  have hinUse' : s'.idleEntriesInUse = inUse := by rw [← hs']
  have hshadow : s'.shadowEntries = s.shadowEntries := by rw [← hs']; rfl
  have hqueued : s'.queuedEntries = s.queuedEntries := by rw [← hs']; rfl
  have hsettled : s'.settled = s.settled := by rw [← hs']; rfl
  have hset : s'.isSetIdle = s.isSetIdle := by rw [← hs']; rfl
  refine ⟨?_, ?_, ?_, ?_, ?_, ?_, ?_, ?_, ?_, ?_, ?_, ?_⟩
  · rw [← hs']; exact h.accounts.nodup
  · have hdel : s'.deleted = dels ++ s.deleted := by rw [← hs']
    have hacc : s'.accepted = s.accepted := by rw [← hs']
    refine List.Perm.trans ?_ (hacc ▸ h.accounts.onePlace)
    rw [hdel, GenericHash.waiting, GenericHash.waiting, hshadow, hqueued, hcur', hinUse', List.map_append]
    simp only [List.append_assoc] at hrest ⊢
    refine ((List.Perm.append_left _ ?_).append_left _).append_left _
    calc cur ++ (inUse ++ (dels.map (·.1) ++ s.deleted.map (·.1)))
        |>.Perm (cur ++ (inUse ++ dels.map (·.1)) ++ s.deleted.map (·.1)) := by simp
      _ |>.Perm (s.curIdleEntries ++ s.idleEntriesInUse ++ s.deleted.map (·.1)) := hrest.append_right _
      _ |>.Perm (s.curIdleEntries ++ (s.idleEntriesInUse ++ s.deleted.map (·.1))) := by simp
  · rw [← hs']; exact h.accounts.fresh
  · intro id hid
    have hlive := h.accounts.live id
    simp only [GenericHash.waiting, hshadow, hqueued, hcur', hinUse', List.append_assoc, List.mem_append] at hid hlive
    rw [← hs']
    have := hmem id
    simp only [List.mem_append] at this
    tauto
  · rw [← hs']; exact h.accounts.currentSize
  · rw [hsettled, hshadow]; exact h.accounts.settled_le
  · have hlen := hrest.length_eq
    have htr := h.accounts.transitions
    have hp : s'.numPurged = s.numPurged + dels.length := by rw [← hs']
    have ht : s'.numIdleTransitions = s.numIdleTransitions := by rw [← hs']
    simp only [List.length_append, List.length_map] at hlen
    rw [hsettled, hqueued, hcur', hinUse', hp, ht, htr]
    omega
  · rw [hset]; exact h.accounts.chainedUnset
  · rw [hset, hsettled, hshadow]; exact h.accounts.shadowUnset
  · rw [hset, hsettled, hshadow]; exact h.accounts.shadowSet
  · rw [hset, hqueued, hcur', hinUse']
    intro id hid
    refine h.accounts.restSet id ?_
    simp only [List.append_assoc, List.mem_append] at hid hmem ⊢
    exact hid.imp_right (hmem id)
  · rw [← hs']
    intro d hd
    rcases List.mem_append.mp hd with hd | hd
    · exact hunused d hd
    · exact h.accounts.unused d hd

/-- An entry that was deleted is in no chain and in no vector. -/
theorem AccountsOk.deleted_outside (h : AccountsOk c s chains) (id : Nat) (hid : id ∈ s.deleted.map (·.1)) :
    id ∉ flat c.numHashes chains ∧ id ∉ s.waiting := by
  have hn := (List.nodup_append.mp h.places_nodup).2.2
  exact ⟨fun hc => hn id (List.mem_append_left _ hc) id hid rfl, fun hw => hn id (List.mem_append_right _ hw) id hid rfl⟩

theorem purgeQueuedBegin_inv (h : Inv c s chains) {n : Nat} (hpc : s.purgeQueued = .returned n) :
    Inv c s.purgeQueuedBegin chains := by
  have hcur : s.curIdleEntries = [] := by simp [GenericHash.curIdleEntries, hpc]
  have hcurp : s.curIdle = none := by simp [GenericHash.curIdle, hpc]
  cases hi : s.idleEntries with
  | none =>
    have heq : s.purgeQueuedBegin = { s with purgeQueued := .recheck s.numPurged 0 } := by
      simp only [GenericHash.purgeQueuedBegin, hi]
    rw [heq]
    refine offline_inv h (.recheck s.numPurged 0) s.idleEntriesInUse [] ?_ ?_ (by simp)
    · rw [hcurp]; rfl
    · rw [hcur]; simp [GenericHash.curIdleEntries]
  | some v =>
    simp only [GenericHash.purgeQueuedBegin, hi]
    generalize hs' : ({ s with idleEntries := none, purgeQueued := .drain s.numPurged v 0 } : GenericHash) = s'
    have hqueued : s'.queuedEntries = [] := by rw [← hs']; rfl
    have hcur' : s'.curIdleEntries = s.queuedEntries := by
      rw [← hs']
      simp [GenericHash.curIdleEntries, GenericHash.queuedEntries, hi]
    have hwait : s'.waiting = s.waiting := by
      have hsh : s'.shadowEntries = s.shadowEntries := by rw [← hs']; rfl
      have hin : s'.idleEntriesInUse = s.idleEntriesInUse := by rw [← hs']
      simp only [GenericHash.waiting, hsh, hin, hqueued, hcur', hcur, List.append_nil]
    have hcurp' : s'.curIdle = some v := by rw [← hs']; rfl
    refine ⟨by rw [← hs']; exact { h.table with }, ⟨?_, ?_, ?_, ?_, ?_, ?_, ?_, ?_⟩, ?_⟩
    · rw [← hs']; exact h.vectors.shadowLive
    · rw [← hs']; simp
    · intro w hw
      cases hcurp'.symm.trans hw
      rw [← hs']
      exact h.vectors.idleLive v hi
    · rw [← hs']; exact h.vectors.fresh
    · rw [← hs']; simp
    · intro w hw hcu
      cases hcurp'.symm.trans hcu
      exact h.vectors.shadow_ne_idle v (by rw [← hs'] at hw; exact hw) hi
    · rw [← hs']; simp
    · intro hn
      refine ⟨by rw [← hs'], ?_⟩
      have := h.vectors.shadowFirst (by rw [← hs'] at hn; exact hn)
      rw [← hs']; exact this.2
    · have hrest := h.accounts.restSet
      have htr := h.accounts.transitions
      rw [hcur] at hrest htr
      refine ⟨?_, ?_, ?_, ?_, ?_, ?_, ?_, ?_, ?_, ?_, ?_, ?_⟩
      · rw [← hs']; exact h.accounts.nodup
      · rw [hwait, ← hs']; exact h.accounts.onePlace
      · rw [← hs']; exact h.accounts.fresh
      · rw [hwait, ← hs']; exact h.accounts.live
      · rw [← hs']; exact h.accounts.currentSize
      · rw [← hs']; exact h.accounts.settled_le
      · rw [hqueued, hcur', ← hs']
        simp only [List.length_nil, Nat.add_zero] at htr ⊢
        exact htr
      · rw [← hs']; exact h.accounts.chainedUnset
      · rw [← hs']; exact h.accounts.shadowUnset
      · rw [← hs']; exact h.accounts.shadowSet
      · rw [hqueued, hcur', ← hs']
        intro id hid
        exact hrest id (by simpa using hid)
      · rw [← hs']; exact h.accounts.unused

theorem drainNext_inv (h : Inv c s chains) {before v it : Nat} (hpc : s.purgeQueued = .drain before v it) :
    ∃ s', s.drainNext before v it = some s' ∧ Inv c s' chains := by
  have hcurp : s.curIdle = some v := by simp [GenericHash.curIdle, hpc]
  obtain ⟨l, hl⟩ := h.vectors.curLive v hcurp
  have hcur : s.curIdleEntries = l.drop it := by simp [GenericHash.curIdleEntries, hpc, hl]
  cases hit : l[it]? with
  | none =>
    -- the vector is used up and freed
    have hnil : l.drop it = [] := List.drop_eq_nil_of_le (List.getElem?_eq_none_iff.mp hit)
    refine ⟨_, by simp only [GenericHash.drainNext, hl, hit, Option.bind_eq_bind, Option.bind_some]; rfl, ?_⟩
    generalize hs' : ({ s with
      vectors := Function.update s.vectors v none, purgeQueued := .recheck before 0 } : GenericHash) = s'
    have hvec : ∀ w, w ≠ v → s'.vectors w = s.vectors w := by
      intro w hw
      rw [← hs']
      exact Function.update_of_ne hw _ _
    have hsne : ∀ w, s.idleEntriesShadow = some w → w ≠ v :=
      fun w hw he => h.vectors.shadow_ne_cur v (he ▸ hw) hcurp
    have hine : ∀ w, s.idleEntries = some w → w ≠ v :=
      fun w hw he => h.vectors.idle_ne_cur v (he ▸ hw) hcurp
    have hsp : s'.idleEntriesShadow = s.idleEntriesShadow := by rw [← hs']
    have hip : s'.idleEntries = s.idleEntries := by rw [← hs']
    have hshadow : s'.shadowEntries = s.shadowEntries := by
      cases hsh : s.idleEntriesShadow with
      | none => simp [GenericHash.shadowEntries, hsp, hsh]
      | some w => simp [GenericHash.shadowEntries, hsp, hsh, hvec w (hsne w hsh)]
    have hqueued : s'.queuedEntries = s.queuedEntries := by
      cases hi : s.idleEntries with
      | none => simp [GenericHash.queuedEntries, hip, hi]
      | some w => simp [GenericHash.queuedEntries, hip, hi, hvec w (hine w hi)]
    have hcur' : s'.curIdleEntries = s.curIdleEntries := by
      rw [hcur, hnil, ← hs']; rfl
    have hwait : s'.waiting = s.waiting := by
      have hin : s'.idleEntriesInUse = s.idleEntriesInUse := by rw [← hs']
      simp only [GenericHash.waiting, hshadow, hqueued, hcur', hin]
    have hsettled : s'.settled = s.settled := by
      have hp : s'.purgeIdle = s.purgeIdle := by rw [← hs']
      simp only [GenericHash.settled, hp, hshadow]
    refine ⟨by rw [← hs']; exact { h.table with }, ⟨?_, ?_, ?_, ?_, ?_, ?_, ?_, ?_⟩, ?_⟩
    · intro w hw
      rw [hsp] at hw
      rw [hvec w (hsne w hw)]
      exact h.vectors.shadowLive w hw
    · intro w hw
      rw [hip] at hw
      rw [hvec w (hine w hw)]
      exact h.vectors.idleLive w hw
    · rw [← hs']; simp [GenericHash.curIdle]
    · intro w l' hl'
      have hvc : s'.vectorsCreated = s.vectorsCreated := by rw [← hs']
      by_cases hw : w = v
      · rw [hvc, hw]; exact h.vectors.fresh v l hl
      · rw [hvc]; exact h.vectors.fresh w l' (hvec w hw ▸ hl')
    · rw [hsp, hip]; exact h.vectors.shadow_ne_idle
    · rw [← hs']; simp [GenericHash.curIdle]
    · rw [← hs']; simp [GenericHash.curIdle]
    · intro hn
      rw [hsp] at hn
      rw [hip, ← hs']
      exact h.vectors.shadowFirst hn
    · refine ⟨?_, ?_, ?_, ?_, ?_, ?_, ?_, ?_, ?_, ?_, ?_, ?_⟩
      · rw [← hs']; exact h.accounts.nodup
      · rw [hwait, ← hs']; exact h.accounts.onePlace
      · rw [← hs']; exact h.accounts.fresh
      · rw [hwait, ← hs']; exact h.accounts.live
      · rw [← hs']; exact h.accounts.currentSize
      · rw [hsettled, hshadow]; exact h.accounts.settled_le
      · rw [hsettled, hqueued, hcur', ← hs']; exact h.accounts.transitions
      · rw [← hs']; exact h.accounts.chainedUnset
      · rw [hsettled, hshadow, ← hs']; exact h.accounts.shadowUnset
      · rw [hsettled, hshadow, ← hs']; exact h.accounts.shadowSet
      · rw [hqueued, hcur', ← hs']; exact h.accounts.restSet
      · rw [← hs']; exact h.accounts.unused
  | some id =>
    obtain ⟨hlt, hid⟩ := List.getElem?_eq_some_iff.mp hit
    have hdrop : s.curIdleEntries = id :: l.drop (it + 1) := by
      rw [hcur, List.drop_eq_getElem_cons hlt, hid]
    have hcur' : ({ s with purgeQueued := .drain before v (it + 1) } : GenericHash).curIdleEntries =
        l.drop (it + 1) := by
      simp [GenericHash.curIdleEntries, hl]
    have hwait : id ∈ s.waiting := by
      simp only [GenericHash.waiting, hdrop, List.mem_append, List.mem_cons, true_or, or_true]
    obtain ⟨e, he⟩ := h.accounts.live id hwait
    by_cases huses : e.numUses = 0
    · have hinv := offline_inv h (.drain before v (it + 1)) s.idleEntriesInUse [(id, e.numUses)] hcurp.symm (by
          rw [hcur', hdrop]
          exact List.perm_append_comm) (by simpa using huses)
      have hout := hinv.accounts.deleted_outside id (by simp)
      exact ⟨_, by
        simp only [GenericHash.drainNext, hl, hit, he, if_pos huses, Option.bind_eq_bind, Option.bind_some]; rfl,
        hinv.outside hout.1 hout.2 none⟩
    · have hinv := offline_inv h (.drain before v (it + 1)) (s.idleEntriesInUse ++ [id]) [] hcurp.symm (by
          rw [hcur', hdrop, List.map_nil, List.append_nil, ← List.append_assoc]
          exact List.perm_append_singleton ..) (by simp)
      exact ⟨_, by
        simp only [GenericHash.drainNext, hl, hit, he, if_neg huses, Option.bind_eq_bind, Option.bind_some]; rfl,
        hinv⟩

theorem recheckNext_inv (h : Inv c s chains) {before it : Nat} (hpc : s.purgeQueued = .recheck before it) :
    ∃ s', s.recheckNext before it = some s' ∧ Inv c s' chains := by
  have hcur : s.curIdleEntries = [] := by simp [GenericHash.curIdleEntries, hpc]
  have hcurp : s.curIdle = none := by simp [GenericHash.curIdle, hpc]
  have hmove : ∀ pc : PurgeQueued, ({ s with purgeQueued := pc } : GenericHash).curIdle = none →
      ({ s with purgeQueued := pc } : GenericHash).curIdleEntries = [] → Inv c { s with purgeQueued := pc } chains := by
    intro pc h1 h2
    refine offline_inv h pc s.idleEntriesInUse [] (h1.trans hcurp.symm) ?_ (by simp)
    rw [h2, hcur]; simp
  cases hit : s.idleEntriesInUse[it]? with
  | none =>
    exact ⟨{ s with purgeQueued := .returned (s.numPurged - before) }, by simp only [GenericHash.recheckNext, hit],
      hmove _ rfl rfl⟩
  | some id =>
    obtain ⟨hlt, hid⟩ := List.getElem?_eq_some_iff.mp hit
    have hmem : id ∈ s.idleEntriesInUse := hid ▸ List.getElem_mem hlt
    have hwait : id ∈ s.waiting := by simp only [GenericHash.waiting, List.mem_append, hmem, or_true]
    obtain ⟨e, he⟩ := h.accounts.live id hwait
    by_cases huses : e.numUses = 0
    · have hinv := offline_inv h (.recheck before it) (s.idleEntriesInUse.eraseIdx it) [(id, e.numUses)] hcurp.symm (by
          rw [hcur]
          refine List.perm_append_comm.trans ?_
          rw [← hid]
          exact List.getElem_cons_eraseIdx_perm hlt) (by simpa using huses)
      have hout := hinv.accounts.deleted_outside id (by simp)
      have h1 := hinv.outside hout.1 hout.2 none
      rw [← hpc] at h1
      exact ⟨_, by
        simp only [GenericHash.recheckNext, hit, he, if_pos huses, Option.bind_eq_bind, Option.bind_some]; rfl,
        h1⟩
    · exact ⟨{ s with purgeQueued := .recheck before (it + 1) }, by
        simp only [GenericHash.recheckNext, hit, he, if_neg huses, Option.bind_eq_bind, Option.bind_some]; rfl,
        hmove _ rfl rfl⟩

/-! ## Runs -/

/-- One event keeps the invariant, if it is not the allocation that fails. -/
theorem fire_inv (h : Inv c s chains) (ev : Ev) (hok : AllocFine (some s) ev) :
    ∃ s' chains', fire c s ev = some s' ∧ Inv c s' chains' := by
  cases ev with
  | add key state =>
    by_cases hl : s.locked (c.bucket key) = true
    · exact ⟨s, chains, if_pos hl, h⟩
    · obtain ⟨chains', h'⟩ := add_inv h key state (by simpa using hl)
      exact ⟨_, chains', if_neg hl, h'⟩
  | incUses id => exact ⟨_, chains, rfl, h.addUses id 1⟩
  | decUses id => exact ⟨_, chains, rfl, h.addUses id (-1)⟩
  | purgeIdle forceIdle fullScan disablePurge allocOk =>
    cases hpc : s.purgeIdle with
    | returned n =>
      obtain ⟨s', heq, h'⟩ := purgeIdleBegin_inv h hpc forceIdle fullScan disablePurge allocOk (hok s rfl)
      exact ⟨s', chains, by simpa only [fire, hpc] using heq, h'⟩
    | buckets => exact ⟨s, chains, by simp only [fire, hpc], h⟩
    | chain => exact ⟨s, chains, by simp only [fire, hpc], h⟩
    | settle => exact ⟨s, chains, by simp only [fire, hpc], h⟩
  | purgeIdleStep env =>
    cases hpc : s.purgeIdle with
    | returned n => exact ⟨s, chains, by simp only [fire, hpc], h⟩
    | buckets call j => exact ⟨s.nextBucket c env call j, chains, by simp only [fire, hpc], nextBucket_inv h hpc env⟩
    | chain call j i prev head =>
      cases head with
      | none => exact ⟨{ s with purgeIdle := .buckets call (j + 1) }, chains, by simp only [fire, hpc], endWalk_inv h hpc⟩
      | some head =>
        obtain ⟨s', chains', heq, h'⟩ := visitEntry_inv h hpc env
        exact ⟨s', chains', by simpa only [fire, hpc] using heq, h'⟩
    | settle call it =>
      obtain ⟨s', heq, h'⟩ := settleNext_inv h hpc env
      exact ⟨s', chains, by simpa only [fire, hpc] using heq, h'⟩
  | purgeQueuedIdleEntries =>
    cases hpc : s.purgeQueued with
    | returned n => exact ⟨s.purgeQueuedBegin, chains, by simp only [fire, hpc], purgeQueuedBegin_inv h hpc⟩
    | drain => exact ⟨s, chains, by simp only [fire, hpc], h⟩
    | recheck => exact ⟨s, chains, by simp only [fire, hpc], h⟩
  | purgeQueuedStep =>
    cases hpc : s.purgeQueued with
    | returned n => exact ⟨s, chains, by simp only [fire, hpc], h⟩
    | drain before v it =>
      obtain ⟨s', heq, h'⟩ := drainNext_inv h hpc
      exact ⟨s', chains, by simpa only [fire, hpc] using heq, h'⟩
    | recheck before it =>
      obtain ⟨s', heq, h'⟩ := recheckNext_inv h hpc
      exact ⟨s', chains, by simpa only [fire, hpc] using heq, h'⟩

def RunInv (c : Config) (σ : Option GenericHash) : Prop := ∃ s chains, σ = some s ∧ Inv c s chains

theorem step_inv (σ : Option GenericHash) (ev : Ev) (h : RunInv c σ) (hok : AllocFine σ ev) :
    RunInv c (step c σ ev) := by
  obtain ⟨s, chains, rfl, h⟩ := h
  obtain ⟨s', chains', heq, h'⟩ := fire_inv h ev hok
  exact ⟨s', chains', heq, h'⟩

theorem holds_of_inv (σ : Option GenericHash) (h : RunInv c σ) : Holds c σ := by
  obtain ⟨s, chains, rfl, h⟩ := h
  exact ⟨chains, conserved h⟩

/-! ### A table of one bucket -/

def oneBucket : Config := { numHashes := 1, maxSize := 10, ifaceId := 1, numHashes_pos := by decide }

/-- Locks are free, nothing is idle by itself, and the entries stay as they are. -/
def quiet : Env :=
  { lockFree := true, purgeIdleInterface := true, idleTransitionReady := false, housekeep := id,
    idleOverridden := false, running := false, skipDPI := false }

/-- An entry is added and a `purgeIdle` that idles everything puts it in the shadow vector. -/
def addAndPurge : List Ev :=
  [.add 7 .active, .purgeIdle true true false true] ++ List.replicate 6 (.purgeIdleStep quiet)

/-- In every run in which no `purgeIdle` fails to replace the vector it has moved, every state has every
    accepted entry in exactly one place, the counters in step with the places, and no deletion of an
    entry in use. -/
theorem entries_conserved (c : Config) (evs : List Ev) (hok : Along (step c) AllocFine (some (new c)) evs) :
    Always (step c) (Holds c) (some (new c)) evs :=
  always_of_inv (step c) step_inv holds_of_inv ⟨new c, fun _ => [], rfl, new_inv⟩ hok

theorem entries_conserved_to_deletion :
    Always (step oneBucket) (Holds oneBucket) (some (new oneBucket))
      (addAndPurge ++ [.incUses 0, .purgeIdle false true false true, .purgeQueuedIdleEntries, .purgeQueuedStep,
        .decUses 0, .purgeQueuedStep, .purgeQueuedStep]) :=
  entries_conserved oneBucket _ (by simp [addAndPurge, List.replicate, Along, AllocFine])

/-- The shadow vector is moved, its replacement is not allocated: the entry waits in two places. -/
theorem failed_swap_shares_vector :
    ¬ ∀ (c : Config) (evs : List Ev), Always (step c) (Holds c) (some (new c)) evs := by
  intro hall
  have hlast := always_last _ (hall oneBucket (addAndPurge ++ [.purgeIdle false false false false]))
  have hstate : ∃ s, run (step oneBucket) (some (new oneBucket)) (addAndPurge ++ [.purgeIdle false false false false]) =
      some s ∧ s.shadowEntries = [0] ∧ s.queuedEntries = [0] := ⟨_, rfl, rfl, rfl⟩
  obtain ⟨s, hrun, hshadow, hqueued⟩ := hstate
  rw [hrun] at hlast
  obtain ⟨chains, h⟩ := hlast
  have hn := h.onePlace.nodup_iff.mpr h.nodup
  have hw := (List.nodup_append.mp (List.nodup_append.mp hn).1).2.1
  simp [GenericHash.waiting, hshadow, hqueued] at hw

end Ntopng.Hash.Generic
