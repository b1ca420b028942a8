/-
  Ntopng.Alerts.RecipientsProofs — the books of the recipients (see `Ntopng.Alerts.Recipients`).

  A call that hands a notification over gives each recipient concerned its own turn, and
  deletes the notification when all of them are content (`HandedOver`). So the queues can
  be judged one by one, and the notification by the result alone.

  Proved:
  - `inv_step`: a step keeps the logs of the queues and the owner of each notification.
  - `copied_step`: and lets a recipient take at most the notification that it offers.
  - `gone_step`: and `empty` stays exact, when no recipient is deleted in its pass.
  - `recipients_books`: the three over every run, and each recipient on its own.
-/

import Ntopng.Alerts.Recipients

namespace Ntopng.Alerts

open Ntopng.Queue.Fifo
open Ntopng.Lib.Run

/-! ## One recipient -/

/-- The log of a recipient, whether its queue is made or not. -/
structure QueueOk (r : RecipientQueue) : Prop where
  none : r.queue = none → r.accepted = [] ∧ r.taken = []
  some : ∀ f, r.queue = some f → Logged f r.accepted r.taken ∧ f.maxSize = alertsNotificationsQueueSize
  enqueued : r.enqueued = r.accepted.length + r.counted

/-- What an `enqueue` does to the log. -/
structure Offered (c : Copy) (r r' : RecipientQueue) : Prop where
  ok : QueueOk r'
  taken : r'.taken = r.taken
  accepted : r'.accepted = r.accepted ∨ r'.accepted = r.accepted ++ [c]

variable {r r' : RecipientQueue} {c : Copy}

theorem queueOk_new (id : Nat) : QueueOk (.new id) := by
  refine ⟨fun _ => ⟨rfl, rfl⟩, fun f h => ?_, rfl⟩
  cases h

theorem queueBooks_of_ok (h : QueueOk r) : QueueBooks r := by
  have horder : r.accepted = r.taken ++ r.waiting ∧ r.waiting.length ≤ alertsNotificationsQueueSize := by
    unfold RecipientQueue.waiting
    cases hq : r.queue with
    | none =>
      obtain ⟨ha, ht⟩ := h.none hq
      rw [ha, ht]
      exact ⟨rfl, Nat.zero_le _⟩
    | some f =>
      obtain ⟨hlog, hsize⟩ := h.some f hq
      exact ⟨hlog.order, hsize ▸ hlog.room⟩
  refine ⟨horder.1, ?_, h.enqueued, horder.2⟩
  rw [← List.length_append, ← horder.1]

/-- The queue that is there, or is made now, holds the log. -/
theorem logged_getD (h : QueueOk r) :
    Logged (r.queue.getD (.new alertsNotificationsQueueSize)) r.accepted r.taken ∧
      (r.queue.getD (.new alertsNotificationsQueueSize)).maxSize = alertsNotificationsQueueSize := by
  cases hq : r.queue with
  | none =>
    obtain ⟨ha, ht⟩ := h.none hq
    rw [ha, ht]
    exact ⟨logged_new _, rfl⟩
  | some f => exact h.some f hq

theorem maxSize_enqueue (f : FifoQueue Copy) : (f.enqueue c).1.maxSize = f.maxSize := by
  unfold FifoQueue.enqueue
  split <;> rfl

theorem offered_push (h : QueueOk r) (queueOk itemOk : Bool) : Offered c r (r.push queueOk itemOk c).1 := by
  obtain ⟨hlog, hsize⟩ := logged_getD h
  unfold RecipientQueue.push
  split
  · exact ⟨⟨h.none, h.some, h.enqueued⟩, rfl, .inl rfl⟩
  · generalize r.queue.getD (.new alertsNotificationsQueueSize) = f at hlog hsize
    cases itemOk with
    | false =>
      refine ⟨⟨(fun hq => by cases hq), fun f' hq => ?_, h.enqueued⟩, rfl, .inl rfl⟩
      cases hq
      exact ⟨hlog, hsize⟩
    | true =>
      have hmax := maxSize_enqueue (c := c) f
      simp only [if_true]
      split
      · rename_i f1 he
        rw [he] at hmax
        refine ⟨⟨(fun hq => by cases hq), fun f' hq => ?_, ?_⟩, rfl, .inr rfl⟩
        · cases hq
          exact ⟨logged_enqueue hlog he, hmax.trans hsize⟩
        · show r.enqueued + 1 = (r.accepted ++ [c]).length + r.counted
          rw [List.length_append, List.length_singleton, h.enqueued]
          omega
      · rename_i f1 he
        rw [he] at hmax
        refine ⟨⟨(fun hq => by cases hq), fun f' hq => ?_, h.enqueued⟩, rfl, .inl rfl⟩
        cases hq
        exact ⟨logged_refuse hlog he, hmax.trans hsize⟩

theorem offered_enqueue (h : QueueOk r) (e : Env) : Offered c r (r.enqueue e c).1 := by
  unfold RecipientQueue.enqueue
  split
  · exact ⟨h, rfl, .inl rfl⟩
  · refine ⟨⟨h.none, h.some, ?_⟩, rfl, .inl rfl⟩
    show r.enqueued + 1 = r.accepted.length + (r.counted + 1)
    rw [h.enqueued]
    omega
  · exact offered_push h _ _

/-- What is dequeued is next in the log. -/
theorem dequeue_spec (h : QueueOk r) (now : Int) : QueueOk (r.dequeue now).1 ∧
    (r.dequeue now).1.accepted = r.accepted ∧ (r.dequeue now).1.taken = r.taken ++ (r.dequeue now).2.toList := by
  unfold RecipientQueue.dequeue
  cases hq : r.queue with
  | none => exact ⟨h, rfl, (List.append_nil _).symm⟩
  | some f =>
    obtain ⟨hlog, hsize⟩ := h.some f hq
    have hmax : f.dequeue.1.maxSize = f.maxSize := by
      unfold FifoQueue.dequeue
      split <;> rfl
    simp only
    split
    · rename_i f1 c hd
      rw [hd] at hmax
      refine ⟨⟨(fun hq => by cases hq), fun f' hq => ?_, h.enqueued⟩, rfl, rfl⟩
      cases hq
      exact ⟨logged_dequeue hlog hd, hmax.trans hsize⟩
    · rename_i f1 hd
      obtain ⟨rfl, -⟩ := dequeue_none hd
      refine ⟨⟨(fun hq => by cases hq), fun f' hq => ?_, h.enqueued⟩, rfl, (List.append_nil _).symm⟩
      cases hq
      exact ⟨hlog, hsize⟩

theorem empty_iff (r : RecipientQueue) : r.empty = true ↔ r.waiting = [] := by
  unfold RecipientQueue.empty RecipientQueue.waiting
  cases r.queue with
  | none => exact iff_of_true rfl rfl
  | some f => exact List.isEmpty_iff

/-! ## Handing a notification over -/

variable {s : Sys} {o : Nat}

/-- The queues become `f`, and the notification is deleted if and only if the result is `true`. -/
def HandedOver (s : Sys) (f : Nat → Option RecipientQueue) (o : Nat) (x : Sys × Bool) : Prop :=
  x = ({ s with recipientQueues := f }.free o .recipients, true) ∨ x = ({ s with recipientQueues := f }, false)

/-- The queues after the recipients of `ids` had their turn. -/
def turns (s : Sys) (e : Env) (c : Copy) (ids : List Nat) (id : Nat) : Option RecipientQueue :=
  if id ∈ ids then (s.recipientQueues id).map fun r => (r.enqueue e c).1 else s.recipientQueues id

theorem turns_nil (s : Sys) (e : Env) (c : Copy) : turns s e c [] = s.recipientQueues := by
  funext j
  simp [turns]

/-- The loop gives each recipient one turn, on its own queue. -/
theorem foldl_enqueueOne (e : Env) (c : Copy) (ids : List Nat) (hids : ids.Nodup) (s : Sys) (ok : Bool) :
    ∃ ok', ids.foldl (Sys.enqueueOne e c) (s, ok) = ({ s with recipientQueues := turns s e c ids }, ok') := by
  induction ids generalizing s ok with
  | nil =>
    rw [turns_nil]
    exact ⟨ok, rfl⟩
  | cons id ids ih =>
    obtain ⟨hid, hids⟩ := List.nodup_cons.mp hids
    have hone : ∃ ok', Sys.enqueueOne e c (s, ok) id = ({ s with recipientQueues := turns s e c [id] }, ok') := by
      unfold Sys.enqueueOne
      cases hq : s.recipientQueues id with
      | none =>
        refine ⟨ok, ?_⟩
        have hsame : turns s e c [id] = s.recipientQueues := by
          funext j
          unfold turns
          by_cases hj : j = id
          · subst hj
            simp [hq]
          · simp [hj]
        rw [hsame]
      | some r =>
        refine ⟨_, Prod.ext ?_ rfl⟩
        show s.setQueue id _ = _
        unfold Sys.setQueue
        congr 1
        funext j
        unfold turns
        by_cases hj : j = id
        · subst hj
          simp [hq]
        · simp [hj]
    obtain ⟨ok1, h1⟩ := hone
    obtain ⟨ok2, h2⟩ := ih hids { s with recipientQueues := turns s e c [id] } ok1
    refine ⟨ok2, ?_⟩
    rw [List.foldl_cons, h1, h2]
    congr 2
    funext j
    unfold turns
    by_cases hj : j = id
    · subst hj
      simp [hid]
    · simp [hj]

theorem enqueueAll_handed (s : Sys) (c : Copy) (e : Env) :
    HandedOver s (turns s e c (List.range maxNumRecipients)) c.of (s.enqueueAll (some c) e) := by
  obtain ⟨ok, h⟩ := foldl_enqueueOne e c (List.range maxNumRecipients) List.nodup_range s true
  unfold Sys.enqueueAll HandedOver
  simp only [h]
  cases ok with
  | true => exact .inl rfl
  | false => exact .inr rfl

theorem enqueue_handed (s : Sys) (id : Nat) (c : Copy) (e : Env) :
    ∃ ids, (∀ j ∈ ids, j = id) ∧ HandedOver s (turns s e c ids) c.of (s.enqueue id (some c) e) := by
  have hnil := turns_nil s e c
  unfold Sys.enqueue HandedOver
  simp only
  split
  · exact ⟨[], (by simp), .inr (by rw [hnil])⟩
  · cases hq : s.recipientQueues id with
    | none => exact ⟨[], (by simp), .inr (by simp [hnil])⟩
    | some r =>
      have hone : turns s e c [id] = Function.update s.recipientQueues id (some (r.enqueue e c).1) := by
        funext j
        unfold turns
        by_cases hj : j = id
        · subst hj
          simp [hq]
        · simp [hj]
      refine ⟨[id], (by simp), ?_⟩
      rw [hone]
      simp only
      split
      · rename_i r1 he
        exact .inl (by rw [he]; rfl)
      · rename_i r1 he
        exact .inr (by rw [he]; rfl)

/-! ## What holds in every state -/

structure Inv (s : Sys) : Prop where
  queue : ∀ id r, s.recipientQueues id = some r → id < maxNumRecipients ∧ QueueOk r
  past : ∀ id, (s.pastTaken id).Sublist (s.past id)
  flag : ∀ id, s.dequeued id = true ↔ s.pass id ≠ []
  range : ∀ id, s.pass id ≠ [] → id < maxNumRecipients
  owned : ∀ o, Owned s o
  unborn : ∀ o, s.created ≤ o → s.freed o = []

theorem books_of_inv (h : Inv s) : Books s :=
  ⟨fun id r hr => queueBooks_of_ok (h.queue id r hr).2, h.owned⟩

theorem inv_start : Inv start := by
  refine ⟨fun id r hr => (by cases hr), fun id => List.Sublist.refl _, fun id => ?_, fun id hid => absurd rfl hid,
    fun o => ⟨(fun ho => by cases ho), fun ho => absurd ho (Nat.not_lt_zero o)⟩, fun o _ => rfl⟩
  exact iff_of_false (by intro h; cases h) fun h => h rfl

/-- New queues of the same recipients, each with a log. -/
theorem inv_queues (h : Inv s) {f : Nat → Option RecipientQueue}
    (hf : ∀ id r, f id = some r → id < maxNumRecipients ∧ QueueOk r) : Inv { s with recipientQueues := f } :=
  ⟨hf, h.past, h.flag, h.range, fun o => ⟨(h.owned o).held, (h.owned o).once⟩, h.unborn⟩

theorem turns_some {e : Env} {ids : List Nat} {id : Nat} {r' : RecipientQueue} (h : turns s e c ids id = some r') :
    ∃ r, s.recipientQueues id = some r ∧ (r' = r ∨ (id ∈ ids ∧ r' = (r.enqueue e c).1)) := by
  unfold turns at h
  split at h
  · rename_i hid
    obtain ⟨r, hr, rfl⟩ := Option.map_eq_some_iff.mp h
    exact ⟨r, hr, .inr ⟨hid, rfl⟩⟩
  · exact ⟨r', h, .inl rfl⟩

/-- The result tells the caller whether the notification was deleted. -/
theorem inv_learn (h : Inv s) {e : Env} {ids : List Nat} {o : Nat} {x : Sys × Bool} (hc : c.of = o)
    (ho : s.callerOwns o = true) (hx : HandedOver s (turns s e c ids) o x) : Inv (Sys.learn o x) := by
  obtain ⟨hlt, hfreed⟩ := (h.owned o).held ho
  have hq : Inv { s with recipientQueues := turns s e c ids } := by
    refine inv_queues h fun id r' hr' => ?_
    obtain ⟨r, hr, rfl | ⟨-, rfl⟩⟩ := turns_some hr'
    · exact h.queue id _ hr
    · exact ⟨(h.queue id r hr).1, (offered_enqueue (h.queue id r hr).2 e).ok⟩
  rcases hx with rfl | rfl
  · refine ⟨hq.queue, hq.past, hq.flag, hq.range, fun p => ?_, fun p hp => ?_⟩
    · by_cases hpo : p = o
      · subst hpo
        refine ⟨fun hp => ?_, fun _ _ => ⟨.recipients, ?_⟩⟩
        · have hp1 : Function.update s.callerOwns p false p = true := hp
          rw [Function.update_self] at hp1
          cases hp1
        · show Function.update s.freed p (s.freed p ++ [.recipients]) p = _
          rw [Function.update_self, hfreed]
          rfl
      · have howns : (Sys.learn o ({ s with recipientQueues := turns s e c ids }.free o .recipients, true)).callerOwns p =
            s.callerOwns p := Function.update_of_ne hpo ..
        have hfree : (Sys.learn o ({ s with recipientQueues := turns s e c ids }.free o .recipients, true)).freed p =
            s.freed p := Function.update_of_ne hpo ..
        refine ⟨fun hp => ?_, fun hp hp' => ?_⟩
        · rw [howns] at hp
          rw [hfree]
          exact (h.owned p).held hp
        · rw [howns] at hp'
          rw [hfree]
          exact (h.owned p).once hp hp'
    · have hpo : p ≠ o := by
        rintro rfl
        exact absurd hlt (Nat.not_lt_of_le hp)
      show Function.update s.freed o _ p = _
      rw [Function.update_of_ne hpo]
      exact h.unborn p hp
  · have hsame : Function.update s.callerOwns o true = s.callerOwns := by
      rw [← ho]
      exact Function.update_eq_self o s.callerOwns
    have heq : Sys.learn o ({ s with recipientQueues := turns s e c ids }, false) =
        { s with recipientQueues := turns s e c ids } := by
      unfold Sys.learn
      simp only [Bool.not_false, hsame]
    rw [heq]
    exact hq

theorem handed_of (h : s.handed o = some c) : c.of = o := by
  unfold Sys.handed at h
  obtain ⟨n, -, rfl⟩ := Option.map_eq_some_iff.mp h
  rfl

theorem inv_registerRecipient (h : Inv s) (id : Nat) (filters : Filters) (allocOk : Bool) :
    Inv (s.registerRecipient id filters allocOk) := by
  unfold Sys.registerRecipient
  split
  · exact h
  · rename_i hid
    have hid : id < maxNumRecipients := Nat.lt_of_not_ge hid
    have hset : Inv (s.setQueue id ((s.queueOrNew id allocOk).map fun r => { r with filters := filters })) := by
      refine inv_queues h fun j r' hr' => ?_
      by_cases hj : j = id
      · subst hj
        rw [Function.update_self] at hr'
        obtain ⟨r, hr, rfl⟩ := Option.map_eq_some_iff.mp hr'
        have hok : QueueOk r := by
          unfold Sys.queueOrNew at hr
          split at hr
          · rename_i r1 hr1
            cases hr
            exact (h.queue j r hr1).2
          · split at hr
            · cases hr
              exact queueOk_new j
            · cases hr
        exact ⟨hid, hok.none, hok.some, hok.enqueued⟩
      · rw [Function.update_of_ne hj] at hr'
        exact h.queue j r' hr'
    split
    · exact ⟨hset.queue, hset.past, hset.flag, hset.range, fun o => ⟨(hset.owned o).held, (hset.owned o).once⟩,
        hset.unborn⟩
    · exact hset

theorem inv_deleteRecipient (h : Inv s) (id : Nat) : Inv (s.deleteRecipient id) := by
  unfold Sys.deleteRecipient
  split
  · exact h
  · cases hq : s.recipientQueues id with
    | none => exact h
    | some r =>
      refine ⟨fun j r' hr' => ?_, fun j => ?_, h.flag, h.range, fun o => ⟨(h.owned o).held, (h.owned o).once⟩, h.unborn⟩
      · have hr1 : Function.update s.recipientQueues id none j = some r' := hr'
        by_cases hj : j = id
        · subst hj
          rw [Function.update_self] at hr1
          cases hr1
        · rw [Function.update_of_ne hj] at hr1
          exact h.queue j r' hr1
      · show (Function.update s.pastTaken id _ j).Sublist (Function.update s.past id _ j)
        by_cases hj : j = id
        · subst hj
          rw [Function.update_self, Function.update_self]
          refine (h.past j).append ?_
          have hbooks := queueBooks_of_ok (h.queue j r hq).2
          rw [hbooks.order, List.map_append]
          exact List.sublist_append_left ..
        · rw [Function.update_of_ne hj, Function.update_of_ne hj]
          exact h.past j

theorem inv_create (h : Inv s) (n : AlertFifoItem) : Inv (s.create n) := by
  refine ⟨h.queue, h.past, h.flag, h.range, fun o => ⟨fun ho => ?_, fun ho ho' => ?_⟩, fun o ho => ?_⟩
  · have ho1 : Function.update s.callerOwns s.created true o = true := ho
    show o < s.created + 1 ∧ s.freed o = []
    by_cases hoc : o = s.created
    · rw [hoc]
      exact ⟨Nat.lt_succ_self _, h.unborn _ (Nat.le_refl _)⟩
    · rw [Function.update_of_ne hoc] at ho1
      obtain ⟨hlt, hfreed⟩ := (h.owned o).held ho1
      exact ⟨Nat.lt_succ_of_lt hlt, hfreed⟩
  · have ho1 : Function.update s.callerOwns s.created true o = false := ho'
    by_cases hoc : o = s.created
    · rw [hoc, Function.update_self] at ho1
      cases ho1
    · rw [Function.update_of_ne hoc] at ho1
      exact (h.owned o).once (Nat.lt_of_le_of_ne (Nat.le_of_lt_succ ho) hoc) ho1
  · exact h.unborn o (Nat.le_of_succ_le ho)

/-- A call of `enqueue`, as the caller sees it. -/
theorem inv_called (h : Inv s) (ho : s.callerOwns o = true) (call : Option Copy → Sys × Bool)
    (hnone : call none = (s, false))
    (hsome : ∀ c, c.of = o → ∃ e ids, HandedOver s (turns s e c ids) o (call (some c))) :
    Inv (Sys.learn o (call (s.handed o))) := by
  cases hc : s.handed o with
  | none =>
    rw [hnone]
    refine ⟨h.queue, h.past, h.flag, h.range, fun p => ?_, h.unborn⟩
    have howns : (Sys.learn o (s, false)).callerOwns = s.callerOwns := by
      show Function.update s.callerOwns o true = _
      rw [← ho]
      exact Function.update_eq_self o s.callerOwns
    refine ⟨fun hp => ?_, fun hp hp' => ?_⟩
    · rw [howns] at hp
      exact (h.owned p).held hp
    · rw [howns] at hp'
      exact (h.owned p).once hp hp'
  | some c =>
    have hof := handed_of hc
    obtain ⟨e, ids, hx⟩ := hsome c hof
    exact inv_learn h hof ho hx

theorem inv_delete (h : Inv s) (ho : s.callerOwns o = true) :
    Inv { s.free o .caller with callerOwns := Function.update s.callerOwns o false } := by
  obtain ⟨hlt, hfreed⟩ := (h.owned o).held ho
  refine ⟨h.queue, h.past, h.flag, h.range, fun p => ⟨fun hp => ?_, fun hp hp' => ?_⟩, fun p hp => ?_⟩
  · have hp1 : Function.update s.callerOwns o false p = true := hp
    show _ ∧ Function.update s.freed o _ p = []
    by_cases hpo : p = o
    · rw [hpo, Function.update_self] at hp1
      cases hp1
    · rw [Function.update_of_ne hpo] at hp1 ⊢
      exact (h.owned p).held hp1
  · have hp1 : Function.update s.callerOwns o false p = false := hp'
    show ∃ w, Function.update s.freed o _ p = [w]
    by_cases hpo : p = o
    · rw [hpo, Function.update_self, hfreed]
      exact ⟨.caller, rfl⟩
    · rw [Function.update_of_ne hpo] at hp1 ⊢
      exact (h.owned p).once hp hp1
  · have hpo : p ≠ o := by
      rintro rfl
      exact absurd hlt (Nat.not_lt_of_le hp)
    show Function.update s.freed o _ p = []
    rw [Function.update_of_ne hpo]
    exact h.unborn p hp

theorem inv_dequeue (h : Inv s) (id : Nat) (now : Int) : Inv (s.dequeue id now).1 := by
  unfold Sys.dequeue
  split
  · exact h
  · rename_i hid
    cases hq : s.recipientQueues id with
    | none => exact h
    | some r =>
      have hspec := dequeue_spec (h.queue id r hq).2 now
      have hset : Inv (s.setQueue id (some (r.dequeue now).1)) := by
        refine inv_queues h fun j r' hr' => ?_
        by_cases hj : j = id
        · subst hj
          rw [Function.update_self] at hr'
          cases hr'
          exact ⟨(h.queue j r hq).1, hspec.1⟩
        · rw [Function.update_of_ne hj] at hr'
          exact h.queue j r' hr'
      simp only
      split
      · rename_i r1 hd
        rw [hd] at hset
        exact hset
      · rename_i r1 c hd
        rw [hd] at hset
        refine ⟨hset.queue, hset.past, fun j => ?_, fun j hj => ?_, fun o => ⟨(h.owned o).held, (h.owned o).once⟩,
          hset.unborn⟩
        · show Function.update s.dequeued id true j = true ↔ Function.update s.pass id _ j ≠ []
          by_cases hj : j = id
          · subst hj
            rw [Function.update_self, Function.update_self]
            exact iff_of_true rfl (by simp)
          · rw [Function.update_of_ne hj, Function.update_of_ne hj]
            exact h.flag j
        · have hj1 : Function.update s.pass id (s.pass id ++ [c.of]) j ≠ [] := hj
          by_cases hjid : j = id
          · rw [hjid]
            exact Nat.lt_of_not_ge hid
          · rw [Function.update_of_ne hjid] at hj1
            exact h.range j hj1

theorem inv_lastUse (h : Inv s) (id : Nat) : Inv (s.lastUse id).1 := by
  unfold Sys.lastUse
  split
  · exact h
  · refine ⟨h.queue, h.past, fun j => ?_, fun j hj => ?_, fun o => ⟨(h.owned o).held, (h.owned o).once⟩, h.unborn⟩
    · show Function.update s.dequeued id false j = true ↔ Function.update s.pass id [] j ≠ []
      by_cases hj : j = id
      · subst hj
        rw [Function.update_self, Function.update_self]
        exact iff_of_false (fun h1 => by cases h1) fun h1 => h1 rfl
      · rw [Function.update_of_ne hj, Function.update_of_ne hj]
        exact h.flag j
    · have hj1 : Function.update s.pass id [] j ≠ [] := hj
      by_cases hjid : j = id
      · rw [hjid, Function.update_self] at hj1
        exact absurd rfl hj1
      · rw [Function.update_of_ne hjid] at hj1
        exact h.range j hj1

/-- Every step keeps the logs of the queues and the owner of each notification. -/
theorem inv_step (e : Ev) (h : Inv s) : Inv (step s e) := by
  cases e with
  | registerRecipient id filters allocOk => exact inv_registerRecipient h id filters allocOk
  | deleteRecipient id => exact inv_deleteRecipient h id
  | create n => exact inv_create h n
  | enqueue id o e =>
    by_cases ho : s.callerOwns o = true
    · simp only [step, if_pos ho]
      refine inv_called h ho (fun n => s.enqueue id n e) rfl fun c hc => ?_
      obtain ⟨ids, -, hx⟩ := enqueue_handed s id c e
      exact ⟨e, ids, hc ▸ hx⟩
    · simp only [step, if_neg ho]
      exact h
  | enqueueAll o e =>
    by_cases ho : s.callerOwns o = true
    · simp only [step, if_pos ho]
      refine inv_called h ho (fun n => s.enqueueAll n e) rfl fun c hc => ?_
      have hx := enqueueAll_handed s c e
      rw [hc] at hx
      exact ⟨e, List.range maxNumRecipients, hx⟩
    · simp only [step, if_neg ho]
      exact h
  | delete o =>
    by_cases ho : s.callerOwns o = true
    · simp only [step, if_pos ho]
      exact inv_delete h ho
    · simp only [step, if_neg ho]
      exact h
  | dequeue id now => exact inv_dequeue h id now
  | lastUse id => exact inv_lastUse h id

/-! ## The copies that a recipient took -/

/-- The event offers the notification `o` to the recipient. -/
def Offers (id o : Nat) : Ev → Prop
  | .enqueue id' o' _ => id = id' ∧ o = o'
  | .enqueueAll o' _ => o = o'
  | _ => False

theorem copied_congr {s' : Sys} {id : Nat} (hp : s'.past id = s.past id)
    (hq : s'.recipientQueues id = s.recipientQueues id) : s'.copied id = s.copied id := by
  unfold Sys.copied
  rw [hp, hq]

theorem copied_some {id : Nat} (hq : s.recipientQueues id = some r) :
    s.copied id = s.past id ++ r.accepted.map (·.of) := by
  unfold Sys.copied
  rw [hq]
  rfl

theorem copied_none {id : Nat} (hq : s.recipientQueues id = none) : s.copied id = s.past id := by
  unfold Sys.copied
  rw [hq]
  exact List.append_nil _

/-- A recipient that has its turn takes one copy, or none. -/
theorem copied_learn (h : Inv s) {e : Env} {ids : List Nat} {x : Sys × Bool}
    (hx : HandedOver s (turns s e c ids) o x) (id : Nat) : (Sys.learn o x).copied id = s.copied id ∨
      (id ∈ ids ∧ (Sys.learn o x).copied id = s.copied id ++ [c.of]) := by
  have hqueues : (Sys.learn o x).recipientQueues = turns s e c ids ∧ (Sys.learn o x).past = s.past := by
    rcases hx with rfl | rfl <;> exact ⟨rfl, rfl⟩
  obtain ⟨hqueues, hpast⟩ := hqueues
  cases hq : s.recipientQueues id with
  | none =>
    left
    refine copied_congr (congrFun hpast id) ?_
    rw [hqueues, hq]
    unfold turns
    rw [hq]
    split <;> rfl
  | some r =>
    by_cases hid : id ∈ ids
    · have hr : (Sys.learn o x).recipientQueues id = some (r.enqueue e c).1 := by
        rw [hqueues]
        unfold turns
        rw [if_pos hid, hq]
        rfl
      rw [copied_some hr, copied_some hq, congrFun hpast id]
      rcases (offered_enqueue (c := c) (h.queue id r hq).2 e).accepted with ha | ha
      · rw [ha]
        exact .inl rfl
      · rw [ha, List.map_append, ← List.append_assoc]
        exact .inr ⟨hid, rfl⟩
    · left
      refine copied_congr (congrFun hpast id) ?_
      rw [hqueues]
      unfold turns
      rw [if_neg hid]

theorem copied_registerRecipient (id : Nat) (filters : Filters) (allocOk : Bool) (j : Nat) :
    (s.registerRecipient id filters allocOk).copied j = s.copied j := by
  unfold Sys.registerRecipient
  split
  · rfl
  · have hset : (s.setQueue id ((s.queueOrNew id allocOk).map fun r => { r with filters := filters })).copied j =
        s.copied j := by
      by_cases hj : j = id
      · subst hj
        unfold Sys.copied Sys.setQueue Sys.queueOrNew
        simp only [Function.update_self]
        cases s.recipientQueues j with
        | some r => rfl
        | none => cases allocOk <;> rfl
      · exact copied_congr rfl (Function.update_of_ne hj ..)
    split
    · exact hset
    · exact hset

theorem copied_deleteRecipient (id j : Nat) : (s.deleteRecipient id).copied j = s.copied j := by
  unfold Sys.deleteRecipient
  split
  · rfl
  · cases hq : s.recipientQueues id with
    | none => rfl
    | some r =>
      by_cases hj : j = id
      · subst hj
        rw [copied_none (Function.update_self ..), copied_some hq]
        exact Function.update_self ..
      · exact copied_congr (Function.update_of_ne hj ..) (Function.update_of_ne hj ..)

theorem copied_dequeue (h : Inv s) (id : Nat) (now : Int) (j : Nat) : (s.dequeue id now).1.copied j = s.copied j := by
  unfold Sys.dequeue
  split
  · rfl
  · cases hq : s.recipientQueues id with
    | none => rfl
    | some r =>
      have hspec := dequeue_spec (h.queue id r hq).2 now
      have hset : (s.setQueue id (some (r.dequeue now).1)).copied j = s.copied j := by
        by_cases hj : j = id
        · subst hj
          have hr : (s.setQueue j (some (r.dequeue now).1)).recipientQueues j = some (r.dequeue now).1 :=
            Function.update_self ..
          rw [copied_some hr, copied_some hq, hspec.2.1]
          rfl
        · exact copied_congr rfl (Function.update_of_ne hj ..)
      simp only
      split
      · rename_i r1 hd
        rw [hd] at hset
        exact hset
      · rename_i r1 c hd
        rw [hd] at hset
        exact hset

theorem copied_called (h : Inv s) (call : Option Copy → Sys × Bool) (hnone : call none = (s, false)) {P : Nat → Prop}
    (hsome : ∀ c, c.of = o → ∃ e ids, (∀ j ∈ ids, P j) ∧ HandedOver s (turns s e c ids) o (call (some c))) (id : Nat) :
    (Sys.learn o (call (s.handed o))).copied id = s.copied id ∨
      P id ∧ (Sys.learn o (call (s.handed o))).copied id = s.copied id ++ [o] := by
  cases hc : s.handed o with
  | none =>
    rw [hnone]
    exact .inl rfl
  | some c =>
    have hof := handed_of hc
    obtain ⟨e, ids, hids, hx⟩ := hsome c hof
    rcases copied_learn h hx id with hsame | ⟨hid, hmore⟩
    · exact .inl hsame
    · rw [hof] at hmore
      exact .inr ⟨hids id hid, hmore⟩

/-- A step changes what a recipient took by the one notification that it offers, if at all. -/
theorem copied_step (e : Ev) (h : Inv s) (id : Nat) :
    (step s e).copied id = s.copied id ∨ ∃ o, Offers id o e ∧ (step s e).copied id = s.copied id ++ [o] := by
  cases e with
  | registerRecipient id' filters allocOk => exact .inl (copied_registerRecipient id' filters allocOk id)
  | deleteRecipient id' => exact .inl (copied_deleteRecipient id' id)
  | create n => exact .inl rfl
  | enqueue id' o e =>
    by_cases ho : s.callerOwns o = true
    · simp only [step, if_pos ho]
      have hcall := copied_called (P := (· = id')) (o := o) h (fun n => s.enqueue id' n e) rfl (fun c hc => by
        obtain ⟨ids, hids, hx⟩ := enqueue_handed s id' c e
        exact ⟨e, ids, hids, hc ▸ hx⟩) id
      rcases hcall with hsame | ⟨hid, hmore⟩
      · exact .inl hsame
      · exact .inr ⟨o, ⟨hid, rfl⟩, hmore⟩
    · simp only [step, if_neg ho]
      exact .inl trivial
  | enqueueAll o e =>
    by_cases ho : s.callerOwns o = true
    · simp only [step, if_pos ho]
      have hcall := copied_called (P := fun _ => True) (o := o) h (fun n => s.enqueueAll n e) rfl (fun c hc => by
        have hx := enqueueAll_handed s c e
        rw [hc] at hx
        exact ⟨e, List.range maxNumRecipients, fun _ _ => trivial, hx⟩) id
      rcases hcall with hsame | ⟨-, hmore⟩
      · exact .inl hsame
      · exact .inr ⟨o, rfl, hmore⟩
    · simp only [step, if_neg ho]
      exact .inl trivial
  | delete o =>
    by_cases ho : s.callerOwns o = true
    · simp only [step, if_pos ho]
      exact .inl rfl
    · simp only [step, if_neg ho]
      exact .inl trivial
  | dequeue id' now => exact .inl (copied_dequeue h id' now id)
  | lastUse id' =>
    left
    unfold step Sys.lastUse
    simp only
    split <;> rfl

/-- What was dequeued from a recipient is among what it took. -/
theorem received_sublist (h : Inv s) (id : Nat) : (s.received id).Sublist (s.copied id) := by
  unfold Sys.received Sys.copied
  refine (h.past id).append ?_
  cases hq : s.recipientQueues id with
  | none => exact List.Sublist.refl _
  | some r =>
    have hbooks := queueBooks_of_ok (h.queue id r hq).2
    show (r.taken.map (·.of)).Sublist (r.accepted.map (·.of))
    rw [hbooks.order, List.map_append]
    exact List.sublist_append_left ..

theorem copied_nodup_step (e : Ev) (h : Inv s ∧ ∀ id, (s.copied id).Nodup) (hfresh : Fresh s e) :
    Inv (step s e) ∧ ∀ id, ((step s e).copied id).Nodup := by
  refine ⟨inv_step e h.1, fun id => ?_⟩
  rcases copied_step e h.1 id with hsame | ⟨o, hoffer, hmore⟩
  · rw [hsame]
    exact h.2 id
  · have hnew : o ∉ s.copied id := by
      cases e with
      | enqueue id' o' e =>
        obtain ⟨rfl, rfl⟩ := hoffer
        exact hfresh
      | enqueueAll o' e =>
        cases hoffer
        exact hfresh id
      | registerRecipient | deleteRecipient | create | delete | dequeue | lastUse => cases hoffer
    rw [hmore]
    refine List.nodup_append.mpr ⟨h.2 id, List.nodup_singleton o, fun p hp q hq => ?_⟩
    rw [List.mem_singleton.mp hq]
    rintro rfl
    exact hnew hp

/-! ## Empty -/

/-- A recipient that is not registered has dequeued nothing in its pass. -/
def Gone (s : Sys) : Prop := ∀ id, s.recipientQueues id = none → s.pass id = []

theorem emptyExact_of_inv (h : Inv s) (hgone : Gone s) : EmptyExact s := by
  unfold EmptyExact Sys.empty
  rw [List.all_eq_false]
  constructor
  · rintro ⟨id, -, hid⟩
    rw [Bool.and_eq_true, Bool.not_eq_true', not_and_or] at hid
    rcases hid with hflag | hqueue
    · have hpass := (h.flag id).mp (by simpa using hflag)
      cases hq : s.recipientQueues id with
      | none => exact absurd (hgone id hq) hpass
      | some r => exact ⟨id, h.range id hpass, r, hq, .inr hpass⟩
    · cases hq : s.recipientQueues id with
      | none =>
        rw [hq] at hqueue
        exact absurd rfl hqueue
      | some r =>
        rw [hq] at hqueue
        exact ⟨id, (h.queue id r hq).1, r, hq, .inl fun hw => hqueue ((empty_iff r).mpr hw)⟩
  · rintro ⟨id, hid, r, hq, hbusy⟩
    refine ⟨id, List.mem_range.mpr hid, ?_⟩
    rw [Bool.and_eq_true, Bool.not_eq_true', hq]
    rintro ⟨hflag, hempty⟩
    rcases hbusy with hw | hpass
    · exact hw ((empty_iff r).mp hempty)
    · rw [(h.flag id).mpr hpass] at hflag
      cases hflag

theorem gone_called (h : Gone s) {call : Option Copy → Sys × Bool} (hnone : call none = (s, false))
    (hsome : ∀ c, c.of = o → ∃ e ids, HandedOver s (turns s e c ids) o (call (some c))) :
    Gone (Sys.learn o (call (s.handed o))) := by
  cases hc : s.handed o with
  | none =>
    rw [hnone]
    exact h
  | some c =>
    obtain ⟨e, ids, hx⟩ := hsome c (handed_of hc)
    intro id hid
    have hqueues : (Sys.learn o (call (some c))).recipientQueues = turns s e c ids ∧
        (Sys.learn o (call (some c))).pass = s.pass := by
      rcases hx with hx | hx <;> (rw [hx]; exact ⟨rfl, rfl⟩)
    rw [hqueues.1] at hid
    rw [hqueues.2]
    refine h id ?_
    unfold turns at hid
    split at hid
    · exact Option.map_eq_none_iff.mp hid
    · exact hid

theorem gone_step (e : Ev) (h : Gone s) (hover : PassOver s e) : Gone (step s e) := by
  cases e with
  | registerRecipient id filters allocOk =>
    unfold step Sys.registerRecipient
    simp only
    split
    · exact h
    · have hset : Gone (s.setQueue id ((s.queueOrNew id allocOk).map fun r => { r with filters := filters })) := by
        intro j hj
        refine h j ?_
        have hj1 : Function.update s.recipientQueues id
          ((s.queueOrNew id allocOk).map fun r => { r with filters := filters }) j = none := hj
        by_cases hjid : j = id
        · subst hjid
          rw [Function.update_self] at hj1
          have hnone := Option.map_eq_none_iff.mp hj1
          unfold Sys.queueOrNew at hnone
          cases hq : s.recipientQueues j with
          | none => rfl
          | some r =>
            rw [hq] at hnone
            cases hnone
        · rw [Function.update_of_ne hjid] at hj1
          exact hj1
      split
      · exact hset
      · exact hset
  | deleteRecipient id =>
    unfold step Sys.deleteRecipient
    simp only
    split
    · exact h
    · split
      · exact h
      · intro j hj
        by_cases hjid : j = id
        · rw [hjid]
          exact hover
        · have hj1 : Function.update s.recipientQueues id none j = none := hj
          rw [Function.update_of_ne hjid] at hj1
          exact h j hj1
  | create n => exact h
  | enqueue id o e =>
    by_cases ho : s.callerOwns o = true
    · simp only [step, if_pos ho]
      refine @gone_called _ _ h (fun n => s.enqueue id n e) rfl fun c hc => ?_
      obtain ⟨ids, -, hx⟩ := enqueue_handed s id c e
      exact ⟨e, ids, hc ▸ hx⟩
    · simp only [step, if_neg ho]
      exact h
  | enqueueAll o e =>
    by_cases ho : s.callerOwns o = true
    · simp only [step, if_pos ho]
      refine @gone_called _ _ h (fun n => s.enqueueAll n e) rfl fun c hc => ?_
      have hx := enqueueAll_handed s c e
      rw [hc] at hx
      exact ⟨e, List.range maxNumRecipients, hx⟩
    · simp only [step, if_neg ho]
      exact h
  | delete o =>
    by_cases ho : s.callerOwns o = true
    · simp only [step, if_pos ho]
      exact h
    · simp only [step, if_neg ho]
      exact h
  | dequeue id now =>
    unfold step Sys.dequeue
    simp only
    split
    · exact h
    · cases hq : s.recipientQueues id with
      | none => exact h
      | some r =>
        have hnot : ∀ r', Function.update s.recipientQueues id (some r') id ≠ none := by
          intro r' hr'
          rw [Function.update_self] at hr'
          cases hr'
        simp only
        split
        · rename_i r1 hd
          intro j hj
          have hjid : j ≠ id := by
            rintro rfl
            exact hnot _ hj
          have hj1 : Function.update s.recipientQueues id (some r1) j = none := hj
          rw [Function.update_of_ne hjid] at hj1
          exact h j hj1
        · rename_i r1 c hd
          intro j hj
          have hjid : j ≠ id := by
            rintro rfl
            exact hnot _ hj
          have hj1 : Function.update s.recipientQueues id (some r1) j = none := hj
          rw [Function.update_of_ne hjid] at hj1
          show Function.update s.pass id _ j = []
          rw [Function.update_of_ne hjid]
          exact h j hj1
  | lastUse id =>
    unfold step Sys.lastUse
    simp only
    split
    · exact h
    · intro j hj
      show Function.update s.pass id [] j = []
      by_cases hjid : j = id
      · rw [hjid, Function.update_self]
      · rw [Function.update_of_ne hjid]
        exact h j hj

/-! ## Runs -/

theorem queues_of_handed {f : Nat → Option RecipientQueue} {x : Sys × Bool} (hx : HandedOver s f o x) :
    x.1.recipientQueues = f := by
  rcases hx with rfl | rfl <;> rfl

theorem enqueue_agree {e e' : Env} (h : e.Agree e' r.recipientId) : r.enqueue e' c = r.enqueue e c := by
  obtain ⟨hpref, hqueueOk, hitemOk⟩ := h
  unfold RecipientQueue.enqueue
  rw [hpref, hqueueOk, hitemOk]

/-- What a recipient makes of a notification for all of them depends on its own queue and its own luck alone. -/
theorem enqueueAll_own (s s' : Sys) (c : Copy) (e e' : Env) (id : Nat)
    (hq : s'.recipientQueues id = s.recipientQueues id)
    (he : ∀ r, s.recipientQueues id = some r → e.Agree e' r.recipientId) :
    (s'.enqueueAll (some c) e').1.recipientQueues id = (s.enqueueAll (some c) e).1.recipientQueues id := by
  rw [queues_of_handed (enqueueAll_handed s' c e'), queues_of_handed (enqueueAll_handed s c e)]
  unfold turns
  rw [hq]
  cases hr : s.recipientQueues id with
  | none => rfl
  | some r => rw [Option.map_some, Option.map_some, enqueue_agree (he r hr)]

/-- Over every run the books are right. No notification reaches a recipient twice when none is offered twice to one
    that took it, `empty` is exact when no recipient is deleted in the middle of its pass, and no recipient has a part
    in what another makes of a notification. -/
theorem recipients_books (es : List Ev) :
    Always step Books start es ∧
    (Along step Fresh start es → Always step AtMostOnce start es) ∧
    (Along step PassOver start es → Always step EmptyExact start es) ∧
    ∀ (s s' : Sys) (c : Copy) (e e' : Env) (id : Nat), s'.recipientQueues id = s.recipientQueues id →
      (∀ r, s.recipientQueues id = some r → e.Agree e' r.recipientId) →
      (s'.enqueueAll (some c) e').1.recipientQueues id = (s.enqueueAll (some c) e).1.recipientQueues id := by
  have hnone : Along step (fun _ _ => True) start es := along_of_forall step fun _ _ => trivial
  refine ⟨?_, fun hfresh => ?_, fun hover => ?_, enqueueAll_own⟩
  · exact always_of_inv step (fun s e h _ => inv_step e h) (fun s h => books_of_inv h) inv_start hnone
  · refine @always_of_inv _ _ step _ _ (fun s => Inv s ∧ ∀ id, (s.copied id).Nodup)
      (fun s e h ok => copied_nodup_step e h ok) (fun s h id => ?_) _ _ ⟨inv_start, ?_⟩ hfresh
    · exact (h.2 id).sublist (received_sublist h.1 id)
    · exact fun id => List.nodup_nil
  · refine @always_of_inv _ _ step _ _ (fun s => Inv s ∧ Gone s) (fun s e h ok => ⟨inv_step e h.1, gone_step e h.2 ok⟩)
      (fun s h => emptyExact_of_inv h.1 h.2) _ _ ⟨inv_start, fun id _ => rfl⟩ hover

/-! ## Concrete runs -/

/-- Everything from every host pool. -/
def allFilters : Filters :=
  { minimumSeverity := 0, enabledCategories := .firstBits 2 128, enabledHostPools := .firstBits 64 4096
    enabledEntities := .firstBits 2 128, enabledFlowAlertTypes := 0, enabledHostAlertTypes := 0
    enabledOtherAlertTypes := 0, matchAlertId := false, skipAlerts := false, enabledTags := 0 }

def hostAlert : AlertFifoItem :=
  { alertEntity := alertEntityHost, alertSeverity := 3, alertCategory := 1, alert := "", score := 50, alertId := 7
    tagsBitmap := 0, hostPool := 0, cliHostPool := 0, srvHostPool := 0 }

/-- No allocation fails, except for the queue of the recipient. -/
def failsFor (id : Nat) : Env :=
  { doDumpFlowsOnClickhouse := false, queueOk := fun j => decide (j ≠ id), itemOk := fun _ => true }

theorem recipients_books_of_one :
    let es := [.registerRecipient 1 allFilters true, .create hostAlert, .enqueueAll 0 (failsFor 2), .dequeue 1 100,
      .lastUse 1, .deleteRecipient 1]
    let s := run step start es
    Books s ∧ AtMostOnce s ∧ EmptyExact s ∧ s.received 1 = [0] ∧ s.freed 0 = [.recipients] := by
  intro es s
  have h := recipients_books es
  have hfresh : Along step Fresh start es := by
    refine ⟨trivial, trivial, fun id => ?_, trivial, trivial, trivial, trivial⟩
    have hcopied : (start.registerRecipient 1 allFilters true).copied id = [] := copied_registerRecipient 1 _ _ id
    show 0 ∉ (start.registerRecipient 1 allFilters true).copied id
    rw [hcopied]
    exact List.not_mem_nil
  have hover : Along step PassOver start es := by
    refine ⟨trivial, trivial, trivial, trivial, trivial, ?_, trivial⟩
    show (run step start (es.take 5)).pass 1 = []
    decide
  exact ⟨always_last step h.1, always_last step (h.2.1 hfresh), always_last step (h.2.2.1 hover), by decide +kernel,
    by decide +kernel⟩

/-- The queue of recipient 2 cannot be made, the caller tries again, and recipient 1 gets the notification twice. A
    recipient that is deleted in the middle of its pass leaves its flag behind. -/
theorem received_twice_and_never_empty :
    ¬ AtMostOnce (run step start
      [.registerRecipient 1 allFilters true, .registerRecipient 2 allFilters true, .create hostAlert,
        .enqueueAll 0 (failsFor 2), .enqueueAll 0 (failsFor 0), .dequeue 1 100, .dequeue 1 100]) ∧
    ¬ EmptyExact (run step start
      [.registerRecipient 1 allFilters true, .create hostAlert, .enqueue 1 0 (failsFor 2), .dequeue 1 100,
        .deleteRecipient 1]) := by
  constructor
  · intro h
    have h1 := h 1
    revert h1
    decide +kernel
  · intro h
    revert h
    unfold EmptyExact
    decide +kernel

end Ntopng.Alerts
