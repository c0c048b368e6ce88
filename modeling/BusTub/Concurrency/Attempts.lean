import BusTub.Concurrency.EndStates

/-! # What a critical section can do

A critical section of the lock manager either tries to end a lock call, or unlocks a
rid, or leaves the queues alone. An attempt is settled by the queue that the call
finds when it tests for the lock: the counters that `DeadlockPrevent` left, with the
request of the caller in the list.
-/

namespace BusTub.LockSystem

/-- The part of the lambda of `cv_.wait` that looks at the queue. -/
def isFree : LockCall → LockRequestQueue → Bool
  | .lockShared, q => !q.isWriting
  | .lockExclusive, q | .lockUpgrade, q => !q.isWriting && decide (q.sharingCount = 0)

/-- What `DeadlockPrevent` leaves of the counters when it goes through the requests. -/
def woundQueue (t : TxnId) (requests : List LockRequest) (q : LockRequestQueue) :
    LockRequestQueue :=
  { q with
    sharingCount := q.sharingCount - (younger t requests).countP (fun r => r.lockMode = .shared)
    isWriting := q.isWriting && (younger t requests).all (fun r => r.lockMode = .shared) }

/-- What a grant makes of the queue. -/
def grantedQueue (t : TxnId) (q : LockRequestQueue) : LockCall → LockRequestQueue
  | .lockShared => { q with
      sharingCount := q.sharingCount + 1
      requestQueue := modifyRequest t (fun r => { r with granted := true }) q.requestQueue }
  | .lockExclusive => { q with
      isWriting := true
      requestQueue := modifyRequest t (fun r => { r with granted := true }) q.requestQueue }
  | .lockUpgrade => { q with
      upgrading := false
      isWriting := true
      requestQueue := modifyRequest t (fun r => { r with granted := true }) q.requestQueue }

/-- What a grant makes of the caller. -/
def grantedTxn (rid : RID) (txn : Transaction) : LockCall → Transaction
  | .lockShared => { txn with sharedLockSet := insert rid txn.sharedLockSet }
  | .lockExclusive | .lockUpgrade =>
      { txn with exclusiveLockSet := insert rid txn.exclusiveLockSet }

/-- A lock call that has its request in the queue and goes on to test for the lock. -/
structure Attempt where
  txnId : TxnId
  rid : RID
  call : LockCall
  /-- The queue that the test sees. -/
  queue : LockRequestQueue
  /-- The caller. -/
  txn : Transaction
  /-- The call is in `cv_.wait`; otherwise it found the lock free at once. -/
  waits : Bool

namespace Attempt

variable (a : Attempt)

/-- `CheckAborted` throws. -/
def aborted : Bool := a.txn.state = .aborted

/-- The lock is there for the taking. -/
def passes : Bool := !a.waits || isFree a.call a.queue

/-- The call returns true. -/
def granted : Bool := !a.aborted && a.passes

/-- The queue at the end of the critical section. -/
def settledQueue : LockRequestQueue :=
  if a.aborted then { a.queue with requestQueue := eraseRequest a.txnId a.queue.requestQueue }
  else if a.passes then grantedQueue a.txnId a.queue a.call
  else a.queue

/-- The caller at the end of the critical section. -/
def settledTxn : Transaction :=
  if a.granted then grantedTxn a.rid a.txn a.call else a.txn

/-- How the critical section ends. -/
def settledOutcome : LockOutcome :=
  if a.aborted then .threw .deadlock else if a.passes then .returned true else .blocked

/-- The thread of the caller at the end of the critical section. -/
def settledThread : Thread :=
  if a.aborted || a.passes then .idle else .waiting a.call a.rid false

end Attempt

/-- The lock call of the caller with its request at the end of the queue. -/
def newAttempt (s : LockSystem) (t : TxnId) (rid : RID) (call : LockCall) (mode : LockMode)
    (busy : Bool) : Attempt :=
  let q := s.queue rid
  let queued := { q with requestQueue := q.requestQueue ++ [⟨t, mode, false⟩] }
  ⟨t, rid, call, if busy then woundQueue t q.requestQueue queued else queued, s.txns t, busy⟩

/-- The upgrade of the caller, which has given up its shared lock. -/
def upgradeAttempt (s : LockSystem) (t : TxnId) (rid : RID) : Attempt :=
  let q := (s.dropShared t rid).queue rid
  let busy := exclusiveBusy q
  ⟨t, rid, .lockUpgrade,
    if busy then { woundQueue t q.requestQueue q with upgrading := true } else q,
    (s.dropShared t rid).txns t, busy⟩

/-- The call on the queue as it is. -/
def wakeAttempt (s : LockSystem) (t : TxnId) (rid : RID) (call : LockCall) (waits : Bool) :
    Attempt :=
  ⟨t, rid, call, s.queue rid, s.txns t, waits⟩

/-- The attempt that a critical section makes, if it gets that far. -/
def attempt (s : LockSystem) : Event → Option Attempt
  | .lockShared t rid =>
      if (s.txns t).isolationLevel = .readUncommitted ∨ (s.txns t).state = .shrinking then none
      else some (s.newAttempt t rid .lockShared .shared (s.queue rid).isWriting)
  | .lockExclusive t rid =>
      if (s.txns t).state = .shrinking then none
      else some (s.newAttempt t rid .lockExclusive .exclusive (exclusiveBusy (s.queue rid)))
  | .lockUpgrade t rid =>
      if (s.txns t).state = .shrinking ∨ (s.queue rid).upgrading then none
      else some (s.upgradeAttempt t rid)
  | .wake t =>
      match s.threads t with
      | .waiting call rid _ => some (s.wakeAttempt t rid call true)
      | _ => none
  | _ => none

variable {s : LockSystem} {t u : TxnId} {rid other : RID} {e : Event} {a : Attempt}
  {outcome : LockOutcome} {final : LockSystem}

/-! ## The requests of an attempt -/

theorem requestQueue_newAttempt (call : LockCall) (mode : LockMode) (busy : Bool) :
    (s.newAttempt t rid call mode busy).queue.requestQueue =
      (s.queue rid).requestQueue ++ [⟨t, mode, false⟩] := by
  cases busy <;> rfl

theorem requestQueue_upgradeAttempt : (s.upgradeAttempt t rid).queue.requestQueue =
    modifyRequest t (fun r => { r with lockMode := .exclusive, granted := false })
      (s.queue rid).requestQueue := by
  unfold upgradeAttempt
  dsimp only
  split <;> simp [woundQueue]

theorem requestQueue_granted (q : LockRequestQueue) (call : LockCall) :
    (grantedQueue t q call).requestQueue =
      modifyRequest t (fun r => { r with granted := true }) q.requestQueue := by
  cases call <;> rfl

/-- The state of the caller is not written. -/
theorem Attempt.settledTxn_state (a : Attempt) : a.settledTxn.state = a.txn.state := by
  obtain ⟨t, rid, call, q, txn, waits⟩ := a
  unfold Attempt.settledTxn
  split
  · cases call <;> rfl
  · rfl

/-! ## DeadlockPrevent on the counters -/

theorem foldl_woundRequest_queue_of_ne (hne : other ≠ rid) (requests : List LockRequest) :
    (requests.foldl (woundRequest t rid) s).queue other = s.queue other := by
  induction requests generalizing s with
  | nil => rfl
  | cons request rest ih =>
      rw [List.foldl_cons, ih]
      unfold woundRequest
      split
      · dsimp only
        split <;> rw [queue_setQueue_of_ne _ hne, queue_setState]
      · rfl

theorem foldl_woundRequest_queue (requests : List LockRequest) :
    (requests.foldl (woundRequest t rid) s).queue rid = woundQueue t requests (s.queue rid) := by
  induction requests generalizing s with
  | nil => simp [woundQueue, younger]
  | cons request rest ih =>
      rw [List.foldl_cons, ih]
      unfold woundRequest woundQueue
      rw [younger_cons]
      by_cases hyoung : request.granted ∧ t < request.txnId
      · rw [if_pos hyoung, if_pos hyoung]
        dsimp only
        cases hmode : request.lockMode with
        | shared =>
            dsimp only
            rw [queue_setQueue_self, queue_setState, List.countP_cons_of_pos (by simp [hmode])]
            simp only [hmode, List.all_cons, decide_true, Bool.true_and, LockRequestQueue.mk.injEq,
              and_true, true_and]
            push_cast
            omega
        | exclusive =>
            dsimp only
            rw [queue_setQueue_self, queue_setState, List.countP_cons_of_neg (by simp [hmode])]
            simp [hmode]
      · rw [if_neg hyoung, if_neg hyoung]

theorem queue_deadlockPrevent :
    (s.deadlockPrevent t rid).queue rid =
      woundQueue t (s.queue rid).requestQueue (s.queue rid) :=
  foldl_woundRequest_queue _

theorem queue_deadlockPrevent_of_ne (hne : other ≠ rid) :
    (s.deadlockPrevent t rid).queue other = s.queue other :=
  foldl_woundRequest_queue_of_ne hne _

/-! ## How an attempt is settled -/

theorem canProceed_eq (call : LockCall) : s.canProceed t rid call =
    (decide ((s.txns t).state = .aborted) || isFree call (s.queue rid)) := by
  cases call <;> simp [canProceed, isFree]

/-- The attempt is settled: the queue, the caller and its thread are what the test made
of them. Of the rest only the states of those that were wounded differ. -/
structure Settles (s : LockSystem) (wounded : TxnId → Prop) (a : Attempt) (outcome : LockOutcome)
    (final : LockSystem) : Prop where
  outcome : outcome = a.settledOutcome
  queue : final.queue a.rid = a.settledQueue
  queue_of_ne : ∀ other, other ≠ a.rid → final.queue other = s.queue other
  txn : final.txns a.txnId = a.settledTxn
  victim : ∀ u, u ≠ a.txnId → wounded u → final.txns u = { s.txns u with state := .aborted }
  txns_of_ne : ∀ u, u ≠ a.txnId → ¬ wounded u → final.txns u = s.txns u
  threads : final.threads = Function.update s.threads a.txnId a.settledThread

theorem settles_finish (call : LockCall) :
    s.Settles (fun _ => False) (s.wakeAttempt t rid call false) (s.finish t rid call).1
      (s.finish t rid call).2 := by
  unfold finish
  dsimp only
  by_cases haborted : (s.txns t).state = .aborted
  · rw [txns_setThread, if_pos haborted]
    constructor <;> simp [wakeAttempt, Attempt.settledOutcome, Attempt.settledQueue,
      Attempt.settledTxn, Attempt.settledThread, Attempt.granted, Attempt.aborted, haborted]
    exact fun other hne => queue_setQueue_of_ne _ hne _
  · rw [txns_setThread, if_neg haborted]
    cases call
    all_goals
      constructor <;> simp +contextual [wakeAttempt, grant, Attempt.settledOutcome,
        Attempt.settledQueue, Attempt.settledTxn, Attempt.settledThread, Attempt.granted, Attempt.aborted,
        Attempt.passes, grantedQueue, grantedTxn, haborted, queue_setQueue_of_ne]

theorem settles_wait (call : LockCall) :
    s.Settles (fun _ => False) (s.wakeAttempt t rid call true) (s.wait t rid call).1
      (s.wait t rid call).2 := by
  unfold wait
  rw [canProceed_eq]
  by_cases haborted : (s.txns t).state = .aborted
  · rw [if_pos (by simp [haborted])]
    have hfinish : s.Settles (fun _ => False) (s.wakeAttempt t rid call false)
        (s.finish t rid call).1 (s.finish t rid call).2 := settles_finish call
    refine ⟨?_, ?_, hfinish.queue_of_ne, ?_, hfinish.victim, hfinish.txns_of_ne, ?_⟩
    · refine hfinish.outcome.trans ?_
      simp [Attempt.settledOutcome, Attempt.aborted, wakeAttempt, haborted]
    · refine hfinish.queue.trans ?_
      simp [Attempt.settledQueue, Attempt.aborted, wakeAttempt, haborted]
    · refine hfinish.txn.trans ?_
      simp [Attempt.settledTxn, Attempt.granted, Attempt.aborted, wakeAttempt, haborted]
    · refine hfinish.threads.trans ?_
      simp [Attempt.settledThread, Attempt.aborted, wakeAttempt, haborted]
  · cases hfree : isFree call (s.queue rid) with
    | true =>
        rw [if_pos (by simp)]
        have hfinish : s.Settles (fun _ => False) (s.wakeAttempt t rid call false)
            (s.finish t rid call).1 (s.finish t rid call).2 := settles_finish call
        have hpasses : (s.wakeAttempt t rid call true).passes := by
          simp [Attempt.passes, wakeAttempt, hfree]
        have hpassed : (s.wakeAttempt t rid call false).passes := by
          simp [Attempt.passes, wakeAttempt]
        refine ⟨?_, ?_, hfinish.queue_of_ne, ?_, hfinish.victim, hfinish.txns_of_ne, ?_⟩
        · refine hfinish.outcome.trans ?_
          simp only [Attempt.settledOutcome, hpasses, hpassed]
          rfl
        · refine hfinish.queue.trans ?_
          simp only [Attempt.settledQueue, hpasses, hpassed]
          rfl
        · refine hfinish.txn.trans ?_
          simp only [Attempt.settledTxn, Attempt.granted, hpasses, hpassed]
          rfl
        · refine hfinish.threads.trans ?_
          simp only [Attempt.settledThread, hpasses, hpassed]
          rfl
    | false =>
        rw [if_neg (by simp [haborted])]
        constructor <;> simp +contextual [wakeAttempt, Attempt.settledOutcome, Attempt.settledQueue,
          Attempt.settledTxn, Attempt.settledThread, Attempt.granted, Attempt.aborted,
          Attempt.passes, haborted, hfree]

/-- What comes before the test: the caller's own request, and the wounds. -/
theorem Settles.of_middle {middle final : LockSystem} {a : Attempt} {outcome : LockOutcome}
    {wounded : TxnId → Prop} (h : middle.Settles (fun _ => False) a outcome final)
    (hqueue : ∀ other, other ≠ a.rid → middle.queue other = s.queue other)
    (hvictim : ∀ u, u ≠ a.txnId → wounded u →
      middle.txns u = { s.txns u with state := .aborted })
    (htxns : ∀ u, u ≠ a.txnId → ¬ wounded u → middle.txns u = s.txns u)
    (hthreads : middle.threads = s.threads) : s.Settles wounded a outcome final where
  outcome := h.outcome
  queue := h.queue
  queue_of_ne other hne := (h.queue_of_ne other hne).trans (hqueue other hne)
  txn := h.txn
  victim u hne hu := (h.txns_of_ne u hne not_false).trans (hvictim u hne hu)
  txns_of_ne u hne hu := (h.txns_of_ne u hne not_false).trans (htxns u hne hu)
  threads := by rw [h.threads, hthreads]

theorem deadlockPrevent_own : (s.deadlockPrevent t rid).txns t = s.txns t := by
  rw [deadlockPrevent_txns, if_neg (not_woundedBy_self s t rid)]

/-- A new request is settled by the queue that `DeadlockPrevent` leaves. -/
theorem settles_settle (call : LockCall) (mode : LockMode) (busy : Bool) :
    s.Settles (fun u => busy ∧ s.WoundedBy t rid u) (s.newAttempt t rid call mode busy)
      ((s.enqueue t rid mode).settle t rid call busy).1
      ((s.enqueue t rid mode).settle t rid call busy).2 := by
  unfold settle
  cases busy with
  | true =>
      have hattempt : ((s.enqueue t rid mode).deadlockPrevent t rid).wakeAttempt t rid call true =
          s.newAttempt t rid call mode true := by
        unfold wakeAttempt newAttempt
        rw [queue_deadlockPrevent, deadlockPrevent_own, queue_enqueue_self]
        simp [woundQueue, younger_append_ungranted]
      rw [if_pos rfl, ← hattempt]
      refine (settles_wait call).of_middle ?_ ?_ ?_ ?_
      · intro other hne
        exact (queue_deadlockPrevent_of_ne hne).trans (queue_enqueue_of_ne s t hne mode)
      · rintro u - ⟨-, hwound⟩
        rw [deadlockPrevent_txns, if_pos ((woundedBy_enqueue s t rid mode u).mpr hwound)]
        rfl
      · intro u _ hnot
        rw [deadlockPrevent_txns, if_neg]
        · rfl
        · exact fun hwound => hnot ⟨rfl, (woundedBy_enqueue s t rid mode u).mp hwound⟩
      · rw [threads_deadlockPrevent, threads_enqueue]
  | false =>
      have hattempt : (s.enqueue t rid mode).wakeAttempt t rid call false =
          s.newAttempt t rid call mode false := by
        unfold wakeAttempt newAttempt
        rw [queue_enqueue_self]
        rfl
      rw [if_neg Bool.noConfusion, ← hattempt]
      refine (settles_finish call).of_middle ?_ ?_ ?_ rfl
      · exact fun other hne => queue_enqueue_of_ne s t hne mode
      · exact fun u _ hwound => Bool.noConfusion hwound.1
      · exact fun u _ _ => rfl

theorem setUpgrading_queue_of_ne (hne : other ≠ rid) :
    (s.setUpgrading rid).queue other = s.queue other :=
  queue_setQueue_of_ne _ hne _

/-- So is an upgrade, which gives up the shared lock before. -/
theorem settles_settleUpgrade :
    s.Settles (fun u => exclusiveBusy ((s.dropShared t rid).queue rid) ∧
        (s.dropShared t rid).WoundedBy t rid u) (s.upgradeAttempt t rid)
      ((s.dropShared t rid).settleUpgrade t rid
        (exclusiveBusy ((s.dropShared t rid).queue rid))).1
      ((s.dropShared t rid).settleUpgrade t rid
        (exclusiveBusy ((s.dropShared t rid).queue rid))).2 := by
  unfold settleUpgrade
  cases hbusy : exclusiveBusy ((s.dropShared t rid).queue rid) with
  | true =>
      have hattempt : (((s.dropShared t rid).deadlockPrevent t rid).setUpgrading rid).wakeAttempt t
          rid .lockUpgrade true = s.upgradeAttempt t rid := by
        unfold wakeAttempt upgradeAttempt
        rw [txns_setUpgrading, deadlockPrevent_own, setUpgrading, queue_setQueue_self,
          queue_deadlockPrevent]
        simp only [hbusy, if_true]
      rw [if_pos rfl, ← hattempt]
      refine (settles_wait .lockUpgrade).of_middle ?_ ?_ ?_ ?_
      · intro other hne
        have hother : other ≠ rid := hne
        rw [setUpgrading_queue_of_ne hother, queue_deadlockPrevent_of_ne hother,
          queue_dropShared_of_ne s t hother]
      · rintro u hne ⟨-, hwound⟩
        have hother : u ≠ t := hne
        rw [txns_setUpgrading, deadlockPrevent_txns, if_pos hwound,
          txns_dropShared_of_ne s rid hother]
      · intro u hne hnot
        have hother : u ≠ t := hne
        rw [txns_setUpgrading, deadlockPrevent_txns, if_neg fun hwound => hnot ⟨rfl, hwound⟩,
          txns_dropShared_of_ne s rid hother]
      · rw [threads_setUpgrading, threads_deadlockPrevent]
        rfl
  | false =>
      have hattempt : (s.dropShared t rid).wakeAttempt t rid .lockUpgrade false =
          s.upgradeAttempt t rid := by
        unfold wakeAttempt upgradeAttempt
        simp only [hbusy, Bool.false_eq_true, if_false]
      rw [if_neg Bool.noConfusion, ← hattempt]
      refine (settles_finish .lockUpgrade).of_middle ?_ ?_ ?_ rfl
      · exact fun other hne => queue_dropShared_of_ne s t hne
      · exact fun u _ hwound => Bool.noConfusion hwound.1
      · exact fun u hne _ => txns_dropShared_of_ne s rid hne

theorem Settles.congr {final : LockSystem} {a : Attempt} {outcome : LockOutcome}
    {wounded wounded' : TxnId → Prop} (h : s.Settles wounded a outcome final)
    (hiff : ∀ u, wounded' u ↔ wounded u) : s.Settles wounded' a outcome final where
  outcome := h.outcome
  queue := h.queue
  queue_of_ne := h.queue_of_ne
  txn := h.txn
  victim u hne hu := h.victim u hne ((hiff u).mp hu)
  txns_of_ne u hne hu := h.txns_of_ne u hne fun hwound => hu ((hiff u).mpr hwound)
  threads := h.threads

/-! ## The cases of a critical section -/

/-- The thread does not sleep in a lock call. -/
def Awake (s : LockSystem) (t : TxnId) : Prop :=
  ∀ call rid notified, s.threads t ≠ .waiting call rid notified

theorem awake_of_idle (hidle : s.threads t = .idle) : s.Awake t := by
  intro call rid notified hthread
  rw [hidle] at hthread
  cases hthread

theorem awake_of_releasing {lockSet : Finset RID} (hthread : s.threads t = .releasing lockSet) :
    s.Awake t := by
  intro call rid notified hwaiting
  rw [hthread] at hwaiting
  cases hwaiting

/-- The critical section leaves queues and lock sets alone: it refuses a lock call, or it
is the beginning of `Commit` or `Abort`. -/
structure Quiet (s : LockSystem) (outcome : LockOutcome) (final : LockSystem) : Prop where
  outcome : outcome ≠ .returned true
  queue : ∀ rid, final.queue rid = s.queue rid
  sharedLockSet : ∀ u, (final.txns u).sharedLockSet = (s.txns u).sharedLockSet
  exclusiveLockSet : ∀ u, (final.txns u).exclusiveLockSet = (s.txns u).exclusiveLockSet
  threads : ∀ u, final.threads u = s.threads u ∨ s.Awake u ∧ final.Awake u
  txns : ∀ u, final.txns u = s.txns u ∨ s.Awake u

/-- The critical section is an `Unlock`, called by the transaction or in `ReleaseLocks`. -/
structure Unlocks (s : LockSystem) (t : TxnId) (rid : RID) (final : LockSystem) : Prop where
  awake : s.Awake t
  awake_after : final.Awake t
  unlock : ∃ middle, s.unlock t rid = some middle ∧
    (final = middle ∨ ∃ lockSet, final = middle.releaseRest t lockSet)

theorem awake_releaseRest (lockSet : Finset RID) : (s.releaseRest t lockSet).Awake t := by
  intro call other notified
  unfold releaseRest
  rw [threads_setThread, Function.update_self]
  split <;> exact Thread.noConfusion

theorem quiet_refuse (hidle : s.threads t = .idle) {reason : AbortReason} {final : LockSystem}
    (hfinal : final = s.setState t .aborted ∨ final = (s.register t).setState t .aborted) :
    s.Quiet (.threw reason) final := by
  have hlocks : ∀ u, (Function.update s.txns t { s.txns t with state := .aborted } u).sharedLockSet =
      (s.txns u).sharedLockSet ∧
      (Function.update s.txns t { s.txns t with state := .aborted } u).exclusiveLockSet =
        (s.txns u).exclusiveLockSet := by
    intro u
    by_cases hself : u = t
    · subst hself
      simp
    · simp [hself]
  have htxns : ∀ u, Function.update s.txns t { s.txns t with state := .aborted } u = s.txns u ∨
      s.Awake u := by
    intro u
    by_cases hself : u = t
    · subst hself
      exact Or.inr (awake_of_idle hidle)
    · exact Or.inl (Function.update_of_ne hself _ _)
  rcases hfinal with rfl | rfl
  · exact ⟨LockOutcome.noConfusion, fun _ => rfl, fun u => (hlocks u).1, fun u => (hlocks u).2,
      fun _ => Or.inl rfl, htxns⟩
  · exact ⟨LockOutcome.noConfusion, fun _ => rfl, fun u => (hlocks u).1, fun u => (hlocks u).2,
      fun _ => Or.inl rfl, htxns⟩

theorem quiet_endTxn (hidle : s.threads t = .idle) (state : TransactionState) :
    s.Quiet .releasing (s.endTxn t state) := by
  refine ⟨LockOutcome.noConfusion, fun _ => rfl, ?_, ?_, ?_, ?_⟩
  · intro u
    by_cases hself : u = t
    · subst hself
      simp [endTxn, releaseRest]
    · simp [endTxn, releaseRest, hself]
  · intro u
    by_cases hself : u = t
    · subst hself
      simp [endTxn, releaseRest]
    · simp [endTxn, releaseRest, hself]
  · intro u
    by_cases hself : u = t
    · subst hself
      exact Or.inr ⟨awake_of_idle hidle, awake_releaseRest _⟩
    · exact Or.inl (Function.update_of_ne hself _ _)
  · intro u
    by_cases hself : u = t
    · subst hself
      exact Or.inr (awake_of_idle hidle)
    · exact Or.inl (Function.update_of_ne hself _ _)

theorem unlocks_awake {middle : LockSystem} (hunlock : s.unlock t rid = some middle)
    (hawake : s.Awake t) : middle.Awake t := by
  intro call other notified hthread
  rcases threads_unlock s t rid hunlock t with hsame | ⟨call', ⟨earlier, hwaiting⟩, -⟩
  · exact hawake call other notified (hsame ▸ hthread)
  · exact hawake call' rid earlier hwaiting

/-- Everything a critical section can do. -/
theorem step_cases {e : Event} {outcome : LockOutcome} {final : LockSystem}
    (hstep : s.step e = .ok (outcome, final)) :
    (∃ a, s.attempt e = some a ∧ s.Settles (s.Wounds · e) a outcome final) ∨
    (∃ t rid, (e = .unlock t rid ∨ e = .release t rid) ∧ s.Unlocks t rid final) ∨
    (s.attempt e = none ∧ s.Quiet outcome final) := by
  cases e with
  | lockShared t rid =>
      obtain ⟨hidle, hcall⟩ := step_lockShared _ _ _ hstep
      by_cases hlevel : (s.txns t).isolationLevel = .readUncommitted
      · rw [lockShared_of_level _ _ _ hlevel] at hcall
        cases hcall
        exact Or.inr (Or.inr ⟨if_pos (Or.inl hlevel), quiet_refuse hidle (Or.inr rfl)⟩)
      · by_cases hshrink : (s.txns t).state = .shrinking
        · rw [lockShared_of_shrinking _ _ _ hlevel hshrink] at hcall
          cases hcall
          exact Or.inr (Or.inr ⟨if_pos (Or.inr hshrink), quiet_refuse hidle (Or.inr rfl)⟩)
        · rw [lockShared_of_passed _ _ _ hlevel hshrink] at hcall
          refine Or.inl ⟨_, if_neg fun hor => hor.elim hlevel hshrink, ?_⟩
          -- while a writer holds the record, a shared lock wounds the younger requests
          have hsettles := @settles_settle s t rid .lockShared .shared
            (s.queue rid).isWriting
          rw [hcall] at hsettles
          refine hsettles.congr fun u => ?_
          simp [Wounds, hlevel, hshrink]
  | lockExclusive t rid =>
      obtain ⟨hidle, hcall⟩ := step_lockExclusive _ _ _ hstep
      by_cases hshrink : (s.txns t).state = .shrinking
      · rw [lockExclusive_of_shrinking _ _ _ hshrink] at hcall
        cases hcall
        exact Or.inr (Or.inr ⟨if_pos hshrink, quiet_refuse hidle (Or.inr rfl)⟩)
      · rw [lockExclusive_of_passed _ _ _ hshrink] at hcall
        refine Or.inl ⟨_, if_neg hshrink, ?_⟩
        have hsettles := @settles_settle s t rid .lockExclusive .exclusive
          (exclusiveBusy (s.queue rid))
        rw [hcall] at hsettles
        refine hsettles.congr fun u => ?_
        simp [Wounds, hshrink, exclusiveBusy]
  | lockUpgrade t rid =>
      obtain ⟨hidle, hcall⟩ := step_lockUpgrade _ _ _ hstep
      rcases lockUpgrade_cases s t rid hcall with
        ⟨hshrink, hresult⟩ | ⟨hshrink, hupgrading, hresult⟩ | ⟨hshrink, hupgrading, -, hresult⟩
      · cases hresult
        exact Or.inr (Or.inr ⟨if_pos (Or.inl hshrink), quiet_refuse hidle (Or.inl rfl)⟩)
      · cases hresult
        exact Or.inr (Or.inr ⟨if_pos (Or.inr hupgrading), quiet_refuse hidle (Or.inl rfl)⟩)
      · refine Or.inl ⟨s.upgradeAttempt t rid, if_neg ?_, ?_⟩
        · simp [hshrink, hupgrading]
        · have hsettles := @settles_settleUpgrade s t rid
          rw [← hresult] at hsettles
          refine hsettles.congr fun u => ?_
          simp [Wounds, hshrink, hupgrading, exclusiveBusy]
  | unlock t rid =>
      obtain ⟨hidle, -, hunlock⟩ := step_unlock _ _ _ hstep
      exact Or.inr (Or.inl ⟨t, rid, Or.inl rfl, awake_of_idle hidle,
        unlocks_awake hunlock (awake_of_idle hidle), final, hunlock, Or.inl rfl⟩)
  | commit t =>
      obtain ⟨hidle, rfl, rfl⟩ := step_commit _ _ hstep
      exact Or.inr (Or.inr ⟨rfl, quiet_endTxn hidle _⟩)
  | abort t =>
      obtain ⟨hidle, rfl, rfl⟩ := step_abort _ _ hstep
      exact Or.inr (Or.inr ⟨rfl, quiet_endTxn hidle _⟩)
  | wake t =>
      -- a thread that wakes up tries again what it was waiting for
      obtain ⟨call, rid, notified, hthread, hwait⟩ := step_wake _ _ hstep
      refine Or.inl ⟨s.wakeAttempt t rid call true, ?_, ?_⟩
      · simp only [attempt, hthread]
      · have hsettles := @settles_wait s t rid call
        rw [hwait] at hsettles
        exact hsettles.congr fun _ => Iff.rfl
  | release t rid =>
      obtain ⟨lockSet, middle, hthread, -, -, hunlock, rfl⟩ := step_release _ _ _ hstep
      exact Or.inr (Or.inl ⟨t, rid, Or.inr rfl, awake_of_releasing hthread,
        awake_releaseRest _, middle, hunlock, Or.inr ⟨_, rfl⟩⟩)

/-- The critical section is one of a lock call of the transaction. -/
def Event.IsLockCallOf (t : TxnId) : Event → Prop
  | .lockShared caller _ | .lockExclusive caller _ | .lockUpgrade caller _ | .wake caller =>
      caller = t
  | _ => False

/-- The critical sections that make an attempt, with the tests that they have passed. -/
theorem attempt_cases (ha : s.attempt e = some a) :
    (∃ t rid, e = .lockShared t rid ∧ (s.txns t).isolationLevel ≠ .readUncommitted ∧
      (s.txns t).state ≠ .shrinking ∧
      a = s.newAttempt t rid .lockShared .shared (s.queue rid).isWriting) ∨
    (∃ t rid, e = .lockExclusive t rid ∧ (s.txns t).state ≠ .shrinking ∧
      a = s.newAttempt t rid .lockExclusive .exclusive (exclusiveBusy (s.queue rid))) ∨
    (∃ t rid, e = .lockUpgrade t rid ∧ (s.txns t).state ≠ .shrinking ∧
      (s.queue rid).upgrading = false ∧ a = s.upgradeAttempt t rid) ∨
    (∃ t call rid notified, e = .wake t ∧ s.threads t = .waiting call rid notified ∧
      a = s.wakeAttempt t rid call true) := by
  cases e with
  | lockShared t rid =>
      simp only [attempt] at ha
      split at ha
      · cases ha
      next hpassed =>
        rw [not_or] at hpassed
        exact Or.inl ⟨t, rid, rfl, hpassed.1, hpassed.2, (Option.some.inj ha).symm⟩
  | lockExclusive t rid =>
      simp only [attempt] at ha
      split at ha
      · cases ha
      next hpassed => exact Or.inr (Or.inl ⟨t, rid, rfl, hpassed, (Option.some.inj ha).symm⟩)
  | lockUpgrade t rid =>
      simp only [attempt] at ha
      split at ha
      · cases ha
      next hpassed =>
        rw [not_or, Bool.not_eq_true] at hpassed
        exact Or.inr (Or.inr (Or.inl
          ⟨t, rid, rfl, hpassed.1, hpassed.2, (Option.some.inj ha).symm⟩))
  | wake t =>
      simp only [attempt] at ha
      split at ha
      next call rid notified hthread =>
        exact Or.inr (Or.inr (Or.inr
          ⟨t, call, rid, notified, rfl, hthread, (Option.some.inj ha).symm⟩))
      · cases ha
  | unlock | commit | abort | release => cases ha

/-- Only a lock call makes an attempt, on its own transaction. -/
theorem attempt_isLockCallOf (ha : s.attempt e = some a) : e.IsLockCallOf a.txnId := by
  rcases attempt_cases ha with ⟨t, rid, rfl, -, -, rfl⟩ | ⟨t, rid, rfl, -, rfl⟩ |
    ⟨t, rid, rfl, -, -, rfl⟩ | ⟨t, call, rid, notified, rfl, -, rfl⟩
  all_goals rfl

theorem Event.IsLockCallOf.unique (ht : e.IsLockCallOf t) (hu : e.IsLockCallOf u) : t = u := by
  cases e with
  | lockShared | lockExclusive | lockUpgrade | wake => exact ht.symm.trans hu
  | unlock | commit | abort | release => exact ht.elim

/-- The caller is looked at as it was before the call. -/
theorem attempt_state (ha : s.attempt e = some a) : a.txn.state = (s.txns a.txnId).state := by
  rcases attempt_cases ha with ⟨t, rid, rfl, -, -, rfl⟩ | ⟨t, rid, rfl, -, rfl⟩ |
    ⟨t, rid, rfl, -, -, rfl⟩ | ⟨t, call, rid, notified, rfl, -, rfl⟩
  · rfl
  · rfl
  · exact dropShared_state s t t rid
  · rfl

/-- A thread that sleeps after a critical section of another one has slept before. -/
theorem waiting_before (hstep : s.step e = .ok (outcome, final)) (hcall : ¬ e.IsLockCallOf u)
    {call : LockCall} {notified : Bool} (hthread : final.threads u = .waiting call rid notified) :
    ∃ earlier, s.threads u = .waiting call rid earlier := by
  rcases step_cases hstep with ⟨a, ha, hsettles⟩ | ⟨t, other, -, hunlocks⟩ | ⟨-, hquiet⟩
  · have hne : u ≠ a.txnId := by
      rintro rfl
      exact hcall (attempt_isLockCallOf ha)
    rw [hsettles.threads, Function.update_of_ne hne] at hthread
    exact ⟨notified, hthread⟩
  · have hne : u ≠ t := by
      rintro rfl
      exact hunlocks.awake_after call rid notified hthread
    obtain ⟨middle, hunlock, hfinal⟩ := hunlocks.unlock
    have hmiddle : middle.threads u = .waiting call rid notified := by
      rcases hfinal with rfl | ⟨lockSet, rfl⟩
      · exact hthread
      · rwa [releaseRest, threads_setThread, Function.update_of_ne hne] at hthread
    rcases threads_unlock s t other hunlock u with hsame | ⟨call', ⟨earlier, hearlier⟩, hnotified⟩
    · exact ⟨notified, hsame ▸ hmiddle⟩
    · rw [hmiddle] at hnotified
      cases hnotified
      exact ⟨earlier, hearlier⟩
  · rcases hquiet.threads u with hsame | ⟨-, hafter⟩
    · exact ⟨notified, hsame ▸ hthread⟩
    · exact absurd hthread (hafter call rid notified)

theorem step_awake (hstep : s.step e = .ok (outcome, final)) (hcall : ¬ e.IsLockCallOf t)
    (hawake : s.Awake t) : final.Awake t := by
  intro call rid notified hthread
  obtain ⟨earlier, hearlier⟩ := waiting_before hstep hcall hthread
  exact hawake call rid earlier hearlier

theorem attempt_of_refuses (hrefuses : s.Refuses t e) : s.attempt e = none := by
  cases e with
  | lockShared caller rid =>
      obtain ⟨rfl, hcase⟩ := hrefuses
      exact if_pos hcase
  | lockExclusive caller rid =>
      obtain ⟨rfl, hcase⟩ := hrefuses
      exact if_pos hcase
  | lockUpgrade caller rid =>
      obtain ⟨rfl, hcase⟩ := hrefuses
      exact if_pos hcase
  | unlock | commit | abort | wake | release => exact hrefuses.elim

/-- Who wounds has put a request into the queue before. -/
theorem attempt_of_wounds (hwounds : s.Wounds u e) : s.attempt e ≠ none := by
  cases e with
  | lockShared t rid =>
      obtain ⟨hlevel, hshrink, -⟩ := hwounds
      simp [attempt, hlevel, hshrink]
  | lockExclusive t rid =>
      obtain ⟨hshrink, -⟩ := hwounds
      simp [attempt, hshrink]
  | lockUpgrade t rid =>
      obtain ⟨hshrink, hupgrading, -⟩ := hwounds
      simp [attempt, hshrink, hupgrading]
  | unlock | commit | abort | wake | release => exact hwounds.elim

/-- A caller wounds younger transactions only. -/
theorem lt_of_wounds (ha : s.attempt e = some a) (hwounds : s.Wounds u e) : a.txnId < u := by
  have hyounger : ∀ s : LockSystem, ∀ t rid, s.WoundedBy t rid u → t < u := by
    rintro s t rid ⟨request, hmem, rfl⟩
    exact ((mem_younger t).mp hmem).2.2
  rcases attempt_cases ha with ⟨t, rid, rfl, -, -, rfl⟩ | ⟨t, rid, rfl, -, rfl⟩ |
    ⟨t, rid, rfl, -, -, rfl⟩ | ⟨t, call, rid, notified, rfl, -, rfl⟩
  · exact hyounger _ _ _ hwounds.2.2.2
  · exact hyounger _ _ _ hwounds.2.2
  · exact hyounger _ _ _ hwounds.2.2.2
  · exact hwounds.elim

/-- The rid that a lock call is for. -/
def Event.target : Event → Option RID
  | .lockShared _ rid | .lockExclusive _ rid | .lockUpgrade _ rid => some rid
  | _ => none

theorem target_of_wounds (ha : s.attempt e = some a) (hwounds : s.Wounds u e) :
    e.target = some a.rid := by
  rcases attempt_cases ha with ⟨t, rid, rfl, -, -, rfl⟩ | ⟨t, rid, rfl, -, rfl⟩ |
    ⟨t, rid, rfl, -, -, rfl⟩ | ⟨t, call, rid, notified, rfl, -, rfl⟩
  · rfl
  · rfl
  · rfl
  · exact hwounds.elim

/-- A lock call that makes no attempt was refused at its start. -/
theorem idle_of_attempt_none (hstep : s.step e = .ok (outcome, final))
    (hcall : e.IsLockCallOf t) (hnone : s.attempt e = none) : s.threads t = .idle := by
  cases e with
  | lockShared caller rid =>
      obtain rfl : caller = t := hcall
      exact (step_lockShared _ _ _ hstep).1
  | lockExclusive caller rid =>
      obtain rfl : caller = t := hcall
      exact (step_lockExclusive _ _ _ hstep).1
  | lockUpgrade caller rid =>
      obtain rfl : caller = t := hcall
      exact (step_lockUpgrade _ _ _ hstep).1
  | wake caller =>
      obtain rfl : caller = t := hcall
      obtain ⟨call, rid, notified, hthread, -⟩ := step_wake _ _ hstep
      simp [attempt, hthread] at hnone
  | unlock | commit | abort | release => exact hcall.elim

/-- A lock is granted only where `is_writing_` is false. -/
theorem isWriting_of_passes (ha : s.attempt e = some a) (hpasses : a.passes) :
    a.queue.isWriting = false := by
  have hfree : ∀ call q, isFree call q = true → q.isWriting = false := by
    intro call q hfree
    cases call <;> simp_all [isFree]
  unfold Attempt.passes at hpasses
  rcases attempt_cases ha with ⟨t, rid, rfl, -, -, rfl⟩ | ⟨t, rid, rfl, -, rfl⟩ |
    ⟨t, rid, rfl, -, -, rfl⟩ | ⟨t, call, rid, notified, rfl, -, rfl⟩
  · cases hbusy : (s.queue rid).isWriting with
    | false => simp [newAttempt, hbusy]
    | true => exact hfree .lockShared _ (by simpa [newAttempt, hbusy] using hpasses)
  · cases hbusy : exclusiveBusy (s.queue rid) with
    | false => simpa [newAttempt] using isWriting_of_not_busy hbusy
    | true => exact hfree .lockExclusive _ (by simpa [newAttempt, hbusy] using hpasses)
  · cases hbusy : exclusiveBusy ((s.dropShared t rid).queue rid) with
    | false =>
        have hqueue : (s.upgradeAttempt t rid).queue = (s.dropShared t rid).queue rid := by
          simp only [upgradeAttempt, hbusy, Bool.false_eq_true, if_false]
        rw [hqueue]
        exact isWriting_of_not_busy hbusy
    | true =>
        have hwaits : (s.upgradeAttempt t rid).waits = true := hbusy
        rw [hwaits, Bool.not_true, Bool.false_or] at hpasses
        exact hfree .lockUpgrade _ hpasses
  · exact hfree call _ (by simpa [wakeAttempt] using hpasses)

/-- A lock call that returns true has made an attempt as a transaction that is not aborted. -/
theorem state_of_returned (hcall : e.IsLockCallOf t)
    (hstep : s.step e = .ok (.returned true, final)) :
    s.attempt e ≠ none ∧ (s.txns t).state ≠ .aborted := by
  rcases step_cases hstep with ⟨a, ha, hsettles⟩ | ⟨u, rid, he, -⟩ | ⟨-, hquiet⟩
  · refine ⟨by rw [ha]; exact Option.some_ne_none a, ?_⟩
    obtain rfl := hcall.unique (attempt_isLockCallOf ha)
    intro haborted
    have houtcome := hsettles.outcome
    rw [Attempt.settledOutcome, if_pos (by simp [Attempt.aborted, attempt_state ha, haborted])]
      at houtcome
    cases houtcome
  · rcases he with rfl | rfl
    · exact hcall.elim
    · exact hcall.elim
  · exact absurd rfl hquiet.outcome

end BusTub.LockSystem
