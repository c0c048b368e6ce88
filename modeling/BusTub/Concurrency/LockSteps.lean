import BusTub.Concurrency.LockManager

/-! # What the parts of a lock call read and write

Projections of the record updates, the effect of `DeadlockPrevent` in closed
form, and the effect of each critical section on the states of transactions.
-/

namespace BusTub.LockSystem

variable (s : LockSystem) (t u : TxnId) (rid other : RID)

/-! ## Projections -/

@[simp] theorem queue_setQueue_self (q : LockRequestQueue) : (s.setQueue rid q).queue rid = q := by
  simp [queue, setQueue]

theorem queue_setQueue_of_ne {rid other : RID} (hne : other ≠ rid) (q : LockRequestQueue) :
    (s.setQueue rid q).queue other = s.queue other := by
  simp [queue, setQueue, Function.update_of_ne hne]

@[simp] theorem queue_setTxn (txn : Transaction) : (s.setTxn t txn).queue rid = s.queue rid := rfl

@[simp] theorem queue_setThread (thread : Thread) :
    (s.setThread t thread).queue rid = s.queue rid := rfl

@[simp] theorem queue_setState (state : TransactionState) :
    (s.setState t state).queue rid = s.queue rid := rfl

@[simp] theorem queue_register : (s.register t).queue rid = s.queue rid := rfl

@[simp] theorem queue_notifyAll : (s.notifyAll other).queue rid = s.queue rid := rfl

@[simp] theorem txns_setQueue (q : LockRequestQueue) : (s.setQueue rid q).txns = s.txns := rfl

@[simp] theorem txns_setThread (thread : Thread) : (s.setThread t thread).txns = s.txns := rfl

@[simp] theorem txns_register : (s.register t).txns = s.txns := rfl

@[simp] theorem txns_notifyAll : (s.notifyAll rid).txns = s.txns := rfl

@[simp] theorem txns_setTxn (txn : Transaction) :
    (s.setTxn t txn).txns = Function.update s.txns t txn := rfl

@[simp] theorem txns_setState (state : TransactionState) :
    (s.setState t state).txns = Function.update s.txns t { s.txns t with state := state } := rfl

@[simp] theorem threads_setQueue (q : LockRequestQueue) :
    (s.setQueue rid q).threads = s.threads := rfl

@[simp] theorem threads_setTxn (txn : Transaction) : (s.setTxn t txn).threads = s.threads := rfl

@[simp] theorem threads_setState (state : TransactionState) :
    (s.setState t state).threads = s.threads := rfl

@[simp] theorem threads_register : (s.register t).threads = s.threads := rfl

@[simp] theorem threads_setThread (thread : Thread) :
    (s.setThread t thread).threads = Function.update s.threads t thread := rfl

@[simp] theorem txns_pushRequest (mode : LockMode) : (s.pushRequest t rid mode).txns = s.txns := rfl

@[simp] theorem threads_pushRequest (mode : LockMode) :
    (s.pushRequest t rid mode).threads = s.threads := rfl

@[simp] theorem txns_setUpgrading : (s.setUpgrading rid).txns = s.txns := rfl

@[simp] theorem threads_setUpgrading : (s.setUpgrading rid).threads = s.threads := rfl

@[simp] theorem setQueue_queue_queue : (s.setQueue rid (s.queue rid)).queue other = s.queue other := by
  by_cases hrid : other = rid
  · rw [hrid, queue_setQueue_self]
  · rw [queue_setQueue_of_ne s hrid]

/-! ## DeadlockPrevent -/

/-- The granted requests of younger transactions, which `DeadlockPrevent` wounds. -/
def younger (t : TxnId) (requestQueue : List LockRequest) : List LockRequest :=
  requestQueue.filter (fun request => request.granted ∧ t < request.txnId)

theorem younger_cons (request : LockRequest) (rest : List LockRequest) :
    younger t (request :: rest) =
      if request.granted ∧ t < request.txnId then request :: younger t rest else younger t rest := by
  simp only [younger, List.filter_cons, decide_eq_true_eq]

theorem mem_younger {request : LockRequest} {requestQueue : List LockRequest} :
    request ∈ younger t requestQueue ↔
      request ∈ requestQueue ∧ request.granted ∧ t < request.txnId := by
  simp [younger]

/-- The transaction has a request that `DeadlockPrevent` wounds. -/
def WoundedBy (s : LockSystem) (t : TxnId) (rid : RID) (victim : TxnId) : Prop :=
  ∃ request ∈ younger t (s.queue rid).requestQueue, request.txnId = victim

instance (victim : TxnId) : Decidable (WoundedBy s t rid victim) :=
  inferInstanceAs (Decidable (∃ request ∈ younger t (s.queue rid).requestQueue, _))

@[simp] theorem threads_woundRequest (request : LockRequest) :
    (woundRequest t rid s request).threads = s.threads := by
  unfold woundRequest
  split
  · dsimp only
    split <;> rfl
  · rfl

theorem threads_deadlockPrevent : (s.deadlockPrevent t rid).threads = s.threads := by
  unfold deadlockPrevent
  generalize (s.queue rid).requestQueue = requests
  induction requests generalizing s with
  | nil => rfl
  | cons request rest ih => rw [List.foldl_cons, ih, threads_woundRequest]

theorem woundRequest_txns (request : LockRequest) :
    (woundRequest t rid s request).txns =
      if request.granted ∧ t < request.txnId then
        Function.update s.txns request.txnId { s.txns request.txnId with state := .aborted }
      else s.txns := by
  unfold woundRequest
  split
  · dsimp only
    split <;> simp
  · rfl

/-- The victims' states become `ABORTED`; nothing else of a transaction changes. -/
theorem foldl_woundRequest_txns (requests : List LockRequest) (victim : TxnId) :
    (requests.foldl (woundRequest t rid) s).txns victim =
      if ∃ request ∈ younger t requests, request.txnId = victim then
        { s.txns victim with state := .aborted }
      else s.txns victim := by
  induction requests generalizing s with
  | nil => simp [younger]
  | cons request rest ih =>
      rw [List.foldl_cons, ih, woundRequest_txns, younger_cons]
      by_cases hyoung : request.granted ∧ t < request.txnId
      · simp only [if_pos hyoung, List.mem_cons, exists_eq_or_imp]
        by_cases hself : request.txnId = victim
        · subst hself
          simp
        · have hne : victim ≠ request.txnId := Ne.symm hself
          simp [hself, Function.update_of_ne hne]
      · simp only [if_neg hyoung]

theorem deadlockPrevent_txns (victim : TxnId) :
    (s.deadlockPrevent t rid).txns victim =
      if s.WoundedBy t rid victim then { s.txns victim with state := .aborted }
      else s.txns victim :=
  foldl_woundRequest_txns s t rid _ victim

/-- A caller never wounds itself. -/
theorem not_woundedBy_self : ¬ s.WoundedBy t rid t := by
  rintro ⟨request, hmem, hself⟩
  rw [mem_younger, hself] at hmem
  exact lt_irrefl t hmem.2.2

/-! ## The cases of the lock calls -/

/-- A lock call that passes its checks: the transaction is registered, the queue
exists, and the request is at its end. -/
def enqueue (s : LockSystem) (t : TxnId) (rid : RID) (mode : LockMode) : LockSystem :=
  ((s.register t).setQueue rid (s.queue rid)).pushRequest t rid mode

@[simp] theorem txns_enqueue (mode : LockMode) : (s.enqueue t rid mode).txns = s.txns := rfl

@[simp] theorem threads_enqueue (mode : LockMode) :
    (s.enqueue t rid mode).threads = s.threads := rfl

@[simp] theorem queue_enqueue_self (mode : LockMode) :
    (s.enqueue t rid mode).queue rid = { s.queue rid with
      requestQueue := (s.queue rid).requestQueue ++ [⟨t, mode, false⟩] } := by
  simp [enqueue, pushRequest]

theorem queue_enqueue_of_ne {rid other : RID} (hne : other ≠ rid) (mode : LockMode) :
    (s.enqueue t rid mode).queue other = s.queue other := by
  simp [enqueue, pushRequest, queue_setQueue_of_ne _ hne]

theorem younger_append_ungranted (requests : List LockRequest) (mode : LockMode) :
    younger t (requests ++ [⟨u, mode, false⟩]) = younger t requests := by
  simp [younger]

/-- A request that was only just appended is nothing to `DeadlockPrevent`. -/
theorem woundedBy_enqueue (mode : LockMode) (victim : TxnId) :
    (s.enqueue t rid mode).WoundedBy t rid victim ↔ s.WoundedBy t rid victim := by
  simp [WoundedBy, younger_append_ungranted]

/-- The end of a lock call: wound and wait when the lock is busy, else finish. -/
def settle (s : LockSystem) (t : TxnId) (rid : RID) (call : LockCall) (busy : Bool) :
    LockOutcome × LockSystem :=
  if busy then (s.deadlockPrevent t rid).wait t rid call else s.finish t rid call

theorem lockShared_of_level (hlevel : (s.txns t).isolationLevel = .readUncommitted) :
    s.lockShared t rid =
      (.threw .lockSharedOnReadUncommitted, (s.register t).setState t .aborted) := by
  unfold lockShared
  exact if_pos hlevel

theorem lockShared_of_shrinking (hlevel : (s.txns t).isolationLevel ≠ .readUncommitted)
    (hshrink : (s.txns t).state = .shrinking) :
    s.lockShared t rid = (.threw .lockOnShrinking, (s.register t).setState t .aborted) := by
  have hprepare : (s.register t).lockPrepare t rid =
      (some .lockOnShrinking, (s.register t).setState t .aborted) := if_pos hshrink
  have hregistered : ((s.register t).txns t).isolationLevel ≠ .readUncommitted := hlevel
  unfold lockShared
  dsimp only
  rw [if_neg hregistered, hprepare]

theorem lockPrepare_of_not_shrinking (hshrink : (s.txns t).state ≠ .shrinking) :
    (s.register t).lockPrepare t rid = (none, (s.register t).setQueue rid (s.queue rid)) :=
  if_neg hshrink

theorem lockShared_of_passed (hlevel : (s.txns t).isolationLevel ≠ .readUncommitted)
    (hshrink : (s.txns t).state ≠ .shrinking) :
    s.lockShared t rid =
      (s.enqueue t rid .shared).settle t rid .lockShared (s.queue rid).isWriting := by
  have hregistered : ((s.register t).txns t).isolationLevel ≠ .readUncommitted := hlevel
  unfold lockShared
  dsimp only
  rw [if_neg hregistered, lockPrepare_of_not_shrinking s t rid hshrink]
  change (if ((s.enqueue t rid .shared).queue rid).isWriting = true then _ else _) = _
  rw [queue_enqueue_self]
  rfl

theorem lockExclusive_of_shrinking (hshrink : (s.txns t).state = .shrinking) :
    s.lockExclusive t rid = (.threw .lockOnShrinking, (s.register t).setState t .aborted) := by
  have hprepare : (s.register t).lockPrepare t rid =
      (some .lockOnShrinking, (s.register t).setState t .aborted) := if_pos hshrink
  unfold lockExclusive
  dsimp only
  rw [hprepare]

/-- The test that sends a request for the exclusive lock to `DeadlockPrevent`. -/
def exclusiveBusy (q : LockRequestQueue) : Bool := q.isWriting ∨ q.sharingCount > 0

theorem isWriting_of_not_busy {q : LockRequestQueue} (hbusy : exclusiveBusy q = false) :
    q.isWriting = false := by
  simp only [exclusiveBusy, decide_eq_false_iff_not, not_or] at hbusy
  simpa using hbusy.1

theorem lockExclusive_of_passed (hshrink : (s.txns t).state ≠ .shrinking) :
    s.lockExclusive t rid =
      (s.enqueue t rid .exclusive).settle t rid .lockExclusive (exclusiveBusy (s.queue rid)) := by
  unfold lockExclusive
  dsimp only
  rw [lockPrepare_of_not_shrinking s t rid hshrink]
  change (if ((s.enqueue t rid .exclusive).queue rid).isWriting = true ∨
    ((s.enqueue t rid .exclusive).queue rid).sharingCount > 0 then _ else _) = _
  rw [queue_enqueue_self]
  simp only [settle, exclusiveBusy, decide_eq_true_eq]
  rfl

@[simp] theorem txns_dropShared_of_ne {t u : TxnId} (hne : u ≠ t) :
    (s.dropShared t rid).txns u = s.txns u := by
  simp [dropShared, hne]

@[simp] theorem queue_dropShared_self : (s.dropShared t rid).queue rid = { s.queue rid with
    sharingCount := (s.queue rid).sharingCount - 1
    requestQueue := modifyRequest t
      (fun r => { r with lockMode := .exclusive, granted := false })
      (s.queue rid).requestQueue } := by
  simp [dropShared]

theorem queue_dropShared_of_ne {rid other : RID} (hne : other ≠ rid) :
    (s.dropShared t rid).queue other = s.queue other := by
  simp [dropShared, queue_setQueue_of_ne _ hne]

/-- The end of `LockUpgrade`, with the shared lock given up. -/
def settleUpgrade (s : LockSystem) (t : TxnId) (rid : RID) (busy : Bool) :
    LockOutcome × LockSystem :=
  if busy then ((s.deadlockPrevent t rid).setUpgrading rid).wait t rid .lockUpgrade
  else s.finish t rid .lockUpgrade

/-- What a call of `LockUpgrade` that has a result did. -/
theorem lockUpgrade_cases {result : LockOutcome × LockSystem}
    (hcall : s.lockUpgrade t rid = some result) :
    ((s.txns t).state = .shrinking ∧
      result = (.threw .lockOnShrinking, s.setState t .aborted)) ∨
    ((s.txns t).state ≠ .shrinking ∧ (s.queue rid).upgrading = true ∧
      result = (.threw .upgradeConflict, s.setState t .aborted)) ∨
    ((s.txns t).state ≠ .shrinking ∧ (s.queue rid).upgrading = false ∧
      (getIterator (s.queue rid).requestQueue t).isSome ∧
      result = (s.dropShared t rid).settleUpgrade t rid
        (exclusiveBusy ((s.dropShared t rid).queue rid))) := by
  unfold lockUpgrade at hcall
  split at hcall
  next hshrink =>
    left
    exact ⟨hshrink, (Option.some.inj hcall).symm⟩
  next hshrink =>
    right
    split at hcall
    · cases hcall
    · split at hcall
      next hupgrading =>
        left
        exact ⟨hshrink, hupgrading, (Option.some.inj hcall).symm⟩
      next hupgrading =>
        right
        split at hcall
        · cases hcall
        next hiter =>
          refine ⟨hshrink, by simpa using hupgrading, by simpa [← Option.isSome_iff_ne_none,
            Option.isNone_iff_eq_none] using hiter, ?_⟩
          simp only [settleUpgrade, exclusiveBusy, decide_eq_true_eq]
          dsimp only at hcall
          split at hcall
          next hbusy => rw [if_pos hbusy]; exact (Option.some.inj hcall).symm
          next hbusy => rw [if_neg hbusy]; exact (Option.some.inj hcall).symm

/-! ## The threads -/

theorem threads_notifyAll (u : TxnId) :
    (s.notifyAll rid).threads u = s.threads u ∨
      ∃ call, (∃ notified, s.threads u = .waiting call rid notified) ∧
        (s.notifyAll rid).threads u = .waiting call rid true := by
  unfold notifyAll
  dsimp only
  cases hthread : s.threads u with
  | waiting call other notified =>
      by_cases hrid : other = rid
      · subst hrid
        exact Or.inr ⟨call, ⟨notified, rfl⟩, by simp⟩
      · simp [hrid]
  | idle => exact Or.inl rfl
  | releasing lockSet => exact Or.inl rfl

/-! ## The states of transactions -/

theorem finish_state (call : LockCall) :
    ((s.finish t rid call).2.txns u).state = (s.txns u).state := by
  unfold finish
  dsimp only
  split
  · simp
  · by_cases hself : u = t
    · subst hself
      cases call <;> simp [grant]
    · cases call <;> simp [grant, hself]

theorem wait_state (call : LockCall) :
    ((s.wait t rid call).2.txns u).state = (s.txns u).state := by
  unfold wait
  split
  · exact finish_state s t u rid call
  · simp

theorem settle_state (call : LockCall) (busy : Bool) :
    ((s.settle t rid call busy).2.txns u).state =
      if busy ∧ s.WoundedBy t rid u then .aborted else (s.txns u).state := by
  unfold settle
  by_cases hbusy : busy
  · rw [if_pos hbusy, wait_state, deadlockPrevent_txns]
    by_cases hwound : s.WoundedBy t rid u
    · rw [if_pos hwound, if_pos ⟨hbusy, hwound⟩]
    · rw [if_neg hwound, if_neg (fun h => hwound h.2)]
  · rw [if_neg hbusy, if_neg (fun h => hbusy h.1), finish_state]

theorem settleUpgrade_state (busy : Bool) :
    ((s.settleUpgrade t rid busy).2.txns u).state =
      if busy ∧ s.WoundedBy t rid u then .aborted else (s.txns u).state := by
  unfold settleUpgrade
  by_cases hbusy : busy
  · rw [if_pos hbusy, wait_state, txns_setUpgrading, deadlockPrevent_txns]
    by_cases hwound : s.WoundedBy t rid u
    · rw [if_pos hwound, if_pos ⟨hbusy, hwound⟩]
    · rw [if_neg hwound, if_neg (fun h => hwound h.2)]
  · rw [if_neg hbusy, if_neg (fun h => hbusy h.1), finish_state]

theorem dropShared_state : ((s.dropShared t rid).txns u).state = (s.txns u).state := by
  by_cases hself : u = t
  · subst hself
    simp [dropShared]
  · simp [dropShared, hself]

theorem releaseRest_txns (lockSet : Finset RID) : (s.releaseRest t lockSet).txns = s.txns := rfl

/-- What `Unlock` leaves of the queue when it erases the request. -/
def afterUnlock (q : LockRequestQueue) (t : TxnId) : LockMode → LockRequestQueue
  | .shared => { q with
      requestQueue := eraseRequest t q.requestQueue, sharingCount := q.sharingCount - 1 }
  | .exclusive => { q with requestQueue := eraseRequest t q.requestQueue, isWriting := false }

/-- What a call of `Unlock` that finds its request did. -/
theorem unlock_cases {final : LockSystem} (hunlock : s.unlock t rid = some final) :
    ∃ request, getIterator (s.queue rid).requestQueue t = some request ∧
      final.txns = Function.update s.txns t { s.txns t with
        sharedLockSet := (s.txns t).sharedLockSet.erase rid
        exclusiveLockSet := (s.txns t).exclusiveLockSet.erase rid
        state := unlockState (s.txns t) request.lockMode } ∧
      final.queue rid = afterUnlock (s.queue rid) t request.lockMode ∧
      (∀ other, other ≠ rid → final.queue other = s.queue other) ∧
      (final.threads = s.threads ∨ final.threads = (s.notifyAll rid).threads) := by
  unfold unlock at hunlock
  split at hunlock
  · cases hunlock
  next request hiter =>
    refine ⟨request, hiter, ?_⟩
    cases hmode : request.lockMode with
    | shared =>
        simp only [hmode] at hunlock
        split at hunlock
        · cases hunlock
          exact ⟨rfl, queue_setQueue_self _ _ _, fun _ hne => queue_setQueue_of_ne _ hne _,
            Or.inr rfl⟩
        · cases hunlock
          exact ⟨rfl, queue_setQueue_self _ _ _, fun _ hne => queue_setQueue_of_ne _ hne _,
            Or.inl rfl⟩
    | exclusive =>
        simp only [hmode] at hunlock
        cases hunlock
        exact ⟨rfl, queue_setQueue_self _ _ _, fun _ hne => queue_setQueue_of_ne _ hne _,
          Or.inr rfl⟩

/-- `Unlock` starts the shrinking phase of its own transaction, if it is growing. -/
theorem unlock_state {final : LockSystem} (hunlock : s.unlock t rid = some final) :
    (final.txns u).state = (s.txns u).state ∨
      (s.txns u).state = .growing ∧ (final.txns u).state = .shrinking := by
  obtain ⟨request, -, htxns, -⟩ := unlock_cases s t rid hunlock
  rw [htxns]
  by_cases hself : u = t
  · subst hself
    simp only [Function.update_self, unlockState]
    split
    next hgrowing => exact Or.inr ⟨hgrowing.2, rfl⟩
    · exact Or.inl rfl
  · simp [hself]

/-- Either `Unlock` wakes every sleeper of the queue, or it gives back a share that was
not the last one. -/
theorem unlock_notifies {final : LockSystem} (hunlock : s.unlock t rid = some final) :
    (∀ u call notified, s.threads u = .waiting call rid notified →
      final.threads u = .waiting call rid true) ∨
    ((final.queue rid).sharingCount ≠ 0 ∧
      (final.queue rid).isWriting = (s.queue rid).isWriting) := by
  have hnotified : ∀ s : LockSystem, ∀ u call notified, s.threads u = .waiting call rid notified →
      (s.notifyAll rid).threads u = .waiting call rid true := by
    intro s u call notified hthread
    simp [notifyAll, hthread]
  unfold unlock at hunlock
  split at hunlock
  · cases hunlock
  next request hiter =>
    cases hmode : request.lockMode with
    | shared =>
        simp only [hmode] at hunlock
        split at hunlock
        · cases hunlock
          exact Or.inl (hnotified _)
        next hshares =>
          cases hunlock
          rw [queue_setQueue_self]
          exact Or.inr ⟨hshares, rfl⟩
    | exclusive =>
        simp only [hmode] at hunlock
        cases hunlock
        exact Or.inl (hnotified _)

theorem threads_unlock {final : LockSystem} (hunlock : s.unlock t rid = some final) (u : TxnId) :
    final.threads u = s.threads u ∨
      ∃ call, (∃ notified, s.threads u = .waiting call rid notified) ∧
        final.threads u = .waiting call rid true := by
  obtain ⟨-, -, -, -, -, hthreads⟩ := unlock_cases s t rid hunlock
  rcases hthreads with hsame | hnotified
  · exact Or.inl (congrFun hsame u)
  · rw [hnotified]
    exact threads_notifyAll s rid u

/-! ## The cases of a step -/

theorem whenIdle_ok {result : Except Fault (LockOutcome × LockSystem)}
    {value : LockOutcome × LockSystem} (hok : s.whenIdle t result = .ok value) :
    s.threads t = .idle ∧ result = .ok value := by
  unfold whenIdle at hok
  split at hok
  next hidle => exact ⟨hidle, hok⟩
  · cases hok

theorem orUndefined_ok {α : Type} {result : Option α} {value : α}
    (hok : orUndefined result = .ok value) : result = some value := by
  cases result with
  | none => cases hok
  | some _ => exact congrArg some (Except.ok.inj hok)

theorem step_lockShared {outcome : LockOutcome} {final : LockSystem}
    (hstep : s.step (.lockShared t rid) = .ok (outcome, final)) :
    s.threads t = .idle ∧ s.lockShared t rid = (outcome, final) := by
  obtain ⟨hidle, hok⟩ := whenIdle_ok _ _ hstep
  exact ⟨hidle, Except.ok.inj hok⟩

theorem step_lockExclusive {outcome : LockOutcome} {final : LockSystem}
    (hstep : s.step (.lockExclusive t rid) = .ok (outcome, final)) :
    s.threads t = .idle ∧ s.lockExclusive t rid = (outcome, final) := by
  obtain ⟨hidle, hok⟩ := whenIdle_ok _ _ hstep
  exact ⟨hidle, Except.ok.inj hok⟩

theorem step_lockUpgrade {outcome : LockOutcome} {final : LockSystem}
    (hstep : s.step (.lockUpgrade t rid) = .ok (outcome, final)) :
    s.threads t = .idle ∧ s.lockUpgrade t rid = some (outcome, final) := by
  obtain ⟨hidle, hok⟩ := whenIdle_ok _ _ hstep
  exact ⟨hidle, orUndefined_ok hok⟩

theorem step_unlock {outcome : LockOutcome} {final : LockSystem}
    (hstep : s.step (.unlock t rid) = .ok (outcome, final)) :
    s.threads t = .idle ∧ outcome = .returned true ∧ s.unlock t rid = some final := by
  obtain ⟨hidle, hok⟩ := whenIdle_ok _ _ hstep
  obtain ⟨_, hunlock, hpair⟩ := Option.map_eq_some_iff.mp (orUndefined_ok hok)
  cases hpair
  exact ⟨hidle, rfl, hunlock⟩

theorem step_commit {outcome : LockOutcome} {final : LockSystem}
    (hstep : s.step (.commit t) = .ok (outcome, final)) :
    s.threads t = .idle ∧ outcome = .releasing ∧ final = s.endTxn t .committed := by
  obtain ⟨hidle, hok⟩ := whenIdle_ok _ _ hstep
  cases hok
  exact ⟨hidle, rfl, rfl⟩

theorem step_abort {outcome : LockOutcome} {final : LockSystem}
    (hstep : s.step (.abort t) = .ok (outcome, final)) :
    s.threads t = .idle ∧ outcome = .releasing ∧ final = s.endTxn t .aborted := by
  obtain ⟨hidle, hok⟩ := whenIdle_ok _ _ hstep
  cases hok
  exact ⟨hidle, rfl, rfl⟩

theorem step_wake {outcome : LockOutcome} {final : LockSystem}
    (hstep : s.step (.wake t) = .ok (outcome, final)) :
    ∃ call rid notified, s.threads t = .waiting call rid notified ∧
      s.wait t rid call = (outcome, final) := by
  simp only [step] at hstep
  split at hstep
  next call rid notified hthread =>
    exact ⟨call, rid, notified, hthread, Except.ok.inj hstep⟩
  · cases hstep

theorem step_release {outcome : LockOutcome} {final : LockSystem}
    (hstep : s.step (.release t rid) = .ok (outcome, final)) :
    ∃ lockSet middle, s.threads t = .releasing lockSet ∧ rid ∈ lockSet ∧ outcome = .releasing ∧
      s.unlock t rid = some middle ∧ final = middle.releaseRest t (lockSet.erase rid) := by
  simp only [step] at hstep
  split at hstep
  next lockSet hthread =>
    split at hstep
    next hmem =>
      obtain ⟨middle, hunlock, hpair⟩ := Option.map_eq_some_iff.mp (orUndefined_ok hstep)
      cases hpair
      exact ⟨lockSet, middle, hthread, hmem, rfl, hunlock, rfl⟩
    · cases hstep
  · cases hstep

end BusTub.LockSystem
