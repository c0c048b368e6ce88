import BusTub.Concurrency.Attempts
import BusTub.Concurrency.LockQueue

/-! # Requests, lock sets and sleepers

Whatever the counters say, the requests of every queue agree with the lock sets of the
transactions and with the threads that sleep on it. Wounding does not change that: it
leaves the requests of its victims, and their lock sets, as they are.
-/

namespace BusTub

/-- The mode of the request that a call appends or upgrades to. -/
def LockCall.mode : LockCall → LockMode
  | .lockShared => .shared
  | .lockExclusive | .lockUpgrade => .exclusive

/-- The mode the thread is asleep for at `rid`. -/
def Thread.waitingMode (rid : RID) : Thread → Option LockMode
  | .waiting call other _ => if other = rid then some call.mode else none
  | _ => none

namespace LockSystem

/-- What the comments of the lock functions ask of their callers: no lock call on
a rid that the transaction has already locked, and an upgrade only of a shared lock. -/
def Documented (s : LockSystem) : Event → Prop
  | .lockShared t rid | .lockExclusive t rid =>
      rid ∉ (s.txns t).sharedLockSet ∧ rid ∉ (s.txns t).exclusiveLockSet
  | .lockUpgrade t rid => rid ∈ (s.txns t).sharedLockSet
  | _ => True

instance (s : LockSystem) : DecidablePred s.Documented
  | .lockShared t rid | .lockExclusive t rid => inferInstanceAs
      (Decidable (rid ∉ (s.txns t).sharedLockSet ∧ rid ∉ (s.txns t).exclusiveLockSet))
  | .lockUpgrade t rid => inferInstanceAs (Decidable (rid ∈ (s.txns t).sharedLockSet))
  | .unlock _ _ | .commit _ | .abort _ | .wake _ | .release _ _ =>
      inferInstanceAs (Decidable True)

/-- The requests of every queue agree with the lock sets and the sleeping threads. -/
def RequestsConsistent (s : LockSystem) : Prop :=
  ∀ rid, RequestInvariant (s.queue rid).requestQueue (fun t => rid ∈ (s.txns t).sharedLockSet)
    (fun t => rid ∈ (s.txns t).exclusiveLockSet) (fun t => (s.threads t).waitingMode rid)

theorem requestsConsistent_initial (levels : TxnId → IsolationLevel) :
    (initial levels).RequestsConsistent := by
  intro rid
  simpa [initial, queue, Thread.waitingMode] using RequestInvariant.empty

variable {s final : LockSystem} {t u : TxnId} {rid other : RID} {e : Event} {a : Attempt}
  {outcome : LockOutcome} {call : LockCall} {notified : Bool} {mode : LockMode}

theorem waitingMode_of_awake (hawake : s.Awake t) (rid : RID) :
    (s.threads t).waitingMode rid = none := by
  cases hthread : s.threads t with
  | waiting call target notified => exact absurd hthread (hawake call target notified)
  | idle => rfl
  | releasing lockSet => rfl

namespace RequestsConsistent

/-- An awake transaction has only granted requests. -/
theorem granted_of_awake (h : s.RequestsConsistent) (hawake : s.Awake t) {own : LockRequest}
    (hown : own ∈ (s.queue rid).requestQueue) (hid : own.txnId = t) : own.granted = true := by
  obtain ⟨id, mode, granted⟩ := own
  cases hid
  cases granted with
  | true => rfl
  | false =>
      rw [← (h rid).waiting_iff, waitingMode_of_awake hawake rid] at hown
      cases hown

/-! ## Attempts -/

/-- Before the test, the caller is as good as asleep. -/
theorem queued (h : s.RequestsConsistent) (hdocumented : s.Documented e)
    (hstep : s.step e = .ok (outcome, final)) (ha : s.attempt e = some a) :
    RequestInvariant a.queue.requestQueue
      (fun u => a.rid ∈ (Function.update s.txns a.txnId a.txn u).sharedLockSet)
      (fun u => a.rid ∈ (Function.update s.txns a.txnId a.txn u).exclusiveLockSet)
      (fun u => if u = a.txnId then some a.call.mode else (s.threads u).waitingMode a.rid) := by
  -- a call other than an upgrade pushes a request of its own
  have hnew : ∀ t rid (call : LockCall) busy, s.threads t = .idle →
      rid ∉ (s.txns t).sharedLockSet → rid ∉ (s.txns t).exclusiveLockSet →
      RequestInvariant (s.newAttempt t rid call call.mode busy).queue.requestQueue
        (fun u => rid ∈ (Function.update s.txns t (s.txns t) u).sharedLockSet)
        (fun u => rid ∈ (Function.update s.txns t (s.txns t) u).exclusiveLockSet)
        (fun u => if u = t then some call.mode else (s.threads u).waitingMode rid) := by
    intro t rid call busy hidle hshared hexclusive
    rw [requestQueue_newAttempt, Function.update_eq_self]
    have hpush := (h rid).push call.mode hshared hexclusive
      (waitingMode_of_awake (awake_of_idle hidle) rid)
    refine hpush.congr (fun _ => Iff.rfl) (fun _ => Iff.rfl) ?_
    intro u
    simp only [Function.update_apply]
  rcases attempt_cases ha with ⟨t, rid, rfl, -, -, rfl⟩ | ⟨t, rid, rfl, -, rfl⟩ |
    ⟨t, rid, rfl, -, -, rfl⟩ | ⟨t, call, rid, notified, rfl, hthread, rfl⟩
  · exact hnew t rid .lockShared _ (step_lockShared _ _ _ hstep).1 hdocumented.1 hdocumented.2
  · exact hnew t rid .lockExclusive _ (step_lockExclusive _ _ _ hstep).1 hdocumented.1
      hdocumented.2
  · have hown := ((h rid).shared_iff t).mp hdocumented
    have hexclusive : rid ∉ (s.txns t).exclusiveLockSet := by
      intro hmem
      have hsame := (h rid).unique hown (((h rid).exclusive_iff t).mp hmem) rfl
      exact LockMode.noConfusion (congrArg LockRequest.lockMode hsame)
    rw [requestQueue_upgradeAttempt]
    -- an upgrade turns its shared request into one for the exclusive lock
    have hmodify := (h rid).modify (f := fun r => { r with lockMode := .exclusive, granted := false })
      hown rfl (fun _ => rfl)
    refine hmodify.congr ?_ ?_ ?_
    · intro u
      by_cases hself : u = t
      · subst hself
        simp [upgradeAttempt, LockSystem.dropShared, isGranted]
      · simp [upgradeAttempt, hself]
    · intro u
      by_cases hself : u = t
      · subst hself
        simp [upgradeAttempt, LockSystem.dropShared, isGranted, hexclusive]
      · simp [upgradeAttempt, hself]
    · intro u
      by_cases hself : u = t
      · simp [upgradeAttempt, hself, LockCall.mode]
      · simp [upgradeAttempt, hself]
  · refine (h rid).congr ?_ ?_ ?_
    · intro u
      simp [wakeAttempt]
    · intro u
      simp [wakeAttempt]
    · intro u
      by_cases hself : u = t
      · subst hself
        simp [wakeAttempt, hthread, Thread.waitingMode]
      · simp [wakeAttempt, hself]

/-- The caller's own request at the time of the test. -/
theorem own_mem (h : s.RequestsConsistent) (hdocumented : s.Documented e)
    (hstep : s.step e = .ok (outcome, final)) (ha : s.attempt e = some a) :
    ⟨a.txnId, a.call.mode, false⟩ ∈ a.queue.requestQueue := by
  rw [← (h.queued hdocumented hstep ha).waiting_iff, if_pos rfl]

/-- The caller does not hold the lock at the time of the test. -/
theorem not_held (h : s.RequestsConsistent) (hdocumented : s.Documented e)
    (hstep : s.step e = .ok (outcome, final)) (ha : s.attempt e = some a) :
    a.rid ∉ a.txn.sharedLockSet ∧ a.rid ∉ a.txn.exclusiveLockSet := by
  have hqueued := h.queued hdocumented hstep ha
  have hown := h.own_mem hdocumented hstep ha
  constructor
  · intro hmem
    have hheld := (hqueued.shared_iff a.txnId).mp (by rwa [Function.update_self])
    exact Bool.noConfusion (congrArg LockRequest.granted (hqueued.unique hown hheld rfl))
  · intro hmem
    have hheld := (hqueued.exclusive_iff a.txnId).mp (by rwa [Function.update_self])
    exact Bool.noConfusion (congrArg LockRequest.granted (hqueued.unique hown hheld rfl))

/-- The requests of the queue once the attempt is settled. -/
theorem settled (h : s.RequestsConsistent) (hdocumented : s.Documented e)
    (hstep : s.step e = .ok (outcome, final)) (ha : s.attempt e = some a) :
    RequestInvariant a.settledQueue.requestQueue
      (fun u => a.rid ∈ (Function.update s.txns a.txnId a.settledTxn u).sharedLockSet)
      (fun u => a.rid ∈ (Function.update s.txns a.txnId a.settledTxn u).exclusiveLockSet)
      (fun u => (Function.update s.threads a.txnId a.settledThread u).waitingMode a.rid) := by
  have hqueued := h.queued hdocumented hstep ha
  have hown := h.own_mem hdocumented hstep ha
  obtain ⟨hshared, hexclusive⟩ := h.not_held hdocumented hstep ha
  unfold Attempt.settledQueue Attempt.settledTxn Attempt.settledThread Attempt.granted
  cases a.aborted with
  | true =>
      -- an aborted transaction takes its request out of the queue
      refine (hqueued.erase a.txnId).congr ?_ ?_ ?_
      · intro u
        by_cases hself : u = a.txnId
        · simp [hself, hshared]
        · simp [hself]
      · intro u
        by_cases hself : u = a.txnId
        · simp [hself, hexclusive]
        · simp [hself]
      · intro u
        by_cases hself : u = a.txnId
        · simp [hself, Thread.waitingMode]
        · simp [hself]
  | false =>
      cases a.passes with
      | true =>
          -- a request that passes is granted where it stands
          have hmodify := hqueued.modify (f := fun r => { r with granted := true }) hown rfl
            (fun _ => rfl)
          simp only [Bool.false_eq_true, if_false, if_true, Bool.not_false, Bool.and_true,
            Bool.false_or, requestQueue_granted]
          refine hmodify.congr ?_ ?_ ?_
          · intro u
            by_cases hself : u = a.txnId
            · subst hself
              cases hcall : a.call <;> simp [grantedTxn, isGranted, LockCall.mode, hshared]
            · simp [hself]
          · intro u
            by_cases hself : u = a.txnId
            · subst hself
              cases hcall : a.call <;> simp [grantedTxn, isGranted, LockCall.mode, hexclusive]
            · simp [hself]
          · intro u
            by_cases hself : u = a.txnId
            · simp [hself, Thread.waitingMode]
            · simp [hself]
      | false =>
          refine hqueued.congr (fun _ => Iff.rfl) (fun _ => Iff.rfl) ?_
          intro u
          by_cases hself : u = a.txnId
          · simp [hself, Thread.waitingMode]
          · simp [hself]

/-- The lock sets and the thread of the caller at other rids. -/
theorem settled_of_ne (hstep : s.step e = .ok (outcome, final)) (ha : s.attempt e = some a)
    (hne : other ≠ a.rid) :
    (other ∈ a.settledTxn.sharedLockSet ↔ other ∈ (s.txns a.txnId).sharedLockSet) ∧
    (other ∈ a.settledTxn.exclusiveLockSet ↔ other ∈ (s.txns a.txnId).exclusiveLockSet) ∧
    a.settledThread.waitingMode other = (s.threads a.txnId).waitingMode other := by
  have hqueued : (other ∈ a.txn.sharedLockSet ↔ other ∈ (s.txns a.txnId).sharedLockSet) ∧
      (other ∈ a.txn.exclusiveLockSet ↔ other ∈ (s.txns a.txnId).exclusiveLockSet) ∧
      (s.threads a.txnId).waitingMode other = none := by
    rcases attempt_cases ha with ⟨t, rid, rfl, -, -, rfl⟩ | ⟨t, rid, rfl, -, rfl⟩ |
      ⟨t, rid, rfl, -, -, rfl⟩ | ⟨t, call, rid, notified, rfl, hthread, rfl⟩
    · exact ⟨Iff.rfl, Iff.rfl,
        waitingMode_of_awake (awake_of_idle (step_lockShared _ _ _ hstep).1) other⟩
    · exact ⟨Iff.rfl, Iff.rfl,
        waitingMode_of_awake (awake_of_idle (step_lockExclusive _ _ _ hstep).1) other⟩
    · have hother : other ≠ rid := hne
      refine ⟨?_, ?_,
        waitingMode_of_awake (awake_of_idle (step_lockUpgrade _ _ _ hstep).1) other⟩
      · simp [upgradeAttempt, LockSystem.dropShared, hother]
      · simp [upgradeAttempt, LockSystem.dropShared]
    · have hother : rid ≠ other := Ne.symm hne
      refine ⟨Iff.rfl, Iff.rfl, ?_⟩
      simp [wakeAttempt, hthread, Thread.waitingMode, hother]
  obtain ⟨hshared, hexclusive, hwaiting⟩ := hqueued
  refine ⟨?_, ?_, ?_⟩
  · rw [← hshared]
    unfold Attempt.settledTxn
    split
    · cases a.call <;> simp [grantedTxn, hne]
    · exact Iff.rfl
  · rw [← hexclusive]
    unfold Attempt.settledTxn
    split
    · cases a.call <;> simp [grantedTxn, hne]
    · exact Iff.rfl
  · rw [hwaiting]
    unfold Attempt.settledThread
    split
    · rfl
    · simp [Thread.waitingMode, Ne.symm hne]

theorem settles (h : s.RequestsConsistent) (hdocumented : s.Documented e)
    (hstep : s.step e = .ok (outcome, final)) (ha : s.attempt e = some a)
    {wounded : TxnId → Prop} (hsettles : s.Settles wounded a outcome final) :
    final.RequestsConsistent := by
  have htxns : ∀ u, (final.txns u).sharedLockSet =
      (Function.update s.txns a.txnId a.settledTxn u).sharedLockSet ∧
      (final.txns u).exclusiveLockSet =
        (Function.update s.txns a.txnId a.settledTxn u).exclusiveLockSet := by
    intro u
    by_cases hself : u = a.txnId
    · rw [hself, hsettles.txn, Function.update_self]
      exact ⟨rfl, rfl⟩
    · rw [Function.update_of_ne hself]
      by_cases hwound : wounded u
      · rw [hsettles.victim u hself hwound]
        exact ⟨rfl, rfl⟩
      · rw [hsettles.txns_of_ne u hself hwound]
        exact ⟨rfl, rfl⟩
  intro rid
  by_cases hrid : rid = a.rid
  · subst hrid
    rw [hsettles.queue, hsettles.threads]
    exact (h.settled hdocumented hstep ha).congr (fun u => by rw [(htxns u).1])
      (fun u => by rw [(htxns u).2]) (fun _ => rfl)
  · obtain ⟨hshared, hexclusive, hwaiting⟩ := settled_of_ne hstep ha hrid
    rw [hsettles.queue_of_ne rid hrid]
    refine (h rid).congr ?_ ?_ ?_
    · intro u
      rw [(htxns u).1]
      by_cases hself : u = a.txnId
      · rw [hself, Function.update_self, hshared]
      · rw [Function.update_of_ne hself]
    · intro u
      rw [(htxns u).2]
      by_cases hself : u = a.txnId
      · rw [hself, Function.update_self, hexclusive]
      · rw [Function.update_of_ne hself]
    · intro u
      rw [hsettles.threads]
      by_cases hself : u = a.txnId
      · rw [hself, Function.update_self, hwaiting]
      · rw [Function.update_of_ne hself]

/-! ## Unlock -/

theorem unlocks (h : s.RequestsConsistent) (hunlocks : s.Unlocks t rid final) :
    final.RequestsConsistent := by
  obtain ⟨middle, hunlock, hfinal⟩ := hunlocks.unlock
  obtain ⟨own, hiter, htxns, hqueue, hother, -⟩ := unlock_cases s t rid hunlock
  have htxnsFinal : final.txns = middle.txns := by
    rcases hfinal with rfl | ⟨lockSet, rfl⟩
    · rfl
    · rfl
  have hqueueFinal : ∀ rid, final.queue rid = middle.queue rid := by
    intro rid
    rcases hfinal with rfl | ⟨lockSet, rfl⟩
    · rfl
    · rfl
  have hmodes : ∀ u other, (final.threads u).waitingMode other =
      (s.threads u).waitingMode other := by
    intro u other
    by_cases hself : u = t
    · rw [hself, waitingMode_of_awake hunlocks.awake, waitingMode_of_awake hunlocks.awake_after]
    · have hthread : final.threads u = middle.threads u := by
        rcases hfinal with rfl | ⟨lockSet, rfl⟩
        · rfl
        · exact Function.update_of_ne hself _ _
      rw [hthread]
      -- the threads that are notified go on waiting for the same lock
      rcases threads_unlock s t rid hunlock u with hsame | ⟨call, ⟨earlier, hwaiting⟩, hnotified⟩
      · rw [hsame]
      · rw [hwaiting, hnotified]
        rfl
  intro other
  rw [hqueueFinal, htxnsFinal, htxns]
  by_cases hrid : other = rid
  · subst hrid
    have herased : (middle.queue other).requestQueue =
        eraseRequest t (s.queue other).requestQueue := by
      rw [hqueue]
      cases own.lockMode <;> rfl
    rw [herased]
    refine ((h other).erase t).congr ?_ ?_ ?_
    · intro u
      by_cases hself : u = t
      · subst hself
        simp
      · simp [hself]
    · intro u
      by_cases hself : u = t
      · subst hself
        simp
      · simp [hself]
    · intro u
      rw [hmodes]
      by_cases hself : u = t
      · rw [hself, waitingMode_of_awake hunlocks.awake, if_pos rfl]
      · rw [if_neg hself]
  · rw [hother other hrid]
    refine (h other).congr ?_ ?_ (fun u => hmodes u other)
    · intro u
      by_cases hself : u = t
      · subst hself
        simp [hrid]
      · simp [hself]
    · intro u
      by_cases hself : u = t
      · subst hself
        simp [hrid]
      · simp [hself]

theorem quiet (h : s.RequestsConsistent) (hquiet : s.Quiet outcome final) :
    final.RequestsConsistent := by
  intro rid
  rw [hquiet.queue]
  refine (h rid).congr ?_ ?_ ?_
  · intro u
    rw [hquiet.sharedLockSet]
  · intro u
    rw [hquiet.exclusiveLockSet]
  · intro u
    rcases hquiet.threads u with hsame | ⟨hbefore, hafter⟩
    · rw [hsame]
    · rw [waitingMode_of_awake hbefore, waitingMode_of_awake hafter]

/-- Every documented call keeps the requests in order. -/
theorem step (h : s.RequestsConsistent) (hdocumented : s.Documented e)
    (hstep : s.step e = .ok (outcome, final)) : final.RequestsConsistent := by
  rcases step_cases hstep with ⟨a, ha, hsettles⟩ | ⟨t, rid, -, hunlocks⟩ | ⟨-, hquiet⟩
  · exact h.settles hdocumented hstep ha hsettles
  · exact h.unlocks hunlocks
  · exact h.quiet hquiet

end RequestsConsistent

/-! ## Granted requests -/

/-- The test sees no granted request that was not granted before. -/
theorem granted_of_attempt (h : s.RequestsConsistent) (hdocumented : s.Documented e)
    (ha : s.attempt e = some a) (hmem : ⟨u, mode, true⟩ ∈ a.queue.requestQueue) :
    ⟨u, mode, true⟩ ∈ (s.queue a.rid).requestQueue := by
  have hnew : ∀ t rid call own busy,
      ⟨u, mode, true⟩ ∈ (s.newAttempt t rid call own busy).queue.requestQueue →
      ⟨u, mode, true⟩ ∈ (s.queue rid).requestQueue := by
    intro t rid call own busy hmem
    rw [requestQueue_newAttempt] at hmem
    simpa using hmem
  rcases attempt_cases ha with ⟨t, rid, rfl, -, -, rfl⟩ | ⟨t, rid, rfl, -, rfl⟩ |
    ⟨t, rid, rfl, -, -, rfl⟩ | ⟨t, call, rid, notified, rfl, -, rfl⟩
  · exact hnew _ _ _ _ _ hmem
  · exact hnew _ _ _ _ _ hmem
  · have hown := ((h rid).shared_iff t).mp hdocumented
    rw [requestQueue_upgradeAttempt, mem_modifyRequest (h rid).nodup hown rfl] at hmem
    rcases hmem with ⟨hold, -⟩ | hself
    · exact hold
    · cases hself
  · exact hmem

/-- A granted request is an old one, or the caller's own. -/
theorem granted_before (h : s.RequestsConsistent) (hdocumented : s.Documented e)
    (hstep : s.step e = .ok (outcome, final))
    (hmem : ⟨u, mode, true⟩ ∈ (final.queue rid).requestQueue) :
    ⟨u, mode, true⟩ ∈ (s.queue rid).requestQueue ∨
      ∃ a, s.attempt e = some a ∧ a.granted ∧ rid = a.rid ∧ u = a.txnId ∧ mode = a.call.mode := by
  rcases step_cases hstep with ⟨a, ha, hsettles⟩ | ⟨t, other, -, hunlocks⟩ | ⟨-, hquiet⟩
  · by_cases hrid : rid = a.rid
    · subst hrid
      have hnodup := (h.queued hdocumented hstep ha).nodup
      have hown := h.own_mem hdocumented hstep ha
      rw [hsettles.queue] at hmem
      unfold Attempt.settledQueue at hmem
      cases haborted : a.aborted with
      | true =>
          rw [haborted, if_pos rfl] at hmem
          exact Or.inl (granted_of_attempt h hdocumented ha
            ((mem_eraseRequest hnodup).mp hmem).1)
      | false =>
          cases hpasses : a.passes with
          | false =>
              rw [haborted, hpasses] at hmem
              exact Or.inl (granted_of_attempt h hdocumented ha hmem)
          | true =>
              rw [haborted, hpasses, if_neg Bool.noConfusion, if_pos rfl, requestQueue_granted,
                mem_modifyRequest hnodup hown rfl] at hmem
              rcases hmem with ⟨hold, -⟩ | hself
              · exact Or.inl (granted_of_attempt h hdocumented ha hold)
              · -- the request granted now is that of the attempt
                cases hself
                refine Or.inr ⟨a, ha, ?_, rfl, rfl, rfl⟩
                simp [Attempt.granted, haborted, hpasses]
    · rw [hsettles.queue_of_ne rid hrid] at hmem
      exact Or.inl hmem
  · obtain ⟨middle, hunlock, hfinal⟩ := hunlocks.unlock
    obtain ⟨own, -, -, hqueue, hother, -⟩ := unlock_cases s t other hunlock
    have hmiddle : ⟨u, mode, true⟩ ∈ (middle.queue rid).requestQueue := by
      rcases hfinal with rfl | ⟨lockSet, rfl⟩
      · exact hmem
      · exact hmem
    by_cases hrid : rid = other
    · subst hrid
      have herased : (middle.queue rid).requestQueue = eraseRequest t (s.queue rid).requestQueue := by
        rw [hqueue]
        cases own.lockMode <;> rfl
      rw [herased, mem_eraseRequest (h rid).nodup] at hmiddle
      exact Or.inl hmiddle.1
    · rw [hother rid hrid] at hmiddle
      exact Or.inl hmiddle
  · rw [hquiet.queue] at hmem
    exact Or.inl hmem

/-- A grant marks the caller's request. -/
theorem granted_after (h : s.RequestsConsistent) (hdocumented : s.Documented e)
    (hstep : s.step e = .ok (outcome, final)) (ha : s.attempt e = some a) (hgranted : a.granted)
    {wounded : TxnId → Prop} (hsettles : s.Settles wounded a outcome final) :
    ⟨a.txnId, a.call.mode, true⟩ ∈ (final.queue a.rid).requestQueue := by
  have hnodup := (h.queued hdocumented hstep ha).nodup
  have hown := h.own_mem hdocumented hstep ha
  rw [hsettles.queue, Attempt.settledQueue]
  simp only [Attempt.granted, Bool.and_eq_true, Bool.not_eq_true'] at hgranted
  rw [hgranted.1, hgranted.2, if_neg Bool.noConfusion, if_pos rfl, requestQueue_granted,
    mem_modifyRequest hnodup hown rfl]
  exact Or.inr rfl

end LockSystem

end BusTub
