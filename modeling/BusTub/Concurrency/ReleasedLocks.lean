import BusTub.Concurrency.LockRequests
import Mathlib.Data.Finset.Lattice.Lemmas

/-! # The locks of a transaction that has ended

`ReleaseLocks` unlocks the rids of the lock sets, and an `Unlock` erases one request. So
nothing of a transaction is left in the queues if it has no more than one request in each,
and none without the rid in a lock set unless it sleeps there. Which mode a request has, and
whether it is granted, does not matter. The owner of an exclusive lock that asks for an
upgrade waits for itself; once it is wounded, its `Abort` finds no request and does not return.
-/

namespace BusTub.LockSystem

variable {s final : LockSystem} {t u : TxnId} {rid other : RID} {e : Event} {a : Attempt}
  {outcome : LockOutcome}

/-- A rid that the transaction has locked is asked for by `LockUpgrade` only. -/
def AsksOnce (s : LockSystem) : Event → Prop
  | .lockShared t rid | .lockExclusive t rid =>
      rid ∉ (s.txns t).sharedLockSet ∧ rid ∉ (s.txns t).exclusiveLockSet
  | _ => True

instance (s : LockSystem) : DecidablePred s.AsksOnce
  | .lockShared t rid | .lockExclusive t rid => inferInstanceAs
      (Decidable (rid ∉ (s.txns t).sharedLockSet ∧ rid ∉ (s.txns t).exclusiveLockSet))
  | .lockUpgrade _ _ | .unlock _ _ | .commit _ | .abort _ | .wake _ | .release _ _ =>
      inferInstanceAs (Decidable True)

/-- Whose requests are in the queue. -/
def askers (q : LockRequestQueue) : List TxnId := q.requestQueue.map LockRequest.txnId

/-- The transaction has the rid in a lock set, or sleeps on its queue. -/
def Accounts (s : LockSystem) (t : TxnId) (rid : RID) : Prop :=
  rid ∈ (s.txns t).sharedLockSet ∨ rid ∈ (s.txns t).exclusiveLockSet ∨
    (s.threads t).waitingMode rid ≠ none

/-- Each transaction has one request at most in a queue, and none that it does not account
for; one that is in `ReleaseLocks` has still to unlock whatever is in its lock sets. -/
structure Accounted (s : LockSystem) : Prop where
  nodup : ∀ rid, (askers (s.queue rid)).Nodup
  accounts : ∀ rid, ∀ t ∈ askers (s.queue rid), s.Accounts t rid
  releasing : ∀ t lockSet, s.threads t = .releasing lockSet →
    (s.txns t).exclusiveLockSet ∪ (s.txns t).sharedLockSet ⊆ lockSet

theorem accounted_initial (levels : TxnId → IsolationLevel) : (initial levels).Accounted where
  nodup _ := List.nodup_nil
  accounts _ _ hmem := absurd hmem List.not_mem_nil
  releasing _ _ hthread := nomatch hthread

theorem Accounts.congr (h : s.Accounts t rid)
    (hshared : rid ∈ (final.txns t).sharedLockSet ↔ rid ∈ (s.txns t).sharedLockSet)
    (hexclusive : rid ∈ (final.txns t).exclusiveLockSet ↔ rid ∈ (s.txns t).exclusiveLockSet)
    (hmode : (final.threads t).waitingMode rid = (s.threads t).waitingMode rid) :
    final.Accounts t rid := by
  unfold Accounts
  rw [hshared, hexclusive, hmode]
  exact h

/-- An idle transaction has no request for a rid that is not in its lock sets. -/
theorem Accounted.not_asked (h : s.Accounted) (hawake : s.Awake t)
    (hshared : rid ∉ (s.txns t).sharedLockSet) (hexclusive : rid ∉ (s.txns t).exclusiveLockSet) :
    t ∉ askers (s.queue rid) := by
  intro hmem
  rcases h.accounts rid t hmem with hin | hin | hmode
  · exact hshared hin
  · exact hexclusive hin
  · exact hmode (waitingMode_of_awake hawake rid)

/-! ## Attempts -/

/-- The caller is the only one whose request can be new. -/
theorem Accounted.askers_attempt (h : s.Accounted) (hasks : s.AsksOnce e)
    (hstep : s.step e = .ok (outcome, final)) (ha : s.attempt e = some a) :
    (askers a.queue).Nodup ∧ ∀ u ∈ askers a.queue, u = a.txnId ∨ u ∈ askers (s.queue a.rid) := by
  have hnew : ∀ t rid call mode busy, s.threads t = .idle →
      rid ∉ (s.txns t).sharedLockSet → rid ∉ (s.txns t).exclusiveLockSet →
      (askers (s.newAttempt t rid call mode busy).queue).Nodup ∧
        ∀ u ∈ askers (s.newAttempt t rid call mode busy).queue,
          u = t ∨ u ∈ askers (s.queue rid) := by
    intro t rid call mode busy hidle hshared hexclusive
    have hqueue : askers (s.newAttempt t rid call mode busy).queue =
        askers (s.queue rid) ++ [t] := by
      unfold askers
      rw [requestQueue_newAttempt, List.map_append]
      rfl
    have habsent := h.not_asked (awake_of_idle hidle) hshared hexclusive
    rw [hqueue]
    refine ⟨(List.nodup_append_comm.mp (List.nodup_cons.mpr ⟨habsent, h.nodup rid⟩)), ?_⟩
    intro u hmem
    rcases List.mem_append.mp hmem with hold | hself
    · exact Or.inr hold
    · exact Or.inl (List.mem_singleton.mp hself)
  rcases attempt_cases ha with ⟨t, rid, rfl, -, -, rfl⟩ | ⟨t, rid, rfl, -, rfl⟩ |
    ⟨t, rid, rfl, -, -, rfl⟩ | ⟨t, call, rid, notified, rfl, -, rfl⟩
  · exact hnew t rid _ _ _ (step_lockShared _ _ _ hstep).1 hasks.1 hasks.2
  · exact hnew t rid _ _ _ (step_lockExclusive _ _ _ hstep).1 hasks.1 hasks.2
  · have hqueue : askers (s.upgradeAttempt t rid).queue = askers (s.queue rid) := by
      unfold askers
      rw [requestQueue_upgradeAttempt]
      exact map_txnId_modifyRequest fun _ => rfl
    rw [hqueue]
    exact ⟨h.nodup rid, fun _ => Or.inr⟩
  · exact ⟨h.nodup rid, fun _ => Or.inr⟩

/-- The settled queue has no new requests, and none of a caller that threw. -/
theorem askers_settledQueue (hnodup : (askers a.queue).Nodup) :
    (askers a.settledQueue).Nodup ∧ ∀ u ∈ askers a.settledQueue,
      u ∈ askers a.queue ∧ (u = a.txnId → a.aborted = false) := by
  unfold Attempt.settledQueue
  cases haborted : a.aborted with
  | true =>
      refine ⟨nodup_eraseRequest hnodup, fun u hmem => ?_⟩
      obtain ⟨request, hrequest, rfl⟩ := List.mem_map.mp hmem
      obtain ⟨hold, hne⟩ := (mem_eraseRequest hnodup).mp hrequest
      exact ⟨List.mem_map_of_mem hold, fun hself => absurd hself hne⟩
  | false =>
      have hqueue : askers (if a.passes then grantedQueue a.txnId a.queue a.call else a.queue) =
          askers a.queue := by
        split
        · unfold askers
          rw [requestQueue_granted]
          exact map_txnId_modifyRequest fun _ => rfl
        · rfl
      rw [if_neg Bool.noConfusion, hqueue]
      exact ⟨hnodup, fun u hmem => ⟨hmem, fun _ => rfl⟩⟩

/-- A caller that did not throw has the rid now, or sleeps for it. -/
theorem Settles.accounts {wounded : TxnId → Prop} (hsettles : s.Settles wounded a outcome final)
    (haborted : a.aborted = false) : final.Accounts a.txnId a.rid := by
  unfold Accounts
  rw [hsettles.txn, hsettles.threads, Function.update_self, Attempt.settledTxn,
    Attempt.settledThread, Attempt.granted, haborted]
  cases a.passes with
  | true =>
      cases hcall : a.call with
      | lockShared => exact Or.inl (Finset.mem_insert_self _ _)
      | lockExclusive | lockUpgrade => exact Or.inr (Or.inl (Finset.mem_insert_self _ _))
  | false =>
      refine Or.inr (Or.inr ?_)
      simp [Thread.waitingMode]

theorem Accounted.settles (h : s.Accounted) (hasks : s.AsksOnce e)
    (hstep : s.step e = .ok (outcome, final)) (ha : s.attempt e = some a)
    {wounded : TxnId → Prop} (hsettles : s.Settles wounded a outcome final) :
    final.Accounted := by
  obtain ⟨hnodup, hattempt⟩ := h.askers_attempt hasks hstep ha
  obtain ⟨hsettledNodup, hsettled⟩ := askers_settledQueue hnodup
  -- the others have what they had
  have htxns : ∀ u, u ≠ a.txnId → (final.txns u).sharedLockSet = (s.txns u).sharedLockSet ∧
      (final.txns u).exclusiveLockSet = (s.txns u).exclusiveLockSet := by
    intro u hne
    by_cases hwound : wounded u
    · rw [hsettles.victim u hne hwound]
      exact ⟨rfl, rfl⟩
    · rw [hsettles.txns_of_ne u hne hwound]
      exact ⟨rfl, rfl⟩
  have hthreads : ∀ u, u ≠ a.txnId → final.threads u = s.threads u := by
    intro u hne
    rw [hsettles.threads, Function.update_of_ne hne]
  refine ⟨fun rid => ?_, fun rid u hmem => ?_, fun u lockSet hthread => ?_⟩
  · by_cases hrid : rid = a.rid
    · rw [hrid, hsettles.queue]
      exact hsettledNodup
    · rw [hsettles.queue_of_ne rid hrid]
      exact h.nodup rid
  · by_cases hself : u = a.txnId
    · subst hself
      by_cases hrid : rid = a.rid
      · rw [hrid, hsettles.queue] at hmem
        rw [hrid]
        exact hsettles.accounts ((hsettled _ hmem).2 rfl)
      · obtain ⟨hshared, hexclusive, hmode⟩ :=
          RequestsConsistent.settled_of_ne hstep ha hrid
        rw [hsettles.queue_of_ne rid hrid] at hmem
        refine (h.accounts rid _ hmem).congr ?_ ?_ ?_
        · rw [hsettles.txn]
          exact hshared
        · rw [hsettles.txn]
          exact hexclusive
        · rw [hsettles.threads, Function.update_self]
          exact hmode
    · have hold : u ∈ askers (s.queue rid) := by
        by_cases hrid : rid = a.rid
        · rw [hrid, hsettles.queue] at hmem
          rw [hrid]
          exact (hattempt u (hsettled u hmem).1).resolve_left hself
        · rwa [hsettles.queue_of_ne rid hrid] at hmem
      refine (h.accounts rid u hold).congr ?_ ?_ ?_
      · rw [(htxns u hself).1]
      · rw [(htxns u hself).2]
      · rw [hthreads u hself]
  · have hne : u ≠ a.txnId := by
      rintro rfl
      rw [hsettles.threads, Function.update_self, Attempt.settledThread] at hthread
      split at hthread
      · cases hthread
      · cases hthread
    rw [hthreads u hne] at hthread
    rw [(htxns u hne).1, (htxns u hne).2]
    exact h.releasing u lockSet hthread

/-! ## Unlock -/

/-- `Unlock` erases the request, and the rid from the lock sets of its transaction. -/
theorem askers_unlock {middle : LockSystem} (hunlock : s.unlock t rid = some middle)
    (hnodup : (askers (s.queue rid)).Nodup) :
    (askers (middle.queue rid)).Nodup ∧
      ∀ u, u ∈ askers (middle.queue rid) ↔ u ∈ askers (s.queue rid) ∧ u ≠ t := by
  obtain ⟨own, -, -, hqueue, -⟩ := unlock_cases s t rid hunlock
  have herased : (middle.queue rid).requestQueue = eraseRequest t (s.queue rid).requestQueue := by
    rw [hqueue]
    cases own.lockMode <;> rfl
  unfold askers
  rw [herased]
  refine ⟨nodup_eraseRequest hnodup, fun u => ?_⟩
  constructor
  · intro hmem
    obtain ⟨request, hrequest, rfl⟩ := List.mem_map.mp hmem
    obtain ⟨hold, hne⟩ := (mem_eraseRequest hnodup).mp hrequest
    exact ⟨List.mem_map_of_mem hold, hne⟩
  · rintro ⟨hmem, hne⟩
    obtain ⟨request, hold, rfl⟩ := List.mem_map.mp hmem
    exact List.mem_map_of_mem ((mem_eraseRequest hnodup).mpr ⟨hold, hne⟩)

/-- The other threads sleep on what they slept on, or release what they released. -/
theorem threads_unlock_iff {middle : LockSystem} (hunlock : s.unlock t rid = some middle) :
    (∀ other, (middle.threads u).waitingMode other = (s.threads u).waitingMode other) ∧
      ∀ lockSet, middle.threads u = .releasing lockSet → s.threads u = .releasing lockSet := by
  rcases threads_unlock s t rid hunlock u with hsame | ⟨call, ⟨earlier, hbefore⟩, hafter⟩
  · rw [hsame]
    exact ⟨fun _ => rfl, fun _ => id⟩
  · rw [hbefore, hafter]
    exact ⟨fun _ => rfl, fun _ => nofun⟩

theorem Accounted.unlock (h : s.Accounted) {middle : LockSystem}
    (hunlock : s.unlock t rid = some middle) (hawake : s.Awake t) : middle.Accounted := by
  obtain ⟨own, -, htxns, -, hother, -⟩ := unlock_cases s t rid hunlock
  obtain ⟨hnodup, hmem⟩ := askers_unlock hunlock (h.nodup rid)
  have hshared : ∀ u other, u ≠ t ∨ other ≠ rid →
      (other ∈ (middle.txns u).sharedLockSet ↔ other ∈ (s.txns u).sharedLockSet) ∧
      (other ∈ (middle.txns u).exclusiveLockSet ↔ other ∈ (s.txns u).exclusiveLockSet) := by
    intro u other hne
    rw [htxns]
    by_cases hself : u = t
    · subst hself
      have hrid := hne.resolve_left (not_not.mpr rfl)
      simp [hrid]
    · simp [hself]
  have haccounts : ∀ u other, u ≠ t ∨ other ≠ rid → s.Accounts u other →
      middle.Accounts u other := by
    intro u other hne hold
    obtain ⟨hone, htwo⟩ := hshared u other hne
    exact hold.congr hone htwo ((threads_unlock_iff hunlock).1 other)
  refine ⟨fun other => ?_, fun other u hasker => ?_, fun u lockSet hthread => ?_⟩
  · by_cases hrid : other = rid
    · rw [hrid]
      exact hnodup
    · rw [hother other hrid]
      exact h.nodup other
  · by_cases hrid : other = rid
    · subst hrid
      obtain ⟨hold, hne⟩ := (hmem u).mp hasker
      exact haccounts u other (Or.inl hne) (h.accounts other u hold)
    · rw [hother other hrid] at hasker
      exact haccounts u other (Or.inr hrid) (h.accounts other u hasker)
  · have hold := h.releasing u lockSet ((threads_unlock_iff hunlock).2 lockSet hthread)
    refine Finset.Subset.trans ?_ hold
    rw [htxns]
    by_cases hself : u = t
    · subst hself
      rw [Function.update_self]
      exact Finset.union_subset_union (Finset.erase_subset _ _) (Finset.erase_subset _ _)
    · rw [Function.update_of_ne hself]

/-! ## The end of a transaction -/

/-- The critical section is one of `Commit` or `Abort` of the transaction. -/
def Event.IsEndOf (t : TxnId) : Event → Prop
  | .commit ender | .abort ender | .release ender _ => ender = t
  | _ => False

/-- Nothing of the transaction is left, neither in its lock sets nor in a queue. -/
structure Released (s : LockSystem) (t : TxnId) : Prop where
  sharedLockSet : (s.txns t).sharedLockSet = ∅
  exclusiveLockSet : (s.txns t).exclusiveLockSet = ∅
  requests : ∀ rid, ∀ request ∈ (s.queue rid).requestQueue, request.txnId ≠ t

/-- The lock sets and the requests of the other transactions are what they were. -/
structure KeepsOthers (s : LockSystem) (t : TxnId) (final : LockSystem) : Prop where
  sharedLockSet : ∀ u, u ≠ t → (final.txns u).sharedLockSet = (s.txns u).sharedLockSet
  exclusiveLockSet : ∀ u, u ≠ t → (final.txns u).exclusiveLockSet = (s.txns u).exclusiveLockSet
  requests : ∀ rid, (final.queue rid).requestQueue.filter (fun r => r.txnId ≠ t) =
    (s.queue rid).requestQueue.filter (fun r => r.txnId ≠ t)

theorem releaseRest_threads (lockSet : Finset RID) : (s.releaseRest t lockSet).threads =
    Function.update s.threads t (if lockSet = ∅ then .idle else .releasing lockSet) := rfl

/-- `Commit` or `Abort` has these rids left to unlock, and goes on with them or returns. -/
theorem Accounted.releaseRest (h : s.Accounted) (hawake : s.Awake t) {lockSet : Finset RID}
    (hrest : (s.txns t).exclusiveLockSet ∪ (s.txns t).sharedLockSet ⊆ lockSet) :
    (s.releaseRest t lockSet).Accounted ∧
      ((s.releaseRest t lockSet).threads t = .idle → (s.releaseRest t lockSet).Released t) := by
  refine ⟨⟨h.nodup, fun rid u hmem => ?_, fun u held hthread => ?_⟩, fun hidle => ?_⟩
  · refine (h.accounts rid u hmem).congr Iff.rfl Iff.rfl ?_
    by_cases hself : u = t
    · subst hself
      rw [waitingMode_of_awake (awake_releaseRest lockSet), waitingMode_of_awake hawake]
    · rw [releaseRest_threads, Function.update_of_ne hself]
  · rw [releaseRest_threads] at hthread
    by_cases hself : u = t
    · subst hself
      rw [Function.update_self] at hthread
      split at hthread
      · cases hthread
      · cases hthread
        exact hrest
    · rw [Function.update_of_ne hself] at hthread
      exact h.releasing u held hthread
  · rw [releaseRest_threads, Function.update_self] at hidle
    split at hidle
    next hempty =>
      rw [hempty, Finset.subset_empty, Finset.union_eq_empty] at hrest
      refine ⟨hrest.2, hrest.1, fun rid request hmem hself => ?_⟩
      have habsent : t ∉ askers (s.queue rid) := by
        apply h.not_asked hawake
        · rw [hrest.2]
          exact Finset.notMem_empty rid
        · rw [hrest.1]
          exact Finset.notMem_empty rid
      exact habsent (hself ▸ List.mem_map_of_mem hmem)
    · cases hidle

theorem filter_eraseRequest (requests : List LockRequest) :
    (eraseRequest t requests).filter (fun r => r.txnId ≠ t) =
      requests.filter (fun r => r.txnId ≠ t) := by
  unfold eraseRequest
  induction requests with
  | nil => rfl
  | cons head rest ih =>
      by_cases hid : head.txnId = t
      · rw [List.eraseP_cons_of_pos (by simpa using hid), List.filter_cons_of_neg (by simpa using hid)]
      · rw [List.eraseP_cons_of_neg (by simpa using hid), List.filter_cons_of_pos (by simpa using hid),
          List.filter_cons_of_pos (by simpa using hid), ih]

theorem keepsOthers_unlock {middle : LockSystem} (hunlock : s.unlock t rid = some middle) :
    s.KeepsOthers t middle := by
  obtain ⟨own, -, htxns, hqueue, hother, -⟩ := unlock_cases s t rid hunlock
  refine ⟨fun u hne => ?_, fun u hne => ?_, fun other => ?_⟩
  · rw [htxns, Function.update_of_ne hne]
  · rw [htxns, Function.update_of_ne hne]
  · by_cases hrid : other = rid
    · have herased : (middle.queue rid).requestQueue =
          eraseRequest t (s.queue rid).requestQueue := by
        rw [hqueue]
        cases own.lockMode <;> rfl
      rw [hrid, herased, filter_eraseRequest]
    · rw [hother other hrid]

theorem Accounted.endTxn (h : s.Accounted) (hidle : s.threads t = .idle)
    (state : TransactionState) :
    (s.endTxn t state).Accounted ∧ s.KeepsOthers t (s.endTxn t state) ∧
      ((s.endTxn t state).threads t = .idle → (s.endTxn t state).Released t) := by
  have hlocks : ∀ u, ((s.setState t state).txns u).sharedLockSet = (s.txns u).sharedLockSet ∧
      ((s.setState t state).txns u).exclusiveLockSet = (s.txns u).exclusiveLockSet := by
    intro u
    rw [txns_setState]
    by_cases hself : u = t
    · subst hself
      rw [Function.update_self]
      exact ⟨rfl, rfl⟩
    · rw [Function.update_of_ne hself]
      exact ⟨rfl, rfl⟩
  have hwritten : (s.setState t state).Accounted := by
    refine ⟨h.nodup, fun rid u hmem => ?_, fun u lockSet hthread => ?_⟩
    · refine (h.accounts rid u hmem).congr ?_ ?_ rfl
      · rw [(hlocks u).1]
      · rw [(hlocks u).2]
    · rw [(hlocks u).1, (hlocks u).2]
      exact h.releasing u lockSet hthread
  have hawake : (s.setState t state).Awake t := awake_of_idle hidle
  obtain ⟨haccounted, hreleased⟩ := hwritten.releaseRest hawake (Finset.Subset.refl _)
  exact ⟨haccounted, ⟨fun u _ => (hlocks u).1, fun u _ => (hlocks u).2, fun _ => rfl⟩, hreleased⟩

theorem Accounted.release (h : s.Accounted)
    (hstep : s.step (.release t rid) = .ok (outcome, final)) :
    final.Accounted ∧ s.KeepsOthers t final ∧
      (final.threads t = .idle → final.Released t) := by
  obtain ⟨lockSet, middle, hthread, -, -, hunlock, rfl⟩ := step_release _ _ _ hstep
  have hawake := awake_of_releasing hthread
  have hmiddle := h.unlock hunlock hawake
  have hrest : (middle.txns t).exclusiveLockSet ∪ (middle.txns t).sharedLockSet ⊆
      lockSet.erase rid := by
    obtain ⟨own, -, htxns, -⟩ := unlock_cases s t rid hunlock
    rw [htxns, Function.update_self, ← Finset.erase_union_distrib]
    exact Finset.erase_subset_erase rid (h.releasing t lockSet hthread)
  obtain ⟨haccounted, hreleased⟩ := hmiddle.releaseRest (unlocks_awake hunlock hawake) hrest
  have hkeeps := keepsOthers_unlock hunlock
  exact ⟨haccounted, ⟨hkeeps.sharedLockSet, hkeeps.exclusiveLockSet, hkeeps.requests⟩, hreleased⟩

/-- A section of `Commit` or `Abort` keeps the account, takes nothing from the others, and if
the call returns with it, nothing of its own transaction is left. -/
theorem Accounted.isEndOf (h : s.Accounted) (hend : e.IsEndOf t)
    (hstep : s.step e = .ok (outcome, final)) :
    final.Accounted ∧ s.KeepsOthers t final ∧
      (final.threads t = .idle → final.Released t) := by
  cases e with
  | commit ender =>
      obtain rfl : ender = t := hend
      obtain ⟨hidle, -, rfl⟩ := step_commit _ _ hstep
      exact h.endTxn hidle .committed
  | abort ender =>
      obtain rfl : ender = t := hend
      obtain ⟨hidle, -, rfl⟩ := step_abort _ _ hstep
      exact h.endTxn hidle .aborted
  | release ender rid =>
      obtain rfl : ender = t := hend
      exact h.release hstep
  | lockShared | lockExclusive | lockUpgrade | unlock | wake => exact hend.elim

/-! ## Runs -/

/-- A lock call that is refused at its start leaves the threads alone. -/
theorem threads_of_attempt_none (hstep : s.step e = .ok (outcome, final))
    (hcall : e.IsLockCallOf t) (hnone : s.attempt e = none) : final.threads = s.threads := by
  cases e with
  | lockShared caller rid =>
      obtain ⟨-, hresult⟩ := step_lockShared _ _ _ hstep
      by_cases hlevel : (s.txns caller).isolationLevel = .readUncommitted
      · rw [lockShared_of_level _ _ _ hlevel] at hresult
        cases hresult
        rfl
      · by_cases hshrink : (s.txns caller).state = .shrinking
        · rw [lockShared_of_shrinking _ _ _ hlevel hshrink] at hresult
          cases hresult
          rfl
        · simp [attempt, hlevel, hshrink] at hnone
  | lockExclusive caller rid =>
      obtain ⟨-, hresult⟩ := step_lockExclusive _ _ _ hstep
      by_cases hshrink : (s.txns caller).state = .shrinking
      · rw [lockExclusive_of_shrinking _ _ _ hshrink] at hresult
        cases hresult
        rfl
      · simp [attempt, hshrink] at hnone
  | lockUpgrade caller rid =>
      obtain ⟨-, hresult⟩ := step_lockUpgrade _ _ _ hstep
      rcases lockUpgrade_cases s caller rid hresult with
        ⟨-, hrefused⟩ | ⟨-, -, hrefused⟩ | ⟨hshrink, hupgrading, -, -⟩
      · cases hrefused
        rfl
      · cases hrefused
        rfl
      · simp [attempt, hshrink, hupgrading] at hnone
  | wake caller =>
      obtain ⟨call, rid, notified, hthread, -⟩ := step_wake _ _ hstep
      simp [attempt, hthread] at hnone
  | unlock | commit | abort | release => exact hcall.elim

theorem Accounted.lockCall (h : s.Accounted) (hasks : s.AsksOnce e)
    (hcall : e.IsLockCallOf t) (hstep : s.step e = .ok (outcome, final)) : final.Accounted := by
  rcases step_cases hstep with ⟨a, ha, hsettles⟩ | ⟨u, rid, he, -⟩ | ⟨hnone, hquiet⟩
  · exact h.settles hasks hstep ha hsettles
  · rcases he with rfl | rfl
    · exact hcall.elim
    · exact hcall.elim
  · have hthreads := threads_of_attempt_none hstep hcall hnone
    refine ⟨fun rid => ?_, fun rid u hmem => ?_, fun u lockSet hthread => ?_⟩
    · rw [hquiet.queue]
      exact h.nodup rid
    · rw [hquiet.queue] at hmem
      refine (h.accounts rid u hmem).congr ?_ ?_ ?_
      · rw [hquiet.sharedLockSet]
      · rw [hquiet.exclusiveLockSet]
      · rw [hthreads]
    · rw [hquiet.sharedLockSet, hquiet.exclusiveLockSet]
      exact h.releasing u lockSet (hthreads ▸ hthread)

theorem Accounted.step (h : s.Accounted) (hasks : s.AsksOnce e)
    (hstep : s.step e = .ok (outcome, final)) : final.Accounted := by
  cases e with
  | lockShared caller rid => exact h.lockCall hasks rfl hstep
  | lockExclusive caller rid => exact h.lockCall hasks rfl hstep
  | lockUpgrade caller rid => exact h.lockCall hasks rfl hstep
  | wake caller => exact h.lockCall hasks rfl hstep
  | unlock caller rid =>
      obtain ⟨hidle, -, hunlock⟩ := step_unlock _ _ _ hstep
      exact h.unlock hunlock (awake_of_idle hidle)
  | commit ender =>
      have hend : (Event.commit ender).IsEndOf ender := rfl
      exact (h.isEndOf hend hstep).1
  | abort ender =>
      have hend : (Event.abort ender).IsEndOf ender := rfl
      exact (h.isEndOf hend hstep).1
  | release ender rid =>
      have hend : (Event.release ender rid).IsEndOf ender := rfl
      exact (h.isEndOf hend hstep).1

/-- When `Commit` or `Abort` returns, the lock sets of the transaction are empty and it has no
request in any queue; and no section of the call took anything from another transaction.
The `Abort` after an upgrade of an exclusive lock is outside: it is the fault `.undefined`. -/
theorem run_released (levels : TxnId → IsolationLevel) {events : List Event}
    (hguard : machine.Guarded AsksOnce (initial levels) events)
    (hreach : machine.Reaches (initial levels) events s) (hend : e.IsEndOf t)
    (hstep : s.step e = .ok (outcome, final)) :
    (final.threads t = .idle → final.Released t) ∧ s.KeepsOthers t final := by
  have haccounted : s.Accounted := by
    refine hreach.invariant Accounted ?_ hguard (accounted_initial levels)
    exact fun _ _ _ _ h hasks hstep => h.step hasks hstep
  obtain ⟨-, hkeeps, hreleased⟩ := haccounted.isEndOf hend hstep
  exact ⟨hreleased, hkeeps⟩

/-- Transaction `1` is wounded by `0`, which takes one of its two locks over, and aborts. -/
def woundedAbort : List Event :=
  [.lockExclusive 1 ⟨0, 0⟩, .lockShared 1 ⟨0, 1⟩, .lockExclusive 0 ⟨0, 0⟩, .abort 1,
    .release 1 ⟨0, 0⟩]

theorem run_released_woundedAbort : ∃ s outcome final,
    machine.Reaches (initial fun _ => .repeatableRead) woundedAbort s ∧
      s.step (.release 1 ⟨0, 1⟩) = .ok (outcome, final) ∧ final.threads 1 = .idle ∧
      (final.threads 1 = .idle → final.Released 1) ∧ s.KeepsOthers 1 final := by
  have hguard : machine.Guarded AsksOnce (initial fun _ => .repeatableRead) woundedAbort := by
    decide
  have hend : (Event.release 1 ⟨0, 1⟩).IsEndOf 1 := rfl
  refine ⟨_, _, _, ⟨_, rfl⟩, rfl, rfl, ?_⟩
  exact run_released _ hguard ⟨_, rfl⟩ hend rfl

end BusTub.LockSystem
