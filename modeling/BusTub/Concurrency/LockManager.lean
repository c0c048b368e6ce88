import BusTub.Concurrency.Transaction
import BusTub.Library.Machine
import Mathlib.Logic.Function.Basic
import Mathlib.Data.Int.Order.Basic

/-! # The lock manager

`LockManager` with the transactions it works on and the thread of each. A lock
call holds `latch_` from its start until it returns, throws or sleeps on the
queue's condition variable, so one step of the system is one such critical
section. `Commit` and `Abort` write the transaction's state without the latch
and release the locks one `Unlock` at a time. Logging is disabled, so the table
operations of `Commit` and `Abort` take no locks and are no part of this system.
-/

namespace BusTub

/-- `LockManager::LockMode`. -/
inductive LockMode where
  | shared
  | exclusive
  deriving DecidableEq, Repr

/-- `LockManager::LockRequest`. -/
structure LockRequest where
  txnId : TxnId
  lockMode : LockMode
  granted : Bool := false
  deriving DecidableEq, Repr

/-- `LockManager::LockRequestQueue`; the condition variable is in the threads. -/
structure LockRequestQueue where
  requestQueue : List LockRequest := []
  upgrading : Bool := false
  sharingCount : Int := 0
  isWriting : Bool := false
  deriving DecidableEq, Repr

/-- The calls that can sleep. -/
inductive LockCall where
  | lockShared
  | lockExclusive
  | lockUpgrade
  deriving DecidableEq, Repr

/-- What the thread of a transaction is doing between two critical sections. -/
inductive Thread where
  | idle
  /-- Asleep in `cv_.wait` of the queue of `rid`; `notified` since it fell asleep. -/
  | waiting (call : LockCall) (rid : RID) (notified : Bool)
  /-- Inside `ReleaseLocks`, with the rids it has still to unlock. -/
  | releasing (lockSet : Finset RID)
  deriving DecidableEq

/-- How a critical section ended. -/
inductive LockOutcome where
  | returned (value : Bool)
  | threw (reason : AbortReason)
  | blocked
  /-- `Commit` or `Abort` wrote the state and goes on to release its locks. -/
  | releasing
  deriving DecidableEq, Repr

/-- The lock manager, the transactions and their threads. -/
structure LockSystem where
  lockTable : RID → Option LockRequestQueue
  /-- The keys of `id_2_txn_`; the pointer stored under a key is that transaction. -/
  id2Txn : Finset TxnId
  txns : TxnId → Transaction
  threads : TxnId → Thread

namespace LockSystem

/-- No lock was ever requested; every transaction has begun at its own level. -/
def initial (levels : TxnId → IsolationLevel) : LockSystem where
  lockTable _ := none
  id2Txn := ∅
  txns t := { isolationLevel := levels t }
  threads _ := .idle

/-- `lock_table_.find(rid)->second`, the empty queue when there is none yet. -/
def queue (s : LockSystem) (rid : RID) : LockRequestQueue := (s.lockTable rid).getD {}

def setQueue (s : LockSystem) (rid : RID) (q : LockRequestQueue) : LockSystem :=
  { s with lockTable := Function.update s.lockTable rid (some q) }

def setTxn (s : LockSystem) (t : TxnId) (txn : Transaction) : LockSystem :=
  { s with txns := Function.update s.txns t txn }

def setThread (s : LockSystem) (t : TxnId) (thread : Thread) : LockSystem :=
  { s with threads := Function.update s.threads t thread }

/-- `txn->SetState(state)`. -/
def setState (s : LockSystem) (t : TxnId) (state : TransactionState) : LockSystem :=
  s.setTxn t { s.txns t with state := state }

/-- `GetIterator`: the first request of the transaction. -/
def getIterator (requestQueue : List LockRequest) (t : TxnId) : Option LockRequest :=
  requestQueue.find? (fun request => request.txnId = t)

/-- Write through the iterator that `GetIterator` returns. -/
def modifyRequest (t : TxnId) (f : LockRequest → LockRequest) :
    List LockRequest → List LockRequest
  | [] => []
  | request :: rest =>
      if request.txnId = t then f request :: rest else request :: modifyRequest t f rest

/-- `request_queue_.erase(iter)` for the iterator that `GetIterator` returns. -/
def eraseRequest (t : TxnId) (requestQueue : List LockRequest) : List LockRequest :=
  requestQueue.eraseP (fun request => request.txnId = t)

/-- `LockPrepare`. The reason is that of the exception it throws. -/
def lockPrepare (s : LockSystem) (t : TxnId) (rid : RID) : Option AbortReason × LockSystem :=
  if (s.txns t).state = .shrinking then
    (some .lockOnShrinking, s.setState t .aborted)
  else
    (none, s.setQueue rid (s.queue rid))

/-- One turn of the loop of `DeadlockPrevent`. -/
def woundRequest (t : TxnId) (rid : RID) (s : LockSystem) (request : LockRequest) : LockSystem :=
  if request.granted ∧ t < request.txnId then
    let s := s.setState request.txnId .aborted
    let q := s.queue rid
    match request.lockMode with
    | .shared => s.setQueue rid { q with sharingCount := q.sharingCount - 1 }
    | .exclusive => s.setQueue rid { q with isWriting := false }
  else s

/-- `DeadlockPrevent`. -/
def deadlockPrevent (s : LockSystem) (t : TxnId) (rid : RID) : LockSystem :=
  (s.queue rid).requestQueue.foldl (woundRequest t rid) s

/-- The lambdas that `cv_.wait` evaluates. -/
def canProceed (s : LockSystem) (t : TxnId) (rid : RID) : LockCall → Bool
  | .lockShared => (s.txns t).state = .aborted ∨ (s.queue rid).isWriting = false
  | .lockExclusive | .lockUpgrade => (s.txns t).state = .aborted ∨
      (s.queue rid).isWriting = false ∧ (s.queue rid).sharingCount = 0

/-- What a lock call does to the queue and the lock sets when it is granted. -/
def grant (s : LockSystem) (t : TxnId) (rid : RID) : LockCall → LockSystem
  | .lockShared =>
      let txn := s.txns t
      let q := s.queue rid
      (s.setTxn t { txn with sharedLockSet := insert rid txn.sharedLockSet }).setQueue rid
        { q with
          sharingCount := q.sharingCount + 1
          requestQueue := modifyRequest t (fun r => { r with granted := true }) q.requestQueue }
  | .lockExclusive =>
      let txn := s.txns t
      let q := s.queue rid
      (s.setTxn t { txn with exclusiveLockSet := insert rid txn.exclusiveLockSet }).setQueue rid
        { q with
          isWriting := true
          requestQueue := modifyRequest t (fun r => { r with granted := true }) q.requestQueue }
  | .lockUpgrade =>
      let txn := s.txns t
      let q := s.queue rid
      (s.setTxn t { txn with exclusiveLockSet := insert rid txn.exclusiveLockSet }).setQueue rid
        { q with
          upgrading := false
          isWriting := true
          requestQueue := modifyRequest t (fun r => { r with granted := true }) q.requestQueue }

/-- From the return of `cv_.wait` (or from the test that skips it) to the end of
the call: `CheckAborted`, which erases the request and throws, or the grant. -/
def finish (s : LockSystem) (t : TxnId) (rid : RID) (call : LockCall) :
    LockOutcome × LockSystem :=
  let s := s.setThread t .idle
  if (s.txns t).state = .aborted then
    let q := s.queue rid
    (.threw .deadlock, s.setQueue rid { q with requestQueue := eraseRequest t q.requestQueue })
  else
    (.returned true, s.grant t rid call)

/-- `cv_.wait(lock, predicate)` and what follows it. The predicate is evaluated
before the thread sleeps and again on each return from the wait. -/
def wait (s : LockSystem) (t : TxnId) (rid : RID) (call : LockCall) : LockOutcome × LockSystem :=
  if s.canProceed t rid call then s.finish t rid call
  else (.blocked, s.setThread t (.waiting call rid false))

/-- `request_queue_.emplace_back(txn_id, mode)`. -/
def pushRequest (s : LockSystem) (t : TxnId) (rid : RID) (mode : LockMode) : LockSystem :=
  let q := s.queue rid
  s.setQueue rid { q with requestQueue := q.requestQueue ++ [⟨t, mode, false⟩] }

/-- `id_2_txn_.emplace(txn_id, txn)`. -/
def register (s : LockSystem) (t : TxnId) : LockSystem := { s with id2Txn := insert t s.id2Txn }

/-- `LockShared`. -/
def lockShared (s : LockSystem) (t : TxnId) (rid : RID) : LockOutcome × LockSystem :=
  let s := s.register t
  if (s.txns t).isolationLevel = .readUncommitted then
    (.threw .lockSharedOnReadUncommitted, s.setState t .aborted)
  else
    match s.lockPrepare t rid with
    | (some reason, s) => (.threw reason, s)
    | (none, s) =>
        let s := s.pushRequest t rid .shared
        if (s.queue rid).isWriting then (s.deadlockPrevent t rid).wait t rid .lockShared
        else s.finish t rid .lockShared

/-- `LockExclusive`. -/
def lockExclusive (s : LockSystem) (t : TxnId) (rid : RID) : LockOutcome × LockSystem :=
  let s := s.register t
  match s.lockPrepare t rid with
  | (some reason, s) => (.threw reason, s)
  | (none, s) =>
      let s := s.pushRequest t rid .exclusive
      if (s.queue rid).isWriting ∨ (s.queue rid).sharingCount > 0 then
        (s.deadlockPrevent t rid).wait t rid .lockExclusive
      else s.finish t rid .lockExclusive

/-- `LockUpgrade` gives up the shared lock before it asks for the exclusive one. -/
def dropShared (s : LockSystem) (t : TxnId) (rid : RID) : LockSystem :=
  let txn := s.txns t
  let q := s.queue rid
  (s.setTxn t { txn with sharedLockSet := txn.sharedLockSet.erase rid }).setQueue rid
    { q with
      sharingCount := q.sharingCount - 1
      requestQueue := modifyRequest t
        (fun r => { r with lockMode := .exclusive, granted := false }) q.requestQueue }

/-- Raise the `upgrading_` flag; `cv_.wait` follows. -/
def setUpgrading (s : LockSystem) (rid : RID) : LockSystem :=
  s.setQueue rid { s.queue rid with upgrading := true }

/-- `LockUpgrade`. There is no result when the queue or the request does not
exist: the source then dereferences an end iterator. -/
def lockUpgrade (s : LockSystem) (t : TxnId) (rid : RID) : Option (LockOutcome × LockSystem) :=
  if (s.txns t).state = .shrinking then
    some (.threw .lockOnShrinking, s.setState t .aborted)
  else if (s.lockTable rid).isNone then none
  else if (s.queue rid).upgrading then
    some (.threw .upgradeConflict, s.setState t .aborted)
  else if (getIterator (s.queue rid).requestQueue t).isNone then none
  else
    let s := s.dropShared t rid
    if (s.queue rid).isWriting ∨ (s.queue rid).sharingCount > 0 then
      some (((s.deadlockPrevent t rid).setUpgrading rid).wait t rid .lockUpgrade)
    else some (s.finish t rid .lockUpgrade)

/-- `cv_.notify_all()` on the queue of `rid`. -/
def notifyAll (s : LockSystem) (rid : RID) : LockSystem :=
  { s with
    threads := fun t =>
      match s.threads t with
      | .waiting call r notified => .waiting call r (notified || (r == rid))
      | thread => thread }

/-- The state change of `Unlock`: the shrinking phase starts, except after a
shared lock at `READ_COMMITTED`. -/
def unlockState (txn : Transaction) (mode : LockMode) : TransactionState :=
  if ¬(mode = .shared ∧ txn.isolationLevel = .readCommitted) ∧ txn.state = .growing then
    .shrinking
  else txn.state

/-- `Unlock`. There is no result when the transaction has no request in the queue. -/
def unlock (s : LockSystem) (t : TxnId) (rid : RID) : Option LockSystem :=
  match getIterator (s.queue rid).requestQueue t with
  | none => none
  | some request =>
      let txn := s.txns t
      let q := s.queue rid
      let requestQueue := eraseRequest t q.requestQueue
      let s := s.setTxn t { txn with
        sharedLockSet := txn.sharedLockSet.erase rid
        exclusiveLockSet := txn.exclusiveLockSet.erase rid
        state := unlockState txn request.lockMode }
      match request.lockMode with
      | .shared =>
          let s := s.setQueue rid
            { q with requestQueue := requestQueue, sharingCount := q.sharingCount - 1 }
          if q.sharingCount - 1 = 0 then some (s.notifyAll rid) else some s
      | .exclusive =>
          some ((s.setQueue rid
            { q with requestQueue := requestQueue, isWriting := false }).notifyAll rid)

/-- The thread of `t` goes on with the rids that `ReleaseLocks` has still to unlock. -/
def releaseRest (s : LockSystem) (t : TxnId) (lockSet : Finset RID) : LockSystem :=
  s.setThread t (if lockSet = ∅ then .idle else .releasing lockSet)

/-- `Commit` and `Abort` up to the first `Unlock`: the state is overwritten, and
`ReleaseLocks` copies both lock sets. -/
def endTxn (s : LockSystem) (t : TxnId) (state : TransactionState) : LockSystem :=
  let s := s.setState t state
  s.releaseRest t ((s.txns t).exclusiveLockSet ∪ (s.txns t).sharedLockSet)

/-- The critical sections that a scheduler can choose from. -/
inductive Event where
  | lockShared (t : TxnId) (rid : RID)
  | lockExclusive (t : TxnId) (rid : RID)
  | lockUpgrade (t : TxnId) (rid : RID)
  | unlock (t : TxnId) (rid : RID)
  | commit (t : TxnId)
  | abort (t : TxnId)
  /-- A sleeping thread holds the latch again, after a notification or spuriously. -/
  | wake (t : TxnId)
  /-- `ReleaseLocks` unlocks one more rid. -/
  | release (t : TxnId) (rid : RID)
  deriving DecidableEq, Repr

/-- Why an event is no step of the system. -/
inductive Fault where
  /-- The thread of the transaction is not at that point of its code. -/
  | notThere
  /-- The call dereferences an end iterator. -/
  | undefined
  deriving DecidableEq, Repr

def orUndefined {α : Type} : Option α → Except Fault α
  | some value => .ok value
  | none => .error .undefined

/-- A new call needs a transaction whose thread is in no other call. -/
def whenIdle (s : LockSystem) (t : TxnId) (result : Except Fault (LockOutcome × LockSystem)) :
    Except Fault (LockOutcome × LockSystem) :=
  if s.threads t = .idle then result else .error .notThere

/-- One critical section. -/
def step (s : LockSystem) : Event → Except Fault (LockOutcome × LockSystem)
  | .lockShared t rid => s.whenIdle t (.ok (s.lockShared t rid))
  | .lockExclusive t rid => s.whenIdle t (.ok (s.lockExclusive t rid))
  | .lockUpgrade t rid => s.whenIdle t (orUndefined (s.lockUpgrade t rid))
  | .unlock t rid => s.whenIdle t
      (orUndefined ((s.unlock t rid).map (fun s => (.returned true, s))))
  | .commit t => s.whenIdle t (.ok (.releasing, s.endTxn t .committed))
  | .abort t => s.whenIdle t (.ok (.releasing, s.endTxn t .aborted))
  | .wake t =>
      match s.threads t with
      | .waiting call rid _ => .ok (s.wait t rid call)
      | _ => .error .notThere
  | .release t rid =>
      match s.threads t with
      | .releasing lockSet =>
          if rid ∈ lockSet then
            orUndefined ((s.unlock t rid).map
              (fun s => (.releasing, s.releaseRest t (lockSet.erase rid))))
          else .error .notThere
      | _ => .error .notThere

/-- The lock manager as a machine: its runs are the interleavings. -/
def machine : Machine LockSystem Event LockOutcome Fault := ⟨step⟩

end LockSystem

end BusTub
