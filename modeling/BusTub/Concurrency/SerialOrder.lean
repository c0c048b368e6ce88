import BusTub.Concurrency.MutualExclusion
import BusTub.Concurrency.ReleasedLocks
import BusTub.Library.Serializability

/-! # Serial orders of transactions

Transactions read and write records that they have locked. What they see and what they leave
is what they would see and leave one after the other, in some order: mutual exclusion and the
two phases of locking come to serializability.
-/

namespace BusTub

/-- What a transaction does with a record: it learns from it, or changes it. -/
inductive RecordUse (V L : Type) where
  | read (learn : L → V → L)
  | write (change : L → V → V)

/-- One use of a record. -/
structure RecordAccess (V L : Type) where
  txn : TxnId
  rid : RID
  use : RecordUse V L

/-- The records, and what each transaction has learned. -/
structure Records (V L : Type) where
  contents : RID → V
  views : TxnId → L

namespace Records

variable {V L : Type}

/-- A transaction reads or writes a record. -/
def access (d : Records V L) (a : RecordAccess V L) : Records V L :=
  match a.use with
  | .read learn =>
      { d with views := Function.update d.views a.txn (learn (d.views a.txn) (d.contents a.rid)) }
  | .write change =>
      { d with
        contents := Function.update d.contents a.rid (change (d.views a.txn) (d.contents a.rid)) }

end Records

/-- The lock that an access is taken under. -/
def RecordAccess.lock {V L : Type} (a : RecordAccess V L) : RID × LockMode :=
  match a.use with
  | .read _ => (a.rid, .shared)
  | .write _ => (a.rid, .exclusive)

/-- The lock manager with the records. -/
structure LockedRecords (V L : Type) where
  locks : LockSystem
  records : Records V L

namespace LockedRecords

variable {V L : Type}

/-- A critical section of the lock manager, or an access to a record. -/
inductive Event (V L : Type) where
  | lock (e : LockSystem.Event)
  | access (a : RecordAccess V L)

/-- Why an event is no step. -/
inductive Fault where
  | lock (fault : LockSystem.Fault)
  /-- The thread of the transaction sleeps in a lock call. -/
  | asleep
  /-- The transaction has not locked the record as the access needs it. -/
  | notLocked
  deriving DecidableEq, Repr

/-- `IsSharedLocked` or `IsExclusiveLocked` for a read, `IsExclusiveLocked` for a write. -/
def isLocked (txn : Transaction) (a : RecordAccess V L) : Bool :=
  match a.use with
  | .read _ => a.rid ∈ txn.sharedLockSet ∨ a.rid ∈ txn.exclusiveLockSet
  | .write _ => a.rid ∈ txn.exclusiveLockSet

/-- One critical section, or one access. -/
def step (s : LockedRecords V L) :
    Event V L → Except Fault (Option LockOutcome × LockedRecords V L)
  | .lock e =>
      match s.locks.step e with
      | .error fault => .error (.lock fault)
      | .ok (outcome, locks) => .ok (some outcome, { s with locks })
  | .access a =>
      match s.locks.threads a.txn with
      | .waiting _ _ _ => .error .asleep
      | .idle | .releasing _ =>
          if isLocked (s.locks.txns a.txn) a then
            .ok (none, { s with records := s.records.access a })
          else .error .notLocked

/-- The lock manager and the records as a machine. -/
def machine (V L : Type) : Machine (LockedRecords V L) (Event V L) (Option LockOutcome) Fault :=
  ⟨step⟩

/-- No lock was requested yet. -/
def start (levels : TxnId → IsolationLevel) (records : Records V L) : LockedRecords V L where
  locks := .initial levels
  records := records

/-- The accesses among the events. -/
def accesses (events : List (Event V L)) : List (RecordAccess V L) :=
  events.filterMap fun
    | .lock _ => none
    | .access a => some a

end LockedRecords

/-! ## Locks by their lock sets -/

namespace LockSystem

/-- Two locks on a record conflict unless both are shared. -/
def Conflicting (k l : RID × LockMode) : Prop := k.1 = l.1 ∧ ¬(k.2 = .shared ∧ l.2 = .shared)

/-- The transaction has a lock that is as good. While it sleeps in an upgrade, its shared lock
counts. -/
def Covers (s : LockSystem) (t : TxnId) (k : RID × LockMode) : Prop :=
  k.1 ∈ (s.txns t).exclusiveLockSet ∨
    k.2 = .shared ∧ (k.1 ∈ (s.txns t).sharedLockSet ∨ s.Upgrading t k.1)

/-- The transaction takes no more locks. -/
def Done (s : LockSystem) (t : TxnId) : Prop := (s.txns t).state ≠ .growing

/-- A transaction takes no lock after `Commit`, and at `READ_COMMITTED` it keeps its shared
locks until then. -/
def LocksUntilEnd (s : LockSystem) : Event → Prop
  | .lockShared t _ | .lockExclusive t _ | .lockUpgrade t _ => (s.txns t).state ≠ .committed
  | .unlock t rid => (s.txns t).isolationLevel = .readCommitted → rid ∉ (s.txns t).sharedLockSet
  | _ => True

/-- Who sleeps is growing, unless it was aborted meanwhile; who releases its locks is not. -/
def StatesFit (s : LockSystem) : Prop :=
  ∀ t, (∀ call rid notified, s.threads t = .waiting call rid notified →
      (s.txns t).state = .growing ∨ (s.txns t).state = .aborted) ∧
    ∀ lockSet, s.threads t = .releasing lockSet → (s.txns t).state ≠ .growing

variable {s final : LockSystem} {t u : TxnId} {rid : RID} {e : Event} {a : Attempt}
  {outcome : LockOutcome} {k : RID × LockMode}

theorem Covers.of_same (h : s.Covers t k) (htxn : final.txns t = s.txns t)
    (hthread : ∀ rid, s.Upgrading t rid → final.Upgrading t rid) : final.Covers t k := by
  rcases h with hexclusive | ⟨hshared, hmem | hupgrading⟩
  · exact Or.inl (htxn ▸ hexclusive)
  · exact Or.inr ⟨hshared, Or.inl (htxn ▸ hmem)⟩
  · exact Or.inr ⟨hshared, Or.inr (hthread _ hupgrading)⟩

/-- A transaction that covers a lock holds one that is as good. -/
theorem RequestsConsistent.holds_of_covers (h : s.RequestsConsistent) (hcovers : s.Covers t k) :
    ∃ mode, s.Holds t k.1 mode ∧ (k.2 = .exclusive → mode = .exclusive) := by
  rcases hcovers with hexclusive | ⟨hshared, hmem | hupgrading⟩
  · exact ⟨.exclusive, Or.inl (((h k.1).exclusive_iff t).mp hexclusive), fun _ => rfl⟩
  · refine ⟨.shared, Or.inl (((h k.1).shared_iff t).mp hmem), fun hnot => ?_⟩
    cases hshared.symm.trans hnot
  · refine ⟨.shared, Or.inr ⟨rfl, hupgrading⟩, fun hnot => ?_⟩
    cases hshared.symm.trans hnot

theorem exclusive_covers (hrequests : s.RequestsConsistent) (h : s.MutuallyExclusive) :
    Serializability.Exclusive Conflicting s.Covers := by
  rintro t u k l hne ht hu ⟨hrid, hconflict⟩
  obtain ⟨mode, hmode, hexclusive⟩ := hrequests.holds_of_covers ht
  obtain ⟨other, hother, hotherExclusive⟩ := hrequests.holds_of_covers hu
  obtain ⟨rfl, rfl⟩ := h k.1 t u mode other hne hmode (hrid ▸ hother)
  refine hconflict ⟨?_, ?_⟩
  · cases hk : k.2 with
    | shared => rfl
    | exclusive => cases hexclusive hk
  · cases hl : l.2 with
    | shared => rfl
    | exclusive => cases hotherExclusive hl

/-! ## States and threads -/

theorem Done.step (h : s.Done t) (hstep : s.step e = .ok (outcome, final)) : final.Done t := by
  obtain ⟨hcommit, hends, hkeeps⟩ := step_state s hstep t
  unfold Done
  by_cases hend : e = .abort t ∨ s.Wounds t e ∨ s.Refuses t e
  · rw [hends hend]
    exact TransactionState.noConfusion
  · by_cases hcommitted : e = .commit t
    · rw [hcommit hcommitted]
      exact TransactionState.noConfusion
    · simp only [not_or] at hend
      rcases hkeeps hcommitted hend.1 hend.2.1 hend.2.2 with hsame | ⟨hgrowing, -⟩
      · rw [hsame]
        exact h
      · exact absurd hgrowing h

/-- No lock call sends a thread to `ReleaseLocks`. -/
theorem releasing_of_lockCall (hcall : e.IsLockCallOf t) (hstep : s.step e = .ok (outcome, final))
    {lockSet : Finset RID} (hthread : final.threads u = .releasing lockSet) :
    s.threads u = .releasing lockSet := by
  rcases step_cases hstep with ⟨a, ha, hsettles⟩ | ⟨v, rid, he, -⟩ | ⟨hnone, -⟩
  · rw [hsettles.threads] at hthread
    by_cases hself : u = a.txnId
    · rw [hself, Function.update_self] at hthread
      unfold Attempt.settledThread at hthread
      split at hthread
      · cases hthread
      · cases hthread
    · rwa [Function.update_of_ne hself] at hthread
  · rcases he with rfl | rfl
    · exact hcall.elim
    · exact hcall.elim
  · rwa [threads_of_attempt_none hstep hcall hnone] at hthread

theorem releasing_of_unlock (hunlock : s.unlock t rid = some final) {lockSet : Finset RID}
    (hthread : final.threads u = .releasing lockSet) : s.threads u = .releasing lockSet := by
  rcases threads_unlock s t rid hunlock u with hsame | ⟨call, -, hnotified⟩
  · rw [← hsame, hthread]
  · cases hthread.symm.trans hnotified

/-- A thread gets to `ReleaseLocks` by the end of its own transaction. -/
theorem releasing_before (hstep : s.step e = .ok (outcome, final)) (hend : ¬ e.IsEndOf u)
    {lockSet : Finset RID} (hthread : final.threads u = .releasing lockSet) :
    s.threads u = .releasing lockSet := by
  have hends : ∀ t state, t ≠ u → (s.endTxn t state).threads u = s.threads u :=
    fun t state hne => Function.update_of_ne (Ne.symm hne) _ _
  cases e with
  | lockShared caller rid =>
      have hcall : (Event.lockShared caller rid).IsLockCallOf caller := rfl
      exact releasing_of_lockCall hcall hstep hthread
  | lockExclusive caller rid =>
      have hcall : (Event.lockExclusive caller rid).IsLockCallOf caller := rfl
      exact releasing_of_lockCall hcall hstep hthread
  | lockUpgrade caller rid =>
      have hcall : (Event.lockUpgrade caller rid).IsLockCallOf caller := rfl
      exact releasing_of_lockCall hcall hstep hthread
  | wake caller =>
      have hcall : (Event.wake caller).IsLockCallOf caller := rfl
      exact releasing_of_lockCall hcall hstep hthread
  | unlock caller rid => exact releasing_of_unlock (step_unlock _ _ _ hstep).2.2 hthread
  | commit ender =>
      obtain ⟨-, -, rfl⟩ := step_commit _ _ hstep
      rwa [hends ender _ hend] at hthread
  | abort ender =>
      obtain ⟨-, -, rfl⟩ := step_abort _ _ hstep
      rwa [hends ender _ hend] at hthread
  | release ender rid =>
      obtain ⟨held, middle, -, -, -, hunlock, rfl⟩ := step_release _ _ _ hstep
      rw [releaseRest_threads, Function.update_of_ne (Ne.symm hend)] at hthread
      exact releasing_of_unlock hunlock hthread

/-- Who makes an attempt is growing, unless it was aborted in its sleep. -/
theorem StatesFit.attempt (h : s.StatesFit) (hlocks : s.LocksUntilEnd e)
    (ha : s.attempt e = some a) : a.txn.state = .growing ∨ a.txn.state = .aborted := by
  have hstates : ∀ state : TransactionState, state ≠ .shrinking → state ≠ .committed →
      state = .growing ∨ state = .aborted := by
    intro state hshrink hcommit
    cases state with
    | growing => exact Or.inl rfl
    | shrinking => exact absurd rfl hshrink
    | committed => exact absurd rfl hcommit
    | aborted => exact Or.inr rfl
  rw [attempt_state ha]
  rcases attempt_cases ha with ⟨t, rid, rfl, -, hshrink, rfl⟩ | ⟨t, rid, rfl, hshrink, rfl⟩ |
    ⟨t, rid, rfl, hshrink, -, rfl⟩ | ⟨t, call, rid, notified, rfl, hthread, rfl⟩
  · exact hstates _ hshrink hlocks
  · exact hstates _ hshrink hlocks
  · exact hstates _ hshrink hlocks
  · exact (h t).1 call rid notified hthread

theorem StatesFit.step (h : s.StatesFit) (hlocks : s.LocksUntilEnd e)
    (hstep : s.step e = .ok (outcome, final)) : final.StatesFit := by
  refine fun u => ⟨fun call rid notified hthread => ?_, fun lockSet hthread => ?_⟩
  · by_cases hcall : e.IsLockCallOf u
    · rcases step_cases hstep with ⟨a, ha, hsettles⟩ | ⟨v, other, he, -⟩ | ⟨hnone, -⟩
      · obtain rfl := hcall.unique (attempt_isLockCallOf ha)
        rw [hsettles.txn, Attempt.settledTxn_state]
        exact h.attempt hlocks ha
      · rcases he with rfl | rfl
        · exact hcall.elim
        · exact hcall.elim
      · rw [threads_of_attempt_none hstep hcall hnone,
          idle_of_attempt_none hstep hcall hnone] at hthread
        cases hthread
    · obtain ⟨earlier, hearlier⟩ := waiting_before hstep hcall hthread
      have hbefore := (h u).1 call rid earlier hearlier
      rcases step_cases hstep with ⟨a, ha, hsettles⟩ | ⟨v, other, -, hunlocks⟩ | ⟨-, hquiet⟩
      · have hne : u ≠ a.txnId := by
          rintro rfl
          exact hcall (attempt_isLockCallOf ha)
        by_cases hwound : s.Wounds u e
        · rw [hsettles.victim u hne hwound]
          exact Or.inr rfl
        · rwa [hsettles.txns_of_ne u hne hwound]
      · have hne : u ≠ v := by
          rintro rfl
          exact hunlocks.awake _ _ _ hearlier
        obtain ⟨middle, hunlock, hfinal⟩ := hunlocks.unlock
        obtain ⟨request, -, htxns, -⟩ := unlock_cases s v other hunlock
        have hsame : final.txns u = s.txns u := by
          rcases hfinal with rfl | ⟨lockSet, rfl⟩
          · rw [htxns, Function.update_of_ne hne]
          · rw [releaseRest_txns, htxns, Function.update_of_ne hne]
        rwa [hsame]
      · rcases hquiet.txns u with hsame | hawake
        · rwa [hsame]
        · exact absurd hearlier (hawake _ _ _)
  · by_cases hend : e.IsEndOf u
    · obtain ⟨hcommit, hends, -⟩ := step_state s hstep u
      cases e with
      | commit ender =>
          obtain rfl : ender = u := hend
          rw [hcommit rfl]
          exact TransactionState.noConfusion
      | abort ender =>
          obtain rfl : ender = u := hend
          rw [hends (Or.inl rfl)]
          exact TransactionState.noConfusion
      | release ender rid =>
          obtain rfl : ender = u := hend
          obtain ⟨held, -, hreleasing, -⟩ := step_release _ _ _ hstep
          have hdone : s.Done ender := (h ender).2 held hreleasing
          exact hdone.step hstep
      | lockShared | lockExclusive | lockUpgrade | unlock | wake => exact hend.elim
    · have hdone : s.Done u := (h u).2 lockSet (releasing_before hstep hend hthread)
      exact hdone.step hstep

/-! ## The phases of a step -/

/-- What an attempt makes of the caller before its test: an upgrade has given up its share. -/
structure Prepared (s : LockSystem) (a : Attempt) : Prop where
  exclusive : a.txn.exclusiveLockSet = (s.txns a.txnId).exclusiveLockSet
  shared : ∀ r, r ∈ a.txn.sharedLockSet → r ∈ (s.txns a.txnId).sharedLockSet
  given : ∀ r, r ∈ (s.txns a.txnId).sharedLockSet →
    r ∈ a.txn.sharedLockSet ∨ r = a.rid ∧ a.call = .lockUpgrade
  upgrading : ∀ r, s.Upgrading a.txnId r → r = a.rid ∧ a.call = .lockUpgrade
  covered : a.call = .lockUpgrade → s.Covers a.txnId (a.rid, .shared)

theorem prepared (hdocumented : s.Documented e) (hstep : s.step e = .ok (outcome, final))
    (ha : s.attempt e = some a) : s.Prepared a := by
  have hidle : ∀ t, s.threads t = .idle → ∀ r, ¬ s.Upgrading t r := by
    rintro t hidle r ⟨notified, hthread⟩
    cases hidle.symm.trans hthread
  rcases attempt_cases ha with ⟨t, rid, rfl, -, -, rfl⟩ | ⟨t, rid, rfl, -, rfl⟩ |
    ⟨t, rid, rfl, -, -, rfl⟩ | ⟨t, call, rid, notified, rfl, hthread, rfl⟩
  · have hawake := hidle t (step_lockShared _ _ _ hstep).1
    exact ⟨rfl, fun _ => id, fun _ => Or.inl, fun r hr => absurd hr (hawake r),
      fun hcall => LockCall.noConfusion hcall⟩
  · have hawake := hidle t (step_lockExclusive _ _ _ hstep).1
    exact ⟨rfl, fun _ => id, fun _ => Or.inl, fun r hr => absurd hr (hawake r),
      fun hcall => LockCall.noConfusion hcall⟩
  · have hawake := hidle t (step_lockUpgrade _ _ _ hstep).1
    have htxn : (s.upgradeAttempt t rid).txn = { s.txns t with
        sharedLockSet := (s.txns t).sharedLockSet.erase rid } := by
      simp [upgradeAttempt, LockSystem.dropShared]
    refine ⟨by rw [htxn]; rfl, fun r hr => ?_, fun r hr => ?_,
      fun r hr => absurd hr (hawake r), fun _ => Or.inr ⟨rfl, Or.inl hdocumented⟩⟩
    · rw [htxn] at hr
      exact Finset.mem_of_mem_erase hr
    · by_cases hrid : r = rid
      · exact Or.inr ⟨hrid, rfl⟩
      · rw [htxn]
        exact Or.inl (Finset.mem_erase.mpr ⟨hrid, hr⟩)
  · refine ⟨rfl, fun _ => id, fun _ => Or.inl, ?_, ?_⟩
    · rintro r ⟨earlier, hupgrading⟩
      cases hthread.symm.trans hupgrading
      exact ⟨rfl, rfl⟩
    · intro hcall
      obtain rfl : call = .lockUpgrade := hcall
      exact Or.inr ⟨rfl, Or.inr ⟨notified, hthread⟩⟩

/-- The caller's locks after an attempt that blocks or throws are locks that it had. -/
theorem Prepared.covers_before (h : s.Prepared a) {wounded : TxnId → Prop}
    (hsettles : s.Settles wounded a outcome final) (hgranted : a.granted = false)
    (hcovers : final.Covers a.txnId k) : s.Covers a.txnId k := by
  have htxn : final.txns a.txnId = a.txn := by
    rw [hsettles.txn, Attempt.settledTxn, hgranted]
    rfl
  rcases hcovers with hexclusive | ⟨hshared, hmem | ⟨notified, hthread⟩⟩
  · rw [htxn, h.exclusive] at hexclusive
    exact Or.inl hexclusive
  · rw [htxn] at hmem
    exact Or.inr ⟨hshared, Or.inl (h.shared _ hmem)⟩
  · -- it sleeps in the upgrade that it has made
    rw [hsettles.threads, Function.update_self] at hthread
    unfold Attempt.settledThread at hthread
    split at hthread
    · cases hthread
    · injection hthread with hcall hrid
      obtain ⟨rid, mode⟩ := k
      obtain rfl : mode = .shared := hshared
      obtain rfl : a.rid = rid := hrid
      exact h.covered hcall

/-- The caller keeps its locks, unless it is aborted. -/
theorem Prepared.covers_after (h : s.Prepared a) {wounded : TxnId → Prop}
    (hsettles : s.Settles wounded a outcome final) (hstate : a.aborted = false)
    (hcovers : s.Covers a.txnId k) : final.Covers a.txnId k := by
  obtain ⟨rid, mode⟩ := k
  have hmode : rid ∈ (s.txns a.txnId).exclusiveLockSet ∨ mode = .shared ∧
      (rid ∈ a.txn.sharedLockSet ∨ rid = a.rid ∧ a.call = .lockUpgrade) := by
    rcases hcovers with hexclusive | ⟨hshared, hmem | hupgrading⟩
    · exact Or.inl hexclusive
    · exact Or.inr ⟨hshared, h.given rid hmem⟩
    · exact Or.inr ⟨hshared, Or.inr (h.upgrading rid hupgrading)⟩
  unfold Covers
  rw [hsettles.txn, Attempt.settledTxn]
  cases hpasses : a.passes with
  | true =>
      have hgranted : a.granted = true := by simp [Attempt.granted, hstate, hpasses]
      rw [hgranted, if_pos rfl]
      rcases hmode with hexclusive | ⟨hshared, hmem | ⟨rfl, hcall⟩⟩
      · rw [← h.exclusive] at hexclusive
        left
        cases a.call <;> simp [grantedTxn, hexclusive]
      · refine Or.inr ⟨hshared, Or.inl ?_⟩
        cases a.call <;> simp [grantedTxn, hmem]
      · rw [hcall]
        exact Or.inl (Finset.mem_insert_self _ _)
  | false =>
      have hgranted : a.granted = false := by simp [Attempt.granted, hpasses]
      rw [hgranted, if_neg Bool.noConfusion]
      rcases hmode with hexclusive | ⟨hshared, hmem | ⟨rfl, hcall⟩⟩
      · exact Or.inl (h.exclusive ▸ hexclusive)
      · exact Or.inr ⟨hshared, Or.inl hmem⟩
      · refine Or.inr ⟨hshared, Or.inr ⟨false, ?_⟩⟩
        rw [hsettles.threads, Function.update_self, Attempt.settledThread, hstate, hpasses, hcall]
        rfl

/-- An attempt changes the locks of no other transaction. -/
theorem covers_of_ne (hwounds : ∀ victim, ¬ s.Wounds victim e)
    (hsettles : s.Settles (s.Wounds · e) a outcome final) (hne : t ≠ a.txnId) :
    final.Covers t k ↔ s.Covers t k := by
  have htxn := hsettles.txns_of_ne t hne (hwounds t)
  have hupgrading : ∀ rid, final.Upgrading t rid ↔ s.Upgrading t rid := by
    intro rid
    unfold Upgrading
    rw [hsettles.threads, Function.update_of_ne hne]
  exact ⟨fun h => h.of_same htxn.symm fun rid => (hupgrading rid).mp,
    fun h => h.of_same htxn fun rid => (hupgrading rid).mpr⟩

/-- `Unlock` takes one record from one transaction, which is done then. -/
theorem Unlocks.phases (hunlocks : s.Unlocks t rid final)
    (hdone : (s.txns t).state = .growing → (final.txns t).state ≠ .growing)
    (hstep : s.step e = .ok (outcome, final)) :
    Serializability.Phases s.Covers final.Covers s.Done final.Done := by
  obtain ⟨middle, hunlock, hfinal⟩ := hunlocks.unlock
  obtain ⟨request, -, htxns, -⟩ := unlock_cases s t rid hunlock
  have hafter : final.txns = middle.txns := by
    rcases hfinal with rfl | ⟨lockSet, rfl⟩
    · rfl
    · rfl
  refine ⟨fun u k hbefore hlost => ?_, fun u k _ hcovers => ?_, fun u h => h.step hstep⟩
  · by_cases hself : u = t
    · subst hself
      by_cases hgrowing : (s.txns u).state = .growing
      · exact hdone hgrowing
      · have h : s.Done u := hgrowing
        exact h.step hstep
    · refine absurd (hbefore.of_same ?_ fun rid => hunlocks.upgrading_iff.mpr) hlost
      rw [hafter, htxns, Function.update_of_ne hself]
  · rcases hcovers with hexclusive | ⟨hshared, hmem | hupgrading⟩
    · left
      rw [hafter, htxns] at hexclusive
      by_cases hself : u = t
      · subst hself
        rw [Function.update_self] at hexclusive
        exact Finset.mem_of_mem_erase hexclusive
      · rwa [Function.update_of_ne hself] at hexclusive
    · refine Or.inr ⟨hshared, Or.inl ?_⟩
      rw [hafter, htxns] at hmem
      by_cases hself : u = t
      · subst hself
        rw [Function.update_self] at hmem
        exact Finset.mem_of_mem_erase hmem
      · rwa [Function.update_of_ne hself] at hmem
    · exact Or.inr ⟨hshared, Or.inr (hunlocks.upgrading_iff.mp hupgrading)⟩

/-- A refused call, and the beginning of `Commit` or `Abort`, leave the locks alone. -/
theorem Quiet.covers_iff (hquiet : s.Quiet outcome final) :
    final.Covers t k ↔ s.Covers t k := by
  have hupgrading : final.Upgrading t k.1 ↔ s.Upgrading t k.1 := by
    rcases hquiet.threads t with hsame | ⟨hbefore, hafter⟩
    · unfold Upgrading
      rw [hsame]
    · exact iff_of_false (fun ⟨_, hthread⟩ => hafter _ _ _ hthread)
        fun ⟨_, hthread⟩ => hbefore _ _ _ hthread
  unfold Covers
  rw [hquiet.sharedLockSet, hquiet.exclusiveLockSet, hupgrading]

/-- In every critical section, who loses a lock is done, and who is done gets none. -/
theorem phases_step (hrequests : s.RequestsConsistent) (hfit : s.StatesFit)
    (hnobody : s.WoundsNobody e) (hlocks : s.LocksUntilEnd e)
    (hstep : s.step e = .ok (outcome, final)) :
    Serializability.Phases s.Covers final.Covers s.Done final.Done := by
  rcases step_cases hstep with ⟨a, ha, hsettles⟩ | ⟨t, rid, he, hunlocks⟩ | ⟨-, hquiet⟩
  · have hprepared := prepared hnobody.1 hstep ha
    have hstate : (final.txns a.txnId).state = a.txn.state := by
      rw [hsettles.txn, Attempt.settledTxn_state]
    refine ⟨fun u k hbefore hlost => ?_, fun u k hdone hcovers => ?_, fun u h => h.step hstep⟩
    · by_cases hself : u = a.txnId
      · subst hself
        cases haborted : a.aborted with
        | true =>
            have hstop : a.txn.state = .aborted := by simpa [Attempt.aborted] using haborted
            unfold Done
            rw [hstate, hstop]
            exact TransactionState.noConfusion
        | false => exact absurd (hprepared.covers_after hsettles haborted hbefore) hlost
      · exact absurd ((covers_of_ne hnobody.2 hsettles hself).mpr hbefore) hlost
    · by_cases hself : u = a.txnId
      · subst hself
        cases hgranted : a.granted with
        | true =>
            -- who is granted a lock is still growing
            simp only [Attempt.granted, Bool.and_eq_true, Bool.not_eq_true'] at hgranted
            have hgrowing : a.txn.state = .growing := by
              refine (hfit.attempt hlocks ha).resolve_right fun hstop => ?_
              simp [Attempt.aborted, hstop] at hgranted
            exact absurd (hstate.trans hgrowing) hdone
        | false => exact hprepared.covers_before hsettles hgranted hcovers
      · exact (covers_of_ne hnobody.2 hsettles hself).mp hcovers
  · refine hunlocks.phases ?_ hstep
    intro hgrowing
    obtain ⟨middle, hunlock, hfinal⟩ := hunlocks.unlock
    obtain ⟨request, hiter, htxns, -⟩ := unlock_cases s t rid hunlock
    have hafter : (final.txns t).state = unlockState (s.txns t) request.lockMode := by
      rcases hfinal with rfl | ⟨lockSet, rfl⟩
      · rw [htxns, Function.update_self]
      · rw [releaseRest_txns, htxns, Function.update_self]
    rw [hafter]
    rcases he with rfl | rfl
    · -- a shared lock at `READ_COMMITTED` would be given back too early
      have hcounts :
          ¬(request.lockMode = .shared ∧ (s.txns t).isolationLevel = .readCommitted) := by
        rintro ⟨hmode, hlevel⟩
        obtain ⟨hmem, hid⟩ := (getIterator_eq_some (hrequests rid).nodup).mp hiter
        have hgranted := hrequests.granted_of_awake hunlocks.awake hmem hid
        obtain ⟨id, mode, granted⟩ := request
        obtain rfl : id = t := hid
        obtain rfl : granted = true := hgranted
        obtain rfl : mode = .shared := hmode
        exact hlocks hlevel (((hrequests rid).shared_iff id).mpr hmem)
      unfold unlockState
      rw [if_pos ⟨hcounts, hgrowing⟩]
      exact TransactionState.noConfusion
    · obtain ⟨lockSet, -, hthread, -⟩ := step_release _ _ _ hstep
      exact absurd hgrowing ((hfit t).2 lockSet hthread)
  · exact ⟨fun u k hbefore hlost => absurd (hquiet.covers_iff.mpr hbefore) hlost,
      fun u k _ hcovers => hquiet.covers_iff.mp hcovers, fun u h => h.step hstep⟩

end LockSystem

/-! ## Runs -/

namespace LockedRecords

open LockSystem Serializability

variable {V L : Type} {s final : LockedRecords V L} {e : Event V L} {events : List (Event V L)}
  {history : List (RecordAccess V L)} {outcome : Option LockOutcome}

/-- The lock calls keep the holders of each record apart, and go on until the end. -/
def KeepsPhases (s : LockedRecords V L) : Event V L → Prop
  | .lock e => s.locks.KeepsApart e ∧ s.locks.LocksUntilEnd e
  | .access _ => True

/-- Accesses under locks that do not conflict commute. -/
theorem access_independent : Independent RecordAccess.txn (Records.access (V := V) (L := L))
    fun a b => Conflicting a.lock b.lock := by
  rintro ⟨t, rid, first⟩ ⟨u, other, second⟩ hne hconflict d
  have htxn : t ≠ u := hne
  cases first with
  | read learn =>
      cases second with
      | read learn' =>
          simp only [Records.access, Function.update_of_ne htxn, Function.update_of_ne htxn.symm]
          rw [Function.update_comm htxn]
      | write change =>
          have hrid : rid ≠ other := fun heq => hconflict ⟨heq, fun hshared => nomatch hshared.2⟩
          simp only [Records.access, Function.update_of_ne htxn.symm, Function.update_of_ne hrid]
  | write change =>
      cases second with
      | read learn =>
          have hrid : rid ≠ other := fun heq => hconflict ⟨heq, fun hshared => nomatch hshared.1⟩
          simp only [Records.access, Function.update_of_ne htxn, Function.update_of_ne hrid.symm]
      | write change' =>
          have hrid : rid ≠ other := fun heq => hconflict ⟨heq, fun hshared => nomatch hshared.1⟩
          simp only [Records.access, Function.update_of_ne hrid, Function.update_of_ne hrid.symm]
          rw [Function.update_comm hrid]

/-- What the lock manager keeps in order. -/
structure Steady (s : LockSystem) : Prop where
  requests : s.RequestsConsistent
  apart : ∀ rid, s.ApartAt rid
  fit : s.StatesFit

theorem steady_initial (levels : TxnId → IsolationLevel) : Steady (.initial levels) where
  requests := requestsConsistent_initial levels
  apart := apartAt_initial levels
  fit := by
    intro t
    refine ⟨fun call rid notified hthread => ?_, fun lockSet hthread => ?_⟩
    · cases hthread
    · cases hthread

theorem Steady.step {s final : LockSystem} {e : LockSystem.Event} {outcome : LockOutcome}
    (h : Steady s) (hapart : s.KeepsApart e) (hlocks : s.LocksUntilEnd e)
    (hstep : s.step e = .ok (outcome, final)) : Steady final where
  requests := h.requests.step hapart.1.1 hstep
  apart rid := (h.apart rid).step h.requests (hapart.at rid) hstep
  fit := h.fit.step hlocks hstep

/-- A transaction accesses a record under the lock for it. -/
theorem covers_of_isLocked {a : RecordAccess V L}
    (h : isLocked (s.locks.txns a.txn) a = true) : s.locks.Covers a.txn a.lock := by
  obtain ⟨t, rid, use⟩ := a
  cases use with
  | read learn =>
      rcases of_decide_eq_true h with hshared | hexclusive
      · exact Or.inr ⟨rfl, Or.inl hshared⟩
      · exact Or.inl hexclusive
  | write change => exact Or.inl (of_decide_eq_true h)

/-- The accesses of a history, each under its lock. -/
abbrev Scheduled (s : LockSystem) (history : List (RecordAccess V L)) : Prop :=
  Schedule RecordAccess.lock RecordAccess.txn Conflicting LockSystem.Covers LockSystem.Done s
    history

theorem Steady.exclusive {s : LockSystem} (h : Steady s) : Exclusive Conflicting s.Covers :=
  exclusive_covers h.requests (mutuallyExclusive_of_apartAt h.apart)

/-- One event extends the history by its access, if it is one. -/
theorem step_scheduled (hsteady : Steady s.locks) (h : Scheduled s.locks history)
    (hguard : s.KeepsPhases e) (hstep : s.step e = .ok (outcome, final)) :
    Steady final.locks ∧ Scheduled final.locks (history ++ accesses [e]) ∧
      final.records = (accesses [e]).foldl Records.access s.records := by
  cases e with
  | lock e =>
      cases hlock : s.locks.step e with
      | error fault =>
          simp only [step, hlock] at hstep
          cases hstep
      | ok result =>
          obtain ⟨returned, locks⟩ := result
          simp only [step, hlock] at hstep
          cases hstep
          obtain ⟨hapart, hlocks⟩ := hguard
          have hphases := phases_step hsteady.requests hsteady.fit hapart.1 hlocks hlock
          refine ⟨hsteady.step hapart hlocks hlock, ?_, rfl⟩
          have hscheduled : Scheduled locks history := h.locks hsteady.exclusive hphases
          simpa [accesses] using hscheduled
  | access a =>
      simp only [step] at hstep
      split at hstep
      · cases hstep
      all_goals
        split at hstep
        next hlocked =>
          cases hstep
          exact ⟨hsteady, h.step a hsteady.exclusive (covers_of_isLocked hlocked), rfl⟩
        · cases hstep

theorem run_scheduled (hsteady : Steady s.locks) (h : Scheduled s.locks history)
    (hreach : (machine V L).Reaches s events final)
    (hguard : (machine V L).Guarded KeepsPhases s events) :
    Scheduled final.locks (history ++ accesses events) ∧
      final.records = (accesses events).foldl Records.access s.records := by
  induction events generalizing s history with
  | nil =>
      rw [Machine.reaches_nil] at hreach
      subst hreach
      exact ⟨by simpa [accesses] using h, rfl⟩
  | cons e rest ih =>
      obtain ⟨outcome, middle, hstep, hrest⟩ := Machine.reaches_cons.mp hreach
      obtain ⟨hmiddle, hscheduled, hrecords⟩ := step_scheduled hsteady h hguard.1 hstep
      obtain ⟨hfinal, hfinalRecords⟩ :=
        ih hmiddle hscheduled hrest (hguard.2 outcome middle hstep)
      have hsplit : accesses (e :: rest) = accesses [e] ++ accesses rest := by
        rw [← List.singleton_append]
        exact List.filterMap_append
      refine ⟨?_, ?_⟩
      · rw [hsplit, ← List.append_assoc]
        exact hfinal
      · rw [hsplit, List.foldl_append, ← hrecords]
        exact hfinalRecords

/-- Whatever the interleaving, every transaction has learned what it would have learned if the
transactions had run one after the other, in some order, and the records are what these would
have left; as long as nobody is wounded and no waiting upgrade is passed, and each takes its
locks before it ends. -/
theorem run_serializable {levels : TxnId → IsolationLevel} {records : Records V L}
    (hreach : (machine V L).Reaches (start levels records) events s)
    (hguard : (machine V L).Guarded KeepsPhases (start levels records) events) :
    ∃ order : List TxnId, order.Nodup ∧ (∀ a ∈ accesses events, a.txn ∈ order) ∧
      s.records =
        (serial RecordAccess.txn order (accesses events)).foldl Records.access records := by
  have hstart : Scheduled (start levels records).locks ([] : List (RecordAccess V L)) := .start _
  obtain ⟨hscheduled, hrecords⟩ := run_scheduled (steady_initial levels) hstart hreach hguard
  have hsymm : ∀ k l : RID × LockMode, Conflicting k l → Conflicting l k :=
    fun _ _ hconflict => ⟨hconflict.1.symm, fun hshared => hconflict.2 hshared.symm⟩
  obtain ⟨order, hnodup, hall, hserial⟩ := hscheduled.serializable hsymm access_independent
  exact ⟨order, hnodup, hall, hrecords.trans (hserial records)⟩

/-- Transaction 2 reads one record before transaction 1 writes the other, and that one after. -/
def interleaved : List (Event Nat Nat) :=
  [.lock (.lockExclusive 1 ⟨0, 0⟩), .lock (.lockShared 2 ⟨0, 1⟩),
    .access ⟨2, ⟨0, 1⟩, .read fun seen value => seen + value⟩,
    .access ⟨1, ⟨0, 0⟩, .write fun _ value => value + 5⟩, .lock (.lockShared 2 ⟨0, 0⟩),
    .lock (.commit 1), .lock (.release 1 ⟨0, 0⟩), .lock (.wake 2),
    .access ⟨2, ⟨0, 0⟩, .read fun seen value => seen + value⟩]

theorem keepsPhases_interleaved : (machine Nat Nat).Guarded KeepsPhases
    (start (fun _ => .repeatableRead) ⟨fun _ => 1, fun _ => 0⟩) interleaved := by
  refine (Machine.guarded_cons_of_step rfl _).mpr ⟨⟨⟨⟨by decide, ?_⟩, ?_⟩, ?_⟩, ?_⟩
  · rintro victim ⟨-, hblocked, -⟩
    exact absurd hblocked (by decide)
  · rintro t rid - u - ⟨notified, hthread⟩
    cases hthread
  · exact TransactionState.noConfusion
  refine (Machine.guarded_cons_of_step rfl _).mpr ⟨⟨⟨⟨by decide, ?_⟩, ?_⟩, ?_⟩, ?_⟩
  · exact fun _ hwound => Bool.noConfusion hwound.2.2.1
  · exact fun _ _ hgrants => hgrants.elim
  · exact TransactionState.noConfusion
  refine (Machine.guarded_cons_of_step rfl _).mpr ⟨trivial, ?_⟩
  refine (Machine.guarded_cons_of_step rfl _).mpr ⟨trivial, ?_⟩
  refine (Machine.guarded_cons_of_step rfl _).mpr ⟨⟨⟨⟨by decide, ?_⟩, ?_⟩, ?_⟩, ?_⟩
  · rintro victim ⟨-, -, -, request, hmem, -⟩
    exact absurd hmem (by decide +revert)
  · exact fun _ _ hgrants => hgrants.elim
  · exact TransactionState.noConfusion
  refine (Machine.guarded_cons_of_step rfl _).mpr ⟨⟨⟨⟨trivial, fun _ h => h⟩, ?_⟩, trivial⟩, ?_⟩
  · exact fun _ _ hgrants => hgrants.elim
  refine (Machine.guarded_cons_of_step rfl _).mpr ⟨⟨⟨⟨trivial, fun _ h => h⟩, ?_⟩, trivial⟩, ?_⟩
  · exact fun _ _ hgrants => hgrants.elim
  refine (Machine.guarded_cons_of_step rfl _).mpr ⟨⟨⟨⟨trivial, fun _ h => h⟩, ?_⟩, trivial⟩, ?_⟩
  · rintro t rid ⟨rfl, ⟨notified, hthread⟩, -⟩
    cases hthread
  exact (Machine.guarded_cons_of_step rfl _).mpr ⟨trivial, trivial⟩

theorem run_serializable_interleaved : ∃ s order,
    (machine Nat Nat).Reaches (start (fun _ => .repeatableRead) ⟨fun _ => 1, fun _ => 0⟩)
      interleaved s ∧ s.records.views 2 = 7 ∧
      s.records = (serial RecordAccess.txn order (accesses interleaved)).foldl Records.access
        ⟨fun _ => 1, fun _ => 0⟩ := by
  obtain ⟨s, hreach, hview⟩ : ∃ s, (machine Nat Nat).Reaches
      (start (fun _ => .repeatableRead) ⟨fun _ => 1, fun _ => 0⟩) interleaved s ∧
        s.records.views 2 = 7 := ⟨_, ⟨_, rfl⟩, rfl⟩
  obtain ⟨order, -, -, hserial⟩ := run_serializable hreach keepsPhases_interleaved
  exact ⟨s, order, hreach, hview, hserial⟩

end LockedRecords

end BusTub
