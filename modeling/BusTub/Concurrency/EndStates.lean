import BusTub.Concurrency.LockSteps

/-! # The end states of transactions

The diagram of `TransactionState` has no edge out of `COMMITTED` or `ABORTED`.
The code overwrites the state field without looking at it in four places. This
module says which critical sections take a transaction from one end state to
the other, and that the end states are final in exactly the runs that have no
such section.
-/

namespace BusTub.LockSystem

variable (s : LockSystem)

/-- The critical section runs `DeadlockPrevent` and wounds the transaction. -/
def Wounds (s : LockSystem) (victim : TxnId) : Event → Prop
  | .lockShared t rid =>
      (s.txns t).isolationLevel ≠ .readUncommitted ∧ (s.txns t).state ≠ .shrinking ∧
        (s.queue rid).isWriting ∧ s.WoundedBy t rid victim
  | .lockExclusive t rid =>
      (s.txns t).state ≠ .shrinking ∧
        ((s.queue rid).isWriting ∨ (s.queue rid).sharingCount > 0) ∧ s.WoundedBy t rid victim
  | .lockUpgrade t rid =>
      (s.txns t).state ≠ .shrinking ∧ (s.queue rid).upgrading = false ∧
        ((s.queue rid).isWriting ∨ (s.queue rid).sharingCount - 1 > 0) ∧
        (s.dropShared t rid).WoundedBy t rid victim
  | _ => False

instance (s : LockSystem) (victim : TxnId) : DecidablePred (s.Wounds victim)
  | .lockShared t rid => inferInstanceAs (Decidable (
      (s.txns t).isolationLevel ≠ .readUncommitted ∧ (s.txns t).state ≠ .shrinking ∧
        (s.queue rid).isWriting ∧ s.WoundedBy t rid victim))
  | .lockExclusive t rid => inferInstanceAs (Decidable (
      (s.txns t).state ≠ .shrinking ∧
        ((s.queue rid).isWriting ∨ (s.queue rid).sharingCount > 0) ∧ s.WoundedBy t rid victim))
  | .lockUpgrade t rid => inferInstanceAs (Decidable (
      (s.txns t).state ≠ .shrinking ∧ (s.queue rid).upgrading = false ∧
        ((s.queue rid).isWriting ∨ (s.queue rid).sharingCount - 1 > 0) ∧
        (s.dropShared t rid).WoundedBy t rid victim))
  | .unlock _ _ | .commit _ | .abort _ | .wake _ | .release _ _ =>
      inferInstanceAs (Decidable False)

/-- The critical section is a lock call that refuses its own transaction by
setting it to `ABORTED` before it throws. -/
def Refuses (s : LockSystem) (t : TxnId) : Event → Prop
  | .lockShared caller _ => caller = t ∧
      ((s.txns t).isolationLevel = .readUncommitted ∨ (s.txns t).state = .shrinking)
  | .lockExclusive caller _ => caller = t ∧ (s.txns t).state = .shrinking
  | .lockUpgrade caller rid => caller = t ∧
      ((s.txns t).state = .shrinking ∨ (s.queue rid).upgrading)
  | _ => False

theorem lockShared_state (t u : TxnId) (rid : RID) :
    (s.Wounds u (.lockShared t rid) ∨ s.Refuses u (.lockShared t rid) →
      ((s.lockShared t rid).2.txns u).state = .aborted) ∧
    (¬ s.Wounds u (.lockShared t rid) → ¬ s.Refuses u (.lockShared t rid) →
      ((s.lockShared t rid).2.txns u).state = (s.txns u).state) := by
  by_cases hlevel : (s.txns t).isolationLevel = .readUncommitted
  · rw [lockShared_of_level _ _ _ hlevel]
    by_cases hself : u = t
    · subst hself
      simp [Refuses, hlevel]
    · have hne : ¬ t = u := Ne.symm hself
      simp [Wounds, Refuses, hlevel, hself, hne]
  · by_cases hshrink : (s.txns t).state = .shrinking
    · rw [lockShared_of_shrinking _ _ _ hlevel hshrink]
      by_cases hself : u = t
      · subst hself
        simp [Refuses, hshrink]
      · have hne : ¬ t = u := Ne.symm hself
        simp [Wounds, Refuses, hshrink, hself, hne]
    · rw [lockShared_of_passed _ _ _ hlevel hshrink, settle_state]
      have hrefuse : ¬ s.Refuses u (.lockShared t rid) := by
        rintro ⟨rfl, hcase⟩
        exact hcase.elim hlevel hshrink
      simp only [woundedBy_enqueue, txns_enqueue, hrefuse, Wounds, hlevel, hshrink, ne_eq,
        not_false_eq_true, true_and, or_false, forall_const]
      exact ⟨fun hwound => if_pos hwound, fun hwound => if_neg hwound⟩

theorem lockExclusive_state (t u : TxnId) (rid : RID) :
    (s.Wounds u (.lockExclusive t rid) ∨ s.Refuses u (.lockExclusive t rid) →
      ((s.lockExclusive t rid).2.txns u).state = .aborted) ∧
    (¬ s.Wounds u (.lockExclusive t rid) → ¬ s.Refuses u (.lockExclusive t rid) →
      ((s.lockExclusive t rid).2.txns u).state = (s.txns u).state) := by
  by_cases hshrink : (s.txns t).state = .shrinking
  · rw [lockExclusive_of_shrinking _ _ _ hshrink]
    by_cases hself : u = t
    · subst hself
      simp [Refuses, hshrink]
    · have hne : ¬ t = u := Ne.symm hself
      simp [Wounds, Refuses, hshrink, hself, hne]
  · rw [lockExclusive_of_passed _ _ _ hshrink, settle_state]
    have hrefuse : ¬ s.Refuses u (.lockExclusive t rid) := by
      rintro ⟨rfl, hcase⟩
      exact hshrink hcase
    simp only [woundedBy_enqueue, txns_enqueue, hrefuse, Wounds, hshrink, ne_eq,
      not_false_eq_true, true_and, or_false, forall_const, exclusiveBusy, decide_eq_true_eq]
    exact ⟨fun hwound => if_pos hwound, fun hwound => if_neg hwound⟩

theorem lockUpgrade_state (t u : TxnId) (rid : RID) {result : LockOutcome × LockSystem}
    (hcall : s.lockUpgrade t rid = some result) :
    (s.Wounds u (.lockUpgrade t rid) ∨ s.Refuses u (.lockUpgrade t rid) →
      (result.2.txns u).state = .aborted) ∧
    (¬ s.Wounds u (.lockUpgrade t rid) → ¬ s.Refuses u (.lockUpgrade t rid) →
      (result.2.txns u).state = (s.txns u).state) := by
  rcases lockUpgrade_cases s t rid hcall with
    ⟨hshrink, rfl⟩ | ⟨hshrink, hupgrading, rfl⟩ | ⟨hshrink, hupgrading, -, rfl⟩
  · by_cases hself : u = t
    · subst hself
      simp [Refuses, hshrink]
    · have hne : ¬ t = u := Ne.symm hself
      simp [Wounds, Refuses, hshrink, hself, hne]
  · by_cases hself : u = t
    · subst hself
      simp [Refuses, hupgrading]
    · have hne : ¬ t = u := Ne.symm hself
      simp [Wounds, Refuses, hupgrading, hself, hne]
  · have hrefuse : ¬ s.Refuses u (.lockUpgrade t rid) := by
      rintro ⟨rfl, hcase⟩
      rcases hcase with hcase | hcase
      · exact hshrink hcase
      · rw [hupgrading] at hcase
        exact Bool.noConfusion hcase
    rw [settleUpgrade_state, dropShared_state]
    simp only [hrefuse, Wounds, hshrink, hupgrading, ne_eq, not_false_eq_true, true_and,
      or_false, forall_const, exclusiveBusy, decide_eq_true_eq, queue_dropShared_self]
    exact ⟨fun hwound => if_pos hwound, fun hwound => if_neg hwound⟩

/-- Everything a critical section can do to the state of a transaction. -/
theorem step_state {e : Event} {outcome : LockOutcome} {final : LockSystem}
    (hstep : s.step e = .ok (outcome, final)) (u : TxnId) :
    (e = .commit u → (final.txns u).state = .committed) ∧
    (e = .abort u ∨ s.Wounds u e ∨ s.Refuses u e → (final.txns u).state = .aborted) ∧
    (e ≠ .commit u → e ≠ .abort u → ¬ s.Wounds u e → ¬ s.Refuses u e →
      (final.txns u).state = (s.txns u).state ∨
        (s.txns u).state = .growing ∧ (final.txns u).state = .shrinking) := by
  cases e with
  | lockShared t rid =>
      obtain ⟨-, hcall⟩ := step_lockShared _ _ _ hstep
      have hstate := lockShared_state s t u rid
      rw [hcall] at hstate
      simp only [reduceCtorEq, false_or, ne_eq, not_false_eq_true, forall_const, false_implies,
        true_and]
      exact ⟨hstate.1, fun hwound hrefuse => Or.inl (hstate.2 hwound hrefuse)⟩
  | lockExclusive t rid =>
      obtain ⟨-, hcall⟩ := step_lockExclusive _ _ _ hstep
      have hstate := lockExclusive_state s t u rid
      rw [hcall] at hstate
      simp only [reduceCtorEq, false_or, ne_eq, not_false_eq_true, forall_const, false_implies,
        true_and]
      exact ⟨hstate.1, fun hwound hrefuse => Or.inl (hstate.2 hwound hrefuse)⟩
  | lockUpgrade t rid =>
      obtain ⟨-, hcall⟩ := step_lockUpgrade _ _ _ hstep
      have hstate := lockUpgrade_state s t u rid hcall
      simp only [reduceCtorEq, false_or, ne_eq, not_false_eq_true, forall_const, false_implies,
        true_and]
      exact ⟨hstate.1, fun hwound hrefuse => Or.inl (hstate.2 hwound hrefuse)⟩
  | unlock t rid =>
      obtain ⟨-, -, hunlock⟩ := step_unlock _ _ _ hstep
      simp [Wounds, Refuses, unlock_state s t u rid hunlock]
  | release t rid =>
      obtain ⟨lockSet, middle, -, -, -, hunlock, rfl⟩ := step_release _ _ _ hstep
      simp [Wounds, Refuses, releaseRest_txns, unlock_state s t u rid hunlock]
  | wake t =>
      obtain ⟨call, rid, notified, -, hwait⟩ := step_wake _ _ hstep
      have hstate : (final.txns u).state = (s.txns u).state := by
        rw [← wait_state s t u rid call, hwait]
      simp [Wounds, Refuses, hstate]
  | commit t =>
      obtain ⟨-, -, rfl⟩ := step_commit _ _ hstep
      by_cases hself : u = t
      · subst hself
        simp [Wounds, Refuses, endTxn, releaseRest_txns]
      · have hne : ¬ t = u := Ne.symm hself
        simp [Wounds, Refuses, endTxn, releaseRest_txns, hself, hne]
  | abort t =>
      obtain ⟨-, -, rfl⟩ := step_abort _ _ hstep
      by_cases hself : u = t
      · subst hself
        simp [Wounds, Refuses, endTxn, releaseRest_txns]
      · have hne : ¬ t = u := Ne.symm hself
        simp [Wounds, Refuses, endTxn, releaseRest_txns, hself, hne]

/-- The critical section overwrites no end state with the other one: `Commit` is
not called on an aborted transaction, and neither `Abort`, nor `DeadlockPrevent`,
nor a refused lock call sets a committed one to `ABORTED`. -/
def KeepsEndStates (s : LockSystem) (e : Event) : Prop :=
  ∀ t, (e = .commit t → (s.txns t).state ≠ .aborted) ∧
    (e = .abort t ∨ s.Wounds t e ∨ s.Refuses t e → (s.txns t).state ≠ .committed)

/-- In every state of a run and every later state of it, no transaction has gone
from one end state to the other. -/
def EndStatesFinal (s : LockSystem) (events : List Event) : Prop :=
  ∀ before between after earlier later, events = before ++ between ++ after →
    machine.Reaches s before earlier → machine.Reaches earlier between later →
    ∀ t, ((earlier.txns t).state = .aborted → (later.txns t).state ≠ .committed) ∧
      ((earlier.txns t).state = .committed → (later.txns t).state ≠ .aborted)

theorem keepsEndStates_step {e : Event} {outcome : LockOutcome} {final : LockSystem}
    (hkeep : s.KeepsEndStates e) (hstep : s.step e = .ok (outcome, final)) (t : TxnId) :
    ((s.txns t).state = .aborted → (final.txns t).state = .aborted) ∧
    ((s.txns t).state = .committed → (final.txns t).state = .committed) := by
  obtain ⟨hcommit, habort, helse⟩ := step_state s hstep t
  obtain ⟨hnotCommit, hnotAbort⟩ := hkeep t
  constructor
  · intro hstate
    by_cases hends : e = .abort t ∨ s.Wounds t e ∨ s.Refuses t e
    · exact habort hends
    · simp only [not_or] at hends
      have hne : e ≠ .commit t := fun he => hnotCommit he hstate
      rcases helse hne hends.1 hends.2.1 hends.2.2 with hsame | ⟨hgrowing, -⟩
      · rw [hsame, hstate]
      · rw [hstate] at hgrowing
        cases hgrowing
  · intro hstate
    by_cases hends : e = .commit t
    · exact hcommit hends
    · have hnot : ¬(e = .abort t ∨ s.Wounds t e ∨ s.Refuses t e) :=
        fun hends => hnotAbort hends hstate
      simp only [not_or] at hnot
      rcases helse hends hnot.1 hnot.2.1 hnot.2.2 with hsame | ⟨hgrowing, -⟩
      · rw [hsame, hstate]
      · rw [hstate] at hgrowing
        cases hgrowing

theorem keepsEndStates_run {final : LockSystem} {events : List Event}
    (hreach : machine.Reaches s events final) (hguard : machine.Guarded KeepsEndStates s events)
    (t : TxnId) (state : TransactionState) (hend : state = .aborted ∨ state = .committed)
    (hstate : (s.txns t).state = state) : (final.txns t).state = state := by
  refine hreach.invariant (fun current => (current.txns t).state = state) ?_ hguard hstate
  intro current e outcome next hcurrent hkeep hstep
  obtain ⟨haborted, hcommitted⟩ := keepsEndStates_step current hkeep hstep t
  rcases hend with rfl | rfl
  · exact haborted hcurrent
  · exact hcommitted hcurrent

/-- The end states of a run are final if and only if none of its critical
sections overwrites one with the other. -/
theorem endStatesFinal_iff {final : LockSystem} {events : List Event}
    (hreach : machine.Reaches s events final) :
    s.EndStatesFinal events ↔ machine.Guarded KeepsEndStates s events := by
  constructor
  · intro hfinal
    induction events generalizing s with
    | nil => trivial
    | cons e rest ih =>
        obtain ⟨outcome, middle, hstep, hrest⟩ := Machine.reaches_cons.mp hreach
        have hone : machine.Reaches s [e] middle :=
          Machine.reaches_cons.mpr ⟨outcome, middle, hstep, Machine.reaches_nil.mpr rfl⟩
        refine ⟨?_, ?_⟩
        · intro t
          obtain ⟨hcommit, habort, -⟩ := step_state s hstep t
          have hstates := hfinal [] [e] rest s middle (by simp) (Machine.reaches_nil.mpr rfl) hone t
          exact ⟨fun he hstate => hstates.1 hstate (hcommit he),
            fun he hstate => hstates.2 hstate (habort he)⟩
        · intro outcome' middle' hstep'
          have hsame : middle' = middle := by
            have heq := hstep'.symm.trans hstep
            cases heq
            rfl
          subst hsame
          apply ih middle' hrest
          intro before between after earlier later hsplit hbefore hbetween
          refine hfinal (e :: before) between after earlier later (by simp [hsplit]) ?_ hbetween
          exact Machine.reaches_cons.mpr ⟨outcome, middle', hstep, hbefore⟩
  · intro hguard before between after earlier later hsplit hbefore hbetween t
    subst hsplit
    rw [List.append_assoc] at hguard
    obtain ⟨-, hguard⟩ := Machine.guarded_append hguard hbefore
    obtain ⟨hguard, -⟩ := Machine.guarded_append hguard hbetween
    constructor
    · intro hstate
      rw [keepsEndStates_run earlier hbetween hguard t .aborted (Or.inl rfl) hstate]
      decide
    · intro hstate
      rw [keepsEndStates_run earlier hbetween hguard t .committed (Or.inr rfl) hstate]
      decide

/-- Only a `Commit` commits. -/
theorem not_committed_step {e : Event} {outcome : LockOutcome} {final : LockSystem}
    (hstep : s.step e = .ok (outcome, final)) (hcommit : ∀ t, e ≠ .commit t)
    (hstates : ∀ t, (s.txns t).state ≠ .committed) (t : TxnId) :
    (final.txns t).state ≠ .committed := by
  obtain ⟨-, habort, helse⟩ := step_state s hstep t
  by_cases hends : e = .abort t ∨ s.Wounds t e ∨ s.Refuses t e
  · rw [habort hends]
    decide
  · simp only [not_or] at hends
    rcases helse (hcommit t) hends.1 hends.2.1 hends.2.2 with hsame | ⟨-, hshrinking⟩
    · rw [hsame]
      exact hstates t
    · rw [hshrinking]
      decide

/-- Transaction 1 wounds transaction 2, which aborts, and commits itself. -/
def woundedAndCommitted : List Event :=
  [.lockExclusive 2 ⟨0, 0⟩, .lockExclusive 1 ⟨0, 0⟩, .abort 2, .commit 1]

theorem endStatesFinal_iff_woundedAndCommitted : ∃ final,
    machine.Reaches (initial fun _ => .repeatableRead) woundedAndCommitted final ∧
      (final.txns 1).state = .committed ∧ (final.txns 2).state = .aborted ∧
      (initial fun _ => .repeatableRead).EndStatesFinal woundedAndCommitted := by
  refine ⟨_, ⟨_, rfl⟩, rfl, rfl, (endStatesFinal_iff _ ⟨_, rfl⟩).mpr ?_⟩
  -- up to the `Commit` no transaction is committed
  have hstart : ∀ t, ((initial fun _ => .repeatableRead).txns t).state ≠ .committed :=
    fun _ => nofun
  have hlocked := not_committed_step _ (e := .lockExclusive 2 ⟨0, 0⟩) rfl nofun hstart
  have hwounded := not_committed_step _ (e := .lockExclusive 1 ⟨0, 0⟩) rfl nofun hlocked
  have haborted := not_committed_step _ (e := .abort 2) rfl nofun hwounded
  refine (Machine.guarded_cons_of_step rfl _).mpr ⟨fun t => ⟨nofun, fun _ => hstart t⟩, ?_⟩
  refine (Machine.guarded_cons_of_step rfl _).mpr ⟨fun t => ⟨nofun, fun _ => hlocked t⟩, ?_⟩
  refine (Machine.guarded_cons_of_step rfl _).mpr ⟨fun t => ⟨nofun, fun _ => hwounded t⟩, ?_⟩
  refine (Machine.guarded_cons_of_step rfl _).mpr ⟨fun t => ⟨?_, fun _ => haborted t⟩, trivial⟩
  rintro ⟨⟩
  decide

/-- Transaction 2 holds the lock, transaction 1 wounds it and takes the lock, and
transaction 2 commits all the same. -/
def woundedCommit : List Event :=
  [.lockExclusive 2 ⟨0, 0⟩, .lockExclusive 1 ⟨0, 0⟩, .commit 2]

theorem woundedCommit_not_endStatesFinal :
    ¬ (initial (fun _ => .repeatableRead)).EndStatesFinal woundedCommit := by
  intro hfinal
  have hstates := hfinal [.lockExclusive 2 ⟨0, 0⟩, .lockExclusive 1 ⟨0, 0⟩] [.commit 2] [] _ _ rfl
    ⟨_, rfl⟩ ⟨_, rfl⟩ 2
  exact hstates.1 rfl rfl

end BusTub.LockSystem
