import BusTub.Concurrency.Attempts

/-! # Two-phase locking

`Unlock` starts the shrinking phase by the state `SHRINKING`, and the lock calls
refuse it. The state field has other writers: a transaction that was wounded stays
`ABORTED` when it unlocks, and one that is shrinking can still be wounded or refused.
None of these writes brings it back to `GROWING`, and a lock call of an aborted
transaction ends in `CheckAborted`.
-/

namespace BusTub.LockSystem

/-- The critical section is an `Unlock` that gives back a lock which the transaction
holds, other than a shared lock at `READ_COMMITTED`. -/
def Releases (s : LockSystem) (t : TxnId) : Event → Prop
  | .unlock caller rid | .release caller rid => caller = t ∧
      ∃ request, getIterator (s.queue rid).requestQueue t = some request ∧ request.granted ∧
        ¬(request.lockMode = .shared ∧ (s.txns t).isolationLevel = .readCommitted)
  | _ => False

/-- In every run through the events, no lock call of a transaction returns true after
such an `Unlock` of it, as long as it has not called `Commit`. -/
def TwoPhase (s : LockSystem) (events : List Event) : Prop :=
  ∀ t before release between call after start middle last final released outcome,
    events = before ++ release :: between ++ call :: after →
    .commit t ∉ before ++ between →
    machine.Reaches s before start →
    start.Releases t release → start.step release = .ok (released, middle) →
    machine.Reaches middle between last →
    call.IsLockCallOf t → last.step call = .ok (outcome, final) →
    outcome ≠ .returned true

/-- The transaction is aborted, or it is shrinking and does not sleep in a lock call. -/
def DoneGrowing (s : LockSystem) (t : TxnId) : Prop :=
  (s.txns t).state = .aborted ∨ (s.txns t).state = .shrinking ∧ s.Awake t

variable {s final : LockSystem} {t : TxnId} {rid : RID} {e : Event} {events : List Event}
  {outcome : LockOutcome}

/-- A lock call of a transaction that is shrinking and awake is refused. -/
theorem refuses_of_shrinking (hshrink : (s.txns t).state = .shrinking) (hawake : s.Awake t)
    (hcall : e.IsLockCallOf t) (hstep : s.step e = .ok (outcome, final)) : s.Refuses t e := by
  cases e with
  | lockShared caller rid => exact ⟨hcall, Or.inr hshrink⟩
  | lockExclusive caller rid => exact ⟨hcall, hshrink⟩
  | lockUpgrade caller rid => exact ⟨hcall, Or.inl hshrink⟩
  | wake caller =>
      obtain rfl : caller = t := hcall
      obtain ⟨call, rid, notified, hthread, -⟩ := step_wake _ _ hstep
      exact absurd hthread (hawake call rid notified)
  | unlock | commit | abort | release => exact hcall.elim

theorem DoneGrowing.not_returned (h : s.DoneGrowing t) (hcall : e.IsLockCallOf t)
    (hstep : s.step e = .ok (outcome, final)) : outcome ≠ .returned true := by
  rintro rfl
  obtain ⟨hattempt, hstate⟩ := state_of_returned hcall hstep
  rcases h with haborted | ⟨hshrink, hawake⟩
  · exact hstate haborted
  · exact hattempt (attempt_of_refuses (refuses_of_shrinking hshrink hawake hcall hstep))

/-- Only `Commit` starts a transaction anew. -/
theorem DoneGrowing.step (h : s.DoneGrowing t) (hcommit : e ≠ .commit t)
    (hstep : s.step e = .ok (outcome, final)) : final.DoneGrowing t := by
  obtain ⟨-, hends, hkeeps⟩ := step_state s hstep t
  by_cases hend : e = .abort t ∨ s.Wounds t e ∨ s.Refuses t e
  · exact Or.inl (hends hend)
  · simp only [not_or] at hend
    have hsame := hkeeps hcommit hend.1 hend.2.1 hend.2.2
    rcases h with haborted | ⟨hshrink, hawake⟩
    · rw [haborted] at hsame
      simp only [reduceCtorEq, false_and, or_false] at hsame
      exact Or.inl hsame
    · rw [hshrink] at hsame
      simp only [reduceCtorEq, false_and, or_false] at hsame
      refine Or.inr ⟨hsame, step_awake hstep ?_ hawake⟩
      intro hcall
      exact hend.2.2 (refuses_of_shrinking hshrink hawake hcall hstep)

theorem DoneGrowing.run (h : s.DoneGrowing t) (hcommit : .commit t ∉ events)
    (hreach : machine.Reaches s events final) : final.DoneGrowing t := by
  induction events generalizing s with
  | nil =>
      rw [Machine.reaches_nil] at hreach
      exact hreach ▸ h
  | cons e rest ih =>
      obtain ⟨outcome, middle, hstep, hrest⟩ := Machine.reaches_cons.mp hreach
      rw [List.mem_cons, not_or] at hcommit
      exact ih (h.step (Ne.symm hcommit.1) hstep) hcommit.2 hrest

/-- Until it commits, a transaction is not `COMMITTED`. -/
theorem state_ne_committed (hcommit : .commit t ∉ events)
    (hreach : machine.Reaches s events final) (hstate : (s.txns t).state ≠ .committed) :
    (final.txns t).state ≠ .committed := by
  induction events generalizing s with
  | nil =>
      rw [Machine.reaches_nil] at hreach
      exact hreach ▸ hstate
  | cons e rest ih =>
      obtain ⟨outcome, middle, hstep, hrest⟩ := Machine.reaches_cons.mp hreach
      rw [List.mem_cons, not_or] at hcommit
      apply ih hcommit.2 hrest
      obtain ⟨-, hends, hkeeps⟩ := step_state s hstep t
      by_cases hend : e = .abort t ∨ s.Wounds t e ∨ s.Refuses t e
      · rw [hends hend]
        decide
      · simp only [not_or] at hend
        rcases hkeeps (Ne.symm hcommit.1) hend.1 hend.2.1 hend.2.2 with hsame | ⟨-, hshrink⟩
        · rw [hsame]
          exact hstate
        · rw [hshrink]
          decide

/-- An `Unlock` of a lock that counts ends the growing phase. -/
theorem unlock_state_ne_growing {request : LockRequest}
    (hiter : getIterator (s.queue rid).requestQueue t = some request)
    (hcounts : ¬(request.lockMode = .shared ∧ (s.txns t).isolationLevel = .readCommitted))
    (hstate : (s.txns t).state ≠ .committed) (hunlock : s.unlock t rid = some final) :
    (final.txns t).state = .aborted ∨ (final.txns t).state = .shrinking := by
  obtain ⟨found, hfound, htxns, -⟩ := unlock_cases s t rid hunlock
  obtain rfl : request = found := Option.some.inj (hiter.symm.trans hfound)
  rw [htxns, Function.update_self]
  dsimp only
  unfold unlockState
  cases hold : (s.txns t).state with
  | growing => exact Or.inr (if_pos ⟨hcounts, rfl⟩)
  | shrinking => exact Or.inr (if_neg fun h => TransactionState.noConfusion h.2)
  | committed => exact absurd hold hstate
  | aborted => exact Or.inl (if_neg fun h => TransactionState.noConfusion h.2)

theorem Releases.doneGrowing (hreleases : s.Releases t e)
    (hstate : (s.txns t).state ≠ .committed) (hstep : s.step e = .ok (outcome, final)) :
    final.DoneGrowing t := by
  cases e with
  | unlock caller rid =>
      obtain ⟨rfl, request, hiter, -, hcounts⟩ := hreleases
      obtain ⟨hidle, -, hunlock⟩ := step_unlock _ _ _ hstep
      rcases unlock_state_ne_growing hiter hcounts hstate hunlock with haborted | hshrink
      · exact Or.inl haborted
      · exact Or.inr ⟨hshrink, unlocks_awake hunlock (awake_of_idle hidle)⟩
  | release caller rid =>
      obtain ⟨rfl, request, hiter, -, hcounts⟩ := hreleases
      obtain ⟨lockSet, middle, -, -, -, hunlock, rfl⟩ := step_release _ _ _ hstep
      rcases unlock_state_ne_growing hiter hcounts hstate hunlock with haborted | hshrink
      · exact Or.inl haborted
      · exact Or.inr ⟨hshrink, awake_releaseRest _⟩
  | lockShared | lockExclusive | lockUpgrade | commit | abort | wake => exact hreleases.elim

/-- Every interleaving is two-phase. -/
theorem twoPhase (levels : TxnId → IsolationLevel) (events : List Event) :
    (initial levels).TwoPhase events := by
  intro t before release between call after start middle last final released outcome _ hcommit
    hbefore hreleases hrelease hbetween hcall hstep
  rw [List.mem_append, not_or] at hcommit
  have hstate : (start.txns t).state ≠ .committed :=
    state_ne_committed hcommit.1 hbefore TransactionState.noConfusion
  have hdone := (hreleases.doneGrowing hstate hrelease).run hcommit.2 hbetween
  exact hdone.not_returned hcall hstep

/-- A wounded transaction stays aborted when it unlocks; its next call throws `DEADLOCK`. -/
example : (machine.run (initial fun _ => .repeatableRead)
    [.lockExclusive 2 ⟨0, 0⟩, .lockShared 1 ⟨0, 0⟩, .unlock 2 ⟨0, 0⟩,
      .lockShared 2 ⟨0, 1⟩]).map Prod.fst =
    .ok [.returned true, .returned true, .returned true, .threw .deadlock] := rfl

end BusTub.LockSystem
