import BusTub.Concurrency.SerialOrder

/-! # Strict locking

A transaction that has written a record keeps the exclusive lock on it until `ReleaseLocks`, as
long as nobody calls `Unlock` for an exclusive lock. Until then no other transaction reads the
record or writes it: what `Abort` puts back is what was there before, and nobody has seen what
it takes away.
-/

namespace BusTub

namespace LockSystem

/-- Exclusive locks are given back in `ReleaseLocks` only. -/
def HoldsToEnd (s : LockSystem) : Event → Prop
  | .unlock t rid => rid ∉ (s.txns t).exclusiveLockSet
  | _ => True

variable {s final : LockSystem} {u : TxnId} {rid : RID} {e : Event} {outcome : LockOutcome}

/-- One step takes an exclusive lock from a transaction only if it is its own `ReleaseLocks`. -/
theorem exclusive_kept (hnobody : s.WoundsNobody e) (hholds : s.HoldsToEnd e)
    (hrelease : e ≠ .release u rid) (hmem : rid ∈ (s.txns u).exclusiveLockSet)
    (hstep : s.step e = .ok (outcome, final)) : rid ∈ (final.txns u).exclusiveLockSet := by
  rcases step_cases hstep with ⟨a, ha, hsettles⟩ | ⟨t, other, he, hunlocks⟩ | ⟨-, hquiet⟩
  · by_cases hself : u = a.txnId
    · subst hself
      have hown : rid ∈ a.txn.exclusiveLockSet := by
        rw [(prepared hnobody.1 hstep ha).exclusive]
        exact hmem
      rw [hsettles.txn, Attempt.settledTxn]
      split
      · cases a.call <;> simp [grantedTxn, hown]
      · exact hown
    · rwa [hsettles.txns_of_ne u hself (hnobody.2 u)]
  · obtain ⟨middle, hunlock, hfinal⟩ := hunlocks.unlock
    obtain ⟨request, -, htxns, -⟩ := unlock_cases s t other hunlock
    have hafter : final.txns = middle.txns := by
      rcases hfinal with rfl | ⟨lockSet, rfl⟩
      · rfl
      · rfl
    rw [hafter, htxns]
    by_cases hself : u = t
    · subst hself
      have hne : rid ≠ other := by
        rintro rfl
        rcases he with rfl | rfl
        · exact hholds hmem
        · exact hrelease rfl
      rw [Function.update_self]
      exact Finset.mem_erase.mpr ⟨hne, hmem⟩
    · rwa [Function.update_of_ne hself]
  · rwa [hquiet.exclusiveLockSet]

/-- Who is in `ReleaseLocks` after a step was so before, or has just called `Commit` or
`Abort`. -/
theorem releasing_cases (hstep : s.step e = .ok (outcome, final)) {lockSet : Finset RID}
    (hthread : final.threads u = .releasing lockSet) :
    e = .commit u ∨ e = .abort u ∨ ∃ earlier, s.threads u = .releasing earlier := by
  by_cases hend : e.IsEndOf u
  · cases e with
    | commit ender =>
        obtain rfl : ender = u := hend
        exact Or.inl rfl
    | abort ender =>
        obtain rfl : ender = u := hend
        exact Or.inr (Or.inl rfl)
    | release ender rid =>
        obtain rfl : ender = u := hend
        obtain ⟨held, -, hreleasing, -⟩ := step_release _ _ _ hstep
        exact Or.inr (Or.inr ⟨held, hreleasing⟩)
    | lockShared | lockExclusive | lockUpgrade | unlock | wake => exact hend.elim
  · exact Or.inr (Or.inr ⟨lockSet, releasing_before hstep hend hthread⟩)

end LockSystem

namespace LockedRecords

open LockSystem Serializability

variable {V L : Type} {s final : LockedRecords V L} {e : Event V L} {events : List (Event V L)}
  {outcome : Option LockOutcome} {u : TxnId} {rid : RID} {a w : RecordAccess V L}

/-- The lock calls keep the holders of each record apart, and give exclusive locks back at the
end. -/
def KeepsStrict (s : LockedRecords V L) : Event V L → Prop
  | .lock e => s.locks.KeepsApart e ∧ s.locks.HoldsToEnd e
  | .access _ => True

theorem step_lock {e : LockSystem.Event} (hstep : s.step (.lock e) = .ok (outcome, final)) :
    ∃ returned locks, s.locks.step e = .ok (returned, locks) ∧ final = { s with locks } := by
  cases hlock : s.locks.step e with
  | error fault =>
      simp only [step, hlock] at hstep
      cases hstep
  | ok result =>
      obtain ⟨returned, locks⟩ := result
      simp only [step, hlock] at hstep
      cases hstep
      exact ⟨returned, locks, rfl, rfl⟩

theorem step_access (hstep : s.step (.access a) = .ok (outcome, final)) :
    isLocked (s.locks.txns a.txn) a = true ∧ final = { s with records := s.records.access a } := by
  simp only [step] at hstep
  split at hstep
  · cases hstep
  all_goals
    split at hstep
    next hlocked =>
      cases hstep
      exact ⟨hlocked, rfl⟩
    · cases hstep

/-- A transaction that no longer has an exclusive lock has given it back in `ReleaseLocks`, after
it has called `Commit` or `Abort`. -/
theorem run_gives_back (hreach : (machine V L).Reaches s events final)
    (hguard : (machine V L).Guarded KeepsStrict s events)
    (hmem : rid ∈ (s.locks.txns u).exclusiveLockSet)
    (hlost : rid ∉ (final.locks.txns u).exclusiveLockSet) :
    ∃ early late, events = early ++ .lock (.release u rid) :: late ∧
      (.lock (.commit u) ∈ early ∨ .lock (.abort u) ∈ early ∨
        ∃ lockSet, s.locks.threads u = .releasing lockSet) := by
  induction events generalizing s with
  | nil =>
      rw [Machine.reaches_nil] at hreach
      subst hreach
      exact absurd hmem hlost
  | cons e rest ih =>
      obtain ⟨outcome, middle, hstep, hrest⟩ := Machine.reaches_cons.mp hreach
      have hlater := hguard.2 outcome middle hstep
      cases e with
      | access b =>
          obtain ⟨-, rfl⟩ := step_access hstep
          obtain ⟨early, late, rfl, hends⟩ := ih hrest hlater hmem
          refine ⟨.access b :: early, late, rfl, ?_⟩
          simpa using hends
      | lock e =>
          obtain ⟨returned, locks, hlock, rfl⟩ := step_lock hstep
          by_cases hrelease : e = .release u rid
          · subst hrelease
            obtain ⟨held, -, hreleasing, -⟩ := step_release _ _ _ hlock
            exact ⟨[], rest, rfl, Or.inr (Or.inr ⟨held, hreleasing⟩)⟩
          · have hkept := exclusive_kept hguard.1.1.1 hguard.1.2 hrelease hmem hlock
            obtain ⟨early, late, rfl, hends⟩ := ih hrest hlater hkept
            refine ⟨.lock e :: early, late, rfl, ?_⟩
            rcases hends with hcommit | habort | ⟨lockSet, hreleasing⟩
            · exact Or.inl (List.mem_cons_of_mem _ hcommit)
            · exact Or.inr (Or.inl (List.mem_cons_of_mem _ habort))
            · rcases releasing_cases hlock hreleasing with rfl | rfl | hearlier
              · exact Or.inl List.mem_cons_self
              · exact Or.inr (Or.inl List.mem_cons_self)
              · exact Or.inr (Or.inr hearlier)

/-- The holders of the records stay apart. -/
theorem run_keepsApart {levels : TxnId → IsolationLevel} {records : Records V L}
    (hreach : (machine V L).Reaches (start levels records) events s)
    (hguard : (machine V L).Guarded KeepsStrict (start levels records) events) :
    Exclusive Conflicting s.locks.Covers := by
  have hinvariant : s.locks.RequestsConsistent ∧ ∀ rid, s.locks.ApartAt rid := by
    refine hreach.invariant (fun s => s.locks.RequestsConsistent ∧ ∀ rid, s.locks.ApartAt rid)
      ?_ hguard ⟨requestsConsistent_initial levels, apartAt_initial levels⟩
    intro state e outcome next h hkeeps hstep
    cases e with
    | access a =>
        obtain ⟨-, rfl⟩ := step_access hstep
        exact h
    | lock e =>
        obtain ⟨returned, locks, hlock, rfl⟩ := step_lock hstep
        exact ⟨h.1.step hkeeps.1.1.1 hlock,
          fun rid => (h.2 rid).step h.1 (hkeeps.1.at rid) hlock⟩
  exact exclusive_covers hinvariant.1 (mutuallyExclusive_of_apartAt hinvariant.2)

/-- Between a write of a record and the next access by another transaction, the writer has
called `Commit` or `Abort`, or was in its rollback already, and has given the lock back. -/
theorem run_strict {levels : TxnId → IsolationLevel} {records : Records V L}
    {before after : List (Event V L)} {change : L → V → V} (hwrite : w.use = .write change)
    (hrid : a.rid = w.rid) (hne : w.txn ≠ a.txn)
    (hreach : (machine V L).Reaches (start levels records)
      (before ++ .access w :: (after ++ [.access a])) s)
    (hguard : (machine V L).Guarded KeepsStrict (start levels records)
      (before ++ .access w :: (after ++ [.access a]))) :
    ∃ early late middle, after = early ++ .lock (.release w.txn w.rid) :: late ∧
      (machine V L).Reaches (start levels records) before middle ∧
      (.lock (.commit w.txn) ∈ early ∨ .lock (.abort w.txn) ∈ early ∨
        ∃ lockSet, middle.locks.threads w.txn = .releasing lockSet) := by
  obtain ⟨middle, hbefore, hrest⟩ := Machine.reaches_append.mp hreach
  obtain ⟨outcome, written, hstep, hlater⟩ := Machine.reaches_cons.mp hrest
  obtain ⟨last, hafter, hlast⟩ := Machine.reaches_append.mp hlater
  obtain ⟨outcome', final, haccess, -⟩ := Machine.reaches_cons.mp hlast
  obtain ⟨hlocked, rfl⟩ := step_access hstep
  obtain ⟨hlocked', -⟩ := step_access haccess
  -- the writer had the lock, and does not have it now that the other one has
  have hmem : w.rid ∈ (middle.locks.txns w.txn).exclusiveLockSet := by
    unfold isLocked at hlocked
    rw [hwrite] at hlocked
    exact of_decide_eq_true hlocked
  have hguardAfter := (Machine.guarded_append (hguard) hbefore).2.2 _ _ hstep
  obtain ⟨hkeeps, -⟩ := Machine.guarded_append hguardAfter hafter
  have hlost : w.rid ∉ (last.locks.txns w.txn).exclusiveLockSet := by
    intro hstill
    have hsplit : before ++ .access w :: (after ++ [.access a]) =
        (before ++ .access w :: after) ++ [.access a] := by simp
    have hreachLast : (machine V L).Reaches (start levels records)
        (before ++ .access w :: after) last :=
      Machine.reaches_append.mpr ⟨middle, hbefore, Machine.reaches_cons.mpr
        ⟨outcome, _, hstep, hafter⟩⟩
    rw [hsplit] at hguard
    have hexclusive := run_keepsApart hreachLast (Machine.guarded_append hguard hreachLast).1
    have hwriter : last.locks.Covers w.txn (w.rid, .exclusive) := Or.inl hstill
    refine hexclusive w.txn a.txn _ _ hne hwriter (covers_of_isLocked hlocked') ⟨?_, ?_⟩
    · unfold RecordAccess.lock
      split <;> exact hrid.symm
    · exact fun hshared => LockMode.noConfusion hshared.1
  obtain ⟨early, late, hsplit, hends⟩ := run_gives_back hafter hkeeps hmem hlost
  exact ⟨early, late, middle, hsplit, hbefore, hends⟩

theorem keepsStrict_interleaved : (machine Nat Nat).Guarded KeepsStrict
    (start (fun _ => .repeatableRead) ⟨fun _ => 1, fun _ => 0⟩) interleaved := by
  have hnone : ∀ e ∈ interleaved, ∀ t rid, e ≠ .lock (.unlock t rid) := by
    intro e hmem t rid heq
    subst heq
    simp [interleaved] at hmem
  refine (keepsPhases_interleaved.and (Machine.guarded_of_forall_mem _ hnone)).mono ?_
  rintro s e ⟨hphases, hunlocks⟩
  cases e with
  | access a => trivial
  | lock e =>
      refine ⟨hphases.1, ?_⟩
      cases e with
      | unlock t rid => exact absurd rfl (hunlocks t rid)
      | lockShared | lockExclusive | lockUpgrade | commit | abort | wake | release => trivial

/-- Transaction 2 comes to the record that transaction 1 has written. -/
theorem run_strict_interleaved : ∃ s between early late, interleaved = interleaved.take 3 ++
      .access ⟨1, ⟨0, 0⟩, .write fun _ value => value + 5⟩ :: (between ++
        [.access ⟨2, ⟨0, 0⟩, .read fun seen value => seen + value⟩]) ∧
    (machine Nat Nat).Reaches (start (fun _ => .repeatableRead) ⟨fun _ => 1, fun _ => 0⟩)
      interleaved s ∧
    between = early ++ .lock (.release 1 ⟨0, 0⟩) :: late := by
  obtain ⟨s, hreach⟩ : ∃ s, (machine Nat Nat).Reaches
      (start (fun _ => .repeatableRead) ⟨fun _ => 1, fun _ => 0⟩) interleaved s := ⟨_, ⟨_, rfl⟩⟩
  obtain ⟨between, hsplit⟩ : ∃ between, interleaved = interleaved.take 3 ++
      .access ⟨1, ⟨0, 0⟩, .write fun _ value => value + 5⟩ :: (between ++
        [.access ⟨2, ⟨0, 0⟩, .read fun seen value => seen + value⟩]) :=
    ⟨[.lock (.lockShared 2 ⟨0, 0⟩), .lock (.commit 1), .lock (.release 1 ⟨0, 0⟩),
      .lock (.wake 2)], rfl⟩
  have hguard := keepsStrict_interleaved
  have hrun := hreach
  rw [hsplit] at hguard hrun
  obtain ⟨early, late, -, hbetween, -⟩ :=
    run_strict (w := ⟨1, ⟨0, 0⟩, .write fun _ value => value + 5⟩)
      (a := ⟨2, ⟨0, 0⟩, .read fun seen value => seen + value⟩) rfl rfl (by decide) hrun hguard
  exact ⟨s, between, early, late, hsplit, hreach, hbetween⟩

end LockedRecords

end BusTub
