import BusTub.Concurrency.LockRequests

/-! # Lock queue bookkeeping

As long as nobody is wounded, `sharing_count_` and `is_writing_` summarise the
granted requests, and these agree with the lock sets. Wounding changes the
counters and leaves the requests, so the two part there.
-/

namespace BusTub.LockSystem

/-- Every queue agrees with the lock sets and the sleeping threads. -/
def QueuesConsistent (s : LockSystem) : Prop :=
  ∀ rid, QueueInvariant (s.queue rid) (fun t => rid ∈ (s.txns t).sharedLockSet)
    (fun t => rid ∈ (s.txns t).exclusiveLockSet) (fun t => (s.threads t).waitingMode rid)

theorem queuesConsistent_iff {s : LockSystem} : s.QueuesConsistent ↔
    s.RequestsConsistent ∧ ∀ rid, CountersRight (s.queue rid) := by
  constructor
  · intro h
    exact ⟨fun rid => (queueInvariant_iff.mp (h rid)).1,
      fun rid => (queueInvariant_iff.mp (h rid)).2⟩
  · rintro ⟨hrequests, hcounters⟩ rid
    exact queueInvariant_iff.mpr ⟨hrequests rid, hcounters rid⟩

theorem queuesConsistent_initial (levels : TxnId → IsolationLevel) :
    (initial levels).QueuesConsistent :=
  queuesConsistent_iff.mpr ⟨requestsConsistent_initial levels, fun _ => CountersRight.empty⟩

/-- A documented call in which `DeadlockPrevent` wounds nobody. -/
def WoundsNobody (s : LockSystem) (e : Event) : Prop :=
  s.Documented e ∧ ∀ victim, ¬ s.Wounds victim e

/-! ## The counters -/

variable {s final : LockSystem} {t : TxnId} {rid : RID} {e : Event} {a : Attempt}
  {outcome : LockOutcome}

theorem woundQueue_of_nobody (hnone : ∀ victim, ¬ s.WoundedBy t rid victim)
    (q : LockRequestQueue) : woundQueue t (s.queue rid).requestQueue q = q := by
  have hyounger : younger t (s.queue rid).requestQueue = [] := by
    rw [List.eq_nil_iff_forall_not_mem]
    exact fun request hmem => hnone request.txnId ⟨request, hmem, rfl⟩
  simp [woundQueue, hyounger]

/-- The counters of the queue that the test sees, when nobody was wounded. -/
theorem countersRight_attempt (hrequests : s.RequestsConsistent)
    (hcounters : CountersRight (s.queue a.rid)) (hdocumented : s.Documented e)
    (hwounds : ∀ victim, ¬ s.Wounds victim e) (ha : s.attempt e = some a) :
    CountersRight a.queue := by
  have hnew : ∀ t rid call mode busy, CountersRight (s.queue rid) →
      (busy = true → ∀ victim, ¬ s.WoundedBy t rid victim) →
      CountersRight (s.newAttempt t rid call mode busy).queue := by
    intro t rid call mode busy hcounters hnone
    cases busy with
    | false => exact hcounters.push mode
    | true =>
        have hqueue : (s.newAttempt t rid call mode true).queue = { s.queue rid with
            requestQueue := (s.queue rid).requestQueue ++ [⟨t, mode, false⟩] } :=
          woundQueue_of_nobody (hnone rfl) _
        rw [hqueue]
        exact hcounters.push mode
  rcases attempt_cases ha with ⟨t, rid, rfl, hlevel, hshrink, rfl⟩ | ⟨t, rid, rfl, hshrink, rfl⟩ |
    ⟨t, rid, rfl, hshrink, hupgrading, rfl⟩ | ⟨t, call, rid, notified, rfl, -, rfl⟩
  · refine hnew t rid _ _ _ hcounters ?_
    intro hbusy victim hwound
    exact hwounds victim ⟨hlevel, hshrink, hbusy, hwound⟩
  · refine hnew t rid _ _ _ hcounters ?_
    intro hbusy victim hwound
    exact hwounds victim ⟨hshrink, by simpa [exclusiveBusy] using hbusy, hwound⟩
  · have hown := ((hrequests rid).shared_iff t).mp hdocumented
    have hdropped : CountersRight ((s.dropShared t rid).queue rid) := by
      have hbefore : CountersRight (s.queue rid) := hcounters
      rw [queue_dropShared_self]
      exact hbefore.modify (hrequests rid).nodup hown rfl rfl (by simp [isGranted])
        (by simp [isGranted])
    have hqueue : ∃ flag, (s.upgradeAttempt t rid).queue =
        { (s.dropShared t rid).queue rid with upgrading := flag } := by
      unfold upgradeAttempt
      dsimp only
      split
      next hbusy =>
        refine ⟨true, ?_⟩
        rw [woundQueue_of_nobody]
        intro victim hwound
        exact hwounds victim ⟨hshrink, hupgrading, by simpa [exclusiveBusy] using hbusy, hwound⟩
      next => exact ⟨_, rfl⟩
    obtain ⟨flag, hqueue⟩ := hqueue
    rw [hqueue]
    exact ⟨hdropped.sharingCount, hdropped.isWriting⟩
  · exact hcounters

/-- The end of an attempt keeps the counters right. -/
theorem countersRight_settled (hrequests : s.RequestsConsistent)
    (hcounters : CountersRight a.queue) (hdocumented : s.Documented e)
    (hstep : s.step e = .ok (outcome, final)) (ha : s.attempt e = some a) :
    CountersRight a.settledQueue := by
  have hnodup := (hrequests.queued hdocumented hstep ha).nodup
  have hown := hrequests.own_mem hdocumented hstep ha
  unfold Attempt.settledQueue
  cases a.aborted with
  | true => exact hcounters.erase hnodup hown rfl rfl (by simp [isGranted]) (by simp [isGranted])
  | false =>
      cases hpasses : a.passes with
      | false => exact hcounters
      | true =>
          have hfree := isWriting_of_passes ha hpasses
          simp only [Bool.false_eq_true, if_false, if_true]
          cases hcall : a.call with
          | lockShared =>
              rw [hcall] at hown
              exact hcounters.modify hnodup hown rfl rfl
                (by simp [isGranted, LockCall.mode, grantedQueue])
                (by simp [isGranted, LockCall.mode, grantedQueue])
          | lockExclusive | lockUpgrade =>
              rw [hcall] at hown
              exact hcounters.modify hnodup hown rfl rfl
                (by simp [isGranted, LockCall.mode, grantedQueue])
                (by simp [isGranted, LockCall.mode, grantedQueue, hfree])

/-- `Unlock` of a granted request takes it out of the counters. -/
theorem countersRight_unlock (hrequests : s.RequestsConsistent)
    (hcounters : CountersRight (s.queue rid)) (hawake : s.Awake t)
    (hunlock : s.unlock t rid = some final) : CountersRight (final.queue rid) := by
  obtain ⟨own, hiter, -, hqueue, -, -⟩ := unlock_cases s t rid hunlock
  obtain ⟨hown, hid⟩ := (getIterator_eq_some (hrequests rid).nodup).mp hiter
  have hgranted := hrequests.granted_of_awake hawake hown hid
  obtain ⟨id, mode, granted⟩ := own
  obtain rfl : granted = true := hgranted
  rw [hqueue]
  refine hcounters.erase (hrequests rid).nodup hown hid ?_ ?_ ?_
  · cases mode <;> rfl
  · cases mode <;> simp [afterUnlock, isGranted]
  · cases mode with
    | shared => simp [afterUnlock, isGranted]
    | exclusive =>
        have hcount := hcounters.isWriting
        have hpos := grantedCount_pos_of_mem hown
        cases hwriting : (s.queue rid).isWriting with
        | false =>
            rw [hwriting, Bool.toNat_false] at hcount
            omega
        | true => rfl

/-- Wounding on other rids does not matter. -/
theorem countersRight_step (hrequests : s.RequestsConsistent)
    (hcounters : CountersRight (s.queue rid)) (hdocumented : s.Documented e)
    (hwounds : e.target = some rid → ∀ victim, ¬ s.Wounds victim e)
    (hstep : s.step e = .ok (outcome, final)) : CountersRight (final.queue rid) := by
  rcases step_cases hstep with ⟨a, ha, hsettles⟩ | ⟨t, other, -, hunlocks⟩ | ⟨-, hquiet⟩
  · by_cases hrid : rid = a.rid
    · subst hrid
      have hnobody : ∀ victim, ¬ s.Wounds victim e := fun victim hwound =>
        hwounds (target_of_wounds ha hwound) victim hwound
      rw [hsettles.queue]
      exact countersRight_settled hrequests
        (countersRight_attempt hrequests hcounters hdocumented hnobody ha) hdocumented hstep ha
    · rw [hsettles.queue_of_ne rid hrid]
      exact hcounters
  · obtain ⟨middle, hunlock, hfinal⟩ := hunlocks.unlock
    have hqueue : final.queue rid = middle.queue rid := by
      rcases hfinal with rfl | ⟨lockSet, rfl⟩
      · rfl
      · rfl
    rw [hqueue]
    by_cases hrid : rid = other
    · subst hrid
      exact countersRight_unlock hrequests hcounters hunlocks.awake hunlock
    · obtain ⟨-, -, -, -, hother, -⟩ := unlock_cases s t other hunlock
      rw [hother rid hrid]
      exact hcounters
  · rw [hquiet.queue]
    exact hcounters

/-! ## Runs without wounding -/

theorem QueuesConsistent.step {s : LockSystem} (h : s.QueuesConsistent) {e : Event}
    (hguard : s.WoundsNobody e) {outcome : LockOutcome} {final : LockSystem}
    (hstep : s.step e = .ok (outcome, final)) : final.QueuesConsistent := by
  obtain ⟨hrequests, hcounters⟩ := queuesConsistent_iff.mp h
  refine queuesConsistent_iff.mpr ⟨hrequests.step hguard.1 hstep, ?_⟩
  intro rid
  exact countersRight_step hrequests (hcounters rid) hguard.1 (fun _ => hguard.2) hstep

/-- In a run that wounds nobody the queues agree with the lock sets throughout. -/
theorem QueuesConsistent.run {s final : LockSystem} (h : s.QueuesConsistent) {events : List Event}
    (hreach : machine.Reaches s events final) (hguard : machine.Guarded WoundsNobody s events) :
    final.QueuesConsistent :=
  hreach.invariant QueuesConsistent
    (fun _ _ _ _ hcurrent hcurrentGuard hstep => hcurrent.step hcurrentGuard hstep) hguard h

/-- The summary fields count the granted requests, and a transaction has a
granted request exactly for the rids of its lock sets. -/
structure Bookkeeping (s : LockSystem) (rid : RID) : Prop where
  sharingCount : (s.queue rid).sharingCount = grantedCount .shared (s.queue rid).requestQueue
  isWriting : (s.queue rid).isWriting ↔ grantedCount .exclusive (s.queue rid).requestQueue = 1
  sharedLockSet : ∀ t, ⟨t, .shared, true⟩ ∈ (s.queue rid).requestQueue ↔
    rid ∈ (s.txns t).sharedLockSet
  exclusiveLockSet : ∀ t, ⟨t, .exclusive, true⟩ ∈ (s.queue rid).requestQueue ↔
    rid ∈ (s.txns t).exclusiveLockSet

theorem QueuesConsistent.bookkeeping {s : LockSystem} (h : s.QueuesConsistent) (rid : RID) :
    s.Bookkeeping rid where
  sharingCount := (h rid).sharingCount
  isWriting := by
    rw [(h rid).isWriting]
    cases (s.queue rid).isWriting <;> simp
  sharedLockSet t := ((h rid).shared_iff t).symm
  exclusiveLockSet t := ((h rid).exclusive_iff t).symm

/-- As long as `DeadlockPrevent` wounds nobody, every interleaving of documented
calls keeps the books of every queue. -/
theorem bookkeeping_of_woundsNobody {levels : TxnId → IsolationLevel} {events : List Event}
    {final : LockSystem} (hreach : machine.Reaches (initial levels) events final)
    (hguard : machine.Guarded WoundsNobody (initial levels) events) (rid : RID) :
    final.Bookkeeping rid :=
  ((queuesConsistent_initial levels).run hreach hguard).bookkeeping rid

/-- Two readers share a lock and one of them gives it back. -/
def sharedRun : List Event :=
  [.lockShared 1 ⟨0, 0⟩, .lockShared 2 ⟨0, 0⟩, .unlock 1 ⟨0, 0⟩]

theorem bookkeeping_sharedRun : ∃ final,
    machine.Reaches (initial (fun _ => .repeatableRead)) sharedRun final ∧
      final.Bookkeeping ⟨0, 0⟩ := by
  refine ⟨_, ⟨_, rfl⟩, @bookkeeping_of_woundsNobody (fun _ => .repeatableRead) sharedRun _
    ⟨_, rfl⟩ ?_ ⟨0, 0⟩⟩
  refine (Machine.guarded_cons_of_step rfl _).mpr ⟨⟨by decide, fun _ hwound => ?_⟩, ?_⟩
  · exact Bool.noConfusion hwound.2.2.1
  refine (Machine.guarded_cons_of_step rfl _).mpr ⟨⟨by decide, fun _ hwound => ?_⟩, ?_⟩
  · exact Bool.noConfusion hwound.2.2.1
  exact (Machine.guarded_cons_of_step rfl _).mpr ⟨⟨trivial, fun _ hwound => hwound⟩, trivial⟩

/-- Transaction 1 wounds the reader 2 and takes the lock; then the reader aborts
and `Unlock` decrements its share a second time. -/
def woundedReader : List Event :=
  [.lockShared 2 ⟨0, 0⟩, .lockExclusive 1 ⟨0, 0⟩, .abort 2, .release 2 ⟨0, 0⟩]

theorem woundedReader_not_bookkeeping : ∃ final,
    machine.Reaches (initial (fun _ => .repeatableRead)) woundedReader final ∧
      machine.Guarded Documented (initial (fun _ => .repeatableRead)) woundedReader ∧
      (final.queue ⟨0, 0⟩).sharingCount = -1 ∧ ¬ final.Bookkeeping ⟨0, 0⟩ := by
  refine ⟨_, ⟨_, rfl⟩, ?_, rfl, fun hbooks => ?_⟩
  · refine (Machine.guarded_cons_of_step rfl _).mpr ⟨by decide, ?_⟩
    refine (Machine.guarded_cons_of_step rfl _).mpr ⟨by decide, ?_⟩
    refine (Machine.guarded_cons_of_step rfl _).mpr ⟨trivial, ?_⟩
    exact (Machine.guarded_cons_of_step rfl _).mpr ⟨trivial, trivial⟩
  · exact absurd hbooks.sharingCount (by decide)

end BusTub.LockSystem
