import BusTub.Concurrency.Bookkeeping

/-! # Mutual exclusion

A grant looks only at `is_writing_` and `sharing_count_`. With the books kept
these two say everything about granted requests, and what they leave out is the
transaction that sleeps in `LockUpgrade`: its shared lock is not counted, and
`Unlock` has not erased its request.
-/

namespace BusTub.LockSystem

/-- The transaction sleeps in `LockUpgrade` on the rid. -/
def Upgrading (s : LockSystem) (t : TxnId) (rid : RID) : Prop :=
  ∃ notified, s.threads t = .waiting .lockUpgrade rid notified

/-- A lock is held from the grant until `Unlock` erases the request. Waiting for
an upgrade does not erase it, so the shared lock is held meanwhile. -/
def Holds (s : LockSystem) (t : TxnId) (rid : RID) (mode : LockMode) : Prop :=
  ⟨t, mode, true⟩ ∈ (s.queue rid).requestQueue ∨ mode = .shared ∧ s.Upgrading t rid

/-- Two transactions that hold one rid both hold it in shared mode. -/
def MutuallyExclusive (s : LockSystem) : Prop :=
  ∀ rid t u mode other, t ≠ u → s.Holds t rid mode → s.Holds u rid other →
    mode = .shared ∧ other = .shared

/-- The call, or the return from its wait, grants the exclusive lock. -/
def GrantsExclusive (s : LockSystem) (t : TxnId) (rid : RID) : Event → Prop
  | .lockExclusive caller target => caller = t ∧ target = rid ∧
      (s.txns t).state ≠ .shrinking ∧ (s.txns t).state ≠ .aborted ∧
      (s.queue rid).isWriting = false ∧ (s.queue rid).sharingCount ≤ 0
  | .wake caller => caller = t ∧ (∃ notified, s.threads t = .waiting .lockExclusive rid notified) ∧
      (s.txns t).state ≠ .aborted ∧ s.canProceed t rid .lockExclusive
  | _ => False

/-- No exclusive lock is granted past a transaction that waits to upgrade. -/
def PassesNoUpgrade (s : LockSystem) (e : Event) : Prop :=
  ∀ t rid, s.GrantsExclusive t rid e → ∀ u, u ≠ t → ¬ s.Upgrading u rid

/-- A documented call that wounds nobody and passes no waiting upgrade. -/
def KeepsApart (s : LockSystem) (e : Event) : Prop := s.WoundsNobody e ∧ s.PassesNoUpgrade e

/-! ## The flags of a queue -/

/-- A writer excludes readers and waiting upgrades; at most one upgrade waits,
and it is flagged. -/
structure FlagInvariant (q : LockRequestQueue) (upgrading : TxnId → Prop) : Prop where
  noReader : q.isWriting = true → q.sharingCount = 0
  noWriter : ∀ t, upgrading t → q.isWriting = false
  flagged : ∀ t, upgrading t → q.upgrading = true
  unique : ∀ t u, upgrading t → upgrading u → t = u

theorem FlagInvariant.initial : FlagInvariant {} (fun _ => False) where
  noReader htrue := Bool.noConfusion htrue
  noWriter _ ht := ht.elim
  flagged _ ht := ht.elim
  unique _ _ ht := ht.elim

/-- Only what the queue shows of flags and counter matters, and who waits to upgrade. -/
theorem FlagInvariant.congr {q final : LockRequestQueue} {upgrading fewer : TxnId → Prop}
    (h : FlagInvariant q upgrading) (hwriting : final.isWriting = q.isWriting)
    (hsharing : final.sharingCount = q.sharingCount) (hflag : final.upgrading = q.upgrading)
    (hfewer : ∀ t, fewer t → upgrading t) : FlagInvariant final fewer where
  noReader htrue := hsharing.trans (h.noReader (hwriting ▸ htrue))
  noWriter t ht := hwriting.trans (h.noWriter t (hfewer t ht))
  flagged t ht := hflag.trans (h.flagged t (hfewer t ht))
  unique t u ht hu := h.unique t u (hfewer t ht) (hfewer u hu)

/-- The queue of the rid is in order: its flags and its counters are right. -/
structure ApartAt (s : LockSystem) (rid : RID) : Prop where
  flags : FlagInvariant (s.queue rid) (s.Upgrading · rid)
  counters : CountersRight (s.queue rid)

/-- What keeps the holders of one rid apart: the call is documented, does not wound on
that rid, and does not pass a transaction that waits to upgrade there. -/
def KeepsApartAt (rid : RID) (s : LockSystem) (e : Event) : Prop :=
  s.Documented e ∧ (e.target = some rid → ∀ victim, ¬ s.Wounds victim e) ∧
    ∀ t, s.GrantsExclusive t rid e → ∀ u, u ≠ t → ¬ s.Upgrading u rid

variable {s final : LockSystem} {t u : TxnId} {rid : RID} {e : Event} {a : Attempt}
  {outcome : LockOutcome}

theorem apartAt_initial (levels : TxnId → IsolationLevel) (rid : RID) :
    (LockSystem.initial levels).ApartAt rid := by
  refine ⟨FlagInvariant.initial.congr rfl rfl rfl ?_, CountersRight.empty⟩
  rintro t ⟨notified, hthread⟩
  cases hthread

/-! ## Attempts -/

/-- A transaction that holds the shared lock keeps `is_writing_` down. -/
theorem isWriting_of_shared (h : s.ApartAt rid)
    (hmem : ⟨t, .shared, true⟩ ∈ (s.queue rid).requestQueue) :
    (s.queue rid).isWriting = false := by
  have hpos := grantedCount_pos_of_mem hmem
  have hcount := h.counters.sharingCount
  cases hwriting : (s.queue rid).isWriting with
  | false => rfl
  | true =>
      have hzero := h.flags.noReader hwriting
      omega

/-- The three ways in which a call comes to its test, when nobody is wounded: it leaves
the flags and the counter alone, or it is an upgrade that gives up its share. -/
theorem attempt_flags (hwounds : ∀ victim, ¬ s.Wounds victim e) (ha : s.attempt e = some a) :
    ((a.queue.isWriting = (s.queue a.rid).isWriting ∧
        a.queue.sharingCount = (s.queue a.rid).sharingCount ∧
        a.queue.upgrading = (s.queue a.rid).upgrading) ∧
      (a.call = .lockUpgrade → s.Upgrading a.txnId a.rid)) ∨
    (e = .lockUpgrade a.txnId a.rid ∧ a.call = .lockUpgrade ∧
      (s.queue a.rid).upgrading = false ∧
      a.queue.isWriting = (s.queue a.rid).isWriting ∧
      a.queue.sharingCount = (s.queue a.rid).sharingCount - 1 ∧
      (a.waits → a.queue.upgrading = true)) := by
  have hnew : ∀ t rid call mode busy, (busy = true → ∀ victim, ¬ s.WoundedBy t rid victim) →
      (s.newAttempt t rid call mode busy).queue = { s.queue rid with
        requestQueue := (s.queue rid).requestQueue ++ [⟨t, mode, false⟩] } := by
    intro t rid call mode busy hnone
    cases busy with
    | false => rfl
    | true => exact woundQueue_of_nobody (hnone rfl) _
  rcases attempt_cases ha with ⟨t, rid, rfl, hlevel, hshrink, rfl⟩ | ⟨t, rid, rfl, hshrink, rfl⟩ |
    ⟨t, rid, rfl, hshrink, hupgrading, rfl⟩ | ⟨t, call, rid, notified, rfl, hthread, rfl⟩
  · left
    rw [hnew t rid .lockShared .shared (s.queue rid).isWriting fun hbusy victim hwound =>
      hwounds victim ⟨hlevel, hshrink, hbusy, hwound⟩]
    exact ⟨⟨rfl, rfl, rfl⟩, fun hcall => LockCall.noConfusion hcall⟩
  · left
    rw [hnew t rid .lockExclusive .exclusive (exclusiveBusy (s.queue rid)) fun hbusy victim hwound =>
      hwounds victim ⟨hshrink, by simpa [exclusiveBusy] using hbusy, hwound⟩]
    exact ⟨⟨rfl, rfl, rfl⟩, fun hcall => LockCall.noConfusion hcall⟩
  · right
    cases hbusy : exclusiveBusy ((s.dropShared t rid).queue rid) with
    | true =>
        have hnone : ∀ victim, ¬ (s.dropShared t rid).WoundedBy t rid victim := fun victim hwound =>
          hwounds victim ⟨hshrink, hupgrading, by simpa [exclusiveBusy] using hbusy, hwound⟩
        have hqueue : (s.upgradeAttempt t rid).queue =
            { (s.dropShared t rid).queue rid with upgrading := true } := by
          simp only [upgradeAttempt, hbusy, if_true]
          rw [woundQueue_of_nobody hnone]
        rw [hqueue, queue_dropShared_self]
        exact ⟨rfl, rfl, hupgrading, rfl, rfl, fun _ => rfl⟩
    | false =>
        have hqueue : (s.upgradeAttempt t rid).queue = (s.dropShared t rid).queue rid := by
          simp only [upgradeAttempt, hbusy, Bool.false_eq_true, if_false]
        have hwaits : (s.upgradeAttempt t rid).waits = false := hbusy
        rw [hqueue, queue_dropShared_self, hwaits]
        exact ⟨rfl, rfl, hupgrading, rfl, rfl, fun hcontra => Bool.noConfusion hcontra⟩
  · left
    refine ⟨⟨rfl, rfl, rfl⟩, ?_⟩
    rintro rfl
    exact ⟨notified, hthread⟩

/-- `LockExclusive` that gets the lock. -/
theorem grantsExclusive_of_granted (hwounds : ∀ victim, ¬ s.Wounds victim e)
    (ha : s.attempt e = some a) (hgranted : a.granted) (hcall : a.call = .lockExclusive) :
    s.GrantsExclusive a.txnId a.rid e := by
  simp only [Attempt.granted, Bool.and_eq_true, Bool.not_eq_true'] at hgranted
  obtain ⟨haborted, hpasses⟩ := hgranted
  have hstate : (s.txns a.txnId).state ≠ .aborted := by
    rw [← attempt_state ha]
    simpa [Attempt.aborted] using haborted
  rcases attempt_flags hwounds ha with ⟨⟨hwriting, hsharing, -⟩, -⟩ | ⟨-, hupgrade, -⟩
  · have hfree : a.queue.isWriting = false := isWriting_of_passes ha hpasses
    rcases attempt_cases ha with ⟨t, rid, rfl, -, -, rfl⟩ | ⟨t, rid, rfl, hshrink, rfl⟩ |
      ⟨t, rid, rfl, -, -, rfl⟩ | ⟨t, call, rid, notified, rfl, hthread, rfl⟩
    · cases hcall
    · refine ⟨rfl, rfl, hshrink, hstate, hwriting.symm.trans hfree, ?_⟩
      cases hbusy : exclusiveBusy (s.queue rid) with
      | false =>
          simp only [exclusiveBusy, decide_eq_false_iff_not, not_or, not_lt] at hbusy
          exact hbusy.2
      | true =>
          have hzero : isFree .lockExclusive
              (s.newAttempt t rid .lockExclusive .exclusive (exclusiveBusy (s.queue rid))).queue := by
            simpa [Attempt.passes, newAttempt, hbusy] using hpasses
          simp only [isFree, Bool.and_eq_true, decide_eq_true_eq] at hzero
          exact le_of_eq (hsharing.symm.trans hzero.2)
    · cases hcall
    · obtain rfl : call = .lockExclusive := hcall
      refine ⟨rfl, ⟨notified, hthread⟩, hstate, ?_⟩
      rw [canProceed_eq, Bool.or_eq_true]
      exact Or.inr (by simpa [Attempt.passes, wakeAttempt] using hpasses)
  · rw [hupgrade] at hcall
    cases hcall

/-- An exclusive lock is granted only where nobody shares it. -/
theorem sharingCount_of_granted (hcounters : CountersRight a.queue) (ha : s.attempt e = some a)
    (hpasses : a.passes) (hcall : a.call ≠ .lockShared) : a.queue.sharingCount = 0 := by
  have hcount := hcounters.sharingCount
  have hfree : isFree a.call a.queue = true → a.queue.sharingCount = 0 := by
    intro hfree
    cases hown : a.call with
    | lockShared => exact absurd hown hcall
    | lockExclusive | lockUpgrade =>
        rw [hown] at hfree
        simp only [isFree, Bool.and_eq_true, decide_eq_true_eq] at hfree
        exact hfree.2
  unfold Attempt.passes at hpasses
  cases hwaits : a.waits with
  | true => exact hfree (by simpa [hwaits] using hpasses)
  | false =>
      have hnotBusy : exclusiveBusy a.queue = false := by
        rcases attempt_cases ha with ⟨t, rid, rfl, -, -, rfl⟩ | ⟨t, rid, rfl, -, rfl⟩ |
          ⟨t, rid, rfl, -, -, rfl⟩ | ⟨t, call, rid, notified, rfl, -, rfl⟩
        · exact absurd rfl hcall
        · have hbusy : exclusiveBusy (s.queue rid) = false := hwaits
          simp only [newAttempt, hbusy, Bool.false_eq_true, if_false]
          exact hbusy
        · have hbusy : exclusiveBusy ((s.dropShared t rid).queue rid) = false := hwaits
          have hqueue : (s.upgradeAttempt t rid).queue = (s.dropShared t rid).queue rid := by
            simp only [upgradeAttempt, hbusy, Bool.false_eq_true, if_false]
          rw [hqueue, hbusy]
        · cases hwaits
      simp only [exclusiveBusy, decide_eq_false_iff_not, not_or, not_lt] at hnotBusy
      omega

/-- Who sleeps in an upgrade of the record once the attempt is settled: another thread that did
before, or the one of the attempt if that is an upgrade that does not pass. -/
theorem upgrading_settled (hsettles : s.Settles (s.Wounds · e) a outcome final) {u : TxnId}
    (hu : final.Upgrading u a.rid) : (u ≠ a.txnId ∧ s.Upgrading u a.rid) ∨
      (u = a.txnId ∧ a.call = .lockUpgrade ∧ a.aborted = false ∧ a.passes = false) := by
  obtain ⟨notified, hthread⟩ := hu
  by_cases hself : u = a.txnId
  · right
    subst hself
    rw [hsettles.threads, Function.update_self] at hthread
    unfold Attempt.settledThread at hthread
    split at hthread
    · cases hthread
    next hblocked =>
      rw [Bool.not_eq_true, Bool.or_eq_false_iff] at hblocked
      injection hthread with hcall
      exact ⟨rfl, hcall, hblocked⟩
  · left
    rw [hsettles.threads, Function.update_of_ne hself] at hthread
    exact ⟨hself, notified, hthread⟩

/-- The queue that the test sees is in order, but for an upgrade that falls asleep there. -/
theorem flags_tested (h : s.ApartAt a.rid) (hrequests : s.RequestsConsistent)
    (hguard : KeepsApartAt a.rid s e) (hwounds : ∀ victim, ¬ s.Wounds victim e)
    (ha : s.attempt e = some a) :
    FlagInvariant a.queue (fun u => u ≠ a.txnId ∧ s.Upgrading u a.rid) ∧
      (a.call = .lockUpgrade → a.queue.isWriting = false ∧
        (a.waits → a.queue.upgrading = true) ∧ ∀ u, u ≠ a.txnId → ¬ s.Upgrading u a.rid) := by
  rcases attempt_flags hwounds ha with ⟨⟨hwriting, hsharing, hflag⟩, hupgrades⟩ |
    ⟨he, -, hupgrading, hwriting, hsharing, hflag⟩
  · refine ⟨h.flags.congr hwriting hsharing hflag fun u hu => hu.2, ?_⟩
    intro hcall
    have hself := hupgrades hcall
    refine ⟨hwriting.trans (h.flags.noWriter _ hself),
      fun _ => hflag.trans (h.flags.flagged _ hself), ?_⟩
    exact fun u hne hu => hne (h.flags.unique u _ hu hself)
  · have hdocumented := hguard.1
    rw [he] at hdocumented
    have hfree := isWriting_of_shared h (((hrequests a.rid).shared_iff a.txnId).mp hdocumented)
    have hnone : ∀ u, ¬ s.Upgrading u a.rid := fun u hu =>
      Bool.noConfusion (hupgrading.symm.trans (h.flags.flagged u hu))
    refine ⟨⟨?_, fun u hu => absurd hu.2 (hnone u), fun u hu => absurd hu.2 (hnone u),
      fun u v hu => absurd hu.2 (hnone u)⟩, ?_⟩
    · intro htrue
      rw [hwriting, hfree] at htrue
      cases htrue
    · exact fun _ => ⟨hwriting.trans hfree, hflag, fun u _ => hnone u⟩

/-- The flags once the attempt is settled. -/
theorem flags_settled (h : s.ApartAt a.rid) (hrequests : s.RequestsConsistent)
    (hguard : KeepsApartAt a.rid s e) (hwounds : ∀ victim, ¬ s.Wounds victim e)
    (ha : s.attempt e = some a) (hsettles : s.Settles (s.Wounds · e) a outcome final) :
    FlagInvariant (final.queue a.rid) (final.Upgrading · a.rid) := by
  have hcounters := countersRight_attempt hrequests h.counters hguard.1 hwounds ha
  obtain ⟨hflags, hupgrade⟩ := flags_tested h hrequests hguard hwounds ha
  rw [hsettles.queue]
  unfold Attempt.settledQueue
  cases haborted : a.aborted with
  | true =>
      refine hflags.congr rfl rfl rfl fun u hu => ?_
      rcases upgrading_settled hsettles hu with hother | ⟨-, -, hnot, -⟩
      · exact hother
      · exact Bool.noConfusion (haborted.symm.trans hnot)
  | false =>
      cases hpasses : a.passes with
      | true =>
          have hawake : ∀ u, final.Upgrading u a.rid → u ≠ a.txnId ∧ s.Upgrading u a.rid := by
            intro u hu
            rcases upgrading_settled hsettles hu with hother | ⟨-, -, -, hnot⟩
            · exact hother
            · exact Bool.noConfusion (hpasses.symm.trans hnot)
          have hfree := isWriting_of_passes ha hpasses
          have hgranted : a.granted = true := by simp [Attempt.granted, haborted, hpasses]
          rw [if_neg Bool.noConfusion, if_pos rfl]
          cases hcall : a.call with
          | lockShared =>
              refine ⟨fun htrue => ?_, fun u hu => hfree, fun u hu => hflags.flagged u (hawake u hu),
                fun u v hu hv => hflags.unique u v (hawake u hu) (hawake v hv)⟩
              exact Bool.noConfusion (hfree.symm.trans htrue)
          | lockExclusive =>
              have hzero := sharingCount_of_granted hcounters ha hpasses (by simp [hcall])
              have hnone : ∀ u, ¬ final.Upgrading u a.rid := fun u hu =>
                hguard.2.2 a.txnId (grantsExclusive_of_granted hwounds ha hgranted hcall) u
                  (hawake u hu).1 (hawake u hu).2
              exact ⟨fun _ => hzero, fun u hu => absurd hu (hnone u),
                fun u hu => absurd hu (hnone u), fun u v hu => absurd hu (hnone u)⟩
          | lockUpgrade =>
              have hzero := sharingCount_of_granted hcounters ha hpasses (by simp [hcall])
              have hnone : ∀ u, ¬ final.Upgrading u a.rid := fun u hu =>
                (hupgrade hcall).2.2 u (hawake u hu).1 (hawake u hu).2
              exact ⟨fun _ => hzero, fun u hu => absurd hu (hnone u),
                fun u hu => absurd hu (hnone u), fun u v hu => absurd hu (hnone u)⟩
      | false =>
          rw [if_neg Bool.noConfusion, if_neg Bool.noConfusion]
          by_cases hcall : a.call = .lockUpgrade
          · obtain ⟨hfree, hflag, hnone⟩ := hupgrade hcall
            have hwaits : a.waits = true := by
              simp only [Attempt.passes, Bool.or_eq_false_iff, Bool.not_eq_false'] at hpasses
              exact hpasses.1
            have honly : ∀ u, final.Upgrading u a.rid → u = a.txnId := by
              intro u hu
              rcases upgrading_settled hsettles hu with ⟨hne, hother⟩ | ⟨hself, -⟩
              · exact absurd hother (hnone u hne)
              · exact hself
            exact ⟨hflags.noReader, fun _ _ => hfree, fun _ _ => hflag hwaits,
              fun u v hu hv => (honly u hu).trans (honly v hv).symm⟩
          · refine hflags.congr rfl rfl rfl fun u hu => ?_
            rcases upgrading_settled hsettles hu with hother | ⟨-, hself, -⟩
            · exact hother
            · exact absurd hself hcall

/-! ## Runs -/

/-- `Unlock` wakes sleepers, but it ends no call. -/
theorem Unlocks.upgrading_iff (hunlocks : s.Unlocks t rid final) {other : RID} :
    final.Upgrading u other ↔ s.Upgrading u other := by
  obtain ⟨middle, hunlock, hfinal⟩ := hunlocks.unlock
  by_cases hne : u = t
  · subst hne
    refine iff_of_false ?_ ?_
    · rintro ⟨notified, hthread⟩
      exact hunlocks.awake_after _ _ _ hthread
    · rintro ⟨notified, hthread⟩
      exact hunlocks.awake _ _ _ hthread
  · have hthreads : final.threads u = middle.threads u := by
      rcases hfinal with rfl | ⟨lockSet, rfl⟩
      · rfl
      · rw [releaseRest, threads_setThread, Function.update_of_ne hne]
    unfold Upgrading
    rw [hthreads]
    rcases threads_unlock s t rid hunlock u with hsame | ⟨call, ⟨earlier, hearlier⟩, hnotified⟩
    · rw [hsame]
    · rw [hearlier, hnotified]
      simp only [Thread.waiting.injEq, exists_and_left, exists_eq', and_true]

theorem Unlocks.apartAt (hunlocks : s.Unlocks t rid final) {other : RID} (h : s.ApartAt other)
    (hrequests : s.RequestsConsistent) (hcounters : CountersRight (final.queue other)) :
    final.ApartAt other := by
  refine ⟨?_, hcounters⟩
  obtain ⟨middle, hunlock, hfinal⟩ := hunlocks.unlock
  obtain ⟨own, hiter, -, hqueue, hother, -⟩ := unlock_cases s t rid hunlock
  have hsleepers : ∀ u, final.Upgrading u other → s.Upgrading u other :=
    fun u => hunlocks.upgrading_iff.mp
  have hqueueFinal : final.queue other = middle.queue other := by
    rcases hfinal with rfl | ⟨lockSet, rfl⟩
    · rfl
    · rfl
  rw [hqueueFinal]
  by_cases hrid : other = rid
  · subst hrid
    obtain ⟨hown, hid⟩ := (getIterator_eq_some (hrequests other).nodup).mp hiter
    have hgranted := hrequests.granted_of_awake hunlocks.awake hown hid
    obtain ⟨id, mode, granted⟩ := own
    obtain rfl : granted = true := hgranted
    rw [hqueue]
    cases mode with
    | shared =>
        have hfree := isWriting_of_shared h hown
        exact ⟨fun htrue => Bool.noConfusion (hfree.symm.trans htrue),
          fun u hu => h.flags.noWriter u (hsleepers u hu),
          fun u hu => h.flags.flagged u (hsleepers u hu),
          fun u v hu hv => h.flags.unique u v (hsleepers u hu) (hsleepers v hv)⟩
    | exclusive =>
        exact ⟨fun htrue => Bool.noConfusion htrue, fun _ _ => rfl,
          fun u hu => h.flags.flagged u (hsleepers u hu),
          fun u v hu hv => h.flags.unique u v (hsleepers u hu) (hsleepers v hv)⟩
  · rw [hother other hrid]
    exact h.flags.congr rfl rfl rfl hsleepers

/-- A critical section that keeps the holders of a rid apart keeps its queue in order. -/
theorem ApartAt.step (h : s.ApartAt rid) (hrequests : s.RequestsConsistent)
    (hguard : KeepsApartAt rid s e) (hstep : s.step e = .ok (outcome, final)) :
    final.ApartAt rid := by
  have hcounters := countersRight_step hrequests h.counters hguard.1 hguard.2.1 hstep
  rcases step_cases hstep with ⟨a, ha, hsettles⟩ | ⟨t, other, -, hunlocks⟩ | ⟨-, hquiet⟩
  · refine ⟨?_, hcounters⟩
    by_cases hrid : rid = a.rid
    · subst hrid
      have hnobody : ∀ victim, ¬ s.Wounds victim e := fun victim hwound =>
        hguard.2.1 (target_of_wounds ha hwound) victim hwound
      exact flags_settled h hrequests hguard hnobody ha hsettles
    · rw [hsettles.queue_of_ne rid hrid]
      refine h.flags.congr rfl rfl rfl ?_
      rintro u ⟨notified, hthread⟩
      rw [hsettles.threads] at hthread
      by_cases hself : u = a.txnId
      · rw [hself, Function.update_self] at hthread
        unfold Attempt.settledThread at hthread
        split at hthread
        · cases hthread
        · injection hthread with _ hsame
          exact absurd hsame.symm hrid
      · rw [Function.update_of_ne hself] at hthread
        exact ⟨notified, hthread⟩
  · exact hunlocks.apartAt h hrequests hcounters
  · refine ⟨?_, hcounters⟩
    rw [hquiet.queue]
    refine h.flags.congr rfl rfl rfl ?_
    rintro u ⟨notified, hthread⟩
    rcases hquiet.threads u with hsame | ⟨-, hawake⟩
    · exact ⟨notified, hsame ▸ hthread⟩
    · exact absurd hthread (hawake _ _ _)

/-- So does a run of them. -/
theorem ApartAt.run {events : List Event} (h : s.ApartAt rid) (hrequests : s.RequestsConsistent)
    (hreach : machine.Reaches s events final)
    (hguard : machine.Guarded (KeepsApartAt rid) s events) :
    final.ApartAt rid ∧ final.RequestsConsistent := by
  refine hreach.invariant (fun s => s.ApartAt rid ∧ s.RequestsConsistent) ?_ hguard
    ⟨h, hrequests⟩
  rintro s e outcome next ⟨happart, hconsistent⟩ hkeeps hstep
  exact ⟨happart.step hconsistent hkeeps hstep, hconsistent.step hkeeps.1 hstep⟩

/-- A queue in order leaves no room for a conflict. -/
theorem ApartAt.exclusive {mode : LockMode} (h : s.ApartAt rid) (hne : t ≠ u)
    (ht : s.Holds t rid .exclusive) : ¬ s.Holds u rid mode := by
  have hwriter : ∀ t, s.Holds t rid .exclusive → (s.queue rid).isWriting = true ∧
      ⟨t, .exclusive, true⟩ ∈ (s.queue rid).requestQueue := by
    rintro t (hmem | ⟨hmode, -⟩)
    · have hpos := grantedCount_pos_of_mem hmem
      have hcount := h.counters.isWriting
      refine ⟨?_, hmem⟩
      cases hwriting : (s.queue rid).isWriting with
      | true => rfl
      | false =>
          rw [hwriting, Bool.toNat_false] at hcount
          omega
    · cases hmode
  intro hu
  obtain ⟨hwriting, htmem⟩ := hwriter t ht
  cases mode with
  | shared =>
      rcases hu with hmem | ⟨-, hupgrading⟩
      · exact Bool.noConfusion (hwriting.symm.trans (isWriting_of_shared h hmem))
      · exact Bool.noConfusion (hwriting.symm.trans (h.flags.noWriter u hupgrading))
  | exclusive =>
      have htwo := two_le_grantedCount hne htmem (hwriter u hu).2
      have hcount := h.counters.isWriting
      rw [hwriting, Bool.toNat_true] at hcount
      omega

theorem mutuallyExclusive_of_apartAt (h : ∀ rid, s.ApartAt rid) : s.MutuallyExclusive := by
  intro rid t u mode other hne ht hu
  cases mode with
  | exclusive => exact absurd hu ((h rid).exclusive hne ht)
  | shared =>
      cases other with
      | exclusive => exact absurd ht ((h rid).exclusive hne.symm hu)
      | shared => exact ⟨rfl, rfl⟩

theorem KeepsApart.at (hguard : s.KeepsApart e) (rid : RID) : KeepsApartAt rid s e :=
  ⟨hguard.1.1, fun _ => hguard.1.2, fun t hgrants => hguard.2 t rid hgrants⟩

/-- No two transactions hold conflicting locks in any interleaving of documented
calls that wounds nobody and passes no waiting upgrade. -/
theorem mutuallyExclusive_of_keepsApart {levels : TxnId → IsolationLevel} {events : List Event}
    {final : LockSystem} (hreach : machine.Reaches (initial levels) events final)
    (hguard : machine.Guarded KeepsApart (initial levels) events) : final.MutuallyExclusive := by
  refine mutuallyExclusive_of_apartAt fun rid => ?_
  have hkeeps : machine.Guarded (KeepsApartAt rid) (initial levels) events :=
    hguard.mono fun _ _ hkeeps => hkeeps.at rid
  exact ((apartAt_initial levels rid).run (requestsConsistent_initial levels) hreach hkeeps).1

/-- A reader upgrades once the other reader has left. -/
def upgradeRun : List Event :=
  [.lockShared 1 ⟨0, 0⟩, .lockShared 2 ⟨0, 0⟩, .lockUpgrade 2 ⟨0, 0⟩, .unlock 1 ⟨0, 0⟩, .wake 2]

theorem keepsApart_upgradeRun :
    machine.Guarded KeepsApart (LockSystem.initial (fun _ => .repeatableRead)) upgradeRun := by
  refine (Machine.guarded_cons_of_step rfl _).mpr ⟨⟨⟨by decide, ?_⟩, ?_⟩, ?_⟩
  · exact fun _ hwound => Bool.noConfusion hwound.2.2.1
  · exact fun _ _ hgrants => hgrants.elim
  refine (Machine.guarded_cons_of_step rfl _).mpr ⟨⟨⟨by decide, ?_⟩, ?_⟩, ?_⟩
  · exact fun _ hwound => Bool.noConfusion hwound.2.2.1
  · exact fun _ _ hgrants => hgrants.elim
  refine (Machine.guarded_cons_of_step rfl _).mpr ⟨⟨⟨by decide, ?_⟩, ?_⟩, ?_⟩
  · rintro victim ⟨-, -, -, request, hmem, -⟩
    exact absurd hmem (by decide +revert)
  · exact fun _ _ hgrants => hgrants.elim
  refine (Machine.guarded_cons_of_step rfl _).mpr ⟨⟨⟨trivial, fun _ hwound => hwound⟩, ?_⟩, ?_⟩
  · exact fun _ _ hgrants => hgrants.elim
  refine (Machine.guarded_cons_of_step rfl _).mpr ⟨⟨⟨trivial, fun _ hwound => hwound⟩, ?_⟩, trivial⟩
  rintro t rid ⟨rfl, ⟨notified, hthread⟩, -⟩
  cases hthread

theorem mutuallyExclusive_upgradeRun : ∃ final,
    machine.Reaches (initial (fun _ => .repeatableRead)) upgradeRun final ∧
      final.Holds 2 ⟨0, 0⟩ .exclusive ∧ final.MutuallyExclusive :=
  ⟨_, ⟨_, rfl⟩, Or.inl (by decide), @mutuallyExclusive_of_keepsApart
    (fun _ => .repeatableRead) upgradeRun _ ⟨_, rfl⟩ keepsApart_upgradeRun⟩

/-- Transaction 1 wounds the writer 2 and takes the lock. The rollback of 2 ends
with an `Unlock` that clears `is_writing_`, so that 3 gets the lock as well. -/
def woundedWriter : List Event :=
  [.lockExclusive 2 ⟨0, 0⟩, .lockExclusive 1 ⟨0, 0⟩, .abort 2, .release 2 ⟨0, 0⟩,
    .lockExclusive 3 ⟨0, 0⟩]

theorem woundedWriter_not_mutuallyExclusive : ∃ final,
    machine.Reaches (initial (fun _ => .repeatableRead)) woundedWriter final ∧
      machine.Guarded Documented (initial (fun _ => .repeatableRead)) woundedWriter ∧
      (final.txns 1).state = .growing ∧ (final.txns 3).state = .growing ∧
      final.Holds 1 ⟨0, 0⟩ .exclusive ∧ final.Holds 3 ⟨0, 0⟩ .exclusive ∧
      ¬ final.MutuallyExclusive := by
  have hfirst : ∀ s : LockSystem, s.Holds 1 ⟨0, 0⟩ .exclusive → s.Holds 3 ⟨0, 0⟩ .exclusive →
      ¬ s.MutuallyExclusive := by
    intro s hone hthree hexclusive
    exact LockMode.noConfusion (hexclusive _ 1 3 _ _ (by decide) hone hthree).1
  refine ⟨_, ⟨_, rfl⟩, ?_, rfl, rfl, Or.inl (by decide), Or.inl (by decide),
    hfirst _ (Or.inl (by decide)) (Or.inl (by decide))⟩
  refine (Machine.guarded_cons_of_step rfl _).mpr ⟨by decide, ?_⟩
  refine (Machine.guarded_cons_of_step rfl _).mpr ⟨by decide, ?_⟩
  refine (Machine.guarded_cons_of_step rfl _).mpr ⟨trivial, ?_⟩
  refine (Machine.guarded_cons_of_step rfl _).mpr ⟨trivial, ?_⟩
  exact (Machine.guarded_cons_of_step rfl _).mpr ⟨by decide, trivial⟩

end BusTub.LockSystem
