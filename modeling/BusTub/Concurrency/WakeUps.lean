import BusTub.Concurrency.LockRequests

/-! # Lost wake-ups

A thread that sleeps on a condition variable looks at its predicate again when it is
notified, and only `Unlock` notifies. What makes a predicate true must therefore go
through `Unlock`. Three writes do not: `DeadlockPrevent` sets the state of its victims
and takes their locks out of the counters, and `LockUpgrade` takes the caller's own
share out of them before `CheckAborted` throws.
-/

namespace BusTub.LockSystem

/-- The thread is blocked on the condition variable of the rid, with no notification
since it fell asleep. -/
def Asleep (s : LockSystem) (u : TxnId) (call : LockCall) (rid : RID) : Prop :=
  s.threads u = .waiting call rid false

/-- Whoever is blocked on a condition variable waits for a predicate that is false. -/
def NoLostWakeup (s : LockSystem) : Prop :=
  ∀ u call rid, s.Asleep u call rid → s.canProceed u rid call = false

/-- The granted requests of the transactions that the call wounds. -/
def woundedRequests (s : LockSystem) (e : Event) (rid : RID) : List LockRequest :=
  (s.queue rid).requestQueue.filter fun request => request.granted ∧ s.Wounds request.txnId e

/-- The call wounds a holder of the exclusive lock. -/
def WoundsWriter (s : LockSystem) (e : Event) (rid : RID) : Prop :=
  ∃ request ∈ s.woundedRequests e rid, request.lockMode = .exclusive

/-- Nobody holds the exclusive lock, or the call wounds a holder of it. -/
def WriterGone (s : LockSystem) (e : Event) (rid : RID) : Prop :=
  (s.queue rid).isWriting = false ∨ s.WoundsWriter e rid

/-- The share that the call gives up itself. -/
def Event.ownShare : Event → Int
  | .lockUpgrade _ _ => 1
  | _ => 0

/-- The shares that the call takes out of the counter: those of the readers that it wounds, and
its own. -/
def takenShares (s : LockSystem) (e : Event) (rid : RID) : Int :=
  (s.woundedRequests e rid).countP (fun request => request.lockMode = .shared) + e.ownShare

/-- The critical section is in this lock call, past the tests that it begins with. -/
inductive Requests (s : LockSystem) : Event → TxnId → LockCall → RID → Prop where
  | lockShared {t : TxnId} {rid : RID} (hlevel : (s.txns t).isolationLevel ≠ .readUncommitted)
      (hstate : (s.txns t).state ≠ .shrinking) :
      Requests s (.lockShared t rid) t .lockShared rid
  | lockExclusive {t : TxnId} {rid : RID} (hstate : (s.txns t).state ≠ .shrinking) :
      Requests s (.lockExclusive t rid) t .lockExclusive rid
  | lockUpgrade {t : TxnId} {rid : RID} (hstate : (s.txns t).state ≠ .shrinking)
      (hupgrading : (s.queue rid).upgrading = false) :
      Requests s (.lockUpgrade t rid) t .lockUpgrade rid
  | wake {t : TxnId} {rid : RID} {call : LockCall} {notified : Bool}
      (hthread : s.threads t = .waiting call rid notified) : Requests s (.wake t) t call rid

/-- The lock call leaves no sleeper behind whose predicate it has made true. -/
structure WakesInTime (s : LockSystem) (e : Event) : Prop where
  /-- It wounds no transaction that is asleep, on whichever queue. -/
  victims : ∀ u call rid, s.Wounds u e → ¬ s.Asleep u call rid
  /-- If it wounds a writer while a reader sleeps, then it takes the exclusive lock itself: its
  transaction is not aborted, and there are no shares but those that it takes out. -/
  readers : ∀ t call rid, s.Requests e t call rid → s.WoundsWriter e rid →
    ∀ u, u ≠ t → s.Asleep u .lockShared rid →
      call ≠ .lockShared ∧ (s.txns t).state ≠ .aborted ∧
        (s.queue rid).sharingCount = s.takenShares e rid
  /-- If its transaction is aborted, and it takes out the last holders, then nobody sleeps for
  the exclusive lock. -/
  writers : ∀ t call rid, s.Requests e t call rid → (s.txns t).state = .aborted →
    s.WriterGone e rid → (s.queue rid).sharingCount = s.takenShares e rid →
    ∀ u other, u ≠ t → other ≠ .lockShared → ¬ s.Asleep u other rid
  /-- If it takes the shared lock, and the counter comes to zero by that, then nobody sleeps for
  the exclusive lock. -/
  shared : ∀ t rid, s.Requests e t .lockShared rid → (s.txns t).state ≠ .aborted →
    s.WriterGone e rid → (s.queue rid).sharingCount = s.takenShares e rid - 1 →
    ∀ u other, u ≠ t → other ≠ .lockShared → ¬ s.Asleep u other rid

variable {s final : LockSystem} {t u : TxnId} {rid : RID} {e : Event} {events : List Event}
  {outcome : LockOutcome} {a : Attempt} {call : LockCall} {wounded : TxnId → Prop}

theorem noLostWakeup_initial (levels : TxnId → IsolationLevel) :
    (initial levels).NoLostWakeup := by
  intro u call rid hasleep
  cases hasleep

/-! ## The counters of an attempt -/

/-- An attempt is made by a lock call that has passed its first tests. -/
theorem requests_of_attempt (ha : s.attempt e = some a) : s.Requests e a.txnId a.call a.rid := by
  rcases attempt_cases ha with ⟨t, rid, rfl, hlevel, hstate, rfl⟩ | ⟨t, rid, rfl, hstate, rfl⟩ |
    ⟨t, rid, rfl, hstate, hupgrading, rfl⟩ | ⟨t, call, rid, notified, rfl, hthread, rfl⟩
  · exact .lockShared hlevel hstate
  · exact .lockExclusive hstate
  · exact .lockUpgrade hstate hupgrading
  · exact .wake hthread

theorem Requests.exists_attempt (h : s.Requests e t call rid) :
    ∃ a, s.attempt e = some a ∧ a.txnId = t ∧ a.call = call ∧ a.rid = rid := by
  cases h with
  | lockShared hlevel hstate => exact ⟨_, if_neg (not_or.mpr ⟨hlevel, hstate⟩), rfl, rfl, rfl⟩
  | lockExclusive hstate => exact ⟨_, if_neg hstate, rfl, rfl, rfl⟩
  | lockUpgrade hstate hupgrading =>
      exact ⟨_, if_neg (not_or.mpr ⟨hstate, by simp [hupgrading]⟩), rfl, rfl, rfl⟩
  | wake hthread =>
      refine ⟨s.wakeAttempt t rid call true, ?_, rfl, rfl, rfl⟩
      simp only [attempt, hthread]

/-- The caller's own request is none that it wounds. -/
theorem younger_modifyRequest {f : LockRequest → LockRequest} (hf : ∀ r, (f r).txnId = r.txnId)
    (requests : List LockRequest) : younger t (modifyRequest t f requests) = younger t requests := by
  induction requests with
  | nil => rfl
  | cons head rest ih =>
      unfold modifyRequest
      by_cases hown : head.txnId = t
      · rw [if_pos hown, younger_cons, younger_cons, hf head, hown, if_neg (by simp),
          if_neg (by simp)]
      · rw [if_neg hown, younger_cons, younger_cons, ih]

theorem woundedBy_iff {requests : List LockRequest} {request : LockRequest}
    (hmem : request ∈ requests) (hgranted : request.granted) :
    (∃ other ∈ younger t requests, other.txnId = request.txnId) ↔ t < request.txnId := by
  constructor
  · rintro ⟨other, hother, hsame⟩
    exact hsame ▸ ((mem_younger t).mp hother).2.2
  · intro hlt
    exact ⟨request, (mem_younger t).mpr ⟨hmem, hgranted, hlt⟩, rfl⟩

/-- `DeadlockPrevent` goes through the younger holders, if it is called. -/
theorem woundedRequests_eq {busy : Prop} [Decidable busy]
    (hwounds : ∀ request ∈ (s.queue rid).requestQueue, request.granted →
      (s.Wounds request.txnId e ↔ busy ∧ t < request.txnId)) :
    s.woundedRequests e rid = if busy then younger t (s.queue rid).requestQueue else [] := by
  unfold woundedRequests younger
  split
  next hbusy =>
    apply List.filter_congr
    intro request hmem
    by_cases hgranted : request.granted
    · simp [hgranted, hwounds request hmem hgranted, hbusy]
    · simp [hgranted]
  next hbusy =>
    rw [List.filter_eq_nil_iff]
    intro request hmem
    by_cases hgranted : request.granted
    · simp [hwounds request hmem hgranted, hbusy]
    · simp [hgranted]

/-- The counters that the test of a lock call sees. -/
theorem counters_attempt (ha : s.attempt e = some a) :
    a.queue.isWriting = ((s.queue a.rid).isWriting &&
      (s.woundedRequests e a.rid).all (fun request => request.lockMode = .shared)) ∧
    a.queue.sharingCount = (s.queue a.rid).sharingCount - s.takenShares e a.rid := by
  have hnew : ∀ t rid call mode (busy : Bool), e.ownShare = 0 →
      s.woundedRequests e rid = (if busy then younger t (s.queue rid).requestQueue else []) →
      (s.newAttempt t rid call mode busy).queue.isWriting = ((s.queue rid).isWriting &&
        (s.woundedRequests e rid).all (fun request => request.lockMode = .shared)) ∧
      (s.newAttempt t rid call mode busy).queue.sharingCount =
        (s.queue rid).sharingCount - s.takenShares e rid := by
    intro t rid call mode busy hown hwounded
    unfold takenShares
    rw [hwounded, hown]
    cases busy <;> simp [newAttempt, woundQueue]
  rcases attempt_cases ha with ⟨t, rid, rfl, hlevel, hstate, rfl⟩ | ⟨t, rid, rfl, hstate, rfl⟩ |
    ⟨t, rid, rfl, hstate, hupgrading, rfl⟩ | ⟨t, call, rid, notified, rfl, hthread, rfl⟩
  · apply hnew t rid .lockShared .shared (s.queue rid).isWriting rfl
    apply woundedRequests_eq
    intro request hmem hgranted
    simp only [Wounds, WoundedBy, woundedBy_iff hmem hgranted, hlevel, hstate, not_false_eq_true,
      ne_eq, true_and]
  · apply hnew t rid .lockExclusive .exclusive (exclusiveBusy (s.queue rid)) rfl
    apply woundedRequests_eq
    intro request hmem hgranted
    simp only [Wounds, WoundedBy, woundedBy_iff hmem hgranted, hstate, not_false_eq_true,
      ne_eq, true_and, exclusiveBusy, decide_eq_true_eq]
  · have hwounded : s.woundedRequests (.lockUpgrade t rid) rid =
        if exclusiveBusy ((s.dropShared t rid).queue rid) then younger t (s.queue rid).requestQueue
        else [] := by
      apply woundedRequests_eq
      intro request hmem hgranted
      simp only [Wounds, WoundedBy, queue_dropShared_self, younger_modifyRequest (t := t)
        (f := fun r => { r with lockMode := .exclusive, granted := false }) (fun _ => rfl),
        woundedBy_iff hmem hgranted, hstate, hupgrading, not_false_eq_true, ne_eq, true_and,
        exclusiveBusy, decide_eq_true_eq]
    unfold takenShares
    change (s.upgradeAttempt t rid).queue.isWriting = ((s.queue rid).isWriting &&
        (s.woundedRequests (.lockUpgrade t rid) rid).all _) ∧
      (s.upgradeAttempt t rid).queue.sharingCount = (s.queue rid).sharingCount -
        ((s.woundedRequests (.lockUpgrade t rid) rid).countP _ + 1)
    rw [hwounded]
    unfold upgradeAttempt
    dsimp only
    cases exclusiveBusy ((s.dropShared t rid).queue rid) with
    | false =>
        simp
    | true =>
        simp only [woundQueue, if_true, queue_dropShared_self, younger_modifyRequest (t := t)
          (f := fun r => { r with lockMode := .exclusive, granted := false }) (fun _ => rfl)]
        exact ⟨trivial, by omega⟩
  · have hwounded : s.woundedRequests (.wake t) rid = [] := by
      rw [woundedRequests, List.filter_eq_nil_iff]
      simp [Wounds]
    unfold takenShares
    rw [show (s.wakeAttempt t rid call true).rid = rid from rfl, hwounded]
    simp [wakeAttempt, Event.ownShare]

theorem isWriting_attempt_iff (ha : s.attempt e = some a) :
    a.queue.isWriting = false ↔ s.WriterGone e a.rid := by
  rw [(counters_attempt ha).1, Bool.and_eq_false_iff, List.all_eq_false]
  unfold WriterGone WoundsWriter
  apply or_congr_right
  apply exists_congr
  intro request
  cases request.lockMode <;> simp

theorem sharingCount_attempt_iff (ha : s.attempt e = some a) (count : Int) :
    a.queue.sharingCount = count ↔
      (s.queue a.rid).sharingCount = s.takenShares e a.rid + count := by
  rw [(counters_attempt ha).2]
  omega

/-- The shared lock is there for the taking if nobody is writing. -/
theorem passes_shared_iff (ha : s.attempt e = some a) (hcall : a.call = .lockShared) :
    a.passes ↔ a.queue.isWriting = false := by
  refine ⟨isWriting_of_passes ha, fun hwriting => ?_⟩
  simp [Attempt.passes, hcall, isFree, hwriting]

/-- A call that wounds somebody is in `cv_.wait`. -/
theorem waits_of_wounds (ha : s.attempt e = some a) (hwounds : s.Wounds u e) : a.waits := by
  rcases attempt_cases ha with ⟨t, rid, rfl, -, -, rfl⟩ | ⟨t, rid, rfl, -, rfl⟩ |
    ⟨t, rid, rfl, -, -, rfl⟩ | ⟨t, call, rid, notified, rfl, -, rfl⟩
  · exact hwounds.2.2.1
  · simpa [newAttempt, exclusiveBusy] using hwounds.2.1
  · simpa [upgradeAttempt, exclusiveBusy] using hwounds.2.2.1
  · rfl

/-! ## Attempts -/

/-- What the attempt leaves free for a sleeper. -/
theorem isFree_settledQueue (call : LockCall) : isFree call a.settledQueue =
    if a.granted then
      decide (a.call = .lockShared) && isFree call { a.queue with
        sharingCount := a.queue.sharingCount + 1 }
    else isFree call a.queue := by
  unfold Attempt.settledQueue Attempt.granted
  cases a.aborted with
  | true => cases call <;> rfl
  | false =>
      cases a.passes with
      | false => rfl
      | true =>
          obtain ⟨-, -, own, -, -, -⟩ := a
          cases own <;> cases call <;> simp [isFree, grantedQueue]

/-- The caller itself sleeps only if its own predicate is false. -/
theorem Settles.own (h : s.Settles wounded a outcome final)
    (hasleep : final.Asleep a.txnId call rid) : final.canProceed a.txnId rid call = false := by
  unfold Asleep at hasleep
  rw [h.threads, Function.update_self] at hasleep
  unfold Attempt.settledThread at hasleep
  split at hasleep
  · cases hasleep
  next hblocked =>
    rw [Bool.not_eq_true, Bool.or_eq_false_iff] at hblocked
    obtain ⟨haborted, hpasses⟩ := hblocked
    cases hasleep
    have hgranted : a.granted = false := by simp [Attempt.granted, hpasses]
    have htxn : final.txns a.txnId = a.txn := by
      rw [h.txn, Attempt.settledTxn, hgranted]
      rfl
    have hqueue : isFree a.call (final.queue a.rid) = isFree a.call a.queue := by
      rw [h.queue, isFree_settledQueue, hgranted]
      rfl
    unfold Attempt.aborted at haborted
    unfold Attempt.passes at hpasses
    simp only [Bool.or_eq_false_iff] at hpasses
    rw [canProceed_eq, htxn, hqueue, haborted, hpasses.2]
    rfl

/-- The other sleepers: they are not to be wounded, and the counters of the queue are
not to set them free. -/
theorem Settles.canProceed_of_ne (h : s.Settles wounded a outcome final)
    (hsleepers : s.NoLostWakeup) (hne : u ≠ a.txnId) (hasleep : s.Asleep u call rid) :
    final.canProceed u rid call = false ↔
      ¬ wounded u ∧ (rid = a.rid → isFree call a.settledQueue = false) := by
  have hbefore := hsleepers u call rid hasleep
  rw [canProceed_eq, Bool.or_eq_false_iff] at hbefore ⊢
  obtain ⟨hstate, hfree⟩ := hbefore
  by_cases hwound : wounded u
  · rw [h.victim u hne hwound]
    simp [hwound]
  · rw [h.txns_of_ne u hne hwound, hstate]
    by_cases hrid : rid = a.rid
    · subst hrid
      rw [h.queue]
      simp [hwound]
    · rw [h.queue_of_ne rid hrid, hfree]
      simp [hwound, hrid]

/-- A reader that sleeps because of a writer is not set free: the writer stays, or the caller
itself becomes the next one. -/
theorem isFree_reader_iff (ha : s.attempt e = some a) (hwriting : (s.queue a.rid).isWriting) :
    isFree .lockShared a.settledQueue = false ↔
      (s.WoundsWriter e a.rid → a.call ≠ .lockShared ∧ a.aborted = false ∧
        (s.queue a.rid).sharingCount = s.takenShares e a.rid) := by
  rw [isFree_settledQueue]
  by_cases hwounds : s.WoundsWriter e a.rid
  · have hgone : a.queue.isWriting = false := (isWriting_attempt_iff ha).mpr (Or.inr hwounds)
    obtain ⟨request, hmem, -⟩ := id hwounds
    have hwaits : a.waits = true :=
      waits_of_wounds ha (of_decide_eq_true (List.mem_filter.mp hmem).2).2
    have hcount := sharingCount_attempt_iff ha 0
    rw [add_zero] at hcount
    rw [← hcount, forall_prop_of_true hwounds]
    unfold Attempt.granted Attempt.passes
    rw [hwaits]
    cases a.call <;> cases a.aborted <;> by_cases hzero : a.queue.sharingCount = 0 <;>
      simp [isFree, hgone, hzero]
  · have hstays : a.queue.isWriting = true := by
      rw [← Bool.not_eq_false, isWriting_attempt_iff ha]
      rintro (hnone | hwound)
      · rw [hwriting] at hnone
        cases hnone
      · exact hwounds hwound
    have hgranted : a.granted = false := by
      rw [Attempt.granted, Bool.and_eq_false_iff, ← Bool.not_eq_true a.passes]
      refine Or.inr fun hpasses => ?_
      rw [isWriting_of_passes ha hpasses] at hstays
      cases hstays
    rw [hgranted]
    simp [isFree, hstays, hwounds]

/-- A sleeper that waits for the exclusive lock is set free by the last holders only. -/
theorem isFree_writer_iff (ha : s.attempt e = some a) (hcall : call ≠ .lockShared) :
    isFree call a.settledQueue = false ↔
      (a.aborted = true → s.WriterGone e a.rid →
        (s.queue a.rid).sharingCount ≠ s.takenShares e a.rid) ∧
      (a.call = .lockShared → a.aborted = false → s.WriterGone e a.rid →
        (s.queue a.rid).sharingCount ≠ s.takenShares e a.rid - 1) := by
  have hfree : ∀ call, call ≠ .lockShared → ∀ q,
      isFree call q = (!q.isWriting && decide (q.sharingCount = 0)) := by
    intro call hcall q
    cases call with
    | lockShared => exact absurd rfl hcall
    | lockExclusive | lockUpgrade => rfl
  have hzero := sharingCount_attempt_iff ha 0
  have hminus := sharingCount_attempt_iff ha (-1)
  rw [add_zero] at hzero
  rw [isFree_settledQueue, hfree call hcall, hfree call hcall, ← isWriting_attempt_iff ha, ne_eq,
    ne_eq, ← hzero, sub_eq_add_neg, ← hminus]
  cases haborted : a.aborted with
  | true =>
      have hgranted : a.granted = false := by simp [Attempt.granted, haborted]
      rw [hgranted]
      cases a.queue.isWriting <;> simp
  | false =>
      have hgranted : a.granted = a.passes := by simp [Attempt.granted, haborted]
      rw [hgranted]
      cases hpasses : a.passes with
      | true =>
          have hwriting := isWriting_of_passes ha hpasses
          have hone : a.queue.sharingCount + 1 = 0 ↔ a.queue.sharingCount = -1 := by omega
          simp [hwriting, hone]
      | false =>
          -- what the caller does not get is no use to a sleeper that asks for as much or more
          by_cases hshared : a.call = .lockShared
          · have hwriting : a.queue.isWriting = true := by
              rw [← Bool.not_eq_false, ← passes_shared_iff ha hshared, hpasses]
              exact Bool.noConfusion
            simp [hwriting]
          · have hrefused : isFree a.call a.queue = false := by
              rw [Attempt.passes, Bool.or_eq_false_iff] at hpasses
              exact hpasses.2
            rw [hfree a.call hshared] at hrefused
            simp [hrefused, hshared]

/-- An attempt loses no wake-up exactly if it is in time. -/
theorem Settles.keepsWakeups_iff (h : s.Settles (s.Wounds · e) a outcome final)
    (ha : s.attempt e = some a) (hsleepers : s.NoLostWakeup) : final.NoLostWakeup ↔ s.WakesInTime e := by
  have hthread : ∀ u, u ≠ a.txnId → ∀ call rid, final.Asleep u call rid ↔ s.Asleep u call rid := by
    intro u hne call rid
    unfold Asleep
    rw [h.threads, Function.update_of_ne hne]
  have hothers : ∀ u call rid, u ≠ a.txnId → s.Asleep u call rid →
      (final.canProceed u rid call = false ↔
        ¬ s.Wounds u e ∧ (rid = a.rid → isFree call a.settledQueue = false)) :=
    fun u call rid hne hasleep => h.canProceed_of_ne hsleepers hne hasleep
  have haborted : a.aborted = decide ((s.txns a.txnId).state = .aborted) := by
    rw [Attempt.aborted, attempt_state ha]
  have hreader : ∀ u, s.Asleep u .lockShared a.rid → (s.queue a.rid).isWriting := by
    intro u hasleep
    have hbefore := hsleepers u .lockShared a.rid hasleep
    rw [canProceed_eq, Bool.or_eq_false_iff] at hbefore
    simpa [isFree] using hbefore.2
  constructor
  · intro hfinal
    have hkept : ∀ u call rid, u ≠ a.txnId → s.Asleep u call rid →
        ¬ s.Wounds u e ∧ (rid = a.rid → isFree call a.settledQueue = false) :=
      fun u call rid hne hasleep => (hothers u call rid hne hasleep).mp
        (hfinal u call rid ((hthread u hne call rid).mpr hasleep))
    refine ⟨?_, ?_, ?_, ?_⟩
    · intro u call rid hwound hasleep
      exact (hkept u call rid (lt_of_wounds ha hwound).ne' hasleep).1 hwound
    · intro t call rid hrequests hwounds u hne hasleep
      obtain ⟨b, hb, rfl, rfl, rfl⟩ := hrequests.exists_attempt
      obtain rfl : a = b := Option.some.inj (ha.symm.trans hb)
      have hfree := (hkept u .lockShared a.rid hne hasleep).2 rfl
      have htakes := (isFree_reader_iff ha (hreader u hasleep)).mp hfree hwounds
      rwa [haborted, decide_eq_false_iff_not] at htakes
    · intro t call rid hrequests hstate hgone hlast u other hne hother hasleep
      obtain ⟨b, hb, rfl, rfl, rfl⟩ := hrequests.exists_attempt
      obtain rfl : a = b := Option.some.inj (ha.symm.trans hb)
      have hfree := (hkept u other a.rid hne hasleep).2 rfl
      exact ((isFree_writer_iff ha hother).mp hfree).1 (haborted.trans (decide_eq_true hstate))
        hgone hlast
    · intro t rid hrequests hstate hgone hlast u other hne hother hasleep
      obtain ⟨b, hb, rfl, hcall, rfl⟩ := hrequests.exists_attempt
      obtain rfl : a = b := Option.some.inj (ha.symm.trans hb)
      have hfree := (hkept u other a.rid hne hasleep).2 rfl
      exact ((isFree_writer_iff ha hother).mp hfree).2 hcall
        (haborted.trans (decide_eq_false hstate)) hgone hlast
  · intro hguard u call rid hasleep
    by_cases hself : u = a.txnId
    · subst hself
      exact h.own hasleep
    · have hearlier := (hthread u hself call rid).mp hasleep
      have hrequests := requests_of_attempt ha
      rw [hothers u call rid hself hearlier]
      refine ⟨fun hwound => hguard.victims u call rid hwound hearlier, ?_⟩
      rintro rfl
      by_cases hshared : call = .lockShared
      · subst hshared
        rw [isFree_reader_iff ha (hreader u hearlier), haborted, decide_eq_false_iff_not]
        exact fun hwounds => hguard.readers _ _ _ hrequests hwounds u hself hearlier
      · rw [isFree_writer_iff ha hshared, haborted, decide_eq_true_eq, decide_eq_false_iff_not]
        constructor
        · intro hstate hgone hlast
          exact hguard.writers _ _ _ hrequests hstate hgone hlast u call hself hshared hearlier
        · intro hcall hstate hgone hlast
          rw [hcall] at hrequests
          exact hguard.shared _ _ hrequests hstate hgone hlast u call hself hshared hearlier

/-! ## Runs -/

/-- `Unlock` notifies whenever it makes a predicate true. -/
theorem Unlocks.noLostWakeup (h : s.Unlocks t rid final) (hsleepers : s.NoLostWakeup) :
    final.NoLostWakeup := by
  obtain ⟨middle, hunlock, hfinal⟩ := h.unlock
  intro u call other hasleep
  have hne : u ≠ t := by
    rintro rfl
    exact h.awake_after call other false hasleep
  have hmiddle : middle.Asleep u call other ∧ final.txns u = middle.txns u ∧
      final.queue other = middle.queue other := by
    rcases hfinal with rfl | ⟨lockSet, rfl⟩
    · exact ⟨hasleep, rfl, rfl⟩
    · refine ⟨?_, rfl, rfl⟩
      unfold Asleep at hasleep ⊢
      rwa [releaseRest, threads_setThread, Function.update_of_ne hne] at hasleep
  obtain ⟨hasleep, htxn, hqueue⟩ := hmiddle
  obtain ⟨request, -, htxns, -, hother, -⟩ := unlock_cases s t rid hunlock
  have hearlier : s.Asleep u call other := by
    rcases threads_unlock s t rid hunlock u with hsame | ⟨call', -, hnotified⟩
    · exact hsame.symm.trans hasleep
    · unfold Asleep at hasleep
      rw [hnotified] at hasleep
      cases hasleep
  have hbefore := hsleepers u call other hearlier
  rw [canProceed_eq, Bool.or_eq_false_iff] at hbefore ⊢
  rw [htxn, hqueue, htxns, Function.update_of_ne hne]
  refine ⟨hbefore.1, ?_⟩
  by_cases hrid : other = rid
  · subst hrid
    rcases unlock_notifies s t other hunlock with hnotified | ⟨hshares, hwriting⟩
    · unfold Asleep at hasleep
      rw [hnotified u call false hearlier] at hasleep
      cases hasleep
    · have hfree := hbefore.2
      cases call with
      | lockShared => simpa [isFree, hwriting] using hfree
      | lockExclusive | lockUpgrade => simp [isFree, hshares]
  · rw [hother other hrid]
    exact hbefore.2

theorem Quiet.noLostWakeup (h : s.Quiet outcome final) (hsleepers : s.NoLostWakeup) :
    final.NoLostWakeup := by
  intro u call rid hasleep
  have hearlier : s.Asleep u call rid := by
    rcases h.threads u with hsame | ⟨-, hawake⟩
    · exact hsame.symm.trans hasleep
    · exact absurd hasleep (hawake call rid false)
  have hbefore := hsleepers u call rid hearlier
  rcases h.txns u with hsame | hawake
  · rwa [canProceed_eq, hsame, h.queue, ← canProceed_eq]
  · exact absurd hearlier (hawake call rid false)

/-- Everything else notifies in time. -/
theorem wakesInTime_of_attempt_none (hnone : s.attempt e = none) : s.WakesInTime e := by
  have hnot : ∀ t call rid, ¬ s.Requests e t call rid := by
    intro t call rid hrequests
    obtain ⟨a, ha, -⟩ := hrequests.exists_attempt
    rw [hnone] at ha
    cases ha
  refine ⟨?_, ?_, ?_, ?_⟩
  · intro u call rid hwounds
    exact absurd hnone (attempt_of_wounds hwounds)
  · intro t call rid hrequests
    exact absurd hrequests (hnot t call rid)
  · intro t call rid hrequests
    exact absurd hrequests (hnot t call rid)
  · intro t rid hrequests
    exact absurd hrequests (hnot t .lockShared rid)

theorem noLostWakeup_step_iff (hsleepers : s.NoLostWakeup)
    (hstep : s.step e = .ok (outcome, final)) : final.NoLostWakeup ↔ s.WakesInTime e := by
  rcases step_cases hstep with ⟨a, ha, hsettles⟩ | ⟨t, rid, he, hunlocks⟩ | ⟨hnone, hquiet⟩
  · exact hsettles.keepsWakeups_iff ha hsleepers
  · have hnone : s.attempt e = none := by
      rcases he with rfl | rfl
      · rfl
      · rfl
    exact iff_of_true (hunlocks.noLostWakeup hsleepers) (wakesInTime_of_attempt_none hnone)
  · exact iff_of_true (hquiet.noLostWakeup hsleepers) (wakesInTime_of_attempt_none hnone)

/-- No wake-up is lost in any state of a run exactly if every lock call of the run is in
time. -/
theorem noLostWakeup_iff (levels : TxnId → IsolationLevel)
    (hreach : machine.Reaches (initial levels) events final) :
    (∀ before after middle, events = before ++ after →
      machine.Reaches (initial levels) before middle → middle.NoLostWakeup) ↔
    machine.Guarded WakesInTime (initial levels) events := by
  refine hreach.guarded_iff NoLostWakeup NoLostWakeup (fun _ h => h) ?_ ?_
    (noLostWakeup_initial levels)
  · intro state input output next hsleepers hguard hstep
    exact (noLostWakeup_step_iff hsleepers hstep).mpr hguard
  · intro state input output next hsleepers hguard hstep hnext
    exact hguard ((noLostWakeup_step_iff hsleepers hstep).mp hnext)

/-- A call that wounds nobody and gives up no share is in time, but for one that brings the
counter from minus one to zero. -/
theorem wakesInTime_of_wounds_nobody (ha : s.attempt e = some a) (hnone : ∀ u, ¬ s.Wounds u e)
    (hown : e.ownShare = 0) (hstate : (s.txns a.txnId).state ≠ .aborted)
    (hcount : (s.queue a.rid).sharingCount ≠ -1) : s.WakesInTime e := by
  have hwounded : ∀ rid, s.woundedRequests e rid = [] := by
    intro rid
    rw [woundedRequests, List.filter_eq_nil_iff]
    simp [hnone]
  refine ⟨?_, ?_, ?_, ?_⟩
  · intro u call rid hwounds
    exact absurd hwounds (hnone u)
  · rintro t call rid - ⟨request, hmem, -⟩
    rw [hwounded] at hmem
    cases hmem
  · intro t call rid hrequests haborted
    obtain ⟨b, hb, rfl, -⟩ := hrequests.exists_attempt
    obtain rfl : a = b := Option.some.inj (ha.symm.trans hb)
    exact absurd haborted hstate
  · intro t rid hrequests _ _ hlast
    obtain ⟨b, hb, -, -, rfl⟩ := hrequests.exists_attempt
    obtain rfl : a = b := Option.some.inj (ha.symm.trans hb)
    rw [takenShares, hwounded, hown] at hlast
    exact absurd hlast hcount

/-- Two readers sleep behind an older writer, and go on when it has given back its lock. -/
def readersBehindWriter : List Event :=
  [.lockExclusive 1 ⟨0, 0⟩, .lockShared 2 ⟨0, 0⟩, .lockShared 3 ⟨0, 0⟩, .unlock 1 ⟨0, 0⟩, .wake 2,
    .wake 3]

theorem noLostWakeup_iff_readersBehindWriter :
    (∃ middle, machine.Reaches (initial fun _ => .repeatableRead) (readersBehindWriter.take 3)
        middle ∧ middle.Asleep 2 .lockShared ⟨0, 0⟩ ∧ middle.Asleep 3 .lockShared ⟨0, 0⟩) ∧
    ∀ before after middle, readersBehindWriter = before ++ after →
      machine.Reaches (initial fun _ => .repeatableRead) before middle →
        middle.NoLostWakeup := by
  refine ⟨⟨_, ⟨_, rfl⟩, rfl, rfl⟩,
    (noLostWakeup_iff (fun _ => .repeatableRead) ⟨_, rfl⟩).mpr ?_⟩
  refine (Machine.guarded_cons_of_step rfl _).mpr
    ⟨wakesInTime_of_wounds_nobody rfl ?_ rfl (by decide) (by decide), ?_⟩
  · rintro u ⟨-, -, request, hmem, -⟩
    cases hmem
  refine (Machine.guarded_cons_of_step rfl _).mpr
    ⟨wakesInTime_of_wounds_nobody rfl ?_ rfl (by decide) (by decide), ?_⟩
  · rintro u ⟨-, -, -, request, hmem, -⟩
    cases hmem
  refine (Machine.guarded_cons_of_step rfl _).mpr
    ⟨wakesInTime_of_wounds_nobody rfl ?_ rfl (by decide) (by decide), ?_⟩
  · rintro u ⟨-, -, -, request, hmem, -⟩
    cases hmem
  refine (Machine.guarded_cons_of_step rfl _).mpr ⟨wakesInTime_of_attempt_none rfl, ?_⟩
  refine (Machine.guarded_cons_of_step rfl _).mpr
    ⟨wakesInTime_of_wounds_nobody rfl (fun _ => id) rfl (by decide) (by decide), ?_⟩
  exact (Machine.guarded_cons_of_step rfl _).mpr
    ⟨wakesInTime_of_wounds_nobody rfl (fun _ => id) rfl (by decide) (by decide), trivial⟩

/-- Transaction 4 sleeps behind the writer 3. The reader 1 wounds the writer, which takes
it out of `is_writing_`, and nobody tells 4 that a reader could go on now. -/
def woundedForReader : List Event :=
  [.lockExclusive 3 ⟨0, 0⟩, .lockShared 4 ⟨0, 0⟩, .lockShared 1 ⟨0, 0⟩]

theorem woundedForReader_lostWakeup : ∃ final,
    machine.Reaches (initial fun _ => .repeatableRead) woundedForReader final ∧
      machine.Guarded Documented (initial fun _ => .repeatableRead) woundedForReader ∧
      final.Asleep 4 .lockShared ⟨0, 0⟩ ∧ final.canProceed 4 ⟨0, 0⟩ .lockShared ∧
      ¬ final.NoLostWakeup := by
  refine ⟨_, ⟨_, rfl⟩, ?_, rfl, rfl, ?_⟩
  · refine (Machine.guarded_cons_of_step rfl _).mpr ⟨by decide, ?_⟩
    refine (Machine.guarded_cons_of_step rfl _).mpr ⟨by decide, ?_⟩
    exact (Machine.guarded_cons_of_step rfl _).mpr ⟨by decide, trivial⟩
  · intro hsleepers
    exact Bool.noConfusion (hsleepers 4 .lockShared ⟨0, 0⟩ rfl)

end BusTub.LockSystem
