import BusTub.Concurrency.LockRequests
import Mathlib.Logic.Relation

/-! # Wound-wait

`DeadlockPrevent` wounds every younger holder when a request has to wait, so at that
moment the request waits for older transactions only. That is done once. A lock that is
granted afterwards past the sleeper, to a younger transaction, makes it wait for that one,
and `DeadlockPrevent` does not run again.
-/

namespace BusTub.LockSystem

/-- Two locks on one rid conflict unless both are shared. -/
def Conflict (first second : LockMode) : Prop := ¬(first = .shared ∧ second = .shared)

/-- The transaction sleeps in a lock call on the rid. -/
def WaitsAt (s : LockSystem) (t : TxnId) (rid : RID) (call : LockCall) : Prop :=
  ∃ notified, s.threads t = .waiting call rid notified

/-- Neither is aborted, and the first sleeps in a lock call on a rid of which the second
holds a conflicting granted lock. -/
def WaitsFor (s : LockSystem) (t u : TxnId) : Prop :=
  ∃ rid call mode, s.WaitsAt t rid call ∧ (s.txns t).state ≠ .aborted ∧
    ⟨u, mode, true⟩ ∈ (s.queue rid).requestQueue ∧ (s.txns u).state ≠ .aborted ∧
    Conflict call.mode mode

/-- Whoever is blocked waits for strictly older transactions. -/
def WaitsForOlder (s : LockSystem) : Prop := ∀ t u, s.WaitsFor t u → u < t

/-- The waits-for graph has no cycle. -/
def Acyclic (s : LockSystem) : Prop := ∀ t, ¬ Relation.TransGen s.WaitsFor t t

/-- The critical section does not make an older transaction wait for a younger one. -/
structure KeepsOrder (s : LockSystem) (e : Event) : Prop where
  /-- No lock is granted past an older transaction that sleeps for a conflicting one. -/
  grant : ∀ a, s.attempt e = some a → a.granted → ∀ u call, u < a.txnId →
    s.WaitsAt u a.rid call → (s.txns u).state ≠ .aborted → ¬ Conflict call.mode a.call.mode
  /-- No aborted transaction calls `Commit` while an older one waits for its locks. -/
  commit : ∀ u, e = .commit u → (s.txns u).state = .aborted → ∀ t rid call mode, t ≤ u →
    s.WaitsAt t rid call → (s.txns t).state ≠ .aborted →
    ⟨u, mode, true⟩ ∈ (s.queue rid).requestQueue → ¬ Conflict call.mode mode

variable {s final : LockSystem} {t u : TxnId} {rid : RID} {e : Event} {events : List Event}
  {outcome : LockOutcome} {a : Attempt} {call : LockCall} {mode : LockMode}

/-- Waiting for older transactions only leaves no room for a cycle. -/
theorem WaitsForOlder.acyclic (h : s.WaitsForOlder) : s.Acyclic := by
  have hdescends : ∀ t u, Relation.TransGen s.WaitsFor t u → u < t := by
    intro t u hpath
    induction hpath with
    | single hedge => exact h t _ hedge
    | tail _ hedge ih => exact lt_trans (h _ _ hedge) ih
  intro t hcycle
  exact lt_irrefl t (hdescends t t hcycle)

theorem waitsForOlder_initial (levels : TxnId → IsolationLevel) :
    (initial levels).WaitsForOlder := by
  rintro t u ⟨rid, call, mode, ⟨notified, hthread⟩, -⟩
  cases hthread

/-! ## States -/

/-- Only `Commit` brings an aborted transaction back. -/
theorem not_aborted_before (hstep : s.step e = .ok (outcome, final)) (hcommit : e ≠ .commit u)
    (hfinal : (final.txns u).state ≠ .aborted) : (s.txns u).state ≠ .aborted := by
  obtain ⟨-, hends, hkeeps⟩ := step_state s hstep u
  by_cases hend : e = .abort u ∨ s.Wounds u e ∨ s.Refuses u e
  · exact absurd (hends hend) hfinal
  · simp only [not_or] at hend
    rcases hkeeps hcommit hend.1 hend.2.1 hend.2.2 with hsame | ⟨hgrowing, -⟩
    · exact hsame ▸ hfinal
    · rw [hgrowing]
      decide

/-- A lock call that puts its request into the queue aborts those that it wounds only. -/
theorem not_aborted_after (hstep : s.step e = .ok (outcome, final)) (ha : s.attempt e = some a)
    (hwounds : ¬ s.Wounds u e) (hstate : (s.txns u).state ≠ .aborted) :
    (final.txns u).state ≠ .aborted := by
  have hcall := attempt_isLockCallOf ha
  obtain ⟨-, -, hkeeps⟩ := step_state s hstep u
  have hcommit : e ≠ .commit u := by
    rintro rfl
    exact hcall
  have habort : e ≠ .abort u := by
    rintro rfl
    exact hcall
  have hrefuses : ¬ s.Refuses u e := by
    intro hrefuses
    rw [attempt_of_refuses hrefuses] at ha
    cases ha
  rcases hkeeps hcommit habort hwounds hrefuses with hsame | ⟨-, hshrink⟩
  · rwa [hsame]
  · rw [hshrink]
    decide

/-! ## Sleepers -/

/-- A request that has to wait has wounded every younger holder. -/
theorem wounds_of_waits (ha : s.attempt e = some a) (hwaits : a.waits) (hwake : e ≠ .wake a.txnId)
    (hmem : ⟨u, mode, true⟩ ∈ a.queue.requestQueue) (hyounger : a.txnId < u) : s.Wounds u e := by
  have hnew : ∀ t rid call own busy, t < u →
      ⟨u, mode, true⟩ ∈ (s.newAttempt t rid call own busy).queue.requestQueue →
      s.WoundedBy t rid u := by
    intro t rid call own busy hlt hmem
    rw [requestQueue_newAttempt] at hmem
    refine ⟨⟨u, mode, true⟩, (mem_younger t).mpr ⟨?_, rfl, hlt⟩, rfl⟩
    simpa using hmem
  rcases attempt_cases ha with ⟨t, rid, rfl, hlevel, hshrink, rfl⟩ | ⟨t, rid, rfl, hshrink, rfl⟩ |
    ⟨t, rid, rfl, hshrink, hupgrading, rfl⟩ | ⟨t, call, rid, notified, rfl, -, rfl⟩
  · exact ⟨hlevel, hshrink, hwaits, hnew t rid _ _ _ hyounger hmem⟩
  · exact ⟨hshrink, by simpa [newAttempt, exclusiveBusy] using hwaits, hnew t rid _ _ _ hyounger hmem⟩
  · refine ⟨hshrink, hupgrading, by simpa [upgradeAttempt, exclusiveBusy] using hwaits, ?_⟩
    refine ⟨⟨u, mode, true⟩, (mem_younger t).mpr ⟨?_, rfl, hyounger⟩, rfl⟩
    rw [requestQueue_upgradeAttempt] at hmem
    rwa [queue_dropShared_self]
  · exact absurd rfl hwake

/-- A caller that falls asleep, or sleeps on, waits for older transactions. -/
theorem Settles.own_older (h : s.Settles (s.Wounds · e) a outcome final)
    (ha : s.attempt e = some a) (hconsistent : s.RequestsConsistent)
    (hdocumented : s.Documented e) (hstep : s.step e = .ok (outcome, final))
    (holder : s.WaitsForOlder) (hedge : final.WaitsFor a.txnId u) : u < a.txnId := by
  obtain ⟨rid, call, mode, ⟨notified, hthread⟩, hstate, hmem, hholder, hconflict⟩ := hedge
  rw [h.threads, Function.update_self] at hthread
  unfold Attempt.settledThread at hthread
  split at hthread
  · cases hthread
  next hblocked =>
    cases hthread
    rw [Bool.not_eq_true, Bool.or_eq_false_iff] at hblocked
    obtain ⟨haborted, hpasses⟩ := hblocked
    have hqueue : final.queue a.rid = a.queue := by
      rw [h.queue, Attempt.settledQueue, haborted, hpasses]
      rfl
    rw [hqueue] at hmem
    have hcall := attempt_isLockCallOf ha
    have hnotCommit : ∀ v, e ≠ .commit v := by
      rintro v rfl
      exact hcall
    have hself : u ≠ a.txnId := by
      rintro rfl
      have hown := hconsistent.own_mem hdocumented hstep ha
      have hsame := (hconsistent.queued hdocumented hstep ha).unique hmem hown rfl
      exact Bool.noConfusion (congrArg LockRequest.granted hsame)
    by_contra hnot
    have hyounger : a.txnId < u := lt_of_le_of_ne (not_lt.mp hnot) hself.symm
    by_cases hwake : e = .wake a.txnId
    · have hwaits : s.WaitsAt a.txnId a.rid a.call := by
        subst hwake
        rcases attempt_cases ha with ⟨t, rid, he, -⟩ | ⟨t, rid, he, -⟩ | ⟨t, rid, he, -⟩ |
          ⟨t, call, rid, earlier, -, hearlier, rfl⟩
        · cases he
        · cases he
        · cases he
        · exact ⟨earlier, hearlier⟩
      exact hnot (holder a.txnId u ⟨a.rid, a.call, mode, hwaits,
        not_aborted_before hstep (hnotCommit _) hstate,
        granted_of_attempt hconsistent hdocumented ha hmem,
        not_aborted_before hstep (hnotCommit _) hholder, hconflict⟩)
    · have hwaits : a.waits = true := by
        simp only [Attempt.passes, Bool.or_eq_false_iff, Bool.not_eq_false'] at hpasses
        exact hpasses.1
      obtain ⟨-, hends, -⟩ := step_state s hstep u
      exact hholder (hends (Or.inr (Or.inl (wounds_of_waits ha hwaits hwake hmem hyounger))))

/-! ## Runs -/

/-- A critical section that keeps the order makes no older transaction wait. -/
theorem waitsForOlder_step (hconsistent : s.RequestsConsistent) (hdocumented : s.Documented e)
    (hstep : s.step e = .ok (outcome, final)) (holder : s.WaitsForOlder)
    (hguard : s.KeepsOrder e) : final.WaitsForOlder := by
  intro t u hedge
  by_cases hown : ∃ a, s.attempt e = some a ∧ a.txnId = t
  · obtain ⟨a, ha, rfl⟩ := hown
    rcases step_cases hstep with ⟨b, hb, hsettles⟩ | ⟨v, rid, he, -⟩ | ⟨hnone, -⟩
    · obtain rfl : a = b := Option.some.inj (ha.symm.trans hb)
      exact hsettles.own_older ha hconsistent hdocumented hstep holder hedge
    · rcases he with rfl | rfl <;> cases ha
    · rw [hnone] at ha
      cases ha
  · obtain ⟨rid, call, mode, ⟨notified, hthread⟩, hstate, hmem, hholder, hconflict⟩ := hedge
    have hwaits : s.WaitsAt t rid call := by
      by_cases hcall : e.IsLockCallOf t
      · rcases step_cases hstep with ⟨a, ha, -⟩ | ⟨v, other, he, -⟩ | ⟨hnone, hquiet⟩
        · exact absurd ⟨a, ha, (attempt_isLockCallOf ha).unique hcall⟩ hown
        · rcases he with rfl | rfl <;> exact hcall.elim
        · rcases hquiet.threads t with hsame | ⟨-, hawake⟩
          · exact ⟨notified, hsame ▸ hthread⟩
          · exact absurd hthread (hawake call rid notified)
      · exact waiting_before hstep hcall hthread
    have hbefore : (s.txns t).state ≠ .aborted := by
      refine not_aborted_before hstep ?_ hstate
      rintro rfl
      obtain ⟨earlier, hearlier⟩ := hwaits
      rw [(step_commit _ _ hstep).1] at hearlier
      cases hearlier
    by_contra hnot
    rcases granted_before hconsistent hdocumented hstep hmem with hold |
      ⟨a, ha, hgranted, rfl, rfl, rfl⟩
    · by_cases hcommit : e = .commit u ∧ (s.txns u).state = .aborted
      · exact hguard.commit u hcommit.1 hcommit.2 t rid call mode (not_lt.mp hnot) hwaits hbefore
          hold hconflict
      · have hholderBefore : (s.txns u).state ≠ .aborted := by
          by_cases he : e = .commit u
          · exact fun haborted => hcommit ⟨he, haborted⟩
          · exact not_aborted_before hstep he hholder
        exact hnot (holder t u ⟨rid, call, mode, hwaits, hbefore, hold, hholderBefore, hconflict⟩)
    · have hne : t ≠ a.txnId := fun hself => hown ⟨a, ha, hself.symm⟩
      have hlt : t < a.txnId := lt_of_le_of_ne (not_lt.mp hnot) hne
      exact hguard.grant a ha hgranted t call hlt hwaits hbefore hconflict

/-- One that does not keep it makes an older transaction wait for a younger one. -/
theorem keepsOrder_of_waitsForOlder (hconsistent : s.RequestsConsistent)
    (hdocumented : s.Documented e) (hstep : s.step e = .ok (outcome, final))
    (hfinal : final.WaitsForOlder) : s.KeepsOrder e := by
  refine ⟨?_, ?_⟩
  · rintro a ha hgranted u call hlt ⟨notified, hthread⟩ hstate hconflict
    rcases step_cases hstep with ⟨b, hb, hsettles⟩ | ⟨v, rid, he, -⟩ | ⟨hnone, -⟩
    · obtain rfl : a = b := Option.some.inj (ha.symm.trans hb)
      have hsleeper : final.threads u = .waiting call a.rid notified := by
        rw [hsettles.threads, Function.update_of_ne hlt.ne]
        exact hthread
      have hunwounded : ¬ s.Wounds u e := fun hwounds =>
        absurd (lt_of_wounds ha hwounds) (not_lt.mpr hlt.le)
      have hcaller : (final.txns a.txnId).state ≠ .aborted := by
        have haborted : a.aborted = false := by
          simp only [Attempt.granted, Bool.and_eq_true, Bool.not_eq_true'] at hgranted
          exact hgranted.1
        rw [hsettles.txn, a.settledTxn_state]
        simpa [Attempt.aborted] using haborted
      have hyounger := hfinal u a.txnId ⟨a.rid, call, a.call.mode, ⟨notified, hsleeper⟩,
        not_aborted_after hstep ha hunwounded hstate,
        granted_after hconsistent hdocumented hstep ha hgranted hsettles, hcaller, hconflict⟩
      exact absurd hyounger (not_lt.mpr hlt.le)
    · rcases he with rfl | rfl <;> cases ha
    · rw [hnone] at ha
      cases ha
  · rintro u rfl haborted t rid call mode hle ⟨notified, hthread⟩ hstate hmem hconflict
    obtain ⟨hidle, -, rfl⟩ := step_commit _ _ hstep
    have hne : t ≠ u := by
      rintro rfl
      rw [hidle] at hthread
      cases hthread
    have hsleeper : (s.endTxn u .committed).threads t = .waiting call rid notified := by
      rw [endTxn, releaseRest, threads_setThread, Function.update_of_ne hne]
      exact hthread
    have hlt := hfinal t u ⟨rid, call, mode, ⟨notified, hsleeper⟩,
      by simpa [endTxn, releaseRest, hne] using hstate, hmem,
      by simp [endTxn, releaseRest], hconflict⟩
    exact absurd hlt (not_lt.mpr hle)

/-- In a run of documented calls, everyone who is blocked waits for strictly older
transactions throughout exactly if every critical section keeps the order; then the
waits-for graph never has a cycle. -/
theorem woundWait_iff {levels : TxnId → IsolationLevel}
    (hreach : machine.Reaches (initial levels) events final)
    (hdocumented : machine.Guarded Documented (initial levels) events) :
    (∀ before after middle, events = before ++ after →
      machine.Reaches (initial levels) before middle →
      middle.WaitsForOlder ∧ middle.Acyclic) ↔
    machine.Guarded KeepsOrder (initial levels) events := by
  refine hreach.guarded_iff_within (fun s => s.RequestsConsistent ∧ s.WaitsForOlder)
    (fun s => s.WaitsForOlder ∧ s.Acyclic) ?_ ?_ ?_ hdocumented
    ⟨requestsConsistent_initial levels, waitsForOlder_initial levels⟩
  · rintro s ⟨-, holder⟩
    exact ⟨holder, holder.acyclic⟩
  · rintro s e outcome next ⟨hconsistent, holder⟩ hcall hguard hstep
    exact ⟨hconsistent.step hcall hstep,
      waitsForOlder_step hconsistent hcall hstep holder hguard⟩
  · rintro s e outcome next ⟨hconsistent, -⟩ hcall hguard hstep ⟨hnext, -⟩
    exact hguard (keepsOrder_of_waitsForOlder hconsistent hcall hstep hnext)

/-- The order is kept where nobody sleeps that is older than the caller. -/
theorem keepsOrder_of_sleepers
    (hsleepers : ∀ a, s.attempt e = some a → ∀ u rid call, s.WaitsAt u rid call → a.txnId ≤ u)
    (hcommit : ∀ u, e = .commit u → (s.txns u).state ≠ .aborted) : s.KeepsOrder e where
  grant a ha _ u call hlt hwaits _ := absurd hlt (not_lt.mpr (hsleepers a ha u _ call hwaits))
  commit u he haborted := absurd haborted (hcommit u he)

theorem keepsOrder_of_attempt_none (hnone : s.attempt e = none)
    (hcommit : ∀ u, e = .commit u → (s.txns u).state ≠ .aborted) : s.KeepsOrder e := by
  refine keepsOrder_of_sleepers (fun a ha => ?_) hcommit
  rw [hnone] at ha
  cases ha

/-- Nobody but the caller falls asleep. -/
theorem sleepers_step (hstep : s.step e = .ok (outcome, final))
    (hcaller : ∀ v, e.IsLockCallOf v → v = t ∨ final.threads v = .idle)
    (hsleepers : ∀ u rid call, s.WaitsAt u rid call → u = t) (u : TxnId) (rid : RID)
    (call : LockCall) (hwaits : final.WaitsAt u rid call) : u = t := by
  obtain ⟨notified, hthread⟩ := hwaits
  by_cases hcall : e.IsLockCallOf u
  · rcases hcaller u hcall with hself | hidle
    · exact hself
    · rw [hidle] at hthread
      cases hthread
  · exact hsleepers u rid call (waiting_before hstep hcall hthread)

/-- The older writer commits while the younger one waits for its lock. -/
def youngerWaits : List Event :=
  [.lockExclusive 1 ⟨0, 0⟩, .lockExclusive 2 ⟨0, 0⟩, .commit 1, .release 1 ⟨0, 0⟩, .wake 2]

theorem woundWait_iff_youngerWaits :
    (∃ middle, machine.Reaches (initial fun _ => .repeatableRead) (youngerWaits.take 2) middle ∧
      middle.WaitsFor 2 1) ∧
    ∀ before after middle, youngerWaits = before ++ after →
      machine.Reaches (initial fun _ => .repeatableRead) before middle →
      middle.WaitsForOlder ∧ middle.Acyclic := by
  have hdocumented : machine.Guarded Documented (initial fun _ => .repeatableRead)
      youngerWaits := by
    decide
  refine ⟨⟨_, ⟨_, rfl⟩, ⟨0, 0⟩, .lockExclusive, .exclusive, ⟨_, rfl⟩, by decide, by decide,
    by decide, fun h => LockMode.noConfusion h.1⟩, (woundWait_iff ⟨_, rfl⟩ hdocumented).mpr ?_⟩
  -- only transaction 2 ever sleeps
  have hstart : ∀ u rid call, (initial fun _ => .repeatableRead).WaitsAt u rid call → u = 2 :=
    fun _ _ _ ⟨_, hthread⟩ => nomatch hthread
  have hlocked := sleepers_step (e := .lockExclusive 1 ⟨0, 0⟩) rfl
    (fun v hv => .inr (by cases hv; rfl)) hstart
  have hasleep := sleepers_step (e := .lockExclusive 2 ⟨0, 0⟩) rfl
    (fun v hv => .inl hv.symm) hlocked
  have hcommitted := sleepers_step (e := .commit 1) rfl (fun v hv => hv.elim) hasleep
  have hreleased := sleepers_step (e := .release 1 ⟨0, 0⟩) rfl (fun v hv => hv.elim) hcommitted
  refine (Machine.guarded_cons_of_step rfl _).mpr ⟨keepsOrder_of_sleepers ?_ nofun, ?_⟩
  · rintro a ha u rid call ⟨notified, hthread⟩
    cases hthread
  refine (Machine.guarded_cons_of_step rfl _).mpr ⟨keepsOrder_of_sleepers ?_ nofun, ?_⟩
  · rintro a ha u rid call hwaits
    cases ha
    exact (hlocked u rid call hwaits).ge
  refine (Machine.guarded_cons_of_step rfl _).mpr ⟨keepsOrder_of_attempt_none rfl ?_, ?_⟩
  · rintro u ⟨⟩
    decide
  refine (Machine.guarded_cons_of_step rfl _).mpr ⟨keepsOrder_of_attempt_none rfl nofun, ?_⟩
  refine (Machine.guarded_cons_of_step rfl _).mpr ⟨keepsOrder_of_sleepers ?_ nofun, trivial⟩
  rintro a ha u rid call hwaits
  cases ha
  exact (hreleased u rid call hwaits).ge

/-- The writer 2 waits for the reader 1 on one rid, and the reader 3 is let in before it.
Then 3 waits for 2 on another rid. -/
def overtakenWriter : List Event :=
  [.lockExclusive 2 ⟨0, 1⟩, .lockShared 1 ⟨0, 0⟩, .lockExclusive 2 ⟨0, 0⟩,
    .lockShared 3 ⟨0, 0⟩, .lockShared 3 ⟨0, 1⟩]

theorem documented_overtakenWriter :
    machine.Guarded Documented (initial fun _ => .repeatableRead) overtakenWriter := by
  refine (Machine.guarded_cons_of_step rfl _).mpr ⟨by decide, ?_⟩
  refine (Machine.guarded_cons_of_step rfl _).mpr ⟨by decide, ?_⟩
  refine (Machine.guarded_cons_of_step rfl _).mpr ⟨by decide, ?_⟩
  refine (Machine.guarded_cons_of_step rfl _).mpr ⟨by decide, ?_⟩
  exact (Machine.guarded_cons_of_step rfl _).mpr ⟨by decide, trivial⟩

/-- Both block each other, and neither is aborted. -/
theorem overtakenWriter_not_acyclic : ∃ final,
    machine.Reaches (initial fun _ => .repeatableRead) overtakenWriter final ∧
      machine.Guarded Documented (initial fun _ => .repeatableRead) overtakenWriter ∧
      final.WaitsFor 2 3 ∧ final.WaitsFor 3 2 ∧ ¬ final.WaitsForOlder ∧ ¬ final.Acyclic := by
  have hcycle : ∀ s : LockSystem, s.WaitsFor 2 3 → s.WaitsFor 3 2 →
      s.WaitsFor 2 3 ∧ s.WaitsFor 3 2 ∧ ¬ s.WaitsForOlder ∧ ¬ s.Acyclic := by
    intro s hfirst hsecond
    refine ⟨hfirst, hsecond, ?_, ?_⟩
    · exact fun holder => absurd (holder 2 3 hfirst) (by decide)
    · exact fun hacyclic => hacyclic 2 (.tail (.single hfirst) hsecond)
  refine ⟨_, ⟨_, rfl⟩, documented_overtakenWriter, hcycle _ ?_ ?_⟩
  · exact ⟨⟨0, 0⟩, .lockExclusive, .shared, ⟨_, rfl⟩, by decide, by decide, by decide,
      fun h => LockMode.noConfusion h.1⟩
  · exact ⟨⟨0, 1⟩, .lockShared, .exclusive, ⟨_, rfl⟩, by decide, by decide, by decide,
      fun h => LockMode.noConfusion h.2⟩

end BusTub.LockSystem
