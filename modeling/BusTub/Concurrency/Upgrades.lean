import BusTub.Concurrency.MutualExclusion

/-! # Upgrades

`LockUpgrade` gives up the share and, if it cannot have the exclusive lock at once, waits
for it like any other request. The flag `upgrading_` keeps a second upgrade out; an
ordinary `LockExclusive` does not look at it and can have the lock, and give it back,
before the upgrade goes on.
-/

namespace BusTub.LockSystem

/-- The events are a call of `LockUpgrade` that returns true, from the call to its return;
between the two its thread sleeps. -/
def Upgrades (s : LockSystem) (t : TxnId) (rid : RID) (events : List Event)
    (final : LockSystem) : Prop :=
  events = [.lockUpgrade t rid] ∧ s.step (.lockUpgrade t rid) = .ok (.returned true, final) ∨
  ∃ between blocked last, events = .lockUpgrade t rid :: between ++ [.wake t] ∧
    s.step (.lockUpgrade t rid) = .ok (.blocked, blocked) ∧
    machine.Reaches blocked between last ∧
    (∀ before after middle, between = before ++ after → machine.Reaches blocked before middle →
      middle.Upgrading t rid) ∧
    last.step (.wake t) = .ok (.returned true, final)

/-- Nobody else has the exclusive lock on the rid. -/
def NoOtherWriter (s : LockSystem) (t : TxnId) (rid : RID) : Prop :=
  ∀ u, u ≠ t → ⟨u, .exclusive, true⟩ ∉ (s.queue rid).requestQueue

/-- In every run through the events, an upgrade of a shared lock on the rid that returns
true met no other writer there, in any state from the call to the return. -/
def ContinuousUpgrades (s : LockSystem) (rid : RID) (events : List Event) : Prop :=
  ∀ before call after start final t, events = before ++ call ++ after →
    machine.Reaches s before start → start.Holds t rid .shared →
    start.Upgrades t rid call final →
    ∀ first rest middle, call = first ++ rest → machine.Reaches start first middle →
      middle.NoOtherWriter t rid

variable {s final : LockSystem} {t : TxnId} {rid : RID} {events : List Event} {mode : LockMode}

theorem ApartAt.noOtherWriter (h : s.ApartAt rid) (hholds : s.Holds t rid mode) :
    s.NoOtherWriter t rid := by
  intro u hne hmem
  exact h.exclusive hne (Or.inl hmem) hholds

/-- A call that returns true has granted its request. -/
theorem holds_of_returned {e : Event} {a : Attempt} (hrequests : s.RequestsConsistent)
    (hdocumented : s.Documented e) (ha : s.attempt e = some a)
    (hstep : s.step e = .ok (.returned true, final)) : final.Holds a.txnId a.rid a.call.mode := by
  rcases step_cases hstep with ⟨b, hb, hsettles⟩ | ⟨u, other, he, -⟩ | ⟨hnone, -⟩
  · obtain rfl : a = b := Option.some.inj (ha.symm.trans hb)
    have houtcome := hsettles.outcome
    unfold Attempt.settledOutcome at houtcome
    have hgranted : a.granted = true := by
      cases haborted : a.aborted with
      | true =>
          rw [haborted] at houtcome
          cases houtcome
      | false =>
          cases hpasses : a.passes with
          | true => simp [Attempt.granted, haborted, hpasses]
          | false =>
              rw [haborted, hpasses] at houtcome
              cases houtcome
    exact Or.inl (granted_after hrequests hdocumented hstep ha hgranted hsettles)
  · rcases he with rfl | rfl <;> cases ha
  · rw [hnone] at ha
    cases ha

/-- An upgrade that returns true, at once or on return from its wait, holds the lock. -/
theorem holds_of_upgraded {e : Event} (hrequests : s.RequestsConsistent)
    (hdocumented : s.Documented e)
    (he : e = .lockUpgrade t rid ∨ e = .wake t ∧ s.Upgrading t rid)
    (hstep : s.step e = .ok (.returned true, final)) : final.Holds t rid .exclusive := by
  have hcall : e.IsLockCallOf t := by
    rcases he with rfl | ⟨rfl, -⟩
    · rfl
    · rfl
  obtain ⟨a, ha⟩ := Option.ne_none_iff_exists'.mp (state_of_returned hcall hstep).1
  have hholds := holds_of_returned hrequests hdocumented ha hstep
  rcases he with rfl | ⟨rfl, notified, hthread⟩
  · rcases attempt_cases ha with ⟨_, _, hcontra, -⟩ | ⟨_, _, hcontra, -⟩ |
      ⟨_, _, hsame, -, -, rfl⟩ | ⟨_, _, _, _, hcontra, -⟩
    · cases hcontra
    · cases hcontra
    · cases hsame
      exact hholds
    · cases hcontra
  · rcases attempt_cases ha with ⟨_, _, hcontra, -⟩ | ⟨_, _, hcontra, -⟩ | ⟨_, _, hcontra, -⟩ |
      ⟨_, _, _, _, hsame, hwaiting, rfl⟩
    · cases hcontra
    · cases hcontra
    · cases hcontra
    · cases hsame
      rw [hthread] at hwaiting
      cases hwaiting
      exact hholds

theorem Upgrades.reaches {call : List Event} (h : s.Upgrades t rid call final) :
    machine.Reaches s call final := by
  rcases h with ⟨rfl, hreturned⟩ | ⟨between, blocked, last, rfl, hblocked, hbetween, -, hreturned⟩
  · exact Machine.reaches_cons.mpr ⟨_, final, hreturned, Machine.reaches_nil.mpr rfl⟩
  · refine Machine.reaches_cons.mpr ⟨_, blocked, hblocked, ?_⟩
    refine Machine.reaches_append.mpr ⟨last, hbetween, ?_⟩
    exact Machine.reaches_cons.mpr ⟨_, final, hreturned, Machine.reaches_nil.mpr rfl⟩

/-- A transaction holds the rid in one mode or the other throughout its upgrade. -/
theorem Upgrades.holds {call first rest : List Event} {middle : LockSystem}
    (h : s.Upgrades t rid call final) (hheld : s.Holds t rid .shared) (happart : s.ApartAt rid)
    (hrequests : s.RequestsConsistent) (hguard : machine.Guarded (KeepsApartAt rid) s call)
    (hsplit : call = first ++ rest) (hfirst : machine.Reaches s first middle) :
    ∃ mode, middle.Holds t rid mode := by
  cases first with
  | nil =>
      rw [Machine.reaches_nil] at hfirst
      exact ⟨.shared, hfirst ▸ hheld⟩
  | cons e tail =>
      obtain ⟨outcome, next, hstep, htail⟩ := Machine.reaches_cons.mp hfirst
      rcases h with ⟨hone, hreturned⟩ | ⟨between, blocked, last, hmany, hblocked, hbetween,
        hasleep, hreturned⟩
      · rw [hone, List.cons_append, List.cons.injEq] at hsplit
        obtain ⟨rfl, hnil⟩ := hsplit
        rw [eq_comm, List.append_eq_nil_iff] at hnil
        rw [hnil.1, Machine.reaches_nil] at htail
        subst hone
        cases hreturned.symm.trans hstep
        rw [htail]
        exact ⟨.exclusive, holds_of_upgraded hrequests hguard.1.1 (Or.inl rfl) hreturned⟩
      · rw [hmany, List.cons_append, List.cons_append, List.cons.injEq] at hsplit
        obtain ⟨rfl, hsplit⟩ := hsplit
        cases hblocked.symm.trans hstep
        subst hmany
        rcases List.append_eq_append_iff.mp hsplit with ⟨more, hmore, hlast⟩ | ⟨more, hmore, -⟩
        · cases more with
          | nil =>
              rw [List.append_nil] at hmore
              have hupgrading := hasleep tail [] middle (by rw [hmore, List.append_nil]) htail
              exact ⟨.shared, Or.inr ⟨rfl, hupgrading⟩⟩
          | cons woken none =>
              -- the prefix is the whole call, up to its return from the wait
              rw [List.cons_append, List.cons.injEq] at hlast
              obtain ⟨hwoken, hnone⟩ := hlast
              obtain ⟨rfl, -⟩ := List.append_eq_nil_iff.mp hnone.symm
              obtain ⟨wakes, hwakes, hlastStep⟩ := Machine.reaches_append.mp (hmore ▸ htail)
              obtain rfl := hbetween.unique hwakes
              obtain ⟨_, _, hwake, hnil⟩ := Machine.reaches_cons.mp hlastStep
              rw [Machine.reaches_nil] at hnil
              subst hnil hwoken
              cases hreturned.symm.trans hwake
              have hprefix : machine.Reaches s (.lockUpgrade t rid :: between) last :=
                Machine.reaches_cons.mpr ⟨_, next, hblocked, hbetween⟩
              obtain ⟨hguardPrefix, -⟩ := Machine.guarded_append hguard hprefix
              obtain ⟨-, hrequestsLast⟩ := happart.run hrequests hprefix hguardPrefix
              have hupgrading := hasleep between [] last (List.append_nil _).symm hbetween
              have hdocumented : last.Documented (.wake t) := trivial
              exact ⟨.exclusive, holds_of_upgraded hrequestsLast hdocumented
                (Or.inr ⟨rfl, hupgrading⟩) hreturned⟩
        · have hupgrading := hasleep tail more middle hmore htail
          exact ⟨.shared, Or.inr ⟨rfl, hupgrading⟩⟩

/-- Upgrades on a rid are continuous in every run that keeps its holders apart. -/
theorem continuousUpgrades_of_keepsApartAt {levels : TxnId → IsolationLevel}
    (hguard : machine.Guarded (KeepsApartAt rid) (initial levels) events) :
    (initial levels).ContinuousUpgrades rid events := by
  intro before call after start final t hevents hbefore hheld hcall first rest middle hsplit hfirst
  subst hevents
  rw [List.append_assoc] at hguard
  obtain ⟨hguardBefore, hguardRest⟩ := Machine.guarded_append hguard hbefore
  obtain ⟨happart, hrequests⟩ := (apartAt_initial levels rid).run
    (requestsConsistent_initial levels) hbefore hguardBefore
  obtain ⟨hguardCall, -⟩ := Machine.guarded_append hguardRest hcall.reaches
  obtain ⟨mode, hholds⟩ := hcall.holds hheld happart hrequests hguardCall hsplit hfirst
  rw [hsplit] at hguardCall
  obtain ⟨hguardFirst, -⟩ := Machine.guarded_append hguardCall hfirst
  exact ((happart.run hrequests hfirst hguardFirst).1).noOtherWriter hholds

/-- The upgrade of `upgradeRun` is continuous. -/
theorem continuousUpgrades_upgradeRun :
    (initial fun _ => .repeatableRead).ContinuousUpgrades ⟨0, 0⟩ upgradeRun :=
  continuousUpgrades_of_keepsApartAt
    (keepsApart_upgradeRun.mono fun _ _ hkeeps => hkeeps.at ⟨0, 0⟩)

/-- Reader 2 asks for an upgrade and waits for reader 1. When that has left, the writer 3
comes, writes and leaves, before 2 wakes up. -/
def overtakenUpgrade : List Event :=
  [.lockShared 1 ⟨0, 0⟩, .lockShared 2 ⟨0, 0⟩, .lockUpgrade 2 ⟨0, 0⟩, .unlock 1 ⟨0, 0⟩,
    .lockExclusive 3 ⟨0, 0⟩, .unlock 3 ⟨0, 0⟩, .wake 2]

theorem overtakenUpgrade_not_continuous :
    machine.Guarded Documented (initial fun _ => .repeatableRead) overtakenUpgrade ∧
      ¬ (initial fun _ => .repeatableRead).ContinuousUpgrades ⟨0, 0⟩ overtakenUpgrade := by
  constructor
  · refine (Machine.guarded_cons_of_step rfl _).mpr ⟨by decide, ?_⟩
    refine (Machine.guarded_cons_of_step rfl _).mpr ⟨by decide, ?_⟩
    refine (Machine.guarded_cons_of_step rfl _).mpr ⟨by decide, ?_⟩
    refine (Machine.guarded_cons_of_step rfl _).mpr ⟨trivial, ?_⟩
    refine (Machine.guarded_cons_of_step rfl _).mpr ⟨by decide, ?_⟩
    refine (Machine.guarded_cons_of_step rfl _).mpr ⟨trivial, ?_⟩
    exact (Machine.guarded_cons_of_step rfl _).mpr ⟨trivial, trivial⟩
  · intro hcontinuous
    have hother := hcontinuous [.lockShared 1 ⟨0, 0⟩, .lockShared 2 ⟨0, 0⟩]
      [.lockUpgrade 2 ⟨0, 0⟩, .unlock 1 ⟨0, 0⟩, .lockExclusive 3 ⟨0, 0⟩, .unlock 3 ⟨0, 0⟩, .wake 2]
      [] _ _ 2 rfl ⟨_, rfl⟩ (Or.inl (by decide)) (Or.inr ⟨[.unlock 1 ⟨0, 0⟩,
        .lockExclusive 3 ⟨0, 0⟩, .unlock 3 ⟨0, 0⟩], _, _, rfl, rfl, ⟨_, rfl⟩, ?_, rfl⟩)
      [.lockUpgrade 2 ⟨0, 0⟩, .unlock 1 ⟨0, 0⟩, .lockExclusive 3 ⟨0, 0⟩] [.unlock 3 ⟨0, 0⟩, .wake 2]
      _ rfl ⟨_, rfl⟩
    · exact hother 3 (by decide) (by decide)
    · intro before after middle hsplit hreach
      have hprefix : before ∈ List.inits [Event.unlock 1 ⟨0, 0⟩, .lockExclusive 3 ⟨0, 0⟩,
          .unlock 3 ⟨0, 0⟩] := (List.mem_inits _ _).mpr ⟨after, hsplit.symm⟩
      simp only [List.inits, List.map_cons, List.map_nil, List.mem_cons, List.not_mem_nil,
        or_false] at hprefix
      rcases hprefix with rfl | rfl | rfl | rfl
      · exact hreach.unique ⟨_, rfl⟩ ▸ ⟨_, rfl⟩
      · exact hreach.unique ⟨_, rfl⟩ ▸ ⟨_, rfl⟩
      · exact hreach.unique ⟨_, rfl⟩ ▸ ⟨_, rfl⟩
      · exact hreach.unique ⟨_, rfl⟩ ▸ ⟨_, rfl⟩

end BusTub.LockSystem
