import BusTub.Concurrency.MutualExclusion

/-! # The flag of a pending upgrade

`LockUpgrade` raises `upgrading_` before it waits and takes it down with the grant. When the wait
ends because the transaction was aborted, `CheckAborted` throws before the flag is taken down, and
nothing takes it down later: every upgrade on the rid is then refused.
-/

namespace BusTub.LockSystem

/-- The transaction has not been aborted. -/
def Live (s : LockSystem) (t : TxnId) : Prop := (s.txns t).state ≠ .aborted

/-- The flag of each rid is up exactly while a live transaction sleeps in `LockUpgrade` there, and
an upgrade is refused for a conflict only if another one is pending. -/
structure FlagAccurate (s : LockSystem) : Prop where
  flag : ∀ rid, (s.queue rid).upgrading = true ↔ ∃ t, s.Upgrading t rid ∧ s.Live t
  conflict : ∀ t rid final, s.step (.lockUpgrade t rid) = .ok (.threw .upgradeConflict, final) →
    ∃ u, u ≠ t ∧ s.Upgrading u rid ∧ s.Live u

/-- No transaction that was aborted starts an upgrade that has to wait, and none that sleeps in
one is wounded. -/
def KeepsFlag (s : LockSystem) (e : Event) : Prop :=
  (∀ t rid, e = .lockUpgrade t rid → (s.queue rid).upgrading = false →
    exclusiveBusy ((s.dropShared t rid).queue rid) = true → s.Live t) ∧
  ∀ t rid, s.Upgrading t rid → ¬ s.Wounds t e

/-- What keeps the flag of a rid accurate. -/
structure FlagHeld (s : LockSystem) (rid : RID) : Prop where
  flag : (s.queue rid).upgrading = true ↔ ∃ t, s.Upgrading t rid
  live : ∀ t, s.Upgrading t rid → s.Live t
  unique : ∀ t u, s.Upgrading t rid → s.Upgrading u rid → t = u

variable {s final : LockSystem} {t u : TxnId} {rid other : RID} {e : Event} {a : Attempt}
  {outcome : LockOutcome}

theorem flagHeld_initial (levels : TxnId → IsolationLevel) (rid : RID) :
    (LockSystem.initial levels).FlagHeld rid := by
  have hnone : ∀ t, ¬ (LockSystem.initial levels).Upgrading t rid := by
    rintro t ⟨notified, hthread⟩
    cases hthread
  refine ⟨iff_of_false Bool.noConfusion ?_, fun t ht => absurd ht (hnone t),
    fun t u ht => absurd ht (hnone t)⟩
  rintro ⟨t, ht⟩
  exact hnone t ht

theorem FlagHeld.congr (h : s.FlagHeld rid)
    (hflag : (final.queue rid).upgrading = (s.queue rid).upgrading)
    (hsleepers : ∀ u, final.Upgrading u rid ↔ s.Upgrading u rid)
    (hlive : ∀ u, s.Upgrading u rid → final.Live u) : final.FlagHeld rid where
  flag := by
    rw [hflag, h.flag]
    exact exists_congr fun u => (hsleepers u).symm
  live u hu := hlive u ((hsleepers u).mp hu)
  unique u v hu hv := h.unique u v ((hsleepers u).mp hu) ((hsleepers v).mp hv)

/-- Without sleepers the flag is down. -/
theorem FlagHeld.of_none (hflag : (s.queue rid).upgrading = false)
    (hnone : ∀ u, ¬ s.Upgrading u rid) : s.FlagHeld rid where
  flag := iff_of_false (by simp [hflag]) fun hsome => hsome.elim hnone
  live u hu := absurd hu (hnone u)
  unique u v hu := absurd hu (hnone u)

/-- With one sleeper it is up. -/
theorem FlagHeld.of_one (hflag : (s.queue rid).upgrading = true) (ht : s.Upgrading t rid)
    (hlive : s.Live t) (honly : ∀ u, s.Upgrading u rid → u = t) : s.FlagHeld rid where
  flag := iff_of_true hflag ⟨t, ht⟩
  live u hu := honly u hu ▸ hlive
  unique u v hu hv := (honly u hu).trans (honly v hv).symm

theorem FlagHeld.none_of_flag (h : s.FlagHeld rid) (hflag : (s.queue rid).upgrading = false) :
    ∀ u, ¬ s.Upgrading u rid := by
  intro u hu
  rw [h.flag.mpr ⟨u, hu⟩] at hflag
  cases hflag

theorem not_upgrading_of_awake (hawake : s.Awake t) : ¬ s.Upgrading t rid := by
  rintro ⟨notified, hthread⟩
  exact hawake _ _ _ hthread

/-! ## Attempts -/

theorem Settles.upgrading_of_ne {wounded : TxnId → Prop} (h : s.Settles wounded a outcome final)
    (hne : u ≠ a.txnId) : final.Upgrading u rid ↔ s.Upgrading u rid := by
  unfold Upgrading
  rw [h.threads, Function.update_of_ne hne]

/-- The caller sleeps in `LockUpgrade` if its upgrade could not pass. -/
theorem Settles.upgrading_self {wounded : TxnId → Prop} (h : s.Settles wounded a outcome final) :
    final.Upgrading a.txnId rid ↔
      a.aborted = false ∧ a.passes = false ∧ a.call = .lockUpgrade ∧ a.rid = rid := by
  unfold Upgrading
  rw [h.threads, Function.update_self]
  unfold Attempt.settledThread
  cases a.aborted with
  | true => simp
  | false =>
      cases a.passes with
      | true => simp
      | false => simp

theorem upgrading_settledQueue (a : Attempt) : a.settledQueue.upgrading =
    (a.queue.upgrading && !(a.granted && decide (a.call = .lockUpgrade))) := by
  unfold Attempt.settledQueue Attempt.granted
  cases a.aborted with
  | true => simp
  | false =>
      cases a.passes with
      | true => cases a.call <;> simp [grantedQueue]
      | false => simp

/-- Another call than `LockUpgrade` does not touch the flag; a new upgrade finds the flag down
and raises it if it waits; and one that wakes up finds the queue as it is. -/
theorem attempt_upgrading (hstep : s.step e = .ok (outcome, final)) (ha : s.attempt e = some a) :
    (a.call ≠ .lockUpgrade ∧ a.queue.upgrading = (s.queue a.rid).upgrading ∧
      ∀ rid, ¬ s.Upgrading a.txnId rid) ∨
    (e = .lockUpgrade a.txnId a.rid ∧ a.call = .lockUpgrade ∧
      (s.queue a.rid).upgrading = false ∧ a.queue.upgrading = a.waits ∧
      a.waits = exclusiveBusy ((s.dropShared a.txnId a.rid).queue a.rid) ∧
      ∀ rid, ¬ s.Upgrading a.txnId rid) ∨
    (a.call = .lockUpgrade ∧ s.Upgrading a.txnId a.rid ∧
      a.queue.upgrading = (s.queue a.rid).upgrading ∧
      (∀ rid, s.Upgrading a.txnId rid → rid = a.rid) ∧ ∀ u, ¬ s.Wounds u e) := by
  rcases attempt_cases ha with ⟨t, rid, rfl, -, -, rfl⟩ | ⟨t, rid, rfl, -, rfl⟩ |
    ⟨t, rid, rfl, -, hdown, rfl⟩ | ⟨t, call, rid, notified, rfl, hthread, rfl⟩
  · have hidle := (step_lockShared _ _ _ hstep).1
    refine Or.inl ⟨nofun, ?_, fun _ => not_upgrading_of_awake (awake_of_idle hidle)⟩
    unfold newAttempt
    dsimp only
    split <;> rfl
  · have hidle := (step_lockExclusive _ _ _ hstep).1
    refine Or.inl ⟨nofun, ?_, fun _ => not_upgrading_of_awake (awake_of_idle hidle)⟩
    unfold newAttempt
    dsimp only
    split <;> rfl
  · have hidle := (step_lockUpgrade _ _ _ hstep).1
    refine Or.inr (Or.inl ⟨rfl, rfl, hdown, ?_, rfl,
      fun _ => not_upgrading_of_awake (awake_of_idle hidle)⟩)
    unfold upgradeAttempt
    dsimp only
    cases hbusy : exclusiveBusy ((s.dropShared t rid).queue rid) with
    | true => rfl
    | false =>
        rw [queue_dropShared_self]
        exact hdown
  · by_cases hcall : call = .lockUpgrade
    · subst hcall
      refine Or.inr (Or.inr ⟨rfl, ⟨notified, hthread⟩, rfl, ?_, fun _ => id⟩)
      rintro other ⟨again, hother⟩
      cases hthread.symm.trans hother
      rfl
    · refine Or.inl ⟨hcall, rfl, ?_⟩
      rintro other ⟨again, hother⟩
      cases hthread.symm.trans hother
      exact hcall rfl

/-- Those that sleep in an upgrade and are not wounded stay alive. -/
theorem Settles.live (h : s.Settles (s.Wounds · e) a outcome final) (ha : s.attempt e = some a)
    (hlive : s.Live u) (hwounds : ¬ s.Wounds u e) : final.Live u := by
  unfold Live at *
  by_cases hself : u = a.txnId
  · subst hself
    rw [h.txn, a.settledTxn_state, attempt_state ha]
    exact hlive
  · rw [h.txns_of_ne u hself hwounds]
    exact hlive

theorem FlagHeld.settles (h : ∀ rid, s.FlagHeld rid) (hguard : s.KeepsFlag e)
    (hstep : s.step e = .ok (outcome, final)) (ha : s.attempt e = some a)
    (hsettles : s.Settles (s.Wounds · e) a outcome final) (rid : RID) : final.FlagHeld rid := by
  have hlive : ∀ u, s.Upgrading u rid → final.Live u := fun u hu =>
    hsettles.live ha ((h rid).live u hu) (hguard.2 u rid hu)
  have haborted : s.Live a.txnId → a.aborted = false := by
    intro hself
    unfold Attempt.aborted
    rw [attempt_state ha]
    exact decide_eq_false hself
  by_cases hrid : rid = a.rid
  · subst hrid
    have hflag := congrArg LockRequestQueue.upgrading hsettles.queue
    rw [upgrading_settledQueue] at hflag
    -- no upgrade, one that starts now, or one that wakes up
    rcases attempt_upgrading hstep ha with ⟨hcall, hqueue, hawake⟩ |
      ⟨he, hcall, hdown, hqueue, hbusy, hawake⟩ | ⟨hcall, hself, hqueue, -, -⟩
    · refine (h a.rid).congr ?_ (fun u => ?_) hlive
      · simpa [hcall, hqueue] using hflag
      · by_cases hu : u = a.txnId
        · subst hu
          exact iff_of_false (fun hsleeps => hcall (hsettles.upgrading_self.mp hsleeps).2.2.1)
            (hawake a.rid)
        · exact hsettles.upgrading_of_ne hu
    · -- the flag was down, so that no other upgrade sleeps here
      have hnone : ∀ u, u ≠ a.txnId → ¬ final.Upgrading u a.rid := by
        intro u hu hsleeps
        exact (h a.rid).none_of_flag hdown u ((hsettles.upgrading_of_ne hu).mp hsleeps)
      cases hpasses : a.passes with
      | true =>
          refine .of_none ?_ fun u hsleeps => ?_
          · cases hwaits : a.waits with
            | false => simp [hflag, hqueue, hwaits]
            | true =>
                have hgranted : a.granted = true := by
                  have hown := haborted (hguard.1 _ _ he hdown (hbusy.symm.trans hwaits))
                  simp [Attempt.granted, hown, hpasses]
                simp [hflag, hcall, hgranted]
          · by_cases hu : u = a.txnId
            · subst hu
              exact Bool.noConfusion (hpasses.symm.trans (hsettles.upgrading_self.mp hsleeps).2.1)
            · exact hnone u hu hsleeps
      | false =>
          -- the upgrade goes to sleep and keeps the flag that it has put up
          have hwaits : a.waits = true := by
            simp only [Attempt.passes, Bool.or_eq_false_iff, Bool.not_eq_false'] at hpasses
            exact hpasses.1
          have hcaller := hguard.1 _ _ he hdown (hbusy.symm.trans hwaits)
          refine .of_one ?_ (hsettles.upgrading_self.mpr ⟨haborted hcaller, hpasses, hcall, rfl⟩)
            (hsettles.live ha hcaller fun hwounds => lt_irrefl _ (lt_of_wounds ha hwounds)) ?_
          · simp [hflag, hqueue, hwaits, Attempt.granted, hpasses]
          · intro u hsleeps
            by_contra hu
            exact hnone u hu hsleeps
    · have hown := haborted ((h a.rid).live _ hself)
      cases hpasses : a.passes with
      | true =>
          refine .of_none ?_ fun u hsleeps => ?_
          · simp [hflag, hcall, Attempt.granted, hown, hpasses]
          · by_cases hu : u = a.txnId
            · subst hu
              exact Bool.noConfusion (hpasses.symm.trans (hsettles.upgrading_self.mp hsleeps).2.1)
            · exact hu ((h a.rid).unique u _ ((hsettles.upgrading_of_ne hu).mp hsleeps) hself)
      | false =>
          refine (h a.rid).congr ?_ (fun u => ?_) hlive
          · simp [hflag, hqueue, Attempt.granted, hpasses]
          · by_cases hu : u = a.txnId
            · subst hu
              exact iff_of_true (hsettles.upgrading_self.mpr ⟨hown, hpasses, hcall, rfl⟩) hself
            · exact hsettles.upgrading_of_ne hu
  · -- the queues of the other records stay as they are
    refine (h rid).congr ?_ (fun u => ?_) hlive
    · rw [hsettles.queue_of_ne rid hrid]
    · by_cases hu : u = a.txnId
      · subst hu
        refine iff_of_false (fun hsleeps => hrid (hsettles.upgrading_self.mp hsleeps).2.2.2.symm) ?_
        rcases attempt_upgrading hstep ha with ⟨-, -, hawake⟩ | ⟨-, -, -, -, -, hawake⟩ |
          ⟨-, -, -, honly, -⟩
        · exact hawake rid
        · exact hawake rid
        · exact fun hsleeps => hrid (honly rid hsleeps)
      · exact hsettles.upgrading_of_ne hu

/-! ## Steps -/

theorem FlagHeld.unlocks (h : s.FlagHeld rid) (hunlocks : s.Unlocks t other final) :
    final.FlagHeld rid := by
  obtain ⟨middle, hunlock, hfinal⟩ := hunlocks.unlock
  obtain ⟨request, -, htxns, hqueue, hothers, -⟩ := unlock_cases s t other hunlock
  have hsame : ∀ rid, final.queue rid = middle.queue rid := by
    rcases hfinal with rfl | ⟨lockSet, rfl⟩ <;> exact fun _ => rfl
  refine h.congr ?_ (fun u => hunlocks.upgrading_iff) fun u hu => ?_
  · rw [hsame]
    by_cases hrid : rid = other
    · subst hrid
      rw [hqueue]
      cases request.lockMode <;> rfl
    · rw [hothers rid hrid]
  · have hne : u ≠ t := by
      rintro rfl
      exact not_upgrading_of_awake hunlocks.awake hu
    have hkept : final.txns u = s.txns u := by
      have hmiddle : final.txns u = middle.txns u := by
        rcases hfinal with rfl | ⟨lockSet, rfl⟩ <;> rfl
      rw [hmiddle, htxns, Function.update_of_ne hne]
    unfold Live
    rw [hkept]
    exact h.live u hu

theorem FlagHeld.quiet (h : s.FlagHeld rid) (hquiet : s.Quiet outcome final) :
    final.FlagHeld rid := by
  refine h.congr (by rw [hquiet.queue]) (fun u => ?_) fun u hu => ?_
  · rcases hquiet.threads u with hsame | ⟨hbefore, hafter⟩
    · unfold Upgrading
      rw [hsame]
    · exact iff_of_false (not_upgrading_of_awake hafter) (not_upgrading_of_awake hbefore)
  · rcases hquiet.txns u with hsame | hawake
    · unfold Live
      rw [hsame]
      exact h.live u hu
    · exact absurd hu (not_upgrading_of_awake hawake)

theorem FlagHeld.step (h : ∀ rid, s.FlagHeld rid) (hguard : s.KeepsFlag e)
    (hstep : s.step e = .ok (outcome, final)) (rid : RID) : final.FlagHeld rid := by
  rcases step_cases hstep with ⟨a, ha, hsettles⟩ | ⟨t, other, -, hunlocks⟩ | ⟨-, hquiet⟩
  · exact FlagHeld.settles h hguard hstep ha hsettles rid
  · exact (h rid).unlocks hunlocks
  · exact (h rid).quiet hquiet

/-- The attempt of a step that makes one. -/
theorem settles_of_attempt (hstep : s.step e = .ok (outcome, final)) (ha : s.attempt e = some a) :
    s.Settles (s.Wounds · e) a outcome final := by
  rcases step_cases hstep with ⟨b, hb, hsettles⟩ | ⟨t, rid, he, -⟩ | ⟨hnone, -⟩
  · cases ha.symm.trans hb
    exact hsettles
  · rcases he with rfl | rfl <;> cases ha
  · cases hnone.symm.trans ha

theorem flagAccurate_of_flagHeld (h : ∀ rid, s.FlagHeld rid) : s.FlagAccurate where
  flag rid := by
    rw [(h rid).flag]
    exact exists_congr fun t => (and_iff_left_of_imp ((h rid).live t)).symm
  conflict t rid final hstep := by
    obtain ⟨hidle, hcall⟩ := step_lockUpgrade _ _ _ hstep
    rcases lockUpgrade_cases s t rid hcall with ⟨-, hresult⟩ | ⟨-, hup, -⟩ |
      ⟨hshrink, hdown, -, -⟩
    · cases hresult
    · obtain ⟨u, hu⟩ := (h rid).flag.mp hup
      refine ⟨u, ?_, hu, (h rid).live u hu⟩
      rintro rfl
      exact not_upgrading_of_awake (awake_of_idle hidle) hu
    · have ha : s.attempt (.lockUpgrade t rid) = some (s.upgradeAttempt t rid) :=
        if_neg (by simp [hshrink, hdown])
      have houtcome := (settles_of_attempt hstep ha).outcome
      unfold Attempt.settledOutcome at houtcome
      split at houtcome
      · cases houtcome
      · split at houtcome <;> cases houtcome

/-- An aborted transaction leaves the flag up behind it. -/
theorem not_flagAccurate_of_aborted (h : s.FlagHeld rid)
    (hstep : s.step (.lockUpgrade t rid) = .ok (outcome, final))
    (hdown : (s.queue rid).upgrading = false)
    (hbusy : exclusiveBusy ((s.dropShared t rid).queue rid) = true) (hlive : ¬ s.Live t) :
    ¬ final.FlagAccurate := by
  have hstate : (s.txns t).state = .aborted := not_not.mp hlive
  have ha : s.attempt (.lockUpgrade t rid) = some (s.upgradeAttempt t rid) :=
    if_neg (by simp [hstate, hdown])
  have hsettles := settles_of_attempt hstep ha
  have haborted : (s.upgradeAttempt t rid).aborted = true := by
    unfold Attempt.aborted
    rw [attempt_state ha]
    exact decide_eq_true hstate
  have hup : (final.queue rid).upgrading = true := by
    have hflag := congrArg LockRequestQueue.upgrading hsettles.queue
    rw [upgrading_settledQueue] at hflag
    have hqueue : (s.upgradeAttempt t rid).queue.upgrading = true := by
      simp only [upgradeAttempt, hbusy, if_true]
    refine hflag.trans ?_
    rw [hqueue, Attempt.granted, haborted]
    rfl
  intro haccurate
  obtain ⟨u, hsleeps, -⟩ := (haccurate.flag rid).mp hup
  by_cases hu : u = t
  · subst hu
    exact Bool.noConfusion (haborted.symm.trans (hsettles.upgrading_self.mp hsleeps).1)
  · exact h.none_of_flag hdown u ((hsettles.upgrading_of_ne hu).mp hsleeps)

/-- A wounded transaction that sleeps in an upgrade leaves it without a grant. -/
theorem not_flagAccurate_of_wounded (h : ∀ rid, s.FlagHeld rid)
    (hstep : s.step e = .ok (outcome, final)) (hsleeps : s.Upgrading t rid)
    (hwounds : s.Wounds t e) : ¬ final.FlagAccurate := by
  obtain ⟨a, ha⟩ := Option.ne_none_iff_exists'.mp (attempt_of_wounds hwounds)
  have hsettles := settles_of_attempt hstep ha
  have hne : t ≠ a.txnId := (lt_of_wounds ha hwounds).ne'
  have hup : (s.queue rid).upgrading = true := (h rid).flag.mpr ⟨t, hsleeps⟩
  -- the caller is no upgrade on this rid: it would have met the flag, or wounded nobody
  have hother : a.call ≠ .lockUpgrade ∧ a.queue.upgrading = (s.queue a.rid).upgrading ∨
      a.rid ≠ rid := by
    rcases attempt_upgrading hstep ha with ⟨hcall, hqueue, -⟩ | ⟨-, -, hdown, -⟩ |
      ⟨-, -, -, -, hnobody⟩
    · exact Or.inl ⟨hcall, hqueue⟩
    · right
      rintro rfl
      exact Bool.noConfusion (hup.symm.trans hdown)
    · exact absurd hwounds (hnobody t)
  have hstill : (final.queue rid).upgrading = true := by
    by_cases hrid : rid = a.rid
    · subst hrid
      obtain ⟨hcall, hqueue⟩ := hother.resolve_right (not_not.mpr rfl)
      rw [hsettles.queue, upgrading_settledQueue, hqueue, hup]
      simp [hcall]
    · rw [hsettles.queue_of_ne rid hrid]
      exact hup
  intro haccurate
  obtain ⟨u, hu, hlive⟩ := (haccurate.flag rid).mp hstill
  by_cases hself : u = a.txnId
  · subst hself
    obtain ⟨-, -, hcall, hrid⟩ := hsettles.upgrading_self.mp hu
    exact hother.elim (fun hboth => hboth.1 hcall) fun hdiffer => hdiffer hrid
  · obtain rfl := (h rid).unique u t ((hsettles.upgrading_of_ne hself).mp hu) hsleeps
    apply hlive
    rw [hsettles.victim u hne hwounds]

/-! ## Runs -/

/-- Over any run, the flags are accurate in all of its states exactly if no aborted transaction
starts an upgrade that has to wait and no transaction that sleeps in one is wounded. -/
theorem run_flagAccurate_iff {levels : TxnId → IsolationLevel} {events : List Event}
    (hreach : machine.Reaches (initial levels) events final) :
    (∀ before after middle, events = before ++ after →
      machine.Reaches (initial levels) before middle → middle.FlagAccurate) ↔
    machine.Guarded KeepsFlag (initial levels) events := by
  refine hreach.guarded_iff (fun s => ∀ rid, s.FlagHeld rid) FlagAccurate
    (fun s h => flagAccurate_of_flagHeld h) (fun s e outcome next h hguard hstep =>
      FlagHeld.step h hguard hstep) ?_ (flagHeld_initial levels)
  intro s e outcome next h hguard hstep
  rcases not_and_or.mp hguard with haborted | hwounded
  · push Not at haborted
    obtain ⟨t, rid, rfl, hdown, hbusy, hlive⟩ := haborted
    exact not_flagAccurate_of_aborted (h rid) hstep hdown hbusy hlive
  · push Not at hwounded
    obtain ⟨t, rid, hsleeps, hwounds⟩ := hwounded
    exact not_flagAccurate_of_wounded h hstep hsleeps hwounds

/-- Reader 2 waits to upgrade until the older reader 1 commits. -/
def patientUpgrade : List Event :=
  [.lockShared 1 ⟨0, 0⟩, .lockShared 2 ⟨0, 0⟩, .lockUpgrade 2 ⟨0, 0⟩, .commit 1,
    .release 1 ⟨0, 0⟩, .wake 2]

theorem run_flagAccurate_iff_patientUpgrade :
    (∃ middle, machine.Reaches (initial fun _ => .repeatableRead) (patientUpgrade.take 3) middle ∧
      middle.Upgrading 2 ⟨0, 0⟩) ∧
    ∀ before after middle, patientUpgrade = before ++ after →
      machine.Reaches (initial fun _ => .repeatableRead) before middle →
        middle.FlagAccurate := by
  refine ⟨⟨_, ⟨_, rfl⟩, _, rfl⟩, (run_flagAccurate_iff ⟨_, rfl⟩).mpr ?_⟩
  refine (Machine.guarded_cons_of_step rfl _).mpr ⟨⟨nofun, fun _ _ _ hwounds => ?_⟩, ?_⟩
  · exact Bool.noConfusion hwounds.2.2.1
  refine (Machine.guarded_cons_of_step rfl _).mpr ⟨⟨nofun, fun _ _ _ hwounds => ?_⟩, ?_⟩
  · exact Bool.noConfusion hwounds.2.2.1
  refine (Machine.guarded_cons_of_step rfl _).mpr ⟨⟨?_, ?_⟩, ?_⟩
  · rintro t rid ⟨⟩ - -
    unfold Live
    decide
  · -- the only other holder is older
    rintro t rid - ⟨-, -, -, hwounded⟩
    obtain ⟨request, hmem, -⟩ := hwounded
    have hnone : request ∈ ([] : List LockRequest) := hmem
    cases hnone
  refine (Machine.guarded_cons_of_step rfl _).mpr ⟨⟨nofun, fun _ _ _ => id⟩, ?_⟩
  refine (Machine.guarded_cons_of_step rfl _).mpr ⟨⟨nofun, fun _ _ _ => id⟩, ?_⟩
  exact (Machine.guarded_cons_of_step rfl _).mpr ⟨⟨nofun, fun _ _ _ => id⟩, trivial⟩

/-- Reader 2 of one rid waits to upgrade there; the older transaction 1 wants another rid, which 2
has locked, and wounds it; 2 wakes up and throws. Then reader 3 wants to upgrade. -/
def woundedUpgrade : List Event :=
  [.lockExclusive 2 ⟨1, 0⟩, .lockShared 1 ⟨0, 0⟩, .lockShared 2 ⟨0, 0⟩, .lockUpgrade 2 ⟨0, 0⟩,
    .lockExclusive 1 ⟨1, 0⟩, .wake 2, .lockShared 3 ⟨0, 0⟩]

/-- The flag has stayed up although nobody sleeps, and the upgrade is refused. -/
theorem woundedUpgrade_not_flagAccurate : ∃ final refused,
    machine.Reaches (initial fun _ => .repeatableRead) woundedUpgrade final ∧
      (final.queue ⟨0, 0⟩).upgrading = true ∧ (∀ t rid, ¬ final.Upgrading t rid) ∧
      final.step (.lockUpgrade 3 ⟨0, 0⟩) = .ok (.threw .upgradeConflict, refused) ∧
      ¬ final.FlagAccurate := by
  obtain ⟨final, refused, hreach, hflag, hidle, hrefused⟩ : ∃ final refused,
      machine.Reaches (initial fun _ => .repeatableRead) woundedUpgrade final ∧
        (final.queue ⟨0, 0⟩).upgrading = true ∧
        (final.threads 1 = .idle ∧ final.threads 2 = .idle ∧ final.threads 3 = .idle) ∧
        final.step (.lockUpgrade 3 ⟨0, 0⟩) = .ok (.threw .upgradeConflict, refused) :=
    ⟨_, _, ⟨_, rfl⟩, rfl, ⟨rfl, rfl, rfl⟩, rfl⟩
  have hawake : ∀ t, final.Awake t := by
    intro t
    by_cases hnamed : t = 1 ∨ t = 2 ∨ t = 3
    · rcases hnamed with rfl | rfl | rfl
      · exact awake_of_idle hidle.1
      · exact awake_of_idle hidle.2.1
      · exact awake_of_idle hidle.2.2
    · have hothers : ∀ e ∈ woundedUpgrade, ¬ e.IsLockCallOf t := by
        simp only [not_or, ← ne_eq] at hnamed
        simp [woundedUpgrade, Event.IsLockCallOf, hnamed.1.symm, hnamed.2.1.symm, hnamed.2.2.symm]
      exact hreach.invariant (fun s => s.Awake t) (fun _ _ _ _ h hcall hstep =>
        step_awake hstep hcall h) (Machine.guarded_of_forall_mem _ hothers) (awake_of_idle rfl)
  have hnone : ∀ t rid, ¬ final.Upgrading t rid := fun t rid => not_upgrading_of_awake (hawake t)
  refine ⟨final, refused, hreach, hflag, hnone, hrefused, fun haccurate => ?_⟩
  obtain ⟨u, hu, -⟩ := (haccurate.flag ⟨0, 0⟩).mp hflag
  exact hnone u _ hu

end BusTub.LockSystem
