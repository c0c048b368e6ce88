import BusTub.Concurrency.ReaderWriterLatch

/-! # Progress under the latch

Where a step of the reader-writer latch takes the threads. `writer_entered_` is set only while
some writer has entered, so that a thread that sleeps is behind one that does not: whenever
somebody uses the latch, somebody who uses it is awake.
-/

namespace BusTub

/-- The thread whose call it is. -/
def LatchEvent.thread {T : Type} : LatchEvent T → T
  | .rLock thread | .wLock thread | .wake thread | .rUnlock thread _ | .wUnlock thread => thread

/-- A thread is where it was, perhaps with a notification. -/
def LatchPoint.Stays (before after : LatchPoint) : Prop :=
  after = before ∨ ∃ loop, before = .waiting loop false ∧ after = .waiting loop true

/-- The loop ends at this point, or the thread sleeps there. -/
def LatchLoop.EndsAt : LatchLoop → LatchPoint → Prop
  | .rLock, point => point = .reading ∨ point = .waiting .rLock false
  | .wLock, point | .wLockEntered, point =>
      point = .writing ∨ ∃ loop, loop ≠ .rLock ∧ point = .waiting loop false

/-- Where a step takes the thread whose call it is. -/
def LatchEvent.Moves {T : Type} (before after : LatchPoint) : LatchEvent T → Prop
  | .rLock _ => before = .outside ∧ LatchLoop.rLock.EndsAt after
  | .wLock _ => before = .outside ∧ LatchLoop.wLock.EndsAt after
  | .wake _ => ∃ loop, before = .waiting loop true ∧ loop.EndsAt after
  | .rUnlock _ _ => before = .reading ∧ after = .outside
  | .wUnlock _ => before = .writing ∧ after = .outside

namespace LatchPoint

variable {before after : LatchPoint}

theorem Stays.inWriter (h : before.Stays after) : after.inWriter = before.inWriter := by
  rcases h with rfl | ⟨loop, rfl, rfl⟩
  · rfl
  · cases loop <;> rfl

theorem Stays.eq_of_awake (h : before.Stays after) (hawake : ∀ loop, before ≠ .waiting loop false) :
    after = before := by
  rcases h with heq | ⟨loop, hbefore, -⟩
  · exact heq
  · exact absurd hbefore (hawake loop)

end LatchPoint

namespace LatchSystem

variable {T : Type} [DecidableEq T] {s final : LatchSystem T} {t u : T} {loop : LatchLoop}

/-- If a writer has entered, one of the threads is it. -/
def Attended (s : LatchSystem T) : Prop := s.writerEntered → ∃ t, (s.points t).inWriter

/-! ## Where the threads go -/

theorem points_test_self (s : LatchSystem T) (t : T) (loop : LatchLoop) :
    loop.EndsAt ((s.test t loop).points t) := by
  have hentered : ∀ s : LatchSystem T, (s.testEntered t).points t = .writing ∨
      ∃ loop, loop ≠ .rLock ∧ (s.testEntered t).points t = .waiting loop false := by
    intro s
    unfold testEntered
    rw [points_setPoint, if_pos rfl]
    split
    · exact Or.inr ⟨.wLockEntered, nofun, rfl⟩
    · exact Or.inl rfl
  cases loop with
  | rLock =>
      unfold test
      dsimp only
      split
      · exact Or.inr (by rw [points_setPoint, if_pos rfl])
      · exact Or.inl (Function.update_self ..)
  | wLock =>
      unfold test
      dsimp only
      split
      · exact Or.inr ⟨.wLock, nofun, by rw [points_setPoint, if_pos rfl]⟩
      · exact hentered _
  | wLockEntered => exact hentered s

theorem points_test_of_ne (s : LatchSystem T) (loop : LatchLoop) (hne : u ≠ t) :
    (s.test t loop).points u = s.points u := by
  cases loop with
  | rLock =>
      unfold test
      dsimp only
      split <;> exact Function.update_of_ne hne _ _
  | wLock =>
      unfold test
      dsimp only
      split <;> exact Function.update_of_ne hne _ _
  | wLockEntered => exact Function.update_of_ne hne _ _

theorem points_wUnlock_of_ne (s : LatchSystem T) (hne : u ≠ t) :
    (s.points u).Stays ((s.wUnlock t).points u) := by
  have hpoint : (s.wUnlock t).points u = (s.points u).notify .reader :=
    congrArg (LatchPoint.notify .reader) (Function.update_of_ne hne _ _)
  rw [hpoint]
  exact LatchPoint.notify_cases .reader _

theorem points_wUnlock_self (s : LatchSystem T) : (s.wUnlock t).points t = .outside := by
  have hpoint : (s.wUnlock t).points t = LatchPoint.outside.notify .reader :=
    congrArg (LatchPoint.notify .reader) (Function.update_self ..)
  exact hpoint

section Runs

variable [Fintype T]

theorem notifies_rUnlock {chosen : T} (hunlock : s.rUnlock t chosen = .ok final) :
    final = s.giveBack t ∨ ∃ condition, (s.giveBack t).notifyOne condition chosen = .ok final := by
  unfold rUnlock at hunlock
  dsimp only at hunlock
  split at hunlock
  · split at hunlock
    · exact Or.inr ⟨_, hunlock⟩
    · cases hunlock
      exact Or.inl rfl
  · split at hunlock
    · exact Or.inr ⟨_, hunlock⟩
    · cases hunlock
      exact Or.inl rfl

/-- `RUnlock` notifies at most one thread, and does nothing else to the other ones. -/
theorem points_rUnlock {chosen : T} (hunlock : s.rUnlock t chosen = .ok final) (u : T) :
    (if u = t then LatchPoint.outside else s.points u).Stays (final.points u) := by
  have hpoints : (s.giveBack t).points u = if u = t then .outside else s.points u :=
    points_setPoint s t u .outside
  rcases notifies_rUnlock hunlock with rfl | ⟨condition, hnotify⟩
  · exact Or.inl hpoints
  · rw [← hpoints]
    exact (notifyOne_spec hnotify).2.2.1 u

/-- One step of the latch: its own thread moves, the others stay. -/
theorem step_points {e : LatchEvent T} {output : Unit}
    (hstep : (machine T).step s e = .ok (output, final)) :
    e.Moves (s.points e.thread) (final.points e.thread) ∧
      ∀ u, u ≠ e.thread → (s.points u).Stays (final.points u) := by
  cases e with
  | rLock t =>
      simp only [machine] at hstep
      split at hstep
      next hpoint =>
        cases hstep
        exact ⟨⟨hpoint, points_test_self s t .rLock⟩,
          fun u hne => Or.inl (points_test_of_ne s .rLock hne)⟩
      next => cases hstep
  | wLock t =>
      simp only [machine] at hstep
      split at hstep
      next hpoint =>
        cases hstep
        exact ⟨⟨hpoint, points_test_self s t .wLock⟩,
          fun u hne => Or.inl (points_test_of_ne s .wLock hne)⟩
      next => cases hstep
  | wake t =>
      simp only [machine] at hstep
      split at hstep
      next loop hpoint =>
        cases hstep
        exact ⟨⟨loop, hpoint, points_test_self s t loop⟩,
          fun u hne => Or.inl (points_test_of_ne s loop hne)⟩
      next => cases hstep
  | rUnlock t chosen =>
      simp only [machine] at hstep
      split at hstep
      next hpoint =>
        cases hunlock : s.rUnlock t chosen with
        | error fault =>
            rw [hunlock] at hstep
            cases hstep
        | ok next =>
            rw [hunlock] at hstep
            cases hstep
            have hpoints := points_rUnlock hunlock
            refine ⟨⟨hpoint, ?_⟩, fun u hne => ?_⟩
            · have hself := hpoints t
              rw [if_pos rfl] at hself
              exact hself.eq_of_awake fun _ heq => LatchPoint.noConfusion heq
            · have hdiff : u ≠ t := hne
              have hother := hpoints u
              rwa [if_neg hdiff] at hother
      next => cases hstep
  | wUnlock t =>
      simp only [machine] at hstep
      split at hstep
      next hpoint =>
        cases hstep
        exact ⟨⟨hpoint, points_wUnlock_self s⟩, fun u hne => points_wUnlock_of_ne s hne⟩
      next => cases hstep

/-! ## Who is awake -/

omit [Fintype T] in
theorem writerEntered_test_rLock (s : LatchSystem T) (t : T) :
    (s.test t .rLock).writerEntered = s.writerEntered := by
  unfold test
  dsimp only
  split <;> rfl

omit [Fintype T] in
/-- Who ends at a loop of `WLock` has entered, unless another one has. -/
theorem Attended.test (h : s.Attended) (hcomes : s.ComesTo t loop) : (s.test t loop).Attended := by
  have hothers : ∀ v, (s.points v).inWriter → v ≠ t → ((s.test t loop).points v).inWriter := by
    intro v hv hne
    rwa [points_test_of_ne s loop hne]
  have hentered : ∀ s : LatchSystem T, ((s.testEntered t).points t).inWriter := by
    intro s
    unfold testEntered
    rw [points_setPoint, if_pos rfl]
    split <;> rfl
  have hkeeps : (s.test t loop).writerEntered = s.writerEntered → ¬ (s.points t).inWriter →
      (s.test t loop).Attended := by
    intro hsame hnot hset
    obtain ⟨v, hv⟩ := h (hsame ▸ hset)
    exact ⟨v, hothers v hv fun heq => hnot (heq ▸ hv)⟩
  have hnot : loop ≠ .wLockEntered → ¬ (s.points t).inWriter := by
    intro hloop
    rcases hcomes with ⟨hpoint, -⟩ | hpoint
    · rw [hpoint]
      exact Bool.false_ne_true
    · rw [hpoint]
      cases loop with
      | rLock => exact Bool.false_ne_true
      | wLock => exact Bool.false_ne_true
      | wLockEntered => exact absurd rfl hloop
  cases loop with
  | rLock => exact hkeeps (writerEntered_test_rLock s t) (hnot fun heq => LatchLoop.noConfusion heq)
  | wLock =>
      by_cases hblocks : s.blocks .wLock
      · have hasleep : s.test t .wLock = s.setPoint t (.waiting .wLock false) := by
          unfold LatchSystem.test
          rw [if_pos hblocks]
        exact hkeeps (by rw [hasleep]; rfl) (hnot fun heq => LatchLoop.noConfusion heq)
      · have hfree : s.test t .wLock = testEntered { s with writerEntered := true } t := by
          unfold LatchSystem.test
          rw [if_neg hblocks]
        intro _
        rw [hfree]
        exact ⟨t, hentered _⟩
  | wLockEntered => exact fun _ => ⟨t, hentered s⟩

theorem Attended.rUnlock (h : s.Attended) (hpoint : s.points t = .reading) {chosen : T}
    (hunlock : s.rUnlock t chosen = .ok final) : final.Attended := by
  have hwriter : final.writerEntered = s.writerEntered := by
    rcases notifies_rUnlock hunlock with rfl | ⟨condition, hnotify⟩
    · rfl
    · exact (notifyOne_spec hnotify).2.1
  intro hset
  obtain ⟨v, hv⟩ := h (hwriter ▸ hset)
  have hne : v ≠ t := by
    rintro rfl
    rw [hpoint] at hv
    cases hv
  have hstays := points_rUnlock hunlock v
  rw [if_neg hne] at hstays
  exact ⟨v, hstays.inWriter.trans hv⟩

theorem Attended.step (h : s.Attended) {e : LatchEvent T} {output : Unit}
    (hstep : (machine T).step s e = .ok (output, final)) : final.Attended := by
  cases e with
  | rLock t =>
      simp only [machine] at hstep
      split at hstep
      next hpoint =>
        cases hstep
        exact h.test (Or.inl ⟨hpoint, fun heq => LatchLoop.noConfusion heq⟩)
      next => cases hstep
  | wLock t =>
      simp only [machine] at hstep
      split at hstep
      next hpoint =>
        cases hstep
        exact h.test (Or.inl ⟨hpoint, fun heq => LatchLoop.noConfusion heq⟩)
      next => cases hstep
  | wake t =>
      simp only [machine] at hstep
      split at hstep
      next loop hpoint =>
        cases hstep
        exact h.test (Or.inr hpoint)
      next => cases hstep
  | rUnlock t chosen =>
      simp only [machine] at hstep
      split at hstep
      next hpoint =>
        cases hunlock : s.rUnlock t chosen with
        | error fault =>
            rw [hunlock] at hstep
            cases hstep
        | ok next =>
            rw [hunlock] at hstep
            cases hstep
            exact h.rUnlock hpoint hunlock
      next => cases hstep
  | wUnlock t =>
      simp only [machine] at hstep
      split at hstep
      next =>
        cases hstep
        intro hset
        cases hset
      next => cases hstep

omit [DecidableEq T] in
/-- Behind every thread that sleeps there is one that does not. -/
theorem Owned.exists_awake (h : s.Owned) (hfew : Fintype.card T < maxReaders)
    (hwake : s.NoLostWakeup) (hattended : s.Attended) (hpoint : s.points t ≠ .outside) :
    ∃ u, s.points u ≠ .outside ∧ ∀ loop, s.points u ≠ .waiting loop false := by
  have hreader : s.readerCount > 0 →
      ∃ u, s.points u ≠ .outside ∧ ∀ loop, s.points u ≠ .waiting loop false := by
    intro hpos
    rw [h.count, gt_iff_lt, Finset.card_pos] at hpos
    obtain ⟨u, hu⟩ := hpos
    rw [mem_readers] at hu
    exact ⟨u, by rw [hu]; nofun, by rw [hu]; nofun⟩
  have hwriter : ∀ u, (s.points u).inWriter →
      ∃ u, s.points u ≠ .outside ∧ ∀ loop, s.points u ≠ .waiting loop false := by
    intro u hu
    by_cases hasleep : s.points u = .waiting .wLockEntered false
    · exact hreader (by simpa [blocks] using hwake u _ hasleep)
    · refine ⟨u, fun hout => ?_, fun loop hloop => ?_⟩
      · rw [hout] at hu
        cases hu
      · rw [hloop] at hu
        cases loop with
        | rLock => cases hu
        | wLock => cases hu
        | wLockEntered => exact hasleep hloop
  by_cases hasleep : ∃ loop, s.points t = .waiting loop false
  · obtain ⟨loop, hloop⟩ := hasleep
    have hset : s.writerEntered = true := by
      by_contra hfree
      exact h.not_asleep hfew hwake (Bool.eq_false_iff.mpr hfree) hloop
    obtain ⟨u, hu⟩ := hattended hset
    exact hwriter u hu
  · exact ⟨t, hpoint, fun loop hloop => hasleep ⟨loop, hloop⟩⟩

/-- `RUnlock` returns, whoever sleeps. -/
theorem exists_rUnlock (s : LatchSystem T) (t : T) :
    ∃ chosen final, s.rUnlock t chosen = .ok final := by
  have hnotify : ∀ (s : LatchSystem T) condition, ∃ chosen final,
      s.notifyOne condition chosen = .ok final := by
    intro s condition
    by_cases hsleeper : ∃ u, s.Asleep condition u
    · obtain ⟨u, hu⟩ := hsleeper
      exact ⟨u, _, if_pos hu⟩
    · have hnone : ∀ u, ¬ s.Asleep condition u := fun u hu => hsleeper ⟨u, hu⟩
      refine ⟨t, s, ?_⟩
      unfold notifyOne
      rw [if_neg (hnone t), if_pos hnone]
  unfold rUnlock
  dsimp only
  split
  · split
    · exact hnotify _ .writer
    · exact ⟨t, _, rfl⟩
  · split
    · exact hnotify _ .reader
    · exact ⟨t, _, rfl⟩

end Runs

end LatchSystem

end BusTub
