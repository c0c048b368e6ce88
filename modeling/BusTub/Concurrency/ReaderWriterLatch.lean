import BusTub.Library.Faults
import BusTub.Library.Machine
import Mathlib.Algebra.Order.Ring.Int
import Mathlib.Data.Finset.Card
import Mathlib.Data.Fintype.Card

/-! # The reader-writer latch

`ReaderWriterLatch` as the system of the threads that use it. The parts of its four
functions that run with the mutex held are the steps: a call up to its first `wait` or
its return, and a notified thread from the return of `wait` on. A thread takes the latch
again only after it has given it back: what `TableIterator::operator++` does, which has a
page latched to read when `GetTuple` latches it once more, is outside.

No two threads hold the latch unless all that do are readers, and a thread sleeps only
as long as the condition of its loop is true: with fewer threads than `MAX_READERS` the
capacity is never what a reader waits for, and the end of either other condition is
notified in the step that brings it about.
-/

namespace BusTub

/-- `MAX_READERS`. -/
@[irreducible] def maxReaders : Nat := 2 ^ 32 - 1

/-- The condition variables. -/
inductive LatchCondition where
  | reader
  | writer
  deriving DecidableEq, Repr

/-- The loops around `wait`: that of `RLock` and the two of `WLock`. -/
inductive LatchLoop where
  | rLock
  | wLock
  | wLockEntered
  deriving DecidableEq, Repr

/-- What the loop waits on. -/
def LatchLoop.condition : LatchLoop → LatchCondition
  | .rLock => .reader
  | .wLock => .reader
  | .wLockEntered => .writer

/-- Where a thread is. -/
inductive LatchPoint where
  | outside
  /-- In `wait`, with or without a notification since it fell asleep. -/
  | waiting (loop : LatchLoop) (notified : Bool)
  /-- Between the return of `RLock` and `RUnlock`. -/
  | reading
  /-- Between the return of `WLock` and `WUnlock`. -/
  | writing
  deriving DecidableEq, Repr

/-- The thread goes on if it sleeps on the condition variable. -/
def LatchPoint.notify (condition : LatchCondition) : LatchPoint → LatchPoint
  | .waiting loop notified => .waiting loop (notified || loop.condition = condition)
  | point => point

def LatchPoint.asleepOn (condition : LatchCondition) : LatchPoint → Bool
  | .waiting loop false => loop.condition = condition
  | _ => false

/-- The thread has set `writer_entered_`. -/
def LatchPoint.inWriter : LatchPoint → Bool
  | .writing => true
  | .waiting .wLockEntered _ => true
  | _ => false

/-- Who is asleep after a notification was so before, on the other condition variable. -/
theorem LatchPoint.notify_eq {condition : LatchCondition} {point : LatchPoint} {loop : LatchLoop}
    (hasleep : point.notify condition = .waiting loop false) :
    point = .waiting loop false ∧ loop.condition ≠ condition := by
  cases point with
  | waiting other notified =>
      simp only [LatchPoint.notify, LatchPoint.waiting.injEq, Bool.or_eq_false_iff,
        decide_eq_false_iff_not] at hasleep
      obtain ⟨rfl, rfl, hne⟩ := hasleep
      exact ⟨rfl, hne⟩
  | outside => cases hasleep
  | reading => cases hasleep
  | writing => cases hasleep

theorem LatchPoint.notify_cases (condition : LatchCondition) (point : LatchPoint) :
    point.notify condition = point ∨ ∃ loop, point = .waiting loop false ∧
      point.notify condition = .waiting loop true := by
  cases point with
  | waiting loop notified =>
      cases notified with
      | true => exact Or.inl rfl
      | false =>
          by_cases heq : loop.condition = condition
          · exact Or.inr ⟨loop, rfl, by simp [LatchPoint.notify, heq]⟩
          · exact Or.inl (by simp [LatchPoint.notify, heq])
  | outside => exact Or.inl rfl
  | reading => exact Or.inl rfl
  | writing => exact Or.inl rfl

theorem LatchPoint.asleepOn_iff {condition : LatchCondition} {point : LatchPoint} :
    point.asleepOn condition ↔
      ∃ loop : LatchLoop, loop.condition = condition ∧ point = .waiting loop false := by
  cases point with
  | waiting loop notified => cases notified <;> simp [LatchPoint.asleepOn]
  | outside => simp [LatchPoint.asleepOn]
  | reading => simp [LatchPoint.asleepOn]
  | writing => simp [LatchPoint.asleepOn]

/-- The latch and the threads that use it. -/
structure LatchSystem (T : Type) where
  readerCount : Nat := 0
  writerEntered : Bool := false
  points : T → LatchPoint := fun _ => .outside

inductive LatchFault where
  /-- The thread is not where the call starts from. -/
  | notThere
  /-- `notify_one` wakes a thread that sleeps, if there is one. -/
  | notAsleep
  deriving DecidableEq, Repr

/-- The steps of the threads. -/
inductive LatchEvent (T : Type) where
  | rLock (thread : T)
  | wLock (thread : T)
  /-- A notified thread has the mutex again. -/
  | wake (thread : T)
  /-- `notified` is the thread that `notify_one` chooses. -/
  | rUnlock (thread notified : T)
  | wUnlock (thread : T)
  deriving DecidableEq, Repr

namespace LatchSystem

variable {T : Type} [DecidableEq T]

/-- The thread sleeps on the condition variable. -/
def Asleep (s : LatchSystem T) (condition : LatchCondition) (t : T) : Prop :=
  (s.points t).asleepOn condition

instance (s : LatchSystem T) (condition : LatchCondition) (t : T) :
    Decidable (s.Asleep condition t) := inferInstanceAs (Decidable (_ = true))

/-- The condition of the loop. -/
def blocks (s : LatchSystem T) : LatchLoop → Bool
  | .rLock => s.writerEntered || s.readerCount = maxReaders
  | .wLock => s.writerEntered
  | .wLockEntered => s.readerCount > 0

def setPoint (s : LatchSystem T) (t : T) (point : LatchPoint) : LatchSystem T :=
  { s with points := Function.update s.points t point }

@[simp] theorem points_setPoint (s : LatchSystem T) (t u : T) (point : LatchPoint) :
    (s.setPoint t point).points u = if u = t then point else s.points u :=
  Function.update_apply ..

/-- The second loop of `WLock`. -/
def testEntered (s : LatchSystem T) (t : T) : LatchSystem T :=
  s.setPoint t (if s.blocks .wLockEntered then .waiting .wLockEntered false else .writing)

/-- `reader_count_++`. -/
@[irreducible] def incremented (count : Nat) : Nat := (count + 1) % 2 ^ 32

/-- `reader_count_--`. -/
@[irreducible] def decremented (count : Nat) : Nat := (2 ^ 32 - 1 + count) % 2 ^ 32

theorem incremented_of_lt {count : Nat} (hlt : count < maxReaders) :
    incremented count = count + 1 := by
  unfold maxReaders at hlt
  unfold incremented
  exact Nat.mod_eq_of_lt (by omega)

theorem decremented_succ {count : Nat} (hlt : count < maxReaders) :
    decremented (count + 1) = count := by
  unfold maxReaders at hlt
  unfold decremented
  omega

/-- From the condition of a loop to the next `wait` or to the return. -/
def test (s : LatchSystem T) (t : T) (loop : LatchLoop) : LatchSystem T :=
  match loop with
  | .rLock =>
      if s.blocks .rLock then s.setPoint t (.waiting .rLock false)
      else { s.setPoint t .reading with readerCount := incremented s.readerCount }
  | .wLock =>
      if s.blocks .wLock then s.setPoint t (.waiting .wLock false)
      else testEntered { s with writerEntered := true } t
  | .wLockEntered => s.testEntered t

/-- `notify_all`. -/
def notifyAll (s : LatchSystem T) (condition : LatchCondition) : LatchSystem T :=
  { s with points := fun u => (s.points u).notify condition }

/-- `notify_one`, which chooses among the threads that sleep. -/
def notifyOne [Fintype T] (s : LatchSystem T) (condition : LatchCondition) (chosen : T) :
    Except LatchFault (LatchSystem T) :=
  if s.Asleep condition chosen then
    .ok (s.setPoint chosen ((s.points chosen).notify condition))
  else if ∀ u, ¬ s.Asleep condition u then .ok s
  else .error .notAsleep

/-- `WUnlock`. -/
def wUnlock (s : LatchSystem T) (t : T) : LatchSystem T :=
  notifyAll { s.setPoint t .outside with writerEntered := false } .reader

/-- `RUnlock` before it notifies. -/
def giveBack (s : LatchSystem T) (t : T) : LatchSystem T :=
  { s.setPoint t .outside with readerCount := decremented s.readerCount }

theorem readerCount_giveBack (s : LatchSystem T) (t : T) :
    (s.giveBack t).readerCount = decremented s.readerCount := rfl

theorem points_giveBack (s : LatchSystem T) (t : T) :
    (s.giveBack t).points = Function.update s.points t .outside := rfl

/-- `RUnlock`. -/
def rUnlock [Fintype T] (s : LatchSystem T) (t chosen : T) : Except LatchFault (LatchSystem T) :=
  let s := s.giveBack t
  if s.writerEntered then
    if s.readerCount = 0 then s.notifyOne .writer chosen else .ok s
  else if s.readerCount = maxReaders - 1 then s.notifyOne .reader chosen
  else .ok s

/-- The threads with the latch, one section of a call at a time. -/
def machine (T : Type) [DecidableEq T] [Fintype T] :
    Machine (LatchSystem T) (LatchEvent T) Unit LatchFault where
  step s event :=
    match event with
    | .rLock t => if s.points t = .outside then .ok ((), s.test t .rLock) else .error .notThere
    | .wLock t => if s.points t = .outside then .ok ((), s.test t .wLock) else .error .notThere
    | .wake t =>
        match s.points t with
        | .waiting loop true => .ok ((), s.test t loop)
        | _ => .error .notThere
    | .rUnlock t chosen =>
        if s.points t = .reading then (s.rUnlock t chosen).map fun s => ((), s)
        else .error .notThere
    | .wUnlock t => if s.points t = .writing then .ok ((), s.wUnlock t) else .error .notThere

/-! ## The readers -/

section Readers

variable [Fintype T] {points : T → LatchPoint} {t : T} {point : LatchPoint}

/-- The threads that have the latch as readers. -/
def readers (points : T → LatchPoint) : Finset T :=
  Finset.univ.filter fun u => points u = .reading

omit [DecidableEq T] in
theorem mem_readers {u : T} : u ∈ readers points ↔ points u = .reading := by
  unfold readers
  rw [Finset.mem_filter]
  exact and_iff_right (Finset.mem_univ u)

theorem readers_update_of_ne (hbefore : points t ≠ .reading) (hafter : point ≠ .reading) :
    readers (Function.update points t point) = readers points := by
  ext u
  rw [mem_readers, mem_readers]
  by_cases hu : u = t
  · subst hu
    rw [Function.update_self]
    exact ⟨fun hread => absurd hread hafter, fun hread => absurd hread hbefore⟩
  · rw [Function.update_of_ne hu]

theorem card_readers_update_reading (hbefore : points t ≠ .reading) :
    (readers (Function.update points t .reading)).card = (readers points).card + 1 := by
  have hinsert : readers (Function.update points t .reading) = insert t (readers points) := by
    ext u
    rw [mem_readers, Finset.mem_insert, mem_readers]
    by_cases hu : u = t
    · subst hu
      simp
    · rw [Function.update_of_ne hu]
      simp [hu]
  rw [hinsert, Finset.card_insert_of_notMem]
  rwa [mem_readers]

theorem card_readers_update_outside (hbefore : points t = .reading) :
    (readers (Function.update points t .outside)).card + 1 = (readers points).card := by
  have herase : readers (Function.update points t .outside) = (readers points).erase t := by
    ext u
    rw [mem_readers, Finset.mem_erase, mem_readers]
    by_cases hu : u = t
    · subst hu
      simp
    · rw [Function.update_of_ne hu]
      simp [hu]
  rw [herase]
  exact Finset.card_erase_add_one (mem_readers.mpr hbefore)

end Readers

/-! ## The invariant -/

section Invariant

variable [Fintype T] {s final : LatchSystem T} {t u : T} {loop : LatchLoop}

/-- Who has the latch, and what its fields say about them. -/
structure Owned (s : LatchSystem T) : Prop where
  count : s.readerCount = (readers s.points).card
  entered : ∀ t, (s.points t).inWriter → s.writerEntered
  one : ∀ t u, (s.points t).inWriter → (s.points u).inWriter → t = u
  alone : ∀ t, s.points t = .writing → s.readerCount = 0

/-- Whoever sleeps does so for a condition that is true. -/
def NoLostWakeup (s : LatchSystem T) : Prop :=
  ∀ t loop, s.points t = .waiting loop false → s.blocks loop

omit [DecidableEq T] in
/-- The capacity is never reached. -/
theorem Owned.count_lt (h : s.Owned) (hfew : Fintype.card T < maxReaders) :
    s.readerCount < maxReaders := by
  rw [h.count]
  exact lt_of_le_of_lt (Finset.card_le_univ _) hfew

omit [DecidableEq T] in
/-- Without a writer nobody sleeps. -/
theorem Owned.not_asleep (h : s.Owned) (hfew : Fintype.card T < maxReaders)
    (hwake : s.NoLostWakeup) (hfree : s.writerEntered = false) :
    s.points t ≠ .waiting loop false := by
  intro hasleep
  have hblocks := hwake t loop hasleep
  have hcount := h.count_lt hfew
  cases loop with
  | rLock =>
      unfold blocks at hblocks
      rw [hfree, Bool.false_or, decide_eq_true_eq] at hblocks
      omega
  | wLock =>
      unfold blocks at hblocks
      rw [hfree] at hblocks
      cases hblocks
  | wLockEntered =>
      have hentered := h.entered t (by rw [hasleep]; rfl)
      rw [hfree] at hentered
      cases hentered

/-- A thread that does not own the latch moves to another point where it does not. -/
theorem Owned.setPoint (h : s.Owned) {point : LatchPoint} (hbefore : s.points t ≠ .reading)
    (hafter : point ≠ .reading) (hwriting : point = .writing → s.readerCount = 0)
    (hwriter : point.inWriter → s.writerEntered ∧ ∀ u, (s.points u).inWriter → u = t) :
    (s.setPoint t point).Owned := by
  have hpoints : ∀ u, (s.setPoint t point).points u = if u = t then point else s.points u :=
    fun u => Function.update_apply ..
  refine ⟨?_, ?_, ?_, ?_⟩
  · unfold LatchSystem.setPoint
    rw [readers_update_of_ne hbefore hafter]
    exact h.count
  · intro u hu
    rw [hpoints] at hu
    split at hu
    · exact (hwriter hu).1
    · exact h.entered u hu
  · intro u v hu hv
    rw [hpoints] at hu hv
    split at hu
    next heq =>
      split at hv
      next heq' => rw [heq, heq']
      next => rw [heq, (hwriter hu).2 v hv]
    next =>
      split at hv
      next heq' => rw [heq', (hwriter hv).2 u hu]
      next => exact h.one u v hu hv
  · intro u hu
    rw [hpoints] at hu
    split at hu
    · exact hwriting hu
    · exact h.alone u hu

omit [Fintype T] in
theorem NoLostWakeup.setPoint (h : s.NoLostWakeup) {point : LatchPoint}
    (hpoint : ∀ loop, point = .waiting loop false → s.blocks loop) :
    (s.setPoint t point).NoLostWakeup := by
  intro u loop hu
  change s.blocks loop
  unfold LatchSystem.setPoint at hu
  dsimp only at hu
  rw [Function.update_apply] at hu
  split at hu
  · exact hpoint loop hu
  · exact h u loop hu

omit [DecidableEq T] in
/-- Notified threads are where they were, and no longer asleep. -/
theorem Owned.notified (h : s.Owned) {points : T → LatchPoint}
    (hsame : ∀ u, points u = s.points u ∨
      ∃ loop, s.points u = .waiting loop false ∧ points u = .waiting loop true) :
    Owned { s with points := points } := by
  have hreading : ∀ u, points u = .reading ↔ s.points u = .reading := by
    intro u
    rcases hsame u with heq | ⟨loop, hbefore, hafter⟩
    · rw [heq]
    · simp [hbefore, hafter]
  have hwriting : ∀ u, points u = .writing ↔ s.points u = .writing := by
    intro u
    rcases hsame u with heq | ⟨loop, hbefore, hafter⟩
    · rw [heq]
    · simp [hbefore, hafter]
  have hwriter : ∀ u, (points u).inWriter = (s.points u).inWriter := by
    intro u
    rcases hsame u with heq | ⟨loop, hbefore, hafter⟩
    · rw [heq]
    · rw [hbefore, hafter]
      cases loop <;> rfl
  refine ⟨?_, ?_, ?_, ?_⟩
  · change s.readerCount = (readers points).card
    rw [h.count]
    congr 1
    ext u
    rw [mem_readers, mem_readers, hreading]
  · intro u hu
    exact h.entered u (hwriter u ▸ hu)
  · intro u v hu hv
    exact h.one u v (hwriter u ▸ hu) (hwriter v ▸ hv)
  · intro u hu
    exact h.alone u ((hwriting u).mp hu)

/-! ## The steps -/

/-- The point of a thread that tests the condition of a loop: it makes the call, or it has
been notified in the loop. -/
def ComesTo (s : LatchSystem T) (t : T) (loop : LatchLoop) : Prop :=
  (s.points t = .outside ∧ loop ≠ .wLockEntered) ∨ s.points t = .waiting loop true

omit [DecidableEq T] [Fintype T] in
theorem ComesTo.not_reading (h : s.ComesTo t loop) : s.points t ≠ .reading := by
  rcases h with ⟨hpoint, -⟩ | hpoint <;> simp [hpoint]

/-- A second loop of `WLock` is that of the one writer. -/
theorem Owned.testEntered (h : s.Owned) (hbefore : s.points t ≠ .reading)
    (hentered : s.writerEntered) (hone : ∀ u, (s.points u).inWriter → u = t) :
    (s.testEntered t).Owned := by
  unfold LatchSystem.testEntered
  refine h.setPoint hbefore ?_ ?_ fun _ => ⟨hentered, hone⟩
  · split <;> nofun
  · intro hwriting
    split at hwriting
    next => cases hwriting
    next hblocks => simpa [blocks] using hblocks

omit [Fintype T] in
theorem NoLostWakeup.testEntered (h : s.NoLostWakeup) : (s.testEntered t).NoLostWakeup := by
  unfold LatchSystem.testEntered
  refine h.setPoint fun loop hpoint => ?_
  split at hpoint
  next hblocks =>
    cases hpoint
    exact hblocks
  next => cases hpoint

theorem Owned.test (h : s.Owned) (hfew : Fintype.card T < maxReaders) (hwake : s.NoLostWakeup)
    (hcomes : s.ComesTo t loop) : (s.test t loop).Owned ∧ (s.test t loop).NoLostWakeup := by
  have hnot := hcomes.not_reading
  cases loop with
  | rLock =>
      unfold LatchSystem.test
      dsimp only
      split
      next hblocks =>
        refine ⟨h.setPoint hnot nofun nofun nofun, hwake.setPoint fun loop heq => ?_⟩
        cases heq
        exact hblocks
      next hblocks =>
        -- the loop ends: no writer has entered, so that nobody sleeps
        have hfree : s.writerEntered = false := by
          unfold blocks at hblocks
          rw [Bool.not_eq_true, Bool.or_eq_false_iff] at hblocks
          exact hblocks.1
        have hnone : ∀ u, ¬ (Function.update s.points t .reading u).inWriter := by
          intro u hu
          rw [Function.update_apply] at hu
          split at hu
          · cases hu
          · have hentered := h.entered u hu
            rw [hfree] at hentered
            cases hentered
        have hcount := h.count_lt hfew
        refine ⟨⟨?_, ?_, ?_, ?_⟩, ?_⟩
        · unfold LatchSystem.setPoint
          dsimp only
          rw [card_readers_update_reading hnot, ← h.count]
          exact incremented_of_lt hcount
        · exact fun u hu => absurd hu (hnone u)
        · exact fun u v hu => absurd hu (hnone u)
        · intro u hu
          have hpoint : Function.update s.points t .reading u = .writing := hu
          refine absurd ?_ (hnone u)
          rw [hpoint]
          rfl
        · intro u loop hu
          unfold LatchSystem.setPoint at hu
          dsimp only at hu
          rw [Function.update_apply] at hu
          split at hu
          · cases hu
          · exact absurd hu (h.not_asleep hfew hwake hfree)
  | wLock =>
      unfold LatchSystem.test
      dsimp only
      split
      next hblocks =>
        refine ⟨h.setPoint hnot nofun nofun nofun, hwake.setPoint fun loop heq => ?_⟩
        cases heq
        exact hblocks
      next hblocks =>
        have hfree : s.writerEntered = false := Bool.eq_false_iff.mpr hblocks
        have hnone : ∀ u, ¬ (s.points u).inWriter := by
          intro u hu
          have hentered := h.entered u hu
          rw [hfree] at hentered
          cases hentered
        -- the writer takes the flag and still has to wait for the readers inside
        have howned : Owned { s with writerEntered := true } :=
          ⟨h.count, fun _ _ => rfl, h.one, h.alone⟩
        have hsleepers : NoLostWakeup { s with writerEntered := true } :=
          fun u loop hu => absurd hu (h.not_asleep hfew hwake hfree)
        exact ⟨howned.testEntered hnot rfl fun u hu => absurd hu (hnone u), hsleepers.testEntered⟩
  | wLockEntered =>
      unfold LatchSystem.test
      rcases hcomes with ⟨-, hne⟩ | hpoint
      · exact absurd rfl hne
      · have hself : (s.points t).inWriter := by
          rw [hpoint]
          rfl
        exact ⟨h.testEntered hnot (h.entered t hself) fun u hu => h.one u t hu hself,
          hwake.testEntered⟩

theorem Owned.wUnlock (h : s.Owned) (hpoint : s.points t = .writing) :
    (s.wUnlock t).Owned ∧ (s.wUnlock t).NoLostWakeup := by
  have hself : (s.points t).inWriter := by
    rw [hpoint]
    rfl
  have hnot : s.points t ≠ .reading := by
    rw [hpoint]
    nofun
  have hnone : ∀ u, ¬ ((s.setPoint t .outside).points u).inWriter := by
    intro u hu
    rw [points_setPoint] at hu
    split at hu
    next => cases hu
    next hne => exact hne (h.one u t hu hself)
  have hfreed : Owned { s.setPoint t .outside with writerEntered := false } := by
    refine ⟨?_, fun u hu => absurd hu (hnone u), fun u v hu => absurd hu (hnone u), ?_⟩
    · unfold LatchSystem.setPoint
      dsimp only
      rw [readers_update_of_ne hnot (show LatchPoint.outside ≠ .reading by nofun)]
      exact h.count
    · intro u hu
      refine absurd ?_ (hnone u)
      dsimp only at hu
      rw [hu]
      rfl
  constructor
  · exact hfreed.notified fun u => LatchPoint.notify_cases .reader _
  · intro u loop hu
    -- whoever still sleeps would be a writer
    obtain ⟨hbefore, hne⟩ := LatchPoint.notify_eq hu
    refine absurd ?_ (hnone u)
    dsimp only at hbefore
    rw [hbefore]
    cases loop with
    | rLock => exact absurd rfl hne
    | wLock => exact absurd rfl hne
    | wLockEntered => rfl

/-- The thread that `notify_one` chooses no longer sleeps, and nobody does if it chooses none. -/
theorem notifyOne_spec {condition : LatchCondition} {chosen : T}
    (hnotify : s.notifyOne condition chosen = .ok final) :
    final.readerCount = s.readerCount ∧ final.writerEntered = s.writerEntered ∧
      (∀ u, final.points u = s.points u ∨
        ∃ loop, s.points u = .waiting loop false ∧ final.points u = .waiting loop true) ∧
      ((∀ u, ¬ final.Asleep condition u) ∨
        s.Asleep condition chosen ∧ ¬ final.Asleep condition chosen) := by
  unfold notifyOne at hnotify
  split at hnotify
  next hasleep =>
    cases hnotify
    refine ⟨rfl, rfl, fun u => ?_, Or.inr ⟨hasleep, ?_⟩⟩
    · rw [points_setPoint]
      split
      next heq =>
        subst heq
        exact LatchPoint.notify_cases condition _
      next => exact Or.inl rfl
    · unfold Asleep
      rw [points_setPoint, if_pos rfl, LatchPoint.asleepOn_iff]
      rintro ⟨loop, heq, hagain⟩
      exact (LatchPoint.notify_eq hagain).2 heq
  next =>
    split at hnotify
    next hnone =>
      cases hnotify
      exact ⟨rfl, rfl, fun u => Or.inl rfl, Or.inl hnone⟩
    next => cases hnotify

theorem Owned.giveBack (h : s.Owned) (hfew : Fintype.card T < maxReaders)
    (hpoint : s.points t = .reading) :
    (s.giveBack t).readerCount + 1 = s.readerCount ∧ (s.giveBack t).Owned := by
  have hcount := h.count_lt hfew
  have hcard := card_readers_update_outside hpoint
  rw [← h.count] at hcard
  have hreaders : (s.giveBack t).readerCount = (readers (s.giveBack t).points).card := by
    rw [readerCount_giveBack, points_giveBack, ← hcard]
    exact decremented_succ (by omega)
  have hless : (s.giveBack t).readerCount + 1 = s.readerCount := by
    rw [hreaders, points_giveBack]
    exact hcard
  have hpoints : ∀ u, (s.giveBack t).points u = if u = t then .outside else s.points u :=
    fun u => points_setPoint s t u .outside
  refine ⟨hless, hreaders, ?_, ?_, ?_⟩
  · intro u hu
    rw [hpoints] at hu
    split at hu
    · cases hu
    · exact h.entered u hu
  · intro u v hu hv
    rw [hpoints] at hu hv
    split at hu
    · cases hu
    · split at hv
      · cases hv
      · exact h.one u v hu hv
  · intro u hu
    rw [hpoints] at hu
    split at hu
    · cases hu
    · have hzero := h.alone u hu
      omega

/-- The only condition that `RUnlock` can end is that of a writer in its second loop. -/
theorem Owned.blocks_giveBack (h : s.Owned) (hfew : Fintype.card T < maxReaders)
    (hwake : s.NoLostWakeup)
    (hasleep : (s.giveBack t).points u = .waiting loop false) :
    (s.giveBack t).writerEntered ∧
      ((s.giveBack t).blocks loop ∨ loop = .wLockEntered ∧ (s.giveBack t).readerCount = 0) := by
  have hcount := h.count_lt hfew
  have hbefore : s.points u = .waiting loop false := by
    have hpoints : (s.giveBack t).points u = if u = t then .outside else s.points u :=
      points_setPoint s t u .outside
    rw [hpoints] at hasleep
    split at hasleep
    · cases hasleep
    · exact hasleep
  have hentered : s.writerEntered := by
    by_contra hfree
    exact h.not_asleep hfew hwake (Bool.eq_false_iff.mpr hfree) hbefore
  refine ⟨hentered, ?_⟩
  cases loop with
  | rLock =>
      left
      change (s.writerEntered || _) = true
      rw [hentered]
      rfl
  | wLock => exact Or.inl hentered
  | wLockEntered =>
      rcases Nat.eq_zero_or_pos (s.giveBack t).readerCount with hzero | hpos
      · exact Or.inr ⟨rfl, hzero⟩
      · exact Or.inl (decide_eq_true hpos)

theorem Owned.rUnlock (h : s.Owned) (hfew : Fintype.card T < maxReaders)
    (hwake : s.NoLostWakeup) (hpoint : s.points t = .reading) {chosen : T}
    (hunlock : s.rUnlock t chosen = .ok final) : final.Owned ∧ final.NoLostWakeup := by
  obtain ⟨hless, howned⟩ := h.giveBack hfew hpoint
  have hblocks : ∀ u loop, (s.giveBack t).points u = .waiting loop false → _ :=
    fun u loop => h.blocks_giveBack hfew hwake
  have hcount := h.count_lt hfew
  unfold LatchSystem.rUnlock at hunlock
  dsimp only at hunlock
  split at hunlock
  next hentered =>
    split at hunlock
    next hzero =>
      -- the last reader notifies the writer that has entered
      obtain ⟨hreaders, hwriter, hsame, hnotified⟩ := notifyOne_spec hunlock
      have hfinal : final = { s.giveBack t with points := final.points } := by
        cases final
        simp only at hreaders hwriter
        rw [hreaders, hwriter]
      refine ⟨hfinal ▸ howned.notified hsame, fun u loop hu => ?_⟩
      have hbefore : (s.giveBack t).points u = .waiting loop false := by
        rcases hsame u with heq | ⟨other, -, hafter⟩
        · rw [← heq, hu]
        · rw [hu] at hafter
          cases hafter
      rcases (hblocks u loop hbefore).2 with hold | ⟨rfl, -⟩
      · rw [hfinal]
        exact hold
      · exfalso
        have hasleep : final.Asleep .writer u := LatchPoint.asleepOn_iff.mpr ⟨_, rfl, hu⟩
        rcases hnotified with hnone | ⟨hchosen, hawake⟩
        · exact hnone u hasleep
        · obtain ⟨other, hcondition, hpointChosen⟩ := LatchPoint.asleepOn_iff.mp hchosen
          have hother : other = .wLockEntered := by
            cases other with
            | rLock => cases hcondition
            | wLock => cases hcondition
            | wLockEntered => rfl
          have hsameThread : chosen = u := by
            refine howned.one chosen u ?_ ?_
            · rw [hpointChosen, hother]
              rfl
            · rw [hbefore]
              rfl
          exact hawake (hsameThread ▸ hasleep)
    next hpos =>
      cases hunlock
      refine ⟨howned, fun u loop hu => ?_⟩
      rcases (hblocks u loop hu).2 with hold | ⟨-, hzero⟩
      · exact hold
      · exact absurd hzero hpos
  next hfree =>
    have hnone : ∀ u loop, (s.giveBack t).points u ≠ .waiting loop false :=
      fun u loop hu => hfree (hblocks u loop hu).1
    split at hunlock
    next hfull =>
      omega
    next =>
      cases hunlock
      exact ⟨howned, fun u loop hu => absurd hu (hnone u loop)⟩

/-! ## Runs -/

omit [DecidableEq T] in
theorem owned_initial : Owned ({} : LatchSystem T) := by
  refine ⟨?_, nofun, nofun, nofun⟩
  symm
  rw [Finset.card_eq_zero]
  ext u
  rw [mem_readers]
  simp

theorem Owned.step (h : s.Owned) (hfew : Fintype.card T < maxReaders) (hwake : s.NoLostWakeup)
    {event : LatchEvent T} {output : Unit}
    (hstep : (machine T).step s event = .ok (output, final)) :
    final.Owned ∧ final.NoLostWakeup := by
  cases event with
  | rLock t =>
      simp only [machine] at hstep
      split at hstep
      next hpoint =>
        cases hstep
        exact h.test hfew hwake (Or.inl ⟨hpoint, nofun⟩)
      next => cases hstep
  | wLock t =>
      simp only [machine] at hstep
      split at hstep
      next hpoint =>
        cases hstep
        exact h.test hfew hwake (Or.inl ⟨hpoint, nofun⟩)
      next => cases hstep
  | wake t =>
      simp only [machine] at hstep
      split at hstep
      next loop hpoint =>
        cases hstep
        exact h.test hfew hwake (Or.inr hpoint)
      next => cases hstep
  | rUnlock t chosen =>
      simp only [machine] at hstep
      split at hstep
      next hpoint =>
        cases hunlock : s.rUnlock t chosen with
        | error fault =>
            rw [hunlock] at hstep
            cases hstep
        | ok next =>
            rw [hunlock] at hstep
            cases hstep
            exact h.rUnlock hfew hwake hpoint hunlock
      next => cases hstep
  | wUnlock t =>
      simp only [machine] at hstep
      split at hstep
      next hpoint =>
        cases hstep
        exact h.wUnlock hpoint
      next => cases hstep

/-- A thread between the return of `WLock` and `WUnlock` has the latch alone, and no thread
sleeps on a condition variable without a notification while its condition is false. -/
theorem run_exclusive {events : List (LatchEvent T)} (hfew : Fintype.card T < maxReaders)
    (hreach : (machine T).Reaches {} events final) :
    (∀ t, final.points t = .writing → ∀ u, u ≠ t →
      final.points u ≠ .reading ∧ final.points u ≠ .writing) ∧
    ∀ t loop, final.points t = .waiting loop false → final.blocks loop := by
  obtain ⟨howned, hwake⟩ : final.Owned ∧ final.NoLostWakeup := by
    refine hreach.invariant_of_step (fun s => s.Owned ∧ s.NoLostWakeup) ?_
      ⟨owned_initial, nofun⟩
    intro s event output next h hstep
    exact h.1.step hfew h.2 hstep
  refine ⟨fun t ht u hne => ⟨fun hu => ?_, fun hu => ?_⟩, hwake⟩
  · have hzero := howned.alone t ht
    rw [howned.count, Finset.card_eq_zero] at hzero
    have hmem : u ∈ readers final.points := mem_readers.mpr hu
    rw [hzero] at hmem
    exact absurd hmem (Finset.notMem_empty u)
  · refine hne (howned.one u t ?_ ?_)
    · rw [hu]
      rfl
    · rw [ht]
      rfl

end Invariant

/-- A reader sleeps while a writer has the latch, and has it once the writer is gone. -/
theorem run_exclusive_twoThreads : ∃ final : LatchSystem (Fin 2),
    (machine (Fin 2)).Reaches {} [.wLock 0, .rLock 1, .wUnlock 0, .wake 1] final ∧
      (∀ t, final.points t = .writing → ∀ u, u ≠ t →
        final.points u ≠ .reading ∧ final.points u ≠ .writing) ∧
      ∀ t loop, final.points t = .waiting loop false → final.blocks loop := by
  have hfew : Fintype.card (Fin 2) < maxReaders := by
    unfold maxReaders
    decide
  have hrun : ((machine (Fin 2)).run {} [.wLock 0, .rLock 1, .wUnlock 0, .wake 1]).toOption.isSome :=
    by decide +kernel
  obtain ⟨⟨outputs, final⟩, hsome⟩ := Option.isSome_iff_exists.mp hrun
  have hreach : (machine (Fin 2)).Reaches {} [.wLock 0, .rLock 1, .wUnlock 0, .wake 1] final :=
    ⟨outputs, Except.toOption_eq_some_iff.mp hsome⟩
  exact ⟨final, hreach, run_exclusive hfew hreach⟩

end LatchSystem

end BusTub
