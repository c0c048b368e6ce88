import Mathlib.Data.List.Count
import Mathlib.Data.List.Perm.Basic
import Mathlib.Logic.Function.Basic

/-! # Counted references

Computations that take references to things and give them back. Each thing has a
number of references; to give one back that nobody holds is a failure. What a
computation takes and gives back, thing by thing, is all that decides whether the
numbers are the same after it as before it.
-/

/-- Why a computation with counted references does not return. -/
inductive CountedFault (ε : Type) where
  /-- A reference is given back that nobody holds. -/
  | notHeld
  | failed (fault : ε)
  deriving DecidableEq, Repr

/-- A computation that changes the numbers of references. -/
abbrev Counted (ι ε α : Type) : Type := StateT (ι → Nat) (Except (CountedFault ε)) α

namespace Counted

variable {ι ε α β : Type}

/-- A computation that takes and gives back nothing. -/
def lift (x : Except ε α) : Counted ι ε α := fun counts =>
  match x with
  | .error fault => .error (.failed fault)
  | .ok a => .ok (a, counts)

@[simp] theorem lift_ok (a : α) : lift (ι := ι) (.ok a : Except ε α) = pure a := rfl

theorem lift_error_bind (fault : ε) (k : α → Counted ι ε β) :
    (lift (.error fault) >>= k) = lift (.error fault) := rfl

/-- A computation with several steps returns when each step does. -/
theorem bind_eq_ok_iff {x : Counted ι ε α} {k : α → Counted ι ε β} {counts counts' : ι → Nat}
    {b : β} : (x >>= k) counts = .ok (b, counts') ↔
      ∃ a between, x counts = .ok (a, between) ∧ k a between = .ok (b, counts') := by
  change (x counts >>= fun r => k r.1 r.2) = _ ↔ _
  cases x counts with
  | error fault => simp [bind, Except.bind]
  | ok r =>
      obtain ⟨a, between⟩ := r
      simp [bind, Except.bind]

/-- The numbers of references when the computation has returned. -/
def after (x : Counted ι ε α) (counts : ι → Nat) : Option (ι → Nat) :=
  match x counts with
  | .error _ => none
  | .ok (_, counts') => some counts'

theorem after_eq_some_iff {x : Counted ι ε α} {counts counts' : ι → Nat} :
    x.after counts = some counts' ↔ ∃ a, x counts = .ok (a, counts') := by
  unfold after
  cases x counts with
  | error fault => simp
  | ok r =>
      obtain ⟨a, counts''⟩ := r
      simp

theorem pure_eq_ok_iff {a b : α} {counts counts' : ι → Nat} :
    (pure a : Counted ι ε α) counts = .ok (b, counts') ↔ b = a ∧ counts' = counts := by
  change Except.ok (a, counts) = _ ↔ _
  rw [Except.ok.injEq, Prod.mk.injEq, eq_comm, eq_comm (a := counts)]

theorem lift_eq_ok_iff {x : Except ε α} {b : α} {counts counts' : ι → Nat} :
    lift x counts = .ok (b, counts') ↔ x = .ok b ∧ counts' = counts := by
  cases x with
  | error fault => simp [lift]
  | ok a => rw [lift_ok, pure_eq_ok_iff, Except.ok.injEq, eq_comm (a := a)]

theorem lift_bind_eq_ok_iff {x : Except ε α} {k : α → Counted ι ε β} {counts : ι → Nat}
    {r : β × (ι → Nat)} : (lift x >>= k) counts = .ok r ↔ ∃ a, x = .ok a ∧ k a counts = .ok r := by
  cases x with
  | error fault =>
      rw [lift_error_bind]
      simp [lift]
  | ok a => simp

section References

variable [DecidableEq ι]

/-- Take a reference. -/
def acquire (i : ι) : Counted ι ε Unit := fun counts =>
  .ok ((), Function.update counts i (counts i + 1))

/-- Give a reference back. -/
def release (i : ι) : Counted ι ε Unit := fun counts =>
  if counts i = 0 then .error .notHeld
  else .ok ((), Function.update counts i (counts i - 1))

/-- The reference taken last is given back first. -/
theorem acquire_release (i : ι) (k : Counted ι ε β) :
    (do acquire i; release i; k) = k := by
  funext counts
  change (release i (Function.update counts i (counts i + 1)) >>= fun r => k r.2) = k counts
  simp [release, bind, Except.bind]

/-- A reference held during a computation that takes and gives back nothing. -/
theorem acquire_lift_release (i : ι) (x : Except ε α) (k : α → Counted ι ε β) :
    (do acquire i; let a ← lift x; release i; k a) = (do let a ← lift x; k a) := by
  cases x with
  | error fault => rfl
  | ok a =>
      rw [lift_ok, pure_bind, pure_bind]
      exact acquire_release i (k a)

/-- The references `taken` are taken and the references `given` given back. -/
def Moved (taken given : List ι) (counts counts' : ι → Nat) : Prop :=
  ∀ i, counts' i + given.count i = counts i + taken.count i

variable {counts counts' counts'' : ι → Nat} {taken given taken' given' : List ι}

theorem Moved.refl (counts : ι → Nat) : Moved [] [] counts counts := fun _ => rfl

theorem Moved.trans (h : Moved taken given counts counts')
    (h' : Moved taken' given' counts' counts'') :
    Moved (taken ++ taken') (given ++ given') counts counts'' := by
  intro i
  have hfirst := h i
  have hsecond := h' i
  rw [List.count_append, List.count_append]
  omega

theorem moved_acquire {i : ι} (h : (acquire i : Counted ι ε Unit) counts = .ok ((), counts')) :
    Moved [i] [] counts counts' := by
  cases h
  intro j
  rw [List.count_nil, Nat.add_zero, List.count_singleton]
  by_cases heq : j = i
  · subst heq
    simp
  · simp [Ne.symm heq, Function.update_of_ne heq]

theorem moved_release {i : ι} (h : (release i : Counted ι ε Unit) counts = .ok ((), counts')) :
    Moved [] [i] counts counts' := by
  unfold release at h
  split at h
  next => cases h
  next hheld =>
    cases h
    intro j
    rw [List.count_nil, Nat.add_zero, List.count_singleton]
    by_cases heq : j = i
    · subst heq
      simp
      omega
    · simp [Ne.symm heq, Function.update_of_ne heq]

theorem Moved.cancel (both : List ι) (h : Moved (taken ++ both) (given ++ both) counts counts') :
    Moved taken given counts counts' := by
  intro i
  have hmoved := h i
  rw [List.count_append, List.count_append] at hmoved
  omega

/-- A computation that takes and gives back nothing in the end. -/
theorem moved_of_eq_lift {m : Counted ι ε α} {x : Except ε α} (heq : m = lift x)
    (h : m.after counts = some counts') : Moved [] [] counts counts' := by
  obtain ⟨a, hrun⟩ := after_eq_some_iff.mp h
  rw [heq] at hrun
  rw [(lift_eq_ok_iff.mp hrun).2]
  exact Moved.refl counts

theorem moved_of_eq_pure {m : Counted ι ε α} {a : α} (heq : m = pure a)
    (h : m.after counts = some counts') : Moved [] [] counts counts' :=
  moved_of_eq_lift (heq.trans (lift_ok a).symm) h

/-- A computation that begins by taking a reference. -/
theorem acquire_bind {i : ι} {k : Unit → Counted ι ε β} {r : β × (ι → Nat)}
    (h : (acquire i >>= k) counts = .ok r) :
    ∃ between, Moved [i] [] counts between ∧ k () between = .ok r := by
  obtain ⟨b, counts'⟩ := r
  obtain ⟨_, between, hacquire, hrest⟩ := bind_eq_ok_iff.mp h
  exact ⟨between, moved_acquire hacquire, hrest⟩

/-- A computation that begins by giving a reference back. -/
theorem release_bind {i : ι} {k : Unit → Counted ι ε β} {r : β × (ι → Nat)}
    (h : (release i >>= k) counts = .ok r) :
    ∃ between, Moved [] [i] counts between ∧ k () between = .ok r := by
  obtain ⟨b, counts'⟩ := r
  obtain ⟨_, between, hrelease, hrest⟩ := bind_eq_ok_iff.mp h
  exact ⟨between, moved_release hrelease, hrest⟩

/-- The numbers stay as they are exactly if what is given back is what is taken. -/
theorem Moved.eq_iff_perm (h : Moved taken given counts counts') :
    counts' = counts ↔ given.Perm taken := by
  rw [List.perm_iff_count, funext_iff]
  apply forall_congr'
  intro i
  have hmoved := h i
  omega

end References

end Counted
