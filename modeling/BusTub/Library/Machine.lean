import Mathlib.Data.List.Basic
import Mathlib.Tactic.Common

/-! # Machines, guarded runs and refinement

A machine performs one input at a time. A step either fails with a fault or
yields an output and a next state, so a run is determined by its inputs; an
interleaving of several parties is a run whose inputs name the party that
moves. The rules below package the inductions over runs: an invariant kept by
every step that meets a guard holds after every guarded run, and a relation
between two machines that matches their steps matches their outputs.
-/

universe u v w x y

/-- A machine with states `σ`, inputs `ι`, outputs `ο` and faults `ε`. -/
structure Machine (σ : Type u) (ι : Type v) (ο : Type w) (ε : Type x) where
  step : σ → ι → Except ε (ο × σ)

namespace Machine

variable {σ : Type u} {ι : Type v} {ο : Type w} {ε : Type x} {τ : Type y}
variable (m : Machine σ ι ο ε)

/-- Perform the inputs in order, collecting the outputs. -/
def run : σ → List ι → Except ε (List ο × σ)
  | state, [] => .ok ([], state)
  | state, input :: rest =>
      match m.step state input with
      | .error fault => .error fault
      | .ok (output, middle) =>
          match run middle rest with
          | .error fault => .error fault
          | .ok (outputs, final) => .ok (output :: outputs, final)

/-- The inputs lead from one state to the other without a fault. -/
def Reaches (state : σ) (inputs : List ι) (final : σ) : Prop :=
  ∃ outputs, m.run state inputs = .ok (outputs, final)

/-- Every step that the run takes meets the guard in the state it starts from. -/
def Guarded (guard : σ → ι → Prop) : σ → List ι → Prop
  | _, [] => True
  | state, input :: rest => guard state input ∧
      ∀ output middle, m.step state input = .ok (output, middle) → Guarded guard middle rest

variable {m}

@[simp] theorem run_nil (state : σ) : m.run state [] = .ok ([], state) := rfl

theorem run_cons_ok {state final : σ} {input : ι} {rest : List ι} {outputs : List ο}
    (hrun : m.run state (input :: rest) = .ok (outputs, final)) :
    ∃ output middle tail, m.step state input = .ok (output, middle) ∧
      m.run middle rest = .ok (tail, final) ∧ outputs = output :: tail := by
  simp only [run] at hrun
  split at hrun
  · cases hrun
  next output middle hstep =>
    split at hrun
    · cases hrun
    next tail last htail =>
      cases hrun
      exact ⟨output, middle, tail, hstep, htail, rfl⟩

theorem run_cons_of_step {state middle : σ} {input : ι} {output : ο}
    (hstep : m.step state input = .ok (output, middle)) (rest : List ι) :
    m.run state (input :: rest) = match m.run middle rest with
      | .error fault => .error fault
      | .ok (outputs, final) => .ok (output :: outputs, final) := by
  simp only [run, hstep]

@[simp] theorem reaches_nil {state final : σ} : m.Reaches state [] final ↔ final = state := by
  constructor
  · rintro ⟨outputs, hrun⟩
    simp only [run_nil, Except.ok.injEq, Prod.mk.injEq] at hrun
    exact hrun.2.symm
  · rintro rfl
    exact ⟨[], rfl⟩

theorem reaches_cons {state final : σ} {input : ι} {rest : List ι} :
    m.Reaches state (input :: rest) final ↔ ∃ output middle,
      m.step state input = .ok (output, middle) ∧ m.Reaches middle rest final := by
  constructor
  · rintro ⟨outputs, hrun⟩
    obtain ⟨output, middle, tail, hstep, htail, -⟩ := run_cons_ok hrun
    exact ⟨output, middle, hstep, tail, htail⟩
  · rintro ⟨output, middle, hstep, tail, htail⟩
    exact ⟨output :: tail, by rw [run_cons_of_step hstep, htail]⟩

theorem reaches_append {state final : σ} {first second : List ι} :
    m.Reaches state (first ++ second) final ↔
      ∃ middle, m.Reaches state first middle ∧ m.Reaches middle second final := by
  induction first generalizing state with
  | nil => simp
  | cons input rest ih =>
      simp only [List.cons_append, reaches_cons, ih]
      constructor
      · rintro ⟨output, middle, hstep, last, hrest, hsecond⟩
        exact ⟨last, ⟨output, middle, hstep, hrest⟩, hsecond⟩
      · rintro ⟨last, ⟨output, middle, hstep, hrest⟩, hsecond⟩
        exact ⟨output, middle, hstep, last, hrest, hsecond⟩

theorem Reaches.unique {state final final' : σ} {inputs : List ι}
    (hfirst : m.Reaches state inputs final) (hsecond : m.Reaches state inputs final') :
    final = final' := by
  obtain ⟨outputs, hrun⟩ := hfirst
  obtain ⟨outputs', hrun'⟩ := hsecond
  rw [hrun] at hrun'
  cases hrun'
  rfl

theorem guarded_cons_of_step {guard : σ → ι → Prop} {state middle : σ} {input : ι} {output : ο}
    (hstep : m.step state input = .ok (output, middle)) (rest : List ι) :
    m.Guarded guard state (input :: rest) ↔ guard state input ∧ m.Guarded guard middle rest := by
  constructor
  · exact fun hguard => ⟨hguard.1, hguard.2 output middle hstep⟩
  · rintro ⟨hinput, hrest⟩
    refine ⟨hinput, ?_⟩
    intro output' middle' hstep'
    rw [hstep] at hstep'
    cases hstep'
    exact hrest

/-- Whether a run meets a guard can be computed when the guard can. -/
instance decidableGuarded {guard : σ → ι → Prop} [∀ state input, Decidable (guard state input)] :
    ∀ state inputs, Decidable (m.Guarded guard state inputs)
  | _, [] => isTrue trivial
  | state, input :: rest =>
      match hstep : m.step state input with
      | .error _ => decidable_of_iff (guard state input)
          ⟨fun hinput => ⟨hinput, fun _ _ hok => nomatch hstep.symm.trans hok⟩, And.left⟩
      | .ok (_, middle) =>
          have : Decidable (m.Guarded guard middle rest) := decidableGuarded middle rest
          decidable_of_iff (guard state input ∧ m.Guarded guard middle rest)
            (guarded_cons_of_step hstep rest).symm

theorem guarded_append {guard : σ → ι → Prop} {state middle : σ} {first second : List ι}
    (hguard : m.Guarded guard state (first ++ second)) (hfirst : m.Reaches state first middle) :
    m.Guarded guard state first ∧ m.Guarded guard middle second := by
  induction first generalizing state with
  | nil =>
      rw [reaches_nil] at hfirst
      subst hfirst
      exact ⟨trivial, hguard⟩
  | cons input rest ih =>
      obtain ⟨output, next, hstep, hrest⟩ := reaches_cons.mp hfirst
      refine ⟨⟨hguard.1, ?_⟩, (ih (hguard.2 output next hstep) hrest).2⟩
      intro output' next' hstep'
      rw [hstep] at hstep'
      cases hstep'
      exact (ih (hguard.2 output next hstep) hrest).1

theorem guarded_append_of {guard : σ → ι → Prop} {state middle : σ} {first second : List ι}
    (hguard : m.Guarded guard state first) (hfirst : m.Reaches state first middle)
    (hsecond : m.Guarded guard middle second) : m.Guarded guard state (first ++ second) := by
  induction first generalizing state with
  | nil =>
      rw [reaches_nil] at hfirst
      exact hfirst ▸ hsecond
  | cons input rest ih =>
      obtain ⟨output, next, hstep, hrest⟩ := reaches_cons.mp hfirst
      exact (guarded_cons_of_step hstep _).mpr ⟨hguard.1, ih (hguard.2 output next hstep) hrest⟩

theorem run_append {state middle final : σ} {first second : List ι} {outputs tail : List ο}
    (hfirst : m.run state first = .ok (outputs, middle))
    (hsecond : m.run middle second = .ok (tail, final)) :
    m.run state (first ++ second) = .ok (outputs ++ tail, final) := by
  induction first generalizing state outputs with
  | nil =>
      simp only [run_nil, Except.ok.injEq, Prod.mk.injEq] at hfirst
      obtain ⟨rfl, rfl⟩ := hfirst
      exact hsecond
  | cons input rest ih =>
      obtain ⟨output, next, rest', hstep, hrest, rfl⟩ := run_cons_ok hfirst
      rw [List.cons_append, run_cons_of_step hstep, ih hrest, List.cons_append]

theorem Guarded.mono {guard weaker : σ → ι → Prop}
    (himp : ∀ state input, guard state input → weaker state input)
    {state : σ} {inputs : List ι} (hguard : m.Guarded guard state inputs) :
    m.Guarded weaker state inputs := by
  induction inputs generalizing state with
  | nil => trivial
  | cons input rest ih =>
      refine ⟨himp state input hguard.1, ?_⟩
      intro output middle hstep
      exact ih (hguard.2 output middle hstep)

theorem Guarded.and {guard other : σ → ι → Prop} {state : σ} {inputs : List ι}
    (hguard : m.Guarded guard state inputs) (hother : m.Guarded other state inputs) :
    m.Guarded (fun state input => guard state input ∧ other state input) state inputs := by
  induction inputs generalizing state with
  | nil => trivial
  | cons input rest ih =>
      exact ⟨⟨hguard.1, hother.1⟩,
        fun output middle hstep => ih (hguard.2 output middle hstep) (hother.2 output middle hstep)⟩

/-- The invariant rule: what every guarded step keeps, a guarded run keeps. -/
theorem Reaches.invariant {guard : σ → ι → Prop} (invariant : σ → Prop)
    (hkeep : ∀ state input output next, invariant state → guard state input →
      m.step state input = .ok (output, next) → invariant next)
    {state final : σ} {inputs : List ι} (hreach : m.Reaches state inputs final)
    (hguard : m.Guarded guard state inputs) (hinit : invariant state) : invariant final := by
  induction inputs generalizing state with
  | nil =>
      rw [reaches_nil] at hreach
      exact hreach ▸ hinit
  | cons input rest ih =>
      obtain ⟨output, middle, hstep, hrest⟩ := reaches_cons.mp hreach
      exact ih hrest (hguard.2 output middle hstep)
        (hkeep state input output middle hinit hguard.1 hstep)

/-- The history rule: what holds of the empty run and stays true with one input more
holds of every run. -/
theorem Reaches.history {state : σ} (property : List ι → σ → Prop) (hinit : property [] state)
    (hkeep : ∀ before middle input output next, m.Reaches state before middle →
      property before middle → m.step middle input = .ok (output, next) →
      property (before ++ [input]) next)
    {final : σ} {inputs : List ι} (hreach : m.Reaches state inputs final) :
    property inputs final := by
  have hall : ∀ rest before middle, m.Reaches state before middle → property before middle →
      m.Reaches middle rest final → property (before ++ rest) final := by
    intro rest
    induction rest with
    | nil =>
        intro before middle _ hmiddle hrest
        rw [reaches_nil] at hrest
        rwa [List.append_nil, hrest]
    | cons input rest ih =>
        intro before middle hbefore hmiddle hrest
        obtain ⟨output, next, hstep, hlast⟩ := reaches_cons.mp hrest
        have hone : m.Reaches middle [input] next :=
          reaches_cons.mpr ⟨output, next, hstep, reaches_nil.mpr rfl⟩
        have hnext := ih (before ++ [input]) next (reaches_append.mpr ⟨middle, hbefore, hone⟩)
          (hkeep before middle input output next hbefore hmiddle hstep) hlast
        rwa [List.append_assoc] at hnext
  exact hall inputs [] state (reaches_nil.mpr rfl) hinit hreach

/-- Every run meets a guard that all inputs meet. -/
theorem guarded_of_forall {guard : σ → ι → Prop} (hall : ∀ state input, guard state input)
    (state : σ) (inputs : List ι) : m.Guarded guard state inputs := by
  induction inputs generalizing state with
  | nil => trivial
  | cons input rest ih => exact ⟨hall state input, fun _ middle _ => ih middle⟩

/-- What is true of each input is met by every run of them. -/
theorem guarded_of_forall_mem {allowed : ι → Prop} (state : σ) {inputs : List ι}
    (hall : ∀ input ∈ inputs, allowed input) : m.Guarded (fun _ => allowed) state inputs := by
  induction inputs generalizing state with
  | nil => trivial
  | cons input rest ih =>
      obtain ⟨hinput, hrest⟩ := List.forall_mem_cons.mp hall
      exact ⟨hinput, fun _ middle _ => ih middle hrest⟩

/-- What every step keeps, every run keeps. -/
theorem Reaches.invariant_of_step (invariant : σ → Prop)
    (hkeep : ∀ state input output next, invariant state →
      m.step state input = .ok (output, next) → invariant next)
    {state final : σ} {inputs : List ι} (hreach : m.Reaches state inputs final)
    (hinit : invariant state) : invariant final := by
  have hall : m.Guarded (fun _ _ => True) state inputs :=
    guarded_of_forall (fun _ _ => trivial) state inputs
  refine hreach.invariant invariant ?_ hall hinit
  intro state input output next h _ hstep
  exact hkeep state input output next h hstep

/-- A guard is met by a run when it is met by each input in the state the run has come to. -/
theorem guarded_iff_forall {guard : σ → ι → Prop} {state : σ} {inputs : List ι} :
    m.Guarded guard state inputs ↔ ∀ before input after middle,
      inputs = before ++ input :: after → m.Reaches state before middle → guard middle input := by
  constructor
  · rintro hguard before input after middle rfl hreach
    exact (guarded_append hguard hreach).2.1
  · intro hall
    induction inputs generalizing state with
    | nil => trivial
    | cons input rest ih =>
        refine ⟨hall [] input rest state rfl (reaches_nil.mpr rfl), ?_⟩
        intro output middle hstep
        apply ih
        intro before later after final hsplit hreach
        apply hall (input :: before) later after final
        · rw [hsplit, List.cons_append]
        · exact reaches_cons.mpr ⟨output, middle, hstep, hreach⟩

/-- The exact invariant rule: among the runs of allowed inputs, a guard that keeps the
invariant when it is met, and ends the property when it is not, is met throughout
exactly by those that have the property throughout. -/
theorem Reaches.guarded_iff_within {allowed guard : σ → ι → Prop} (invariant property : σ → Prop)
    (hproperty : ∀ state, invariant state → property state)
    (hkeep : ∀ state input output next, invariant state → allowed state input →
      guard state input → m.step state input = .ok (output, next) → invariant next)
    (hbreak : ∀ state input output next, invariant state → allowed state input →
      ¬ guard state input → m.step state input = .ok (output, next) → ¬ property next)
    {state final : σ} {inputs : List ι} (hreach : m.Reaches state inputs final)
    (hallowed : m.Guarded allowed state inputs) (hinit : invariant state) :
    (∀ before after middle, inputs = before ++ after → m.Reaches state before middle →
      property middle) ↔ m.Guarded guard state inputs := by
  constructor
  · intro hall
    induction inputs generalizing state with
    | nil => trivial
    | cons input rest ih =>
        obtain ⟨output, next, hstep, hrest⟩ := reaches_cons.mp hreach
        have hone : m.Reaches state [input] next :=
          reaches_cons.mpr ⟨output, next, hstep, reaches_nil.mpr rfl⟩
        have hinput : guard state input := by
          by_contra hnot
          exact hbreak state input output next hinit hallowed.1 hnot hstep
            (hall [input] rest next rfl hone)
        refine (guarded_cons_of_step hstep rest).mpr ⟨hinput, ?_⟩
        refine ih hrest (hallowed.2 output next hstep)
          (hkeep state input output next hinit hallowed.1 hinput hstep) ?_
        intro before after middle hsplit hbefore
        refine hall (input :: before) after middle (by rw [hsplit, List.cons_append]) ?_
        exact reaches_cons.mpr ⟨output, next, hstep, hbefore⟩
  · intro hguard before after middle hsplit hbefore
    subst hsplit
    obtain ⟨hbeforeGuard, -⟩ := guarded_append hguard hbefore
    obtain ⟨hbeforeAllowed, -⟩ := guarded_append hallowed hbefore
    apply hproperty
    refine hbefore.invariant invariant ?_ (hbeforeAllowed.and hbeforeGuard) hinit
    rintro state input output next hstate ⟨hinput, hmet⟩ hstep
    exact hkeep state input output next hstate hinput hmet hstep

theorem Reaches.guarded_iff {guard : σ → ι → Prop} (invariant property : σ → Prop)
    (hproperty : ∀ state, invariant state → property state)
    (hkeep : ∀ state input output next, invariant state → guard state input →
      m.step state input = .ok (output, next) → invariant next)
    (hbreak : ∀ state input output next, invariant state → ¬ guard state input →
      m.step state input = .ok (output, next) → ¬ property next)
    {state final : σ} {inputs : List ι} (hreach : m.Reaches state inputs final)
    (hinit : invariant state) :
    (∀ before after middle, inputs = before ++ after → m.Reaches state before middle →
      property middle) ↔ m.Guarded guard state inputs := by
  have hallowed : m.Guarded (fun _ _ => True) state inputs :=
    guarded_of_forall (fun _ _ => trivial) state inputs
  refine hreach.guarded_iff_within invariant property hproperty ?_ ?_ hallowed hinit
  · intro state input output next hstate _ hinput hstep
    exact hkeep state input output next hstate hinput hstep
  · intro state input output next hstate _ hinput hstep
    exact hbreak state input output next hstate hinput hstep

/-- The exact rule for faults: when a step goes through just if it meets the guard, the
runs without a fault are the guarded ones. -/
theorem exists_reaches_iff_guarded {guard : σ → ι → Prop} (invariant : σ → Prop)
    (hkeep : ∀ state input output next, invariant state →
      m.step state input = .ok (output, next) → invariant next)
    (hexact : ∀ state input, invariant state →
      ((∃ output next, m.step state input = .ok (output, next)) ↔ guard state input))
    {state : σ} (inputs : List ι) (hinit : invariant state) :
    (∃ final, m.Reaches state inputs final) ↔ m.Guarded guard state inputs := by
  induction inputs generalizing state with
  | nil => exact ⟨fun _ => trivial, fun _ => ⟨state, reaches_nil.mpr rfl⟩⟩
  | cons input rest ih =>
      constructor
      · rintro ⟨final, hreach⟩
        obtain ⟨output, middle, hstep, hrest⟩ := reaches_cons.mp hreach
        refine (guarded_cons_of_step hstep rest).mpr ⟨(hexact state input hinit).mp
          ⟨output, middle, hstep⟩, ?_⟩
        exact (ih (hkeep state input output middle hinit hstep)).mp ⟨final, hrest⟩
      · intro hguard
        obtain ⟨output, middle, hstep⟩ := (hexact state input hinit).mpr hguard.1
        obtain ⟨final, hrest⟩ := (ih (hkeep state input output middle hinit hstep)).mpr
          (hguard.2 output middle hstep)
        exact ⟨final, reaches_cons.mpr ⟨output, middle, hstep, hrest⟩⟩

theorem run_append_error {state middle : σ} {first second : List ι} {fault : ε}
    (hfirst : m.Reaches state first middle) (hsecond : m.run middle second = .error fault) :
    m.run state (first ++ second) = .error fault := by
  induction first generalizing state with
  | nil =>
      rw [reaches_nil] at hfirst
      exact hfirst ▸ hsecond
  | cons input rest ih =>
      obtain ⟨output, next, hstep, hrest⟩ := reaches_cons.mp hfirst
      rw [List.cons_append, run_cons_of_step hstep, ih hrest]

/-- Nothing comes after a fault. -/
theorem run_append_of_error {state : σ} {first : List ι} {fault : ε}
    (hfirst : m.run state first = .error fault) (second : List ι) :
    m.run state (first ++ second) = .error fault := by
  induction first generalizing state with
  | nil => cases hfirst
  | cons input rest ih =>
      rw [List.cons_append]
      cases hstep : m.step state input with
      | error fault' =>
          simp only [run, hstep] at hfirst ⊢
          exact hfirst
      | ok result =>
          obtain ⟨output, middle⟩ := result
          rw [run_cons_of_step hstep] at hfirst ⊢
          cases hrest : m.run middle rest with
          | error fault' =>
              rw [hrest] at hfirst
              cases hfirst
              rw [ih hrest]
          | ok result =>
              rw [hrest] at hfirst
              cases hfirst

/-- A run ends well: with a fault that is allowed, or in a state that has the property. -/
structure EndsWell (m : Machine σ ι ο ε) (allowed : ε → Prop) (property : List ι → σ → Prop)
    (start : σ) (inputs : List ι) : Prop where
  fault : ∀ fault, m.run start inputs = .error fault → allowed fault
  final : ∀ final, m.Reaches start inputs final → property inputs final

theorem EndsWell.of_error {allowed : ε → Prop} {property : List ι → σ → Prop} {start : σ}
    {inputs : List ι} {fault : ε} (hrun : m.run start inputs = .error fault)
    (hallowed : allowed fault) : m.EndsWell allowed property start inputs := by
  constructor
  · intro fault' hrun'
    rw [hrun] at hrun'
    cases hrun'
    exact hallowed
  · rintro final ⟨outputs, hok⟩
    rw [hrun] at hok
    cases hok

theorem EndsWell.of_reaches {allowed : ε → Prop} {property : List ι → σ → Prop} {start final : σ}
    {inputs : List ι} (hreach : m.Reaches start inputs final) (hfinal : property inputs final) :
    m.EndsWell allowed property start inputs := by
  constructor
  · intro fault hrun
    obtain ⟨outputs, hok⟩ := hreach
    rw [hok] at hrun
    cases hrun
  · intro final' hreach'
    exact hreach.unique hreach' ▸ hfinal

/-- A step ends in a fault or in a state with the given properties. -/
def StepEnds (m : Machine σ ι ο ε) (onFault : ε → Prop) (onNext : σ → Prop) (state : σ)
    (input : ι) : Prop :=
  match m.step state input with
  | .error fault => onFault fault
  | .ok (_, next) => onNext next

theorem StepEnds.of_error {onFault : ε → Prop} {onNext : σ → Prop} {state : σ} {input : ι}
    {fault : ε} (h : m.StepEnds onFault onNext state input)
    (hstep : m.step state input = .error fault) : onFault fault := by
  unfold StepEnds at h
  rw [hstep] at h
  exact h

theorem StepEnds.of_ok {onFault : ε → Prop} {onNext : σ → Prop} {state next : σ} {input : ι}
    {output : ο} (h : m.StepEnds onFault onNext state input)
    (hstep : m.step state input = .ok (output, next)) : onNext next := by
  unfold StepEnds at h
  rw [hstep] at h
  exact h

section Prefixes

variable {guard : σ → ι → Prop} {allowed : ε → Prop} {used : ι → Prop} {start : σ}
  (invariant property : List ι → σ → Prop)
  (hproperty : ∀ done state, invariant done state → property done state)
  (hkeep : ∀ done state input, invariant done state → used input → guard state input →
    m.StepEnds allowed (invariant (done ++ [input])) state input)
  (hbreak : ∀ done state input, invariant done state → used input → ¬ guard state input →
    m.StepEnds (fun fault => ¬ allowed fault) (fun next => ¬ property (done ++ [input]) next)
      state input)

include hproperty hkeep hbreak

/-- The rule for prefixes from a state on that the run has reached. -/
theorem endsWell_extensions_iff {done rest : List ι} {state : σ}
    (hused : ∀ input ∈ rest, used input) (hreach : m.Reaches start done state)
    (hinvariant : invariant done state) :
    (∀ before, before <+: rest → m.EndsWell allowed property start (done ++ before)) ↔
      m.Guarded guard state rest := by
  induction rest generalizing done state with
  | nil =>
      refine iff_of_true ?_ trivial
      intro before hbefore
      rw [List.prefix_nil.mp hbefore, List.append_nil]
      exact .of_reaches hreach (hproperty done state hinvariant)
  | cons input rest ih =>
      obtain ⟨hinput, hrest⟩ := List.forall_mem_cons.mp hused
      have hstop := hkeep done state input hinvariant hinput
      have hbad := hbreak done state input hinvariant hinput
      have hdone : m.EndsWell allowed property start (done ++ []) := by
        rw [List.append_nil]
        exact .of_reaches hreach (hproperty done state hinvariant)
      cases hstep : m.step state input with
      | error fault =>
          -- every longer prefix ends in the fault of this step
          have hrun : ∀ before, m.run start (done ++ input :: before) = .error fault := by
            intro before
            apply run_append_error hreach
            simp only [run, hstep]
          constructor
          · intro hends
            refine ⟨?_, ?_⟩
            · by_contra hguard
              have hone := hends [input] (List.prefix_append [input] rest)
              exact (hbad hguard).of_error hstep (hone.fault fault (hrun []))
            · intro output next hok
              rw [hstep] at hok
              cases hok
          · intro hguard before hbefore
            rcases List.prefix_cons_iff.mp hbefore with rfl | ⟨before, rfl, -⟩
            · exact hdone
            · exact .of_error (hrun before) ((hstop hguard.1).of_error hstep)
      | ok result =>
          obtain ⟨output, next⟩ := result
          have hone : m.Reaches start (done ++ [input]) next :=
            reaches_append.mpr ⟨state, hreach,
              reaches_cons.mpr ⟨output, next, hstep, reaches_nil.mpr rfl⟩⟩
          have hnext := ih hrest hone
          rw [guarded_cons_of_step hstep rest]
          constructor
          · intro hends
            have hguard : guard state input := by
              by_contra hguard
              have hone' := hends [input] (List.prefix_append [input] rest)
              exact (hbad hguard).of_ok hstep (hone'.final next hone)
            refine ⟨hguard, (hnext ((hstop hguard).of_ok hstep)).mp ?_⟩
            intro before hbefore
            rw [List.append_assoc]
            exact hends (input :: before) ((List.prefix_cons_inj input).mpr hbefore)
          · rintro ⟨hguard, hafter⟩ before hbefore
            rcases List.prefix_cons_iff.mp hbefore with rfl | ⟨before, rfl, htail⟩
            · exact hdone
            · have hends := (hnext ((hstop hguard).of_ok hstep)).mpr hafter before htail
              rw [List.append_assoc] at hends
              exact hends

/-- The exact rule for prefixes: when the steps that meet the guard end well and keep an
invariant of the inputs, and the others do not end well, all prefixes of a run end well just
if it is guarded. -/
theorem endsWell_prefixes_iff {inputs : List ι} (hused : ∀ input ∈ inputs, used input)
    (hinit : invariant [] start) :
    (∀ before, before <+: inputs → m.EndsWell allowed property start before) ↔
      m.Guarded guard start inputs :=
  endsWell_extensions_iff invariant property hproperty hkeep hbreak hused (reaches_nil.mpr rfl)
    hinit

end Prefixes

/-- The refinement rule for machines that may stop: when every guarded step of the
concrete machine stops with the one fault or is matched by a step of the abstract
one, so does a run. -/
theorem run_stops_or_refines {abstract : Machine τ ι ο ε} {guard : σ → ι → Prop} {fault : ε}
    (related : σ → τ → Prop)
    (hmatch : ∀ state spec input, related state spec → guard state input →
      m.step state input = .error fault ∨
      ∃ output next specNext, m.step state input = .ok (output, next) ∧
        abstract.step spec input = .ok (output, specNext) ∧ related next specNext)
    {state : σ} {spec : τ} {inputs : List ι} (hguard : m.Guarded guard state inputs)
    (hrel : related state spec) :
    m.run state inputs = .error fault ∨
      ∃ outputs final specFinal, m.run state inputs = .ok (outputs, final) ∧
        abstract.run spec inputs = .ok (outputs, specFinal) ∧ related final specFinal := by
  induction inputs generalizing state spec with
  | nil => exact Or.inr ⟨[], state, spec, rfl, rfl, hrel⟩
  | cons input rest ih =>
      rcases hmatch state spec input hrel hguard.1 with hstop |
        ⟨output, next, specNext, hstep, hspec, hnext⟩
      · left
        simp only [run, hstop]
      · rcases ih (hguard.2 output next hstep) hnext with hstop |
          ⟨outputs, final, specFinal, hrun, hspecRun, hfinal⟩
        · left
          rw [run_cons_of_step hstep, hstop]
        · right
          refine ⟨output :: outputs, final, specFinal, ?_, ?_, hfinal⟩
          · rw [run_cons_of_step hstep, hrun]
          · rw [run_cons_of_step hspec, hspecRun]

/-- The exact rule for refinements: when a step of the concrete machine goes through just if the
abstract one's input meets a guard, and then with the same output, so does a run. -/
theorem run_ok_iff_guarded {abstract : Machine τ ι ο ε} {guard : τ → ι → Prop}
    (related : σ → τ → Prop) {used : ι → Prop}
    (hmatch : ∀ state spec input output specNext, related state spec → used input →
      abstract.step spec input = .ok (output, specNext) → guard spec input →
      ∃ next, m.step state input = .ok (output, next) ∧ related next specNext)
    (hstop : ∀ state spec input, related state spec → used input → ¬ guard spec input →
      ∃ fault, m.step state input = .error fault)
    {state : σ} {spec specFinal : τ} {inputs : List ι} {outputs : List ο}
    (hused : ∀ input ∈ inputs, used input)
    (hspec : abstract.run spec inputs = .ok (outputs, specFinal)) (hrel : related state spec) :
    (∃ final, m.run state inputs = .ok (outputs, final)) ↔ abstract.Guarded guard spec inputs := by
  induction inputs generalizing state spec outputs with
  | nil =>
      cases hspec
      exact ⟨fun _ => trivial, fun _ => ⟨state, rfl⟩⟩
  | cons input rest ih =>
      obtain ⟨hinput, hrest⟩ := List.forall_mem_cons.mp hused
      obtain ⟨output, specMiddle, tail, hspecStep, hspecTail, rfl⟩ := run_cons_ok hspec
      rw [guarded_cons_of_step hspecStep]
      constructor
      · rintro ⟨final, hrun⟩
        obtain ⟨output', middle, tail', hstep, htail, heq⟩ := run_cons_ok hrun
        have hguard : guard spec input := by
          by_contra hnot
          obtain ⟨fault, hfault⟩ := hstop state spec input hrel hinput hnot
          rw [hfault] at hstep
          cases hstep
        obtain ⟨next, hnext, hmiddle⟩ :=
          hmatch state spec input output specMiddle hrel hinput hspecStep hguard
        rw [hstep] at hnext
        cases hnext
        cases heq
        exact ⟨hguard, (ih hrest hspecTail hmiddle).mp ⟨final, htail⟩⟩
      · rintro ⟨hguard, htail⟩
        obtain ⟨next, hnext, hmiddle⟩ :=
          hmatch state spec input output specMiddle hrel hinput hspecStep hguard
        obtain ⟨final, hfinal⟩ := (ih hrest hspecTail hmiddle).mpr htail
        exact ⟨final, by rw [run_cons_of_step hnext, hfinal]⟩

/-- The exact rule for outputs: when a step whose abstract input meets the guard keeps a relation
between outputs and states, and the others end a property of them, it holds of all prefixes
of a run just if the abstract run is guarded. -/
theorem prefixes_iff_guarded {ο' : Type*} {ε' : Type*} {abstract : Machine τ ι ο' ε'}
    {guard : τ → ι → Prop} (related : List ο → σ → τ → Prop) (property : List ο → σ → Prop)
    (hproperty : ∀ done state spec, related done state spec → property done state)
    (hmatch : ∀ done state spec input output next, related done state spec → guard spec input →
      m.step state input = .ok (output, next) → ∃ output' specNext,
        abstract.step spec input = .ok (output', specNext) ∧
          related (done ++ [output]) next specNext)
    (hbreak : ∀ done state spec input output next, related done state spec →
      ¬ guard spec input → m.step state input = .ok (output, next) →
        ¬ property (done ++ [output]) next)
    {done outputs : List ο} {state final : σ} {spec : τ} {inputs : List ι}
    (hrun : m.run state inputs = .ok (outputs, final)) (hrel : related done state spec) :
    (∀ before after seen middle, inputs = before ++ after →
      m.run state before = .ok (seen, middle) → property (done ++ seen) middle) ↔
        abstract.Guarded guard spec inputs := by
  induction inputs generalizing done state spec outputs with
  | nil =>
      refine ⟨fun _ => trivial, ?_⟩
      intro _ before after seen middle hsplit hbefore
      obtain ⟨rfl, rfl⟩ := List.append_eq_nil_iff.mp hsplit.symm
      cases hbefore
      rw [List.append_nil]
      exact hproperty done state spec hrel
  | cons input rest ih =>
      obtain ⟨output, middle, tail, hstep, htail, rfl⟩ := run_cons_ok hrun
      have hone : m.run state [input] = .ok ([output], middle) := run_cons_of_step hstep []
      constructor
      · intro hall
        have hguard : guard spec input := by
          by_contra hnot
          exact hbreak done state spec input output middle hrel hnot hstep
            (hall [input] rest [output] middle rfl hone)
        obtain ⟨output', specNext, hspec, hnext⟩ :=
          hmatch done state spec input output middle hrel hguard hstep
        refine (guarded_cons_of_step hspec rest).mpr ⟨hguard, (ih htail hnext).mp ?_⟩
        intro before after seen last hsplit hbefore
        rw [List.append_assoc]
        refine hall (input :: before) after _ last (by rw [hsplit, List.cons_append]) ?_
        rw [run_cons_of_step hstep, hbefore]
        rfl
      · rintro ⟨hguard, hrest⟩ before after seen last hsplit hbefore
        cases before with
        | nil =>
            cases hbefore
            rw [List.append_nil]
            exact hproperty done state spec hrel
        | cons first before =>
            obtain ⟨rfl, rfl⟩ := List.cons.inj hsplit
            obtain ⟨output', specNext, hspec, hnext⟩ :=
              hmatch done state spec input output middle hrel hguard hstep
            obtain ⟨output'', middle', seen', hstep', hseen, rfl⟩ := run_cons_ok hbefore
            rw [hstep] at hstep'
            cases hstep'
            have hlast := (ih htail hnext).mpr (hrest output' specNext hspec) before after seen'
              last rfl hseen
            rwa [List.append_assoc] at hlast

/-- The agreement rule: when both machines take every step alike, and none that
meets the guard is a fault, they agree on every run. -/
theorem run_agrees {abstract : Machine τ ι ο ε} {guard : τ → ι → Prop} (related : σ → τ → Prop)
    (hmatch : ∀ state spec input, related state spec →
      (¬ guard spec input ∧
        ∃ fault, m.step state input = .error fault ∧ abstract.step spec input = .error fault) ∨
      ∃ output next specNext, m.step state input = .ok (output, next) ∧
        abstract.step spec input = .ok (output, specNext) ∧ related next specNext)
    {state : σ} {spec : τ} (inputs : List ι) (hrel : related state spec) :
    (¬ abstract.Guarded guard spec inputs ∧
      ∃ fault, m.run state inputs = .error fault ∧ abstract.run spec inputs = .error fault) ∨
    ∃ outputs final specFinal, m.run state inputs = .ok (outputs, final) ∧
      abstract.run spec inputs = .ok (outputs, specFinal) ∧ related final specFinal := by
  induction inputs generalizing state spec with
  | nil => exact Or.inr ⟨[], state, spec, rfl, rfl, hrel⟩
  | cons input rest ih =>
      rcases hmatch state spec input hrel with ⟨hguard, fault, hstop, hspecStop⟩ |
        ⟨output, next, specNext, hstep, hspec, hnext⟩
      · refine Or.inl ⟨fun hall => hguard hall.1, fault, ?_, ?_⟩
        · simp only [run, hstop]
        · simp only [run, hspecStop]
      · rcases ih hnext with ⟨hguard, fault, hstop, hspecStop⟩ |
          ⟨outputs, final, specFinal, hrun, hspecRun, hfinal⟩
        · refine Or.inl ⟨fun hall => hguard (hall.2 output specNext hspec), fault, ?_, ?_⟩
          · rw [run_cons_of_step hstep, hstop]
          · rw [run_cons_of_step hspec, hspecStop]
        · refine Or.inr ⟨output :: outputs, final, specFinal, ?_, ?_, hfinal⟩
          · rw [run_cons_of_step hstep, hrun]
          · rw [run_cons_of_step hspec, hspecRun]

end Machine
