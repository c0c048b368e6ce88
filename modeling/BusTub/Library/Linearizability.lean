import BusTub.Library.Machine
import Mathlib.Logic.Function.Basic

/-! # Linearizability

Parties share an object, and their calls of it overlap. A history of calls and returns
linearizes if each call can be given one moment, after its beginning and before its return, in
which it takes effect, so that the effects in their order are a run of the object on its own.
What the object does is a relation, since it may have a choice. An implementation linearizes
when each of its steps is matched by such moments.
-/

universe u v w x y

namespace Linearizability

/-- What can be seen of the calls. -/
inductive Event (P : Type u) (ι : Type v) (ο : Type w) where
  | call (party : P) (input : ι)
  | ret (party : P) (output : ο)

/-- An entry of a history in which the effects are marked. -/
inductive Mark (P : Type u) (ι : Type v) (ο : Type w) where
  | seen (event : Event P ι ο)
  | effect (party : P) (input : ι) (output : ο)

/-- How far the call of a party has come. -/
inductive Progress (ι : Type v) (ο : Type w) where
  | idle
  /-- It has not taken effect yet. -/
  | pending (input : ι)
  | effected (output : ο)

/-- The object with the calls that are under way. -/
structure Shared (P : Type u) (ι : Type v) (ο : Type w) (σ : Type x) where
  object : σ
  calls : P → Progress ι ο

variable {P : Type u} {ι : Type v} {ο : Type w} {σ : Type x} {ε : Type y}

/-- The history without its marks. -/
def history (marks : List (Mark P ι ο)) : List (Event P ι ο) :=
  marks.filterMap fun
    | .seen event => some event
    | .effect _ _ _ => none

/-- What a machine does. -/
def Performs (m : Machine σ ι ο ε) (s : σ) (input : ι) (output : ο) (next : σ) : Prop :=
  m.step s input = .ok (output, next)

variable [DecidableEq P]

namespace Shared

/-- The call of the party has come that far. -/
def setCall (s : Shared P ι ο σ) (p : P) (progress : Progress ι ο) : Shared P ι ο σ :=
  { s with calls := Function.update s.calls p progress }

end Shared

/-- The marked history leads from one state to the other: every party calls, takes effect once
and returns what its effect put out. -/
inductive Linearizes (spec : σ → ι → ο → σ → Prop) :
    Shared P ι ο σ → List (Mark P ι ο) → Shared P ι ο σ → Prop where
  | nil (s : Shared P ι ο σ) : Linearizes spec s [] s
  | call {s final : Shared P ι ο σ} {p : P} {input : ι} {marks : List (Mark P ι ο)}
      (hidle : s.calls p = .idle)
      (hrest : Linearizes spec (s.setCall p (.pending input)) marks final) :
      Linearizes spec s (.seen (.call p input) :: marks) final
  | effect {s final : Shared P ι ο σ} {p : P} {input : ι} {output : ο} {object : σ}
      {marks : List (Mark P ι ο)} (hpending : s.calls p = .pending input)
      (heffect : spec s.object input output object)
      (hrest : Linearizes spec ({ s with object }.setCall p (.effected output)) marks final) :
      Linearizes spec s (.effect p input output :: marks) final
  | ret {s final : Shared P ι ο σ} {p : P} {output : ο} {marks : List (Mark P ι ο)}
      (heffected : s.calls p = .effected output)
      (hrest : Linearizes spec (s.setCall p .idle) marks final) :
      Linearizes spec s (.seen (.ret p output) :: marks) final

variable {spec : σ → ι → ο → σ → Prop} {s middle final : Shared P ι ο σ}
  {first second marks : List (Mark P ι ο)}

theorem Linearizes.append (hfirst : Linearizes spec s first middle)
    (hsecond : Linearizes spec middle second final) :
    Linearizes spec s (first ++ second) final := by
  induction hfirst with
  | nil s => exact hsecond
  | call hidle _ ih => exact .call hidle (ih hsecond)
  | effect hpending heffect _ ih => exact .effect hpending heffect (ih hsecond)
  | ret heffected _ ih => exact .ret heffected (ih hsecond)

section Simulation

variable {τ : Type*} {κ : Type*} {ο' : Type*} {ε' : Type*} {m : Machine τ κ ο' ε'}

/-- The marks of one step of an implementation. -/
def Matched (spec : σ → ι → ο → σ → Prop) (related : τ → Shared P ι ο σ → Prop) (s : Shared P ι ο σ)
    (seen : Option (Event P ι ο)) (next : τ) : Prop :=
  ∃ marks final, Linearizes spec s marks final ∧ history marks = seen.toList ∧ related next final

variable {related : τ → Shared P ι ο σ → Prop} {next : τ} {p : P} {input : ι} {output : ο}

theorem Matched.stutter (h : related next s) : Matched spec related s none next :=
  ⟨[], s, .nil s, rfl, h⟩

theorem Matched.call (hidle : s.calls p = .idle) (h : related next (s.setCall p (.pending input))) :
    Matched spec related s (some (.call p input)) next :=
  ⟨[.seen (.call p input)], _, .call hidle (.nil _), rfl, h⟩

theorem Matched.effect {object : σ} (hpending : s.calls p = .pending input)
    (heffect : spec s.object input output object)
    (h : related next ({ s with object }.setCall p (.effected output))) :
    Matched spec related s none next :=
  ⟨[.effect p input output], _, .effect hpending heffect (.nil _), rfl, h⟩

theorem Matched.ret (heffected : s.calls p = .effected output)
    (h : related next (s.setCall p .idle)) :
    Matched spec related s (some (.ret p output)) next :=
  ⟨[.seen (.ret p output)], _, .ret heffected (.nil _), rfl, h⟩

end Simulation

end Linearizability
