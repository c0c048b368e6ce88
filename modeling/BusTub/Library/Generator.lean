import Mathlib.Data.List.Basic
import Mathlib.Data.List.Forall2
import Mathlib.Tactic.Common

/-! # Generators

A generator is called again and again; each call yields an element or reports the
end, or stops with a fault. A filtering generator looks through rows for the next
one that passes a test; the rule below reduces draining it to a recursion over the
rows.
-/

universe u v w x

namespace Generator

variable {σ : Type u} {ε : Type v} {α : Type w} {ρ : Type x}

/-- Calls from the state yield the elements, one after the other, and then the end. -/
inductive Drains (next : σ → Except ε (Option α × σ)) : σ → List α → Prop
  | done {state final : σ} (hnext : next state = .ok (none, final)) : Drains next state []
  | step {state middle : σ} {a : α} {rest : List α} (hnext : next state = .ok (some a, middle))
      (hrest : Drains next middle rest) : Drains next state (a :: rest)

variable {next : σ → Except ε (Option α × σ)}

theorem drains_iff_of_none {state final : σ} {elements : List α}
    (hnext : next state = .ok (none, final)) : Drains next state elements ↔ elements = [] := by
  constructor
  · intro hdrains
    cases hdrains with
    | done => rfl
    | step hstep _ =>
        rw [hnext] at hstep
        cases hstep
  · rintro rfl
    exact .done hnext

theorem drains_iff_of_some {state middle : σ} {a : α} {elements : List α}
    (hnext : next state = .ok (some a, middle)) :
    Drains next state elements ↔ ∃ rest, elements = a :: rest ∧ Drains next middle rest := by
  constructor
  · intro hdrains
    cases hdrains with
    | done hstep =>
        rw [hnext] at hstep
        cases hstep
    | step hstep hrest =>
        rw [hnext] at hstep
        cases hstep
        exact ⟨_, rfl, hrest⟩
  · rintro ⟨rest, rfl, hrest⟩
    exact .step hnext hrest

theorem not_drains_of_error {state : σ} {fault : ε} {elements : List α}
    (hnext : next state = .error fault) : ¬ Drains next state elements := by
  intro hdrains
  cases hdrains with
  | done hstep =>
      rw [hnext] at hstep
      cases hstep
  | step hstep _ =>
      rw [hnext] at hstep
      cases hstep

theorem Drains.unique {state : σ} {elements elements' : List α}
    (hfirst : Drains next state elements) (hsecond : Drains next state elements') :
    elements = elements' := by
  induction hfirst generalizing elements' with
  | done hnext => exact ((drains_iff_of_none hnext).mp hsecond).symm
  | step hnext _ ih =>
      obtain ⟨rest, rfl, hrest⟩ := (drains_iff_of_some hnext).mp hsecond
      rw [ih hrest]

theorem drains_congr {state state' : σ} (hsame : next state = next state') (elements : List α) :
    Drains next state elements ↔ Drains next state' elements := by
  constructor
  · intro hdrains
    cases hdrains with
    | done hnext => exact .done (hsame ▸ hnext)
    | step hnext hrest => exact .step (hsame ▸ hnext) hrest
  · intro hdrains
    cases hdrains with
    | done hnext => exact .done (hsame.symm ▸ hnext)
    | step hnext hrest => exact .step (hsame.symm ▸ hnext) hrest

/-! ## Filters -/

variable (pass : ρ → Except ε Bool) (emit : ρ → Except ε α)

/-- The first row that passes, with the rows behind it. -/
def firstPassing : List ρ → Except ε (Option (ρ × List ρ))
  | [] => .ok none
  | row :: rest =>
      match pass row with
      | .error fault => .error fault
      | .ok true => .ok (some (row, rest))
      | .ok false => firstPassing rest

/-- What is emitted for the rows that pass. -/
def emitted : List ρ → Except ε (List α)
  | [] => .ok []
  | row :: rest =>
      match pass row with
      | .error fault => .error fault
      | .ok false => emitted rest
      | .ok true =>
          match emit row with
          | .error fault => .error fault
          | .ok a =>
              match emitted rest with
              | .error fault => .error fault
              | .ok elements => .ok (a :: elements)

/-- A call with rows to look through yields what is emitted for the first of them that
passes, and leaves those behind it. -/
def Filters (next : σ → Except ε (Option α × σ)) (At : σ → List ρ → Prop) : Prop :=
  ∀ state rows, At state rows →
    match firstPassing pass rows with
    | .error fault => next state = .error fault
    | .ok none => ∃ final, next state = .ok (none, final)
    | .ok (some (row, rest)) =>
        match emit row with
        | .error fault => next state = .error fault
        | .ok a => ∃ middle, next state = .ok (some a, middle) ∧ At middle rest

variable {pass emit}

theorem emitted_cons_of_fails {row : ρ} {rest : List ρ} (hfails : pass row = .ok false) :
    emitted pass emit (row :: rest) = emitted pass emit rest := by
  simp only [emitted, hfails]

/-- The search changes nothing of what is emitted. -/
theorem emitted_eq_firstPassing (rows : List ρ) :
    emitted pass emit rows = match firstPassing pass rows with
      | .error fault => .error fault
      | .ok none => .ok []
      | .ok (some (row, rest)) =>
          match emit row with
          | .error fault => .error fault
          | .ok a =>
              match emitted pass emit rest with
              | .error fault => .error fault
              | .ok elements => .ok (a :: elements) := by
  induction rows with
  | nil => rfl
  | cons row rest ih =>
      rw [emitted, firstPassing]
      cases hpass : pass row with
      | error fault => rfl
      | ok b =>
          cases b with
          | true => rfl
          | false => exact ih

theorem length_firstPassing {rows rest : List ρ} {row : ρ}
    (hfound : firstPassing pass rows = .ok (some (row, rest))) : rest.length < rows.length := by
  induction rows with
  | nil => cases hfound
  | cons head tail ih =>
      rw [firstPassing] at hfound
      rw [List.length_cons]
      split at hfound
      · cases hfound
      · cases hfound
        exact Nat.lt_succ_self _
      · exact Nat.lt_succ_of_lt (ih hfound)

/-- The search passes over rows that fail the test. -/
theorem split_of_firstPassing {rows rest : List ρ} {row : ρ}
    (hfound : firstPassing pass rows = .ok (some (row, rest))) :
    ∃ skipped, rows = skipped ++ row :: rest ∧ ∀ other ∈ skipped, pass other = .ok false := by
  induction rows with
  | nil => cases hfound
  | cons head tail ih =>
      rw [firstPassing] at hfound
      split at hfound
      · cases hfound
      · cases hfound
        exact ⟨[], rfl, by simp⟩
      next hfails =>
        obtain ⟨skipped, rfl, hskipped⟩ := ih hfound
        exact ⟨head :: skipped, rfl, List.forall_mem_cons.mpr ⟨hfails, hskipped⟩⟩

theorem fails_of_firstPassing_none {rows : List ρ} (hfound : firstPassing pass rows = .ok none) :
    ∀ row ∈ rows, pass row = .ok false := by
  induction rows with
  | nil => simp
  | cons head tail ih =>
      rw [firstPassing] at hfound
      split at hfound
      · cases hfound
      · cases hfound
      next hfails => exact List.forall_mem_cons.mpr ⟨hfails, ih hfound⟩

/-- Rows that fail the test make no difference. -/
theorem emitted_filter_of_fails {rows : List ρ} {keep : ρ → Bool}
    (hfails : ∀ row ∈ rows, keep row = false → pass row = .ok false) :
    emitted pass emit (rows.filter keep) = emitted pass emit rows := by
  induction rows with
  | nil => rfl
  | cons row rest ih =>
      obtain ⟨hrow, hrest⟩ := List.forall_mem_cons.mp hfails
      rw [List.filter_cons]
      cases hkeep : keep row with
      | false =>
          rw [emitted_cons_of_fails (hrow hkeep)]
          exact ih hrest
      | true =>
          rw [if_pos rfl, emitted, emitted, ih hrest]

theorem firstPassing_of_emitted_nil {rows : List ρ} (hemitted : emitted pass emit rows = .ok []) :
    firstPassing pass rows = .ok none := by
  rw [emitted_eq_firstPassing] at hemitted
  split at hemitted
  next => cases hemitted
  next hfound => exact hfound
  next =>
    split at hemitted
    · cases hemitted
    · split at hemitted <;> cases hemitted

theorem firstPassing_of_emitted_cons {rows : List ρ} {a : α} {elements : List α}
    (hemitted : emitted pass emit rows = .ok (a :: elements)) : ∃ row rest,
      firstPassing pass rows = .ok (some (row, rest)) ∧ emit row = .ok a ∧
        emitted pass emit rest = .ok elements := by
  rw [emitted_eq_firstPassing] at hemitted
  split at hemitted
  next => cases hemitted
  next => cases hemitted
  next row rest hfound =>
    split at hemitted
    · cases hemitted
    next first hfirst =>
      split at hemitted
      · cases hemitted
      next others hothers =>
        cases hemitted
        exact ⟨row, rest, hfound, hfirst, hothers⟩

/-- What is emitted belongs to one of the rows. -/
theorem exists_of_mem_emitted {rows : List ρ} {elements : List α} {a : α}
    (hemitted : emitted pass emit rows = .ok elements) (hmem : a ∈ elements) :
    ∃ row ∈ rows, emit row = .ok a := by
  induction rows generalizing elements with
  | nil =>
      cases hemitted
      cases hmem
  | cons row rest ih =>
      rw [emitted] at hemitted
      split at hemitted
      · cases hemitted
      · obtain ⟨other, hother, hemit⟩ := ih hemitted hmem
        exact ⟨other, List.mem_cons_of_mem _ hother, hemit⟩
      · split at hemitted
        · cases hemitted
        next first hfirst =>
          split at hemitted
          · cases hemitted
          next others hothers =>
            cases hemitted
            rcases List.mem_cons.mp hmem with rfl | hlater
            · exact ⟨row, List.mem_cons_self, hfirst⟩
            · obtain ⟨other, hother, hemit⟩ := ih hothers hlater
              exact ⟨other, List.mem_cons_of_mem _ hother, hemit⟩

/-- The filter rule: draining a filter yields what is emitted for the rows that pass. -/
theorem Filters.drains_iff {At : σ → List ρ → Prop} (h : Filters pass emit next At) {state : σ}
    {rows : List ρ} (hat : At state rows) (elements : List α) :
    Drains next state elements ↔ emitted pass emit rows = .ok elements := by
  induction hn : rows.length using Nat.strongRecOn generalizing rows state elements with
  | _ n ih =>
      have hcall := h state rows hat
      rw [emitted_eq_firstPassing]
      cases hfound : firstPassing pass rows with
      | error fault =>
          rw [hfound] at hcall
          exact iff_of_false (not_drains_of_error hcall) nofun
      | ok found =>
          rw [hfound] at hcall
          cases found with
          | none =>
              obtain ⟨final, hnext⟩ := hcall
              rw [drains_iff_of_none hnext]
              dsimp only
              rw [Except.ok.injEq, eq_comm]
          | some found =>
              obtain ⟨row, rest⟩ := found
              dsimp only at hcall ⊢
              cases hemit : emit row with
              | error fault =>
                  rw [hemit] at hcall
                  exact iff_of_false (not_drains_of_error hcall) nofun
              | ok a =>
                  rw [hemit] at hcall
                  obtain ⟨middle, hnext, hrest⟩ := hcall
                  have hshorter := length_firstPassing hfound
                  rw [drains_iff_of_some hnext]
                  dsimp only
                  constructor
                  · rintro ⟨others, rfl, hothers⟩
                    rw [(ih rest.length (hn ▸ hshorter) hrest others rfl).mp hothers]
                  · intro hemitted
                    split at hemitted
                    · cases hemitted
                    next others hothers =>
                      cases hemitted
                      exact ⟨others, rfl,
                        (ih rest.length (hn ▸ hshorter) hrest others rfl).mpr hothers⟩

theorem exists_forall₂ {R : ρ → α → Prop} {rows : List ρ} (h : ∀ row ∈ rows, ∃ a, R row a) :
    ∃ elements, List.Forall₂ R rows elements := by
  induction rows with
  | nil => exact ⟨[], .nil⟩
  | cons row rest ih =>
      obtain ⟨a, ha⟩ := h row List.mem_cons_self
      obtain ⟨elements, hrest⟩ := ih fun other hmem => h other (List.mem_cons_of_mem _ hmem)
      exact ⟨a :: elements, .cons ha hrest⟩

/-- Elements that belong to the rows in two ways do so one by one. -/
theorem exists_of_forall₂ {R S : ρ → α → Prop} {rows : List ρ} {elements : List α}
    (hR : List.Forall₂ R rows elements) (hS : List.Forall₂ S rows elements) :
    ∀ row ∈ rows, ∃ a, R row a ∧ S row a := by
  induction hR with
  | nil => exact fun _ hmem => nomatch hmem
  | @cons row a rest elements hhead _ ih =>
      cases hS with
      | cons hhead' hrest' =>
          exact List.forall_mem_cons.mpr ⟨⟨a, hhead, hhead'⟩, ih hrest'⟩

/-- The test comes to the result that the row passes. -/
def accepts (pass : ρ → Except ε Bool) (row : ρ) : Bool :=
  match pass row with
  | .ok b => b
  | .error _ => false

theorem accepts_eq_true_iff {row : ρ} : accepts pass row = true ↔ pass row = .ok true := by
  unfold accepts
  cases pass row with
  | error fault => exact iff_of_false Bool.false_ne_true nofun
  | ok b => exact (Except.ok.injEq b true).symm.to_iff

theorem accepts_of_ok {row : ρ} {b : Bool} (hpass : pass row = .ok b) : accepts pass row = b := by
  unfold accepts
  rw [hpass]

/-- What is emitted, one for one, belongs to the rows that pass. -/
theorem emitted_eq_ok_iff {rows : List ρ} {elements : List α} :
    emitted pass emit rows = .ok elements ↔ (∀ row ∈ rows, ∃ b, pass row = .ok b) ∧
      List.Forall₂ (fun row a => emit row = .ok a)
        (rows.filter (accepts pass)) elements := by
  induction rows generalizing elements with
  | nil =>
      rw [emitted, Except.ok.injEq, List.filter_nil, List.forall₂_nil_left_iff, eq_comm]
      exact ⟨fun hnil => ⟨nofun, hnil⟩, And.right⟩
  | cons row rest ih =>
      rw [emitted, List.forall_mem_cons, List.filter_cons]
      cases hpass : pass row with
      | error fault => exact iff_of_false nofun (by rintro ⟨⟨⟨b, hb⟩, _⟩, _⟩; cases hb)
      | ok b =>
          rw [accepts_of_ok hpass]
          cases b with
          | false =>
              simp only [Bool.false_eq_true, if_false]
              rw [ih]
              exact ⟨fun hrest => ⟨⟨⟨_, rfl⟩, hrest.1⟩, hrest.2⟩, fun hall => ⟨hall.1.2, hall.2⟩⟩
          | true =>
              simp only [if_true, List.forall₂_cons_left_iff]
              constructor
              · intro hemitted
                split at hemitted
                · cases hemitted
                next a hemit =>
                  split at hemitted
                  · cases hemitted
                  next others hothers =>
                    cases hemitted
                    obtain ⟨hpassing, hrest⟩ := ih.mp hothers
                    exact ⟨⟨⟨_, rfl⟩, hpassing⟩, a, others, hemit, hrest, rfl⟩
              · rintro ⟨⟨-, hpassing⟩, a, others, hemit, hrest, rfl⟩
                rw [hemit, ih.mpr ⟨hpassing, hrest⟩]

end Generator
