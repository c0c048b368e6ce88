import Mathlib.Data.Set.Defs
import Mathlib.Order.Defs.Unbundled
import Mathlib.Tactic.Common

/-! # Rows compared column by column

A comparison goes from column to column up to the first one that decides. A column in which
an entry is missing decides nothing, like one in which the entries are the same, so that
rows may compare as equal that are not, and three rows may be in a circle.
-/

universe u

namespace ColumnOrder

variable {α : Type u} (less : α → α → Prop)

/-- The column does not decide. -/
def Undecided (a b : Option α) : Prop := a = none ∨ b = none ∨ a = b

/-- The first column that decides has the less entry on the left. -/
inductive Below : List (Option α) → List (Option α) → Prop
  | here {a b : α} {x y : List (Option α)} (hless : less a b) : Below (some a :: x) (some b :: y)
  | next {a b : Option α} {x y : List (Option α)} (hundecided : Undecided a b)
      (hrest : Below x y) : Below (a :: x) (b :: y)

/-- The comparison: `-1` for less, `1` for greater. -/
def compare [DecidableRel less] : List (Option α) → List (Option α) → Int
  | some a :: x, some b :: y =>
      if less a b then -1 else if less b a then 1 else compare x y
  | _ :: x, _ :: y => compare x y
  | _, _ => 0

/-- Every two rows are the same or differ in a column where no entry is missing. -/
def Separated (rows : Set (List (Option α))) : Prop :=
  ∀ x ∈ rows, ∀ y ∈ rows, x = y ∨ Below less x y ∨ Below less y x

/-- No three rows are each below the next one. -/
def Acyclic (rows : Set (List (Option α))) : Prop :=
  ∀ x ∈ rows, ∀ y ∈ rows, ∀ z ∈ rows, Below less x y → Below less y z → ¬ Below less z x

/-- The comparison is an order of the rows. -/
structure Orders [DecidableRel less] (rows : Set (List (Option α))) : Prop where
  zero_iff : ∀ x ∈ rows, ∀ y ∈ rows, compare less x y = 0 ↔ x = y
  trans : ∀ x ∈ rows, ∀ y ∈ rows, ∀ z ∈ rows,
    compare less x y ≤ 0 → compare less y z ≤ 0 → compare less x z ≤ 0

variable {less} {a b : Option α} {x y z : List (Option α)} {rows : Set (List (Option α))}

theorem Undecided.symm (h : Undecided a b) : Undecided b a := by
  rcases h with hleft | hright | heq
  · exact Or.inr (Or.inl hleft)
  · exact Or.inl hright
  · exact Or.inr (Or.inr heq.symm)

section Order

variable [IsStrictTotalOrder α less]

theorem not_less_of_undecided {p q : α} (h : Undecided (some p) (some q)) : ¬ less p q := by
  rcases h with hnone | hnone | heq
  · cases hnone
  · cases hnone
  · cases heq
    exact irrefl p

variable (less) in
/-- The columns are on one side or the other, or not decided. -/
theorem decided_cases (a b : Option α) :
    (∃ p q, a = some p ∧ b = some q ∧ less p q) ∨ (∃ p q, a = some p ∧ b = some q ∧ less q p) ∨
      Undecided a b := by
  cases a with
  | none => exact Or.inr (Or.inr (Or.inl rfl))
  | some p =>
      cases b with
      | none => exact Or.inr (Or.inr (Or.inr (Or.inl rfl)))
      | some q =>
          rcases trichotomous_of less p q with hless | rfl | hgreater
          · exact Or.inl ⟨p, q, rfl, rfl, hless⟩
          · exact Or.inr (Or.inr (Or.inr (Or.inr rfl)))
          · exact Or.inr (Or.inl ⟨p, q, rfl, rfl, hgreater⟩)

theorem below_cons_iff (hundecided : Undecided a b) :
    Below less (a :: x) (b :: y) ↔ Below less x y := by
  constructor
  · intro h
    cases h with
    | here hless => exact absurd hless (not_less_of_undecided hundecided)
    | next _ hrest => exact hrest
  · exact Below.next hundecided

theorem Below.asymm (h : Below less x y) : ¬ Below less y x := by
  induction h with
  | here hless =>
      intro hback
      cases hback with
      | here hless' => exact asymm_of less hless hless'
      | next hundecided _ => exact not_less_of_undecided hundecided.symm hless
  | next hundecided _ ih =>
      rw [below_cons_iff hundecided.symm]
      exact ih

variable [DecidableRel less]

theorem compare_cons (hundecided : Undecided a b) :
    compare less (a :: x) (b :: y) = compare less x y := by
  cases a with
  | none => rfl
  | some p =>
      cases b with
      | none => rfl
      | some q =>
          rw [compare, if_neg (not_less_of_undecided hundecided),
            if_neg (not_less_of_undecided hundecided.symm)]

variable (less) in
/-- The sign of the comparison says which row is below the other one. -/
theorem compare_cases (x y : List (Option α)) :
    (compare less x y = -1 ∧ Below less x y) ∨ (compare less x y = 1 ∧ Below less y x) ∨
      (compare less x y = 0 ∧ ¬ Below less x y ∧ ¬ Below less y x) := by
  induction x generalizing y with
  | nil =>
      refine Or.inr (Or.inr ⟨rfl, ?_, ?_⟩)
      · intro h
        cases h
      · intro h
        cases h
  | cons a x ih =>
      cases y with
      | nil =>
          refine Or.inr (Or.inr ⟨by cases a <;> rfl, ?_, ?_⟩)
          · intro h
            cases h
          · intro h
            cases h
      | cons b y =>
          rcases decided_cases less a b with
            ⟨p, q, rfl, rfl, hless⟩ | ⟨p, q, rfl, rfl, hless⟩ | hundecided
          · exact Or.inl ⟨if_pos hless, .here hless⟩
          · refine Or.inr (Or.inl ⟨?_, .here hless⟩)
            rw [compare, if_neg (asymm hless), if_pos hless]
          · rw [compare_cons hundecided, below_cons_iff hundecided, below_cons_iff hundecided.symm]
            exact ih y

theorem compare_swap (x y : List (Option α)) : compare less y x = -compare less x y := by
  rcases compare_cases less x y with ⟨hxy, hbelow⟩ | ⟨hxy, hbelow⟩ | ⟨hxy, hnot, hnot'⟩
  · rcases compare_cases less y x with ⟨-, hback⟩ | ⟨hyx, -⟩ | ⟨-, -, hback⟩
    · exact absurd hback hbelow.asymm
    · rw [hxy, hyx]
      rfl
    · exact absurd hbelow hback
  · rcases compare_cases less y x with ⟨hyx, -⟩ | ⟨-, hback⟩ | ⟨-, hback, -⟩
    · rw [hxy, hyx]
    · exact absurd hback hbelow.asymm
    · exact absurd hbelow hback
  · rcases compare_cases less y x with ⟨-, hback⟩ | ⟨-, hback⟩ | ⟨hyx, -, -⟩
    · exact absurd hback hnot'
    · exact absurd hback hnot
    · rw [hxy, hyx]
      rfl

theorem compare_eq_zero_iff : compare less x y = 0 ↔ ¬ Below less x y ∧ ¬ Below less y x := by
  rcases compare_cases less x y with ⟨hxy, hbelow⟩ | ⟨hxy, hbelow⟩ | ⟨hxy, hnot⟩
  · rw [hxy]
    exact iff_of_false (by decide) fun hnone => hnone.1 hbelow
  · rw [hxy]
    exact iff_of_false (by decide) fun hnone => hnone.2 hbelow
  · exact iff_of_true hxy hnot

theorem compare_le_zero_iff : compare less x y ≤ 0 ↔ ¬ Below less y x := by
  rcases compare_cases less x y with ⟨hxy, hbelow⟩ | ⟨hxy, hbelow⟩ | ⟨hxy, -, hnot⟩
  · rw [hxy]
    exact iff_of_true (by decide) hbelow.asymm
  · rw [hxy]
    exact iff_of_false (by decide) fun hnone => hnone hbelow
  · rw [hxy]
    exact iff_of_true (Int.le_refl 0) hnot

/-- The comparison is an order of the rows exactly when they are separated, without a circle. -/
theorem orders_iff : Orders less rows ↔ Separated less rows ∧ Acyclic less rows := by
  constructor
  · intro h
    refine ⟨?_, ?_⟩
    · -- two separate rows in neither direction would compare as zero
      intro x hx y hy
      by_contra hnot
      obtain ⟨hne, hnone⟩ := not_or.mp hnot
      exact hne ((h.zero_iff x hx y hy).mp (compare_eq_zero_iff.mpr (not_or.mp hnone)))
    · intro x hx y hy z hz hxy hyz
      have hxz := h.trans x hx y hy z hz (compare_le_zero_iff.mpr hxy.asymm)
        (compare_le_zero_iff.mpr hyz.asymm)
      exact compare_le_zero_iff.mp hxz
  · rintro ⟨hseparated, hacyclic⟩
    have hirrefl : ∀ x, ¬ Below less x x := fun x hself => hself.asymm hself
    refine ⟨?_, ?_⟩
    · intro x hx y hy
      rw [compare_eq_zero_iff]
      constructor
      · intro hnone
        exact (hseparated x hx y hy).resolve_right (not_or.mpr hnone)
      · rintro rfl
        exact ⟨hirrefl x, hirrefl x⟩
    · intro x hx y hy z hz
      rw [compare_le_zero_iff, compare_le_zero_iff, compare_le_zero_iff]
      intro hyx hzy hzx
      -- the first and the last row would close a circle
      rcases hseparated x hx y hy with rfl | hxy | hback
      · exact hzy hzx
      · rcases hseparated y hy z hz with rfl | hyz | hback
        · exact hyx hzx
        · exact hacyclic x hx y hy z hz hxy hyz hzx
        · exact hzy hback
      · exact hyx hback

/-- Three rows in a circle: the first column decides only between the last one and the first. -/
example :
    compare (fun i j : Nat => i < j) [some 1, some 1] [none, some 2] = -1 ∧
      compare (fun i j : Nat => i < j) [none, some 2] [some 0, some 3] = -1 ∧
      compare (fun i j : Nat => i < j) [some 0, some 3] [some 1, some 1] = -1 := by
  decide

end Order

/-- Rows that miss their entries in the same columns. -/
def SameGaps (x y : List (Option α)) : Prop := x.map Option.isSome = y.map Option.isSome

theorem eq_of_undecided {a b : Option α} (hgap : a.isSome = b.isSome)
    (hundecided : Undecided a b) : a = b := by
  rcases hundecided with rfl | rfl | heq
  · exact (Option.isNone_iff_eq_none.mp (by simpa using hgap.symm)).symm
  · exact Option.isNone_iff_eq_none.mp (by simpa using hgap)
  · exact heq

section SameGaps

variable [IsStrictTotalOrder α less] {x y z : List (Option α)}

theorem below_or_above (hgaps : SameGaps x y) : x = y ∨ Below less x y ∨ Below less y x := by
  induction x generalizing y with
  | nil => exact Or.inl (List.map_eq_nil_iff.mp hgaps.symm).symm
  | cons a x ih =>
      cases y with
      | nil => cases hgaps
      | cons b y =>
          obtain ⟨hgap, hrest⟩ := List.cons.inj hgaps
          rcases decided_cases less a b with
            ⟨p, q, rfl, rfl, hless⟩ | ⟨p, q, rfl, rfl, hless⟩ | hundecided
          · exact Or.inr (Or.inl (.here hless))
          · exact Or.inr (Or.inr (.here hless))
          · rw [eq_of_undecided hgap hundecided]
            rcases ih hrest with rfl | hbelow | hbelow
            · exact Or.inl rfl
            · exact Or.inr (Or.inl (.next (Or.inr (Or.inr rfl)) hbelow))
            · exact Or.inr (Or.inr (.next (Or.inr (Or.inr rfl)) hbelow))

/-- Without the gaps that two rows do not share, an undecided column is one where they agree. -/
theorem Below.trans (hxy : Below less x y) (hyz : Below less y z) (hgaps : SameGaps x y)
    (hgaps' : SameGaps y z) : Below less x z := by
  -- on where the first row falls below the second; the later of the two columns decides
  induction hxy generalizing z with
  | @here a b x y hless =>
      cases hyz with
      | here hless' => exact .here (trans_of less hless hless')
      | @next _ c _ z hundecided hrest =>
          obtain ⟨hgap, -⟩ := List.cons.inj hgaps'
          rw [← eq_of_undecided hgap hundecided]
          exact .here hless
  | @next a b x y hundecided hrest ih =>
      obtain ⟨hgap, hgaps⟩ := List.cons.inj hgaps
      rw [eq_of_undecided hgap hundecided]
      cases hyz with
      | here hless' => exact .here hless'
      | @next _ c _ z hundecided' hrest' =>
          exact .next hundecided' (ih hrest' hgaps (List.cons.inj hgaps').2)

/-- Rows without a gap in one that the other does not have. -/
theorem separated_of_sameGaps (h : ∀ x ∈ rows, ∀ y ∈ rows, SameGaps x y) :
    Separated less rows ∧ Acyclic less rows := by
  refine ⟨fun x hx y hy => below_or_above (h x hx y hy), ?_⟩
  intro x hx y hy z hz hxy hyz hzx
  exact (hxy.trans hyz (h x hx y hy) (h y hy z hz)).asymm hzx

end SameGaps

end ColumnOrder
