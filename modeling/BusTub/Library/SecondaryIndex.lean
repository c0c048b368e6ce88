import Mathlib.Data.Finset.Erase
import Mathlib.Data.Finset.Insert
import Mathlib.Logic.Function.Basic

/-! # Secondary indexes

An index of a map from places to rows holds every place that has a row, with the key of
the row. It keeps up with the map when each write of a place takes the old key out and
puts the new one in.
-/

universe u v w x

namespace SecondaryIndex

variable {κ : Type u} {ρ : Type v} {τ : Type w} {ε : Type x}

/-- The pairs are those of the places of the map and the keys of their rows. -/
def Mirrors (keyOf : τ → Except ε κ) (rows : ρ → Option τ) (pairs : Finset (κ × ρ)) : Prop :=
  ∀ key place, (key, place) ∈ pairs ↔ ∃ row, rows place = some row ∧ keyOf row = .ok key

variable {keyOf : τ → Except ε κ} {rows rows' : ρ → Option τ} {pairs : Finset (κ × ρ)}
  {key oldKey : κ} {place : ρ} {row old : τ}

theorem mirrors_empty (hnone : ∀ place, rows place = none) : Mirrors keyOf rows ∅ := by
  intro key place
  refine iff_of_false (Finset.notMem_empty _) ?_
  rintro ⟨row, hrow, -⟩
  rw [hnone] at hrow
  cases hrow

variable [DecidableEq κ] [DecidableEq ρ]

/-- A place that had no row gets one. -/
theorem Mirrors.add (h : Mirrors keyOf rows pairs) (hfree : rows place = none)
    (hkey : keyOf row = .ok key)
    (hrows : ∀ other, rows' other = if other = place then some row else rows other) :
    Mirrors keyOf rows' (insert (key, place) pairs) := by
  intro key' other
  rw [Finset.mem_insert, Prod.mk.injEq, h, hrows]
  by_cases heq : other = place
  · rw [if_pos heq, heq, hfree]
    constructor
    · rintro (⟨rfl, -⟩ | ⟨_, hnone, -⟩)
      · exact ⟨row, rfl, hkey⟩
      · cases hnone
    · rintro ⟨_, hrow, hkey'⟩
      cases hrow
      rw [hkey] at hkey'
      cases hkey'
      exact Or.inl ⟨rfl, rfl⟩
  · rw [if_neg heq]
    exact or_iff_right fun hand => heq hand.2

/-- A place loses its row. -/
theorem Mirrors.remove (h : Mirrors keyOf rows pairs) (hold : rows place = some row)
    (hkey : keyOf row = .ok key)
    (hrows : ∀ other, rows' other = if other = place then none else rows other) :
    Mirrors keyOf rows' (pairs.erase (key, place)) := by
  intro key' other
  rw [Finset.mem_erase, h, hrows]
  by_cases heq : other = place
  · rw [if_pos heq, heq, hold]
    constructor
    · rintro ⟨hne, _, hrow, hkey'⟩
      cases hrow
      rw [hkey] at hkey'
      cases hkey'
      exact absurd rfl hne
    · rintro ⟨_, hnone, -⟩
      cases hnone
  · rw [if_neg heq]
    refine and_iff_right ?_
    intro hpair
    exact heq (Prod.mk.injEq .. ▸ hpair).2

/-- A row is replaced by another one. -/
theorem Mirrors.replace (h : Mirrors keyOf rows pairs) (hold : rows place = some old)
    (holdKey : keyOf old = .ok oldKey) (hkey : keyOf row = .ok key)
    (hrows : ∀ other, rows' other = if other = place then some row else rows other) :
    Mirrors keyOf rows' (insert (key, place) (pairs.erase (oldKey, place))) := by
  have herased := h.remove hold holdKey fun other => rfl
  refine herased.add (if_pos rfl) hkey ?_
  intro other
  rw [hrows]
  by_cases heq : other = place
  · rw [if_pos heq, if_pos heq]
  · rw [if_neg heq, if_neg heq, if_neg heq]

end SecondaryIndex
