import Mathlib.Data.List.Forall2
import Mathlib.Tactic.Common

/-! # Computations that may fail

When a sequence of computations in `Except` comes to a result.
-/

universe u v w

namespace Except

variable {ε : Type u} {α β : Type v}

theorem bind_eq_ok_iff {x : Except ε α} {f : α → Except ε β} {b : β} :
    (x >>= f) = .ok b ↔ ∃ a, x = .ok a ∧ f a = .ok b := by
  cases x with
  | error fault => exact iff_of_false nofun (by rintro ⟨a, ha, -⟩; cases ha)
  | ok a =>
      constructor
      · exact fun h => ⟨a, rfl, h⟩
      · rintro ⟨a', ha, hb⟩
        cases ha
        exact hb

theorem toOption_eq_some_iff {x : Except ε α} {a : α} : x.toOption = some a ↔ x = .ok a := by
  cases x with
  | error fault => exact iff_of_false nofun nofun
  | ok b => rw [Except.toOption, Option.some.injEq, Except.ok.injEq]

/-- Mapping a list comes to a result exactly when each element does. -/
theorem mapM_eq_ok_iff {γ : Type w} {f : γ → Except ε β} {list : List γ} {results : List β} :
    list.mapM f = .ok results ↔ List.Forall₂ (fun c b => f c = .ok b) list results := by
  induction list generalizing results with
  | nil =>
      rw [List.mapM_nil, List.forall₂_nil_left_iff]
      exact ⟨fun h => (Except.ok.inj h).symm, fun h => congrArg Except.ok h.symm⟩
  | cons c rest ih =>
      rw [List.mapM_cons, bind_eq_ok_iff, List.forall₂_cons_left_iff]
      constructor
      · rintro ⟨b, hb, hrest⟩
        obtain ⟨others, hothers, hresult⟩ := bind_eq_ok_iff.mp hrest
        exact ⟨b, others, hb, ih.mp hothers, (Except.ok.inj hresult).symm⟩
      · rintro ⟨b, others, hb, hothers, rfl⟩
        exact ⟨b, hb, bind_eq_ok_iff.mpr ⟨others, ih.mpr hothers, rfl⟩⟩

/-- Mapping the first numbers, with the results by their numbers. -/
theorem mapM_range_eq_ok_iff {f : Nat → Except ε β} {n : Nat} {results : List β} :
    (List.range n).mapM f = .ok results ↔
      results.length = n ∧ ∀ i b, results[i]? = some b → f i = .ok b := by
  have hrange : (List.range n).length = n := List.length_range
  rw [mapM_eq_ok_iff, List.forall₂_iff_get]
  constructor
  · rintro ⟨hlength, hall⟩
    refine ⟨hlength.symm.trans hrange, fun i b hb => ?_⟩
    obtain ⟨hi, rfl⟩ := List.getElem?_eq_some_iff.mp hb
    have hget := hall i (Nat.lt_of_lt_of_eq hi hlength.symm) hi
    rwa [List.get_eq_getElem, List.get_eq_getElem, List.getElem_range] at hget
  · rintro ⟨hlength, hall⟩
    refine ⟨hrange.trans hlength.symm, fun i hi hi' => ?_⟩
    rw [List.get_eq_getElem, List.get_eq_getElem, List.getElem_range]
    exact hall i _ (List.getElem?_eq_getElem hi')

/-- Mapping a list fails as one of the elements does. -/
theorem exists_of_mapM_eq_error {γ : Type w} {f : γ → Except ε β} {list : List γ} {fault : ε}
    (h : list.mapM f = .error fault) : ∃ c ∈ list, f c = .error fault := by
  induction list with
  | nil => cases h
  | cons c rest ih =>
      rw [List.mapM_cons] at h
      cases hc : f c with
      | error fault' =>
          rw [hc] at h
          cases h
          exact ⟨c, List.mem_cons_self, hc⟩
      | ok b =>
          cases hrest : rest.mapM f with
          | error fault' =>
              rw [hc, hrest] at h
              cases h
              obtain ⟨other, hother, hfault⟩ := ih hrest
              exact ⟨other, List.mem_cons_of_mem c hother, hfault⟩
          | ok others =>
              rw [hc, hrest] at h
              cases h

end Except
