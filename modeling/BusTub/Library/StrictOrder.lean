import Mathlib.Data.List.Sort
import Mathlib.Order.Defs.Unbundled

/-! # Lists in a strict order

A list in a strict order is given by its members. Who stands at a place of it has the elements
from there on before him; when an element comes into the list, he has it before him just if it
belongs behind one of them.
-/

universe u

namespace StrictOrder

variable {α : Type u} {r : α → α → Prop} [Std.Asymm r] {before after all all' : List α} {a c : α}

/-- Lists in one order with the same members are equal. -/
theorem eq_of_mem_iff (h : all.Pairwise r) (h' : all'.Pairwise r)
    (hmem : ∀ a, a ∈ all ↔ a ∈ all') : all = all' := by
  have : Std.Irrefl r := ⟨fun a hself => asymm hself hself⟩
  have : Std.Antisymm r := Std.Asymm.antisymm r
  exact h.eq_of_mem_iff h' hmem

/-- The elements behind one are those that are greater. -/
theorem mem_after_iff {b : α} (h : (before ++ a :: after).Pairwise r) :
    b ∈ after ↔ b ∈ before ++ a :: after ∧ r a b := by
  obtain ⟨-, htail, hcross⟩ := List.pairwise_append.mp h
  obtain ⟨hafter, -⟩ := List.pairwise_cons.mp htail
  constructor
  · intro hb
    exact ⟨List.mem_append_right _ (List.mem_cons_of_mem _ hb), hafter b hb⟩
  · rintro ⟨hb, hlt⟩
    rcases List.mem_append.mp hb with hbefore | htail
    · exact absurd hlt (asymm (hcross b hbefore a List.mem_cons_self))
    · rcases List.mem_cons.mp htail with rfl | hb
      · exact absurd hlt (asymm hlt)
      · exact hb

/-- An element comes into the list. The elements from a place on are as before, and the new one
is among them just if it belongs behind one of them. -/
theorem exists_after_insert [IsTrans α r] (h : (before ++ after).Pairwise r)
    (h' : all'.Pairwise r) (hmem : ∀ a, a ∈ all' ↔ a ∈ before ++ after ∨ a = c) :
    ∃ before' after', all' = before' ++ after' ∧ after'.head? = after.head? ∧
      ∀ a, a ∈ after' ↔ a ∈ after ∨ a = c ∧ ∃ b ∈ after, r b c := by
  cases after with
  | nil => exact ⟨all', [], (List.append_nil _).symm, rfl, fun a => by simp⟩
  | cons head rest =>
      have hhead : head ∈ all' := (hmem head).mpr (Or.inl (by simp))
      obtain ⟨before', rest', rfl⟩ := List.append_of_mem hhead
      refine ⟨before', head :: rest', rfl, rfl, fun a => ?_⟩
      -- the first element is the least of them
      have hleast : (∃ b ∈ head :: rest, r b c) ↔ r head c := by
        constructor
        · rintro ⟨b, hb, hlt⟩
          rcases List.mem_cons.mp hb with rfl | hb
          · exact hlt
          · exact IsTrans.trans _ _ _ ((mem_after_iff h).mp hb).2 hlt
        · intro hlt
          exact ⟨head, List.mem_cons_self, hlt⟩
      have hrest : a ∈ rest' ↔ a ∈ rest ∨ a = c ∧ r head c := by
        rw [mem_after_iff h', mem_after_iff h, hmem, or_and_right]
        refine or_congr_right (and_congr_right fun heq => ?_)
        rw [heq]
      rw [List.mem_cons, List.mem_cons, hrest, hleast, or_assoc]

end StrictOrder
