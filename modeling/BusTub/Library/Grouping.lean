import Mathlib.Data.List.Forall2
import Mathlib.Data.List.Induction
import Mathlib.Data.List.Perm.Basic
import Mathlib.Data.List.ProdSigma
import Mathlib.Tactic.Common

/-! # Groups of rows by key

An association list that collects rows under the first key that counts as the same.
When sameness is symmetric and transitive on the keys in use, a key finds the rows
whose own key is the same, in the order in which they came; it need not be the same
as itself.
-/

universe u v

namespace Grouping

variable {κ : Type u} {ρ : Type v}

/-- Add a row to the first group with the same key, or to a new one. -/
def add (same : κ → κ → Bool) (key : κ) (row : ρ) : List (κ × List ρ) → List (κ × List ρ)
  | [] => [(key, [row])]
  | (k, rows) :: rest =>
      if same key k then (k, rows ++ [row]) :: rest else (k, rows) :: add same key row rest

/-- The rows of the first group with the same key. -/
def find (same : κ → κ → Bool) (key : κ) : List (κ × List ρ) → Option (List ρ)
  | [] => none
  | (k, rows) :: rest => if same key k then some rows else find same key rest

/-- The groups of rows with their keys. -/
def build (same : κ → κ → Bool) (rows : List (κ × ρ)) : List (κ × List ρ) :=
  rows.foldl (fun groups row => add same row.1 row.2 groups) []

/-- Sameness is a partial equivalence of the keys in use. -/
structure PartialEquiv (same : κ → κ → Bool) (used : κ → Prop) : Prop where
  symm : ∀ {a b}, used a → used b → same a b → same b a
  trans : ∀ {a b c}, used a → used b → used c → same a b → same b c → same a c

variable {same : κ → κ → Bool} {used : κ → Prop} {groups : List (κ × List ρ)} {key other : κ}

theorem used_add (hkey : used key) (hused : ∀ group ∈ groups, used group.1) (row : ρ) :
    ∀ group ∈ add same key row groups, used group.1 := by
  induction groups with
  | nil =>
      intro group hmem
      rw [List.mem_singleton.mp hmem]
      exact hkey
  | cons head rest ih =>
      have hrest := ih fun group hmem => hused group (List.mem_cons_of_mem _ hmem)
      have hhead := hused head List.mem_cons_self
      intro group hmem
      rw [add] at hmem
      split at hmem
      · rcases List.mem_cons.mp hmem with rfl | hmem
        · exact hhead
        · exact hused group (List.mem_cons_of_mem _ hmem)
      · rcases List.mem_cons.mp hmem with rfl | hmem
        · exact hhead
        · exact hrest group hmem

/-- A key finds a row that was added if its key is the same; nothing else changes. -/
theorem find_add (h : PartialEquiv same used) (hkey : used key) (hother : used other)
    (hused : ∀ group ∈ groups, used group.1) (row : ρ) :
    find same other (add same key row groups) =
      if same other key then some ((find same other groups).getD [] ++ [row])
      else find same other groups := by
  induction groups with
  | nil => rfl
  | cons head rest ih =>
      obtain ⟨k, rows⟩ := head
      have hk : used k := hused (k, rows) List.mem_cons_self
      have hrest := ih fun group hmem => hused group (List.mem_cons_of_mem _ hmem)
      rw [add]
      by_cases hkeyk : same key k
      · rw [if_pos hkeyk, find, find]
        by_cases hotherk : same other k
        · have hsame := h.trans hother hk hkey hotherk (h.symm hkey hk hkeyk)
          rw [if_pos hotherk, if_pos hsame, if_pos hotherk]
          rfl
        · have hdiffer : ¬ same other key := fun hsame =>
            hotherk (h.trans hother hkey hk hsame hkeyk)
          rw [if_neg hotherk, if_neg hdiffer, if_neg hotherk]
      · rw [if_neg hkeyk, find, find]
        by_cases hotherk : same other k
        · have hdiffer : ¬ same other key := fun hsame =>
            hkeyk (h.trans hkey hother hk (h.symm hother hkey hsame) hotherk)
          rw [if_pos hotherk, if_neg hdiffer, if_pos hotherk]
        · rw [if_neg hotherk, hrest, if_neg hotherk]

theorem build_append (rows : List (κ × ρ)) (row : κ × ρ) :
    build same (rows ++ [row]) = add same row.1 row.2 (build same rows) := by
  unfold build
  rw [List.foldl_append]
  rfl

theorem used_build {rows : List (κ × ρ)} (hrows : ∀ row ∈ rows, used row.1) :
    ∀ group ∈ build same rows, used group.1 := by
  induction rows using List.reverseRecOn with
  | nil => exact nofun
  | append_singleton rows row ih =>
      rw [build_append]
      refine used_add (hrows row (by simp)) (ih fun other hmem => hrows other ?_) row.2
      exact List.mem_append_left _ hmem

/-- The rows of a group, or nothing where there are none. -/
def nonempty : List ρ → Option (List ρ)
  | [] => none
  | rows => some rows

@[simp] theorem getD_nonempty (rows : List ρ) : (nonempty rows).getD [] = rows := by
  cases rows <;> rfl

@[simp] theorem nonempty_append_singleton (rows : List ρ) (row : ρ) :
    nonempty (rows ++ [row]) = some (rows ++ [row]) := by
  cases rows <;> rfl

/-- A key finds the rows whose key is the same. -/
theorem find_build (h : PartialEquiv same used) (hother : used other) {rows : List (κ × ρ)}
    (hrows : ∀ row ∈ rows, used row.1) :
    find same other (build same rows) =
      nonempty ((rows.filter fun row => same other row.1).map Prod.snd) := by
  induction rows using List.reverseRecOn with
  | nil => rfl
  | append_singleton rows row ih =>
      have hbefore : ∀ row ∈ rows, used row.1 := fun other hmem =>
        hrows other (List.mem_append_left _ hmem)
      rw [build_append, find_add h (hrows row (by simp)) hother (used_build hbefore), ih hbefore,
        List.filter_append, List.map_append, getD_nonempty]
      by_cases hsame : same other row.1
      · have hlast : [row].filter (fun row => same other row.1) = [row] := by simp [hsame]
        rw [if_pos hsame, hlast]
        exact (nonempty_append_singleton _ _).symm
      · have hlast : [row].filter (fun row => same other row.1) = [] := by simp [hsame]
        rw [if_neg hsame, hlast, List.map_nil, List.append_nil]

/-! ## Pairs by their second component -/

/-- Going through the rights first permutes the pairs. -/
theorem flatMap_filter_perm {α β : Type} (p : α → β → Bool) (left : List α) (right : List β) :
    (right.flatMap fun r => (left.filter (p · r)).map (·, r)).Perm
      ((left.product right).filter fun pair => p pair.1 pair.2) := by
  induction left with
  | nil =>
      have hnone : (right.flatMap fun r => (([] : List α).filter (p · r)).map (·, r)) = [] :=
        List.flatMap_eq_nil_iff.mpr fun _ _ => rfl
      rw [hnone]
      exact List.Perm.nil
  | cons l rest ih =>
      have hhead : (right.flatMap fun r => if p l r then [(l, r)] else []) =
          ((right.map (l, ·)).filter fun pair => p pair.1 pair.2) := by
        clear ih
        induction right with
        | nil => rfl
        | cons r right ih =>
            rw [List.flatMap_cons, ih, List.map_cons, List.filter_cons]
            cases p l r <;> rfl
      have hsplit : (right.flatMap fun r => ((l :: rest).filter (p · r)).map (·, r)) =
          right.flatMap fun r => (if p l r then [(l, r)] else []) ++
            (rest.filter (p · r)).map (·, r) := by
        refine congrArg right.flatMap (funext fun r => ?_)
        rw [List.filter_cons]
        cases p l r <;> rfl
      have hproduct : (l :: rest).product right = right.map (l, ·) ++ rest.product right := rfl
      rw [hsplit, hproduct, List.filter_append, ← hhead]
      exact (List.flatMap_append_perm right _ _).symm.trans (List.Perm.append_left _ ih)

theorem forall₂_flatten {α β : Type} {R : α → β → Prop} {lists : List (List α)}
    {lists' : List (List β)} (hlengths : List.Forall₂ (fun l l' => l.length = l'.length) lists lists')
    (h : List.Forall₂ R lists.flatten lists'.flatten) : List.Forall₂ (List.Forall₂ R) lists lists' := by
  induction hlengths with
  | nil => exact .nil
  | @cons l l' lists lists' hlength hrest ih =>
      rw [List.flatten_cons, List.flatten_cons] at h
      have hhead := List.forall₂_take_append _ _ _ h
      have htail := List.forall₂_drop_append _ _ _ h
      rw [← hlength, List.take_left] at hhead
      rw [← hlength, List.drop_left] at htail
      exact .cons hhead (ih htail)

/-- Lengths that agree in sum and are bounded one by one agree one by one. -/
theorem forall₂_length_eq {α β : Type} {lists : List (List α)} {lists' : List (List β)}
    (hle : List.Forall₂ (fun l l' => l'.length ≤ l.length) lists lists')
    (hsum : lists.flatten.length = lists'.flatten.length) :
    List.Forall₂ (fun l l' => l.length = l'.length) lists lists' := by
  have hbound : ∀ {lists : List (List α)} {lists' : List (List β)},
      List.Forall₂ (fun l l' => l'.length ≤ l.length) lists lists' →
      lists'.flatten.length ≤ lists.flatten.length := by
    intro lists lists' hle
    induction hle with
    | nil => exact Nat.le_refl 0
    | cons hhead _ ih =>
        rw [List.flatten_cons, List.flatten_cons, List.length_append, List.length_append]
        omega
  induction hle with
  | nil => exact .nil
  | cons hhead hrest ih =>
      have hrestBound := hbound hrest
      rw [List.flatten_cons, List.flatten_cons, List.length_append, List.length_append] at hsum
      exact .cons (by omega) (ih (by omega))

end Grouping
