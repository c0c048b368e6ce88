import Mathlib.Data.List.Basic

/-! # Doubly linked chains

A chain of nodes by two pointers each: the one to the next node and the one to the node
before. The last node points to `stop`, and so does the first one back.
-/

variable {ι : Type}

/-- Each node of the list points to the next one and back to the one before. -/
def LinkedFrom (next prev : ι → ι) (stop : ι) : ι → List ι → Prop
  | _, [] => True
  | before, node :: rest => prev node = before ∧ next node = rest.headD stop ∧
      LinkedFrom next prev stop node rest

namespace LinkedFrom

variable {next next' prev prev' : ι → ι} {stop start : ι} {nodes : List ι} {last new : ι}

/-- Only the pointers of the nodes matter. -/
theorem congr (h : LinkedFrom next prev stop start nodes)
    (hsame : ∀ node ∈ nodes, next' node = next node ∧ prev' node = prev node) :
    LinkedFrom next' prev' stop start nodes := by
  induction nodes generalizing start with
  | nil => trivial
  | cons node rest ih =>
      obtain ⟨hprev, hnext, hrest⟩ := h
      obtain ⟨hnext', hprev'⟩ := hsame node List.mem_cons_self
      refine ⟨hprev'.trans hprev, hnext'.trans hnext, ?_⟩
      exact ih hrest fun other hmem => hsame other (List.mem_cons_of_mem _ hmem)

/-- A new node behind the last one. -/
theorem append (h : LinkedFrom next prev stop start (nodes ++ [last]))
    (hsame : ∀ node ∈ nodes, next' node = next node ∧ prev' node = prev node)
    (hlast : next' last = new) (hlastPrev : prev' last = prev last)
    (hnew : next' new = stop) (hnewPrev : prev' new = last) :
    LinkedFrom next' prev' stop start (nodes ++ [last, new]) := by
  induction nodes generalizing start with
  | nil => exact ⟨hlastPrev.trans h.1, hlast, hnewPrev, hnew, trivial⟩
  | cons node rest ih =>
      obtain ⟨hprev, hnext, hrest⟩ := h
      obtain ⟨hnext', hprev'⟩ := hsame node List.mem_cons_self
      refine ⟨hprev'.trans hprev, ?_, ih hrest fun other hmem =>
        hsame other (List.mem_cons_of_mem _ hmem)⟩
      rw [hnext', hnext]
      cases rest with
      | nil => rfl
      | cons _ _ => rfl

end LinkedFrom
