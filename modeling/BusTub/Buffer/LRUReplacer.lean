import BusTub.Common
import Mathlib.Data.List.Nodup
import Mathlib.Logic.Function.Basic

/-! # The LRU replacer

`wait_list_` is a linked list and `page2iter_` holds an iterator into it for
every frame in it. A node of the list is known by a number that no other node
ever has, so an iterator is such a number.
-/

namespace BusTub

/-- `LRUReplacer` for frames below `poolSize`. -/
structure LRUReplacer (poolSize : Nat) where
  /-- The nodes from the front, each with its frame. -/
  waitList : List (Nat × Fin poolSize) := []
  /-- The iterator of a frame; `none` is the value-initialised iterator. -/
  page2Iter : Fin poolSize → Option Nat := fun _ => none
  nextNode : Nat := 0

namespace LRUReplacer

variable {poolSize : Nat}

/-- `IsInReplacer`. -/
def isInReplacer (r : LRUReplacer poolSize) (frameId : Fin poolSize) : Bool :=
  (r.page2Iter frameId).isSome

/-- `Victim`: take the frame at the back. -/
def victim (r : LRUReplacer poolSize) : Option (Fin poolSize) × LRUReplacer poolSize :=
  match r.waitList.getLast? with
  | none => (none, r)
  | some (_, frameId) =>
      (some frameId, { r with
        waitList := r.waitList.dropLast
        page2Iter := Function.update r.page2Iter frameId none })

/-- `Pin`: take the frame out through its iterator. -/
def pin (r : LRUReplacer poolSize) (frameId : Fin poolSize) : LRUReplacer poolSize :=
  match r.page2Iter frameId with
  | none => r
  | some node => { r with
      waitList := r.waitList.eraseP (fun entry => entry.1 = node)
      page2Iter := Function.update r.page2Iter frameId none }

/-- `Unpin`: put the frame at the front, unless it is in the list. -/
def unpin (r : LRUReplacer poolSize) (frameId : Fin poolSize) : LRUReplacer poolSize :=
  if r.isInReplacer frameId then r
  else
    { waitList := (r.nextNode, frameId) :: r.waitList
      page2Iter := Function.update r.page2Iter frameId (some r.nextNode)
      nextNode := r.nextNode + 1 }

/-- `Size`. -/
def size (r : LRUReplacer poolSize) : Nat := r.waitList.length

/-- The frames in the replacer; the next victim is the last of them. -/
def frames (r : LRUReplacer poolSize) : List (Fin poolSize) := r.waitList.map Prod.snd

/-- Every iterator points to the node of its frame, and every node has one. -/
structure WellFormed (r : LRUReplacer poolSize) : Prop where
  nodes : (r.waitList.map Prod.fst).Nodup
  fresh : ∀ entry ∈ r.waitList, entry.1 < r.nextNode
  iter : ∀ frameId node, r.page2Iter frameId = some node ↔ (node, frameId) ∈ r.waitList

theorem wellFormed_empty : WellFormed ({} : LRUReplacer poolSize) := by
  constructor <;> simp

section Operations

variable {r : LRUReplacer poolSize} {frameId : Fin poolSize}

/-- No frame is twice in the list. -/
theorem WellFormed.nodup_frames (h : r.WellFormed) : r.frames.Nodup := by
  refine (List.nodup_map_iff_inj_on h.nodes.of_map).mpr ?_
  rintro ⟨node, f⟩ hfirst ⟨node', f'⟩ hsecond (rfl : f = f')
  have hsame := ((h.iter f node).mpr hfirst).symm.trans ((h.iter f node').mpr hsecond)
  rw [Option.some.inj hsame]

theorem WellFormed.isInReplacer_iff (h : r.WellFormed) :
    r.isInReplacer frameId ↔ frameId ∈ r.frames := by
  unfold isInReplacer frames
  rw [Option.isSome_iff_exists, List.mem_map]
  constructor
  · rintro ⟨node, hiter⟩
    exact ⟨(node, frameId), (h.iter _ _).mp hiter, rfl⟩
  · rintro ⟨⟨node, f⟩, hmem, rfl⟩
    exact ⟨node, (h.iter _ _).mpr hmem⟩

theorem frames_victim : r.victim.1 = r.frames.getLast? ∧ r.victim.2.frames = r.frames.dropLast := by
  unfold victim frames
  rw [List.getLast?_map, ← List.map_dropLast]
  cases hlast : r.waitList.getLast? with
  | none =>
      rw [List.getLast?_eq_none_iff.mp hlast]
      simp
  | some entry => exact ⟨rfl, rfl⟩

/-- The nodes other than one are those of the other frames. -/
theorem WellFormed.drop (h : r.WellFormed) {node : Nat} {rest : List (Nat × Fin poolSize)}
    (hnode : (node, frameId) ∈ r.waitList) (hsub : rest.Sublist r.waitList)
    (hrest : ∀ entry, entry ∈ rest ↔ entry ∈ r.waitList ∧ entry.1 ≠ node) :
    WellFormed { r with
      waitList := rest, page2Iter := Function.update r.page2Iter frameId none } where
  nodes := h.nodes.sublist (hsub.map _)
  fresh entry hmem := h.fresh entry (hsub.mem hmem)
  iter f other := by
    have hself := (h.iter frameId node).mpr hnode
    dsimp only
    rw [hrest]
    by_cases hf : f = frameId
    · subst hf
      simp only [Function.update_self, reduceCtorEq, false_iff, not_and, not_not]
      intro hmem
      exact Option.some.inj (((h.iter f other).mpr hmem).symm.trans hself)
    · rw [Function.update_of_ne hf, h.iter]
      refine ⟨fun hmem => ⟨hmem, ?_⟩, And.left⟩
      rintro rfl
      exact hf (congrArg Prod.snd (List.inj_on_of_nodup_map h.nodes hmem hnode rfl))

theorem WellFormed.victim (h : r.WellFormed) : r.victim.2.WellFormed := by
  unfold LRUReplacer.victim
  cases hlast : r.waitList.getLast? with
  | none => exact h
  | some entry =>
      have hsplit : r.waitList = r.waitList.dropLast ++ [entry] :=
        (List.dropLast_append_getLast? entry hlast).symm
      have hnodes := h.nodes
      rw [hsplit, List.map_append, List.nodup_append] at hnodes
      refine h.drop (List.mem_of_getLast? hlast) (List.dropLast_sublist _) ?_
      intro other
      constructor
      · intro hmem
        refine ⟨List.mem_of_mem_dropLast hmem, ?_⟩
        exact hnodes.2.2 _ (List.mem_map_of_mem hmem) _ (by simp)
      · rintro ⟨hmem, hne⟩
        rw [hsplit, List.mem_append, List.mem_singleton] at hmem
        rcases hmem with hmem | rfl
        · exact hmem
        · exact absurd rfl hne

theorem mem_eraseP_node (hnodes : (r.waitList.map Prod.fst).Nodup) (node : Nat)
    (entry : Nat × Fin poolSize) :
    entry ∈ r.waitList.eraseP (fun e => e.1 = node) ↔ entry ∈ r.waitList ∧ entry.1 ≠ node := by
  generalize r.waitList = entries at hnodes ⊢
  induction entries with
  | nil => simp
  | cons head rest ih =>
      rw [List.map_cons, List.nodup_cons] at hnodes
      by_cases hhead : head.1 = node
      · rw [List.eraseP_cons_of_pos (by simpa using hhead)]
        subst hhead
        have hrest : entry ∈ rest → entry.1 ≠ head.1 :=
          fun hmem heq => hnodes.1 (heq ▸ List.mem_map_of_mem hmem)
        constructor
        · exact fun hmem => ⟨List.mem_cons_of_mem _ hmem, hrest hmem⟩
        · rintro ⟨hmem, hne⟩
          rcases List.mem_cons.mp hmem with rfl | hmem
          · exact absurd rfl hne
          · exact hmem
      · rw [List.eraseP_cons_of_neg (by simpa using hhead), List.mem_cons, ih hnodes.2,
          List.mem_cons]
        constructor
        · rintro (rfl | ⟨hmem, hne⟩)
          · exact ⟨Or.inl rfl, hhead⟩
          · exact ⟨Or.inr hmem, hne⟩
        · rintro ⟨rfl | hmem, hne⟩
          · exact Or.inl rfl
          · exact Or.inr ⟨hmem, hne⟩

theorem WellFormed.pin (h : r.WellFormed) : (r.pin frameId).WellFormed := by
  unfold LRUReplacer.pin
  split
  · exact h
  next node hiter =>
    exact h.drop ((h.iter _ _).mp hiter) List.eraseP_sublist
      (mem_eraseP_node h.nodes node)

theorem WellFormed.mem_frames_pin (h : r.WellFormed) (other : Fin poolSize) :
    other ∈ (r.pin frameId).frames ↔ other ∈ r.frames ∧ other ≠ frameId := by
  have hpinned : (r.pin frameId).WellFormed := h.pin
  rw [← hpinned.isInReplacer_iff, ← h.isInReplacer_iff]
  unfold isInReplacer LRUReplacer.pin
  split
  next hnone =>
    refine ⟨fun hsome => ⟨hsome, ?_⟩, And.left⟩
    rintro rfl
    rw [hnone] at hsome
    cases hsome
  next node hiter =>
    by_cases hother : other = frameId
    · simp [hother]
    · simp [hother]

theorem WellFormed.unpin (h : r.WellFormed) : (r.unpin frameId).WellFormed := by
  unfold LRUReplacer.unpin
  split
  · exact h
  next hnot =>
    have hnone : r.page2Iter frameId = none := by simpa [isInReplacer] using hnot
    refine ⟨?_, ?_, ?_⟩
    · rw [List.map_cons, List.nodup_cons]
      refine ⟨?_, h.nodes⟩
      rw [List.mem_map]
      rintro ⟨entry, hmem, heq⟩
      exact absurd (h.fresh entry hmem) (by omega)
    · intro entry hmem
      dsimp only
      rcases List.mem_cons.mp hmem with rfl | hmem
      · exact Nat.lt_succ_self _
      · exact Nat.lt_succ_of_lt (h.fresh entry hmem)
    · intro f node
      dsimp only
      rw [List.mem_cons]
      by_cases hf : f = frameId
      · subst hf
        have habsent : (node, f) ∉ r.waitList := by
          rw [← h.iter, hnone]
          simp
        simp [habsent, eq_comm]
      · simp [hf, h.iter]

theorem WellFormed.mem_frames_unpin (h : r.WellFormed) (other : Fin poolSize) :
    other ∈ (r.unpin frameId).frames ↔ other ∈ r.frames ∨ other = frameId := by
  unfold LRUReplacer.unpin
  split
  next hin =>
    rw [h.isInReplacer_iff] at hin
    refine ⟨Or.inl, ?_⟩
    rintro (hmem | rfl)
    · exact hmem
    · exact hin
  next hnot => simp [frames, or_comm]

end Operations

end LRUReplacer

end BusTub
