import Mathlib.Data.List.Dedup
import Mathlib.Tactic.Common

/-! # Serial orders of two-phase histories

A history of steps, each of some owner, is equivalent to a serial one if each pair of
conflicting steps of different owners can be read off an order of the owners: what does not
conflict commutes. Owners that take locks before they give up any, where conflicting locks
exclude one another, have such an order: that in which they finish growing.
-/

universe u v w x

namespace Serializability

variable {α : Type u} {σ : Type v} {τ : Type w} {κ : Type x}

/-! ## Serial histories -/

section Serial

variable [DecidableEq τ] (owner : α → τ)

/-- The steps of the owners one after the other, each owner's in the order of the history. -/
def serial (order : List τ) (history : List α) : List α :=
  order.flatMap fun t => history.filter fun a => owner a = t

/-- Steps of different owners that do not conflict commute. -/
def Independent (apply : σ → α → σ) (conflict : α → α → Prop) : Prop :=
  ∀ a b, owner a ≠ owner b → ¬ conflict a b → ∀ s, apply (apply s a) b = apply (apply s b) a

variable {owner} {apply : σ → α → σ} {conflict : α → α → Prop} {history : List α}

/-- A step moves past those that it commutes with. -/
theorem foldl_move {a : α} {before : List α}
    (hcommute : ∀ b ∈ before, ∀ s, apply (apply s a) b = apply (apply s b) a) (rest : List α)
    (s : σ) : (a :: (before ++ rest)).foldl apply s = (before ++ a :: rest).foldl apply s := by
  induction before generalizing s with
  | nil => rfl
  | cons b before ih =>
      have hrest := ih (fun c hmem => hcommute c (List.mem_cons_of_mem _ hmem)) (apply s b)
      rw [List.cons_append, List.foldl_cons, List.foldl_cons,
        hcommute b List.mem_cons_self s, List.cons_append, List.foldl_cons, ← hrest,
        List.foldl_cons]

/-- An owner whose steps conflict with none before them can go first. -/
theorem foldl_first (h : Independent owner apply conflict) {t : τ}
    (hfirst : history.Pairwise fun a b => owner b = t → owner a ≠ t → ¬ conflict a b) (s : σ) :
    history.foldl apply s = (history.filter (fun a => owner a = t) ++
      history.filter fun a => owner a ≠ t).foldl apply s := by
  induction history generalizing s with
  | nil => rfl
  | cons a rest ih =>
      obtain ⟨hhead, htail⟩ := List.pairwise_cons.mp hfirst
      rw [List.foldl_cons, ih htail]
      by_cases ha : owner a = t
      · simp [ha]
      · have hcommute : ∀ b ∈ rest.filter (fun a => owner a = t), ∀ s,
            apply (apply s a) b = apply (apply s b) a := by
          intro b hmem
          obtain ⟨hb, howner⟩ := List.mem_filter.mp hmem
          have howner : owner b = t := of_decide_eq_true howner
          exact h a b (howner ▸ ha) (hhead b hb howner ha)
        have hmove := foldl_move hcommute (rest.filter fun a => owner a ≠ t) s
        rw [List.foldl_cons] at hmove
        simpa [ha] using hmove

theorem serial_filter_ne {t : τ} {order : List τ} (hnot : t ∉ order) :
    serial owner order (history.filter fun a => owner a ≠ t) = serial owner order history := by
  unfold serial
  apply List.flatMap_congr
  intro u hmem
  rw [List.filter_filter]
  apply List.filter_congr
  intro a _
  have hne : u ≠ t := fun heq => hnot (heq ▸ hmem)
  by_cases ha : owner a = u
  · simp [ha, hne]
  · simp [ha]

/-- A history is equivalent to the serial one of an order that agrees with its conflicts. -/
theorem foldl_serial (h : Independent owner apply conflict) {order : List τ}
    (hnodup : order.Nodup) (hall : ∀ a ∈ history, owner a ∈ order)
    (horder : history.Pairwise fun a b => owner a ≠ owner b → conflict a b →
      order.idxOf (owner a) < order.idxOf (owner b)) (s : σ) :
    history.foldl apply s = (serial owner order history).foldl apply s := by
  induction order generalizing history s with
  | nil =>
      have hempty : history = [] := List.eq_nil_iff_forall_not_mem.mpr fun a hmem =>
        List.not_mem_nil (hall a hmem)
      rw [hempty]
      rfl
  | cons t order ih =>
      obtain ⟨hnot, hnodup⟩ := List.nodup_cons.mp hnodup
      have hfirst : history.Pairwise fun a b => owner b = t → owner a ≠ t → ¬ conflict a b := by
        refine horder.imp fun {a b} hpair hb ha hconflict => ?_
        -- nothing comes before the first owner
        have hlt := hpair (hb ▸ ha) hconflict
        rw [hb, List.idxOf_cons_self] at hlt
        exact absurd hlt (Nat.not_lt_zero _)
      have hrest := @ih (history.filter fun a => owner a ≠ t) hnodup ?_ ?_
      · rw [foldl_first h hfirst, List.foldl_append, hrest, serial_filter_ne hnot]
        simp only [serial, List.flatMap_cons, List.foldl_append]
      · intro a hmem
        obtain ⟨hmem, hne⟩ := List.mem_filter.mp hmem
        exact (List.mem_cons.mp (hall a hmem)).resolve_left (of_decide_eq_true hne)
      · rw [List.pairwise_filter]
        refine horder.imp fun {a b} hpair ha hb hne hconflict => ?_
        have hlt := hpair hne hconflict
        rw [List.idxOf_cons_ne _ (Ne.symm (of_decide_eq_true ha)),
          List.idxOf_cons_ne _ (Ne.symm (of_decide_eq_true hb))] at hlt
        exact Nat.lt_of_succ_lt_succ hlt

end Serial

/-! ## Two phases -/

section TwoPhase

variable {ς : Type v} (lock : α → κ) (owner : α → τ) (conflicting : κ → κ → Prop)

/-- Conflicting locks have one holder. -/
def Exclusive (holds : τ → κ → Prop) : Prop :=
  ∀ t u k l, t ≠ u → holds t k → holds u l → ¬ conflicting k l

/-- An owner that gives up a lock is done, a done owner gets no lock, and done is done. -/
structure Phases (holds holds' : τ → κ → Prop) (done done' : τ → Prop) : Prop where
  lost : ∀ t k, holds t k → ¬ holds' t k → done' t
  gained : ∀ t k, done' t → holds' t k → holds t k
  done : ∀ t, done t → done' t

/-- The histories in which every step is taken under its lock. -/
inductive Schedule (holds : ς → τ → κ → Prop) (done : ς → τ → Prop) : ς → List α → Prop
  | start (s : ς) : Schedule holds done s []
  | step {s : ς} (a : α) {history : List α} : Schedule holds done s history →
      Exclusive conflicting (holds s) → holds s (owner a) (lock a) →
      Schedule holds done s (history ++ [a])
  | locks {s s' : ς} {history : List α} : Schedule holds done s history →
      Exclusive conflicting (holds s) → Phases (holds s) (holds s') (done s) (done s') →
      Schedule holds done s' history

variable [DecidableEq τ]

theorem idxOf_lt_append {order : List τ} {t u : τ} (h : order.idxOf t < order.idxOf u)
    (more : List τ) : (order ++ more).idxOf t < (order ++ more).idxOf u := by
  have ht : t ∈ order := List.idxOf_lt_length_iff.mp (Nat.lt_of_lt_of_le h List.idxOf_le_length)
  rw [List.idxOf_append_of_mem ht]
  by_cases hu : u ∈ order
  · rwa [List.idxOf_append_of_mem hu]
  · rw [List.idxOf_append_of_notMem hu]
    exact Nat.lt_of_lt_of_le (List.idxOf_lt_length_of_mem ht) (Nat.le_add_right _ _)

/-- The order in which owners are done agrees with the conflicts of the history so far, and no
owner holds a lock against those behind it. -/
structure Ordered (holds : τ → κ → Prop) (done : τ → Prop) (history : List α)
    (order : List τ) : Prop where
  nodup : order.Nodup
  done : ∀ t ∈ order, done t
  held : ∀ a ∈ history, owner a ∉ order → holds (owner a) (lock a)
  precedes : history.Pairwise fun a b => owner a ≠ owner b → conflicting (lock a) (lock b) →
    order.idxOf (owner a) < order.idxOf (owner b)
  clear : ∀ a ∈ history, ∀ t ∈ order, order.idxOf t < order.idxOf (owner a) →
    ∀ k, holds t k → ¬ conflicting k (lock a)

variable {lock owner conflicting} {holds holds' : τ → κ → Prop} {done done' : τ → Prop}
  {history : List α} {order : List τ}

/-- One more owner is done. -/
theorem Ordered.extend (h : Ordered lock owner conflicting holds done history order)
    (hexclusive : Exclusive conflicting holds) {t : τ} (hnot : t ∉ order) (hdone : done t) :
    Ordered lock owner conflicting holds done history (order ++ [t]) where
  nodup := by
    rw [← List.concat_eq_append]
    exact h.nodup.concat hnot
  done u hmem := by
    rcases List.mem_append.mp hmem with hmem | hmem
    · exact h.done u hmem
    · rw [List.mem_singleton.mp hmem]
      exact hdone
  held a hmem hout := h.held a hmem fun hin => hout (List.mem_append_left _ hin)
  precedes := h.precedes.imp fun hpair hne hconflict => idxOf_lt_append (hpair hne hconflict) _
  clear a hmem u hu hlt k hk := by
    have hlength : u = t → owner a ∉ order := by
      rintro rfl hin
      rw [List.idxOf_append_of_notMem hnot, List.idxOf_append_of_mem hin] at hlt
      have hbound := List.idxOf_lt_length_of_mem hin
      omega
    by_cases hin : owner a ∈ order
    · have hne : u ≠ t := fun heq => hlength heq hin
      have huin : u ∈ order :=
        (List.mem_append.mp hu).resolve_right fun hlast => hne (List.mem_singleton.mp hlast)
      rw [List.idxOf_append_of_mem huin, List.idxOf_append_of_mem hin] at hlt
      exact h.clear a hmem u huin hlt k hk
    · -- the owner of the step is not done, so it still has its lock
      have hne : u ≠ owner a := by
        rintro rfl
        exact Nat.lt_irrefl _ hlt
      exact hexclusive u (owner a) k (lock a) hne hk (h.held a hmem hin)

/-- Every owner that is done and has taken a step gets its place. -/
theorem Ordered.complete (h : Ordered lock owner conflicting holds done history order)
    (hexclusive : Exclusive conflicting holds) (owners : List τ) :
    ∃ order', Ordered lock owner conflicting holds done history order' ∧
      ∀ t ∈ owners, done t → t ∈ order' := by
  classical
  have hgrow : ∀ owners : List τ, ∃ order', Ordered lock owner conflicting holds done history
      order' ∧ (∀ t ∈ order, t ∈ order') ∧ ∀ t ∈ owners, done t → t ∈ order' := by
    intro owners
    induction owners with
    | nil => exact ⟨order, h, fun _ => id, fun _ hmem => absurd hmem List.not_mem_nil⟩
    | cons t rest ih =>
        obtain ⟨order', hordered, hsub, hrest⟩ := ih
        by_cases hadd : done t ∧ t ∉ order'
        · refine ⟨order' ++ [t], hordered.extend hexclusive hadd.2 hadd.1, ?_, ?_⟩
          · exact fun u hu => List.mem_append_left _ (hsub u hu)
          · intro u hu hdone
            rcases List.mem_cons.mp hu with rfl | hu
            · exact List.mem_append_right _ (List.mem_singleton_self _)
            · exact List.mem_append_left _ (hrest u hu hdone)
        · rw [not_and, not_not] at hadd
          refine ⟨order', hordered, hsub, fun u hu hdone => ?_⟩
          rcases List.mem_cons.mp hu with rfl | hu
          · exact hadd hdone
          · exact hrest u hu hdone
  obtain ⟨order', hordered, -, hall⟩ := hgrow owners
  exact ⟨order', hordered, hall⟩

/-- A step under its lock. -/
theorem Ordered.step (h : Ordered lock owner conflicting holds done history order)
    (hsymm : ∀ k l, conflicting k l → conflicting l k)
    (hexclusive : Exclusive conflicting holds) {b : α} (hb : holds (owner b) (lock b)) :
    Ordered lock owner conflicting holds done (history ++ [b]) order where
  nodup := h.nodup
  done := h.done
  held a hmem hout := by
    rcases List.mem_append.mp hmem with hmem | hmem
    · exact h.held a hmem hout
    · rw [List.mem_singleton.mp hmem]
      exact hb
  precedes := by
    refine List.pairwise_append.mpr ⟨h.precedes, List.pairwise_singleton _ _, ?_⟩
    intro a ha last hlast hne hconflict
    obtain rfl := List.mem_singleton.mp hlast
    by_cases hin : owner a ∈ order
    · rcases Nat.lt_trichotomy (order.idxOf (owner a)) (order.idxOf (owner last)) with
        hlt | heq | hgt
      · exact hlt
      · exact absurd ((List.idxOf_inj hin).mp heq) hne
      · have hlast : owner last ∈ order :=
          List.idxOf_lt_length_iff.mp (Nat.lt_of_lt_of_le hgt List.idxOf_le_length)
        exact absurd (hsymm _ _ hconflict) (h.clear a ha _ hlast hgt _ hb)
    · exact absurd hconflict (hexclusive _ _ _ _ hne (h.held a ha hin) hb)
  clear a hmem t ht hlt k hk := by
    rcases List.mem_append.mp hmem with hmem | hmem
    · exact h.clear a hmem t ht hlt k hk
    · obtain rfl := List.mem_singleton.mp hmem
      have hne : t ≠ owner a := by
        rintro rfl
        exact Nat.lt_irrefl _ hlt
      exact hexclusive t (owner a) k (lock a) hne hk hb

/-- Locks are taken and given up. -/
theorem Ordered.locks (h : Ordered lock owner conflicting holds done history order)
    (hexclusive : Exclusive conflicting holds) (hphases : Phases holds holds' done done') :
    ∃ order', Ordered lock owner conflicting holds' done' history order' := by
  have hafter : Ordered lock owner conflicting holds done' history order :=
    ⟨h.nodup, fun t ht => hphases.done t (h.done t ht), h.held, h.precedes, h.clear⟩
  obtain ⟨order', hordered, hall⟩ := hafter.complete hexclusive (history.map owner)
  refine ⟨order', hordered.nodup, hordered.done, fun a hmem hout => ?_, hordered.precedes,
    fun a hmem t ht hlt k hk => ?_⟩
  · by_contra hlost
    have hdone := hphases.lost _ _ (hordered.held a hmem hout) hlost
    exact hout (hall _ (List.mem_map_of_mem hmem) hdone)
  · exact hordered.clear a hmem t ht hlt k (hphases.gained t k (hordered.done t ht) hk)

/-- A history of steps under two-phase locks is equivalent to a serial one. -/
theorem Schedule.serializable {holds : ς → τ → κ → Prop} {done : ς → τ → Prop} {s : ς}
    (h : Schedule lock owner conflicting holds done s history)
    (hsymm : ∀ k l, conflicting k l → conflicting l k) {apply : σ → α → σ}
    (hcommute : Independent owner apply fun a b => conflicting (lock a) (lock b)) :
    ∃ order : List τ, order.Nodup ∧ (∀ a ∈ history, owner a ∈ order) ∧
      ∀ data, history.foldl apply data = (serial owner order history).foldl apply data := by
  have hordered : ∃ order, Ordered lock owner conflicting (holds s) (done s) history order := by
    induction h with
    | start s =>
        refine ⟨[], List.nodup_nil, ?_, ?_, List.Pairwise.nil, ?_⟩
        · exact fun _ hmem => absurd hmem List.not_mem_nil
        · exact fun _ hmem => absurd hmem List.not_mem_nil
        · exact fun _ hmem => absurd hmem List.not_mem_nil
    | step a _ hexclusive ha ih =>
        obtain ⟨order, hordered⟩ := ih
        exact ⟨order, hordered.step hsymm hexclusive ha⟩
    | locks _ hexclusive hphases ih =>
        obtain ⟨order, hordered⟩ := ih
        exact hordered.locks hexclusive hphases
  obtain ⟨order, hordered⟩ := hordered
  -- the owners that are not done yet conflict with nobody, and come last
  have hnodup : (order ++ (history.map owner).dedup.filter fun t => t ∉ order).Nodup := by
    refine List.nodup_append.mpr ⟨hordered.nodup, (List.nodup_dedup _).filter _, ?_⟩
    rintro t ht _ hrest rfl
    exact of_decide_eq_true (List.mem_filter.mp hrest).2 ht
  have hall : ∀ a ∈ history,
      owner a ∈ order ++ (history.map owner).dedup.filter fun t => t ∉ order := by
    intro a hmem
    by_cases hin : owner a ∈ order
    · exact List.mem_append_left _ hin
    · refine List.mem_append_right _ (List.mem_filter.mpr ⟨?_, decide_eq_true hin⟩)
      exact List.mem_dedup.mpr (List.mem_map_of_mem hmem)
  refine ⟨_, hnodup, hall, foldl_serial hcommute hnodup hall ?_⟩
  exact hordered.precedes.imp fun hpair hne hconflict => idxOf_lt_append (hpair hne hconflict) _

end TwoPhase

end Serializability
