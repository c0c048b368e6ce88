import BusTub.Buffer.LRUReplacer
import BusTub.Library.ArrivalQueue
import BusTub.Library.Machine
import Mathlib.Data.Finset.Card

/-! # The order of eviction

The replacer is a queue of the frames that may be evicted. A frame arrives with its first `Unpin`
and leaves with a `Pin` or as the victim; the victim is the frame that arrived first. The linked
list is that queue, and the iterators find each frame's own node in it.
-/

namespace BusTub.LRUReplacer

open ArrivalQueue

variable {poolSize : Nat} {r next final : LRUReplacer poolSize} {frameId : Fin poolSize}
  {log : List (Arrival (Fin poolSize))}

/-- The calls of the public interface. -/
inductive Call (poolSize : Nat) where
  | victim
  | pin (frameId : Fin poolSize)
  | unpin (frameId : Fin poolSize)
  deriving DecidableEq, Repr

/-- One call. Only `Victim` has a result; none of them fails. -/
def step (r : LRUReplacer poolSize) :
    Call poolSize → Except Empty (Option (Fin poolSize) × LRUReplacer poolSize)
  | .victim => .ok r.victim
  | .pin frameId => .ok (none, r.pin frameId)
  | .unpin frameId => .ok (none, r.unpin frameId)

/-- The replacer as a machine. -/
def machine (poolSize : Nat) :
    Machine (LRUReplacer poolSize) (Call poolSize) (Option (Fin poolSize)) Empty := ⟨step⟩

/-- What a call with its result means for the queue. -/
def Call.arrival : Call poolSize → Option (Fin poolSize) → Option (Arrival (Fin poolSize))
  | .victim, result => result.map .leaves
  | .pin frameId, _ => some (.leaves frameId)
  | .unpin frameId, _ => some (.arrives frameId)

/-- The log of a run. -/
def history (calls : List (Call poolSize)) (results : List (Option (Fin poolSize))) :
    List (Arrival (Fin poolSize)) :=
  (calls.zip results).filterMap fun entry => entry.1.arrival entry.2

/-- What the log says of the replacer. A frame that is present in the log can be evicted. -/
structure RefinesQueue (log : List (Arrival (Fin poolSize))) (r : LRUReplacer poolSize) :
    Prop where
  nodup : r.frames.Nodup
  iterNone : ∀ f, r.page2Iter f = none ↔ f ∉ r.frames
  iterSome : ∀ f node, r.page2Iter f = some node ↔ (node, f) ∈ r.waitList
  nodes : (r.waitList.map Prod.fst).Nodup
  size : ∃ evictable : Finset (Fin poolSize),
    (∀ f, f ∈ evictable ↔ Present log f) ∧ r.size = evictable.card
  victim : ∀ f, r.victim.1 = some f → ∃ t, Since log f t ∧ (∀ g u, Since log g u → t ≤ u) ∧
    r.victim.2.frames = r.frames.erase f
  noVictim : r.victim.1 = none ↔ ∀ f, ¬ Present log f
  unpin : ∀ f, Present log f → r.unpin f = r
  pin : ∀ f, ¬ Present log f → r.pin f = r

/-! ## Steps -/

theorem WellFormed.page2Iter_eq_none_iff (h : r.WellFormed) :
    r.page2Iter frameId = none ↔ frameId ∉ r.frames := by
  rw [← h.isInReplacer_iff, isInReplacer, Bool.not_eq_true, Option.isSome_eq_false_iff,
    Option.isNone_iff_eq_none]

theorem sublist_frames_pin : (r.pin frameId).frames.Sublist r.frames := by
  unfold LRUReplacer.pin
  split
  · exact List.Sublist.refl _
  · exact List.eraseP_sublist.map _

/-- A pin of a frame that is not there changes nothing. -/
theorem WellFormed.pin_of_not_mem (h : r.WellFormed) (hout : frameId ∉ r.frames) :
    r.pin frameId = r := by
  unfold LRUReplacer.pin
  rw [h.page2Iter_eq_none_iff.mpr hout]

/-- An unpin of a frame that is there changes nothing. -/
theorem WellFormed.unpin_of_mem (h : r.WellFormed) (hin : frameId ∈ r.frames) :
    r.unpin frameId = r :=
  if_pos (h.isInReplacer_iff.mpr hin)

theorem WellFormed.frames_unpin_of_not_mem (h : r.WellFormed) (hout : frameId ∉ r.frames) :
    (r.unpin frameId).frames = frameId :: r.frames := by
  unfold LRUReplacer.unpin
  rw [if_neg (mt h.isInReplacer_iff.mp hout)]
  rfl

theorem WellFormed.frames_victim_of_some (h : r.WellFormed) (hvictim : r.victim.1 = some frameId) :
    r.frames.getLast? = some frameId ∧ r.victim.2.frames.Sublist r.frames ∧
      ∀ f, f ∈ r.victim.2.frames ↔ f ∈ r.frames ∧ f ≠ frameId := by
  obtain ⟨hlast, hrest⟩ := frames_victim (r := r)
  rw [hvictim] at hlast
  have hsplit : r.frames = r.victim.2.frames ++ [frameId] := by
    rw [hrest]
    exact (List.dropLast_append_getLast? frameId hlast.symm).symm
  have hnodup := h.nodup_frames
  rw [hsplit, List.nodup_append] at hnodup
  refine ⟨hlast.symm, hrest ▸ List.dropLast_sublist _, fun f => ?_⟩
  rw [hsplit, List.mem_append, List.mem_singleton]
  constructor
  · exact fun hmem => ⟨Or.inl hmem, hnodup.2.2 f hmem frameId (List.mem_singleton_self frameId)⟩
  · rintro ⟨hmem | rfl, hne⟩
    · exact hmem
    · exact absurd rfl hne

/-- Each call keeps the frames in the order of the log. -/
theorem WellFormed.step (h : r.WellFormed) (horders : Orders log r.frames) (call : Call poolSize) :
    ∃ result next, r.step call = .ok (result, next) ∧ next.WellFormed ∧
      Orders (log ++ (call.arrival result).toList) next.frames := by
  cases call with
  | victim =>
      refine ⟨r.victim.1, r.victim.2, rfl, h.victim, ?_⟩
      cases hvictim : r.victim.1 with
      | none =>
          obtain ⟨hlast, hrest⟩ := frames_victim (r := r)
          rw [hvictim] at hlast
          have hempty : r.frames = [] := List.getLast?_eq_none_iff.mp hlast.symm
          change Orders (log ++ []) _
          rw [List.append_nil, hrest, hempty, List.dropLast_nil, ← hempty]
          exact horders
      | some frameId =>
          obtain ⟨-, hsub, hmem⟩ := h.frames_victim_of_some hvictim
          exact horders.leave hsub hmem
  | pin frameId =>
      exact ⟨_, _, rfl, h.pin, horders.leave sublist_frames_pin h.mem_frames_pin⟩
  | unpin frameId =>
      refine ⟨_, _, rfl, h.unpin, ?_⟩
      by_cases hin : frameId ∈ r.frames
      · rw [h.unpin_of_mem hin]
        exact horders.arrive_again hin
      · rw [h.frames_unpin_of_not_mem hin]
        exact horders.arrive hin

theorem WellFormed.run (h : r.WellFormed) (horders : Orders log r.frames)
    (calls : List (Call poolSize)) : ∃ results final, (machine poolSize).run r calls =
      .ok (results, final) ∧ final.WellFormed ∧
        Orders (log ++ history calls results) final.frames := by
  induction calls generalizing r log with
  | nil => exact ⟨[], r, rfl, h, by simpa [history] using horders⟩
  | cons call rest ih =>
      obtain ⟨result, next, hstep, hnext, hordersNext⟩ := h.step horders call
      obtain ⟨results, final, hrun, hfinal, hordersFinal⟩ := ih hnext hordersNext
      refine ⟨result :: results, final, ?_, hfinal, ?_⟩
      · rw [Machine.run_cons_of_step hstep, hrun]
      · have hhistory : history (call :: rest) (result :: results) =
            (call.arrival result).toList ++ history rest results := by
          unfold history
          rw [List.zip_cons_cons, List.filterMap_cons]
          cases call.arrival result <;> rfl
        rw [hhistory, ← List.append_assoc]
        exact hordersFinal

/-! ## Runs -/

theorem WellFormed.refinesQueue (h : r.WellFormed) (horders : Orders log r.frames) :
    RefinesQueue log r where
  nodup := h.nodup_frames
  iterNone _ := h.page2Iter_eq_none_iff
  iterSome := h.iter
  nodes := h.nodes
  size := by
    refine ⟨r.frames.toFinset, fun f => ?_, ?_⟩
    · rw [List.mem_toFinset, horders.mem]
    · rw [List.toFinset_card_of_nodup h.nodup_frames]
      exact (List.length_map Prod.snd).symm
  victim f hvictim := by
    obtain ⟨hlast, hsub, hmem⟩ := h.frames_victim_of_some hvictim
    obtain ⟨t, ht, hfirst⟩ := horders.getLast hlast
    refine ⟨t, ht, hfirst, ?_⟩
    have hsplit : r.frames = r.frames.dropLast ++ [f] :=
      (List.dropLast_append_getLast? f hlast).symm
    have hdrop : r.victim.2.frames = r.frames.dropLast := frames_victim.2
    have hout : f ∉ r.frames.dropLast := fun hin => ((hmem f).mp (hdrop ▸ hin)).2 rfl
    calc r.victim.2.frames = r.frames.dropLast := hdrop
      _ = (r.frames.dropLast ++ [f]).erase f := by
          rw [List.erase_append_right _ hout, List.erase_cons_head, List.append_nil]
      _ = r.frames.erase f := by rw [← hsplit]
  noVictim := by
    rw [frames_victim.1, List.getLast?_eq_none_iff, List.eq_nil_iff_forall_not_mem]
    exact forall_congr' fun f => not_congr (horders.mem f)
  unpin f hpresent := h.unpin_of_mem ((horders.mem f).mpr hpresent)
  pin f habsent := h.pin_of_not_mem (mt (horders.mem f).mp habsent)

/-- Over any calls the replacer is the queue of the frames that were unpinned and have since
been neither pinned nor evicted, in the order of their first unpin. -/
theorem run_refinesQueue (calls : List (Call poolSize)) :
    ∃ results final, (machine poolSize).run {} calls = .ok (results, final) ∧
      RefinesQueue (history calls results) final := by
  obtain ⟨results, final, hrun, hfinal, horders⟩ := wellFormed_empty.run orders_nil calls
  exact ⟨results, final, hrun, hfinal.refinesQueue horders⟩

/-- Frame `0` keeps its place, and frame `1` loses its own. -/
example : ((machine 3).run {} [.unpin 0, .unpin 1, .unpin 2, .unpin 0, .pin 1, .unpin 1, .victim,
    .victim, .victim, .victim]).toOption.map Prod.fst =
      some [none, none, none, none, none, none, some 0, some 2, some 1, none] := by decide

end BusTub.LRUReplacer
