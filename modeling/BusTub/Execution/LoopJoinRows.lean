import BusTub.Execution.ExecutorPasses
import BusTub.Execution.FilterSemantics

/-! # The rows of a nested loop join

The join goes through the pairs of a left and a right row in the order of the left rows, and
for each of them in that of the right ones. Without NULL predicates, its rows are those of the
pairs that satisfy the predicate.
-/

namespace BusTub.LoopJoinExecutor

open Cursor Generator

/-! ## Calls behind the end -/

section Ended

variable [DoubleText] {plan : NestedLoopJoinPlanNode} {left right : AbstractExecutor} {fuel : Nat}

/-- The loop ends when the right child has ended, and then the left one. -/
theorem nextLoop_ended {turns : Nat} {exec exec' : LoopJoinExecutor left.State right.State}
    {rightTuple : Tuple} (hleft : left.Reached exec.leftExecutor)
    (hright : right.Reached exec.rightExecutor)
    (hloop : nextLoop plan left right turns exec rightTuple = .ok (none, exec')) :
    left.Ended exec'.leftExecutor ∧ right.Ended exec'.rightExecutor := by
  induction turns generalizing exec rightTuple with
  | zero => cases hloop
  | succ turns ih =>
      rw [nextLoop] at hloop
      split at hloop
      · cases hloop
      next hnext =>
        have hended := hright.next hnext
        split at hloop
        · cases hloop
        next hleftNext =>
          cases hloop
          exact ⟨⟨_, _, _, hleft, hleftNext⟩, ⟨_, _, _, hright, hnext⟩⟩
        next hleftNext =>
          split at hloop
          · cases hloop
          next hinit => exact ih (hleft.next hleftNext) (hended.init hinit) hloop
      next hnext =>
        have hread := hright.next hnext
        split at hloop
        · cases hloop
        · refine ih ?_ ?_ hloop
          · exact hleft
          · exact hread
        · split at hloop
          · cases hloop
          · cases hloop

theorem staysEnded (hleft : left.StaysEnded) (hright : right.StaysEnded) :
    (abstractExecutor plan left right fuel).StaysEnded := by
  intro exec hended tuple
  obtain ⟨before, buffer, buffer', hreached, hnext⟩ := hended
  obtain ⟨hleftReached, hrightReached⟩ := reached_children hreached
  simp only [abstractExecutor] at hnext ⊢
  split at hnext
  · split at hnext
    · cases hnext
    next hloop =>
      cases hnext
      obtain ⟨hleftEnded, hrightEnded⟩ := nextLoop_ended hleftReached hrightReached hloop
      cases fuel with
      | zero => cases hloop
      | succ fuel =>
          -- the next call asks both children once more
          obtain ⟨rightTuple, rightExecutor, hrightNext⟩ := hright _ hrightEnded []
          obtain ⟨leftTuple, leftExecutor, hleftNext⟩ := hleft _ hleftEnded exec.leftTuple
          split
          · refine ⟨tuple, { exec with leftExecutor, rightExecutor, leftTuple }, ?_⟩
            simp only [nextLoop, hrightNext, hleftNext]
          · exact ⟨tuple, exec, rfl⟩
    · cases hnext
  next hselected =>
    cases hnext
    rw [if_neg hselected]
    exact ⟨tuple, exec, rfl⟩

end Ended

/-! ## Pairs as a list -/

section Pairs

variable [DoubleText] (plan : NestedLoopJoinPlanNode)

/-- What the pairs of a list come to, in its order. -/
def outputs (pairs : List (Tuple × Tuple)) : List Tuple × Option PlanFault :=
  let result := filtered (fun pair => passes plan pair.1 pair.2)
    (fun pair => outputTuple plan pair.1 pair.2) pairs
  (result.1, result.2.map .eval)

variable {plan}

theorem pairsWith_eq (leftTuple : Tuple) (rightRest : List Tuple) (others : List (Tuple × Tuple)) :
    pairsWith plan leftTuple (outputs plan others) rightRest =
      outputs plan (rightRest.map (leftTuple, ·) ++ others) := by
  induction rightRest with
  | nil => rfl
  | cons rightTuple rest ih =>
      rw [pairsWith, ih, List.map_cons, List.cons_append]
      unfold outputs
      rw [filtered]
      cases passes plan leftTuple rightTuple with
      | error fault => rfl
      | ok b =>
          cases b with
          | false => rfl
          | true => cases outputTuple plan leftTuple rightTuple <;> rfl

theorem pairs_eq (rightRows : List Tuple) (leftTuple : Tuple) (leftRest rightRest : List Tuple) :
    pairs plan none rightRows none leftTuple leftRest rightRest =
      outputs plan (rightRest.map (leftTuple, ·) ++ leftRest.product rightRows) := by
  induction leftRest generalizing leftTuple rightRest with
  | nil => exact pairsWith_eq leftTuple rightRest []
  | cons nextTuple leftRest ih =>
      rw [pairs, ih]
      exact pairsWith_eq leftTuple rightRest _

theorem joined_eq (leftRows rightRows : List Tuple) :
    joined plan (.read leftRows none) (.read rightRows none) =
      .read (outputs plan (leftRows.product rightRows)).1
        (outputs plan (leftRows.product rightRows)).2 := by
  cases leftRows with
  | nil => rfl
  | cons leftTuple leftRest =>
      rw [joined, pairs_eq]
      rfl

end Pairs

/-! ## Predicates without NULL -/

section Predicates

variable [DoubleText] {plan : NestedLoopJoinPlanNode} {pair : Tuple × Tuple} {b : Bool}

/-- The value of the predicate for a pair of rows. -/
def predicateValue (plan : NestedLoopJoinPlanNode) (pair : Tuple × Tuple) :
    Except EvalFault Value :=
  (Expression.orTrue plan.predicate).evaluateJoin pair.1 plan.leftSchema pair.2 plan.rightSchema

/-- The predicate has a value for the pair that is not NULL, and it is the bool. -/
def Judges (plan : NestedLoopJoinPlanNode) (b : Bool) (pair : Tuple × Tuple) : Prop :=
  ∃ value, predicateValue plan pair = .ok value ∧ value.isNull = false ∧ value.getAsBool = .ok b

instance (plan : NestedLoopJoinPlanNode) (b : Bool) (pair : Tuple × Tuple) :
    Decidable (Judges plan b pair) :=
  match hvalue : predicateValue plan pair with
  | .error _ => isFalse fun ⟨_, hother, _⟩ => nomatch hvalue.symm.trans hother
  | .ok value =>
      decidable_of_iff (value.isNull = false ∧ value.getAsBool = .ok b)
        ⟨fun h => ⟨value, hvalue, h⟩, fun ⟨_, hother, h⟩ =>
          Except.ok.inj (hvalue.symm.trans hother) ▸ h⟩

/-- An absent predicate judges every pair to be true. -/
theorem judges_of_absent (habsent : plan.predicate = none) (pair : Tuple × Tuple) :
    Judges plan true pair := by
  refine ⟨.boolean 1, ?_, rfl, rfl⟩
  unfold predicateValue
  rw [habsent]
  rfl

theorem Judges.passes_eq (h : Judges plan b pair) : passes plan pair.1 pair.2 = .ok b := by
  obtain ⟨value, hvalue, -, hbool⟩ := h
  exact Except.bind_eq_ok_iff.mpr ⟨value, hvalue, hbool⟩

theorem Judges.unique {b' : Bool} (h : Judges plan b pair) (h' : Judges plan b' pair) : b = b' :=
  Except.ok.inj (h.passes_eq.symm.trans h'.passes_eq)

/-! ## The join -/

variable {left right : AbstractExecutor} {fuel : Nat}

/-- Each row of the join is the output for a pair that satisfies the predicate. -/
def IsJoin (plan : NestedLoopJoinPlanNode) (leftRows rightRows rows : List Tuple) : Prop :=
  List.Forall₂ (fun pair row => outputTuple plan pair.1 pair.2 = .ok row)
    ((leftRows.product rightRows).filter (Judges plan true ·)) rows

theorem outputs_eq {pairs : List (Tuple × Tuple)} {rows : List Tuple}
    (hjudged : ∀ pair ∈ pairs, ∃ b, Judges plan b pair)
    (hrows : List.Forall₂ (fun pair row => outputTuple plan pair.1 pair.2 = .ok row)
      (pairs.filter (Judges plan true ·)) rows) : outputs plan pairs = (rows, none) := by
  have hsame : pairs.filter (Judges plan true ·) =
      pairs.filter (accepts fun pair => passes plan pair.1 pair.2) := by
    refine List.filter_congr fun pair hmem => ?_
    obtain ⟨b, hb⟩ := hjudged pair hmem
    have haccepts : accepts (fun pair => passes plan pair.1 pair.2) pair = b :=
      accepts_of_ok hb.passes_eq
    rw [haccepts]
    cases b with
    | true => exact decide_eq_true hb
    | false => exact decide_eq_false fun htrue => Bool.false_ne_true (hb.unique htrue)
  have hpasses : ∀ pair ∈ pairs, ∃ b, passes plan pair.1 pair.2 = .ok b := by
    intro pair hmem
    obtain ⟨b, hb⟩ := hjudged pair hmem
    exact ⟨b, hb.passes_eq⟩
  have hemitted := emitted_eq_ok_iff.mpr ⟨hpasses, hsame ▸ hrows⟩
  unfold outputs
  rw [filtered_eq_iff.mpr hemitted]
  rfl

/-- Draining a nested loop join yields the outputs for the pairs that satisfy the predicate,
each once and in the order of the left rows and then of the right ones. Calls behind the end
find nothing, if those of the children do not. -/
theorem drained_isJoin {exec : (abstractExecutor plan left right fuel).State}
    (hreached : (abstractExecutor plan left right fuel).Reached exec)
    {leftRows rightRows : List Tuple} (hleft : left.Gives exec.leftExecutor (.read leftRows none))
    (hright : right.Restarts (.read rightRows none))
    (hknown : plan.predicate ≠ none →
      ∀ pair ∈ leftRows.product rightRows, ∃ b, Judges plan b pair)
    (houtput : ∀ pair ∈ leftRows.product rightRows, Judges plan true pair →
      ∃ row, outputTuple plan pair.1 pair.2 = .ok row)
    (hfuel : leftRows.length * (rightRows.length + 1) ≤ fuel) :
    ∃ rows, IsJoin plan leftRows rightRows rows ∧
      (∀ turns tuple, rows.length < turns →
        (abstractExecutor plan left right fuel).pass .exhausted turns exec tuple = (rows, none)) ∧
      (left.StaysEnded → right.StaysEnded →
        (abstractExecutor plan left right fuel).StaysEnded) := by
  have hjudged : ∀ pair ∈ leftRows.product rightRows, ∃ b, Judges plan b pair := by
    intro pair hmem
    by_cases habsent : plan.predicate = none
    · exact ⟨true, judges_of_absent habsent pair⟩
    · exact hknown habsent pair hmem
  obtain ⟨rows, hrows⟩ : ∃ rows, IsJoin plan leftRows rightRows rows := by
    apply exists_forall₂
    intro pair hin
    obtain ⟨hmem, htrue⟩ := List.mem_filter.mp hin
    exact houtput pair hmem (of_decide_eq_true htrue)
  have hgives := gives hreached hleft hright hfuel
  rw [joined_eq, outputs_eq hjudged hrows] at hgives
  exact ⟨rows, hrows, fun turns tuple hturns => hgives.pass_eq hturns tuple, staysEnded⟩

end Predicates

/-- The bytes of the INTEGER 6. -/
def sixTuple : Tuple := [6, 0, 0, 0]

/-- Numbers are joined with numbers that come in another order. -/
theorem drained_isJoin_numbers :
    let _ := noDoubleText
    let left := ofRows PlanFault [fiveTuple, sixTuple]
    let right := ofRows PlanFault [sixTuple, fiveTuple, sixTuple]
    let join := abstractExecutor equalityJoin left right 8
    ∃ rows, IsJoin equalityJoin [fiveTuple, sixTuple] [sixTuple, fiveTuple, sixTuple] rows ∧
      (∀ turns tuple, rows.length < turns →
        join.pass .exhausted turns join.start tuple = (rows, none)) ∧
      (left.StaysEnded → right.StaysEnded → join.StaysEnded) := by
  intro _ left right join
  apply drained_isJoin .start
  · exact ofRows_restarts _ _ .start
  · exact ofRows_restarts _
  · decide
  · intro pair hmem _
    have houtput : ∀ pair ∈ [fiveTuple, sixTuple].product [sixTuple, fiveTuple, sixTuple],
        outputTuple equalityJoin pair.1 pair.2 = .ok pair.1 := by decide
    exact ⟨pair.1, houtput pair hmem⟩
  · decide

end BusTub.LoopJoinExecutor
