import BusTub.Execution.NestedLoopJoinExecutor

/-! # Aggregations

`AggregationExecutor` from where its hash table is filled: the executor goes through the
groups of the table, in the order of the table's iterator.
-/

namespace BusTub

/-- The output schema and the HAVING clause of an `AggregationPlanNode`. -/
structure AggregationPlanNode where
  outputSchema : Schema
  having : Option Expression
  deriving DecidableEq, Repr

/-- An entry of `SimpleAggregationHashTable`. -/
structure AggregateGroup where
  /-- `AggregateKey`. -/
  groupBys : List Value
  /-- `AggregateValue`. -/
  aggregates : List Value
  deriving DecidableEq, Repr

/-- `AggregationExecutor`: the groups of the table, and those that the iterator has not
passed yet. -/
structure AggregationExecutor where
  plan : AggregationPlanNode
  aht : List AggregateGroup
  ahtIterator : List AggregateGroup
  deriving DecidableEq, Repr

namespace AggregationExecutor

/-- `Init`. -/
def init (exec : AggregationExecutor) : AggregationExecutor := { exec with ahtIterator := exec.aht }

variable [DoubleText]

/-- The HAVING clause holds for a group. -/
def passes (plan : AggregationPlanNode) (group : AggregateGroup) : Except EvalFault Bool :=
  match plan.having with
  | none => .ok true
  | some having => passesIn (Context.ofAggregate group.groupBys group.aggregates) having

/-- The output tuple for a group. -/
def output (plan : AggregationPlanNode) (group : AggregateGroup) : Except EvalFault Tuple := do
  let values ← outputValues (Expression.evaluateAggregate group.groupBys group.aggregates)
    plan.outputSchema
  Tuple.ofValues values plan.outputSchema

/-- The loop of `Next`. -/
def nextLoop (plan : AggregationPlanNode) :
    List AggregateGroup → Except EvalFault (Option Tuple × List AggregateGroup)
  | [] => .ok (none, [])
  | group :: rest =>
      match passes plan group with
      | .error fault => .error fault
      | .ok false => nextLoop plan rest
      | .ok true =>
          match output plan group with
          | .error fault => .error fault
          | .ok tuple => .ok (some tuple, rest)

/-- `Next`. -/
def next (exec : AggregationExecutor) : Except EvalFault (Option Tuple × AggregationExecutor) :=
  match nextLoop exec.plan exec.ahtIterator with
  | .error fault => .error fault
  | .ok (tuple, ahtIterator) => .ok (tuple, { exec with ahtIterator })

theorem nextLoop_spec (plan : AggregationPlanNode) (groups : List AggregateGroup) :
    match Generator.firstPassing (passes plan) groups with
    | .error fault => nextLoop plan groups = .error fault
    | .ok none => nextLoop plan groups = .ok (none, [])
    | .ok (some (group, rest)) =>
        match output plan group with
        | .error fault => nextLoop plan groups = .error fault
        | .ok tuple => nextLoop plan groups = .ok (some tuple, rest) := by
  induction groups with
  | nil => rfl
  | cons group rest ih =>
      rw [Generator.firstPassing, nextLoop]
      cases hpasses : passes plan group with
      | error fault => rfl
      | ok b =>
          cases b with
          | false => exact ih
          | true =>
              dsimp only
              cases houtput : output plan group <;> rfl

/-- An aggregation filters the groups of its table. -/
theorem filters (plan : AggregationPlanNode) :
    Generator.Filters (passes plan) (output plan) next
      (fun exec groups => exec.plan = plan ∧ exec.ahtIterator = groups) := by
  rintro exec groups ⟨rfl, rfl⟩
  have hloop := nextLoop_spec exec.plan exec.ahtIterator
  unfold next
  cases hfound : Generator.firstPassing (passes exec.plan) exec.ahtIterator with
  | error fault =>
      rw [hfound] at hloop
      dsimp only at hloop ⊢
      rw [hloop]
  | ok found =>
      rw [hfound] at hloop
      cases found with
      | none =>
          dsimp only at hloop ⊢
          rw [hloop]
          exact ⟨_, rfl⟩
      | some found =>
          obtain ⟨group, rest⟩ := found
          dsimp only at hloop ⊢
          cases houtput : output exec.plan group with
          | error fault =>
              rw [houtput] at hloop
              dsimp only at hloop ⊢
              rw [hloop]
          | ok tuple =>
              rw [houtput] at hloop
              dsimp only at hloop ⊢
              rw [hloop]
              exact ⟨_, rfl, rfl, rfl⟩

end AggregationExecutor

end BusTub
