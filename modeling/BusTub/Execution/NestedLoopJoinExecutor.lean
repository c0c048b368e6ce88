import BusTub.Execution.SeqScanExecutor

/-! # Nested loop joins

`NestedLoopJoinExecutor`. A child executor is the rows that it yields after each `Init`.
-/

namespace BusTub

/-- The rows that a child executor yields, and those that are still to come. Beside a tuple
stands the record id that its reader passes on: for `NestedLoopJoinExecutor` the tuple's own,
which is the default one of a tuple that was built from values, since what the child writes
to the out-parameter is never read; for `HashJoinExecutor` what the child hands out. -/
structure ChildExecutor where
  rows : List (Tuple × RID)
  rest : List (Tuple × RID)
  deriving DecidableEq, Repr

namespace ChildExecutor

/-- `Init`. -/
def init (child : ChildExecutor) : ChildExecutor := { child with rest := child.rows }

/-- `Next`. -/
def next (child : ChildExecutor) : Option (Tuple × RID) × ChildExecutor :=
  match child.rest with
  | [] => (none, child)
  | row :: rest => (some row, { child with rest })

end ChildExecutor

/-- `NestedLoopJoinPlanNode`, with the output schemas of the children's plans. -/
structure NestedLoopJoinPlanNode where
  outputSchema : Schema
  leftSchema : Schema
  rightSchema : Schema
  predicate : Option Expression
  deriving DecidableEq, Repr

/-- `NestedLoopJoinExecutor`; `leftRow` is the left tuple with its own record id, and is
`none` when no left tuple was selected. -/
structure NestedLoopJoinExecutor where
  plan : NestedLoopJoinPlanNode
  leftChild : ChildExecutor
  rightChild : ChildExecutor
  leftRow : Option (Tuple × RID)
  deriving DecidableEq, Repr

namespace NestedLoopJoinExecutor

/-- The constructor. -/
def new (plan : NestedLoopJoinPlanNode) (left right : List (Tuple × RID)) :
    NestedLoopJoinExecutor where
  plan
  leftChild := { rows := left, rest := [] }
  rightChild := { rows := right, rest := [] }
  leftRow := none

/-- `Init`. -/
def init (exec : NestedLoopJoinExecutor) : NestedLoopJoinExecutor :=
  let (leftRow, leftChild) := exec.leftChild.init.next
  { exec with leftChild, leftRow, rightChild := exec.rightChild.init }

variable [DoubleText]

/-- The predicate holds for a pair of rows. -/
def passes (plan : NestedLoopJoinPlanNode) (pair : (Tuple × RID) × (Tuple × RID)) :
    Except EvalFault Bool :=
  passesIn (Context.ofJoin pair.1.1 plan.leftSchema pair.2.1 plan.rightSchema)
    (Expression.orTrue plan.predicate)

omit [DoubleText] in
/-- The value of an output column, whose expression is taken for a column of one side. -/
def readColumn (plan : NestedLoopJoinPlanNode) (leftTuple rightTuple : Tuple) :
    Expression → Except EvalFault Value
  | .columnValue tupleIdx colIdx =>
      if tupleIdx = 0 then leftTuple.getValue plan.leftSchema colIdx
      else rightTuple.getValue plan.rightSchema colIdx
  | _ => .error .noColumnExpression

omit [DoubleText] in
/-- The output tuple for a pair of rows, with `left_tuple_.GetRid()`. -/
def output (plan : NestedLoopJoinPlanNode) (pair : (Tuple × RID) × (Tuple × RID)) :
    Except EvalFault (Tuple × RID) := do
  let values ← outputValues (readColumn plan pair.1.1 pair.2.1) plan.outputSchema
  let tuple ← Tuple.ofValues values plan.outputSchema
  .ok (tuple, pair.1.2)

/-- The turns of the loop of `Next` for one left row, up to the end of the right child. -/
def scanRight (plan : NestedLoopJoinPlanNode) (leftRow : Tuple × RID) :
    List (Tuple × RID) → Except EvalFault (Option (Tuple × RID) × List (Tuple × RID))
  | [] => .ok (none, [])
  | rightRow :: rest =>
      match passes plan (leftRow, rightRow) with
      | .error fault => .error fault
      | .ok false => scanRight plan leftRow rest
      | .ok true =>
          match output plan (leftRow, rightRow) with
          | .error fault => .error fault
          | .ok result => .ok (some result, rest)

/-- The loop of `Next`: at the end of the right child it goes on with the next left row
and all right ones. -/
def nextLoop (plan : NestedLoopJoinPlanNode) (right : List (Tuple × RID)) :
    Tuple × RID → List (Tuple × RID) → List (Tuple × RID) → Except EvalFault
      (Option (Tuple × RID) × (Tuple × RID) × List (Tuple × RID) × List (Tuple × RID))
  | leftRow, leftRest, rightRest =>
      match scanRight plan leftRow rightRest with
      | .error fault => .error fault
      | .ok (some result, rightRest) => .ok (some result, leftRow, leftRest, rightRest)
      | .ok (none, rightRest) =>
          match leftRest with
          | [] => .ok (none, leftRow, [], rightRest)
          | leftRow :: leftRest => nextLoop plan right leftRow leftRest right

/-- `Next`. -/
def next (exec : NestedLoopJoinExecutor) :
    Except EvalFault (Option (Tuple × RID) × NestedLoopJoinExecutor) :=
  match exec.leftRow with
  | none => .ok (none, exec)
  | some leftRow =>
      match nextLoop exec.plan exec.rightChild.rows leftRow exec.leftChild.rest
        exec.rightChild.rest with
      | .error fault => .error fault
      | .ok (result, leftRow, leftRest, rightRest) =>
          .ok (result, { exec with
            leftRow := some leftRow
            leftChild := { exec.leftChild with rest := leftRest }
            rightChild := { exec.rightChild with rest := rightRest } })

/-! ## The pairs that a join goes through -/

omit [DoubleText] in
/-- The pairs of the left row with the rest of the right ones, and of each other left row
with all of them. -/
def pairs (right : List (Tuple × RID)) (leftRow : Tuple × RID) (leftRest rightRest :
    List (Tuple × RID)) : List ((Tuple × RID) × (Tuple × RID)) :=
  rightRest.map (leftRow, ·) ++ leftRest.product right

variable {plan : NestedLoopJoinPlanNode} {right leftRest rightRest : List (Tuple × RID)}
  {leftRow rightRow : Tuple × RID}

theorem nextLoop_of_fails (hfails : passes plan (leftRow, rightRow) = .ok false) :
    nextLoop plan right leftRow leftRest (rightRow :: rightRest) =
      nextLoop plan right leftRow leftRest rightRest := by
  have hscan : scanRight plan leftRow (rightRow :: rightRest) =
      scanRight plan leftRow rightRest := by
    rw [scanRight, hfails]
  cases leftRest with
  | nil => rw [nextLoop, nextLoop, hscan]
  | cons _ _ => rw [nextLoop, nextLoop, hscan]

theorem nextLoop_of_passes (hpasses : passes plan (leftRow, rightRow) = .ok true) :
    nextLoop plan right leftRow leftRest (rightRow :: rightRest) =
      match output plan (leftRow, rightRow) with
      | .error fault => .error fault
      | .ok result => .ok (some result, leftRow, leftRest, rightRest) := by
  have hscan : scanRight plan leftRow (rightRow :: rightRest) =
      match output plan (leftRow, rightRow) with
      | .error fault => .error fault
      | .ok result => .ok (some result, rightRest) := by
    rw [scanRight, hpasses]
  cases leftRest with
  | nil =>
      rw [nextLoop, hscan]
      cases output plan (leftRow, rightRow) <;> rfl
  | cons _ _ =>
      rw [nextLoop, hscan]
      cases output plan (leftRow, rightRow) <;> rfl

theorem nextLoop_of_error {fault : EvalFault}
    (hpasses : passes plan (leftRow, rightRow) = .error fault) :
    nextLoop plan right leftRow leftRest (rightRow :: rightRest) = .error fault := by
  have hscan : scanRight plan leftRow (rightRow :: rightRest) = .error fault := by
    rw [scanRight, hpasses]
  cases leftRest with
  | nil => rw [nextLoop, hscan]
  | cons _ _ => rw [nextLoop, hscan]

/-- The loop of `Next` looks through the pairs for the next one that passes. -/
def LooksThrough (plan : NestedLoopJoinPlanNode) (right : List (Tuple × RID))
    (leftRow : Tuple × RID) (leftRest rightRest : List (Tuple × RID)) : Prop :=
  match Generator.firstPassing (passes plan) (pairs right leftRow leftRest rightRest) with
  | .error fault => nextLoop plan right leftRow leftRest rightRest = .error fault
  | .ok none => ∃ final, nextLoop plan right leftRow leftRest rightRest = .ok (none, final)
  | .ok (some (pair, rest)) =>
      match output plan pair with
      | .error fault => nextLoop plan right leftRow leftRest rightRest = .error fault
      | .ok result => ∃ leftRow' leftRest' rightRest',
          nextLoop plan right leftRow leftRest rightRest =
            .ok (some result, leftRow', leftRest', rightRest') ∧
          rest = pairs right leftRow' leftRest' rightRest'

theorem LooksThrough.cons (h : LooksThrough plan right leftRow leftRest rightRest)
    (rightRow : Tuple × RID) :
    LooksThrough plan right leftRow leftRest (rightRow :: rightRest) := by
  unfold LooksThrough
  have hpairs : pairs right leftRow leftRest (rightRow :: rightRest) =
      (leftRow, rightRow) :: pairs right leftRow leftRest rightRest := rfl
  rw [hpairs, Generator.firstPassing]
  cases hpasses : passes plan (leftRow, rightRow) with
  | error fault => exact nextLoop_of_error hpasses
  | ok b =>
      cases b with
      | false =>
          rw [nextLoop_of_fails hpasses]
          exact h
      | true =>
          rw [nextLoop_of_passes hpasses]
          dsimp only
          cases houtput : output plan (leftRow, rightRow) with
          | error fault => rfl
          | ok result => exact ⟨leftRow, leftRest, rightRest, rfl, rfl⟩

theorem looksThrough (plan : NestedLoopJoinPlanNode) (right : List (Tuple × RID))
    (leftRow : Tuple × RID) (leftRest rightRest : List (Tuple × RID)) :
    LooksThrough plan right leftRow leftRest rightRest := by
  induction leftRest generalizing leftRow rightRest with
  | nil =>
      induction rightRest with
      | nil => exact ⟨(leftRow, [], []), rfl⟩
      | cons rightRow rightRest ih => exact ih.cons rightRow
  | cons nextRow leftRest ihLeft =>
      induction rightRest with
      | nil => exact ihLeft nextRow right
      | cons rightRow rightRest ih => exact ih.cons rightRow

omit [DoubleText] in
/-- The executor has the pairs before it. -/
def Joining (plan : NestedLoopJoinPlanNode) (right : List (Tuple × RID))
    (exec : NestedLoopJoinExecutor) (rest : List ((Tuple × RID) × (Tuple × RID))) : Prop :=
  exec.plan = plan ∧ exec.rightChild.rows = right ∧
    match exec.leftRow with
    | none => rest = []
    | some leftRow => rest = pairs right leftRow exec.leftChild.rest exec.rightChild.rest

/-- A nested loop join filters the pairs of rows. -/
theorem filters (plan : NestedLoopJoinPlanNode) (right : List (Tuple × RID)) :
    Generator.Filters (passes plan) (output plan) next (Joining plan right) := by
  rintro exec rows ⟨rfl, rfl, hrows⟩
  unfold next
  cases hleft : exec.leftRow with
  | none =>
      rw [hleft] at hrows
      subst hrows
      exact ⟨exec, rfl⟩
  | some leftRow =>
      rw [hleft] at hrows
      subst hrows
      have hloop := looksThrough exec.plan exec.rightChild.rows leftRow exec.leftChild.rest
        exec.rightChild.rest
      unfold LooksThrough at hloop
      dsimp only
      cases hfound : Generator.firstPassing (passes exec.plan)
          (pairs exec.rightChild.rows leftRow exec.leftChild.rest exec.rightChild.rest) with
      | error fault =>
          rw [hfound] at hloop
          dsimp only at hloop ⊢
          rw [hloop]
      | ok found =>
          rw [hfound] at hloop
          cases found with
          | none =>
              obtain ⟨final, hnext⟩ := hloop
              exact ⟨_, by rw [hnext]⟩
          | some found =>
              obtain ⟨pair, rest⟩ := found
              dsimp only at hloop ⊢
              cases houtput : output exec.plan pair with
              | error fault =>
                  rw [houtput] at hloop
                  dsimp only at hloop ⊢
                  rw [hloop]
              | ok result =>
                  rw [houtput] at hloop
                  obtain ⟨leftRow', leftRest', rightRest', hnext, hrest⟩ := hloop
                  rw [hnext]
                  exact ⟨_, rfl, rfl, rfl, hrest⟩

omit [DoubleText] in
/-- `Init` puts all pairs before the executor. -/
theorem joining_init (plan : NestedLoopJoinPlanNode) (left right : List (Tuple × RID)) :
    Joining plan right (new plan left right).init (left.product right) := by
  refine ⟨rfl, rfl, ?_⟩
  cases left with
  | nil => rfl
  | cons leftRow leftRest => rfl

end NestedLoopJoinExecutor

end BusTub
