import BusTub.Execution.AbstractExecutor
import BusTub.Library.Faults

/-! # What passes over the executors give

Each executor is described by what it makes of the rows of its children, and of the
fault that ends them; a pass over it gives that from every state that calls of `Init` and
`Next` lead to.
-/

namespace BusTub

open Cursor

/-! ## Limits -/

namespace LimitExecutor

variable {limit : UInt64} {child : AbstractExecutor}

/-- The first rows; the fault stays behind the limit. -/
def firstRows {ρ ε : Type} (count : Nat) (rows : List ρ) (fault : Option ε) : List ρ × Option ε :=
  (rows.take count, if count ≤ rows.length then none else fault)

theorem reads {childExecutor : child.State} {rows : List Tuple} {fault : Option PlanFault}
    (h : child.Reads (child.next childExecutor) rows fault) {numTuples : UInt64} {count : Nat}
    (hcount : numTuples.toNat + count = limit.toNat) :
    (abstractExecutor limit child).Reads
      ((abstractExecutor limit child).next { childExecutor, numTuples })
      (firstRows count rows fault).1 (firstRows count rows fault).2 := by
  induction rows generalizing childExecutor numTuples count with
  | nil =>
      cases count with
      | zero =>
          have hreached : ¬ numTuples < limit := by
            rw [UInt64.lt_iff_toNat_lt]
            omega
          exact .done fun tuple => ⟨tuple, _, if_neg hreached⟩
      | succ count =>
          have hbelow : numTuples < limit := by
            rw [UInt64.lt_iff_toNat_lt]
            omega
          cases h with
          | done hcall =>
              apply Reads.done
              intro tuple
              obtain ⟨tuple', final, hnext⟩ := hcall tuple
              exact ⟨tuple', { childExecutor := final, numTuples := numTuples + 1 }, by
                simp only [abstractExecutor, if_pos hbelow, hnext]⟩
          | failed hcall =>
              apply Reads.failed
              intro tuple
              simp only [abstractExecutor, if_pos hbelow, hcall tuple]
  | cons row rest ih =>
      cases count with
      | zero =>
          have hreached : ¬ numTuples < limit := by
            rw [UInt64.lt_iff_toNat_lt]
            omega
          exact .done fun tuple => ⟨tuple, _, if_neg hreached⟩
      | succ count =>
          have hbelow : numTuples < limit := by
            rw [UInt64.lt_iff_toNat_lt]
            omega
          have hsucc : (numTuples + 1).toNat = numTuples.toNat + 1 := by
            have hlimit := limit.toNat_lt
            have hone : (1 : UInt64).toNat = 1 := rfl
            rw [UInt64.toNat_add, hone]
            exact Nat.mod_eq_of_lt (by omega)
          cases h with
          | row hcall hrest =>
              have hcount' : (numTuples + 1).toNat + count = limit.toNat := by omega
              have htail := ih hrest hcount'
              have hfault : (firstRows (count + 1) (row :: rest) fault).2 =
                  (firstRows count rest fault).2 := by
                simp only [firstRows, List.length_cons, Nat.add_le_add_iff_right]
              rw [hfault]
              refine .row (fun tuple => ?_) htail
              simp only [abstractExecutor, if_pos hbelow, hcall tuple]

theorem reached_child {exec : (abstractExecutor limit child).State}
    (h : (abstractExecutor limit child).Reached exec) : child.Reached exec.childExecutor := by
  induction h with
  | start => exact .start
  | init _ hinit ih =>
      simp only [abstractExecutor] at hinit
      split at hinit
      · cases hinit
      next hchild =>
        cases hinit
        exact ih.init hchild
  | next _ hnext ih =>
      simp only [abstractExecutor] at hnext
      split at hnext
      · split at hnext
        · cases hnext
        next hchild =>
          cases hnext
          exact ih.next hchild
      · cases hnext
        exact ih

theorem restarts {pass : Pass Tuple PlanFault} (h : child.Restarts pass) :
    (abstractExecutor limit child).Restarts (pass.andThen (firstRows limit.toNat)) := by
  intro exec hreached
  have hchild := h exec.childExecutor (reached_child hreached)
  cases pass with
  | refused fault =>
      have hinit : child.init exec.childExecutor = .error fault := hchild
      simp only [Gives, Pass.andThen, abstractExecutor, hinit]
  | read rows fault =>
      obtain ⟨opened, hinit, hreads⟩ := hchild
      refine ⟨{ childExecutor := opened, numTuples := 0 }, ?_, reads hreads (Nat.zero_add _)⟩
      simp only [abstractExecutor, hinit]

end LimitExecutor

/-! ## Rows without duplicates -/

namespace DistinctExecutor

variable [DoubleText] {outputSchema : Schema} {child : AbstractExecutor} {fuel : Nat}

/-- The rows whose key the table does not have, each of them with the keys before it in the
table. -/
def newRows (outputSchema : Schema) :
    List (KeyedEntry Unit) → List Tuple → Option PlanFault → List Tuple × Option PlanFault
  | _, [], fault => ([], fault)
  | hashTable, row :: rest, fault =>
      match addDistinct outputSchema hashTable row with
      | .error fault => ([], some (.eval fault))
      | .ok none => newRows outputSchema hashTable rest fault
      | .ok (some hashTable) =>
          let (rows, fault) := newRows outputSchema hashTable rest fault
          (row :: rows, fault)

theorem reads {childExecutor : child.State} {rows : List Tuple} {fault : Option PlanFault}
    (h : child.Reads (child.next childExecutor) rows fault) (hfuel : rows.length < fuel)
    {turns : Nat} (hturns : rows.length < turns) (hashTable : List (KeyedEntry Unit)) :
    (abstractExecutor outputSchema child fuel).Reads
      (nextLoop outputSchema child turns { childExecutor, hashTable })
      (newRows outputSchema hashTable rows fault).1
      (newRows outputSchema hashTable rows fault).2 := by
  induction rows generalizing childExecutor turns hashTable with
  | nil =>
      obtain ⟨turns, rfl⟩ : ∃ n, turns = n + 1 := ⟨turns - 1, by omega⟩
      cases h with
      | done hcall =>
          apply Reads.done
          intro tuple
          obtain ⟨tuple', final, hnext⟩ := hcall tuple
          have hturn : nextLoop outputSchema child (turns + 1) { childExecutor, hashTable } tuple =
              .ok (false, tuple', { childExecutor := final, hashTable }) := by
            simp only [nextLoop, hnext]
          exact ⟨tuple', { childExecutor := final, hashTable }, hturn⟩
      | @failed _ fault hcall =>
          have hturn : ∀ tuple, nextLoop outputSchema child (turns + 1)
              { childExecutor, hashTable } tuple = .error fault := by
            intro tuple
            simp only [nextLoop, hcall tuple]
          exact .failed hturn
  | cons row rest ih =>
      obtain ⟨turns, rfl⟩ : ∃ n, turns = n + 1 := ⟨turns - 1, by omega⟩
      rw [List.length_cons] at hfuel hturns
      cases h with
      | @row _ _ _ _ middle hcall hrest =>
          rw [newRows]
          cases hadd : addDistinct outputSchema hashTable row with
          | error fault =>
              have hturn : ∀ tuple, nextLoop outputSchema child (turns + 1)
                  { childExecutor, hashTable } tuple = .error (.eval fault) := by
                intro tuple
                simp only [nextLoop, hcall tuple, hadd]
              exact .failed hturn
          | ok added =>
              cases added with
              | none =>
                  have hturn : ∀ tuple, nextLoop outputSchema child (turns + 1)
                      { childExecutor, hashTable } tuple =
                      nextLoop outputSchema child turns { childExecutor := middle, hashTable }
                        row := by
                    intro tuple
                    simp only [nextLoop, hcall tuple, hadd]
                  have hless : rest.length < turns := by omega
                  have htail := ih hrest (by omega) hless hashTable
                  exact htail.through fun tuple => ⟨row, hturn tuple⟩
              | some added =>
                  have hturn : ∀ tuple, nextLoop outputSchema child (turns + 1)
                      { childExecutor, hashTable } tuple =
                      .ok (true, row, { childExecutor := middle, hashTable := added }) := by
                    intro tuple
                    simp only [nextLoop, hcall tuple, hadd]
                  have hless : rest.length < fuel := by omega
                  exact .row hturn (ih hrest hless hless added)

theorem nextLoop_reached {turns : Nat} {exec exec' : DistinctExecutor child.State}
    {tuple tuple' : Tuple} {found : Bool} (hreached : child.Reached exec.childExecutor)
    (hloop : nextLoop outputSchema child turns exec tuple = .ok (found, tuple', exec')) :
    child.Reached exec'.childExecutor := by
  induction turns generalizing exec tuple with
  | zero => cases hloop
  | succ turns ih =>
      rw [nextLoop] at hloop
      split at hloop
      · cases hloop
      next hnext =>
        cases hloop
        exact hreached.next hnext
      next hnext =>
        split at hloop
        · cases hloop
        · exact ih (hreached.next hnext) hloop
        · cases hloop
          exact hreached.next hnext

theorem reached_child {exec : (abstractExecutor outputSchema child fuel).State}
    (h : (abstractExecutor outputSchema child fuel).Reached exec) :
    child.Reached exec.childExecutor := by
  induction h with
  | start => exact .start
  | init _ hinit ih =>
      simp only [abstractExecutor] at hinit
      split at hinit
      · cases hinit
      next hchild =>
        cases hinit
        exact ih.init hchild
  | next _ hnext ih => exact nextLoop_reached ih hnext

theorem restarts {pass : Pass Tuple PlanFault} (h : child.Restarts pass)
    (hfuel : pass.rows.length < fuel) :
    (abstractExecutor outputSchema child fuel).Restarts
      (pass.andThen (newRows outputSchema [])) := by
  intro exec hreached
  have hchild := h exec.childExecutor (reached_child hreached)
  cases pass with
  | refused fault =>
      have hinit : child.init exec.childExecutor = .error fault := hchild
      simp only [Gives, Pass.andThen, abstractExecutor, hinit]
  | read rows fault =>
      obtain ⟨opened, hinit, hreads⟩ := hchild
      refine ⟨{ childExecutor := opened, hashTable := [] }, ?_, reads hreads hfuel hfuel []⟩
      simp only [abstractExecutor, hinit]

end DistinctExecutor

/-! ## Sequential scans -/

namespace SeqScanExecutor

variable [DoubleText] {pool : PagePool} {tableInfo : TableInfo} {plan : SeqScanPlanNode}

/-- What a scan gives for the rows of its table. -/
def scanned (tableInfo : TableInfo) (plan : SeqScanPlanNode) (rows : List (RID × Tuple)) :
    List (Tuple × RID) × Option ExecutorFault :=
  Cursor.filtered (new tableInfo plan).passes (new tableInfo plan).project rows

theorem wraps : (abstractExecutor pool tableInfo plan).Wraps (next pool) Prod.fst
    PlanFault.executor id (fun _ exec => exec) where
  get_set _ _ := rfl
  next_eq exec tuple := by
    rcases hnext : SeqScanExecutor.next pool exec with fault | ⟨_ | output, exec'⟩ <;>
      simp only [abstractExecutor, id, hnext]

/-- The scan is as before but for its iterator. -/
def SameScan (start exec : SeqScanExecutor) : Prop := exec = { start with cur := exec.cur }

/-- Calls change nothing of a scan but its iterator. -/
theorem reached_same {exec : (abstractExecutor pool tableInfo plan).State}
    (h : (abstractExecutor pool tableInfo plan).Reached exec) :
    SameScan (new tableInfo plan) exec := by
  unfold SameScan at *
  induction h with
  | start => rfl
  | @init exec _ _ hinit ih =>
      simp only [abstractExecutor, SeqScanExecutor.init] at hinit
      split at hinit
      · cases hinit
      next hfirst =>
        split at hfirst
        · cases hfirst
        · cases hfirst
          cases hinit
          rw [ih]
  | @next exec _ _ _ _ _ hnext ih =>
      simp only [abstractExecutor, SeqScanExecutor.next] at hnext
      split at hnext
      · cases hnext
      next hloop =>
        split at hloop
        · cases hloop
        · cases hloop
          cases hnext
          rw [ih]
      next hloop =>
        split at hloop
        · cases hloop
        · cases hloop
          cases hnext
          rw [ih]

theorem restarts {pageIds : List PageId} {heap : PageId → List Slot}
    (h : TableHeap.HeapOk pool tableInfo.table.firstPageId pageIds heap) :
    (abstractExecutor pool tableInfo plan).Restarts
      (.read ((scanned tableInfo plan (TableHeap.liveRows heap pageIds)).1.map Prod.fst)
        ((scanned tableInfo plan (TableHeap.liveRows heap pageIds)).2.map .executor)) := by
  intro exec hreached
  have hsame := reached_same hreached
  have htable : exec.tableInfo = tableInfo := by rw [hsame, new]
  obtain ⟨opened, hinit, hopened, hscan⟩ := exec.init_scanning (htable.symm ▸ h)
  have hscanning : Scanning pool (new tableInfo plan) opened
      (TableHeap.liveRows heap pageIds) := by
    refine ⟨?_, hscan.walks, hscan.bound⟩
    rw [hopened, hsame]
  refine ⟨opened, ?_, wraps.reads (filters (new tableInfo plan)) hscanning⟩
  simp only [abstractExecutor, hinit]

end SeqScanExecutor

/-! ## Aggregations -/

namespace GroupingExecutor

variable [DoubleText] {plan : AggregationPlanNode} {aht : List AggregateGroup}
  {child : AbstractExecutor} {filledChild : child.State}

/-- What an aggregation gives for the groups of its table. -/
def having (plan : AggregationPlanNode) (aht : List AggregateGroup) :
    List Tuple × Option EvalFault :=
  Cursor.filtered (AggregationExecutor.passes plan) (AggregationExecutor.output plan) aht

theorem wraps : (overTable plan aht child filledChild).Wraps AggregationExecutor.next id
    PlanFault.eval GroupingExecutor.exec (fun exec inner => { exec with exec := inner }) where
  get_set _ _ := rfl
  next_eq exec tuple := by
    rcases hnext : exec.exec.next with fault | ⟨_ | output, inner⟩ <;>
      simp only [overTable, id, hnext]

theorem reads {exec : GroupingExecutor child.State} {groups : List AggregateGroup}
    (hplan : exec.exec.plan = plan) (hgroups : exec.exec.ahtIterator = groups) :
    (overTable plan aht child filledChild).Reads
      ((overTable plan aht child filledChild).next exec) (having plan groups).1
      ((having plan groups).2.map .eval) := by
  have hreads : (overTable plan aht child filledChild).Reads
      ((overTable plan aht child filledChild).next exec) ((having plan groups).1.map id)
      ((having plan groups).2.map .eval) :=
    wraps.reads (AggregationExecutor.filters plan) ⟨hplan, hgroups⟩
  rw [List.map_id] at hreads
  exact hreads

/-- Calls change nothing of an aggregation but its iterator and its child. -/
structure Kept (plan : AggregationPlanNode) (aht : List AggregateGroup) (child : AbstractExecutor)
    (exec : GroupingExecutor child.State) : Prop where
  plan_eq : exec.exec.plan = plan
  aht_eq : exec.exec.aht = aht
  reached : child.Reached exec.child

theorem reached_kept (hfilled : child.Reached filledChild)
    {exec : (overTable plan aht child filledChild).State}
    (h : (overTable plan aht child filledChild).Reached exec) : Kept plan aht child exec := by
  induction h with
  | start => exact ⟨rfl, rfl, hfilled⟩
  | init _ hinit ih =>
      simp only [overTable] at hinit
      split at hinit
      · cases hinit
      next hchild =>
        cases hinit
        exact ⟨ih.plan_eq, ih.aht_eq, ih.reached.init hchild⟩
  | next _ hnext ih =>
      simp only [overTable, AggregationExecutor.next] at hnext
      split at hnext
      · cases hnext
      next hloop =>
        split at hloop
        · cases hloop
        · cases hloop
          cases hnext
          exact ⟨ih.plan_eq, ih.aht_eq, ih.reached⟩
      next hloop =>
        split at hloop
        · cases hloop
        · cases hloop
          cases hnext
          exact ⟨ih.plan_eq, ih.aht_eq, ih.reached⟩

theorem restarts {pass : Pass Tuple PlanFault} (h : child.Restarts pass)
    (hfilled : child.Reached filledChild) :
    (overTable plan aht child filledChild).Restarts (pass.andThen fun _ _ =>
      ((having plan aht).1, (having plan aht).2.map .eval)) := by
  intro exec hreached
  have hkept := reached_kept hfilled hreached
  have hchild := h exec.child hkept.reached
  cases pass with
  | refused fault =>
      have hinit : child.init exec.child = .error fault := hchild
      simp only [Gives, Pass.andThen, overTable, hinit]
  | read rows fault =>
      obtain ⟨opened, hinit, -⟩ := hchild
      refine ⟨{ child := opened, exec := exec.exec.init }, ?_,
        reads hkept.plan_eq hkept.aht_eq⟩
      simp only [overTable, hinit]

/-- The constructor passes once over the child and fills the table with its rows. -/
theorem new_of_reads [ValueArithmetic] [ValueExtremes] (plan : GroupingPlanNode)
    (order : IterationOrder) {child : AbstractExecutor} {rows : List Tuple}
    {fault : Option PlanFault} {fuel : Nat} (h : child.Restarts (.read rows fault))
    (hfuel : rows.length < fuel) :
    (∃ fault', consumed (addRow plan) [] rows fault = .error fault' ∧
      new plan order child fuel = .error fault') ∨
    ∃ aht filledChild, consumed (addRow plan) [] rows fault = .ok aht ∧
      child.Reached filledChild ∧ new plan order child fuel =
        .ok (overTable plan.toAggregationPlanNode (groups order aht) child filledChild) := by
  obtain ⟨opened, hinit, hreads⟩ := h child.start .start
  obtain ⟨final, hconsume⟩ := @Reads.consume_eq _ _ _ _ .exhausted (addRow plan) []
    opened rows fault hreads fuel hfuel []
  cases hconsumed : consumed (addRow plan) [] rows fault with
  | error fault' =>
      rw [hconsumed] at hconsume
      refine Or.inl ⟨fault', rfl, ?_⟩
      simp only [new, hinit, hconsume, Except.map]
  | ok aht =>
      rw [hconsumed] at hconsume
      refine Or.inr ⟨aht, final, rfl, consume_reached (Reached.start.init hinit) hconsume, ?_⟩
      simp only [new, hinit, hconsume, Except.map]

end GroupingExecutor

/-! ## Nested loop joins -/

namespace LoopJoinExecutor

variable [DoubleText] {plan : NestedLoopJoinPlanNode} {left right : AbstractExecutor}
  {fuel : Nat}

/-- The pairs of a left row with right ones that pass, and what comes behind them. -/
def pairsWith (plan : NestedLoopJoinPlanNode) (leftTuple : Tuple)
    (behind : List Tuple × Option PlanFault) : List Tuple → List Tuple × Option PlanFault
  | [] => behind
  | rightTuple :: rest =>
      match passes plan leftTuple rightTuple with
      | .error fault => ([], some (.eval fault))
      | .ok false => pairsWith plan leftTuple behind rest
      | .ok true =>
          match outputTuple plan leftTuple rightTuple with
          | .error fault => ([], some (.eval fault))
          | .ok output =>
              let (rows, fault) := pairsWith plan leftTuple behind rest
              (output :: rows, fault)

/-- What comes behind rows, unless a fault ends them. -/
def unlessFault (fault : Option PlanFault) (behind : List Tuple × Option PlanFault) :
    List Tuple × Option PlanFault :=
  match fault with
  | some fault => ([], some fault)
  | none => behind

/-- The pairs of a left row with the right ones that are left, and of each other left row
with all right ones. -/
def pairs (plan : NestedLoopJoinPlanNode) (leftFault : Option PlanFault)
    (rightRows : List Tuple) (rightFault : Option PlanFault) :
    Tuple → List Tuple → List Tuple → List Tuple × Option PlanFault
  | leftTuple, [], rightRest =>
      pairsWith plan leftTuple (unlessFault rightFault ([], leftFault)) rightRest
  | leftTuple, nextTuple :: leftRest, rightRest =>
      let others := pairs plan leftFault rightRows rightFault nextTuple leftRest rightRows
      pairsWith plan leftTuple (unlessFault rightFault others) rightRest

/-- A call of `Next` with a left tuple selected, as the loop is left. -/
def finish (exec : Except PlanFault (Option Tuple × LoopJoinExecutor left.State right.State))
    (tuple : Tuple) : Except PlanFault (Bool × Tuple × LoopJoinExecutor left.State right.State) :=
  match exec with
  | .error fault => .error fault
  | .ok (none, exec) => .ok (false, tuple, exec)
  | .ok (some output, exec) => .ok (true, output, exec)

/-- From the state, the loop reads the rows, if it is given more turns than `needed`. -/
def LoopReads (plan : NestedLoopJoinPlanNode) (left right : AbstractExecutor) (fuel needed : Nat)
    (exec : LoopJoinExecutor left.State right.State) (result : List Tuple × Option PlanFault) :
    Prop :=
  ∀ turns rightTuple, needed < turns → (abstractExecutor plan left right fuel).Reads
    (finish (nextLoop plan left right turns exec rightTuple)) result.1 result.2

theorem loopReads_of_error {exec : LoopJoinExecutor left.State right.State} {needed : Nat}
    {fault : PlanFault} (h : ∀ turns rightTuple,
      nextLoop plan left right (turns + 1) exec rightTuple = .error fault) :
    LoopReads plan left right fuel needed exec ([], some fault) := by
  intro turns rightTuple hneeded
  obtain ⟨turns, rfl⟩ : ∃ n, turns = n + 1 := ⟨turns - 1, by omega⟩
  rw [h]
  exact .failed fun tuple => rfl

theorem loopReads_of_none {exec : LoopJoinExecutor left.State right.State} {needed : Nat}
    (h : ∀ turns rightTuple,
      ∃ final, nextLoop plan left right (turns + 1) exec rightTuple = .ok (none, final)) :
    LoopReads plan left right fuel needed exec ([], none) := by
  intro turns rightTuple hneeded
  obtain ⟨turns, rfl⟩ : ∃ n, turns = n + 1 := ⟨turns - 1, by omega⟩
  obtain ⟨final, hloop⟩ := h turns rightTuple
  rw [hloop]
  exact .done fun tuple => ⟨tuple, final, rfl⟩

theorem loopReads_of_turn {exec : LoopJoinExecutor left.State right.State} {needed : Nat}
    {result : List Tuple × Option PlanFault}
    (h : ∀ rightTuple, ∃ exec' rightTuple', LoopReads plan left right fuel needed exec' result ∧
      ∀ turns, nextLoop plan left right (turns + 1) exec rightTuple =
        nextLoop plan left right turns exec' rightTuple') :
    LoopReads plan left right fuel (needed + 1) exec result := by
  intro turns rightTuple hneeded
  obtain ⟨turns, rfl⟩ : ∃ n, turns = n + 1 := ⟨turns - 1, by omega⟩
  obtain ⟨exec', rightTuple', hrest, hturn⟩ := h rightTuple
  rw [hturn]
  exact hrest turns rightTuple' (by omega)

theorem loopReads_of_some {exec exec' : LoopJoinExecutor left.State right.State} {needed : Nat}
    {output : Tuple} {result : List Tuple × Option PlanFault}
    (h : ∀ turns rightTuple,
      nextLoop plan left right (turns + 1) exec rightTuple = .ok (some output, exec'))
    (hselected : exec'.isLeftSelected = true) (hfuel : needed < fuel)
    (hrest : LoopReads plan left right fuel needed exec' result) :
    LoopReads plan left right fuel (needed + 1) exec (output :: result.1, result.2) := by
  intro turns rightTuple hneeded
  obtain ⟨turns, rfl⟩ : ∃ n, turns = n + 1 := ⟨turns - 1, by omega⟩
  rw [h]
  have htail := hrest fuel [] hfuel
  refine .row (fun tuple => rfl) (htail.through fun tuple => ⟨tuple, ?_⟩)
  simp only [abstractExecutor, hselected, if_true]
  rfl

/-- The right rows that are left are paired with the left row first. -/
theorem loopReads_pairsWith {leftExecutor : left.State} {leftTuple : Tuple} {needed : Nat}
    {behind : List Tuple × Option PlanFault} {rightFault : Option PlanFault}
    (hbehind : ∀ rightExecutor, right.Reached rightExecutor →
      right.Reads (right.next rightExecutor) [] rightFault →
      LoopReads plan left right fuel needed
        { leftExecutor, rightExecutor, leftTuple, isLeftSelected := true } behind)
    {rightRest : List Tuple} {rightExecutor : right.State} (hreached : right.Reached rightExecutor)
    (hright : right.Reads (right.next rightExecutor) rightRest rightFault)
    (hfuel : rightRest.length + needed < fuel) :
    LoopReads plan left right fuel (rightRest.length + needed)
      { leftExecutor, rightExecutor, leftTuple, isLeftSelected := true }
      (pairsWith plan leftTuple behind rightRest) := by
  induction rightRest generalizing rightExecutor with
  | nil =>
      rw [List.length_nil, Nat.zero_add]
      exact hbehind rightExecutor hreached hright
  | cons rightTuple rest ih =>
      rw [List.length_cons, Nat.add_right_comm] at hfuel ⊢
      cases hright with
      | @row _ _ _ _ middle hcall hrest =>
          have htail := ih (hreached.next (hcall [])) hrest (by omega)
          rw [pairsWith]
          cases hpasses : passes plan leftTuple rightTuple with
          | error fault =>
              apply loopReads_of_error
              intro turns buffer
              simp only [nextLoop, hcall buffer, hpasses]
          | ok b =>
              cases b with
              | false =>
                  apply loopReads_of_turn
                  intro buffer
                  refine ⟨_, rightTuple, htail, fun turns => ?_⟩
                  simp only [nextLoop, hcall buffer, hpasses]
              | true =>
                  cases houtput : outputTuple plan leftTuple rightTuple with
                  | error fault =>
                      apply loopReads_of_error
                      intro turns buffer
                      simp only [nextLoop, hcall buffer, hpasses, houtput]
                  | ok output =>
                      refine loopReads_of_some (fun turns buffer => ?_) rfl (by omega) htail
                      simp only [nextLoop, hcall buffer, hpasses, houtput]

/-- The loop goes through all pairs that are left. -/
theorem loopReads_pairs {leftFault rightFault : Option PlanFault} {rightRows : List Tuple}
    (hrestarts : right.Restarts (.read rightRows rightFault)) {leftTuple : Tuple}
    {leftRest : List Tuple} {leftExecutor : left.State}
    (hleft : left.Reads (left.next leftExecutor) leftRest leftFault)
    {rightRest : List Tuple} {rightExecutor : right.State} (hreached : right.Reached rightExecutor)
    (hright : right.Reads (right.next rightExecutor) rightRest rightFault)
    (hfuel : rightRest.length + leftRest.length * (rightRows.length + 1) < fuel) :
    LoopReads plan left right fuel (rightRest.length + leftRest.length * (rightRows.length + 1))
      { leftExecutor, rightExecutor, leftTuple, isLeftSelected := true }
      (pairs plan leftFault rightRows rightFault leftTuple leftRest rightRest) := by
  induction leftRest generalizing leftTuple leftExecutor rightRest rightExecutor with
  | nil =>
      rw [pairs]
      refine loopReads_pairsWith (fun rightExecutor hreached hend => ?_) hreached hright hfuel
      cases hend with
      | @failed _ fault hcall =>
          apply loopReads_of_error
          intro turns buffer
          simp only [nextLoop, hcall buffer]
      | done hend =>
          cases hleft with
          | @failed _ fault hcall =>
              apply loopReads_of_error
              intro turns buffer
              obtain ⟨buffer', final, hnext⟩ := hend buffer
              simp only [nextLoop, hnext, hcall leftTuple]
          | done hcall =>
              apply loopReads_of_none
              intro turns buffer
              obtain ⟨buffer', final, hnext⟩ := hend buffer
              obtain ⟨leftTuple', leftFinal, hleftNext⟩ := hcall leftTuple
              refine ⟨{ leftExecutor := leftFinal, rightExecutor := final
                        leftTuple := leftTuple', isLeftSelected := true }, ?_⟩
              simp only [nextLoop, hnext, hleftNext]
  | cons nextTuple leftRest ih =>
      have hcount : (nextTuple :: leftRest).length * (rightRows.length + 1) =
          (rightRows.length + leftRest.length * (rightRows.length + 1)) + 1 := by
        rw [List.length_cons, Nat.succ_mul]
        omega
      rw [hcount] at hfuel ⊢
      rw [pairs]
      refine loopReads_pairsWith (fun rightExecutor hreached hend => ?_) hreached hright hfuel
      cases hend with
      | @failed _ fault hcall =>
          apply loopReads_of_error
          intro turns buffer
          simp only [nextLoop, hcall buffer]
      | done hend =>
          cases hleft with
          | @row _ _ _ _ middle hcall hrest =>
              rw [unlessFault]
              apply loopReads_of_turn
              intro buffer
              obtain ⟨buffer', final, hnext⟩ := hend buffer
              have hfinal := hreached.next hnext
              obtain ⟨opened, hinit, hrows⟩ := hrestarts final hfinal
              refine ⟨_, buffer', ih hrest (hfinal.init hinit) hrows (by omega), fun turns => ?_⟩
              simp only [nextLoop, hnext, hcall leftTuple, hinit]

theorem nextLoop_reached {turns : Nat} {exec exec' : LoopJoinExecutor left.State right.State}
    {rightTuple : Tuple} {output : Option Tuple} (hleft : left.Reached exec.leftExecutor)
    (hright : right.Reached exec.rightExecutor)
    (hloop : nextLoop plan left right turns exec rightTuple = .ok (output, exec')) :
    left.Reached exec'.leftExecutor ∧ right.Reached exec'.rightExecutor := by
  induction turns generalizing exec rightTuple with
  | zero => cases hloop
  | succ turns ih =>
      rw [nextLoop] at hloop
      split at hloop
      · cases hloop
      next hnext =>
        have hended := hright.next hnext
        split at hloop
        · cases hloop
        next hleftNext =>
          cases hloop
          exact ⟨hleft.next hleftNext, hended⟩
        next hleftNext =>
          split at hloop
          · cases hloop
          next hinit => exact ih (hleft.next hleftNext) (hended.init hinit) hloop
      next hnext =>
        have hread := hright.next hnext
        split at hloop
        · cases hloop
        · refine ih ?_ ?_ hloop
          · exact hleft
          · exact hread
        · split at hloop
          · cases hloop
          · cases hloop
            exact ⟨hleft, hread⟩

theorem reached_children {exec : (abstractExecutor plan left right fuel).State}
    (h : (abstractExecutor plan left right fuel).Reached exec) :
    left.Reached exec.leftExecutor ∧ right.Reached exec.rightExecutor := by
  induction h with
  | start => exact ⟨.start, .start⟩
  | init _ hinit ih =>
      simp only [abstractExecutor] at hinit
      split at hinit
      · cases hinit
      next hleft =>
        split at hinit
        · cases hinit
        next hright =>
          split at hinit
          · cases hinit
          next hnext =>
            cases hinit
            exact ⟨(ih.1.init hleft).next hnext, ih.2.init hright⟩
  | next _ hnext ih =>
      simp only [abstractExecutor] at hnext
      split at hnext
      · split at hnext
        · cases hnext
        next hloop =>
          cases hnext
          exact nextLoop_reached ih.1 ih.2 hloop
        next hloop =>
          cases hnext
          exact nextLoop_reached ih.1 ih.2 hloop
      · cases hnext
        exact ih

/-- What a nested loop join makes of passes over its children. -/
def joined (plan : NestedLoopJoinPlanNode) :
    Pass Tuple PlanFault → Pass Tuple PlanFault → Pass Tuple PlanFault
  | .refused fault, _ => .refused fault
  | .read _ _, .refused fault => .refused fault
  | .read [] (some fault), .read _ _ => .refused fault
  | .read [] none, .read _ _ => .read [] none
  | .read (leftTuple :: leftRest) leftFault, .read rightRows rightFault =>
      let result := pairs plan leftFault rightRows rightFault leftTuple leftRest rightRows
      .read result.1 result.2

/-- A pass over the join takes the pass that the left child gives just then. -/
theorem gives {exec : (abstractExecutor plan left right fuel).State}
    (hreached : (abstractExecutor plan left right fuel).Reached exec)
    {leftPass rightPass : Pass Tuple PlanFault} (hleft : left.Gives exec.leftExecutor leftPass)
    (hright : right.Restarts rightPass)
    (hfuel : leftPass.rows.length * (rightPass.rows.length + 1) ≤ fuel) :
    (abstractExecutor plan left right fuel).Gives exec (joined plan leftPass rightPass) := by
  obtain ⟨-, hrightReached⟩ := reached_children hreached
  have hrightGives := hright exec.rightExecutor hrightReached
  cases leftPass with
  | refused fault =>
      have hinit : left.init exec.leftExecutor = .error fault := hleft
      simp only [Gives, joined, abstractExecutor, hinit]
  | read leftRows leftFault =>
      obtain ⟨leftOpened, hleftInit, hleftReads⟩ := hleft
      cases rightPass with
      | refused fault =>
          have hinit : right.init exec.rightExecutor = .error fault := hrightGives
          simp only [Gives, joined, abstractExecutor, hleftInit, hinit]
      | read rightRows rightFault =>
          obtain ⟨rightOpened, hrightInit, hrightReads⟩ := hrightGives
          have hrightOpened := hrightReached.init hrightInit
          cases hleftReads with
          | failed hcall =>
              simp only [Gives, joined, abstractExecutor, hleftInit, hrightInit,
                hcall exec.leftTuple]
          | done hcall =>
              obtain ⟨leftTuple, leftExecutor, hnext⟩ := hcall exec.leftTuple
              refine ⟨{ leftExecutor, rightExecutor := rightOpened, leftTuple
                        isLeftSelected := false }, ?_, .done fun tuple => ⟨tuple, _, rfl⟩⟩
              simp only [abstractExecutor, hleftInit, hrightInit, hnext]
          | @row _ leftTuple leftRest _ leftExecutor hcall hrest =>
              have hcount : rightRows.length + leftRest.length * (rightRows.length + 1) < fuel := by
                have hmul : (leftTuple :: leftRest).length * (rightRows.length + 1) ≤ fuel := hfuel
                rw [List.length_cons, Nat.succ_mul] at hmul
                omega
              refine ⟨{ leftExecutor, rightExecutor := rightOpened, leftTuple
                        isLeftSelected := true }, ?_,
                loopReads_pairs hright hrest hrightOpened hrightReads hcount fuel [] hcount⟩
              simp only [abstractExecutor, hleftInit, hrightInit, hcall exec.leftTuple]

theorem restarts {leftPass rightPass : Pass Tuple PlanFault} (hleft : left.Restarts leftPass)
    (hright : right.Restarts rightPass)
    (hfuel : leftPass.rows.length * (rightPass.rows.length + 1) ≤ fuel) :
    (abstractExecutor plan left right fuel).Restarts (joined plan leftPass rightPass) :=
  fun exec hreached =>
    gives hreached (hleft exec.leftExecutor (reached_children hreached).1) hright hfuel

end LoopJoinExecutor

/-! ## Hash joins -/

namespace HashedJoinExecutor

variable [DoubleText] {plan : HashJoinPlanNode} {hashTable : List HashJoinEntry}
  {left right : AbstractExecutor} {builtLeft : left.State} {openedRight : right.State} {fuel : Nat}

/-- What the right rows come to that meet one row of the table each. -/
def probed (plan : HashJoinPlanNode) (hashTable : List HashJoinEntry) :
    List Tuple → Option PlanFault → List Tuple × Option PlanFault
  | [], fault => ([], fault)
  | rightTuple :: rest, fault =>
      match HashJoinExecutor.lookup plan hashTable rightTuple with
      | .error fault => ([], some (.eval fault))
      | .ok none => probed plan hashTable rest fault
      | .ok (some []) => ([], some (.eval .noSuchEntry))
      | .ok (some (values :: _)) =>
          match HashJoinExecutor.outputTuple plan values rightTuple with
          | .error fault => ([], some (.eval fault))
          | .ok output =>
              let (rows, fault) := probed plan hashTable rest fault
              (output :: rows, fault)

/-- No key of the table has more than one row. -/
def OneRowEach (hashTable : List HashJoinEntry) : Prop :=
  ∀ entry ∈ hashTable, entry.rows.length = 1

theorem OneRowEach.find {hash : UInt64} {key : Value} {rows : List (List Value)}
    (h : OneRowEach hashTable) (hfind : HashJoinEntry.find hash key hashTable = .ok (some rows)) :
    rows.length = 1 := by
  induction hashTable with
  | nil => cases hfind
  | cons entry rest ih =>
      obtain ⟨hentry, hrest⟩ := List.forall_mem_cons.mp h
      rw [HashJoinEntry.find] at hfind
      split at hfind
      · cases hfind
      · cases hfind
        exact hentry
      · exact ih hrest hfind

theorem OneRowEach.lookup {tuple : Tuple} {rows : List (List Value)} (h : OneRowEach hashTable)
    (hlookup : HashJoinExecutor.lookup plan hashTable tuple = .ok (some rows)) :
    ∃ values, rows = [values] := by
  obtain ⟨key, -, hlookup⟩ := Except.bind_eq_ok_iff.mp hlookup
  obtain ⟨hash, -, hfind⟩ := Except.bind_eq_ok_iff.mp hlookup
  exact List.length_eq_one_iff.mp (h.find hfind)

/-- With one row for each key the buffer has nothing left after a row of the join. -/
theorem loopReads {exec : HashedJoinExecutor left.State right.State} {rightRows : List Tuple}
    {fault : Option PlanFault} (h : OneRowEach hashTable)
    (hright : right.Reads (right.next exec.rightExecutor) rightRows fault)
    (hfuel : rightRows.length < fuel) {turns : Nat} (hturns : rightRows.length < turns) :
    (overTable plan hashTable left right builtLeft openedRight fuel).Reads
      (nextLoop plan hashTable left right turns exec) (probed plan hashTable rightRows fault).1
      (probed plan hashTable rightRows fault).2 := by
  induction rightRows generalizing exec turns with
  | nil =>
      obtain ⟨turns, rfl⟩ : ∃ n, turns = n + 1 := ⟨turns - 1, by omega⟩
      cases hright with
      | done hcall =>
          apply Reads.done
          intro tuple
          obtain ⟨tuple', final, hnext⟩ := hcall tuple
          have hturn : nextLoop plan hashTable left right (turns + 1) exec tuple =
              .ok (false, tuple', { exec with rightExecutor := final }) := by
            simp only [nextLoop, hnext]
          exact ⟨tuple', { exec with rightExecutor := final }, hturn⟩
      | @failed _ fault hcall =>
          have hturn : ∀ tuple, nextLoop plan hashTable left right (turns + 1) exec tuple =
              .error fault := by
            intro tuple
            simp only [nextLoop, hcall tuple]
          exact .failed hturn
  | cons rightTuple rest ih =>
      obtain ⟨turns, rfl⟩ : ∃ n, turns = n + 1 := ⟨turns - 1, by omega⟩
      rw [List.length_cons] at hfuel hturns
      have hless : rest.length < turns := by omega
      have hlessFuel : rest.length < fuel := by omega
      cases hright with
      | @row _ _ _ _ middle hcall hrest =>
          rw [probed]
          cases hlookup : HashJoinExecutor.lookup plan hashTable rightTuple with
          | error fault =>
              have hturn : ∀ tuple, nextLoop plan hashTable left right (turns + 1) exec tuple =
                  .error (.eval fault) := by
                intro tuple
                simp only [nextLoop, hcall tuple, hlookup]
              exact .failed hturn
          | ok found =>
              cases found with
              | none =>
                  have hturn : ∀ tuple, nextLoop plan hashTable left right (turns + 1) exec tuple =
                      nextLoop plan hashTable left right turns
                        { exec with rightExecutor := middle } rightTuple := by
                    intro tuple
                    simp only [nextLoop, hcall tuple, hlookup]
                  have htail := @ih { exec with rightExecutor := middle } hrest hlessFuel _ hless
                  exact htail.through fun tuple => ⟨rightTuple, hturn tuple⟩
              | some rows =>
                  obtain ⟨values, rfl⟩ := h.lookup hlookup
                  have hturn : ∀ tuple, nextLoop plan hashTable left right (turns + 1) exec tuple =
                      emitNext plan left right { exec with
                        rightExecutor := middle, outerTableBuffer := [values], nextPos := 0 }
                        rightTuple := by
                    intro tuple
                    simp only [nextLoop, hcall tuple, hlookup]
                  dsimp only
                  cases houtput : HashJoinExecutor.outputTuple plan values rightTuple with
                  | error fault =>
                      have hemit : ∀ tuple, nextLoop plan hashTable left right (turns + 1) exec
                          tuple = .error (.eval fault) := by
                        intro tuple
                        rw [hturn tuple]
                        simp [emitNext, houtput]
                      exact .failed hemit
                  | ok output =>
                      -- the buffer is used up at once, so the next call goes on with the loop
                      have hemit : ∀ tuple, nextLoop plan hashTable left right (turns + 1) exec
                          tuple = .ok (true, output, { exec with
                            rightExecutor := middle, outerTableBuffer := [values]
                            nextPos := 1 }) := by
                        intro tuple
                        rw [hturn tuple]
                        simp [emitNext, houtput]
                      have htail := @ih { exec with
                        rightExecutor := middle, outerTableBuffer := [values], nextPos := 1 }
                        hrest hlessFuel _ hlessFuel
                      refine .row hemit (htail.through fun tuple => ⟨tuple, ?_⟩)
                      simp [overTable]

theorem nextLoop_reached {turns : Nat} {exec exec' : HashedJoinExecutor left.State right.State}
    {tuple tuple' : Tuple} {found : Bool} (hright : right.Reached exec.rightExecutor)
    (hloop : nextLoop plan hashTable left right turns exec tuple = .ok (found, tuple', exec')) :
    exec'.leftExecutor = exec.leftExecutor ∧ right.Reached exec'.rightExecutor := by
  induction turns generalizing exec tuple with
  | zero => cases hloop
  | succ turns ih =>
      rw [nextLoop] at hloop
      split at hloop
      · cases hloop
      next hnext =>
        cases hloop
        exact ⟨rfl, hright.next hnext⟩
      next hnext =>
        split at hloop
        · cases hloop
        · have hread := hright.next hnext
          obtain ⟨hsame, hreached⟩ := ih (by exact hread) hloop
          exact ⟨hsame, hreached⟩
        · simp only [emitNext] at hloop
          split at hloop
          · cases hloop
          · split at hloop
            · cases hloop
            · cases hloop
              exact ⟨rfl, hright.next hnext⟩

theorem reached_children (hbuilt : left.Reached builtLeft) (hopened : right.Reached openedRight)
    {exec : (overTable plan hashTable left right builtLeft openedRight fuel).State}
    (h : (overTable plan hashTable left right builtLeft openedRight fuel).Reached exec) :
    left.Reached exec.leftExecutor ∧ right.Reached exec.rightExecutor := by
  induction h with
  | start => exact ⟨hbuilt, hopened⟩
  | init _ hinit ih =>
      simp only [overTable] at hinit
      split at hinit
      · cases hinit
      next hleft =>
        split at hinit
        · cases hinit
        next hright =>
          cases hinit
          exact ⟨ih.1.init hleft, ih.2.init hright⟩
  | next _ hnext ih =>
      simp only [overTable] at hnext
      split at hnext
      · obtain ⟨hleft, hright⟩ := nextLoop_reached ih.2 hnext
        exact ⟨hleft ▸ ih.1, hright⟩
      · simp only [emitNext] at hnext
        split at hnext
        · cases hnext
        · split at hnext
          · cases hnext
          · cases hnext
            exact ih

/-- What a hash join makes of passes over its children. -/
def joined (plan : HashJoinPlanNode) (hashTable : List HashJoinEntry) :
    Pass Tuple PlanFault → Pass Tuple PlanFault → Pass Tuple PlanFault
  | .refused fault, _ => .refused fault
  | .read _ _, rightPass => rightPass.andThen (probed plan hashTable)

theorem restarts {leftPass rightPass : Pass Tuple PlanFault} (h : OneRowEach hashTable)
    (hleft : left.Restarts leftPass) (hright : right.Restarts rightPass)
    (hbuilt : left.Reached builtLeft) (hopened : right.Reached openedRight)
    (hfuel : rightPass.rows.length < fuel) :
    (overTable plan hashTable left right builtLeft openedRight fuel).Restarts
      (joined plan hashTable leftPass rightPass) := by
  intro exec hreached
  obtain ⟨hleftReached, hrightReached⟩ := reached_children hbuilt hopened hreached
  have hleftGives := hleft exec.leftExecutor hleftReached
  have hrightGives := hright exec.rightExecutor hrightReached
  cases leftPass with
  | refused fault =>
      have hinit : left.init exec.leftExecutor = .error fault := hleftGives
      simp only [Gives, joined, overTable, hinit]
  | read leftRows leftFault =>
      obtain ⟨leftOpened, hleftInit, -⟩ := hleftGives
      cases rightPass with
      | refused fault =>
          have hinit : right.init exec.rightExecutor = .error fault := hrightGives
          simp only [Gives, joined, Pass.andThen, overTable, hleftInit, hinit]
      | read rightRows rightFault =>
          obtain ⟨rightOpened, hrightInit, hrightReads⟩ := hrightGives
          refine ⟨{ leftExecutor := leftOpened, rightExecutor := rightOpened }, ?_, ?_⟩
          · simp only [overTable, hleftInit, hrightInit]
          · have hloop := @loopReads _ plan hashTable left right builtLeft openedRight fuel
              { leftExecutor := leftOpened, rightExecutor := rightOpened } _ _ h hrightReads hfuel
              _ hfuel
            refine hloop.through fun tuple => ⟨tuple, ?_⟩
            simp [overTable]

end HashedJoinExecutor

end BusTub
