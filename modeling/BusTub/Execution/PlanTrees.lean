import BusTub.Execution.ExecutorPasses
import BusTub.Execution.FilterSemantics
import BusTub.Execution.UncommittedReads
import BusTub.Table.HeapInsertion
import BusTub.Table.HeapStates

/-! # Plan trees

What a plan comes to is computed from the tables, node by node. The executor that is created
for the plan gives just that on each pass, whatever was read of the passes before it.
-/

namespace BusTub

open Cursor

/-! ## The rows of a table -/

namespace TableHeap

/-- The visible tuples, in the order of the pages and of the slots in them. -/
def visibleRows (table : TableHeap) (pool : PagePool) : List (RID × Tuple) :=
  (table.pageIds pool).flatMap fun pageId =>
    (List.range' 0 (TablePage.getTupleCount (pool.pages pageId))).filterMap fun slotNum =>
      (getTuple pool ⟨pageId, slotNum⟩).map (⟨pageId, slotNum⟩, ·)

theorem HeapOk.visibleRows_eq {pool : PagePool} {table : TableHeap} {pageIds : List PageId}
    {heap : PageId → List Slot} (h : HeapOk pool table.firstPageId pageIds heap) :
    table.visibleRows pool = liveRows heap pageIds := by
  unfold visibleRows liveRows
  rw [h.pageIds_eq]
  apply List.flatMap_congr
  intro pageId hmem
  unfold pageRows Slots.liveFrom
  rw [List.map_filterMap, (h.represents pageId hmem).count, Nat.sub_zero]
  apply List.filterMap_congr
  intro slotNum _
  rw [h.getTuple_eq hmem]
  cases Slots.getTuple (heap pageId) slotNum <;> rfl

end TableHeap

/-! ## Creating executors -/

/-- An executor is created that gives the pass each time, or none is for the reason given. -/
def Creates (created : Except PlanFault AbstractExecutor) :
    Except PlanFault (Pass Tuple PlanFault) → Prop
  | .error fault => created = .error fault
  | .ok each => ∃ executor, created = .ok executor ∧ executor.Restarts each

theorem Creates.outcome {created : Except PlanFault AbstractExecutor}
    {result : Except PlanFault (Pass Tuple PlanFault)} (h : Creates created result) :
    (∃ fault, created = .error fault ∧ result = .error fault) ∨
      ∃ executor pass, created = .ok executor ∧ result = .ok pass ∧ executor.Restarts pass := by
  cases result with
  | error fault => exact Or.inl ⟨fault, h, rfl⟩
  | ok pass =>
      obtain ⟨executor, hcreated, hrestarts⟩ := h
      exact Or.inr ⟨executor, pass, hcreated, rfl, hrestarts⟩

theorem creates_of_ok {created : Except PlanFault AbstractExecutor} {executor : AbstractExecutor}
    {result : Except PlanFault (Pass Tuple PlanFault)} {pass : Pass Tuple PlanFault}
    (hcreated : created = .ok executor) (hrestarts : executor.Restarts pass)
    (hresult : result = .ok pass) : Creates created result := by
  rw [hresult]
  exact ⟨executor, hcreated, hrestarts⟩

namespace GroupingExecutor

variable [DoubleText] [ValueArithmetic] [ValueExtremes]

/-- What the constructor and the passes after it make of a pass over the child. -/
def aggregated (plan : GroupingPlanNode) (order : IterationOrder) :
    Pass Tuple PlanFault → Except PlanFault (Pass Tuple PlanFault)
  | .refused fault => .error fault
  | .read rows fault =>
      match consumed (addRow plan) [] rows fault with
      | .error fault => .error fault
      | .ok aht =>
          let result := having plan.toAggregationPlanNode (groups order aht)
          .ok (.read result.1 (result.2.map .eval))

theorem creates {plan : GroupingPlanNode} {order : IterationOrder} {child : AbstractExecutor}
    {pass : Pass Tuple PlanFault} {fuel : Nat} (h : child.Restarts pass)
    (hfuel : pass.rows.length < fuel) :
    Creates (new plan order child fuel) (aggregated plan order pass) := by
  cases pass with
  | refused fault =>
      have hinit : child.init child.start = .error fault := h child.start .start
      simp only [Creates, aggregated, new, hinit]
  | read rows fault =>
      rcases new_of_reads plan order h hfuel with
        ⟨fault', hconsumed, hcreated⟩ | ⟨aht, filledChild, hconsumed, hfilled, hcreated⟩
      · simp only [Creates, aggregated, hconsumed, hcreated]
      · apply creates_of_ok hcreated (restarts h hfilled)
        simp only [aggregated, hconsumed, Pass.andThen]

end GroupingExecutor

namespace HashedJoinExecutor

variable [DoubleText] {plan : HashJoinPlanNode} {rows : List Tuple}
  {entries hashTable : List HashJoinEntry}

/-- Each row has another key than the rows before it. -/
def DistinctKeys (plan : HashJoinPlanNode) (rows : List Tuple) : Prop :=
  rows.Pairwise fun row other => ∀ key key',
    plan.leftJoinKeyExpression.evaluate row plan.leftSchema = .ok key →
    plan.leftJoinKeyExpression.evaluate other plan.leftSchema = .ok key' →
    key'.compareEquals key ≠ .ok .cmpTrue

/-- A new key gets an entry of its own. -/
theorem addRow_of_new {hash : UInt64} {key : Value} {values : List Value}
    {entries' : List HashJoinEntry}
    (hnew : ∀ entry ∈ entries, key.compareEquals entry.key ≠ .ok .cmpTrue)
    (hadd : HashJoinEntry.addRow hash key values entries = .ok entries') :
    entries' = entries ++ [{ hash, key, rows := [values] }] := by
  induction entries generalizing entries' with
  | nil =>
      cases hadd
      rfl
  | cons entry rest ih =>
      obtain ⟨hentry, hrest⟩ := List.forall_mem_cons.mp hnew
      rw [HashJoinEntry.addRow] at hadd
      split at hadd
      · cases hadd
      next hholds =>
        exfalso
        unfold HashJoinEntry.holds at hholds
        split at hholds
        · split at hholds
          · cases hholds
          next result hcompare =>
            rw [Except.ok.injEq, decide_eq_true_eq] at hholds
            exact hentry (hholds ▸ hcompare)
        · cases hholds
      next hholds =>
        split at hadd
        · cases hadd
        next rest' hadd' =>
          cases hadd
          rw [ih hrest hadd', List.cons_append]

theorem addLeft_eq_ok {row : Tuple} {entries' : List HashJoinEntry}
    (hadd : addLeft plan entries row = .ok entries') : ∃ key values hash,
      plan.leftJoinKeyExpression.evaluate row plan.leftSchema = .ok key ∧
        HashJoinEntry.addRow hash key values entries = .ok entries' := by
  unfold addLeft at hadd
  dsimp only at hadd
  split at hadd
  · cases hadd
  next hfilled =>
    cases hadd
    obtain ⟨key, hkey, hfilled⟩ := Except.bind_eq_ok_iff.mp hfilled
    obtain ⟨values, -, hfilled⟩ := Except.bind_eq_ok_iff.mp hfilled
    obtain ⟨hash, -, hadd⟩ := Except.bind_eq_ok_iff.mp hfilled
    exact ⟨key, values, hash, hkey, hadd⟩

/-- Left rows with distinct keys fill a table with one row for each of them. -/
theorem oneRowEach_foldlM (hone : OneRowEach entries)
    (hnew : ∀ entry ∈ entries, ∀ row ∈ rows, ∀ key,
      plan.leftJoinKeyExpression.evaluate row plan.leftSchema = .ok key →
      key.compareEquals entry.key ≠ .ok .cmpTrue)
    (hdistinct : DistinctKeys plan rows)
    (hfold : rows.foldlM (addLeft plan) entries = .ok hashTable) : OneRowEach hashTable := by
  induction rows generalizing entries with
  | nil =>
      cases hfold
      exact hone
  | cons row rest ih =>
      obtain ⟨hfirst, hdistinct⟩ := List.pairwise_cons.mp hdistinct
      rw [List.foldlM_cons] at hfold
      obtain ⟨entries', hadd, hfold⟩ := Except.bind_eq_ok_iff.mp hfold
      obtain ⟨key, values, hash, hkey, hadd⟩ := addLeft_eq_ok hadd
      have hentries := addRow_of_new
        (fun entry hmem => hnew entry hmem row List.mem_cons_self key hkey) hadd
      rw [hentries] at hfold
      apply ih _ _ hdistinct hfold
      · intro entry hmem
        rcases List.mem_append.mp hmem with hold | hadded
        · exact hone entry hold
        · rw [List.mem_singleton.mp hadded]
          rfl
      · intro entry hmem other hother key' hkey'
        rcases List.mem_append.mp hmem with hold | hadded
        · exact hnew entry hold other (List.mem_cons_of_mem _ hother) key' hkey'
        · rw [List.mem_singleton.mp hadded]
          exact hfirst other hother key key' hkey hkey'

/-- What the constructor and the passes after it make of passes over the children. -/
def hashed (plan : HashJoinPlanNode) :
    Pass Tuple PlanFault → Pass Tuple PlanFault → Except PlanFault (Pass Tuple PlanFault)
  | .refused fault, _ => .error fault
  | .read _ _, .refused fault => .error fault
  | .read leftRows leftFault, .read rightRows rightFault =>
      match consumed (addLeft plan) [] leftRows leftFault with
      | .error fault => .error fault
      | .ok hashTable =>
          .ok (joined plan hashTable (.read leftRows leftFault) (.read rightRows rightFault))

theorem creates {left right : AbstractExecutor} {leftPass rightPass : Pass Tuple PlanFault}
    {fuel : Nat} (hleft : left.Restarts leftPass) (hright : right.Restarts rightPass)
    (hdistinct : DistinctKeys plan leftPass.rows) (hleftFuel : leftPass.rows.length < fuel)
    (hrightFuel : rightPass.rows.length < fuel) :
    Creates (new plan left right fuel) (hashed plan leftPass rightPass) := by
  have hleftGives := hleft left.start .start
  have hrightGives := hright right.start .start
  cases leftPass with
  | refused fault =>
      have hinit : left.init left.start = .error fault := hleftGives
      simp only [Creates, hashed, new, hinit]
  | read leftRows leftFault =>
      obtain ⟨leftOpened, hleftInit, hleftReads⟩ := hleftGives
      cases rightPass with
      | refused fault =>
          have hinit : right.init right.start = .error fault := hrightGives
          simp only [Creates, hashed, new, hleftInit, hinit]
      | read rightRows rightFault =>
          obtain ⟨rightOpened, hrightInit, -⟩ := hrightGives
          obtain ⟨final, hconsume⟩ := @Reads.consume_eq _ _ _ _ .exhausted (addLeft plan) []
            leftOpened leftRows leftFault hleftReads fuel hleftFuel []
          cases hconsumed : consumed (addLeft plan) [] leftRows leftFault with
          | error fault =>
              rw [hconsumed] at hconsume
              simp only [Creates, hashed, new, hleftInit, hrightInit, hconsume, hconsumed,
                Except.map]
          | ok hashTable =>
              rw [hconsumed] at hconsume
              have hbuilt : left.Reached final :=
                consume_reached (Reached.start.init hleftInit) hconsume
              have hone : OneRowEach hashTable := by
                unfold consumed at hconsumed
                split at hconsumed
                · cases hconsumed
                next hfold =>
                  split at hconsumed
                  · cases hconsumed
                    apply oneRowEach_foldlM _ _ hdistinct hfold
                    · intro entry hmem
                      cases hmem
                    · intro entry hmem
                      cases hmem
                  · cases hconsumed
              have hopened : right.Reached rightOpened := Reached.start.init hrightInit
              have hcreated : new plan left right fuel =
                  .ok (overTable plan hashTable left right final rightOpened fuel) := by
                simp only [new, hleftInit, hrightInit, hconsume, Except.map]
              apply creates_of_ok hcreated
                (restarts hone hleft hright hbuilt hopened hrightFuel)
              simp only [hashed, hconsumed]

end HashedJoinExecutor

/-! ## The meaning of a plan -/

namespace AbstractPlanNode

variable [DoubleText] [ValueArithmetic] [ValueExtremes]

/-- What each pass over the executor of a plan comes to, or why there is no executor. -/
def meaning (pool : PagePool) (catalog : Catalog) (order : IterationOrder) :
    AbstractPlanNode → Except PlanFault (Pass Tuple PlanFault)
  | .seqScan plan =>
      match catalog.getTable plan.tableOid with
      | none => .error .nullInfo
      | some tableInfo =>
          let result := SeqScanExecutor.scanned tableInfo plan (tableInfo.table.visibleRows pool)
          .ok (.read (result.1.map Prod.fst) (result.2.map .executor))
  | .limit _ count child =>
      (meaning pool catalog order child).map
        (Pass.andThen (LimitExecutor.firstRows count.toNat))
  | .distinct outputSchema child =>
      (meaning pool catalog order child).map
        (Pass.andThen (DistinctExecutor.newRows outputSchema []))
  | .aggregation outputSchema having groupBys aggregates aggTypes child =>
      match meaning pool catalog order child with
      | .error fault => .error fault
      | .ok childPass =>
          GroupingExecutor.aggregated { outputSchema, having, groupBys, aggregates, aggTypes
                                        childSchema := child.outputSchema } order childPass
  | .nestedLoopJoin outputSchema predicate left right =>
      match meaning pool catalog order left with
      | .error fault => .error fault
      | .ok leftPass =>
          match meaning pool catalog order right with
          | .error fault => .error fault
          | .ok rightPass => .ok (LoopJoinExecutor.joined
              { outputSchema, predicate, leftSchema := left.outputSchema
                rightSchema := right.outputSchema } leftPass rightPass)
  | .hashJoin outputSchema leftJoinKeyExpression rightJoinKeyExpression left right =>
      match meaning pool catalog order left with
      | .error fault => .error fault
      | .ok leftPass =>
          match meaning pool catalog order right with
          | .error fault => .error fault
          | .ok rightPass => HashedJoinExecutor.hashed
              { outputSchema, leftJoinKeyExpression, rightJoinKeyExpression
                leftSchema := left.outputSchema, rightSchema := right.outputSchema }
              leftPass rightPass

/-- The left rows of each hash join have distinct keys. -/
def KeysDistinct (pool : PagePool) (catalog : Catalog) (order : IterationOrder) :
    AbstractPlanNode → Prop
  | .seqScan _ => True
  | .limit _ _ child => KeysDistinct pool catalog order child
  | .distinct _ child => KeysDistinct pool catalog order child
  | .aggregation _ _ _ _ _ child => KeysDistinct pool catalog order child
  | .nestedLoopJoin _ _ left right =>
      KeysDistinct pool catalog order left ∧ KeysDistinct pool catalog order right
  | .hashJoin outputSchema leftJoinKeyExpression rightJoinKeyExpression left right =>
      KeysDistinct pool catalog order left ∧ KeysDistinct pool catalog order right ∧
        ∀ leftPass, meaning pool catalog order left = .ok leftPass →
          HashedJoinExecutor.DistinctKeys
            { outputSchema, leftJoinKeyExpression, rightJoinKeyExpression
              leftSchema := left.outputSchema, rightSchema := right.outputSchema } leftPass.rows

/-- The number of rows of a pass. -/
def rowCount : Except PlanFault (Pass Tuple PlanFault) → Nat
  | .error _ => 0
  | .ok each => each.rows.length

variable {pool : PagePool} {catalog : Catalog} {order : IterationOrder}

/-- With as many turns as its loops take, the executor of a plan gives what the plan means. -/
theorem creates (htables : ∀ tableOid tableInfo, catalog.getTable tableOid = some tableInfo →
      TableHeap.Reached tableInfo.table pool)
    (plan : AbstractPlanNode) (hkeys : plan.KeysDistinct pool catalog order) :
    ∃ turns, ∀ fuel, turns ≤ fuel →
      Creates (createExecutor { bpm := pool, catalog, order, fuel } plan)
        (plan.meaning pool catalog order) := by
  induction plan with
  | seqScan plan =>
      refine ⟨0, fun fuel _ => ?_⟩
      rw [createExecutor, meaning]
      cases htable : catalog.getTable plan.tableOid with
      | none => rfl
      | some tableInfo =>
          obtain ⟨pageIds, heap, hlinked⟩ := (htables _ _ htable).linked
          have hok := hlinked.toHeapOk
          apply creates_of_ok rfl (SeqScanExecutor.restarts hok)
          dsimp only
          rw [hok.visibleRows_eq]
  | limit outputSchema count child ih =>
      obtain ⟨turns, hchild⟩ := ih hkeys
      refine ⟨turns, fun fuel hfuel => ?_⟩
      rw [createExecutor, meaning]
      rcases (hchild fuel hfuel).outcome with
        ⟨fault, hcreated, hmeaning⟩ | ⟨executor, pass, hcreated, hmeaning, hrestarts⟩
      · rw [hcreated, hmeaning]
        rfl
      · rw [hcreated, hmeaning]
        exact creates_of_ok rfl (LimitExecutor.restarts hrestarts) rfl
  | distinct outputSchema child ih =>
      obtain ⟨turns, hchild⟩ := ih hkeys
      -- one call may drop every row of the child and has to see its end
      refine ⟨max turns (rowCount (child.meaning pool catalog order) + 1), fun fuel hfuel => ?_⟩
      obtain ⟨hturns, hrows⟩ := max_le_iff.mp hfuel
      rw [createExecutor, meaning]
      rcases (hchild fuel hturns).outcome with
        ⟨fault, hcreated, hmeaning⟩ | ⟨executor, pass, hcreated, hmeaning, hrestarts⟩
      · rw [hcreated, hmeaning]
        rfl
      · rw [hmeaning] at hrows
        rw [hcreated, hmeaning]
        exact creates_of_ok rfl (DistinctExecutor.restarts hrestarts hrows) rfl
  | aggregation outputSchema having groupBys aggregates aggTypes child ih =>
      obtain ⟨turns, hchild⟩ := ih hkeys
      refine ⟨max turns (rowCount (child.meaning pool catalog order) + 1), fun fuel hfuel => ?_⟩
      obtain ⟨hturns, hrows⟩ := max_le_iff.mp hfuel
      rw [createExecutor, meaning]
      rcases (hchild fuel hturns).outcome with
        ⟨fault, hcreated, hmeaning⟩ | ⟨executor, pass, hcreated, hmeaning, hrestarts⟩
      · rw [hcreated, hmeaning]
        rfl
      · rw [hmeaning] at hrows
        rw [hcreated, hmeaning]
        exact GroupingExecutor.creates hrestarts hrows
  | nestedLoopJoin outputSchema predicate left right ihLeft ihRight =>
      obtain ⟨leftTurns, hleft⟩ := ihLeft hkeys.1
      obtain ⟨rightTurns, hright⟩ := ihRight hkeys.2
      -- one call may compare every left row with all the right rows
      refine ⟨max (max leftTurns rightTurns) (rowCount (left.meaning pool catalog order) *
        (rowCount (right.meaning pool catalog order) + 1)), fun fuel hfuel => ?_⟩
      obtain ⟨hturns, hrows⟩ := max_le_iff.mp hfuel
      obtain ⟨hleftTurns, hrightTurns⟩ := max_le_iff.mp hturns
      rw [createExecutor, meaning]
      rcases (hleft fuel hleftTurns).outcome with
        ⟨fault, hcreated, hmeaning⟩ | ⟨leftExecutor, leftPass, hleftCreated, hleftPass, hleftAll⟩
      · rw [hcreated, hmeaning]
        rfl
      rcases (hright fuel hrightTurns).outcome with
        ⟨fault, hcreated, hmeaning⟩ | ⟨rightExecutor, rightPass, hrightCreated, hrightPass, hrightAll⟩
      · rw [hleftCreated, hleftPass, hcreated, hmeaning]
        rfl
      rw [hleftPass, hrightPass] at hrows
      rw [hleftCreated, hleftPass, hrightCreated, hrightPass]
      exact creates_of_ok rfl (LoopJoinExecutor.restarts hleftAll hrightAll hrows) rfl
  | hashJoin outputSchema leftKey rightKey left right ihLeft ihRight =>
      obtain ⟨hleftKeys, hrightKeys, hdistinct⟩ := hkeys
      obtain ⟨leftTurns, hleft⟩ := ihLeft hleftKeys
      obtain ⟨rightTurns, hright⟩ := ihRight hrightKeys
      -- the table takes all the left rows, and one call may pass over all the right ones
      refine ⟨max (max leftTurns rightTurns) (max (rowCount (left.meaning pool catalog order))
        (rowCount (right.meaning pool catalog order)) + 1), fun fuel hfuel => ?_⟩
      obtain ⟨hturns, hrows⟩ := max_le_iff.mp hfuel
      obtain ⟨hleftTurns, hrightTurns⟩ := max_le_iff.mp hturns
      rw [createExecutor, meaning]
      rcases (hleft fuel hleftTurns).outcome with
        ⟨fault, hcreated, hmeaning⟩ | ⟨leftExecutor, leftPass, hleftCreated, hleftPass, hleftAll⟩
      · rw [hcreated, hmeaning]
        rfl
      rcases (hright fuel hrightTurns).outcome with
        ⟨fault, hcreated, hmeaning⟩ | ⟨rightExecutor, rightPass, hrightCreated, hrightPass, hrightAll⟩
      · rw [hleftCreated, hleftPass, hcreated, hmeaning]
        rfl
      rw [hleftPass, hrightPass] at hrows
      rw [hleftCreated, hleftPass, hrightCreated, hrightPass]
      have hleftRows : leftPass.rows.length < fuel := lt_of_le_of_lt (le_max_left _ _) hrows
      have hrightRows : rightPass.rows.length < fuel := lt_of_le_of_lt (le_max_right _ _) hrows
      exact HashedJoinExecutor.creates hleftAll hrightAll (hdistinct _ hleftPass) hleftRows
        hrightRows

end AbstractPlanNode

/-! ## Faults of a plan -/

theorem some_eval_ne_exhausted (fault : EvalFault) :
    some (PlanFault.eval fault) ≠ some PlanFault.exhausted := by
  intro heq
  cases heq

theorem map_eval_ne_exhausted (fault : Option EvalFault) :
    fault.map PlanFault.eval ≠ some .exhausted := by
  cases fault with
  | none => simp
  | some fault => exact some_eval_ne_exhausted fault

theorem consumed_ne_exhausted {α : Type} {add : α → Tuple → Except PlanFault α} {acc : α}
    {rows : List Tuple} {fault : Option PlanFault} (hfault : fault ≠ some .exhausted)
    (hadd : ∀ acc row, add acc row ≠ .error .exhausted) :
    consumed add acc rows fault ≠ .error .exhausted := by
  intro herror
  rcases consumed_eq_error herror with ⟨acc, row, hrow⟩ | hends
  · exact hadd acc row hrow
  · exact hfault hends

theorem DistinctExecutor.newRows_ne_exhausted [DoubleText] (outputSchema : Schema)
    (hashTable : List (KeyedEntry Unit)) (rows : List Tuple) {fault : Option PlanFault}
    (hfault : fault ≠ some .exhausted) :
    (newRows outputSchema hashTable rows fault).2 ≠ some .exhausted := by
  induction rows generalizing hashTable with
  | nil => exact hfault
  | cons row rest ih =>
      rw [newRows]
      cases addDistinct outputSchema hashTable row with
      | error fault => exact some_eval_ne_exhausted fault
      | ok added =>
          cases added with
          | none => exact ih hashTable
          | some added => exact ih added

namespace LoopJoinExecutor

variable [DoubleText] {plan : NestedLoopJoinPlanNode}

theorem pairsWith_ne_exhausted (leftTuple : Tuple) {behind : List Tuple × Option PlanFault}
    (hbehind : behind.2 ≠ some .exhausted) (rightRest : List Tuple) :
    (pairsWith plan leftTuple behind rightRest).2 ≠ some .exhausted := by
  induction rightRest with
  | nil => exact hbehind
  | cons rightTuple rest ih =>
      rw [pairsWith]
      cases passes plan leftTuple rightTuple with
      | error fault => exact some_eval_ne_exhausted fault
      | ok b =>
          cases b with
          | false => exact ih
          | true =>
              cases outputTuple plan leftTuple rightTuple with
              | error fault => exact some_eval_ne_exhausted fault
              | ok output => exact ih

omit [DoubleText] in
theorem unlessFault_ne_exhausted {fault : Option PlanFault}
    {behind : List Tuple × Option PlanFault} (hfault : fault ≠ some .exhausted)
    (hbehind : behind.2 ≠ some .exhausted) : (unlessFault fault behind).2 ≠ some .exhausted := by
  cases fault with
  | none => exact hbehind
  | some fault => exact hfault

theorem pairs_ne_exhausted {leftFault rightFault : Option PlanFault} (rightRows : List Tuple)
    (hleft : leftFault ≠ some .exhausted) (hright : rightFault ≠ some .exhausted)
    (leftTuple : Tuple) (leftRest rightRest : List Tuple) :
    (pairs plan leftFault rightRows rightFault leftTuple leftRest rightRest).2 ≠
      some .exhausted := by
  induction leftRest generalizing leftTuple rightRest with
  | nil => exact pairsWith_ne_exhausted _ (unlessFault_ne_exhausted hright hleft) _
  | cons nextTuple leftRest ih =>
      exact pairsWith_ne_exhausted _ (unlessFault_ne_exhausted hright (ih _ _)) _

theorem joined_ne_exhausted {leftPass rightPass : Pass Tuple PlanFault}
    (hleft : leftPass.fault ≠ some .exhausted) (hright : rightPass.fault ≠ some .exhausted) :
    (joined plan leftPass rightPass).fault ≠ some .exhausted := by
  cases leftPass with
  | refused fault => exact hleft
  | read leftRows leftFault =>
      cases rightPass with
      | refused fault =>
          cases leftRows <;> exact hright
      | read rightRows rightFault =>
          cases leftRows with
          | nil => cases leftFault <;> exact hleft
          | cons leftTuple leftRest => exact pairs_ne_exhausted _ hleft hright _ _ _

end LoopJoinExecutor

namespace HashedJoinExecutor

variable [DoubleText] {plan : HashJoinPlanNode}

theorem probed_ne_exhausted (hashTable : List HashJoinEntry) (rightRows : List Tuple)
    {fault : Option PlanFault} (hfault : fault ≠ some .exhausted) :
    (probed plan hashTable rightRows fault).2 ≠ some .exhausted := by
  induction rightRows with
  | nil => exact hfault
  | cons rightTuple rest ih =>
      rw [probed]
      cases HashJoinExecutor.lookup plan hashTable rightTuple with
      | error fault => exact some_eval_ne_exhausted fault
      | ok found =>
          rcases found with _ | _ | ⟨values, others⟩
          · exact ih
          · exact some_eval_ne_exhausted .noSuchEntry
          · dsimp only
            cases HashJoinExecutor.outputTuple plan values rightTuple with
            | error fault => exact some_eval_ne_exhausted fault
            | ok output => exact ih

theorem addLeft_ne_exhausted (hashTable : List HashJoinEntry) (row : Tuple) :
    addLeft plan hashTable row ≠ .error .exhausted := by
  unfold addLeft
  dsimp only
  split
  · simp [PlanFault.eval]
  · simp

end HashedJoinExecutor

theorem GroupingExecutor.addRow_ne_exhausted [DoubleText] [ValueArithmetic] [ValueExtremes]
    (plan : GroupingPlanNode) (aht : List (KeyedEntry (List Value))) (tuple : Tuple) :
    addRow plan aht tuple ≠ .error .exhausted := by
  unfold addRow
  dsimp only
  split
  · simp [PlanFault.eval]
  · simp

/-- No loop runs out of turns. -/
def HasTurns : Except PlanFault (Pass Tuple PlanFault) → Prop
  | .error fault => fault ≠ .exhausted
  | .ok each => each.fault ≠ some .exhausted

theorem HasTurns.map_andThen {result : Except PlanFault (Pass Tuple PlanFault)}
    (h : HasTurns result) {change : List Tuple → Option PlanFault → List Tuple × Option PlanFault}
    (hchange : ∀ rows fault, fault ≠ some .exhausted → (change rows fault).2 ≠ some .exhausted) :
    HasTurns (result.map (Pass.andThen change)) := by
  rcases result with fault | ⟨fault⟩ | ⟨rows, fault⟩
  · exact h
  · exact h
  · exact hchange rows fault h

theorem GroupingExecutor.aggregated_hasTurns [DoubleText] [ValueArithmetic] [ValueExtremes]
    (plan : GroupingPlanNode) (order : IterationOrder) {pass : Pass Tuple PlanFault}
    (h : pass.fault ≠ some .exhausted) : HasTurns (aggregated plan order pass) := by
  cases pass with
  | refused fault =>
      intro heq
      exact h (congrArg some heq)
  | read rows fault =>
      have hconsumed : consumed (addRow plan) [] rows fault ≠ .error .exhausted :=
        consumed_ne_exhausted h (addRow_ne_exhausted plan)
      rw [aggregated]
      cases hresult : consumed (addRow plan) [] rows fault with
      | error fault =>
          intro heq
          exact hconsumed (heq ▸ hresult)
      | ok aht => exact map_eval_ne_exhausted _

theorem HashedJoinExecutor.hashed_hasTurns [DoubleText] (plan : HashJoinPlanNode)
    {leftPass rightPass : Pass Tuple PlanFault} (hleft : leftPass.fault ≠ some .exhausted)
    (hright : rightPass.fault ≠ some .exhausted) : HasTurns (hashed plan leftPass rightPass) := by
  cases leftPass with
  | refused fault =>
      intro heq
      exact hleft (congrArg some heq)
  | read leftRows leftFault =>
      cases rightPass with
      | refused fault =>
          intro heq
          exact hright (congrArg some heq)
      | read rightRows rightFault =>
          have hconsumed : consumed (addLeft plan) [] leftRows leftFault ≠ .error .exhausted :=
            consumed_ne_exhausted hleft addLeft_ne_exhausted
          rw [hashed]
          cases hresult : consumed (addLeft plan) [] leftRows leftFault with
          | error fault =>
              intro heq
              exact hconsumed (heq ▸ hresult)
          | ok hashTable => exact probed_ne_exhausted hashTable rightRows hright

namespace AbstractPlanNode

section Passes

variable [DoubleText] [ValueArithmetic] [ValueExtremes] {pool : PagePool} {catalog : Catalog}
  {order : IterationOrder}

theorem meaning_hasTurns (plan : AbstractPlanNode) :
    HasTurns (plan.meaning pool catalog order) := by
  induction plan with
  | seqScan plan =>
      rw [meaning]
      cases catalog.getTable plan.tableOid with
      | none => simp [HasTurns]
      | some tableInfo =>
          dsimp only [HasTurns, Pass.fault]
          cases (SeqScanExecutor.scanned tableInfo plan (tableInfo.table.visibleRows pool)).2 <;>
            simp
  | limit outputSchema count child ih =>
      rw [meaning]
      apply ih.map_andThen
      intro rows fault hfault
      dsimp only [LimitExecutor.firstRows]
      split
      · simp
      · exact hfault
  | distinct outputSchema child ih =>
      rw [meaning]
      apply ih.map_andThen
      intro rows fault hfault
      exact DistinctExecutor.newRows_ne_exhausted outputSchema [] rows hfault
  | aggregation outputSchema having groupBys aggregates aggTypes child ih =>
      rw [meaning]
      generalize child.meaning pool catalog order = result at ih ⊢
      cases result with
      | error fault => exact ih
      | ok pass => exact GroupingExecutor.aggregated_hasTurns _ order ih
  | nestedLoopJoin outputSchema predicate left right ihLeft ihRight =>
      rw [meaning]
      generalize left.meaning pool catalog order = leftResult at ihLeft ⊢
      generalize right.meaning pool catalog order = rightResult at ihRight ⊢
      cases leftResult with
      | error fault => exact ihLeft
      | ok leftPass =>
          cases rightResult with
          | error fault => exact ihRight
          | ok rightPass => exact LoopJoinExecutor.joined_ne_exhausted ihLeft ihRight
  | hashJoin outputSchema leftKey rightKey left right ihLeft ihRight =>
      rw [meaning]
      generalize left.meaning pool catalog order = leftResult at ihLeft ⊢
      generalize right.meaning pool catalog order = rightResult at ihRight ⊢
      cases leftResult with
      | error fault => exact ihLeft
      | ok leftPass =>
          cases rightResult with
          | error fault => exact ihRight
          | ok rightPass => exact HashedJoinExecutor.hashed_hasTurns _ ihLeft ihRight

/-- With enough turns, a plan that has no meaning has no executor, for the same reason; one that
has a meaning has an executor, and each pass over it, whatever calls of `Init` and `Next` there
were before, yields what the plan means. No loop runs out of turns. -/
theorem passes_same (htables : ∀ tableOid tableInfo,
      catalog.getTable tableOid = some tableInfo → TableHeap.Reached tableInfo.table pool)
    (plan : AbstractPlanNode) (hkeys : plan.KeysDistinct pool catalog order) :
    ∃ turns, ∀ fuel, turns ≤ fuel →
      (∀ fault, plan.meaning pool catalog order = .error fault → fault ≠ .exhausted ∧
        createExecutor { bpm := pool, catalog, order, fuel } plan = .error fault) ∧
      ∀ pass, plan.meaning pool catalog order = .ok pass → pass.fault ≠ some .exhausted ∧
        ∃ executor, createExecutor { bpm := pool, catalog, order, fuel } plan = .ok executor ∧
          ∀ state, executor.Reached state → ∀ calls tuple, pass.rows.length < calls →
            executor.pass .exhausted calls state tuple = (pass.rows, pass.fault) := by
  obtain ⟨turns, hcreates⟩ := creates htables plan hkeys
  refine ⟨turns, fun fuel hfuel => ?_⟩
  have hcreated := hcreates fuel hfuel
  have hturns : HasTurns (plan.meaning pool catalog order) := plan.meaning_hasTurns
  constructor
  · intro fault hmeaning
    rw [hmeaning] at hcreated hturns
    exact ⟨hturns, hcreated⟩
  · intro pass hmeaning
    rw [hmeaning] at hcreated hturns
    obtain ⟨executor, hexecutor, hrestarts⟩ := hcreated
    refine ⟨hturns, executor, hexecutor, ?_⟩
    intro state hreached calls tuple hcalls
    exact hrestarts.pass_eq hcalls hreached tuple

end Passes

/-- Values of which no extremes are taken. -/
@[reducible] def noExtremes : ValueExtremes where
  min _ _ := .error .unreachable
  max _ _ := .error .unreachable

/-- A catalog with a small table. -/
def smallCatalog : Catalog :=
  let tableInfo := { schema := oneColumn, name := "t", table := TableHeap.smallTable, oid := 0 }
  { Catalog.empty with tables := Function.update Catalog.empty.tables 0 (some tableInfo) }

/-- The table joined with itself, without duplicates. -/
def selfJoin : AbstractPlanNode :=
  let scan := AbstractPlanNode.seqScan
    { outputSchema := oneColumn, predicate := none, tableOid := 0 }
  .distinct oneColumn (.hashJoin oneColumn (.columnValue 0 0) (.columnValue 0 0) scan scan)

/-- The small table with two rows. -/
theorem exists_fiveAndSeven : ∃ pool, TableHeap.Reached TableHeap.smallTable pool ∧
    TableHeap.smallTable.visibleRows pool = [(⟨0, 0⟩, [5, 0, 0, 0]), (⟨0, 1⟩, [7, 0, 0, 0])] := by
  have hfive : Slots.insert [] [5, 0, 0, 0] = some (0, [.full false [5, 0, 0, 0]]) := by decide
  have hseven : Slots.insert [.full false [5, 0, 0, 0]] [7, 0, 0, 0] =
      some (1, [.full false [5, 0, 0, 0], .full false [7, 0, 0, 0]]) := by decide
  obtain ⟨pool, -, -, hreached, h⟩ := HeapContents.smallPool_onePage.reached_insert
    TableHeap.smallPool_reached (HeapContents.onePage_insert (by decide) hfive) {}
  obtain ⟨pool, -, -, hreached, h⟩ := h.reached_insert hreached
    (HeapContents.onePage_insert (by decide) hseven) {}
  refine ⟨pool, hreached, ?_⟩
  rw [h.linked.toHeapOk.visibleRows_eq]
  decide

theorem smallCatalog_tables {pool : PagePool} (h : TableHeap.Reached TableHeap.smallTable pool)
    (tableOid : TableOid) (tableInfo : TableInfo)
    (htable : smallCatalog.getTable tableOid = some tableInfo) :
    TableHeap.Reached tableInfo.table pool := by
  by_cases heq : tableOid = 0
  · subst heq
    cases htable
    exact h
  · have hnone : smallCatalog.getTable tableOid = none := Function.update_of_ne heq _ _
    rw [hnone] at htable
    cases htable

theorem passes_same_selfJoin :
    let _ := noDoubleText
    let _ := Database.noArithmetic
    let _ := noExtremes
    ∃ pool turns, ∀ fuel, turns ≤ fuel → ∃ executor,
      createExecutor { bpm := pool, catalog := smallCatalog, order := id, fuel } selfJoin =
        .ok executor ∧
      ∀ state, executor.Reached state → ∀ calls tuple, 2 < calls →
        executor.pass .exhausted calls state tuple = ([[5, 0, 0, 0], [7, 0, 0, 0]], none) := by
  intro _ _ _
  obtain ⟨pool, hreached, hrows⟩ := exists_fiveAndSeven
  have htable : smallCatalog.getTable 0 = some
      { schema := oneColumn, name := "t", table := TableHeap.smallTable, oid := 0 } := rfl
  have hscan : (AbstractPlanNode.seqScan
      { outputSchema := oneColumn, predicate := none, tableOid := 0 }).meaning pool smallCatalog
        id = .ok (.read [[5, 0, 0, 0], [7, 0, 0, 0]] none) := by
    rw [meaning, htable]
    dsimp only
    rw [hrows]
    rfl
  have hmeaning : selfJoin.meaning pool smallCatalog id =
      .ok (.read [[5, 0, 0, 0], [7, 0, 0, 0]] none) := by
    unfold selfJoin
    rw [meaning, meaning, hscan]
    rfl
  have hkeys : selfJoin.KeysDistinct pool smallCatalog id := by
    refine ⟨trivial, trivial, ?_⟩
    intro leftPass hleft
    rw [hscan] at hleft
    cases hleft
    refine List.pairwise_pair.mpr ?_
    intro key key' hkey hkey'
    cases hkey
    cases hkey'
    decide
  obtain ⟨turns, hpasses⟩ := passes_same (smallCatalog_tables hreached) selfJoin hkeys
  refine ⟨pool, turns, fun fuel hfuel => ?_⟩
  obtain ⟨-, executor, hexecutor, hpass⟩ := (hpasses fuel hfuel).2 _ hmeaning
  exact ⟨executor, hexecutor, hpass⟩

end AbstractPlanNode

end BusTub
