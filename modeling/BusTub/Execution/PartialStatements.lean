import BusTub.Execution.StatementRuns
import BusTub.Library.Faults
import BusTub.Table.HeapCalls

/-! # Statements that stop halfway

When `Execute` returns `true`, all rows are processed just if the table takes each of them as
its turn comes. A row that is too large ends an INSERT as if it were the end of its rows, and a
row that is not there is no failure of a DELETE at all.
-/

namespace BusTub

/-! ## The table -/

namespace TablePage

variable {p : Memory} {tuple : Tuple} {rid : RID}

/-- The page takes a new tuple just if it has the room. -/
theorem insertTuple_isSome_iff {inserted : Option (RID × Memory)}
    (hok : insertTuple p tuple = .ok inserted) :
    inserted.isSome ↔ tuple.length + sizeTuple ≤ getFreeSpaceRemaining p := by
  unfold insertTuple at hok
  split at hok
  · cases hok
  · split at hok
    next hfull =>
      cases hok
      simp only [Option.isSome_none, Bool.false_eq_true, false_iff, not_le]
      exact hfull
    next hroom =>
      dsimp only at hok
      rw [if_neg fun hboth => hroom hboth.2] at hok
      cases hok
      simpa using hroom

/-- The page takes an updated tuple just if the old one is there and there is room for it. -/
theorem updateTuple_isSome_iff {updated : Option (Tuple × Memory)}
    (hok : updateTuple p tuple rid = .ok updated) :
    updated.isSome ↔ (rid.slotNum < getTupleCount p ∧
      isDeleted (getTupleSize p rid.slotNum) = false) ∧
        tuple.length ≤ toUInt32 (getFreeSpaceRemaining p + getTupleSize p rid.slotNum) := by
  unfold updateTuple at hok
  split at hok
  · cases hok
  · dsimp only at hok
    split at hok
    next hslot =>
      cases hok
      simp only [Option.isSome_none, Bool.false_eq_true, false_iff]
      omega
    next hslot =>
      split at hok
      next hdeleted =>
        cases hok
        simp [hdeleted]
      next hdeleted =>
        split at hok
        next hfull =>
          cases hok
          simp only [Option.isSome_none, Bool.false_eq_true, false_iff, not_and]
          omega
        next hroom =>
          split at hok
          · cases hok
          · cases hok
            simp only [Option.isSome_some, true_iff]
            exact ⟨⟨by omega, Bool.eq_false_iff.mpr hdeleted⟩, by omega⟩

/-- The page marks a tuple just if it is there. -/
theorem markDelete_fst_iff (p : Memory) (rid : RID) :
    (markDelete p rid).1 = true ↔ rid.slotNum < getTupleCount p ∧
      isDeleted (getTupleSize p rid.slotNum) = false := by
  unfold markDelete
  dsimp only
  split
  next hslot =>
    simp only [Bool.false_eq_true, false_iff, not_and]
    omega
  next hslot =>
    split
    next hdeleted => simp [hdeleted]
    next hdeleted =>
      have hlive := Bool.eq_false_iff.mpr hdeleted
      split <;> simp [hlive] <;> omega

end TablePage

namespace TableHeap

open WriteStatement (HasRoom)

variable {pool : PagePool} {tuple : Tuple}

/-- A page without tuples has room for those that fit beside the header. -/
theorem hasRoom_init {p : Memory} {size : Nat} {pageId newPageId prevPageId : PageId}
    (hpage : pool.pages pageId = TablePage.init p newPageId pageSize prevPageId) :
    HasRoom pool size pageId ↔
      size + TablePage.sizeTuple + TablePage.sizeTablePageHeader ≤ pageSize := by
  have hfree : TablePage.getFreeSpaceRemaining (pool.pages pageId) =
      pageSize - TablePage.sizeTablePageHeader := by
    rw [hpage, (TablePage.represents_init p newPageId prevPageId).freeSpace_eq]
    rfl
  have hnext : TablePage.getNextPageId (pool.pages pageId) = invalidPageId := by
    rw [hpage, TablePage.getNextPageId_init]
  have hheader : TablePage.sizeTablePageHeader ≤ pageSize := by decide
  constructor
  · intro hroom
    cases hroom with
    | here hfits =>
        rw [hfree] at hfits
        omega
    | behind hne _ => exact absurd hnext hne
    | new _ _ hfits => exact hfits
  · intro hfits
    apply HasRoom.here
    rw [hfree]
    omega

/-- The loop of `InsertTuple` finds a place just if there is room from its page on. -/
theorem insertLoop_isSome_iff {fuel : Nat} {pageId : PageId} {inserted : Option RID}
    {final : PagePool} (hok : insertLoop tuple fuel pageId pool = .ok (inserted, final)) :
    inserted.isSome ↔ HasRoom pool tuple.length pageId := by
  induction fuel generalizing pageId pool with
  | zero => cases hok
  | succ fuel ih =>
      unfold insertLoop at hok
      split at hok
      · cases hok
      next rid page hinsert =>
        cases hok
        have hroom := (TablePage.insertTuple_isSome_iff hinsert).mp rfl
        exact iff_of_true rfl (.here hroom)
      next hinsert =>
        have hfull : ¬ tuple.length + TablePage.sizeTuple ≤
            TablePage.getFreeSpaceRemaining (pool.pages pageId) := by
          intro hroom
          have hsome := (TablePage.insertTuple_isSome_iff hinsert).mpr hroom
          cases hsome
        dsimp only at hok
        split at hok
        next hnext =>
          rw [ih hok]
          constructor
          · exact .behind hnext
          · intro hroom
            cases hroom with
            | here hfits => exact absurd hfits hfull
            | behind _ hrest => exact hrest
            | new hlast _ _ => exact absurd hlast hnext
        next hnext =>
          have hlast := not_not.mp hnext
          split at hok
          next hnone =>
            cases hok
            refine iff_of_false Bool.false_ne_true ?_
            intro hroom
            cases hroom with
            | here hfits => exact hfull hfits
            | behind hne _ => exact hne hlast
            | new _ hnew _ =>
                rw [hnone] at hnew
                cases hnew
          next newPageId made hmade =>
            rw [ih hok, hasRoom_init (Function.update_self ..)]
            constructor
            · exact .new hlast (by rw [hmade]; rfl)
            · intro hroom
              cases hroom with
              | here hfits => exact absurd hfits hfull
              | behind hne _ => exact absurd hlast hne
              | new _ _ hfits => exact hfits

/-- `InsertTuple` takes a tuple that is not too large just if there is room for it. -/
theorem insertTuple_isSome_iff {table : TableHeap} {transaction transaction' : Transaction}
    {inserted : Option RID} {final : PagePool}
    (hok : table.insertTuple pool transaction tuple = .ok (inserted, final, transaction')) :
    inserted.isSome ↔ toUInt32 (tuple.length + 32) ≤ pageSize ∧
      HasRoom pool tuple.length table.firstPageId := by
  unfold insertTuple at hok
  split at hok
  next hlarge =>
    cases hok
    refine iff_of_false nofun ?_
    exact fun h => Nat.not_le_of_lt hlarge h.1
  next hsmall =>
    split at hok
    · cases hok
    next hloop =>
      cases hok
      have hroom := insertLoop_isSome_iff hloop
      simp only [Option.isSome_none, Bool.false_eq_true, false_iff] at hroom
      exact iff_of_false nofun fun h => hroom h.2
    next hloop =>
      cases hok
      have hroom := (insertLoop_isSome_iff hloop).mp rfl
      exact iff_of_true rfl ⟨Nat.le_of_not_lt hsmall, hroom⟩

end TableHeap

/-! ## A row -/

namespace WriteStatement

variable [ValueArithmetic] {ctx ctx' : ExecutorContext} {row : SourceRow} {found : Bool}
  {statement statement' : WriteStatement}

theorem Processes.fetched (h : statement.Processes ctx row) : row.fetched = true := by
  cases statement with
  | insert exec =>
      obtain ⟨-, -, -, hfetched, -⟩ := h
      exact hfetched
  | update exec =>
      obtain ⟨-, -, -, -, -, hfetched, -⟩ := h
      exact hfetched
  | delete exec =>
      obtain ⟨-, -, -, hfetched, -⟩ := h
      exact hfetched

/-- An INSERT processes the rows that the table takes, and goes on behind them. -/
theorem processes_insert {exec exec' : InsertExecutor} {inserted : Option (Tuple × RID)}
    (hfetched : row.fetched = true)
    (hexec : exec.next ctx row.child = .ok (inserted, exec', ctx')) :
    (Processes ctx row (.insert exec) ↔ Takes (.insert exec, ctx) row) ∧
      (Takes (.insert exec, ctx) row → inserted.isSome = true) := by
  unfold InsertExecutor.next at hexec
  split at hexec
  · cases hexec
  next htuple =>
    have htakes : ¬ Takes (.insert exec, ctx) row := by
      rintro ⟨-, tuple, exec'', hsome, -⟩
      rw [htuple] at hsome
      cases hsome
    refine ⟨iff_of_false ?_ htakes, fun h => absurd h htakes⟩
    rintro ⟨tuple, exec'', hsome, -⟩
    rw [htuple] at hsome
    cases hsome
  next tuple exec'' htuple =>
    split at hexec
    · cases hexec
    next bpm transaction hinsert =>
      have hfull := TableHeap.insertTuple_isSome_iff hinsert
      simp only [Option.isSome_none, Bool.false_eq_true, false_iff] at hfull
      have htakes : ¬ Takes (.insert exec, ctx) row := by
        rintro ⟨-, tuple', exec', hsome, hfits⟩
        rw [htuple] at hsome
        cases hsome
        exact hfull hfits
      refine ⟨iff_of_false ?_ htakes, fun h => absurd h htakes⟩
      rintro ⟨tuple', exec', hsome, -, rid, bpm', transaction', hsome'⟩
      rw [htuple] at hsome
      cases hsome
      rw [hinsert] at hsome'
      cases hsome'
    next rid bpm transaction hinsert =>
      have hroom := (TableHeap.insertTuple_isSome_iff hinsert).mp rfl
      refine ⟨iff_of_true ⟨tuple, exec'', htuple, hfetched, rid, bpm, transaction, hinsert⟩
        ⟨hfetched, tuple, exec'', htuple, hroom⟩, fun _ => ?_⟩
      split at hexec
      · cases hexec
      · cases hexec
        rfl

/-- An UPDATE goes on behind a row that the page takes. -/
theorem isSome_of_updateTuple {exec : UpdateExecutor} {updated : Option (Tuple × RID)}
    {tuple newTuple : Tuple} {rid : RID}
    (hexec : exec.next ctx (some (tuple, rid)) = .ok (updated, ctx'))
    (hnew : exec.generateUpdatedTuple tuple = .ok newTuple) :
    ∃ result, TablePage.updateTuple (ctx.bpm.pages rid.pageId) newTuple rid = .ok result ∧
      (result.isSome = true → updated.isSome = true) := by
  unfold UpdateExecutor.next at hexec
  dsimp only at hexec
  rw [hnew] at hexec
  dsimp only at hexec
  unfold TableHeap.updateTuple at hexec
  cases hpage : TablePage.updateTuple (ctx.bpm.pages rid.pageId) newTuple rid with
  | error fault =>
      rw [hpage] at hexec
      cases hexec
  | ok result =>
      refine ⟨result, rfl, fun hsome => ?_⟩
      obtain ⟨⟨old, page⟩, rfl⟩ := Option.isSome_iff_exists.mp hsome
      rw [hpage] at hexec
      dsimp only at hexec
      split at hexec
      · cases hexec
      next hheap =>
        split at hheap <;> cases hheap
      next hheap =>
        split at hexec
        · cases hexec
        · cases hexec
          rfl

/-- An UPDATE processes the rows that the table takes, and goes on behind them. -/
theorem processes_update {exec : UpdateExecutor} {updated : Option (Tuple × RID)}
    (hfetched : row.fetched = true) (hexec : exec.next ctx row.child = .ok (updated, ctx')) :
    (Processes ctx row (.update exec) ↔ Takes (.update exec, ctx) row) ∧
      (Takes (.update exec, ctx) row → updated.isSome = true) := by
  constructor
  · constructor
    · rintro ⟨tuple, rid, newTuple, hchild, hnew, -, old, page, hpage⟩
      obtain ⟨hlive, hroom⟩ := (TablePage.updateTuple_isSome_iff hpage).mp rfl
      exact ⟨hfetched, tuple, rid, newTuple, hchild, hnew, hlive, hroom⟩
    · rintro ⟨-, tuple, rid, newTuple, hchild, hnew, hlive, hroom⟩
      rw [hchild] at hexec
      obtain ⟨result, hpage, -⟩ := isSome_of_updateTuple hexec hnew
      have hsome := (TablePage.updateTuple_isSome_iff hpage).mpr ⟨hlive, hroom⟩
      obtain ⟨⟨old, page⟩, rfl⟩ := Option.isSome_iff_exists.mp hsome
      exact ⟨tuple, rid, newTuple, hchild, hnew, hfetched, old, page, hpage⟩
  · rintro ⟨-, tuple, rid, newTuple, hchild, hnew, hlive, hroom⟩
    rw [hchild] at hexec
    obtain ⟨result, hpage, hupdated⟩ := isSome_of_updateTuple hexec hnew
    exact hupdated ((TablePage.updateTuple_isSome_iff hpage).mpr ⟨hlive, hroom⟩)

/-- A DELETE processes the rows that are there, and goes on behind all that it can fetch. -/
theorem processes_delete {exec : DeleteExecutor} {deleted : Option (Tuple × RID)}
    (hfetched : row.fetched = true) (hexec : exec.next ctx row.child = .ok (deleted, ctx')) :
    (Processes ctx row (.delete exec) ↔ Takes (.delete exec, ctx) row) ∧
      (Takes (.delete exec, ctx) row → deleted.isSome = true) := by
  constructor
  · constructor
    · rintro ⟨tuple, rid, hchild, -, hmarked⟩
      exact ⟨hfetched, tuple, rid, hchild, (TablePage.markDelete_fst_iff _ rid).mp hmarked⟩
    · rintro ⟨-, tuple, rid, hchild, hlive⟩
      exact ⟨tuple, rid, hchild, hfetched, (TablePage.markDelete_fst_iff _ rid).mpr hlive⟩
  · rintro ⟨-, tuple, rid, hchild, -⟩
    unfold DeleteExecutor.next TableHeap.markDelete at hexec
    rw [hchild] at hexec
    dsimp only at hexec
    split at hexec
    · cases hexec
    · cases hexec
      rfl

/-- A call of `Next` that returns processes its row just if the table takes it. -/
theorem next_ok (hnext : statement.next ctx row = .ok (found, statement', ctx')) :
    (statement.Processes ctx row ↔ Takes (statement, ctx) row) ∧
      (Takes (statement, ctx) row → found = true) := by
  by_cases hfetched : row.fetched = true
  · unfold next at hnext
    cases statement with
    | insert exec =>
        dsimp only at hnext
        rw [if_pos hfetched] at hnext
        split at hnext
        · cases hnext
        next hexec =>
          cases hnext
          exact processes_insert hfetched hexec
    | update exec =>
        dsimp only at hnext
        rw [if_pos hfetched] at hnext
        split at hnext
        · cases hnext
        next hexec =>
          cases hnext
          exact processes_update hfetched hexec
    | delete exec =>
        dsimp only at hnext
        rw [if_pos hfetched] at hnext
        split at hnext
        · cases hnext
        next hexec =>
          cases hnext
          exact processes_delete hfetched hexec
  · -- the table takes nothing on a page that it cannot fetch
    have htakes : ¬ Takes (statement, ctx) row := fun h => hfetched h.1
    exact ⟨iff_of_false (fun h => hfetched h.fetched) htakes, fun h => absurd h htakes⟩

/-! ## Runs -/

theorem processesAll_iff {rows : List SourceRow} {final : ExecutorContext}
    (hexecute : execute statement ctx rows = .ok (true, final)) :
    ProcessesAll statement ctx rows ↔ machine.Guarded Takes (statement, ctx) rows := by
  induction rows generalizing statement ctx with
  | nil => exact Iff.rfl
  | cons row rest ih =>
      unfold execute at hexecute
      cases hnext : statement.next ctx row with
      | error fault =>
          rw [hnext] at hexecute
          cases hexecute
      | ok result =>
          obtain ⟨found, statement', ctx'⟩ := result
          have hstep : machine.step (statement, ctx) row = .ok (found, statement', ctx') := by
            simp only [machine, hnext]
          obtain ⟨htakes, hfound⟩ := next_ok hnext
          rw [Machine.guarded_cons_of_step hstep]
          unfold ProcessesAll
          rw [htakes, hnext]
          cases found with
          | false =>
              -- the loop ends here, and the row is not taken
              have hnot : ¬ Takes (statement, ctx) row := fun h => absurd (hfound h) (by decide)
              exact iff_of_false (fun h => hnot h.1) (fun h => hnot h.1)
          | true =>
              rw [hnext] at hexecute
              rw [← ih hexecute]
              refine and_congr_right fun _ => ?_
              constructor
              · rintro ⟨_, _, hsame, hall⟩
                cases hsame
                exact hall
              · exact fun hall => ⟨statement', ctx', rfl, hall⟩

/-- When `Execute` returns `true`, every row of a statement is processed exactly when the table
takes each row as its turn comes. -/
theorem execute_processes_iff {childRows : List (Tuple × RID)} {fetched : Nat → Bool}
    {final : ExecutorContext} (hexecute : execute statement ctx
      (statement.sourceRows childRows fetched) = .ok (true, final)) :
    ProcessesAll statement ctx (statement.sourceRows childRows fetched) ↔
      machine.Guarded Takes (statement, ctx) (statement.sourceRows childRows fetched) :=
  processesAll_iff hexecute

/-- An INSERT into the small table. -/
def smallInsert : InsertExecutor where
  plan := { rawValues := none, tableOid := 0 }
  tableInfo := { schema := ⟨[]⟩, name := "t", table := TableHeap.smallTable, oid := 0 }
  indexInfoArray := []
  nextInsertPos := 0

/-- The context of the small table. -/
def smallContext : ExecutorContext where
  transaction := {}
  catalog := Catalog.empty
  bpm := TableHeap.smallPool

/-- A row of four bytes. -/
def smallRow (byte : UInt8) : Tuple × RID := ([byte, 0, 0, 0], ⟨0, 0⟩)

/-- The statement is the INSERT, and the first page has room for a row of four bytes. -/
def takesFour (state : WriteStatement × ExecutorContext) : Bool :=
  match state.1 with
  | .insert exec => exec = smallInsert ∧
      4 + TablePage.sizeTuple ≤ TablePage.getFreeSpaceRemaining (state.2.bpm.pages 0)
  | _ => false

theorem takes_smallRow {state : WriteStatement × ExecutorContext} (byte : UInt8)
    (h : takesFour state = true) :
    Takes state { child := some (smallRow byte), fetched := true } := by
  unfold takesFour at h
  obtain ⟨exec | exec | exec, ctx⟩ := state
  · obtain ⟨rfl, hroom⟩ := of_decide_eq_true h
    have hfits : toUInt32 (4 + 32) ≤ pageSize := by decide
    exact ⟨rfl, [byte, 0, 0, 0], smallInsert, rfl, hfits, .here hroom⟩
  · cases h
  · cases h

omit [ValueArithmetic] in
theorem execute_processes_iff_smallRows :
    let _ : ValueArithmetic := ⟨fun _ _ => .error .notCoercable⟩
    ∃ final, execute (.insert smallInsert) smallContext
        ((WriteStatement.insert smallInsert).sourceRows [smallRow 5, smallRow 7] fun _ => true) =
          .ok (true, final) ∧
      ProcessesAll (.insert smallInsert) smallContext
        ((WriteStatement.insert smallInsert).sourceRows [smallRow 5, smallRow 7] fun _ => true) := by
  intro _
  have hexecute : (execute (.insert smallInsert) smallContext
      ((WriteStatement.insert smallInsert).sourceRows [smallRow 5, smallRow 7]
        fun _ => true)).toOption.map Prod.fst = some true := by
    decide +kernel
  obtain ⟨⟨_, final⟩, hfinal, rfl⟩ := Option.map_eq_some_iff.mp hexecute
  have hreturns := Except.toOption_eq_some_iff.mp hfinal
  have hafter : ((machine.step (.insert smallInsert, smallContext)
      { child := some (smallRow 5), fetched := true }).toOption.all fun result =>
        takesFour result.2) = true := by
    decide +kernel
  refine ⟨final, hreturns, (execute_processes_iff hreturns).mpr ⟨takes_smallRow 5 ?_, ?_⟩⟩
  · decide +kernel
  · intro output middle hstep
    rw [hstep] at hafter
    exact ⟨takes_smallRow 7 hafter, fun _ _ _ => trivial⟩

/-! ## A row that is too large -/

omit [ValueArithmetic] in
theorem tupleTooLarge_lt : pageSize < toUInt32 ((List.replicate 4096 (0 : UInt8)).length + 32) := by
  rw [List.length_replicate]
  decide

/-- A row of the size of a page. -/
def largeRow : Tuple × RID := (List.replicate 4096 0, ⟨0, 0⟩)

theorem next_largeRow : (WriteStatement.insert smallInsert).next smallContext
    { child := some largeRow, fetched := true } =
      .ok (false, .insert smallInsert, smallContext.abort) := by
  have hinsert : TableHeap.smallTable.insertTuple TableHeap.smallPool {}
      (List.replicate 4096 (0 : UInt8)) =
        .ok (none, TableHeap.smallPool, { state := .aborted }) := by
    unfold TableHeap.insertTuple
    rw [if_pos tupleTooLarge_lt]
  have htuple : smallInsert.nextTuple (some largeRow) =
      .ok (some (List.replicate 4096 0), smallInsert) := rfl
  unfold next InsertExecutor.next
  simp only [htuple, if_true]
  unfold smallInsert smallContext
  simp only [hinsert]
  rfl

theorem execute_largeRow : execute (.insert smallInsert) smallContext
    ((WriteStatement.insert smallInsert).sourceRows [largeRow] fun _ => true) =
      .ok (true, smallContext.abort) := by
  have hrows : (WriteStatement.insert smallInsert).sourceRows [largeRow] (fun _ => true) =
      [{ child := some largeRow, fetched := true }] := rfl
  rw [hrows]
  unfold execute
  rw [next_largeRow]

omit [ValueArithmetic] in
/-- `Execute` returns `true`, and the row is not in the table. -/
theorem largeRow_not_processed :
    let _ : ValueArithmetic := ⟨fun _ _ => .error .notCoercable⟩
    ¬ ∀ (statement : WriteStatement) (ctx final : ExecutorContext) (childRows : List (Tuple × RID))
        (fetched : Nat → Bool),
      execute statement ctx (statement.sourceRows childRows fetched) = .ok (true, final) →
        ProcessesAll statement ctx (statement.sourceRows childRows fetched) := by
  intro _ hclaim
  obtain ⟨-, _, _, hnext, -⟩ := hclaim _ _ _ _ _ execute_largeRow
  rw [next_largeRow] at hnext
  cases hnext

end WriteStatement

end BusTub
