import BusTub.Execution.DatabaseOrder
import BusTub.Execution.FilterSemantics

/-! # What scans read while others write

Scans take no locks, so that a scan of any isolation level reads what other transactions
have not committed. What it returns is always a tuple that a reader of the table could see
when the iterator of the scan arrived at it: none that was deleted, undone or replaced
before.
-/

namespace BusTub

namespace TableIterator

open TableHeap

/-- The iterator is at the end, or it has a tuple that a reader of the chain sees. -/
def AtVisible (pool : PagePool) (pageIds : List PageId) (it : TableIterator) : Prop :=
  it.rid = endRid ∨ it.rid.pageId ∈ pageIds ∧ getTuple pool it.rid = some it.tuple

variable {pool : PagePool} {pageIds : List PageId} {first : PageId}
  {heap : PageId → List Slot} {it next : TableIterator}

theorem atVisible_of_arrived {rows : List (RID × Tuple)} (h : HeapOk pool first pageIds heap)
    (hat : Arrived heap pageIds it rows) : AtVisible pool pageIds it := by
  cases rows with
  | nil => exact Or.inl hat
  | cons row rest =>
      obtain ⟨hrid, htuple, before, after, hids, hslot, -⟩ := hat
      have hmem : it.rid.pageId ∈ pageIds := by
        rw [hrid, hids]
        exact List.mem_append_right _ List.mem_cons_self
      refine Or.inr ⟨hmem, ?_⟩
      rw [h.getTuple_eq hmem, hrid, htuple]
      exact hslot

/-- `operator++` looks at the pages as they are now. -/
theorem advance_atVisible (h : HeapOk pool first pageIds heap) (hmem : it.rid.pageId ∈ pageIds)
    (hnext : advance pool it = .ok next) : AtVisible pool pageIds next := by
  obtain ⟨before, after, hids⟩ := List.append_of_mem hmem
  obtain ⟨next', hnext', hat⟩ := h.advance_arrived hids
  rw [hnext] at hnext'
  cases hnext'
  exact atVisible_of_arrived h hat

end TableIterator

namespace SeqScanExecutor

open TableIterator

variable [DoubleText] {pool : PagePool} {exec exec' : SeqScanExecutor} {pageIds : List PageId}
  {first : PageId} {heap : PageId → List Slot} {cur cur' : TableIterator}
  {row : Option (Tuple × RID)}

omit [DoubleText] in
theorem project_rid {input : RID × Tuple} {output : Tuple × RID}
    (hproject : exec.project input = .ok output) : output.2 = input.1 := by
  unfold project liftEval at hproject
  split at hproject
  · cases hproject
  next result hresult =>
    obtain ⟨values, -, hrest⟩ := Except.bind_eq_ok_iff.mp hresult
    obtain ⟨tuple, -, hlast⟩ := Except.bind_eq_ok_iff.mp hrest
    cases hproject
    cases hlast
    rfl

/-- The loop of `Next` from an iterator comes to another one. -/
inductive Arrives (pool : PagePool) (passes : RID × Tuple → Except ExecutorFault Bool) :
    TableIterator → TableIterator → Prop where
  | next {cur it : TableIterator} (hne : cur.rid ≠ endRid) (hnext : advance pool cur = .ok it) :
      Arrives pool passes cur it
  /-- The loop goes on if the tuple that the iterator was at does not pass. -/
  | skip {cur following it : TableIterator} (hne : cur.rid ≠ endRid)
      (hnext : advance pool cur = .ok following) (hskip : passes (cur.rid, cur.tuple) = .ok false)
      (hrest : Arrives pool passes following it) : Arrives pool passes cur it

/-- The loop comes to an iterator that has a tuple which a reader of the chain sees. -/
def ArrivesVisible (pool : PagePool) (pageIds : List PageId) (exec : SeqScanExecutor)
    (cur it : TableIterator) : Prop :=
  Arrives pool exec.passes cur it ∧ AtVisible pool pageIds it

/-- A row of a scan is the one that the iterator had before, or one that the loop arrives
at. -/
theorem nextLoop_visible (h : TableHeap.HeapOk pool first pageIds heap) {fuel : Nat}
    (hcur : cur.rid = endRid ∨ cur.rid.pageId ∈ pageIds)
    (hloop : nextLoop pool exec fuel cur = .ok (row, cur')) :
    (cur'.rid = endRid ∨ ArrivesVisible pool pageIds exec cur cur') ∧
      ∀ output, row = some output → ∃ it : TableIterator,
        (it = cur ∨ ArrivesVisible pool pageIds exec cur it) ∧ it.rid ≠ endRid ∧
          exec.passes (it.rid, it.tuple) = .ok true ∧
          exec.project (it.rid, it.tuple) = .ok output := by
  induction fuel generalizing cur with
  | zero => cases hloop
  | succ fuel ih =>
      unfold nextLoop at hloop
      by_cases hend : cur.rid = endRid
      · rw [if_pos hend] at hloop
        cases hloop
        refine ⟨Or.inl hend, ?_⟩
        intro output houtput
        cases houtput
      · rw [if_neg hend] at hloop
        have hmem := hcur.resolve_left hend
        split at hloop
        · cases hloop
        next following hnext =>
          -- the iterator moves on before the predicate sees the tuple it was at
          have hat : ArrivesVisible pool pageIds exec cur following :=
            ⟨.next hend hnext, advance_atVisible h hmem hnext⟩
          split at hloop
          · cases hloop
          next hskip =>
            have hrest : ∀ it, ArrivesVisible pool pageIds exec following it →
                ArrivesVisible pool pageIds exec cur it :=
              fun it => And.imp_left (.skip hend hnext hskip)
            obtain ⟨hfinal, hrow⟩ := ih (hat.2.imp_right And.left) hloop
            refine ⟨hfinal.imp_right (hrest cur'), ?_⟩
            intro output houtput
            obtain ⟨it, hit, hne, hpasses, hproject⟩ := hrow output houtput
            refine ⟨it, ?_, hne, hpasses, hproject⟩
            rcases hit with rfl | hit
            · exact Or.inr hat
            · exact Or.inr (hrest it hit)
          next hpasses =>
            split at hloop
            · cases hloop
            next output hproject =>
              cases hloop
              refine ⟨Or.inr hat, ?_⟩
              intro output' houtput
              cases houtput
              exact ⟨cur, Or.inl rfl, hend, hpasses, hproject⟩

end SeqScanExecutor

namespace Database

open TableIterator

variable [DoubleText] [ValueArithmetic] {db db' : Database} {inputs : List Request}
  {i : Nat} {txnId : TxnId} {exec : SeqScanExecutor} {row : Option (Tuple × RID)}

/-- In this call the iterator of a scan comes to where `it` is: the scan is opened there, or its
`Next` moves there. -/
inductive Arrival (past : Database) (i : Nat) (txnId : TxnId) (exec : SeqScanExecutor)
    (it : TableIterator) : Request → Prop where
  | opened (plan : SeqScanPlanNode) (hnew : i = past.statements.length)
      (hcreate : Executor.create past.pool past.catalog (.seqScan plan) =
        .ok (.seqScan { exec with cur := it })) :
      Arrival past i txnId exec it (.openStatement txnId (.seqScan plan))
  | moved (cur : TableIterator) (child : Option (Tuple × RID))
      (hold : past.statements[i]? = some { txnId, executor := .seqScan { exec with cur } })
      (harrives : SeqScanExecutor.Arrives past.pool exec.passes cur it) :
      Arrival past i txnId exec it (.next i child)

/-- One of the calls moved the iterator of the scan to the record id, with the tuple that a reader
of the table saw there then. -/
def VisibleOnArrival (inputs : List Request) (i : Nat) (txnId : TxnId) (exec : SeqScanExecutor)
    (rid : RID) (tuple : Tuple) : Prop :=
  ∃ earlier request later past, inputs = earlier ++ request :: later ∧
    machine.Reaches empty earlier past ∧ Arrival past i txnId exec { rid, tuple } request ∧
    exec.tableInfo.table.visible past.pool rid = some tuple

theorem VisibleOnArrival.append {rid : RID} {tuple : Tuple}
    (h : VisibleOnArrival inputs i txnId exec rid tuple) (more : List Request) :
    VisibleOnArrival (inputs ++ more) i txnId exec rid tuple := by
  obtain ⟨earlier, request, later, past, rfl, hpast⟩ := h
  refine ⟨earlier, request, later ++ more, past, ?_, hpast⟩
  rw [List.append_assoc, List.cons_append]

theorem visibleOnArrival_last {request : Request} {it : TableIterator}
    (hreach : machine.Reaches empty inputs db) (harrival : Arrival db i txnId exec it request)
    (hmem : it.rid.pageId ∈ exec.tableInfo.table.pageIds db.pool)
    (hget : TableHeap.getTuple db.pool it.rid = some it.tuple) :
    VisibleOnArrival (inputs ++ [request]) i txnId exec it.rid it.tuple := by
  refine ⟨inputs, request, [], db, rfl, hreach, harrival, ?_⟩
  unfold TableHeap.visible
  rw [if_pos hmem]
  exact hget

/-- The tuple that the iterator of a scan holds was visible when it arrived there. -/
def ScanInOrder (inputs : List Request) (db : Database) (i : Nat) (txnId : TxnId)
    (exec : SeqScanExecutor) : Prop :=
  exec.cur.rid = endRid ∨ exec.cur.rid.pageId ∈ exec.tableInfo.table.pageIds db.pool ∧
    VisibleOnArrival inputs i txnId exec exec.cur.rid exec.cur.tuple

omit [DoubleText] [ValueArithmetic] in
theorem Ordered.heapOk (h : db.Ordered) {table : TableHeap} (hmem : table ∈ db.catalog.heaps) :
    ∃ heap, TableHeap.HeapOk db.pool table.firstPageId (table.pageIds db.pool) heap := by
  obtain ⟨chains, heaps, hheaps⟩ := h.heapsOk
  have hheap := hheaps.heapOk table hmem
  refine ⟨heaps table, ?_⟩
  rw [hheap.pageIds_eq]
  exact hheap

/-- A statement is as before, or new, or has just been called. -/
inductive StatementFrom (db db' : Database) (request : Request) (row : Option (Tuple × RID))
    (i : Nat) (statement : Statement) : Prop
  | same (hsame : db.statements[i]? = some statement)
  | opened (plan : Plan) (hrequest : request = .openStatement statement.txnId plan)
      (hnew : i = db.statements.length) (hpool : db'.pool = db.pool)
      (hcreate : Executor.create db.pool db.catalog plan = .ok statement.executor)
  | called (child : Option (Tuple × RID)) (executor : Executor) (ctx : ExecutorContext)
      (hrequest : request = .next i child)
      (hold : db.statements[i]? = some { txnId := statement.txnId, executor })
      (hdoes : executor.Does (db.context statement.txnId) child row statement.executor ctx)
      (hpool : db'.pool = ctx.bpm)

theorem statementFrom_of_step {request : Request} {statement : Statement}
    (hstep : db.step request = .ok (row, db')) (hstatement : db'.statements[i]? = some statement) :
    StatementFrom db db' request row i statement := by
  cases request with
  | createTable tableName schema =>
      simp only [Database.step] at hstep
      split at hstep
      · cases hstep
        exact .same hstatement
      · cases hstep
        exact .same hstatement
  | createIndex indexName tableName schema keySchema keyAttrs =>
      simp only [Database.step] at hstep
      split at hstep
      · cases hstep
      · cases hstep
        exact .same hstatement
  | begin isolationLevel =>
      cases hstep
      exact .same hstatement
  | openStatement txnId plan =>
      simp only [Database.step] at hstep
      split at hstep
      · cases hstep
      next executor hcreate =>
        cases hstep
        dsimp only at hstatement
        by_cases hlt : i < db.statements.length
        · rw [List.getElem?_append_left hlt] at hstatement
          exact .same hstatement
        · rw [List.getElem?_append_right (by omega)] at hstatement
          have hnew := List.mem_of_getElem? hstatement
          have hlast := (List.getElem?_eq_some_iff.mp hstatement).1
          rw [List.mem_singleton] at hnew
          rw [List.length_singleton] at hlast
          subst hnew
          exact .opened plan rfl (by omega) rfl hcreate
  | next k child =>
      simp only [Database.step] at hstep
      split at hstep
      · cases hstep
        exact .same hstatement
      next txnId executor hold =>
        split at hstep
        · cases hstep
        next row' executor' ctx' hnext =>
          cases hstep
          dsimp only at hstatement
          by_cases heq : k = i
          · subst heq
            have hlt := (List.getElem?_eq_some_iff.mp hold).1
            rw [List.getElem?_set_self hlt, Option.some.injEq] at hstatement
            subst hstatement
            exact .called child executor ctx' rfl hold (Executor.does_of_next hnext) rfl
          · rw [List.getElem?_set_ne heq] at hstatement
            exact .same hstatement
  | commit txnId =>
      simp only [Database.step] at hstep
      split at hstep
      · cases hstep
      · cases hstep
        exact .same hstatement
  | abort txnId =>
      simp only [Database.step] at hstep
      split at hstep
      · cases hstep
      · cases hstep
        exact .same hstatement

omit [DoubleText] [ValueArithmetic] in
/-- The heap of the table of a statement. -/
theorem Ordered.statement_heapOk (h : db.Ordered) {statement : Statement}
    (hstatement : db.statements[i]? = some statement) :
    statement.executor.tableInfo.table ∈ db.catalog.heaps ∧
      ∃ heap, TableHeap.HeapOk db.pool statement.executor.tableInfo.table.firstPageId
        (statement.executor.tableInfo.table.pageIds db.pool) heap := by
  obtain ⟨oid, hinfo⟩ := h.statements _ (List.mem_of_getElem? hstatement)
  have hmem : statement.executor.tableInfo.table ∈ db.catalog.heaps := ⟨oid, _, hinfo, rfl⟩
  exact ⟨hmem, h.heapOk hmem⟩

omit [ValueArithmetic] in
/-- A scan keeps its plan and its table, and its iterator moves over the pages as they are. -/
theorem next_inOrder {pool : PagePool} {pageIds : List PageId} {first : PageId}
    {heap : PageId → List Slot} {exec' : SeqScanExecutor}
    (h : TableHeap.HeapOk pool first pageIds heap)
    (hcur : exec.cur.rid = endRid ∨ exec.cur.rid.pageId ∈ pageIds)
    (hnext : exec.next pool = .ok (row, exec')) :
    exec' = { exec with cur := exec'.cur } ∧
      (exec'.cur.rid = endRid ∨
        SeqScanExecutor.ArrivesVisible pool pageIds exec exec.cur exec'.cur) ∧
      ∀ output, row = some output → ∃ it : TableIterator,
        (it = exec.cur ∨ SeqScanExecutor.ArrivesVisible pool pageIds exec exec.cur it) ∧
          it.rid ≠ endRid ∧
          exec.passes (it.rid, it.tuple) = .ok true ∧
          exec.project (it.rid, it.tuple) = .ok output := by
  unfold SeqScanExecutor.next at hnext
  split at hnext
  · cases hnext
  next output cur hloop =>
    cases hnext
    obtain ⟨hfinal, hrow⟩ := SeqScanExecutor.nextLoop_visible h hcur hloop
    exact ⟨rfl, hfinal, hrow⟩

/-- A scan that has just moved is in order: what it holds is visible now. -/
theorem scanInOrder_of_arrival {request : Request} (hreach : machine.Reaches empty inputs db)
    (harrival : Arrival db i txnId exec exec.cur request)
    (hgrows : exec.tableInfo.table.pageIds db.pool ⊆ exec.tableInfo.table.pageIds db'.pool)
    (hat : AtVisible db.pool (exec.tableInfo.table.pageIds db.pool) exec.cur) :
    ScanInOrder (inputs ++ [request]) db' i txnId exec := by
  rcases hat with hend | ⟨hmem, hget⟩
  · exact Or.inl hend
  · exact Or.inr ⟨hgrows hmem, visibleOnArrival_last hreach harrival hmem hget⟩

/-- Every open scan is in order, whatever else the users have called. -/
theorem scans_inOrder (hreach : machine.Reaches empty inputs db) :
    db.Ordered ∧ ∀ i txnId exec, db.statements[i]? = some { txnId, executor := .seqScan exec } →
      ScanInOrder inputs db i txnId exec := by
  refine hreach.history (fun inputs db => db.Ordered ∧ ∀ i txnId exec,
    db.statements[i]? = some { txnId, executor := .seqScan exec } →
      ScanInOrder inputs db i txnId exec) ⟨empty_ordered, nofun⟩ ?_
  rintro before db request row db' hbefore ⟨hordered, hscans⟩ hstep
  have hstep' : db.step request = .ok (row, db') := hstep
  obtain ⟨hordered', hgrows⟩ := hordered.step hstep'
  refine ⟨hordered', ?_⟩
  intro i txnId exec hstatement
  have hinfo : ∀ statement, db.statements[i]? = some statement →
      statement.executor.tableInfo.table.pageIds db.pool ⊆
        statement.executor.tableInfo.table.pageIds db'.pool := by
    intro statement hold
    exact hgrows.pageIds _ (hordered.statement_heapOk hold).1
  rcases statementFrom_of_step hstep' hstatement with hsame |
    ⟨plan, hrequest, hnew, hpool, hcreate⟩ | ⟨child, executor, ctx, hrequest, hold, hdoes, hpool⟩
  · rcases hscans i txnId exec hsame with hend | ⟨hmem, hwas⟩
    · exact Or.inl hend
    · exact Or.inr ⟨hinfo _ hsame hmem, hwas.append [request]⟩
  · obtain ⟨-, heap, hheap⟩ := hordered'.statement_heapOk hstatement
    cases plan with
    | seqScan plan =>
        subst hrequest
        have hexec := hcreate
        simp only [Executor.create] at hcreate
        split at hcreate
        · cases hcreate
        · split at hcreate
          · cases hcreate
          next start hinit =>
            cases hcreate
            unfold SeqScanExecutor.init at hinit
            split at hinit
            · cases hinit
            next cur hfirst =>
              cases hinit
              obtain ⟨cur', hfirst', hat⟩ := hheap.first_arrived
              rw [hpool] at hfirst' hheap
              cases hfirst'.symm.trans hfirst
              exact scanInOrder_of_arrival hbefore (.opened plan hnew hexec) (hpool ▸ List.Subset.refl _)
                (atVisible_of_arrived hheap (hpool ▸ hat))
    | insert plan =>
        simp only [Executor.create] at hcreate
        split at hcreate <;> cases hcreate
    | delete tableOid =>
        simp only [Executor.create] at hcreate
        split at hcreate <;> cases hcreate
    | update plan =>
        simp only [Executor.create] at hcreate
        split at hcreate <;> cases hcreate
  · cases hdoes with
    | @scanned exec₀ _ _ hnext =>
        obtain ⟨-, heap, hheap⟩ := hordered.statement_heapOk hold
        have hcur := (hscans i txnId exec₀ hold).imp_right And.left
        obtain ⟨hexec, hat, -⟩ := next_inOrder hheap hcur hnext
        have hsame : exec₀ = { exec with cur := exec₀.cur } := by rw [hexec]
        rcases hat with hend | ⟨harrives, hvisible⟩
        · exact Or.inl hend
        · rw [hsame] at hold harrives hvisible
          subst hrequest
          exact scanInOrder_of_arrival hbefore (.moved exec₀.cur child hold harrives)
            (hinfo _ hold) hvisible
    | idle hinfo hscan => exact absurd rfl (hscan exec)

/-- In any order of calls, a row that a scan returns comes from a tuple that was visible
at its record id when the iterator of the scan arrived there. -/
theorem scan_returns_visible {child : Option (Tuple × RID)} {output : Tuple × RID}
    (hreach : machine.Reaches empty inputs db)
    (hstatement : db.statements[i]? = some { txnId, executor := .seqScan exec })
    (hnext : machine.step db (.next i child) = .ok (some output, db')) :
    ∃ tuple, VisibleOnArrival (inputs ++ [.next i child]) i txnId exec output.2 tuple ∧
      exec.passes (output.2, tuple) = .ok true ∧ exec.project (output.2, tuple) = .ok output := by
  obtain ⟨hordered, hscans⟩ := scans_inOrder hreach
  have hstep : db.step (.next i child) = .ok (some output, db') := hnext
  simp only [Database.step, hstatement, Executor.next] at hstep
  cases hscan : exec.next (db.context txnId).bpm with
  | error fault =>
      rw [hscan] at hstep
      cases hstep
  | ok result =>
      obtain ⟨row, exec'⟩ := result
      rw [hscan] at hstep
      cases hstep
      obtain ⟨-, heap, hheap⟩ := hordered.statement_heapOk hstatement
      have hcur := (hscans i txnId exec hstatement).imp_right And.left
      obtain ⟨-, -, hrow⟩ := next_inOrder hheap hcur hscan
      obtain ⟨it, hit, hne, hpasses, hproject⟩ := hrow output rfl
      have hrid : output.2 = it.rid := SeqScanExecutor.project_rid hproject
      refine ⟨it.tuple, ?_, ?_, ?_⟩
      · rw [hrid]
        rcases hit with rfl | ⟨harrives, hat⟩
        · obtain ⟨-, hvisible⟩ := (hscans i txnId exec hstatement).resolve_left hne
          exact hvisible.append _
        · obtain ⟨hmem, hget⟩ := hat.resolve_left hne
          exact visibleOnArrival_last hreach (.moved exec.cur child hstatement harrives) hmem hget
      · rwa [hrid]
      · rwa [hrid]

/-- Arithmetic where no value is added to another one. -/
@[reducible] def noArithmetic : ValueArithmetic where
  add _ _ := .error .unreachable

/-- Transaction `0` inserts a row, and transaction `1` opens a scan. Both run at
READ_COMMITTED. -/
def insertAndScan : List Request :=
  [.createTable "t" oneColumn, .begin .readCommitted, .begin .readCommitted,
    .openStatement 0 (.insert { rawValues := some [[.integer 5]], tableOid := 0 }),
    .next 0 none,
    .openStatement 1 (.seqScan { outputSchema := oneColumn, predicate := none, tableOid := 0 })]

/-- The scan that an executor is. -/
def scanOf? : Executor → Option SeqScanExecutor
  | .seqScan exec => some exec
  | _ => none

omit [DoubleText] [ValueArithmetic] in
theorem eq_of_scanOf? {executor : Executor} {exec : SeqScanExecutor}
    (h : scanOf? executor = some exec) : executor = .seqScan exec := by
  cases executor with
  | seqScan scan =>
      cases h
      rfl
  | insert exec => cases h
  | delete exec => cases h
  | update exec => cases h

omit [DoubleText] [ValueArithmetic] in
theorem scan_returns_visible_insertAndScan :
    let _ := noDoubleText
    let _ := noArithmetic
    ∃ db exec, machine.Reaches empty insertAndScan db ∧
      db.statements[1]? = some { txnId := 1, executor := .seqScan exec } ∧
      ∃ tuple, VisibleOnArrival (insertAndScan ++ [.next 1 none]) 1 1 exec ⟨0, 0⟩ tuple ∧
        exec.passes (⟨0, 0⟩, tuple) = .ok true ∧
        exec.project (⟨0, 0⟩, tuple) = .ok (fiveTuple, ⟨0, 0⟩) := by
  intro _ _
  have hrun : ((machine.run empty insertAndScan).toOption.bind fun reached =>
      reached.2.statements[1]?.bind fun statement =>
        (scanOf? statement.executor).bind fun _ =>
          (machine.step reached.2 (.next 1 none)).toOption.map fun scanned => decide
            (statement.txnId = 1 ∧ scanned.1 = some (fiveTuple, ⟨0, 0⟩))) = some true := by
    decide +kernel
  obtain ⟨⟨outputs, db⟩, hreach, hrun⟩ := Option.bind_eq_some_iff.mp hrun
  obtain ⟨⟨txnId, executor⟩, hstatement, hrun⟩ := Option.bind_eq_some_iff.mp hrun
  obtain ⟨exec, hscan, hrun⟩ := Option.bind_eq_some_iff.mp hrun
  obtain ⟨⟨output, db'⟩, hnext, hrun⟩ := Option.map_eq_some_iff.mp hrun
  obtain ⟨rfl, rfl⟩ := of_decide_eq_true hrun
  obtain rfl := eq_of_scanOf? hscan
  have hreached : machine.Reaches empty insertAndScan db :=
    ⟨outputs, Except.toOption_eq_some_iff.mp hreach⟩
  exact ⟨db, exec, hreached, hstatement, scan_returns_visible hreached hstatement
    (Except.toOption_eq_some_iff.mp hnext)⟩

omit [DoubleText] [ValueArithmetic] in
/-- The scan returns the row while the transaction that inserted it runs, and then that
transaction aborts. -/
theorem insertAndScan_dirty :
    let _ := noDoubleText
    let _ := noArithmetic
    ∃ db db' aborted, machine.Reaches empty insertAndScan db ∧
      (db.statements[1]?.map Statement.txnId = some 1 ∧
        (db.transactions 1).isolationLevel = .readCommitted) ∧
      ((db.transactions 0).state = .growing ∧ (db.transactions 0).tableWriteSet =
        [{ rid := ⟨0, 0⟩, wtype := .insert, tuple := [], table := 0 }]) ∧
      machine.step db (.next 1 none) = .ok (some (fiveTuple, ⟨0, 0⟩), db') ∧
      machine.step db' (.abort 0) = .ok (none, aborted) ∧
      (aborted.transactions 0).state = .aborted ∧ TableHeap.getTuple aborted.pool ⟨0, 0⟩ = none := by
  intro _ _
  have hrun : ((machine.run empty insertAndScan).toOption.bind fun reached =>
      (machine.step reached.2 (.next 1 none)).toOption.bind fun scanned =>
        (machine.step scanned.2 (.abort 0)).toOption.map fun aborted => decide
          ((reached.2.statements[1]?.map Statement.txnId = some 1 ∧
              (reached.2.transactions 1).isolationLevel = .readCommitted) ∧
            ((reached.2.transactions 0).state = .growing ∧
              (reached.2.transactions 0).tableWriteSet =
                [{ rid := ⟨0, 0⟩, wtype := .insert, tuple := [], table := 0 }]) ∧
            scanned.1 = some (fiveTuple, ⟨0, 0⟩) ∧ aborted.1 = none ∧
            (aborted.2.transactions 0).state = .aborted ∧
            TableHeap.getTuple aborted.2.pool ⟨0, 0⟩ = none)) = some true := by decide +kernel
  obtain ⟨⟨outputs, db⟩, hreach, hrun⟩ := Option.bind_eq_some_iff.mp hrun
  obtain ⟨⟨output, db'⟩, hnext, hrun⟩ := Option.bind_eq_some_iff.mp hrun
  obtain ⟨⟨none', aborted⟩, habort, hrun⟩ := Option.map_eq_some_iff.mp hrun
  obtain ⟨hscan, hwriter, rfl, rfl, hstate, hgone⟩ := of_decide_eq_true hrun
  exact ⟨db, db', aborted, ⟨outputs, Except.toOption_eq_some_iff.mp hreach⟩, hscan, hwriter,
    Except.toOption_eq_some_iff.mp hnext, Except.toOption_eq_some_iff.mp habort, hstate, hgone⟩

end Database

end BusTub
