import BusTub.Execution.PlanTrees
import BusTub.Table.HeapContents

/-! # INSERT ... SELECT from the same table

An `InsertExecutor` whose child scans the table that it inserts into. When the child hands out a
row, its iterator has gone on to the next one already. A copy that is put behind that next row is
come to as well, and if it passes the predicate it is inserted once more.
-/

namespace BusTub

open TableHeap TableIterator HeapContents

/-! ## Keys -/

namespace Catalog

variable {catalog catalog' : Catalog} {indexOids : List IndexOid} {schema : Schema}
  {tuple : Tuple} {rid : RID}

/-- Every index of the list has a key for the tuple. -/
def HasKeys (catalog : Catalog) (indexOids : List IndexOid) (schema : Schema) (tuple : Tuple) :
    Prop :=
  ∀ indexOid ∈ indexOids, ∃ indexInfo key, catalog.getIndex indexOid = some indexInfo ∧
    indexInfo.keyOf schema tuple = .ok key

/-- The indexes compute the same keys. -/
def SameKeys (catalog catalog' : Catalog) : Prop :=
  ∀ indexOid, (catalog'.getIndex indexOid).map IndexInfo.keyOf =
    (catalog.getIndex indexOid).map IndexInfo.keyOf

theorem HasKeys.congr (h : catalog.HasKeys indexOids schema tuple)
    (hsame : SameKeys catalog catalog') : catalog'.HasKeys indexOids schema tuple := by
  intro indexOid hmem
  obtain ⟨indexInfo, key, hinfo, hkey⟩ := h indexOid hmem
  have hlookup := hsame indexOid
  rw [hinfo, Option.map_some] at hlookup
  obtain ⟨indexInfo', hinfo', hkeyOf⟩ := Option.map_eq_some_iff.mp hlookup
  refine ⟨indexInfo', key, hinfo', ?_⟩
  rw [hkeyOf, hkey]

theorem SameKeys.symm (h : SameKeys catalog catalog') : SameKeys catalog' catalog :=
  fun indexOid => (h indexOid).symm

theorem SameKeys.trans {catalog'' : Catalog} (h : SameKeys catalog catalog')
    (h' : SameKeys catalog' catalog'') : SameKeys catalog catalog'' :=
  fun indexOid => (h' indexOid).trans (h indexOid)

theorem sameKeys_update {indexOid : IndexOid} {indexInfo indexInfo' : IndexInfo}
    (hinfo : catalog.getIndex indexOid = some indexInfo)
    (hkeyOf : indexInfo'.keyOf = indexInfo.keyOf) : SameKeys catalog
      { catalog with indexes := Function.update catalog.indexes indexOid (some indexInfo') } := by
  intro other
  unfold getIndex at hinfo ⊢
  dsimp only
  by_cases heq : other = indexOid
  · subst heq
    rw [Function.update_self, hinfo, Option.map_some, Option.map_some, hkeyOf]
  · rw [Function.update_of_ne heq]

/-- The loop over the indexes changes no key, and goes through only if all of them have one. -/
theorem sameKeys_of_forIndexes
    (hchange : forIndexes (InsertExecutor.insertEntry schema tuple rid) indexOids catalog =
      .ok catalog') : SameKeys catalog catalog' ∧ catalog.HasKeys indexOids schema tuple := by
  induction indexOids generalizing catalog with
  | nil =>
      cases hchange
      exact ⟨fun _ => rfl, by simp [HasKeys]⟩
  | cons indexOid rest ih =>
      unfold forIndexes InsertExecutor.insertEntry at hchange
      cases hinfo : catalog.getIndex indexOid with
      | none =>
          rw [hinfo] at hchange
          cases hchange
      | some indexInfo =>
          rw [hinfo] at hchange
          dsimp only at hchange
          cases hkey : indexInfo.keyOf schema tuple with
          | error fault =>
              rw [hkey] at hchange
              cases hchange
          | ok key =>
              rw [hkey] at hchange
              obtain ⟨hsame, hkeys⟩ := ih hchange
              have hfirst := @sameKeys_update _ _ _ { indexInfo with
                index := indexInfo.index.insertEntry key rid } hinfo rfl
              exact ⟨hfirst.trans hsame,
                List.forall_mem_cons.mpr ⟨⟨indexInfo, key, hinfo, hkey⟩, hkeys.congr hfirst.symm⟩⟩

theorem HasKeys.exists_forIndexes (h : catalog.HasKeys indexOids schema tuple) (rid : RID) :
    ∃ catalog', forIndexes (InsertExecutor.insertEntry schema tuple rid) indexOids catalog =
      .ok catalog' := by
  induction indexOids generalizing catalog with
  | nil => exact ⟨catalog, rfl⟩
  | cons indexOid rest ih =>
      obtain ⟨⟨indexInfo, key, hinfo, hkey⟩, hrest⟩ := List.forall_mem_cons.mp h
      unfold forIndexes InsertExecutor.insertEntry
      rw [hinfo]
      dsimp only
      rw [hkey]
      have hsame := @sameKeys_update _ _ _ { indexInfo with
        index := indexInfo.index.insertEntry key rid } hinfo rfl
      exact ih (HasKeys.congr hrest hsame)

end Catalog

/-! ## The executors -/

/-- An `InsertExecutor` over a `SeqScanExecutor`, with the context that both are in. -/
structure InsertSelect where
  ctx : ExecutorContext
  insert : InsertExecutor
  childExecutor : SeqScanExecutor

/-- What a call of `Next` does: the row that the child hands out, and the tuple that is
inserted with its record id. -/
structure InsertTurn where
  child : Option (Tuple × RID)
  inserted : Option (Tuple × RID)
  deriving DecidableEq, Repr

namespace InsertSelect

/-- The constructors and `Init`, for a plan that inserts into the table that its child scans. -/
def create (ctx : ExecutorContext) (childPlan : SeqScanPlanNode) :
    Except CatalogFault InsertSelect :=
  match ctx.catalog.getTable childPlan.tableOid with
  | none => .error .nullInfo
  | some tableInfo =>
      match InsertExecutor.new ctx.catalog
          { rawValues := none, tableOid := childPlan.tableOid } with
      | .error fault => .error fault
      | .ok insert =>
          match (SeqScanExecutor.new tableInfo childPlan).init ctx.bpm with
          | .error fault => .error (.heap fault)
          | .ok childExecutor => .ok { ctx, insert, childExecutor }

variable [DoubleText]

/-- `Next`. -/
def next (state : InsertSelect) : Except CatalogFault (InsertTurn × InsertSelect) :=
  match state.childExecutor.next state.ctx.bpm with
  | .error fault => .error fault.toCatalogFault
  | .ok (child, childExecutor) =>
      match state.insert.next state.ctx child with
      | .error fault => .error fault
      | .ok (inserted, insert, ctx) => .ok ({ child, inserted }, { ctx, insert, childExecutor })

/-- The loop of `Execute`: it comes to its end at the first call that inserts nothing. -/
inductive Executes : InsertSelect → List InsertTurn → InsertSelect → Prop
  | stop {state final : InsertSelect} {child : Option (Tuple × RID)}
      (hnext : state.next = .ok ({ child, inserted := none }, final)) :
      Executes state [{ child, inserted := none }] final
  | turn {state middle final : InsertSelect} {child : Option (Tuple × RID)} {row : Tuple × RID}
      {turns : List InsertTurn}
      (hnext : state.next = .ok ({ child, inserted := some row }, middle))
      (hrest : Executes middle turns final) :
      Executes state ({ child, inserted := some row } :: turns) final

/-- A row of the child and where its copy is put. -/
abbrev Copy := (Tuple × RID) × RID

/-- The call that puts a copy of a row of the child. -/
def copyTurn (copy : Copy) : InsertTurn where
  child := some copy.1
  inserted := some (copy.1.1, copy.2)

/-- The call that finds the child at its end. -/
def lastTurn : InsertTurn where
  child := none
  inserted := none

/-- The statement comes to its end. Its child hands out just the rows, one copy of each is
inserted, and these are what the table gets. -/
def CopiesOnce (state : InsertSelect) (outputs : List (Tuple × RID)) : Prop :=
  ∃ (copies : List Copy) (final : InsertSelect),
    Executes state (copies.map copyTurn ++ [lastTurn]) final ∧
    copies.map Prod.fst = outputs ∧
    (state.insert.tableInfo.table.visibleRows final.ctx.bpm).Perm
      (state.insert.tableInfo.table.visibleRows state.ctx.bpm ++
        copies.map fun copy => (copy.2, copy.1.1))

/-- Put one after the other, the copies of the rows find a place, and none that passes the
predicate has a row between the row that it is a copy of and itself. -/
def Unread (exec : SeqScanExecutor) : HeapContents → List (Tuple × RID) → Prop
  | _, [] => True
  | contents, (tuple, source) :: rest =>
      match contents.insert tuple with
      | none => False
      | some (rid, following) =>
          (exec.passes (rid, tuple) = .ok false ∨ ∀ row ∈ contents.rows,
            Before contents.pageIds source row.1 → ¬ Before contents.pageIds row.1 rid) ∧
          Unread exec following rest

/-! ## A call of `Next` -/

/-- What the table has and which rows the scan has before it, when a statement has come to a
state. -/
structure Stage (start state : InsertSelect) (contents : HeapContents)
    (ahead : List (RID × Tuple)) : Prop where
  insert_eq : state.insert = start.insert
  child_eq : state.childExecutor = { start.childExecutor with cur := state.childExecutor.cur }
  ofTable : contents.OfTable start.insert.tableInfo.table state.ctx.bpm
  rows_eq : ∃ behind, contents.rows = behind ++ ahead
  standsAt : StandsAt state.childExecutor.cur ahead
  sameKeys : Catalog.SameKeys start.ctx.catalog state.ctx.catalog

/-- The rows before the scan once there is a copy in the table: it is among them if it is put
behind one of them. -/
def Follow (contents : HeapContents) (rest : List (RID × Tuple)) (copy : RID × Tuple)
    (ahead : List (RID × Tuple)) : Prop :=
  ∀ row, row ∈ ahead ↔ row ∈ rest ∨
    row = copy ∧ ∃ other ∈ rest, RowsBefore contents.pageIds other copy

/-- What a call of `Next` can do. -/
inductive Does (start state : InsertSelect) (contents : HeapContents)
    (ahead : List (RID × Tuple)) : InsertTurn → InsertSelect → Prop
  | finished {final : InsertSelect}
      (hfound : Generator.firstPassing start.childExecutor.passes ahead = .ok none)
      (hctx : final.ctx = state.ctx) : Does start state contents ahead lastTurn final
  | rejected {final : InsertSelect} (output : Tuple × RID) :
      Does start state contents ahead { child := some output, inserted := none } final
  | copied {middle : InsertSelect} {following : HeapContents} {rest ahead' : List (RID × Tuple)}
      {row : RID × Tuple} {output : Tuple × RID} {rid : RID}
      (hfound : Generator.firstPassing start.childExecutor.passes ahead = .ok (some (row, rest)))
      (hproject : start.childExecutor.project row = .ok output)
      (hinsert : contents.insert output.1 = some (rid, following))
      (hkeys : start.ctx.catalog.HasKeys start.insert.indexInfoArray
        start.insert.tableInfo.schema output.1)
      (hstage : Stage start middle following ahead')
      (hfollow : Follow contents rest (rid, output.1) ahead') :
      Does start state contents ahead (copyTurn (output, rid)) middle

variable {start state middle final : InsertSelect} {contents following : HeapContents}
  {ahead rest : List (RID × Tuple)} {row : RID × Tuple} {output : Tuple × RID} {turn : InsertTurn}
  {rid : RID} {turns : List InsertTurn}

omit [DoubleText] in
theorem Stage.scanning (h : Stage start state contents ahead) :
    SeqScanExecutor.Scanning state.ctx.bpm start.childExecutor state.childExecutor ahead := by
  obtain ⟨behind, hrows⟩ := h.rows_eq
  refine ⟨h.child_eq, h.ofTable.walks hrows h.standsAt, ?_⟩
  have hbound := h.ofTable.linked.toHeapOk.length_liveRows_le
  change contents.rows.length ≤ _ at hbound
  rw [hrows, List.length_append] at hbound
  omega

omit [DoubleText] in
/-- The copy comes into the table while the scan stands at the rest of the rows. -/
theorem Stage.exists_follow (h : Stage start state contents ahead) {skipped : List (RID × Tuple)}
    (hahead : ahead = skipped ++ row :: rest)
    (hinsert : contents.insert output.1 = some (rid, following)) {bpm : PagePool}
    (hfollowing : following.OfTable start.insert.tableInfo.table bpm) :
    ∃ behind ahead', following.rows = behind ++ ahead' ∧ ahead'.head? = rest.head? ∧
      Follow contents rest (rid, output.1) ahead' := by
  obtain ⟨behind, hrows⟩ := h.rows_eq
  have hsplit : contents.rows = (behind ++ skipped ++ [row]) ++ rest := by simp [hrows, hahead]
  obtain ⟨-, hmem, horder⟩ := h.ofTable.rows_insert hinsert hfollowing
  have hbefore := h.ofTable.rows_pairwise
  rw [hsplit] at hbefore hmem
  exact StrictOrder.exists_after_insert hbefore horder hmem

omit [DoubleText] in
/-- Once a row is handed out and its copy is in the table, the scan stands where it stood. -/
theorem Stage.copied (h : Stage start state contents ahead) {skipped : List (RID × Tuple)}
    (hahead : ahead = skipped ++ row :: rest) {childExecutor : SeqScanExecutor}
    (hchild : SeqScanExecutor.Scanning state.ctx.bpm start.childExecutor childExecutor rest)
    (hinsert : contents.insert output.1 = some (rid, following)) (ctx : ExecutorContext)
    (hfollowing : following.OfTable start.insert.tableInfo.table ctx.bpm)
    (hsame : Catalog.SameKeys state.ctx.catalog ctx.catalog) :
    ∃ ahead', Stage start { ctx, insert := start.insert, childExecutor } following ahead' ∧
      Follow contents rest (rid, output.1) ahead' := by
  obtain ⟨behind, ahead', hrows, hhead, hfollow⟩ := h.exists_follow hahead hinsert hfollowing
  have hstands := hchild.walks.standsAt
  unfold StandsAt at hstands
  rw [← hhead] at hstands
  exact ⟨ahead', ⟨rfl, hchild.same, hfollowing, ⟨behind, hrows⟩, hstands,
    h.sameKeys.trans hsame⟩, hfollow⟩

omit [DoubleText] in
theorem insert_next_some {exec : InsertExecutor} (hselect : exec.plan.rawValues = none)
    (ctx : ExecutorContext) (output : Tuple × RID) :
    exec.next ctx (some output) =
      match exec.tableInfo.table.insertTuple ctx.bpm ctx.transaction output.1 with
      | .error fault => .error (.heap fault)
      | .ok (none, bpm, transaction) => .ok (none, exec, { ctx with bpm, transaction })
      | .ok (some rid, bpm, transaction) =>
          match Catalog.forIndexes
              (InsertExecutor.insertEntry exec.tableInfo.schema output.1 rid)
              exec.indexInfoArray ctx.catalog with
          | .error fault => .error fault
          | .ok catalog => .ok (some (output.1, rid), exec, { bpm, transaction, catalog }) := by
  unfold InsertExecutor.next InsertExecutor.nextTuple
  rw [hselect]
  rfl

/-- What a call of `Next` does, said once. -/
theorem Stage.does (h : Stage start state contents ahead)
    (hselect : start.insert.plan.rawValues = none) (hnext : state.next = .ok (turn, middle)) :
    Does start state contents ahead turn middle := by
  have hcall := SeqScanExecutor.filters start.childExecutor _ _ h.scanning
  unfold next at hnext
  cases hfound : Generator.firstPassing start.childExecutor.passes ahead with
  | error fault =>
      rw [hfound] at hcall
      dsimp only at hcall
      rw [hcall] at hnext
      cases hnext
  | ok found =>
      rw [hfound] at hcall
      cases found with
      | none =>
          obtain ⟨child, hchild⟩ := hcall
          rw [hchild, h.insert_eq] at hnext
          dsimp only at hnext
          unfold InsertExecutor.next InsertExecutor.nextTuple at hnext
          rw [hselect] at hnext
          cases hnext
          exact .finished hfound rfl
      | some found =>
          obtain ⟨row, rest⟩ := found
          dsimp only at hcall
          -- the scan has found a row, which it projects
          cases hproject : start.childExecutor.project row with
          | error fault =>
              rw [hproject] at hcall
              dsimp only at hcall
              rw [hcall] at hnext
              cases hnext
          | ok output =>
              rw [hproject] at hcall
              obtain ⟨child, hchild, hrest⟩ := hcall
              rw [hchild, h.insert_eq] at hnext
              dsimp only at hnext
              rw [insert_next_some hselect] at hnext
              -- the projected tuple is put into the table that is scanned
              have hstored := h.ofTable.insertTuple output.1 state.ctx.transaction
              cases htuple : start.insert.tableInfo.table.insertTuple state.ctx.bpm
                  state.ctx.transaction output.1 with
              | error fault =>
                  rw [htuple] at hnext
                  cases hnext
              | ok result =>
                  obtain ⟨rid?, bpm, transaction⟩ := result
                  rw [htuple] at hnext hstored
                  cases rid? with
                  | none =>
                      cases hnext
                      exact .rejected output
                  | some rid =>
                      dsimp only at hnext
                      obtain ⟨skipped, hahead, -⟩ := Generator.split_of_firstPassing hfound
                      cases hindexes : Catalog.forIndexes
                          (InsertExecutor.insertEntry start.insert.tableInfo.schema output.1 rid)
                          start.insert.indexInfoArray state.ctx.catalog with
                      | error fault =>
                          rw [hindexes] at hnext
                          cases hnext
                      | ok catalog =>
                          rw [hindexes] at hnext
                          cases hnext
                          -- every index takes an entry before the row is put out
                          obtain ⟨hsame, hkeys⟩ := Catalog.sameKeys_of_forIndexes hindexes
                          cases hinsert : contents.insert output.1 with
                          | none =>
                              rw [hinsert] at hstored
                              exact absurd rfl (hstored rid bpm transaction)
                          | some stored =>
                              obtain ⟨rid', following⟩ := stored
                              rw [hinsert] at hstored
                              obtain ⟨bpm', transaction', hok, hfollowing⟩ := hstored
                              cases hok
                              obtain ⟨ahead', hstage, hfollow⟩ := h.copied hahead hrest hinsert
                                { bpm, transaction, catalog } hfollowing hsame
                              exact .copied hfound hproject hinsert (hkeys.congr h.sameKeys.symm)
                                hstage hfollow

theorem Stage.next_of_none (h : Stage start state contents ahead)
    (hselect : start.insert.plan.rawValues = none)
    (hfound : Generator.firstPassing start.childExecutor.passes ahead = .ok none) :
    ∃ final, state.next = .ok (lastTurn, final) := by
  have hcall := SeqScanExecutor.filters start.childExecutor _ _ h.scanning
  rw [hfound] at hcall
  obtain ⟨child, hchild⟩ := hcall
  unfold next
  rw [hchild, h.insert_eq]
  unfold InsertExecutor.next InsertExecutor.nextTuple
  rw [hselect]
  exact ⟨_, rfl⟩

theorem Stage.next_of_row (h : Stage start state contents ahead)
    (hselect : start.insert.plan.rawValues = none)
    (hfound : Generator.firstPassing start.childExecutor.passes ahead = .ok (some (row, rest)))
    (hproject : start.childExecutor.project row = .ok output)
    (hinsert : contents.insert output.1 = some (rid, following))
    (hkeys : start.ctx.catalog.HasKeys start.insert.indexInfoArray
      start.insert.tableInfo.schema output.1) :
    ∃ middle, state.next = .ok (copyTurn (output, rid), middle) := by
  have hcall := SeqScanExecutor.filters start.childExecutor _ _ h.scanning
  rw [hfound] at hcall
  dsimp only at hcall
  rw [hproject] at hcall
  obtain ⟨child, hchild, -⟩ := hcall
  have hstored := h.ofTable.insertTuple output.1 state.ctx.transaction
  rw [hinsert] at hstored
  obtain ⟨bpm, transaction, hok, -⟩ := hstored
  obtain ⟨catalog, hindexes⟩ := (hkeys.congr h.sameKeys).exists_forIndexes rid
  unfold next
  rw [hchild, h.insert_eq]
  dsimp only
  rw [insert_next_some hselect, hok]
  dsimp only
  rw [hindexes]
  exact ⟨_, rfl⟩

/-! ## The loop of `Execute` -/

/-- What it says of a state that a call puts a copy there. -/
theorem Does.of_copyTurn {copy : Copy}
    (h : Does start state contents ahead (copyTurn copy) middle) : ∃ row rest following ahead',
      Generator.firstPassing start.childExecutor.passes ahead = .ok (some (row, rest)) ∧
      start.childExecutor.project row = .ok copy.1 ∧
      contents.insert copy.1.1 = some (copy.2, following) ∧
      start.ctx.catalog.HasKeys start.insert.indexInfoArray start.insert.tableInfo.schema copy.1.1 ∧
      Stage start middle following ahead' ∧ Follow contents rest (copy.2, copy.1.1) ahead' := by
  generalize hturn : copyTurn copy = turn at h
  cases h with
  | finished hfound hctx => cases hturn
  | rejected output => cases hturn
  | copied hfound hproject hinsert hkeys hstage hfollow =>
      obtain ⟨⟨tuple, source⟩, rid⟩ := copy
      cases hturn
      exact ⟨_, _, _, _, hfound, hproject, hinsert, hkeys, hstage, hfollow⟩

theorem Does.of_lastTurn (h : Does start state contents ahead lastTurn final) :
    Generator.firstPassing start.childExecutor.passes ahead = .ok none ∧
      final.ctx = state.ctx := by
  generalize hturn : lastTurn = turn at h
  cases h with
  | finished hfound hctx => exact ⟨hfound, hctx⟩
  | rejected output => cases hturn
  | copied => cases hturn

/-- When the statement comes to its end and no insertion fails, the scan has been at all rows
that it had before it: those that do not fail the predicate were handed out. -/
theorem Executes.visits {copies : List Copy}
    (h : Executes state (copies.map copyTurn ++ [lastTurn]) final)
    (hstage : Stage start state contents ahead) (hselect : start.insert.plan.rawValues = none) :
    ∀ row ∈ ahead, start.childExecutor.passes row = .ok false ∨
      ∃ copy ∈ copies, copy.1.2 = row.1 := by
  induction copies generalizing state contents ahead with
  | nil =>
      intro row hrow
      cases h with
      | stop hnext =>
          obtain ⟨hfound, -⟩ := (hstage.does hselect hnext).of_lastTurn
          exact Or.inl (Generator.fails_of_firstPassing_none hfound row hrow)
  | cons copy copies ih =>
      intro row hrow
      cases h with
      | turn hnext hrest =>
          obtain ⟨found, rest, following, ahead', hfound, hproject, -, -, hmiddle, hfollow⟩ :=
            (hstage.does hselect hnext).of_copyTurn
          obtain ⟨skipped, rfl, hskipped⟩ := Generator.split_of_firstPassing hfound
          rcases List.mem_append.mp hrow with hbefore | hbehind
          · exact Or.inl (hskipped row hbefore)
          · rcases List.mem_cons.mp hbehind with rfl | hlater
            · right
              exact ⟨copy, List.mem_cons_self, SeqScanExecutor.project_rid hproject⟩
            · rcases ih hrest hmiddle row ((hfollow row).mpr (Or.inl hlater)) with
                hfails | ⟨other, hmem, hsource⟩
              · exact Or.inl hfails
              · exact Or.inr ⟨other, List.mem_cons_of_mem _ hmem, hsource⟩

/-- What the statement has inserted is in the table at its end, beside the rows from before. -/
theorem Executes.rows_perm {copies : List Copy}
    (h : Executes state (copies.map copyTurn ++ [lastTurn]) final)
    (hstage : Stage start state contents ahead) (hselect : start.insert.plan.rawValues = none) :
    ∃ last : HeapContents, last.OfTable start.insert.tableInfo.table final.ctx.bpm ∧
      last.rows.Perm (contents.rows ++ copies.map fun copy => (copy.2, copy.1.1)) := by
  induction copies generalizing state contents ahead with
  | nil =>
      cases h with
      | stop hnext =>
          obtain ⟨-, hctx⟩ := (hstage.does hselect hnext).of_lastTurn
          refine ⟨contents, ?_, ?_⟩
          · rw [hctx]
            exact hstage.ofTable
          · rw [List.map_nil, List.append_nil]
  | cons copy copies ih =>
      cases h with
      | turn hnext hrest =>
          obtain ⟨found, rest, following, ahead', -, -, hinsert, -, hmiddle, -⟩ :=
            (hstage.does hselect hnext).of_copyTurn
          obtain ⟨last, hlast, hperm⟩ := ih hrest hmiddle
          refine ⟨last, hlast, hperm.trans ?_⟩
          have hone := hstage.ofTable.rows_insert_perm hinsert hmiddle.ofTable
          rw [List.map_cons, List.append_cons]
          exact hone.append_right _

/-- The record ids that come with the rows are those of the rows they are made from. -/
theorem source_mem {exec : SeqScanExecutor} {outputs : List (Tuple × RID)}
    (hemitted : Generator.emitted exec.passes exec.project ahead = .ok outputs) :
    ∀ output ∈ outputs, ∃ row ∈ ahead, row.1 = output.2 := by
  intro output hmem
  obtain ⟨row, hrow, hproject⟩ := Generator.exists_of_mem_emitted hemitted hmem
  exact ⟨row, hrow, (SeqScanExecutor.project_rid hproject).symm⟩

/-- A copy that the scan does not hand out makes no difference to the rows it hands out. -/
theorem emitted_follow {exec : SeqScanExecutor} {copy : RID × Tuple} {ahead' : List (RID × Tuple)}
    {pageIds : List PageId} (hrest : rest.Pairwise (RowsBefore pageIds))
    (hahead : ahead'.Pairwise (RowsBefore pageIds)) (hfollow : Follow contents rest copy ahead')
    (hunread : copy ∈ ahead' → exec.passes copy = .ok false) :
    Generator.emitted exec.passes exec.project ahead' =
      Generator.emitted exec.passes exec.project rest := by
  have hfilter : ahead'.filter (· ∈ rest) = rest := by
    apply StrictOrder.eq_of_mem_iff (hahead.filter _) hrest
    intro row
    rw [List.mem_filter, decide_eq_true_eq, hfollow]
    exact ⟨And.right, fun hmem => ⟨Or.inl hmem, hmem⟩⟩
  rw [← hfilter]
  refine (Generator.emitted_filter_of_fails ?_).symm
  intro row hrow hnot
  rcases (hfollow row).mp hrow with hold | ⟨rfl, -⟩
  · rw [decide_eq_false_iff_not] at hnot
    exact absurd hold hnot
  · exact hunread hrow

omit [DoubleText] in
/-- The copy is before the scan just if a row is between it and the row it is made from. -/
theorem Stage.copy_ahead_iff (h : Stage start state contents ahead)
    {skipped ahead' : List (RID × Tuple)} {tuple : Tuple} (hahead : ahead = skipped ++ row :: rest)
    (hempty : slotAt contents.slots rid = .empty)
    (hfollow : Follow contents rest (rid, tuple) ahead') : (rid, tuple) ∈ ahead' ↔ ∃ other ∈ contents.rows,
      Before contents.pageIds row.1 other.1 ∧ Before contents.pageIds other.1 rid := by
  obtain ⟨behind, hrows⟩ := h.rows_eq
  have hsplit : contents.rows = (behind ++ skipped) ++ row :: rest := by simp [hrows, hahead]
  have horder := h.ofTable.rows_pairwise
  rw [hsplit] at horder
  have hfresh : (rid, tuple) ∉ rest := by
    intro hmem
    have hrow : (rid, tuple) ∈ contents.rows := by simp [hsplit, hmem]
    rw [h.ofTable.mem_rows_iff, hempty] at hrow
    cases hrow
  rw [hfollow, or_iff_right hfresh, and_iff_right rfl, hsplit]
  constructor
  · rintro ⟨other, hother, hbefore⟩
    obtain ⟨hmem, hbehind⟩ := (StrictOrder.mem_after_iff horder).mp hother
    exact ⟨other, hmem, hbehind, hbefore⟩
  · rintro ⟨other, hmem, hbehind, hbefore⟩
    exact ⟨other, (StrictOrder.mem_after_iff horder).mpr ⟨hmem, hbehind⟩, hbefore⟩

/-- One row of a statement: if its copy is not handed out, the rows behind it are. -/
theorem Stage.emitted_next (h : Stage start state contents ahead)
    {skipped ahead' : List (RID × Tuple)} {tuple : Tuple}
    (hahead : ahead = skipped ++ row :: rest)
    (hinsert : contents.insert tuple = some (rid, following))
    (hmiddle : Stage start middle following ahead')
    (hfollow : Follow contents rest (rid, tuple) ahead')
    (hunread : (rid, tuple) ∈ ahead' → start.childExecutor.passes (rid, tuple) = .ok false) :
    Generator.emitted start.childExecutor.passes start.childExecutor.project ahead' =
      Generator.emitted start.childExecutor.passes start.childExecutor.project rest := by
  obtain ⟨behind, hrows⟩ := h.rows_eq
  obtain ⟨behind', hrows'⟩ := hmiddle.rows_eq
  obtain ⟨-, -, horder⟩ := h.ofTable.rows_insert hinsert hmiddle.ofTable
  have hbefore := h.ofTable.rows_pairwise
  have hsplit : contents.rows = (behind ++ skipped ++ [row]) ++ rest := by simp [hrows, hahead]
  rw [hsplit] at hbefore
  rw [hrows'] at horder
  exact emitted_follow (List.pairwise_append.mp hbefore).2.1 (List.pairwise_append.mp horder).2.1
    hfollow hunread

omit [DoubleText] in
theorem Stage.slotAt_rest (h : Stage start state contents ahead) {skipped : List (RID × Tuple)}
    (hahead : ahead = skipped ++ row :: rest) :
    ∀ other ∈ rest, slotAt contents.slots other.1 = .full false other.2 := by
  obtain ⟨behind, hrows⟩ := h.rows_eq
  intro other hother
  apply h.ofTable.mem_rows_iff.mp
  simp [hrows, hahead, hother]

/-- A copy is none of the rows that are still handed out, since it was put in an empty slot; so it
fails the predicate if the scan comes to it. -/
theorem Executes.copy_unread {copies : List Copy} {tuple : Tuple} {ahead' : List (RID × Tuple)}
    (h : Executes middle (copies.map copyTurn ++ [lastTurn]) final)
    (hmiddle : Stage start middle following ahead') (hselect : start.insert.plan.rawValues = none)
    (hrest : ∀ other ∈ rest, slotAt contents.slots other.1 = .full false other.2)
    (hemitted : Generator.emitted start.childExecutor.passes start.childExecutor.project rest =
      .ok (copies.map Prod.fst)) (hempty : slotAt contents.slots rid = .empty)
    (hmem : (rid, tuple) ∈ ahead') : start.childExecutor.passes (rid, tuple) = .ok false := by
  rcases h.visits hmiddle hselect _ hmem with hfails | ⟨copy, hcopy, hsource⟩
  · exact hfails
  · obtain ⟨other, hother, heq⟩ := source_mem hemitted copy.1 (List.mem_map_of_mem hcopy)
    have hfull := hrest other hother
    rw [heq, hsource] at hfull
    dsimp only at hfull
    rw [hempty] at hfull
    cases hfull

/-- From any state on, the statement copies the rows that the scan has before it once each, just
if the copies find a place, have keys and are not read. -/
theorem Stage.copies_iff (h : Stage start state contents ahead)
    (hselect : start.insert.plan.rawValues = none) {outputs : List (Tuple × RID)}
    (hemitted : Generator.emitted start.childExecutor.passes start.childExecutor.project ahead =
      .ok outputs) :
    (∃ (copies : List Copy) (final : InsertSelect),
      Executes state (copies.map copyTurn ++ [lastTurn]) final ∧ copies.map Prod.fst = outputs) ↔
    Unread start.childExecutor contents outputs ∧ ∀ output ∈ outputs,
      start.ctx.catalog.HasKeys start.insert.indexInfoArray start.insert.tableInfo.schema
        output.1 := by
  induction outputs generalizing state contents ahead with
  | nil =>
      have hfound := Generator.firstPassing_of_emitted_nil hemitted
      obtain ⟨final, hnext⟩ := h.next_of_none hselect hfound
      exact iff_of_true ⟨[], final, .stop hnext, rfl⟩ ⟨trivial, by simp⟩
  | cons output others ih =>
      obtain ⟨row, rest, hfound, hproject, hrest⟩ := Generator.firstPassing_of_emitted_cons hemitted
      obtain ⟨skipped, hahead, -⟩ := Generator.split_of_firstPassing hfound
      have hsource : output.2 = row.1 := SeqScanExecutor.project_rid hproject
      obtain ⟨tuple, source⟩ := output
      dsimp only at hsource
      subst hsource
      rw [List.forall_mem_cons, Unread]
      constructor
      · rintro ⟨copies, final, hexecutes, houtputs⟩
        cases copies with
        | nil => cases houtputs
        | cons copy copies =>
            obtain ⟨copied, rid⟩ := copy
            cases houtputs
            cases hexecutes with
            | turn hnext hlater =>
                obtain ⟨row', rest', following, ahead', hfound', -, hinsert, hkeys, hmiddle,
                  hfollow⟩ := (h.does hselect hnext).of_copyTurn
                cases hfound.symm.trans hfound'
                obtain ⟨hempty, -, -⟩ := h.ofTable.rows_insert hinsert hmiddle.ofTable
                -- the copy lands behind the scan, or where the predicate rejects it
                have hunread : (rid, tuple) ∈ ahead' →
                    start.childExecutor.passes (rid, tuple) = .ok false :=
                  hlater.copy_unread hmiddle hselect (h.slotAt_rest hahead) hrest hempty
                have hemitted' := h.emitted_next hahead hinsert hmiddle hfollow hunread
                obtain ⟨hothers, hothersKeys⟩ := (ih hmiddle (hemitted'.trans hrest)).mp
                  ⟨copies, final, hlater, rfl⟩
                rw [hinsert]
                refine ⟨⟨?_, hothers⟩, hkeys, hothersKeys⟩
                rw [h.copy_ahead_iff hahead hempty hfollow] at hunread
                -- a row between the source and the copy means that the scan is still going to
                -- reach the copy
                by_cases hbetween : ∃ other ∈ contents.rows,
                    Before contents.pageIds row.1 other.1 ∧ Before contents.pageIds other.1 rid
                · exact Or.inl (hunread hbetween)
                · right
                  intro other hother hbehind hbefore
                  exact hbetween ⟨other, hother, hbehind, hbefore⟩
      · rintro ⟨hunread, hkeys, hothersKeys⟩
        cases hinsert : contents.insert tuple with
        | none =>
            rw [hinsert] at hunread
            cases hunread
        | some stored =>
            obtain ⟨rid, following⟩ := stored
            rw [hinsert] at hunread
            obtain ⟨hfails, hothers⟩ := hunread
            obtain ⟨middle, hnext⟩ := h.next_of_row hselect hfound hproject hinsert hkeys
            obtain ⟨row', rest', following', ahead', hfound', -, hinsert', -, hmiddle, hfollow⟩ :=
              (h.does hselect hnext).of_copyTurn
            cases hfound.symm.trans hfound'
            cases hinsert.symm.trans hinsert'
            obtain ⟨hempty, -, -⟩ := h.ofTable.rows_insert hinsert hmiddle.ofTable
            have hunread : (rid, tuple) ∈ ahead' →
                start.childExecutor.passes (rid, tuple) = .ok false := by
              rw [h.copy_ahead_iff hahead hempty hfollow]
              rintro ⟨other, hother, hbehind, hbefore⟩
              rcases hfails with hfails | hnone
              · exact hfails
              · exact absurd hbefore (hnone other hother hbehind)
            have hemitted' := h.emitted_next hahead hinsert hmiddle hfollow hunread
            obtain ⟨copies, final, hexecutes, rfl⟩ := (ih hmiddle (hemitted'.trans hrest)).mpr
              ⟨hothers, hothersKeys⟩
            exact ⟨((tuple, row.1), rid) :: copies, final, .turn hnext hexecutes, rfl⟩

omit [DoubleText] in
theorem create_spec {ctx : ExecutorContext} {childPlan : SeqScanPlanNode}
    (hcreate : create ctx childPlan = .ok state) :
    state.ctx = ctx ∧ state.insert.plan.rawValues = none ∧
      TableIterator.first state.insert.tableInfo.table ctx.bpm = .ok state.childExecutor.cur := by
  unfold create InsertExecutor.new Catalog.fetchTable SeqScanExecutor.init at hcreate
  cases htable : ctx.catalog.getTable childPlan.tableOid with
  | none =>
      rw [htable] at hcreate
      cases hcreate
  | some tableInfo =>
      rw [htable] at hcreate
      dsimp only at hcreate
      cases hindexes : ctx.catalog.getTableIndexes tableInfo.name with
      | error fault =>
          rw [hindexes] at hcreate
          cases hcreate
      | ok indexInfoArray =>
          rw [hindexes] at hcreate
          dsimp only [SeqScanExecutor.new] at hcreate
          cases hfirst : TableIterator.first tableInfo.table ctx.bpm with
          | error fault =>
              rw [hfirst] at hcreate
              cases hcreate
          | ok cur =>
              rw [hfirst] at hcreate
              cases hcreate
              exact ⟨rfl, rfl, hfirst⟩

omit [DoubleText] in
/-- Where a statement begins. -/
theorem Stage.first (htable : Reached state.insert.tableInfo.table state.ctx.bpm)
    (hfirst : TableIterator.first state.insert.tableInfo.table state.ctx.bpm =
      .ok state.childExecutor.cur) :
    Stage state state (state.insert.tableInfo.table.contents state.ctx.bpm)
      (state.insert.tableInfo.table.contents state.ctx.bpm).rows := by
  have hcontents := htable.ofTable
  obtain ⟨it, hit, hwalks⟩ := hcontents.linked.toHeapOk.first_walks
  cases hfirst.symm.trans hit
  exact ⟨rfl, rfl, hcontents, ⟨[], rfl⟩, hwalks.standsAt, fun _ => rfl⟩

/-- A statement that inserts what it selects from the same table copies each row once just if
the copies find a place, have keys and are not read. -/
theorem copiesOnce_iff {ctx : ExecutorContext} {childPlan : SeqScanPlanNode}
    {outputs : List (Tuple × RID)} (hcreate : create ctx childPlan = .ok state)
    (htable : Reached state.insert.tableInfo.table ctx.bpm)
    (hscan : Generator.Drains (SeqScanExecutor.next ctx.bpm) state.childExecutor outputs) :
    state.CopiesOnce outputs ↔
      Unread state.childExecutor (state.insert.tableInfo.table.contents ctx.bpm) outputs ∧
      ∀ output ∈ outputs, ctx.catalog.HasKeys state.insert.indexInfoArray
        state.insert.tableInfo.schema output.1 := by
  obtain ⟨rfl, hselect, hfirst⟩ := create_spec hcreate
  have hstage := Stage.first htable hfirst
  have hemitted := ((SeqScanExecutor.filters state.childExecutor).drains_iff hstage.scanning
    outputs).mp hscan
  rw [← hstage.copies_iff hselect hemitted]
  constructor
  · rintro ⟨copies, final, hexecutes, houtputs, -⟩
    exact ⟨copies, final, hexecutes, houtputs⟩
  · rintro ⟨copies, final, hexecutes, houtputs⟩
    obtain ⟨last, hlast, hperm⟩ := hexecutes.rows_perm hstage hselect
    refine ⟨copies, final, hexecutes, houtputs, ?_⟩
    rw [hlast.linked.toHeapOk.visibleRows_eq, hstage.ofTable.linked.toHeapOk.visibleRows_eq]
    exact hperm

/-! ## A table with the same row twice -/

/-- The pool after an insertion. -/
def insertedPool (table : TableHeap) (pool : PagePool) (tuple : Tuple) : PagePool :=
  match table.insertTuple pool {} tuple with
  | .error _ => pool
  | .ok (_, pool, _) => pool

/-- The pool in which the small table has one row. -/
def oneRowPool : PagePool := insertedPool smallTable smallPool fiveTuple

/-- The pool in which the small table has the same row twice. -/
def twoRowPool : PagePool := insertedPool smallTable oneRowPool fiveTuple

/-- The small table with so many rows. -/
def fives (count : Nat) : HeapContents where
  pageIds := [0]
  slots := Function.update (fun _ => []) 0 (List.replicate count (.full false fiveTuple))
  nextPageId := 1

/-- The plan of `SELECT * FROM t`. -/
def wholeTable : SeqScanPlanNode where
  outputSchema := oneColumn
  predicate := none
  tableOid := 0

omit [DoubleText] in
theorem insertedPool_spec {table : TableHeap} {pool : PagePool} {tuple : Tuple}
    (h : Reached table pool ∧ contents.OfTable table pool)
    (hinsert : contents.insert tuple = some (rid, following)) :
    Reached table (insertedPool table pool tuple) ∧
      following.OfTable table (insertedPool table pool tuple) := by
  obtain ⟨hreached, hcontents⟩ := h
  obtain ⟨pool', txn', hok, hfinal⟩ := hcontents.reached_insert hreached hinsert {}
  unfold insertedPool
  rw [hok]
  exact hfinal

omit [DoubleText] in
theorem insert_fives {count : Nat}
    (hslots : Slots.insert (List.replicate count (.full false fiveTuple)) fiveTuple =
      some (count, List.replicate (count + 1) (.full false fiveTuple))) :
    (fives count).insert fiveTuple = some (⟨0, count⟩, fives (count + 1)) :=
  onePage_insert (by decide) hslots

omit [DoubleText] in
theorem smallPool_fives : Reached smallTable smallPool ∧ (fives 0).OfTable smallTable smallPool :=
  ⟨smallPool_reached, smallPool_onePage⟩

omit [DoubleText] in
theorem oneRowPool_fives :
    Reached smallTable oneRowPool ∧ (fives 1).OfTable smallTable oneRowPool :=
  insertedPool_spec smallPool_fives (insert_fives (by decide))

omit [DoubleText] in
theorem twoRowPool_fives :
    Reached smallTable twoRowPool ∧ (fives 2).OfTable smallTable twoRowPool :=
  insertedPool_spec oneRowPool_fives (insert_fives (by decide))

/-- The metadata of the small table. -/
def smallInfo : TableInfo where
  schema := oneColumn
  name := "t"
  table := smallTable
  oid := 0

/-- A transaction that begins, on a database with the small table. -/
def smallContext (pool : PagePool) : ExecutorContext where
  transaction := {}
  catalog := AbstractPlanNode.smallCatalog
  bpm := pool

/-- The statement on the small table, when it begins. -/
def opened (pool : PagePool) : InsertSelect where
  ctx := smallContext pool
  insert :=
    { plan := { rawValues := none, tableOid := 0 }
      tableInfo := smallInfo
      indexInfoArray := []
      nextInsertPos := 0 }
  childExecutor :=
    { SeqScanExecutor.new smallInfo wholeTable with cur := { rid := ⟨0, 0⟩, tuple := fiveTuple } }

omit [DoubleText] in
theorem create_opened {pool : PagePool} {rows : List (RID × Tuple)}
    (hcontents : contents.OfTable smallTable pool)
    (hrows : contents.rows = (⟨0, 0⟩, fiveTuple) :: rows) :
    create (smallContext pool) wholeTable = .ok (opened pool) := by
  have htable : AbstractPlanNode.smallCatalog.getTable wholeTable.tableOid = some smallInfo := rfl
  have hindexes : AbstractPlanNode.smallCatalog.getTableIndexes smallInfo.name = .ok [] := rfl
  obtain ⟨it, hfirst, hwalks⟩ := hcontents.linked.toHeapOk.first_walks
  change Walks pool it contents.rows at hwalks
  rw [hrows] at hwalks
  have hstands := hwalks.standsAt
  obtain ⟨rid, tuple⟩ := it
  cases hstands
  unfold create InsertExecutor.new Catalog.fetchTable SeqScanExecutor.init
  dsimp only [smallContext]
  rw [htable]
  dsimp only
  rw [hindexes]
  dsimp only [SeqScanExecutor.new, smallInfo]
  rw [hfirst]
  rfl

/-- Where the statement begins, and what its scan would return from the table as it is then. -/
theorem opened_spec {pool : PagePool} {outputs : List (Tuple × RID)} {rows : List (RID × Tuple)}
    (hreached : Reached smallTable pool) (hcontents : contents.OfTable smallTable pool)
    (hrows : contents.rows = (⟨0, 0⟩, fiveTuple) :: rows)
    (hemitted : Generator.emitted (opened pool).childExecutor.passes
      (opened pool).childExecutor.project contents.rows = .ok outputs) :
    Reached (opened pool).insert.tableInfo.table (smallContext pool).bpm ∧
      (opened pool).insert.tableInfo.table.contents (smallContext pool).bpm = contents ∧
      Stage (opened pool) (opened pool) contents contents.rows ∧
      Generator.Drains (SeqScanExecutor.next (smallContext pool).bpm) (opened pool).childExecutor
        outputs := by
  obtain ⟨-, -, hfirst⟩ := create_spec (create_opened hcontents hrows)
  have hstage : Stage (opened pool) (opened pool) (smallTable.contents pool)
      (smallTable.contents pool).rows := Stage.first hreached hfirst
  rw [hcontents.contents_eq] at hstage
  refine ⟨hreached, hcontents.contents_eq, hstage, ?_⟩
  exact ((SeqScanExecutor.filters (opened pool).childExecutor).drains_iff hstage.scanning
    outputs).mpr hemitted

/-- The small table with two rows, and an empty slot between them. -/
def apart : HeapContents := onePage [.full false fiveTuple, .empty, .full false fiveTuple]

omit [DoubleText] in
theorem exists_apart : ∃ pool, Reached smallTable pool ∧ apart.OfTable smallTable pool := by
  have hthree := insertedPool_spec twoRowPool_fives (@insert_fives 2 (by decide))
  exact HeapContents.OfTable.reached_applyDelete (i := 1) hthree.2 hthree.1 rfl

omit [DoubleText] in
theorem copiesOnce_iff_apart :
    let _ := noDoubleText
    ∃ pool state, apart.OfTable smallTable pool ∧
      create (smallContext pool) wholeTable = .ok state ∧
      state.CopiesOnce [(fiveTuple, ⟨0, 0⟩), (fiveTuple, ⟨0, 2⟩)] := by
  intro _
  obtain ⟨pool, hreached, hcontents⟩ := exists_apart
  have hcreate := create_opened hcontents rfl
  have hemitted : Generator.emitted (opened pool).childExecutor.passes
      (opened pool).childExecutor.project apart.rows =
        .ok [(fiveTuple, ⟨0, 0⟩), (fiveTuple, ⟨0, 2⟩)] :=
    (by decide +kernel : Generator.emitted (opened smallPool).childExecutor.passes
      (opened smallPool).childExecutor.project apart.rows = _)
  obtain ⟨htable, heq, -, hdrains⟩ := opened_spec hreached hcontents rfl hemitted
  refine ⟨pool, _, hcontents, hcreate, (copiesOnce_iff hcreate htable hdrains).mpr ⟨?_, ?_⟩⟩
  · -- the copy of the first row fills the empty slot, which the scan has passed
    have hfirst : apart.insert fiveTuple = some (⟨0, 1⟩, fives 3) :=
      onePage_insert (by decide) (by decide)
    have hsecond : (fives 3).insert fiveTuple = some (⟨0, 3⟩, fives 4) := insert_fives (by decide)
    rw [heq, Unread, hfirst]
    refine ⟨.inr ?_, ?_⟩
    · decide
    rw [Unread, hsecond]
    refine ⟨.inr ?_, trivial⟩
    decide
  · intro output _ indexOid hmem
    cases hmem

omit [DoubleText] in
/-- With the same row twice, the copy of the first one is put behind the second one, where the
scan stands, and is copied as well. -/
theorem twoRows_not_copiesOnce :
    let _ := noDoubleText
    ∃ state, create (smallContext twoRowPool) wholeTable = .ok state ∧
      Generator.Drains (SeqScanExecutor.next (smallContext twoRowPool).bpm) state.childExecutor
        [(fiveTuple, ⟨0, 0⟩), (fiveTuple, ⟨0, 1⟩)] ∧
      ¬ state.CopiesOnce [(fiveTuple, ⟨0, 0⟩), (fiveTuple, ⟨0, 1⟩)] := by
  intro _
  obtain ⟨hreached, hcontents⟩ := twoRowPool_fives
  have hcreate := create_opened hcontents rfl
  have hemitted : Generator.emitted (opened twoRowPool).childExecutor.passes
      (opened twoRowPool).childExecutor.project (fives 2).rows =
        .ok [(fiveTuple, ⟨0, 0⟩), (fiveTuple, ⟨0, 1⟩)] := by decide +kernel
  obtain ⟨-, -, hstage, hdrains⟩ := opened_spec hreached hcontents rfl hemitted
  refine ⟨_, hcreate, hdrains, ?_⟩
  rintro ⟨copies, final, hexecutes, houtputs, -⟩
  obtain ⟨hunread, -⟩ := (hstage.copies_iff rfl hemitted).mp ⟨copies, final, hexecutes, houtputs⟩
  have hinsert : (fives 2).insert fiveTuple = some (⟨0, 2⟩, fives 3) := insert_fives (by decide)
  have hpasses : (opened twoRowPool).childExecutor.passes (⟨0, 2⟩, fiveTuple) = .ok true := by
    decide +kernel
  rw [Unread, hinsert] at hunread
  obtain ⟨hfails | hnone, -⟩ := hunread
  · rw [hpasses] at hfails
    cases hfails
  · exact hnone (⟨0, 1⟩, fiveTuple) (by decide) (Or.inr ⟨rfl, Nat.zero_lt_one⟩)
      (Or.inr ⟨rfl, Nat.one_lt_two⟩)

end InsertSelect

end BusTub
