import BusTub.Concurrency.TransactionManager
import BusTub.Library.Faults
import BusTub.Table.HeapCalls

/-! # Abort undoes the writes of a transaction

The write records are undone from the back, each of them on the slots that it left
behind with some empty ones more. Only the undo of an update can be rejected: slots that
were added since the update may have taken the space of the old tuple.
-/

namespace BusTub

namespace Slots

/-- Empty slots behind the last one do not count. -/
theorem total_congr {slots others : List Slot}
    (hsame : ∀ i : Nat, slots[i]?.getD .empty = others[i]?.getD .empty) :
    total slots = total others := by
  induction slots generalizing others with
  | nil =>
      induction others with
      | nil => rfl
      | cons head rest ih =>
          have hhead : Slot.empty = head := hsame 0
          have hrest := ih fun i => by simpa using hsame (i + 1)
          rw [total_cons, ← hrest, ← hhead]
          rfl
  | cons head rest ih =>
      cases others with
      | nil =>
          have hhead : head = .empty := hsame 0
          have hrest : total rest = total [] := ih fun i => by simpa using hsame (i + 1)
          rw [total_cons, hrest, hhead]
          rfl
      | cons other others =>
          have hhead : head = other := hsame 0
          have hrest := ih fun i => show rest[i]?.getD .empty = others[i]?.getD .empty by
            simpa using hsame (i + 1)
          rw [total_cons, total_cons, hrest, hhead]

end Slots

namespace TableHeap

/-- A call of `UpdateTuple` that the page does not reject. -/
def updates (pool : PagePool) (tuple : Tuple) (rid : RID) : Bool :=
  match TablePage.updateTuple (pool.pages rid.pageId) tuple rid with
  | .ok (some _) => true
  | _ => false

/-- An update can be undone: the transaction records it, and the slots that its page has
when the transaction aborts leave room for the tuples before the update. -/
def LeavesRoom (aborting : PagePool) (state : PagePool × Transaction) : HeapCall → Prop
  | .updateTuple tuple rid => updates state.1 tuple rid → state.2.state ≠ .aborted ∧
      TablePage.sizeTablePageHeader +
        TablePage.sizeTuple * TablePage.getTupleCount (aborting.pages rid.pageId) ≤
          TablePage.getFreeSpacePointer (state.1.pages rid.pageId)
  | _ => True

instance (aborting : PagePool) (state : PagePool × Transaction) (request : HeapCall) :
    Decidable (LeavesRoom aborting state request) :=
  match request with
  | .insertTuple _ => inferInstanceAs (Decidable True)
  | .markDelete _ => inferInstanceAs (Decidable True)
  | .updateTuple tuple rid => inferInstanceAs (Decidable (updates state.1 tuple rid →
      state.2.state ≠ .aborted ∧ TablePage.sizeTablePageHeader +
        TablePage.sizeTuple * TablePage.getTupleCount (aborting.pages rid.pageId) ≤
          TablePage.getFreeSpacePointer (state.1.pages rid.pageId)))

/-- The pages hold the tuples of the slots, and `counts` slots each. -/
structure Restored (counts : PageId → Nat) (heap undone : PageId → List Slot) : Prop where
  length_eq : ∀ pageId, (undone pageId).length = counts pageId
  length_le : ∀ pageId, (heap pageId).length ≤ counts pageId
  same : ∀ rid, slotAt undone rid = slotAt heap rid

variable {table : TableHeap} {pool pool' poolU : PagePool} {txn txn' txnU : Transaction}
  {first : PageId} {pageIds pageIds' pageIdsU : List PageId}
  {heap heap' undone : PageId → List Slot} {rid : RID} {request : HeapCall} {result : HeapResult}
  {requests : List HeapCall} {counts : PageId → Nat} {oid : TableOid}

theorem Restored.total_eq (h : Restored counts heap undone) (pageId : PageId) :
    Slots.total (undone pageId) = Slots.total (heap pageId) :=
  Slots.total_congr fun i => h.same ⟨pageId, i⟩

/-- No call takes slots away. -/
theorem Effect.length_le (heffect : Effect oid heap txn request result heap' txn')
    (pageId : PageId) : (heap pageId).length ≤ (heap' pageId).length := by
  have hset : ∀ (rid : RID) (slots : List Slot), (heap rid.pageId).length ≤ slots.length →
      (heap pageId).length ≤ (Function.update heap rid.pageId slots pageId).length := by
    intro rid slots hle
    by_cases hpage : pageId = rid.pageId
    · rw [hpage, Function.update_self]
      exact hle
    · rw [Function.update_of_ne hpage]
  cases heffect with
  | inserted hpos hinsert =>
      obtain ⟨-, -, rfl⟩ := Slots.insert_eq_some_iff.mp hinsert
      apply hset
      rw [List.length_set]
      exact Slots.le_length_grow _ _
  | rejected => exact le_refl _
  | marked hlive => exact hset _ _ (List.length_set ..).ge
  | unmarked hdead => exact le_refl _
  | updated hpos hupdate =>
      obtain ⟨-, -, rfl⟩ := Slots.update_eq_some_iff.mp hupdate
      exact hset _ _ (List.length_set ..).ge
  | unchanged => exact le_refl _

theorem Effect.indexWriteSet (heffect : Effect oid heap txn request result heap' txn') :
    txn'.indexWriteSet = txn.indexWriteSet := by
  cases heffect with
  | inserted hpos hinsert => rfl
  | rejected => rfl
  | marked hlive => rfl
  | unmarked hdead => rfl
  | updated hpos hupdate => split <;> rfl
  | unchanged => rfl

/-- Writing one slot of a page that has it takes one step back. -/
theorem Restored.set {s : Slot} (h : Restored counts heap' undone)
    (hle : ∀ pageId, (heap pageId).length ≤ (heap' pageId).length)
    (hlt : rid.slotNum < (undone rid.pageId).length) (hrid : slotAt heap rid = s)
    (hother : ∀ other, other ≠ rid → slotAt heap' other = slotAt heap other) :
    Restored counts heap
      (Function.update undone rid.pageId ((undone rid.pageId).set rid.slotNum s)) where
  length_eq pageId := by
    by_cases hpage : pageId = rid.pageId
    · rw [hpage, Function.update_self, List.length_set]
      exact h.length_eq _
    · rw [Function.update_of_ne hpage]
      exact h.length_eq _
  length_le pageId := (hle pageId).trans (h.length_le pageId)
  same other := by
    rw [slotAt_set hlt]
    by_cases heq : other = rid
    · rw [if_pos heq, heq, hrid]
    · rw [if_neg heq, h.same, hother other heq]

/-! ## One step back -/

theorem undoWrites_append (records others : List TableWriteRecord) (pool : PagePool)
    (txn : Transaction) :
    TransactionManager.undoWrites (records ++ others) pool txn =
      match TransactionManager.undoWrites records pool txn with
      | .error fault => .error fault
      | .ok (pool, txn) => TransactionManager.undoWrites others pool txn := by
  induction records generalizing pool txn with
  | nil => rfl
  | cons item rest ih =>
      rw [List.cons_append, TransactionManager.undoWrites, TransactionManager.undoWrites]
      cases TransactionManager.undoWrite pool txn item with
      | error fault => rfl
      | ok next => exact ih next.1 next.2

theorem undoWrites_singleton {item : TableWriteRecord}
    (hundo : TransactionManager.undoWrite pool txn item = .ok (pool', txn')) :
    TransactionManager.undoWrites [item] pool txn = .ok (pool', txn') := by
  rw [TransactionManager.undoWrites, hundo]
  rfl

/-- The page of an update that is undone has the room that the update found. -/
theorem update_of_restored {tuple old : Tuple} {slots : List Slot}
    (hupdate : Slots.update (heap rid.pageId) rid.slotNum tuple = some (old, slots))
    (hrestored : Restored counts (Function.update heap rid.pageId slots) undone)
    (hroom : 24 + 8 * counts rid.pageId + Slots.total (heap rid.pageId) ≤ 4096) :
    Slots.update (undone rid.pageId) rid.slotNum old =
      some (tuple, (undone rid.pageId).set rid.slotNum (.full false old)) := by
  obtain ⟨hslot, hfit, rfl⟩ := Slots.update_eq_some_iff.mp hupdate
  have hlive := slotAt_eq_full_iff.mpr hslot
  have hafter := hrestored.same rid
  rw [slotAt_set (slotAt_lt hlive), if_pos rfl] at hafter
  have htotal := hrestored.total_eq rid.pageId
  have hset := Slots.total_set hslot (.full false tuple)
  rw [Function.update_self] at htotal
  rw [Slot.size_full, Slot.size_full] at hset
  refine Slots.update_eq_some_iff.mpr ⟨slotAt_eq_full_iff.mp hafter, ?_, rfl⟩
  unfold Slots.freeSpace Slots.headerSize pageSize
  rw [hrestored.length_eq]
  omega

/-- The call of an update can be undone on pages with so many slots. -/
def RoomFor (counts : PageId → Nat) (heap : PageId → List Slot) (txn : Transaction) :
    HeapCall → Prop
  | .updateTuple tuple rid => 0 < tuple.length →
      (Slots.update (heap rid.pageId) rid.slotNum tuple).isSome →
      txn.state ≠ .aborted ∧ 24 + 8 * counts rid.pageId + Slots.total (heap rid.pageId) ≤ 4096
  | _ => True

/-- In a view, the write records lead from the slots after a call back to those before
it. -/
def Undoes (view : PagePool → (PageId → List Slot) → Prop) (records : List TableWriteRecord)
    (counts : PageId → Nat) (heap heap' : PageId → List Slot) : Prop :=
  ∀ poolU undone txnU, view poolU undone → Restored counts heap' undone →
    txnU.state = .aborted →
    ∃ poolU' undone',
      TransactionManager.undoWrites records.reverse poolU txnU = .ok (poolU', txnU) ∧
      view poolU' undone' ∧ Restored counts heap undone'

theorem undoes_nil (view : PagePool → (PageId → List Slot) → Prop) (counts : PageId → Nat)
    (heap : PageId → List Slot) : Undoes view [] counts heap heap := by
  intro poolU undone txnU hU hrestored _
  exact ⟨poolU, undone, rfl, hU, hrestored⟩

theorem Undoes.append {view : PagePool → (PageId → List Slot) → Prop}
    {records others : List TableWriteRecord} {middle : PageId → List Slot}
    (hfirst : Undoes view records counts heap middle)
    (hlast : Undoes view others counts middle heap') :
    Undoes view (records ++ others) counts heap heap' := by
  intro poolU undone txnU hU hrestored haborted
  obtain ⟨poolM, undoneM, hundoM, hM, hrestoredM⟩ := hlast poolU undone txnU hU hrestored haborted
  obtain ⟨poolU', undone', hundo, hU', hrestored'⟩ :=
    hfirst poolM undoneM txnU hM hrestoredM haborted
  refine ⟨poolU', undone', ?_, hU', hrestored'⟩
  rw [List.reverse_append, undoWrites_append, hundoM]
  exact hundo

/-- The record of a call is undone on the slots that the call left behind. -/
theorem undo_step (heffect : Effect oid heap txn request result heap' txn')
    (hdata : ∀ rid deleted data, slotAt heap rid = .full deleted data → 0 < data.length)
    (hlive : ∀ rid, request = .markDelete rid → ∃ data, slotAt heap rid = .full false data) :
    ∃ records, txn'.tableWriteSet = txn.tableWriteSet ++ records ∧
      ∀ counts, RoomFor counts heap txn request →
        ∀ view pages, Pagewise view pages → Undoes view records counts heap heap' := by
  have hle := heffect.length_le
  cases heffect with
  | @inserted tuple rid slots hpos hinsert =>
      refine ⟨_, rfl, ?_⟩
      intro counts _ view pages hview poolU undone txnU hU hrestored haborted
      have hfull := hrestored.same rid
      rw [slotAt_insert hinsert, if_pos rfl] at hfull
      obtain ⟨poolU', hok, hfinal⟩ := hview.applyDelete_of_full hU hfull
      refine ⟨poolU', _, undoWrites_singleton ?_, hfinal, ?_⟩
      · simp only [TransactionManager.undoWrite, hok]
      · refine hrestored.set hle (slotAt_lt hfull) (slotAt_of_insert hinsert) ?_
        intro other hne
        rw [slotAt_insert hinsert, if_neg hne]
  | rejected =>
      exact ⟨[], (List.append_nil _).symm, fun counts _ view _ _ => undoes_nil view counts heap⟩
  | @marked rid data hslot =>
      refine ⟨_, rfl, ?_⟩
      intro counts _ view pages hview poolU undone txnU hU hrestored haborted
      have hfull := hrestored.same rid
      rw [slotAt_set (slotAt_lt hslot), if_pos rfl] at hfull
      obtain ⟨poolU', hok, hfinal⟩ := hview.rollbackDelete_of_marked hU hfull
      refine ⟨poolU', _, undoWrites_singleton ?_, hfinal, ?_⟩
      · simp only [TransactionManager.undoWrite, hok]
      · refine hrestored.set hle (slotAt_lt hfull) hslot ?_
        intro other hne
        rw [slotAt_set (slotAt_lt hslot), if_neg hne]
  | @unmarked rid hdead =>
      obtain ⟨data, hslot⟩ := hlive rid rfl
      exact absurd hslot (hdead data)
  | @updated tuple old rid slots hpos hupdate =>
      have hsome : (Slots.update (heap rid.pageId) rid.slotNum tuple).isSome := by
        rw [hupdate]
        rfl
      by_cases hstate : txn.state = .aborted
      · rw [if_neg (not_not.mpr hstate)]
        refine ⟨[], (List.append_nil _).symm, ?_⟩
        intro counts hroom
        exact absurd hstate (hroom hpos hsome).1
      · rw [if_pos hstate]
        refine ⟨_, rfl, ?_⟩
        intro counts hroom view pages hview poolU undone txnU hU hrestored haborted
        have hundo := update_of_restored hupdate hrestored (hroom hpos hsome).2
        obtain ⟨hslot, -, rfl⟩ := Slots.update_eq_some_iff.mp hupdate
        have hold := slotAt_eq_full_iff.mpr hslot
        have hfull := slotAt_eq_full_iff.mpr (Slots.update_eq_some_iff.mp hundo).1
        obtain ⟨poolU', hok, hfinal⟩ :=
          hview.updateTuple_of_some hU (hdata _ _ _ hold) hundo oid txnU
        rw [if_neg (not_not.mpr haborted)] at hok
        refine ⟨poolU', _, undoWrites_singleton ?_, hfinal, ?_⟩
        · simp only [TransactionManager.undoWrite, hok]
        · refine hrestored.set hle (slotAt_lt hfull) hold ?_
          intro other hne
          rw [slotAt_set (slotAt_lt hold), if_neg hne]
  | unchanged =>
      exact ⟨[], (List.append_nil _).symm, fun counts _ view _ _ => undoes_nil view counts heap⟩

/-! ## The whole transaction -/

theorem HeapOk.updates_of_isSome (h : HeapOk pool first pageIds heap)
    (hmem : rid.pageId ∈ pageIds) {tuple : Tuple} (hpos : 0 < tuple.length)
    (hsome : (Slots.update (heap rid.pageId) rid.slotNum tuple).isSome) :
    updates pool tuple rid := by
  obtain ⟨⟨old, slots⟩, hupdate⟩ := Option.isSome_iff_exists.mp hsome
  obtain ⟨page, hpage, -, -⟩ := (h.represents _ hmem).updateTuple_of_some hpos hupdate
  unfold updates
  rw [hpage]

/-- The room that an update leaves, in the slots of its page. -/
theorem HeapOk.roomFor (h : HeapOk pool table.firstPageId pageIds heap) {aborting : PagePool}
    (hon : table.OnPages (pool, txn) request) (hroom : LeavesRoom aborting (pool, txn) request)
    (hcounts : ∀ pageId ∈ pageIds,
      TablePage.getTupleCount (aborting.pages pageId) = counts pageId) :
    RoomFor counts heap txn request := by
  cases request with
  | insertTuple tuple => trivial
  | markDelete rid => trivial
  | updateTuple tuple rid =>
      intro hpos hsome
      have hmem : rid.pageId ∈ pageIds := h.pageIds_eq ▸ hon
      obtain ⟨hstate, hspace⟩ := hroom (h.updates_of_isSome hmem hpos hsome)
      have hfree := (h.represents _ hmem).free
      refine ⟨hstate, ?_⟩
      rw [hcounts _ hmem] at hspace
      unfold TablePage.sizeTablePageHeader TablePage.sizeTuple at hspace
      unfold pageSize at hfree
      dsimp only at hspace
      omega

/-- The records of a run lead from the slots after it back to those before it. -/
theorem undo_run {aborting : PagePool} (h : HeapOk pool table.firstPageId pageIds heap)
    (hon : (machine table).Guarded table.OnPages (pool, txn) requests)
    (hlive : (machine table).Guarded MarksLive (pool, txn) requests)
    (hroom : (machine table).Guarded (LeavesRoom aborting) (pool, txn) requests)
    (hreach : (machine table).Reaches (pool, txn) requests (pool', txn')) :
    ∃ pageIds' heap' records, HeapOk pool' table.firstPageId pageIds' heap' ∧
      Grown pool pool' pageIds pageIds' ∧
      txn'.tableWriteSet = txn.tableWriteSet ++ records ∧
      txn'.indexWriteSet = txn.indexWriteSet ∧
      ∀ counts, (∀ pageId ∈ pageIds',
          TablePage.getTupleCount (aborting.pages pageId) = counts pageId) →
        ∀ view pages, Pagewise view pages → Undoes view records counts heap heap' := by
  induction requests generalizing pool txn pageIds heap with
  | nil =>
      cases Machine.reaches_nil.mp hreach
      exact ⟨pageIds, heap, [], h, Grown.refl _ _, (List.append_nil _).symm, rfl,
        fun counts _ view _ _ => undoes_nil view counts heap⟩
  | cons request rest ih =>
      obtain ⟨result, ⟨middle, txn₁⟩, hstep, hrest⟩ := Machine.reaches_cons.mp hreach
      have hcall : table.call (pool, txn) request = .ok (result, middle, txn₁) := hstep
      obtain ⟨pageIds₁, heap₁, h₁, hgrown, heffect⟩ := h.call_effect hon.1 hcall
      obtain ⟨pageIds', heap', records, h', hgrown', hwrites, hindex, hundo⟩ :=
        ih h₁ (hon.2 result (middle, txn₁) hstep) (hlive.2 result (middle, txn₁) hstep)
          (hroom.2 result (middle, txn₁) hstep) hrest
      have hlives : ∀ rid, request = .markDelete rid →
          ∃ data, slotAt heap rid = .full false data := by
        rintro rid rfl
        have hmem : rid.pageId ∈ pageIds := h.pageIds_eq ▸ hon.1
        exact (h.isSome_getTuple_iff hmem).mp hlive.1
      have hpositive : ∀ rid deleted data, slotAt heap rid = .full deleted data →
          0 < data.length := fun rid deleted data hfull =>
        (HeapOk.pagewise table.firstPageId pageIds).data_pos h hfull
      obtain ⟨new, hnew, hundoNew⟩ := undo_step heffect hpositive hlives
      refine ⟨pageIds', heap', new ++ records, h', hgrown.trans hgrown', ?_, ?_, ?_⟩
      · rw [hwrites, hnew, List.append_assoc]
      · rw [hindex, heffect.indexWriteSet]
      · intro counts hcounts view pages hview
        have hcountsNow : ∀ pageId ∈ pageIds,
            TablePage.getTupleCount (aborting.pages pageId) = counts pageId :=
          fun pageId hmem => hcounts pageId (hgrown'.mem (hgrown.mem hmem))
        have hroomNow := h.roomFor hon.1 hroom.1 hcountsNow
        exact (hundoNew counts hroomNow view pages hview).append (hundo counts hcounts view pages hview)

/-- `Abort` brings the visible tuples back when each update left room for its undo. -/
theorem abort_restores (h : HeapOk pool table.firstPageId pageIds heap)
    (hfresh : txn.tableWriteSet = []) (hfreshIndex : txn.indexWriteSet = [])
    (hon : (machine table).Guarded table.OnPages (pool, txn) requests)
    (hlive : (machine table).Guarded MarksLive (pool, txn) requests)
    (hreach : (machine table).Reaches (pool, txn) requests (pool', txn'))
    (hroom : (machine table).Guarded (LeavesRoom pool') (pool, txn) requests)
    (catalog : Catalog) :
    ∃ final done, TransactionManager.abort pool' catalog txn' = .ok (final, catalog, done) ∧
      table.visible final = table.visible pool := by
  obtain ⟨pageIds', heap', records, h', -, hwrites, hindex, hundo⟩ :=
    undo_run h hon hlive hroom hreach
  have hstart : Restored (fun pageId => (heap' pageId).length) heap' heap' :=
    ⟨fun _ => rfl, fun _ => le_refl _, fun _ => rfl⟩
  obtain ⟨final, undone, hwritesUndone, hfinal, hrestored⟩ :=
    hundo _ (fun pageId hmem => (h'.represents pageId hmem).count) _ _
      (HeapOk.pagewise table.firstPageId pageIds') pool' heap'
      { txn' with state := .aborted } h' hstart rfl
  have habort : TransactionManager.abort pool' catalog txn' = .ok (final, catalog,
      { txn' with state := .aborted, tableWriteSet := [], indexWriteSet := [] }) := by
    have hrecords : records = txn'.tableWriteSet := by rw [hwrites, hfresh, List.nil_append]
    rw [hrecords] at hwritesUndone
    unfold TransactionManager.abort
    rw [hwritesUndone]
    dsimp only
    rw [hindex, hfreshIndex]
    rfl
  refine ⟨final, _, habort, ?_⟩
  funext rid
  rw [hfinal.visible_eq, h.visible_eq, hrestored.same]

/-- A tuple is inserted, replaced by another one and deleted. -/
def replacedAndDeleted : List HeapCall :=
  [.insertTuple [7], .updateTuple [8] ⟨0, 0⟩, .markDelete ⟨0, 0⟩]

theorem abort_restores_replacedAndDeleted :
    ∃ pool txn, smallTable.machine.Reaches (smallPool, {}) replacedAndDeleted (pool, txn) ∧
      ∃ final done, TransactionManager.abort pool Catalog.empty txn =
          .ok (final, Catalog.empty, done) ∧
        smallTable.visible final = smallTable.visible smallPool := by
  have hok : (smallTable.machine.run (smallPool, {}) replacedAndDeleted).isOk := by decide +kernel
  have hroom : (smallTable.machine.run (smallPool, {}) replacedAndDeleted).toOption.all
      (fun final => decide (smallTable.machine.Guarded (LeavesRoom final.2.1) (smallPool, {})
        replacedAndDeleted)) = true := by decide +kernel
  cases hrun : smallTable.machine.run (smallPool, {}) replacedAndDeleted with
  | error fault =>
      rw [hrun] at hok
      cases hok
  | ok final =>
      obtain ⟨outputs, pool, txn⟩ := final
      rw [hrun] at hroom
      refine ⟨pool, txn, ⟨outputs, hrun⟩, ?_⟩
      exact abort_restores smallPool_heapOk rfl rfl (by decide +kernel) (by decide +kernel)
        ⟨outputs, hrun⟩ (of_decide_eq_true hroom) Catalog.empty

/-- A tuple that fills a page of its own. -/
def largeTuple : Tuple := List.replicate 4064 7

/-- The large tuple is replaced by a small one, and another one is inserted. -/
def shrunkAndInserted : List HeapCall := [.updateTuple [8] ⟨0, 0⟩, .insertTuple [9]]

/-- The slot of the second tuple takes the space that the large tuple needs, and `Abort`
leaves the small one. -/
theorem shrunkAndInserted_not_restored :
    ∃ pool txn, smallTable.machine.Reaches (smallPool, {}) [.insertTuple largeTuple] (pool, txn) ∧
      smallTable.machine.Guarded smallTable.OnPages (pool, {}) shrunkAndInserted ∧
      smallTable.machine.Guarded MarksLive (pool, {}) shrunkAndInserted ∧
      ∃ pool' txn', smallTable.machine.Reaches (pool, {}) shrunkAndInserted (pool', txn') ∧
        ∃ final catalog done, TransactionManager.abort pool' Catalog.empty txn' =
            .ok (final, catalog, done) ∧
          smallTable.visible final ≠ smallTable.visible pool := by
  have hguards : (smallTable.machine.run (smallPool, {}) [.insertTuple largeTuple]).toOption.map
      (fun start => decide
        (smallTable.machine.Guarded smallTable.OnPages (start.2.1, {}) shrunkAndInserted ∧
          smallTable.machine.Guarded MarksLive (start.2.1, {}) shrunkAndInserted)) =
      some true := by decide +kernel
  have hlengths : ((smallTable.machine.run (smallPool, {})
      [.insertTuple largeTuple]).toOption.bind fun start =>
        (smallTable.machine.run (start.2.1, {}) shrunkAndInserted).toOption.bind fun last =>
          (TransactionManager.abort last.2.1 Catalog.empty last.2.2).toOption.map fun aborted =>
            ((smallTable.visible start.2.1 ⟨0, 0⟩).map List.length,
              (smallTable.visible aborted.1 ⟨0, 0⟩).map List.length)) =
      some (some 4064, some 1) := by decide +kernel
  obtain ⟨⟨outputs, pool, txn⟩, hstart, hlengths⟩ := Option.bind_eq_some_iff.mp hlengths
  obtain ⟨⟨outputs', pool', txn'⟩, hlast, hlengths⟩ := Option.bind_eq_some_iff.mp hlengths
  obtain ⟨⟨final, catalog, done⟩, habort, hlengths⟩ := Option.map_eq_some_iff.mp hlengths
  rw [hstart, Option.map_some, Option.some.injEq, decide_eq_true_eq] at hguards
  refine ⟨pool, txn, ⟨outputs, Except.toOption_eq_some_iff.mp hstart⟩, hguards.1, hguards.2, ?_⟩
  refine ⟨pool', txn', ⟨outputs', Except.toOption_eq_some_iff.mp hlast⟩, ?_⟩
  refine ⟨final, catalog, done, Except.toOption_eq_some_iff.mp habort, ?_⟩
  intro hsame
  rw [hsame, Prod.mk.injEq] at hlengths
  cases hlengths.1.symm.trans hlengths.2

end TableHeap

end BusTub
