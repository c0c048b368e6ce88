import BusTub.Concurrency.TransactionManager
import BusTub.Table.HeapCalls

/-! # Commit applies the deletes of a transaction

`MarkDelete` of a heap leaves a write record also where the page rejects the call.
`Commit` removes exactly the tuples that were live when they were marked if every call
found a live tuple; otherwise it meets an empty slot, or removes a tuple that nobody
deleted.
-/

namespace BusTub

namespace TableHeap

/-- The record id of a call that deletes a live tuple. -/
def liveDelete (pool : PagePool) : HeapCall → List RID
  | .markDelete rid => if (getTuple pool rid).isSome then [rid] else []
  | _ => []

/-- The record ids of the tuples that were live when a call deleted them. -/
def effectiveDeletes (table : TableHeap) : PagePool × Transaction → List HeapCall → List RID
  | _, [] => []
  | state, request :: rest =>
      match table.call state request with
      | .error _ => []
      | .ok (_, next) => liveDelete state.1 request ++ effectiveDeletes table next rest

/-- The record ids of the deletes in a write set. -/
def deletedRids (records : List TableWriteRecord) : List RID :=
  (records.filter fun item => item.wtype = .delete).map TableWriteRecord.rid

/-- `Commit` does not fail, and exactly the slots of the deleted tuples become empty. -/
def CommitsExactly (table : TableHeap) (pool : PagePool) (txn : Transaction)
    (deletes : List RID) : Prop :=
  ∃ final done, TransactionManager.commit pool txn = .ok (final, done) ∧
    ∀ rid, rid.pageId ∈ table.pageIds pool →
      slot final rid = if rid ∈ deletes then .empty else slot pool rid

variable {table : TableHeap} {pool pool' : PagePool} {txn txn' : Transaction} {first : PageId}
  {pageIds pageIds' : List PageId} {heap heap' : PageId → List Slot} {rid : RID}
  {requests : List HeapCall} {records : List TableWriteRecord} {deletes : List RID}

@[simp] theorem deletedRids_append (records others : List TableWriteRecord) :
    deletedRids (records ++ others) = deletedRids records ++ deletedRids others := by
  unfold deletedRids
  rw [List.filter_append, List.map_append]

theorem deletedRids_cons_of_delete {item : TableWriteRecord} (hdelete : item.wtype = .delete)
    (rest : List TableWriteRecord) : deletedRids (item :: rest) = item.rid :: deletedRids rest := by
  unfold deletedRids
  rw [List.filter_cons_of_pos (by simpa using hdelete), List.map_cons]

theorem deletedRids_cons_of_ne {item : TableWriteRecord} (hdelete : item.wtype ≠ .delete)
    (rest : List TableWriteRecord) : deletedRids (item :: rest) = deletedRids rest := by
  unfold deletedRids
  rw [List.filter_cons_of_neg (by simpa using hdelete)]

theorem deletedRids_reverse (records : List TableWriteRecord) :
    deletedRids records.reverse = (deletedRids records).reverse := by
  unfold deletedRids
  rw [List.filter_reverse, List.map_reverse]

/-! ## The loop of `Commit` -/

/-- The loop of `Commit` goes through when the deletes are about different slots with
tuples, and then it empties these slots. -/
theorem Pagewise.applyDeletes_spec {view : PagePool → (PageId → List Slot) → Prop}
    {pages : Set PageId} (hview : Pagewise view pages) (h : view pool heap)
    (hon : ∀ rid ∈ deletedRids records, rid.pageId ∈ pages) :
    (¬ ((deletedRids records).Nodup ∧ ∀ rid ∈ deletedRids records, slotAt heap rid ≠ .empty) ∧
      ∃ fault, TransactionManager.applyDeletes records pool = .error fault) ∨
    ∃ pool' heap', (deletedRids records).Nodup ∧
      (∀ rid ∈ deletedRids records, slotAt heap rid ≠ .empty) ∧
      TransactionManager.applyDeletes records pool = .ok pool' ∧
      view pool' heap' ∧
      ∀ rid, slotAt heap' rid = if rid ∈ deletedRids records then .empty else slotAt heap rid := by
  induction records generalizing pool heap with
  | nil => exact Or.inr ⟨pool, heap, List.nodup_nil, nofun, rfl, h, fun rid => rfl⟩
  | cons item rest ih =>
      unfold TransactionManager.applyDeletes
      by_cases hdelete : item.wtype = .delete
      · rw [deletedRids_cons_of_delete hdelete] at hon ⊢
        rw [if_pos hdelete]
        cases hslot : slotAt heap item.rid with
        | empty =>
          obtain ⟨fault, hstop⟩ :=
            hview.applyDelete_of_empty h (hon item.rid List.mem_cons_self) hslot
          rw [hstop]
          refine Or.inl ⟨?_, fault, rfl⟩
          rintro ⟨-, hall⟩
          exact hall item.rid List.mem_cons_self hslot
        | full deleted data =>
          obtain ⟨middle, hok, hmiddle⟩ := hview.applyDelete_of_full h hslot
          have hslots := slotAt_set (slotAt_lt hslot) .empty
          rw [hok]
          dsimp only
          rcases ih hmiddle (fun rid hrid => hon rid (List.mem_cons_of_mem _ hrid)) with
            ⟨hnot, fault, hstop⟩ | ⟨final, heap'', hnodup, hall, hfinal, hheap, hslots'⟩
          · refine Or.inl ⟨?_, fault, hstop⟩
            rintro ⟨hnodup, hall⟩
            rw [List.nodup_cons] at hnodup
            refine hnot ⟨hnodup.2, ?_⟩
            intro rid hrid
            have hne : rid ≠ item.rid := by
              rintro rfl
              exact hnodup.1 hrid
            rw [hslots, if_neg hne]
            exact hall rid (List.mem_cons_of_mem _ hrid)
          · refine Or.inr ⟨final, heap'', ?_, ?_, hfinal, hheap, ?_⟩
            · refine List.nodup_cons.mpr ⟨?_, hnodup⟩
              intro hrid
              exact hall item.rid hrid (by rw [hslots, if_pos rfl])
            · intro rid hrid
              rcases List.mem_cons.mp hrid with rfl | htail
              · rw [hslot]
                exact nofun
              · have hne := hall rid htail
                rw [hslots] at hne
                split at hne
                · exact absurd rfl hne
                · exact hne
            · intro rid
              rw [hslots', hslots]
              by_cases heq : rid = item.rid
              · rw [if_pos heq, if_pos (List.mem_cons.mpr (Or.inl heq)), ite_self]
              · have hiff : rid ∈ item.rid :: deletedRids rest ↔ rid ∈ deletedRids rest := by
                  rw [List.mem_cons, or_iff_right heq]
                rw [if_neg heq]
                exact (if_congr hiff rfl rfl).symm
      · rw [deletedRids_cons_of_ne hdelete] at hon ⊢
        rw [if_neg hdelete]
        exact ih h hon

/-! ## The calls of a transaction -/

/-- The record id of a call that deletes. -/
def deleteRequest : HeapCall → List RID
  | .markDelete rid => [rid]
  | _ => []

theorem mem_liveDelete {request : HeapCall} :
    rid ∈ liveDelete pool request ↔ request = .markDelete rid ∧ (getTuple pool rid).isSome := by
  cases request with
  | insertTuple tuple => exact iff_of_false nofun nofun
  | markDelete other =>
      simp only [liveDelete, HeapCall.markDelete.injEq]
      split
      next hlive =>
        rw [List.mem_singleton]
        constructor
        · rintro rfl
          exact ⟨rfl, hlive⟩
        · exact fun hand => hand.1.symm
      next hdead =>
        refine iff_of_false nofun ?_
        rintro ⟨rfl, hlive⟩
        exact hdead hlive
  | updateTuple tuple other => exact iff_of_false nofun nofun

theorem liveDelete_sublist (pool : PagePool) (request : HeapCall) :
    (liveDelete pool request).Sublist (deleteRequest request) := by
  cases request with
  | insertTuple tuple => exact List.Sublist.slnil
  | markDelete rid =>
      simp only [liveDelete, deleteRequest]
      split
      · exact List.Sublist.refl _
      · exact List.nil_sublist _
  | updateTuple tuple rid => exact List.Sublist.slnil

theorem length_liveDelete_eq_iff (state : PagePool × Transaction) (request : HeapCall) :
    (liveDelete state.1 request).length = (deleteRequest request).length ↔
      MarksLive state request := by
  cases request with
  | insertTuple tuple => exact iff_of_true rfl trivial
  | markDelete rid =>
      simp only [liveDelete, deleteRequest, MarksLive]
      split
      next hlive => exact iff_of_true rfl hlive
      next hdead => exact iff_of_false (by simp) hdead
  | updateTuple tuple rid => exact iff_of_true rfl trivial

/-- A call adds at most one record, and a delete record only if it is a delete. -/
theorem Effect.writeSet {oid : TableOid} {request : HeapCall} {result : HeapResult}
    (heffect : Effect oid heap txn request result heap' txn') :
    ∃ records, txn'.tableWriteSet = txn.tableWriteSet ++ records ∧
      deletedRids records = deleteRequest request := by
  cases heffect with
  | inserted hpos hinsert => exact ⟨_, rfl, rfl⟩
  | rejected => exact ⟨[], (List.append_nil _).symm, rfl⟩
  | marked hlive => exact ⟨_, rfl, rfl⟩
  | unmarked hdead => exact ⟨_, rfl, rfl⟩
  | updated hpos hupdate =>
      split
      · exact ⟨_, rfl, rfl⟩
      · exact ⟨[], (List.append_nil _).symm, rfl⟩
  | unchanged => exact ⟨[], (List.append_nil _).symm, rfl⟩

/-- No call touches a tuple that is marked as deleted. -/
theorem Effect.stays_marked {oid : TableOid} {request : HeapCall} {result : HeapResult}
    {data : Tuple} (heffect : Effect oid heap txn request result heap' txn')
    (hmarked : slotAt heap rid = .full true data) : slotAt heap' rid = .full true data := by
  cases heffect with
  | @inserted tuple other slots hpos hinsert =>
      rw [slotAt_insert hinsert, if_neg, hmarked]
      rintro rfl
      rw [slotAt_of_insert hinsert] at hmarked
      cases hmarked
  | rejected => exact hmarked
  | @marked other data' hlive =>
      rw [slotAt_set (slotAt_lt hlive), if_neg, hmarked]
      rintro rfl
      rw [hlive] at hmarked
      cases hmarked
  | unmarked hdead => exact hmarked
  | @updated tuple old other slots hpos hupdate =>
      obtain ⟨hslot, -, rfl⟩ := Slots.update_eq_some_iff.mp hupdate
      have hlive := slotAt_eq_full_iff.mpr hslot
      rw [slotAt_set (slotAt_lt hlive), if_neg, hmarked]
      rintro rfl
      rw [hlive] at hmarked
      cases hmarked
  | unchanged => exact hmarked

/-- A tuple that a call deletes while it is live is marked from then on. -/
theorem HeapOk.liveDelete_marked (h : HeapOk pool table.firstPageId pageIds heap)
    {request : HeapCall} {result : HeapResult} (hon : table.OnPages (pool, txn) request)
    (heffect : Effect table.oid heap txn request result heap' txn')
    (hrid : rid ∈ liveDelete pool request) :
    (∃ data, slotAt heap rid = .full false data) ∧ ∃ data, slotAt heap' rid = .full true data := by
  obtain ⟨rfl, hsome⟩ := mem_liveDelete.mp hrid
  have hmem : rid.pageId ∈ pageIds := h.pageIds_eq ▸ hon
  have hlive := (h.isSome_getTuple_iff hmem).mp hsome
  refine ⟨hlive, ?_⟩
  cases heffect with
  | @marked _ data hslot =>
      refine ⟨data, ?_⟩
      rw [slotAt_set (slotAt_lt hslot), if_pos rfl]
  | unmarked hdead =>
      obtain ⟨data, hslot⟩ := hlive
      exact absurd hslot (hdead data)

/-- What is known at the end of a run: its delete records are the effective deletes and
those of the calls that found no live tuple. -/
structure Recorded (table : TableHeap) (pool : PagePool) (txn txn' : Transaction)
    (pageIds' : List PageId) (heap heap' : PageId → List Slot) (requests : List HeapCall)
    (records : List TableWriteRecord) : Prop where
  writeSet : txn'.tableWriteSet = txn.tableWriteSet ++ records
  onPages : ∀ rid ∈ deletedRids records, rid.pageId ∈ pageIds'
  sublist : (effectiveDeletes table (pool, txn) requests).Sublist (deletedRids records)
  length_eq_iff : (effectiveDeletes table (pool, txn) requests).length =
    (deletedRids records).length ↔ (machine table).Guarded MarksLive (pool, txn) requests
  nodup : (effectiveDeletes table (pool, txn) requests).Nodup
  marked : ∀ rid ∈ effectiveDeletes table (pool, txn) requests,
    ∃ data, slotAt heap' rid = .full true data
  stays : ∀ rid data, slotAt heap rid = .full true data →
    slotAt heap' rid = .full true data ∧ rid ∉ effectiveDeletes table (pool, txn) requests

theorem recorded (h : HeapOk pool table.firstPageId pageIds heap)
    (hon : (machine table).Guarded table.OnPages (pool, txn) requests)
    (hreach : (machine table).Reaches (pool, txn) requests (pool', txn')) :
    ∃ pageIds' heap' records, HeapOk pool' table.firstPageId pageIds' heap' ∧
      Grown pool pool' pageIds pageIds' ∧
      Recorded table pool txn txn' pageIds' heap heap' requests records := by
  induction requests generalizing pool txn pageIds heap with
  | nil =>
      cases Machine.reaches_nil.mp hreach
      refine ⟨pageIds, heap, [], h, Grown.refl _ _, ?_⟩
      exact ⟨(List.append_nil _).symm, nofun, List.Sublist.slnil, iff_of_true rfl trivial,
        List.nodup_nil, nofun, fun rid data hmarked => ⟨hmarked, nofun⟩⟩
  | cons request rest ih =>
      obtain ⟨result, ⟨middle, txn₁⟩, hstep, hrest⟩ := Machine.reaches_cons.mp hreach
      have hcall : table.call (pool, txn) request = .ok (result, middle, txn₁) := hstep
      obtain ⟨pageIds₁, heap₁, h₁, hgrown, heffect⟩ := h.call_effect hon.1 hcall
      obtain ⟨pageIds', heap', records, h', hgrown', hrec⟩ :=
        ih h₁ (hon.2 result (middle, txn₁) hstep) hrest
      obtain ⟨new, hwrites, hnew⟩ := heffect.writeSet
      have hdeletes : effectiveDeletes table (pool, txn) (request :: rest) =
          liveDelete pool request ++ effectiveDeletes table (middle, txn₁) rest := by
        rw [effectiveDeletes, hcall]
      have hlive : ∀ rid ∈ liveDelete pool request, _ := fun rid hrid =>
        h.liveDelete_marked hon.1 heffect hrid
      -- a tuple that is marked is not marked a second time
      have hstays : ∀ rid ∈ liveDelete pool request, (∃ data, slotAt heap' rid = .full true data) ∧
          rid ∉ effectiveDeletes table (middle, txn₁) rest := by
        intro rid hrid
        obtain ⟨data, hmarked⟩ := (hlive rid hrid).2
        obtain ⟨hend, hnot⟩ := hrec.stays rid data hmarked
        exact ⟨⟨data, hend⟩, hnot⟩
      refine ⟨pageIds', heap', new ++ records, h', hgrown.trans hgrown', ?_⟩
      constructor
      case writeSet => rw [hrec.writeSet, hwrites, List.append_assoc]
      case onPages =>
        intro rid hrid
        rw [deletedRids_append, hnew, List.mem_append] at hrid
        rcases hrid with hthis | hlater
        · cases request with
          | markDelete other =>
              rw [deleteRequest, List.mem_singleton] at hthis
              subst hthis
              have hmem : rid.pageId ∈ pageIds := h.pageIds_eq ▸ hon.1
              exact hgrown'.mem (hgrown.mem hmem)
          | insertTuple tuple => cases hthis
          | updateTuple tuple other => cases hthis
        · exact hrec.onPages rid hlater
      case sublist =>
        rw [hdeletes, deletedRids_append, hnew]
        exact (liveDelete_sublist pool request).append hrec.sublist
      -- both lists grow alike, but for the delete of a dead tuple, which is recorded without effect
      case length_eq_iff =>
        have hthis := (liveDelete_sublist pool request).length_le
        have hlater := hrec.sublist.length_le
        have hlen : (liveDelete pool request).length = (deleteRequest request).length ↔ _ :=
          length_liveDelete_eq_iff (pool, txn) request
        rw [Machine.guarded_cons_of_step hstep, ← hrec.length_eq_iff, ← hlen, hdeletes,
          deletedRids_append, hnew, List.length_append, List.length_append]
        omega
      case nodup =>
        rw [hdeletes]
        refine List.nodup_append.mpr ⟨?_, hrec.nodup, ?_⟩
        · refine (liveDelete_sublist pool request).nodup ?_
          cases request with
          | insertTuple tuple => exact List.nodup_nil
          | markDelete rid => exact List.nodup_singleton rid
          | updateTuple tuple rid => exact List.nodup_nil
        · rintro rid hrid _ hlater rfl
          exact (hstays rid hrid).2 hlater
      case marked =>
        intro rid hrid
        rw [hdeletes, List.mem_append] at hrid
        rcases hrid with hthis | hlater
        · exact (hstays rid hthis).1
        · exact hrec.marked rid hlater
      case stays =>
        intro rid data hmarked
        obtain ⟨hend, hnot⟩ := hrec.stays rid data (heffect.stays_marked hmarked)
        refine ⟨hend, ?_⟩
        rw [hdeletes, List.mem_append]
        rintro (hthis | hlater)
        · obtain ⟨data', hfull⟩ := (hlive rid hthis).1
          rw [hmarked] at hfull
          cases hfull
        · exact hnot hlater

/-- `Commit` applies exactly the deletes of live tuples if and only if every call of
`MarkDelete` was about a live tuple. -/
theorem commit_exactly_iff (h : HeapOk pool table.firstPageId pageIds heap)
    (hfresh : txn.tableWriteSet = [])
    (hon : (machine table).Guarded table.OnPages (pool, txn) requests)
    (hreach : (machine table).Reaches (pool, txn) requests (pool', txn')) :
    CommitsExactly table pool' txn' (effectiveDeletes table (pool, txn) requests) ↔
      (machine table).Guarded MarksLive (pool, txn) requests := by
  obtain ⟨pageIds', heap', records, h', -, hrec⟩ := recorded h hon hreach
  have hwrites : txn'.tableWriteSet = records := by rw [hrec.writeSet, hfresh, List.nil_append]
  have hrids : deletedRids records.reverse = (deletedRids records).reverse :=
    deletedRids_reverse records
  have honAll : ∀ rid ∈ deletedRids records.reverse, rid.pageId ∈ pageIds' := by
    intro rid hrid
    rw [hrids, List.mem_reverse] at hrid
    exact hrec.onPages rid hrid
  rw [← hrec.length_eq_iff]
  unfold CommitsExactly TransactionManager.commit
  rw [hwrites, h'.pageIds_eq]
  constructor
  · rintro ⟨final, done, hcommit, hslots⟩
    rcases (HeapOk.pagewise _ _).applyDeletes_spec h' honAll with ⟨-, fault, hstop⟩ |
      ⟨pool'', heap'', hnodup, hall, hok, hfinal, hheap⟩
    · rw [hstop] at hcommit
      cases hcommit
    · rw [hok] at hcommit
      cases hcommit
      rw [hrids, List.nodup_reverse] at hnodup
      have hsubset : deletedRids records ⊆ effectiveDeletes table (pool, txn) requests := by
        intro rid hrid
        have hmem := hrec.onPages rid hrid
        have hrev : rid ∈ deletedRids records.reverse := by rwa [hrids, List.mem_reverse]
        have hslot := hslots rid hmem
        rw [hfinal.slot_eq hmem, h'.slot_eq hmem, hheap, if_pos hrev] at hslot
        by_contra hnot
        rw [if_neg hnot] at hslot
        exact hall rid hrev hslot.symm
      exact le_antisymm hrec.sublist.length_le (hnodup.subperm hsubset).length_le
  · intro hlength
    have hsame := hrec.sublist.eq_of_length hlength
    have hnodup : (deletedRids records.reverse).Nodup := by
      rw [hrids, List.nodup_reverse, ← hsame]
      exact hrec.nodup
    have hall : ∀ rid ∈ deletedRids records.reverse, slotAt heap' rid ≠ .empty := by
      intro rid hrid
      rw [hrids, List.mem_reverse, ← hsame] at hrid
      obtain ⟨data, hmarked⟩ := hrec.marked rid hrid
      rw [hmarked]
      exact nofun
    rcases (HeapOk.pagewise _ _).applyDeletes_spec h' honAll with
      ⟨hnot, -⟩ | ⟨final, heap'', -, -, hok, hfinal, hheap⟩
    · exact absurd ⟨hnodup, hall⟩ hnot
    · refine ⟨final, _, by rw [hok], ?_⟩
      intro rid hmem
      rw [hfinal.slot_eq hmem, h'.slot_eq hmem, hheap, hrids, hsame]
      exact if_congr List.mem_reverse rfl rfl

/-- A tuple is inserted and deleted. -/
def insertedAndDeleted : List HeapCall := [.insertTuple [7], .markDelete ⟨0, 0⟩]

theorem commit_exactly_iff_insertedAndDeleted :
    ∃ pool txn, smallTable.machine.Reaches (smallPool, {}) insertedAndDeleted (pool, txn) ∧
      CommitsExactly smallTable pool txn [⟨0, 0⟩] := by
  have hok : (smallTable.machine.run (smallPool, {}) insertedAndDeleted).isOk := by decide +kernel
  have hdeletes : effectiveDeletes smallTable (smallPool, {}) insertedAndDeleted = [⟨0, 0⟩] := by
    decide +kernel
  cases hrun : smallTable.machine.run (smallPool, {}) insertedAndDeleted with
  | error fault =>
      rw [hrun] at hok
      cases hok
  | ok final =>
      obtain ⟨outputs, pool, txn⟩ := final
      have hiff := commit_exactly_iff smallPool_heapOk rfl (by decide +kernel) ⟨outputs, hrun⟩
      rw [hdeletes] at hiff
      exact ⟨pool, txn, ⟨outputs, hrun⟩, hiff.mpr (by decide +kernel)⟩

/-- A tuple is inserted and deleted twice. -/
def deletedTwice : List HeapCall :=
  [.insertTuple [7], .markDelete ⟨0, 0⟩, .markDelete ⟨0, 0⟩]

/-- The second `MarkDelete` leaves a record, and `Commit` deletes from an empty slot. -/
theorem deletedTwice_not_exact :
    smallTable.machine.Guarded smallTable.OnPages (smallPool, {}) deletedTwice ∧
    ∃ pool txn, smallTable.machine.Reaches (smallPool, {}) deletedTwice (pool, txn) ∧
      TransactionManager.commit pool txn = .error .offsetBeforeFreeSpace ∧
      ¬ CommitsExactly smallTable pool txn
        (effectiveDeletes smallTable (smallPool, {}) deletedTwice) := by
  refine ⟨by decide +kernel, ?_⟩
  have hok : (smallTable.machine.run (smallPool, {}) deletedTwice).isOk := by decide +kernel
  have hfault : ((smallTable.machine.run (smallPool, {}) deletedTwice).bind fun final =>
      TransactionManager.commit final.2.1 final.2.2).map (fun _ => ()) =
        .error .offsetBeforeFreeSpace := by decide +kernel
  cases hrun : smallTable.machine.run (smallPool, {}) deletedTwice with
  | error fault =>
      rw [hrun] at hok
      cases hok
  | ok final =>
      obtain ⟨outputs, pool, txn⟩ := final
      rw [hrun] at hfault
      have hcommit : TransactionManager.commit pool txn = .error .offsetBeforeFreeSpace := by
        cases hdone : TransactionManager.commit pool txn with
        | error fault =>
            simp only [Except.bind, hdone, Except.map, Except.error.injEq] at hfault
            rw [hfault]
        | ok done =>
            simp only [Except.bind, hdone, Except.map] at hfault
            cases hfault
      refine ⟨pool, txn, ⟨outputs, hrun⟩, hcommit, ?_⟩
      rintro ⟨final, done, hdone, -⟩
      rw [hcommit] at hdone
      cases hdone

end TableHeap

end BusTub
