import BusTub.Table.HeapPrograms

/-! # A table heap over a small pool

A table heap declares all its changes, also those of the pages that it leaves when it goes on
to the next one. Over a pool with few frames, which evicts its pages, it returns what its
slots and rows say.
-/

namespace BusTub.PagedHeap

open PoolM TablePage
open DiskManager (Addressable)

variable {poolSize : Nat} {h h' : TableSlots} {table : TableHeap} {first : PageId} {fuel : Nat}
  {oid : TableOid} {request : Request} {response : Response} {requests : List Request}
  {responses : List Response} {pool : BufferPoolManagerInstance poolSize}

theorem onPage_ok {α : Type} {rid : RID} {call : Except HeapFault α} {result : α}
    (hok : h.onPage rid call = .ok result) : rid.pageId ∈ h.pageIds ∧ call = .ok result := by
  unfold TableSlots.onPage at hok
  split at hok
  next hmem =>
    cases hcall : call with
    | error fault =>
        rw [hcall] at hok
        cases hok
    | ok value =>
        rw [hcall] at hok
        cases hok
        exact ⟨hmem, rfl⟩
  next => cases hok

theorem bind_ok {ε α β : Type} {call : Except ε α} {k : α → Except ε β} {result : β}
    (hok : (call >>= k) = .ok result) : ∃ value, call = .ok value ∧ k value = .ok result := by
  cases call with
  | error fault => cases hok
  | ok value => exact ⟨value, rfl, hok⟩

/-- Every call keeps the chain in order. -/
theorem ok_serve (hok : h.Ok first) (hserve : h.serve oid request = .ok (response, h')) :
    h'.Ok first ∧ h'.pageIds.length ≤ h.pageIds.length + 1 := by
  cases request with
  | insertTuple tuple txn =>
      rw [TableSlots.serve] at hserve
      split at hserve
      · cases hserve
        exact ⟨hok, Nat.le_succ _⟩
      · obtain ⟨⟨rid, final⟩, hinsert, heq⟩ := bind_ok hserve
        cases heq
        exact hok.insert hinsert
  | markDelete rid txn =>
      obtain ⟨hmem, heq⟩ := onPage_ok hserve
      cases heq
      exact ⟨hok.put hmem, Nat.le_succ _⟩
  | updateTuple tuple rid txn =>
      obtain ⟨hmem, heq⟩ := onPage_ok hserve
      split at heq
      · cases heq
      · split at heq
        · cases heq
          exact ⟨hok, Nat.le_succ _⟩
        · cases heq
          exact ⟨hok.put hmem, Nat.le_succ _⟩
  | applyDelete rid =>
      obtain ⟨hmem, heq⟩ := onPage_ok hserve
      obtain ⟨slots, -, heq⟩ := bind_ok heq
      cases heq
      exact ⟨hok.put hmem, Nat.le_succ _⟩
  | rollbackDelete rid =>
      obtain ⟨hmem, heq⟩ := onPage_ok hserve
      obtain ⟨slots, -, heq⟩ := bind_ok heq
      cases heq
      exact ⟨hok.put hmem, Nat.le_succ _⟩
  | getTuple rid =>
      obtain ⟨-, heq⟩ := onPage_ok hserve
      cases heq
      exact ⟨hok, Nat.le_succ _⟩
  | first =>
      cases hserve
      exact ⟨hok, Nat.le_succ _⟩
  | advance it =>
      obtain ⟨-, heq⟩ := onPage_ok hserve
      cases heq
      exact ⟨hok, Nat.le_succ _⟩
  | fetchOther pageId =>
      cases hserve
      exact ⟨hok, Nat.le_succ _⟩
  | unpinOther pageId isDirty =>
      cases hserve
      exact ⟨hok, Nat.le_succ _⟩

/-- A call returns what it returns on the slots, and declares its changes. -/
theorem serve_leads (hok : h.Ok table.firstPageId) (hfuel : h.pageIds.length + 1 ≤ fuel)
    (hserve : h.serve table.oid request = .ok (response, h')) :
    Leads (Has h [] [] []) (serve fuel table request) fun result t =>
      Has h' [] [] [] t ∧ result = response := by
  cases request with
  | insertTuple tuple txn =>
      rw [TableSlots.serve] at hserve
      rw [serve]
      split at hserve
      next hlarge =>
        cases hserve
        unfold insertTuple
        rw [if_pos hlarge]
        exact Program.meets_done fun t ht => ⟨ht, rfl⟩
      next hsize =>
        obtain ⟨⟨rid, final⟩, hinsert, heq⟩ := bind_ok hserve
        cases heq
        refine Program.Meets.bind (insertTuple_leads hok hsize hfuel hinsert) fun result => ?_
        refine Program.meets_of_fact fun hresult => ?_
        rw [hresult]
        exact Program.meets_done fun t ht => ⟨ht, rfl⟩
  | markDelete rid txn =>
      obtain ⟨hmem, heq⟩ := onPage_ok hserve
      cases heq
      refine Program.Meets.bind (markDelete_leads table.oid hmem) fun result => ?_
      refine Program.meets_of_fact fun hresult => ?_
      rw [hresult]
      exact Program.meets_done fun t ht => ⟨ht, rfl⟩
  | updateTuple tuple rid txn =>
      obtain ⟨hmem, heq⟩ := onPage_ok hserve
      split at heq
      next => cases heq
      next hne =>
        refine Program.Meets.bind (updateTuple_leads table.oid hmem hne) fun result => ?_
        cases hupdate : Slots.update (h.slots rid.pageId) rid.slotNum tuple with
        | none =>
            rw [hupdate] at heq
            cases heq
            refine Program.meets_of_fact fun hresult => ?_
            rw [hresult]
            exact Program.meets_done fun t ht => ⟨ht, rfl⟩
        | some updated =>
            obtain ⟨oldTuple, slots⟩ := updated
            rw [hupdate] at heq
            cases heq
            refine Program.meets_of_fact fun hresult => ?_
            rw [hresult]
            exact Program.meets_done fun t ht => ⟨ht, rfl⟩
  | applyDelete rid =>
      obtain ⟨hmem, heq⟩ := onPage_ok hserve
      obtain ⟨slots, hslots, heq⟩ := bind_ok heq
      cases heq
      refine Program.Meets.bind (applyDelete_leads hmem hslots) fun _ => ?_
      exact Program.meets_done fun t ht => ⟨ht, rfl⟩
  | rollbackDelete rid =>
      obtain ⟨hmem, heq⟩ := onPage_ok hserve
      obtain ⟨slots, hslots, heq⟩ := bind_ok heq
      cases heq
      refine Program.Meets.bind (rollbackDelete_leads hmem hslots) fun _ => ?_
      exact Program.meets_done fun t ht => ⟨ht, rfl⟩
  | getTuple rid =>
      obtain ⟨hmem, heq⟩ := onPage_ok hserve
      cases heq
      refine Program.Meets.bind (getTuple_leads hmem) fun result => ?_
      refine Program.meets_of_fact fun hresult => ?_
      rw [hresult]
      exact Program.meets_done fun t ht => ⟨ht, rfl⟩
  | first =>
      cases hserve
      refine Program.Meets.bind (first_leads hok hfuel) fun result => ?_
      refine Program.meets_of_fact fun hresult => ?_
      rw [hresult]
      exact Program.meets_done fun t ht => ⟨ht, rfl⟩
  | advance it =>
      obtain ⟨hmem, heq⟩ := onPage_ok hserve
      cases heq
      refine Program.Meets.bind (advance_leads hok hmem hfuel) fun result => ?_
      refine Program.meets_of_fact fun hresult => ?_
      rw [hresult]
      exact Program.meets_done fun t ht => ⟨ht, rfl⟩
  | fetchOther pageId =>
      cases hserve
      exact Program.meets_call _ (fun t ht => ⟨trivial, (), t, rfl, ht⟩) fun _ =>
        Program.meets_done fun t ht => ⟨ht, rfl⟩
  | unpinOther pageId isDirty =>
      cases hserve
      exact Program.meets_call _ (fun t ht => ⟨trivial, (), t, rfl, ht⟩) fun _ =>
        Program.meets_done fun t ht => ⟨ht, rfl⟩

theorem serveAll_leads {table : TableHeap} (hok : h.Ok table.firstPageId)
    (hfuel : h.pageIds.length + requests.length ≤ fuel)
    (hserve : h.serveAll table.oid requests = .ok (responses, h')) :
    Leads (Has h [] [] []) (serveAll fuel table requests) fun result t =>
      Has h' [] [] [] t ∧ result = responses := by
  induction requests generalizing h responses with
  | nil =>
      cases hserve
      exact Program.meets_done fun t ht => ⟨ht, rfl⟩
  | cons request rest ih =>
      rw [List.length_cons] at hfuel
      obtain ⟨⟨response, middle⟩, hfirst, hrest⟩ := bind_ok hserve
      obtain ⟨⟨others, final⟩, hlast, heq⟩ := bind_ok hrest
      cases heq
      obtain ⟨hmiddle, hlength⟩ := ok_serve hok hfirst
      refine Program.Meets.bind (serve_leads hok (by omega) hfirst) fun result => ?_
      refine Program.meets_of_fact fun hresult => ?_
      refine Program.Meets.bind (ih hmiddle (by omega) hlast) fun results => ?_
      refine Program.meets_of_fact fun hresults => ?_
      rw [hresult, hresults]
      exact Program.meets_done fun t ht => ⟨ht, rfl⟩

theorem lt_of_addressable {pageId : Int} (haddr : Addressable pageId) : pageId < 2 ^ 31 := by
  have hend := haddr.2
  unfold pageSize at hend
  omega

/-- The constructor, over a pool whose next page id is one of a page. -/
theorem create_leads (hnonneg : 0 ≤ pool.nextPageId) (hlt : pool.nextPageId < 2 ^ 31) :
    Leads (fun t => t = .of pool) create fun firstPageId t =>
      Has (.create pool.nextPageId pool.numInstances) [] [] [] t ∧
        firstPageId = pool.nextPageId := by
  let empty : TableSlots :=
    { pageIds := [], slots := fun _ => [], nextPageId := pool.nextPageId
      numInstances := pool.numInstances }
  have hgrown : (TableSlots.create pool.nextPageId pool.numInstances) = empty.grow := rfl
  have hids : empty.grow.pageIds = [] ++ pool.nextPageId :: [] := rfl
  have hmem : pool.nextPageId ∈ empty.grow.pageIds := List.mem_singleton_self _
  have hstart : ∀ t, t = TrackedPool.of pool → Has empty [] [] [] t := by
    rintro t rfl
    exact ⟨fun _ hnone => (List.not_mem_nil hnone).elim, fun _ => rfl, fun _ _ => rfl, rfl, rfl⟩
  have hlow : (-2 ^ 31 : Int) ≤ pool.nextPageId := le_trans (by decide) hnonneg
  rw [hgrown]
  refine Program.Meets.mono ?_ hstart fun _ _ hfinal => hfinal
  refine (newPage_leads (h := empty) [pool.nextPageId] (List.mem_singleton_self _)
    fun _ hnone => (List.not_mem_nil hnone).elim).bind fun firstPageId => ?_
  refine Program.meets_of_fact fun hid => ?_
  obtain rfl : firstPageId = pool.nextPageId := hid
  refine (readTablePage_leads hmem (List.mem_singleton_self _)).bind fun page => ?_
  refine Program.meets_of_fact fun _ => ?_
  refine (storeTablePage_leads (empty.grow.slots pool.nextPageId) hmem
    (List.mem_singleton_self _) ?_).bind fun _ => ?_
  · rw [TableSlots.put_self]
    refine ⟨represents_init _ _ _, getTablePageId_init _ _ hlow hlt, ?_⟩
    rw [getNextPageId_init, TableSlots.behind_of_split hids List.not_mem_nil]
    rfl
  · have hnone : [pool.nextPageId].filter (· ≠ pool.nextPageId) = [] := by simp
    rw [TableSlots.put_self, hnone]
    refine Program.Meets.bind (unpinPage_leads [] ?_ ?_ ?_) fun _ => ?_
    · exact fun hfalse => by cases hfalse
    · exact fun _ => List.count_singleton_self
    · intro other _
      by_cases heq : other = pool.nextPageId
      · exact Or.inr ⟨heq, rfl⟩
      · exact Or.inl (by simpa [empty] using heq)
    · change Leads (Has empty.grow [] ([pool.nextPageId].erase pool.nextPageId) []) _ _
      rw [List.erase_cons_head]
      exact Program.meets_done fun t ht => ⟨ht, rfl⟩

/-- Calls of a table heap, with other clients of the pool between them, over a pool that has a
page for every call. Nothing is asked of what the pool evicts. -/
theorem session_slots (hframes : pool.Frames none) (hdisk : pool.diskManager.Healthy)
    (hresident : ∀ pageId frameId, pool.pageTable pageId = some frameId → Addressable pageId)
    (hinstances : 0 < pool.numInstances ∧ pool.numInstances < 2 ^ 31)
    (hserve : (TableSlots.create pool.nextPageId pool.numInstances).serveAll oid requests =
      .ok (responses, h))
    (hfuel : requests.length + 1 ≤ fuel)
    (hcalls : (session fuel oid requests).Guarded (SmallPool.handler poolSize HeapFault)
      (fun s call => s.Serves call ∧ s.Apart call) { pool }) :
    (session fuel oid requests).value (SmallPool.handler poolSize HeapFault) { pool } =
      .ok responses := by
  have haddr : Addressable pool.nextPageId :=
    (Program.guarded_head (c := PoolCall.newPage) hcalls).2.1
  have hlt := lt_of_addressable haddr
  have hok := TableSlots.ok_create haddr.1 hlt hinstances
  have hleads : Leads (fun t => t = .of pool) (session fuel oid requests) fun result t =>
      Has h [] [] [] t ∧ result = responses := by
    refine Program.Meets.bind (create_leads haddr.1 hlt) fun firstPageId => ?_
    refine Program.meets_of_fact fun hid => ?_
    subst hid
    have hpages : (TableSlots.create pool.nextPageId pool.numInstances).pageIds.length +
        requests.length ≤ fuel := by
      rw [Nat.add_comm]
      exact hfuel
    exact serveAll_leads hok hpages hserve
  obtain ⟨hdeclares, result, final, hrun, -, rfl⟩ := hleads _ rfl
  exact Program.value_agrees SmallPool.tracked_agrees
    (SmallPool.tracks_start hframes hdisk hresident) hdeclares hcalls
    (Program.value_eq_ok.mpr ⟨final, hrun⟩)

/-- Another client's pages evict the page of the table, which is fetched again. -/
def evictingRequests : List Request :=
  [.insertTuple [1, 2, 3] {}, .fetchOther 7, .fetchOther 8, .unpinOther 7 false,
    .unpinOther 8 false, .first, .markDelete ⟨0, 0⟩ {}, .getTuple ⟨0, 0⟩]

/-- A pool of two frames over an empty file. -/
def twoFrames : BufferPoolManagerInstance 2 := .create 2 1 0 { bytes := fun _ => 0, size := 0 }

theorem session_twoFrames :
    (session 9 4 evictingRequests).value (SmallPool.handler 2 HeapFault) { pool := twoFrames } =
    .ok [.inserted (some ⟨0, 0⟩) { tableWriteSet := [⟨⟨0, 0⟩, .insert, [], 4⟩] }, .done, .done,
      .done, .done, .iterator ⟨⟨0, 0⟩, [1, 2, 3]⟩,
      .marked { tableWriteSet := [⟨⟨0, 0⟩, .delete, [], 4⟩] }, .tuple none] := by
  refine session_slots (BufferPoolManagerInstance.frames_create 1 0 _) ⟨rfl, by decide⟩ ?_
    (by decide) rfl (by decide) (by decide +kernel)
  rintro pageId frameId ⟨⟩

end BusTub.PagedHeap
