import BusTub.Buffer.DeclaredChanges
import BusTub.Table.TableSlots

/-! # What the calls of a table heap lead to

The calls of the heap over a pool that never evicts, with the pages that are pinned and the
pages that have changed and are not declared. Every operation ends without either.
-/

namespace BusTub.PagedHeap

open PoolM TablePage Memory
open TableSlots (insert_of_room insert_of_full)

variable {h : TableSlots} {first pageId : PageId} {pending held dirty dirty' : List PageId}
  {slots : List Slot} {page page' : Memory} {t : TrackedPool}

/-- The page has the slots and the link of the table. -/
structure PageOf (h : TableSlots) (pageId : PageId) (page : Memory) : Prop where
  represents : Represents page (h.slots pageId)
  id : getTablePageId page = pageId
  next : getNextPageId page = (h.behind pageId).headD invalidPageId

/-- A page is stored with other slots and the same links. -/
theorem PageOf.put (hpage : PageOf h pageId page) (hslots : Represents page' slots)
    (hlinks : SameLinks page page') : PageOf (h.put pageId slots) pageId page' where
  represents := by
    have hself : (h.put pageId slots).slots pageId = slots := Function.update_self _ _ _
    rw [hself]
    exact hslots
  id := hlinks.getTablePageId.trans hpage.id
  next := hlinks.getNextPageId.trans hpage.next

/-- What is beyond the end of the page does not matter. -/
theorem PageOf.stored (hpage : PageOf h pageId page) :
    PageOf h pageId (toMemory (ofMemory page)) := by
  have hsame : ∀ a, a < pageSize → toMemory (ofMemory page) a = page a :=
    fun a hlt => toMemory_ofMemory page hlt
  have hlinks : SameLinks page (toMemory (ofMemory page)) :=
    fun a hlt => hsame a (lt_trans hlt (by decide))
  exact ⟨hpage.represents.congr_below fun a _ hlt => hsame a hlt,
    hlinks.getTablePageId.trans hpage.id, hlinks.getNextPageId.trans hpage.next⟩

/-- The pool has the pages of the table, but for those that are pending; the client has the
pins `held`, and what is not in `dirty` is as it was declared. -/
structure Has (h : TableSlots) (pending held dirty : List PageId) (t : TrackedPool) : Prop where
  pages : ∀ pageId ∈ h.pageIds, ∃ data, t.pages pageId = some data ∧
    (pageId ∉ pending → PageOf h pageId (toMemory data))
  pins : ∀ pageId, t.pins pageId = held.count pageId
  declared : ∀ pageId, pageId ∉ dirty → t.declared pageId = t.pages pageId
  nextPageId : t.nextPageId = h.nextPageId
  numInstances : t.numInstances = h.numInstances

theorem lift_bind {α β : Type} (result : α) (k : α → HeapM β) :
    (lift (.ok result) >>= k) = k result := rfl

/-- The program returns, and declares its changes. -/
abbrev Leads {α : Type} (pre : TrackedPool → Prop) (program : HeapM α)
    (post : α → TrackedPool → Prop) : Prop :=
  program.Meets (TrackedPool.handler HeapFault) TrackedPool.Declares pre post

/-! ## The calls of the pool -/

theorem fetchPage_leads (hmem : pageId ∈ h.pageIds) :
    Leads (Has h pending held dirty) (PoolM.fetchPage pageId)
      fun _ => Has h pending (pageId :: held) dirty := by
  refine Program.meets_perform fun t ht => ⟨trivial, ?_⟩
  obtain ⟨data, hdata, -⟩ := ht.pages pageId hmem
  have hstep : (KeepingPool.handler HeapFault).step t.toKeepingPool (.fetchPage pageId) =
      .ok ((), { t.toKeepingPool with
        pins := Function.update t.pins pageId (t.pins pageId + 1) }) := by
    simp only [KeepingPool.handler, hdata]
  refine ⟨(), _, TrackedPool.exists_step hstep, ht.pages, ?_, ht.declared, ht.nextPageId,
    ht.numInstances⟩
  intro other
  by_cases heq : other = pageId
  · subst heq
    rw [List.count_cons_self, ← ht.pins other]
    exact Function.update_self _ _ _
  · rw [List.count_cons_of_ne (Ne.symm heq), ← ht.pins other]
    exact Function.update_of_ne heq _ _

theorem readTablePage_leads (hmem : pageId ∈ h.pageIds) (hheld : pageId ∈ held) :
    Leads (Has h pending held dirty) (readTablePage pageId) fun page t =>
      Has h pending held dirty t ∧ (pageId ∉ pending → PageOf h pageId page) := by
  refine Program.meets_call (fun data t => Has h pending held dirty t ∧
    (pageId ∉ pending → PageOf h pageId (toMemory data))) (fun t ht => ⟨trivial, ?_⟩)
      fun _ => Program.meets_done fun t ht => ht
  obtain ⟨data, hdata, hpage⟩ := ht.pages pageId hmem
  have hpins : t.pins pageId ≠ 0 := by
    rw [ht.pins pageId]
    exact (List.count_pos_iff.mpr hheld).ne'
  have hstep : (KeepingPool.handler HeapFault).step t.toKeepingPool (.access pageId id) =
      .ok (data, { t.toKeepingPool with
        pages := Function.update t.pages pageId (some (id data)) }) := by
    simp only [KeepingPool.handler, hdata, if_neg hpins]
  have hsame : Function.update t.pages pageId (some (id data)) = t.pages :=
    Function.update_eq_self_iff.mpr hdata.symm
  rw [hsame] at hstep
  exact ⟨data, _, TrackedPool.exists_step hstep,
    ⟨ht.pages, ht.pins, ht.declared, ht.nextPageId, ht.numInstances⟩, hpage⟩

/-- A page of the table that is pinned gets other slots. -/
theorem storeTablePage_leads (slots : List Slot) (hmem : pageId ∈ h.pageIds) (hheld : pageId ∈ held)
    (hpage : PageOf (h.put pageId slots) pageId page) :
    Leads (Has h pending held dirty) (storeTablePage pageId page)
      fun _ => Has (h.put pageId slots) (pending.filter (· ≠ pageId)) held (pageId :: dirty) := by
  refine Program.meets_call (fun _ => Has (h.put pageId slots)
    (pending.filter (· ≠ pageId)) held (pageId :: dirty)) (fun t ht => ⟨trivial, ?_⟩)
      fun _ => Program.meets_done fun t ht => ht
  obtain ⟨data, hdata, -⟩ := ht.pages pageId hmem
  have hpins : t.pins pageId ≠ 0 := by
    rw [ht.pins pageId]
    exact (List.count_pos_iff.mpr hheld).ne'
  have hstep : (KeepingPool.handler HeapFault).step t.toKeepingPool
      (.access pageId fun _ => ofMemory page) =
      .ok (data, { t.toKeepingPool with
        pages := Function.update t.pages pageId (some (ofMemory page)) }) := by
    simp only [KeepingPool.handler, hdata, if_neg hpins]
  refine ⟨data, _, TrackedPool.exists_step hstep, ?_, ht.pins, ?_, ht.nextPageId,
    ht.numInstances⟩
  · intro other hother
    by_cases heq : other = pageId
    · subst heq
      exact ⟨_, Function.update_self _ _ _, fun _ => hpage.stored⟩
    · obtain ⟨data', hdata', hother'⟩ := ht.pages other hother
      refine ⟨data', (Function.update_of_ne heq _ _).trans hdata', fun hready => ?_⟩
      obtain ⟨hrep, hid, hnext⟩ := hother' fun hpending => hready
        (List.mem_filter.mpr ⟨hpending, by simpa using heq⟩)
      have hsame : (h.put pageId slots).slots other = h.slots other :=
        Function.update_of_ne heq _ _
      exact ⟨hsame ▸ hrep, hid, hnext⟩
  · intro other hother
    have hne : other ≠ pageId := fun heq => hother (heq ▸ List.mem_cons_self)
    exact (ht.declared other fun hold => hother (List.mem_cons_of_mem _ hold)).trans
      (Function.update_of_ne hne _ _).symm

/-- A pin is given back: with `is_dirty`, or of a page that has not changed. -/
theorem unpinPage_leads {isDirty : Bool} (dirty' : List PageId)
    (hclean : isDirty = false → pageId ∉ dirty) (hlast : isDirty = true → held.count pageId = 1)
    (hdirty : ∀ other, other ∉ dirty' → other ∉ dirty ∨ other = pageId ∧ isDirty = true) :
    Leads (Has h pending held dirty) (PoolM.unpinPage pageId isDirty)
      fun _ => Has h pending (held.erase pageId) dirty' := by
  refine Program.meets_perform fun t ht => ⟨?_, ?_⟩
  · cases isDirty with
    | true => exact trivial
    | false => exact fun _ => ht.declared pageId (hclean rfl)
  · have hstep : (KeepingPool.handler HeapFault).step t.toKeepingPool
        (.unpinPage pageId isDirty) = .ok ((), { t.toKeepingPool with
          pins := Function.update t.pins pageId (t.pins pageId - 1) }) := rfl
    refine ⟨(), _, TrackedPool.exists_step hstep, ht.pages, ?_, ?_, ht.nextPageId,
      ht.numInstances⟩
    · intro other
      by_cases heq : other = pageId
      · subst heq
        rw [List.count_erase_self, ← ht.pins other]
        exact Function.update_self _ _ _
      · rw [List.count_erase_of_ne heq, ← ht.pins other]
        exact Function.update_of_ne heq _ _
    · intro other hother
      by_cases heq : other = pageId ∧ isDirty = true
      · obtain ⟨rfl, rfl⟩ := heq
        have hone : t.pins other = 1 := by rw [ht.pins other, hlast rfl]
        simp only [TrackedPool.declaredAfter, if_pos hone, Function.update_self]
      · have hsame : t.declaredAfter (ε := HeapFault) (.unpinPage pageId isDirty) other =
            t.declared other := by
          by_cases hne : other = pageId
          · rw [TrackedPool.declaredAfter_unpin_of_ne fun hboth => heq ⟨hne, hboth.1⟩]
          · exact TrackedPool.declaredAfter_unpin_other hne
        exact hsame.trans (ht.declared other ((hdirty other hother).resolve_right heq))

/-- A new page, which is not in the chain yet: neither its bytes nor the link of the page before
it are those of the longer table. -/
theorem newPage_leads (pending : List PageId) (hnew : h.nextPageId ∈ pending)
    (hothers : ∀ other ∈ h.pageIds, other ∉ pending → other ≠ h.nextPageId ∧
      (h.grow.behind other).headD invalidPageId = (h.behind other).headD invalidPageId) :
    Leads (Has h [] held dirty) newPage fun newPageId t =>
      Has h.grow pending (h.nextPageId :: held) (h.nextPageId :: dirty) t ∧
        newPageId = h.nextPageId := by
  refine Program.meets_perform fun t ht => ⟨trivial, ?_⟩
  have hstep : (KeepingPool.handler HeapFault).step t.toKeepingPool .newPage =
      .ok (t.nextPageId, { t.toKeepingPool with
        nextPageId := toInt32 (t.nextPageId + t.numInstances)
        pages := Function.update t.pages t.nextPageId (some fun _ => 0)
        pins := Function.update t.pins t.nextPageId (t.pins t.nextPageId + 1) }) := rfl
  rw [ht.nextPageId] at hstep
  refine ⟨_, _, TrackedPool.exists_step hstep, ⟨?_, ?_, ?_, ?_, ht.numInstances⟩, rfl⟩
  · intro other hother
    by_cases heq : other = h.nextPageId
    · subst heq
      exact ⟨_, Function.update_self _ _ _, fun hready => absurd hnew hready⟩
    · have hold : other ∈ h.pageIds := by
        rcases List.mem_append.mp hother with hold | hlast
        · exact hold
        · exact absurd (List.mem_singleton.mp hlast) heq
      obtain ⟨data, hdata, hpage⟩ := ht.pages other hold
      refine ⟨data, (Function.update_of_ne heq _ _).trans hdata, fun hready => ?_⟩
      obtain ⟨hrep, hid, hnext⟩ := hpage List.not_mem_nil
      exact ⟨hrep, hid, hnext.trans (hothers other hold hready).2.symm⟩
  · intro other
    by_cases heq : other = h.nextPageId
    · subst heq
      rw [List.count_cons_self, ← ht.pins h.nextPageId]
      exact Function.update_self _ _ _
    · rw [List.count_cons_of_ne (Ne.symm heq), ← ht.pins other]
      exact Function.update_of_ne heq _ _
  · intro other hother
    have hne : other ≠ h.nextPageId := fun heq => hother (heq ▸ List.mem_cons_self)
    exact (ht.declared other fun hold => hother (List.mem_cons_of_mem _ hold)).trans
      (Function.update_of_ne hne _ _).symm
  · change toInt32 (h.nextPageId + t.numInstances) = toInt32 (h.nextPageId + h.numInstances)
    rw [ht.numInstances]

/-! ## Pages that are opened and left -/

section Pages

variable {α : Type} {k : Memory → HeapM α} {next : HeapM α} {post : α → TrackedPool → Prop}

/-- A page is fetched and read. -/
theorem openPage_leads (hmem : pageId ∈ h.pageIds)
    (hk : ∀ page, PageOf h pageId page → Leads (Has h [] (pageId :: held) []) (k page) post) :
    Leads (Has h [] held []) (do
      PoolM.fetchPage pageId
      let page ← readTablePage pageId
      k page) post := by
  refine (fetchPage_leads hmem).bind fun _ => ?_
  refine (readTablePage_leads hmem List.mem_cons_self).bind fun page => ?_
  exact Program.meets_of_fact fun hready => hk page (hready List.not_mem_nil)

/-- A page is stored and unpinned. -/
theorem leavePage_leads (hmem : pageId ∈ h.pageIds) (hdirty : ∀ other ∈ dirty, other = pageId)
    (hpage : PageOf (h.put pageId slots) pageId page)
    (hnext : Leads (Has (h.put pageId slots) [] [] []) next post) :
    Leads (Has h [] [pageId] dirty) (do
      storeTablePage pageId page
      PoolM.unpinPage (getTablePageId page) true
      next) post := by
  refine (storeTablePage_leads _ hmem (List.mem_singleton_self _) hpage).bind fun _ => ?_
  rw [hpage.id]
  refine Program.Meets.bind (unpinPage_leads [] ?_ ?_ ?_) fun _ => ?_
  · exact fun hfalse => by cases hfalse
  · exact fun _ => List.count_singleton_self
  · intro other _
    by_cases heq : other = pageId
    · exact Or.inr ⟨heq, rfl⟩
    · refine Or.inl fun hmem => ?_
      rcases List.mem_cons.mp hmem with hself | hold
      · exact heq hself
      · exact heq (hdirty other hold)
  · rw [List.erase_cons_head]
    exact hnext

/-- A page that was only read is unpinned. -/
theorem closePage_leads (hnext : Leads (Has h [] held []) next post) :
    Leads (Has h [] (pageId :: held) []) (do
      PoolM.unpinPage pageId false
      next) post := by
  refine Program.Meets.bind (unpinPage_leads [] ?_ ?_ ?_) fun _ => ?_
  · exact fun _ => List.not_mem_nil
  · exact fun htrue => by cases htrue
  · exact fun _ hmem => Or.inl hmem
  · rw [List.erase_cons_head]
    exact hnext

end Pages

/-! ## Operations on one page -/

variable {rid : RID} {txn : Transaction} {tuple : Tuple}

theorem getTuple_leads (hmem : rid.pageId ∈ h.pageIds) :
    Leads (Has h [] held []) (getTuple rid) fun tuple? t =>
      Has h [] held [] t ∧ tuple? = Slots.getTuple (h.slots rid.pageId) rid.slotNum := by
  refine openPage_leads hmem fun page hpage => closePage_leads ?_
  exact Program.meets_done fun t ht => ⟨ht, hpage.represents.getTuple_eq rid⟩

theorem markDelete_leads (table : TableOid) (hmem : rid.pageId ∈ h.pageIds) :
    Leads (Has h [] [] []) (markDelete table rid txn) fun txn' t =>
      Has (h.put rid.pageId (Slots.markDelete (h.slots rid.pageId) rid.slotNum).2) [] [] [] t ∧
        txn' = { txn with tableWriteSet := txn.tableWriteSet ++
          [{ rid, wtype := .delete, tuple := [], table }] } := by
  refine openPage_leads hmem fun page hpage => ?_
  obtain ⟨-, hslots, hlinks⟩ := hpage.represents.markDelete_spec rid
  refine leavePage_leads hmem ?_ (hpage.put hslots hlinks) ?_
  · exact fun _ hnone => by cases hnone
  · exact Program.meets_done fun t ht => ⟨ht, rfl⟩

theorem updateTuple_leads (table : TableOid) (hmem : rid.pageId ∈ h.pageIds) (hne : tuple ≠ []) :
    Leads (Has h [] [] []) (updateTuple table tuple rid txn) fun result t =>
      match Slots.update (h.slots rid.pageId) rid.slotNum tuple with
      | none => Has h [] [] [] t ∧ result = (false, txn)
      | some (oldTuple, slots) => Has (h.put rid.pageId slots) [] [] [] t ∧
          result = (true, if txn.state ≠ .aborted then { txn with tableWriteSet :=
            txn.tableWriteSet ++ [{ rid, wtype := .update, tuple := oldTuple, table }] }
            else txn) := by
  have hpos := List.length_pos_iff.mpr hne
  refine openPage_leads hmem fun page hpage => ?_
  cases hupdate : Slots.update (h.slots rid.pageId) rid.slotNum tuple with
  | none =>
      rw [hpage.represents.updateTuple_of_none hpos hupdate]
      change Leads _ (PoolM.unpinPage (getTablePageId page) false >>= fun _ => _) _
      rw [hpage.id]
      exact closePage_leads (Program.meets_done fun t ht => ⟨ht, rfl⟩)
  | some replaced =>
      obtain ⟨oldTuple, slots⟩ := replaced
      obtain ⟨page', hpage', hslots, hlinks⟩ := hpage.represents.updateTuple_of_some hpos hupdate
      rw [hpage']
      refine leavePage_leads hmem ?_ (hpage.put hslots hlinks) ?_
      · exact fun _ hnone => by cases hnone
      · by_cases hstate : txn.state = .aborted
        · rw [if_neg (not_not.mpr hstate)]
          exact Program.meets_done fun t ht => ⟨ht, by rw [if_neg (not_not.mpr hstate)]⟩
        · rw [if_pos hstate]
          exact Program.meets_done fun t ht => ⟨ht, by rw [if_pos hstate]⟩

theorem applyDelete_leads (hmem : rid.pageId ∈ h.pageIds)
    (happly : Slots.applyDelete (h.slots rid.pageId) rid.slotNum = .ok slots) :
    Leads (Has h [] [] []) (applyDelete rid) fun _ => Has (h.put rid.pageId slots) [] [] [] := by
  refine openPage_leads hmem fun page hpage => ?_
  obtain ⟨page', hpage', hslots, hlinks⟩ := hpage.represents.applyDelete_of_ok happly
  have hend : Leads (Has (h.put rid.pageId slots) [] [] []) (pure ())
      fun _ => Has (h.put rid.pageId slots) [] [] [] := Program.meets_done fun t ht => ht
  rw [hpage']
  exact leavePage_leads hmem (fun _ hnone => (List.not_mem_nil hnone).elim)
    (hpage.put hslots hlinks) hend

theorem rollbackDelete_leads (hmem : rid.pageId ∈ h.pageIds)
    (hrollback : Slots.rollbackDelete (h.slots rid.pageId) rid.slotNum = .ok slots) :
    Leads (Has h [] [] []) (rollbackDelete rid) fun _ => Has (h.put rid.pageId slots) [] [] [] := by
  refine openPage_leads hmem fun page hpage => ?_
  obtain ⟨page', hpage', hslots, hlinks⟩ := hpage.represents.rollbackDelete_of_ok hrollback
  have hend : Leads (Has (h.put rid.pageId slots) [] [] []) (pure ())
      fun _ => Has (h.put rid.pageId slots) [] [] [] := Program.meets_done fun t ht => ht
  rw [hpage']
  exact leavePage_leads hmem (fun _ hnone => (List.not_mem_nil hnone).elim)
    (hpage.put hslots hlinks) hend

/-! ## Insertion -/

section Insertion

variable {h' : TableSlots} {before after : List PageId} {cur : PageId} {table : TableHeap}

/-- A new page is put behind the last one of the chain, with the link to it. -/
theorem growChain_leads {α : Type} {next : PageId → HeapM α} {post : α → TrackedPool → Prop}
    (hok : h.Ok first) (hids : h.pageIds = before ++ [cur]) (hnonneg : 0 ≤ h.nextPageId)
    (hpage : PageOf h cur page)
    (hnext : Leads (Has h.grow [] [h.nextPageId] [h.nextPageId]) (next h.nextPageId) post) :
    Leads (Has h [] [cur] []) (do
      let newPageId ← newPage
      let newPage ← readTablePage newPageId
      let curPage := setNextPageId page newPageId
      storeTablePage cur curPage
      storeTablePage newPageId (init newPage newPageId pageSize (getTablePageId curPage))
      PoolM.unpinPage (getTablePageId curPage) true
      next newPageId) post := by
  have hnew := hok.not_mem_next hnonneg
  have hcur : cur ∈ h.pageIds := by simp [hids]
  have hne : cur ≠ h.nextPageId := fun heq => hnew (heq ▸ hcur)
  have hmem : h.nextPageId ∈ h.grow.pageIds :=
    List.mem_append_right _ (List.mem_singleton_self _)
  have hlow : (-2 ^ 31 : Int) ≤ h.nextPageId := hok.next.1
  have hcurNext : PageOf h.grow cur (setNextPageId page h.nextPageId) := by
    refine ⟨hpage.represents.congr_below fun a ha _ => setNextPageId_apply ha, ?_, ?_⟩
    · rw [getTablePageId_setNextPageId, hpage.id]
    · rw [getNextPageId_setNextPageId _ hlow hok.next.2, hok.behind_grow hcur, hok.behind_eq hids]
      rfl
  refine (newPage_leads [h.nextPageId, cur] List.mem_cons_self ?_).bind
    fun newPageId => ?_
  · intro other hother hready
    simp only [List.mem_cons, List.not_mem_nil, or_false, not_or] at hready
    refine ⟨hready.1, ?_⟩
    obtain ⟨front, hsplit⟩ := hok.exists_split hother
    rw [hok.behind_grow hother]
    cases hbehind : h.behind other with
    | nil =>
        rw [hbehind, hids] at hsplit
        exact absurd (List.append_inj' hsplit rfl).2 (by simpa using Ne.symm hready.2)
    | cons following rest => rfl
  · refine Program.meets_of_fact fun hid => ?_
    subst hid
    refine (readTablePage_leads hmem List.mem_cons_self).bind fun newPage => ?_
    refine Program.meets_of_fact fun _ => ?_
    refine (storeTablePage_leads (h.grow.slots cur) (List.mem_append_left _ hcur)
      (List.mem_cons_of_mem _ (List.mem_singleton_self _)) ?_).bind fun _ => ?_
    · rw [TableSlots.put_self]
      exact hcurNext
    have hpending : [h.nextPageId, cur].filter (· ≠ cur) = [h.nextPageId] := by
      simp [Ne.symm hne]
    rw [TableSlots.put_self, hpending]
    refine (storeTablePage_leads (h.grow.slots h.nextPageId) hmem List.mem_cons_self
      ?_).bind fun _ => ?_
    · rw [TableSlots.put_self]
      have hslots : h.grow.slots h.nextPageId = [] := hok.outside _ hnew
      refine ⟨?_, getTablePageId_init _ _ hlow hok.next.2, ?_⟩
      · rw [hslots]
        exact represents_init _ _ _
      · have hids' : h.grow.pageIds = h.pageIds ++ h.nextPageId :: [] := rfl
        rw [getNextPageId_init, TableSlots.behind_of_split hids' hnew]
        rfl
    have hnone : [h.nextPageId].filter (· ≠ h.nextPageId) = [] := by simp
    rw [TableSlots.put_self, hnone, hcurNext.id]
    refine Program.Meets.bind (unpinPage_leads [h.nextPageId] ?_ ?_ ?_) fun _ => ?_
    · exact fun hfalse => by cases hfalse
    · intro _
      rw [List.count_cons_of_ne hne.symm, List.count_singleton_self]
    · intro other hother
      rw [List.mem_singleton] at hother
      simp only [List.mem_cons, List.not_mem_nil, or_false, not_or, and_true]
      tauto
    · have herase : [h.nextPageId, cur].erase cur = [h.nextPageId] := by
        rw [List.erase_cons_tail (by simpa using hne.symm), List.erase_cons_head]
      rw [herase]
      exact hnext

/-- The loop of `InsertTuple`, with the pages before the current one full. Only a new page has
changed when the loop comes to it, and a new page has room. -/
theorem insertLoop_leads (hok : h.Ok first) (hids : h.pageIds = before ++ cur :: after)
    (hfull : ∀ other ∈ before, Slots.insert (h.slots other) tuple = none) (hne : tuple ≠ [])
    (hdirty : ∀ other ∈ dirty, other = cur)
    (hroom : Slots.insert (h.slots cur) tuple = none → dirty = []) {fuel : Nat}
    (hfuel : after.length + 2 ≤ fuel ∨ 0 < fuel ∧ Slots.insert (h.slots cur) tuple ≠ none)
    (hinsert : h.insert tuple = .ok (rid, h')) :
    Leads (Has h [] [cur] dirty) (insertLoop tuple fuel cur) fun result t =>
      Has h' [] [] [] t ∧ result = rid := by
  have hpos := List.length_pos_iff.mpr hne
  induction fuel generalizing h before cur after dirty with
  | zero => omega
  | succ fuel ih =>
      have hmem : cur ∈ h.pageIds := by simp [hids]
      unfold insertLoop
      refine (readTablePage_leads hmem (List.mem_singleton_self _)).bind fun page => ?_
      refine Program.meets_of_fact fun hready => ?_
      have hpage := hready List.not_mem_nil
      cases hplace : Slots.insert (h.slots cur) tuple with
      | some placed =>
          obtain ⟨i, slots⟩ := placed
          rw [insert_of_room hids hfull hne hplace] at hinsert
          cases hinsert
          obtain ⟨page', hpage', hslots, hlinks⟩ :=
            hpage.represents.insertTuple_of_some hpos hplace
          rw [hpage', hpage.id]
          exact leavePage_leads hmem hdirty (hpage.put hslots hlinks)
            (Program.meets_done fun t ht => ⟨ht, rfl⟩)
      | none =>
          obtain rfl := hroom hplace
          have hfull' : ∀ other ∈ before ++ [cur], Slots.insert (h.slots other) tuple = none := by
            intro other hother
            rcases List.mem_append.mp hother with hbefore | hlast
            · exact hfull other hbefore
            · rwa [List.mem_singleton.mp hlast]
          have hlength : after.length + 2 ≤ fuel + 1 :=
            hfuel.resolve_right fun hsome => hsome.2 hplace
          rw [hpage.represents.insertTuple_of_none hpos hplace, lift_bind]
          dsimp only
          rw [hpage.next, hok.behind_eq hids]
          cases after with
          | cons next rest =>
              have hnext : next ∈ h.pageIds := by simp [hids]
              have hvalid : next ≠ invalidPageId := by
                rintro rfl
                exact absurd (hok.bounds _ hnext).1 (by decide)
              rw [List.headD_cons, if_pos hvalid, hpage.id]
              refine closePage_leads ?_
              refine (fetchPage_leads hnext).bind fun _ => ?_
              have hsplit : h.pageIds = (before ++ [cur]) ++ next :: rest := by simp [hids]
              rw [List.length_cons] at hlength
              refine ih hok hsplit hfull' (fun _ hnone => by cases hnone) (fun _ => rfl) ?_ hinsert
              exact Or.inl (by omega)
          | nil =>
              rw [List.headD_nil, if_neg (not_not.mpr rfl)]
              rw [← hids] at hfull'
              obtain ⟨hnonneg, i, slots, hplace', rfl, rfl⟩ :=
                insert_of_full hfull' hne hinsert
              have hsome : Slots.insert (h.grow.slots h.nextPageId) tuple = some (i, slots) :=
                hplace'
              have hgrown : h.grow.pageIds = h.pageIds ++ h.nextPageId :: [] := rfl
              refine growChain_leads hok hids hnonneg hpage ?_
              refine ih (hok.grow hnonneg) hgrown hfull' ?_ ?_ ?_ ?_
              · exact fun other hother => List.mem_singleton.mp hother
              · intro hnone
                rw [hsome] at hnone
                cases hnone
              · rw [List.length_nil] at hlength
                exact Or.inr ⟨by omega, by rw [hsome]; exact Option.some_ne_none _⟩
              · exact insert_of_room hgrown hfull' hne hsome

/-- `InsertTuple` of a tuple that is not rejected for its size. -/
theorem insertTuple_leads (hok : h.Ok table.firstPageId)
    (hsize : ¬ pageSize < toUInt32 (tuple.length + 32)) {fuel : Nat}
    (hfuel : h.pageIds.length + 1 ≤ fuel) (hinsert : h.insert tuple = .ok (rid, h')) :
    Leads (Has h [] [] []) (insertTuple fuel table tuple txn) fun result t =>
      Has h' [] [] [] t ∧ result = (some rid, { txn with tableWriteSet := txn.tableWriteSet ++
        [{ rid, wtype := .insert, tuple := [], table := table.oid }] }) := by
  have hne : tuple ≠ [] := by
    rintro rfl
    unfold TableSlots.insert at hinsert
    rw [if_pos rfl] at hinsert
    cases hinsert
  obtain ⟨after, hids⟩ : ∃ after, h.pageIds = [] ++ table.firstPageId :: after := by
    have hhead := hok.head
    cases hids : h.pageIds with
    | nil =>
        rw [hids] at hhead
        cases hhead
    | cons head after =>
        rw [hids, List.head?_cons, Option.some.injEq] at hhead
        exact ⟨after, by rw [hhead, List.nil_append]⟩
  have hlength : after.length + 2 ≤ fuel := by
    rw [hids, List.nil_append, List.length_cons] at hfuel
    omega
  unfold insertTuple
  rw [if_neg hsize]
  refine (fetchPage_leads (by simp [hids])).bind fun _ => ?_
  refine Program.Meets.bind (insertLoop_leads hok hids (fun _ hnone => by cases hnone) hne
    (fun _ hnone => by cases hnone) (fun _ => rfl) (Or.inl hlength) hinsert) fun result => ?_
  refine Program.meets_done fun t ht => ?_
  obtain ⟨ht, rfl⟩ := ht
  exact ⟨ht, rfl⟩

end Insertion

/-! ## Iterators -/

section Iterators

open TableIterator (endRid)
open TableHeap (liveRows pageRows liveRows_cons headRid find?_live_rows rows_cons)
open TableSlots (arrive)

variable {before after ids : List PageId} {rows : List (RID × Tuple)} {fuel : Nat}

theorem ne_invalid (hok : h.Ok first) (hmem : pageId ∈ h.pageIds) : pageId ≠ invalidPageId := by
  rintro rfl
  exact absurd (hok.bounds _ hmem).1 (by decide)

/-- A page of the table leads to its first row. -/
theorem PageOf.getFirstTupleRid (hpage : PageOf h pageId page) :
    TablePage.getFirstTupleRid page = (pageRows h.slots pageId 0).head?.map Prod.fst := by
  have hfound := find?_live_rows hpage.represents hpage.id 0
  rwa [Nat.sub_zero] at hfound

/-- The loop of `Begin` stops at the first row of the pages that are left. -/
theorem firstRid_leads (hok : h.Ok first) (hids : h.pageIds = before ++ ids)
    (hfuel : ids.length < fuel) :
    Leads (Has h [] [] []) (firstRid fuel (ids.headD invalidPageId)) fun rid t =>
      Has h [] [] [] t ∧ rid = headRid (liveRows h.slots ids) := by
  induction ids generalizing before fuel with
  | nil =>
      obtain ⟨fuel, rfl⟩ := Nat.exists_eq_add_of_lt hfuel
      exact Program.meets_done fun t ht => ⟨ht, rfl⟩
  | cons pageId rest ih =>
      obtain ⟨fuel, rfl⟩ : ∃ n, fuel = n + 1 := ⟨fuel - 1, by omega⟩
      rw [List.length_cons] at hfuel
      have hmem : pageId ∈ h.pageIds := by simp [hids]
      rw [List.headD_cons, firstRid, if_neg (ne_invalid hok hmem)]
      refine openPage_leads hmem fun page hpage => closePage_leads ?_
      rw [hpage.getFirstTupleRid, liveRows_cons]
      cases hrows : pageRows h.slots pageId 0 with
      | nil =>
          have hids' : h.pageIds = (before ++ [pageId]) ++ rest := by simp [hids]
          have hnext : getNextPageId page = rest.headD invalidPageId := by
            rw [hpage.next, hok.behind_eq hids]
          rw [hnext]
          exact ih hids' (by omega)
      | cons row others => exact Program.meets_done fun t ht => ⟨ht, rfl⟩

/-- The loop of `operator++` over the pages behind the current one, of which the last that it
comes to is pinned. -/
theorem ridBehind_leads {cur : PageId} (hok : h.Ok first)
    (hids : h.pageIds = before ++ cur :: after) (hfuel : after.length < fuel) :
    Leads (Has h [] [cur] []) (ridBehind fuel cur) fun result t =>
      Has h [] [result.2] [] t ∧ result.1 = headRid (liveRows h.slots after) ∧
        result.2 ∈ h.pageIds := by
  induction fuel generalizing before cur after with
  | zero => omega
  | succ fuel ih =>
      have hmem : cur ∈ h.pageIds := by simp [hids]
      unfold ridBehind
      refine (readTablePage_leads hmem (List.mem_singleton_self _)).bind fun page => ?_
      refine Program.meets_of_fact fun hready => ?_
      have hpage := hready List.not_mem_nil
      dsimp only
      rw [hpage.next, hok.behind_eq hids]
      cases after with
      | nil =>
          rw [List.headD_nil, if_pos rfl]
          exact Program.meets_done fun t ht => ⟨ht, rfl, hmem⟩
      | cons next rest =>
          have hnext : next ∈ h.pageIds := by simp [hids]
          have hne : next ≠ cur := by
            rintro rfl
            have hnodup := hok.nodup
            rw [hids, List.nodup_append, List.nodup_cons] at hnodup
            exact hnodup.2.1.1 List.mem_cons_self
          rw [List.headD_cons, if_neg (ne_invalid hok hnext), hpage.id]
          refine (fetchPage_leads hnext).bind fun _ => ?_
          refine Program.Meets.bind (unpinPage_leads [] (fun _ => List.not_mem_nil)
            (fun htrue => by cases htrue) fun _ hnot => Or.inl hnot) fun _ => ?_
          have herase : [next, cur].erase cur = [next] := by
            rw [List.erase_cons_tail (by simpa using hne), List.erase_cons_head]
          rw [herase]
          refine (readTablePage_leads hnext (List.mem_singleton_self _)).bind fun nextPage => ?_
          refine Program.meets_of_fact fun hready' => ?_
          rw [(hready' List.not_mem_nil).getFirstTupleRid, liveRows_cons]
          cases hrows : pageRows h.slots next 0 with
          | nil =>
              have hids' : h.pageIds = (before ++ [cur]) ++ next :: rest := by simp [hids]
              rw [List.length_cons] at hfuel
              exact ih hids' (by omega)
          | cons row others => exact Program.meets_done fun t ht => ⟨ht, rfl, hnext⟩

/-- The record id that `operator++` goes to. -/
theorem nextRid_leads (hok : h.Ok first) (hmem : rid.pageId ∈ h.pageIds)
    (hfuel : h.pageIds.length < fuel) :
    Leads (Has h [] [rid.pageId] []) (nextRid fuel rid) fun result t =>
      Has h [] [result.2] [] t ∧
        result.1 = headRid (pageRows h.slots rid.pageId (rid.slotNum + 1) ++
          liveRows h.slots (h.behind rid.pageId)) ∧ result.2 ∈ h.pageIds := by
  obtain ⟨before, hids⟩ := hok.exists_split hmem
  unfold nextRid
  refine (readTablePage_leads hmem (List.mem_singleton_self _)).bind fun page => ?_
  refine Program.meets_of_fact fun hready => ?_
  have hpage := hready List.not_mem_nil
  have hfound : TablePage.getNextTupleRid page rid = _ :=
    find?_live_rows hpage.represents hpage.id (rid.slotNum + 1)
  rw [hfound]
  cases hrows : pageRows h.slots rid.pageId (rid.slotNum + 1) with
  | nil =>
      have hlength := congrArg List.length hids
      rw [List.length_append, List.length_cons] at hlength
      exact ridBehind_leads hok hids (by omega)
  | cons row others => exact Program.meets_done fun t ht => ⟨ht, rfl, hmem⟩

/-- A row is on a page of the table, with its tuple. -/
def InTable (h : TableSlots) (row : RID × Tuple) : Prop :=
  row.1.pageId ∈ h.pageIds ∧ Slots.getTuple (h.slots row.1.pageId) row.1.slotNum = some row.2

theorem headRid_ne_end (hok : h.Ok first) {row : RID × Tuple} (hrow : InTable h row) :
    (headRid (row :: rows)).pageId ≠ invalidPageId := ne_invalid hok hrow.1

/-- The tuple at the first of the rows, read through a pin of its own. -/
theorem tupleAt_leads (hok : h.Ok first) (hhead : ∀ row ∈ rows.head?, InTable h row) :
    Leads (Has h [] held []) (tupleAt (headRid rows)) fun tuple? t =>
      Has h [] held [] t ∧ tuple? = rows.head?.map Prod.snd := by
  unfold tupleAt
  cases rows with
  | nil => exact Program.meets_done fun t ht => ⟨ht, rfl⟩
  | cons row others =>
      have hrow := hhead row rfl
      have hne : headRid (row :: others) ≠ endRid :=
        fun hend => headRid_ne_end hok hrow (congrArg RID.pageId hend)
      rw [if_pos hne]
      refine (getTuple_leads hrow.1).mono (fun t ht => ht) fun tuple? t ht => ?_
      exact ⟨ht.1, ht.2.trans hrow.2⟩

/-- `operator++` from a page of the table. -/
theorem advance_leads {it : TableIterator} (hok : h.Ok first) (hmem : it.rid.pageId ∈ h.pageIds)
    (hfuel : h.pageIds.length < fuel) :
    Leads (Has h [] [] []) (advance fuel it) fun next t => Has h [] [] [] t ∧
      next = arrive (pageRows h.slots it.rid.pageId (it.rid.slotNum + 1) ++
        liveRows h.slots (h.behind it.rid.pageId)) it.tuple := by
  obtain ⟨before, hids⟩ := hok.exists_split hmem
  have hbehind := nextRid_leads hok hmem hfuel
  generalize hrows : pageRows h.slots it.rid.pageId (it.rid.slotNum + 1) ++
    liveRows h.slots (h.behind it.rid.pageId) = rows at hbehind ⊢
  have hhead : ∀ row ∈ rows.head?, InTable h row := by
    intro row hrow
    cases rows with
    | nil => cases hrow
    | cons first rest =>
        cases hrow
        obtain ⟨before', after', hids', htuple, -⟩ := rows_cons hids hrows
        exact ⟨by simp [hids'], htuple⟩
  unfold advance
  refine (fetchPage_leads hmem).bind fun _ => ?_
  refine Program.Meets.bind hbehind fun result => ?_
  obtain ⟨rid, last⟩ := result
  refine Program.meets_of_fact fun hresult => ?_
  obtain ⟨rfl, hlast⟩ := hresult
  refine Program.Meets.bind (tupleAt_leads hok hhead) fun tuple? => ?_
  refine Program.meets_of_fact fun htuple => ?_
  refine (readTablePage_leads hlast (List.mem_singleton_self _)).bind fun page => ?_
  refine Program.meets_of_fact fun hready => ?_
  rw [(hready List.not_mem_nil).id, htuple]
  exact closePage_leads (Program.meets_done fun t ht => ⟨ht, rfl⟩)

/-- `Begin`. -/
theorem first_leads {table : TableHeap} (hok : h.Ok table.firstPageId)
    (hfuel : h.pageIds.length < fuel) :
    Leads (Has h [] [] []) (PagedHeap.first fuel table) fun it t => Has h [] [] [] t ∧
      it = arrive (liveRows h.slots h.pageIds) [] := by
  obtain ⟨after, hids⟩ : ∃ after, h.pageIds = table.firstPageId :: after :=
    List.head?_eq_some_iff.mp hok.head
  have hfirst := firstRid_leads hok (List.nil_append h.pageIds).symm hfuel
  have hhead : h.pageIds.headD invalidPageId = table.firstPageId := by rw [hids, List.headD_cons]
  rw [hhead] at hfirst
  generalize hrows : liveRows h.slots h.pageIds = rows at hfirst ⊢
  refine Program.Meets.bind hfirst fun rid => ?_
  refine Program.meets_of_fact fun hrid => ?_
  subst hrid
  unfold ofRid
  cases rows with
  | nil => exact Program.meets_done fun t ht => ⟨ht, rfl⟩
  | cons row others =>
      have hrow : InTable h row := by
        have hsplit : h.pageIds = [] ++ table.firstPageId :: after := hids
        rw [hids, liveRows_cons] at hrows
        obtain ⟨before', after', hids', htuple, -⟩ := rows_cons hsplit hrows
        exact ⟨by simp [hids'], htuple⟩
      rw [if_pos (headRid_ne_end hok hrow)]
      refine Program.Meets.bind (getTuple_leads hrow.1) fun tuple? => ?_
      refine Program.meets_of_fact fun htuple => ?_
      rw [htuple.trans hrow.2]
      exact Program.meets_done fun t ht => ⟨ht, rfl⟩

end Iterators

end BusTub.PagedHeap
