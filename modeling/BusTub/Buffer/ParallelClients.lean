import BusTub.Buffer.Coherence
import BusTub.Buffer.FlushedPages
import BusTub.Buffer.ParallelBufferPoolManager

/-! # Clients of the parallel buffer pool

The instances of a parallel pool write to one file. What an instance writes there are pages of
its own remainder, so none of them takes away what another has stored; a page that was written
is seen by every later `FetchPage`, through whatever instance. A page without pins is on the
disk, so a restart loses no more than the pages that are pinned when it happens.
-/

namespace BusTub

/-- A parallel pool with its clients. A pin is on a page of the instance it is listed under. -/
structure ParallelClients (n poolSize : Nat) where
  pool : ParallelBufferPoolManager n poolSize
  pins : Fin n → List (Pin poolSize) := fun _ => []
  nextHandle : Nat := 0
  /-- The contents that were last written to a page, if any are known. -/
  lastWritten : PageId → Option PageData := fun _ => none

namespace ParallelBufferPoolManager

variable {n poolSize : Nat}

/-- The loop of `FlushAllPgsImp` over these instances; `orders` are the orders in which their
page tables are iterated. -/
def flushAllPgs (orders : Fin n → List PageId) : List (Fin n) →
    ParallelBufferPoolManager n poolSize → Except PoolFault (ParallelBufferPoolManager n poolSize)
  | [], p => .ok p
  | i :: rest, p => do
      let (_, p) ← p.onInstance i fun b => do
        let b ← BufferPoolManagerInstance.flushAllPgsImp (orders i) b
        .ok ((), b)
      flushAllPgs orders rest p

end ParallelBufferPoolManager

namespace ParallelClients

open ParallelBufferPoolManager (getBufferPoolManager create flushAllPgs)

variable {n poolSize : Nat} [NeZero n]

/-- What a client does, and a restart of the system. A pin is named by its instance and handle. -/
inductive Event (n : Nat) where
  | newPage
  | fetchPage (pageId : PageId)
  | write (owner : Fin n) (handle : Nat) (data : PageData)
  | unpinPage (owner : Fin n) (handle : Nat) (isDirty : Bool)
  | flushPage (pageId : PageId)
  | flushAllPages (orders : Fin n → List PageId)
  | restart

/-- What a client gets: a new pin with the contents it sees, or a truth value. -/
inductive Outcome (n : Nat) where
  | pinned (result : Option (Fin n × Nat × PageData))
  | done (result : Bool)

/-- The clients of one instance, and what was written to its pages. -/
def clientsOf (s : ParallelClients n poolSize) (i : Fin n) : PoolClients poolSize where
  pool := s.pool.instanceAt i
  pins := s.pins i
  nextHandle := s.nextHandle
  lastWritten pageId := if getBufferPoolManager n pageId = i then s.lastWritten pageId else none

/-- The client gets a pin on the page. -/
def addPin (s : ParallelClients n poolSize) (pool : ParallelBufferPoolManager n poolSize)
    (pageId : PageId) (owner : Fin n) (frameId : Fin poolSize) :
    Outcome n × ParallelClients n poolSize :=
  (.pinned (some (owner, s.nextHandle, ((pool.bpmis owner).pages frameId).data)),
    { s with
      pool := pool
      pins := Function.update s.pins owner
        ({ handle := s.nextHandle, pageId := pageId, frameId := frameId } :: s.pins owner)
      nextHandle := s.nextHandle + 1 })

/-- The page has no known contents any more. -/
def forget (s : ParallelClients n poolSize) (pageId : PageId) : ParallelClients n poolSize :=
  { s with lastWritten := Function.update s.lastWritten pageId none }

def findPin (s : ParallelClients n poolSize) (owner : Fin n) (handle : Nat) :
    Option (Pin poolSize) :=
  (s.pins owner).find? (fun pin => pin.handle = handle)

/-- The client copies `data` over the page that its pin points to. -/
def writePage (s : ParallelClients n poolSize) (owner : Fin n) (pin : Pin poolSize)
    (data : PageData) : ParallelClients n poolSize :=
  { s with
    pool := { s.pool with
      bpmis := Function.update s.pool.bpmis owner ((s.pool.instanceAt owner).setPage pin.frameId
        { (s.pool.bpmis owner).pages pin.frameId with data := data }) }
    pins := Function.update s.pins owner ((s.pins owner).map fun other =>
      if other.handle = pin.handle then { other with wrote := true } else other)
    lastWritten := Function.update s.lastWritten pin.pageId (some data) }

/-- The pin is gone. -/
def dropPin (s : ParallelClients n poolSize) (pool : ParallelBufferPoolManager n poolSize)
    (owner : Fin n) (handle : Nat) : ParallelClients n poolSize :=
  { s with
    pool := pool
    pins := Function.update s.pins owner
      ((s.pins owner).eraseP fun pin => pin.handle = handle) }

/-- No client has the page pinned. -/
def Unpinned (s : ParallelClients n poolSize) (pageId : PageId) : Prop :=
  ∀ i, ∀ pin ∈ s.pins i, pin.pageId ≠ pageId

instance (s : ParallelClients n poolSize) : DecidablePred s.Unpinned := fun pageId =>
  inferInstanceAs (Decidable (∀ i, ∀ pin ∈ s.pins i, pin.pageId ≠ pageId))

/-- A new pool on the file that the old one leaves. A page that was pinned may be lost. -/
def restarted (s : ParallelClients n poolSize) : ParallelClients n poolSize where
  pool := create n poolSize { s.pool.diskManager with failed := false }
  nextHandle := s.nextHandle
  lastWritten pageId := if s.Unpinned pageId then s.lastWritten pageId else none

/-- One call of the pool, one write, or a restart. A page that `NewPage` hands out has nothing
written to it. -/
def step (s : ParallelClients n poolSize) :
    Event n → Except PoolClients.Fault (Outcome n × ParallelClients n poolSize)
  | .newPage =>
      match s.pool.newPg with
      | .error fault => .error (.pool fault)
      | .ok (none, pool) => .ok (.pinned none, { s with pool := pool })
      | .ok (some (pageId, owner, frameId), pool) =>
          .ok ((s.forget pageId).addPin pool pageId owner frameId)
  | .fetchPage pageId =>
      match s.pool.fetchPg pageId with
      | .error fault => .error (.pool fault)
      | .ok (none, pool) => .ok (.pinned none, { s with pool := pool })
      | .ok (some (owner, frameId), pool) => .ok (s.addPin pool pageId owner frameId)
  | .write owner handle data =>
      match s.findPin owner handle with
      | none => .error .notPinned
      | some pin => .ok (.done true, s.writePage owner pin data)
  | .unpinPage owner handle isDirty =>
      match s.findPin owner handle with
      | none => .error .notPinned
      | some pin =>
          match s.pool.unpinPg pin.pageId isDirty with
          | .error fault => .error (.pool fault)
          | .ok (result, pool) => .ok (.done result, s.dropPin pool owner handle)
  | .flushPage pageId =>
      match s.pool.flushPg pageId with
      | .error fault => .error (.pool fault)
      | .ok (result, pool) => .ok (.done result, { s with pool := pool })
  | .flushAllPages orders =>
      match flushAllPgs orders (List.finRange n) s.pool with
      | .error fault => .error (.pool fault)
      | .ok pool => .ok (.done true, { s with pool := pool })
  | .restart => .ok (.done true, s.restarted)

/-- The parallel pool and its clients as a machine. -/
def machine (n poolSize : Nat) [NeZero n] :
    Machine (ParallelClients n poolSize) (Event n) (Outcome n) PoolClients.Fault := ⟨step⟩

/-- A fresh pool on a file, of which some pages are known. -/
def start (n poolSize : Nat) [NeZero n] (diskManager : DiskManager)
    (known : PageId → Option PageData) : ParallelClients n poolSize where
  pool := create n poolSize diskManager
  lastWritten := known

end ParallelClients

/-! ## What one instance does to the file -/

namespace BufferPoolManagerInstance

open DiskManager (Addressable)

variable {poolSize : Nat} {b middle final : BufferPoolManagerInstance poolSize}
  {written : PageId → Option PageData} {frameId : Fin poolSize} {pageId : PageId}

/-- The file keeps what it stores of pages that are not resident. -/
structure SparesOthers (b final : BufferPoolManagerInstance poolSize) : Prop where
  disk : final.diskManager.Healthy
  stored : ∀ other data, Addressable other → b.pageTable other = none →
    b.diskManager.Stored other data → final.diskManager.Stored other data

theorem SparesOthers.of_same (hdisk : b.diskManager.Healthy)
    (hsame : final.diskManager = b.diskManager) : b.SparesOthers final where
  disk := hsame ▸ hdisk
  stored _ _ _ _ hstored := hsame ▸ hstored

theorem SparesOthers.congr (h : b.SparesOthers middle)
    (hsame : final.diskManager = middle.diskManager) : b.SparesOthers final where
  disk := hsame ▸ h.disk
  stored other data haddr hnone hstored := hsame ▸ h.stored other data haddr hnone hstored

theorem SparesOthers.trans (h : b.SparesOthers middle) (hnext : middle.SparesOthers final)
    (htable : middle.pageTable = b.pageTable) : b.SparesOthers final where
  disk := hnext.disk
  stored other data haddr hnone hstored :=
    hnext.stored other data haddr (htable ▸ hnone) (h.stored other data haddr hnone hstored)

theorem Contents.sparesOthers_writeBack (h : b.Contents written)
    (hmapped : b.pageTable pageId = some frameId) :
    b.SparesOthers (b.writeBack frameId pageId) where
  disk := (h.writeBack hmapped).disk
  stored other data haddr hnone hstored := by
    refine h.stored_writeBack (h.addressable _ _ hmapped) hstored haddr ?_
    rintro rfl
    cases hnone.symm.trans hmapped

theorem Contents.sparesOthers_findFreshPage (h : b.Contents written) (hframes : b.Frames none)
    {result : Option (Fin poolSize)} (hok : b.findFreshPage = .ok (result, final)) :
    b.SparesOthers final := by
  rcases findFreshPage_spec hframes with
    ⟨f, rest, -, hresult⟩ | ⟨f, hfree, hvictim, hresult⟩ | ⟨-, -, hresult⟩
  · cases hresult.symm.trans hok
    exact .of_same h.disk rfl
  · cases hresult.symm.trans hok
    have hlast := (LRUReplacer.frames_victim (r := b.replacer)).1
    rw [hvictim] at hlast
    have hlru := (hframes.lru f).mp (List.mem_of_getLast? hlast.symm)
    have hmapped := (hframes.mapped _ f).mpr ⟨rfl, hlru.2⟩
    exact (h.sparesOthers_writeBack hmapped).congr rfl
  · cases hresult.symm.trans hok
    exact .of_same h.disk rfl

theorem Contents.sparesOthers_newPg (h : b.Contents written) (hframes : b.Frames none)
    {result : Option (PageId × Fin poolSize)} (hok : b.newPg = .ok (result, final)) :
    b.SparesOthers final := by
  rcases newPg_cases hok with ⟨-, hfresh⟩ | ⟨f, middle, hfresh, -, rfl⟩
  · exact h.sparesOthers_findFreshPage hframes hfresh
  · exact (h.sparesOthers_findFreshPage hframes hfresh).congr rfl

theorem Contents.sparesOthers_fetchPg (h : b.Contents written) (hframes : b.Frames none)
    (haddr : Addressable pageId) {result : Option (Fin poolSize)}
    (hok : b.fetchPg pageId = .ok (result, final)) : b.SparesOthers final := by
  rcases fetchPg_cases hok with ⟨f, -, -, rfl⟩ | ⟨-, -, hfresh⟩ | ⟨f, middle, -, hfresh, -, rfl⟩
  · exact .of_same h.disk rfl
  · exact h.sparesOthers_findFreshPage hframes hfresh
  · have hmiddle := h.sparesOthers_findFreshPage hframes hfresh
    exact hmiddle.congr (DiskManager.readPage_snd_of_healthy hmiddle.disk haddr _)

theorem Contents.sparesOthers_unpinPg (h : b.Contents written) {isDirty result : Bool}
    (hok : b.unpinPg pageId isDirty = .ok (result, final)) : b.SparesOthers final := by
  rcases unpinPg_cases hok with ⟨-, rfl, -⟩ | ⟨f, hmapped, -, -, ⟨-, rfl⟩ | ⟨-, rfl⟩⟩
  · exact .of_same h.disk rfl
  · have haddr := h.addressable _ _ hmapped
    have hdisk : (b.released f pageId isDirty).diskManager =
        if isDirty then b.diskManager.writePage pageId (b.pages f).data else b.diskManager := by
      simp [BufferPoolManagerInstance.released, BufferPoolManagerInstance.writeBack,
        BufferPoolManagerInstance.unpinned, BufferPoolManagerInstance.setPage]
    refine ⟨?_, fun other data hother hnone hstored => ?_⟩
    · rw [hdisk]
      split
      · exact h.disk.writePage haddr
      · exact h.disk
    · rw [hdisk]
      split
      · refine hstored.writePage_of_ne h.disk haddr hother ?_
        rintro rfl
        cases hnone.symm.trans hmapped
      · exact hstored
  · exact .of_same h.disk rfl

theorem Contents.sparesOthers_flushPgImp (h : b.Contents written) {result : Bool}
    (hok : b.flushPgImp pageId = .ok (result, final)) :
    b.SparesOthers final ∧ final.pageTable = b.pageTable := by
  rcases flushPgImp_cases hok with ⟨-, -, rfl⟩ | ⟨f, hmapped, -, rfl⟩
  · exact ⟨.of_same h.disk rfl, rfl⟩
  · exact ⟨(h.sparesOthers_writeBack hmapped).congr rfl, rfl⟩

/-- The flushes of `FlushAllPages`, one after the other. -/
theorem Contents.sparesOthers_flushAllPgsImp (h : b.Contents written) {ids : List PageId}
    (hok : flushAllPgsImp ids b = .ok final) : b.SparesOthers final := by
  induction ids generalizing b with
  | nil =>
      cases hok
      exact .of_same h.disk rfl
  | cons pageId rest ih =>
      obtain ⟨⟨result, middle⟩, hflush, hrest⟩ := Except.bind_eq_ok_iff.mp hok
      obtain ⟨hone, htable⟩ := h.sparesOthers_flushPgImp hflush
      exact hone.trans (ih (h.flushPgImp hflush) hrest) htable

end BufferPoolManagerInstance

namespace PoolClients

variable {poolSize : Nat} {s t : PoolClients poolSize}

theorem Coherent.flushAllPages (h : s.Coherent) {ids : List PageId}
    {pool : BufferPoolManagerInstance poolSize}
    (hok : BufferPoolManagerInstance.flushAllPgsImp ids s.pool = .ok pool) :
    ({ s with pool := pool } : PoolClients poolSize).Coherent := by
  induction ids generalizing s with
  | nil =>
      cases hok
      exact h
  | cons pageId rest ih =>
      obtain ⟨⟨result, middle⟩, hflush, hrest⟩ := Except.bind_eq_ok_iff.mp hok
      have hmiddle : ({ s with pool := middle } : PoolClients poolSize).Coherent :=
        h.flushPage hflush
      have hfinal := ih hmiddle hrest
      exact hfinal

/-- The clients' handles do not matter. -/
theorem Coherent.congr (h : s.Coherent) (hpool : t.pool = s.pool) (hpins : t.pins = s.pins)
    (hwritten : t.lastWritten = s.lastWritten) : t.Coherent where
  frames := hpool ▸ h.frames
  contents := hwritten ▸ hpool ▸ h.contents
  pins := hpins ▸ hpool ▸ h.pins

/-- The file is written to by others, who spare what these clients have stored. -/
theorem Coherent.of_disk (h : s.Coherent) {disk : DiskManager} (hdisk : disk.Healthy)
    (hpool : t.pool = { s.pool with diskManager := disk }) (hpins : t.pins = s.pins)
    (hwritten : t.lastWritten = s.lastWritten)
    (hstored : ∀ pageId data, s.lastWritten pageId = some data →
      s.pool.diskManager.Stored pageId data → disk.Stored pageId data) : t.Coherent := by
  refine ⟨?_, ?_, ?_⟩
  · rw [hpool]
    exact h.frames.congr rfl rfl rfl fun _ => ⟨rfl, rfl⟩
  · rw [hpool, hwritten]
    exact ⟨hdisk, h.contents.addressable, h.contents.writtenAddressable, h.contents.frame,
      fun pageId data hsome hpins => hstored pageId data hsome
        (h.contents.stored pageId data hsome hpins)⟩
  · rw [hpool, hpins]
    exact ⟨h.pins.counts, h.pins.mapped⟩

/-- A page may be written to by clients who never say what. -/
theorem Coherent.forget (h : s.Coherent) (pageId : PageId) :
    ({ s with lastWritten := Function.update s.lastWritten pageId none } :
      PoolClients poolSize).Coherent := by
  have hsome : ∀ other data, Function.update s.lastWritten pageId none other = some data →
      s.lastWritten other = some data := by
    intro other data hother
    by_cases heq : other = pageId
    · subst heq
      rw [Function.update_self] at hother
      cases hother
    · rwa [Function.update_of_ne heq] at hother
  refine ⟨h.frames, ⟨h.contents.disk, h.contents.addressable, ?_, ?_, ?_⟩, h.pins⟩
  · intro other data hother
    exact h.contents.writtenAddressable other data (hsome other data hother)
  · exact fun other data f hother => h.contents.frame other data f (hsome other data hother)
  · exact fun other data hother => h.contents.stored other data (hsome other data hother)

end PoolClients

/-! ## The instances -/

namespace ParallelBufferPoolManager

open DiskManager (Addressable)

variable {n poolSize : Nat} {p final : ParallelBufferPoolManager n poolSize} {i j : Fin n}
  {b : BufferPoolManagerInstance poolSize} {pageId : PageId}

/-- The pool after a call that has left its instance like this. -/
def put (p : ParallelBufferPoolManager n poolSize) (i : Fin n)
    (b : BufferPoolManagerInstance poolSize) : ParallelBufferPoolManager n poolSize :=
  { p with diskManager := b.diskManager, bpmis := Function.update p.bpmis i b }

@[simp] theorem instanceAt_put_self : (p.put i b).instanceAt i = b := by
  simp [put, instanceAt]

theorem instanceAt_put_of_ne (hne : j ≠ i) :
    (p.put i b).instanceAt j = { p.instanceAt j with diskManager := b.diskManager } := by
  simp [put, instanceAt, hne]

theorem onInstance_put {α : Type} {result : α}
    {call : BufferPoolManagerInstance poolSize →
      Except PoolFault (α × BufferPoolManagerInstance poolSize)}
    (hok : p.onInstance i call = .ok (result, final)) :
    ∃ b, call (p.instanceAt i) = .ok (result, b) ∧ final = p.put i b := by
  obtain ⟨⟨raw, b⟩, hcall, hfinal⟩ := Except.bind_eq_ok_iff.mp hok
  cases hfinal
  exact ⟨b, hcall, rfl⟩

theorem HomeOf.flushAllPgsImp (h : HomeOf n i b) {ids : List PageId}
    {final : BufferPoolManagerInstance poolSize}
    (hok : BufferPoolManagerInstance.flushAllPgsImp ids b = .ok final) : HomeOf n i final := by
  induction ids generalizing b with
  | nil =>
      cases hok
      exact h
  | cons pageId rest ih =>
      obtain ⟨⟨result, middle⟩, hflush, hrest⟩ := Except.bind_eq_ok_iff.mp hok
      exact ih (h.flushPgImp hflush).1 hrest

theorem isPageId_of_addressable {pageId : Int} (h : Addressable pageId) :
    0 ≤ pageId ∧ pageId < 2 ^ 31 := by
  obtain ⟨hnonneg, hbound⟩ := h
  unfold pageSize at hbound
  omega

/-- A page whose remainder is `i` is looked up in instance `i`. -/
theorem getBufferPoolManager_of_home [NeZero n] (haddr : Addressable pageId)
    (hhome : pageId % n = i) : getBufferPoolManager n pageId = i :=
  Fin.ext (Int.ofNat_inj.mp
    ((getBufferPoolManager_eq (isPageId_of_addressable haddr)).trans hhome))

end ParallelBufferPoolManager

/-! ## Runs -/

namespace ParallelClients

open BufferPoolManagerInstance ParallelBufferPoolManager
open DiskManager (Addressable)

variable {n poolSize : Nat} [NeZero n] {s final : ParallelClients n poolSize} {i : Fin n}

/-- Every page is with its own instance, and the clients of each are as they should be. -/
structure Coherent (s : ParallelClients n poolSize) : Prop where
  homed : s.pool.Homed
  clients : ∀ i, (s.clientsOf i).Coherent

/-- What is known of a page, the clients of its instance know. -/
theorem lastWritten_clientsOf (s : ParallelClients n poolSize) (pageId : PageId) :
    (s.clientsOf (getBufferPoolManager n pageId)).lastWritten pageId = s.lastWritten pageId :=
  if_pos rfl

theorem home_of_lastWritten {pageId : PageId} {data : PageData}
    (hwritten : (s.clientsOf i).lastWritten pageId = some data) :
    getBufferPoolManager n pageId = i ∧ s.lastWritten pageId = some data := by
  simp only [clientsOf] at hwritten
  split at hwritten
  next hhome => exact ⟨hhome, hwritten⟩
  next => cases hwritten

/-- A page is resident in its own instance. -/
theorem Coherent.home (h : s.Coherent) {pageId : PageId} {frameId : Fin poolSize}
    (hmapped : (s.pool.instanceAt i).pageTable pageId = some frameId) :
    getBufferPoolManager n pageId = i :=
  getBufferPoolManager_of_home ((h.clients i).contents.addressable _ _ hmapped)
    ((h.homed i).resident _ _ hmapped)

/-- A call of one instance, seen from the others: the file keeps what they have stored. -/
theorem Coherent.call (h : s.Coherent) {t : PoolClients poolSize} (ht : t.Coherent)
    (hhome : HomeOf n i t.pool) (hspares : (s.pool.instanceAt i).SparesOthers t.pool)
    (hdisk : final.pool.diskManager = t.pool.diskManager)
    (hbpmis : final.pool.bpmis = Function.update s.pool.bpmis i t.pool)
    (hpins : final.pins = Function.update s.pins i t.pins)
    (hself : (final.clientsOf i).lastWritten = t.lastWritten)
    (hothers : ∀ j ≠ i, (final.clientsOf j).lastWritten = (s.clientsOf j).lastWritten) :
    final.Coherent := by
  have hinstance : ∀ j, final.pool.instanceAt j = (s.pool.put i t.pool).instanceAt j := by
    intro j
    simp only [instanceAt, put, hdisk, hbpmis]
  refine ⟨h.homed.update hhome hbpmis, fun j => ?_⟩
  by_cases hj : j = i
  · subst hj
    refine ht.congr ((hinstance j).trans instanceAt_put_self) ?_ hself
    exact (congrFun hpins j).trans (Function.update_self _ _ _)
  · refine (h.clients j).of_disk hspares.disk ((hinstance j).trans (instanceAt_put_of_ne hj)) ?_
      (hothers j hj) ?_
    · exact (congrFun hpins j).trans (Function.update_of_ne hj _ _)
    · intro pageId data hwritten hstored
      -- the page belongs to instance `j`, so instance `i` does not have it
      have hnone : (s.pool.instanceAt i).pageTable pageId = none := by
        rw [Option.eq_none_iff_forall_ne_some]
        intro frameId hmapped
        exact hj ((home_of_lastWritten hwritten).1.symm.trans (h.home hmapped))
      exact hspares.stored pageId data
        ((h.clients j).contents.writtenAddressable pageId data hwritten) hnone hstored

theorem lastWritten_forget (s : ParallelClients n poolSize) (pageId : PageId) (j : Fin n) :
    ((s.forget pageId).clientsOf j).lastWritten =
      Function.update (s.clientsOf j).lastWritten pageId none := by
  funext other
  by_cases hother : other = pageId
  · subst hother
    simp [clientsOf, forget]
  · simp [clientsOf, forget, hother]

theorem Coherent.forget (h : s.Coherent) (pageId : PageId) : (s.forget pageId).Coherent where
  homed := h.homed
  clients j := ((h.clients j).forget pageId).congr rfl rfl (lastWritten_forget s pageId j)

/-- A call of one instance that changes no pin and no contents. -/
theorem Coherent.answered (h : s.Coherent) {b : BufferPoolManagerInstance poolSize}
    (hb : ({ s.clientsOf i with pool := b } : PoolClients poolSize).Coherent)
    (hhome : HomeOf n i b) (hspares : (s.pool.instanceAt i).SparesOthers b) :
    ({ s with pool := s.pool.put i b } : ParallelClients n poolSize).Coherent := by
  refine h.call hb hhome hspares rfl rfl ?_ rfl fun _ _ => rfl
  exact (Function.update_eq_self i s.pins).symm

/-- A call of one instance that gives a client a pin. -/
theorem Coherent.addPin (h : s.Coherent) {b : BufferPoolManagerInstance poolSize}
    {pageId : PageId} {frameId : Fin poolSize}
    (hb : ((s.clientsOf i).addPin b pageId frameId).2.Coherent)
    (hhome : HomeOf n i b) (hspares : (s.pool.instanceAt i).SparesOthers b) :
    (s.addPin (s.pool.put i b) pageId i frameId).2.Coherent :=
  h.call hb hhome hspares rfl rfl rfl rfl fun _ _ => rfl

/-- Page ids stay where an `int` can hold the file offsets and the counters, `NewPage` hands out
no page that is resident, and the last pin of a page is given back clean only when the last
contents are on the disk. -/
def KeepsWrites (s : ParallelClients n poolSize) : Event n → Prop
  | .newPage => ∀ pageId i frameId pool, s.pool.newPg = .ok (some (pageId, i, frameId), pool) →
      (s.pool.bpmis i).pageTable pageId = none ∧ Addressable pageId ∧
        0 ≤ (pool.bpmis i).nextPageId
  | .fetchPage pageId => Addressable pageId
  | .unpinPage owner handle isDirty => ∀ pin, s.findPin owner handle = some pin →
      ((s.pool.bpmis owner).pages pin.frameId).pinCount = 1 → isDirty = false →
        ∀ data, s.lastWritten pin.pageId = some data → s.pool.diskManager.Stored pin.pageId data
  | _ => True

/-- An instance without a frame is passed over, the next one is asked. -/
theorem Coherent.newPgLoop (h : s.Coherent) (hn : n ≤ 2 ^ 31) {fuel : Nat} {startIndex : Fin n}
    {result : Option (PageId × Fin n × Fin poolSize)} {pool : ParallelBufferPoolManager n poolSize}
    (hok : newPgLoop fuel startIndex s.pool = .ok (result, pool))
    (hguard : ∀ pageId i frameId, result = some (pageId, i, frameId) →
      (s.pool.bpmis i).pageTable pageId = none ∧ Addressable pageId ∧
        0 ≤ (pool.bpmis i).nextPageId) :
    (result = none → ({ s with pool := pool } : ParallelClients n poolSize).Coherent) ∧
    ∀ pageId i frameId, result = some (pageId, i, frameId) →
      ((s.forget pageId).addPin pool pageId i frameId).2.Coherent := by
  induction fuel generalizing s startIndex with
  | zero =>
      cases hok
      exact ⟨fun _ => h, fun _ _ _ hnot => nomatch hnot⟩
  | succ fuel ih =>
      obtain ⟨⟨page, middle⟩, hcall, hrest⟩ := Except.bind_eq_ok_iff.mp hok
      obtain ⟨b, hnew, rfl⟩ := onInstance_put hcall
      have hclients := h.clients startIndex
      have hspares := hclients.contents.sparesOthers_newPg hclients.frames hnew
      cases page with
      | some page =>
          obtain ⟨pageId, frameId⟩ := page
          cases hrest
          refine ⟨fun hnot => (nomatch hnot), ?_⟩
          rintro _ _ _ ⟨⟩
          obtain ⟨hnone, haddr, hlimit⟩ := hguard _ _ _ rfl
          have hcounter : 0 ≤ b.nextPageId := by
            simpa [put] using hlimit
          obtain ⟨hhome, hid, -⟩ := (h.homed.shared startIndex).newPg_some hn hnew hcounter
          have hforgotten := h.forget pageId
          refine hforgotten.addPin ?_ hhome hspares
          refine (((hforgotten.clients startIndex).newPage ?_ hnew).2 _ _ rfl).congr rfl rfl rfl
          intro f fresh hfresh
          have hnext := (findFreshPage_fresh hclients.frames hfresh).2.2
          have hsame : fresh.nextPageId = pageId := hnext.trans hid.symm
          rw [hsame]
          refine ⟨findFreshPage_unmapped hclients.frames hfresh hnone, haddr, ?_⟩
          rw [lastWritten_forget, Function.update_self]
      | none =>
          have hb : b = s.pool.instanceAt startIndex := by
            rcases newPg_cases hnew with ⟨-, hfresh⟩ | ⟨f, fresh, -, hnot, -⟩
            · exact findFreshPage_none hclients.frames hfresh
            · cases hnot
          have hmiddle : ({ s with pool := s.pool.put startIndex b } :
              ParallelClients n poolSize).Coherent :=
            h.answered (hb ▸ hclients) ((h.homed.shared startIndex).newPg_none hnew).1 hspares
          have htable : ∀ i, ((s.pool.put startIndex b).bpmis i).pageTable =
              (s.pool.bpmis i).pageTable := by
            intro i
            by_cases hi : i = startIndex
            · subst hi
              rw [hb]
              simp [put, instanceAt]
            · simp [put, hi]
          dsimp only at hrest
          split at hrest
          · have hfinal := ih hmiddle hrest fun pageId i frameId hsome => by
              rw [htable]
              exact hguard pageId i frameId hsome
            exact hfinal
          · cases hrest
            exact ⟨fun _ => hmiddle, fun _ _ _ hnot => nomatch hnot⟩

theorem Coherent.newPage (h : s.Coherent) (hn : n ≤ 2 ^ 31) (hguard : s.KeepsWrites .newPage)
    {result : Option (PageId × Fin n × Fin poolSize)} {pool : ParallelBufferPoolManager n poolSize}
    (hok : s.pool.newPg = .ok (result, pool)) :
    (result = none → ({ s with pool := pool } : ParallelClients n poolSize).Coherent) ∧
    ∀ pageId i frameId, result = some (pageId, i, frameId) →
      ((s.forget pageId).addPin pool pageId i frameId).2.Coherent := by
  obtain ⟨⟨found, middle⟩, hloop, hfinal⟩ := Except.bind_eq_ok_iff.mp hok
  cases hfinal
  have hmiddle := h.newPgLoop hn hloop fun pageId i frameId hsome => by
    have hallocated := hguard pageId i frameId _ (hsome ▸ hok)
    exact hallocated
  refine ⟨fun hnone => ?_, fun pageId i frameId hsome => ?_⟩
  · obtain ⟨hhomed, hclients⟩ := hmiddle.1 hnone
    exact ⟨hhomed, hclients⟩
  · obtain ⟨hhomed, hclients⟩ := hmiddle.2 pageId i frameId hsome
    exact ⟨hhomed, hclients⟩

theorem Coherent.fetchPage (h : s.Coherent) {pageId : PageId} (haddr : Addressable pageId)
    {result : Option (Fin n × Fin poolSize)} {pool : ParallelBufferPoolManager n poolSize}
    (hok : s.pool.fetchPg pageId = .ok (result, pool)) :
    (result = none → ({ s with pool := pool } : ParallelClients n poolSize).Coherent) ∧
    ∀ i frameId, result = some (i, frameId) → (s.addPin pool pageId i frameId).2.Coherent ∧
      ∀ data, s.lastWritten pageId = some data →
        ((pool.bpmis i).pages frameId).data = data := by
  obtain ⟨⟨raw, middle⟩, hcall, hfinal⟩ := Except.bind_eq_ok_iff.mp hok
  cases hfinal
  obtain ⟨b, hfetch, rfl⟩ := onInstance_put hcall
  have hvalid : IsPageId pageId := isPageId_of_addressable haddr
  have hclients := h.clients (getBufferPoolManager n pageId)
  have hhome := ((h.homed.shared (getBufferPoolManager n pageId)).fetchPg
    (getBufferPoolManager_eq hvalid).symm hfetch).1
  have hspares := hclients.contents.sparesOthers_fetchPg hclients.frames haddr hfetch
  obtain ⟨hanswered, hpinned⟩ := hclients.fetchPage haddr hfetch
  refine ⟨fun hnone => ?_, ?_⟩
  · exact h.answered (hanswered (Option.map_eq_none_iff.mp hnone)) hhome hspares
  · intro i frameId hsome
    obtain ⟨f, rfl, heq⟩ := Option.map_eq_some_iff.mp hsome
    cases heq
    refine ⟨h.addPin (hpinned frameId rfl) hhome hspares, fun data hwritten => ?_⟩
    have hshown := ((hclients.contents.fetchPg hclients.frames haddr hfetch).2 frameId rfl).2 data
      ((lastWritten_clientsOf s pageId).trans hwritten)
    simpa [put] using hshown

/-- What a pin's client writes. -/
theorem Coherent.write (h : s.Coherent) {pin : Pin poolSize} (hmem : pin ∈ s.pins i)
    (data : PageData) : (s.writePage i pin data).Coherent := by
  have hclients := h.clients i
  have hhome := h.home (hclients.pins.mapped pin hmem)
  refine h.call (hclients.write hmem data) ?_ (.of_same hclients.contents.disk rfl) rfl rfl rfl
    ?_ ?_
  · exact (h.homed.shared i).of_same rfl rfl rfl fun _ _ => Or.inl
  · funext other
    by_cases hother : other = pin.pageId
    · subst hother
      simp [clientsOf, writePage, PoolClients.writePage, hhome]
    · simp [clientsOf, writePage, PoolClients.writePage, hother]
  · intro j hj
    funext other
    by_cases hother : other = pin.pageId
    · subst hother
      simp [clientsOf, hhome, Ne.symm hj]
    · simp [clientsOf, writePage, hother]

theorem Coherent.unpinPage (h : s.Coherent) {handle : Nat} {pin : Pin poolSize}
    (hfind : s.findPin i handle = some pin) {isDirty result : Bool}
    (hguard : s.KeepsWrites (.unpinPage i handle isDirty))
    {pool : ParallelBufferPoolManager n poolSize}
    (hok : s.pool.unpinPg pin.pageId isDirty = .ok (result, pool)) :
    (s.dropPin pool i handle).Coherent := by
  have hclients := h.clients i
  have hmem : pin ∈ s.pins i := List.mem_of_find?_eq_some hfind
  have hhome := h.home (hclients.pins.mapped pin hmem)
  obtain ⟨b, hunpin, rfl⟩ := onInstance_put hok
  rw [hhome] at hunpin ⊢
  refine h.call (hclients.unpinPage hfind ?_ hunpin) ((h.homed.shared i).unpinPg hunpin).1
    (hclients.contents.sparesOthers_unpinPg hunpin) rfl rfl rfl rfl fun _ _ => rfl
  intro found hfound hone hclean data hwritten
  exact hguard found hfound hone hclean data (home_of_lastWritten hwritten).2

theorem Coherent.flushPage (h : s.Coherent) {pageId : PageId} {result : Bool}
    {pool : ParallelBufferPoolManager n poolSize}
    (hok : s.pool.flushPg pageId = .ok (result, pool)) :
    ({ s with pool := pool } : ParallelClients n poolSize).Coherent := by
  obtain ⟨b, hflush, rfl⟩ := onInstance_put hok
  have hclients := h.clients (getBufferPoolManager n pageId)
  exact h.answered (hclients.flushPage hflush) ((h.homed.shared _).flushPgImp hflush).1
    (hclients.contents.sparesOthers_flushPgImp hflush).1

theorem Coherent.flushAllPages (h : s.Coherent) {orders : Fin n → List PageId}
    {instances : List (Fin n)} {pool : ParallelBufferPoolManager n poolSize}
    (hok : flushAllPgs orders instances s.pool = .ok pool) :
    ({ s with pool := pool } : ParallelClients n poolSize).Coherent := by
  induction instances generalizing s with
  | nil =>
      cases hok
      exact h
  | cons i rest ih =>
      obtain ⟨⟨done, middle⟩, hcall, hrest⟩ := Except.bind_eq_ok_iff.mp hok
      obtain ⟨b, hflush, rfl⟩ := onInstance_put hcall
      obtain ⟨flushed, hflush, heq⟩ := Except.bind_eq_ok_iff.mp hflush
      cases heq
      have hclients := h.clients i
      have hmiddle : ({ s with pool := s.pool.put i b } : ParallelClients n poolSize).Coherent :=
        h.answered (hclients.flushAllPages hflush) ((h.homed.shared i).flushAllPgsImp hflush)
          (hclients.contents.sparesOthers_flushAllPgsImp hflush)
      have hfinal := ih hmiddle hrest
      exact hfinal

/-- A new pool over a file that stores the pages that are known. -/
theorem coherent_start (hn : n ≤ 2 ^ 31) {diskManager : DiskManager}
    (hdisk : diskManager.Healthy) {known : PageId → Option PageData}
    (haddr : ∀ pageId data, known pageId = some data → Addressable pageId)
    (hstored : ∀ pageId data, known pageId = some data → diskManager.Stored pageId data) :
    (start n poolSize diskManager known).Coherent where
  homed := homed_create hn diskManager
  clients i := by
    refine ⟨frames_create n i diskManager, ?_, ?_⟩
    · refine ⟨hdisk, fun _ _ hmapped => (nomatch hmapped), ?_,
        fun _ _ _ _ hmapped => (nomatch hmapped), ?_⟩
      · exact fun pageId data hwritten => haddr pageId data (home_of_lastWritten hwritten).2
      · exact fun pageId data hwritten _ => hstored pageId data (home_of_lastWritten hwritten).2
    · exact ⟨fun _ => rfl, nofun⟩

/-- A page without pins is on the disk with its last contents. -/
theorem Coherent.stored (h : s.Coherent) {pageId : PageId} {data : PageData}
    (hwritten : s.lastWritten pageId = some data) (hunpinned : s.Unpinned pageId) :
    s.pool.diskManager.Stored pageId data := by
  have hclients := h.clients (getBufferPoolManager n pageId)
  refine hclients.contents.stored pageId data ((lastWritten_clientsOf s pageId).trans hwritten) ?_
  intro frameId hmapped
  rw [hclients.pins.counts frameId, List.countP_eq_zero]
  intro pin hmem hframe
  -- two pages in one frame would be one page
  have hsame := hclients.frames.injective (hclients.pins.mapped pin hmem)
    ((of_decide_eq_true hframe) ▸ hmapped)
  exact hunpinned _ pin hmem hsame

theorem Coherent.restarted (h : s.Coherent) (hn : n ≤ 2 ^ 31) : s.restarted.Coherent := by
  have hdisk : s.pool.diskManager.Healthy := (h.clients 0).contents.disk
  have hhealthy : { s.pool.diskManager with failed := false }.Healthy := ⟨rfl, hdisk.size⟩
  have hknown : ∀ pageId data, s.restarted.lastWritten pageId = some data →
      s.Unpinned pageId ∧ s.lastWritten pageId = some data := by
    intro pageId data hwritten
    simp only [ParallelClients.restarted] at hwritten
    split at hwritten
    next hunpinned => exact ⟨hunpinned, hwritten⟩
    next => cases hwritten
  have haddr : ∀ pageId data, s.restarted.lastWritten pageId = some data →
      Addressable pageId := fun pageId data hwritten =>
    (h.clients (getBufferPoolManager n pageId)).contents.writtenAddressable pageId data
      ((lastWritten_clientsOf s pageId).trans (hknown pageId data hwritten).2)
  have hstored : ∀ pageId data, s.restarted.lastWritten pageId = some data →
      { s.pool.diskManager with failed := false }.Stored pageId data := by
    intro pageId data hwritten
    obtain ⟨hunpinned, hbefore⟩ := hknown pageId data hwritten
    have hbytes := h.stored hbefore hunpinned
    exact ⟨hbytes.size, hbytes.bytes⟩
  have hstart : (start n poolSize { s.pool.diskManager with failed := false }
      s.restarted.lastWritten).Coherent :=
    coherent_start hn hhealthy haddr hstored
  exact ⟨hstart.homed, fun i => (hstart.clients i).congr rfl rfl rfl⟩

theorem Coherent.step (h : s.Coherent) (hn : n ≤ 2 ^ 31) {e : Event n} {outcome : Outcome n}
    (hguard : s.KeepsWrites e) (hstep : s.step e = .ok (outcome, final)) : final.Coherent := by
  cases e with
  | newPage =>
      simp only [ParallelClients.step] at hstep
      split at hstep
      · cases hstep
      next pool hok =>
        cases hstep
        exact (h.newPage hn hguard hok).1 rfl
      next pageId owner frameId pool hok =>
        cases hstep
        exact (h.newPage hn hguard hok).2 pageId owner frameId rfl
  | fetchPage pageId =>
      simp only [ParallelClients.step] at hstep
      split at hstep
      · cases hstep
      next pool hok =>
        cases hstep
        exact (h.fetchPage hguard hok).1 rfl
      next owner frameId pool hok =>
        cases hstep
        exact ((h.fetchPage hguard hok).2 owner frameId rfl).1
  | write owner handle data =>
      simp only [ParallelClients.step] at hstep
      split at hstep
      · cases hstep
      next pin hfind =>
        cases hstep
        exact h.write (List.mem_of_find?_eq_some hfind) data
  | unpinPage owner handle isDirty =>
      simp only [ParallelClients.step] at hstep
      split at hstep
      · cases hstep
      next pin hfind =>
        split at hstep
        · cases hstep
        next result pool hok =>
          cases hstep
          exact h.unpinPage hfind hguard hok
  | flushPage pageId =>
      simp only [ParallelClients.step] at hstep
      split at hstep
      · cases hstep
      next result pool hok =>
        cases hstep
        exact h.flushPage hok
  | flushAllPages orders =>
      simp only [ParallelClients.step] at hstep
      split at hstep
      · cases hstep
      next pool hok =>
        cases hstep
        exact h.flushAllPages hok
  | restart =>
      cases hstep
      exact h.restarted hn

end ParallelClients

end BusTub
