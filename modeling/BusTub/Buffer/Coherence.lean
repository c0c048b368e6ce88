import BusTub.Buffer.FramePartition

/-! # Clients of the buffer pool

Clients pin pages, write to them while they are pinned, and give the pins back.
What a client wrote must be what later clients find, however often the page was
evicted. The one thing that can lose a write is an `UnpinPage` with `is_dirty`
false after another client's with `is_dirty` true: it overwrites the flag.
-/

namespace BusTub

/-- A pin that a client holds. -/
structure Pin (poolSize : Nat) where
  handle : Nat
  pageId : PageId
  frameId : Fin poolSize
  wrote : Bool := false

/-- A buffer pool instance with its clients. -/
structure PoolClients (poolSize : Nat) where
  pool : BufferPoolManagerInstance poolSize
  pins : List (Pin poolSize) := []
  nextHandle : Nat := 0
  /-- The contents that were last written to a page, if any were. -/
  lastWritten : PageId → Option PageData := fun _ => none

namespace PoolClients

open BufferPoolManagerInstance (Frames Resident)

variable {poolSize : Nat}

/-- What a client does. -/
inductive Event where
  | newPage
  | fetchPage (pageId : PageId)
  | write (handle : Nat) (data : PageData)
  | unpinPage (handle : Nat) (isDirty : Bool)
  | flushPage (pageId : PageId)

/-- What a client gets: the handle of a new pin with the contents it sees, or a truth value. -/
inductive Outcome where
  | pinned (result : Option (Nat × PageData))
  | done (result : Bool)

/-- Why an event is no step. -/
inductive Fault where
  | pool (fault : PoolFault)
  /-- The client has no such pin. -/
  | notPinned
  /-- A client that wrote must unpin with `is_dirty = true`. -/
  | undeclared
  deriving DecidableEq, Repr

/-- The client gets a pin on the page. -/
def addPin (s : PoolClients poolSize) (pool : BufferPoolManagerInstance poolSize)
    (pageId : PageId) (frameId : Fin poolSize) : Outcome × PoolClients poolSize :=
  (.pinned (some (s.nextHandle, (pool.pages frameId).data)),
    { s with
      pool := pool
      pins := { handle := s.nextHandle, pageId := pageId, frameId := frameId } :: s.pins
      nextHandle := s.nextHandle + 1 })

def findPin (s : PoolClients poolSize) (handle : Nat) : Option (Pin poolSize) :=
  s.pins.find? (fun pin => pin.handle = handle)

/-- The client copies `data` over the page that its pin points to. -/
def writePage (s : PoolClients poolSize) (pin : Pin poolSize) (data : PageData) :
    PoolClients poolSize :=
  { s with
    pool := s.pool.setPage pin.frameId { s.pool.pages pin.frameId with data := data }
    pins := s.pins.map (fun other =>
      if other.handle = pin.handle then { other with wrote := true } else other)
    lastWritten := Function.update s.lastWritten pin.pageId (some data) }

/-- The pin is gone. -/
def dropPin (s : PoolClients poolSize) (pool : BufferPoolManagerInstance poolSize)
    (handle : Nat) : PoolClients poolSize :=
  { s with pool := pool, pins := s.pins.eraseP (fun pin => pin.handle = handle) }

/-- One call of the pool, or one write. -/
def step (s : PoolClients poolSize) : Event → Except Fault (Outcome × PoolClients poolSize)
  | .newPage =>
      match s.pool.newPg with
      | .error fault => .error (.pool fault)
      | .ok (none, pool) => .ok (.pinned none, { s with pool := pool })
      | .ok (some (pageId, frameId), pool) => .ok (s.addPin pool pageId frameId)
  | .fetchPage pageId =>
      match s.pool.fetchPg pageId with
      | .error fault => .error (.pool fault)
      | .ok (none, pool) => .ok (.pinned none, { s with pool := pool })
      | .ok (some frameId, pool) => .ok (s.addPin pool pageId frameId)
  | .write handle data =>
      match s.findPin handle with
      | none => .error .notPinned
      | some pin => .ok (.done true, s.writePage pin data)
  | .unpinPage handle isDirty =>
      match s.findPin handle with
      | none => .error .notPinned
      | some pin =>
          if pin.wrote ∧ ¬ isDirty then .error .undeclared
          else
            match s.pool.unpinPg pin.pageId isDirty with
            | .error fault => .error (.pool fault)
            | .ok (result, pool) => .ok (.done result, s.dropPin pool handle)
  | .flushPage pageId =>
      match s.pool.flushPgImp pageId with
      | .error fault => .error (.pool fault)
      | .ok (result, pool) => .ok (.done result, { s with pool := pool })

/-- The pool and its clients as a machine. -/
def machine (poolSize : Nat) : Machine (PoolClients poolSize) Event Outcome Fault := ⟨step⟩

/-- A fresh pool on the disk, and no client yet. -/
def start (poolSize numInstances instanceIndex : Nat) (diskManager : DiskManager) :
    PoolClients poolSize where
  pool := .create poolSize numInstances instanceIndex diskManager

end PoolClients

/-! ## What the pool does to the contents of pages -/

namespace BufferPoolManagerInstance

open DiskManager (Addressable)

variable {poolSize : Nat} {b final : BufferPoolManagerInstance poolSize}
  {written : PageId → Option PageData} {frameId : Fin poolSize} {pageId : PageId}

/-- A page that was written has its last contents in its frame if it is
resident, and on the disk unless it is pinned. -/
structure Contents (b : BufferPoolManagerInstance poolSize)
    (written : PageId → Option PageData) : Prop where
  disk : b.diskManager.Healthy
  addressable : ∀ pageId frameId, b.pageTable pageId = some frameId → Addressable pageId
  writtenAddressable : ∀ pageId data, written pageId = some data → Addressable pageId
  frame : ∀ pageId data frameId, written pageId = some data →
    b.pageTable pageId = some frameId → (b.pages frameId).data = data
  stored : ∀ pageId data, written pageId = some data →
    (∀ frameId, b.pageTable pageId = some frameId → (b.pages frameId).pinCount = 0) →
    b.diskManager.Stored pageId data

/-- The disk keeps what is stored when a frame is written back that has the last contents. -/
theorem Contents.stored_writeBack (h : b.Contents written) (haddr : Addressable pageId)
    {other : PageId} {data : PageData} (hstored : b.diskManager.Stored other data)
    (hother : Addressable other) (hsame : other = pageId → (b.pages frameId).data = data) :
    (b.writeBack frameId pageId).diskManager.Stored other data := by
  unfold writeBack
  dsimp only
  split
  · by_cases heq : pageId = other
    · subst heq
      rw [hsame rfl]
      exact DiskManager.stored_writePage h.disk haddr
    · exact hstored.writePage_of_ne h.disk haddr hother heq
  · exact hstored

theorem Contents.writeBack (h : b.Contents written) (hmapped : b.pageTable pageId = some frameId) :
    (b.writeBack frameId pageId).Contents written where
  disk := by
    unfold BufferPoolManagerInstance.writeBack
    dsimp only
    split
    · exact h.disk.writePage (h.addressable _ _ hmapped)
    · exact h.disk
  addressable := h.addressable
  writtenAddressable := h.writtenAddressable
  frame := h.frame
  stored other data hwritten hunpinned := by
    refine h.stored_writeBack (h.addressable _ _ hmapped) (h.stored other data hwritten hunpinned)
      (h.writtenAddressable _ _ hwritten) ?_
    rintro rfl
    exact h.frame other data frameId hwritten hmapped

/-- The fields that `Contents` reads. -/
theorem Contents.congr (h : b.Contents written) (hdisk : final.diskManager = b.diskManager)
    (htable : final.pageTable = b.pageTable)
    (hpages : ∀ f, (final.pages f).data = (b.pages f).data ∧
      ((final.pages f).pinCount = 0 → (b.pages f).pinCount = 0)) : final.Contents written where
  disk := hdisk ▸ h.disk
  addressable := htable ▸ h.addressable
  writtenAddressable := h.writtenAddressable
  frame pageId data f hwritten hmapped := by
    rw [(hpages f).1]
    exact h.frame pageId data f hwritten (htable ▸ hmapped)
  stored pageId data hwritten hunpinned := by
    rw [hdisk]
    refine h.stored pageId data hwritten (fun f hmapped => (hpages f).2 (hunpinned f ?_))
    rw [htable]
    exact hmapped

/-- An eviction keeps the contents: what is lost from the frame is on the disk. -/
theorem Contents.evict (h : b.Contents written)
    (hmapped : b.pageTable (b.pages frameId).pageId = some frameId)
    (hunpinned : (b.pages frameId).pinCount = 0) : (b.evict frameId).Contents written := by
  have hback := h.writeBack hmapped
  have htable : ∀ pageId f, (b.evict frameId).pageTable pageId = some f →
      pageId ≠ (b.pages frameId).pageId ∧ b.pageTable pageId = some f := by
    intro pageId f hpage
    change Function.update b.pageTable (b.pages frameId).pageId none pageId = some f at hpage
    by_cases heq : pageId = (b.pages frameId).pageId
    · rw [heq, Function.update_self] at hpage
      cases hpage
    · rw [Function.update_of_ne heq] at hpage
      exact ⟨heq, hpage⟩
  have hdata : ∀ f, ((b.evict frameId).pages f).data = (b.pages f).data ∧
      ((b.evict frameId).pages f).pinCount = (b.pages f).pinCount := by
    intro f
    by_cases hf : f = frameId
    · subst hf
      simp [BufferPoolManagerInstance.evict]
    · simp [BufferPoolManagerInstance.evict, hf]
  refine ⟨hback.disk, ?_, h.writtenAddressable, ?_, ?_⟩
  · exact fun pageId f hpage => h.addressable pageId f (htable pageId f hpage).2
  · intro pageId data f hwritten hpage
    rw [(hdata f).1]
    exact h.frame pageId data f hwritten (htable pageId f hpage).2
  · intro pageId data hwritten hpins
    refine hback.stored pageId data hwritten ?_
    intro f hpage
    change b.pageTable pageId = some f at hpage
    change (b.pages f).pinCount = 0
    by_cases heq : pageId = (b.pages frameId).pageId
    · rw [heq, hmapped] at hpage
      cases hpage
      exact hunpinned
    · have hkept : (b.evict frameId).pageTable pageId = some f := by
        change Function.update b.pageTable (b.pages frameId).pageId none pageId = some f
        rw [Function.update_of_ne heq, hpage]
      rw [← (hdata f).2]
      exact hpins f hkept

theorem Contents.findFreshPage (h : b.Contents written) (hframes : b.Frames none)
    {result : Option (Fin poolSize)} (hok : b.findFreshPage = .ok (result, final)) :
    final.Contents written := by
  rcases findFreshPage_spec hframes with
    ⟨f, rest, -, hresult⟩ | ⟨f, hfree, hvictim, hresult⟩ | ⟨-, -, hresult⟩
  · cases hresult.symm.trans hok
    exact h.congr rfl rfl (fun _ => ⟨rfl, id⟩)
  · cases hresult.symm.trans hok
    have hlast := (LRUReplacer.frames_victim (r := b.replacer)).1
    rw [hvictim] at hlast
    have hlru := (hframes.lru f).mp (List.mem_of_getLast? hlast.symm)
    exact h.evict ((hframes.mapped _ f).mpr ⟨rfl, hlru.2⟩) hlru.1
  · cases hresult.symm.trans hok
    exact h

/-- A fresh frame gets a page; the other frames and the disk stay. -/
theorem Contents.install (h : b.Contents written) (hframes : b.Frames (some frameId))
    (haddr : Addressable pageId) (hdisk : final.diskManager = b.diskManager)
    (htable : final.pageTable = Function.update b.pageTable pageId (some frameId))
    (hpages : ∀ f, f ≠ frameId → final.pages f = b.pages f)
    (hpinned : (final.pages frameId).pinCount ≠ 0)
    (hdata : ∀ data, written pageId = some data → (final.pages frameId).data = data) :
    final.Contents written := by
  have hother : ∀ other f, other ≠ pageId → final.pageTable other = some f →
      b.pageTable other = some f ∧ f ≠ frameId := by
    intro other f hne hpage
    rw [htable, Function.update_of_ne hne] at hpage
    refine ⟨hpage, ?_⟩
    rintro rfl
    exact ((hframes.mapped _ _).mp hpage).2.2 rfl
  have hself : final.pageTable pageId = some frameId := by rw [htable, Function.update_self]
  refine ⟨hdisk ▸ h.disk, ?_, h.writtenAddressable, ?_, ?_⟩
  · intro other f hpage
    by_cases heq : other = pageId
    · exact heq ▸ haddr
    · exact h.addressable other f (hother other f heq hpage).1
  · intro other data f hwritten hpage
    by_cases heq : other = pageId
    · subst heq
      cases hself.symm.trans hpage
      exact hdata data hwritten
    · obtain ⟨hmapped, hne⟩ := hother other f heq hpage
      rw [hpages f hne]
      exact h.frame other data f hwritten hmapped
  · intro other data hwritten hpins
    rw [hdisk]
    by_cases heq : other = pageId
    · subst heq
      exact absurd (hpins _ hself) hpinned
    · refine h.stored other data hwritten (fun f hmapped => ?_)
      have hpage : final.pageTable other = some f := by
        rw [htable, Function.update_of_ne heq, hmapped]
      rw [← hpages f (hother other f heq hpage).2]
      exact hpins f hpage

theorem Contents.installNew (h : b.Contents written) (hframes : b.Frames (some frameId))
    (haddr : Addressable b.nextPageId) (hfresh : written b.nextPageId = none) :
    (b.installNew frameId).Contents written := by
  refine h.install hframes haddr rfl rfl (fun f hf => Function.update_of_ne hf _ _) ?_ ?_
  · simp [BufferPoolManagerInstance.installNew]
  · intro data hwritten
    rw [hfresh] at hwritten
    cases hwritten

/-- `ReadPage` brings back the contents that are on the disk. -/
theorem Contents.installRead (h : b.Contents written) (hframes : b.Frames (some frameId))
    (haddr : Addressable pageId) (hnone : b.pageTable pageId = none) :
    (b.installRead frameId pageId).Contents written ∧
      ∀ data, written pageId = some data →
        ((b.installRead frameId pageId).pages frameId).data = data := by
  have hread : ∀ data, written pageId = some data →
      ((b.installRead frameId pageId).pages frameId).data = data := by
    intro data hwritten
    have hstored := h.stored pageId data hwritten (fun f hpage => nomatch hnone.symm.trans hpage)
    simp [BufferPoolManagerInstance.installRead,
      DiskManager.readPage_of_stored h.disk haddr hstored]
  refine ⟨h.install hframes haddr ?_ rfl (fun f hf => Function.update_of_ne hf _ _) ?_ hread, hread⟩
  · exact DiskManager.readPage_snd_of_healthy h.disk haddr _
  · simp [BufferPoolManagerInstance.installRead]

theorem Contents.pinHit (h : b.Contents written) : (b.pinHit frameId).Contents written := by
  refine h.congr rfl rfl (fun f => ?_)
  by_cases hf : f = frameId
  · subst hf
    simp [BufferPoolManagerInstance.pinHit]
  · simp [BufferPoolManagerInstance.pinHit, hf]

/-- `FetchPage` shows the last contents. -/
theorem Contents.fetchPg (h : b.Contents written) (hframes : b.Frames none)
    (haddr : Addressable pageId) {result : Option (Fin poolSize)}
    (hok : b.fetchPg pageId = .ok (result, final)) :
    final.Contents written ∧ ∀ frameId, result = some frameId →
      final.pageTable pageId = some frameId ∧
      ∀ data, written pageId = some data → (final.pages frameId).data = data := by
  rcases fetchPg_cases hok with ⟨f, hpage, rfl, rfl⟩ | ⟨-, rfl, hfresh⟩ |
    ⟨f, middle, hpage, hfresh, rfl, rfl⟩
  · refine ⟨h.pinHit, ?_⟩
    rintro g hg
    cases hg
    exact ⟨hpage, fun data hwritten => h.pinHit.frame pageId data f hwritten hpage⟩
  · exact ⟨h.findFreshPage hframes hfresh, fun _ hnot => nomatch hnot⟩
  · obtain ⟨hout, -, -⟩ := findFreshPage_fresh hframes hfresh
    obtain ⟨hcontents, hread⟩ := (h.findFreshPage hframes hfresh).installRead hout haddr
      (findFreshPage_unmapped hframes hfresh hpage)
    refine ⟨hcontents, ?_⟩
    rintro g hg
    cases hg
    exact ⟨Function.update_self _ _ _, hread⟩

theorem Contents.flushPgImp (h : b.Contents written) {result : Bool}
    (hok : b.flushPgImp pageId = .ok (result, final)) : final.Contents written := by
  rcases flushPgImp_cases hok with ⟨-, -, rfl⟩ | ⟨f, hpage, -, rfl⟩
  · exact h
  · refine (h.writeBack hpage).congr rfl rfl (fun g => ?_)
    by_cases hg : g = f
    · subst hg
      simp [BufferPoolManagerInstance.setPage, BufferPoolManagerInstance.writeBack]
    · simp [BufferPoolManagerInstance.setPage, hg]

/-- The last pin is given back. If it is given back clean, the last contents have
to be on the disk already, since `UnpinPage` forgets that the page was dirty. -/
theorem Contents.released (h : b.Contents written) (hframes : b.Frames none)
    (hmapped : b.pageTable pageId = some frameId) (isDirty : Bool)
    (hsafe : isDirty = false → ∀ data, written pageId = some data →
      b.diskManager.Stored pageId data) :
    (b.released frameId pageId isDirty).Contents written := by
  have haddr := h.addressable _ _ hmapped
  have hdisk : (b.released frameId pageId isDirty).diskManager =
      if isDirty then b.diskManager.writePage pageId (b.pages frameId).data
      else b.diskManager := by
    simp [BufferPoolManagerInstance.released, BufferPoolManagerInstance.writeBack,
      BufferPoolManagerInstance.unpinned, BufferPoolManagerInstance.setPage]
  have hdata : ∀ f, ((b.released frameId pageId isDirty).pages f).data = (b.pages f).data := by
    intro f
    by_cases hf : f = frameId
    · subst hf
      simp [BufferPoolManagerInstance.released, BufferPoolManagerInstance.writeBack,
        BufferPoolManagerInstance.unpinned, BufferPoolManagerInstance.setPage]
    · simp [BufferPoolManagerInstance.released, BufferPoolManagerInstance.writeBack,
        BufferPoolManagerInstance.unpinned, BufferPoolManagerInstance.setPage, hf]
  refine ⟨?_, h.addressable, h.writtenAddressable, ?_, ?_⟩
  · rw [hdisk]
    split
    · exact h.disk.writePage haddr
    · exact h.disk
  · intro other data f hwritten hpage
    rw [hdata]
    exact h.frame other data f hwritten hpage
  · intro other data hwritten hpins
    rw [hdisk]
    by_cases heq : other = pageId
    · subst heq
      cases isDirty with
      | true =>
          rw [if_pos rfl, h.frame other data frameId hwritten hmapped]
          exact DiskManager.stored_writePage h.disk haddr
      | false =>
          rw [if_neg Bool.false_ne_true]
          exact hsafe rfl data hwritten
    · have hstored := h.stored other data hwritten (fun f hpage => ?_)
      · split
        · exact hstored.writePage_of_ne h.disk haddr (h.writtenAddressable _ _ hwritten)
            (Ne.symm heq)
        · exact hstored
      · have hne : f ≠ frameId := fun hf => heq (hframes.injective (hf ▸ hpage) hmapped)
        have hpin := hpins f hpage
        simpa [BufferPoolManagerInstance.released, BufferPoolManagerInstance.writeBack,
          BufferPoolManagerInstance.unpinned, BufferPoolManagerInstance.setPage, hne] using hpin

theorem Contents.unpinned (h : b.Contents written) (hlast : (b.pages frameId).pinCount - 1 ≠ 0)
    (isDirty : Bool) : (b.unpinned frameId isDirty).Contents written := by
  refine h.congr rfl rfl (fun f => ?_)
  by_cases hf : f = frameId
  · subst hf
    simp [BufferPoolManagerInstance.unpinned, BufferPoolManagerInstance.setPage, hlast]
  · simp [BufferPoolManagerInstance.unpinned, BufferPoolManagerInstance.setPage, hf]

/-- A client writes to a page that it has pinned. -/
theorem Contents.write (h : b.Contents written) (hframes : b.Frames none)
    (hmapped : b.pageTable pageId = some frameId) (hpinned : (b.pages frameId).pinCount ≠ 0)
    (data : PageData) : (b.setPage frameId { b.pages frameId with data := data }).Contents
      (Function.update written pageId (some data)) := by
  have hpages : ∀ other f, other ≠ pageId → b.pageTable other = some f →
      (b.setPage frameId { b.pages frameId with data := data }).pages f = b.pages f := by
    intro other f hne hpage
    have hf : f ≠ frameId := fun heq => hne (hframes.injective (heq ▸ hpage) hmapped)
    simp [setPage, hf]
  have hself : (b.setPage frameId { b.pages frameId with data := data }).pages frameId =
      { b.pages frameId with data := data } := by
    simp [setPage]
  refine ⟨h.disk, h.addressable, ?_, ?_, ?_⟩
  · intro other contents hwritten
    by_cases heq : other = pageId
    · exact heq ▸ h.addressable _ _ hmapped
    · rw [Function.update_of_ne heq] at hwritten
      exact h.writtenAddressable other contents hwritten
  · intro other contents f hwritten hpage
    by_cases heq : other = pageId
    · subst heq
      cases hmapped.symm.trans hpage
      rw [Function.update_self] at hwritten
      rw [hself]
      exact Option.some.inj hwritten
    · rw [Function.update_of_ne heq] at hwritten
      rw [hpages other f heq hpage]
      exact h.frame other contents f hwritten hpage
  · intro other contents hwritten hpins
    by_cases heq : other = pageId
    · subst heq
      have hzero := hpins frameId hmapped
      rw [hself] at hzero
      exact absurd hzero hpinned
    · rw [Function.update_of_ne heq] at hwritten
      refine h.stored other contents hwritten (fun f hpage => ?_)
      rw [← hpages other f heq hpage]
      exact hpins f hpage

/-! ## The pins of the clients -/

theorem countP_eraseP_of_find {α : Type} {p : α → Bool} {l : List α} {a : α}
    (hfind : l.find? p = some a) (q : α → Bool) :
    (l.eraseP p).countP q + (q a).toNat = l.countP q := by
  induction l with
  | nil => cases hfind
  | cons head rest ih =>
      cases hhead : p head with
      | true =>
          rw [List.find?_cons_of_pos hhead] at hfind
          cases hfind
          rw [List.eraseP_cons_of_pos hhead, List.countP_cons]
          cases q a <;> simp
      | false =>
          have hneg : ¬ p head = true := by simp [hhead]
          rw [List.find?_cons_of_neg hneg] at hfind
          have hrest := ih hfind
          rw [List.eraseP_cons_of_neg hneg, List.countP_cons, List.countP_cons]
          omega

/-- The pins that the clients hold are the pins that the pool counts. -/
structure PinsMatch (b : BufferPoolManagerInstance poolSize) (pins : List (Pin poolSize)) :
    Prop where
  counts : ∀ f, (b.pages f).pinCount = pins.countP (fun pin => pin.frameId = f)
  mapped : ∀ pin ∈ pins, b.pageTable pin.pageId = some pin.frameId

variable {pins : List (Pin poolSize)} {pin : Pin poolSize}

theorem PinsMatch.pinned (h : b.PinsMatch pins) (hmem : pin ∈ pins) :
    (b.pages pin.frameId).pinCount ≠ 0 := by
  rw [h.counts]
  exact Nat.pos_iff_ne_zero.mp (List.countP_pos_iff.mpr ⟨pin, hmem, by simp⟩)

theorem PinsMatch.congr (h : b.PinsMatch pins)
    (hpages : ∀ f, (final.pages f).pinCount = (b.pages f).pinCount)
    (htable : final.pageTable = b.pageTable) : final.PinsMatch pins :=
  ⟨fun f => (hpages f).trans (h.counts f), fun pin hmem => htable ▸ h.mapped pin hmem⟩

/-- Making room takes no page from a client. -/
theorem PinsMatch.findFreshPage (h : b.PinsMatch pins) (hframes : b.Frames none)
    {result : Option (Fin poolSize)} (hok : b.findFreshPage = .ok (result, final)) :
    final.PinsMatch pins := by
  rcases findFreshPage_spec hframes with
    ⟨f, rest, -, hresult⟩ | ⟨f, hfree, hvictim, hresult⟩ | ⟨-, -, hresult⟩
  · cases hresult.symm.trans hok
    exact h.congr (fun _ => rfl) rfl
  · cases hresult.symm.trans hok
    have hlast := (LRUReplacer.frames_victim (r := b.replacer)).1
    rw [hvictim] at hlast
    have hlru := (hframes.lru f).mp (List.mem_of_getLast? hlast.symm)
    have hmapped := (hframes.mapped _ f).mpr ⟨rfl, hlru.2⟩
    refine ⟨fun g => ?_, fun pin hmem => ?_⟩
    · rw [← h.counts g]
      by_cases hg : g = f
      · subst hg
        simp [evict]
      · simp [evict, hg]
    · have hpin := h.mapped pin hmem
      have hne : pin.pageId ≠ (b.pages f).pageId := by
        intro heq
        rw [heq, hmapped] at hpin
        exact h.pinned hmem (Option.some.inj hpin ▸ hlru.1)
      change Function.update b.pageTable (b.pages f).pageId none pin.pageId = _
      rw [Function.update_of_ne hne, hpin]
  · cases hresult.symm.trans hok
    exact h

theorem PinsMatch.add (h : b.PinsMatch pins) (hself : final.pageTable pageId = some frameId)
    (hpin : (final.pages frameId).pinCount = (b.pages frameId).pinCount + 1)
    (hpages : ∀ f, f ≠ frameId → final.pages f = b.pages f)
    (htable : ∀ other f, b.pageTable other = some f → final.pageTable other = some f)
    (handle : Nat) (wrote : Bool) :
    final.PinsMatch (⟨handle, pageId, frameId, wrote⟩ :: pins) where
  counts f := by
    rw [List.countP_cons]
    by_cases hf : f = frameId
    · subst hf
      rw [hpin, h.counts]
      simp
    · rw [hpages f hf, h.counts]
      simp [Ne.symm hf]
  mapped pin hmem := by
    rcases List.mem_cons.mp hmem with rfl | hmem
    · exact hself
    · exact htable _ _ (h.mapped pin hmem)

theorem PinsMatch.installNew (h : b.PinsMatch pins) (hnone : b.pageTable b.nextPageId = none)
    (handle : Nat) : (b.installNew frameId).PinsMatch
      (⟨handle, b.nextPageId, frameId, false⟩ :: pins) := by
  refine h.add (Function.update_self _ _ _) ?_ (fun f hf => Function.update_of_ne hf _ _) ?_ _ _
  · simp [BufferPoolManagerInstance.installNew]
  · intro other f hpage
    refine (Function.update_of_ne ?_ _ _).trans hpage
    rintro rfl
    cases hnone.symm.trans hpage

theorem PinsMatch.fetchPg (h : b.PinsMatch pins) (hframes : b.Frames none)
    (hok : b.fetchPg pageId = .ok (some frameId, final)) (handle : Nat) :
    final.PinsMatch (⟨handle, pageId, frameId, false⟩ :: pins) := by
  rcases fetchPg_cases hok with ⟨f, hpage, hsome, rfl⟩ | ⟨-, hnone, -⟩ |
    ⟨f, middle, hpage, hfresh, hsome, rfl⟩
  · cases hsome
    have hself : (b.pinHit frameId).pageTable pageId = some frameId := hpage
    refine h.add hself ?_ (fun f hf => Function.update_of_ne hf _ _) (fun _ _ => id) _ _
    simp [BufferPoolManagerInstance.pinHit]
  · cases hnone
  · cases hsome
    refine (h.findFreshPage hframes hfresh).add (Function.update_self _ _ _) ?_
      (fun f hf => Function.update_of_ne hf _ _) ?_ _ _
    · simp [BufferPoolManagerInstance.installRead]
    · intro other f hother
      refine (Function.update_of_ne ?_ _ _).trans hother
      rintro rfl
      cases (findFreshPage_unmapped hframes hfresh hpage).symm.trans hother

theorem PinsMatch.remove (h : b.PinsMatch pins) {p : Pin poolSize → Bool}
    (hfind : pins.find? p = some pin)
    (hpin : (final.pages pin.frameId).pinCount = (b.pages pin.frameId).pinCount - 1)
    (hpages : ∀ f, f ≠ pin.frameId → final.pages f = b.pages f)
    (htable : final.pageTable = b.pageTable) : final.PinsMatch (pins.eraseP p) where
  counts f := by
    have hcount := countP_eraseP_of_find hfind (fun pin => pin.frameId = f)
    have hbefore := h.counts f
    by_cases hf : f = pin.frameId
    · subst hf
      rw [hpin]
      simp only [decide_true, Bool.toNat_true] at hcount
      omega
    · rw [hpages f hf]
      have hne : pin.frameId ≠ f := Ne.symm hf
      simp only [hne, decide_false, Bool.toNat_false] at hcount
      omega
  mapped other hmem := htable ▸ h.mapped other (List.mem_of_mem_eraseP hmem)

end BufferPoolManagerInstance

/-! ## Runs -/

namespace PoolClients

open BufferPoolManagerInstance DiskManager

variable {poolSize : Nat} {s final : PoolClients poolSize}

/-- Page ids stay where an `int` can hold the file offsets, `NewPage` allocates
no page that is resident or was written, and the last pin of a page is given
back clean only when the last contents are on the disk. -/
def KeepsWrites (s : PoolClients poolSize) : Event → Prop
  | .newPage => ∀ frameId middle, s.pool.findFreshPage = .ok (some frameId, middle) →
      middle.pageTable middle.nextPageId = none ∧ Addressable middle.nextPageId ∧
        s.lastWritten middle.nextPageId = none
  | .fetchPage pageId => Addressable pageId
  | .unpinPage handle isDirty => ∀ pin, s.findPin handle = some pin →
      (s.pool.pages pin.frameId).pinCount = 1 → isDirty = false →
        ∀ data, s.lastWritten pin.pageId = some data → s.pool.diskManager.Stored pin.pageId data
  | _ => True

/-- Frames, contents and pins are as they should be. -/
structure Coherent (s : PoolClients poolSize) : Prop where
  frames : s.pool.Frames none
  contents : s.pool.Contents s.lastWritten
  pins : s.pool.PinsMatch s.pins

theorem coherent_start (numInstances instanceIndex : Nat) {diskManager : DiskManager}
    (hdisk : diskManager.Healthy) :
    (start poolSize numInstances instanceIndex diskManager).Coherent where
  frames := frames_create numInstances instanceIndex diskManager
  contents := by
    refine ⟨hdisk, ?_, ?_, ?_, ?_⟩
    · exact fun _ _ hpage => nomatch hpage
    · exact fun _ _ hwritten => nomatch hwritten
    · exact fun _ _ _ hwritten => nomatch hwritten
    · exact fun _ _ hwritten => nomatch hwritten
  pins := ⟨fun _ => rfl, fun _ hmem => nomatch hmem⟩

theorem findPin_mem {handle : Nat} {pin : Pin poolSize} (hfind : s.findPin handle = some pin) :
    pin ∈ s.pins ∧ pin.handle = handle :=
  ⟨List.mem_of_find?_eq_some hfind, by simpa using List.find?_some hfind⟩

theorem Coherent.newPage (h : s.Coherent) (hguard : s.KeepsWrites .newPage)
    {result : Option (PageId × Fin poolSize)} {pool : BufferPoolManagerInstance poolSize}
    (hok : s.pool.newPg = .ok (result, pool)) :
    (result = none → ({ s with pool := pool } : PoolClients poolSize).Coherent) ∧
    ∀ pageId frameId, result = some (pageId, frameId) →
      (s.addPin pool pageId frameId).2.Coherent := by
  rcases newPg_cases hok with ⟨rfl, hfresh⟩ | ⟨f, middle, hfresh, rfl, rfl⟩
  · have hsame := findFreshPage_none h.frames hfresh
    subst hsame
    exact ⟨fun _ => h, fun _ _ hnot => nomatch hnot⟩
  · obtain ⟨hout, -, -⟩ := findFreshPage_fresh h.frames hfresh
    obtain ⟨hunmapped, haddr, hunwritten⟩ := hguard f middle hfresh
    refine ⟨fun hnot => (nomatch hnot), ?_⟩
    rintro pageId frameId hsome
    cases hsome
    exact ⟨hout.installNew hunmapped,
      (h.contents.findFreshPage h.frames hfresh).installNew hout haddr hunwritten,
      (h.pins.findFreshPage h.frames hfresh).installNew hunmapped _⟩

theorem Coherent.fetchPage (h : s.Coherent) {pageId : PageId} (haddr : Addressable pageId)
    {result : Option (Fin poolSize)} {pool : BufferPoolManagerInstance poolSize}
    (hok : s.pool.fetchPg pageId = .ok (result, pool)) :
    (result = none → ({ s with pool := pool } : PoolClients poolSize).Coherent) ∧
    ∀ frameId, result = some frameId → (s.addPin pool pageId frameId).2.Coherent := by
  have hframes := h.frames.fetchPg hok
  have hcontents := (h.contents.fetchPg h.frames haddr hok).1
  constructor
  · rintro rfl
    refine ⟨hframes, hcontents, ?_⟩
    rcases fetchPg_cases hok with ⟨f, -, hnot, -⟩ | ⟨-, -, hfresh⟩ | ⟨f, middle, -, -, hnot, -⟩
    · cases hnot
    · exact h.pins.findFreshPage h.frames hfresh
    · cases hnot
  · rintro frameId rfl
    exact ⟨hframes, hcontents, h.pins.fetchPg h.frames hok _⟩

theorem Coherent.write (h : s.Coherent) {pin : Pin poolSize} (hmem : pin ∈ s.pins)
    (data : PageData) : (s.writePage pin data).Coherent := by
  have hmapped := h.pins.mapped pin hmem
  refine ⟨h.frames.setPage rfl rfl, h.contents.write h.frames hmapped (h.pins.pinned hmem) data, ?_⟩
  constructor
  · intro f
    have hpin : ((s.writePage pin data).pool.pages f).pinCount = (s.pool.pages f).pinCount := by
      by_cases hf : f = pin.frameId
      · simp [writePage, setPage, hf]
      · simp [writePage, setPage, hf]
    rw [hpin, h.pins.counts f]
    simp only [writePage, List.countP_map]
    congr 1
    funext other
    simp only [Function.comp_apply]
    split <;> rfl
  · intro other hother
    obtain ⟨original, horiginal, rfl⟩ := List.mem_map.mp hother
    have hbefore := h.pins.mapped original horiginal
    split <;> exact hbefore

theorem Coherent.unpinPage (h : s.Coherent) {handle : Nat} {pin : Pin poolSize}
    (hfind : s.findPin handle = some pin) {isDirty result : Bool}
    (hguard : s.KeepsWrites (.unpinPage handle isDirty))
    {pool : BufferPoolManagerInstance poolSize}
    (hok : s.pool.unpinPg pin.pageId isDirty = .ok (result, pool)) :
    (s.dropPin pool handle).Coherent := by
  have hmem := (findPin_mem hfind).1
  have hmapped := h.pins.mapped pin hmem
  have hpinned := h.pins.pinned hmem
  have hframes := h.frames.unpinPg hok
  rcases unpinPg_cases hok with ⟨-, -, hzero⟩ |
    ⟨f, hpage, -, -, ⟨hlast, rfl⟩ | ⟨hlast, rfl⟩⟩
  · exact absurd (hzero _ hmapped) hpinned
  · cases hmapped.symm.trans hpage
    refine ⟨hframes, h.contents.released h.frames hmapped isDirty ?_, ?_⟩
    · intro hclean data hwritten
      exact hguard pin hfind (by omega) hclean data hwritten
    · refine h.pins.remove hfind ?_ (fun f hf => Function.update_of_ne hf _ _) rfl
      simp [dropPin, released, writeBack, unpinned, setPage]
  · cases hmapped.symm.trans hpage
    refine ⟨hframes, h.contents.unpinned hlast isDirty, ?_⟩
    refine h.pins.remove hfind ?_ (fun f hf => Function.update_of_ne hf _ _) rfl
    simp [dropPin, unpinned, setPage]

theorem Coherent.flushPage (h : s.Coherent) {pageId : PageId} {result : Bool}
    {pool : BufferPoolManagerInstance poolSize}
    (hok : s.pool.flushPgImp pageId = .ok (result, pool)) :
    ({ s with pool := pool } : PoolClients poolSize).Coherent := by
  refine ⟨h.frames.flushPgImp hok, h.contents.flushPgImp hok, ?_⟩
  rcases flushPgImp_cases hok with ⟨-, -, rfl⟩ | ⟨f, -, -, rfl⟩
  · exact h.pins
  · refine h.pins.congr (fun g => ?_) rfl
    by_cases hg : g = f
    · subst hg
      simp [setPage]
    · simp [setPage, hg, writeBack]

theorem Coherent.step (h : s.Coherent) {e : Event} {outcome : Outcome}
    (hguard : s.KeepsWrites e) (hstep : s.step e = .ok (outcome, final)) : final.Coherent := by
  cases e with
  | newPage =>
      simp only [PoolClients.step] at hstep
      split at hstep
      · cases hstep
      next pool hok =>
        cases hstep
        exact (h.newPage hguard hok).1 rfl
      next pageId frameId pool hok =>
        cases hstep
        exact (h.newPage hguard hok).2 pageId frameId rfl
  | fetchPage pageId =>
      simp only [PoolClients.step] at hstep
      split at hstep
      · cases hstep
      next pool hok =>
        cases hstep
        exact (h.fetchPage hguard hok).1 rfl
      next frameId pool hok =>
        cases hstep
        exact (h.fetchPage hguard hok).2 frameId rfl
  | write handle data =>
      simp only [PoolClients.step] at hstep
      split at hstep
      · cases hstep
      next pin hfind =>
        cases hstep
        exact h.write (findPin_mem hfind).1 data
  | unpinPage handle isDirty =>
      simp only [PoolClients.step] at hstep
      split at hstep
      · cases hstep
      next pin hfind =>
        split at hstep
        · cases hstep
        · split at hstep
          · cases hstep
          next result pool hok =>
            cases hstep
            exact h.unpinPage hfind hguard hok
  | flushPage pageId =>
      simp only [PoolClients.step] at hstep
      split at hstep
      · cases hstep
      next result pool hok =>
        cases hstep
        exact h.flushPage hok

/-- In a state that is coherent, a `FetchPage` that succeeds shows the last contents. -/
theorem Coherent.fetch_eq (h : s.Coherent) {pageId : PageId} {handle : Nat}
    {contents data : PageData}
    (hstep : s.step (.fetchPage pageId) = .ok (.pinned (some (handle, contents)), final))
    (hwritten : s.lastWritten pageId = some data) : contents = data := by
  simp only [PoolClients.step] at hstep
  split at hstep
  · cases hstep
  · cases hstep
  next frameId pool hok =>
    have haddr := h.contents.writtenAddressable pageId data hwritten
    cases hstep
    exact ((h.contents.fetchPg h.frames haddr hok).2 frameId rfl).2 data hwritten

/-- Every write is seen by every later `FetchPage` of the page, in each run whose
steps keep the writes. -/
theorem fetch_eq_lastWritten {numInstances instanceIndex : Nat} {diskManager : DiskManager}
    (hdisk : diskManager.Healthy) {events : List Event}
    (hreach : (machine poolSize).Reaches (start poolSize numInstances instanceIndex diskManager)
      events s)
    (hguard : (machine poolSize).Guarded KeepsWrites
      (start poolSize numInstances instanceIndex diskManager) events)
    {pageId : PageId} {handle : Nat} {contents data : PageData}
    (hfetch : s.step (.fetchPage pageId) = .ok (.pinned (some (handle, contents)), final))
    (hwritten : s.lastWritten pageId = some data) : contents = data := by
  have hcoherent : s.Coherent :=
    hreach.invariant Coherent (fun _ _ _ _ h hkeeps hstep => h.step hkeeps hstep) hguard
      (coherent_start numInstances instanceIndex hdisk)
  exact hcoherent.fetch_eq hfetch hwritten

/-- One frame on an empty file. -/
def startOne : PoolClients 1 := start 1 1 0 { bytes := fun _ => 0, size := 0 }

/-- The contents that the clients below write. -/
def ones : PageData := fun _ => 1

/-- One client writes page 0, which is then evicted. -/
def evictedWrite : List Event :=
  [.newPage, .write 0 ones, .unpinPage 0 true, .newPage, .unpinPage 1 true]

theorem fetch_eq_lastWritten_evictedWrite : ∃ s final contents,
    (machine 1).Reaches startOne evictedWrite s ∧
      s.step (.fetchPage 0) = .ok (.pinned (some (2, contents)), final) ∧ contents = ones := by
  obtain ⟨s, final, contents, hreach, hfetch, hwritten⟩ : ∃ s final contents,
      (machine 1).Reaches startOne evictedWrite s ∧
        s.step (.fetchPage 0) = .ok (.pinned (some (2, contents)), final) ∧
        s.lastWritten 0 = some ones := ⟨_, _, _, ⟨_, rfl⟩, rfl, rfl⟩
  refine ⟨s, final, contents, hreach, hfetch, ?_⟩
  refine fetch_eq_lastWritten ⟨rfl, by decide⟩ hreach ?_ hfetch hwritten
  refine (Machine.guarded_cons_of_step rfl _).mpr ⟨?_, ?_⟩
  · rintro _ _ ⟨⟩
    exact ⟨rfl, by decide, rfl⟩
  refine (Machine.guarded_cons_of_step rfl _).mpr ⟨trivial, ?_⟩
  refine (Machine.guarded_cons_of_step rfl _).mpr ⟨fun _ _ _ hnot => (nomatch hnot), ?_⟩
  refine (Machine.guarded_cons_of_step rfl _).mpr ⟨?_, ?_⟩
  · rintro _ _ ⟨⟩
    exact ⟨rfl, by decide, rfl⟩
  exact (Machine.guarded_cons_of_step rfl _).mpr ⟨fun _ _ _ hnot => (nomatch hnot), trivial⟩

/-- Two clients have pinned page 0. The one that wrote unpins first, and the
other one's `is_dirty = false` makes the pool forget the write. -/
def overwrittenFlag : List Event :=
  [.newPage, .fetchPage 0, .write 0 ones, .unpinPage 0 true, .unpinPage 1 false, .newPage,
    .unpinPage 2 true]

theorem overwrittenFlag_fetch_ne : ∃ s final contents,
    (machine 1).Reaches startOne overwrittenFlag s ∧ s.lastWritten 0 = some ones ∧
      s.step (.fetchPage 0) = .ok (.pinned (some (3, contents)), final) ∧ contents ≠ ones := by
  refine ⟨_, _, _, ⟨_, rfl⟩, rfl, rfl, fun heq => ?_⟩
  exact absurd (congrFun heq ⟨0, by decide⟩) (by decide)

end PoolClients

end BusTub
