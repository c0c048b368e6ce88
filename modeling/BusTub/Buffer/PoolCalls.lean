import BusTub.Buffer.FramePartition
import BusTub.Library.Program

/-! # Clients of a pool as programs

What a client does with the pages of a pool, as calls that a small pool or a pool that
never evicts can take. A client keeps pointers to the pages that it has pinned: it reads
and changes them in their frames. Between its calls other clients fetch and unpin pages.
-/

namespace BusTub

/-- What a client does with the pages of a pool, and what others do. -/
inductive PoolCall (ε : Type) where
  | newPage
  | fetchPage (pageId : PageId)
  /-- The client reads a page that it has pinned, and changes it. -/
  | access (pageId : PageId) (change : PageData → PageData)
  | unpinPage (pageId : PageId) (isDirty : Bool)
  /-- Another client fetches one of its pages. -/
  | fetchOther (pageId : PageId)
  /-- Another client unpins one of its pages. -/
  | unpinOther (pageId : PageId) (isDirty : Bool)
  /-- The client does not go on. -/
  | fail (fault : ε)

namespace PoolCall

variable {ε : Type} {poolSize : Nat}

/-- What the client gets: the id of a new page, or the bytes of a page. -/
def Returns : PoolCall ε → Type
  | newPage => PageId
  | fetchPage _ => Unit
  | access _ _ => PageData
  | unpinPage _ _ => Unit
  | fetchOther _ => Unit
  | unpinOther _ _ => Unit
  | fail _ => Empty

/-- Why a call does not return. -/
inductive Fault (ε : Type) where
  | pool (fault : PoolFault)
  /-- `NewPage` or `FetchPage` returns a `nullptr`, which the client follows. -/
  | nullPage
  /-- The client has no pin on the page. -/
  | notPinned
  /-- The page was never handed out. -/
  | notAllocated
  | client (fault : ε)
  deriving DecidableEq

end PoolCall

/-- What a client does, as a program over its calls. -/
abbrev PoolM (ε α : Type) : Type := Program (PoolCall.Returns (ε := ε)) α

namespace PoolM

variable {ε α : Type}

def newPage : PoolM ε PageId := .call .newPage .done

def fetchPage (pageId : PageId) : PoolM ε Unit := .call (.fetchPage pageId) .done

/-- Read a page through a pointer to it. -/
def readPage (pageId : PageId) : PoolM ε PageData := .call (.access pageId id) .done

/-- Change a page through a pointer to it. -/
def modifyPage (pageId : PageId) (change : PageData → PageData) : PoolM ε Unit :=
  .call (.access pageId change) fun _ => .done ()

def unpinPage (pageId : PageId) (isDirty : Bool) : PoolM ε Unit :=
  .call (.unpinPage pageId isDirty) .done

def fail (fault : ε) : PoolM ε α := .call (.fail fault) Empty.elim

end PoolM

/-- A pool instance, with the pages that `NewPage` has given to the client. -/
structure SmallPool (poolSize : Nat) where
  pool : BufferPoolManagerInstance poolSize
  own : List PageId := []

namespace SmallPool

variable {poolSize : Nat}

/-- The calls of the client, one after the other. -/
def handler (poolSize : Nat) (ε : Type) :
    Handler (PoolCall.Returns (ε := ε)) (SmallPool poolSize) (PoolCall.Fault ε) where
  step s
    | .newPage =>
        match s.pool.newPg with
        | .error fault => .error (.pool fault)
        | .ok (none, _) => .error .nullPage
        | .ok (some (pageId, _), pool) => .ok (pageId, { pool, own := pageId :: s.own })
    | .fetchPage pageId =>
        match s.pool.fetchPg pageId with
        | .error fault => .error (.pool fault)
        | .ok (none, _) => .error .nullPage
        | .ok (some _, pool) => .ok ((), { s with pool })
    | .access pageId change =>
        match s.pool.findPage pageId with
        | none => .error .notPinned
        | some frameId =>
            let page := s.pool.pages frameId
            .ok (page.data,
              { s with pool := s.pool.setPage frameId { page with data := change page.data } })
    | .unpinPage pageId isDirty =>
        match s.pool.unpinPg pageId isDirty with
        | .error fault => .error (.pool fault)
        | .ok (_, pool) => .ok ((), { s with pool })
    | .fetchOther pageId =>
        match s.pool.fetchPg pageId with
        | .error fault => .error (.pool fault)
        | .ok (_, pool) => .ok ((), { s with pool })
    | .unpinOther pageId isDirty =>
        match s.pool.unpinPg pageId isDirty with
        | .error fault => .error (.pool fault)
        | .ok (_, pool) => .ok ((), { s with pool })
    | .fail fault => .error (.client fault)

/-- The pool returns a page and no `nullptr`. -/
def Found {α β : Type} : Except PoolFault (Option α × β) → Prop
  | .ok (some _, _) => True
  | _ => False

instance {α β : Type} : DecidablePred (Found (α := α) (β := β))
  | .ok (some _, _) => .isTrue trivial
  | .ok (none, _) | .error _ => .isFalse id

theorem found_iff {α β : Type} {result : Except PoolFault (Option α × β)} :
    Found result ↔ ∃ page final, result = .ok (some page, final) := by
  rcases result with fault | ⟨_ | page, final⟩
  · simp [Found]
  · simp [Found]
  · simp [Found]

/-- The pool has a page for the call. -/
def Serves {ε : Type} (s : SmallPool poolSize) : PoolCall ε → Prop
  | .newPage => Found s.pool.newPg
  | .fetchPage pageId => Found (s.pool.fetchPg pageId)
  | _ => True

instance {ε : Type} (s : SmallPool poolSize) : DecidablePred (Serves (ε := ε) s)
  | .newPage => inferInstanceAs (Decidable (Found _))
  | .fetchPage _ => inferInstanceAs (Decidable (Found _))
  | .access _ _ | .unpinPage _ _ | .fetchOther _ | .unpinOther _ _ | .fail _ =>
      inferInstanceAs (Decidable True)

end SmallPool

/-- A pool that never evicts: a page keeps what was last written to it. -/
structure KeepingPool where
  nextPageId : PageId
  numInstances : Nat
  pages : PageId → Option PageData := fun _ => none
  pins : PageId → Nat := fun _ => 0

namespace KeepingPool

/-- The pool before the client's first call. -/
def of {poolSize : Nat} (b : BufferPoolManagerInstance poolSize) : KeepingPool where
  nextPageId := b.nextPageId
  numInstances := b.numInstances

/-- The calls of the client, one after the other. -/
def handler (ε : Type) :
    Handler (PoolCall.Returns (ε := ε)) KeepingPool (PoolCall.Fault ε) where
  step k
    | .newPage =>
        .ok (k.nextPageId, { k with
          nextPageId := toInt32 (k.nextPageId + k.numInstances)
          pages := Function.update k.pages k.nextPageId (some fun _ => 0)
          pins := Function.update k.pins k.nextPageId (k.pins k.nextPageId + 1) })
    | .fetchPage pageId =>
        match k.pages pageId with
        | none => .error .notAllocated
        | some _ => .ok ((), { k with pins := Function.update k.pins pageId (k.pins pageId + 1) })
    | .access pageId change =>
        match k.pages pageId with
        | none => .error .notAllocated
        | some data =>
            if k.pins pageId = 0 then .error .notPinned
            else .ok (data, { k with pages := Function.update k.pages pageId (some (change data)) })
    | .unpinPage pageId _ =>
        .ok ((), { k with pins := Function.update k.pins pageId (k.pins pageId - 1) })
    | .fetchOther _ => .ok ((), k)
    | .unpinOther _ _ => .ok ((), k)
    | .fail fault => .error (.client fault)

/-! What a call that returns leaves of the pool. -/

variable {ε : Type} {k k' : KeepingPool} {pageId : PageId}

theorem newPage_spec {result : PageId} (hstep : (handler ε).step k .newPage = .ok (result, k')) :
    result = k.nextPageId ∧ k' = { k with
      nextPageId := toInt32 (k.nextPageId + k.numInstances)
      pages := Function.update k.pages k.nextPageId (some fun _ => 0)
      pins := Function.update k.pins k.nextPageId (k.pins k.nextPageId + 1) } := by
  cases hstep
  exact ⟨rfl, rfl⟩

theorem fetchPage_spec {result : Unit}
    (hstep : (handler ε).step k (.fetchPage pageId) = .ok (result, k')) :
    (∃ data, k.pages pageId = some data) ∧
      k' = { k with pins := Function.update k.pins pageId (k.pins pageId + 1) } := by
  cases hpage : k.pages pageId with
  | none =>
      simp only [handler, hpage] at hstep
      cases hstep
  | some data =>
      simp only [handler, hpage] at hstep
      cases hstep
      exact ⟨⟨data, rfl⟩, rfl⟩

theorem access_spec {change : PageData → PageData} {result : PageData}
    (hstep : (handler ε).step k (.access pageId change) = .ok (result, k')) :
    k.pages pageId = some result ∧ k.pins pageId ≠ 0 ∧
      k' = { k with pages := Function.update k.pages pageId (some (change result)) } := by
  cases hpage : k.pages pageId with
  | none =>
      simp only [handler, hpage] at hstep
      cases hstep
  | some data =>
      by_cases hpins : k.pins pageId = 0
      · simp only [handler, hpage, if_pos hpins] at hstep
        cases hstep
      · simp only [handler, hpage, if_neg hpins] at hstep
        cases hstep
        exact ⟨rfl, hpins, rfl⟩

theorem unpinPage_spec {isDirty : Bool} {result : Unit}
    (hstep : (handler ε).step k (.unpinPage pageId isDirty) = .ok (result, k')) :
    k' = { k with pins := Function.update k.pins pageId (k.pins pageId - 1) } := by
  cases hstep
  rfl

theorem others_spec (isDirty : Bool) {result : Unit}
    (hstep : (handler ε).step k (.fetchOther pageId) = .ok (result, k') ∨
      (handler ε).step k (.unpinOther pageId isDirty) = .ok (result, k')) : k' = k := by
  rcases hstep with hstep | hstep
  · cases hstep
    rfl
  · cases hstep
    rfl

/-- Where the client does not go on, it does not over a small pool either. -/
theorem client_spec {poolSize : Nat} {s : SmallPool poolSize} {call : PoolCall ε} {fault : ε}
    (hstep : (handler ε).step k call = .error (.client fault)) :
    (SmallPool.handler poolSize ε).step s call = .error (.client fault) := by
  cases call with
  | fail fault' =>
      cases hstep
      rfl
  | fetchPage pageId =>
      simp only [handler] at hstep
      split at hstep <;> cases hstep
  | access pageId change =>
      simp only [handler] at hstep
      split at hstep
      · cases hstep
      · split at hstep <;> cases hstep
  | _ => cases hstep

end KeepingPool

end BusTub
