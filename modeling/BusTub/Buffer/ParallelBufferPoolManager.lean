import BusTub.Buffer.FramePartition
import BusTub.Library.Faults
import Mathlib.Algebra.Group.Fin.Basic
import Mathlib.Data.List.Nodup
import Mathlib.Tactic.NormNum

/-! # The parallel buffer pool

`ParallelBufferPoolManager` over `n` instances and one disk manager. Instance `i` hands out
the page ids `i`, `i + n`, `i + 2 * n` and so on, and a page id is looked up in the instance
that its remainder modulo `n` names. So the instances agree on whose a page is without
talking to one another: an id is handed out once, and a page is never in two pools.
-/

namespace BusTub

/-- `ParallelBufferPoolManager`. The instances share `diskManager`: each works on this one,
not on the one in its own record. -/
structure ParallelBufferPoolManager (n poolSize : Nat) where
  diskManager : DiskManager
  bpmis : Fin n → BufferPoolManagerInstance poolSize
  lastAllocIndex : Fin n

namespace ParallelBufferPoolManager

variable {n poolSize : Nat}

/-- The constructor. -/
def create (n poolSize : Nat) [NeZero n] (diskManager : DiskManager) :
    ParallelBufferPoolManager n poolSize where
  diskManager := diskManager
  bpmis i := .create poolSize n i diskManager
  lastAllocIndex := 0

/-- One instance, on the shared disk manager. -/
def instanceAt (p : ParallelBufferPoolManager n poolSize) (i : Fin n) :
    BufferPoolManagerInstance poolSize :=
  { p.bpmis i with diskManager := p.diskManager }

/-- A call of one instance. -/
def onInstance {α : Type} (p : ParallelBufferPoolManager n poolSize) (i : Fin n)
    (call : BufferPoolManagerInstance poolSize →
      Except PoolFault (α × BufferPoolManagerInstance poolSize)) :
    Except PoolFault (α × ParallelBufferPoolManager n poolSize) := do
  let (result, b) ← call (p.instanceAt i)
  .ok (result, { p with diskManager := b.diskManager, bpmis := Function.update p.bpmis i b })

/-- `GetBufferPoolManager`: the index of the instance. The page id is converted to `size_t`. -/
def getBufferPoolManager (n : Nat) [NeZero n] (pageId : PageId) : Fin n :=
  Fin.ofNat n (pageId % 2 ^ 64).toNat

/-- The `do` loop of `NewPgImp`, for so many instances. -/
def newPgLoop [NeZero n] : Nat → Fin n → ParallelBufferPoolManager n poolSize →
    Except PoolFault (Option (PageId × Fin n × Fin poolSize) ×
      ParallelBufferPoolManager n poolSize)
  | 0, _, p => .ok (none, p)
  | fuel + 1, startIndex, p => do
      match ← p.onInstance startIndex (·.newPg) with
      | (some (pageId, frameId), p) => .ok (some (pageId, startIndex, frameId), p)
      | (none, p) =>
          if startIndex + 1 ≠ p.lastAllocIndex then newPgLoop fuel (startIndex + 1) p
          else .ok (none, p)

/-- `NewPgImp`. The result is the page id, the instance that allocated it and the frame. -/
def newPg [NeZero n] (p : ParallelBufferPoolManager n poolSize) :
    Except PoolFault (Option (PageId × Fin n × Fin poolSize) ×
      ParallelBufferPoolManager n poolSize) := do
  let (result, p) ← newPgLoop n p.lastAllocIndex p
  .ok (result, { p with lastAllocIndex := p.lastAllocIndex + 1 })

/-- What a call returns. A page is given by its instance and its frame. -/
inductive Outcome (n poolSize : Nat) where
  | newPage (result : Option (PageId × Fin n × Fin poolSize))
  | page (result : Option (Fin n × Fin poolSize))
  | done (result : Bool)

/-- `FetchPgImp`. -/
def fetchPg [NeZero n] (p : ParallelBufferPoolManager n poolSize) (pageId : PageId) :
    Except PoolFault (Option (Fin n × Fin poolSize) × ParallelBufferPoolManager n poolSize) := do
  let (result, p) ← p.onInstance (getBufferPoolManager n pageId) (·.fetchPg pageId)
  .ok (result.map fun frameId => (getBufferPoolManager n pageId, frameId), p)

/-- `UnpinPgImp`. -/
def unpinPg [NeZero n] (p : ParallelBufferPoolManager n poolSize) (pageId : PageId)
    (isDirty : Bool) : Except PoolFault (Bool × ParallelBufferPoolManager n poolSize) :=
  p.onInstance (getBufferPoolManager n pageId) (·.unpinPg pageId isDirty)

/-- `FlushPgImp`. -/
def flushPg [NeZero n] (p : ParallelBufferPoolManager n poolSize) (pageId : PageId) :
    Except PoolFault (Bool × ParallelBufferPoolManager n poolSize) :=
  p.onInstance (getBufferPoolManager n pageId) (·.flushPgImp pageId)

/-- `DeletePgImp`. -/
def deletePg [NeZero n] (p : ParallelBufferPoolManager n poolSize) (pageId : PageId) :
    Except PoolFault (Bool × ParallelBufferPoolManager n poolSize) :=
  p.onInstance (getBufferPoolManager n pageId) (fun b => .ok (b.deletePg pageId))

open BufferPoolManagerInstance (Event)

/-- One call. -/
def step [NeZero n] (p : ParallelBufferPoolManager n poolSize) :
    Event → Except PoolFault (Outcome n poolSize × ParallelBufferPoolManager n poolSize)
  | .newPage => p.newPg.map (fun (result, p) => (.newPage result, p))
  | .fetchPage pageId => (p.fetchPg pageId).map (fun (result, p) => (.page result, p))
  | .unpinPage pageId isDirty =>
      (p.unpinPg pageId isDirty).map (fun (result, p) => (.done result, p))
  | .flushPage pageId => (p.flushPg pageId).map (fun (result, p) => (.done result, p))
  | .deletePage pageId => (p.deletePg pageId).map (fun (result, p) => (.done result, p))

/-- The parallel buffer pool as a machine. -/
def machine (n poolSize : Nat) [NeZero n] :
    Machine (ParallelBufferPoolManager n poolSize) Event (Outcome n poolSize) PoolFault := ⟨step⟩

/-! ## One instance -/

open BufferPoolManagerInstance in
/-- An instance whose counter and whose pages leave the remainder `i` modulo `n`. -/
structure HomeOf (n i : Nat) (b : BufferPoolManagerInstance poolSize) : Prop where
  numInstances : b.numInstances = n
  instanceIndex : b.instanceIndex = i
  nonneg : 0 ≤ b.nextPageId
  below : b.nextPageId < 2 ^ 31
  counter : b.nextPageId % n = i
  resident : ∀ pageId f, b.pageTable pageId = some f → pageId % n = i

/-- Nothing but the page table has to be looked at, and there only what is new. -/
theorem HomeOf.of_same {i : Nat} {b final : BufferPoolManagerInstance poolSize}
    (h : HomeOf n i b) (hnum : final.numInstances = b.numInstances)
    (hindex : final.instanceIndex = b.instanceIndex) (hnext : final.nextPageId = b.nextPageId)
    (htable : ∀ pageId f, final.pageTable pageId = some f →
      b.pageTable pageId = some f ∨ pageId % n = i) : HomeOf n i final where
  numInstances := hnum.trans h.numInstances
  instanceIndex := hindex.trans h.instanceIndex
  nonneg := hnext ▸ h.nonneg
  below := hnext ▸ h.below
  counter := hnext ▸ h.counter
  resident pageId f hmapped := (htable pageId f hmapped).elim (h.resident pageId f) id

section Instance

variable {i : Nat} {b final : BufferPoolManagerInstance poolSize} {pageId : PageId}

theorem update_eq_some {table : PageId → Option (Fin poolSize)} {other : PageId}
    {f : Fin poolSize} {entry : Option (Fin poolSize)}
    (h : Function.update table pageId entry other = some f) :
    table other = some f ∨ other = pageId ∧ entry = some f := by
  by_cases heq : other = pageId
  · subst heq
    rw [Function.update_self] at h
    exact Or.inr ⟨rfl, h⟩
  · rw [Function.update_of_ne heq] at h
    exact Or.inl h

/-- An `int` that is not negative after a stride was added has not overflowed. -/
theorem toInt32_add_of_nonneg {counter : Int} {stride : Nat} (hnonneg : 0 ≤ counter)
    (hbelow : counter < 2 ^ 31) (hstride : stride ≤ 2 ^ 31)
    (hsum : 0 ≤ toInt32 (counter + stride)) :
    toInt32 (counter + stride) = counter + stride ∧ counter + stride < 2 ^ 31 := by
  unfold toInt32 at hsum ⊢
  constructor <;> omega

/-- `FlushPg` writes to the disk only. -/
theorem flushPg_eq (hok : b.flushPg pageId = .ok final) :
    ∃ diskManager, final = { b with diskManager := diskManager } := by
  unfold BufferPoolManagerInstance.flushPg at hok
  split at hok
  · cases hok
  · split at hok
    · exact ⟨_, (Except.ok.inj hok).symm⟩
    · exact ⟨b.diskManager, (Except.ok.inj hok).symm⟩

theorem flushPg_ne_assertion : b.flushPg pageId ≠ .error .assertion := by
  unfold BufferPoolManagerInstance.flushPg
  split
  · nofun
  · split <;> nofun

theorem findFreshPage_ne_assertion : b.findFreshPage ≠ .error .assertion := by
  unfold BufferPoolManagerInstance.findFreshPage
  split
  · nofun
  · split
    · nofun
    next replacer _ =>
      rcases hflush : BufferPoolManagerInstance.flushPg { b with replacer := replacer } _ with
        fault | flushed
      · dsimp only
        rw [hflush]
        intro hfault
        cases hfault
        exact flushPg_ne_assertion hflush
      · dsimp only
        rw [hflush]
        nofun

/-- `FindFreshPage` takes a page out of the page table, and puts none in. -/
theorem HomeOf.findFreshPage (h : HomeOf n i b) {result : Option (Fin poolSize)}
    (hok : b.findFreshPage = .ok (result, final)) :
    HomeOf n i final ∧ final.nextPageId = b.nextPageId := by
  unfold BufferPoolManagerInstance.findFreshPage at hok
  split at hok
  next =>
    cases hok
    exact ⟨h.of_same rfl rfl rfl fun _ _ => Or.inl, rfl⟩
  next =>
    split at hok
    next =>
      cases hok
      exact ⟨h, rfl⟩
    next f replacer _ =>
      obtain ⟨flushed, hflush, hfinal⟩ := Except.bind_eq_ok_iff.mp hok
      obtain ⟨diskManager, rfl⟩ := flushPg_eq hflush
      cases hfinal
      refine ⟨h.of_same rfl rfl rfl fun other f' hmapped => Or.inl ?_, rfl⟩
      rcases update_eq_some hmapped with hold | ⟨-, hnone⟩
      · exact hold
      · cases hnone

theorem HomeOf.newPg_none (h : HomeOf n i b) (hok : b.newPg = .ok (none, final)) :
    HomeOf n i final ∧ final.nextPageId = b.nextPageId := by
  rcases BufferPoolManagerInstance.newPg_cases hok with ⟨-, hfresh⟩ | ⟨f, middle, -, hsome, -⟩
  · exact h.findFreshPage hfresh
  · cases hsome

/-- The new page's id is what the counter was. -/
theorem HomeOf.newPg_some (h : HomeOf n i b) (hn : n ≤ 2 ^ 31) {frameId : Fin poolSize}
    (hok : b.newPg = .ok (some (pageId, frameId), final))
    (hlimit : 0 ≤ final.nextPageId) :
    HomeOf n i final ∧ pageId = b.nextPageId ∧ final.nextPageId = pageId + n := by
  rcases BufferPoolManagerInstance.newPg_cases hok with ⟨hnone, -⟩ |
    ⟨f, middle, hfresh, hsome, rfl⟩
  · cases hnone
  · cases hsome
    obtain ⟨hmiddle, hnext⟩ := h.findFreshPage hfresh
    have hcounter := hmiddle.counter
    obtain ⟨hsum, hlt⟩ : toInt32 (middle.nextPageId + middle.numInstances) =
        middle.nextPageId + n ∧ middle.nextPageId + (n : Int) < 2 ^ 31 := by
      change 0 ≤ toInt32 (middle.nextPageId + middle.numInstances) at hlimit
      rw [hmiddle.numInstances] at hlimit ⊢
      exact toInt32_add_of_nonneg hmiddle.nonneg hmiddle.below hn hlimit
    refine ⟨⟨hmiddle.numInstances, hmiddle.instanceIndex, hlimit, ?_, ?_, ?_⟩, hnext, hsum⟩
    · exact hsum.trans_lt hlt
    · change toInt32 (middle.nextPageId + middle.numInstances) % (n : Int) = i
      rw [hsum, Int.add_emod_right, hcounter]
    · intro other f' hmapped
      rcases update_eq_some hmapped with hold | ⟨rfl, -⟩
      · exact hmiddle.resident other f' hold
      · exact hcounter

/-- The assertion of `ValidatePageId` never fails. -/
theorem HomeOf.newPg_ne_assertion (h : HomeOf n i b) : b.newPg ≠ .error .assertion := by
  intro hfault
  unfold BufferPoolManagerInstance.newPg at hfault
  rcases hfresh : b.findFreshPage with fault | ⟨_ | frameId, middle⟩
  · rw [hfresh] at hfault
    cases Except.error.inj hfault
    exact findFreshPage_ne_assertion hfresh
  · rw [hfresh] at hfault
    cases hfault
  · obtain ⟨hmiddle, -⟩ := h.findFreshPage hfresh
    have hvalid : middle.validatePageId middle.nextPageId = true := by
      have hword : middle.nextPageId % 2 ^ 32 = middle.nextPageId :=
        Int.emod_eq_of_lt hmiddle.nonneg (hmiddle.below.trans (by norm_num))
      unfold BufferPoolManagerInstance.validatePageId
      rw [hword, hmiddle.numInstances, hmiddle.instanceIndex, hmiddle.counter]
      exact decide_eq_true rfl
    rw [hfresh] at hfault
    change (middle.allocatePage >>= fun allocated => _) = _ at hfault
    unfold BufferPoolManagerInstance.allocatePage at hfault
    rw [if_pos hvalid] at hfault
    cases hfault

theorem HomeOf.fetchPg (h : HomeOf n i b) (hhome : pageId % n = i)
    {result : Option (Fin poolSize)} (hok : b.fetchPg pageId = .ok (result, final)) :
    HomeOf n i final ∧ final.nextPageId = b.nextPageId := by
  rcases BufferPoolManagerInstance.fetchPg_cases hok with ⟨f, -, -, rfl⟩ | ⟨-, -, hfresh⟩ |
    ⟨f, middle, -, hfresh, -, rfl⟩
  · exact ⟨h.of_same rfl rfl rfl fun _ _ => Or.inl, rfl⟩
  · exact h.findFreshPage hfresh
  · obtain ⟨hmiddle, hnext⟩ := h.findFreshPage hfresh
    refine ⟨hmiddle.of_same rfl rfl rfl fun other f' hmapped => ?_, hnext⟩
    rcases update_eq_some hmapped with hold | ⟨rfl, -⟩
    · exact Or.inl hold
    · exact Or.inr hhome

theorem HomeOf.unpinPg (h : HomeOf n i b) {isDirty result : Bool}
    (hok : b.unpinPg pageId isDirty = .ok (result, final)) :
    HomeOf n i final ∧ final.nextPageId = b.nextPageId := by
  rcases BufferPoolManagerInstance.unpinPg_cases hok with ⟨-, rfl, -⟩ |
    ⟨f, -, -, -, ⟨-, rfl⟩ | ⟨-, rfl⟩⟩
  · exact ⟨h, rfl⟩
  · exact ⟨h.of_same rfl rfl rfl fun _ _ => Or.inl, rfl⟩
  · exact ⟨h.of_same rfl rfl rfl fun _ _ => Or.inl, rfl⟩

theorem HomeOf.flushPgImp (h : HomeOf n i b) {result : Bool}
    (hok : b.flushPgImp pageId = .ok (result, final)) :
    HomeOf n i final ∧ final.nextPageId = b.nextPageId := by
  rcases BufferPoolManagerInstance.flushPgImp_cases hok with ⟨-, -, rfl⟩ | ⟨f, -, -, rfl⟩
  · exact ⟨h, rfl⟩
  · exact ⟨h.of_same rfl rfl rfl fun _ _ => Or.inl, rfl⟩

theorem HomeOf.deletePg (h : HomeOf n i b) :
    HomeOf n i (b.deletePg pageId).2 ∧ (b.deletePg pageId).2.nextPageId = b.nextPageId := by
  unfold BufferPoolManagerInstance.deletePg
  split
  · exact ⟨h, rfl⟩
  · dsimp only
    split
    · exact ⟨h, rfl⟩
    · refine ⟨h.of_same rfl rfl rfl fun other f hmapped => Or.inl ?_, rfl⟩
      rcases update_eq_some hmapped with hold | ⟨-, hnone⟩
      · exact hold
      · cases hnone

end Instance

/-! ## The pool -/

section Pool

variable {p final : ParallelBufferPoolManager n poolSize} {i : Fin n}
  {pageId : PageId}

/-- Every instance has the counter and the pages of its own remainder. -/
def Homed (p : ParallelBufferPoolManager n poolSize) : Prop := ∀ i : Fin n, HomeOf n i (p.bpmis i)

theorem onInstance_ok {α : Type} {result : α}
    {call : BufferPoolManagerInstance poolSize →
      Except PoolFault (α × BufferPoolManagerInstance poolSize)}
    (hok : p.onInstance i call = .ok (result, final)) :
    ∃ b, call (p.instanceAt i) = .ok (result, b) ∧
      final.bpmis = Function.update p.bpmis i b ∧ final.lastAllocIndex = p.lastAllocIndex := by
  obtain ⟨⟨raw, b⟩, hcall, hfinal⟩ := Except.bind_eq_ok_iff.mp hok
  cases hfinal
  exact ⟨b, hcall, rfl, rfl⟩

/-- The disk manager in an instance's own record does not matter. -/
theorem Homed.shared (h : p.Homed) (i : Fin n) :
    HomeOf n i (p.instanceAt i) :=
  (h i).of_same rfl rfl rfl fun _ _ => Or.inl

/-- What one call makes of the counters: the instance that allocates a page id takes the
next of its own, and no other counter changes. -/
def Counts (p final : ParallelBufferPoolManager n poolSize) : Option (PageId × Fin n) → Prop
  | none => ∀ j, (final.bpmis j).nextPageId = (p.bpmis j).nextPageId
  | some (pageId, i) => pageId = (p.bpmis i).nextPageId ∧
      ∀ j, (final.bpmis j).nextPageId = if j = i then pageId + n else (p.bpmis j).nextPageId

theorem Homed.update (h : p.Homed) {b : BufferPoolManagerInstance poolSize} (hb : HomeOf n i b)
    (hfinal : final.bpmis = Function.update p.bpmis i b) : final.Homed := by
  intro j
  rw [hfinal]
  by_cases hj : j = i
  · subst hj
    rw [Function.update_self]
    exact hb
  · rw [Function.update_of_ne hj]
    exact h j

theorem counts_none {b : BufferPoolManagerInstance poolSize}
    (hnext : b.nextPageId = (p.bpmis i).nextPageId)
    (hfinal : final.bpmis = Function.update p.bpmis i b) : Counts p final none := by
  intro j
  rw [hfinal]
  by_cases hj : j = i
  · subst hj
    rw [Function.update_self, hnext]
  · rw [Function.update_of_ne hj]

/-- A call of one instance that allocates nothing. -/
theorem Homed.onInstance {α : Type} (h : p.Homed) {result : α}
    {call : BufferPoolManagerInstance poolSize →
      Except PoolFault (α × BufferPoolManagerInstance poolSize)}
    (hcall : ∀ b b', HomeOf n i b → call b = .ok (result, b') →
      HomeOf n i b' ∧ b'.nextPageId = b.nextPageId)
    (hok : p.onInstance i call = .ok (result, final)) : final.Homed ∧ Counts p final none := by
  obtain ⟨b, hresult, hfinal, -⟩ := onInstance_ok hok
  obtain ⟨hb, hnext⟩ := hcall _ b (h.shared i) hresult
  exact ⟨h.update hb hfinal, counts_none hnext hfinal⟩

variable [NeZero n]

/-- The page id is one that `page_id_t` can hold, and not negative. -/
def IsPageId (pageId : PageId) : Prop := 0 ≤ pageId ∧ pageId < 2 ^ 31

instance : DecidablePred IsPageId := fun _ => inferInstanceAs (Decidable (_ ∧ _))

/-- A page is looked up where its remainder says. -/
theorem getBufferPoolManager_eq (h : IsPageId pageId) :
    ((getBufferPoolManager n pageId : Fin n) : Int) = pageId % n := by
  have hword : pageId % 2 ^ 64 = pageId := Int.emod_eq_of_lt h.1 (h.2.trans (by norm_num))
  change (((pageId % 2 ^ 64).toNat % n : Nat) : Int) = pageId % n
  rw [hword, Int.natCast_mod, Int.toNat_of_nonneg h.1]

theorem homed_create (hn : n ≤ 2 ^ 31) (diskManager : DiskManager) :
    (create n poolSize diskManager).Homed := by
  intro i
  have hlt : (i : Int) < 2 ^ 31 := by
    have hi := i.isLt
    omega
  have hnext : toInt32 (i : Int) = i := toInt32_of_bounds (by omega) hlt
  refine ⟨rfl, rfl, ?_, ?_, ?_, nofun⟩
  · exact (Int.natCast_nonneg _).trans_eq hnext.symm
  · exact hnext.trans_lt hlt
  · change toInt32 (i : Int) % (n : Int) = i
    rw [hnext]
    exact Int.emod_eq_of_lt (Int.natCast_nonneg _) (Int.ofNat_lt.mpr i.isLt)

theorem Homed.newPgLoop (h : p.Homed) (hn : n ≤ 2 ^ 31) {fuel : Nat} {startIndex : Fin n}
    {result : Option (PageId × Fin n × Fin poolSize)}
    (hok : newPgLoop fuel startIndex p = .ok (result, final))
    (hlimit : ∀ j, 0 ≤ (final.bpmis j).nextPageId) :
    final.Homed ∧ Counts p final (result.map fun page => (page.1, page.2.1)) := by
  induction fuel generalizing startIndex p with
  | zero =>
      cases hok
      exact ⟨h, fun _ => rfl⟩
  | succ fuel ih =>
      obtain ⟨⟨page, middle⟩, hcall, hrest⟩ := Except.bind_eq_ok_iff.mp hok
      obtain ⟨b, hnew, hmiddle, -⟩ := onInstance_ok hcall
      cases page with
      | some page =>
          obtain ⟨pageId, frameId⟩ := page
          cases hrest
          have hle := hlimit startIndex
          rw [hmiddle, Function.update_self] at hle
          obtain ⟨hb, hid, hnext⟩ := (h.shared startIndex).newPg_some hn hnew hle
          refine ⟨h.update hb hmiddle, hid, ?_⟩
          intro j
          rw [hmiddle]
          by_cases hj : j = startIndex
          · subst hj
            rw [Function.update_self, if_pos rfl, hnext]
          · rw [Function.update_of_ne hj, if_neg hj]
      | none =>
          obtain ⟨hb, hnext⟩ := (h.shared startIndex).newPg_none hnew
          have hhomed := h.update hb hmiddle
          have hsame : Counts p middle none := counts_none hnext hmiddle
          dsimp only at hrest
          split at hrest
          · obtain ⟨hfinal, hcounts⟩ := ih hhomed hrest
            refine ⟨hfinal, ?_⟩
            cases result with
            | none => exact fun j => (hcounts j).trans (hsame j)
            | some page =>
                refine ⟨hcounts.1.trans (hsame _), fun j => ?_⟩
                rw [hcounts.2 j, hsame j]
          · cases hrest
            exact ⟨hhomed, hsame⟩

theorem Homed.newPgLoop_ne_assertion (h : p.Homed) (fuel : Nat) (startIndex : Fin n) :
    ParallelBufferPoolManager.newPgLoop fuel startIndex p ≠ .error .assertion := by
  induction fuel generalizing startIndex p with
  | zero => nofun
  | succ fuel ih =>
      unfold ParallelBufferPoolManager.newPgLoop ParallelBufferPoolManager.onInstance
      have hstart := h.shared startIndex
      dsimp only
      rcases hnew : (p.instanceAt startIndex).newPg with fault | ⟨_ | page, b⟩
      · intro hfault
        cases Except.error.inj hfault
        exact hstart.newPg_ne_assertion hnew
      · change (if _ then ParallelBufferPoolManager.newPgLoop fuel _ _ else _) ≠ _
        split
        · exact ih (h.update (hstart.newPg_none hnew).1 rfl) _
        · nofun
      · nofun

/-- Every instance hands out its own remainder, so the assertion of `ValidatePageId` never fails. -/
theorem Homed.newPg_ne_assertion (h : p.Homed) : p.newPg ≠ .error .assertion := by
  unfold ParallelBufferPoolManager.newPg
  intro hfault
  rcases hresult : ParallelBufferPoolManager.newPgLoop n p.lastAllocIndex p with fault | result
  · rw [hresult] at hfault
    cases Except.error.inj hfault
    exact h.newPgLoop_ne_assertion n p.lastAllocIndex hresult
  · rw [hresult] at hfault
    cases hfault

/-! ## Runs -/

/-- The page id and the instance, if the call allocated a page. -/
def Outcome.allocated : Outcome n poolSize → Option (PageId × Fin n)
  | .newPage result => result.map fun page => (page.1, page.2.1)
  | _ => none

/-- The page id that a call is given. -/
def pageIdOf : Event → Option PageId
  | .newPage => none
  | .fetchPage pageId | .unpinPage pageId _ | .flushPage pageId | .deletePage pageId => some pageId

/-- The page ids are in the range of `page_id_t` and not negative, and no counter passes the
limit of an `int`, where it would become negative. -/
def InRange (p : ParallelBufferPoolManager n poolSize) (e : Event) : Prop :=
  (∀ pageId, pageIdOf e = some pageId → IsPageId pageId) ∧
    ∀ outcome next, p.step e = .ok (outcome, next) → ∀ j, 0 ≤ (next.bpmis j).nextPageId

instance (p : ParallelBufferPoolManager n poolSize) (e : Event) : Decidable (p.InRange e) :=
  have : Decidable (∀ pageId, pageIdOf e = some pageId → IsPageId pageId) :=
    match pageIdOf e with
    | none => isTrue nofun
    | some pageId => decidable_of_iff (IsPageId pageId)
        ⟨fun hvalid _ heq => Option.some.inj heq ▸ hvalid, fun hall => hall pageId rfl⟩
  have : Decidable (∀ outcome next, p.step e = .ok (outcome, next) →
      ∀ j, 0 ≤ (next.bpmis j).nextPageId) :=
    match p.step e with
    | .error _ => isTrue nofun
    | .ok (outcome, next) => decidable_of_iff (∀ j, 0 ≤ (next.bpmis j).nextPageId)
        ⟨fun hnext _ _ heq => (Prod.mk.inj (Except.ok.inj heq)).2 ▸ hnext,
          fun hall => hall outcome next rfl⟩
  inferInstanceAs (Decidable (_ ∧ _))

/-- The call is one of instance `i`, and does nothing to the others. -/
def GoesTo (p : ParallelBufferPoolManager n poolSize) (e : Event) (i : Fin n) : Prop :=
  ∀ outcome next, p.step e = .ok (outcome, next) → ∃ result b,
    (p.instanceAt i).step e = .ok (result, b) ∧ next.bpmis = Function.update p.bpmis i b

/-- A call that does no more than pass on the answer of an instance. -/
theorem GoesTo.of_done {call : BufferPoolManagerInstance poolSize →
      Except PoolFault (Bool × BufferPoolManagerInstance poolSize)} {e : Event}
    (hpool : p.step e = (p.onInstance i call).map fun (result, p) => (.done result, p))
    (hinstance : ∀ b : BufferPoolManagerInstance poolSize,
      b.step e = (call b).map fun (result, b) => (.done result, b)) : p.GoesTo e i := by
  intro outcome next hstep
  rw [hpool] at hstep
  obtain ⟨⟨result, final⟩, hok, heq⟩ := BufferPoolManagerInstance.map_ok hstep
  cases heq
  obtain ⟨b, hb, hupdate, -⟩ := onInstance_ok hok
  refine ⟨.done result, b, ?_, hupdate⟩
  rw [hinstance, hb]
  rfl

theorem goesTo_getBufferPoolManager {e : Event} (hpage : pageIdOf e = some pageId) :
    p.GoesTo e (getBufferPoolManager n pageId) := by
  cases e with
  | newPage => cases hpage
  | fetchPage asked =>
      cases hpage
      intro outcome next hstep
      obtain ⟨⟨result, final⟩, hok, heq⟩ := BufferPoolManagerInstance.map_ok hstep
      cases heq
      obtain ⟨⟨raw, middle⟩, hcall, hfinal⟩ := Except.bind_eq_ok_iff.mp hok
      cases hfinal
      obtain ⟨b, hb, hupdate, -⟩ := onInstance_ok hcall
      exact ⟨_, b, congrArg (Except.map _) hb, hupdate⟩
  | unpinPage asked isDirty =>
      cases hpage
      exact .of_done rfl fun _ => rfl
  | flushPage asked =>
      cases hpage
      exact .of_done rfl fun _ => rfl
  | deletePage asked =>
      cases hpage
      have hinstance : ∀ b : BufferPoolManagerInstance poolSize, b.step (.deletePage pageId) =
          Except.map (fun (result, b) => (.done result, b)) (.ok (b.deletePg pageId)) :=
        fun _ => rfl
      exact .of_done rfl hinstance

theorem Homed.step (h : p.Homed) (hn : n ≤ 2 ^ 31) {e : Event} {outcome : Outcome n poolSize}
    (hrange : p.InRange e) (hstep : p.step e = .ok (outcome, final)) :
    final.Homed ∧ Counts p final outcome.allocated := by
  have hlimit := hrange.2 outcome final hstep
  have hhome : ∀ pageId, pageIdOf e = some pageId →
      pageId % n = ((getBufferPoolManager n pageId : Fin n) : Int) :=
    fun pageId hpage => (getBufferPoolManager_eq (hrange.1 pageId hpage)).symm
  cases e with
  | newPage =>
      obtain ⟨⟨result, next⟩, hok, heq⟩ := BufferPoolManagerInstance.map_ok hstep
      cases heq
      obtain ⟨⟨raw, middle⟩, hloop, hfinal⟩ := Except.bind_eq_ok_iff.mp hok
      cases hfinal
      obtain ⟨hmiddle, hcounts⟩ := h.newPgLoop hn hloop hlimit
      exact ⟨hmiddle, hcounts⟩
  | fetchPage asked =>
      obtain ⟨⟨result, next⟩, hok, heq⟩ := BufferPoolManagerInstance.map_ok hstep
      cases heq
      obtain ⟨⟨raw, middle⟩, hcall, hfinal⟩ := Except.bind_eq_ok_iff.mp hok
      cases hfinal
      exact h.onInstance (fun _ _ hb => hb.fetchPg (hhome asked rfl)) hcall
  | unpinPage asked isDirty =>
      obtain ⟨⟨result, next⟩, hok, heq⟩ := BufferPoolManagerInstance.map_ok hstep
      cases heq
      exact h.onInstance (fun _ _ hb => hb.unpinPg) hok
  | flushPage asked =>
      obtain ⟨⟨result, next⟩, hok, heq⟩ := BufferPoolManagerInstance.map_ok hstep
      cases heq
      exact h.onInstance (fun _ _ hb => hb.flushPgImp) hok
  | deletePage asked =>
      have hdelete : (p.deletePg asked).map (fun (result, p) => (.done result, p)) =
          .ok (outcome, final) := hstep
      obtain ⟨⟨result, next⟩, hok, heq⟩ := BufferPoolManagerInstance.map_ok hdelete
      cases heq
      refine h.onInstance (fun b b' hb hcall => ?_) hok
      obtain rfl : (b.deletePg asked).2 = b' := congrArg Prod.snd (Except.ok.inj hcall)
      exact hb.deletePg

/-- What a run hands out: ids of the instance's own remainder, from where its counter stood
up to where it stands now, and none of them twice. -/
theorem Homed.run (h : p.Homed) (hn : n ≤ 2 ^ 31) {events : List Event}
    {outputs : List (Outcome n poolSize)}
    (hrun : (machine n poolSize).run p events = .ok (outputs, final))
    (hrange : (machine n poolSize).Guarded InRange p events) :
    final.Homed ∧
      (∀ page ∈ outputs.filterMap Outcome.allocated, IsPageId page.1 ∧
        page.1 % n = page.2 ∧ (p.bpmis page.2).nextPageId ≤ page.1) ∧
      ((outputs.filterMap Outcome.allocated).map Prod.fst).Nodup := by
  induction events generalizing p outputs with
  | nil =>
      rw [Machine.run_nil] at hrun
      cases hrun
      exact ⟨h, by simp, by simp⟩
  | cons e rest ih =>
      obtain ⟨outcome, next, rest', hstep, hrest, rfl⟩ := Machine.run_cons_ok hrun
      obtain ⟨hnext, hcounts⟩ := h.step hn hrange.1 hstep
      obtain ⟨hfinal, hpages, hnodup⟩ := ih hnext hrest (hrange.2 outcome next hstep)
      refine ⟨hfinal, ?_⟩
      cases hallocated : outcome.allocated with
      | none =>
          rw [hallocated] at hcounts
          rw [List.filterMap_cons_none hallocated]
          refine ⟨fun page hmem => ?_, hnodup⟩
          obtain ⟨hvalid, hhome, hle⟩ := hpages page hmem
          exact ⟨hvalid, hhome, (hcounts page.2).symm.trans_le hle⟩
      | some page =>
          obtain ⟨pageId, i⟩ := page
          rw [hallocated] at hcounts
          obtain ⟨hid, hcounter⟩ := hcounts
          have hhome : pageId % n = (i : Int) := hid ▸ (h i).counter
          -- a later id of the same instance is at least the counter that follows this one
          have hlater : ∀ later ∈ rest'.filterMap Outcome.allocated,
              later.2 = i → pageId < later.1 := by
            intro later hmem hsame
            obtain ⟨-, -, hle⟩ := hpages later hmem
            rw [hcounter, if_pos hsame] at hle
            have hpos : (0 : Int) < n := Int.natCast_pos.mpr (NeZero.pos n)
            exact (lt_add_of_pos_right pageId hpos).trans_le hle
          rw [List.filterMap_cons_some hallocated]
          refine ⟨fun page hmem => ?_, ?_⟩
          · rcases List.mem_cons.mp hmem with rfl | htail
            · exact ⟨hid ▸ ⟨(h i).nonneg, (h i).below⟩, hhome, hid.ge⟩
            · obtain ⟨hvalid, hother, hle⟩ := hpages page htail
              refine ⟨hvalid, hother, ?_⟩
              by_cases hsame : page.2 = i
              · exact hsame ▸ (hid.ge.trans (hlater page htail hsame).le)
              · rw [hcounter, if_neg hsame] at hle
                exact hle
          · rw [List.map_cons, List.nodup_cons]
            refine ⟨fun hmem => ?_, hnodup⟩
            obtain ⟨later, hlatermem, heq⟩ := List.mem_map.mp hmem
            have hsame : later.2 = i := by
              have hremainder := (hpages later hlatermem).2.1
              rw [heq, hhome] at hremainder
              exact Fin.ext (Int.ofNat_inj.mp hremainder.symm)
            exact absurd heq (hlater later hlatermem hsame).ne'

/-- Over any run a page id is handed out once, by the instance of its remainder; a resident
page is in that instance only; and what is asked of a page goes to the instance that
allocated it. -/
theorem run_routed (hn : n ≤ 2 ^ 31) {diskManager : DiskManager} {events : List Event}
    {outputs : List (Outcome n poolSize)}
    (hrun : (machine n poolSize).run (create n poolSize diskManager) events =
      .ok (outputs, final))
    (hrange : (machine n poolSize).Guarded InRange (create n poolSize diskManager) events) :
    ((outputs.filterMap Outcome.allocated).map Prod.fst).Nodup ∧
    (∀ page ∈ outputs.filterMap Outcome.allocated, page.1 % n = page.2) ∧
    (∀ (i : Fin n) (pageId : PageId) (f : Fin poolSize),
      (final.bpmis i).pageTable pageId = some f → pageId % n = i) ∧
    ∀ page ∈ outputs.filterMap Outcome.allocated, ∀ e, pageIdOf e = some page.1 →
      final.GoesTo e page.2 := by
  obtain ⟨hfinal, hpages, hnodup⟩ := (homed_create hn diskManager).run hn hrun hrange
  refine ⟨hnodup, fun page hmem => (hpages page hmem).2.1, fun i => (hfinal i).resident, ?_⟩
  intro page hmem e hpage
  obtain ⟨hvalid, hhome, -⟩ := hpages page hmem
  have hroute : getBufferPoolManager n page.1 = page.2 :=
    Fin.ext (Int.ofNat_inj.mp ((getBufferPoolManager_eq hvalid).trans hhome))
  exact hroute ▸ goesTo_getBufferPoolManager hpage

end Pool

/-- Two instances of one frame each: the third `NewPage` finds no frame, and the fourth has to
pass over the instance whose turn it is. -/
def turnsTaken : List Event :=
  [.newPage, .newPage, .newPage, .unpinPage 0 true, .newPage, .unpinPage 1 false, .fetchPage 5]

theorem run_routed_turnsTaken : ∃ (outputs : List (Outcome 2 1))
    (final : ParallelBufferPoolManager 2 1),
    outputs.filterMap Outcome.allocated = [(0, 0), (1, 1), (2, 0)] ∧
      ((outputs.filterMap Outcome.allocated).map Prod.fst).Nodup ∧
      (∀ page ∈ outputs.filterMap Outcome.allocated, page.1 % (2 : Nat) = page.2) ∧
      (∀ (i : Fin 2) (pageId : PageId) (f : Fin 1),
        (final.bpmis i).pageTable pageId = some f → pageId % (2 : Nat) = i) ∧
      ∀ page ∈ outputs.filterMap Outcome.allocated, ∀ e, pageIdOf e = some page.1 →
        final.GoesTo e page.2 := by
  have hrun : (((machine 2 1).run (create 2 1 { bytes := fun _ => 0, size := 0 })
      turnsTaken).toOption.map fun reached => reached.1.filterMap Outcome.allocated) =
        some [(0, 0), (1, 1), (2, 0)] := by decide +kernel
  have hrange : (machine 2 1).Guarded InRange (create 2 1 { bytes := fun _ => 0, size := 0 })
      turnsTaken := by decide +kernel
  obtain ⟨⟨outputs, final⟩, hsome, hallocated⟩ := Option.map_eq_some_iff.mp hrun
  exact ⟨outputs, final, hallocated,
    run_routed (by norm_num) (Except.toOption_eq_some_iff.mp hsome) hrange⟩

end ParallelBufferPoolManager

end BusTub
