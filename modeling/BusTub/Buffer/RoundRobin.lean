import BusTub.Buffer.FailedAllocation
import BusTub.Buffer.ParallelBufferPoolManager

/-! # Whose turn it is to allocate

`ParallelBufferPoolManager::NewPgImp` asks one instance after the other, from `last_alloc_index_`
on, until one has a page or it is back at the beginning. Its loop is a search through the
instances in cyclic order. Indices are `uint32_t`, which is enough: the constructor counts the
instances in a `uint32_t` too.
-/

namespace BusTub

namespace BufferPoolManagerInstance

variable {poolSize : Nat} {b final : BufferPoolManagerInstance poolSize}

/-- No frame is free or can be evicted. -/
def Exhausted (b : BufferPoolManagerInstance poolSize) : Prop :=
  b.freeList = [] ∧ b.replacer.frames = []

instance (b : BufferPoolManagerInstance poolSize) : Decidable b.Exhausted :=
  inferInstanceAs (Decidable (_ ∧ _))

/-- An exhausted instance gives no page, any other one a page or a fault; and without a page
nothing has changed. -/
theorem newPg_eq_none_iff : b.newPg = .ok (none, final) ↔ b.Exhausted ∧ final = b := by
  rw [newPg_none_iff]
  constructor
  · intro hfresh
    exact ⟨findFreshPage_none_iff.mp ⟨final, hfresh⟩, findFreshPage_eq_none hfresh⟩
  · rintro ⟨hexhausted, rfl⟩
    obtain ⟨same, hfresh⟩ := findFreshPage_none_iff.mpr hexhausted
    cases findFreshPage_eq_none hfresh
    exact hfresh

end BufferPoolManagerInstance

namespace ParallelBufferPoolManager

variable {n poolSize : Nat} {p final : ParallelBufferPoolManager n poolSize} {i : Fin n}

/-- Ask these instances for a new page, until one has it. -/
def search : List (Fin n) → ParallelBufferPoolManager n poolSize →
    Except PoolFault (Option (PageId × Fin n × Fin poolSize) ×
      ParallelBufferPoolManager n poolSize)
  | [], p => .ok (none, p)
  | i :: rest, p => do
      match ← p.onInstance i (·.newPg) with
      | (some (pageId, frameId), p) => .ok (some (pageId, i, frameId), p)
      | (none, p) => search rest p

/-! ## One turn -/

/-- What a turn without a page leaves. -/
def passed (p : ParallelBufferPoolManager n poolSize) (i : Fin n) :
    ParallelBufferPoolManager n poolSize :=
  { p with bpmis := Function.update p.bpmis i (p.instanceAt i) }

theorem passed_bpmis (p : ParallelBufferPoolManager n poolSize) (i j : Fin n) :
    ((p.passed i).bpmis j).freeList = (p.bpmis j).freeList ∧
      ((p.passed i).bpmis j).replacer = (p.bpmis j).replacer := by
  by_cases hj : j = i
  · subst hj
    simp [passed, instanceAt]
  · simp [passed, hj]

theorem passed_exhausted_iff (p : ParallelBufferPoolManager n poolSize) (i j : Fin n) :
    ((p.passed i).bpmis j).Exhausted ↔ (p.bpmis j).Exhausted := by
  unfold BufferPoolManagerInstance.Exhausted
  rw [(passed_bpmis p i j).1, (passed_bpmis p i j).2]

theorem onInstance_newPg_none_iff : p.onInstance i (·.newPg) = .ok (none, final) ↔
    (p.bpmis i).Exhausted ∧ final = p.passed i := by
  constructor
  · intro hcall
    obtain ⟨⟨raw, b⟩, hnew, hfinal⟩ := Except.bind_eq_ok_iff.mp hcall
    cases hfinal
    obtain ⟨hexhausted, rfl⟩ := BufferPoolManagerInstance.newPg_eq_none_iff.mp hnew
    exact ⟨hexhausted, rfl⟩
  · rintro ⟨hexhausted, rfl⟩
    have hnew : (p.instanceAt i).newPg = .ok (none, p.instanceAt i) :=
      BufferPoolManagerInstance.newPg_eq_none_iff.mpr ⟨hexhausted, rfl⟩
    unfold onInstance
    dsimp only
    rw [hnew]
    rfl

theorem search_cons_of_exhausted (rest : List (Fin n)) (h : (p.bpmis i).Exhausted) :
    search (i :: rest) p = search rest (p.passed i) := by
  rw [search, onInstance_newPg_none_iff.mpr ⟨h, rfl⟩]
  rfl

theorem search_cons_of_not_exhausted (rest : List (Fin n)) (h : ¬ (p.bpmis i).Exhausted) :
    search (i :: rest) p = (p.onInstance i (·.newPg)).map fun found =>
      (found.1.map fun page => (page.1, i, page.2), found.2) := by
  rw [search]
  rcases hcall : p.onInstance i (·.newPg) with fault | ⟨_ | page, next⟩
  · rfl
  · exact absurd (onInstance_newPg_none_iff.mp hcall).1 h
  · rfl

/-! ## The search -/

/-- A search finds nothing exactly when all of the instances are exhausted. -/
theorem search_none_iff (order : List (Fin n)) :
    (∃ final, search order p = .ok (none, final)) ↔ ∀ i ∈ order, (p.bpmis i).Exhausted := by
  induction order generalizing p with
  | nil => exact iff_of_true ⟨p, rfl⟩ nofun
  | cons i rest ih =>
      rw [List.forall_mem_cons]
      by_cases hexhausted : (p.bpmis i).Exhausted
      · rw [search_cons_of_exhausted rest hexhausted, ih]
        simp only [passed_exhausted_iff, hexhausted, true_and]
      · rw [search_cons_of_not_exhausted rest hexhausted]
        refine iff_of_false ?_ fun hall => hexhausted hall.1
        rintro ⟨final, hfound⟩
        obtain ⟨⟨result, next⟩, hcall, heq⟩ := BufferPoolManagerInstance.map_ok hfound
        cases result with
        | none => exact hexhausted (onInstance_newPg_none_iff.mp hcall).1
        | some page => cases heq

/-- What a search finds comes from the first instance that is not exhausted. -/
theorem search_some {order : List (Fin n)} {page : PageId × Fin n × Fin poolSize}
    (hfound : search order p = .ok (some page, final)) :
    ∃ before after, order = before ++ page.2.1 :: after ∧
      (∀ j ∈ before, (p.bpmis j).Exhausted) ∧ ¬ (p.bpmis page.2.1).Exhausted := by
  induction order generalizing p with
  | nil => cases hfound
  | cons i rest ih =>
      by_cases hexhausted : (p.bpmis i).Exhausted
      · rw [search_cons_of_exhausted rest hexhausted] at hfound
        obtain ⟨before, after, rfl, hbefore, hpage⟩ := ih hfound
        simp only [passed_exhausted_iff] at hbefore hpage
        exact ⟨i :: before, after, rfl, List.forall_mem_cons.mpr ⟨hexhausted, hbefore⟩, hpage⟩
      · rw [search_cons_of_not_exhausted rest hexhausted] at hfound
        obtain ⟨⟨result, next⟩, -, heq⟩ := BufferPoolManagerInstance.map_ok hfound
        cases result with
        | none => cases heq
        | some raw =>
            cases heq
            exact ⟨[], rest, rfl, nofun, hexhausted⟩

theorem search_lastAllocIndex {order : List (Fin n)}
    {result : Option (PageId × Fin n × Fin poolSize)}
    (hfound : search order p = .ok (result, final)) : final.lastAllocIndex = p.lastAllocIndex := by
  induction order generalizing p with
  | nil =>
      cases hfound
      rfl
  | cons i rest ih =>
      by_cases hexhausted : (p.bpmis i).Exhausted
      · rw [search_cons_of_exhausted rest hexhausted] at hfound
        exact ih (p := p.passed i) hfound
      · rw [search_cons_of_not_exhausted rest hexhausted] at hfound
        obtain ⟨⟨raw, next⟩, hcall, heq⟩ := BufferPoolManagerInstance.map_ok hfound
        cases heq
        exact (onInstance_ok hcall).choose_spec.2.2

/-! ## The loop -/

section Loop

variable [NeZero n]

/-- So many instances in cyclic order. -/
def cyclic : Nat → Fin n → List (Fin n)
  | 0, _ => []
  | count + 1, i => i :: cyclic count (i + 1)

/-- The instances that so many turns come to are those at a smaller distance. -/
theorem mem_cyclic {count : Nat} {i j : Fin n} : j ∈ cyclic count i ↔ (j - i).val < count := by
  induction count generalizing i with
  | zero => exact iff_of_false List.not_mem_nil (Nat.not_lt_zero _)
  | succ count ih =>
      rw [cyclic, List.mem_cons, ih, ← sub_sub]
      by_cases hj : j = i
      · rw [hj, sub_self]
        exact iff_of_true (Or.inl rfl) (Nat.succ_pos count)
      · have hne : j - i ≠ 0 := sub_ne_zero.mpr hj
        have hpos : 0 < (j - i).val := Nat.pos_of_ne_zero (mt Fin.val_eq_zero_iff.mp hne)
        rw [or_iff_right hj, Fin.val_sub_one_of_ne_zero hne]
        omega

/-- The instance before this one is the last that is come to. -/
theorem val_sub_add_one (i : Fin n) : (i - (i + 1)).val = n - 1 := by
  obtain ⟨m, rfl⟩ := Nat.exists_eq_succ_of_ne_zero (NeZero.ne n)
  rw [sub_add_cancel_left, Fin.coe_neg_one, Nat.succ_sub_one]

theorem nodup_cyclic {count : Nat} (hcount : count ≤ n) (i : Fin n) : (cyclic count i).Nodup := by
  induction count generalizing i with
  | zero => exact List.nodup_nil
  | succ count ih =>
      refine List.nodup_cons.mpr ⟨?_, ih (Nat.le_of_succ_le hcount) (i + 1)⟩
      rw [mem_cyclic, val_sub_add_one]
      omega

/-- From an instance that is `distance` turns before the end, the loop is a search through these
instances. -/
theorem newPgLoop_eq_search {fuel distance : Nat} {startIndex : Fin n}
    (hdistance : (p.lastAllocIndex - (startIndex + 1)).val = distance) (hfuel : distance < fuel) :
    newPgLoop fuel startIndex p = search (cyclic (distance + 1) startIndex) p := by
  induction distance generalizing fuel startIndex p with
  | zero =>
      obtain ⟨fuel, rfl⟩ := Nat.exists_eq_succ_of_ne_zero hfuel.ne'
      have hend : startIndex + 1 = p.lastAllocIndex :=
        (sub_eq_zero.mp (Fin.val_eq_zero_iff.mp hdistance)).symm
      unfold newPgLoop
      rw [cyclic, cyclic, search]
      rcases hcall : p.onInstance startIndex (·.newPg) with fault | ⟨_ | page, next⟩
      · rfl
      · obtain ⟨-, -, -, hlast⟩ := onInstance_ok hcall
        change (if startIndex + 1 ≠ next.lastAllocIndex then _ else _) = _
        rw [hlast, if_neg (not_not.mpr hend)]
        rfl
      · rfl
  | succ distance ih =>
      obtain ⟨fuel, rfl⟩ := Nat.exists_eq_succ_of_ne_zero (Nat.ne_zero_of_lt hfuel)
      have hne : p.lastAllocIndex - (startIndex + 1) ≠ 0 := by
        intro hzero
        rw [hzero, Fin.val_zero] at hdistance
        cases hdistance
      unfold newPgLoop
      rw [cyclic, search]
      rcases hcall : p.onInstance startIndex (·.newPg) with fault | ⟨_ | page, next⟩
      · rfl
      · obtain ⟨-, -, -, hlast⟩ := onInstance_ok hcall
        change (if startIndex + 1 ≠ next.lastAllocIndex then _ else _) = search _ next
        rw [if_pos]
        · apply ih
          · rw [hlast, ← sub_sub, Fin.val_sub_one_of_ne_zero hne, hdistance, Nat.add_sub_cancel]
          · exact Nat.lt_of_succ_lt_succ hfuel
        · rw [hlast]
          exact fun hend => hne (sub_eq_zero.mpr hend.symm)
      · rfl

/-- The loop of `NewPgImp` is a search through all of the instances, in cyclic order from
`last_alloc_index_` on, and has ended after `n` turns. -/
theorem newPgLoop_eq_search_cyclic {fuel : Nat} (hfuel : n ≤ fuel) :
    newPgLoop fuel p.lastAllocIndex p = search (cyclic n p.lastAllocIndex) p := by
  have hdistance := val_sub_add_one p.lastAllocIndex
  have hpos : 0 < n := NeZero.pos n
  have hcount : n - 1 + 1 = n := Nat.sub_add_cancel hpos
  rw [newPgLoop_eq_search hdistance (by omega), hcount]

/-- `NewPgImp` asks each instance at most once, in cyclic order from `last_alloc_index_` on; it
gives nothing exactly when all of the instances are exhausted, and otherwise a page of the first
that is not; the next call begins one instance further on; and no more than `n` turns are made. -/
theorem newPg_roundRobin (p : ParallelBufferPoolManager n poolSize) :
    (cyclic n p.lastAllocIndex).Nodup ∧
    (∀ fuel, n ≤ fuel →
      newPgLoop fuel p.lastAllocIndex p = search (cyclic n p.lastAllocIndex) p) ∧
    ((∃ final, p.newPg = .ok (none, final)) ↔ ∀ i, (p.bpmis i).Exhausted) ∧
    (∀ page final, p.newPg = .ok (some page, final) → ∃ before after,
      cyclic n p.lastAllocIndex = before ++ page.2.1 :: after ∧
        (∀ j ∈ before, (p.bpmis j).Exhausted) ∧ ¬ (p.bpmis page.2.1).Exhausted) ∧
    ∀ result final, p.newPg = .ok (result, final) →
      final.lastAllocIndex.val = (p.lastAllocIndex.val + 1) % n := by
  have hloop : newPgLoop n p.lastAllocIndex p = search (cyclic n p.lastAllocIndex) p :=
    newPgLoop_eq_search_cyclic le_rfl
  have hall : ∀ i, i ∈ cyclic n p.lastAllocIndex := fun i => mem_cyclic.mpr (Fin.is_lt _)
  -- what the call returns is what the search finds
  have hcall : ∀ {result final}, p.newPg = .ok (result, final) → ∃ found,
      search (cyclic n p.lastAllocIndex) p = .ok (result, found) ∧
        final = { found with lastAllocIndex := found.lastAllocIndex + 1 } := by
    intro result final hnew
    obtain ⟨⟨raw, found⟩, hfound, hfinal⟩ := Except.bind_eq_ok_iff.mp hnew
    cases hfinal
    exact ⟨found, hloop ▸ hfound, rfl⟩
  refine ⟨nodup_cyclic le_rfl _, fun fuel => newPgLoop_eq_search_cyclic, ?_, ?_, ?_⟩
  · have hnone := search_none_iff (p := p) (cyclic n p.lastAllocIndex)
    simp only [hall, forall_const] at hnone
    rw [← hnone]
    constructor
    · rintro ⟨final, hnew⟩
      obtain ⟨found, hfound, -⟩ := hcall hnew
      exact ⟨found, hfound⟩
    · rintro ⟨found, hfound⟩
      exact ⟨_, Except.bind_eq_ok_iff.mpr ⟨_, hloop.trans hfound, rfl⟩⟩
  · intro page final hnew
    obtain ⟨found, hfound, -⟩ := hcall hnew
    exact search_some hfound
  · intro result final hnew
    obtain ⟨found, hfound, rfl⟩ := hcall hnew
    dsimp only
    rw [search_lastAllocIndex hfound, Fin.val_add, Fin.val_one', Nat.add_mod_mod]

end Loop

/-- Two instances of one frame each, on an empty file. The turn is that of the second one, which
has no frame to give. -/
def secondExhausted : ParallelBufferPoolManager 2 1 :=
  let p := create 2 1 { bytes := fun _ => 0, size := 0 }
  { p with
    bpmis := Function.update p.bpmis 1 { p.bpmis 1 with freeList := [] }
    lastAllocIndex := 1 }

/-- The first one gives a page, and the next turn is its own. -/
theorem newPg_roundRobin_secondExhausted : ∃ page final,
    secondExhausted.newPg = .ok (some page, final) ∧ page.2.1 = 0 ∧
      final.lastAllocIndex.val = 0 ∧ ∃ before after,
        cyclic 2 1 = before ++ 0 :: after ∧ ∀ j ∈ before, (secondExhausted.bpmis j).Exhausted := by
  obtain ⟨-, -, -, hfound, hlast⟩ := newPg_roundRobin secondExhausted
  obtain ⟨before, after, horder, hbefore, -⟩ := hfound _ _ rfl
  exact ⟨_, _, rfl, rfl, hlast _ _ rfl, before, after, horder, hbefore⟩

end ParallelBufferPoolManager

end BusTub
