import BusTub.Table.PageRefinement

/-! # Operations of table pages

Each function of a table page does to the slots what its name says, fails where
the function on slots fails, and leaves the links to other pages as they are.
-/

namespace BusTub.TablePage

open Memory

variable {p : Memory} {slots slots' : List Slot} {rid : RID} {tuple old : Tuple}

theorem SameLinks.refl (p : Memory) : SameLinks p p := fun _ _ => rfl

theorem SameLinks.trans {p p' p'' : Memory} (h : SameLinks p p') (h' : SameLinks p' p'') :
    SameLinks p p'' := fun a ha => (h' a ha).trans (h a ha)

theorem SameLinks.getTablePageId {p p' : Memory} (h : SameLinks p p') :
    getTablePageId p' = getTablePageId p := by
  unfold TablePage.getTablePageId
  rw [read32_congr fun i hi => h (0 + i) (by omega)]

theorem SameLinks.getNextPageId {p p' : Memory} (h : SameLinks p p') :
    getNextPageId p' = getNextPageId p := by
  unfold TablePage.getNextPageId offsetNextPageId
  rw [read32_congr fun i hi => h (12 + i) (by omega)]

theorem SameLinks.getPrevPageId {p p' : Memory} (h : SameLinks p p') :
    getPrevPageId p' = getPrevPageId p := by
  unfold TablePage.getPrevPageId offsetPrevPageId
  rw [read32_congr fun i hi => h (8 + i) (by omega)]

/-! ## Updates -/

theorem Represents.updateTuple_of_none (h : Represents p slots) (hpos : 0 < tuple.length)
    (hnone : Slots.update slots rid.slotNum tuple = none) :
    updateTuple p tuple rid = .ok none := by
  unfold updateTuple
  rw [if_neg (not_not.mpr hpos)]
  dsimp only
  by_cases hlt : rid.slotNum < getTupleCount p
  · obtain ⟨s, hslot⟩ := h.slot_lt_iff.mp hlt
    rw [if_neg (by omega), h.isDeleted_eq hslot]
    cases s with
    | empty => rfl
    | full deleted data =>
        cases deleted with
        | true => rfl
        | false =>
            have hfit : Slots.freeSpace slots + data.length < tuple.length := by
              by_contra hroom
              rw [Slots.update_eq_some_iff.mpr ⟨hslot, Nat.le_of_not_lt hroom, rfl⟩] at hnone
              cases hnone
            have hsize : getTupleSize p rid.slotNum = data.length := h.sizes _ _ hslot
            have hwrap : toUInt32 (getFreeSpaceRemaining p + getTupleSize p rid.slotNum) ≤
                getFreeSpaceRemaining p + getTupleSize p rid.slotNum := Nat.mod_le _ _
            rw [h.freeSpace_eq, hsize] at hwrap ⊢
            rw [if_neg (by simp [Slot.visible?]), if_pos (by omega)]
  · rw [if_pos (by omega)]

theorem Represents.updateTuple_of_some (h : Represents p slots) (hpos : 0 < tuple.length)
    (hsome : Slots.update slots rid.slotNum tuple = some (old, slots')) :
    ∃ p', updateTuple p tuple rid = .ok (some (old, p')) ∧ Represents p' slots' ∧
      SameLinks p p' := by
  obtain ⟨hslot, hfit, rfl⟩ := Slots.update_eq_some_iff.mp hsome
  obtain ⟨hroom, hlt, hold, hlow, hhigh⟩ := h.bounds hslot
  obtain ⟨hroom', hmoved⟩ := h.moved hslot hfit
  have hsize : getTupleSize p rid.slotNum = old.length := h.sizes _ _ hslot
  have hread := (h.slotAt _ _ hslot).2.2.2
  have hcount := h.count
  have hsmall : Slots.freeSpace slots + old.length < 2 ^ 32 := by
    unfold Slots.freeSpace pageSize
    omega
  have hfits : ¬ toUInt32 (getFreeSpaceRemaining p + old.length) < tuple.length := by
    rw [h.freeSpace_eq]
    unfold toUInt32
    rw [Nat.mod_eq_of_lt hsmall]
    omega
  obtain ⟨hfinal, hlinks⟩ := h.update hslot hpos hmoved hroom'
  refine ⟨_, ?_, hfinal, hlinks⟩
  unfold updateTuple
  dsimp only
  rw [if_neg (not_not.mpr hpos), if_neg (by omega), h.isDeleted_eq hslot,
    if_neg (by simp [Slot.visible?]), hsize, if_neg hfits, if_neg (not_not.mpr hlow), hread]

/-! ## Deletions -/

theorem Represents.applyDelete_of_ok (h : Represents p slots)
    (hok : Slots.applyDelete slots rid.slotNum = .ok slots') :
    ∃ p', applyDelete p rid = .ok p' ∧ Represents p' slots' ∧ SameLinks p p' := by
  unfold Slots.applyDelete at hok
  split at hok
  · cases hok
  · cases hok
  next deleted data hslot =>
    cases hok
    obtain ⟨hroom, hlt, hold, hlow, hhigh⟩ := h.bounds hslot
    have hmoved := (h.moved hslot (Nat.zero_le (Slots.freeSpace slots + data.length))).2
    rw [Nat.sub_zero] at hmoved
    obtain ⟨hfinal, hlinks⟩ := h.delete hslot hmoved
    have hcount := h.count
    have hword : (if isDeleted (getTupleSize p rid.slotNum) then
        unsetDeletedFlag (getTupleSize p rid.slotNum) else getTupleSize p rid.slotNum) =
          data.length := by
      rw [h.isDeleted_eq hslot, h.sizes _ _ hslot]
      cases deleted with
      | false => rw [if_neg (by simp [Slot.visible?]), sizeWord]
      | true =>
          rw [if_pos (by simp [Slot.visible?]), sizeWord]
          exact unsetDeletedFlag_add_deleteMask (by omega)
    refine ⟨_, ?_, hfinal, hlinks⟩
    unfold applyDelete
    dsimp only
    rw [if_neg (by omega), if_neg (not_not.mpr hlow), hword]

theorem Represents.applyDelete_of_error (h : Represents p slots) {fault : HeapFault}
    (herror : Slots.applyDelete slots rid.slotNum = .error fault) :
    applyDelete p rid = .error fault := by
  have hcount := h.count
  unfold applyDelete
  dsimp only
  unfold Slots.applyDelete at herror
  split at herror
  next hslot =>
    cases herror
    have hge := List.getElem?_eq_none_iff.mp hslot
    exact if_pos (by omega)
  next hslot =>
    cases herror
    have hlt := h.slot_lt_iff.mpr ⟨_, hslot⟩
    have hoffset : getTupleOffsetAtSlot p rid.slotNum = 0 := h.slotAt _ _ hslot
    have hroom := h.room
    unfold Slots.headerSize at hroom
    rw [if_neg (by omega), if_pos (by omega)]
  · cases herror

theorem Represents.markDelete_spec (h : Represents p slots) (rid : RID) :
    (markDelete p rid).1 = (Slots.markDelete slots rid.slotNum).1 ∧
      Represents (markDelete p rid).2 (Slots.markDelete slots rid.slotNum).2 ∧
      SameLinks p (markDelete p rid).2 := by
  have hcount := h.count
  unfold markDelete
  dsimp only
  by_cases hlt : rid.slotNum < getTupleCount p
  · obtain ⟨s, hslot⟩ := h.slot_lt_iff.mp hlt
    rw [if_neg (by omega), h.isDeleted_eq hslot]
    by_cases hlive : ∃ data, s = .full false data
    · obtain ⟨data, rfl⟩ := hlive
      obtain ⟨hroom, -, hold, -, hhigh⟩ := h.bounds hslot
      have hsize : getTupleSize p rid.slotNum = data.length := h.sizes _ _ hslot
      rw [Slots.markDelete_of_live hslot, if_neg (by simp [Slot.visible?]), hsize, if_pos hold,
        setDeletedFlag_of_lt (by omega)]
      obtain ⟨hfinal, hlinks⟩ := h.setFlag hslot true
      exact ⟨rfl, hfinal, hlinks⟩
    · have hnot : ∀ data, slots[rid.slotNum]? ≠ some (.full false data) := by
        intro data heq
        rw [hslot] at heq
        exact hlive ⟨data, Option.some.inj heq⟩
      rw [Slots.markDelete_of_not_live hnot, if_pos]
      · exact ⟨rfl, h, SameLinks.refl p⟩
      · cases s with
        | empty => rfl
        | full deleted data =>
            cases deleted with
            | true => rfl
            | false => exact absurd ⟨data, rfl⟩ hlive
  · have hnone : slots[rid.slotNum]? = none := List.getElem?_eq_none_iff.mpr (by omega)
    rw [if_pos (by omega), Slots.markDelete_of_not_live (by simp [hnone])]
    exact ⟨rfl, h, SameLinks.refl p⟩

theorem Represents.rollbackDelete_of_ok (h : Represents p slots)
    (hok : Slots.rollbackDelete slots rid.slotNum = .ok slots') :
    ∃ p', rollbackDelete p rid = .ok p' ∧ Represents p' slots' ∧ SameLinks p p' := by
  have hcount := h.count
  unfold rollbackDelete
  dsimp only
  cases hslot : slots[rid.slotNum]? with
  | none =>
      unfold Slots.rollbackDelete at hok
      rw [hslot] at hok
      cases hok
  | some s =>
      have hlt := h.slot_lt_iff.mpr ⟨s, hslot⟩
      rw [if_neg (not_not.mpr hlt), h.isDeleted_eq hslot]
      unfold Slots.rollbackDelete at hok
      rw [hslot] at hok
      cases s with
      | empty =>
          cases hok
          obtain ⟨hfinal, hlinks⟩ := h.rewriteSize hslot
          have hunset : unsetDeletedFlag (sizeWord .empty) = sizeWord .empty := by decide
          rw [if_pos (by simp [Slot.visible?]), h.sizes _ _ hslot, hunset]
          exact ⟨_, rfl, hfinal, hlinks⟩
      | full deleted data =>
          cases deleted with
          | false =>
              cases hok
              rw [if_neg (by simp [Slot.visible?])]
              exact ⟨p, rfl, h, SameLinks.refl p⟩
          | true =>
              cases hok
              obtain ⟨hroom, -, hold, -, hhigh⟩ := h.bounds hslot
              obtain ⟨hfinal, hlinks⟩ := h.setFlag hslot false
              rw [if_pos (by simp [Slot.visible?]), h.sizes _ _ hslot, sizeWord,
                unsetDeletedFlag_add_deleteMask (by omega)]
              exact ⟨_, rfl, hfinal, hlinks⟩

theorem Represents.rollbackDelete_of_error (h : Represents p slots) {fault : HeapFault}
    (herror : Slots.rollbackDelete slots rid.slotNum = .error fault) :
    rollbackDelete p rid = .error fault := by
  have hcount := h.count
  unfold Slots.rollbackDelete at herror
  split at herror
  next hslot =>
    cases herror
    have hge := List.getElem?_eq_none_iff.mp hslot
    exact if_pos (by omega)
  · cases herror
  · cases herror

/-! ## Insertions -/

theorem Represents.size_eq_zero_iff (h : Represents p slots) {i : Nat} {s : Slot}
    (hslot : slots[i]? = some s) : getTupleSize p i = 0 ↔ s = .empty := by
  rw [h.sizes i s hslot]
  cases s with
  | empty => exact iff_of_true rfl rfl
  | full deleted data =>
      exact iff_of_false (sizeWord_pos deleted (h.data_pos hslot)).ne' nofun

theorem Represents.findFreeSlot_eq (h : Represents p slots) :
    findFreeSlot p = Slots.firstFree slots := by
  unfold findFreeSlot Slots.firstFree
  rw [h.count]
  symm
  cases hfind : (List.range slots.length).find? (fun i => getTupleSize p i = 0) with
  | none =>
      rw [Option.getD_none, List.findIdx_eq_length]
      intro s hmem
      obtain ⟨i, hlt, rfl⟩ := List.getElem_of_mem hmem
      have hsize := List.find?_eq_none.mp hfind i (List.mem_range.mpr hlt)
      rw [decide_eq_true_eq, h.size_eq_zero_iff (List.getElem?_eq_getElem hlt)] at hsize
      simpa using hsize
  | some i =>
      obtain ⟨hzero, hmem, hbefore⟩ := List.find?_range_eq_some.mp hfind
      have hlt := List.mem_range.mp hmem
      rw [Option.getD_some, List.findIdx_eq hlt]
      refine ⟨?_, fun j hj => ?_⟩
      · rw [decide_eq_true_eq] at hzero ⊢
        exact (h.size_eq_zero_iff (List.getElem?_eq_getElem hlt)).mp hzero
      · have hsize : ¬ getTupleSize p j = 0 := by simpa using hbefore j hj
        rw [h.size_eq_zero_iff (List.getElem?_eq_getElem (hj.trans hlt))] at hsize
        simpa using hsize

theorem Represents.insertTuple_of_none (h : Represents p slots) (hpos : 0 < tuple.length)
    (hnone : Slots.insert slots tuple = none) : insertTuple p tuple = .ok none := by
  have hfull := Slots.insert_eq_none_iff.mp hnone
  unfold insertTuple sizeTuple
  rw [if_neg (not_not.mpr hpos), h.freeSpace_eq, if_pos hfull]

/-- A page is another one with a tuple in slot `i`, but for the count. -/
structure TupleWritten (p q : Memory) (count i : Nat) (tuple : Tuple) : Prop where
  free : getFreeSpacePointer q = getFreeSpacePointer p - tuple.length
  size : getTupleSize q i = tuple.length
  offset : getTupleOffsetAtSlot q i = getFreeSpacePointer p - tuple.length
  sizes : ∀ j, j ≤ count → j ≠ i → getTupleSize q j = getTupleSize p j
  offsets : ∀ j, j ≤ count → j ≠ i → getTupleOffsetAtSlot q j = getTupleOffsetAtSlot p j
  stored : q.read (getFreeSpacePointer p - tuple.length) tuple.length = tuple
  kept : ∀ a n, getFreeSpacePointer p ≤ a → q.read a n = p.read a n
  links : SameLinks p q

/-- What `InsertTuple` writes before it raises the count. -/
theorem Represents.tupleWritten (h : Represents p slots) {i : Nat} (hi : i ≤ slots.length)
    (hroom : tuple.length + 8 ≤ Slots.freeSpace slots) {written p' : Memory}
    (hwritten : written = (setFreeSpacePointer p (getFreeSpacePointer p - tuple.length)).write
      (getFreeSpacePointer p - tuple.length) tuple)
    (hp' : p' = setTupleSize (setTupleOffsetAtSlot written i
      (getFreeSpacePointer p - tuple.length)) i tuple.length) :
    getTupleCount p' = slots.length ∧ TupleWritten p p' slots.length i tuple := by
  have hheader : 24 + 8 * slots.length ≤ getFreeSpacePointer p := h.room
  have hfree := h.free
  have hcount := h.count
  have hroom' : 24 + 8 * slots.length + 8 ≤ getFreeSpacePointer p - tuple.length ∧
      tuple.length ≤ getFreeSpacePointer p := by
    unfold Slots.freeSpace Slots.headerSize at hroom
    omega
  have hsmall : getFreeSpacePointer p ≤ 4096 := by
    unfold pageSize at hfree
    omega
  have hsizes : ∀ j, j ≤ slots.length →
      getTupleSize p' j = if j = i then tuple.length else getTupleSize p j := by
    intro j hj
    rw [hp', getTupleSize_setTupleSize, Nat.mod_eq_of_lt (by omega),
      getTupleSize_setTupleOffsetAtSlot, hwritten, getTupleSize_write (by omega),
      getTupleSize_setFreeSpacePointer]
  have hoffsets : ∀ j, j ≤ slots.length → getTupleOffsetAtSlot p' j =
      if j = i then getFreeSpacePointer p - tuple.length else getTupleOffsetAtSlot p j := by
    intro j hj
    rw [hp', getTupleOffsetAtSlot_setTupleSize, getTupleOffsetAtSlot_setTupleOffsetAtSlot,
      Nat.mod_eq_of_lt (by omega), hwritten, getTupleOffsetAtSlot_write (by omega),
      getTupleOffsetAtSlot_setFreeSpacePointer]
  -- the slot array does not reach the tuples
  have hread : ∀ a n, 24 + 8 * slots.length + 8 ≤ a → p'.read a n = written.read a n := by
    intro a n ha
    rw [hp']
    exact read_congr fun m hm => (setTupleSize_apply (Or.inr (by omega))).trans
      (setTupleOffsetAtSlot_apply (Or.inr (by omega)))
  refine ⟨?_, ?_, ?_, ?_, ?_, ?_, ?_, ?_, ?_⟩
  · rw [hp', getTupleCount_setTupleSize, getTupleCount_setTupleOffsetAtSlot, hwritten,
      getTupleCount_write (by omega), getTupleCount_setFreeSpacePointer, hcount]
  · rw [hp', getFreeSpacePointer_setTupleSize, getFreeSpacePointer_setTupleOffsetAtSlot, hwritten,
      getFreeSpacePointer_write (by omega), getFreeSpacePointer_setFreeSpacePointer]
    exact Nat.mod_eq_of_lt (by omega)
  · rw [hsizes i hi, if_pos rfl]
  · rw [hoffsets i hi, if_pos rfl]
  · intro j hj hne
    rw [hsizes j hj, if_neg hne]
  · intro j hj hne
    rw [hoffsets j hj, if_neg hne]
  · rw [hread _ _ hroom'.1, hwritten]
    exact read_write_self _ _ tuple
  · intro a n ha
    rw [hread a n (by omega), hwritten, read_write_disjoint (by omega)]
    exact read_congr fun m hm => setFreeSpacePointer_apply (Or.inr (by omega))
  · intro a ha
    rw [hp', setTupleSize_apply (Or.inl (by omega)), setTupleOffsetAtSlot_apply (Or.inl (by omega)),
      hwritten, write_outside (by omega), setFreeSpacePointer_apply (Or.inl ha)]

/-- Raising the count changes nothing else. -/
theorem TupleWritten.setTupleCount {q : Memory} {count i : Nat}
    (h : TupleWritten p q count i tuple) (hheader : 24 ≤ getFreeSpacePointer p - tuple.length)
    (value : Nat) : TupleWritten p (setTupleCount q value) count i tuple where
  free := (getFreeSpacePointer_setTupleCount q value).trans h.free
  size := (getTupleSize_setTupleCount q i value).trans h.size
  offset := (getTupleOffsetAtSlot_setTupleCount q i value).trans h.offset
  sizes j hj hne := (getTupleSize_setTupleCount q j value).trans (h.sizes j hj hne)
  offsets j hj hne := (getTupleOffsetAtSlot_setTupleCount q j value).trans (h.offsets j hj hne)
  stored := (read_congr fun m hm => setTupleCount_apply (Or.inr (by omega))).trans h.stored
  kept a n ha :=
    (read_congr fun m hm => setTupleCount_apply (Or.inr (by omega))).trans (h.kept a n ha)
  links a ha := (setTupleCount_apply (Or.inl ha)).trans (h.links a ha)

/-- The count is raised behind the last slot. -/
theorem Represents.raiseCount (h : Represents p slots) {i : Nat}
    (hroom : tuple.length + 8 ≤ Slots.freeSpace slots) {p' : Memory}
    (hcount : getTupleCount p' = slots.length)
    (hwritten : TupleWritten p p' slots.length i tuple) :
    getTupleCount (if i = slots.length then TablePage.setTupleCount p' (slots.length + 1) else p') =
        ((Slots.grow slots i).set i (.full false tuple)).length ∧
      TupleWritten p
        (if i = slots.length then TablePage.setTupleCount p' (slots.length + 1) else p')
        slots.length i tuple := by
  have hheader : 24 + 8 * slots.length ≤ getFreeSpacePointer p := h.room
  have hfree := h.free
  unfold Slots.freeSpace Slots.headerSize pageSize at hroom
  unfold pageSize at hfree
  rw [List.length_set]
  unfold Slots.grow
  split
  · refine ⟨?_, hwritten.setTupleCount (by omega) _⟩
    rw [getTupleCount_setTupleCount, List.length_append, List.length_singleton]
    exact Nat.mod_eq_of_lt (by omega)
  · exact ⟨hcount, hwritten⟩

/-- A page with the tuple and the count has one more slot, or one in use that was empty. -/
theorem Represents.of_tupleWritten (h : Represents p slots) (hpos : 0 < tuple.length) {i : Nat}
    (hi : i ≤ slots.length) (hempty : i < slots.length → slots[i]? = some .empty)
    (hroom : tuple.length + 8 ≤ Slots.freeSpace slots) {q : Memory}
    (hq : TupleWritten p q slots.length i tuple)
    (hcount : getTupleCount q = ((Slots.grow slots i).set i (.full false tuple)).length) :
    Represents q ((Slots.grow slots i).set i (.full false tuple)) := by
  have hheader : 24 + 8 * slots.length ≤ getFreeSpacePointer p := h.room
  have hfree := h.free
  have hroom' : 24 + 8 * slots.length + 8 ≤ getFreeSpacePointer p - tuple.length ∧
      tuple.length ≤ getFreeSpacePointer p := by
    unfold Slots.freeSpace Slots.headerSize at hroom
    omega
  refine ⟨hcount, ?_, ?_, ?_, ?_, ?_⟩
  · have hslot : (Slots.grow slots i)[i]? = some .empty := by
      unfold Slots.grow
      split
      next hend => rw [hend, List.getElem?_append_right (le_refl _), Nat.sub_self]; rfl
      next hne => exact hempty (lt_of_le_of_ne hi hne)
    have htotal := Slots.total_set hslot (.full false tuple)
    rw [Slot.size_empty, Slots.total_grow, Slot.size_full] at htotal
    rw [hq.free]
    omega
  · have hlength : (Slots.grow slots i).length ≤ slots.length + 1 := by
      unfold Slots.grow
      split <;> simp
    unfold Slots.headerSize
    rw [List.length_set, hq.free]
    omega
  · intro j t hj
    rcases Slots.getElem?_grow_set hi _ hj with ⟨rfl, rfl⟩ | ⟨hne, hj'⟩
    · rw [hq.size]
      rfl
    · have hlt := (List.getElem?_eq_some_iff.mp hj').1
      rw [hq.sizes j (by omega) hne]
      exact h.sizes j t hj'
  · intro j t hj
    rcases Slots.getElem?_grow_set hi _ hj with ⟨rfl, rfl⟩ | ⟨hne, hj'⟩
    · unfold SlotAt
      dsimp only
      rw [hq.free, hq.offset, hq.stored]
      unfold pageSize at hfree ⊢
      exact ⟨hpos, le_refl _, by omega, rfl⟩
    · have hlt := (List.getElem?_eq_some_iff.mp hj').1
      have hslot := h.slotAt j t hj'
      unfold SlotAt at hslot ⊢
      rw [hq.free, hq.offsets j (by omega) hne]
      cases t with
      | empty => exact hslot
      | full flag data =>
          obtain ⟨hdata, hlow, hhigh, hstored⟩ := hslot
          refine ⟨hdata, by omega, hhigh, ?_⟩
          rw [hq.kept _ _ hlow, hstored]
  · intro j k flag flag' data data' hj hk hne
    rcases Slots.getElem?_grow_set hi _ hj with ⟨rfl, hdata⟩ | ⟨hji, hj'⟩
    · rcases Slots.getElem?_grow_set hi _ hk with ⟨rfl, -⟩ | ⟨hki, hk'⟩
      · exact absurd rfl hne
      · cases hdata
        have hbound := h.bounds hk'
        rw [hq.offset, hq.offsets k (by omega) hki]
        left
        omega
    · have hbound := h.bounds hj'
      rw [hq.offsets j (by omega) hji]
      rcases Slots.getElem?_grow_set hi _ hk with ⟨rfl, hdata⟩ | ⟨hki, hk'⟩
      · cases hdata
        rw [hq.offset]
        right
        omega
      · have hbound' := h.bounds hk'
        rw [hq.offsets k (by omega) hki]
        exact h.disjoint j k _ _ _ _ hj' hk' hne

theorem Represents.insertTuple_of_some (h : Represents p slots) (hpos : 0 < tuple.length) {i : Nat}
    (hsome : Slots.insert slots tuple = some (i, slots')) :
    ∃ p', insertTuple p tuple = .ok (some (⟨getTablePageId p, i⟩, p')) ∧ Represents p' slots' ∧
      SameLinks p p' := by
  obtain ⟨hroom, hi, rfl⟩ := Slots.insert_eq_some_iff.mp hsome
  have hheader : 24 + 8 * slots.length ≤ getFreeSpacePointer p := h.room
  have hpage := h.free
  have hcount := h.count
  have hroom' := hroom
  unfold Slots.freeSpace Slots.headerSize pageSize at hroom'
  unfold pageSize at hpage
  have hfree : getFreeSpacePointer (setFreeSpacePointer p
      (getFreeSpacePointer p - tuple.length)) = getFreeSpacePointer p - tuple.length := by
    rw [getFreeSpacePointer_setFreeSpacePointer]
    exact Nat.mod_eq_of_lt (by omega)
  have hfree' : getFreeSpacePointer ((setFreeSpacePointer p
      (getFreeSpacePointer p - tuple.length)).write (getFreeSpacePointer p - tuple.length) tuple) =
        getFreeSpacePointer p - tuple.length := by
    rw [getFreeSpacePointer_write (by omega), hfree]
  have hle : i ≤ slots.length := hi ▸ Slots.firstFree_le slots
  have hempty : i < slots.length → slots[i]? = some .empty := hi ▸ Slots.getElem?_firstFree
  obtain ⟨hcount', hwritten⟩ := h.tupleWritten hle hroom rfl rfl
  have hlinks := hwritten.links
  have hfull : ¬ getFreeSpaceRemaining p < tuple.length + 8 := by
    rw [h.freeSpace_eq]
    omega
  have hfinal := h.raiseCount hroom hcount' hwritten
  refine ⟨_, ?_, h.of_tupleWritten hpos hle hempty hroom hfinal.2 hfinal.1, hfinal.2.links⟩
  unfold insertTuple sizeTuple
  dsimp only
  rw [if_neg (not_not.mpr hpos), if_neg hfull, if_neg (fun hcond => hfull hcond.2),
    h.findFreeSlot_eq, ← hi, hfree, hfree', hcount', hlinks.getTablePageId]

/-! ## Fresh pages -/

theorem represents_init (p : Memory) (pageId prevPageId : PageId) :
    Represents (init p pageId pageSize prevPageId) [] := by
  have hcount : getTupleCount (init p pageId pageSize prevPageId) = 0 := by
    unfold init
    exact (getTupleCount_setTupleCount _ 0).trans (Nat.zero_mod _)
  have hfree : getFreeSpacePointer (init p pageId pageSize prevPageId) = pageSize := by
    unfold init
    rw [getFreeSpacePointer_setTupleCount, getFreeSpacePointer_setFreeSpacePointer]
    rfl
  refine ⟨hcount, ?_, ?_, by simp, by simp, by simp⟩
  · rw [hfree, Slots.total_nil, Nat.add_zero]
  · rw [hfree]
    decide

/-! ## Links -/

/-- Page ids survive being stored. -/
theorem toInt32_encodePageId {pageId : Int} (hlow : -2 ^ 31 ≤ pageId) (hhigh : pageId < 2 ^ 31) :
    toInt32 ((encodePageId pageId % 2 ^ 32 : Nat) : Int) = pageId := by
  unfold encodePageId toInt32
  omega

theorem getNextPageId_setNextPageId (p : Memory) {pageId : Int} (hlow : -2 ^ 31 ≤ pageId)
    (hhigh : pageId < 2 ^ 31) : getNextPageId (setNextPageId p pageId) = pageId := by
  unfold getNextPageId setNextPageId
  rw [read32_write32]
  exact toInt32_encodePageId hlow hhigh

theorem getTablePageId_setNextPageId (p : Memory) (pageId : PageId) :
    getTablePageId (setNextPageId p pageId) = getTablePageId p := by
  unfold getTablePageId setNextPageId offsetNextPageId
  rw [read32_write32_disjoint (by omega)]

theorem setNextPageId_apply {p : Memory} {pageId : PageId} {a : Nat} (hout : 16 ≤ a) :
    setNextPageId p pageId a = p a := by
  unfold setNextPageId offsetNextPageId write32
  exact write_outside (by rw [length_bytes32]; omega)

theorem getPrevPageId_setNextPageId (p : Memory) (pageId : PageId) :
    getPrevPageId (setNextPageId p pageId) = getPrevPageId p := by
  unfold getPrevPageId setNextPageId offsetNextPageId offsetPrevPageId
  rw [read32_write32_disjoint (by omega)]

/-- The slots are in the bytes from `16` to the end of the page. -/
theorem Represents.congr_below {p' : Memory} (h : Represents p slots)
    (hsame : ∀ a, 16 ≤ a → a < pageSize → p' a = p a) : Represents p' slots := by
  have hheader : 24 + 8 * slots.length ≤ getFreeSpacePointer p := h.room
  have hend : getFreeSpacePointer p ≤ pageSize := by
    rw [← h.free]
    exact Nat.le_add_right _ _
  have hcount : getTupleCount p' = getTupleCount p :=
    read32_congr fun i hi => hsame (20 + i) (by omega) (by omega)
  have hfree : getFreeSpacePointer p' = getFreeSpacePointer p :=
    read32_congr fun i hi => hsame (16 + i) (by omega) (by omega)
  have hlt : ∀ {j s}, slots[j]? = some s → 32 + 8 * j ≤ pageSize := by
    intro j s hslot
    obtain ⟨hj, -⟩ := List.getElem?_eq_some_iff.mp hslot
    omega
  have hsize : ∀ {j s}, slots[j]? = some s → getTupleSize p' j = getTupleSize p j := by
    intro j s hslot
    have hj := hlt hslot
    exact read32_congr fun i hi => hsame (28 + 8 * j + i) (by omega) (by omega)
  have hoffset : ∀ {j s}, slots[j]? = some s →
      getTupleOffsetAtSlot p' j = getTupleOffsetAtSlot p j := by
    intro j s hslot
    have hj := hlt hslot
    exact read32_congr fun i hi => hsame (24 + 8 * j + i) (by omega) (by omega)
  refine ⟨hcount.trans h.count, by rw [hfree, h.free], by rw [hfree]; exact h.room, ?_, ?_, ?_⟩
  · intro i s hslot
    rw [hsize hslot]
    exact h.sizes i s hslot
  · intro i s hslot
    have hstored := h.slotAt i s hslot
    unfold SlotAt at hstored ⊢
    rw [hfree, hoffset hslot]
    cases s with
    | empty => exact hstored
    | full deleted data =>
        obtain ⟨hpos, hlow, hhigh, hread⟩ := hstored
        refine ⟨hpos, hlow, hhigh, ?_⟩
        exact (read_congr fun n hn => hsame _ (by omega) (by omega)).trans hread
  · intro i j deleted deleted' data data' hi hj hne
    rw [hoffset hi, hoffset hj]
    exact h.disjoint i j _ _ _ _ hi hj hne

theorem Represents.congr {p' : Memory} (h : Represents p slots)
    (hsame : ∀ a, 16 ≤ a → p' a = p a) : Represents p' slots :=
  h.congr_below fun a hlow _ => hsame a hlow

theorem getTablePageId_init (p : Memory) {pageId : Int} (prevPageId : PageId)
    (hlow : -2 ^ 31 ≤ pageId) (hhigh : pageId < 2 ^ 31) :
    getTablePageId (init p pageId pageSize prevPageId) = pageId := by
  unfold init getTablePageId setTupleCount setFreeSpacePointer setNextPageId setPrevPageId
    offsetTupleCount offsetFreeSpace offsetNextPageId offsetPrevPageId
  dsimp only
  rw [read32_write32_disjoint (by omega), read32_write32_disjoint (by omega),
    read32_write32_disjoint (by omega), read32_write32_disjoint (by omega), read32_write32]
  exact toInt32_encodePageId hlow hhigh

theorem getPrevPageId_init (p : Memory) (pageId : PageId) {prevPageId : Int}
    (hlow : -2 ^ 31 ≤ prevPageId) (hhigh : prevPageId < 2 ^ 31) :
    getPrevPageId (init p pageId pageSize prevPageId) = prevPageId := by
  unfold init getPrevPageId setTupleCount setFreeSpacePointer setNextPageId setPrevPageId
    offsetTupleCount offsetFreeSpace offsetNextPageId
  dsimp only
  rw [read32_write32_disjoint (by decide), read32_write32_disjoint (by decide),
    read32_write32_disjoint (by decide), read32_write32]
  exact toInt32_encodePageId hlow hhigh

theorem getNextPageId_init (p : Memory) (pageId prevPageId : PageId) :
    getNextPageId (init p pageId pageSize prevPageId) = invalidPageId := by
  unfold init getNextPageId setTupleCount setFreeSpacePointer setNextPageId
    offsetTupleCount offsetFreeSpace offsetNextPageId
  dsimp only
  rw [read32_write32_disjoint (by omega), read32_write32_disjoint (by omega), read32_write32]
  exact toInt32_encodePageId (by decide) (by decide)

end BusTub.TablePage
