import BusTub.Library.KeyedList
import BusTub.Storage.HeaderPage

/-! # Header pages are finite maps

The records of a header page are a list in which every name stands once. As long as a new
name finds room, the calls return what they return on the finite map of these records. A
name that comes to a full page is written beyond its end.
-/

namespace BusTub.HeaderPage

/-! ## Records in the page -/

variable {p final : Memory} {records : List (RecordName × Int32)} {name : RecordName}

/-- The record is at its place, the name with its terminator. -/
structure Stored (p : Memory) (i : Nat) (record : RecordName × Int32) : Prop where
  name : p.read (4 + i * 36) (record.1.length + 1) = record.1 ++ [0]
  rootId : p.read32 (36 + i * 36) = record.2.toUInt32.toNat

/-- The page has the records. -/
structure Holds (p : Memory) (records : List (RecordName × Int32)) : Prop where
  count : p.read32 0 = records.length
  fits : records.length ≤ maxRecords
  valid : ∀ record ∈ records, ValidName record.1
  stored : ∀ i record, records[i]? = some record → Stored p i record

theorem maxRecords_eq : maxRecords = 113 := rfl

theorem holds_init (p : Memory) : Holds (init p) [] where
  count := Memory.read32_write32 p 0 0
  fits := Nat.zero_le _
  valid _ hmem := by cases hmem
  stored i _ hrecord := by cases hrecord

theorem Holds.getRecordCount_eq (h : Holds p records) : getRecordCount p = records.length := by
  have hfits := h.fits
  rw [maxRecords_eq] at hfits
  unfold getRecordCount
  rw [h.count]
  exact toInt32_of_bounds (by omega) (by omega)

theorem read_succ (p : Memory) (addr n : Nat) :
    p.read addr (n + 1) = p addr :: p.read (addr + 1) n := by
  rw [Nat.add_comm n 1, Memory.read_add]
  rfl

/-- The comparison with a stored name finds out whether the names are the same. -/
theorem strcmpIsZero_stored {stored : RecordName} {addr : Nat}
    (hread : p.read addr (stored.length + 1) = stored ++ [0])
    (hfits : addr + stored.length < pageSize) (hstored : 0 ∉ stored) (hname : 0 ∉ name) :
    strcmpIsZero p addr name = .ok (decide (stored = name)) := by
  induction name generalizing addr stored with
  | nil =>
      cases stored with
      | nil =>
          rw [List.length_nil, read_succ] at hread
          have hzero : p addr = 0 := (List.cons.inj hread).1
          unfold strcmpIsZero
          rw [if_pos (by simpa using hfits), hzero]
          rfl
      | cons head tail =>
          rw [List.length_cons, read_succ] at hread
          have hhead : p addr = head := (List.cons.inj hread).1
          have hne : head ≠ 0 := fun hzero => hstored (hzero ▸ List.mem_cons_self)
          unfold strcmpIsZero
          rw [if_pos (by omega), hhead, beq_eq_false_iff_ne.mpr hne]
          rfl
  | cons c rest ih =>
      cases stored with
      | nil =>
          rw [List.length_nil, read_succ] at hread
          have hzero : p addr = 0 := (List.cons.inj hread).1
          have hne : ¬ (0 : UInt8) = c := fun heq => hname (heq ▸ List.mem_cons_self)
          unfold strcmpIsZero
          rw [if_pos (by simpa using hfits), hzero, if_neg hne]
          rfl
      | cons head tail =>
          rw [List.length_cons, read_succ] at hread
          obtain ⟨hhead, htail⟩ := List.cons.inj hread
          rw [List.length_cons] at hfits
          unfold strcmpIsZero
          rw [if_pos (by omega), hhead]
          by_cases heq : head = c
          · rw [if_pos heq, ih htail (by omega) (List.not_mem_of_not_mem_cons hstored)
              (List.not_mem_of_not_mem_cons hname), heq]
            simp only [List.cons.injEq, true_and]
          · rw [if_neg heq]
            simp only [List.cons.injEq, heq, false_and, decide_false]

/-- `FindRecord` finds the index of the name. -/
theorem Holds.findRecord_eq (h : Holds p records) (hname : ValidName name) :
    findRecord p name = .ok (records.findIdx? fun record => record.1 = name) := by
  have hloop : ∀ (rest : List (RecordName × Int32)) (i : Nat), records.drop i = rest →
      findRecordLoop p name (List.range' i rest.length) =
        .ok ((rest.findIdx? fun record => record.1 = name).map (· + i)) := by
    intro rest
    induction rest with
    | nil => exact fun _ _ => rfl
    | cons record rest ih =>
        intro i hdrop
        have hget : records[i]? = some record := by
          rw [← List.head?_drop, hdrop]
          rfl
        have hi : i < records.length := (List.getElem?_eq_some_iff.mp hget).1
        have hvalid := h.valid record (List.mem_of_getElem? hget)
        have hfits := h.fits
        rw [maxRecords_eq] at hfits
        have hcompare := strcmpIsZero_stored (h.stored i record hget).name
          (by have := hvalid.length; unfold pageSize; omega) hvalid.noNul hname.noNul
        have hrest : records.drop (i + 1) = rest := by
          rw [← List.tail_drop, hdrop]
          rfl
        rw [List.length_cons, List.range'_succ, findRecordLoop, hcompare, List.findIdx?_cons]
        by_cases heq : record.1 = name
        · simp [heq]
        · simp only [heq, decide_false, ih (i + 1) hrest, Bool.false_eq_true, if_false,
            Option.map_map, Except.ok.injEq]
          congr 1
          funext index
          simp only [Function.comp_apply]
          omega
  have hall := hloop records 0 rfl
  unfold findRecord
  rw [h.getRecordCount_eq, Int.toNat_natCast, List.range_eq_range', hall]
  simp

/-! ## Records that move -/

/-- A record is where its bytes are. -/
theorem Stored.of_same {q : Memory} {i k : Nat} {record : RecordName × Int32}
    (h : Stored p i record) (hvalid : ValidName record.1)
    (hsame : ∀ a, a < 36 → q (4 + k * 36 + a) = p (4 + i * 36 + a)) : Stored q k record where
  name := by
    rw [← h.name]
    exact Memory.read_congr fun a ha => hsame a (by have := hvalid.length; omega)
  rootId := by
    rw [← h.rootId]
    apply Memory.read32_congr
    intro a ha
    have hshift := hsame (32 + a) (by omega)
    rwa [show 4 + k * 36 + (32 + a) = 36 + k * 36 + a by omega,
      show 4 + i * 36 + (32 + a) = 36 + i * 36 + a by omega] at hshift

theorem setRecordCount_outside (p : Memory) (recordCount : Int) {a : Nat} (ha : 4 ≤ a) :
    setRecordCount p recordCount a = p a := by
  unfold setRecordCount Memory.write32
  exact Memory.write_outside (Or.inr (by simpa using ha))

theorem read32_setRecordCount (p : Memory) {n : Nat} (hn : n ≤ maxRecords) :
    (setRecordCount p n).read32 0 = n := by
  rw [maxRecords_eq] at hn
  unfold setRecordCount
  rw [Memory.read32_write32]
  omega

/-- A new record goes behind the others. -/
theorem Holds.append (h : Holds p records) {rootId : Int32} (hname : ValidName name)
    (hroom : records.length < maxRecords) :
    Holds (setRecordCount
        ((p.write (4 + records.length * 36) (name ++ [0])).write (36 + records.length * 36)
          (Memory.bytes32 rootId.toUInt32.toNat))
        (records.length + 1 : Nat))
      (records ++ [(name, rootId)]) := by
  have hlength := hname.length
  refine ⟨?_, ?_, ?_, ?_⟩
  · rw [read32_setRecordCount _ hroom, List.length_append, List.length_singleton]
  · rw [List.length_append, List.length_singleton]
    exact hroom
  · intro record hmem
    rcases List.mem_append.mp hmem with hold | hlast
    · exact h.valid record hold
    · rw [List.mem_singleton.mp hlast]
      exact hname
  · intro i record hget
    by_cases hi : i < records.length
    · rw [List.getElem?_append_left hi] at hget
      have hvalid := h.valid record (List.mem_of_getElem? hget)
      refine (h.stored i record hget).of_same hvalid ?_
      intro a ha
      rw [setRecordCount_outside _ _ (by omega), Memory.write_outside (Or.inl (by omega)),
        Memory.write_outside (Or.inl (by omega))]
    · obtain ⟨hlast, heq⟩ : i = records.length ∧ record = (name, rootId) := by
        rw [List.getElem?_append_right (by omega), List.getElem?_singleton] at hget
        split at hget
        · exact ⟨by omega, (Option.some.inj hget).symm⟩
        · cases hget
      subst hlast heq
      constructor
      · unfold setRecordCount
        rw [Memory.read_write32_disjoint (Or.inr (by omega)),
          Memory.read_write_disjoint (Or.inl (by simp only; omega)),
          show name.length + 1 = (name ++ [0]).length by simp, Memory.read_write_self]
      · unfold setRecordCount
        rw [Memory.read32_write32_disjoint (Or.inr (by omega))]
        have hword := Memory.read32_write32
          (p.write (4 + records.length * 36) (name ++ [0])) (36 + records.length * 36)
          rootId.toUInt32.toNat
        rw [Memory.write32, Nat.mod_eq_of_lt rootId.toUInt32.toNat_lt] at hword
        exact hword

/-- The records behind a deleted one close up. -/
theorem Holds.eraseIdx (h : Holds p records) {index : Nat} (hindex : index < records.length) :
    Holds (setRecordCount
        (p.move (index * 36 + 4) (index * 36 + 4 + 36) ((records.length - index - 1) * 36))
        (records.length - 1 : Nat))
      (records.eraseIdx index) := by
  have hlength : (records.eraseIdx index).length = records.length - 1 :=
    List.length_eraseIdx_of_lt hindex
  have hfits := h.fits
  refine ⟨?_, ?_, ?_, ?_⟩
  · rw [read32_setRecordCount _ (by omega), hlength]
  · omega
  · exact fun record hmem => h.valid record (List.mem_of_mem_eraseIdx hmem)
  · intro i record hget
    have hi : i < records.length - 1 := hlength ▸ (List.getElem?_eq_some_iff.mp hget).1
    rw [List.getElem?_eraseIdx] at hget
    split at hget
    next hbefore =>
      have hvalid := h.valid record (List.mem_of_getElem? hget)
      refine (h.stored i record hget).of_same hvalid ?_
      intro a ha
      rw [setRecordCount_outside _ _ (by omega), Memory.move_outside (Or.inl (by omega))]
    next hbehind =>
      have hvalid := h.valid record (List.mem_of_getElem? hget)
      refine (h.stored (i + 1) record hget).of_same hvalid ?_
      intro a ha
      rw [setRecordCount_outside _ _ (by omega), Memory.move, if_pos (by omega)]
      congr 1
      omega

/-- An updated record stays in its place. -/
theorem Holds.set (h : Holds p records) {index : Nat} {rootId old : Int32}
    (hget : records[index]? = some (name, old)) :
    Holds (p.write (36 + index * 36) (Memory.bytes32 rootId.toUInt32.toNat))
      (records.set index (name, rootId)) := by
  have hindex : index < records.length := (List.getElem?_eq_some_iff.mp hget).1
  have hvalid := h.valid _ (List.mem_of_getElem? hget)
  have hlength := hvalid.length
  refine ⟨?_, ?_, ?_, ?_⟩
  · rw [Memory.read32_write_disjoint (Or.inl (by omega)), List.length_set]
    exact h.count
  · rw [List.length_set]
    exact h.fits
  · intro record hmem
    rcases List.mem_or_eq_of_mem_set hmem with hold | rfl
    · exact h.valid record hold
    · exact hvalid
  · intro i record hnew
    rw [List.getElem?_set] at hnew
    split at hnew
    next heq =>
      subst heq
      cases hnew
      have hstored := h.stored index _ hget
      simp only at hlength
      constructor
      · rw [Memory.read_write_disjoint (Or.inl (by simp only; omega))]
        exact hstored.name
      · have hword := Memory.read32_write32 p (36 + index * 36) rootId.toUInt32.toNat
        rw [Memory.write32, Nat.mod_eq_of_lt rootId.toUInt32.toNat_lt] at hword
        exact hword
    next hne =>
      refine (h.stored i record hnew).of_same (h.valid record (List.mem_of_getElem? hnew)) ?_
      intro a ha
      exact Memory.write_outside (by rw [Memory.length_bytes32]; omega)

/-! ## The calls -/

theorem store_ok (p : Memory) {offset : Nat} {bytes : List UInt8}
    (hfits : offset + bytes.length ≤ pageSize) :
    store p offset bytes = .ok (p.write offset bytes) := by
  unfold store
  rw [if_pos (by omega)]
  rfl

theorem store_error (p : Memory) {offset : Nat} {bytes : List UInt8}
    (hbeyond : pageSize < offset + bytes.length) :
    store p offset bytes = .error .outOfBounds := by
  unfold store
  rw [if_neg (by omega)]

/-- The page has the records of the map. -/
structure Keeps (p : Memory) (m : RecordMap) : Prop where
  records : ∃ records, Holds p records ∧ records.Represents m

theorem keeps_init (p : Memory) : Keeps (init p) ∅ where
  records := ⟨[], holds_init p, .nil⟩

variable {m : RecordMap} {rootId : Int32}

theorem name_offset (n : Nat) : 4 + (n : Int) * 36 = (4 + n * 36 : Nat) := by
  omega

theorem rootId_offset (n : Nat) : ((4 + n * 36 : Nat) : Int) + 32 = (36 + n * 36 : Nat) := by
  omega

/-- `InsertRecord` of a name that is there returns `false`. -/
theorem Keeps.insertRecord_of_mem (h : Keeps p m) (hname : ValidName name)
    (hroot : invalidPageId < rootId.toInt) (hmem : name ∈ m) :
    insertRecord p name rootId = .ok (false, p) := by
  obtain ⟨records, hholds, hrep⟩ := h.records
  obtain ⟨index, value, hfind, -⟩ := hrep.exists_findIdx? hmem
  unfold insertRecord
  rw [if_neg (not_not.mpr hname.length), if_neg (not_not.mpr hroot)]
  simp only [hholds.findRecord_eq hname, hfind]

/-- `InsertRecord` of a new name into a page with room for it. -/
theorem Keeps.insertRecord_of_room (h : Keeps p m) (hname : ValidName name)
    (hroot : invalidPageId < rootId.toInt) (hnew : name ∉ m) (hroom : m.keys.card < maxRecords) :
    ∃ next, insertRecord p name rootId = .ok (true, next) ∧ Keeps next (m.insert name rootId) := by
  obtain ⟨records, hholds, hrep⟩ := h.records
  rw [hrep.card_keys] at hroom
  have hlength := hname.length
  have hmax := hroom
  rw [maxRecords_eq] at hmax
  refine ⟨_, ?_, ⟨_, hholds.append hname hroom, hrep.append hnew⟩⟩
  have hfirst : 4 + records.length * 36 + (name ++ [0]).length ≤ pageSize := by
    rw [List.length_append, List.length_singleton]
    unfold pageSize
    omega
  have hsecond : 36 + records.length * 36 + (Memory.bytes32 rootId.toUInt32.toNat).length ≤
      pageSize := by
    rw [Memory.length_bytes32]
    unfold pageSize
    omega
  have hcopy : copyRecord p (4 + (records.length : Int) * 36) name rootId =
      .ok ((p.write (4 + records.length * 36) (name ++ [0])).write (36 + records.length * 36)
        (Memory.bytes32 rootId.toUInt32.toNat)) := by
    unfold copyRecord
    rw [name_offset, store_ok p hfirst]
    simp only [rootId_offset, store_ok _ hsecond]
  unfold insertRecord
  rw [if_neg (not_not.mpr hlength), if_neg (not_not.mpr hroot)]
  simp only [hholds.getRecordCount_eq, hholds.findRecord_eq hname,
    hrep.findIdx?_of_notMem hnew]
  rw [hcopy, Int.natCast_succ]
  rfl

/-- `InsertRecord` of a new name into a full page writes beyond its end. -/
theorem Keeps.insertRecord_of_full (h : Keeps p m) (hname : ValidName name)
    (hroot : invalidPageId < rootId.toInt) (hnew : name ∉ m)
    (hfull : ¬ m.keys.card < maxRecords) : insertRecord p name rootId = .error .outOfBounds := by
  obtain ⟨records, hholds, hrep⟩ := h.records
  rw [hrep.card_keys, maxRecords_eq] at hfull
  have hbeyond : pageSize <
      36 + records.length * 36 + (Memory.bytes32 rootId.toUInt32.toNat).length := by
    rw [Memory.length_bytes32]
    unfold pageSize
    omega
  have hcopy : copyRecord p (4 + (records.length : Int) * 36) name rootId =
      .error .outOfBounds := by
    unfold copyRecord
    rw [name_offset]
    -- the name itself may still fit, the root id behind it does not
    by_cases hfirst : 4 + records.length * 36 + (name ++ [0]).length ≤ pageSize
    · rw [store_ok p hfirst]
      simp only [rootId_offset, store_error _ hbeyond]
    · rw [store_error p (Nat.lt_of_not_le hfirst)]
  unfold insertRecord
  rw [if_neg (not_not.mpr hname.length), if_neg (not_not.mpr hroot)]
  simp only [hholds.getRecordCount_eq, hholds.findRecord_eq hname,
    hrep.findIdx?_of_notMem hnew]
  rw [hcopy]
  rfl

theorem Keeps.zero_lt_getRecordCount (h : Keeps p m) (hcard : m.keys.card ≠ 0) :
    0 < getRecordCount p := by
  obtain ⟨records, hholds, hrep⟩ := h.records
  rw [hrep.card_keys] at hcard
  rw [hholds.getRecordCount_eq]
  omega

/-- `DeleteRecord` of a name that is not there returns `false`. -/
theorem Keeps.deleteRecord_of_notMem (h : Keeps p m) (hname : ValidName name)
    (hcard : m.keys.card ≠ 0) (hnot : name ∉ m) : deleteRecord p name = .ok (false, p) := by
  have hcount := h.zero_lt_getRecordCount hcard
  obtain ⟨records, hholds, hrep⟩ := h.records
  unfold deleteRecord
  simp only [not_not.mpr hcount, if_false, hholds.findRecord_eq hname,
    hrep.findIdx?_of_notMem hnot]

/-- `DeleteRecord` of a name that is there. -/
theorem Keeps.deleteRecord_of_mem (h : Keeps p m) (hname : ValidName name) (hmem : name ∈ m)
    (hcard : m.keys.card ≠ 0) :
    ∃ next, deleteRecord p name = .ok (true, next) ∧ Keeps next (m.erase name) := by
  have hcount := h.zero_lt_getRecordCount hcard
  obtain ⟨records, hholds, hrep⟩ := h.records
  obtain ⟨index, value, hfind, hget⟩ := hrep.exists_findIdx? hmem
  have hindex : index < records.length := (List.getElem?_eq_some_iff.mp hget).1
  have hfits := hholds.fits
  rw [maxRecords_eq] at hfits
  refine ⟨_, ?_, ⟨_, hholds.eraseIdx hindex, hrep.eraseIdx hget⟩⟩
  have hlength : (((records.length : Int) - index - 1) * 36).toNat =
      (records.length - index - 1) * 36 := by
    omega
  have hnew : (records.length : Int) - 1 = (records.length - 1 : Nat) := by
    omega
  have hroom : index * 36 + 4 + 36 + (records.length - index - 1) * 36 ≤ pageSize := by
    unfold pageSize
    omega
  unfold deleteRecord
  rw [hholds.getRecordCount_eq] at hcount ⊢
  simp only [not_not.mpr hcount, if_false, hholds.findRecord_eq hname, hfind, hlength, hnew]
  rw [if_pos hroom]

/-- `UpdateRecord` of a name that is not there returns `false`. -/
theorem Keeps.updateRecord_of_notMem (h : Keeps p m) (hname : ValidName name)
    (hnot : name ∉ m) : updateRecord p name rootId = .ok (false, p) := by
  obtain ⟨records, hholds, hrep⟩ := h.records
  unfold updateRecord
  rw [if_neg (not_not.mpr hname.length)]
  simp only [hholds.findRecord_eq hname, hrep.findIdx?_of_notMem hnot]

/-- `UpdateRecord` of a name that is there. -/
theorem Keeps.updateRecord_of_mem (h : Keeps p m) (hname : ValidName name) (hmem : name ∈ m) :
    ∃ next, updateRecord p name rootId = .ok (true, next) ∧ Keeps next (m.insert name rootId) := by
  obtain ⟨records, hholds, hrep⟩ := h.records
  obtain ⟨index, value, hfind, hget⟩ := hrep.exists_findIdx? hmem
  have hindex : index < records.length := (List.getElem?_eq_some_iff.mp hget).1
  have hfits := hholds.fits
  rw [maxRecords_eq] at hfits
  refine ⟨_, ?_, ⟨_, hholds.set hget, hrep.set hget⟩⟩
  have hroom : 36 + index * 36 + (Memory.bytes32 rootId.toUInt32.toNat).length ≤ pageSize := by
    rw [Memory.length_bytes32]
    unfold pageSize
    omega
  unfold updateRecord
  rw [if_neg (not_not.mpr hname.length)]
  simp only [hholds.findRecord_eq hname, hfind]
  rw [show index * 36 + 4 + 32 = 36 + index * 36 by omega, store_ok p hroom]
  rfl

/-- `GetRootId` looks the name up. -/
theorem Keeps.getRootId_eq (h : Keeps p m) (hname : ValidName name) :
    getRootId p name = .ok (m.lookup name) := by
  obtain ⟨records, hholds, hrep⟩ := h.records
  unfold getRootId
  rw [if_neg (not_not.mpr hname.length)]
  by_cases hmem : name ∈ m
  · obtain ⟨index, value, hfind, hget⟩ := hrep.exists_findIdx? hmem
    have hindex : index < records.length := (List.getElem?_eq_some_iff.mp hget).1
    have hfits := hholds.fits
    rw [maxRecords_eq] at hfits
    have hroom : (index + 1) * 36 + 4 ≤ pageSize := by
      unfold pageSize
      omega
    have hstored := (hholds.stored index _ hget).rootId
    rw [show 36 + index * 36 = (index + 1) * 36 by omega] at hstored
    simp only [hholds.findRecord_eq hname, hfind]
    rw [hstored, if_pos hroom, hrep.lookup_of_getElem? hget, UInt32.ofNat_toNat,
      Int32.toInt32_toUInt32]
  · simp only [hholds.findRecord_eq hname, hrep.findIdx?_of_notMem hmem]
    rw [Finmap.lookup_eq_none.mpr hmem]

/-! ## Runs -/

theorem machine_insertRecord (p : Memory) (name : RecordName) (rootId : Int32) :
    machine.step p (.insertRecord name rootId) =
      (insertRecord p name rootId).map fun result => (.done result.1, result.2) := by
  simp only [machine]

theorem machine_deleteRecord (p : Memory) (name : RecordName) :
    machine.step p (.deleteRecord name) =
      (deleteRecord p name).map fun result => (.done result.1, result.2) := by
  simp only [machine]

theorem machine_updateRecord (p : Memory) (name : RecordName) (rootId : Int32) :
    machine.step p (.updateRecord name rootId) =
      (updateRecord p name rootId).map fun result => (.done result.1, result.2) := by
  simp only [machine]

theorem machine_getRootId (p : Memory) (name : RecordName) :
    machine.step p (.getRootId name) =
      (getRootId p name).map fun rootId => (.found rootId, p) := by
  simp only [machine]

theorem recordMap_insertRecord (m : RecordMap) (name : RecordName) (rootId : Int32) :
    recordMap.step m (.insertRecord name rootId) =
      if name ∈ m then .ok (.done false, m)
      else if m.keys.card < maxRecords then .ok (.done true, m.insert name rootId)
      else .ok (.done false, m) :=
  rfl

theorem recordMap_deleteRecord (m : RecordMap) (name : RecordName) :
    recordMap.step m (.deleteRecord name) =
      if m.keys.card = 0 then .error .assertion else .ok (.done (name ∈ m), m.erase name) :=
  rfl

theorem recordMap_updateRecord (m : RecordMap) (name : RecordName) (rootId : Int32) :
    recordMap.step m (.updateRecord name rootId) =
      if name ∈ m then .ok (.done true, m.insert name rootId) else .ok (.done false, m) :=
  rfl

/-- A call of a page with room for it returns what it returns on the map. -/
theorem Keeps.step_eq {call : HeaderCall} {outcome : HeaderOutcome} {next : RecordMap}
    (h : Keeps p m) (hvalid : ValidCall call) (hstep : recordMap.step m call = .ok (outcome, next))
    (hroom : HasRoom m call) :
    ∃ page, machine.step p call = .ok (outcome, page) ∧ Keeps page next := by
  cases call with
  | insertRecord name rootId =>
      obtain ⟨hname, hroot⟩ := hvalid
      by_cases hmem : name ∈ m
      · rw [recordMap_insertRecord, if_pos hmem] at hstep
        cases hstep
        refine ⟨p, ?_, h⟩
        rw [machine_insertRecord, h.insertRecord_of_mem hname hroot hmem]
        rfl
      · have hfits := hroom hmem
        rw [recordMap_insertRecord, if_neg hmem, if_pos hfits] at hstep
        cases hstep
        obtain ⟨page, hinsert, hkeeps⟩ := h.insertRecord_of_room hname hroot hmem hfits
        refine ⟨page, ?_, hkeeps⟩
        rw [machine_insertRecord, hinsert]
        rfl
  | deleteRecord name =>
      rw [recordMap_deleteRecord] at hstep
      split at hstep
      · cases hstep
      next hcard =>
        cases hstep
        by_cases hmem : name ∈ m
        · obtain ⟨page, hdelete, hkeeps⟩ := h.deleteRecord_of_mem hvalid hmem hcard
          refine ⟨page, ?_, hkeeps⟩
          rw [machine_deleteRecord, hdelete, decide_eq_true hmem]
          rfl
        · have herase : m.erase name = m := by
            apply Finmap.ext_lookup
            intro other
            by_cases heq : other = name
            · rw [heq, Finmap.lookup_erase, Finmap.lookup_eq_none.mpr hmem]
            · exact Finmap.lookup_erase_ne heq
          refine ⟨p, ?_, herase.symm ▸ h⟩
          rw [machine_deleteRecord, h.deleteRecord_of_notMem hvalid hcard hmem,
            decide_eq_false hmem]
          rfl
  | updateRecord name rootId =>
      obtain ⟨hname, -⟩ := hvalid
      rw [recordMap_updateRecord] at hstep
      split at hstep
      next hmem =>
        cases hstep
        obtain ⟨page, hupdate, hkeeps⟩ := h.updateRecord_of_mem hname hmem
        refine ⟨page, ?_, hkeeps⟩
        rw [machine_updateRecord, hupdate]
        rfl
      next hmem =>
        cases hstep
        refine ⟨p, ?_, h⟩
        rw [machine_updateRecord, h.updateRecord_of_notMem hname hmem]
        rfl
  | getRootId name =>
      cases hstep
      refine ⟨p, ?_, h⟩
      rw [machine_getRootId, h.getRootId_eq hvalid]
      rfl

/-- A call of a page without room for it does not return. -/
theorem Keeps.step_fault {call : HeaderCall} (h : Keeps p m) (hvalid : ValidCall call)
    (hroom : ¬ HasRoom m call) : ∃ fault, machine.step p call = .error fault := by
  cases call with
  | insertRecord name rootId =>
      obtain ⟨hnew, hfull⟩ := Classical.not_imp.mp hroom
      refine ⟨.outOfBounds, ?_⟩
      rw [machine_insertRecord, h.insertRecord_of_full hvalid.1 hvalid.2 hnew hfull]
      rfl
  | deleteRecord _ => exact absurd trivial hroom
  | updateRecord _ _ => exact absurd trivial hroom
  | getRootId _ => exact absurd trivial hroom

theorem Keeps.run_ok_iff {calls : List HeaderCall} {outcomes : List HeaderOutcome}
    {records : RecordMap} (h : Keeps p m) (hvalid : ∀ call ∈ calls, ValidCall call)
    (hspec : recordMap.run m calls = .ok (outcomes, records)) :
    (∃ final, machine.run p calls = .ok (outcomes, final)) ↔ recordMap.Guarded HasRoom m calls := by
  refine Machine.run_ok_iff_guarded Keeps ?_ ?_ hvalid hspec h
  · intro _ _ _ _ _ hkeeps hcall hstep hroom
    exact hkeeps.step_eq hcall hstep hroom
  · intro _ _ _ hkeeps hcall hroom
    exact hkeeps.step_fault hcall hroom

/-- Calls on an initialised page that a map with room for some names can serve return the
same on the page, inside its bytes, exactly when no new name comes to a full page. -/
theorem run_isMap_iff (p : Memory) {calls : List HeaderCall} {outcomes : List HeaderOutcome}
    {records : RecordMap} (hvalid : ∀ call ∈ calls, ValidCall call)
    (hspec : recordMap.run ∅ calls = .ok (outcomes, records)) :
    (∃ final, machine.run (init p) calls = .ok (outcomes, final)) ↔
      recordMap.Guarded HasRoom ∅ calls :=
  (keeps_init p).run_ok_iff hvalid hspec

theorem run_isMap_iff_one :
    ∃ final, machine.run (init Memory.zeros)
      [.insertRecord [0x61] 1, .updateRecord [0x61] 2, .getRootId [0x61], .deleteRecord [0x61]] =
        .ok ([.done true, .done true, .found (some 2), .done true], final) :=
  (run_isMap_iff Memory.zeros (by decide) rfl).mpr (by decide)

/-! ## A page that is full -/

theorem card_keys_insert (rootId : Int32) {name : RecordName} (hnew : name ∉ m) :
    (m.insert name rootId).keys.card = m.keys.card + 1 := by
  have hkeys : (m.insert name rootId).keys = insert name m.keys := by
    ext other
    rw [Finmap.mem_keys, Finset.mem_insert, Finmap.mem_keys, Finmap.mem_insert]
  rw [hkeys, Finset.card_insert_of_notMem fun hmem => hnew (Finmap.mem_keys.mp hmem)]

/-- Different new names that all have room are not too many. -/
theorem card_add_length_le_of_guarded {names : List RecordName} (hnodup : names.Nodup)
    (hnew : ∀ name ∈ names, name ∉ m) (hle : m.keys.card ≤ maxRecords) (rootId : Int32)
    (hroom : recordMap.Guarded HasRoom m (names.map fun name => .insertRecord name rootId)) :
    m.keys.card + names.length ≤ maxRecords := by
  induction names generalizing m with
  | nil => exact hle
  | cons name rest ih =>
      obtain ⟨hname, hrest⟩ := List.forall_mem_cons.mp hnew
      obtain ⟨hfirst, hnodup⟩ := List.nodup_cons.mp hnodup
      obtain ⟨hcall, hthen⟩ := hroom
      have hcard : m.keys.card < maxRecords := hcall hname
      have hstep : recordMap.step m (.insertRecord name rootId) =
          .ok (.done true, m.insert name rootId) := by
        rw [recordMap_insertRecord, if_neg hname, if_pos hcard]
      have hinserted := card_keys_insert rootId hname
      have hcount := ih hnodup (fun other hmem hin => ?_) (by omega) (hthen _ _ hstep)
      · rw [List.length_cons]
        omega
      · rcases Finmap.mem_insert.mp hin with rfl | hold
        · exact hfirst hmem
        · exact hrest other hmem hold

/-- The map serves all of them. -/
theorem exists_run_insertRecords (m : RecordMap) (names : List RecordName) (rootId : Int32) :
    ∃ outcomes records, recordMap.run m (names.map fun name => .insertRecord name rootId) =
      .ok (outcomes, records) := by
  induction names generalizing m with
  | nil => exact ⟨[], m, rfl⟩
  | cons name rest ih =>
      obtain ⟨outcome, next, hstep⟩ : ∃ outcome next,
          recordMap.step m (.insertRecord name rootId) = .ok (outcome, next) := by
        rw [recordMap_insertRecord]
        split
        · exact ⟨_, _, rfl⟩
        · split <;> exact ⟨_, _, rfl⟩
      obtain ⟨outcomes, records, hrest⟩ := ih next
      refine ⟨outcome :: outcomes, records, ?_⟩
      rw [List.map_cons, Machine.run_cons_of_step hstep, hrest]

/-- One name more than there is room for. -/
def tooManyNames : List RecordName :=
  (List.range (maxRecords + 1)).map fun i => [UInt8.ofNat (i + 1)]

theorem nodup_tooManyNames : tooManyNames.Nodup := by
  refine List.nodup_range.map_on fun i hi k hk hsame => ?_
  have hbyte := congrArg UInt8.toNat (List.head_eq_of_cons_eq hsame)
  rw [List.mem_range, maxRecords_eq] at hi hk
  rw [UInt8.toNat_ofNat', UInt8.toNat_ofNat'] at hbyte
  omega

/-- One record more than there is room for. -/
def tooManyRecords : List HeaderCall := tooManyNames.map fun name => .insertRecord name 0

theorem tooManyRecords_not_isMap :
    ¬ ∀ (p : Memory) (calls : List HeaderCall) (outcomes : List HeaderOutcome)
        (records : RecordMap), (∀ call ∈ calls, ValidCall call) →
      recordMap.run ∅ calls = .ok (outcomes, records) →
      ∃ final, machine.run (init p) calls = .ok (outcomes, final) := by
  intro hclaim
  have hvalid : ∀ call ∈ tooManyRecords, ValidCall call := by decide +kernel
  obtain ⟨outcomes, records, hspec⟩ := exists_run_insertRecords ∅ tooManyNames 0
  have hrun := hclaim Memory.zeros tooManyRecords outcomes records hvalid hspec
  have hroom := ((keeps_init Memory.zeros).run_ok_iff hvalid hspec).mp hrun
  have hcount := card_add_length_le_of_guarded nodup_tooManyNames
    (fun _ _ => Finmap.notMem_empty) (Nat.zero_le _) 0 hroom
  have hlength : tooManyNames.length = maxRecords + 1 := by
    unfold tooManyNames
    rw [List.length_map, List.length_range]
  omega

end BusTub.HeaderPage
