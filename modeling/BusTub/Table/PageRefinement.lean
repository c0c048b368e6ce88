import BusTub.Table.Slots
import Mathlib.Data.Nat.Bitwise

/-! # Table pages are lists of slots

What each function of a table page does to the slots that its bytes represent: the
tuples lie in disjoint ranges between the free space pointer and the end of the
page, and moving the ones below a tuple whose size changes keeps them so.
-/

namespace BusTub.TablePage

open Memory

/-! ## Fields -/

section Fields

variable (p : Memory) (i j value : Nat)

@[simp] theorem getTupleCount_setFreeSpacePointer :
    getTupleCount (setFreeSpacePointer p value) = getTupleCount p := by
  unfold getTupleCount setFreeSpacePointer offsetTupleCount offsetFreeSpace
  exact read32_write32_disjoint (by omega)

@[simp] theorem getTupleCount_setTupleCount :
    getTupleCount (setTupleCount p value) = value % 2 ^ 32 := by
  unfold getTupleCount setTupleCount
  exact read32_write32 p _ value

@[simp] theorem getTupleCount_setTupleOffsetAtSlot :
    getTupleCount (setTupleOffsetAtSlot p j value) = getTupleCount p := by
  unfold getTupleCount setTupleOffsetAtSlot offsetTupleCount offsetTupleOffset sizeTuple
  exact read32_write32_disjoint (by omega)

@[simp] theorem getTupleCount_setTupleSize :
    getTupleCount (setTupleSize p j value) = getTupleCount p := by
  unfold getTupleCount setTupleSize offsetTupleCount offsetTupleSize sizeTuple
  exact read32_write32_disjoint (by omega)

@[simp] theorem getFreeSpacePointer_setFreeSpacePointer :
    getFreeSpacePointer (setFreeSpacePointer p value) = value % 2 ^ 32 := by
  unfold getFreeSpacePointer setFreeSpacePointer
  exact read32_write32 p _ value

@[simp] theorem getFreeSpacePointer_setTupleCount :
    getFreeSpacePointer (setTupleCount p value) = getFreeSpacePointer p := by
  unfold getFreeSpacePointer setTupleCount offsetFreeSpace offsetTupleCount
  exact read32_write32_disjoint (by omega)

@[simp] theorem getFreeSpacePointer_setTupleOffsetAtSlot :
    getFreeSpacePointer (setTupleOffsetAtSlot p j value) = getFreeSpacePointer p := by
  unfold getFreeSpacePointer setTupleOffsetAtSlot offsetFreeSpace offsetTupleOffset sizeTuple
  exact read32_write32_disjoint (by omega)

@[simp] theorem getFreeSpacePointer_setTupleSize :
    getFreeSpacePointer (setTupleSize p j value) = getFreeSpacePointer p := by
  unfold getFreeSpacePointer setTupleSize offsetFreeSpace offsetTupleSize sizeTuple
  exact read32_write32_disjoint (by omega)

@[simp] theorem getTupleOffsetAtSlot_setFreeSpacePointer :
    getTupleOffsetAtSlot (setFreeSpacePointer p value) i = getTupleOffsetAtSlot p i := by
  unfold getTupleOffsetAtSlot setFreeSpacePointer offsetTupleOffset sizeTuple offsetFreeSpace
  exact read32_write32_disjoint (by omega)

@[simp] theorem getTupleOffsetAtSlot_setTupleCount :
    getTupleOffsetAtSlot (setTupleCount p value) i = getTupleOffsetAtSlot p i := by
  unfold getTupleOffsetAtSlot setTupleCount offsetTupleOffset sizeTuple offsetTupleCount
  exact read32_write32_disjoint (by omega)

@[simp] theorem getTupleOffsetAtSlot_setTupleOffsetAtSlot :
    getTupleOffsetAtSlot (setTupleOffsetAtSlot p j value) i =
      if i = j then value % 2 ^ 32 else getTupleOffsetAtSlot p i := by
  unfold getTupleOffsetAtSlot setTupleOffsetAtSlot offsetTupleOffset sizeTuple
  split
  next heq => rw [heq, read32_write32]
  next hne => exact read32_write32_disjoint (by omega)

@[simp] theorem getTupleOffsetAtSlot_setTupleSize :
    getTupleOffsetAtSlot (setTupleSize p j value) i = getTupleOffsetAtSlot p i := by
  unfold getTupleOffsetAtSlot setTupleSize offsetTupleOffset sizeTuple offsetTupleSize
  exact read32_write32_disjoint (by omega)

@[simp] theorem getTupleSize_setFreeSpacePointer :
    getTupleSize (setFreeSpacePointer p value) i = getTupleSize p i := by
  unfold getTupleSize setFreeSpacePointer offsetTupleSize sizeTuple offsetFreeSpace
  exact read32_write32_disjoint (by omega)

@[simp] theorem getTupleSize_setTupleCount :
    getTupleSize (setTupleCount p value) i = getTupleSize p i := by
  unfold getTupleSize setTupleCount offsetTupleSize sizeTuple offsetTupleCount
  exact read32_write32_disjoint (by omega)

@[simp] theorem getTupleSize_setTupleOffsetAtSlot :
    getTupleSize (setTupleOffsetAtSlot p j value) i = getTupleSize p i := by
  unfold getTupleSize setTupleOffsetAtSlot offsetTupleSize sizeTuple offsetTupleOffset
  exact read32_write32_disjoint (by omega)

@[simp] theorem getTupleSize_setTupleSize :
    getTupleSize (setTupleSize p j value) i = if i = j then value % 2 ^ 32 else getTupleSize p i := by
  unfold getTupleSize setTupleSize offsetTupleSize sizeTuple
  split
  next heq => rw [heq, read32_write32]
  next hne => exact read32_write32_disjoint (by omega)

end Fields

/-! ## Blocks beyond the slot array -/

section Blocks

variable {p : Memory} {addr src n a i j value : Nat} {bytes : List UInt8}

theorem getTupleCount_write (hout : 24 ≤ addr) :
    getTupleCount (p.write addr bytes) = getTupleCount p := by
  unfold getTupleCount offsetTupleCount
  exact read32_write_disjoint (by omega)

theorem getTupleCount_move (hout : 24 ≤ addr) :
    getTupleCount (p.move addr src n) = getTupleCount p := by
  unfold getTupleCount offsetTupleCount
  exact read32_move_disjoint (by omega)

theorem getFreeSpacePointer_write (hout : 24 ≤ addr) :
    getFreeSpacePointer (p.write addr bytes) = getFreeSpacePointer p := by
  unfold getFreeSpacePointer offsetFreeSpace
  exact read32_write_disjoint (by omega)

theorem getTupleOffsetAtSlot_write (hout : 28 + 8 * i ≤ addr) :
    getTupleOffsetAtSlot (p.write addr bytes) i = getTupleOffsetAtSlot p i := by
  unfold getTupleOffsetAtSlot offsetTupleOffset sizeTuple
  exact read32_write_disjoint (by omega)

theorem getTupleOffsetAtSlot_move (hout : 28 + 8 * i ≤ addr) :
    getTupleOffsetAtSlot (p.move addr src n) i = getTupleOffsetAtSlot p i := by
  unfold getTupleOffsetAtSlot offsetTupleOffset sizeTuple
  exact read32_move_disjoint (by omega)

theorem getTupleSize_write (hout : 32 + 8 * i ≤ addr) :
    getTupleSize (p.write addr bytes) i = getTupleSize p i := by
  unfold getTupleSize offsetTupleSize sizeTuple
  exact read32_write_disjoint (by omega)

theorem getTupleSize_move (hout : 32 + 8 * i ≤ addr) :
    getTupleSize (p.move addr src n) i = getTupleSize p i := by
  unfold getTupleSize offsetTupleSize sizeTuple
  exact read32_move_disjoint (by omega)

theorem setFreeSpacePointer_apply (hout : a < 16 ∨ 24 ≤ a) :
    setFreeSpacePointer p value a = p a := by
  unfold setFreeSpacePointer offsetFreeSpace write32
  exact write_outside (by rw [length_bytes32]; omega)

theorem setTupleCount_apply (hout : a < 16 ∨ 24 ≤ a) : setTupleCount p value a = p a := by
  unfold setTupleCount offsetTupleCount write32
  exact write_outside (by rw [length_bytes32]; omega)

theorem setTupleOffsetAtSlot_apply (hout : a < 24 ∨ 32 + 8 * j ≤ a) :
    setTupleOffsetAtSlot p j value a = p a := by
  unfold setTupleOffsetAtSlot offsetTupleOffset sizeTuple write32
  exact write_outside (by rw [length_bytes32]; omega)

theorem setTupleSize_apply (hout : a < 24 ∨ 32 + 8 * j ≤ a) : setTupleSize p j value a = p a := by
  unfold setTupleSize offsetTupleSize sizeTuple write32
  exact write_outside (by rw [length_bytes32]; omega)

end Blocks

theorem getTupleCount_congr {p p' : Memory} (hsame : ∀ a, a < 24 → p' a = p a) :
    getTupleCount p' = getTupleCount p :=
  read32_congr fun i hi => hsame (20 + i) (by omega)

theorem getFreeSpacePointer_congr {p p' : Memory} (hsame : ∀ a, a < 24 → p' a = p a) :
    getFreeSpacePointer p' = getFreeSpacePointer p :=
  read32_congr fun i hi => hsame (16 + i) (by omega)

/-! ## The loops over the offsets -/

/-- A loop that gives some of the first `n` slots another offset, by their size and offset. -/
theorem foldl_setOffsets (turn : Memory → Nat → Memory) (cond : Nat → Nat → Prop)
    [∀ size offset, Decidable (cond size offset)] (f : Nat → Nat)
    (hturn : ∀ p i, turn p i = if cond (getTupleSize p i) (getTupleOffsetAtSlot p i) then
      setTupleOffsetAtSlot p i (f (getTupleOffsetAtSlot p i)) else p) (p : Memory) (n : Nat) :
    (∀ a, a < 24 ∨ 24 + 8 * n ≤ a → (List.range n).foldl turn p a = p a) ∧
    (∀ i, getTupleSize ((List.range n).foldl turn p) i = getTupleSize p i) ∧
    ∀ i, getTupleOffsetAtSlot ((List.range n).foldl turn p) i =
      if i < n ∧ cond (getTupleSize p i) (getTupleOffsetAtSlot p i) then
        f (getTupleOffsetAtSlot p i) % 2 ^ 32
      else getTupleOffsetAtSlot p i := by
  induction n with
  | zero => simp
  | succ n ih =>
      obtain ⟨hbytes, hsizes, hoffsets⟩ := ih
      rw [List.range_succ, List.foldl_append, List.foldl_cons, List.foldl_nil]
      generalize (List.range n).foldl turn p = middle at hbytes hsizes hoffsets ⊢
      have hself := hoffsets n
      rw [if_neg (by omega)] at hself
      rw [hturn, hsizes, hself]
      by_cases hcond : cond (getTupleSize p n) (getTupleOffsetAtSlot p n)
      · rw [if_pos hcond]
        refine ⟨fun a ha => ?_, fun i => ?_, fun i => ?_⟩
        · rw [setTupleOffsetAtSlot_apply (by omega), hbytes a (by omega)]
        · rw [getTupleSize_setTupleOffsetAtSlot, hsizes]
        · rw [getTupleOffsetAtSlot_setTupleOffsetAtSlot, hoffsets]
          by_cases hi : i = n
          · subst hi
            rw [if_pos rfl, if_pos ⟨Nat.lt_succ_self i, hcond⟩]
          · rw [if_neg hi]
            have hlt : i < n ↔ i < n + 1 := by omega
            simp only [hlt]
      · rw [if_neg hcond]
        refine ⟨fun a ha => hbytes a (by omega), hsizes, fun i => ?_⟩
        rw [hoffsets]
        by_cases hi : i = n
        · subst hi
          rw [if_neg (by simp), if_neg (fun h => hcond h.2)]
        · have hlt : i < n ↔ i < n + 1 := by omega
          simp only [hlt]

/-! ## Representation -/

/-- The size word of a slot. -/
def sizeWord : Slot → Nat
  | .empty => 0
  | .full false data => data.length
  | .full true data => data.length + deleteMask

/-- The slot of a page in its bytes: an empty slot has offset `0`, and the tuple of
another one lies between the free space pointer and the end of the page. -/
def SlotAt (p : Memory) (i : Nat) : Slot → Prop
  | .empty => getTupleOffsetAtSlot p i = 0
  | .full _ data => 0 < data.length ∧ getFreeSpacePointer p ≤ getTupleOffsetAtSlot p i ∧
      getTupleOffsetAtSlot p i + data.length ≤ pageSize ∧
      p.read (getTupleOffsetAtSlot p i) data.length = data

/-- The bytes of the page represent the slots. -/
structure Represents (p : Memory) (slots : List Slot) : Prop where
  count : getTupleCount p = slots.length
  free : getFreeSpacePointer p + Slots.total slots = pageSize
  room : Slots.headerSize slots ≤ getFreeSpacePointer p
  sizes : ∀ i s, slots[i]? = some s → getTupleSize p i = sizeWord s
  slotAt : ∀ i s, slots[i]? = some s → SlotAt p i s
  /-- The tuples of different slots do not overlap. -/
  disjoint : ∀ i j deleted deleted' data data', slots[i]? = some (.full deleted data) →
    slots[j]? = some (.full deleted' data') → i ≠ j →
    getTupleOffsetAtSlot p i + data.length ≤ getTupleOffsetAtSlot p j ∨
      getTupleOffsetAtSlot p j + data'.length ≤ getTupleOffsetAtSlot p i

/-! ## Size words -/

theorem and_deleteMask (size : Nat) : size &&& deleteMask = (size.testBit 31).toNat * 2 ^ 31 :=
  Nat.and_two_pow size 31

theorem isDeleted_of_lt {size : Nat} (hpos : 0 < size) (hlt : size < 2 ^ 31) :
    isDeleted size = false := by
  unfold isDeleted
  rw [and_deleteMask, Nat.testBit_lt_two_pow hlt]
  simp
  omega

theorem isDeleted_zero : isDeleted 0 = true := by decide

theorem isDeleted_add_deleteMask {size : Nat} (hlt : size < 2 ^ 31) :
    isDeleted (size + deleteMask) = true := by
  have hbit : (size + deleteMask).testBit 31 = true := by
    unfold deleteMask
    rw [Nat.add_comm, Nat.testBit_two_pow_add_eq, Nat.testBit_lt_two_pow hlt]
    rfl
  unfold isDeleted
  rw [and_deleteMask, hbit]
  simp

theorem setDeletedFlag_of_lt {size : Nat} (hlt : size < 2 ^ 31) :
    setDeletedFlag size = size + deleteMask := by
  have hor := Nat.two_pow_add_eq_or_of_lt hlt 1
  unfold setDeletedFlag deleteMask
  rw [Nat.mul_one] at hor
  rw [Nat.or_comm, ← hor, Nat.add_comm]

theorem unsetDeletedFlag_add_deleteMask {size : Nat} (hlt : size < 2 ^ 31) :
    unsetDeletedFlag (size + deleteMask) = size := by
  have hmask : 2 ^ 32 - 1 - deleteMask = 2 ^ 31 - 1 := by decide
  unfold unsetDeletedFlag
  rw [hmask, Nat.and_two_pow_sub_one_eq_mod]
  unfold deleteMask
  omega

theorem sizeWord_lt {s : Slot} (hsmall : s.size ≤ pageSize) : sizeWord s < 2 ^ 32 := by
  unfold pageSize at hsmall
  cases s with
  | empty => decide
  | full deleted data =>
      rw [Slot.size_full] at hsmall
      cases deleted with
      | false => exact lt_of_le_of_lt hsmall (by decide)
      | true => exact Nat.add_lt_add_right (lt_of_le_of_lt hsmall (by decide : 4096 < 2 ^ 31)) _

theorem sizeWord_pos (deleted : Bool) {data : Tuple} (hpos : 0 < data.length) :
    0 < sizeWord (.full deleted data) := by
  cases deleted with
  | false => exact hpos
  | true => exact Nat.add_pos_left hpos _

/-! ## Reading -/

section Reading

variable {p : Memory} {slots : List Slot} {i : Nat} {s : Slot} {deleted : Bool} {data : Tuple}

theorem Represents.size_le (h : Represents p slots) (hslot : slots[i]? = some s) :
    s.size ≤ pageSize := by
  have hle := Slots.size_le_total hslot
  have hfree := h.free
  omega

theorem Represents.data_pos (h : Represents p slots)
    (hslot : slots[i]? = some (.full deleted data)) : 0 < data.length :=
  (h.slotAt i _ hslot).1

/-- A slot of a page counts as deleted if a reader does not see its tuple. -/
theorem Represents.isDeleted_eq (h : Represents p slots) (hslot : slots[i]? = some s) :
    isDeleted (getTupleSize p i) = s.visible?.isNone := by
  have hsize := h.size_le hslot
  rw [h.sizes i s hslot]
  cases s with
  | empty => exact isDeleted_zero
  | full deleted data =>
      have hpos := h.data_pos hslot
      rw [Slot.size_full] at hsize
      unfold pageSize at hsize
      cases deleted with
      | false =>
          change isDeleted data.length = false
          exact isDeleted_of_lt hpos (by omega)
      | true =>
          change isDeleted (data.length + deleteMask) = true
          exact isDeleted_add_deleteMask (by omega)

/-- The free space that the page computes. -/
theorem Represents.freeSpace_eq (h : Represents p slots) :
    getFreeSpaceRemaining p = Slots.freeSpace slots := by
  have hfree := h.free
  have hroom := h.room
  unfold Slots.headerSize at hroom
  unfold getFreeSpaceRemaining toUInt32 sizeTablePageHeader sizeTuple Slots.freeSpace
    Slots.headerSize
  rw [h.count]
  unfold pageSize at hfree ⊢
  omega

theorem Represents.slot_lt_iff (h : Represents p slots) :
    i < getTupleCount p ↔ ∃ s, slots[i]? = some s := by
  rw [h.count]
  constructor
  · exact fun hlt => ⟨_, List.getElem?_eq_getElem hlt⟩
  · rintro ⟨s, hslot⟩
    exact (List.getElem?_eq_some_iff.mp hslot).1

/-- A reader sees the tuple of a slot that is not deleted. -/
theorem Represents.getTuple_eq (h : Represents p slots) (rid : RID) :
    getTuple p rid = Slots.getTuple slots rid.slotNum := by
  unfold getTuple Slots.getTuple
  dsimp only
  cases hslot : slots[rid.slotNum]? with
  | none =>
      rw [if_pos]
      · rfl
      · rw [h.count]
        exact List.getElem?_eq_none_iff.mp hslot
  | some s =>
      have hlt := h.slot_lt_iff.mpr ⟨s, hslot⟩
      rw [if_neg (by omega), h.isDeleted_eq hslot, Option.bind_some]
      cases s with
      | empty => rfl
      | full deleted data =>
          cases deleted with
          | true => rfl
          | false =>
              obtain ⟨-, -, -, hread⟩ := h.slotAt _ _ hslot
              have hsize := h.sizes _ _ hslot
              unfold sizeWord at hsize
              rw [hsize, hread]
              rfl

end Reading

/-! ## Changing the size of a tuple -/

section Slide

variable {p p' : Memory} {slots : List Slot} {k : Nat} {deleted : Bool} {old : Tuple} {s : Slot}

/-- The page after the tuple of slot `k` was replaced by one of another size that ends
where the old one did, or by none: the tuples below it have moved by the difference. -/
structure Slid (p p' : Memory) (slots : List Slot) (k : Nat) (old : Tuple) (s : Slot) : Prop where
  pos : s ≠ .empty → 0 < s.size
  fits : Slots.headerSize slots + s.size ≤ getFreeSpacePointer p + old.length
  count : getTupleCount p' = getTupleCount p
  free : getFreeSpacePointer p' = getFreeSpacePointer p + old.length - s.size
  sizes : ∀ j t, slots[j]? = some t →
    getTupleSize p' j = if j = k then sizeWord s else getTupleSize p j
  empty : s = .empty → getTupleOffsetAtSlot p' k = 0
  offset : s ≠ .empty →
    getTupleOffsetAtSlot p' k = getTupleOffsetAtSlot p k + old.length - s.size
  offsets : ∀ j t, j ≠ k → slots[j]? = some t → getTupleOffsetAtSlot p' j =
    if t ≠ .empty ∧ getTupleOffsetAtSlot p j < getTupleOffsetAtSlot p k then
      getTupleOffsetAtSlot p j + old.length - s.size
    else getTupleOffsetAtSlot p j
  below : ∀ a n, getFreeSpacePointer p ≤ a → a + n ≤ getTupleOffsetAtSlot p k →
    p'.read (a + old.length - s.size) n = p.read a n
  above : ∀ a n, getTupleOffsetAtSlot p k + old.length ≤ a → p'.read a n = p.read a n
  data : ∀ flag data, s = .full flag data →
    p'.read (getTupleOffsetAtSlot p k + old.length - s.size) data.length = data

/-- The other tuples lie below the one that is replaced and move, or above it and stay. -/
theorem Slid.offset_other (hslid : Slid p p' slots k old s) (h : Represents p slots)
    (hk : slots[k]? = some (.full deleted old)) {i : Nat} {flag : Bool} {data : Tuple}
    (hi : i ≠ k) (hslot : slots[i]? = some (.full flag data)) :
    (getTupleOffsetAtSlot p i + data.length ≤ getTupleOffsetAtSlot p k ∧
        getTupleOffsetAtSlot p' i = getTupleOffsetAtSlot p i + old.length - s.size) ∨
      (getTupleOffsetAtSlot p k + old.length ≤ getTupleOffsetAtSlot p i ∧
        getTupleOffsetAtSlot p' i = getTupleOffsetAtSlot p i) := by
  have hdata := h.data_pos hslot
  have hold := h.data_pos hk
  rw [hslid.offsets i _ hi hslot]
  rcases h.disjoint i k _ _ _ _ hslot hk hi with hbefore | hafter
  · rw [if_pos ⟨by simp, by omega⟩]
    exact Or.inl ⟨hbefore, rfl⟩
  · rw [if_neg (by omega)]
    exact Or.inr ⟨hafter, rfl⟩

theorem Slid.slotAt_self (hslid : Slid p p' slots k old s) (h : Represents p slots)
    (hk : slots[k]? = some (.full deleted old)) : SlotAt p' k s := by
  obtain ⟨hold, hlow, hhigh, -⟩ := h.slotAt k _ hk
  cases s with
  | empty => exact hslid.empty rfl
  | full flag data =>
      have hposition := hslid.offset (by simp)
      have hread := hslid.data flag data rfl
      have hsize := hslid.pos (by simp)
      have hfree := hslid.free
      have hfits := hslid.fits
      have hroom := h.room
      rw [Slot.size_full] at hposition hread hsize hfree hfits
      refine ⟨hsize, ?_, ?_, ?_⟩
      · rw [hfree, hposition]
        omega
      · rw [hposition]
        omega
      · rw [hposition]
        exact hread

theorem Slid.slotAt_other (hslid : Slid p p' slots k old s) (h : Represents p slots)
    (hk : slots[k]? = some (.full deleted old)) {i : Nat} {t : Slot} (hi : i ≠ k)
    (hslot : slots[i]? = some t) : SlotAt p' i t := by
  cases t with
  | empty =>
      have hsame := hslid.offsets i _ hi hslot
      rw [if_neg (by simp)] at hsame
      exact hsame.trans (h.slotAt i _ hslot)
  | full flag data =>
      obtain ⟨hdata, hlow, hhigh, hread⟩ := h.slotAt i _ hslot
      obtain ⟨hold, hlow', hhigh', -⟩ := h.slotAt k _ hk
      have hfree := hslid.free
      have hfits := hslid.fits
      refine ⟨hdata, ?_⟩
      rcases hslid.offset_other h hk hi hslot with ⟨hbefore, hposition⟩ | ⟨hafter, hposition⟩ <;>
        rw [hposition, hfree]
      · refine ⟨by omega, by omega, ?_⟩
        rw [hslid.below _ _ hlow hbefore, hread]
      · refine ⟨by omega, hhigh, ?_⟩
        rw [hslid.above _ _ hafter, hread]

/-- The new tuple and another one do not overlap. -/
theorem Slid.disjoint_self (hslid : Slid p p' slots k old s) (h : Represents p slots)
    (hk : slots[k]? = some (.full deleted old)) (hs : s ≠ .empty) {i : Nat} {flag : Bool}
    {data : Tuple} (hi : i ≠ k) (hslot : slots[i]? = some (.full flag data)) :
    getTupleOffsetAtSlot p' k + s.size ≤ getTupleOffsetAtSlot p' i ∨
      getTupleOffsetAtSlot p' i + data.length ≤ getTupleOffsetAtSlot p' k := by
  obtain ⟨-, hlow, -, -⟩ := h.slotAt i _ hslot
  obtain ⟨-, hlow', -, -⟩ := h.slotAt k _ hk
  have hfits := hslid.fits
  rw [hslid.offset hs]
  rcases hslid.offset_other h hk hi hslot with ⟨hbefore, hposition⟩ | ⟨hafter, hposition⟩ <;>
    rw [hposition]
  · right; omega
  · left; omega

/-- Two of the other tuples do not overlap. -/
theorem Slid.disjoint_other (hslid : Slid p p' slots k old s) (h : Represents p slots)
    (hk : slots[k]? = some (.full deleted old)) {i j : Nat} {flag flag' : Bool}
    {data data' : Tuple} (hi : i ≠ k) (hj : j ≠ k) (hslot : slots[i]? = some (.full flag data))
    (hslot' : slots[j]? = some (.full flag' data')) (hne : i ≠ j) :
    getTupleOffsetAtSlot p' i + data.length ≤ getTupleOffsetAtSlot p' j ∨
      getTupleOffsetAtSlot p' j + data'.length ≤ getTupleOffsetAtSlot p' i := by
  obtain ⟨-, hlow, -, -⟩ := h.slotAt i _ hslot
  obtain ⟨-, hlow', -, -⟩ := h.slotAt j _ hslot'
  have hfits := hslid.fits
  have hapart := h.disjoint i j _ _ _ _ hslot hslot' hne
  rcases hslid.offset_other h hk hi hslot with ⟨hbefore, hposition⟩ | ⟨hafter, hposition⟩ <;>
    rcases hslid.offset_other h hk hj hslot' with
      ⟨hbefore', hposition'⟩ | ⟨hafter', hposition'⟩ <;>
    rw [hposition, hposition'] <;> omega

/-- The page represents the slots with the one that was replaced. -/
theorem Represents.slide (h : Represents p slots) (hk : slots[k]? = some (.full deleted old))
    (hslid : Slid p p' slots k old s) : Represents p' (slots.set k s) := by
  have hlt := (List.getElem?_eq_some_iff.mp hk).1
  have htotal := Slots.total_set hk s
  rw [Slot.size_full] at htotal
  have hget : ∀ i t, (slots.set k s)[i]? = some t →
      (i = k ∧ t = s) ∨ (i ≠ k ∧ slots[i]? = some t) := by
    intro i t hslot
    by_cases hi : i = k
    · subst hi
      rw [List.getElem?_set_self hlt] at hslot
      exact Or.inl ⟨rfl, (Option.some.inj hslot).symm⟩
    · rw [List.getElem?_set_ne (Ne.symm hi)] at hslot
      exact Or.inr ⟨hi, hslot⟩
  have hfree := h.free
  have hfits := hslid.fits
  refine ⟨?_, ?_, ?_, ?_, ?_, ?_⟩
  · rw [hslid.count, h.count, List.length_set]
  · rw [hslid.free]
    omega
  · rw [hslid.free]
    unfold Slots.headerSize at hfits ⊢
    rw [List.length_set]
    omega
  · intro i t hslot
    rcases hget i t hslot with ⟨rfl, rfl⟩ | ⟨hi, hslot'⟩
    · rw [hslid.sizes i _ hk, if_pos rfl]
    · rw [hslid.sizes i t hslot', if_neg hi]
      exact h.sizes i t hslot'
  · intro i t hslot
    rcases hget i t hslot with ⟨rfl, rfl⟩ | ⟨hi, hslot'⟩
    · exact hslid.slotAt_self h hk
    · exact hslid.slotAt_other h hk hi hslot'
  · intro i j flag flag' data data' hi hj hne
    rcases hget i _ hi with ⟨rfl, rfl⟩ | ⟨hik, hi'⟩
    · rcases hget j _ hj with ⟨hji, -⟩ | ⟨hjk, hj'⟩
      · exact absurd hji.symm hne
      · exact hslid.disjoint_self h hk (by simp) hjk hj'
    · rcases hget j _ hj with ⟨rfl, rfl⟩ | ⟨hjk, hj'⟩
      · exact (hslid.disjoint_self h hk (by simp) hik hi').symm
      · exact hslid.disjoint_other h hk hik hjk hi' hj' hne

end Slide

/-! ## The operations -/

/-- The fields that link the page to others are the same. -/
def SameLinks (p p' : Memory) : Prop := ∀ a, a < 16 → p' a = p a

section Operations

variable {p p' : Memory} {slots : List Slot} {k : Nat} {deleted : Bool} {old : Tuple}

/-- The free space pointer and the offsets are small numbers. -/
theorem Represents.bounds (h : Represents p slots) (hk : slots[k]? = some (.full deleted old)) :
    24 + 8 * slots.length ≤ getFreeSpacePointer p ∧ k < slots.length ∧ 0 < old.length ∧
      getFreeSpacePointer p ≤ getTupleOffsetAtSlot p k ∧
      getTupleOffsetAtSlot p k + old.length ≤ 4096 :=
  ⟨h.room, (List.getElem?_eq_some_iff.mp hk).1, (h.slotAt k _ hk).1, (h.slotAt k _ hk).2.1,
    (h.slotAt k _ hk).2.2.1⟩

/-- The offset of another tuple is below the end of tuple `k` if and only if it is below it. -/
theorem Represents.offset_lt_iff (h : Represents p slots)
    (hk : slots[k]? = some (.full deleted old)) {j : Nat} {flag : Bool} {data : Tuple} (hj : j ≠ k)
    (hslot : slots[j]? = some (.full flag data)) :
    getTupleOffsetAtSlot p j < getTupleOffsetAtSlot p k + old.length ↔
      getTupleOffsetAtSlot p j < getTupleOffsetAtSlot p k := by
  have hpos := h.data_pos hslot
  rcases h.disjoint j k _ _ _ _ hslot hk hj with hbefore | hafter <;> omega

/-- The page after the tuples below tuple `k` have moved, by the difference of the size
of that tuple to another one. -/
structure Moved (p moved : Memory) (slots : List Slot) (k oldSize newSize : Nat) : Prop where
  count : getTupleCount moved = getTupleCount p
  free : getFreeSpacePointer moved = getFreeSpacePointer p + oldSize - newSize
  sizes : ∀ j, j < slots.length → getTupleSize moved j = getTupleSize p j
  offsets : ∀ j, j < slots.length → getTupleOffsetAtSlot moved j = getTupleOffsetAtSlot p j
  links : SameLinks p moved
  below : ∀ a n, getFreeSpacePointer p ≤ a → a + n ≤ getTupleOffsetAtSlot p k →
    moved.read (a + oldSize - newSize) n = p.read a n
  above : ∀ a n, getTupleOffsetAtSlot p k + oldSize ≤ a → moved.read a n = p.read a n

theorem Represents.moved (h : Represents p slots) (hk : slots[k]? = some (.full deleted old))
    {newSize : Nat} (hfit : newSize ≤ Slots.freeSpace slots + old.length) :
    24 + 8 * slots.length ≤ getFreeSpacePointer p + old.length - newSize ∧
      Moved p (setFreeSpacePointer (p.move (getFreeSpacePointer p + old.length - newSize)
        (getFreeSpacePointer p) (getTupleOffsetAtSlot p k - getFreeSpacePointer p))
        (getFreeSpacePointer p + old.length - newSize)) slots k old.length newSize := by
  obtain ⟨hroom, hlt, hold, hlow, hhigh⟩ := h.bounds hk
  have hfree := h.free
  have hroom' : 24 + 8 * slots.length ≤ getFreeSpacePointer p + old.length - newSize := by
    unfold Slots.freeSpace Slots.headerSize pageSize at hfit
    unfold pageSize at hfree
    omega
  refine ⟨hroom', ?_, ?_, ?_, ?_, ?_, ?_, ?_⟩
  · rw [getTupleCount_setFreeSpacePointer, getTupleCount_move (by omega)]
  · rw [getFreeSpacePointer_setFreeSpacePointer]
    exact Nat.mod_eq_of_lt (by omega)
  · intro j hj
    rw [getTupleSize_setFreeSpacePointer, getTupleSize_move (by omega)]
  · intro j hj
    rw [getTupleOffsetAtSlot_setFreeSpacePointer, getTupleOffsetAtSlot_move (by omega)]
  · intro a ha
    rw [setFreeSpacePointer_apply (Or.inl ha), move_outside (by omega)]
  · intro a n hstart hend
    refine (read_congr fun i hi => setFreeSpacePointer_apply (by omega)).trans ?_
    rw [read_move (by omega) (by omega)]
    congr 1
    omega
  · intro a n hstart
    refine (read_congr fun i hi => setFreeSpacePointer_apply (by omega)).trans ?_
    exact read_move_disjoint (by omega)

/-- The bytes of `UpdateTuple` once it has decided to update. -/
theorem Represents.update (h : Represents p slots) (hk : slots[k]? = some (.full false old))
    {tuple : Tuple} (hpos : 0 < tuple.length) {moved : Memory}
    (hmoved : Moved p moved slots k old.length tuple.length)
    (hroom' : 24 + 8 * slots.length ≤ getFreeSpacePointer p + old.length - tuple.length) :
    let start := setTupleSize (moved.write
      (getTupleOffsetAtSlot p k + old.length - tuple.length) tuple) k tuple.length
    let final := (List.range (getTupleCount start)).foldl
      (shiftOffset (getTupleOffsetAtSlot p k) old.length tuple.length) start
    Represents final (slots.set k (.full false tuple)) ∧ SameLinks p final := by
  intro start
  obtain ⟨hroom, hlt, hold, hlow, hhigh⟩ := h.bounds hk
  have hslots := h.count
  have htuple : tuple.length < 2 ^ 32 := by omega
  have hcount : getTupleCount start = slots.length := by
    rw [getTupleCount_setTupleSize, getTupleCount_write (by omega), hmoved.count, hslots]
  have hsize : ∀ j, j < slots.length →
      getTupleSize start j = if j = k then tuple.length else getTupleSize p j := by
    intro j hj
    rw [getTupleSize_setTupleSize, Nat.mod_eq_of_lt htuple, getTupleSize_write (by omega),
      hmoved.sizes j hj]
  have hoffset : ∀ j, j < slots.length →
      getTupleOffsetAtSlot start j = getTupleOffsetAtSlot p j := by
    intro j hj
    rw [getTupleOffsetAtSlot_setTupleSize, getTupleOffsetAtSlot_write (by omega),
      hmoved.offsets j hj]
  obtain ⟨hbytes, hsizes, hoffsets⟩ := foldl_setOffsets
    (shiftOffset (getTupleOffsetAtSlot p k) old.length tuple.length)
    (fun size offset => size > 0 ∧ offset < getTupleOffsetAtSlot p k + old.length)
    (fun offset => offset + old.length - tuple.length) (fun _ _ => rfl) start (getTupleCount start)
  intro final
  have hheader : ∀ a, a < 24 → final a = start a := fun a ha => hbytes a (Or.inl ha)
  -- what a read beyond the slot array sees
  have hread : ∀ a n, 24 + 8 * slots.length ≤ a →
      a + n ≤ getTupleOffsetAtSlot p k + old.length - tuple.length ∨
        getTupleOffsetAtSlot p k + old.length ≤ a → final.read a n = moved.read a n := by
    intro a n ha hout
    have hfinal : final.read a n = start.read a n :=
      read_congr fun i hi => hbytes (a + i) (Or.inr (by rw [hcount]; omega))
    have hstart : start.read a n = (moved.write
        (getTupleOffsetAtSlot p k + old.length - tuple.length) tuple).read a n :=
      read_congr fun i hi => setTupleSize_apply (Or.inr (by omega))
    rw [hfinal, hstart]
    exact read_write_disjoint (by omega)
  refine ⟨h.slide hk ⟨fun _ => hpos, ?_, ?_, ?_, ?_, fun hnil => absurd hnil (by simp), ?_, ?_, ?_,
    ?_, ?_⟩, ?_⟩
  · unfold Slots.headerSize
    rw [Slot.size_full]
    omega
  · rw [getTupleCount_congr hheader, hcount, hslots]
  · rw [getFreeSpacePointer_congr hheader, getFreeSpacePointer_setTupleSize,
      getFreeSpacePointer_write (by omega), hmoved.free]
    rfl
  · intro j t hj
    have hjlt := (List.getElem?_eq_some_iff.mp hj).1
    rw [hsizes, hsize j hjlt]
    rfl
  · intro _
    rw [hoffsets, hcount, hsize k hlt, if_pos rfl, hoffset k hlt, if_pos ⟨hlt, hpos, by omega⟩]
    exact Nat.mod_eq_of_lt (by omega)
  · intro j t hj hslot
    have hjlt := (List.getElem?_eq_some_iff.mp hslot).1
    rw [hoffsets, hcount, hsize j hjlt, if_neg hj, hoffset j hjlt, h.sizes j t hslot]
    cases t with
    | empty => rw [if_neg (by simp [sizeWord]), if_neg (by simp)]
    | full flag data =>
        have hdata := h.data_pos hslot
        have hword : sizeWord (.full flag data) > 0 := sizeWord_pos flag hdata
        have hiff := h.offset_lt_iff hk hj hslot
        have hbound := h.bounds hslot
        by_cases hbelow : getTupleOffsetAtSlot p j < getTupleOffsetAtSlot p k
        · rw [if_pos ⟨hjlt, hword, hiff.mpr hbelow⟩, if_pos ⟨by simp, hbelow⟩]
          exact Nat.mod_eq_of_lt (by omega)
        · rw [if_neg (fun hcond => hbelow (hiff.mp hcond.2.2)), if_neg (fun hcond => hbelow hcond.2)]
  · intro a n hstart hend
    rw [Slot.size_full, hread _ _ (by omega) (by omega)]
    exact hmoved.below a n hstart hend
  · intro a n hstart
    rw [hread _ _ (by omega) (by omega)]
    exact hmoved.above a n hstart
  · intro flag data hdata
    cases hdata
    rw [Slot.size_full]
    have hfinal : final.read (getTupleOffsetAtSlot p k + old.length - tuple.length) tuple.length =
        (moved.write (getTupleOffsetAtSlot p k + old.length - tuple.length) tuple).read
          (getTupleOffsetAtSlot p k + old.length - tuple.length) tuple.length := by
      refine read_congr fun i hi => (hbytes _ (Or.inr (by rw [hcount]; omega))).trans ?_
      exact setTupleSize_apply (Or.inr (by omega))
    rw [hfinal]
    exact read_write_self moved _ tuple
  · intro a ha
    refine (hheader a (by omega)).trans ((setTupleSize_apply (Or.inl (by omega))).trans ?_)
    rw [write_outside (by omega), hmoved.links a ha]

/-- The bytes of `ApplyDelete` once it has moved the tuples below the deleted one. -/
theorem Represents.delete (h : Represents p slots) (hk : slots[k]? = some (.full deleted old))
    {moved : Memory} (hmoved : Moved p moved slots k old.length 0) :
    let start := setTupleOffsetAtSlot (setTupleSize moved k 0) k 0
    let final := (List.range (getTupleCount start)).foldl
      (closeGap (getTupleOffsetAtSlot p k) old.length) start
    Represents final (slots.set k .empty) ∧ SameLinks p final := by
  intro start
  obtain ⟨hroom, hlt, hold, hlow, hhigh⟩ := h.bounds hk
  have hslots := h.count
  have hcount : getTupleCount start = slots.length := by
    rw [getTupleCount_setTupleOffsetAtSlot, getTupleCount_setTupleSize, hmoved.count, hslots]
  have hsize : ∀ j, j < slots.length →
      getTupleSize start j = if j = k then 0 else getTupleSize p j := by
    intro j hj
    rw [getTupleSize_setTupleOffsetAtSlot, getTupleSize_setTupleSize, hmoved.sizes j hj,
      Nat.zero_mod]
  have hoffset : ∀ j, j < slots.length →
      getTupleOffsetAtSlot start j = if j = k then 0 else getTupleOffsetAtSlot p j := by
    intro j hj
    rw [getTupleOffsetAtSlot_setTupleOffsetAtSlot, getTupleOffsetAtSlot_setTupleSize,
      hmoved.offsets j hj, Nat.zero_mod]
  -- the loop moves the offsets of the tuples below the gap, and no other bytes
  obtain ⟨hbytes, hsizes, hoffsets⟩ := foldl_setOffsets
    (closeGap (getTupleOffsetAtSlot p k) old.length)
    (fun size offset => size ≠ 0 ∧ offset < getTupleOffsetAtSlot p k)
    (fun offset => offset + old.length) (fun _ _ => rfl) start (getTupleCount start)
  intro final
  have hheader : ∀ a, a < 24 → final a = start a := fun a ha => hbytes a (Or.inl ha)
  have hread : ∀ a n, 24 + 8 * slots.length ≤ a → final.read a n = moved.read a n := by
    intro a n ha
    refine read_congr fun i hi => (hbytes (a + i) (Or.inr (by rw [hcount]; omega))).trans ?_
    exact (setTupleOffsetAtSlot_apply (Or.inr (by omega))).trans
      (setTupleSize_apply (Or.inr (by omega)))
  refine ⟨h.slide hk ⟨fun hne => absurd rfl hne, ?_, ?_, ?_, ?_, ?_, fun hne => absurd rfl hne, ?_,
    ?_, ?_, fun _ _ hfull => absurd hfull (by simp)⟩, ?_⟩
  · unfold Slots.headerSize
    rw [Slot.size_empty]
    omega
  · rw [getTupleCount_congr hheader, hcount, hslots]
  · rw [getFreeSpacePointer_congr hheader, getFreeSpacePointer_setTupleOffsetAtSlot,
      getFreeSpacePointer_setTupleSize, hmoved.free]
    rfl
  · intro j t hj
    have hjlt := (List.getElem?_eq_some_iff.mp hj).1
    rw [hsizes, hsize j hjlt]
    rfl
  · intro _
    rw [hoffsets, hsize k hlt, if_pos rfl, hoffset k hlt, if_pos rfl, if_neg (by simp)]
  · intro j t hj hslot
    have hjlt := (List.getElem?_eq_some_iff.mp hslot).1
    rw [hoffsets, hcount, hsize j hjlt, if_neg hj, hoffset j hjlt, if_neg hj, h.sizes j t hslot,
      Slot.size_empty]
    cases t with
    | empty => rw [if_neg (by simp [sizeWord]), if_neg (by simp)]
    | full flag data =>
        have hdata := h.data_pos hslot
        have hword : sizeWord (.full flag data) ≠ 0 := (sizeWord_pos flag hdata).ne'
        have hbound := h.bounds hslot
        -- a tuple below the one that is deleted is moved up by its length
        by_cases hbelow : getTupleOffsetAtSlot p j < getTupleOffsetAtSlot p k
        · rw [if_pos ⟨hjlt, hword, hbelow⟩, if_pos ⟨by simp, hbelow⟩]
          exact Nat.mod_eq_of_lt (by omega)
        · rw [if_neg (fun hcond => hbelow hcond.2.2), if_neg (fun hcond => hbelow hcond.2)]
  · intro a n hstart hend
    rw [Slot.size_empty, hread _ _ (by omega)]
    exact hmoved.below a n hstart hend
  · intro a n hstart
    rw [hread _ _ (by omega)]
    exact hmoved.above a n hstart
  · intro a ha
    refine (hheader a (by omega)).trans ((setTupleOffsetAtSlot_apply (Or.inl (by omega))).trans ?_)
    rw [setTupleSize_apply (Or.inl (by omega)), hmoved.links a ha]

/-- A page with another flag on one tuple. -/
theorem Represents.setFlag (h : Represents p slots) (hk : slots[k]? = some (.full deleted old))
    (flag : Bool) : Represents (setTupleSize p k (sizeWord (.full flag old)))
        (slots.set k (.full flag old)) ∧
      SameLinks p (setTupleSize p k (sizeWord (.full flag old))) := by
  obtain ⟨hroom, hlt, hold, hlow, hhigh⟩ := h.bounds hk
  have hword : sizeWord (.full flag old) < 2 ^ 32 := by
    refine sizeWord_lt ?_
    rw [Slot.size_full]
    unfold pageSize
    omega
  have hread : ∀ a n, 24 + 8 * slots.length ≤ a →
      (setTupleSize p k (sizeWord (.full flag old))).read a n = p.read a n := fun a n ha =>
    read_congr fun i hi => setTupleSize_apply (Or.inr (by omega))
  refine ⟨h.slide hk ⟨fun _ => hold, ?_, ?_, ?_, ?_, fun hnil => absurd hnil (by simp), ?_, ?_, ?_,
    ?_, ?_⟩, fun a ha => setTupleSize_apply (Or.inl (by omega))⟩
  · unfold Slots.headerSize
    rw [Slot.size_full]
    omega
  · rw [getTupleCount_setTupleSize]
  · rw [getFreeSpacePointer_setTupleSize, Slot.size_full, Nat.add_sub_cancel]
  · intro j t _
    rw [getTupleSize_setTupleSize, Nat.mod_eq_of_lt hword]
  · intro _
    rw [getTupleOffsetAtSlot_setTupleSize, Slot.size_full, Nat.add_sub_cancel]
  · intro j t _ _
    rw [getTupleOffsetAtSlot_setTupleSize, Slot.size_full, Nat.add_sub_cancel, ite_self]
  · intro a n hstart _
    rw [Slot.size_full, Nat.add_sub_cancel]
    exact hread a n (by omega)
  · exact fun a n hstart => hread a n (by omega)
  · intro flag' data hdata
    cases hdata
    rw [Slot.size_full, Nat.add_sub_cancel, hread _ _ (by omega)]
    exact (h.slotAt k _ hk).2.2.2

/-- A page with the size word of a slot written once more. -/
theorem Represents.rewriteSize (h : Represents p slots) {s : Slot} (hk : slots[k]? = some s) :
    Represents (setTupleSize p k (sizeWord s)) slots ∧
      SameLinks p (setTupleSize p k (sizeWord s)) := by
  have hlt := (List.getElem?_eq_some_iff.mp hk).1
  have hroom : 24 + 8 * slots.length ≤ getFreeSpacePointer p := h.room
  have hword : sizeWord s < 2 ^ 32 := sizeWord_lt (h.size_le hk)
  refine ⟨⟨?_, ?_, ?_, ?_, ?_, ?_⟩, fun a ha => setTupleSize_apply (Or.inl (by omega))⟩
  · rw [getTupleCount_setTupleSize, h.count]
  · rw [getFreeSpacePointer_setTupleSize, h.free]
  · rw [getFreeSpacePointer_setTupleSize]
    exact h.room
  · intro i t hi
    rw [getTupleSize_setTupleSize, Nat.mod_eq_of_lt hword]
    split
    next heq =>
      rw [heq, hk] at hi
      rw [Option.some.inj hi]
    next => exact h.sizes i t hi
  · intro i t hi
    have hslot := h.slotAt i t hi
    cases t with
    | empty => exact (getTupleOffsetAtSlot_setTupleSize p i k _).trans hslot
    | full flag data =>
        obtain ⟨hpos, hlow, hhigh, hread⟩ := hslot
        unfold SlotAt
        rw [getTupleOffsetAtSlot_setTupleSize, getFreeSpacePointer_setTupleSize]
        refine ⟨hpos, hlow, hhigh, ?_⟩
        exact (read_congr fun n hn => setTupleSize_apply (Or.inr (by omega))).trans hread
  · intro i j flag flag' data data' hi hj hne
    rw [getTupleOffsetAtSlot_setTupleSize, getTupleOffsetAtSlot_setTupleSize]
    exact h.disjoint i j _ _ _ _ hi hj hne

end Operations

end BusTub.TablePage
