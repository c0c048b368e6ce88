import BusTub.Concurrency.Transaction
import BusTub.Library.Memory

/-! # Table pages

`TablePage`: a slotted page, byte by byte. Logging is disabled, so that no locks are
taken and a rejected call does not abort the transaction. Arithmetic on 32-bit
numbers is that of the natural numbers where the checks before it rule out a wrap.
-/

namespace BusTub

/-- Why a call on a table does not return. -/
inductive HeapFault where
  /-- "Cannot have empty tuples." -/
  | emptyTuple
  /-- "Cannot have more slots than tuples.", "We can't have more slots than tuples." -/
  | slotBeyondCount
  /-- "Offset should appear after current free space position.",
  "Free space appears before tuples." -/
  | offsetBeforeFreeSpace
  /-- A loop that does not end. -/
  | diverges
  deriving DecidableEq, Repr

namespace TablePage

/-! ## Layout -/

/-- `SIZE_TABLE_PAGE_HEADER`. -/
def sizeTablePageHeader : Nat := 24

/-- `SIZE_TUPLE`. -/
def sizeTuple : Nat := 8

/-- `OFFSET_PREV_PAGE_ID`. -/
def offsetPrevPageId : Nat := 8

/-- `OFFSET_NEXT_PAGE_ID`. -/
def offsetNextPageId : Nat := 12

/-- `OFFSET_FREE_SPACE`. -/
def offsetFreeSpace : Nat := 16

/-- `OFFSET_TUPLE_COUNT`. -/
def offsetTupleCount : Nat := 20

/-- `OFFSET_TUPLE_OFFSET`. -/
def offsetTupleOffset : Nat := 24

/-- `OFFSET_TUPLE_SIZE`. -/
def offsetTupleSize : Nat := 28

/-- `DELETE_MASK`. -/
def deleteMask : Nat := 2 ^ 31

/-- A page id as the four bytes of a `page_id_t`. -/
def encodePageId (pageId : PageId) : Nat := (pageId % 2 ^ 32).toNat

def getTablePageId (p : Memory) : PageId := toInt32 (p.read32 0)

def getPrevPageId (p : Memory) : PageId := toInt32 (p.read32 offsetPrevPageId)

def getNextPageId (p : Memory) : PageId := toInt32 (p.read32 offsetNextPageId)

def setPrevPageId (p : Memory) (prevPageId : PageId) : Memory :=
  p.write32 offsetPrevPageId (encodePageId prevPageId)

def setNextPageId (p : Memory) (nextPageId : PageId) : Memory :=
  p.write32 offsetNextPageId (encodePageId nextPageId)

def getFreeSpacePointer (p : Memory) : Nat := p.read32 offsetFreeSpace

def setFreeSpacePointer (p : Memory) (freeSpacePointer : Nat) : Memory :=
  p.write32 offsetFreeSpace freeSpacePointer

def getTupleCount (p : Memory) : Nat := p.read32 offsetTupleCount

def setTupleCount (p : Memory) (tupleCount : Nat) : Memory := p.write32 offsetTupleCount tupleCount

/-- `GetFreeSpaceRemaining`: a difference of 64-bit numbers, cut to 32 bits. -/
def getFreeSpaceRemaining (p : Memory) : Nat :=
  toUInt32 (getFreeSpacePointer p + 2 ^ 64 - sizeTablePageHeader - sizeTuple * getTupleCount p)

def getTupleOffsetAtSlot (p : Memory) (slotNum : Nat) : Nat :=
  p.read32 (offsetTupleOffset + sizeTuple * slotNum)

def setTupleOffsetAtSlot (p : Memory) (slotNum offset : Nat) : Memory :=
  p.write32 (offsetTupleOffset + sizeTuple * slotNum) offset

def getTupleSize (p : Memory) (slotNum : Nat) : Nat :=
  p.read32 (offsetTupleSize + sizeTuple * slotNum)

def setTupleSize (p : Memory) (slotNum size : Nat) : Memory :=
  p.write32 (offsetTupleSize + sizeTuple * slotNum) size

/-- The tuple is deleted or empty. -/
def isDeleted (tupleSize : Nat) : Bool := tupleSize &&& deleteMask ≠ 0 ∨ tupleSize = 0

def setDeletedFlag (tupleSize : Nat) : Nat := tupleSize ||| deleteMask

def unsetDeletedFlag (tupleSize : Nat) : Nat := tupleSize &&& (2 ^ 32 - 1 - deleteMask)

/-! ## Operations -/

/-- `Init`. -/
def init (p : Memory) (pageId : PageId) (pageSize : Nat) (prevPageId : PageId) : Memory :=
  let p := p.write32 0 (encodePageId pageId)
  let p := setPrevPageId p prevPageId
  let p := setNextPageId p invalidPageId
  let p := setFreeSpacePointer p pageSize
  setTupleCount p 0

/-- The first slot that is empty, or the tuple count. -/
def findFreeSlot (p : Memory) : Nat :=
  ((List.range (getTupleCount p)).find? (fun i => getTupleSize p i = 0)).getD (getTupleCount p)

/-- `InsertTuple`; `none` stands for `false`. -/
def insertTuple (p : Memory) (tuple : Tuple) : Except HeapFault (Option (RID × Memory)) :=
  if ¬ tuple.length > 0 then .error .emptyTuple
  else if getFreeSpaceRemaining p < tuple.length + sizeTuple then .ok none
  else
    let i := findFreeSlot p
    if i = getTupleCount p ∧ getFreeSpaceRemaining p < tuple.length + sizeTuple then .ok none
    else
      let p := setFreeSpacePointer p (getFreeSpacePointer p - tuple.length)
      let p := p.write (getFreeSpacePointer p) tuple
      let p := setTupleOffsetAtSlot p i (getFreeSpacePointer p)
      let p := setTupleSize p i tuple.length
      let rid := ⟨getTablePageId p, i⟩
      let p := if i = getTupleCount p then setTupleCount p (getTupleCount p + 1) else p
      .ok (some (rid, p))

/-- `MarkDelete`. -/
def markDelete (p : Memory) (rid : RID) : Bool × Memory :=
  let slotNum := rid.slotNum
  if slotNum ≥ getTupleCount p then (false, p)
  else
    let tupleSize := getTupleSize p slotNum
    if isDeleted tupleSize then (false, p)
    else if tupleSize > 0 then (true, setTupleSize p slotNum (setDeletedFlag tupleSize))
    else (true, p)

/-- One turn of the loop of `UpdateTuple` over the offsets. -/
def shiftOffset (tupleOffset tupleSize newSize : Nat) (p : Memory) (i : Nat) : Memory :=
  let tupleOffsetI := getTupleOffsetAtSlot p i
  if getTupleSize p i > 0 ∧ tupleOffsetI < tupleOffset + tupleSize then
    setTupleOffsetAtSlot p i (tupleOffsetI + tupleSize - newSize)
  else p

/-- `UpdateTuple` with the old tuple; `none` stands for `false`. -/
def updateTuple (p : Memory) (newTuple : Tuple) (rid : RID) :
    Except HeapFault (Option (Tuple × Memory)) :=
  if ¬ newTuple.length > 0 then .error .emptyTuple
  else
    let slotNum := rid.slotNum
    if slotNum ≥ getTupleCount p then .ok none
    else
      let tupleSize := getTupleSize p slotNum
      if isDeleted tupleSize then .ok none
      else if toUInt32 (getFreeSpaceRemaining p + tupleSize) < newTuple.length then .ok none
      else
        let tupleOffset := getTupleOffsetAtSlot p slotNum
        let oldTuple := p.read tupleOffset tupleSize
        let freeSpacePointer := getFreeSpacePointer p
        if ¬ tupleOffset ≥ freeSpacePointer then .error .offsetBeforeFreeSpace
        else
          let p := p.move (freeSpacePointer + tupleSize - newTuple.length) freeSpacePointer
            (tupleOffset - freeSpacePointer)
          let p := setFreeSpacePointer p (freeSpacePointer + tupleSize - newTuple.length)
          let p := p.write (tupleOffset + tupleSize - newTuple.length) newTuple
          let p := setTupleSize p slotNum newTuple.length
          let p := (List.range (getTupleCount p)).foldl
            (shiftOffset tupleOffset tupleSize newTuple.length) p
          .ok (some (oldTuple, p))

/-- One turn of the loop of `ApplyDelete` over the offsets. -/
def closeGap (tupleOffset tupleSize : Nat) (p : Memory) (i : Nat) : Memory :=
  let tupleOffsetI := getTupleOffsetAtSlot p i
  if getTupleSize p i ≠ 0 ∧ tupleOffsetI < tupleOffset then
    setTupleOffsetAtSlot p i (tupleOffsetI + tupleSize)
  else p

/-- `ApplyDelete`. -/
def applyDelete (p : Memory) (rid : RID) : Except HeapFault Memory :=
  let slotNum := rid.slotNum
  if ¬ slotNum < getTupleCount p then .error .slotBeyondCount
  else
    let tupleOffset := getTupleOffsetAtSlot p slotNum
    let tupleSize := getTupleSize p slotNum
    let tupleSize := if isDeleted tupleSize then unsetDeletedFlag tupleSize else tupleSize
    let freeSpacePointer := getFreeSpacePointer p
    if ¬ tupleOffset ≥ freeSpacePointer then .error .offsetBeforeFreeSpace
    else
      let p := p.move (freeSpacePointer + tupleSize) freeSpacePointer
        (tupleOffset - freeSpacePointer)
      let p := setFreeSpacePointer p (freeSpacePointer + tupleSize)
      let p := setTupleSize p slotNum 0
      let p := setTupleOffsetAtSlot p slotNum 0
      .ok ((List.range (getTupleCount p)).foldl (closeGap tupleOffset tupleSize) p)

/-- `RollbackDelete`. -/
def rollbackDelete (p : Memory) (rid : RID) : Except HeapFault Memory :=
  let slotNum := rid.slotNum
  if ¬ slotNum < getTupleCount p then .error .slotBeyondCount
  else
    let tupleSize := getTupleSize p slotNum
    if isDeleted tupleSize then .ok (setTupleSize p slotNum (unsetDeletedFlag tupleSize))
    else .ok p

/-- `GetTuple`; `none` stands for `false`. -/
def getTuple (p : Memory) (rid : RID) : Option Tuple :=
  let slotNum := rid.slotNum
  if slotNum ≥ getTupleCount p then none
  else
    let tupleSize := getTupleSize p slotNum
    if isDeleted tupleSize then none
    else some (p.read (getTupleOffsetAtSlot p slotNum) tupleSize)

end TablePage

end BusTub
