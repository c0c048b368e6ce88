import BusTub.Common
import BusTub.Library.Machine
import BusTub.Library.Memory
import Mathlib.Data.Finmap

/-! # The header page

`HeaderPage`: records of a name and a root id, one behind the other, with their number in
front of them. A read or a write outside the bytes of the page is a fault.
-/

namespace BusTub

/-- The bytes of a name. -/
abbrev RecordName := List UInt8

/-- Why a call does not return. -/
inductive HeaderFault where
  | assertion
  | outOfBounds
  deriving DecidableEq, Repr

namespace HeaderPage

/-- `memcpy` into the page. -/
def store (p : Memory) (offset : Int) (bytes : List UInt8) : Except HeaderFault Memory :=
  if 0 ≤ offset ∧ offset + bytes.length ≤ pageSize then .ok (p.write offset.toNat bytes)
  else .error .outOfBounds

/-- `GetRecordCount`. -/
def getRecordCount (p : Memory) : Int := toInt32 (p.read32 0)

/-- `SetRecordCount`. -/
def setRecordCount (p : Memory) (recordCount : Int) : Memory :=
  p.write32 0 (recordCount % 2 ^ 32).toNat

/-- `Init`. -/
def init (p : Memory) : Memory := setRecordCount p 0

/-- Whether `strcmp` of the bytes at an address and a name without NUL is zero. It reads up
to the first difference. -/
def strcmpIsZero (p : Memory) : Nat → RecordName → Except HeaderFault Bool
  | addr, [] => if addr < pageSize then .ok (p addr == 0) else .error .outOfBounds
  | addr, c :: rest =>
      if addr < pageSize then
        if p addr = c then strcmpIsZero p (addr + 1) rest else .ok false
      else .error .outOfBounds

/-- The loop of `FindRecord` over the indices that are left. -/
def findRecordLoop (p : Memory) (name : RecordName) : List Nat → Except HeaderFault (Option Nat)
  | [] => .ok none
  | i :: rest =>
      match strcmpIsZero p (4 + i * 36) name with
      | .error fault => .error fault
      | .ok true => .ok (some i)
      | .ok false => findRecordLoop p name rest

/-- `FindRecord`; `none` stands for `-1`. -/
def findRecord (p : Memory) (name : RecordName) : Except HeaderFault (Option Nat) :=
  findRecordLoop p name (List.range (getRecordCount p).toNat)

/-- `InsertRecord` copies the name and the root id to the new record. -/
def copyRecord (p : Memory) (offset : Int) (name : RecordName) (rootId : Int32) :
    Except HeaderFault Memory :=
  match store p offset (name ++ [0]) with
  | .error fault => .error fault
  | .ok p => store p (offset + 32) (Memory.bytes32 rootId.toUInt32.toNat)

/-- `InsertRecord`. -/
def insertRecord (p : Memory) (name : RecordName) (rootId : Int32) :
    Except HeaderFault (Bool × Memory) :=
  if ¬ name.length < 32 then .error .assertion
  else if ¬ invalidPageId < rootId.toInt then .error .assertion
  else
    let recordNum := getRecordCount p
    let offset := 4 + recordNum * 36
    match findRecord p name with
    | .error fault => .error fault
    | .ok (some _) => .ok (false, p)
    | .ok none =>
        (copyRecord p offset name rootId).map fun p => (true, setRecordCount p (recordNum + 1))

/-- `DeleteRecord`. -/
def deleteRecord (p : Memory) (name : RecordName) : Except HeaderFault (Bool × Memory) :=
  let recordNum := getRecordCount p
  if ¬ 0 < recordNum then .error .assertion
  else
    match findRecord p name with
    | .error fault => .error fault
    | .ok none => .ok (false, p)
    | .ok (some index) =>
        let offset := index * 36 + 4
        let length := ((recordNum - index - 1) * 36).toNat
        if offset + 36 + length ≤ pageSize then
          .ok (true, setRecordCount (p.move offset (offset + 36) length) (recordNum - 1))
        else .error .outOfBounds

/-- `UpdateRecord`. -/
def updateRecord (p : Memory) (name : RecordName) (rootId : Int32) :
    Except HeaderFault (Bool × Memory) :=
  if ¬ name.length < 32 then .error .assertion
  else
    match findRecord p name with
    | .error fault => .error fault
    | .ok none => .ok (false, p)
    | .ok (some index) =>
        let offset := index * 36 + 4
        (store p (offset + 32 : Nat) (Memory.bytes32 rootId.toUInt32.toNat)).map fun p => (true, p)

/-- `GetRootId`; `none` if there is no record. -/
def getRootId (p : Memory) (name : RecordName) : Except HeaderFault (Option Int32) :=
  if ¬ name.length < 32 then .error .assertion
  else
    match findRecord p name with
    | .error fault => .error fault
    | .ok none => .ok none
    | .ok (some index) =>
        let offset := (index + 1) * 36
        if offset + 4 ≤ pageSize then .ok (some (UInt32.ofNat (p.read32 offset)).toInt32)
        else .error .outOfBounds

end HeaderPage

/-- The calls of a header page. -/
inductive HeaderCall where
  | insertRecord (name : RecordName) (rootId : Int32)
  | deleteRecord (name : RecordName)
  | updateRecord (name : RecordName) (rootId : Int32)
  | getRootId (name : RecordName)
  deriving DecidableEq

/-- What the calls return. -/
inductive HeaderOutcome where
  | done (success : Bool)
  | found (rootId : Option Int32)
  deriving DecidableEq

namespace HeaderPage

/-- The calls of a header page one after the other. -/
def machine : Machine Memory HeaderCall HeaderOutcome HeaderFault where
  step p call :=
    match call with
    | .insertRecord name rootId =>
        (insertRecord p name rootId).map fun result => (.done result.1, result.2)
    | .deleteRecord name => (deleteRecord p name).map fun result => (.done result.1, result.2)
    | .updateRecord name rootId =>
        (updateRecord p name rootId).map fun result => (.done result.1, result.2)
    | .getRootId name => (getRootId p name).map fun rootId => (.found rootId, p)

/-! ## What the page is for -/

/-- As many records as there is room for. -/
def maxRecords : Nat := (pageSize - 4) / 36

/-- A finite map from names to root ids. -/
abbrev RecordMap := Finmap fun _ : RecordName => Int32

/-- The calls on a finite map with room for some names. An existing record is needed for
`DeleteRecord`. -/
def recordMap : Machine RecordMap HeaderCall HeaderOutcome HeaderFault where
  step m call :=
    match call with
    | .insertRecord name rootId =>
        if name ∈ m then .ok (.done false, m)
        else if m.keys.card < maxRecords then .ok (.done true, m.insert name rootId)
        else .ok (.done false, m)
    | .deleteRecord name =>
        if m.keys.card = 0 then .error .assertion else .ok (.done (name ∈ m), m.erase name)
    | .updateRecord name rootId =>
        if name ∈ m then .ok (.done true, m.insert name rootId) else .ok (.done false, m)
    | .getRootId name => .ok (.found (m.lookup name), m)

/-- A name that `strcmp` can tell from others and that fits its field. -/
structure ValidName (name : RecordName) : Prop where
  nonempty : name ≠ []
  noNul : 0 ∉ name
  length : name.length < 32

/-- What callers promise: the name is valid, and the root id is above `INVALID_PAGE_ID`. -/
def ValidCall : HeaderCall → Prop
  | .insertRecord name rootId | .updateRecord name rootId =>
      ValidName name ∧ invalidPageId < rootId.toInt
  | .deleteRecord name | .getRootId name => ValidName name

/-- A new name comes to a page that has room for one more record. -/
def HasRoom (m : RecordMap) : HeaderCall → Prop
  | .insertRecord name _ => name ∉ m → m.keys.card < maxRecords
  | _ => True

instance (name : RecordName) : Decidable (ValidName name) :=
  decidable_of_iff (name ≠ [] ∧ 0 ∉ name ∧ name.length < 32)
    ⟨fun h => ⟨h.1, h.2.1, h.2.2⟩, fun h => ⟨h.nonempty, h.noNul, h.length⟩⟩

instance : DecidablePred ValidCall
  | .insertRecord _ _ | .updateRecord _ _ => inferInstanceAs (Decidable (_ ∧ _))
  | .deleteRecord name | .getRootId name => inferInstanceAs (Decidable (ValidName name))

instance (m : RecordMap) : DecidablePred (HasRoom m)
  | .insertRecord name _ => inferInstanceAs (Decidable (name ∉ m → m.keys.card < maxRecords))
  | .deleteRecord _ | .updateRecord _ _ | .getRootId _ => inferInstanceAs (Decidable True)

end HeaderPage

end BusTub
