import BusTub.Common

/-! # Transactions

The record that lock manager, table heaps and transaction manager share. The
fields that no modelled function reads (thread id, log sequence number and the
page sets of the B+ tree) are left out.
-/

namespace BusTub

/-- `TransactionState`. -/
inductive TransactionState where
  | growing
  | shrinking
  | committed
  | aborted
  deriving DecidableEq, Repr

/-- `IsolationLevel`. -/
inductive IsolationLevel where
  | readUncommitted
  | repeatableRead
  | readCommitted
  deriving DecidableEq, Repr

/-- `AbortReason`. -/
inductive AbortReason where
  | lockOnShrinking
  | unlockOnShrinking
  | upgradeConflict
  | deadlock
  | lockSharedOnReadUncommitted
  deriving DecidableEq, Repr

/-- `WType`. -/
inductive WType where
  | insert
  | delete
  | update
  deriving DecidableEq, Repr

/-- A `Tuple` is its `size_` bytes; a `List` carries its own length. -/
abbrev Tuple := List UInt8

/-- `table_oid_t`. -/
abbrev TableOid := Nat

/-- `index_oid_t`. -/
abbrev IndexOid := Nat

/-- `TableWriteRecord`; the table heap pointer is named by the table's oid. -/
structure TableWriteRecord where
  rid : RID
  wtype : WType
  /-- Only used for the update operation. -/
  tuple : Tuple
  table : TableOid
  deriving DecidableEq, Repr

/-- `IndexWriteRecord`. -/
structure IndexWriteRecord where
  rid : RID
  tableOid : TableOid
  wtype : WType
  tuple : Tuple
  /-- Only used for the update operation. -/
  oldTuple : Tuple
  indexOid : IndexOid
  deriving DecidableEq, Repr

/-- `Transaction`. -/
structure Transaction where
  state : TransactionState := .growing
  isolationLevel : IsolationLevel := .repeatableRead
  /-- The write sets grow at the back, as the deques of the source do. -/
  tableWriteSet : List TableWriteRecord := []
  indexWriteSet : List IndexWriteRecord := []
  sharedLockSet : Finset RID := ∅
  exclusiveLockSet : Finset RID := ∅

end BusTub
