import Mathlib.Algebra.Order.Ring.Int
import Mathlib.Data.Finset.Basic
import Mathlib.Tactic.Common

/-! # Constants and record identifiers

`common/config.h` is not part of the repository. The page size is the one that
the layout comment of the hash table directory page adds up to, and the invalid
page id is the `-1` that the replacer and the header page compare against.
-/

namespace BusTub

/-- `PAGE_SIZE`, in bytes. -/
def pageSize : Nat := 4096

/-- `page_id_t`, a signed 32-bit integer. -/
abbrev PageId := Int

/-- `INVALID_PAGE_ID`. -/
def invalidPageId : PageId := -1

/-- `txn_id_t`. A smaller identifier means an older transaction. -/
abbrev TxnId := Int

/-- Reduction to a signed 32-bit integer, as a C++ conversion does it. -/
def toInt32 (value : Int) : Int := (value + 2 ^ 31) % 2 ^ 32 - 2 ^ 31

/-- Reduction to an unsigned 32-bit integer. -/
def toUInt32 (value : Nat) : Nat := value % 2 ^ 32

theorem toInt32_of_bounds {value : Int} (hlow : -2 ^ 31 ≤ value) (hhigh : value < 2 ^ 31) :
    toInt32 value = value := by
  unfold toInt32
  omega

/-- `data_` of a page. -/
abbrev PageData := Fin pageSize → UInt8

/-- `RID`: a page and a slot of it. -/
structure RID where
  pageId : PageId := invalidPageId
  slotNum : Nat := 0
  deriving DecidableEq, Repr

end BusTub
