import BusTub.Common
import BusTub.Library.LittleEndian
import BusTub.Library.Memory

/-! # The bytes of a page

What a client sees in `data_` of a page: single bytes, 32-bit words, and the page as a block
of memory. Beyond the page the memory is zero, and what is written there is lost.
-/

namespace BusTub

/-- The byte at an offset of a page. -/
def byteAt (data : PageData) (offset : Nat) : UInt8 :=
  if h : offset < pageSize then data ⟨offset, h⟩ else 0

theorem byteAt_of_lt {data : PageData} {offset : Nat} (h : offset < pageSize) :
    byteAt data offset = data ⟨offset, h⟩ := dif_pos h

/-- The 32-bit word at an offset of a page. -/
def wordAt (data : PageData) (offset : Nat) : Nat :=
  ofBytes ((List.range 4).map fun i => byteAt data (offset + i))

/-- The byte of a 32-bit word. -/
def byteOfWord (value i : Nat) : UInt8 := (toBytes 4 value).getD i 0

theorem map_range_eq_toBytes {bytes : Nat → UInt8} {value : Nat}
    (hbytes : ∀ i, i < 4 → bytes i = byteOfWord value i) :
    (List.range 4).map bytes = toBytes 4 value := by
  refine List.ext_getElem (by simp) fun i hi hi' => ?_
  rw [List.length_map, List.length_range] at hi
  rw [List.getElem_map, List.getElem_range, hbytes i hi, byteOfWord, List.getD_eq_getElem?_getD,
    List.getElem?_eq_getElem hi', Option.getD_some]

/-- A word is read as it was written. -/
theorem wordAt_of_bytes {data : PageData} {offset value : Nat}
    (hbytes : ∀ i, i < 4 → byteAt data (offset + i) = byteOfWord value i)
    (hvalue : value < 2 ^ 32) :
    wordAt data offset = value := by
  unfold wordAt
  rw [map_range_eq_toBytes hbytes]
  exact ofBytes_toBytes_of_lt hvalue

/-- The page as memory. -/
def toMemory (data : PageData) : Memory := byteAt data

/-- The page that is left of memory. -/
def ofMemory (m : Memory) : PageData := fun i => m i

theorem toMemory_ofMemory (m : Memory) {a : Nat} (hlt : a < pageSize) :
    toMemory (ofMemory m) a = m a := byteAt_of_lt hlt

end BusTub
