import BusTub.Common
import BusTub.Library.LowBits

/-! # The directory page

`HashTableDirectoryPage`. Indices and depths stay far below `2 ^ 32`, so that the
unsigned arithmetic of the source is that of the natural numbers.
-/

namespace BusTub

/-- `DIRECTORY_ARRAY_SIZE`. -/
def directoryArraySize : Nat := 512

/-- `HashTableDirectoryPage`, without its own page id and log sequence number. -/
structure DirectoryPage where
  globalDepth : Nat := 0
  localDepths : Nat → Nat := fun _ => 0
  bucketPageIds : Nat → PageId := fun _ => 0

namespace DirectoryPage

/-- `Pow`. -/
def pow (base power : Nat) : Nat := base ^ power

def getGlobalDepthMask (d : DirectoryPage) : Nat := pow 2 d.globalDepth - 1

def incrGlobalDepth (d : DirectoryPage) : DirectoryPage :=
  { d with globalDepth := d.globalDepth + 1 }

def decrGlobalDepth (d : DirectoryPage) : DirectoryPage :=
  { d with globalDepth := d.globalDepth - 1 }

def getBucketPageId (d : DirectoryPage) (bucketIdx : Nat) : PageId := d.bucketPageIds bucketIdx

def setBucketPageId (d : DirectoryPage) (bucketIdx : Nat) (bucketPageId : PageId) :
    DirectoryPage :=
  { d with bucketPageIds := Function.update d.bucketPageIds bucketIdx bucketPageId }

/-- `Size`. -/
def size (d : DirectoryPage) : Nat := pow 2 d.globalDepth

/-- `CanShrink`. -/
def canShrink (d : DirectoryPage) : Bool :=
  (List.range d.size).all (fun i => d.localDepths i ≠ d.globalDepth)

def getLocalDepth (d : DirectoryPage) (bucketIdx : Nat) : Nat := d.localDepths bucketIdx

def setLocalDepth (d : DirectoryPage) (bucketIdx localDepth : Nat) : DirectoryPage :=
  { d with localDepths := Function.update d.localDepths bucketIdx localDepth }

def getLocalDepthMask (d : DirectoryPage) (bucketIdx : Nat) : Nat :=
  pow 2 (d.getLocalDepth bucketIdx) - 1

def incrLocalDepth (d : DirectoryPage) (bucketIdx : Nat) : DirectoryPage :=
  d.setLocalDepth bucketIdx (d.localDepths bucketIdx + 1)

def decrLocalDepth (d : DirectoryPage) (bucketIdx : Nat) : DirectoryPage :=
  d.setLocalDepth bucketIdx (d.localDepths bucketIdx - 1)

/-- `GetLocalHighBit`. -/
def getLocalHighBit (d : DirectoryPage) (bucketIdx : Nat) : Nat :=
  let localDepth := d.getLocalDepth bucketIdx
  ((bucketIdx >>> (localDepth - 1)) + 1) <<< (localDepth - 1)

/-- `GetSplitImageIndex`. -/
def getSplitImageIndex (d : DirectoryPage) (bucketIdx : Nat) : Nat :=
  let highBits := d.getLocalHighBit bucketIdx
  let splitImageIndex :=
    highBits ||| (bucketIdx &&& (pow 2 (d.getLocalDepth bucketIdx - 1) - 1))
  splitImageIndex &&& d.getLocalDepthMask bucketIdx

variable (d : DirectoryPage) (i j : Nat)

/-- The split image has the bits of the index up to the local depth, with the
highest of them flipped. -/
theorem getSplitImageIndex_eq {l : Nat} (hdepth : d.localDepths i = l + 1) :
    d.getSplitImageIndex i = LowBits.flip l i := by
  unfold getSplitImageIndex getLocalHighBit getLocalDepthMask getLocalDepth pow
  dsimp only
  rw [hdepth, Nat.add_sub_cancel, Nat.and_two_pow_sub_one_eq_mod, Nat.and_two_pow_sub_one_eq_mod,
    Nat.shiftLeft_eq, Nat.shiftRight_eq_div_pow, Nat.mul_comm,
    ← Nat.two_pow_add_eq_or_of_lt (Nat.mod_lt _ (Nat.two_pow_pos l))]
  unfold LowBits.flip
  congr 1
  rw [Nat.mul_add, Nat.mul_one]
  have hdiv := Nat.div_add_mod i (2 ^ l)
  omega

@[simp] theorem localDepths_setBucketPageId (bucketPageId : PageId) :
    (d.setBucketPageId i bucketPageId).localDepths = d.localDepths := rfl

@[simp] theorem globalDepth_setBucketPageId (bucketPageId : PageId) :
    (d.setBucketPageId i bucketPageId).globalDepth = d.globalDepth := rfl

@[simp] theorem bucketPageIds_setBucketPageId (bucketPageId : PageId) :
    (d.setBucketPageId i bucketPageId).bucketPageIds =
      Function.update d.bucketPageIds i bucketPageId := rfl

@[simp] theorem localDepths_setLocalDepth (depth : Nat) :
    (d.setLocalDepth i depth).localDepths = Function.update d.localDepths i depth := rfl

@[simp] theorem globalDepth_setLocalDepth (depth : Nat) :
    (d.setLocalDepth i depth).globalDepth = d.globalDepth := rfl

@[simp] theorem bucketPageIds_setLocalDepth (depth : Nat) :
    (d.setLocalDepth i depth).bucketPageIds = d.bucketPageIds := rfl

end DirectoryPage

end BusTub
