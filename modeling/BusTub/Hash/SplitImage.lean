import BusTub.Hash.DirectoryPage

/-! # The split image in 32-bit words

The arithmetic of the directory page as it is done, on unsigned 32-bit words that wrap
around. What `GetLocalHighBit` carries beyond the local depth is masked away, so that an
index and its split image differ in the highest bit of the local depth only.
-/

namespace LowBits

/-- A flip leaves the bits below the highest one. -/
theorem flip_eq_xor (l i : Nat) : flip l i = i % 2 ^ (l + 1) ^^^ 2 ^ l := by
  apply Nat.eq_of_testBit_eq
  intro k
  unfold flip
  rw [Nat.add_comm, Nat.testBit_mod_two_pow, Nat.testBit_xor, Nat.testBit_mod_two_pow,
    Nat.testBit_two_pow]
  rcases lt_trichotomy k l with hlow | rfl | hhigh
  · have hsucc : k < l + 1 := by omega
    rw [Nat.testBit_two_pow_add_gt hlow, decide_eq_true hsucc, decide_eq_false (by omega : ¬ l = k),
      Bool.xor_false]
  · rw [Nat.testBit_two_pow_add_eq, decide_eq_true (Nat.lt_succ_self k), decide_eq_true rfl,
      Bool.true_and, Bool.true_and, Bool.xor_true]
  · rw [decide_eq_false (by omega : ¬ k < l + 1), decide_eq_false (by omega : ¬ l = k),
      Bool.false_and, Bool.false_and, Bool.xor_false]

/-- On the low bits a flip is its own inverse. -/
theorem flip_flip {l i : Nat} (hi : i < 2 ^ (l + 1)) : flip l (flip l i) = i := by
  rw [flip_eq_xor l (flip l i), Nat.mod_eq_of_lt (flip_lt l i), flip_eq_xor, Nat.mod_eq_of_lt hi,
    Nat.xor_assoc, Nat.xor_self, Nat.xor_zero]

end LowBits

namespace BusTub

/-- `local_depths_` of `HashTableDirectoryPage`. -/
structure HashTableDirectoryPage where
  localDepths : UInt32 → UInt8

namespace HashTableDirectoryPage

/-- `Pow`, where the result fits a word. -/
def pow (base power : UInt32) : UInt32 := .ofNat (base.toNat ^ power.toNat)

/-- `GetLocalDepth`. -/
def getLocalDepth (p : HashTableDirectoryPage) (bucketIdx : UInt32) : UInt32 :=
  (p.localDepths bucketIdx).toUInt32

/-- `GetLocalDepthMask`. -/
def getLocalDepthMask (p : HashTableDirectoryPage) (bucketIdx : UInt32) : UInt32 :=
  pow 2 (p.getLocalDepth bucketIdx) - 1

/-- `GetLocalHighBit`. -/
def getLocalHighBit (p : HashTableDirectoryPage) (bucketIdx : UInt32) : UInt32 :=
  let localDepth := p.getLocalDepth bucketIdx
  ((bucketIdx >>> (localDepth - 1)) + 1) <<< (localDepth - 1)

/-- `GetSplitImageIndex`. -/
def getSplitImageIndex (p : HashTableDirectoryPage) (bucketIdx : UInt32) : UInt32 :=
  let highBits := p.getLocalHighBit bucketIdx
  let splitImageIndex :=
    highBits ||| (bucketIdx &&& (pow 2 (p.getLocalDepth bucketIdx - 1) - 1))
  splitImageIndex &&& p.getLocalDepthMask bucketIdx

variable {p : HashTableDirectoryPage} {i : UInt32} {l : Nat}

theorem toNat_getLocalDepth (p : HashTableDirectoryPage) (i : UInt32) :
    (p.getLocalDepth i).toNat = (p.localDepths i).toNat := UInt8.toNat_toUInt32 _

theorem toNat_getLocalDepth_sub_one (hdepth : (p.localDepths i).toNat = l + 1) :
    (p.getLocalDepth i - 1).toNat = l := by
  have hle : (1 : UInt32) ≤ p.getLocalDepth i := by
    rw [UInt32.le_iff_toNat_le, toNat_getLocalDepth, hdepth]
    exact Nat.succ_le_succ (Nat.zero_le l)
  rw [UInt32.toNat_sub_of_le _ _ hle, toNat_getLocalDepth, hdepth]
  rfl

/-- A mask is a power of two less one. -/
theorem toNat_pow_two_sub_one {power : UInt32} (hpower : power.toNat < 32) :
    (pow 2 power - 1).toNat = 2 ^ power.toNat - 1 := by
  have hpow : (pow 2 power).toNat = 2 ^ power.toNat := by
    unfold pow
    rw [UInt32.toNat_ofNat']
    exact Nat.mod_eq_of_lt (Nat.pow_lt_pow_right (by decide) hpower)
  have hle : (1 : UInt32) ≤ pow 2 power := by
    rw [UInt32.le_iff_toNat_le, hpow]
    exact Nat.one_le_two_pow
  rw [UInt32.toNat_sub_of_le _ _ hle, hpow]
  rfl

/-- The sum wraps around at 32 bits, and the shift throws bits away. -/
theorem toNat_getLocalHighBit (hdepth : (p.localDepths i).toNat = l + 1) (hl : l < 32) :
    (p.getLocalHighBit i).toNat = (i.toNat / 2 ^ l + 1) % 2 ^ 32 * 2 ^ l % 2 ^ 32 := by
  unfold getLocalHighBit
  dsimp only
  rw [UInt32.toNat_shiftLeft, UInt32.toNat_add, UInt32.toNat_shiftRight,
    toNat_getLocalDepth_sub_one hdepth, Nat.mod_eq_of_lt hl, Nat.shiftLeft_eq,
    Nat.shiftRight_eq_div_pow]
  rfl

/-- What is carried beyond the local depth does not show in its bits. -/
theorem toNat_getLocalHighBit_mod (hdepth : (p.localDepths i).toNat = l + 1) (hl : l < 31) :
    (p.getLocalHighBit i).toNat % 2 ^ (l + 1) = 2 ^ l * ((i.toNat / 2 ^ l + 1) % 2) := by
  have hword : 2 ^ (l + 1) ∣ 2 ^ 32 := pow_dvd_pow 2 (by omega)
  have htwo : 2 ∣ 2 ^ 32 := ⟨2 ^ 31, by decide⟩
  rw [toNat_getLocalHighBit hdepth (by omega), Nat.mod_mod_of_dvd _ hword, pow_succ 2 l,
    Nat.mul_comm _ (2 ^ l), Nat.mul_mod_mul_left, Nat.mod_mod_of_dvd _ htwo]

/-- The split image has the low bits of the index, with the highest of them flipped. -/
theorem toNat_getSplitImageIndex (hdepth : (p.localDepths i).toNat = l + 1) (hl : l < 31) :
    (p.getSplitImageIndex i).toNat = LowBits.flip l i.toNat := by
  have hlow := toNat_getLocalDepth_sub_one hdepth
  have hmask : (p.getLocalDepthMask i).toNat = 2 ^ (l + 1) - 1 := by
    unfold getLocalDepthMask
    rw [toNat_pow_two_sub_one (by rw [toNat_getLocalDepth]; omega), toNat_getLocalDepth, hdepth]
  have hrest : i.toNat % 2 ^ l < 2 ^ l := Nat.mod_lt _ (Nat.two_pow_pos l)
  have hfit : i.toNat % 2 ^ l % 2 ^ (l + 1) = i.toNat % 2 ^ l :=
    Nat.mod_eq_of_lt (hrest.trans (Nat.pow_lt_pow_succ (by decide)))
  unfold getSplitImageIndex
  dsimp only
  rw [UInt32.toNat_and, UInt32.toNat_or, UInt32.toNat_and, hmask,
    toNat_pow_two_sub_one (by rw [hlow]; omega), hlow, Nat.and_two_pow_sub_one_eq_mod,
    Nat.and_two_pow_sub_one_eq_mod, Nat.or_mod_two_pow, hfit, toNat_getLocalHighBit_mod hdepth hl,
    ← Nat.two_pow_add_eq_or_of_lt hrest]
  unfold LowBits.flip
  rw [pow_succ, Nat.mod_mul, Nat.add_mod_right, Nat.add_div_right _ (Nat.two_pow_pos l)]
  exact Nat.add_comm _ _

/-- An index is paired with the one that differs in the highest bit of the local depth, and
that one is paired with it. Nothing above that bit matters. -/
theorem getSplitImageIndex_pairs (p : HashTableDirectoryPage) (i : UInt32)
    (hlow : 1 ≤ (p.localDepths i).toNat) (hhigh : (p.localDepths i).toNat ≤ 31) :
    (p.getSplitImageIndex i).toNat =
        i.toNat % 2 ^ (p.localDepths i).toNat ^^^ 2 ^ ((p.localDepths i).toNat - 1) ∧
      (p.getSplitImageIndex i).toNat ≠ i.toNat % 2 ^ (p.localDepths i).toNat ∧
      (∀ (q : HashTableDirectoryPage) (j : UInt32), q.localDepths j = p.localDepths i →
        j.toNat % 2 ^ (p.localDepths i).toNat = i.toNat % 2 ^ (p.localDepths i).toNat →
        q.getSplitImageIndex j = p.getSplitImageIndex i) ∧
      ∀ q : HashTableDirectoryPage, q.localDepths (p.getSplitImageIndex i) = p.localDepths i →
        (q.getSplitImageIndex (p.getSplitImageIndex i)).toNat =
          i.toNat % 2 ^ (p.localDepths i).toNat := by
  obtain ⟨l, hdepth⟩ : ∃ l, (p.localDepths i).toNat = l + 1 := ⟨_, (Nat.sub_add_cancel hlow).symm⟩
  have himage := toNat_getSplitImageIndex hdepth (by omega)
  rw [hdepth, Nat.add_sub_cancel]
  refine ⟨?_, ?_, ?_, ?_⟩
  · rw [himage, LowBits.flip_eq_xor]
  · intro hsame
    have hagree : LowBits.Agree (l + 1) (LowBits.flip l i.toNat) i.toNat := by
      unfold LowBits.Agree
      rw [← himage, hsame, Nat.mod_mod]
    exact LowBits.not_agree_flip l i.toNat hagree
  · intro q j hq hagree
    apply UInt32.toNat_inj.mp
    rw [himage, toNat_getSplitImageIndex (by rw [hq, hdepth]) (by omega)]
    exact LowBits.flip_congr hagree
  · intro q hq
    -- the image is below `2 ^ (l + 1)`, and so is what it is flipped back to
    have hmod : LowBits.flip l (i.toNat % 2 ^ (l + 1)) = LowBits.flip l i.toNat :=
      LowBits.flip_congr (LowBits.agree_mod le_rfl i.toNat)
    rw [toNat_getSplitImageIndex (by rw [hq, hdepth]) (by omega), himage, ← hmod]
    exact LowBits.flip_flip (Nat.mod_lt _ (Nat.two_pow_pos _))

/-- The index of all ones: the sum wraps around to zero. -/
theorem getSplitImageIndex_pairs_allOnes :
    (HashTableDirectoryPage.getSplitImageIndex ⟨fun _ => 1⟩ 0xFFFFFFFF).toNat = 0 ∧
      (HashTableDirectoryPage.getLocalHighBit ⟨fun _ => 1⟩ 0xFFFFFFFF).toNat = 0 :=
  ⟨(getSplitImageIndex_pairs ⟨fun _ => 1⟩ 0xFFFFFFFF (by decide) (by decide)).1, by decide⟩

end HashTableDirectoryPage

/-- The depths as the bytes of the page. -/
def DirectoryPage.words (d : DirectoryPage) : HashTableDirectoryPage :=
  ⟨fun i => .ofNat (d.localDepths i.toNat)⟩

/-- Depths that fit a mask: the words come to the same index as the natural numbers. -/
theorem DirectoryPage.getSplitImageIndex_words {d : DirectoryPage} {i : Nat} (hi : i < 2 ^ 32)
    (hlow : 1 ≤ d.localDepths i) (hhigh : d.localDepths i ≤ 31) :
    (d.words.getSplitImageIndex (.ofNat i)).toNat = d.getSplitImageIndex i := by
  have hindex : (UInt32.ofNat i).toNat = i := UInt32.toNat_ofNat_of_lt' hi
  obtain ⟨l, hdepth⟩ : ∃ l, d.localDepths i = l + 1 := ⟨_, (Nat.sub_add_cancel hlow).symm⟩
  have hword : (d.words.localDepths (.ofNat i)).toNat = l + 1 := by
    change (UInt8.ofNat (d.localDepths (UInt32.ofNat i).toNat)).toNat = l + 1
    rw [hindex, ← hdepth]
    exact UInt8.toNat_ofNat_of_lt' (lt_of_le_of_lt hhigh (by decide))
  rw [HashTableDirectoryPage.toNat_getSplitImageIndex hword (by omega), hindex,
    d.getSplitImageIndex_eq i hdepth]

end BusTub
