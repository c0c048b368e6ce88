import BusTub.Library.LowBits

/-! # Partitions by low bits

The numbers are divided into cells, each of them the numbers that agree on as many
low bits as the depth of the cell says, and a cell is empty or not. A scan looks at
`0`, `1`, `2` and so on, and joins the cell of each, if it is empty, with its sibling,
if that is a cell of the same depth. Which groups of cells the scan has joined by a
turn can be told from the partition that it starts with.
-/

namespace LowBits

structure Partition where
  depth : Nat → Nat
  empty : Nat → Bool
  height : Nat
  depth_pos : ∀ i, 0 < depth i
  depth_le : ∀ i, depth i ≤ height
  same : ∀ i j, Agree (depth i) i j → depth j = depth i ∧ empty j = empty i

namespace Partition

variable {P Q : Partition} {i j l m n p : Nat}

/-! ## The scan -/

/-- The cell of the number is empty, and its sibling is a cell. -/
def Joinable (P : Partition) (i : Nat) : Prop :=
  1 < P.depth i ∧ P.empty i = true ∧ P.depth (flip (P.depth i - 1) i) = P.depth i

instance (P : Partition) (i : Nat) : Decidable (P.Joinable i) :=
  inferInstanceAs (Decidable (_ ∧ _ ∧ _))

theorem Joinable.exists_depth (h : P.Joinable i) :
    ∃ l, 0 < l ∧ P.depth i = l + 1 ∧ P.empty i = true ∧ P.depth (flip l i) = l + 1 := by
  obtain ⟨hdeep, hempty, himage⟩ := h
  obtain ⟨l, hl⟩ : ∃ l, P.depth i = l + 1 := ⟨P.depth i - 1, by omega⟩
  rw [hl, Nat.add_sub_cancel] at himage
  exact ⟨l, by omega, hl, hempty, himage⟩

theorem joinable_iff (hdepth : P.depth i = l + 1) :
    P.Joinable i ↔ 0 < l ∧ P.empty i = true ∧ P.depth (flip l i) = l + 1 := by
  unfold Joinable
  rw [hdepth, Nat.add_sub_cancel, Nat.lt_add_left_iff_pos]

/-- A cell that lies outside of two siblings has no number in them. -/
theorem not_agree_of_same (hdepth : P.depth i = l + 1) (himage : P.depth (flip l i) = l + 1)
    (hnot : ¬ Agree l j i) {k : Nat} (hagree : Agree (P.depth j) j k) : ¬ Agree l k i := by
  intro hjoined
  have hsame := (P.same j k hagree).1
  have hdeep : P.depth k = l + 1 := by
    rcases agree_iff_succ.mp hjoined with hown | hother
    · exact (P.same i k (hdepth ▸ hown.symm)).1.trans hdepth
    · exact (P.same _ k (himage ▸ hother.symm)).1.trans himage
  rw [← hsame, hdeep] at hagree
  exact hnot ((hagree.mono (Nat.le_succ l)).trans hjoined)

/-- The cell of the number and its sibling become one cell. -/
def join (P : Partition) (i : Nat) (h : P.Joinable i) : Partition where
  depth j := if Agree (P.depth i - 1) j i then P.depth i - 1 else P.depth j
  empty j := if Agree (P.depth i - 1) j i then P.empty (flip (P.depth i - 1) i) else P.empty j
  height := P.height
  depth_pos j := by
    have hdeep := h.1
    have hpos := P.depth_pos j
    split <;> omega
  depth_le j := by
    have hle := P.depth_le i
    have hle' := P.depth_le j
    split <;> omega
  same j k hagree := by
    obtain ⟨l, -, hl, -, himage⟩ := h.exists_depth
    simp only [hl, Nat.add_sub_cancel] at hagree ⊢
    by_cases hjoined : Agree l j i
    · rw [if_pos hjoined] at hagree
      simp only [if_pos hjoined, if_pos (hagree.symm.trans hjoined), and_self]
    · rw [if_neg hjoined] at hagree
      simp only [if_neg hjoined, if_neg (not_agree_of_same hl himage hjoined hagree)]
      exact P.same j k hagree

/-- The turn of the scan at a number. -/
def turn (P : Partition) (i : Nat) : Partition := if h : P.Joinable i then P.join i h else P

/-- The partition after the first `n` turns. -/
def afterTurns (P : Partition) (n : Nat) : Partition := (List.range n).foldl turn P

@[simp] theorem afterTurns_zero (P : Partition) : P.afterTurns 0 = P := rfl

theorem afterTurns_succ (P : Partition) (n : Nat) :
    P.afterTurns (n + 1) = (P.afterTurns n).turn n := by
  unfold afterTurns
  rw [List.range_succ, List.foldl_append, List.foldl_cons, List.foldl_nil]

theorem turn_of_not (hnot : ¬ P.Joinable i) : P.turn i = P := dif_neg hnot

theorem turn_of_joinable (h : P.Joinable i) (hdepth : P.depth i = l + 1) (j : Nat) :
    (P.turn i).depth j = (if Agree l j i then l else P.depth j) ∧
      (P.turn i).empty j = (if Agree l j i then P.empty (flip l i) else P.empty j) := by
  unfold turn
  rw [dif_pos h]
  simp only [join, hdepth, Nat.add_sub_cancel, and_self]

/-- A number of a joined cell was in a cell that is one deeper. -/
theorem depth_of_agree (hdepth : P.depth i = l + 1) (himage : P.depth (flip l i) = l + 1)
    (hjoined : Agree l j i) : P.depth j = l + 1 := by
  rcases agree_iff_succ.mp hjoined with hown | hother
  · exact (P.same i j (hdepth ▸ hown.symm)).1.trans hdepth
  · exact (P.same _ j (himage ▸ hother.symm)).1.trans himage

theorem depth_turn_le (P : Partition) (i j : Nat) : (P.turn i).depth j ≤ P.depth j := by
  by_cases h : P.Joinable i
  · obtain ⟨l, -, hl, -, himage⟩ := h.exists_depth
    rw [(turn_of_joinable h hl j).1]
    split
    next hjoined => exact depth_of_agree hl himage hjoined ▸ Nat.le_succ l
    next => exact le_refl _
  · rw [turn_of_not h]

theorem depth_afterTurns_le (P : Partition) (j : Nat) (hle : m ≤ n) :
    (P.afterTurns n).depth j ≤ (P.afterTurns m).depth j := by
  induction n, hle using Nat.le_induction with
  | base => exact le_refl _
  | succ n _ ih =>
      rw [afterTurns_succ]
      exact le_trans (depth_turn_le _ n j) ih

/-! ## Groups

A group of level `m` is the numbers that agree with `p` on `m` low bits.
-/

/-- All cells of the group are empty. -/
def Void (P : Partition) (m p : Nat) : Prop := ∀ i, Agree m i p → P.empty i = true

/-- At most one cell of the group is not empty. -/
def Sparse (P : Partition) (m p : Nat) : Prop :=
  ∀ i j, Agree m i p → Agree m j p → P.empty i = false → P.empty j = false →
    Agree (P.depth i) i j

theorem void_iff_bounded (P : Partition) (m p : Nat) :
    (∀ i, i < 2 ^ max m P.height → Agree m i p → P.empty i = true) ↔ P.Void m p := by
  constructor
  · intro hbounded i hagree
    have hlow : Agree m (i % 2 ^ max m P.height) i := agree_mod (le_max_left _ _) i
    have hcell : Agree (P.depth i) i (i % 2 ^ max m P.height) :=
      (agree_mod (le_trans (P.depth_le i) (le_max_right _ _)) i).symm
    rw [← (P.same i _ hcell).2]
    exact hbounded _ (Nat.mod_lt _ (Nat.two_pow_pos _)) (hlow.trans hagree)
  · exact fun hvoid i _ hagree => hvoid i hagree

instance (P : Partition) (m p : Nat) : Decidable (P.Void m p) :=
  decidable_of_iff _ (P.void_iff_bounded m p)

theorem Void.congr (h : P.Void m p) (hagree : Agree m i p) : P.Void m i :=
  fun j hj => h j (hj.trans hagree)

theorem Sparse.congr (h : P.Sparse m p) (hagree : Agree m i p) : P.Sparse m i :=
  fun j k hj hk => h j k (hj.trans hagree) (hk.trans hagree)

theorem Sparse.child (h : P.Sparse m p) (hagree : Agree m i p) : P.Sparse (m + 1) i :=
  fun j k hj hk => h j k ((hj.mono (Nat.le_succ m)).trans hagree)
    ((hk.mono (Nat.le_succ m)).trans hagree)

/-- A group that is one cell has at most one that is not empty. -/
theorem sparse_of_depth_le (hle : P.depth p ≤ m) : P.Sparse m p := by
  intro i j hi hj _ _
  have hdepth := (P.same p i (hi.mono hle).symm).1
  rw [hdepth]
  exact (hi.trans hj.symm).mono hle

theorem depth_eq_of_agree (hle : P.depth p ≤ m) (hagree : Agree m i p) : P.depth i = P.depth p :=
  (P.same p i (hagree.mono hle).symm).1

/-- A group of more than one cell has only deeper cells. -/
theorem lt_depth_of_agree (hlt : m < P.depth p) (hagree : Agree m i p) : m < P.depth i := by
  by_contra hnot
  have hdepth := depth_eq_of_agree (Nat.le_of_not_lt hnot) hagree.symm
  omega

/-- One of the two halves of a sparse group of more than one cell is void. -/
theorem Sparse.void_or (h : P.Sparse m p) (hlt : m < P.depth p) (hi : Agree m i p) :
    P.Void (m + 1) i ∨ P.Void (m + 1) (flip m i) := by
  by_contra hnot
  simp only [not_or, Void, not_forall, Bool.not_eq_true] at hnot
  obtain ⟨⟨j, hj, hjfull⟩, k, hk, hkfull⟩ := hnot
  have hjp : Agree m j p := (hj.mono (Nat.le_succ m)).trans hi
  have hkp : Agree m k p := ((hk.mono (Nat.le_succ m)).trans (agree_flip m i)).trans hi
  have hcell := h j k hjp hkp hjfull hkfull
  have hdeep := lt_depth_of_agree hlt hjp
  refine not_agree_flip m i ?_
  exact (hk.symm.trans (hcell.mono hdeep).symm).trans hj

/-- A group is sparse if one half is void and the other sparse. -/
theorem sparse_of_void (hvoid : P.Void (m + 1) i) (hsparse : P.Sparse (m + 1) (flip m i))
    (hi : Agree m i p) : P.Sparse m p := by
  intro j k hj hk hjfull hkfull
  have hother : ∀ k, Agree m k p → P.empty k = false → Agree (m + 1) k (flip m i) := by
    intro k hk hkfull
    rcases agree_iff_succ.mp (hk.trans hi.symm) with hown | hother
    · rw [hvoid k hown] at hkfull
      cases hkfull
    · exact hother
  exact hsparse j k (hother j hj hjfull) (hother k hk hkfull) hjfull hkfull

/-! ## The schedule -/

/-- How many numbers of the group of `p`, a number below `2 ^ m`, the scan has looked at
once the group is one cell; the first argument is a number of levels. -/
def visitsFrom (P : Partition) : Nat → Nat → Nat → Nat
  | 0, _, _ => 0
  | levels + 1, m, p =>
      if P.depth p ≤ m then 0
      else
        let low := visitsFrom P levels (m + 1) p
        let high := visitsFrom P levels (m + 1) (p + 2 ^ m)
        if high < low then if P.Void (m + 1) (p + 2 ^ m) then 2 * low else 2 * low + 1
        else if P.Void (m + 1) p then 2 * high + 1 else 2 * high + 2

def visits (P : Partition) (m p : Nat) : Nat := visitsFrom P (P.height - m) m p

/-- The turn in which a sparse group of several cells becomes one. -/
def turnOf (P : Partition) (m p : Nat) : Nat := p + (P.visits m p - 1) * 2 ^ m

theorem visits_of_le (hle : P.depth p ≤ m) : P.visits m p = 0 := by
  unfold visits
  cases P.height - m with
  | zero => rfl
  | succ levels =>
      unfold visitsFrom
      rw [if_pos hle]

theorem visits_of_lt (hlt : m < P.depth p) : P.visits m p =
    if P.visits (m + 1) (p + 2 ^ m) < P.visits (m + 1) p then
      if P.Void (m + 1) (p + 2 ^ m) then 2 * P.visits (m + 1) p else 2 * P.visits (m + 1) p + 1
    else if P.Void (m + 1) p then 2 * P.visits (m + 1) (p + 2 ^ m) + 1
    else 2 * P.visits (m + 1) (p + 2 ^ m) + 2 := by
  have hlevels : P.height - m = P.height - (m + 1) + 1 := by
    have hle := P.depth_le p
    omega
  unfold visits
  rw [hlevels, visitsFrom, if_neg (Nat.not_le.mpr hlt)]

theorem visits_pos_iff : 0 < P.visits m p ↔ m < P.depth p := by
  constructor
  · intro hpos
    by_contra hnot
    rw [visits_of_le (Nat.le_of_not_lt hnot)] at hpos
    exact absurd hpos (lt_irrefl 0)
  · intro hlt
    rw [visits_of_lt hlt]
    split
    · split <;> omega
    · split <;> omega

/-! ## What the scan has joined -/

/-- The group is joined before turn `n`. -/
def Due (P : Partition) (m p n : Nat) : Prop :=
  P.Sparse m p ∧ p + P.visits m p * 2 ^ m < n + 2 ^ m

/-- A group of one cell is joined from the start. -/
theorem due_of_depth_le (hp : p < 2 ^ m) (hle : P.depth p ≤ m) (n : Nat) : P.Due m p n := by
  refine ⟨sparse_of_depth_le hle, ?_⟩
  rw [visits_of_le hle]
  omega

/-- `Q` is what the scan makes of `P` in `n` turns. -/
structure Scanned (P Q : Partition) (n : Nat) : Prop where
  depth_le_iff : ∀ m p, 0 < m → p < 2 ^ m → (Q.depth p ≤ m ↔ P.Due m p n)
  empty_iff : ∀ i, Q.empty i = true ↔ P.Void (Q.depth i) i

theorem scanned_zero (P : Partition) : Scanned P P 0 := by
  constructor
  · intro m p _ hp
    constructor
    · exact fun hle => due_of_depth_le hp hle 0
    · rintro ⟨-, hlt⟩
      by_contra hnot
      have hpos := visits_pos_iff.mpr (Nat.lt_of_not_le hnot)
      have hmul : 1 * 2 ^ m ≤ P.visits m p * 2 ^ m := Nat.mul_le_mul_right _ hpos
      omega
  · intro i
    constructor
    · intro hempty j hagree
      rw [(P.same i j hagree.symm).2, hempty]
    · exact fun hvoid => hvoid i (Agree.refl _ i)

/-- The halves of a group, by the number of times that the scan has looked at it before. -/
theorem half_cases (m i : Nat) :
    (i / 2 ^ m % 2 = 0 ∧ Agree (m + 1) (i % 2 ^ m) i ∧ flip m i = i % 2 ^ m + 2 ^ m) ∨
      (i / 2 ^ m % 2 = 1 ∧ Agree (m + 1) (i % 2 ^ m + 2 ^ m) i ∧ flip m i = i % 2 ^ m) := by
  have hpos := Nat.two_pow_pos m
  have hlt := Nat.mod_lt i hpos
  have hmod : i % 2 ^ (m + 1) = i % 2 ^ m + 2 ^ m * (i / 2 ^ m % 2) := Nat.mod_pow_succ
  have hpow : 2 ^ (m + 1) = 2 ^ m + 2 ^ m := by
    rw [pow_succ]
    omega
  unfold Agree
  rcases Nat.mod_two_eq_zero_or_one (i / 2 ^ m) with hbit | hbit
  · rw [hbit, Nat.mul_zero, Nat.add_zero] at hmod
    left
    refine ⟨hbit, ?_, ?_⟩
    · rw [hmod]
      exact Nat.mod_eq_of_lt (by omega)
    · rcases mod_succ_cases m i with ⟨-, hflip⟩ | ⟨hother, -⟩
      · exact hflip
      · omega
  · rw [hbit, Nat.mul_one] at hmod
    right
    refine ⟨hbit, ?_, ?_⟩
    · rw [hmod]
      exact Nat.mod_eq_of_lt (by omega)
    · rcases mod_succ_cases m i with ⟨hother, -⟩ | ⟨-, hflip⟩
      · omega
      · exact hflip

theorem mul_add_lt_iff (m i v : Nat) : i % 2 ^ m + v * 2 ^ m < i + 2 ^ m ↔ v ≤ i / 2 ^ m := by
  have hpos := Nat.two_pow_pos m
  have hi := Nat.mod_add_div' i (2 ^ m)
  calc i % 2 ^ m + v * 2 ^ m < i + 2 ^ m ↔ v * 2 ^ m < (i / 2 ^ m + 1) * 2 ^ m := by
        rw [Nat.add_mul, Nat.one_mul]
        omega
    _ ↔ v < i / 2 ^ m + 1 := Nat.mul_lt_mul_right hpos
    _ ↔ v ≤ i / 2 ^ m := Nat.lt_succ_iff

/-- A group is due by the number of its members that the scan has looked at. -/
theorem due_mod_iff (m i : Nat) :
    P.Due m (i % 2 ^ m) i ↔ P.Sparse m (i % 2 ^ m) ∧ P.visits m (i % 2 ^ m) ≤ i / 2 ^ m :=
  and_congr_right fun _ => mul_add_lt_iff m i _

theorem due_low_iff (m i : Nat) :
    P.Due (m + 1) (i % 2 ^ m) i ↔
      P.Sparse (m + 1) (i % 2 ^ m) ∧ 2 * P.visits (m + 1) (i % 2 ^ m) ≤ i / 2 ^ m + 1 := by
  refine and_congr_right fun _ => ?_
  have hshift := mul_add_lt_iff m (i + 2 ^ m) (2 * P.visits (m + 1) (i % 2 ^ m))
  rw [Nat.add_mod_right, Nat.add_div_right _ (Nat.two_pow_pos m)] at hshift
  have hmul : P.visits (m + 1) (i % 2 ^ m) * 2 ^ (m + 1) =
      2 * P.visits (m + 1) (i % 2 ^ m) * 2 ^ m := by ring
  rw [hmul, ← Nat.succ_eq_add_one (i / 2 ^ m), ← hshift, pow_succ]
  omega

theorem due_high_iff (m i : Nat) :
    P.Due (m + 1) (i % 2 ^ m + 2 ^ m) i ↔ P.Sparse (m + 1) (i % 2 ^ m + 2 ^ m) ∧
      2 * P.visits (m + 1) (i % 2 ^ m + 2 ^ m) ≤ i / 2 ^ m := by
  refine and_congr_right fun _ => ?_
  have hmul : P.visits (m + 1) (i % 2 ^ m + 2 ^ m) * 2 ^ (m + 1) =
      2 * P.visits (m + 1) (i % 2 ^ m + 2 ^ m) * 2 ^ m := by ring
  rw [hmul, ← mul_add_lt_iff, pow_succ]
  omega

/-- The halves of a group that is one turn away from being a cell are cells. -/
theorem half_visits (hlt : m < P.depth p) {q : Nat} (hvisits : P.visits m p = q + 1) :
    2 * P.visits (m + 1) p ≤ q + 1 ∧ 2 * P.visits (m + 1) (p + 2 ^ m) ≤ q := by
  rw [visits_of_lt hlt] at hvisits
  split at hvisits
  · split at hvisits <;> omega
  · split at hvisits <;> omega

/-- The half that the scan looks at then is void. -/
theorem Sparse.void_half (h : P.Sparse m p) (hp : p < 2 ^ m) (hlt : m < P.depth p) {q : Nat}
    (hvisits : P.visits m p = q + 1) :
    (q % 2 = 0 → P.Void (m + 1) p) ∧ (q % 2 = 1 → P.Void (m + 1) (p + 2 ^ m)) := by
  have hor := h.void_or hlt (Agree.refl m p)
  rw [flip_of_lt hp] at hor
  rw [visits_of_lt hlt] at hvisits
  split at hvisits
  next hless =>
    split at hvisits
    next hhigh => exact ⟨fun hbit => absurd hbit (by omega), fun _ => hhigh⟩
    next hhigh => exact ⟨fun _ => hor.resolve_right hhigh, fun hbit => absurd hbit (by omega)⟩
  next hless =>
    split at hvisits
    next hlow => exact ⟨fun _ => hlow, fun hbit => absurd hbit (by omega)⟩
    next hlow => exact ⟨fun hbit => absurd hbit (by omega), fun _ => hor.resolve_left hlow⟩

/-- A group whose halves are cells is joined when the scan next looks at a void half. -/
theorem visits_le_of_void (hlt : m < P.depth p) {q : Nat} (hlow : 2 * P.visits (m + 1) p ≤ q + 1)
    (hhigh : 2 * P.visits (m + 1) (p + 2 ^ m) ≤ q)
    (hvoid : (q % 2 = 0 ∧ P.Void (m + 1) p) ∨ (q % 2 = 1 ∧ P.Void (m + 1) (p + 2 ^ m))) :
    P.visits m p ≤ q + 1 := by
  rw [visits_of_lt hlt]
  rcases hvoid with ⟨hbit, hvoid⟩ | ⟨hbit, hvoid⟩
  · rw [if_pos hvoid]
    split
    · split <;> omega
    · omega
  · rw [if_pos hvoid]
    split
    · omega
    · split <;> omega

/-- The scan joins two cells in the turn that the schedule says. -/
theorem Scanned.joinable_iff (h : Scanned P Q i) (hm : 0 < m) :
    Q.Joinable i ∧ Q.depth i = m + 1 ↔
      P.Sparse m (i % 2 ^ m) ∧ P.visits m (i % 2 ^ m) = i / 2 ^ m + 1 := by
  have hp : i % 2 ^ m < 2 ^ m := Nat.mod_lt _ (Nat.two_pow_pos m)
  have hlow : i % 2 ^ m < 2 ^ (m + 1) := lt_trans hp (Nat.pow_lt_pow_succ (by decide))
  have hhigh : i % 2 ^ m + 2 ^ m < 2 ^ (m + 1) := by
    rw [pow_succ]
    omega
  have hself := h.depth_le_iff m (i % 2 ^ m) hm hp
  have hlowDue := h.depth_le_iff (m + 1) (i % 2 ^ m) (Nat.succ_pos m) hlow
  have hhighDue := h.depth_le_iff (m + 1) (i % 2 ^ m + 2 ^ m) (Nat.succ_pos m) hhigh
  rw [due_mod_iff] at hself
  rw [due_low_iff] at hlowDue
  rw [due_high_iff] at hhighDue
  have hagree : Agree m (i % 2 ^ m) i := agree_mod (le_refl m) i
  constructor
  · rintro ⟨hjoin, hdepth⟩
    -- the two halves have one depth, and one of them is empty
    obtain ⟨-, hempty, himage⟩ := (LowBits.Partition.joinable_iff hdepth).mp hjoin
    have hvoid : P.Void (m + 1) i := by
      rw [← hdepth]
      exact (h.empty_iff i).mp hempty
    have hcells : Q.depth (i % 2 ^ m) = m + 1 ∧ Q.depth (i % 2 ^ m + 2 ^ m) = m + 1 ∧
        P.Sparse (m + 1) (flip m i) ∧
        ((i / 2 ^ m % 2 = 0 ∧ P.Void (m + 1) (i % 2 ^ m)) ∨
          (i / 2 ^ m % 2 = 1 ∧ P.Void (m + 1) (i % 2 ^ m + 2 ^ m))) := by
      rcases half_cases m i with ⟨hbit, hown, hflip⟩ | ⟨hbit, hown, hflip⟩
      · rw [hflip] at himage ⊢
        have hcell := (depth_eq_of_agree (le_of_eq hdepth) hown).trans hdepth
        exact ⟨hcell, himage, (hhighDue.mp (le_of_eq himage)).1,
          Or.inl ⟨hbit, hvoid.congr hown⟩⟩
      · rw [hflip] at himage ⊢
        have hcell := (depth_eq_of_agree (le_of_eq hdepth) hown).trans hdepth
        exact ⟨himage, hcell, (hlowDue.mp (le_of_eq himage)).1,
          Or.inr ⟨hbit, hvoid.congr hown⟩⟩
    obtain ⟨hlowCell, hhighCell, hother, hhalf⟩ := hcells
    have hsparse : P.Sparse m (i % 2 ^ m) := sparse_of_void hvoid hother hagree.symm
    -- had the parent been due before, the halves would be one cell by now
    have hlater : i / 2 ^ m < P.visits m (i % 2 ^ m) := by
      by_contra hnot
      have hcell := hself.mpr ⟨hsparse, Nat.le_of_not_lt hnot⟩
      omega
    have hdeep : m < P.depth (i % 2 ^ m) := visits_pos_iff.mp (Nat.zero_lt_of_lt hlater)
    have hle := visits_le_of_void hdeep (hlowDue.mp (le_of_eq hlowCell)).2
      (hhighDue.mp (le_of_eq hhighCell)).2 hhalf
    exact ⟨hsparse, Nat.le_antisymm hle hlater⟩
  · rintro ⟨hsparse, hvisits⟩
    have hdeep : m < P.depth (i % 2 ^ m) := visits_pos_iff.mp (hvisits ▸ Nat.succ_pos _)
    -- the last visit of the parent finds both halves done with their own
    obtain ⟨hlowVisits, hhighVisits⟩ := half_visits hdeep hvisits
    obtain ⟨hevenVoid, hoddVoid⟩ := hsparse.void_half hp hdeep hvisits
    have hnot : ¬ Q.depth (i % 2 ^ m) ≤ m := fun hle => by
      have hless := (hself.mp hle).2
      omega
    have hlt : ∀ j, Agree m j i → m < Q.depth j := fun j hj =>
      lt_depth_of_agree (Nat.lt_of_not_le hnot) (hj.trans hagree.symm)
    have hlowCell : Q.depth (i % 2 ^ m) = m + 1 := by
      have hle := hlowDue.mpr ⟨hsparse.child (Agree.refl m _), hlowVisits⟩
      omega
    have hhighCell : Q.depth (i % 2 ^ m + 2 ^ m) = m + 1 := by
      have hshift : Agree m (i % 2 ^ m + 2 ^ m) (i % 2 ^ m) := Nat.add_mod_right _ _
      have hle := hhighDue.mpr ⟨hsparse.child hshift, hhighVisits⟩
      have hless := hlt _ (hshift.trans hagree)
      omega
    have hcell : Q.depth i = m + 1 ∧ Q.depth (flip m i) = m + 1 ∧ P.Void (m + 1) i := by
      rcases half_cases m i with ⟨hbit, hown, hflip⟩ | ⟨hbit, hown, hflip⟩
      · rw [hflip]
        have hdepth := (depth_eq_of_agree (le_of_eq hlowCell) hown.symm).trans hlowCell
        exact ⟨hdepth, hhighCell, (hevenVoid hbit).congr hown.symm⟩
      · rw [hflip]
        have hdepth := (depth_eq_of_agree (le_of_eq hhighCell) hown.symm).trans hhighCell
        exact ⟨hdepth, hlowCell, (hoddVoid hbit).congr hown.symm⟩
    obtain ⟨hdepth, himage, hvoid⟩ := hcell
    refine ⟨(LowBits.Partition.joinable_iff hdepth).mpr ⟨hm, ?_, himage⟩, hdepth⟩
    rw [h.empty_iff, hdepth]
    exact hvoid

theorem due_succ_iff (m p n : Nat) : P.Due m p (n + 1) ↔
    P.Due m p n ∨ P.Sparse m p ∧ p + P.visits m p * 2 ^ m = n + 2 ^ m := by
  unfold Due
  rw [← and_or_left]
  exact and_congr_right fun _ => by omega

/-- The turn of the schedule is the one in which the scan looks at the group. -/
theorem add_mul_eq_iff (hp : p < 2 ^ m) (n v : Nat) :
    p + v * 2 ^ m = n + 2 ^ m ↔ n % 2 ^ m = p ∧ v = n / 2 ^ m + 1 := by
  have hpos := Nat.two_pow_pos m
  have hn := Nat.mod_add_div' n (2 ^ m)
  constructor
  · intro heq
    have hmod : n % 2 ^ m = p := by
      rw [← Nat.add_mod_right n (2 ^ m), ← heq, Nat.add_mul_mod_self_right, Nat.mod_eq_of_lt hp]
    refine ⟨hmod, Nat.eq_of_mul_eq_mul_right hpos ?_⟩
    rw [Nat.add_mul, Nat.one_mul]
    omega
  · rintro ⟨rfl, rfl⟩
    rw [Nat.add_mul, Nat.one_mul]
    omega

/-- The step of the scan. -/
theorem Scanned.step (h : Scanned P Q n) : Scanned P (Q.turn n) (n + 1) := by
  constructor
  · intro m p hm hp
    rw [due_succ_iff, ← h.depth_le_iff m p hm hp, add_mul_eq_iff hp]
    have hjoin : P.Sparse m p ∧ n % 2 ^ m = p ∧ P.visits m p = n / 2 ^ m + 1 ↔
        n % 2 ^ m = p ∧ Q.Joinable n ∧ Q.depth n = m + 1 := by
      rw [h.joinable_iff hm]
      constructor
      · rintro ⟨hsparse, rfl, hvisits⟩
        exact ⟨rfl, hsparse, hvisits⟩
      · rintro ⟨rfl, hsparse, hvisits⟩
        exact ⟨hsparse, rfl, hvisits⟩
    rw [hjoin]
    by_cases hjoinable : Q.Joinable n
    · obtain ⟨l, -, hl, -, himage⟩ := hjoinable.exists_depth
      rw [(turn_of_joinable hjoinable hl p).1, hl]
      -- the turn joins the cell of n with its image, and the depth of both falls by one
      by_cases hjoined : Agree l p n
      · have hdepth := depth_of_agree hl himage hjoined
        rw [if_pos hjoined, hdepth]
        constructor
        · intro hle
          rcases Nat.lt_or_eq_of_le hle with hless | rfl
          · exact Or.inl hless
          · refine Or.inr ⟨?_, hjoinable, rfl⟩
            rw [← Nat.mod_eq_of_lt hp]
            exact hjoined.symm
        · rintro (hle | ⟨-, -, heq⟩)
          · omega
          · omega
      · rw [if_neg hjoined]
        refine ⟨Or.inl, ?_⟩
        rintro (hle | ⟨hmod, -, heq⟩)
        · exact hle
        · obtain rfl : l = m := by omega
          refine absurd ?_ hjoined
          rw [← hmod]
          exact agree_mod (le_refl l) n
    · rw [turn_of_not hjoinable]
      simp [hjoinable]
  · intro i
    by_cases hjoinable : Q.Joinable n
    · obtain ⟨l, -, hl, hempty, himage⟩ := hjoinable.exists_depth
      rw [(turn_of_joinable hjoinable hl i).1, (turn_of_joinable hjoinable hl i).2]
      by_cases hjoined : Agree l i n
      · rw [if_pos hjoined, if_pos hjoined, h.empty_iff, himage]
        -- the half of n is empty, so that the joined cell is as empty as its image
        have hown : P.Void (l + 1) n := by
          rw [← hl]
          exact (h.empty_iff n).mp hempty
        constructor
        · intro hother j hj
          rcases agree_iff_succ.mp (hj.trans hjoined) with hfirst | hsecond
          · exact hown j hfirst
          · exact hother j hsecond
        · exact fun hall j hj => hall j
            (((hj.mono (Nat.le_succ l)).trans (agree_flip l n)).trans hjoined.symm)
      · rw [if_neg hjoined, if_neg hjoined]
        exact h.empty_iff i
    · rw [turn_of_not hjoinable]
      exact h.empty_iff i

/-- The scan follows the schedule. -/
theorem scanned_afterTurns (P : Partition) (n : Nat) : Scanned P (P.afterTurns n) n := by
  induction n with
  | zero => exact scanned_zero P
  | succ n ih =>
      rw [afterTurns_succ]
      exact ih.step

/-! ## The end of the scan -/

/-- A sparse group is one cell once nothing can be joined in it. -/
theorem Scanned.due_of_forall (h : Scanned P Q n) (hnone : ∀ i, ¬ Q.Joinable i) (levels : Nat)
    (hm : 0 < m) (hp : p < 2 ^ m) (hlevels : P.height ≤ m + levels) (hsparse : P.Sparse m p) :
    P.Due m p n := by
  induction levels generalizing m p with
  | zero => exact due_of_depth_le hp (le_trans (P.depth_le p) hlevels) n
  | succ levels ih =>
      have hlow : p < 2 ^ (m + 1) := lt_trans hp (Nat.pow_lt_pow_succ (by decide))
      have hhigh : p + 2 ^ m < 2 ^ (m + 1) := by
        rw [pow_succ]
        omega
      have hshift : Agree m (p + 2 ^ m) p := Nat.add_mod_right _ _
      have hlowDue := ih (Nat.succ_pos m) hlow (by omega) (hsparse.child (Agree.refl m p))
      have hhighDue := ih (Nat.succ_pos m) hhigh (by omega) (hsparse.child hshift)
      have hlowLe := (h.depth_le_iff (m + 1) p (Nat.succ_pos m) hlow).mpr hlowDue
      have hhighLe := (h.depth_le_iff (m + 1) _ (Nat.succ_pos m) hhigh).mpr hhighDue
      by_contra hnot
      have hnotCell : ¬ Q.depth p ≤ m := fun hle => hnot ((h.depth_le_iff m p hm hp).mp hle)
      have hdeep : m < P.depth p := by
        by_contra hcell
        exact hnot (due_of_depth_le hp (Nat.le_of_not_lt hcell) n)
      have hlowCell : Q.depth p = m + 1 := by omega
      have hhighCell : Q.depth (p + 2 ^ m) = m + 1 := by
        have hless := lt_depth_of_agree (Nat.lt_of_not_le hnotCell) hshift
        omega
      rcases hsparse.void_or hdeep (Agree.refl m p) with hvoid | hvoid
      · refine hnone p ((LowBits.Partition.joinable_iff hlowCell).mpr ⟨hm, ?_, ?_⟩)
        · rw [h.empty_iff, hlowCell]
          exact hvoid
        · rw [flip_of_lt hp]
          exact hhighCell
      · rw [flip_of_lt hp] at hvoid
        refine hnone (p + 2 ^ m) ((LowBits.Partition.joinable_iff hhighCell).mpr ⟨hm, ?_, ?_⟩)
        · rw [h.empty_iff, hhighCell]
          exact hvoid
        · rw [flip_add hp]
          exact hlowCell

/-- Nothing can be joined exactly if every sparse group has been. -/
theorem Scanned.forall_not_joinable_iff (h : Scanned P Q n) : (∀ i, ¬ Q.Joinable i) ↔
    ∀ m p, 0 < m → p < 2 ^ m → P.Sparse m p → P.Due m p n := by
  constructor
  · intro hnone m p hm hp hsparse
    exact h.due_of_forall hnone P.height hm hp (Nat.le_add_left _ _) hsparse
  · intro hall i hjoin
    obtain ⟨l, hl, hdepth, hempty, himage⟩ := hjoin.exists_depth
    have hvoid : P.Void (l + 1) i := by
      rw [← hdepth]
      exact (h.empty_iff i).mp hempty
    have hother := (h.depth_le_iff (l + 1) (flip l i) (Nat.succ_pos l) (flip_lt l i)).mp
      (le_of_eq himage)
    have hagree : Agree l (i % 2 ^ l) i := agree_mod (le_refl l) i
    have hp : i % 2 ^ l < 2 ^ l := Nat.mod_lt _ (Nat.two_pow_pos l)
    have hdue := hall l _ hl hp (sparse_of_void hvoid hother.1 hagree.symm)
    have hle := (h.depth_le_iff l _ hl hp).mpr hdue
    have hsame := depth_eq_of_agree hle hagree.symm
    omega

/-- The scan goes on at `n`: some cell is that deep. -/
def Running (P : Partition) (n : Nat) : Prop := ∃ i, n < 2 ^ (P.afterTurns n).depth i

/-- The scan makes `n` turns. -/
def EndsAfter (P : Partition) (n : Nat) : Prop := (∀ k, k < n → P.Running k) ∧ ¬ P.Running n

theorem turnOf_add (hdeep : m < P.depth p) :
    P.turnOf m p + 2 ^ m = p + P.visits m p * 2 ^ m := by
  obtain ⟨v, hv⟩ : ∃ v, P.visits m p = v + 1 :=
    Nat.exists_eq_succ_of_ne_zero (visits_pos_iff.mpr hdeep).ne'
  unfold turnOf
  rw [hv, Nat.add_sub_cancel, Nat.add_mul, Nat.one_mul, Nat.add_assoc]

theorem due_iff_turnOf (hdeep : m < P.depth p) : P.Due m p n ↔ P.Sparse m p ∧ P.turnOf m p < n := by
  refine and_congr_right fun _ => ?_
  rw [← turnOf_add hdeep]
  exact Nat.add_lt_add_iff_right

/-- Whether the scan goes on at `n` can be told from the partition that it starts with. -/
theorem running_iff (P : Partition) (n : Nat) : P.Running n ↔
    ∃ m p, p < 2 ^ m ∧ m < P.depth p ∧ n < 2 ^ (m + 1) ∧
      (m = 0 ∨ ¬ P.Sparse m p ∨ n ≤ P.turnOf m p) := by
  have h := scanned_afterTurns P n
  constructor
  · rintro ⟨i, hi⟩
    obtain ⟨m, hm⟩ : ∃ m, (P.afterTurns n).depth i = m + 1 :=
      Nat.exists_eq_succ_of_ne_zero ((P.afterTurns n).depth_pos i).ne'
    have hp : i % 2 ^ m < 2 ^ m := Nat.mod_lt _ (Nat.two_pow_pos m)
    have hless : m < (P.afterTurns n).depth (i % 2 ^ m) :=
      lt_depth_of_agree (hm ▸ Nat.lt_succ_self m) (agree_mod (le_refl m) i)
    have hdeep : m < P.depth (i % 2 ^ m) :=
      lt_of_lt_of_le hless (depth_afterTurns_le P _ (Nat.zero_le n))
    refine ⟨m, i % 2 ^ m, hp, hdeep, hm ▸ hi, ?_⟩
    rcases Nat.eq_zero_or_pos m with hzero | hpos
    · exact Or.inl hzero
    · have hnot : ¬ P.Due m (i % 2 ^ m) n := by
        rw [← h.depth_le_iff m _ hpos hp]
        exact Nat.not_le.mpr hless
      rw [due_iff_turnOf hdeep, not_and_or, Nat.not_lt] at hnot
      exact Or.inr hnot
  · rintro ⟨m, p, hp, hdeep, hn, hlate⟩
    refine ⟨p, lt_of_lt_of_le hn (Nat.pow_le_pow_right (by decide) ?_)⟩
    rcases Nat.eq_zero_or_pos m with hzero | hpos
    · rw [hzero]
      exact (P.afterTurns n).depth_pos p
    · have hnot : ¬ P.Due m p n := by
        rw [due_iff_turnOf hdeep, not_and_or, Nat.not_lt]
        exact hlate.resolve_left hpos.ne'
      rw [← h.depth_le_iff m p hpos hp] at hnot
      exact Nat.lt_of_not_le hnot

/-- The scan is still going on in the turn of every sparse group. -/
def Timely (P : Partition) : Prop :=
  ∀ m p, 0 < m → p < 2 ^ m → m < P.depth p → P.Sparse m p →
    ∃ m' p', p' < 2 ^ m' ∧ m' < P.depth p' ∧ P.turnOf m p < 2 ^ (m' + 1) ∧
      (m' = 0 ∨ ¬ P.Sparse m' p' ∨ P.turnOf m p ≤ P.turnOf m' p')

theorem EndsAfter.lt_iff_running (h : P.EndsAfter n) (k : Nat) : k < n ↔ P.Running k := by
  constructor
  · exact h.1 k
  · rintro ⟨i, hi⟩
    by_contra hnot
    refine h.2 ⟨i, lt_of_le_of_lt (Nat.le_of_not_lt hnot) (lt_of_lt_of_le hi ?_)⟩
    exact Nat.pow_le_pow_right (by decide) (depth_afterTurns_le P i (Nat.le_of_not_lt hnot))

/-- The scan leaves nothing that can be joined exactly if it is timely. -/
theorem EndsAfter.forall_not_joinable_iff (h : P.EndsAfter n) :
    (∀ i, ¬ (P.afterTurns n).Joinable i) ↔ P.Timely := by
  rw [(scanned_afterTurns P n).forall_not_joinable_iff]
  unfold Timely
  constructor
  · intro hall m p hm hp hdeep hsparse
    have hdue := ((due_iff_turnOf hdeep).mp (hall m p hm hp hsparse)).2
    rwa [h.lt_iff_running, running_iff] at hdue
  · intro htimely m p hm hp hsparse
    by_cases hdeep : m < P.depth p
    · rw [due_iff_turnOf hdeep, h.lt_iff_running, running_iff]
      exact ⟨hsparse, htimely m p hm hp hdeep hsparse⟩
    · exact due_of_depth_le hp (Nat.le_of_not_lt hdeep) n

end Partition

end LowBits
