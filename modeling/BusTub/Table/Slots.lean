import BusTub.Table.TablePage
import Mathlib.Data.List.Basic

/-! # Pages as lists of slots

What a table page is for: a list of slots, each of them empty or with a tuple that
may be marked as deleted. Offsets and the free space pointer are gone; what is left
of the layout is the space that the slots take.
-/

namespace BusTub

/-- A slot of a page. -/
inductive Slot where
  | empty
  | full (deleted : Bool) (data : Tuple)
  deriving DecidableEq, Repr

namespace Slot

/-- The bytes that the tuple of the slot takes. -/
def size : Slot → Nat
  | .empty => 0
  | .full _ data => data.length

/-- The tuple that a reader sees. -/
def visible? : Slot → Option Tuple
  | .full false data => some data
  | _ => none

@[simp] theorem size_empty : Slot.empty.size = 0 := rfl

@[simp] theorem size_full (deleted : Bool) (data : Tuple) : (full deleted data).size = data.length :=
  rfl

end Slot

namespace Slots

/-- The bytes that the tuples of the slots take. -/
def total (slots : List Slot) : Nat := (slots.map Slot.size).sum

/-- The bytes that header and slots take. -/
def headerSize (slots : List Slot) : Nat := 24 + 8 * slots.length

/-- What is left of the page. -/
def freeSpace (slots : List Slot) : Nat := pageSize - headerSize slots - total slots

/-- The slots with one more if `i` is none of them yet. -/
def grow (slots : List Slot) (i : Nat) : List Slot :=
  if i = slots.length then slots ++ [.empty] else slots

/-- The first empty slot, or one beyond the last. -/
def firstFree (slots : List Slot) : Nat := slots.findIdx (fun s => s = .empty)

def insert (slots : List Slot) (tuple : Tuple) : Option (Nat × List Slot) :=
  if freeSpace slots < tuple.length + 8 then none
  else some (firstFree slots, (grow slots (firstFree slots)).set (firstFree slots)
    (.full false tuple))

def markDelete (slots : List Slot) (i : Nat) : Bool × List Slot :=
  match slots[i]? with
  | some (.full false data) => (true, slots.set i (.full true data))
  | _ => (false, slots)

def update (slots : List Slot) (i : Nat) (newTuple : Tuple) : Option (Tuple × List Slot) :=
  match slots[i]? with
  | some (.full false data) =>
      if freeSpace slots + data.length < newTuple.length then none
      else some (data, slots.set i (.full false newTuple))
  | _ => none

def applyDelete (slots : List Slot) (i : Nat) : Except HeapFault (List Slot) :=
  match slots[i]? with
  | none => .error .slotBeyondCount
  | some .empty => .error .offsetBeforeFreeSpace
  | some (.full _ _) => .ok (slots.set i .empty)

def rollbackDelete (slots : List Slot) (i : Nat) : Except HeapFault (List Slot) :=
  match slots[i]? with
  | none => .error .slotBeyondCount
  | some (.full true data) => .ok (slots.set i (.full false data))
  | some _ => .ok slots

def getTuple (slots : List Slot) (i : Nat) : Option Tuple := slots[i]?.bind Slot.visible?

variable {slots : List Slot} {i j : Nat} {s old : Slot} {tuple : Tuple}

@[simp] theorem total_nil : total [] = 0 := rfl

@[simp] theorem total_cons (s : Slot) (slots : List Slot) :
    total (s :: slots) = s.size + total slots := by
  simp [total]

@[simp] theorem total_append (first second : List Slot) :
    total (first ++ second) = total first + total second := by
  simp [total]

/-- Writing one slot changes the total by the difference of the sizes. -/
theorem total_set (hold : slots[i]? = some old) (s : Slot) :
    total (slots.set i s) + old.size = total slots + s.size := by
  induction slots generalizing i with
  | nil => simp at hold
  | cons head rest ih =>
      cases i with
      | zero =>
          simp only [List.getElem?_cons_zero, Option.some.injEq] at hold
          subst hold
          simp only [List.set_cons_zero, total_cons]
          omega
      | succ i =>
          have hrest := ih (by simpa using hold)
          simp only [List.set_cons_succ, total_cons]
          omega

theorem size_le_total (hold : slots[i]? = some s) : s.size ≤ total slots := by
  have hset := total_set hold .empty
  simp only [Slot.size_empty] at hset
  omega

theorem firstFree_le (slots : List Slot) : firstFree slots ≤ slots.length :=
  List.findIdx_le_length

theorem getElem?_firstFree (hlt : firstFree slots < slots.length) :
    slots[firstFree slots]? = some .empty := by
  have hfound := List.findIdx_getElem (w := hlt)
  rw [decide_eq_true_eq] at hfound
  rw [List.getElem?_eq_getElem hlt]
  exact congrArg some hfound

/-- The slot that an insertion takes is an empty one. -/
theorem getElem?_grow_firstFree (slots : List Slot) :
    (grow slots (firstFree slots))[firstFree slots]? = some .empty := by
  unfold grow
  split
  next hend => rw [hend, List.getElem?_append_right (le_refl _), Nat.sub_self]; rfl
  next hne => exact getElem?_firstFree (lt_of_le_of_ne (firstFree_le slots) hne)

@[simp] theorem total_grow (slots : List Slot) (i : Nat) : total (grow slots i) = total slots := by
  unfold grow
  split <;> simp

theorem le_length_grow (slots : List Slot) (i : Nat) : slots.length ≤ (grow slots i).length := by
  unfold grow
  split <;> simp

/-- A slot after an insertion is the new one or an old one. -/
theorem getElem?_grow_set (hi : i ≤ slots.length) (new : Slot)
    (hslot : ((grow slots i).set i new)[j]? = some s) :
    (j = i ∧ s = new) ∨ (j ≠ i ∧ slots[j]? = some s) := by
  by_cases hji : j = i
  · subst hji
    rw [List.getElem?_set_self'] at hslot
    cases hold : (grow slots j)[j]? with
    | none =>
        rw [hold] at hslot
        cases hslot
    | some old =>
        rw [hold] at hslot
        exact Or.inl ⟨rfl, (Option.some.inj hslot).symm⟩
  · rw [List.getElem?_set_ne (Ne.symm hji)] at hslot
    refine Or.inr ⟨hji, ?_⟩
    unfold grow at hslot
    split at hslot
    next hend =>
      have hlt := (List.getElem?_eq_some_iff.mp hslot).1
      rw [List.length_append, List.length_singleton] at hlt
      rwa [List.getElem?_append_left (by omega)] at hslot
    next => exact hslot

theorem insert_eq_some_iff {slots' : List Slot} : insert slots tuple = some (i, slots') ↔
    tuple.length + 8 ≤ freeSpace slots ∧ i = firstFree slots ∧
      slots' = (grow slots i).set i (.full false tuple) := by
  unfold insert
  split
  next hfull => exact ⟨nofun, fun h => absurd h.1 (by omega)⟩
  next hroom =>
    rw [Option.some.injEq, Prod.mk.injEq]
    constructor
    · rintro ⟨rfl, rfl⟩
      exact ⟨by omega, rfl, rfl⟩
    · rintro ⟨-, rfl, rfl⟩
      exact ⟨rfl, rfl⟩

theorem insert_eq_none_iff : insert slots tuple = none ↔ freeSpace slots < tuple.length + 8 := by
  unfold insert
  split
  next hfull => exact ⟨fun _ => hfull, fun _ => rfl⟩
  next hroom => exact ⟨nofun, fun h => absurd h hroom⟩

theorem update_eq_some_iff {oldTuple : Tuple} {slots' : List Slot} :
    update slots i tuple = some (oldTuple, slots') ↔
      slots[i]? = some (.full false oldTuple) ∧
        tuple.length ≤ freeSpace slots + oldTuple.length ∧
        slots' = slots.set i (.full false tuple) := by
  unfold update
  split
  next data hslot =>
    rw [hslot, Option.some.injEq, Slot.full.injEq]
    split
    next hfull =>
      refine ⟨nofun, ?_⟩
      rintro ⟨⟨-, rfl⟩, hfit, -⟩
      exact absurd hfit (by omega)
    next hroom =>
      rw [Option.some.injEq, Prod.mk.injEq]
      constructor
      · rintro ⟨rfl, rfl⟩
        exact ⟨⟨rfl, rfl⟩, by omega, rfl⟩
      · rintro ⟨⟨-, rfl⟩, -, rfl⟩
        exact ⟨rfl, rfl⟩
  next hother => exact ⟨nofun, fun h => absurd h.1 (hother _)⟩

theorem markDelete_of_live {data : Tuple} (hslot : slots[i]? = some (.full false data)) :
    markDelete slots i = (true, slots.set i (.full true data)) := by
  unfold markDelete
  rw [hslot]

theorem markDelete_of_not_live (hslot : ∀ data, slots[i]? ≠ some (.full false data)) :
    markDelete slots i = (false, slots) := by
  unfold markDelete
  split
  next data hlive => exact absurd hlive (hslot data)
  next => rfl

end Slots

end BusTub
