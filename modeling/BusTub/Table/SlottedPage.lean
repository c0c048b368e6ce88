import BusTub.Library.Machine
import BusTub.Table.PageOperations
import Mathlib.Algebra.BigOperators.Group.Finset.Basic
import Mathlib.Order.Interval.Finset.Nat

/-! # Table pages refine lists of slots

Calls on a page, one after the other from `Init` on. The bytes of the page follow a
list of slots: every call returns what it returns on the slots, and the tuples tile
the page from the free space pointer to its end.
-/

namespace BusTub

/-- A call on a table page. -/
inductive PageCall where
  | insertTuple (tuple : Tuple)
  | markDelete (slotNum : Nat)
  | updateTuple (newTuple : Tuple) (slotNum : Nat)
  | applyDelete (slotNum : Nat)
  | rollbackDelete (slotNum : Nat)
  deriving DecidableEq, Repr

/-- What a call on a table page returns. -/
inductive PageResult where
  | void
  | rejected
  | marked
  | inserted (slotNum : Nat)
  | updated (oldTuple : Tuple)
  deriving DecidableEq, Repr

/-- The slot that a call is about. -/
def PageCall.slot? : PageCall → PageResult → Option Nat
  | .insertTuple _, .inserted slotNum => some slotNum
  | .insertTuple _, _ => none
  | .markDelete slotNum, _ => some slotNum
  | .updateTuple _ slotNum, _ => some slotNum
  | .applyDelete slotNum, _ => some slotNum
  | .rollbackDelete slotNum, _ => some slotNum

namespace TablePage

/-- A call on the bytes of a page. -/
def call (p : Memory) : PageCall → Except HeapFault (PageResult × Memory)
  | .insertTuple tuple =>
      match insertTuple p tuple with
      | .error fault => .error fault
      | .ok none => .ok (.rejected, p)
      | .ok (some (rid, p)) => .ok (.inserted rid.slotNum, p)
  | .markDelete slotNum =>
      match markDelete p ⟨getTablePageId p, slotNum⟩ with
      | (true, p) => .ok (.marked, p)
      | (false, p) => .ok (.rejected, p)
  | .updateTuple newTuple slotNum =>
      match updateTuple p newTuple ⟨getTablePageId p, slotNum⟩ with
      | .error fault => .error fault
      | .ok none => .ok (.rejected, p)
      | .ok (some (oldTuple, p)) => .ok (.updated oldTuple, p)
  | .applyDelete slotNum =>
      match applyDelete p ⟨getTablePageId p, slotNum⟩ with
      | .error fault => .error fault
      | .ok p => .ok (.void, p)
  | .rollbackDelete slotNum =>
      match rollbackDelete p ⟨getTablePageId p, slotNum⟩ with
      | .error fault => .error fault
      | .ok p => .ok (.void, p)

/-- Calls on a page. -/
def machine : Machine Memory PageCall PageResult HeapFault where
  step := call

end TablePage

namespace Slots

/-- A call on slots. -/
def call (slots : List Slot) : PageCall → Except HeapFault (PageResult × List Slot)
  | .insertTuple tuple =>
      if tuple = [] then .error .emptyTuple
      else
        match insert slots tuple with
        | none => .ok (.rejected, slots)
        | some (slotNum, slots) => .ok (.inserted slotNum, slots)
  | .markDelete slotNum =>
      match markDelete slots slotNum with
      | (true, slots) => .ok (.marked, slots)
      | (false, slots) => .ok (.rejected, slots)
  | .updateTuple newTuple slotNum =>
      if newTuple = [] then .error .emptyTuple
      else
        match update slots slotNum newTuple with
        | none => .ok (.rejected, slots)
        | some (oldTuple, slots) => .ok (.updated oldTuple, slots)
  | .applyDelete slotNum =>
      match applyDelete slots slotNum with
      | .error fault => .error fault
      | .ok slots => .ok (.void, slots)
  | .rollbackDelete slotNum =>
      match rollbackDelete slots slotNum with
      | .error fault => .error fault
      | .ok slots => .ok (.void, slots)

/-- Calls on slots. -/
def machine : Machine (List Slot) PageCall PageResult HeapFault where
  step := call

/-- The calls that the assertions of a page do not rule out. -/
def Allowed (slots : List Slot) : PageCall → Prop
  | .insertTuple tuple => tuple ≠ []
  | .markDelete _ => True
  | .updateTuple newTuple _ => newTuple ≠ []
  | .applyDelete slotNum => ∃ deleted data, slots[slotNum]? = some (.full deleted data)
  | .rollbackDelete slotNum => slotNum < slots.length

variable {slots slots' : List Slot} {i j : Nat}

/-- Growing and writing slot `i` leaves the others as they are. -/
theorem getElem?_grow_set_of_ne (slots : List Slot) (new : Slot) (hne : j ≠ i) :
    ((grow slots i).set i new)[j]? = slots[j]? := by
  rw [List.getElem?_set_ne (Ne.symm hne)]
  unfold grow
  split
  next hend =>
    by_cases hlt : j < slots.length
    · exact List.getElem?_append_left hlt
    · rw [List.getElem?_eq_none (by simp; omega), List.getElem?_eq_none (by omega)]
  next => rfl

/-- A call leaves every slot as it is but the one it is about. -/
theorem call_frame {request : PageCall} {result : PageResult}
    (hcall : call slots request = .ok (result, slots')) (hother : request.slot? result ≠ some j) :
    slots'[j]? = slots[j]? := by
  cases request with
  | insertTuple tuple =>
      simp only [call] at hcall
      split at hcall
      · cases hcall
      · cases hinsert : insert slots tuple with
        | none =>
            rw [hinsert] at hcall
            cases hcall
            rfl
        | some placed =>
            obtain ⟨i, new⟩ := placed
            rw [hinsert] at hcall
            cases hcall
            -- the insert names the slot it takes, which is not this one
            obtain ⟨-, -, rfl⟩ := insert_eq_some_iff.mp hinsert
            exact getElem?_grow_set_of_ne _ _ fun heq => hother (by rw [heq]; rfl)
  | markDelete slotNum =>
      have hne : slotNum ≠ j := fun heq => hother (by rw [heq]; rfl)
      simp only [call] at hcall
      by_cases hlive : ∃ data, slots[slotNum]? = some (.full false data)
      · obtain ⟨data, hslot⟩ := hlive
        rw [markDelete_of_live hslot] at hcall
        cases hcall
        exact List.getElem?_set_ne hne
      · rw [markDelete_of_not_live (fun data heq => hlive ⟨data, heq⟩)] at hcall
        cases hcall
        rfl
  | updateTuple newTuple slotNum =>
      have hne : slotNum ≠ j := fun heq => hother (by rw [heq]; rfl)
      simp only [call] at hcall
      split at hcall
      · cases hcall
      · cases hupdate : update slots slotNum newTuple with
        | none =>
            rw [hupdate] at hcall
            cases hcall
            rfl
        | some replaced =>
            obtain ⟨old, new⟩ := replaced
            rw [hupdate] at hcall
            cases hcall
            obtain ⟨-, -, rfl⟩ := update_eq_some_iff.mp hupdate
            exact List.getElem?_set_ne hne
  | applyDelete slotNum =>
      have hne : slotNum ≠ j := fun heq => hother (by rw [heq]; rfl)
      simp only [call, applyDelete] at hcall
      split at hcall
      · cases hcall
      next hok =>
        cases hcall
        split at hok
        · cases hok
        · cases hok
        · cases hok
          exact List.getElem?_set_ne hne
  | rollbackDelete slotNum =>
      have hne : slotNum ≠ j := fun heq => hother (by rw [heq]; rfl)
      simp only [call, rollbackDelete] at hcall
      split at hcall
      · cases hcall
      next hok =>
        cases hcall
        split at hok
        · cases hok
        · cases hok
          exact List.getElem?_set_ne hne
        · cases hok
          rfl

end Slots

namespace TablePage

variable {p : Memory} {slots : List Slot}

/-- The page as a partial map from slots to tuples with a deleted flag. -/
structure Slotted (p : Memory) (slots : List Slot) : Prop where
  count : getTupleCount p = slots.length
  /-- A slot without a tuple has size `0`, and the size of another one has the flag. -/
  sizes : ∀ i s, slots[i]? = some s → getTupleSize p i = sizeWord s
  bytes : ∀ i deleted data, slots[i]? = some (.full deleted data) →
    0 < data.length ∧ p.read (getTupleOffsetAtSlot p i) data.length = data
  disjoint : ∀ i j deleted deleted' data data', slots[i]? = some (.full deleted data) →
    slots[j]? = some (.full deleted' data') → i ≠ j →
    getTupleOffsetAtSlot p i + data.length ≤ getTupleOffsetAtSlot p j ∨
      getTupleOffsetAtSlot p j + data'.length ≤ getTupleOffsetAtSlot p i
  /-- The tuples tile the page from the free space pointer on. -/
  tile : ∀ addr, getFreeSpacePointer p ≤ addr ∧ addr < pageSize ↔
    ∃ i deleted data, slots[i]? = some (.full deleted data) ∧
      getTupleOffsetAtSlot p i ≤ addr ∧ addr < getTupleOffsetAtSlot p i + data.length
  top : getFreeSpacePointer p ≤ pageSize
  /-- The slot array ends before the free space pointer. -/
  room : offsetTupleOffset + sizeTuple * getTupleCount p ≤ getFreeSpacePointer p
  getTuple : ∀ rid, getTuple p rid = Slots.getTuple slots rid.slotNum

/-- The addresses of the tuple in slot `i`. -/
def tupleRange (p : Memory) (slots : List Slot) (i : Nat) : Finset Nat :=
  match slots[i]? with
  | some (.full _ data) =>
      Finset.Ico (getTupleOffsetAtSlot p i) (getTupleOffsetAtSlot p i + data.length)
  | _ => ∅

theorem mem_tupleRange {i addr : Nat} : addr ∈ tupleRange p slots i ↔
    ∃ deleted data, slots[i]? = some (.full deleted data) ∧
      getTupleOffsetAtSlot p i ≤ addr ∧ addr < getTupleOffsetAtSlot p i + data.length := by
  unfold tupleRange
  constructor
  · intro hmem
    split at hmem
    next deleted data hslot => exact ⟨deleted, data, hslot, Finset.mem_Ico.mp hmem⟩
    next => cases hmem
  · rintro ⟨deleted, data, hslot, hrange⟩
    rw [hslot]
    exact Finset.mem_Ico.mpr hrange

theorem card_tupleRange (i : Nat) :
    (tupleRange p slots i).card = (slots[i]?.map Slot.size).getD 0 := by
  unfold tupleRange
  cases hslot : slots[i]? with
  | none => rfl
  | some s =>
      cases s with
      | empty => rfl
      | full deleted data => exact (Nat.card_Ico _ _).trans (Nat.add_sub_cancel_left _ _)

theorem sum_size_eq_total (slots : List Slot) :
    ∑ i ∈ Finset.range slots.length, (slots[i]?.map Slot.size).getD 0 = Slots.total slots := by
  induction slots with
  | nil => rfl
  | cons head rest ih =>
      rw [List.length_cons, Finset.sum_range_succ', Slots.total_cons, ← ih, Nat.add_comm]
      rfl

/-- As many addresses hold tuples as lie above the free space pointer. -/
theorem Represents.card_biUnion (h : Represents p slots) :
    ((Finset.range slots.length).biUnion (tupleRange p slots)).card = Slots.total slots := by
  rw [Finset.card_biUnion]
  · simp only [card_tupleRange, sum_size_eq_total]
  · intro i _ j _ hne
    rw [Function.onFun, Finset.disjoint_left]
    intro addr hi hj
    obtain ⟨deleted, data, hslot, hlow, hhigh⟩ := mem_tupleRange.mp hi
    obtain ⟨deleted', data', hslot', hlow', hhigh'⟩ := mem_tupleRange.mp hj
    rcases h.disjoint i j _ _ _ _ hslot hslot' hne with hbefore | hafter <;> omega

theorem Represents.slotted (h : Represents p slots) : Slotted p slots where
  count := h.count
  sizes := h.sizes
  bytes i deleted data hslot := ⟨h.data_pos hslot, (h.slotAt i _ hslot).2.2.2⟩
  disjoint := h.disjoint
  tile := by
    have hsubset : (Finset.range slots.length).biUnion (tupleRange p slots) ⊆
        Finset.Ico (getFreeSpacePointer p) pageSize := by
      intro addr hmem
      obtain ⟨i, -, hrange⟩ := Finset.mem_biUnion.mp hmem
      obtain ⟨deleted, data, hslot, hlow, hhigh⟩ := mem_tupleRange.mp hrange
      obtain ⟨-, hfrom, hto, -⟩ := h.slotAt i _ hslot
      exact Finset.mem_Ico.mpr ⟨by omega, by omega⟩
    have hfree := h.free
    have hcard : (Finset.Ico (getFreeSpacePointer p) pageSize).card ≤
        ((Finset.range slots.length).biUnion (tupleRange p slots)).card := by
      rw [h.card_biUnion, Nat.card_Ico]
      omega
    intro addr
    rw [← Finset.mem_Ico, ← Finset.eq_of_subset_of_card_le hsubset hcard, Finset.mem_biUnion]
    constructor
    · rintro ⟨i, -, hrange⟩
      obtain ⟨deleted, data, hslot, hbounds⟩ := mem_tupleRange.mp hrange
      exact ⟨i, deleted, data, hslot, hbounds⟩
    · rintro ⟨i, deleted, data, hslot, hbounds⟩
      have hlt := (List.getElem?_eq_some_iff.mp hslot).1
      exact ⟨i, Finset.mem_range.mpr hlt, mem_tupleRange.mpr ⟨deleted, data, hslot, hbounds⟩⟩
  top := by
    have hfree := h.free
    omega
  room := by
    rw [h.count]
    exact h.room
  getTuple := h.getTuple_eq

/-- Bytes and slots fail together on a call, or go on together. -/
def CallsAgree (p : Memory) (slots : List Slot) (request : PageCall) : Prop :=
  (¬ Slots.Allowed slots request ∧
    ∃ fault, machine.step p request = .error fault ∧
      Slots.machine.step slots request = .error fault) ∨
  ∃ result p' slots', machine.step p request = .ok (result, p') ∧
    Slots.machine.step slots request = .ok (result, slots') ∧ Represents p' slots'

theorem Represents.call_insertTuple (h : Represents p slots) (tuple : Tuple) :
    CallsAgree p slots (.insertTuple tuple) := by
  unfold CallsAgree machine Slots.machine call Slots.call
  dsimp only
  by_cases hempty : tuple = []
  · subst hempty
    exact Or.inl ⟨not_not.mpr rfl, .emptyTuple, rfl, rfl⟩
  · have hpos := List.length_pos_iff.mpr hempty
    rw [if_neg hempty]
    right
    cases hinsert : Slots.insert slots tuple with
    | none =>
        rw [h.insertTuple_of_none hpos hinsert]
        exact ⟨_, _, _, rfl, rfl, h⟩
    | some placed =>
        obtain ⟨i, slots'⟩ := placed
        obtain ⟨p', hpage, hfinal, -⟩ := h.insertTuple_of_some hpos hinsert
        rw [hpage]
        exact ⟨_, _, _, rfl, rfl, hfinal⟩

theorem Represents.call_markDelete (h : Represents p slots) (slotNum : Nat) :
    CallsAgree p slots (.markDelete slotNum) := by
  obtain ⟨hresult, hfinal, -⟩ := h.markDelete_spec ⟨getTablePageId p, slotNum⟩
  unfold CallsAgree machine Slots.machine call Slots.call
  dsimp only at hresult hfinal ⊢
  right
  cases hpage : markDelete p ⟨getTablePageId p, slotNum⟩ with
  | mk marked p' =>
      cases hslots : Slots.markDelete slots slotNum with
      | mk marked' slots' =>
          rw [hpage, hslots] at hresult hfinal
          dsimp only at hresult hfinal
          subst hresult
          cases marked with
          | true => exact ⟨_, _, _, rfl, rfl, hfinal⟩
          | false => exact ⟨_, _, _, rfl, rfl, hfinal⟩

theorem Represents.call_updateTuple (h : Represents p slots) (newTuple : Tuple) (slotNum : Nat) :
    CallsAgree p slots (.updateTuple newTuple slotNum) := by
  unfold CallsAgree machine Slots.machine call Slots.call
  dsimp only
  by_cases hempty : newTuple = []
  · subst hempty
    exact Or.inl ⟨not_not.mpr rfl, .emptyTuple, rfl, rfl⟩
  · have hpos := List.length_pos_iff.mpr hempty
    rw [if_neg hempty]
    right
    cases hupdate : Slots.update slots slotNum newTuple with
    | none =>
        rw [h.updateTuple_of_none hpos hupdate]
        exact ⟨_, _, _, rfl, rfl, h⟩
    | some replaced =>
        obtain ⟨old, slots'⟩ := replaced
        obtain ⟨p', hpage, hfinal, -⟩ : ∃ p', updateTuple p newTuple ⟨getTablePageId p, slotNum⟩ =
            .ok (some (old, p')) ∧ Represents p' slots' ∧ SameLinks p p' :=
          h.updateTuple_of_some hpos hupdate
        rw [hpage]
        exact ⟨_, _, _, rfl, rfl, hfinal⟩

theorem Represents.call_applyDelete (h : Represents p slots) (slotNum : Nat) :
    CallsAgree p slots (.applyDelete slotNum) := by
  unfold CallsAgree machine Slots.machine call Slots.call
  dsimp only
  cases hslots : Slots.applyDelete slots slotNum with
  | error fault =>
      have hpage : applyDelete p ⟨getTablePageId p, slotNum⟩ = .error fault :=
        h.applyDelete_of_error hslots
      rw [hpage]
      refine Or.inl ⟨?_, fault, rfl, rfl⟩
      rintro ⟨deleted, data, hslot⟩
      unfold Slots.applyDelete at hslots
      rw [hslot] at hslots
      cases hslots
  | ok slots' =>
      obtain ⟨p', hpage, hfinal, -⟩ : ∃ p', applyDelete p ⟨getTablePageId p, slotNum⟩ = .ok p' ∧
          Represents p' slots' ∧ SameLinks p p' := h.applyDelete_of_ok hslots
      rw [hpage]
      exact Or.inr ⟨_, _, _, rfl, rfl, hfinal⟩

theorem Represents.call_rollbackDelete (h : Represents p slots) (slotNum : Nat) :
    CallsAgree p slots (.rollbackDelete slotNum) := by
  unfold CallsAgree machine Slots.machine call Slots.call
  dsimp only
  cases hslots : Slots.rollbackDelete slots slotNum with
  | error fault =>
      have hpage : rollbackDelete p ⟨getTablePageId p, slotNum⟩ = .error fault :=
        h.rollbackDelete_of_error hslots
      rw [hpage]
      refine Or.inl ⟨fun hlt => ?_, fault, rfl, rfl⟩
      unfold Slots.Allowed at hlt
      unfold Slots.rollbackDelete at hslots
      split at hslots
      next hnone => exact absurd (List.getElem?_eq_none_iff.mp hnone) (by omega)
      · cases hslots
      · cases hslots
  | ok slots' =>
      obtain ⟨p', hpage, hfinal, -⟩ : ∃ p', rollbackDelete p ⟨getTablePageId p, slotNum⟩ = .ok p' ∧
          Represents p' slots' ∧ SameLinks p p' := h.rollbackDelete_of_ok hslots
      rw [hpage]
      exact Or.inr ⟨_, _, _, rfl, rfl, hfinal⟩

theorem Represents.callsAgree (h : Represents p slots) (request : PageCall) :
    CallsAgree p slots request := by
  cases request with
  | insertTuple tuple => exact h.call_insertTuple tuple
  | markDelete slotNum => exact h.call_markDelete slotNum
  | updateTuple newTuple slotNum => exact h.call_updateTuple newTuple slotNum
  | applyDelete slotNum => exact h.call_applyDelete slotNum
  | rollbackDelete slotNum => exact h.call_rollbackDelete slotNum

/-- From `Init` on, a page does what its slots do: it fails only on a call that an
assertion rules out, it is a partial map from slots to tuples at any time, and the
next call changes no slot but its own. -/
theorem run_slotted (p : Memory) (pageId prevPageId : PageId) (requests : List PageCall) :
    (¬ Slots.machine.Guarded Slots.Allowed [] requests ∧
      ∃ fault, machine.run (init p pageId pageSize prevPageId) requests = .error fault ∧
        Slots.machine.run [] requests = .error fault) ∨
    ∃ results final slots,
      machine.run (init p pageId pageSize prevPageId) requests = .ok (results, final) ∧
      Slots.machine.run [] requests = .ok (results, slots) ∧ Slotted final slots ∧
      ∀ request result next, machine.step final request = .ok (result, next) →
        ∃ slots', Slots.machine.step slots request = .ok (result, slots') ∧ Slotted next slots' ∧
          ∀ j, request.slot? result ≠ some j → slots'[j]? = slots[j]? := by
  rcases Machine.run_agrees Represents (fun _ _ request h => h.callsAgree request) requests
    (represents_init p pageId prevPageId) with hstop | ⟨results, final, slots, hrun, hspec, hfinal⟩
  · exact Or.inl hstop
  · refine Or.inr ⟨results, final, slots, hrun, hspec, hfinal.slotted, ?_⟩
    intro request result next hstep
    rcases hfinal.callsAgree request with ⟨-, fault, hfault, -⟩ |
      ⟨result', next', slots', hstep', hspecStep, hnext⟩
    · rw [hstep] at hfault
      cases hfault
    · rw [hstep] at hstep'
      cases hstep'
      exact ⟨slots', hspecStep, hnext.slotted, fun j hother => Slots.call_frame hspecStep hother⟩

end TablePage

end BusTub
