import BusTub.Library.Generator

/-! # Cursors

A cursor is opened again and again. Each pass over it reads rows into a buffer of the
caller, one after the other, up to the end or to a fault; a pass may also be given up
before that. A cursor restarts when every pass gives the same rows, whatever calls were
made before it.
-/

universe u v

/-- Rows of a type are read by calls that may fail. -/
structure Cursor (ρ ε : Type u) where
  State : Type u
  /-- The state of a new cursor. -/
  start : State
  init : State → Except ε State
  /-- A call with the buffer tells whether there is a row, which the buffer has then. -/
  next : State → ρ → Except ε (Bool × ρ × State)

namespace Cursor

variable {ρ ε : Type u}

/-- Some calls in some order lead to the state. -/
inductive Reached (c : Cursor ρ ε) : c.State → Prop
  | start : Reached c c.start
  | init {state opened : c.State} (hreached : Reached c state)
      (hinit : c.init state = .ok opened) : Reached c opened
  | next {state state' : c.State} {buffer buffer' : ρ} {found : Bool}
      (hreached : Reached c state) (hnext : c.next state buffer = .ok (found, buffer', state')) :
      Reached c state'

/-- What a pass gives: a fault at once, or rows and what ends them. -/
inductive Pass (ρ ε : Type u) where
  | refused (fault : ε)
  | read (rows : List ρ) (fault : Option ε)

/-- A call and those after it read the rows, and then come to the end or to a fault,
whatever is in the buffer. -/
inductive Reads (c : Cursor ρ ε) :
    (ρ → Except ε (Bool × ρ × c.State)) → List ρ → Option ε → Prop
  | done {call : ρ → Except ε (Bool × ρ × c.State)}
      (hcall : ∀ buffer, ∃ buffer' final, call buffer = .ok (false, buffer', final)) :
      Reads c call [] none
  | failed {call : ρ → Except ε (Bool × ρ × c.State)} {fault : ε}
      (hcall : ∀ buffer, call buffer = .error fault) : Reads c call [] (some fault)
  | row {call : ρ → Except ε (Bool × ρ × c.State)} {row : ρ} {rest : List ρ} {fault : Option ε}
      {state : c.State} (hcall : ∀ buffer, call buffer = .ok (true, row, state))
      (hrest : Reads c (c.next state) rest fault) : Reads c call (row :: rest) fault

/-- Opening the cursor in the state starts the pass. -/
def Gives (c : Cursor ρ ε) (state : c.State) : Pass ρ ε → Prop
  | .refused fault => c.init state = .error fault
  | .read rows fault => ∃ opened, c.init state = .ok opened ∧ c.Reads (c.next opened) rows fault

/-- Every pass gives the same. -/
def Restarts (c : Cursor ρ ε) (pass : Pass ρ ε) : Prop :=
  ∀ state, c.Reached state → c.Gives state pass

/-- The last call found nothing. -/
def Ended (c : Cursor ρ ε) (final : c.State) : Prop :=
  ∃ state buffer buffer', c.Reached state ∧ c.next state buffer = .ok (false, buffer', final)

/-- At the end, calls find nothing until the cursor is opened again. -/
def StaysEnded (c : Cursor ρ ε) : Prop :=
  ∀ state, c.Ended state → ∀ buffer, ∃ buffer' final, c.next state buffer = .ok (false, buffer', final)

variable {c : Cursor ρ ε}

/-- A call that comes down to the other one, with whatever buffer, reads the same. -/
theorem Reads.through {call call' : ρ → Except ε (Bool × ρ × c.State)} {rows : List ρ}
    {fault : Option ε} (h : c.Reads call rows fault)
    (hsame : ∀ buffer, ∃ buffer', call' buffer = call buffer') : c.Reads call' rows fault := by
  cases h with
  | done hcall =>
      apply Reads.done
      intro buffer
      obtain ⟨buffer', heq⟩ := hsame buffer
      rw [heq]
      exact hcall buffer'
  | failed hcall =>
      apply Reads.failed
      intro buffer
      obtain ⟨buffer', heq⟩ := hsame buffer
      rw [heq, hcall buffer']
  | row hcall hrest =>
      apply Reads.row _ hrest
      intro buffer
      obtain ⟨buffer', heq⟩ := hsame buffer
      rw [heq, hcall buffer']

/-! ## Whole passes -/

/-- The loop that reads all rows, at most `fuel` turns of it. -/
def drain (c : Cursor ρ ε) (exhausted : ε) : Nat → c.State → ρ → List ρ × Option ε
  | 0, _, _ => ([], some exhausted)
  | fuel + 1, state, buffer =>
      match c.next state buffer with
      | .error fault => ([], some fault)
      | .ok (false, _, _) => ([], none)
      | .ok (true, row, state) =>
          let (rows, fault) := drain c exhausted fuel state row
          (row :: rows, fault)

/-- A pass over the cursor. -/
def pass (c : Cursor ρ ε) (exhausted : ε) (fuel : Nat) (state : c.State) (buffer : ρ) :
    List ρ × Option ε :=
  match c.init state with
  | .error fault => ([], some fault)
  | .ok opened => c.drain exhausted fuel opened buffer

namespace Pass

/-- The rows of a pass. -/
def rows : Pass ρ ε → List ρ
  | .refused _ => []
  | .read rows _ => rows

/-- The fault that a pass comes to. -/
def fault : Pass ρ ε → Option ε
  | .refused fault => some fault
  | .read _ fault => fault

/-- The pass that a change of its rows and of what ends them leads to. -/
def andThen (change : List ρ → Option ε → List ρ × Option ε) : Pass ρ ε → Pass ρ ε
  | .refused fault => .refused fault
  | .read rows fault => .read (change rows fault).1 (change rows fault).2

end Pass

theorem Reads.drain_eq {exhausted : ε} {state : c.State} {rows : List ρ} {fault : Option ε}
    (h : c.Reads (c.next state) rows fault) {fuel : Nat} (hfuel : rows.length < fuel)
    (buffer : ρ) : c.drain exhausted fuel state buffer = (rows, fault) := by
  induction rows generalizing state fuel buffer with
  | nil =>
      obtain ⟨fuel, rfl⟩ : ∃ n, fuel = n + 1 := ⟨fuel - 1, by omega⟩
      rw [drain]
      cases h with
      | done hcall =>
          obtain ⟨buffer', final, hnext⟩ := hcall buffer
          rw [hnext]
      | failed hcall => rw [hcall buffer]
  | cons row rest ih =>
      obtain ⟨fuel, rfl⟩ : ∃ n, fuel = n + 1 := ⟨fuel - 1, by omega⟩
      rw [List.length_cons] at hfuel
      rw [drain]
      cases h with
      | row hcall hrest =>
          rw [hcall buffer]
          dsimp only
          rw [ih hrest (by omega) row]

theorem Gives.pass_eq {pass : Pass ρ ε} {state : c.State} (h : c.Gives state pass) {exhausted : ε}
    {fuel : Nat} (hfuel : pass.rows.length < fuel) (buffer : ρ) :
    c.pass exhausted fuel state buffer = (pass.rows, pass.fault) := by
  unfold Cursor.pass
  cases pass with
  | refused fault =>
      rw [show c.init state = .error fault from h]
      rfl
  | read rows fault =>
      obtain ⟨opened, hinit, hreads⟩ := h
      rw [hinit]
      exact hreads.drain_eq hfuel buffer

/-- The pass rule: a pass over a cursor that restarts comes out the same from every state
that calls lead to. -/
theorem Restarts.pass_eq {pass : Pass ρ ε} (h : c.Restarts pass) {exhausted : ε} {fuel : Nat}
    (hfuel : pass.rows.length < fuel) {state : c.State} (hreached : c.Reached state)
    (buffer : ρ) : c.pass exhausted fuel state buffer = (pass.rows, pass.fault) :=
  (h state hreached).pass_eq hfuel buffer

/-- Two passes that a cursor gives whenever it is opened have the same rows and fault. -/
theorem Restarts.unique {pass pass' : Pass ρ ε} (h : c.Restarts pass) (h' : c.Restarts pass')
    (exhausted : ε) (buffer : ρ) : pass.rows = pass'.rows ∧ pass.fault = pass'.fault := by
  have hfuel : pass.rows.length < max pass.rows.length pass'.rows.length + 1 :=
    Nat.lt_succ_of_le (Nat.le_max_left _ _)
  have hfuel' : pass'.rows.length < max pass.rows.length pass'.rows.length + 1 :=
    Nat.lt_succ_of_le (Nat.le_max_right _ _)
  have hpass : c.pass exhausted _ c.start buffer = _ := h.pass_eq hfuel .start buffer
  rw [h'.pass_eq hfuel' .start buffer] at hpass
  obtain ⟨hrows, hfault⟩ := Prod.mk.inj hpass
  exact ⟨hrows.symm, hfault.symm⟩

/-! ## Cursors over given rows -/

/-- The state has the rows that are still to come. -/
def ofRows (ε : Type u) (rows : List ρ) : Cursor ρ ε where
  State := List ρ
  start := []
  init _ := .ok rows
  next rest buffer :=
    match rest with
    | [] => .ok (false, buffer, [])
    | row :: rest => .ok (true, row, rest)

theorem ofRows_reads (rows rest : List ρ) :
    (ofRows ε rows).Reads ((ofRows ε rows).next rest) rest none := by
  induction rest with
  | nil => exact .done fun buffer => ⟨buffer, [], rfl⟩
  | cons row rest ih => exact .row (fun buffer => rfl) ih

theorem ofRows_restarts (rows : List ρ) : (ofRows ε rows).Restarts (.read rows none) :=
  fun _ _ => ⟨rows, rfl, ofRows_reads rows rows⟩

/-! ## Loops over the rows -/

variable {α : Type u}

/-- The loop that takes in each row, at most `fuel` turns of it. -/
def consume (c : Cursor ρ ε) (exhausted : ε) (add : α → ρ → Except ε α) :
    Nat → α → c.State → ρ → Except ε (α × c.State)
  | 0, _, _, _ => .error exhausted
  | fuel + 1, acc, state, buffer =>
      match c.next state buffer with
      | .error fault => .error fault
      | .ok (false, _, state) => .ok (acc, state)
      | .ok (true, row, state) =>
          match add acc row with
          | .error fault => .error fault
          | .ok acc => consume c exhausted add fuel acc state row

/-- What the loop makes of rows and of what ends them. -/
def consumed (add : α → ρ → Except ε α) (acc : α) (rows : List ρ) (fault : Option ε) :
    Except ε α :=
  match rows.foldlM add acc with
  | .error fault => .error fault
  | .ok total =>
      match fault with
      | none => .ok total
      | some fault => .error fault

theorem consumed_cons {add : α → ρ → Except ε α} {acc : α} {row : ρ} {rest : List ρ}
    {fault : Option ε} : consumed add acc (row :: rest) fault =
      match add acc row with
      | .error fault => .error fault
      | .ok acc => consumed add acc rest fault := by
  unfold consumed
  rw [List.foldlM_cons]
  cases add acc row <;> rfl

/-- The loop comes to a fault of its body, or to that which ends the rows. -/
theorem consumed_eq_error {add : α → ρ → Except ε α} {acc : α} {rows : List ρ}
    {fault : Option ε} {stop : ε} (h : consumed add acc rows fault = .error stop) :
    (∃ acc row, add acc row = .error stop) ∨ fault = some stop := by
  induction rows generalizing acc with
  | nil =>
      cases fault with
      | none => cases h
      | some fault =>
          cases h
          exact Or.inr rfl
  | cons row rest ih =>
      rw [consumed_cons] at h
      cases hadd : add acc row with
      | error fault =>
          rw [hadd] at h
          cases h
          exact Or.inl ⟨acc, row, hadd⟩
      | ok acc =>
          rw [hadd] at h
          exact ih h

/-- The loop takes in the rows that are read. -/
theorem Reads.consume_eq {exhausted : ε} {add : α → ρ → Except ε α} {acc : α}
    {state : c.State} {rows : List ρ} {fault : Option ε}
    (h : c.Reads (c.next state) rows fault) {fuel : Nat} (hfuel : rows.length < fuel)
    (buffer : ρ) : ∃ final, c.consume exhausted add fuel acc state buffer =
      (consumed add acc rows fault).map (·, final) := by
  induction rows generalizing acc state fuel buffer with
  | nil =>
      obtain ⟨fuel, rfl⟩ : ∃ n, fuel = n + 1 := ⟨fuel - 1, by omega⟩
      rw [consume]
      cases h with
      | done hcall =>
          obtain ⟨buffer', final, hnext⟩ := hcall buffer
          rw [hnext]
          exact ⟨final, rfl⟩
      | failed hcall =>
          rw [hcall buffer]
          exact ⟨state, rfl⟩
  | cons row rest ih =>
      obtain ⟨fuel, rfl⟩ : ∃ n, fuel = n + 1 := ⟨fuel - 1, by omega⟩
      rw [List.length_cons] at hfuel
      cases h with
      | row hcall hrest =>
          rw [consumed_cons, consume, hcall buffer]
          dsimp only
          cases hadd : add acc row with
          | error fault => exact ⟨state, rfl⟩
          | ok acc => exact ih hrest (by omega) row

theorem consume_reached {exhausted : ε} {add : α → ρ → Except ε α} {fuel : Nat} {acc total : α}
    {state final : c.State} {buffer : ρ} (hreached : c.Reached state)
    (hconsume : c.consume exhausted add fuel acc state buffer = .ok (total, final)) :
    c.Reached final := by
  induction fuel generalizing acc state buffer with
  | zero => cases hconsume
  | succ fuel ih =>
      rw [consume] at hconsume
      split at hconsume
      · cases hconsume
      next hnext =>
        cases hconsume
        exact hreached.next hnext
      next hnext =>
        split at hconsume
        · cases hconsume
        · exact ih (hreached.next hnext) hconsume

/-! ## Filtering generators as cursors -/

section Filters

variable {σ : Type u} {ε' α ρ' : Type v}

/-- What a filter emits for the rows up to the first one that it fails on, and the fault. -/
def filtered (pass : ρ' → Except ε' Bool) (emit : ρ' → Except ε' α) :
    List ρ' → List α × Option ε'
  | [] => ([], none)
  | row :: rest =>
      match pass row with
      | .error fault => ([], some fault)
      | .ok false => filtered pass emit rest
      | .ok true =>
          match emit row with
          | .error fault => ([], some fault)
          | .ok a =>
              let (elements, fault) := filtered pass emit rest
              (a :: elements, fault)

variable {pass : ρ' → Except ε' Bool} {emit : ρ' → Except ε' α}

theorem filtered_eq_firstPassing (rows : List ρ') :
    filtered pass emit rows = match Generator.firstPassing pass rows with
      | .error fault => ([], some fault)
      | .ok none => ([], none)
      | .ok (some (row, rest)) =>
          match emit row with
          | .error fault => ([], some fault)
          | .ok a => (a :: (filtered pass emit rest).1, (filtered pass emit rest).2) := by
  induction rows with
  | nil => rfl
  | cons row rest ih =>
      rw [filtered, Generator.firstPassing]
      cases hpass : pass row with
      | error fault => rfl
      | ok b =>
          cases b with
          | true => rfl
          | false => exact ih

/-- Without a fault, it is what the filter emits for all rows. -/
theorem filtered_eq_iff {rows : List ρ'} {elements : List α} :
    filtered pass emit rows = (elements, none) ↔
      Generator.emitted pass emit rows = .ok elements := by
  induction rows generalizing elements with
  | nil =>
      rw [filtered, Generator.emitted, Prod.mk.injEq, Except.ok.injEq]
      exact and_iff_left rfl
  | cons row rest ih =>
      rw [filtered, Generator.emitted]
      cases pass row with
      | error fault => simp
      | ok b =>
          cases b with
          | false => exact ih
          | true =>
              cases emit row with
              | error fault => simp
              | ok a =>
                  dsimp only
                  constructor
                  · intro hfiltered
                    obtain ⟨rfl, hfault⟩ := Prod.mk.inj hfiltered
                    rw [ih.mp (Prod.ext rfl hfault)]
                  · intro hemitted
                    split at hemitted
                    · cases hemitted
                    next others hothers =>
                      cases hemitted
                      rw [ih.mpr hothers]

/-- A cursor whose state has that of a filtering generator, and whose `next` calls it. -/
structure Wraps (c : Cursor ρ ε) (generate : σ → Except ε' (Option α × σ)) (row : α → ρ)
    (lift : ε' → ε) (get : c.State → σ) (set : c.State → σ → c.State) : Prop where
  get_set : ∀ state inner, get (set state inner) = inner
  next_eq : ∀ state buffer, c.next state buffer =
    match generate (get state) with
    | .error fault => .error (lift fault)
    | .ok (none, inner) => .ok (false, buffer, set state inner)
    | .ok (some a, inner) => .ok (true, row a, set state inner)

/-- A cursor over a filter reads what the filter emits. -/
theorem Wraps.reads {generate : σ → Except ε' (Option α × σ)} {row : α → ρ} {lift : ε' → ε}
    {get : c.State → σ} {set : c.State → σ → c.State} (h : c.Wraps generate row lift get set)
    {At : σ → List ρ' → Prop} (hfilters : Generator.Filters pass emit generate At)
    {state : c.State} {inputs : List ρ'} (hat : At (get state) inputs) :
    c.Reads (c.next state) ((filtered pass emit inputs).1.map row)
      ((filtered pass emit inputs).2.map lift) := by
  induction hn : inputs.length using Nat.strongRecOn generalizing inputs state with
  | _ n ih =>
      have hcall := hfilters (get state) inputs hat
      rw [filtered_eq_firstPassing]
      cases hfound : Generator.firstPassing pass inputs with
      | error fault =>
          rw [hfound] at hcall
          dsimp only at hcall
          exact .failed fun buffer => by rw [h.next_eq, hcall]
      | ok found =>
          rw [hfound] at hcall
          cases found with
          | none =>
              obtain ⟨final, hnext⟩ := hcall
              exact .done fun buffer => ⟨buffer, set state final, by rw [h.next_eq, hnext]⟩
          | some found =>
              obtain ⟨input, rest⟩ := found
              dsimp only at hcall ⊢
              cases hemit : emit input with
              | error fault =>
                  rw [hemit] at hcall
                  dsimp only at hcall
                  exact .failed fun buffer => by rw [h.next_eq, hcall]
              | ok a =>
                  rw [hemit] at hcall
                  obtain ⟨middle, hnext, hmiddle⟩ := hcall
                  have hshorter := Generator.length_firstPassing hfound
                  have hat' : At (get (set state middle)) rest := by
                    rw [h.get_set]
                    exact hmiddle
                  have hrest := ih rest.length (hn ▸ hshorter) hat' rfl
                  exact .row (fun buffer => by rw [h.next_eq, hnext]) hrest

end Filters

end Cursor
