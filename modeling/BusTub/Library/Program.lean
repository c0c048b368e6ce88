import Mathlib.Tactic.Common

/-! # Programs that call a server

A program is a tree of calls: it goes on with what each call returns. A handler runs it
against a server with a state of its own. Two handlers that agree call by call, as long
as the calls meet their guards, give every program the same results; what a program leads
to on one handler is shown by pre- and postconditions.
-/

/-- A program whose calls return what `R` says. -/
inductive Program {C : Type} (R : C → Type) (α : Type) where
  | done (result : α)
  | call (c : C) (next : R c → Program R α)

/-- A server that takes the calls one after the other. -/
structure Handler {C : Type} (R : C → Type) (σ ε : Type) where
  step : σ → (c : C) → Except ε (R c × σ)

/-- The second server returns for a call that meets both guards what the first one does. -/
def Handler.Agrees {C : Type} {R : C → Type} {σ τ ε δ : Type} (h : Handler R σ ε)
    (k : Handler R τ δ) (related : σ → τ → Prop) (allowed : σ → C → Prop)
    (guard : τ → C → Prop) : Prop :=
  ∀ s t c r s', related s t → allowed s c → guard t c → h.step s c = .ok (r, s') →
    ∃ t', k.step t c = .ok (r, t') ∧ related s' t'

namespace Program

variable {C : Type} {R : C → Type} {σ τ ε δ α β : Type}

def bind : Program R α → (α → Program R β) → Program R β
  | .done result, k => k result
  | .call c next, k => .call c fun r => (next r).bind k

instance : Monad (Program R) where
  pure := .done
  bind := bind

/-- Run a program against a server. -/
def run (h : Handler R σ ε) : Program R α → σ → Except ε (α × σ)
  | .done result, s => .ok (result, s)
  | .call c next, s =>
      match h.step s c with
      | .error fault => .error fault
      | .ok (r, s) => (next r).run h s

/-- Every call of the program meets the guard. -/
def Guarded (h : Handler R σ ε) (guard : σ → C → Prop) : Program R α → σ → Prop
  | .done _, _ => True
  | .call c next, s =>
      guard s c ∧
        match h.step s c with
        | .error _ => True
        | .ok (r, s) => (next r).Guarded h guard s

instance decidableGuarded (h : Handler R σ ε) (guard : σ → C → Prop)
    [∀ s c, Decidable (guard s c)] :
    (program : Program R α) → (s : σ) → Decidable (program.Guarded h guard s)
  | .done _, _ => .isTrue trivial
  | .call c next, s =>
      match hstep : h.step s c with
      | .error _ => decidable_of_iff (guard s c) (by simp [Guarded, hstep])
      | .ok (r, s') =>
          have := decidableGuarded h guard (next r) s'
          decidable_of_iff (guard s c ∧ (next r).Guarded h guard s') (by simp [Guarded, hstep])

theorem guarded_of_forall {h : Handler R σ ε} {guard : σ → C → Prop}
    (hguard : ∀ s c, guard s c) {program : Program R α} {s : σ} : program.Guarded h guard s := by
  induction program generalizing s with
  | done _ => exact trivial
  | call c next ih =>
      unfold Guarded
      refine ⟨hguard s c, ?_⟩
      split
      · exact trivial
      · exact ih _

section Calls

variable {h : Handler R σ ε} {guard : σ → C → Prop} {c : C} {next : R c → Program R α} {r : R c}
  {s s' : σ} {result : α × σ}

theorem run_call (hstep : h.step s c = .ok (r, s')) :
    (Program.call c next).run h s = (next r).run h s' := by
  rw [run, hstep]

theorem guarded_call (hstep : h.step s c = .ok (r, s')) :
    (Program.call c next).Guarded h guard s ↔ guard s c ∧ (next r).Guarded h guard s' := by
  rw [Guarded, hstep]

theorem guarded_head (hguard : (Program.call c next).Guarded h guard s) : guard s c := by
  rw [Guarded] at hguard
  exact hguard.1

/-- A program that returns goes on after its first call. -/
theorem exists_step_of_run (hrun : (Program.call c next).run h s = .ok result) :
    ∃ r s', h.step s c = .ok (r, s') ∧ (next r).run h s' = .ok result := by
  cases hstep : h.step s c with
  | error fault =>
      rw [run, hstep] at hrun
      cases hrun
  | ok answer =>
      rw [run_call hstep] at hrun
      exact ⟨answer.1, answer.2, rfl, hrun⟩

end Calls

/-- A program returns the same from related states when its calls meet the guards. -/
theorem run_agrees {h : Handler R σ ε} {k : Handler R τ δ} {related : σ → τ → Prop}
    {allowed : σ → C → Prop} {guard : τ → C → Prop} (hagrees : h.Agrees k related allowed guard)
    {program : Program R α} {s s' : σ} {t : τ} {result : α} (hrelated : related s t)
    (hallowed : program.Guarded h allowed s) (hguard : program.Guarded k guard t)
    (hrun : program.run h s = .ok (result, s')) :
    ∃ t', program.run k t = .ok (result, t') ∧ related s' t' := by
  induction program generalizing s t with
  | done _ =>
      cases hrun
      exact ⟨t, rfl, hrelated⟩
  | call c next ih =>
      obtain ⟨r, middle, hstep, hrest⟩ := exists_step_of_run hrun
      obtain ⟨hmay, hlater⟩ := (guarded_call hstep).mp hallowed
      obtain ⟨t', hstep', hrelated'⟩ :=
        hagrees s t c r middle hrelated hmay (guarded_head hguard) hstep
      obtain ⟨final, hfinal, hlast⟩ :=
        ih r hrelated' hlater ((guarded_call hstep').mp hguard).2 hrest
      exact ⟨final, (run_call hstep').trans hfinal, hlast⟩

/-- What a program returns. -/
def value (h : Handler R σ ε) (program : Program R α) (s : σ) : Except ε α :=
  (program.run h s).map Prod.fst

theorem value_eq_ok {h : Handler R σ ε} {program : Program R α} {s : σ} {result : α} :
    program.value h s = .ok result ↔ ∃ s', program.run h s = .ok (result, s') := by
  unfold value
  cases hrun : program.run h s with
  | error fault => simp [Except.map]
  | ok answer =>
      obtain ⟨returned, s'⟩ := answer
      simp [Except.map]

theorem value_agrees {h : Handler R σ ε} {k : Handler R τ δ} {related : σ → τ → Prop}
    {allowed : σ → C → Prop} {guard : τ → C → Prop} (hagrees : h.Agrees k related allowed guard)
    {program : Program R α} {s : σ} {t : τ} {result : α} (hrelated : related s t)
    (hallowed : program.Guarded h allowed s) (hguard : program.Guarded k guard t)
    (hvalue : program.value h s = .ok result) : program.value k t = .ok result := by
  obtain ⟨s', hrun⟩ := value_eq_ok.mp hvalue
  obtain ⟨t', hrun', -⟩ := run_agrees hagrees hrelated hallowed hguard hrun
  exact value_eq_ok.mpr ⟨t', hrun'⟩

/-- A program that does not return on the one server does not on the other one, where that
refuses the calls that the first one refuses. -/
theorem value_error_agrees {h : Handler R σ ε} {k : Handler R τ δ} {related : σ → τ → Prop}
    {allowed : σ → C → Prop} {guard : τ → C → Prop} (hagrees : h.Agrees k related allowed guard)
    {fault : ε} {fault' : δ} (hrefuses : ∀ s t c, h.step s c = .error fault →
      k.step t c = .error fault')
    {program : Program R α} {s : σ} {t : τ} (hrelated : related s t)
    (hallowed : program.Guarded h allowed s) (hguard : program.Guarded k guard t)
    (hvalue : program.value h s = .error fault) : program.value k t = .error fault' := by
  induction program generalizing s t with
  | done _ => cases hvalue
  | call c next ih =>
      unfold value at hvalue ih ⊢
      cases hstep : h.step s c with
      | error fault =>
          rw [run, hstep] at hvalue
          cases hvalue
          rw [run, hrefuses s t c hstep]
          rfl
      | ok answer =>
          obtain ⟨r, middle⟩ := answer
          obtain ⟨hmay, hlater⟩ := (guarded_call hstep).mp hallowed
          obtain ⟨t', hstep', hrelated'⟩ :=
            hagrees s t c r middle hrelated hmay (guarded_head hguard) hstep
          rw [run_call hstep] at hvalue
          rw [run_call hstep']
          exact ih r hrelated' hlater ((guarded_call hstep').mp hguard).2 hvalue

/-! ## What a program leads to -/

/-- From a state with the precondition, the calls meet the guard and the program returns with
the postcondition. -/
def Meets (h : Handler R σ ε) (guard : σ → C → Prop) (pre : σ → Prop) (program : Program R α)
    (post : α → σ → Prop) : Prop :=
  ∀ s, pre s → program.Guarded h guard s ∧
    ∃ result s', program.run h s = .ok (result, s') ∧ post result s'

variable {h : Handler R σ ε} {guard : σ → C → Prop} {pre pre' : σ → Prop}
  {post post' : α → σ → Prop} {program : Program R α}

theorem Meets.mono (hmeets : program.Meets h guard pre post) (hpre : ∀ s, pre' s → pre s)
    (hpost : ∀ result s, post result s → post' result s) : program.Meets h guard pre' post' := by
  intro s hs
  obtain ⟨hguard, result, s', hrun, hfinal⟩ := hmeets s (hpre s hs)
  exact ⟨hguard, result, s', hrun, hpost result s' hfinal⟩

theorem meets_done {result : α} (hpost : ∀ s, pre s → post result s) :
    (Program.done result : Program R α).Meets h guard pre post :=
  fun s hs => ⟨trivial, result, s, rfl, hpost s hs⟩

/-- A call returns with what the rest of the program needs. -/
theorem meets_call {c : C} {next : R c → Program R α} (middle : R c → σ → Prop)
    (hcall : ∀ s, pre s → guard s c ∧ ∃ r s', h.step s c = .ok (r, s') ∧ middle r s')
    (hnext : ∀ r, (next r).Meets h guard (middle r) post) :
    (Program.call c next).Meets h guard pre post := by
  intro s hs
  obtain ⟨hguard, r, s', hstep, hmiddle⟩ := hcall s hs
  obtain ⟨hrest, result, final, hrun, hfinal⟩ := hnext r s' hmiddle
  exact ⟨(guarded_call hstep).mpr ⟨hguard, hrest⟩, result, final, (run_call hstep).trans hrun,
    hfinal⟩

theorem meets_perform {c : C} {post : R c → σ → Prop}
    (hcall : ∀ s, pre s → guard s c ∧ ∃ r s', h.step s c = .ok (r, s') ∧ post r s') :
    (Program.call c Program.done).Meets h guard pre post :=
  meets_call post hcall fun _ => meets_done fun _ hmiddle => hmiddle

/-- What does not depend on the state is known before the program runs. -/
theorem meets_of_fact {fact : Prop} (hmeets : fact → program.Meets h guard pre post) :
    program.Meets h guard (fun s => pre s ∧ fact) post :=
  fun s hs => hmeets hs.2 s hs.1

/-- One program goes on where another one ends. -/
theorem Meets.bind {k : α → Program R β} {last : β → σ → Prop}
    (hfirst : program.Meets h guard pre post) (hnext : ∀ r, (k r).Meets h guard (post r) last) :
    (program >>= k).Meets h guard pre last := by
  change (program.bind k).Meets h guard pre last
  induction program generalizing pre with
  | done result =>
      intro s hs
      obtain ⟨-, result', s', hrun, hpost⟩ := hfirst s hs
      cases hrun
      exact hnext result s hpost
  | call c next ih =>
      intro s hs
      obtain ⟨hguard, result, final, hrun, hpost⟩ := hfirst s hs
      obtain ⟨r, middle, hstep, hrest⟩ := exists_step_of_run hrun
      obtain ⟨hcall, hlater⟩ := (guarded_call hstep).mp hguard
      have hmiddle : (next r).Meets h guard (fun t => t = middle) post := by
        rintro t rfl
        exact ⟨hlater, result, final, hrest, hpost⟩
      obtain ⟨hguard', last', final', hrun', hlast⟩ := ih r hmiddle middle rfl
      exact ⟨(guarded_call hstep).mpr ⟨hcall, hguard'⟩, last', final',
        (run_call hstep).trans hrun', hlast⟩

end Program
