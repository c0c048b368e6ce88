import BusTub.Concurrency.LatchProgress
import BusTub.Hash.PairSet
import BusTub.Hash.SplitCapacity
import BusTub.Library.Linearizability

/-! # Threads that share a table

Threads call `GetValue`, `Insert` and `Remove` of one table at the same time. Each reads in the
directory, as a reader of `table_latch_`, on which page its key belongs, and latches that page;
`SplitInsert` and `Merge` have the table to themselves. Between two sections of a call others
run: a bucket that was full may have room again when `SplitInsert` comes to it, and one that was
empty may hold pairs again when `Merge` does.

The calls take effect one after the other all the same, each between its beginning and its
return: a lookup on its bucket page, an insertion there or in `SplitInsert`, a removal on its
bucket page. And while threads are inside, one of them can go on.
-/

namespace BusTub

variable {T K V : Type}

/-- The key that the call is about. -/
def TableCall.key : TableCall K V → K
  | .insert key _ => key
  | .remove key _ => key
  | .getValue key => key

/-- How far a thread has come in a call. -/
inductive TablePoint (K V : Type) where
  | outside
  | called (call : TableCall K V)
  /-- It has read in the directory where the key belongs. -/
  | directed (call : TableCall K V) (bucketPageId : PageId)
  /-- The bucket was full: `SplitInsert` is called. -/
  | splitting (key : K) (value : V)
  /-- The bucket is empty after the removal: `Merge` is called. -/
  | merging
  | served (outcome : TableOutcome V)

/-- The call with its effect: it is over once the bucket page or the table was written. -/
def TablePoint.progress : TablePoint K V →
    Linearizability.Progress (TableCall K V) (TableOutcome V)
  | .outside => .idle
  | .called call | .directed call _ => .pending call
  | .splitting key value => .pending (.insert key value)
  | .merging => .effected (.remove true)
  | .served outcome => .effected outcome

/-- The latch call that comes next at this point, if the latch is where it starts from. -/
def TablePoint.allows : TablePoint K V → LatchEvent T → Bool
  | _, .wake _ => true
  | .called _, .rLock _ => true
  | .splitting _ _, .rUnlock _ _ | .splitting _ _, .wLock _ => true
  | .merging, .rUnlock _ _ | .merging, .wLock _ => true
  | .served _, .rUnlock _ _ | .served _, .wUnlock _ => true
  | _, _ => false

/-- The key that `SplitInsert` is called with. -/
def TablePoint.splitKey? : TablePoint K V → Option K
  | .splitting key _ => some key
  | _ => none

/-- The table, `table_latch_` and the threads. -/
structure ConcurrentTable (T K V : Type) where
  table : ExtendibleHashTable K V
  tableLatch : LatchSystem T
  points : T → TablePoint K V

/-- What the threads do: one section of a call at a time. -/
inductive TableEvent (T K V : Type) where
  | call (thread : T) (call : TableCall K V)
  /-- A section of a call of `table_latch_`. -/
  | latch (event : LatchEvent T)
  /-- `KeyToPageId`. -/
  | direct (thread : T)
  /-- What is done with the bucket page latched. -/
  | bucket (thread : T)
  /-- The loop of `SplitInsert` or `Merge`. -/
  | rebuild (thread : T)
  | ret (thread : T) (outcome : TableOutcome V)

inductive ConcurrentTableFault where
  /-- The thread is not where the section starts from. -/
  | notThere
  | latch (fault : LatchFault)
  | table (fault : TableFault)
  deriving DecidableEq, Repr

namespace ConcurrentTable

open ExtendibleHashTable Linearizability

variable [DecidableEq V] (c : TableConfig K V)

/-- What a call does with the bucket page latched, and where it goes on. -/
def bucketSection (call : TableCall K V) (page : BucketPage K V) :
    TablePoint K V × BucketPage K V :=
  match call with
  | .getValue key =>
      let (found, values) := page.getValue c.scheme c.bucketArraySize key []
      (.served (.getValue found values), page)
  | .insert key value =>
      if page.isFull c.bucketArraySize then (.splitting key value, page)
      else
        let (success, page) := page.insert c.scheme c.bucketArraySize key value
        (.served (.insert success), page)
  | .remove key value =>
      let (success, page) := page.remove c.scheme c.bucketArraySize key value
      if success ∧ page.isEmpty c.bucketArraySize then (.merging, page)
      else (.served (.remove success), page)

/-- What a call does with the table to itself. `Merge` is called after a removal. -/
def rebuildSection (t : ExtendibleHashTable K V) (point : TablePoint K V) :
    Except ConcurrentTableFault (TableOutcome V × ExtendibleHashTable K V) :=
  match point with
  | .splitting key value =>
      match t.splitInsert c key value with
      | .error fault => .error (.table fault)
      | .ok (success, t) => .ok (.insert success, t)
  | .merging => .ok (.remove true, t.merge c)
  | _ => .error .notThere

variable [DecidableEq T]

def setPoint (s : ConcurrentTable T K V) (t : T) (point : TablePoint K V) :
    ConcurrentTable T K V :=
  { s with points := Function.update s.points t point }

/-- One section of a thread. -/
def step [Fintype T] (s : ConcurrentTable T K V) :
    TableEvent T K V → Except ConcurrentTableFault (ConcurrentTable T K V)
  | .call t call =>
      match s.points t with
      | .outside => .ok (s.setPoint t (.called call))
      | _ => .error .notThere
  | .latch e =>
      if (s.points e.thread).allows e then
        match (LatchSystem.machine T).step s.tableLatch e with
        | .error fault => .error (.latch fault)
        | .ok (_, tableLatch) => .ok { s with tableLatch }
      else .error .notThere
  | .direct t =>
      match s.points t, s.tableLatch.points t with
      | .called call, .reading =>
          .ok (s.setPoint t (.directed call (keyToPageId c call.key s.table.directory)))
      | _, _ => .error .notThere
  | .bucket t =>
      match s.points t with
      | .directed call bucketPageId =>
          let (point, page) := bucketSection c call (s.table.buckets bucketPageId)
          .ok ({ s with table := s.table.setBucket bucketPageId page }.setPoint t point)
      | _ => .error .notThere
  | .rebuild t =>
      match s.tableLatch.points t with
      | .writing =>
          match rebuildSection c s.table (s.points t) with
          | .error fault => .error fault
          | .ok (outcome, table) => .ok ({ s with table }.setPoint t (.served outcome))
      | _ => .error .notThere
  | .ret t outcome =>
      match s.points t, s.tableLatch.points t with
      | .served returned, .outside =>
          if returned = outcome then .ok (s.setPoint t .outside) else .error .notThere
      | _, _ => .error .notThere

/-- The threads one section after the other, in any order. -/
def machine [Fintype T] :
    Machine (ConcurrentTable T K V) (TableEvent T K V) Unit ConcurrentTableFault where
  step s e := (s.step c e).map fun s => ((), s)

/-- A new table that nobody has called. -/
def start : ConcurrentTable T K V where
  table := create c
  tableLatch := {}
  points _ := .outside

/-- What the callers see. -/
def seen : TableEvent T K V → Option (Linearizability.Event T (TableCall K V) (TableOutcome V))
  | .call t call => some (.call t call)
  | .ret t outcome => some (.ret t outcome)
  | _ => none

/-- `SplitInsert` splits buckets only whose local depth is at most one less than the global
depth. -/
def ClosesSplits (s : ConcurrentTable T K V) : TableEvent T K V → Prop
  | .rebuild t => ∀ key ∈ (s.points t).splitKey?, SplitsClose c s.table key
  | _ => True

instance (t : ExtendibleHashTable K V) (key : K) : Decidable (SplitsClose c t key) :=
  inferInstanceAs (Decidable (_ → _))

instance (s : ConcurrentTable T K V) : DecidablePred (s.ClosesSplits c)
  | .rebuild t =>
      inferInstanceAs (Decidable (∀ key ∈ (s.points t).splitKey?, SplitsClose c s.table key))
  | .call _ _ | .latch _ | .direct _ | .bucket _ | .ret _ _ => inferInstanceAs (Decidable True)

/-! ## The sections of a call -/

section Sections

variable {c} {t final : ExtendibleHashTable K V} {pairs : Finset (c.scheme.KeyClass × V)}
  {point : TablePoint K V} {outcome : TableOutcome V}

omit [DecidableEq V] in
theorem setBucket_self (t : ExtendibleHashTable K V) (pageId : PageId) :
    t.setBucket pageId (t.buckets pageId) = t := by
  unfold ExtendibleHashTable.setBucket
  rw [Function.update_eq_self]

/-- On the bucket page of its key a call takes effect, or it is an insertion into a full bucket. -/
theorem bucketSection_spec (h : Represents c t pairs) {call : TableCall K V} {key : K}
    (hkey : call.key = key) {page : BucketPage K V}
    (hsection : bucketSection c call (t.buckets (keyToPageId c key t.directory)) =
      (point, page)) :
    (∃ outcome pairs', c.scheme.pairSet.step pairs call = .ok (outcome, pairs') ∧
      point.progress = .effected outcome ∧
      Represents c (t.setBucket (keyToPageId c key t.directory) page) pairs') ∨
    ∃ key' value, call = .insert key' value ∧ point = .splitting key' value ∧
      t.setBucket (keyToPageId c key t.directory) page = t := by
  cases call with
  | getValue key' =>
      obtain rfl : key = key' := hkey.symm
      left
      cases hsection
      obtain ⟨hvalues, hfound⟩ := h.getValue key
      refine ⟨.getValue (t.getValue c key).1 (t.getValue c key).2, pairs, ?_, rfl, ?_⟩
      · simp only [KeyScheme.pairSet, hvalues, hfound]
      · rw [setBucket_self]
        exact h
  | insert key' value =>
      obtain rfl : key = key' := hkey.symm
      unfold bucketSection at hsection
      dsimp only at hsection
      by_cases hroom : (t.buckets (keyToPageId c key t.directory)).isFull c.bucketArraySize
      · rw [if_pos hroom] at hsection
        cases hsection
        exact Or.inr ⟨key, value, rfl, rfl, setBucket_self t _⟩
      · left
        rw [if_neg hroom] at hsection
        cases hsection
        obtain ⟨success, final, hinsert, hresult⟩ := h.1.insert_of_room_spec key value hroom
        rw [insert_of_room key value hroom, Except.ok.injEq, Prod.mk.injEq] at hinsert
        obtain ⟨hfirst, rfl⟩ := hinsert
        obtain ⟨hsuccess, hrepresents⟩ := h.insert hresult
        refine ⟨.insert success, _, ?_, ?_, hrepresents⟩
        · simp only [KeyScheme.pairSet, hsuccess]
        · rw [← hfirst]
          rfl
  | remove key' value =>
      obtain rfl : key = key' := hkey.symm
      left
      obtain ⟨success, page', hremove, hresult⟩ := h.1.remove_bucket key value
      obtain ⟨hsuccess, hrepresents⟩ := h.remove hresult
      have hstep : c.scheme.pairSet.step pairs (.remove key value) =
          .ok (.remove success, pairs.erase (c.scheme.keyClass key, value)) := by
        simp only [KeyScheme.pairSet, hsuccess]
      unfold bucketSection at hsection
      dsimp only at hsection
      rw [hremove] at hsection
      dsimp only at hsection
      by_cases hempty : success ∧ page'.isEmpty c.bucketArraySize
      · rw [if_pos hempty] at hsection
        cases hsection
        obtain rfl : success = true := hempty.1
        exact ⟨_, _, hstep, rfl, hrepresents⟩
      · rw [if_neg hempty] at hsection
        cases hsection
        exact ⟨_, _, hstep, rfl, hrepresents⟩

/-- Alone with the table, an insertion takes effect, and `Merge` changes no pair. -/
theorem rebuildSection_spec (h : Represents c t pairs)
    (hclose : ∀ key ∈ point.splitKey?, SplitsClose c t key)
    (hsection : rebuildSection c t point = .ok (outcome, final)) :
    (∃ key value pairs', point = .splitting key value ∧
      c.scheme.pairSet.step pairs (.insert key value) = .ok (outcome, pairs') ∧
      Represents c final pairs') ∨
    point = .merging ∧ outcome = .remove true ∧ Represents c final pairs := by
  cases point with
  | splitting key value =>
      left
      have hfuel : 9 < t.directory.localDepths (keyToDirectoryIndex c key t.directory) +
          directoryArraySize := by
        unfold directoryArraySize
        omega
      unfold rebuildSection at hsection
      dsimp only at hsection
      rcases h.1.splitInsertLoop_spec key value _ hfuel (hclose key rfl) with
        hstop | ⟨success, last, hinsert, hresult⟩
      · have hsplit : t.splitInsert c key value = .error .directoryFull := hstop
        rw [hsplit] at hsection
        cases hsection
      · have hsplit : t.splitInsert c key value = .ok (success, last) := hinsert
        rw [hsplit] at hsection
        cases hsection
        obtain ⟨hsuccess, hrepresents⟩ := h.insert hresult
        refine ⟨key, value, _, rfl, ?_, hrepresents⟩
        simp only [KeyScheme.pairSet, hsuccess]
  | merging =>
      right
      cases hsection
      obtain ⟨hvalid, hsame⟩ := h.1.mergeLoop t.directory.size 0
      exact ⟨rfl, rfl, hvalid, fun key value => (h.2 key value).trans (hsame key value).symm⟩
  | outside => cases hsection
  | called call => cases hsection
  | directed call pageId => cases hsection
  | served outcome => cases hsection

end Sections

/-! ## The latch and the calls -/

end ConcurrentTable

/-- Where the latch can be at this point of a call. -/
def TablePoint.Fits : TablePoint K V → LatchPoint → Prop
  | .outside, latch => latch = .outside
  | .called _, latch =>
      latch = .outside ∨ latch = .reading ∨ ∃ notified, latch = .waiting .rLock notified
  | .directed _ _, latch => latch = .reading
  | .splitting _ _, _ | .merging, _ => True
  | .served _, latch => ∀ loop notified, latch ≠ .waiting loop notified

namespace TablePoint

variable {point : TablePoint K V} {before after : LatchPoint}

theorem Fits.stays (h : point.Fits before) (hstays : before.Stays after) : point.Fits after := by
  have hawake : (∀ loop, before ≠ .waiting loop false) → point.Fits after := by
    intro hbefore
    rw [hstays.eq_of_awake hbefore]
    exact h
  cases point with
  | outside => exact hawake fun loop heq => nomatch h.symm.trans heq
  | called call =>
      rcases hstays with rfl | ⟨loop, rfl, rfl⟩
      · exact h
      · rcases h with heq | heq | ⟨notified, heq⟩
        · cases heq
        · cases heq
        · cases heq
          exact Or.inr (Or.inr ⟨true, rfl⟩)
  | directed call pageId => exact hawake fun loop heq => nomatch h.symm.trans heq
  | splitting key value => trivial
  | merging => trivial
  | served outcome => exact hawake fun loop => h loop false

/-- Who wakes at a point where it may sleep, or makes the latch call that comes next, is where
it should be. -/
theorem Fits.moves (h : point.Fits before) {e : LatchEvent T} (hallows : point.allows e)
    (hmoves : e.Moves before after) : point.Fits after := by
  cases point with
  | outside =>
      cases e with
      | wake thread =>
          obtain ⟨loop, hbefore, -⟩ := hmoves
          cases h.symm.trans hbefore
      | rLock thread => exact Bool.noConfusion hallows
      | wLock thread => exact Bool.noConfusion hallows
      | rUnlock thread notified => exact Bool.noConfusion hallows
      | wUnlock thread => exact Bool.noConfusion hallows
  | called call =>
      have hends : LatchLoop.rLock.EndsAt after → (called call : TablePoint K V).Fits after := by
        rintro (rfl | rfl)
        · exact Or.inr (Or.inl rfl)
        · exact Or.inr (Or.inr ⟨false, rfl⟩)
      cases e with
      | wake thread =>
          obtain ⟨loop, rfl, hafter⟩ := hmoves
          rcases h with heq | heq | ⟨notified, heq⟩
          · cases heq
          · cases heq
          · cases heq
            exact hends hafter
      | rLock thread => exact hends hmoves.2
      | wLock thread => exact Bool.noConfusion hallows
      | rUnlock thread notified => exact Bool.noConfusion hallows
      | wUnlock thread => exact Bool.noConfusion hallows
  | directed call pageId =>
      cases e with
      | wake thread =>
          obtain ⟨loop, hbefore, -⟩ := hmoves
          cases h.symm.trans hbefore
      | rLock thread => exact Bool.noConfusion hallows
      | wLock thread => exact Bool.noConfusion hallows
      | rUnlock thread notified => exact Bool.noConfusion hallows
      | wUnlock thread => exact Bool.noConfusion hallows
  | splitting key value => trivial
  | merging => trivial
  | served outcome =>
      cases e with
      | wake thread =>
          obtain ⟨loop, hbefore, -⟩ := hmoves
          exact absurd hbefore (h loop true)
      | rLock thread => exact Bool.noConfusion hallows
      | wLock thread => exact Bool.noConfusion hallows
      | rUnlock thread notified =>
          obtain ⟨-, rfl⟩ := hmoves
          exact fun _ _ heq => nomatch heq
      | wUnlock thread =>
          obtain ⟨-, rfl⟩ := hmoves
          exact fun _ _ heq => nomatch heq

theorem fits_reading_of_bucketSection [DecidableEq V] {c : TableConfig K V} {call : TableCall K V}
    {page page' : BucketPage K V}
    (hsection : ConcurrentTable.bucketSection c call page = (point, page')) :
    point.Fits .reading := by
  have hserved : ∀ outcome : TableOutcome V, (served outcome : TablePoint K V).Fits .reading :=
    fun _ _ _ heq => nomatch heq
  unfold ConcurrentTable.bucketSection at hsection
  cases call with
  | getValue key =>
      cases hsection
      exact hserved _
  | insert key value =>
      dsimp only at hsection
      split at hsection
      · cases hsection
        trivial
      · cases hsection
        exact hserved _
  | remove key value =>
      dsimp only at hsection
      split at hsection
      · cases hsection
        trivial
      · cases hsection
        exact hserved _

end TablePoint

namespace ConcurrentTable

open ExtendibleHashTable Linearizability

section Orderly

variable [DecidableEq V] [DecidableEq T] [Fintype T] {c : TableConfig K V}
  {s final : ConcurrentTable T K V} {t u : T} {e : TableEvent T K V}

/-- The latch is in order, and every thread is where its call needs it to be. -/
structure Orderly (s : ConcurrentTable T K V) : Prop where
  owned : s.tableLatch.Owned
  awake : s.tableLatch.NoLostWakeup
  attended : s.tableLatch.Attended
  fits : ∀ t, (s.points t).Fits (s.tableLatch.points t)

omit [DecidableEq V] [DecidableEq T] in
/-- A writer of the latch has the table to itself. -/
theorem Orderly.not_directed (h : s.Orderly) (hwriting : s.tableLatch.points t = .writing)
    (u : T) (call : TableCall K V) (pageId : PageId) : s.points u ≠ .directed call pageId := by
  intro hdirected
  have hreading : s.tableLatch.points u = .reading := by
    have hfits := h.fits u
    rwa [hdirected] at hfits
  have hzero := h.owned.alone t hwriting
  rw [h.owned.count, Finset.card_eq_zero] at hzero
  have hmem : u ∈ LatchSystem.readers s.tableLatch.points := LatchSystem.mem_readers.mpr hreading
  rw [hzero] at hmem
  exact absurd hmem (Finset.notMem_empty u)

omit [DecidableEq V] in
theorem Orderly.setPoint (h : s.Orderly) {point : TablePoint K V}
    (hfits : point.Fits (s.tableLatch.points t)) (table : ExtendibleHashTable K V) :
    ({ s with table }.setPoint t point).Orderly where
  owned := h.owned
  awake := h.awake
  attended := h.attended
  fits u := by
    unfold ConcurrentTable.setPoint
    dsimp only
    by_cases hself : u = t
    · rw [hself, Function.update_self]
      exact hfits
    · rw [Function.update_of_ne hself]
      exact h.fits u

theorem step_latch {e : LatchEvent T} (hstep : s.step c (.latch e) = .ok final) :
    (s.points e.thread).allows e ∧ ∃ tableLatch,
      (LatchSystem.machine T).step s.tableLatch e = .ok ((), tableLatch) ∧
        final = { s with tableLatch } := by
  unfold step at hstep
  dsimp only at hstep
  split at hstep
  next hallows =>
    cases hlatch : (LatchSystem.machine T).step s.tableLatch e with
    | error fault =>
        rw [hlatch] at hstep
        cases hstep
    | ok result =>
        rw [hlatch] at hstep
        cases hstep
        exact ⟨hallows, result.2, rfl, rfl⟩
  next => cases hstep

/-- What a section does beside the latch: it takes its thread on, and writes the table. -/
theorem step_section (hstep : s.step c e = .ok final) :
    (∃ latch, e = .latch latch) ∨ ∃ t point table, final = { s with table }.setPoint t point ∧
      ((∃ call, e = .call t call ∧ s.points t = .outside ∧ point = .called call ∧
          table = s.table) ∨
        (∃ call, e = .direct t ∧ s.points t = .called call ∧
          s.tableLatch.points t = .reading ∧
          point = .directed call (keyToPageId c call.key s.table.directory) ∧ table = s.table) ∨
        (∃ call pageId page, e = .bucket t ∧ s.points t = .directed call pageId ∧
          bucketSection c call (s.table.buckets pageId) = (point, page) ∧
          table = s.table.setBucket pageId page) ∨
        (∃ outcome, e = .rebuild t ∧ s.tableLatch.points t = .writing ∧
          rebuildSection c s.table (s.points t) = .ok (outcome, table) ∧
          point = .served outcome) ∨
        ∃ outcome, e = .ret t outcome ∧ s.points t = .served outcome ∧
          s.tableLatch.points t = .outside ∧ point = .outside ∧ table = s.table) := by
  cases e with
  | latch e => exact Or.inl ⟨e, rfl⟩
  | call t call =>
      right
      unfold step at hstep
      dsimp only at hstep
      split at hstep
      next hpoint =>
        cases hstep
        exact ⟨t, _, s.table, rfl, Or.inl ⟨call, rfl, hpoint, rfl, rfl⟩⟩
      next => cases hstep
  | direct t =>
      right
      unfold step at hstep
      dsimp only at hstep
      split at hstep
      next call hpoint hlatch =>
        cases hstep
        exact ⟨t, _, s.table, rfl, Or.inr (Or.inl ⟨call, rfl, hpoint, hlatch, rfl, rfl⟩)⟩
      next => cases hstep
  | bucket t =>
      right
      unfold step at hstep
      dsimp only at hstep
      split at hstep
      next call pageId hpoint =>
        cases hstep
        exact ⟨t, _, _, rfl, Or.inr (Or.inr (Or.inl ⟨call, pageId, _, rfl, hpoint, rfl, rfl⟩))⟩
      next => cases hstep
  | rebuild t =>
      right
      unfold step at hstep
      dsimp only at hstep
      split at hstep
      next hlatch =>
        split at hstep
        next => cases hstep
        next outcome table hsection =>
          cases hstep
          exact ⟨t, _, table, rfl,
            Or.inr (Or.inr (Or.inr (Or.inl ⟨outcome, rfl, hlatch, hsection, rfl⟩)))⟩
      next => cases hstep
  | ret t outcome =>
      right
      unfold step at hstep
      dsimp only at hstep
      split at hstep
      next returned hpoint hlatch =>
        split at hstep
        next heq =>
          cases hstep
          subst heq
          exact ⟨t, _, s.table, rfl,
            Or.inr (Or.inr (Or.inr (Or.inr ⟨returned, rfl, hpoint, hlatch, rfl, rfl⟩)))⟩
        next => cases hstep
      next => cases hstep

theorem Orderly.step (h : s.Orderly) (hfew : Fintype.card T < maxReaders)
    (hstep : s.step c e = .ok final) : final.Orderly := by
  rcases step_section hstep with ⟨e, rfl⟩ | ⟨t, point, table, rfl, hcases⟩
  · obtain ⟨hallows, tableLatch, hlatch, rfl⟩ := step_latch hstep
    obtain ⟨howned, hawake⟩ := h.owned.step hfew h.awake hlatch
    obtain ⟨hmoves, hstays⟩ := LatchSystem.step_points hlatch
    refine ⟨howned, hawake, h.attended.step hlatch, fun u => ?_⟩
    by_cases hself : u = e.thread
    · subst hself
      exact (h.fits e.thread).moves hallows hmoves
    · exact (h.fits u).stays (hstays u hself)
  · refine h.setPoint ?_ table
    have hfits := h.fits t
    rcases hcases with ⟨call, -, hpoint, rfl, -⟩ | ⟨call, -, -, hlatch, rfl, -⟩ |
      ⟨call, pageId, page, -, hpoint, hsection, -⟩ | ⟨outcome, -, hlatch, -, rfl⟩ |
      ⟨outcome, -, -, hlatch, rfl, -⟩
    · rw [hpoint] at hfits
      exact Or.inl hfits
    · exact hlatch
    · rw [hpoint] at hfits
      have hreading : s.tableLatch.points t = .reading := hfits
      rw [hreading]
      exact TablePoint.fits_reading_of_bucketSection hsection
    · rw [hlatch]
      exact fun _ _ heq => nomatch heq
    · exact hlatch

omit [DecidableEq V] [DecidableEq T] in
theorem orderly_start (c : TableConfig K V) : (start c : ConcurrentTable T K V).Orderly where
  owned := LatchSystem.owned_initial
  awake _ _ hasleep := nomatch hasleep
  attended hentered := nomatch hentered
  fits _ := rfl

end Orderly

/-! ## Linearizability -/

section Linearizable

variable [DecidableEq V] [DecidableEq T] [Fintype T] {c : TableConfig K V}
  {s final : ConcurrentTable T K V} {t : T} {e : TableEvent T K V}
  {shared : Shared T (TableCall K V) (TableOutcome V) (Finset (c.scheme.KeyClass × V))}

/-- The calls on a pair set have come as far as those on the table. -/
structure Follows (c : TableConfig K V) (s : ConcurrentTable T K V)
    (shared : Shared T (TableCall K V) (TableOutcome V) (Finset (c.scheme.KeyClass × V))) :
    Prop where
  orderly : s.Orderly
  directed : ∀ t call pageId, s.points t = .directed call pageId →
    pageId = keyToPageId c call.key s.table.directory
  represents : Represents c s.table shared.object
  calls : ∀ t, shared.calls t = (s.points t).progress

omit [DecidableEq V] in
/-- One thread goes on, and the table with it. -/
theorem Follows.setPoint (h : Follows c s shared) {point : TablePoint K V}
    {table : ExtendibleHashTable K V} {object : Finset (c.scheme.KeyClass × V)}
    (horderly : ({ s with table }.setPoint t point).Orderly)
    (hself : ∀ call pageId, point = .directed call pageId →
      pageId = keyToPageId c call.key table.directory)
    (hothers : ∀ u call pageId, s.points u = .directed call pageId →
      pageId = keyToPageId c call.key table.directory)
    (hrepresents : Represents c table object) :
    Follows c ({ s with table }.setPoint t point)
      ({ shared with object }.setCall t point.progress) where
  orderly := horderly
  directed u call pageId hu := by
    unfold ConcurrentTable.setPoint at hu
    dsimp only at hu
    rw [Function.update_apply] at hu
    split at hu
    · exact hself call pageId hu
    · exact hothers u call pageId hu
  represents := hrepresents
  calls u := by
    unfold ConcurrentTable.setPoint Shared.setCall
    dsimp only
    rw [Function.update_apply, Function.update_apply]
    split
    · rfl
    · exact h.calls u

omit [DecidableEq V] [Fintype T] in
theorem setCall_of_eq {progress : Progress (TableCall K V) (TableOutcome V)}
    (h : shared.calls t = progress) : shared.setCall t progress = shared := by
  unfold Shared.setCall
  rw [← h, Function.update_eq_self]

/-- Every section is matched by what the calls on the pair set do. -/
theorem Follows.step (h : Follows c s shared) (hfew : Fintype.card T < maxReaders)
    (hclose : s.ClosesSplits c e) (hstep : s.step c e = .ok final) :
    Matched (Performs c.scheme.pairSet) (Follows c) shared (seen e) final := by
  have horderly := h.orderly.step hfew hstep
  rcases step_section hstep with ⟨e, rfl⟩ | ⟨t, point, table, rfl, hcases⟩
  · obtain ⟨-, tableLatch, -, rfl⟩ := step_latch hstep
    exact .stutter ⟨horderly, h.directed, h.represents, h.calls⟩
  have hcall := h.calls t
  rcases hcases with ⟨call, rfl, hpoint, rfl, rfl⟩ | ⟨call, rfl, hpoint, -, rfl, rfl⟩ |
    ⟨call, pageId, page, rfl, hpoint, hsection, rfl⟩ | ⟨outcome, rfl, hlatch, hsection, rfl⟩ |
    ⟨outcome, rfl, hpoint, -, rfl, rfl⟩
  · rw [hpoint] at hcall
    exact .call hcall (h.setPoint horderly (fun _ _ heq => nomatch heq) h.directed h.represents)
  · rw [hpoint] at hcall
    have hnext := h.setPoint horderly (fun call' pageId heq => by cases heq; rfl) h.directed
      h.represents
    have hsame : shared.setCall t (.pending call) = shared := setCall_of_eq hcall
    exact .stutter (hsame ▸ hnext)
  · -- the directory still leads to the page, since nobody had the table alone
    rw [hpoint] at hcall
    obtain rfl := h.directed t call pageId hpoint
    rcases bucketSection_spec h.represents rfl hsection with
      ⟨outcome, pairs, hspec, hprogress, hrepresents⟩ |
      ⟨key, value, rfl, rfl, hsame⟩
    · have hnext := h.setPoint horderly ?_ h.directed hrepresents
      · rw [hprogress] at hnext
        exact .effect hcall hspec hnext
      · rintro call' pageId rfl
        cases hprogress
    · rw [hsame] at horderly ⊢
      have hnext := h.setPoint horderly (fun _ _ heq => nomatch heq) h.directed h.represents
      have hstays : shared.setCall t (.pending (.insert key value)) = shared :=
        setCall_of_eq hcall
      exact .stutter (hstays ▸ hnext)
  · -- nobody is between the directory and a bucket page
    have hnone : ∀ u call pageId, s.points u = .directed call pageId →
        pageId = keyToPageId c call.key table.directory :=
      fun u call pageId hu => absurd hu (h.orderly.not_directed hlatch u call pageId)
    rcases rebuildSection_spec h.represents hclose hsection with
      ⟨key, value, pairs, hpoint, hspec, hrepresents⟩ | ⟨hpoint, rfl, hrepresents⟩
    · rw [hpoint] at hcall
      exact .effect hcall hspec
        (h.setPoint horderly (fun _ _ heq => nomatch heq) hnone hrepresents)
    · rw [hpoint] at hcall
      have hnext := h.setPoint horderly (fun _ _ heq => nomatch heq) hnone hrepresents
      have hstays : shared.setCall t (.effected (.remove true)) = shared := setCall_of_eq hcall
      exact .stutter (hstays ▸ hnext)
  · rw [hpoint] at hcall
    exact .ret hcall (h.setPoint horderly (fun _ _ heq => nomatch heq) h.directed h.represents)

end Linearizable

theorem wideTable_fits : 4 * 4095 + 1 ≤ 4 * pageSize := by decide

/-- The table of `int` keys with values so large that a bucket has room for one. -/
def wideTable : TableConfig Int Int where
  scheme := intTable.scheme
  mappingSize := 4095
  zero := (0, 0)
  fits := wideTable_fits

theorem card_bool_lt_maxReaders : Fintype.card Bool < maxReaders := by
  unfold maxReaders
  decide

/-- Both threads have read where their keys belong before the one fills the bucket. The other
waits until the latch is given back and splits it. -/
def splitBehindReader : List (TableEvent Bool Int Int) :=
  [.call false (.insert 0 7), .call true (.insert 2 8), .latch (.rLock false),
    .latch (.rLock true), .direct false, .direct true, .bucket false, .bucket true,
    .latch (.rUnlock true true), .latch (.wLock true), .latch (.rUnlock false true),
    .latch (.wake true), .ret false (.insert true), .rebuild true, .latch (.wUnlock true),
    .ret true (.insert true)]

section Progress

variable [DecidableEq V] [DecidableEq T] [Fintype T] {c : TableConfig K V}
  {s : ConcurrentTable T K V} {t : T}

omit [DecidableEq T] [Fintype T] in
theorem wellFormed_bucketSection {page page' : BucketPage K V} {call : TableCall K V}
    {point : TablePoint K V} (h : page.WellFormed c.scheme c.bucketArraySize)
    (hsection : bucketSection c call page = (point, page')) :
    page'.WellFormed c.scheme c.bucketArraySize := by
  cases call with
  | getValue key =>
      cases hsection
      exact h
  | insert key value =>
      simp only [bucketSection] at hsection
      split at hsection
      · cases hsection
        exact h
      · cases hsection
        exact (BucketPage.insert_pairs h key value).2.1
  | remove key value =>
      simp only [bucketSection] at hsection
      split at hsection
      · cases hsection
        exact (BucketPage.remove_pairs h key value).2.1
      · cases hsection
        exact (BucketPage.remove_pairs h key value).2.1

/-- The depths and the pages stay in range in every run, also when buckets are split that lag
behind. -/
theorem sound_step {e : TableEvent T K V} {next : ConcurrentTable T K V} (h : Sound c s.table)
    (hstep : s.step c e = .ok next) : Sound c next.table := by
  rcases step_section hstep with ⟨e, rfl⟩ | ⟨t, point, table, rfl, hcases⟩
  · obtain ⟨-, tableLatch, -, rfl⟩ := step_latch hstep
    exact h
  rcases hcases with ⟨call, rfl, -, -, rfl⟩ | ⟨call, rfl, -, -, -, rfl⟩ |
    ⟨call, pageId, page, rfl, -, hsection, rfl⟩ | ⟨outcome, rfl, -, hsection, rfl⟩ |
    ⟨outcome, rfl, -, -, -, rfl⟩
  · exact h
  · exact h
  · exact h.setBucket pageId (wellFormed_bucketSection (h.bucket pageId) hsection)
  · cases hpoint : s.points t with
    | splitting key value =>
        rw [hpoint] at hsection
        simp only [rebuildSection] at hsection
        split at hsection
        · cases hsection
        next success final hsplit =>
          cases hsection
          exact (h.splitInsertLoop key value _ (by unfold directoryArraySize; omega)).sound _ _
            hsplit
    | merging =>
        rw [hpoint] at hsection
        cases hsection
        exact h.mergeLoop _ 0
    | outside | called | directed | served =>
        rw [hpoint] at hsection
        cases hsection
  · exact h

/-- Some section of a call that is under way can run, or it is `SplitInsert` and asks the directory
to exceed its array. -/
def GoesOn (c : TableConfig K V) (s : ConcurrentTable T K V) : Prop :=
  ∃ e, (∀ u call, e ≠ .call u call) ∧
    ((∃ next, s.step c e = .ok next) ∨ s.step c e = .error (.table .directoryFull))

theorem goesOn_of_latch (e : LatchEvent T) (hallows : (s.points e.thread).allows e)
    (hstep : ∃ tableLatch, (LatchSystem.machine T).step s.tableLatch e = .ok ((), tableLatch)) :
    GoesOn c s := by
  obtain ⟨tableLatch, hstep⟩ := hstep
  refine ⟨.latch e, by rintro _ _ ⟨⟩, Or.inl ⟨{ s with tableLatch }, ?_⟩⟩
  unfold step
  dsimp only
  rw [if_pos hallows, hstep]

/-- A thread that is about to take the latch, or has given it back. -/
theorem Orderly.goesOn_outside (h : s.Orderly) (hinside : s.points t ≠ .outside)
    (hlatch : s.tableLatch.points t = .outside) : GoesOn c s := by
  have hfits := h.fits t
  rw [hlatch] at hfits
  have hwLock : (s.points t).allows (.wLock t) → GoesOn c s := fun hallows =>
    goesOn_of_latch (.wLock t) hallows ⟨_, if_pos hlatch⟩
  cases hpoint : s.points t with
  | outside => exact absurd hpoint hinside
  | called call =>
      have hallows : (s.points t).allows (.rLock t) := by
        rw [hpoint]
        rfl
      exact goesOn_of_latch (.rLock t) hallows ⟨_, if_pos hlatch⟩
  | directed call pageId =>
      rw [hpoint] at hfits
      cases hfits
  | splitting key value => exact hwLock (by rw [hpoint]; rfl)
  | merging => exact hwLock (by rw [hpoint]; rfl)
  | served outcome =>
      refine ⟨.ret t outcome, by rintro _ _ ⟨⟩, Or.inl ⟨s.setPoint t .outside, ?_⟩⟩
      simp only [ConcurrentTable.step, hpoint, hlatch, if_true]

theorem Orderly.goesOn_reading (h : s.Orderly) (hlatch : s.tableLatch.points t = .reading) :
    GoesOn c s := by
  have hfits := h.fits t
  rw [hlatch] at hfits
  have hrUnlock : (∀ chosen, (s.points t).allows (.rUnlock t chosen)) → GoesOn c s := by
    intro hallows
    obtain ⟨chosen, final, hunlock⟩ := s.tableLatch.exists_rUnlock t
    refine goesOn_of_latch (.rUnlock t chosen) (hallows chosen) ⟨final, ?_⟩
    simp only [LatchSystem.machine, hlatch, if_true, hunlock]
    rfl
  cases hpoint : s.points t with
  | outside =>
      rw [hpoint] at hfits
      cases hfits
  | called call =>
      refine ⟨.direct t, by rintro _ _ ⟨⟩, Or.inl
        ⟨s.setPoint t (.directed call (keyToPageId c call.key s.table.directory)), ?_⟩⟩
      unfold ConcurrentTable.step
      dsimp only
      rw [hlatch, hpoint]
  | directed call pageId =>
      obtain ⟨point, page, hsection⟩ : ∃ point page,
          bucketSection c call (s.table.buckets pageId) = (point, page) := ⟨_, _, rfl⟩
      refine ⟨.bucket t, by rintro _ _ ⟨⟩, Or.inl
        ⟨{ s with table := s.table.setBucket pageId page }.setPoint t point, ?_⟩⟩
      unfold ConcurrentTable.step
      dsimp only
      rw [hpoint]
      dsimp only
      rw [hsection]
  | splitting key value => exact hrUnlock fun _ => by rw [hpoint]; rfl
  | merging => exact hrUnlock fun _ => by rw [hpoint]; rfl
  | served outcome => exact hrUnlock fun _ => by rw [hpoint]; rfl

theorem Orderly.goesOn_writing (h : s.Orderly) (hsound : Sound c s.table)
    (hlatch : s.tableLatch.points t = .writing) : GoesOn c s := by
  have hfits := h.fits t
  rw [hlatch] at hfits
  cases hpoint : s.points t with
  | outside =>
      rw [hpoint] at hfits
      cases hfits
  | called call =>
      rw [hpoint] at hfits
      rcases hfits with heq | heq | ⟨notified, heq⟩
      · cases heq
      · cases heq
      · cases heq
  | directed call pageId =>
      rw [hpoint] at hfits
      cases hfits
  | splitting key value =>
      refine ⟨.rebuild t, by rintro _ _ ⟨⟩, ?_⟩
      have houtcome : Outcome c s.table key (s.table.splitInsert c key value) :=
        hsound.splitInsertLoop key value _ (by unfold directoryArraySize; omega)
      simp only [ConcurrentTable.step, hpoint, hlatch, rebuildSection]
      cases hsplit : s.table.splitInsert c key value with
      | error fault =>
          obtain rfl := houtcome.error fault hsplit
          exact Or.inr rfl
      | ok result => exact Or.inl ⟨_, rfl⟩
  | merging =>
      refine ⟨.rebuild t, by rintro _ _ ⟨⟩, Or.inl
        ⟨{ s with table := s.table.merge c }.setPoint t (.served (.remove true)), ?_⟩⟩
      unfold ConcurrentTable.step
      dsimp only
      rw [hlatch, hpoint]
      rfl
  | served outcome =>
      have hallows : (s.points t).allows (.wUnlock t) := by
        rw [hpoint]
        rfl
      exact goesOn_of_latch (.wUnlock t) hallows ⟨_, if_pos hlatch⟩

theorem Orderly.goesOn (h : s.Orderly) (hsound : Sound c s.table)
    (hfew : Fintype.card T < maxReaders) (hinside : s.points t ≠ .outside) : GoesOn c s := by
  by_cases hlatch : s.tableLatch.points t = .outside
  · exact h.goesOn_outside hinside hlatch
  · obtain ⟨u, hu, hawake⟩ := h.owned.exists_awake hfew h.awake h.attended hlatch
    cases hpoint : s.tableLatch.points u with
    | outside => exact absurd hpoint hu
    | reading => exact h.goesOn_reading hpoint
    | writing => exact h.goesOn_writing hsound hpoint
    | waiting loop notified =>
        cases notified with
        | false => exact absurd hpoint (hawake loop)
        | true =>
            have hallows : (s.points u).allows (.wake u) := by
              cases s.points u <;> rfl
            refine goesOn_of_latch (.wake u) hallows ⟨s.tableLatch.test u loop, ?_⟩
            simp only [LatchSystem.machine, hpoint]

/-- However the threads have come to where they are, as long as one is inside a call, one that
is inside can go on, but for a `SplitInsert` that asks the directory to exceed its array. -/
theorem run_goesOn {events : List (TableEvent T K V)} (hfew : Fintype.card T < maxReaders)
    (hreach : (machine c).Reaches (start c) events s) (hinside : s.points t ≠ .outside) :
    GoesOn c s := by
  obtain ⟨horderly, hsound⟩ : s.Orderly ∧ Sound c s.table := by
    refine hreach.invariant_of_step (fun s => s.Orderly ∧ Sound c s.table) ?_
      ⟨orderly_start c, sound_create c⟩
    rintro state e outcome next ⟨hstate, hbefore⟩ hstep
    cases hsection : state.step c e with
    | error fault =>
        simp only [machine, hsection] at hstep
        cases hstep
    | ok middle =>
        simp only [machine, hsection] at hstep
        cases hstep
        exact ⟨hstate.step hfew hsection, sound_step hbefore hsection⟩
  exact horderly.goesOn hsound hfew hinside

end Progress

/-- `SplitInsert` sleeps behind a reader, which can give the latch back. -/
theorem run_goesOn_splitBehindReader : ∃ s,
    (machine wideTable).Reaches (start wideTable) (splitBehindReader.take 10) s ∧
      s.tableLatch.points true = .waiting .wLockEntered false ∧ GoesOn wideTable s := by
  have hmap : ((machine wideTable).run (start wideTable) (splitBehindReader.take 10)).map
      (fun result => (result.2.tableLatch.points true, (result.2.points true).splitKey?)) =
        .ok (.waiting .wLockEntered false, some 2) := by decide +kernel
  cases hrun : (machine wideTable).run (start wideTable) (splitBehindReader.take 10) with
  | error fault =>
      rw [hrun] at hmap
      cases hmap
  | ok result =>
      obtain ⟨outcomes, s⟩ := result
      rw [hrun] at hmap
      simp only [Except.map, Except.ok.injEq, Prod.mk.injEq] at hmap
      obtain ⟨hasleep, hkey⟩ := hmap
      have hinside : s.points true ≠ .outside := by
        intro heq
        rw [heq] at hkey
        cases hkey
      exact ⟨s, ⟨outcomes, hrun⟩, hasleep,
        run_goesOn card_bool_lt_maxReaders ⟨outcomes, hrun⟩ hinside⟩

end ConcurrentTable

end BusTub
