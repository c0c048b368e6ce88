import BusTub.Hash.TableRuns
import Mathlib.Data.Finset.Image
import Mathlib.Data.Finset.Insert

/-! # The table as a finite set of pairs

A table is a finite set of pairs of a class of equal keys and a value, as long as
no insertion splits a bucket whose local depth lags behind the global depth by two
or more: such a split leaves an entry of the old bucket that its pairs were moved
away from.
-/

namespace BusTub

variable {K V : Type}

/-! ## Pair sets -/

namespace KeyScheme

variable (s : KeyScheme K)

/-- Keys that compare as equal. -/
def setoid : Setoid K := ⟨fun a b => s.cmp a b = 0, s.equality⟩

/-- A class of equal keys. -/
def KeyClass : Type := Quotient s.setoid

def keyClass (key : K) : s.KeyClass := Quotient.mk s.setoid key

instance : DecidableEq s.KeyClass :=
  @Quotient.decidableEq K s.setoid (fun a b => inferInstanceAs (Decidable (s.cmp a b = 0)))

theorem keyClass_eq_iff (key other : K) : s.keyClass key = s.keyClass other ↔ s.cmp key other = 0 :=
  ⟨fun heq => Quotient.exact heq, fun heq => Quotient.sound (s := s.setoid) heq⟩

/-- What a table is for: a finite set of pairs. -/
def pairSet [DecidableEq V] (s : KeyScheme K) :
    Machine (Finset (s.KeyClass × V)) (TableCall K V) (TableOutcome V) TableFault where
  step pairs call :=
    match call with
    | .insert key value =>
        .ok (.insert ((s.keyClass key, value) ∉ pairs), insert (s.keyClass key, value) pairs)
    | .remove key value =>
        .ok (.remove ((s.keyClass key, value) ∈ pairs), pairs.erase (s.keyClass key, value))
    | .getValue key =>
        let values := (pairs.filter (fun pair => pair.1 = s.keyClass key)).image Prod.snd
        .ok (.getValue values.Nonempty values.val, pairs)

end KeyScheme

namespace ExtendibleHashTable

/-! ## The refinement -/

/-- The pair set has the pairs of the table. -/
def Represents (c : TableConfig K V) (t : ExtendibleHashTable K V)
    (pairs : Finset (c.scheme.KeyClass × V)) : Prop :=
  Valid c t ∧ ∀ key value, (c.scheme.keyClass key, value) ∈ pairs ↔ Contains c t key value

section Refinement

variable {c : TableConfig K V} {t final : ExtendibleHashTable K V}
  {pairs : Finset (c.scheme.KeyClass × V)} {success : Bool}

theorem found_getValue (c : TableConfig K V) (t : ExtendibleHashTable K V) (key : K) :
    (t.getValue c key).1 = !(t.getValue c key).2.isEmpty := rfl

theorem represents_create (c : TableConfig K V) : Represents c (create c) ∅ :=
  ⟨valid_create c, fun key value => by simpa using not_contains_create key value⟩

variable [DecidableEq V]

theorem Represents.insert (h : Represents c t pairs) {key : K} {value : V}
    (hresult : InsertResult c t final key value success) :
    success = decide ((c.scheme.keyClass key, value) ∉ pairs) ∧
      Represents c final (Insert.insert (c.scheme.keyClass key, value) pairs) := by
  refine ⟨?_, hresult.valid, fun other value' => ?_⟩
  · rw [Bool.eq_iff_iff, decide_eq_true_eq, hresult.success_iff, h.2]
  · rw [hresult.contains, Finset.mem_insert, Prod.mk.injEq, c.scheme.keyClass_eq_iff, h.2,
      or_comm, eq_comm (a := value)]

theorem Represents.remove (h : Represents c t pairs) {key : K} {value : V}
    (hresult : RemoveResult c t final key value success) :
    success = decide ((c.scheme.keyClass key, value) ∈ pairs) ∧
      Represents c final (pairs.erase (c.scheme.keyClass key, value)) := by
  refine ⟨?_, hresult.valid, fun other value' => ?_⟩
  · rw [Bool.eq_iff_iff, decide_eq_true_eq, hresult.success_iff, h.2]
  · rw [hresult.contains, Finset.mem_erase, ne_eq, Prod.mk.injEq, c.scheme.keyClass_eq_iff, h.2,
      and_comm]

/-- A lookup finds the values of the key, each of them once. -/
theorem Represents.getValue (h : Represents c t pairs) (key : K) :
    (((t.getValue c key).2 : List V) : Multiset V) =
        ((pairs.filter (fun pair => pair.1 = c.scheme.keyClass key)).image Prod.snd).val ∧
      (t.getValue c key).1 =
        decide ((pairs.filter (fun pair => pair.1 = c.scheme.keyClass key)).image Prod.snd).Nonempty
    := by
  obtain ⟨hnodup, hmem⟩ : (t.getValue c key).2.Nodup ∧ ∀ value,
      value ∈ (t.getValue c key).2 ↔ _ := BucketPage.getValue_spec (h.1.bucket_of_key key) key
  rw [found_getValue]
  generalize (t.getValue c key).2 = values at hnodup hmem ⊢
  have hvalues : (⟨(values : Multiset V), hnodup⟩ : Finset V) =
      (pairs.filter (fun pair => pair.1 = c.scheme.keyClass key)).image Prod.snd := by
    ext value
    simp only [Finset.mem_image, Finset.mem_filter]
    refine ((hmem value).trans h.1.contains_iff.symm).trans ?_
    rw [← h.2]
    constructor
    · exact fun hpair => ⟨_, ⟨hpair, rfl⟩, rfl⟩
    · rintro ⟨⟨first, second⟩, ⟨hpair, rfl⟩, rfl⟩
      exact hpair
  refine ⟨congrArg Finset.val hvalues, ?_⟩
  rw [← hvalues]
  cases values with
  | nil => rfl
  | cons head tail =>
      rw [decide_eq_true]
      · rfl
      · exact ⟨head, List.mem_cons_self⟩

/-- A call of the table, unless it asks for too large a directory, is that of the pair set. -/
theorem Represents.step (h : Represents c t pairs) (call : TableCall K V)
    (hclose : CloseSplits c t call) :
    (machine c).step t call = .error .directoryFull ∨
      ∃ outcome next pairs', (machine c).step t call = .ok (outcome, next) ∧
        c.scheme.pairSet.step pairs call = .ok (outcome, pairs') ∧ Represents c next pairs' := by
  cases call with
  | insert key value =>
      rcases h.1.insert_spec key value hclose with hstop | ⟨success, final, hinsert, hresult⟩
      · left
        simp only [machine, hstop]
      · obtain ⟨hsuccess, hrepresents⟩ := h.insert hresult
        right
        refine ⟨.insert success, final, _, ?_, ?_, hrepresents⟩
        · simp only [machine, hinsert]
        · simp only [KeyScheme.pairSet, hsuccess]
  | remove key value =>
      obtain ⟨hsuccess, hrepresents⟩ := h.remove (h.1.remove_spec key value)
      right
      refine ⟨.remove (t.remove c key value).1, _, _, rfl, ?_, hrepresents⟩
      simp only [KeyScheme.pairSet, hsuccess]
  | getValue key =>
      obtain ⟨hvalues, hfound⟩ := h.getValue key
      right
      refine ⟨.getValue (t.getValue c key).1 (t.getValue c key).2, t, pairs, rfl, ?_, h⟩
      simp only [KeyScheme.pairSet, hvalues, hfound]

end Refinement

theorem run_represents [DecidableEq V] (c : TableConfig K V) {calls : List (TableCall K V)}
    (hclose : (machine c).Guarded (CloseSplits c) (create c) calls) :
    (machine c).run (create c) calls = .error .directoryFull ∨
      ∃ outcomes final pairs, (machine c).run (create c) calls = .ok (outcomes, final) ∧
        c.scheme.pairSet.run ∅ calls = .ok (outcomes, pairs) ∧ Represents c final pairs :=
  Machine.run_stops_or_refines (Represents c) (fun _ _ call h hguard => h.step call hguard) hclose
    (represents_create c)

/-- In a run that splits no bucket whose local depth lags by two or more and never asks
for too large a directory, the calls return what they return on a finite set of pairs. -/
theorem run_eq_pairSet [DecidableEq V] (c : TableConfig K V) (calls : List (TableCall K V))
    (hclose : (machine c).Guarded (CloseSplits c) (create c) calls)
    (hfits : (machine c).run (create c) calls ≠ .error .directoryFull) :
    ∃ outcomes final pairs, (machine c).run (create c) calls = .ok (outcomes, final) ∧
      c.scheme.pairSet.run ∅ calls = .ok (outcomes, pairs) ∧
      ∀ key value, (c.scheme.keyClass key, value) ∈ pairs ↔ Contains c final key value := by
  rcases run_represents c hclose with hstop | ⟨outcomes, final, pairs, hrun, hspec, hrepresents⟩
  · exact absurd hstop hfits
  · exact ⟨outcomes, final, pairs, hrun, hspec, hrepresents.2⟩

theorem run_eq_pairSet_growingCalls : ∃ outcomes final pairs,
    (machine intTable).run (create intTable) growingCalls = .ok (outcomes, final) ∧
      intTable.scheme.pairSet.run ∅ growingCalls = .ok (outcomes, pairs) ∧
      ∀ key value, (intTable.scheme.keyClass key, value) ∈ pairs ↔
        Contains intTable final key value := by
  obtain ⟨t, ⟨outcomes, hrun⟩, hguard, -⟩ := reaches_grownTable
  exact run_eq_pairSet intTable growingCalls hguard (by rw [hrun]; nofun)

/-- After the split of a bucket whose local depth lags by two, the key `5` has no value. -/
theorem laggingCalls_run_ne_pairSet : ∃ outcomes final,
    (machine intTable).run (create intTable) (laggingCalls ++ [.getValue 5]) =
        .ok (outcomes, final) ∧
      ∀ pairs, intTable.scheme.pairSet.run ∅ (laggingCalls ++ [.getValue 5]) ≠
        .ok (outcomes, pairs) := by
  obtain ⟨t, ⟨before, hrun⟩, hguard, hvalid, hdirectory, hnext, hfull, hkeys, hcontains⟩ :=
    reaches_laggingTable
  obtain ⟨final, hinsert, hstale, hwell, hlost⟩ :=
    insert_laggingTable hvalid hdirectory hnext hfull hkeys
  -- the calls before the split are those of a pair set
  rcases run_represents intTable hguard with hstop | ⟨outcomes, t', pairs, hrun', hspec, -, hpairs⟩
  · rw [hrun] at hstop
    cases hstop
  rw [hrun] at hrun'
  cases hrun'
  have hpage : keyToPageId intTable 5 final.directory = 2 := by
    rw [hstale]
    decide
  have hnil : (final.getValue intTable 5).2 = [] := by
    have hmem := (BucketPage.getValue_spec hwell 5).2
    rw [← hpage] at hmem hlost
    exact List.eq_nil_iff_forall_not_mem.mpr fun value hvalue =>
      hlost value ((hmem value).mp hvalue)
  have hfound : (final.getValue intTable 5).1 = false := by
    rw [found_getValue, hnil]
    rfl
  have hlast : (machine intTable).run t [.insert 3 0, .getValue 5] =
      .ok ([.insert true, .getValue false 0], final) := by
    simp only [Machine.run, machine, hinsert, hnil, hfound]
    rfl
  have hcalls : laggingCalls ++ [.getValue 5] =
      growingCalls ++ bucketful.map (TableCall.insert 5) ++ [.insert 3 0, .getValue 5] := by
    unfold laggingCalls
    rw [List.append_assoc, List.singleton_append]
  refine ⟨before ++ [.insert true, .getValue false 0], final, ?_, ?_⟩
  · rw [hcalls]
    exact Machine.run_append hrun hlast
  · intro pairs' hspec'
    -- the pair set still has the pair of key `5` and value `0`
    have hmem : (intTable.scheme.keyClass 5, (0 : Int)) ∈ pairs := (hpairs 5 0).mpr hcontains
    obtain ⟨success, values, last, hlast', hvalue⟩ : ∃ success, ∃ values : Finset Int, ∃ last,
        intTable.scheme.pairSet.run pairs [.insert 3 0, .getValue 5] =
          .ok ([.insert success, .getValue values.Nonempty values.val], last) ∧ 0 ∈ values :=
      ⟨_, _, _, rfl, Finset.mem_image.mpr ⟨_, Finset.mem_filter.mpr
        ⟨Finset.mem_insert_of_mem hmem, rfl⟩, rfl⟩⟩
    have hall := Machine.run_append hspec hlast'
    rw [← hcalls, hspec', decide_eq_true (p := values.Nonempty) ⟨0, hvalue⟩] at hall
    simp at hall

end ExtendibleHashTable

end BusTub
