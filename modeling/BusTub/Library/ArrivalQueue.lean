import Mathlib.Data.List.Basic
import Mathlib.Data.List.Nodup
import Mathlib.Data.Nat.Find
import Mathlib.Order.Bounds.Basic
import Mathlib.Tactic.Common

/-! # Queues in order of arrival

A log says which key arrived and which one left. A key that arrives again while it is there keeps
its place; one that arrives after it has left gets a new one. A queue is in the order of the log
when it has the keys that are there, each once, and the one that came first at its end.
-/

universe u

/-- A key arrives, or leaves. -/
inductive Arrival (α : Type u) where
  | arrives (key : α)
  | leaves (key : α)
  deriving DecidableEq, Repr

namespace ArrivalQueue

variable {α : Type u} {log : List (Arrival α)} {queue rest : List α} {key other : α} {t : Nat}

/-- The times at which the key arrived and since which it has not left. -/
def Arrivals (log : List (Arrival α)) (key : α) : Set Nat :=
  {t | log[t]? = some (.arrives key) ∧ ∀ u, t < u → log[u]? ≠ some (.leaves key)}

/-- The key arrived first at this time, since it left last. -/
def Since (log : List (Arrival α)) (key : α) (t : Nat) : Prop := IsLeast (Arrivals log key) t

/-- The key has arrived and not left. -/
def Present (log : List (Arrival α)) (key : α) : Prop := ∃ t, Since log key t

theorem present_iff_nonempty : Present log key ↔ (Arrivals log key).Nonempty := by
  classical
  constructor
  · rintro ⟨t, hleast⟩
    exact ⟨t, hleast.1⟩
  · intro hnonempty
    have hexists : ∃ t, t ∈ Arrivals log key := hnonempty
    exact ⟨Nat.find hexists, Nat.find_spec hexists, fun u hu => Nat.find_min' hexists hu⟩

/-! ## One more entry -/

theorem lt_of_mem_arrivals (h : t ∈ Arrivals log key) : t < log.length :=
  (List.getElem?_eq_some_iff.mp h.1).1

theorem getElem?_append_singleton {entry e : Arrival α} :
    (log ++ [entry])[t]? = some e ↔ log[t]? = some e ∨ t = log.length ∧ entry = e := by
  rcases Nat.lt_trichotomy t log.length with hlt | rfl | hgt
  · rw [List.getElem?_append_left hlt, or_iff_left fun hlast => hlt.ne hlast.1]
  · rw [List.getElem?_append_right le_rfl, Nat.sub_self, List.getElem?_eq_none le_rfl]
    simp
  · have hlength : (log ++ [entry]).length ≤ t := by
      rw [List.length_append, List.length_singleton]
      exact hgt
    rw [List.getElem?_eq_none hgt.le, List.getElem?_eq_none hlength,
      or_iff_left fun hlast => hgt.ne' hlast.1]

theorem arrivals_append_arrives (log : List (Arrival α)) (key : α) :
    Arrivals (log ++ [.arrives key]) key = insert log.length (Arrivals log key) := by
  ext t
  have hleaves : ∀ u : Nat, (log ++ [Arrival.arrives key])[u]? ≠ some (Arrival.leaves key) ↔
      log[u]? ≠ some (Arrival.leaves key) := by
    intro u
    rw [ne_eq, getElem?_append_singleton, or_iff_left fun hlast => nomatch hlast.2]
  unfold Arrivals
  simp only [hleaves, getElem?_append_singleton, and_true, Set.mem_ofPred_eq, Set.mem_insert_iff]
  constructor
  · rintro ⟨hat | hat, hlater⟩
    · exact Or.inr ⟨hat, hlater⟩
    · exact Or.inl hat
  · rintro (rfl | ⟨hat, hlater⟩)
    · refine ⟨Or.inr rfl, fun u hu => ?_⟩
      rw [List.getElem?_eq_none hu.le]
      nofun
    · exact ⟨Or.inl hat, hlater⟩

theorem arrivals_append_leaves (log : List (Arrival α)) (key : α) :
    Arrivals (log ++ [.leaves key]) key = ∅ := by
  ext t
  refine iff_of_false ?_ (Set.notMem_empty t)
  rintro ⟨hat, hlater⟩
  rcases getElem?_append_singleton.mp hat with hbefore | ⟨-, hlast⟩
  · apply hlater log.length (List.getElem?_eq_some_iff.mp hbefore).1
    exact getElem?_append_singleton.mpr (Or.inr ⟨rfl, rfl⟩)
  · cases hlast

/-- Other keys are not concerned. -/
theorem arrivals_append_of_ne {entry : Arrival α} (harrives : entry ≠ .arrives key)
    (hleaves : entry ≠ .leaves key) : Arrivals (log ++ [entry]) key = Arrivals log key := by
  ext t
  unfold Arrivals
  simp only [ne_eq, getElem?_append_singleton, harrives, hleaves, and_false, or_false]

/-! ## The order of the queue -/

/-- The queue has the keys that are there, each once, and each before those that came earlier. -/
structure Orders (log : List (Arrival α)) (queue : List α) : Prop where
  nodup : queue.Nodup
  mem : ∀ key, key ∈ queue ↔ Present log key
  later : queue.Pairwise fun key other => ∀ t u, Since log key t → Since log other u → u < t

theorem orders_nil : Orders ([] : List (Arrival α)) [] where
  nodup := List.nodup_nil
  mem key := by
    rw [present_iff_nonempty]
    refine iff_of_false List.not_mem_nil ?_
    rintro ⟨t, hat, -⟩
    cases hat
  later := List.Pairwise.nil

/-- What is said of the order depends on the arrivals of the keys in the queue only. -/
theorem Orders.later_congr {next : List (Arrival α)} (h : Orders log queue)
    (hsame : ∀ key ∈ queue, ∀ t, Since next key t → Since log key t) :
    queue.Pairwise fun key other => ∀ t u, Since next key t → Since next other u → u < t := by
  refine h.later.imp_of_mem fun {key other} hkey hother hlater t u ht hu => ?_
  exact hlater t u (hsame key hkey t ht) (hsame other hother u hu)

/-- A key that is not there goes to the front. -/
theorem Orders.arrive (h : Orders log queue) (hkey : key ∉ queue) :
    Orders (log ++ [.arrives key]) (key :: queue) := by
  have hempty : Arrivals log key = ∅ := by
    rw [← Set.not_nonempty_iff_eq_empty, ← present_iff_nonempty, ← h.mem]
    exact hkey
  have hself : ∀ t, Since (log ++ [.arrives key]) key t ↔ t = log.length := by
    intro t
    unfold Since
    rw [arrivals_append_arrives, hempty, insert_empty_eq]
    exact ⟨fun hleast => hleast.1, fun heq => heq ▸ isLeast_singleton⟩
  have hother : ∀ other, other ≠ key → ∀ t,
      Since (log ++ [.arrives key]) other t ↔ Since log other t := by
    intro other hne t
    unfold Since
    rw [arrivals_append_of_ne (fun heq => hne (Arrival.arrives.inj heq).symm) nofun]
  refine ⟨List.nodup_cons.mpr ⟨hkey, h.nodup⟩, fun other => ?_, List.pairwise_cons.mpr ⟨?_, ?_⟩⟩
  · rw [List.mem_cons]
    unfold Present
    by_cases hne : other = key
    · subst hne
      simp only [hself, exists_eq, true_or]
    · simp only [hother other hne, hne, false_or]
      exact h.mem other
  · intro other hmem t u ht hu
    have hne : other ≠ key := fun heq => hkey (heq ▸ hmem)
    rw [hself] at ht
    rw [hother other hne] at hu
    exact ht ▸ lt_of_mem_arrivals hu.1
  · refine h.later_congr fun other hmem t => ?_
    exact (hother other (fun heq => hkey (heq ▸ hmem)) t).mp

/-- A key that is there keeps its place. -/
theorem Orders.arrive_again (h : Orders log queue) (hkey : key ∈ queue) :
    Orders (log ++ [.arrives key]) queue := by
  have hsame : ∀ other t, Since (log ++ [.arrives key]) other t ↔ Since log other t := by
    intro other t
    unfold Since
    by_cases hne : other = key
    · subst hne
      obtain ⟨first, hfirst⟩ := (h.mem other).mp hkey
      rw [arrivals_append_arrives]
      have hadd : IsLeast (insert log.length (Arrivals log other)) first := by
        refine ⟨Or.inr hfirst.1, ?_⟩
        rintro u (rfl | hu)
        · exact (lt_of_mem_arrivals hfirst.1).le
        · exact hfirst.2 hu
      constructor
      · exact fun hleast => hadd.unique hleast ▸ hfirst
      · exact fun hleast => hfirst.unique hleast ▸ hadd
    · rw [arrivals_append_of_ne (fun heq => hne (Arrival.arrives.inj heq).symm) nofun]
  refine ⟨h.nodup, fun other => ?_, h.later_congr fun other _ t => (hsame other t).mp⟩
  unfold Present
  simp only [hsame]
  exact h.mem other

/-- A key leaves its place to nobody. -/
theorem Orders.leave (h : Orders log queue) (hsub : rest.Sublist queue)
    (hrest : ∀ other, other ∈ rest ↔ other ∈ queue ∧ other ≠ key) :
    Orders (log ++ [.leaves key]) rest := by
  have hother : ∀ other, other ≠ key → ∀ t,
      Since (log ++ [.leaves key]) other t ↔ Since log other t := by
    intro other hne t
    unfold Since
    have harrives : Arrival.leaves key ≠ .arrives other := nofun
    have hleaves : Arrival.leaves key ≠ .leaves other := fun heq => hne (Arrival.leaves.inj heq).symm
    rw [arrivals_append_of_ne harrives hleaves]
  refine ⟨h.nodup.sublist hsub, fun other => ?_, ?_⟩
  · rw [hrest]
    by_cases hne : other = key
    · subst hne
      rw [present_iff_nonempty, arrivals_append_leaves]
      exact iff_of_false (fun hboth => hboth.2 rfl) Set.not_nonempty_empty
    · rw [and_iff_left hne]
      unfold Present
      simp only [hother other hne]
      exact h.mem other
  · refine (h.later.sublist hsub).imp_of_mem fun {one two} hone htwo hlater t u ht hu => ?_
    exact hlater t u ((hother one ((hrest one).mp hone).2 t).mp ht)
      ((hother two ((hrest two).mp htwo).2 u).mp hu)

/-- The key at the end of the queue has been there longest. -/
theorem Orders.getLast (h : Orders log queue) (hlast : queue.getLast? = some key) :
    ∃ t, Since log key t ∧ ∀ other u, Since log other u → t ≤ u := by
  have hsplit : queue = queue.dropLast ++ [key] := (List.dropLast_append_getLast? key hlast).symm
  obtain ⟨t, ht⟩ := (h.mem key).mp (List.mem_of_getLast? hlast)
  have hlater := h.later
  rw [hsplit, List.pairwise_append] at hlater
  refine ⟨t, ht, fun other u hu => ?_⟩
  have hmem := (h.mem other).mpr ⟨u, hu⟩
  rw [hsplit, List.mem_append, List.mem_singleton] at hmem
  rcases hmem with hbefore | rfl
  · exact (hlater.2.2 other hbefore key (List.mem_singleton_self key) u t hu ht).le
  · exact (ht.unique hu).le

end ArrivalQueue
