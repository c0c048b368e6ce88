import Mathlib.Data.Finmap
import Mathlib.Tactic.Common

/-! # Lists of keys and values

A list in which every key stands once represents the finite map of its entries. Appending an
entry with a new key, removing one and replacing one in its place are the operations of
that map.
-/

universe u v

variable {K : Type u} {V : Type v} [DecidableEq K]

/-- Every key stands once in the list, with its value in the map. -/
structure List.Represents (l : List (K × V)) (m : Finmap fun _ : K => V) : Prop where
  nodup : (l.map Prod.fst).Nodup
  mem_iff : ∀ key value, (key, value) ∈ l ↔ m.lookup key = some value

namespace List.Represents

variable {l : List (K × V)} {m : Finmap fun _ : K => V} {key : K} {value : V}

theorem nil : ([] : List (K × V)).Represents ∅ where
  nodup := List.nodup_nil
  mem_iff key value := by simp

theorem mem_keys (h : l.Represents m) : key ∈ l.map Prod.fst ↔ key ∈ m := by
  rw [List.mem_map, Finmap.mem_iff]
  constructor
  · rintro ⟨entry, hmem, rfl⟩
    exact ⟨entry.2, (h.mem_iff _ _).mp hmem⟩
  · rintro ⟨value, hvalue⟩
    exact ⟨(key, value), (h.mem_iff _ _).mpr hvalue, rfl⟩

/-- There are as many keys as entries. -/
theorem card_keys (h : l.Represents m) : m.keys.card = l.length := by
  have hkeys : m.keys = (l.map Prod.fst).toFinset := by
    ext key
    rw [Finmap.mem_keys, List.mem_toFinset, h.mem_keys]
  rw [hkeys, List.toFinset_card_of_nodup h.nodup, List.length_map]

/-- Entries with the same key are the same entry. -/
theorem index_eq (h : l.Represents m) {i k : Nat} {first second : K × V}
    (hfirst : l[i]? = some first) (hsecond : l[k]? = some second)
    (hkey : first.1 = second.1) : i = k := by
  obtain ⟨hi, rfl⟩ := List.getElem?_eq_some_iff.mp hfirst
  obtain ⟨hk, rfl⟩ := List.getElem?_eq_some_iff.mp hsecond
  have hi' : i < (l.map Prod.fst).length := by rwa [List.length_map]
  have hk' : k < (l.map Prod.fst).length := by rwa [List.length_map]
  have hsame : (l.map Prod.fst)[i] = (l.map Prod.fst)[k] := by
    rw [List.getElem_map, List.getElem_map, hkey]
  exact h.nodup.getElem_inj_iff.mp hsame

theorem findIdx?_of_notMem (h : l.Represents m) (hkey : key ∉ m) :
    (l.findIdx? fun entry => entry.1 = key) = none := by
  rw [List.findIdx?_eq_none_iff]
  rintro entry hmem
  rw [decide_eq_false_iff_not]
  rintro rfl
  exact hkey (h.mem_keys.mp (List.mem_map_of_mem hmem))

/-- A search for a key of the map ends at its entry. -/
theorem exists_findIdx? (h : l.Represents m) (hkey : key ∈ m) :
    ∃ i value, (l.findIdx? fun entry => entry.1 = key) = some i ∧ l[i]? = some (key, value) := by
  cases hfind : l.findIdx? fun entry => entry.1 = key with
  | none =>
      obtain ⟨entry, hmem, rfl⟩ := List.mem_map.mp (h.mem_keys.mpr hkey)
      have hnot := List.findIdx?_eq_none_iff.mp hfind entry hmem
      rw [decide_eq_false_iff_not] at hnot
      exact absurd rfl hnot
  | some i =>
      obtain ⟨hi, heq, -⟩ := List.findIdx?_eq_some_iff_getElem.mp hfind
      refine ⟨i, l[i].2, rfl, ?_⟩
      rw [List.getElem?_eq_getElem hi, ← of_decide_eq_true heq]

theorem lookup_of_getElem? (h : l.Represents m) {i : Nat} (hget : l[i]? = some (key, value)) :
    m.lookup key = some value :=
  (h.mem_iff key value).mp (List.mem_of_getElem? hget)

theorem append (h : l.Represents m) (hkey : key ∉ m) :
    (l ++ [(key, value)]).Represents (m.insert key value) where
  nodup := by
    rw [List.map_append, List.nodup_append]
    refine ⟨h.nodup, List.nodup_singleton _, ?_⟩
    rintro old hold new hnew rfl
    rw [List.map_singleton, List.mem_singleton] at hnew
    rw [hnew] at hold
    exact hkey (h.mem_keys.mp hold)
  mem_iff other v := by
    rw [List.mem_append, List.mem_singleton]
    by_cases heq : other = key
    · subst heq
      have hnot : (other, v) ∉ l := fun hmem => hkey (h.mem_keys.mp (List.mem_map_of_mem hmem))
      rw [Finmap.lookup_insert]
      simp [hnot, eq_comm]
    · rw [Finmap.lookup_insert_of_ne _ heq, h.mem_iff]
      simp [heq]

theorem eraseIdx (h : l.Represents m) {i : Nat} (hget : l[i]? = some (key, value)) :
    (l.eraseIdx i).Represents (m.erase key) where
  nodup := h.nodup.sublist ((List.eraseIdx_sublist l i).map Prod.fst)
  mem_iff other v := by
    rw [List.mem_eraseIdx_iff_getElem?]
    by_cases heq : other = key
    · subst heq
      rw [Finmap.lookup_erase]
      simp only [reduceCtorEq, iff_false, not_exists, not_and]
      intro k hne hother
      exact hne (h.index_eq hother hget rfl)
    · rw [Finmap.lookup_erase_ne heq, ← h.mem_iff]
      constructor
      · rintro ⟨k, -, hother⟩
        exact List.mem_of_getElem? hother
      · intro hmem
        obtain ⟨k, hother⟩ := List.mem_iff_getElem?.mp hmem
        refine ⟨k, ?_, hother⟩
        rintro rfl
        rw [hget] at hother
        cases hother
        exact heq rfl

theorem set (h : l.Represents m) {i : Nat} {old : V} (hget : l[i]? = some (key, old)) :
    (l.set i (key, value)).Represents (m.insert key value) where
  nodup := by
    obtain ⟨hi, hentry⟩ := List.getElem?_eq_some_iff.mp hget
    have hlt : i < (l.map Prod.fst).length := by rwa [List.length_map]
    have hself := List.set_getElem_self hlt
    rw [List.getElem_map, hentry] at hself
    rw [List.map_set, hself]
    exact h.nodup
  mem_iff other v := by
    obtain ⟨hi, -⟩ := List.getElem?_eq_some_iff.mp hget
    rw [List.mem_iff_getElem?]
    by_cases heq : other = key
    · subst heq
      rw [Finmap.lookup_insert]
      constructor
      · rintro ⟨k, hother⟩
        rw [List.getElem?_set] at hother
        split at hother
        next =>
          cases hother
          rfl
        next hne => exact absurd (h.index_eq hget hother rfl) hne
      · intro hvalue
        refine ⟨i, ?_⟩
        rw [List.getElem?_set_self hi, Option.some.inj hvalue]
    · rw [Finmap.lookup_insert_of_ne _ heq, ← h.mem_iff, List.mem_iff_getElem?]
      refine exists_congr fun k => ?_
      rw [List.getElem?_set]
      split
      next hk =>
        subst hk
        rw [hget]
        simp [Ne.symm heq]
      next => rfl

end List.Represents
