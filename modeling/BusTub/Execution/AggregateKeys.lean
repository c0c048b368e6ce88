import BusTub.Execution.AggregateTables

/-! # The groups of an aggregation

A key with a NULL or a NaN is not equal to itself: the entry that was made for it is not
found again, and the aggregates of the other one that `operator[]` makes are empty. Without
such keys, and without equal keys of different hashes, there is one group for each class.
-/

namespace BusTub

open SimpleAggregationHashTable

namespace GroupingExecutor

section Groups

variable [DoubleText]

/-- The keys of the groups: one for each class of the keys of the rows. -/
structure OneGroupEach (plan : GroupingPlanNode) (rows : List Tuple) (keys : List (List Value)) :
    Prop where
  apart : keys.Pairwise fun key key' => ¬ KeysAgree key key'
  covers : ∀ row ∈ rows, ∃ key ∈ keys, KeysAgree key (rowKey plan row)
  ofRows : ∀ key ∈ keys, ∃ row ∈ rows, key = rowKey plan row

theorem keysAgree_refl (key : List Value) : KeysAgree key key :=
  List.forall₂_same.mpr fun _ _ => Or.inr (Or.inl rfl)

theorem sameKeys_self_iff {types : List TypeId} {key : List Value} (h : KeyOfTypes types key) :
    sameKeys key key = true ↔ DefiniteKey key := by
  rw [sameKeys_iff h h, and_iff_right rfl]
  exact and_iff_left (keysAgree_refl key)

/-- Of keys that do not agree, two that do are one. -/
theorem eq_of_keysAgree {types : List TypeId} {keys : List (List Value)} {key key' : List Value}
    (hapart : keys.Pairwise fun key key' => ¬ KeysAgree key key')
    (htypes : ∀ key ∈ keys, KeyOfTypes types key) (hkey : key ∈ keys) (hkey' : key' ∈ keys)
    (h : KeysAgree key key') : key = key' := by
  have hclasses : (keys.map (List.map Value.agreementClass)).Nodup := by
    unfold List.Nodup
    rw [List.pairwise_map]
    apply hapart.imp_of_mem
    intro first second hfirst hsecond hne heq
    exact hne ((keysAgree_iff (htypes first hfirst) (htypes second hsecond)).mpr heq)
  apply List.inj_on_of_nodup_map hclasses hkey hkey'
  exact (keysAgree_iff (htypes key hkey) (htypes key' hkey')).mp h

end Groups

variable [DoubleText] [DoubleArithmetic]

/-- What a row needs to find its group: its key is equal to itself, and unless its values cannot
be combined at all, the keys in the table that agree with it have its hash. -/
def Resolves (plan : GroupingPlanNode) (aht : List (KeyedEntry (List Value))) (row : Tuple) :
    Prop :=
  DefiniteKey (rowKey plan row) ∧
    ((combineAggregateValues plan.aggTypes (rowValues plan row)
        (generateInitialAggregateValue plan.aggTypes)).isOk = true →
      ∀ entry ∈ aht, KeysAgree entry.key (rowKey plan row) →
        hashOfKey entry.key = hashOfKey (rowKey plan row))

instance (plan : GroupingPlanNode) (aht : List (KeyedEntry (List Value))) (row : Tuple) :
    Decidable (Resolves plan aht row) :=
  inferInstanceAs (Decidable (_ ∧ _))

/-- What the rows that resolved leave behind. -/
structure Grouped (plan : GroupingPlanNode) (done : List Tuple)
    (aht : List (KeyedEntry (List Value))) : Prop where
  keyed : KeyedEntry.Keyed (keyTypes plan) aht
  lengths : ∀ entry ∈ aht, entry.value.length = plan.aggTypes.length
  groups : OneGroupEach plan done (aht.map KeyedEntry.key)

variable {plan : GroupingPlanNode} {done rows : List Tuple} {row : Tuple}
  {aht before after : List (KeyedEntry (List Value))} {entry : KeyedEntry (List Value)}
  {value : List Value}

omit [DoubleArithmetic] in
theorem Grouped.keyOfTypes (h : Grouped plan done aht) :
    ∀ key ∈ aht.map KeyedEntry.key, KeyOfTypes (keyTypes plan) key := by
  intro key hmem
  obtain ⟨entry, hentry, rfl⟩ := List.mem_map.mp hmem
  exact (h.keyed entry hentry).2

omit [DoubleArithmetic] in
/-- A row of a group that there is. -/
theorem Grouped.found (h : Grouped plan done (before ++ entry :: after)) (hrow : Readable plan row)
    (hsame : sameKeys (rowKey plan row) entry.key = true)
    (hlength : value.length = plan.aggTypes.length) :
    Grouped plan (done ++ [row]) (before ++ { entry with value } :: after) := by
  have hmem : entry ∈ before ++ entry :: after := List.mem_append_right before List.mem_cons_self
  have hkeys : (before ++ { entry with value } :: after).map KeyedEntry.key =
      (before ++ entry :: after).map KeyedEntry.key := by
    rw [List.map_append, List.map_append, List.map_cons, List.map_cons]
  have hentry := h.keyed entry hmem
  have hkeyed := List.forall_mem_append.mp h.keyed
  have hlengths := List.forall_mem_append.mp h.lengths
  refine ⟨?_, ?_, ?_⟩
  · exact List.forall_mem_append.mpr ⟨hkeyed.1,
      List.forall_mem_cons.mpr ⟨hentry, (List.forall_mem_cons.mp hkeyed.2).2⟩⟩
  · exact List.forall_mem_append.mpr ⟨hlengths.1,
      List.forall_mem_cons.mpr ⟨hlength, (List.forall_mem_cons.mp hlengths.2).2⟩⟩
  · rw [hkeys]
    refine ⟨h.groups.apart, ?_, ?_⟩
    · rw [List.forall_mem_append, List.forall_mem_singleton]
      refine ⟨h.groups.covers, entry.key, ?_, ?_⟩
      · exact List.mem_map_of_mem hmem
      · have hkey := keyOfTypes_rowKey hrow
        have hagree := ((sameKeys_iff hkey hentry.2).mp hsame).2.2
        exact (keysAgree_iff hentry.2 hkey).mpr ((keysAgree_iff hkey hentry.2).mp hagree).symm
    · intro key hkey
      obtain ⟨other, hother, heq⟩ := h.groups.ofRows key hkey
      exact ⟨other, List.mem_append_left _ hother, heq⟩

omit [DoubleArithmetic] in
/-- A row of a new group. -/
theorem Grouped.new (h : Grouped plan done aht) (hrow : Readable plan row)
    (hnew : ∀ entry ∈ aht, ¬ KeysAgree entry.key (rowKey plan row))
    (hlength : value.length = plan.aggTypes.length) :
    Grouped plan (done ++ [row]) (aht ++ [newEntry (rowKey plan row) value]) := by
  refine ⟨?_, ?_, ?_⟩
  · exact List.forall_mem_append.mpr
      ⟨h.keyed, List.forall_mem_singleton.mpr ⟨rfl, keyOfTypes_rowKey hrow⟩⟩
  · exact List.forall_mem_append.mpr ⟨h.lengths, List.forall_mem_singleton.mpr hlength⟩
  · rw [List.map_append, List.map_singleton]
    refine ⟨?_, ?_, ?_⟩
    · rw [List.pairwise_append]
      refine ⟨h.groups.apart, List.pairwise_singleton _ _, ?_⟩
      intro key hkey key' hkey'
      obtain ⟨entry, hentry, rfl⟩ := List.mem_map.mp hkey
      rw [List.mem_singleton.mp hkey']
      exact hnew entry hentry
    · rw [List.forall_mem_append, List.forall_mem_singleton]
      constructor
      · intro other hother
        obtain ⟨key, hkey, hagree⟩ := h.groups.covers other hother
        exact ⟨key, List.mem_append_left _ hkey, hagree⟩
      · exact ⟨rowKey plan row, List.mem_append_right _ List.mem_cons_self, keysAgree_refl _⟩
    · rw [List.forall_mem_append, List.forall_mem_singleton]
      constructor
      · intro key hkey
        obtain ⟨other, hother, heq⟩ := h.groups.ofRows key hkey
        exact ⟨other, List.mem_append_left _ hother, heq⟩
      · exact ⟨row, List.mem_append_right done List.mem_cons_self, rfl⟩

/-- The fault is not that of an index beyond the end of a vector. -/
def InBounds (fault : PlanFault) : Prop := fault ≠ .eval .noSuchEntry

/-- The run ends in bounds, with one group for each class. -/
def GroupsWell (plan : GroupingPlanNode) (rows : List Tuple) : Prop :=
  (table plan).EndsWell InBounds (fun rows aht => OneGroupEach plan rows (aht.map KeyedEntry.key))
    [] rows

/-- A row that resolves finds its group or makes it. -/
theorem Grouped.step_of_resolves (hstod : Value.StodThrows)
    (hlength : plan.aggregates.length = plan.aggTypes.length) (h : Grouped plan done aht)
    (hrow : Readable plan row) (hresolves : Resolves plan aht row) :
    (table plan).StepEnds InBounds (Grouped plan (done ++ [row])) aht row := by
  have hkey := keyOfTypes_rowKey hrow
  have hvalues := (length_rowValues hrow).trans hlength
  unfold Machine.StepEnds
  rw [table_step hrow]
  rcases KeyedEntry.found_or_none (rowKey plan row) aht with
    ⟨before, entry, after, rfl, hbefore, hsame⟩ | hnone
  · -- the row joins the group of the entry that is found
    have hentry := h.lengths entry (List.mem_append_right before List.mem_cons_self)
    have hinside := staysInside_combineAggregateValues hstod hvalues hentry
    rw [insertCombine_found hkey h.keyed hbefore hsame]
    cases hcombine : combineAggregateValues plan.aggTypes (rowValues plan row) entry.value with
    | error fault =>
        rw [hcombine] at hinside
        intro heq
        cases heq
        exact hinside rfl
    | ok value => exact h.found hrow hsame (length_combineAggregateValues hvalues hentry hcombine)
  · -- the row starts a group of its own
    have hself := (sameKeys_self_iff hkey).mpr hresolves.1
    have hinitial := length_generateInitialAggregateValue plan.aggTypes
    have hinside := staysInside_combineAggregateValues hstod hvalues hinitial
    rw [insertCombine_new hkey h.keyed hnone hself]
    cases hcombine : combineAggregateValues plan.aggTypes (rowValues plan row)
        (generateInitialAggregateValue plan.aggTypes) with
    | error fault =>
        rw [hcombine] at hinside
        intro heq
        cases heq
        exact hinside rfl
    | ok value =>
        refine h.new hrow ?_ (length_combineAggregateValues hvalues hinitial hcombine)
        intro entry hentry hagree
        have hentryKey := (h.keyed entry hentry).2
        -- an entry of the same key would have its hash and would have been found
        have hhash := hresolves.2 (by rw [hcombine]; rfl) entry hentry hagree
        have hfound : sameKeys (rowKey plan row) entry.key = true := by
          refine (sameKeys_iff hkey hentryKey).mpr ⟨hhash, hresolves.1, ?_⟩
          exact (keysAgree_iff hkey hentryKey).mpr ((keysAgree_iff hentryKey hkey).mp hagree).symm
        rw [hnone entry hentry] at hfound
        cases hfound

/-- A row that does not resolve indexes beyond the end, or makes a group twice. -/
theorem Grouped.step_of_not_resolves (hlength : plan.aggregates.length = plan.aggTypes.length)
    (h : Grouped plan done aht) (hrow : Readable plan row) (hresolves : ¬ Resolves plan aht row) :
    (table plan).StepEnds (fun fault => ¬ InBounds fault)
      (fun next => ¬ OneGroupEach plan (done ++ [row]) (next.map KeyedEntry.key)) aht row := by
  have hkey := keyOfTypes_rowKey hrow
  have hvalues := (length_rowValues hrow).trans hlength
  unfold Machine.StepEnds
  rw [table_step hrow]
  by_cases hdefinite : DefiniteKey (rowKey plan row)
  · -- what is missing is an entry of the same key under another hash
    have hunmet : (combineAggregateValues plan.aggTypes (rowValues plan row)
        (generateInitialAggregateValue plan.aggTypes)).isOk = true ∧
        ∃ entry ∈ aht, KeysAgree entry.key (rowKey plan row) ∧
          hashOfKey entry.key ≠ hashOfKey (rowKey plan row) := by
      by_contra hcon
      apply hresolves
      refine ⟨hdefinite, ?_⟩
      intro hok entry hentry hagree
      by_contra hhash
      exact hcon ⟨hok, entry, hentry, hagree, hhash⟩
    obtain ⟨hok, entry, hentry, hagree, hhash⟩ := hunmet
    have hentryKey := (h.keyed entry hentry).2
    rcases KeyedEntry.found_or_none (rowKey plan row) aht with
      ⟨before, found, after, rfl, hbefore, hsame⟩ | hnone
    · -- The entry that is found agrees with the other one, so that it is that one.
      have hfound : found ∈ before ++ found :: after :=
        List.mem_append_right before List.mem_cons_self
      have hfoundKey := (h.keyed found hfound).2
      obtain ⟨hfoundHash, -, hfoundAgree⟩ := (sameKeys_iff hkey hfoundKey).mp hsame
      have hboth : KeysAgree entry.key found.key :=
        (keysAgree_iff hentryKey hfoundKey).mpr (((keysAgree_iff hentryKey hkey).mp hagree).trans
          ((keysAgree_iff hkey hfoundKey).mp hfoundAgree))
      have heq := eq_of_keysAgree h.groups.apart h.keyOfTypes (List.mem_map_of_mem hentry)
        (List.mem_map_of_mem hfound) hboth
      rw [← heq] at hfoundHash
      exact absurd hfoundHash hhash
    · rw [insertCombine_new hkey h.keyed hnone ((sameKeys_self_iff hkey).mpr hdefinite)]
      cases hcombine : combineAggregateValues plan.aggTypes (rowValues plan row)
          (generateInitialAggregateValue plan.aggTypes) with
      | error fault =>
          rw [hcombine] at hok
          cases hok
      | ok value =>
          -- the new entry and the old one stand for one group
          intro hgroups
          have hapart := hgroups.apart
          rw [List.map_append, List.pairwise_append] at hapart
          exact hapart.2.2 entry.key (List.mem_map_of_mem hentry) (rowKey plan row)
            List.mem_cons_self hagree
  · -- a key with a null equals no key, not even itself
    have hnone : ∀ other ∈ aht, sameKeys (rowKey plan row) other.key = false := by
      intro other hother
      rw [← Bool.not_eq_true, sameKeys_iff hkey (h.keyed other hother).2]
      exact fun hsame => hdefinite hsame.2.1
    have hself : sameKeys (rowKey plan row) (rowKey plan row) = false := by
      rw [← Bool.not_eq_true, sameKeys_self_iff hkey]
      exact hdefinite
    rw [insertCombine_unequal hkey h.keyed hnone hself]
    cases haggTypes : plan.aggTypes with
    | nil =>
        rw [haggTypes] at hvalues
        rw [List.length_eq_zero_iff.mp hvalues]
        intro hgroups
        have hapart := hgroups.apart
        rw [List.map_append, List.pairwise_append] at hapart
        refine hapart.2.2 (rowKey plan row) ?_ (rowKey plan row) List.mem_cons_self
          (keysAgree_refl _)
        rw [List.map_append]
        exact List.mem_append_right _ List.mem_cons_self
    | cons aggType aggTypes =>
        rw [haggTypes] at hvalues
        obtain ⟨first, rest, hrest⟩ := List.exists_cons_of_length_eq_add_one hvalues
        -- `ht_[agg_key]` enters an empty value, and its first aggregate is read past its end
        rw [hrest, combineAggregateValues_nil]
        exact fun hbounds => hbounds rfl

/-- All runs over the rows up to some row end in bounds and with one group for each class
exactly when every row that is taken resolves. -/
theorem groupsWell_iff (hstod : Value.StodThrows)
    (hlength : plan.aggregates.length = plan.aggTypes.length)
    (hrows : ∀ row ∈ rows, Readable plan row) :
    (∀ before, before <+: rows → GroupsWell plan before) ↔
      (table plan).Guarded (Resolves plan) [] rows := by
  have hnone : ∀ {α : Type} {P : α → Prop}, ∀ a ∈ ([] : List α), P a :=
    fun a hmem => absurd hmem List.not_mem_nil
  apply Machine.endsWell_prefixes_iff (Grouped plan)
  · exact fun done aht h => h.groups
  · exact fun done aht row h hrow hresolves => h.step_of_resolves hstod hlength hrow hresolves
  · exact fun done aht row h hrow hresolves => h.step_of_not_resolves hlength hrow hresolves
  · exact hrows
  · exact ⟨hnone, hnone, ⟨List.Pairwise.nil, hnone, hnone⟩⟩

omit [DoubleText] [DoubleArithmetic]

/-- The count of the rows of one INTEGER column by that column. -/
def countPlan : GroupingPlanNode where
  outputSchema := ⟨[]⟩
  having := none
  childSchema := ⟨[⟨"n", .integer, none⟩]⟩
  groupBys := [.columnValue 0 0]
  aggregates := [.columnValue 0 0]
  aggTypes := [.countAggregate]

/-- The rows `5`, `7` and `5` resolve. -/
theorem groupsWell_iff_fiveSevenFive :
    let _ := noDoubleText
    let _ := noDoubleArithmetic
    let rows : List Tuple := [[5, 0, 0, 0], [7, 0, 0, 0], [5, 0, 0, 0]]
    (∀ before, before <+: rows → GroupsWell countPlan before) ∧
      (table countPlan).run [] rows = .ok ([(), (), ()],
        [newEntry [.integer 5] [.integer 2], newEntry [.integer 7] [.integer 1]]) := by
  intro _ _ rows
  have hstod : Value.StodThrows := by
    intro str fault h
    cases h
    exact Or.inl rfl
  have hreadable : ∀ row n, keyOf countPlan row = .ok [.integer n] →
      valuesOf countPlan row = .ok [.integer n] → Readable countPlan row := by
    intro row n hkey hvalues
    apply readable_of_ok hkey hvalues
    exact List.forall_mem_singleton.mpr
      (Value.terminated_of_getTypeId (TypeId.noConfusion : TypeId.integer ≠ .varchar))
  refine ⟨(groupsWell_iff hstod rfl ?_).mpr (by decide), by decide⟩
  rw [List.forall_mem_cons, List.forall_mem_cons, List.forall_mem_singleton]
  exact ⟨hreadable _ 5 rfl rfl, hreadable _ 7 rfl rfl, hreadable _ 5 rfl rfl⟩

/-- A row that is NULL is counted in a vector that has no element. -/
theorem nullRow_not_groupsWell :
    let _ := noDoubleText
    let _ := noDoubleArithmetic
    keyOf countPlan [0, 0, 0, 128] = .ok [.integer Int32.minValue] ∧
      (table countPlan).run [] [[0, 0, 0, 128]] = .error (.eval .noSuchEntry) ∧
      ¬ GroupsWell countPlan [[0, 0, 0, 128]] := by
  intro _ _
  have hrun : (table countPlan).run [] [[0, 0, 0, 128]] = .error (.eval .noSuchEntry) := by
    decide
  refine ⟨by decide, hrun, ?_⟩
  intro h
  exact h.fault _ hrun rfl

end GroupingExecutor

end BusTub
