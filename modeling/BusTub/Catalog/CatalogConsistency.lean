import BusTub.Catalog.ObjectIds
import Mathlib.Data.List.Nodup
import Mathlib.Data.Nat.Digits.Lemmas

/-! # Catalogs agree until the object ids wrap around

Every creation keeps the maps in agreement as long as the counter it takes the id from has
not come around. The table after the last id gets the id of the first one, and its name
leads to the first one's metadata.
-/

namespace BusTub.CatalogMaps

variable {τ κ : Type} {maps next : CatalogMaps τ κ}

/-! ## What a creation does -/

theorem createTable_ok {tableName : String} {content : Option τ} {info : Option (TableEntry τ)}
    (h : maps.createTable tableName content = .ok (info, next)) :
    (info = none ∧ next = maps ∧ (maps.tableNames tableName).isSome) ∨
      ∃ made, maps.tableNames tableName = none ∧
        info = some { name := tableName, content := made, oid := maps.nextTableOid } ∧
        next = maps.addTable tableName made := by
  unfold createTable at h
  split at h
  next oid hname =>
    cases h
    exact Or.inl ⟨rfl, rfl, by rw [hname]; rfl⟩
  next hname =>
    split at h
    · cases h
    next made =>
      cases h
      exact Or.inr ⟨made, hname, rfl, rfl⟩

theorem createIndex_ok {indexName tableName : String} {construct : TableEntry τ → Option κ}
    {info : Option (IndexEntry κ)}
    (h : maps.createIndex indexName tableName construct = .ok (info, next)) :
    (info = none ∧ next = maps ∧ (maps.tableNames tableName = none ∨
      ∃ tableIndexes, maps.indexNames tableName = some tableIndexes ∧
        tableIndexes.lookup indexName ≠ none)) ∨
      ∃ made tableIndexes, (maps.tableNames tableName).isSome ∧
        maps.indexNames tableName = some tableIndexes ∧ tableIndexes.lookup indexName = none ∧
        info = some { content := made, name := indexName, indexOid := maps.nextIndexOid, tableName } ∧
        next = maps.addIndex indexName tableName tableIndexes made := by
  unfold createIndex at h
  split at h
  next hname =>
    cases h
    exact Or.inl ⟨rfl, rfl, Or.inl hname⟩
  next oid hname =>
    split at h
    · cases h
    next tableIndexes hindexes =>
      split at h
      next old hlookup =>
        cases h
        exact Or.inl ⟨rfl, rfl, Or.inr ⟨tableIndexes, hindexes, by rw [hlookup]; nofun⟩⟩
      next hlookup =>
        split at h
        · cases h
        · cases h
        next tableMeta hmeta =>
          split at h
          · cases h
          next made hmade =>
            cases h
            exact Or.inr ⟨made, tableIndexes, by rw [hname]; rfl, hindexes, hlookup, rfl, rfl⟩

theorem step_createTable_ok {tableName : String} {content : Option τ}
    {outcome : CreationOutcome τ κ}
    (h : machine.step maps (.createTable tableName content) = .ok (outcome, next)) :
    (outcome = .table none ∧ next = maps ∧ (maps.tableNames tableName).isSome) ∨
      ∃ made, maps.tableNames tableName = none ∧
        outcome = .table (some { name := tableName, content := made, oid := maps.nextTableOid }) ∧
        next = maps.addTable tableName made := by
  cases hcreate : maps.createTable tableName content with
  | error fault =>
      simp only [machine, hcreate, Except.map] at h
      cases h
  | ok result =>
      obtain ⟨info, after⟩ := result
      simp only [machine, hcreate, Except.map] at h
      cases h
      rcases createTable_ok hcreate with ⟨rfl, hsame, hname⟩ | ⟨made, hname, rfl, hnext⟩
      · exact Or.inl ⟨rfl, hsame, hname⟩
      · exact Or.inr ⟨made, hname, rfl, hnext⟩

theorem step_createIndex_ok {indexName tableName : String} {construct : TableEntry τ → Option κ}
    {outcome : CreationOutcome τ κ}
    (h : machine.step maps (.createIndex indexName tableName construct) = .ok (outcome, next)) :
    (outcome = .index none ∧ next = maps ∧ (maps.tableNames tableName = none ∨
      ∃ tableIndexes, maps.indexNames tableName = some tableIndexes ∧
        tableIndexes.lookup indexName ≠ none)) ∨
      ∃ made tableIndexes, (maps.tableNames tableName).isSome ∧
        maps.indexNames tableName = some tableIndexes ∧ tableIndexes.lookup indexName = none ∧
        outcome = .index
          (some { content := made, name := indexName, indexOid := maps.nextIndexOid, tableName }) ∧
        next = maps.addIndex indexName tableName tableIndexes made := by
  cases hcreate : maps.createIndex indexName tableName construct with
  | error fault =>
      simp only [machine, hcreate, Except.map] at h
      cases h
  | ok result =>
      obtain ⟨info, after⟩ := result
      simp only [machine, hcreate, Except.map] at h
      cases h
      rcases createIndex_ok hcreate with ⟨rfl, hsame, hreason⟩ |
        ⟨made, tableIndexes, hname, hindexes, hlookup, rfl, hnext⟩
      · exact Or.inl ⟨rfl, hsame, hreason⟩
      · exact Or.inr ⟨made, tableIndexes, hname, hindexes, hlookup, rfl, hnext⟩

/-- A rejected creation leaves the catalog as it is. -/
theorem step_of_rejected {call : CreationCall τ κ} {outcome : CreationOutcome τ κ}
    (hstep : machine.step maps call = .ok (outcome, next)) (hrejected : outcome.Rejected) :
    next = maps := by
  cases call with
  | createTable tableName content =>
      rcases step_createTable_ok hstep with ⟨-, hsame, -⟩ | ⟨made, -, rfl, -⟩
      · exact hsame
      · rcases hrejected with h | h <;> cases h
  | createIndex indexName tableName construct =>
      rcases step_createIndex_ok hstep with ⟨-, hsame, -⟩ | ⟨made, tableIndexes, -, -, -, rfl, -⟩
      · exact hsame
      · rcases hrejected with h | h <;> cases h

/-! ## Agreement -/

theorem agree_empty : (empty : CatalogMaps τ κ).Agree where
  named _ _ h := by cases h
  stored _ _ h := by cases h
  listed _ _ h := by cases h
  owned _ _ h := by cases h
  indexed _ := Iff.rfl
  once _ _ h := by cases h

theorem Agree.indexNames_eq_none (h : maps.Agree) {tableName : String}
    (hname : maps.tableNames tableName = none) : maps.indexNames tableName = none := by
  have hindexed := h.indexed tableName
  rw [hname] at hindexed
  simpa using hindexed

/-- A new table under an id that is not in use. -/
theorem Agree.addTable (h : maps.Agree) {tableName : String} {content : τ}
    (hname : maps.tableNames tableName = none) (hoid : maps.tables maps.nextTableOid = none) :
    (maps.addTable tableName content).Agree := by
  have hindexes := h.indexNames_eq_none hname
  unfold CatalogMaps.addTable
  simp only [emplace_of_none hname, emplace_of_none hoid, emplace_of_none hindexes]
  constructor <;> dsimp only
  · intro other oid hother
    rcases update_some_iff.mp hother with ⟨rfl, rfl⟩ | ⟨-, hother⟩
    · exact ⟨_, Function.update_self .., rfl⟩
    · obtain ⟨info, hinfo, hsame⟩ := h.named other oid hother
      have hne : oid ≠ maps.nextTableOid := by
        rintro rfl
        rw [hoid] at hinfo
        cases hinfo
      exact ⟨info, by rw [Function.update_of_ne hne]; exact hinfo, hsame⟩
  · intro oid info hinfo
    rcases update_some_iff.mp hinfo with ⟨rfl, rfl⟩ | ⟨-, hinfo⟩
    · exact ⟨rfl, Function.update_self ..⟩
    · obtain ⟨hsame, hother⟩ := h.stored oid info hinfo
      have hne : info.name ≠ tableName := by
        intro hclash
        rw [hclash, hname] at hother
        cases hother
      exact ⟨hsame, by rw [Function.update_of_ne hne]; exact hother⟩
  · intro other tableIndexes hother
    rcases update_some_iff.mp hother with ⟨rfl, rfl⟩ | ⟨-, hother⟩
    · intro _ _ hmem
      cases hmem
    · exact h.listed other tableIndexes hother
  · intro oid info hinfo
    obtain ⟨hsame, tableIndexes, hother, hmem⟩ := h.owned oid info hinfo
    have hne : info.tableName ≠ tableName := by
      intro hclash
      rw [hclash, hindexes] at hother
      cases hother
    exact ⟨hsame, tableIndexes, by rw [Function.update_of_ne hne]; exact hother, hmem⟩
  · intro other
    by_cases heq : other = tableName
    · subst heq
      rw [Function.update_self, Function.update_self]
      exact Iff.rfl
    · rw [Function.update_of_ne heq, Function.update_of_ne heq]
      exact h.indexed other
  · intro other tableIndexes hother
    rcases update_some_iff.mp hother with ⟨rfl, rfl⟩ | ⟨-, hother⟩
    · exact List.nodup_nil
    · exact h.once other tableIndexes hother

/-- A new index under an id that is not in use. -/
theorem Agree.addIndex (h : maps.Agree) {indexName tableName : String} {content : κ}
    {tableIndexes : List (String × UInt32)} (hname : maps.indexNames tableName = some tableIndexes)
    (hlookup : tableIndexes.lookup indexName = none)
    (hoid : maps.indexes maps.nextIndexOid = none) :
    (maps.addIndex indexName tableName tableIndexes content).Agree := by
  have hkeep : ∀ oid info, maps.indexes oid = some info → oid ≠ maps.nextIndexOid := by
    rintro oid info hinfo rfl
    rw [hoid] at hinfo
    cases hinfo
  unfold CatalogMaps.addIndex
  simp only [emplace_of_none hoid]
  refine ⟨h.named, h.stored, ?_, ?_, ?_, ?_⟩ <;> dsimp only
  · intro other others hother
    have hold : ∀ named oid, (∃ listed, maps.indexNames other = some listed ∧
        (named, oid) ∈ listed) → ∃ info, Function.update maps.indexes maps.nextIndexOid
          (some { content, name := indexName, indexOid := maps.nextIndexOid, tableName }) oid =
            some info ∧ info.name = named ∧ info.tableName = other := by
      rintro named oid ⟨listed, hlisted, hmem⟩
      obtain ⟨info, hinfo, hsame⟩ := h.listed other listed hlisted named oid hmem
      exact ⟨info, by rw [Function.update_of_ne (hkeep oid info hinfo)]; exact hinfo, hsame⟩
    intro named oid hmem
    rcases update_some_iff.mp hother with ⟨rfl, rfl⟩ | ⟨-, hother⟩
    · rcases List.mem_append.mp hmem with hmem | hlast
      · exact hold named oid ⟨tableIndexes, hname, hmem⟩
      · cases List.mem_singleton.mp hlast
        exact ⟨_, Function.update_self .., rfl, rfl⟩
    · exact hold named oid ⟨others, hother, hmem⟩
  · intro oid info hinfo
    rcases update_some_iff.mp hinfo with ⟨rfl, rfl⟩ | ⟨-, hinfo⟩
    · exact ⟨rfl, _, Function.update_self .., by simp⟩
    · obtain ⟨hsame, listed, hlisted, hmem⟩ := h.owned oid info hinfo
      refine ⟨hsame, ?_⟩
      by_cases hclash : info.tableName = tableName
      · rw [hclash, hname] at hlisted
        cases hlisted
        rw [hclash]
        exact ⟨_, Function.update_self .., List.mem_append_left _ hmem⟩
      · exact ⟨listed, by rw [Function.update_of_ne hclash]; exact hlisted, hmem⟩
  · intro other
    by_cases heq : other = tableName
    · subst heq
      have hindexed := h.indexed other
      rw [hname] at hindexed
      rw [Function.update_self]
      exact hindexed
    · rw [Function.update_of_ne heq]
      exact h.indexed other
  · intro other others hother
    rcases update_some_iff.mp hother with ⟨rfl, rfl⟩ | ⟨-, hother⟩
    · rw [List.map_append, List.nodup_append]
      refine ⟨h.once tableName tableIndexes hname, List.nodup_singleton _, ?_⟩
      rintro named hnamed last hlast rfl
      rw [List.map_singleton, List.mem_singleton] at hlast
      obtain ⟨⟨_, oid⟩, hmem, rfl⟩ := List.mem_map.mp hnamed
      have hnot := List.lookup_eq_none_iff.mp hlookup _ hmem
      exact bne_iff_ne.mp hnot hlast.symm
    · exact h.once other others hother

/-! ## Lookups -/

theorem Agree.getTableNamed_ne (h : maps.Agree) (tableName : String) :
    maps.getTableNamed tableName ≠ .error .brokenInvariant := by
  intro hbroken
  unfold getTableNamed at hbroken
  split at hbroken
  · cases hbroken
  next oid hname =>
    obtain ⟨info, hinfo, -⟩ := h.named tableName oid hname
    rw [hinfo] at hbroken
    cases hbroken

theorem Agree.getIndexNamed_ne (h : maps.Agree) (indexName tableName : String) :
    maps.getIndexNamed indexName tableName ≠ .error .brokenInvariant := by
  intro hbroken
  unfold getIndexNamed at hbroken
  split at hbroken
  next hnone =>
    have hindexed := h.indexed tableName
    rw [hnone] at hindexed
    split at hbroken
    · cases hbroken
    next oid hname =>
      rw [hname] at hindexed
      simp at hindexed
  next tableIndexes hindexes =>
    split at hbroken
    · cases hbroken
    next oid hlookup =>
      obtain ⟨before, after, rfl, -⟩ := List.lookup_eq_some_iff.mp hlookup
      obtain ⟨info, hinfo, -⟩ := h.listed tableName _ hindexes indexName oid (by simp)
      rw [hinfo] at hbroken
      cases hbroken

/-- Where all ids of a list are in use, the loop of `GetTableIndexes` ends. -/
theorem collectIndexes_ne {tableIndexes : List (String × UInt32)}
    (hall : ∀ indexMeta ∈ tableIndexes, (maps.indexes indexMeta.2).isSome) :
    maps.collectIndexes tableIndexes ≠ .error .brokenInvariant := by
  induction tableIndexes with
  | nil => exact fun hbroken => by cases hbroken
  | cons indexMeta rest ih =>
      obtain ⟨hfirst, hrest⟩ := List.forall_mem_cons.mp hall
      obtain ⟨info, hinfo⟩ := Option.isSome_iff_exists.mp hfirst
      intro hbroken
      simp only [collectIndexes, hinfo] at hbroken
      split at hbroken
      next fault hfault =>
        cases hbroken
        exact ih hrest hfault
      · cases hbroken

theorem Agree.getTableIndexes_ne (h : maps.Agree) (tableName : String) :
    maps.getTableIndexes tableName ≠ .error .brokenInvariant := by
  intro hbroken
  unfold getTableIndexes at hbroken
  split at hbroken
  · cases hbroken
  next oid hname =>
    have hindexed := h.indexed tableName
    rw [hname] at hindexed
    split at hbroken
    next hnone =>
      rw [hnone] at hindexed
      simp at hindexed
    next tableIndexes hindexes =>
      refine collectIndexes_ne ?_ hbroken
      rintro ⟨indexName, indexOid⟩ hmem
      obtain ⟨info, hinfo, -⟩ := h.listed tableName tableIndexes hindexes indexName indexOid hmem
      rw [hinfo]
      rfl

theorem Agree.createIndex_ne (h : maps.Agree) (indexName tableName : String)
    (construct : TableEntry τ → Option κ) :
    maps.createIndex indexName tableName construct ≠ .error .brokenInvariant := by
  intro hbroken
  unfold createIndex at hbroken
  split at hbroken
  · cases hbroken
  next oid hname =>
    have hindexed := h.indexed tableName
    rw [hname] at hindexed
    split at hbroken
    next hnone =>
      rw [hnone] at hindexed
      simp at hindexed
    next tableIndexes hindexes =>
      split at hbroken
      · cases hbroken
      · split at hbroken
        next fault hfault =>
          cases hbroken
          exact h.getTableNamed_ne tableName hfault
        · cases hbroken
        · split at hbroken <;> cases hbroken

/-- Where the maps agree, no assertion about them fails. -/
theorem Agree.intact (h : maps.Agree) : maps.Intact where
  getTable := h.getTableNamed_ne
  getIndex := h.getIndexNamed_ne
  getIndexOfTable indexName tableOid := by
    intro hbroken
    unfold getIndexOfTable at hbroken
    split at hbroken
    · cases hbroken
    · exact h.getIndexNamed_ne _ _ hbroken
  getTableIndexes := h.getTableIndexes_ne
  create call := by
    intro hbroken
    cases call with
    | createTable tableName content =>
        cases hcreate : maps.createTable tableName content with
        | ok result =>
            simp only [machine, hcreate, Except.map] at hbroken
            cases hbroken
        | error fault =>
            simp only [machine, hcreate, Except.map] at hbroken
            cases hbroken
            unfold createTable at hcreate
            split at hcreate
            · cases hcreate
            · split at hcreate <;> cases hcreate
    | createIndex indexName tableName construct =>
        cases hcreate : maps.createIndex indexName tableName construct with
        | ok result =>
            simp only [machine, hcreate, Except.map] at hbroken
            cases hbroken
        | error fault =>
            simp only [machine, hcreate, Except.map] at hbroken
            cases hbroken
            exact h.createIndex_ne indexName tableName construct hcreate

/-! ## Ids -/

/-- The ids that a counter gave out before it has come around. -/
def oidsBelow (n : Nat) : List UInt32 := (List.range n).map UInt32.ofNat

theorem oidsBelow_succ (n : Nat) : oidsBelow (n + 1) = oidsBelow n ++ [UInt32.ofNat n] := by
  unfold oidsBelow
  rw [List.range_succ, List.map_append, List.map_singleton]

theorem nodup_oidsBelow {n : Nat} (hn : n ≤ 2 ^ 32) : (oidsBelow n).Nodup := by
  refine List.Nodup.map_on ?_ List.nodup_range
  intro i hi k hk hsame
  rw [List.mem_range] at hi hk
  have hword := congrArg UInt32.toNat hsame
  rwa [UInt32.toNat_ofNat_of_lt' (by simpa using hi.trans_le hn),
    UInt32.toNat_ofNat_of_lt' (by simpa using hk.trans_le hn)] at hword

theorem not_mem_oidsBelow {n : Nat} (hn : n < 2 ^ 32) : UInt32.ofNat n ∉ oidsBelow n := by
  have hnodup := nodup_oidsBelow (n := n + 1) hn
  rw [oidsBelow_succ, List.nodup_append] at hnodup
  intro hmem
  exact hnodup.2.2 _ hmem _ (List.mem_singleton_self _) rfl

/-- After the last id comes one that is in use. -/
theorem not_nodup_oidsBelow_wrap : ¬ (oidsBelow (2 ^ 32) ++ [UInt32.ofNat (2 ^ 32)]).Nodup := by
  intro hnodup
  have hzero : UInt32.ofNat (2 ^ 32) ∈ oidsBelow (2 ^ 32) :=
    List.mem_map.mpr ⟨0, List.mem_range.mpr (by decide), by decide⟩
  exact (List.nodup_append.mp hnodup).2.2 _ hzero _ (List.mem_singleton_self _) rfl

/-! ## Runs -/

/-- The catalog has the names, and its counters have not come around. -/
structure Tracks (outcomes : List (CreationOutcome τ κ)) (maps : CatalogMaps τ κ)
    (taken : Names) : Prop where
  agree : maps.Agree
  tableNames : ∀ tableName, (maps.tableNames tableName).isSome ↔ tableName ∈ taken.tables
  indexNames : ∀ tableName tableIndexes, maps.indexNames tableName = some tableIndexes →
    ∀ indexName, tableIndexes.lookup indexName ≠ none ↔ (tableName, indexName) ∈ taken.indexes
  owners : ∀ tableName indexName, (tableName, indexName) ∈ taken.indexes → tableName ∈ taken.tables
  nextTableOid : maps.nextTableOid = UInt32.ofNat taken.tables.card
  nextIndexOid : maps.nextIndexOid = UInt32.ofNat taken.indexes.card
  tables : ∀ oid, (maps.tables oid).isSome → oid ∈ oidsBelow taken.tables.card
  indexes : ∀ oid, (maps.indexes oid).isSome → oid ∈ oidsBelow taken.indexes.card
  tableOids : outcomes.filterMap CreationOutcome.tableOid = oidsBelow taken.tables.card
  indexOids : outcomes.filterMap CreationOutcome.indexOid = oidsBelow taken.indexes.card
  tableCount : taken.tables.card ≤ 2 ^ 32
  indexCount : taken.indexes.card ≤ 2 ^ 32

variable {outcomes : List (CreationOutcome τ κ)} {taken : Names}

theorem tracks_empty : Tracks [] (empty : CatalogMaps τ κ) ⟨∅, ∅⟩ where
  agree := agree_empty
  tableNames tableName := by simp [empty]
  indexNames _ _ h := by cases h
  owners _ _ h := by simp at h
  nextTableOid := rfl
  nextIndexOid := rfl
  tables _ h := by cases h
  indexes _ h := by cases h
  tableOids := rfl
  indexOids := rfl
  tableCount := by simp
  indexCount := by simp

theorem Tracks.consistent (h : Tracks outcomes maps taken) : Consistent outcomes maps where
  agree := h.agree
  intact := h.agree.intact
  tableOids := by
    rw [h.tableOids]
    exact nodup_oidsBelow h.tableCount
  indexOids := by
    rw [h.indexOids]
    exact nodup_oidsBelow h.indexCount
  rejected _ _ _ := step_of_rejected

/-- An outcome that creates nothing changes nothing. -/
theorem Tracks.reject (h : Tracks outcomes maps taken) {outcome : CreationOutcome τ κ}
    (hrejected : outcome.Rejected) : Tracks (outcomes ++ [outcome]) maps taken := by
  have htable : outcome.tableOid = none := by rcases hrejected with rfl | rfl <;> rfl
  have hindex : outcome.indexOid = none := by rcases hrejected with rfl | rfl <;> rfl
  exact { h with
    tableOids := by
      rw [List.filterMap_append, h.tableOids]
      simp [htable]
    indexOids := by
      rw [List.filterMap_append, h.indexOids]
      simp [hindex] }

theorem Tracks.tables_nextTableOid (h : Tracks outcomes maps taken)
    (hroom : taken.tables.card < 2 ^ 32) : maps.tables maps.nextTableOid = none := by
  by_contra hused
  have hmem := h.tables _ (Option.isSome_iff_ne_none.mpr hused)
  rw [h.nextTableOid] at hmem
  exact not_mem_oidsBelow hroom hmem

theorem Tracks.indexes_nextIndexOid (h : Tracks outcomes maps taken)
    (hroom : taken.indexes.card < 2 ^ 32) : maps.indexes maps.nextIndexOid = none := by
  by_contra hused
  have hmem := h.indexes _ (Option.isSome_iff_ne_none.mpr hused)
  rw [h.nextIndexOid] at hmem
  exact not_mem_oidsBelow hroom hmem

/-- A key that was not in use is in use after its update. -/
theorem isSome_update_oidsBelow {V : Type} {map : UInt32 → Option V} {n : Nat} {value : Option V}
    (h : ∀ oid, (map oid).isSome → oid ∈ oidsBelow n) (oid : UInt32)
    (hsome : (Function.update map (UInt32.ofNat n) value oid).isSome) :
    oid ∈ oidsBelow (n + 1) := by
  rw [oidsBelow_succ, List.mem_append, List.mem_singleton]
  by_cases heq : oid = UInt32.ofNat n
  · exact Or.inr heq
  · rw [Function.update_of_ne heq] at hsome
    exact Or.inl (h oid hsome)

/-- A new table while the counter has an id for it. -/
theorem Tracks.addTable (h : Tracks outcomes maps taken) {tableName : String} {content : τ}
    (hname : maps.tableNames tableName = none) (hroom : taken.tables.card < 2 ^ 32) :
    Tracks (outcomes ++ [.table (some { name := tableName, content, oid := maps.nextTableOid })])
      (maps.addTable tableName content) { taken with tables := insert tableName taken.tables } := by
  have hoid := h.tables_nextTableOid hroom
  have hindexes := h.agree.indexNames_eq_none hname
  have hnew : tableName ∉ taken.tables := by
    rw [← h.tableNames, hname]
    simp
  have hcard : (insert tableName taken.tables).card = taken.tables.card + 1 :=
    Finset.card_insert_of_notMem hnew
  have hagree : (maps.addTable tableName content).Agree := h.agree.addTable hname hoid
  unfold CatalogMaps.addTable at hagree ⊢
  simp only [emplace_of_none hname, emplace_of_none hoid, emplace_of_none hindexes] at hagree ⊢
  refine ⟨hagree, ?_, ?_, ?_, ?_, h.nextIndexOid, ?_, h.indexes, ?_, ?_, ?_, h.indexCount⟩ <;>
    dsimp only
  · intro other
    by_cases heq : other = tableName
    · subst heq
      simp
    · rw [Function.update_of_ne heq, h.tableNames, Finset.mem_insert]
      simp [heq]
  · intro other others hother
    rcases update_some_iff.mp hother with ⟨rfl, rfl⟩ | ⟨-, hother⟩
    · intro indexName
      simp only [List.lookup_nil, ne_eq, not_true_eq_false, false_iff]
      exact fun hmem => hnew (h.owners tableName indexName hmem)
    · exact h.indexNames other others hother
  · intro other indexName hmem
    exact Finset.mem_insert_of_mem (h.owners other indexName hmem)
  · rw [hcard, h.nextTableOid, UInt32.ofNat_add]
    rfl
  · rw [hcard, h.nextTableOid]
    exact isSome_update_oidsBelow h.tables
  · rw [hcard, List.filterMap_append, h.tableOids, oidsBelow_succ, h.nextTableOid]
    rfl
  · rw [List.filterMap_append, h.indexOids]
    simp [CreationOutcome.indexOid]
  · rw [hcard]
    exact hroom

/-- A new index while the counter has an id for it. -/
theorem Tracks.addIndex (h : Tracks outcomes maps taken) {indexName tableName : String}
    {content : κ} {tableIndexes : List (String × UInt32)}
    (hname : maps.indexNames tableName = some tableIndexes)
    (hlookup : tableIndexes.lookup indexName = none) (hroom : taken.indexes.card < 2 ^ 32) :
    Tracks
      (outcomes ++
        [.index (some { content, name := indexName, indexOid := maps.nextIndexOid, tableName })])
      (maps.addIndex indexName tableName tableIndexes content)
      { taken with indexes := insert (tableName, indexName) taken.indexes } := by
  have hoid := h.indexes_nextIndexOid hroom
  have hnew : (tableName, indexName) ∉ taken.indexes := by
    rw [← h.indexNames tableName tableIndexes hname]
    exact not_not.mpr hlookup
  have htable : tableName ∈ taken.tables := by
    rw [← h.tableNames, ← h.agree.indexed, hname]
    rfl
  have hcard : (insert (tableName, indexName) taken.indexes).card = taken.indexes.card + 1 :=
    Finset.card_insert_of_notMem hnew
  have hagree : (maps.addIndex indexName tableName tableIndexes content).Agree :=
    h.agree.addIndex hname hlookup hoid
  unfold CatalogMaps.addIndex at hagree ⊢
  simp only [emplace_of_none hoid] at hagree ⊢
  refine ⟨hagree, h.tableNames, ?_, ?_, h.nextTableOid, ?_, h.tables, ?_, ?_, ?_, h.tableCount,
    ?_⟩ <;> dsimp only
  · intro other others hother named
    rcases update_some_iff.mp hother with ⟨rfl, rfl⟩ | ⟨hne, hother⟩
    · have hold := h.indexNames tableName tableIndexes hname named
      by_cases hsame : named = indexName
      · subst hsame
        simp [List.lookup_append, hlookup]
      · have hkeep : (tableIndexes ++ [(indexName, maps.nextIndexOid)]).lookup named =
            tableIndexes.lookup named := by
          rw [List.lookup_append, List.lookup_cons, beq_eq_false_iff_ne.mpr hsame]
          exact Option.or_none
        rw [hkeep, Finset.mem_insert, hold]
        simp [hsame]
    · rw [h.indexNames other others hother, Finset.mem_insert]
      simp [hne]
  · intro other named hmem
    rcases Finset.mem_insert.mp hmem with hlast | hmem
    · cases hlast
      exact htable
    · exact h.owners other named hmem
  · rw [hcard, h.nextIndexOid, UInt32.ofNat_add]
    rfl
  · rw [hcard, h.nextIndexOid]
    exact isSome_update_oidsBelow h.indexes
  · rw [List.filterMap_append, h.tableOids]
    simp [CreationOutcome.tableOid]
  · rw [hcard, List.filterMap_append, h.indexOids, oidsBelow_succ, h.nextIndexOid]
    rfl
  · rw [hcard]
    exact hroom

theorem names_createTable (taken : Names) (tableName : String) (content : Option τ) :
    (names : Machine Names (CreationCall τ κ) Bool Empty).step taken
        (.createTable tableName content) =
      if tableName ∈ taken.tables then .ok (false, taken)
      else .ok (true, { taken with tables := insert tableName taken.tables }) :=
  rfl

theorem names_createIndex (taken : Names) (indexName tableName : String)
    (construct : TableEntry τ → Option κ) :
    (names : Machine Names (CreationCall τ κ) Bool Empty).step taken
        (.createIndex indexName tableName construct) =
      if tableName ∉ taken.tables ∨ (tableName, indexName) ∈ taken.indexes then .ok (false, taken)
      else .ok (true, { taken with indexes := insert (tableName, indexName) taken.indexes }) :=
  rfl

/-- A creation that finds an id keeps the catalog and the names together. -/
theorem Tracks.step {call : CreationCall τ κ} {outcome : CreationOutcome τ κ}
    (h : Tracks outcomes maps taken) (hroom : HasOid taken call)
    (hstep : machine.step maps call = .ok (outcome, next)) :
    ∃ accepted after, names.step taken call = .ok (accepted, after) ∧
      Tracks (outcomes ++ [outcome]) next after := by
  cases call with
  | createTable tableName content =>
      rw [names_createTable]
      rcases step_createTable_ok hstep with ⟨rfl, rfl, hname⟩ | ⟨made, hname, rfl, rfl⟩
      · rw [if_pos ((h.tableNames tableName).mp hname)]
        exact ⟨false, taken, rfl, h.reject (Or.inl rfl)⟩
      · have hnew : tableName ∉ taken.tables := by
          rw [← h.tableNames, hname]
          simp
        rw [if_neg hnew]
        exact ⟨true, _, rfl, h.addTable hname (hroom hnew)⟩
  | createIndex indexName tableName construct =>
      rw [names_createIndex]
      rcases step_createIndex_ok hstep with ⟨rfl, rfl, hreason⟩ |
        ⟨made, tableIndexes, hname, hindexes, hlookup, rfl, rfl⟩
      · have hrejected : tableName ∉ taken.tables ∨ (tableName, indexName) ∈ taken.indexes := by
          rcases hreason with hname | ⟨tableIndexes, hindexes, hlookup⟩
          · left
            rw [← h.tableNames, hname]
            simp
          · exact Or.inr ((h.indexNames tableName tableIndexes hindexes indexName).mp hlookup)
        rw [if_pos hrejected]
        exact ⟨false, taken, rfl, h.reject (Or.inr rfl)⟩
      · have htable : tableName ∈ taken.tables := (h.tableNames tableName).mp hname
        have hnew : (tableName, indexName) ∉ taken.indexes := by
          rw [← h.indexNames tableName tableIndexes hindexes]
          exact not_not.mpr hlookup
        rw [if_neg (not_or.mpr ⟨not_not.mpr htable, hnew⟩)]
        exact ⟨true, _, rfl, h.addIndex hindexes hlookup (hroom htable hnew)⟩

/-- A creation that finds no id gives an id out again. -/
theorem Tracks.step_wrap {call : CreationCall τ κ} {outcome : CreationOutcome τ κ}
    (h : Tracks outcomes maps taken) (hroom : ¬ HasOid taken call)
    (hstep : machine.step maps call = .ok (outcome, next)) :
    ¬ Consistent (outcomes ++ [outcome]) next := by
  intro hconsistent
  cases call with
  | createTable tableName content =>
      obtain ⟨hnew, hfull⟩ := Classical.not_imp.mp hroom
      have hcard : taken.tables.card = 2 ^ 32 := le_antisymm h.tableCount (Nat.le_of_not_lt hfull)
      rcases step_createTable_ok hstep with ⟨-, -, hname⟩ | ⟨made, -, rfl, -⟩
      · exact hnew ((h.tableNames tableName).mp hname)
      · have hoids := hconsistent.tableOids
        have hagain := h.nextTableOid
        rw [hcard] at hagain
        rw [List.filterMap_append, h.tableOids, hcard] at hoids
        simp only [List.filterMap_cons, List.filterMap_nil, CreationOutcome.tableOid,
          Option.map_some, hagain] at hoids
        exact not_nodup_oidsBelow_wrap hoids
  | createIndex indexName tableName construct =>
      obtain ⟨htable, hrest⟩ := Classical.not_imp.mp hroom
      obtain ⟨hnew, hfull⟩ := Classical.not_imp.mp hrest
      have hcard : taken.indexes.card = 2 ^ 32 := le_antisymm h.indexCount (Nat.le_of_not_lt hfull)
      rcases step_createIndex_ok hstep with ⟨-, -, hname | ⟨tableIndexes, hindexes, hlookup⟩⟩ |
        ⟨made, tableIndexes, -, -, -, rfl, -⟩
      · have hsome := (h.tableNames tableName).mpr htable
        rw [hname] at hsome
        cases hsome
      · exact hnew ((h.indexNames tableName tableIndexes hindexes indexName).mp hlookup)
      · have hoids := hconsistent.indexOids
        have hagain := h.nextIndexOid
        rw [hcard] at hagain
        rw [List.filterMap_append, h.indexOids, hcard] at hoids
        simp only [List.filterMap_cons, List.filterMap_nil, CreationOutcome.indexOid,
          Option.map_some, hagain] at hoids
        exact not_nodup_oidsBelow_wrap hoids

theorem Tracks.prefixes_iff {calls : List (CreationCall τ κ)} {done : List (CreationOutcome τ κ)}
    {final : CatalogMaps τ κ} (h : Tracks done maps taken)
    (hrun : machine.run maps calls = .ok (outcomes, final)) :
    (∀ before after seen middle, calls = before ++ after →
      machine.run maps before = .ok (seen, middle) → Consistent (done ++ seen) middle) ↔
        names.Guarded HasOid taken calls := by
  refine Machine.prefixes_iff_guarded Tracks Consistent ?_ ?_ ?_ hrun h
  · intro _ _ _ htracks
    exact htracks.consistent
  · intro _ _ _ _ _ _ htracks hroom hstep
    exact htracks.step hroom hstep
  · intro _ _ _ _ _ _ htracks hroom hstep
    exact htracks.step_wrap hroom hstep

/-- The maps of a new catalog agree, no assertion about them fails, no id is given out again
and no rejection changes anything, after every creation of a run, exactly when no table and
no index comes after `2 ^ 32` others. -/
theorem run_consistent_iff {calls : List (CreationCall τ κ)}
    {outcomes : List (CreationOutcome τ κ)} {final : CatalogMaps τ κ}
    (hrun : machine.run empty calls = .ok (outcomes, final)) :
    (∀ before after seen middle, calls = before ++ after →
      machine.run empty before = .ok (seen, middle) → Consistent seen middle) ↔
        names.Guarded HasOid ⟨∅, ∅⟩ calls :=
  tracks_empty.prefixes_iff hrun

/-- A table, an index on it, and the name of the table once more. -/
def tableAndIndex : List (CreationCall Unit Unit) :=
  [.createTable "a" (some ()), .createIndex "i" "a" fun _ => some (), .createTable "a" (some ())]

theorem run_consistent_iff_tableAndIndex :
    (∃ outcomes final, machine.run empty tableAndIndex = .ok (outcomes, final) ∧
      final.nextTableOid = 1 ∧ final.nextIndexOid = 1) ∧
    ∀ before after seen middle, tableAndIndex = before ++ after →
      machine.run empty before = .ok (seen, middle) → Consistent seen middle :=
  ⟨⟨_, _, rfl, rfl, rfl⟩, (run_consistent_iff rfl).mpr (by decide)⟩

/-- `CreateTable` with every name. -/
def createTables (tableNames : List String) : List (CreationCall Unit Unit) :=
  tableNames.map fun tableName => .createTable tableName (some ())

theorem exists_run_createTables (maps : CatalogMaps Unit Unit) (tableNames : List String) :
    ∃ outcomes final, machine.run maps (createTables tableNames) = .ok (outcomes, final) := by
  induction tableNames generalizing maps with
  | nil => exact ⟨[], maps, rfl⟩
  | cons tableName rest ih =>
      have hstep : ∃ outcome next,
          machine.step maps (.createTable tableName (some ())) = .ok (outcome, next) := by
        simp only [machine, createTable]
        split
        · exact ⟨_, _, rfl⟩
        · exact ⟨_, _, rfl⟩
      obtain ⟨outcome, next, hstep⟩ := hstep
      obtain ⟨outcomes, final, hrun⟩ := ih next
      refine ⟨outcome :: outcomes, final, ?_⟩
      unfold createTables at hrun ⊢
      rw [List.map_cons, Machine.run_cons_of_step hstep, hrun]

/-- There are not more new tables than ids. -/
theorem card_add_length_le {tableNames : List String} {taken : Names} (hnodup : tableNames.Nodup)
    (hnew : ∀ tableName ∈ tableNames, tableName ∉ taken.tables) (hcard : taken.tables.card ≤ 2 ^ 32)
    (hguard : names.Guarded HasOid taken (createTables tableNames)) :
    taken.tables.card + tableNames.length ≤ 2 ^ 32 := by
  induction tableNames generalizing taken with
  | nil => simpa using hcard
  | cons tableName rest ih =>
      obtain ⟨hother, hrest⟩ := List.nodup_cons.mp hnodup
      have hfirst := hnew tableName List.mem_cons_self
      have hstep := names_createTable (κ := Unit) taken tableName (some ())
      rw [if_neg hfirst] at hstep
      unfold createTables at hguard
      rw [List.map_cons, Machine.guarded_cons_of_step hstep] at hguard
      obtain ⟨hroom, htail⟩ := hguard
      have hsucc : (insert tableName taken.tables).card = taken.tables.card + 1 :=
        Finset.card_insert_of_notMem hfirst
      have hfresh : ∀ other ∈ rest, other ∉ insert tableName taken.tables := by
        intro other hmem hclash
        rcases Finset.mem_insert.mp hclash with rfl | hclash
        · exact hother hmem
        · exact hnew other (List.mem_cons_of_mem _ hmem) hclash
      have hnext : (insert tableName taken.tables).card ≤ 2 ^ 32 := hsucc ▸ hroom hfirst
      have hall := ih hrest hfresh hnext htail
      simp only [hsucc] at hall
      rw [List.length_cons]
      omega

/-- A name of its own for every number: its binary digits, the lowest first. -/
def nameOf (i : Nat) : String :=
  String.ofList (i.bits.map fun bit => if bit then '1' else '0')

theorem nameOf_injective : Function.Injective nameOf := by
  intro i k hsame
  have hchars := congrArg String.toList hsame
  simp only [nameOf, String.toList_ofList] at hchars
  have hbits : i.bits = k.bits := List.map_injective_iff.mpr (by decide) hchars
  have hdigits : Nat.digits 2 i = Nat.digits 2 k := by
    rw [Nat.digits_two_eq_bits, Nat.digits_two_eq_bits, hbits]
  exact Nat.digits_inj_iff.mp hdigits

/-- The catalog that keeps its promise has no more tables than ids. -/
theorem le_of_consistent_createTables {n : Nat}
    (hclaim : ∀ (calls : List (CreationCall Unit Unit)) (outcomes : List (CreationOutcome Unit Unit))
        (final : CatalogMaps Unit Unit), machine.run empty calls = .ok (outcomes, final) →
      ∀ before after seen middle, calls = before ++ after →
        machine.run empty before = .ok (seen, middle) → Consistent seen middle) : n ≤ 2 ^ 32 := by
  obtain ⟨outcomes, final, hrun⟩ := exists_run_createTables empty ((List.range n).map nameOf)
  have hguard := (tracks_empty.prefixes_iff hrun).mp (hclaim _ outcomes final hrun)
  have hnames : ((List.range n).map nameOf).Nodup := List.nodup_range.map nameOf_injective
  have hcount := card_add_length_le hnames (by simp) (by simp) hguard
  simpa using hcount

theorem tableAfterLastOid_not_consistent :
    ¬ ∀ (calls : List (CreationCall Unit Unit)) (outcomes : List (CreationOutcome Unit Unit))
        (final : CatalogMaps Unit Unit), machine.run empty calls = .ok (outcomes, final) →
      ∀ before after seen middle, calls = before ++ after →
        machine.run empty before = .ok (seen, middle) → Consistent seen middle := by
  intro hclaim
  have hle : 2 ^ 32 + 1 ≤ 2 ^ 32 := le_of_consistent_createTables hclaim
  omega

end BusTub.CatalogMaps
