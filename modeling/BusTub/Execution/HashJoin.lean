import BusTub.Execution.FilterSemantics
import BusTub.Execution.HashJoinExecutor
import BusTub.Library.Grouping
import BusTub.Types.ComparisonOrder

/-! # The hash join and the join

The hash join puts out the pairs of rows with equal keys when equal keys have equal
hashes and when the output tuple of a pair, from which the next one reads its right
columns, has them where the right tuple has them.
-/

namespace BusTub

open Generator

/-! ## Equality of keys of one type -/

/-- What a key that is not NULL is compared by. -/
inductive KeyClass where
  | number (i : Int)
  | text (bytes : List UInt8)
  deriving DecidableEq, Repr

namespace Value

/-- The class of a key; a NaN and a `VARCHAR` that cannot be compared have none. -/
def keyClass : Value → Option KeyClass
  | .boolean value => some (.number value.toInt)
  | .tinyint value => some (.number value.toInt)
  | .smallint value => some (.number value.toInt)
  | .integer value => some (.number value.toInt)
  | .bigint value => some (.number value.toInt)
  | .decimal value => if value.isNan then none else some (.number value.position)
  | .varchar none => none
  | .varchar (some value) =>
      match value.comparedText with
      | .error _ => none
      | .ok text => some (.text text)

theorem keyClass_varchar_eq_some_iff {value : Varlen} {c : KeyClass} :
    keyClass (.varchar (some value)) = some c ↔
      ∃ text, value.comparedText = .ok text ∧ c = .text text := by
  change (match value.comparedText with
    | .error _ => none
    | .ok text => some (KeyClass.text text)) = some c ↔ _
  cases value.comparedText with
  | error fault => exact iff_of_false nofun (fun ⟨_, h, _⟩ => absurd h nofun)
  | ok text =>
      constructor
      · intro h
        exact ⟨text, rfl, (Option.some.inj h).symm⟩
      · rintro ⟨_, h, rfl⟩
        cases h
        rfl

variable [DoubleText] {left right : Value}

omit [DoubleText] in
theorem checkComparable_of_getTypeId (htype : left.getTypeId = right.getTypeId) :
    left.checkComparable right = true := by
  unfold checkComparable
  rw [← htype]
  cases left <;> rfl

theorem compare_of_null (op : ComparisonType) (htype : left.getTypeId = right.getTypeId)
    (hnull : left.isNull = true ∨ right.isNull = true) : compare op left right = .ok .cmpNull := by
  have heither : (left.isNull || right.isNull) = true := Bool.or_eq_true_iff.mpr hnull
  unfold compare
  rw [checkComparable_of_getTypeId htype, heither]
  rfl

theorem compareVarlen_eq_true_iff (left right : Varlen) :
    compareVarlen .equal left (.varchar (some right)) = .ok .cmpTrue ↔
      ∃ c, keyClass (.varchar (some left)) = some c ∧ keyClass (.varchar (some right)) = some c := by
  unfold compareVarlen
  rw [Except.bind_eq_ok_iff]
  constructor
  · rintro ⟨str1, hleft, hrest⟩
    obtain ⟨str2, hright, hcompare⟩ := Except.bind_eq_ok_iff.mp hrest
    have heq := compareStrings_eq_zero_iff.mp (eq_of_beq (getCmpBool_eq_true_iff.mp hcompare))
    exact ⟨.text str1, keyClass_varchar_eq_some_iff.mpr ⟨str1, hleft, rfl⟩,
      keyClass_varchar_eq_some_iff.mpr ⟨str2, hright, by rw [heq]⟩⟩
  · rintro ⟨c, hleft, hright⟩
    obtain ⟨str1, hstr1, rfl⟩ := keyClass_varchar_eq_some_iff.mp hleft
    obtain ⟨str2, hstr2, heq⟩ := keyClass_varchar_eq_some_iff.mp hright
    cases heq
    refine ⟨str1, hstr1, Except.bind_eq_ok_iff.mpr ⟨str1, hstr2, ?_⟩⟩
    exact getCmpBool_eq_true_iff.mpr (beq_iff_eq.mpr (compareStrings_eq_zero_iff.mpr rfl))

/-- Keys of one type are equal when their classes are. -/
theorem compareEquals_eq_true_iff (htype : left.getTypeId = right.getTypeId)
    (hleft : left.isNull = false) (hright : right.isNull = false) :
    left.compareEquals right = .ok .cmpTrue ↔
      ∃ c, left.keyClass = some c ∧ right.keyClass = some c := by
  unfold compareEquals compare
  rw [checkComparable_of_getTypeId htype, hleft, hright]
  have hnumber : ∀ i j : Int, (.ok (getCmpBool (ComparisonType.equal.int i j)) :
      Except EvalFault CmpBool) = .ok .cmpTrue ↔
      ∃ c, some (KeyClass.number i) = some c ∧ some (KeyClass.number j) = some c := by
    intro i j
    rw [getCmpBool_eq_true_iff]
    constructor
    · intro h
      have hij : i = j := eq_of_beq h
      exact ⟨.number i, rfl, by rw [hij]⟩
    · rintro ⟨c, hi, hj⟩
      cases hi
      cases hj
      exact beq_self_eq_true i
  cases left with
  | boolean value =>
      cases right with
      | boolean value' => exact hnumber _ _
      | _ => cases htype
  | tinyint value =>
      cases right with
      | tinyint value' => exact hnumber _ _
      | _ => cases htype
  | smallint value =>
      cases right with
      | smallint value' => exact hnumber _ _
      | _ => cases htype
  | integer value =>
      cases right with
      | integer value' => exact hnumber _ _
      | _ => cases htype
  | bigint value =>
      cases right with
      | bigint value' => exact hnumber _ _
      | _ => cases htype
  | decimal value =>
      cases right with
      | decimal value' =>
          --  a NaN equals nothing, and has no class
          change (.ok (getCmpBool (value.eq value')) : Except EvalFault CmpBool) = _ ↔
            ∃ c, (if value.isNan then none else some (KeyClass.number value.position)) = some c ∧
              (if value'.isNan then none else some (KeyClass.number value'.position)) = some c
          rw [getCmpBool_eq_true_iff]
          unfold Double.eq
          cases value.isNan
          · cases value'.isNan
            · simpa using eq_comm
            · simp
          · simp
      | _ => cases htype
  | varchar value =>
      cases right with
      | varchar value' =>
          cases value with
          | none => cases hleft
          | some text =>
              cases value' with
              | none => cases hright
              | some text' =>
                  change compareVarlen .equal text (.varchar (some text')) = _ ↔ _
                  exact compareVarlen_eq_true_iff text text'
      | _ => cases htype

end Value

/-! ## The hash table -/

section Table

variable [DoubleText] {entries : List HashJoinEntry} {hash : UInt64} {key : Value}

/-- A key with its hash meets that of an entry. -/
def sameKey (key entryKey : UInt64 × Value) : Bool :=
  entryKey.1 = key.1 ∧ key.2.compareEquals entryKey.2 = .ok .cmpTrue

/-- The keys of one type that are not NULL. -/
def KeyOf (typeId : TypeId) (key : UInt64 × Value) : Prop :=
  key.2.getTypeId = typeId ∧ key.2.isNull = false

theorem sameKey_iff {typeId : TypeId} {a b : UInt64 × Value} (ha : KeyOf typeId a)
    (hb : KeyOf typeId b) : sameKey a b = true ↔
      b.1 = a.1 ∧ ∃ c, a.2.keyClass = some c ∧ b.2.keyClass = some c := by
  unfold sameKey
  rw [decide_eq_true_eq, Value.compareEquals_eq_true_iff (ha.1.trans hb.1.symm) ha.2 hb.2]

theorem sameKey_partialEquiv (typeId : TypeId) :
    Grouping.PartialEquiv sameKey (KeyOf typeId) where
  symm ha hb hab := by
    obtain ⟨hhash, c, hleft, hright⟩ := (sameKey_iff ha hb).mp hab
    exact (sameKey_iff hb ha).mpr ⟨hhash.symm, c, hright, hleft⟩
  trans ha hb hc hab hbc := by
    obtain ⟨hhash, c, hleft, hmiddle⟩ := (sameKey_iff ha hb).mp hab
    obtain ⟨hhash', c', hmiddle', hright⟩ := (sameKey_iff hb hc).mp hbc
    rw [hmiddle] at hmiddle'
    cases hmiddle'
    exact (sameKey_iff ha hc).mpr ⟨hhash'.trans hhash, c, hleft, hright⟩

omit [DoubleText] in
/-- An entry as a group of rows. -/
def HashJoinEntry.toGroup (entry : HashJoinEntry) : (UInt64 × Value) × List (List Value) :=
  ((entry.hash, entry.key), entry.rows)

theorem HashJoinEntry.holds_eq {entry : HashJoinEntry}
    (hcompare : ∃ truth, key.compareEquals entry.key = .ok truth) :
    entry.holds hash key = .ok (sameKey (hash, key) (entry.hash, entry.key)) := by
  obtain ⟨truth, htruth⟩ := hcompare
  unfold HashJoinEntry.holds sameKey
  dsimp only
  rw [htruth]
  by_cases hhash : entry.hash = hash
  · rw [if_pos hhash]
    simp [hhash]
  · rw [if_neg hhash]
    simp [hhash]

theorem HashJoinEntry.find_eq (hash : UInt64)
    (hcompare : ∀ entry ∈ entries, ∃ truth, key.compareEquals entry.key = .ok truth) :
    HashJoinEntry.find hash key entries =
      .ok (Grouping.find sameKey (hash, key) (entries.map HashJoinEntry.toGroup)) := by
  induction entries with
  | nil => rfl
  | cons entry rest ih =>
      rw [HashJoinEntry.find, HashJoinEntry.holds_eq (hcompare entry List.mem_cons_self),
        ih fun other hmem => hcompare other (List.mem_cons_of_mem _ hmem)]
      rw [List.map_cons, HashJoinEntry.toGroup, Grouping.find]
      cases sameKey (hash, key) (entry.hash, entry.key) <;> rfl

theorem HashJoinEntry.addRow_eq (hash : UInt64) (values : List Value)
    (hcompare : ∀ entry ∈ entries, ∃ truth, key.compareEquals entry.key = .ok truth) :
    ∃ entries', HashJoinEntry.addRow hash key values entries = .ok entries' ∧
      entries'.map HashJoinEntry.toGroup =
        Grouping.add sameKey (hash, key) values (entries.map HashJoinEntry.toGroup) := by
  induction entries with
  | nil => exact ⟨_, rfl, rfl⟩
  | cons entry rest ih =>
      obtain ⟨rest', hrest, hgroups⟩ :=
        ih fun other hmem => hcompare other (List.mem_cons_of_mem _ hmem)
      rw [HashJoinEntry.addRow, HashJoinEntry.holds_eq (hcompare entry List.mem_cons_self),
        List.map_cons, HashJoinEntry.toGroup, Grouping.add, hrest]
      cases sameKey (hash, key) (entry.hash, entry.key) with
      | true => exact ⟨_, rfl, rfl⟩
      | false => exact ⟨_, rfl, congrArg _ hgroups⟩

omit [DoubleText] in
/-- The hash of a key that has one. -/
def hashOf (key : Value) : UInt64 := (HashUtil.hashValue key).toOption.getD 0

omit [DoubleText] in
theorem hashValue_eq (hkey : key.isNull = false) : HashUtil.hashValue key = .ok (hashOf key) := by
  cases key with
  | varchar value =>
      cases value with
      | none => cases hkey
      | some value => rfl
  | _ => rfl

/-- The rows have keys of one type that are not NULL, and the left ones have all their
columns. -/
structure Keyed (plan : HashJoinPlanNode) (left right : List (Tuple × RID)) (typeId : TypeId)
    (leftKey rightKey : Tuple × RID → Value) (values : Tuple × RID → List Value) : Prop where
  evaluateLeft : ∀ row ∈ left,
    plan.leftJoinKeyExpression.evaluate row.1 plan.leftSchema = .ok (leftKey row)
  evaluateRight : ∀ row ∈ right,
    plan.rightJoinKeyExpression.evaluate row.1 plan.rightSchema = .ok (rightKey row)
  leftValues : ∀ row ∈ left, HashJoinExecutor.leftValues plan row.1 = .ok (values row)
  leftOf : ∀ row ∈ left, (leftKey row).getTypeId = typeId ∧ (leftKey row).isNull = false
  rightOf : ∀ row ∈ right, (rightKey row).getTypeId = typeId ∧ (rightKey row).isNull = false

variable {plan : HashJoinPlanNode} {left right rest : List (Tuple × RID)} {typeId : TypeId}
  {leftKey rightKey : Tuple × RID → Value} {values : Tuple × RID → List Value}

/-- A left row as the hash table takes it. -/
def keyedRow (leftKey : Tuple × RID → Value) (values : Tuple × RID → List Value)
    (row : Tuple × RID) : (UInt64 × Value) × List Value :=
  ((hashOf (leftKey row), leftKey row), values row)

/-- The loop of the constructor adds the left rows to the groups. -/
theorem Keyed.foldlM_addLeft (h : Keyed plan left right typeId leftKey rightKey values)
    (hcompare : ∀ row ∈ left, ∀ row' ∈ left,
      ∃ truth, (leftKey row).compareEquals (leftKey row') = .ok truth)
    (hrest : ∀ row ∈ rest, row ∈ left)
    (hentries : ∀ entry ∈ entries, ∃ row ∈ left, entry.key = leftKey row) :
    ∃ hashTable, rest.foldlM (HashJoinExecutor.addLeft plan) entries = .ok hashTable ∧
      hashTable.map HashJoinEntry.toGroup = (rest.map (keyedRow leftKey values)).foldl
        (fun groups row => Grouping.add sameKey row.1 row.2 groups)
        (entries.map HashJoinEntry.toGroup) ∧
      ∀ entry ∈ hashTable, ∃ row ∈ left, entry.key = leftKey row := by
  induction rest generalizing entries with
  | nil => exact ⟨entries, rfl, rfl, hentries⟩
  | cons row rest ih =>
      have hrow := hrest row List.mem_cons_self
      -- every key in the table is one of a left row, with which the next one can be compared
      have hcomputed : ∀ entry ∈ entries,
          ∃ truth, (leftKey row).compareEquals entry.key = .ok truth := by
        intro entry hmem
        obtain ⟨other, hother, hkey⟩ := hentries entry hmem
        rw [hkey]
        exact hcompare row hrow other hother
      obtain ⟨entries', hadd, hgroups⟩ :=
        HashJoinEntry.addRow_eq (hashOf (leftKey row)) (values row) hcomputed
      have hstep : HashJoinExecutor.addLeft plan entries row = .ok entries' := by
        unfold HashJoinExecutor.addLeft
        rw [h.evaluateLeft row hrow, h.leftValues row hrow]
        change (HashUtil.hashValue (leftKey row) >>= fun hash =>
          HashJoinEntry.addRow hash (leftKey row) (values row) entries) = _
        rw [hashValue_eq (h.leftOf row hrow).2]
        exact hadd
      have hentries' : ∀ entry ∈ entries', ∃ row ∈ left, entry.key = leftKey row := by
        have hold : ∀ group ∈ entries.map HashJoinEntry.toGroup,
            ∃ row ∈ left, group.1.2 = leftKey row := by
          intro group hmem
          obtain ⟨entry, hentry, rfl⟩ := List.mem_map.mp hmem
          exact hentries entry hentry
        have hused := @Grouping.used_add _ _ sameKey (fun key => ∃ row ∈ left, key.2 = leftKey row)
          _ (hashOf (leftKey row), leftKey row) ⟨row, hrow, rfl⟩ hold (values row)
        rw [← hgroups] at hused
        intro entry hmem
        exact hused entry.toGroup (List.mem_map_of_mem hmem)
      obtain ⟨hashTable, hfold, htable, hkeys⟩ :=
        ih (fun other hmem => hrest other (List.mem_cons_of_mem _ hmem)) hentries'
      refine ⟨hashTable, ?_, ?_, hkeys⟩
      · rw [List.foldlM_cons, hstep]
        exact hfold
      · rw [htable, hgroups]
        rfl

/-- What the constructor makes: a hash table in which a right row finds the left rows with
the same key. -/
theorem Keyed.new_spec (h : Keyed plan left right typeId leftKey rightKey values)
    (hleft : ∀ row ∈ left, ∀ row' ∈ left,
      ∃ truth, (leftKey row).compareEquals (leftKey row') = .ok truth)
    (hright : ∀ row ∈ right, ∀ row' ∈ left,
      ∃ truth, (rightKey row).compareEquals (leftKey row') = .ok truth) :
    ∃ exec, HashJoinExecutor.new plan left right = .ok exec ∧ exec.plan = plan ∧
      exec.rightChild.rows = right ∧
      ∀ row ∈ right, HashJoinExecutor.lookup plan exec.hashTable row.1 =
        .ok (Grouping.nonempty ((left.filter fun l => sameKey
          (hashOf (rightKey row), rightKey row) (hashOf (leftKey l), leftKey l)).map values)) := by
  obtain ⟨hashTable, hfold, htable, hkeys⟩ := h.foldlM_addLeft hleft
    (fun row (hmem : row ∈ left) => hmem)
    (fun entry (hmem : entry ∈ ([] : List HashJoinEntry)) => absurd hmem List.not_mem_nil)
  refine ⟨_, by rw [HashJoinExecutor.new, hfold]; rfl, rfl, rfl, ?_⟩
  intro row hrow
  have hcomputed : ∀ entry ∈ hashTable,
      ∃ truth, (rightKey row).compareEquals entry.key = .ok truth := by
    intro entry hmem
    obtain ⟨other, hother, hkey⟩ := hkeys entry hmem
    rw [hkey]
    exact hright row hrow other hother
  -- the bucket of a right row holds the left rows of its key, in their order
  have hfind := HashJoinEntry.find_eq (hashOf (rightKey row)) hcomputed
  have hkeyOf : KeyOf typeId (hashOf (rightKey row), rightKey row) := h.rightOf row hrow
  have hkeyed : ∀ keyed ∈ left.map (keyedRow leftKey values), KeyOf typeId keyed.1 := by
    intro keyed hmem
    obtain ⟨l, hl, rfl⟩ := List.mem_map.mp hmem
    exact h.leftOf l hl
  have hbuild := Grouping.find_build (sameKey_partialEquiv typeId) hkeyOf hkeyed
  unfold HashJoinExecutor.lookup
  rw [h.evaluateRight row hrow]
  change (HashUtil.hashValue (rightKey row) >>= fun hash =>
    HashJoinEntry.find hash (rightKey row) hashTable) = _
  rw [hashValue_eq (h.rightOf row hrow).2]
  change HashJoinEntry.find (hashOf (rightKey row)) (rightKey row) hashTable = _
  rw [hfind, htable]
  refine congrArg Except.ok (hbuild.trans ?_)
  rw [List.filter_map, List.map_map]
  rfl

end Table

/-! ## Draining the executor -/

/-- The outputs for the rows of a bucket, each of them with the right columns of the tuple
that the one before it was written to. -/
inductive Chain (plan : HashJoinPlanNode) : List (List Value) → Tuple → List Tuple → Prop
  | nil {tuple : Tuple} : Chain plan [] tuple []
  | cons {values : List Value} {rest : List (List Value)} {tuple output : Tuple}
      {outputs : List Tuple} (houtput : HashJoinExecutor.outputTuple plan values tuple = .ok output)
      (hrest : Chain plan rest output outputs) :
      Chain plan (values :: rest) tuple (output :: outputs)

/-- The executor has rows left in its buffer and right rows left in its child. -/
structure Probing (plan : HashJoinPlanNode) (hashTable : List HashJoinEntry)
    (buffer : List (List Value)) (rest : List (Tuple × RID)) (exec : HashJoinExecutor) : Prop where
  plan_eq : exec.plan = plan
  table_eq : exec.hashTable = hashTable
  buffer_eq : exec.outerTableBuffer.drop exec.nextPos = buffer
  rest_eq : exec.rightChild.rest = rest

section Draining

variable [DoubleText] {plan : HashJoinPlanNode} {hashTable : List HashJoinEntry}
  {buffer : List (List Value)} {row : Tuple × RID} {rest : List (Tuple × RID)}
  {exec : HashJoinExecutor} {bucket : Tuple × RID → List (List Value)}

theorem Probing.next_nil (h : Probing plan hashTable [] [] exec) (tuple : Tuple) :
    ∃ final, HashJoinExecutor.next (exec, tuple) = .ok (none, final) := by
  have hend : exec.nextPos ≥ exec.outerTableBuffer.length := List.drop_eq_nil_iff.mp h.buffer_eq
  rw [HashJoinExecutor.next, if_pos hend, h.rest_eq]
  exact ⟨_, rfl⟩

/-- With an empty buffer the executor looks up the next right row. -/
theorem Probing.next_row (h : Probing plan hashTable [] (row :: rest) exec)
    (hlookup : HashJoinExecutor.lookup plan hashTable row.1 =
      .ok (Grouping.nonempty (bucket row))) (tuple : Tuple) :
    ∃ exec', HashJoinExecutor.next (exec, tuple) = HashJoinExecutor.next (exec', row.1) ∧
      Probing plan hashTable (bucket row) rest exec' := by
  have hend : exec.nextPos ≥ exec.outerTableBuffer.length := List.drop_eq_nil_iff.mp h.buffer_eq
  have hfind := hlookup
  cases hbucket : bucket row with
  | nil =>
      refine ⟨{ exec with rightChild := { exec.rightChild with rest } }, ?_, h.plan_eq, h.table_eq,
        h.buffer_eq, rfl⟩
      rw [hbucket] at hfind
      -- a right row without a bucket is passed over
      have hskip : HashJoinExecutor.findRight exec.plan exec.hashTable (row :: rest) =
          HashJoinExecutor.findRight exec.plan exec.hashTable rest := by
        rw [HashJoinExecutor.findRight, h.plan_eq, h.table_eq, hfind]
        rfl
      have hlast : ((row :: rest).getLast?.map Prod.fst).getD tuple =
          (rest.getLast?.map Prod.fst).getD row.1 := by
        cases hrest : rest with
        | nil => rfl
        | cons next others =>
            rw [List.getLast?_cons_cons, List.getLast?_eq_some_getLast (List.cons_ne_nil _ _)]
            rfl
      rw [HashJoinExecutor.next, HashJoinExecutor.next, if_pos hend, if_pos hend, h.rest_eq, hskip,
        hlast]
  | cons values others =>
      refine ⟨{ exec with
        rightChild := { exec.rightChild with rest }
        outerTableBuffer := bucket row
        nextPos := 0 }, ?_, h.plan_eq, h.table_eq, hbucket, rfl⟩
      -- the bucket of the right row becomes the buffer
      have hfound : HashJoinExecutor.findRight exec.plan exec.hashTable (row :: rest) =
          .ok (some (row.1, bucket row), rest) := by
        rw [HashJoinExecutor.findRight, h.plan_eq, h.table_eq, hfind, hbucket]
        rfl
      have hstart : ¬ (0 : Nat) ≥ (bucket row).length := by
        rw [hbucket, List.length_cons]
        omega
      rw [HashJoinExecutor.next, HashJoinExecutor.next, if_pos hend, if_neg hstart, h.rest_eq,
        hfound]

/-- With rows in the buffer the executor puts out the next one. -/
theorem Probing.next_values {values : List Value}
    (h : Probing plan hashTable (values :: buffer) rest exec) (tuple : Tuple) :
    match HashJoinExecutor.outputTuple plan values tuple with
    | .error fault => HashJoinExecutor.next (exec, tuple) = .error fault
    | .ok output => ∃ exec',
        HashJoinExecutor.next (exec, tuple) = .ok (some output, exec', output) ∧
        Probing plan hashTable buffer rest exec' := by
  obtain ⟨hlt, hvalues, hbuffer⟩ : exec.nextPos < exec.outerTableBuffer.length ∧
      exec.outerTableBuffer[exec.nextPos]? = some values ∧
      exec.outerTableBuffer.drop (exec.nextPos + 1) = buffer := by
    have hdrop := h.buffer_eq
    have hlt : exec.nextPos < exec.outerTableBuffer.length := by
      by_contra hge
      rw [List.drop_eq_nil_iff.mpr (not_lt.mp hge)] at hdrop
      cases hdrop
    rw [List.drop_eq_getElem_cons hlt, List.cons.injEq] at hdrop
    exact ⟨hlt, by rw [List.getElem?_eq_getElem hlt, hdrop.1], hdrop.2⟩
  have hnext : HashJoinExecutor.next (exec, tuple) =
      match HashJoinExecutor.outputTuple plan values tuple with
      | .error fault => .error fault
      | .ok output => .ok (some output, { exec with nextPos := exec.nextPos + 1 }, output) := by
    rewrite [HashJoinExecutor.next, if_neg (not_le.mpr hlt), HashJoinExecutor.emitNext, hvalues,
      h.plan_eq]
    rfl
  rw [hnext]
  cases HashJoinExecutor.outputTuple plan values tuple with
  | error fault => rfl
  | ok output => exact ⟨_, rfl, h.plan_eq, h.table_eq, hbuffer, h.rest_eq⟩

/-- The outputs for what is left in the buffer and of the right rows. -/
def Yields (plan : HashJoinPlanNode) (bucket : Tuple × RID → List (List Value))
    (buffer : List (List Value)) (tuple : Tuple) (rest : List (Tuple × RID))
    (outputs : List Tuple) : Prop :=
  ∃ first others, Chain plan buffer tuple first ∧
    List.Forall₂ (fun row outputs => Chain plan (bucket row) row.1 outputs) rest others ∧
    outputs = first ++ others.flatten

omit [DoubleText] in
theorem yields_cons_iff {values : List Value} {tuple : Tuple} {outputs : List Tuple} :
    Yields plan bucket (values :: buffer) tuple rest outputs ↔
      ∃ output others, HashJoinExecutor.outputTuple plan values tuple = .ok output ∧
        outputs = output :: others ∧ Yields plan bucket buffer output rest others := by
  constructor
  · rintro ⟨first, others, hchain, hrest, rfl⟩
    cases hchain with
    | @cons _ _ _ output outputs houtput hchain =>
        exact ⟨output, _, houtput, rfl, outputs, others, hchain, hrest, rfl⟩
  · rintro ⟨output, _, houtput, rfl, first, others, hchain, hrest, rfl⟩
    exact ⟨output :: first, others, .cons houtput hchain, hrest, rfl⟩

omit [DoubleText] in
theorem yields_nil_cons_iff {tuple : Tuple} {outputs : List Tuple} :
    Yields plan bucket [] tuple (row :: rest) outputs ↔
      Yields plan bucket (bucket row) row.1 rest outputs := by
  constructor
  · rintro ⟨first, others, hchain, hrest, rfl⟩
    cases hchain
    obtain ⟨outputs, others, hrow, hothers, rfl⟩ := List.forall₂_cons_left_iff.mp hrest
    exact ⟨outputs, others, hrow, hothers, rfl⟩
  · rintro ⟨first, others, hchain, hrest, rfl⟩
    exact ⟨[], first :: others, .nil, .cons hchain hrest, rfl⟩

/-- A value of the buffer is put out first, whatever the rest of the buffer yields. -/
theorem Probing.drains_values_iff {values : List Value} {tuple : Tuple} {outputs : List Tuple}
    (h : Probing plan hashTable (values :: buffer) rest exec)
    (ih : ∀ exec tuple outputs, Probing plan hashTable buffer rest exec →
      (Drains HashJoinExecutor.next (exec, tuple) outputs ↔
        Yields plan bucket buffer tuple rest outputs)) :
    Drains HashJoinExecutor.next (exec, tuple) outputs ↔
      Yields plan bucket (values :: buffer) tuple rest outputs := by
  have hnext := h.next_values tuple
  rw [yields_cons_iff]
  cases houtput : HashJoinExecutor.outputTuple plan values tuple with
  | error fault =>
      rw [houtput] at hnext
      refine iff_of_false (not_drains_of_error hnext) ?_
      rintro ⟨_, _, hok, -⟩
      cases hok
  | ok output =>
      rw [houtput] at hnext
      obtain ⟨exec', hnext, hexec'⟩ := hnext
      rw [drains_iff_of_some hnext]
      constructor
      · rintro ⟨others, rfl, hothers⟩
        exact ⟨output, others, rfl, rfl, (ih exec' output others hexec').mp hothers⟩
      · rintro ⟨_, others, hok, rfl, hothers⟩
        cases hok
        exact ⟨others, rfl, (ih exec' output others hexec').mpr hothers⟩

/-- Draining the executor yields a chain of outputs for each right row. -/
theorem Probing.drains_iff (h : Probing plan hashTable buffer rest exec)
    (hlookup : ∀ row ∈ rest, HashJoinExecutor.lookup plan hashTable row.1 =
      .ok (Grouping.nonempty (bucket row))) (tuple : Tuple) (outputs : List Tuple) :
    Drains HashJoinExecutor.next (exec, tuple) outputs ↔
      Yields plan bucket buffer tuple rest outputs := by
  -- on the right rows that are left, and for each of them on the buffer it fills
  induction rest generalizing buffer exec tuple outputs with
  | nil =>
      induction buffer generalizing exec tuple outputs with
      | nil =>
          obtain ⟨final, hnext⟩ := h.next_nil tuple
          rw [drains_iff_of_none hnext]
          constructor
          · rintro rfl
            exact ⟨[], [], .nil, .nil, rfl⟩
          · rintro ⟨first, others, hchain, hrest, rfl⟩
            cases hchain
            cases hrest
            rfl
      | cons values buffer ih =>
          exact h.drains_values_iff fun exec tuple outputs h => ih h tuple outputs
  | cons row rest ihRest =>
      have hrow := hlookup row List.mem_cons_self
      have hothers := fun other hmem => hlookup other (List.mem_cons_of_mem _ hmem)
      induction buffer generalizing exec tuple outputs with
      | nil =>
          obtain ⟨exec', hnext, hexec'⟩ := h.next_row hrow tuple
          rw [drains_congr hnext, yields_nil_cons_iff]
          exact ihRest hexec' hothers row.1 outputs
      | cons values buffer ih =>
          exact h.drains_values_iff fun exec tuple outputs h => ih h tuple outputs

end Draining

/-! ## The join -/

/-- The expression with its columns on one side of a join. -/
def Expression.onSide (tupleIdx : Nat) : Expression → Expression
  | .columnValue _ colIdx => .columnValue tupleIdx colIdx
  | .constantValue val => .constantValue val
  | .comparison left right compType =>
      .comparison (onSide tupleIdx left) (onSide tupleIdx right) compType
  | .aggregateValue isGroupByTerm termIdx => .aggregateValue isGroupByTerm termIdx

/-- The nested loop join with the equality of the keys as its predicate. -/
def HashJoinPlanNode.nestedLoop (plan : HashJoinPlanNode) : NestedLoopJoinPlanNode where
  outputSchema := plan.outputSchema
  leftSchema := plan.leftSchema
  rightSchema := plan.rightSchema
  predicate := some (.comparison (plan.leftJoinKeyExpression.onSide 0)
    (plan.rightJoinKeyExpression.onSide 1) .equal)

/-- The output row for a left row and a tuple with the right columns. -/
def joinedRow (plan : HashJoinPlanNode) (leftRow : Tuple × RID) (rightTuple : Tuple) :
    Except EvalFault Tuple := do
  let values ← outputValues
    (NestedLoopJoinExecutor.readColumn plan.nestedLoop leftRow.1 rightTuple) plan.outputSchema
  Tuple.ofValues values plan.outputSchema

theorem Schema.length_placed (schema : Schema) : schema.placed.length = schema.columns.length := by
  unfold Schema.placed
  generalize (0 : Nat) = offset
  induction schema.columns generalizing offset with
  | nil => rfl
  | cons column rest ih => rw [Schema.placeFrom, List.length_cons, ih, List.length_cons]

/-- The values of the hash table are those of the left tuple. -/
theorem readColumn_eq {plan : HashJoinPlanNode} {leftRow : Tuple × RID} {values : List Value}
    (hvalues : HashJoinExecutor.leftValues plan leftRow.1 = .ok values) (tuple : Tuple) :
    HashJoinExecutor.readColumn plan values tuple =
      NestedLoopJoinExecutor.readColumn plan.nestedLoop leftRow.1 tuple := by
  have hall := Except.mapM_eq_ok_iff.mp hvalues
  have hlength : plan.leftSchema.columns.length = values.length :=
    List.length_range.symm.trans hall.length_eq
  funext expr
  cases expr with
  | columnValue tupleIdx colIdx =>
      rw [HashJoinExecutor.readColumn, NestedLoopJoinExecutor.readColumn]
      -- the tuple index 0 stands for the left row, of which the table keeps the values
      by_cases hside : tupleIdx = 0
      · rw [if_pos hside, if_pos hside]
        by_cases hlt : colIdx < values.length
        · have hget := hall.get (by rwa [List.length_range, hlength]) hlt
          rw [List.get_eq_getElem, List.getElem_range] at hget
          rw [List.getElem?_eq_getElem hlt]
          exact hget.symm
        · have hnone : plan.leftSchema.placed[colIdx]? = none := by
            rw [List.getElem?_eq_none_iff, Schema.length_placed, hlength]
            exact not_lt.mp hlt
          rw [List.getElem?_eq_none_iff.mpr (not_lt.mp hlt)]
          unfold Tuple.getValue HashJoinPlanNode.nestedLoop
          dsimp only
          rw [hnone]
      · rw [if_neg hside, if_neg hside]
        rfl
  | constantValue val => rfl
  | comparison left right compType => rfl
  | aggregateValue isGroupByTerm termIdx => rfl

theorem outputTuple_eq {plan : HashJoinPlanNode} {leftRow : Tuple × RID} {values : List Value}
    (hvalues : HashJoinExecutor.leftValues plan leftRow.1 = .ok values) (tuple : Tuple) :
    HashJoinExecutor.outputTuple plan values tuple = joinedRow plan leftRow tuple := by
  unfold HashJoinExecutor.outputTuple joinedRow
  rw [readColumn_eq hvalues]

section Join

variable [DoubleText] {plan : HashJoinPlanNode} {left right : List (Tuple × RID)}

/-- The comparison of the keys of a left and a right row. -/
def keysEqual (plan : HashJoinPlanNode) (leftRow rightRow : Tuple × RID) :
    Except EvalFault CmpBool := do
  let leftKey ← plan.leftJoinKeyExpression.evaluate leftRow.1 plan.leftSchema
  let rightKey ← plan.rightJoinKeyExpression.evaluate rightRow.1 plan.rightSchema
  leftKey.compareEquals rightKey

theorem evaluateIn_onSide_left (leftTuple rightTuple : Tuple) (leftSchema rightSchema : Schema)
    (expr : Expression) :
    (expr.onSide 0).evaluateIn (Context.ofJoin leftTuple leftSchema rightTuple rightSchema) =
      expr.evaluate leftTuple leftSchema := by
  induction expr with
  | columnValue tupleIdx colIdx => rfl
  | constantValue val => rfl
  | comparison left right compType ihLeft ihRight =>
      unfold Expression.evaluate at ihLeft ihRight ⊢
      rw [Expression.onSide, Expression.evaluateIn, Expression.evaluateIn, ihLeft, ihRight]
  | aggregateValue isGroupByTerm termIdx => rfl

theorem evaluateIn_onSide_right (leftTuple rightTuple : Tuple) (leftSchema rightSchema : Schema)
    (expr : Expression) :
    (expr.onSide 1).evaluateIn (Context.ofJoin leftTuple leftSchema rightTuple rightSchema) =
      expr.evaluate rightTuple rightSchema := by
  induction expr with
  | columnValue tupleIdx colIdx => rfl
  | constantValue val => rfl
  | comparison left right compType ihLeft ihRight =>
      unfold Expression.evaluate at ihLeft ihRight ⊢
      rw [Expression.onSide, Expression.evaluateIn, Expression.evaluateIn, ihLeft, ihRight]
  | aggregateValue isGroupByTerm termIdx => rfl

/-- The predicate of the nested loop join is the comparison of the keys. -/
theorem truthIn_nestedLoop (plan : HashJoinPlanNode) (pair : (Tuple × RID) × (Tuple × RID)) :
    truthIn (Context.ofJoin pair.1.1 plan.leftSchema pair.2.1 plan.rightSchema)
        (plan.leftJoinKeyExpression.onSide 0) (plan.rightJoinKeyExpression.onSide 1) .equal =
      keysEqual plan pair.1 pair.2 := by
  unfold truthIn keysEqual
  rw [evaluateIn_onSide_left, evaluateIn_onSide_right]
  rfl

/-- The left rows whose keys equal that of a right row. -/
def matching (plan : HashJoinPlanNode) (left : List (Tuple × RID)) (rightRow : Tuple × RID) :
    List (Tuple × RID) :=
  left.filter fun leftRow => keysEqual plan leftRow rightRow = .ok .cmpTrue

/-- The pairs with equal keys in the order in which the hash join goes through them. -/
def joinPairs (plan : HashJoinPlanNode) (left right : List (Tuple × RID)) :
    List ((Tuple × RID) × (Tuple × RID)) :=
  right.flatMap fun rightRow => (matching plan left rightRow).map (·, rightRow)

/-- The keys have one type, none is NULL, and the left rows have all their columns. -/
def OneTypeKeys (plan : HashJoinPlanNode) (left right : List (Tuple × RID)) : Prop :=
  ∃ typeId,
    (∀ row ∈ left, (∃ key, plan.leftJoinKeyExpression.evaluate row.1 plan.leftSchema = .ok key ∧
      key.getTypeId = typeId ∧ key.isNull = false) ∧
      ∃ values, HashJoinExecutor.leftValues plan row.1 = .ok values) ∧
    ∀ row ∈ right, ∃ key, plan.rightJoinKeyExpression.evaluate row.1 plan.rightSchema = .ok key ∧
      key.getTypeId = typeId ∧ key.isNull = false

/-- Every left key can be compared with every key. -/
def KeysComparable (plan : HashJoinPlanNode) (left right : List (Tuple × RID)) : Prop :=
  ∀ row ∈ left, ∀ key, plan.leftJoinKeyExpression.evaluate row.1 plan.leftSchema = .ok key →
    (∀ row' ∈ left, ∀ key',
      plan.leftJoinKeyExpression.evaluate row'.1 plan.leftSchema = .ok key' →
      ∃ truth, key.compareEquals key' = .ok truth) ∧
    ∀ row' ∈ right, ∀ key',
      plan.rightJoinKeyExpression.evaluate row'.1 plan.rightSchema = .ok key' →
      (∃ truth, key.compareEquals key' = .ok truth) ∧ ∃ truth, key'.compareEquals key = .ok truth

/-- What the hash join needs of its rows. -/
structure JoinsWell (plan : HashJoinPlanNode) (left right : List (Tuple × RID)) : Prop where
  /-- Equal keys have equal hashes. -/
  hashes : ∀ leftRow ∈ left, ∀ rightRow ∈ right, ∀ leftKey rightKey,
    plan.leftJoinKeyExpression.evaluate leftRow.1 plan.leftSchema = .ok leftKey →
    plan.rightJoinKeyExpression.evaluate rightRow.1 plan.rightSchema = .ok rightKey →
    leftKey.compareEquals rightKey = .ok .cmpTrue →
    HashUtil.hashValue leftKey = HashUtil.hashValue rightKey
  /-- The output rows can be computed. -/
  outputs : ∀ rightRow ∈ right, ∀ leftRow ∈ matching plan left rightRow,
    ∃ output, joinedRow plan leftRow rightRow.1 = .ok output
  /-- The output row of a pair has the right columns, as far as they are put out, where the
  right row has them, if another left row with the key follows. -/
  kept : ∀ rightRow ∈ right, (matching plan left rightRow).IsChain fun leftRow next =>
    ∀ output, joinedRow plan leftRow rightRow.1 = .ok output →
      joinedRow plan next output = joinedRow plan next rightRow.1

/-- Draining the hash join yields the joined rows, each right row with the left ones. -/
def JoinsInOrder (plan : HashJoinPlanNode) (left right : List (Tuple × RID)) : Prop :=
  ∃ exec outputs, HashJoinExecutor.new plan left right = .ok exec ∧
    (∀ tuple, Drains HashJoinExecutor.next (exec.init, tuple) outputs) ∧
    List.Forall₂ (fun pair output => joinedRow plan pair.1 pair.2.1 = .ok output)
      (joinPairs plan left right) outputs

/-- Draining the hash join yields a row for each pair with equal keys, as a multiset, and
that is what draining the nested loop join yields. -/
def IsTheJoin (plan : HashJoinPlanNode) (left right : List (Tuple × RID)) : Prop :=
  ∃ exec outputs joined, HashJoinExecutor.new plan left right = .ok exec ∧
    (∀ tuple, Drains HashJoinExecutor.next (exec.init, tuple) outputs) ∧
    Drains NestedLoopJoinExecutor.next
      (NestedLoopJoinExecutor.new plan.nestedLoop left right).init joined ∧
    List.Forall₂ (fun pair output => joinedRow plan pair.1 pair.2.1 = .ok output)
      ((left.product right).filter fun pair => keysEqual plan pair.1 pair.2 = .ok .cmpTrue)
      (joined.map Prod.fst) ∧
    outputs.Perm (joined.map Prod.fst)

/-! ## Chains of outputs -/

variable {leftRow : Tuple × RID} {rightRow : Tuple × RID} {rows : List (Tuple × RID)}
  {values : Tuple × RID → List Value}

omit [DoubleText] in
theorem chain_length {buffer : List (List Value)} {tuple : Tuple} {outputs : List Tuple}
    (h : Chain plan buffer tuple outputs) : outputs.length = buffer.length := by
  induction h with
  | nil => rfl
  | cons _ _ ih => rw [List.length_cons, List.length_cons, ih]

omit [DoubleText] in
/-- Output rows that keep the right columns make a chain of the joined rows. -/
theorem chain_of_kept {tuple : Tuple}
    (hvalues : ∀ row ∈ rows, HashJoinExecutor.leftValues plan row.1 = .ok (values row))
    (houtputs : ∀ row ∈ rows, ∃ output, joinedRow plan row rightRow.1 = .ok output)
    (hkept : rows.IsChain fun leftRow next => ∀ output,
      joinedRow plan leftRow rightRow.1 = .ok output →
      joinedRow plan next output = joinedRow plan next rightRow.1)
    (hfirst : ∀ row ∈ rows.head?, joinedRow plan row tuple = joinedRow plan row rightRow.1) :
    ∃ outputs, Chain plan (rows.map values) tuple outputs ∧
      List.Forall₂ (fun row output => joinedRow plan row rightRow.1 = .ok output) rows outputs := by
  induction rows generalizing tuple with
  | nil => exact ⟨[], .nil, .nil⟩
  | cons row rest ih =>
      obtain ⟨output, houtput⟩ := houtputs row List.mem_cons_self
      have hnext : ∀ next ∈ rest.head?, joinedRow plan next output =
          joinedRow plan next rightRow.1 := by
        intro next hmem
        cases rest with
        | nil => cases hmem
        | cons head others =>
            cases hmem
            exact (List.isChain_cons_cons.mp hkept).1 output houtput
      obtain ⟨outputs, hchain, hjoined⟩ :=
        ih (fun other hmem => hvalues other (List.mem_cons_of_mem _ hmem))
          (fun other hmem => houtputs other (List.mem_cons_of_mem _ hmem)) hkept.of_cons hnext
      refine ⟨output :: outputs, .cons ?_ hchain, .cons houtput hjoined⟩
      rw [outputTuple_eq (hvalues row List.mem_cons_self), hfirst row rfl, houtput]

omit [DoubleText] in
/-- A chain of the joined rows comes from output rows that keep the right columns. -/
theorem kept_of_chain {tuple : Tuple} {outputs : List Tuple}
    (hvalues : ∀ row ∈ rows, HashJoinExecutor.leftValues plan row.1 = .ok (values row))
    (hchain : Chain plan (rows.map values) tuple outputs)
    (hjoined : List.Forall₂ (fun row output => joinedRow plan row rightRow.1 = .ok output)
      rows outputs) :
    rows.IsChain fun leftRow next => ∀ output, joinedRow plan leftRow rightRow.1 = .ok output →
      joinedRow plan next output = joinedRow plan next rightRow.1 := by
  induction rows generalizing tuple outputs with
  | nil => exact .nil
  | cons row rest ih =>
      cases hchain with
      | cons houtput hrest =>
          obtain ⟨hrow, hothers⟩ := List.forall₂_cons.mp hjoined
          have htail := ih (fun other hmem => hvalues other (List.mem_cons_of_mem _ hmem)) hrest
            hothers
          cases rest with
          | nil => exact .singleton row
          | cons next others =>
              refine .cons_cons ?_ htail
              intro output houtput
              rw [hrow] at houtput
              cases houtput
              cases hrest with
              | cons hnext _ =>
                  rw [outputTuple_eq (hvalues next (by simp))] at hnext
                  rw [hnext, (List.forall₂_cons.mp hothers).1]

/-! ## When the hash join is the join -/

theorem keyed_of_oneTypeKeys (hkeys : OneTypeKeys plan left right) :
    ∃ typeId leftKey rightKey values, Keyed plan left right typeId leftKey rightKey values := by
  obtain ⟨typeId, hleft, hright⟩ := hkeys
  -- what the functions return outside the rows does not matter
  have hleftKey : ∀ row, ∃ key, row ∈ left →
      plan.leftJoinKeyExpression.evaluate row.1 plan.leftSchema = .ok key ∧
        key.getTypeId = typeId ∧ key.isNull = false := by
    intro row
    by_cases hmem : row ∈ left
    · obtain ⟨⟨key, hkey⟩, -⟩ := hleft row hmem
      exact ⟨key, fun _ => hkey⟩
    · exact ⟨.integer 0, fun h => absurd h hmem⟩
  have hvalues : ∀ row, ∃ values, row ∈ left →
      HashJoinExecutor.leftValues plan row.1 = .ok values := by
    intro row
    by_cases hmem : row ∈ left
    · obtain ⟨-, values, hvalues⟩ := hleft row hmem
      exact ⟨values, fun _ => hvalues⟩
    · exact ⟨[], fun h => absurd h hmem⟩
  have hrightKey : ∀ row, ∃ key, row ∈ right →
      plan.rightJoinKeyExpression.evaluate row.1 plan.rightSchema = .ok key ∧
        key.getTypeId = typeId ∧ key.isNull = false := by
    intro row
    by_cases hmem : row ∈ right
    · obtain ⟨key, hkey⟩ := hright row hmem
      exact ⟨key, fun _ => hkey⟩
    · exact ⟨.integer 0, fun h => absurd h hmem⟩
  choose leftKey hleftKey using hleftKey
  choose rightKey hrightKey using hrightKey
  choose values hvalues using hvalues
  exact ⟨typeId, leftKey, rightKey, values, {
    evaluateLeft := fun row hmem => (hleftKey row hmem).1
    evaluateRight := fun row hmem => (hrightKey row hmem).1
    leftValues := hvalues
    leftOf := fun row hmem => (hleftKey row hmem).2
    rightOf := fun row hmem => (hrightKey row hmem).2 }⟩

variable {typeId : TypeId} {leftKey rightKey : Tuple × RID → Value}

theorem Keyed.keysEqual_eq (h : Keyed plan left right typeId leftKey rightKey values)
    (hleft : leftRow ∈ left) (hright : rightRow ∈ right) :
    keysEqual plan leftRow rightRow = (leftKey leftRow).compareEquals (rightKey rightRow) := by
  unfold keysEqual
  rw [h.evaluateLeft leftRow hleft, h.evaluateRight rightRow hright]
  rfl

/-- The left rows that a right row finds in the hash table. -/
def found (left : List (Tuple × RID)) (leftKey rightKey : Tuple × RID → Value)
    (rightRow : Tuple × RID) : List (Tuple × RID) :=
  left.filter fun leftRow => sameKey (hashOf (rightKey rightRow), rightKey rightRow)
    (hashOf (leftKey leftRow), leftKey leftRow)

theorem Keyed.sameKey_iff (h : Keyed plan left right typeId leftKey rightKey values)
    (hleft : leftRow ∈ left) (hright : rightRow ∈ right) :
    sameKey (hashOf (rightKey rightRow), rightKey rightRow)
        (hashOf (leftKey leftRow), leftKey leftRow) = true ↔
      hashOf (leftKey leftRow) = hashOf (rightKey rightRow) ∧
        keysEqual plan leftRow rightRow = .ok .cmpTrue := by
  rw [h.keysEqual_eq hleft hright, Value.compareEquals_eq_true_iff
    ((h.leftOf _ hleft).1.trans (h.rightOf _ hright).1.symm) (h.leftOf _ hleft).2
    (h.rightOf _ hright).2]
  rw [BusTub.sameKey_iff (a := (hashOf (rightKey rightRow), rightKey rightRow))
    (b := (hashOf (leftKey leftRow), leftKey leftRow)) (h.rightOf _ hright) (h.leftOf _ hleft)]
  exact and_congr_right' (exists_congr fun _ => and_comm)

theorem Keyed.found_eq (h : Keyed plan left right typeId leftKey rightKey values)
    (hright : rightRow ∈ right) : found left leftKey rightKey rightRow =
      (matching plan left rightRow).filter
        fun leftRow => hashOf (leftKey leftRow) = hashOf (rightKey rightRow) := by
  unfold found matching
  rw [List.filter_filter]
  refine List.filter_congr fun leftRow hleft => ?_
  rw [Bool.eq_iff_iff, h.sameKey_iff hleft hright]
  simp

/-- The right rows find all left rows with equal keys exactly when those have the same
hashes. -/
theorem Keyed.found_eq_matching_iff (h : Keyed plan left right typeId leftKey rightKey values)
    (hright : rightRow ∈ right) : found left leftKey rightKey rightRow =
      matching plan left rightRow ↔ ∀ leftRow ∈ left,
        keysEqual plan leftRow rightRow = .ok .cmpTrue →
        hashOf (leftKey leftRow) = hashOf (rightKey rightRow) := by
  rw [h.found_eq hright, List.filter_eq_self]
  constructor
  · intro hall leftRow hleft hequal
    exact of_decide_eq_true (hall leftRow (List.mem_filter.mpr ⟨hleft, decide_eq_true hequal⟩))
  · intro hall leftRow hmem
    obtain ⟨hleft, hequal⟩ := List.mem_filter.mp hmem
    exact decide_eq_true (hall leftRow hleft (of_decide_eq_true hequal))

/-- Draining the hash join yields a chain of outputs for each right row. -/
theorem Keyed.drains_iff (h : Keyed plan left right typeId leftKey rightKey values)
    (hcomparable : KeysComparable plan left right) :
    ∃ exec, HashJoinExecutor.new plan left right = .ok exec ∧ ∀ tuple outputs,
      Drains HashJoinExecutor.next (exec.init, tuple) outputs ↔ ∃ others,
        List.Forall₂ (fun row outputs =>
          Chain plan ((found left leftKey rightKey row).map values) row.1 outputs) right others ∧
        outputs = others.flatten := by
  obtain ⟨exec, hnew, hplan, hrows, hlookup⟩ := h.new_spec
    (fun row hrow row' hrow' => (hcomparable row hrow _ (h.evaluateLeft row hrow)).1 row' hrow' _
      (h.evaluateLeft row' hrow'))
    (fun row hrow row' hrow' => ((hcomparable row' hrow' _ (h.evaluateLeft row' hrow')).2 row hrow _
      (h.evaluateRight row hrow)).2)
  refine ⟨exec, hnew, fun tuple outputs => ?_⟩
  have hprobing : Probing plan exec.hashTable [] right exec.init := ⟨hplan, rfl, rfl, hrows⟩
  rw [hprobing.drains_iff hlookup tuple outputs]
  constructor
  · rintro ⟨first, others, hfirst, hothers, rfl⟩
    cases hfirst
    exact ⟨others, hothers, rfl⟩
  · rintro ⟨others, hothers, rfl⟩
    exact ⟨[], others, .nil, hothers, rfl⟩

theorem Keyed.joinsInOrder_of_joinsWell
    (h : Keyed plan left right typeId leftKey rightKey values)
    (hcomparable : KeysComparable plan left right) (hwell : JoinsWell plan left right) :
    JoinsInOrder plan left right := by
  obtain ⟨exec, hnew, hdrains⟩ := h.drains_iff hcomparable
  -- equal keys of equal hashes are found in the table
  have hfound : ∀ row ∈ right, found left leftKey rightKey row = matching plan left row := by
    intro row hrow
    refine (h.found_eq_matching_iff hrow).mpr fun leftRow hleft hequal => ?_
    rw [h.keysEqual_eq hleft hrow] at hequal
    have hhash := hwell.hashes leftRow hleft row hrow _ _ (h.evaluateLeft leftRow hleft)
      (h.evaluateRight row hrow) hequal
    unfold hashOf
    rw [hhash]
  have hchains : ∀ row ∈ right, ∃ outputs,
      Chain plan ((found left leftKey rightKey row).map values) row.1 outputs ∧
        List.Forall₂ (fun leftRow output => joinedRow plan leftRow row.1 = .ok output)
          (matching plan left row) outputs := by
    intro row hrow
    rw [hfound row hrow]
    refine chain_of_kept ?_ (hwell.outputs row hrow) (hwell.kept row hrow) fun _ _ => rfl
    intro leftRow hmem
    exact h.leftValues leftRow (List.mem_filter.mp hmem).1
  obtain ⟨others, hothers⟩ := exists_forall₂ hchains
  refine ⟨exec, others.flatten, hnew, ?_, ?_⟩
  · intro tuple
    exact (hdrains tuple _).mpr ⟨others, hothers.imp fun _ _ hboth => hboth.1, rfl⟩
  · unfold joinPairs
    clear hdrains hnew hchains hfound hwell h hcomparable
    induction hothers with
    | nil => exact .nil
    | @cons row outputs rest others hrow _ ih =>
        rw [List.flatMap_cons, List.flatten_cons]
        refine List.rel_append ?_ ih
        exact List.forall₂_map_left_iff.mpr hrow.2

theorem Keyed.joinsWell_of_joinsInOrder
    (h : Keyed plan left right typeId leftKey rightKey values)
    (hcomparable : KeysComparable plan left right) (horder : JoinsInOrder plan left right) :
    JoinsWell plan left right := by
  obtain ⟨exec, hnew, hdrains⟩ := h.drains_iff hcomparable
  obtain ⟨exec', outputs, hnew', hall, hjoined⟩ := horder
  rw [hnew] at hnew'
  cases hnew'
  obtain ⟨others, hchains, rfl⟩ := (hdrains [] outputs).mp (hall [])
  have hpairs : joinPairs plan left right = (right.map fun rightRow =>
      (matching plan left rightRow).map (·, rightRow)).flatten := List.flatMap_def
  rw [hpairs] at hjoined
  -- no right row puts out more than its matching left rows, so that none puts out fewer
  have hle : List.Forall₂ (fun l l' => l'.length ≤ l.length) (right.map fun rightRow =>
      (matching plan left rightRow).map (·, rightRow)) others := by
    rw [List.forall₂_map_left_iff]
    refine ((List.forall₂_and_left _ _).mpr ⟨fun row hrow => hrow, hchains⟩).imp ?_
    rintro row outputs ⟨hrow, hchain⟩
    rw [chain_length hchain, List.length_map, List.length_map, h.found_eq hrow]
    exact List.length_filter_le _ _
  have hlengths := Grouping.forall₂_length_eq hle hjoined.length_eq
  have hsplit := List.forall₂_map_left_iff.mp (Grouping.forall₂_flatten hlengths hjoined)
  have hlengths := List.forall₂_map_left_iff.mp hlengths
  have hrows : ∀ row ∈ right, ∃ outputs,
      Chain plan ((found left leftKey rightKey row).map values) row.1 outputs ∧
        found left leftKey rightKey row = matching plan left row ∧
        List.Forall₂ (fun leftRow output => joinedRow plan leftRow row.1 = .ok output)
          (matching plan left row) outputs := by
    intro row hrow
    obtain ⟨i, hi, rfl⟩ := List.getElem_of_mem hrow
    have hother : i < others.length := hchains.length_eq ▸ hi
    have hchain := hchains.get hi hother
    have hlength := hlengths.get hi hother
    refine ⟨_, hchain, ?_, List.forall₂_map_left_iff.mp (hsplit.get hi hother)⟩
    rw [chain_length hchain, List.length_map, List.length_map] at hlength
    rw [List.get_eq_getElem] at hlength
    rw [h.found_eq hrow] at hlength ⊢
    exact List.filter_eq_self.mpr (List.length_filter_eq_length_iff.mp hlength.symm)
  refine ⟨?_, ?_, ?_⟩
  · intro leftRow hleft row hrow key key' hkey hkey' hequal
    obtain ⟨-, -, hfound, -⟩ := hrows row hrow
    rw [h.evaluateLeft leftRow hleft] at hkey
    rw [h.evaluateRight row hrow] at hkey'
    cases hkey
    cases hkey'
    -- a matching row that is put out was found under its hash
    have hhash := (h.found_eq_matching_iff hrow).mp hfound leftRow hleft
      ((h.keysEqual_eq hleft hrow).trans hequal)
    rw [hashValue_eq (h.leftOf _ hleft).2, hashValue_eq (h.rightOf _ hrow).2, hhash]
  · intro row hrow leftRow hmem
    obtain ⟨outputs, -, -, hjoined⟩ := hrows row hrow
    obtain ⟨i, hi, rfl⟩ := List.getElem_of_mem hmem
    exact ⟨_, hjoined.get hi (hjoined.length_eq ▸ hi)⟩
  · intro row hrow
    obtain ⟨outputs, hchain, hfound, hjoined⟩ := hrows row hrow
    rw [hfound] at hchain
    exact kept_of_chain (fun leftRow hmem => h.leftValues leftRow (List.mem_filter.mp hmem).1)
      hchain hjoined

omit [DoubleText] in
theorem output_nestedLoop (plan : HashJoinPlanNode) (pair : (Tuple × RID) × (Tuple × RID)) :
    NestedLoopJoinExecutor.output plan.nestedLoop pair =
      joinedRow plan pair.1 pair.2.1 >>= fun tuple => .ok (tuple, pair.1.2) := by
  unfold NestedLoopJoinExecutor.output joinedRow
  rw [bind_assoc]
  rfl

/-- The nested loop join tests whether the keys are equal. -/
theorem passes_nestedLoop {pair : (Tuple × RID) × (Tuple × RID)} {truth : CmpBool}
    (htruth : keysEqual plan pair.1 pair.2 = .ok truth) :
    NestedLoopJoinExecutor.passes plan.nestedLoop pair = .ok (truth != .cmpFalse) := by
  have hpasses := passesIn_comparison
    (Context.ofJoin pair.1.1 plan.leftSchema pair.2.1 plan.rightSchema)
    (plan.leftJoinKeyExpression.onSide 0) (plan.rightJoinKeyExpression.onSide 1) .equal
  rw [truthIn_nestedLoop, htruth] at hpasses
  exact hpasses

/-- Draining the nested loop join yields the joined rows of the pairs with equal keys. -/
theorem drains_nestedLoop (hcomputed : ∀ pair ∈ left.product right,
      ∃ truth, keysEqual plan pair.1 pair.2 = .ok truth ∧ truth ≠ .cmpNull)
    {expected : List Tuple}
    (hjoined : List.Forall₂ (fun pair output => joinedRow plan pair.1 pair.2.1 = .ok output)
      ((left.product right).filter fun pair => keysEqual plan pair.1 pair.2 = .ok .cmpTrue)
      expected) :
    ∃ joined, joined.map Prod.fst = expected ∧ Drains NestedLoopJoinExecutor.next
      (NestedLoopJoinExecutor.new plan.nestedLoop left right).init joined := by
  have haccepts : (left.product right).filter
      (accepts (NestedLoopJoinExecutor.passes plan.nestedLoop)) =
      (left.product right).filter fun pair => keysEqual plan pair.1 pair.2 = .ok .cmpTrue := by
    refine List.filter_congr fun pair hmem => ?_
    obtain ⟨truth, htruth, hknown⟩ := hcomputed pair hmem
    rw [accepts_of_ok (passes_nestedLoop htruth), htruth]
    cases truth with
    | cmpFalse => rfl
    | cmpTrue => rfl
    | cmpNull => exact absurd rfl hknown
  obtain ⟨joined, hfirst, houtputs⟩ : ∃ joined : List (Tuple × RID), joined.map Prod.fst = expected ∧
      List.Forall₂ (fun pair output =>
        NestedLoopJoinExecutor.output plan.nestedLoop pair = .ok output)
        ((left.product right).filter fun pair => keysEqual plan pair.1 pair.2 = .ok .cmpTrue)
        joined := by
    generalize (left.product right).filter _ = pairs at hjoined ⊢
    clear haccepts hcomputed
    induction hjoined with
    | nil => exact ⟨[], rfl, .nil⟩
    | @cons pair output pairs outputs houtput _ ih =>
        obtain ⟨joined, rfl, hrest⟩ := ih
        refine ⟨(output, pair.1.2) :: joined, rfl, .cons ?_ hrest⟩
        rw [output_nestedLoop, houtput]
        rfl
  refine ⟨joined, hfirst, ?_⟩
  have hfilters := NestedLoopJoinExecutor.filters plan.nestedLoop right
  rw [hfilters.drains_iff (NestedLoopJoinExecutor.joining_init plan.nestedLoop left right),
    emitted_eq_ok_iff, haccepts]
  refine ⟨fun pair hmem => ?_, houtputs⟩
  obtain ⟨truth, htruth, -⟩ := hcomputed pair hmem
  exact ⟨_, passes_nestedLoop htruth⟩

/-- Rows put out in the order of the hash join are the join as a multiset. -/
theorem Keyed.isTheJoin_of_joinsInOrder
    (h : Keyed plan left right typeId leftKey rightKey values)
    (hcomparable : KeysComparable plan left right) (horder : JoinsInOrder plan left right) :
    IsTheJoin plan left right := by
  obtain ⟨exec, outputs, hnew, hdrains, hjoined⟩ := horder
  have hperm := (Grouping.flatMap_filter_perm
    (fun l r => decide (keysEqual plan l r = .ok .cmpTrue)) left right).symm
  obtain ⟨expected, hexpected, houtputs⟩ := List.perm_comp_forall₂ hperm hjoined
  have hcomputed : ∀ pair ∈ left.product right,
      ∃ truth, keysEqual plan pair.1 pair.2 = .ok truth ∧ truth ≠ .cmpNull := by
    rintro ⟨leftRow, rightRow⟩ hmem
    obtain ⟨hleft, hright⟩ := List.mem_product.mp hmem
    obtain ⟨truth, htruth⟩ := ((hcomparable leftRow hleft _ (h.evaluateLeft leftRow hleft)).2
      rightRow hright _ (h.evaluateRight rightRow hright)).1
    refine ⟨truth, (h.keysEqual_eq hleft hright).trans htruth, ?_⟩
    rintro rfl
    obtain ⟨-, hnull | hnull⟩ := Value.compare_eq_null_iff.mp htruth
    · rw [(h.leftOf _ hleft).2] at hnull
      cases hnull
    · rw [(h.rightOf _ hright).2] at hnull
      cases hnull
  obtain ⟨joined, rfl, hnested⟩ := drains_nestedLoop hcomputed hexpected
  exact ⟨exec, outputs, joined, hnew, hdrains, hnested, hexpected, houtputs.symm⟩

/-- The hash join puts out the joined rows in its order if and only if equal keys have
equal hashes, the output rows can be computed, and each of them keeps the right columns
for the next one; then it is the join, and the same as the nested loop join. -/
theorem hashJoin_isTheJoin (plan : HashJoinPlanNode) (left right : List (Tuple × RID))
    (hkeys : OneTypeKeys plan left right) :
    (KeysComparable plan left right → JoinsWell plan left right → IsTheJoin plan left right) ∧
      (KeysComparable plan left right →
        (JoinsInOrder plan left right ↔ JoinsWell plan left right)) := by
  obtain ⟨typeId, leftKey, rightKey, values, h⟩ := keyed_of_oneTypeKeys hkeys
  refine ⟨fun hcomparable hwell => ?_, fun hcomparable => ⟨?_, ?_⟩⟩
  · exact h.isTheJoin_of_joinsInOrder hcomparable (h.joinsInOrder_of_joinsWell hcomparable hwell)
  · exact h.joinsWell_of_joinsInOrder hcomparable
  · exact h.joinsInOrder_of_joinsWell hcomparable

end Join

/-! ## Two left rows with one key -/

/-- A schema of two INTEGER columns. -/
def twoColumns (first second : Expression) : Schema :=
  { columns := [{ columnName := "a", columnType := .integer, expr := some first },
      { columnName := "b", columnType := .integer, expr := some second }] }

/-- The join of two tables of two columns on their first ones. -/
def firstColumnJoin (first second : Expression) : HashJoinPlanNode :=
  { outputSchema := twoColumns first second
    leftSchema := twoColumns (.columnValue 0 0) (.columnValue 0 1)
    rightSchema := twoColumns (.columnValue 0 0) (.columnValue 0 1)
    leftJoinKeyExpression := .columnValue 0 0
    rightJoinKeyExpression := .columnValue 0 0 }

/-- The bytes of a row of two INTEGERs. -/
def pairTuple (first second : UInt8) : Tuple := [first, 0, 0, 0, second, 0, 0, 0]

/-- The left rows `(1, 10)` and `(1, 20)`. -/
def twoLeftRows : List (Tuple × RID) := [(pairTuple 1 10, ⟨0, 0⟩), (pairTuple 1 20, ⟨0, 1⟩)]

/-- The right row `(1, 30)`. -/
def oneRightRow : List (Tuple × RID) := [(pairTuple 1 30, ⟨1, 0⟩)]

theorem oneTypeKeys_twoLeftRows (first second : Expression) :
    let _ := noDoubleText
    OneTypeKeys (firstColumnJoin first second) twoLeftRows oneRightRow := by
  intro _
  refine ⟨.integer, ?_, ?_⟩
  · intro row hmem
    rcases List.mem_cons.mp hmem with rfl | hmem
    · exact ⟨⟨.integer 1, rfl, rfl, rfl⟩, _, rfl⟩
    · rw [List.mem_singleton.mp hmem]
      exact ⟨⟨.integer 1, rfl, rfl, rfl⟩, _, rfl⟩
  · intro row hmem
    rw [List.mem_singleton.mp hmem]
    exact ⟨.integer 1, rfl, rfl, rfl⟩

/-- With the columns `(right.b, left.b)` put out, the second row has the `10` of the first
one for `right.b`. -/
theorem overwrittenTuple_not_isTheJoin :
    let _ := noDoubleText
    let plan := firstColumnJoin (.columnValue 1 1) (.columnValue 0 1)
    OneTypeKeys plan twoLeftRows oneRightRow ∧
      (∃ exec, HashJoinExecutor.new plan twoLeftRows oneRightRow = .ok exec ∧ ∀ tuple,
        Drains HashJoinExecutor.next (exec.init, tuple) [pairTuple 30 10, pairTuple 10 20]) ∧
      ¬ IsTheJoin plan twoLeftRows oneRightRow := by
  intro _ plan
  have hnew : ∃ exec, HashJoinExecutor.new plan twoLeftRows oneRightRow = .ok exec ∧ ∀ tuple,
      Drains HashJoinExecutor.next (exec.init, tuple) [pairTuple 30 10, pairTuple 10 20] := by
    let rows : List (List Value) := [[.integer 1, .integer 10], [.integer 1, .integer 20]]
    let exec : HashJoinExecutor :=
      { plan
        leftChild := { rows := twoLeftRows, rest := [] }
        rightChild := { rows := oneRightRow, rest := oneRightRow }
        hashTable := [{ hash := HashUtil.hashInt 1, key := .integer 1, rows }] }
    let after (nextPos : Nat) : HashJoinExecutor :=
      { exec.init with
        rightChild := { rows := oneRightRow, rest := [] }
        nextPos
        outerTableBuffer := rows }
    have hnew : HashJoinExecutor.new plan twoLeftRows oneRightRow = .ok exec := by decide
    have hfirst : ∀ tuple, HashJoinExecutor.next (exec.init, tuple) =
        HashJoinExecutor.next (exec.init, []) := fun _ => rfl
    have hone : HashJoinExecutor.next (exec.init, []) =
        .ok (some (pairTuple 30 10), after 1, pairTuple 30 10) := by decide
    have htwo : HashJoinExecutor.next (after 1, pairTuple 30 10) =
        .ok (some (pairTuple 10 20), after 2, pairTuple 10 20) := by decide
    have hend : HashJoinExecutor.next (after 2, pairTuple 10 20) =
        .ok (none, after 2, pairTuple 10 20) := by decide
    exact ⟨exec, hnew, fun tuple => .step ((hfirst tuple).trans hone) (.step htwo (.done hend))⟩
  refine ⟨oneTypeKeys_twoLeftRows _ _, hnew, ?_⟩
  rintro ⟨exec, outputs, joined, hnew', hdrains, -, hjoined, hperm⟩
  obtain ⟨exec', hnew, hdrains'⟩ := hnew
  rw [hnew] at hnew'
  cases hnew'
  rw [(hdrains []).unique (hdrains' [])] at hperm
  have hpairs : ((twoLeftRows.product oneRightRow).filter fun pair =>
      keysEqual plan pair.1 pair.2 = .ok .cmpTrue) = twoLeftRows.product oneRightRow := by
    decide
  rw [hpairs] at hjoined
  have hexpected : List.Forall₂ (fun pair output => joinedRow plan pair.1 pair.2.1 = .ok output)
      (twoLeftRows.product oneRightRow) [pairTuple 30 10, pairTuple 30 20] :=
    .cons (by decide) (.cons (by decide) .nil)
  have hunique := List.right_unique_forall₂' (fun _ _ _ hone hother =>
    Except.ok.inj (hone.symm.trans hother)) hjoined hexpected
  rw [hunique] at hperm
  exact absurd hperm (by decide)

/-- With the columns `(left.a, right.b)` put out, an output row has `right.b` where the right
row has it. -/
theorem hashJoin_isTheJoin_keptColumn :
    let _ := noDoubleText
    IsTheJoin (firstColumnJoin (.columnValue 0 0) (.columnValue 1 1)) twoLeftRows oneRightRow := by
  intro _
  have hkeys := oneTypeKeys_twoLeftRows (.columnValue 0 0) (.columnValue 1 1)
  have hleft : ∀ row ∈ twoLeftRows, Expression.evaluate row.1
      (twoColumns (.columnValue 0 0) (.columnValue 0 1)) (.columnValue 0 0) = .ok (.integer 1) := by
    decide
  have hright : ∀ row ∈ oneRightRow, Expression.evaluate row.1
      (twoColumns (.columnValue 0 0) (.columnValue 0 1)) (.columnValue 0 0) = .ok (.integer 1) := by
    decide
  have hequal : Value.compareEquals (.integer 1) (.integer 1) = .ok .cmpTrue := by decide
  refine (hashJoin_isTheJoin _ _ _ hkeys).1 ?_ ⟨?_, ?_, ?_⟩
  · intro row hrow key hkey
    cases (hleft row hrow).symm.trans hkey
    refine ⟨fun row' hrow' key' hkey' => ?_, fun row' hrow' key' hkey' => ?_⟩
    · cases (hleft row' hrow').symm.trans hkey'
      exact ⟨_, hequal⟩
    · cases (hright row' hrow').symm.trans hkey'
      exact ⟨⟨_, hequal⟩, _, hequal⟩
  · intro row hrow row' hrow' key key' hkey hkey' _
    cases (hleft row hrow).symm.trans hkey
    cases (hright row' hrow').symm.trans hkey'
    rfl
  · intro row hrow leftRow hmem
    have hall : ∀ leftRow ∈ twoLeftRows, ∀ row ∈ oneRightRow,
        joinedRow (firstColumnJoin (.columnValue 0 0) (.columnValue 1 1)) leftRow row.1 =
          .ok (pairTuple 1 30) := by
      decide
    exact ⟨_, hall leftRow (List.mem_filter.mp hmem).1 row hrow⟩
  · intro row hrow
    rw [List.mem_singleton.mp hrow]
    have hmatching : matching (firstColumnJoin (.columnValue 0 0) (.columnValue 1 1)) twoLeftRows
        (pairTuple 1 30, ⟨1, 0⟩) = twoLeftRows := by
      decide
    rw [hmatching]
    refine .cons_cons ?_ (.singleton _)
    intro output houtput
    have hfirst : joinedRow (firstColumnJoin (.columnValue 0 0) (.columnValue 1 1))
        (pairTuple 1 10, ⟨0, 0⟩) (pairTuple 1 30) = .ok (pairTuple 1 30) := by
      decide
    cases hfirst.symm.trans houtput
    rfl

end BusTub
