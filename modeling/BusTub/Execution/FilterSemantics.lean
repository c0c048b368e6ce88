import BusTub.Execution.AggregationExecutor
import BusTub.Library.Faults

/-! # Filters and unknown predicates

A comparison is TRUE, FALSE or NULL, and NULL exactly when one of its operands is. The
filters of the executors test the byte of the truth value, and that of NULL is not
zero: a row with a NULL operand passes.
-/

namespace BusTub

open Generator

universe u v w

/-! ## Comparisons with NULL -/

namespace Value

theorem getCmpBool_ne_null (b : Bool) : getCmpBool b ≠ .cmpNull := by
  cases b <;> exact nofun

theorem ok_getCmpBool_ne_null (b : Bool) :
    (.ok (getCmpBool b) : Except EvalFault CmpBool) ≠ .ok .cmpNull :=
  fun h => getCmpBool_ne_null b (Except.ok.inj h)

variable [DoubleText] {op : ComparisonType} {left right : Value}

theorem compareInt_ne_null (typeId : TypeId) (left : Int) (right : Value) :
    compareInt op typeId left right ≠ .ok .cmpNull := by
  cases right with
  | boolean value => exact nofun
  | tinyint value => exact ok_getCmpBool_ne_null _
  | smallint value => exact ok_getCmpBool_ne_null _
  | integer value => exact ok_getCmpBool_ne_null _
  | bigint value => exact ok_getCmpBool_ne_null _
  | decimal value => exact ok_getCmpBool_ne_null _
  | varchar value =>
      intro h
      obtain ⟨cast, -, hcast⟩ := Except.bind_eq_ok_iff.mp h
      cases cast with
      | tinyint value => exact ok_getCmpBool_ne_null _ hcast
      | smallint value => exact ok_getCmpBool_ne_null _ hcast
      | integer value => exact ok_getCmpBool_ne_null _ hcast
      | bigint value => exact ok_getCmpBool_ne_null _ hcast
      | boolean value => cases hcast
      | decimal value => cases hcast
      | varchar value => cases hcast

theorem compareDouble_ne_null (left : Double) (right : Value) :
    compareDouble op left right ≠ .ok .cmpNull := by
  cases right with
  | boolean value => exact nofun
  | tinyint value => exact ok_getCmpBool_ne_null _
  | smallint value => exact ok_getCmpBool_ne_null _
  | integer value => exact ok_getCmpBool_ne_null _
  | bigint value => exact ok_getCmpBool_ne_null _
  | decimal value => exact ok_getCmpBool_ne_null _
  | varchar value =>
      intro h
      obtain ⟨cast, -, hcast⟩ := Except.bind_eq_ok_iff.mp h
      split at hcast
      · exact ok_getCmpBool_ne_null _ hcast
      · cases hcast

theorem compareBoolean_ne_null (left : Int8) (right : Value) :
    compareBoolean op left right ≠ .ok .cmpNull := by
  unfold compareBoolean
  split
  · exact ok_getCmpBool_ne_null _
  · intro h
    obtain ⟨cast, -, hcast⟩ := Except.bind_eq_ok_iff.mp h
    split at hcast
    · exact ok_getCmpBool_ne_null _ hcast
    · cases hcast
  · exact nofun

theorem compareVarlen_ne_null (left : Varlen) (right : Value) :
    compareVarlen op left right ≠ .ok .cmpNull := by
  unfold compareVarlen
  split
  · intro h
    obtain ⟨str1, -, h⟩ := Except.bind_eq_ok_iff.mp h
    obtain ⟨str2, -, h⟩ := Except.bind_eq_ok_iff.mp h
    exact ok_getCmpBool_ne_null _ h
  · intro h
    obtain ⟨str1, -, h⟩ := Except.bind_eq_ok_iff.mp h
    exact ok_getCmpBool_ne_null _ h

/-- A comparison is NULL exactly when it is one of comparable values with a NULL. -/
theorem compare_eq_null_iff : compare op left right = .ok .cmpNull ↔
    left.checkComparable right ∧ (left.isNull ∨ right.isNull) := by
  unfold compare
  by_cases hcomparable : left.checkComparable right
  · by_cases hnull : left.isNull || right.isNull
    · simp only [hcomparable, hnull, Bool.not_true, Bool.false_eq_true, if_false, if_true, true_and]
      exact iff_of_true trivial (Bool.or_eq_true _ _ ▸ hnull)
    · simp only [hcomparable, hnull, Bool.not_true, Bool.false_eq_true, if_false]
      rw [Bool.or_eq_true] at hnull
      refine iff_of_false ?_ (fun h => hnull h.2)
      split
      · exact compareBoolean_ne_null _ _
      · exact compareInt_ne_null _ _ _
      · exact compareInt_ne_null _ _ _
      · exact compareInt_ne_null _ _ _
      · exact compareInt_ne_null _ _ _
      · exact compareDouble_ne_null _ _
      · exact compareVarlen_ne_null _ _
      · exact absurd (Or.inl rfl) hnull
  · simp only [hcomparable, Bool.not_false, if_true]
    exact iff_of_false nofun (fun h => Bool.false_ne_true h.1)

end Value

/-! ## Rows whose predicate is TRUE -/

section Filters

variable [DoubleText]

/-- The truth value of a comparison. -/
def truthIn (context : Context) (left right : Expression) (compType : ComparisonType) :
    Except EvalFault CmpBool := do
  let lhs ← left.evaluateIn context
  let rhs ← right.evaluateIn context
  compType.performComparison lhs rhs

/-- The filters take NULL for true. -/
theorem passesIn_comparison (context : Context) (left right : Expression)
    (compType : ComparisonType) : passesIn context (.comparison left right compType) =
      match truthIn context left right compType with
      | .error fault => .error fault
      | .ok truth => .ok (truth != .cmpFalse) := by
  unfold passesIn truthIn
  rw [Expression.evaluateIn]
  cases left.evaluateIn context with
  | error fault => rfl
  | ok lhs =>
      cases right.evaluateIn context with
      | error fault => rfl
      | ok rhs =>
          change ((compType.performComparison lhs rhs >>= fun result =>
              Except.ok (Value.getBooleanValue result)) >>= Value.getAsBool) =
            match (compType.performComparison lhs rhs : Except EvalFault CmpBool) with
            | .error fault => Except.error fault
            | .ok truth => Except.ok (truth != .cmpFalse)
          cases compType.performComparison lhs rhs with
          | error fault => rfl
          | ok truth => cases truth <;> rfl

variable {ε : Type} {α ρ : Type}

omit [DoubleText] in
/-- One element is emitted for each row whose predicate is TRUE, and nothing else. -/
def EmitsTrueRows (truth : ρ → Except EvalFault CmpBool) (emit : ρ → Except ε α)
    (rows : List ρ) (elements : List α) : Prop :=
  List.Forall₂ (fun row a => emit row = .ok a)
    (rows.filter fun row => truth row = .ok .cmpTrue) elements

omit [DoubleText] in
/-- The predicate of the row is FALSE, or it is TRUE and the output can be computed. -/
def Decided (truth : ρ → Except EvalFault CmpBool) (emit : ρ → Except ε α) (row : ρ) : Prop :=
  truth row = .ok .cmpFalse ∨ truth row = .ok .cmpTrue ∧ ∃ a, emit row = .ok a

/-- The operands of a comparison can be computed and compared, and neither is NULL. -/
def Known (context : Context) (left right : Expression) (compType : ComparisonType) : Prop :=
  ∃ lhs rhs, left.evaluateIn context = .ok lhs ∧ right.evaluateIn context = .ok rhs ∧
    lhs.isNull = false ∧ rhs.isNull = false ∧ ∃ truth, compType.performComparison lhs rhs = .ok truth

theorem truthIn_eq_ok_iff {context : Context} {left right : Expression} {compType : ComparisonType}
    {truth : CmpBool} : truthIn context left right compType = .ok truth ↔
      ∃ lhs rhs, left.evaluateIn context = .ok lhs ∧ right.evaluateIn context = .ok rhs ∧
        compType.performComparison lhs rhs = .ok truth := by
  unfold truthIn
  rw [Except.bind_eq_ok_iff]
  constructor
  · rintro ⟨lhs, hleft, hrest⟩
    obtain ⟨rhs, hright, htruth⟩ := Except.bind_eq_ok_iff.mp hrest
    exact ⟨lhs, rhs, hleft, hright, htruth⟩
  · rintro ⟨lhs, rhs, hleft, hright, htruth⟩
    exact ⟨lhs, hleft, Except.bind_eq_ok_iff.mpr ⟨rhs, hright, htruth⟩⟩

/-- A comparison is TRUE or FALSE exactly when it is known. -/
theorem known_iff {context : Context} {left right : Expression} {compType : ComparisonType} :
    Known context left right compType ↔
      truthIn context left right compType = .ok .cmpFalse ∨
        truthIn context left right compType = .ok .cmpTrue := by
  constructor
  · rintro ⟨lhs, rhs, hleft, hright, hlhs, hrhs, truth, htruth⟩
    have htruthIn := truthIn_eq_ok_iff.mpr ⟨lhs, rhs, hleft, hright, htruth⟩
    cases truth with
    | cmpFalse => exact Or.inl htruthIn
    | cmpTrue => exact Or.inr htruthIn
    | cmpNull =>
        rw [ComparisonType.performComparison_eq, Value.compare_eq_null_iff, hlhs, hrhs] at htruth
        rcases htruth.2 with hnull | hnull <;> cases hnull
  · intro htruth
    obtain ⟨truth, hvalue, hne⟩ : ∃ truth, truthIn context left right compType = .ok truth ∧
        truth ≠ .cmpNull := by
      rcases htruth with hfalse | htrue
      · exact ⟨.cmpFalse, hfalse, nofun⟩
      · exact ⟨.cmpTrue, htrue, nofun⟩
    obtain ⟨lhs, rhs, hleft, hright, hcompare⟩ := truthIn_eq_ok_iff.mp hvalue
    have hknown : ¬ (lhs.isNull ∨ rhs.isNull) := by
      intro hnull
      rw [ComparisonType.performComparison_eq] at hcompare
      by_cases hcomparable : lhs.checkComparable rhs
      · rw [Value.compare_eq_null_iff.mpr ⟨hcomparable, hnull⟩] at hcompare
        exact hne (Except.ok.inj hcompare).symm
      · unfold Value.compare at hcompare
        rw [Bool.not_eq_true] at hcomparable
        rw [hcomparable] at hcompare
        cases hcompare
    rw [not_or, Bool.not_eq_true, Bool.not_eq_true] at hknown
    exact ⟨lhs, rhs, hleft, hright, hknown.1, hknown.2, truth, hcompare⟩

/-- The rows that a filter emits exactly: the operands are not NULL, and the output for
a TRUE row can be computed. -/
theorem decided_iff {context : ρ → Context} {left right : Expression} {compType : ComparisonType}
    {emit : ρ → Except ε α} {row : ρ} :
    Decided (fun row => truthIn (context row) left right compType) emit row ↔
      Known (context row) left right compType ∧
        (truthIn (context row) left right compType = .ok .cmpTrue → ∃ a, emit row = .ok a) := by
  unfold Decided
  rw [known_iff]
  constructor
  · rintro (hfalse | ⟨htrue, hemit⟩)
    · exact ⟨Or.inl hfalse, fun htrue => absurd (hfalse.symm.trans htrue) nofun⟩
    · exact ⟨Or.inr htrue, fun _ => hemit⟩
  · rintro ⟨hfalse | htrue, hemit⟩
    · exact Or.inl hfalse
    · exact Or.inr ⟨htrue, hemit htrue⟩

omit [DoubleText] in
theorem length_filter_lt {p q : ρ → Bool} {rows : List ρ} (himp : ∀ row, p row → q row) {row : ρ}
    (hmem : row ∈ rows) (hq : q row) (hp : p row = false) :
    (rows.filter p).length < (rows.filter q).length := by
  have hsub : (rows.filter q).filter p = rows.filter p := by
    rw [List.filter_filter]
    refine List.filter_congr fun other _ => ?_
    cases hother : p other with
    | false => rfl
    | true => rw [himp other hother]; rfl
  rw [← hsub]
  refine lt_of_le_of_ne (List.length_filter_le _ _) fun heq => ?_
  have hall := List.length_filter_eq_length_iff.mp heq row (List.mem_filter.mpr ⟨hmem, hq⟩)
  rw [hp] at hall
  cases hall

omit [DoubleText] in
/-- A filter that takes NULL for true emits the TRUE rows exactly when none is NULL. -/
theorem emitted_true_iff {truth : ρ → Except EvalFault CmpBool} {emit : ρ → Except ε α}
    {pass : ρ → Except ε Bool} {rows : List ρ}
    (hpass : ∀ row b, pass row = .ok b ↔ ∃ value, truth row = .ok value ∧ b = (value != .cmpFalse)) :
    (∃ elements, emitted pass emit rows = .ok elements ∧ EmitsTrueRows truth emit rows elements) ↔
      ∀ row ∈ rows, Decided truth emit row := by
  have htrueAccepts : ∀ row, truth row = .ok .cmpTrue → accepts pass row := by
    intro row htrue
    exact accepts_of_ok ((hpass row true).mpr ⟨.cmpTrue, htrue, rfl⟩)
  constructor
  · rintro ⟨elements, hemitted, htrue⟩ row hmem
    obtain ⟨hcomputed, hpassing⟩ := emitted_eq_ok_iff.mp hemitted
    obtain ⟨b, hb⟩ := hcomputed row hmem
    obtain ⟨value, htruth, rfl⟩ := (hpass row b).mp hb
    cases value with
    | cmpFalse => exact Or.inl htruth
    | cmpTrue =>
        refine Or.inr ⟨htruth, ?_⟩
        have hin : row ∈ rows.filter fun row => truth row = .ok .cmpTrue :=
          List.mem_filter.mpr ⟨hmem, decide_eq_true htruth⟩
        obtain ⟨i, hi, rfl⟩ := List.getElem_of_mem hin
        exact ⟨_, htrue.get hi (htrue.length_eq ▸ hi)⟩
    | cmpNull =>
        have hlength := htrue.length_eq.trans hpassing.length_eq.symm
        have hfalse : decide (truth row = .ok .cmpTrue) = false := by rw [htruth]; rfl
        have hlt := length_filter_lt (fun row h => htrueAccepts row (of_decide_eq_true h)) hmem
          (accepts_of_ok hb) hfalse
        exact absurd hlength (ne_of_lt hlt)
  · intro hdecided
    have hsame : rows.filter (accepts pass) =
        rows.filter fun row => truth row = .ok .cmpTrue := by
      refine List.filter_congr fun row hmem => ?_
      rcases hdecided row hmem with hfalse | ⟨htrue, -⟩
      · rw [accepts_of_ok ((hpass row false).mpr ⟨.cmpFalse, hfalse, rfl⟩), hfalse]
        rfl
      · rw [htrueAccepts row htrue, htrue]
        rfl
    have hcomputed : ∀ row ∈ rows, ∃ b, pass row = .ok b := by
      intro row hmem
      rcases hdecided row hmem with hfalse | ⟨htrue, -⟩
      · exact ⟨false, (hpass row false).mpr ⟨.cmpFalse, hfalse, rfl⟩⟩
      · exact ⟨true, (hpass row true).mpr ⟨.cmpTrue, htrue, rfl⟩⟩
    have hemit : ∀ row ∈ rows.filter fun row => truth row = .ok .cmpTrue,
        ∃ a, emit row = .ok a := by
      intro row hin
      obtain ⟨hmem, htrue⟩ := List.mem_filter.mp hin
      rcases hdecided row hmem with hfalse | ⟨-, hemit⟩
      · rw [of_decide_eq_true htrue] at hfalse
        cases hfalse
      · exact hemit
    obtain ⟨elements, helements⟩ := exists_forall₂ hemit
    exact ⟨elements, emitted_eq_ok_iff.mpr ⟨hcomputed, hsame ▸ helements⟩, helements⟩

/-! ## The three filters -/

omit [DoubleText] in
/-- Draining the executor yields an output for each row whose predicate is TRUE, and
nothing else. -/
def FiltersTrueRows {σ : Type} (next : σ → Except ε (Option α × σ)) (start : σ)
    (truth : ρ → Except EvalFault CmpBool) (emit : ρ → Except ε α) (rows : List ρ) : Prop :=
  ∃ outputs, Drains next start outputs ∧ EmitsTrueRows truth emit rows outputs

/-- Every row has operands that are not NULL, and an output if its predicate is TRUE. -/
def AllKnown (context : ρ → Context) (left right : Expression) (compType : ComparisonType)
    (emit : ρ → Except ε α) (rows : List ρ) : Prop :=
  ∀ row ∈ rows, Known (context row) left right compType ∧
    (truthIn (context row) left right compType = .ok .cmpTrue → ∃ a, emit row = .ok a)

theorem filtersTrueRows_iff {σ : Type} {next : σ → Except ε (Option α × σ)} {start : σ}
    {context : ρ → Context} {left right : Expression} {compType : ComparisonType}
    {pass : ρ → Except ε Bool} {emit : ρ → Except ε α} {At : σ → List ρ → Prop} {rows : List ρ}
    (hfilters : Filters pass emit next At) (hat : At start rows)
    (hpass : ∀ row b, pass row = .ok b ↔
      passesIn (context row) (.comparison left right compType) = .ok b) :
    FiltersTrueRows next start (fun row => truthIn (context row) left right compType) emit rows ↔
      AllKnown context left right compType emit rows := by
  have hdrains : FiltersTrueRows next start
      (fun row => truthIn (context row) left right compType) emit rows ↔
      ∃ elements, emitted pass emit rows = .ok elements ∧
        EmitsTrueRows (fun row => truthIn (context row) left right compType) emit rows elements :=
    exists_congr fun elements => and_congr_left' (hfilters.drains_iff hat elements)
  rw [hdrains, emitted_true_iff]
  · exact forall₂_congr fun row _ => decided_iff
  · intro row b
    rw [hpass, passesIn_comparison]
    cases truthIn (context row) left right compType with
    | error fault => exact iff_of_false nofun (by rintro ⟨_, h, _⟩; cases h)
    | ok truth =>
        constructor
        · exact fun h => ⟨truth, rfl, (Except.ok.inj h).symm⟩
        · rintro ⟨value, hvalue, rfl⟩
          cases hvalue
          rfl

omit [DoubleText] in
theorem liftEval_eq_ok_iff {β : Type} {x : Except EvalFault β} {b : β} :
    liftEval x = .ok b ↔ x = .ok b := by
  cases x with
  | error fault => exact iff_of_false nofun nofun
  | ok a => exact ⟨fun h => congrArg Except.ok (Except.ok.inj h), fun h => h ▸ rfl⟩

/-- A scan, a nested loop join and an aggregation whose predicate is a comparison emit
exactly the rows for which it is TRUE if and only if no row has a NULL operand. -/
theorem filters_true_iff (left right : Expression) (compType : ComparisonType) :
    (∀ (pool : PagePool) (tableInfo : TableInfo) (outputSchema : Schema) (tableOid : TableOid)
        (pageIds : List PageId) (heap : PageId → List Slot),
      TableHeap.HeapOk pool tableInfo.table.firstPageId pageIds heap →
      let exec := SeqScanExecutor.new tableInfo
        { outputSchema, predicate := some (.comparison left right compType), tableOid }
      let context := fun row : RID × Tuple => Context.ofTuple row.2 tableInfo.schema
      ∃ start, exec.init pool = .ok start ∧
        (FiltersTrueRows (SeqScanExecutor.next pool) start
            (fun row => truthIn (context row) left right compType) exec.project
            (TableHeap.liveRows heap pageIds) ↔
          AllKnown context left right compType exec.project (TableHeap.liveRows heap pageIds))) ∧
    (∀ (outputSchema leftSchema rightSchema : Schema) (leftRows rightRows : List (Tuple × RID)),
      let predicate := some (.comparison left right compType)
      let plan : NestedLoopJoinPlanNode := { outputSchema, leftSchema, rightSchema, predicate }
      let context := fun pair : (Tuple × RID) × (Tuple × RID) =>
        Context.ofJoin pair.1.1 leftSchema pair.2.1 rightSchema
      FiltersTrueRows NestedLoopJoinExecutor.next
          (NestedLoopJoinExecutor.new plan leftRows rightRows).init
          (fun pair => truthIn (context pair) left right compType)
          (NestedLoopJoinExecutor.output plan) (leftRows.product rightRows) ↔
        AllKnown context left right compType (NestedLoopJoinExecutor.output plan)
          (leftRows.product rightRows)) ∧
    ∀ (outputSchema : Schema) (groups iterated : List AggregateGroup),
      let having := some (.comparison left right compType)
      let plan : AggregationPlanNode := { outputSchema, having }
      let context := fun group : AggregateGroup =>
        Context.ofAggregate group.groupBys group.aggregates
      FiltersTrueRows AggregationExecutor.next
          (AggregationExecutor.mk plan groups iterated).init
          (fun group => truthIn (context group) left right compType)
          (AggregationExecutor.output plan) groups ↔
        AllKnown context left right compType (AggregationExecutor.output plan) groups := by
  refine ⟨?_, ?_, ?_⟩
  · intro pool tableInfo outputSchema tableOid pageIds heap hheap exec context
    obtain ⟨start, hinit, hsame, hscan⟩ := SeqScanExecutor.init_scanning exec hheap
    refine ⟨start, hinit, ?_⟩
    exact filtersTrueRows_iff (SeqScanExecutor.filters exec) hscan fun _ _ => liftEval_eq_ok_iff
  · intro outputSchema leftSchema rightSchema leftRows rightRows predicate plan context
    exact filtersTrueRows_iff (NestedLoopJoinExecutor.filters plan rightRows)
      (NestedLoopJoinExecutor.joining_init plan leftRows rightRows) fun _ _ => Iff.rfl
  · intro outputSchema groups iterated having plan context
    exact filtersTrueRows_iff (AggregationExecutor.filters plan) ⟨rfl, rfl⟩ fun _ _ => Iff.rfl

end Filters

/-! ## A row with a NULL -/

/-- A schema with one INTEGER column, read from the left side. -/
def oneColumn : Schema :=
  { columns := [{ columnName := "a", columnType := .integer, expr := some (.columnValue 0 0) }] }

/-- The bytes of an INTEGER that is NULL. -/
def nullTuple : Tuple := [0, 0, 0, 128]

/-- The bytes of the INTEGER 5. -/
def fiveTuple : Tuple := [5, 0, 0, 0]

/-- The plan of a join on the equality of the columns. -/
def equalityJoin : NestedLoopJoinPlanNode :=
  { outputSchema := oneColumn, leftSchema := oneColumn, rightSchema := oneColumn
    predicate := some (.comparison (.columnValue 0 0) (.columnValue 1 0) .equal) }

/-- The join of a row with a NULL and a row with the number 5. -/
def nullJoin : NestedLoopJoinExecutor :=
  NestedLoopJoinExecutor.new equalityJoin [(nullTuple, ⟨0, 0⟩)] [(fiveTuple, ⟨1, 0⟩)]

/-- The predicate of the only pair is NULL, and the pair is emitted. -/
theorem nullJoin_emits :
    let _ := noDoubleText
    let truth := fun pair : (Tuple × RID) × (Tuple × RID) =>
      truthIn (Context.ofJoin pair.1.1 oneColumn pair.2.1 oneColumn) (.columnValue 0 0)
        (.columnValue 1 0) .equal
    let pairs := [((nullTuple, (⟨0, 0⟩ : RID)), (fiveTuple, (⟨1, 0⟩ : RID)))]
    pairs.map truth = [.ok .cmpNull] ∧
      Drains NestedLoopJoinExecutor.next nullJoin.init [(nullTuple, ⟨0, 0⟩)] ∧
      ¬ FiltersTrueRows NestedLoopJoinExecutor.next nullJoin.init truth
        (NestedLoopJoinExecutor.output equalityJoin) pairs := by
  intro _ truth pairs
  have htruth : pairs.map truth = [.ok .cmpNull] := rfl
  have hfirst : NestedLoopJoinExecutor.next nullJoin.init = .ok (some (nullTuple, ⟨0, 0⟩),
      { nullJoin.init with rightChild := { nullJoin.rightChild with rest := [] } }) := rfl
  have hend : NestedLoopJoinExecutor.next
      { nullJoin.init with rightChild := { nullJoin.rightChild with rest := [] } } =
      .ok (none, { nullJoin.init with rightChild := { nullJoin.rightChild with rest := [] } }) := rfl
  have hdrains : Drains NestedLoopJoinExecutor.next nullJoin.init [(nullTuple, ⟨0, 0⟩)] :=
    .step hfirst (.done hend)
  refine ⟨htruth, hdrains, ?_⟩
  rintro ⟨outputs, hother, htrue⟩
  have hnone : (pairs.filter fun pair => truth pair = .ok .cmpTrue) = [] := rfl
  rw [← hdrains.unique hother] at htrue
  unfold EmitsTrueRows at htrue
  rw [hnone] at htrue
  cases htrue

/-- A scan for the number 5. -/
def fiveScan (table : TableHeap) : SeqScanExecutor :=
  let predicate := some (.comparison (.columnValue 0 0) (.constantValue (.integer 5)) .equal)
  SeqScanExecutor.new { schema := oneColumn, name := "t", table, oid := table.oid }
    { outputSchema := oneColumn, tableOid := table.oid, predicate }

/-- A table with one row, the number 5, is scanned for it. -/
theorem filters_true_iff_fiveScan :
    let _ := noDoubleText
    ∃ pool table start, (fiveScan table).init pool = .ok start ∧
      Drains (SeqScanExecutor.next pool) start [(fiveTuple, ⟨table.firstPageId, 0⟩)] := by
  intro _
  have hcreated : TableHeap.create ⟨fun _ => Memory.zeros, 0⟩ 0 ≠ none := by
    unfold TableHeap.create PagePool.newPage
    rw [if_pos (by decide)]
    exact nofun
  obtain ⟨⟨table, pool⟩, hcreate⟩ := Option.ne_none_iff_exists'.mp hcreated
  obtain ⟨htable, hheap⟩ := TableHeap.create_heapOk (le_refl 0) hcreate
  have hmem : table.firstPageId ∈ [table.firstPageId] := List.mem_singleton_self _
  have hinsert : Slots.insert [] fiveTuple = some (0, [.full false fiveTuple]) := by decide
  obtain ⟨page, -, hpage, hlinks⟩ :=
    (hheap.represents _ hmem).insertTuple_of_some (by decide) hinsert
  obtain ⟨hfull, -⟩ := hheap.setPage hmem hpage hlinks
  have hrows : TableHeap.liveRows (Function.update (fun _ => []) table.firstPageId
      [.full false fiveTuple]) [table.firstPageId] = [(⟨table.firstPageId, 0⟩, fiveTuple)] := by
    unfold TableHeap.liveRows TableHeap.pageRows
    rw [List.flatMap_singleton, Function.update_self]
    rfl
  obtain ⟨start, hinit, hiff⟩ := (filters_true_iff (.columnValue 0 0) (.constantValue (.integer 5))
    .equal).1 _ { schema := oneColumn, name := "t", table, oid := table.oid } oneColumn table.oid
    _ _ hfull
  rw [hrows] at hiff
  obtain ⟨outputs, hdrains, htrue⟩ := hiff.mpr (by
    intro row hrow
    rw [List.mem_singleton.mp hrow]
    exact ⟨⟨.integer 5, .integer 5, rfl, rfl, rfl, rfl, .cmpTrue, rfl⟩, fun _ => ⟨_, rfl⟩⟩)
  refine ⟨_, table, start, hinit, ?_⟩
  obtain ⟨output, rest, houtput, hrest, rfl⟩ := List.forall₂_cons_left_iff.mp htrue
  rw [List.forall₂_nil_left_iff.mp hrest] at hdrains
  have hproject : (fiveScan table).project (⟨table.firstPageId, 0⟩, fiveTuple) =
      .ok (fiveTuple, ⟨table.firstPageId, 0⟩) := by
    have hcolumns : (fiveScan table).outSchemaIdx = [0] := rfl
    have hvalue : Tuple.getValue fiveTuple oneColumn 0 = .ok (.integer 5) := by decide
    have htuple : Tuple.ofValues [.integer 5] oneColumn = .ok fiveTuple := by decide
    unfold SeqScanExecutor.project
    rw [hcolumns]
    change liftEval (do
      let value ← Tuple.getValue fiveTuple oneColumn 0
      let tuple ← Tuple.ofValues [value] oneColumn
      Except.ok (tuple, (⟨table.firstPageId, 0⟩ : RID))) = _
    rw [hvalue]
    change liftEval (do
      let tuple ← Tuple.ofValues [.integer 5] oneColumn
      Except.ok (tuple, (⟨table.firstPageId, 0⟩ : RID))) = _
    rw [htuple]
    rfl
  rw [Except.ok.inj (hproject.symm.trans houtput)]
  exact hdrains

end BusTub
