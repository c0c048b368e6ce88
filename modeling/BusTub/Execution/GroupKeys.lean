import BusTub.Execution.GroupTables
import BusTub.Execution.HashJoin

/-! # Equality of the keys of groups

Rows agree in a column when both values are NULL, when they are the same value, or when
`CompareEquals` says so. The equality of the tables asks `CompareEquals` alone, and the
hashes have to be equal for that.
-/

namespace BusTub

namespace Value

/-- A DECIMAL that is not a number. -/
def isNan : Value → Bool
  | .decimal value => value.isNan
  | _ => false

/-- A value that is equal to itself. -/
def isDefinite (value : Value) : Bool := !value.isNull && !value.isNan

/-- A VARCHAR that is not NULL has a length that `CompareStrings` takes. -/
def Terminated (value : Value) : Prop :=
  ∀ text, value = .varchar (some text) → LengthTaken text

/-- Two values count as one, NULL with NULL. -/
def Agree [DoubleText] (left right : Value) : Prop :=
  (left.isNull = true ∧ right.isNull = true) ∨ left = right ∨
    left.compareEquals right = .ok .cmpTrue

instance [DoubleText] (left right : Value) : Decidable (Agree left right) :=
  inferInstanceAs (Decidable (_ ∨ _ ∨ _))

theorem terminated_of_getTypeId {value : Value} (h : value.getTypeId ≠ .varchar) :
    value.Terminated := by
  rintro text rfl
  exact absurd rfl h

/-- The class of a definite value. -/
def definiteClass (value : Value) : Option KeyClass :=
  if value.isNull then none else value.keyClass

/-- A value with a class is definite, and so is every other one that has its length taken. -/
theorem isDefinite_iff {value : Value} (h : value.Terminated) :
    value.isDefinite = true ↔ ∃ c, value.definiteClass = some c := by
  unfold isDefinite definiteClass
  cases hnull : value.isNull with
  | true => simp
  | false =>
      cases value with
      | decimal content =>
          change (!content.isNan) = true ↔
            ∃ c, (if content.isNan then none else some (KeyClass.number content.position)) =
              some c
          cases content.isNan <;> simp
      | varchar content =>
          cases content with
          | none => cases hnull
          | some text =>
              refine iff_of_true rfl ⟨.text text.text, ?_⟩
              exact keyClass_varchar_eq_some_iff.mpr
                ⟨_, comparedText_eq (h text rfl), rfl⟩
      | _ => exact iff_of_true rfl ⟨_, rfl⟩

variable [DoubleText] {left right third : Value}

/-- Values of one type are equal when they are definite and their classes are the same. -/
theorem compareEquals_iff_class (htype : left.getTypeId = right.getTypeId) :
    left.compareEquals right = .ok .cmpTrue ↔
      ∃ c, left.definiteClass = some c ∧ right.definiteClass = some c := by
  have hnull : left.isNull = true ∨ right.isNull = true →
      left.compareEquals right = .ok .cmpNull := compare_of_null .equal htype
  unfold definiteClass
  cases hleft : left.isNull with
  | true =>
      rw [hnull (Or.inl hleft)]
      simp
  | false =>
      cases hright : right.isNull with
      | true =>
          rw [hnull (Or.inr hright)]
          simp
      | false => exact compareEquals_eq_true_iff htype hleft hright

/-- Equality of values of one type comes out. -/
theorem compareEquals_isOk (htype : left.getTypeId = right.getTypeId) (hleft : left.Terminated)
    (hright : right.Terminated) : ∃ truth, left.compareEquals right = .ok truth := by
  unfold compareEquals compare
  rw [checkComparable_of_getTypeId htype]
  cases hnull : (left.isNull || right.isNull) with
  | true => exact ⟨.cmpNull, rfl⟩
  | false =>
      cases left with
      | varchar content =>
          cases right with
          | varchar content' =>
              cases content with
              | none => exact ⟨.cmpNull, rfl⟩
              | some text =>
                  cases content' with
                  | none => cases hnull
                  | some text' =>
                      -- two strings are compared to the terminators that both have
                      refine ⟨getCmpBool (ComparisonType.equal.int
                        (compareStrings text.text text'.text) 0), ?_⟩
                      change compareVarlen .equal text (.varchar (some text')) = _
                      rw [compareVarlen, comparedText_eq (hleft text rfl),
                        comparedText_eq (hright text' rfl)]
                      rfl
          | _ => cases htype
      | _ =>
          cases right with
          | varchar content' => cases htype
          | _ => first | exact ⟨_, rfl⟩ | cases htype

/-- What a value agrees by: its class, or the value itself. -/
def agreementClass (value : Value) : KeyClass ⊕ Value :=
  match value.definiteClass with
  | some c => .inl c
  | none => .inr value

omit [DoubleText] in
theorem eq_of_isNull (htype : left.getTypeId = right.getTypeId) (hleft : left.isNull = true)
    (hright : right.isNull = true) : left = right := by
  cases left <;> cases right <;> cases htype
  all_goals first
    | rw [eq_of_beq hleft, eq_of_beq hright]
    | rw [Option.isNone_iff_eq_none.mp hleft, Option.isNone_iff_eq_none.mp hright]

theorem agree_iff (htype : left.getTypeId = right.getTypeId) :
    Agree left right ↔ left.agreementClass = right.agreementClass := by
  unfold Agree agreementClass
  rw [compareEquals_iff_class htype]
  constructor
  · rintro (⟨hleft, hright⟩ | rfl | ⟨c, hleft, hright⟩)
    · -- two nulls of one type
      rw [eq_of_isNull htype hleft hright]
    · rfl
    · rw [hleft, hright]
  · intro h
    cases hleft : left.definiteClass with
    | some c =>
        cases hright : right.definiteClass with
        | some c' =>
            rw [hleft, hright] at h
            exact Or.inr (Or.inr ⟨c, rfl, by rw [Sum.inl.inj h]⟩)
        | none =>
            rw [hleft, hright] at h
            cases h
    | none =>
        cases hright : right.definiteClass with
        | some c' =>
            rw [hleft, hright] at h
            cases h
        | none =>
            rw [hleft, hright] at h
            exact Or.inr (Or.inl (Sum.inr.inj h))

theorem Agree.definiteClass_eq_some {c : KeyClass} (h : Agree left right)
    (htype : left.getTypeId = right.getTypeId) (hc : left.definiteClass = some c) :
    right.definiteClass = some c := by
  rw [agree_iff htype] at h
  unfold agreementClass at h
  rw [hc] at h
  cases hright : right.definiteClass with
  | some c' =>
      rw [hright] at h
      rw [Sum.inl.inj h]
  | none =>
      rw [hright] at h
      cases h

/-- Values are equal when they agree and are definite. -/
theorem compareEquals_iff (htype : left.getTypeId = right.getTypeId) (hleft : left.Terminated) :
    left.compareEquals right = .ok .cmpTrue ↔ left.isDefinite = true ∧ Agree left right := by
  constructor
  · intro h
    obtain ⟨c, hc, -⟩ := (compareEquals_iff_class htype).mp h
    exact ⟨(isDefinite_iff hleft).mpr ⟨c, hc⟩, Or.inr (Or.inr h)⟩
  · rintro ⟨hdefinite, hagree⟩
    obtain ⟨c, hc⟩ := (isDefinite_iff hleft).mp hdefinite
    exact (compareEquals_iff_class htype).mpr ⟨c, hc, hagree.definiteClass_eq_some htype hc⟩

end Value

/-! ## Keys -/

/-- Two keys agree value by value. -/
abbrev KeysAgree [DoubleText] : List Value → List Value → Prop := List.Forall₂ Value.Agree

/-- The keys of the rows of a schema. -/
structure KeyOfTypes (types : List TypeId) (key : List Value) : Prop where
  types_eq : key.map Value.getTypeId = types
  terminated : ∀ value ∈ key, value.Terminated

/-- All values of a key are equal to themselves. -/
def DefiniteKey (key : List Value) : Prop := ∀ value ∈ key, value.isDefinite = true

instance (key : List Value) : Decidable (DefiniteKey key) :=
  inferInstanceAs (Decidable (∀ value ∈ key, _))

theorem KeyOfTypes.cons_iff {types : List TypeId} {value : Value} {key : List Value} :
    KeyOfTypes types (value :: key) ↔ ∃ type rest, types = type :: rest ∧
      value.getTypeId = type ∧ value.Terminated ∧ KeyOfTypes rest key := by
  constructor
  · intro h
    obtain ⟨hvalue, hkey⟩ := List.forall_mem_cons.mp h.terminated
    exact ⟨_, _, h.types_eq.symm, rfl, hvalue, rfl, hkey⟩
  · rintro ⟨_, _, rfl, rfl, hvalue, hkey⟩
    exact ⟨congrArg _ hkey.types_eq, List.forall_mem_cons.mpr ⟨hvalue, hkey.terminated⟩⟩

theorem KeyOfTypes.nil_iff {types : List TypeId} : KeyOfTypes types [] ↔ types = [] := by
  constructor
  · exact fun h => h.types_eq.symm
  · rintro rfl
    exact ⟨rfl, fun value hmem => absurd hmem List.not_mem_nil⟩

/-- The hash of a key that has one. -/
def hashOfKey (key : List Value) : UInt64 := (KeyedEntry.hashKey key).toOption.getD 0

theorem hashKey_eq (key : List Value) : KeyedEntry.hashKey key = .ok (hashOfKey key) := by
  have hall : ∀ hash, ∃ final, key.foldlM (fun currHash value =>
      if value.isNull then (.ok currHash : Except EvalFault UInt64)
      else do
        let hash ← HashUtil.hashValue value
        .ok (HashUtil.combineHashes currHash hash)) hash = .ok final := by
    induction key with
    | nil => exact fun hash => ⟨hash, rfl⟩
    | cons value key ih =>
        intro hash
        rw [List.foldlM_cons]
        cases hnull : value.isNull with
        | true => exact ih hash
        | false =>
            rw [if_neg Bool.false_ne_true, hashValue_eq hnull]
            exact ih _
  obtain ⟨final, hfinal⟩ := hall 0
  have hhash : KeyedEntry.hashKey key = .ok final := hfinal
  unfold hashOfKey
  rw [hhash]
  rfl

section Keys

variable [DoubleText] {types : List TypeId} {key key' : List Value}

/-- A key is the same as that of an entry. -/
def sameKeys (key entryKey : List Value) : Bool :=
  hashOfKey entryKey = hashOfKey key ∧ KeyedEntry.equalKeys key entryKey = .ok true

theorem equalKeys_isOk (hkey : KeyOfTypes types key) (hkey' : KeyOfTypes types key') :
    ∃ b, KeyedEntry.equalKeys key key' = .ok b := by
  induction key generalizing types key' with
  | nil =>
      rw [KeyOfTypes.nil_iff.mp hkey] at hkey'
      rw [List.map_eq_nil_iff.mp hkey'.types_eq]
      exact ⟨true, rfl⟩
  | cons value key ih =>
      obtain ⟨type, rest, rfl, htype, hvalue, hkey⟩ := KeyOfTypes.cons_iff.mp hkey
      cases key' with
      | nil => exact ⟨true, rfl⟩
      | cons value' key' =>
          obtain ⟨_, _, htypes, htype', hvalue', hkey'⟩ := KeyOfTypes.cons_iff.mp hkey'
          cases htypes
          obtain ⟨truth, htruth⟩ :=
            Value.compareEquals_isOk (htype.trans htype'.symm) hvalue hvalue'
          rw [KeyedEntry.equalKeys, htruth]
          cases truth with
          | cmpTrue => exact ih hkey hkey'
          | _ => exact ⟨false, rfl⟩

/-- Keys are equal when they agree and all their values are definite. -/
theorem equalKeys_iff (hkey : KeyOfTypes types key) (hkey' : KeyOfTypes types key') :
    KeyedEntry.equalKeys key key' = .ok true ↔ DefiniteKey key ∧ KeysAgree key key' := by
  induction key generalizing types key' with
  | nil =>
      rw [KeyOfTypes.nil_iff.mp hkey] at hkey'
      rw [List.map_eq_nil_iff.mp hkey'.types_eq]
      exact iff_of_true rfl ⟨fun value hmem => absurd hmem List.not_mem_nil, .nil⟩
  | cons value key ih =>
      obtain ⟨type, rest, rfl, htype, hvalue, hkey⟩ := KeyOfTypes.cons_iff.mp hkey
      cases key' with
      | nil => cases hkey'.types_eq
      | cons value' key' =>
          obtain ⟨_, _, htypes, htype', hvalue', hkey'⟩ := KeyOfTypes.cons_iff.mp hkey'
          cases htypes
          have hsame := htype.trans htype'.symm
          have hvalues := Value.compareEquals_iff hsame hvalue
          -- column by column: the first ones are equal, and so are the rest
          have hsplit : DefiniteKey (value :: key) ∧ KeysAgree (value :: key) (value' :: key') ↔
              (value.isDefinite = true ∧ Value.Agree value value') ∧
                DefiniteKey key ∧ KeysAgree key key' := by
            unfold DefiniteKey KeysAgree
            rw [List.forall_mem_cons, List.forall₂_cons]
            exact and_and_and_comm
          obtain ⟨truth, htruth⟩ := Value.compareEquals_isOk hsame hvalue hvalue'
          rw [hsplit, ← hvalues, ← ih hkey hkey', KeyedEntry.equalKeys, htruth]
          cases truth with
          | cmpTrue => exact (and_iff_right rfl).symm
          | cmpFalse => simp
          | cmpNull => simp

theorem sameKeys_iff (hkey : KeyOfTypes types key) (hkey' : KeyOfTypes types key') :
    sameKeys key key' = true ↔
      hashOfKey key' = hashOfKey key ∧ DefiniteKey key ∧ KeysAgree key key' := by
  unfold sameKeys
  rw [decide_eq_true_eq, equalKeys_iff hkey hkey']

theorem keysAgree_iff (hkey : KeyOfTypes types key) (hkey' : KeyOfTypes types key') :
    KeysAgree key key' ↔ key.map Value.agreementClass = key'.map Value.agreementClass := by
  induction key generalizing types key' with
  | nil =>
      rw [KeyOfTypes.nil_iff.mp hkey] at hkey'
      rw [List.map_eq_nil_iff.mp hkey'.types_eq]
      exact iff_of_true .nil rfl
  | cons value key ih =>
      obtain ⟨type, rest, rfl, htype, hvalue, hkey⟩ := KeyOfTypes.cons_iff.mp hkey
      cases key' with
      | nil => cases hkey'.types_eq
      | cons value' key' =>
          obtain ⟨_, _, htypes, htype', hvalue', hkey'⟩ := KeyOfTypes.cons_iff.mp hkey'
          cases htypes
          rw [KeysAgree, List.forall₂_cons, Value.agree_iff (htype.trans htype'.symm),
            List.map_cons, List.map_cons, List.cons.injEq]
          exact and_congr_right fun _ => ih hkey hkey'

theorem KeysAgree.definiteKey (h : KeysAgree key key') (hkey : KeyOfTypes types key)
    (hkey' : KeyOfTypes types key') (hdefinite : DefiniteKey key) : DefiniteKey key' := by
  induction h generalizing types with
  | nil => exact hdefinite
  | cons hagree _ ih =>
      obtain ⟨type, rest, rfl, htype, hvalue, hkey⟩ := KeyOfTypes.cons_iff.mp hkey
      obtain ⟨_, _, htypes, htype', hvalue', hkey'⟩ := KeyOfTypes.cons_iff.mp hkey'
      cases htypes
      obtain ⟨hhead, htail⟩ := List.forall_mem_cons.mp hdefinite
      obtain ⟨c, hc⟩ := (Value.isDefinite_iff hvalue).mp hhead
      unfold DefiniteKey
      rw [List.forall_mem_cons]
      refine ⟨(Value.isDefinite_iff hvalue').mpr ⟨c, ?_⟩, ih hkey hkey' htail⟩
      exact hagree.definiteClass_eq_some (htype.trans htype'.symm) hc

theorem sameKeys_partialEquiv (types : List TypeId) :
    Grouping.PartialEquiv sameKeys (KeyOfTypes types) where
  symm ha hb hab := by
    obtain ⟨hhash, hdefinite, hagree⟩ := (sameKeys_iff ha hb).mp hab
    refine (sameKeys_iff hb ha).mpr ⟨hhash.symm, hagree.definiteKey ha hb hdefinite, ?_⟩
    exact (keysAgree_iff hb ha).mpr ((keysAgree_iff ha hb).mp hagree).symm
  trans ha hb hc hab hbc := by
    obtain ⟨hhash, hdefinite, hagree⟩ := (sameKeys_iff ha hb).mp hab
    obtain ⟨hhash', -, hagree'⟩ := (sameKeys_iff hb hc).mp hbc
    refine (sameKeys_iff ha hc).mpr ⟨hhash'.trans hhash, hdefinite, ?_⟩
    exact (keysAgree_iff ha hc).mpr
      (((keysAgree_iff ha hb).mp hagree).trans ((keysAgree_iff hb hc).mp hagree'))

end Keys

/-! ## The types of what is read from a row -/

theorem Schema.map_placeFrom (currOffset : Nat) (columns : List Column) :
    (placeFrom currOffset columns).map Prod.snd = columns := by
  induction columns generalizing currOffset with
  | nil => rfl
  | cons column columns ih => rw [placeFrom, List.map_cons, ih]

namespace Tuple

variable {tuple : Tuple} {schema : Schema} {value : Value}

theorem getTypeId_of_deserialize {offset : Nat} {typeId : TypeId}
    (h : tuple.deserialize offset typeId = .ok value) : value.getTypeId = typeId := by
  cases typeId with
  | varchar =>
      obtain ⟨len, -, hrest⟩ := Except.bind_eq_ok_iff.mp h
      dsimp only at hrest
      split at hrest
      · cases hrest
        rfl
      · obtain ⟨data, -, hdata⟩ := Except.bind_eq_ok_iff.mp hrest
        split at hdata
        · cases hdata
          rfl
        · cases hdata
  | _ =>
      obtain ⟨bytes, -, hrest⟩ := Except.bind_eq_ok_iff.mp h
      cases hrest
      rfl

/-- `GetValue` gives a value of the type of the column. -/
theorem getTypeId_of_getValue {i : Nat} (h : tuple.getValue schema i = .ok value) :
    (schema.columns[i]?).map Column.columnType = some value.getTypeId := by
  unfold getValue at h
  split at h
  · cases h
  next columnOffset column hplace =>
    obtain ⟨dataPtr, -, hread⟩ := Except.bind_eq_ok_iff.mp h
    have hcolumns : schema.placed.map Prod.snd = schema.columns := Schema.map_placeFrom 0 _
    rw [← hcolumns, List.getElem?_map, hplace, getTypeId_of_deserialize hread]
    rfl

/-- The values of all columns have the types of the columns. -/
theorem map_getTypeId_of_mapM {values : List Value}
    (h : (List.range schema.columns.length).mapM (tuple.getValue schema) = .ok values) :
    values.map Value.getTypeId = schema.columns.map Column.columnType := by
  have hread := Except.mapM_eq_ok_iff.mp h
  have hlength := hread.length_eq
  rw [List.length_range] at hlength
  apply List.ext_getElem?
  intro i
  rw [List.getElem?_map, List.getElem?_map]
  cases hvalue : values[i]? with
  | none =>
      rw [List.getElem?_eq_none_iff.mpr (hlength.trans_le (List.getElem?_eq_none_iff.mp hvalue))]
      rfl
  | some value =>
      obtain ⟨hi, hget⟩ := List.getElem?_eq_some_iff.mp hvalue
      have hcolumn := hread.get (by rw [List.length_range]; omega) hi
      rw [List.get_eq_getElem, List.get_eq_getElem, List.getElem_range, hget] at hcolumn
      exact (getTypeId_of_getValue hcolumn).symm

end Tuple

/-! ## Entries -/

namespace KeyedEntry

variable {α : Type} [DoubleText] {types : List TypeId} {key : List Value}
  {entries : List (KeyedEntry α)}

/-- The entries have keys of the types, with their hashes. -/
def Keyed (types : List TypeId) (entries : List (KeyedEntry α)) : Prop :=
  ∀ entry ∈ entries, entry.hash = hashOfKey entry.key ∧ KeyOfTypes types entry.key

theorem holds_eq {entry : KeyedEntry α} (hkey : KeyOfTypes types key)
    (hhash : entry.hash = hashOfKey entry.key) (hentry : KeyOfTypes types entry.key) :
    entry.holds (hashOfKey key) key = .ok (sameKeys key entry.key) := by
  obtain ⟨b, hb⟩ := equalKeys_isOk hkey hentry
  unfold holds sameKeys
  rw [hhash, hb]
  split
  next heq => simp [heq]
  next hne => simp [hne]

theorem contains_eq (hkey : KeyOfTypes types key) (hentries : Keyed types entries) :
    contains (hashOfKey key) key entries =
      .ok (entries.any fun entry => sameKeys key entry.key) := by
  induction entries with
  | nil => rfl
  | cons entry rest ih =>
      obtain ⟨hhash, hentry⟩ := hentries entry List.mem_cons_self
      rw [contains, holds_eq hkey hhash hentry, List.any_cons,
        ih fun other hmem => hentries other (List.mem_cons_of_mem entry hmem)]
      cases sameKeys key entry.key <;> rfl

/-- The first entry of a key, or none of the entries is that of the key. -/
theorem found_or_none (key : List Value) (entries : List (KeyedEntry α)) :
    (∃ before entry after, entries = before ++ entry :: after ∧
      (∀ other ∈ before, sameKeys key other.key = false) ∧ sameKeys key entry.key = true) ∨
    ∀ other ∈ entries, sameKeys key other.key = false := by
  induction entries with
  | nil => exact Or.inr fun other hmem => absurd hmem List.not_mem_nil
  | cons entry rest ih =>
      cases hsame : sameKeys key entry.key with
      | true =>
          have hnone : ∀ other ∈ ([] : List (KeyedEntry α)), sameKeys key other.key = false :=
            fun other hmem => absurd hmem List.not_mem_nil
          exact Or.inl ⟨[], entry, rest, rfl, hnone, hsame⟩
      | false =>
          rcases ih with ⟨before, found, after, rfl, hbefore, hfound⟩ | hnone
          · exact Or.inl ⟨entry :: before, found, after, rfl,
              List.forall_mem_cons.mpr ⟨hsame, hbefore⟩, hfound⟩
          · exact Or.inr (List.forall_mem_cons.mpr ⟨hsame, hnone⟩)

variable {default : α} {change : α → Except EvalFault α}

theorem alter_append {before after : List (KeyedEntry α)} (hkey : KeyOfTypes types key)
    (hkeyed : Keyed types before) (hbefore : ∀ other ∈ before, sameKeys key other.key = false) :
    alter (hashOfKey key) key default change (before ++ after) =
      (alter (hashOfKey key) key default change after).map (before ++ ·) := by
  induction before with
  | nil =>
      rw [List.nil_append]
      cases alter (hashOfKey key) key default change after <;> rfl
  | cons entry rest ih =>
      obtain ⟨hhash, hentry⟩ := hkeyed entry List.mem_cons_self
      obtain ⟨hhead, htail⟩ := List.forall_mem_cons.mp hbefore
      rw [List.cons_append, alter, holds_eq hkey hhash hentry, hhead,
        ih (fun other hmem => hkeyed other (List.mem_cons_of_mem entry hmem)) htail]
      cases alter (hashOfKey key) key default change after <;> rfl

/-- The value of the first entry of the key is changed. -/
theorem alter_found {before after : List (KeyedEntry α)} {entry : KeyedEntry α}
    (hkey : KeyOfTypes types key) (hkeyed : Keyed types (before ++ entry :: after))
    (hbefore : ∀ other ∈ before, sameKeys key other.key = false)
    (hsame : sameKeys key entry.key = true) :
    alter (hashOfKey key) key default change (before ++ entry :: after) =
      (change entry.value).map fun value => before ++ { entry with value } :: after := by
  obtain ⟨hhash, hentry⟩ := hkeyed entry (List.mem_append_right before List.mem_cons_self)
  rw [alter_append hkey (fun other hmem => hkeyed other (List.mem_append_left _ hmem)) hbefore,
    alter, holds_eq hkey hhash hentry, hsame]
  cases change entry.value <;> rfl

/-- The default value is changed, and gets an entry. -/
theorem alter_none (hkey : KeyOfTypes types key) (hkeyed : Keyed types entries)
    (hnone : ∀ other ∈ entries, sameKeys key other.key = false) :
    alter (hashOfKey key) key default change entries =
      (change default).map fun value => entries ++ [{ hash := hashOfKey key, key, value }] := by
  have happend : alter (hashOfKey key) key default change (entries ++ []) = _ :=
    alter_append hkey hkeyed hnone
  rw [List.append_nil] at happend
  rw [happend, alter]
  cases change default <;> rfl

end KeyedEntry

end BusTub
