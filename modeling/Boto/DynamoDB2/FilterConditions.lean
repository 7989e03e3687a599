import Boto.DynamoDB2.Filters

/-!
# Which filters keep every condition

The filters have one condition for each field, and a `between` whose value is not a pair
gets none of its values.  Every condition of the caller is kept just where neither happens.
-/

namespace Boto.DynamoDB2.FilterEncoding

variable (encoding : FilterEncoding) (operators : Operators)

/-! ## Arguments -/

/-- The operator of an argument is in the table. -/
def Known (entry : Text × Value) : Prop :=
  operators.lookup (operator entry.1) ≠ none

/-- The values of an argument can be encoded. -/
def Encodes (entry : Text × Value) : Prop :=
  operator entry.1 = "null".toList ∨
    ∃ values, encoding.conditionValues (operator entry.1) entry.2 = .ok values ∧
      ∀ value ∈ values, ∃ wire, encoding.encode value = .ok wire

/-- The value of a `between` is a list or a tuple of two values, or of none. -/
def PairsBetween (entry : Text × Value) : Prop :=
  operator entry.1 = "between".toList → ∃ items, entry.2 = .list items ∧
    (items.toList.length = 2 ∨ items.toList = [])

/-- The values that the caller compares a field with. -/
def givenValues (op : Text) (value : Value) : Except FilterError (List Value) :=
  if op = "between".toList then
    match value with
    | .list items => .ok items.toList
    | value => .ok [value]
  else encoding.conditionValues op value

/-- The field and the condition that the caller gives. -/
def given (entry : Text × Value) : Option (Text × Lookup) :=
  match operators.lookup (operator entry.1) with
  | none => none
  | some code =>
      let lookup :=
        if operator entry.1 = "null".toList then encoding.buildLookup "null".toList code entry.2
        else do
          let values ← encoding.givenValues (operator entry.1) entry.2
          let encoded ← values.mapM encoding.encode
          return { attributeValueList := some encoded, comparisonOperator := code }
      lookup.toOption.map fun lookup => (fieldname entry.1, lookup)

/-- The arguments are refused for an operator that is not in the table, or the filters are
the conditions that the caller gives. -/
def KeepsConditions (entries : List (Text × Value))
    (result : Except FilterError (OrderedDict Text Lookup)) : Prop :=
  (∃ message, result = .error (.unknownFilterType message)) ∧
      (∃ entry ∈ entries, ¬Known operators entry) ∨
    ∃ filters, result = .ok filters ∧
      filters.items.map some = entries.map (encoding.given operators)

variable {encoding operators} {entry : Text × Value} {item : Text × Lookup}

/-! ## One argument -/

/-- The item that an argument adds. -/
def added (encoding : FilterEncoding) (operators : Operators) (entry : Text × Value) :
    Except FilterError (Text × Lookup) :=
  match operators.lookup (operator entry.1) with
  | none => .error (.unknownFilterType
      ("Operator '".toList ++ operator entry.1 ++ "' from '".toList ++ entry.1 ++
        "' is not recognized.".toList))
  | some code =>
      (encoding.buildLookup (operator entry.1) code entry.2).map
        fun lookup => (fieldname entry.1, lookup)

theorem addFilter_eq (filters : OrderedDict Text Lookup) (entry : Text × Value) :
    encoding.addFilter operators filters entry =
      (encoding.added operators entry).map fun item => filters.set item.1 item.2 := by
  rw [addFilter, added]
  cases operators.lookup (operator entry.1) with
  | none => rfl
  | some code =>
      dsimp only
      cases encoding.buildLookup (operator entry.1) code entry.2 <;> rfl

theorem foldlM_addFilter (entries : List (Text × Value)) (filters : OrderedDict Text Lookup) :
    entries.foldlM (encoding.addFilter operators) filters =
      (entries.mapM (encoding.added operators)).map
        fun items => items.foldl (fun filters item => filters.set item.1 item.2) filters := by
  induction entries generalizing filters with
  | nil => rfl
  | cons entry entries ih =>
      rw [List.foldlM_cons, addFilter_eq, List.mapM_cons]
      cases encoding.added operators entry with
      | error e => rfl
      | ok item =>
          change entries.foldlM (encoding.addFilter operators) _ = _
          rw [ih]
          cases entries.mapM (encoding.added operators) <;> rfl

theorem conditionValues_error {op : Text} {value : Value} {e : FilterError}
    (herror : encoding.conditionValues op value = .error e) : e = .typeError := by
  rw [conditionValues.eq_def] at herror
  split at herror
  · cases hlen : value.len with
    | none =>
        rw [hlen] at herror
        exact (Except.error.inj herror).symm
    | some length =>
        rw [hlen] at herror
        cases value <;> cases herror
  split at herror
  · cases hvalues : value.iterate encoding.version encoding.setOrder with
    | none =>
        rw [hvalues] at herror
        exact (Except.error.inj herror).symm
    | some values =>
        rw [hvalues] at herror
        cases herror
  · cases value with
    | list items =>
        cases helements : distinctScalars [] items.toList with
        | none =>
            dsimp only at herror
            rw [helements] at herror
            exact (Except.error.inj herror).symm
        | some elements =>
            dsimp only at herror
            rw [helements] at herror
            cases herror
    | scalar value => cases herror
    | set elements => cases herror
    | dict fields => cases herror

theorem buildLookup_ne_unknown {op code : Text} {value : Value} {message : Text} :
    encoding.buildLookup op code value ≠ .error (.unknownFilterType message) := by
  intro herror
  rw [buildLookup.eq_def] at herror
  split at herror
  · cases herror
  cases hvalues : encoding.conditionValues op value with
  | error e =>
      rw [hvalues, conditionValues_error hvalues] at herror
      cases herror
  | ok values =>
      rw [hvalues] at herror
      cases hencoded : values.mapM encoding.encode with
      | ok encoded =>
          simp [hencoded, bind, Except.bind, pure, Except.pure] at herror
      | error e =>
          obtain ⟨before, bad, after, -, -, hbad⟩ := ListResults.mapM_eq_error hencoded
          have he : e = .unknownFilterType message := by
            simpa [hencoded, bind, Except.bind] using herror
          rw [he, encode] at hbad
          cases hvalue : bad.encode encoding.useBoolean with
          | error e' =>
              rw [hvalue] at hbad
              cases hbad
          | ok wire =>
              rw [hvalue] at hbad
              cases hbad

theorem added_unknown (hknown : ¬Known operators entry) :
    ∃ message, encoding.added operators entry = .error (.unknownFilterType message) := by
  rw [Known, ne_eq, not_not] at hknown
  exact ⟨_, by rw [added, hknown]⟩

theorem not_known_of_added {message : Text}
    (hadded : encoding.added operators entry = .error (.unknownFilterType message)) :
    ¬Known operators entry := by
  intro hknown
  rw [added] at hadded
  cases hcode : operators.lookup (operator entry.1) with
  | none => exact hknown hcode
  | some code =>
      rw [hcode] at hadded
      dsimp only at hadded
      cases hlookup : encoding.buildLookup (operator entry.1) code entry.2 with
      | ok lookup =>
          rw [hlookup] at hadded
          cases hadded
      | error e =>
          rw [hlookup] at hadded
          obtain rfl : e = .unknownFilterType message := Except.error.inj hadded
          exact buildLookup_ne_unknown hlookup

theorem exists_added_iff :
    (∃ item, encoding.added operators entry = .ok item) ↔
      Known operators entry ∧ encoding.Encodes entry := by
  rw [added, Known, Encodes]
  cases operators.lookup (operator entry.1) with
  | none => simp
  | some code =>
      dsimp only
      rw [buildLookup.eq_def]
      by_cases hnull : operator entry.1 = "null".toList
      · simp only [hnull, true_or, and_true, ne_eq, reduceCtorEq,
          not_false_eq_true, iff_true]
        exact ⟨_, rfl⟩
      · rw [if_neg hnull, or_iff_right hnull]
        cases hvalues : encoding.conditionValues (operator entry.1) entry.2 with
        | error e => simp [bind, Except.bind, Except.map]
        | ok values =>
            have hall := @ListResults.exists_mapM_iff _ _ _ encoding.encode values
            cases hencoded : values.mapM encoding.encode with
            | error e =>
                rw [hencoded] at hall
                simpa [hencoded, bind, Except.bind, Except.map] using hall
            | ok encoded =>
                rw [hencoded] at hall
                simpa [hencoded, bind, Except.bind, Except.map, pure, Except.pure] using hall

theorem fieldname_of_added (hadded : encoding.added operators entry = .ok item) :
    item.1 = fieldname entry.1 := by
  rw [added] at hadded
  cases hcode : operators.lookup (operator entry.1) with
  | none =>
      rw [hcode] at hadded
      cases hadded
  | some code =>
      rw [hcode] at hadded
      dsimp only at hadded
      cases hlookup : encoding.buildLookup (operator entry.1) code entry.2 with
      | error e =>
          rw [hlookup] at hadded
          cases hadded
      | ok lookup =>
          rw [hlookup] at hadded
          cases hadded
          rfl

theorem fieldname_of_given (hgiven : encoding.given operators entry = some item) :
    item.1 = fieldname entry.1 := by
  rw [given] at hgiven
  cases hcode : operators.lookup (operator entry.1) with
  | none =>
      rw [hcode] at hgiven
      cases hgiven
  | some code =>
      rw [hcode] at hgiven
      obtain ⟨lookup, -, rfl⟩ := Option.map_eq_some_iff.mp hgiven
      rfl

/-- The encodings of a pair, or of anything else that a `between` may have. -/
theorem mapM_between_iff {value : Value} {values : List Value} {encoded : List Wire}
    (hvalues : encoding.conditionValues "between".toList value = .ok values)
    (hencoded : values.mapM encoding.encode = .ok encoded) :
    (∃ given, encoding.givenValues "between".toList value = .ok given ∧
        given.mapM encoding.encode = .ok encoded) ↔
      ∃ items, value = .list items ∧ (items.toList.length = 2 ∨ items.toList = []) := by
  have hlength : ∀ {xs : List Value} {ys : List Wire}, xs.mapM encoding.encode = .ok ys →
      xs.length = ys.length := fun hmap => (ListResults.forall₂_of_mapM hmap).length_eq
  rw [conditionValues.eq_def, if_pos rfl] at hvalues
  rw [givenValues.eq_def, if_pos rfl]
  cases value with
  | list items =>
      obtain rfl : (if items.toList.length = 2 then items.toList else []) = values :=
        Except.ok.inj hvalues
      by_cases hpair : items.toList.length = 2
      · rw [if_pos hpair] at hencoded
        exact iff_of_true ⟨_, rfl, hencoded⟩ ⟨items, rfl, .inl hpair⟩
      · rw [if_neg hpair] at hencoded
        obtain rfl : [] = encoded := Except.ok.inj hencoded
        constructor
        · rintro ⟨given, hgiven, hmap⟩
          cases hgiven
          exact ⟨items, rfl, .inr (List.length_eq_zero_iff.mp (hlength hmap))⟩
        · rintro ⟨_, ⟨⟩, hcases⟩
          have hnil := hcases.resolve_left hpair
          exact ⟨_, rfl, by rw [hnil]; rfl⟩
  | scalar value =>
      refine iff_of_false ?_ (by simp)
      rintro ⟨given, hgiven, hmap⟩
      cases hgiven
      have hempty : values = [] := by
        cases hlen : (Value.scalar value).len with
        | none => simp [hlen] at hvalues
        | some length => simpa [hlen, eq_comm] using hvalues
      have := hlength hmap
      have := hlength hencoded
      simp [hempty] at *
      omega
  | set elements =>
      refine iff_of_false ?_ (by simp)
      rintro ⟨given, hgiven, hmap⟩
      cases hgiven
      cases hvalues
      cases hencoded
      simpa using hlength hmap
  | dict fields =>
      refine iff_of_false ?_ (by simp)
      rintro ⟨given, hgiven, hmap⟩
      cases hgiven
      cases hvalues
      cases hencoded
      simpa using hlength hmap

/-- An argument adds what the caller gives, unless it is a `between` without a pair. -/
theorem given_eq_some_iff (hadded : encoding.added operators entry = .ok item) :
    encoding.given operators entry = some item ↔ PairsBetween entry := by
  rw [added] at hadded
  rw [given, PairsBetween]
  cases hcode : operators.lookup (operator entry.1) with
  | none =>
      rw [hcode] at hadded
      cases hadded
  | some code =>
      rw [hcode] at hadded
      dsimp only at hadded ⊢
      cases hlookup : encoding.buildLookup (operator entry.1) code entry.2 with
      | error e =>
          rw [hlookup] at hadded
          cases hadded
      | ok lookup =>
          rw [hlookup] at hadded
          obtain rfl : (fieldname entry.1, lookup) = item := Except.ok.inj hadded
          by_cases hnull : operator entry.1 = "null".toList
          · have hbetween : operator entry.1 ≠ "between".toList := by
              rw [hnull]
              decide
            rw [if_pos hnull, ← hnull, hlookup]
            exact iff_of_true rfl fun h => absurd h hbetween
          · rw [if_neg hnull]
            rw [buildLookup.eq_def, if_neg hnull] at hlookup
            obtain ⟨values, hvalues, hlookup⟩ := except_bind_eq_ok.mp hlookup
            obtain ⟨encoded, hencoded, hlookup⟩ := except_bind_eq_ok.mp hlookup
            obtain rfl : (⟨some encoded, code⟩ : Lookup) = lookup := Except.ok.inj hlookup
            have hgiven : ((do
                let values ← encoding.givenValues (operator entry.1) entry.2
                let encoded ← values.mapM encoding.encode
                return { attributeValueList := some encoded, comparisonOperator := code } :
                  Except FilterError Lookup).toOption.map
                    fun lookup => (fieldname entry.1, lookup)) =
                  some (fieldname entry.1, ⟨some encoded, code⟩) ↔
                ∃ given, encoding.givenValues (operator entry.1) entry.2 = .ok given ∧
                  given.mapM encoding.encode = .ok encoded := by
              cases encoding.givenValues (operator entry.1) entry.2 with
              | error e => simp [bind, Except.bind, Except.toOption]
              | ok given =>
                  cases hmap : given.mapM encoding.encode with
                  | error e => simp [hmap, bind, Except.bind, Except.toOption]
                  | ok wires =>
                      simp [hmap, bind, Except.bind, pure, Except.pure, Except.toOption]
            rw [hgiven]
            by_cases hbetween : operator entry.1 = "between".toList
            · rw [hbetween] at hvalues ⊢
              rw [mapM_between_iff hvalues hencoded]
              exact ⟨fun h _ => h, fun h => h rfl⟩
            · rw [givenValues.eq_def, if_neg hbetween]
              exact iff_of_true ⟨values, hvalues, hencoded⟩ fun h => absurd h hbetween

theorem fieldnames_of_given {entries : List (Text × Value)} {items : List (Text × Lookup)}
    (hgiven : items.map some = entries.map (encoding.given operators)) :
    items.map Prod.fst = entries.map fun entry => fieldname entry.1 := by
  induction entries generalizing items with
  | nil =>
      rw [List.map_eq_nil_iff.mp hgiven]
      rfl
  | cons entry entries ih =>
      cases items with
      | nil => cases hgiven
      | cons item items =>
          rw [List.map_cons, List.map_cons, List.cons.injEq] at hgiven
          rw [List.map_cons, List.map_cons, ih hgiven.2, fieldname_of_given hgiven.1.symm]

/-! ## All arguments -/

/-- Values are encoded as a new table does. -/
noncomputable def standard : FilterEncoding where
  version := .py3
  setOrder := ⟨Finset.toList, fun elements => elements.coe_toList⟩
  useBoolean := false

/-- An age between two others. -/
def ages : OrderedDict Text Value where
  items :=
    [("age__gt".toList, .scalar (.number 17 true)), ("age__lt".toList, .scalar (.number 65 true))]
  nodup := by decide

end Boto.DynamoDB2.FilterEncoding
