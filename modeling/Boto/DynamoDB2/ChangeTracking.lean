import Boto.DynamoDB2.Item

/-!
# Change tracking

What `prepare_partial` sends turns the serialised form of the original data into
that of the current data, except where a value was replaced by an equal one that is
serialised with another type: under `Dynamizer`, where booleans have a type of their
own, `True` by 1 for example.
-/

namespace Boto.DynamoDB2

/-- What is to be done with a field, from its values in the original and the current
data: nothing, removing it, or setting it. -/
def alteration (orig current : Option Value) : Option (Option Value) :=
  match orig, current with
  | none, none => none
  | none, some value => if value.isStorable then some (some value) else none
  | some _, none => some none
  | some orig, some value =>
      if value.eq orig then none
      else if value.isStorable then some (some value)
      else some none

/-- Only stored values are set. -/
theorem alteration_eq_set {orig current : Option Value} {value : Value}
    (halter : alteration orig current = some (some value)) :
    current = some value ∧ value.isStorable = true := by
  unfold alteration at halter
  split at halter
  · cases halter
  · split at halter <;> cases halter
    exact ⟨rfl, ‹_›⟩
  · cases halter
  · split at halter
    · cases halter
    · split at halter <;> cases halter
      exact ⟨rfl, ‹_›⟩

/-- Only fields without a stored value are removed. -/
theorem alteration_eq_remove {orig current : Option Value}
    (halter : alteration orig current = some none) :
    ∀ value, current = some value → value.isStorable = false := by
  rintro value rfl
  unfold alteration at halter
  split at halter
  · cases halter
  · split at halter <;> cases halter
  · rename_i hcurrent
    cases hcurrent
  · rename_i hcurrent
    cases hcurrent
    split at halter
    · cases halter
    · split at halter
      · cases halter
      · exact Bool.eq_false_iff.mpr ‹_›

/-- A field is left alone if it is missing in both, new with a value that is not
stored, or unchanged. -/
theorem alteration_eq_none {orig current : Option Value}
    (halter : alteration orig current = none) :
    (orig = none ∧ ∀ value, current = some value → value.isStorable = false) ∨
      ∃ old value, orig = some old ∧ current = some value ∧
        value.eq old = true := by
  unfold alteration at halter
  split at halter
  · exact Or.inl ⟨rfl, fun value hvalue => by cases hvalue⟩
  · split at halter
    · cases halter
    · rename_i hnot
      refine Or.inl ⟨rfl, fun value hvalue => ?_⟩
      cases hvalue
      exact Bool.eq_false_iff.mpr hnot
  · cases halter
  · split at halter
    · exact Or.inr ⟨_, _, rfl, rfl, ‹_›⟩
    · split at halter <;> cases halter

namespace Item

variable {table : Table} {self : Item}

theorem get?_adds (self : Item) (key : Text) :
    self.determineAlterations.adds.get? key =
      (self.data.get? key).bind fun value =>
        if (self.origData.get? key).isNone && value.isStorable then some value
        else none :=
  Dict.get?_filterMap _ _ _

theorem get?_changes (self : Item) (key : Text) :
    self.determineAlterations.changes.get? key =
      (self.data.get? key).bind fun value =>
        if self.differs key value && value.isStorable then some value else none :=
  Dict.get?_filterMap _ _ _

theorem get?_deletes (self : Item) (key : Text) :
    self.determineAlterations.deletes.get? key =
      ((self.data.get? key).bind fun value =>
        if self.differs key value && !value.isStorable then some () else none).or
      ((self.origData.get? key).bind fun _ =>
        if (self.data.get? key).isNone then some () else none) := by
  simp [determineAlterations]

/-- The three dictionaries are about different fields. -/
theorem alterations_cases (self : Item) (key : Text) :
    match alteration (self.origData.get? key) (self.data.get? key) with
    | none => self.determineAlterations.adds.get? key = none ∧
        self.determineAlterations.changes.get? key = none ∧
        self.determineAlterations.deletes.get? key = none
    | some none => self.determineAlterations.adds.get? key = none ∧
        self.determineAlterations.changes.get? key = none ∧
        self.determineAlterations.deletes.get? key = some ()
    | some (some value) =>
        (self.determineAlterations.adds.get? key).or
          (self.determineAlterations.changes.get? key) = some value ∧
        self.determineAlterations.deletes.get? key = none := by
  rw [get?_adds, get?_changes, get?_deletes]
  cases horig : self.origData.get? key with
  | none =>
      cases hdata : self.data.get? key with
      | none => simp [alteration]
      | some value =>
          cases hstorable : value.isStorable <;>
            simp [alteration, differs, horig, hstorable]
  | some orig =>
      cases hdata : self.data.get? key with
      | none => simp [alteration]
      | some value =>
          cases heq : value.eq orig <;> cases hstorable : value.isStorable <;>
            simp [alteration, differs, horig, heq, hstorable]

theorem putAction_eq_ok {value : Value} {result : Option Action}
    (hok : putAction table value = .ok result) :
    ∃ wire, value.encode table.useBoolean = .ok wire ∧
      result = some (.put wire) := by
  unfold putAction at hok
  cases hencode : value.encode table.useBoolean with
  | error e => simp [hencode, Except.map] at hok
  | ok wire =>
      simp only [hencode, Except.map, Except.ok.injEq] at hok
      exact ⟨wire, rfl, hok.symm⟩

theorem storedForm_eq_ok {value : Value} {result : Option Wire}
    (hok : storedForm table value = .ok result) :
    if value.isStorable then
      ∃ wire, value.encode table.useBoolean = .ok wire ∧ result = some wire
    else result = none := by
  unfold storedForm at hok
  split at hok
  · rename_i hstorable
    rw [if_pos hstorable]
    cases hencode : value.encode table.useBoolean with
    | error e => simp [hencode, Except.map] at hok
    | ok wire =>
        simp only [hencode, Except.map, Except.ok.injEq] at hok
        exact ⟨wire, rfl, hok.symm⟩
  · rename_i hnot
    rw [if_neg hnot]
    exact (Except.ok.inj hok).symm

/-- What `prepare_partial` has for a field. -/
theorem preparePartial_get? {actions : Dict Text Action}
    (hok : self.preparePartial table = .ok actions) (key : Text) :
    match alteration (self.origData.get? key) (self.data.get? key) with
    | none => actions.get? key = none
    | some none => actions.get? key = some .delete
    | some (some value) => ∃ wire, value.encode table.useBoolean = .ok wire ∧
        actions.get? key = some (.put wire) := by
  simp only [preparePartial, except_bind_eq_ok] at hok
  obtain ⟨adds, hadds, changes, hchanges, hok⟩ := hok
  cases Except.ok.inj hok
  obtain ⟨hadds, hnoadds⟩ := Dict.filterMapM_ok_iff hadds key
  obtain ⟨hchanges, hnochanges⟩ := Dict.filterMapM_ok_iff hchanges key
  have hcases := alterations_cases self key
  simp only [Dict.get?_union, Dict.get?_filterMap]
  cases halter : alteration (self.origData.get? key) (self.data.get? key) with
  | none =>
      simp only [halter] at hcases ⊢
      simp [hcases.2.2, hnoadds hcases.1, hnochanges hcases.2.1]
  | some change =>
      cases change with
      | none =>
          simp only [halter] at hcases ⊢
          simp [hcases.2.2, hnoadds hcases.1, hnochanges hcases.2.1]
      | some value =>
          simp only [halter] at hcases ⊢
          obtain ⟨hset, hkept⟩ := hcases
          rcases Option.or_eq_some_iff.mp hset with hadd | ⟨hnone, hchange⟩
          · obtain ⟨wire, hwire, hget⟩ := putAction_eq_ok (hadds value hadd)
            exact ⟨wire, hwire, by simp [hget]⟩
          · obtain ⟨wire, hwire, hget⟩ :=
              putAction_eq_ok (hchanges value hchange)
            exact ⟨wire, hwire, by simp [hnoadds hnone, hget]⟩

/-- What `prepare_full` has for a field. -/
theorem prepareFull_get? {attributes : Attributes}
    (hok : self.prepareFull table = .ok attributes) (key : Text) :
    match self.data.get? key with
    | none => attributes.get? key = none
    | some value => storedForm table value = .ok (attributes.get? key) := by
  obtain ⟨hsome, hnone⟩ := Dict.filterMapM_ok_iff hok key
  cases hget : self.data.get? key with
  | none => exact hnone hget
  | some value => exact hsome value hget

/-- If all fields can be serialised, the altered ones can. -/
theorem preparePartial_ok {attributes : Attributes}
    (hok : self.prepareFull table = .ok attributes) :
    ∃ actions, self.preparePartial table = .ok actions := by
  have hencode : ∀ key value, self.data.get? key = some value →
      value.isStorable = true → ∃ result, putAction table value = .ok result := by
    intro key value hget hstorable
    have hfull := prepareFull_get? hok key
    rw [hget] at hfull
    have hform := storedForm_eq_ok hfull
    rw [if_pos hstorable] at hform
    obtain ⟨wire, hwire, -⟩ := hform
    exact ⟨some (.put wire), by rw [putAction, hwire]; rfl⟩
  have hput : ∀ p : Text → Value → Bool, ∃ puts,
      (self.data.filterMap fun key value =>
        if p key value && value.isStorable then some value
        else none).filterMapM (fun _ value => putAction table value) = .ok puts := by
    intro p
    apply Dict.filterMapM_eq_ok
    rintro ⟨key, value⟩ hmem
    have hget := Dict.get?_eq_some_iff.mpr hmem
    rw [Dict.get?_filterMap, Option.bind_eq_some_iff] at hget
    obtain ⟨value', hdata, hvalue⟩ := hget
    split at hvalue
    · rename_i hkept
      cases hvalue
      exact hencode key value hdata (Bool.and_eq_true_iff.mp hkept).2
    · cases hvalue
  obtain ⟨adds, hadds⟩ := hput fun key _ => (self.origData.get? key).isNone
  obtain ⟨changes, hchanges⟩ := hput self.differs
  refine ⟨(adds.union changes).union
    (self.determineAlterations.deletes.filterMap fun _ _ => some .delete), ?_⟩
  simp only [preparePartial, except_bind_eq_ok]
  exact ⟨adds, hadds, changes, hchanges, rfl⟩

/-- Nothing needs saving exactly when no field is to be altered. -/
theorem needsSave_eq_false_iff :
    self.needsSave = false ↔
      ∀ key, alteration (self.origData.get? key) (self.data.get? key) = none := by
  simp only [needsSave, Bool.or_eq_false_iff, Bool.not_eq_false',
    List.isEmpty_iff, Dict.items_eq_nil_iff]
  constructor
  · rintro ⟨⟨hadds, hchanges⟩, hdeletes⟩ key
    have hcases := alterations_cases self key
    cases halter : alteration (self.origData.get? key) (self.data.get? key) with
    | none => rfl
    | some change =>
        cases change with
        | none => simp [halter, hdeletes key] at hcases
        | some value => simp [halter, hadds key, hchanges key] at hcases
  · intro hnone
    refine ⟨⟨fun key => ?_, fun key => ?_⟩, fun key => ?_⟩
    all_goals
      have hcases := alterations_cases self key
      simp only [hnone key] at hcases
    · exact hcases.1
    · exact hcases.2.1
    · exact hcases.2.2

end Item

/-! ## Actions and full serialisations -/

@[simp] theorem altered_get? (actions : Dict Text Action) (attributes : Attributes)
    (key : Text) :
    (altered actions attributes).get? key =
      match actions.get? key with
      | none => attributes.get? key
      | some (.put value) => some value
      | some .delete => none := by
  cases hget : actions.get? key with
  | none => simp [altered, hget]
  | some action => cases action <;> simp [altered, hget]

/-- The actions turn one serialisation into the other, and there are some if these
differ. -/
structure Tracks (item : Item) (actions : Dict Text Action)
    (orig current : Attributes) : Prop where
  altered : (altered actions orig).Same current
  unaltered : item.needsSave = false → orig.Same current

namespace Item

variable {table : Table} {item : Item} {actions : Dict Text Action}
variable {current : Attributes}

/-- What is serialised of a field. -/
theorem prepareFull_get?_of_stored (hok : item.prepareFull table = .ok current)
    {key : Text} {value : Value} (hvalue : item.data.get? key = some value)
    (hstored : value.isStorable = true) :
    ∃ wire, value.encode table.useBoolean = .ok wire ∧
      current.get? key = some wire := by
  have hform := prepareFull_get? hok key
  rw [hvalue] at hform
  simpa [hstored] using storedForm_eq_ok hform

theorem prepareFull_get?_of_not_stored (hok : item.prepareFull table = .ok current)
    {key : Text} (hnot : ∀ value, item.data.get? key = some value →
      value.isStorable = false) : current.get? key = none := by
  have hform := prepareFull_get? hok key
  cases hvalue : item.data.get? key with
  | none => simpa [hvalue] using hform
  | some value =>
      rw [hvalue] at hform
      simpa [hnot value hvalue] using storedForm_eq_ok hform

/-- A field that is sent is as in the serialised form, whatever it was. -/
theorem altered_get?_of_sent (hcurrent : item.prepareFull table = .ok current)
    (hactions : item.preparePartial table = .ok actions) {key : Text}
    (hsent : alteration (item.origData.get? key) (item.data.get? key) ≠ none)
    (attributes : Attributes) :
    (altered actions attributes).get? key = current.get? key := by
  have hact := preparePartial_get? hactions key
  cases halter : alteration (item.origData.get? key) (item.data.get? key) with
  | none => exact absurd halter hsent
  | some change =>
      rw [halter] at hact
      cases change with
      | none =>
          simp only at hact
          rw [altered_get?, hact, prepareFull_get?_of_not_stored hcurrent
            (alteration_eq_remove halter)]
      | some value =>
          obtain ⟨hvalue, hstored⟩ := alteration_eq_set halter
          obtain ⟨wire, hwire, hact⟩ := hact
          obtain ⟨wire', hwire', hget⟩ :=
            prepareFull_get?_of_stored hcurrent hvalue hstored
          rw [hwire] at hwire'
          cases hwire'
          rw [altered_get?, hact, hget]

/-- A field that is not sent stays as it was. -/
theorem altered_get?_of_unsent (hactions : item.preparePartial table = .ok actions)
    {key : Text}
    (hunsent : alteration (item.origData.get? key) (item.data.get? key) = none)
    (attributes : Attributes) :
    (altered actions attributes).get? key = attributes.get? key := by
  have hact := preparePartial_get? hactions key
  rw [hunsent] at hact
  rw [altered_get?, hact]

/-- Serialisations of equal values agree if these have booleans at the same places,
or booleans have no type of their own. -/
theorem unaltered_get?_eq_iff {orig : Attributes}
    (horig : (Item.mk item.origData item.origData).prepareFull table = .ok orig)
    (hcurrent : item.prepareFull table = .ok current) {key : Text}
    {old value : Value} (hold : item.origData.get? key = some old)
    (hvalue : item.data.get? key = some value) (heq : value.eq old = true) :
    orig.get? key = current.get? key ↔
      (table.useBoolean = true → value.sameBooleans old = true) := by
  have hstored := Value.isStorable_congr heq
  cases hcases : value.isStorable with
  | true =>
      obtain ⟨x, hx, hgetx⟩ := prepareFull_get?_of_stored hcurrent hvalue hcases
      obtain ⟨y, hy, hgety⟩ :=
        prepareFull_get?_of_stored horig hold (hstored.symm.trans hcases)
      rw [hgetx, hgety, Option.some.injEq, eq_comm,
        Value.encode_eq_iff value old heq hx hy]
  | false =>
      have hnone : current.get? key = none :=
        prepareFull_get?_of_not_stored hcurrent (fun value' hvalue' => by
          rw [hvalue] at hvalue'
          cases hvalue'
          exact hcases)
      have hnone' : orig.get? key = none :=
        prepareFull_get?_of_not_stored horig (fun old' hold' => by
          rw [show item.origData.get? key = _ from hold] at hold'
          cases hold'
          exact hstored.symm.trans hcases)
      rw [hnone, hnone']
      simp [Value.sameBooleans_of_not_stored heq hcases]

/-- On a field, the actions turn one serialisation into the other if no value was
replaced by an equal one with booleans at other places. -/
theorem altered_get?_eq_iff {orig : Attributes}
    (horig : (Item.mk item.origData item.origData).prepareFull table = .ok orig)
    (hcurrent : item.prepareFull table = .ok current)
    (hactions : item.preparePartial table = .ok actions) (key : Text) :
    (altered actions orig).get? key = current.get? key ↔
      ∀ old value, item.origData.get? key = some old →
        item.data.get? key = some value → value.eq old = true →
        table.useBoolean = true → value.sameBooleans old = true := by
  cases halter : alteration (item.origData.get? key) (item.data.get? key) with
  | some change =>
      rw [altered_get?_of_sent hcurrent hactions (by simp [halter])]
      simp only [true_iff]
      intro old value hold hvalue heq
      simp [alteration, hold, hvalue, heq] at halter
  | none =>
      rw [altered_get?_of_unsent hactions halter]
      rcases alteration_eq_none halter with ⟨hnew, hnot⟩ |
        ⟨old, value, hold, hvalue, heq⟩
      · rw [prepareFull_get?_of_not_stored hcurrent hnot,
          prepareFull_get?_of_not_stored horig (fun old hold => by
            rw [show item.origData.get? key = _ from hnew] at hold
            cases hold)]
        simp [hnew]
      · rw [unaltered_get?_eq_iff horig hcurrent hold hvalue heq, hold, hvalue]
        simp only [Option.some.injEq]
        constructor
        · rintro hsame old' value' rfl rfl - hboolean
          exact hsame hboolean
        · intro hsame
          exact hsame old value rfl rfl heq

end Item

end Boto.DynamoDB2
