import Boto.DynamoDB2.ChangeTracking

/-!
# Partial saves

After a `partial_save`, the service has the whole item if and only if it already had
what was not sent: the attributes outside the key that are unchanged.  This is so for
a new item, and for one that is in sync with the service and has kept its key and the
types of its booleans.  When the key of a stored item is changed, only the changed
attributes arrive under the new key, and the item is marked clean all the same.
-/

namespace Boto.DynamoDB2

open EStateM

/-! ## Lists of results -/

theorem mapM_except_eq_ok {ε α β : Type} {f : α → Except ε β} {xs : List α}
    {ys : List β} (hok : xs.mapM f = .ok ys) :
    ys.length = xs.length ∧ ∀ item ∈ xs.zip ys, f item.1 = .ok item.2 := by
  induction xs generalizing ys with
  | nil =>
      cases hok
      simp
  | cons x xs ih =>
      rw [List.mapM_cons, except_bind_eq_ok] at hok
      obtain ⟨y, hy, hok⟩ := hok
      rw [except_bind_eq_ok] at hok
      obtain ⟨ys', hys, hok⟩ := hok
      cases hok
      obtain ⟨hlength, hzip⟩ := ih hys
      refine ⟨by simp [hlength], ?_⟩
      intro item hmem
      rcases List.mem_cons.mp hmem with rfl | hmem
      · exact hy
      · exact hzip item hmem

theorem mapM_option_eq_some {α β : Type} {f : α → Option β} {xs : List α}
    {ys : List β} (hsome : xs.mapM f = some ys) : ∀ x ∈ xs, ∃ y, f x = some y := by
  induction xs generalizing ys with
  | nil => simp
  | cons x xs ih =>
      simp only [List.mapM_cons, Option.bind_eq_bind, Option.bind_eq_some_iff]
        at hsome
      obtain ⟨y, hy, ys', hys, -⟩ := hsome
      intro x' hmem
      rcases List.mem_cons.mp hmem with rfl | hmem
      · exact ⟨y, hy⟩
      · exact ih hys x' hmem

namespace Item

variable {table : Table} {item : Item}

/-- The key under which a request about the item finds it, if it has one. -/
def currentKey (table : Table) (item : Item) : Option (List KeyValue) :=
  match item.rawKey table with
  | .error _ => none
  | .ok raw => raw.mapM Wire.toKey

/-- A key attribute is always stored. -/
theorem isStorable_of_toKey {useBoolean : Bool} {value : Value} {wire : Wire}
    {key : KeyValue} (hwire : value.encode useBoolean = .ok wire)
    (hkey : wire.toKey = some key) : value.isStorable = true := by
  cases value with
  | scalar a =>
      have heq := Scalar.eq_wire_of_encode hwire
      rw [Value.isStorable_scalar]
      cases a with
      | none => simp [heq, Scalar.wire, Wire.toKey] at hkey
      | other name truthy => cases hwire
      | str text =>
          cases text <;> simp [heq, Scalar.wire, Wire.toKey, Scalar.truthy] at hkey ⊢
      | bytes value =>
          cases value <;> simp [heq, Scalar.wire, Wire.toKey, Scalar.truthy] at hkey ⊢
      | _ => simp [Scalar.isNum]
  | set a =>
      have hset : encodeSet a = .ok wire := hwire
      unfold encodeSet at hset
      repeat' split at hset
      all_goals cases hset
      all_goals simp [Wire.toKey] at hkey
  | list a =>
      obtain ⟨xs, -, rfl⟩ := Value.encode_list_eq_ok hwire
      simp [Wire.toKey] at hkey
  | dict a =>
      obtain ⟨xs, -, rfl⟩ := Value.encode_dict_eq_ok hwire
      simp [Wire.toKey] at hkey

/-- The key of an item is made of the serialised forms of its key fields. -/
theorem rawKey_field {raw : List Wire} {key : List KeyValue}
    (hraw : item.rawKey table = .ok raw) (hkey : raw.mapM Wire.toKey = some key)
    {field : Text} {wire : Wire} (hmem : (field, wire) ∈ table.keyFields.zip raw) :
    ∃ value, item.data.get? field = some value ∧ value.isStorable = true ∧
      value.encode table.useBoolean = .ok wire := by
  have hencode := (mapM_except_eq_ok hraw).2 _ hmem
  obtain ⟨keyValue, hvalue⟩ :=
    mapM_option_eq_some hkey wire (List.of_mem_zip hmem).2
  dsimp only at hencode
  cases hdata : item.data.get? field with
  | none =>
      rw [hdata] at hencode
      cases hencode
      simp [Wire.toKey] at hvalue
  | some value =>
      rw [hdata, Option.getD_some, except_mapError_eq_ok] at hencode
      exact ⟨value, rfl, isStorable_of_toKey hencode hvalue, hencode⟩

/-- Each key field is in the key. -/
theorem map_fst_zip_rawKey {raw : List Wire} (hraw : item.rawKey table = .ok raw) :
    (table.keyFields.zip raw).map Prod.fst = table.keyFields := by
  rw [List.map_fst_zip]
  exact Nat.le_of_eq (mapM_except_eq_ok hraw).1.symm

/-- An updated item has the key attributes of the serialised form. -/
theorem updated_get?_key {update : Update} {key : List KeyValue}
    {full current : Attributes} (hraw : item.rawKey table = .ok update.key)
    (hkey : update.key.mapM Wire.toKey = some key)
    (hfull : item.prepareFull table = .ok full) {field : Text}
    (hfield : field ∈ table.keyFields) :
    (table.updated update current).get? field = full.get? field := by
  have hmem : field ∈ (table.keyFields.zip update.key).map Prod.fst := by
    rw [map_fst_zip_rawKey hraw]
    exact hfield
  obtain ⟨⟨field, wire⟩, hwire, rfl⟩ := List.mem_map.mp hmem
  obtain ⟨value, hvalue, hstored, hencode⟩ := rawKey_field hraw hkey hwire
  dsimp only at hmem
  obtain ⟨wire', hwire', hget⟩ := prepareFull_get?_of_stored hfull hvalue hstored
  have hsame : ∀ other ∈ table.keyFields.zip update.key, other.1 = field →
      other.2 = wire' := by
    rintro ⟨_, other⟩ hother rfl
    obtain ⟨value', hvalue', -, hencode'⟩ := rawKey_field hraw hkey hother
    rw [hvalue] at hvalue'
    cases hvalue'
    rw [hwire'] at hencode'
    exact (Except.ok.inj hencode').symm
  rw [Table.updated, Dict.foldl_set_get?_of_mem hmem hsame, hget]

theorem updated_get?_of_not_key {update : Update} {current : Attributes}
    (hraw : item.rawKey table = .ok update.key) {field : Text}
    (hfield : field ∉ table.keyFields) :
    (table.updated update current).get? field =
      (altered update.actions current).get? field := by
  rw [Table.updated, Dict.foldl_set_get?_of_not_mem]
  rw [map_fst_zip_rawKey hraw]
  exact hfield

/-- What `partial_save` sends. -/
theorem partialUpdate_eq_some {update : Update}
    (hupdate : item.partialUpdate table = .ok (some update)) :
    ∃ finalData, item.preparePartial table = .ok finalData ∧
      finalData.items ≠ [] ∧
      update.actions = (finalData.filterMap fun key action =>
        if table.keyFields.contains key then none else some action) ∧
      item.buildExpects table (update.actions.filterMap fun _ _ => some ()) =
        .ok update.expects ∧
      item.rawKey table = .ok update.key := by
  rw [partialUpdate, except_bind_eq_ok] at hupdate
  obtain ⟨finalData, hfinal, hupdate⟩ := hupdate
  rw [except_mapError_eq_ok] at hfinal
  split at hupdate
  · cases hupdate
  · rename_i hsome
    simp only [except_bind_eq_ok] at hupdate
    obtain ⟨expects, hexpects, raw, hraw, hupdate⟩ := hupdate
    cases hupdate
    exact ⟨finalData, hfinal, by simpa using hsome, rfl, hexpects, hraw⟩

/-- The actions on a field outside the key are those of the alterations. -/
theorem altered_get?_of_not_key {finalData actions : Dict Text Action}
    (hactions : actions = finalData.filterMap fun key action =>
      if table.keyFields.contains key then none else some action)
    {field : Text} (hfield : field ∉ table.keyFields) (attributes : Attributes) :
    (altered actions attributes).get? field =
      (altered finalData attributes).get? field := by
  have hget : actions.get? field = finalData.get? field := by
    rw [hactions, Dict.get?_filterMap]
    cases finalData.get? field <;> simp [hfield]
  rw [altered_get?, altered_get?, hget]

end Item

/-! ## Runs -/

/-- A request that is answered replaced the item. -/
theorem request_meets (key : Option (List KeyValue))
    (expects : Dict Text Expectation) (attributes : Attributes → Attributes)
    (world : World) :
    ((request key expects attributes).run world).Meets
      (fun _ world' => ∃ key', key = some key' ∧
        (Expected.mk expects (world.store key')).holds = true ∧
        world' =
          { item := world.item
            store := world.store.replace key' (attributes (world.store key'))
            requests := world.requests ++
              [{ expects := expects, current := world.store key' }] })
      (fun _ world' => world'.item = world.item ∧ world'.store = world.store ∧
        world'.requests = world.requests ++
          [{ expects := expects
             current := (key.map world.store).getD .empty }]) := by
  rw [request, run_bind, run_get]
  dsimp only
  rw [run_bind, run_modify]
  dsimp only
  cases key with
  | none => exact ⟨rfl, rfl, rfl⟩
  | some key =>
      dsimp only [Option.map_some, Option.getD_some]
      split
      · rename_i hholds
        exact ⟨key, rfl, hholds, rfl⟩
      · exact ⟨rfl, rfl, rfl⟩

/-- A partial save that raises changes neither the item nor the service; one that
returns sent nothing, or replaced the item under its key. -/
theorem partialSave_meets (table : Table) (world : World) :
    ((World.partialSave table).run world).Meets
      (fun saved world' =>
        (saved = false ∧ world' = world ∧
          world.item.partialUpdate table = .ok none) ∨
        (saved = true ∧ ∃ update key,
          world.item.partialUpdate table = .ok (some update) ∧
          update.key.mapM Wire.toKey = some key ∧
          (Expected.mk update.expects (world.store key)).holds = true ∧
          world' =
            { item := world.item.markClean
              store := world.store.replace key
                (table.updated update (world.store key))
              requests := world.requests ++
                [{ expects := update.expects, current := world.store key }] }))
      (fun _ world' => world'.item = world.item ∧ world'.store = world.store ∧
        (world.item.partialUpdate table ≠ .ok none) ∧
        (world'.requests = world.requests ∨ ∃ update,
          world.item.partialUpdate table = .ok (some update) ∧
          world'.requests = world.requests ++
            [{ expects := update.expects
               current := ((update.key.mapM Wire.toKey).map world.store).getD
                 .empty }])) := by
  rw [World.partialSave, run_bind, run_get]
  dsimp only
  cases hupdate : world.item.partialUpdate table with
  | error error => exact ⟨rfl, rfl, by simp, Or.inl rfl⟩
  | ok update =>
      rw [ofExcept_ok_bind]
      cases update with
      | none => exact Or.inl ⟨rfl, rfl, rfl⟩
      | some update =>
          dsimp only
          have hsent := request_meets (update.key.mapM Wire.toKey) update.expects
            (table.updated update) world
          apply meets_bind (hsent.mono (fun _ _ h => h) ?_)
          · rintro - world' ⟨key, hkey, hholds, rfl⟩
            exact Or.inr ⟨rfl, update, key, rfl, hkey, hholds, rfl⟩
          · rintro - world' ⟨hitem, hstore, hrequests⟩
            exact ⟨hitem, hstore, by simp,
              Or.inr ⟨update, rfl, hrequests⟩⟩

/-! ## Storing the whole item -/

/-- The service has the serialised form of the item under its key, and the item
needs no save. -/
def StoresItem (table : Table) (world : World) : Prop :=
  (∃ key full, world.item.currentKey table = some key ∧
    world.item.prepareFull table = .ok full ∧ (world.store key).Same full) ∧
  world.item.needsSave = false

/-- The attributes have the serialised form of each field that a partial save does
not send: those outside the key that are not altered. -/
def HoldsUnsent (table : Table) (item : Item) (attributes : Attributes) : Prop :=
  ∀ field, field ∉ table.keyFields →
    alteration (item.origData.get? field) (item.data.get? field) = none →
    match item.data.get? field with
    | none => attributes.get? field = none
    | some value => Item.storedForm table value = .ok (attributes.get? field)

namespace Item

variable {table : Table} {item : Item}

/-- A clean item has nothing to save. -/
theorem needsSave_markClean (item : Item) : item.markClean.needsSave = false := by
  rw [needsSave_eq_false_iff]
  intro key
  change alteration (item.data.get? key) (item.data.get? key) = none
  cases item.data.get? key with
  | none => rfl
  | some value => simp [alteration, Value.eq_refl]

/-- An item without changes sends nothing. -/
theorem needsSave_of_partialUpdate (hsent : item.partialUpdate table ≠ .ok none) :
    item.needsSave = true := by
  by_contra hclean
  rw [Bool.not_eq_true] at hclean
  apply hsent
  have hnone := needsSave_eq_false_iff.mp hclean
  simp only [needsSave, Bool.or_eq_false_iff, Bool.not_eq_false',
    List.isEmpty_iff] at hclean
  obtain ⟨⟨hadds, hchanges⟩, -⟩ := hclean
  obtain ⟨adds, hadds⟩ := @Dict.filterMapM_eq_ok Text Value Action EncodeError
    (fun _ value => putAction table value) item.determineAlterations.adds
    (by simp [hadds])
  obtain ⟨changes, hchanges⟩ := @Dict.filterMapM_eq_ok Text Value Action
    EncodeError (fun _ value => putAction table value)
    item.determineAlterations.changes (by simp [hchanges])
  have hpartial : item.preparePartial table = .ok ((adds.union changes).union
      (item.determineAlterations.deletes.filterMap fun _ _ => some .delete)) := by
    simp only [preparePartial, except_bind_eq_ok]
    exact ⟨adds, hadds, changes, hchanges, rfl⟩
  have hempty := Dict.items_eq_nil_iff.mpr fun key => by
    have hget := preparePartial_get? hpartial key
    rwa [hnone key] at hget
  rw [partialUpdate, hpartial]
  simp [Except.mapError, bind, Except.bind, hempty, pure, Except.pure]

/-- If what is sent and what is not can be serialised, the item can. -/
theorem prepareFull_ok_of_holdsUnsent {update : Update} {key : List KeyValue}
    {attributes : Attributes}
    (hupdate : item.partialUpdate table = .ok (some update))
    (hkey : update.key.mapM Wire.toKey = some key)
    (hheld : HoldsUnsent table item attributes) :
    ∃ full, item.prepareFull table = .ok full := by
  apply Dict.filterMapM_eq_ok
  rintro ⟨field, value⟩ hmem
  have hvalue := Dict.get?_eq_some_iff.mpr hmem
  obtain ⟨finalData, hfinal, -, -, -, hraw⟩ := partialUpdate_eq_some hupdate
  have hok : ∀ wire, value.encode table.useBoolean = .ok wire →
      ∃ result, storedForm table value = .ok result := by
    intro wire hwire
    rw [storedForm, hwire]
    split
    · exact ⟨some wire, rfl⟩
    · exact ⟨none, rfl⟩
  dsimp only
  by_cases hfield : field ∈ table.keyFields
  · rw [← map_fst_zip_rawKey hraw] at hfield
    obtain ⟨⟨_, wire⟩, hwire, rfl⟩ := List.mem_map.mp hfield
    obtain ⟨value', hvalue', -, hencode⟩ := rawKey_field hraw hkey hwire
    rw [hvalue] at hvalue'
    cases hvalue'
    exact hok wire hencode
  · have hact := preparePartial_get? hfinal field
    cases halter :
        alteration (item.origData.get? field) (item.data.get? field) with
    | none =>
        have hform := hheld field hfield halter
        rw [hvalue] at hform
        exact ⟨_, hform⟩
    | some change =>
        rw [halter] at hact
        cases change with
        | none =>
            have hnot := alteration_eq_remove halter value hvalue
            exact ⟨none, by simp [storedForm, hnot]⟩
        | some value' =>
            obtain ⟨hvalue', -⟩ := alteration_eq_set halter
            rw [hvalue] at hvalue'
            cases hvalue'
            obtain ⟨wire, hwire, -⟩ := hact
            exact hok wire hwire

/-- An update makes the item that of the serialised form if and only if it had what
was not sent. -/
theorem updated_same_iff {update : Update} {key : List KeyValue}
    {full current : Attributes}
    (hupdate : item.partialUpdate table = .ok (some update))
    (hkey : update.key.mapM Wire.toKey = some key)
    (hfull : item.prepareFull table = .ok full) :
    (table.updated update current).Same full ↔ HoldsUnsent table item current := by
  obtain ⟨finalData, hfinal, -, hactions, -, hraw⟩ := partialUpdate_eq_some hupdate
  constructor
  · intro hsame field hfield hunsent
    have hget := hsame field
    rw [updated_get?_of_not_key hraw hfield,
      altered_get?_of_not_key hactions hfield,
      altered_get?_of_unsent hfinal hunsent] at hget
    rw [hget]
    exact prepareFull_get? hfull field
  · intro hheld field
    by_cases hfield : field ∈ table.keyFields
    · exact updated_get?_key hraw hkey hfull hfield
    · rw [updated_get?_of_not_key hraw hfield,
        altered_get?_of_not_key hactions hfield]
      by_cases hsent :
          alteration (item.origData.get? field) (item.data.get? field) = none
      · rw [altered_get?_of_unsent hfinal hsent]
        have hheld := hheld field hfield hsent
        have hform := prepareFull_get? hfull field
        cases hvalue : item.data.get? field with
        | none =>
            rw [hvalue] at hheld hform
            rw [hheld, hform]
        | some value =>
            rw [hvalue] at hheld hform
            exact Except.ok.inj (hheld.symm.trans hform)
      · exact altered_get?_of_sent hfull hfinal hsent current

end Item

/-! ## Items in sync and new items -/

/-- The item as it was loaded or last saved. -/
def Item.original (item : Item) : Item where
  data := item.origData
  origData := item.origData

/-- The service has the serialised form of the original data under its key. -/
def InSync (table : Table) (item : Item) (store : Store) : Prop :=
  ∃ key orig, item.original.currentKey table = some key ∧
    item.original.prepareFull table = .ok orig ∧ (store key).Same orig

/-- The item was neither loaded nor saved, and the service has no item. -/
def New (item : Item) (store : Store) : Prop :=
  (∀ field, item.origData.get? field = none) ∧
    ∀ key field, (store key).get? field = none

/-- Nothing that a new item does not send is stored. -/
theorem New.holdsUnsent {table : Table} {item : Item} {store : Store}
    (hnew : New item store) (key : List KeyValue) :
    HoldsUnsent table item (store key) := by
  intro field _ hunsent
  rcases alteration_eq_none hunsent with ⟨-, hnot⟩ | ⟨old, _, hold, -⟩
  · cases hvalue : item.data.get? field with
    | none => exact hnew.2 key field
    | some value =>
        simp [Item.storedForm, hnot value hvalue, hnew.2]
  · rw [hnew.1] at hold
    cases hold

end Boto.DynamoDB2
