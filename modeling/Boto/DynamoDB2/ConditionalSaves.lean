import Boto.DynamoDB2.PartialSave

/-!
# Conditional saves

An item with a single writer is either new, with nothing at the service, or in sync:
the service has the serialised form of the original data.  Saves keep this, and what
they expect of the service is true, as long as the original data has no values that
are not stored, equal values are serialised alike, and a stored item keeps its key.
`mark_clean` also copies values that are not stored, such as `None` and empty texts,
and then the next save expects them of the service.
-/

namespace Boto.DynamoDB2

open EStateM

namespace Item

variable {table : Table} {item : Item}

/-! ## Keys -/

theorem mapM_toOption_bind {ε α β γ : Type} (g : α → Except ε β) (h : β → Option γ)
    (xs : List α) :
    (xs.mapM g).toOption.bind (fun ys => ys.mapM h) =
      xs.mapM fun x => (g x).toOption.bind h := by
  induction xs with
  | nil => rfl
  | cons x xs ih =>
      rw [List.mapM_cons, List.mapM_cons, ← ih]
      cases hx : g x with
      | error e => rfl
      | ok y =>
          cases hxs : xs.mapM g with
          | error e =>
              cases hy : h y with
              | none => simp [bind, Except.bind, Except.toOption, hy]
              | some z => simp [bind, Except.bind, Except.toOption, hy]
          | ok ys =>
              simp [bind, Except.bind, Except.toOption, pure, Except.pure,
                List.mapM_cons]

/-- The key of an item, field by field. -/
theorem currentKey_eq (table : Table) (item : Item) :
    item.currentKey table = table.keyFields.mapM fun field =>
      (((item.data.get? field).getD (.scalar .none)).encode
        table.useBoolean).toOption.bind Wire.toKey := by
  have hkey : item.currentKey table =
      (item.rawKey table).toOption.bind fun raw => raw.mapM Wire.toKey := by
    rw [currentKey]
    cases item.rawKey table <;> rfl
  rw [hkey, rawKey, mapM_toOption_bind]
  congr 1
  funext field
  cases ((item.data.get? field).getD (.scalar .none)).encode table.useBoolean <;> rfl

/-- The key of the serialised form of an item is the key of the item. -/
theorem keyOf_prepareFull {full : Attributes}
    (hfull : item.prepareFull table = .ok full) :
    table.keyOf full = item.currentKey table := by
  rw [currentKey_eq, Table.keyOf]
  congr 1
  funext field
  have hform := prepareFull_get? hfull field
  cases hvalue : item.data.get? field with
  | none =>
      rw [hvalue] at hform
      rw [hform]
      rfl
  | some value =>
      rw [hvalue] at hform
      have hform := storedForm_eq_ok hform
      rw [Option.getD_some]
      split at hform
      · obtain ⟨wire, hwire, hget⟩ := hform
        rw [hwire, hget]
        rfl
      · rename_i hnot
        rw [hform, Option.bind_none]
        cases hwire : value.encode table.useBoolean with
        | error e => rfl
        | ok wire =>
            cases hkey : wire.toKey with
            | none => exact hkey.symm
            | some key => exact absurd (isStorable_of_toKey hwire hkey) hnot

/-! ## Expectations -/

/-- The expectations for some fields are those of each one. -/
theorem buildExpects_get? {fields : Dict Text Unit}
    {expects : Dict Text Expectation}
    (hexpects : item.buildExpects table fields = .ok expects) {field : Text}
    {expected : Expectation} (hget : expects.get? field = some expected) :
    (fields.get? field).isSome ∧ item.expectation table field = .ok expected := by
  obtain ⟨hsome, hnone⟩ := Dict.filterMapM_ok_iff hexpects field
  cases hfield : fields.get? field with
  | none =>
      rw [hnone hfield] at hget
      cases hget
  | some unit =>
      have hexpected := hsome unit hfield
      cases hexpectation : item.expectation table field with
      | error e => simp [hexpectation, Except.map] at hexpected
      | ok expected' =>
          simp only [hexpectation, Except.map, Except.ok.injEq, hget,
            Option.some.injEq] at hexpected
          subst hexpected
          exact ⟨rfl, rfl⟩

end Item

/-- The expectations hold if each does of its attribute. -/
theorem Expected.holds_of_forall {expects : Dict Text Expectation}
    {current : Attributes}
    (hall : ∀ field expectation, expects.get? field = some expectation →
      expectation.holds (current.get? field) = true) :
    (Expected.mk expects current).holds = true := by
  rw [Expected.holds, List.all_eq_true]
  rintro ⟨field, expectation⟩ hmem
  exact hall field expectation (Dict.get?_eq_some_iff.mpr hmem)

namespace Item

variable {table : Table} {item : Item}

/-- A field that the original data does not have is expected to be missing. -/
theorem expectation_of_new {field : Text} {expected : Expectation}
    (hnew : item.origData.get? field = none)
    (hok : item.expectation table field = .ok expected) :
    expected.holds none = true := by
  rw [expectation, expectedValue, hnew] at hok
  cases hvalue : item.data.get? field with
  | none => simp [hvalue, bind, Except.bind] at hok
  | some value =>
      simp only [hvalue, bind, Except.bind, pure, Except.pure,
        Except.ok.injEq] at hok
      subst hok
      rfl

/-- A value that is stored is expected with its serialised form. -/
theorem expectation_of_stored {field : Text} {expected : Expectation} {old : Value}
    {stored : Option Wire} (hold : item.origData.get? field = some old)
    (hstored : old.isStorable = true) (hform : storedForm table old = .ok stored)
    (hkeeps : ∀ value, item.data.get? field = some value → value.eq old = true →
      storedForm table value = storedForm table old)
    (hok : item.expectation table field = .ok expected) :
    expected.holds stored = true := by
  have hvalue : ∃ value, item.expectedValue field = .ok (some value) ∧
      value.isStorable = true ∧ storedForm table value = .ok stored := by
    rw [expectedValue, hold]
    cases hdata : item.data.get? field with
    | none => exact ⟨old, rfl, hstored, hform⟩
    | some current =>
        cases heq : old.eq current with
        | false => exact ⟨old, by simp [heq], hstored, hform⟩
        | true =>
            refine ⟨current, by simp [heq], ?_, ?_⟩
            · rw [← hstored]
              exact (Value.isStorable_congr heq).symm
            · rw [Value.eq_comm] at heq
              rw [hkeeps current hdata heq, hform]
  obtain ⟨value, hvalue, hstorable, hform'⟩ := hvalue
  have hencode := storedForm_eq_ok hform'
  rw [if_pos hstorable] at hencode
  obtain ⟨wire, hwire, rfl⟩ := hencode
  rw [expectation, hvalue] at hok
  simp only [bind, Except.bind] at hok
  split at hok
  · rename_i heq
    cases heq
  · rename_i heq
    cases heq
    simp [Value.isStorable_scalar, Scalar.truthy, Scalar.isNum] at hstorable
  · rename_i heq
    cases heq
    rw [hwire] at hok
    cases hok
    simp [Expectation.holds]

end Item

/-! ## Saving everything -/

namespace Item

variable {table : Table} {item : Item}

/-- What `save` sends. -/
theorem fullPut_eq_some {overwrite : Bool} {put : Put}
    (hput : item.fullPut table overwrite = .ok (some put)) :
    item.prepareFull table = .ok put.attributes ∧
      if overwrite then put.expects = .empty
      else item.needsSave = true ∧
        item.buildExpects table item.allFields = .ok put.expects := by
  rw [fullPut] at hput
  split at hput
  · cases hput
  · rename_i hsent
    rw [except_bind_eq_ok] at hput
    obtain ⟨attributes, hfull, hput⟩ := hput
    rw [except_mapError_eq_ok] at hfull
    cases overwrite with
    | true =>
        cases hput
        exact ⟨hfull, rfl⟩
    | false =>
        rw [if_neg Bool.false_ne_true, except_bind_eq_ok] at hput
        obtain ⟨expects, hexpects, hput⟩ := hput
        cases hput
        exact ⟨hfull, by simpa using hsent, hexpects⟩

end Item

/-- A save that raises changes neither the item nor the service; one that returns sent
nothing, or replaced the item under its key. -/
theorem save_meets (table : Table) (overwrite : Bool) (world : World) :
    ((World.save table overwrite).run world).Meets
      (fun _ world' => world' = world ∨ ∃ put key,
        world.item.fullPut table overwrite = .ok (some put) ∧
        table.keyOf put.attributes = some key ∧
        world' =
          { item := world.item.markClean
            store := world.store.replace key put.attributes
            requests := world.requests ++
              [{ expects := put.expects, current := world.store key }] })
      (fun _ world' => world'.item = world.item ∧ world'.store = world.store ∧
        (world'.requests = world.requests ∨ ∃ put,
          world.item.fullPut table overwrite = .ok (some put) ∧
          world'.requests = world.requests ++
            [{ expects := put.expects
               current := ((table.keyOf put.attributes).map world.store).getD
                 .empty }])) := by
  rw [World.save, run_bind, run_get]
  dsimp only
  cases hput : world.item.fullPut table overwrite with
  | error error => exact ⟨rfl, rfl, Or.inl rfl⟩
  | ok put =>
      rw [ofExcept_ok_bind]
      cases put with
      | none => exact Or.inl rfl
      | some put =>
          dsimp only
          have hsent := request_meets (table.keyOf put.attributes) put.expects
            (fun _ => put.attributes) world
          apply meets_bind (hsent.mono (fun _ _ h => h) ?_)
          · rintro - world' ⟨key, hkey, -, rfl⟩
            exact Or.inr ⟨put, key, rfl, hkey, rfl⟩
          · rintro - world' ⟨hitem, hstore, hrequests⟩
            exact ⟨hitem, hstore, Or.inr ⟨put, rfl, hrequests⟩⟩

/-! ## The writer and the service -/

/-- The item is new, or the service has its original data. -/
def Sync (table : Table) (world : World) : Prop :=
  New world.item world.store ∨ InSync table world.item world.store

/-- Everything in the original data is stored. -/
def Item.StoresOriginals (item : Item) : Prop :=
  ∀ field old, item.origData.get? field = some old → old.isStorable = true

/-- Everything that a partial save replaces is stored. -/
def Item.StoresAltered (table : Table) (item : Item) : Prop :=
  ∀ field old, field ∉ table.keyFields →
    alteration (item.origData.get? field) (item.data.get? field) ≠ none →
    item.origData.get? field = some old → old.isStorable = true

/-- A value that equals the original one is serialised alike. -/
def Item.KeepsForms (table : Table) (item : Item) : Prop :=
  ∀ field old value, item.origData.get? field = some old →
    item.data.get? field = some value → value.eq old = true →
    Item.storedForm table value = Item.storedForm table old

/-- The key is that of the original data, if there is some. -/
def Item.KeepsKey (table : Table) (item : Item) : Prop :=
  (∃ field, item.origData.get? field ≠ none) →
    item.currentKey table = item.original.currentKey table

/-- The key of an item in sync is the one that the service knows. -/
theorem Item.KeepsKey.currentKey_eq {table : Table} {item : Item}
    (hkeeps : item.KeepsKey table) {key : List KeyValue}
    (hkey : item.original.currentKey table = some key) :
    item.currentKey table = some key := by
  by_cases hnew : ∃ field, item.origData.get? field ≠ none
  · rw [hkeeps hnew, hkey]
  · -- An item without original data has a key only if there are no key fields.
    rw [Item.currentKey_eq] at hkey ⊢
    cases hfields : table.keyFields with
    | nil => simpa [hfields] using hkey
    | cons field fields =>
        have hnone : item.original.data.get? field = none := by
          by_contra hsome
          exact hnew ⟨field, hsome⟩
        rw [hfields, List.mapM_cons, hnone] at hkey
        cases hkey

/-- What a new item expects of the service is true. -/
theorem New.expected_holds {table : Table} {world : World}
    (hnew : New world.item world.store) {fields : Dict Text Unit}
    {expects : Dict Text Expectation}
    (hexpects : world.item.buildExpects table fields = .ok expects)
    (key : Option (List KeyValue)) :
    (Expected.mk expects ((key.map world.store).getD .empty)).holds = true := by
  apply Expected.holds_of_forall
  intro field expected hget
  have hmissing : ((key.map world.store).getD .empty).get? field = none := by
    cases key with
    | none => rfl
    | some key => exact hnew.2 key field
  rw [hmissing]
  exact Item.expectation_of_new (hnew.1 field) (Item.buildExpects_get? hexpects hget).2

/-- What an item in sync expects of the service is true, if the values that it
replaces are stored and equal values are serialised alike. -/
theorem expected_holds_of_same {table : Table} {item : Item}
    {fields : Dict Text Unit} {expects : Dict Text Expectation}
    {orig current : Attributes}
    (horig : item.original.prepareFull table = .ok orig)
    (hsame : current.Same orig) (hkeeps : item.KeepsForms table)
    (hstored : ∀ field old, (fields.get? field).isSome →
      item.origData.get? field = some old → old.isStorable = true)
    (hexpects : item.buildExpects table fields = .ok expects) :
    (Expected.mk expects current).holds = true := by
  apply Expected.holds_of_forall
  intro field expected hget
  obtain ⟨hfield, hexpected⟩ := Item.buildExpects_get? hexpects hget
  have hform := Item.prepareFull_get? horig field
  rw [hsame]
  rw [show item.original.data.get? field = item.origData.get? field from rfl] at hform
  cases hold : item.origData.get? field with
  | none =>
      rw [hold] at hform
      rw [hform]
      exact Item.expectation_of_new hold hexpected
  | some old =>
      rw [hold] at hform
      exact Item.expectation_of_stored hold (hstored field old hfield hold) hform
        (fun value hvalue heq => hkeeps field old value hold hvalue heq) hexpected

/-! ## Operations and runs -/

/-- What can be done with an item.  Exceptions are caught. -/
inductive Operation
  | setItem (key : Text) (value : Value)
  | delItem (key : Text)
  | save (overwrite : Bool)
  | partialSave

/-- The world after an operation. -/
def World.step (table : Table) (world : World) : Operation → World
  | .setItem key value => { world with item := world.item.setItem key value }
  | .delItem key => { world with item := world.item.delItem key }
  | .save overwrite => ((World.save table overwrite).run world).state
  | .partialSave => ((World.partialSave table).run world).state

/-- The world after some operations. -/
def World.steps (table : Table) (world : World) (operations : List Operation) : World :=
  operations.foldl (World.step table) world

/-- What a save relies on, if there is something to save. -/
def Operation.Safe (table : Table) (item : Item) : Operation → Prop
  | .save false => item.needsSave = true →
      item.StoresOriginals ∧ item.KeepsForms table ∧ item.KeepsKey table
  | .partialSave => item.needsSave = true →
      item.StoresAltered table ∧ item.KeepsForms table ∧ item.KeepsKey table
  | _ => True

/-- Each operation of a run is safe when it is done. -/
def SafeRun (table : Table) : World → List Operation → Prop
  | _, [] => True
  | world, operation :: operations =>
      operation.Safe table world.item ∧
        SafeRun table (world.step table operation) operations

/-- A new item while the service has none, or one that is loaded from the service,
which has what was once written. -/
inductive Start (table : Table) : World → Prop
  | new (data : Data) :
      Start table
        { item := .init data false, store := fun _ => .empty, requests := [] }
  | load (store : Store) (key : List KeyValue) (written : Item) (full : Attributes)
      (hwritten : written.prepareFull table = .ok full)
      (hsame : (store key).Same full) (hkey : table.keyOf (store key) = some key) :
      Start table { item := .load (store key), store := store, requests := [] }

/-- The attributes of an item that was written are the serialised form of what is
loaded from them. -/
theorem Item.prepareFull_load {table : Table} {written : Item}
    {attributes full : Attributes} (hwritten : written.prepareFull table = .ok full)
    (hsame : attributes.Same full) :
    ∃ orig, (Item.load attributes).prepareFull table = .ok orig ∧
      attributes.Same orig := by
  have hform : ∀ field wire, attributes.get? field = some wire →
      Item.storedForm table wire.decode = .ok (some wire) := by
    intro field wire hget
    rw [hsame] at hget
    have hfield := Item.prepareFull_get? hwritten field
    cases hvalue : written.data.get? field with
    | none =>
        rw [hvalue, hget] at hfield
        cases hfield
    | some value =>
        rw [hvalue, hget] at hfield
        have hfield := Item.storedForm_eq_ok hfield
        split at hfield
        · rename_i hstored
          obtain ⟨wire', hwire, heq⟩ := hfield
          cases heq
          rw [Item.storedForm, if_pos (isStorable_decode hwire hstored),
            Value.encode_decode value hwire]
          rfl
        · cases hfield
  have hdata : ∀ field, (Item.load attributes).data.get? field =
      (attributes.get? field).map Wire.decode := by
    intro field
    rw [Item.load, Dict.get?_filterMap]
    cases attributes.get? field <;> rfl
  have horig : ∃ orig, (Item.load attributes).prepareFull table = .ok orig := by
    apply Dict.filterMapM_eq_ok
    rintro ⟨field, value⟩ hmem
    have hget := Dict.get?_eq_some_iff.mpr hmem
    rw [hdata, Option.map_eq_some_iff] at hget
    obtain ⟨wire, hwire, rfl⟩ := hget
    exact ⟨_, hform field wire hwire⟩
  obtain ⟨orig, horig⟩ := horig
  refine ⟨orig, horig, fun field => ?_⟩
  have hfield := Item.prepareFull_get? horig field
  rw [hdata] at hfield
  cases hget : attributes.get? field with
  | none =>
      rw [hget] at hfield
      exact hfield.symm
  | some wire =>
      rw [hget, Option.map_some] at hfield
      dsimp only at hfield
      rw [hform field wire hget] at hfield
      exact Except.ok.inj hfield

theorem keyOf_congr {table : Table} {attributes attributes' : Attributes}
    (hsame : attributes.Same attributes') :
    table.keyOf attributes = table.keyOf attributes' := by
  rw [Table.keyOf, Table.keyOf]
  congr 1
  funext field
  rw [hsame]

/-- The item is in sync from the start. -/
theorem Start.sync {table : Table} {world : World} (hstart : Start table world) :
    Sync table world ∧ world.requests = [] := by
  cases hstart with
  | new data => exact ⟨Or.inl ⟨fun _ => rfl, fun _ _ => rfl⟩, rfl⟩
  | load store key written full hwritten hsame hkey =>
      obtain ⟨orig, horig, hsame'⟩ := Item.prepareFull_load hwritten hsame
      refine ⟨Or.inr ⟨key, orig, ?_, horig, hsame'⟩, rfl⟩
      change (Item.load (store key)).currentKey table = some key
      rw [← Item.keyOf_prepareFull horig, ← keyOf_congr hsame', hkey]

/-! ## One step -/

/-- The requests made so far expected what was true. -/
def RequestsHold (world : World) : Prop :=
  ∀ expected ∈ world.requests, expected.holds = true

theorem forall_mem_append_singleton {α : Type} {p : α → Prop} {xs : List α} {x : α}
    (hxs : ∀ y ∈ xs, p y) (hx : p x) : ∀ y ∈ xs ++ [x], p y := by
  intro y hmem
  rcases List.mem_append.mp hmem with hmem | hmem
  · exact hxs y hmem
  · rw [List.mem_singleton.mp hmem]
    exact hx

/-- What a full save that is sent expects is true. -/
theorem fullPut_holds {table : Table} {overwrite : Bool} {world : World} {put : Put}
    (hsync : Sync table world)
    (hsafe : (Operation.save overwrite).Safe table world.item)
    (hput : world.item.fullPut table overwrite = .ok (some put)) :
    (Expected.mk put.expects
      (((table.keyOf put.attributes).map world.store).getD .empty)).holds = true := by
  obtain ⟨hfull, hexpects⟩ := Item.fullPut_eq_some hput
  cases overwrite with
  | true =>
      rw [if_pos rfl] at hexpects
      rw [hexpects]
      rfl
  | false =>
      rw [if_neg Bool.false_ne_true] at hexpects
      obtain ⟨hneeds, hexpects⟩ := hexpects
      obtain ⟨hstored, hforms, hkeeps⟩ := hsafe hneeds
      rcases hsync with hnew | ⟨key, orig, hkey, horig, hsame⟩
      · exact hnew.expected_holds hexpects _
      · rw [Item.keyOf_prepareFull hfull, hkeeps.currentKey_eq hkey]
        exact expected_holds_of_same horig hsame hforms
          (fun field old _ hold => hstored field old hold) hexpects

/-- What a partial save that is sent expects is true. -/
theorem partialUpdate_holds {table : Table} {world : World} {update : Update}
    (hsync : Sync table world) (hsafe : Operation.partialSave.Safe table world.item)
    (hupdate : world.item.partialUpdate table = .ok (some update)) :
    (Expected.mk update.expects
      (((update.key.mapM Wire.toKey).map world.store).getD .empty)).holds = true := by
  have hneeds := @Item.needsSave_of_partialUpdate table world.item (by simp [hupdate])
  obtain ⟨hstored, hforms, hkeeps⟩ := hsafe hneeds
  obtain ⟨finalData, hfinal, -, hactions, hexpects, hraw⟩ :=
    Item.partialUpdate_eq_some hupdate
  rcases hsync with hnew | ⟨key, orig, hkey, horig, hsame⟩
  · exact hnew.expected_holds hexpects _
  · have hcurrent : update.key.mapM Wire.toKey = some key := by
      rw [← hkeeps.currentKey_eq hkey, Item.currentKey, hraw]
    rw [hcurrent]
    refine expected_holds_of_same horig hsame hforms ?_ hexpects
    intro field old hfield hold
    rw [hactions, Dict.get?_filterMap, Dict.get?_filterMap] at hfield
    have hact := Item.preparePartial_get? hfinal field
    cases hget : finalData.get? field with
    | none => simp [hget] at hfield
    | some action =>
        by_cases hmem : field ∈ table.keyFields
        · simp [hget, hmem] at hfield
        · refine hstored field old hmem ?_ hold
          intro hnone
          rw [hnone, hget] at hact
          cases hact

/-- Values that equal the original ones are stored as they are now. -/
theorem InSync.holdsUnsent {table : Table} {item : Item} {store : Store}
    {key : List KeyValue} {orig : Attributes}
    (horig : item.original.prepareFull table = .ok orig)
    (hsame : (store key).Same orig) (hforms : item.KeepsForms table) :
    HoldsUnsent table item (store key) := by
  intro field _ hunsent
  have hform := Item.prepareFull_get? horig field
  rw [show item.original.data.get? field = item.origData.get? field from rfl] at hform
  rw [hsame]
  rcases alteration_eq_none hunsent with
    ⟨hnone, hnot⟩ | ⟨old, value, hold, hvalue, heq⟩
  · rw [hnone] at hform
    rw [hform]
    cases hvalue : item.data.get? field with
    | none => rfl
    | some value => simp [Item.storedForm, hnot value hvalue]
  · rw [hold] at hform
    rw [hvalue]
    exact (hforms field old value hold hvalue heq).trans hform

/-- An operation that is safe keeps the item in sync, and what it expects is true. -/
theorem step_keeps {table : Table} {world : World} {operation : Operation}
    (hsync : Sync table world) (hholds : RequestsHold world)
    (hsafe : operation.Safe table world.item) :
    Sync table (world.step table operation) ∧
      RequestsHold (world.step table operation) := by
  cases operation with
  | setItem key value => exact ⟨hsync, hholds⟩
  | delItem key => exact ⟨hsync, hholds⟩
  | save overwrite =>
      have hmeets := save_meets table overwrite world
      rw [World.step]
      cases hrun : (World.save table overwrite).run world with
      | ok saved world' =>
          rw [hrun] at hmeets
          rcases hmeets with rfl | ⟨put, key, hput, hkey, rfl⟩
          · exact ⟨hsync, hholds⟩
          · have hexpected := fullPut_holds hsync hsafe hput
            rw [hkey] at hexpected
            obtain ⟨hfull, -⟩ := Item.fullPut_eq_some hput
            refine ⟨Or.inr ⟨key, put.attributes, ?_, hfull, ?_⟩,
              forall_mem_append_singleton hholds hexpected⟩
            · rw [← hkey, Item.keyOf_prepareFull hfull]
              rfl
            · intro field
              simp [Store.replace]
      | error e world' =>
          rw [hrun] at hmeets
          obtain ⟨hitem, hstore, hrequests⟩ := hmeets
          rw [Result.state_error, Sync, hitem, hstore]
          refine ⟨hsync, ?_⟩
          rcases hrequests with hrequests | ⟨put, hput, hrequests⟩
          · rw [RequestsHold, hrequests]
            exact hholds
          · rw [RequestsHold, hrequests]
            exact forall_mem_append_singleton hholds
              (fullPut_holds hsync hsafe hput)
  | partialSave =>
      have hmeets := partialSave_meets table world
      rw [World.step]
      cases hrun : (World.partialSave table).run world with
      | ok saved world' =>
          rw [hrun] at hmeets
          rcases hmeets with ⟨-, rfl, -⟩ | ⟨-, update, key, hupdate, hkey, -, rfl⟩
          · exact ⟨hsync, hholds⟩
          · have hexpected := partialUpdate_holds hsync hsafe hupdate
            rw [hkey] at hexpected
            obtain ⟨-, -, -, -, -, hraw⟩ := Item.partialUpdate_eq_some hupdate
            have hneeds :=
              @Item.needsSave_of_partialUpdate table world.item (by simp [hupdate])
            obtain ⟨-, hforms, hkeeps⟩ := hsafe hneeds
            have hcurrent : world.item.currentKey table = some key := by
              rw [Item.currentKey, hraw]
              exact hkey
            have hunsent : HoldsUnsent table world.item (world.store key) := by
              rcases hsync with hnew | ⟨key', orig, hkey', horig, hsame⟩
              · exact hnew.holdsUnsent key
              · have hkeys := hkeeps.currentKey_eq hkey'
                rw [hcurrent, Option.some.injEq] at hkeys
                subst hkeys
                exact InSync.holdsUnsent horig hsame hforms
            obtain ⟨full, hfull⟩ :=
              Item.prepareFull_ok_of_holdsUnsent hupdate hkey hunsent
            refine ⟨Or.inr ⟨key, full, hcurrent, hfull, ?_⟩,
              forall_mem_append_singleton hholds hexpected⟩
            simp only [Result.state_ok, Store.replace, if_true]
            exact (Item.updated_same_iff hupdate hkey hfull).mpr hunsent
      | error e world' =>
          rw [hrun] at hmeets
          obtain ⟨hitem, hstore, -, hrequests⟩ := hmeets
          rw [Result.state_error, Sync, hitem, hstore]
          refine ⟨hsync, ?_⟩
          rcases hrequests with hrequests | ⟨update, hupdate, hrequests⟩
          · rw [RequestsHold, hrequests]
            exact hholds
          · rw [RequestsHold, hrequests]
            exact forall_mem_append_singleton hholds
              (partialUpdate_holds hsync hsafe hupdate)

/-! ## Whole runs -/

theorem steps_keep {table : Table} (operations : List Operation) {world : World}
    (hsync : Sync table world) (hholds : RequestsHold world)
    (hsafe : SafeRun table world operations) :
    Sync table (world.steps table operations) ∧
      RequestsHold (world.steps table operations) := by
  induction operations generalizing world with
  | nil => exact ⟨hsync, hholds⟩
  | cons operation operations ih =>
      obtain ⟨hfirst, hrest⟩ := hsafe
      obtain ⟨hsync, hholds⟩ := step_keeps hsync hholds hfirst
      exact ih hsync hholds hrest

end Boto.DynamoDB2
