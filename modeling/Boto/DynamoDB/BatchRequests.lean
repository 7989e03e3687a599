import Boto.DynamoDB.Layer2
import Boto.Support.ListResults

/-!
# What a batch request contains

A request keeps what was added for a table as long as no other batch for the table takes
its place.  A resubmission is rebuilt from the response, without the consistent reads of
the requests that it repeats.
-/

namespace Boto.DynamoDB

open ListResults

variable {Value Payload : Type} {layer2 : Layer2 Value Payload}

/-! ## Writing -/

/-- The operations of a batch, if they can be encoded. -/
def BatchWrite.ops (layer2 : Layer2 Value Payload) (batch : BatchWrite Value) :
    List (WriteOp Payload) :=
  match batch.toDict layer2 with
  | .ok (_, ops) => ops
  | .error _ => []

/-- What was added for a table. -/
def addedOps (layer2 : Layer2 Value Payload) (name : Text) (list : List (BatchWrite Value)) :
    List (WriteOp Payload) :=
  list.flatMap fun batch => if batch.table.name = name then batch.ops layer2 else []

/-- Every table has all of its puts and deletes, and nothing else. -/
def KeepsOps (layer2 : Layer2 Value Payload) (list : List (BatchWrite Value))
    (request : OrderedDict Text (List (WriteOp Payload))) : Prop :=
  ∀ name, ((request.get? name).getD []).Perm (addedOps layer2 name list)

theorem BatchWrite.toDict_ok {batch : BatchWrite Value} {entry : Text × List (WriteOp Payload)}
    (hdict : batch.toDict layer2 = .ok entry) :
    entry.1 = batch.table.name ∧ entry.2 = batch.ops layer2 ∧
      (entry.2 = [] ↔ batch.puts = [] ∧ batch.deletes = []) := by
  refine ⟨?_, by rw [ops, hdict], ?_⟩
  · obtain ⟨puts, -, hdict⟩ := except_bind_eq_ok.mp hdict
    obtain ⟨deletes, -, hdict⟩ := except_bind_eq_ok.mp hdict
    cases hdict
    rfl
  · obtain ⟨puts, hputs, hdict⟩ := except_bind_eq_ok.mp hdict
    obtain ⟨deletes, hdeletes, hdict⟩ := except_bind_eq_ok.mp hdict
    cases hdict
    rw [List.append_eq_nil_iff, List.map_eq_nil_iff, List.map_eq_nil_iff,
      ← List.length_eq_zero_iff, ← (forall₂_of_mapM hputs).length_eq,
      ← List.length_eq_zero_iff, ← (forall₂_of_mapM hdeletes).length_eq,
      List.length_eq_zero_iff, List.length_eq_zero_iff]

theorem collected_eq_addedOps {list : List (BatchWrite Value)}
    {entries : List (Text × List (WriteOp Payload))}
    (hrel : List.Forall₂ (fun batch entry => batch.toDict layer2 = .ok entry) list entries)
    (name : Text) : OrderedDict.collected id name entries = addedOps layer2 name list := by
  induction hrel with
  | nil => rfl
  | @cons batch entry list entries hdict hrest ih =>
      obtain ⟨hname, hops, -⟩ := BatchWrite.toDict_ok hdict
      have hadded : addedOps layer2 name (batch :: list) =
          (if batch.table.name = name then batch.ops layer2 else []) ++
            addedOps layer2 name list :=
        List.flatMap_cons
      rw [OrderedDict.collected, ih, hadded, hname, ← hops]
      split
      · rfl
      · exact (List.nil_append _).symm

/-- A write request keeps everything exactly if only the last batch of a table has
anything. -/
theorem keepsOps_iff {list : List (BatchWrite Value)}
    {request : OrderedDict Text (List (WriteOp Payload))}
    (hdict : BatchWriteList.toDict layer2 list = .ok request) :
    KeepsOps layer2 list request ↔ list.Pairwise fun batch later =>
      batch.table.name = later.table.name → batch.puts = [] ∧ batch.deletes = [] := by
  obtain ⟨entries, hentries, hdict⟩ := except_bind_eq_ok.mp hdict
  cases hdict
  have hrel := forall₂_of_mapM hentries
  rw [KeepsOps]
  simp only [← collected_eq_addedOps hrel]
  have hkept := @OrderedDict.kept_iff_nothingReplaced _ _ _ _ entries id
  simp only [Option.map_id, id] at hkept
  rw [hkept, OrderedDict.NothingReplaced]
  refine (pairwise_iff_of_forall₂ (fun batch later entry next hbatch hlater => ?_) hrel).symm
  obtain ⟨hname, -, hempty⟩ := BatchWrite.toDict_ok hbatch
  rw [hname, (BatchWrite.toDict_ok hlater).1, ← hempty]
  rfl

/-! ## Reading -/

/-- The keys of a batch as they are sent, if they can be encoded. -/
def Batch.built (layer2 : Layer2 Value Payload) (batch : Batch Value) :
    List (DynamoDBKey Payload) :=
  match batch.toDict layer2 with
  | .ok dict => dict.keys
  | .error _ => []

/-- The keys that were added for a table. -/
def addedKeys (layer2 : Layer2 Value Payload) (name : Text) (batches : List (Batch Value)) :
    List (DynamoDBKey Payload) :=
  batches.flatMap fun batch => if batch.table.name = name then batch.built layer2 else []

/-- Every table has all of its keys, and nothing else. -/
def KeepsKeys (layer2 : Layer2 Value Payload) (list : BatchList Value)
    (request : OrderedDict Text (BatchDict Payload)) : Prop :=
  ∀ name, (((request.get? name).map BatchDict.keys).getD []).Perm
    (addedKeys layer2 name list.batches)

/-- The batch and its entry of the request. -/
def IsEntry (layer2 : Layer2 Value Payload) (batch : Batch Value)
    (entry : Text × BatchDict Payload) : Prop :=
  entry.1 = batch.table.name ∧ batch.toDict layer2 = .ok entry.2

theorem BatchList.toDict_ok {list : BatchList Value}
    {request : OrderedDict Text (BatchDict Payload)} (hdict : list.toDict layer2 = .ok request) :
    ∃ entries, List.Forall₂ (IsEntry layer2) list.batches entries ∧
      request = .ofEntries (entries.filter fun entry => !entry.2.keys.isEmpty) := by
  obtain ⟨entries, hentries, hdict⟩ := except_bind_eq_ok.mp hdict
  cases hdict
  refine ⟨entries, (forall₂_of_mapM hentries).imp fun batch entry hentry => ?_, rfl⟩
  obtain ⟨dict, hdict, hentry⟩ := except_bind_eq_ok.mp hentry
  cases hentry
  exact ⟨rfl, hdict⟩

theorem IsEntry.keys_eq_nil_iff {batch : Batch Value} {entry : Text × BatchDict Payload}
    (hentry : IsEntry layer2 batch entry) : entry.2.keys = [] ↔ batch.keys = [] := by
  obtain ⟨keys, hkeys, hdict⟩ := except_bind_eq_ok.mp hentry.2
  rw [← Except.ok.inj hdict, ← List.length_eq_zero_iff, ← (forall₂_of_mapM hkeys).length_eq,
    List.length_eq_zero_iff]

/-- Entries without keys are not missed. -/
theorem collected_filter_keys (name : Text) (entries : List (Text × BatchDict Payload)) :
    OrderedDict.collected BatchDict.keys name
        (entries.filter fun entry => !entry.2.keys.isEmpty) =
      OrderedDict.collected BatchDict.keys name entries := by
  induction entries with
  | nil => rfl
  | cons entry entries ih =>
      cases hkeys : entry.2.keys with
      | nil =>
          rw [List.filter_cons_of_neg (by simp [hkeys]), ih, OrderedDict.collected, hkeys,
            List.nil_append, ite_self]
      | cons key keys =>
          rw [List.filter_cons_of_pos (by simp [hkeys]), OrderedDict.collected,
            OrderedDict.collected, ih]

theorem collected_eq_addedKeys {batches : List (Batch Value)}
    {entries : List (Text × BatchDict Payload)}
    (hrel : List.Forall₂ (IsEntry layer2) batches entries) (name : Text) :
    OrderedDict.collected BatchDict.keys name entries = addedKeys layer2 name batches := by
  induction hrel with
  | nil => rfl
  | @cons batch entry batches entries hentry hrest ih =>
      have hadded : addedKeys layer2 name (batch :: batches) =
          (if batch.table.name = name then batch.built layer2 else []) ++
            addedKeys layer2 name batches :=
        List.flatMap_cons
      rw [OrderedDict.collected, ih, hadded, hentry.1, Batch.built, hentry.2]
      split
      · rfl
      · exact (List.nil_append _).symm

/-- A read request keeps everything exactly if no table has keys in two batches. -/
theorem keepsKeys_iff {list : BatchList Value}
    {request : OrderedDict Text (BatchDict Payload)} (hdict : list.toDict layer2 = .ok request) :
    KeepsKeys layer2 list request ↔ list.batches.Pairwise fun batch later =>
      batch.table.name = later.table.name → batch.keys = [] ∨ later.keys = [] := by
  obtain ⟨entries, hrel, rfl⟩ := BatchList.toDict_ok hdict
  rw [KeepsKeys]
  simp only [← collected_eq_addedKeys hrel, ← collected_filter_keys _ entries]
  rw [OrderedDict.kept_iff_nothingReplaced, OrderedDict.NothingReplaced, List.pairwise_filter]
  refine (pairwise_iff_of_forall₂ (fun batch later entry next hbatch hlater => ?_) hrel).symm
  rw [hbatch.1, hlater.1, ← hbatch.keys_eq_nil_iff, ← hlater.keys_eq_nil_iff]
  simp only [Bool.not_eq_true', List.isEmpty_eq_false_iff]
  constructor
  · intro hkept hbatchKeys hlaterKeys hname
    exact (hkept hname).resolve_right hlaterKeys
  · intro hkept hname
    by_contra hboth
    rw [not_or] at hboth
    exact hboth.1 (hkept hboth.1 hboth.2 hname)

/-! ## Resubmitting -/

/-- The tables of a response that have unprocessed keys. -/
def Response.unprocessedTables (response : Response Value) :
    List (Text × TableRequest Value) :=
  match response.unprocessedKeys with
  | none => []
  | some tables => tables.items.filter fun table => !table.2.keys.isEmpty

/-- The unprocessed keys of a table as they are sent. -/
def encodedKeys (layer2 : Layer2 Value Payload) (table : Text × TableRequest Value) :
    Except PyError (List (DynamoDBKey Payload)) :=
  table.2.keys.mapM fun key =>
    layer2.buildKeyFromValues (layer2.getTable table.1).schema key.1 key.2

/-- A request for exactly the unprocessed keys, with the options that are repeated with
them. -/
def Asks (layer2 : Layer2 Value Payload) (tables : List (Text × TableRequest Value))
    (request : OrderedDict Text (BatchDict Payload)) : Prop :=
  (∀ name, name ∈ request.keys ↔ name ∈ tables.map Prod.fst) ∧
    ∀ table ∈ tables, ∃ dict keys, request.get? table.1 = some dict ∧
      encodedKeys layer2 table = .ok keys ∧ dict.keys.Perm keys ∧
      dict.attributesToGet.getD [] = table.2.attributesToGet.getD [] ∧
      dict.consistentRead = table.2.consistentRead.getD false

/-- What should follow a response: nothing if nothing is unprocessed, and else a request
for what is. -/
def Resubmits (layer2 : Layer2 Value Payload)
    (service : OrderedDict Text (BatchDict Payload) → Response Value) (list : BatchList Value)
    (response : Response Value) : Prop :=
  ∃ submission, (list.receive response).resubmit layer2 service = .ok submission ∧
    if response.unprocessedTables = [] then
      submission.sent = none ∧ submission.returned.isNone
    else ∃ request, submission.sent = some request ∧
      Asks layer2 response.unprocessedTables request

/-- A response replaces what was unprocessed before, has keys for some table if it has
tables, and is about reads that need not be consistent, of keys that can be sent. -/
def Resubmittable (layer2 : Layer2 Value Payload) (list : BatchList Value)
    (response : Response Value) : Prop :=
  match response.unprocessedKeys with
  | none => ∀ unprocessed, list.unprocessed = some unprocessed → unprocessed.items = []
  | some tables =>
      (tables.items = [] ∨ response.unprocessedTables ≠ []) ∧
        ∀ table ∈ response.unprocessedTables,
          table.2.consistentRead ≠ some true ∧ ∃ keys, encodedKeys layer2 table = .ok keys

/-- The entry of a request for the unprocessed keys of a table. -/
def rebuiltEntry (table : Text × TableRequest Value) (keys : List (DynamoDBKey Payload)) :
    Text × BatchDict Payload :=
  (table.1, ⟨keys, table.2.attributesToGet.filter fun names => !names.isEmpty, false⟩)

theorem isEntry_rebuiltBatch_iff {table : Text × TableRequest Value}
    {entry : Text × BatchDict Payload} :
    IsEntry layer2 (BatchList.rebuiltBatch layer2 table) entry ↔
      ∃ keys, encodedKeys layer2 table = .ok keys ∧ entry = rebuiltEntry table keys := by
  have hkeys : (BatchList.rebuiltBatch layer2 table).keys.mapM (BatchKey.build layer2
      (BatchList.rebuiltBatch layer2 table).table.schema) = encodedKeys layer2 table :=
    List.mapM_map
  constructor
  · rintro ⟨hname, hdict⟩
    obtain ⟨keys, hbuilt, hdict⟩ := except_bind_eq_ok.mp hdict
    refine ⟨keys, hkeys ▸ hbuilt, Prod.ext ?_ (Except.ok.inj hdict).symm⟩
    exact hname.trans (layer2.getTable_name table.1)
  · rintro ⟨keys, hbuilt, rfl⟩
    refine ⟨(layer2.getTable_name table.1).symm, except_bind_eq_ok.mpr ⟨keys, ?_, rfl⟩⟩
    rw [hkeys, hbuilt]

theorem exists_encodedKeys_of_keys_eq_nil {table : Text × TableRequest Value}
    (hkeys : table.2.keys = []) : ∃ keys, encodedKeys layer2 table = .ok keys := by
  rw [encodedKeys, hkeys]
  exact ⟨[], rfl⟩

variable {tables : OrderedDict Text (TableRequest Value)} {list : BatchList Value}

/-- The tables with keys. -/
def withKeys (tables : OrderedDict Text (TableRequest Value)) :
    List (Text × TableRequest Value) :=
  tables.items.filter fun table => !table.2.keys.isEmpty

theorem mem_withKeys_iff {table : Text × TableRequest Value} :
    table ∈ withKeys tables ↔ table ∈ tables.items ∧ table.2.keys ≠ [] := by
  simp [withKeys]

theorem toDict_rebuilt (hbatches : list.batches = BatchList.rebuilt layer2 tables)
    {request : OrderedDict Text (BatchDict Payload)} (hdict : list.toDict layer2 = .ok request) :
    ∃ entries : List (Text × BatchDict Payload),
      List.Forall₂ (fun table entry => ∃ keys, encodedKeys layer2 table = .ok keys ∧
        entry = rebuiltEntry table keys) tables.items entries ∧
      request.items = entries.filter fun entry => !entry.2.keys.isEmpty := by
  obtain ⟨entries, hrel, rfl⟩ := BatchList.toDict_ok hdict
  rw [hbatches, BatchList.rebuilt, List.forall₂_map_left_iff] at hrel
  simp only [isEntry_rebuiltBatch_iff] at hrel
  refine ⟨entries, hrel, ?_⟩
  have hnames : entries.map Prod.fst = tables.keys := by
    rw [OrderedDict.keys]
    generalize tables.items = items at hrel
    clear hdict hbatches
    induction hrel with
    | nil => rfl
    | cons hentry _ ih =>
        obtain ⟨keys, -, rfl⟩ := hentry
        rw [List.map_cons, List.map_cons, ih]
        rfl
  have hnodup : ((entries.filter fun entry => !entry.2.keys.isEmpty).map Prod.fst).Nodup :=
    (hnames ▸ tables.nodup : (entries.map Prod.fst).Nodup).sublist
      (List.filter_sublist.map _)
  exact OrderedDict.items_foldl_set hnodup

theorem toDict_of_encodedKeys (hbatches : list.batches = BatchList.rebuilt layer2 tables)
    (hencoded : ∀ table ∈ withKeys tables, ∃ keys, encodedKeys layer2 table = .ok keys) :
    ∃ request, list.toDict layer2 = .ok request := by
  have hentries : ∃ entries, list.batches.mapM (fun batch => do
      return (batch.table.name, ← batch.toDict layer2)) =
        (.ok entries : Except PyError (List (Text × BatchDict Payload))) := by
    rw [exists_mapM_iff, hbatches]
    intro batch hbatch
    obtain ⟨table, htable, rfl⟩ := List.mem_map.mp hbatch
    have hkeys : ∃ keys, encodedKeys layer2 table = .ok keys := by
      by_cases hempty : table.2.keys = []
      · exact exists_encodedKeys_of_keys_eq_nil hempty
      · exact hencoded table (mem_withKeys_iff.mpr ⟨htable, hempty⟩)
    obtain ⟨keys, hkeys⟩ := hkeys
    have hentry : IsEntry layer2 (BatchList.rebuiltBatch layer2 table) (rebuiltEntry table keys) :=
      isEntry_rebuiltBatch_iff.mpr ⟨keys, hkeys, rfl⟩
    exact ⟨_, except_bind_eq_ok.mpr ⟨_, hentry.2, rfl⟩⟩
  obtain ⟨entries, hentries⟩ := hentries
  exact ⟨_, except_bind_eq_ok.mpr ⟨entries, hentries, rfl⟩⟩

/-- The request for a rebuilt list asks for exactly the tables with keys, and for what is
not consistent. -/
theorem toDict_rebuilt_contents (hbatches : list.batches = BatchList.rebuilt layer2 tables)
    {request : OrderedDict Text (BatchDict Payload)} (hdict : list.toDict layer2 = .ok request) :
    (∀ name, name ∈ request.keys ↔ name ∈ (withKeys tables).map Prod.fst) ∧
      ∀ table ∈ withKeys tables, ∃ keys, encodedKeys layer2 table = .ok keys ∧
        request.get? table.1 = some (rebuiltEntry table keys).2 := by
  obtain ⟨entries, hrel, hitems⟩ := toDict_rebuilt hbatches hdict
  have hlength : ∀ table keys, encodedKeys layer2 table = .ok keys →
      (keys = [] ↔ table.2.keys = []) := by
    intro table keys hkeys
    rw [← List.length_eq_zero_iff, ← (forall₂_of_mapM hkeys).length_eq,
      List.length_eq_zero_iff]
  have hget : ∀ table ∈ withKeys tables, ∃ keys, encodedKeys layer2 table = .ok keys ∧
      rebuiltEntry table keys ∈ request.items := by
    intro table htable
    obtain ⟨htable, hne⟩ := mem_withKeys_iff.mp htable
    obtain ⟨entry, hentry, keys, hkeys, rfl⟩ := exists_related hrel htable
    refine ⟨keys, hkeys, ?_⟩
    rw [hitems, List.mem_filter, Bool.not_eq_true', List.isEmpty_eq_false_iff]
    exact ⟨hentry, fun hempty => hne ((hlength table keys hkeys).mp hempty)⟩
  refine ⟨fun name => ⟨fun hname => ?_, fun hname => ?_⟩, fun table htable => ?_⟩
  · obtain ⟨entry, hentry, rfl⟩ := List.mem_map.mp hname
    rw [hitems, List.mem_filter, Bool.not_eq_true', List.isEmpty_eq_false_iff] at hentry
    obtain ⟨table, htable, keys, hkeys, heq⟩ := exists_related hrel.flip hentry.1
    subst heq
    refine List.mem_map.mpr ⟨table, mem_withKeys_iff.mpr ⟨htable, fun hempty => ?_⟩, rfl⟩
    exact hentry.2 ((hlength table keys hkeys).mpr hempty)
  · obtain ⟨table, htable, rfl⟩ := List.mem_map.mp hname
    obtain ⟨keys, -, hentry⟩ := hget table htable
    exact List.mem_map.mpr ⟨_, hentry, rfl⟩
  · obtain ⟨keys, hkeys, hentry⟩ := hget table htable
    exact ⟨keys, hkeys, OrderedDict.get?_eq_some_iff.mpr hentry⟩

/-- What is asked again is right exactly if no table was read consistently. -/
theorem asks_iff (hbatches : list.batches = BatchList.rebuilt layer2 tables)
    {request : OrderedDict Text (BatchDict Payload)} (hdict : list.toDict layer2 = .ok request) :
    Asks layer2 (withKeys tables) request ↔
      ∀ table ∈ withKeys tables, table.2.consistentRead ≠ some true := by
  obtain ⟨hnames, hentries⟩ := toDict_rebuilt_contents hbatches hdict
  rw [Asks, and_iff_right hnames]
  refine forall₂_congr fun table htable => ?_
  obtain ⟨keys, hkeys, hget⟩ := hentries table htable
  constructor
  · rintro ⟨dict, -, hdict', -, -, -, hconsistent⟩ hread
    rw [hget, Option.some.injEq] at hdict'
    rw [← hdict', hread] at hconsistent
    cases hconsistent
  · intro hread
    refine ⟨_, keys, hget, hkeys, List.Perm.refl _, ?_, ?_⟩
    · change (table.2.attributesToGet.filter fun names => !names.isEmpty).getD [] = _
      cases table.2.attributesToGet with
      | none => rfl
      | some names => cases names <;> rfl
    · change false = _
      cases hflag : table.2.consistentRead with
      | none => rfl
      | some flag =>
          cases flag with
          | false => rfl
          | true => exact absurd hflag hread

variable {service : OrderedDict Text (BatchDict Payload) → Response Value}

/-- `submit` sends what it can build, unless that is empty. -/
theorem submit_eq {request : OrderedDict Text (BatchDict Payload)}
    (hdict : list.toDict layer2 = .ok request) :
    list.submit layer2 service = .ok (if request.items = [] then
        { sent := none, returned := some ⟨none⟩, list := list }
      else {
        sent := some request
        returned := some (service request)
        list := list.receive (service request) }) := by
  rw [BatchList.submit, hdict]
  by_cases hempty : request.items = []
  · rw [if_pos hempty]
    exact if_pos hempty
  · rw [if_neg hempty]
    exact if_neg hempty

theorem isNone_returned_of_submit {submission : BatchList.Submission Value Payload}
    (hsubmit : list.submit layer2 service = .ok submission) :
    submission.returned.isNone = false := by
  obtain ⟨request, hdict, -⟩ := except_bind_eq_ok.mp hsubmit
  rw [submit_eq hdict] at hsubmit
  cases hsubmit
  split <;> rfl

/-- Without anything unprocessed, nothing is sent and nothing returned. -/
theorem resubmit_eq_of_empty
    (hempty : ∀ unprocessed, list.unprocessed = some unprocessed → unprocessed.items = []) :
    list.resubmit layer2 service =
      .ok { sent := none, returned := none, list := { list with batches := [] } } := by
  rw [BatchList.resubmit]
  split
  · rfl
  · rename_i unprocessed hunprocessed
    exact if_pos (hempty unprocessed hunprocessed)

theorem resubmits_iff_of_tables {response : Response Value}
    (htables : response.unprocessedKeys = some tables) (hne : tables.items ≠ []) :
    Resubmits layer2 service list response ↔
      withKeys tables ≠ [] ∧ ∀ table ∈ withKeys tables,
        table.2.consistentRead ≠ some true ∧ ∃ keys, encodedKeys layer2 table = .ok keys := by
  have hunprocessed : response.unprocessedTables = withKeys tables := by
    rw [Response.unprocessedTables, htables]
    rfl
  have hreceive : list.receive response = { list with unprocessed := some tables } := by
    rw [BatchList.receive, htables]
  let rebuilt : BatchList Value :=
    { batches := BatchList.rebuilt layer2 tables, unprocessed := some tables }
  have hresubmit : (list.receive response).resubmit layer2 service =
      rebuilt.submit layer2 service := by
    rw [hreceive]
    exact if_neg hne
  have hbatches : rebuilt.batches = BatchList.rebuilt layer2 tables := rfl
  rw [Resubmits, hunprocessed, hresubmit]
  constructor
  · rintro ⟨submission, hsubmit, hsent⟩
    obtain ⟨request, hdict, -⟩ := except_bind_eq_ok.mp hsubmit
    rw [submit_eq hdict] at hsubmit
    cases hsubmit
    have hkeys : withKeys tables ≠ [] := by
      intro hempty
      rw [if_pos hempty] at hsent
      have hreturned := isNone_returned_of_submit (@submit_eq _ _ _ _ service _ hdict)
      exact absurd hsent.2 (by simp [hreturned])
    rw [if_neg hkeys] at hsent
    obtain ⟨sent, hsent, hasks⟩ := hsent
    split at hsent
    · cases hsent
    · cases hsent
      refine ⟨hkeys, fun table htable => ⟨(asks_iff hbatches hdict).mp hasks table htable, ?_⟩⟩
      obtain ⟨keys, hkeys, -⟩ := (toDict_rebuilt_contents hbatches hdict).2 table htable
      exact ⟨keys, hkeys⟩
  · rintro ⟨hkeys, hall⟩
    obtain ⟨request, hdict⟩ := toDict_of_encodedKeys hbatches fun table htable =>
      (hall table htable).2
    have hasks := (asks_iff hbatches hdict).mpr fun table htable => (hall table htable).1
    have hitems : request.items ≠ [] := by
      obtain ⟨table, htable⟩ := List.exists_mem_of_ne_nil _ hkeys
      obtain ⟨keys, -, hget⟩ := (toDict_rebuilt_contents hbatches hdict).2 table htable
      exact List.ne_nil_of_mem (OrderedDict.get?_eq_some_iff.mp hget)
    refine ⟨_, submit_eq hdict, ?_⟩
    rw [if_neg hkeys, if_neg hitems]
    exact ⟨request, rfl, hasks⟩

/-- A resubmission is right exactly after the responses that can be resubmitted. -/
theorem resubmits_iff (response : Response Value) :
    Resubmits layer2 service list response ↔ Resubmittable layer2 list response := by
  rw [Resubmittable]
  split
  · rename_i hnone
    have hunprocessed : response.unprocessedTables = [] := by
      rw [Response.unprocessedTables, hnone]
    have hreceive : list.receive response = list := by
      rw [BatchList.receive, hnone]
    rw [Resubmits, hunprocessed, hreceive]
    constructor
    · rintro ⟨submission, hresubmit, hsent⟩ unprocessed hsome
      rw [if_pos rfl] at hsent
      obtain ⟨-, hreturned⟩ := hsent
      by_contra hne
      rw [BatchList.resubmit, hsome] at hresubmit
      dsimp only at hresubmit
      rw [if_neg hne] at hresubmit
      rw [isNone_returned_of_submit hresubmit] at hreturned
      cases hreturned
    · intro hempty
      refine ⟨_, resubmit_eq_of_empty hempty, ?_⟩
      rw [if_pos rfl]
      exact ⟨rfl, rfl⟩
  · rename_i tables htables
    have hunprocessed : response.unprocessedTables = withKeys tables := by
      rw [Response.unprocessedTables, htables]
      rfl
    rw [hunprocessed]
    by_cases hne : tables.items = []
    · have hkeys : withKeys tables = [] := by
        rw [withKeys, hne]
        rfl
      have hempty : ∀ unprocessed, (list.receive response).unprocessed = some unprocessed →
          unprocessed.items = [] := by
        intro unprocessed hsome
        rw [BatchList.receive, htables] at hsome
        cases hsome
        exact hne
      rw [hkeys]
      refine iff_of_true ⟨_, resubmit_eq_of_empty hempty, ?_⟩
        ⟨.inl hne, fun _ hin => nomatch hin⟩
      rw [hunprocessed, if_pos hkeys]
      exact ⟨rfl, rfl⟩
    · rw [resubmits_iff_of_tables htables hne, or_iff_right hne]

/-! ## All batches -/

/-- A service that processes everything. -/
def processAll : OrderedDict Text (BatchDict Text) → Response Text := fun _ => ⟨none⟩

/-- A response with one unprocessed key. -/
def unprocessedKey (consistentRead : Bool) : Response Text where
  unprocessedKeys := some (OrderedDict.ofEntries
    [(textTable.name, ⟨[("ann".toList, none)], none, some consistentRead⟩)])

end Boto.DynamoDB
