import Boto.DynamoDB2.Fields
import Boto.Support.ListResults
import Mathlib.Tactic.Common

/-!
# Whether introspection undoes definition

The parts of an index are read without the attribute definitions, so all of them are read
as strings, and the throughput of a global index is not read at all.  A table definition is
read back just if it has nothing else there.
-/

namespace Boto.DynamoDB2.Table

variable {schema : List SchemaField} {indexes : List IndexField}
  {globalIndexes : List GlobalIndexField} {attributes : OrderedDict Text Text}
  {attrDefs : List RawAttribute} {name : Text}

/-- Reading the description of a table gives fields and indexes that are described alike. -/
def Undone (schema : List SchemaField) (indexes : List IndexField)
    (globalIndexes : List GlobalIndexField) : Prop :=
  ∃ schema' indexes' globalIndexes',
    introspectSchema (schema.map SchemaField.schema)
        (some (attributeDefinitions schema indexes globalIndexes)) = .ok schema' ∧
      introspectIndexes (indexes.map IndexField.schema) = .ok indexes' ∧
      introspectGlobalIndexes (globalIndexes.map GlobalIndexField.schema) = .ok globalIndexes' ∧
      (schema'.map SchemaField.schema = schema.map SchemaField.schema ∧
        schema'.map SchemaField.definition = schema.map SchemaField.definition) ∧
      (indexes'.map IndexField.schema = indexes.map IndexField.schema ∧
        indexes'.map IndexField.definition = indexes.map IndexField.definition) ∧
      globalIndexes'.map GlobalIndexField.schema = globalIndexes.map GlobalIndexField.schema ∧
        (globalIndexes'.map fun index => index.definition) =
          (globalIndexes.map fun index => index.definition) ∧
        globalIndexes'.map GlobalIndexField.throughput =
          globalIndexes.map GlobalIndexField.throughput

/-- All parts of an index are strings. -/
def IndexField.HasStrings (index : IndexField) : Prop :=
  ∀ part ∈ index.parts, part.dataType = string

/-! ## Fields -/

/-- A field as it is read. -/
def readField (attributes : OrderedDict Text Text) (field : SchemaField) : SchemaField :=
  { field with dataType := (attributes.get? field.name).getD string }

theorem introspectField_schema (field : SchemaField) :
    introspectField attributes field.schema = .ok (readField attributes field) := by
  obtain ⟨keyClass, name, dataType⟩ := field
  cases keyClass <;> rfl

theorem introspectSchema_schema (rawAttributes : Option (List RawAttribute))
    (schema : List SchemaField) :
    introspectSchema (schema.map SchemaField.schema) rawAttributes =
      .ok (schema.map (readField (saneAttributes rawAttributes))) := by
  rw [introspectSchema, List.mapM_map]
  exact ListResults.mapM_of_ok introspectField_schema schema

theorem map_readField_iff :
    ((schema.map (readField attributes)).map SchemaField.schema =
          schema.map SchemaField.schema ∧
        (schema.map (readField attributes)).map SchemaField.definition =
          schema.map SchemaField.definition) ↔
      ∀ field ∈ schema, (attributes.get? field.name).getD string = field.dataType := by
  rw [List.map_map, List.map_map]
  constructor
  · rintro ⟨-, hdefinition⟩ field hfield
    exact congrArg RawAttribute.attributeType (List.map_inj_left.mp hdefinition field hfield)
  · intro htypes
    refine ⟨List.map_inj_left.mpr fun field _ => rfl,
      List.map_inj_left.mpr fun field hfield => ?_⟩
    simp [readField, SchemaField.definition, htypes field hfield]

/-! ## Attribute definitions -/

theorem get?_foldl_set (attrDefs : List RawAttribute) (name : Text)
    (attributes : OrderedDict Text Text) :
    (attrDefs.foldl (fun attributes field =>
        attributes.set field.attributeName field.attributeType) attributes).get? name =
      ((attrDefs.reverse.find? (·.attributeName = name)).map RawAttribute.attributeType).or
        (attributes.get? name) := by
  induction attrDefs generalizing attributes with
  | nil => rfl
  | cons field attrDefs ih =>
      rw [List.foldl_cons, ih, OrderedDict.get?_set, List.reverse_cons, List.find?_append]
      cases attrDefs.reverse.find? (·.attributeName = name) with
      | some found => rfl
      | none =>
          by_cases hname : field.attributeName = name
          · simp [hname]
          · simp [hname, Ne.symm hname]

/-- The attributes that only indexes have come after those of the schema. -/
theorem attributeDefinitions_split (schema : List SchemaField) (indexes : List IndexField)
    (globalIndexes : List GlobalIndexField) :
    ∃ extra, attributeDefinitions schema indexes globalIndexes =
        schema.map SchemaField.definition ++ extra ∧
      ∀ field ∈ schema, ∀ attr ∈ extra, attr.attributeName ≠ field.name := by
  have hparts : ∀ (parts : List SchemaField) (attrDefs : List RawAttribute),
      ∃ extra, addParts attrDefs parts = attrDefs ++ extra ∧
        ∀ attr ∈ extra, attr.attributeName ∉ attrDefs.map RawAttribute.attributeName := by
    intro parts
    induction parts with
    | nil => exact fun attrDefs => ⟨[], (List.append_nil _).symm, by simp⟩
    | cons part parts ih =>
        intro attrDefs
        rw [addParts, List.foldl_cons]
        split
        · exact ih attrDefs
        · rename_i hnew
          obtain ⟨extra, hextra, hfresh⟩ := ih (attrDefs ++ [part.definition])
          refine ⟨part.definition :: extra, ?_, List.forall_mem_cons.mpr ⟨hnew, ?_⟩⟩
          · rw [addParts] at hextra
            rw [hextra, List.append_assoc]
            rfl
          · intro attr hattr hold
            exact hfresh attr hattr (by simp [hold])
  have hindexes : ∀ (indexes : List IndexField) (attrDefs : List RawAttribute),
      ∃ extra, indexes.foldl (fun attrDefs index => addParts attrDefs index.parts) attrDefs =
          attrDefs ++ extra ∧
        ∀ attr ∈ extra, attr.attributeName ∉ attrDefs.map RawAttribute.attributeName := by
    intro indexes
    induction indexes with
    | nil => exact fun attrDefs => ⟨[], (List.append_nil _).symm, by simp⟩
    | cons index indexes ih =>
        intro attrDefs
        obtain ⟨first, hfirst, hfreshFirst⟩ := hparts index.parts attrDefs
        obtain ⟨rest, hrest, hfreshRest⟩ := ih (attrDefs ++ first)
        refine ⟨first ++ rest, ?_, fun attr hattr => ?_⟩
        · rw [List.foldl_cons, hfirst, hrest, List.append_assoc]
        · rcases List.mem_append.mp hattr with hmem | hmem
          · exact hfreshFirst attr hmem
          · exact fun hold => hfreshRest attr hmem (by simp [hold])
  obtain ⟨extra, hextra, hfresh⟩ := hindexes (indexes ++ globalIndexes.map (·.toIndexField))
    (schema.map SchemaField.definition)
  refine ⟨extra, hextra, fun field hfield attr hattr heq => ?_⟩
  refine hfresh attr hattr ?_
  rw [heq]
  exact List.mem_map.mpr ⟨field.definition, List.mem_map_of_mem hfield, rfl⟩

/-- The fields of the schema are read back if no two of them give one name two types. -/
theorem schema_types_iff :
    (∀ field ∈ schema,
      ((saneAttributes (some (attributeDefinitions schema indexes globalIndexes))).get?
        field.name).getD string = field.dataType) ↔
      ∀ field ∈ schema, ∀ other ∈ schema, field.name = other.name →
        field.dataType = other.dataType := by
  obtain ⟨extra, hsplit, hfresh⟩ := attributeDefinitions_split schema indexes globalIndexes
  have hlast : ∀ field ∈ schema, ∃ last ∈ schema, last.name = field.name ∧
      (saneAttributes (some (attributeDefinitions schema indexes globalIndexes))).get?
        field.name = some last.dataType ∧
      ∀ other ∈ schema, other.name = field.name →
        (saneAttributes (some (attributeDefinitions schema indexes globalIndexes))).get?
          other.name = some last.dataType := by
    intro field hfield
    have hextra : extra.reverse.find? (·.attributeName = field.name) = none := by
      rw [List.find?_eq_none]
      intro attr hattr
      simpa using hfresh field hfield attr (List.mem_reverse.mp hattr)
    have hfound : (schema.map SchemaField.definition).reverse.find?
        (·.attributeName = field.name) ≠ none := by
      intro hnone
      have hnot := List.find?_eq_none.mp hnone field.definition
        (List.mem_reverse.mpr (List.mem_map_of_mem hfield))
      simp [SchemaField.definition] at hnot
    obtain ⟨attr, hattr⟩ := Option.ne_none_iff_exists'.mp hfound
    obtain ⟨last, hmem, rfl⟩ :=
      List.mem_map.mp (List.mem_reverse.mp (List.mem_of_find?_eq_some hattr))
    have hfind := List.find?_some hattr
    have hname : last.name = field.name := of_decide_eq_true hfind
    have hget : (saneAttributes
        (some (attributeDefinitions schema indexes globalIndexes))).get? field.name =
          some last.dataType := by
      rw [saneAttributes, Option.getD_some, hsplit, get?_foldl_set, List.reverse_append,
        List.find?_append, hextra, Option.none_or, hattr]
      rfl
    exact ⟨last, hmem, hname, hget, fun other _ heq => heq ▸ hget⟩
  constructor
  · intro htypes field hfield other hother hname
    obtain ⟨last, -, -, hget, hsame⟩ := hlast field hfield
    have hother' := htypes other hother
    rw [hsame other hother hname.symm, Option.getD_some] at hother'
    have hfield' := htypes field hfield
    rw [hget, Option.getD_some] at hfield'
    rw [← hfield', hother']
  · intro htypes field hfield
    obtain ⟨last, hmem, hname, hget, -⟩ := hlast field hfield
    rw [hget, Option.getD_some]
    exact htypes last hmem field hfield hname

/-! ## Indexes -/

/-- An index as it is read. -/
def readIndex (index : IndexField) : IndexField :=
  { index with parts := index.parts.map (readField OrderedDict.empty) }

theorem introspectIndex_schema (index : IndexField) (throughput : Option RawThroughput) :
    introspectIndex { index.schema with provisionedThroughput := throughput } =
      .ok (readIndex index) := by
  obtain ⟨indexClass, name, parts⟩ := index
  have hclass : introspectClass
      { projectionType := indexClass.projectionType
        nonKeyAttributes := indexClass.nonKeyAttributes } = .ok indexClass := by
    cases indexClass <;> rfl
  rw [introspectIndex]
  dsimp only [IndexField.schema]
  rw [hclass, introspectSchema_schema]
  rfl

theorem readIndex_schema (index : IndexField) : (readIndex index).schema = index.schema := by
  simp [readIndex, IndexField.schema, SchemaField.schema, readField]

theorem readIndex_definition_iff (index : IndexField) :
    (readIndex index).definition = index.definition ↔ IndexField.HasStrings index := by
  rw [IndexField.definition, IndexField.definition, readIndex, List.map_map, List.map_inj_left,
    IndexField.HasStrings]
  refine forall₂_congr fun part _ => ?_
  simp [SchemaField.definition, readField, eq_comm]

/-- Reading the description of a table undoes its definition just if no attribute of the
schema has two types, all parts of indexes are strings and all global indexes have the
throughput of an index that is made without one. -/
theorem undone_iff (schema : List SchemaField) (indexes : List IndexField)
    (globalIndexes : List GlobalIndexField) :
    Undone schema indexes globalIndexes ↔
      (∀ field ∈ schema, ∀ other ∈ schema, field.name = other.name →
          field.dataType = other.dataType) ∧
        (∀ index ∈ indexes, IndexField.HasStrings index) ∧
        ∀ index ∈ globalIndexes, IndexField.HasStrings index.toIndexField ∧
          index.throughput = defaultThroughput := by
  have hindexes : introspectIndexes (indexes.map IndexField.schema) =
      .ok (indexes.map readIndex) := by
    rw [introspectIndexes, List.mapM_map]
    exact ListResults.mapM_of_ok (fun index => introspectIndex_schema index none) indexes
  have hglobal : introspectGlobalIndexes (globalIndexes.map GlobalIndexField.schema) =
      .ok (globalIndexes.map fun index =>
        ({ readIndex index.toIndexField with } : GlobalIndexField)) := by
    rw [introspectGlobalIndexes, List.mapM_map]
    refine ListResults.mapM_of_ok (fun index => ?_) globalIndexes
    rw [Function.comp_apply, GlobalIndexField.schema, introspectIndex_schema]
    rfl
  have hlocal : ((indexes.map readIndex).map IndexField.schema = indexes.map IndexField.schema ∧
      (indexes.map readIndex).map IndexField.definition = indexes.map IndexField.definition) ↔
      ∀ index ∈ indexes, IndexField.HasStrings index := by
    simp only [List.map_map, List.map_inj_left, Function.comp_apply, readIndex_schema,
      readIndex_definition_iff, implies_true, true_and]
  have hglobals : ((globalIndexes.map fun index =>
          ({ readIndex index.toIndexField with } : GlobalIndexField)).map
            GlobalIndexField.schema = globalIndexes.map GlobalIndexField.schema ∧
        ((globalIndexes.map fun index =>
          ({ readIndex index.toIndexField with } : GlobalIndexField)).map
            fun index => index.definition) = (globalIndexes.map fun index => index.definition) ∧
        (globalIndexes.map fun index =>
          ({ readIndex index.toIndexField with } : GlobalIndexField)).map
            GlobalIndexField.throughput = globalIndexes.map GlobalIndexField.throughput) ↔
      ∀ index ∈ globalIndexes, IndexField.HasStrings index.toIndexField ∧
        index.throughput = defaultThroughput := by
    simp only [List.map_map, List.map_inj_left, Function.comp_apply, readIndex_definition_iff]
    constructor
    · rintro ⟨-, hdefinition, hthroughput⟩ index hindex
      exact ⟨hdefinition index hindex, (hthroughput index hindex).symm⟩
    · intro hall
      refine ⟨fun index hindex => ?_, fun index hindex => (hall index hindex).1,
        fun index hindex => (hall index hindex).2.symm⟩
      have hschema := readIndex_schema index.toIndexField
      rw [GlobalIndexField.schema, GlobalIndexField.schema, hschema, (hall index hindex).2]
  rw [Undone, introspectSchema_schema, hindexes, hglobal]
  constructor
  · rintro ⟨_, _, _, ⟨⟩, ⟨⟩, ⟨⟩, hschema, hindex, hthroughput⟩
    exact ⟨schema_types_iff.mp (map_readField_iff.mp hschema), hlocal.mp hindex,
      hglobals.mp hthroughput⟩
  · rintro ⟨hschema, hindex, hthroughput⟩
    exact ⟨_, _, _, rfl, rfl, rfl, map_readField_iff.mpr (schema_types_iff.mpr hschema),
      hlocal.mpr hindex, hglobals.mpr hthroughput⟩

/-- A local index on a number. -/
def datesIndex : IndexField where
  indexClass := .all
  name := "dates".toList
  parts := [⟨.hashKey, "id".toList, string⟩, ⟨.rangeKey, "date".toList, "N".toList⟩]

/-- The number is read back as a string. -/
theorem datesIndex_not_undone :
    ¬Undone [⟨.hashKey, "id".toList, string⟩] [datesIndex] [] := by
  rintro ⟨schema', indexes', globalIndexes', -, hindexes, -, -, ⟨-, hdefinition⟩, -⟩
  have hread : introspectIndexes ([datesIndex].map IndexField.schema) =
      .ok [{ datesIndex with
        parts :=
          [⟨.hashKey, "id".toList, string⟩, ⟨.rangeKey, "date".toList, string⟩] }] := by
    decide
  rw [hread] at hindexes
  cases hindexes
  revert hdefinition
  decide

end Boto.DynamoDB2.Table
