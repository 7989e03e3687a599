import Boto.S3.CorsRoundTrip
import Mathlib.Data.List.Induction

/-!
# Tags of buckets

`Tag`, `TagSet` and `Tags` of `boto/s3/tagging.py`: how tags are added, written as a document,
and read back.
-/

namespace Boto.S3

open Xml (Node)

/-- `Tag`, with `None` for what is not set. -/
structure Tag where
  key : Option Text
  value : Option Text
  deriving DecidableEq

namespace Tag

/-- `Tag()`. -/
def init : Tag := ⟨none, none⟩

/-- `endElement`. -/
def endElement (name value : Text) (self : Tag) : Tag :=
  if name = "Key".toList then { self with key := some value }
  else if name = "Value".toList then { self with value := some value }
  else self

/-- `'%s' % value`. -/
def percentS : Option Text → Text
  | none => "None".toList
  | some value => value

/-- `to_xml`. -/
def toXml (self : Tag) : Text :=
  "<Tag><Key>".toList ++ percentS self.key ++ "</Key><Value>".toList ++ percentS self.value ++
    "</Value></Tag>".toList

end Tag

/-- `TagSet`. -/
abbrev TagSet := List Tag

namespace TagSet

/-- `add_tag`. -/
def addTag (key value : Text) (self : TagSet) : TagSet := self ++ [⟨some key, some value⟩]

/-- `to_xml`. -/
def toXml (self : TagSet) : Text :=
  "<TagSet>".toList ++ self.flatMap Tag.toXml ++ "</TagSet>".toList

/-- The set after some calls of `add_tag`. -/
def built (pairs : List (Text × Text)) : TagSet :=
  pairs.foldl (fun self pair => self.addTag pair.1 pair.2) []

end TagSet

/-- `Tags`. -/
abbrev Tags := List TagSet

namespace Tags

/-- `to_xml`. -/
def toXml (self : Tags) : Text :=
  "<Tagging>".toList ++ self.flatMap TagSet.toXml ++ "</Tagging>".toList

/-- The objects of some tags. -/
inductive Ref
  | tags
  | tagSet (i : ℕ)
  | tag (i j : ℕ)
  deriving DecidableEq

/-- The methods of the objects.  Attributes that are set on the lists are not kept. -/
def methods : Nodes Ref Tags where
  startElement top name self :=
    match top with
    | .tags =>
        if name = "TagSet".toList then (some (.tagSet self.length), self ++ [[]])
        else (none, self)
    | .tagSet i =>
        if name = "Tag".toList then
          match self[i]? with
          | none => (none, self)
          | some set => (some (.tag i set.length), self.set i (set ++ [Tag.init]))
        else (none, self)
    | .tag _ _ => (none, self)
  endElement top name value self :=
    match top with
    | .tags => .ok self
    | .tagSet _ => .ok self
    | .tag i j =>
        match self[i]? with
        | none => .ok self
        | some set =>
            match set[j]? with
            | none => .ok self
            | some tag => .ok (self.set i (set.set j (tag.endElement name value)))

end Tags

/-! ## Tags as trees -/

namespace Tag

/-- The elements for what is set. -/
def nodes (self : Tag) : List Node :=
  self.key.toList.map (Node.leaf "Key".toList) ++
    self.value.toList.map (Node.leaf "Value".toList)

/-- The element of a tag. -/
def element (self : Tag) : Node := .element "Tag".toList self.nodes

/-- A tag with a key and a value. -/
def ofPair (pair : Text × Text) : Tag := ⟨some pair.1, some pair.2⟩

end Tag

/-- The element of a tag set. -/
def TagSet.element (self : TagSet) : Node := .element "TagSet".toList (self.map Tag.element)

/-- The names of the elements that hold elements. -/
def IsTagContainer (name : Text) : Prop :=
  name ∈ ["Tagging".toList, "TagSet".toList, "Tag".toList]

instance : DecidablePred IsTagContainer := fun name =>
  inferInstanceAs (Decidable (name ∈ ["Tagging".toList, "TagSet".toList, "Tag".toList]))

theorem built_tags (pairs : List (Text × Text)) : TagSet.built pairs = pairs.map Tag.ofPair := by
  induction pairs using List.reverseRecOn with
  | nil => rfl
  | append_singleton pairs pair ih =>
      rw [TagSet.built, List.foldl_append, List.map_append, ← ih]
      rfl

theorem toXml_tag (pair : Text × Text) : (Tag.ofPair pair).toXml =
    (Tag.ofPair pair).element.render := by
  have hfirst : "<Tag><Key>".toList =
      '<' :: ("Tag".toList ++ '>' :: '<' :: ("Key".toList ++ ['>'])) := by decide
  have hsecond : "</Key><Value>".toList =
      '<' :: '/' :: ("Key".toList ++ '>' :: '<' :: ("Value".toList ++ ['>'])) := by decide
  have hthird : "</Value></Tag>".toList =
      '<' :: '/' :: ("Value".toList ++ '>' :: '<' :: '/' :: ("Tag".toList ++ ['>'])) := by decide
  unfold Tag.toXml
  simp only [Tag.percentS, Tag.ofPair, Tag.element, Tag.nodes, Node.leaf, Node.render,
    Node.renderOf, hfirst, hsecond, hthird, Option.toList_some, List.map_cons, List.map_nil,
    List.append_assoc, List.cons_append, List.nil_append, List.append_nil]

theorem toXml_tagSet (pairs : List (Text × Text)) :
    (TagSet.built pairs).toXml = Node.render (TagSet.built pairs).element := by
  have htags : (pairs.map Tag.ofPair).flatMap Tag.toXml =
      Node.renderOf ((pairs.map Tag.ofPair).map Tag.element) := by
    rw [List.map_map, Xml.renderOf_map, List.flatMap_map]
    congr 1
    funext pair
    exact toXml_tag pair
  have hopen : "<TagSet>".toList = '<' :: ("TagSet".toList ++ ['>']) := by decide
  have hclose : "</TagSet>".toList = '<' :: '/' :: ("TagSet".toList ++ ['>']) := by decide
  unfold TagSet.toXml
  simp only [built_tags, htags, TagSet.element, Node.render, hopen, hclose,
    List.append_assoc, List.cons_append, List.nil_append]

/-- The document of some tag sets. -/
theorem toXml_tags (sets : List (List (Text × Text))) :
    Tags.toXml (sets.map TagSet.built) = Xml.document [] ("Tagging".toList ++ ['>'])
      "Tagging".toList (Node.renderOf (sets.map fun pairs => (TagSet.built pairs).element)) := by
  have hsets : (sets.map TagSet.built).flatMap TagSet.toXml =
      Node.renderOf (sets.map fun pairs => (TagSet.built pairs).element) := by
    rw [Xml.renderOf_map, List.flatMap_map]
    congr 1
    funext pairs
    exact toXml_tagSet pairs
  have hopen : "<Tagging>".toList = '<' :: ("Tagging".toList ++ ['>']) := by decide
  have hclose : "</Tagging>".toList = '<' :: '/' :: ("Tagging".toList ++ ['>']) := by decide
  unfold Tags.toXml
  simp only [hsets, Xml.document, hopen, hclose, List.append_assoc,
    List.cons_append, List.nil_append]

/-! ## Reading -/

section

variable {done : Tags} {before : TagSet} {tag : Text}

theorem getElem?_last (set : TagSet) : (done ++ [set])[done.length]? = some set :=
  List.getElem?_concat_length

theorem set_last {α : Type} (xs : List α) (x y : α) :
    (xs ++ [x]).set xs.length y = xs ++ [y] := by
  rw [List.set_append_right _ _ (Nat.le_refl _), Nat.sub_self]
  rfl

theorem endElement_lastTag (self : Tag) (name value : Text) :
    Tags.methods.endElement (.tag done.length before.length) name value
        (done ++ [before ++ [self]]) =
      .ok (done ++ [before ++ [self.endElement name value]]) := by
  have hget : (before ++ [self])[before.length]? = some self := List.getElem?_concat_length
  simp only [Tags.methods, getElem?_last, hget, set_last]

theorem reads_tag (pair : Text × Text) :
    Reads Tags.methods "TagSet".toList (.tagSet done.length) [(Tag.ofPair pair).element]
      (done ++ [before]) (done ++ [before ++ [Tag.ofPair pair]]) := by
  have hstart : Tags.methods.startElement (.tagSet done.length) "Tag".toList (done ++ [before]) =
      (some (.tag done.length before.length), done ++ [before ++ [Tag.init]]) := by
    simp only [Tags.methods, getElem?_last, set_last, if_true]
  refine .element hstart (.cons (.leaf (by decide) rfl (endElement_lastTag _ _ _))
    (.leaf (by decide) rfl (endElement_lastTag _ _ _))) fun text => ?_
  rw [endElement_lastTag]
  rfl

theorem reads_tags (pairs : List (Text × Text)) :
    Reads Tags.methods "TagSet".toList (.tagSet done.length)
      ((pairs.map Tag.ofPair).map Tag.element) (done ++ [before])
      (done ++ [before ++ pairs.map Tag.ofPair]) := by
  induction pairs generalizing before with
  | nil =>
      rw [List.map_nil, List.append_nil]
      exact .nil _ _ _ _
  | cons pair pairs ih =>
      have hrest := @ih (before ++ [Tag.ofPair pair])
      rw [List.append_assoc] at hrest
      exact (reads_tag pair).cons hrest

theorem reads_tagSet (pairs : List (Text × Text)) :
    Reads Tags.methods tag .tags [(TagSet.built pairs).element] done
      (done ++ [TagSet.built pairs]) := by
  have hstart : Tags.methods.startElement .tags "TagSet".toList done =
      (some (.tagSet done.length), done ++ [[]]) := rfl
  have htags := @reads_tags done [] pairs
  rw [List.nil_append] at htags
  rw [built_tags]
  exact .element hstart htags fun text => rfl

end

theorem ignoresData_tags : XmlHandler.IgnoresData Tags.methods IsTagContainer := by
  intro top name text text' objects hname
  have hend : ∀ tag : Tag, tag.endElement name text = tag.endElement name text' := by
    intro tag
    simp only [IsTagContainer, List.mem_cons, List.not_mem_nil, or_false] at hname
    rcases hname with rfl | rfl | rfl <;> rfl
  cases top with
  | tags => rfl
  | tagSet i => rfl
  | tag i j => simp only [Tags.methods, hend]

theorem leaves_tagSet (pairs : List (Text × Text)) :
    Xml.Leaves IsTagContainer ((TagSet.built pairs).map Tag.element)
      (pairs.flatMap fun pair => [pair.1, pair.2]) := by
  have hone : ∀ pair : Text × Text,
      Xml.Leaves IsTagContainer [(Tag.ofPair pair).element] [pair.1, pair.2] := fun pair =>
    .element "Tag".toList (by decide) (by decide)
      (.leaf "Key".toList pair.1 (by decide) (.leaf "Value".toList pair.2 (by decide) .nil)) .nil
  rw [built_tags, List.map_map]
  exact Xml.Leaves.flatMap hone pairs

/-! ## What is read was written -/

/-- The key and the value of a tag. -/
def Tag.contents (self : Tag) : List Text := self.key.toList ++ self.value.toList

/-- The keys and values of some tags. -/
def TagSet.contents (self : TagSet) : List Text := self.flatMap Tag.contents

theorem contents_tagEnd (tag : Tag) (name value : Text) :
    (tag.endElement name value).contents.Subperm ([value] ++ tag.contents) := by
  rw [Tag.endElement]
  split
  · exact subperm_over (subperm_replaced _ _)
  split
  · exact subperm_under (subperm_replaced _ _)
  · exact subperm_kept _ _

theorem takes_tags : Takes Tags.methods fun self => self.flatMap TagSet.contents where
  start := by
    intro top name self
    cases top with
    | tag i j => exact List.Subperm.refl _
    | tags =>
        simp only [Tags.methods]
        split
        · have hnew : [([] : TagSet)].flatMap TagSet.contents = [] := rfl
          rw [List.flatMap_append, hnew, List.append_nil]
        · exact List.Subperm.refl _
    | tagSet i =>
        simp only [Tags.methods]
        split
        · split
          · exact List.Subperm.refl _
          · rename_i set hget
            have hsame : TagSet.contents (set ++ [Tag.init]) = TagSet.contents set := by
              have hnew : [Tag.init].flatMap Tag.contents = [] := rfl
              rw [TagSet.contents, List.flatMap_append, hnew, List.append_nil, TagSet.contents]
            refine @subperm_set [] _ TagSet.contents _ _ _ _ hget ?_
            rw [hsame]
            exact List.Subperm.refl _
        · exact List.Subperm.refl _
  finish := by
    intro top name text self self' hend
    refine ⟨[text], .whole text, ?_⟩
    cases top with
    | tags =>
        cases hend
        exact subperm_kept _ _
    | tagSet i =>
        cases hend
        exact subperm_kept _ _
    | tag i j =>
        simp only [Tags.methods] at hend
        split at hend
        · cases hend
          exact subperm_kept _ _
        · rename_i set hset
          split at hend
          · cases hend
            exact subperm_kept _ _
          · rename_i tag htag
            cases hend
            exact subperm_set hset (subperm_set htag (contents_tagEnd tag name text))

/-! ## What comes back -/

/-- The keys and values of some tags are plain. -/
def PairsPlain (pairs : List (Text × Text)) : Prop :=
  ∀ pair ∈ pairs, Xml.isPlain pair.1 = true ∧ Xml.isPlain pair.2 = true

/-- The document of a tag set is well formed and has the tags that were added. -/
def TagSet.RoundTrips (pairs : List (Text × Text)) : Prop :=
  ∃ events, Xml.parse (TagSet.built pairs).toXml = some events ∧
    XmlHandler.parse Tags.methods .tags [] events = .ok [TagSet.built pairs]

/-- The document of some tag sets is well formed and has the tags that were added. -/
def Tags.RoundTrips (sets : List (List (Text × Text))) : Prop :=
  ∃ events, Xml.parse (Tags.toXml (sets.map TagSet.built)) = some events ∧
    XmlHandler.parse Tags.methods .tags [] events = .ok (sets.map TagSet.built)

theorem pairsPlain_iff (pairs : List (Text × Text)) :
    PairsPlain pairs ↔ ∀ text ∈ pairs.flatMap (fun pair => [pair.1, pair.2]),
      Xml.isPlain text = true := by
  rw [PairsPlain]
  simp only [List.mem_flatMap, List.mem_cons, List.not_mem_nil, or_false]
  constructor
  · rintro hpairs text ⟨pair, hpair, rfl | rfl⟩
    · exact (hpairs pair hpair).1
    · exact (hpairs pair hpair).2
  · intro htexts pair hpair
    exact ⟨htexts _ ⟨pair, hpair, .inl rfl⟩, htexts _ ⟨pair, hpair, .inr rfl⟩⟩

theorem contents_built (pairs : List (Text × Text)) :
    (TagSet.built pairs).contents = pairs.flatMap fun pair => [pair.1, pair.2] := by
  rw [built_tags, TagSet.contents, List.flatMap_map]
  rfl

theorem toXml_tagSet_document (pairs : List (Text × Text)) :
    (TagSet.built pairs).toXml = Xml.document [] ("TagSet".toList ++ ['>']) "TagSet".toList
      (Node.renderOf ((TagSet.built pairs).map Tag.element)) := by
  rw [toXml_tagSet, TagSet.element, Node.render, Xml.document]
  simp only [List.append_assoc, List.cons_append, List.nil_append]

theorem read_tagSet (pairs : List (Text × Text)) :
    XmlHandler.parse Tags.methods .tags []
      (Node.eventsOf [(TagSet.built pairs).element]) = .ok [TagSet.built pairs] := by
  have hread : Reads Tags.methods "root".toList .tags [(TagSet.built pairs).element] []
      [TagSet.built pairs] := reads_tagSet pairs
  have hevents : Node.eventsOf [(TagSet.built pairs).element] =
      (TagSet.built pairs).element.events := by
    rw [Node.eventsOf, Node.eventsOf, List.append_nil]
  rw [hevents]
  exact hread.parse

/-- The tags of a set come back as they were added exactly if they are plain. -/
theorem tagSet_roundTrips_iff (pairs : List (Text × Text)) :
    TagSet.RoundTrips pairs ↔ PairsPlain pairs := by
  have hroot : Xml.IsRoot [] ("TagSet".toList ++ ['>']) "TagSet".toList :=
    .isRoot_word (.inr rfl) (by decide)
  rw [TagSet.RoundTrips, toXml_tagSet_document]
  constructor
  · rintro ⟨events, hparse, hread⟩
    have hcontents : [TagSet.built pairs].flatMap TagSet.contents =
        pairs.flatMap fun pair => [pair.1, pair.2] := by
      rw [List.flatMap_singleton, contents_built]
    have hplain := XmlHandler.plain_of_parse takes_tags hroot (by decide) rfl hparse hread
      (by rw [hcontents, Xml.weight_renderOf (leaves_tagSet pairs)])
    rw [hcontents] at hplain
    exact (pairsPlain_iff pairs).mpr hplain
  · intro hplain
    obtain ⟨spaced, hspaced, hrender⟩ := (leaves_tagSet pairs).exists_spaced
    obtain ⟨events, hparse, hread⟩ := XmlHandler.parse_document hroot (by decide) (by decide)
      ignoresData_tags hspaced (leaves_tagSet pairs) ((pairsPlain_iff pairs).mp hplain)
      (read_tagSet pairs)
    rw [hrender] at hparse
    exact ⟨events, hparse, hread⟩

theorem leaves_tags (sets : List (List (Text × Text))) :
    Xml.Leaves IsTagContainer (sets.map fun pairs => (TagSet.built pairs).element)
      (sets.flatMap fun pairs => (pairs.flatMap fun pair => [pair.1, pair.2]) ++ []) := by
  have hone : ∀ pairs : List (Text × Text), Xml.Leaves IsTagContainer
      [(TagSet.built pairs).element]
      ((pairs.flatMap fun pair => [pair.1, pair.2]) ++ []) := fun pairs =>
    .element "TagSet".toList (by decide) (by decide) (leaves_tagSet pairs) .nil
  exact Xml.Leaves.flatMap hone sets

theorem read_tags (sets : List (List (Text × Text))) :
    XmlHandler.parse Tags.methods .tags []
      (Node.eventsOf [.element "Tagging".toList
        (sets.map fun pairs => (TagSet.built pairs).element)]) =
      .ok (sets.map TagSet.built) := by
  have hsets : Reads Tags.methods "root".toList .tags
      (sets.map fun pairs => (TagSet.built pairs).element) [] (sets.map TagSet.built) := by
    induction sets using List.reverseRecOn with
    | nil => exact .nil _ _ _ _
    | append_singleton sets pairs ih =>
        rw [List.map_append, List.map_append]
        exact ih.append (reads_tagSet pairs)
  have hroot : Reads Tags.methods "root".toList .tags [.element "Tagging".toList
      (sets.map fun pairs => (TagSet.built pairs).element)] [] (sets.map TagSet.built) :=
    .skipped (by decide) rfl hsets fun text => rfl
  have hevents : Node.eventsOf [.element "Tagging".toList
      (sets.map fun pairs => (TagSet.built pairs).element)] =
        (Node.element "Tagging".toList
          (sets.map fun pairs => (TagSet.built pairs).element)).events := by
    rw [Node.eventsOf, Node.eventsOf, List.append_nil]
  rw [hevents]
  exact hroot.parse

/-- The tags of some sets come back as they were added exactly if they are plain. -/
theorem tags_roundTrips_iff (sets : List (List (Text × Text))) :
    Tags.RoundTrips sets ↔ ∀ pairs ∈ sets, PairsPlain pairs := by
  have hroot : Xml.IsRoot [] ("Tagging".toList ++ ['>']) "Tagging".toList :=
    .isRoot_word (.inr rfl) (by decide)
  rw [Tags.RoundTrips, toXml_tags]
  constructor
  · rintro ⟨events, hparse, hread⟩
    have hcontents : (sets.map TagSet.built).flatMap TagSet.contents =
        sets.flatMap fun pairs => (pairs.flatMap fun pair => [pair.1, pair.2]) ++ [] := by
      rw [List.flatMap_map]
      congr 1
      funext pairs
      rw [contents_built, List.append_nil]
    have hplain := XmlHandler.plain_of_parse takes_tags hroot (by decide) rfl hparse hread
      (by rw [hcontents, Xml.weight_renderOf (leaves_tags sets)])
    rw [hcontents] at hplain
    intro pairs hpairs
    refine (pairsPlain_iff pairs).mpr fun text htext => hplain text ?_
    refine List.mem_flatMap.mpr ⟨pairs, hpairs, ?_⟩
    rw [List.append_nil]
    exact htext
  · intro hplain
    obtain ⟨spaced, hspaced, hrender⟩ := (leaves_tags sets).exists_spaced
    have htexts : ∀ text ∈ sets.flatMap (fun pairs =>
        (pairs.flatMap fun pair => [pair.1, pair.2]) ++ []), Xml.isPlain text = true := by
      intro text htext
      obtain ⟨pairs, hpairs, htext⟩ := List.mem_flatMap.mp htext
      rw [List.append_nil] at htext
      exact (pairsPlain_iff pairs).mp (hplain pairs hpairs) text htext
    obtain ⟨events, hparse, hread⟩ := XmlHandler.parse_document hroot (by decide) (by decide)
      ignoresData_tags hspaced (leaves_tags sets) htexts (read_tags sets)
    rw [hrender] at hparse
    exact ⟨events, hparse, hread⟩

/-- Rules come back as they were added exactly if their strings are plain, their headers are
listed and their ages are not zero; tags do exactly if their keys and values are plain. -/
theorem corsAndTags_roundTrip (calls : List RuleArguments) (pairs : List (Text × Text))
    (sets : List (List (Text × Text))) :
    (CORSConfiguration.RoundTrips calls ↔ ∀ arguments ∈ calls, arguments.IsPlain ∧
      arguments.HeadersListed ∧ arguments.maxAgeSeconds ≠ some 0) ∧
    (TagSet.RoundTrips pairs ↔ PairsPlain pairs) ∧
    (Tags.RoundTrips sets ↔ ∀ pairs ∈ sets, PairsPlain pairs) :=
  ⟨cors_roundTrips_iff calls, tagSet_roundTrips_iff pairs, tags_roundTrips_iff sets⟩

/-- A rule for a header that is given as a string. -/
def oneHeader : RuleArguments :=
  ⟨.one "GET".toList, .one "*".toList, none, some (.one "x-a".toList), none, none, by decide⟩

/-- A rule with an age of zero. -/
def zeroAge : RuleArguments :=
  ⟨.one "GET".toList, .one "*".toList, none, none, some 0, none, by decide⟩

/-- Headers in one string come back character by character, an age of zero does not come back,
and an ampersand makes the document malformed. -/
theorem corsAndTags_lost :
    ¬CORSConfiguration.RoundTrips [oneHeader] ∧ ¬CORSConfiguration.RoundTrips [zeroAge] ∧
      ¬TagSet.RoundTrips [("a&b".toList, "v".toList)] := by
  refine ⟨fun htrips => ?_, fun htrips => ?_, fun htrips => ?_⟩
  · have hall := (cors_roundTrips_iff [oneHeader]).mp htrips
    have hlength := (hall oneHeader List.mem_cons_self).2.1 _ rfl
    exact absurd hlength (by decide)
  · have hall := (cors_roundTrips_iff [zeroAge]).mp htrips
    exact (hall zeroAge List.mem_cons_self).2.2 rfl
  · have hpair := (tagSet_roundTrips_iff _).mp htrips _ List.mem_cons_self
    exact absurd hpair.1 (by decide)

end Boto.S3
