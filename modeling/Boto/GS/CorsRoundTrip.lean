import Boto.GS.Cors
import Boto.S3.Cors
import Boto.Support.ListResults

/-!
# Writing back a configuration of cross-origin requests

`Cors.to_xml` tells a text from a list of elements by the type `str`.  A configuration that was
read is written and read again as it was, unless a text in it is markup, or the older
interpreter takes the text of a collection for a list.
-/

namespace Boto.GS

open S3 (simpleElement)
open Xml (Child Node children data)

namespace ElementsOrValue

/-- What `to_xml` writes for a collection.  On the older interpreter the parser gives a text
that is not empty the type `unicode`, so that its characters are taken for elements. -/
def toXml (version : PyVersion) : ElementsOrValue → Except PyError Text
  | .value text =>
      match version with
      | .py3 => .ok text
      | .py2 =>
          if text = [] then .ok []
          else .error (.valueError "need more than 1 value to unpack")
  | .elements items =>
      .ok (items.flatMap fun element => simpleElement element.1 element.2)

/-- The nodes of a collection. -/
def nodes : ElementsOrValue → List Node
  | .value text => [.text text]
  | .elements items => items.map fun element => .leaf element.1 element.2

/-- The texts of a collection. -/
def texts : ElementsOrValue → List Text
  | .value text => [text]
  | .elements items => items.map Prod.snd

/-- A collection that has the type that `to_xml` expects. -/
def IsTyped (version : PyVersion) (self : ElementsOrValue) : Prop :=
  version = .py2 → ∀ text, self = .value text → text = []

end ElementsOrValue

namespace Cors

/-- What `to_xml` writes for some collections. -/
def collectionsXml (version : PyVersion) (collections : List (Text × ElementsOrValue)) :
    Except PyError Text := do
  let written ← collections.mapM fun entry =>
    (entry.2.toXml version).map (simpleElement entry.1)
  return simpleElement corsTag written.flatten

/-- `to_xml`. -/
def toXml (version : PyVersion) (self : Cors) : Except PyError Text := do
  let cors ← self.cors.mapM (collectionsXml version)
  return simpleElement corsConfigTag cors.flatten

/-- The element of a collection. -/
def collectionChild (entry : Text × ElementsOrValue) : Child := (entry.1, entry.2.nodes)

/-- A `Cors` element. -/
def corsChild (collections : List (Text × ElementsOrValue)) : Child :=
  (corsTag, collections.map fun entry =>
    .element (collectionChild entry).1 (collectionChild entry).2)

/-- The elements of a configuration. -/
def nodes (self : Cors) : List Node :=
  self.cors.map fun collections => .element (corsChild collections).1 (corsChild collections).2

/-- The texts of some collections. -/
def textsOf (collections : List (Text × ElementsOrValue)) : List Text :=
  collections.flatMap fun entry => entry.2.texts

/-- The texts of a configuration. -/
def texts (self : Cors) : List Text := self.cors.flatMap textsOf

/-- All collections have the types that `to_xml` expects. -/
def IsTyped (version : PyVersion) (self : Cors) : Prop :=
  ∀ collections ∈ self.cors, ∀ entry ∈ collections, entry.2.IsTyped version

/-- A configuration is written as a document from which it is read again. -/
def RoundTrips (version : PyVersion) (self : Cors) : Prop :=
  ∃ text events, self.toXml version = .ok text ∧ Xml.parse text = some events ∧
    read events = .ok self

/-! ## Writing -/

variable {version : PyVersion} {self : Cors} {text : Text}

theorem simpleElement_eq (name value : Text) (nodes : List Node)
    (hvalue : value = Node.renderOf nodes) :
    simpleElement name value = (Node.element name nodes).render := by
  rw [simpleElement, Node.render, hvalue]

theorem toXml_collection_eq_ok {self : ElementsOrValue} :
    self.toXml version = .ok text ↔ self.IsTyped version ∧ text = Node.renderOf self.nodes := by
  cases self with
  | elements elements =>
      have hrender : (elements.flatMap fun element => simpleElement element.1 element.2) =
          Node.renderOf (ElementsOrValue.elements elements).nodes := by
        rw [ElementsOrValue.nodes, Xml.renderOf_map]
        congr 1
        funext element
        exact simpleElement_eq _ _ [.text element.2] (by simp [Node.renderOf, Node.render])
      have htyped : (ElementsOrValue.elements elements).IsTyped version := by
        intro _ text heq
        cases heq
      rw [ElementsOrValue.toXml, hrender, Except.ok.injEq, eq_comm]
      exact (and_iff_right htyped).symm
  | value content =>
      have hrender : Node.renderOf (ElementsOrValue.value content).nodes = content := by
        simp [ElementsOrValue.nodes, Node.renderOf, Node.render]
      rw [hrender]
      cases version with
      | py3 => simp [ElementsOrValue.toXml, ElementsOrValue.IsTyped, eq_comm]
      | py2 =>
          by_cases hempty : content = []
          · simp [ElementsOrValue.toXml, ElementsOrValue.IsTyped, hempty, eq_comm]
          · simp [ElementsOrValue.toXml, ElementsOrValue.IsTyped, hempty]

theorem toXml_entry_eq_ok {entry : Text × ElementsOrValue} :
    (entry.2.toXml version).map (simpleElement entry.1) = .ok text ↔
      entry.2.IsTyped version ∧
        text = (Node.element (collectionChild entry).1 (collectionChild entry).2).render := by
  constructor
  · intro hmap
    obtain ⟨value, hvalue, rfl⟩ := exists_of_map_eq_ok hmap
    obtain ⟨htyped, rfl⟩ := toXml_collection_eq_ok.mp hvalue
    exact ⟨htyped, simpleElement_eq _ _ _ rfl⟩
  · rintro ⟨htyped, rfl⟩
    rw [toXml_collection_eq_ok.mpr ⟨htyped, rfl⟩]
    exact congrArg _ (simpleElement_eq _ _ _ rfl)

theorem collectionsXml_eq_ok {collections : List (Text × ElementsOrValue)} :
    collectionsXml version collections = .ok text ↔
      (∀ entry ∈ collections, entry.2.IsTyped version) ∧
        text = (Node.element (corsChild collections).1 (corsChild collections).2).render := by
  have hrender : simpleElement corsTag (collections.map fun entry =>
      (Node.element (collectionChild entry).1 (collectionChild entry).2).render).flatten =
        (Node.element (corsChild collections).1 (corsChild collections).2).render := by
    refine simpleElement_eq _ _ _ ?_
    rw [corsChild, Xml.renderOf_map, List.flatMap_def]
  rw [collectionsXml, except_bind_eq_ok]
  constructor
  · rintro ⟨written, hmap, hreturn⟩
    obtain ⟨htyped, rfl⟩ :=
      (ListResults.mapM_eq_ok_iff fun entry text => toXml_entry_eq_ok).mp hmap
    rw [hrender] at hreturn
    exact ⟨htyped, (Except.ok.inj hreturn).symm⟩
  · rintro ⟨htyped, rfl⟩
    have hmap := (ListResults.mapM_eq_ok_iff fun entry text => toXml_entry_eq_ok).mpr
      ⟨htyped, rfl⟩
    exact ⟨_, hmap, congrArg _ hrender⟩

/-- A configuration is written if its collections have the right types. -/
theorem toXml_eq_ok :
    self.toXml version = .ok text ↔
      self.IsTyped version ∧ text = Xml.document [] (corsConfigTag ++ ['>']) corsConfigTag
        (Node.renderOf self.nodes) := by
  have hdocument : simpleElement corsConfigTag (self.cors.map fun collections =>
      (Node.element (corsChild collections).1 (corsChild collections).2).render).flatten =
        Xml.document [] (corsConfigTag ++ ['>']) corsConfigTag (Node.renderOf self.nodes) := by
    rw [nodes, Xml.renderOf_map, List.flatMap_def, Xml.document, simpleElement]
    simp only [List.nil_append, List.append_assoc, List.cons_append]
  rw [toXml, except_bind_eq_ok]
  constructor
  · rintro ⟨cors, hmap, hreturn⟩
    obtain ⟨htyped, rfl⟩ :=
      (ListResults.mapM_eq_ok_iff fun collections text => collectionsXml_eq_ok).mp hmap
    rw [hdocument] at hreturn
    exact ⟨htyped, (Except.ok.inj hreturn).symm⟩
  · rintro ⟨htyped, rfl⟩
    have hmap := (ListResults.mapM_eq_ok_iff fun collections text => collectionsXml_eq_ok).mpr
      ⟨htyped, rfl⟩
    exact ⟨_, hmap, congrArg _ hdocument⟩

/-! ## What was read -/

variable {child : Child}

theorem collectionChild_isCollection (hcollection : IsCollection child) :
    IsCollection (collectionChild (collectionOf child)) ∧
      collectionOf (collectionChild (collectionOf child)) = collectionOf child := by
  obtain ⟨hname, hitems⟩ := hcollection
  by_cases hempty : legalIn child.1 = []
  · have hcontents : collectionOf child = (child.1, .value (stripText (data child.2))) := by
      rw [collectionOf, if_pos hempty]
    rw [hcontents]
    refine ⟨⟨hname, fun item hitem => absurd hitem List.not_mem_nil⟩, ?_⟩
    rw [collectionOf, collectionChild]
    dsimp only
    rw [if_pos hempty, ElementsOrValue.nodes, data, data, List.append_nil, stripText_stripText]
  · have hcontents : collectionOf child = (child.1, .elements ((children child.2).map itemOf)) := by
      rw [collectionOf, if_neg hempty]
    have hchildren : children (ElementsOrValue.elements ((children child.2).map itemOf)).nodes =
        (children child.2).map fun item => ((itemOf item).1, [.text (itemOf item).2]) := by
      rw [ElementsOrValue.nodes, List.map_map]
      exact Xml.children_map (fun item => ((itemOf item).1, [Node.text (itemOf item).2]))
        (children child.2)
    have hsame : ∀ item : Child,
        itemOf ((itemOf item).1, [.text (itemOf item).2]) = itemOf item := by
      intro item
      rw [itemOf, itemOf, data, data, List.append_nil, stripText_stripText]
    rw [hcontents]
    constructor
    · refine ⟨hname, ?_⟩
      rw [collectionChild, hchildren]
      intro item hitem
      obtain ⟨item', hitem', rfl⟩ := List.mem_map.mp hitem
      exact ⟨(hitems item' hitem').1, rfl⟩
    · rw [collectionOf, collectionChild]
      dsimp only
      rw [if_neg hempty, hchildren, List.map_map]
      congr 2
      exact List.map_congr_left fun item _ => hsame item

theorem corsChild_isCorsElement (hcors : IsCorsElement child) :
    IsCorsElement (corsChild (collectionsOf child)) ∧
      collectionsOf (corsChild (collectionsOf child)) = collectionsOf child := by
  have hchildren : children (corsChild (collectionsOf child)).2 =
      (children child.2).map fun collection => collectionChild (collectionOf collection) := by
    rw [corsChild, Xml.children_map, collectionsOf, List.map_map]
    rfl
  constructor
  · refine ⟨rfl, ?_⟩
    rw [hchildren]
    intro collection hcollection
    obtain ⟨collection', hcollection', rfl⟩ := List.mem_map.mp hcollection
    exact (collectionChild_isCollection (hcors.2 collection' hcollection')).1
  · rw [collectionsOf, hchildren, List.map_map]
    exact List.map_congr_left fun collection hcollection =>
      (collectionChild_isCollection (hcors.2 collection hcollection)).2

/-- What was read is read again from the elements that are written for it. -/
theorem readChild_nodes (hconfig : IsCorsConfig child) (hself : self = configOf child) :
    Xml.readChild readers () (corsConfigTag, self.nodes) init = .ok self := by
  have hcors : self.cors = (children child.2).map collectionsOf := by rw [hself]; rfl
  have hchildren : children self.nodes =
      (children child.2).map fun cors => corsChild (collectionsOf cors) := by
    rw [nodes, Xml.children_map, hcors, List.map_map]
    rfl
  have hsame : (children self.nodes).map collectionsOf = self.cors := by
    rw [hchildren, List.map_map, hcors]
    exact List.map_congr_left fun cors hmem =>
      (corsChild_isCorsElement (hconfig.2 cors hmem)).2
  rw [readChild_config]
  refine ⟨⟨rfl, ?_⟩, ?_⟩
  · rw [hchildren]
    intro cors hmem
    obtain ⟨cors', hmem', rfl⟩ := List.mem_map.mp hmem
    exact (corsChild_isCorsElement (hconfig.2 cors' hmem')).1
  · calc self = { init with cors := self.cors } := by rw [hself]; rfl
      _ = configOf (corsConfigTag, self.nodes) := by rw [configOf, hsame]

/-- The names of the elements that hold elements. -/
def IsContainer (name : Text) : Prop :=
  name ∈ [corsConfigTag, corsTag, "Origins".toList, "Methods".toList, "ResponseHeaders".toList]

instance : DecidablePred IsContainer := fun name =>
  inferInstanceAs (Decidable (name ∈ [corsConfigTag, corsTag, "Origins".toList,
    "Methods".toList, "ResponseHeaders".toList]))

theorem leaves_collection (hcollection : IsCollection child) :
    Xml.Leaves IsContainer
      [.element (collectionChild (collectionOf child)).1 (collectionChild (collectionOf child)).2]
      ((collectionOf child).2.texts) := by
  obtain ⟨hname, hitems⟩ := hcollection
  have hword : ∀ name ∈ legalCollections.map Prod.fst, Xml.isWord name = true := by decide
  have hitemWord : ∀ name ∈ legalElements, Xml.isWord name = true := by decide
  by_cases hempty : legalIn child.1 = []
  · have hcontents : collectionOf child = (child.1, .value (stripText (data child.2))) := by
      rw [collectionOf, if_pos hempty]
    rw [hcontents]
    exact .leaf child.1 _ (hword _ hname) .nil
  · have hcontents : collectionOf child = (child.1, .elements ((children child.2).map itemOf)) := by
      rw [collectionOf, if_neg hempty]
    have hcontainer : ∀ name ∈ legalCollections.map Prod.fst,
        legalIn name ≠ [] → IsContainer name := by decide
    rw [hcontents]
    have hleaves : Xml.Leaves IsContainer
        (((children child.2).map itemOf).map fun item => .leaf item.1 item.2)
        (((children child.2).map itemOf).flatMap fun item => [item.2]) := by
      refine Xml.Leaves.flatMap_of_mem fun item hitem => ?_
      obtain ⟨item', hitem', rfl⟩ := List.mem_map.mp hitem
      exact .leaf _ _ (hitemWord _ (mem_legalElements (hitems item' hitem').1)) .nil
    rw [← List.map_eq_flatMap] at hleaves
    have helement := Xml.Leaves.element child.1 (hword _ hname) (hcontainer _ hname hempty)
      hleaves .nil
    rw [List.append_nil] at helement
    exact helement

theorem leaves_nodes (hconfig : IsCorsConfig child) (hself : self = configOf child) :
    Xml.Leaves IsContainer self.nodes self.texts := by
  have hcors : self.cors = (children child.2).map collectionsOf := by rw [hself]; rfl
  refine Xml.Leaves.flatMap_of_mem fun collections hcollections => ?_
  rw [hcors] at hcollections
  obtain ⟨cors, hmem, rfl⟩ := List.mem_map.mp hcollections
  have hinner : Xml.Leaves IsContainer
      ((collectionsOf cors).map fun entry =>
        .element (collectionChild entry).1 (collectionChild entry).2)
      (textsOf (collectionsOf cors)) := by
    refine Xml.Leaves.flatMap_of_mem fun entry hentry => ?_
    obtain ⟨collection, hcollection, rfl⟩ := List.mem_map.mp hentry
    exact leaves_collection ((hconfig.2 cors hmem).2 collection hcollection)
  have helement := Xml.Leaves.element corsTag (by decide) (by decide) hinner .nil
  rw [List.append_nil] at helement
  exact helement

/-! ## Only plain texts come back -/

/-- The texts that a `Cors` has. -/
def contents (self : Cors) : List Text :=
  self.texts ++ (textsOf self.collections ++ self.elements.map Prod.snd)

theorem drawn_stripText (text : Text) : Drawn text [stripText text] where
  weights_le := by
    rw [Xml.weights_cons, Xml.weights_nil, Nat.add_zero]
    exact Xml.weight_sublist (stripText_within text).sublist
  plain hplain := List.forall_mem_singleton.mpr (Xml.isPlain_of_within (stripText_within text) hplain)

theorem textsOf_append (collections : List (Text × ElementsOrValue))
    (entry : Text × ElementsOrValue) :
    textsOf (collections ++ [entry]) = textsOf collections ++ entry.2.texts := by
  rw [textsOf, List.flatMap_append, List.flatMap_singleton]
  rfl

/-- The ends of containers do not depend on character data. -/
theorem ignoresData_readers (top : Unit) (name text text' : Text) (self : Cors)
    (hname : IsContainer name) :
    readers.endElement top name text self = readers.endElement top name text' self := by
  change self.endElement name text = self.endElement name text'
  rw [IsContainer] at hname
  simp only [List.mem_cons, List.not_mem_nil, or_false] at hname
  rcases hname with rfl | rfl | rfl | rfl | rfl <;> rfl

theorem takes_readers : Takes (XmlHandler.unrefused readers) contents where
  start := by
    intro top name self
    dsimp only [XmlHandler.unrefused]
    cases hstart : readers.startElement top name self with
    | error e => exact List.Subperm.refl _
    | ok started =>
        obtain ⟨started', hstarted, rfl⟩ := exists_of_map_eq_ok hstart
        rcases startElement_eq_ok.mp hstarted with ⟨-, -, rfl⟩ | ⟨-, -, rfl⟩ | ⟨-, -, rfl⟩ |
          ⟨-, -, rfl⟩
        · exact List.Subperm.refl _
        · exact List.Subperm.refl _
        · exact List.Subperm.refl _
        · exact List.Subperm.refl _
  finish := by
    intro top name text self self' hend
    dsimp only [XmlHandler.unrefused] at hend
    cases hended : readers.endElement top name text self with
    | error e =>
        rw [hended] at hend
        cases hend
        exact ⟨[], .nothing text, List.Subperm.refl _⟩
    | ok ended =>
        rw [hended] at hend
        cases hend
        rcases endElement_eq_ok.mp hended with ⟨-, -, rfl⟩ | ⟨-, -, rfl⟩ | ⟨-, -, -, rfl⟩ |
          ⟨-, -, -, rfl⟩
        · exact ⟨[], .nothing text, List.Subperm.refl _⟩
        · refine ⟨[], .nothing text, ?_⟩
          simp only [contents, texts, List.flatMap_append, List.flatMap_singleton]
          simp only [textsOf, List.flatMap_nil, List.nil_append, List.append_assoc]
          exact List.Subperm.refl _
        · rw [terminated]
          split
          · refine ⟨[stripText text], drawn_stripText text, ?_⟩
            simp only [contents, textsOf_append, List.map_nil, List.append_nil]
            exact subperm_under (subperm_under (subperm_replaced _ _))
          · refine ⟨[], .nothing text, ?_⟩
            simp only [contents, textsOf_append, List.map_nil, List.append_nil]
            exact List.Subperm.refl _
        · refine ⟨[stripText text], drawn_stripText text, ?_⟩
          simp only [contents, List.map_append]
          exact subperm_under (subperm_under List.perm_append_comm.subperm)

/-- What was read comes back from its document exactly if its texts are plain and its
collections have the types that `to_xml` expects. -/
theorem roundTrips_iff {name : Text} {inner : List Node}
    (hread : read (Node.element name inner).events = .ok self) :
    self.RoundTrips version ↔
      (∀ text ∈ self.texts, Xml.isPlain text = true) ∧ self.IsTyped version := by
  obtain ⟨hconfig, hself⟩ := read_eq_ok.mp hread
  have hleaves := leaves_nodes hconfig hself
  have hroot : Xml.IsRoot [] (corsConfigTag ++ ['>']) corsConfigTag :=
    .isRoot_word (.inr rfl) (by decide)
  constructor
  · rintro ⟨text, events, htext, hparse, hback⟩
    obtain ⟨htyped, rfl⟩ := toXml_eq_ok.mp htext
    refine ⟨?_, htyped⟩
    have hcontents : self.contents = self.texts := by
      rw [contents, hself]
      simp [configOf, init, textsOf]
    have hplain := XmlHandler.plain_of_parse takes_readers hroot (by decide) rfl hparse
      (XmlHandler.parse_unrefused hback) ((Xml.weight_renderOf hleaves).trans_le
        (by rw [hcontents]))
    rwa [hcontents] at hplain
  · rintro ⟨hplain, htyped⟩
    obtain ⟨spaced, hspaced, hrender⟩ := hleaves.exists_spaced
    obtain ⟨events, hparse, hback⟩ := XmlHandler.checkedParse_document tagged_readers rfl hroot
      (by decide) (by decide) ignoresData_readers hspaced hleaves hplain init
    rw [readChild_nodes hconfig hself] at hback
    rw [hrender] at hparse
    exact ⟨_, events, toXml_eq_ok.mpr ⟨htyped, rfl⟩, hparse, hback⟩

/-- A `Cors` element with a time. -/
def timed : Cors := { init with cors := [[("MaxAgeSec".toList, .value "3600".toList)]] }

/-- A time comes back on the newer interpreter only. -/
theorem timed_roundTrips : timed.RoundTrips .py3 ∧ ¬timed.RoundTrips .py2 := by
  have hread : read (Node.element corsConfigTag
      [.element corsTag [.leaf "MaxAgeSec".toList " 3600 ".toList]]).events = .ok timed := by
    decide +kernel
  refine ⟨(roundTrips_iff hread).mpr ⟨by decide +kernel, ?_⟩, ?_⟩
  · intro collections _ entry _ hversion
    cases hversion
  · intro htrips
    have htyped := ((roundTrips_iff hread).mp htrips).2
    have hempty := htyped _ List.mem_cons_self _ List.mem_cons_self rfl _ rfl
    exact absurd hempty (by decide)

end Cors

end Boto.GS
