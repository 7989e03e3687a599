import Boto.Python
import Boto.Support.Xml

/-!
# Reading XML into objects

`XmlHandler` of `boto/handler.py` keeps the objects that are being read on a stack.
At the start of an element the top object may give an object for it, which is then
the top one until the end of an element with its name.  Objects are mutable and
shared, so they are given by references to one state.
-/

namespace Boto

open Xml (Event Node)

/-- The methods of the objects of a document. -/
structure Nodes (ρ σ : Type) where
  startElement : ρ → Text → σ → Option ρ × σ
  endElement : ρ → Text → Text → σ → Except PyError σ

/-- `XmlHandler`, with the last of the nodes first. -/
structure XmlHandler (ρ σ : Type) where
  nodes : List (Text × ρ)
  currentText : Text
  objects : σ

namespace XmlHandler

variable {ρ σ : Type} (methods : Nodes ρ σ)

/-- `startElement`. -/
def startElement (name : Text) (self : XmlHandler ρ σ) :
    Except PyError (XmlHandler ρ σ) :=
  match self.nodes with
  | [] => .error (.indexError "list index out of range")
  | top :: _ =>
      match methods.startElement top.2 name self.objects with
      | (none, objects) =>
          .ok { nodes := self.nodes, currentText := [], objects := objects }
      | (some newNode, objects) =>
          .ok { nodes := (name, newNode) :: self.nodes, currentText := []
                objects := objects }

/-- `endElement`.  What a method `endNode` does is part of the end of an object's own element. -/
def endElement (name : Text) (self : XmlHandler ρ σ) :
    Except PyError (XmlHandler ρ σ) :=
  match self.nodes with
  | [] => .error (.indexError "list index out of range")
  | top :: rest => do
      let objects ← methods.endElement top.2 name self.currentText self.objects
      let nodes := if top.1 = name then rest else self.nodes
      return { nodes := nodes, currentText := [], objects := objects }

/-- What an event does. -/
def step (self : XmlHandler ρ σ) : Event → Except PyError (XmlHandler ρ σ)
  | .startElement name => self.startElement methods name
  | .characters c => .ok { self with currentText := self.currentText ++ [c] }
  | .endElement name => self.endElement methods name

/-- What some events do. -/
def run (self : XmlHandler ρ σ) (events : List Event) :
    Except PyError (XmlHandler ρ σ) :=
  events.foldlM (step methods) self

/-- The objects after a document was read into `root`. -/
def parse (root : ρ) (objects : σ) (events : List Event) : Except PyError σ :=
  (run methods
    { nodes := [("root".toList, root)], currentText := [], objects := objects }
    events).map XmlHandler.objects

variable {methods}

theorem run_nil (self : XmlHandler ρ σ) : run methods self [] = .ok self := rfl

theorem run_cons (self : XmlHandler ρ σ) (event : Event) (events : List Event) :
    run methods self (event :: events) =
      step methods self event >>= fun self => run methods self events := rfl

theorem run_append (self : XmlHandler ρ σ) (events events' : List Event) :
    run methods self (events ++ events') =
      run methods self events >>= fun self => run methods self events' := by
  simp [run, List.foldlM_append]

section

variable {tag name text : Text} {top new : ρ} {rest : List (Text × ρ)}
variable {objects objects' : σ}

theorem run_start_of_none (events : List Event)
    (hstart : methods.startElement top name objects = (none, objects')) :
    run methods { nodes := (tag, top) :: rest, currentText := text, objects := objects }
        (.startElement name :: events) =
      run methods
        { nodes := (tag, top) :: rest, currentText := [], objects := objects' }
        events := by
  rw [run_cons, step, startElement]
  dsimp only
  rw [hstart]
  rfl

theorem run_start_of_some (events : List Event)
    (hstart : methods.startElement top name objects = (some new, objects')) :
    run methods { nodes := (tag, top) :: rest, currentText := text, objects := objects }
        (.startElement name :: events) =
      run methods
        { nodes := (name, new) :: (tag, top) :: rest, currentText := []
          objects := objects' } events := by
  rw [run_cons, step, startElement]
  dsimp only
  rw [hstart]
  rfl

theorem run_end
    (hend : methods.endElement top name text objects = .ok objects') :
    run methods { nodes := (tag, top) :: rest, currentText := text, objects := objects }
        [.endElement name] =
      .ok { nodes := if tag = name then rest else (tag, top) :: rest
            currentText := [], objects := objects' } := by
  rw [run_cons, step, endElement]
  simp [hend, run_nil, bind, Except.bind, pure, Except.pure]

end

theorem run_characters (self : XmlHandler ρ σ) (content : Text) :
    run methods self (content.map .characters) =
      .ok { self with currentText := self.currentText ++ content } := by
  induction content generalizing self with
  | nil => simp [run_nil]
  | cons c content ih =>
      rw [List.map_cons, run_cons]
      change run methods { self with currentText := self.currentText ++ [c] }
        (content.map .characters) = _
      rw [ih]
      simp

end XmlHandler

/-! ## What nodes do to the objects -/

open XmlHandler

/-- Some nodes, read while an object is on top for the element with the given tag,
change the objects as given. -/
def Reads {ρ σ : Type} (methods : Nodes ρ σ) (tag : Text) (top : ρ)
    (nodes : List Node) (before after : σ) : Prop :=
  ∀ rest text, ∃ text',
    run methods { nodes := (tag, top) :: rest, currentText := text, objects := before }
      (Node.eventsOf nodes) =
    .ok { nodes := (tag, top) :: rest, currentText := text', objects := after }

namespace Reads

variable {ρ σ : Type} {methods : Nodes ρ σ} {tag : Text} {top : ρ}
variable {before between after : σ}

theorem nil (methods : Nodes ρ σ) (tag : Text) (top : ρ) (objects : σ) :
    Reads methods tag top [] objects objects :=
  fun _ text => ⟨text, rfl⟩

theorem append {nodes nodes' : List Node}
    (hfirst : Reads methods tag top nodes before between)
    (hrest : Reads methods tag top nodes' between after) :
    Reads methods tag top (nodes ++ nodes') before after := by
  intro rest text
  obtain ⟨text', hfirst⟩ := hfirst rest text
  obtain ⟨text'', hrest⟩ := hrest rest text'
  refine ⟨text'', ?_⟩
  rw [Node.eventsOf_append, run_append, hfirst]
  exact hrest

theorem cons {node : Node} {nodes : List Node}
    (hfirst : Reads methods tag top [node] before between)
    (hrest : Reads methods tag top nodes between after) :
    Reads methods tag top (node :: nodes) before after :=
  hfirst.append hrest

/-- An element that has only character data. -/
theorem leaf {name content : Text} (hne : tag ≠ name)
    (hstart : methods.startElement top name before = (none, between))
    (hend : methods.endElement top name content between = .ok after) :
    Reads methods tag top [.leaf name content] before after := by
  intro rest text
  refine ⟨[], ?_⟩
  rw [Node.eventsOf_leaf, run_start_of_none _ hstart, run_append, run_characters]
  change run methods _ [.endElement name] = _
  rw [List.nil_append, run_end hend, if_neg hne]

/-- An element for which the top object gives an object. -/
theorem element {name : Text} {children : List Node} {new : ρ} {closed : σ}
    (hstart : methods.startElement top name before = (some new, between))
    (hchildren : Reads methods name new children between after)
    (hend : ∀ text, methods.endElement new name text after = .ok closed) :
    Reads methods tag top [.element name children] before closed := by
  intro rest text
  refine ⟨[], ?_⟩
  obtain ⟨text', hchildren⟩ := hchildren ((tag, top) :: rest) []
  rw [Node.eventsOf_element, run_start_of_some _ hstart, run_append, hchildren]
  change run methods _ [.endElement name] = _
  rw [run_end (hend text'), if_pos rfl]

/-- An element whose children are read by the top object. -/
theorem skipped {name : Text} {children : List Node} {closed : σ} (hne : tag ≠ name)
    (hstart : methods.startElement top name before = (none, between))
    (hchildren : Reads methods tag top children between after)
    (hend : ∀ text, methods.endElement top name text after = .ok closed) :
    Reads methods tag top [.element name children] before closed := by
  intro rest text
  refine ⟨[], ?_⟩
  obtain ⟨text', hchildren⟩ := hchildren rest []
  rw [Node.eventsOf_element, run_start_of_none _ hstart, run_append, hchildren]
  change run methods _ [.endElement name] = _
  rw [run_end (hend text'), if_neg hne]

/-- Elements with character data that are collected one after the other. -/
theorem leaves {name : Text} {objects : List Text → σ} (hne : tag ≠ name)
    (hstart : ∀ values,
      methods.startElement top name (objects values) = (none, objects values))
    (hend : ∀ values value, methods.endElement top name value (objects values) =
      .ok (objects (values ++ [value]))) (values values' : List Text) :
    Reads methods tag top (values'.map (Node.leaf name)) (objects values)
      (objects (values ++ values')) := by
  induction values' generalizing values with
  | nil =>
      rw [List.append_nil]
      exact nil methods tag top _
  | cons value values' ih =>
      have hrest := ih (values ++ [value])
      rw [List.append_assoc] at hrest
      exact cons (leaf hne (hstart values) (hend values value)) hrest

/-- Items that are read one after the other. -/
theorem items {α : Type} {node : α → Node} {objects : List α → σ}
    (hone : ∀ done x, Reads methods tag top [node x] (objects done) (objects (done ++ [x])))
    (done xs : List α) :
    Reads methods tag top (xs.map node) (objects done) (objects (done ++ xs)) := by
  induction xs generalizing done with
  | nil =>
      rw [List.append_nil]
      exact nil methods tag top _
  | cons x xs ih =>
      have hrest := ih (done ++ [x])
      rw [List.append_assoc] at hrest
      exact cons (hone done x) hrest

/-- Reading a whole document. -/
theorem parse {root : ρ} {node : Node}
    (hread : Reads methods "root".toList root [node] before after) :
    XmlHandler.parse methods root before node.events = .ok after := by
  obtain ⟨text, hrun⟩ := hread [] []
  have hevents : Node.eventsOf [node] = node.events := by simp [Node.eventsOf]
  rw [hevents] at hrun
  rw [XmlHandler.parse, hrun]
  rfl

end Reads

/-! ## White space between elements -/

namespace XmlHandler

variable {ρ σ : Type} {methods : Nodes ρ σ} {container isGap : Text → Prop}
  {self self' between : XmlHandler ρ σ} {name text : Text} {events : List Event}

/-- The ends of containers do not depend on character data. -/
def IgnoresData (methods : Nodes ρ σ) (container : Text → Prop) : Prop :=
  ∀ top name text text' objects, container name →
    methods.endElement top name text objects = methods.endElement top name text' objects

/-- A handler with other character data since the last tag. -/
def withText (text : Text) (self : XmlHandler ρ σ) : XmlHandler ρ σ :=
  { self with currentText := text }

theorem run_start_withText (text : Text) :
    run methods (self.withText text) (.startElement name :: events) =
      run methods self (.startElement name :: events) := rfl

theorem run_characters_append (content : Text) :
    run methods self (content.map .characters ++ events) =
      run methods (self.withText (self.currentText ++ content)) events := by
  rw [run_append, run_characters]
  rfl

theorem run_append_eq_ok {events' : List Event}
    (hrun : run methods self (events ++ events') = .ok self') :
    ∃ between, run methods self events = .ok between ∧
      run methods between events' = .ok self' := by
  rw [run_append] at hrun
  exact except_bind_eq_ok.mp hrun

theorem run_end_withText (hignores : IgnoresData methods container) (hname : container name)
    (text : Text) :
    run methods (self.withText text) (.endElement name :: events) =
      run methods self (.endElement name :: events) := by
  have hstep : step methods (self.withText text) (.endElement name) =
      step methods self (.endElement name) := by
    obtain ⟨nodes, current, objects⟩ := self
    cases nodes with
    | nil => rfl
    | cons top rest =>
        rw [step, step, endElement, endElement]
        dsimp only [withText]
        rw [hignores top.2 name text current objects hname]
  rw [run_cons, run_cons, hstep]

/-- Gaps between elements change nothing. -/
theorem run_spaced (hignores : IgnoresData methods container) {nodes spaced : List Node}
    (hspaced : Xml.Spaced container isGap nodes spaced)
    (hrun : run methods self (Node.eventsOf nodes) = .ok self') (text : Text) :
    ∃ text', run methods (self.withText text) (Node.eventsOf spaced) =
      .ok (self'.withText text') := by
  induction hspaced generalizing self self' text with
  | nil space _ =>
      cases hrun
      refine ⟨text ++ space, ?_⟩
      have hevents : Node.eventsOf [.text space] = space.map .characters ++ [] := by
        rw [Node.eventsOf, Node.events, Node.eventsOf]
      rw [hevents, run_characters_append]
      rfl
  | @leaf nodes spaced space _ name content _ ih =>
      have hnodes : Node.eventsOf (.leaf name content :: nodes) =
          (.startElement name :: (content.map .characters ++ [.endElement name])) ++
            Node.eventsOf nodes := by
        rw [← Node.eventsOf_leaf, ← Node.eventsOf_append]
        rfl
      have hevents : Node.eventsOf (.text space :: .leaf name content :: spaced) =
          space.map .characters ++
            ((.startElement name :: (content.map .characters ++ [.endElement name])) ++
              Node.eventsOf spaced) := by
        rw [← Node.eventsOf_leaf, ← Node.eventsOf_append, Node.eventsOf, Node.events]
        rfl
      rw [hnodes] at hrun
      obtain ⟨between, hfirst, hrest⟩ := run_append_eq_ok hrun
      obtain ⟨text', htext⟩ := ih hrest between.currentText
      refine ⟨text', ?_⟩
      rw [hevents, run_characters_append, run_append]
      change (run methods (self.withText _) _ >>= _) = _
      rw [run_start_withText, hfirst]
      exact htext
  | @element nodes spaced children children' space _ name hname _ _ ihchildren ih =>
      have hnodes : Node.eventsOf (.element name children :: nodes) =
          .startElement name :: (Node.eventsOf children ++
            (.endElement name :: Node.eventsOf nodes)) := by
        rw [Node.eventsOf, Node.events, List.cons_append, List.append_assoc]
        rfl
      have hevents : Node.eventsOf (.text space :: .element name children' :: spaced) =
          space.map .characters ++ (.startElement name :: (Node.eventsOf children' ++
            (.endElement name :: Node.eventsOf spaced))) := by
        rw [Node.eventsOf, Node.eventsOf, Node.events, Node.events, List.cons_append,
          List.append_assoc]
        rfl
      rw [hnodes, run_cons] at hrun
      obtain ⟨started, hstart, hrun⟩ := except_bind_eq_ok.mp hrun
      obtain ⟨inside, hinside, hrun⟩ := run_append_eq_ok hrun
      rw [run_cons] at hrun
      obtain ⟨ended, hend, hrest⟩ := except_bind_eq_ok.mp hrun
      obtain ⟨text₁, hchildren⟩ := ihchildren hinside started.currentText
      obtain ⟨text₂, hafter⟩ := ih hrest ended.currentText
      refine ⟨text₂, ?_⟩
      have hended : run methods (inside.withText text₁)
          (.endElement name :: Node.eventsOf spaced) = run methods ended (Node.eventsOf spaced) := by
        rw [run_end_withText hignores hname, run_cons, hend]
        rfl
      have hstarted : run methods self (.startElement name :: (Node.eventsOf children' ++
          (.endElement name :: Node.eventsOf spaced))) =
            run methods started (Node.eventsOf children' ++
              (.endElement name :: Node.eventsOf spaced)) := by
        rw [run_cons, hstart]
        rfl
      rw [hevents, run_characters_append]
      change run methods (self.withText _) _ = _
      rw [run_start_withText, hstarted, run_append]
      change (run methods (started.withText started.currentText) _ >>= _) = _
      rw [hchildren]
      change run methods (inside.withText text₁) _ = _
      rw [hended]
      exact hafter

end XmlHandler

end Boto
