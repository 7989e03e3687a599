import Boto.HandlerWeight
import Boto.Support.XmlReading

/-!
# Reading XML into objects that may refuse it

`XmlHandler` of `boto/handler.py` over objects whose methods raise errors of their own at
the start as well as at the end of an element.  When every object is on the stack under the
name of the element that it was given for, and reads no element of that name itself, the
stack follows the tree.  What was written plainly is then read from the tree, and what such
objects take from a document is what they would take if they refused nothing.
-/

namespace Boto

open Xml (Event Node Readers)

/-- What the reading of a document raises: an error of the interpreter, or one by which an
object refuses the document. -/
inductive ReadError (ε : Type)
  | python (error : PyError)
  | refused (error : ε)
  deriving DecidableEq

namespace XmlHandler

variable {ρ σ ε : Type} (readers : Readers ρ σ ε)

/-- `startElement`. -/
def checkedStart (name : Text) (self : XmlHandler ρ σ) :
    Except (ReadError ε) (XmlHandler ρ σ) :=
  match self.nodes with
  | [] => .error (.python (.indexError "list index out of range"))
  | top :: _ =>
      match readers.startElement top.2 name self.objects with
      | .error e => .error (.refused e)
      | .ok (none, objects) =>
          .ok { nodes := self.nodes, currentText := [], objects := objects }
      | .ok (some newNode, objects) =>
          .ok { nodes := (name, newNode) :: self.nodes, currentText := []
                objects := objects }

/-- `endElement`. -/
def checkedEnd (name : Text) (self : XmlHandler ρ σ) :
    Except (ReadError ε) (XmlHandler ρ σ) :=
  match self.nodes with
  | [] => .error (.python (.indexError "list index out of range"))
  | top :: rest =>
      match readers.endElement top.2 name self.currentText self.objects with
      | .error e => .error (.refused e)
      | .ok objects =>
          .ok { nodes := if top.1 = name then rest else self.nodes, currentText := []
                objects := objects }

/-- What an event does. -/
def checkedStep (self : XmlHandler ρ σ) : Event → Except (ReadError ε) (XmlHandler ρ σ)
  | .startElement name => self.checkedStart readers name
  | .characters c => .ok { self with currentText := self.currentText ++ [c] }
  | .endElement name => self.checkedEnd readers name

/-- What some events do. -/
def checkedRun (self : XmlHandler ρ σ) (events : List Event) :
    Except (ReadError ε) (XmlHandler ρ σ) :=
  events.foldlM (checkedStep readers) self

/-- The objects after a document was read into `root`. -/
def checkedParse (root : ρ) (objects : σ) (events : List Event) : Except (ReadError ε) σ :=
  (checkedRun readers
    { nodes := [("root".toList, root)], currentText := [], objects := objects }
    events).map XmlHandler.objects

/-- Every object is given for elements of one name, and reads none of them itself. -/
structure Tagged (tagOf : ρ → Text) : Prop where
  given : ∀ top name objects new objects',
    readers.startElement top name objects = .ok (some new, objects') → tagOf new = name
  own : ∀ top objects objects',
    readers.startElement top (tagOf top) objects ≠ .ok (none, objects')

variable {readers} {tagOf : ρ → Text} {top : ρ} {rest : List (Text × ρ)} {name text : Text}
  {objects objects' : σ}

theorem checkedRun_cons (self : XmlHandler ρ σ) (event : Event) (events : List Event) :
    checkedRun readers self (event :: events) =
      (checkedStep readers self event).bind fun self => checkedRun readers self events := rfl

theorem checkedRun_characters (self : XmlHandler ρ σ) (content : Text)
    (later : List Event) :
    checkedRun readers self (content.map .characters ++ later) =
      checkedRun readers { self with currentText := self.currentText ++ content } later := by
  induction content generalizing self with
  | nil => rw [List.append_nil]; rfl
  | cons c content ih =>
      rw [List.map_cons, List.cons_append, checkedRun_cons]
      change checkedRun readers { self with currentText := self.currentText ++ [c] } _ = _
      rw [ih, List.append_assoc]
      rfl

/-- What an object makes of a node, before what follows it. -/
def thenRun (readers : Readers ρ σ ε) (stack : List (Text × ρ)) (later : List Event)
    (read : Except ε (Text × σ)) : Except (ReadError ε) (XmlHandler ρ σ) :=
  (read.mapError .refused).bind fun read =>
    checkedRun readers { nodes := stack, currentText := read.1, objects := read.2 } later

/-- The end of an element that an object was given for. -/
theorem checkedRun_end_given {new : ρ} (later : List Event) :
    checkedRun readers
        { nodes := (name, new) :: rest, currentText := text, objects := objects }
        (.endElement name :: later) =
      thenRun readers rest later
        ((readers.endElement new name text objects).map fun objects => ([], objects)) := by
  rw [checkedRun_cons, checkedStep, checkedEnd, thenRun]
  dsimp only
  cases readers.endElement new name text objects with
  | error e => rfl
  | ok objects => simp [Except.bind, Except.map, Except.mapError]

/-- The end of an element that an object reads itself. -/
theorem checkedRun_end_own (hne : tagOf top ≠ name) (later : List Event) :
    checkedRun readers
        { nodes := (tagOf top, top) :: rest, currentText := text, objects := objects }
        (.endElement name :: later) =
      thenRun readers ((tagOf top, top) :: rest) later
        ((readers.endElement top name text objects).map fun objects => ([], objects)) := by
  rw [checkedRun_cons, checkedStep, checkedEnd, thenRun]
  dsimp only
  cases readers.endElement top name text objects with
  | error e => rfl
  | ok objects => simp [Except.bind, Except.map, Except.mapError, hne]

mutual

/-- The events of a node do what the object on top makes of the node. -/
theorem checkedRun_events (htagged : Tagged readers tagOf) (node : Node) (top : ρ)
    (rest : List (Text × ρ)) (text : Text) (objects : σ) (later : List Event) :
    checkedRun readers
        { nodes := (tagOf top, top) :: rest, currentText := text, objects := objects }
        (node.events ++ later) =
      thenRun readers ((tagOf top, top) :: rest) later
        (Xml.readNode readers top node text objects) := by
  match node with
  | .text content =>
      rw [Node.events, checkedRun_characters]
      rfl
  | .element name inner =>
      rw [Node.events, List.cons_append, List.append_assoc, checkedRun_cons, checkedStep,
        checkedStart, Xml.readNode_element, Xml.readChild]
      dsimp only
      cases hstart : readers.startElement top name objects with
      | error e => rfl
      | ok started =>
          obtain ⟨new, started⟩ := started
          cases new with
          | none =>
              have hne : tagOf top ≠ name := by
                rintro rfl
                exact htagged.own top objects started hstart
              have hinner := checkedRun_eventsOf htagged inner top rest [] started
                (.endElement name :: later)
              change checkedRun readers _ _ = _
              rw [List.singleton_append, hinner, thenRun]
              dsimp only [Option.getD_none, bind, Except.bind]
              cases Xml.readNodes readers top inner [] started with
              | error e => rfl
              | ok read => exact checkedRun_end_own hne later
          | some new =>
              obtain rfl := htagged.given top name objects new started hstart
              have hinner := checkedRun_eventsOf htagged inner new
                ((tagOf top, top) :: rest) [] started (.endElement (tagOf new) :: later)
              change checkedRun readers _ _ = _
              rw [List.singleton_append, hinner, thenRun]
              dsimp only [Option.getD_some, bind, Except.bind]
              cases Xml.readNodes readers new inner [] started with
              | error e => rfl
              | ok read => exact checkedRun_end_given later

/-- The events of some nodes do what the object on top makes of the nodes. -/
theorem checkedRun_eventsOf (htagged : Tagged readers tagOf) (nodes : List Node) (top : ρ)
    (rest : List (Text × ρ)) (text : Text) (objects : σ) (later : List Event) :
    checkedRun readers
        { nodes := (tagOf top, top) :: rest, currentText := text, objects := objects }
        (Node.eventsOf nodes ++ later) =
      thenRun readers ((tagOf top, top) :: rest) later
        (Xml.readNodes readers top nodes text objects) := by
  match nodes with
  | [] => rfl
  | node :: nodes =>
      rw [Node.eventsOf, List.append_assoc, checkedRun_events htagged node, thenRun,
        Xml.readNodes]
      cases Xml.readNode readers top node text objects with
      | error e => rfl
      | ok read => exact checkedRun_eventsOf htagged nodes top rest read.1 read.2 later

end

/-- Reading a document is what the root object makes of its root element. -/
theorem checkedParse_element (htagged : Tagged readers tagOf) {root : ρ}
    (hroot : tagOf root = "root".toList) (name : Text) (inner : List Node) (objects : σ) :
    checkedParse readers root objects (Node.element name inner).events =
      (Xml.readChild readers root (name, inner) objects).mapError .refused := by
  have hevents := checkedRun_events htagged (.element name inner) root [] [] objects []
  rw [hroot, List.append_nil, Xml.readNode_element, thenRun] at hevents
  rw [checkedParse, hevents]
  cases Xml.readChild readers root (name, inner) objects with
  | error e => rfl
  | ok objects => rfl

/-! ## Documents -/

/-- What is read of the document of some plain elements is what is made of these. -/
theorem checkedParse_document {container : Text → Prop} {prolog tag : Text}
    {nodes spaced : List Node} {texts : List Text} {root : ρ} (htagged : Tagged readers tagOf)
    (hrootTag : tagOf root = "root".toList) (hroot : Xml.IsRoot prolog tag name)
    (hname : Xml.isWord name = true) (hcontainer : container name)
    (hend : ∀ top name text text' objects, container name →
      readers.endElement top name text objects = readers.endElement top name text' objects)
    (hspaced : Xml.Spaced container Xml.IsSpace nodes spaced)
    (hleaves : Xml.Leaves container nodes texts)
    (hplain : ∀ text ∈ texts, Xml.isPlain text = true) (objects : σ) :
    ∃ events, Xml.parse (Xml.document prolog tag name (Node.renderOf spaced)) = some events ∧
      checkedParse readers root objects events =
        (Xml.readChild readers root (name, nodes) objects).mapError .refused := by
  obtain ⟨spaced', hclean, hparse⟩ := Xml.parse_spaced hroot hname hspaced hleaves hplain
  refine ⟨_, hparse, ?_⟩
  have hevents : Node.eventsOf [.element name spaced'] = (Node.element name spaced').events := by
    simp [Node.eventsOf]
  rw [hevents, checkedParse_element htagged hrootTag]
  congr 1
  exact Xml.readChild_congr
    (fun top text text' objects => hend top name text text' objects hcontainer)
    (Xml.readChildren_spaced hend hclean)

/-- The methods of the same objects if they refused nothing. -/
def unrefused (readers : Readers ρ σ ε) : Nodes ρ σ where
  startElement top name objects :=
    match readers.startElement top name objects with
    | .ok started => started
    | .error _ => (none, objects)
  endElement top name text objects :=
    match readers.endElement top name text objects with
    | .ok objects => .ok objects
    | .error _ => .ok objects

theorem step_unrefused {self self' : XmlHandler ρ σ} {event : Event}
    (hstep : checkedStep readers self event = .ok self') :
    step (unrefused readers) self event = .ok self' := by
  cases event with
  | startElement name =>
      rw [checkedStep, checkedStart] at hstep
      rw [step, startElement]
      cases hnodes : self.nodes with
      | nil => rw [hnodes] at hstep; cases hstep
      | cons top rest =>
          simp only [hnodes] at hstep
          dsimp only [unrefused]
          cases hstart : readers.startElement top.2 name self.objects with
          | error e => rw [hstart] at hstep; cases hstep
          | ok started =>
              obtain ⟨new, objects⟩ := started
              rw [hstart] at hstep
              cases new with
              | none => exact congrArg _ (Except.ok.inj hstep)
              | some new => exact congrArg _ (Except.ok.inj hstep)
  | characters c => exact congrArg _ (Except.ok.inj hstep)
  | endElement name =>
      rw [checkedStep, checkedEnd] at hstep
      rw [step, endElement]
      cases hnodes : self.nodes with
      | nil => rw [hnodes] at hstep; cases hstep
      | cons top rest =>
          simp only [hnodes] at hstep
          dsimp only [unrefused]
          cases hend : readers.endElement top.2 name self.currentText self.objects with
          | error e => rw [hend] at hstep; cases hstep
          | ok objects =>
              rw [hend] at hstep
              exact congrArg _ (Except.ok.inj hstep)

/-- A document that is not refused is read in the same way by objects that refuse nothing. -/
theorem parse_unrefused {root : ρ} {events : List Event}
    (hread : checkedParse readers root objects events = .ok objects') :
    parse (unrefused readers) root objects events = .ok objects' := by
  obtain ⟨self', hrun, rfl⟩ := exists_of_map_eq_ok hread
  have hsame : ∀ (events : List Event) (self : XmlHandler ρ σ),
      checkedRun readers self events = .ok self' →
        run (unrefused readers) self events = .ok self' := by
    intro events
    induction events with
    | nil => exact fun self hrun => congrArg _ (Except.ok.inj hrun)
    | cons event events ih =>
        intro self hrun
        obtain ⟨between, hstep, hrest⟩ := except_bind_eq_ok.mp hrun
        rw [run_cons, step_unrefused hstep]
        exact ih between hrest
  rw [parse, hsame events _ hrun]
  rfl

end XmlHandler

end Boto
