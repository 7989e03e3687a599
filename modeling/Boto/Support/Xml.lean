import Mathlib.Data.List.Basic
import Mathlib.Data.Nat.Notation

/-!
# XML documents as trees and as events

A parser reports an element by an event at its start and one at its end, and
character data in between.  A document that was laid out has white space between
elements where another one has none.
-/

namespace Xml

/-- An element, without attributes, or character data. -/
inductive Node
  | text (content : List Char)
  | element (name : List Char) (children : List Node)

/-- What a parser reports.  Character data is reported one character at a time. -/
inductive Event
  | startElement (name : List Char)
  | characters (c : Char)
  | endElement (name : List Char)
  deriving DecidableEq

mutual

/-- The events of a node. -/
def Node.events : Node → List Event
  | .text content => content.map .characters
  | .element name children =>
      .startElement name :: (Node.eventsOf children ++ [.endElement name])

/-- The events of some nodes. -/
def Node.eventsOf : List Node → List Event
  | [] => []
  | node :: nodes => node.events ++ Node.eventsOf nodes

end

/-- An element that has only character data. -/
def Node.leaf (name content : List Char) : Node :=
  .element name [.text content]

@[simp] theorem Node.eventsOf_append (nodes nodes' : List Node) :
    Node.eventsOf (nodes ++ nodes') = Node.eventsOf nodes ++ Node.eventsOf nodes' := by
  induction nodes with
  | nil => rfl
  | cons node nodes ih => simp [Node.eventsOf, ih]

theorem Node.eventsOf_element (name : List Char) (children : List Node) :
    Node.eventsOf [.element name children] =
      .startElement name :: (Node.eventsOf children ++ [.endElement name]) := by
  simp [eventsOf, events]

theorem Node.eventsOf_leaf (name content : List Char) :
    Node.eventsOf [Node.leaf name content] =
      .startElement name :: (content.map .characters ++ [.endElement name]) := by
  simp [leaf, events, eventsOf]

/-- The name of an element. -/
def nodeName : Node → Option (List Char)
  | .text _ => none
  | .element name _ => some name

/-- The names of the elements among some nodes. -/
def elementNames (nodes : List Node) : List (List Char) :=
  nodes.filterMap nodeName

/-- The character data among some nodes. -/
def contentOf : List Node → List Char
  | [] => []
  | .text content :: nodes => content ++ contentOf nodes
  | .element _ _ :: nodes => contentOf nodes

/-- The characters that XML takes for white space. -/
def isSpace (c : Char) : Bool :=
  c = ' ' || c = '\t' || c = '\n' || c = '\r'

/-- White space. -/
def IsSpace (space : List Char) : Prop :=
  ∀ c ∈ space, isSpace c = true

/-- The second list of nodes is the first one with gaps before, between and after its
elements, and within those of them that have only elements: these have one of some
names. -/
inductive Spaced (container isGap : List Char → Prop) : List Node → List Node → Prop
  | nil (space : List Char) (hspace : isGap space) :
      Spaced container isGap [] [.text space]
  | leaf {nodes spaced : List Node} (space : List Char) (hspace : isGap space)
      (name content : List Char) (hrest : Spaced container isGap nodes spaced) :
      Spaced container isGap (.leaf name content :: nodes)
        (.text space :: .leaf name content :: spaced)
  | element {nodes spaced children children' : List Node} (space : List Char)
      (hspace : isGap space) (name : List Char) (hname : container name)
      (hchildren : Spaced container isGap children children')
      (hrest : Spaced container isGap nodes spaced) :
      Spaced container isGap (.element name children :: nodes)
        (.text space :: .element name children' :: spaced)

theorem Spaced.mono {container isGap isGap' : List Char → Prop}
    (hgap : ∀ space, isGap space → isGap' space) {nodes spaced : List Node}
    (hspaced : Spaced container isGap nodes spaced) :
    Spaced container isGap' nodes spaced := by
  induction hspaced with
  | nil space hspace => exact .nil space (hgap space hspace)
  | leaf space hspace name content _ ih =>
      exact .leaf space (hgap space hspace) name content ih
  | element space hspace name hname _ _ ihchildren ihrest =>
      exact .element space (hgap space hspace) name hname ihchildren ihrest

/-- Character data that stands for a text in a document, as `xml.sax.saxutils.escape` writes
it. -/
def escape (text : List Char) : List Char :=
  text.flatMap fun c =>
    if c = '&' then "&amp;".toList
    else if c = '>' then "&gt;".toList
    else if c = '<' then "&lt;".toList
    else [c]

end Xml
