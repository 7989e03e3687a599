import Boto.Support.Xml
import Mathlib.Tactic.Common

/-!
# Reading a tree into objects that may refuse it

The object that reads the content of an element is told of the start and the end of every
child, and may refuse either.  For a child it may give another object, which then reads
the content of the child.  Reading is followed along the tree: what counts of an element
is its children that are elements, and its character data if it has none.
-/

namespace Xml

/-- The methods of the objects of a document. -/
structure Readers (ρ σ ε : Type) where
  startElement : ρ → List Char → σ → Except ε (Option ρ × σ)
  endElement : ρ → List Char → List Char → σ → Except ε σ

/-- A child that is an element, with its name and its content. -/
abbrev Child := List Char × List Node

/-- The children that are elements. -/
def children : List Node → List Child
  | [] => []
  | .text _ :: nodes => children nodes
  | .element name inner :: nodes => (name, inner) :: children nodes

/-- The character data between the children. -/
def data : List Node → List Char
  | [] => []
  | .text content :: nodes => content ++ data nodes
  | .element _ _ :: nodes => data nodes

theorem children_map {α : Type} (child : α → Child) (xs : List α) :
    children (xs.map fun x => .element (child x).1 (child x).2) = xs.map child := by
  induction xs with
  | nil => rfl
  | cons x xs ih => rw [List.map_cons, children, ih, List.map_cons]

variable {ρ σ τ ε : Type} (readers : Readers ρ σ ε)

mutual

/-- What a node does to the character data since the last tag and to the objects, while an
object reads. -/
def readNode (top : ρ) : Node → List Char → σ → Except ε (List Char × σ)
  | .text content, text, objects => .ok (text ++ content, objects)
  | .element name inner, _, objects => do
      let (new, objects) ← readers.startElement top name objects
      let (text, objects) ← readNodes (new.getD top) inner [] objects
      let objects ← readers.endElement (new.getD top) name text objects
      return ([], objects)

/-- What some nodes do. -/
def readNodes (top : ρ) : List Node → List Char → σ → Except ε (List Char × σ)
  | [], text, objects => .ok (text, objects)
  | node :: nodes, text, objects => do
      let (text, objects) ← readNode top node text objects
      readNodes top nodes text objects

end

/-- What a child does to the objects. -/
def readChild (top : ρ) (child : Child) (objects : σ) : Except ε σ := do
  let (new, objects) ← readers.startElement top child.1 objects
  let (text, objects) ← readNodes readers (new.getD top) child.2 [] objects
  readers.endElement (new.getD top) child.1 text objects

/-- What some children do. -/
def readChildren (top : ρ) : List Child → σ → Except ε σ
  | [], objects => .ok objects
  | child :: rest, objects => do
      let objects ← readChild readers top child objects
      readChildren top rest objects

variable {readers} {top new : ρ} {text name : List Char} {objects objects' : σ}
  {nodes : List Node} {child : Child} {rest : List Child}

theorem readNode_element (inner : List Node) :
    readNode readers top (.element name inner) text objects =
      (readChild readers top (name, inner) objects).map fun objects => ([], objects) := by
  rw [readNode, readChild]
  cases readers.startElement top name objects with
  | error e => rfl
  | ok started =>
      obtain ⟨new, objects⟩ := started
      dsimp only [bind, Except.bind]
      cases readNodes readers (new.getD top) inner [] objects with
      | error e => rfl
      | ok read => rfl

/-- The objects after some nodes are those after the children among them. -/
theorem readNodes_map_snd :
    (readNodes readers top nodes text objects).map Prod.snd =
      readChildren readers top (children nodes) objects := by
  induction nodes generalizing text objects with
  | nil => rfl
  | cons node nodes ih =>
      cases node with
      | text content => exact ih
      | element name inner =>
          rw [readNodes, readNode_element, children, readChildren]
          cases readChild readers top (name, inner) objects with
          | error e => rfl
          | ok objects => exact ih

/-- Nodes without children only add character data. -/
theorem readNodes_of_no_children (hnone : children nodes = []) :
    readNodes readers top nodes text objects = .ok (text ++ data nodes, objects) := by
  induction nodes generalizing text with
  | nil => rw [readNodes, data, List.append_nil]
  | cons node nodes ih =>
      cases node with
      | text content =>
          change readNodes readers top nodes (text ++ content) objects = _
          rw [ih hnone, data, List.append_assoc]
      | element name inner => cases hnone

theorem readChildren_cons_eq_ok :
    readChildren readers top (child :: rest) objects = .ok objects' ↔
      ∃ between, readChild readers top child objects = .ok between ∧
        readChildren readers top rest between = .ok objects' := by
  rw [readChildren]
  cases readChild readers top child objects with
  | error e => simp [bind, Except.bind]
  | ok between => simp [bind, Except.bind]

theorem readChild_eq_ok :
    readChild readers top child objects = .ok objects' ↔
      ∃ new started text read,
        readers.startElement top child.1 objects = .ok (new, started) ∧
        readNodes readers (new.getD top) child.2 [] started = .ok (text, read) ∧
        readers.endElement (new.getD top) child.1 text read = .ok objects' := by
  rw [readChild]
  cases readers.startElement top child.1 objects with
  | error e => simp [bind, Except.bind]
  | ok started =>
      obtain ⟨new, started⟩ := started
      dsimp only [bind, Except.bind]
      cases hread : readNodes readers (new.getD top) child.2 [] started with
      | error e => simp [hread]
      | ok read =>
          obtain ⟨text, read⟩ := read
          simp [hread]

theorem readNodes_eq_ok :
    (∃ text', readNodes readers top nodes text objects = .ok (text', objects')) ↔
      readChildren readers top (children nodes) objects = .ok objects' := by
  rw [← @readNodes_map_snd _ _ _ readers top text objects nodes]
  cases readNodes readers top nodes text objects with
  | error e => simp [Except.map]
  | ok read =>
      obtain ⟨text', read⟩ := read
      simp [Except.map]

/-- An element whose end does not depend on its character data. -/
theorem readChild_container
    (hend : ∀ new text objects, readers.endElement new child.1 text objects =
      readers.endElement new child.1 [] objects) :
    readChild readers top child objects = .ok objects' ↔
      ∃ new started read,
        readers.startElement top child.1 objects = .ok (new, started) ∧
        readChildren readers (new.getD top) (children child.2) started = .ok read ∧
        readers.endElement (new.getD top) child.1 [] read = .ok objects' := by
  rw [readChild_eq_ok]
  constructor
  · rintro ⟨new, started, text, read, hstart, hread, hclose⟩
    refine ⟨new, started, read, hstart, readNodes_eq_ok.mp ⟨text, hread⟩, ?_⟩
    rw [← hclose, hend _ text]
  · rintro ⟨new, started, read, hstart, hread, hclose⟩
    obtain ⟨text, hread⟩ := (@readNodes_eq_ok _ _ _ readers _ [] _ _ _).mpr hread
    exact ⟨new, started, text, read, hstart, hread, by rw [← hclose, hend _ text]⟩

/-- An element in which every child is refused. -/
theorem readChild_leaf
    (hrefused : ∀ new started, readers.startElement top child.1 objects = .ok (new, started) →
      ∀ inner read, readChild readers (new.getD top) inner started ≠ .ok read) :
    readChild readers top child objects = .ok objects' ↔
      children child.2 = [] ∧ ∃ new started,
        readers.startElement top child.1 objects = .ok (new, started) ∧
        readers.endElement (new.getD top) child.1 (data child.2) started = .ok objects' := by
  rw [readChild_eq_ok]
  constructor
  · rintro ⟨new, started, text, read, hstart, hread, hclose⟩
    have hnone : children child.2 = [] := by
      have hchildren := readNodes_eq_ok.mp ⟨text, hread⟩
      cases hinner : children child.2 with
      | nil => rfl
      | cons inner rest =>
          rw [hinner] at hchildren
          obtain ⟨between, hinner, -⟩ := readChildren_cons_eq_ok.mp hchildren
          exact absurd hinner (hrefused new started hstart inner between)
    rw [readNodes_of_no_children hnone] at hread
    obtain ⟨rfl, rfl⟩ := Prod.mk.inj (Except.ok.inj hread)
    exact ⟨hnone, new, started, hstart, hclose⟩
  · rintro ⟨hnone, new, started, hstart, hclose⟩
    exact ⟨new, started, _, _, hstart, readNodes_of_no_children hnone, hclose⟩

/-- Every child is accepted by what the children before it have made. -/
def Accepts {τ : Type} (accepted : τ → Child → Prop) (add : τ → Child → τ) :
    τ → List Child → Prop
  | _, [] => True
  | before, child :: rest => accepted before child ∧ Accepts accepted add (add before child) rest

theorem accepts_append {τ : Type} {accepted : τ → Child → Prop} {add : τ → Child → τ}
    {before : τ} {first rest : List Child} :
    Accepts accepted add before (first ++ rest) ↔
      Accepts accepted add before first ∧ Accepts accepted add (first.foldl add before) rest := by
  induction first generalizing before with
  | nil => exact (and_iff_right trivial).symm
  | cons child first ih =>
      rw [List.cons_append, Accepts, Accepts, ih, List.foldl_cons, and_assoc]

/-- Children that are accepted one after the other. -/
theorem readChildren_accepted {τ : Type} {accepted : τ → Child → Prop} {add : τ → Child → τ}
    {objects : τ → σ} {before : τ} {children : List Child}
    (hone : ∀ before child objects',
      readChild readers top child (objects before) = .ok objects' ↔
        accepted before child ∧ objects' = objects (add before child)) :
    readChildren readers top children (objects before) = .ok objects' ↔
      Accepts accepted add before children ∧ objects' = objects (children.foldl add before) := by
  induction children generalizing before with
  | nil => simp [readChildren, Accepts, eq_comm]
  | cons child children ih =>
      rw [readChildren_cons_eq_ok, Accepts, List.foldl_cons]
      constructor
      · rintro ⟨between, hread, hrest⟩
        obtain ⟨hchild, rfl⟩ := (hone before child between).mp hread
        obtain ⟨hchildren, heq⟩ := ih.mp hrest
        exact ⟨⟨hchild, hchildren⟩, heq⟩
      · rintro ⟨⟨hchild, hchildren⟩, heq⟩
        exact ⟨_, (hone before child _).mpr ⟨hchild, rfl⟩, ih.mpr ⟨hchildren, heq⟩⟩

/-- Children of one kind that are collected one after the other. -/
theorem readChildren_collected {α : Type} {accepted : Child → Prop} {value : Child → α}
    {objects : List α → σ} {before : List α} {children : List Child}
    (hone : ∀ before child objects',
      readChild readers top child (objects before) = .ok objects' ↔
        accepted child ∧ objects' = objects (before ++ [value child])) :
    readChildren readers top children (objects before) = .ok objects' ↔
      (∀ child ∈ children, accepted child) ∧
        objects' = objects (before ++ children.map value) := by
  rw [readChildren_accepted hone]
  induction children generalizing before with
  | nil => simp [Accepts]
  | cons child children ih =>
      simpa [Accepts, and_assoc] using fun _ => @ih (before ++ [value child])

/-! ## What may be raised -/

/-- A block gives one of some values, or raises one of some errors. -/
def Meets {α : Type} (kept : α → Prop) (raised : ε → Prop) : Except ε α → Prop
  | .ok a => kept a
  | .error e => raised e

namespace Meets

variable {α β : Type} {kept : α → Prop} {kept' : β → Prop} {raised : ε → Prop} {x y : Except ε α}

theorem bind {f : α → Except ε β} (hx : Meets kept raised x)
    (hf : ∀ a, kept a → Meets kept' raised (f a)) : Meets kept' raised (x >>= f) := by
  cases x with
  | error e => exact hx
  | ok a => exact hf a hx

theorem map {f : α → β} (hx : Meets kept raised x) (hf : ∀ a, kept a → kept' (f a)) :
    Meets kept' raised (x.map f) := by
  cases x with
  | error e => exact hx
  | ok a => exact hf a hx

theorem imp {kept' : α → Prop} (hx : Meets kept raised x) (hkept : ∀ a, kept a → kept' a) :
    Meets kept' raised x := by
  cases x with
  | error e => exact hx
  | ok a => exact hkept a hx

theorem ite {p : Prop} [Decidable p] (hx : p → Meets kept raised x)
    (hy : ¬p → Meets kept raised y) : Meets kept raised (if p then x else y) := by
  split
  · rename_i hp
    exact hx hp
  · rename_i hp
    exact hy hp

end Meets

/-- The invariant holds, and all objects that were present still are. -/
def Keeps (invariant : σ → Prop) (present : ρ → σ → Prop) (objects objects' : σ) : Prop :=
  invariant objects' ∧ ∀ r, present r objects → present r objects'

/-- Steps of the objects that are present keep an invariant and all objects that are present,
and raise nothing but the given errors. -/
structure Safe (readers : Readers ρ σ ε) (invariant : σ → Prop) (present : ρ → σ → Prop)
    (raised : ε → Prop) : Prop where
  start : ∀ top name objects, invariant objects → present top objects →
    Meets (fun started => present (started.1.getD top) started.2 ∧
      Keeps invariant present objects started.2) raised (readers.startElement top name objects)
  finish : ∀ top name text objects, invariant objects → present top objects →
    Meets (Keeps invariant present objects) raised (readers.endElement top name text objects)

section

variable {invariant : σ → Prop} {present : ρ → σ → Prop} {raised : ε → Prop}

mutual

theorem readNode_safe (hsafe : Safe readers invariant present raised) (node : Node) (top : ρ)
    (text : List Char) (objects : σ) (hinvariant : invariant objects)
    (hpresent : present top objects) :
    Meets (fun read => Keeps invariant present objects read.2) raised
      (readNode readers top node text objects) := by
  match node with
  | .text content => exact ⟨hinvariant, fun r hr => hr⟩
  | .element name inner =>
      rw [readNode]
      refine (hsafe.start top name objects hinvariant hpresent).bind ?_
      rintro ⟨new, started⟩ ⟨hnew, hstarted, hkept⟩
      refine (readNodes_safe hsafe inner (new.getD top) [] started hstarted hnew).bind ?_
      rintro ⟨text', read⟩ ⟨hinside, hkeptInside⟩
      refine (hsafe.finish _ name text' read hinside (hkeptInside _ hnew)).bind ?_
      rintro closed ⟨hclosed, hkeptClosed⟩
      exact ⟨hclosed, fun r hr => hkeptClosed r (hkeptInside r (hkept r hr))⟩

theorem readNodes_safe (hsafe : Safe readers invariant present raised) (nodes : List Node)
    (top : ρ) (text : List Char) (objects : σ) (hinvariant : invariant objects)
    (hpresent : present top objects) :
    Meets (fun read => Keeps invariant present objects read.2) raised
      (readNodes readers top nodes text objects) := by
  match nodes with
  | [] => exact ⟨hinvariant, fun r hr => hr⟩
  | node :: nodes =>
      rw [readNodes]
      refine (readNode_safe hsafe node top text objects hinvariant hpresent).bind ?_
      rintro ⟨text', read⟩ ⟨hinside, hkept⟩
      refine (readNodes_safe hsafe nodes top text' read hinside (hkept top hpresent)).imp ?_
      exact fun last hlast => ⟨hlast.1, fun r hr => hlast.2 r (hkept r hr)⟩

end

/-- Reading a child raises nothing but the given errors. -/
theorem raised_of_readChild (hsafe : Safe readers invariant present raised)
    (hinvariant : invariant objects) (hpresent : present top objects) {e : ε}
    (herror : readChild readers top (name, nodes) objects = .error e) : raised e := by
  have hnode := readNode_safe hsafe (.element name nodes) top [] objects hinvariant hpresent
  rw [readNode_element, herror] at hnode
  exact hnode

end

/-! ## An object among others -/

section

variable {sub : Readers ρ τ ε} {outer : Readers ρ σ ε} {outside : τ → σ} {r : ρ}

mutual

/-- An object that reads its elements itself reads a node as if it were alone. -/
theorem readNode_embed
    (hstart : ∀ name x, outer.startElement r name (outside x) =
      (sub.startElement r name x).map fun started => (none, outside started.2))
    (hown : ∀ name x started, sub.startElement r name x = .ok started → started.1 = none)
    (hend : ∀ name text x, outer.endElement r name text (outside x) =
      (sub.endElement r name text x).map outside) (node : Node) (text : List Char) (x : τ) :
    readNode outer r node text (outside x) =
      (readNode sub r node text x).map fun read => (read.1, outside read.2) := by
  match node with
  | .text content => rfl
  | .element name inner =>
      rw [readNode, readNode, hstart]
      cases hstarted : sub.startElement r name x with
      | error e => rfl
      | ok started =>
          obtain ⟨new, started⟩ := started
          obtain rfl := hown name x _ hstarted
          have hinner := readNodes_embed hstart hown hend inner [] started
          dsimp only [bind, Except.bind, Except.map, Option.getD_none]
          rw [hinner]
          cases readNodes sub r inner [] started with
          | error e => rfl
          | ok read =>
              obtain ⟨text', read⟩ := read
              dsimp only [Except.map]
              rw [hend]
              cases sub.endElement r name text' read with
              | error e => rfl
              | ok closed => rfl

/-- An object that reads its elements itself reads some nodes as if it were alone. -/
theorem readNodes_embed
    (hstart : ∀ name x, outer.startElement r name (outside x) =
      (sub.startElement r name x).map fun started => (none, outside started.2))
    (hown : ∀ name x started, sub.startElement r name x = .ok started → started.1 = none)
    (hend : ∀ name text x, outer.endElement r name text (outside x) =
      (sub.endElement r name text x).map outside) (nodes : List Node) (text : List Char) (x : τ) :
    readNodes outer r nodes text (outside x) =
      (readNodes sub r nodes text x).map fun read => (read.1, outside read.2) := by
  match nodes with
  | [] => rfl
  | node :: nodes =>
      rw [readNodes, readNodes, readNode_embed hstart hown hend node text x]
      cases readNode sub r node text x with
      | error e => rfl
      | ok read => exact readNodes_embed hstart hown hend nodes read.1 read.2

end

end

/-- The character data in the elements that hold elements does not matter. -/
theorem readChild_congr {inner inner' : List Node}
    (hend : ∀ top text text' objects,
      readers.endElement top name text objects = readers.endElement top name text' objects)
    (hchildren : ∀ top objects, readChildren readers top (Xml.children inner) objects =
      readChildren readers top (Xml.children inner') objects) :
    readChild readers top (name, inner) objects = readChild readers top (name, inner') objects := by
  rw [readChild, readChild]
  cases readers.startElement top name objects with
  | error e => rfl
  | ok started =>
      obtain ⟨new, started⟩ := started
      have hsame := hchildren (new.getD top) started
      rw [← @readNodes_map_snd _ _ _ readers (new.getD top) [] started inner,
        ← @readNodes_map_snd _ _ _ readers (new.getD top) [] started inner'] at hsame
      dsimp only [bind, Except.bind]
      cases hread : readNodes readers (new.getD top) inner [] started with
      | error e =>
          cases hread' : readNodes readers (new.getD top) inner' [] started with
          | error e' =>
              rw [hread, hread'] at hsame
              exact hsame
          | ok read' =>
              rw [hread, hread'] at hsame
              cases hsame
      | ok read =>
          cases hread' : readNodes readers (new.getD top) inner' [] started with
          | error e' =>
              rw [hread, hread'] at hsame
              cases hsame
          | ok read' =>
              rw [hread, hread'] at hsame
              have hobjects : read.2 = read'.2 := Except.ok.inj hsame
              dsimp only
              rw [hobjects, hend]

/-- Gaps between the elements change nothing. -/
theorem readChildren_spaced {container isGap : List Char → Prop} {spaced : List Node}
    (hend : ∀ top name text text' objects, container name →
      readers.endElement top name text objects = readers.endElement top name text' objects)
    (hspaced : Spaced container isGap nodes spaced) (top : ρ) (objects : σ) :
    readChildren readers top (children spaced) objects =
      readChildren readers top (children nodes) objects := by
  induction hspaced generalizing top objects with
  | nil space _ => rfl
  | leaf space _ name content _ ih =>
      change readChildren readers top ((name, [.text content]) :: children _) objects =
        readChildren readers top ((name, [.text content]) :: children _) objects
      rw [readChildren, readChildren]
      cases readChild readers top (name, [.text content]) objects with
      | error e => rfl
      | ok between => exact ih top between
  | @element nodes spaced inner inner' space _ name hname _ _ ihchildren ih =>
      change readChildren readers top ((name, inner') :: children _) objects =
        readChildren readers top ((name, inner) :: children _) objects
      have hfirst : readChild readers top (name, inner') objects =
          readChild readers top (name, inner) objects :=
        readChild_congr (fun top text text' objects => hend top name text text' objects hname)
          ihchildren
      rw [readChildren, readChildren, hfirst]
      cases readChild readers top (name, inner) objects with
      | error e => rfl
      | ok between => exact ih top between

end Xml
