import Boto.Handler
import Boto.Support.XmlWeight

/-!
# What objects take from a document

Objects keep only what they are given at the ends of elements.  So if they have as much as was
written into their document, then all that was written comes back, and it was plain.
-/

namespace Boto

open Xml (Event Node)

theorem exists_of_map_eq_ok {ε α β : Type} {f : α → β} {x : Except ε α} {y : β}
    (hmap : x.map f = .ok y) : ∃ a, x = .ok a ∧ f a = y := by
  cases x with
  | error e => cases hmap
  | ok a =>
      cases hmap
      exact ⟨a, rfl, rfl⟩

variable {ρ σ : Type}

/-- Texts that are made of a text: they weigh no more, and are plain if the text is. -/
structure Drawn (text : Text) (taken : List Text) : Prop where
  weights_le : Xml.weights taken ≤ Xml.weight text
  plain : Xml.isPlain text = true → ∀ part ∈ taken, Xml.isPlain part = true

theorem Drawn.nothing (text : Text) : Drawn text [] where
  weights_le := Nat.zero_le _
  plain _ _ hpart := absurd hpart List.not_mem_nil

theorem Drawn.whole (text : Text) : Drawn text [text] where
  weights_le := by
    rw [Xml.weights_cons, Xml.weights_nil]
    exact Nat.le_refl _
  plain hplain := List.forall_mem_singleton.mpr hplain

/-- The methods of some objects keep of the texts that they are given no more than these. -/
structure Takes (methods : Nodes ρ σ) (contents : σ → List Text) : Prop where
  start : ∀ top name objects,
    (contents (methods.startElement top name objects).2).Subperm (contents objects)
  finish : ∀ top name text objects objects',
    methods.endElement top name text objects = .ok objects' →
      ∃ taken, Drawn text taken ∧ (contents objects').Subperm (taken ++ contents objects)

/-! ## Replacing some of the texts -/

section

variable {taken before new old after : List Text}

/-- The texts before the replaced ones stay. -/
theorem subperm_under (hsub : new.Subperm (taken ++ old)) :
    (before ++ new).Subperm (taken ++ (before ++ old)) := by
  have hkept : (before ++ new).Subperm (before ++ (taken ++ old)) :=
    (List.subperm_append_left before).mpr hsub
  exact hkept.trans (List.perm_append_comm_assoc before taken old).subperm

/-- The texts behind the replaced ones stay. -/
theorem subperm_over (hsub : new.Subperm (taken ++ old)) :
    (new ++ after).Subperm (taken ++ (old ++ after)) := by
  rw [← List.append_assoc]
  exact (List.subperm_append_right after).mpr hsub

theorem subperm_replaced (taken old : List Text) : taken.Subperm (taken ++ old) :=
  (List.sublist_append_left taken old).subperm

theorem subperm_kept (taken old : List Text) : old.Subperm (taken ++ old) :=
  (List.sublist_append_right taken old).subperm

/-- Changing one of some items. -/
theorem subperm_set {α : Type} {contents : α → List Text} {xs : List α} {i : ℕ} {x y : α}
    (hget : xs[i]? = some x) (hsub : (contents y).Subperm (taken ++ contents x)) :
    ((xs.set i y).flatMap contents).Subperm (taken ++ xs.flatMap contents) := by
  induction xs generalizing i with
  | nil => cases hget
  | cons first xs ih =>
      cases i with
      | zero =>
          cases hget
          rw [List.set_cons_zero, List.flatMap_cons, List.flatMap_cons]
          exact subperm_over hsub
      | succ i =>
          rw [List.set_cons_succ, List.flatMap_cons, List.flatMap_cons]
          exact subperm_under (ih hget)

end

namespace XmlHandler

variable {methods : Nodes ρ σ} {container : Text → Prop} {contents : σ → List Text}
  {self self' : XmlHandler ρ σ} {events : List Event}

/-- What a handler does at the start of an element. -/
theorem startElement_eq_ok {name : Text} (hstart : self.startElement methods name = .ok self') :
    ∃ top, self'.objects = (methods.startElement top name self.objects).2 ∧
      self'.currentText = [] := by
  rw [startElement] at hstart
  split at hstart
  · cases hstart
  · rename_i top rest hnodes
    refine ⟨top.2, ?_⟩
    split at hstart
    · rename_i objects hstarted
      cases hstart
      exact ⟨by rw [hstarted], rfl⟩
    · rename_i new objects hstarted
      cases hstart
      exact ⟨by rw [hstarted], rfl⟩

/-- What a handler does at the end of an element. -/
theorem endElement_eq_ok {name : Text} (hend : self.endElement methods name = .ok self') :
    ∃ top, methods.endElement top name self.currentText self.objects = .ok self'.objects ∧
      self'.currentText = [] := by
  rw [endElement] at hend
  split at hend
  · cases hend
  · rename_i top rest hnodes
    refine ⟨top.2, ?_⟩
    cases hended : methods.endElement top.2 name self.currentText self.objects with
    | error e => simp [hended, bind, Except.bind] at hend
    | ok objects =>
        simp only [hended, bind, Except.bind, pure, Except.pure] at hend
        cases hend
        exact ⟨rfl, rfl⟩

theorem run_cons_eq_ok {event : Event}
    (hrun : run methods self (event :: events) = .ok self') :
    ∃ between, step methods self event = .ok between ∧
      run methods between events = .ok self' := by
  rw [run_cons] at hrun
  cases hstep : step methods self event with
  | error e => simp [hstep, bind, Except.bind] at hrun
  | ok between => exact ⟨between, rfl, by simpa [hstep, bind, Except.bind] using hrun⟩

/-- The objects have no more than they had and what the events report. -/
theorem weights_run_le (htakes : Takes methods contents)
    (hrun : run methods self events = .ok self') :
    Xml.weights (contents self'.objects) ≤
      Xml.weights (contents self.objects) +
        Xml.weights (Xml.reported self.currentText events) := by
  induction events generalizing self with
  | nil =>
      cases hrun
      exact Nat.le_add_right _ _
  | cons event events ih =>
      obtain ⟨between, hstep, hrest⟩ := run_cons_eq_ok hrun
      have hle := ih hrest
      cases event with
      | startElement name =>
          obtain ⟨top, hobjects, htext⟩ := startElement_eq_ok hstep
          have hstart := Xml.weights_subperm (htakes.start top name self.objects)
          rw [← hobjects] at hstart
          rw [htext] at hle
          rw [Xml.reported]
          omega
      | characters c =>
          cases hstep
          exact hle
      | endElement name =>
          obtain ⟨top, hend, htext⟩ := endElement_eq_ok hstep
          obtain ⟨taken, hdrawn, hsub⟩ := htakes.finish top name _ _ _ hend
          have hfinish := Xml.weights_subperm hsub
          have htaken := hdrawn.weights_le
          rw [Xml.weights_append] at hfinish
          rw [htext] at hle
          rw [Xml.reported, Xml.weights_cons]
          omega

/-- If all texts of the events are plain, then so are those of the objects. -/
theorem plain_run (htakes : Takes methods contents)
    (hrun : run methods self events = .ok self')
    (hplain : ∀ text ∈ contents self.objects, Xml.isPlain text = true)
    (htexts : ∀ text ∈ Xml.reported self.currentText events, Xml.isPlain text = true) :
    ∀ text ∈ contents self'.objects, Xml.isPlain text = true := by
  induction events generalizing self with
  | nil =>
      cases hrun
      exact hplain
  | cons event events ih =>
      obtain ⟨between, hstep, hrest⟩ := run_cons_eq_ok hrun
      cases event with
      | startElement name =>
          obtain ⟨top, hobjects, htext⟩ := startElement_eq_ok hstep
          have hsub := (htakes.start top name self.objects).subset
          rw [← hobjects] at hsub
          refine ih hrest (fun text hmem => hplain text (hsub hmem)) ?_
          rw [htext]
          exact htexts
      | characters c =>
          cases hstep
          exact ih hrest hplain htexts
      | endElement name =>
          obtain ⟨top, hend, htext⟩ := endElement_eq_ok hstep
          obtain ⟨taken, hdrawn, hsub⟩ := htakes.finish top name _ _ _ hend
          rw [Xml.reported, List.forall_mem_cons] at htexts
          refine ih hrest (fun text hmem => ?_) ?_
          · rcases List.mem_append.mp (hsub.subset hmem) with hmem | hmem
            · exact hdrawn.plain htexts.1 text hmem
            · exact hplain text hmem
          · rw [htext]
            exact htexts.2

/-- White space between the elements of a document changes nothing that is read of it. -/
theorem parse_spaced {name : Text} {nodes spaced : List Node} {isGap : Text → Prop} {root : ρ}
    {objects objects' : σ} (hignores : IgnoresData methods container)
    (hcontainer : container name) (hempty : isGap [])
    (hspaced : Xml.Spaced container isGap nodes spaced)
    (hread : parse methods root objects (Node.eventsOf [.element name nodes]) = .ok objects') :
    parse methods root objects (Node.eventsOf [.element name spaced]) = .ok objects' := by
  obtain ⟨self', hrun, rfl⟩ := exists_of_map_eq_ok hread
  have hroot : Xml.Spaced container isGap [.element name nodes]
      [.text [], .element name spaced, .text []] :=
    .element [] hempty name hcontainer hspaced (.nil [] hempty)
  obtain ⟨text, hspacedRun⟩ := run_spaced hignores hroot hrun []
  have hevents : Node.eventsOf [.text [], .element name spaced, .text []] =
      Node.eventsOf [.element name spaced] := by
    simp [Node.eventsOf, Node.events]
  rw [hevents] at hspacedRun
  change run methods { nodes := _, currentText := [], objects := objects } _ = _ at hspacedRun
  rw [parse, hspacedRun]
  rfl

/-- What can be read of plain elements is read of their document. -/
theorem parse_document {prolog tag name : Text} {nodes spaced : List Node} {texts : List Text}
    {root : ρ} {objects objects' : σ} (hroot : Xml.IsRoot prolog tag name)
    (hname : Xml.isWord name = true) (hcontainer : container name)
    (hignores : IgnoresData methods container)
    (hspaced : Xml.Spaced container Xml.IsSpace nodes spaced)
    (hleaves : Xml.Leaves container nodes texts)
    (hplain : ∀ text ∈ texts, Xml.isPlain text = true)
    (hread : parse methods root objects (Node.eventsOf [.element name nodes]) = .ok objects') :
    ∃ events, Xml.parse (Xml.document prolog tag name (Node.renderOf spaced)) = some events ∧
      parse methods root objects events = .ok objects' := by
  obtain ⟨spaced', hclean, hparse⟩ := Xml.parse_spaced hroot hname hspaced hleaves hplain
  have hempty : Xml.IsCleanSpace [] := fun c hc => absurd hc List.not_mem_nil
  exact ⟨_, hparse, parse_spaced hignores hcontainer hempty hclean hread⟩

/-- Reading a document starts with what the root object makes of its root element. -/
theorem parse_start {root : ρ} {name : Text} {inner : List Event} {objects objects' : σ}
    (hread : parse methods root objects (.startElement name :: inner) = .ok objects') :
    ∃ self self', self.objects = (methods.startElement root name objects).2 ∧
      self.currentText = [] ∧ run methods self inner = .ok self' ∧ self'.objects = objects' := by
  rw [parse] at hread
  obtain ⟨self', hrun, rfl⟩ := exists_of_map_eq_ok hread
  obtain ⟨between, hstep, hrest⟩ := run_cons_eq_ok hrun
  rw [step, startElement] at hstep
  dsimp only at hstep
  split at hstep
  · rename_i started hstart
    cases hstep
    exact ⟨_, self', by rw [hstart], rfl, hrest, rfl⟩
  · rename_i new started hstart
    cases hstep
    exact ⟨_, self', by rw [hstart], rfl, hrest, rfl⟩

/-- If the objects of a document have as much as was written into it, then all that they have
is plain. -/
theorem plain_of_parse {prolog tag name body : Text} {root : ρ} {objects objects' : σ}
    {events : List Event} (htakes : Takes methods contents) (hroot : Xml.IsRoot prolog tag name)
    (hname : Xml.isWord name = true) (hempty : contents objects = [])
    (hparse : Xml.parse (Xml.document prolog tag name body) = some events)
    (hread : parse methods root objects events = .ok objects')
    (hwritten : Xml.weight body ≤ Xml.weights (contents objects')) :
    ∀ text ∈ contents objects', Xml.isPlain text = true := by
  obtain ⟨inner, rfl, hinner⟩ := Xml.weights_document hroot hname hparse
  obtain ⟨self, self', hobjects, htext, hrun, rfl⟩ := parse_start hread
  have hsub := htakes.start root name objects
  rw [← hobjects, hempty, List.subperm_nil] at hsub
  have hle := weights_run_le htakes hrun
  rw [hsub, htext, Xml.weights_nil, Nat.zero_add] at hle
  rcases hinner with hlt | ⟨-, htexts⟩
  · omega
  · refine plain_run htakes hrun (fun text hmem => ?_) ?_
    · rw [hsub] at hmem
      exact absurd hmem List.not_mem_nil
    · rw [htext]
      exact htexts

end XmlHandler

end Boto
