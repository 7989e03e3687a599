import Boto.HandlerTrees
import Boto.Support.OrderedDict
import Boto.TextMethods
import Mathlib.Data.List.Induction
import Mathlib.Tactic.Tauto

/-!
# The configuration of object lifecycles

`Rule` and `LifecycleConfig` of `boto/gs/lifecycle.py`.  A rule remembers the tag that it is in
and raises `InvalidLifecycleConfigError` for what does not belong there.  It accepts exactly the
documents of its grammar, in which the action and the conditions of a rule may be spread over
several elements in any order.
-/

namespace Boto.GS.Lifecycle

open Xml (Accepts Child Meets Node Readers children data readChild readChildren)

/-- `RULE`. -/
def ruleTag : Text := "Rule".toList

/-- `ACTION`. -/
def actionTag : Text := "Action".toList

/-- `CONDITION`. -/
def conditionTag : Text := "Condition".toList

/-- `LIFECYCLE_CONFIG`. -/
def lifecycleConfigTag : Text := "LifecycleConfiguration".toList

/-- `SET_STORAGE_CLASS`. -/
def setStorageClassTag : Text := "SetStorageClass".toList

/-- `MATCHES_STORAGE_CLASS`. -/
def matchesStorageClassTag : Text := "MatchesStorageClass".toList

/-- `LEGAL_ACTIONS`. -/
def legalActions : List Text := ["Delete".toList, setStorageClassTag]

/-- `LEGAL_CONDITIONS`. -/
def legalConditions : List Text :=
  ["Age".toList, "CreatedBefore".toList, "NumberOfNewerVersions".toList, "IsLive".toList,
    matchesStorageClassTag]

/-- `LEGAL_REPEATABLE_CONDITIONS`. -/
def legalRepeatableConditions : List Text := [matchesStorageClassTag]

/-- `InvalidLifecycleConfigError`, or an error of the interpreter. -/
inductive LifecycleError
  | invalid (message : Text)
  | python (error : PyError)
  deriving DecidableEq

/-- The value of a condition. -/
inductive ConditionValue
  | text (value : Text)
  | list (values : List Text)
  deriving DecidableEq

/-- `Rule`. -/
@[ext] structure Rule where
  action : Option Text
  actionText : Option Text
  conditions : OrderedDict Text ConditionValue
  currentTag : Text

/-- `LifecycleConfig`. -/
structure LifecycleConfig where
  rules : List Rule
  hasRootTag : Bool

/-- The objects of a document. -/
inductive Ref
  | config
  | rule (i : ℕ)
  deriving DecidableEq

namespace Rule

/-- `Rule()`. -/
def init : Rule := ⟨none, none, .empty, ruleTag⟩

variable (self : Rule)

/-- `validateStartTag`. -/
def validateStartTag (tag parent : Text) : Except LifecycleError Unit :=
  if self.currentTag ≠ parent then
    .error (.invalid ("Invalid tag ".toList ++ tag ++ " found inside ".toList ++
      self.currentTag ++ " tag".toList))
  else .ok ()

/-- `validateEndTag`. -/
def validateEndTag (tag : Text) : Except LifecycleError Unit :=
  if tag ≠ self.currentTag then
    .error (.invalid ("Mismatched start and end tags (".toList ++ self.currentTag ++
      "/".toList ++ tag ++ ")".toList))
  else .ok ()

/-- `validate`. -/
def validate : Except LifecycleError Unit :=
  if self.action.getD [] = [] then
    .error (.invalid "No action was specified in the rule".toList)
  else if self.conditions.items = [] then
    .error (.invalid ("No condition was specified for action ".toList ++
      self.action.getD [] ))
  else .ok ()

/-- `startElement`. -/
def startElement (name : Text) : Except LifecycleError Rule :=
  if name = actionTag then do
    self.validateStartTag name ruleTag
    return { self with currentTag := name }
  else if name ∈ legalActions then do
    self.validateStartTag name actionTag
    if self.action ≠ none then
      .error (.invalid "Only one action tag is allowed in each rule".toList)
    else return { self with action := some name, currentTag := name }
  else if name = conditionTag then do
    self.validateStartTag name ruleTag
    return { self with currentTag := name }
  else if name ∈ legalConditions then do
    self.validateStartTag name conditionTag
    if self.conditions.contains name = true ∧ name ∉ legalRepeatableConditions then
      .error (.invalid ("Found duplicate non-repeatable conditions ".toList ++ name))
    else return { self with currentTag := name }
  else .error (.invalid ("Unsupported tag ".toList ++ name))

/-- The value of a condition after its end. -/
def conditionValue (name value : Text) : Except LifecycleError ConditionValue :=
  if name ∈ legalRepeatableConditions then
    match self.conditions.get? name with
    | none => .ok (.list [stripText value])
    | some (.list values) => .ok (.list (values ++ [stripText value]))
    | some (.text _) =>
        .error (.python (.attributeError "'str' object has no attribute 'append'"))
  else .ok (.text (stripText value))

/-- `endElement`. -/
def endElement (name value : Text) : Except LifecycleError Rule := do
  self.validateEndTag name
  if name = ruleTag then
    self.validate
    return self
  else if name = actionTag then
    return { self with currentTag := ruleTag }
  else if name ∈ legalActions then
    return { self with
      actionText := if name = setStorageClassTag then some (stripText value) else self.actionText
      currentTag := actionTag }
  else if name = conditionTag then
    return { self with currentTag := ruleTag }
  else if name ∈ legalConditions then
    let stored ← self.conditionValue name value
    return { self with
      conditions := self.conditions.set name stored, currentTag := conditionTag }
  else .error (.invalid ("Unsupported end tag ".toList ++ name))

/-- The methods of a rule, which reads all elements in it itself. -/
def readers : Readers Ref Rule LifecycleError where
  startElement _ name self := (self.startElement name).map fun self => (none, self)
  endElement _ name value self := self.endElement name value

end Rule

namespace LifecycleConfig

/-- `LifecycleConfig()`. -/
def init : LifecycleConfig := ⟨[], false⟩

/-- `startElement`. -/
def startElement (name : Text) (self : LifecycleConfig) :
    Except LifecycleError (Option Ref × LifecycleConfig) :=
  if name = lifecycleConfigTag then
    if self.hasRootTag = true then
      .error (.invalid "Only one root tag is allowed in the XML".toList)
    else .ok (none, { self with hasRootTag := true })
  else if name = ruleTag then
    if self.hasRootTag = false then .error (.invalid ("Invalid root tag ".toList ++ name))
    else .ok (some (.rule self.rules.length), { self with rules := self.rules ++ [Rule.init] })
  else .error (.invalid ("Unsupported tag ".toList ++ name))

/-- `endElement`. -/
def endElement (name : Text) (self : LifecycleConfig) : Except LifecycleError LifecycleConfig :=
  if name = lifecycleConfigTag then .ok self
  else .error (.invalid ("Unsupported end tag ".toList ++ name))

/-- A step of one of the rules. -/
def atRule (i : ℕ) (step : Rule → Except LifecycleError Rule) (self : LifecycleConfig) :
    Except LifecycleError LifecycleConfig :=
  match self.rules[i]? with
  | none => .error (.python (.indexError "list index out of range"))
  | some rule => (step rule).map fun rule => { self with rules := self.rules.set i rule }

/-- The methods of a configuration and of its rules. -/
def readers : Readers Ref LifecycleConfig LifecycleError where
  startElement top name self :=
    match top with
    | .config => self.startElement name
    | .rule i => (self.atRule i (Rule.startElement · name)).map fun self => (none, self)
  endElement top name value self :=
    match top with
    | .config => self.endElement name
    | .rule i => self.atRule i (Rule.endElement · name value)

/-- The configuration that reads some events. -/
def read (events : List Xml.Event) : Except (ReadError LifecycleError) LifecycleConfig :=
  XmlHandler.checkedParse readers .config init events

end LifecycleConfig

/-! ## The grammar -/

/-- The children of the elements of one name among some elements. -/
def inside (name : Text) (parts : List Child) : List Child :=
  parts.flatMap fun part => if part.1 = name then children part.2 else []

/-- The actions of a rule. -/
def actionsOf (rule : Child) : List Child := inside actionTag (children rule.2)

/-- The conditions of a rule. -/
def conditionsOf (rule : Child) : List Child := inside conditionTag (children rule.2)

/-- One of some elements, without children. -/
def IsLegal (names : List Text) (child : Child) : Prop :=
  child.1 ∈ names ∧ children child.2 = []

/-- A rule: one action and at least one condition, of which only one kind may be repeated. -/
structure IsRule (rule : Child) : Prop where
  name : rule.1 = ruleTag
  parts : ∀ part ∈ children rule.2, part.1 = actionTag ∨ part.1 = conditionTag
  action : ∃ action, actionsOf rule = [action] ∧ IsLegal legalActions action
  conditions_ne : conditionsOf rule ≠ []
  conditions : ∀ condition ∈ conditionsOf rule, IsLegal legalConditions condition
  once : (((conditionsOf rule).map Prod.fst).filter
    fun name => decide (name ∉ legalRepeatableConditions)).Nodup

/-- A document that describes a configuration. -/
def IsLifecycle (root : Child) : Prop :=
  root.1 = lifecycleConfigTag ∧ ∀ rule ∈ children root.2, IsRule rule

/-- The text of an element. -/
def textOf (child : Child) : Text := stripText (data child.2)

/-- The texts of the conditions of one kind. -/
def textsAt (name : Text) (conditions : List Child) : List Text :=
  (conditions.filter fun condition => decide (condition.1 = name)).map textOf

/-- A rule that has the action and the conditions of an element. -/
structure RuleRead (element : Child) (rule : Rule) : Prop where
  action : ∀ action, actionsOf element = [action] → rule.action = some action.1 ∧
    rule.actionText = if action.1 = setStorageClassTag then some (textOf action) else none
  keys : ∀ name, name ∈ rule.conditions.keys ↔ name ∈ (conditionsOf element).map Prod.fst
  single : ∀ condition ∈ conditionsOf element, condition.1 ∉ legalRepeatableConditions →
    rule.conditions.get? condition.1 = some (.text (textOf condition))
  repeated : ∀ condition ∈ conditionsOf element, condition.1 ∈ legalRepeatableConditions →
    rule.conditions.get? condition.1 = some (.list (textsAt condition.1 (conditionsOf element)))

/-! ## What a step of a rule can do -/

namespace Rule

variable {self self' : Rule} {name value tag parent : Text} {u : Unit}

theorem returned_eq_ok {a : Rule} :
    (return a : Except LifecycleError Rule) = .ok self' ↔ self' = a :=
  ⟨fun h => (Except.ok.inj h).symm, fun h => h ▸ rfl⟩

theorem startTag_bind_eq_ok {f : Unit → Except LifecycleError Rule} :
    (self.validateStartTag tag parent >>= f) = .ok self' ↔
      self.currentTag = parent ∧ f () = .ok self' := by
  rw [validateStartTag]
  split
  · rename_i hne
    exact iff_of_false (fun h => by cases h) fun h => hne h.1
  · rename_i heq
    exact (and_iff_right (not_not.mp heq)).symm

theorem endTag_bind_eq_ok {f : Unit → Except LifecycleError Rule} :
    (self.validateEndTag tag >>= f) = .ok self' ↔
      self.currentTag = tag ∧ f () = .ok self' := by
  rw [validateEndTag]
  split
  · rename_i hne
    exact iff_of_false (fun h => by cases h) fun h => hne h.1.symm
  · rename_i heq
    exact (and_iff_right (not_not.mp heq).symm).symm

theorem validate_eq_ok :
    self.validate = .ok u ↔ self.action.getD [] ≠ [] ∧ self.conditions.items ≠ [] := by
  rw [validate]
  split
  · rename_i hempty
    simp [hempty]
  split
  · rename_i hempty
    simp [hempty]
  · rename_i haction hconditions
    simp [haction, hconditions]

/-- What the start of an element does, by the tag it is in. -/
theorem startElement_eq_ok :
    self.startElement name = .ok self' ↔
      (name = actionTag ∨ name = conditionTag) ∧ self.currentTag = ruleTag ∧
        self' = { self with currentTag := name } ∨
      name ∈ legalActions ∧ self.currentTag = actionTag ∧ self.action = none ∧
        self' = { self with action := some name, currentTag := name } ∨
      name ∈ legalConditions ∧ self.currentTag = conditionTag ∧
        (name ∈ self.conditions.keys → name ∈ legalRepeatableConditions) ∧
        self' = { self with currentTag := name } := by
  constructor
  · intro hstart
    rw [startElement] at hstart
    split at hstart
    · rename_i hname
      obtain ⟨htag, hrest⟩ := startTag_bind_eq_ok.mp hstart
      exact .inl ⟨.inl hname, htag, (Except.ok.inj hrest).symm⟩
    split at hstart
    · rename_i hname
      obtain ⟨htag, hrest⟩ := startTag_bind_eq_ok.mp hstart
      split at hrest
      · cases hrest
      · rename_i hnone
        exact .inr (.inl ⟨hname, htag, not_not.mp hnone,
          (Except.ok.inj hrest).symm⟩)
    split at hstart
    · rename_i hname
      obtain ⟨htag, hrest⟩ := startTag_bind_eq_ok.mp hstart
      exact .inl ⟨.inr hname, htag, (Except.ok.inj hrest).symm⟩
    split at hstart
    · rename_i hname
      obtain ⟨htag, hrest⟩ := startTag_bind_eq_ok.mp hstart
      split at hrest
      · cases hrest
      · rename_i honce
        rw [OrderedDict.contains_iff, not_and, not_not] at honce
        exact .inr (.inr ⟨hname, htag, honce,
          (Except.ok.inj hrest).symm⟩)
    · cases hstart
  · rintro (⟨hname | hname, htag, rfl⟩ | ⟨hname, htag, hnone, rfl⟩ | ⟨hname, htag, honce, rfl⟩)
    · rw [startElement, if_pos hname]
      exact startTag_bind_eq_ok.mpr ⟨htag, rfl⟩
    · subst hname
      rw [startElement, if_neg (by decide), if_neg (by decide), if_pos rfl]
      exact startTag_bind_eq_ok.mpr ⟨htag, rfl⟩
    · have hdistinct : ∀ name ∈ legalActions, name ≠ actionTag := by decide
      rw [startElement, if_neg (hdistinct name hname), if_pos hname]
      exact startTag_bind_eq_ok.mpr ⟨htag, if_neg (not_not.mpr hnone)⟩
    · have hdistinct : ∀ name ∈ legalConditions,
          name ≠ actionTag ∧ name ∉ legalActions ∧ name ≠ conditionTag := by decide
      obtain ⟨haction, hlegal, hcondition⟩ := hdistinct name hname
      rw [startElement, if_neg haction, if_neg hlegal, if_neg hcondition, if_pos hname]
      have hnot : ¬(self.conditions.contains name = true ∧ name ∉ legalRepeatableConditions) := by
        rw [OrderedDict.contains_iff, not_and_not_right]
        exact honce
      exact startTag_bind_eq_ok.mpr ⟨htag, if_neg hnot⟩

/-- The end of a rule. -/
theorem endElement_rule :
    self.endElement ruleTag value = .ok self' ↔
      self.currentTag = ruleTag ∧ self.action.getD [] ≠ [] ∧ self.conditions.items ≠ [] ∧
        self' = self := by
  rw [endElement, endTag_bind_eq_ok, if_pos rfl, except_bind_eq_ok]
  refine and_congr_right fun _ => ?_
  constructor
  · rintro ⟨_, hvalid, hself⟩
    obtain ⟨haction, hconditions⟩ := validate_eq_ok.mp hvalid
    exact ⟨haction, hconditions, (Except.ok.inj hself).symm⟩
  · rintro ⟨haction, hconditions, rfl⟩
    exact ⟨(), validate_eq_ok.mpr ⟨haction, hconditions⟩, rfl⟩

/-- The end of an element that holds actions or conditions. -/
theorem endElement_part (hname : name = actionTag ∨ name = conditionTag) :
    self.endElement name value = .ok self' ↔
      self.currentTag = name ∧ self' = { self with currentTag := ruleTag } := by
  have hrest : self.endElement name value = (do
      self.validateEndTag name
      return { self with currentTag := ruleTag }) := by
    rcases hname with rfl | rfl <;> rfl
  rw [hrest, endTag_bind_eq_ok]
  exact and_congr_right fun _ => returned_eq_ok

/-- The end of an action. -/
theorem endElement_action (hname : name ∈ legalActions) :
    self.endElement name value = .ok self' ↔
      self.currentTag = name ∧ self' = { self with
        actionText := if name = setStorageClassTag then some (stripText value)
          else self.actionText
        currentTag := actionTag } := by
  have hdistinct : ∀ name ∈ legalActions, name ≠ ruleTag ∧ name ≠ actionTag := by decide
  obtain ⟨hrule, haction⟩ := hdistinct name hname
  rw [endElement, endTag_bind_eq_ok, if_neg hrule, if_neg haction, if_pos hname]
  exact and_congr_right fun _ => returned_eq_ok

/-- The end of a condition. -/
theorem endElement_condition (hname : name ∈ legalConditions) :
    self.endElement name value = .ok self' ↔
      self.currentTag = name ∧ ∃ stored, self.conditionValue name value = .ok stored ∧
        self' = { self with
          conditions := self.conditions.set name stored, currentTag := conditionTag } := by
  have hdistinct : ∀ name ∈ legalConditions,
      name ≠ ruleTag ∧ name ≠ actionTag ∧ name ∉ legalActions ∧ name ≠ conditionTag := by
    decide
  obtain ⟨hrule, haction, hlegal, hcondition⟩ := hdistinct name hname
  rw [endElement, endTag_bind_eq_ok, if_neg hrule, if_neg haction, if_neg hlegal,
    if_neg hcondition, if_pos hname, except_bind_eq_ok]
  exact and_congr_right fun _ =>
    exists_congr fun _ => and_congr_right fun _ => returned_eq_ok

/-! ## Reading the parts of a rule -/

/-- What a rule keeps of its action. -/
abbrev ActionRead := Option Text × Option Text

/-- What a rule keeps of its conditions. -/
abbrev ConditionsRead := OrderedDict Text ConditionValue

/-- An action may follow. -/
def acceptsAction (before : ActionRead) (child : Child) : Prop :=
  IsLegal legalActions child ∧ before.1 = none

/-- What is kept after an action. -/
def addAction (before : ActionRead) (child : Child) : ActionRead :=
  (some child.1, if child.1 = setStorageClassTag then some (textOf child) else before.2)

/-- A condition may follow. -/
def acceptsCondition (before : ConditionsRead) (child : Child) : Prop :=
  IsLegal legalConditions child ∧
    (child.1 ∈ before.keys → child.1 ∈ legalRepeatableConditions) ∧
    (child.1 ∈ legalRepeatableConditions → ∀ text, before.get? child.1 ≠ some (.text text))

/-- The value of a condition that follows. -/
def valueAfter (before : ConditionsRead) (child : Child) : ConditionValue :=
  if child.1 ∈ legalRepeatableConditions then
    match before.get? child.1 with
    | some (.list values) => .list (values ++ [textOf child])
    | _ => .list [textOf child]
  else .text (textOf child)

/-- What is kept after a condition. -/
def addCondition (before : ConditionsRead) (child : Child) : ConditionsRead :=
  before.set child.1 (valueAfter before child)

/-- A rule that has read an action and some conditions. -/
def ruleAt (tag : Text) (action : ActionRead) (conditions : ConditionsRead) : Rule :=
  ⟨action.1, action.2, conditions, tag⟩

variable {child : Child} {r : Ref} {action : ActionRead} {conditions : ConditionsRead}
  {stored : ConditionValue}

theorem conditionValue_eq_ok :
    self.conditionValue child.1 (data child.2) = .ok stored ↔
      (child.1 ∈ legalRepeatableConditions →
        ∀ text, self.conditions.get? child.1 ≠ some (.text text)) ∧
      stored = valueAfter self.conditions child := by
  rw [conditionValue, valueAfter]
  split
  · rename_i hrepeatable
    cases self.conditions.get? child.1 with
    | none => simp [hrepeatable, textOf, eq_comm]
    | some value =>
        cases value with
        | text text => simp [hrepeatable]
        | list values => simp [hrepeatable, textOf, eq_comm]
  · rename_i hsingle
    simp [hsingle, textOf, eq_comm]

theorem start_eq_ok {new : Option Ref} {started : Rule} :
    readers.startElement r name self = .ok (new, started) ↔
      new = none ∧ self.startElement name = .ok started := by
  change (self.startElement name).map (fun self => ((none : Option Ref), self)) = _ ↔ _
  cases self.startElement name with
  | error e => simp [Except.map]
  | ok started' => simp [Except.map, eq_comm]

theorem tags_distinct : (ruleTag ≠ actionTag ∧ ruleTag ≠ conditionTag) ∧
    (actionTag ≠ ruleTag ∧ actionTag ≠ conditionTag) ∧
    conditionTag ≠ ruleTag ∧ conditionTag ≠ actionTag := by decide

/-- Nothing is accepted in an action or a condition. -/
theorem not_start_of_leaf (htag : self.currentTag ∈ legalActions ++ legalConditions) :
    self.startElement name ≠ .ok self' := by
  have hdistinct : ∀ tag ∈ legalActions ++ legalConditions,
      tag ≠ ruleTag ∧ tag ≠ actionTag ∧ tag ≠ conditionTag := by decide
  obtain ⟨hrule, haction, hcondition⟩ := hdistinct _ htag
  rw [ne_eq, startElement_eq_ok]
  rintro (⟨-, h, -⟩ | ⟨-, h, -⟩ | ⟨-, h, -⟩)
  · exact hrule h
  · exact haction h
  · exact hcondition h

/-- An element in which nothing is accepted. -/
theorem readChild_leaf {started : Rule} {accepted : Prop}
    (hstart : ∀ new started', readers.startElement r child.1 self = .ok (new, started') ↔
      new = none ∧ accepted ∧ started' = started)
    (htag : accepted → started.currentTag ∈ legalActions ++ legalConditions) :
    readChild readers r child self = .ok self' ↔
      accepted ∧ children child.2 = [] ∧
        started.endElement child.1 (data child.2) = .ok self' := by
  rw [Xml.readChild_leaf]
  · constructor
    · rintro ⟨hleaf, new, started', hstarted, hend⟩
      obtain ⟨-, haccepted, rfl⟩ := (hstart _ _).mp hstarted
      exact ⟨haccepted, hleaf, hend⟩
    · rintro ⟨haccepted, hleaf, hend⟩
      exact ⟨hleaf, none, started, (hstart _ _).mpr ⟨rfl, haccepted, rfl⟩, hend⟩
  · intro new started' hstarted inner read hread
    obtain ⟨-, haccepted, rfl⟩ := (hstart _ _).mp hstarted
    obtain ⟨_, _, _, _, hinner, -⟩ := Xml.readChild_eq_ok.mp hread
    exact not_start_of_leaf (htag haccepted) (start_eq_ok.mp hinner).2

/-- What is read as an action. -/
theorem readChild_action :
    readChild readers r child (ruleAt actionTag action conditions) = .ok self' ↔
      acceptsAction action child ∧
        self' = ruleAt actionTag (addAction action child) conditions := by
  have hstart : ∀ new started,
      readers.startElement r child.1 (ruleAt actionTag action conditions) = .ok (new, started) ↔
        new = none ∧ (child.1 ∈ legalActions ∧ action.1 = none) ∧
          started = ruleAt child.1 (some child.1, action.2) conditions := by
    intro new started
    rw [start_eq_ok, startElement_eq_ok]
    simp [ruleAt, tags_distinct, and_assoc]
  rw [readChild_leaf hstart fun h => List.mem_append_left _ h.1, acceptsAction, IsLegal]
  constructor
  · rintro ⟨⟨hname, hnone⟩, hleaf, hend⟩
    exact ⟨⟨⟨hname, hleaf⟩, hnone⟩, ((endElement_action hname).mp hend).2⟩
  · rintro ⟨⟨⟨hname, hleaf⟩, hnone⟩, rfl⟩
    exact ⟨⟨hname, hnone⟩, hleaf, (endElement_action hname).mpr ⟨rfl, rfl⟩⟩

/-- What is read as a condition. -/
theorem readChild_condition :
    readChild readers r child (ruleAt conditionTag action conditions) = .ok self' ↔
      acceptsCondition conditions child ∧
        self' = ruleAt conditionTag action (addCondition conditions child) := by
  have hstart : ∀ new started,
      readers.startElement r child.1 (ruleAt conditionTag action conditions) =
          .ok (new, started) ↔
        new = none ∧ (child.1 ∈ legalConditions ∧
          (child.1 ∈ conditions.keys → child.1 ∈ legalRepeatableConditions)) ∧
          started = ruleAt child.1 action conditions := by
    intro new started
    rw [start_eq_ok, startElement_eq_ok]
    simp [ruleAt, tags_distinct, and_assoc]
  rw [readChild_leaf hstart fun h => List.mem_append_right _ h.1, acceptsCondition, IsLegal]
  constructor
  · rintro ⟨⟨hname, honce⟩, hleaf, hend⟩
    obtain ⟨-, stored, hstored, rfl⟩ := (endElement_condition hname).mp hend
    obtain ⟨htyped, rfl⟩ := conditionValue_eq_ok.mp hstored
    exact ⟨⟨⟨hname, hleaf⟩, honce, htyped⟩, rfl⟩
  · rintro ⟨⟨⟨hname, hleaf⟩, honce, htyped⟩, rfl⟩
    refine ⟨⟨hname, honce⟩, hleaf, (endElement_condition hname).mpr ⟨rfl, _, ?_, rfl⟩⟩
    exact conditionValue_eq_ok.mpr ⟨htyped, rfl⟩

theorem inside_cons (name : Text) (part : Child) (parts : List Child) :
    inside name (part :: parts) = inside name [part] ++ inside name parts := by
  rw [inside, inside, inside, List.flatMap_cons, List.flatMap_singleton]

theorem inside_self (part : Child) : inside part.1 [part] = children part.2 := by
  rw [inside, List.flatMap_singleton, if_pos rfl]

theorem inside_of_ne {part : Child} (hne : part.1 ≠ name) : inside name [part] = [] := by
  rw [inside, List.flatMap_singleton, if_neg hne]

/-- A part of a rule may follow. -/
def acceptsPart (before : ActionRead × ConditionsRead) (part : Child) : Prop :=
  (part.1 = actionTag ∨ part.1 = conditionTag) ∧
    Accepts acceptsAction addAction before.1 (inside actionTag [part]) ∧
    Accepts acceptsCondition addCondition before.2 (inside conditionTag [part])

/-- What is kept after a part of a rule. -/
def addPart (before : ActionRead × ConditionsRead) (part : Child) :
    ActionRead × ConditionsRead :=
  ((inside actionTag [part]).foldl addAction before.1,
    (inside conditionTag [part]).foldl addCondition before.2)

/-- An element that holds actions or conditions. -/
theorem readChild_part {part : Child} :
    readChild readers r part (ruleAt ruleTag action conditions) = .ok self' ↔
      acceptsPart (action, conditions) part ∧
        self' = ruleAt ruleTag (addPart (action, conditions) part).1
          (addPart (action, conditions) part).2 := by
  have hstarted : ∀ new started,
      readers.startElement r part.1 (ruleAt ruleTag action conditions) = .ok (new, started) ↔
        new = none ∧ (part.1 = actionTag ∨ part.1 = conditionTag) ∧
          started = ruleAt part.1 action conditions := by
    intro new started
    rw [start_eq_ok, startElement_eq_ok]
    simp [ruleAt, tags_distinct]
  by_cases hpart : part.1 = actionTag ∨ part.1 = conditionTag
  · rw [Xml.readChild_container]
    · -- The children change the action, or the conditions, as the name of the part says.
      have hchildren : ∀ read,
          readChildren readers r (children part.2) (ruleAt part.1 action conditions) =
              .ok read ↔
            Accepts acceptsAction addAction action (inside actionTag [part]) ∧
              Accepts acceptsCondition addCondition conditions (inside conditionTag [part]) ∧
                read = ruleAt part.1 (addPart (action, conditions) part).1
                  (addPart (action, conditions) part).2 := by
        intro read
        rcases hpart with hname | hname
        · have hother : inside conditionTag [part] = [] :=
            inside_of_ne (by rw [hname]; decide)
          have hself : inside actionTag [part] = children part.2 := hname ▸ inside_self part
          rw [addPart, hother, hself, hname]
          refine (@Xml.readChildren_accepted _ _ _ readers r read _ acceptsAction addAction
            (fun action => ruleAt actionTag action conditions) action (children part.2)
            fun before child objects' => readChild_action).trans ?_
          exact and_congr_right fun _ => (and_iff_right trivial).symm
        · have hother : inside actionTag [part] = [] := inside_of_ne (by rw [hname]; decide)
          have hself : inside conditionTag [part] = children part.2 := hname ▸ inside_self part
          rw [addPart, hother, hself, hname]
          refine (@Xml.readChildren_accepted _ _ _ readers r read _ acceptsCondition addCondition
            (fun conditions => ruleAt conditionTag action conditions) conditions
            (children part.2) fun before child objects' => readChild_condition).trans ?_
          exact (and_iff_right trivial).symm
      constructor
      · rintro ⟨new, started, read, hstart, hread, hend⟩
        obtain ⟨rfl, -, rfl⟩ := (hstarted new started).mp hstart
        obtain ⟨hactions, hconditions, rfl⟩ := (hchildren read).mp hread
        obtain ⟨-, rfl⟩ := (endElement_part hpart).mp hend
        exact ⟨⟨hpart, hactions, hconditions⟩, rfl⟩
      · rintro ⟨⟨-, hactions, hconditions⟩, rfl⟩
        refine ⟨none, _, _, (hstarted _ _).mpr ⟨rfl, hpart, rfl⟩,
          (hchildren _).mpr ⟨hactions, hconditions, rfl⟩, ?_⟩
        exact (endElement_part hpart).mpr ⟨rfl, rfl⟩
    · intro new text objects
      change objects.endElement part.1 text = objects.endElement part.1 []
      rcases hpart with hname | hname
      · rw [hname]
        rfl
      · rw [hname]
        rfl
  · refine iff_of_false ?_ fun h => hpart h.1.1
    rw [Xml.readChild_eq_ok]
    rintro ⟨new, started, text, read, hstart, -, -⟩
    exact hpart ((hstarted new started).mp hstart).2.1

theorem foldl_addPart (before : ActionRead × ConditionsRead) (parts : List Child) :
    parts.foldl addPart before =
      ((inside actionTag parts).foldl addAction before.1,
        (inside conditionTag parts).foldl addCondition before.2) := by
  induction parts generalizing before with
  | nil => rfl
  | cons part parts ih =>
      rw [List.foldl_cons, ih, addPart, inside_cons actionTag part parts,
        inside_cons conditionTag part parts,
        List.foldl_append, List.foldl_append]

/-- The parts of a rule may follow if all actions in them and all conditions in them may. -/
theorem accepts_parts (before : ActionRead × ConditionsRead) (parts : List Child) :
    Accepts acceptsPart addPart before parts ↔
      (∀ part ∈ parts, part.1 = actionTag ∨ part.1 = conditionTag) ∧
        Accepts acceptsAction addAction before.1 (inside actionTag parts) ∧
        Accepts acceptsCondition addCondition before.2 (inside conditionTag parts) := by
  induction parts generalizing before with
  | nil => simp [Accepts, inside]
  | cons part parts ih =>
      rw [Accepts, ih, inside_cons actionTag part parts,
        inside_cons conditionTag part parts, Xml.accepts_append,
        Xml.accepts_append, List.forall_mem_cons, acceptsPart, addPart]
      dsimp only
      tauto

/-! ## What may stand in a rule -/

theorem accepts_actions {actions : List Child} :
    Accepts acceptsAction addAction (none, none) actions ↔
      actions = [] ∨ ∃ action, actions = [action] ∧ IsLegal legalActions action := by
  have hnone : ∀ (name : Text) (text : Option Text) (rest : List Child),
      Accepts acceptsAction addAction (some name, text) rest ↔ rest = [] := by
    intro name text rest
    cases rest with
    | nil => simp [Accepts]
    | cons child rest => simp [Accepts, acceptsAction]
  cases actions with
  | nil => simp [Accepts]
  | cons action rest =>
      rw [Accepts, addAction, hnone, acceptsAction]
      constructor
      · rintro ⟨⟨hlegal, -⟩, rfl⟩
        exact .inr ⟨action, rfl, hlegal⟩
      · rintro (h | ⟨action', heq, hlegal⟩)
        · cases h
        · obtain ⟨rfl, rfl⟩ := List.cons.inj heq
          exact ⟨⟨hlegal, rfl⟩, rfl⟩

variable {done : List Child}

theorem textsAt_append (name : Text) (done : List Child) (child : Child) :
    textsAt name (done ++ [child]) =
      if child.1 = name then textsAt name done ++ [textOf child] else textsAt name done := by
  rw [textsAt, List.filter_append, List.map_append]
  split
  · rename_i hname
    rw [List.filter_singleton, decide_eq_true hname]
    rfl
  · rename_i hname
    rw [List.filter_singleton, decide_eq_false hname]
    simp [textsAt]

theorem textsAt_eq_nil : textsAt name done = [] ↔ name ∉ done.map Prod.fst := by
  rw [textsAt, List.map_eq_nil_iff, List.filter_eq_nil_iff, List.mem_map]
  constructor
  · rintro hnone ⟨condition, hmem, rfl⟩
    exact hnone condition hmem (decide_eq_true rfl)
  · intro hnot condition hmem hname
    exact hnot ⟨condition, hmem, of_decide_eq_true hname⟩

/-- The conditions that were kept for some elements. -/
theorem get?_foldl (name : Text) (done : List Child) :
    (done.foldl addCondition .empty).get? name =
      if name ∈ legalRepeatableConditions then
        if textsAt name done = [] then none else some (.list (textsAt name done))
      else (textsAt name done).getLast?.map .text := by
  induction done using List.reverseRecOn generalizing name with
  | nil => simp [textsAt]
  | append_singleton done child ih =>
      rw [List.foldl_append, List.foldl_cons, List.foldl_nil, addCondition,
        OrderedDict.get?_set, textsAt_append]
      by_cases hname : name = child.1
      · subst hname
        rw [if_pos rfl, if_pos rfl, valueAfter, ih]
        by_cases hrepeatable : child.1 ∈ legalRepeatableConditions
        · by_cases hempty : textsAt child.1 done = []
          · simp [hrepeatable, hempty]
          · simp [hrepeatable, hempty]
        · simp [hrepeatable]
      · rw [if_neg hname, if_neg (Ne.symm hname), ih]

theorem mem_keys_foldl :
    name ∈ (done.foldl addCondition .empty).keys ↔ name ∈ done.map Prod.fst := by
  rw [← not_iff_not, ← OrderedDict.get?_eq_none_iff, ← textsAt_eq_nil, get?_foldl]
  by_cases hrepeatable : name ∈ legalRepeatableConditions
  · by_cases hempty : textsAt name done = []
    · simp [hrepeatable, hempty]
    · simp [hrepeatable, hempty]
  · simp [hrepeatable]

theorem accepts_conditions :
    Accepts acceptsCondition addCondition .empty done ↔
      (∀ condition ∈ done, IsLegal legalConditions condition) ∧
        ((done.map Prod.fst).filter
          fun name => decide (name ∉ legalRepeatableConditions)).Nodup := by
  induction done using List.reverseRecOn with
  | nil => simp [Accepts]
  | append_singleton done child ih =>
      have htyped : child.1 ∈ legalRepeatableConditions →
          ∀ text, (done.foldl addCondition .empty).get? child.1 ≠ some (.text text) := by
        intro hrepeatable text
        rw [get?_foldl, if_pos hrepeatable]
        split
        · simp
        · simp
      have hlast : Accepts acceptsCondition addCondition (done.foldl addCondition .empty) [child] ↔
          IsLegal legalConditions child ∧
            (child.1 ∈ done.map Prod.fst → child.1 ∈ legalRepeatableConditions) := by
        rw [Accepts, Accepts, and_true, acceptsCondition, mem_keys_foldl]
        exact and_congr_right fun _ => and_iff_left htyped
      rw [Xml.accepts_append, ih, hlast, List.map_append, List.filter_append,
        List.forall_mem_append, List.map_singleton, List.forall_mem_singleton,
        List.filter_singleton]
      by_cases hrepeatable : child.1 ∈ legalRepeatableConditions
      · rw [decide_eq_false (not_not.mpr hrepeatable), cond_false, List.append_nil]
        tauto
      · have hmem : child.1 ∈ (done.map Prod.fst).filter
            (fun name => decide (name ∉ legalRepeatableConditions)) ↔
              child.1 ∈ done.map Prod.fst := by
          rw [List.mem_filter, decide_eq_true hrepeatable]
          exact and_iff_left rfl
        rw [decide_eq_true hrepeatable, cond_true, ← List.concat_eq_append,
          List.nodup_concat, hmem]
        tauto

/-- A condition that is not repeated has the only text of its kind. -/
theorem textsAt_of_once {condition : Child} (hmem : condition ∈ done)
    (hsingle : condition.1 ∉ legalRepeatableConditions)
    (honce : ((done.map Prod.fst).filter
      fun name => decide (name ∉ legalRepeatableConditions)).Nodup) :
    textsAt condition.1 done = [textOf condition] := by
  induction done with
  | nil => cases hmem
  | cons first done ih =>
      have hsplit : textsAt condition.1 (first :: done) =
          if first.1 = condition.1 then textOf first :: textsAt condition.1 done
          else textsAt condition.1 done := by
        rw [textsAt, List.filter_cons]
        by_cases hname : first.1 = condition.1
        · simp [hname, textsAt]
        · simp [hname, textsAt]
      rw [hsplit]
      rw [List.map_cons, List.filter_cons] at honce
      by_cases hname : first.1 = condition.1
      · rw [if_pos hname]
        rw [hname, if_pos (decide_eq_true hsingle), List.nodup_cons] at honce
        have hnot : condition.1 ∉ done.map Prod.fst := fun hin =>
          honce.1 (List.mem_filter.mpr ⟨hin, decide_eq_true hsingle⟩)
        rw [textsAt_eq_nil.mpr hnot]
        rcases List.mem_cons.mp hmem with rfl | hlater
        · rfl
        · exact absurd (List.mem_map_of_mem hlater) hnot
      · rw [if_neg hname]
        rcases List.mem_cons.mp hmem with rfl | hlater
        · exact absurd rfl hname
        · refine ih hlater ?_
          split at honce
          · exact (List.nodup_cons.mp honce).2
          · exact honce

/-- The rule that an element describes. -/
def ofElement (element : Child) : Rule :=
  ruleAt ruleTag ((actionsOf element).foldl addAction (none, none))
    ((conditionsOf element).foldl addCondition .empty)

theorem ofElement_read {element : Child} (hrule : IsRule element) :
    RuleRead element (ofElement element) where
  action := by
    intro action haction
    rw [ofElement, haction]
    exact ⟨rfl, rfl⟩
  keys name := mem_keys_foldl
  single := by
    intro condition hcondition hsingle
    change ((conditionsOf element).foldl addCondition .empty).get? condition.1 = _
    rw [get?_foldl, if_neg hsingle, textsAt_of_once hcondition hsingle hrule.once]
    rfl
  repeated := by
    intro condition hcondition hrepeatable
    have hmem : textOf condition ∈ textsAt condition.1 (conditionsOf element) :=
      List.mem_map.mpr ⟨condition, List.mem_filter.mpr ⟨hcondition, decide_eq_true rfl⟩, rfl⟩
    change ((conditionsOf element).foldl addCondition .empty).get? condition.1 = _
    rw [get?_foldl, if_pos hrepeatable, if_neg (List.ne_nil_of_mem hmem)]

/-- What a new rule makes of the content of its element. -/
theorem read_rule {inner : List Node} :
    (∃ text read, Xml.readNodes readers r inner [] init = .ok (text, read) ∧
      read.endElement ruleTag text = .ok self') ↔
      IsRule (ruleTag, inner) ∧ self' = ofElement (ruleTag, inner) := by
  have hinit : init = ruleAt ruleTag (none, none) .empty := rfl
  have hread : ∀ read, readChildren readers r (children inner) init = .ok read ↔ _ := fun read =>
    @Xml.readChildren_accepted _ _ _ readers r read _ acceptsPart addPart
      (fun before => ruleAt ruleTag before.1 before.2) ((none, none), .empty) (children inner)
      fun before part objects' => readChild_part
  have hconditions : ((conditionsOf (ruleTag, inner)).foldl addCondition .empty).items ≠ [] ↔
      conditionsOf (ruleTag, inner) ≠ [] := by
    rw [not_iff_not, ← List.map_eq_nil_iff (f := Prod.fst), ← List.map_eq_nil_iff (f := Prod.fst),
      List.eq_nil_iff_forall_not_mem, List.eq_nil_iff_forall_not_mem]
    exact forall_congr' fun name => not_congr mem_keys_foldl
  constructor
  · rintro ⟨text, read, hnodes, hend⟩
    obtain ⟨haccepts, rfl⟩ := (hread read).mp (Xml.readNodes_eq_ok.mp ⟨text, hnodes⟩)
    rw [foldl_addPart] at hend
    obtain ⟨hparts, hactions, hconds⟩ := (accepts_parts _ _).mp haccepts
    obtain ⟨hlegal, honce⟩ := accepts_conditions.mp hconds
    obtain ⟨-, haction, hne, rfl⟩ := endElement_rule.mp hend
    refine ⟨⟨rfl, hparts, ?_, hconditions.mp hne, hlegal, honce⟩, rfl⟩
    rcases accepts_actions.mp hactions with hnone | hone
    · rw [hnone] at haction
      exact absurd rfl haction
    · exact hone
  · rintro ⟨⟨-, hparts, ⟨action, haction, hlegal⟩, hne, hconds, honce⟩, rfl⟩
    have haccepts : Accepts acceptsPart addPart ((none, none), .empty) (children inner) :=
      (accepts_parts _ _).mpr ⟨hparts, accepts_actions.mpr (.inr ⟨action, haction, hlegal⟩),
        accepts_conditions.mpr ⟨hconds, honce⟩⟩
    obtain ⟨text, hnodes⟩ := (@Xml.readNodes_eq_ok _ _ _ readers r [] _ _ _).mpr
      ((hread _).mpr ⟨haccepts, rfl⟩)
    refine ⟨text, _, hnodes, ?_⟩
    rw [foldl_addPart]
    have hname : ∀ name ∈ legalActions, name ≠ [] := by decide
    refine endElement_rule.mpr ⟨rfl, ?_, hconditions.mpr hne, rfl⟩
    change (((actionsOf (ruleTag, inner)).foldl addAction (none, none)).1).getD [] ≠ []
    rw [haction]
    exact hname _ hlegal.1

end Rule

namespace LifecycleConfig

variable {self self' : LifecycleConfig} {child : Child} {done : List Rule}

/-- The configuration that a document describes. -/
def ofDocument (root : Child) : LifecycleConfig :=
  ⟨(children root.2).map Rule.ofElement, true⟩

theorem atRule_last (rule : Rule) (step : Rule → Except LifecycleError Rule) :
    atRule done.length step ⟨done ++ [rule], true⟩ =
      (step rule).map fun rule => ⟨done ++ [rule], true⟩ := by
  have hget : (done ++ [rule])[done.length]? = some rule := List.getElem?_concat_length
  have hset : ∀ rule', (done ++ [rule]).set done.length rule' = done ++ [rule'] := by
    intro rule'
    rw [List.set_append_right _ _ (Nat.le_refl _), Nat.sub_self]
    rfl
  simp only [atRule, hget, hset]

/-- A rule reads its content as if it were alone. -/
theorem readNodes_rule (inner : List Node) (text : Text) (rule : Rule) :
    Xml.readNodes readers (.rule done.length) inner text ⟨done ++ [rule], true⟩ =
      (Xml.readNodes Rule.readers (.rule done.length) inner text rule).map
        fun read => (read.1, ⟨done ++ [read.2], true⟩) := by
  refine @Xml.readNodes_embed _ _ _ _ Rule.readers readers
    (fun rule => ⟨done ++ [rule], true⟩) (.rule done.length) ?_ ?_ ?_ inner text rule
  · intro name rule
    change (atRule _ _ _).map _ = Except.map _ ((rule.startElement name).map _)
    rw [atRule_last]
    cases rule.startElement name with
    | error e => rfl
    | ok started => rfl
  · intro name rule started hstart
    obtain ⟨rule', -, rfl⟩ := exists_of_map_eq_ok hstart
    rfl
  · intro name text rule
    exact atRule_last rule _

/-- What is read as a rule of a configuration. -/
theorem readChild_rule :
    readChild readers .config child ⟨done, true⟩ = .ok self' ↔
      IsRule child ∧ self' = ⟨done ++ [Rule.ofElement child], true⟩ := by
  obtain ⟨name, inner⟩ := child
  by_cases hname : name = ruleTag
  · subst hname
    have hstart : readers.startElement .config ruleTag ⟨done, true⟩ =
        .ok (some (.rule done.length), ⟨done ++ [Rule.init], true⟩) := rfl
    rw [Xml.readChild_eq_ok]
    constructor
    · rintro ⟨new, started, text, read, hstarted, hread, hend⟩
      obtain ⟨rfl, rfl⟩ := Prod.mk.inj (Except.ok.inj (hstart.symm.trans hstarted))
      rw [Option.getD_some, readNodes_rule] at hread
      obtain ⟨⟨text', rule⟩, hrule, heq⟩ := exists_of_map_eq_ok hread
      obtain ⟨rfl, rfl⟩ := Prod.mk.inj heq
      change atRule done.length _ _ = _ at hend
      rw [atRule_last] at hend
      obtain ⟨rule', hended, rfl⟩ := exists_of_map_eq_ok hend
      obtain ⟨hrule, rfl⟩ := Rule.read_rule.mp ⟨_, _, hrule, hended⟩
      exact ⟨hrule, rfl⟩
    · rintro ⟨hrule, rfl⟩
      obtain ⟨text, rule, hread, hend⟩ :=
        (@Rule.read_rule _ (.rule done.length) inner).mpr ⟨hrule, rfl⟩
      refine ⟨_, _, text, ⟨done ++ [rule], true⟩, hstart, ?_, ?_⟩
      · rw [Option.getD_some, readNodes_rule, hread]
        rfl
      · change atRule done.length _ _ = _
        rw [atRule_last, hend]
        rfl
  · refine iff_of_false ?_ fun h => hname h.1.name
    rw [Xml.readChild_eq_ok]
    rintro ⟨new, started, text, read, hstart, -, -⟩
    -- The root tag was seen before, so an element of its name is refused, too.
    change startElement name ⟨done, true⟩ = _ at hstart
    rw [startElement, if_neg hname] at hstart
    split at hstart
    · cases hstart
    · cases hstart

/-- What a new configuration makes of the root element of a document. -/
theorem readChild_root :
    readChild readers .config child init = .ok self' ↔
      IsLifecycle child ∧ self' = ofDocument child := by
  obtain ⟨name, inner⟩ := child
  by_cases hname : name = lifecycleConfigTag
  · subst hname
    have hstart : readers.startElement .config lifecycleConfigTag init = .ok (none, ⟨[], true⟩) :=
      rfl
    have hread : ∀ read, readChildren readers .config (children inner) ⟨[], true⟩ = .ok read ↔
        (∀ rule ∈ children inner, IsRule rule) ∧
          read = ⟨[] ++ (children inner).map Rule.ofElement, true⟩ := fun read =>
      @Xml.readChildren_collected _ _ _ readers .config read _ IsRule Rule.ofElement
        (fun rules => ⟨rules, true⟩) [] (children inner)
        fun before child objects' => readChild_rule
    rw [Xml.readChild_eq_ok]
    constructor
    · rintro ⟨new, started, text, read, hstarted, hnodes, hend⟩
      obtain ⟨rfl, rfl⟩ := Prod.mk.inj (Except.ok.inj (hstart.symm.trans hstarted))
      obtain ⟨hrules, rfl⟩ := (hread read).mp (Xml.readNodes_eq_ok.mp ⟨text, hnodes⟩)
      exact ⟨⟨rfl, hrules⟩, (Except.ok.inj hend).symm⟩
    · rintro ⟨⟨-, hrules⟩, rfl⟩
      obtain ⟨text, hnodes⟩ := (@Xml.readNodes_eq_ok _ _ _ readers .config [] _ _ _).mpr
        ((hread _).mpr ⟨hrules, rfl⟩)
      exact ⟨_, _, text, _, hstart, hnodes, rfl⟩
  · refine iff_of_false ?_ fun h => hname h.1.1
    rw [Xml.readChild_eq_ok]
    rintro ⟨new, started, text, read, hstart, -, -⟩
    change startElement name init = _ at hstart
    rw [startElement, if_neg hname] at hstart
    split at hstart
    · cases hstart
    · cases hstart

/-- The name under which an object is on the stack. -/
def tagOf : Ref → Text
  | .config => "root".toList
  | .rule _ => ruleTag

theorem tagged_readers : XmlHandler.Tagged readers tagOf where
  given := by
    intro top name self new self' hstart
    cases top with
    | config =>
        have hgiven : Meets (fun started => ∀ new, started.1 = some new → tagOf new = name)
            (fun _ => True) (self.startElement name) := by
          rw [startElement]
          refine .ite (fun _ => .ite (fun _ => trivial) fun _ => ?_) fun _ =>
            .ite (fun hname => .ite (fun _ => trivial) fun _ => ?_) fun _ => trivial
          · exact fun new h => by cases h
          · exact fun new h => by cases h; exact hname.symm
        change self.startElement name = _ at hstart
        rw [hstart] at hgiven
        exact hgiven new rfl
    | rule i =>
        obtain ⟨read, -, heq⟩ := exists_of_map_eq_ok hstart
        cases heq
  own := by
    intro top self self' hstart
    cases top with
    | config => cases hstart
    | rule i =>
        obtain ⟨read, hread, -⟩ := exists_of_map_eq_ok hstart
        change self.atRule i _ = _ at hread
        rw [atRule] at hread
        split at hread
        · cases hread
        · obtain ⟨rule', hrule, -⟩ := exists_of_map_eq_ok hread
          cases hrule

theorem read_eq (name : Text) (inner : List Node) :
    read (Node.element name inner).events =
      (readChild readers .config (name, inner) init).mapError .refused :=
  XmlHandler.checkedParse_element tagged_readers rfl name inner init

/-! ## Only the errors of the parser are raised -/

/-- Conditions that may be repeated are kept as lists. -/
def RuleTyped (rule : Rule) : Prop :=
  ∀ name ∈ legalRepeatableConditions, ∀ text, rule.conditions.get? name ≠ some (.text text)

/-- The rules of a configuration are kept so. -/
def Typed (self : LifecycleConfig) : Prop := ∀ rule ∈ self.rules, RuleTyped rule

/-- An object is among those of a configuration. -/
def Present (self : LifecycleConfig) (r : Ref) : Prop :=
  match r with
  | .config => True
  | .rule i => i < self.rules.length

/-- `InvalidLifecycleConfigError`. -/
def IsInvalid (e : LifecycleError) : Prop := ∃ message, e = .invalid message

variable {rule : Rule} {name value : Text}

theorem meets_startElement (htyped : RuleTyped rule) :
    Meets RuleTyped IsInvalid (rule.startElement name) := by
  have hvalid : ∀ parent, Meets (fun _ => True) IsInvalid (rule.validateStartTag name parent) :=
    fun _ => .ite (fun _ => ⟨_, rfl⟩) fun _ => trivial
  rw [Rule.startElement]
  refine .ite (fun _ => ?_) fun _ => .ite (fun _ => ?_) fun _ => .ite (fun _ => ?_) fun _ =>
    .ite (fun _ => ?_) fun _ => ⟨_, rfl⟩
  · exact (hvalid _).bind fun _ _ => htyped
  · exact (hvalid _).bind fun _ _ => .ite (fun _ => ⟨_, rfl⟩) fun _ => htyped
  · exact (hvalid _).bind fun _ _ => htyped
  · exact (hvalid _).bind fun _ _ => .ite (fun _ => ⟨_, rfl⟩) fun _ => htyped

theorem meets_conditionValue (htyped : RuleTyped rule) :
    Meets (fun stored => name ∈ legalRepeatableConditions → ∀ text, stored ≠ .text text) IsInvalid
      (rule.conditionValue name value) := by
  rw [Rule.conditionValue]
  split
  · rename_i hrepeatable
    split
    · exact fun _ text h => by cases h
    · exact fun _ text h => by cases h
    · rename_i text htext
      exact absurd htext (htyped name hrepeatable text)
  · rename_i hsingle
    exact fun hrepeatable => absurd hrepeatable hsingle

theorem meets_endElement (htyped : RuleTyped rule) :
    Meets RuleTyped IsInvalid (rule.endElement name value) := by
  have hvalid : Meets (fun _ => True) IsInvalid (rule.validateEndTag name) :=
    .ite (fun _ => ⟨_, rfl⟩) fun _ => trivial
  have hrule : Meets (fun _ => True) IsInvalid rule.validate :=
    .ite (fun _ => ⟨_, rfl⟩) fun _ => .ite (fun _ => ⟨_, rfl⟩) fun _ => trivial
  rw [Rule.endElement]
  refine hvalid.bind fun _ _ => .ite (fun _ => ?_) fun _ => .ite (fun _ => htyped) fun _ =>
    .ite (fun _ => htyped) fun _ => .ite (fun _ => htyped) fun _ => .ite (fun _ => ?_) fun _ =>
      ⟨_, rfl⟩
  · exact hrule.bind fun _ _ => htyped
  · refine (meets_conditionValue htyped).bind fun stored hstored other hother text => ?_
    change (rule.conditions.set name stored).get? other ≠ _
    rw [OrderedDict.get?_set]
    split
    · rename_i hname
      exact fun h => hstored (hname ▸ hother) text (Option.some.inj h)
    · exact htyped other hother text

theorem typed_set {i : ℕ} (htyped : self.Typed) (hrule : RuleTyped rule) :
    ({ self with rules := self.rules.set i rule } : LifecycleConfig).Typed := by
  intro other hother
  rcases List.mem_or_eq_of_mem_set hother with hmem | rfl
  · exact htyped other hmem
  · exact hrule

theorem present_set {i : ℕ} {r : Ref} (hpresent : self.Present r) :
    ({ self with rules := self.rules.set i rule } : LifecycleConfig).Present r := by
  cases r with
  | config => trivial
  | rule j =>
      change j < (self.rules.set i rule).length
      rw [List.length_set]
      exact hpresent

/-- What a step of a rule that is present keeps and raises. -/
theorem meets_atRule {i : ℕ} {step : Rule → Except LifecycleError Rule} (htyped : self.Typed)
    (hpresent : self.Present (.rule i))
    (hstep : ∀ rule, RuleTyped rule → Meets RuleTyped IsInvalid (step rule)) :
    Meets (Xml.Keeps Typed (fun r self => self.Present r) self) IsInvalid
      (self.atRule i step) := by
  have hget : self.rules[i]? = some self.rules[i] := List.getElem?_eq_getElem hpresent
  rw [atRule, hget]
  exact (hstep _ (htyped _ (List.getElem_mem hpresent))).map fun rule hrule =>
    ⟨typed_set htyped hrule, fun r hr => present_set hr⟩

/-- A configuration with one more rule. -/
theorem safe_added (htyped : self.Typed) :
    ({ self with rules := self.rules ++ [Rule.init] } : LifecycleConfig).Typed ∧
      ∀ r, self.Present r ∨ r = .rule self.rules.length →
        ({ self with rules := self.rules ++ [Rule.init] } : LifecycleConfig).Present r := by
  constructor
  · intro rule hrule
    rcases List.mem_append.mp hrule with hrule | hrule
    · exact htyped rule hrule
    · obtain rfl := List.mem_singleton.mp hrule
      intro name _ text h
      cases h
  · intro r hr
    cases r with
    | config => trivial
    | rule j =>
        change j < (self.rules ++ [Rule.init]).length
        rw [List.length_append, List.length_singleton]
        rcases hr with hlt | heq
        · exact Nat.lt_succ_of_lt hlt
        · cases heq
          exact Nat.lt_succ_self _

theorem safe_readers : Xml.Safe readers Typed (fun r self => self.Present r) IsInvalid where
  start := by
    intro top name self htyped hpresent
    cases top with
    | config =>
        change Meets _ _ (self.startElement name)
        rw [startElement]
        refine .ite (fun _ => .ite (fun _ => ⟨_, rfl⟩) fun _ => ?_) fun _ =>
          .ite (fun _ => .ite (fun _ => ⟨_, rfl⟩) fun _ => ?_) fun _ => ⟨_, rfl⟩
        · exact ⟨trivial, htyped, fun r hr => by cases r <;> exact hr⟩
        · obtain ⟨htyped', hpresent'⟩ := safe_added htyped
          exact ⟨hpresent' _ (.inr rfl), htyped', fun r hr => hpresent' r (.inl hr)⟩
    | rule i =>
        refine (meets_atRule htyped hpresent fun rule hrule => meets_startElement hrule).map ?_
        exact fun read hread => ⟨hread.2 _ hpresent, hread⟩
  finish := by
    intro top name text self htyped hpresent
    cases top with
    | config => exact .ite (fun _ => ⟨htyped, fun r hr => hr⟩) fun _ => ⟨_, rfl⟩
    | rule i => exact meets_atRule htyped hpresent fun rule hrule => meets_endElement hrule

/-- A document of the grammar is read as the rules that it describes; all others are refused by
the parser. -/
theorem read_iff_isLifecycle (name : Text) (inner : List Node) :
    (IsLifecycle (name, inner) → ∃ self,
      read (Node.element name inner).events = .ok self ∧
        List.Forall₂ RuleRead (children inner) self.rules) ∧
    ((∃ message, read (Node.element name inner).events = .error (.refused (.invalid message))) ↔
      ¬IsLifecycle (name, inner)) := by
  rw [read_eq]
  constructor
  · intro hlifecycle
    rw [readChild_root.mpr ⟨hlifecycle, rfl⟩]
    refine ⟨_, rfl, ?_⟩
    rw [ofDocument, List.forall₂_map_right_iff, List.forall₂_same]
    exact fun rule hrule => Rule.ofElement_read (hlifecycle.2 rule hrule)
  · cases hread : readChild readers .config (name, inner) init with
    | error e =>
        have hnot : ¬IsLifecycle (name, inner) := by
          intro hlifecycle
          rw [readChild_root.mpr ⟨hlifecycle, rfl⟩] at hread
          cases hread
        have htyped : init.Typed := fun rule hrule => absurd hrule List.not_mem_nil
        obtain ⟨message, rfl⟩ := Xml.raised_of_readChild safe_readers htyped
          (show init.Present .config from trivial) hread
        exact iff_of_true ⟨message, rfl⟩ hnot
    | ok self =>
        refine iff_of_false ?_ (not_not.mpr (readChild_root.mp hread).1)
        rintro ⟨message, h⟩
        cases h

end LifecycleConfig

end Boto.GS.Lifecycle
