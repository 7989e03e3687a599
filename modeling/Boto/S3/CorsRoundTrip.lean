import Boto.S3.Cors
import Mathlib.Data.List.Induction

/-!
# Reading back rules for cross-origin requests

A configuration is written as a tree of elements.  What was written into it plainly is read
back, and nothing else is: the rules that come back cost what was written for them.
-/

namespace Boto.S3

open Auth (strInt)
open Xml (Node)

/-! ## What is asked for -/

namespace RuleArguments

variable (self : RuleArguments)

/-- The rule that the arguments stand for. -/
def meant : CORSRule where
  allowedMethod := .list self.allowedMethod.meant
  allowedOrigin := .list self.allowedOrigin.meant
  id := self.id
  allowedHeader := .list ((self.allowedHeader.map Given.meant).getD [])
  maxAgeSeconds := self.maxAgeSeconds.map fun seconds : ℕ => .int seconds
  exposeHeader := .list ((self.exposeHeader.map Given.meant).getD [])

/-- The strings among the arguments. -/
def strings : List Text :=
  self.allowedMethod.meant ++ (self.allowedOrigin.meant ++
    ((self.allowedHeader.map Given.meant).getD [] ++
      ((self.exposeHeader.map Given.meant).getD [] ++ self.id.toList)))

/-- The strings are written as they are read. -/
def IsPlain : Prop := ∀ text ∈ self.strings, Xml.isPlain text = true

/-- The headers are not one string, unless this has one character. -/
def HeadersListed : Prop := ∀ header, self.allowedHeader = some (.one header) → header.length = 1

end RuleArguments

/-- The configuration after some calls of `add_rule`. -/
def CORSConfiguration.built (calls : List RuleArguments) : CORSConfiguration :=
  calls.foldl (fun self arguments => CORSConfiguration.addRule arguments self) []

/-- The document of a configuration is well formed and has the rules that were added. -/
def CORSConfiguration.RoundTrips (calls : List RuleArguments) : Prop :=
  ∃ text events, (CORSConfiguration.built calls).toXml = .ok text ∧
    Xml.parse text = some events ∧
      XmlHandler.parse CORSConfiguration.methods .configuration [] events =
        .ok (calls.map RuleArguments.meant)

/-! ## Rules as trees -/

/-- The values of a rule that stand in its element. -/
structure RuleContent where
  methods : List Text
  origins : List Text
  headers : List Text
  exposed : List Text
  age : Option ℤ
  id : Option Text

namespace RuleContent

/-- The elements for some values. -/
def nodes (self : RuleContent) : List Node :=
  self.methods.map (Node.leaf "AllowedMethod".toList) ++
    (self.origins.map (Node.leaf "AllowedOrigin".toList) ++
      (self.headers.map (Node.leaf "AllowedHeader".toList) ++
        (self.exposed.map (Node.leaf "ExposeHeader".toList) ++
          ((self.age.map strInt).toList.map (Node.leaf "MaxAgeSeconds".toList) ++
            self.id.toList.map (Node.leaf "ID".toList)))))

/-- The texts in the elements. -/
def texts (self : RuleContent) : List Text :=
  self.methods ++ (self.origins ++ (self.headers ++ (self.exposed ++
    ((self.age.map strInt).toList ++ self.id.toList))))

/-- The element of a rule. -/
def element (self : RuleContent) : Node := .element "CORSRule".toList self.nodes

/-- The rule with the values. -/
def rule (self : RuleContent) : CORSRule where
  allowedMethod := .list self.methods
  allowedOrigin := .list self.origins
  id := self.id
  allowedHeader := .list self.headers
  maxAgeSeconds := self.age.map Seconds.int
  exposeHeader := .list self.exposed

end RuleContent

/-- The strings of an attribute that holds a list. -/
def Values.listed : Values → List Text
  | .text _ => []
  | .list values => values

/-- The strings of a rule. -/
def CORSRule.contents (self : CORSRule) : List Text :=
  self.allowedMethod.listed ++ (self.allowedOrigin.listed ++ (self.allowedHeader.listed ++
    (self.exposeHeader.listed ++ self.id.toList)))

/-- The values that are written for some arguments. -/
def RuleArguments.content (self : RuleArguments) : RuleContent where
  methods := self.allowedMethod.meant
  origins := self.allowedOrigin.meant
  headers := match self.allowedHeader with
    | none => []
    | some (.one header) => header.map fun c => [c]
    | some (.many headers) => headers
  exposed := (self.exposeHeader.map Given.meant).getD []
  age := (self.maxAgeSeconds.filter (· ≠ 0)).map fun seconds : ℕ => (seconds : ℤ)
  id := self.id

/-- The names of the elements that hold elements. -/
def IsCorsContainer (name : Text) : Prop :=
  name ∈ ["CORSConfiguration".toList, "CORSRule".toList]

instance : DecidablePred IsCorsContainer := fun name =>
  inferInstanceAs (Decidable (name ∈ ["CORSConfiguration".toList, "CORSRule".toList]))

/-! ## Writing -/

theorem simpleElement_eq (name value : Text) :
    simpleElement name value = (Node.leaf name value).render := by
  simp [simpleElement, Node.leaf, Node.render, Node.renderOf]

theorem flatMap_simpleElement (name : Text) (values : List Text) :
    values.flatMap (simpleElement name) = Node.renderOf (values.map (Node.leaf name)) := by
  rw [Xml.renderOf_map]
  congr 1
  funext value
  exact simpleElement_eq name value

/-- The rule that `add_rule` adds. -/
def RuleArguments.added (self : RuleArguments) : CORSRule where
  allowedMethod := .list self.allowedMethod.meant
  allowedOrigin := .list self.allowedOrigin.meant
  id := self.id
  allowedHeader := match self.allowedHeader with
    | none => .list []
    | some (.one header) => .text header
    | some (.many headers) => .list headers
  maxAgeSeconds := self.maxAgeSeconds.map fun seconds : ℕ => .int seconds
  exposeHeader := match self.exposeHeader with
    | none => .list []
    | some headers => .list headers.meant

theorem built_eq (calls : List RuleArguments) :
    CORSConfiguration.built calls = calls.map RuleArguments.added := by
  have hfold : ∀ (calls : List RuleArguments) (start : CORSConfiguration),
      calls.foldl (fun self arguments => CORSConfiguration.addRule arguments self) start =
        start ++ calls.map RuleArguments.added := by
    intro calls
    induction calls with
    | nil => intro start; simp
    | cons call calls ih =>
        intro start
        rw [List.foldl_cons, ih, List.map_cons]
        change (start ++ [call.added]) ++ _ = _
        rw [List.append_assoc]
        rfl
  exact hfold calls []

theorem maxAgeXml_added (arguments : RuleArguments) :
    arguments.added.maxAgeXml = .ok (Node.renderOf
      ((arguments.content.age.map strInt).toList.map (Node.leaf "MaxAgeSeconds".toList))) := by
  rw [CORSRule.maxAgeXml, RuleArguments.content, RuleArguments.added]
  cases arguments.maxAgeSeconds with
  | none => rfl
  | some seconds =>
      by_cases hzero : seconds = 0
      · subst hzero
        rfl
      · have hkept : (some seconds).filter (fun seconds => decide (seconds ≠ 0)) =
            some seconds := by
          rw [Option.filter_some, if_pos (decide_eq_true hzero)]
        rw [hkept]
        dsimp only [Option.map_some]
        rw [if_neg (Int.natCast_ne_zero.mpr hzero), simpleElement_eq]
        simp [Node.renderOf]

theorem iter_added (arguments : RuleArguments) :
    arguments.added.allowedHeader.iter = arguments.content.headers ∧
      arguments.added.exposeHeader.iter = arguments.content.exposed := by
  rw [RuleArguments.content, RuleArguments.added]
  constructor
  · rcases arguments.allowedHeader with _ | header | headers <;> rfl
  · cases arguments.exposeHeader <;> rfl

theorem idXml_added (arguments : RuleArguments) :
    arguments.added.idXml =
      Node.renderOf (arguments.content.id.toList.map (Node.leaf "ID".toList)) := by
  have hsame : arguments.added.id = arguments.content.id := rfl
  have hne : arguments.content.id ≠ some [] := arguments.id_ne
  rw [CORSRule.idXml, hsame]
  cases hid : arguments.content.id with
  | none => rfl
  | some id =>
      cases id with
      | nil => exact absurd hid hne
      | cons c id => simp [Node.renderOf, simpleElement_eq]

/-- What is written for a rule is its element. -/
theorem toXml_added (arguments : RuleArguments) :
    arguments.added.toXml = .ok arguments.content.element.render := by
  obtain ⟨hheaders, hexposed⟩ := iter_added arguments
  rw [CORSRule.toXml, hheaders, hexposed, maxAgeXml_added, idXml_added]
  simp only [bind, Except.bind, pure, Except.pure]
  rw [flatMap_simpleElement, flatMap_simpleElement, flatMap_simpleElement,
    flatMap_simpleElement, RuleContent.element, Node.render, RuleContent.nodes]
  simp only [Xml.renderOf_append]
  have hopen : "<CORSRule>".toList = '<' :: ("CORSRule".toList ++ ['>']) := rfl
  have hclose : "</CORSRule>".toList = '<' :: '/' :: ("CORSRule".toList ++ ['>']) := rfl
  rw [hopen, hclose]
  congr 1
  simp only [List.append_assoc, List.cons_append, List.nil_append]
  rfl

theorem mapM_toXml (calls : List RuleArguments) :
    (calls.map RuleArguments.added).mapM CORSRule.toXml =
      .ok (calls.map fun arguments => arguments.content.element.render) := by
  induction calls with
  | nil => rfl
  | cons call calls ih =>
      rw [List.map_cons, List.mapM_cons, toXml_added]
      simp only [bind, Except.bind, ih]
      rfl

/-- The document of a configuration. -/
theorem toXml_built (calls : List RuleArguments) :
    (CORSConfiguration.built calls).toXml = .ok (Xml.document []
      ("CORSConfiguration".toList ++ ['>']) "CORSConfiguration".toList
        (Node.renderOf (calls.map fun arguments => arguments.content.element))) := by
  rw [built_eq, CORSConfiguration.toXml, mapM_toXml]
  simp only [bind, Except.bind, pure, Except.pure]
  rw [Xml.document, Xml.renderOf_map, List.flatMap_def]
  have hopen : "<CORSConfiguration>".toList =
      '<' :: ("CORSConfiguration".toList ++ ['>']) := rfl
  have hclose : "</CORSConfiguration>".toList =
      '<' :: '/' :: ("CORSConfiguration".toList ++ ['>']) := rfl
  rw [hopen, hclose]
  simp only [List.append_assoc, List.cons_append, List.nil_append]

/-! ## Reading -/

section

variable {done : List CORSRule} {tag : Text}

theorem endElement_last (rule : CORSRule) (name value : Text) :
    CORSConfiguration.methods.endElement (.rule done.length) name value (done ++ [rule]) =
      (rule.endElement name value).map fun rule => done ++ [rule] := by
  have hget : (done ++ [rule])[done.length]? = some rule := List.getElem?_concat_length
  have hset : ∀ rule', (done ++ [rule]).set done.length rule' = done ++ [rule'] := by
    intro rule'
    rw [List.set_append_right _ _ (Nat.le_refl _), Nat.sub_self]
    rfl
  simp only [CORSConfiguration.methods, hget, hset]

theorem reads_age {rule : CORSRule} (seconds : Option ℕ) (hage : rule.maxAgeSeconds = none) :
    Reads CORSConfiguration.methods "CORSRule".toList (.rule done.length)
      (((seconds.map fun n : ℕ => (n : ℤ)).map strInt).toList.map
        (Node.leaf "MaxAgeSeconds".toList))
      (done ++ [rule]) (done ++
        [{ rule with maxAgeSeconds := (seconds.map fun n : ℕ => (n : ℤ)).map Seconds.int }]) := by
  cases seconds with
  | none =>
      have hsame : { rule with maxAgeSeconds := none } = rule := by rw [← hage]
      rw [Option.map_none, Option.map_none, Option.map_none, hsame]
      exact .nil _ _ _ _
  | some n =>
      refine .leaf (by decide) rfl ?_
      rw [endElement_last, strInt_natCast]
      change (((parseInt (decimal n)).map fun seconds =>
        { rule with maxAgeSeconds := some (.int seconds) }).map _) = _
      rw [parseInt_decimal]
      rfl

theorem reads_id {rule : CORSRule} (id : Option Text) (hid : rule.id = none) :
    Reads CORSConfiguration.methods "CORSRule".toList (.rule done.length)
      (id.toList.map (Node.leaf "ID".toList)) (done ++ [rule])
      (done ++ [{ rule with id := id }]) := by
  cases id with
  | none =>
      have hsame : { rule with id := none } = rule := by rw [← hid]
      rw [hsame]
      exact .nil _ _ _ _
  | some id =>
      refine .leaf (by decide) rfl ?_
      rw [endElement_last]
      rfl

theorem reads_values (name : Text) (rule : List Text → CORSRule) (values : List Text)
    (hne : "CORSRule".toList ≠ name)
    (hend : ∀ values value,
      (rule values).endElement name value = .ok (rule (values ++ [value]))) :
    Reads CORSConfiguration.methods "CORSRule".toList (.rule done.length)
      (values.map (Node.leaf name)) (done ++ [rule []]) (done ++ [rule values]) := by
  have hlast : ∀ values value, CORSConfiguration.methods.endElement (.rule done.length) name
      value (done ++ [rule values]) = .ok (done ++ [rule (values ++ [value])]) := by
    intro values value
    rw [endElement_last, hend]
    rfl
  exact @Reads.leaves _ _ CORSConfiguration.methods "CORSRule".toList (.rule done.length) name
    (fun values => done ++ [rule values]) hne (fun values => rfl) hlast [] values

/-- The elements of a rule are read into a new rule. -/
theorem reads_nodes (content : RuleContent) (seconds : Option ℕ)
    (hage : content.age = seconds.map fun n : ℕ => (n : ℤ)) :
    Reads CORSConfiguration.methods "CORSRule".toList (.rule done.length) content.nodes
      (done ++ [CORSRule.init]) (done ++ [content.rule]) := by
  obtain ⟨methods, origins, headers, exposed, age, id⟩ := content
  dsimp only at hage
  subst hage
  -- The attributes are filled in the order in which the elements are written.
  refine (reads_values "AllowedMethod".toList (fun values =>
    { CORSRule.init with allowedMethod := .list values }) methods (by decide)
    fun values value => rfl).append ?_
  refine (reads_values "AllowedOrigin".toList (fun values =>
    { CORSRule.init with allowedMethod := .list methods, allowedOrigin := .list values })
    origins (by decide) fun values value => rfl).append ?_
  refine (reads_values "AllowedHeader".toList (fun values =>
    ⟨.list methods, .list origins, none, .list values, none, .list []⟩)
    headers (by decide) fun values value => rfl).append ?_
  refine (reads_values "ExposeHeader".toList (fun values =>
    ⟨.list methods, .list origins, none, .list headers, none, .list values⟩)
    exposed (by decide) fun values value => rfl).append ?_
  exact (reads_age seconds rfl).append (reads_id id rfl)

theorem reads_element (content : RuleContent) (seconds : Option ℕ)
    (hage : content.age = seconds.map fun n : ℕ => (n : ℤ)) :
    Reads CORSConfiguration.methods tag .configuration [content.element] done
      (done ++ [content.rule]) := by
  have hstart : CORSConfiguration.methods.startElement .configuration "CORSRule".toList done =
      (some (.rule done.length), done ++ [CORSRule.init]) := rfl
  refine .element hstart (reads_nodes content seconds hage) ?_
  intro text
  rw [endElement_last]
  rfl

end

/-- What is read back of a configuration that is written plainly. -/
def RuleArguments.readBack (self : RuleArguments) : CORSRule := self.content.rule

theorem parse_built (calls : List RuleArguments) :
    XmlHandler.parse CORSConfiguration.methods .configuration []
      (Node.eventsOf [.element "CORSConfiguration".toList
        (calls.map fun arguments => arguments.content.element)]) =
      .ok (calls.map RuleArguments.readBack) := by
  have hrules : Reads CORSConfiguration.methods "root".toList .configuration
      (calls.map fun arguments => arguments.content.element) []
      (calls.map RuleArguments.readBack) := by
    induction calls using List.reverseRecOn with
    | nil => exact .nil _ _ _ _
    | append_singleton calls call ih =>
        rw [List.map_append, List.map_append]
        exact ih.append (reads_element call.content (call.maxAgeSeconds.filter (· ≠ 0)) rfl)
  have hroot : Reads CORSConfiguration.methods "root".toList .configuration
      [.element "CORSConfiguration".toList
        (calls.map fun arguments => arguments.content.element)] []
      (calls.map RuleArguments.readBack) :=
    .skipped (by decide) rfl hrules fun text => rfl
  have hevents : Node.eventsOf [.element "CORSConfiguration".toList
      (calls.map fun arguments => arguments.content.element)] =
        (Node.element "CORSConfiguration".toList
          (calls.map fun arguments => arguments.content.element)).events := by
    simp [Node.eventsOf]
  rw [hevents]
  exact hroot.parse

theorem ignoresData_methods :
    XmlHandler.IgnoresData CORSConfiguration.methods IsCorsContainer := by
  intro top name text text' objects hname
  cases top with
  | configuration => rfl
  | rule i =>
      have hend : ∀ rule : CORSRule, rule.endElement name text = rule.endElement name text' := by
        intro rule
        rw [IsCorsContainer, List.mem_cons, List.mem_singleton] at hname
        rcases hname with rfl | rfl <;> rfl
      simp only [CORSConfiguration.methods, hend]

theorem leaves_nodes (content : RuleContent) :
    Xml.Leaves IsCorsContainer content.nodes content.texts :=
  (Xml.Leaves.map (by decide) _).append <| (Xml.Leaves.map (by decide) _).append <|
    (Xml.Leaves.map (by decide) _).append <| (Xml.Leaves.map (by decide) _).append <|
      (Xml.Leaves.map (by decide) _).append (Xml.Leaves.map (by decide) _)

theorem leaves_built (calls : List RuleArguments) :
    Xml.Leaves IsCorsContainer (calls.map fun arguments => arguments.content.element)
      (calls.flatMap fun arguments => arguments.content.texts ++ []) := by
  have hone : ∀ arguments : RuleArguments, Xml.Leaves IsCorsContainer
      [arguments.content.element] (arguments.content.texts ++ []) := fun arguments =>
    .element "CORSRule".toList (by decide) (by decide) (leaves_nodes arguments.content) .nil
  exact Xml.Leaves.flatMap hone calls

/-! ## What is read was written -/

theorem listed_append {values values' : Values} {value : Text}
    (happend : values.append value = .ok values') :
    values'.listed.Subperm ([value] ++ values.listed) := by
  cases values with
  | text s => cases happend
  | list l =>
      cases happend
      exact List.perm_append_comm.subperm

/-- Setting an attribute may only add the string to the identifier. -/
theorem contents_setattr (rule : CORSRule) (name value : Text) :
    (rule.setattr name value).contents.Subperm ([value] ++ rule.contents) := by
  rw [CORSRule.setattr]
  split
  · exact (subperm_kept _ _).trans (subperm_kept _ _)
  split
  · exact subperm_under ((subperm_kept _ _).trans (subperm_kept _ _))
  split
  · exact subperm_under <| subperm_under <| subperm_under <| subperm_under <|
      subperm_replaced _ _
  split
  · exact subperm_under <| subperm_under <| (subperm_kept _ _).trans (subperm_kept _ _)
  split
  · exact subperm_kept _ _
  split
  · exact subperm_under <| subperm_under <| subperm_under <|
      (subperm_kept _ _).trans (subperm_kept _ _)
  · exact subperm_kept _ _

/-- The end of an element adds no more to a rule than its string. -/
theorem contents_endElement {rule rule' : CORSRule} {name value : Text}
    (hend : rule.endElement name value = .ok rule') :
    rule'.contents.Subperm ([value] ++ rule.contents) := by
  rw [CORSRule.endElement] at hend
  split at hend
  · cases hend
    exact subperm_under <| subperm_under <| subperm_under <| subperm_under <|
      subperm_replaced _ _
  split at hend
  · obtain ⟨values, happend, rfl⟩ := exists_of_map_eq_ok hend
    exact subperm_over (listed_append happend)
  split at hend
  · obtain ⟨values, happend, rfl⟩ := exists_of_map_eq_ok hend
    exact subperm_under <| subperm_over (listed_append happend)
  split at hend
  · obtain ⟨values, happend, rfl⟩ := exists_of_map_eq_ok hend
    exact subperm_under <| subperm_under <| subperm_over (listed_append happend)
  split at hend
  · obtain ⟨seconds, -, rfl⟩ := exists_of_map_eq_ok hend
    exact subperm_kept _ _
  split at hend
  · obtain ⟨values, happend, rfl⟩ := exists_of_map_eq_ok hend
    exact subperm_under <| subperm_under <| subperm_under <|
      subperm_over (listed_append happend)
  · cases hend
    exact contents_setattr rule name value

theorem takes_methods :
    Takes CORSConfiguration.methods fun rules => rules.flatMap CORSRule.contents where
  start := by
    intro top name rules
    cases top with
    | rule i => exact List.Subperm.refl _
    | configuration =>
        simp only [CORSConfiguration.methods]
        split
        · rw [List.flatMap_append]
          have hinit : [CORSRule.init].flatMap CORSRule.contents = [] := rfl
          rw [hinit, List.append_nil]
        · exact List.Subperm.refl _
  finish := by
    intro top name text rules rules' hend
    refine ⟨[text], .whole text, ?_⟩
    cases top with
    | configuration =>
        cases hend
        exact subperm_kept _ _
    | rule i =>
        simp only [CORSConfiguration.methods] at hend
        split at hend
        · cases hend
          exact subperm_kept _ _
        · rename_i rule hget
          obtain ⟨rule', hrule, rfl⟩ := exists_of_map_eq_ok hend
          exact subperm_set hget (contents_endElement hrule)

/-! ## What comes back -/

theorem headers_of_listed {arguments : RuleArguments} (hlisted : arguments.HeadersListed) :
    arguments.content.headers = (arguments.allowedHeader.map Given.meant).getD [] := by
  rw [RuleArguments.content]
  rcases hheader : arguments.allowedHeader with _ | header | headers
  · rfl
  · obtain ⟨c, rfl⟩ := List.length_eq_one_iff.mp (hlisted header hheader)
    rfl
  · rfl

theorem weights_singletons (text : Text) :
    Xml.weights (text.map fun c => [c]) = Xml.weight text := by
  induction text with
  | nil => rfl
  | cons c text ih =>
      rw [List.map_cons, Xml.weights_cons, ih, Xml.weight_cons, Xml.weight_cons, Xml.weight_nil,
        Nat.add_zero]

/-- What is written for a rule weighs as much as its strings, also where a string of headers
is written in pieces. -/
theorem weights_texts (arguments : RuleArguments) :
    Xml.weights arguments.content.texts = Xml.weights arguments.strings := by
  have hheaders : Xml.weights arguments.content.headers =
      Xml.weights ((arguments.allowedHeader.map Given.meant).getD []) := by
    rw [RuleArguments.content]
    rcases arguments.allowedHeader with _ | header | headers
    · rfl
    · change Xml.weights (header.map fun c => [c]) = Xml.weights [header]
      rw [weights_singletons, Xml.weights_cons, Xml.weights_nil, Nat.add_zero]
    · rfl
  have hage : Xml.weights ((arguments.content.age.map strInt).toList) = 0 := by
    cases arguments.content.age with
    | none => rfl
    | some seconds =>
        rw [Option.map_some, Option.toList_some, Xml.weights_cons, weight_strInt]
        rfl
  simp only [RuleContent.texts, RuleArguments.strings, Xml.weights_append, hheaders, hage,
    Nat.zero_add]
  rfl

theorem weights_built (calls : List RuleArguments) :
    Xml.weights (calls.flatMap fun arguments => arguments.content.texts ++ []) =
      Xml.weights ((calls.map RuleArguments.meant).flatMap CORSRule.contents) := by
  induction calls with
  | nil => rfl
  | cons call calls ih =>
      rw [List.flatMap_cons, List.map_cons, List.flatMap_cons, List.append_nil,
        Xml.weights_append, Xml.weights_append, ih, weights_texts]
      rfl

/-- Only plain strings come back. -/
theorem isPlain_of_roundTrips {calls : List RuleArguments}
    (htrips : CORSConfiguration.RoundTrips calls) : ∀ arguments ∈ calls, arguments.IsPlain := by
  obtain ⟨text, events, htext, hparse, hread⟩ := htrips
  rw [toXml_built] at htext
  cases htext
  have hplain := XmlHandler.plain_of_parse takes_methods
    (Xml.IsRoot.isRoot_word (.inr rfl) (by decide)) (by decide) rfl hparse hread
    ((Xml.weight_renderOf (leaves_built calls)).trans_le (Nat.le_of_eq (weights_built calls)))
  intro arguments harguments text htext
  exact hplain text (List.mem_flatMap.mpr ⟨_, List.mem_map_of_mem harguments, htext⟩)

theorem isPlain_texts {arguments : RuleArguments} (hplain : arguments.IsPlain) :
    ∀ text ∈ arguments.content.texts, Xml.isPlain text = true := by
  have hstring : ∀ text ∈ arguments.strings, Xml.isPlain text = true := hplain
  simp only [RuleArguments.strings, List.forall_mem_append] at hstring
  obtain ⟨hmethods, horigins, hheaders, hexposed, hid⟩ := hstring
  simp only [RuleContent.texts, List.forall_mem_append]
  refine ⟨hmethods, horigins, ?_, hexposed, ?_, hid⟩
  · rw [RuleArguments.content]
    rcases hheader : arguments.allowedHeader with _ | header | headers
    · exact fun text htext => absurd htext List.not_mem_nil
    · -- The characters of a plain string are plain.
      intro text htext
      obtain ⟨c, hc, rfl⟩ := List.mem_map.mp htext
      rw [hheader] at hheaders
      exact Xml.isPlain_singleton (hheaders header List.mem_cons_self) hc
    · rw [hheader] at hheaders
      exact hheaders
  · intro text htext
    obtain ⟨seconds, -, rfl⟩ := Option.map_eq_some_iff.mp (Option.mem_toList.mp htext)
    exact isPlain_strInt seconds

/-- A plain configuration is read back as it was written. -/
theorem read_of_isPlain {calls : List RuleArguments}
    (hplain : ∀ arguments ∈ calls, arguments.IsPlain) :
    ∃ text events, (CORSConfiguration.built calls).toXml = .ok text ∧
      Xml.parse text = some events ∧
        XmlHandler.parse CORSConfiguration.methods .configuration [] events =
          .ok (calls.map RuleArguments.readBack) := by
  obtain ⟨spaced, hspaced, hrender⟩ := (leaves_built calls).exists_spaced
  have htexts : ∀ text ∈ calls.flatMap (fun arguments => arguments.content.texts ++ []),
      Xml.isPlain text = true := by
    intro text htext
    obtain ⟨arguments, harguments, htext⟩ := List.mem_flatMap.mp htext
    rw [List.append_nil] at htext
    exact isPlain_texts (hplain arguments harguments) text htext
  obtain ⟨events, hparse, hread⟩ := XmlHandler.parse_document
    (Xml.IsRoot.isRoot_word (.inr rfl) (by decide)) (by decide) (by decide)
    ignoresData_methods hspaced (leaves_built calls) htexts (parse_built calls)
  rw [hrender] at hparse
  exact ⟨_, events, toXml_built calls, hparse, hread⟩

theorem headers_eq_iff (arguments : RuleArguments) :
    arguments.content.headers = (arguments.allowedHeader.map Given.meant).getD [] ↔
      arguments.HeadersListed := by
  refine ⟨?_, headers_of_listed⟩
  rw [RuleArguments.content]
  intro heq header hheader
  rw [hheader] at heq
  have hlength := congrArg List.length heq
  simpa [Given.meant] using hlength

theorem age_eq_iff (arguments : RuleArguments) :
    arguments.content.age.map Seconds.int =
      arguments.maxAgeSeconds.map (fun seconds : ℕ => Seconds.int seconds) ↔
        arguments.maxAgeSeconds ≠ some 0 := by
  rw [RuleArguments.content]
  cases arguments.maxAgeSeconds with
  | none => simp
  | some seconds =>
      by_cases hzero : seconds = 0
      · subst hzero
        simp
      · rw [Option.filter_some, if_pos (decide_eq_true hzero)]
        simp [hzero]

/-- The rule that is read back is the one that the arguments stand for. -/
theorem readBack_eq_meant_iff (arguments : RuleArguments) :
    arguments.readBack = arguments.meant ↔
      arguments.HeadersListed ∧ arguments.maxAgeSeconds ≠ some 0 := by
  rw [← headers_eq_iff, ← age_eq_iff, RuleArguments.readBack, RuleContent.rule,
    RuleArguments.meant, CORSRule.mk.injEq, Values.list.injEq, Values.list.injEq,
    Values.list.injEq, Values.list.injEq]
  constructor
  · rintro ⟨-, -, -, hheaders, hage, -⟩
    exact ⟨hheaders, hage⟩
  · rintro ⟨hheaders, hage⟩
    exact ⟨rfl, rfl, rfl, hheaders, hage, rfl⟩

/-- Rules come back as they were added exactly if their strings are plain, their headers listed
and their ages not zero. -/
theorem cors_roundTrips_iff (calls : List RuleArguments) :
    CORSConfiguration.RoundTrips calls ↔ ∀ arguments ∈ calls, arguments.IsPlain ∧
      arguments.HeadersListed ∧ arguments.maxAgeSeconds ≠ some 0 := by
  constructor
  · intro htrips
    have hplain := isPlain_of_roundTrips htrips
    obtain ⟨text, events, htext, hparse, hread⟩ := htrips
    obtain ⟨text', events', htext', hparse', hread'⟩ := read_of_isPlain hplain
    rw [htext] at htext'
    cases htext'
    rw [hparse] at hparse'
    cases hparse'
    rw [hread] at hread'
    have hsame : calls.map RuleArguments.meant = calls.map RuleArguments.readBack :=
      Except.ok.inj hread'
    intro arguments harguments
    have heq := List.map_inj_left.mp hsame arguments harguments
    exact ⟨hplain arguments harguments, (readBack_eq_meant_iff arguments).mp heq.symm⟩
  · intro hall
    obtain ⟨text, events, htext, hparse, hread⟩ :=
      read_of_isPlain fun arguments harguments => (hall arguments harguments).1
    refine ⟨text, events, htext, hparse, ?_⟩
    rw [hread]
    congr 1
    refine List.map_congr_left fun arguments harguments => ?_
    exact (readBack_eq_meant_iff arguments).mpr (hall arguments harguments).2

end Boto.S3
