import Boto.Support.XmlTokens
import Mathlib.Data.List.Perm.Subperm

/-!
# What a document weighs

References, sections, comments and instructions cannot do without an exclamation mark, a
question mark, an ampersand or a semicolon, and plain tags have none of these.  A parser
drops at least one of these characters for each such piece of markup that it reads, and
never adds one.  So a document that gives back all that was written into it was read plainly
throughout.
-/

namespace Xml

/-! ## Weights -/

/-- The characters that markup other than plain tags cannot do without, and those that line
ends lose. -/
def isMark (c : Char) : Bool :=
  c == '!' || c == '?' || c == '&' || c == ';' || c == '\r'

/-- The weight of a text. -/
def weight (text : List Char) : ℕ := text.countP isMark

@[simp] theorem weight_nil : weight [] = 0 := rfl

@[simp] theorem weight_append (text text' : List Char) :
    weight (text ++ text') = weight text + weight text' :=
  List.countP_append

theorem weight_cons (c : Char) (text : List Char) :
    weight (c :: text) = (isMark c).toNat + weight text := by
  rw [weight, weight, List.countP_cons, Nat.add_comm]
  cases isMark c <;> rfl

/-- Text without marks weighs nothing. -/
theorem weight_eq_zero {text : List Char} (hquiet : ∀ c ∈ text, isMark c = false) :
    weight text = 0 := by
  rw [weight, List.countP_eq_zero]
  intro c hc
  rw [hquiet c hc]
  exact Bool.false_ne_true

theorem weight_sublist {text text' : List Char} (hsub : text.Sublist text') :
    weight text ≤ weight text' :=
  hsub.countP_le

/-! ## What is reported -/

/-- The character data at the ends of the elements, after some characters. -/
def reported : List Char → List Event → List (List Char)
  | _, [] => []
  | _, .startElement _ :: events => reported [] events
  | current, .characters c :: events => reported (current ++ [c]) events
  | current, .endElement _ :: events => current :: reported [] events

/-- The weight of some texts. -/
def weights (texts : List (List Char)) : ℕ := weight texts.flatten

@[simp] theorem weights_nil : weights [] = 0 := rfl

@[simp] theorem weights_cons (text : List Char) (texts : List (List Char)) :
    weights (text :: texts) = weight text + weights texts := by
  rw [weights, List.flatten_cons, weight_append, weights]

@[simp] theorem weights_append (texts texts' : List (List Char)) :
    weights (texts ++ texts') = weights texts + weights texts' := by
  rw [weights, List.flatten_append, weight_append, weights, weights]

theorem weights_perm {texts texts' : List (List Char)} (hperm : texts.Perm texts') :
    weights texts = weights texts' := by
  induction hperm with
  | nil => rfl
  | cons text _ ih => rw [weights_cons, weights_cons, ih]
  | swap text text' texts =>
      simp only [weights_cons]
      omega
  | trans _ _ ih ih' => exact ih.trans ih'

theorem weights_sublist {texts texts' : List (List Char)} (hsub : texts.Sublist texts') :
    weights texts ≤ weights texts' := by
  induction hsub with
  | slnil => exact Nat.le_refl _
  | cons text _ ih =>
      rw [weights_cons]
      exact Nat.le_trans ih (Nat.le_add_left _ _)
  | cons_cons text _ ih =>
      rw [weights_cons, weights_cons]
      exact Nat.add_le_add_left ih _

theorem weights_subperm {texts texts' : List (List Char)} (hsub : texts.Subperm texts') :
    weights texts ≤ weights texts' := by
  obtain ⟨between, hperm, hsub⟩ := hsub
  rw [← weights_perm hperm]
  exact weights_sublist hsub

/-- The events are the tags and the characters of the input, which are read as they are. -/
inductive Clean : List Event → List Char → Prop
  | char {events : List Event} {rest : List Char} (c : Char) (hlt : c ≠ '<') (hamp : c ≠ '&')
      (hxml : isXmlChar c = true) (hend : ¬"]]>".toList <+: c :: rest)
      (hrest : Clean events rest) : Clean (.characters c :: events) (c :: rest)
  | startTag {events : List Event} {rest : List Char} (name body : List Char)
      (hrest : Clean events rest) :
      Clean (.startElement name :: events) ('<' :: (name ++ (body ++ '>' :: rest)))
  | emptyTag {events : List Event} {rest : List Char} (name body : List Char)
      (hrest : Clean events rest) :
      Clean (.startElement name :: .endElement name :: events)
        ('<' :: (name ++ (body ++ '/' :: '>' :: rest)))
  | endTag {events : List Event} {rest : List Char} (name body : List Char)
      (hrest : Clean events rest) :
      Clean (.endElement name :: events) ('<' :: '/' :: (name ++ (body ++ '>' :: rest)))
  | last (name body rest : List Char) :
      Clean [.endElement name] ('<' :: '/' :: (name ++ (body ++ '>' :: rest)))

variable {events : List Event} {input rest : List Char}

theorem reported_characters (current text : List Char) (events : List Event) :
    reported current (text.map .characters ++ events) =
      reported (current ++ text) events := by
  induction text generalizing current with
  | nil => rw [List.map_nil, List.nil_append, List.append_nil]
  | cons c text ih =>
      rw [List.map_cons, List.cons_append, reported, ih, List.append_assoc,
        List.singleton_append]

/-- What is reported after some characters weighs less than these and the input, or the input
is read as it is. -/
def Covered (input : List Char) (events : List Event) : Prop :=
  ∀ current,
    weights (reported current events) < weight current + weight input ∨
      weights (reported current events) ≤ weight current + weight input ∧ Clean events input

theorem Covered.le (hcovered : Covered input events) (current : List Char) :
    weights (reported current events) ≤ weight current + weight input := by
  rcases hcovered current with hlt | ⟨hle, -⟩
  · exact Nat.le_of_lt hlt
  · exact hle

theorem covered_startTag (name body : List Char) (hrest : Covered rest events) :
    Covered ('<' :: (name ++ (body ++ '>' :: rest))) (.startElement name :: events) := by
  intro current
  rw [reported]
  simp only [weight_cons, weight_append]
  rcases hrest [] with hlt | ⟨hle, hclean⟩
  · rw [weight_nil] at hlt
    exact .inl (by omega)
  · rw [weight_nil] at hle
    exact .inr ⟨by omega, .startTag name body hclean⟩

theorem covered_emptyTag (name body : List Char) (hrest : Covered rest events) :
    Covered ('<' :: (name ++ (body ++ '/' :: '>' :: rest)))
      (.startElement name :: .endElement name :: events) := by
  intro current
  rw [reported, reported, weights_cons, weight_nil]
  simp only [weight_cons, weight_append]
  rcases hrest [] with hlt | ⟨hle, hclean⟩
  · rw [weight_nil] at hlt
    exact .inl (by omega)
  · rw [weight_nil] at hle
    exact .inr ⟨by omega, .emptyTag name body hclean⟩

theorem covered_endTag (name body : List Char) (hrest : Covered rest events) :
    Covered ('<' :: '/' :: (name ++ (body ++ '>' :: rest))) (.endElement name :: events) := by
  intro current
  rw [reported, weights_cons]
  simp only [weight_cons, weight_append]
  rcases hrest [] with hlt | ⟨hle, hclean⟩
  · rw [weight_nil] at hlt
    exact .inl (by omega)
  · rw [weight_nil] at hle
    exact .inr ⟨by omega, .endTag name body hclean⟩

theorem covered_last (name body rest : List Char) :
    Covered ('<' :: '/' :: (name ++ (body ++ '>' :: rest))) [.endElement name] := by
  intro current
  refine .inr ⟨?_, .last name body rest⟩
  rw [reported, reported, weights_cons, weights_nil]
  omega

/-- What the rest of a document reports is covered by it. -/
theorem covered_content {fuel : ℕ} {stack : List (List Char)}
    (hcontent : content fuel stack input = some events) : Covered input events := by
  induction fuel generalizing stack input events with
  | zero => cases hcontent
  | succ fuel ih =>
      rw [content] at hcontent
      cases htoken : token input with
      | none => simp [htoken] at hcontent
      | some read =>
          obtain ⟨token, rest⟩ := read
          rw [htoken] at hcontent
          cases tokenRead_of_token htoken with
          | char c _ hlt hamp hxml hend =>
              obtain ⟨events, hread, rfl⟩ := Option.map_eq_some_iff.mp hcontent
              intro current
              have hrest := ih hread (current ++ [c])
              rw [weight_append, weight_cons, weight_nil, Nat.add_zero] at hrest
              rw [weight_cons, ← Nat.add_assoc]
              rcases hrest with hless | ⟨hle, hclean⟩
              · exact .inl hless
              · exact .inr ⟨hle, .char c hlt hamp hxml hend hclean⟩
          | reference c name _ =>
              -- An ampersand and a semicolon stand for one character.
              obtain ⟨events, hread, rfl⟩ := Option.map_eq_some_iff.mp hcontent
              intro current
              have hle := (ih hread).le (current ++ [c])
              have hone : (isMark c).toNat ≤ 1 := Bool.toNat_le (isMark c)
              have hamp : (isMark '&').toNat = 1 := rfl
              have hsemicolon : (isMark ';').toNat = 1 := rfl
              rw [weight_append, weight_cons, weight_nil] at hle
              simp only [weight_cons, weight_append, hamp, hsemicolon]
              exact .inl (Nat.lt_of_le_of_lt hle (by omega))
          | skipped c hc body _ =>
              obtain ⟨events, hread, rfl⟩ := Option.map_eq_some_iff.mp hcontent
              intro current
              have hle := (ih hread).le current
              have hmark : (isMark c).toNat = 1 := by
                rcases hc with rfl | rfl <;> rfl
              simp only [weight_cons, weight_append, hmark]
              exact .inl (Nat.lt_of_le_of_lt hle (by omega))
          | cdata cs _ =>
              obtain ⟨events, hread, rfl⟩ := Option.map_eq_some_iff.mp hcontent
              intro current
              have hle := (ih hread).le (current ++ cs)
              have hmark : weight "<![CDATA[".toList = 1 := by decide
              rw [weight_append] at hle
              rw [reported_characters]
              simp only [weight_append, hmark]
              exact .inl (Nat.lt_of_le_of_lt hle (by omega))
          | startTag name body _ =>
              obtain ⟨events, hread, rfl⟩ := Option.map_eq_some_iff.mp hcontent
              exact covered_startTag name body (ih hread)
          | emptyTag name body _ =>
              obtain ⟨events, hread, rfl⟩ := Option.map_eq_some_iff.mp hcontent
              exact covered_emptyTag name body (ih hread)
          | endTag name body _ =>
              dsimp only at hcontent
              split at hcontent
              · cases hcontent
              rename_i top stack
              split at hcontent
              · rename_i htop
                subst htop
                split at hcontent
                · split at hcontent
                  · obtain rfl := Option.some.inj hcontent
                    exact covered_last top body rest
                  · cases hcontent
                · obtain ⟨events, hread, rfl⟩ := Option.map_eq_some_iff.mp hcontent
                  exact covered_endTag top body (ih hread)
              · cases hcontent

/-! ## What is reported of a document that was read plainly -/

/-- The characters before the first tag. -/
def lead : List Event → List Char
  | .characters c :: events => c :: lead events
  | _ => []

theorem lead_starts (hclean : Clean events input) : lead events <+: input := by
  induction hclean with
  | char c _ _ _ _ _ ih => exact (List.prefix_cons_inj c).mpr ih
  | startTag name body _ _ => exact List.nil_prefix
  | emptyTag name body _ _ => exact List.nil_prefix
  | endTag name body _ _ => exact List.nil_prefix
  | last name body rest => exact List.nil_prefix

theorem isPlain_cons_of {c : Char} {text : List Char} (hxml : isXmlChar c = true)
    (hlt : c ≠ '<') (hamp : c ≠ '&') (hreturn : c ≠ '\r')
    (hend : ¬"]]>".toList <+: c :: text) (hplain : isPlain text = true) :
    isPlain (c :: text) = true := by
  simp only [isPlain, List.all_cons, Bool.and_eq_true, Bool.not_eq_true',
    decide_eq_false_iff_not, decide_eq_true_eq] at hplain ⊢
  obtain ⟨hall, hnot⟩ := hplain
  refine ⟨⟨⟨⟨⟨hxml, hlt⟩, hamp⟩, hreturn⟩, hall⟩, fun hin => ?_⟩
  rcases List.infix_cons_iff.mp hin with hstart | hlater
  · exact hend hstart
  · exact hnot hlater

theorem isPlain_nil : isPlain [] = true := by
  decide

theorem isPlain_lead (hclean : Clean events input) (hreturn : '\r' ∉ input) :
    isPlain (lead events) = true := by
  induction hclean with
  | @char events rest c hlt hamp hxml hend hrest ih =>
      rw [List.mem_cons, not_or] at hreturn
      refine isPlain_cons_of hxml hlt hamp (Ne.symm hreturn.1) (fun hstart => hend ?_)
        (ih hreturn.2)
      exact hstart.trans ((List.prefix_cons_inj c).mpr (lead_starts hrest))
  | startTag name body _ _ => exact isPlain_nil
  | emptyTag name body _ _ => exact isPlain_nil
  | endTag name body _ _ => exact isPlain_nil
  | last name body rest => exact isPlain_nil

/-- All texts that are reported are plain, if the first one is. -/
theorem isPlain_reported (hclean : Clean events input) (hreturn : '\r' ∉ input)
    (current : List Char) (hplain : isPlain (current ++ lead events) = true) :
    ∀ text ∈ reported current events, isPlain text = true := by
  induction hclean generalizing current with
  | @char events rest c hlt hamp hxml hend hrest ih =>
      rw [List.mem_cons, not_or] at hreturn
      rw [lead, ← List.singleton_append, ← List.append_assoc] at hplain
      rw [reported]
      exact ih hreturn.2 _ hplain
  | @startTag events rest name body hrest ih =>
      have hafter : '\r' ∉ rest := fun hmem => hreturn (by simp [hmem])
      rw [reported]
      exact ih hafter [] (isPlain_lead hrest hafter)
  | @emptyTag events rest name body hrest ih =>
      have hafter : '\r' ∉ rest := fun hmem => hreturn (by simp [hmem])
      rw [reported, reported, List.forall_mem_cons]
      exact ⟨isPlain_nil, ih hafter [] (isPlain_lead hrest hafter)⟩
  | @endTag events rest name body hrest ih =>
      have hafter : '\r' ∉ rest := fun hmem => hreturn (by simp [hmem])
      have hlead : lead (.endElement name :: events) = [] := rfl
      rw [hlead, List.append_nil] at hplain
      rw [reported, List.forall_mem_cons]
      exact ⟨hplain, ih hafter [] (isPlain_lead hrest hafter)⟩
  | last name body rest =>
      have hlead : lead [.endElement name] = [] := rfl
      rw [hlead, List.append_nil] at hplain
      rw [reported, reported, List.forall_mem_singleton]
      exact hplain

/-! ## What it takes to write a document -/

theorem not_isMark_alpha {c : Char} (hc : c.isAlpha = true) : isMark c = false := by
  have hne : ∀ e ∈ ['!', '?', '&', ';', '\r'], c ≠ e := by
    rintro e he rfl
    have hnone : ['!', '?', '&', ';', '\r'].all (fun e => !e.isAlpha) = true := by decide
    have hnot := List.all_eq_true.mp hnone c he
    simp [hc] at hnot
  simp [isMark, hne '!' (by simp), hne '?' (by simp), hne '&' (by simp), hne ';' (by simp),
    hne '\r' (by simp)]

/-- The names of elements weigh nothing. -/
theorem weight_name {name : List Char} (hname : isWord name = true) : weight name = 0 := by
  rw [isWord, Bool.and_eq_true, List.all_eq_true] at hname
  exact weight_eq_zero fun c hc => not_isMark_alpha (hname.2 c hc)

/-- Elements weigh what is in them. -/
theorem weight_renderOf {container : List Char → Prop} {nodes : List Node}
    {texts : List (List Char)} (hleaves : Leaves container nodes texts) :
    weight (Node.renderOf nodes) = weights texts := by
  have hlt : (isMark '<').toNat = 0 := rfl
  have hslash : (isMark '/').toNat = 0 := rfl
  have hgt : (isMark '>').toNat = 0 := rfl
  induction hleaves with
  | nil => rfl
  | leaf name text hname _ ih =>
      rw [renderOf_leaf_cons]
      simp only [weight_cons, weight_append, hlt, hslash, hgt, weight_name hname, ih, weights_cons]
      omega
  | element name hname _ _ _ ihchildren ih =>
      rw [renderOf_element_cons]
      simp only [weight_cons, weight_append, hlt, hslash, hgt, weight_name hname, ihchildren, ih, weights_append]
      omega

/-! ## Line ends -/

theorem weight_normalizeFrom (afterReturn : Bool) (text : List Char) :
    weight (normalizeFrom afterReturn text) + (if '\r' ∈ text then 1 else 0) ≤
      weight text := by
  have hreturn : (isMark '\r').toNat = 1 := rfl
  have hline : (isMark '\n').toNat = 0 := rfl
  induction text generalizing afterReturn with
  | nil => rfl
  | cons c text ih =>
      rw [normalizeFrom]
      split
      · rename_i heq
        subst heq
        have hrest := ih true
        rw [weight_cons, weight_cons, hreturn, hline, if_pos List.mem_cons_self]
        omega
      · rename_i hne
        have hmem : ('\r' ∈ c :: text) = ('\r' ∈ text) := by
          rw [List.mem_cons, eq_comm (a := '\r') (b := c)]
          simp [hne]
        have hrest := ih false
        split
        · rw [weight_cons]
          simp only [hmem]
          omega
        · rw [weight_cons, weight_cons]
          simp only [hmem]
          omega

theorem normalize_eq_self {text : List Char} (hreturn : '\r' ∉ text) :
    normalize text = text := by
  have hnormal := @normalizeFrom_append text (fun c hc heq => hreturn (heq ▸ hc)) []
  rw [normalizeFrom, List.append_nil] at hnormal
  exact hnormal

/-! ## Documents -/

variable {prolog tag name : List Char}

/-- What is reported of a document weighs less than its body, or all that is reported is
plain. -/
theorem weights_document {body : List Char} (hroot : IsRoot prolog tag name)
    (hname : isWord name = true) (hparse : parse (document prolog tag name body) = some events) :
    ∃ inner, events = .startElement name :: inner ∧
      (weights (reported [] inner) < weight body ∨
        weights (reported [] inner) ≤ weight body ∧
          ∀ text ∈ reported [] inner, isPlain text = true) := by
  rw [hroot.parse_document] at hparse
  obtain ⟨inner, hcontent, rfl⟩ := Option.map_eq_some_iff.mp hparse
  refine ⟨inner, rfl, ?_⟩
  let ending := body ++ '<' :: '/' :: (name ++ ['>'])
  have hnormal := weight_normalizeFrom false ending
  have hwritten : weight ending = weight body := by
    have htag : weight ['<', '/'] = 0 := rfl
    have hgt : weight ['>'] = 0 := rfl
    have hending : ending = body ++ (['<', '/'] ++ (name ++ ['>'])) := rfl
    rw [hending, weight_append, weight_append, weight_append, weight_name hname, htag, hgt]
    rfl
  have hcovered := covered_content hcontent []
  rw [weight_nil, Nat.zero_add] at hcovered
  rcases hcovered with hlt | ⟨hle, hclean⟩
  · refine .inl ?_
    change _ < weight (normalizeFrom false ending) at hlt
    omega
  · change _ ≤ weight (normalizeFrom false ending) at hle
    by_cases hreturn : '\r' ∈ ending
    · rw [if_pos hreturn] at hnormal
      exact .inl (by omega)
    · have hsame : normalize ending = ending := normalize_eq_self hreturn
      change Clean inner (normalize ending) at hclean
      rw [hsame] at hclean
      exact .inr ⟨by omega, isPlain_reported hclean hreturn [] (isPlain_lead hclean hreturn)⟩

end Xml

/-!
## Templates of XML documents

A template has white space around its elements.  Its text is put together from pieces, and
what is written by the pieces one after the other is written by the whole.
-/

namespace Xml

variable {container : List Char → Prop} {nodes nodes' children : List Node}
  {text text' inner blank name : List Char}

/-- A text is that of some nodes, with white space before, between and after elements. -/
def Writes (container : List Char → Prop) (nodes : List Node) (text : List Char) : Prop :=
  ∃ spaced, Spaced container IsCleanSpace nodes spaced ∧ Node.renderOf spaced = text

theorem isCleanSpace_append (hblank : IsCleanSpace blank) {blank' : List Char}
    (hblank' : IsCleanSpace blank') : IsCleanSpace (blank ++ blank') := fun c hc =>
  (List.mem_append.mp hc).elim (hblank c) (hblank' c)

theorem isCleanSpace_nil : IsCleanSpace [] := fun _ hc => absurd hc List.not_mem_nil

namespace Writes

/-- White space writes nothing. -/
theorem space (hblank : IsCleanSpace blank) : Writes container [] blank :=
  ⟨[.text blank], .nil blank hblank, by rw [renderOf_text_cons, Node.renderOf, List.append_nil]⟩

theorem leaf (name content : List Char) :
    Writes container [.leaf name content] (Node.leaf name content).render := by
  refine ⟨_, .leaf [] isCleanSpace_nil name content (.nil [] isCleanSpace_nil), ?_⟩
  rw [renderOf_text_cons, Node.renderOf, renderOf_text_cons, Node.renderOf]
  simp only [List.nil_append, List.append_nil]

/-- An element that has what another piece writes. -/
theorem element (hname : container name) (hchildren : Writes container children inner) :
    Writes container [.element name children]
      ('<' :: (name ++ '>' :: (inner ++ '<' :: '/' :: (name ++ ['>'])))) := by
  obtain ⟨spaced, hspaced, rfl⟩ := hchildren
  refine ⟨_, .element [] isCleanSpace_nil name hname hspaced (.nil [] isCleanSpace_nil), ?_⟩
  rw [renderOf_text_cons, renderOf_element_cons, renderOf_text_cons, Node.renderOf]
  simp only [List.nil_append]

/-- White space before what is written. -/
theorem after_space (hblank : IsCleanSpace blank) (hwrites : Writes container nodes text) :
    Writes container nodes (blank ++ text) := by
  obtain ⟨spaced, hspaced, rfl⟩ := hwrites
  cases hspaced with
  | nil old hold =>
      refine ⟨_, .nil (blank ++ old) (isCleanSpace_append hblank hold), ?_⟩
      rw [renderOf_text_cons, renderOf_text_cons, List.append_assoc]
  | leaf old hold name content hrest =>
      refine ⟨_, .leaf (blank ++ old) (isCleanSpace_append hblank hold) name content hrest, ?_⟩
      rw [renderOf_text_cons, renderOf_text_cons, List.append_assoc]
  | element old hold name hname hchildren hrest =>
      refine ⟨_, .element (blank ++ old) (isCleanSpace_append hblank hold) name hname hchildren
        hrest, ?_⟩
      rw [renderOf_text_cons, renderOf_text_cons, List.append_assoc]

/-- One piece after the other. -/
theorem append (hwrites : Writes container nodes text)
    (hwrites' : Writes container nodes' text') :
    Writes container (nodes ++ nodes') (text ++ text') := by
  obtain ⟨spaced, hspaced, rfl⟩ := hwrites
  induction hspaced with
  | nil space hspace =>
      rw [renderOf_text_cons, Node.renderOf, List.append_nil]
      exact after_space hspace hwrites'
  | leaf space hspace name content _ ih =>
      obtain ⟨spaced', hspaced', hrender⟩ := ih
      refine ⟨_, .leaf space hspace name content hspaced', ?_⟩
      rw [renderOf_text_cons, renderOf_text_cons, Node.renderOf, Node.renderOf, hrender]
      simp only [List.append_assoc]
  | element space hspace name hname hchildren _ _ ih =>
      obtain ⟨spaced', hspaced', hrender⟩ := ih
      refine ⟨_, .element space hspace name hname hchildren hspaced', ?_⟩
      rw [renderOf_text_cons, renderOf_text_cons, Node.renderOf, Node.renderOf, hrender]
      simp only [List.append_assoc]

/-- Pieces for several items. -/
theorem flatMap {α : Type} {node : α → Node} {piece : α → List Char}
    (hone : ∀ x, Writes container [node x] (piece x)) (xs : List α) :
    Writes container (xs.map node) (xs.flatMap piece) := by
  induction xs with
  | nil => exact space isCleanSpace_nil
  | cons x xs ih => exact append (hone x) ih

end Writes

theorem weight_space (hblank : IsCleanSpace blank) : weight blank = 0 := by
  refine weight_eq_zero fun c hc => ?_
  have hclean := hblank c hc
  simp only [isCleanSpace, isSpace, Bool.and_eq_true, Bool.or_eq_true, decide_eq_true_eq]
    at hclean
  rcases hclean with ⟨((rfl | rfl) | rfl) | rfl, hne⟩
  · rfl
  · rfl
  · rfl
  · exact absurd rfl hne

/-- White space weighs nothing. -/
theorem Writes.weight_eq {texts : List (List Char)} (hwrites : Writes container nodes text)
    (hleaves : Leaves container nodes texts) : weight text = weights texts := by
  obtain ⟨spaced, hspaced, rfl⟩ := hwrites
  rw [← weight_renderOf hleaves]
  clear hleaves
  induction hspaced with
  | nil space hspace =>
      rw [renderOf_text_cons, Node.renderOf, weight_append, weight_space hspace, Nat.zero_add]
  | leaf space hspace name content _ ih =>
      rw [renderOf_text_cons, Node.renderOf, Node.renderOf, weight_append, weight_append,
        weight_append, weight_space hspace, ih, Nat.zero_add]
  | element space hspace name hname _ _ ihchildren ih =>
      rw [renderOf_text_cons, renderOf_element_cons, renderOf_element_cons, weight_append,
        weight_space hspace]
      simp only [weight_cons, weight_append, ihchildren, ih, Nat.zero_add]

end Xml
