import Mathlib.Data.List.Infix
import Mathlib.Tactic.Common
import Boto.Support.XmlParser

/-!
# Plain text in XML documents

Text that is written into the elements of a document as it is comes back from the
parser if it has no markup and no carriage returns.  White space between the elements
of such a document stays between them.
-/

namespace Xml

variable {container : List Char → Prop}

/-! ## Writing -/

mutual

/-- The text of a node, where character data is written as it is. -/
def Node.render : Node → List Char
  | .text content => content
  | .element name children =>
      '<' :: (name ++ '>' :: (Node.renderOf children ++ '<' :: '/' :: (name ++ ['>'])))

/-- The text of some nodes. -/
def Node.renderOf : List Node → List Char
  | [] => []
  | node :: nodes => node.render ++ Node.renderOf nodes

end

/-- Character data that a parser gives back when it is written as it is. -/
def isPlain (content : List Char) : Bool :=
  (content.all fun c => isXmlChar c && c ≠ '<' && c ≠ '&' && c ≠ '\r') &&
    !decide ("]]>".toList <:+: content)

/-- Names made of letters. -/
def isWord (name : List Char) : Bool :=
  !name.isEmpty && name.all Char.isAlpha

/-- Elements whose names are words, with the contents of those that have only character
data.  The other elements have names for containers. -/
inductive Leaves (container : List Char → Prop) :
    List Node → List (List Char) → Prop
  | nil : Leaves container [] []
  | leaf {nodes : List Node} {texts : List (List Char)} (name text : List Char)
      (hname : isWord name = true) (hrest : Leaves container nodes texts) :
      Leaves container (.leaf name text :: nodes) (text :: texts)
  | element {nodes children : List Node} {inner texts : List (List Char)}
      (name : List Char) (hname : isWord name = true) (hcontainer : container name)
      (hchildren : Leaves container children inner)
      (hrest : Leaves container nodes texts) :
      Leaves container (.element name children :: nodes) (inner ++ texts)

/-- The characters of white space without carriage returns. -/
def isCleanSpace (c : Char) : Bool :=
  isSpace c && c ≠ '\r'

/-- White space without carriage returns. -/
def IsCleanSpace (space : List Char) : Prop :=
  ∀ c ∈ space, isCleanSpace c = true

/-! ## Reading back tokens -/

theorem strip_append (literal input : List Char) :
    strip literal (literal ++ input) = some input := by
  induction literal with
  | nil => rfl
  | cons c literal ih => rw [List.cons_append, strip, if_pos rfl, ih]

theorem strip_cons_of_ne {c d : Char} (hne : c ≠ d) (literal input : List Char) :
    strip (c :: literal) (d :: input) = none := by
  rw [strip, if_neg hne]

theorem isNameStartChar_of_isAlpha {c : Char} (hc : c.isAlpha = true) :
    isNameStartChar c = true := by
  simp [isNameStartChar, hc]

theorem isNameChar_of_isAlpha {c : Char} (hc : c.isAlpha = true) :
    isNameChar c = true := by
  simp [isNameChar, isNameStartChar_of_isAlpha hc]

/-- A word is read as a name. -/
theorem parseName_word {name : List Char} (hname : isWord name = true)
    (rest : List Char) :
    parseName (name ++ '>' :: rest) = some (name, '>' :: rest) := by
  rw [isWord, Bool.and_eq_true, List.all_eq_true] at hname
  obtain ⟨hne, hall⟩ := hname
  cases name with
  | nil => cases hne
  | cons c name =>
      obtain ⟨hc, hrest⟩ := List.forall_mem_cons.mp hall
      have hnameChars : ∀ d ∈ name, isNameChar d = true := fun d hd =>
        isNameChar_of_isAlpha (hrest d hd)
      have hstop : isNameChar '>' = false := by decide
      rw [List.cons_append, parseName, if_pos (isNameStartChar_of_isAlpha hc),
        List.takeWhile_append_of_pos hnameChars, List.dropWhile_append_of_pos hnameChars,
        List.takeWhile_cons, List.dropWhile_cons, hstop]
      simp

theorem isWord_cons {name : List Char} (hname : isWord name = true) :
    ∃ c rest, name = c :: rest ∧ c.isAlpha = true := by
  rw [isWord, Bool.and_eq_true, List.all_eq_true] at hname
  cases name with
  | nil => cases hname.1
  | cons c name => exact ⟨c, name, rfl, hname.2 c List.mem_cons_self⟩

/-- A start tag after its `<`. -/
theorem startTag_word {name : List Char} (hname : isWord name = true)
    (rest : List Char) : startTag (name ++ '>' :: rest) = some (.startTag name, rest) := by
  have hspace : ('>' :: rest).dropWhile isSpace = '>' :: rest := by
    rw [List.dropWhile_cons]
    simp [isSpace]
  have hstrip : strip ['>'] ('>' :: rest) = some rest := strip_append ['>'] rest
  rw [startTag, parseName_word hname]
  simp [attributes, hspace, hstrip]

/-- Markup that does not start as an end tag, a comment, a section or an instruction is
a start tag. -/
theorem markup_of_alpha {c : Char} (hc : c.isAlpha = true) (rest : List Char) :
    markup (c :: rest) = startTag (c :: rest) := by
  have hne : ∀ d ∈ ['/', '!', '?'], d ≠ c := by
    rintro d hd rfl
    have hnone : ['/', '!', '?'].all (fun d => !d.isAlpha) = true := by decide
    have := List.all_eq_true.mp hnone d hd
    simp [hc] at this
  have hslash : strip "/".toList (c :: rest) = none :=
    strip_cons_of_ne (hne '/' (by simp)) [] rest
  have hcomment : strip "!--".toList (c :: rest) = none :=
    strip_cons_of_ne (hne '!' (by simp)) "--".toList rest
  have hcdata : strip "![CDATA[".toList (c :: rest) = none :=
    strip_cons_of_ne (hne '!' (by simp)) "[CDATA[".toList rest
  have hquestion : strip "?".toList (c :: rest) = none :=
    strip_cons_of_ne (hne '?' (by simp)) [] rest
  rw [markup, hslash, hcomment, hcdata, hquestion]

theorem token_start {name : List Char} (hname : isWord name = true)
    (rest : List Char) :
    token ('<' :: (name ++ '>' :: rest)) = some (.startTag name, rest) := by
  obtain ⟨c, others, rfl, hc⟩ := isWord_cons hname
  rw [token, if_pos rfl, List.cons_append, markup_of_alpha hc]
  exact startTag_word hname rest

theorem token_end {name : List Char} (hname : isWord name = true) (rest : List Char) :
    token ('<' :: '/' :: (name ++ '>' :: rest)) = some (.endTag name, rest) := by
  have hslash : strip "/".toList ('/' :: (name ++ '>' :: rest)) =
      some (name ++ '>' :: rest) := strip_append [_] _
  have hspace : ('>' :: rest).dropWhile isSpace = '>' :: rest := by
    rw [List.dropWhile_cons]
    simp [isSpace]
  have hstrip : strip ['>'] ('>' :: rest) = some rest := strip_append ['>'] rest
  rw [token, if_pos rfl, markup, hslash]
  dsimp only
  rw [endTag, parseName_word hname]
  simp [hspace, hstrip]

theorem strip_eq_some {literal input rest : List Char}
    (hstrip : strip literal input = some rest) : input = literal ++ rest := by
  induction literal generalizing input with
  | nil =>
      cases hstrip
      rfl
  | cons c literal ih =>
      cases input with
      | nil => cases hstrip
      | cons d input =>
          rw [strip] at hstrip
          split at hstrip
          · rename_i heq
            rw [heq, ih hstrip, List.cons_append]
          · cases hstrip

theorem isPlain_cons {c : Char} {content : List Char}
    (hplain : isPlain (c :: content) = true) :
    (isXmlChar c = true ∧ c ≠ '<' ∧ c ≠ '&' ∧ c ≠ '\r') ∧
      ¬"]]>".toList <+: c :: content ∧ isPlain content = true := by
  simp only [isPlain, List.all_cons, Bool.and_eq_true, Bool.not_eq_true',
    decide_eq_false_iff_not, decide_eq_true_eq] at hplain ⊢
  obtain ⟨⟨⟨⟨⟨hxml, hlt⟩, hamp⟩, hreturn⟩, hall⟩, hpart⟩ := hplain
  exact ⟨⟨hxml, hlt, hamp, hreturn⟩, fun hpre => hpart hpre.isInfix,
    hall, fun hin => hpart (List.infix_cons hin)⟩

/-- A character of plain content that markup follows. -/
theorem token_char {c : Char} {content : List Char}
    (hplain : isPlain (c :: content) = true) (rest : List Char) :
    token (c :: (content ++ '<' :: rest)) =
      some (.chars [c], content ++ '<' :: rest) := by
  obtain ⟨⟨hxml, hlt, hamp, -⟩, hnot, -⟩ := isPlain_cons hplain
  have hend : (strip "]]>".toList (c :: (content ++ '<' :: rest))).isSome = false := by
    rw [Option.isSome_eq_false_iff, Option.isNone_iff_eq_none]
    by_contra hsome
    obtain ⟨after, hafter⟩ := Option.ne_none_iff_exists'.mp hsome
    have heq := strip_eq_some hafter
    rw [← List.cons_append, List.append_eq_append_iff] at heq
    rcases heq with ⟨between, hbetween, hrest⟩ | ⟨between, hbetween, -⟩
    · cases between with
      | nil =>
          rw [List.append_nil] at hbetween
          exact hnot (hbetween ▸ List.prefix_refl _)
      | cons d between =>
          rw [List.cons_append] at hrest
          obtain ⟨rfl, -⟩ := List.cons.inj hrest
          have hmem : '<' ∈ "]]>".toList := by
            rw [hbetween]
            simp
          revert hmem
          decide
    · exact hnot ⟨between, hbetween.symm⟩
  rw [token, if_neg hlt, if_neg hamp, hend, if_neg Bool.false_ne_true, if_pos hxml]

/-! ## Reading back content -/

theorem content_chars {text : List Char} (hplain : isPlain text = true) (fuel : ℕ)
    (stack : List (List Char)) (rest : List Char) :
    content (fuel + text.length) stack (text ++ '<' :: rest) =
      (content fuel stack ('<' :: rest)).map (text.map .characters ++ ·) := by
  induction text with
  | nil => simp
  | cons c text ih =>
      obtain ⟨-, -, hrest⟩ := isPlain_cons hplain
      rw [List.length_cons, ← Nat.add_assoc, List.cons_append, content,
        token_char hplain]
      dsimp only
      rw [ih hrest, Option.map_map]
      rfl

theorem content_start {name : List Char} (hname : isWord name = true) (fuel : ℕ)
    (stack : List (List Char)) (rest : List Char) :
    content (fuel + 1) stack ('<' :: (name ++ '>' :: rest)) =
      (content fuel (name :: stack) rest).map (.startElement name :: ·) := by
  rw [content, token_start hname]

theorem content_end {name : List Char} (hname : isWord name = true) (fuel : ℕ)
    {stack : List (List Char)} (hstack : stack ≠ []) (rest : List Char) :
    content (fuel + 1) (name :: stack) ('<' :: '/' :: (name ++ '>' :: rest)) =
      (content fuel stack rest).map (.endElement name :: ·) := by
  have hempty : stack.isEmpty = false := by
    cases stack with
    | nil => exact absurd rfl hstack
    | cons top stack => rfl
  rw [content, token_end hname]
  dsimp only
  rw [if_pos rfl, hempty, if_neg Bool.false_ne_true]

/-- The end tag of the last element that is open ends the document. -/
theorem content_last {name : List Char} (hname : isWord name = true) (fuel : ℕ) :
    content (fuel + 1) [name] ('<' :: '/' :: (name ++ ['>'])) =
      some [.endElement name] := by
  rw [content, token_end hname]
  dsimp only
  rw [if_pos rfl]
  rfl

/-- Text is plain if none of its characters may belong to markup. -/
theorem isPlain_of_forall {text : List Char}
    (hquiet : ∀ c ∈ text, (isXmlChar c && c ≠ '<' && c ≠ '&' && c ≠ '\r') = true ∧ c ≠ ']') :
    isPlain text = true := by
  rw [isPlain, Bool.and_eq_true, List.all_eq_true, Bool.not_eq_true',
    decide_eq_false_iff_not]
  refine ⟨fun c hc => (hquiet c hc).1, fun hin => ?_⟩
  have hmem : ']' ∈ text := hin.subset (by decide)
  exact (hquiet ']' hmem).2 rfl

/-- A character of plain text is plain. -/
theorem isPlain_singleton {text : List Char} (hplain : isPlain text = true) {c : Char}
    (hc : c ∈ text) : isPlain [c] = true := by
  rw [isPlain, Bool.and_eq_true, List.all_eq_true] at hplain
  have hshort : ¬"]]>".toList <:+: [c] := by
    intro hin
    have hlength := hin.length_le
    have hthree : "]]>".toList.length = 3 := by decide
    rw [hthree, List.length_singleton] at hlength
    omega
  rw [isPlain, List.all_cons, hplain.1 c hc, decide_eq_false hshort]
  rfl

/-- A part of plain text is plain. -/
theorem isPlain_of_within {part text : List Char} (hpart : part <:+: text)
    (hplain : isPlain text = true) : isPlain part = true := by
  rw [isPlain, Bool.and_eq_true, List.all_eq_true, Bool.not_eq_true',
    decide_eq_false_iff_not] at hplain ⊢
  exact ⟨fun c hc => hplain.1 c (hpart.subset hc), fun hin => hplain.2 (hin.trans hpart)⟩

/-- White space without carriage returns is plain. -/
theorem isPlain_space {space : List Char} (hspace : IsCleanSpace space) :
    isPlain space = true := by
  have hchar : ∀ c, isCleanSpace c = true →
      (isXmlChar c && c ≠ '<' && c ≠ '&' && c ≠ '\r') = true ∧ c ≠ ']' := by
    intro c hc
    simp only [isCleanSpace, isSpace, Bool.and_eq_true, Bool.or_eq_true,
      decide_eq_true_eq] at hc
    rcases hc with ⟨((rfl | rfl) | rfl) | rfl, hne⟩
    · decide
    · decide
    · decide
    · exact absurd rfl hne
  exact isPlain_of_forall fun c hc => hchar c (hspace c hc)

theorem renderOf_text_cons (text : List Char) (nodes : List Node) :
    Node.renderOf (.text text :: nodes) = text ++ Node.renderOf nodes := by
  rw [Node.renderOf, Node.render]

theorem renderOf_element_cons (name : List Char) (children nodes : List Node) :
    Node.renderOf (.element name children :: nodes) =
      '<' :: (name ++ '>' :: (Node.renderOf children ++
        '<' :: '/' :: (name ++ '>' :: Node.renderOf nodes))) := by
  rw [Node.renderOf, Node.render]
  simp

theorem renderOf_leaf_cons (name text : List Char) (nodes : List Node) :
    Node.renderOf (.leaf name text :: nodes) =
      '<' :: (name ++ '>' :: (text ++
        '<' :: '/' :: (name ++ '>' :: Node.renderOf nodes))) := by
  rw [Node.leaf, renderOf_element_cons, renderOf_text_cons]
  simp [Node.renderOf]

theorem eventsOf_text_cons (text : List Char) (nodes : List Node) :
    Node.eventsOf (.text text :: nodes) =
      text.map .characters ++ Node.eventsOf nodes := by
  rw [Node.eventsOf, Node.events]

theorem eventsOf_element_cons (name : List Char) (children nodes : List Node) :
    Node.eventsOf (.element name children :: nodes) =
      .startElement name ::
        (Node.eventsOf children ++ .endElement name :: Node.eventsOf nodes) := by
  rw [Node.eventsOf, Node.events]
  simp

theorem eventsOf_leaf_cons (name text : List Char) (nodes : List Node) :
    Node.eventsOf (.leaf name text :: nodes) =
      .startElement name ::
        (text.map .characters ++ .endElement name :: Node.eventsOf nodes) := by
  rw [Node.leaf, eventsOf_element_cons, eventsOf_text_cons]
  simp [Node.eventsOf]

/-- An element is read back if what is in it is, and what follows. -/
theorem content_element {name inner rest : List Char} (hname : isWord name = true)
    {innerSteps restSteps : ℕ} {innerEvents restEvents : List Event}
    {stack : List (List Char)} (hstack : stack ≠ []) (tail : List Char)
    (hinner : ∀ fuel stack after, stack ≠ [] →
      content (fuel + innerSteps) stack (inner ++ '<' :: after) =
        (content fuel stack ('<' :: after)).map (innerEvents ++ ·))
    (hrest : ∀ fuel, content (fuel + restSteps) stack (rest ++ tail) =
      (content fuel stack tail).map (restEvents ++ ·)) (fuel : ℕ) :
    content (fuel + (innerSteps + restSteps + 2)) stack
        ('<' :: (name ++ '>' :: (inner ++
          '<' :: '/' :: (name ++ '>' :: (rest ++ tail))))) =
      (content fuel stack tail).map
        (.startElement name :: (innerEvents ++ .endElement name :: restEvents) ++ ·) := by
  have hfuel : fuel + (innerSteps + restSteps + 2) =
      fuel + restSteps + 1 + innerSteps + 1 := by omega
  rw [hfuel, content_start hname, hinner _ _ _ (List.cons_ne_nil _ _),
    content_end hname _ hstack, hrest]
  simp only [Option.map_map]
  congr 1
  funext events
  simp

/-- Spaced elements with plain leaves are read back. -/
theorem content_spaced {nodes spaced : List Node} {texts : List (List Char)}
    (hspaced : Spaced container IsCleanSpace nodes spaced)
    (hleaves : Leaves container nodes texts)
    (hplain : ∀ text ∈ texts, isPlain text = true) :
    ∃ steps, steps ≤ (Node.renderOf spaced).length ∧ ∀ fuel stack rest, stack ≠ [] →
      content (fuel + steps) stack (Node.renderOf spaced ++ '<' :: rest) =
        (content fuel stack ('<' :: rest)).map (Node.eventsOf spaced ++ ·) := by
  induction hspaced generalizing texts with
  | nil space hspace =>
      refine ⟨space.length, by simp [Node.renderOf, Node.render], ?_⟩
      intro fuel stack rest _
      rw [renderOf_text_cons, eventsOf_text_cons, Node.renderOf, List.append_nil,
        content_chars (isPlain_space hspace)]
      simp [Node.eventsOf]
  | @leaf nodes spaced space hspace name text hrest ih =>
      cases hleaves with
      | element name hname hcontainer hinside hothers => cases hinside
      | @leaf _ texts name text hname hothers =>
          obtain ⟨htext, hplain⟩ := List.forall_mem_cons.mp hplain
          obtain ⟨steps, hsteps, hread⟩ := ih hothers hplain
          refine ⟨text.length + steps + 2 + space.length, ?_, ?_⟩
          · rw [renderOf_text_cons, renderOf_leaf_cons]
            simp only [List.length_append, List.length_cons]
            omega
          · intro fuel stack rest hstack
            have helement := content_element hname hstack ('<' :: rest)
              (fun fuel stack after _ => content_chars htext fuel stack after)
              (fun fuel => hread fuel stack rest hstack) fuel
            rw [renderOf_text_cons, renderOf_leaf_cons, eventsOf_text_cons,
              eventsOf_leaf_cons]
            simp only [List.append_assoc, List.cons_append]
            rw [← Nat.add_assoc, content_chars (isPlain_space hspace), helement,
              Option.map_map]
            congr 1
            funext events
            simp
  | @element nodes spaced children children' space hspace name hname' hchildren hrest
      ihchildren ihrest =>
      cases hleaves with
      | leaf name text hname hothers => cases hchildren
      | element name hname hcontainer hinside hothers =>
          obtain ⟨hplainInside, hplain⟩ := List.forall_mem_append.mp hplain
          obtain ⟨inner, hinner, hreadInner⟩ := ihchildren hinside hplainInside
          obtain ⟨steps, hsteps, hread⟩ := ihrest hothers hplain
          refine ⟨inner + steps + 2 + space.length, ?_, ?_⟩
          · rw [renderOf_text_cons, renderOf_element_cons]
            simp only [List.length_append, List.length_cons]
            omega
          · intro fuel stack rest hstack
            have helement := content_element hname hstack ('<' :: rest) hreadInner
              (fun fuel => hread fuel stack rest hstack) fuel
            rw [renderOf_text_cons, renderOf_element_cons, eventsOf_text_cons,
              eventsOf_element_cons]
            simp only [List.append_assoc, List.cons_append]
            rw [← Nat.add_assoc, content_chars (isPlain_space hspace), helement,
              Option.map_map]
            congr 1
            funext events
            simp

/-! ## Line ends -/

theorem normalizeFrom_cons {c : Char} (hreturn : c ≠ '\r') (rest : List Char) :
    normalizeFrom false (c :: rest) = c :: normalizeFrom false rest := by
  rw [normalizeFrom, if_neg hreturn, if_neg (by simp)]

/-- Text without carriage returns stays as it is. -/
theorem normalizeFrom_append {text : List Char} (htext : ∀ c ∈ text, c ≠ '\r')
    (rest : List Char) :
    normalizeFrom false (text ++ rest) = text ++ normalizeFrom false rest := by
  induction text with
  | nil => rfl
  | cons c text ih =>
      obtain ⟨hc, htext⟩ := List.forall_mem_cons.mp htext
      rw [List.cons_append, normalizeFrom_cons hc, ih htext, List.cons_append]

/-- White space before markup becomes white space without carriage returns. -/
theorem normalizeFrom_space {space : List Char} (hspace : IsSpace space)
    (afterReturn : Bool) :
    ∃ space', IsCleanSpace space' ∧ ∀ rest,
      normalizeFrom afterReturn (space ++ '<' :: rest) =
        space' ++ '<' :: normalizeFrom false rest := by
  induction space generalizing afterReturn with
  | nil =>
      refine ⟨[], List.forall_mem_nil _, fun rest => ?_⟩
      rw [List.nil_append, normalizeFrom, if_neg (by decide), if_neg (by simp)]
      rfl
  | cons c space ih =>
      obtain ⟨hc, hspace⟩ := List.forall_mem_cons.mp hspace
      by_cases hreturn : c = '\r'
      · obtain ⟨space', hspace', hread⟩ := ih hspace true
        refine ⟨'\n' :: space', ?_, fun rest => ?_⟩
        · exact List.forall_mem_cons.mpr ⟨by decide, hspace'⟩
        · rw [List.cons_append, normalizeFrom, if_pos hreturn, hread, List.cons_append]
      · obtain ⟨space', hspace', hread⟩ := ih hspace false
        by_cases hfeed : c = '\n' ∧ afterReturn = true
        · refine ⟨space', hspace', fun rest => ?_⟩
          rw [List.cons_append, normalizeFrom, if_neg hreturn, if_pos hfeed, hread]
        · refine ⟨c :: space', ?_, fun rest => ?_⟩
          · refine List.forall_mem_cons.mpr ⟨?_, hspace'⟩
            simp [isCleanSpace, hc, hreturn]
          · rw [List.cons_append, normalizeFrom, if_neg hreturn, if_neg hfeed, hread,
              List.cons_append]

theorem not_return_of_isPlain {text : List Char} (hplain : isPlain text = true) :
    ∀ c ∈ text, c ≠ '\r' := by
  rw [isPlain, Bool.and_eq_true, List.all_eq_true] at hplain
  intro c hc
  have hchar := hplain.1 c hc
  simp only [Bool.and_eq_true, decide_eq_true_eq] at hchar
  exact hchar.2

theorem not_return_of_isWord {name : List Char} (hname : isWord name = true) :
    ∀ c ∈ name, c ≠ '\r' := by
  rw [isWord, Bool.and_eq_true, List.all_eq_true] at hname
  rintro c hc rfl
  have halpha := hname.2 _ hc
  revert halpha
  decide

/-- The line ends of an element, after its first character, are those of what is in
it. -/
theorem normalizeFrom_element {name inner inner' : List Char}
    (hname : isWord name = true)
    (hinner : ∀ rest, normalizeFrom false (inner ++ '<' :: rest) =
      inner' ++ '<' :: normalizeFrom false rest) (rest : List Char) :
    normalizeFrom false (name ++ '>' :: (inner ++
        '<' :: '/' :: (name ++ '>' :: rest))) =
      name ++ '>' :: (inner' ++
        '<' :: '/' :: (name ++ '>' :: normalizeFrom false rest)) := by
  have hword := normalizeFrom_append (not_return_of_isWord hname)
  rw [hword, normalizeFrom_cons (by decide), hinner, normalizeFrom_cons (by decide),
    hword, normalizeFrom_cons (by decide)]

/-- Spaced elements are spaced elements also after their line ends are normalized. -/
theorem normalizeFrom_spaced {nodes spaced : List Node} {texts : List (List Char)}
    (hspaced : Spaced container IsSpace nodes spaced)
    (hleaves : Leaves container nodes texts)
    (hplain : ∀ text ∈ texts, isPlain text = true) :
    ∃ spaced', Spaced container IsCleanSpace nodes spaced' ∧ ∀ rest,
      normalizeFrom false (Node.renderOf spaced ++ '<' :: rest) =
        Node.renderOf spaced' ++ '<' :: normalizeFrom false rest := by
  induction hspaced generalizing texts with
  | nil space hspace =>
      obtain ⟨space', hspace', hread⟩ := normalizeFrom_space hspace false
      refine ⟨[.text space'], .nil space' hspace', fun rest => ?_⟩
      simpa [Node.renderOf, Node.render] using hread rest
  | @leaf nodes spaced space hspace name text hrest ih =>
      cases hleaves with
      | element name hname hcontainer hinside hothers => cases hinside
      | @leaf _ texts name text hname hothers =>
          obtain ⟨htext, hplain⟩ := List.forall_mem_cons.mp hplain
          obtain ⟨space', hspace', hread⟩ := normalizeFrom_space hspace false
          obtain ⟨spaced', hspaced', hothers⟩ := ih hothers hplain
          refine ⟨_, .leaf space' hspace' name text hspaced', fun rest => ?_⟩
          have hinner : ∀ rest, normalizeFrom false (text ++ '<' :: rest) =
              text ++ '<' :: normalizeFrom false rest := by
            intro rest
            rw [normalizeFrom_append (not_return_of_isPlain htext),
              normalizeFrom_cons (by decide)]
          rw [renderOf_text_cons, renderOf_leaf_cons, renderOf_text_cons,
            renderOf_leaf_cons]
          simp only [List.append_assoc, List.cons_append]
          rw [hread, normalizeFrom_element hname hinner, hothers]
  | @element nodes spaced children children' space hspace name hname' hchildren hrest
      ihchildren ihrest =>
      cases hleaves with
      | leaf name text hname hothers => cases hchildren
      | element name hname hcontainer hinside hothers =>
          obtain ⟨hplainInside, hplain⟩ := List.forall_mem_append.mp hplain
          obtain ⟨space', hspace', hread⟩ := normalizeFrom_space hspace false
          obtain ⟨inner, hinnerSpaced, hinner⟩ := ihchildren hinside hplainInside
          obtain ⟨spaced', hspaced', hothers⟩ := ihrest hothers hplain
          refine ⟨_, .element space' hspace' name hname' hinnerSpaced hspaced',
            fun rest => ?_⟩
          rw [renderOf_text_cons, renderOf_element_cons, renderOf_text_cons,
            renderOf_element_cons]
          simp only [List.append_assoc, List.cons_append]
          rw [hread, normalizeFrom_element hname hinner, hothers]

/-! ## Lists of elements -/

theorem Leaves.append {nodes nodes' : List Node} {texts texts' : List (List Char)}
    (hleaves : Leaves container nodes texts) (hleaves' : Leaves container nodes' texts') :
    Leaves container (nodes ++ nodes') (texts ++ texts') := by
  induction hleaves with
  | nil => exact hleaves'
  | leaf name text hname _ ih => exact .leaf name text hname ih
  | element name hname hcontainer hchildren _ _ ih =>
      rw [List.cons_append, List.append_assoc]
      exact .element name hname hcontainer hchildren ih

theorem Leaves.map {name : List Char} (hname : isWord name = true)
    (texts : List (List Char)) : Leaves container (texts.map (Node.leaf name)) texts := by
  induction texts with
  | nil => exact .nil
  | cons text texts ih => exact .leaf name text hname ih

theorem Leaves.flatMap_of_mem {α : Type} {nodes : α → Node} {texts : α → List (List Char)}
    {xs : List α} (hone : ∀ x ∈ xs, Leaves container [nodes x] (texts x)) :
    Leaves container (xs.map nodes) (xs.flatMap texts) := by
  induction xs with
  | nil => exact .nil
  | cons x xs ih =>
      obtain ⟨hx, hxs⟩ := List.forall_mem_cons.mp hone
      exact hx.append (ih hxs)

theorem Leaves.flatMap {α : Type} {nodes : α → Node} {texts : α → List (List Char)}
    (hone : ∀ x, Leaves container [nodes x] (texts x)) (xs : List α) :
    Leaves container (xs.map nodes) (xs.flatMap texts) :=
  Leaves.flatMap_of_mem fun x _ => hone x

/-- Gaps may be empty. -/
theorem Leaves.exists_spaced {nodes : List Node} {texts : List (List Char)}
    (hleaves : Leaves container nodes texts) :
    ∃ spaced, Spaced container IsSpace nodes spaced ∧
      Node.renderOf spaced = Node.renderOf nodes := by
  have hempty : IsSpace [] := fun c hc => absurd hc List.not_mem_nil
  induction hleaves with
  | nil => exact ⟨_, .nil [] hempty, rfl⟩
  | leaf name text hname _ ih =>
      obtain ⟨spaced, hspaced, hrender⟩ := ih
      refine ⟨_, .leaf [] hempty name text hspaced, ?_⟩
      rw [renderOf_text_cons, renderOf_leaf_cons, renderOf_leaf_cons, hrender]
      rfl
  | element name hname hcontainer _ _ ihchildren ih =>
      obtain ⟨inner, hinner, hrenderInner⟩ := ihchildren
      obtain ⟨spaced, hspaced, hrender⟩ := ih
      refine ⟨_, .element [] hempty name hcontainer hinner hspaced, ?_⟩
      rw [renderOf_text_cons, renderOf_element_cons, renderOf_element_cons, hrender,
        hrenderInner]
      rfl

theorem renderOf_append (nodes nodes' : List Node) :
    Node.renderOf (nodes ++ nodes') = Node.renderOf nodes ++ Node.renderOf nodes' := by
  induction nodes with
  | nil => rfl
  | cons node nodes ih =>
      rw [List.cons_append, Node.renderOf, Node.renderOf, ih, List.append_assoc]

theorem renderOf_map {α : Type} (nodes : α → Node) (xs : List α) :
    Node.renderOf (xs.map nodes) = xs.flatMap fun x => (nodes x).render := by
  induction xs with
  | nil => rfl
  | cons x xs ih => rw [List.map_cons, Node.renderOf, ih, List.flatMap_cons]

/-! ## Documents -/

/-- The text of a document whose root has a start tag that ends as given. -/
def document (prolog tag name body : List Char) : List Char :=
  prolog ++ '<' :: (tag ++ (body ++ '<' :: '/' :: (name ++ ['>'])))

/-- The start of a document that the parser skips, and the start tag of its root. -/
structure IsRoot (prolog tag name : List Char) : Prop where
  prolog_eq : prolog = declaration ∨ prolog = []
  startTag_eq : ∀ rest, startTag (tag ++ rest) = some (.startTag name, rest)
  alpha : ∃ c others, tag = c :: others ∧ c.isAlpha = true
  no_return : ∀ c ∈ tag, c ≠ '\r'

variable {prolog tag name : List Char}

theorem IsRoot.isRoot_word (hprolog : prolog = declaration ∨ prolog = [])
    (hname : isWord name = true) : IsRoot prolog (name ++ ['>']) name where
  prolog_eq := hprolog
  startTag_eq rest := by
    rw [List.append_assoc]
    exact startTag_word hname rest
  alpha := by
    obtain ⟨c, others, rfl, hc⟩ := isWord_cons hname
    exact ⟨c, others ++ ['>'], rfl, hc⟩
  no_return c hc := by
    rcases List.mem_append.mp hc with hc | hc
    · exact not_return_of_isWord hname c hc
    · obtain rfl := List.mem_singleton.mp hc
      decide

/-- Nothing is skipped before a start tag. -/
theorem IsRoot.misc_eq (hroot : IsRoot prolog tag name) (fuel : ℕ) (rest : List Char) :
    misc (fuel + 1) ('<' :: (tag ++ rest)) = some ('<' :: (tag ++ rest)) := by
  obtain ⟨c, others, rfl, hc⟩ := hroot.alpha
  have hspace : ('<' :: (c :: others ++ rest)).dropWhile isSpace =
      '<' :: (c :: others ++ rest) := by
    rw [List.dropWhile_cons]
    simp [isSpace]
  have hne : '!' ≠ c ∧ '?' ≠ c := by
    constructor <;> rintro rfl <;> revert hc <;> decide
  have hcomment : strip "<!--".toList ('<' :: (c :: others ++ rest)) = none := by
    change strip "!--".toList (c :: others ++ rest) = none
    exact strip_cons_of_ne hne.1 "--".toList (others ++ rest)
  have hquestion : strip "<?".toList ('<' :: (c :: others ++ rest)) = none := by
    change strip "?".toList (c :: others ++ rest) = none
    exact strip_cons_of_ne hne.2 [] (others ++ rest)
  rw [misc, hspace, hcomment]
  dsimp only
  rw [hquestion]

theorem IsRoot.strip_declaration (hroot : IsRoot prolog tag name) (rest : List Char) :
    (strip declaration (prolog ++ '<' :: (tag ++ rest))).getD
      (prolog ++ '<' :: (tag ++ rest)) = '<' :: (tag ++ rest) := by
  rcases hroot.prolog_eq with rfl | rfl
  · rw [strip_append, Option.getD_some]
  · obtain ⟨c, others, rfl, hc⟩ := hroot.alpha
    have hne : '?' ≠ c := by
      rintro rfl
      revert hc
      decide
    have hnone : strip declaration ('<' :: (c :: others ++ rest)) = none :=
      strip_cons_of_ne hne _ (others ++ rest)
    rw [List.nil_append, hnone, Option.getD_none]

/-- A document is parsed by parsing what follows the start tag of its root. -/
theorem IsRoot.parse_document (hroot : IsRoot prolog tag name) (body : List Char) :
    parse (document prolog tag name body) =
      (content ((normalize (body ++ '<' :: '/' :: (name ++ ['>']))).length + 1) [name]
        (normalize (body ++ '<' :: '/' :: (name ++ ['>'])))).map
          (.startElement name :: ·) := by
  have hdeclaration : ∀ c ∈ prolog, c ≠ '\r' := by
    rcases hroot.prolog_eq with rfl | rfl
    · have hall : (declaration.all fun c => c != '\r') = true := by decide
      exact fun c hc => bne_iff_ne.mp (List.all_eq_true.mp hall c hc)
    · exact fun c hc => absurd hc List.not_mem_nil
  have hdocument : normalize (document prolog tag name body) =
      prolog ++ '<' :: (tag ++ normalize (body ++ '<' :: '/' :: (name ++ ['>']))) := by
    rw [normalize, document, normalizeFrom_append hdeclaration,
      normalizeFrom_cons (by decide), normalizeFrom_append hroot.no_return]
    rfl
  have hstrip : ∀ rest, strip "<".toList ('<' :: (tag ++ rest)) = some (tag ++ rest) :=
    fun rest => strip_append ['<'] _
  rw [parse, hdocument, hroot.strip_declaration, hroot.misc_eq]
  simp only [bind, Option.bind]
  rw [hstrip]
  dsimp only
  rw [hroot.startTag_eq]

/-- A document of elements with plain leaves is well formed, and spacing the elements
of its root only adds white space to what the parser reports. -/
theorem parse_spaced (hroot : IsRoot prolog tag name) (hname : isWord name = true)
    {nodes spaced : List Node} {texts : List (List Char)}
    (hspaced : Spaced container IsSpace nodes spaced)
    (hleaves : Leaves container nodes texts)
    (hplain : ∀ text ∈ texts, isPlain text = true) :
    ∃ spaced', Spaced container IsCleanSpace nodes spaced' ∧
      parse (document prolog tag name (Node.renderOf spaced)) =
        some (Node.eventsOf [.element name spaced']) := by
  obtain ⟨spaced', hspaced', hnormal⟩ :=
    normalizeFrom_spaced hspaced hleaves hplain
  obtain ⟨steps, hsteps, hread⟩ :=
    content_spaced hspaced' hleaves hplain
  refine ⟨spaced', hspaced', ?_⟩
  have hend : normalizeFrom false ('/' :: (name ++ ['>'])) = '/' :: (name ++ ['>']) := by
    rw [normalizeFrom_cons (by decide),
      normalizeFrom_append (not_return_of_isWord hname), normalizeFrom_cons (by decide)]
    rfl
  have hbody : normalize (Node.renderOf spaced ++ '<' :: '/' :: (name ++ ['>'])) =
      Node.renderOf spaced' ++ '<' :: '/' :: (name ++ ['>']) := by
    rw [normalize, hnormal, hend]
  have hlength : (Node.renderOf spaced' ++ '<' :: '/' :: (name ++ ['>'])).length + 1 =
      ((Node.renderOf spaced' ++ '<' :: '/' :: (name ++ ['>'])).length - steps) + 1 +
        steps := by
    have hle : steps ≤ (Node.renderOf spaced' ++ '<' :: '/' :: (name ++ ['>'])).length := by
      rw [List.length_append]
      omega
    omega
  rw [hroot.parse_document, hbody, hlength, hread _ _ _ (List.cons_ne_nil _ _),
    content_last hname, Node.eventsOf_element]
  rfl

end Xml
