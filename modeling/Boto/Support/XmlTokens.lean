import Mathlib.Data.List.TakeWhile
import Boto.Support.XmlPlain

/-!
# What a token is read from

Each token of a document stands for the characters that were used up for it: a character for
itself, or markup with its name and what else there may be within it.
-/

namespace Xml

variable {input rest : List Char}

/-! ## What is left is the end of what there was -/

theorem strip_suffix {literal : List Char} (hstrip : strip literal input = some rest) :
    rest <:+ input :=
  ⟨literal, (strip_eq_some hstrip).symm⟩

theorem parseName_eq {name : List Char} (hname : parseName input = some (name, rest)) :
    input = name ++ rest := by
  cases input with
  | nil => cases hname
  | cons c input =>
      rw [parseName] at hname
      split at hname
      · obtain ⟨rfl, rfl⟩ := Prod.mk.inj (Option.some.inj hname)
        rw [List.cons_append, List.takeWhile_append_dropWhile]
      · cases hname

/-- A reference is a name before a semicolon. -/
theorem reference_eq {c : Char} (href : reference input = some (c, rest)) :
    ∃ name, input = name ++ ';' :: rest := by
  rw [reference] at href
  obtain ⟨c', hc, href⟩ := Option.bind_eq_some_iff.mp href
  obtain ⟨rest', hstrip, href⟩ := Option.bind_eq_some_iff.mp href
  obtain ⟨-, rfl⟩ := Prod.mk.inj (Option.some.inj href)
  refine ⟨input.takeWhile (· ≠ ';'), ?_⟩
  rw [← List.singleton_append, ← strip_eq_some hstrip, List.takeWhile_append_dropWhile]

theorem attributeValue_suffix {quote : Char} {fuel : ℕ}
    (hvalue : attributeValue quote fuel input = some rest) : rest <:+ input := by
  induction fuel generalizing input with
  | zero => cases hvalue
  | succ fuel ih =>
      cases input with
      | nil => cases hvalue
      | cons c input =>
          rw [attributeValue] at hvalue
          split at hvalue
          · obtain rfl := Option.some.inj hvalue
            exact List.suffix_cons c input
          split at hvalue
          · cases hvalue
          split at hvalue
          · obtain ⟨⟨c', left⟩, href, hvalue⟩ := Option.bind_eq_some_iff.mp hvalue
            obtain ⟨name, hinput⟩ := reference_eq href
            have hleft : left <:+ input := by
              rw [hinput]
              exact (List.suffix_cons ';' left).trans (List.suffix_append name _)
            exact (ih hvalue).trans (hleft.trans (List.suffix_cons c input))
          split at hvalue
          · exact (ih hvalue).trans (List.suffix_cons c input)
          · cases hvalue

/-- What ends a start tag. -/
def tagEnd (isEmpty : Bool) : List Char := if isEmpty then "/>".toList else ">".toList

theorem attributes_suffix {isEmpty : Bool} {fuel : ℕ} {seen : List (List Char)}
    (hattributes : attributes fuel seen input = some (isEmpty, rest)) :
    tagEnd isEmpty ++ rest <:+ input := by
  induction fuel generalizing input seen with
  | zero => cases hattributes
  | succ fuel ih =>
      have hskip := List.dropWhile_suffix isSpace (l := input)
      rw [attributes] at hattributes
      dsimp only at hattributes
      split at hattributes
      · rename_i left hstrip
        obtain ⟨rfl, rfl⟩ := Prod.mk.inj (Option.some.inj hattributes)
        rw [strip_eq_some hstrip] at hskip
        exact hskip
      · rename_i left hnone hstrip
        obtain ⟨rfl, rfl⟩ := Prod.mk.inj (Option.some.inj hattributes)
        rw [strip_eq_some hstrip] at hskip
        exact hskip
      · split at hattributes
        · cases hattributes
        obtain ⟨⟨name, afterName⟩, hname, hattributes⟩ :=
          Option.bind_eq_some_iff.mp hattributes
        dsimp only at hattributes
        split at hattributes
        · cases hattributes
        obtain ⟨afterEquals, hequals, hattributes⟩ :=
          Option.bind_eq_some_iff.mp hattributes
        have hafter : afterName <:+ input := by
          rw [parseName_eq hname] at hskip
          exact (List.suffix_append name afterName).trans hskip
        have hvalue : afterEquals.dropWhile isSpace <:+ input :=
          (List.dropWhile_suffix isSpace).trans <| (strip_suffix hequals).trans <|
            (List.dropWhile_suffix isSpace).trans hafter
        split at hattributes
        · cases hattributes
        rename_i quote value heq
        rw [heq] at hvalue
        split at hattributes
        · obtain ⟨afterValue, hread, hattributes⟩ :=
            Option.bind_eq_some_iff.mp hattributes
          exact (ih hattributes).trans <| (attributeValue_suffix hread).trans <|
            (List.suffix_cons quote value).trans hvalue
        · cases hattributes

theorem upTo_eq {literal cs : List Char} (hfind : upTo literal input = some (cs, rest)) :
    input = cs ++ (literal ++ rest) := by
  induction input generalizing cs with
  | nil => cases hfind
  | cons c input ih =>
      rw [upTo] at hfind
      split at hfind
      · rename_i left hstrip
        obtain ⟨rfl, rfl⟩ := Prod.mk.inj (Option.some.inj hfind)
        rw [strip_eq_some hstrip, List.nil_append]
      · split at hfind
        · obtain ⟨⟨cs', left⟩, hfound, heq⟩ := Option.map_eq_some_iff.mp hfind
          obtain ⟨rfl, rfl⟩ := Prod.mk.inj heq
          rw [ih hfound, List.cons_append]
        · cases hfind

theorem comment_suffix (hcomment : comment input = some rest) : rest <:+ input := by
  obtain ⟨⟨cs, left⟩, hfind, hstrip⟩ := Option.bind_eq_some_iff.mp hcomment
  rw [upTo_eq hfind]
  exact (strip_suffix hstrip).trans <| (List.suffix_append _ left).trans
    (List.suffix_append cs _)

theorem instruction_suffix (hinstruction : instruction input = some rest) :
    rest <:+ input := by
  rw [instruction] at hinstruction
  obtain ⟨⟨target, left⟩, hname, hinstruction⟩ := Option.bind_eq_some_iff.mp hinstruction
  have hleft : left <:+ input := by
    rw [parseName_eq hname]
    exact List.suffix_append target left
  dsimp only at hinstruction
  split at hinstruction
  · cases hinstruction
  split at hinstruction
  · rename_i after hstrip
    obtain rfl := Option.some.inj hinstruction
    exact (strip_suffix hstrip).trans hleft
  · split at hinstruction
    · cases hinstruction
    · rename_i c after hnone
      split at hinstruction
      · obtain ⟨⟨cs, found⟩, hfind, rfl⟩ := Option.map_eq_some_iff.mp hinstruction
        have hfound : found <:+ after := by
          rw [upTo_eq hfind]
          exact (List.suffix_append _ found).trans (List.suffix_append cs _)
        exact hfound.trans ((List.suffix_cons c after).trans hleft)
      · cases hinstruction

/-! ## Tokens -/

/-- A token with the input that it starts and what is left behind it. -/
inductive TokenRead : Token → List Char → List Char → Prop
  | char (c : Char) (rest : List Char) (hlt : c ≠ '<') (hamp : c ≠ '&')
      (hxml : isXmlChar c = true) (hend : ¬"]]>".toList <+: c :: rest) :
      TokenRead (.chars [c]) (c :: rest) rest
  | reference (c : Char) (name rest : List Char) :
      TokenRead (.chars [c]) ('&' :: (name ++ ';' :: rest)) rest
  | skipped (c : Char) (hc : c = '!' ∨ c = '?') (body rest : List Char) :
      TokenRead (.chars []) ('<' :: c :: (body ++ rest)) rest
  | cdata (cs rest : List Char) :
      TokenRead (.chars cs) ("<![CDATA[".toList ++ (cs ++ ("]]>".toList ++ rest))) rest
  | startTag (name body rest : List Char) :
      TokenRead (.startTag name) ('<' :: (name ++ (body ++ '>' :: rest))) rest
  | emptyTag (name body rest : List Char) :
      TokenRead (.emptyTag name) ('<' :: (name ++ (body ++ '/' :: '>' :: rest))) rest
  | endTag (name body rest : List Char) :
      TokenRead (.endTag name) ('<' :: '/' :: (name ++ (body ++ '>' :: rest))) rest

theorem tokenRead_of_endTag {token : Token} (htag : endTag input = some (token, rest)) :
    TokenRead token ('<' :: '/' :: input) rest := by
  obtain ⟨⟨name, afterName⟩, hname, htag⟩ := Option.bind_eq_some_iff.mp htag
  obtain ⟨left, hstrip, htag⟩ := Option.bind_eq_some_iff.mp htag
  obtain ⟨rfl, rfl⟩ := Prod.mk.inj (Option.some.inj htag)
  have hafter : afterName = afterName.takeWhile isSpace ++ '>' :: left := by
    have hclose := strip_eq_some hstrip
    rw [← List.singleton_append]
    change afterName = _ ++ (">".toList ++ left)
    rw [← hclose, List.takeWhile_append_dropWhile]
  rw [parseName_eq hname, hafter]
  exact .endTag name _ left

theorem tokenRead_of_startTag {token : Token} (htag : startTag input = some (token, rest)) :
    TokenRead token ('<' :: input) rest := by
  obtain ⟨⟨name, afterName⟩, hname, htag⟩ := Option.bind_eq_some_iff.mp htag
  obtain ⟨⟨isEmpty, left⟩, hattributes, htag⟩ := Option.bind_eq_some_iff.mp htag
  obtain ⟨rfl, rfl⟩ := Prod.mk.inj (Option.some.inj htag)
  obtain ⟨body, hbody⟩ := attributes_suffix hattributes
  rw [parseName_eq hname, ← hbody]
  cases isEmpty with
  | false => exact .startTag name body left
  | true => exact .emptyTag name body left

theorem tokenRead_of_markup {token : Token} (hmarkup : markup input = some (token, rest)) :
    TokenRead token ('<' :: input) rest := by
  rw [markup] at hmarkup
  split at hmarkup
  · rename_i left hstrip
    rw [strip_eq_some hstrip]
    exact tokenRead_of_endTag hmarkup
  split at hmarkup
  · rename_i left hstrip
    obtain ⟨left', hcomment, heq⟩ := Option.map_eq_some_iff.mp hmarkup
    obtain ⟨rfl, rfl⟩ := Prod.mk.inj heq
    obtain ⟨body, hbody⟩ := comment_suffix hcomment
    rw [strip_eq_some hstrip, ← hbody]
    exact .skipped '!' (.inl rfl) ("--".toList ++ body) left'
  split at hmarkup
  · rename_i left hstrip
    obtain ⟨⟨cs, left'⟩, hcdata, heq⟩ := Option.map_eq_some_iff.mp hmarkup
    obtain ⟨rfl, rfl⟩ := Prod.mk.inj heq
    rw [strip_eq_some hstrip, upTo_eq hcdata]
    exact .cdata cs left'
  split at hmarkup
  · rename_i left hstrip
    obtain ⟨left', hinstruction, heq⟩ := Option.map_eq_some_iff.mp hmarkup
    obtain ⟨rfl, rfl⟩ := Prod.mk.inj heq
    obtain ⟨body, hbody⟩ := instruction_suffix hinstruction
    rw [strip_eq_some hstrip, ← hbody]
    exact .skipped '?' (.inr rfl) body left'
  · exact tokenRead_of_startTag hmarkup

theorem tokenRead_of_token {token : Token} (htoken : Xml.token input = some (token, rest)) :
    TokenRead token input rest := by
  cases input with
  | nil => cases htoken
  | cons c input =>
      rw [Xml.token] at htoken
      split at htoken
      · rename_i hlt
        rw [hlt]
        exact tokenRead_of_markup htoken
      rename_i hlt
      split at htoken
      · rename_i hamp
        obtain ⟨⟨d, left⟩, href, heq⟩ := Option.map_eq_some_iff.mp htoken
        obtain ⟨rfl, rfl⟩ := Prod.mk.inj heq
        obtain ⟨name, hinput⟩ := reference_eq href
        rw [hamp, hinput]
        exact .reference d name left
      rename_i hamp
      split at htoken
      · cases htoken
      rename_i hend
      split at htoken
      · rename_i hxml
        obtain ⟨rfl, rfl⟩ := Prod.mk.inj (Option.some.inj htoken)
        refine .char c input hlt hamp hxml ?_
        rintro ⟨left, hleft⟩
        rw [← hleft, strip_append] at hend
        exact hend rfl
      · cases htoken

end Xml
