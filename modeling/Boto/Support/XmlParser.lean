import Boto.Support.Xml

/-!
# A parser of XML text

The parser reads XML 1.0 documents without document type declarations.  It reports the
elements and the character data of a document that is well formed, and nothing of any
other one.  Attributes are checked and not reported.
-/

namespace Xml

/-! ## Characters and names -/

/-- Whether the number of a character is within some bounds. -/
def inRange (c : Char) (low high : ℕ) : Bool :=
  decide (low ≤ c.toNat) && decide (c.toNat ≤ high)

/-- The characters that a document may have. -/
def isXmlChar (c : Char) : Bool :=
  c = '\t' || c = '\n' || c = '\r' || inRange c 0x20 0xD7FF ||
    inRange c 0xE000 0xFFFD || inRange c 0x10000 0x10FFFF

/-- The characters with which a name may start. -/
def isNameStartChar (c : Char) : Bool :=
  c.isAlpha || c = ':' || c = '_' || inRange c 0xC0 0xD6 || inRange c 0xD8 0xF6 ||
    inRange c 0xF8 0x2FF || inRange c 0x370 0x37D || inRange c 0x37F 0x1FFF ||
    inRange c 0x200C 0x200D || inRange c 0x2070 0x218F || inRange c 0x2C00 0x2FEF ||
    inRange c 0x3001 0xD7FF || inRange c 0xF900 0xFDCF || inRange c 0xFDF0 0xFFFD ||
    inRange c 0x10000 0xEFFFF

/-- The characters that a name may have. -/
def isNameChar (c : Char) : Bool :=
  isNameStartChar c || c.isDigit || c = '-' || c = '.' || inRange c 0xB7 0xB7 ||
    inRange c 0x300 0x36F || inRange c 0x203F 0x2040

/-- What follows a literal. -/
def strip : List Char → List Char → Option (List Char)
  | [], input => some input
  | _ :: _, [] => none
  | c :: literal, d :: input => if c = d then strip literal input else none

/-- A name, and what follows. -/
def parseName (input : List Char) : Option (List Char × List Char) :=
  match input with
  | [] => none
  | c :: rest =>
      if isNameStartChar c then
        some (c :: rest.takeWhile isNameChar, rest.dropWhile isNameChar)
      else none

/-! ## Tokens -/

/-- The value of a digit. -/
def digitValue (base : ℕ) (c : Char) : Option ℕ :=
  let value :=
    if '0' ≤ c ∧ c ≤ '9' then c.toNat - '0'.toNat
    else if 'a' ≤ c ∧ c ≤ 'f' then c.toNat - 'a'.toNat + 10
    else if 'A' ≤ c ∧ c ≤ 'F' then c.toNat - 'A'.toNat + 10
    else base
  if value < base then some value else none

/-- The number that some digits stand for. -/
def numeral (base : ℕ) (digits : List Char) : Option ℕ :=
  if digits.isEmpty then none
  else digits.foldlM (fun n c => (digitValue base c).map (base * n + ·)) 0

/-- The character that a reference stands for. -/
def referenceChar (name : List Char) : Option Char :=
  if name = "lt".toList then some '<'
  else if name = "gt".toList then some '>'
  else if name = "amp".toList then some '&'
  else if name = "quot".toList then some '"'
  else if name = "apos".toList then some '\x27'
  else
    let number := match strip "#x".toList name with
      | some digits => numeral 16 digits
      | none => (strip "#".toList name).bind (numeral 10)
    number.bind fun n =>
      if n.isValidChar then
        if isXmlChar (Char.ofNat n) then some (Char.ofNat n) else none
      else none

/-- A reference after its `&`, and what follows. -/
def reference (input : List Char) : Option (Char × List Char) := do
  let c ← referenceChar (input.takeWhile (· ≠ ';'))
  let rest ← strip [';'] (input.dropWhile (· ≠ ';'))
  return (c, rest)

/-- The characters before a literal, and what follows the literal. -/
def upTo (literal : List Char) : List Char → Option (List Char × List Char)
  | [] => none
  | c :: rest =>
      match strip literal (c :: rest) with
      | some rest => some ([], rest)
      | none =>
          if isXmlChar c then
            (upTo literal rest).map fun (cs, rest) => (c :: cs, rest)
          else none

/-- What follows a comment, after its `<!--`. -/
def comment (input : List Char) : Option (List Char) :=
  (upTo "--".toList input).bind fun (_, rest) => strip ">".toList rest

/-- What follows a processing instruction, after its `<?`. -/
def instruction (input : List Char) : Option (List Char) := do
  let (target, rest) ← parseName input
  if target.map Char.toLower = "xml".toList then none
  else match strip "?>".toList rest with
    | some rest => some rest
    | none =>
        match rest with
        | [] => none
        | c :: rest =>
            if isSpace c then (upTo "?>".toList rest).map Prod.snd else none

/-- The characters of a CDATA section after its start, and what follows. -/
def cdata (input : List Char) : Option (List Char × List Char) :=
  upTo "]]>".toList input

/-- What follows the value of an attribute, for at most the given number of
characters. -/
def attributeValue (quote : Char) : ℕ → List Char → Option (List Char)
  | 0, _ => none
  | _, [] => none
  | fuel + 1, c :: rest =>
      if c = quote then some rest
      else if c = '<' then none
      else if c = '&' then
        (reference rest).bind fun (_, rest) => attributeValue quote fuel rest
      else if isXmlChar c then attributeValue quote fuel rest
      else none

/-- The attributes of a tag with names other than those seen, whether the tag is one of
an empty element, and what follows it. -/
def attributes : ℕ → List (List Char) → List Char → Option (Bool × List Char)
  | 0, _, _ => none
  | fuel + 1, seen, input =>
      let rest := input.dropWhile isSpace
      match strip ">".toList rest, strip "/>".toList rest with
      | some rest, _ => some (false, rest)
      | none, some rest => some (true, rest)
      | none, none => do
          if rest.length = input.length then none
          else
            let (name, rest) ← parseName rest
            if seen.contains name then none
            else
              let rest ← strip "=".toList (rest.dropWhile isSpace)
              match rest.dropWhile isSpace with
              | [] => none
              | quote :: rest =>
                  if quote = '"' ∨ quote = '\x27' then
                    let rest ← attributeValue quote rest.length rest
                    attributes fuel (name :: seen) rest
                  else none

/-- A part of the content of an element. -/
inductive Token
  | chars (content : List Char)
  | startTag (name : List Char)
  | emptyTag (name : List Char)
  | endTag (name : List Char)
  deriving DecidableEq

/-- An end tag after its `</`, and what follows. -/
def endTag (input : List Char) : Option (Token × List Char) := do
  let (name, rest) ← parseName input
  let rest ← strip ">".toList (rest.dropWhile isSpace)
  return (.endTag name, rest)

/-- A start tag after its `<`, and what follows. -/
def startTag (input : List Char) : Option (Token × List Char) := do
  let (name, rest) ← parseName input
  let (isEmpty, rest) ← attributes (rest.length + 1) [] rest
  return (if isEmpty then .emptyTag name else .startTag name, rest)

/-- Markup after its `<`, and what follows. -/
def markup (input : List Char) : Option (Token × List Char) :=
  match strip "/".toList input with
  | some rest => endTag rest
  | none =>
      match strip "!--".toList input with
      | some rest => (comment rest).map fun rest => (.chars [], rest)
      | none =>
          match strip "![CDATA[".toList input with
          | some rest => (cdata rest).map fun (content, rest) => (.chars content, rest)
          | none =>
              match strip "?".toList input with
              | some rest => (instruction rest).map fun rest => (.chars [], rest)
              | none => startTag input

/-- A part of the content of an element, and what follows. -/
def token : List Char → Option (Token × List Char)
  | [] => none
  | c :: rest =>
      if c = '<' then markup rest
      else if c = '&' then
        (reference rest).map fun (c, rest) => (.chars [c], rest)
      else if (strip "]]>".toList (c :: rest)).isSome then none
      else if isXmlChar c then some (.chars [c], rest)
      else none

/-! ## Documents -/

/-- What is left after white space, comments and processing instructions. -/
def misc : ℕ → List Char → Option (List Char)
  | 0, _ => none
  | fuel + 1, input =>
      let rest := input.dropWhile isSpace
      match strip "<!--".toList rest with
      | some rest => (comment rest).bind (misc fuel)
      | none =>
          match strip "<?".toList rest with
          | some rest => (instruction rest).bind (misc fuel)
          | none => some rest

/-- The events of the rest of a document, within some elements, the last of them
first, for at most the given number of tokens. -/
def content : ℕ → List (List Char) → List Char → Option (List Event)
  | 0, _, _ => none
  | fuel + 1, stack, input =>
      match token input with
      | none => none
      | some (.chars cs, rest) =>
          (content fuel stack rest).map (cs.map .characters ++ ·)
      | some (.startTag name, rest) =>
          (content fuel (name :: stack) rest).map (.startElement name :: ·)
      | some (.emptyTag name, rest) =>
          (content fuel stack rest).map
            ([.startElement name, .endElement name] ++ ·)
      | some (.endTag name, rest) =>
          match stack with
          | [] => none
          | top :: stack =>
              if top = name then
                if stack.isEmpty then
                  if misc (rest.length + 1) rest = some [] then
                    some [.endElement name]
                  else none
                else (content fuel stack rest).map (.endElement name :: ·)
              else none

/-- Line ends as parsers see them: a carriage return is a line feed, and with a line
feed after it they are one.  The first argument says whether there was one before. -/
def normalizeFrom : Bool → List Char → List Char
  | _, [] => []
  | afterReturn, c :: rest =>
      if c = '\r' then '\n' :: normalizeFrom true rest
      else if c = '\n' ∧ afterReturn = true then normalizeFrom false rest
      else c :: normalizeFrom false rest

/-- The text of a document with its line ends normalized. -/
def normalize (document : List Char) : List Char :=
  normalizeFrom false document

/-- The XML declaration that a document may start with.  Other ones are not known to
this parser. -/
def declaration : List Char :=
  "<?xml version=\"1.0\" encoding=\"UTF-8\"?>".toList

/-- The events of a document that is well formed. -/
def parse (document : List Char) : Option (List Event) := do
  let document := normalize document
  let document := (strip declaration document).getD document
  let document ← misc (document.length + 1) document
  let rest ← strip "<".toList document
  match ← startTag rest with
  | (.startTag name, rest) =>
      (content (rest.length + 1) [name] rest).map (.startElement name :: ·)
  | (.emptyTag name, rest) =>
      if misc (rest.length + 1) rest = some [] then
        some [.startElement name, .endElement name]
      else none
  | _ => none

end Xml
