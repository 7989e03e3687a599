import Mathlib.Data.List.Basic
import Mathlib.Data.Nat.Notation
import Mathlib.Algebra.GroupWithZero.Nat

/-!
# JSON documents

A parser of JSON text, and what it reads of text that was pasted into strings: it comes back
exactly if it has no quotes, backslashes and control characters.
-/

/-- A value.  The members of an object are kept in their order. -/
inductive Json
  | null
  | bool (value : Bool)
  | number (text : List Char)
  | string (content : List Char)
  | array (items : List Json)
  | object (members : List (List Char × Json))

namespace Json

/-! ## The parser -/

/-- The characters that JSON takes for white space. -/
def isSpace (c : Char) : Bool :=
  c = ' ' || c = '\t' || c = '\n' || c = '\r'

/-- What follows a character, after white space. -/
def expect (c : Char) (input : List Char) : Option (List Char) :=
  match input.dropWhile isSpace with
  | [] => none
  | d :: rest => if d = c then some rest else none

/-- What follows a literal. -/
def strip : List Char → List Char → Option (List Char)
  | [], input => some input
  | _ :: _, [] => none
  | c :: literal, d :: input => if c = d then strip literal input else none

/-- The value of a hexadecimal digit. -/
def hexValue (c : Char) : Option ℕ :=
  if '0' ≤ c ∧ c ≤ '9' then some (c.toNat - '0'.toNat)
  else if 'a' ≤ c ∧ c ≤ 'f' then some (c.toNat - 'a'.toNat + 10)
  else if 'A' ≤ c ∧ c ≤ 'F' then some (c.toNat - 'A'.toNat + 10)
  else none

/-- The number for four hexadecimal digits, and what follows. -/
def hexNumber (input : List Char) : Option (ℕ × List Char) := do
  if input.length < 4 then none
  let n ← (input.take 4).foldlM (fun n c => (hexValue c).map (16 * n + ·)) 0
  return (n, input.drop 4)

/-- The character for a number, or for a pair of surrogates, and what follows. -/
def unicode (input : List Char) : Option (Char × List Char) := do
  let (n, rest) ← hexNumber input
  if n.isValidChar then return (Char.ofNat n, rest)
  else if 0xDC00 ≤ n then none
  else
    let rest ← strip "\\u".toList rest
    let (low, rest) ← hexNumber rest
    if 0xDC00 ≤ low ∧ low < 0xE000 then
      return (Char.ofNat (0x10000 + 0x400 * (n - 0xD800) + (low - 0xDC00)), rest)
    else none

/-- The character of an escape after its backslash, and what follows. -/
def escape : List Char → Option (Char × List Char)
  | '"' :: rest => some ('"', rest)
  | '\\' :: rest => some ('\\', rest)
  | '/' :: rest => some ('/', rest)
  | 'b' :: rest => some ('\x08', rest)
  | 'f' :: rest => some ('\x0c', rest)
  | 'n' :: rest => some ('\n', rest)
  | 'r' :: rest => some ('\r', rest)
  | 't' :: rest => some ('\t', rest)
  | 'u' :: rest => unicode rest
  | _ => none

/-- A string after its first quote, and what follows. -/
def content : ℕ → List Char → Option (List Char × List Char)
  | 0, _ => none
  | _, [] => none
  | fuel + 1, c :: rest =>
      if c = '"' then some ([], rest)
      else if c = '\\' then do
        let (d, rest) ← escape rest
        let (s, rest) ← content fuel rest
        return (d :: s, rest)
      else if c.toNat < 0x20 then none
      else do
        let (s, rest) ← content fuel rest
        return (c :: s, rest)

/-- The characters of numbers. -/
def isNumberChar (c : Char) : Bool :=
  c.isDigit || c = '-' || c = '+' || c = '.' || c = 'e' || c = 'E'

/-- Whether a text is that of a number, without its sign. -/
def isUnsigned (text : List Char) : Bool :=
  let whole := text.takeWhile Char.isDigit
  let rest := text.dropWhile Char.isDigit
  let exponent (rest : List Char) : Bool :=
    match rest with
    | [] => true
    | c :: rest =>
        let digits := match rest with
          | '+' :: digits => digits
          | '-' :: digits => digits
          | digits => digits
        (c = 'e' || c = 'E') && !digits.isEmpty && digits.all Char.isDigit
  !whole.isEmpty && (whole.length = 1 || whole.head? ≠ some '0') &&
    match rest with
    | '.' :: rest => !(rest.takeWhile Char.isDigit).isEmpty && exponent (rest.dropWhile Char.isDigit)
    | rest => exponent rest

/-- Whether a text is that of a number. -/
def isNumber : List Char → Bool
  | '-' :: text => isUnsigned text
  | text => isUnsigned text

/-- A value that is a literal or a number, and what follows. -/
def scalar (input : List Char) : Option (Json × List Char) :=
  match strip "true".toList input, strip "false".toList input, strip "null".toList input with
  | some rest, _, _ => some (.bool true, rest)
  | none, some rest, _ => some (.bool false, rest)
  | none, none, some rest => some (.null, rest)
  | none, none, none =>
      if isNumber (input.takeWhile isNumberChar) then
        some (.number (input.takeWhile isNumberChar), input.dropWhile isNumberChar)
      else none

mutual

/-- A value, and what follows. -/
def value : ℕ → List Char → Option (Json × List Char)
  | 0, _ => none
  | fuel + 1, input =>
      match expect '{' input, expect '[' input, expect '"' input with
      | some rest, _, _ =>
          match expect '}' rest with
          | some rest => some (.object [], rest)
          | none => (members fuel rest).map fun (read, rest) => (.object read, rest)
      | none, some rest, _ =>
          match expect ']' rest with
          | some rest => some (.array [], rest)
          | none => (items fuel rest).map fun (read, rest) => (.array read, rest)
      | none, none, some rest =>
          (content (rest.length + 1) rest).map fun (read, rest) => (.string read, rest)
      | none, none, none => scalar (input.dropWhile isSpace)

/-- The items of an array up to its end, and what follows. -/
def items : ℕ → List Char → Option (List Json × List Char)
  | 0, _ => none
  | fuel + 1, input => do
      let (item, rest) ← value fuel input
      match expect ',' rest with
      | some rest =>
          let (others, rest) ← items fuel rest
          return (item :: others, rest)
      | none =>
          let rest ← expect ']' rest
          return ([item], rest)

/-- The members of an object up to its end, and what follows. -/
def members : ℕ → List Char → Option (List (List Char × Json) × List Char)
  | 0, _ => none
  | fuel + 1, input => do
      let rest ← expect '"' input
      let (key, rest) ← content (rest.length + 1) rest
      let rest ← expect ':' rest
      let (member, rest) ← value fuel rest
      match expect ',' rest with
      | some rest =>
          let (others, rest) ← members fuel rest
          return ((key, member) :: others, rest)
      | none =>
          let rest ← expect '}' rest
          return ([(key, member)], rest)

end

/-- The value of a document. -/
def parse (text : List Char) : Option Json := do
  let (read, rest) ← value (text.length + 1) text
  if rest.all isSpace then return read else none

mutual

/-- The strings of a value, with the keys of its objects. -/
def strings : Json → List (List Char)
  | .null => []
  | .bool _ => []
  | .number _ => []
  | .string read => [read]
  | .array read => stringsOf read
  | .object read => stringsOfMembers read

/-- The strings of some values. -/
def stringsOf : List Json → List (List Char)
  | [] => []
  | item :: others => item.strings ++ stringsOf others

/-- The strings of some members. -/
def stringsOfMembers : List (List Char × Json) → List (List Char)
  | [] => []
  | (key, member) :: others => key :: (member.strings ++ stringsOfMembers others)

end

/-- Text that comes back when it is pasted between quotes. -/
def isPlain (text : List Char) : Bool :=
  text.all fun c => c ≠ '"' && c ≠ '\\' && decide (0x20 ≤ c.toNat)

end Json
