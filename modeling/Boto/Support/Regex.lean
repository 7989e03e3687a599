import Mathlib.Data.List.Basic
import Mathlib.Data.Nat.Notation

/-!
# Regular expressions

A parser of patterns and a matcher that finds every place where a match can end.  Patterns have
groups, alternatives, sets, repetitions and anchors.  Escapes of letters and digits, and what
starts with `(?`, are not among them, so that a pattern with these is not compiled.
-/

/-- A regular expression.  A set is one of ranges, or of everything else. -/
inductive Regex
  | empty
  | char (c : Char)
  | any
  | set (negated : Bool) (ranges : List (Char × Char))
  | start
  | finish
  | seq (first second : Regex)
  | alt (first second : Regex)
  | group (inner : Regex)
  | repeated (inner : Regex) (least : ℕ) (most : Option ℕ)
  deriving DecidableEq

namespace Regex

/-! ## The parser -/

/-- A number, if there is one. -/
def number (digits : List Char) : Option ℕ :=
  if digits.isEmpty then none else some (digits.foldl (fun n c => 10 * n + (c.toNat - '0'.toNat)) 0)

/-- The upper bound after the lower one, and what follows. -/
def upperBound (low : Option ℕ) (input : List Char) : Option (ℕ × Option ℕ × List Char) :=
  match input.dropWhile Char.isDigit with
  | '}' :: rest => some (low.getD 0, number (input.takeWhile Char.isDigit), rest)
  | _ => none

/-- The bounds after a brace, and what follows.  Without them a brace stands for itself. -/
def bounds (input : List Char) : Option (ℕ × Option ℕ × List Char) :=
  let low := number (input.takeWhile Char.isDigit)
  match input.dropWhile Char.isDigit with
  | '}' :: rest => low.map fun low => (low, some low, rest)
  | ',' :: rest => upperBound low rest
  | _ => none

/-- What a repetition asks for, and what follows. -/
def quantifier : List Char → Option (ℕ × Option ℕ × List Char)
  | '*' :: rest => some (0, none, rest)
  | '+' :: rest => some (1, none, rest)
  | '?' :: rest => some (0, some 1, rest)
  | '{' :: rest => bounds rest
  | _ => none

/-- A member of a set, and what follows. -/
def setChar : List Char → Option (Char × List Char)
  | '\\' :: c :: rest => if c.isAlphanum then none else some (c, rest)
  | '\\' :: [] => none
  | c :: rest => some (c, rest)
  | [] => none

/-- The ranges of a set up to its bracket, and what follows.  A bracket stands for itself if it
comes first. -/
def setRanges : ℕ → Bool → List Char → Option (List (Char × Char) × List Char)
  | 0, _, _ => none
  | fuel + 1, isFirst, input => do
      let (low, rest) ← setChar input
      if input.head? = some ']' ∧ ¬isFirst then return ([], rest)
      else
        match rest with
        | '-' :: ']' :: rest => return ([(low, low), ('-', '-')], rest)
        | '-' :: rest =>
            let (high, rest) ← setChar rest
            if high < low then none
            let (ranges, rest) ← setRanges fuel false rest
            return ((low, high) :: ranges, rest)
        | rest =>
            let (ranges, rest) ← setRanges fuel false rest
            return ((low, low) :: ranges, rest)

/-- A set after its bracket, and what follows. -/
def bracket : List Char → Option (Regex × List Char)
  | '^' :: rest => (setRanges (rest.length + 1) true rest).map fun found =>
      (.set true found.1, found.2)
  | rest => (setRanges (rest.length + 1) true rest).map fun found => (.set false found.1, found.2)

/-- A group that is not closed yet: the alternatives before the last one, and the items of that,
last first. -/
structure Frame where
  alternatives : Option Regex
  items : List Regex

namespace Frame

/-- A group without anything. -/
def fresh : Frame := ⟨none, []⟩

/-- Adds an item. -/
def push (frame : Frame) (item : Regex) : Frame :=
  { frame with items := item :: frame.items }

/-- The expression of a group. -/
def close (frame : Frame) : Regex :=
  let last := frame.items.reverse.foldr seq empty
  match frame.alternatives with
  | none => last
  | some alternatives => .alt alternatives last

/-- Starts the next alternative. -/
def next (frame : Frame) : Frame := ⟨some frame.close, []⟩

/-- Repeats the last item, which is no anchor and not repeated yet. -/
def repeatLast (frame : Frame) (least : ℕ) (most : Option ℕ) : Option Frame :=
  match frame.items with
  | [] | start :: _ | finish :: _ | repeated _ _ _ :: _ => none
  | item :: items =>
      if most.any fun most => decide (most < least) then none
      else some { frame with items := .repeated item least most :: items }

end Frame

/-- What is left of a pattern, with the groups that are open. -/
structure Parsing where
  frame : Frame
  outer : List Frame
  rest : List Char

/-- Reads a repetition.  A `?` behind it makes it short, which does not change what is matched. -/
def readRepeat (frame : Frame) (outer : List Frame) :
    ℕ × Option ℕ × List Char → Option Parsing
  | (least, most, rest) => do
      let frame ← frame.repeatLast least most
      match rest with
      | '+' :: _ => none
      | '?' :: rest => some ⟨frame, outer, rest⟩
      | rest => some ⟨frame, outer, rest⟩

/-- Reads an escape. -/
def readEscape (frame : Frame) (outer : List Frame) : List Char → Option Parsing
  | [] => none
  | c :: rest => if c.isAlphanum then none else some ⟨frame.push (.char c), outer, rest⟩

/-- Reads the end of a group. -/
def readClose (frame : Frame) (rest : List Char) : List Frame → Option Parsing
  | [] => none
  | enclosing :: outer => some ⟨enclosing.push (.group frame.close), outer, rest⟩

/-- Reads an item. -/
def readItem (frame : Frame) (outer : List Frame) (c : Char) (rest : List Char) :
    Option Parsing :=
  if c = '\\' then readEscape frame outer rest
  else if c = '[' then (bracket rest).map fun found => ⟨frame.push found.1, outer, found.2⟩
  else if c = '(' then if rest.head? = some '?' then none else some ⟨.fresh, frame :: outer, rest⟩
  else if c = ')' then readClose frame rest outer
  else if c = '|' then some ⟨frame.next, outer, rest⟩
  else if c = '^' then some ⟨frame.push .start, outer, rest⟩
  else if c = '$' then some ⟨frame.push .finish, outer, rest⟩
  else if c = '.' then some ⟨frame.push .any, outer, rest⟩
  else
    match quantifier (c :: rest) with
    | none => some ⟨frame.push (.char c), outer, rest⟩
    | some bounds => readRepeat frame outer bounds

/-- Reads all items. -/
def parse : ℕ → List Char → Frame → List Frame → Option Regex
  | 0, _, _, _ => none
  | _ + 1, [], frame, outer => if outer.isEmpty then some frame.close else none
  | fuel + 1, c :: rest, frame, outer =>
      (readItem frame outer c rest).bind fun left => parse fuel left.rest left.frame left.outer

/-- The expression of a pattern. -/
def compile (pattern : List Char) : Option Regex :=
  parse (pattern.length + 1) pattern .fresh []

/-! ## The matcher -/

/-- A place in a text: whether it is the first one, and what follows. -/
@[ext] structure Place where
  isFirst : Bool
  rest : List Char
  deriving DecidableEq

/-- Takes a character. -/
def take (accepts : Char → Bool) (place : Place) : List Place :=
  match place.rest with
  | [] => []
  | c :: rest => if accepts c then [⟨false, rest⟩] else []

/-- Whether a character is in a range, where some are the same. -/
def inRange (same : Char → Char → Bool) (low high c : Char) : Bool :=
  (List.range (high.toNat + 1 - low.toNat)).any fun n =>
    decide (low.toNat + n).isValidChar && same (Char.ofNat (low.toNat + n)) c

/-- The places after a number of steps. -/
def iterate (step : Place → List Place) : ℕ → ℕ → Option ℕ → Place → List Place
  | 0, least, _, place => if least = 0 then [place] else []
  | fuel + 1, least, most, place =>
      (if least = 0 then [place] else []) ++
        if most = some 0 then []
        else (step place).flatMap (iterate step fuel (least - 1) (most.map (· - 1)))

/-- The places where a match ends.  Steps that take nothing are of no use once there are enough
steps, so that there are no more of the others than characters. -/
def ends (same : Char → Char → Bool) : Regex → Place → List Place
  | .empty, place => [place]
  | .char c, place => take (same c) place
  | .any, place => take (fun d => d ≠ '\n') place
  | .set negated ranges, place =>
      take (fun c => negated != ranges.any fun range => inRange same range.1 range.2 c) place
  | .start, place => if place.isFirst then [place] else []
  | .finish, place => if place.rest = [] ∨ place.rest = ['\n'] then [place] else []
  | .seq first second, place => (ends same first place).flatMap (ends same second)
  | .alt first second, place => ends same first place ++ ends same second place
  | .group inner, place => ends same inner place
  | .repeated inner least most, place =>
      iterate (ends same inner) (place.rest.length + least) least most place

/-- Whether a text has a match. -/
def search (same : Char → Char → Bool) (regex : Regex) (text : List Char) : Bool :=
  !(ends same regex ⟨true, text⟩).isEmpty ||
    text.tails.tail.any fun rest => !(ends same regex ⟨false, rest⟩).isEmpty

/-! ## Rules of the parser -/

section

variable {fuel : ℕ} {c : Char} {rest after : List Char} {frame frame' : Frame}
  {outer : List Frame}

theorem quantifier_eq_none (hc : c ∉ ['*', '+', '?']) (hbrace : c = '\x7b' → bounds rest = none) :
    quantifier (c :: rest) = none := by
  simp only [List.mem_cons, List.not_mem_nil, or_false, not_or] at hc
  unfold quantifier
  split
  · rename_i heq
    cases heq
    exact absurd rfl hc.1
  · rename_i heq
    cases heq
    exact absurd rfl hc.2.1
  · rename_i heq
    cases heq
    exact absurd rfl hc.2.2
  · rename_i heq
    cases heq
    exact hbrace rfl
  · rfl

theorem bounds_close (hdrop : rest.dropWhile Char.isDigit = '\x7d' :: after) :
    bounds rest =
      (number (rest.takeWhile Char.isDigit)).map fun low => (low, some low, after) := by
  rw [bounds, hdrop]
  rfl

theorem bounds_comma (hdrop : rest.dropWhile Char.isDigit = ',' :: after) :
    bounds rest = none ↔ (after.dropWhile Char.isDigit).head? ≠ some '\x7d' := by
  have hread : bounds rest = upperBound (number (rest.takeWhile Char.isDigit)) after := by
    rw [bounds, hdrop]
    rfl
  rw [hread, upperBound]
  split
  · rename_i heq
    simp [heq]
  · rename_i hnone
    refine iff_of_true rfl fun hhead => ?_
    obtain ⟨others, heq⟩ := List.head?_eq_some_iff.mp hhead
    exact hnone others heq

theorem bounds_other (hclose : (rest.dropWhile Char.isDigit).head? ≠ some '\x7d')
    (hcomma : (rest.dropWhile Char.isDigit).head? ≠ some ',') : bounds rest = none := by
  rw [bounds]
  split
  · rename_i heq
    rw [heq] at hclose
    exact absurd rfl hclose
  · rename_i heq
    rw [heq] at hcomma
    exact absurd rfl hcomma
  · rfl

/-- The characters that a pattern does not take for themselves, besides those of repetitions. -/
def marks : List Char := ['\\', '[', '(', ')', '|', '^', '$', '.']

theorem parse_literal (hc : c ∉ marks) (hquantifier : quantifier (c :: rest) = none) :
    parse (fuel + 1) (c :: rest) frame outer = parse fuel rest (frame.push (.char c)) outer := by
  simp only [marks, List.mem_cons, List.not_mem_nil, or_false, not_or] at hc
  obtain ⟨hslash, hbracket, hopen, hclose, hbar, hcaret, hdollar, hdot⟩ := hc
  rw [parse, readItem, if_neg hslash, if_neg hbracket, if_neg hopen, if_neg hclose, if_neg hbar,
    if_neg hcaret, if_neg hdollar, if_neg hdot, hquantifier]
  rfl

theorem parse_escape {d : Char} (hd : d.isAlphanum = false) :
    parse (fuel + 1) ('\\' :: d :: rest) frame outer =
      parse fuel rest (frame.push (.char d)) outer := by
  have hread : readItem frame outer '\\' (d :: rest) =
      some ⟨frame.push (.char d), outer, rest⟩ := by
    rw [readItem, if_pos rfl, readEscape, hd]
    rfl
  rw [parse, hread]
  rfl

theorem parse_bracket {found : Regex} (hbracket : bracket rest = some (found, after)) :
    parse (fuel + 1) ('[' :: rest) frame outer = parse fuel after (frame.push found) outer := by
  rw [parse, readItem, if_neg (by decide), if_pos rfl, hbracket]
  rfl

theorem parse_star (hrepeat : frame.repeatLast 0 none = some frame')
    (hrest : rest.head? ≠ some '+' ∧ rest.head? ≠ some '?') :
    parse (fuel + 1) ('*' :: rest) frame outer = parse fuel rest frame' outer := by
  have hread : readItem frame outer '*' rest = readRepeat frame outer (0, none, rest) := rfl
  rw [parse, hread, readRepeat, hrepeat]
  simp only [Option.bind_eq_bind, Option.bind_some]
  split
  · exact absurd rfl hrest.1
  · exact absurd rfl hrest.2
  · rfl

end

/-! ## Rules of the matcher -/

section

variable {same : Char → Char → Bool} {first second inner : Regex} {place place' : Place}

theorem mem_take {accepts : Char → Bool} : place' ∈ take accepts place ↔
    place'.isFirst = false ∧ ∃ c, accepts c = true ∧ place.rest = c :: place'.rest := by
  rw [take]
  cases hrest : place.rest with
  | nil => simp
  | cons c rest =>
      dsimp only
      split
      · rename_i hc
        rw [List.mem_singleton]
        constructor
        · rintro rfl
          exact ⟨rfl, c, hc, rfl⟩
        · rintro ⟨hfirst, d, -, heq⟩
          cases place'
          cases heq
          cases hfirst
          rfl
      · rename_i hc
        constructor
        · intro hin
          cases hin
        · rintro ⟨-, d, hd, heq⟩
          cases heq
          exact absurd hd hc

theorem mem_ends_seq : place' ∈ ends same (.seq first second) place ↔
    ∃ middle ∈ ends same first place, place' ∈ ends same second middle := by
  rw [ends, List.mem_flatMap]

theorem mem_ends_empty : place' ∈ ends same .empty place ↔ place' = place := by
  rw [ends, List.mem_singleton]

theorem mem_ends_finish : place' ∈ ends same .finish place ↔
    place' = place ∧ (place.rest = [] ∨ place.rest = ['\n']) := by
  rw [ends]
  split
  · rename_i hrest
    simp [hrest]
  · rename_i hrest
    simp [hrest]

/-- Steps that take one character each take a part of the text. -/
theorem mem_iterate_take {accepts : Char → Bool} {fuel : ℕ} (hfuel : place.rest.length ≤ fuel) :
    place' ∈ iterate (take accepts) fuel 0 none place ↔
      ∃ part, (∀ c ∈ part, accepts c = true) ∧ place.rest = part ++ place'.rest ∧
        place'.isFirst = (place.isFirst && part.isEmpty) := by
  induction fuel generalizing place with
  | zero =>
      have hrest : place.rest = [] := List.length_eq_zero_iff.mp (Nat.le_zero.mp hfuel)
      rw [iterate, if_pos rfl, List.mem_singleton]
      constructor
      · rintro rfl
        exact ⟨[], by simp, rfl, by simp⟩
      · rintro ⟨part, -, heq, hfirst⟩
        rw [hrest] at heq
        obtain ⟨rfl, hnil⟩ := List.append_eq_nil_iff.mp heq.symm
        exact Place.ext (by simpa using hfirst) (hnil.trans hrest.symm)
  | succ fuel ih =>
      have hnone : ¬(none : Option ℕ) = some 0 := by simp
      rw [iterate, if_pos rfl, if_neg hnone, List.mem_append, List.mem_singleton, List.mem_flatMap]
      constructor
      · rintro (rfl | ⟨middle, hmiddle, hin⟩)
        · exact ⟨[], by simp, rfl, by simp⟩
        · obtain ⟨hfirst, c, hc, hrest⟩ := mem_take.mp hmiddle
          rw [hrest, List.length_cons] at hfuel
          obtain ⟨part, hpart, heq, hlast⟩ := (ih (Nat.le_of_succ_le_succ hfuel)).mp hin
          refine ⟨c :: part, List.forall_mem_cons.mpr ⟨hc, hpart⟩, ?_, ?_⟩
          · rw [hrest, heq, List.cons_append]
          · rw [hlast, hfirst]
            simp
      · rintro ⟨part, hpart, heq, hfirst⟩
        cases part with
        | nil =>
            exact .inl (Place.ext (by simpa using hfirst) heq.symm)
        | cons c part =>
            obtain ⟨hc, hpart⟩ := List.forall_mem_cons.mp hpart
            rw [heq, List.cons_append, List.length_cons] at hfuel
            refine .inr ⟨⟨false, part ++ place'.rest⟩, mem_take.mpr ⟨rfl, c, hc, heq⟩, ?_⟩
            apply (ih (Nat.le_of_succ_le_succ hfuel)).mpr
            refine ⟨part, hpart, rfl, ?_⟩
            rw [hfirst]
            simp

end

end Regex
