import Boto.Support.Json
import Mathlib.Tactic.Common

/-!
# What strings cost

A relation between the strings of a document and its text holds of every document if it holds of
strings between their quotes.  A string that was written with escapes has fewer backslashes and
`u`s than what was written, so if a document has no more of them than its strings, then its
strings were written as they are.  And a document has two quotes for each of its strings, and no
others that are not in one.
-/

namespace Json

/-- The characters of which an escape has more than what it stands for. -/
def isMark (c : Char) : Bool := c = '\\' || c = 'u'

/-- How many of them a text has. -/
def weight (text : List Char) : ℕ := text.countP isMark

/-- How many of them some texts have. -/
def weights (texts : List (List Char)) : ℕ := weight texts.flatten

@[simp] theorem weight_nil : weight [] = 0 := rfl

@[simp] theorem weight_append (text text' : List Char) :
    weight (text ++ text') = weight text + weight text' := List.countP_append

theorem weight_cons (c : Char) (text : List Char) :
    weight (c :: text) = (isMark c).toNat + weight text := by
  rw [weight, List.countP_cons, weight]
  cases isMark c
  · exact (Nat.zero_add _).symm
  · exact Nat.add_comm _ _

@[simp] theorem weights_nil : weights [] = 0 := rfl

@[simp] theorem weights_cons (text : List Char) (texts : List (List Char)) :
    weights (text :: texts) = weight text + weights texts := by
  rw [weights, List.flatten_cons, weight_append, weights]

@[simp] theorem weights_append (texts texts' : List (List Char)) :
    weights (texts ++ texts') = weights texts + weights texts' := by
  rw [weights, List.flatten_append, weight_append, weights, weights]

theorem toNat_isMark_le (c : Char) : (isMark c).toNat ≤ 1 := Bool.toNat_le _

/-- The strings that are read of a text have fewer marks than it, or no more and are plain. -/
def Faithful (texts : List (List Char)) (text : List Char) : Prop :=
  weights texts < weight text ∨
    weights texts ≤ weight text ∧ ∀ part ∈ texts, isPlain part = true

namespace Faithful

variable {texts texts' : List (List Char)} {text text' : List Char}

theorem le (hfaithful : Faithful texts text) : weights texts ≤ weight text :=
  hfaithful.elim Nat.le_of_lt And.left

theorem nothing (text : List Char) : Faithful [] text :=
  .inr ⟨Nat.zero_le _, fun _ hpart => absurd hpart List.not_mem_nil⟩

theorem append (hfirst : Faithful texts text) (hrest : Faithful texts' text') :
    Faithful (texts ++ texts') (text ++ text') := by
  have hle := hfirst.le
  have hle' := hrest.le
  rw [Faithful, weights_append, weight_append]
  rcases hfirst with hlt | ⟨-, hplain⟩
  · exact .inl (by omega)
  · rcases hrest with hlt | ⟨-, hplain'⟩
    · exact .inl (by omega)
    · exact .inr ⟨by omega, fun part hpart =>
        (List.mem_append.mp hpart).elim (hplain part) (hplain' part)⟩

end Faithful

/-! ## Tokens -/

theorem expect_eq {c : Char} {input rest : List Char} (hexpect : expect c input = some rest) :
    ∃ space, input = space ++ c :: rest ∧ '"' ∉ space := by
  rw [expect] at hexpect
  split at hexpect
  · cases hexpect
  · rename_i d others hdrop
    split at hexpect
    · rename_i hd
      obtain rfl := Option.some.inj hexpect
      subst hd
      have hsplit := List.takeWhile_append_dropWhile (p := isSpace) (l := input)
      rw [hdrop] at hsplit
      refine ⟨_, hsplit.symm, fun hin => ?_⟩
      cases List.all_eq_true.mp List.all_takeWhile _ hin
    · cases hexpect

theorem strip_eq {literal input rest : List Char} (hstrip : strip literal input = some rest) :
    input = literal ++ rest := by
  induction literal generalizing input with
  | nil =>
      cases hstrip
      rfl
  | cons c literal ih =>
      cases input with
      | nil => cases hstrip
      | cons d input =>
          rw [strip] at hstrip
          split at hstrip
          · rename_i heq
            rw [heq, ih hstrip, List.cons_append]
          · cases hstrip

theorem hexNumber_suffix {input rest : List Char} {n : ℕ}
    (hnumber : hexNumber input = some (n, rest)) : rest <:+ input := by
  rw [hexNumber] at hnumber
  split at hnumber
  · cases hnumber
  · simp only [Option.bind_eq_bind, Option.bind_eq_some_iff, Option.pure_def, Option.some.injEq,
      Prod.mk.injEq] at hnumber
    obtain ⟨_, _, m, _, -, rfl⟩ := hnumber
    exact List.drop_suffix _ _

theorem unicode_suffix {input rest : List Char} {c : Char}
    (hunicode : unicode input = some (c, rest)) : rest <:+ input := by
  unfold unicode at hunicode
  obtain ⟨⟨n, after⟩, hnumber, hrest⟩ := Option.bind_eq_some_iff.mp hunicode
  have hsuffix := hexNumber_suffix hnumber
  dsimp only at hrest
  split at hrest
  · cases hrest
    exact hsuffix
  · split at hrest
    · cases hrest
    · obtain ⟨second, hstrip, hrest⟩ := Option.bind_eq_some_iff.mp hrest
      obtain ⟨⟨low, last⟩, hlow, hrest⟩ := Option.bind_eq_some_iff.mp hrest
      have hsecond : second <:+ after := ⟨_, (strip_eq hstrip).symm⟩
      dsimp only at hrest
      split at hrest
      · obtain rfl : last = rest := congrArg Prod.snd (Option.some.inj hrest)
        exact (hexNumber_suffix hlow).trans (hsecond.trans hsuffix)
      · cases hrest

/-- An escape has at least as many marks behind its backslash as what it stands for. -/
theorem escape_eq {input rest : List Char} {c : Char} (hescape : escape input = some (c, rest)) :
    ∃ used, input = used ++ rest ∧ (isMark c).toNat ≤ weight used := by
  unfold escape at hescape
  split at hescape
  any_goals
    cases hescape
    exact ⟨[_], rfl, by decide⟩
  · rename_i others
    obtain ⟨used, rfl⟩ := unicode_suffix hescape
    refine ⟨'u' :: used, rfl, ?_⟩
    have hmark : (isMark 'u').toNat = 1 := rfl
    have hle := toNat_isMark_le c
    rw [weight_cons, hmark]
    omega
  · cases hescape

/-! ## Strings -/

/-- A string has fewer marks than what was written for it, or was written as it is. -/
theorem content_faithful {fuel : ℕ} {input read rest : List Char}
    (hcontent : content fuel input = some (read, rest)) :
    ∃ used, input = used ++ '"' :: rest ∧
      (weight read < weight used ∨ used = read ∧ isPlain read = true) := by
  induction fuel generalizing input read with
  | zero => cases hcontent
  | succ fuel ih =>
      cases input with
      | nil => cases hcontent
      | cons c input =>
          rw [content] at hcontent
          split at hcontent
          · rename_i hquote
            cases hcontent
            exact ⟨[], by rw [hquote]; rfl, .inr ⟨rfl, rfl⟩⟩
          · rename_i hquote
            split at hcontent
            · rename_i hslash
              obtain ⟨⟨d, after⟩, hescape, hcontent⟩ := Option.bind_eq_some_iff.mp hcontent
              obtain ⟨⟨others, last⟩, hrest, hcontent⟩ := Option.bind_eq_some_iff.mp hcontent
              cases hcontent
              obtain ⟨escaped, rfl, hle⟩ := escape_eq hescape
              obtain ⟨used, rfl, hused⟩ := ih hrest
              refine ⟨c :: (escaped ++ used), by simp, .inl ?_⟩
              have hmark : (isMark c).toNat = 1 := by rw [hslash]; rfl
              have hothers : weight others ≤ weight used := by
                rcases hused with hlt | ⟨rfl, -⟩
                · exact Nat.le_of_lt hlt
                · exact Nat.le_refl _
              rw [weight_cons, weight_cons, weight_append, hmark]
              omega
            · rename_i hslash
              split at hcontent
              · cases hcontent
              · rename_i hcontrol
                obtain ⟨⟨others, last⟩, hrest, hcontent⟩ := Option.bind_eq_some_iff.mp hcontent
                cases hcontent
                obtain ⟨used, rfl, hused⟩ := ih hrest
                refine ⟨c :: used, rfl, ?_⟩
                rcases hused with hlt | ⟨rfl, hplain⟩
                · left
                  rw [weight_cons, weight_cons]
                  omega
                · right
                  refine ⟨rfl, ?_⟩
                  rw [isPlain, List.all_cons, Bool.and_eq_true]
                  refine ⟨?_, hplain⟩
                  simp [hquote, hslash, Nat.not_lt.mp hcontrol]

/-! ## Relations between strings and text -/

/-- A relation between the strings of a text and the text, which holds of text without quotes, of
strings between quotes and of what is put together from text that it holds of. -/
structure Relates (r : List (List Char) → List Char → Prop) : Prop where
  nothing : ∀ {text}, '"' ∉ text → r [] text
  append : ∀ {texts texts' text text'}, r texts text → r texts' text' →
    r (texts ++ texts') (text ++ text')
  quoted : ∀ {fuel input read rest}, content fuel input = some (read, rest) →
    ∃ used, input = used ++ rest ∧ r [read] ('"' :: used)

/-- A reader uses up a text that its strings are related to. -/
def Uses (r : List (List Char) → List Char → Prop) {α : Type} (strings : α → List (List Char))
    (input : List Char) (read : Option (α × List Char)) : Prop :=
  ∀ found rest, read = some (found, rest) →
    ∃ used, input = used ++ rest ∧ r (strings found) used

section

variable {r : List (List Char) → List Char → Prop} {fuel : ℕ}
variable {texts : List (List Char)} {text : List Char}

/-- Text without quotes in front. -/
theorem Relates.after (hrelates : Relates r) {before : List Char} (hbefore : '"' ∉ before)
    (htext : r texts text) : r texts (before ++ text) := by
  have hboth := hrelates.append (hrelates.nothing hbefore) htext
  rwa [List.nil_append] at hboth

/-- Text without quotes behind. -/
theorem Relates.before (hrelates : Relates r) {after : List Char} (hafter : '"' ∉ after)
    (htext : r texts text) : r texts (text ++ after) := by
  have hboth := hrelates.append htext (hrelates.nothing hafter)
  rwa [List.append_nil] at hboth

theorem quote_notMem_number (input : List Char) : '"' ∉ input.takeWhile isNumberChar := by
  intro hin
  cases List.all_eq_true.mp List.all_takeWhile _ hin

theorem scalar_uses (hrelates : Relates r) (input : List Char) :
    Uses r strings input (scalar input) := by
  intro found rest hscalar
  rw [scalar] at hscalar
  split at hscalar
  · rename_i htrue
    cases hscalar
    exact ⟨_, strip_eq htrue, hrelates.nothing (by decide)⟩
  · rename_i hfalse
    cases hscalar
    exact ⟨_, strip_eq hfalse, hrelates.nothing (by decide)⟩
  · rename_i hnull
    cases hscalar
    exact ⟨_, strip_eq hnull, hrelates.nothing (by decide)⟩
  · split at hscalar
    · cases hscalar
      exact ⟨_, List.takeWhile_append_dropWhile.symm,
        hrelates.nothing (quote_notMem_number input)⟩
    · cases hscalar

theorem value_uses (hrelates : Relates r) (hitems : ∀ input, Uses r stringsOf input (items fuel input))
    (hmembers : ∀ input, Uses r stringsOfMembers input (members fuel input))
    (input : List Char) : Uses r strings input (value (fuel + 1) input) := by
  intro found rest hvalue
  rw [value] at hvalue
  split at hvalue
  · rename_i inner hopen
    obtain ⟨space, rfl, hspace⟩ := expect_eq hopen
    split at hvalue
    · rename_i hclose
      cases hvalue
      obtain ⟨space', rfl, hspace'⟩ := expect_eq hclose
      exact ⟨space ++ '\x7b' :: (space' ++ ['\x7d']), by simp,
        hrelates.nothing (by simp [hspace, hspace'])⟩
    · obtain ⟨⟨read, after⟩, hread, heq⟩ := Option.map_eq_some_iff.mp hvalue
      cases heq
      obtain ⟨used, rfl, hused⟩ := hmembers inner read _ hread
      refine ⟨(space ++ ['\x7b']) ++ used, by simp, ?_⟩
      rw [strings]
      exact hrelates.after (by simp [hspace]) hused
  · rename_i inner _ hopen
    obtain ⟨space, rfl, hspace⟩ := expect_eq hopen
    split at hvalue
    · rename_i hclose
      cases hvalue
      obtain ⟨space', rfl, hspace'⟩ := expect_eq hclose
      exact ⟨space ++ '[' :: (space' ++ [']']), by simp,
        hrelates.nothing (by simp [hspace, hspace'])⟩
    · obtain ⟨⟨read, after⟩, hread, heq⟩ := Option.map_eq_some_iff.mp hvalue
      cases heq
      obtain ⟨used, rfl, hused⟩ := hitems inner read _ hread
      refine ⟨(space ++ ['[']) ++ used, by simp, ?_⟩
      rw [strings]
      exact hrelates.after (by simp [hspace]) hused
  · rename_i inner _ _ hquote
    obtain ⟨space, rfl, hspace⟩ := expect_eq hquote
    obtain ⟨⟨read, after⟩, hread, heq⟩ := Option.map_eq_some_iff.mp hvalue
    cases heq
    obtain ⟨used, rfl, hused⟩ := hrelates.quoted hread
    refine ⟨space ++ '"' :: used, by simp, ?_⟩
    rw [strings]
    exact hrelates.after hspace hused
  · obtain ⟨used, hinput, hused⟩ := scalar_uses hrelates _ found rest hvalue
    refine ⟨input.takeWhile isSpace ++ used, ?_, hrelates.after (fun hin => ?_) hused⟩
    · rw [List.append_assoc, ← hinput, List.takeWhile_append_dropWhile]
    · cases List.all_eq_true.mp List.all_takeWhile _ hin

theorem items_uses (hrelates : Relates r) (hvalue : ∀ input, Uses r strings input (value fuel input))
    (hitems : ∀ input, Uses r stringsOf input (items fuel input)) (input : List Char) :
    Uses r stringsOf input (items (fuel + 1) input) := by
  intro found rest hread
  rw [items] at hread
  obtain ⟨⟨item, after⟩, hitem, hrest⟩ := Option.bind_eq_some_iff.mp hread
  clear hread
  obtain ⟨used, rfl, hused⟩ := hvalue input item after hitem
  dsimp only at hrest
  split at hrest
  · rename_i inner hcomma
    obtain ⟨space, rfl, hspace⟩ := expect_eq hcomma
    obtain ⟨⟨others, last⟩, hothers, hrest⟩ := Option.bind_eq_some_iff.mp hrest
    cases hrest
    obtain ⟨used', rfl, hused'⟩ := hitems inner others _ hothers
    refine ⟨used ++ ((space ++ [',']) ++ used'), by simp, ?_⟩
    rw [stringsOf]
    exact hrelates.append hused (hrelates.after (by simp [hspace]) hused')
  · obtain ⟨inner, hclose, hrest⟩ := Option.bind_eq_some_iff.mp hrest
    cases hrest
    obtain ⟨space, rfl, hspace⟩ := expect_eq hclose
    refine ⟨used ++ (space ++ [']']), by simp, ?_⟩
    rw [stringsOf, stringsOf]
    exact hrelates.append hused (hrelates.nothing (by simp [hspace]))

theorem members_uses (hrelates : Relates r)
    (hvalue : ∀ input, Uses r strings input (value fuel input))
    (hmembers : ∀ input, Uses r stringsOfMembers input (members fuel input))
    (input : List Char) : Uses r stringsOfMembers input (members (fuel + 1) input) := by
  intro found rest hread
  rw [members] at hread
  obtain ⟨start, hquote, hafterQuote⟩ := Option.bind_eq_some_iff.mp hread
  obtain ⟨⟨key, behind⟩, hkey, hafterKey⟩ := Option.bind_eq_some_iff.mp hafterQuote
  obtain ⟨inside, hcolon, hafterColon⟩ := Option.bind_eq_some_iff.mp hafterKey
  obtain ⟨⟨member, after⟩, hmember, hrest⟩ := Option.bind_eq_some_iff.mp hafterColon
  clear hread hafterQuote hafterKey hafterColon
  obtain ⟨space, rfl, hspace⟩ := expect_eq hquote
  obtain ⟨quoted, rfl, hquoted⟩ := hrelates.quoted hkey
  obtain ⟨space', rfl, hspace'⟩ := expect_eq hcolon
  obtain ⟨used, rfl, hused⟩ := hvalue inside member after hmember
  have hblank : '"' ∉ space' ++ [':'] := by simp [hspace']
  have hfirst := hrelates.append (hrelates.after hspace hquoted) (hrelates.after hblank hused)
  dsimp only at hrest
  split at hrest
  · rename_i inner hcomma
    obtain ⟨space'', rfl, hspace''⟩ := expect_eq hcomma
    obtain ⟨⟨others, last⟩, hothers, hrest⟩ := Option.bind_eq_some_iff.mp hrest
    cases hrest
    obtain ⟨used', rfl, hused'⟩ := hmembers inner others _ hothers
    have hblank' : '"' ∉ space'' ++ [','] := by simp [hspace'']
    have hall := hrelates.append hfirst (hrelates.after hblank' hused')
    have hstrings : [key] ++ member.strings ++ stringsOfMembers others =
        stringsOfMembers ((key, member) :: others) := by
      rw [stringsOfMembers, List.append_assoc]
      rfl
    rw [hstrings] at hall
    exact ⟨_, by simp, hall⟩
  · obtain ⟨inner, hclose, hrest⟩ := Option.bind_eq_some_iff.mp hrest
    cases hrest
    obtain ⟨space'', rfl, hspace''⟩ := expect_eq hclose
    have hblank' : '"' ∉ space'' ++ ['\x7d'] := by simp [hspace'']
    have hall := hrelates.before hblank' hfirst
    have hstrings : [key] ++ member.strings = stringsOfMembers [(key, member)] := by
      rw [stringsOfMembers, stringsOfMembers, List.append_nil]
      rfl
    rw [hstrings] at hall
    exact ⟨_, by simp, hall⟩

/-- Values, items and members use up what they are related to. -/
theorem all_use (hrelates : Relates r) (fuel : ℕ) :
    (∀ input, Uses r strings input (value fuel input)) ∧
    (∀ input, Uses r stringsOf input (items fuel input)) ∧
    ∀ input, Uses r stringsOfMembers input (members fuel input) := by
  induction fuel with
  | zero =>
      refine ⟨fun input found rest hread => ?_, fun input found rest hread => ?_,
        fun input found rest hread => ?_⟩
      · cases hread
      · cases hread
      · cases hread
  | succ fuel ih =>
      obtain ⟨hvalue, hitems, hmembers⟩ := ih
      exact ⟨value_uses hrelates hitems hmembers, items_uses hrelates hvalue hitems,
        members_uses hrelates hvalue hmembers⟩

/-- A document is related to its strings. -/
theorem parse_relates (hrelates : Relates r) {json : Json} (hparse : parse text = some json) :
    r json.strings text := by
  rw [parse] at hparse
  obtain ⟨⟨read, rest⟩, hread, hparse⟩ := Option.bind_eq_some_iff.mp hparse
  dsimp only at hparse
  split at hparse
  · rename_i hspaces
    cases hparse
    obtain ⟨used, rfl, hused⟩ := (all_use hrelates _).1 _ _ _ hread
    refine hrelates.before (fun hin => ?_) hused
    cases List.all_eq_true.mp hspaces _ hin
  · cases hparse

end

/-! ## Marks and quotes of documents -/

/-- The string and the quotes around it. -/
theorem content_faithful_quoted {fuel : ℕ} {input read rest : List Char}
    (hcontent : content fuel input = some (read, rest)) :
    ∃ used, input = used ++ rest ∧ Faithful [read] ('"' :: used) := by
  obtain ⟨used, rfl, hused⟩ := content_faithful hcontent
  refine ⟨used ++ ['"'], by simp, ?_⟩
  have hquote : weight ['"'] = 0 := by decide
  rw [Faithful, weights_cons, weights_nil, Nat.add_zero, List.forall_mem_singleton, weight_cons,
    weight_append, hquote]
  have hmark : (isMark '"').toNat = 0 := by decide
  rw [hmark, Nat.zero_add, Nat.add_zero]
  rcases hused with hlt | ⟨rfl, hplain⟩
  · exact .inl hlt
  · exact .inr ⟨Nat.le_refl _, hplain⟩

theorem relates_faithful : Relates Faithful where
  nothing := fun _ => .nothing _
  append := .append
  quoted := content_faithful_quoted

/-- If a document has no more marks than its strings, then these are plain. -/
theorem plain_of_parse {text : List Char} {json : Json} (hparse : parse text = some json)
    (hweight : weight text ≤ weights json.strings) :
    ∀ part ∈ json.strings, isPlain part = true := by
  rcases parse_relates relates_faithful hparse with hlt | ⟨-, hplain⟩
  · omega
  · exact hplain

end Json
