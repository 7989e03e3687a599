import Boto.Support.JsonWeight

/-!
# Plain text in JSON documents

Text without quotes, backslashes and control characters comes back when it is pasted between
quotes.  Documents are put together from values, items and members that are read.
-/

namespace Json

/-- White space. -/
def IsBlank (space : List Char) : Prop := ∀ c ∈ space, isSpace c = true

/-- What follows is not part of a number. -/
def Stops (rest : List Char) : Prop := ∀ c, rest.head? = some c → isNumberChar c = false

/-- A text is read as a value, whatever follows. -/
def Reads (json : Json) (text : List Char) : Prop :=
  ∀ fuel rest, text.length < fuel → Stops rest → value fuel (text ++ rest) = some (json, rest)

/-- A text is read as items, up to the end of their array. -/
def ReadsItems (read : List Json) (text : List Char) : Prop :=
  ∀ fuel rest, text.length + 1 < fuel → items fuel (text ++ ']' :: rest) = some (read, rest)

/-- A text is read as members, up to the end of their object. -/
def ReadsMembers (read : List (List Char × Json)) (text : List Char) : Prop :=
  ∀ fuel rest, text.length + 1 < fuel → members fuel (text ++ '}' :: rest) = some (read, rest)

theorem isBlank_nil : IsBlank [] := fun _ hc => absurd hc List.not_mem_nil

theorem isBlank_singleton {c : Char} (hc : isSpace c = true) : IsBlank [c] :=
  List.forall_mem_singleton.mpr hc

/-! ## Tokens -/

theorem dropWhile_blank {space : List Char} (hblank : IsBlank space) (input : List Char) :
    (space ++ input).dropWhile isSpace = input.dropWhile isSpace :=
  List.dropWhile_append_of_pos hblank

theorem expect_blank {space : List Char} (hblank : IsBlank space) (c : Char)
    (input : List Char) : expect c (space ++ input) = expect c input := by
  rw [expect, expect, dropWhile_blank hblank]

theorem expect_cons {c d : Char} (hd : isSpace d = false) (rest : List Char) :
    expect c (d :: rest) = if d = c then some rest else none := by
  rw [expect, List.dropWhile_cons_of_neg (by simp [hd])]

/-- A string is read up to its quote. -/
theorem content_plain {text : List Char} (hplain : isPlain text = true) {fuel : ℕ}
    (hfuel : text.length < fuel) (rest : List Char) :
    content fuel (text ++ '"' :: rest) = some (text, rest) := by
  induction text generalizing fuel with
  | nil =>
      obtain ⟨fuel, rfl⟩ := Nat.exists_eq_add_of_lt hfuel
      rfl
  | cons c text ih =>
      rw [isPlain, List.all_cons, Bool.and_eq_true] at hplain
      obtain ⟨hc, htext⟩ := hplain
      simp only [Bool.and_eq_true, decide_eq_true_eq] at hc
      obtain ⟨⟨hquote, hslash⟩, hcontrol⟩ := hc
      cases fuel with
      | zero => exact absurd hfuel (Nat.not_lt_zero _)
      | succ fuel =>
          rw [List.cons_append, content, if_neg hquote, if_neg hslash,
            if_neg (Nat.not_lt.mpr hcontrol), ih htext (Nat.lt_of_succ_lt_succ hfuel)]
          rfl

/-- A text between quotes is read as a string. -/
def IsContent (read text : List Char) : Prop :=
  ∀ rest, content ((text ++ '"' :: rest).length + 1) (text ++ '"' :: rest) = some (read, rest)

theorem isContent_of_isPlain {text : List Char} (hplain : isPlain text = true) :
    IsContent text text := by
  intro rest
  apply content_plain hplain
  rw [List.length_append]
  omega

theorem value_blank {space : List Char} (hblank : IsBlank space) (fuel : ℕ)
    (input : List Char) : value fuel (space ++ input) = value fuel input := by
  cases fuel with
  | zero => rfl
  | succ fuel =>
      rw [value, value, expect_blank hblank, expect_blank hblank, expect_blank hblank,
        dropWhile_blank hblank]

/-- No value starts with the end of an array. -/
theorem expect_of_value {fuel : ℕ} {input : List Char} {read : Json × List Char}
    (hvalue : value fuel input = some read) : expect ']' input = none := by
  rw [Option.eq_none_iff_forall_ne_some]
  intro rest hclose
  obtain ⟨d, hdrop⟩ : ∃ others, input.dropWhile isSpace = ']' :: others := by
    rw [expect] at hclose
    split at hclose
    · cases hclose
    · rename_i d others hdrop
      split at hclose
      · rename_i hd
        exact ⟨others, hd ▸ hdrop⟩
      · cases hclose
  cases fuel with
  | zero => cases hvalue
  | succ fuel =>
      have hnone : ∀ c, c ≠ ']' → expect c input = none := by
        intro c hc
        rw [expect, hdrop]
        exact if_neg (Ne.symm hc)
      rw [value, hnone '{' (by decide), hnone '[' (by decide), hnone '"' (by decide), hdrop]
        at hvalue
      cases hvalue

/-! ## Values -/

theorem reads_string {read text : List Char} (hcontent : IsContent read text) :
    Reads (.string read) ('"' :: (text ++ ['"'])) := by
  intro fuel rest hfuel _
  cases fuel with
  | zero => exact absurd hfuel (Nat.not_lt_zero _)
  | succ fuel =>
      have hinput : '"' :: (text ++ ['"']) ++ rest = '"' :: (text ++ '"' :: rest) := by simp
      rw [hinput, value, expect_cons rfl, expect_cons rfl, expect_cons rfl,
        if_neg (by decide), if_neg (by decide), if_pos rfl]
      simp only [hcontent rest, Option.map_some]

theorem isSpace_of_isNumberChar {c : Char} (hc : isNumberChar c = true) : isSpace c = false := by
  have hne : ∀ d, isNumberChar d = false → c ≠ d := by
    rintro d hd rfl
    rw [hc] at hd
    cases hd
  simp [isSpace, hne ' ' rfl, hne '\t' rfl, hne '\n' rfl, hne '\r' rfl]

theorem reads_number {text : List Char} (hnumber : isNumber text = true)
    (hchars : ∀ c ∈ text, isNumberChar c = true) : Reads (.number text) text := by
  intro fuel rest hfuel hstops
  cases fuel with
  | zero => exact absurd hfuel (Nat.not_lt_zero _)
  | succ fuel =>
      have hrest : rest.takeWhile isNumberChar = [] ∧ rest.dropWhile isNumberChar = rest := by
        cases rest with
        | nil => exact ⟨rfl, rfl⟩
        | cons c rest =>
            have hc := hstops c rfl
            simp [hc]
      have htake : (text ++ rest).takeWhile isNumberChar = text := by
        rw [List.takeWhile_append_of_pos hchars, hrest.1, List.append_nil]
      have hdrop : (text ++ rest).dropWhile isNumberChar = rest := by
        rw [List.dropWhile_append_of_pos hchars, hrest.2]
      cases text with
      | nil => cases hnumber
      | cons d others =>
          have hd := hchars d List.mem_cons_self
          have hdne : ∀ c : Char, isNumberChar c = false → d ≠ c := by
            rintro c hc rfl
            rw [hd] at hc
            cases hc
          have hspace := isSpace_of_isNumberChar hd
          have hskip : (d :: others ++ rest).dropWhile isSpace = d :: others ++ rest := by
            rw [List.cons_append, List.dropWhile_cons_of_neg (by simp [hspace])]
          have hstrip : ∀ (c : Char) (literal : List Char), isNumberChar c = false →
              strip (c :: literal) (d :: others ++ rest) = none := by
            intro c literal hc
            rw [List.cons_append, strip, if_neg (Ne.symm (hdne c hc))]
          have hscalar : scalar (d :: others ++ rest) = some (.number (d :: others), rest) := by
            have htrue : strip "true".toList (d :: others ++ rest) = none :=
              hstrip 't' "rue".toList rfl
            have hfalse : strip "false".toList (d :: others ++ rest) = none :=
              hstrip 'f' "alse".toList rfl
            have hnull : strip "null".toList (d :: others ++ rest) = none :=
              hstrip 'n' "ull".toList rfl
            rw [scalar, htrue, hfalse, hnull]
            simp only [htake, hdrop, hnumber, if_true]
          rw [value, hskip, List.cons_append, expect_cons hspace, expect_cons hspace,
            expect_cons hspace, if_neg (hdne _ rfl), if_neg (hdne _ rfl), if_neg (hdne _ rfl)]
          exact hscalar

theorem reads_array {read : List Json} {text : List Char} (hreads : ReadsItems read text) :
    Reads (.array read) ('[' :: (text ++ [']'])) := by
  intro fuel rest hfuel _
  cases fuel with
  | zero => exact absurd hfuel (Nat.not_lt_zero _)
  | succ fuel =>
      have hinput : '[' :: (text ++ [']']) ++ rest = '[' :: (text ++ ']' :: rest) := by simp
      have hitems := hreads fuel rest (by simpa using hfuel)
      have hclose : expect ']' (text ++ ']' :: rest) = none := by
        cases fuel with
        | zero => cases hitems
        | succ fuel =>
            rw [items] at hitems
            obtain ⟨first, hfirst, _⟩ := Option.bind_eq_some_iff.mp hitems
            exact expect_of_value hfirst
      rw [hinput, value, expect_cons rfl, expect_cons rfl, if_neg (by decide), if_pos rfl]
      simp only [hclose, hitems, Option.map_some]

/-! ## Items and members -/

section

variable {space space' text text' key written : List Char}

theorem stops_of_cons {c : Char} (hc : isNumberChar c = false) (rest : List Char) :
    Stops (c :: rest) := by
  intro d hd
  cases hd
  exact hc

theorem readsItems_last {item : Json} (hblank : IsBlank space) (hitem : Reads item text) :
    ReadsItems [item] (space ++ text) := by
  intro fuel rest hfuel
  rw [List.length_append] at hfuel
  cases fuel with
  | zero => exact absurd hfuel (Nat.not_lt_zero _)
  | succ fuel =>
      have hvalue := hitem fuel (']' :: rest) (by omega) (stops_of_cons rfl rest)
      rw [items, List.append_assoc, value_blank hblank, hvalue]
      rfl

theorem readsItems_more {item : Json} {others : List Json} (hblank : IsBlank space)
    (hitem : Reads item text) (hothers : ReadsItems others text') :
    ReadsItems (item :: others) (space ++ (text ++ ',' :: text')) := by
  intro fuel rest hfuel
  rw [List.length_append, List.length_append, List.length_cons] at hfuel
  cases fuel with
  | zero => exact absurd hfuel (Nat.not_lt_zero _)
  | succ fuel =>
      have hinput : space ++ (text ++ ',' :: text') ++ ']' :: rest =
          space ++ (text ++ ',' :: (text' ++ ']' :: rest)) := by simp
      have hvalue := hitem fuel (',' :: (text' ++ ']' :: rest)) (by omega) (stops_of_cons rfl _)
      have hrest := hothers fuel rest (by omega)
      have hcomma : expect ',' (',' :: (text' ++ ']' :: rest)) = some (text' ++ ']' :: rest) := by
        rw [expect_cons rfl, if_pos rfl]
      rw [items, hinput, value_blank hblank, hvalue]
      simp only [Option.bind_eq_bind, Option.bind_some, hcomma, hrest, Option.pure_def]

/-- A member is read up to what follows its value. -/
theorem members_step {member : Json} (hblank : IsBlank space) (hkey : IsContent key written)
    (hblank' : IsBlank space') (hmember : Reads member text) {fuel : ℕ}
    (hfuel : text.length < fuel) {rest : List Char} (hstops : Stops rest) :
    members (fuel + 1)
        (space ++ '"' :: (written ++ '"' :: ':' :: (space' ++ (text ++ rest)))) =
      match expect ',' rest with
      | some rest =>
          (members fuel rest).map fun found => ((key, member) :: found.1, found.2)
      | none => (expect '}' rest).map fun rest => ([(key, member)], rest) := by
  have hquote : expect '"' (space ++ '"' :: (written ++ '"' :: ':' :: (space' ++ (text ++ rest)))) =
      some (written ++ '"' :: ':' :: (space' ++ (text ++ rest))) := by
    rw [expect_blank hblank, expect_cons rfl, if_pos rfl]
  have hcolon : expect ':' (':' :: (space' ++ (text ++ rest))) =
      some (space' ++ (text ++ rest)) := by
    rw [expect_cons rfl, if_pos rfl]
  have hvalue := hmember fuel rest hfuel hstops
  rw [members, hquote]
  simp only [Option.bind_eq_bind, Option.bind_some, hkey _, hcolon,
    value_blank hblank', hvalue, Option.pure_def]
  cases expect ',' rest with
  | none =>
      cases expect '}' rest <;> rfl
  | some inner =>
      dsimp only
      cases members fuel inner <;> rfl

theorem readsMembers_last {member : Json} (hblank : IsBlank space) (hkey : IsContent key written)
    (hblank' : IsBlank space') (hmember : Reads member text) :
    ReadsMembers [(key, member)]
      (space ++ '"' :: (written ++ '"' :: ':' :: (space' ++ text))) := by
  intro fuel rest hfuel
  simp only [List.length_append, List.length_cons] at hfuel
  cases fuel with
  | zero => exact absurd hfuel (Nat.not_lt_zero _)
  | succ fuel =>
      have hinput : space ++ '"' :: (written ++ '"' :: ':' :: (space' ++ text)) ++ '}' :: rest =
          space ++ '"' :: (written ++ '"' :: ':' :: (space' ++ (text ++ '}' :: rest))) := by simp
      rw [hinput, members_step hblank hkey hblank' hmember (by omega) (stops_of_cons rfl rest),
        expect_cons rfl, expect_cons rfl, if_neg (by decide), if_pos rfl]
      rfl

theorem readsMembers_more {member : Json} {others : List (List Char × Json)}
    (hblank : IsBlank space) (hkey : IsContent key written) (hblank' : IsBlank space')
    (hmember : Reads member text) (hothers : ReadsMembers others text') :
    ReadsMembers ((key, member) :: others)
      (space ++ '"' :: (written ++ '"' :: ':' :: (space' ++ (text ++ ',' :: text')))) := by
  intro fuel rest hfuel
  simp only [List.length_append, List.length_cons] at hfuel
  cases fuel with
  | zero => exact absurd hfuel (Nat.not_lt_zero _)
  | succ fuel =>
      have hinput : space ++ '"' :: (written ++ '"' :: ':' :: (space' ++ (text ++ ',' :: text'))) ++
          '}' :: rest = space ++ '"' :: (written ++ '"' :: ':' ::
            (space' ++ (text ++ ',' :: (text' ++ '}' :: rest)))) := by simp
      rw [hinput, members_step hblank hkey hblank' hmember (by omega) (stops_of_cons rfl _),
        expect_cons rfl, if_pos rfl]
      dsimp only
      rw [hothers fuel rest (by omega)]
      rfl

theorem reads_object {read : List (List Char × Json)} (hreads : ReadsMembers read text) :
    Reads (.object read) ('{' :: (text ++ ['}'])) := by
  intro fuel rest hfuel _
  cases fuel with
  | zero => exact absurd hfuel (Nat.not_lt_zero _)
  | succ fuel =>
      have hinput : '{' :: (text ++ ['}']) ++ rest = '{' :: (text ++ '}' :: rest) := by simp
      have hmembers := hreads fuel rest (by simpa using hfuel)
      have hclose : expect '}' (text ++ '}' :: rest) = none := by
        cases fuel with
        | zero => cases hmembers
        | succ fuel =>
            rw [members] at hmembers
            obtain ⟨inner, hquote, _⟩ := Option.bind_eq_some_iff.mp hmembers
            rw [expect] at hquote ⊢
            split at hquote
            · cases hquote
            · rename_i d others hdrop
              split at hquote
              · rename_i hd
                rw [hd]
                rfl
              · cases hquote
      rw [hinput, value, expect_cons rfl, if_pos rfl]
      simp only [hclose, hmembers, Option.map_some]

/-- A document with one value. -/
theorem parse_of_reads {json : Json} (hreads : Reads json text) : parse text = some json := by
  have hvalue := hreads (text.length + 1) [] (Nat.lt_succ_self _) nofun
  rw [List.append_nil] at hvalue
  rw [parse, hvalue]
  rfl

end

end Json
