import Boto.Support.JsonPlain

/-!
# Writing JSON documents

What a writer makes of a value that escapes everything but printable ASCII characters is read as
the value again.
-/

namespace Json

/-! ## The writer -/

/-- A digit in lower case. -/
def lowerDigit (n : ℕ) : Char :=
  Nat.digitChar (n % 16)

/-- Four hexadecimal digits. -/
def hexDigits (n : ℕ) : List Char :=
  [lowerDigit (n / 4096), lowerDigit (n / 256), lowerDigit (n / 16), lowerDigit n]

/-- What is written for a character inside of a string. -/
def escapeChar (c : Char) : List Char :=
  if c = '"' then ['\\', '"']
  else if c = '\\' then ['\\', '\\']
  else if c = '\x08' then ['\\', 'b']
  else if c = '\x0c' then ['\\', 'f']
  else if c = '\n' then ['\\', 'n']
  else if c = '\r' then ['\\', 'r']
  else if c = '\t' then ['\\', 't']
  else if 0x20 ≤ c.toNat ∧ c.toNat ≤ 0x7E then [c]
  else if c.toNat < 0x10000 then '\\' :: 'u' :: hexDigits c.toNat
  else
    let n := c.toNat - 0x10000
    '\\' :: 'u' :: (hexDigits (0xD800 + n / 0x400) ++ '\\' :: 'u' :: hexDigits (0xDC00 + n % 0x400))

/-- What is written for a string between its quotes. -/
def escapeText (text : List Char) : List Char :=
  text.flatMap escapeChar

/-- What follows the commas and the colons. -/
structure Separators where
  item : List Char
  key : List Char

mutual

/-- The text of a value. -/
def dumps (separators : Separators) : Json → List Char
  | .null => "null".toList
  | .bool true => "true".toList
  | .bool false => "false".toList
  | .number text => text
  | .string content => '"' :: (escapeText content ++ ['"'])
  | .array items => '[' :: (dumpsItems separators items ++ [']'])
  | .object members => '{' :: (dumpsMembers separators members ++ ['}'])

/-- The text of items. -/
def dumpsItems (separators : Separators) : List Json → List Char
  | [] => []
  | [item] => dumps separators item
  | item :: others =>
      dumps separators item ++ ',' :: (separators.item ++ dumpsItems separators others)

/-- The text of members. -/
def dumpsMembers (separators : Separators) : List (List Char × Json) → List Char
  | [] => []
  | [(key, member)] =>
      '"' :: (escapeText key ++ '"' :: ':' :: (separators.key ++ dumps separators member))
  | (key, member) :: others =>
      '"' :: (escapeText key ++ '"' :: ':' :: (separators.key ++ (dumps separators member ++
        ',' :: (separators.item ++ dumpsMembers separators others))))

end

mutual

/-- The numbers of a value are numbers. -/
def hasNumbers : Json → Bool
  | .null => true
  | .bool _ => true
  | .number text => isNumber text && text.all isNumberChar
  | .string _ => true
  | .array items => haveNumbers items
  | .object members => membersHaveNumbers members

/-- The numbers of some values are numbers. -/
def haveNumbers : List Json → Bool
  | [] => true
  | item :: others => item.hasNumbers && haveNumbers others

/-- The numbers of some members are numbers. -/
def membersHaveNumbers : List (List Char × Json) → Bool
  | [] => true
  | (_, member) :: others => member.hasNumbers && membersHaveNumbers others

end

/-! ## Escapes -/

theorem hexValue_lowerDigit (n : ℕ) : hexValue (lowerDigit n) = some (n % 16) := by
  have hall : ∀ m < 16, hexValue (Nat.digitChar m) = some m := by decide
  exact hall (n % 16) (Nat.mod_lt n (by decide))

/-- Four digits are read as their number. -/
theorem hexNumber_hexDigits {n : ℕ} (hn : n < 0x10000) (rest : List Char) :
    hexNumber (hexDigits n ++ rest) = some (n, rest) := by
  have hlength : ¬(hexDigits n ++ rest).length < 4 := by
    rw [List.length_append, hexDigits]
    simp only [List.length_cons, List.length_nil]
    omega
  have htake : (hexDigits n ++ rest).take 4 = hexDigits n := rfl
  have hdrop : (hexDigits n ++ rest).drop 4 = rest := rfl
  have hdigits : (hexDigits n).foldlM (fun n c => (hexValue c).map (16 * n + ·)) 0 = some n := by
    rw [hexDigits]
    simp only [List.foldlM_cons, List.foldlM_nil, hexValue_lowerDigit, Option.map_some,
      Option.bind_eq_bind, Option.bind_some, Option.pure_def, Option.some.injEq]
    omega
  rw [hexNumber, if_neg hlength, htake, hdrop, hdigits]
  rfl

theorem unicode_hexDigits {c : Char} (hc : c.toNat < 0x10000) (rest : List Char) :
    unicode (hexDigits c.toNat ++ rest) = some (c, rest) := by
  have hvalid : c.toNat.isValidChar := c.valid
  rw [unicode, hexNumber_hexDigits hc]
  simp only [Option.bind_eq_bind, Option.bind_some, if_pos hvalid, Char.ofNat_toNat,
    Option.pure_def]

/-- Two numbers that are a pair of surrogates. -/
theorem unicode_pair {c : Char} {high low : ℕ} {input middle after rest : List Char}
    (hhigh : hexNumber input = some (high, middle))
    (hmiddle : strip "\\u".toList middle = some after)
    (hlow : hexNumber after = some (low, rest)) (hnot : ¬high.isValidChar) (hlt : high < 0xDC00)
    (hpair : 0xDC00 ≤ low ∧ low < 0xE000)
    (hsame : 0x10000 + 0x400 * (high - 0xD800) + (low - 0xDC00) = c.toNat) :
    unicode input = some (c, rest) := by
  rw [unicode, hhigh]
  simp only [Option.bind_eq_bind, Option.bind_some, if_neg hnot, if_neg (Nat.not_le.mpr hlt)]
  rw [hmiddle]
  simp only [Option.bind_some]
  rw [hlow]
  simp only [Option.bind_some]
  rw [if_pos hpair, hsame, Char.ofNat_toNat]
  rfl

/-- A pair of surrogates is read as the character. -/
theorem unicode_surrogates {c : Char} (hc : ¬c.toNat < 0x10000) (rest : List Char) :
    unicode (hexDigits (0xD800 + (c.toNat - 0x10000) / 0x400) ++ ('\\' :: 'u' ::
      (hexDigits (0xDC00 + (c.toNat - 0x10000) % 0x400) ++ rest))) = some (c, rest) := by
  have hvalid : c.toNat.isValidChar := c.valid
  rw [Nat.isValidChar] at hvalid
  have hnot : ¬(0xD800 + (c.toNat - 0x10000) / 0x400).isValidChar := by
    rw [Nat.isValidChar]
    omega
  refine unicode_pair (hexNumber_hexDigits ?_ _) rfl (hexNumber_hexDigits ?_ _) hnot ?_
    ⟨?_, ?_⟩ ?_ <;> omega

/-- A character is written as itself, or as an escape that is read as it. -/
theorem escapeChar_cases (c : Char) :
    (escapeChar c = [c] ∧ c ≠ '"' ∧ c ≠ '\\' ∧ ¬c.toNat < 0x20) ∨
      ∃ escaped, escapeChar c = '\\' :: escaped ∧
        ∀ rest, escape (escaped ++ rest) = some (c, rest) := by
  rw [escapeChar]
  split
  · rename_i hc
    exact .inr ⟨['"'], rfl, fun rest => by rw [hc]; rfl⟩
  split
  · rename_i hc
    exact .inr ⟨['\\'], rfl, fun rest => by rw [hc]; rfl⟩
  split
  · rename_i hc
    exact .inr ⟨['b'], rfl, fun rest => by rw [hc]; rfl⟩
  split
  · rename_i hc
    exact .inr ⟨['f'], rfl, fun rest => by rw [hc]; rfl⟩
  split
  · rename_i hc
    exact .inr ⟨['n'], rfl, fun rest => by rw [hc]; rfl⟩
  split
  · rename_i hc
    exact .inr ⟨['r'], rfl, fun rest => by rw [hc]; rfl⟩
  split
  · rename_i hc
    exact .inr ⟨['t'], rfl, fun rest => by rw [hc]; rfl⟩
  split
  · rename_i hquote hslash _ _ _ _ _ hprintable
    exact .inl ⟨rfl, hquote, hslash, Nat.not_lt.mpr hprintable.1⟩
  split
  · rename_i hc
    exact .inr ⟨'u' :: hexDigits c.toNat, rfl, fun rest => unicode_hexDigits hc rest⟩
  · rename_i hc
    refine .inr ⟨_, rfl, fun rest => ?_⟩
    have hread := unicode_surrogates hc rest
    rw [List.cons_append, List.append_assoc, escape]
    exact hread

/-- What is written for a string is read as the string. -/
theorem content_escapeText {text : List Char} {fuel : ℕ}
    (hfuel : (escapeText text).length < fuel) (rest : List Char) :
    content fuel (escapeText text ++ '"' :: rest) = some (text, rest) := by
  induction text generalizing fuel with
  | nil =>
      obtain ⟨fuel, rfl⟩ := Nat.exists_eq_add_of_lt hfuel
      rfl
  | cons c text ih =>
      have hcons : escapeText (c :: text) = escapeChar c ++ escapeText text := rfl
      rw [hcons, List.length_append] at hfuel
      rw [hcons, List.append_assoc]
      cases fuel with
      | zero => exact absurd hfuel (Nat.not_lt_zero _)
      | succ fuel =>
          rcases escapeChar_cases c with ⟨hplain, hquote, hslash, hcontrol⟩ | ⟨escaped, hescaped, hread⟩
          · rw [hplain, List.length_singleton] at hfuel
            rw [hplain, List.singleton_append, content, if_neg hquote, if_neg hslash,
              if_neg hcontrol, ih (by omega)]
            rfl
          · rw [hescaped, List.length_cons] at hfuel
            rw [hescaped, List.cons_append, content, if_neg (by decide), if_pos rfl, hread]
            simp only [Option.bind_eq_bind, Option.bind_some]
            rw [ih (by omega)]
            rfl

theorem isContent_escapeText (text : List Char) : IsContent text (escapeText text) := by
  intro rest
  apply content_escapeText
  rw [List.length_append]
  omega

/-! ## ASCII -/

/-- A text of ASCII characters. -/
def IsAscii (text : List Char) : Prop := ∀ c ∈ text, c.val ≤ 127

theorem IsAscii.nil : IsAscii [] := fun _ hc => absurd hc List.not_mem_nil

theorem IsAscii.cons {c : Char} {text : List Char} (hc : c.val ≤ 127) (htext : IsAscii text) :
    IsAscii (c :: text) := List.forall_mem_cons.mpr ⟨hc, htext⟩

theorem IsAscii.append {text text' : List Char} (htext : IsAscii text) (htext' : IsAscii text') :
    IsAscii (text ++ text') := by
  intro c hc
  exact (List.mem_append.mp hc).elim (htext c) (htext' c)

theorem IsAscii.of_all {text : List Char}
    (hall : (text.all fun c => decide (c.val ≤ 127)) = true) : IsAscii text :=
  fun c hc => of_decide_eq_true (List.all_eq_true.mp hall c hc)

theorem isAscii_hexDigits (n : ℕ) : IsAscii (hexDigits n) := by
  have hall : ∀ m < 16, (Nat.digitChar m).val ≤ 127 := by decide
  have hdigit : ∀ n, (lowerDigit n).val ≤ 127 := fun n =>
    hall (n % 16) (Nat.mod_lt n (by decide))
  exact .cons (hdigit _) (.cons (hdigit _) (.cons (hdigit _) (.cons (hdigit _) .nil)))

theorem isAscii_escapeChar (c : Char) : IsAscii (escapeChar c) := by
  have hescape : ∀ d : Char, d.val ≤ 127 → IsAscii ['\\', d] := fun d hd =>
    .cons (by decide) (.cons hd .nil)
  have hunicode : ∀ n, IsAscii ('\\' :: 'u' :: hexDigits n) := fun n =>
    .cons (by decide) (.cons (by decide) (isAscii_hexDigits n))
  rw [escapeChar]
  split
  · exact hescape _ (by decide)
  split
  · exact hescape _ (by decide)
  split
  · exact hescape _ (by decide)
  split
  · exact hescape _ (by decide)
  split
  · exact hescape _ (by decide)
  split
  · exact hescape _ (by decide)
  split
  · exact hescape _ (by decide)
  split
  · rename_i hprintable
    have hle : c.toNat ≤ 127 := by omega
    exact .cons (UInt32.le_iff_toNat_le.mpr hle) .nil
  split
  · exact hunicode _
  · exact (hunicode _).append (hunicode _)

theorem isAscii_escapeText (text : List Char) : IsAscii (escapeText text) := by
  intro c hc
  obtain ⟨d, -, hd⟩ := List.mem_flatMap.mp hc
  exact isAscii_escapeChar d c hd

theorem ascii_of_isNumberChar {c : Char} (hc : isNumberChar c = true) : c.val ≤ 127 := by
  rw [isNumberChar] at hc
  simp only [Bool.or_eq_true, decide_eq_true_eq] at hc
  rcases hc with ((((hdigit | rfl) | rfl) | rfl) | rfl) | rfl
  · rw [Char.isDigit] at hdigit
    simp only [Bool.and_eq_true, decide_eq_true_eq] at hdigit
    exact UInt32.le_trans hdigit.2 (by decide)
  all_goals decide

/-- The separators are ASCII. -/
structure Separators.AreAscii (separators : Separators) : Prop where
  item : IsAscii separators.item
  key : IsAscii separators.key

section

variable {separators : Separators}

mutual

/-- What is written for a value is ASCII. -/
theorem isAscii_dumps (hascii : separators.AreAscii) :
    ∀ {json : Json}, json.hasNumbers = true → IsAscii (dumps separators json)
  | .null, _ => .of_all rfl
  | .bool true, _ => .of_all rfl
  | .bool false, _ => .of_all rfl
  | .number text, hnumber => by
      rw [hasNumbers, Bool.and_eq_true, List.all_eq_true] at hnumber
      rw [dumps]
      exact fun c hc => ascii_of_isNumberChar (hnumber.2 c hc)
  | .string content, _ => by
      rw [dumps]
      exact .cons (by decide) ((isAscii_escapeText content).append (.cons (by decide) .nil))
  | .array items, hnumbers => by
      rw [hasNumbers] at hnumbers
      rw [dumps]
      exact .cons (by decide) ((isAscii_dumpsItems hascii hnumbers).append
        (.cons (by decide) .nil))
  | .object members, hnumbers => by
      rw [hasNumbers] at hnumbers
      rw [dumps]
      exact .cons (by decide) ((isAscii_dumpsMembers hascii hnumbers).append
        (.cons (by decide) .nil))

theorem isAscii_dumpsItems (hascii : separators.AreAscii) :
    ∀ {items : List Json}, haveNumbers items = true → IsAscii (dumpsItems separators items)
  | [], _ => .nil
  | [item], hnumbers => by
      rw [haveNumbers, Bool.and_eq_true] at hnumbers
      rw [dumpsItems]
      exact isAscii_dumps hascii hnumbers.1
  | item :: other :: others, hnumbers => by
      rw [haveNumbers, Bool.and_eq_true] at hnumbers
      have hothers := isAscii_dumpsItems hascii hnumbers.2
      rw [dumpsItems]
      · exact (isAscii_dumps hascii hnumbers.1).append
          (.cons (by decide) (hascii.item.append hothers))
      · exact List.cons_ne_nil _ _

theorem isAscii_dumpsMembers (hascii : separators.AreAscii) :
    ∀ {members : List (List Char × Json)}, membersHaveNumbers members = true →
      IsAscii (dumpsMembers separators members)
  | [], _ => .nil
  | [(key, member)], hnumbers => by
      rw [membersHaveNumbers, Bool.and_eq_true] at hnumbers
      rw [dumpsMembers]
      exact .cons (by decide) ((isAscii_escapeText key).append (.cons (by decide)
        (.cons (by decide) (hascii.key.append (isAscii_dumps hascii hnumbers.1)))))
  | (key, member) :: other :: others, hnumbers => by
      rw [membersHaveNumbers, Bool.and_eq_true] at hnumbers
      have hothers := isAscii_dumpsMembers hascii hnumbers.2
      rw [dumpsMembers]
      · exact .cons (by decide) ((isAscii_escapeText key).append (.cons (by decide)
          (.cons (by decide) (hascii.key.append ((isAscii_dumps hascii hnumbers.1).append
            (.cons (by decide) (hascii.item.append hothers)))))))
      · exact List.cons_ne_nil _ _

end

end

/-! ## Values -/

/-- A literal is read as its value. -/
theorem reads_literal {json : Json} {literal : List Char} {c : Char} (hc : isSpace c = false)
    (hmarks : c ≠ '{' ∧ c ≠ '[' ∧ c ≠ '"')
    (hscalar : ∀ rest, scalar (c :: literal ++ rest) = some (json, rest)) :
    Reads json (c :: literal) := by
  intro fuel rest hfuel _
  cases fuel with
  | zero => exact absurd hfuel (Nat.not_lt_zero _)
  | succ fuel =>
      have hskip : (c :: literal ++ rest).dropWhile isSpace = c :: literal ++ rest := by
        rw [List.cons_append, List.dropWhile_cons_of_neg (by simp [hc])]
      rw [value, hskip, List.cons_append, expect_cons hc, expect_cons hc, expect_cons hc,
        if_neg hmarks.1, if_neg hmarks.2.1, if_neg hmarks.2.2]
      exact hscalar rest

theorem reads_array_nil : Reads (.array []) ['[', ']'] := by
  intro fuel rest hfuel _
  cases fuel with
  | zero => exact absurd hfuel (Nat.not_lt_zero _)
  | succ fuel => rfl

theorem reads_object_nil : Reads (.object []) ['\x7b', '\x7d'] := by
  intro fuel rest hfuel _
  cases fuel with
  | zero => exact absurd hfuel (Nat.not_lt_zero _)
  | succ fuel => rfl

/-- The separators are followed by white space. -/
structure Separators.AreBlank (separators : Separators) : Prop where
  item : IsBlank separators.item
  key : IsBlank separators.key

/-- White space before items. -/
theorem readsItems_blank {space text : List Char} {read : List Json} (hblank : IsBlank space)
    (hitems : ReadsItems read text) : ReadsItems read (space ++ text) := by
  intro fuel rest hfuel
  rw [List.length_append] at hfuel
  have hread := hitems fuel rest (by omega)
  cases fuel with
  | zero => exact hread
  | succ fuel =>
      rw [items] at hread ⊢
      rw [List.append_assoc, value_blank hblank]
      exact hread

/-- White space before members. -/
theorem readsMembers_blank {space text : List Char} {read : List (List Char × Json)}
    (hblank : IsBlank space) (hmembers : ReadsMembers read text) :
    ReadsMembers read (space ++ text) := by
  intro fuel rest hfuel
  rw [List.length_append] at hfuel
  have hread := hmembers fuel rest (by omega)
  cases fuel with
  | zero => exact hread
  | succ fuel =>
      rw [members] at hread ⊢
      rw [List.append_assoc, expect_blank hblank]
      exact hread

section

variable {separators : Separators}

mutual

/-- What is written for a value is read as the value. -/
theorem reads_dumps (hblank : separators.AreBlank) :
    ∀ {json : Json}, json.hasNumbers = true → Reads json (dumps separators json)
  | .null, _ => reads_literal rfl (by decide) fun _ => rfl
  | .bool true, _ => reads_literal rfl (by decide) fun _ => rfl
  | .bool false, _ => reads_literal rfl (by decide) fun _ => rfl
  | .number text, hnumber => by
      rw [hasNumbers, Bool.and_eq_true, List.all_eq_true] at hnumber
      rw [dumps]
      exact reads_number hnumber.1 hnumber.2
  | .string content, _ => by
      rw [dumps]
      exact reads_string (isContent_escapeText content)
  | .array [], _ => reads_array_nil
  | .array (item :: others), hnumbers => by
      rw [hasNumbers] at hnumbers
      rw [dumps]
      exact reads_array (readsItems_dumps hblank hnumbers (List.cons_ne_nil _ _))
  | .object [], _ => reads_object_nil
  | .object (member :: others), hnumbers => by
      rw [hasNumbers] at hnumbers
      rw [dumps]
      exact reads_object (readsMembers_dumps hblank hnumbers (List.cons_ne_nil _ _))

theorem readsItems_dumps (hblank : separators.AreBlank) :
    ∀ {read : List Json}, haveNumbers read = true → read ≠ [] →
      ReadsItems read (dumpsItems separators read)
  | [], _, hne => absurd rfl hne
  | [item], hnumbers, _ => by
      rw [haveNumbers, Bool.and_eq_true] at hnumbers
      rw [dumpsItems]
      exact readsItems_last isBlank_nil (reads_dumps hblank hnumbers.1)
  | item :: other :: others, hnumbers, _ => by
      rw [haveNumbers, Bool.and_eq_true] at hnumbers
      have hothers := readsItems_dumps hblank hnumbers.2 (List.cons_ne_nil _ _)
      rw [dumpsItems]
      · exact readsItems_more isBlank_nil (reads_dumps hblank hnumbers.1)
          (readsItems_blank hblank.item hothers)
      · exact List.cons_ne_nil _ _

theorem readsMembers_dumps (hblank : separators.AreBlank) :
    ∀ {read : List (List Char × Json)}, membersHaveNumbers read = true → read ≠ [] →
      ReadsMembers read (dumpsMembers separators read)
  | [], _, hne => absurd rfl hne
  | [(key, member)], hnumbers, _ => by
      rw [membersHaveNumbers, Bool.and_eq_true] at hnumbers
      rw [dumpsMembers]
      exact readsMembers_last isBlank_nil (isContent_escapeText key) hblank.key
        (reads_dumps hblank hnumbers.1)
  | (key, member) :: other :: others, hnumbers, _ => by
      rw [membersHaveNumbers, Bool.and_eq_true] at hnumbers
      have hothers := readsMembers_dumps hblank hnumbers.2 (List.cons_ne_nil _ _)
      rw [dumpsMembers]
      · exact readsMembers_more isBlank_nil (isContent_escapeText key) hblank.key
          (reads_dumps hblank hnumbers.1) (readsMembers_blank hblank.item hothers)
      · exact List.cons_ne_nil _ _

end

end

end Json
