import Boto.Python
import Mathlib.Data.Int.Notation

/-!
# Numbers and bytes as text

`'%d'` and `int`, and the two directions of the hexadecimal codec, with their
round trips.  Strings that `int` accepts only in later versions of Python, such
as `'1_0'`, are left out.
-/

namespace Boto

/-! ## Decimal numerals -/

/-- `'%d' % n` for a number that is not negative. -/
def decimal (n : ℕ) : Text := Nat.toDigits 10 n

/-- The characters `int` ignores around a numeral. -/
def isSpace (c : Char) : Bool :=
  c ∈ [' ', '\t', '\n', '\x0b', '\x0c', '\r']

/-- `text.strip()`. -/
def strip (text : Text) : Text :=
  ((text.dropWhile isSpace).reverse.dropWhile isSpace).reverse

/-- The value of a nonempty string of digits. -/
def parseDigits (digits : Text) : Except PyError ℕ :=
  if digits ≠ [] ∧ digits.all Char.isDigit then
    .ok (Nat.ofDigitChars 10 digits 0)
  else .error (.valueError "invalid literal for int() with base 10")

/-- `int(text)`. -/
def parseInt (text : Text) : Except PyError ℤ :=
  match strip text with
  | '-' :: digits => (fun n => -(n : ℤ)) <$> parseDigits digits
  | '+' :: digits => (fun n => (n : ℤ)) <$> parseDigits digits
  | digits => (fun n => (n : ℤ)) <$> parseDigits digits

theorem isDigit_of_mem_decimal {n : ℕ} {c : Char} (hc : c ∈ decimal n) :
    c.isDigit = true :=
  Nat.isDigit_of_mem_toDigits (by decide) (by decide) hc

theorem decimal_ne_nil (n : ℕ) : decimal n ≠ [] :=
  Nat.toDigits_ne_nil

theorem parseDigits_decimal (n : ℕ) : parseDigits (decimal n) = .ok n := by
  have hdigits : (decimal n).all Char.isDigit = true :=
    List.all_eq_true.mpr fun _ => isDigit_of_mem_decimal
  rw [parseDigits, if_pos ⟨decimal_ne_nil n, hdigits⟩, decimal,
    Nat.ofDigitChars_ten_toDigits]

theorem isSpace_of_isDigit {c : Char} (hc : c.isDigit = true) :
    isSpace c = false := by
  by_contra hspace
  rw [Bool.not_eq_false, isSpace, decide_eq_true_eq] at hspace
  have hnone : [' ', '\t', '\n', '\x0b', '\x0c', '\r'].all
      (fun c => !c.isDigit) = true := by decide
  have hdigit := List.all_eq_true.mp hnone c hspace
  rw [hc] at hdigit
  cases hdigit

/-- Nothing is stripped off a string without spaces. -/
theorem strip_eq_self {text : Text} (h : ∀ c ∈ text, isSpace c = false) :
    strip text = text := by
  have hkeep : ∀ xs : Text, (∀ c ∈ xs, isSpace c = false) →
      xs.dropWhile isSpace = xs := by
    intro xs hxs
    cases xs with
    | nil => rfl
    | cons c xs => rw [List.dropWhile_cons, hxs c (by simp)]; rfl
  rw [strip, hkeep text h, hkeep _ (by simpa using h), List.reverse_reverse]

/-- `int` reads back what `'%d'` wrote. -/
theorem parseInt_decimal (n : ℕ) : parseInt (decimal n) = .ok n := by
  have hstrip : strip (decimal n) = decimal n :=
    strip_eq_self fun c hc => isSpace_of_isDigit (isDigit_of_mem_decimal hc)
  have hsign : ∀ c ∈ decimal n, c ≠ '-' ∧ c ≠ '+' := by
    intro c hc
    have hdigit := isDigit_of_mem_decimal hc
    constructor
    · rintro rfl
      cases hdigit
    · rintro rfl
      cases hdigit
  rw [parseInt, hstrip]
  split
  · rename_i digits heq
    exact absurd rfl (hsign '-' (by simp [heq])).1
  · rename_i digits heq
    exact absurd rfl (hsign '+' (by simp [heq])).2
  · rw [parseDigits_decimal]
    rfl

theorem notMem_decimal {n : ℕ} {c : Char} (hc : c.isDigit = false) :
    c ∉ decimal n := by
  intro hmem
  rw [isDigit_of_mem_decimal hmem] at hc
  cases hc

/-! ## Hexadecimal codec -/

/-- The value of a hexadecimal digit of either case. -/
def hexValue (c : Char) : Option ℕ :=
  if c.isDigit then some (c.toNat - '0'.toNat)
  else if 'a' ≤ c ∧ c ≤ 'f' then some (c.toNat - 'a'.toNat + 10)
  else if 'A' ≤ c ∧ c ≤ 'F' then some (c.toNat - 'A'.toNat + 10)
  else none

/-- `codecs.decode(text, 'hex_codec')`. -/
def unhexlify : Text → Except PyError Bytes
  | [] => .ok []
  | [_] => .error (.binasciiError "Odd-length string")
  | high :: low :: rest =>
      match hexValue high, hexValue low with
      | some h, some l => do
          let bytes ← unhexlify rest
          return UInt8.ofNat (16 * h + l) :: bytes
      | _, _ => .error (.binasciiError "Non-hexadecimal digit found")

theorem hexValue_digitChar {n : ℕ} (hn : n < 16) :
    hexValue (Nat.digitChar n) = some n := by
  have hall : ∀ m : Fin 16, hexValue (Nat.digitChar m) = some (m : ℕ) := by
    decide
  exact hall ⟨n, hn⟩

/-- The codec decodes what `hexlify` wrote. -/
theorem unhexlify_hexlify (bytes : Bytes) :
    unhexlify (hexlify bytes) = .ok bytes := by
  induction bytes with
  | nil => rfl
  | cons b bytes ih =>
      have hb := b.toNat_lt
      have hvalue : UInt8.ofNat (16 * (b.toNat / 16) + b.toNat % 16) = b := by
        rw [Nat.div_add_mod, UInt8.ofNat_toNat]
      simp only [hexlify, List.flatMap_cons, hexDigits, List.cons_append,
        List.nil_append, unhexlify]
      rw [hexValue_digitChar (by omega), hexValue_digitChar (by omega)]
      simp only [hvalue]
      rw [← hexlify, ih]
      rfl

end Boto
