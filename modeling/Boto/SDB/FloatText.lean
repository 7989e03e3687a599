import Boto.SDB.IntegerOrder
import Boto.Support.Urls
import Mathlib.Algebra.Order.Field.Rat
import Mathlib.Algebra.Order.Floor.Ring
import Mathlib.Data.Rat.Floor
import Mathlib.Tactic.FieldSimp
import Mathlib.Tactic.NormNum
import Mathlib.Tactic.Positivity

/-!
# Floats in SimpleDB

`encode_float` and `decode_float` of `boto/sdb/db/manager/sdbmanager.py`.  A float is the
decimal that `'%e'` writes, and the arithmetic on mantissas is exact.
-/

namespace Boto.SDB

/-- A decimal with seven significant digits.  The mantissa is counted in millionths. -/
structure Decimal where
  negative : Bool
  mantissa : ℕ
  exponent : ℤ
  normal : mantissa = 0 ∧ exponent = 0 ∨ 10 ^ 6 ≤ mantissa ∧ mantissa < 10 ^ 7
  bounded : exponent.natAbs ≤ 308
  deriving DecidableEq

namespace Decimal

/-- The number. -/
def value (x : Decimal) : ℚ :=
  (if x.negative then -1 else 1) * ((x.mantissa : ℚ) / 10 ^ 6) * 10 ^ x.exponent

/-- `-0.0`. -/
def IsNegativeZero (x : Decimal) : Prop := x.negative = true ∧ x.mantissa = 0

/-- `0.0`. -/
def IsPositiveZero (x : Decimal) : Prop := x.negative = false ∧ x.mantissa = 0

end Decimal

/-! ## Formats -/

/-- Some millionths with six digits after the point. -/
def sixPlaces (n : ℕ) : Text :=
  decimal (n / 10 ^ 6) ++ '.' :: padded 6 (n % 10 ^ 6)

/-- `'%e' % value`. -/
def percentE (x : Decimal) : Text :=
  (if x.negative then ['-'] else []) ++ sixPlaces x.mantissa ++
    'e' :: (if x.exponent < 0 then '-' else '+') :: padded 2 x.exponent.natAbs

/-- The nearest integer, the even one of two. -/
def roundHalfEven (q : ℚ) : ℤ :=
  if Int.fract q < 1 / 2 then ⌊q⌋
  else if 1 / 2 < Int.fract q then ⌊q⌋ + 1
  else if ⌊q⌋ % 2 = 0 then ⌊q⌋
  else ⌊q⌋ + 1

/-- `'%f' % value`. -/
def percentF (q : ℚ) : Text :=
  (if q < 0 then ['-'] else []) ++ sixPlaces (roundHalfEven (|q| * 10 ^ 6)).toNat

/-- A number in front of which there may be a sign. -/
def signed {α : Type} [Neg α] (read : Text → Option α) : Text → Option α
  | '-' :: digits => (read digits).map Neg.neg
  | '+' :: digits => read digits
  | digits => read digits

/-- Digits with a point among them. -/
def readFixed (text : Text) : Option ℚ :=
  let (whole, fraction) := Urls.cut '.' text
  let fraction := fraction.getD []
  match parseDigits (whole ++ fraction) with
  | .ok n => some (n / 10 ^ fraction.length)
  | .error _ => none

/-- `float(text)`, for a text without spaces. -/
def readFloat (text : Text) : Option ℚ :=
  match Urls.cut 'e' text with
  | (number, none) => signed readFixed number
  | (number, some exponent) => do
      let q ← signed readFixed number
      let n ← (parseInt exponent).toOption
      return q * 10 ^ n

/-! ## The converter -/

/-- `'%s %s %s' % (case, exponent, mantissa)`. -/
def floatText (case : Char) (exponent mantissa : Text) : Text :=
  case :: ' ' :: (exponent ++ ' ' :: mantissa)

/-- The mantissa of a negative number: `'%f' % (10 + float(mantissa))`. -/
def complement (mantissa : Text) : Option Text :=
  (readFloat mantissa).map fun q => (percentF (10 + q)).rightpad 18 '0'

/-- `encode_float`. -/
def encodeFloat (value : Decimal) : Option Text :=
  match (percentE value).splitOn 'e' with
  | mantissa :: exponent :: _ =>
      let mantissa := mantissa.rightpad 18 '0'
      if value.mantissa = 0 then some (floatText '3' "000".toList mantissa)
      else if mantissa.head? ≠ some '-' ∧ exponent.head? = some '+' then
        some (floatText '5' (exponent.tail.leftpad 3 '0') mantissa)
      else if mantissa.head? ≠ some '-' ∧ exponent.head? = some '-' then do
        let n ← (parseInt exponent).toOption
        return floatText '4' (zeroPadded 3 (999 + n)) mantissa
      else if mantissa.head? = some '-' ∧ exponent.head? = some '-' then do
        let mantissa ← complement mantissa
        return floatText '2' (exponent.tail.leftpad 3 '0') mantissa
      else do
        let mantissa ← complement mantissa
        let n ← (parseInt exponent).toOption
        return floatText '1' (zeroPadded 3 (999 - n)) mantissa
  | _ => none

/-- `decode_float`. -/
def decodeFloat (value : Text) : Option ℚ := do
  let case ← value.head?
  let exponent := (value.drop 2).take 3
  let mantissa := value.drop 6
  if case = '3' then return 0
  else if case = '5' then readFloat (mantissa ++ 'e' :: exponent)
  else if case = '4' then do
    let n ← (parseInt exponent).toOption
    readFloat (mantissa ++ 'e' :: zeroPadded 3 (n - 999))
  else if case = '2' then do
    let q ← readFloat mantissa
    readFloat (percentF (q - 10) ++ 'e' :: '-' :: exponent)
  else do
    let q ← readFloat mantissa
    let n ← (parseInt exponent).toOption
    readFloat (percentF (q - 10) ++ 'e' :: zeroPadded 3 |n - 999|)

/-! ## Reading back -/

theorem roundHalfEven_natCast (n : ℕ) : roundHalfEven n = n := by
  rw [roundHalfEven, Int.fract_natCast, if_pos (by norm_num), Int.floor_natCast]

/-- Whole millionths are written exactly. -/
theorem percentF_natCast (n : ℕ) : percentF ((n : ℚ) / 10 ^ 6) = sixPlaces n := by
  have hnonneg : (0 : ℚ) ≤ (n : ℚ) / 10 ^ 6 := by positivity
  have hscaled : |(n : ℚ) / 10 ^ 6| * 10 ^ 6 = (n : ℚ) := by
    rw [abs_of_nonneg hnonneg]
    field_simp
  rw [percentF, if_neg (not_lt.mpr hnonneg), hscaled, roundHalfEven_natCast, Int.toNat_natCast,
    List.nil_append]

theorem percentF_neg {n : ℕ} (hn : 0 < n) :
    percentF (-((n : ℚ) / 10 ^ 6)) = '-' :: sixPlaces n := by
  have hpos : (0 : ℚ) < (n : ℚ) / 10 ^ 6 := by positivity
  have hscaled : |-((n : ℚ) / 10 ^ 6)| * 10 ^ 6 = (n : ℚ) := by
    rw [abs_neg, abs_of_pos hpos]
    field_simp
  rw [percentF, if_pos (neg_neg_of_pos hpos), hscaled, roundHalfEven_natCast, Int.toNat_natCast]
  rfl

theorem length_padded_of_lt {width n : ℕ} (hwidth : 0 < width) (hn : n < 10 ^ width) :
    (padded width n).length = width := by
  rw [length_padded, numeralWidth_of_lt hwidth hn]

theorem mod_lt_million (n : ℕ) : n % 10 ^ 6 < 10 ^ 6 := Nat.mod_lt _ (by decide)

theorem padded_one (n : ℕ) : padded 1 n = decimal n := by
  have hpos : 1 ≤ (decimal n).length := List.length_pos_iff.mpr (decimal_ne_nil n)
  rw [padded, List.leftpad, Nat.sub_eq_zero_of_le hpos]
  rfl

theorem length_sixPlaces {n : ℕ} (hn : n < 10 ^ 7) : (sixPlaces n).length = 8 := by
  have hwhole : n / 10 ^ 6 < 10 ^ 1 := by omega
  rw [sixPlaces, List.length_append, List.length_cons, ← padded_one,
    length_padded_of_lt (by decide) hwhole, length_padded_of_lt (by decide) (mod_lt_million n)]

theorem notMem_sixPlaces {n : ℕ} {c : Char} (hc : c.isDigit = false) (hpoint : c ≠ '.') :
    c ∉ sixPlaces n := by
  intro hmem
  rcases List.mem_append.mp hmem with hwhole | hrest
  · exact notMem_decimal hc hwhole
  · rcases List.mem_cons.mp hrest with heq | hfraction
    · exact hpoint heq
    · rw [isDigits_padded 6 _ c hfraction] at hc
      cases hc

/-- The mantissa of a text, with zeros after its digits. -/
theorem readFixed_sixPlaces (n zeros : ℕ) :
    readFixed (sixPlaces n ++ List.replicate zeros '0') = some ((n : ℚ) / 10 ^ 6) := by
  have hpoint : '.' ∉ decimal (n / 10 ^ 6) := notMem_decimal (by decide)
  have hlength : (padded 6 (n % 10 ^ 6) ++ List.replicate zeros '0').length = 6 + zeros := by
    rw [List.length_append, List.length_replicate,
      length_padded_of_lt (by decide) (mod_lt_million n)]
  have hdigits : ∀ c ∈ decimal (n / 10 ^ 6) ++ (padded 6 (n % 10 ^ 6) ++
      List.replicate zeros '0'), c.isDigit = true := by
    intro c hc
    rcases List.mem_append.mp hc with hc | hc
    · exact isDigit_of_mem_decimal hc
    · rcases List.mem_append.mp hc with hc | hc
      · exact isDigits_padded 6 _ c hc
      · rw [List.eq_of_mem_replicate hc]
        rfl
  have hread : parseDigits (decimal (n / 10 ^ 6) ++ (padded 6 (n % 10 ^ 6) ++
      List.replicate zeros '0')) = .ok (10 ^ zeros * n) := by
    have hne : decimal (n / 10 ^ 6) ++ (padded 6 (n % 10 ^ 6) ++ List.replicate zeros '0') ≠ [] :=
      fun heq => decimal_ne_nil _ (List.append_eq_nil_iff.mp heq).1
    rw [parseDigits, if_pos ⟨hne, List.all_eq_true.mpr hdigits⟩, Nat.ofDigitChars_append,
      Nat.ofDigitChars_append, Nat.ofDigitChars_replicate_zero, decimal,
      Nat.ofDigitChars_ten_toDigits, Nat.ofDigitChars_eq_ofDigitChars_zero,
      ofDigitChars_padded, length_padded_of_lt (by decide) (mod_lt_million n), Nat.div_add_mod]
  rw [readFixed, sixPlaces, List.append_assoc, List.cons_append, Urls.cut_append_cons hpoint]
  simp only [Option.getD_some, hread, hlength]
  rw [Nat.cast_mul, pow_add]
  push_cast
  field_simp

theorem signed_of_digit {α : Type} [Neg α] {read : Text → Option α} {c : Char} {rest : Text}
    (hc : c.isDigit = true) : signed read (c :: rest) = read (c :: rest) := by
  rw [signed.eq_def]
  split
  · rename_i heq
    cases heq
    cases hc
  · rename_i heq
    cases heq
    cases hc
  · rfl

theorem signed_sixPlaces (n zeros : ℕ) :
    signed readFixed (sixPlaces n ++ List.replicate zeros '0') = some ((n : ℚ) / 10 ^ 6) := by
  rw [← readFixed_sixPlaces n zeros]
  cases htext : decimal (n / 10 ^ 6) with
  | nil => exact absurd htext (decimal_ne_nil _)
  | cons c rest =>
      have hc : c.isDigit = true := isDigit_of_mem_decimal (htext ▸ List.mem_cons_self)
      rw [sixPlaces, htext]
      exact signed_of_digit hc

theorem notMem_mantissa {n zeros : ℕ} {c : Char} (hc : c.isDigit = false) (hpoint : c ≠ '.') :
    c ∉ sixPlaces n ++ List.replicate zeros '0' := by
  intro hmem
  rcases List.mem_append.mp hmem with hmem | hmem
  · exact notMem_sixPlaces hc hpoint hmem
  · rw [List.eq_of_mem_replicate hmem] at hc
    cases hc

/-- `float` of a mantissa. -/
theorem readFloat_mantissa (negative : Bool) (n zeros : ℕ) :
    readFloat ((if negative then ['-'] else []) ++ (sixPlaces n ++ List.replicate zeros '0')) =
      some ((if negative then -1 else 1) * ((n : ℚ) / 10 ^ 6)) := by
  have he : 'e' ∉ sixPlaces n ++ List.replicate zeros '0' :=
    notMem_mantissa (by decide) (by decide)
  cases negative with
  | false =>
      rw [if_neg Bool.false_ne_true, if_neg Bool.false_ne_true, List.nil_append, one_mul,
        readFloat, Urls.cut_of_notMem he]
      exact signed_sixPlaces n zeros
  | true =>
      have he' : 'e' ∉ '-' :: (sixPlaces n ++ List.replicate zeros '0') := by
        rw [List.mem_cons, not_or]
        exact ⟨by decide, he⟩
      rw [if_pos rfl, if_pos rfl, List.singleton_append, readFloat, Urls.cut_of_notMem he']
      simp only [signed, readFixed_sixPlaces, Option.map_some, neg_mul, one_mul]

/-- `float` of a mantissa and an exponent. -/
theorem readFloat_exponent (negative : Bool) (n zeros : ℕ) {exponent : Text} {k : ℤ}
    (hk : parseInt exponent = .ok k) :
    readFloat ((if negative then ['-'] else []) ++ (sixPlaces n ++ List.replicate zeros '0') ++
        'e' :: exponent) =
      some ((if negative then -1 else 1) * ((n : ℚ) / 10 ^ 6) * 10 ^ k) := by
  have he : 'e' ∉ sixPlaces n ++ List.replicate zeros '0' :=
    notMem_mantissa (by decide) (by decide)
  cases negative with
  | false =>
      rw [if_neg Bool.false_ne_true, if_neg Bool.false_ne_true, List.nil_append, one_mul,
        readFloat, Urls.cut_append_cons he]
      simp only [signed_sixPlaces, hk]
      rfl
  | true =>
      have he' : 'e' ∉ '-' :: (sixPlaces n ++ List.replicate zeros '0') := by
        rw [List.mem_cons, not_or]
        exact ⟨by decide, he⟩
      rw [if_pos rfl, if_pos rfl, List.singleton_append, readFloat, Urls.cut_append_cons he']
      simp only [signed, readFixed_sixPlaces, Option.map_some, hk]
      rw [neg_one_mul]
      rfl

end Boto.SDB
