import Boto.SDB.FloatText
import Mathlib.Algebra.Order.Field.Power
import Mathlib.Tactic.Linarith

/-!
# What floats in SimpleDB keep

A float is stored as a case, an exponent and a mantissa of fixed widths.  These determine the
number, and they are ordered as the numbers are.  Zero is the exception: it is stored with its
sign.
-/

namespace Boto.SDB

open DigitOrder

/-! ## What is stored -/

/-- The case, the exponent and the mantissa that are stored. -/
def Decimal.key (x : Decimal) : ℕ × ℕ × ℕ :=
  if x.mantissa = 0 then (3, 0, 0)
  else if x.negative then
    (if x.exponent < 0 then (2, x.exponent.natAbs, 10 ^ 7 - x.mantissa)
    else (1, 999 - x.exponent.natAbs, 10 ^ 7 - x.mantissa))
  else
    (if x.exponent < 0 then (4, 999 - x.exponent.natAbs, x.mantissa)
    else (5, x.exponent.natAbs, x.mantissa))

/-- Their text. -/
def keyText (key : ℕ × ℕ × ℕ) : Text :=
  floatText (Nat.digitChar key.1) (padded 3 key.2.1)
    (sixPlaces key.2.2 ++ List.replicate 10 '0')

/-- The text of `-0.0`. -/
def negativeZeroText : Text :=
  floatText '3' "000".toList ('-' :: (sixPlaces 0 ++ List.replicate 9 '0'))

theorem leftpad_padded {width n : ℕ} (narrow : ℕ) (hle : narrow ≤ width) :
    (padded narrow n).leftpad width '0' = padded width n := by
  rw [List.leftpad, length_padded, numeralWidth, padded, padded, List.leftpad, List.leftpad,
    ← List.append_assoc, List.replicate_append_replicate]
  congr 2
  omega

theorem parseInt_plus_padded (width n : ℕ) : parseInt ('+' :: padded width n) = .ok n := by
  have hstrip : strip ('+' :: padded width n) = '+' :: padded width n := by
    refine strip_eq_self fun c hc => ?_
    rcases List.mem_cons.mp hc with rfl | hc
    · rfl
    · exact isSpace_of_isDigit (isDigits_padded width n c hc)
  rw [parseInt, hstrip]
  simp only [parseDigits_padded]
  rfl

theorem splitOn_percentE (x : Decimal) :
    (percentE x).splitOn 'e' = [(if x.negative then ['-'] else []) ++ sixPlaces x.mantissa,
      (if x.exponent < 0 then '-' else '+') :: padded 2 x.exponent.natAbs] := by
  have hmantissa : 'e' ∉ (if x.negative then ['-'] else []) ++ sixPlaces x.mantissa := by
    rw [List.mem_append, not_or]
    refine ⟨?_, notMem_sixPlaces (by decide) (by decide)⟩
    split <;> decide
  have hexponent :
      'e' ∉ (if x.exponent < 0 then '-' else '+') :: padded 2 x.exponent.natAbs := by
    rw [List.mem_cons, not_or]
    refine ⟨by split <;> decide, fun hmem => ?_⟩
    cases isDigits_padded 2 _ 'e' hmem
  have hsplit : (['e'].intercalate [(if x.negative then ['-'] else []) ++ sixPlaces x.mantissa,
      (if x.exponent < 0 then '-' else '+') :: padded 2 x.exponent.natAbs]).splitOn 'e' =
      [(if x.negative then ['-'] else []) ++ sixPlaces x.mantissa,
        (if x.exponent < 0 then '-' else '+') :: padded 2 x.exponent.natAbs] :=
    List.splitOn_intercalate 'e' (by simp only [List.forall_mem_cons]; simp [hmantissa, hexponent])
      (by simp)
  simpa [percentE, List.intercalate, List.intersperse] using hsplit

theorem rightpad_sixPlaces {n : ℕ} (hn : n < 10 ^ 7) :
    (sixPlaces n).rightpad 18 '0' = sixPlaces n ++ List.replicate 10 '0' := by
  rw [List.rightpad, length_sixPlaces hn]

theorem rightpad_minus {n : ℕ} (hn : n < 10 ^ 7) :
    ('-' :: sixPlaces n).rightpad 18 '0' = '-' :: (sixPlaces n ++ List.replicate 9 '0') := by
  rw [List.rightpad, List.length_cons, length_sixPlaces hn]
  rfl

theorem head?_sixPlaces (n : ℕ) (rest : Text) : (sixPlaces n ++ rest).head? ≠ some '-' := by
  cases htext : decimal (n / 10 ^ 6) with
  | nil => exact absurd htext (decimal_ne_nil _)
  | cons c digits =>
      have hc : c.isDigit = true := isDigit_of_mem_decimal (htext ▸ List.mem_cons_self)
      rw [sixPlaces, htext]
      rintro ⟨⟩
      cases hc

/-- The mantissa of a negative number. -/
theorem complement_minus {n : ℕ} (hpos : 0 < n) (hn : n < 10 ^ 7) :
    complement ('-' :: (sixPlaces n ++ List.replicate 9 '0')) =
      some (sixPlaces (10 ^ 7 - n) ++ List.replicate 10 '0') := by
  have hread := readFloat_mantissa true n 9
  rw [if_pos rfl, if_pos rfl, List.singleton_append] at hread
  have hsum : (10 : ℚ) + -1 * ((n : ℚ) / 10 ^ 6) = ((10 ^ 7 - n : ℕ) : ℚ) / 10 ^ 6 := by
    rw [Nat.cast_sub hn.le]
    push_cast
    ring
  rw [complement, hread, Option.map_some, hsum, percentF_natCast, rightpad_sixPlaces (by omega)]

theorem encodeFloat_eq_keyText {x : Decimal} (hx : x.mantissa ≠ 0) :
    encodeFloat x = some (keyText x.key) := by
  obtain ⟨-, hlt⟩ := x.normal.resolve_left fun h => hx h.1
  have hbound := x.bounded
  have hcast : zeroPadded 3 (999 - (x.exponent.natAbs : ℤ)) =
      padded 3 (999 - x.exponent.natAbs) := by
    have hsub : (999 : ℤ) - x.exponent.natAbs = ((999 - x.exponent.natAbs : ℕ) : ℤ) := by omega
    rw [hsub, zeroPadded_natCast]
  rw [encodeFloat, splitOn_percentE, Decimal.key, if_neg hx]
  by_cases hneg : x.negative = true
  · simp only [if_pos hneg, List.singleton_append, rightpad_minus hlt, if_neg hx,
      complement_minus (Nat.pos_of_ne_zero hx) hlt, List.head?_cons, ne_eq, not_true_eq_false,
      false_and, if_false, true_and, List.tail_cons]
    by_cases hexponent : x.exponent < 0
    · simp only [if_pos hexponent, if_true]
      rw [leftpad_padded 2 (by decide)]
      rfl
    · simp only [if_neg hexponent, parseInt_plus_padded]
      rw [if_neg (by decide)]
      change some (floatText '1' (zeroPadded 3 (999 - (x.exponent.natAbs : ℤ))) _) = _
      rw [hcast]
      rfl
  · have hhead := head?_sixPlaces x.mantissa (List.replicate 10 '0')
    simp only [if_neg hneg, List.nil_append, rightpad_sixPlaces hlt, if_neg hx, ne_eq, hhead,
      not_false_eq_true, true_and, List.head?_cons, List.tail_cons]
    by_cases hexponent : x.exponent < 0
    · simp only [if_pos hexponent, parseInt_neg_padded]
      rw [if_neg (by decide), if_pos trivial]
      change some (floatText '4' (zeroPadded 3 (999 + -(x.exponent.natAbs : ℤ))) _) = _
      rw [← sub_eq_add_neg, hcast]
      rfl
    · simp only [if_neg hexponent, if_true]
      rw [leftpad_padded 2 (by decide)]
      rfl

theorem encodeFloat_zero {x : Decimal} (hx : x.mantissa = 0) :
    encodeFloat x = some (if x.negative then negativeZeroText else keyText x.key) := by
  rw [encodeFloat, splitOn_percentE, hx]
  simp only [if_true]
  by_cases hneg : x.negative = true
  · simp only [if_pos hneg, List.singleton_append, rightpad_minus (show 0 < 10 ^ 7 by decide)]
    rfl
  · simp only [if_neg hneg, List.nil_append, rightpad_sixPlaces (show 0 < 10 ^ 7 by decide),
      Decimal.key, hx, if_true]
    rfl

/-! ## Reading it back -/

theorem length_padded_three {n : ℕ} (hn : n < 1000) : (padded 3 n).length = 3 :=
  length_padded_of_lt (by decide) hn

theorem slices_floatText {case : Char} {exponent mantissa : Text} (hlength : exponent.length = 3) :
    ((floatText case exponent mantissa).drop 2).take 3 = exponent ∧
      (floatText case exponent mantissa).drop 6 = mantissa := by
  constructor
  · rw [floatText]
    exact List.take_left' hlength
  · have hdrop : (floatText case exponent mantissa).drop 6 =
        (exponent ++ ' ' :: mantissa).drop (3 + 1) := rfl
    rw [hdrop, ← List.drop_drop, List.drop_left' hlength]
    rfl

/-- `decode_float` of a text with the stored parts. -/
theorem decodeFloat_parts {case exponent mantissa : ℕ} (hexponent : exponent < 1000) :
    decodeFloat (keyText (case, exponent, mantissa)) =
      if Nat.digitChar case = '3' then some 0
      else if Nat.digitChar case = '5' then
        some ((mantissa : ℚ) / 10 ^ 6 * 10 ^ (exponent : ℤ))
      else if Nat.digitChar case = '4' then
        some ((mantissa : ℚ) / 10 ^ 6 * 10 ^ ((exponent : ℤ) - 999))
      else if Nat.digitChar case = '2' then
        readFloat (percentF ((mantissa : ℚ) / 10 ^ 6 - 10) ++ 'e' :: '-' :: padded 3 exponent)
      else
        readFloat (percentF ((mantissa : ℚ) / 10 ^ 6 - 10) ++
          'e' :: zeroPadded 3 |(exponent : ℤ) - 999|) := by
  obtain ⟨hslice, hrest⟩ := @slices_floatText (Nat.digitChar case) (padded 3 exponent)
    (sixPlaces mantissa ++ List.replicate 10 '0') (length_padded_three hexponent)
  have hread := readFloat_mantissa false mantissa 10
  have hparse := parseInt_padded 3 exponent
  have hpositive := @readFloat_exponent false mantissa 10 _ _ hparse
  have hsmall := @readFloat_exponent false mantissa 10 _ _
    (parseInt_zeroPadded 3 ((exponent : ℤ) - 999))
  rw [if_neg Bool.false_ne_true, if_neg Bool.false_ne_true, one_mul, List.nil_append]
    at hread hpositive hsmall
  have hhead : (floatText (Nat.digitChar case) (padded 3 exponent)
      (sixPlaces mantissa ++ List.replicate 10 '0')).head? = some (Nat.digitChar case) := rfl
  rw [decodeFloat, keyText, hslice, hrest]
  simp only [hhead, hread, hparse, hpositive]
  change (if Nat.digitChar case = '3' then some 0 else if Nat.digitChar case = '5' then _
    else if Nat.digitChar case = '4' then readFloat (_ ++ 'e' :: zeroPadded 3 _)
    else if Nat.digitChar case = '2' then readFloat _ else readFloat _) = _
  rw [hsmall]

/-- The number is read back. -/
theorem decodeFloat_keyText {x : Decimal} (hx : x.mantissa ≠ 0) :
    decodeFloat (keyText x.key) = some x.value := by
  obtain ⟨hge, hlt⟩ := x.normal.resolve_left fun h => hx h.1
  have hbound := x.bounded
  have hminus : (((10 ^ 7 - x.mantissa : ℕ) : ℚ) / 10 ^ 6 - 10) = -((x.mantissa : ℚ) / 10 ^ 6) := by
    rw [Nat.cast_sub hlt.le]
    push_cast
    ring
  have hread : ∀ {exponent : Text}, parseInt exponent = .ok x.exponent →
      readFloat (percentF (-((x.mantissa : ℚ) / 10 ^ 6)) ++ 'e' :: exponent) =
        some (-1 * ((x.mantissa : ℚ) / 10 ^ 6) * 10 ^ x.exponent) := by
    intro exponent hparse
    have hfloat := @readFloat_exponent true x.mantissa 0 _ _ hparse
    rw [List.replicate_zero, List.append_nil] at hfloat
    rw [percentF_neg (Nat.pos_of_ne_zero hx)]
    exact hfloat
  rw [Decimal.key, if_neg hx, Decimal.value]
  by_cases hneg : x.negative = true
  · rw [if_pos hneg, if_pos hneg]
    by_cases hexponent : x.exponent < 0
    · rw [if_pos hexponent, decodeFloat_parts (by omega), if_neg (by decide), if_neg (by decide),
        if_neg (by decide), if_pos (by decide), hminus]
      refine hread ?_
      rw [parseInt_neg_padded]
      congr 1
      omega
    · rw [if_neg hexponent, decodeFloat_parts (by omega), if_neg (by decide),
        if_neg (by decide), if_neg (by decide), if_neg (by decide), hminus]
      refine hread ?_
      have habs : |((999 - x.exponent.natAbs : ℕ) : ℤ) - 999| = x.exponent := by
        rw [abs_of_nonpos (by omega)]
        omega
      rw [parseInt_zeroPadded, habs]
  · rw [if_neg hneg, if_neg hneg, one_mul]
    by_cases hexponent : x.exponent < 0
    · rw [if_pos hexponent, decodeFloat_parts (by omega), if_neg (by decide), if_neg (by decide),
        if_pos (by decide)]
      congr 3
      omega
    · rw [if_neg hexponent, decodeFloat_parts (by omega), if_neg (by decide),
        if_pos (by decide)]
      congr 3
      omega

/-! ## The order of the texts -/

/-- The order of case, exponent and mantissa. -/
def KeyBefore (key key' : ℕ × ℕ × ℕ) : Prop :=
  key.1 < key'.1 ∨ key.1 = key'.1 ∧
    (key.2.1 < key'.2.1 ∨ key.2.1 = key'.2.1 ∧ key.2.2 < key'.2.2)

theorem padded_lt_iff {width m n : ℕ} (hwidth : 0 < width) (hm : m < 10 ^ width)
    (hn : n < 10 ^ width) : padded width m < padded width n ↔ m < n := by
  rw [lt_iff_of_length_eq (isDigits_padded _ _) (isDigits_padded _ _)
    (by rw [length_padded_of_lt hwidth hm, length_padded_of_lt hwidth hn]),
    ofDigitChars_padded, ofDigitChars_padded]

theorem padded_inj {width m n : ℕ} : padded width m = padded width n ↔ m = n := by
  refine ⟨fun heq => ?_, fun heq => heq ▸ rfl⟩
  rw [← ofDigitChars_padded width m, heq, ofDigitChars_padded]

theorem sixPlaces_lt_iff {m n : ℕ} (hm : m < 10 ^ 7) (hn : n < 10 ^ 7) :
    sixPlaces m < sixPlaces n ↔ m < n := by
  have hwhole : m / 10 ^ 6 < 10 ^ 1 := by omega
  have hwhole' : n / 10 ^ 6 < 10 ^ 1 := by omega
  rw [sixPlaces, sixPlaces, ← padded_one, ← padded_one, append_lt_append_iff (by
      rw [length_padded_of_lt (by decide) hwhole, length_padded_of_lt (by decide) hwhole']),
    padded_lt_iff (by decide) hwhole hwhole', padded_inj, List.cons_lt_cons_iff,
    padded_lt_iff (by decide) (mod_lt_million m) (mod_lt_million n)]
  simp only [Char.lt_irrefl, false_or, true_and]
  omega

theorem mantissa_lt_iff {m n : ℕ} (hm : m < 10 ^ 7) (hn : n < 10 ^ 7) (rest : Text) :
    sixPlaces m ++ rest < sixPlaces n ++ rest ↔ m < n := by
  rw [append_lt_append_iff (by rw [length_sixPlaces hm, length_sixPlaces hn]),
    sixPlaces_lt_iff hm hn]
  exact or_iff_left fun h => List.lt_irrefl rest h.2

theorem digitChar_eq {n : ℕ} (hn : n < 10) : [Nat.digitChar n] = padded 1 n := by
  rw [padded_one, decimal, Nat.toDigits_of_lt_base hn]

theorem keyText_lt_iff {key key' : ℕ × ℕ × ℕ} (hcase : key.1 < 10) (hcase' : key'.1 < 10)
    (hexponent : key.2.1 < 1000) (hexponent' : key'.2.1 < 1000) (hmantissa : key.2.2 < 10 ^ 7)
    (hmantissa' : key'.2.2 < 10 ^ 7) : keyText key < keyText key' ↔ KeyBefore key key' := by
  have hsplit : ∀ key : ℕ × ℕ × ℕ, keyText key = [Nat.digitChar key.1] ++ ' ' ::
      (padded 3 key.2.1 ++ ' ' :: (sixPlaces key.2.2 ++ List.replicate 10 '0')) := fun _ => rfl
  have hlength : [Nat.digitChar key.1].length = [Nat.digitChar key'.1].length := rfl
  rw [hsplit, hsplit, append_lt_append_iff hlength, digitChar_eq hcase, digitChar_eq hcase',
    padded_lt_iff (by decide) hcase hcase', padded_inj, List.cons_lt_cons_iff,
    append_lt_append_iff (by rw [length_padded_three hexponent, length_padded_three hexponent']),
    padded_lt_iff (by decide) hexponent hexponent', padded_inj, List.cons_lt_cons_iff,
    mantissa_lt_iff hmantissa hmantissa', KeyBefore]
  simp only [Char.lt_irrefl, false_or, true_and]

/-! ## The order of the numbers -/

namespace Decimal

variable {x y : Decimal}

/-- The place of a number among the others. -/
def rank (x : Decimal) : ℤ :=
  if x.mantissa = 0 then 0
  else if x.negative then -((x.exponent + 309) * 10 ^ 7 + x.mantissa)
  else (x.exponent + 309) * 10 ^ 7 + x.mantissa

theorem keyBefore_iff : KeyBefore x.key y.key ↔ x.rank < y.rank := by
  have hx := x.bounded
  have hy := y.bounded
  have hnormal := x.normal
  have hnormal' := y.normal
  rw [KeyBefore, key, key, rank, rank]
  split_ifs <;> simp only [lt_self_iff_false, false_or, true_and] <;> omega

theorem key_bounds (x : Decimal) : x.key.1 < 10 ∧ x.key.2.1 < 1000 ∧ x.key.2.2 < 10 ^ 7 := by
  have hx := x.bounded
  have hnormal := x.normal
  rw [key]
  split_ifs <;> simp only <;> omega

/-- The magnitude of a number. -/
def magnitude (x : Decimal) : ℚ := (x.mantissa : ℚ) / 10 ^ 6 * 10 ^ x.exponent

theorem magnitude_pos (hx : x.mantissa ≠ 0) : 0 < x.magnitude := by
  have hpos : (0 : ℚ) < x.mantissa := by exact_mod_cast Nat.pos_of_ne_zero hx
  rw [magnitude]
  positivity

theorem magnitude_lt (hx : x.mantissa ≠ 0) (hy : y.mantissa ≠ 0)
    (hlt : (x.exponent + 309) * 10 ^ 7 + (x.mantissa : ℤ) <
      (y.exponent + 309) * 10 ^ 7 + y.mantissa) : x.magnitude < y.magnitude := by
  obtain ⟨-, hxlt⟩ := x.normal.resolve_left fun h => hx h.1
  obtain ⟨hyge, hylt⟩ := y.normal.resolve_left fun h => hy h.1
  have hpow : (0 : ℚ) < 10 ^ x.exponent := by positivity
  have hcases : x.exponent < y.exponent ∨ x.exponent = y.exponent ∧ x.mantissa < y.mantissa := by
    omega
  rw [magnitude, magnitude]
  rcases hcases with hexponent | ⟨hexponent, hmantissa⟩
  · have hsmall : (x.mantissa : ℚ) / 10 ^ 6 < 10 := by
      rw [div_lt_iff₀ (by norm_num)]
      exact_mod_cast hxlt
    have hlarge : (1 : ℚ) ≤ (y.mantissa : ℚ) / 10 ^ 6 := by
      rw [one_le_div₀ (by norm_num)]
      exact_mod_cast hyge
    calc (x.mantissa : ℚ) / 10 ^ 6 * 10 ^ x.exponent
        < 10 * 10 ^ x.exponent := mul_lt_mul_of_pos_right hsmall hpow
      _ = 10 ^ (x.exponent + 1) := by rw [zpow_add_one₀ (by norm_num), mul_comm]
      _ ≤ 10 ^ y.exponent := zpow_le_zpow_right₀ (by norm_num) hexponent
      _ ≤ (y.mantissa : ℚ) / 10 ^ 6 * 10 ^ y.exponent :=
          le_mul_of_one_le_left (by positivity) hlarge
  · rw [hexponent]
    have hcast : (x.mantissa : ℚ) < y.mantissa := by exact_mod_cast hmantissa
    have hpow' : (0 : ℚ) < 10 ^ y.exponent := by positivity
    exact mul_lt_mul_of_pos_right (div_lt_div_of_pos_right hcast (by norm_num)) hpow'

theorem value_eq (x : Decimal) : x.value = if x.negative then -x.magnitude else x.magnitude := by
  rw [value, magnitude]
  split
  · rw [neg_one_mul, neg_mul]
  · rw [one_mul]

theorem magnitude_zero (hx : x.mantissa = 0) : x.magnitude = 0 := by
  rw [magnitude, hx, Nat.cast_zero, zero_div, zero_mul]

theorem value_lt_of_rank_lt (hlt : x.rank < y.rank) : x.value < y.value := by
  have hx := x.bounded
  have hy := y.bounded
  rw [rank, rank] at hlt
  rw [value_eq, value_eq]
  by_cases hxzero : x.mantissa = 0
  · rw [if_pos hxzero] at hlt
    have hleft : (if x.negative then -x.magnitude else x.magnitude) = 0 := by
      rw [magnitude_zero hxzero, neg_zero, ite_self]
    rw [hleft]
    by_cases hyzero : y.mantissa = 0
    · rw [if_pos hyzero] at hlt
      exact absurd hlt (lt_irrefl _)
    · have hpos := magnitude_pos hyzero
      rw [if_neg hyzero] at hlt
      split_ifs at hlt ⊢
      · omega
      · exact hpos
  · have hxpos := magnitude_pos hxzero
    rw [if_neg hxzero] at hlt
    by_cases hyzero : y.mantissa = 0
    · rw [if_pos hyzero] at hlt
      have hright : (if y.negative then -y.magnitude else y.magnitude) = 0 := by
        rw [magnitude_zero hyzero, neg_zero, ite_self]
      rw [hright]
      split_ifs at hlt ⊢
      · exact neg_neg_of_pos hxpos
      · omega
    · have hypos := magnitude_pos hyzero
      rw [if_neg hyzero] at hlt
      split_ifs at hlt ⊢
      · exact neg_lt_neg (magnitude_lt hyzero hxzero (by omega))
      · linarith
      · omega
      · exact magnitude_lt hxzero hyzero hlt

theorem rank_eq_zero_iff : x.rank = 0 ↔ x.mantissa = 0 := by
  have hx := x.bounded
  rw [rank]
  split_ifs <;> omega

theorem value_eq_of_rank_eq (heq : x.rank = y.rank) : x.value = y.value := by
  have hx := x.bounded
  have hy := y.bounded
  have hzero : x.mantissa = 0 ↔ y.mantissa = 0 := by
    rw [← rank_eq_zero_iff, heq, rank_eq_zero_iff]
  by_cases hxzero : x.mantissa = 0
  · rw [value_eq, value_eq, magnitude_zero hxzero, magnitude_zero (hzero.mp hxzero), neg_zero,
      ite_self, ite_self]
  · obtain ⟨-, hxlt⟩ := x.normal.resolve_left fun h => hxzero h.1
    obtain ⟨-, hylt⟩ := y.normal.resolve_left fun h => hxzero (hzero.mpr h.1)
    rw [rank, rank, if_neg hxzero, if_neg (mt hzero.mpr hxzero)] at heq
    have hparts : x.negative = y.negative ∧ x.exponent = y.exponent ∧
        x.mantissa = y.mantissa := by
      cases hneg : x.negative <;> cases hneg' : y.negative <;>
        simp only [hneg, hneg', if_true, Bool.false_eq_true, if_false] at heq <;> simp <;> omega
    rw [value, value, hparts.1, hparts.2.1, hparts.2.2]

theorem value_lt_iff : x.value < y.value ↔ x.rank < y.rank := by
  refine ⟨fun hlt => ?_, value_lt_of_rank_lt⟩
  by_contra hnot
  rcases (not_lt.mp hnot).lt_or_eq with hgt | heq
  · exact lt_asymm hlt (value_lt_of_rank_lt hgt)
  · exact hlt.ne (value_eq_of_rank_eq heq.symm)

end Decimal

/-! ## The two together -/

/-- The text of a number. -/
def storedText (x : Decimal) : Text :=
  if x.mantissa = 0 ∧ x.negative then negativeZeroText else keyText x.key

theorem encodeFloat_eq (x : Decimal) : encodeFloat x = some (storedText x) := by
  by_cases hx : x.mantissa = 0
  · rw [encodeFloat_zero hx, storedText]
    by_cases hneg : x.negative = true
    · rw [if_pos hneg, if_pos ⟨hx, hneg⟩]
    · rw [if_neg hneg, if_neg fun h => hneg h.2]
  · rw [encodeFloat_eq_keyText hx, storedText, if_neg fun h => hx h.1]

theorem decodeFloat_storedText (x : Decimal) : decodeFloat (storedText x) = some x.value := by
  by_cases hx : x.mantissa = 0
  · have hvalue : x.value = 0 := by
      rw [Decimal.value_eq, Decimal.magnitude_zero hx, neg_zero, ite_self]
    rw [storedText, hvalue, Decimal.key, if_pos hx]
    split <;> rfl
  · rw [storedText, if_neg fun h => hx h.1, decodeFloat_keyText hx]

theorem keyText_lt_iff_value (x y : Decimal) :
    keyText x.key < keyText y.key ↔ x.value < y.value := by
  obtain ⟨hcase, hexponent, hmantissa⟩ := x.key_bounds
  obtain ⟨hcase', hexponent', hmantissa'⟩ := y.key_bounds
  rw [keyText_lt_iff hcase hcase' hexponent hexponent' hmantissa hmantissa',
    Decimal.keyBefore_iff, Decimal.value_lt_iff]

theorem key_of_zero {x : Decimal} (hx : x.mantissa = 0) : x.key = (3, 0, 0) := by
  rw [Decimal.key, if_pos hx]

theorem case_ne_three {x : Decimal} (hx : x.mantissa ≠ 0) : x.key.1 ≠ 3 := by
  rw [Decimal.key, if_neg hx]
  split_ifs <;> simp

/-- Beside a number that is not zero, the text of `-0.0` is like that of `0.0`. -/
theorem negativeZeroText_lt_iff {x : Decimal} (hx : x.mantissa ≠ 0) :
    (negativeZeroText < keyText x.key ↔ keyText (3, 0, 0) < keyText x.key) ∧
      (keyText x.key < negativeZeroText ↔ keyText x.key < keyText (3, 0, 0)) := by
  have hne : '3' ≠ Nat.digitChar x.key.1 := by
    have hdigit : ∀ n < 10, '3' = Nat.digitChar n → n = 3 := by decide
    exact fun heq => case_ne_three hx (hdigit _ x.key_bounds.1 heq)
  have hsplit : ∀ rest : Text, ('3' :: rest < keyText x.key ↔ '3' < Nat.digitChar x.key.1) ∧
      (keyText x.key < '3' :: rest ↔ Nat.digitChar x.key.1 < '3') := by
    intro rest
    rw [keyText, floatText, List.cons_lt_cons_iff, List.cons_lt_cons_iff]
    exact ⟨or_iff_left fun h => hne h.1, or_iff_left fun h => hne h.1.symm⟩
  exact ⟨(hsplit _).1.trans (hsplit _).1.symm, (hsplit _).2.trans (hsplit _).2.symm⟩

/-- A float is read back, and two are in the order of their texts, except that `-0.0` comes
before `0.0`. -/
theorem encodeFloat_faithful_iff (x y : Decimal) :
    (∃ text text', encodeFloat x = some text ∧ encodeFloat y = some text' ∧
      decodeFloat text = some x.value ∧ (text < text' ↔ x.value < y.value)) ↔
    ¬(x.IsNegativeZero ∧ y.IsPositiveZero) := by
  have horder : (∃ text text', encodeFloat x = some text ∧ encodeFloat y = some text' ∧
      decodeFloat text = some x.value ∧ (text < text' ↔ x.value < y.value)) ↔
      (storedText x < storedText y ↔ x.value < y.value) := by
    rw [encodeFloat_eq, encodeFloat_eq]
    constructor
    · rintro ⟨text, text', ⟨⟩, ⟨⟩, -, hlt⟩
      exact hlt
    · intro hlt
      exact ⟨_, _, rfl, rfl, decodeFloat_storedText x, hlt⟩
  have hkeys := keyText_lt_iff_value x y
  rw [horder, storedText, storedText, ← hkeys, Decimal.IsNegativeZero, Decimal.IsPositiveZero]
  by_cases hx : x.mantissa = 0
  · rw [key_of_zero hx]
    by_cases hy : y.mantissa = 0
    · rw [key_of_zero hy]
      cases x.negative <;> cases y.negative <;> simp only [hx, hy] <;> decide
    · have hyneg : ¬(y.mantissa = 0 ∧ y.negative = true) := fun h => hy h.1
      rw [if_neg hyneg]
      refine iff_of_true ?_ fun h => hy h.2.2
      split
      · exact (negativeZeroText_lt_iff hy).1
      · exact Iff.rfl
  · have hxneg : ¬(x.mantissa = 0 ∧ x.negative = true) := fun h => hx h.1
    rw [if_neg hxneg]
    refine iff_of_true ?_ fun h => hx h.1.2
    split
    · next hy => rw [(negativeZeroText_lt_iff hx).2, key_of_zero hy.1]
    · exact Iff.rfl

/-- Zero with either sign. -/
def zeroFloat (negative : Bool) : Decimal :=
  ⟨negative, 0, 0, .inl ⟨rfl, rfl⟩, by decide⟩

/-- `-0.0` is stored before `0.0`, though neither is less. -/
theorem negative_zero_before_zero :
    ∃ text text', encodeFloat (zeroFloat true) = some text ∧
      encodeFloat (zeroFloat false) = some text' ∧
      ¬(text < text' ↔ (zeroFloat true).value < (zeroFloat false).value) := by
  refine ⟨negativeZeroText, keyText (3, 0, 0), encodeFloat_eq _, encodeFloat_eq _, ?_⟩
  have hvalue : ¬(zeroFloat true).value < (zeroFloat false).value := by
    rw [← keyText_lt_iff_value]
    decide
  intro hiff
  exact hvalue (hiff.mp (by decide))

end Boto.SDB
