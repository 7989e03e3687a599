import Boto.SDB.Converter
import Boto.Support.DigitOrder
import Mathlib.Algebra.Order.Ring.Int

/-!
# What integers in SimpleDB keep

An encoded integer always reads back.  Encoded integers are ordered like the integers as
long as the numerals have one width and no sign, which the two offsets provide for the
ranges they were made for.  Where Python has one type of integers, the values of a
`LongProperty` take the narrow encoding, and whether the order of two of them is kept
depends on their leading digits.
-/

namespace Boto.SDB

open DigitOrder

/-! ## Padded numerals -/

/-- The width of a numeral that is padded with zeros. -/
def numeralWidth (width n : ℕ) : ℕ :=
  max width (decimal n).length

/-- A numeral padded with zeros. -/
def padded (width n : ℕ) : Text :=
  (decimal n).leftpad width '0'

theorem length_padded (width n : ℕ) : (padded width n).length = numeralWidth width n :=
  List.length_leftpad ..

theorem isDigits_padded (width n : ℕ) : IsDigits (padded width n) := by
  intro c hc
  rcases List.mem_append.mp hc with hzero | hdigit
  · rw [List.eq_of_mem_replicate hzero]
    rfl
  · exact isDigit_of_mem_decimal hdigit

theorem ofDigitChars_padded (width n : ℕ) : Nat.ofDigitChars 10 (padded width n) 0 = n := by
  rw [padded, List.leftpad, Nat.ofDigitChars_append, Nat.ofDigitChars_replicate_zero,
    Nat.mul_zero, decimal, Nat.ofDigitChars_ten_toDigits]

theorem parseDigits_padded (width n : ℕ) : parseDigits (padded width n) = .ok n := by
  have hne : padded width n ≠ [] := fun heq =>
    decimal_ne_nil n (List.append_eq_nil_iff.mp heq).2
  rw [parseDigits, if_pos ⟨hne, List.all_eq_true.mpr (isDigits_padded width n)⟩,
    ofDigitChars_padded]

/-- A numeral of digits is read without a sign. -/
theorem parseInt_padded (width n : ℕ) : parseInt (padded width n) = .ok n := by
  have hdigits := isDigits_padded width n
  have hstrip : strip (padded width n) = padded width n :=
    strip_eq_self fun c hc => isSpace_of_isDigit (hdigits c hc)
  rw [parseInt, hstrip]
  split
  · rename_i heq
    cases hdigits '-' (by simp [heq])
  · rename_i heq
    cases hdigits '+' (by simp [heq])
  · rw [parseDigits_padded]
    rfl

theorem parseInt_neg_padded (width n : ℕ) :
    parseInt ('-' :: padded width n) = .ok (-n) := by
  have hstrip : strip ('-' :: padded width n) = '-' :: padded width n := by
    refine strip_eq_self fun c hc => ?_
    rcases List.mem_cons.mp hc with rfl | hc
    · rfl
    · exact isSpace_of_isDigit (isDigits_padded width n c hc)
  rw [parseInt, hstrip]
  simp only [parseDigits_padded]
  rfl

theorem zeroPadded_natCast (width n : ℕ) : zeroPadded width n = padded width n := by
  rw [zeroPadded, if_neg (by omega), Int.natAbs_natCast, padded]

theorem zeroPadded_neg {n : ℕ} (width : ℕ) (hn : 0 < n) :
    zeroPadded width (-n) = '-' :: padded (width - 1) n := by
  rw [zeroPadded, if_pos (by omega), Int.natAbs_neg, Int.natAbs_natCast, padded]

/-- `int` reads back a padded numeral. -/
theorem parseInt_zeroPadded (width : ℕ) (value : ℤ) :
    parseInt (zeroPadded width value) = .ok value := by
  rcases lt_or_ge value 0 with hneg | hpos
  · obtain ⟨n, rfl⟩ := Int.exists_eq_neg_ofNat hneg.le
    rw [zeroPadded_neg width (by omega), parseInt_neg_padded]
  · obtain ⟨n, rfl⟩ := Int.eq_ofNat_of_zero_le hpos
    rw [zeroPadded_natCast, parseInt_padded]

theorem zeroPadded_injective (width : ℕ) : Function.Injective (zeroPadded width) := by
  intro value other heq
  have hread := parseInt_zeroPadded width value
  rw [heq, parseInt_zeroPadded] at hread
  exact (Except.ok.inj hread).symm

/-! ## Their order -/

theorem numeralWidth_mono {m n : ℕ} (width : ℕ) (hle : m ≤ n) :
    numeralWidth width m ≤ numeralWidth width n := by
  have hpos : 0 < (decimal n).length := Nat.length_toDigits_pos
  have hn : n < 10 ^ (decimal n).length :=
    (Nat.length_toDigits_le_iff (by decide) hpos).mp le_rfl
  have hm : (decimal m).length ≤ (decimal n).length :=
    (Nat.length_toDigits_le_iff (by decide) hpos).mpr (hle.trans_lt hn)
  exact max_le_max_left width hm

/-- A numeral that fits is as wide as it is made. -/
theorem numeralWidth_of_lt {width n : ℕ} (hwidth : 0 < width) (hn : n < 10 ^ width) :
    numeralWidth width n = width :=
  max_eq_left ((Nat.length_toDigits_le_iff (by decide) hwidth).mpr hn)

/-- A smaller number comes first if it is at most what the first digits of the other one
are, as many as it has itself. -/
theorem padded_lt_iff_of_lt {m n : ℕ} (width : ℕ) (hlt : m < n) :
    padded width m < padded width n ↔
      m ≤ n / 10 ^ (numeralWidth width n - numeralWidth width m) := by
  rcases (numeralWidth_mono width hlt.le).eq_or_lt with heq | hwidth
  · rw [lt_iff_of_length_eq (isDigits_padded _ _) (isDigits_padded _ _)
      (by rw [length_padded, length_padded, heq]), ofDigitChars_padded,
      ofDigitChars_padded, heq, Nat.sub_self, Nat.pow_zero, Nat.div_one]
    exact iff_of_true hlt hlt.le
  · rw [lt_iff_of_length_lt (isDigits_padded _ _) (isDigits_padded _ _)
      (by rwa [length_padded, length_padded]), ofDigitChars_padded, ofDigitChars_padded,
      length_padded, length_padded]

/-- A larger number comes first if its first digits are less than the other one, as many
as that has. -/
theorem padded_lt_iff_of_gt {m n : ℕ} (width : ℕ) (hlt : n < m) :
    padded width m < padded width n ↔
      m / 10 ^ (numeralWidth width m - numeralWidth width n) < n := by
  rw [lt_iff_of_length_le (isDigits_padded _ _) (isDigits_padded _ _)
    (by rw [length_padded, length_padded]; exact numeralWidth_mono width hlt.le),
    ofDigitChars_padded, ofDigitChars_padded, length_padded, length_padded]

/-- What it takes for the numerals `'%0*d'` of two numbers to be in order: different
signs, or leading digits that tell which is less. -/
def InOrder (width : ℕ) (value other : ℤ) : Prop :=
  value < 0 ∧ 0 ≤ other ∨
  0 ≤ value ∧ value.natAbs ≤ other.natAbs /
    10 ^ (numeralWidth width other.natAbs - numeralWidth width value.natAbs) ∨
  other < 0 ∧ value.natAbs / 10 ^ (numeralWidth (width - 1) value.natAbs -
    numeralWidth (width - 1) other.natAbs) < other.natAbs

theorem zeroPadded_lt_iff {value other : ℤ} {width : ℕ} (hwidth : 0 < width)
    (hlt : value < other) :
    zeroPadded width value < zeroPadded width other ↔ InOrder width value other := by
  rcases lt_or_ge value 0 with hneg | hpos
  · obtain ⟨m, rfl⟩ := Int.exists_eq_neg_ofNat hneg.le
    rw [zeroPadded_neg width (by omega), InOrder, Int.natAbs_neg, Int.natAbs_natCast]
    rcases lt_or_ge other 0 with hneg' | hpos'
    · obtain ⟨n, rfl⟩ := Int.exists_eq_neg_ofNat hneg'.le
      rw [zeroPadded_neg width (by omega), List.cons_lt_cons_iff,
        or_iff_right (by decide), and_iff_right rfl, padded_lt_iff_of_gt _ (by omega)]
      rw [Int.natAbs_neg, Int.natAbs_natCast]
      refine ⟨fun hleading => .inr (.inr ⟨hneg', hleading⟩), ?_⟩
      rintro (⟨-, hpos'⟩ | ⟨hpos, -⟩ | ⟨-, hleading⟩)
      · omega
      · omega
      · exact hleading
    · obtain ⟨n, rfl⟩ := Int.eq_ofNat_of_zero_le hpos'
      rw [zeroPadded_natCast]
      refine iff_of_true ?_ (.inl ⟨hneg, hpos'⟩)
      obtain ⟨c, text, heq⟩ : ∃ c text, padded width n = c :: text := by
        rw [← List.ne_nil_iff_exists_cons, ← List.length_pos_iff, length_padded]
        exact lt_max_of_lt_left hwidth
      have hdigit : c.isDigit = true := isDigits_padded width n c (by simp [heq])
      have hc := (toNat_eq hdigit).1
      rw [heq, List.cons_lt_cons_iff]
      left
      change 45 < c.toNat
      omega
  · obtain ⟨m, rfl⟩ := Int.eq_ofNat_of_zero_le hpos
    obtain ⟨n, rfl⟩ := Int.eq_ofNat_of_zero_le (hpos.trans hlt.le)
    rw [zeroPadded_natCast, zeroPadded_natCast, InOrder, Int.natAbs_natCast,
      Int.natAbs_natCast, padded_lt_iff_of_lt _ (by omega)]
    omega

/-- What it takes for the numerals of two numbers to be ordered like them. -/
def OrderKept (width : ℕ) (value other : ℤ) : Prop :=
  (value < other → InOrder width value other) ∧ (other < value → InOrder width other value)

theorem orderKept_iff {width : ℕ} (hwidth : 0 < width) (value other : ℤ) :
    (zeroPadded width value < zeroPadded width other ↔ value < other) ↔
      OrderKept width value other := by
  rcases lt_trichotomy value other with hlt | rfl | hlt
  · rw [OrderKept, zeroPadded_lt_iff hwidth hlt]
    simp [hlt, hlt.le]
  · simp [OrderKept, List.lt_irrefl]
  · have hne : zeroPadded width other ≠ zeroPadded width value := fun heq =>
      hlt.ne (zeroPadded_injective width heq)
    have hconverse : ¬zeroPadded width value < zeroPadded width other ↔
        zeroPadded width other < zeroPadded width value := by
      rw [List.not_lt, List.le_iff_lt_or_eq, or_iff_left hne]
    have hnot : ¬value < other := not_lt_of_gt hlt
    rw [OrderKept, iff_false_right hnot, hconverse, zeroPadded_lt_iff hwidth hlt]
    exact ⟨fun h => ⟨fun hlt => absurd hlt hnot, fun _ => h⟩, fun h => h.2 hlt⟩

theorem inOrder_of_lt {width : ℕ} {value other : ℤ} (hwidth : 0 < width)
    (hvalue : 0 ≤ value) (hlt : value < other) (hother : other.natAbs < 10 ^ width) :
    InOrder width value other := by
  have hvalue' : value.natAbs < 10 ^ width := by omega
  refine .inr (.inl ⟨hvalue, ?_⟩)
  rw [numeralWidth_of_lt hwidth hvalue', numeralWidth_of_lt hwidth hother, Nat.sub_self,
    Nat.pow_zero, Nat.div_one]
  omega

/-- Numbers that fit without a sign are in order. -/
theorem orderKept_of_lt {width : ℕ} {value other : ℤ} (hwidth : 0 < width)
    (hvalue : 0 ≤ value) (hvalue' : value.natAbs < 10 ^ width)
    (hother : 0 ≤ other) (hother' : other.natAbs < 10 ^ width) :
    OrderKept width value other :=
  ⟨fun hlt => inOrder_of_lt hwidth hvalue hlt hother',
    fun hlt => inOrder_of_lt hwidth hother hlt hvalue'⟩

/-! ## The properties -/

/-- A property that is made with the default bounds. -/
def HasDefaultBounds : NumberProperty → Prop
  | .integer property => property.max = 2147483647 ∧ property.min = -2147483648
  | .long _ => True

theorem Property.eq_of_validate {version : PyVersion} {property : Property}
    {dataType type : PyType} {value checked : ℤ}
    (hvalid : property.validate version dataType type value = .ok checked) :
    checked = value := by
  rw [Property.validate] at hvalid
  split at hvalid
  · cases hvalid
  · cases hvalidator : property.validator <;> rw [hvalidator, except_bind_eq_ok] at hvalid
    all_goals
      obtain ⟨_, -, hreturn⟩ := hvalid
      exact (Except.ok.inj hreturn).symm

theorem IntegerProperty.bounds_of_validate {version : PyVersion} {maxint : ℕ}
    {property : IntegerProperty} {value : ℤ}
    (hvalid : property.validate version maxint value = .ok value) :
    property.min ≤ value ∧ value ≤ property.max := by
  rw [IntegerProperty.validate, except_bind_eq_ok] at hvalid
  obtain ⟨checked, hbase, hbounds⟩ := hvalid
  obtain rfl := Property.eq_of_validate hbase
  split at hbounds
  · cases hbounds
  · split at hbounds
    · cases hbounds
    · omega

theorem LongProperty.bounds_of_validate {version : PyVersion} {property : LongProperty}
    {value : ℤ} (hvalid : property.validate version value = .ok value) :
    -9223372036854775808 ≤ value ∧ value ≤ 9223372036854775807 := by
  rw [LongProperty.validate, except_bind_eq_ok] at hvalid
  obtain ⟨checked, hbase, hbounds⟩ := hvalid
  obtain rfl := Property.eq_of_validate hbase
  dsimp only at hbounds
  split at hbounds
  · cases hbounds
  · split at hbounds
    · cases hbounds
    · omega

/-- Two values read back from what is stored, and the texts stored are ordered like
them. -/
def Faithful (version : PyVersion) (prop : NumberProperty) (a b : ℤ) : Prop :=
  ∃ text other, encodeProp version prop a = .text text ∧
    encodeProp version prop b = .text other ∧
    decodeProp version prop text = .ok (.inl a) ∧
    decodeProp version prop other = .ok (.inl b) ∧ (text < other ↔ a < b)

theorem decodeInt_encodeInt (value : ℤ) : decodeInt (encodeInt value) = value := by
  rw [decodeInt, encodeInt, parseInt_zeroPadded]
  exact add_sub_cancel_right ..

theorem decodeLong_encodeLong (value : ℤ) : decodeLong (encodeLong value) = .ok value := by
  rw [decodeLong, encodeLong, parseInt_zeroPadded]
  exact congrArg Except.ok (add_sub_cancel_right ..)

/-- The condition under which two values are stored in their order: on Python 3 the
values of a `LongProperty` go through `encode_int`. -/
def KeepsOrder (version : PyVersion) (prop : NumberProperty) (a b : ℤ) : Prop :=
  match version, prop with
  | .py3, .long _ => OrderKept 10 (a + 2147483648) (b + 2147483648)
  | _, _ => True

theorem faithful_int_iff {version : PyVersion} {prop : NumberProperty} (a b : ℤ)
    (htype : prop.dataType version = .int) :
    Faithful version prop a b ↔ OrderKept 10 (a + 2147483648) (b + 2147483648) := by
  have hencode : ∀ value, encodeProp version prop value = .text (encodeInt value) := by
    intro value
    rw [encodeProp, htype]
    rfl
  have hdecode : ∀ value,
      decodeProp version prop (encodeInt value) = .ok (.inl value) := by
    intro value
    rw [decodeProp, htype]
    exact congrArg (fun value => Except.ok (Sum.inl value)) (decodeInt_encodeInt value)
  rw [Faithful, hencode, hencode, ← orderKept_iff (by decide), add_lt_add_iff_right]
  constructor
  · rintro ⟨_, _, htext, hother, -, -, horder⟩
    obtain rfl := Stored.text.inj htext
    obtain rfl := Stored.text.inj hother
    exact horder
  · exact fun horder => ⟨_, _, rfl, rfl, hdecode a, hdecode b, horder⟩

theorem faithful_long {property : LongProperty} {a b : ℤ}
    (horder : OrderKept 20 (a + 9223372036854775808) (b + 9223372036854775808)) :
    Faithful .py2 (.long property) a b := by
  have hdecode : ∀ value,
      decodeProp .py2 (.long property) (encodeLong value) = .ok (.inl value) := by
    intro value
    change Sum.inl <$> decodeLong (encodeLong value) = _
    rw [decodeLong_encodeLong]
    rfl
  refine ⟨_, _, rfl, rfl, hdecode a, hdecode b, ?_⟩
  rw [← orderKept_iff (by decide), add_lt_add_iff_right] at horder
  exact horder

/-- Integers that a property admits are stored faithfully exactly when their order is
kept. -/
theorem encodeProp_faithful_iff {version : PyVersion} {maxint : ℕ} {prop : NumberProperty}
    {a b : ℤ} (hbounds : HasDefaultBounds prop)
    (ha : prop.validate version maxint a = .ok a)
    (hb : prop.validate version maxint b = .ok b) :
    Faithful version prop a b ↔ KeepsOrder version prop a b := by
  cases prop with
  | integer property =>
      obtain ⟨hmax, hmin⟩ := hbounds
      have ha := IntegerProperty.bounds_of_validate ha
      have hb := IntegerProperty.bounds_of_validate hb
      have hkept : OrderKept 10 (a + 2147483648) (b + 2147483648) :=
        orderKept_of_lt (by decide) (by omega) (by omega) (by omega) (by omega)
      rw [faithful_int_iff a b rfl]
      cases version <;> exact iff_of_true hkept trivial
  | long property =>
      cases version with
      | py2 =>
          have ha := LongProperty.bounds_of_validate ha
          have hb := LongProperty.bounds_of_validate hb
          refine iff_of_true (faithful_long ?_) trivial
          exact orderKept_of_lt (by decide) (by omega) (by omega) (by omega) (by omega)
      | py3 => exact faithful_int_iff a b rfl

/-- A property that is made without options. -/
def plainProperty : Property :=
  { modelClass := "Model", name := "n", default := some 0, validator := none, choices := [] }

theorem encodeProp_faithful_plain :
    Faithful .py3 (.integer { toProperty := plainProperty }) (-2147483648) 2147483647 :=
  (@encodeProp_faithful_iff .py3 0 (.integer { toProperty := plainProperty })
    (-2147483648) 2147483647 ⟨rfl, rfl⟩ rfl rfl).mpr trivial

/-- On Python 3 two small values of a `LongProperty` are stored in the wrong order. -/
theorem encodeProp_not_faithful :
    ¬∀ (version : PyVersion) (maxint : ℕ) (prop : NumberProperty) (a b : ℤ),
      HasDefaultBounds prop → prop.validate version maxint a = .ok a →
        prop.validate version maxint b = .ok b → Faithful version prop a b := by
  intro hclaim
  have hfaithful := hclaim .py3 0 (.long { toProperty := plainProperty })
    (-2147483658) (-2147483649) trivial rfl rfl
  obtain ⟨text, other, htext, hother, -, -, horder⟩ := hfaithful
  obtain rfl := Stored.text.inj htext
  obtain rfl := Stored.text.inj hother
  exact absurd (horder.mpr (by decide)) (by decide +kernel)

end Boto.SDB
