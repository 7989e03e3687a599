import Mathlib.Algebra.Ring.Nat
import Mathlib.Data.List.Lex
import Mathlib.Data.Nat.Notation
import Mathlib.Tactic.Common

/-!
# The order of numerals as texts

Texts are compared character by character.  Strings of decimal digits of one length are
ordered like the numbers they denote.  Of two lengths, the longer one is compared by its
first digits.
-/

namespace DigitOrder

open Nat (ofDigitChars)

/-- Every character is a decimal digit. -/
def IsDigits (text : List Char) : Prop :=
  ∀ c ∈ text, c.isDigit = true

/-- The value of a decimal digit. -/
def digit (c : Char) : ℕ := c.toNat - '0'.toNat

theorem toNat_eq {c : Char} (hc : c.isDigit = true) :
    c.toNat = 48 + digit c ∧ digit c < 10 := by
  obtain ⟨hle, hle'⟩ := Char.isDigit_iff_toNat.mp hc
  have hzero : '0'.toNat = 48 := rfl
  have hnine : '9'.toNat = 57 := rfl
  rw [digit]
  omega

theorem char_lt_iff {c d : Char} (hc : c.isDigit = true) (hd : d.isDigit = true) :
    c < d ↔ digit c < digit d := by
  have hc' := toNat_eq hc
  have hd' := toNat_eq hd
  have hlt : c < d ↔ c.toNat < d.toNat := Iff.rfl
  rw [hlt]
  omega

theorem char_eq_iff {c d : Char} (hc : c.isDigit = true) (hd : d.isDigit = true) :
    c = d ↔ digit c = digit d := by
  have hc' := toNat_eq hc
  have hd' := toNat_eq hd
  rw [← Char.toNat_inj]
  omega

theorem ofDigitChars_cons_eq (c : Char) (text : List Char) :
    ofDigitChars 10 (c :: text) 0 =
      10 ^ text.length * digit c + ofDigitChars 10 text 0 := by
  rw [Nat.ofDigitChars_cons, Nat.ofDigitChars_eq_ofDigitChars_zero, Nat.mul_zero,
    Nat.zero_add, digit]

theorem ofDigitChars_lt {text : List Char} (htext : IsDigits text) :
    ofDigitChars 10 text 0 < 10 ^ text.length := by
  induction text with
  | nil => simp
  | cons c text ih =>
      obtain ⟨hc, htext⟩ := List.forall_mem_cons.mp htext
      have hrest := ih htext
      obtain ⟨-, hdigit⟩ := toNat_eq hc
      calc ofDigitChars 10 (c :: text) 0
          = 10 ^ text.length * digit c + ofDigitChars 10 text 0 :=
            ofDigitChars_cons_eq c text
        _ < 10 ^ text.length * digit c + 10 ^ text.length := by omega
        _ = 10 ^ text.length * (digit c + 1) := by rw [Nat.mul_succ]
        _ ≤ 10 ^ text.length * 10 := Nat.mul_le_mul_left _ hdigit
        _ = 10 ^ (c :: text).length := by rw [List.length_cons, Nat.pow_succ]

/-- Numbers below a unit do not change the order of its multiples. -/
theorem mul_add_lt_iff {unit a b low low' : ℕ} (hlow : low < unit) (hlow' : low' < unit) :
    unit * a + low < unit * b + low' ↔ a < b ∨ a = b ∧ low < low' := by
  rcases Nat.lt_trichotomy a b with hlt | rfl | hlt
  · have hle := Nat.mul_le_mul_left unit (Nat.succ_le_of_lt hlt)
    rw [Nat.mul_succ] at hle
    omega
  · omega
  · have hle := Nat.mul_le_mul_left unit (Nat.succ_le_of_lt hlt)
    rw [Nat.mul_succ] at hle
    omega

/-- The longer of two numerals comes first if its first digits are a smaller number. -/
theorem lt_iff_of_length_le {text other : List Char} (htext : IsDigits text)
    (hother : IsDigits other) (hlength : other.length ≤ text.length) :
    text < other ↔
      ofDigitChars 10 text 0 / 10 ^ (text.length - other.length) <
        ofDigitChars 10 other 0 := by
  induction other generalizing text with
  | nil => simp
  | cons d other ih =>
      cases text with
      | nil => simp at hlength
      | cons c text =>
          obtain ⟨hc, htext⟩ := List.forall_mem_cons.mp htext
          obtain ⟨hd, hother⟩ := List.forall_mem_cons.mp hother
          have hlength' : other.length ≤ text.length := Nat.le_of_succ_le_succ hlength
          have hunit : 10 ^ text.length =
              10 ^ (text.length - other.length) * 10 ^ other.length := by
            rw [← Nat.pow_add, Nat.sub_add_cancel hlength']
          have hpos : 0 < 10 ^ (text.length - other.length) := Nat.pow_pos (by decide)
          have hlow : ofDigitChars 10 text 0 / 10 ^ (text.length - other.length) <
              10 ^ other.length := by
            rw [Nat.div_lt_iff_lt_mul hpos, Nat.mul_comm, ← hunit]
            exact ofDigitChars_lt htext
          have hvalue : ofDigitChars 10 (c :: text) 0 /
              10 ^ ((c :: text).length - (d :: other).length) =
                10 ^ other.length * digit c +
                  ofDigitChars 10 text 0 / 10 ^ (text.length - other.length) := by
            rw [ofDigitChars_cons_eq, hunit, Nat.mul_assoc, List.length_cons,
              List.length_cons, Nat.succ_sub_succ, Nat.mul_add_div hpos]
          rw [hvalue, ofDigitChars_cons_eq,
            mul_add_lt_iff hlow (ofDigitChars_lt hother), ← ih htext hother hlength',
            List.cons_lt_cons_iff, char_lt_iff hc hd, char_eq_iff hc hd]

/-- Numerals of one length are ordered like their values. -/
theorem lt_iff_of_length_eq {text other : List Char} (htext : IsDigits text)
    (hother : IsDigits other) (hlength : text.length = other.length) :
    text < other ↔ ofDigitChars 10 text 0 < ofDigitChars 10 other 0 := by
  rw [lt_iff_of_length_le htext hother hlength.ge, hlength, Nat.sub_self, Nat.pow_zero,
    Nat.div_one]

/-- The shorter of two numerals comes first unless the first digits of the longer one
are a smaller number. -/
theorem lt_iff_of_length_lt {text other : List Char} (htext : IsDigits text)
    (hother : IsDigits other) (hlength : text.length < other.length) :
    text < other ↔
      ofDigitChars 10 text 0 ≤
        ofDigitChars 10 other 0 / 10 ^ (other.length - text.length) := by
  have hconverse := lt_iff_of_length_le hother htext hlength.le
  have hne : text ≠ other := by
    rintro rfl
    exact lt_irrefl _ hlength
  rw [← not_lt, ← hconverse, List.not_lt, List.le_iff_lt_or_eq]
  exact ⟨.inl, fun hle => hle.resolve_right hne⟩

/-- Texts are compared by their beginnings first. -/
theorem append_lt_append_iff {start start' rest rest' : List Char}
    (hlength : start.length = start'.length) :
    start ++ rest < start' ++ rest' ↔ start < start' ∨ start = start' ∧ rest < rest' := by
  induction start generalizing start' with
  | nil =>
      obtain rfl := List.length_eq_zero_iff.mp hlength.symm
      simp
  | cons c start ih =>
      cases start' with
      | nil => cases hlength
      | cons d start' =>
          rw [List.cons_append, List.cons_append, List.cons_lt_cons_iff,
            ih (Nat.succ.inj hlength), List.cons_lt_cons_iff, List.cons.injEq]
          tauto

end DigitOrder
