import Boto.Auth.Request
import Boto.HandlerWeight
import Boto.Support.JsonPlain

/-!
# Numbers in documents

Numbers are written into documents in decimal, which is plain, and `int` reads them back.
-/

namespace Boto

open Auth (strInt)

theorem strInt_natCast (n : ℕ) : strInt n = decimal n := by
  rw [strInt, if_neg (by omega), Int.natAbs_natCast]

theorem strInt_chars {value : ℤ} {c : Char} (hc : c ∈ strInt value) :
    c.isDigit = true ∨ c = '-' := by
  rw [strInt] at hc
  split at hc
  · rcases List.mem_cons.mp hc with rfl | hc
    · exact .inr rfl
    · exact .inl (isDigit_of_mem_decimal hc)
  · exact .inl (isDigit_of_mem_decimal hc)

/-- A numeral has nothing that may belong to markup. -/
theorem isPlain_strInt (value : ℤ) : Xml.isPlain (strInt value) = true := by
  have hdigit : ∀ c : Char, c.isDigit = true →
      (Xml.isXmlChar c && c ≠ '<' && c ≠ '&' && c ≠ '\r') = true ∧ c ≠ ']' := by
    intro c hc
    have hne : ∀ d ∈ ['<', '&', '\r', ']'], c ≠ d := by
      rintro d hd rfl
      have hnone : ['<', '&', '\r', ']'].all (fun d => !d.isDigit) = true := by decide
      have hnot := List.all_eq_true.mp hnone c hd
      rw [hc] at hnot
      cases hnot
    have hxml : Xml.isXmlChar c = true := by
      rw [Char.isDigit, Bool.and_eq_true, decide_eq_true_eq, decide_eq_true_eq] at hc
      have hlow : 48 ≤ c.toNat := hc.1
      have hhigh : c.toNat ≤ 57 := hc.2
      have hrange : Xml.inRange c 0x20 0xD7FF = true := by
        rw [Xml.inRange, decide_eq_true (by omega), decide_eq_true (by omega)]
        rfl
      simp [Xml.isXmlChar, hrange]
    simp [hxml, hne '<' (by simp), hne '&' (by simp), hne '\r' (by simp),
      hne ']' (by simp)]
  refine Xml.isPlain_of_forall fun c hc => ?_
  rcases strInt_chars hc with hc | rfl
  · exact hdigit c hc
  · decide

theorem weight_strInt (value : ℤ) : Xml.weight (strInt value) = 0 := by
  refine Xml.weight_eq_zero fun c hc => ?_
  have hne : ∀ d ∈ ['!', '?', '&', ';', '\r'], c ≠ d := by
    rintro d hd rfl
    have hnone : ['!', '?', '&', ';', '\r'].all (fun d => !d.isDigit && d != '-') = true := by
      decide
    have hnot := List.all_eq_true.mp hnone c hd
    rcases strInt_chars hc with hdigit | hdash
    · simp [hdigit] at hnot
    · simp [hdash] at hnot
  simp [Xml.isMark, hne '!' (by simp), hne '?' (by simp), hne '&' (by simp),
    hne ';' (by simp), hne '\r' (by simp)]

/-- `int` reads back what `'%d'` wrote. -/
theorem parseInt_strInt (value : ℤ) : parseInt (strInt value) = .ok value := by
  by_cases hneg : value < 0
  · have hstrip : strip ('-' :: decimal value.natAbs) = '-' :: decimal value.natAbs := by
      refine strip_eq_self fun c hc => ?_
      rcases List.mem_cons.mp hc with rfl | hc
      · decide
      · exact isSpace_of_isDigit (isDigit_of_mem_decimal hc)
    have hvalue : -((value.natAbs : ℕ) : ℤ) = value := by omega
    rw [strInt, if_pos hneg, parseInt, hstrip]
    change ((fun n : ℤ => -n) <$> do
      let n ← parseDigits (decimal value.natAbs)
      pure (n : ℤ)) = _
    rw [parseDigits_decimal]
    change Except.ok (-((value.natAbs : ℕ) : ℤ)) = _
    rw [hvalue]
  · have hvalue : ((value.natAbs : ℕ) : ℤ) = value := by omega
    rw [strInt, if_neg hneg, parseInt_decimal, hvalue]

end Boto

/-!
## Numbers in JSON documents

The numerals that Python writes are numbers of JSON, and different for different integers.
-/

namespace Boto

open Auth (strInt)

theorem head?_decimal_ne_zero {n : ℕ} (hn : 0 < n) : (decimal n).head? ≠ some '0' := by
  induction n using Nat.strong_induction_on with
  | _ n ih =>
      by_cases hlt : n < 10
      · have hall : ∀ n : Fin 10, 0 < n.val → (decimal n).head? ≠ some '0' := by decide
        exact hall ⟨n, hlt⟩ hn
      · have hhead := ih (n / 10) (by omega) (by omega)
        rw [decimal, Nat.toDigits_of_base_le (by decide) (by omega),
          List.head?_append_of_ne_nil _ Nat.toDigits_ne_nil]
        exact hhead

theorem isUnsigned_decimal (n : ℕ) : Json.isUnsigned (decimal n) = true := by
  have hdigits : ∀ c ∈ decimal n, c.isDigit = true := fun c hc => isDigit_of_mem_decimal hc
  have htake : (decimal n).takeWhile Char.isDigit = decimal n :=
    List.takeWhile_eq_self_iff.mpr hdigits
  have hdrop : (decimal n).dropWhile Char.isDigit = [] :=
    List.dropWhile_eq_nil_iff.mpr hdigits
  have hlead : (decimal n).length = 1 ∨ (decimal n).head? ≠ some '0' := by
    rcases Nat.eq_zero_or_pos n with rfl | hn
    · exact .inl rfl
    · exact .inr (head?_decimal_ne_zero hn)
  simp [Json.isUnsigned, htake, hdrop, hlead, decimal_ne_nil]

theorem isNumber_strInt (value : ℤ) : Json.isNumber (strInt value) = true := by
  rw [strInt]
  split
  · exact isUnsigned_decimal _
  · have hunsigned := isUnsigned_decimal value.natAbs
    rw [Json.isNumber]
    · exact hunsigned
    · intro text htext
      have hdash := isDigit_of_mem_decimal (htext ▸ List.mem_cons_self)
      cases hdash

theorem isNumberChar_strInt {value : ℤ} {c : Char} (hc : c ∈ strInt value) :
    Json.isNumberChar c = true := by
  rcases strInt_chars hc with hdigit | rfl
  · simp [Json.isNumberChar, hdigit]
  · rfl

theorem reads_strInt (value : ℤ) : Json.Reads (.number (strInt value)) (strInt value) :=
  Json.reads_number (isNumber_strInt value) fun _ hc => isNumberChar_strInt hc

theorem strInt_injective : Function.Injective strInt := by
  intro value other heq
  have hread := congrArg parseInt heq
  rw [parseInt_strInt, parseInt_strInt] at hread
  exact Except.ok.inj hread

end Boto
