import Boto.Support.Utf8
import Mathlib.Data.List.Lex

/-!
# The order of quoted text

Texts are ordered by code points, and so is their UTF-8 form by bytes.  Escapes keep the
order of the bytes, but a percent sign comes before every character that is not escaped.
-/

namespace PercentEncoding

/-! ## Where lists differ -/

/-- Where two lists first differ, the first one has the smaller entry. -/
def Diverges {α : Type*} [LT α] (xs ys : List α) : Prop :=
  ∃ front b b' rest rest', xs = front ++ b :: rest ∧ ys = front ++ b' :: rest' ∧ b < b'

section

variable {α : Type*} [LT α] {xs ys : List α}

theorem Diverges.head {b b' : α} (hlt : b < b') : Diverges (b :: xs) (b' :: ys) :=
  ⟨[], b, b', xs, ys, rfl, rfl, hlt⟩

theorem Diverges.append_left (hdiverges : Diverges xs ys) (front : List α) :
    Diverges (front ++ xs) (front ++ ys) := by
  obtain ⟨middle, b, b', rest, rest', rfl, rfl, hlt⟩ := hdiverges
  exact ⟨front ++ middle, b, b', rest, rest', (List.append_assoc ..).symm,
    (List.append_assoc ..).symm, hlt⟩

theorem Diverges.append_right (hdiverges : Diverges xs ys) (back back' : List α) :
    Diverges (xs ++ back) (ys ++ back') := by
  obtain ⟨front, b, b', rest, rest', rfl, rfl, hlt⟩ := hdiverges
  exact ⟨front, b, b', rest ++ back, rest' ++ back', by simp, by simp, hlt⟩

theorem Diverges.lt (hdiverges : Diverges xs ys) : xs < ys := by
  obtain ⟨front, b, b', rest, rest', rfl, rfl, hlt⟩ := hdiverges
  exact List.append_left_lt (List.cons_lt_cons_iff.mpr (.inl hlt))

end

/-! ## Characters -/

theorem diverges_ofNat {m n : ℕ} {xs ys : List UInt8} (hm : m < 256) (hn : n < 256)
    (hle : m ≤ n) (hrest : m = n → Diverges xs ys) :
    Diverges (UInt8.ofNat m :: xs) (UInt8.ofNat n :: ys) := by
  rcases Nat.lt_or_eq_of_le hle with hlt | rfl
  · refine .head (UInt8.lt_iff_toNat_lt.mpr ?_)
    rw [UInt8.toNat_ofNat', UInt8.toNat_ofNat']
    omega
  · exact (hrest rfl).append_left [UInt8.ofNat m]

/-- The UTF-8 forms of characters are in the order of their code points. -/
theorem diverges_encodeChar {c d : Char} (hlt : c < d) :
    Diverges (String.utf8EncodeChar c) (String.utf8EncodeChar d) := by
  have hlt : c.val.toNat < d.val.toNat := hlt
  have hd := d.valid
  have hlarge : d.val.toNat < 0x110000 := by
    rcases hd with hd | ⟨-, hd⟩
    · exact Nat.lt_trans hd (by decide)
    · exact hd
  rw [String.utf8EncodeChar, String.utf8EncodeChar]
  -- A longer form has a greater first byte, and in forms of one length the first digit
  -- that differs decides.
  split
  · split
    · exact diverges_ofNat (by omega) (by omega) (by omega) (by omega)
    · split
      · exact diverges_ofNat (by omega) (by omega) (by omega) (by omega)
      · split <;> exact diverges_ofNat (by omega) (by omega) (by omega) (by omega)
  · split
    · split
      · omega
      · split
        · refine diverges_ofNat (by omega) (by omega) (by omega) fun hfirst => ?_
          exact diverges_ofNat (by omega) (by omega) (by omega) (by omega)
        · split <;> exact diverges_ofNat (by omega) (by omega) (by omega) (by omega)
    · split
      · split
        · omega
        · split
          · omega
          · split
            · refine diverges_ofNat (by omega) (by omega) (by omega) fun hfirst => ?_
              refine diverges_ofNat (by omega) (by omega) (by omega) fun hnext => ?_
              exact diverges_ofNat (by omega) (by omega) (by omega) (by omega)
            · exact diverges_ofNat (by omega) (by omega) (by omega) (by omega)
      · split
        · omega
        · split
          · omega
          · split
            · omega
            · refine diverges_ofNat (by omega) (by omega) (by omega) fun hfirst => ?_
              refine diverges_ofNat (by omega) (by omega) (by omega) fun hnext => ?_
              refine diverges_ofNat (by omega) (by omega) (by omega) fun hnext => ?_
              exact diverges_ofNat (by omega) (by omega) (by omega) (by omega)

/-! ## Quoted characters -/

/-- The characters that are never escaped. -/
def isUnreservedChar (c : Char) : Bool :=
  c.isAlphanum || ['_', '.', '-', '~'].contains c

theorem isUnreserved_eq (b : UInt8) : isUnreserved b = isUnreservedChar (Char.ofNat b.toNat) :=
  rfl

theorem IsQuoted.of_unreserved {c : Char} (hc : isUnreservedChar c = true) : IsQuoted c := by
  rcases Bool.or_eq_true_iff.mp hc with hc | hc
  · exact .inl hc
  · exact .inr (List.mem_append_left ['%'] (List.contains_iff_mem.mp hc))

theorem IsQuoted.toNat_lt {c : Char} (hc : IsQuoted c) : c.toNat < 128 :=
  Nat.lt_succ_of_le (UInt32.le_iff_toNat_le.mp hc.ascii)

theorem quote_encodeChar_of_unreserved {c : Char} (hc : isUnreservedChar c = true) :
    quote [] (String.utf8EncodeChar c) = [c] := by
  have hascii := (IsQuoted.of_unreserved hc).toNat_lt
  rw [encodeChar_of_ascii hascii, quote, List.flatMap_singleton, quoteByte, isUnreserved_eq,
    toNat_asciiByte hascii, Char.ofNat_toNat, hc]
  rfl

theorem quote_encodeChar_of_reserved {c : Char} (hc : isUnreservedChar c = false) :
    quote [] (String.utf8EncodeChar c) = (String.utf8EncodeChar c).flatMap escape := by
  have hlarge : ∀ b : UInt8, 128 ≤ b.toNat → isUnreserved b = false := by
    apply forall_byte
    decide +kernel
  rw [quote]
  refine List.flatMap_congr fun b hb => ?_
  have hb : isUnreserved b = false := by
    rcases toNat_of_mem_encodeChar hb with ⟨hsingle, hsmall⟩ | hb
    · have hchar : c = Char.ofNat b.toNat := by
        have hdecode := utf8DecodeChar?_encodeChar_append c []
        rw [hsingle, ← encodeChar_ofNat hsmall, utf8DecodeChar?_encodeChar_append] at hdecode
        exact (Option.some.inj hdecode).symm
      rw [isUnreserved_eq, ← hchar, hc]
    · exact hlarge b hb
  rw [quoteByte, hb]
  rfl

theorem diverges_escape {b b' : UInt8} (hlt : b < b') : Diverges (escape b) (escape b') := by
  have hlt := UInt8.lt_iff_toNat_lt.mp hlt
  have hb := b.toNat_lt
  have hb' := b'.toNat_lt
  have hdigit : ∀ m < 16, ∀ n < 16, m < n → hexDigit m < hexDigit n := by
    decide
  by_cases hhigh : b.toNat / 16 = b'.toNat / 16
  · rw [escape, escape, hhigh]
    exact (Diverges.head (hdigit _ (by omega) _ (by omega) (by omega))).append_left
      ['%', hexDigit (b'.toNat / 16)]
  · exact (Diverges.head (hdigit _ (by omega) _ (by omega) (by omega))).append_left ['%']

/-- Escapes keep the order of bytes. -/
theorem diverges_escapes {xs ys : List UInt8} (hdiverges : Diverges xs ys) :
    Diverges (xs.flatMap escape) (ys.flatMap escape) := by
  obtain ⟨front, b, b', rest, rest', rfl, rfl, hlt⟩ := hdiverges
  rw [List.flatMap_append, List.flatMap_append, List.flatMap_cons, List.flatMap_cons]
  exact ((diverges_escape hlt).append_right _ _).append_left _

theorem percent_lt_of_unreserved {c : Char} (hc : isUnreservedChar c = true) : '%' < c := by
  have hall : ∀ n < 128, isUnreservedChar (Char.ofNat n) = true → '%' < Char.ofNat n := by
    decide +kernel
  have hlt := hall c.toNat (IsQuoted.of_unreserved hc).toNat_lt
  rw [Char.ofNat_toNat] at hlt
  exact hlt hc

theorem exists_quote_of_reserved {c : Char} (hc : isUnreservedChar c = false) :
    ∃ rest, quote [] (String.utf8EncodeChar c) = '%' :: rest := by
  obtain ⟨b, bytes, hbytes⟩ := List.exists_cons_of_ne_nil (@String.utf8EncodeChar_ne_nil c)
  rw [quote_encodeChar_of_reserved hc, hbytes]
  exact ⟨_, rfl⟩

/-- Quoting keeps the order of two characters unless only the first one stays as it is, and
otherwise reverses it. -/
theorem diverges_quote_encodeChar {c d : Char} (hlt : c < d) :
    if isUnreservedChar c = true → isUnreservedChar d = true then
      Diverges (quote [] (String.utf8EncodeChar c)) (quote [] (String.utf8EncodeChar d))
    else
      Diverges (quote [] (String.utf8EncodeChar d)) (quote [] (String.utf8EncodeChar c)) := by
  cases hc : isUnreservedChar c <;> cases hd : isUnreservedChar d
  · rw [if_pos (by decide), quote_encodeChar_of_reserved hc, quote_encodeChar_of_reserved hd]
    exact diverges_escapes (diverges_encodeChar hlt)
  · obtain ⟨rest, hrest⟩ := exists_quote_of_reserved hc
    rw [if_pos (by decide), hrest, quote_encodeChar_of_unreserved hd]
    exact .head (percent_lt_of_unreserved hd)
  · obtain ⟨rest, hrest⟩ := exists_quote_of_reserved hd
    rw [if_neg (by decide), hrest, quote_encodeChar_of_unreserved hc]
    exact .head (percent_lt_of_unreserved hc)
  · rw [if_pos (by decide), quote_encodeChar_of_unreserved hc,
      quote_encodeChar_of_unreserved hd]
    exact .head hlt

/-! ## Quoted texts -/

theorem quote_encode_append (text other : List Char) :
    quote [] (encode (text ++ other)) = quote [] (encode text) ++ quote [] (encode other) := by
  rw [quote, encode, List.flatMap_append, List.flatMap_append]
  rfl

/-- Quoting keeps the order of two texts exactly when it keeps that of the characters where
they first differ. -/
theorem quote_lt_quote_iff (front rest rest' : List Char) {c d : Char} (hlt : c < d) :
    quote [] (encode (front ++ c :: rest)) < quote [] (encode (front ++ d :: rest')) ↔
      (isUnreservedChar c = true → isUnreservedChar d = true) := by
  have hchars := diverges_quote_encodeChar hlt
  rw [quote_encode_append, quote_encode_append, quote_encode_cons, quote_encode_cons]
  split at hchars
  · rename_i hkept
    exact iff_of_true ((hchars.append_right _ _).append_left _).lt hkept
  · rename_i hkept
    refine iff_of_false (fun hless => ?_) hkept
    exact List.lt_asymm hless ((hchars.append_right _ _).append_left _).lt

/-- A text comes before another one that it starts, also when both are quoted. -/
theorem quote_lt_quote_append (text rest : List Char) (c : Char) :
    quote [] (encode text) < quote [] (encode (text ++ c :: rest)) := by
  have hne : quote [] (String.utf8EncodeChar c) ≠ [] := by
    cases hc : isUnreservedChar c
    · obtain ⟨after, hafter⟩ := exists_quote_of_reserved hc
      simp [hafter]
    · simp [quote_encodeChar_of_unreserved hc]
  obtain ⟨d, after, hafter⟩ := List.exists_cons_of_ne_nil hne
  rw [quote_encode_append, quote_encode_cons, hafter, List.cons_append]
  have hlt := @List.append_left_lt _ _ (quote [] (encode text)) _ _
    (List.nil_lt_cons d (after ++ quote [] (encode rest)))
  rwa [List.append_nil] at hlt

end PercentEncoding
