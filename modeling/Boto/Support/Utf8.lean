import Boto.Support.PercentEncoding

/-!
# Splitting encoded text

An ASCII byte is never part of a longer character, so bytes can be decoded on both sides
of it, and text can be unquoted on both sides of a character that is part of no escape.
-/

namespace PercentEncoding

/-! ## Characters at the start of bytes -/

theorem toNat_of_mem_encodeChar {c : Char} {b : UInt8} (hb : b ∈ String.utf8EncodeChar c) :
    String.utf8EncodeChar c = [b] ∧ b.toNat < 128 ∨ 128 ≤ b.toNat := by
  have hc := c.val.toNat_lt
  rw [String.utf8EncodeChar] at hb ⊢
  split at hb
  · rename_i hle
    obtain rfl := List.mem_singleton.mp hb
    rw [if_pos hle]
    left
    refine ⟨rfl, ?_⟩
    rw [UInt8.toNat_ofNat']
    omega
  · right
    split at hb
    · simp only [List.mem_cons, List.not_mem_nil, or_false] at hb
      rcases hb with rfl | rfl <;> rw [UInt8.toNat_ofNat'] <;> omega
    · split at hb
      · simp only [List.mem_cons, List.not_mem_nil, or_false] at hb
        rcases hb with rfl | rfl | rfl <;> rw [UInt8.toNat_ofNat'] <;> omega
      · simp only [List.mem_cons, List.not_mem_nil, or_false] at hb
        rcases hb with rfl | rfl | rfl | rfl <;> rw [UInt8.toNat_ofNat'] <;> omega

theorem decodeChar?_eq_some_iff {bytes : List UInt8} {c : Char} :
    ByteArray.utf8DecodeChar? ⟨⟨bytes⟩⟩ 0 = some c ↔
      ∃ rest, bytes = String.utf8EncodeChar c ++ rest := by
  constructor
  · intro hdecode
    obtain ⟨⟨⟨rest⟩⟩, heq⟩ := ByteArray.exists_of_utf8DecodeChar?_eq_some hdecode
    refine ⟨rest, ?_⟩
    have hdata := congrArg (fun bytes => bytes.data.toList) heq
    simpa using hdata
  · rintro ⟨rest, rfl⟩
    exact utf8DecodeChar?_encodeChar_append c rest

/-- Before an ASCII byte there is the same character at the start as without it. -/
theorem decodeChar?_append_cons {front back : List UInt8} {b : UInt8} (hne : front ≠ [])
    (hb : b.toNat < 128) :
    ByteArray.utf8DecodeChar? ⟨⟨front ++ b :: back⟩⟩ 0 =
      ByteArray.utf8DecodeChar? ⟨⟨front⟩⟩ 0 := by
  apply Option.ext
  intro c
  rw [decodeChar?_eq_some_iff, decodeChar?_eq_some_iff]
  constructor
  · rintro ⟨rest, heq⟩
    rcases List.append_eq_append_iff.mp heq with ⟨middle, henc, hback⟩ | ⟨middle, hfront, -⟩
    · cases middle with
      | nil => exact ⟨[], by simpa using henc.symm⟩
      | cons first middle =>
          obtain rfl : b = first := by simpa using congrArg List.head? hback
          rcases @toNat_of_mem_encodeChar c b (by simp [henc]) with
            ⟨hsingle, -⟩ | hlarge
          · rw [henc] at hsingle
            have hlength := congrArg List.length hsingle
            have hpos := List.length_pos_iff.mpr hne
            simp only [List.length_append, List.length_cons, List.length_nil] at hlength
            omega
          · omega
    · exact ⟨middle, hfront⟩
  · rintro ⟨rest, rfl⟩
    exact ⟨rest ++ b :: back, by rw [List.append_assoc]⟩

/-! ## Decoding on both sides of an ASCII byte -/

theorem replacedLength_pos (bytes : List UInt8) : 0 < replacedLength bytes := by
  rw [replacedLength.eq_def]
  split
  · split
    · split
      · split <;> decide
      · decide
    · decide
  · decide

theorem decodeWith_congr {bytes : List UInt8} {fuel fuel' : ℕ}
    (hfuel : bytes.length ≤ fuel) (hfuel' : bytes.length ≤ fuel') :
    decodeWith fuel bytes = decodeWith fuel' bytes := by
  induction fuel generalizing fuel' bytes with
  | zero =>
      obtain rfl := List.length_eq_zero_iff.mp (Nat.le_zero.mp hfuel)
      cases fuel' <;> rfl
  | succ fuel ih =>
      cases bytes with
      | nil => cases fuel' <;> rfl
      | cons first rest =>
          rw [List.length_cons] at hfuel hfuel'
          obtain ⟨fuel', rfl⟩ : ∃ n, fuel' = n + 1 := ⟨fuel' - 1, by omega⟩
          rw [decodeWith, decodeWith]
          split
          · rename_i c _
            have hpos := c.utf8Size_pos
            rw [ih]
            · simp only [List.length_drop, List.length_cons]
              omega
            · simp only [List.length_drop, List.length_cons]
              omega
          · have hpos := replacedLength_pos (first :: rest)
            rw [ih]
            · simp only [List.length_drop, List.length_cons]
              omega
            · simp only [List.length_drop, List.length_cons]
              omega

theorem decode_encodeChar_append (c : Char) (rest : List UInt8) :
    decode (String.utf8EncodeChar c ++ rest) = c :: decode rest := by
  have hpos := c.utf8Size_pos
  have hlength : (String.utf8EncodeChar c).length = c.utf8Size :=
    String.length_utf8EncodeChar c
  have hdecode := utf8DecodeChar?_encodeChar_append c rest
  have hdrop : (String.utf8EncodeChar c ++ rest).drop c.utf8Size = rest := by
    rw [← hlength, List.drop_left]
  obtain ⟨first, others, heq⟩ : ∃ first others, String.utf8EncodeChar c ++ rest =
      first :: others := by
    rw [← List.ne_nil_iff_exists_cons, ← List.length_pos_iff, List.length_append]
    omega
  rw [decode, heq, List.length_cons, decodeWith, ← heq, hdecode]
  dsimp only
  rw [hdrop, decode]
  refine congrArg _ (decodeWith_congr ?_ (Nat.le_refl _))
  have hlength' := congrArg List.length heq
  simp only [List.length_append, List.length_cons] at hlength'
  omega

theorem decode_of_none {bytes : List UInt8} (hne : bytes ≠ [])
    (hnone : ByteArray.utf8DecodeChar? ⟨⟨bytes⟩⟩ 0 = none) :
    decode bytes = '\ufffd' :: decode (bytes.drop (replacedLength bytes)) := by
  obtain ⟨first, rest, rfl⟩ := List.exists_cons_of_ne_nil hne
  have hpos := replacedLength_pos (first :: rest)
  rw [decode, List.length_cons, decodeWith, hnone]
  dsimp only
  rw [decode]
  refine congrArg _ (decodeWith_congr ?_ (Nat.le_refl _))
  simp only [List.length_drop, List.length_cons]
  omega

theorem encodeChar_ofNat {b : UInt8} (hb : b.toNat < 128) :
    String.utf8EncodeChar (Char.ofNat b.toNat) = [b] := by
  have hall : ∀ n < 128, String.utf8EncodeChar (Char.ofNat n) = [UInt8.ofNat n] := by
    decide +kernel
  rw [hall _ hb, UInt8.ofNat_toNat]

theorem toNat_asciiByte {c : Char} (hc : c.toNat < 128) : (asciiByte c).toNat = c.toNat := by
  change (UInt8.ofNat c.toNat).toNat = c.toNat
  rw [UInt8.toNat_ofNat']
  omega

theorem encodeChar_of_ascii {c : Char} (hc : c.toNat < 128) :
    String.utf8EncodeChar c = [asciiByte c] := by
  have hbyte := @encodeChar_ofNat (asciiByte c) (by rwa [toNat_asciiByte hc])
  rwa [toNat_asciiByte hc, Char.ofNat_toNat] at hbyte

theorem replacedLength_append_cons {front back : List UInt8} {b : UInt8} (hne : front ≠ [])
    (hb : b.toNat < 128) : replacedLength (front ++ b :: back) = replacedLength front ∧
      replacedLength front ≤ front.length := by
  have hlow : ∀ low : UInt8, 0x80 ≤ low.toNat → ¬low ≤ b := by
    intro low hlow hle
    have := UInt8.le_iff_toNat_le.mp hle
    omega
  match front, hne with
  | [first], _ =>
      have hsecond : isSecondByte first b = false := by
        rw [isSecondByte]
        split
        rename_i low high heq
        have hlarge : 0x80 ≤ low.toNat := by
          have hcases : low = 0xA0 ∨ low = 0x80 ∨ low = 0x90 := by
            split at heq <;> (try split at heq) <;> (try split at heq) <;>
              (try split at heq) <;> simp_all
          rcases hcases with rfl | rfl | rfl <;> decide
        rw [decide_eq_false (hlow low hlarge), Bool.false_and]
      refine ⟨?_, Nat.le_refl 1⟩
      change replacedLength (first :: b :: back) = 1
      simp [replacedLength.eq_def, hsecond]
  | [first, second], _ =>
      have hthird : ¬(0x80 : UInt8) ≤ b := hlow _ (by decide)
      refine ⟨?_, ?_⟩
      · rw [List.cons_append, List.singleton_append, replacedLength, replacedLength]
        simp [hthird]
      · rw [replacedLength]
        split <;> simp
  | first :: second :: third :: rest, _ =>
      refine ⟨rfl, ?_⟩
      rw [replacedLength, List.length_cons, List.length_cons, List.length_cons]
      split
      · split <;> omega
      · omega

/-- Bytes are decoded on both sides of an ASCII byte. -/
theorem decode_append_cons {b : UInt8} (hb : b.toNat < 128) (front back : List UInt8) :
    decode (front ++ b :: back) = decode front ++ Char.ofNat b.toNat :: decode back := by
  induction hlength : front.length using Nat.strongRecOn generalizing front with
  | ind n ih =>
      subst hlength
      by_cases hne : front = []
      · subst hne
        have hchar := decode_encodeChar_append (Char.ofNat b.toNat) back
        rw [encodeChar_ofNat hb] at hchar
        exact hchar
      · have hsame := @decodeChar?_append_cons front back b hne hb
        cases hdecode : ByteArray.utf8DecodeChar? ⟨⟨front⟩⟩ 0 with
        | some c =>
            obtain ⟨rest, rfl⟩ := decodeChar?_eq_some_iff.mp hdecode
            have hpos := c.utf8Size_pos
            have hlength := String.length_utf8EncodeChar c
            rw [List.append_assoc, decode_encodeChar_append, decode_encodeChar_append,
              ih rest.length (by rw [List.length_append]; omega) rest rfl,
              List.cons_append]
        | none =>
            obtain ⟨hreplaced, hle⟩ := @replacedLength_append_cons front back b hne hb
            have hpos := replacedLength_pos front
            have hfront := List.length_pos_iff.mpr hne
            rw [decode_of_none (by simp) (hsame.trans hdecode), hreplaced,
              List.drop_append_of_le_length hle, decode_of_none hne hdecode,
              ih (front.drop (replacedLength front)).length
                (by rw [List.length_drop]; omega) _ rfl, List.cons_append]

/-! ## Unquoting on both sides of a character -/

/-- The byte of the escape after a percent sign, and what follows it. -/
def escaped? : List Char → Option (UInt8 × List Char)
  | high :: low :: rest =>
      match hexValue high, hexValue low with
      | some x, some y => some (UInt8.ofNat (16 * x + y), rest)
      | _, _ => none
  | _ => none

theorem unquoteToBytes_percent (rest : List Char) :
    unquoteToBytes ('%' :: rest) =
      match escaped? rest with
      | some (b, rest) => b :: unquoteToBytes rest
      | none => asciiByte '%' :: unquoteToBytes rest := by
  match rest with
  | [] => rfl
  | [d] => rfl
  | high :: low :: rest =>
      rw [unquoteToBytes, if_pos rfl, escaped?]
      cases hexValue high <;> cases hexValue low <;> rfl

theorem escaped?_append_cons {c : Char} (hhex : hexValue c = none) (front back : List Char) :
    escaped? (front ++ c :: back) =
      (escaped? front).map fun escape => (escape.1, escape.2 ++ c :: back) := by
  match front with
  | [] =>
      cases back with
      | nil => rfl
      | cons d back =>
          change escaped? (c :: d :: back) = none
          rw [escaped?, hhex]
  | [high] =>
      change escaped? (high :: c :: back) = none
      rw [escaped?, hhex]
      cases hexValue high <;> rfl
  | high :: low :: rest =>
      rw [List.cons_append, List.cons_append, escaped?, escaped?]
      cases hexValue high <;> cases hexValue low <;> rfl

theorem length_of_escaped? {text rest : List Char} {b : UInt8}
    (hescaped : escaped? text = some (b, rest)) : rest.length < text.length := by
  match text with
  | [] => cases hescaped
  | [_] => cases hescaped
  | high :: low :: others =>
      rw [escaped?] at hescaped
      split at hescaped
      · cases hescaped
        simp only [List.length_cons]
        omega
      · cases hescaped

theorem unquoteToBytes_append_cons {c : Char} (hc : c ≠ '%') (hhex : hexValue c = none)
    (front back : List Char) : unquoteToBytes (front ++ c :: back) =
      unquoteToBytes front ++ asciiByte c :: unquoteToBytes back := by
  induction hlength : front.length using Nat.strongRecOn generalizing front with
  | ind n ih =>
      subst hlength
      cases front with
      | nil => exact unquoteToBytes_cons_of_ne hc back
      | cons d front =>
          have hshort : front.length < (d :: front).length := by simp
          by_cases hd : d = '%'
          · subst hd
            rw [List.cons_append, unquoteToBytes_percent, unquoteToBytes_percent,
              escaped?_append_cons hhex]
            cases hescaped : escaped? front with
            | none =>
                simp only [Option.map_none]
                rw [ih _ hshort front rfl, List.cons_append]
            | some escape =>
                have hrest := length_of_escaped? hescaped
                simp only [Option.map_some]
                rw [ih _ (Nat.lt_trans hrest hshort) _ rfl, List.cons_append]
          · rw [List.cons_append, unquoteToBytes_cons_of_ne hd, unquoteToBytes_cons_of_ne hd,
              ih _ hshort front rfl, List.cons_append]

/-- Text is unquoted on both sides of an ASCII character that is part of no escape. -/
theorem unquote_append_cons {c : Char} (hascii : c.toNat < 128) (hc : c ≠ '%')
    (hhex : hexValue c = none) (front back : List Char) :
    unquote (front ++ c :: back) = unquote front ++ c :: unquote back := by
  have hbyte : asciiByte c = UInt8.ofNat c.toNat := rfl
  have hvalue : (asciiByte c).toNat = c.toNat := by
    rw [hbyte, UInt8.toNat_ofNat']
    omega
  have hafter : ∀ part after, unquoteFrom (after ++ c :: part) back =
      decode (unquoteToBytes part.reverse) ++ c :: unquoteFrom after back := by
    have hpart : ∀ part after : List Char,
        decode (unquoteToBytes (after ++ c :: part).reverse) =
          decode (unquoteToBytes part.reverse) ++
            c :: decode (unquoteToBytes after.reverse) := by
      intro part after
      rw [List.reverse_append, List.reverse_cons, List.append_assoc, List.singleton_append,
        unquoteToBytes_append_cons hc hhex, decode_append_cons (by omega), hvalue,
        Char.ofNat_toNat]
    induction back with
    | nil => exact hpart
    | cons d back ih =>
        intro part after
        rw [unquoteFrom, unquoteFrom]
        split
        · exact ih part (d :: after)
        · rw [hpart, List.append_assoc, List.cons_append]
  have hfrom : ∀ part, unquoteFrom part (front ++ c :: back) =
      unquoteFrom part front ++ c :: unquote back := by
    induction front with
    | nil =>
        intro part
        have hle : c.val ≤ 127 := by
          rw [UInt32.le_iff_toNat_le]
          change c.toNat ≤ 127
          omega
        have hfirst := hafter part []
        rw [List.nil_append] at hfirst ⊢
        simp only [unquoteFrom, if_pos hle]
        exact hfirst
    | cons d front ih =>
        intro part
        rw [List.cons_append, unquoteFrom, unquoteFrom]
        split
        · exact ih (d :: part)
        · rw [ih, List.append_assoc, List.cons_append]
  exact hfrom []

end PercentEncoding
