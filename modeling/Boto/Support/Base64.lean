import Mathlib.Algebra.Group.Nat.Defs
import Mathlib.Data.Nat.Notation

/-!
# Base64

Three bytes are written as four characters of an alphabet of 64, with `=` for what is
missing at the end.  The decoder passes over characters outside of the alphabet.
-/

namespace Base64

/-- The character for a value below 64. -/
def letter (n : ℕ) : Char :=
  if n < 26 then Char.ofNat ('A'.toNat + n)
  else if n < 52 then Char.ofNat ('a'.toNat + (n - 26))
  else if n < 62 then Char.ofNat ('0'.toNat + (n - 52))
  else if n = 62 then '+'
  else '/'

/-- `base64.b64encode`. -/
def encode : List UInt8 → List Char
  | a :: b :: c :: rest =>
      let n := 65536 * a.toNat + 256 * b.toNat + c.toNat
      letter (n / 262144) :: letter (n / 4096 % 64) :: letter (n / 64 % 64) ::
        letter (n % 64) :: encode rest
  | [a, b] =>
      let n := 65536 * a.toNat + 256 * b.toNat
      [letter (n / 262144), letter (n / 4096 % 64), letter (n / 64 % 64), '=']
  | [a] =>
      let n := 65536 * a.toNat
      [letter (n / 262144), letter (n / 4096 % 64), '=', '=']
  | [] => []

/-- The value of a character of the alphabet. -/
def value? (c : Char) : Option ℕ :=
  if 'A' ≤ c ∧ c ≤ 'Z' then some (c.toNat - 'A'.toNat)
  else if 'a' ≤ c ∧ c ≤ 'z' then some (c.toNat - 'a'.toNat + 26)
  else if '0' ≤ c ∧ c ≤ '9' then some (c.toNat - '0'.toNat + 52)
  else if c = '+' then some 62
  else if c = '/' then some 63
  else none

/-- Whether the next character of the alphabet, or `=`, is a `=`. -/
def padFollows : List Char → Bool
  | [] => false
  | c :: rest =>
      if c = '=' then true
      else if (value? c).isSome then false
      else padFollows rest

/-- The decoder, with the number of characters read modulo four, the bits of them that are
not in a byte yet, and how many these are. -/
def decodeFrom (quad left bits : ℕ) : List Char → Option (List UInt8)
  | [] => if bits = 0 then some [] else none
  | c :: rest =>
      if c = '=' then
        -- A `=` that ends nothing is passed over.
        if quad < 2 ∨ quad = 2 ∧ padFollows rest = false then decodeFrom quad left bits rest
        else some []
      else
        match value? c with
        | none => decodeFrom quad left bits rest
        | some n =>
            if bits < 2 then decodeFrom ((quad + 1) % 4) (64 * left + n) (bits + 6) rest
            else
              (decodeFrom ((quad + 1) % 4) ((64 * left + n) % 2 ^ (bits - 2)) (bits - 2) rest).map
                (UInt8.ofNat ((64 * left + n) / 2 ^ (bits - 2)) :: ·)

/-- `binascii.a2b_base64`, which fails if the padding is not correct. -/
def decode (text : List Char) : Option (List UInt8) :=
  decodeFrom 0 0 0 text

/-! ## Decoding what was encoded -/

theorem letter_ne_pad {n : ℕ} (hn : n < 64) : letter n ≠ '=' := by
  have hall : ∀ n : Fin 64, letter n ≠ '=' := by decide
  exact hall ⟨n, hn⟩

theorem value?_letter {n : ℕ} (hn : n < 64) : value? (letter n) = some n := by
  have hall : ∀ n : Fin 64, value? (letter n) = some n.val := by decide
  exact hall ⟨n, hn⟩

/-- A character that completes no byte. -/
theorem decodeFrom_letter {n : ℕ} (hn : n < 64) (quad left : ℕ) {bits : ℕ} (hbits : bits < 2)
    (rest : List Char) :
    decodeFrom quad left bits (letter n :: rest) =
      decodeFrom ((quad + 1) % 4) (64 * left + n) (bits + 6) rest := by
  rw [decodeFrom, if_neg (letter_ne_pad hn), value?_letter hn]
  exact if_pos hbits

/-- A character that completes a byte. -/
theorem decodeFrom_letter_byte {n : ℕ} (hn : n < 64) (quad left : ℕ) {bits : ℕ}
    (hbits : ¬bits < 2) (rest : List Char) :
    decodeFrom quad left bits (letter n :: rest) =
      (decodeFrom ((quad + 1) % 4) ((64 * left + n) % 2 ^ (bits - 2)) (bits - 2) rest).map
        (UInt8.ofNat ((64 * left + n) / 2 ^ (bits - 2)) :: ·) := by
  rw [decodeFrom, if_neg (letter_ne_pad hn), value?_letter hn]
  exact if_neg hbits

/-- The byte that is completed. -/
theorem ofNat_eq_of_toNat {n : ℕ} {b : UInt8} (hb : n = b.toNat) : UInt8.ofNat n = b := by
  rw [hb, UInt8.ofNat_toNat]

/-- What was encoded is decoded again. -/
theorem decode_encode (bytes : List UInt8) : decode (encode bytes) = some bytes := by
  rw [decode]
  fun_induction encode bytes with
  | case1 a b c rest n ih =>
      have ha := a.toNat_lt
      have hb := b.toNat_lt
      have hc := c.toNat_lt
      have hn : n = 65536 * a.toNat + 256 * b.toNat + c.toNat := rfl
      rw [decodeFrom_letter (by omega) 0 0 (by decide),
        decodeFrom_letter_byte (by omega) _ _ (by decide),
        decodeFrom_letter_byte (by omega) _ _ (by decide),
        decodeFrom_letter_byte (by omega) _ _ (by decide)]
      have hfirst : (64 * (64 * 0 + n / 262144) + n / 4096 % 64) / 16 = a.toNat := by omega
      have hsecond : (64 * ((64 * (64 * 0 + n / 262144) + n / 4096 % 64) % 16) +
          n / 64 % 64) / 4 = b.toNat := by omega
      have hthird : 64 * ((64 * ((64 * (64 * 0 + n / 262144) + n / 4096 % 64) % 16) +
          n / 64 % 64) % 4) + n % 64 = c.toNat := by omega
      simp only [Nat.reduceAdd, Nat.reduceSub, Nat.reducePow, Nat.reduceMod, Nat.mod_one,
        Nat.div_one]
      rw [ih, ofNat_eq_of_toNat hfirst, ofNat_eq_of_toNat hsecond, ofNat_eq_of_toNat hthird]
      rfl
  | case2 a b n =>
      have ha := a.toNat_lt
      have hb := b.toNat_lt
      have hn : n = 65536 * a.toNat + 256 * b.toNat := rfl
      have hfirst : (64 * (64 * 0 + n / 262144) + n / 4096 % 64) / 16 = a.toNat := by omega
      have hsecond : (64 * ((64 * (64 * 0 + n / 262144) + n / 4096 % 64) % 16) +
          n / 64 % 64) / 4 = b.toNat := by omega
      rw [decodeFrom_letter (by omega) 0 0 (by decide),
        decodeFrom_letter_byte (by omega) _ _ (by decide),
        decodeFrom_letter_byte (by omega) _ _ (by decide)]
      simp only [Nat.reduceAdd, Nat.reduceSub, Nat.reducePow, Nat.reduceMod]
      rw [ofNat_eq_of_toNat hfirst, ofNat_eq_of_toNat hsecond]
      rfl
  | case3 a n =>
      have ha := a.toNat_lt
      have hn : n = 65536 * a.toNat := rfl
      have hfirst : (64 * (64 * 0 + n / 262144) + n / 4096 % 64) / 16 = a.toNat := by omega
      rw [decodeFrom_letter (by omega) 0 0 (by decide),
        decodeFrom_letter_byte (by omega) _ _ (by decide)]
      simp only [Nat.reduceAdd, Nat.reduceSub, Nat.reducePow, Nat.reduceMod]
      rw [ofNat_eq_of_toNat hfirst]
      rfl
  | case4 => rfl

/-- Six bits are read from a character at most. -/
theorem length_of_decodeFrom {quad left bits : ℕ} {text : List Char} {bytes : List UInt8}
    (hdecode : decodeFrom quad left bits text = some bytes) :
    8 * bytes.length ≤ bits + 6 * text.length := by
  induction text generalizing quad left bits bytes with
  | nil =>
      rw [decodeFrom] at hdecode
      split at hdecode
      · cases hdecode
        exact Nat.zero_le _
      · cases hdecode
  | cons c text ih =>
      rw [List.length_cons]
      rw [decodeFrom] at hdecode
      split at hdecode
      · split at hdecode
        · have hle := ih hdecode
          omega
        · cases hdecode
          exact Nat.zero_le _
      · split at hdecode
        · have hle := ih hdecode
          omega
        · split at hdecode
          · have hle := ih hdecode
            omega
          · obtain ⟨rest, hrest, rfl⟩ := Option.map_eq_some_iff.mp hdecode
            have hle := ih hrest
            rw [List.length_cons]
            omega

/-- What is decoded is shorter. -/
theorem length_lt_of_decode {text : List Char} {bytes : List UInt8} (htext : text ≠ [])
    (hdecode : decode text = some bytes) : bytes.length < text.length := by
  have hle := length_of_decodeFrom hdecode
  have hpos := List.length_pos_iff.mpr htext
  omega

end Base64
