import Mathlib.Data.Nat.Notation
import Mathlib.Data.List.Basic
import Mathlib.Tactic.Common

/-!
# Percent-encoding

Bytes are written as ASCII text by replacing those that are not safe by `%` and two
hexadecimal digits; reading leaves alone what is no such escape.  Bytes that are
the UTF-8 form of a text are decoded to that text, and other bytes to replacement
characters, one for each longest start of a character.
-/

namespace PercentEncoding

/-! ## Decoding UTF-8 -/

/-- The second bytes that can follow a first one. -/
def isSecondByte (first second : UInt8) : Bool :=
  let (low, high) : UInt8 × UInt8 :=
    if first = 0xE0 then (0xA0, 0xBF)
    else if first = 0xED then (0x80, 0x9F)
    else if first = 0xF0 then (0x90, 0xBF)
    else if first = 0xF4 then (0x80, 0x8F)
    else (0x80, 0xBF)
  decide (low ≤ second) && decide (second ≤ high)

/-- The number of bytes that one replacement character stands for, where no
character starts. -/
def replacedLength : List UInt8 → ℕ
  | first :: second :: rest =>
      if 0xE0 ≤ first ∧ first ≤ 0xF4 ∧ isSecondByte first second = true then
        match rest with
        | third :: _ =>
            if 0xF0 ≤ first ∧ 0x80 ≤ third ∧ third ≤ 0xBF then 3 else 2
        | [] => 2
      else 1
  | _ => 1

/-- Decoding with replacement, for at most the given number of characters. -/
def decodeWith : ℕ → List UInt8 → List Char
  | 0, _ => []
  | _, [] => []
  | fuel + 1, first :: rest =>
      match ByteArray.utf8DecodeChar? ⟨⟨first :: rest⟩⟩ 0 with
      | some c => c :: decodeWith fuel ((first :: rest).drop c.utf8Size)
      | none =>
          '\ufffd' :: decodeWith fuel
            ((first :: rest).drop (replacedLength (first :: rest)))

/-- `bytes.decode('utf-8', 'replace')`. -/
def decode (bytes : List UInt8) : List Char :=
  decodeWith bytes.length bytes

/-- The UTF-8 form of a text. -/
def encode (text : List Char) : List UInt8 :=
  text.flatMap String.utf8EncodeChar

theorem utf8DecodeChar?_encodeChar_append (c : Char) (rest : List UInt8) :
    ByteArray.utf8DecodeChar? ⟨⟨String.utf8EncodeChar c ++ rest⟩⟩ 0 = some c := by
  have happend : (⟨⟨String.utf8EncodeChar c ++ rest⟩⟩ : ByteArray) =
      (String.utf8EncodeChar c).toByteArray ++ ⟨⟨rest⟩⟩ := by
    apply ByteArray.ext
    simp
  rw [happend, ByteArray.utf8DecodeChar?_utf8EncodeChar_append]

theorem decodeWith_encode (text : List Char) {fuel : ℕ}
    (hfuel : (encode text).length ≤ fuel) : decodeWith fuel (encode text) = text := by
  induction text generalizing fuel with
  | nil => cases fuel <;> rfl
  | cons c text ih =>
      have hpos := c.utf8Size_pos
      have hsplit : encode (c :: text) = String.utf8EncodeChar c ++ encode text := rfl
      have hlength : (String.utf8EncodeChar c).length = c.utf8Size :=
        String.length_utf8EncodeChar c
      rw [hsplit, List.length_append, hlength] at hfuel
      obtain ⟨fuel, rfl⟩ : ∃ n, fuel = n + 1 := ⟨fuel - 1, by omega⟩
      cases hbytes : String.utf8EncodeChar c with
      | nil => simp [hbytes] at hlength; omega
      | cons first others =>
          have hchar := utf8DecodeChar?_encodeChar_append c (encode text)
          have hdrop : (String.utf8EncodeChar c ++ encode text).drop c.utf8Size =
              encode text := by
            rw [← hlength, List.drop_left]
          rw [hbytes, List.cons_append] at hchar hdrop
          rw [hsplit, hbytes, List.cons_append, decodeWith, hchar]
          dsimp only
          rw [hdrop, ih (by omega)]

/-- Decoding gives back what was encoded. -/
@[simp] theorem decode_encode (text : List Char) : decode (encode text) = text :=
  decodeWith_encode text (Nat.le_refl _)

/-! ## Escapes -/

/-- A digit of an escape. -/
def hexDigit (n : ℕ) : Char :=
  (Nat.digitChar n).toUpper

/-- The value of a hexadecimal digit in either case. -/
def hexValue (c : Char) : Option ℕ :=
  if '0' ≤ c ∧ c ≤ '9' then some (c.toNat - '0'.toNat)
  else if 'a' ≤ c ∧ c ≤ 'f' then some (c.toNat - 'a'.toNat + 10)
  else if 'A' ≤ c ∧ c ≤ 'F' then some (c.toNat - 'A'.toNat + 10)
  else none

theorem hexValue_hexDigit : ∀ n < 16, hexValue (hexDigit n) = some n := by
  decide

/-- The escape of a byte. -/
def escape (b : UInt8) : List Char :=
  ['%', hexDigit (b.toNat / 16), hexDigit (b.toNat % 16)]

/-- The byte of an ASCII character. -/
def asciiByte (c : Char) : UInt8 := c.toNat.toUInt8

/-- `unquote_to_bytes` of ASCII text. -/
def unquoteToBytes : List Char → List UInt8
  | c :: high :: low :: rest =>
      if c = '%' then
        match hexValue high, hexValue low with
        | some x, some y => UInt8.ofNat (16 * x + y) :: unquoteToBytes rest
        | _, _ => asciiByte c :: unquoteToBytes (high :: low :: rest)
      else asciiByte c :: unquoteToBytes (high :: low :: rest)
  | short => short.map asciiByte

theorem unquoteToBytes_escape_append (b : UInt8) (rest : List Char) :
    unquoteToBytes (escape b ++ rest) = b :: unquoteToBytes rest := by
  have hb : b.toNat < 256 := b.toNat_lt
  have hvalue : 16 * (b.toNat / 16) + b.toNat % 16 = b.toNat := by omega
  rw [escape, List.cons_append, List.cons_append, List.cons_append, List.nil_append,
    unquoteToBytes, if_pos rfl, hexValue_hexDigit _ (by omega),
    hexValue_hexDigit _ (by omega)]
  dsimp only
  rw [hvalue, UInt8.ofNat_toNat]

theorem unquoteToBytes_cons_of_ne {c : Char} (hc : c ≠ '%') (rest : List Char) :
    unquoteToBytes (c :: rest) = asciiByte c :: unquoteToBytes rest := by
  match rest with
  | [] => rfl
  | [d] => rfl
  | high :: low :: rest => rw [unquoteToBytes, if_neg hc]

/-- `unquote`: the parts of the text that are ASCII are unquoted and decoded, each on
its own.  The first argument is the end of the current part, reversed. -/
def unquoteFrom : List Char → List Char → List Char
  | part, [] => decode (unquoteToBytes part.reverse)
  | part, c :: rest =>
      if c.val ≤ 127 then unquoteFrom (c :: part) rest
      else decode (unquoteToBytes part.reverse) ++ c :: unquoteFrom [] rest

/-- `unquote`. -/
def unquote (text : List Char) : List Char :=
  unquoteFrom [] text

theorem unquote_of_ascii {text : List Char} (hascii : ∀ c ∈ text, c.val ≤ 127) :
    unquote text = decode (unquoteToBytes text) := by
  have hfrom : ∀ part, unquoteFrom part text =
      decode (unquoteToBytes (part.reverse ++ text)) := by
    induction text with
    | nil => simp [unquoteFrom]
    | cons c text ih =>
        intro part
        obtain ⟨hc, hrest⟩ := List.forall_mem_cons.mp hascii
        rw [unquoteFrom, if_pos hc, ih hrest, List.reverse_cons, List.append_assoc]
        rfl
  exact hfrom []

/-- A check that a text is ASCII. -/
theorem forall_ascii {text : List Char}
    (hcheck : (text.all fun c => decide (c.val ≤ 127)) = true) : ∀ c ∈ text, c.val ≤ 127 :=
  fun c hc => of_decide_eq_true (List.all_eq_true.mp hcheck c hc)

/-- `unquote_plus`. -/
def unquotePlus (text : List Char) : List Char :=
  unquote (text.map fun c => if c = '+' then ' ' else c)

/-! ## Quoting -/

/-- The letters, digits and marks that are never escaped. -/
def isUnreserved (b : UInt8) : Bool :=
  (Char.ofNat b.toNat).isAlphanum ||
    ['_', '.', '-', '~'].contains (Char.ofNat b.toNat)

/-- A byte as it is, if it is safe, or its escape. -/
def quoteByte (safe : List Char) (b : UInt8) : List Char :=
  if isUnreserved b || safe.contains (Char.ofNat b.toNat) then [Char.ofNat b.toNat]
  else escape b

/-- `quote` of bytes, where some more characters are safe. -/
def quote (safe : List Char) (bytes : List UInt8) : List Char :=
  bytes.flatMap (quoteByte safe)

/-- `quote_plus` of bytes. -/
def quotePlus (bytes : List UInt8) : List Char :=
  bytes.flatMap fun b => if b = 0x20 then ['+'] else quoteByte [] b

/-- The characters that quoting may give beside the safe ones. -/
def IsQuoted (c : Char) : Prop :=
  c.isAlphanum = true ∨ c ∈ ['_', '.', '-', '~', '%']

theorem IsQuoted.ascii {c : Char} (hc : IsQuoted c) : c.val ≤ 127 := by
  rcases hc with hc | hc
  · change (((decide (c.val ≥ 'A'.val ∧ c.val ≤ 'Z'.val)) ||
      (decide (c.val ≥ 'a'.val) && decide (c.val ≤ 'z'.val))) ||
      (decide (c.val ≥ '0'.val) && decide (c.val ≤ '9'.val))) = true at hc
    simp only [Bool.or_eq_true, Bool.and_eq_true, decide_eq_true_eq] at hc
    rcases hc with (⟨-, hc⟩ | ⟨-, hc⟩) | ⟨-, hc⟩
    · exact UInt32.le_trans hc (by decide)
    · exact UInt32.le_trans hc (by decide)
    · exact UInt32.le_trans hc (by decide)
  · simp only [List.mem_cons, List.not_mem_nil, or_false] at hc
    rcases hc with rfl | rfl | rfl | rfl | rfl <;> decide

theorem isQuoted_hexDigit : ∀ n < 16, (hexDigit n).isAlphanum = true := by
  decide

theorem mem_escape {b : UInt8} {c : Char} (hc : c ∈ escape b) : IsQuoted c := by
  have hb : b.toNat < 256 := b.toNat_lt
  simp only [escape, List.mem_cons, List.not_mem_nil, or_false] at hc
  rcases hc with rfl | rfl | rfl
  · exact Or.inr (by decide)
  · exact Or.inl (isQuoted_hexDigit _ (by omega))
  · exact Or.inl (isQuoted_hexDigit _ (by omega))

theorem mem_quoteByte {safe : List Char} {b : UInt8} {c : Char}
    (hc : c ∈ quoteByte safe b) : c ∈ safe ∨ IsQuoted c := by
  rw [quoteByte] at hc
  split at hc
  · rename_i hkept
    cases List.mem_singleton.mp hc
    rcases Bool.or_eq_true_iff.mp hkept with hkept | hkept
    · rcases Bool.or_eq_true_iff.mp hkept with halnum | hmark
      · exact Or.inr (Or.inl halnum)
      · have hmem := List.contains_iff_mem.mp hmark
        exact Or.inr (Or.inr (List.mem_append_left ['%'] hmem))
    · exact Or.inl (List.contains_iff_mem.mp hkept)
  · exact Or.inr (mem_escape hc)

theorem mem_quote {safe : List Char} {bytes : List UInt8} {c : Char}
    (hc : c ∈ quote safe bytes) : c ∈ safe ∨ IsQuoted c := by
  obtain ⟨b, -, hb⟩ := List.mem_flatMap.mp hc
  exact mem_quoteByte hb

theorem forall_byte {p : UInt8 → Prop} (hall : ∀ n < 256, p (UInt8.ofNat n))
    (b : UInt8) : p b := by
  have hb := hall b.toNat b.toNat_lt
  rwa [UInt8.ofNat_toNat] at hb

theorem asciiByte_ofNat (b : UInt8) : asciiByte (Char.ofNat b.toNat) = b := by
  revert b
  apply forall_byte
  decide +kernel

theorem quote_encode_cons {safe : List Char} (c : Char) (text : List Char) :
    quote safe (encode (c :: text)) =
      quote safe (String.utf8EncodeChar c) ++ quote safe (encode text) := by
  rw [encode, List.flatMap_cons, quote, List.flatMap_append]
  rfl

/-- Without a percent sign, no byte is escaped. -/
theorem quote_eq_map_of_notMem {safe : List Char} {bytes : List UInt8}
    (hpercent : '%' ∉ quote safe bytes) :
    quote safe bytes = bytes.map fun b => Char.ofNat b.toNat := by
  induction bytes with
  | nil => rfl
  | cons b bytes ih =>
      have hsplit : quote safe (b :: bytes) = quoteByte safe b ++ quote safe bytes := rfl
      rw [hsplit, List.mem_append, not_or] at hpercent
      have hkept : quoteByte safe b = [Char.ofNat b.toNat] := by
        obtain ⟨hescape, -⟩ := hpercent
        rw [quoteByte] at hescape ⊢
        split at hescape
        · rename_i hsafe
          rw [if_pos hsafe]
        · exact absurd List.mem_cons_self hescape
      rw [hsplit, ih hpercent.2, hkept]
      rfl

/-- A byte that is quoted is read back. -/
theorem unquoteToBytes_quoteByte_append {safe : List Char} (hsafe : '%' ∉ safe)
    (b : UInt8) (rest : List Char) :
    unquoteToBytes (quoteByte safe b ++ rest) = b :: unquoteToBytes rest := by
  have hpercent : ∀ b : UInt8, isUnreserved b = true →
      Char.ofNat b.toNat ≠ '%' := by
    apply forall_byte
    decide +kernel
  rw [quoteByte]
  split
  · rename_i hkept
    have hne : Char.ofNat b.toNat ≠ '%' := by
      rcases Bool.or_eq_true_iff.mp hkept with hkept | hkept
      · exact hpercent b hkept
      · intro heq
        rw [heq] at hkept
        exact hsafe (List.contains_iff_mem.mp hkept)
    rw [List.singleton_append, unquoteToBytes_cons_of_ne hne, asciiByte_ofNat]
  · exact unquoteToBytes_escape_append b rest

theorem unquoteToBytes_quote {safe : List Char} (hsafe : '%' ∉ safe)
    (bytes : List UInt8) : unquoteToBytes (quote safe bytes) = bytes := by
  induction bytes with
  | nil => rfl
  | cons b bytes ih =>
      have hsplit : quote safe (b :: bytes) = quoteByte safe b ++ quote safe bytes :=
        rfl
      rw [hsplit, unquoteToBytes_quoteByte_append hsafe, ih]

/-- Unquoting gives back the text that was quoted. -/
theorem unquote_quote {safe : List Char} (hsafe : ∀ c ∈ safe, c.val ≤ 127)
    (hpercent : '%' ∉ safe) (text : List Char) :
    unquote (quote safe (encode text)) = text := by
  have hascii : ∀ c ∈ quote safe (encode text), c.val ≤ 127 := by
    intro c hc
    rcases mem_quote hc with hc | hc
    · exact hsafe c hc
    · exact hc.ascii
  rw [unquote_of_ascii hascii, unquoteToBytes_quote hpercent, decode_encode]

/-- `quote_plus` is `quote` with spaces kept, up to these. -/
theorem plus_to_space_quotePlus (bytes : List UInt8) :
    ((quotePlus bytes).map fun c => if c = '+' then ' ' else c) =
      quote [' '] bytes := by
  have hbyte : ∀ b : UInt8,
      ((if b = 0x20 then ['+'] else quoteByte [] b).map fun c =>
        if c = '+' then ' ' else c) = quoteByte [' '] b := by
    apply forall_byte
    decide +kernel
  rw [quotePlus, quote, List.map_flatMap]
  congr 1
  funext b
  exact hbyte b

/-- Unquoting gives back the text that was quoted with `+` for spaces. -/
theorem unquotePlus_quotePlus (text : List Char) :
    unquotePlus (quotePlus (encode text)) = text := by
  rw [unquotePlus, plus_to_space_quotePlus]
  exact unquote_quote (List.forall_mem_singleton.mpr (by decide)) (by decide) text

end PercentEncoding
