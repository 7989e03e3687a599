import Boto.Support.Utf8

/-!
# Text that was quoted with its percent signs kept

Where the percent sign is safe, quoting escapes other characters only, and unquoting reads
the escapes that the text already had as well.  The text is read back exactly if it has no
escape.
-/

namespace PercentEncoding

variable {bytes rest : List UInt8} {b : UInt8}

/-! ## Bytes inside of characters -/

/-- A byte that continues a character. -/
def IsContinuation (b : UInt8) : Prop := 128 ≤ b.toNat ∧ b.toNat < 192

/-- Only the first byte of a character starts one. -/
theorem encodeChar_eq_cons (c : Char) : ∃ first others, String.utf8EncodeChar c = first :: others ∧
    ¬IsContinuation first ∧ ∀ b ∈ others, IsContinuation b := by
  have hc := c.val.toNat_lt
  simp only [IsContinuation]
  rw [String.utf8EncodeChar]
  split
  · refine ⟨_, _, rfl, ?_, nofun⟩
    rw [UInt8.toNat_ofNat']
    omega
  · split
    · refine ⟨_, _, rfl, ?_, ?_⟩
      · rw [UInt8.toNat_ofNat']
        omega
      · simp only [List.mem_cons, List.not_mem_nil, or_false]
        rintro b rfl
        rw [UInt8.toNat_ofNat']
        omega
    · split
      · refine ⟨_, _, rfl, ?_, ?_⟩
        · rw [UInt8.toNat_ofNat']
          omega
        · simp only [List.mem_cons, List.not_mem_nil, or_false]
          rintro b (rfl | rfl) <;> rw [UInt8.toNat_ofNat'] <;> omega
      · refine ⟨_, _, rfl, ?_, ?_⟩
        · rw [UInt8.toNat_ofNat']
          omega
        · simp only [List.mem_cons, List.not_mem_nil, or_false]
          rintro b (rfl | rfl | rfl) <;> rw [UInt8.toNat_ofNat'] <;> omega

/-- Where no character starts, a replacement character is read. -/
theorem decode_continuation (hb : IsContinuation b) (rest : List UInt8) :
    decode (b :: rest) = '\ufffd' :: decode rest := by
  have hnone : ByteArray.utf8DecodeChar? ⟨⟨b :: rest⟩⟩ 0 = none := by
    rw [Option.eq_none_iff_forall_ne_some]
    intro c hc
    obtain ⟨after, heq⟩ := decodeChar?_eq_some_iff.mp hc
    obtain ⟨first, others, hchar, hfirst, -⟩ := encodeChar_eq_cons c
    rw [hchar, List.cons_append, List.cons.injEq] at heq
    exact hfirst (heq.1 ▸ hb)
  have hone : replacedLength (b :: rest) = 1 := by
    have hlow : ¬(0xE0 : UInt8) ≤ b := by
      rw [UInt8.le_iff_toNat_le]
      exact Nat.not_le.mpr (Nat.lt_of_lt_of_le hb.2 (by decide))
    cases rest with
    | nil => rfl
    | cons second rest =>
        rw [replacedLength.eq_def]
        exact if_neg fun h => hlow h.1
  rw [decode_of_none (List.cons_ne_nil _ _) hnone, hone]
  rfl

theorem decode_continuations {front : List UInt8} (hfront : ∀ b ∈ front, IsContinuation b)
    (rest : List UInt8) :
    decode (front ++ rest) = List.replicate front.length '\ufffd' ++ decode rest := by
  induction front with
  | nil => rfl
  | cons b front ih =>
      obtain ⟨hb, hrest⟩ := List.forall_mem_cons.mp hfront
      rw [List.cons_append, decode_continuation hb, ih hrest]
      rfl

theorem isContinuation_of_isSecondByte {first second : UInt8}
    (hsecond : isSecondByte first second = true) : IsContinuation second := by
  rw [isSecondByte] at hsecond
  split at hsecond
  rename_i low high heq
  rw [Bool.and_eq_true, decide_eq_true_iff, decide_eq_true_iff, UInt8.le_iff_toNat_le,
    UInt8.le_iff_toNat_le] at hsecond
  have hbounds : 128 ≤ low.toNat ∧ high.toNat < 192 := by
    split at heq
    · cases heq; decide
    · split at heq
      · cases heq; decide
      · split at heq
        · cases heq; decide
        · split at heq <;> (cases heq; decide)
  exact ⟨Nat.le_trans hbounds.1 hsecond.1, Nat.lt_of_le_of_lt hsecond.2 hbounds.2⟩

/-- The bytes after the first that a replacement character stands for. -/
theorem replaced_eq_cons (b : UInt8) (rest : List UInt8) : ∃ others after,
    rest = others ++ after ∧ (b :: rest).drop (replacedLength (b :: rest)) = after ∧
      ∀ b ∈ others, IsContinuation b := by
  cases rest with
  | nil => exact ⟨[], [], rfl, rfl, nofun⟩
  | cons second rest =>
      rw [replacedLength.eq_def]
      simp only
      split
      · next hsecond =>
          have hcontinues := isContinuation_of_isSecondByte hsecond.2.2
          cases rest with
          | nil =>
              refine ⟨[second], [], rfl, rfl, ?_⟩
              intro b hb
              exact List.mem_singleton.mp hb ▸ hcontinues
          | cons third rest =>
              simp only
              split
              · next hthird =>
                  refine ⟨[second, third], rest, rfl, rfl, ?_⟩
                  have hlow := UInt8.le_iff_toNat_le.mp hthird.2.1
                  have hhigh := UInt8.le_iff_toNat_le.mp hthird.2.2
                  rw [List.forall_mem_cons, List.forall_mem_singleton]
                  exact ⟨hcontinues, hlow, Nat.lt_succ_of_le hhigh⟩
              · refine ⟨[second], third :: rest, rfl, rfl, ?_⟩
                intro b hb
                exact List.mem_singleton.mp hb ▸ hcontinues
      · exact ⟨[], second :: rest, rfl, rfl, nofun⟩

/-- One more byte gives at most one more character. -/
theorem length_decode_cons_le (b : UInt8) (rest : List UInt8) :
    (decode (b :: rest)).length ≤ (decode rest).length + 1 := by
  obtain ⟨c, others, after, hdecode, hrest, hothers⟩ : ∃ c others after,
      decode (b :: rest) = c :: decode after ∧ rest = others ++ after ∧
        ∀ b ∈ others, IsContinuation b := by
    cases hchar : ByteArray.utf8DecodeChar? ⟨⟨b :: rest⟩⟩ 0 with
    | some c =>
        obtain ⟨after, heq⟩ := decodeChar?_eq_some_iff.mp hchar
        obtain ⟨first, others, hbytes, -, hothers⟩ := encodeChar_eq_cons c
        have hcons := heq
        rw [hbytes, List.cons_append, List.cons.injEq] at hcons
        exact ⟨c, others, after, by rw [heq, decode_encodeChar_append], hcons.2, hothers⟩
    | none =>
        obtain ⟨others, after, hrest, hdrop, hothers⟩ := replaced_eq_cons b rest
        refine ⟨'\ufffd', others, after, ?_, hrest, hothers⟩
        rw [decode_of_none (List.cons_ne_nil _ _) hchar, hdrop]
  rw [hdecode, hrest, decode_continuations hothers, List.length_cons, List.length_append]
  omega

/-! ## Quoting with the percent sign -/

/-- A text has an escape. -/
def hasEscape : List Char → Bool
  | [] => false
  | c :: rest => c = '%' && (escaped? rest).isSome || hasEscape rest

section

variable {safe : List Char} (hsafe : ∀ c ∈ safe, c.val ≤ 127) (hpercent : '%' ∈ safe)

/-- What is read of a text that was quoted. -/
def readBack (safe : List Char) (text : List Char) : List Char :=
  decode (unquoteToBytes (quote safe (encode text)))

/-- A byte that is not the percent sign is read back. -/
theorem unquoteToBytes_quoteByte_of_ne (hb : b ≠ asciiByte '%') (rest : List Char) :
    unquoteToBytes (quoteByte safe b ++ rest) = b :: unquoteToBytes rest := by
  rw [quoteByte]
  split
  · have hne : Char.ofNat b.toNat ≠ '%' := by
      intro heq
      apply hb
      rw [← heq, asciiByte_ofNat]
    rw [List.singleton_append, unquoteToBytes_cons_of_ne hne, asciiByte_ofNat]
  · exact unquoteToBytes_escape_append b rest

theorem unquoteToBytes_quote_of_ne (hbytes : ∀ b ∈ bytes, b ≠ asciiByte '%')
    (rest : List Char) :
    unquoteToBytes (quote safe bytes ++ rest) = bytes ++ unquoteToBytes rest := by
  induction bytes with
  | nil => rfl
  | cons b bytes ih =>
      obtain ⟨hb, hothers⟩ := List.forall_mem_cons.mp hbytes
      rw [quote, List.flatMap_cons, List.append_assoc, unquoteToBytes_quoteByte_of_ne hb]
      exact congrArg _ (ih hothers)

theorem ne_percent_of_mem {c : Char} (hc : c ≠ '%') :
    ∀ b ∈ String.utf8EncodeChar c, b ≠ asciiByte '%' := by
  rintro b hb rfl
  rcases toNat_of_mem_encodeChar hb with ⟨hsingle, -⟩ | hlarge
  · have hread := decode_encodeChar_append c []
    have hpercent := decode_encodeChar_append '%' []
    rw [hsingle] at hread
    exact hc (List.cons.inj (hread.symm.trans hpercent)).1
  · exact absurd hlarge (by decide)

/-- A character that is not the percent sign is read back. -/
theorem readBack_cons_of_ne {c : Char} (hc : c ≠ '%') (text : List Char) :
    readBack safe (c :: text) = c :: readBack safe text := by
  rw [readBack, quote_encode_cons, unquoteToBytes_quote_of_ne (ne_percent_of_mem hc),
    decode_encodeChar_append, readBack]

/-! ## Escapes that the text had -/

theorem quote_hex {c : Char} (hc : (hexValue c).isSome = true) :
    quote safe (String.utf8EncodeChar c) = [c] := by
  have hlt : c.toNat < 128 := by
    by_contra hge
    have hnone : hexValue c = none := by
      have hlarge : ∀ high : Char, high.toNat < 128 → ¬c ≤ high := by
        intro high hhigh hle
        have hle' : c.toNat ≤ high.toNat := hle
        omega
      rw [hexValue, if_neg fun h => hlarge '9' (by decide) h.2,
        if_neg fun h => hlarge 'f' (by decide) h.2, if_neg fun h => hlarge 'F' (by decide) h.2]
    rw [hnone] at hc
    cases hc
  have hkept : ∀ n < 128, (hexValue (Char.ofNat n)).isSome = true →
      isUnreserved (UInt8.ofNat n) = true := by
    decide +kernel
  have hbyte := hkept c.toNat hlt (by rwa [Char.ofNat_toNat])
  have hascii : isUnreserved (asciiByte c) = true := hbyte
  rw [encodeChar_of_ascii hlt, quote, List.flatMap_singleton, quoteByte, hascii, Bool.true_or,
    if_pos rfl, toNat_asciiByte hlt, Char.ofNat_toNat]

/-- What is no hexadecimal digit is not quoted as one. -/
theorem quote_not_hex {c : Char} (hc : hexValue c = none) : ∃ d rest,
    quote safe (String.utf8EncodeChar c) = d :: rest ∧ hexValue d = none := by
  obtain ⟨first, others, hchar, -⟩ := encodeChar_eq_cons c
  have hlarge : ∀ b : UInt8, 128 ≤ b.toNat → hexValue (Char.ofNat b.toNat) = none := by
    apply forall_byte
    decide +kernel
  rw [hchar, quote, List.flatMap_cons, quoteByte]
  split
  · refine ⟨_, _, rfl, ?_⟩
    rcases toNat_of_mem_encodeChar (hchar ▸ List.mem_cons_self : first ∈ _) with
      ⟨hsingle, hlt⟩ | hge
    · have hread := decode_encodeChar_append c []
      have hbyte := decode_encodeChar_append (Char.ofNat first.toNat) []
      rw [encodeChar_ofNat hlt, ← hsingle, hread] at hbyte
      rwa [← (List.cons.inj hbyte).1]
    · exact hlarge first hge
  · exact ⟨_, _, rfl, by decide⟩

/-- A quoted text begins with two hexadecimal digits if and only if the text does. -/
theorem escaped?_quote (text : List Char) : escaped? (quote safe (encode text)) =
    (escaped? text).map fun escape => (escape.1, quote safe (encode escape.2)) := by
  have hempty : escaped? ([] : List Char) = none := rfl
  have hshort : ∀ c, escaped? [c] = none := fun _ => rfl
  have hfirst : ∀ {d : Char} {rest : List Char}, hexValue d = none →
      escaped? (d :: rest) = none := by
    intro d rest hd
    cases rest with
    | nil => rfl
    | cons low rest => rw [escaped?, hd]
  have hsecond : ∀ {high d : Char} {rest : List Char}, hexValue d = none →
      escaped? (high :: d :: rest) = none := by
    intro high d rest hd
    rw [escaped?, hd]
    cases hexValue high <;> rfl
  cases text with
  | nil => rfl
  | cons high text =>
      rw [quote_encode_cons]
      cases hhigh : hexValue high with
      | none =>
          obtain ⟨d, rest, hquote, hd⟩ := @quote_not_hex safe high hhigh
          rw [hquote, List.cons_append, hfirst hd, hfirst hhigh]
          rfl
      | some x =>
          rw [quote_hex (by rw [hhigh]; rfl), List.singleton_append]
          cases text with
          | nil => rfl
          | cons low text =>
              rw [quote_encode_cons]
              cases hlow : hexValue low with
              | none =>
                  obtain ⟨d, rest, hquote, hd⟩ := @quote_not_hex safe low hlow
                  rw [hquote, List.cons_append, hsecond hd, hsecond hlow]
                  rfl
              | some y =>
                  rw [quote_hex (by rw [hlow]; rfl), List.singleton_append, escaped?, escaped?,
                    hhigh, hlow]
                  rfl

include hpercent

theorem quote_percent (text : List Char) :
    quote safe (encode ('%' :: text)) = '%' :: quote safe (encode text) := by
  have hbyte : String.utf8EncodeChar '%' = [0x25] := by decide
  have hkept : quoteByte safe 0x25 = ['%'] := by
    rw [quoteByte, if_pos]
    · rfl
    · rw [Bool.or_eq_true]
      exact .inr (List.contains_iff_mem.mpr hpercent)
  rw [quote_encode_cons, hbyte, quote, List.flatMap_singleton, hkept]
  rfl

theorem readBack_percent {text : List Char} (hescaped : escaped? text = none) :
    readBack safe ('%' :: text) = '%' :: readBack safe text := by
  have hread := decode_encodeChar_append '%' (unquoteToBytes (quote safe (encode text)))
  rw [readBack, quote_percent hpercent, unquoteToBytes_percent, escaped?_quote, hescaped]
  exact hread

theorem readBack_escape {text rest : List Char} (hescaped : escaped? text = some (b, rest)) :
    readBack safe ('%' :: text) =
      decode (b :: unquoteToBytes (quote safe (encode rest))) := by
  rw [readBack, quote_percent hpercent, unquoteToBytes_percent, escaped?_quote, hescaped]
  rfl

/-- No more characters are read than were written. -/
theorem length_readBack_le (text : List Char) : (readBack safe text).length ≤ text.length := by
  induction hlength : text.length using Nat.strongRecOn generalizing text with
  | ind n ih =>
      subst hlength
      cases text with
      | nil => exact Nat.le_refl 0
      | cons c text =>
          have hrest := ih text.length (Nat.lt_succ_self _) text rfl
          by_cases hc : c = '%'
          · subst hc
            cases hescaped : escaped? text with
            | none =>
                rw [readBack_percent hpercent hescaped]
                exact Nat.succ_le_succ hrest
            | some escape =>
                have hshort := length_of_escaped? hescaped
                rw [readBack_escape hpercent hescaped]
                refine Nat.le_trans (length_decode_cons_le _ _) (Nat.succ_le_succ ?_)
                exact Nat.le_trans (ih _ (Nat.lt_succ_of_lt hshort) escape.2 rfl)
                  (Nat.le_of_lt hshort)
          · rw [readBack_cons_of_ne hc]
            exact Nat.succ_le_succ hrest

/-- An escape makes the text shorter. -/
theorem length_readBack_lt {text : List Char} (hescape : hasEscape text = true) :
    (readBack safe text).length < text.length := by
  induction text with
  | nil => cases hescape
  | cons c text ih =>
      rw [hasEscape, Bool.or_eq_true, Bool.and_eq_true, decide_eq_true_iff] at hescape
      by_cases hc : c = '%'
      · subst hc
        cases hescaped : escaped? text with
        | none =>
            rw [hescaped] at hescape
            rw [readBack_percent hpercent hescaped]
            exact Nat.succ_lt_succ (ih (hescape.resolve_left fun h => nomatch h.2))
        | some escape =>
            have hshort := length_of_escaped? hescaped
            rw [readBack_escape hpercent hescaped]
            refine Nat.lt_of_le_of_lt (length_decode_cons_le _ _) (Nat.succ_lt_succ ?_)
            exact Nat.lt_of_le_of_lt (length_readBack_le hpercent escape.2) hshort
      · rw [readBack_cons_of_ne hc]
        exact Nat.succ_lt_succ (ih (hescape.resolve_left fun h => hc h.1))

/-- A text is read back if and only if it has no escape. -/
theorem readBack_eq_iff (text : List Char) : readBack safe text = text ↔ hasEscape text = false := by
  constructor
  · intro heq
    by_contra hescape
    have hlt := length_readBack_lt hpercent (Bool.not_eq_false _ ▸ hescape)
    rw [heq] at hlt
    exact Nat.lt_irrefl _ hlt
  · intro hescape
    induction text with
    | nil => rfl
    | cons c text ih =>
        rw [hasEscape, Bool.or_eq_false_iff] at hescape
        by_cases hc : c = '%'
        · subst hc
          have hnone : escaped? text = none := by
            rw [decide_eq_true rfl, Bool.true_and] at hescape
            exact Option.not_isSome_iff_eq_none.mp (Bool.eq_false_iff.mp hescape.1)
          rw [readBack_percent hpercent hnone, ih hescape.2]
        · rw [readBack_cons_of_ne hc, ih hescape.2]

include hsafe

theorem unquote_quote_iff (text : List Char) :
    unquote (quote safe (encode text)) = text ↔ hasEscape text = false := by
  have hascii : ∀ c ∈ quote safe (encode text), c.val ≤ 127 := by
    intro c hc
    rcases mem_quote hc with hc | hc
    · exact hsafe c hc
    · exact hc.ascii
  rw [unquote_of_ascii hascii, ← readBack_eq_iff hpercent, readBack]

end

end PercentEncoding
