import Boto.Support.Utf8
import Mathlib.Data.List.Count

/-!
# Counting marks in encoded text

How often an ASCII mark stands in what a text is unquoted to.  A text can be cut at marks,
and what the parts are unquoted to has all of the marks that the text has beside those
where it is cut.
-/

namespace PercentEncoding

/-- The sum of a measure over a list. -/
def total {α : Type} (measure : α → ℕ) : List α → ℕ
  | [] => 0
  | x :: xs => measure x + total measure xs

section

variable {α : Type} {measure other : α → ℕ} {xs ys : List α}

@[simp] theorem total_append : total measure (xs ++ ys) = total measure xs + total measure ys := by
  induction xs with
  | nil => simp [total]
  | cons x xs ih =>
      rw [List.cons_append, total, total, ih]
      omega

theorem total_le (hle : ∀ x ∈ xs, measure x ≤ other x) : total measure xs ≤ total other xs := by
  induction xs with
  | nil => exact Nat.le_refl 0
  | cons x xs ih =>
      obtain ⟨hx, hxs⟩ := List.forall_mem_cons.mp hle
      exact Nat.add_le_add hx (ih hxs)

theorem total_map {β : Type} {f : β → α} {zs : List β} :
    total measure (zs.map f) = total (fun z => measure (f z)) zs := by
  induction zs with
  | nil => rfl
  | cons z zs ih =>
      rw [List.map_cons, total, total, ih]

theorem total_perm (hperm : xs.Perm ys) : total measure xs = total measure ys := by
  induction hperm with
  | nil => rfl
  | cons x _ ih => rw [total, total, ih]
  | swap x y xs =>
      simp only [total]
      omega
  | trans _ _ ih ih' => exact ih.trans ih'

/-- Entries that measure nothing can be left out. -/
theorem total_filter {p : α → Bool} (hzero : ∀ x ∈ xs, p x = false → measure x = 0) :
    total measure (xs.filter p) = total measure xs := by
  induction xs with
  | nil => rfl
  | cons x xs ih =>
      obtain ⟨hx, hxs⟩ := List.forall_mem_cons.mp hzero
      rw [List.filter_cons]
      split
      · rw [total, total, ih hxs]
      · rename_i hnot
        rw [total, ih hxs, hx (Bool.eq_false_iff.mpr hnot), Nat.zero_add]

/-- The measure of a text is that of its pieces and of the characters between them. -/
theorem total_splitOnP {p : Char → Bool} {measure : List Char → ℕ} {weight : Char → ℕ}
    (hcut : ∀ front c back, p c = true →
      measure (front ++ c :: back) = measure front + measure back + weight c)
    (text : List Char) :
    total measure (text.splitOnP p) + total weight (text.filter p) = measure text := by
  induction hlength : text.length using Nat.strongRecOn generalizing text with
  | ind n ih =>
      subst hlength
      by_cases hin : ∃ c ∈ text, p c = true
      · obtain ⟨c, hmem, hc⟩ := hin
        obtain ⟨front, back, rfl⟩ := List.append_of_mem hmem
        have hfront := ih front.length (by simp) front rfl
        have hback := ih back.length (by simp; omega) back rfl
        rw [List.splitOnP_append_cons _ _ hc, total_append, List.filter_append,
          List.filter_cons_of_pos hc, total_append, total, hcut front c back hc]
        omega
      · have hnone : ∀ c ∈ text, p c = false := fun c hc =>
          Bool.eq_false_iff.mpr fun hpc => hin ⟨c, hc, hpc⟩
        have hfilter : text.filter p = [] := by
          rw [List.filter_eq_nil_iff]
          intro c hc
          simp [hnone c hc]
        rw [List.splitOnP_eq_singleton hnone, hfilter]
        rfl

end

/-! ## Marks -/

/-- An ASCII character that is part of no escape. -/
structure IsMark (c : Char) : Prop where
  ascii : c.toNat < 128
  percent : c ≠ '%'
  hex : hexValue c = none

/-- How often a mark stands in what a text is unquoted to. -/
def markCount (mark : Char) (text : List Char) : ℕ :=
  (unquoteToBytes text).count (asciiByte mark)

section

variable {mark c : Char}

theorem asciiByte_inj (hmark : mark.toNat < 128) (hc : c.toNat < 128) :
    asciiByte c = asciiByte mark ↔ c = mark := by
  constructor
  · intro heq
    have hvalue := congrArg UInt8.toNat heq
    rw [toNat_asciiByte hc, toNat_asciiByte hmark] at hvalue
    exact Char.toNat_inj.mp hvalue
  · rintro rfl
    rfl

theorem markCount_append_cons (hmark : IsMark mark) (hc : IsMark c) (front back : List Char) :
    markCount mark (front ++ c :: back) =
      markCount mark front + markCount mark back + if c = mark then 1 else 0 := by
  rw [markCount, unquoteToBytes_append_cons hc.percent hc.hex, List.count_append,
    List.count_cons, markCount, markCount, ← Nat.add_assoc]
  simp only [beq_iff_eq, asciiByte_inj hmark.ascii hc.ascii]

/-- A space for every plus. -/
def plusToSpace (text : List Char) : List Char :=
  text.map fun c => if c = '+' then ' ' else c

/-- Spaces in place of pluses leave the other marks. -/
theorem markCount_plusToSpace (hmark : IsMark mark) (hspace : mark ≠ ' ') (text : List Char) :
    markCount mark (plusToSpace text) + (if mark = '+' then text.count '+' else 0) =
      markCount mark text := by
  induction hlength : text.length using Nat.strongRecOn generalizing text with
  | ind n ih =>
      subst hlength
      by_cases hin : '+' ∈ text
      · obtain ⟨front, back, rfl⟩ := List.append_of_mem hin
        have hfront := ih front.length (by simp) front rfl
        have hback := ih back.length (by simp; omega) back rfl
        have hmap : plusToSpace (front ++ '+' :: back) =
            plusToSpace front ++ ' ' :: plusToSpace back := by
          simp [plusToSpace]
        rw [hmap, markCount_append_cons hmark ⟨by decide, by decide, by decide⟩,
          markCount_append_cons hmark ⟨by decide, by decide, by decide⟩, List.count_append,
          List.count_cons_self, if_neg hspace.symm]
        by_cases hplus : mark = '+'
        · rw [if_pos hplus] at hfront hback ⊢
          rw [if_pos hplus.symm]
          omega
        · rw [if_neg hplus] at hfront hback ⊢
          rw [if_neg (Ne.symm hplus)]
          omega
      · have hsame : plusToSpace text = text := by
          refine (List.map_congr_left fun c hc => ?_).trans (List.map_id text)
          exact if_neg fun heq : c = '+' => hin (heq ▸ hc)
        rw [hsame, List.count_eq_zero_of_not_mem hin, ite_self, Nat.add_zero]

/-! ## Decoded and encoded text -/

theorem count_decodeWith_le (hmark : mark.toNat < 128) (fuel : ℕ) (bytes : List UInt8) :
    (decodeWith fuel bytes).count mark ≤ bytes.count (asciiByte mark) := by
  have hreplaced : '\ufffd' ≠ mark := by
    rintro rfl
    revert hmark
    decide
  induction fuel generalizing bytes with
  | zero => exact Nat.zero_le _
  | succ fuel ih =>
      cases bytes with
      | nil => exact Nat.zero_le _
      | cons first rest =>
          rw [decodeWith]
          split
          · rename_i c hchar
            obtain ⟨after, heq⟩ := decodeChar?_eq_some_iff.mp hchar
            have hlength := String.length_utf8EncodeChar c
            have hrest := ih after
            rw [heq, ← hlength, List.drop_left, List.count_cons, List.count_append]
            have hfirst : (if (c == mark) = true then 1 else 0) ≤
                (String.utf8EncodeChar c).count (asciiByte mark) := by
              split
              · rename_i hc
                obtain rfl := beq_iff_eq.mp hc
                rw [encodeChar_of_ascii hmark]
                simp
              · exact Nat.zero_le _
            omega
          · rw [List.count_cons_of_ne hreplaced]
            exact Nat.le_trans (ih _) ((List.drop_sublist _ _).count_le _)

/-- Decoding adds no mark. -/
theorem count_decode_le (hmark : mark.toNat < 128) (bytes : List UInt8) :
    (decode bytes).count mark ≤ bytes.count (asciiByte mark) :=
  count_decodeWith_le hmark _ bytes

/-- Encoding adds no mark. -/
theorem count_encode_le (hmark : mark.toNat < 128) (text : List Char) :
    (encode text).count (asciiByte mark) ≤ text.count mark := by
  induction text with
  | nil => exact Nat.le_refl 0
  | cons c text ih =>
      have hsplit : encode (c :: text) = String.utf8EncodeChar c ++ encode text := rfl
      rw [hsplit, List.count_append, List.count_cons, Nat.add_comm]
      refine Nat.add_le_add ih ?_
      by_cases hin : asciiByte mark ∈ String.utf8EncodeChar c
      · rcases toNat_of_mem_encodeChar hin with ⟨hsingle, hsmall⟩ | hlarge
        · have hchar : c = mark := by
            have hdecode := utf8DecodeChar?_encodeChar_append c []
            rw [hsingle, ← encodeChar_ofNat hsmall, utf8DecodeChar?_encodeChar_append,
              toNat_asciiByte hmark, Char.ofNat_toNat] at hdecode
            exact (Option.some.inj hdecode).symm
          rw [hsingle, hchar]
          simp
        · rw [toNat_asciiByte hmark] at hlarge
          omega
      · rw [List.count_eq_zero_of_not_mem hin]
        exact Nat.zero_le _

end

end PercentEncoding
