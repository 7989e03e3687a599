import Boto.Python
import Mathlib.Data.List.DropRight
import Mathlib.Data.List.Pairwise
import Mathlib.Data.List.Sort

/-!
# Methods of text strings

The methods of Python's `str` that signing uses.  Texts are ordered by the code points
of their characters.
-/

namespace Boto

/-! ## Order -/

/-- `a <= b`, for texts. -/
def textLe : Text → Text → Bool
  | [], _ => true
  | _ :: _, [] => false
  | c :: a, d :: b => if c = d then textLe a b else decide (c.val < d.val)

/-- A text does not come after another one. -/
def TextLe (a b : Text) : Prop :=
  ¬b < a

theorem TextLe.refl (a : Text) : TextLe a a :=
  List.lt_irrefl a

theorem TextLe.trans {a b c : Text} (hab : TextLe a b) (hbc : TextLe b c) : TextLe a c :=
  List.le_trans hab hbc

theorem TextLe.total (a b : Text) : TextLe a b ∨ TextLe b a :=
  List.le_total a b

theorem TextLe.antisymm {a b : Text} (hab : TextLe a b) (hba : TextLe b a) : a = b :=
  List.le_antisymm hab hba

theorem TextLe.of_lt {a b : Text} (hlt : a < b) : TextLe a b :=
  List.lt_asymm hlt

theorem textLe_cases {a b : Text} (hle : TextLe a b) : a < b ∨ a = b :=
  List.le_iff_lt_or_eq.mp hle

theorem textLe_iff {a b : Text} : textLe a b = true ↔ TextLe a b := by
  induction a generalizing b with
  | nil => exact iff_of_true rfl (List.nil_le b)
  | cons c a ih =>
      cases b with
      | nil => exact iff_of_false Bool.false_ne_true fun hle => hle (List.nil_lt_cons c a)
      | cons d b =>
          have hcons : TextLe (c :: a) (d :: b) ↔ c < d ∨ c = d ∧ TextLe a b :=
            List.cons_le_cons_iff
          rw [textLe, hcons]
          by_cases hcd : c = d
          · subst hcd
            simp [ih]
          · simp [hcd, Char.lt_def]

instance (a b : Text) : Decidable (TextLe a b) :=
  decidable_of_iff _ textLe_iff

/-- One text comes before another one that it starts, or that has a greater character
where they first differ. -/
theorem lt_iff_split {a b : Text} :
    a < b ↔ (∃ c rest, b = a ++ c :: rest) ∨
      ∃ front c d rest rest', a = front ++ c :: rest ∧ b = front ++ d :: rest' ∧ c < d := by
  constructor
  · intro hlt
    induction a generalizing b with
    | nil =>
        cases b with
        | nil => exact absurd hlt (List.lt_irrefl [])
        | cons d b => exact .inl ⟨d, b, rfl⟩
    | cons c a ih =>
        cases b with
        | nil => exact absurd hlt (List.not_lt_nil _)
        | cons d b =>
            rcases List.cons_lt_cons_iff.mp hlt with hcd | ⟨rfl, hrest⟩
            · exact .inr ⟨[], c, d, a, b, rfl, rfl, hcd⟩
            · rcases ih hrest with ⟨e, rest, rfl⟩ | ⟨front, e, f, rest, rest', rfl, rfl, hef⟩
              · exact .inl ⟨e, rest, rfl⟩
              · exact .inr ⟨c :: front, e, f, rest, rest', rfl, rfl, hef⟩
  · rintro (⟨c, rest, rfl⟩ | ⟨front, c, d, rest, rest', rfl, rfl, hcd⟩)
    · have hlt := @List.append_left_lt _ _ a _ _ (List.nil_lt_cons c rest)
      rwa [List.append_nil] at hlt
    · exact List.append_left_lt (List.cons_lt_cons_iff.mpr (.inl hcd))

/-- `sorted(xs, key=key)`. -/
def sortedBy {α : Type} (key : α → Text) (xs : List α) : List α :=
  xs.insertionSort fun a b => textLe (key a) (key b) = true

/-- `sorted(texts)`. -/
def sorted (texts : List Text) : List Text :=
  sortedBy id texts

section

variable {α : Type} {key : α → Text}

theorem sortedBy_perm (key : α → Text) (xs : List α) : (sortedBy key xs).Perm xs :=
  List.perm_insertionSort ..

@[simp] theorem mem_sortedBy {xs : List α} {x : α} : x ∈ sortedBy key xs ↔ x ∈ xs :=
  (sortedBy_perm key xs).mem_iff

/-- Sorting puts the keys in order. -/
theorem pairwise_sortedBy (key : α → Text) (xs : List α) :
    (sortedBy key xs).Pairwise fun a b => TextLe (key a) (key b) := by
  have htotal : Std.Total fun a b : α => textLe (key a) (key b) = true :=
    ⟨fun a b => by
      rw [textLe_iff, textLe_iff]
      exact TextLe.total (key a) (key b)⟩
  have htrans : IsTrans α fun a b => textLe (key a) (key b) = true :=
    ⟨fun a b c => by
      rw [textLe_iff, textLe_iff, textLe_iff]
      exact TextLe.trans⟩
  refine (List.pairwise_insertionSort _ xs).imp ?_
  intro a b hle
  exact textLe_iff.mp hle

/-- What is in order stays as it is. -/
theorem sortedBy_eq_self {xs : List α} (horder : xs.Pairwise fun a b => TextLe (key a) (key b)) :
    sortedBy key xs = xs :=
  (horder.imp textLe_iff.mpr).insertionSort_eq

theorem sorted_perm (texts : List Text) : (sorted texts).Perm texts :=
  sortedBy_perm id texts

@[simp] theorem mem_sorted {texts : List Text} {text : Text} :
    text ∈ sorted texts ↔ text ∈ texts :=
  mem_sortedBy

theorem sorted_ne_nil {texts : List Text} (hne : texts ≠ []) : sorted texts ≠ [] := by
  intro hempty
  have hperm := sorted_perm texts
  rw [hempty] at hperm
  exact hne hperm.nil_eq.symm

theorem pairwise_sorted (texts : List Text) : (sorted texts).Pairwise TextLe :=
  pairwise_sortedBy id texts

/-- Two entries of a list stand in one of the two orders. -/
theorem pairwise_or {r : α → α → Prop} {xs : List α} (horder : xs.Pairwise r) {x y : α}
    (hx : x ∈ xs) (hy : y ∈ xs) (hne : x ≠ y) : r x y ∨ r y x := by
  have hsymm : Std.Symm fun x y => r x y ∨ r y x := ⟨fun _ _ => Or.symm⟩
  have hboth : xs.Pairwise fun x y => r x y ∨ r y x := horder.imp .inl
  exact hboth.forall hx hy hne

/-- Texts in order are what sorting gives. -/
theorem eq_sorted_of_perm {texts others : List Text} (hperm : texts.Perm others)
    (horder : texts.Pairwise TextLe) : texts = sorted others :=
  (hperm.trans (sorted_perm others).symm).eq_of_pairwise
    (fun _ _ _ _ => TextLe.antisymm) horder (pairwise_sorted others)

end

/-! ## Characters and words -/

/-- `lower`, for the ASCII characters that names of headers and hosts are made of. -/
def lower (text : Text) : Text :=
  text.map Char.toLower

theorem toLower_of_not_lt {c : Char} (hlt : ¬c.toNat < 128) : c.toLower = c := by
  refine dif_neg fun h => ?_
  have hle : c.toNat ≤ 'Z'.toNat := h.2
  exact hlt (Nat.lt_of_le_of_lt hle (by decide))

/-- A mark that is no letter in lower case is what it was. -/
theorem eq_of_toLower {c d : Char} (hascii : ∀ n < 128, (Char.ofNat n).toLower = d →
    Char.ofNat n = d) (hc : c.toLower = d) : c = d := by
  by_cases hlt : c.toNat < 128
  · have hsame := hascii c.toNat hlt
    rw [Char.ofNat_toNat] at hsame
    exact hsame hc
  · rwa [toLower_of_not_lt hlt] at hc

/-- `c.isspace()`. -/
def isWhitespace (c : Char) : Bool :=
  [0x09, 0x0A, 0x0B, 0x0C, 0x0D, 0x1C, 0x1D, 0x1E, 0x1F, 0x20, 0x85, 0xA0, 0x1680, 0x2000,
    0x2001, 0x2002, 0x2003, 0x2004, 0x2005, 0x2006, 0x2007, 0x2008, 0x2009, 0x200A, 0x2028,
    0x2029, 0x202F, 0x205F, 0x3000].contains c.toNat

/-- `text.strip()`. -/
def stripText (text : Text) : Text :=
  ((text.dropWhile isWhitespace).reverse.dropWhile isWhitespace).reverse

/-- `text.split()`: the words between whitespace. -/
def words (text : Text) : List Text :=
  (text.splitOnP isWhitespace).filter fun word => !word.isEmpty

theorem mem_of_mem_splitOnP {p : Char → Bool} {text piece : Text} {c : Char}
    (hpiece : piece ∈ text.splitOnP p) (hc : c ∈ piece) : c ∈ text := by
  induction text generalizing piece with
  | nil =>
      obtain rfl := List.mem_singleton.mp hpiece
      exact hc
  | cons d text ih =>
      rw [List.splitOnP_cons_eq_if_modifyHead] at hpiece
      obtain ⟨first, pieces, heq⟩ := List.exists_cons_of_ne_nil (List.splitOnP_ne_nil p text)
      split at hpiece
      · rcases List.mem_cons.mp hpiece with rfl | hlater
        · cases hc
        · exact List.mem_cons_of_mem d (ih hlater hc)
      · rw [heq, List.modifyHead_cons] at hpiece
        rcases List.mem_cons.mp hpiece with rfl | hlater
        · rcases List.mem_cons.mp hc with rfl | hc
          · exact List.mem_cons_self
          · exact List.mem_cons_of_mem d (ih (heq ▸ List.mem_cons_self) hc)
        · exact List.mem_cons_of_mem d (ih (heq ▸ List.mem_cons_of_mem _ hlater) hc)

theorem mem_of_mem_words {text word : Text} {c : Char} (hword : word ∈ words text)
    (hc : c ∈ word) : c ∈ text :=
  mem_of_mem_splitOnP (List.mem_of_mem_filter hword) hc

/-- `separator.join(texts)`, for a separator of one character. -/
def join (separator : Char) (texts : List Text) : Text :=
  [separator].intercalate texts

theorem mem_of_mem_stripText {text : Text} {c : Char} (hc : c ∈ stripText text) :
    c ∈ text := by
  have hc := (List.dropWhile_sublist _).subset (List.mem_reverse.mp hc)
  exact (List.dropWhile_sublist _).subset (List.mem_reverse.mp hc)

/-- Stripping keeps a part of a text, in one piece. -/
theorem stripText_within (text : Text) : stripText text <:+: text := by
  have hback : stripText text <+: text.dropWhile isWhitespace :=
    List.rdropWhile_prefix isWhitespace _
  exact hback.isInfix.trans (List.dropWhile_suffix isWhitespace).isInfix

theorem stripText_stripText (text : Text) : stripText (stripText text) = stripText text := by
  have hfront : (stripText text).dropWhile isWhitespace = stripText text := by
    rw [List.dropWhile_eq_self_iff]
    intro hpos
    have hstarts : stripText text <+: text.dropWhile isWhitespace :=
      List.rdropWhile_prefix isWhitespace _
    have hlong := Nat.lt_of_lt_of_le hpos hstarts.length_le
    rw [hstarts.getElem hpos]
    exact List.dropWhile_get_zero_not isWhitespace text hlong
  rw [stripText, hfront]
  exact List.rdropWhile_idempotent isWhitespace (text.dropWhile isWhitespace)

/-! ## Joining and splitting -/

section

variable {separator : Char} {texts : List Text} {text : Text} {c : Char}

theorem join_cons_of_ne_nil (hne : texts ≠ []) :
    join separator (text :: texts) = text ++ separator :: join separator texts := by
  rw [join, List.intercalate_cons_of_ne_nil hne]
  simp [join]

theorem join_append_singleton (hne : texts ≠ []) :
    join separator (texts ++ [text]) = join separator texts ++ separator :: text := by
  induction texts with
  | nil => exact absurd rfl hne
  | cons first texts ih =>
      by_cases hempty : texts = []
      · subst hempty
        simp [join]
      · rw [List.cons_append, join_cons_of_ne_nil (by simp), ih hempty,
          join_cons_of_ne_nil hempty, List.append_assoc, List.cons_append]

theorem mem_join_of_mem (htext : text ∈ texts) (hc : c ∈ text) :
    c ∈ join separator texts := by
  induction texts with
  | nil => cases htext
  | cons first texts ih =>
      by_cases hempty : texts = []
      · subst hempty
        obtain rfl := List.mem_singleton.mp htext
        simpa [join] using hc
      · rw [join_cons_of_ne_nil hempty, List.mem_append, List.mem_cons]
        rcases List.mem_cons.mp htext with rfl | hlater
        · exact .inl hc
        · exact .inr (.inr (ih hlater))

theorem mem_of_mem_join (hc : c ∈ join separator texts) (hne : c ≠ separator) :
    ∃ text ∈ texts, c ∈ text := by
  induction texts with
  | nil => simp [join] at hc
  | cons first texts ih =>
      by_cases hempty : texts = []
      · subst hempty
        exact ⟨first, List.mem_cons_self, by simpa [join] using hc⟩
      · rw [join_cons_of_ne_nil hempty, List.mem_append, List.mem_cons] at hc
        rcases hc with hc | heq | hlater
        · exact ⟨first, List.mem_cons_self, hc⟩
        · exact absurd heq hne
        · obtain ⟨text, htext, hc⟩ := ih hlater
          exact ⟨text, List.mem_cons_of_mem _ htext, hc⟩

theorem notMem_of_mem_splitOn {piece : Text} (hpiece : piece ∈ text.splitOn separator) :
    separator ∉ piece := by
  induction text generalizing piece with
  | nil =>
      obtain rfl := List.mem_singleton.mp hpiece
      exact List.not_mem_nil
  | cons c text ih =>
      rw [List.splitOn_cons_eq_if_modifyHead] at hpiece
      split at hpiece
      · rcases List.mem_cons.mp hpiece with rfl | hlater
        · exact List.not_mem_nil
        · exact ih hlater
      · rename_i hc
        obtain ⟨first, pieces, heq⟩ :=
          List.exists_cons_of_ne_nil (List.splitOn_ne_nil separator text)
        rw [heq, List.modifyHead_cons] at hpiece
        have hfirst : separator ∉ first := ih (heq ▸ List.mem_cons_self)
        rcases List.mem_cons.mp hpiece with rfl | hlater
        · intro hin
          rcases List.mem_cons.mp hin with rfl | hin
          · simp at hc
          · exact hfirst hin
        · exact ih (heq ▸ List.mem_cons_of_mem _ hlater)

/-- The characters of a text other than the separator are in its pieces. -/
theorem exists_mem_splitOn (hc : c ∈ text) (hne : c ≠ separator) :
    ∃ piece ∈ text.splitOn separator, c ∈ piece := by
  rw [← @List.intercalate_splitOn _ text _ _ separator] at hc
  exact mem_of_mem_join hc hne

end

end Boto
