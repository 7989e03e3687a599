import Mathlib.Data.List.Nodup
import Boto.Python
import Boto.Support.BijectiveNumeration

/-!
# Sequences of strings

`SequenceGenerator` of `boto/sdb/db/sequence.py`, for a sequence that is a string, so that
its items are single characters.  Without rollover it counts in bijective numeration.
-/

namespace Boto.SDB

/-- `SequenceGenerator`. -/
structure SequenceGenerator where
  sequenceString : Text
  rollover : Bool := false

namespace SequenceGenerator

/-- `_inc`, which raises for a character that is not in the sequence. -/
def inc (generator : SequenceGenerator) (val : Char) : Option Char :=
  if val ∈ generator.sequenceString then
    generator.sequenceString[
      (generator.sequenceString.idxOf val + 1) % generator.sequenceString.length]?
  else none

/-- `__call__` for a string. -/
def next (generator : SequenceGenerator) (val : Text) : Option Text :=
  if hval : val = [] then generator.sequenceString.head?.map fun first => [first]
  else
    let lastValue := val.getLast hval
    if !generator.rollover && some lastValue == generator.sequenceString.getLast? then do
      let front ← generator.next val.dropLast
      let last ← generator.inc lastValue
      return front ++ [last]
    else do
      let last ← generator.inc lastValue
      return val.dropLast ++ [last]
termination_by val.length
decreasing_by
  rw [List.length_dropLast]
  exact Nat.sub_lt (List.length_pos_iff.mpr hval) Nat.one_pos

/-- `__call__`. -/
def call (generator : SequenceGenerator) : Option Text → Option Text
  | none => generator.sequenceString.head?.map fun first => [first]
  | some val => generator.next val

/-- The values of the generator when it is called on `None` and then again and again on what
it has returned. -/
def values (generator : SequenceGenerator) : ℕ → Option Text
  | 0 => generator.call none
  | n + 1 => (generator.values n).bind fun val => generator.call (some val)

end SequenceGenerator

open BijectiveNumeration (number)

variable {symbols : Text} {v w : Text}

/-- The characters of a string are in the sequence. -/
def Over (symbols v : Text) : Prop := ∀ c ∈ v, c ∈ symbols

/-- The order of length and then of the sequence. -/
def Before (symbols : Text) : Text → Text → Prop :=
  List.Shortlex fun a b => symbols.idxOf a < symbols.idxOf b

/-- The number of a string. -/
def textNumber (symbols v : Text) : ℕ :=
  v.foldl (fun n c => n * symbols.length + (symbols.idxOf c + 1)) 0

/-! ## Strings as digits -/

/-- The string of some digits. -/
def spell (symbols : Text) (ds : List (Fin symbols.length)) : Text :=
  ds.map symbols.get

theorem over_spell (ds : List (Fin symbols.length)) : Over symbols (spell symbols ds) := by
  intro c hc
  obtain ⟨d, -, rfl⟩ := List.mem_map.mp hc
  exact List.get_mem symbols d

theorem exists_spell (hover : Over symbols v) : ∃ ds, spell symbols ds = v := by
  induction v with
  | nil => exact ⟨[], rfl⟩
  | cons c v ih =>
      obtain ⟨hc, hv⟩ := List.forall_mem_cons.mp hover
      obtain ⟨d, rfl⟩ := List.get_of_mem hc
      obtain ⟨ds, rfl⟩ := ih hv
      exact ⟨d :: ds, rfl⟩

theorem call_none : SequenceGenerator.call ⟨symbols, false⟩ none =
    SequenceGenerator.call ⟨symbols, false⟩ (some []) := by
  rw [SequenceGenerator.call, SequenceGenerator.call, SequenceGenerator.next, dif_pos rfl]

section

variable (hnodup : symbols.Nodup)

include hnodup

theorem idxOf_get (d : Fin symbols.length) : symbols.idxOf (symbols.get d) = d :=
  List.Nodup.idxOf_getElem hnodup d d.isLt

theorem textNumber_spell (ds : List (Fin symbols.length)) :
    textNumber symbols (spell symbols ds) = number ds := by
  rw [textNumber, spell, List.foldl_map, number]
  congr 1
  funext n d
  rw [idxOf_get hnodup]

theorem before_spell_iff (ds es : List (Fin symbols.length)) :
    Before symbols (spell symbols ds) (spell symbols es) ↔ List.Shortlex (· < ·) ds es := by
  have hlex : ∀ ds es : List (Fin symbols.length),
      List.Lex (fun a b => symbols.idxOf a < symbols.idxOf b) (spell symbols ds)
        (spell symbols es) ↔ List.Lex (· < ·) ds es := by
    intro ds
    induction ds with
    | nil =>
        intro es
        cases es with
        | nil => exact iff_of_false nofun nofun
        | cons e es => exact iff_of_true .nil .nil
    | cons d ds ih =>
        intro es
        cases es with
        | nil => exact iff_of_false nofun nofun
        | cons e es =>
            constructor
            · intro h
              generalize hleft : spell symbols (d :: ds) = left at h
              generalize hright : spell symbols (e :: es) = right at h
              cases h with
              | nil => cases hleft
              | cons hrest =>
                  obtain ⟨rfl, rfl⟩ := List.cons.inj hleft
                  obtain ⟨hhead, rfl⟩ := List.cons.inj hright
                  have heq : e = d := hnodup.injective_get hhead
                  rw [heq]
                  exact .cons ((ih es).mp hrest)
              | rel hlt =>
                  obtain ⟨rfl, -⟩ := List.cons.inj hleft
                  obtain ⟨rfl, -⟩ := List.cons.inj hright
                  rw [idxOf_get hnodup, idxOf_get hnodup] at hlt
                  exact .rel hlt
            · intro h
              cases h with
              | cons hrest => exact .cons ((ih es).mpr hrest)
              | rel hlt =>
                  refine .rel ?_
                  rw [idxOf_get hnodup, idxOf_get hnodup]
                  exact hlt
  rw [Before, List.shortlex_def, List.shortlex_def, hlex, spell, spell, List.length_map,
    List.length_map]

/-! ## The next string -/

theorem get_eq_getLast?_iff (hne : symbols ≠ []) (d : Fin symbols.length) :
    some (symbols.get d) = symbols.getLast? ↔ d.val + 1 = symbols.length := by
  have hpos : 0 < symbols.length := List.length_pos_iff.mpr hne
  have hlt : symbols.length - 1 < symbols.length := Nat.sub_lt hpos Nat.one_pos
  have hlast : symbols.getLast? = some (symbols.get ⟨symbols.length - 1, hlt⟩) := by
    rw [List.getLast?_eq_getElem?, List.getElem?_eq_getElem hlt]
    rfl
  rw [hlast, Option.some_inj, hnodup.injective_get.eq_iff, Fin.ext_iff]
  simp only
  omega

/-- The generator adds one. -/
theorem next_spell (hne : symbols ≠ []) (ds : List (Fin symbols.length)) :
    ∃ es, SequenceGenerator.next ⟨symbols, false⟩ (spell symbols ds) = some (spell symbols es) ∧
      number es = number ds + 1 := by
  have hpos : 0 < symbols.length := List.length_pos_iff.mpr hne
  induction ds using List.reverseRecOn with
  | nil =>
      refine ⟨[⟨0, hpos⟩], ?_, by simp [number]⟩
      have hnil : spell symbols [] = [] := rfl
      rw [SequenceGenerator.next, dif_pos hnil, List.head?_eq_getElem?,
        List.getElem?_eq_getElem hpos]
      rfl
  | append_singleton ds d ih =>
      have hval : spell symbols (ds ++ [d]) = spell symbols ds ++ [symbols.get d] :=
        List.map_append
      have hmem : symbols.get d ∈ symbols := List.get_mem symbols d
      have hinc : SequenceGenerator.inc ⟨symbols, false⟩ (symbols.get d) =
          symbols[(d.val + 1) % symbols.length]? := by
        rw [SequenceGenerator.inc, if_pos hmem, idxOf_get hnodup]
      have hlast : (some (symbols.get d) == symbols.getLast?) =
          decide (d.val + 1 = symbols.length) := by
        rw [Bool.eq_iff_iff, beq_iff_eq, decide_eq_true_iff]
        exact get_eq_getLast?_iff hnodup hne d
      rw [hval, SequenceGenerator.next, dif_neg (by simp)]
      simp only [List.getLast_append_singleton, List.dropLast_concat, Bool.not_false,
        Bool.true_and, hlast, decide_eq_true_eq]
      by_cases hcarry : d.val + 1 = symbols.length
      · obtain ⟨es, hes, hnumber⟩ := ih
        refine ⟨es ++ [⟨0, hpos⟩], ?_, ?_⟩
        · rw [if_pos hcarry, hes, hinc, hcarry, Nat.mod_self, List.getElem?_eq_getElem hpos]
          simp [spell]
        · rw [BijectiveNumeration.number_concat, BijectiveNumeration.number_concat, hnumber,
            Nat.succ_mul]
          simp only
          omega
      · have hlt : d.val + 1 < symbols.length := Nat.lt_of_le_of_ne d.isLt hcarry
        refine ⟨ds ++ [⟨d.val + 1, hlt⟩], ?_, ?_⟩
        · rw [if_neg hcarry, hinc, Nat.mod_eq_of_lt hlt, List.getElem?_eq_getElem hlt]
          simp [spell]
        · rw [BijectiveNumeration.number_concat, BijectiveNumeration.number_concat]
          simp only
          omega

theorem textNumber_lt_iff (hv : Over symbols v) (hw : Over symbols w) :
    Before symbols v w ↔ textNumber symbols v < textNumber symbols w := by
  obtain ⟨ds, rfl⟩ := exists_spell hv
  obtain ⟨es, rfl⟩ := exists_spell hw
  rw [before_spell_iff hnodup, textNumber_spell hnodup, textNumber_spell hnodup,
    BijectiveNumeration.number_lt_iff]

theorem textNumber_inj (hv : Over symbols v) (hw : Over symbols w)
    (heq : textNumber symbols v = textNumber symbols w) : v = w := by
  obtain ⟨ds, rfl⟩ := exists_spell hv
  obtain ⟨es, rfl⟩ := exists_spell hw
  rw [textNumber_spell hnodup, textNumber_spell hnodup] at heq
  rw [BijectiveNumeration.number_injective heq]

theorem exists_textNumber (hne : symbols ≠ []) (m : ℕ) :
    ∃ v, Over symbols v ∧ textNumber symbols v = m := by
  obtain ⟨ds, hds⟩ := BijectiveNumeration.exists_number (List.length_pos_iff.mpr hne) m
  exact ⟨spell symbols ds, over_spell ds, by rw [textNumber_spell hnodup, hds]⟩

/-- A call on a string gives the string with the next number. -/
theorem call_some (hne : symbols ≠ []) (hv : Over symbols v) :
    ∃ w, SequenceGenerator.call ⟨symbols, false⟩ (some v) = some w ∧ Over symbols w ∧
      textNumber symbols w = textNumber symbols v + 1 := by
  obtain ⟨ds, rfl⟩ := exists_spell hv
  obtain ⟨es, hnext, hnumber⟩ := next_spell hnodup hne ds
  refine ⟨spell symbols es, hnext, over_spell es, ?_⟩
  rw [textNumber_spell hnodup, textNumber_spell hnodup, hnumber]

/-- The value after `n` others is the string with the number `n + 1`. -/
theorem values_eq (hne : symbols ≠ []) (n : ℕ) :
    ∃ w, SequenceGenerator.values ⟨symbols, false⟩ n = some w ∧ Over symbols w ∧
      textNumber symbols w = n + 1 := by
  induction n with
  | zero =>
      obtain ⟨w, hcall, hw, hnumber⟩ := call_some hnodup hne (List.forall_mem_nil _)
      exact ⟨w, (call_none).trans hcall, hw, hnumber⟩
  | succ n ih =>
      obtain ⟨v, hvalue, hv, hnumber⟩ := ih
      obtain ⟨w, hcall, hw, hnext⟩ := call_some hnodup hne hv
      refine ⟨w, ?_, hw, by rw [hnext, hnumber]⟩
      rw [SequenceGenerator.values, hvalue, Option.bind_some, hcall]

/-- Without rollover the generator is the successor of bijective numeration, and iterating it
gives every non-empty string once. -/
theorem generator_counts (hne : symbols ≠ []) :
    (textNumber symbols [] = 0 ∧
      (∀ m, ∃! v, Over symbols v ∧ textNumber symbols v = m) ∧
      ∀ v w, Over symbols v → Over symbols w →
        (Before symbols v w ↔ textNumber symbols v < textNumber symbols w)) ∧
    (∀ v, Over symbols v →
      ∃ w, SequenceGenerator.call ⟨symbols, false⟩ (some v) = some w ∧ Over symbols w ∧
        textNumber symbols w = textNumber symbols v + 1 ∧ Before symbols v w ∧
        ∀ u, Over symbols u → Before symbols v u → u = w ∨ Before symbols w u) ∧
    SequenceGenerator.call ⟨symbols, false⟩ none =
      SequenceGenerator.call ⟨symbols, false⟩ (some []) ∧
    (∀ n, ∃ w, SequenceGenerator.values ⟨symbols, false⟩ n = some w ∧ w ≠ [] ∧
      Over symbols w) ∧
    ∀ w, w ≠ [] → Over symbols w →
      ∃! n, SequenceGenerator.values ⟨symbols, false⟩ n = some w := by
  refine ⟨⟨rfl, ?_, fun v w hv hw => textNumber_lt_iff hnodup hv hw⟩, ?_, call_none, ?_,
    ?_⟩
  · intro m
    obtain ⟨v, hv, rfl⟩ := exists_textNumber hnodup hne m
    exact ⟨v, ⟨hv, rfl⟩, fun u ⟨hu, heq⟩ => textNumber_inj hnodup hu hv heq⟩
  · intro v hv
    obtain ⟨w, hcall, hw, hnumber⟩ := call_some hnodup hne hv
    have hbefore : Before symbols v w := (textNumber_lt_iff hnodup hv hw).mpr (by omega)
    refine ⟨w, hcall, hw, hnumber, hbefore, ?_⟩
    intro u hu hvu
    rw [textNumber_lt_iff hnodup hv hu] at hvu
    rcases Nat.lt_or_eq_of_le (Nat.succ_le_of_lt hvu) with hlt | heq
    · exact .inr ((textNumber_lt_iff hnodup hw hu).mpr (by omega))
    · exact .inl (textNumber_inj hnodup hu hw (by omega))
  · intro n
    obtain ⟨w, hvalue, hw, hnumber⟩ := values_eq hnodup hne n
    refine ⟨w, hvalue, ?_, hw⟩
    rintro rfl
    cases hnumber
  · intro w hwne hw
    have hpos : textNumber symbols w ≠ 0 := by
      intro hzero
      exact hwne (textNumber_inj hnodup hw (List.forall_mem_nil _) hzero)
    obtain ⟨v, hvalue, hv, hnumber⟩ := values_eq hnodup hne (textNumber symbols w - 1)
    have heq : v = w := textNumber_inj hnodup hv hw (by omega)
    refine ⟨textNumber symbols w - 1, heq ▸ hvalue, ?_⟩
    intro n hn
    obtain ⟨u, hu, -, hunumber⟩ := values_eq hnodup hne n
    have huw : u = w := Option.some_inj.mp (hu.symm.trans hn)
    rw [huw] at hunumber
    omega

end

/-- With two characters, what follows the last string of a length is the first of the next. -/
theorem generator_counts_two :
    ∃! n, SequenceGenerator.values ⟨"AB".toList, false⟩ n = some "AA".toList :=
  (@generator_counts "AB".toList (by decide) (by decide)).2.2.2.2 "AA".toList (by decide)
    (fun c hc => by
      cases List.eq_of_mem_replicate (n := 2) (a := 'A') hc
      exact List.mem_cons_self)

end Boto.SDB
