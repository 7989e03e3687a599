import Boto.Support.Blocks
import Boto.Support.File

/-!
# Blocks of a list that are written to a file

The blocks of a list are written to an empty file, each at its place.  They make the list
whatever the order in which they are written.
-/

namespace Files.File

variable {α : Type*} {f : File α} {pad : α} {data : List α} {x : ℕ}

theorem getElem?_write_of_mem (hle : f.pos ≤ x) (hlt : x < f.pos + data.length) :
    (f.write pad data).content[x]? = data[x - f.pos]? := by
  have hne : data.isEmpty = false := by
    rw [List.isEmpty_eq_false_iff]
    rintro rfl
    rw [List.length_nil] at hlt
    omega
  have hfront : (f.content.take f.pos ++
      List.replicate (f.pos - f.content.length) pad).length = f.pos := by
    rw [List.length_append, List.length_take, List.length_replicate]
    omega
  rw [write, hne, if_neg Bool.false_ne_true]
  dsimp only
  rw [List.append_assoc, List.getElem?_append_right (by omega), hfront,
    List.getElem?_append_left (by omega)]

theorem getElem?_write_of_lt (hx : x < f.content.length)
    (houtside : x < f.pos ∨ f.pos + data.length ≤ x) :
    (f.write pad data).content[x]? = f.content[x]? := by
  rw [write]
  split
  · rfl
  · have hfront : (f.content.take f.pos ++
        List.replicate (f.pos - f.content.length) pad).length = f.pos := by
      rw [List.length_append, List.length_take, List.length_replicate]
      omega
    dsimp only
    rcases houtside with hbefore | hbehind
    · rw [List.append_assoc, List.append_assoc, List.getElem?_append_left,
        List.getElem?_take_of_lt hbefore]
      rw [List.length_take]
      omega
    · rw [List.getElem?_append_right, List.getElem?_drop, List.length_append, hfront,
        Nat.add_sub_cancel' hbehind]
      rw [List.length_append, hfront]
      exact hbehind

theorem length_write_le {n : ℕ} (hlength : f.content.length ≤ n)
    (hdata : f.pos + data.length ≤ n) : (f.write pad data).content.length ≤ n := by
  rw [write]
  split
  · exact hlength
  · simp only [List.length_append, List.length_take, List.length_replicate, List.length_drop]
    omega

end Files.File

namespace Blocks

open Files (File)

variable {α : Type*} {pad : α} {p : ℕ} {xs : List α}

/-- The file after a block was written at its place. -/
def writeBlock (pad : α) (p : ℕ) (xs : List α) (f : File α) (i : ℕ) : File α :=
  File.write pad ((xs.drop (i * p)).take p) { f with pos := i * p }

/-- What was written of a list: the blocks with some numbers. -/
structure Written (p : ℕ) (xs : List α) (blocks : ℕ → Prop) (f : File α) : Prop where
  blocks : ∀ x, x < xs.length → blocks (x / p) → f.content[x]? = xs[x]?
  length : f.content.length ≤ xs.length

theorem written_empty (p : ℕ) (xs : List α) : Written p xs (fun _ => False) ⟨[], 0⟩ where
  blocks := fun _ _ hin => hin.elim
  length := Nat.zero_le _

/-- Writing a block keeps the others. -/
theorem Written.writeBlock {blocks : ℕ → Prop} {f : File α} (hp : 0 < p)
    (hwritten : Written p xs blocks f) {i : ℕ} (hi : i * p < xs.length) :
    Written p xs (fun j => blocks j ∨ j = i) (Blocks.writeBlock pad p xs f i) := by
  have hlength : ((xs.drop (i * p)).take p).length = min p (xs.length - i * p) := by
    rw [List.length_take, List.length_drop]
  refine ⟨fun x hx hin => ?_, ?_⟩
  · by_cases hblock : x / p = i
    · have hle : i * p ≤ x := (Nat.le_div_iff_mul_le hp).mp hblock.ge
      have hlt : x < i * p + p := by
        have hlt := (Nat.div_lt_iff_lt_mul hp).mp (Nat.lt_succ_of_le hblock.le)
        rwa [Nat.succ_mul] at hlt
      have hin : x - i * p < p := by omega
      have hread := @File.getElem?_write_of_mem _ ⟨f.content, i * p⟩ pad
        ((xs.drop (i * p)).take p) x hle (by dsimp only; omega)
      rw [List.getElem?_take_of_lt hin, List.getElem?_drop, Nat.add_sub_cancel' hle] at hread
      exact hread
    · have hold := hwritten.blocks x hx (hin.resolve_right hblock)
      have hwas : x < f.content.length := by
        by_contra hnot
        rw [List.getElem?_eq_none (not_lt.mp hnot), List.getElem?_eq_getElem hx] at hold
        cases hold
      have houtside : x < i * p ∨ i * p + ((xs.drop (i * p)).take p).length ≤ x := by
        by_contra hboth
        refine hblock (Nat.div_eq_of_lt_le (by omega) ?_)
        rw [Nat.succ_mul]
        omega
      exact (@File.getElem?_write_of_lt _ ⟨f.content, i * p⟩ pad _ x hwas houtside).trans hold
  · refine File.length_write_le hwritten.length ?_
    dsimp only
    omega

/-- The blocks of a list make it in any order. -/
theorem content_writeBlocks (hp : 0 < p) {order : List ℕ}
    (horder : order.Perm (List.range (xs.length ⌈/⌉ p))) :
    (order.foldl (Blocks.writeBlock pad p xs) ⟨[], 0⟩).content = xs := by
  have hfold : ∀ (order : List ℕ) (blocks : ℕ → Prop) (f : File α),
      (∀ i ∈ order, i * p < xs.length) → Written p xs blocks f →
        Written p xs (fun j => blocks j ∨ j ∈ order)
          (order.foldl (Blocks.writeBlock pad p xs) f) := by
    intro order
    induction order with
    | nil =>
        intro blocks f _ hwritten
        exact ⟨fun x hx hin => hwritten.blocks x hx (hin.resolve_right List.not_mem_nil),
          hwritten.length⟩
    | cons i order ih =>
        intro blocks f hbound hwritten
        have hnext := ih _ _ (fun j hj => hbound j (List.mem_cons_of_mem _ hj))
          (@Written.writeBlock _ pad p xs _ f hp hwritten i (hbound i List.mem_cons_self))
        refine ⟨fun x hx hin => hnext.blocks x hx ?_, hnext.length⟩
        rcases hin with hin | hin
        · exact .inl (.inl hin)
        · rcases List.mem_cons.mp hin with heq | hin
          · exact .inl (.inr heq)
          · exact .inr hin
  have hmem : ∀ i, i ∈ order ↔ i * p < xs.length := fun i => by
    rw [horder.mem_iff, List.mem_range, lt_ceilDiv_iff hp]
  have hwritten := hfold order _ _ (fun i hi => (hmem i).mp hi) (written_empty p xs)
  refine List.ext_getElem? fun x => ?_
  by_cases hx : x < xs.length
  · exact hwritten.blocks x hx (.inr ((hmem _).mpr
      ((Nat.div_mul_le_self x p).trans_lt hx)))
  · have hlength := hwritten.length
    rw [List.getElem?_eq_none (by omega), List.getElem?_eq_none (by omega)]

end Blocks
