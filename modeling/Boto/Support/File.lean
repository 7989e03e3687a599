import Mathlib.Data.Int.Notation
import Mathlib.Data.List.Basic

/-!
# Files with a position

A `File` is a sequence of elements and a position in or beyond it.  Reading takes
elements from the position on, writing overwrites them, and both move the
position past what they touched.  Seeking sets the position alone, and
truncating the elements alone.
-/

namespace Files

variable {α : Type*}

/-- The elements of a file and the position of the next access. -/
structure File (α : Type*) where
  content : List α
  pos : ℕ
  deriving DecidableEq, Repr

/-- The place an offset is counted from. -/
inductive Whence
  | start
  | current
  | stop
  deriving DecidableEq, Repr

namespace File

/-- What lies at the position and behind it. -/
def rest (f : File α) : List α := f.content.drop f.pos

/-- Read at most `n` elements. -/
def read (n : ℕ) (f : File α) : List α × File α :=
  (f.rest.take n, { f with pos := f.pos + (f.rest.take n).length })

/-- The position an offset leads to. -/
def target (f : File α) (offset : ℤ) : Whence → ℤ
  | .start => offset
  | .current => f.pos + offset
  | .stop => f.content.length + offset

/-- Move to an offset; there is no position before the start. -/
def seek (offset : ℤ) (whence : Whence) (f : File α) : Option (File α) :=
  if f.target offset whence < 0 then none
  else some { f with pos := (f.target offset whence).toNat }

/-- Write over what is at the position.  A gap between the end of the file and
the position is filled with `pad`. -/
def write (pad : α) (data : List α) (f : File α) : File α :=
  if data.isEmpty then f
  else
    { content := f.content.take f.pos ++
        List.replicate (f.pos - f.content.length) pad ++ data ++
          f.content.drop (f.pos + data.length)
      pos := f.pos + data.length }

/-- Cut the file off after `n` elements; the position stays where it is. -/
def truncate (n : ℕ) (f : File α) : File α :=
  { f with content := f.content.take n }

section

variable (f : File α) (n : ℕ)

@[simp] theorem read_fst : (f.read n).1 = f.rest.take n := rfl

@[simp] theorem content_read : (f.read n).2.content = f.content := rfl

/-- What is left after reading. -/
@[simp] theorem rest_read : (f.read n).2.rest = f.rest.drop n := by
  simp only [read, rest, List.length_take, List.length_drop, List.drop_drop]
  rcases Nat.le_total n (f.content.length - f.pos) with h | h
  · rw [Nat.min_eq_left h]
  · rw [Nat.min_eq_right h, List.drop_of_length_le (by omega),
      List.drop_of_length_le (by omega)]

theorem pos_read_of_le (h : f.pos + n ≤ f.content.length) :
    (f.read n).2.pos = f.pos + n := by
  simp only [read, rest, List.length_take, List.length_drop]
  omega

theorem seek_of_neg {f : File α} {offset : ℤ} {whence : Whence}
    (h : f.target offset whence < 0) : f.seek offset whence = none :=
  if_pos h

theorem seek_of_eq {f : File α} {offset : ℤ} {whence : Whence} {k : ℕ}
    (h : f.target offset whence = k) :
    f.seek offset whence = some { f with pos := k } := by
  have hpos : ¬ f.target offset whence < 0 := by omega
  rw [seek, if_neg hpos, h, Int.toNat_natCast]

@[simp] theorem content_truncate : (f.truncate n).content = f.content.take n :=
  rfl

@[simp] theorem pos_truncate : (f.truncate n).pos = f.pos := rfl

end

end File

end Files
