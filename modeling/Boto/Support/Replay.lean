import Mathlib.Data.List.Basic
import Mathlib.Data.Nat.Notation

/-!
# Replaying a log of writes

A log of entries, each of which writes one key of a store.  What replaying it gives
at a key depends only on the entries on that key, in their order (its stream): the
last of them is what counts.  Two logs with the same streams give the same store,
however the entries on different keys lie.
-/

namespace Replay

variable {ω κ ν : Type} [DecidableEq κ] (keyOf : ω → κ) (effect : ω → ν)

/-- The entries on a key, in their order. -/
def stream (key : κ) (log : List ω) : List ω :=
  log.filter fun entry => keyOf entry == key

@[simp] theorem stream_nil (key : κ) : stream keyOf key [] = [] := rfl

@[simp] theorem stream_append (key : κ) (log log' : List ω) :
    stream keyOf key (log ++ log') = stream keyOf key log ++ stream keyOf key log' :=
  List.filter_append ..

@[simp] theorem stream_singleton_same (entry : ω) :
    stream keyOf (keyOf entry) [entry] = [entry] := by
  simp [stream]

theorem stream_singleton_of_ne {key : κ} {entry : ω} (hne : keyOf entry ≠ key) :
    stream keyOf key [entry] = [] := by
  simp [stream, hne]

/-- A key with an empty stream is the key of no entry. -/
theorem stream_eq_nil_iff (key : κ) (log : List ω) :
    stream keyOf key log = [] ↔ ∀ entry ∈ log, keyOf entry ≠ key := by
  simp [stream]

/-- The store after an entry. -/
def write (store : κ → ν) (entry : ω) : κ → ν := fun key =>
  if keyOf entry = key then effect entry else store key

/-- The store after the entries of a log. -/
def replay (store : κ → ν) (log : List ω) : κ → ν :=
  log.foldl (write keyOf effect) store

variable {keyOf effect}

/-- Replaying leaves at a key what the last entry on it writes. -/
theorem replay_eq_last (store : κ → ν) (log : List ω) (key : κ) :
    replay keyOf effect store log key =
      ((stream keyOf key log).getLast?.map effect).getD (store key) := by
  induction log generalizing store with
  | nil => rfl
  | cons entry log ih =>
      rw [replay, List.foldl_cons]
      change replay keyOf effect (write keyOf effect store entry) log key = _
      rw [ih, ← List.singleton_append, stream_append]
      by_cases hkey : keyOf entry = key
      · subst hkey
        rw [stream_singleton_same, List.singleton_append, List.getLast?_cons]
        cases (stream keyOf (keyOf entry) log).getLast? <;> simp [write]
      · rw [stream_singleton_of_ne keyOf hkey, List.nil_append, write, if_neg hkey]

end Replay
