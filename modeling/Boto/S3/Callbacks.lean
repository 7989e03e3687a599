import Boto.Python
import Boto.Support.Blocks
import Boto.Support.Reports
import Mathlib.Data.Rat.Floor
import Mathlib.Tactic.FieldSimp

/-!
# Progress callbacks of keys

What the callback of `Key._send_file_internal` and `Key._get_file_internal` is called with.
A file is taken by the number of bytes that it still has, and a float by the quotient that it
stands for, which is the same for sizes below `2 ^ 51`.

The last buffer ends the loops before it is counted, except where the size of an upload is
not given but is an attribute of the key.  So whether the last call is made, and whether there
is one too many, depends on what is left of the number of buffers.
-/

namespace Boto.S3.Callbacks

/-- A call of the callback: the bytes so far, and the size. -/
abbrev Call := ℕ × ℕ

/-- The variable `i`, and the calls that were made. -/
abbrev Progress := ℕ × List Call

variable (version : PyVersion) (bufferSize : ℕ)

/-- `cb_size / self.BufferSize`. -/
def quotient (cbSize : ℕ) : ℚ :=
  match version with
  | .py2 => (cbSize / bufferSize : ℕ)
  | .py3 => cbSize / bufferSize

/-- `cb_count`; `unknown` is the condition under which no size is used. -/
def cbCount (unknown : Bool) (cbSize : ℕ) (numCb : ℤ) : ℚ :=
  if unknown then quotient version bufferSize (1024 * 1024)
  else if 1 < numCb then ⌈quotient version bufferSize cbSize / (numCb - 1)⌉
  else if numCb < 0 then -1
  else 0

/-- `i += 1` and the call that follows if it is due. -/
def count (cbCount : ℚ) (cbSize dataLen : ℕ) (progress : Progress) : Progress :=
  if ((progress.1 + 1 : ℕ) : ℚ) = cbCount ∨ cbCount = -1 then
    (0, progress.2 ++ [(dataLen, cbSize)])
  else (progress.1 + 1, progress.2)

/-- The call behind the loop, and all that were made. -/
def finish (cbCount : ℚ) (cbSize : ℕ) (result : ℕ × Progress) : List Call :=
  if (cbCount ≤ 1 ∨ 0 < result.2.1) ∧ 0 < result.1 then
    result.2.2 ++ [(result.1, cbSize)]
  else result.2.2

/-! ## Uploads -/

/-- How many bytes of a file with `left` bytes are read. -/
def readLength (bytesTogo : Option ℕ) (left : ℕ) : ℕ :=
  match bytesTogo with
  | none | some 0 => min bufferSize left
  | some togo => min (if togo < bufferSize then togo else bufferSize) left

/-- The `while chunk` loop, for at most the given number of rounds: `chunk` bytes were read
and `left` are in the file. -/
def sendLoop (cbCount : ℚ) (cbSize : ℕ) : ℕ → ℕ → ℕ → Option ℕ → ℕ → Progress → ℕ × Progress
  | 0, _, _, _, dataLen, progress => (dataLen, progress)
  | fuel + 1, chunk, left, bytesTogo, dataLen, progress =>
      if chunk = 0 then (dataLen, progress)
      else
        let dataLen := dataLen + chunk
        let more (bytesTogo : Option ℕ) :=
          let next := readLength bufferSize bytesTogo left
          sendLoop cbCount cbSize fuel next (left - next) bytesTogo dataLen
            (count cbCount cbSize dataLen progress)
        match bytesTogo with
        | none | some 0 => more bytesTogo
        | some togo =>
            if togo - chunk = 0 then (dataLen, progress)
            else more (some (togo - chunk))

/-- `cb_size` of an upload. -/
def sendSize (size selfSize : Option ℕ) : ℕ :=
  match size with
  | some (n + 1) => n + 1
  | none | some 0 => selfSize.getD 0

/-- The calls of an upload of a file with `left` bytes. -/
def sendFileInternal (chunkedTransfer : Bool) (size selfSize : Option ℕ) (left : ℕ)
    (numCb : ℤ) : List Call :=
  let cbSize := sendSize size selfSize
  let cbCount := cbCount version bufferSize (chunkedTransfer && cbSize == 0) cbSize numCb
  let chunk := readLength bufferSize size left
  finish cbCount cbSize
    (sendLoop bufferSize cbCount cbSize (left + 1) chunk (left - chunk) size 0
      (0, [(0, cbSize)]))

/-! ## Downloads -/

/-- The loop over the key, for at most the given number of rounds: the response has `left`
bytes. -/
def getLoop (cbCount : ℚ) (cbSize : ℕ) : ℕ → ℕ → ℕ → Progress → ℕ × Progress
  | 0, _, dataLen, progress => (dataLen, progress)
  | fuel + 1, left, dataLen, progress =>
      let chunk := min bufferSize left
      if chunk = 0 then (dataLen, progress)
      else
        let dataLen := dataLen + chunk
        if 0 < cbSize ∧ cbSize ≤ dataLen then (dataLen, progress)
        else getLoop cbCount cbSize fuel (left - chunk) dataLen
          (count cbCount cbSize dataLen progress)

/-- The calls of a download of a response with `left` bytes. -/
def getFileInternal (selfSize : Option ℕ) (left : ℕ) (numCb : ℤ) : List Call :=
  let cbSize := selfSize.getD 0
  let cbCount := cbCount version bufferSize (selfSize.isNone && numCb ≠ -1) cbSize numCb
  finish cbCount cbSize
    (getLoop bufferSize cbCount cbSize (left + 1) left 0 (0, [(0, cbSize)]))

/-! ## What is promised -/

/-- What is promised of the calls for a size: not more than asked for, in order, from no
bytes to all of them. -/
structure Reported (size numCb : ℕ) (calls : List Call) : Prop where
  atMost : calls.length ≤ numCb
  ordered : calls.Pairwise fun a b => a.1 ≤ b.1
  first : calls.head? = some (0, size)
  last : calls.getLast? = some (size, size)

/-- The buffers that are divided among the calls.  In Python 2 a shorter last one is not. -/
def dividedBuffers (size : ℕ) : ℕ :=
  match version with
  | .py2 => size / bufferSize
  | .py3 => size ⌈/⌉ bufferSize

/-- The condition under which the calls are as promised where the last buffer is not counted,
for `m + 1` calls. -/
def UncountedRight (size m : ℕ) : Prop :=
  let buffers := size ⌈/⌉ bufferSize
  let divided := dividedBuffers version bufferSize size
  divided = 0 ∨ divided ≤ m ∧ buffers ≤ m ∨ m < divided ∧ (buffers - 1) % (divided ⌈/⌉ m) ≠ 0

/-- The condition under which the calls are as promised where the last buffer is counted, for
`m + 1` calls. -/
def CountedRight (size m : ℕ) : Prop :=
  let buffers := size ⌈/⌉ bufferSize
  let divided := dividedBuffers version bufferSize size
  divided = 0 ∨ divided ≤ m ∧ buffers < m ∨ m < divided ∧ buffers ≤ m * (divided ⌈/⌉ m)

end Boto.S3.Callbacks

/-!
## When the callbacks are as promised

The loops report what `Reports.run` reports of the byte counts behind the buffers.  From the
number of buffers it follows how many calls there are and which one is the last.
-/

namespace Boto.S3.Callbacks

open Blocks Reports

variable {bufferSize size left every n m fuel dataLen : ℕ} {progress : Progress}
  {values : List Call}

/-! ## The loops -/

/-- The byte counts behind the buffers of `left` bytes, after `dataLen` bytes. -/
def marks (bufferSize size left dataLen : ℕ) : List Call :=
  (List.range (left ⌈/⌉ bufferSize)).map fun k =>
    (dataLen + min ((k + 1) * bufferSize) left, size)

theorem length_marks : (marks bufferSize size left dataLen).length = left ⌈/⌉ bufferSize := by
  rw [marks, List.length_map, List.length_range]

theorem marks_zero : marks bufferSize size 0 dataLen = [] := by
  rw [marks, zero_ceilDiv, List.range_zero, List.map_nil]

theorem marks_of_pos (hbuffer : 0 < bufferSize) (hleft : 0 < left) :
    marks bufferSize size left dataLen =
      (dataLen + min bufferSize left, size) ::
        marks bufferSize size (left - min bufferSize left)
          (dataLen + min bufferSize left) := by
  have hrest : left - min bufferSize left = left - bufferSize := by omega
  rw [marks, marks, ceilDiv_eq_succ hbuffer hleft, List.range_succ_eq_map, List.map_cons,
    List.map_map, Nat.zero_add, Nat.one_mul, hrest]
  refine congrArg _ (List.map_congr_left fun k hk => ?_)
  have hk' := (lt_ceilDiv_iff hbuffer).mp (List.mem_range.mp hk)
  have hmul : (k.succ + 1) * bufferSize = (k + 1) * bufferSize + bufferSize := Nat.succ_mul ..
  refine Prod.ext ?_ rfl
  dsimp only [Function.comp_apply]
  omega

theorem marks_ne_nil (hbuffer : 0 < bufferSize) (hleft : 0 < left) :
    marks bufferSize size left dataLen ≠ [] := by
  rw [marks_of_pos hbuffer hleft]
  exact List.cons_ne_nil _ _

theorem dropLast_marks (hbuffer : 0 < bufferSize) (hleft : bufferSize < left) :
    (marks bufferSize size left dataLen).dropLast =
      (dataLen + min bufferSize left, size) ::
        (marks bufferSize size (left - min bufferSize left)
          (dataLen + min bufferSize left)).dropLast := by
  rw [marks_of_pos hbuffer (by omega),
    List.dropLast_cons_of_ne_nil (marks_ne_nil hbuffer (by omega))]

theorem dropLast_marks_of_le (hbuffer : 0 < bufferSize) (hleft : 0 < left)
    (hle : left ≤ bufferSize) : (marks bufferSize size left dataLen).dropLast = [] := by
  rw [marks_of_pos hbuffer hleft, show left - min bufferSize left = 0 by omega, marks_zero]
  rfl

/-- Counting a buffer is a tick, where the number of buffers between calls is a number. -/
theorem count_natCast : count (every : ℚ) size dataLen progress =
    tick every progress (dataLen, size) := by
  have hneg : (every : ℚ) ≠ -1 := by
    have hnonneg : (0 : ℚ) ≤ every := Nat.cast_nonneg every
    intro heq
    rw [heq] at hnonneg
    norm_num at hnonneg
  rw [count, tick]
  simp only [Nat.cast_inj, hneg, or_false]

theorem readLength_some {togo : ℕ} (htogo : 0 < togo) (hleft : togo ≤ left) :
    readLength bufferSize (some togo) left = min bufferSize togo := by
  obtain ⟨togo, rfl⟩ := Nat.exists_eq_add_of_lt htogo
  rw [readLength]
  · split <;> omega
  · omega

theorem sendLoop_succ_some {c : ℚ} {chunk togo : ℕ} (hchunk : chunk ≠ 0) (htogo : 0 < togo) :
    sendLoop bufferSize c size (fuel + 1) chunk left (some togo) dataLen progress =
      if togo - chunk = 0 then (dataLen + chunk, progress)
      else
        let next := readLength bufferSize (some (togo - chunk)) left
        sendLoop bufferSize c size fuel next (left - next) (some (togo - chunk))
          (dataLen + chunk) (count c size (dataLen + chunk) progress) := by
  obtain ⟨before, rfl⟩ := Nat.exists_eq_succ_of_ne_zero htogo.ne'
  rw [sendLoop.eq_def]
  exact if_neg hchunk

/-- The loop of an upload whose size is given. -/
theorem sendLoop_some {togo : ℕ} (hbuffer : 0 < bufferSize) (htogo : 0 < togo)
    (hleft : togo ≤ left) (hfuel : togo ≤ fuel) :
    sendLoop bufferSize every size fuel (min bufferSize togo) (left - min bufferSize togo)
        (some togo) dataLen progress =
      (dataLen + togo, run every progress (marks bufferSize size togo dataLen).dropLast) := by
  induction fuel generalizing togo left dataLen progress with
  | zero => omega
  | succ fuel ih =>
      rw [sendLoop_succ_some (by omega) htogo]
      split
      · rw [dropLast_marks_of_le hbuffer htogo (by omega)]
        refine Prod.ext ?_ rfl
        dsimp only
        omega
      · have hmore : bufferSize < togo := by omega
        dsimp only
        rw [readLength_some (by omega) (by omega), ih (by omega) (by omega) (by omega),
          count_natCast, dropLast_marks hbuffer hmore, run_cons]
        refine Prod.ext ?_ rfl
        dsimp only
        omega

/-- The loop of an upload that reads the file to its end. -/
theorem sendLoop_none (hbuffer : 0 < bufferSize) (hfuel : left < fuel) :
    sendLoop bufferSize every size fuel (min bufferSize left) (left - min bufferSize left)
        none dataLen progress =
      (dataLen + left, run every progress (marks bufferSize size left dataLen)) := by
  induction fuel generalizing left dataLen progress with
  | zero => omega
  | succ fuel ih =>
      rw [sendLoop.eq_def]
      dsimp only
      split
      · rename_i hend
        rw [show left = 0 by omega, marks_zero]
        rfl
      · have hmore : 0 < left := by omega
        rw [readLength, ih (by omega), count_natCast, marks_of_pos hbuffer hmore, run_cons]
        refine Prod.ext ?_ rfl
        dsimp only
        omega

/-- The loop of a download. -/
theorem getLoop_eq (hbuffer : 0 < bufferSize) (hleft : 0 < left)
    (hsize : dataLen + left = size) (hfuel : left ≤ fuel) :
    getLoop bufferSize every size fuel left dataLen progress =
      (size, run every progress (marks bufferSize size left dataLen).dropLast) := by
  induction fuel generalizing left dataLen progress with
  | zero => omega
  | succ fuel ih =>
      rw [getLoop]
      dsimp only
      rw [if_neg (by omega)]
      split
      · rw [dropLast_marks_of_le hbuffer hleft (by omega)]
        refine Prod.ext ?_ rfl
        dsimp only
        omega
      · have hmore : bufferSize < left := by omega
        rw [ih (by omega) (by omega) (by omega), count_natCast,
          dropLast_marks hbuffer hmore, run_cons]

/-! ## The calls -/

/-- What the calls are behind a loop that reported some values. -/
theorem finish_run (hsize : 0 < size) :
    finish every size (size, run every (0, [(0, size)]) values) =
      if every ≤ 1 ∨ values.length % every ≠ 0 then
        (run every (0, [(0, size)]) values).2 ++ [(size, size)]
      else (run every (0, [(0, size)]) values).2 := by
  have hcounter : 0 < (run every (0, [(0, size)]) values).1 ↔
      values.length % every ≠ 0 := by
    rcases Nat.eq_zero_or_pos every with rfl | hevery
    · rw [run_zero, Nat.zero_add, Nat.mod_zero, Nat.pos_iff_ne_zero]
    · rw [(run_spec hevery hevery).1, Nat.zero_add, Nat.pos_iff_ne_zero]
  rw [finish]
  dsimp only
  simp only [hcounter, and_iff_left hsize, Nat.cast_le_one]

theorem length_run : (run every (0, [(0, size)]) values).2.length =
    1 + values.length / every := by
  rcases Nat.eq_zero_or_pos every with rfl | hevery
  · rw [run_zero, Nat.div_zero]
    rfl
  · rw [(run_spec hevery hevery).2, Nat.zero_add]
    rfl

/-- The calls are in order and the first one is as promised. -/
theorem reported_finish_iff {numCb : ℕ} (hsize : 0 < size)
    (hordered : values.Pairwise fun a b => a.1 ≤ b.1) (hle : ∀ value ∈ values, value.1 ≤ size) :
    Reported size numCb (finish every size (size, run every (0, [(0, size)]) values)) ↔
      (finish every size (size, run every (0, [(0, size)]) values)).length ≤ numCb ∧
      (finish every size (size, run every (0, [(0, size)]) values)).getLast? =
        some (size, size) := by
  refine ⟨fun hright => ⟨hright.atMost, hright.last⟩, fun ⟨hatMost, hlast⟩ => ?_⟩
  obtain ⟨new, heq, hsub⟩ :=
    @run_sublist _ every 0 [(0, size)] values
  have hbegin : ∀ rest : List Call, ([(0, size)] ++ rest).head? = some (0, size) :=
    fun _ => rfl
  have hnew : ([(0, size)] ++ new).Pairwise fun a b : Call => a.1 ≤ b.1 :=
    List.pairwise_cons.mpr ⟨fun _ _ => Nat.zero_le _, hordered.sublist hsub⟩
  refine ⟨hatMost, ?_, ?_, hlast⟩
  · rw [finish_run hsize, heq]
    split
    · refine List.pairwise_append.mpr ⟨hnew, List.pairwise_singleton _ _, fun a ha b hb => ?_⟩
      rw [List.mem_singleton.mp hb]
      rcases List.mem_append.mp ha with ha | ha
      · rw [List.mem_singleton.mp ha]
        exact Nat.zero_le _
      · exact hle a (hsub.subset ha)
    · exact hnew
  · rw [finish_run hsize, heq]
    split
    · rw [List.append_assoc]
      exact hbegin _
    · exact hbegin _

/-- When the calls are as promised behind a loop that did not count the last buffer. -/
theorem reported_uncounted (hsize : 0 < size) (hordered : values.Pairwise fun a b => a.1 ≤ b.1)
    (hlt : ∀ value ∈ values, value.1 < size) (hlength : values.length ≤ m * every)
    (hm : 0 < m) :
    Reported size (m + 1) (finish every size (size, run every (0, [(0, size)]) values)) ↔
      every = 0 ∨ every = 1 ∧ values.length < m ∨ 2 ≤ every ∧ values.length % every ≠ 0 := by
  rw [reported_finish_iff hsize hordered fun value hv => (hlt value hv).le, finish_run hsize]
  split
  · rename_i hfinal
    rw [List.getLast?_append, List.length_append, length_run, List.length_singleton]
    have hlast : ([(size, size)] : List Call).getLast?.or
        (run every (0, [(0, size)]) values).2.getLast? = some (size, size) := rfl
    rw [and_iff_left hlast]
    rcases Nat.lt_trichotomy every 1 with hzero | rfl | htwo
    · rw [Nat.lt_one_iff.mp hzero, Nat.div_zero]
      exact iff_of_true (by omega) (.inl rfl)
    · rw [Nat.div_one]
      omega
    · have hmod : values.length % every ≠ 0 := hfinal.resolve_left (by omega)
      have hne : values.length ≠ m * every := fun heq => hmod (by rw [heq, Nat.mul_mod_left])
      have hdiv : values.length / every < m := Nat.div_lt_of_lt_mul (by
        rw [Nat.mul_comm]
        omega)
      exact iff_of_true (by omega) (.inr (.inr ⟨htwo, hmod⟩))
  · rename_i hnone
    rw [not_or, not_not] at hnone
    refine iff_of_false (fun ⟨_, hlast⟩ => ?_) (by omega)
    obtain ⟨new, heq, hsub⟩ := @run_sublist _ every 0 [(0, size)] values
    rw [heq] at hlast
    rcases List.mem_append.mp (List.mem_of_getLast? hlast) with hmem | hmem
    · have hzero := congrArg Prod.fst (List.mem_singleton.mp hmem)
      dsimp only at hzero
      omega
    · exact absurd (hlt _ (hsub.subset hmem)) (Nat.lt_irrefl _)

/-- When the calls are as promised behind a loop that counted the last buffer. -/
theorem reported_counted (hsize : 0 < size) (hordered : values.Pairwise fun a b => a.1 ≤ b.1)
    (hle : ∀ value ∈ values, value.1 ≤ size) (hlast : values.getLast? = some (size, size))
    (hm : 0 < m) :
    Reported size (m + 1) (finish every size (size, run every (0, [(0, size)]) values)) ↔
      every = 0 ∨ every = 1 ∧ values.length < m ∨ 2 ≤ every ∧ values.length ≤ m * every := by
  rw [reported_finish_iff hsize hordered hle, finish_run hsize]
  split
  · rename_i hfinal
    rw [List.getLast?_append, List.length_append, length_run, List.length_singleton]
    have hlast : ([(size, size)] : List Call).getLast?.or
        (run every (0, [(0, size)]) values).2.getLast? = some (size, size) := rfl
    rw [and_iff_left hlast]
    rcases Nat.lt_trichotomy every 1 with hzero | rfl | htwo
    · rw [Nat.lt_one_iff.mp hzero, Nat.div_zero]
      exact iff_of_true (by omega) (.inl rfl)
    · rw [Nat.div_one]
      omega
    · have hmod : values.length % every ≠ 0 := hfinal.resolve_left (by omega)
      have hne : values.length ≠ m * every := fun heq => hmod (by rw [heq, Nat.mul_mod_left])
      have hdiv : values.length / every < m ↔ values.length < m * every :=
        Nat.div_lt_iff_lt_mul (by omega)
      omega
  · rename_i hnone
    rw [not_or, not_not] at hnone
    have hevery : 0 < every := by omega
    have hne : values ≠ [] := by
      rintro rfl
      cases hlast
    rw [getLast?_run hevery hevery hne (by rw [Nat.zero_add]; exact hnone.2),
      and_iff_left hlast, length_run]
    have hdiv : values.length / every ≤ m ↔ values.length ≤ m * every := by
      have hcancel := Nat.div_mul_cancel (Nat.dvd_of_mod_eq_zero hnone.2)
      rw [← Nat.mul_le_mul_right_iff hevery, hcancel]
    omega

/-! ## The byte counts -/

theorem marks_ordered : (marks bufferSize size left dataLen).Pairwise fun a b => a.1 ≤ b.1 := by
  refine List.pairwise_map.mpr (List.pairwise_le_range.imp fun {j k} hle => ?_)
  have hmul : (j + 1) * bufferSize ≤ (k + 1) * bufferSize :=
    Nat.mul_le_mul_right bufferSize (Nat.succ_le_succ hle)
  dsimp only
  omega

theorem marks_le {value : Call} (hv : value ∈ marks bufferSize size left 0) :
    value.1 ≤ left := by
  obtain ⟨k, -, rfl⟩ := List.mem_map.mp hv
  dsimp only
  omega

theorem dropLast_marks_lt (hbuffer : 0 < bufferSize) {value : Call}
    (hv : value ∈ (marks bufferSize size left 0).dropLast) : value.1 < left := by
  rw [marks, ← List.map_dropLast] at hv
  obtain ⟨k, hk, rfl⟩ := List.mem_map.mp hv
  have hk' : k + 1 < left ⌈/⌉ bufferSize := by
    rcases hcount : left ⌈/⌉ bufferSize with - | before
    · rw [hcount] at hk
      cases hk
    · rw [hcount, List.range_succ, List.dropLast_concat, List.mem_range] at hk
      omega
  have hmul := (lt_ceilDiv_iff hbuffer).mp hk'
  dsimp only
  omega

theorem getLast?_marks (hbuffer : 0 < bufferSize) (hsize : 0 < size) :
    (marks bufferSize size size 0).getLast? = some (size, size) := by
  have hcount : 0 < size ⌈/⌉ bufferSize := (lt_ceilDiv_iff hbuffer).mpr (by omega)
  obtain ⟨before, hbefore⟩ := Nat.exists_eq_succ_of_ne_zero hcount.ne'
  have hall : size ≤ bufferSize * (before + 1) := by
    rw [← ceilDiv_le_iff_le_mul hbuffer, hbefore]
  rw [Nat.mul_comm] at hall
  rw [marks, hbefore, List.range_succ, List.map_append, List.map_singleton,
    List.getLast?_concat, Nat.zero_add, Nat.min_eq_right hall]

/-! ## The number of buffers between two calls -/

/-- A quotient rounded up, of a number that is known by the numbers above it. -/
theorem ceil_div_natCast {x : ℚ} (hx : ∀ k : ℕ, x ≤ k ↔ n ≤ k) (hnonneg : 0 ≤ x) (hm : 0 < m) :
    ⌈x / m⌉ = ((n ⌈/⌉ m : ℕ) : ℤ) := by
  have hm' : (0 : ℚ) < m := Nat.cast_pos.mpr hm
  refine eq_of_forall_ge_iff fun z => ?_
  rw [Int.ceil_le]
  rcases Int.lt_or_le z 0 with hneg | hpos
  · have hquotient := div_nonneg hnonneg hm'.le
    have hz : (z : ℚ) < 0 := Int.cast_lt_zero.mpr hneg
    exact iff_of_false (not_le.mpr (hz.trans_le hquotient)) (by omega)
  · obtain ⟨k, rfl⟩ := Int.eq_ofNat_of_zero_le hpos
    have hmul := hx (k * m)
    rw [Nat.cast_mul] at hmul
    rw [Int.cast_natCast, div_le_iff₀ hm', hmul, Nat.cast_le,
      ceilDiv_le_iff_le_mul hm, Nat.mul_comm]

theorem cbCount_eq {version : PyVersion} (hbuffer : 0 < bufferSize) (hm : 0 < m) :
    cbCount version bufferSize false size ((m + 1 : ℕ) : ℤ) =
      ((dividedBuffers version bufferSize size ⌈/⌉ m : ℕ) : ℚ) := by
  have hpred : (((m + 1 : ℕ) : ℤ) : ℚ) - 1 = m := by
    push_cast
    ring
  have hmore : (1 : ℤ) < ((m + 1 : ℕ) : ℤ) := by omega
  have hceil : ⌈quotient version bufferSize size / m⌉ =
      ((dividedBuffers version bufferSize size ⌈/⌉ m : ℕ) : ℤ) := by
    cases version with
    | py2 => exact ceil_div_natCast (fun k => Nat.cast_le) (Nat.cast_nonneg _) hm
    | py3 =>
        have hbuffer' : (0 : ℚ) < bufferSize := Nat.cast_pos.mpr hbuffer
        refine ceil_div_natCast (fun k => ?_)
          (div_nonneg (Nat.cast_nonneg _) (Nat.cast_nonneg _)) hm
        rw [quotient, dividedBuffers, ceilDiv_le_iff_le_mul hbuffer, div_le_iff₀ hbuffer', ← Nat.cast_mul, Nat.cast_le,
          Nat.mul_comm]
  rw [cbCount, if_neg Bool.false_ne_true, if_pos hmore, hpred, hceil, Int.cast_natCast]

/-- The buffers that are divided are all of them, or all but a shorter last one. -/
theorem dividedBuffers_spec {version : PyVersion} (hbuffer : 0 < bufferSize) :
    dividedBuffers version bufferSize size ≤ size ⌈/⌉ bufferSize ∧
      size ⌈/⌉ bufferSize ≤ dividedBuffers version bufferSize size + 1 := by
  cases version with
  | py2 =>
      have hfloor : size ⌊/⌋ bufferSize ≤ size ⌈/⌉ bufferSize := floorDiv_le_ceilDiv
      rw [Nat.floorDiv_eq_div] at hfloor
      exact ⟨hfloor, (ceilDiv_le_iff_le_mul hbuffer).mpr (Nat.lt_mul_div_succ size hbuffer).le⟩
  | py3 => exact ⟨le_rfl, Nat.le_succ _⟩

theorem ceilDiv_cases {divided : ℕ} (hm : 0 < m) :
    (divided ⌈/⌉ m = 0 ↔ divided = 0) ∧ (divided ⌈/⌉ m = 1 ↔ 0 < divided ∧ divided ≤ m) ∧
      (2 ≤ divided ⌈/⌉ m ↔ m < divided) ∧ divided ≤ m * (divided ⌈/⌉ m) := by
  have hle : ∀ k, divided ⌈/⌉ m ≤ k ↔ divided ≤ m * k := fun k => ceilDiv_le_iff_le_mul hm
  have hzero := hle 0
  have hone := hle 1
  rw [Nat.mul_zero] at hzero
  rw [Nat.mul_one] at hone
  exact ⟨by omega, by omega, by omega, (hle _).mp le_rfl⟩

/-! ## Uploads and downloads -/

section

variable {version : PyVersion}

theorem uncounted_iff (hbuffer : 0 < bufferSize) (hsize : 0 < size) (hm : 0 < m) :
    Reported size (m + 1)
        (finish ((dividedBuffers version bufferSize size ⌈/⌉ m : ℕ) : ℚ) size
          (size, run (dividedBuffers version bufferSize size ⌈/⌉ m) (0, [(0, size)])
            (marks bufferSize size size 0).dropLast)) ↔
      UncountedRight version bufferSize size m := by
  obtain ⟨hzero, hone, htwo, hall⟩ :=
    @ceilDiv_cases m (dividedBuffers version bufferSize size) hm
  obtain ⟨-, hbuffers⟩ := @dividedBuffers_spec bufferSize size version hbuffer
  have hcount : 0 < size ⌈/⌉ bufferSize := (lt_ceilDiv_iff hbuffer).mpr (by omega)
  have hlength : (marks bufferSize size size 0).dropLast.length = size ⌈/⌉ bufferSize - 1 := by
    rw [List.length_dropLast, length_marks]
  rw [reported_uncounted hsize (marks_ordered.sublist (List.dropLast_sublist _))
    (fun value hv => dropLast_marks_lt hbuffer hv) (by omega) hm, hlength, hzero, hone, htwo,
    UncountedRight]
  have hless : size ⌈/⌉ bufferSize - 1 < m ↔ size ⌈/⌉ bufferSize ≤ m := by omega
  have hpos : 0 < dividedBuffers version bufferSize size ↔
      ¬dividedBuffers version bufferSize size = 0 := Nat.pos_iff_ne_zero
  rw [hless, hpos]
  by_cases hdivided : dividedBuffers version bufferSize size = 0
  · exact iff_of_true (.inl hdivided) (.inl hdivided)
  · rw [or_iff_right hdivided, or_iff_right hdivided, and_iff_right hdivided]

theorem counted_iff (hbuffer : 0 < bufferSize) (hsize : 0 < size) (hm : 0 < m) :
    Reported size (m + 1)
        (finish ((dividedBuffers version bufferSize size ⌈/⌉ m : ℕ) : ℚ) size
          (size, run (dividedBuffers version bufferSize size ⌈/⌉ m) (0, [(0, size)])
            (marks bufferSize size size 0))) ↔
      CountedRight version bufferSize size m := by
  obtain ⟨hzero, hone, htwo, -⟩ :=
    @ceilDiv_cases m (dividedBuffers version bufferSize size) hm
  rw [reported_counted hsize marks_ordered (fun value hv => marks_le hv)
    (getLast?_marks hbuffer hsize) hm, length_marks, hzero, hone, htwo, CountedRight]
  have hpos : 0 < dividedBuffers version bufferSize size ↔
      ¬dividedBuffers version bufferSize size = 0 := Nat.pos_iff_ne_zero
  rw [hpos]
  by_cases hdivided : dividedBuffers version bufferSize size = 0
  · exact iff_of_true (.inl hdivided) (.inl hdivided)
  · rw [or_iff_right hdivided, or_iff_right hdivided, and_iff_right hdivided]

end

theorem sendSize_some (hsize : 0 < size) (selfSize : Option ℕ) :
    sendSize (some size) selfSize = size := by
  cases size with
  | zero => omega
  | succ size => rfl

/-- When the callbacks of an upload whose size is given, of an upload whose size is an
attribute of the key and of a download are as promised. -/
theorem callbacks_right_iff (version : PyVersion) (chunkedTransfer : Bool)
    (selfSize : Option ℕ) (hbuffer : 0 < bufferSize) (hsize : 0 < size) (hm : 0 < m) :
    (∀ left, size ≤ left →
      (Reported size (m + 1) (sendFileInternal version bufferSize chunkedTransfer (some size)
        selfSize left (m + 1 : ℕ)) ↔ UncountedRight version bufferSize size m)) ∧
    (Reported size (m + 1) (sendFileInternal version bufferSize chunkedTransfer none
      (some size) size (m + 1 : ℕ)) ↔ CountedRight version bufferSize size m) ∧
    (Reported size (m + 1) (getFileInternal version bufferSize (some size) size (m + 1 : ℕ)) ↔
      UncountedRight version bufferSize size m) := by
  have hknown : (chunkedTransfer && size == 0) = false := by
    rw [beq_eq_false_iff_ne.mpr hsize.ne', Bool.and_false]
  refine ⟨fun left hleft => ?_, ?_, ?_⟩
  · rw [sendFileInternal, sendSize_some hsize]
    rw [hknown, cbCount_eq hbuffer hm, readLength_some hsize hleft,
      sendLoop_some hbuffer hsize hleft (by omega), Nat.zero_add]
    exact uncounted_iff hbuffer hsize hm
  · rw [sendFileInternal, sendSize, Option.getD_some, readLength]
    rw [hknown, cbCount_eq hbuffer hm, sendLoop_none hbuffer (Nat.lt_succ_self _),
      Nat.zero_add]
    exact counted_iff hbuffer hsize hm
  · rw [getFileInternal, Option.getD_some, Option.isNone_some, Bool.false_and]
    rw [cbCount_eq hbuffer hm, getLoop_eq hbuffer hsize (Nat.zero_add _) (Nat.le_succ _)]
    exact uncounted_iff hbuffer hsize hm

/-- Three buffers and at most five calls. -/
theorem callbacks_right_five :
    Reported 5 5 (sendFileInternal .py3 2 false (some 5) none 7 (4 + 1 : ℕ)) ∧
      Reported 5 5 (sendFileInternal .py3 2 false none (some 5) 5 (4 + 1 : ℕ)) ∧
      Reported 5 5 (getFileInternal .py3 2 (some 5) 5 (4 + 1 : ℕ)) := by
  obtain ⟨hgiven, hattribute, hdownload⟩ :=
    callbacks_right_iff .py3 false none (show 0 < 2 by decide) (show 0 < 5 by decide)
      (show 0 < 4 by decide)
  exact ⟨(hgiven 7 (by decide)).mpr (.inr (.inl (by decide))),
    hattribute.mpr (.inr (.inl (by decide))), hdownload.mpr (.inr (.inl (by decide)))⟩

/-- With three buffers and at most three calls the last call is behind the second buffer. -/
theorem callbacks_wrong : ¬∀ (version : PyVersion) (bufferSize size m : ℕ),
    0 < bufferSize → 0 < size → 0 < m →
      Reported size (m + 1)
        (sendFileInternal version bufferSize false (some size) none size (m + 1 : ℕ)) ∧
      Reported size (m + 1)
        (sendFileInternal version bufferSize false none (some size) size (m + 1 : ℕ)) ∧
      Reported size (m + 1) (getFileInternal version bufferSize (some size) size (m + 1 : ℕ)) := by
  intro hclaim
  have hlast := (hclaim .py3 1 3 2 (by decide) (by decide) (by decide)).1.last
  revert hlast
  decide +kernel

end Boto.S3.Callbacks
