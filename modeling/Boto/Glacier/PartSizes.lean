import Boto.Glacier.Utils
import Mathlib.Tactic.Ring

/-!
# The part size that is chosen

`minimum_part_size` tries one megabyte and then eight megabytes and their doubles.  Two and
four megabytes are left out, as if the default were four, and in Python 2 the size of a part
is compared with a quotient that is rounded down.
-/

namespace Boto.Glacier

variable {version : PyVersion} {s m fuel j : ℕ}

/-- The largest archive. -/
def maximumSize : ℕ := 4096 * megabyte * 10000

/-- What is promised of the part size for a size and a default: the default if it is enough,
else the smallest part size that is. -/
structure IsPartSizeFor (s default partSize : ℕ) : Prop where
  sufficient : s ≤ default * 10000 → partSize = default
  covers : s ≤ partSize * 10000
  power : ∃ k ≤ 12, partSize = megabyte * 2 ^ k
  least : ¬s ≤ default * 10000 → ∀ k, s ≤ megabyte * 2 ^ k * 10000 → partSize ≤ megabyte * 2 ^ k

/-- The condition under which the part size is as promised: the default is enough, or four
megabytes are not and, in Python 2, no part size from eight megabytes on is the quotient
rounded down. -/
def ChoosesRight (version : PyVersion) (s default : ℕ) : Prop :=
  s ≤ default * 10000 ∨ megabyte * 4 * 10000 < s ∧
    (version = .py2 → ∀ k, 3 ≤ k → s / 10000 = megabyte * 2 ^ k → s % 10000 = 0)

/-! ## The loop -/

theorem size_le_size {k l : ℕ} (hkl : k ≤ l) : megabyte * 2 ^ k ≤ megabyte * 2 ^ l :=
  Nat.mul_le_mul_left _ (Nat.pow_le_pow_right (by decide) hkl)

theorem size_lt_size {k l : ℕ} (hkl : k < l) : megabyte * 2 ^ k < megabyte * 2 ^ l :=
  Nat.mul_lt_mul_of_pos_left (Nat.pow_lt_pow_right (by decide) hkl) (by decide)

theorem below_py2 {partSize : ℕ} :
    belowMinPartSize .py2 partSize s = true ↔ partSize < s / 10000 :=
  decide_eq_true_iff

theorem below_py3 {partSize : ℕ} :
    belowMinPartSize .py3 partSize s = true ↔ partSize * 10000 < s :=
  decide_eq_true_iff

/-- The largest part size is never too small. -/
theorem not_below_maximum (hs : s ≤ maximumSize) {k : ℕ} (hk : 12 ≤ k) :
    belowMinPartSize version (megabyte * 2 ^ k) s = false := by
  have hsize := size_le_size hk
  have hmax : megabyte * 2 ^ 12 * 10000 = maximumSize := by decide
  rw [Bool.eq_false_iff]
  cases version with
  | py2 =>
      rw [ne_eq, below_py2]
      omega
  | py3 =>
      rw [ne_eq, below_py3]
      omega

/-- The loop ends with the first size from `m` on that is not too small. -/
theorem minimumPartSizeLoop_spec
    (hend : belowMinPartSize version (megabyte * 2 ^ (m + fuel)) s = false) :
    ∃ k, m ≤ k ∧ minimumPartSizeLoop version s fuel (m + 1) (megabyte * 2 ^ m) =
        megabyte * 2 ^ k ∧ belowMinPartSize version (megabyte * 2 ^ k) s = false ∧
      ∀ i, m ≤ i → i < k → belowMinPartSize version (megabyte * 2 ^ i) s = true := by
  induction fuel generalizing m with
  | zero => exact ⟨m, le_rfl, rfl, hend, fun i hle hlt => by omega⟩
  | succ fuel ih =>
      rw [minimumPartSizeLoop]
      split
      · rename_i hbelow
        obtain ⟨k, hle, heq, hk, hbefore⟩ := ih (m := m + 1) (by
          rw [show m + 1 + fuel = m + (fuel + 1) by omega]
          exact hend)
        refine ⟨k, by omega, heq, hk, fun i hi hik => ?_⟩
        by_cases him : i = m
        · rw [him]
          exact hbelow
        · exact hbefore i (by omega) hik
      · rename_i hbelow
        exact ⟨m, le_rfl, rfl, Bool.eq_false_of_not_eq_true hbelow, fun i hle hlt => by omega⟩

/-- The loop from its start: one megabyte, or the first size from eight megabytes on. -/
theorem minimumPartSizeLoop_start (hs : s ≤ maximumSize) (fuel : ℕ) :
    belowMinPartSize version megabyte s = false ∧
        minimumPartSizeLoop version s (fuel + 11) 3 megabyte = megabyte ∨
      belowMinPartSize version megabyte s = true ∧
        ∃ k, 3 ≤ k ∧ minimumPartSizeLoop version s (fuel + 11) 3 megabyte = megabyte * 2 ^ k ∧
          belowMinPartSize version (megabyte * 2 ^ k) s = false ∧
          ∀ i, 3 ≤ i → i < k → belowMinPartSize version (megabyte * 2 ^ i) s = true := by
  rw [minimumPartSizeLoop]
  split
  · rename_i hbelow
    exact .inr ⟨hbelow, minimumPartSizeLoop_spec (not_below_maximum hs (by omega))⟩
  · rename_i hbelow
    exact .inl ⟨Bool.eq_false_of_not_eq_true hbelow, rfl⟩

/-- The loop ends: more rounds make no difference. -/
theorem minimumPartSizeLoop_ends (hs : s ≤ maximumSize) (fuel : ℕ) :
    minimumPartSizeLoop version s (fuel + 11) 3 megabyte =
      minimumPartSizeLoop version s 11 3 megabyte := by
  have hstart := @minimumPartSizeLoop_start version s hs 0
  rw [Nat.zero_add] at hstart
  rcases @minimumPartSizeLoop_start version s hs fuel with
    ⟨hbelow, heq⟩ | ⟨hbelow, k, hk, heq, hend, hbefore⟩
  · rcases hstart with ⟨-, heq'⟩ | ⟨hbelow', -⟩
    · rw [heq, heq']
    · rw [hbelow] at hbelow'
      cases hbelow'
  · rcases hstart with ⟨hbelow', -⟩ | ⟨-, k', hk', heq', hend', hbefore'⟩
    · rw [hbelow] at hbelow'
      cases hbelow'
    · rw [heq, heq']
      rcases Nat.lt_trichotomy k k' with hless | rfl | hgreater
      · rw [hbefore' k hk hless] at hend
        cases hend
      · rfl
      · rw [hbefore k' hk' hgreater] at hend'
        cases hend'

/-! ## The part size -/

theorem minimumPartSize_of_le {default : ℕ} (hle : s ≤ default * 10000) :
    minimumPartSize version s default = .ok default := by
  have hnot : ¬default * maximumNumberOfParts < s := by
    rw [maximumNumberOfParts]
    omega
  rw [minimumPartSize, if_neg hnot]

theorem minimumPartSize_of_lt {default : ℕ} (hlt : default * 10000 < s) (hs : s ≤ maximumSize) :
    minimumPartSize version s default =
      .ok (minimumPartSizeLoop version s 11 3 megabyte) := by
  have hmore : default * maximumNumberOfParts < s := by
    rw [maximumNumberOfParts]
    exact hlt
  have hlarge : ¬s > 4096 * megabyte * 10000 := not_lt.mpr hs
  rw [minimumPartSize, if_pos hmore, if_neg hlarge]

/-- Only sizes above the limit are refused. -/
theorem maximumSize_lt_of_error {default : ℕ} {error : PyError}
    (herror : minimumPartSize version s default = .error error) : maximumSize < s := by
  by_contra hnot
  by_cases hle : s ≤ default * 10000
  · rw [minimumPartSize_of_le hle] at herror
    cases herror
  · rw [minimumPartSize_of_lt (by omega) (by omega)] at herror
    cases herror

theorem isPartSizeFor_default (hj : j ≤ 12) (hle : s ≤ megabyte * 2 ^ j * 10000) :
    IsPartSizeFor s (megabyte * 2 ^ j) (megabyte * 2 ^ j) :=
  ⟨fun _ => rfl, hle, ⟨j, hj, rfl⟩, fun hnot => absurd hle hnot⟩

/-- A size that covers and before which no size from eight megabytes on does. -/
theorem isPartSizeFor_iff {k : ℕ} (hlt : ¬s ≤ megabyte * 2 ^ j * 10000) (hk : 3 ≤ k)
    (hk' : k ≤ 12) (hbefore : ∀ i, 3 ≤ i → i < k → megabyte * 2 ^ i * 10000 < s) :
    IsPartSizeFor s (megabyte * 2 ^ j) (megabyte * 2 ^ k) ↔
      s ≤ megabyte * 2 ^ k * 10000 ∧ megabyte * 4 * 10000 < s := by
  constructor
  · intro hright
    refine ⟨hright.covers, ?_⟩
    by_contra hnot
    have hleast := hright.least hlt 2 (by omega)
    have hmore := size_lt_size (show 2 < k by omega)
    omega
  · rintro ⟨hcovers, hfour⟩
    refine ⟨fun hle => absurd hle hlt, hcovers, ⟨k, hk', rfl⟩, fun _ i hi => ?_⟩
    refine size_le_size ?_
    by_contra hik
    by_cases hthree : 3 ≤ i
    · have hless := hbefore i hthree (by omega)
      omega
    · have hsize := size_le_size (show i ≤ 2 by omega)
      omega

theorem covers_of_below {k : ℕ}
    (hbefore : ∀ i, 3 ≤ i → i < k → belowMinPartSize version (megabyte * 2 ^ i) s = true) :
    ∀ i, 3 ≤ i → i < k → megabyte * 2 ^ i * 10000 < s := by
  intro i hi hik
  have hless := hbefore i hi hik
  clear hbefore
  cases version with
  | py2 =>
      rw [below_py2] at hless
      omega
  | py3 =>
      rw [below_py3] at hless
      exact hless

theorem le_twelve_of_below {k : ℕ} (hs : s ≤ maximumSize)
    (hbefore : ∀ i, 3 ≤ i → i < k → belowMinPartSize version (megabyte * 2 ^ i) s = true) :
    k ≤ 12 := by
  by_contra hmore
  have hmax := hbefore 12 (by decide) (not_le.mp hmore)
  rw [not_below_maximum hs le_rfl] at hmax
  cases hmax

/-- The size at which the loop of Python 2 ends covers unless it is the quotient and something
is left. -/
theorem covers_iff_py2 {k : ℕ} (hk : 3 ≤ k)
    (hend : belowMinPartSize .py2 (megabyte * 2 ^ k) s = false)
    (hbefore : ∀ i, 3 ≤ i → i < k → belowMinPartSize .py2 (megabyte * 2 ^ i) s = true) :
    s ≤ megabyte * 2 ^ k * 10000 ↔
      ∀ i, 3 ≤ i → s / 10000 = megabyte * 2 ^ i → s % 10000 = 0 := by
  rw [Bool.eq_false_iff, ne_eq, below_py2, not_lt] at hend
  constructor
  · intro hcovers i hthree hi
    have hik : i = k := by
      rcases Nat.lt_trichotomy i k with hless | heq | hgreater
      · have hbelow := below_py2.mp (hbefore i hthree hless)
        rw [hi] at hbelow
        exact absurd hbelow (Nat.lt_irrefl _)
      · exact heq
      · have hsize := size_lt_size hgreater
        rw [← hi] at hsize
        omega
    rw [hik] at hi
    omega
  · intro hexact
    by_cases heq : s / 10000 = megabyte * 2 ^ k
    · have hrest := hexact k hk heq
      omega
    · omega

/-- When the part size is as promised. -/
theorem minimumPartSize_right_iff (hj : j ≤ 12) :
    (∀ error, minimumPartSize version s (megabyte * 2 ^ j) = .error error → maximumSize < s) ∧
    (s ≤ maximumSize →
      (∀ fuel, minimumPartSizeLoop version s (fuel + 11) 3 megabyte =
        minimumPartSizeLoop version s 11 3 megabyte) ∧
      ((∃ partSize, minimumPartSize version s (megabyte * 2 ^ j) = .ok partSize ∧
          IsPartSizeFor s (megabyte * 2 ^ j) partSize) ↔
        ChoosesRight version s (megabyte * 2 ^ j))) := by
  refine ⟨fun error => maximumSize_lt_of_error, fun hs => ⟨minimumPartSizeLoop_ends hs, ?_⟩⟩
  rw [ChoosesRight]
  by_cases hle : s ≤ megabyte * 2 ^ j * 10000
  · exact iff_of_true ⟨_, minimumPartSize_of_le hle, isPartSizeFor_default hj hle⟩ (.inl hle)
  · have hlarge := @minimumPartSize_of_lt version s _ (not_le.mp hle) hs
    have hstart := @minimumPartSizeLoop_start version s hs 0
    rw [Nat.zero_add] at hstart
    have hright : (∃ partSize, minimumPartSize version s (megabyte * 2 ^ j) = .ok partSize ∧
        IsPartSizeFor s (megabyte * 2 ^ j) partSize) ↔
          IsPartSizeFor s (megabyte * 2 ^ j) (minimumPartSizeLoop version s 11 3 megabyte) := by
      rw [hlarge]
      simp
    have hone : megabyte * 2 ^ 0 * 10000 < s := by
      have hsize := size_le_size (Nat.zero_le j)
      omega
    rw [hright, or_iff_right hle]
    rcases hstart with ⟨hbelow, heq⟩ | ⟨hbelow, k, hk, heq, hend, hbefore⟩
    · -- one megabyte, which is the quotient of Python 2
      rw [heq]
      have hone' : megabyte * 10000 < s := by
        rwa [pow_zero, Nat.mul_one] at hone
      refine iff_of_false (fun hright => ?_) fun hright => ?_
      · have hcovers := hright.covers
        omega
      · rw [Bool.eq_false_iff] at hbelow
        cases version with
        | py2 =>
            rw [ne_eq, below_py2] at hbelow
            have hmegabyte : 0 < megabyte := by decide
            omega
        | py3 =>
            rw [ne_eq, below_py3] at hbelow
            omega
    · have hfirst := covers_of_below hbefore
      rw [heq, isPartSizeFor_iff hle hk (le_twelve_of_below hs hbefore) hfirst, and_comm]
      refine and_congr_right fun _ => ?_
      cases version with
      | py2 =>
          rw [covers_iff_py2 hk hend hbefore]
          exact ⟨fun hexact _ => hexact, fun hexact => hexact rfl⟩
      | py3 =>
          rw [Bool.eq_false_iff, ne_eq, below_py3] at hend
          refine iff_of_true (not_lt.mp hend) fun hpy2 => ?_
          cases hpy2

theorem minimumPartSize_right_default : ∃ partSize,
    minimumPartSize .py2 (megabyte * 80000) (megabyte * 2 ^ 2) = .ok partSize ∧
      IsPartSizeFor (megabyte * 80000) (megabyte * 2 ^ 2) partSize := by
  refine ((minimumPartSize_right_iff (by decide)).2 (by decide)).2.mpr (.inr ⟨by decide, ?_⟩)
  intro _ k _ _
  decide

/-- One byte more than one megabyte can cover takes parts of eight megabytes, where two are
enough. -/
theorem minimumPartSize_wrong : ¬∀ (version : PyVersion) (s j : ℕ), s ≤ maximumSize → j ≤ 12 →
    ∃ partSize, minimumPartSize version s (megabyte * 2 ^ j) = .ok partSize ∧
      IsPartSizeFor s (megabyte * 2 ^ j) partSize := by
  intro hclaim
  have hright := ((@minimumPartSize_right_iff .py3 (megabyte * 10000 + 1) 0 (by decide)).2
    (by decide)).2.mp (hclaim .py3 _ 0 (by decide) (by decide))
  rcases hright with hle | ⟨hlt, -⟩
  · revert hle
    decide
  · revert hlt
    decide

end Boto.Glacier
