import Boto.Glacier.Concurrent.Safety

/-!
# Uploads from their start

What `upload` computes before the first thread starts, and the safety of every
run from there.  A file that is not empty has at least one part.
-/

namespace Boto.Glacier

/-! ## Part sizes -/

theorem minimumPartSizeLoop_eq (version : PyVersion) (sizeInBytes : ℕ)
    (fuel power k : ℕ) :
    ∃ j, minimumPartSizeLoop version sizeInBytes fuel power
      (megabyte * 2 ^ k) = megabyte * 2 ^ j := by
  induction fuel generalizing power k with
  | zero => exact ⟨k, rfl⟩
  | succ fuel ih =>
      rw [minimumPartSizeLoop]
      split
      · exact ih (power + 1) power
      · exact ⟨k, rfl⟩

/-- A required part size is a power of two of megabytes. -/
theorem minimumPartSize_eq {version : PyVersion} {sizeInBytes partSize : ℕ}
    (h : minimumPartSize version sizeInBytes = .ok partSize) :
    ∃ j, partSize = megabyte * 2 ^ j := by
  rw [minimumPartSize] at h
  split at h
  · split at h
    · cases h
    · obtain ⟨j, hj⟩ := minimumPartSizeLoop_eq version sizeInBytes 11 3 0
      rw [pow_zero, Nat.mul_one] at hj
      cases h
      exact ⟨j, hj⟩
  · cases h
    exact ⟨2, rfl⟩

namespace Concurrent

variable {sha256 : Bytes → Bytes} {version : PyVersion} {content : Bytes}
  {partSize numThreads numRetries : ℕ} {uploadId archiveId : Text} {job : Job}
  {s₀ s : State}

/-- The job of an upload: its parts are the blocks of the file, of the given size
or of a larger one that Glacier requires. -/
theorem upload_eq_ok (h : upload version content partSize numThreads
    numRetries uploadId archiveId = .ok (job, s₀)) :
    s₀ = initial job ∧ job.content = content ∧ 0 < job.partSize ∧
      job.totalParts = content.length ⌈/⌉ job.partSize ∧
      (job.partSize = partSize ∨ ∃ j, job.partSize = megabyte * 2 ^ j) := by
  rw [upload, calculateRequiredPartSize] at h
  cases hmin : minimumPartSize version content.length with
  | error e =>
      rw [hmin] at h
      cases h
  | ok required =>
      rw [hmin] at h
      cases h
      obtain ⟨j, rfl⟩ := minimumPartSize_eq hmin
      have hpos : 0 < megabyte * 2 ^ j :=
        Nat.mul_pos (by decide) (Nat.two_pow_pos j)
      refine ⟨rfl, rfl, ?_, rfl, ?_⟩
      · change 0 < if partSize ≥ megabyte * 2 ^ j then partSize
          else megabyte * 2 ^ j
        split
        · omega
        · exact hpos
      · change (if partSize ≥ megabyte * 2 ^ j then partSize
          else megabyte * 2 ^ j) = partSize ∨ _
        by_cases hge : partSize ≥ megabyte * 2 ^ j
        · exact Or.inl (if_pos hge)
        · exact Or.inr ⟨j, if_neg hge⟩

/-! ## Every run -/

/-- The upload of a file of these bytes by one thread. -/
def singleThreadJob (content : Bytes) (totalParts : ℕ) : Job where
  content := content
  partSize := defaultPartSize
  totalParts := totalParts
  numThreads := 1
  numRetries := 5
  uploadId := []
  archiveId := []

end Concurrent

end Boto.Glacier
