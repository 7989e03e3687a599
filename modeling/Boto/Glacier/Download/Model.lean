import Boto.Glacier.Concurrent.Model
import Boto.Glacier.Utils
import Boto.Support.BlockWrites
import Boto.Support.WorkerPool

/-!
# Downloads

The downloads of `boto/glacier/job.py` and the `ConcurrentDownloader` of
`boto/glacier/concurrent.py`.  What each attempt to get a byte range meets is given.
Workers deliver the results of parts in an order that the main thread does not choose.
-/

namespace Boto.Glacier.Download

/-- What an attempt to get a byte range meets: an exception, which may be among those that
are retried, or data with the tree hash that is reported with it. -/
inductive Attempt
  | raised (retryable : Bool)
  | response (data : Bytes) (treeHash : Option Text)
  deriving DecidableEq

/-- A `Job`, with what the attempts of `get_output` meet for each byte range. -/
structure Job where
  version : PyVersion
  archiveSize : ℕ
  sha256Treehash : Text
  getOutput : ℕ × ℕ → ℕ → Attempt

/-- How a download fails.  An exception that is not retried is passed on. -/
inductive DownloadError
  | treeHashDoesNotMatch
  | downloadArchive
  | unboundLocal
  | raised
  | hashing (error : PyError)
  deriving DecidableEq

/-- `expected == actual` for a hash of the service and one that `hexlify` made, which is a
byte string in Python 3. -/
def sameHash (version : PyVersion) (expected : Option Text) (actual : Text) : Bool :=
  match version with
  | .py2 => expected == some actual
  | .py3 => false

/-- The exception for a hash that cannot be computed. -/
def hashed {α : Type} : Except PyError α → Except DownloadError α
  | .ok value => .ok value
  | .error error => .error (.hashing error)

/-- The attempts that are made for a part. -/
def maxAttempts : ℕ := 5

variable (sha256 : Bytes → Bytes) (job : Job)

namespace Job

/-! ## One part after the other -/

/-- The byte range of a part. -/
def chunkRange (chunkSize i : ℕ) : ℕ × ℕ :=
  (i * chunkSize, (i + 1) * chunkSize - 1)

/-- `_download_byte_range`, with the attempts that are left and the number of the next one.
The exception is not bound any more in the `else` branch of Python 3. -/
def downloadByteRange (byteRange : ℕ × ℕ) :
    ℕ → ℕ → Except DownloadError (Bytes × Option Text)
  | 0, _ =>
      match job.version with
      | .py2 => .error .downloadArchive
      | .py3 => .error .unboundLocal
  | left + 1, attempt =>
      match job.getOutput byteRange attempt with
      | .raised true => downloadByteRange byteRange left (attempt + 1)
      | .raised false => .error .raised
      | .response data treeHash => .ok (data, treeHash)

/-- A round of the loop of `_download_to_fileob` with `verify_hashes`, after what was
written. -/
def downloadChunk (chunkSize : ℕ) (written : Bytes) (i : ℕ) : Except DownloadError Bytes := do
  let (data, expectedTreeHash) ←
    downloadByteRange job (chunkRange chunkSize i) maxAttempts 0
  let actualTreeHash ← hashed (treeHashFromStr sha256 data)
  if sameHash job.version expectedTreeHash actualTreeHash then .ok (written ++ data)
  else .error .treeHashDoesNotMatch

/-- `_calc_num_chunks`. -/
def calcNumChunks (chunkSize : ℕ) : ℕ :=
  job.archiveSize ⌈/⌉ chunkSize

/-- `download_to_file` and `download_to_fileobj`: what is written. -/
def downloadToFileobj (chunkSize : ℕ) : Except DownloadError Bytes :=
  (List.range (calcNumChunks job chunkSize)).foldlM (downloadChunk sha256 job chunkSize) []

end Job

/-! ## Workers -/

/-- An item of the result queue. -/
inductive PartResult
  | part (partNumber partSize : ℕ) (actualHash data : Bytes)
  | exception
  deriving DecidableEq

/-- The byte range of a work item. -/
def workRange (partSize partNumber : ℕ) : ℕ × ℕ :=
  let startByte := partNumber * partSize
  (startByte, startByte + partSize - 1)

/-- The data that an attempt meets, and the hash reported with it. -/
def Attempt.response? : Attempt → Option (Bytes × Option Text)
  | .raised _ => none
  | .response data treeHash => some (data, treeHash)

/-- `DownloadWorkerThread._download_chunk`, where `unhexlify` gives back the hash.  Nothing
stands for an exception. -/
def downloadChunk (partSize partNumber attempt : ℕ) : Option PartResult := do
  let response ← (job.getOutput (workRange partSize partNumber) attempt).response?
  let actualHash ← (Glacier.treeHash sha256 (chunkHashes sha256 response.1 megabyte)).toOption
  if sameHash job.version response.2 (bytesToHex actualHash) then
    some (.part partNumber partSize actualHash response.1)
  else none

/-- `_process_chunk`, with the attempts that are left and the number of the next one. -/
def processChunk (partSize partNumber : ℕ) : ℕ → ℕ → PartResult
  | 0, _ => .exception
  | left + 1, attempt =>
      (downloadChunk sha256 job partSize partNumber attempt).getD
        (processChunk partSize partNumber left (attempt + 1))

/-! ## The main thread -/

/-- The file and the hashes of the parts that were collected. -/
structure Collected where
  file : Files.File UInt8
  hashChunks : List (Option Bytes)

/-- What is collected with a result. -/
def Collected.add (collected : Collected) : PartResult → Collected
  | .part partNumber partSize actualHash data =>
      { file := Files.File.write 0 data { collected.file with pos := partNumber * partSize }
        hashChunks := collected.hashChunks.set partNumber (some actualHash) }
  | .exception => collected

/-- The loop of `_wait_for_download_threads`, with the number of results that are still
expected: nothing is returned while the queue is empty. -/
def waitLoop : List PartResult → ℕ → Collected → Option (Except DownloadError Collected)
  | _, 0, collected => some (.ok collected)
  | [], _ + 1, _ => none
  | .exception :: _, _ + 1, _ => some (.error .downloadArchive)
  | result :: results, left + 1, collected => waitLoop results left (collected.add result)

/-- The end of `_wait_for_download_threads`: the content of the file. -/
def checkHash (collected : Collected) : Except DownloadError Bytes := do
  let hash ← hashed (Concurrent.treeHashOfChunks sha256 collected.hashChunks)
  if sameHash job.version (some job.sha256Treehash) (bytesToHex hash) then
    .ok collected.file.content
  else .error .treeHashDoesNotMatch

/-- `ConcurrentDownloader.download`, after the workers have put the results of some parts
into the queue, in the order of the list. -/
def download (totalParts partSize : ℕ) (delivered : List ℕ) :
    Option (Except DownloadError Bytes) :=
  let results := delivered.map fun i => processChunk sha256 job partSize i maxAttempts 0
  (waitLoop results totalParts ⟨⟨[], 0⟩, List.replicate totalParts none⟩).map fun result =>
    result.bind (checkHash sha256 job)

end Boto.Glacier.Download

/-!
## What is downloaded of a part

A part is good when data comes that matches the hash reported with it.  The two downloads
try again after different failures: the job after some exceptions, a worker after all of
them and after data that does not match.
-/

namespace Boto.Glacier.Download

/-- The tree hash of data, as the service reports it. -/
def dataHash (sha256 : Bytes → Bytes) (data : Bytes) : Text :=
  bytesToHex (partDigest sha256 megabyte data)

/-- The part of an archive in a byte range. -/
def rangeOf (archive : Bytes) (byteRange : ℕ × ℕ) : Bytes :=
  slice archive byteRange.1 (byteRange.2 + 1)

/-- The service gives each range of the archive with its hash, and the hash of the whole. -/
structure IsCorrect (sha256 : Bytes → Bytes) (archive : Bytes) (job : Job) : Prop where
  output : ∀ byteRange attempt, job.getOutput byteRange attempt =
    .response (rangeOf archive byteRange) (some (dataHash sha256 (rangeOf archive byteRange)))
  treeHash : job.sha256Treehash = dataHash sha256 archive

variable {sha256 : Bytes → Bytes} {job : Job} {archive : Bytes}

theorem ok_bind {ε α β : Type} (a : α) (f : α → Except ε β) : (Except.ok a >>= f) = f a := rfl

theorem treeHashFromStr_eq (data : Bytes) :
    treeHashFromStr sha256 data = .ok (dataHash sha256 data) := by
  rw [treeHashFromStr, treeHash_chunkHashes]
  rfl

theorem sameHash_py2 {expected : Option Text} {actual : Text} :
    sameHash .py2 expected actual = true ↔ expected = some actual :=
  beq_iff_eq

theorem rangeOf_chunk (archive : Bytes) {partSize : ℕ} (hsize : 0 < partSize) (i : ℕ) :
    rangeOf archive (Job.chunkRange partSize i) = (archive.drop (i * partSize)).take partSize := by
  have hstop : (i + 1) * partSize - 1 + 1 = i * partSize + partSize := by
    rw [Nat.succ_mul]
    omega
  rw [rangeOf, Job.chunkRange, hstop, slice_eq_take_drop]

theorem workRange_eq (partSize i : ℕ) : workRange partSize i = Job.chunkRange partSize i := by
  rw [workRange, Job.chunkRange, Nat.succ_mul]

/-! ## The attempts of a job -/

namespace Job

/-- Every attempt meets an exception that is retried. -/
def KeepsFailing (job : Job) (byteRange : ℕ × ℕ) : Prop :=
  ∀ attempt < maxAttempts, job.getOutput byteRange attempt = .raised true

/-- The first attempt that is not retried meets something. -/
def Answers (job : Job) (byteRange : ℕ × ℕ) (answer : Attempt) : Prop :=
  ∃ attempt < maxAttempts, job.getOutput byteRange attempt = answer ∧
    answer ≠ .raised true ∧
      ∀ before < attempt, job.getOutput byteRange before = .raised true

/-- The data of a range that comes with its hash. -/
def Good (sha256 : Bytes → Bytes) (job : Job) (byteRange : ℕ × ℕ) (data : Bytes) : Prop :=
  job.Answers byteRange (.response data (some (dataHash sha256 data)))

/-- The data of a range comes with another hash. -/
def Corrupted (sha256 : Bytes → Bytes) (job : Job) (byteRange : ℕ × ℕ) : Prop :=
  ∃ data treeHash, job.Answers byteRange (.response data treeHash) ∧
    treeHash ≠ some (dataHash sha256 data)

/-- What a job returns for an answer. -/
def answered : Attempt → Except DownloadError (Bytes × Option Text)
  | .raised _ => .error .raised
  | .response data treeHash => .ok (data, treeHash)

/-- What a job returns when all attempts have failed. -/
def exhausted : PyVersion → DownloadError
  | .py2 => .downloadArchive
  | .py3 => .unboundLocal

variable {byteRange : ℕ × ℕ}

theorem downloadByteRange_cases (left first : ℕ) :
    (∀ attempt, first ≤ attempt → attempt < first + left →
        job.getOutput byteRange attempt = .raised true) ∧
      job.downloadByteRange byteRange left first = .error (exhausted job.version) ∨
    ∃ attempt, first ≤ attempt ∧ attempt < first + left ∧
      job.getOutput byteRange attempt ≠ .raised true ∧
      (∀ before, first ≤ before → before < attempt →
        job.getOutput byteRange before = .raised true) ∧
      job.downloadByteRange byteRange left first =
        answered (job.getOutput byteRange attempt) := by
  induction left generalizing first with
  | zero =>
      refine .inl ⟨fun attempt hle hlt => absurd hlt (by omega), ?_⟩
      rw [downloadByteRange]
      cases job.version <;> rfl
  | succ left ih =>
      by_cases hretry : job.getOutput byteRange first = .raised true
      · have hnext : job.downloadByteRange byteRange (left + 1) first =
            job.downloadByteRange byteRange left (first + 1) := by
          rw [downloadByteRange, hretry]
        rw [hnext]
        have hfirst : ∀ attempt, first ≤ attempt → ¬first + 1 ≤ attempt →
            job.getOutput byteRange attempt = .raised true := fun attempt hle hnot => by
          obtain rfl : attempt = first := by omega
          exact hretry
        rcases ih (first + 1) with ⟨hfailing, heq⟩ | ⟨attempt, hle, hlt, hne, hbefore, heq⟩
        · refine .inl ⟨fun attempt hle hlt => ?_, heq⟩
          by_cases hlater : first + 1 ≤ attempt
          · exact hfailing attempt hlater (by omega)
          · exact hfirst attempt hle hlater
        · refine .inr ⟨attempt, by omega, by omega, hne, fun before hle hlt => ?_, heq⟩
          by_cases hlater : first + 1 ≤ before
          · exact hbefore before hlater hlt
          · exact hfirst before hle hlater
      · refine .inr ⟨first, le_rfl, by omega, hretry, fun before hle hlt => by omega, ?_⟩
        rw [downloadByteRange]
        cases hattempt : job.getOutput byteRange first with
        | raised retryable =>
            cases retryable with
            | false => rfl
            | true => exact absurd hattempt hretry
        | response data treeHash => rfl

theorem downloadByteRange_of_keepsFailing (hfailing : job.KeepsFailing byteRange) :
    job.downloadByteRange byteRange maxAttempts 0 = .error (exhausted job.version) := by
  rcases @downloadByteRange_cases job byteRange maxAttempts 0 with
    ⟨-, heq⟩ | ⟨attempt, -, hlt, hne, -, -⟩
  · exact heq
  · exact absurd (hfailing attempt (by omega)) hne

theorem downloadByteRange_of_answers {answer : Attempt} (hanswer : job.Answers byteRange answer) :
    job.downloadByteRange byteRange maxAttempts 0 = answered answer := by
  obtain ⟨attempt, hlt, rfl, hne, hbefore⟩ := hanswer
  rcases @downloadByteRange_cases job byteRange maxAttempts 0 with
    ⟨hfailing, -⟩ | ⟨attempt', -, hlt', hne', hbefore', heq⟩
  · exact absurd (hfailing attempt (Nat.zero_le _) (by omega)) hne
  · obtain rfl : attempt' = attempt := by
      by_contra hdiffer
      rcases Nat.lt_or_gt_of_ne hdiffer with hless | hgreater
      · exact hne' (hbefore attempt' hless)
      · exact hne (hbefore' attempt (Nat.zero_le _) hgreater)
    exact heq

theorem keepsFailing_or_answers (job : Job) (byteRange : ℕ × ℕ) :
    job.KeepsFailing byteRange ∨ ∃ answer, job.Answers byteRange answer := by
  rcases @downloadByteRange_cases job byteRange maxAttempts 0 with
    ⟨hfailing, -⟩ | ⟨attempt, -, hlt, hne, hbefore, -⟩
  · exact .inl fun attempt hlt => hfailing attempt (Nat.zero_le _) (by omega)
  · exact .inr ⟨_, attempt, by omega, rfl, hne, fun before hlt =>
      hbefore before (Nat.zero_le _) hlt⟩

theorem Answers.unique {answer other : Attempt} (hanswer : job.Answers byteRange answer)
    (hother : job.Answers byteRange other) : answer = other := by
  obtain ⟨attempt, -, rfl, hne, hbefore⟩ := hanswer
  obtain ⟨attempt', -, rfl, hne', hbefore'⟩ := hother
  rcases Nat.lt_trichotomy attempt attempt' with hless | rfl | hgreater
  · exact absurd (hbefore' attempt hless) hne
  · rfl
  · exact absurd (hbefore attempt' hgreater) hne'

theorem good_of_isCorrect (hcorrect : IsCorrect sha256 archive job) (byteRange : ℕ × ℕ) :
    Good sha256 job byteRange (rangeOf archive byteRange) := by
  refine ⟨0, by decide, hcorrect.output byteRange 0, fun heq => ?_, fun before hlt => ?_⟩
  · cases heq
  · omega

end Job

end Boto.Glacier.Download
