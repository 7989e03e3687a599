import Boto.Glacier.Utils
import Boto.Glacier.Writer.Model
import Mathlib.Logic.Relation

/-!
# Concurrent uploads

`ConcurrentUploader.upload` of `boto/glacier/concurrent.py` and its worker
threads, as a step relation.  A step is one action of the main thread or of one
worker; what a part request does is chosen by the step.  The two queues are
lists, the oldest item first.
-/

namespace Boto.Glacier.Concurrent

/-! ## What an upload is about -/

/-- The file and the parameters of one upload. -/
structure Job where
  content : Bytes
  partSize : ℕ
  totalParts : ℕ
  numThreads : ℕ
  numRetries : ℕ
  uploadId : Text
  archiveId : Text
  deriving DecidableEq, Repr

/-- `ConcurrentTransferer._calculate_required_part_size`.  Part sizes are powers
of two, so the division of the source is exact. -/
def calculateRequiredPartSize (version : PyVersion) (partSize totalSize : ℕ) :
    Except PyError (ℕ × ℕ) := do
  let minPartSizeRequired ← minimumPartSize version totalSize
  let partSize :=
    if partSize ≥ minPartSizeRequired then partSize else minPartSizeRequired
  return (totalSize ⌈/⌉ partSize, partSize)

namespace Job

variable (sha256 : Bytes → Bytes) (job : Job)

/-- What a worker reads of the file for a part. -/
def partContents (partNumber : ℕ) : Bytes :=
  (job.content.drop (partNumber * job.partSize)).take job.partSize

/-- The hash a worker posts for a part. -/
def partHash (partNumber : ℕ) : Bytes :=
  partDigest sha256 megabyte (job.partContents partNumber)

/-- The request `_upload_chunk` makes for a part. -/
def partRequest (partNumber : ℕ) (fate : Fate) : PartRequest :=
  let startByte := partNumber * job.partSize
  let contents := job.partContents partNumber
  { uploadId := job.uploadId
    linearHash := hexlify (sha256 contents)
    treeHash := bytesToHex (job.partHash sha256 partNumber)
    contentRange := (startByte, (startByte : ℤ) + contents.length - 1)
    partData := contents
    fate := fate }

end Job

/-! ## States -/

/-- An item of the work queue. -/
inductive WorkItem
  | part (partNumber partSize : ℕ)
  | endSentinel
  deriving DecidableEq, Repr

/-- An item of the result queue.  An exception does not say which part it was
raised for; the number is kept for reasoning only. -/
inductive PartResult
  | hash (partNumber : ℕ) (treeHash : Bytes)
  | exception (partNumber : ℕ)
  deriving DecidableEq, Repr

/-- Where a worker is in `TransferThread.run`. -/
inductive ThreadPhase
  | checking
  | getting
  | processing (partNumber tries : ℕ)
  | putting (result : PartResult)
  | exited
  deriving DecidableEq, Repr

/-- A worker that was started. -/
structure Thread where
  phase : ThreadPhase
  shouldContinue : Bool
  deriving DecidableEq, Repr

/-- A thread as it is started. -/
def Thread.init : Thread where
  phase := .checking
  shouldContinue := true

/-- Where the main thread is in `upload`. -/
inductive MainPhase
  | starting
  | collecting (count : ℕ)
  | stopping (failed : Bool) (count : ℕ)
  | joining (failed : Bool) (count : ℕ)
  | aborting
  | completing
  | returned (archiveId : Text)
  | raised (error : PyError)
  deriving DecidableEq, Repr

/-- Whether `upload` has returned or raised. -/
def MainPhase.finished : MainPhase → Bool
  | returned _ => true
  | raised _ => true
  | _ => false

/-- What the workers share with each other and with the main thread. -/
structure Shared where
  workerQueue : List WorkItem
  resultQueue : List PartResult
  requests : List PartRequest
  deriving DecidableEq, Repr

/-- The state of an upload.  `collected` are the results the main thread has
taken so far. -/
structure State where
  shared : Shared
  threads : List Thread
  main : MainPhase
  hashChunks : List (Option Bytes)
  collected : List PartResult
  completions : List Completion
  aborted : List Text
  deriving DecidableEq, Repr

/-- `_add_work_items_to_queue`. -/
def workItems (job : Job) : List WorkItem :=
  (List.range job.totalParts).map (fun i => .part i job.partSize) ++
    List.replicate job.numThreads .endSentinel

/-- The state once the work items were added. -/
def initial (job : Job) : State where
  shared := { workerQueue := workItems job, resultQueue := [], requests := [] }
  threads := []
  main := .starting
  hashChunks := List.replicate job.totalParts none
  collected := []
  completions := []
  aborted := []

/-- `upload` up to the start of the first thread, on an uploader with the given
part size.  An exception here is raised before the upload was initiated. -/
def upload (version : PyVersion) (content : Bytes)
    (partSize numThreads numRetries : ℕ) (uploadId archiveId : Text) :
    Except PyError (Job × State) := do
  let (totalParts, partSize) ←
    calculateRequiredPartSize version partSize content.length
  let job :=
    { content := content
      partSize := partSize
      totalParts := totalParts
      numThreads := numThreads
      numRetries := numRetries
      uploadId := uploadId
      archiveId := archiveId }
  return (job, initial job)

/-! ## Steps -/

section

variable (sha256 : Bytes → Bytes) (job : Job)

/-- The steps of a worker. -/
inductive ThreadStep : Shared × Thread → Shared × Thread → Prop
  /-- `while self.should_continue` -/
  | goOn {shared} :
      ThreadStep (shared, ⟨.checking, true⟩) (shared, ⟨.getting, true⟩)
  | leave {shared} :
      ThreadStep (shared, ⟨.checking, false⟩) (shared, ⟨.exited, false⟩)
  /-- `self._worker_queue.get(timeout=1)` -/
  | takePart {i size queue results requests flag} :
      ThreadStep (⟨.part i size :: queue, results, requests⟩, ⟨.getting, flag⟩)
        (⟨queue, results, requests⟩, ⟨.processing i 0, flag⟩)
  | takeSentinel {queue results requests flag} :
      ThreadStep (⟨.endSentinel :: queue, results, requests⟩, ⟨.getting, flag⟩)
        (⟨queue, results, requests⟩, ⟨.exited, flag⟩)
  | timeout {results requests flag} :
      ThreadStep (⟨[], results, requests⟩, ⟨.getting, flag⟩)
        (⟨[], results, requests⟩, ⟨.checking, flag⟩)
  /-- a round of the loop of `_process_chunk` -/
  | succeed {i tries queue results requests flag} :
      ThreadStep (⟨queue, results, requests⟩, ⟨.processing i tries, flag⟩)
        (⟨queue, results, requests ++ [job.partRequest sha256 i .accepted]⟩,
          ⟨.putting (.hash i (job.partHash sha256 i)), flag⟩)
  | retry {i tries queue results requests flag} (fate : Option Fate)
      (hfate : ∀ f ∈ fate, f.raises = true) (htries : tries < job.numRetries) :
      ThreadStep (⟨queue, results, requests⟩, ⟨.processing i tries, flag⟩)
        (⟨queue, results,
          requests ++ (fate.map (job.partRequest sha256 i)).toList⟩,
          ⟨.processing i (tries + 1), flag⟩)
  | giveUp {i tries queue results requests flag} (fate : Option Fate)
      (hfate : ∀ f ∈ fate, f.raises = true) (htries : tries = job.numRetries) :
      ThreadStep (⟨queue, results, requests⟩, ⟨.processing i tries, flag⟩)
        (⟨queue, results,
          requests ++ (fate.map (job.partRequest sha256 i)).toList⟩,
          ⟨.putting (.exception i), flag⟩)
  /-- `self._result_queue.put(result)` -/
  | put {result queue results requests flag} :
      ThreadStep (⟨queue, results, requests⟩, ⟨.putting result, flag⟩)
        (⟨queue, results ++ [result], requests⟩, ⟨.checking, flag⟩)

/-- `tree_hash(hash_chunks)`: a `None` cannot be hashed. -/
def treeHashOfChunks (hashChunks : List (Option Bytes)) :
    Except PyError Bytes :=
  if hashChunks.any Option.isNone then
    .error (.typeError "unsupported operand type(s) for +")
  else treeHash sha256 (hashChunks.filterMap id)

/-- The steps of an upload: those of the main thread, and those of a worker at
any place in the list of threads. -/
inductive Step : State → State → Prop
  | thread {s : State} {before after : List Thread} {t t' : Thread}
      {shared' : Shared} (hthreads : s.threads = before ++ t :: after)
      (hstep : ThreadStep sha256 job (s.shared, t) (shared', t')) :
      Step s { s with shared := shared', threads := before ++ t' :: after }
  /-- `_start_upload_threads` -/
  | startThread {s : State} (hmain : s.main = .starting)
      (hlt : s.threads.length < job.numThreads) :
      Step s { s with threads := s.threads ++ [.init] }
  | allStarted {s : State} (hmain : s.main = .starting)
      (heq : s.threads.length = job.numThreads) :
      Step s { s with main := .collecting 0 }
  /-- the loop of `_wait_for_upload_threads` -/
  | collectHash {s : State} {count i : ℕ} {hash : Bytes}
      {results : List PartResult} (hmain : s.main = .collecting count)
      (hlt : count < job.totalParts)
      (hresults : s.shared.resultQueue = .hash i hash :: results) :
      Step s
        { s with
          shared := { s.shared with resultQueue := results }
          main := .collecting (count + 1)
          hashChunks := s.hashChunks.set i (some hash)
          collected := s.collected ++ [.hash i hash] }
  | collectException {s : State} {count i : ℕ} {results : List PartResult}
      (hmain : s.main = .collecting count) (hlt : count < job.totalParts)
      (hresults : s.shared.resultQueue = .exception i :: results) :
      Step s
        { s with
          shared := { s.shared with resultQueue := results }
          main := .stopping true 0
          collected := s.collected ++ [.exception i] }
  | allCollected {s : State} {count : ℕ} (hmain : s.main = .collecting count)
      (heq : count = job.totalParts) :
      Step s { s with main := .stopping false 0 }
  /-- `_shutdown_threads` -/
  | stopThread {s : State} {failed : Bool} {before after : List Thread}
      {t : Thread} (hmain : s.main = .stopping failed before.length)
      (hthreads : s.threads = before ++ t :: after) :
      Step s
        { s with
          main := .stopping failed (before.length + 1)
          threads := before ++ { t with shouldContinue := false } :: after }
  | allStopped {s : State} {failed : Bool}
      (hmain : s.main = .stopping failed s.threads.length) :
      Step s { s with main := .joining failed 0 }
  | joinThread {s : State} {failed : Bool} {before after : List Thread}
      {t : Thread} (hmain : s.main = .joining failed before.length)
      (hthreads : s.threads = before ++ t :: after)
      (hexited : t.phase = .exited) :
      Step s { s with main := .joining failed (before.length + 1) }
  | allJoined {s : State} {failed : Bool}
      (hmain : s.main = .joining failed s.threads.length) :
      Step s { s with main := if failed then .aborting else .completing }
  /-- `abort_multipart_upload` and `raise e` -/
  | abort {s : State} (hmain : s.main = .aborting) :
      Step s
        { s with
          main := .raised .uploadArchiveError
          aborted := s.aborted ++ [job.uploadId] }
  /-- `complete_multipart_upload` -/
  | complete {s : State} {hash : Bytes} (hmain : s.main = .completing)
      (hhash : treeHashOfChunks sha256 s.hashChunks = .ok hash) :
      Step s
        { s with
          main := .returned job.archiveId
          completions := s.completions ++ [
            { uploadId := job.uploadId
              treeHash := bytesToHex hash
              archiveSize := job.content.length }] }
  | completeFails {s : State} {e : PyError} (hmain : s.main = .completing)
      (hhash : treeHashOfChunks sha256 s.hashChunks = .error e) :
      Step s { s with main := .raised e }

/-- The states an upload can reach. -/
def Reachable (s : State) : Prop :=
  Relation.ReflTransGen (Step sha256 job) (initial job) s

end

end Boto.Glacier.Concurrent
