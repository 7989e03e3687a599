import Boto.Glacier.Utils
import Boto.Support.Programs

/-!
# Writing a Glacier archive in parts

The classes of `boto/glacier/writer.py`.  The service behind `vault.layer1` is a
log of the requests it received, and a `Service` decides what becomes of each of
them: a part may be refused, or stored without its response coming through, and
in both cases the request raises.
-/

namespace Boto.Glacier

open EStateM

/-! ## The service -/

/-- What becomes of one part upload. -/
inductive Fate
  | accepted
  | rejected
  | unacknowledged
  deriving DecidableEq, Repr

/-- Whether the request raises in the caller. -/
def Fate.raises : Fate → Bool
  | accepted => false
  | rejected => true
  | unacknowledged => true

/-- Whether the service holds the part afterwards. -/
def Fate.stores : Fate → Bool
  | accepted => true
  | rejected => false
  | unacknowledged => true

/-- The fate of the `n`-th part request, and the archive id handed out. -/
structure Service where
  fate : ℕ → Fate
  archiveId : Text

/-- A service that stores and acknowledges every part. -/
def Service.Accepts (service : Service) : Prop :=
  ∀ n, service.fate n = .accepted

/-- The service with no failures. -/
def Service.accepting : Service where
  fate _ := .accepted
  archiveId := []

theorem Service.accepts_accepting : accepting.Accepts :=
  fun _ => rfl

/-- The arguments of one `layer1.upload_part` call, with its fate. -/
structure PartRequest where
  uploadId : Text
  linearHash : Text
  treeHash : Text
  contentRange : ℤ × ℤ
  partData : Bytes
  fate : Fate
  deriving DecidableEq, Repr

/-- The arguments of one `layer1.complete_multipart_upload` call. -/
structure Completion where
  uploadId : Text
  treeHash : Text
  archiveSize : ℕ
  deriving DecidableEq, Repr

/-- The requests received so far, oldest first. -/
structure Layer1 where
  parts : List PartRequest
  completions : List Completion
  deriving DecidableEq, Repr

/-! ## `_Partitioner` -/

/-- `_Partitioner`, with the cached length of its buffer. -/
structure Partitioner where
  partSize : ℕ
  buffer : List Bytes
  bufferSize : ℕ
  deriving DecidableEq, Repr

namespace Partitioner

/-- `_Partitioner.__init__`. -/
def init (partSize : ℕ) : Partitioner where
  partSize := partSize
  buffer := []
  bufferSize := 0

/-- The partitioner after `_send_part` has put back what exceeds a part. -/
def putBack (self : Partitioner) (data : Bytes) : Partitioner :=
  if data.length > self.partSize then
    { self with
      buffer := [data.drop self.partSize]
      bufferSize := (data.drop self.partSize).length }
  else
    { self with buffer := [], bufferSize := 0 }

section

variable {σ : Type} (sendFn : Bytes → EStateM PyError σ Unit)

/-- `_Partitioner._send_part`, with the state of its `send_fn` beside it. -/
def sendPart : EStateM PyError (Partitioner × σ) Unit := do
  let self := (← get).1
  let data := self.buffer.flatten
  modify fun s => (self.putBack data, s.2)
  let part := data.take self.partSize
  zoom Prod.snd (fun s t => (s.1, t)) (sendFn part)

/-- `_Partitioner.write`. -/
def write (data : Bytes) : EStateM PyError (Partitioner × σ) Unit := do
  if data = [] then pure ()
  else
    let self := (← get).1
    let self' := { self with
      buffer := self.buffer ++ [data]
      bufferSize := self.bufferSize + data.length }
    modify fun s => (self', s.2)
    whileLoop (fun s => decide (s.1.bufferSize > s.1.partSize))
      (sendPart sendFn) self'.bufferSize

/-- `_Partitioner.flush`. -/
def flush : EStateM PyError (Partitioner × σ) Unit := do
  let self := (← get).1
  if self.bufferSize > 0 then sendPart sendFn else pure ()

end

end Partitioner

/-! ## `_Uploader` -/

/-- `_Uploader`.  A `none` among the tree hashes is Python's `None`. -/
structure Uploader where
  uploadId : Text
  partSize : ℕ
  chunkSize : ℕ
  archiveId : Option Text
  uploadedSize : ℕ
  treeHashes : List (Option Bytes)
  closed : Bool
  deriving DecidableEq, Repr

/-- An uploader together with the service it talks to. -/
structure Upload where
  uploader : Uploader
  layer1 : Layer1
  deriving DecidableEq, Repr

/-- `_Uploader.__init__`, on a service that has received nothing. -/
def Upload.init (uploadId : Text) (partSize chunkSize : ℕ) : Upload where
  uploader :=
    { uploadId := uploadId
      partSize := partSize
      chunkSize := chunkSize
      archiveId := none
      uploadedSize := 0
      treeHashes := []
      closed := false }
  layer1 := { parts := [], completions := [] }

namespace Uploader

/-- The list `_insert_tree_hash` assigns into, grown when the index lies past
its end.  A negative repetition count gives an empty list. -/
def extendTreeHashes (treeHashes : List (Option Bytes)) (index : ℕ) :
    List (Option Bytes) :=
  let listLength := treeHashes.length
  if index ≥ listLength then
    treeHashes ++
      List.replicate ((listLength : ℤ) - index + 1).toNat none
  else treeHashes

/-- `_Uploader._insert_tree_hash`. -/
def insertTreeHash (index : ℕ) (rawTreeHash : Bytes) :
    EStateM PyError Upload Unit := do
  let self := (← get).uploader
  let treeHashes := extendTreeHashes self.treeHashes index
  modify fun s =>
    { s with uploader := { s.uploader with treeHashes := treeHashes } }
  if index < treeHashes.length then
    modify fun s =>
      { s with uploader :=
        { s.uploader with
          treeHashes := treeHashes.set index (some rawTreeHash) } }
  else throw (.indexError "list assignment index out of range")

section

variable (sha256 : Bytes → Bytes) (service : Service)

/-- `layer1.upload_part` followed by reading its response. -/
def requestPart (uploadId linearHash treeHash : Text) (contentRange : ℤ × ℤ)
    (partData : Bytes) : EStateM PyError Upload Unit := do
  let fate := service.fate (← get).layer1.parts.length
  modify fun s =>
    { s with layer1 := { s.layer1 with parts := s.layer1.parts ++ [
      { uploadId := uploadId
        linearHash := linearHash
        treeHash := treeHash
        contentRange := contentRange
        partData := partData
        fate := fate }] } }
  if fate.raises then throw .requestError else pure ()

/-- `_Uploader.upload_part`. -/
def uploadPart (partIndex : ℕ) (partData : Bytes) :
    EStateM PyError Upload Unit := do
  let self := (← get).uploader
  if self.closed then
    throw (.valueError "I/O operation on closed file")
  else
    let partTreeHash ← ofExcept
      (treeHash sha256 (chunkHashes sha256 partData self.chunkSize))
    insertTreeHash partIndex partTreeHash
    let hexTreeHash := bytesToHex partTreeHash
    let linearHash := hexlify (sha256 partData)
    let start := self.partSize * partIndex
    let contentRange : ℤ × ℤ := (start, (start : ℤ) + partData.length - 1)
    requestPart service self.uploadId linearHash hexTreeHash contentRange
      partData
    modify fun s =>
      { s with uploader :=
        { s.uploader with
          uploadedSize := s.uploader.uploadedSize + partData.length } }

/-- `_Uploader.skip_part`. -/
def skipPart (partIndex : ℕ) (partTreeHash : Bytes) (partLength : ℕ) :
    EStateM PyError Upload Unit := do
  let self := (← get).uploader
  if self.closed then
    throw (.valueError "I/O operation on closed file")
  else
    insertTreeHash partIndex partTreeHash
    modify fun s =>
      { s with uploader :=
        { s.uploader with
          uploadedSize := s.uploader.uploadedSize + partLength } }

/-- `_Uploader.close`. -/
def close : EStateM PyError Upload Unit := do
  let self := (← get).uploader
  if self.closed then pure ()
  else if none ∈ self.treeHashes then
    throw (.runtimeError "Some parts were not uploaded.")
  else
    let rawTreeHash ← ofExcept
      (treeHash sha256 (self.treeHashes.filterMap id))
    modify fun s =>
      { s with layer1 :=
        { s.layer1 with completions := s.layer1.completions ++ [
          { uploadId := self.uploadId
            treeHash := bytesToHex rawTreeHash
            archiveSize := self.uploadedSize }] } }
    modify fun s =>
      { s with uploader :=
        { s.uploader with
          archiveId := some service.archiveId
          closed := true } }

end

end Uploader

/-! ## `Writer` -/

/-- What `Writer._upload_part` works on: everything but the partitioner. -/
structure WriterCore where
  nextPartIndex : ℕ
  upload : Upload
  deriving DecidableEq, Repr

/-- `Writer`, with the service its uploader talks to. -/
structure Writer where
  partitioner : Partitioner
  core : WriterCore
  closed : Bool
  deriving DecidableEq, Repr

namespace Writer

/-- `Writer.__init__`. -/
def init (uploadId : Text) (partSize chunkSize : ℕ) : Writer where
  partitioner := .init partSize
  core :=
    { nextPartIndex := 0
      upload := .init uploadId partSize chunkSize }
  closed := false

/-- Run a partitioner method from inside the writer. -/
def onPartitioner {α : Type}
    (x : EStateM PyError (Partitioner × WriterCore) α) :
    EStateM PyError Writer α :=
  zoom (fun w => (w.partitioner, w.core))
    (fun w s => { w with partitioner := s.1, core := s.2 }) x

/-- Run an uploader method from inside the writer. -/
def onUpload {α : Type} (x : EStateM PyError Upload α) :
    EStateM PyError WriterCore α :=
  zoom WriterCore.upload (fun c u => { c with upload := u }) x

section

variable (sha256 : Bytes → Bytes) (service : Service)

/-- `Writer._upload_part`. -/
def uploadPart (partData : Bytes) : EStateM PyError WriterCore Unit := do
  let nextPartIndex := (← get).nextPartIndex
  onUpload (Uploader.uploadPart sha256 service nextPartIndex partData)
  modify fun c => { c with nextPartIndex := c.nextPartIndex + 1 }

/-- `Writer.write`. -/
def write (data : Bytes) : EStateM PyError Writer Unit := do
  if (← get).closed then
    throw (.valueError "I/O operation on closed file")
  else onPartitioner (Partitioner.write (uploadPart sha256 service) data)

/-- `Writer.close`. -/
def close : EStateM PyError Writer Unit := do
  if (← get).closed then pure ()
  else
    onPartitioner (Partitioner.flush (uploadPart sha256 service))
    zoom Writer.core (fun w c => { w with core := c })
      (onUpload (Uploader.close sha256 service))
    modify fun w => { w with closed := true }

/-- `write` on each of the given data in turn; a caller that gets an exception
goes on with the next one. -/
def writeEach : List Bytes → EStateM PyError Writer Unit
  | [] => pure ()
  | data :: rest => do
      let _ ← attempt (write sha256 service data)
      writeEach rest

end

end Writer

end Boto.Glacier
