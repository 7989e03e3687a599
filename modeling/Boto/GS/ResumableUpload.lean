import Boto.Python
import Boto.Support.File
import Boto.Support.Programs

/-!
# Resumable uploads

`ResumableUploadHandler` of `boto/gs/resumable_upload_handler.py`.  The server
holds bytes of one upload, tells on a query how many, and keeps as much of a
failed PUT as it likes.  What the network does to an attempt is its `Fate`.
-/

namespace Boto.GS

open EStateM Files

/-! ## Exceptions -/

/-- `ResumableTransferDisposition`. -/
inductive Disposition
  | startOver
  | waitBeforeRetry
  | abortCurProcess
  | abort
  deriving DecidableEq, Repr

/-- The messages of `ResumableUploadException`, with the numbers they quote. -/
inductive Reason
  | queryResponse (status : ℕ)
  | unparsedQueryResponse
  | contentLengthHeader
  | startResponse (status : ℕ)
  | noTrackerUri
  | trackerFile
  | hitEndOfFile
  | fileChanged (eof fileLength : ℕ)
  | uploadResponse (status : ℕ)
  | badRequest
  | etagMismatch
  | tooManyAttempts
  deriving DecidableEq, Repr

/-- An exception out of the network: an `HTTPException`, a `socket.error` (which
is an `IOError`), or one that is not retried. -/
inductive NetError
  | httpException
  | socketError
  | other
  deriving DecidableEq, Repr

/-- The exceptions of an upload. -/
inductive UploadError
  | net (error : NetError)
  | invalidUri
  | resumable (reason : Reason) (disposition : Disposition)
  deriving DecidableEq, Repr

/-! ## The server and the network -/

/-- A status that says neither that the server has everything nor what it has. -/
structure OtherStatus where
  code : ℕ
  ne_ok : code ≠ 200
  ne_resume : code ≠ 308
  deriving DecidableEq, Repr

/-- What becomes of a state query: it fails, the server knows the upload (and may
call it complete when it has everything), or it does not. -/
inductive QueryFate
  | raises (error : NetError)
  | known (complete : Bool)
  | unknown (status : OtherStatus)
  deriving DecidableEq, Repr

/-- The `Location` header of the response to a POST. -/
inductive Location
  | missing
  | invalid
  | uri
  deriving DecidableEq, Repr

/-- What becomes of the POST that starts an upload; `saved` says whether the
tracker file, if there is one, can be written. -/
inductive PostFate
  | raises (error : NetError)
  | answered (status : ℕ) (location : Location) (saved : Bool)
  deriving DecidableEq, Repr

/-- What becomes of a PUT: how many calls on its connection succeed before one
raises, the response otherwise, and how many of the bytes sent the server keeps if
the PUT does not succeed. -/
structure PutFate where
  callsLeft : Option ℕ
  error : NetError
  status : ℕ
  etag : Text
  kept : ℕ
  deriving DecidableEq, Repr

/-- What becomes of the requests of an attempt. -/
structure Fate where
  query : QueryFate
  post : PostFate
  put : PutFate
  requery : QueryFate
  deriving DecidableEq, Repr

/-- A `Range` header: `bytes=<from>-<to>`, or something else. -/
inductive RangeSpec
  | bytes (first last : ℕ)
  | other
  deriving DecidableEq, Repr

/-- The response to a state query. -/
structure QueryResponse where
  status : ℕ
  range : Option RangeSpec
  deriving DecidableEq, Repr

/-- A PUT: `total_bytes_uploaded` and the bytes the server held when it was made,
the bytes sent, and whether the file came to its end. -/
structure Put where
  total : ℕ
  held : Bytes
  sent : Bytes
  complete : Bool
  callsLeft : Option ℕ
  deriving DecidableEq, Repr

/-- The handler, the file, the attributes of the key, and the server, with the
PUTs made so far. -/
structure State where
  fp : File UInt8
  tracker : Bool
  serverHasBytes : ℕ
  digesters : Digesters
  localHashes : Hashes
  held : Bytes
  puts : List Put
  deriving DecidableEq, Repr

/-- A step of the upload. -/
abbrev Upload := EStateM UploadError State

/-! ## Finding out where to start -/

section

variable (fileLength : ℕ)

/-- `_query_server_state`. -/
def queryServerState : QueryFate → Upload QueryResponse
  | .raises error => throw (.net error)
  | .unknown status => do
      modify fun self => { self with held := [] }
      return { status := status.code, range := none }
  | .known complete => do
      let held := (← get).held
      if complete ∧ held.length = fileLength then
        return { status := 200, range := none }
      else if held = [] then return { status := 308, range := none }
      else
        return { status := 308, range := some (.bytes 0 (held.length - 1)) }

/-- `_query_server_pos`: the first and the last byte that the server has. -/
def queryServerPos (fate : QueryFate) : Upload (ℕ × ℤ) := do
  let resp ← queryServerState fileLength fate
  if resp.status = 200 then return (0, fileLength - 1)
  else if resp.status ≠ 308 then
    throw (.resumable (.queryResponse resp.status) .startOver)
  else
    match resp.range with
    | none => return (0, -1)
    | some (.bytes first last) => return (first, last)
    | some .other => throw (.resumable .unparsedQueryResponse .startOver)

/-- `_start_new_resumable_upload`; `contentLength` says whether the caller passed
a `Content-Length` header. -/
def startNewResumableUpload (contentLength : Bool) (fate : PostFate) :
    Upload Unit := do
  modify fun self => { self with serverHasBytes := 0 }
  if contentLength then throw (.resumable .contentLengthHeader .abort)
  match fate with
  | .raises error => throw (.net error)
  | .answered status location saved =>
      if status = 500 ∨ status = 503 then
        throw (.resumable (.startResponse status) .waitBeforeRetry)
      else if status ≠ 200 ∧ status ≠ 201 then
        throw (.resumable (.startResponse status) .abort)
      else
        match location with
        | .missing => throw (.resumable .noTrackerUri .waitBeforeRetry)
        | .invalid => throw .invalidUri
        | .uri =>
            modify fun self =>
              { self with tracker := true, serverHasBytes := 0, held := [] }
            if saved then pure ()
            else throw (.resumable .trackerFile .abort)

/-- `fp.seek(pos)`. -/
def seek (pos : ℕ) : Upload Unit :=
  modify fun self => { self with fp := { self.fp with pos := pos } }

/-- The loop that catches up the digests, for at most the given number of
rounds. -/
def catchUp (keyBufferSize : ℕ) : ℕ → ℕ → Upload Unit
  | 0, _ => pure ()
  | fuel + 1, bytesToGo =>
      if bytesToGo = 0 then pure ()
      else do
        let fp := (← get).fp
        let amt := min keyBufferSize bytesToGo
        let chunk := (fp.read amt).1
        modify fun self => { self with fp := (fp.read amt).2 }
        if chunk = [] then throw (.resumable .hitEndOfFile .startOver)
        else
          modify fun self =>
            { self with digesters := self.digesters.update chunk }
          catchUp keyBufferSize fuel (bytesToGo - chunk.length)

/-- The first half of `_attempt_resumable_upload`: the last byte that the server
has, `-1` if it has nothing. -/
def findServerEnd (keyBufferSize : ℕ) (contentLength : Bool) (fate : Fate) :
    Upload ℤ := do
  if (← get).tracker then
    match ← attempt (queryServerPos fileLength fate.query) with
    | .error (.resumable _ _) =>
        startNewResumableUpload contentLength fate.post
        return -1
    | .error e => throw e
    | .ok (serverStart, serverEnd) =>
        modify fun self => { self with serverHasBytes := serverStart }
        if serverEnd = 0 then return serverEnd
        else
          seek 0
          let bytesToGo := (serverEnd + 1).toNat
          match ← attempt (catchUp keyBufferSize bytesToGo bytesToGo) with
          | .error (.resumable _ _) =>
              startNewResumableUpload contentLength fate.post
              return serverEnd
          | .error e => throw e
          | .ok _ => return serverEnd
  else
    startNewResumableUpload contentLength fate.post
    return -1

end

/-! ## The PUT -/

/-- What `_upload_file_bytes` works on. -/
structure Sending where
  fp : File UInt8
  digesters : Digesters
  put : Put
  deriving DecidableEq, Repr

/-- `ResumableUploadHandler.BUFFER_SIZE`. -/
def bufferSize : ℕ := 8192

/-- A call on the connection. -/
def call (error : NetError) : EStateM UploadError Sending Unit := do
  let self ← get
  match self.put.callsLeft with
  | some 0 => throw (.net error)
  | some (n + 1) => set { self with put := { self.put with callsLeft := some n } }
  | none => pure ()

/-- `fp.read(self.BUFFER_SIZE)`. -/
def readBuffer : EStateM UploadError Sending Bytes := do
  let fp := (← get).fp
  modify fun self => { self with fp := (fp.read bufferSize).2 }
  return (fp.read bufferSize).1

/-- The `while buf` loop, for at most the given number of rounds. -/
def sendLoop (error : NetError) :
    ℕ → Bytes → ℕ → EStateM UploadError Sending ℕ
  | 0, _, total => pure total
  | fuel + 1, buf, total =>
      if buf = [] then pure total
      else do
        call error
        modify fun self =>
          { self with
            put := { self.put with sent := self.put.sent ++ buf }
            digesters := self.digesters.update buf }
        let next ← readBuffer
        sendLoop error fuel next (total + buf.length)

/-- `_upload_file_bytes`. -/
def uploadFileBytes (fileLength : ℕ) (fate : PutFate) (total : ℕ) :
    EStateM UploadError Sending Text := do
  let fuel := (← get).fp.content.length + 1
  let buf ← readBuffer
  call fate.error
  let total ← sendLoop fate.error fuel buf total
  modify fun self => { self with put := { self.put with complete := true } }
  if total ≠ fileLength then
    throw (.resumable (.fileChanged total fileLength) .abort)
  else
    call fate.error
    if fate.status = 200 then return fate.etag
    else if fate.status = 408 ∨ fate.status = 500 ∨ fate.status = 503 then
      throw (.resumable (.uploadResponse fate.status) .waitBeforeRetry)
    else throw (.resumable (.uploadResponse fate.status) .abort)

/-- The state after a PUT of which the server has kept some bytes. -/
def State.afterPut (self : State) (sending : Sending) (kept : Bytes) : State :=
  { self with
    fp := sending.fp
    digesters := sending.digesters
    held := sending.put.held ++ kept
    puts := self.puts ++ [sending.put] }

/-- `_upload_file_bytes`, and what the server makes of it. -/
def upload (fileLength : ℕ) (fate : PutFate) (total : ℕ) : Upload Text :=
  fun self =>
    let put : Put :=
      { total := total, held := self.held, sent := [], complete := false
        callsLeft := fate.callsLeft }
    match (uploadFileBytes fileLength fate total).run
        { fp := self.fp, digesters := self.digesters, put := put } with
    | .ok etag sending =>
        .ok etag (self.afterPut sending sending.put.sent)
    | .error e sending =>
        .error e (self.afterPut sending (sending.put.sent.take fate.kept))

/-! ## Attempts -/

/-- What `send_file` gets: whether the file is a `KeyFile`, the algorithms, the
size of the buffers of the key, and the hexadecimal form of a digest. -/
structure Params where
  isKeyFile : Bool
  hashAlgs : Option (List Text)
  contentLength : Bool
  numRetries : ℕ
  keyBufferSize : ℕ
  hexdigest : Digest → Text

/-- The exceptions after which an attempt asks the server again. -/
def UploadError.requeries : UploadError → Bool
  | .resumable _ _ => true
  | .net .socketError => true
  | _ => false

section

variable (params : Params) (fileLength : ℕ)

/-- `_attempt_resumable_upload`. -/
def attemptResumableUpload (fate : Fate) : Upload Text := do
  let serverEnd ←
    findServerEnd fileLength params.keyBufferSize params.contentLength fate
  let total := (serverEnd + 1).toNat
  if fileLength < total then seek total
  match ← attempt (upload fileLength fate.put total) with
  | .ok etag => return etag
  | .error e =>
      if e.requeries then
        let resp ← queryServerState fileLength fate.requery
        if resp.status = 400 then throw (.resumable .badRequest .abort)
        else throw e
      else throw e

/-- `key.md5`. -/
def State.md5 (self : State) : Option Text :=
  match self.localHashes.lookup "md5".toList with
  | none | some (.given []) => none
  | some digest => some (params.hexdigest digest)

/-- `etag.strip('"\\'')`. -/
def stripQuotes (etag : Text) : Text :=
  let isQuote := fun c => c == '"' || c == '\''
  ((etag.dropWhile isQuote).reverse.dropWhile isQuote).reverse

/-- The body of the `try` in `send_file`, with `_check_final_md5`. -/
def tryOnce (fate : Fate) : Upload Unit := do
  let etag ← attemptResumableUpload params fileLength fate
  modify fun self =>
    { self with localHashes := self.digesters.digests ++ self.localHashes }
  if (← get).md5 params ≠ some (stripQuotes etag) then
    throw (.resumable .etagMismatch .abort)
  else pure ()

/-- The exceptions after which `send_file` tries again. -/
def UploadError.retries : UploadError → Bool
  | .net .other => false
  | .net _ => true
  | .invalidUri => false
  | .resumable _ disposition =>
      disposition == .startOver || disposition == .waitBeforeRetry

/-- How the loop of `send_file` goes on after an attempt. -/
inductive Next
  | returned (self : State)
  | raised (error : UploadError) (self : State)
  | again (progressLess : ℕ) (self : State)

/-- `track_progress_less_iterations`. -/
def trackProgressLessIterations (progressLess : ℕ) (before self : State) :
    Next :=
  if before.serverHasBytes < self.serverHasBytes then .again 0 self
  else
    let rolledBack := { self with digesters := before.digesters }
    if params.numRetries < progressLess + 1 then
      .raised (.resumable .tooManyAttempts .abortCurProcess) rolledBack
    else .again (progressLess + 1) rolledBack

/-- One round of the loop of `send_file`. -/
def round (progressLess : ℕ) (fate : Fate) (self : State) : Next :=
  match (tryOnce params fileLength fate).run self with
  | .ok _ self' => .returned self'
  | .error e self' =>
      if e.retries then
        trackProgressLessIterations params progressLess self self'
      else .raised e self'

/-- How a run of `send_file` ended; it goes on when there are no more fates. -/
inductive Outcome
  | returned
  | raised (error : UploadError)
  | running
  deriving DecidableEq, Repr

/-- A run of `send_file`: its end, and the state it left. -/
structure Run where
  outcome : Outcome
  state : State
  deriving DecidableEq, Repr

/-- The loop of `send_file`. -/
def rounds : ℕ → List Fate → State → Run
  | _, [], self => { outcome := .running, state := self }
  | progressLess, fate :: fates, self =>
      match round params fileLength progressLess fate self with
      | .returned self' => { outcome := .returned, state := self' }
      | .raised e self' => { outcome := .raised e, state := self' }
      | .again progressLess' self' => rounds progressLess' fates self'

end

/-- The algorithms of `send_file`. -/
def Params.algs (params : Params) : List Text :=
  params.hashAlgs.getD ["md5".toList]

/-- The state in which the loop of `send_file` starts. -/
def State.prepared (params : Params) (self : State) : State :=
  { self with
    fp := { self.fp with pos := if params.isKeyFile then self.fp.pos else 0 }
    digesters := .fed params.algs []
    puts := [] }

/-- `send_file`. -/
def sendFile (params : Params) (fates : List Fate) (self : State) : Run :=
  rounds params self.fp.content.length 0 fates (self.prepared params)

end Boto.GS
