import Boto.Python
import Boto.Support.File
import Boto.Support.Programs

/-!
# Sending a file

`Key._send_file_internal` and `Key.should_retry` of `boto/s3/key.py`, with the
retry loop `AWSAuthConnection._mexe` of `boto/connection.py` around the sender.
What happens on the wire comes in as a list of attempts: how many calls on the
connection succeed before one raises, and the response otherwise.
-/

namespace Boto.S3.SendFile

open EStateM Files

/-! ## Connections -/

/-- A response, as far as the code looks at it. -/
structure Response where
  status : ℕ
  etag : Option Text
  location : Option Text
  sseCustomerAlgorithm : Option Text
  kmsKeyName : Option Text
  errorCode : Text
  deriving DecidableEq, Repr

/-- An exception out of a connection: one of `http_exceptions`, one of these that
is in `http_unretryable_exceptions` too, or another one. -/
inductive Fault
  | http
  | unretryable
  | other
  deriving DecidableEq, Repr

/-- The exceptions of a sender and of the loop around it. -/
inductive SendError
  | fault (fault : Fault)
  | pleaseRetry (response : Response)
  | storageDataError (message : String)
  | storageResponseError (status : ℕ)
  | botoServerError (status : ℕ)
  | botoClientError (message : String)
  deriving DecidableEq, Repr

/-- What the environment does with one run of the sender. -/
structure Attempt where
  callsLeft : Option ℕ
  fault : Fault
  response : Response
  deriving DecidableEq, Repr

/-- A connection: what was sent, whether the response was asked for, and what is
left of the attempt. -/
structure Connection where
  sent : List Bytes
  asked : Bool
  callsLeft : Option ℕ
  fault : Fault
  response : Response
  deriving DecidableEq, Repr

namespace Connection

/-- A connection on which nothing was sent yet. -/
def fresh (attempt : Attempt) : Connection where
  sent := []
  asked := false
  callsLeft := attempt.callsLeft
  fault := attempt.fault
  response := attempt.response

/-- A call that needs the network. -/
def call : EStateM SendError Connection Unit := do
  let conn ← get
  match conn.callsLeft with
  | some 0 => throw (.fault conn.fault)
  | some (n + 1) => set { conn with callsLeft := some n }
  | none => pure ()

/-- `send`. -/
def send (data : Bytes) : EStateM SendError Connection Unit := do
  call
  modify fun conn => { conn with sent := conn.sent ++ [data] }

/-- `getresponse`, and reading the response. -/
def getresponse : EStateM SendError Connection Response := do
  modify fun conn => { conn with asked := true }
  call
  return (← get).response

end Connection

/-! ## The sender -/

/-- A file object; `tell` of one that is not seekable raises. -/
structure Stream where
  file : File UInt8
  seekable : Bool
  deriving DecidableEq, Repr

/-- The attributes of the key, and the variables of `_send_file_internal`, that
outlive one run of the sender. -/
structure State where
  fp : Stream
  digesters : Digesters
  size : Option ℕ
  localHashes : Hashes
  etag : Option Text
  readFromStream : Bool
  deriving DecidableEq, Repr

/-- A run of the sender on a connection. -/
structure Exchange where
  state : State
  conn : Connection
  deriving DecidableEq, Repr

/-- The arguments of `_send_file_internal`, `Key.BufferSize`, and the hexadecimal
form of a digest. -/
structure Request where
  chunkedTransfer : Bool
  size : Option ℕ
  bufferSize : ℕ
  hexdigest : Digest → Text

/-- A step of the sender. -/
abbrev Sender := EStateM SendError Exchange

/-- Use the connection. -/
def onConn {α : Type} (x : EStateM SendError Connection α) : Sender α :=
  zoom Exchange.conn (fun s conn => { s with conn := conn }) x

/-- Change what outlives the run. -/
def modifyState (f : State → State) : Sender Unit :=
  modify fun s => { s with state := f s.state }

/-- `'%x' % n`. -/
def hexNumber (n : ℕ) : Bytes := encodeUtf8 (Nat.toDigits 16 n)

/-- `b'\r\n'`. -/
def crlf : Bytes := [13, 10]

/-- What `send` is called with for a chunk. -/
def frame (chunkedTransfer : Bool) (chunk : Bytes) : List Bytes :=
  if chunkedTransfer then
    [hexNumber chunk.length ++ (59 :: crlf), chunk, crlf]
  else [chunk]

/-- Send one after another. -/
def sendAll : List Bytes → EStateM SendError Connection Unit
  | [] => pure ()
  | data :: rest => do
      Connection.send data
      sendAll rest

section

variable (request : Request)

/-- Go to the start of the data, or give up where that is not possible. -/
def rewind (spos : Option ℕ) : Sender Unit := do
  match spos with
  | some spos =>
      modifyState fun state =>
        { state with
          fp := { state.fp with file := { state.fp.file with pos := spos } } }
  | none =>
      if (← get).state.readFromStream then
        throw (.storageDataError
          "Cannot retry failed request. fp does not support seeking.")
      else pure ()

/-- The next chunk, of at most `bytesTogo` bytes unless that is `None` or 0. -/
def readChunk (bytesTogo : Option ℕ) : Sender Bytes := do
  let file := (← get).state.fp.file
  let amt :=
    match bytesTogo with
    | none | some 0 => request.bufferSize
    | some n => if n < request.bufferSize then n else request.bufferSize
  modifyState fun state =>
    { state with fp := { state.fp with file := (file.read amt).2 } }
  return (file.read amt).1

/-- The `while chunk` loop, for at most the given number of rounds; `dataLen` is
what was sent before. -/
def sendLoop : ℕ → Bytes → Option ℕ → ℕ → Sender ℕ
  | 0, _, _, dataLen => pure dataLen
  | fuel + 1, chunk, bytesTogo, dataLen =>
      if chunk.isEmpty then pure dataLen
      else do
        let dataLen := dataLen + chunk.length
        onConn (sendAll (frame request.chunkedTransfer chunk))
        modifyState fun state =>
          { state with digesters := state.digesters.update chunk }
        match bytesTogo with
        | none | some 0 =>
            let chunk ← readChunk request bytesTogo
            sendLoop fuel chunk bytesTogo dataLen
        | some togo =>
            let bytesTogo := togo - chunk.length
            if bytesTogo = 0 then pure dataLen
            else
              let chunk ← readChunk request (some bytesTogo)
              sendLoop fuel chunk (some bytesTogo) dataLen

/-- `Key.md5`. -/
def State.md5 (state : State) : Option Text :=
  match state.localHashes.lookup "md5".toList with
  | none | some (.given []) => none
  | some digest => some (request.hexdigest digest)

/-- The condition under which `should_retry` compares the ETag. -/
def Response.comparesETag (response : Response) : Bool :=
  response.sseCustomerAlgorithm.isNone && response.kmsKeyName.isNone

/-- `Key.should_retry`. -/
def shouldRetry (response : Response) : Sender Bool := do
  if !request.chunkedTransfer &&
      (response.status == 500 || response.status == 503) then
    return true
  else if !request.chunkedTransfer && (response.location.getD []) ≠ [] then
    return true
  else if 200 ≤ response.status ∧ response.status ≤ 299 then
    modifyState fun state => { state with etag := response.etag }
    let md5 := (← get).state.md5 request
    let expected := '"' :: md5.getD "None".toList ++ ['"']
    if response.comparesETag ∧ response.etag ≠ some expected then
      throw (.storageDataError "ETag from S3 did not match computed MD5.")
    else return true
  else if response.status = 400 ∧ response.errorCode = "RequestTimeout".toList
    then throw (.pleaseRetry response)
  else return false

/-- The end of `sender`, behind the loop. -/
def finish (dataLen : ℕ) : Sender Response := do
  modifyState fun state =>
    { state with
      size := some dataLen
      localHashes := state.digesters.digests ++ state.localHashes }
  if request.chunkedTransfer then onConn (sendAll [48 :: crlf, crlf])
  let response ← onConn Connection.getresponse
  if ← shouldRetry request response then return response
  else throw (.storageResponseError response.status)

/-- `sender`, the closure of `_send_file_internal`. -/
def sender (spos : Option ℕ) : Sender Response := do
  rewind spos
  onConn Connection.call
  let fuel := (← get).state.fp.file.content.length + 1
  let chunk ← readChunk request request.size
  if spos.isNone then
    modifyState fun state => { state with readFromStream := true }
  let dataLen ← sendLoop request fuel chunk request.size 0
  finish request dataLen

/-! ## The retry loop -/

/-- An attempt that was made, and its connection afterwards. -/
structure Record where
  attempt : Attempt
  conn : Connection
  deriving DecidableEq, Repr

/-- A run of `_mexe`: the attempts it made, and how it ended.  Without an outcome
it waits for another attempt. -/
structure Run where
  records : List Record
  outcome : Option (Except SendError Response)
  state : State

/-- The run with an attempt in front. -/
def Run.after (record : Record) (run : Run) : Run :=
  { run with records := record :: run.records }

/-- The exception that `_mexe` raises when it has no retries left. -/
def exhausted : Option Response → Option SendError → SendError
  | some response, _ => .botoServerError response.status
  | none, some ex => ex
  | none, none => .botoClientError "Please report this exception as a Boto Issue!"

/-- `_mexe`, from retry `i` on. -/
def mexe (spos : Option ℕ) (numRetries : ℕ) : ℕ → Option Response →
    Option SendError → List Attempt → State → Run
  | i, response, ex, attempts, state =>
    if numRetries < i then
      { records := [], outcome := some (.error (exhausted response ex))
        state := state }
    else
      match attempts with
      | [] => { records := [], outcome := none, state := state }
      | attempt :: attempts =>
          let result := (sender request spos).run
            { state := state, conn := .fresh attempt }
          let record := { attempt := attempt, conn := result.state.conn }
          let next := result.state.state
          let stop (outcome : Except SendError Response) : Run :=
            { records := [record], outcome := some outcome, state := next }
          match result with
          | .ok response _ =>
              if response.status == 500 || response.status == 502 ||
                  response.status == 503 || response.status == 504 then
                (mexe spos numRetries (i + 1) (some response) ex attempts
                  next).after record
              else if response.status < 300 ∨ 400 ≤ response.status ∨
                  (response.location.getD []) = [] then
                stop (.ok response)
              else
                (mexe spos numRetries i none ex attempts next).after record
          | .error e _ =>
              match e with
              | .pleaseRetry response =>
                  (mexe spos numRetries (i + 1) (some response) (some e)
                    attempts next).after record
              | .fault .http =>
                  (mexe spos numRetries (i + 1) response (some e) attempts
                    next).after record
              | e => stop (.error e)

/-- The algorithms of the digesters: MD5 if none were asked for, and the key has
no MD5 yet. -/
def digesterAlgs (hashAlgs : Option (List Text)) (key : State) : List Text :=
  match hashAlgs with
  | none => if (key.md5 request).isNone then ["md5".toList] else []
  | some algs => algs

/-- `Key._send_file_internal`, for a key with the given attributes. -/
def sendFileInternal (hashAlgs : Option (List Text)) (numRetries : ℕ)
    (attempts : List Attempt) (key : State) : Run :=
  let spos := if key.fp.seekable then some key.fp.file.pos else none
  let state :=
    { key with
      digesters := .fed (digesterAlgs request hashAlgs key) []
      readFromStream := key.fp.seekable && key.readFromStream }
  mexe request spos numRetries 0 none none attempts state

end

end Boto.S3.SendFile
