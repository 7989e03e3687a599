import Boto.Python
import Boto.Support.File
import Boto.Support.Programs

/-!
# Reading a key as a file

`KeyFile` of `boto/s3/keyfile.py`, over the reading methods of `Key` in
`boto/s3/key.py` and the response class of `boto/connection.py`.  The store
answers a request for a range from `k` on with what lies there, and with status
416 when nothing does.
-/

namespace Boto.S3

open EStateM Files

/-! ## Responses -/

/-- `boto.connection.HTTPResponse`: what is left of the body, and the body that
`read` without an amount has cached. -/
structure HTTPResponse where
  body : Bytes
  cachedResponse : Bytes
  deriving DecidableEq, Repr

namespace HTTPResponse

/-- `HTTPResponse.read()`. -/
def read (self : HTTPResponse) : Bytes × HTTPResponse :=
  if self.cachedResponse.isEmpty then
    (self.body, { body := [], cachedResponse := self.body })
  else (self.cachedResponse, self)

/-- `HTTPResponse.read(amt)` for a positive amount. -/
def readAmt (amt : ℕ) (self : HTTPResponse) : Bytes × HTTPResponse :=
  (self.body.take amt, { self with body := self.body.drop amt })

end HTTPResponse

/-- The object as the store has it.  What the store makes of a range that starts
before the object is left open: it sends the whole object, or a status. -/
structure Store where
  content : Bytes
  errorBody : Bytes
  negativeRange : Option ℕ
  deriving DecidableEq, Repr

/-- The answer to a GET request, with the start of the `Range` header if there is
one: the body, or the status of an error. -/
def Store.answer (store : Store) : Option ℤ → Except ℕ Bytes
  | none => .ok store.content
  | some start =>
      if start < 0 then
        match store.negativeRange with
        | none => .ok store.content
        | some status => .error status
      else if start < store.content.length then
        .ok (store.content.drop start.toNat)
      else .error 416

/-! ## `Key` -/

/-- A `Key` that is read. -/
structure Key where
  resp : Option HTTPResponse
  size : Option ℕ
  deriving DecidableEq, Repr

namespace Key

variable (store : Store)

/-- `Key.open_read`, for a request from `start` on. -/
def openRead (start : Option ℤ) : EStateM PyError Key Unit := do
  if (← get).resp.isSome then pure ()
  else
    match store.answer start with
    | .ok body =>
        set ({ resp := some { body := body, cachedResponse := [] }
               size := some store.content.length } : Key)
    | .error status =>
        let resp : HTTPResponse :=
          { body := store.errorBody, cachedResponse := [] }
        modify fun key => { key with resp := some resp.read.2 }
        throw (.storageResponseError status)

/-- `Key.close`. -/
def close (fast : Bool) : EStateM PyError Key Unit := do
  match (← get).resp with
  | some resp =>
      if !fast then modify fun key => { key with resp := some resp.read.2 }
      else pure ()
  | none => pure ()
  modify fun key => { key with resp := none }

/-- `Key.read`. -/
def read (size : ℕ) : EStateM PyError Key Bytes := do
  openRead store none
  match (← get).resp with
  | some resp =>
      let (data, resp') := if size = 0 then resp.read else resp.readAmt size
      modify fun key => { key with resp := some resp' }
      if data = [] then close false else pure ()
      return data
  | none => return []

end Key

/-! ## `KeyFile` -/

/-- `KeyFile`. -/
structure KeyFile where
  key : Key
  location : Option ℤ
  deriving DecidableEq, Repr

namespace KeyFile

variable (store : Store)

/-- Run a method of the key. -/
def onKey {α : Type} (x : EStateM PyError Key α) : EStateM PyError KeyFile α :=
  zoom KeyFile.key (fun self key => { self with key := key }) x

/-- `KeyFile.__init__`, on a key that was not opened yet. -/
def init : EStateM PyError KeyFile Unit := do
  onKey (Key.openRead store none)
  modify fun self => { self with location := some 0 }

/-- A key file before `__init__`. -/
def unopened : KeyFile where
  key := { resp := none, size := none }
  location := none

/-- `KeyFile.tell`. -/
def tell : EStateM PyError KeyFile ℤ := do
  match (← get).location with
  | none => throw (.valueError "I/O operation on closed file")
  | some location => return location

/-- `self.location`, where the source computes with it. -/
def getLocation : EStateM PyError KeyFile ℤ := do
  match (← get).location with
  | none => throw (.typeError "unsupported operand type(s) for +=")
  | some location => return location

/-- `KeyFile.read`. -/
def read (size : ℕ) : EStateM PyError KeyFile Bytes := do
  let location ← getLocation
  modify fun self => { self with location := some (location + size) }
  onKey (Key.read store size)

/-- The `SEEK_END` branch of `KeyFile.seek`. -/
def seekEnd (pos : ℤ) : EStateM PyError KeyFile Unit := do
  match (← get).key.size with
  | none => throw (.typeError "unsupported operand type(s) for +")
  | some size =>
      if size = 0 then pure ()
      else
        let pos := size + pos - 1
        if pos < 0 then throw (.ioError "Invalid argument")
        else
          onKey (Key.openRead store (some pos))
          let _ ← onKey (Key.read store 1)
          modify fun self => { self with location := some (pos + 1) }

/-- Open the key at `pos`, ignoring status 416, and remember the position. -/
def reopen (pos : ℤ) : EStateM PyError KeyFile Unit := do
  match ← attempt (onKey (Key.openRead store (some pos))) with
  | .ok _ => pure ()
  | .error e => if e = .storageResponseError 416 then pure () else throw e
  modify fun self => { self with location := some pos }

/-- `KeyFile.seek`. -/
def seek (pos : ℤ) (whence : Whence) : EStateM PyError KeyFile Unit := do
  onKey (Key.close true)
  match whence with
  | .stop => seekEnd store pos
  | .start =>
      if pos < 0 then throw (.ioError "Invalid argument")
      else reopen store pos
  | .current =>
      let location ← getLocation
      reopen store (pos + location)

end KeyFile

/-! ## Uses of a file -/

/-- A call on a file. -/
inductive FileOp
  | read (size : ℕ)
  | seek (pos : ℤ) (whence : Whence)
  | tell
  deriving DecidableEq, Repr

/-- What a call gave. -/
inductive Outcome
  | data (bytes : Bytes)
  | position (pos : ℤ)
  | done
  | raised (error : PyError)
  deriving DecidableEq, Repr

/-- The outcome of a run. -/
def outcome {α : Type} (value : α → Outcome) :
    EStateM.Result PyError KeyFile α → Outcome × KeyFile
  | .ok a self => (value a, self)
  | .error e self => (.raised e, self)

namespace KeyFile

/-- One call. -/
def call (store : Store) (self : KeyFile) : FileOp → Outcome × KeyFile
  | .read size => outcome .data ((read store size).run self)
  | .seek pos whence =>
      outcome (fun _ => .done) ((seek store pos whence).run self)
  | .tell => outcome .position (tell.run self)

/-- Calls one after another; after an exception the caller goes on. -/
def calls (store : Store) : KeyFile → List FileOp → List Outcome
  | _, [] => []
  | self, op :: ops =>
      (self.call store op).1 :: calls store (self.call store op).2 ops

end KeyFile

/-- One call on a file in memory; seeking before its start is an `IOError`. -/
def memoryCall (f : File UInt8) : FileOp → Outcome × File UInt8
  | .read size => (.data (f.read size).1, (f.read size).2)
  | .seek pos whence =>
      match f.seek pos whence with
      | some f' => (.done, f')
      | none => (.raised (.ioError "Invalid argument"), f)
  | .tell => (.position f.pos, f)

/-- Calls one after another on a file in memory. -/
def memoryCalls : File UInt8 → List FileOp → List Outcome
  | _, [] => []
  | f, op :: ops => (memoryCall f op).1 :: memoryCalls (memoryCall f op).2 ops

end Boto.S3
