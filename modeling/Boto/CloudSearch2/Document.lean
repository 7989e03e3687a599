import Boto.Auth.Request
import Boto.Support.JsonDumps

/-!
# Batches of documents

`DocumentServiceConnection` of `boto/cloudsearch2/document.py`, with the check of
`CommitResponse` on the numbers that the service reports.
-/

namespace Boto.CloudSearch2

open Auth (strInt)

/-! ## Operations -/

/-- The fields of a document, which `json.dumps` can write. -/
structure DocumentFields where
  members : List (Text × Json)
  numbers : Json.membersHaveNumbers members = true

/-- An entry of `documents_batch`. -/
inductive Operation
  | add (id : Text) (fields : DocumentFields)
  | delete (id : Text)

/-- `type`. -/
inductive OperationType
  | add
  | delete
  deriving DecidableEq

namespace OperationType

/-- The name of a type. -/
def name : OperationType → Text
  | add => ['a', 'd', 'd']
  | delete => ['d', 'e', 'l', 'e', 't', 'e']

end OperationType

namespace Operation

/-- `d['type']`. -/
def type : Operation → OperationType
  | add _ _ => .add
  | delete _ => .delete

/-- The dictionary of an operation. -/
def toJson : Operation → Json
  | add id fields => .object [(['t', 'y', 'p', 'e'], .string OperationType.add.name),
      (['i', 'd'], .string id), (['f', 'i', 'e', 'l', 'd', 's'], .object fields.members)]
  | delete id => .object [(['t', 'y', 'p', 'e'], .string OperationType.delete.name),
      (['i', 'd'], .string id)]

end Operation

/-- The separators of `json.dumps`. -/
def separators : Json.Separators := ⟨[' '], [' ']⟩

/-! ## Responses -/

/-- What the body of a response says. -/
structure Content where
  status : Text
  errors : List (Option Text)
  adds : Option ℤ
  deletes : Option ℤ

/-- A response, whose body may be no JSON. -/
structure Response where
  statusCode : ℕ
  content : Option Content

/-- What a commit can fail with. -/
inductive CommitError
  | botoServer (statusCode : ℕ)
  | encoding
  | contentTooLong
  | keyError
  | typeError
  | commitMismatch (message : Text) (errors : List (Option Text))

/-- `CommitMismatchError`. -/
def CommitError.isMismatch : CommitError → Bool
  | commitMismatch _ _ => true
  | _ => false

/-- `CommitResponse`. -/
structure CommitResponse where
  status : Text
  errors : List (Option Text)
  adds : ℤ
  deletes : ℤ

/-- The errors that are raised for the messages of a response. -/
def raiseErrors : List (Option Text) → Except CommitError Unit
  | [] => .ok ()
  | none :: _ => .error .typeError
  | some message :: errors =>
      if "Illegal Unicode character".toList <:+: message then .error .encoding
      else if message = "The Content-Length is too long".toList then .error .contentTooLong
      else raiseErrors errors

/-- `_check_num_ops`. -/
def checkNumOps (documentsBatch : List Operation) (errors : List (Option Text))
    (type : OperationType) (responseNum : ℤ) : Except CommitError Unit :=
  let commitNum := documentsBatch.countP fun d => d.type = type
  if responseNum ≠ commitNum then
    .error (.commitMismatch ("Incorrect number of ".toList ++ type.name ++
      "s returned. Commit: ".toList ++ decimal commitNum ++ " Response: ".toList ++
        strInt responseNum) errors)
  else .ok ()

/-- A value of a dictionary. -/
def required {α : Type} (value : Option α) : Except CommitError α :=
  match value with
  | some value => .ok value
  | none => .error .keyError

/-- `CommitResponse.__init__`. -/
def CommitResponse.init (response : Response) (documentsBatch : List Operation) :
    Except CommitError CommitResponse := do
  let content ←
    match response.content with
    | some content => .ok content
    | none => .error (.botoServer response.statusCode)
  let errors := if content.status = "error".toList then content.errors else []
  raiseErrors errors
  let adds ← required content.adds
  let deletes ← required content.deletes
  checkNumOps documentsBatch errors .add adds
  checkNumOps documentsBatch errors .delete deletes
  return ⟨content.status, errors, adds, deletes⟩

/-! ## The connection -/

/-- `DocumentServiceConnection`, with the SDF that was loaded from S3. -/
structure DocumentServiceConnection where
  documentsBatch : List Operation
  sdf : Option Bytes

namespace DocumentServiceConnection

/-- `__init__`. -/
def init : DocumentServiceConnection := ⟨[], none⟩

variable (connection : DocumentServiceConnection)

/-- `add`. -/
def add (id : Text) (fields : DocumentFields) : DocumentServiceConnection :=
  { connection with documentsBatch := connection.documentsBatch ++ [.add id fields] }

/-- `delete`. -/
def delete (id : Text) : DocumentServiceConnection :=
  { connection with documentsBatch := connection.documentsBatch ++ [.delete id] }

/-- `clear_sdf`. -/
def clearSdf (_ : DocumentServiceConnection) : DocumentServiceConnection :=
  { sdf := none, documentsBatch := [] }

/-- `add_sdf_from_s3`, with the content of the key. -/
def addSdfFromS3 (content : Bytes) : DocumentServiceConnection :=
  { connection with sdf := some content }

/-- `get_sdf`. -/
def getSdf : Data :=
  match connection.sdf.filter fun content => !content.isEmpty with
  | some content => .bytes content
  | none => .text (Json.dumps separators (.array (connection.documentsBatch.map Operation.toJson)))

/-- What a commit sends, and what comes of it. -/
structure Outcome where
  sent : Option Data
  result : Except CommitError CommitResponse

/-- `commit`.  It looks for a text in the SDF first, and Python 3 has no texts in bytes. -/
def commit (version : PyVersion) (respond : Data → Response) : Outcome :=
  let sdf := connection.getSdf
  match version, sdf with
  | .py3, .bytes _ => ⟨none, .error .typeError⟩
  | _, _ => ⟨some sdf, CommitResponse.init (respond sdf) connection.documentsBatch⟩

end DocumentServiceConnection

/-! ## What an SDF says -/

/-- The items of an SDF. -/
def sdfItems (sdf : Data) : Option (List Json) := do
  let text ←
    match sdf with
    | .text text => some text
    | .bytes content => (Auth.decodeUtf8 content).toOption
  match Json.parse text with
  | some (.array items) => some items
  | _ => none

/-- The type of an item. -/
def itemType (item : Json) : Option OperationType :=
  match item with
  | .object members =>
      match members.lookup ['t', 'y', 'p', 'e'] with
      | some (.string name) =>
          if name = OperationType.add.name then some .add
          else if name = OperationType.delete.name then some .delete
          else none
      | _ => none
  | _ => none

/-- The number of operations of a type. -/
def numOps (type : OperationType) (sdf : Data) : ℕ :=
  ((sdfItems sdf).getD []).countP fun item => itemType item = some type

/-- An SDF that is stored in S3: its items are additions and deletions. -/
structure StoredSdf where
  content : Bytes
  items : List Json
  read : sdfItems (.bytes content) = some items
  types : ∀ item ∈ items, (itemType item).isSome = true

/-! ## Runs -/

/-- A call. -/
inductive Action
  | add (id : Text) (fields : DocumentFields)
  | delete (id : Text)
  | clearSdf
  | addSdfFromS3 (sdf : StoredSdf)
  | commit

/-- The connection after a call. -/
def DocumentServiceConnection.step (connection : DocumentServiceConnection) :
    Action → DocumentServiceConnection
  | .add id fields => connection.add id fields
  | .delete id => connection.delete id
  | .clearSdf => connection.clearSdf
  | .addSdfFromS3 sdf => connection.addSdfFromS3 sdf.content
  | .commit => connection

/-- The connection after some calls. -/
def run (actions : List Action) : DocumentServiceConnection :=
  actions.foldl DocumentServiceConnection.step .init

/-! ## What a history asks for -/

namespace Action

/-- The operation that a call adds. -/
def operation? : Action → Option Operation
  | add id fields => some (.add id fields)
  | delete id => some (.delete id)
  | _ => none

/-- The SDF that a call loads. -/
def loaded? : Action → Option StoredSdf
  | addSdfFromS3 sdf => some sdf
  | _ => none

/-- Whether a call clears the connection. -/
def isClear : Action → Bool
  | clearSdf => true
  | _ => false

end Action

/-- The calls since the last clear. -/
def sinceClear (before : List Action) : List Action :=
  (before.reverse.takeWhile fun action => !action.isClear).reverse

/-- The documents that were added since the last clear, in order. -/
def addedSince (before : List Action) : List Operation :=
  (sinceClear before).filterMap Action.operation?

/-- The last SDF that was loaded since the last clear. -/
def loadedSince (before : List Action) : Option StoredSdf :=
  ((sinceClear before).filterMap Action.loaded?).getLast?

/-- What a commit is to send. -/
def askedSdf (before : List Action) : Data :=
  match loadedSince before with
  | some sdf => .bytes sdf.content
  | none => .text (Json.dumps separators (.array ((addedSince before).map Operation.toJson)))

/-- A service that reports numbers of additions and deletions. -/
def reports (statusCode : ℕ) (status : Text) (adds deletes : ℤ) (_ : Data) : Response :=
  ⟨statusCode, some ⟨status, [], some adds, some deletes⟩⟩

/-- Whether a commit fails with `CommitMismatchError`. -/
def DocumentServiceConnection.Outcome.isMismatch
    (outcome : DocumentServiceConnection.Outcome) : Bool :=
  match outcome.result with
  | .error e => e.isMismatch
  | .ok _ => false

/-- A commit after some calls sends what they ask for, and is checked against it. -/
structure IsChecked (version : PyVersion) (before : List Action) (statusCode : ℕ) (status : Text)
    (adds deletes : ℤ) : Prop where
  sent : ((run before).commit version (reports statusCode status adds deletes)).sent =
    some (askedSdf before)
  mismatch : ((run before).commit version (reports statusCode status adds deletes)).isMismatch =
      true ↔ adds ≠ numOps .add (askedSdf before) ∨ deletes ≠ numOps .delete (askedSdf before)
  applied : adds = numOps .add (askedSdf before) → deletes = numOps .delete (askedSdf before) →
    ((run before).commit version (reports statusCode status adds deletes)).result.isOk = true

/-- Every commit of a run is checked against what it sends, whatever numbers are reported. -/
def CommitsChecked (version : PyVersion) (actions : List Action) : Prop :=
  ∀ before after, actions = before ++ .commit :: after → ∀ statusCode status adds deletes,
    IsChecked version before statusCode status adds deletes

/-- A loaded SDF has as many additions and deletions as the documents that were added, and is
committed by Python 2. -/
def LoadedIsCounted (version : PyVersion) (before : List Action) : Prop :=
  ∀ sdf ∈ loadedSince before, version = .py2 ∧ ∀ type : OperationType,
    numOps type (.bytes sdf.content) = (addedSince before).countP fun d => d.type = type

end Boto.CloudSearch2
