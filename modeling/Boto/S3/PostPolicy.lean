import Boto.S3.CallingFormat
import Boto.Support.Base64
import Boto.Support.Json

/-!
# Forms that upload to S3

`build_post_form_args` of `boto/s3/connection.py` makes the fields of a form and a policy
document, which is put together from text.  The service reads the document as JSON, and takes a
form if its fields agree with the conditions.
-/

namespace Boto.S3

/-- What a call can fail with. -/
inductive FormError
  | python (error : PyError)
  | botoClient (error : BotoClientError)
  deriving DecidableEq

/-! ## Times and encoded documents -/

/-- The fields of a `time.struct_time` that are formatted. -/
structure StructTime where
  year : ℕ
  month : ℕ
  day : ℕ
  hour : ℕ
  minute : ℕ
  second : ℕ

/-- A number of at least two digits. -/
def twoDigits (n : ℕ) : Text :=
  if n < 10 then '0' :: decimal n else decimal n

/-- `time.strftime(boto.utils.ISO8601, t)`. -/
def StructTime.iso8601 (t : StructTime) : Text :=
  decimal t.year ++ '-' :: (twoDigits t.month ++ '-' :: (twoDigits t.day ++ 'T' ::
    (twoDigits t.hour ++ ':' :: (twoDigits t.minute ++ ':' :: (twoDigits t.second ++ ['Z'])))))

/-- What texts are: the two types of Python 2, the first with UTF-8 in it, and that of
Python 3. -/
inductive TextType
  | str2
  | unicode2
  | str3
  deriving DecidableEq

/-- Whether a character has one byte. -/
def isAscii (c : Char) : Bool := decide (c.toNat < 128)

/-- `base64.b64encode`, for each of the types. -/
def b64encode (type : TextType) (text : Text) : Except PyError Text :=
  match type with
  | .str2 => .ok (Base64.encode (encodeUtf8 text))
  | .unicode2 =>
      if text.all isAscii then .ok (Base64.encode (encodeUtf8 text))
      else .error (.valueError "ordinal not in range(128)")
  | .str3 => .error (.typeError "expected bytes, not str")

/-! ## The form -/

/-- A field of a form. -/
structure FormField where
  name : Text
  value : Text
  deriving DecidableEq

/-- What a call returns. -/
structure PostForm where
  action : Text
  fields : List FormField

/-- What a connection keeps. -/
structure PostConnection where
  callingFormat : CallingFormat
  serverName : Text
  /-- `time.gmtime`. -/
  gmtime : ℤ → StructTime
  /-- `sign_string` of the handler. -/
  signString : Text → Text

/-- A call: its arguments, with `[]` for texts that are not given, and what the clock and the
provider say at its time. -/
structure PostCall where
  type : TextType
  bucketName : Text
  key : Text
  expiresIn : ℤ := 6000
  acl : Text := []
  successActionRedirect : Text := []
  maxContentLength : Option ℤ := none
  httpMethod : Text := "http".toList
  storageClass : Text := "STANDARD".toList
  serverSideEncryption : Text := []
  time : ℤ
  awsAccessKeyId : Text
  securityToken : Text

/-- `'{"name": "%s"}' % value`. -/
def equalsText (name : String) (value : Text) : Text :=
  "\x7b\"".toList ++ name.toList ++ "\": \"".toList ++ value ++ "\"\x7d".toList

/-- What the key of an upload ends with if the name of the file is put there. -/
def filename : Text := "$\x7bfilename\x7d".toList

/-- The condition for the key. -/
def keyText (key : Text) : Text :=
  if filename.isSuffixOf key then
    "[\"starts-with\", \"$key\", \"".toList ++ key.take (key.length - filename.length) ++
      "\"]".toList
  else equalsText "key" key

/-- An entry of a list for a text that is given. -/
def whenGiven {α : Type} (value : Text) (entry : α) : List α :=
  if value = [] then [] else [entry]

namespace PostCall

/-- The texts that `build_post_form_args` appends to the conditions. -/
def conditionTexts (call : PostCall) : List Text :=
  equalsText "bucket" call.bucketName :: keyText call.key ::
    (whenGiven call.acl (equalsText "acl" call.acl) ++
    whenGiven call.successActionRedirect
      (equalsText "success_action_redirect" call.successActionRedirect) ++
    (match call.maxContentLength with
      | none => []
      | some n =>
          if n = 0 then []
          else ["[\"content-length-range\", 0, ".toList ++ Auth.strInt n ++ "]".toList]) ++
    whenGiven call.securityToken (equalsText "x-amz-security-token" call.securityToken) ++
    whenGiven call.storageClass (equalsText "x-amz-storage-class" call.storageClass) ++
    whenGiven call.serverSideEncryption
      (equalsText "x-amz-server-side-encryption" call.serverSideEncryption))

/-- The fields that `build_post_form_args` appends for the arguments that are constrained. -/
def argumentFields (call : PostCall) : List FormField :=
  whenGiven call.acl ⟨"acl".toList, call.acl⟩ ++
    whenGiven call.successActionRedirect
      ⟨"success_action_redirect".toList, call.successActionRedirect⟩ ++
    whenGiven call.securityToken ⟨"x-amz-security-token".toList, call.securityToken⟩ ++
    whenGiven call.storageClass ⟨"x-amz-storage-class".toList, call.storageClass⟩ ++
    whenGiven call.serverSideEncryption
      ⟨"x-amz-server-side-encryption".toList, call.serverSideEncryption⟩

end PostCall

/-- `build_post_policy`. -/
def buildPostPolicy (expirationTime : StructTime) (conditions : List Text) : Text :=
  "\x7b\"expiration\": \"".toList ++ expirationTime.iso8601 ++ "\",\n\"conditions\": [".toList ++
    join ',' conditions ++ "]\x7d".toList

namespace PostConnection

variable (connection : PostConnection)

/-- The document that a call makes, with conditions that it is given. -/
def policyOf (call : PostCall) (conditions : List Text) : Text :=
  buildPostPolicy (connection.gmtime (call.time + call.expiresIn))
    (conditions ++ call.conditionTexts)

/-- `build_post_form_args`, with the lists that it extends. -/
def buildPostFormArgs (call : PostCall) (fields : List FormField) (conditions : List Text) :
    Except FormError PostForm := do
  let policy ← (b64encode call.type (connection.policyOf call conditions)).mapError .python
  let fields := fields ++ call.argumentFields ++
    [⟨"policy".toList, policy⟩, ⟨"AWSAccessKeyId".toList, call.awsAccessKeyId⟩,
      ⟨"signature".toList, connection.signString policy⟩, ⟨"key".toList, call.key⟩]
  let host ← (connection.callingFormat.buildHost connection.serverName
    call.bucketName).mapError .botoClient
  return ⟨call.httpMethod ++ "://".toList ++ host ++ ['/'], fields⟩

/-- The outcomes of calls that are made in turn, each with new lists. -/
def forms (calls : List PostCall) : List (Except FormError PostForm) :=
  calls.map fun call => connection.buildPostFormArgs call [] []

end PostConnection

/-! ## What the service reads -/

/-- A condition of a policy. -/
inductive Condition
  | equals (name value : Text)
  | startsWith (name start : Text)
  | contentLengthRange (low high : ℤ)
  deriving DecidableEq

/-- The name behind a `$`. -/
def variableName : Text → Option Text
  | '$' :: name => some name
  | _ => none

/-- The number that a JSON number stands for. -/
def integer (text : Text) : Option ℤ := (parseInt text).toOption

/-- The condition that an item of the list in a policy stands for. -/
def readCondition : Json → Option Condition
  | .object [(name, .string value)] => some (.equals name value)
  | .array [.string operator, .string name, .string value] =>
      if operator = "eq".toList then (variableName name).map fun name => .equals name value
      else if operator = "starts-with".toList then
        (variableName name).map fun name => .startsWith name value
      else none
  | .array [.string operator, .number low, .number high] =>
      if operator = "content-length-range".toList then do
        return .contentLengthRange (← integer low) (← integer high)
      else none
  | _ => none

/-- The expiration and the conditions of a policy document. -/
def readPolicy (document : Text) : Option (Text × List Condition) :=
  match Json.parse document with
  | some (.object [(name, .string expiration), (name', .array items)]) =>
      if name = "expiration".toList ∧ name' = "conditions".toList then
        (items.mapM readCondition).map fun conditions => (expiration, conditions)
      else none
  | _ => none

namespace Condition

/-- A field is one that a condition is about, and agrees with it. -/
def Admits (field : FormField) : Condition → Prop
  | equals name value => field.name = name ∧ field.value = value
  | startsWith name start => field.name = name ∧ start <+: field.value
  | contentLengthRange _ _ => False

/-- The field of the form that a condition is about. -/
def fieldName : Condition → Option Text
  | equals name _ => if name = "bucket".toList then none else some name
  | startsWith name _ => some name
  | contentLengthRange _ _ => none

end Condition

/-- The conditions that the arguments of a call ask for. -/
def PostCall.constraints (call : PostCall) : List Condition :=
  .equals "bucket".toList call.bucketName ::
    (if filename.isSuffixOf call.key then
      .startsWith "key".toList (call.key.take (call.key.length - filename.length))
    else .equals "key".toList call.key) ::
    (whenGiven call.acl (.equals "acl".toList call.acl) ++
    whenGiven call.successActionRedirect
      (.equals "success_action_redirect".toList call.successActionRedirect) ++
    (call.maxContentLength.map (.contentLengthRange 0)).toList ++
    whenGiven call.securityToken
      (.equals "x-amz-security-token".toList call.securityToken) ++
    whenGiven call.storageClass (.equals "x-amz-storage-class".toList call.storageClass) ++
    whenGiven call.serverSideEncryption
      (.equals "x-amz-server-side-encryption".toList call.serverSideEncryption))

/-- The fields that no condition has to cover. -/
def uncovered : List Text := ["policy".toList, "AWSAccessKeyId".toList, "signature".toList]

/-- A form has a policy that reads as the conditions that are asked for, and that covers its
fields and nothing else. -/
structure PostForm.Matches (form : PostForm) (expiration : Text) (constraints : List Condition) :
    Prop where
  policy : ∃ policy document conditions, ⟨"policy".toList, policy⟩ ∈ form.fields ∧
    Base64.decode policy = some (encodeUtf8 document) ∧
    readPolicy document = some (expiration, conditions) ∧ conditions.Perm constraints
  covered : ∀ field ∈ form.fields, field.name ∉ uncovered →
    ∃ condition ∈ constraints, condition.Admits field
  present : ∀ condition ∈ constraints, ∀ name ∈ condition.fieldName,
    name ∈ form.fields.map FormField.name

/-- A call returns a form whose policy accepts exactly it. -/
def PostConnection.Accepts (connection : PostConnection) (call : PostCall)
    (outcome : Except FormError PostForm) : Prop :=
  ∃ form, outcome = .ok form ∧
    form.Matches (connection.gmtime (call.time + call.expiresIn)).iso8601 call.constraints

namespace PostCall

/-- The texts that the arguments of a call constrain fields to. -/
def constrainedTexts (call : PostCall) : List Text :=
  [call.bucketName, call.key, call.acl, call.successActionRedirect, call.securityToken,
    call.storageClass, call.serverSideEncryption]

/-- The texts of a call can be encoded. -/
def Encodes (call : PostCall) : Prop :=
  call.type = .str2 ∨
    call.type = .unicode2 ∧ ∀ text ∈ call.constrainedTexts, text.all isAscii = true

/-- A call is written into its form: its texts can be encoded and have nothing that ends a string
or starts an escape, its limit is not zero, and the bucket has a host. -/
def Conveyed (call : PostCall) (format : CallingFormat) : Prop :=
  call.Encodes ∧ (∀ text ∈ call.constrainedTexts, Json.isPlain text = true) ∧
    call.maxContentLength ≠ some 0 ∧ format.takes call.bucketName = true

end PostCall

end Boto.S3
