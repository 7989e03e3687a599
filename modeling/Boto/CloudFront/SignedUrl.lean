import Boto.Auth.Request
import Boto.Support.Base64
import Boto.Support.JsonDumps
import Boto.Support.Urls

/-!
# Signed URLs of CloudFront

`create_signed_url` of `boto/cloudfront/distribution.py` with its two makers of policies: one
pastes its arguments into text, the other one writes JSON.  Dictionaries iterate in the order of
insertion.
-/

namespace Boto.CloudFront

open Auth (strInt)

/-! ## Calls -/

/-- The arguments of `create_signed_url`, with the content of the file of the private key.  One
of the keys is given, and a key pair has an identifier of letters and digits. -/
structure SigningCall where
  url : Text
  keypairId : Text
  expireTime : Option ℤ
  validAfterTime : Option ℤ
  ipAddress : Option Text
  policyUrl : Option Text
  privateKeyFile : Option Text
  privateKeyString : Option Text
  keypairPlain : ∀ c ∈ keypairId, c.isAlphanum = true
  oneKey : (privateKeyFile.isSome = true ∧ privateKeyString = none) ∨
    (privateKeyFile = none ∧ ∃ key, key ≠ [] ∧ privateKeyString = some key)

/-- What signing can fail with. -/
inductive SigningError
  | valueError (message : String)
  | typeError
  | unicodeEncodeError
  deriving DecidableEq

/-- The truth value of a number or `None`. -/
def numberGiven (value : Option ℤ) : Bool :=
  value.any fun value => decide (value ≠ 0)

/-- The truth value of a text or `None`. -/
def textGiven (value : Option Text) : Bool :=
  value.any fun value => !value.isEmpty

/-! ## Policies -/

/-- `_canned_policy`. -/
def cannedPolicy (resource : Text) (expires : ℤ) : Text :=
  "\x7b\"Statement\":[\x7b\"Resource\":\"".toList ++ resource ++
    "\",\"Condition\":\x7b\"DateLessThan\":\x7b\"AWS:EpochTime\":".toList ++ strInt expires ++
      "\x7d\x7d\x7d]\x7d".toList

/-- A condition on the time. -/
def epochTime (value : ℤ) : Json :=
  .object [("AWS:EpochTime".toList, .number (strInt value))]

/-- A condition on the address. -/
def sourceIp (address : Text) : Json :=
  .object [("AWS:SourceIp".toList, .string address)]

/-- A policy with one statement. -/
def policyJson (resource : Text) (dateLessThan : ℤ) (dateGreaterThan : Option ℤ)
    (ipAddress : Option Text) : Json :=
  let condition := ("DateLessThan".toList, epochTime dateLessThan) ::
    (dateGreaterThan.toList.map fun value => ("DateGreaterThan".toList, epochTime value)) ++
      ipAddress.toList.map fun address => ("IpAddress".toList, sourceIp address)
  .object [("Statement".toList, .array [.object [("Resource".toList, .string resource),
    ("Condition".toList, .object condition)]])]

/-- The address with the length of its prefix. -/
def withLength (address : Text) : Text :=
  if '/' ∈ address then address else address ++ "/32".toList

/-- `separators=(",", ":")`. -/
def compact : Json.Separators := ⟨[], []⟩

/-- `_custom_policy`. -/
def customPolicy (now : ℤ) (resource : Text) (expires validAfter : Option ℤ)
    (ipAddress : Option Text) : Text :=
  let expires := if numberGiven expires then expires.getD 0 else now + 86400
  Json.dumps compact (policyJson resource expires (validAfter.filter fun value => value ≠ 0)
    ((ipAddress.filter fun address => !address.isEmpty).map withLength))

/-! ## Signatures -/

/-- `str(message)`, for `rsa`, which takes bytes. -/
def messageBytes (version : PyVersion) (message : Text) : Except SigningError Bytes :=
  match version with
  | .py3 => .error .typeError
  | .py2 =>
      if message.all fun c => decide (c.val ≤ 127) then .ok (encodeUtf8 message)
      else .error .unicodeEncodeError

/-- `_sign_string`. -/
def signString (version : PyVersion) (rsa : Text → Bytes → Bytes) (message : Text)
    (privateKeyFile privateKeyString : Option Text) : Except SigningError Bytes := do
  if privateKeyFile.isSome && textGiven privateKeyString then
    throw (.valueError "Only specify the private_key_file or the private_key_string not both")
  if !privateKeyFile.isSome && !textGiven privateKeyString then
    throw (.valueError "You must specify one of private_key_file or private_key_string")
  let key := privateKeyString.getD (privateKeyFile.getD [])
  let message ← messageBytes version message
  return rsa key message

/-- `replace`, for single characters. -/
def replace (old new : Char) (text : Text) : Text :=
  text.map fun c => if c = old then new else c

/-- `_url_base64_encode`.  What `b64encode` returns under Python 3 has no `replace` for text. -/
def urlBase64Encode (version : PyVersion) (msg : Bytes) : Except SigningError Text :=
  match version with
  | .py3 => .error .typeError
  | .py2 => .ok (replace '/' '~' (replace '=' '_' (replace '+' '-' (Base64.encode msg))))

namespace SigningCall

variable (version : PyVersion) (rsa : Text → Bytes → Bytes) (now : ℤ) (call : SigningCall)

/-- Whether a canned policy can be used. -/
def isCanned : Bool :=
  numberGiven call.expireTime && !numberGiven call.validAfterTime &&
    !textGiven call.ipAddress && !textGiven call.policyUrl

/-- The policy that is signed. -/
def policy : Text :=
  if call.isCanned then cannedPolicy call.url (call.expireTime.getD 0)
  else customPolicy now (call.policyUrl.getD call.url) call.expireTime call.validAfterTime
    call.ipAddress

/-- `_create_signing_params`. -/
def createSigningParams : Except SigningError (OrderedDict Text Text) := do
  let policy := call.policy now
  let params ←
    if call.isCanned then
      .ok (OrderedDict.empty.set "Expires".toList (strInt (call.expireTime.getD 0)))
    else
      (urlBase64Encode version (encodeUtf8 policy)).map fun encodedPolicy =>
        OrderedDict.empty.set "Policy".toList encodedPolicy
  let signature ← signString version rsa policy call.privateKeyFile call.privateKeyString
  let encodedSignature ← urlBase64Encode version signature
  return (params.set "Signature".toList encodedSignature).set "Key-Pair-Id".toList call.keypairId

/-- `create_signed_url`. -/
def createSignedUrl : Except SigningError Text := do
  let params ← call.createSigningParams version rsa now
  let sep := if '?' ∈ call.url then '&' else '?'
  let keys := ["Expires".toList, "Policy".toList, "Signature".toList, "Key-Pair-Id".toList]
  let signedUrlParams := keys.filterMap fun key =>
    (params.get? key).map fun value => key ++ '=' :: value
  return call.url ++ sep :: join '&' signedUrlParams

end SigningCall

/-! ## What a URL grants -/

/-- The fields of the query of a URL. -/
def urlFields (url : Text) : List Text :=
  match (Urls.cut '?' (url.takeWhile (· ≠ '#'))).2 with
  | some query => query.splitOn '&'
  | none => []

/-- Undoes `_url_base64_encode`. -/
def urlBase64Decode (text : Text) : Option Bytes :=
  Base64.decode (replace '-' '+' (replace '_' '=' (replace '~' '/' text)))

/-- The field that tells the policy: the time of expiry, or the whole policy. -/
def TellsPolicy (now : ℤ) (call : SigningCall) (field : Text) : Prop :=
  if call.isCanned then field = "Expires=".toList ++ strInt (call.expireTime.getD 0)
  else ∃ encoded, field = "Policy=".toList ++ encoded ∧
    urlBase64Decode encoded = some (encodeUtf8 (call.policy now))

/-- What is asked for.  An empty text is no URL and no address, so that it is not given. -/
def SigningCall.asked (now : ℤ) (call : SigningCall) : Json :=
  policyJson ((call.policyUrl.filter fun url => !url.isEmpty).getD call.url)
    (call.expireTime.getD (now + 86400)) call.validAfterTime
      ((call.ipAddress.filter fun address => !address.isEmpty).map withLength)

/-- A signed URL grants what is asked for: its policy says so, and its query is that of the URL
with the policy, the signature and the key. -/
def Grants (version : PyVersion) (rsa : Text → Bytes → Bytes) (now : ℤ)
    (call : SigningCall) : Prop :=
  Json.parse (call.policy now) = some (call.asked now) ∧
    ∃ signedUrl field signature encoded,
      call.createSignedUrl version rsa now = .ok signedUrl ∧
      urlFields signedUrl = urlFields call.url ++
        [field, "Signature=".toList ++ encoded, "Key-Pair-Id=".toList ++ call.keypairId] ∧
      TellsPolicy now call field ∧
      signString version rsa (call.policy now) call.privateKeyFile call.privateKeyString =
        .ok signature ∧
      urlBase64Decode encoded = some signature

/-! ## The condition -/

/-- The times are not `0`, an empty URL is not put into a policy, and a URL that is pasted into one
is plain. -/
structure SigningCall.IsPlain (version : PyVersion) (now : ℤ) (call : SigningCall) : Prop where
  version : version = .py2
  fragment : '#' ∉ call.url
  expireTime : call.expireTime = some 0 → now + 86400 = 0
  validAfterTime : call.validAfterTime ≠ some 0
  policyUrl : call.policyUrl = some [] → call.isCanned = true ∨ call.url = []
  canned : call.isCanned = true → Json.isPlain call.url = true ∧ ∀ c ∈ call.url, c.val ≤ 127

end Boto.CloudFront
