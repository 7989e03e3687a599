import Boto.Auth.Request
import Boto.Support.Base64
import Boto.Support.Urls

/-!
# Signatures of headers

`canonical_string` of `boto/utils.py`, and the handlers of `boto/auth.py` that sign
the headers of a request without version 4: `HmacAuthV1Handler`, `HmacAuthV2Handler` and
`HmacAuthV3Handler`.
-/

namespace Boto.Auth

/-! ## Providers and their keys -/

/-- The providers that `Provider` has tables for. -/
inductive ProviderName
  | aws
  | google
  deriving DecidableEq

/-- `Provider.__init__`, where all keys are given. -/
def Provider.init (name : ProviderName) (accessKey secretKey : Text)
    (securityToken : Option Text) : Provider :=
  let headerPrefix :=
    match name with
    | .aws => "x-amz-".toList
    | .google => "x-goog-".toList
  { accessKey := accessKey
    secretKey := secretKey
    securityToken := securityToken
    securityTokenHeader := headerPrefix ++ "security-token".toList
    authHeader :=
      match name with
      | .aws => "AWS".toList
      | .google => "GOOG1".toList
    headerPrefix := headerPrefix
    dateHeader := headerPrefix ++ "date".toList }

/-- `HmacKeys`: the headers of a provider are those of its name. -/
structure HmacKeys where
  provider : Provider
  configured : ∃ name, provider =
    .init name provider.accessKey provider.secretKey provider.securityToken

/-- The digests of `_get_hmac`. -/
inductive DigestMod
  | sha
  | sha256
  deriving DecidableEq

namespace HmacKeys

variable (library : Library) (clock : Clock) (keys : HmacKeys) (digestmod : DigestMod)

/-- `algorithm`. -/
def algorithm : Text :=
  match digestmod with
  | .sha => "HmacSHA1".toList
  | .sha256 => "HmacSHA256".toList

/-- The digest that `_get_hmac` makes of a message. -/
def hmac (message : Bytes) : Bytes :=
  let key := encodeUtf8 keys.provider.secretKey
  match digestmod with
  | .sha => (library.hmacSha1 key message).1
  | .sha256 => (library.hmacSha256 key message).1

/-- `sign_string`.  The line that `encodebytes` makes of a digest is never broken. -/
def signString (stringToSign : Text) : Text :=
  Base64.encode (hmac library keys digestmod (encodeUtf8 stringToSign))

end HmacKeys

/-! ## The canonical string -/

/-- `qsa_of_interest`. -/
def qsaOfInterest : List Text :=
  ["acl".toList, "cors".toList, "defaultObjectAcl".toList, "location".toList,
    "logging".toList, "partNumber".toList, "policy".toList, "requestPayment".toList,
    "torrent".toList, "versioning".toList, "versionId".toList, "versions".toList,
    "website".toList, "uploads".toList, "uploadId".toList, "response-content-type".toList,
    "response-content-language".toList, "response-expires".toList,
    "response-cache-control".toList, "response-content-disposition".toList,
    "response-content-encoding".toList, "delete".toList, "lifecycle".toList,
    "tagging".toList, "restore".toList, "storageClass".toList, "websiteConfig".toList,
    "compose".toList, "billing".toList, "userProject".toList, "encryptionConfig".toList]

/-- `interesting_headers`, as far as they come from the headers of the request. -/
def interestingHeaders (provider : Provider) (headers : OrderedDict Text Data) :
    OrderedDict Text Text :=
  headers.items.foldl (fun interesting header =>
    let lk := lower header.1
    if lk ∈ ["content-md5".toList, "content-type".toList, "date".toList] ∨
        provider.headerPrefix.isPrefixOf lk then
      interesting.set lk (stripText (strData header.2))
    else interesting) OrderedDict.empty

/-- `interesting_headers`. -/
def signedHeaderValues (headers : OrderedDict Text Data) (expires : Option ℤ)
    (provider : Provider) : OrderedDict Text Text :=
  let interesting := interestingHeaders provider headers
  let interesting :=
    if interesting.contains "content-type".toList then interesting
    else interesting.set "content-type".toList []
  let interesting :=
    if interesting.contains "content-md5".toList then interesting
    else interesting.set "content-md5".toList []
  let interesting :=
    if interesting.contains provider.dateHeader then interesting.set "date".toList []
    else interesting
  match expires with
  | some expires =>
      if expires ≠ 0 then interesting.set "date".toList (strInt expires) else interesting
  | none => interesting

/-- The part of the query of a path that is signed. -/
def canonicalQsa (query : Text) : Text :=
  let qsa := (query.splitOn '&').map (Urls.cut '=')
  let qsa := qsa.filter fun nv => decide (nv.1 ∈ qsaOfInterest)
  let qsa := qsa.map fun nv => (nv.1, nv.2.map PercentEncoding.unquote)
  if qsa = [] then []
  else '?' :: join '&' ((sortedBy Prod.fst qsa).map fun nv =>
    match nv.2 with
    | some value => nv.1 ++ '=' :: value
    | none => nv.1)

/-- `canonical_string`. -/
def canonicalString (method path : Text) (headers : OrderedDict Text Data)
    (expires : Option ℤ) (provider : Provider) : Text :=
  let interesting := signedHeaderValues headers expires provider
  let lines := (sorted interesting.keys).flatMap fun key =>
    let val := (interesting.get? key).getD []
    if provider.headerPrefix.isPrefixOf key then key ++ ':' :: val ++ ['\n']
    else val ++ ['\n']
  -- What comes after a second question mark is left out.
  let resource :=
    match path.splitOn '?' with
    | path :: query :: _ => path ++ canonicalQsa query
    | path => path.headD []
  method ++ '\n' :: lines ++ resource

/-! ## Handlers -/

section

variable (library : Library) (clock : Clock) (keys : HmacKeys) (req : HTTPRequest)

/-- The headers with a date and the token of the provider. -/
def datedHeaders (headers : OrderedDict Text Data) : OrderedDict Text Data :=
  let headers :=
    if headers.contains "Date".toList then headers
    else headers.set "Date".toList (.text clock.httpDate)
  match keys.provider.token? with
  | some token => headers.set keys.provider.securityTokenHeader (.text token)
  | none => headers

/-- Adds a header, whose value is made from those that there are. -/
def signHeaders (name : Text) (value : OrderedDict Text Data → Except AuthError Text) :
    Except AuthError HTTPRequest := do
  let headers := datedHeaders clock keys req.headers
  let auth ← value headers
  return { req with headers := headers.set name (.text auth) }

/-- `headers['Date']`, which is signed as text. -/
def dateToSign (headers : OrderedDict Text Data) : Except AuthError Text :=
  match headers.get? "Date".toList with
  | some (.text date) => .ok date
  | some (.bytes _) => .error .attributeError
  | none => .error .keyError

/-- The value of an `Authorization` header. -/
def authorization (b64Hmac : Text) : Text :=
  keys.provider.authHeader ++ ' ' :: keys.provider.accessKey ++ ':' :: b64Hmac

/-- `HmacAuthV1Handler.add_auth`. -/
def HmacAuthV1Handler.addAuth : Except AuthError HTTPRequest :=
  signHeaders clock keys req "Authorization".toList fun headers => do
    let stringToSign := canonicalString req.method req.authPath headers none keys.provider
    return authorization keys (keys.signString library .sha stringToSign)

/-- `HmacAuthV2Handler.add_auth`. -/
def HmacAuthV2Handler.addAuth : Except AuthError HTTPRequest :=
  signHeaders clock keys req "Authorization".toList fun headers => do
    let date ← dateToSign headers
    return authorization keys (keys.signString library .sha date)

/-- `HmacAuthV3Handler.add_auth`. -/
def HmacAuthV3Handler.addAuth : Except AuthError HTTPRequest :=
  signHeaders clock keys req "X-Amzn-Authorization".toList fun headers => do
    let date ← dateToSign headers
    return "AWS3-HTTPS AWSAccessKeyId=".toList ++ keys.provider.accessKey ++
      ",Algorithm=".toList ++ HmacKeys.algorithm .sha256 ++ ",Signature=".toList ++
        keys.signString library .sha256 date

end

end Boto.Auth
