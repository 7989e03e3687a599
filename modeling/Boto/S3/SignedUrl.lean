import Boto.Auth.CanonicalString
import Boto.Auth.QueryOrder
import Boto.S3.CallingFormat
import Boto.Support.LastEntries

/-!
# URLs signed in their query

`generate_url` of `boto/s3/connection.py`, for a connection whose handler is not of version 4.
The string that is signed is made from a path of its own and from the headers, and a service
makes it again from the URL.
-/

namespace Boto.S3

open Auth (HmacKeys Library canonicalQsa canonicalString qsaOfInterest strInt)
open OrderedDict (lastEntry ofEntries)
open PercentEncoding (unquote)

/-! ## Calls -/

/-- What a connection keeps.  Its path is `/`. -/
structure QueryConnection where
  callingFormat : CallingFormat
  host : Text
  port : ℕ
  isSecure : Bool
  anon : Bool
  suppressConsecSlashes : Bool
  keys : HmacKeys
  hostEnds : ∀ c ∈ host, Urls.endsNetloc c = false
  accessKeyPlain : ∀ c ∈ keys.provider.accessKey, c.isAlphanum = true
  tokenLine : ∀ token ∈ keys.provider.token?, '\n' ∉ token

/-- The arguments of `generate_url`.  Response headers are parameters that are signed, and
headers are lines of a request. -/
structure QueryCall where
  expiresIn : ℤ
  method : Text
  bucket : Text
  key : Text
  headers : OrderedDict Text Text
  queryAuth : Bool
  forceHttp : Bool
  responseHeaders : OrderedDict Text Text
  expiresInAbsolute : Bool
  versionId : Option Text
  responseNames : ∀ name ∈ responseHeaders.keys, name ∈ qsaOfInterest
  headerNames : ∀ name ∈ headers.keys, ':' ∉ name ∧ '=' ∉ name
  headerValues : ∀ item ∈ headers.items, '\n' ∉ item.2

/-- What a URL starts with. -/
def CallingFormat.urlStart (format : CallingFormat) (protocol : Text) : Text :=
  match format with
  | .protocolIndependentOrdinary => "//".toList
  | _ => protocol ++ "://".toList

/-- `build_url_base`, where `get_path` is that of the connection. -/
def CallingFormat.buildUrlBase (format : CallingFormat) (suppressConsecSlashes : Bool)
    (protocol server bucket key : Text) : Except BotoClientError Text := do
  let urlBase := format.urlStart protocol
  let host ← format.buildHost server bucket
  return urlBase ++ host ++ getPath ['/'] suppressConsecSlashes (format.buildPathBase bucket key)

namespace QueryCall

variable (now : ℤ) (call : QueryCall)

/-- `expires`, from the whole seconds of `time.time()`. -/
def expires : ℤ :=
  if call.expiresInAbsolute then call.expiresIn else now + call.expiresIn

/-- `extra_qp`, as far as it is signed. -/
def extraQp : List Text :=
  (call.versionId.toList.map fun versionId => "versionId=".toList ++ versionId) ++
    call.responseHeaders.items.map fun item => item.1 ++ '=' :: Auth.quote "/" item.2

end QueryCall

namespace QueryConnection

variable (library : Library) (now : ℤ) (connection : QueryConnection) (call : QueryCall)

/-- `server_name`. -/
def serverName (port : ℕ) : Text :=
  if port = 80 then connection.host else connection.host ++ ':' :: decimal port

/-- The headers with the token. -/
def headers : OrderedDict Text Text :=
  match connection.keys.provider.token? with
  | some token => call.headers.set "x-amz-security-token".toList token
  | none => call.headers

/-- `auth_path`. -/
def authPath : Text :=
  let authPath := getPath ['/'] connection.suppressConsecSlashes
    (CallingFormat.buildAuthPath call.bucket call.key)
  if call.extraQp = [] then authPath
  else
    let delimiter := if '?' ∈ authPath then '&' else '?'
    authPath ++ delimiter :: join '&' call.extraQp

/-- `c_string`. -/
def stringToSign : Text :=
  canonicalString call.method (connection.authPath call)
    ((connection.headers call).mapValues .text) (some (call.expires now))
    connection.keys.provider

/-- `b64_hmac`. -/
def signature : Text :=
  connection.keys.signString library .sha (connection.stringToSign now call)

/-- `query_part`, as far as it is for the signature. -/
def signedQuery : Text :=
  "?Signature=".toList ++ Auth.quote "" (connection.signature library now call) ++
    "&Expires=".toList ++ strInt (call.expires now) ++ "&AWSAccessKeyId=".toList ++
      connection.keys.provider.accessKey

/-- The headers that are included in the URL. -/
def headerQp : List Text :=
  ((connection.headers call).items.filter fun item =>
    connection.keys.provider.headerPrefix.isPrefixOf item.1).map fun item =>
      item.1 ++ '=' :: Auth.quote "/" item.2

/-- `query_part`. -/
def queryPart : Text :=
  let queryPart :=
    if call.queryAuth && !connection.anon then connection.signedQuery library now call else []
  let extraQp := call.extraQp ++ connection.headerQp call
  if extraQp = [] then queryPart
  else queryPart ++ (if queryPart = [] then '?' else '&') :: join '&' extraQp

/-- `generate_url`. -/
def generateUrl : Except BotoClientError Text := do
  let protocol :=
    if call.forceHttp || !connection.isSecure then "http".toList else "https".toList
  let port := if call.forceHttp then 80 else connection.port
  let urlBase ← connection.callingFormat.buildUrlBase connection.suppressConsecSlashes protocol
    (connection.serverName port) call.bucket call.key
  return urlBase ++ connection.queryPart library now call

end QueryConnection

/-! ## What a service reads -/

/-- What follows the host of a URL, without the fragment. -/
def urlTarget (url : Text) : Text :=
  let location := (url.dropWhile (· ≠ '/')).drop 2
  (location.dropWhile fun c => !Urls.endsNetloc c).takeWhile (· ≠ '#')

/-- The parameters of a query, whose values are not decoded. -/
def urlFields (query : Text) : List (Text × Option Text) :=
  (query.splitOn '&').map (Urls.cut '=')

/-- The decoded value of a parameter. -/
def fieldValue (field : Text × Option Text) : Text :=
  unquote (field.2.getD [])

/-- The decoded values of the parameters with a name. -/
def valuesOf (name : Text) (fields : List (Text × Option Text)) : List Text :=
  (fields.filter fun field => field.1 = name).map fieldValue

/-- Headers as they are signed: names in lower case, values without surrounding whitespace. -/
def signedEntries (headers : List (Text × Text)) : List (Text × Text) :=
  headers.map fun header => (lower header.1, stripText header.2)

/-- The value of a header that is sent with the request. -/
def sentValue (name : Text) (headers : OrderedDict Text Text) : Text :=
  (lastEntry name (signedEntries headers.items)).getD []

/-- The lines of headers with the prefix. -/
def headerLines (headers : OrderedDict Text Text) : Text :=
  (sorted headers.keys).flatMap fun name =>
    name ++ ':' :: (headers.get? name).getD [] ++ ['\n']

/-- The parameters with the prefix, as headers. -/
def prefixedFields (headerPrefix : Text) (fields : List (Text × Option Text)) :
    OrderedDict Text Text :=
  ofEntries ((signedEntries (fields.map fun field => (field.1, fieldValue field))).filter
    fun entry => headerPrefix.isPrefixOf entry.1)

namespace QueryConnection

variable (library : Library) (now : ℤ) (connection : QueryConnection) (call : QueryCall)

/-- The resource of a path, where the bucket may be in the host. -/
def servedResource (path : Text) : Text :=
  if connection.callingFormat.isOrdinary || call.bucket.isEmpty then path
  else '/' :: call.bucket ++ path

/-- The string to sign that a service makes of what follows the host. -/
def servedString (target date : Text) : Text :=
  let query := Auth.sentQuery target
  call.method ++ '\n' :: sentValue "content-md5".toList (connection.headers call) ++
    '\n' :: sentValue "content-type".toList (connection.headers call) ++ '\n' :: date ++ '\n' ::
      headerLines (prefixedFields connection.keys.provider.headerPrefix (urlFields query)) ++
        connection.servedResource call (target.takeWhile (· ≠ '?')) ++ canonicalQsa query

/-- A URL verifies: it has one date and one signature, and what the service makes of it is what
was signed. -/
def Verifies : Prop :=
  ∃ url date, connection.generateUrl library now call = .ok url ∧
    valuesOf "Expires".toList (urlFields (Auth.sentQuery (urlTarget url))) = [date] ∧
    valuesOf "Signature".toList (urlFields (Auth.sentQuery (urlTarget url))) =
      [connection.signature library now call] ∧
    connection.servedString call (urlTarget url) date = connection.stringToSign now call

end QueryConnection

/-! ## The condition -/

/-- What is put into a URL as it is has none of its marks. -/
structure QueryCall.IsPlain (format : CallingFormat) (call : QueryCall) : Prop where
  bucket : '?' ∉ call.bucket ∧ '#' ∉ call.bucket
  hostBucket : format.isOrdinary = false → '/' ∉ call.bucket
  version : ∀ version ∈ call.versionId, '&' ∉ version ∧ '?' ∉ version ∧ '#' ∉ version
  headerNames : ∀ name ∈ call.headers.keys, '&' ∉ name ∧ '#' ∉ name

/-- The headers of a call are signed as they are included in the URL. -/
structure QueryConnection.Includes (now : ℤ) (connection : QueryConnection)
    (call : QueryCall) : Prop where
  bucket : connection.callingFormat.takes call.bucket = true
  date : call.expires now = 0 →
    let entries := signedEntries (connection.headers call).items
    lastEntry "date".toList entries = some ['0'] ∧
      lastEntry connection.keys.provider.dateHeader entries = none
  headers : ∀ name, connection.keys.provider.headerPrefix <+: name →
    lastEntry name (signedEntries (connection.headers call).items) =
      lastEntry name (signedEntries ((connection.headers call).items.filter fun item =>
        connection.keys.provider.headerPrefix.isPrefixOf item.1))

end Boto.S3
