import Boto.Auth.Request

/-!
# Signature version 4

`HmacAuthV4Handler` of `boto/auth.py`.  The methods that its subclass for S3 overrides are
collected in a structure, so that those which call them are written once.
-/

namespace Boto.Auth

/-- `HmacAuthV4Handler`. -/
structure HmacAuthV4Handler where
  host : Text
  provider : Provider
  serviceName : Option Text
  regionName : Option Text

/-- The methods that a subclass overrides. -/
structure V4Methods where
  headersToSign : HmacAuthV4Handler → HTTPRequest → Except AuthError (OrderedDict Text Data)
  canonicalQueryString : Library → HTTPRequest → Except AuthError Text
  canonicalUri : HTTPRequest → Except AuthError Text
  payload : Library → HTTPRequest → Except AuthError Text
  determineRegionName : HmacAuthV4Handler → Text → Except AuthError Text
  determineServiceName : HmacAuthV4Handler → Text → Text

namespace HmacAuthV4Handler

variable (library : Library) (clock : Clock) (methods : V4Methods)
variable (self : HmacAuthV4Handler) (req : HTTPRequest)

/-! ## Headers -/

/-- `host_header`. -/
def hostHeader (host : Text) (req : HTTPRequest) : Text :=
  let secure := req.protocol = "https".toList
  if req.port = 80 ∧ ¬secure ∨ req.port = 443 ∧ secure then host
  else host ++ ':' :: decimal req.port

/-- `headers_to_sign`. -/
def headersToSign : Except AuthError (OrderedDict Text Data) :=
  let hostHeaderValue : Data :=
    match req.headers.get? "Host".toList with
    | some value => if value.length = 0 then .text (hostHeader self.host req) else value
    | none => .text (hostHeader self.host req)
  req.headers.items.foldlM (fun headersToSign item =>
    if "x-amz".toList.isPrefixOf (lower item.1) then
      match item.2 with
      | .bytes value => do return headersToSign.set item.1 (.text (← decodeUtf8 value))
      | .text value => .ok (headersToSign.set item.1 (.text value))
    else .ok headersToSign) (OrderedDict.empty.set "Host".toList hostHeaderValue)

/-- The name of a header, as it is signed. -/
def canonicalName (header : Text) : Text :=
  stripText (lower header)

/-- The value of a header, as it is signed. -/
def canonicalValue (value : Data) : Text :=
  let rawValue := strData value
  if rawValue.contains '"' then stripText rawValue
  else join ' ' (words (stripText rawValue))

/-- `canonical_headers`. -/
def canonicalHeaders (headersToSign : OrderedDict Text Data) : Text :=
  join '\n' (sorted (headersToSign.items.map fun header =>
    canonicalName header.1 ++ ':' :: canonicalValue header.2))

/-- `signed_headers`. -/
def signedHeaders (headersToSign : OrderedDict Text Data) : Text :=
  join ';' (sorted (headersToSign.keys.map canonicalName))

/-! ## The query -/

/-- A list of pairs as a query, where the first function quotes the names and the second
one the values. -/
def queryPairs (quoteName quoteValue : Text → Text) (names : List Text)
    (params : OrderedDict Text ParamValue) : Except AuthError Text := do
  let pairs ← names.mapM fun name => do
    let value ← getUtf8ableStr library ((params.get? name).getD (.text []))
    return quoteName name ++ '=' :: quoteValue value
  return join '&' pairs

/-- `query_string`. -/
def queryString : Except AuthError Text :=
  queryPairs library (quote "") (quote "-_~") (sorted req.params.keys) req.params

/-- `canonical_query_string`. -/
def canonicalQueryString : Except AuthError Text :=
  if req.method = "POST".toList then .ok []
  else queryPairs library (quote "-_.~") (quote "-_.~") (sorted req.params.keys) req.params

/-! ## The path and the body -/

/-- The segments that `posixpath.normpath` keeps, the last one first. -/
def normSegments (initialSlashes : ℕ) : List Text → List Text → List Text
  | kept, [] => kept
  | kept, segment :: segments =>
      if segment = [] ∨ segment = ['.'] then normSegments initialSlashes kept segments
      else if segment ≠ ['.', '.'] ∨ initialSlashes = 0 ∧ kept = [] ∨
          kept.head? = some ['.', '.'] then
        normSegments initialSlashes (segment :: kept) segments
      else normSegments initialSlashes kept.tail segments

/-- `posixpath.normpath`. -/
def normpath (path : Text) : Text :=
  if path = [] then ['.']
  else
    let initialSlashes :=
      if "//".toList.isPrefixOf path && !"///".toList.isPrefixOf path then 2
      else if "/".toList.isPrefixOf path then 1
      else 0
    let segments := normSegments initialSlashes [] (path.splitOn '/')
    let path := List.replicate initialSlashes '/' ++ join '/' segments.reverse
    if path = [] then ['.'] else path

/-- `canonical_uri`. -/
def canonicalUri : Except AuthError Text :=
  let path := req.authPath
  let normalized := (normpath path).map fun c => if c = '\\' then '/' else c
  let encoded := quote "/" normalized
  .ok (if 1 < path.length ∧ path.getLast? = some '/' then encoded ++ ['/'] else encoded)

/-- `payload`. -/
def payload : Except AuthError Text :=
  .ok (hexlify (library.sha256
    (match req.body with
    | .bytes content => content
    | .text content => encodeUtf8 content)).1)

/-! ## The signature -/

/-- `canonical_request`. -/
def canonicalRequest : Except AuthError Text := do
  let uri ← methods.canonicalUri req
  let query ← methods.canonicalQueryString library req
  let headersToSign ← methods.headersToSign self req
  let payload ← methods.payload library req
  return join '\n' [req.method.map Char.toUpper, uri, query,
    canonicalHeaders headersToSign ++ ['\n'], signedHeaders headersToSign, payload]

/-- `scope`. -/
def scope : Text :=
  join '/' [self.provider.accessKey, req.timestamp, req.regionName, req.serviceName,
    "aws4_request".toList]

/-- `split_host_parts`. -/
def splitHostParts (host : Text) : List Text :=
  host.splitOn '.'

/-- `determine_region_name`. -/
def determineRegionName (host : Text) : Except AuthError Text :=
  let parts := splitHostParts host
  .ok <| match self.regionName, parts with
    | some regionName, _ => regionName
    | none, _ :: second :: rest =>
        if second = "us-gov".toList then "us-gov-west-1".toList
        else if rest.length = 1 then "us-east-1".toList
        else second
    | none, parts => parts.head?.getD []

/-- `determine_service_name`. -/
def determineServiceName (host : Text) : Text :=
  match self.serviceName with
  | some serviceName => serviceName
  | none => (splitHostParts host).head?.getD []

/-- `headers['X-Amz-Date']`. -/
def amzDate : Except AuthError Text :=
  match req.headers.get? "X-Amz-Date".toList with
  | some date => .ok (strData date)
  | none => .error .keyError

/-- `credential_scope`, with the attributes that it sets. -/
def credentialScope : Except AuthError (Text × HTTPRequest) := do
  let date ← amzDate req
  let regionName ← methods.determineRegionName self req.host
  let serviceName := methods.determineServiceName self req.host
  let req :=
    { req with
      timestamp := date.take 8
      regionName := regionName
      serviceName := serviceName }
  return (join '/' [req.timestamp, regionName, serviceName, "aws4_request".toList], req)

/-- `string_to_sign`. -/
def stringToSign (canonicalRequest : Text) : Except AuthError (Text × HTTPRequest) := do
  let date ← amzDate req
  let (scope, req) ← credentialScope methods self req
  return (join '\n' ["AWS4-HMAC-SHA256".toList, date, scope,
    hexlify (library.sha256 (encodeUtf8 canonicalRequest)).1], req)

/-- `_sign`. -/
def sign (key : Bytes) (msg : Text) : Bytes :=
  (library.hmacSha256 key (encodeUtf8 msg)).1

/-- `signature`. -/
def signature (stringToSign : Text) : Text :=
  let kDate := sign library (encodeUtf8 ("AWS4".toList ++ self.provider.secretKey))
    req.timestamp
  let kRegion := sign library kDate req.regionName
  let kService := sign library kRegion req.serviceName
  let kSigning := sign library kService "aws4_request".toList
  hexlify (sign library kSigning stringToSign)

/-- The headers that a new attempt starts with. -/
def datedHeaders : OrderedDict Text Data :=
  let headers := (req.headers.erase "X-Amzn-Authorization".toList).set "X-Amz-Date".toList
    (.text clock.isoDate)
  match self.provider.token? with
  | some token => headers.set "X-Amz-Security-Token".toList (.text token)
  | none => headers

/-- The request with its parameters in the body or in the path. -/
def placeQuery (qs qsToPost : Text) : HTTPRequest :=
  if qsToPost ≠ [] ∧ req.method = "POST".toList then
    { req with
      body := .text qsToPost
      headers := (req.headers.set "Content-Type".toList
        (.text "application/x-www-form-urlencoded; charset=UTF-8".toList)).set
          "Content-Length".toList (.text (decimal qsToPost.length)) }
  else
    let path := req.path.takeWhile (· ≠ '?')
    { req with path := if qs ≠ [] then path ++ '?' :: qs else path }

/-- The request with its signature. -/
def signRequest : Except AuthError HTTPRequest := do
  let canonicalRequest ← canonicalRequest library methods self req
  let (stringToSign, req) ← stringToSign library methods self req canonicalRequest
  let signature := signature library self req stringToSign
  let headersToSign ← methods.headersToSign self req
  let l := ["AWS4-HMAC-SHA256 Credential=".toList ++ scope self req,
    "SignedHeaders=".toList ++ signedHeaders headersToSign,
    "Signature=".toList ++ signature]
  return { req with headers := req.headers.set "Authorization".toList (.text (join ',' l)) }

/-- `add_auth`, where `unmangled_req` may be given. -/
def addAuth (unmangledReq : Option HTTPRequest) : Except AuthError HTTPRequest := do
  let req := { req with headers := datedHeaders clock self req }
  let qs ← queryString library req
  let qsToPost ← match unmangledReq with
    | some unmangledReq => queryString library unmangledReq
    | none => .ok qs
  signRequest library methods self (placeQuery req qs qsToPost)

/-- The methods of this class. -/
def ownMethods : V4Methods where
  headersToSign := headersToSign
  canonicalQueryString := canonicalQueryString
  canonicalUri := canonicalUri
  payload := payload
  determineRegionName := determineRegionName
  determineServiceName := determineServiceName

end HmacAuthV4Handler

end Boto.Auth
