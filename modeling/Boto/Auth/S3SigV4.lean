import Boto.Auth.SigV4
import Boto.Support.Urls

/-!
# Signature version 4 for S3

`S3HmacAuthV4Handler` of `boto/auth.py`.  It signs nearly every header and the query that
is on the path, and works on a copy of the request whose headers are shared with it.
-/

namespace Boto.Auth.S3HmacAuthV4Handler

open HmacAuthV4Handler (amzDate scope)

variable (library : Library) (clock : Clock)
variable (self : HmacAuthV4Handler) (req : HTTPRequest)

/-- `clean_region_name`. -/
def cleanRegionName (regionName : Text) : Text :=
  if "s3-".toList.isPrefixOf regionName then regionName.drop 3 else regionName

/-- `__init__`. -/
def init (host : Text) (provider : Provider) (serviceName regionName : Option Text) :
    HmacAuthV4Handler where
  host := host
  provider := provider
  serviceName := serviceName
  regionName := regionName.map cleanRegionName

/-- `urlparse`. -/
def urlparse (url : Text) : Except AuthError Urls.ParseResult :=
  match Urls.urlparse url with
  | some result => .ok result
  | none => .error .valueError

/-- `canonical_uri`. -/
def canonicalUri : Except AuthError Text := do
  let path ← urlparse req.path
  let unquoted := PercentEncoding.unquote path.path
  return quote "/~" unquoted

/-- `canonical_query_string`. -/
def canonicalQueryString : Except AuthError Text :=
  HmacAuthV4Handler.queryPairs library (quote "-_.~") (quote "-_.~")
    (sorted req.params.keys) req.params

/-- `host_header`. -/
def hostHeader : Text :=
  HmacAuthV4Handler.hostHeader req.host req

/-- `headers_to_sign`. -/
def headersToSign : Except AuthError (OrderedDict Text Data) :=
  .ok (req.headers.items.foldl (fun headersToSign item =>
    if lower item.1 = "authorization".toList then headersToSign
    else headersToSign.set item.1 item.2)
      (OrderedDict.empty.set "Host".toList (.text (hostHeader req))))

/-- The loop of `determine_region_name` over the reversed parts, from an offset on. -/
def findRegion (parts : List Text) : ℕ → List Text → Option Text
  | _, [] => none
  | offset, part :: reversed =>
      let part := lower part
      if part = "s3".toList then
        -- The index `-0` is the first one.
        let regionName :=
          (parts[if offset = 0 then 0 else parts.length - offset]?).getD []
        some (if regionName = "amazonaws".toList then "us-east-1".toList else regionName)
      else if "s3-".toList.isPrefixOf part then some (cleanRegionName part)
      else findRegion parts (offset + 1) reversed

/-- `determine_region_name`. -/
def determineRegionName (host : Text) : Except AuthError Text :=
  let parts := HmacAuthV4Handler.splitHostParts host
  match self.regionName with
  | some regionName => .ok regionName
  | none =>
      if parts.length = 3 then
        let regionName := cleanRegionName (parts.head?.getD [])
        .ok (if regionName = "s3".toList then "us-east-1".toList else regionName)
      else
        match findRegion parts 0 parts.reverse with
        | some regionName => .ok regionName
        | none => .error .unboundLocalError

/-- `determine_service_name`. -/
def determineServiceName (_ : Text) : Text :=
  "s3".toList

/-- `parse_qs(query, keep_blank_values=True)`: the values of a name, in their order. -/
def parseQs (semicolons : Bool) (query : Text) : OrderedDict Text (List Text) :=
  (Urls.parseQsl semicolons query).foldl (fun dict pair =>
    dict.set pair.1 ((dict.get? pair.1).getD [] ++ [pair.2])) OrderedDict.empty

/-- A value of the existing query: a list only if there are several. -/
def existingValue : List Text → ParamValue
  | [value] => .text value
  | values => .list values

/-- `mangle_path_and_params`. -/
def manglePathAndParams (semicolons : Bool) : Except AuthError HTTPRequest := do
  let parsedPath ← urlparse req.authPath
  let existingQs := (parseQs semicolons parsedPath.query).mapValues existingValue
  return { req with authPath := parsedPath.path, params := req.params.update existingQs }

/-- `payload`: bytes cannot be joined with text. -/
def payload : Except AuthError Text :=
  match req.headers.get? "x-amz-content-sha256".toList with
  | some value =>
      if value.length = 0 then HmacAuthV4Handler.payload library req
      else
        match value with
        | .text value => .ok value
        | .bytes _ => .error .typeError
  | none => HmacAuthV4Handler.payload library req

/-- The headers with the digest of the body. -/
def hashedHeaders : Except AuthError (OrderedDict Text Data) :=
  if req.headers.contains "x-amz-content-sha256".toList then .ok req.headers
  else
    match req.headers.get? "_sha256".toList with
    | some value => .ok
        ((req.headers.erase "_sha256".toList).set "x-amz-content-sha256".toList value)
    | none => do
        let payload ← payload library req
        return req.headers.set "x-amz-content-sha256".toList (.text payload)

/-- The methods of this class. -/
def ownMethods : V4Methods where
  headersToSign := fun _ => headersToSign
  canonicalQueryString := canonicalQueryString
  canonicalUri := canonicalUri
  payload := payload
  determineRegionName := determineRegionName
  determineServiceName := fun _ => determineServiceName

/-- `add_auth`: the copy that is signed shares the headers only. -/
def addAuth (semicolons : Bool) : Except AuthError HTTPRequest := do
  let req := { req with headers := ← hashedHeaders library req }
  let updatedReq ← manglePathAndParams req semicolons
  let signed ← HmacAuthV4Handler.addAuth library clock ownMethods self updatedReq (some req)
  return { req with headers := signed.headers }

/-! ## Presigned URLs -/

/-- `urllib.parse.urlencode(params)`. -/
def urlencode (params : OrderedDict Text ParamValue) : Text :=
  join '&' (params.items.map fun param =>
    PercentEncoding.quotePlus (encodeUtf8 param.1) ++ '=' ::
      PercentEncoding.quotePlus (match param.2 with
        | .text value => encodeUtf8 value
        | .bytes value => value
        | .int value => encodeUtf8 (strInt value)
        | .list values => encodeUtf8 (strList library values)))

/-- The parameters that a presigned URL has beside those of the request. -/
def presignParams (expires : ℤ) (isoDate region service : Text)
    (headersToSign : OrderedDict Text Data) : List (Text × ParamValue) :=
  [("X-Amz-Algorithm".toList, .text "AWS4-HMAC-SHA256".toList),
    ("X-Amz-Credential".toList, .text (join '/' [self.provider.accessKey, isoDate.take 8,
      region, service, "aws4_request".toList])),
    ("X-Amz-Date".toList, .text isoDate),
    ("X-Amz-Expires".toList, .int expires),
    ("X-Amz-SignedHeaders".toList,
      .text (HmacAuthV4Handler.signedHeaders headersToSign))] ++
  match self.provider.token? with
  | some token => [("X-Amz-Security-Token".toList, .text token)]
  | none => []

/-- `presign`. -/
def presign (expires : ℤ) (isoDate : Option Text) : Except AuthError Text := do
  let isoDate := isoDate.getD clock.isoDate
  let region ← determineRegionName self req.host
  let service := determineServiceName req.host
  let headersToSign ← headersToSign req
  let params := presignParams self expires isoDate region service headersToSign
  let req := { req with
    params := params.foldl (fun params param => params.set param.1 param.2) req.params }
  let cr ← HmacAuthV4Handler.canonicalRequest library ownMethods self req
  let cr := join '\n' (cr.splitOn '\n').dropLast ++ "\nUNSIGNED-PAYLOAD".toList
  let req := { req with headers := req.headers.set "X-Amz-Date".toList (.text isoDate) }
  let (sts, req) ← HmacAuthV4Handler.stringToSign library ownMethods self req cr
  let signature := HmacAuthV4Handler.signature library self req sts
  let params := req.params.set "X-Amz-Signature".toList (.text signature)
  return req.protocol ++ "://".toList ++ req.host ++ req.path ++ '?' ::
    urlencode library params

end Boto.Auth.S3HmacAuthV4Handler
