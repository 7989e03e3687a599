import Boto.Auth.CanonicalString
import Boto.Auth.S3SigV4
import Boto.Auth.SigV4

/-!
# Signatures in the query

`QuerySignatureHelper` of `boto/auth.py` with the handlers of versions 1 and 2, and
`POSTPathQSV2AuthHandler`.
-/

namespace Boto.Auth

variable (library : Library) (clock : Clock) (keys : HmacKeys) (req : HTTPRequest)

/-- What `_calc_signature` returns, with the parameters, which it may change. -/
structure CalcResult where
  qs : Text
  signature : Bytes
  params : OrderedDict Text ParamValue

/-- `base64.b64encode`. -/
def b64encode (digest : Bytes) : Bytes :=
  encodeUtf8 (Base64.encode digest)

/-- The parameters with those of every attempt. -/
def stampedParams (signatureVersion : ℤ) (params : OrderedDict Text ParamValue) :
    OrderedDict Text ParamValue :=
  ((params.set "AWSAccessKeyId".toList (.text keys.provider.accessKey)).set
    "SignatureVersion".toList (.int signatureVersion)).set
      "Timestamp".toList (.text clock.timestamp)

/-- The query that is sent. -/
def CalcResult.signedQuery (result : CalcResult) : Text :=
  result.qs ++ "&Signature=".toList ++ PercentEncoding.quotePlus result.signature

/-- A path with another query. -/
def replaceQuery (path query : Text) : Text :=
  path.takeWhile (· ≠ '?') ++ '?' :: query

/-- `QuerySignatureHelper.add_auth`. -/
def QuerySignatureHelper.addAuth (signatureVersion : ℤ)
    (calcSignature : OrderedDict Text ParamValue → Except AuthError CalcResult) :
    Except AuthError HTTPRequest := do
  let result ← calcSignature (stampedParams clock keys signatureVersion req.params)
  if req.method = "POST".toList then
    return { req with
      params := result.params
      headers := (req.headers.set "Content-Type".toList
        (.text "application/x-www-form-urlencoded; charset=UTF-8".toList)).set
          "Content-Length".toList (.text (decimal result.signedQuery.length))
      body := .text result.signedQuery }
  else
    return { req with
      params := result.params
      body := .text []
      path := replaceQuery req.path result.signedQuery }

/-- `QuerySignatureV1AuthHandler._calc_signature`. -/
def QuerySignatureV1AuthHandler.calcSignature (params : OrderedDict Text ParamValue) :
    Except AuthError CalcResult := do
  let pairs ← (sortedBy lower params.keys).mapM fun key => do
    let val ← getUtf8ableStr library ((params.get? key).getD (.text []))
    return (key, val)
  let message := pairs.flatMap fun pair => encodeUtf8 pair.1 ++ encodeUtf8 pair.2
  return {
    qs := join '&' (pairs.map fun pair => pair.1 ++ '=' :: quote "/" pair.2)
    signature := b64encode (keys.hmac library .sha message)
    params := params }

/-- `QuerySignatureV1AuthHandler.add_auth`. -/
def QuerySignatureV1AuthHandler.addAuth : Except AuthError HTTPRequest :=
  QuerySignatureHelper.addAuth clock keys req 1
    (QuerySignatureV1AuthHandler.calcSignature library keys)

/-- The parameters with those that version 2 adds. -/
def QuerySignatureV2AuthHandler.methodParams (params : OrderedDict Text ParamValue) :
    OrderedDict Text ParamValue :=
  let params := params.set "SignatureMethod".toList (.text (HmacKeys.algorithm .sha256))
  match keys.provider.token? with
  | some token => params.set "SecurityToken".toList (.text token)
  | none => params

/-- `QuerySignatureV2AuthHandler._calc_signature`. -/
def QuerySignatureV2AuthHandler.calcSignature (verb path serverName : Text)
    (params : OrderedDict Text ParamValue) : Except AuthError CalcResult := do
  let params := methodParams keys params
  let qs ← HmacAuthV4Handler.queryPairs library (quote "") (quote "-_~")
    (sorted params.keys) params
  let stringToSign := join '\n' [verb, lower serverName, path, qs]
  return {
    qs := qs
    signature := b64encode (keys.hmac library .sha256 (encodeUtf8 stringToSign))
    params := params }

/-- `QuerySignatureV2AuthHandler.add_auth`. -/
def QuerySignatureV2AuthHandler.addAuth : Except AuthError HTTPRequest :=
  QuerySignatureHelper.addAuth clock keys req 2
    (QuerySignatureV2AuthHandler.calcSignature library keys req.method req.authPath req.host)

/-- `POSTPathQSV2AuthHandler.add_auth`: the query is on the path, also of a `POST`. -/
def POSTPathQSV2AuthHandler.addAuth : Except AuthError HTTPRequest := do
  let result ← QuerySignatureV2AuthHandler.calcSignature library keys req.method
    req.authPath req.host (stampedParams clock keys 2 req.params)
  let path := replaceQuery req.path result.signedQuery
  if req.method = "POST".toList then
    let contentType :=
      (req.headers.get? "Content-Type".toList).getD (.text "text/plain".toList)
    return { req with
      params := result.params
      headers := (req.headers.set "Content-Length".toList
        (.text (decimal req.body.length))).set "Content-Type".toList contentType
      path := path }
  else
    return { req with params := result.params, body := .text [], path := path }

end Boto.Auth

/-!
## Authorizing a request

`HTTPRequest.authorize` of `boto/connection.py`, over the handlers of `boto/auth.py`.
-/

namespace Boto.Auth

/-- The handlers that sign a request. -/
inductive AuthHandler
  | hmacAuthV1 (keys : HmacKeys)
  | hmacAuthV2 (keys : HmacKeys)
  | hmacAuthV3 (keys : HmacKeys)
  | hmacAuthV4 (handler : HmacAuthV4Handler)
  | s3HmacAuthV4 (handler : HmacAuthV4Handler)
  | querySignatureV1 (keys : HmacKeys)
  | querySignatureV2 (keys : HmacKeys)
  | postPathQSV2 (keys : HmacKeys)

/-- What signing takes from outside of the request: the standard library, the time, whether
a form may be separated by semicolons, and `boto.UserAgent`. -/
structure Environment where
  library : Library
  clock : Clock
  semicolons : Bool
  userAgent : Text

variable (env : Environment) (handler : AuthHandler) (req : HTTPRequest)

/-- `add_auth`. -/
def AuthHandler.addAuth : Except AuthError HTTPRequest :=
  match handler with
  | .hmacAuthV1 keys => HmacAuthV1Handler.addAuth env.library env.clock keys req
  | .hmacAuthV2 keys => HmacAuthV2Handler.addAuth env.library env.clock keys req
  | .hmacAuthV3 keys => HmacAuthV3Handler.addAuth env.library env.clock keys req
  | .hmacAuthV4 handler =>
      handler.addAuth env.library env.clock HmacAuthV4Handler.ownMethods req none
  | .s3HmacAuthV4 handler =>
      S3HmacAuthV4Handler.addAuth env.library env.clock handler req env.semicolons
  | .querySignatureV1 keys =>
      QuerySignatureV1AuthHandler.addAuth env.library env.clock keys req
  | .querySignatureV2 keys =>
      QuerySignatureV2AuthHandler.addAuth env.library env.clock keys req
  | .postPathQSV2 keys => POSTPathQSV2AuthHandler.addAuth env.library env.clock keys req

namespace HTTPRequest

/-- A header as it is sent. -/
def quoteHeader : Data → Data
  | .text value => .text (quote "!\"#$%&'()*+,/:;<=>?@[\\]^`\x7b|\x7d~ " value)
  | .bytes value => .bytes value

/-- The request before it is signed. -/
def quoted : HTTPRequest :=
  let headers := if req.headersQuoted then req.headers else req.headers.mapValues quoteHeader
  { req with
    headersQuoted := true
    headers := headers.set "User-Agent".toList (.text env.userAgent) }

/-- The request with its length, unless it is sent in chunks. -/
def withLength : HTTPRequest :=
  if req.headers.contains "Content-Length".toList then req
  else if req.headers.get? "Transfer-Encoding".toList = some (.text "chunked".toList) then
    req
  else
    { req with headers :=
        req.headers.set "Content-Length".toList (.text (decimal req.body.length)) }

/-- `authorize`. -/
def authorize : Except AuthError HTTPRequest := do
  let req ← handler.addAuth env (req.quoted env)
  return req.withLength

/-- What a connection sends of a request. -/
structure Sent where
  method : Text
  path : Text
  params : OrderedDict Text ParamValue
  headers : OrderedDict Text Data
  body : Data

/-- The fields that are compared. -/
def sent : Sent where
  method := req.method
  path := req.path
  params := req.params
  headers := req.headers
  body := req.body

end HTTPRequest

end Boto.Auth
