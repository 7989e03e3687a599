import Boto.Auth.QuerySignature
import Boto.Connection.Mexe
import Boto.S3.CallingFormat

/-!
# Building requests

`AWSAuthConnection.build_base_http_request` of `boto/connection.py`, as Python 3 runs it.
-/

namespace Boto.Connection

open Auth (AuthError HTTPRequest ParamValue)

/-- The fields of `AWSAuthConnection` from which a request is built. -/
structure RequestConnection extends AWSAuthConnection where
  protocol : Text
  host : Text
  port : ℕ
  path : Text
  suppressConsecSlashes : Bool
  hostHeader : Option Text
  proxyUser : Text
  proxyPass : Text

namespace RequestConnection

variable (self : RequestConnection)

/-- `server_name`, where 0 stands for a port that is not given. -/
def serverName (port : ℕ) : Text :=
  let port := if port = 0 then self.port else port
  if port = 80 then self.host else self.host ++ ':' :: decimal port

/-- `get_path`. -/
def getPath (path : Text) : Text :=
  S3.getPath self.path self.suppressConsecSlashes path

/-- `prefix_proxy_to_path`. -/
def prefixProxyToPath (path host : Text) : Text :=
  self.protocol ++ "://".toList ++ (if host ≠ [] then host else self.serverName 0) ++ path

/-- The headers with the host that the connection puts into them. -/
def hostHeaders (headers : OrderedDict Text Data) : OrderedDict Text Data :=
  match self.hostHeader.filter fun host => !host.isEmpty with
  | some host =>
      if headers.keys.any fun name => lower name = "host".toList then headers
      else headers.set "host".toList (.text host)
  | none => headers

/-- `build_base_http_request`: `get_proxy_auth_header` encodes a text as bytes, which it is
not. -/
def buildBaseHttpRequest (method path : Text) (authPath : Option Text)
    (params : OrderedDict Text ParamValue) (headers : OrderedDict Text Data) (data : Data)
    (host : Text) : Except AuthError HTTPRequest :=
  let path := self.getPath path
  let authPath := authPath.map self.getPath
  let headers := self.hostHeaders headers
  let host := if host ≠ [] then host else self.host
  if self.useProxy = true ∧ self.skipProxy host = false then
    let authPath := (authPath.filter fun authPath => !authPath.isEmpty).getD path
    if self.proxyUser ≠ [] ∧ self.proxyPass ≠ [] ∧ self.isSecure = false then
      .error .typeError
    else
      .ok (HTTPRequest.init method self.protocol host self.port
        (self.prefixProxyToPath path host) (some authPath) params headers data)
  else
    .ok (HTTPRequest.init method self.protocol host self.port path authPath params headers
      data)

variable {self : RequestConnection}

/-- What is built has the method, the parameters and the body that are given. -/
theorem buildBaseHttpRequest_given {method path : Text} {authPath : Option Text}
    {params : OrderedDict Text ParamValue} {headers : OrderedDict Text Data} {data : Data}
    {host : Text} {req : HTTPRequest}
    (hreq : self.buildBaseHttpRequest method path authPath params headers data host =
      .ok req) : req.method = method ∧ req.params = params ∧ req.body = data := by
  rw [buildBaseHttpRequest] at hreq
  dsimp only at hreq
  generalize (if host ≠ [] then host else self.host) = host at hreq
  split at hreq
  · split at hreq
    · cases hreq
    · cases hreq
      exact ⟨rfl, rfl, rfl⟩
  · cases hreq
    exact ⟨rfl, rfl, rfl⟩

end RequestConnection

end Boto.Connection
