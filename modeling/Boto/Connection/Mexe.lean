import Boto.Connection.Pool
import Boto.Numerals
import Boto.Support.Runs
import Boto.Support.Urls
import Boto.TextMethods
import Mathlib.Logic.Function.Basic

/-!
# Sending requests

`AWSAuthConnection._mexe` of `boto/connection.py` with the functions that open connections.
A call is a sequence of attempts.  What an attempt meets is given: a response, or an
exception.
-/

namespace Boto.Connection

/-! ## Opening connections -/

/-- A port: a number, or the text after the colon of a redirect. -/
inductive Port
  | int (port : ℕ)
  | text (port : Text)
  deriving DecidableEq

/-- `'%s' % port`. -/
def Port.str : Port → Text
  | .int port => decimal port
  | .text port => port

/-- The key of a pool. -/
structure PoolKey where
  host : Text
  port : Port
  isSecure : Bool
  deriving DecidableEq

/-- A connection, with the host and the port that it leads to. -/
structure HttpConnection where
  host : Text
  port : Port
  isSecure : Bool
  /-- The connection is to the proxy, which reads the host from the request. -/
  viaProxy : Bool
  deriving DecidableEq

/-- The fields of `AWSAuthConnection` that are read here. -/
structure AWSAuthConnection where
  isSecure : Bool
  useProxy : Bool
  proxy : Text
  proxyPort : ℕ
  noProxy : Text
  hasConnectionFactory : Bool

/-- `hostname.split(']:', 1)[0]`. -/
def beforeBracket : Text → Text
  | ']' :: ':' :: _ => []
  | c :: rest => c :: beforeBracket rest
  | [] => []

/-- `host_is_ipv6`. -/
def hostIsIpv6 (hostname : Text) : Bool :=
  hostname.head? = some '[' || decide (2 < (hostname.splitOn ':').length)

/-- `parse_host`. -/
def parseHost (hostname : Text) : Text :=
  let hostname := stripText hostname
  if hostIsIpv6 hostname then
    let isBracket := fun c : Char => c = '[' || c = ']'
    (((beforeBracket hostname).dropWhile isBracket).reverse.dropWhile isBracket).reverse
  else hostname.takeWhile (· ≠ ':')

/-- The port of `HTTPSConnection(host)`. -/
def httpsPort : ℕ := 443

namespace AWSAuthConnection

variable (self : AWSAuthConnection)

/-- `skip_proxy`. -/
def skipProxy (host : Text) : Bool :=
  if self.noProxy = [] then false
  else if self.noProxy = ['*'] then true
  else
    let hostonly := host.takeWhile (· ≠ ':')
    (self.noProxy.splitOn ',').any fun name =>
      !name.isEmpty && (name.isSuffixOf hostonly || name.isSuffixOf host)

/-- `new_http_connection`: a tunnel through the proxy and a connection of the factory are
made without the port. -/
def newHttpConnection (key : PoolKey) : HttpConnection :=
  let host := parseHost key.host
  let proxied := self.useProxy && !self.skipProxy host
  if key.isSecure then
    if proxied then { host := host, port := .int 443, isSecure := true, viaProxy := true }
    else if self.hasConnectionFactory then
      { host := host, port := .int httpsPort, isSecure := true, viaProxy := false }
    else { host := host, port := key.port, isSecure := true, viaProxy := false }
  else if proxied then
    { host := self.proxy, port := .int self.proxyPort, isSecure := false, viaProxy := true }
  else { host := host, port := key.port, isSecure := false, viaProxy := false }

end AWSAuthConnection

/-! ## Calls -/

/-- The fields of a request that `_mexe` reads or changes. -/
structure Request where
  host : Text
  port : Port
  path : Text
  deriving DecidableEq

/-- The parts of a response that `_mexe` reads. -/
structure Response where
  status : ℕ
  location : Option Text
  connection : Option Text
  deriving DecidableEq

/-- What an attempt meets.  A response comes with the number of attempts that the retry
handler wants to go on with, if it does. -/
inductive Outcome
  | response (response : Response) (retry : Option ℕ)
  /-- `PleaseRetryException`, or one of `http_exceptions` that is not unretryable. -/
  | retryable
  /-- Any other exception. -/
  | raised
  deriving DecidableEq

/-- What an attempt finds: the pool's view, and whether connections can be opened, at first
and in the handler of an exception. -/
structure Environment extends Moment where
  connects : Bool
  reconnects : Bool

/-- The state of a call between two attempts, with the scheme of the last redirect if no
connection was opened since for an exception. -/
structure Call where
  request : Request
  connection : HttpConnection
  i : ℕ
  numRetries : ℕ
  redirectedTo : Option Text
  deriving DecidableEq

/-- The pool, and the calls that have not ended. -/
structure State where
  pool : ConnectionPool PoolKey HttpConnection
  calls : ℕ → Option Call

/-- What happens next. -/
inductive Action
  | call (id : ℕ) (request : Request) (numRetries : ℕ) (environment : Environment)
  | attempt (id : ℕ) (outcome : Outcome) (environment : Environment)

namespace Response

/-- `response.status in [500, 502, 503, 504]`. -/
def isServerError (response : Response) : Bool :=
  [500, 502, 503, 504].contains response.status

/-- Where the response redirects, if it does. -/
def redirect? (response : Response) : Option Text :=
  if response.status < 300 || response.status ≥ 400 then none
  else response.location.filter fun location => !location.isEmpty

/-- The connection is not used again. -/
def closes (response : Response) : Bool :=
  response.connection = some "close".toList

end Response

namespace Call

/-- The condition of the loop: without further attempts the call raises. -/
def next? (call : Call) : Option Call :=
  if call.i ≤ call.numRetries then some call else none

/-- The key under which the connection of a call is returned. -/
def key (call : Call) (isSecure : Bool) : PoolKey :=
  ⟨call.request.host, call.request.port, isSecure⟩

end Call

namespace Request

/-- The request after a redirect. -/
def redirected (request : Request) (result : Urls.ParseResult) : Request :=
  let (host, port) := Urls.cut ':' result.netloc
  { host := host
    port := (port.map Port.text).getD request.port
    path := if result.query = [] then result.path else result.path ++ '?' :: result.query }

end Request

namespace AWSAuthConnection

variable (self : AWSAuthConnection)

/-- `get_http_connection`: a new connection if the pool has none, or nothing if that cannot
be opened. -/
def getHttpConnection (environment : Environment) (key : PoolKey)
    (pool : ConnectionPool PoolKey HttpConnection) :
    Option HttpConnection × ConnectionPool PoolKey HttpConnection :=
  match pool.getHttpConnection environment.toMoment key with
  | (some conn, pool) => (some conn, pool)
  | (none, pool) =>
      (if environment.connects then some (self.newHttpConnection key) else none, pool)

/-- An exception is handled by a new connection. -/
def reconnect (environment : Environment) (call : Call) : Option Call :=
  if environment.reconnects then
    Call.next? { call with
      connection := self.newHttpConnection (call.key self.isSecure)
      i := call.i + 1
      redirectedTo := none }
  else none

/-- A redirect is followed over a connection for its scheme. -/
def follow (environment : Environment) (location : Text) (call : Call)
    (pool : ConnectionPool PoolKey HttpConnection) :
    Option Call × ConnectionPool PoolKey HttpConnection :=
  match Urls.urlparse location with
  | none => (none, pool)
  | some result =>
      let call := { call with request := call.request.redirected result }
      match self.getHttpConnection environment
          (call.key (result.scheme = "https".toList)) pool with
      | (some conn, pool) =>
          (Call.next? { call with connection := conn, redirectedTo := some result.scheme }, pool)
      | (none, pool) => (self.reconnect environment call, pool)

/-- One attempt of the loop of `_mexe`: the call goes on, or has ended. -/
def attempt (environment : Environment) (outcome : Outcome) (call : Call)
    (pool : ConnectionPool PoolKey HttpConnection) :
    Option Call × ConnectionPool PoolKey HttpConnection :=
  match outcome with
  | .response _ (some i) => (Call.next? { call with i := i }, pool)
  | .response response none =>
      if response.isServerError then (Call.next? { call with i := call.i + 1 }, pool)
      else
        match response.redirect? with
        | some location => self.follow environment location call pool
        | none =>
            if response.closes then (none, pool)
            else (none, pool.putHttpConnection environment.now (call.key self.isSecure)
              call.connection)
  | .retryable => (self.reconnect environment call, pool)
  | .raised => (none, pool)

/-- A step of the calls that are under way. -/
def step (s : State) : Action → Option State
  | .call id request numRetries environment =>
      match s.calls id with
      | some _ => none
      | none =>
          match self.getHttpConnection environment
              ⟨request.host, request.port, self.isSecure⟩ s.pool with
          | (conn, pool) => some
              { pool := pool
                calls := Function.update s.calls id (conn.map fun conn =>
                  { request := request
                    connection := conn
                    i := 0
                    numRetries := numRetries
                    redirectedTo := none }) }
  | .attempt id outcome environment =>
      match s.calls id with
      | none => none
      | some call =>
          match self.attempt environment outcome call s.pool with
          | (call, pool) => some { pool := pool, calls := Function.update s.calls id call }

/-- No calls, and nothing in the pool. -/
def initial (staleDuration : ℕ) : State where
  pool := .init staleDuration
  calls := fun _ => none

end AWSAuthConnection

end Boto.Connection
