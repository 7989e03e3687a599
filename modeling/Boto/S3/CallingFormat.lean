import Boto.Auth.Request

/-!
# Paths of requests to S3

The calling formats of `boto/s3/connection.py`, which build the path and the host of a request,
and `get_path` of `boto/connection.py`, which joins it to the path of the connection.
-/

namespace Boto.S3

/-- `BotoClientError`. -/
structure BotoClientError where
  reason : String
  deriving DecidableEq

/-- The calling formats. -/
inductive CallingFormat
  | subdomain
  | vhost
  | ordinary
  | protocolIndependentOrdinary
  deriving DecidableEq

namespace CallingFormat

/-- Whether a format inherits from `OrdinaryCallingFormat`. -/
def isOrdinary : CallingFormat → Bool
  | subdomain | vhost => false
  | ordinary | protocolIndependentOrdinary => true

/-- `build_auth_path`. -/
def buildAuthPath (bucket key : Text) : Text :=
  let path := if bucket ≠ [] then '/' :: bucket else []
  path ++ '/' :: Auth.quote "/" key

/-- `build_path_base`. -/
def buildPathBase (format : CallingFormat) (bucket key : Text) : Text :=
  if format.isOrdinary then
    let pathBase := if bucket ≠ [] then '/' :: (bucket ++ ['/']) else ['/']
    pathBase ++ Auth.quote "/" key
  else '/' :: Auth.quote "/" key

/-- `check_lowercase_bucketname`, which the formats with the bucket in the host name make. -/
def checkLowercaseBucketname (bucket : Text) : Except BotoClientError Unit :=
  if bucket.any Char.isUpper then
    .error ⟨"Bucket names cannot contain upper-case characters when using either the " ++
      "sub-domain or virtual hosting calling format."⟩
  else .ok ()

/-- `get_bucket_server`. -/
def getBucketServer (format : CallingFormat) (server bucket : Text) :
    Except BotoClientError Text :=
  match format with
  | subdomain => (checkLowercaseBucketname bucket).map fun _ => bucket ++ '.' :: server
  | vhost => (checkLowercaseBucketname bucket).map fun _ => bucket
  | ordinary | protocolIndependentOrdinary => .ok server

/-- `build_host`. -/
def buildHost (format : CallingFormat) (server bucket : Text) : Except BotoClientError Text :=
  if bucket = [] then .ok server else format.getBucketServer server bucket

/-- Whether a format has a host for a bucket. -/
def takes (format : CallingFormat) (bucket : Text) : Bool :=
  format.isOrdinary || !bucket.any Char.isUpper

theorem buildHost_isOk (format : CallingFormat) (server bucket : Text) :
    (∃ host, format.buildHost server bucket = .ok host) ↔ format.takes bucket = true := by
  rw [buildHost]
  split
  · rename_i hempty
    subst hempty
    simp [takes]
  · cases format <;>
      simp only [getBucketServer, checkLowercaseBucketname, takes, isOrdinary] <;>
      cases bucket.any Char.isUpper <;> simp [Except.map]

end CallingFormat

/-- `re.sub('^(/*)/', "\\1", path)`: one slash less at the start. -/
def dropSlash : Text → Text
  | '/' :: path => path
  | path => path

/-- The elements of a path: what is between its slashes, if anything. -/
def pathElements (path : Text) : List Text :=
  (path.splitOn '/').filter fun element => !element.isEmpty

/-- `get_path`, for the path and the option of a connection. -/
def getPath (connectionPath : Text) (suppressConsecSlashes : Bool) (path : Text) : Text :=
  if suppressConsecSlashes = false then connectionPath ++ dropSlash path
  else
    let params := path.dropWhile (· ≠ '?')
    let path := path.takeWhile (· ≠ '?')
    let needTrailing := path.getLast? = some '/'
    let path := '/' :: join '/' (pathElements connectionPath ++ pathElements path)
    let path := if path.getLast? ≠ some '/' ∧ needTrailing then path ++ ['/'] else path
    path ++ params

end Boto.S3
