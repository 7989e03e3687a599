import Boto.ResultSet
import Boto.Support.Listing
import Boto.Support.PercentEncoding
import Boto.TextMethods

/-!
# Listing a bucket

The generators of `boto/s3/bucketlistresultset.py`, which list keys, versions and
multipart uploads page by page, with the requests of `boto/s3/bucket.py`; and a
service that answers them, whose pages may have any sizes.
-/

namespace Boto.S3

open Xml (Node)

/-! ## Requests -/

/-- `urllib.parse.quote`. -/
def quote (value : Text) : Text :=
  PercentEncoding.quote ['/'] (encodeUtf8 value)

/-- `unquote_str`. -/
def unquoteStr (value : Text) : Text :=
  PercentEncoding.unquotePlus value

/-- Keyword arguments.  What is no text was converted to one. -/
abbrev Params := List (Text × Option Text)

/-- `sorted(params.items(), key=lambda x: x[0])`. -/
def sortedParams (params : Params) : Params :=
  params.insertionSort fun a b => textLe a.1 b.1 = true

/-- The name of a parameter in a query. -/
def queryName (key : Text) : Text :=
  let key := key.map fun c => if c = '_' then '-' else c
  if key = "maxkeys".toList then "max-keys".toList else key

/-- `_get_all_query_args`. -/
def getAllQueryArgs (params : Params) (initialQueryString : Text) : Text :=
  let initial := if initialQueryString.isEmpty then [] else [initialQueryString]
  let pairs := (sortedParams params).filterMap fun param =>
    match param.2 with
    | none => none
    | some value =>
        if (encodeUtf8 value).isEmpty then none
        else some (quote (queryName param.1) ++ '=' :: quote value)
  ['&'].intercalate (initial ++ pairs)

/-- `validate_kwarg_names`. -/
def validateKwargNames (kwargs : Params) (names : List Text) : Except PyError Unit :=
  match kwargs.find? fun kwarg => !names.contains kwarg.1 with
  | none => .ok ()
  | some _ => .error (.typeError "Invalid argument!")

/-- The body of the answer to a request, from the number of the request and its
query. -/
abbrev Server := ℕ → Text → Node

/-- `_get_all`. -/
def getAll (server : Server) (elementMap : List (Text × ListedClass))
    (initialQueryString : Text) (params : Params) (i : ℕ) : Except PyError ResultSet :=
  XmlHandler.parse ResultSet.methods .resultSet (.init elementMap)
    (server i (getAllQueryArgs params initialQueryString)).events

/-- The elements of the items of a listing of keys, with their classes. -/
def keyElements : List (Text × ListedClass) :=
  [("Contents".toList, .key), ("CommonPrefixes".toList, .commonPrefix)]

/-- The elements of the items of a listing of versions. -/
def versionElements : List (Text × ListedClass) :=
  [("Version".toList, .key), ("CommonPrefixes".toList, .commonPrefix),
    ("DeleteMarker".toList, .deleteMarker)]

/-- The elements of the items of a listing of multipart uploads. -/
def uploadElements : List (Text × ListedClass) :=
  [("Upload".toList, .multiPartUpload), ("CommonPrefixes".toList, .commonPrefix)]

/-- `get_all_keys`. -/
def getAllKeys (server : Server) (params : Params) (i : ℕ) :
    Except PyError ResultSet := do
  validateKwargNames params ["maxkeys".toList, "max_keys".toList, "prefix".toList,
    "marker".toList, "delimiter".toList, "encoding_type".toList]
  getAll server keyElements [] params i

/-- `get_all_versions`. -/
def getAllVersions (server : Server) (params : Params) (i : ℕ) :
    Except PyError ResultSet := do
  validateKwargNames params ["maxkeys".toList, "max_keys".toList, "prefix".toList,
    "key_marker".toList, "version_id_marker".toList, "delimiter".toList,
    "encoding_type".toList]
  getAll server versionElements "versions".toList params i

/-- `get_all_multipart_uploads`. -/
def getAllMultipartUploads (server : Server) (params : Params) (i : ℕ) :
    Except PyError ResultSet := do
  validateKwargNames params ["max_uploads".toList, "key_marker".toList,
    "upload_id_marker".toList, "encoding_type".toList, "delimiter".toList,
    "prefix".toList]
  getAll server uploadElements "uploads".toList params i

/-! ## The generators -/

/-- A generator that yields the items of each result set and goes on if there are
more: what it yields with at most the given number of requests, and whether it ends.
The numbers of the requests start from `i`. -/
def lister {σ : Type} (request : ℕ → σ → Except PyError ResultSet)
    (next : ResultSet → σ → σ) : ℕ → ℕ → σ → Except PyError (List Listed × Bool)
  | 0, _, _ => .ok ([], false)
  | fuel + 1, i, state => do
      let rs ← request i state
      if rs.isTruncated then
        let rest ← lister request next fuel (i + 1) (next rs state)
        return (rs.items ++ rest.1, rest.2)
      else return (rs.items, true)

/-- `a or b`, for texts. -/
def orText (a b : Option Text) : Option Text :=
  match a with
  | some (c :: text) => some (c :: text)
  | _ => b

/-- `if marker and encoding_type == "url": marker = unquote_str(marker)`. -/
def decodeMarker (encodingType marker : Option Text) : Option Text :=
  match marker with
  | some (c :: text) =>
      if encodingType = some "url".toList then some (unquoteStr (c :: text))
      else some (c :: text)
  | _ => marker

/-- The variables of `bucket_lister` that change. -/
structure BucketLister where
  k : Option Listed
  marker : Option Text

/-- The arguments of `get_all_keys`. -/
def BucketLister.params (pre delimiter : Text) (encodingType : Option Text)
    (state : BucketLister) : Params :=
  [("prefix".toList, some pre), ("marker".toList, state.marker),
    ("delimiter".toList, some delimiter), ("encoding_type".toList, encodingType)]

/-- `bucket_lister`. -/
def bucketLister (server : Server) (pre delimiter marker : Text)
    (encodingType : Option Text) (fuel : ℕ) : Except PyError (List Listed × Bool) :=
  lister
    (fun i (state : BucketLister) =>
      getAllKeys server (state.params pre delimiter encodingType) i)
    (fun rs (state : BucketLister) =>
      let k := rs.items.getLast?.or state.k
      let marker := match k with
        | some k => orText rs.nextMarker k.name
        | none => state.marker
      { k := k, marker := decodeMarker encodingType marker })
    fuel 0 { k := none, marker := some marker }

/-- The variables of the other two generators that change. -/
structure MarkerPair where
  keyMarker : Option Text
  idMarker : Option Text

/-- The arguments of `get_all_versions`. -/
def MarkerPair.versionParams (pre delimiter : Text) (encodingType : Option Text)
    (state : MarkerPair) : Params :=
  [("prefix".toList, some pre), ("key_marker".toList, state.keyMarker),
    ("version_id_marker".toList, state.idMarker),
    ("delimiter".toList, some delimiter), ("max_keys".toList, some (decimal 999)),
    ("encoding_type".toList, encodingType)]

/-- The arguments of `get_all_multipart_uploads`. -/
def MarkerPair.uploadParams (encodingType : Option Text) (state : MarkerPair) :
    Params :=
  [("key_marker".toList, state.keyMarker), ("upload_id_marker".toList, state.idMarker),
    ("encoding_type".toList, encodingType)]

/-- `versioned_bucket_lister`. -/
def versionedBucketLister (server : Server)
    (pre delimiter keyMarker versionIdMarker : Text) (encodingType : Option Text)
    (fuel : ℕ) : Except PyError (List Listed × Bool) :=
  lister
    (fun i (state : MarkerPair) =>
      getAllVersions server (state.versionParams pre delimiter encodingType) i)
    (fun rs (_ : MarkerPair) =>
      { keyMarker := decodeMarker encodingType rs.nextKeyMarker
        idMarker := rs.nextVersionIdMarker })
    fuel 0 { keyMarker := some keyMarker, idMarker := some versionIdMarker }

/-- `multipart_upload_lister`. -/
def multipartUploadLister (server : Server) (keyMarker uploadIdMarker : Text)
    (encodingType : Option Text) (fuel : ℕ) : Except PyError (List Listed × Bool) :=
  lister
    (fun i (state : MarkerPair) =>
      getAllMultipartUploads server (state.uploadParams encodingType) i)
    (fun rs (_ : MarkerPair) =>
      { keyMarker := decodeMarker encodingType rs.nextKeyMarker
        idMarker := rs.nextUploadIdMarker })
    fuel 0 { keyMarker := some keyMarker, idMarker := some uploadIdMarker }

/-! ## The service -/

/-- The parameters of a query. -/
def parseQuery (query : Text) : List (Text × Text) :=
  ((query.splitOn '&').filter fun pair => !pair.isEmpty).map fun pair =>
    (PercentEncoding.unquote (pair.takeWhile (· ≠ '=')),
      PercentEncoding.unquote ((pair.dropWhile (· ≠ '=')).drop 1))

/-- A parameter of a query.  One that is missing is empty. -/
def queryParam (name : Text) (query : Text) : Text :=
  ((parseQuery query).lookup name).getD []

/-- An entry of a listing. -/
inductive Entry
  | key (name : Text) (size : ℕ)
  | version (name versionId : Text) (size : ℕ)
  | deleteMarker (name versionId : Text)
  | upload (name uploadId : Text)
  | commonPrefix (name : Text)
  deriving DecidableEq

namespace Entry

/-- The name of the element of an entry. -/
def tag : Entry → Text
  | .key .. => "Contents".toList
  | .version .. => "Version".toList
  | .deleteMarker .. => "DeleteMarker".toList
  | .upload .. => "Upload".toList
  | .commonPrefix _ => "CommonPrefixes".toList

/-- The object that the entry is listed as. -/
def cls : Entry → ListedClass
  | .key .. => .key
  | .version .. => .key
  | .deleteMarker .. => .deleteMarker
  | .upload .. => .multiPartUpload
  | .commonPrefix _ => .commonPrefix

/-- The name of an entry. -/
def name : Entry → Text
  | .key name _ => name
  | .version name _ _ => name
  | .deleteMarker name _ => name
  | .upload name _ => name
  | .commonPrefix name => name

/-- The version id or the upload id of an entry. -/
def id : Entry → Option Text
  | .version _ id _ => some id
  | .deleteMarker _ id => some id
  | .upload _ id => some id
  | _ => none

/-- What is listed with keys. -/
def isOfKeys : Entry → Bool
  | .key .. => true
  | .commonPrefix _ => true
  | _ => false

/-- What is listed with versions. -/
def isOfVersions : Entry → Bool
  | .version .. => true
  | .deleteMarker .. => true
  | .commonPrefix _ => true
  | _ => false

/-- What is listed with multipart uploads. -/
def isOfUploads : Entry → Bool
  | .upload .. => true
  | .commonPrefix _ => true
  | _ => false

/-- The elements in the element of an entry. -/
def fields (encode : Text → Text) : Entry → List (Text × Text)
  | .key name size => [("Key".toList, encode name), ("Size".toList, decimal size)]
  | .version name id size =>
      [("Key".toList, encode name), ("VersionId".toList, id),
        ("IsLatest".toList, "true".toList), ("Size".toList, decimal size)]
  | .deleteMarker name id =>
      [("Key".toList, encode name), ("VersionId".toList, id)]
  | .upload name id => [("Key".toList, encode name), ("UploadId".toList, id)]
  | .commonPrefix name => [("Prefix".toList, encode name)]

/-- The element of an entry. -/
def element (encode : Text → Text) (entry : Entry) : Node :=
  .element entry.tag ((entry.fields encode).map fun field => .leaf field.1 field.2)

/-- The entry as it is listed. -/
def listed (encode : Text → Text) (entry : Entry) : Listed where
  cls := entry.cls
  name := some (encode entry.name)
  id := entry.id

end Entry

/-- The entries of a listing of some kind. -/
abbrev EntryOf (kind : Entry → Bool) := { entry : Entry // kind entry = true }

/-- A listing of keys, where a name is a marker. -/
abbrev KeyListing := Listing fun entry : EntryOf Entry.isOfKeys => entry.1.name

/-- A listing of entries that also have ids, where a name and an id are a marker. -/
abbrev MarkedListing (kind : Entry → Bool) :=
  Listing fun entry : EntryOf kind => (entry.1.name, entry.1.id.getD [])

/-- How names are written in answers: as they are, or as `quote_plus` writes their
UTF-8 form. -/
def encodeName (encodingType : Text) (name : Text) : Text :=
  if encodingType = "url".toList then PercentEncoding.quotePlus (encodeUtf8 name)
  else name

/-- `true` or `false`. -/
def boolText (value : Bool) : Text :=
  if value then "true".toList else "false".toList

/-- A field that an answer may have. -/
def optionalField (name : Text) (value : Option Text) : List (Text × Text) :=
  (value.map fun value => (name, value)).toList

/-- An answer with some entries of a listing. -/
def answer (root : Text) (fields : List (Text × Text)) (encode : Text → Text)
    (page : List Entry) : Node :=
  .element root
    (fields.map (fun field => .leaf field.1 field.2) ++ page.map (Entry.element encode))

/-- A service that lists keys and common prefixes.  Page `i` has at most `sizes i + 1`
entries, and the next marker is given if there are more and there is a delimiter. -/
def answerKeys (listing : Text → Text → KeyListing) (sizes : ℕ → ℕ) : Server :=
  fun i query =>
    let pre := queryParam "prefix".toList query
    let delimiter := queryParam "delimiter".toList query
    let marker := queryParam "marker".toList query
    let encode := encodeName (queryParam "encoding-type".toList query)
    let entries := ((listing pre delimiter).after marker).map Subtype.val
    let page := entries.take (sizes i + 1)
    let truncated := decide (sizes i + 1 < entries.length)
    let nextMarker := page.getLast?.bind fun last =>
      if truncated && !delimiter.isEmpty then some (encode last.name) else none
    answer "ListBucketResult".toList
      ([("Prefix".toList, encode pre), ("Marker".toList, encode marker)] ++
        optionalField "NextMarker".toList nextMarker ++
        [("IsTruncated".toList, boolText truncated)]) encode page

/-- A service that lists entries which also have ids.  If there are more, the next
markers are given, the one for the id if the last entry has one. -/
def answerMarked (root idName nextIdName : Text) {kind : Entry → Bool}
    (listing : Text → Text → MarkedListing kind) (sizes : ℕ → ℕ) : Server :=
  fun i query =>
    let pre := queryParam "prefix".toList query
    let delimiter := queryParam "delimiter".toList query
    let keyMarker := queryParam "key-marker".toList query
    let idMarker := queryParam idName query
    let encode := encodeName (queryParam "encoding-type".toList query)
    let entries :=
      ((listing pre delimiter).after (keyMarker, idMarker)).map Subtype.val
    let page := entries.take (sizes i + 1)
    let truncated := decide (sizes i + 1 < entries.length)
    let nextKeyMarker := page.getLast?.bind fun last =>
      if truncated then some (encode last.name) else none
    let nextIdMarker := page.getLast?.bind fun last =>
      if truncated then last.id else none
    answer root
      ([("Prefix".toList, encode pre), ("KeyMarker".toList, encode keyMarker)] ++
        optionalField "NextKeyMarker".toList nextKeyMarker ++
        optionalField nextIdName nextIdMarker ++
        [("IsTruncated".toList, boolText truncated)]) encode page

/-- A service that lists versions, delete markers and common prefixes. -/
def answerVersions (listing : Text → Text → MarkedListing Entry.isOfVersions)
    (sizes : ℕ → ℕ) : Server :=
  answerMarked "ListVersionsResult".toList "version-id-marker".toList
    "NextVersionIdMarker".toList listing sizes

/-- A service that lists multipart uploads. -/
def answerUploads (listing : Text → Text → MarkedListing Entry.isOfUploads)
    (sizes : ℕ → ℕ) : Server :=
  answerMarked "ListMultipartUploadsResult".toList "upload-id-marker".toList
    "NextUploadIdMarker".toList listing sizes

end Boto.S3
