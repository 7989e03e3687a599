import Boto.Connection.BuildRequest

/-!
# Search queries

`Query` of `boto/cloudsearch2/search.py` with its two translations, and `search` of
`boto/cloudsearchdomain/layer1.py`, as Python 3 runs them.
-/

namespace Boto.CloudSearch2

open Auth (AuthError HTTPRequest Library ParamValue reprText strInt)
open Connection (RequestConnection)

/-! ## Queries -/

/-- The options of a facet: a text, or a value that `json.dumps` writes. -/
inductive FacetOptions (σ : Type)
  | text (options : Text)
  | structured (options : σ)

/-- `Query`: what is not given is `None`, `{}` or `[]`. -/
structure Query (σ : Type) where
  q : Option Text
  parser : Option Text
  fq : Option Text
  expr : OrderedDict Text Text
  sort : List Text
  returnFields : List Text
  start : ℤ
  size : ℤ
  facet : OrderedDict Text (FacetOptions σ)
  highlight : OrderedDict Text Text
  partialFlag : Option Bool
  options : Option Text

/-- A value of a search parameter. -/
inductive QueryValue
  | text (value : Text)
  | int (value : ℤ)
  | flag (value : Bool)

/-- `str(value)`. -/
def QueryValue.str : QueryValue → Text
  | .text value => value
  | .int value => strInt value
  | .flag value => (if value then "True" else "False").toList

/-- An argument of `CloudSearchDomainConnection.search`. -/
inductive Argument
  | scalar (value : QueryValue)
  | dict (items : OrderedDict Text Text)

/-- `str(items)` of a dictionary. -/
def strDict (library : Library) (items : OrderedDict Text Text) : Text :=
  '\x7b' :: ([',', ' '].intercalate (items.items.map fun item =>
    reprText library.isPrintable item.1 ++ ':' :: ' ' :: reprText library.isPrintable item.2)
      ++ ['\x7d'])

/-- An argument as a parameter, which signing writes as `str` does. -/
def Argument.toParam (library : Library) : Argument → ParamValue
  | .scalar value => .text value.str
  | .dict items => .text (strDict library items)

/-- The text of an option that is true. -/
def given? (option : Option Text) : Option Text :=
  option.filter fun text => !text.isEmpty

/-- A parameter that is set if it is given. -/
def setSome {ν : Type} (name : String) (value : Option ν) (params : OrderedDict Text ν) :
    OrderedDict Text ν :=
  match value with
  | some value => params.set name.toList value
  | none => params

namespace Query

variable {σ : Type} (dumps : σ → Text) (self : Query σ)

/-- `RESULTS_PER_PAGE`. -/
def resultsPerPage : ℤ := 500

/-- `real_size`. -/
def realSize : ℤ :=
  if resultsPerPage < self.size ∨ self.size = 0 then resultsPerPage else self.size

/-- `','.join(names)`, unless there are none. -/
def joined? (names : List Text) : Option Text :=
  if names = [] then none else some (join ',' names)

/-- The options of a facet as they are sent. -/
def facetText : FacetOptions σ → Text
  | .text options => options
  | .structured options => dumps options

/-- The items of a dictionary, with a prefix before their names. -/
def prefixed (pre : String) (items : OrderedDict Text Text) (params : OrderedDict Text Text) :
    OrderedDict Text Text :=
  items.items.foldl (fun params item => params.set (pre.toList ++ item.1) item.2) params

/-- A dictionary whose names have a prefix, unless it is empty. -/
def prefixed? (pre : String) (items : OrderedDict Text Text) : Option Argument :=
  if items.items = [] then none else some (.dict (prefixed pre items .empty))

/-- The items of a dictionary as parameters of their own. -/
def setPrefixed (pre : String) (items : OrderedDict Text Text)
    (params : OrderedDict Text QueryValue) : OrderedDict Text QueryValue :=
  items.items.foldl (fun params item => params.set (pre.toList ++ item.1) (.text item.2)) params

/-- `to_params`. -/
def toParams : OrderedDict Text QueryValue :=
  let params := (OrderedDict.empty.set "start".toList (.int self.start)).set "size".toList
    (.int self.realSize)
  let params := setSome "q" ((given? self.q).map .text) params
  let params := setSome "q.parser" ((given? self.parser).map .text) params
  let params := setSome "fq" ((given? self.fq).map .text) params
  let params := setPrefixed "expr." self.expr params
  let params := setPrefixed "facet." (self.facet.mapValues (facetText dumps)) params
  let params := setPrefixed "highlight." self.highlight params
  let params := setSome "q.options" ((given? self.options).map .text) params
  let params := setSome "return" ((joined? self.returnFields).map .text) params
  let params := setSome "partial" (self.partialFlag.map .flag) params
  setSome "sort" ((joined? self.sort).map .text) params

/-- `to_domain_connection_params`. -/
def toDomainConnectionParams : OrderedDict Text Argument :=
  let text := fun value : Text => Argument.scalar (.text value)
  let params := (OrderedDict.empty.set "start".toList (.scalar (.int self.start))).set
    "size".toList (.scalar (.int self.realSize))
  let params := setSome "q" ((given? self.q).map text) params
  let params := setSome "query_parser" ((given? self.parser).map text) params
  let params := setSome "filter_query" ((given? self.fq).map text) params
  let params := setSome "expr" (prefixed? "expr." self.expr) params
  let params := setSome "facet"
    (prefixed? "facet." (self.facet.mapValues (facetText dumps))) params
  let params := setSome "highlight" (prefixed? "highlight." self.highlight) params
  let params := setSome "query_options" ((given? self.options).map text) params
  let params := setSome "ret" ((joined? self.returnFields).map text) params
  let params := setSome "partial" (self.partialFlag.map fun flag => .scalar (.flag flag)) params
  setSome "sort" ((joined? self.sort).map text) params

end Query

/-! ## Signed queries -/

/-- `CloudSearchDomainConnection`: a connection with the handler that signs for it. -/
structure CloudSearchDomainConnection extends RequestConnection where
  handler : Auth.HmacAuthV4Handler

namespace CloudSearchDomainConnection

variable (env : Auth.Environment) (self : CloudSearchDomainConnection)

/-- The arguments of `search` after the query. -/
structure SearchArguments where
  cursor : Option Argument
  expr : Option Argument
  facet : Option Argument
  filterQuery : Option Argument
  highlight : Option Argument
  partialFlag : Option Argument
  queryOptions : Option Argument
  queryParser : Option Argument
  ret : Option Argument
  size : Option Argument
  sort : Option Argument
  start : Option Argument

/-- The parameters that `search` sends. -/
def queryParams (query : Option Argument) (args : SearchArguments) :
    OrderedDict Text Argument :=
  let params := setSome "cursor" args.cursor .empty
  let params := setSome "expr" args.expr params
  let params := setSome "facet" args.facet params
  let params := setSome "fq" args.filterQuery params
  let params := setSome "highlight" args.highlight params
  let params := setSome "partial" args.partialFlag params
  let params := setSome "q" query params
  let params := setSome "q.options" args.queryOptions params
  let params := setSome "q.parser" args.queryParser params
  let params := setSome "return" args.ret params
  let params := setSome "size" args.size params
  let params := setSome "sort" args.sort params
  setSome "start" args.start params

/-- `search`, up to the request that is sent. -/
def search (query : Option Argument) (args : SearchArguments) : Except AuthError HTTPRequest := do
  let req ← self.buildBaseHttpRequest "POST".toList "/2013-01-01/search".toList none
    ((queryParams query args).mapValues (Argument.toParam env.library)) .empty
    (.text "\x7b\x7d".toList) []
  req.authorize env (.hmacAuthV4 self.handler)

end CloudSearchDomainConnection

/-- `**params`, as `search` takes them. -/
def keywordArguments (params : OrderedDict Text Argument) :
    CloudSearchDomainConnection.SearchArguments where
  cursor := params.get? "cursor".toList
  expr := params.get? "expr".toList
  facet := params.get? "facet".toList
  filterQuery := params.get? "filter_query".toList
  highlight := params.get? "highlight".toList
  partialFlag := params.get? "partial".toList
  queryOptions := params.get? "query_options".toList
  queryParser := params.get? "query_parser".toList
  ret := params.get? "ret".toList
  size := params.get? "size".toList
  sort := params.get? "sort".toList
  start := params.get? "start".toList

/-- `_search_with_auth`. -/
def searchWithAuth (env : Auth.Environment) (connection : CloudSearchDomainConnection)
    (params : OrderedDict Text Argument) : Except AuthError HTTPRequest :=
  connection.search env (some ((params.get? "q".toList).getD (.scalar (.text []))))
    (keywordArguments (params.erase "q".toList))

end Boto.CloudSearch2
