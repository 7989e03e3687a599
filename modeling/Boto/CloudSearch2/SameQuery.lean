import Boto.Auth.AuthorizeTwice
import Boto.CloudSearch2.Query
import Mathlib.Data.List.Perm.Basic

/-!
# Signed and unsigned queries

A signed query carries its parameters in the body of a `POST`, an unsigned one in its URL,
and a service reads both as a form.  The two agree when a query is asked, and neither
expressions, facets nor highlights are: the signed path sends each of these dictionaries
as one parameter, and a query that is not given as an empty one.
-/

namespace Boto.Auth

/-! ## Forms -/

/-- The pairs that a service reads from a form. -/
def formPairs (form : Text) : List (Bytes × Bytes) :=
  servedPairs (PercentEncoding.plusToSpace form)

/-- The pairs in the body of a request. -/
def bodyPairs : Data → List (Bytes × Bytes)
  | .text form => formPairs form
  | .bytes form => formPairs (PercentEncoding.decode form)

theorem plusToSpace_eq_self {text : Text} (hplus : '+' ∉ text) :
    PercentEncoding.plusToSpace text = text := by
  refine (List.map_congr_left fun c hc => if_neg fun heq => ?_).trans (List.map_id text)
  exact hplus (heq ▸ hc)

theorem plusToSpace_join (fields : List Text) :
    PercentEncoding.plusToSpace (join '&' fields) =
      join '&' (fields.map PercentEncoding.plusToSpace) := by
  induction fields with
  | nil => rfl
  | cons field fields ih =>
      by_cases hempty : fields = []
      · subst hempty
        simp [join]
      · rw [List.map_cons, join_cons_of_ne_nil hempty, join_cons_of_ne_nil (by simpa), ← ih]
        simp [PercentEncoding.plusToSpace]

theorem plus_notMem_quote {safe : List Char} (hsafe : '+' ∉ safe) (bytes : Bytes) :
    '+' ∉ PercentEncoding.quote safe bytes := by
  intro hin
  rcases PercentEncoding.mem_quote hin with hin | hin
  · exact hsafe hin
  · revert hin
    rw [PercentEncoding.IsQuoted]
    decide

/-- The pairs of a form in which a space may be written as a plus. -/
theorem formPairs_join {safe safe' : List Char} {write write' : Bytes → Text}
    (hsafe : '&' ∉ safe ∧ '=' ∉ safe) (hsafe' : '&' ∉ safe' ∧ '=' ∉ safe')
    (hpercent : '%' ∉ safe) (hpercent' : '%' ∉ safe')
    (hwrite : ∀ bytes, PercentEncoding.plusToSpace (write bytes) =
      PercentEncoding.quote safe bytes)
    (hwrite' : ∀ bytes, PercentEncoding.plusToSpace (write' bytes) =
      PercentEncoding.quote safe' bytes) (pairs : List (Bytes × Bytes)) :
    formPairs (join '&' (pairs.map fun pair => write pair.1 ++ '=' :: write' pair.2)) =
      pairs := by
  have hfields : (pairs.map fun pair => write pair.1 ++ '=' :: write' pair.2).map
      PercentEncoding.plusToSpace = pairs.map fun pair =>
        PercentEncoding.quote safe pair.1 ++ '=' :: PercentEncoding.quote safe' pair.2 := by
    rw [List.map_map]
    refine List.map_congr_left fun pair _ => ?_
    rw [← hwrite, ← hwrite']
    simp [PercentEncoding.plusToSpace]
  rw [formPairs, plusToSpace_join, hfields, servedPairs_join hsafe hsafe' hpercent hpercent']

/-! ## The body of a signed request -/

theorem body_of_signRequest {library : Library} {methods : V4Methods}
    {self : HmacAuthV4Handler} {req signed : HTTPRequest}
    (hsign : HmacAuthV4Handler.signRequest library methods self req = .ok signed) :
    signed.body = req.body := by
  obtain ⟨canonical, -, hsign⟩ := except_bind_eq_ok.mp hsign
  obtain ⟨⟨toSign, dated⟩, hdated, hsign⟩ := except_bind_eq_ok.mp hsign
  obtain ⟨headers, -, hsign⟩ := except_bind_eq_ok.mp hsign
  cases hsign
  obtain ⟨date, -, hdated⟩ := except_bind_eq_ok.mp hdated
  obtain ⟨⟨scope, _⟩, hscope, hdated⟩ := except_bind_eq_ok.mp hdated
  cases hdated
  obtain ⟨date', -, hscope⟩ := except_bind_eq_ok.mp hscope
  obtain ⟨region, -, hscope⟩ := except_bind_eq_ok.mp hscope
  cases hscope
  rfl

/-- The general handler sends the parameters of a `POST` in its body. -/
theorem bodyPairs_addAuth {library : Library} {clock : Clock} {methods : V4Methods}
    {self : HmacAuthV4Handler} {req sent : HTTPRequest} (hmethod : req.method = "POST".toList)
    (hparams : TextParams req.params) (hne : req.params.items ≠ [])
    (hsent : HmacAuthV4Handler.addAuth library clock methods self req none = .ok sent) :
    bodyPairs sent.body =
      (sortedBy Prod.fst (paramTexts library req.params)).map encodeTexts := by
  obtain ⟨qs, hqs, hsent⟩ := except_bind_eq_ok.mp hsent
  obtain ⟨qsToPost, hpost, hsent⟩ := except_bind_eq_ok.mp hsent
  cases hpost
  rw [HmacAuthV4Handler.queryString, queryPairs_eq hparams.getUtf8ableStr,
    Except.ok.injEq] at hqs
  have hread := @formPairs_join [] "-_~".toList (PercentEncoding.quote [])
    (PercentEncoding.quote "-_~".toList) (by decide) (by decide) (by decide) (by decide)
    (fun bytes => plusToSpace_eq_self (plus_notMem_quote (by decide) bytes))
    (fun bytes => plusToSpace_eq_self (plus_notMem_quote (by decide) bytes))
    ((sortedBy Prod.fst (paramTexts library req.params)).map encodeTexts)
  rw [List.map_map] at hread
  have hpairs : formPairs qs =
      (sortedBy Prod.fst (paramTexts library req.params)).map encodeTexts := by
    rw [← hqs]
    exact hread
  have hqs' : qs ≠ [] := by
    rintro rfl
    have hempty := (List.map_eq_nil_iff.mp hpairs.symm)
    have hlength := (sortedBy_perm Prod.fst (paramTexts library req.params)).length_eq
    rw [hempty, paramTexts, List.length_map] at hlength
    exact hne (List.eq_nil_of_length_eq_zero hlength.symm)
  rw [body_of_signRequest hsent, HmacAuthV4Handler.placeQuery, if_pos ⟨hqs', hmethod⟩]
  exact hpairs

end Boto.Auth

namespace Boto.CloudSearch2

open Auth (Library bodyPairs encodeTexts formPairs)

/-! ## Unsigned queries -/

/-- The pairs that `requests` sends for parameters. -/
def textPairs (params : OrderedDict Text QueryValue) : List (Bytes × Bytes) :=
  params.items.map fun item => encodeTexts (item.1, item.2.str)

/-- The query that `requests` makes of parameters is read as their names and texts. -/
def SendsParams (session : OrderedDict Text QueryValue → Text) : Prop :=
  ∀ params, formPairs (session params) = textPairs params

/-- `urllib.parse.quote_plus`. -/
def quotePlus (bytes : Bytes) : Text :=
  (PercentEncoding.quote [' '] bytes).map fun c => if c = ' ' then '+' else c

/-- `urllib.parse.urlencode`. -/
def urlencode (params : OrderedDict Text QueryValue) : Text :=
  join '&' ((textPairs params).map fun pair => quotePlus pair.1 ++ '=' :: quotePlus pair.2)

theorem plusToSpace_quotePlus (bytes : Bytes) :
    PercentEncoding.plusToSpace (quotePlus bytes) = PercentEncoding.quote [' '] bytes := by
  rw [quotePlus, PercentEncoding.plusToSpace, List.map_map]
  refine (List.map_congr_left fun c hc => ?_).trans (List.map_id _)
  have hplus : c ≠ '+' := fun heq => Auth.plus_notMem_quote (by decide) bytes (heq ▸ hc)
  by_cases hspace : c = ' '
  · simp [hspace]
  · simp [hspace, hplus]

theorem sendsParams_urlencode : SendsParams urlencode := fun params =>
  @Auth.formPairs_join [' '] [' '] quotePlus quotePlus (by decide) (by decide) (by decide)
    (by decide) plusToSpace_quotePlus plusToSpace_quotePlus (textPairs params)

/-! ## Parameters -/

/-- Parameters with those of some fields that are given. -/
def setAll {ν : Type} (fields : List (String × Option ν)) (params : OrderedDict Text ν) :
    OrderedDict Text ν :=
  fields.foldl (fun params field => setSome field.1 field.2 params) params

/-- The names of fields. -/
def fieldNames {ν : Type} (fields : List (String × Option ν)) : List Text :=
  fields.map fun field => field.1.toList

section

variable {ν : Type} {name : Text} {fields fields' : List (String × Option ν)}

theorem get?_setSome {field : String} {value : Option ν} {params : OrderedDict Text ν} :
    (setSome field value params).get? name =
      if name = field.toList then value.or (params.get? name) else params.get? name := by
  cases value with
  | none => simp [setSome]
  | some value => simp [setSome]

theorem get?_setAll_of_notMem (hname : name ∉ fieldNames fields) (params : OrderedDict Text ν) :
    (setAll fields params).get? name = params.get? name := by
  induction fields generalizing params with
  | nil => rfl
  | cons field fields ih =>
      obtain ⟨hfield, hrest⟩ := not_or.mp fun hor => hname (List.mem_cons.mpr hor)
      rw [setAll, List.foldl_cons]
      exact (ih hrest _).trans (by rw [get?_setSome, if_neg hfield])

theorem get?_setAll_of_mem {field : String} {value : Option ν}
    (hnodup : (fieldNames fields).Nodup) (hfield : (field, value) ∈ fields)
    (params : OrderedDict Text ν) :
    (setAll fields params).get? field.toList = value.or (params.get? field.toList) := by
  induction fields generalizing params with
  | nil => cases hfield
  | cons first fields ih =>
      obtain ⟨hfirst, hrest⟩ := List.nodup_cons.mp hnodup
      rw [setAll, List.foldl_cons]
      rcases List.mem_cons.mp hfield with rfl | hlater
      · exact (get?_setAll_of_notMem hfirst _).trans (by rw [get?_setSome, if_pos rfl])
      · refine (ih hrest hlater _).trans ?_
        have hne : field.toList ≠ first.1.toList := fun heq =>
          hfirst (List.mem_map.mpr ⟨_, hlater, heq⟩)
        rw [get?_setSome, if_neg hne]

/-- A lookup depends on the same lookup before the fields are set. -/
theorem get?_setAll_eq {params params' : OrderedDict Text ν}
    (hget : params.get? name = params'.get? name) :
    (setAll fields params).get? name = (setAll fields params').get? name := by
  induction fields generalizing params params' with
  | nil => exact hget
  | cons field fields ih =>
      rw [setAll, setAll, List.foldl_cons, List.foldl_cons]
      exact ih (by rw [get?_setSome, get?_setSome, hget])

/-- Fields that are given in another order make the same lookups. -/
theorem get?_setAll_congr (hnodup : (fieldNames fields).Nodup)
    (hnodup' : (fieldNames fields').Nodup)
    (hkept : ∀ field ∈ fields, field.2 = none ∨ field ∈ fields')
    (hkept' : ∀ field ∈ fields', field.2 = none ∨ field ∈ fields) (name : Text) :
    (setAll fields .empty).get? name = (setAll fields' .empty).get? name := by
  have hnone : ∀ fields : List (String × Option ν), (fieldNames fields).Nodup →
      (∀ field ∈ fields, name = field.1.toList → field.2 = none) →
        (setAll fields .empty).get? name = none := by
    intro fields hnodup hall
    by_cases hin : name ∈ fieldNames fields
    · obtain ⟨field, hfield, rfl⟩ := List.mem_map.mp hin
      rw [get?_setAll_of_mem hnodup hfield, hall field hfield rfl]
      rfl
    · exact get?_setAll_of_notMem hin _
  by_cases hin : ∃ field ∈ fields, name = field.1.toList ∧ field ∈ fields'
  · obtain ⟨field, hfield, rfl, hfield'⟩ := hin
    rw [get?_setAll_of_mem hnodup hfield, get?_setAll_of_mem hnodup' hfield']
  · rw [hnone fields hnodup, hnone fields' hnodup']
    · exact fun field hfield heq => (hkept' field hfield).resolve_right fun hfield' =>
        hin ⟨field, hfield', heq, hfield⟩
    · exact fun field hfield heq => (hkept field hfield).resolve_right fun hfield' =>
        hin ⟨field, hfield, heq, hfield'⟩

/-- Fields with other values. -/
def mapFields {μ : Type} (f : ν → μ) (fields : List (String × Option ν)) :
    List (String × Option μ) :=
  fields.map fun field => (field.1, field.2.map f)

theorem fieldNames_mapFields {μ : Type} (f : ν → μ) :
    fieldNames (mapFields f fields) = fieldNames fields := by
  rw [fieldNames, mapFields, List.map_map]
  rfl

theorem get?_setAll_mapFields {μ : Type} {f : ν → μ} {params : OrderedDict Text ν}
    {params' : OrderedDict Text μ} (hget : (params.get? name).map f = params'.get? name) :
    ((setAll fields params).get? name).map f =
      (setAll (mapFields f fields) params').get? name := by
  induction fields generalizing params params' with
  | nil => exact hget
  | cons field fields ih =>
      rw [mapFields, List.map_cons, setAll, setAll, List.foldl_cons, List.foldl_cons]
      refine ih ?_
      rw [get?_setSome, get?_setSome]
      split
      · rw [← hget]
        cases field.2 <;> rfl
      · exact hget

theorem get?_setAll_empty_mapFields {μ : Type} {f : ν → μ} :
    ((setAll fields .empty).get? name).map f =
      (setAll (mapFields f fields) .empty).get? name :=
  get?_setAll_mapFields rfl

/-- Dictionaries have the same items exactly when their lookups agree. -/
theorem items_perm_iff {d other : OrderedDict Text ν} :
    d.items.Perm other.items ↔ ∀ name, d.get? name = other.get? name := by
  rw [List.perm_ext_iff_of_nodup d.nodup.of_map other.nodup.of_map]
  constructor
  · intro hitems name
    apply Option.ext
    intro value
    rw [OrderedDict.get?_eq_some_iff, OrderedDict.get?_eq_some_iff]
    exact hitems (name, value)
  · rintro hget ⟨name, value⟩
    rw [← OrderedDict.get?_eq_some_iff, ← OrderedDict.get?_eq_some_iff, hget]

end

/-! ## The parameters of a signed search -/

variable {σ : Type} {dumps : σ → Text} {query : Query σ} {library : Library}

/-- The fields of `to_domain_connection_params`. -/
def domainFields (dumps : σ → Text) (query : Query σ) : List (String × Option Argument) :=
  let text := fun value : Text => Argument.scalar (.text value)
  [("start", some (.scalar (.int query.start))),
    ("size", some (.scalar (.int query.realSize))),
    ("q", (given? query.q).map text),
    ("query_parser", (given? query.parser).map text),
    ("filter_query", (given? query.fq).map text),
    ("expr", Query.prefixed? "expr." query.expr),
    ("facet", Query.prefixed? "facet." (query.facet.mapValues (Query.facetText dumps))),
    ("highlight", Query.prefixed? "highlight." query.highlight),
    ("query_options", (given? query.options).map text),
    ("ret", (Query.joined? query.returnFields).map text),
    ("partial", query.partialFlag.map fun flag => .scalar (.flag flag)),
    ("sort", (Query.joined? query.sort).map text)]

/-- The fields that a signed search sends. -/
def signedFields (dumps : σ → Text) (query : Query σ) : List (String × Option Argument) :=
  let text := fun value : Text => Argument.scalar (.text value)
  [("cursor", none),
    ("expr", Query.prefixed? "expr." query.expr),
    ("facet", Query.prefixed? "facet." (query.facet.mapValues (Query.facetText dumps))),
    ("fq", (given? query.fq).map text),
    ("highlight", Query.prefixed? "highlight." query.highlight),
    ("partial", query.partialFlag.map fun flag => .scalar (.flag flag)),
    ("q", some (text ((given? query.q).getD []))),
    ("q.options", (given? query.options).map text),
    ("q.parser", (given? query.parser).map text),
    ("return", (Query.joined? query.returnFields).map text),
    ("size", some (.scalar (.int query.realSize))),
    ("sort", (Query.joined? query.sort).map text),
    ("start", some (.scalar (.int query.start)))]

/-- The parameters of a signed search. -/
def signedParams (dumps : σ → Text) (query : Query σ) : OrderedDict Text Argument :=
  let params := query.toDomainConnectionParams dumps
  CloudSearchDomainConnection.queryParams
    (some ((params.get? "q".toList).getD (.scalar (.text []))))
    (keywordArguments (params.erase "q".toList))

theorem fieldNames_domainFields : fieldNames (domainFields dumps query) =
    ["start", "size", "q", "query_parser", "filter_query", "expr", "facet", "highlight",
      "query_options", "ret", "partial", "sort"].map String.toList := rfl

theorem fieldNames_signedFields : fieldNames (signedFields dumps query) =
    ["cursor", "expr", "facet", "fq", "highlight", "partial", "q", "q.options", "q.parser",
      "return", "size", "sort", "start"].map String.toList := rfl

theorem nodup_domainFields : (fieldNames (domainFields dumps query)).Nodup := by
  rw [fieldNames_domainFields]
  decide

theorem nodup_signedFields : (fieldNames (signedFields dumps query)).Nodup := by
  rw [fieldNames_signedFields]
  decide

theorem get?_domainParams {field : String} {value : Option Argument}
    (hfield : (field, value) ∈ domainFields dumps query) :
    (query.toDomainConnectionParams dumps).get? field.toList = value := by
  have hget := get?_setAll_of_mem nodup_domainFields hfield OrderedDict.empty
  rw [OrderedDict.get?_empty, Option.or_none] at hget
  exact hget

/-- A keyword argument of the call of `search`. -/
theorem get?_keyword {field : String} {value : Option Argument}
    (hfield : (field, value) ∈ domainFields dumps query) (hq : field.toList ≠ "q".toList) :
    ((query.toDomainConnectionParams dumps).erase "q".toList).get? field.toList = value := by
  rw [OrderedDict.get?_erase, if_neg hq]
  exact get?_domainParams hfield

theorem keywordArguments_domainParams :
    keywordArguments ((query.toDomainConnectionParams dumps).erase "q".toList) =
      let text := fun value : Text => Argument.scalar (.text value)
      { cursor := none
        expr := Query.prefixed? "expr." query.expr
        facet := Query.prefixed? "facet." (query.facet.mapValues (Query.facetText dumps))
        filterQuery := (given? query.fq).map text
        highlight := Query.prefixed? "highlight." query.highlight
        partialFlag := query.partialFlag.map fun flag => .scalar (.flag flag)
        queryOptions := (given? query.options).map text
        queryParser := (given? query.parser).map text
        ret := (Query.joined? query.returnFields).map text
        size := some (.scalar (.int query.realSize))
        sort := (Query.joined? query.sort).map text
        start := some (.scalar (.int query.start)) } := by
  have hcursor : "cursor".toList ∉ fieldNames (domainFields dumps query) := by
    rw [fieldNames_domainFields]
    decide
  rw [keywordArguments, CloudSearchDomainConnection.SearchArguments.mk.injEq]
  refine ⟨?_, ?_, ?_, ?_, ?_, ?_, ?_, ?_, ?_, ?_, ?_, ?_⟩
  · rw [OrderedDict.get?_erase, if_neg (by decide)]
    exact get?_setAll_of_notMem hcursor _
  all_goals exact get?_keyword (by simp [domainFields]) (by decide)

theorem signedParams_eq :
    signedParams dumps query = setAll (signedFields dumps query) .empty := by
  have hq : ((query.toDomainConnectionParams dumps).get? "q".toList).getD (.scalar (.text [])) =
      .scalar (.text ((given? query.q).getD [])) := by
    rw [@get?_domainParams _ _ _ "q" ((given? query.q).map fun value => .scalar (.text value))
      (by simp [domainFields])]
    cases given? query.q <;> rfl
  rw [signedParams, keywordArguments_domainParams, hq]
  rfl

/-! ## The parameters of an unsigned search -/

/-- The fields of `to_params` before the dictionaries. -/
def firstFields (query : Query σ) : List (String × Option QueryValue) :=
  [("start", some (.int query.start)),
    ("size", some (.int query.realSize)),
    ("q", (given? query.q).map .text),
    ("q.parser", (given? query.parser).map .text),
    ("fq", (given? query.fq).map .text)]

/-- The fields of `to_params` after the dictionaries. -/
def lastFields (query : Query σ) : List (String × Option QueryValue) :=
  [("q.options", (given? query.options).map .text),
    ("return", (Query.joined? query.returnFields).map .text),
    ("partial", query.partialFlag.map .flag),
    ("sort", (Query.joined? query.sort).map .text)]

/-- The fields that every unsigned search sends. -/
def unsignedFields (query : Query σ) : List (String × Option QueryValue) :=
  firstFields query ++ lastFields query

theorem fieldNames_unsignedFields : fieldNames (unsignedFields query) =
    ["start", "size", "q", "q.parser", "fq", "q.options", "return", "partial", "sort"].map
      String.toList := rfl

theorem nodup_unsignedFields : (fieldNames (unsignedFields query)).Nodup := by
  rw [fieldNames_unsignedFields]
  decide

theorem get?_setPrefixed {pre : String} {items : OrderedDict Text Text} {name : Text}
    (hname : ¬pre.toList <+: name) (params : OrderedDict Text QueryValue) :
    (Query.setPrefixed pre items params).get? name = params.get? name := by
  obtain ⟨items, hnodup⟩ := items
  dsimp only [Query.setPrefixed]
  clear hnodup
  induction items generalizing params with
  | nil => rfl
  | cons item items ih =>
      rw [List.foldl_cons, ih, OrderedDict.get?_set, if_neg]
      rintro rfl
      exact hname (List.prefix_append _ _)

/-- The other lookups among the parameters of an unsigned search. -/
theorem get?_toParams {name : Text} (hexpr : ¬"expr.".toList <+: name)
    (hfacet : ¬"facet.".toList <+: name) (hhighlight : ¬"highlight.".toList <+: name) :
    (query.toParams dumps).get? name = (setAll (unsignedFields query) .empty).get? name := by
  have hlast := @get?_setAll_eq _ name (lastFields query)
    (Query.setPrefixed "highlight." query.highlight
      (Query.setPrefixed "facet." (query.facet.mapValues (Query.facetText dumps))
        (Query.setPrefixed "expr." query.expr (setAll (firstFields query) .empty))))
    (setAll (firstFields query) .empty)
  rw [unsignedFields, setAll, List.foldl_append]
  refine hlast ?_
  rw [get?_setPrefixed hhighlight, get?_setPrefixed hfacet, get?_setPrefixed hexpr]

/-- What a signed search sends of an argument. -/
def argumentText (library : Library) : Argument → Text
  | .scalar value => value.str
  | .dict items => strDict library items

/-- The condition under which a signed query asks what the unsigned one asks. -/
structure Query.IsPlain (query : Query σ) : Prop where
  q : given? query.q ≠ none
  expr : query.expr.items = []
  facet : query.facet.items = []
  highlight : query.highlight.items = []

/-- A name that only signed searches have. -/
theorem prefixed_empty_of_same {name pre : String} {items : OrderedDict Text Text}
    (hsigned : (name, Query.prefixed? pre items) ∈ signedFields dumps query)
    (hunsigned : name.toList ∉ fieldNames (unsignedFields query))
    (hexpr : ¬"expr.".toList <+: name.toList) (hfacet : ¬"facet.".toList <+: name.toList)
    (hhighlight : ¬"highlight.".toList <+: name.toList)
    (hsame : ((signedParams dumps query).get? name.toList).map (argumentText library) =
      ((query.toParams dumps).get? name.toList).map QueryValue.str) : items.items = [] := by
  rw [signedParams_eq, get?_setAll_of_mem nodup_signedFields hsigned,
    get?_toParams hexpr hfacet hhighlight, get?_setAll_of_notMem hunsigned,
    OrderedDict.get?_empty, OrderedDict.get?_empty, Option.or_none, Option.map_none,
    Option.map_eq_none_iff, Query.prefixed?] at hsame
  split at hsame
  · assumption
  · cases hsame

theorem get?_toParams_of_isPlain (hplain : query.IsPlain) (name : Text) :
    (query.toParams dumps).get? name = (setAll (unsignedFields query) .empty).get? name := by
  have hfacet : (query.facet.mapValues (Query.facetText dumps)).items = [] :=
    congrArg (List.map _) hplain.facet
  have hprefixed : ∀ (pre : String) (items : OrderedDict Text Text)
      (params : OrderedDict Text QueryValue), items.items = [] →
        Query.setPrefixed pre items params = params := by
    intro pre items params hitems
    rw [Query.setPrefixed, hitems, List.foldl_nil]
  rw [Query.toParams, hprefixed _ _ _ hplain.expr, hprefixed _ _ _ hfacet,
    hprefixed _ _ _ hplain.highlight]
  rfl

/-- The two searches send the same names with the same texts exactly for plain queries. -/
theorem isPlain_iff : query.IsPlain ↔ ∀ name,
    ((signedParams dumps query).get? name).map (argumentText library) =
      ((query.toParams dumps).get? name).map QueryValue.str := by
  constructor
  · intro hplain name
    obtain ⟨q, hq⟩ := Option.ne_none_iff_exists'.mp hplain.q
    have hprefixed : ∀ (pre : String) (items : OrderedDict Text Text), items.items = [] →
        Query.prefixed? pre items = none := fun pre items hitems => if_pos hitems
    have hfacet : (query.facet.mapValues (Query.facetText dumps)).items = [] :=
      congrArg (List.map _) hplain.facet
    rw [signedParams_eq, get?_toParams_of_isPlain hplain,
      get?_setAll_empty_mapFields, get?_setAll_empty_mapFields]
    refine get?_setAll_congr ?_ ?_ ?_ ?_ name
    · rw [fieldNames_mapFields]
      exact nodup_signedFields
    · rw [fieldNames_mapFields]
      exact nodup_unsignedFields
    · simp [mapFields, signedFields, unsignedFields, firstFields, lastFields,
        hprefixed _ _ hplain.expr, hprefixed _ _ hfacet, hprefixed _ _ hplain.highlight, hq,
        argumentText, Function.comp_def]
    · simp [mapFields, signedFields, unsignedFields, firstFields, lastFields, hq,
        argumentText, Function.comp_def]
  · intro hsame
    have hnames : ∀ {name pre : String} {items : OrderedDict Text Text},
        (name, Query.prefixed? pre items) ∈ signedFields dumps query →
          name.toList ∈ ["expr".toList, "facet".toList, "highlight".toList] →
            items.items = [] := by
      intro name pre items hsigned hname
      refine prefixed_empty_of_same hsigned ?_ ?_ ?_ ?_ (hsame _)
      · rw [fieldNames_unsignedFields]
        revert hname
        generalize name.toList = text
        revert text
        decide
      all_goals
        revert hname
        generalize name.toList = text
        revert text
        decide
    refine ⟨fun hq => ?_, ?_, ?_, ?_⟩
    · have hsigned : ("q", some (Argument.scalar (.text ((given? query.q).getD [])))) ∈
          signedFields dumps query := by
        simp [signedFields]
      have hunsigned : ("q", (given? query.q).map QueryValue.text) ∈ unsignedFields query := by
        simp [unsignedFields, firstFields]
      have hname := hsame "q".toList
      rw [signedParams_eq, get?_toParams (by decide) (by decide) (by decide),
        get?_setAll_of_mem nodup_signedFields hsigned,
        get?_setAll_of_mem nodup_unsignedFields hunsigned, hq] at hname
      cases hname
    · exact @hnames "expr" "expr." _ (by simp [signedFields]) (by decide)
    · exact List.map_eq_nil_iff.mp (@hnames "facet" "facet."
        (query.facet.mapValues (Query.facetText dumps)) (by simp [signedFields]) (by decide))
    · exact @hnames "highlight" "highlight." _ (by simp [signedFields]) (by decide)

/-! ## What the service reads -/

theorem items_signedParams_ne_nil : (signedParams dumps query).items ≠ [] := by
  intro hitems
  have hsize : ("size", some (Argument.scalar (.int query.realSize))) ∈
      signedFields dumps query := by
    simp [signedFields]
  have hget := get?_setAll_of_mem nodup_signedFields hsize .empty
  rw [← signedParams_eq, OrderedDict.get?, hitems] at hget
  cases hget

theorem textParams_toParam (params : OrderedDict Text Argument) :
    Auth.TextParams (params.mapValues (Argument.toParam library)) := by
  intro item hitem
  obtain ⟨⟨name, argument⟩, -, rfl⟩ := List.mem_map.mp hitem
  cases argument with
  | scalar value => exact ⟨_, rfl⟩
  | dict items => exact ⟨_, rfl⟩

theorem paramTexts_toParam (params : OrderedDict Text Argument) :
    Auth.paramTexts library (params.mapValues (Argument.toParam library)) =
      (params.mapValues (argumentText library)).items := by
  rw [Auth.paramTexts, OrderedDict.mapValues, OrderedDict.mapValues, List.map_map]
  refine List.map_congr_left fun item _ => ?_
  obtain ⟨name, argument⟩ := item
  cases argument with
  | scalar value => rfl
  | dict items => rfl

/-- A signed search sends the texts of its parameters. -/
theorem bodyPairs_searchWithAuth {env : Auth.Environment}
    {connection : CloudSearchDomainConnection} {sent : Auth.HTTPRequest}
    (hsent : searchWithAuth env connection (query.toDomainConnectionParams dumps) = .ok sent) :
    (bodyPairs sent.body).Perm (((signedParams dumps query).mapValues
      (argumentText env.library)).items.map encodeTexts) := by
  obtain ⟨req, hreq, hsent⟩ := except_bind_eq_ok.mp hsent
  obtain ⟨authorized, hauth, hsent⟩ := except_bind_eq_ok.mp hsent
  obtain ⟨hmethod, hparams, -⟩ := Connection.RequestConnection.buildBaseHttpRequest_given hreq
  cases hsent
  have hbody : authorized.withLength.body = authorized.body := by
    rcases authorized.withLength_cases with heq | ⟨-, -, heq⟩ <;> rw [heq]
  have hquoted : (req.quoted env).params =
      (signedParams dumps query).mapValues (Argument.toParam env.library) := by
    rw [signedParams]
    exact hparams
  have hne : (req.quoted env).params.items ≠ [] := by
    rw [hquoted]
    exact fun hitems => items_signedParams_ne_nil (List.map_eq_nil_iff.mp hitems)
  have htext : Auth.TextParams (req.quoted env).params := by
    rw [hquoted]
    exact textParams_toParam _
  have hpost : (req.quoted env).method = "POST".toList := hmethod
  have hauth : connection.handler.addAuth env.library env.clock
    Auth.HmacAuthV4Handler.ownMethods (req.quoted env) none = .ok authorized := hauth
  rw [hbody, Auth.bodyPairs_addAuth hpost htext hne hauth, hquoted, paramTexts_toParam]
  exact (sortedBy_perm _ _).map _

/-- The service reads the same pairs from a signed search as from an unsigned one exactly
for plain queries. -/
theorem searches_same_iff {session : OrderedDict Text QueryValue → Text}
    (hsession : SendsParams session) {env : Auth.Environment}
    {connection : CloudSearchDomainConnection} {sent : Auth.HTTPRequest}
    (hsent : searchWithAuth env connection (query.toDomainConnectionParams dumps) = .ok sent) :
    (bodyPairs sent.body).Perm (formPairs (session (query.toParams dumps))) ↔
      query.IsPlain := by
  have hunsigned : textPairs (query.toParams dumps) =
      ((query.toParams dumps).mapValues QueryValue.str).items.map encodeTexts := by
    rw [textPairs, OrderedDict.mapValues, List.map_map]
    rfl
  rw [hsession, hunsigned, (bodyPairs_searchWithAuth hsent).congr_left,
    List.map_perm_map_iff Auth.encodeTexts_injective, items_perm_iff,
    @isPlain_iff _ dumps _ env.library]
  refine forall_congr' fun name => ?_
  rw [OrderedDict.get?_mapValues, OrderedDict.get?_mapValues]

/-- A search for a text, with expressions. -/
def searchFor (q : String) (expr : OrderedDict Text Text) : Query Text where
  q := some q.toList
  parser := none
  fq := none
  expr := expr
  sort := []
  returnFields := []
  start := 0
  size := 10
  facet := .empty
  highlight := .empty
  partialFlag := none
  options := none

/-- A connection to a domain without a proxy. -/
def plainConnection : CloudSearchDomainConnection where
  isSecure := false
  useProxy := false
  proxy := []
  proxyPort := 0
  noProxy := []
  hasConnectionFactory := false
  protocol := "http".toList
  host := "search".toList
  port := 80
  path := ['/']
  suppressConsecSlashes := true
  hostHeader := none
  proxyUser := []
  proxyPass := []
  handler := Auth.HmacAuthV4Handler.plainHandler

/-- A search that is signed. -/
theorem exists_searchWithAuth {query : Query Text}
    (hok : (searchWithAuth Auth.zeroEnvironment plainConnection
      (query.toDomainConnectionParams id)).toOption.isSome = true) :
    ∃ sent, searchWithAuth Auth.zeroEnvironment plainConnection
      (query.toDomainConnectionParams id) = .ok sent := by
  cases hsent : searchWithAuth Auth.zeroEnvironment plainConnection
      (query.toDomainConnectionParams id) with
  | error error =>
      rw [hsent] at hok
      cases hok
  | ok sent => exact ⟨sent, rfl⟩

theorem searches_same_plain : ∃ sent,
    searchWithAuth Auth.zeroEnvironment plainConnection
      ((searchFor "cats" .empty).toDomainConnectionParams id) = .ok sent ∧
    (bodyPairs sent.body).Perm
      (formPairs (urlencode ((searchFor "cats" .empty).toParams id))) := by
  obtain ⟨sent, hsent⟩ := @exists_searchWithAuth (searchFor "cats" .empty) (by decide +kernel)
  refine ⟨sent, hsent, (searches_same_iff sendsParams_urlencode hsent).mpr ⟨?_, ?_, ?_, ?_⟩⟩
  · decide
  all_goals rfl

/-- A query with an expression asks something else when it is signed. -/
theorem searches_differ : ¬∀ (σ : Type) (dumps : σ → Text) (query : Query σ)
    (session : OrderedDict Text QueryValue → Text) (env : Auth.Environment)
    (connection : CloudSearchDomainConnection) (sent : Auth.HTTPRequest), SendsParams session →
      searchWithAuth env connection (query.toDomainConnectionParams dumps) = .ok sent →
        (bodyPairs sent.body).Perm (formPairs (session (query.toParams dumps))) := by
  intro hclaim
  obtain ⟨sent, hsent⟩ := @exists_searchWithAuth
    (searchFor "cats" (OrderedDict.empty.set "rank1".toList "_score".toList))
    (by decide +kernel)
  have hsame := hclaim _ _ _ _ _ _ _ sendsParams_urlencode hsent
  have hplain := (searches_same_iff sendsParams_urlencode hsent).mp hsame
  cases hplain.expr

end Boto.CloudSearch2
