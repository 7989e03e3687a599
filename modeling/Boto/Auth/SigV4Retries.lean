import Boto.Auth.Retries

/-!
# Signing with version 4 again

The general handler signs only headers that it has set before.  The one for S3 signs
nearly all of them, so also the length that `authorize` adds after the first signature.
-/

namespace Boto.Auth

section

variable {library : Library} {clock : Clock} {methods : V4Methods}
  {handler : HmacAuthV4Handler} {req signed other : HTTPRequest}
  {headers : OrderedDict Text Data} {name : Text} {value : Data}

/-! ## Dates and tokens -/

/-- The headers of an attempt are there, and the one of another handler is not. -/
structure IsDatedV4 (clock : Clock) (handler : HmacAuthV4Handler)
    (headers : OrderedDict Text Data) : Prop where
  stale : headers.get? "X-Amzn-Authorization".toList = none
  date : headers.get? "X-Amz-Date".toList = some (.text clock.isoDate)
  token : ∀ token, handler.provider.token? = some token →
    headers.get? "X-Amz-Security-Token".toList = some (.text token)

theorem isDatedV4_datedHeaders :
    IsDatedV4 clock handler (HmacAuthV4Handler.datedHeaders clock handler req) := by
  rw [HmacAuthV4Handler.datedHeaders]
  cases htoken : handler.provider.token? with
  | none =>
      refine ⟨by simp, by simp, fun token heq => ?_⟩
      exact (Option.some_ne_none token (heq ▸ htoken)).elim
  | some token =>
      refine ⟨by simp, by simp, fun other heq => ?_⟩
      rw [htoken, Option.some.injEq] at heq
      rw [OrderedDict.get?_set, if_pos rfl, heq]

theorem IsDatedV4.set (hdated : IsDatedV4 clock handler headers)
    (hname : name ∉ ["X-Amzn-Authorization".toList, "X-Amz-Date".toList,
      "X-Amz-Security-Token".toList]) : IsDatedV4 clock handler (headers.set name value) := by
  simp only [List.mem_cons, List.not_mem_nil, or_false, not_or] at hname
  obtain ⟨hstale, hdate, htoken⟩ := hname
  refine ⟨?_, ?_, fun token heq => ?_⟩
  · rw [OrderedDict.get?_set, if_neg (Ne.symm hstale), hdated.stale]
  · rw [OrderedDict.get?_set, if_neg (Ne.symm hdate), hdated.date]
  · rw [OrderedDict.get?_set, if_neg (Ne.symm htoken), hdated.token token heq]

theorem IsDatedV4.withLength (hdated : IsDatedV4 clock handler req.headers) :
    IsDatedV4 clock handler req.withLength.headers := by
  rcases req.withLength_cases with heq | ⟨-, -, heq⟩
  · rw [heq]
    exact hdated
  · rw [heq]
    exact hdated.set (by decide)

theorem IsDatedV4.datedHeaders_eq (hdated : IsDatedV4 clock handler req.headers) :
    HmacAuthV4Handler.datedHeaders clock handler req = req.headers := by
  rw [HmacAuthV4Handler.datedHeaders, OrderedDict.erase_eq_self,
    OrderedDict.set_eq_self hdated.date]
  · cases htoken : handler.provider.token? with
    | none => rfl
    | some token => exact OrderedDict.set_eq_self (hdated.token token htoken)
  · rw [OrderedDict.contains, hdated.stale]
    rfl

/-- The other headers are not changed. -/
theorem get?_datedHeadersV4
    (hname : name ∉ ["X-Amzn-Authorization".toList, "X-Amz-Date".toList,
      "X-Amz-Security-Token".toList]) :
    (HmacAuthV4Handler.datedHeaders clock handler req).get? name = req.headers.get? name := by
  simp only [List.mem_cons, List.not_mem_nil, or_false, not_or] at hname
  obtain ⟨hstale, hdate, htoken⟩ := hname
  rw [HmacAuthV4Handler.datedHeaders]
  cases handler.provider.token? with
  | none =>
      rw [OrderedDict.get?_set, if_neg hdate, OrderedDict.get?_erase, if_neg hstale]
  | some token =>
      rw [OrderedDict.get?_set, if_neg htoken, OrderedDict.get?_set, if_neg hdate,
        OrderedDict.get?_erase, if_neg hstale]

/-! ## The signature -/

/-- A request with the attributes that signing sets. -/
def inScope (req : HTTPRequest) (timestamp regionName serviceName : Text) : HTTPRequest :=
  { req with timestamp := timestamp, regionName := regionName, serviceName := serviceName }

/-- Two requests that are signed alike. -/
structure SignedAlike (library : Library) (methods : V4Methods) (handler : HmacAuthV4Handler)
    (req other : HTTPRequest) : Prop where
  method : other.method = req.method
  host : other.host = req.host
  uri : methods.canonicalUri other = methods.canonicalUri req
  query : methods.canonicalQueryString library other = methods.canonicalQueryString library req
  headers : ∀ timestamp regionName serviceName timestamp' regionName' serviceName',
    methods.headersToSign handler (inScope other timestamp' regionName' serviceName') =
      methods.headersToSign handler (inScope req timestamp regionName serviceName)
  payload : methods.payload library other = methods.payload library req
  date : other.headers.get? "X-Amz-Date".toList = req.headers.get? "X-Amz-Date".toList

theorem SignedAlike.amzDate (halike : SignedAlike library methods handler req other) :
    HmacAuthV4Handler.amzDate other = HmacAuthV4Handler.amzDate req := by
  rw [HmacAuthV4Handler.amzDate, halike.date, HmacAuthV4Handler.amzDate]

theorem SignedAlike.canonicalRequest
    (halike : SignedAlike library methods handler req other) :
    HmacAuthV4Handler.canonicalRequest library methods handler other =
      HmacAuthV4Handler.canonicalRequest library methods handler req := by
  have hheaders := halike.headers req.timestamp req.regionName req.serviceName
    other.timestamp other.regionName other.serviceName
  change methods.headersToSign handler other = methods.headersToSign handler req at hheaders
  rw [HmacAuthV4Handler.canonicalRequest, halike.uri, halike.query, hheaders,
    halike.payload, halike.method, HmacAuthV4Handler.canonicalRequest]

/-- Requests that are signed alike get the same header and attributes. -/
theorem signRequest_alike
    (hsigned : HmacAuthV4Handler.signRequest library methods handler req = .ok signed) :
    ∃ value, signed = inScope
        { req with headers := req.headers.set "Authorization".toList value }
        signed.timestamp signed.regionName signed.serviceName ∧
      ∀ other, SignedAlike library methods handler req other →
        HmacAuthV4Handler.signRequest library methods handler other = .ok (inScope
          { other with headers := other.headers.set "Authorization".toList value }
          signed.timestamp signed.regionName signed.serviceName) := by
  obtain ⟨canonical, heq, hsigned⟩ := except_bind_eq_ok.mp hsigned
  obtain ⟨⟨toSign, dated⟩, hdated, hsigned⟩ := except_bind_eq_ok.mp hsigned
  obtain ⟨headersToSign, hheaders, hsigned⟩ := except_bind_eq_ok.mp hsigned
  cases hsigned
  obtain ⟨date, hamzDate, hdated⟩ := except_bind_eq_ok.mp hdated
  obtain ⟨⟨scope, _⟩, hscope, hdated⟩ := except_bind_eq_ok.mp hdated
  cases hdated
  obtain ⟨_, hamzDate', hscope⟩ := except_bind_eq_ok.mp hscope
  cases hamzDate.symm.trans hamzDate'
  obtain ⟨region, hregion, hscope⟩ := except_bind_eq_ok.mp hscope
  cases hscope
  refine ⟨_, rfl, fun other halike => ?_⟩
  have hservice : methods.determineServiceName handler other.host =
      methods.determineServiceName handler req.host := by rw [halike.host]
  have hregion : methods.determineRegionName handler other.host = .ok region := by
    rw [halike.host, hregion]
  have hother := (halike.headers _ _ _ (date.take 8) region
    (methods.determineServiceName handler req.host)).trans hheaders
  rw [HmacAuthV4Handler.signRequest, halike.canonicalRequest, heq]
  change (HmacAuthV4Handler.stringToSign library methods handler other canonical >>= _) = _
  rw [HmacAuthV4Handler.stringToSign, HmacAuthV4Handler.credentialScope, halike.amzDate,
    hamzDate]
  change ((methods.determineRegionName handler other.host >>= _) >>= _) >>= _ = _
  rw [hregion, hservice]
  change (methods.headersToSign handler (inScope other _ _ _) >>= _) = _
  rw [hother]
  rfl

/-- The attributes that signing sets are not read by what is signed. -/
structure IgnoresScope (library : Library) (methods : V4Methods)
    (handler : HmacAuthV4Handler) : Prop where
  uri : ∀ req timestamp regionName serviceName,
    methods.canonicalUri (inScope req timestamp regionName serviceName) =
      methods.canonicalUri req
  query : ∀ req timestamp regionName serviceName,
    methods.canonicalQueryString library (inScope req timestamp regionName serviceName) =
      methods.canonicalQueryString library req
  headers : ∀ req timestamp regionName serviceName,
    methods.headersToSign handler (inScope req timestamp regionName serviceName) =
      methods.headersToSign handler req
  payload : ∀ req timestamp regionName serviceName,
    methods.payload library (inScope req timestamp regionName serviceName) =
      methods.payload library req

/-- A header is not read by what is signed. -/
structure IgnoresHeader (library : Library) (methods : V4Methods)
    (handler : HmacAuthV4Handler) (name : Text) : Prop where
  uri : ∀ (req : HTTPRequest) value,
    methods.canonicalUri { req with headers := req.headers.set name value } =
      methods.canonicalUri req
  query : ∀ (req : HTTPRequest) value,
    methods.canonicalQueryString library
        { req with headers := req.headers.set name value } =
      methods.canonicalQueryString library req
  headers : ∀ (req : HTTPRequest) value,
    methods.headersToSign handler { req with headers := req.headers.set name value } =
      methods.headersToSign handler req
  payload : ∀ (req : HTTPRequest) value,
    methods.payload library { req with headers := req.headers.set name value } =
      methods.payload library req
  date : name ≠ "X-Amz-Date".toList

theorem SignedAlike.of_setAuthorization (hscope : IgnoresScope library methods handler)
    (hheader : IgnoresHeader library methods handler "Authorization".toList) :
    SignedAlike library methods handler req
      { req with headers := req.headers.set "Authorization".toList value } where
  method := rfl
  host := rfl
  uri := hheader.uri req value
  query := hheader.query req value
  headers := by
    intro timestamp regionName serviceName timestamp' regionName' serviceName'
    rw [hscope.headers, hscope.headers, hheader.headers]
  payload := hheader.payload req value
  date := by rw [OrderedDict.get?_set, if_neg (by decide)]

theorem SignedAlike.inScope (hscope : IgnoresScope library methods handler)
    (halike : SignedAlike library methods handler req other)
    (timestamp regionName serviceName : Text) :
    SignedAlike library methods handler req
      (inScope other timestamp regionName serviceName) where
  method := halike.method
  host := halike.host
  uri := (hscope.uri _ _ _ _).trans halike.uri
  query := (hscope.query _ _ _ _).trans halike.query
  headers := halike.headers
  payload := (hscope.payload _ _ _ _).trans halike.payload
  date := halike.date

theorem SignedAlike.withLength
    (hscope : IgnoresScope library methods handler)
    (hheader : IgnoresHeader library methods handler "Content-Length".toList)
    (halike : SignedAlike library methods handler req other) :
    SignedAlike library methods handler req other.withLength := by
  rcases other.withLength_cases with heq | ⟨-, -, heq⟩
  · rw [heq]
    exact halike
  · rw [heq]
    refine ⟨halike.method, halike.host, (hheader.uri _ _).trans halike.uri,
      (hheader.query _ _).trans halike.query, ?_, (hheader.payload _ _).trans halike.payload, ?_⟩
    · intro timestamp regionName serviceName timestamp' regionName' serviceName'
      rw [hscope.headers, hheader.headers, ← hscope.headers other timestamp' regionName'
        serviceName', halike.headers]
    · rw [OrderedDict.get?_set, if_neg (by decide), halike.date]

theorem ignoresScope_own : IgnoresScope library HmacAuthV4Handler.ownMethods handler :=
  ⟨fun _ _ _ _ => rfl, fun _ _ _ _ => rfl, fun _ _ _ _ => rfl, fun _ _ _ _ => rfl⟩

theorem ignoresScope_s3 : IgnoresScope library S3HmacAuthV4Handler.ownMethods handler :=
  ⟨fun _ _ _ _ => rfl, fun _ _ _ _ => rfl, fun _ _ _ _ => rfl, fun _ _ _ _ => rfl⟩

/-- The general handler signs the host and what starts with `x-amz`. -/
theorem ignoresHeader_own (hname : "x-amz".toList.isPrefixOf (lower name) = false)
    (hhost : name ≠ "Host".toList) (hdate : name ≠ "X-Amz-Date".toList) :
    IgnoresHeader library HmacAuthV4Handler.ownMethods handler name where
  uri := fun _ _ => rfl
  query := fun _ _ => rfl
  headers := by
    intro req value
    change HmacAuthV4Handler.headersToSign handler _ =
      HmacAuthV4Handler.headersToSign handler req
    rw [HmacAuthV4Handler.headersToSign, HmacAuthV4Handler.headersToSign,
      OrderedDict.foldlM_set_of_skip, OrderedDict.get?_set, if_neg hhost.symm]
    · rfl
    · intro headers data
      dsimp only
      rw [hname]
      rfl
  payload := fun _ _ => rfl
  date := hdate

/-- The handler for S3 signs everything but the signature. -/
theorem ignoresHeader_s3 :
    IgnoresHeader library S3HmacAuthV4Handler.ownMethods handler "Authorization".toList where
  uri := fun _ _ => rfl
  query := fun _ _ => rfl
  headers := by
    intro req value
    change S3HmacAuthV4Handler.headersToSign _ = S3HmacAuthV4Handler.headersToSign req
    rw [S3HmacAuthV4Handler.headersToSign, S3HmacAuthV4Handler.headersToSign,
      OrderedDict.foldl_set_of_skip]
    · rfl
    · intro headers data
      exact if_pos (by decide : lower "Authorization".toList = "authorization".toList)
  payload := by
    intro req value
    change S3HmacAuthV4Handler.payload _ _ = S3HmacAuthV4Handler.payload _ req
    rw [S3HmacAuthV4Handler.payload, OrderedDict.get?_set, if_neg (by decide),
      S3HmacAuthV4Handler.payload]
    rfl
  date := by decide

/-! ## The query -/

/-- The headers of a form. -/
theorem placeQuery_of_post {qs qsToPost : Text}
    (hpost : qsToPost ≠ [] ∧ req.method = "POST".toList)
    (hbody : req.body = .text qsToPost)
    (htype : req.headers.get? "Content-Type".toList =
      some (.text "application/x-www-form-urlencoded; charset=UTF-8".toList))
    (hlength : req.headers.get? "Content-Length".toList =
      some (.text (decimal qsToPost.length))) :
    HmacAuthV4Handler.placeQuery req qs qsToPost = req := by
  rw [HmacAuthV4Handler.placeQuery, if_pos hpost, OrderedDict.set_eq_self htype,
    OrderedDict.set_eq_self hlength, ← hbody]

/-- The path with a query, where an empty one is left out. -/
def placedPath (path qs : Text) : Text :=
  let path := path.takeWhile (· ≠ '?')
  if qs ≠ [] then path ++ '?' :: qs else path

theorem takeWhile_placedPath (path qs : Text) :
    (placedPath path qs).takeWhile (· ≠ '?') = path.takeWhile (· ≠ '?') := by
  have hpath : '?' ∉ path.takeWhile (· ≠ '?') := fun hin =>
    of_decide_eq_true (List.all_eq_true.mp List.all_takeWhile '?' hin) rfl
  rw [placedPath]
  split
  · exact Urls.takeWhile_append_cons hpath _
  · rw [List.takeWhile_eq_self_iff]
    intro c hc
    exact decide_eq_true fun heq => hpath (heq ▸ hc)

theorem placeQuery_of_path {qs qsToPost path : Text}
    (hpost : ¬(qsToPost ≠ [] ∧ req.method = "POST".toList))
    (hpath : req.path = placedPath path qs) :
    HmacAuthV4Handler.placeQuery req qs qsToPost = req := by
  rw [HmacAuthV4Handler.placeQuery, if_neg hpost]
  dsimp only
  rw [hpath, takeWhile_placedPath]
  change { req with path := placedPath path qs } = req
  rw [← hpath]

/-! ## The general handler -/

/-- What a successful attempt does. -/
theorem addAuthV4_cases {unmangledReq : Option HTTPRequest}
    (hsigned : HmacAuthV4Handler.addAuth library clock methods handler req unmangledReq =
      .ok signed) :
    ∃ qs qsToPost, HmacAuthV4Handler.queryString library req = .ok qs ∧
      HmacAuthV4Handler.queryString library (unmangledReq.getD req) = .ok qsToPost ∧
        HmacAuthV4Handler.signRequest library methods handler
          (HmacAuthV4Handler.placeQuery
            { req with headers := HmacAuthV4Handler.datedHeaders clock handler req }
            qs qsToPost) = .ok signed := by
  obtain ⟨qs, hqs, hsigned⟩ := except_bind_eq_ok.mp hsigned
  cases unmangledReq with
  | none => exact ⟨qs, qs, hqs, hqs, hsigned⟩
  | some unmangledReq =>
      obtain ⟨qsToPost, hqsToPost, hsigned⟩ := except_bind_eq_ok.mp hsigned
      exact ⟨qs, qsToPost, hqs, hqsToPost, hsigned⟩

/-- An attempt on a request that has all of its headers and its query in place. -/
theorem addAuthV4_of_placed {unmangledReq : Option HTTPRequest} {qs qsToPost : Text}
    (hdated : IsDatedV4 clock handler req.headers)
    (hqs : HmacAuthV4Handler.queryString library req = .ok qs)
    (hqsToPost : HmacAuthV4Handler.queryString library (unmangledReq.getD req) =
      .ok qsToPost)
    (hplaced : HmacAuthV4Handler.placeQuery req qs qsToPost = other) :
    HmacAuthV4Handler.addAuth library clock methods handler req unmangledReq =
      HmacAuthV4Handler.signRequest library methods handler other := by
  rw [HmacAuthV4Handler.addAuth, hdated.datedHeaders_eq]
  change (HmacAuthV4Handler.queryString library req >>= _) = _
  rw [hqs, ← hplaced]
  cases unmangledReq with
  | none =>
      cases hqs.symm.trans hqsToPost
      rfl
  | some unmangledReq =>
      change (HmacAuthV4Handler.queryString library unmangledReq >>= _) = _
      rw [show HmacAuthV4Handler.queryString library unmangledReq = _ from hqsToPost]
      rfl

theorem isDatedV4_placeQuery {qs qsToPost : Text} (hdated : IsDatedV4 clock handler req.headers) :
    IsDatedV4 clock handler (HmacAuthV4Handler.placeQuery req qs qsToPost).headers := by
  rw [HmacAuthV4Handler.placeQuery]
  split
  · exact (hdated.set (by decide)).set (by decide)
  · exact hdated

theorem params_placeQuery (qs qsToPost : Text) :
    (HmacAuthV4Handler.placeQuery req qs qsToPost).params = req.params := by
  rw [HmacAuthV4Handler.placeQuery]
  split <;> rfl

theorem method_placeQuery (qs qsToPost : Text) :
    (HmacAuthV4Handler.placeQuery req qs qsToPost).method = req.method := by
  rw [HmacAuthV4Handler.placeQuery]
  split <;> rfl

/-- The query of a placed request is in place, whatever headers are added to it. -/
theorem placeQuery_again {qs qsToPost : Text}
    (hplaced : HmacAuthV4Handler.placeQuery req qs qsToPost = other) {again : HTTPRequest}
    (hmethod : again.method = other.method) (hpath : again.path = other.path)
    (hbody : again.body = other.body)
    (hheaders : ∀ name value, name ∈ ["Content-Type".toList, "Content-Length".toList] →
      other.headers.get? name = some value → again.headers.get? name = some value) :
    HmacAuthV4Handler.placeQuery again qs qsToPost = again := by
  have hsame : other.method = req.method := by rw [← hplaced, method_placeQuery]
  by_cases hpost : qsToPost ≠ [] ∧ req.method = "POST".toList
  · rw [HmacAuthV4Handler.placeQuery, if_pos hpost] at hplaced
    refine placeQuery_of_post ⟨hpost.1, by rw [hmethod, hsame, hpost.2]⟩ ?_ ?_ ?_
    · rw [hbody, ← hplaced]
    · refine hheaders _ _ (by decide) ?_
      rw [← hplaced, OrderedDict.get?_set, if_neg (by decide), OrderedDict.get?_set, if_pos rfl]
    · refine hheaders _ _ (by decide) ?_
      rw [← hplaced, OrderedDict.get?_set, if_pos rfl]
  · rw [HmacAuthV4Handler.placeQuery, if_neg hpost] at hplaced
    refine @placeQuery_of_path again qs qsToPost req.path (by rwa [hmethod, hsame]) ?_
    rw [hpath, ← hplaced]
    rfl

theorem queryString_of_params (hparams : other.params = req.params) :
    HmacAuthV4Handler.queryString library other =
      HmacAuthV4Handler.queryString library req := by
  rw [HmacAuthV4Handler.queryString, hparams, HmacAuthV4Handler.queryString]

theorem inScope_withLength (req : HTTPRequest) :
    inScope req.withLength req.timestamp req.regionName req.serviceName = req.withLength := by
  rcases req.withLength_cases with heq | ⟨-, -, heq⟩ <;> rw [heq] <;> rfl

theorem hmacAuthV4_withLength
    (hsigned : HmacAuthV4Handler.addAuth library clock HmacAuthV4Handler.ownMethods handler
      req none = .ok signed) :
    HmacAuthV4Handler.addAuth library clock HmacAuthV4Handler.ownMethods handler
      signed.withLength none = .ok signed.withLength := by
  obtain ⟨qs, qsToPost, hqs, hqsToPost, hsign⟩ := addAuthV4_cases hsigned
  generalize hplaced : HmacAuthV4Handler.placeQuery _ qs qsToPost = placed at hsign
  have hlength : IgnoresHeader library HmacAuthV4Handler.ownMethods handler
      "Content-Length".toList := ignoresHeader_own (by decide) (by decide) (by decide)
  have hauthorization : IgnoresHeader library HmacAuthV4Handler.ownMethods handler
      "Authorization".toList := ignoresHeader_own (by decide) (by decide) (by decide)
  obtain ⟨value, heq, hagain⟩ := signRequest_alike hsign
  have hparams : placed.params = req.params := by rw [← hplaced, params_placeQuery]
  have hdated : IsDatedV4 clock handler signed.withLength.headers := by
    refine IsDatedV4.withLength ?_
    rw [heq]
    refine IsDatedV4.set ?_ (by decide)
    rw [← hplaced]
    exact isDatedV4_placeQuery isDatedV4_datedHeaders
  have hvalue : signed.withLength.headers.get? "Authorization".toList = some value := by
    refine HTTPRequest.get?_withLength_of_some ?_
    rw [heq]
    exact OrderedDict.get?_set.trans (if_pos rfl)
  have honce : signed.withLength.params = req.params := by
    rw [HTTPRequest.params_withLength, heq]
    exact hparams
  have hinPlace : HmacAuthV4Handler.placeQuery signed.withLength qs qsToPost =
      signed.withLength := by
    refine placeQuery_again hplaced ?_ ?_ ?_ fun name value' hname hget => ?_
    · rw [HTTPRequest.method_withLength, heq]
      rfl
    · rw [HTTPRequest.path_withLength, heq]
      rfl
    · rw [HTTPRequest.body_withLength, heq]
      rfl
    · refine HTTPRequest.get?_withLength_of_some ?_
      rw [heq]
      refine OrderedDict.get?_set.trans ((if_neg ?_).trans hget)
      rintro rfl
      revert hname
      decide
  have halike : SignedAlike library HmacAuthV4Handler.ownMethods handler placed
      signed.withLength := by
    refine SignedAlike.withLength ignoresScope_own hlength ?_
    rw [heq]
    exact (SignedAlike.of_setAuthorization ignoresScope_own hauthorization).inScope
      ignoresScope_own _ _ _
  have hsame : HmacAuthV4Handler.addAuth library clock HmacAuthV4Handler.ownMethods handler
      signed.withLength none = _ :=
    addAuthV4_of_placed hdated ((queryString_of_params honce).trans hqs)
      ((queryString_of_params honce).trans hqsToPost) hinPlace
  rw [hsame, hagain _ halike, OrderedDict.set_eq_self hvalue]
  exact congrArg Except.ok (inScope_withLength signed)

/-! ## The handler for S3 -/

theorem get?_placeQuery {qs qsToPost : Text}
    (hname : name ∉ ["Content-Type".toList, "Content-Length".toList]) :
    (HmacAuthV4Handler.placeQuery req qs qsToPost).headers.get? name =
      req.headers.get? name := by
  simp only [List.mem_cons, List.not_mem_nil, or_false, not_or] at hname
  rw [HmacAuthV4Handler.placeQuery]
  split
  · rw [OrderedDict.get?_set, if_neg hname.2, OrderedDict.get?_set, if_neg hname.1]
  · rfl

/-- With its headers in place, a request is placed as before. -/
theorem placeQuery_headers {qs qsToPost : Text} {old : OrderedDict Text Data}
    (hplaced : HmacAuthV4Handler.placeQuery { req with headers := old } qs qsToPost = other)
    (hheaders : ∀ name value, name ∈ ["Content-Type".toList, "Content-Length".toList] →
      other.headers.get? name = some value → headers.get? name = some value) :
    HmacAuthV4Handler.placeQuery { req with headers := headers } qs qsToPost =
      { other with headers := headers } := by
  subst hplaced
  by_cases hpost : qsToPost ≠ [] ∧ req.method = "POST".toList
  · rw [HmacAuthV4Handler.placeQuery, if_pos hpost] at hheaders
    have htype := hheaders "Content-Type".toList
      (.text "application/x-www-form-urlencoded; charset=UTF-8".toList) (by decide) (by simp)
    have hlength := hheaders "Content-Length".toList (.text (decimal qsToPost.length))
      (by decide) (by simp)
    rw [HmacAuthV4Handler.placeQuery, if_pos hpost, HmacAuthV4Handler.placeQuery,
      if_pos hpost, OrderedDict.set_eq_self htype, OrderedDict.set_eq_self hlength]
  · rw [HmacAuthV4Handler.placeQuery, if_neg hpost, HmacAuthV4Handler.placeQuery,
      if_neg hpost]

/-- What a successful attempt for S3 does: the headers are signed on a copy. -/
theorem addAuthS3_cases {semicolons : Bool}
    (hsigned : S3HmacAuthV4Handler.addAuth library clock handler req semicolons = .ok signed) :
    ∃ hashed updated inner, S3HmacAuthV4Handler.hashedHeaders library req = .ok hashed ∧
      S3HmacAuthV4Handler.manglePathAndParams { req with headers := hashed } semicolons =
          .ok updated ∧
        HmacAuthV4Handler.addAuth library clock S3HmacAuthV4Handler.ownMethods handler updated
            (some { req with headers := hashed }) = .ok inner ∧
          signed = { req with headers := inner.headers } := by
  obtain ⟨hashed, hhashed, hsigned⟩ := except_bind_eq_ok.mp hsigned
  obtain ⟨updated, hupdated, hsigned⟩ := except_bind_eq_ok.mp hsigned
  obtain ⟨inner, hinner, hsigned⟩ := except_bind_eq_ok.mp hsigned
  cases hsigned
  exact ⟨hashed, updated, inner, hhashed, hupdated, hinner, rfl⟩

/-- The path is taken apart in the same way, whatever the headers are. -/
theorem manglePathAndParams_headers {semicolons : Bool}
    (hupdated : S3HmacAuthV4Handler.manglePathAndParams req semicolons = .ok other)
    (headers : OrderedDict Text Data) :
    S3HmacAuthV4Handler.manglePathAndParams { req with headers := headers } semicolons =
      .ok { other with headers := headers } := by
  obtain ⟨parsed, hparsed, hupdated⟩ := except_bind_eq_ok.mp hupdated
  cases hupdated
  rw [S3HmacAuthV4Handler.manglePathAndParams, hparsed]
  rfl

theorem headers_manglePathAndParams {semicolons : Bool}
    (hupdated : S3HmacAuthV4Handler.manglePathAndParams req semicolons = .ok other) :
    other.headers = req.headers := by
  obtain ⟨parsed, -, hupdated⟩ := except_bind_eq_ok.mp hupdated
  cases hupdated
  rfl

theorem hashedHeaders_contains
    (hhashed : S3HmacAuthV4Handler.hashedHeaders library req = .ok headers) :
    headers.contains "x-amz-content-sha256".toList = true := by
  rw [S3HmacAuthV4Handler.hashedHeaders] at hhashed
  split at hhashed
  · cases hhashed
    assumption
  · split at hhashed
    · cases hhashed
      simp
    · obtain ⟨payload, -, hhashed⟩ := except_bind_eq_ok.mp hhashed
      cases hhashed
      simp

/-- The other headers are not changed. -/
theorem get?_hashedHeaders
    (hname : name ∉ ["x-amz-content-sha256".toList, "_sha256".toList])
    (hhashed : S3HmacAuthV4Handler.hashedHeaders library req = .ok headers) :
    headers.get? name = req.headers.get? name := by
  simp only [List.mem_cons, List.not_mem_nil, or_false, not_or] at hname
  rw [S3HmacAuthV4Handler.hashedHeaders] at hhashed
  split at hhashed
  · cases hhashed
    rfl
  · split at hhashed
    · cases hhashed
      rw [OrderedDict.get?_set, if_neg hname.1, OrderedDict.get?_erase, if_neg hname.2]
    · obtain ⟨payload, -, hhashed⟩ := except_bind_eq_ok.mp hhashed
      cases hhashed
      rw [OrderedDict.get?_set, if_neg hname.1]

/-- What an attempt for S3 signs, and what the next attempt signs: the same copy with the
headers that it has. -/
theorem addAuthS3_again {semicolons : Bool}
    (hsigned : S3HmacAuthV4Handler.addAuth library clock handler req semicolons = .ok signed) :
    ∃ placed inner,
      HmacAuthV4Handler.signRequest library S3HmacAuthV4Handler.ownMethods handler placed =
          .ok inner ∧ signed = { req with headers := inner.headers } ∧
      IsDatedV4 clock handler placed.headers ∧
      ∀ headers : OrderedDict Text Data,
        (∀ name value, signed.headers.get? name = some value →
          headers.get? name = some value) →
        headers.get? "X-Amzn-Authorization".toList = none →
        S3HmacAuthV4Handler.addAuth library clock handler { signed with headers := headers }
            semicolons =
          (HmacAuthV4Handler.signRequest library S3HmacAuthV4Handler.ownMethods handler
            { placed with headers := headers }).map fun again =>
              { signed with headers := again.headers } := by
  obtain ⟨hashed, updated, inner, hhashed, hupdated, hinner, rfl⟩ := addAuthS3_cases hsigned
  obtain ⟨qs, qsToPost, hqs, hqsToPost, hsign⟩ := addAuthV4_cases hinner
  have hkept := headers_manglePathAndParams hupdated
  generalize hplaced : HmacAuthV4Handler.placeQuery _ qs qsToPost = placed at hsign
  obtain ⟨value, heq, -⟩ := signRequest_alike hsign
  have hheaders : inner.headers = placed.headers.set "Authorization".toList value := by
    rw [heq]
    rfl
  have hdated : IsDatedV4 clock handler placed.headers := by
    rw [← hplaced]
    exact isDatedV4_placeQuery isDatedV4_datedHeaders
  refine ⟨placed, inner, hsign, rfl, hdated, fun headers hsome hstale => ?_⟩
  have hinPlaced : ∀ name data, name ≠ "Authorization".toList →
      placed.headers.get? name = some data → headers.get? name = some data := by
    intro name data hname hget
    refine hsome name data ?_
    change inner.headers.get? name = _
    rw [hheaders, OrderedDict.get?_set, if_neg hname, hget]
  have hdated' : IsDatedV4 clock handler headers :=
    ⟨hstale, hinPlaced _ _ (by decide) hdated.date,
      fun token htoken => hinPlaced _ _ (by decide) (hdated.token token htoken)⟩
  have hcontains : headers.contains "x-amz-content-sha256".toList = true := by
    have hin := hashedHeaders_contains hhashed
    rw [OrderedDict.contains, Option.isSome_iff_exists] at hin
    obtain ⟨data, hdata⟩ := hin
    rw [OrderedDict.contains, hinPlaced _ data (by decide)]
    · rfl
    · rw [← hplaced, get?_placeQuery (by decide)]
      rw [get?_datedHeadersV4 (by decide), hkept]
      exact hdata
  have hmangled := manglePathAndParams_headers hupdated headers
  have hplaced' : HmacAuthV4Handler.placeQuery { updated with headers := headers } qs qsToPost =
      { placed with headers := headers } := by
    refine placeQuery_headers hplaced fun name data hname hget => hinPlaced name data ?_ hget
    rintro rfl
    revert hname
    decide
  have hinner' : HmacAuthV4Handler.addAuth library clock S3HmacAuthV4Handler.ownMethods handler
      { updated with headers := headers } (some { req with headers := headers }) = _ :=
    addAuthV4_of_placed hdated' hqs hqsToPost hplaced'
  rw [S3HmacAuthV4Handler.addAuth, S3HmacAuthV4Handler.hashedHeaders, if_pos hcontains]
  change (S3HmacAuthV4Handler.manglePathAndParams { req with headers := headers } semicolons >>=
    _) = _
  rw [hmangled]
  change (HmacAuthV4Handler.addAuth _ _ _ _ { updated with headers := headers }
    (some { req with headers := headers }) >>= _) = _
  rw [hinner']
  cases HmacAuthV4Handler.signRequest library S3HmacAuthV4Handler.ownMethods handler
    { placed with headers := headers } with
  | error error => rfl
  | ok again => rfl

/-- With its length in place, a request for S3 is signed as before. -/
theorem s3HmacAuthV4_again {semicolons : Bool}
    (hsigned : S3HmacAuthV4Handler.addAuth library clock handler req semicolons = .ok signed) :
    S3HmacAuthV4Handler.addAuth library clock handler signed semicolons = .ok signed := by
  obtain ⟨placed, inner, hsign, heq, hdated, hagain⟩ := addAuthS3_again hsigned
  obtain ⟨value, hinner, halike⟩ := signRequest_alike hsign
  have hheaders : signed.headers = placed.headers.set "Authorization".toList value := by
    rw [heq, hinner]
    rfl
  have hstale : signed.headers.get? "X-Amzn-Authorization".toList = none := by
    rw [hheaders]
    exact (hdated.set (by decide)).stale
  have hsame := hagain signed.headers (fun _ _ hget => hget) hstale
  rw [hheaders, halike _ (SignedAlike.of_setAuthorization ignoresScope_s3 ignoresHeader_s3),
    OrderedDict.set_set, ← hheaders] at hsame
  exact hsame

end

end Boto.Auth
