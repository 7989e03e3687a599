import Boto.Auth.QuerySignature

/-!
# Signing a request again

A request that is sent again is authorized again.  Every handler overwrites what it has
added before, so that nothing changes, unless the length that is added after the signature
is signed the next time.
-/

namespace Boto.Auth

namespace HTTPRequest

variable {env : Environment} {req : HTTPRequest}

/-- Nothing is left to do before the request is signed. -/
structure IsQuoted (env : Environment) (req : HTTPRequest) : Prop where
  flag : req.headersQuoted = true
  userAgent : req.headers.get? "User-Agent".toList = some (.text env.userAgent)

theorem isQuoted_quoted : (req.quoted env).IsQuoted env :=
  ⟨rfl, by rw [quoted, OrderedDict.get?_set, if_pos rfl]⟩

theorem IsQuoted.quoted_eq (hquoted : req.IsQuoted env) : req.quoted env = req := by
  rw [quoted, if_pos hquoted.flag, OrderedDict.set_eq_self hquoted.userAgent]
  obtain ⟨hflag, -⟩ := hquoted
  cases req
  cases hflag
  rfl

/-- Either nothing is added, or the length is. -/
theorem withLength_cases (req : HTTPRequest) :
    req.withLength = req ∨ req.headers.contains "Content-Length".toList = false ∧
      req.headers.get? "Transfer-Encoding".toList ≠ some (.text "chunked".toList) ∧
        req.withLength = { req with
          headers := req.headers.set "Content-Length".toList
            (.text (decimal req.body.length)) } := by
  rw [withLength]
  split
  · exact .inl rfl
  · rename_i hlength
    split
    · exact .inl rfl
    · rename_i hchunked
      exact .inr ⟨Bool.eq_false_of_not_eq_true hlength, hchunked, rfl⟩

theorem withLength_withLength (req : HTTPRequest) :
    req.withLength.withLength = req.withLength := by
  rcases req.withLength_cases with heq | ⟨-, -, heq⟩
  · rw [heq, heq]
  · rw [heq, withLength, if_pos]
    rw [OrderedDict.contains_set, decide_eq_true rfl]
    rfl

/-- The length is the only header that is added. -/
theorem get?_withLength {name : Text} (hname : name ≠ "Content-Length".toList) :
    req.withLength.headers.get? name = req.headers.get? name := by
  rcases req.withLength_cases with heq | ⟨-, -, heq⟩
  · rw [heq]
  · rw [heq, OrderedDict.get?_set, if_neg hname]

/-- What is present before the length is added keeps its value. -/
theorem get?_withLength_of_some {name : Text} {value : Data}
    (hget : req.headers.get? name = some value) :
    req.withLength.headers.get? name = some value := by
  by_cases hname : name = "Content-Length".toList
  · subst hname
    rw [withLength, if_pos]
    · exact hget
    · rw [OrderedDict.contains, hget]
      rfl
  · rw [get?_withLength hname, hget]

@[simp] theorem method_withLength (req : HTTPRequest) :
    req.withLength.method = req.method := by
  rcases req.withLength_cases with heq | ⟨-, -, heq⟩ <;> rw [heq]

@[simp] theorem path_withLength (req : HTTPRequest) : req.withLength.path = req.path := by
  rcases req.withLength_cases with heq | ⟨-, -, heq⟩ <;> rw [heq]

@[simp] theorem authPath_withLength (req : HTTPRequest) :
    req.withLength.authPath = req.authPath := by
  rcases req.withLength_cases with heq | ⟨-, -, heq⟩ <;> rw [heq]

@[simp] theorem host_withLength (req : HTTPRequest) : req.withLength.host = req.host := by
  rcases req.withLength_cases with heq | ⟨-, -, heq⟩ <;> rw [heq]

@[simp] theorem params_withLength (req : HTTPRequest) :
    req.withLength.params = req.params := by
  rcases req.withLength_cases with heq | ⟨-, -, heq⟩ <;> rw [heq]

@[simp] theorem body_withLength (req : HTTPRequest) : req.withLength.body = req.body := by
  rcases req.withLength_cases with heq | ⟨-, -, heq⟩ <;> rw [heq]

theorem IsQuoted.withLength (hquoted : req.IsQuoted env) : req.withLength.IsQuoted env := by
  refine ⟨?_, get?_withLength_of_some hquoted.userAgent⟩
  rcases req.withLength_cases with heq | ⟨-, -, heq⟩
  · rw [heq]
    exact hquoted.flag
  · rw [heq]
    exact hquoted.flag

end HTTPRequest

/-! ## Handlers that sign headers -/

section

variable {library : Library} {clock : Clock} {keys : HmacKeys} {req signed : HTTPRequest}
  {headers : OrderedDict Text Data} {name key : Text} {value : Data}

/-- The names of the headers of a provider start with `x-`. -/
theorem HmacKeys.exists_headerPrefix (keys : HmacKeys) : ∃ rest,
    keys.provider.headerPrefix = 'x' :: '-' :: rest ∧
      ∃ rest, keys.provider.securityTokenHeader = 'x' :: '-' :: rest := by
  obtain ⟨provider, name, hprovider⟩ := keys
  dsimp only
  rw [hprovider]
  cases name with
  | aws => exact ⟨_, rfl, _, rfl⟩
  | google => exact ⟨_, rfl, _, rfl⟩

theorem HmacKeys.ne_securityTokenHeader (hname : name.head? ≠ some 'x') :
    name ≠ keys.provider.securityTokenHeader := by
  obtain ⟨-, -, rest, heq⟩ := keys.exists_headerPrefix
  rintro rfl
  rw [heq] at hname
  exact hname rfl

/-- There is a date, and the token if the provider has one. -/
structure IsDated (keys : HmacKeys) (headers : OrderedDict Text Data) : Prop where
  date : headers.contains "Date".toList = true
  token : ∀ token, keys.provider.token? = some token →
    headers.get? keys.provider.securityTokenHeader = some (.text token)

theorem isDated_datedHeaders : IsDated keys (datedHeaders clock keys headers) := by
  have hdate : (if headers.contains "Date".toList then headers
      else headers.set "Date".toList (.text clock.httpDate)).contains "Date".toList = true := by
    split
    · assumption
    · rw [OrderedDict.contains_set, decide_eq_true rfl]
      rfl
  rw [datedHeaders]
  cases htoken : keys.provider.token? with
  | none => exact ⟨hdate, fun token heq => (Option.some_ne_none token (heq ▸ htoken)).elim⟩
  | some token =>
      refine ⟨?_, fun other heq => ?_⟩
      · rw [OrderedDict.contains_set, hdate, Bool.or_true]
      · rw [htoken, Option.some.injEq] at heq
        rw [OrderedDict.get?_set, if_pos rfl, heq]

theorem IsDated.set (hdated : IsDated keys headers)
    (hkey : key ≠ keys.provider.securityTokenHeader) : IsDated keys (headers.set key value) := by
  refine ⟨?_, fun token htoken => ?_⟩
  · rw [OrderedDict.contains_set, hdated.date, Bool.or_true]
  · rw [OrderedDict.get?_set, if_neg hkey.symm, hdated.token token htoken]

theorem IsDated.datedHeaders_eq (hdated : IsDated keys headers) :
    datedHeaders clock keys headers = headers := by
  rw [datedHeaders, if_pos hdated.date]
  cases htoken : keys.provider.token? with
  | none => rfl
  | some token => exact OrderedDict.set_eq_self (hdated.token token htoken)

theorem IsDated.withLength (hdated : IsDated keys req.headers) :
    IsDated keys req.withLength.headers := by
  rcases req.withLength_cases with heq | ⟨-, -, heq⟩
  · rw [heq]
    exact hdated
  · rw [heq]
    exact hdated.set (HmacKeys.ne_securityTokenHeader (by decide))

theorem get?_datedHeaders (hdate : name ≠ "Date".toList)
    (htoken : name ≠ keys.provider.securityTokenHeader) :
    (datedHeaders clock keys headers).get? name = headers.get? name := by
  have hset : (if headers.contains "Date".toList then headers
      else headers.set "Date".toList (.text clock.httpDate)).get? name =
        headers.get? name := by
    split
    · rfl
    · rw [OrderedDict.get?_set, if_neg hdate]
  rw [datedHeaders]
  cases keys.provider.token? with
  | none => exact hset
  | some token => rw [OrderedDict.get?_set, if_neg htoken, hset]

/-- A value that is made from the headers does not depend on one of them. -/
def Skips (value : OrderedDict Text Data → Except AuthError Text) (name : Text) : Prop :=
  ∀ headers data, value (headers.set name data) = value headers

theorem Skips.withLength {value : OrderedDict Text Data → Except AuthError Text}
    (hskips : Skips value "Content-Length".toList) (req : HTTPRequest) :
    value req.withLength.headers = value req.headers := by
  rcases req.withLength_cases with heq | ⟨-, -, heq⟩
  · rw [heq]
  · rw [heq, hskips]

/-- A handler whose header does not depend on what is added later signs the request with
its length in the same way. -/
theorem signHeaders_withLength {value : OrderedDict Text Data → Except AuthError Text}
    (hname : name ≠ keys.provider.securityTokenHeader) (hskip : Skips value name)
    (hlength : Skips value "Content-Length".toList)
    (hsigned : signHeaders clock keys req name value = .ok signed) :
    signHeaders clock keys signed.withLength name value = .ok signed.withLength := by
  obtain ⟨auth, hauth, hsigned⟩ := except_bind_eq_ok.mp hsigned
  cases hsigned
  generalize hdated : datedHeaders clock keys req.headers = dated at hauth
  generalize hsigned : HTTPRequest.withLength _ = once
  have hset : IsDated keys (dated.set name (.text auth)) := by
    rw [← hdated]
    exact isDated_datedHeaders.set hname
  have honce : once.headers.get? name = some (.text auth) := by
    rw [← hsigned]
    exact HTTPRequest.get?_withLength_of_some (by rw [OrderedDict.get?_set, if_pos rfl])
  have hvalue : value once.headers = .ok auth := by
    rw [← hsigned, hlength.withLength, hskip, hauth]
  have hdated : IsDated keys once.headers := by
    rw [← hsigned]
    exact hset.withLength
  rw [signHeaders, hdated.datedHeaders_eq, hvalue]
  change Except.ok { once with headers := once.headers.set name (.text auth) } = .ok once
  rw [OrderedDict.set_eq_self honce]

theorem signHeaders_isQuoted {env : Environment}
    {value : OrderedDict Text Data → Except AuthError Text}
    (hname : name ≠ "User-Agent".toList) (hquoted : req.IsQuoted env)
    (hsigned : signHeaders clock keys req name value = .ok signed) : signed.IsQuoted env := by
  obtain ⟨auth, -, hsigned⟩ := except_bind_eq_ok.mp hsigned
  cases hsigned
  refine ⟨hquoted.flag, ?_⟩
  rw [OrderedDict.get?_set, if_neg hname.symm, get?_datedHeaders (by decide)
    (HmacKeys.ne_securityTokenHeader (by decide)), hquoted.userAgent]

theorem interestingHeaders_set
    (hlower : lower name ∉ ["content-md5".toList, "content-type".toList, "date".toList])
    (hfirst : (lower name).head? ≠ some 'x') :
    interestingHeaders keys.provider (headers.set name value) =
      interestingHeaders keys.provider headers := by
  refine OrderedDict.foldl_set_of_skip (fun interesting data => ?_) _
  obtain ⟨rest, hbegin, -⟩ := keys.exists_headerPrefix
  dsimp only
  rw [if_neg]
  rintro (hin | hstarts)
  · exact hlower hin
  · rw [hbegin, List.isPrefixOf_iff_prefix] at hstarts
    obtain ⟨back, heq⟩ := hstarts
    rw [← heq] at hfirst
    exact hfirst rfl

theorem skips_canonicalString {method path : Text}
    (hlower : lower name ∉ ["content-md5".toList, "content-type".toList, "date".toList])
    (hfirst : (lower name).head? ≠ some 'x') :
    Skips (fun headers => .ok (authorization keys (keys.signString library .sha
      (canonicalString method path headers none keys.provider)))) name := by
  intro headers data
  simp only [canonicalString, signedHeaderValues, interestingHeaders_set hlower hfirst]

theorem skips_dateToSign {auth : Text → Except AuthError Text}
    (hname : name ≠ "Date".toList) :
    Skips (fun headers => dateToSign headers >>= auth) name := by
  intro headers data
  dsimp only
  rw [dateToSign, OrderedDict.get?_set, if_neg hname.symm, dateToSign]

theorem hmacAuthV1_withLength
    (hsigned : HmacAuthV1Handler.addAuth library clock keys req = .ok signed) :
    HmacAuthV1Handler.addAuth library clock keys signed.withLength = .ok signed.withLength := by
  have hsame : signed.withLength.method = req.method ∧
      signed.withLength.authPath = req.authPath := by
    obtain ⟨auth, -, hsigned⟩ := except_bind_eq_ok.mp hsigned
    cases hsigned
    exact ⟨HTTPRequest.method_withLength _, HTTPRequest.authPath_withLength _⟩
  rw [HmacAuthV1Handler.addAuth, hsame.1, hsame.2]
  exact signHeaders_withLength (HmacKeys.ne_securityTokenHeader (by decide))
    (skips_canonicalString (by decide) (by decide))
    (skips_canonicalString (by decide) (by decide)) hsigned

theorem hmacAuthV2_withLength
    (hsigned : HmacAuthV2Handler.addAuth library clock keys req = .ok signed) :
    HmacAuthV2Handler.addAuth library clock keys signed.withLength = .ok signed.withLength := by
  exact signHeaders_withLength (HmacKeys.ne_securityTokenHeader (by decide))
    (skips_dateToSign (by decide)) (skips_dateToSign (by decide)) hsigned

theorem hmacAuthV3_withLength
    (hsigned : HmacAuthV3Handler.addAuth library clock keys req = .ok signed) :
    HmacAuthV3Handler.addAuth library clock keys signed.withLength = .ok signed.withLength := by
  exact signHeaders_withLength (HmacKeys.ne_securityTokenHeader (by decide))
    (skips_dateToSign (by decide)) (skips_dateToSign (by decide)) hsigned

end

/-! ## Handlers that sign the query -/

section

variable {library : Library} {clock : Clock} {keys : HmacKeys} {req signed : HTTPRequest}
  {params : OrderedDict Text ParamValue} {version : ℤ} {key : Text} {value : ParamValue}

/-- The parameters of every attempt are there. -/
structure IsStamped (clock : Clock) (keys : HmacKeys) (version : ℤ)
    (params : OrderedDict Text ParamValue) : Prop where
  accessKey : params.get? "AWSAccessKeyId".toList = some (.text keys.provider.accessKey)
  version : params.get? "SignatureVersion".toList = some (.int version)
  timestamp : params.get? "Timestamp".toList = some (.text clock.timestamp)

theorem isStamped_stampedParams :
    IsStamped clock keys version (stampedParams clock keys version params) := by
  refine ⟨?_, ?_, ?_⟩ <;> simp [stampedParams]

theorem IsStamped.set (hstamped : IsStamped clock keys version params)
    (hkey : key ∉ ["AWSAccessKeyId".toList, "SignatureVersion".toList, "Timestamp".toList]) :
    IsStamped clock keys version (params.set key value) := by
  simp only [List.mem_cons, List.not_mem_nil, or_false, not_or] at hkey
  obtain ⟨haccess, hversion, htimestamp⟩ := hkey
  refine ⟨?_, ?_, ?_⟩
  · rw [OrderedDict.get?_set, if_neg (Ne.symm haccess), hstamped.accessKey]
  · rw [OrderedDict.get?_set, if_neg (Ne.symm hversion), hstamped.version]
  · rw [OrderedDict.get?_set, if_neg (Ne.symm htimestamp), hstamped.timestamp]

theorem IsStamped.stampedParams_eq (hstamped : IsStamped clock keys version params) :
    stampedParams clock keys version params = params := by
  rw [stampedParams, OrderedDict.set_eq_self hstamped.accessKey,
    OrderedDict.set_eq_self hstamped.version, OrderedDict.set_eq_self hstamped.timestamp]

theorem replaceQuery_replaceQuery (path query query' : Text) :
    replaceQuery (replaceQuery path query) query' = replaceQuery path query' := by
  have hpath : '?' ∉ path.takeWhile (· ≠ '?') := fun hin =>
    of_decide_eq_true (List.all_eq_true.mp List.all_takeWhile '?' hin) rfl
  rw [replaceQuery, replaceQuery, Urls.takeWhile_append_cons hpath, replaceQuery]

/-- A request without a body, whose query is replaced by the one that it has. -/
theorem withLength_of_replaceQuery {path query : Text}
    (hpath : req.path = replaceQuery path query) (hbody : req.body = .text []) :
    { req.withLength with
      params := req.params
      body := .text []
      path := replaceQuery req.withLength.path query } = req.withLength := by
  rw [HTTPRequest.path_withLength, hpath, replaceQuery_replaceQuery, ← hpath, ← hbody]
  rcases req.withLength_cases with heq | ⟨-, -, heq⟩ <;> rw [heq]

/-- The parameters that a calculation returns are those that it starts with the next
time. -/
def IsRepeatable (clock : Clock) (keys : HmacKeys) (version : ℤ)
    (calcSignature : OrderedDict Text ParamValue → Except AuthError CalcResult) : Prop :=
  ∀ params result, calcSignature (stampedParams clock keys version params) = .ok result →
    calcSignature (stampedParams clock keys version result.params) = .ok result

theorem querySignatureHelper_withLength
    {calcSignature : OrderedDict Text ParamValue → Except AuthError CalcResult}
    (hcalc : IsRepeatable clock keys version calcSignature)
    (hsigned : QuerySignatureHelper.addAuth clock keys req version calcSignature =
      .ok signed) :
    QuerySignatureHelper.addAuth clock keys signed.withLength version calcSignature =
      .ok signed.withLength := by
  obtain ⟨result, hresult, hsigned⟩ := except_bind_eq_ok.mp hsigned
  have hagain := hcalc _ _ hresult
  split at hsigned
  · rename_i hpost
    cases hsigned
    rw [HTTPRequest.withLength, if_pos (by simp), QuerySignatureHelper.addAuth]
    dsimp only
    rw [hagain]
    change (if req.method = "POST".toList then _ else _) = _
    rw [if_pos hpost]
    refine congrArg Except.ok ?_
    rw [OrderedDict.set_eq_self (by simp), OrderedDict.set_eq_self (by simp)]
  · rename_i hpost
    cases hsigned
    generalize hplaced : HTTPRequest.mk .. = placed
    have hmethod : placed.withLength.method ≠ "POST".toList := by
      rw [HTTPRequest.method_withLength, ← hplaced]
      exact hpost
    have hparams : placed.params = result.params := by rw [← hplaced]
    rw [QuerySignatureHelper.addAuth, HTTPRequest.params_withLength, hparams, hagain]
    change (if placed.withLength.method = "POST".toList then _ else _) = _
    rw [if_neg hmethod, ← hparams]
    exact congrArg Except.ok (withLength_of_replaceQuery (by rw [← hplaced]) (by rw [← hplaced]))

theorem querySignatureV1_withLength
    (hsigned : QuerySignatureV1AuthHandler.addAuth library clock keys req = .ok signed) :
    QuerySignatureV1AuthHandler.addAuth library clock keys signed.withLength =
      .ok signed.withLength := by
  refine querySignatureHelper_withLength (fun params result hresult => ?_) hsigned
  have hparams : result.params = stampedParams clock keys 1 params := by
    obtain ⟨pairs, -, hresult⟩ := except_bind_eq_ok.mp hresult
    cases hresult
    rfl
  rw [hparams, isStamped_stampedParams.stampedParams_eq, hresult]

theorem IsStamped.methodParams (hstamped : IsStamped clock keys version params) :
    IsStamped clock keys version (QuerySignatureV2AuthHandler.methodParams keys params) := by
  rw [QuerySignatureV2AuthHandler.methodParams]
  cases keys.provider.token? with
  | none => exact hstamped.set (by decide)
  | some token => exact (hstamped.set (by decide)).set (by decide)

theorem methodParams_methodParams (params : OrderedDict Text ParamValue) :
    QuerySignatureV2AuthHandler.methodParams keys
      (QuerySignatureV2AuthHandler.methodParams keys params) =
        QuerySignatureV2AuthHandler.methodParams keys params := by
  simp only [QuerySignatureV2AuthHandler.methodParams]
  cases keys.provider.token? with
  | none => exact OrderedDict.set_eq_self (by simp)
  | some token =>
      dsimp only
      rw [@OrderedDict.set_eq_self _ _ _ _ "SignatureMethod".toList, OrderedDict.set_set]
      simp

theorem isRepeatable_calcSignature (verb path serverName : Text) :
    IsRepeatable clock keys 2
      (QuerySignatureV2AuthHandler.calcSignature library keys verb path serverName) := by
  intro params result hresult
  have hparams : result.params =
      QuerySignatureV2AuthHandler.methodParams keys (stampedParams clock keys 2 params) := by
    obtain ⟨qs, -, hresult⟩ := except_bind_eq_ok.mp hresult
    cases hresult
    rfl
  rw [hparams, isStamped_stampedParams.methodParams.stampedParams_eq,
    QuerySignatureV2AuthHandler.calcSignature, methodParams_methodParams, ← hresult,
    QuerySignatureV2AuthHandler.calcSignature]

theorem querySignatureHelper_isQuoted {env : Environment}
    {calcSignature : OrderedDict Text ParamValue → Except AuthError CalcResult}
    (hquoted : req.IsQuoted env)
    (hsigned : QuerySignatureHelper.addAuth clock keys req version calcSignature =
      .ok signed) : signed.IsQuoted env := by
  obtain ⟨result, -, hsigned⟩ := except_bind_eq_ok.mp hsigned
  split at hsigned
  · cases hsigned
    refine ⟨hquoted.flag, ?_⟩
    rw [OrderedDict.get?_set, if_neg (by decide), OrderedDict.get?_set, if_neg (by decide),
      hquoted.userAgent]
  · cases hsigned
    exact ⟨hquoted.flag, hquoted.userAgent⟩

theorem postPathQSV2_isQuoted {env : Environment} (hquoted : req.IsQuoted env)
    (hsigned : POSTPathQSV2AuthHandler.addAuth library clock keys req = .ok signed) :
    signed.IsQuoted env := by
  obtain ⟨result, -, hsigned⟩ := except_bind_eq_ok.mp hsigned
  split at hsigned
  · cases hsigned
    refine ⟨hquoted.flag, ?_⟩
    rw [OrderedDict.get?_set, if_neg (by decide), OrderedDict.get?_set, if_neg (by decide),
      hquoted.userAgent]
  · cases hsigned
    exact ⟨hquoted.flag, hquoted.userAgent⟩

/-- What identifies the request is not changed. -/
theorem querySignatureHelper_same
    {calcSignature : OrderedDict Text ParamValue → Except AuthError CalcResult}
    (hsigned : QuerySignatureHelper.addAuth clock keys req version calcSignature =
      .ok signed) :
    signed.method = req.method ∧ signed.authPath = req.authPath ∧ signed.host = req.host := by
  obtain ⟨result, -, hsigned⟩ := except_bind_eq_ok.mp hsigned
  split at hsigned <;> cases hsigned <;> exact ⟨rfl, rfl, rfl⟩

theorem querySignatureV2_withLength
    (hsigned : QuerySignatureV2AuthHandler.addAuth library clock keys req = .ok signed) :
    QuerySignatureV2AuthHandler.addAuth library clock keys signed.withLength =
      .ok signed.withLength := by
  obtain ⟨hmethod, hauthPath, hhost⟩ := querySignatureHelper_same hsigned
  rw [QuerySignatureV2AuthHandler.addAuth, HTTPRequest.method_withLength,
    HTTPRequest.authPath_withLength, HTTPRequest.host_withLength, hmethod, hauthPath, hhost]
  exact querySignatureHelper_withLength (isRepeatable_calcSignature _ _ _) hsigned

theorem postPathQSV2_withLength
    (hsigned : POSTPathQSV2AuthHandler.addAuth library clock keys req = .ok signed) :
    POSTPathQSV2AuthHandler.addAuth library clock keys signed.withLength =
      .ok signed.withLength := by
  obtain ⟨result, hresult, hsigned⟩ := except_bind_eq_ok.mp hsigned
  have hagain := isRepeatable_calcSignature req.method req.authPath req.host _ _ hresult
  split at hsigned
  · rename_i hpost
    cases hsigned
    rw [HTTPRequest.withLength, if_pos (by simp), POSTPathQSV2AuthHandler.addAuth]
    dsimp only
    rw [hagain]
    change (if req.method = "POST".toList then _ else _) = _
    rw [if_pos hpost]
    refine congrArg Except.ok ?_
    rw [OrderedDict.set_eq_self (by simp), OrderedDict.set_eq_self (by simp),
      replaceQuery_replaceQuery]
  · rename_i hpost
    cases hsigned
    generalize hplaced : HTTPRequest.mk .. = placed
    have hmethod : placed.withLength.method ≠ "POST".toList := by
      rw [HTTPRequest.method_withLength, ← hplaced]
      exact hpost
    have hparams : placed.params = result.params := by rw [← hplaced]
    have hresult : QuerySignatureV2AuthHandler.calcSignature library keys
        placed.withLength.method placed.withLength.authPath placed.withLength.host
        (stampedParams clock keys 2 placed.withLength.params) = .ok result := by
      rw [HTTPRequest.method_withLength, HTTPRequest.authPath_withLength,
        HTTPRequest.host_withLength, HTTPRequest.params_withLength, hparams, ← hplaced]
      exact hagain
    rw [POSTPathQSV2AuthHandler.addAuth, hresult]
    change (if placed.withLength.method = "POST".toList then _ else _) = _
    rw [if_neg hmethod, ← hparams]
    exact congrArg Except.ok (withLength_of_replaceQuery (by rw [← hplaced]) (by rw [← hplaced]))

end

end Boto.Auth
