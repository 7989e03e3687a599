import Boto.Auth.S3SignedQuery
import Boto.Auth.SigV4Retries

/-!
# Authorizing a request twice

A retry signs the same request, except that the handler for S3 signs a length that the
first attempt has not signed.  Its list of signed headers grows, and with it the header
that carries the signature.
-/

namespace Boto.Auth

/-! ## The length of a signature -/

section

variable {library : Library} {clock : Clock} {handler : HmacAuthV4Handler}
  {req signed other : HTTPRequest} {headers : OrderedDict Text Data} {separator : Char}

theorem length_join {texts : List Text} (hne : texts ≠ []) :
    (join separator texts).length + 1 =
      PercentEncoding.total (fun text => text.length + 1) texts := by
  induction texts with
  | nil => exact absurd rfl hne
  | cons text texts ih =>
      by_cases hempty : texts = []
      · subst hempty
        simp [join, PercentEncoding.total]
      · rw [join_cons_of_ne_nil hempty, PercentEncoding.total, ← ih hempty]
        simp only [List.length_append, List.length_cons]
        omega

theorem length_hexlify (bytes : Bytes) : (hexlify bytes).length = 2 * bytes.length := by
  induction bytes with
  | nil => rfl
  | cons b bytes ih =>
      rw [hexlify, List.flatMap_cons, List.length_append, List.length_cons]
      rw [hexlify] at ih
      rw [ih, show (hexDigits b).length = 2 from rfl]
      omega

theorem length_signature (toSign : Text) :
    (HmacAuthV4Handler.signature library handler req toSign).length = 64 := by
  rw [HmacAuthV4Handler.signature, length_hexlify, HmacAuthV4Handler.sign,
    (library.hmacSha256 _ _).property]

/-- A header that is set for the first time is one more that is signed. -/
theorem signedHeaders_length_lt {value : Data} (hne : headers.items ≠ []) {name : Text}
    (hname : name ∉ headers.keys) :
    (HmacAuthV4Handler.signedHeaders headers).length <
      (HmacAuthV4Handler.signedHeaders (headers.set name value)).length := by
  have hnames : (headers.set name value).keys = headers.keys ++ [name] := by
    rw [OrderedDict.keys, OrderedDict.items_set_of_notMem hname, List.map_append]
    rfl
  have hlength : ∀ headers : OrderedDict Text Data, headers.keys ≠ [] →
      (HmacAuthV4Handler.signedHeaders headers).length + 1 =
        PercentEncoding.total (fun text => text.length + 1)
          (headers.keys.map HmacAuthV4Handler.canonicalName) := by
    intro headers hkeys
    rw [HmacAuthV4Handler.signedHeaders, length_join, PercentEncoding.total_perm]
    · exact sorted_perm _
    · refine sorted_ne_nil fun hempty => hkeys (List.map_eq_nil_iff.mp hempty)
  have hold := hlength headers fun hempty => hne (List.map_eq_nil_iff.mp hempty)
  have hnew := hlength (headers.set name value) (by rw [hnames]; simp)
  rw [hnames, List.map_append, PercentEncoding.total_append, ← hold] at hnew
  simp only [List.map_cons, List.map_nil, PercentEncoding.total] at hnew
  omega

/-- How long the header of a signature is. -/
theorem signRequest_length {methods : V4Methods}
    (hsigned : HmacAuthV4Handler.signRequest library methods handler req = .ok signed) :
    ∃ date region headersToSign text, HmacAuthV4Handler.amzDate req = .ok date ∧
      methods.determineRegionName handler req.host = .ok region ∧
      methods.headersToSign handler (inScope req (date.take 8) region
        (methods.determineServiceName handler req.host)) = .ok headersToSign ∧
      signed.headers = req.headers.set "Authorization".toList (.text text) ∧
      text.length = (HmacAuthV4Handler.scope handler (inScope req (date.take 8) region
        (methods.determineServiceName handler req.host))).length +
          (HmacAuthV4Handler.signedHeaders headersToSign).length + 118 := by
  obtain ⟨canonical, -, hsigned⟩ := except_bind_eq_ok.mp hsigned
  obtain ⟨⟨toSign, dated⟩, hdated, hsigned⟩ := except_bind_eq_ok.mp hsigned
  obtain ⟨headersToSign, hheaders, hsigned⟩ := except_bind_eq_ok.mp hsigned
  cases hsigned
  obtain ⟨date, hamzDate, hdated⟩ := except_bind_eq_ok.mp hdated
  obtain ⟨⟨scope, _⟩, hscope, hdated⟩ := except_bind_eq_ok.mp hdated
  cases hdated
  obtain ⟨_, hamzDate', hscope⟩ := except_bind_eq_ok.mp hscope
  cases hamzDate.symm.trans hamzDate'
  obtain ⟨region, hregion, hscope⟩ := except_bind_eq_ok.mp hscope
  cases hscope
  refine ⟨date, region, headersToSign, _, hamzDate, hregion, hheaders, rfl, ?_⟩
  rw [join_cons_of_ne_nil (by simp), join_cons_of_ne_nil (by simp)]
  simp only [join, List.intercalate, List.intersperse_singleton, List.flatten_cons,
    List.flatten_nil, List.append_nil, List.length_append, List.length_cons, length_signature]
  rw [show "AWS4-HMAC-SHA256 Credential=".toList.length = 28 by decide,
    show "SignedHeaders=".toList.length = 14 by decide,
    show "Signature=".toList.length = 10 by decide, inScope]
  omega

/-- The names of the signed headers are those of the request and the host. -/
theorem mem_keys_headersToSign (items : List (Text × Data)) (start : OrderedDict Text Data)
    (name : Text) :
    let signed := items.foldl (fun headersToSign item =>
      if lower item.1 = "authorization".toList then headersToSign
      else headersToSign.set item.1 item.2) start
    (name ∈ start.keys → name ∈ signed.keys) ∧
      (name ∈ signed.keys → name ∈ start.keys ∨ name ∈ items.map Prod.fst) := by
  induction items generalizing start with
  | nil => exact ⟨id, .inl⟩
  | cons item items ih =>
      dsimp only [List.foldl_cons]
      split
      · obtain ⟨hold, hnew⟩ := ih start
        exact ⟨hold, fun hin => (hnew hin).imp_right (List.mem_cons_of_mem _)⟩
      · obtain ⟨hold, hnew⟩ := ih (start.set item.1 item.2)
        refine ⟨fun hin => hold (OrderedDict.mem_keys_setItems.mpr (.inr hin)), fun hin => ?_⟩
        rcases hnew hin with hset | hlater
        · rcases OrderedDict.mem_keys_setItems.mp hset with rfl | hstart
          · exact .inr List.mem_cons_self
          · exact .inl hstart
        · exact .inr (List.mem_cons_of_mem _ hlater)

/-- A new header is signed after the others. -/
theorem headersToSign_set {name : Text} {value : Data} {signedHeaders : OrderedDict Text Data}
    (hheaders : S3HmacAuthV4Handler.headersToSign req = .ok signedHeaders)
    (hname : name ∉ req.headers.keys) (hlower : lower name ≠ "authorization".toList) :
    S3HmacAuthV4Handler.headersToSign { req with headers := req.headers.set name value } =
      .ok (signedHeaders.set name value) := by
  rw [S3HmacAuthV4Handler.headersToSign, Except.ok.injEq] at hheaders
  rw [S3HmacAuthV4Handler.headersToSign, Except.ok.injEq,
    OrderedDict.items_set_of_notMem hname, List.foldl_append, List.foldl_cons, List.foldl_nil,
    if_neg hlower, ← hheaders]
  rfl

theorem signedHeaders_headersToSign_lt {name : Text} {value : Data}
    {signedHeaders : OrderedDict Text Data}
    (hheaders : S3HmacAuthV4Handler.headersToSign req = .ok signedHeaders)
    (hname : name ∉ req.headers.keys) (hhost : name ≠ "Host".toList) :
    (HmacAuthV4Handler.signedHeaders signedHeaders).length <
      (HmacAuthV4Handler.signedHeaders (signedHeaders.set name value)).length := by
  rw [S3HmacAuthV4Handler.headersToSign, Except.ok.injEq] at hheaders
  have hkeys := mem_keys_headersToSign req.headers.items
    (OrderedDict.empty.set "Host".toList (.text (S3HmacAuthV4Handler.hostHeader req)))
  rw [hheaders] at hkeys
  refine signedHeaders_length_lt (fun hempty => ?_) fun hin => ?_
  · have hin := (hkeys "Host".toList).1 (by simp [OrderedDict.keys, OrderedDict.set,
      OrderedDict.setItems, OrderedDict.empty])
    rw [OrderedDict.keys, hempty] at hin
    cases hin
  · rcases (hkeys name).2 hin with hin | hin
    · exact hhost (List.mem_singleton.mp hin)
    · exact hname hin

/-- A signature that covers a length as well is sent in a longer header. -/
theorem signRequest_ne_of_length {value : Data}
    (hdated : IsDatedV4 clock handler req.headers)
    (hsigned : HmacAuthV4Handler.signRequest library S3HmacAuthV4Handler.ownMethods handler
      req = .ok signed)
    (hlength : "Content-Length".toList ∉ signed.headers.keys)
    (hagain : HmacAuthV4Handler.signRequest library S3HmacAuthV4Handler.ownMethods handler
      { req with headers := signed.headers.set "Content-Length".toList value } = .ok other) :
    other.headers.get? "Authorization".toList ≠
      signed.headers.get? "Authorization".toList := by
  obtain ⟨date, region, headersToSign, text, hdate, hregion, hheaders, hset, htext⟩ :=
    signRequest_length hsigned
  obtain ⟨date', region', headersToSign', text', hdate', hregion', hheaders', hset', htext'⟩ :=
    signRequest_length hagain
  have hdated' : IsDatedV4 clock handler
      (signed.headers.set "Content-Length".toList value) := by
    rw [hset]
    exact (hdated.set (by decide)).set (by decide)
  rw [HmacAuthV4Handler.amzDate, hdated.date] at hdate
  rw [HmacAuthV4Handler.amzDate, hdated'.date] at hdate'
  cases hdate
  cases hdate'
  cases hregion.symm.trans hregion'
  have hplaced : S3HmacAuthV4Handler.headersToSign { req with headers := signed.headers } =
      .ok headersToSign := by
    rw [hset]
    exact ((@ignoresHeader_s3 library handler).headers req (.text text)).trans hheaders
  have hgrown := @headersToSign_set { req with headers := signed.headers }
    "Content-Length".toList value headersToSign hplaced hlength (by decide)
  have hlt := @signedHeaders_headersToSign_lt { req with headers := signed.headers }
    "Content-Length".toList value headersToSign hplaced hlength (by decide)
  obtain rfl := Except.ok.inj (hheaders'.symm.trans hgrown)
  rw [hset', hset, OrderedDict.get?_set, if_pos rfl, OrderedDict.get?_set, if_pos rfl]
  intro htexts
  cases htexts
  have hsame := htext'.symm.trans htext
  change (HmacAuthV4Handler.scope handler (inScope req _ _ _)).length + _ + 118 =
    (HmacAuthV4Handler.scope handler (inScope req _ _ _)).length + _ + 118 at hsame
  rw [Nat.add_right_cancel_iff, Nat.add_left_cancel_iff] at hsame
  exact Nat.ne_of_gt hlt hsame

/-- A length that is set after the first attempt for S3 makes the second one different. -/
theorem s3HmacAuthV4_length {semicolons : Bool} {value : Data}
    (hsigned : S3HmacAuthV4Handler.addAuth library clock handler req semicolons = .ok signed)
    (hlength : "Content-Length".toList ∉ signed.headers.keys)
    (hagain : S3HmacAuthV4Handler.addAuth library clock handler
      { signed with headers := signed.headers.set "Content-Length".toList value }
        semicolons = .ok other) :
    other.headers.get? "Authorization".toList ≠
      signed.headers.get? "Authorization".toList := by
  obtain ⟨placed, inner, hsign, heq, hdated, hsame⟩ := addAuthS3_again hsigned
  obtain ⟨auth, hinner, -⟩ := signRequest_alike hsign
  have hheaders : signed.headers = inner.headers := by rw [heq]
  have hstale : (signed.headers.set "Content-Length".toList value).get?
      "X-Amzn-Authorization".toList = none := by
    rw [hheaders, hinner]
    exact ((hdated.set (by decide)).set (by decide)).stale
  have hkept : ∀ name data, signed.headers.get? name = some data →
      (signed.headers.set "Content-Length".toList value).get? name = some data := by
    intro name data hget
    rw [OrderedDict.get?_set, if_neg, hget]
    rintro rfl
    exact hlength (OrderedDict.contains_iff.mp (by rw [OrderedDict.contains, hget]; rfl))
  rw [hsame _ hkept hstale] at hagain
  cases hsign' : HmacAuthV4Handler.signRequest library S3HmacAuthV4Handler.ownMethods handler
      { placed with headers := signed.headers.set "Content-Length".toList value } with
  | error error =>
      rw [hsign'] at hagain
      cases hagain
  | ok inner' =>
      rw [hsign'] at hagain
      cases hagain
      change inner'.headers.get? _ ≠ _
      rw [hheaders] at hlength hsign' ⊢
      exact signRequest_ne_of_length hdated hsign hlength hsign'

end

/-! ## Authorizing twice -/

/-- Whether a length is there before an attempt for S3 is signed, or is never added. -/
def HasLength (req : HTTPRequest) : Prop :=
  req.headers.contains "Content-Length".toList = true ∨
    req.headers.get? "Transfer-Encoding".toList = some (.text "chunked".toList) ∨
      req.method = "POST".toList ∧ req.params.items ≠ []

section

variable {env : Environment} {handler : AuthHandler} {req once : HTTPRequest}

/-- Quoting leaves the name of a coding alone, and gives it for no other text. -/
theorem quoteHeader_eq_chunked_iff {value : Data} :
    HTTPRequest.quoteHeader value = .text "chunked".toList ↔ value = .text "chunked".toList := by
  refine ⟨fun heq => ?_, ?_⟩
  · cases value with
    | bytes content => cases heq
    | text content =>
        rw [HTTPRequest.quoteHeader, quote, Data.text.injEq] at heq
        have hpercent : '%' ∉ PercentEncoding.quote _ (encodeUtf8 content) :=
          heq.symm ▸ (by decide : '%' ∉ "chunked".toList)
        have hbytes := PercentEncoding.quote_eq_map_of_notMem hpercent
        rw [heq] at hbytes
        have hread := congrArg (List.map PercentEncoding.asciiByte) hbytes
        rw [List.map_map, show PercentEncoding.asciiByte ∘ (fun b => Char.ofNat b.toNat) = id
          from funext PercentEncoding.asciiByte_ofNat, List.map_id] at hread
        rw [← PercentEncoding.decode_encode content]
        change Data.text (PercentEncoding.decode (encodeUtf8 content)) = _
        rw [← hread]
        decide +kernel
  · rintro rfl
    decide +kernel

theorem hasLength_quoted : HasLength (req.quoted env) ↔ HasLength req := by
  have hother : ∀ name, name ≠ "User-Agent".toList →
      (req.quoted env).headers.get? name = (req.headers.get? name).map
        (if req.headersQuoted then id else HTTPRequest.quoteHeader) := by
    intro name hname
    rw [HTTPRequest.quoted, OrderedDict.get?_set, if_neg hname]
    split
    · rw [Option.map_id, id]
    · rw [OrderedDict.get?_mapValues]
  have hlength : (req.quoted env).headers.contains "Content-Length".toList =
      req.headers.contains "Content-Length".toList := by
    rw [OrderedDict.contains, hother _ (by decide), Option.isSome_map, OrderedDict.contains]
  have hchunked : (req.quoted env).headers.get? "Transfer-Encoding".toList =
      some (.text "chunked".toList) ↔ req.headers.get? "Transfer-Encoding".toList =
        some (.text "chunked".toList) := by
    rw [hother _ (by decide), Option.map_eq_some_iff]
    split
    · simp
    · simp only [quoteHeader_eq_chunked_iff, exists_eq_right]
  rw [HasLength, hlength, hchunked, HasLength]
  rfl

theorem queryPairs_ne_nil_iff {library : Library} {quoteName quoteValue : Text → Text}
    {names : List Text} {params : OrderedDict Text ParamValue} {qs : Text}
    (hqs : HmacAuthV4Handler.queryPairs library quoteName quoteValue names params = .ok qs) :
    qs ≠ [] ↔ names ≠ [] := by
  obtain ⟨pairs, hpairs, hqs⟩ := except_bind_eq_ok.mp hqs
  cases hqs
  cases names with
  | nil =>
      cases hpairs
      simp [join]
  | cons name names =>
      rw [List.mapM_cons] at hpairs
      obtain ⟨pair, hpair, hpairs⟩ := except_bind_eq_ok.mp hpairs
      obtain ⟨others, -, hpairs⟩ := except_bind_eq_ok.mp hpairs
      cases hpairs
      obtain ⟨value, -, hpair⟩ := except_bind_eq_ok.mp hpair
      cases hpair
      refine iff_of_true (fun hempty => ?_) (List.cons_ne_nil _ _)
      have hin : '=' ∈ join '&'
          ((quoteName name ++ '=' :: quoteValue value) :: others) :=
        mem_join_of_mem List.mem_cons_self (by simp)
      rw [hempty] at hin
      cases hin

/-- Whether there is a length after an attempt for S3. -/
theorem contains_length_addAuthS3 {library : Library} {clock : Clock}
    {keys : HmacAuthV4Handler} {semicolons : Bool} {signed : HTTPRequest}
    (hsigned : S3HmacAuthV4Handler.addAuth library clock keys req semicolons = .ok signed) :
    (signed.headers.contains "Content-Length".toList = true ↔
      req.headers.contains "Content-Length".toList = true ∨
        req.method = "POST".toList ∧ req.params.items ≠ []) ∧
    signed.headers.get? "Transfer-Encoding".toList =
      req.headers.get? "Transfer-Encoding".toList := by
  obtain ⟨hashed, updated, inner, hhashed, hupdated, hinner, rfl⟩ := addAuthS3_cases hsigned
  obtain ⟨qs, qsToPost, hqs, hqsToPost, hsign⟩ := addAuthV4_cases hinner
  obtain ⟨auth, heq, -⟩ := signRequest_alike hsign
  have hkept := headers_manglePathAndParams hupdated
  have hmethod : updated.method = req.method := by
    obtain ⟨parsed, -, hupdated⟩ := except_bind_eq_ok.mp hupdated
    cases hupdated
    rfl
  have hdated : ∀ name, name ∉ ["X-Amzn-Authorization".toList, "X-Amz-Date".toList,
      "X-Amz-Security-Token".toList, "x-amz-content-sha256".toList, "_sha256".toList] →
      (HmacAuthV4Handler.datedHeaders clock keys updated).get? name =
        req.headers.get? name := by
    intro name hname
    rw [get?_datedHeadersV4 fun hin => hname (List.mem_append_left
      ["x-amz-content-sha256".toList, "_sha256".toList] hin), hkept]
    exact get?_hashedHeaders (fun hin => hname (List.mem_append_right
      ["X-Amzn-Authorization".toList, "X-Amz-Date".toList, "X-Amz-Security-Token".toList]
        hin)) hhashed
  have hset : ∀ name, name ≠ "Authorization".toList → inner.headers.get? name =
      (HmacAuthV4Handler.placeQuery { updated with
        headers := HmacAuthV4Handler.datedHeaders clock keys updated }
          qs qsToPost).headers.get? name := by
    intro name hname
    rw [heq]
    exact OrderedDict.get?_set.trans (if_neg hname)
  constructor
  · change inner.headers.contains _ = true ↔ _
    rw [OrderedDict.contains, hset _ (by decide), HmacAuthV4Handler.placeQuery]
    have hparams : qsToPost ≠ [] ↔ req.params.items ≠ [] := by
      rw [queryPairs_ne_nil_iff hqsToPost]
      refine not_congr ⟨fun hempty => ?_, fun hempty => ?_⟩
      · have hkeys := (sorted_perm req.params.keys).symm
        rw [show sorted req.params.keys = [] from hempty] at hkeys
        exact List.map_eq_nil_iff.mp (List.perm_nil.mp hkeys)
      · change sorted req.params.keys = []
        rw [OrderedDict.keys, hempty]
        rfl
    split
    · rename_i hpost
      refine iff_of_true (by simp) (.inr ⟨hmethod.symm.trans hpost.2, hparams.mp hpost.1⟩)
    · rename_i hpost
      rw [hdated _ (by decide), ← OrderedDict.contains, or_iff_left]
      exact fun hin => hpost ⟨hparams.mpr hin.2, hmethod.trans hin.1⟩
  · change inner.headers.get? _ = _
    rw [hset _ (by decide), get?_placeQuery (by decide), hdated _ (by decide)]

theorem addAuthV4_isQuoted {library : Library} {clock : Clock} {methods : V4Methods}
    {keys : HmacAuthV4Handler} {unmangledReq : Option HTTPRequest} {signed : HTTPRequest}
    (hquoted : req.IsQuoted env)
    (hsigned : HmacAuthV4Handler.addAuth library clock methods keys req unmangledReq =
      .ok signed) : signed.IsQuoted env := by
  obtain ⟨qs, qsToPost, -, -, hsign⟩ := addAuthV4_cases hsigned
  obtain ⟨auth, heq, -⟩ := signRequest_alike hsign
  rw [heq]
  refine ⟨?_, ?_⟩
  · change (HmacAuthV4Handler.placeQuery _ qs qsToPost).headersQuoted = true
    rw [HmacAuthV4Handler.placeQuery]
    split <;> exact hquoted.flag
  · refine OrderedDict.get?_set.trans ((if_neg (by decide)).trans ?_)
    rw [get?_placeQuery (by decide)]
    exact (get?_datedHeadersV4 (by decide)).trans hquoted.userAgent

theorem addAuthS3_isQuoted {library : Library} {clock : Clock} {keys : HmacAuthV4Handler}
    {semicolons : Bool} {signed : HTTPRequest} (hquoted : req.IsQuoted env)
    (hsigned : S3HmacAuthV4Handler.addAuth library clock keys req semicolons = .ok signed) :
    signed.IsQuoted env := by
  obtain ⟨hashed, updated, inner, hhashed, hupdated, hinner, rfl⟩ := addAuthS3_cases hsigned
  have hupdatedQuoted : updated.IsQuoted env := by
    refine ⟨?_, ?_⟩
    · obtain ⟨parsed, -, hupdated⟩ := except_bind_eq_ok.mp hupdated
      cases hupdated
      exact hquoted.flag
    · rw [headers_manglePathAndParams hupdated]
      exact (get?_hashedHeaders (by decide) hhashed).trans hquoted.userAgent
  exact ⟨hquoted.flag, (addAuthV4_isQuoted hupdatedQuoted hinner).userAgent⟩

/-- What was set before the request is signed is kept. -/
theorem addAuth_isQuoted {signed : HTTPRequest} (hquoted : req.IsQuoted env)
    (hsigned : handler.addAuth env req = .ok signed) : signed.IsQuoted env := by
  rw [AuthHandler.addAuth.eq_def] at hsigned
  cases handler with
  | hmacAuthV1 keys =>
      dsimp only [HmacAuthV1Handler.addAuth] at hsigned
      exact signHeaders_isQuoted (by decide) hquoted hsigned
  | hmacAuthV2 keys =>
      dsimp only [HmacAuthV2Handler.addAuth] at hsigned
      exact signHeaders_isQuoted (by decide) hquoted hsigned
  | hmacAuthV3 keys =>
      dsimp only [HmacAuthV3Handler.addAuth] at hsigned
      exact signHeaders_isQuoted (by decide) hquoted hsigned
  | hmacAuthV4 keys => exact addAuthV4_isQuoted hquoted hsigned
  | s3HmacAuthV4 keys => exact addAuthS3_isQuoted hquoted hsigned
  | querySignatureV1 keys => exact querySignatureHelper_isQuoted hquoted hsigned
  | querySignatureV2 keys => exact querySignatureHelper_isQuoted hquoted hsigned
  | postPathQSV2 keys => exact postPathQSV2_isQuoted hquoted hsigned

/-- A second attempt signs the request with its length in the same way. -/
theorem addAuth_withLength {signed : HTTPRequest}
    (hs3 : ∀ keys, handler = .s3HmacAuthV4 keys → signed.withLength = signed)
    (hsigned : handler.addAuth env req = .ok signed) :
    handler.addAuth env signed.withLength = .ok signed.withLength := by
  rw [AuthHandler.addAuth.eq_def] at hsigned ⊢
  cases handler with
  | hmacAuthV1 keys => exact hmacAuthV1_withLength hsigned
  | hmacAuthV2 keys => exact hmacAuthV2_withLength hsigned
  | hmacAuthV3 keys => exact hmacAuthV3_withLength hsigned
  | hmacAuthV4 keys => exact hmacAuthV4_withLength hsigned
  | s3HmacAuthV4 keys =>
      rw [hs3 keys rfl]
      exact s3HmacAuthV4_again hsigned
  | querySignatureV1 keys => exact querySignatureV1_withLength hsigned
  | querySignatureV2 keys => exact querySignatureV2_withLength hsigned
  | postPathQSV2 keys => exact postPathQSV2_withLength hsigned

/-- With a length, or a coding that needs none, nothing is added after an attempt for S3. -/
theorem withLength_addAuthS3_iff {keys : HmacAuthV4Handler} {signed : HTTPRequest}
    (hsigned : S3HmacAuthV4Handler.addAuth env.library env.clock keys req env.semicolons =
      .ok signed) : signed.withLength = signed ↔ HasLength req := by
  obtain ⟨hlength, hchunked⟩ := contains_length_addAuthS3 hsigned
  rw [HasLength, or_left_comm, ← hlength, ← hchunked]
  rw [HTTPRequest.withLength]
  split
  · rename_i hin
    exact iff_of_true rfl (.inr hin)
  · rename_i hnot
    split
    · rename_i hin
      exact iff_of_true rfl (.inl hin)
    · rename_i hneither
      refine iff_of_false (fun heq => hnot ?_) (not_or.mpr ⟨hneither, hnot⟩)
      rw [← heq, OrderedDict.contains_set, decide_eq_true rfl, Bool.true_or]

/-- With a length, the second attempt sends the same. -/
theorem authorize_twice_of_hasLength (honce : req.authorize env handler = .ok once)
    (hlength : ∀ keys, handler = .s3HmacAuthV4 keys → HasLength req) :
    (once.authorize env handler).map HTTPRequest.sent = .ok once.sent := by
  obtain ⟨signed, hsigned, honce⟩ := except_bind_eq_ok.mp honce
  cases honce
  have hquoted : signed.withLength.quoted env = signed.withLength :=
    (addAuth_isQuoted HTTPRequest.isQuoted_quoted hsigned).withLength.quoted_eq
  rw [HTTPRequest.authorize, hquoted, addAuth_withLength (fun keys heq => ?_) hsigned]
  · change Except.ok signed.withLength.withLength.sent = _
    rw [HTTPRequest.withLength_withLength]
  · subst heq
    exact (withLength_addAuthS3_iff hsigned).mpr (hasLength_quoted.mpr (hlength keys rfl))

/-- For S3, the second attempt sends the same only with a length. -/
theorem hasLength_of_authorize_twice {keys : HmacAuthV4Handler}
    (honce : req.authorize env (.s3HmacAuthV4 keys) = .ok once)
    (htwice : (once.authorize env (.s3HmacAuthV4 keys)).map HTTPRequest.sent =
      .ok once.sent) : HasLength req := by
  obtain ⟨signed, hsigned, honce⟩ := except_bind_eq_ok.mp honce
  cases honce
  have hquoted : signed.withLength.quoted env = signed.withLength :=
    (addAuth_isQuoted HTTPRequest.isQuoted_quoted hsigned).withLength.quoted_eq
  rw [HTTPRequest.authorize, hquoted] at htwice
  rw [← @hasLength_quoted env, ← withLength_addAuthS3_iff hsigned]
  rcases signed.withLength_cases with heq | ⟨hnot, -, heq⟩
  · exact heq
  · exfalso
    rw [heq] at htwice
    cases hagain : (AuthHandler.s3HmacAuthV4 keys).addAuth env { signed with
        headers := signed.headers.set "Content-Length".toList
          (.text (decimal signed.body.length)) } with
    | error error =>
        rw [hagain] at htwice
        cases htwice
    | ok twice =>
        rw [hagain] at htwice
        have hkeys : "Content-Length".toList ∉ signed.headers.keys := by
          rw [← OrderedDict.contains_iff, hnot]
          exact Bool.false_ne_true
        refine s3HmacAuthV4_length hsigned hkeys hagain ?_
        have hheaders := congrArg HTTPRequest.Sent.headers (Except.ok.inj htwice)
        have hget := congrArg (fun headers => OrderedDict.get? headers
          "Authorization".toList) hheaders
        change twice.withLength.headers.get? _ = (signed.headers.set _ _).get? _ at hget
        rwa [HTTPRequest.get?_withLength (by decide), OrderedDict.get?_set,
          if_neg (by decide)] at hget

/-- A second attempt changes nothing, except for S3 without a length. -/
theorem authorize_twice_iff (honce : req.authorize env handler = .ok once) :
    (once.authorize env handler).map HTTPRequest.sent = .ok once.sent ↔
      ∀ keys, handler = .s3HmacAuthV4 keys → HasLength req := by
  refine ⟨fun htwice keys heq => ?_, authorize_twice_of_hasLength honce⟩
  subst heq
  exact hasLength_of_authorize_twice honce htwice

end

/-- What signing takes from outside, with digests of zeros. -/
def zeroEnvironment : Environment where
  library := zeroLibrary
  clock := stoppedClock
  semicolons := false
  userAgent := "Boto".toList

/-- The handler for S3 of a region. -/
def s3Handler : AuthHandler :=
  .s3HmacAuthV4 (S3HmacAuthV4Handler.init "h".toList HmacAuthV4Handler.plainHandler.provider
    none (some "us-east-1".toList))

/-- A successful attempt on a request with some headers. -/
theorem exists_authorized {headers : OrderedDict Text Data}
    (hok : ((HmacAuthV4Handler.requestWithHeaders headers).authorize zeroEnvironment
      s3Handler).toOption.isSome = true) :
    ∃ once, (HmacAuthV4Handler.requestWithHeaders headers).authorize zeroEnvironment
      s3Handler = .ok once := by
  cases honce : (HmacAuthV4Handler.requestWithHeaders headers).authorize zeroEnvironment
      s3Handler with
  | error error =>
      rw [honce] at hok
      cases hok
  | ok once => exact ⟨once, rfl⟩

theorem authorize_twice_length : ∃ once,
    (HmacAuthV4Handler.requestWithHeaders (OrderedDict.empty.set "Content-Length".toList
      (.text "0".toList))).authorize zeroEnvironment s3Handler = .ok once ∧
    (once.authorize zeroEnvironment s3Handler).map HTTPRequest.sent = .ok once.sent := by
  obtain ⟨once, honce⟩ := @exists_authorized (OrderedDict.empty.set "Content-Length".toList
    (.text "0".toList)) (by decide +kernel)
  refine ⟨once, honce, (authorize_twice_iff honce).mpr fun keys _ => .inl ?_⟩
  decide +kernel

/-- A request for S3 without a length is signed with it the second time. -/
theorem authorize_twice_ne : ¬∀ (env : Environment) (handler : AuthHandler)
    (req once : HTTPRequest), req.authorize env handler = .ok once →
      (once.authorize env handler).map HTTPRequest.sent = .ok once.sent := by
  intro hclaim
  obtain ⟨once, honce⟩ := @exists_authorized .empty (by decide +kernel)
  rcases hasLength_of_authorize_twice honce (hclaim _ _ _ _ honce) with hin | hin | ⟨-, hin⟩
  · revert hin
    decide +kernel
  · cases hin
  · exact hin rfl

end Boto.Auth
