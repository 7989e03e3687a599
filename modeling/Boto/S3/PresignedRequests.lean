import Boto.S3.PresignedUrl
import Boto.WrittenNumbers

/-!
# The requests of presigned URLs

The parameters that are signed are those of the call and those that `presign` sets, which
replace them.  From this the condition on a call follows: what has a space, what is parsed as
something else, and what has no host.
-/

namespace Boto.S3

open Auth (AuthError Clock HTTPRequest HmacAuthV4Handler Library ParamValue paramTexts
  servedPairs strInt valueText)
open Auth.S3HmacAuthV4Handler (canonicalUri determineRegionName headersToSign presignParams)
open Auth.HmacAuthV4Handler (canonicalName signedHeaders)

/-! ## The request -/

section

variable {connection : UrlConnection} {call : UrlCall} {host : Text}

theorem path_requestFor : (connection.requestFor call host).path =
    getPath ['/'] connection.suppressConsecSlashes
      (connection.callingFormat.buildPathBase call.bucket call.key) := rfl

/-- The headers of a request are those of the call and one for the host, up to one that may
be left out. -/
theorem headers_requestFor : ∃ headers : OrderedDict Text Text,
    (headers = call.headers ∨ ∃ text, headers = call.headers.set "host".toList text) ∧
      ((connection.requestFor call host).headers = headers.mapValues .text ∨
        (connection.requestFor call host).headers =
          (headers.mapValues .text).erase "Transfer-Encoding".toList) := by
  refine ⟨connection.hostedHeaders call.headers, ?_, ?_⟩
  · rw [UrlConnection.hostedHeaders]
    split
    · split
      · exact .inr ⟨_, rfl⟩
      · exact .inl rfl
    · exact .inl rfl
  · rw [UrlConnection.requestFor, UrlConnection.buildBaseHttpRequest, HTTPRequest.init]
    dsimp only
    split
    · exact .inr rfl
    · exact .inl rfl

/-- What a header of the request is from. -/
theorem get?_headers_requestFor {name : Text} {value : Data}
    (hget : (connection.requestFor call host).headers.get? name = some value) :
    (∃ text, value = .text text) ∧ (name ∈ call.headers.keys ∨ name = "host".toList) := by
  obtain ⟨headers, hfrom, hheaders⟩ := @headers_requestFor connection call host
  have hmapped : (headers.mapValues Data.text).get? name = some value := by
    rcases hheaders with heq | heq
    · rwa [heq] at hget
    · rw [heq, OrderedDict.get?_erase] at hget
      split at hget
      · cases hget
      · exact hget
  rw [OrderedDict.get?_mapValues] at hmapped
  obtain ⟨text, htext, rfl⟩ := Option.map_eq_some_iff.mp hmapped
  have hname : name ∈ headers.keys :=
    OrderedDict.contains_iff.mp (by rw [OrderedDict.contains, htext]; rfl)
  refine ⟨⟨text, rfl⟩, ?_⟩
  rcases hfrom with rfl | ⟨hostHeader, rfl⟩
  · exact .inl hname
  · exact (OrderedDict.mem_keys_setItems.mp hname).symm

/-- The headers of a call are sent, up to one. -/
theorem mem_headers_requestFor {name : Text} (hname : name ∈ call.headers.keys)
    (hencoding : name ≠ "Transfer-Encoding".toList) :
    name ∈ (connection.requestFor call host).headers.keys := by
  obtain ⟨headers, hfrom, hheaders⟩ := @headers_requestFor connection call host
  have hmem : name ∈ headers.keys := by
    rcases hfrom with rfl | ⟨hostHeader, rfl⟩
    · exact hname
    · exact OrderedDict.mem_keys_setItems.mpr (.inr hname)
  rw [← OrderedDict.keys_mapValues Data.text, ← OrderedDict.contains_iff,
    OrderedDict.contains] at hmem
  rw [← OrderedDict.contains_iff, OrderedDict.contains]
  rcases hheaders with heq | heq
  · rwa [heq]
  · rwa [heq, OrderedDict.get?_erase, if_neg hencoding]

/-- The digest of the body can be put into what is signed. -/
theorem payload_isOk {library : Library} {signed : HTTPRequest}
    (hheaders : signed.headers = (connection.requestFor call host).headers) :
    ∃ payload, Auth.S3HmacAuthV4Handler.payload library signed = .ok payload := by
  rw [Auth.S3HmacAuthV4Handler.payload, hheaders]
  split
  · rename_i value hget
    obtain ⟨⟨text, rfl⟩, -⟩ := get?_headers_requestFor hget
    split
    · exact ⟨_, rfl⟩
    · exact ⟨text, rfl⟩
  · exact ⟨_, rfl⟩

/-- Whether the path has a query depends on the bucket. -/
theorem query_notMem_path (connection : UrlConnection) (call : UrlCall) (host : Text) :
    '?' ∉ (connection.requestFor call host).path ↔
      (connection.callingFormat.isOrdinary = true → '?' ∉ call.bucket) := by
  have hkey := @notMem_quote '?' (by simp) call.key
  have hbase : '?' ∉ connection.callingFormat.buildPathBase call.bucket call.key ↔
      (connection.callingFormat.isOrdinary = true → '?' ∉ call.bucket) := by
    rw [CallingFormat.buildPathBase]
    split
    · rename_i hordinary
      by_cases hempty : call.bucket = []
      · simp [hempty, hkey]
      · simp [hempty, hkey, hordinary]
    · rename_i hordinary
      simp [hordinary, hkey]
  rw [path_requestFor, ← hbase]
  rw [buildPathBase_eq]
  cases connection.suppressConsecSlashes with
  | false => rfl
  | true =>
      rw [getPath_suppressed, List.mem_append, mem_suppressed (by decide), ← List.mem_append,
        pathPart, List.takeWhile_append_dropWhile]

end

/-! ## Headers that are signed -/

theorem mem_join_iff {separator c : Char} {texts : List Text} (hc : c ≠ separator) :
    c ∈ join separator texts ↔ ∃ text ∈ texts, c ∈ text :=
  ⟨fun hin => mem_of_mem_join hin hc, fun ⟨_, htext, hin⟩ => mem_join_of_mem htext hin⟩

/-- The list of signed headers has a space if the name of a header has. -/
theorem space_notMem_signedHeaders {connection : UrlConnection} {call : UrlCall} {host : Text}
    {headers : OrderedDict Text Data}
    (hheaders : headersToSign (connection.requestFor call host) = .ok headers) :
    ' ' ∉ signedHeaders headers ↔
      ∀ name ∈ call.headers.keys, lower name ≠ "authorization".toList →
        ' ' ∉ canonicalName name := by
  have hplain : ' ' ∉ canonicalName "Host".toList ∧ ' ' ∉ canonicalName "host".toList ∧
      ' ' ∉ canonicalName "Transfer-Encoding".toList := by decide
  have hkeys : ∀ name, name ∈ headers.keys ↔ name = "Host".toList ∨
      name ∈ (connection.requestFor call host).headers.keys ∧
        lower name ≠ "authorization".toList := by
    intro name
    cases hheaders
    have hmem := @OrderedDict.mem_keys_foldl_set _ _ _
      (connection.requestFor call host).headers.items name
      (fun name => lower name = "authorization".toList) _
      (OrderedDict.empty.set "Host".toList
        (.text (Auth.S3HmacAuthV4Handler.hostHeader (connection.requestFor call host))))
    exact hmem.trans (or_congr_left List.mem_singleton)
  have hspace : ' ' ∈ signedHeaders headers ↔ ∃ name ∈ headers.keys, ' ' ∈ canonicalName name := by
    rw [signedHeaders, mem_join_iff (by decide)]
    simp
  rw [hspace, not_exists]
  constructor
  · intro hnone name hname hauthorization hin
    by_cases hencoding : name = "Transfer-Encoding".toList
    · rw [hencoding] at hin
      exact hplain.2.2 hin
    · exact hnone name ⟨(hkeys name).mpr
        (.inr ⟨mem_headers_requestFor hname hencoding, hauthorization⟩), hin⟩
  · rintro hnone name ⟨hname, hin⟩
    rcases (hkeys name).mp hname with rfl | ⟨hsent, hauthorization⟩
    · exact hplain.1 hin
    · obtain ⟨value, hget⟩ : ∃ value,
          (connection.requestFor call host).headers.get? name = some value :=
        Option.isSome_iff_exists.mp (OrderedDict.contains_iff.mpr hsent)
      rcases (get?_headers_requestFor hget).2 with hcall | rfl
      · exact hnone name hcall hauthorization hin
      · exact hplain.2.1 hin

/-! ## Parameters that are signed -/

section

variable {library : Library} {clock : Clock} {connection : UrlConnection} {call : UrlCall}
  {host region : Text} {headers : OrderedDict Text Data}

theorem mem_params {item : Text × ParamValue} : item ∈ call.params.items ↔
    (∃ header ∈ call.responseHeaders.items, item = (header.1, .text header.2)) ∨
      "VersionId".toList ∉ call.responseHeaders.keys ∧
        ∃ version, call.versionId = some version ∧ item = ("VersionId".toList, .text version) := by
  have hkeys : ((call.responseHeaders.mapValues ParamValue.text).items.map Prod.fst) =
      call.responseHeaders.keys := OrderedDict.keys_mapValues _ _
  have hnodup := (call.responseHeaders.mapValues ParamValue.text).nodup
  have hmapped : item ∈ (call.responseHeaders.mapValues ParamValue.text).items ↔
      ∃ header ∈ call.responseHeaders.items, item = (header.1, .text header.2) := by
    rw [OrderedDict.items_mapValues, List.mem_map]
    simp only [eq_comm]
  rw [UrlCall.params, OrderedDict.update, OrderedDict.mem_items_foldl_set hnodup, hmapped, hkeys]
  refine or_congr_right ?_
  cases call.versionId with
  | none => simp [OrderedDict.empty]
  | some version =>
      have hset : item ∈ (OrderedDict.empty.set "VersionId".toList
          (ParamValue.text version)).items ↔ item = ("VersionId".toList, .text version) :=
        List.mem_singleton
      dsimp only
      rw [hset]
      constructor
      · rintro ⟨hname, rfl⟩
        exact ⟨hname, version, rfl, rfl⟩
      · rintro ⟨hname, found, hfound, rfl⟩
        cases hfound
        exact ⟨hname, rfl⟩

/-- What `presign` sets. -/
abbrev UrlConnection.presignedParams (clock : Clock) (connection : UrlConnection)
    (call : UrlCall) (host region : Text) (headers : OrderedDict Text Data) :
    List (Text × ParamValue) :=
  presignParams connection.handler call.expiresIn (call.isoDate.getD clock.isoDate) region
    (Auth.S3HmacAuthV4Handler.determineServiceName host) headers

/-- The request that is signed for a call. -/
abbrev UrlConnection.signedRequest (clock : Clock) (connection : UrlConnection)
    (call : UrlCall) (host region : Text) (headers : OrderedDict Text Data) : HTTPRequest :=
  withParams clock connection.handler (connection.requestFor call host) call.expiresIn
    call.isoDate region headers

/-- What `presign` sets for a token comes behind the other parameters. -/
theorem presignedParams_eq : connection.presignedParams clock call host region headers =
    [("X-Amz-Algorithm".toList, .text "AWS4-HMAC-SHA256".toList),
      ("X-Amz-Credential".toList, .text (join '/' [connection.handler.provider.accessKey,
        (call.isoDate.getD clock.isoDate).take 8, region,
        Auth.S3HmacAuthV4Handler.determineServiceName host, "aws4_request".toList])),
      ("X-Amz-Date".toList, .text (call.isoDate.getD clock.isoDate)),
      ("X-Amz-Expires".toList, .int call.expiresIn),
      ("X-Amz-SignedHeaders".toList, .text (signedHeaders headers))] ++
    connection.handler.provider.token?.toList.map fun token =>
      ("X-Amz-Security-Token".toList, .text token) := by
  rw [UrlConnection.presignedParams, presignParams]
  cases connection.handler.provider.token? <;> rfl

theorem names_presignedParams :
    (connection.presignedParams clock call host region headers).map Prod.fst =
      presignNames connection.handler := by
  rw [UrlConnection.presignedParams, presignParams, presignNames]
  cases connection.handler.provider.token? <;> rfl

theorem nodup_presignNames (self : HmacAuthV4Handler) : (presignNames self).Nodup := by
  rw [presignNames]
  split <;> decide

theorem mem_signedParams {item : Text × ParamValue} :
    item ∈ (connection.signedRequest clock call host region headers).params.items ↔
      item ∈ connection.presignedParams clock call host region headers ∨
        item.1 ∉ presignNames connection.handler ∧ item ∈ call.params.items := by
  have hnodup : ((connection.presignedParams clock call host region headers).map
      Prod.fst).Nodup := by
    rw [names_presignedParams]
    exact nodup_presignNames _
  have hmem := @OrderedDict.mem_items_foldl_set _ _ _ _ call.params item hnodup
  rw [names_presignedParams] at hmem
  exact hmem

/-- Every value that is signed is a text or a number. -/
theorem isWritten_signedParams :
    ∀ item ∈ (connection.signedRequest clock call host region headers).params.items,
      IsWritten item.2 := by
  intro item hitem
  rcases mem_signedParams.mp hitem with hset | ⟨-, hparam⟩
  · rw [UrlConnection.presignedParams, presignParams, List.mem_append] at hset
    rcases hset with hset | hset
    · simp only [List.mem_cons, List.not_mem_nil, or_false] at hset
      rcases hset with rfl | rfl | rfl | rfl | rfl
      · exact .inl ⟨_, rfl⟩
      · exact .inl ⟨_, rfl⟩
      · exact .inl ⟨_, rfl⟩
      · exact .inr ⟨_, rfl⟩
      · exact .inl ⟨_, rfl⟩
    · split at hset
      · rw [List.mem_singleton.mp hset]
        exact .inl ⟨_, rfl⟩
      · cases hset
  · rcases mem_params.mp hparam with ⟨header, -, rfl⟩ | ⟨-, version, -, rfl⟩
    · exact .inl ⟨_, rfl⟩
    · exact .inl ⟨_, rfl⟩

/-- The signature is a new parameter unless it is given as a header of the response. -/
theorem signature_notMem_iff :
    "X-Amz-Signature".toList ∉
        (connection.signedRequest clock call host region headers).params.keys ↔
      "X-Amz-Signature".toList ∉ call.responseHeaders.keys := by
  have hnames : "X-Amz-Signature".toList ∉ presignNames connection.handler := by
    rw [presignNames]
    split <;> decide
  have hversion : "X-Amz-Signature".toList ≠ "VersionId".toList := by decide
  refine not_congr ?_
  constructor
  · intro hkey
    obtain ⟨item, hitem, hname⟩ := List.mem_map.mp hkey
    rcases mem_signedParams.mp hitem with hset | ⟨-, hparam⟩
    · have hmem := List.mem_map_of_mem (f := Prod.fst) hset
      rw [names_presignedParams, hname] at hmem
      exact absurd hmem hnames
    · rcases mem_params.mp hparam with ⟨header, hheader, rfl⟩ | ⟨-, version, -, rfl⟩
      · exact List.mem_map.mpr ⟨header, hheader, hname⟩
      · exact absurd hname.symm hversion
  · intro hkey
    obtain ⟨header, hheader, hname⟩ := List.mem_map.mp hkey
    refine List.mem_map.mpr ⟨(header.1, .text header.2), mem_signedParams.mpr (.inr ⟨?_, ?_⟩),
      hname⟩
    · rw [hname]
      exact hnames
    · exact mem_params.mpr (.inl ⟨header, hheader, rfl⟩)

@[simp] theorem valueText_text (text : Text) : valueText library (.text text) = text := rfl

@[simp] theorem valueText_int (n : ℤ) : valueText library (.int n) = strInt n := rfl

theorem space_notMem_strInt (value : ℤ) : ' ' ∉ strInt value := by
  intro hmem
  rcases strInt_chars hmem with hdigit | hdash
  · cases hdigit
  · cases hdash

/-- What `presign` sets has no spaces if what it is made of has none. -/
theorem spaceless_presignedParams
    (hheaders : headersToSign (connection.requestFor call host) = .ok headers) :
    (∀ item ∈ connection.presignedParams clock call host region headers,
      ' ' ∉ item.1 ∧ ' ' ∉ valueText library item.2) ↔
      ' ' ∉ region ∧ ' ' ∉ connection.handler.provider.accessKey ∧
        ' ' ∉ call.isoDate.getD clock.isoDate ∧
        (∀ token ∈ connection.handler.provider.token?, ' ' ∉ token) ∧
        ∀ name ∈ call.headers.keys, lower name ≠ "authorization".toList →
          ' ' ∉ canonicalName name := by
  have hnames : ' ' ∉ "X-Amz-Algorithm".toList ∧ ' ' ∉ "X-Amz-Credential".toList ∧
      ' ' ∉ "X-Amz-Date".toList ∧ ' ' ∉ "X-Amz-Expires".toList ∧
      ' ' ∉ "X-Amz-SignedHeaders".toList ∧ ' ' ∉ "X-Amz-Security-Token".toList ∧
      ' ' ∉ "AWS4-HMAC-SHA256".toList ∧ ' ' ∉ "s3".toList ∧ ' ' ∉ "aws4_request".toList := by
    decide
  obtain ⟨halgorithm, hcredential, hdate, hexpires, hsigned, htoken, hhash, hservice, hend⟩ :=
    hnames
  have hscope : ' ' ∉ join '/' [connection.handler.provider.accessKey,
      (call.isoDate.getD clock.isoDate).take 8, region, "s3".toList, "aws4_request".toList] ↔
      ' ' ∉ connection.handler.provider.accessKey ∧
        ' ' ∉ (call.isoDate.getD clock.isoDate).take 8 ∧ ' ' ∉ region := by
    rw [mem_join_iff (by decide)]
    simp only [List.mem_cons, List.not_mem_nil, or_false, exists_eq_or_imp, exists_eq_left,
      hservice, hend, not_or]
  have hmarks := @space_notMem_signedHeaders connection call host headers hheaders
  rw [presignedParams_eq, List.forall_mem_append, List.forall_mem_map]
  simp only [List.forall_mem_cons, valueText_text, valueText_int, halgorithm, hcredential, hdate,
    hexpires, hsigned, htoken, hhash, space_notMem_strInt, Option.mem_toList,
    not_false_eq_true, true_and, Auth.S3HmacAuthV4Handler.determineServiceName]
  rw [hscope, hmarks]
  constructor
  · rintro ⟨⟨⟨hkey, -, hregion⟩, hday, hnone, -⟩, htokens⟩
    exact ⟨hregion, hkey, hday, htokens, hnone⟩
  · rintro ⟨hregion, hkey, hday, htokens, hnone⟩
    have hprefix : ' ' ∉ (call.isoDate.getD clock.isoDate).take 8 := fun hin =>
      hday (List.mem_of_mem_take hin)
    exact ⟨⟨⟨hkey, hprefix, hregion⟩, hday, hnone, nofun⟩, htokens⟩

/-- Nothing that is signed has a space exactly if nothing has that it is made of. -/
theorem spaceless_signedParams
    (hheaders : headersToSign (connection.requestFor call host) = .ok headers) :
    (∀ item ∈ (connection.signedRequest clock call host region headers).params.items,
      ' ' ∉ item.1 ∧ ' ' ∉ valueText library item.2) ↔
      ' ' ∉ region ∧ call.Spaceless clock connection.handler := by
  have hpresigned := @spaceless_presignedParams library clock connection call host region headers
    hheaders
  have hversion : "VersionId".toList ∉ presignNames connection.handler ∧
      ' ' ∉ "VersionId".toList := by
    rw [presignNames]
    split <;> decide
  constructor
  · intro hitems
    obtain ⟨hregion, hkey, hday, htokens, hnames⟩ := hpresigned.mp fun item hitem =>
      hitems item (mem_signedParams.mpr (.inl hitem))
    refine ⟨hregion, hkey, hday, htokens, hnames, ?_, ?_⟩
    · intro version hsome hnot
      have hitem := hitems ("VersionId".toList, .text version) (mem_signedParams.mpr
        (.inr ⟨hversion.1, mem_params.mpr (.inr ⟨hnot, version, hsome, rfl⟩)⟩))
      exact hitem.2
    · intro header hheader hnot
      exact hitems (header.1, .text header.2) (mem_signedParams.mpr
        (.inr ⟨hnot, mem_params.mpr (.inl ⟨header, hheader, rfl⟩)⟩))
  · rintro ⟨hregion, hspaces⟩ item hitem
    rcases mem_signedParams.mp hitem with hset | ⟨hnot, hparam⟩
    · exact hpresigned.mpr ⟨hregion, hspaces.accessKey, hspaces.date, hspaces.token,
        hspaces.headers⟩ item hset
    · rcases mem_params.mp hparam with ⟨header, hheader, rfl⟩ | ⟨hnone, version, hsome, rfl⟩
      · exact hspaces.responseHeaders header hheader hnot
      · exact ⟨hversion.2, hspaces.version version hsome hnone⟩

end

/-! ## URLs -/

section

variable {library : Library} {clock : Clock} {connection : UrlConnection} {call : UrlCall}

theorem generateUrlSigv4_eq_ok {host url : Text}
    (hhost : connection.requestHost call.bucket = .ok host) :
    connection.generateUrlSigv4 library clock call = .ok url ↔
      ∃ signed, presignedRequest clock connection.handler (connection.requestFor call host)
        call.expiresIn call.isoDate = .ok signed ∧
          finishUrl library connection.handler (call.isoDate.getD clock.isoDate) signed =
            .ok url := by
  rw [UrlConnection.generateUrlSigv4, except_bind_eq_ok]
  constructor
  · rintro ⟨host', hhost', hurl⟩
    obtain rfl : host = host' := by
      rw [mapError_eq_ok, hhost] at hhost'
      exact Except.ok.inj hhost'
    rw [mapError_eq_ok, presign_eq] at hurl
    exact except_bind_eq_ok.mp hurl
  · intro hurl
    refine ⟨host, mapError_eq_ok.mpr hhost, mapError_eq_ok.mpr ?_⟩
    rw [presign_eq]
    exact except_bind_eq_ok.mpr hurl

/-- The query that a URL ends with. -/
theorem query_of_signedUrl {signed : HTTPRequest} {signature query : Text}
    (hurl : signedUrl library signed signature =
      signed.protocol ++ "://".toList ++ signed.host ++ signed.path ++ '?' :: query) :
    query = Auth.S3HmacAuthV4Handler.urlencode library
      (signed.params.set "X-Amz-Signature".toList (.text signature)) :=
  (List.cons.inj (List.append_cancel_left hurl)).2.symm

/-- A URL that carries what was signed is one that the call is written into. -/
theorem writes_of_presigns (hpresigns : connection.Presigns library clock call) :
    connection.Writes clock call := by
  obtain ⟨host, signed, url, hhost, hsigned, hurl, hcarries⟩ := hpresigns
  obtain ⟨signed', hsigned', hfinish⟩ := (generateUrlSigv4_eq_ok hhost).mp hurl
  obtain rfl : signed = signed' := Except.ok.inj (hsigned.symm.trans hsigned')
  obtain ⟨region, headers, hregion, hheaders, rfl⟩ := presignedRequest_eq_ok.mp hsigned
  obtain ⟨signature, rfl, -⟩ := of_finishUrl_eq_ok hfinish
  obtain ⟨query, signature', hquery, hperm⟩ := hcarries.query
  rw [query_of_signedUrl hquery] at hperm
  obtain ⟨hsignature, hspaces⟩ := spaceless_of_query isWritten_signedParams hperm
  obtain ⟨hspace, hspaceless⟩ := (spaceless_signedParams hheaders).mp hspaces
  exact
    { host := ⟨host, region, hhost, hcarries.host, hregion, hspace⟩
      path := (canonicalUri_getPath_iff rfl).mp hcarries.uri
      query := (query_notMem_path connection call host).mp hcarries.path
      signature := signature_notMem_iff.mp hsignature
      spaces := hspaceless }

/-- A call that is written into its URL gets one that carries what was signed. -/
theorem presigns_of_writes (hwrites : connection.Writes clock call) :
    connection.Presigns library clock call := by
  have hname : ' ' ∉ "X-Amz-Signature".toList := by decide
  obtain ⟨⟨host, region, hhost, hmarks, hregion, hspace⟩, hpath, hquery, hsignature,
    hspaceless⟩ := hwrites
  obtain ⟨headers, hheaders⟩ :
      ∃ headers, headersToSign (connection.requestFor call host) = .ok headers := ⟨_, rfl⟩
  have hsigned : presignedRequest clock connection.handler (connection.requestFor call host)
      call.expiresIn call.isoDate =
        .ok (connection.signedRequest clock call host region headers) :=
    presignedRequest_eq_ok.mpr ⟨region, headers, hregion, hheaders, rfl⟩
  have huri : canonicalUri (connection.signedRequest clock call host region headers) =
      .ok (servedUri (connection.signedRequest clock call host region headers).path) :=
    (canonicalUri_getPath_iff rfl).mpr hpath
  obtain ⟨payload, hpayload⟩ : ∃ payload, Auth.S3HmacAuthV4Handler.payload library
      (connection.signedRequest clock call host region headers) = .ok payload :=
    @payload_isOk connection call host _ _ rfl
  obtain ⟨url, hfinish⟩ := @finishUrl_isOk library connection.handler
    (connection.signedRequest clock call host region headers)
    (call.isoDate.getD clock.isoDate) _ _ _ hregion isWritten_signedParams huri hpayload
  obtain ⟨signature, rfl, hhex⟩ := of_finishUrl_eq_ok hfinish
  have hspaces := (@spaceless_signedParams library _ _ _ _ _ _ hheaders).mpr
    ⟨hspace, hspaceless⟩
  refine ⟨host, _, _, hhost, hsigned,
    (generateUrlSigv4_eq_ok hhost).mpr ⟨_, hsigned, hfinish⟩, ?_⟩
  constructor
  · exact hmarks
  · exact (query_notMem_path connection call host).mpr hquery
  · exact huri
  · refine ⟨_, signature, rfl, ?_⟩
    rw [query_eq isWritten_signedParams (signature_notMem_iff.mpr hsignature) ⟨hname, hhex⟩
      hspaces]

end

/-- A call gets a URL that carries what was signed exactly if it is written into its URL. -/
theorem presigns_iff (library : Library) (clock : Clock) (connection : UrlConnection)
    (call : UrlCall) :
    connection.Presigns library clock call ↔ connection.Writes clock call :=
  ⟨writes_of_presigns, presigns_of_writes⟩

/-- A call with a space in a header of the response. -/
def spacedCall : UrlCall where
  expiresIn := 60
  method := "GET".toList
  bucket := "b".toList
  key := "k".toList
  headers := .empty
  responseHeaders := OrderedDict.empty.set "response-content-type".toList "text html".toList
  versionId := none
  isoDate := some "20150101T000000Z".toList

/-- A connection to the classic endpoint. -/
def classicConnection : UrlConnection where
  callingFormat := .subdomain
  host := "s3.amazonaws.com".toList
  port := 443
  isSecure := true
  hostHeader := none
  suppressConsecSlashes := true
  handler := ⟨"s3.amazonaws.com".toList, ⟨"id".toList, "key".toList, none, [], [], [], []⟩,
    none, none⟩

theorem not_presigns_space : ¬ ∀ (library : Library) (clock : Clock)
    (connection : UrlConnection) (call : UrlCall), connection.Presigns library clock call := by
  intro hclaim
  have hpresigns := hclaim
    ⟨fun _ => ⟨List.replicate 32 0, List.length_replicate⟩,
      fun _ _ => ⟨List.replicate 20 0, List.length_replicate⟩,
      fun _ _ => ⟨List.replicate 32 0, List.length_replicate⟩, fun _ => true⟩
    ⟨[], [], []⟩ classicConnection spacedCall
  have hspaces := (writes_of_presigns hpresigns).spaces.responseHeaders
    ("response-content-type".toList, "text html".toList) (List.mem_singleton.mpr rfl) (by decide)
  revert hspaces
  decide

end Boto.S3
