import Boto.Auth.SignedQuery
import Boto.S3.SignedPath
import Boto.Support.LastEntries

/-!
# Presigned URLs of S3

`generate_url_sigv4` of `boto/s3/connection.py` makes a request for a key, and `presign` of
`boto/auth.py` signs it in its query.  What is signed is compared with what the query and the
path of the URL are read as.
-/

namespace Boto.S3

open Auth (AuthError Clock HTTPRequest HmacAuthV4Handler Library ParamValue)
open Auth.S3HmacAuthV4Handler (canonicalUri determineRegionName presign presignParams)

/-! ## Requests -/

/-- What a connection keeps.  Its path is `/`. -/
structure UrlConnection where
  callingFormat : CallingFormat
  host : Text
  port : ℕ
  isSecure : Bool
  hostHeader : Option Text
  suppressConsecSlashes : Bool
  handler : HmacAuthV4Handler

/-- The arguments of `generate_url_sigv4`. -/
structure UrlCall where
  expiresIn : ℤ
  method : Text
  bucket : Text
  key : Text
  headers : OrderedDict Text Text
  responseHeaders : OrderedDict Text Text
  versionId : Option Text
  isoDate : Option Text

/-- What a call can fail with. -/
inductive UrlError
  | auth (error : AuthError)
  | botoClient (error : BotoClientError)
  deriving DecidableEq

/-- `find_matching_headers`. -/
def findMatchingHeaders (name : Text) (headers : OrderedDict Text Text) : List Text :=
  headers.keys.filter fun header => lower header = lower name

namespace UrlConnection

variable (library : Library) (clock : Clock) (connection : UrlConnection) (call : UrlCall)

/-- `protocol`. -/
def protocol : Text :=
  if connection.isSecure then "https".toList else "http".toList

/-- `server_name`. -/
def serverName : Text :=
  if connection.port = 80 then connection.host
  else connection.host ++ ':' :: decimal connection.port

/-- The host of a request, without the port for HTTPS. -/
def requestHost (bucket : Text) : Except BotoClientError Text := do
  let host ← connection.callingFormat.buildHost connection.serverName bucket
  let host := if ":443".toList.isSuffixOf host then host.take (host.length - 4) else host
  return if host = [] then connection.host else host

/-- The headers with that of the connection. -/
def hostedHeaders (headers : OrderedDict Text Text) : OrderedDict Text Text :=
  match connection.hostHeader with
  | some hostHeader =>
      if hostHeader ≠ [] ∧ findMatchingHeaders "host".toList headers = [] then
        headers.set "host".toList hostHeader
      else headers
  | none => headers

/-- `build_base_http_request`, for a connection without a proxy. -/
def buildBaseHttpRequest (method path authPath : Text) (params : OrderedDict Text ParamValue)
    (headers : OrderedDict Text Text) (host : Text) : HTTPRequest :=
  let path := getPath ['/'] connection.suppressConsecSlashes path
  let authPath := getPath ['/'] connection.suppressConsecSlashes authPath
  .init method connection.protocol host connection.port path (some authPath) params
    ((connection.hostedHeaders headers).mapValues .text) (.text [])

end UrlConnection

/-- The parameters of the request. -/
def UrlCall.params (call : UrlCall) : OrderedDict Text ParamValue :=
  let params := match call.versionId with
    | some versionId => OrderedDict.empty.set "VersionId".toList (ParamValue.text versionId)
    | none => .empty
  params.update (call.responseHeaders.mapValues .text)

namespace UrlConnection

variable (library : Library) (clock : Clock) (connection : UrlConnection) (call : UrlCall)

/-- The request for a host. -/
def requestFor (host : Text) : HTTPRequest :=
  connection.buildBaseHttpRequest call.method
    (connection.callingFormat.buildPathBase call.bucket call.key)
    (CallingFormat.buildAuthPath call.bucket call.key) call.params call.headers host

/-- `generate_url_sigv4`. -/
def generateUrlSigv4 : Except UrlError Text := do
  let host ← (connection.requestHost call.bucket).mapError .botoClient
  (presign library clock connection.handler (connection.requestFor call host) call.expiresIn
    call.isoDate).mapError .auth

end UrlConnection

/-! ## What is signed -/

/-- The request for which `presign` computes the canonical request. -/
def presignedRequest (clock : Clock) (self : HmacAuthV4Handler) (req : HTTPRequest)
    (expires : ℤ) (isoDate : Option Text) : Except AuthError HTTPRequest := do
  let region ← determineRegionName self req.host
  let headersToSign ← Auth.S3HmacAuthV4Handler.headersToSign req
  return { req with
    params := (presignParams self expires (isoDate.getD clock.isoDate) region
      (Auth.S3HmacAuthV4Handler.determineServiceName req.host) headersToSign).foldl (fun params param => params.set param.1 param.2) req.params }

/-- A URL has the host and the path of the request that is signed, and its query is read as the
parameters that are signed and the signature, where a plus stands for itself. -/
structure CarriesSigned (library : Library) (signed : HTTPRequest) (url : Text) : Prop where
  host : ∀ c ∈ signed.host, Urls.endsNetloc c = false
  path : '?' ∉ signed.path
  uri : canonicalUri signed = .ok (servedUri signed.path)
  query : ∃ query signature,
    url = signed.protocol ++ "://".toList ++ signed.host ++ signed.path ++ '?' :: query ∧
      (Auth.servedPairs query).Perm ((Auth.paramTexts library signed.params ++
        [("X-Amz-Signature".toList, signature)]).map Auth.encodeTexts)

/-- A call returns a URL that carries what was signed for it. -/
def UrlConnection.Presigns (library : Library) (clock : Clock) (connection : UrlConnection)
    (call : UrlCall) : Prop :=
  ∃ host signed url, connection.requestHost call.bucket = .ok host ∧
    presignedRequest clock connection.handler (connection.requestFor call host) call.expiresIn
      call.isoDate = .ok signed ∧
    connection.generateUrlSigv4 library clock call = .ok url ∧ CarriesSigned library signed url

/-! ## The condition -/

/-- The names of the parameters that `presign` sets. -/
def presignNames (self : HmacAuthV4Handler) : List Text :=
  ["X-Amz-Algorithm".toList, "X-Amz-Credential".toList, "X-Amz-Date".toList,
    "X-Amz-Expires".toList, "X-Amz-SignedHeaders".toList] ++
  if self.provider.token?.isSome then ["X-Amz-Security-Token".toList] else []

/-- Nothing that is written into the query has a space. -/
structure UrlCall.Spaceless (clock : Clock) (handler : HmacAuthV4Handler)
    (call : UrlCall) : Prop where
  accessKey : ' ' ∉ handler.provider.accessKey
  date : ' ' ∉ call.isoDate.getD clock.isoDate
  token : ∀ token ∈ handler.provider.token?, ' ' ∉ token
  headers : ∀ name ∈ call.headers.keys, lower name ≠ "authorization".toList →
    ' ' ∉ HmacAuthV4Handler.canonicalName name
  version : ∀ version ∈ call.versionId, "VersionId".toList ∉ call.responseHeaders.keys →
    ' ' ∉ version
  responseHeaders : ∀ item ∈ call.responseHeaders.items, item.1 ∉ presignNames handler →
    ' ' ∉ item.1 ∧ ' ' ∉ item.2

/-- The host of a call ends where its path starts, and is one whose region is known. -/
def UrlConnection.HasHost (connection : UrlConnection) (call : UrlCall) : Prop :=
  ∃ host region, connection.requestHost call.bucket = .ok host ∧
    (∀ c ∈ host, Urls.endsNetloc c = false) ∧
    determineRegionName connection.handler host = .ok region ∧ ' ' ∉ region

/-- A call is written into its URL. -/
structure UrlConnection.Writes (clock : Clock) (connection : UrlConnection) (call : UrlCall) :
    Prop where
  host : connection.HasHost call
  path : IsPlainRequest connection.callingFormat connection.suppressConsecSlashes call.bucket
    call.key
  query : connection.callingFormat.isOrdinary = true → '?' ∉ call.bucket
  signature : "X-Amz-Signature".toList ∉ call.responseHeaders.keys
  spaces : call.Spaceless clock connection.handler

end Boto.S3

/-!
## What presigned URLs carry

The canonical query escapes a space, and the form encoding of the URL makes it a plus.  So a URL
carries what was signed exactly if nothing in its query has a space, the signature is not one of
the parameters, and the path is plain.
-/

namespace Boto.S3

open Auth (AuthError Clock HTTPRequest HmacAuthV4Handler Library ParamValue encodeTexts
  paramTexts servedPairs strInt valueText)
open Auth.S3HmacAuthV4Handler (canonicalQueryString canonicalUri determineRegionName
  determineServiceName headersToSign ownMethods presign presignParams urlencode)
open PercentEncoding (quotePlus unquoteToBytes)

/-! ## Spaces and pluses -/

/-- A plus for each space. -/
def plussed (bytes : Bytes) : Bytes :=
  bytes.map fun b => if b = 0x20 then 0x2B else b

/-- Unquoting leaves the pluses that stand for spaces. -/
theorem unquoteToBytes_quotePlus (bytes : Bytes) :
    unquoteToBytes (quotePlus bytes) = plussed bytes := by
  induction bytes with
  | nil => rfl
  | cons b bytes ih =>
      have hcons : quotePlus (b :: bytes) =
          (if b = 0x20 then ['+'] else PercentEncoding.quoteByte [] b) ++ quotePlus bytes := rfl
      have hplussed : plussed (b :: bytes) =
          (if b = 0x20 then 0x2B else b) :: plussed bytes := rfl
      rw [hcons, hplussed]
      split
      · rw [List.singleton_append, PercentEncoding.unquoteToBytes_cons_of_ne (by decide), ih]
        rfl
      · rw [PercentEncoding.unquoteToBytes_quoteByte_append (by simp), ih]

/-- The marks of a query are quoted. -/
theorem notMem_quotePlus {mark : Char} (hmark : mark ∈ ['&', '=']) (bytes : Bytes) :
    mark ∉ quotePlus bytes := by
  intro hmem
  obtain ⟨b, -, hb⟩ := List.mem_flatMap.mp hmem
  simp only [List.mem_cons, List.not_mem_nil, or_false] at hmark
  split at hb
  · rcases hmark with rfl | rfl <;> simp at hb
  · rcases PercentEncoding.mem_quoteByte hb with hin | hin
    · cases hin
    · revert hin
      rw [PercentEncoding.IsQuoted]
      rcases hmark with rfl | rfl <;> decide

/-- The pairs of a form, where a plus stands for itself. -/
theorem servedPairs_join_quotePlus (pairs : List (Bytes × Bytes)) :
    servedPairs (join '&' (pairs.map fun pair => quotePlus pair.1 ++ '=' :: quotePlus pair.2)) =
      pairs.map fun pair => (plussed pair.1, plussed pair.2) := by
  rw [servedPairs, Auth.fields_join, List.map_map]
  · refine List.map_congr_left fun pair _ => ?_
    rw [Function.comp_apply, Auth.servedPair,
      Urls.cut_append_cons (notMem_quotePlus (by simp) pair.1)]
    dsimp only [Option.getD_some]
    rw [unquoteToBytes_quotePlus, unquoteToBytes_quotePlus]
  · intro field hfield
    obtain ⟨pair, -, rfl⟩ := List.mem_map.mp hfield
    refine ⟨by simp, fun hin => ?_⟩
    rcases List.mem_append.mp hin with hin | hin
    · exact notMem_quotePlus (by simp) _ hin
    · rcases List.mem_cons.mp hin with heq | hin
      · cases heq
      · exact notMem_quotePlus (by simp) _ hin

theorem space_mem_encodeChar {c : Char} :
    (0x20 : UInt8) ∈ String.utf8EncodeChar c ↔ c = ' ' := by
  constructor
  · intro hmem
    rcases PercentEncoding.toNat_of_mem_encodeChar hmem with ⟨hchar, -⟩ | hge
    · have htexts : encodeUtf8 [c] = encodeUtf8 [' '] := by
        rw [encodeUtf8_cons, hchar]
        decide
      exact List.singleton_inj.mp (Auth.encodeUtf8_injective htexts)
    · exact absurd hge (by decide)
  · rintro rfl
    decide

theorem space_mem_encodeUtf8 {text : Text} : (0x20 : UInt8) ∈ encodeUtf8 text ↔ ' ' ∈ text := by
  rw [encodeUtf8, List.mem_flatMap]
  constructor
  · rintro ⟨c, hc, hmem⟩
    rwa [← space_mem_encodeChar.mp hmem]
  · intro hmem
    exact ⟨' ', hmem, space_mem_encodeChar.mpr rfl⟩

theorem plussed_eq_self {bytes : Bytes} (hspace : (0x20 : UInt8) ∉ bytes) :
    plussed bytes = bytes := by
  refine (List.map_congr_left fun b hb => ?_).trans (List.map_id bytes)
  exact if_neg fun heq : b = 0x20 => hspace (heq ▸ hb)

theorem space_notMem_plussed (bytes : Bytes) : (0x20 : UInt8) ∉ plussed bytes := by
  intro hmem
  obtain ⟨b, -, hb⟩ := List.mem_map.mp hmem
  split at hb
  · cases hb
  · rename_i hne
    exact hne hb

/-! ## The query of a URL -/

/-- A value that is written as its text. -/
def IsWritten (value : ParamValue) : Prop :=
  (∃ text, value = .text text) ∨ ∃ n, value = .int n

/-- The pairs of a form. -/
def formPair (library : Library) (item : Text × ParamValue) : Bytes × Bytes :=
  (plussed (encodeUtf8 item.1), plussed (encodeUtf8 (valueText library item.2)))

/-- A form is read with a plus for each space. -/
theorem servedPairs_urlencode {library : Library} {params : OrderedDict Text ParamValue}
    (hwritten : ∀ item ∈ params.items, IsWritten item.2) :
    servedPairs (urlencode library params) = params.items.map (formPair library) := by
  have hfields : urlencode library params =
      join '&' ((params.items.map fun item =>
        encodeTexts (item.1, valueText library item.2)).map fun pair =>
          quotePlus pair.1 ++ '=' :: quotePlus pair.2) := by
    rw [urlencode, List.map_map]
    refine congrArg (join '&') (List.map_congr_left fun item hitem => ?_)
    rw [Function.comp_apply]
    rcases hwritten item hitem with ⟨text, heq⟩ | ⟨n, heq⟩
    · rw [heq]
      rfl
    · rw [heq]
      rfl
  rw [hfields, servedPairs_join_quotePlus, List.map_map]
  rfl

/-- Parameters without spaces are read as they are, and others are not. -/
theorem formPair_eq_iff {library : Library} {item : Text × ParamValue} :
    formPair library item = encodeTexts (item.1, valueText library item.2) ↔
      ' ' ∉ item.1 ∧ ' ' ∉ valueText library item.2 := by
  constructor
  · intro heq
    obtain ⟨hname, hvalue⟩ := Prod.mk.inj heq
    rw [← space_mem_encodeUtf8, ← space_mem_encodeUtf8, ← hname, ← hvalue]
    exact ⟨space_notMem_plussed _, space_notMem_plussed _⟩
  · rintro ⟨hname, hvalue⟩
    rw [← space_mem_encodeUtf8] at hname hvalue
    rw [formPair, plussed_eq_self hname, plussed_eq_self hvalue]
    rfl

/-- A query that is read as the parameters and the signature has it as a new parameter, and
nothing with a space. -/
theorem spaceless_of_query {library : Library} {params : OrderedDict Text ParamValue}
    {name signature signature' : Text} (hwritten : ∀ item ∈ params.items, IsWritten item.2)
    (hperm : (servedPairs (urlencode library (params.set name (.text signature)))).Perm
      ((paramTexts library params ++ [(name, signature')]).map encodeTexts)) :
    name ∉ params.keys ∧
      ∀ item ∈ params.items, ' ' ∉ item.1 ∧ ' ' ∉ valueText library item.2 := by
  have hset : ∀ item ∈ (params.set name (.text signature)).items, IsWritten item.2 := by
    intro item hitem
    rcases OrderedDict.mem_setItems hitem with rfl | hitem
    · exact .inl ⟨signature, rfl⟩
    · exact hwritten item hitem
  rw [servedPairs_urlencode hset] at hperm
  constructor
  · intro hkey
    have hlength := hperm.length_eq
    rw [List.length_map, OrderedDict.length_items_set hkey, paramTexts, List.length_map, List.length_append,
      List.length_map, List.length_singleton] at hlength
    omega
  · intro item hitem
    have hmem : encodeTexts (item.1, valueText library item.2) ∈
        (paramTexts library params ++ [(name, signature')]).map encodeTexts :=
      List.mem_map_of_mem (List.mem_append_left _ (List.mem_map_of_mem hitem))
    obtain ⟨other, -, hother⟩ := List.mem_map.mp (hperm.mem_iff.mpr hmem)
    obtain ⟨hname, hvalue⟩ := Prod.mk.inj hother
    rw [← space_mem_encodeUtf8, ← space_mem_encodeUtf8, ← hname, ← hvalue]
    exact ⟨space_notMem_plussed _, space_notMem_plussed _⟩

theorem query_eq {library : Library} {params : OrderedDict Text ParamValue}
    {name signature : Text} (hwritten : ∀ item ∈ params.items, IsWritten item.2)
    (hname : name ∉ params.keys) (hspaces : ' ' ∉ name ∧ ' ' ∉ signature)
    (hitems : ∀ item ∈ params.items, ' ' ∉ item.1 ∧ ' ' ∉ valueText library item.2) :
    servedPairs (urlencode library (params.set name (.text signature))) =
      (paramTexts library params ++ [(name, signature)]).map encodeTexts := by
  have hall := @OrderedDict.items_set_of_notMem _ _ _ params name (.text signature) hname
  have hset : ∀ item ∈ (params.set name (.text signature)).items, IsWritten item.2 := by
    intro item hitem
    rcases OrderedDict.mem_setItems hitem with rfl | hitem
    · exact .inl ⟨signature, rfl⟩
    · exact hwritten item hitem
  rw [servedPairs_urlencode hset, hall, List.map_append, List.map_append, paramTexts,
    List.map_map]
  congr 1
  · exact List.map_congr_left fun item hitem => formPair_eq_iff.mpr (hitems item hitem)
  · have hlast := @formPair_eq_iff library (name, .text signature)
    exact congrArg (fun pair => [pair]) (hlast.mpr hspaces)

/-! ## Signing -/

section

variable {library : Library} {clock : Clock} {self : HmacAuthV4Handler}
  {req signed : HTTPRequest} {expires : ℤ} {isoDate : Option Text}

/-- The URL with a signature. -/
def signedUrl (library : Library) (signed : HTTPRequest) (signature : Text) : Text :=
  signed.protocol ++ "://".toList ++ signed.host ++ signed.path ++ '?' ::
    urlencode library (signed.params.set "X-Amz-Signature".toList (.text signature))

/-- The request with the parameters that are signed. -/
def withParams (clock : Clock) (self : HmacAuthV4Handler) (req : HTTPRequest) (expires : ℤ)
    (isoDate : Option Text) (region : Text) (headers : OrderedDict Text Data) : HTTPRequest :=
  { req with
    params := (presignParams self expires (isoDate.getD clock.isoDate) region
      (determineServiceName req.host) headers).foldl (fun params param => params.set param.1 param.2) req.params }

theorem presignedRequest_eq_ok :
    presignedRequest clock self req expires isoDate = .ok signed ↔
      ∃ region headers, determineRegionName self req.host = .ok region ∧
        headersToSign req = .ok headers ∧
        signed = withParams clock self req expires isoDate region headers := by
  rw [presignedRequest, except_bind_eq_ok]
  constructor
  · rintro ⟨region, hregion, hsigned⟩
    obtain ⟨headers, hheaders, hsigned⟩ := except_bind_eq_ok.mp hsigned
    exact ⟨region, headers, hregion, hheaders, (Except.ok.inj hsigned).symm⟩
  · rintro ⟨region, headers, hregion, hheaders, rfl⟩
    exact ⟨region, hregion, except_bind_eq_ok.mpr ⟨headers, hheaders, rfl⟩⟩

theorem space_notMem_hexlify (bytes : Bytes) : ' ' ∉ hexlify bytes := by
  intro hmem
  obtain ⟨b, -, hb⟩ := List.mem_flatMap.mp hmem
  have hall : ∀ b : UInt8, ' ' ∉ hexDigits b := by
    apply PercentEncoding.forall_byte
    decide +kernel
  exact hall b hb

/-- The rest of `presign`, for the request that is signed. -/
def finishUrl (library : Library) (self : HmacAuthV4Handler) (isoDate : Text)
    (signed : HTTPRequest) : Except AuthError Text := do
  let cr ← HmacAuthV4Handler.canonicalRequest library ownMethods self signed
  let cr := join '\n' (cr.splitOn '\n').dropLast ++ "\nUNSIGNED-PAYLOAD".toList
  let dated := { signed with
    headers := signed.headers.set "X-Amz-Date".toList (.text isoDate) }
  let (sts, dated) ← HmacAuthV4Handler.stringToSign library ownMethods self dated cr
  return signedUrl library dated (HmacAuthV4Handler.signature library self dated sts)

theorem presign_eq : presign library clock self req expires isoDate =
    presignedRequest clock self req expires isoDate >>=
      finishUrl library self (isoDate.getD clock.isoDate) := by
  unfold presign presignedRequest
  cases determineRegionName self req.host with
  | error e => rfl
  | ok region =>
      cases headersToSign req with
      | error e => rfl
      | ok headers => rfl

/-- What `presign` returns. -/
theorem of_finishUrl_eq_ok {date url : Text}
    (hfinish : finishUrl library self date signed = .ok url) :
    ∃ signature, url = signedUrl library signed signature ∧ ' ' ∉ signature := by
  obtain ⟨cr, -, hfinish⟩ := except_bind_eq_ok.mp hfinish
  obtain ⟨⟨sts, dated⟩, hdated, hfinish⟩ := except_bind_eq_ok.mp hfinish
  cases hfinish
  obtain ⟨date, -, hdated⟩ := except_bind_eq_ok.mp hdated
  obtain ⟨⟨scope, dated'⟩, hscope, hdated⟩ := except_bind_eq_ok.mp hdated
  cases hdated
  obtain ⟨date, -, hscope⟩ := except_bind_eq_ok.mp hscope
  obtain ⟨region, -, hscope⟩ := except_bind_eq_ok.mp hscope
  cases hscope
  exact ⟨_, rfl, space_notMem_hexlify _⟩

theorem getUtf8ableStr_of_isWritten {value : ParamValue} (hvalue : IsWritten value) :
    Auth.getUtf8ableStr library value = .ok (valueText library value) := by
  rcases hvalue with ⟨text, rfl⟩ | ⟨n, rfl⟩ <;> rfl

/-- A request whose values and headers are texts gets a URL if its path can be parsed. -/
theorem finishUrl_isOk {date payload uri region : Text}
    (hregion : determineRegionName self signed.host = .ok region)
    (hwritten : ∀ item ∈ signed.params.items, IsWritten item.2)
    (huri : canonicalUri signed = .ok uri)
    (hpayload : Auth.S3HmacAuthV4Handler.payload library signed = .ok payload) :
    ∃ url, finishUrl library self date signed = .ok url := by
  obtain ⟨query, hquery⟩ : ∃ query, canonicalQueryString library signed = .ok query :=
    ⟨_, Auth.queryPairs_canonical fun item hitem =>
      getUtf8ableStr_of_isWritten (hwritten item hitem)⟩
  obtain ⟨cr, hcr⟩ : ∃ cr,
      HmacAuthV4Handler.canonicalRequest library ownMethods self signed = .ok cr :=
    ⟨_, except_bind_eq_ok.mpr ⟨uri, huri, except_bind_eq_ok.mpr ⟨query, hquery,
      except_bind_eq_ok.mpr ⟨_, rfl, except_bind_eq_ok.mpr ⟨payload, hpayload, rfl⟩⟩⟩⟩⟩
  let dated := { signed with
    headers := signed.headers.set "X-Amz-Date".toList (.text date) }
  have hdate : HmacAuthV4Handler.amzDate dated = .ok date := by
    rw [HmacAuthV4Handler.amzDate, OrderedDict.get?_set, if_pos rfl]
    rfl
  obtain ⟨scope, hscope⟩ : ∃ scope,
      HmacAuthV4Handler.credentialScope ownMethods self dated = .ok scope :=
    ⟨_, except_bind_eq_ok.mpr ⟨date, hdate, except_bind_eq_ok.mpr ⟨region, hregion, rfl⟩⟩⟩
  obtain ⟨sts, hsts⟩ : ∃ sts, HmacAuthV4Handler.stringToSign library ownMethods self dated
      (join '\n' (cr.splitOn '\n').dropLast ++ "\nUNSIGNED-PAYLOAD".toList) = .ok sts :=
    ⟨_, except_bind_eq_ok.mpr ⟨date, hdate, except_bind_eq_ok.mpr ⟨scope, hscope, rfl⟩⟩⟩
  exact ⟨_, except_bind_eq_ok.mpr ⟨cr, hcr, except_bind_eq_ok.mpr ⟨sts, hsts, rfl⟩⟩⟩

end

end Boto.S3
