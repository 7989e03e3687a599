import Boto.Auth.S3SignedQuery
import Boto.S3.RemoteMetadata
import Boto.S3.SignedUrlQuery

/-!
# Which signed URLs verify

The string that a service makes of a URL differs from the one that was signed in its date and in
the lines of its headers only.  Both are the same exactly if the headers are included as they are
signed.
-/

namespace Boto.S3

open Auth (Library canonicalQsa strInt)
open OrderedDict (lastEntry)

variable {library : Library} {now : ℤ} {connection : QueryConnection} {call : QueryCall}

/-! ## Lines of headers -/

theorem colon_notMem_lower {name : Text} (hname : ':' ∉ name) : ':' ∉ lower name := by
  intro hin
  obtain ⟨c, hc, heq⟩ := List.mem_map.mp hin
  exact hname (eq_of_toLower (by decide +kernel) heq ▸ hc)

/-- Headers of a call are signed in lines. -/
theorem isLine_signedEntries {headers : List (Text × Text)}
    (hheaders : headers ⊆ (connection.headers call).items) :
    ∀ entry ∈ signedEntries headers, IsLine entry := by
  intro entry hentry
  obtain ⟨item, hitem, rfl⟩ := List.mem_map.mp hentry
  have hitem := hheaders hitem
  exact ⟨colon_notMem_lower (headerNames hitem).1,
    fun hin => headerValues hitem (mem_of_mem_stripText hin)⟩

theorem isLine_prefixedHeaders {headers : List (Text × Text)}
    (hheaders : headers ⊆ (connection.headers call).items) (name value : Text)
    (hget : (prefixedHeaders connection.keys.provider headers).get? name = some value) :
    IsLine (name, value) := by
  rw [get?_prefixedHeaders] at hget
  split at hget
  · exact isLine_signedEntries hheaders _ (OrderedDict.mem_of_lastEntry hget)
  · cases hget

theorem includedHeaders_subset :
    connection.includedHeaders call ⊆ (connection.headers call).items :=
  fun _ => List.mem_of_mem_filter

/-- The lines of the included headers are those that are signed exactly if the headers are. -/
theorem headerLines_included_iff :
    headerLines (prefixedHeaders connection.keys.provider (connection.includedHeaders call)) =
        headerLines (prefixedHeaders connection.keys.provider (connection.headers call).items) ↔
      ∀ name, connection.keys.provider.headerPrefix <+: name →
        lastEntry name (signedEntries (connection.headers call).items) =
          lastEntry name (signedEntries (connection.includedHeaders call)) := by
  rw [headerLines_eq_iff (isLine_prefixedHeaders includedHeaders_subset)
    (isLine_prefixedHeaders (List.Subset.refl _))]
  refine forall_congr' fun name => ?_
  rw [get?_prefixedHeaders, get?_prefixedHeaders, ← List.isPrefixOf_iff_prefix]
  by_cases hname : connection.keys.provider.headerPrefix.isPrefixOf name = true
  · rw [if_pos hname, if_pos hname]
    exact ⟨fun heq _ => heq.symm, fun heq => (heq hname).symm⟩
  · rw [if_neg hname, if_neg hname]
    exact iff_of_true rfl fun hin => absurd hin hname

/-! ## Dates -/

theorem newline_notMem_strInt (value : ℤ) : '\n' ∉ strInt value := by
  intro hin
  rcases strInt_chars hin with hdigit | hdash
  · cases hdigit
  · cases hdash

theorem newline_notMem_signedDate {date : Text}
    (hdate : signedDate connection.keys.provider (connection.headers call) (call.expires now) =
      some date) : '\n' ∉ date := by
  rw [signedDate] at hdate
  split at hdate
  · rw [← Option.some.inj hdate]
    exact newline_notMem_strInt _
  · split at hdate
    · rw [← Option.some.inj hdate]
      exact List.not_mem_nil
    · have hmem := OrderedDict.mem_of_lastEntry hdate
      exact (isLine_signedEntries (List.Subset.refl _) _ hmem).2

/-- The time of expiry is the date that is signed unless it is zero. -/
theorem signedDate_eq_expires_iff :
    signedDate connection.keys.provider (connection.headers call) (call.expires now) =
        some (strInt (call.expires now)) ↔
      (call.expires now = 0 →
        lastEntry "date".toList (signedEntries (connection.headers call).items) = some ['0'] ∧
          lastEntry connection.keys.provider.dateHeader
            (signedEntries (connection.headers call).items) = none) := by
  have hzero : strInt 0 = ['0'] := by decide
  rw [signedDate]
  by_cases hexpires : call.expires now = 0
  · rw [if_neg (not_not.mpr hexpires), hexpires, hzero]
    cases hdate : lastEntry connection.keys.provider.dateHeader
        (signedEntries (connection.headers call).items) with
    | none => simp
    | some date => simp
  · rw [if_pos hexpires]
    exact iff_of_true rfl fun heq => absurd heq hexpires

theorem head_headerLines {headers : List (Text × Text)} {c : Char} {rest : Text}
    (heq : headerLines (prefixedHeaders connection.keys.provider headers) = c :: rest) :
    c = 'x' := by
  rw [headerLines] at heq
  cases hnames : sorted (prefixedHeaders connection.keys.provider headers).keys with
  | nil =>
      rw [hnames] at heq
      cases heq
  | cons name names =>
      have hname : name ∈ (prefixedHeaders connection.keys.provider headers).keys := by
        rw [← mem_sorted, hnames]
        exact List.mem_cons_self
      obtain ⟨tail, rfl⟩ :=
        (isHeaderPrefix connection.keys).exists_rest (headerPrefix_of_mem hname)
      rw [hnames, List.flatMap_cons] at heq
      exact (List.cons.inj heq).1.symm

/-- The lines with the date of a URL are those that are signed if both parts are the same. -/
theorem dated_lines_iff {headers : List (Text × Text)} {date : Option Text} {date' lines : Text}
    (hdate : ∀ text ∈ date, '\n' ∉ text) (hdate' : '\n' ∉ date')
    (hhead : date'.head? ≠ some 'x') :
    date' ++ '\n' :: lines = (date.toList.flatMap fun date => date ++ ['\n']) ++
        headerLines (prefixedHeaders connection.keys.provider headers) ↔
      date = some date' ∧
        lines = headerLines (prefixedHeaders connection.keys.provider headers) := by
  cases date with
  | none =>
      rw [Option.toList_none, List.flatMap_nil, List.nil_append]
      refine iff_of_false (fun heq => ?_) fun h => nomatch h.1
      cases date' with
      | nil => exact absurd (head_headerLines heq.symm) (by decide)
      | cons c date' => exact hhead (congrArg some (head_headerLines heq.symm))
  | some date =>
      rw [Option.toList_some, List.flatMap_singleton, List.append_assoc, List.singleton_append]
      constructor
      · intro heq
        obtain ⟨rfl, hlines⟩ := Urls.append_cons_inj hdate' (hdate date rfl) heq
        exact ⟨rfl, hlines⟩
      · rintro ⟨heq, rfl⟩
        rw [Option.some.inj heq]

/-! ## URLs -/

theorem head_strInt (value : ℤ) : (strInt value).head? ≠ some 'x' := by
  intro heq
  rcases strInt_chars (List.mem_of_head? heq) with hdigit | hdash
  · cases hdigit
  · cases hdash

/-- What a service makes of a URL is what was signed exactly if the headers are included as they
are signed. -/
theorem servedString_eq_iff (hplain : call.IsPlain connection.callingFormat) :
    connection.servedString call
        (connection.urlPath call ++ '?' :: connection.query library now call)
          (strInt (call.expires now)) = connection.stringToSign now call ↔
      signedDate connection.keys.provider (connection.headers call) (call.expires now) =
          some (strInt (call.expires now)) ∧
        headerLines (prefixedHeaders connection.keys.provider
            (connection.includedHeaders call)) =
          headerLines (prefixedHeaders connection.keys.provider
            (connection.headers call).items) := by
  obtain ⟨hquery, -, -⟩ := mem_urlPath hplain
  have hsent : Auth.sentQuery (connection.urlPath call ++
      '?' :: connection.query library now call) = connection.query library now call := by
    rw [Auth.sentQuery, Urls.cut_append_cons hquery]
    rfl
  have hpath : (connection.urlPath call ++
      '?' :: connection.query library now call).takeWhile (· ≠ '?') =
        connection.urlPath call := Urls.takeWhile_append_cons hquery _
  have hresource : connection.servedResource call (connection.urlPath call) = _ :=
    servedResource_getPath connection call hplain
  have hcancel : ∀ date lines signed signedLines rest : Text,
      date ++ '\n' :: (lines ++ rest) = signed ++ (signedLines ++ rest) ↔
        date ++ '\n' :: lines = signed ++ signedLines := by
    intro date lines signed signedLines rest
    rw [← List.cons_append, ← List.append_assoc, ← List.append_assoc,
      List.append_cancel_right_eq]
  rw [@stringToSign_eq library _ _ _ hplain, QueryConnection.servedString,
    hsent, hpath, prefixedFields_query hplain, hresource, signedLines,
    ← dated_lines_iff (fun date hdate => newline_notMem_signedDate hdate)
    (newline_notMem_strInt _) (head_strInt _)]
  simp only [List.append_assoc, List.cons_append, List.append_cancel_left_eq, List.cons.injEq,
    true_and]
  exact hcancel _ _ _ _ _

/-- The values that a service reads from a URL. -/
theorem values_query (hplain : call.IsPlain connection.callingFormat) :
    valuesOf "Expires".toList (urlFields (connection.query library now call)) =
        [strInt (call.expires now)] ∧
      valuesOf "Signature".toList (urlFields (connection.query library now call)) =
        [connection.signature library now call] := by
  have hread := @unquote_quoteWith "" (by simp) (by simp)
    (connection.signature library now call)
  constructor
  · rw [valuesOf_authName hplain (by decide) (by decide), QueryConnection.authPairs]
    simp [unquote_strInt]
  · rw [valuesOf_authName hplain (by decide) (by decide), QueryConnection.authPairs]
    simp [hread]

theorem sentQuery_urlPath (hplain : call.IsPlain connection.callingFormat) (query : Text) :
    Auth.sentQuery (connection.urlPath call ++ '?' :: query) = query := by
  obtain ⟨hquery, -, -⟩ := mem_urlPath hplain
  rw [Auth.sentQuery, Urls.cut_append_cons hquery]
  rfl

theorem includes_of_verifies (hauth : (call.queryAuth && !connection.anon) = true)
    (hplain : call.IsPlain connection.callingFormat)
    (hverifies : connection.Verifies library now call) : connection.Includes now call := by
  obtain ⟨url, date, hurl, hdate, -, hstring⟩ := hverifies
  rw [target_of_generateUrl hplain hauth hurl] at hdate hstring
  rw [sentQuery_urlPath hplain, (values_query hplain).1] at hdate
  obtain rfl := List.singleton_inj.mp hdate
  obtain ⟨hsigned, hlines⟩ := (servedString_eq_iff hplain).mp hstring
  constructor
  · exact (generateUrl_isOk hauth).mp ⟨url, hurl⟩
  · exact signedDate_eq_expires_iff.mp hsigned
  · exact headerLines_included_iff.mp hlines

theorem verifies_of_includes (hauth : (call.queryAuth && !connection.anon) = true)
    (hplain : call.IsPlain connection.callingFormat)
    (hincludes : connection.Includes now call) : connection.Verifies library now call := by
  obtain ⟨hbucket, hdate, hheaders⟩ := hincludes
  obtain ⟨url, hurl⟩ := (@generateUrl_isOk library now connection call hauth).mpr hbucket
  obtain ⟨hexpires, hsignature⟩ := @values_query library now connection call hplain
  refine ⟨url, strInt (call.expires now), hurl, ?_⟩
  rw [target_of_generateUrl hplain hauth hurl, sentQuery_urlPath hplain]
  refine ⟨hexpires, hsignature, (servedString_eq_iff hplain).mpr ⟨?_, ?_⟩⟩
  · exact signedDate_eq_expires_iff.mpr hdate
  · exact headerLines_included_iff.mpr hheaders

/-- A connection to the classic endpoint with signatures of version 2. -/
def queryConnection : QueryConnection where
  callingFormat := .subdomain
  host := "s3.amazonaws.com".toList
  port := 443
  isSecure := true
  anon := false
  suppressConsecSlashes := true
  keys := ⟨.init .aws "id".toList "key".toList none, .aws, rfl⟩
  hostEnds := fun c hc => by
    have hall : ("s3.amazonaws.com".toList.all fun c => !Urls.endsNetloc c) = true := rfl
    simpa using List.all_eq_true.mp hall c hc
  accessKeyPlain := List.all_eq_true.mp (rfl : "id".toList.all Char.isAlphanum = true)
  tokenLine := nofun

/-- A call with one header. -/
def headerCall (name : Text) (hname : ':' ∉ name ∧ '=' ∉ name) : QueryCall where
  expiresIn := 60
  method := "PUT".toList
  bucket := ['b']
  key := ['k']
  headers := OrderedDict.empty.set name "private".toList
  queryAuth := true
  forceHttp := false
  responseHeaders := .empty
  expiresInAbsolute := false
  versionId := none
  responseNames := nofun
  headerNames := fun other hother => by
    obtain rfl := List.mem_singleton.mp hother
    exact hname
  headerValues := fun item hitem => by
    obtain rfl := List.mem_singleton.mp hitem
    change '\n' ∉ "private".toList
    decide

theorem headerCall_isPlain {name : Text} (hname : ':' ∉ name ∧ '=' ∉ name)
    (hmarks : '&' ∉ name ∧ '#' ∉ name) : (headerCall name hname).IsPlain .subdomain where
  bucket := by
    change '?' ∉ ['b'] ∧ '#' ∉ ['b']
    decide
  hostBucket := fun _ => by
    change '/' ∉ ['b']
    decide
  version := nofun
  headerNames := fun other hother => by
    obtain rfl := List.mem_singleton.mp hother
    exact hmarks

end Boto.S3
