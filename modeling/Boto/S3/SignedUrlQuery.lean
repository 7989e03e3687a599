import Boto.S3.SignedPath
import Boto.S3.SignedUrlHeaders
import Boto.Support.PercentReading
import Boto.WrittenNumbers

/-!
# What signed URLs verify as

The path and the recognised parameters of a URL are those that were signed.  The headers with the
prefix are included by a test of their names as they are given, but signed by their names in lower
case, so that a URL verifies exactly if no header with another spelling is among them.
-/

namespace Boto.S3

open Auth (Library canonicalQsa canonicalString qsaOfInterest strInt)
open OrderedDict (lastEntry)
open PercentEncoding (unquote)

/-! ## Paths -/

theorem getPath_slash {path : Text} (hpath : '?' ∉ path) (suppressConsecSlashes : Bool) :
    getPath ['/'] suppressConsecSlashes ('/' :: path) =
      if suppressConsecSlashes = true then suppressed ('/' :: path) else '/' :: path := by
  cases suppressConsecSlashes with
  | false => rfl
  | true =>
      have hslash : '?' ∉ '/' :: path := by simp [hpath]
      rw [getPath_suppressed, pathPart_of_notMem hslash, if_pos rfl]
      have hdrop : ('/' :: path).dropWhile (· ≠ '?') = [] := by
        rw [List.dropWhile_eq_nil_iff]
        intro c hc
        exact decide_eq_true fun heq => hslash (heq ▸ hc)
      rw [hdrop, List.append_nil]

theorem mem_getPath {path : Text} (hpath : '?' ∉ path) (suppressConsecSlashes : Bool) {c : Char}
    (hc : c ≠ '/') :
    c ∈ getPath ['/'] suppressConsecSlashes ('/' :: path) ↔ c ∈ path := by
  rw [getPath_slash hpath]
  split
  · rw [mem_suppressed hc]
    simp [hc]
  · simp [hc]

theorem exists_getPath {path : Text} (hpath : '?' ∉ path) (suppressConsecSlashes : Bool) :
    ∃ rest, getPath ['/'] suppressConsecSlashes ('/' :: path) = '/' :: rest := by
  rw [getPath_slash hpath]
  split
  · rw [suppressed]
    split <;> exact ⟨_, rfl⟩
  · exact ⟨_, rfl⟩

/-- A bucket before a path stands before it when consecutive slashes are suppressed. -/
theorem suppressed_bucket {bucket : Text} (hne : bucket ≠ []) (hbucket : '/' ∉ bucket)
    (path : Text) :
    suppressed ('/' :: (bucket ++ '/' :: path)) = '/' :: bucket ++ suppressed ('/' :: path) := by
  have hfirst : pathElements bucket = [bucket] := by
    rw [pathElements, List.splitOn_eq_singleton hbucket, List.filter_singleton]
    cases bucket with
    | nil => exact absurd rfl hne
    | cons c bucket => rfl
  have hslash : ∀ path, pathElements ('/' :: path) = pathElements path := fun path =>
    pathElements_append_slash [] path
  have hlast : ('/' :: (bucket ++ '/' :: path)).getLast? = ('/' :: path).getLast? := by
    rw [← List.cons_append, List.getLast?_append]
    obtain ⟨c, hlast⟩ : ∃ c, ('/' :: path).getLast? = some c :=
      ⟨_, List.getLast?_eq_some_getLast (List.cons_ne_nil _ _)⟩
    rw [hlast]
    rfl
  rw [suppressed, suppressed, hslash, hslash, pathElements_append_slash, hfirst, hlast]
  by_cases helements : pathElements path = []
  · have hneLast : ('/' :: bucket).getLast? ≠ some '/' := by
      intro heq
      rw [List.getLast?_cons_of_ne_nil hne] at heq
      exact hbucket (List.mem_of_getLast? heq)
    rw [helements, List.append_nil]
    have hjoin : join '/' [bucket] = bucket := List.intercalate_singleton
    rw [hjoin, if_pos ⟨hneLast, getLast?_of_pathElements helements⟩]
    rfl
  · have hjoin : join '/' ([bucket] ++ pathElements path) =
        bucket ++ '/' :: join '/' (pathElements path) := join_cons_of_ne_nil helements
    have hsame : ('/' :: (bucket ++ '/' :: join '/' (pathElements path))).getLast? =
        ('/' :: join '/' (pathElements path)).getLast? := by
      rw [← List.cons_append, List.getLast?_append]
      obtain ⟨c, hlast⟩ : ∃ c, ('/' :: join '/' (pathElements path)).getLast? = some c :=
        ⟨_, List.getLast?_eq_some_getLast (List.cons_ne_nil _ _)⟩
      rw [hlast]
      rfl
    rw [hjoin, hsame]
    split <;> simp

/-- The resource that is signed is the path of the URL, after the bucket if that is in the
host. -/
theorem servedResource_getPath (connection : QueryConnection) (call : QueryCall)
    (hplain : call.IsPlain connection.callingFormat) :
    connection.servedResource call (getPath ['/'] connection.suppressConsecSlashes
      (connection.callingFormat.buildPathBase call.bucket call.key)) =
    getPath ['/'] connection.suppressConsecSlashes
      (CallingFormat.buildAuthPath call.bucket call.key) := by
  have hquery := @notMem_quote '?' (by simp) call.key
  rw [QueryConnection.servedResource, buildPathBase_eq, afterSlash, CallingFormat.buildAuthPath]
  by_cases hempty : call.bucket = []
  · rw [hempty]
    simp
  · cases hformat : connection.callingFormat.isOrdinary with
    | true => simp [hempty]
    | false =>
        have hslash := hplain.hostBucket hformat
        have hauth : '?' ∉ call.bucket ++ '/' :: Auth.quote "/" call.key := by
          simp [hplain.bucket.1, hquery]
        have hnot : (false || call.bucket.isEmpty) = false := by
          rw [Bool.false_or, List.isEmpty_eq_false_iff]
          exact hempty
        have hfalse : ¬(false = true ∧ call.bucket ≠ []) := fun h => Bool.false_ne_true h.1
        rw [hnot, if_neg Bool.false_ne_true, if_neg hfalse, if_pos hempty, List.cons_append,
          getPath_slash hquery, List.cons_append, getPath_slash hauth]
        split
        · rw [suppressed_bucket hempty hslash]
          rfl
        · rfl

/-! ## Fields -/

/-- A parameter as it is written. -/
def pairField (pair : Text × Text) : Text :=
  pair.1 ++ '=' :: pair.2

/-- A parameter has none of the marks of a query, apart from those in its value that it may
have. -/
structure IsField (pair : Text × Text) : Prop where
  name : '=' ∉ pair.1 ∧ '&' ∉ pair.1 ∧ '#' ∉ pair.1
  value : '&' ∉ pair.2 ∧ '#' ∉ pair.2

/-- The parameters of a query are read as they were written. -/
theorem urlFields_join {pairs : List (Text × Text)} (hne : pairs ≠ [])
    (hfields : ∀ pair ∈ pairs, IsField pair) :
    urlFields (join '&' (pairs.map pairField)) = pairs.map fun pair => (pair.1, some pair.2) := by
  have hpieces : ∀ field ∈ pairs.map pairField, '&' ∉ field := by
    intro field hfield
    obtain ⟨pair, hpair, rfl⟩ := List.mem_map.mp hfield
    obtain ⟨hname, hvalue⟩ := hfields pair hpair
    rw [pairField]
    simp [hname.2.1, hvalue.1]
  have hne' : pairs.map pairField ≠ [] := by
    simpa using hne
  rw [urlFields, join, List.splitOn_intercalate _ hpieces hne', List.map_map]
  refine List.map_congr_left fun pair hpair => ?_
  exact Urls.cut_append_cons (hfields pair hpair).name.1 pair.2

theorem fragment_notMem_join {pairs : List (Text × Text)}
    (hfields : ∀ pair ∈ pairs, IsField pair) : '#' ∉ join '&' (pairs.map pairField) := by
  intro hin
  obtain ⟨field, hfield, hin⟩ := mem_of_mem_join hin (by decide)
  obtain ⟨pair, hpair, rfl⟩ := List.mem_map.mp hfield
  obtain ⟨hname, hvalue⟩ := hfields pair hpair
  rw [pairField] at hin
  simp [hname.2.2, hvalue.2] at hin

/-- The recognised parameters. -/
def recognised (fields : List (Text × Option Text)) : List (Text × Option Text) :=
  fields.filter fun field => decide (field.1 ∈ qsaOfInterest)

/-- Only the recognised parameters of a query are signed. -/
theorem canonicalQsa_congr {query query' : Text}
    (heq : recognised (urlFields query) = recognised (urlFields query')) :
    canonicalQsa query = canonicalQsa query' := by
  rw [recognised, recognised, urlFields, urlFields] at heq
  unfold canonicalQsa
  dsimp only
  rw [heq]

theorem canonicalQsa_of_recognised_nil {query : Text} (hnil : recognised (urlFields query) = []) :
    canonicalQsa query = [] := by
  rw [recognised, urlFields] at hnil
  unfold canonicalQsa
  dsimp only
  rw [hnil]
  rfl

/-! ## The parameters of a URL -/

theorem notMem_quoteWith {safe : String} {c : Char} (hsafe : c ∉ safe.toList)
    (hc : c ∈ ['?', '#', '&', '=']) (text : Text) : c ∉ Auth.quote safe text := by
  intro hin
  have hmarks : c.isAlphanum = false ∧ c ∉ ['_', '.', '-', '~', '%'] := by
    simp only [List.mem_cons, List.not_mem_nil, or_false] at hc
    rcases hc with rfl | rfl | rfl | rfl <;> decide
  rcases PercentEncoding.mem_quote hin with hin | hquoted
  · exact hsafe hin
  · rcases hquoted with hquoted | hquoted
    · rw [hmarks.1] at hquoted
      cases hquoted
    · exact hmarks.2 hquoted

theorem unquote_quoteWith {safe : String} (hascii : ∀ c ∈ safe.toList, c.val ≤ 127)
    (hsafe : '%' ∉ safe.toList) (text : Text) : unquote (Auth.quote safe text) = text :=
  PercentEncoding.unquote_quote hascii hsafe text

section

variable (library : Library) (now : ℤ) (connection : QueryConnection) (call : QueryCall)

/-- The parameters for the signature. -/
def QueryConnection.authPairs : List (Text × Text) :=
  [("Signature".toList, Auth.quote "" (connection.signature library now call)),
    ("Expires".toList, strInt (call.expires now)),
    ("AWSAccessKeyId".toList, connection.keys.provider.accessKey)]

/-- The parameters that are signed. -/
def QueryCall.extraPairs : List (Text × Text) :=
  (call.versionId.toList.map fun versionId => ("versionId".toList, versionId)) ++
    call.responseHeaders.items.map fun item => (item.1, Auth.quote "/" item.2)

/-- The headers that are included in the URL. -/
def QueryConnection.includedHeaders : List (Text × Text) :=
  (connection.headers call).items.filter fun item =>
    connection.keys.provider.headerPrefix.isPrefixOf item.1

/-- The parameters for the headers. -/
def QueryConnection.headerPairs : List (Text × Text) :=
  (connection.includedHeaders call).map fun item => (item.1, Auth.quote "/" item.2)

/-- All parameters. -/
def QueryConnection.pairs : List (Text × Text) :=
  connection.authPairs library now call ++ (call.extraPairs ++ connection.headerPairs call)

theorem extraQp_eq : call.extraQp = call.extraPairs.map pairField := by
  rw [QueryCall.extraQp, QueryCall.extraPairs, List.map_append, List.map_map, List.map_map]
  rfl

theorem headerQp_eq : connection.headerQp call = (connection.headerPairs call).map pairField := by
  rw [QueryConnection.headerQp, QueryConnection.headerPairs, List.map_map]
  rfl

theorem join_append {texts others : List Text} (htexts : texts ≠ []) (hothers : others ≠ []) :
    join '&' (texts ++ others) = join '&' texts ++ '&' :: join '&' others := by
  induction texts with
  | nil => exact absurd rfl htexts
  | cons text texts ih =>
      by_cases hempty : texts = []
      · subst hempty
        rw [List.singleton_append, join_cons_of_ne_nil hothers]
        simp [join]
      · have hne : texts ++ others ≠ [] := by simp [hempty]
        rw [List.cons_append, join_cons_of_ne_nil hne, ih hempty, join_cons_of_ne_nil hempty]
        simp

theorem join_pairFields (pair pair' pair'' : Text × Text) :
    '?' :: (pair.1 ++ ['=']) ++ pair.2 ++ '&' :: (pair'.1 ++ ['=']) ++ pair'.2 ++
      '&' :: (pair''.1 ++ ['=']) ++ pair''.2 =
        '?' :: join '&' ([pair, pair', pair''].map pairField) := by
  rw [List.map_cons, List.map_cons, List.map_singleton, join_cons_of_ne_nil (by simp),
    join_cons_of_ne_nil (by simp), join, List.intercalate_singleton, pairField, pairField,
    pairField]
  simp only [List.append_assoc, List.cons_append, List.nil_append]

/-- The query of a URL that is signed. -/
theorem queryPart_eq (hauth : (call.queryAuth && !connection.anon) = true) :
    connection.queryPart library now call =
      '?' :: join '&' ((connection.pairs library now call).map pairField) := by
  have hsigned : connection.signedQuery library now call =
      '?' :: join '&' ((connection.authPairs library now call).map pairField) := by
    have hsignature : "?Signature=".toList = '?' :: ("Signature".toList ++ ['=']) := rfl
    have hexpires : "&Expires=".toList = '&' :: ("Expires".toList ++ ['=']) := rfl
    have hkey : "&AWSAccessKeyId=".toList = '&' :: ("AWSAccessKeyId".toList ++ ['=']) := rfl
    unfold QueryConnection.signedQuery
    rw [hsignature, hexpires, hkey]
    exact join_pairFields ("Signature".toList, _) ("Expires".toList, _)
      ("AWSAccessKeyId".toList, _)
  rw [QueryConnection.queryPart, hauth, if_pos rfl, hsigned, QueryConnection.pairs,
    List.map_append, extraQp_eq, headerQp_eq, ← List.map_append]
  by_cases hempty : (call.extraPairs ++ connection.headerPairs call).map pairField = []
  · rw [if_pos hempty, hempty, List.append_nil]
  · have hauthPairs : (connection.authPairs library now call).map pairField ≠ [] :=
      List.cons_ne_nil _ _
    rw [if_neg hempty, if_neg (List.cons_ne_nil _ _), join_append hauthPairs hempty]
    rfl

end

section

variable {library : Library} {now : ℤ} {connection : QueryConnection} {call : QueryCall}

/-- A header is one of the call, or the token. -/
theorem mem_headers {item : Text × Text} (hitem : item ∈ (connection.headers call).items) :
    item ∈ call.headers.items ∨
      item.1 = "x-amz-security-token".toList ∧ '\n' ∉ item.2 := by
  rw [QueryConnection.headers] at hitem
  cases htoken : connection.keys.provider.token? with
  | none =>
      rw [htoken] at hitem
      exact .inl hitem
  | some token =>
      rw [htoken] at hitem
      rcases OrderedDict.mem_setItems hitem with rfl | hitem
      · exact .inr ⟨rfl, connection.tokenLine token htoken⟩
      · exact .inl hitem

theorem headerNames {item : Text × Text} (hitem : item ∈ (connection.headers call).items) :
    ':' ∉ item.1 ∧ '=' ∉ item.1 := by
  rcases mem_headers hitem with hitem | ⟨heq, -⟩
  · exact call.headerNames item.1 (List.mem_map_of_mem hitem)
  · rw [heq]
    decide

theorem headerValues {item : Text × Text} (hitem : item ∈ (connection.headers call).items) :
    '\n' ∉ item.2 := by
  rcases mem_headers hitem with hitem | ⟨-, hline⟩
  · exact call.headerValues item hitem
  · exact hline

theorem plain_headerNames (hplain : call.IsPlain connection.callingFormat) {item : Text × Text}
    (hitem : item ∈ (connection.headers call).items) : '&' ∉ item.1 ∧ '#' ∉ item.1 := by
  rcases mem_headers hitem with hitem | ⟨heq, -⟩
  · exact hplain.headerNames item.1 (List.mem_map_of_mem hitem)
  · rw [heq]
    decide

theorem isField_quote {safe : String} {name : Text} (hname : '=' ∉ name ∧ '&' ∉ name ∧ '#' ∉ name)
    (hsafe : '&' ∉ safe.toList ∧ '#' ∉ safe.toList) (value : Text) :
    IsField (name, Auth.quote safe value) :=
  ⟨hname, notMem_quoteWith hsafe.1 (by simp) value, notMem_quoteWith hsafe.2 (by simp) value⟩

theorem isField_authPairs : ∀ pair ∈ connection.authPairs library now call, IsField pair := by
  intro pair hpair
  rw [QueryConnection.authPairs] at hpair
  simp only [List.mem_cons, List.not_mem_nil, or_false] at hpair
  rcases hpair with rfl | rfl | rfl
  · exact isField_quote (by decide) (by decide) _
  · have hname : '=' ∉ "Expires".toList ∧ '&' ∉ "Expires".toList ∧ '#' ∉ "Expires".toList := by
      decide
    refine ⟨hname, ?_, ?_⟩ <;> intro hin <;> rcases strInt_chars hin with hin | hin <;>
      cases hin
  · have hname : '=' ∉ "AWSAccessKeyId".toList ∧ '&' ∉ "AWSAccessKeyId".toList ∧
        '#' ∉ "AWSAccessKeyId".toList := by
      decide
    refine ⟨hname, ?_, ?_⟩ <;> intro hin <;> cases connection.accessKeyPlain _ hin

theorem isField_pairs (hplain : call.IsPlain connection.callingFormat) :
    ∀ pair ∈ connection.pairs library now call, IsField pair := by
  intro pair hpair
  rcases List.mem_append.mp hpair with hpair | hpair
  · exact isField_authPairs pair hpair
  rcases List.mem_append.mp hpair with hpair | hpair
  · rcases List.mem_append.mp hpair with hpair | hpair
    · obtain ⟨version, hversion, rfl⟩ := List.mem_map.mp hpair
      obtain ⟨hand, -, hhash⟩ := hplain.version version (Option.mem_toList.mp hversion)
      have hname : '=' ∉ "versionId".toList ∧ '&' ∉ "versionId".toList ∧
          '#' ∉ "versionId".toList := by
        decide
      exact ⟨hname, hand, hhash⟩
    · obtain ⟨item, hitem, rfl⟩ := List.mem_map.mp hpair
      have hnames : ∀ name ∈ qsaOfInterest, '=' ∉ name ∧ '&' ∉ name ∧ '#' ∉ name := by decide
      have hname := call.responseNames item.1 (List.mem_map_of_mem hitem)
      exact isField_quote (hnames item.1 hname) (by decide) item.2
  · obtain ⟨item, hitem, rfl⟩ := List.mem_map.mp hpair
    have hitem := List.mem_of_mem_filter hitem
    obtain ⟨hand, hhash⟩ := plain_headerNames hplain hitem
    exact isField_quote ⟨(headerNames hitem).2, hand, hhash⟩ (by decide) item.2

theorem pairs_ne_nil : connection.pairs library now call ≠ [] :=
  List.cons_ne_nil _ _

/-- The query of a URL, without the mark before it. -/
def QueryConnection.query (library : Library) (now : ℤ) (connection : QueryConnection)
    (call : QueryCall) : Text :=
  join '&' ((connection.pairs library now call).map pairField)

theorem urlFields_query (hplain : call.IsPlain connection.callingFormat) :
    urlFields (connection.query library now call) =
      (connection.pairs library now call).map fun pair => (pair.1, some pair.2) :=
  urlFields_join pairs_ne_nil (isField_pairs hplain)

/-! ## Dates and signatures -/

theorem quote_strInt (value : ℤ) : Auth.quote "" (strInt value) = strInt value := by
  have hquote : ∀ text : Text, (∀ c ∈ text, c.isDigit = true ∨ c = '-') →
      Auth.quote "" text = text := by
    intro text hchars
    induction text with
    | nil => rfl
    | cons c text ih =>
        rw [List.forall_mem_cons] at hchars
        have hfirst : PercentEncoding.quote [] (String.utf8EncodeChar c) = [c] := by
          rcases hchars.1 with hdigit | rfl
          · refine PercentEncoding.quote_hex ?_
            have hbounds : '0' ≤ c ∧ c ≤ '9' := by
              simpa [Char.isDigit, Char.le_def] using hdigit
            rw [PercentEncoding.hexValue, if_pos hbounds]
            rfl
          · decide
        refine (PercentEncoding.quote_encode_cons c text).trans ?_
        have hrest := ih hchars.2
        exact congrArg₂ _ hfirst hrest
  exact hquote _ fun c hc => strInt_chars hc

theorem unquote_strInt (value : ℤ) : unquote (strInt value) = strInt value := by
  have hread := @unquote_quoteWith "" (by simp) (by simp) (strInt value)
  rwa [quote_strInt] at hread

/-- The names of the parameters that are signed or included are not those for the signature. -/
theorem name_extraPairs {pair : Text × Text} (hpair : pair ∈ call.extraPairs) :
    pair.1 ∈ qsaOfInterest := by
  rcases List.mem_append.mp hpair with hpair | hpair
  · obtain ⟨version, -, rfl⟩ := List.mem_map.mp hpair
    change "versionId".toList ∈ qsaOfInterest
    decide
  · obtain ⟨item, hitem, rfl⟩ := List.mem_map.mp hpair
    exact call.responseNames item.1 (List.mem_map_of_mem hitem)

theorem headerPrefix_of_included {item : Text × Text}
    (hitem : item ∈ connection.includedHeaders call) :
    connection.keys.provider.headerPrefix <+: item.1 :=
  List.isPrefixOf_iff_prefix.mp (List.mem_filter.mp hitem).2

theorem head_of_headerPairs {pair : Text × Text} (hpair : pair ∈ connection.headerPairs call) :
    ∃ rest, pair.1 = 'x' :: rest := by
  obtain ⟨item, hitem, rfl⟩ := List.mem_map.mp hpair
  have hstarts := headerPrefix_of_included hitem
  exact (isHeaderPrefix connection.keys).exists_rest hstarts

/-- The values of a parameter for the signature. -/
theorem valuesOf_authName (hplain : call.IsPlain connection.callingFormat) {name : Text}
    (hname : name ∉ qsaOfInterest) (hhead : name.head? ≠ some 'x') :
    valuesOf name (urlFields (connection.query library now call)) =
      ((connection.authPairs library now call).filter fun pair => pair.1 = name).map
        fun pair => unquote pair.2 := by
  have hother : (call.extraPairs ++ connection.headerPairs call).filter
      (fun pair => decide (pair.1 = name)) = [] := by
    rw [List.filter_eq_nil_iff]
    intro pair hpair heq
    have heq := of_decide_eq_true heq
    rcases List.mem_append.mp hpair with hpair | hpair
    · exact hname (heq ▸ name_extraPairs hpair)
    · obtain ⟨rest, hrest⟩ := head_of_headerPairs hpair
      exact hhead (by rw [← heq, hrest]; rfl)
  rw [valuesOf, urlFields_query hplain, List.filter_map, List.map_map, QueryConnection.pairs]
  change List.map _ (List.filter (fun pair : Text × Text => decide (pair.1 = name)) _) = _
  rw [List.filter_append, hother, List.append_nil]
  rfl

/-! ## What is recognised -/

theorem recognised_pairs (pairs : List (Text × Text)) :
    recognised (pairs.map fun pair => (pair.1, some pair.2)) =
      (pairs.filter fun pair => decide (pair.1 ∈ qsaOfInterest)).map
        fun pair => (pair.1, some pair.2) := by
  rw [recognised, List.filter_map]
  rfl

/-- The recognised parameters of a URL are those that are signed. -/
theorem recognised_query (hplain : call.IsPlain connection.callingFormat) :
    recognised (urlFields (connection.query library now call)) =
      call.extraPairs.map fun pair => (pair.1, some pair.2) := by
  have hauth : (connection.authPairs library now call).filter
      (fun pair => decide (pair.1 ∈ qsaOfInterest)) = [] := by
    have hnames : "Signature".toList ∉ qsaOfInterest ∧ "Expires".toList ∉ qsaOfInterest ∧
        "AWSAccessKeyId".toList ∉ qsaOfInterest := by
      decide
    rw [List.filter_eq_nil_iff]
    intro pair hpair hin
    rw [QueryConnection.authPairs] at hpair
    simp only [List.mem_cons, List.not_mem_nil, or_false] at hpair
    rcases hpair with rfl | rfl | rfl
    · exact hnames.1 (of_decide_eq_true hin)
    · exact hnames.2.1 (of_decide_eq_true hin)
    · exact hnames.2.2 (of_decide_eq_true hin)
  have hheaders : (connection.headerPairs call).filter
      (fun pair => decide (pair.1 ∈ qsaOfInterest)) = [] := by
    have hnames : ∀ name ∈ qsaOfInterest, name.head? ≠ some 'x' := by decide
    rw [List.filter_eq_nil_iff]
    intro pair hpair hin
    obtain ⟨rest, hrest⟩ := head_of_headerPairs hpair
    exact hnames pair.1 (of_decide_eq_true hin) (by rw [hrest]; rfl)
  have hextra : call.extraPairs.filter (fun pair => decide (pair.1 ∈ qsaOfInterest)) =
      call.extraPairs := by
    rw [List.filter_eq_self]
    intro pair hpair
    exact decide_eq_true (name_extraPairs hpair)
  rw [urlFields_query hplain, recognised_pairs, QueryConnection.pairs, List.filter_append,
    List.filter_append, hauth, hheaders, hextra, List.nil_append, List.append_nil]

/-- What is signed for a call: the path, and the parameters as they are in the URL. -/
theorem stringToSign_eq (hplain : call.IsPlain connection.callingFormat) :
    connection.stringToSign now call =
      call.method ++ '\n' :: signedLines connection.keys.provider (connection.headers call)
        (signedDate connection.keys.provider (connection.headers call) (call.expires now)) ++
          (getPath ['/'] connection.suppressConsecSlashes
            (CallingFormat.buildAuthPath call.bucket call.key) ++
              canonicalQsa (connection.query library now call)) := by
  have hstarts := isHeaderPrefix connection.keys
  have hquote := @notMem_quote '?' (by simp) call.key
  have hpath : '?' ∉ getPath ['/'] connection.suppressConsecSlashes
      (CallingFormat.buildAuthPath call.bucket call.key) := by
    rw [CallingFormat.buildAuthPath]
    by_cases hempty : call.bucket = []
    · rw [hempty, if_neg (not_not.mpr rfl), List.nil_append,
        mem_getPath hquote _ (by decide)]
      exact hquote
    · have hafter : '?' ∉ call.bucket ++ '/' :: Auth.quote "/" call.key := by
        simp [hplain.bucket.1, hquote]
      rw [if_pos hempty, List.cons_append, mem_getPath hafter _ (by decide)]
      exact hafter
  have hrecognised := @recognised_query library now connection call hplain
  rw [QueryConnection.stringToSign, QueryConnection.authPath]
  by_cases hextra : call.extraQp = []
  · rw [if_pos hextra, canonicalString_of_path hstarts _ _ hpath]
    have hpairs : call.extraPairs = [] := by
      rwa [extraQp_eq, List.map_eq_nil_iff] at hextra
    rw [hpairs] at hrecognised
    rw [canonicalQsa_of_recognised_nil hrecognised, List.append_nil]
  · have hpairs : call.extraPairs ≠ [] := fun hnil => hextra (by rw [extraQp_eq, hnil]; rfl)
    have hfields : ∀ pair ∈ call.extraPairs, IsField pair := fun pair hpair =>
      @isField_pairs library now connection call hplain pair
        (List.mem_append_right _ (List.mem_append_left _ hpair))
    have hquery : '?' ∉ join '&' call.extraQp := by
      intro hin
      obtain ⟨field, hfield, hin⟩ := mem_of_mem_join hin (by decide)
      rcases List.mem_append.mp hfield with hfield | hfield
      · obtain ⟨version, hversion, rfl⟩ := List.mem_map.mp hfield
        have hmark := (hplain.version version (Option.mem_toList.mp hversion)).2.1
        have hname : '?' ∉ "versionId=".toList := by decide
        exact (List.mem_append.mp hin).elim hname hmark
      · obtain ⟨item, hitem, rfl⟩ := List.mem_map.mp hfield
        have hnames : ∀ name ∈ qsaOfInterest, '?' ∉ name := by decide
        have hname := hnames item.1 (call.responseNames item.1 (List.mem_map_of_mem hitem))
        have hvalue := @notMem_quote '?' (by simp) item.2
        rcases List.mem_append.mp hin with hin | hin
        · exact hname hin
        · exact hvalue ((List.mem_cons.mp hin).resolve_left (by decide))
    rw [if_neg hextra, if_neg hpath, canonicalString_of_query hstarts _ _ hpath hquery]
    refine congrArg (fun qsa => _ ++ (_ ++ qsa)) (canonicalQsa_congr ?_)
    rw [hrecognised, extraQp_eq, urlFields_join hpairs hfields, recognised_pairs]
    refine congrArg _ (List.filter_eq_self.mpr ?_)
    intro pair hpair
    exact decide_eq_true (name_extraPairs hpair)

/-- The headers that a service reads are those that are included. -/
theorem prefixedFields_query (hplain : call.IsPlain connection.callingFormat) :
    prefixedFields connection.keys.provider.headerPrefix
        (urlFields (connection.query library now call)) =
      prefixedHeaders connection.keys.provider (connection.includedHeaders call) := by
  have hstarts := isHeaderPrefix connection.keys
  have hother : ∀ pairs : List (Text × Text),
      (∀ pair ∈ pairs, (lower pair.1).head? ≠ some 'x') →
      (signedEntries (pairs.map fun pair => (pair.1, unquote pair.2))).filter
        (fun entry => connection.keys.provider.headerPrefix.isPrefixOf entry.1) = [] := by
    intro pairs hpairs
    rw [List.filter_eq_nil_iff]
    intro entry hentry hin
    rw [signedEntries, List.map_map] at hentry
    obtain ⟨pair, hpair, rfl⟩ := List.mem_map.mp hentry
    obtain ⟨rest, hrest⟩ := hstarts.exists_rest (List.isPrefixOf_iff_prefix.mp hin)
    exact hpairs pair hpair (congrArg List.head? hrest)
  have hauth := hother (connection.authPairs library now call) (by
    intro pair hpair
    rw [QueryConnection.authPairs] at hpair
    simp only [List.mem_cons, List.not_mem_nil, or_false] at hpair
    rcases hpair with rfl | rfl | rfl
    · change (lower "Signature".toList).head? ≠ some 'x'
      decide
    · change (lower "Expires".toList).head? ≠ some 'x'
      decide
    · change (lower "AWSAccessKeyId".toList).head? ≠ some 'x'
      decide)
  have hextra := hother call.extraPairs (by
    have hnames : ∀ name ∈ qsaOfInterest, (lower name).head? ≠ some 'x' := by decide
    intro pair hpair
    exact hnames pair.1 (name_extraPairs hpair))
  have hheaders : (connection.headerPairs call).map (fun pair => (pair.1, unquote pair.2)) =
      connection.includedHeaders call := by
    rw [QueryConnection.headerPairs, List.map_map]
    refine (List.map_congr_left fun item _ => ?_).trans (List.map_id _)
    have hread := @unquote_quoteWith "/" (PercentEncoding.forall_ascii (by decide)) (by decide)
      item.2
    exact Prod.ext rfl hread
  rw [prefixedFields, prefixedHeaders, urlFields_query hplain, List.map_map]
  refine congrArg _ ?_
  change List.filter _ (signedEntries ((connection.pairs library now call).map
    fun pair => (pair.1, unquote pair.2))) = _
  rw [QueryConnection.pairs, List.map_append, List.map_append, hheaders]
  rw [signedEntries, List.map_append, List.map_append, List.filter_append, List.filter_append]
  rw [signedEntries] at hauth hextra
  rw [hauth, hextra]
  rfl

/-! ## Reading a URL -/

theorem endsNetloc_eq_false_iff {c : Char} :
    Urls.endsNetloc c = false ↔ c ≠ '/' ∧ c ≠ '?' ∧ c ≠ '#' := by
  rw [Urls.endsNetloc]
  simp [and_assoc]

/-- The host of a call ends where the path starts. -/
theorem endsNetloc_of_buildHost (hplain : call.IsPlain connection.callingFormat)
    {server host : Text} (hserver : ∀ c ∈ server, Urls.endsNetloc c = false)
    (hhost : connection.callingFormat.buildHost server call.bucket = .ok host) :
    ∀ c ∈ host, Urls.endsNetloc c = false := by
  have hbucket : connection.callingFormat.isOrdinary = false →
      ∀ c ∈ call.bucket, Urls.endsNetloc c = false := by
    intro hformat c hc
    refine endsNetloc_eq_false_iff.mpr ⟨?_, ?_, ?_⟩
    · rintro rfl
      exact hplain.hostBucket hformat hc
    · rintro rfl
      exact hplain.bucket.1 hc
    · rintro rfl
      exact hplain.bucket.2 hc
  rw [CallingFormat.buildHost] at hhost
  split at hhost
  · cases hhost
    exact hserver
  · cases hformat : connection.callingFormat with
    | subdomain =>
        rw [hformat, CallingFormat.getBucketServer, CallingFormat.checkLowercaseBucketname] at hhost
        split at hhost
        · cases hhost
        · cases hhost
          intro c hc
          rcases List.mem_append.mp hc with hc | hc
          · exact hbucket (by rw [hformat]; rfl) c hc
          · rcases List.mem_cons.mp hc with rfl | hc
            · decide
            · exact hserver c hc
    | vhost =>
        rw [hformat, CallingFormat.getBucketServer, CallingFormat.checkLowercaseBucketname] at hhost
        split at hhost
        · cases hhost
        · cases hhost
          exact hbucket (by rw [hformat]; rfl)
    | ordinary =>
        rw [hformat] at hhost
        cases hhost
        exact hserver
    | protocolIndependentOrdinary =>
        rw [hformat] at hhost
        cases hhost
        exact hserver

theorem endsNetloc_serverName (port : ℕ) :
    ∀ c ∈ connection.serverName port, Urls.endsNetloc c = false := by
  intro c hc
  rw [QueryConnection.serverName] at hc
  split at hc
  · exact connection.hostEnds c hc
  · rcases List.mem_append.mp hc with hc | hc
    · exact connection.hostEnds c hc
    · rcases List.mem_cons.mp hc with rfl | hc
      · decide
      · have hdigit := isDigit_of_mem_decimal hc
        refine endsNetloc_eq_false_iff.mpr ⟨?_, ?_, ?_⟩ <;> rintro rfl <;> cases hdigit

/-- The path of a URL. -/
def QueryConnection.urlPath (connection : QueryConnection) (call : QueryCall) : Text :=
  getPath ['/'] connection.suppressConsecSlashes
    (connection.callingFormat.buildPathBase call.bucket call.key)

/-- A URL is made of what stands before the slashes, the host, the path and the query. -/
theorem exists_generateUrl (hauth : (call.queryAuth && !connection.anon) = true) :
    ∃ front server, '/' ∉ front ∧ (∀ c ∈ server, Urls.endsNetloc c = false) ∧
      connection.generateUrl library now call =
        (connection.callingFormat.buildHost server call.bucket).map fun host =>
          front ++ '/' :: '/' :: (host ++ (connection.urlPath call ++
            '?' :: connection.query library now call)) := by
  have hpart := queryPart_eq library now connection call hauth
  have hprotocol : ∀ secure : Bool,
      '/' ∉ (if secure then "http".toList else "https".toList) ++ [':'] := by
    decide
  have hfront : ∃ front, '/' ∉ front ∧ connection.callingFormat.urlStart
      (if call.forceHttp || !connection.isSecure then "http".toList else "https".toList) =
        front ++ "//".toList := by
    have hsplit : "://".toList = [':'] ++ "//".toList := rfl
    have hnot := hprotocol (call.forceHttp || !connection.isSecure)
    unfold CallingFormat.urlStart
    rw [hsplit, ← List.append_assoc]
    cases connection.callingFormat with
    | subdomain => exact ⟨_, hnot, rfl⟩
    | vhost => exact ⟨_, hnot, rfl⟩
    | ordinary => exact ⟨_, hnot, rfl⟩
    | protocolIndependentOrdinary => exact ⟨[], List.not_mem_nil, rfl⟩
  obtain ⟨front, hnot, hfront⟩ := hfront
  have hserver := @endsNetloc_serverName connection (if call.forceHttp then 80 else connection.port)
  refine ⟨front, _, hnot, hserver, ?_⟩
  have hslashes : "//".toList = ['/', '/'] := rfl
  rw [QueryConnection.generateUrl, CallingFormat.buildUrlBase, hfront, hpart, hslashes]
  cases connection.callingFormat.buildHost
    (connection.serverName (if call.forceHttp then 80 else connection.port)) call.bucket with
  | error e => rfl
  | ok host =>
      have hassoc : front ++ ['/', '/'] ++ host ++ connection.urlPath call ++
          '?' :: connection.query library now call =
          front ++ '/' :: '/' :: (host ++ (connection.urlPath call ++
            '?' :: connection.query library now call)) := by
        simp only [List.append_assoc, List.cons_append, List.nil_append]
      exact congrArg Except.ok hassoc

/-- What follows the host of a URL. -/
theorem urlTarget_eq {front host rest : Text} (hfront : '/' ∉ front)
    (hhost : ∀ c ∈ host, Urls.endsNetloc c = false) (hrest : '#' ∉ rest) :
    urlTarget (front ++ '/' :: '/' :: (host ++ '/' :: rest)) = '/' :: rest := by
  have hslashes : (front ++ '/' :: '/' :: (host ++ '/' :: rest)).dropWhile (· ≠ '/') =
      '/' :: '/' :: (host ++ '/' :: rest) := Urls.dropWhile_append_cons hfront _
  have hdrop : (host ++ '/' :: rest).dropWhile (fun c => !Urls.endsNetloc c) = '/' :: rest := by
    rw [List.dropWhile_append_of_pos fun c hc => by rw [hhost c hc]; rfl]
    exact List.dropWhile_cons_of_neg (by decide)
  have hfragment : ('/' :: rest).takeWhile (· ≠ '#') = '/' :: rest := by
    rw [List.takeWhile_eq_self_iff]
    intro c hc
    refine decide_eq_true ?_
    rintro rfl
    exact hrest ((List.mem_cons.mp hc).resolve_left (by decide))
  rw [urlTarget, hslashes]
  change ((host ++ '/' :: rest).dropWhile fun c => !Urls.endsNetloc c).takeWhile (· ≠ '#') = _
  rw [hdrop, hfragment]

theorem mem_urlPath (hplain : call.IsPlain connection.callingFormat) :
    '?' ∉ connection.urlPath call ∧ '#' ∉ connection.urlPath call ∧
      ∃ rest, connection.urlPath call = '/' :: rest := by
  have hquote := @notMem_quote '?' (by simp) call.key
  have hhash := @notMem_quote '#' (by simp) call.key
  have hafter : '?' ∉ afterSlash connection.callingFormat call.bucket call.key ∧
      '#' ∉ afterSlash connection.callingFormat call.bucket call.key := by
    rw [afterSlash]
    split
    · simp [hplain.bucket.1, hplain.bucket.2, hquote, hhash]
    · exact ⟨hquote, hhash⟩
  rw [QueryConnection.urlPath, buildPathBase_eq, mem_getPath hafter.1 _ (by decide),
    mem_getPath hafter.1 _ (by decide)]
  exact ⟨hafter.1, hafter.2, exists_getPath hafter.1 _⟩

/-- A service finds the path and the query of a URL. -/
theorem target_of_generateUrl (hplain : call.IsPlain connection.callingFormat)
    (hauth : (call.queryAuth && !connection.anon) = true) {url : Text}
    (hurl : connection.generateUrl library now call = .ok url) :
    urlTarget url = connection.urlPath call ++ '?' :: connection.query library now call := by
  obtain ⟨front, server, hfront, hserver, heq⟩ :=
    @exists_generateUrl library now connection call hauth
  rw [heq] at hurl
  cases hhost : connection.callingFormat.buildHost server call.bucket with
  | error e =>
      rw [hhost] at hurl
      cases hurl
  | ok host =>
      rw [hhost] at hurl
      cases hurl
      have hclean := endsNetloc_of_buildHost hplain hserver hhost
      obtain ⟨-, hhash, rest, hrest⟩ := mem_urlPath hplain
      have hquery : '#' ∉ connection.query library now call :=
        fragment_notMem_join (isField_pairs hplain)
      rw [hrest] at hhash ⊢
      rw [List.cons_append, urlTarget_eq hfront hclean]
      simp only [List.mem_append, List.mem_cons, not_or] at hhash ⊢
      exact ⟨hhash.2, by decide, hquery⟩

theorem generateUrl_isOk (hauth : (call.queryAuth && !connection.anon) = true) :
    (∃ url, connection.generateUrl library now call = .ok url) ↔
      connection.callingFormat.takes call.bucket = true := by
  obtain ⟨front, server, -, -, heq⟩ := @exists_generateUrl library now connection call hauth
  rw [heq, ← CallingFormat.buildHost_isOk _ server]
  cases connection.callingFormat.buildHost server call.bucket <;> simp [Except.map]

end

end Boto.S3
