import Boto.S3.BucketListing

/-!
# Listings are complete

What the service reads from a query is what the query was made of, and what a result
set has after it was read is what was answered.  The next markers are therefore those
of the last entry of a page, decoded as often as they were encoded, and the pages that
a generator yields are together the listing after the first marker.
-/

namespace Boto.S3

open Xml (Node)

/-! ## Queries -/

/-- The parameters that a query has. -/
def sent (params : Params) : List (Text × Text) :=
  params.filterMap fun param =>
    match param.2 with
    | none => none
    | some value => if value.isEmpty then none else some (queryName param.1, value)

theorem unquote_quote (value : Text) : PercentEncoding.unquote (quote value) = value :=
  PercentEncoding.unquote_quote (List.forall_mem_singleton.mpr (by decide))
    (by decide) value

theorem not_mem_quote {value : Text} {c : Char} (hslash : c ≠ '/')
    (hquoted : ¬PercentEncoding.IsQuoted c) : c ∉ quote value := by
  intro hmem
  rcases PercentEncoding.mem_quote hmem with hsafe | hc
  · exact hslash (List.mem_singleton.mp hsafe)
  · exact hquoted hc

theorem amp_not_mem_quote (value : Text) : '&' ∉ quote value :=
  not_mem_quote (by decide) (by rintro (h | h) <;> revert h <;> decide)

theorem eq_not_mem_quote (value : Text) : '=' ∉ quote value :=
  not_mem_quote (by decide) (by rintro (h | h) <;> revert h <;> decide)

theorem encodeUtf8_isEmpty (value : Text) :
    (encodeUtf8 value).isEmpty = value.isEmpty := by
  cases value with
  | nil => rfl
  | cons c value =>
      have hlength := length_encodeUtf8_ge (c :: value)
      cases hbytes : encodeUtf8 (c :: value) with
      | nil => simp [hbytes] at hlength
      | cons b bytes => rfl

/-- The pair of a parameter is read as the parameter. -/
theorem parsePair (key value : Text) :
    (PercentEncoding.unquote ((quote key ++ '=' :: quote value).takeWhile (· ≠ '=')),
      PercentEncoding.unquote
        (((quote key ++ '=' :: quote value).dropWhile (· ≠ '=')).drop 1)) =
      (key, value) := by
  have hne : ∀ c ∈ quote key, decide (c ≠ '=') = true := by
    intro c hc
    rw [decide_eq_true_eq]
    rintro rfl
    exact eq_not_mem_quote key hc
  rw [List.takeWhile_append_of_pos hne, List.dropWhile_append_of_pos hne]
  simp [unquote_quote]

/-- The service reads what was sent, after the pair of the initial query string. -/
theorem parseQuery_getAllQueryArgs (params : Params) {initial : Text}
    (hinitial : '&' ∉ initial) :
    parseQuery (getAllQueryArgs params initial) =
      (if initial.isEmpty then [] else
        [(PercentEncoding.unquote (initial.takeWhile (· ≠ '=')),
          PercentEncoding.unquote ((initial.dropWhile (· ≠ '=')).drop 1))]) ++
        sent (sortedParams params) := by
  let pairs : List Text := (sent (sortedParams params)).map fun pair =>
    quote pair.1 ++ '=' :: quote pair.2
  let first : List Text := if initial.isEmpty then [] else [initial]
  have hargs : getAllQueryArgs params initial = ['&'].intercalate (first ++ pairs) := by
    rw [getAllQueryArgs]
    congr 2
    simp only [pairs, sent, List.map_filterMap]
    congr 1
    funext param
    cases param.2 with
    | none => rfl
    | some value =>
        dsimp only
        rw [encodeUtf8_isEmpty]
        cases value.isEmpty <;> rfl
  have hamp : ∀ pair ∈ first ++ pairs, '&' ∉ pair := by
    intro pair hmem
    rcases List.mem_append.mp hmem with hmem | hmem
    · simp only [first] at hmem
      split at hmem
      · cases hmem
      · rw [List.mem_singleton.mp hmem]
        exact hinitial
    · obtain ⟨param, -, rfl⟩ := List.mem_map.mp hmem
      simp [amp_not_mem_quote]
  have hsplit : ((getAllQueryArgs params initial).splitOn '&').filter
      (fun pair => !pair.isEmpty) = first ++ pairs := by
    have hnonempty : (first ++ pairs).filter (fun pair => !pair.isEmpty) =
        first ++ pairs := by
      rw [List.filter_eq_self]
      intro pair hmem
      rcases List.mem_append.mp hmem with hmem | hmem
      · simp only [first] at hmem
        split at hmem
        · cases hmem
        · rename_i hne
          rw [List.mem_singleton.mp hmem]
          simpa using hne
      · obtain ⟨param, -, rfl⟩ := List.mem_map.mp hmem
        simp
    rw [hargs]
    by_cases hnil : first ++ pairs = []
    · rw [hnil]
      rfl
    · rw [List.splitOn_intercalate '&' hamp hnil, hnonempty]
  rw [parseQuery, hsplit, List.map_append]
  congr 1
  · simp only [first]
    split <;> rfl
  · simp only [pairs, List.map_map]
    conv_rhs => rw [← List.map_id (sent (sortedParams params))]
    congr 1
    funext pair
    exact parsePair pair.1 pair.2

theorem sent_cons (param : Text × Option Text) (params : Params) :
    sent (param :: params) =
      if (param.2.getD []).isEmpty then sent params
      else (queryName param.1, param.2.getD []) :: sent params := by
  obtain ⟨key, value⟩ := param
  cases value with
  | none => rfl
  | some value => cases value <;> rfl

theorem lookup_sent_of_not_mem {params : Params} {name : Text}
    (hnot : name ∉ params.map fun param => queryName param.1) :
    (sent params).lookup name = none := by
  induction params with
  | nil => rfl
  | cons param params ih =>
      rw [List.map_cons, List.mem_cons, not_or] at hnot
      rw [sent_cons]
      split
      · exact ih hnot.2
      · rw [List.lookup_cons, beq_eq_false_iff_ne.mpr hnot.1, ih hnot.2]

/-- A parameter as it is read. -/
theorem lookup_sent {params : Params} {name : Text} {value : Option Text}
    (hnodup : (params.map fun param => queryName param.1).Nodup)
    (hmem : (name, value) ∈ params.map fun param => (queryName param.1, param.2)) :
    ((sent params).lookup name).getD [] = value.getD [] := by
  induction params with
  | nil => cases hmem
  | cons param params ih =>
      obtain ⟨hfirst, hrest⟩ := List.nodup_cons.mp hnodup
      rw [sent_cons]
      rcases List.mem_cons.mp hmem with heq | hmem
      · obtain ⟨rfl, rfl⟩ := Prod.mk.inj heq
        split
        · rename_i hempty
          rw [lookup_sent_of_not_mem hfirst, List.isEmpty_iff.mp hempty]
          rfl
        · simp
      · have hne : name ≠ queryName param.1 := by
          rintro rfl
          obtain ⟨other, hother, heq⟩ := List.mem_map.mp hmem
          exact hfirst (List.mem_map.mpr ⟨other, hother, (Prod.mk.inj heq).1⟩)
        split
        · exact ih hrest hmem
        · rw [List.lookup_cons, beq_eq_false_iff_ne.mpr hne]
          exact ih hrest hmem

/-- The service reads each parameter as it was given; one that was not given, or was
empty, is empty. -/
theorem queryParam_getAllQueryArgs {params : Params} {initial name : Text}
    {value : Option Text} (hinitial : '&' ∉ initial)
    (hother : initial.isEmpty = false →
      name ≠ PercentEncoding.unquote (initial.takeWhile (· ≠ '=')))
    (hnodup : (params.map fun param => queryName param.1).Nodup)
    (hmem : (name, value) ∈ params.map fun param => (queryName param.1, param.2)) :
    queryParam name (getAllQueryArgs params initial) = value.getD [] := by
  have hperm : (sortedParams params).Perm params := List.perm_insertionSort _ _
  have hsent := @lookup_sent (sortedParams params) name value
    ((hperm.map _).nodup_iff.mpr hnodup) ((hperm.map _).mem_iff.mpr hmem)
  rw [queryParam, parseQuery_getAllQueryArgs params hinitial]
  cases hempty : initial.isEmpty with
  | true =>
      rw [if_pos rfl, List.nil_append]
      exact hsent
  | false =>
      rw [if_neg Bool.false_ne_true, List.singleton_append, List.lookup_cons,
        beq_eq_false_iff_ne.mpr (hother hempty)]
      exact hsent

/-! ## Answers -/

/-- Reading an element changes neither what is looked for nor the items. -/
theorem endElement_frame {name value : Text} {rs rs' : ResultSet}
    (hend : rs.endElement name value = .ok rs') :
    rs'.markers = rs.markers ∧ rs'.items = rs.items := by
  unfold ResultSet.endElement at hend
  repeat' split at hend
  all_goals first
    | cases hend
      exact ⟨rfl, rfl⟩
    | skip
  cases hint : parseInt value with
  | error e => simp [hint, Except.map] at hend
  | ok n =>
      simp only [hint, Except.map, Except.ok.injEq] at hend
      subst hend
      exact ⟨rfl, rfl⟩

/-- What leaves do to the result set. -/
theorem reads_fields {tag : Text} (fields : List (Text × Text)) {rs rs' : ResultSet}
    (hleaf : ∀ field ∈ fields, tag ≠ field.1 ∧ rs.markers.lookup field.1 = none ∧
      field.1 ≠ "Owner".toList)
    (hfields : fields.foldlM (fun (rs : ResultSet) field =>
      rs.endElement field.1 field.2) rs = .ok rs') :
    Reads ResultSet.methods tag .resultSet
        (fields.map fun field => .leaf field.1 field.2) rs rs' ∧
      rs'.markers = rs.markers ∧ rs'.items = rs.items := by
  induction fields generalizing rs with
  | nil =>
      cases hfields
      exact ⟨Reads.nil _ _ _ _, rfl, rfl⟩
  | cons field fields ih =>
      obtain ⟨⟨hne, hlookup, howner⟩, hrest⟩ := List.forall_mem_cons.mp hleaf
      rw [List.foldlM_cons] at hfields
      cases hend : rs.endElement field.1 field.2 with
      | error e => simp [hend, bind, Except.bind] at hfields
      | ok rs'' =>
          rw [hend] at hfields
          obtain ⟨hmarkers, hitems⟩ := endElement_frame hend
          have hstart : ResultSet.methods.startElement .resultSet field.1 rs =
              (none, rs) := by
            dsimp only [ResultSet.methods]
            rw [hlookup]
            dsimp only
            rw [if_neg howner]
          obtain ⟨hreads, hmarkers', hitems'⟩ := ih (by rwa [hmarkers]) hfields
          exact ⟨(Reads.leaf hne hstart hend).append hreads,
            hmarkers'.trans hmarkers, hitems'.trans hitems⟩

/-- The names of the elements of entries, and of those in them. -/
def entryTags : List Text :=
  ["Contents".toList, "Version".toList, "DeleteMarker".toList, "Upload".toList,
    "CommonPrefixes".toList]

def fieldNames : List Text :=
  ["Key".toList, "Size".toList, "VersionId".toList, "IsLatest".toList,
    "UploadId".toList, "Prefix".toList]

theorem tag_mem_entryTags (entry : Entry) : entry.tag ∈ entryTags := by
  cases entry with
  | key name size => exact .head _
  | version name id size => exact .tail _ (.head _)
  | deleteMarker name id => exact .tail _ (.tail _ (.head _))
  | upload name id => exact .tail _ (.tail _ (.tail _ (.head _)))
  | commonPrefix name => exact .tail _ (.tail _ (.tail _ (.tail _ (.head _))))

theorem mem_fieldNames {encode : Text → Text} {entry : Entry} {field : Text × Text}
    (hmem : field ∈ entry.fields encode) : field.1 ∈ fieldNames := by
  have hnames : ∀ name ∈ (entry.fields encode).map Prod.fst, name ∈ fieldNames := by
    cases entry with
    | key name size =>
        change ∀ name ∈ ["Key".toList, "Size".toList], name ∈ fieldNames
        decide
    | version name id size =>
        change ∀ name ∈ ["Key".toList, "VersionId".toList, "IsLatest".toList,
          "Size".toList], name ∈ fieldNames
        decide
    | deleteMarker name id =>
        change ∀ name ∈ ["Key".toList, "VersionId".toList], name ∈ fieldNames
        decide
    | upload name id =>
        change ∀ name ∈ ["Key".toList, "UploadId".toList], name ∈ fieldNames
        decide
    | commonPrefix name =>
        change ∀ name ∈ ["Prefix".toList], name ∈ fieldNames
        decide
  exact hnames field.1 (List.mem_map_of_mem hmem)

theorem hasUser_of_ne {name : Text} {item : Listed} (howner : name ≠ "Owner".toList)
    (hinitiator : name ≠ "Initiator".toList) : item.hasUser name = false := by
  rw [Listed.hasUser]
  cases item.cls <;> simp only [howner, hinitiator, decide_false, Bool.or_false]

/-- The elements in the element of an entry make the object that it is listed as. -/
theorem foldlM_fields (encode : Text → Text) (entry : Entry) :
    (entry.fields encode).foldlM (fun (item : Listed) field =>
        item.endElement field.1 field.2) { cls := entry.cls, name := none, id := none } =
      .ok (entry.listed encode) := by
  have hsize : ∀ (name id : Option Text) (size : ℕ),
      (Listed.endElement "Size".toList (decimal size) ⟨.key, name, id⟩ >>= pure) =
        .ok ⟨.key, name, id⟩ := by
    intro name id size
    have hend : Listed.endElement "Size".toList (decimal size) ⟨.key, name, id⟩ =
        (parseInt (decimal size)).map fun _ => ⟨.key, name, id⟩ := rfl
    rw [hend, parseInt_decimal]
    rfl
  cases entry with
  | key name size => exact hsize (some (encode name)) none size
  | version name id size => exact hsize (some (encode name)) (some id) size
  | deleteMarker name id => rfl
  | upload name id => rfl
  | commonPrefix name => rfl

/-- An entry is read as it is listed. -/
theorem reads_entry {tag : Text} {rs : ResultSet} (encode : Text → Text)
    (entry : Entry) (hmarker : rs.markers.lookup entry.tag = some entry.cls) :
    Reads ResultSet.methods tag .resultSet [entry.element encode] rs
      { rs with items := rs.items ++ [entry.listed encode] } := by
  have hnames : ∀ tag ∈ entryTags, ∀ name ∈ fieldNames, tag ≠ name ∧
      name ≠ "Owner".toList ∧ name ≠ "Initiator".toList := by
    decide
  have hend : ∀ text (item : Listed), item.endElement entry.tag text = .ok item := by
    rintro text ⟨cls, -, -⟩
    cases entry <;> cases cls <;> rfl
  apply ResultSet.reads_item hmarker _ (foldlM_fields encode entry)
  · funext text item
    exact hend text item
  · intro field hfield
    obtain ⟨hne, howner, hinitiator⟩ :=
      hnames _ (tag_mem_entryTags entry) _ (mem_fieldNames hfield)
    exact ⟨hne, fun item => hasUser_of_ne howner hinitiator⟩

/-- A page is read entry by entry. -/
theorem reads_page {tag : Text} (encode : Text → Text) (page : List Entry)
    {rs : ResultSet}
    (hpage : ∀ entry ∈ page, rs.markers.lookup entry.tag = some entry.cls) :
    Reads ResultSet.methods tag .resultSet (page.map (Entry.element encode)) rs
      { rs with items := rs.items ++ page.map (Entry.listed encode) } := by
  induction page generalizing rs with
  | nil =>
      rw [List.map_nil, List.map_nil, List.append_nil]
      exact Reads.nil _ _ _ _
  | cons entry page ih =>
      obtain ⟨hentry, hrest⟩ := List.forall_mem_cons.mp hpage
      have hfirst := @reads_entry tag rs encode entry hentry
      have hpage := @ih { rs with items := rs.items ++ [entry.listed encode] } hrest
      rw [List.map_cons, List.map_cons, List.append_cons]
      exact hfirst.append hpage

/-- The names that have a meaning beside the elements of entries. -/
def topNames : List Text :=
  ["IsTruncated".toList, "NextMarker".toList, "NextKeyMarker".toList,
    "NextVersionIdMarker".toList, "NextUploadIdMarker".toList, "MaxUploads".toList,
    "MaxItems".toList, "Owner".toList, "root".toList]

theorem endElement_of_not_mem {name : Text} (hname : name ∉ topNames) (text : Text)
    (rs : ResultSet) : rs.endElement name text = .ok rs := by
  simp only [topNames, List.mem_cons, not_or] at hname
  obtain ⟨h1, h2, h3, h4, h5, h6, h7, -⟩ := hname
  rw [ResultSet.endElement, if_neg h1, if_neg h2, if_neg h3, if_neg h4, if_neg h5,
    if_neg (not_or.mpr ⟨h6, h7⟩)]

/-- The names of the fields of answers. -/
def answerNames : List Text :=
  ["Prefix".toList, "Marker".toList, "KeyMarker".toList, "NextMarker".toList,
    "NextKeyMarker".toList, "NextVersionIdMarker".toList,
    "NextUploadIdMarker".toList, "IsTruncated".toList]

/-- An answer is read as its fields say, with the entries of the page as they are
listed. -/
theorem parse_answer {markers : List (Text × ListedClass)} {root : Text}
    {fields : List (Text × Text)} {page : List Entry} {rs : ResultSet}
    (encode : Text → Text) (hroot : root ∉ topNames) (hlookup : markers.lookup root = none)
    (hnames : ∀ name ∈ answerNames, markers.lookup name = none)
    (hmem : ∀ field ∈ fields, field.1 ∈ answerNames)
    (hfields : fields.foldlM (fun (rs : ResultSet) field =>
      rs.endElement field.1 field.2) (.init markers) = .ok rs)
    (hpage : ∀ entry ∈ page, markers.lookup entry.tag = some entry.cls) :
    XmlHandler.parse ResultSet.methods .resultSet (.init markers)
        (answer root fields encode page).events =
      .ok { rs with items := page.map (Entry.listed encode) } := by
  have hother := hroot
  simp only [topNames, List.mem_cons, not_or] at hother
  obtain ⟨-, -, -, -, -, -, -, howner, hne, -⟩ := hother
  have hstart : ResultSet.methods.startElement .resultSet root (.init markers) =
      (none, .init markers) := by
    dsimp only [ResultSet.methods, ResultSet.init]
    rw [hlookup]
    dsimp only
    rw [if_neg howner]
  have hdistinct : ∀ name ∈ answerNames, "root".toList ≠ name ∧
      name ≠ "Owner".toList := by
    decide
  have hleaf : ∀ field ∈ fields, "root".toList ≠ field.1 ∧
      markers.lookup field.1 = none ∧ field.1 ≠ "Owner".toList := fun field hfield =>
    ⟨(hdistinct _ (hmem field hfield)).1, hnames _ (hmem field hfield),
      (hdistinct _ (hmem field hfield)).2⟩
  obtain ⟨hreads, hmarkers, hitems⟩ := reads_fields fields hleaf hfields
  have hentries := @reads_page "root".toList encode page rs (by rwa [hmarkers])
  have hnil : rs.items = [] := hitems
  rw [hnil, List.nil_append] at hentries
  exact (Reads.skipped (Ne.symm hne) hstart (hreads.append hentries)
    fun text => endElement_of_not_mem hroot text _).parse

/-! ## Generators -/

/-- A generator yields a whole listing and ends if each request gives a page of it and
the next state stands for the marker of the last entry. -/
theorem lister_complete {σ μ α : Type} {marker : α → μ} (listing : Listing marker)
    (sizes : ℕ → ℕ) (listed : α → Listed)
    {request : ℕ → σ → Except PyError ResultSet} {next : ResultSet → σ → σ}
    (markerOf : σ → μ)
    (hrequest : ∀ i state, ∃ rs, request i state = .ok rs ∧
      rs.items =
        ((listing.after (markerOf state)).take (sizes i + 1)).map listed ∧
      rs.isTruncated =
        decide (sizes i + 1 < (listing.after (markerOf state)).length) ∧
      ∀ last, ((listing.after (markerOf state)).take (sizes i + 1)).getLast? =
          some last → rs.isTruncated = true →
        markerOf (next rs state) = marker last)
    (fuel i : ℕ) (state : σ)
    (hfuel : (listing.after (markerOf state)).length < fuel) :
    lister request next fuel i state =
      .ok ((listing.after (markerOf state)).map listed, true) := by
  induction fuel generalizing i state with
  | zero => omega
  | succ fuel ih =>
      obtain ⟨rs, hok, hitems, htruncated, hnext⟩ := hrequest i state
      rw [lister, hok]
      simp only [bind, Except.bind]
      by_cases hmore : sizes i + 1 < (listing.after (markerOf state)).length
      · rw [if_pos (by rw [htruncated]; exact decide_eq_true hmore)]
        have hne : (listing.after (markerOf state)).take (sizes i + 1) ≠ [] := by
          intro hnil
          have hlength := congrArg List.length hnil
          rw [List.length_take, List.length_nil] at hlength
          omega
        have hlast := List.getLast?_eq_some_getLast hne
        have hmarker := hnext _ hlast (by rw [htruncated]; exact decide_eq_true hmore)
        have hafter := listing.after_last hlast
        rw [← hmarker] at hafter
        have hrest := ih (i + 1) (next rs state) (by
          rw [hafter, List.length_drop]
          omega)
        rw [hrest, hafter, hitems]
        simp only [pure, Except.pure]
        rw [← List.map_append, List.take_append_drop]
      · rw [if_neg (by rw [htruncated]; simpa using hmore), hitems,
          List.take_of_length_le (by omega)]
        rfl

/-! ## Markers -/

/-- A marker is decoded as it was encoded. -/
theorem decodeMarker_encodeName (encodingType : Option Text) (name : Text) :
    (decodeMarker encodingType
      (some (encodeName (encodingType.getD []) name))).getD [] = name := by
  by_cases hurl : encodingType = some "url".toList
  · have hname : encodeName (encodingType.getD []) name =
        PercentEncoding.quotePlus (encodeUtf8 name) := by
      rw [hurl]
      rfl
    have hdecode : unquoteStr (PercentEncoding.quotePlus (encodeUtf8 name)) = name :=
      PercentEncoding.unquotePlus_quotePlus name
    rw [hname]
    cases hquoted : PercentEncoding.quotePlus (encodeUtf8 name) with
    | nil =>
        rw [hquoted] at hdecode
        rw [← hdecode]
        rfl
    | cons c quoted =>
        rw [hquoted] at hdecode
        rw [decodeMarker, if_pos hurl, Option.getD_some, hdecode]
  · have hname : encodeName (encodingType.getD []) name = name := by
      rw [encodeName, if_neg]
      intro hget
      cases encodingType with
      | none => cases hget
      | some value => exact hurl (congrArg some hget)
    rw [hname]
    cases name with
    | nil => rfl
    | cons c name => rw [decodeMarker, if_neg hurl, Option.getD_some]

/-- The next marker of `bucket_lister`, from either place. -/
theorem orText_encodeName (encodingType : Option Text) {next : Option Text}
    {name : Text}
    (hnext : next = none ∨ next = some (encodeName (encodingType.getD []) name)) :
    (decodeMarker encodingType
      (orText next (some (encodeName (encodingType.getD []) name)))).getD [] = name := by
  have hor : orText next (some (encodeName (encodingType.getD []) name)) =
      some (encodeName (encodingType.getD []) name) := by
    rcases hnext with rfl | rfl
    · rfl
    · cases encodeName (encodingType.getD []) name <;> rfl
  rw [hor, decodeMarker_encodeName]

/-! ## Keys -/

/-- A key or a common prefix is read as one. -/
theorem lookup_tag_of_keys {entry : Entry} (hkind : entry.isOfKeys = true) :
    keyElements.lookup entry.tag = some entry.cls := by
  cases entry with
  | key name size => rfl
  | commonPrefix name => rfl
  | _ => cases hkind

theorem lookup_keyElements : ∀ name ∈ answerNames, keyElements.lookup name = none := by
  decide

/-- The fields of an answer with keys. -/
def fieldsOfKeys (pre marker : Text) (nextMarker : Option Text) (truncated : Bool) :
    List (Text × Text) :=
  [("Prefix".toList, pre), ("Marker".toList, marker)] ++
    optionalField "NextMarker".toList nextMarker ++
    [("IsTruncated".toList, boolText truncated)]

/-- What the fields of an answer with keys set. -/
theorem foldlM_fieldsOfKeys (pre marker : Text) (nextMarker : Option Text)
    (truncated : Bool) :
    (fieldsOfKeys pre marker nextMarker truncated).foldlM
        (fun (rs : ResultSet) field => rs.endElement field.1 field.2)
        (.init keyElements) =
      .ok { ResultSet.init keyElements with
        nextMarker := nextMarker, isTruncated := truncated } := by
  cases nextMarker <;> cases truncated <;> rfl

theorem mem_optionalField {name : Text} {value : Option Text} {field : Text × Text}
    (hmem : field ∈ optionalField name value) : field.1 = name := by
  cases value with
  | none => cases hmem
  | some value => rw [List.mem_singleton.mp hmem]

theorem mem_fieldsOfKeys {pre marker : Text} {nextMarker : Option Text}
    {truncated : Bool} {field : Text × Text}
    (hmem : field ∈ fieldsOfKeys pre marker nextMarker truncated) :
    field.1 ∈ answerNames := by
  rw [fieldsOfKeys, List.mem_append, List.mem_append, List.mem_cons,
    List.mem_singleton, List.mem_singleton] at hmem
  rcases hmem with ((rfl | rfl) | hmem) | rfl
  · exact .head _
  · exact .tail _ (.head _)
  · rw [mem_optionalField hmem]
    decide
  · exact .tail _ (.tail _ (.tail _ (.tail _ (.tail _ (.tail _ (.tail _ (.head _)))))))

/-- The arguments are names that `get_all_keys` knows. -/
theorem getAllKeys_eq (server : Server) (pre delimiter : Text)
    (encodingType : Option Text) (state : BucketLister) (i : ℕ) :
    getAllKeys server (state.params pre delimiter encodingType) i =
      getAll server keyElements [] (state.params pre delimiter encodingType) i := rfl

/-- The arguments as the service reads them. -/
theorem queryParam_keys {pre delimiter : Text} {encodingType : Option Text}
    {state : BucketLister} {name : Text} {value : Option Text}
    (hmem : (name, value) ∈ (state.params pre delimiter encodingType).map
      fun param => (queryName param.1, param.2)) :
    queryParam name (getAllQueryArgs (state.params pre delimiter encodingType) []) =
      value.getD [] := by
  have hnodup : ((state.params pre delimiter encodingType).map
      fun param => queryName param.1).Nodup := by
    change List.Nodup ["prefix".toList, "marker".toList, "delimiter".toList,
      "encoding-type".toList]
    decide
  have hinitial : '&' ∉ ([] : Text) := by simp
  exact queryParam_getAllQueryArgs hinitial (fun h => by cases h) hnodup hmem

/-- The answer to a request for keys. -/
theorem answerKeys_eq (listing : Text → Text → KeyListing) (sizes : ℕ → ℕ)
    (pre delimiter : Text) (encodingType : Option Text) (state : BucketLister) (i : ℕ) :
    ∃ nextMarker, answerKeys listing sizes i
        (getAllQueryArgs (state.params pre delimiter encodingType) []) =
      answer "ListBucketResult".toList
        (fieldsOfKeys (encodeName (encodingType.getD []) pre)
          (encodeName (encodingType.getD []) (state.marker.getD [])) nextMarker
          (decide (sizes i + 1 <
            ((listing pre delimiter).after (state.marker.getD [])).length)))
        (encodeName (encodingType.getD []))
        ((((listing pre delimiter).after (state.marker.getD [])).take
          (sizes i + 1)).map Subtype.val) ∧
      ∀ last, (((listing pre delimiter).after (state.marker.getD [])).take
          (sizes i + 1)).getLast? = some last →
        nextMarker = none ∨
          nextMarker = some (encodeName (encodingType.getD []) last.1.name) := by
  have hpre := @queryParam_keys pre delimiter encodingType state "prefix".toList
    (some pre) (.head _)
  have hmarker := @queryParam_keys pre delimiter encodingType state "marker".toList
    state.marker (.tail _ (.head _))
  have hdelimiter := @queryParam_keys pre delimiter encodingType state
    "delimiter".toList (some delimiter) (.tail _ (.tail _ (.head _)))
  have hencoding := @queryParam_keys pre delimiter encodingType state
    "encoding-type".toList encodingType (.tail _ (.tail _ (.tail _ (.head _))))
  rw [answerKeys, hpre, hmarker, hdelimiter, hencoding]
  simp only [Option.getD_some, ← List.map_take, List.length_map]
  refine ⟨_, rfl, fun last hlast => ?_⟩
  rw [List.getLast?_map, hlast, Option.map_some, Option.bind_some]
  split
  · exact Or.inr rfl
  · exact Or.inl rfl

/-- The result set of a page of keys. -/
theorem getAllKeys_answerKeys (listing : Text → Text → KeyListing) (sizes : ℕ → ℕ)
    (pre delimiter : Text) (encodingType : Option Text) (state : BucketLister) (i : ℕ) :
    ∃ rs, getAllKeys (answerKeys listing sizes)
        (state.params pre delimiter encodingType) i = .ok rs ∧
      rs.items = (((listing pre delimiter).after (state.marker.getD [])).take
        (sizes i + 1)).map
          (fun entry => entry.1.listed (encodeName (encodingType.getD []))) ∧
      rs.isTruncated = decide (sizes i + 1 <
        ((listing pre delimiter).after (state.marker.getD [])).length) ∧
      ∀ last, (((listing pre delimiter).after (state.marker.getD [])).take
          (sizes i + 1)).getLast? = some last →
        rs.nextMarker = none ∨
          rs.nextMarker = some (encodeName (encodingType.getD []) last.1.name) := by
  obtain ⟨nextMarker, hanswer, hnext⟩ :=
    answerKeys_eq listing sizes pre delimiter encodingType state i
  have hpage : ∀ entry ∈ (((listing pre delimiter).after (state.marker.getD [])).take
      (sizes i + 1)).map Subtype.val,
      keyElements.lookup entry.tag = some entry.cls := by
    intro entry hmem
    obtain ⟨entry, -, rfl⟩ := List.mem_map.mp hmem
    exact lookup_tag_of_keys entry.2
  have hroot : "ListBucketResult".toList ∉ topNames := by decide
  rw [getAllKeys_eq, getAll, hanswer]
  have hparse := parse_answer (encodeName (encodingType.getD [])) hroot rfl
    lookup_keyElements (fun _ hmem => mem_fieldsOfKeys hmem)
    (foldlM_fieldsOfKeys (encodeName (encodingType.getD []) pre)
      (encodeName (encodingType.getD []) (state.marker.getD [])) nextMarker
      (decide (sizes i + 1 <
        ((listing pre delimiter).after (state.marker.getD [])).length))) hpage
  refine ⟨_, hparse, ?_, rfl, hnext⟩
  rw [List.map_map]
  rfl

/-- `bucket_lister` yields the whole listing. -/
theorem bucketLister_complete (listing : Text → Text → KeyListing) (sizes : ℕ → ℕ)
    (pre delimiter marker : Text) (encodingType : Option Text) {fuel : ℕ}
    (hfuel : ((listing pre delimiter).after marker).length < fuel) :
    bucketLister (answerKeys listing sizes) pre delimiter marker encodingType fuel =
      .ok (((listing pre delimiter).after marker).map
        (fun entry => entry.1.listed (encodeName (encodingType.getD []))), true) := by
  rw [bucketLister]
  refine lister_complete (listing pre delimiter) sizes _
    (fun state : BucketLister => state.marker.getD []) ?_ fuel 0 _ hfuel
  intro i state
  obtain ⟨rs, hok, hitems, htruncated, hnext⟩ :=
    getAllKeys_answerKeys listing sizes pre delimiter encodingType state i
  refine ⟨rs, hok, hitems, htruncated, ?_⟩
  intro last hlast _
  have hk : rs.items.getLast? =
      some (last.1.listed (encodeName (encodingType.getD []))) := by
    rw [hitems, List.getLast?_map, hlast]
    rfl
  dsimp only
  rw [hk]
  exact orText_encodeName encodingType (hnext last hlast)

/-! ## Versions and uploads -/

theorem lookup_tag_of_versions {entry : Entry} (hkind : entry.isOfVersions = true) :
    versionElements.lookup entry.tag = some entry.cls := by
  cases entry with
  | version name id size => rfl
  | deleteMarker name id => rfl
  | commonPrefix name => rfl
  | _ => cases hkind

theorem lookup_versionElements :
    ∀ name ∈ answerNames, versionElements.lookup name = none := by
  decide

theorem lookup_tag_of_uploads {entry : Entry} (hkind : entry.isOfUploads = true) :
    uploadElements.lookup entry.tag = some entry.cls := by
  cases entry with
  | upload name id => rfl
  | commonPrefix name => rfl
  | _ => cases hkind

theorem lookup_uploadElements :
    ∀ name ∈ answerNames, uploadElements.lookup name = none := by
  decide

/-- The fields of an answer with two next markers. -/
def markedFields (nextIdName pre keyMarker : Text)
    (nextKeyMarker nextIdMarker : Option Text) (truncated : Bool) :
    List (Text × Text) :=
  [("Prefix".toList, pre), ("KeyMarker".toList, keyMarker)] ++
    optionalField "NextKeyMarker".toList nextKeyMarker ++
    optionalField nextIdName nextIdMarker ++
    [("IsTruncated".toList, boolText truncated)]

theorem mem_markedFields {nextIdName pre keyMarker : Text}
    {nextKeyMarker nextIdMarker : Option Text} {truncated : Bool}
    {field : Text × Text} (hname : nextIdName ∈ answerNames)
    (hmem : field ∈ markedFields nextIdName pre keyMarker nextKeyMarker nextIdMarker
      truncated) : field.1 ∈ answerNames := by
  rw [markedFields, List.mem_append, List.mem_append, List.mem_append, List.mem_cons,
    List.mem_singleton, List.mem_singleton] at hmem
  rcases hmem with (((rfl | rfl) | hmem) | hmem) | rfl
  · exact .head _
  · exact .tail _ (.tail _ (.head _))
  · rw [mem_optionalField hmem]
    decide
  · rw [mem_optionalField hmem]
    exact hname
  · exact .tail _ (.tail _ (.tail _ (.tail _ (.tail _ (.tail _ (.tail _ (.head _)))))))

/-- The result set of a page with two next markers, where `idOf` is the attribute that
has the second one. -/
theorem getAll_answerMarked {kind : Entry → Bool} {root idName nextIdName : Text}
    (listing : Text → Text → MarkedListing kind) (sizes : ℕ → ℕ)
    {elementMap : List (Text × ListedClass)} {initial : Text} {params : Params}
    {pre delimiter : Text} {keyMarker idMarker encodingType : Option Text}
    (idOf : ResultSet → Option Text)
    (hpre : queryParam "prefix".toList (getAllQueryArgs params initial) = pre)
    (hdelimiter :
      queryParam "delimiter".toList (getAllQueryArgs params initial) = delimiter)
    (hkey : queryParam "key-marker".toList (getAllQueryArgs params initial) =
      keyMarker.getD [])
    (hid : queryParam idName (getAllQueryArgs params initial) = idMarker.getD [])
    (hencoding : queryParam "encoding-type".toList (getAllQueryArgs params initial) =
      encodingType.getD [])
    (hroot : root ∉ topNames) (hlookup : elementMap.lookup root = none)
    (hnames : ∀ name ∈ answerNames, elementMap.lookup name = none)
    (hnextId : nextIdName ∈ answerNames)
    (hkind : ∀ entry, kind entry = true →
      elementMap.lookup entry.tag = some entry.cls)
    (hfields : ∀ pre keyMarker nextKeyMarker nextIdMarker truncated, ∃ rs,
      (markedFields nextIdName pre keyMarker nextKeyMarker nextIdMarker truncated).foldlM
        (fun (rs : ResultSet) field => rs.endElement field.1 field.2)
        (.init elementMap) = .ok rs ∧
      rs.nextKeyMarker = nextKeyMarker ∧ idOf rs = nextIdMarker ∧
      rs.isTruncated = truncated)
    (hidOf : ∀ (rs : ResultSet) items, idOf { rs with items := items } = idOf rs)
    (i : ℕ) :
    ∃ rs, getAll (answerMarked root idName nextIdName listing sizes) elementMap initial
        params i = .ok rs ∧
      rs.items = (((listing pre delimiter).after
        (keyMarker.getD [], idMarker.getD [])).take (sizes i + 1)).map
          (fun entry => entry.1.listed (encodeName (encodingType.getD []))) ∧
      rs.isTruncated = decide (sizes i + 1 < ((listing pre delimiter).after
        (keyMarker.getD [], idMarker.getD [])).length) ∧
      ∀ last, (((listing pre delimiter).after
          (keyMarker.getD [], idMarker.getD [])).take (sizes i + 1)).getLast? =
            some last → rs.isTruncated = true →
        rs.nextKeyMarker = some (encodeName (encodingType.getD []) last.1.name) ∧
          idOf rs = last.1.id := by
  let entries := ((listing pre delimiter).after
    (keyMarker.getD [], idMarker.getD [])).map Subtype.val
  let encode := encodeName (encodingType.getD [])
  let page := entries.take (sizes i + 1)
  let truncated := decide (sizes i + 1 < entries.length)
  let nextKeyMarker := page.getLast?.bind fun last =>
    if truncated then some (encode last.name) else none
  let nextIdMarker := page.getLast?.bind fun last =>
    if truncated then last.id else none
  have hanswer : answerMarked root idName nextIdName listing sizes i
      (getAllQueryArgs params initial) =
      answer root (markedFields nextIdName (encode pre) (encode (keyMarker.getD []))
        nextKeyMarker nextIdMarker truncated) encode page := by
    rw [answerMarked, hpre, hdelimiter, hkey, hid, hencoding]
    rfl
  have hpage : ∀ entry ∈ page, elementMap.lookup entry.tag = some entry.cls := by
    intro entry hmem
    obtain ⟨entry, -, rfl⟩ := List.mem_map.mp (List.mem_of_mem_take hmem)
    exact hkind entry.1 entry.2
  obtain ⟨rs, hfold, hnextKey, hnextIdMarker, htruncated⟩ := hfields (encode pre)
    (encode (keyMarker.getD [])) nextKeyMarker nextIdMarker truncated
  have hparse := parse_answer encode hroot hlookup hnames
    (fun _ hmem => mem_markedFields hnextId hmem) hfold hpage
  rw [← hanswer] at hparse
  refine ⟨_, hparse, ?_, ?_, ?_⟩
  · simp only [page, entries, List.map_take, List.map_map]
    rfl
  · rw [htruncated]
    simp only [truncated, entries, List.length_map]
  · intro last hlast hmore
    have hpageLast : page.getLast? = some last.1 := by
      simp only [page, entries]
      rw [← List.map_take, List.getLast?_map, hlast]
      rfl
    have hmore : truncated = true := htruncated.symm.trans hmore
    rw [hidOf, hnextKey, hnextIdMarker]
    simp only [nextKeyMarker, nextIdMarker, hpageLast, hmore, Option.bind_some, if_true]
    exact ⟨rfl, trivial⟩

/-- The arguments are names that `get_all_versions` knows. -/
theorem getAllVersions_eq (server : Server) (pre delimiter : Text)
    (encodingType : Option Text) (state : MarkerPair) (i : ℕ) :
    getAllVersions server (state.versionParams pre delimiter encodingType) i =
      getAll server versionElements "versions".toList
        (state.versionParams pre delimiter encodingType) i := by
  have hnames : validateKwargNames (state.versionParams pre delimiter encodingType)
      ["maxkeys".toList, "max_keys".toList, "prefix".toList, "key_marker".toList,
        "version_id_marker".toList, "delimiter".toList, "encoding_type".toList] =
      .ok () := rfl
  rw [getAllVersions, hnames]
  rfl

/-- The arguments are names that `get_all_multipart_uploads` knows. -/
theorem getAllMultipartUploads_eq (server : Server) (encodingType : Option Text)
    (state : MarkerPair) (i : ℕ) :
    getAllMultipartUploads server (state.uploadParams encodingType) i =
      getAll server uploadElements "uploads".toList (state.uploadParams encodingType)
        i := by
  have hnames : validateKwargNames (state.uploadParams encodingType)
      ["max_uploads".toList, "key_marker".toList, "upload_id_marker".toList,
        "encoding_type".toList, "delimiter".toList, "prefix".toList] = .ok () := rfl
  rw [getAllMultipartUploads, hnames]
  rfl

/-- The arguments of a request for versions as the service reads them. -/
theorem queryParam_versions {pre delimiter : Text} {encodingType : Option Text}
    {state : MarkerPair} {name : Text} {value : Option Text}
    (hname : name ≠ "versions".toList)
    (hmem : (name, value) ∈ (state.versionParams pre delimiter encodingType).map
      fun param => (queryName param.1, param.2)) :
    queryParam name (getAllQueryArgs (state.versionParams pre delimiter encodingType)
      "versions".toList) = value.getD [] := by
  have hnodup : ((state.versionParams pre delimiter encodingType).map
      fun param => queryName param.1).Nodup := by
    change List.Nodup ["prefix".toList, "key-marker".toList,
      "version-id-marker".toList, "delimiter".toList, "max-keys".toList,
      "encoding-type".toList]
    decide
  have hinitial : PercentEncoding.unquote
      ("versions".toList.takeWhile (· ≠ '=')) = "versions".toList := by
    decide +kernel
  exact queryParam_getAllQueryArgs (by decide) (fun _ => by rwa [hinitial]) hnodup hmem

/-- The arguments of a request for uploads as the service reads them. -/
theorem queryParam_uploads {encodingType : Option Text} {state : MarkerPair}
    {name : Text} {value : Option Text} (hname : name ≠ "uploads".toList)
    (hmem : (name, value) ∈ (state.uploadParams encodingType).map
      fun param => (queryName param.1, param.2)) :
    queryParam name (getAllQueryArgs (state.uploadParams encodingType)
      "uploads".toList) = value.getD [] := by
  have hnodup : ((state.uploadParams encodingType).map
      fun param => queryName param.1).Nodup := by
    change List.Nodup ["key-marker".toList, "upload-id-marker".toList,
      "encoding-type".toList]
    decide
  have hinitial : PercentEncoding.unquote
      ("uploads".toList.takeWhile (· ≠ '=')) = "uploads".toList := by
    decide +kernel
  exact queryParam_getAllQueryArgs (by decide) (fun _ => by rwa [hinitial]) hnodup hmem

/-- A parameter that a request for uploads does not have. -/
theorem queryParam_uploads_of_not_mem {encodingType : Option Text} {state : MarkerPair}
    {name : Text} (hname : name ≠ "uploads".toList)
    (hnot : name ∉ (state.uploadParams encodingType).map
      fun param => queryName param.1) :
    queryParam name (getAllQueryArgs (state.uploadParams encodingType)
      "uploads".toList) = [] := by
  have hperm : (sortedParams (state.uploadParams encodingType)).Perm
      (state.uploadParams encodingType) := List.perm_insertionSort _ _
  have hinitial : PercentEncoding.unquote
      ("uploads".toList.takeWhile (· ≠ '=')) = "uploads".toList := by
    decide +kernel
  have hsent := @lookup_sent_of_not_mem (sortedParams (state.uploadParams encodingType))
    name (fun hmem => hnot ((hperm.map _).mem_iff.mp hmem))
  rw [queryParam, parseQuery_getAllQueryArgs _ (by decide), if_neg (by decide),
    List.singleton_append, List.lookup_cons, hinitial, beq_eq_false_iff_ne.mpr hname]
  simp only
  rw [hsent]
  rfl

/-- The next key marker is decoded as it was encoded, and the next id is as it was. -/
theorem markers_of_last {kind : Entry → Bool} {encodingType : Option Text}
    {rs : ResultSet} {nextId : Option Text} {last : EntryOf kind}
    (hkey : rs.nextKeyMarker =
      some (encodeName (encodingType.getD []) last.1.name))
    (hid : nextId = last.1.id) :
    ((decodeMarker encodingType rs.nextKeyMarker).getD [], nextId.getD []) =
      (last.1.name, last.1.id.getD []) := by
  rw [hkey, hid, decodeMarker_encodeName]

/-- `versioned_bucket_lister` yields the whole listing. -/
theorem versionedBucketLister_complete
    (listing : Text → Text → MarkedListing Entry.isOfVersions) (sizes : ℕ → ℕ)
    (pre delimiter keyMarker versionIdMarker : Text) (encodingType : Option Text)
    {fuel : ℕ}
    (hfuel : ((listing pre delimiter).after (keyMarker, versionIdMarker)).length <
      fuel) :
    versionedBucketLister (answerVersions listing sizes) pre delimiter keyMarker
        versionIdMarker encodingType fuel =
      .ok (((listing pre delimiter).after (keyMarker, versionIdMarker)).map
        (fun entry => entry.1.listed (encodeName (encodingType.getD []))), true) := by
  rw [versionedBucketLister]
  refine lister_complete (listing pre delimiter) sizes _
    (fun state : MarkerPair => (state.keyMarker.getD [], state.idMarker.getD [])) ?_
    fuel 0 _ hfuel
  intro i state
  have hrequest :=
    getAllVersions_eq (answerVersions listing sizes) pre delimiter encodingType state i
  have hroot : "ListVersionsResult".toList ∉ topNames := by decide
  have hnext : "NextVersionIdMarker".toList ∈ answerNames := by decide
  obtain ⟨rs, hok, hitems, htruncated, hlast⟩ :=
    getAll_answerMarked listing sizes ResultSet.nextVersionIdMarker
      (@queryParam_versions pre delimiter encodingType state "prefix".toList (some pre)
        (by decide) (.head _))
      (@queryParam_versions pre delimiter encodingType state "delimiter".toList
        (some delimiter) (by decide) (.tail _ (.tail _ (.tail _ (.head _)))))
      (@queryParam_versions pre delimiter encodingType state "key-marker".toList
        state.keyMarker (by decide) (.tail _ (.head _)))
      (@queryParam_versions pre delimiter encodingType state
        "version-id-marker".toList state.idMarker (by decide)
        (.tail _ (.tail _ (.head _))))
      (@queryParam_versions pre delimiter encodingType state "encoding-type".toList
        encodingType (by decide)
        (.tail _ (.tail _ (.tail _ (.tail _ (.tail _ (.head _)))))))
      hroot rfl lookup_versionElements hnext (fun _ => lookup_tag_of_versions)
      (fun pre keyMarker nextKeyMarker nextIdMarker truncated =>
        ⟨{ ResultSet.init versionElements with
            nextKeyMarker := nextKeyMarker, nextVersionIdMarker := nextIdMarker
            isTruncated := truncated },
          by cases nextKeyMarker <;> cases nextIdMarker <;> cases truncated <;> rfl,
          rfl, rfl, rfl⟩)
      (fun _ _ => rfl) i
  exact ⟨rs, hrequest.trans hok, hitems, htruncated, fun last hget hmore =>
    markers_of_last (hlast last hget hmore).1 (hlast last hget hmore).2⟩

/-- `multipart_upload_lister` yields the whole listing. -/
theorem multipartUploadLister_complete
    (listing : Text → Text → MarkedListing Entry.isOfUploads) (sizes : ℕ → ℕ)
    (keyMarker uploadIdMarker : Text) (encodingType : Option Text) {fuel : ℕ}
    (hfuel : ((listing [] []).after (keyMarker, uploadIdMarker)).length < fuel) :
    multipartUploadLister (answerUploads listing sizes) keyMarker uploadIdMarker
        encodingType fuel =
      .ok (((listing [] []).after (keyMarker, uploadIdMarker)).map
        (fun entry => entry.1.listed (encodeName (encodingType.getD []))), true) := by
  rw [multipartUploadLister]
  refine lister_complete (listing [] []) sizes _
    (fun state : MarkerPair => (state.keyMarker.getD [], state.idMarker.getD [])) ?_
    fuel 0 _ hfuel
  intro i state
  have hrequest :=
    getAllMultipartUploads_eq (answerUploads listing sizes) encodingType state i
  have hroot : "ListMultipartUploadsResult".toList ∉ topNames := by decide
  have hnext : "NextUploadIdMarker".toList ∈ answerNames := by decide
  have hmissing : ∀ name ∈ ["prefix".toList, "delimiter".toList],
      name ∉ ["key-marker".toList, "upload-id-marker".toList,
        "encoding-type".toList] := by
    decide
  obtain ⟨rs, hok, hitems, htruncated, hlast⟩ :=
    getAll_answerMarked listing sizes ResultSet.nextUploadIdMarker
      (@queryParam_uploads_of_not_mem encodingType state "prefix".toList (by decide)
        (hmissing _ (by decide)))
      (@queryParam_uploads_of_not_mem encodingType state "delimiter".toList (by decide)
        (hmissing _ (by decide)))
      (@queryParam_uploads encodingType state "key-marker".toList state.keyMarker
        (by decide) (.head _))
      (@queryParam_uploads encodingType state "upload-id-marker".toList state.idMarker
        (by decide) (.tail _ (.head _)))
      (@queryParam_uploads encodingType state "encoding-type".toList encodingType
        (by decide) (.tail _ (.tail _ (.head _))))
      hroot rfl lookup_uploadElements hnext (fun _ => lookup_tag_of_uploads)
      (fun pre keyMarker nextKeyMarker nextIdMarker truncated =>
        ⟨{ ResultSet.init uploadElements with
            nextKeyMarker := nextKeyMarker, nextUploadIdMarker := nextIdMarker
            isTruncated := truncated },
          by cases nextKeyMarker <;> cases nextIdMarker <;> cases truncated <;> rfl,
          rfl, rfl, rfl⟩)
      (fun _ _ => rfl) i
  exact ⟨rs, hrequest.trans hok, hitems, htruncated, fun last hget hmore =>
    markers_of_last (hlast last hget hmore).1 (hlast last hget hmore).2⟩

/-! ## All listings -/

/-- Each generator ends and has then yielded every entry that the service lists after
the given markers, once and in the order of the listing, whatever the sizes of the
pages are. -/
theorem listers_complete (sizes : ℕ → ℕ) (encodingType : Option Text) :
    (∀ (listing : Text → Text → KeyListing) (pre delimiter marker : Text), ∃ fuel,
      bucketLister (answerKeys listing sizes) pre delimiter marker encodingType fuel =
        .ok (((listing pre delimiter).after marker).map
          (fun entry => entry.1.listed (encodeName (encodingType.getD []))), true)) ∧
    (∀ (listing : Text → Text → MarkedListing Entry.isOfVersions)
        (pre delimiter keyMarker versionIdMarker : Text), ∃ fuel,
      versionedBucketLister (answerVersions listing sizes) pre delimiter keyMarker
          versionIdMarker encodingType fuel =
        .ok (((listing pre delimiter).after (keyMarker, versionIdMarker)).map
          (fun entry => entry.1.listed (encodeName (encodingType.getD []))), true)) ∧
    ∀ (listing : Text → Text → MarkedListing Entry.isOfUploads)
        (keyMarker uploadIdMarker : Text), ∃ fuel,
      multipartUploadLister (answerUploads listing sizes) keyMarker uploadIdMarker
          encodingType fuel =
        .ok (((listing [] []).after (keyMarker, uploadIdMarker)).map
          (fun entry => entry.1.listed (encodeName (encodingType.getD []))), true) := by
  refine ⟨?_, ?_, ?_⟩
  · intro listing pre delimiter marker
    exact ⟨_, bucketLister_complete listing sizes pre delimiter marker encodingType
      (Nat.lt_succ_self _)⟩
  · intro listing pre delimiter keyMarker versionIdMarker
    exact ⟨_, versionedBucketLister_complete listing sizes pre delimiter keyMarker
      versionIdMarker encodingType (Nat.lt_succ_self _)⟩
  · intro listing keyMarker uploadIdMarker
    exact ⟨_, multipartUploadLister_complete listing sizes keyMarker uploadIdMarker
      encodingType (Nat.lt_succ_self _)⟩

end Boto.S3
