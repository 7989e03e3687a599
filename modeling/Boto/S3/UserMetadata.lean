import Boto.Auth.QuerySignature
import Boto.Support.PercentReading

/-!
# User metadata in headers

`merge_meta` and `get_aws_metadata` of `boto/utils.py`.  The names of the headers are listed
before the first of them is deleted, as the messages of `http.client` do.
-/

namespace Boto.S3

open Auth (ProviderName)

/-- `metadata_prefix` of `Provider`. -/
def metadataPrefix : ProviderName → Text
  | .aws => "x-amz-meta-".toList
  | .google => "x-goog-meta-".toList

/-- `Key.base_user_settable_fields`. -/
def baseUserSettableFields : List Text :=
  ["cache-control".toList, "content-disposition".toList, "content-encoding".toList,
    "content-language".toList, "content-md5".toList, "content-type".toList,
    "x-robots-tag".toList, "expires".toList]

/-- The name of the header for some metadata. -/
def headerName (provider : ProviderName) (k : Text) : Text :=
  if lower k ∈ baseUserSettableFields then k else metadataPrefix provider ++ k

/-- `merge_meta`. -/
def mergeMeta (provider : ProviderName) (headers : OrderedDict Text Data)
    (metadata : OrderedDict Text Text) : OrderedDict Text Data :=
  metadata.items.foldl (fun headers item =>
    headers.set (headerName provider item.1) (.text item.2)) headers

/-- `urllib.parse.unquote`. -/
def unquoteHeader : Data → Text
  | .text value => PercentEncoding.unquote value
  | .bytes value =>
      PercentEncoding.decode (PercentEncoding.unquoteToBytes
        (value.map fun b => Char.ofNat b.toNat))

/-- `hkey.lower().startswith(metadata_prefix)`. -/
def isUserMetadata (provider : ProviderName) (hkey : Text) : Bool :=
  (metadataPrefix provider).isPrefixOf (lower hkey)

/-- A round of the loop of `get_aws_metadata`. -/
def readHeader (provider : ProviderName)
    (state : OrderedDict Text Text × OrderedDict Text Data) (hkey : Text) :
    OrderedDict Text Text × OrderedDict Text Data :=
  if isUserMetadata provider hkey then
    match state.2.get? hkey with
    | some value =>
        (state.1.set (hkey.drop (metadataPrefix provider).length) (unquoteHeader value),
          state.2.erase hkey)
    | none => state
  else state

/-- `get_aws_metadata`: the metadata, and the headers without it. -/
def getAwsMetadata (provider : ProviderName) (headers : OrderedDict Text Data) :
    OrderedDict Text Text × OrderedDict Text Data :=
  headers.keys.foldl (readHeader provider) (OrderedDict.empty, headers)

variable {provider : ProviderName} {headers : OrderedDict Text Data}
  {metadata : OrderedDict Text Text}

/-! ## Reading -/

theorem lower_metadataPrefix : lower (metadataPrefix provider) = metadataPrefix provider := by
  cases provider <;> decide

theorem isUserMetadata_append (k : Text) :
    isUserMetadata provider (metadataPrefix provider ++ k) = true := by
  rw [isUserMetadata, lower, List.map_append, List.isPrefixOf_iff_prefix]
  exact ⟨lower k, congrArg (· ++ lower k) lower_metadataPrefix.symm⟩

/-- Names that are no metadata are passed over. -/
theorem foldl_readHeader_skip {names : List Text}
    (hnames : ∀ name ∈ names, isUserMetadata provider name = false)
    (state : OrderedDict Text Text × OrderedDict Text Data) :
    names.foldl (readHeader provider) state = state := by
  induction names with
  | nil => rfl
  | cons name names ih =>
      obtain ⟨hname, hrest⟩ := List.forall_mem_cons.mp hnames
      rw [List.foldl_cons, readHeader, if_neg (by rw [hname]; exact Bool.false_ne_true)]
      exact ih hrest

/-- Metadata at the end of the headers is taken off one after the other. -/
theorem foldl_readHeader_metadata {rest : List (Text × Data)} {before : List (Text × Text)}
    {state : OrderedDict Text Text × OrderedDict Text Data}
    (hread : state.1.items = before)
    (hleft : state.2.items =
      headers.items ++ rest.map fun item => (metadataPrefix provider ++ item.1, item.2))
    (hnodup : (before.map Prod.fst ++ rest.map Prod.fst).Nodup) :
    ((rest.map fun item => metadataPrefix provider ++ item.1).foldl
        (readHeader provider) state).1.items =
      before ++ rest.map (fun item => (item.1, unquoteHeader item.2)) ∧
    ((rest.map fun item => metadataPrefix provider ++ item.1).foldl
        (readHeader provider) state).2.items = headers.items := by
  induction rest generalizing state before with
  | nil =>
      rw [List.map_nil, List.append_nil] at hleft
      exact ⟨hread.trans (List.append_nil _).symm, hleft⟩
  | cons item rest ih =>
      have hget : state.2.get? (metadataPrefix provider ++ item.1) = some item.2 := by
        rw [OrderedDict.get?_eq_some_iff, hleft]
        simp
      have hnew : item.1 ∉ state.1.keys := by
        rw [OrderedDict.keys, hread]
        exact fun hin => (List.nodup_append.mp hnodup).2.2 _ hin _ List.mem_cons_self rfl
      have hstep : readHeader provider state (metadataPrefix provider ++ item.1) =
          (state.1.set item.1 (unquoteHeader item.2),
            state.2.erase (metadataPrefix provider ++ item.1)) := by
        rw [readHeader, if_pos (isUserMetadata_append _), hget, List.drop_left]
      have hset : (state.1.set item.1 (unquoteHeader item.2)).items =
          before ++ [(item.1, unquoteHeader item.2)] := by
        rw [OrderedDict.items_set_of_notMem hnew, hread]
      have hrest : ((before ++ [(item.1, unquoteHeader item.2)]).map Prod.fst ++
          rest.map Prod.fst).Nodup := by
        simpa using hnodup
      have hfinal := @ih _ (state.1.set item.1 (unquoteHeader item.2),
        state.2.erase (metadataPrefix provider ++ item.1)) hset
        (OrderedDict.items_erase hleft) hrest
      rw [List.map_cons, List.foldl_cons, hstep, List.map_cons, ← List.singleton_append,
        ← List.append_assoc]
      exact hfinal

/-! ## Sending and reading -/

section

variable (hothers : ∀ name ∈ headers.keys, isUserMetadata provider name = false)
  (hnames : ∀ name ∈ metadata.keys, lower name = name ∧ name ∉ baseUserSettableFields)

include hnames

theorem headerName_of_mem {k : Text} (hk : k ∈ metadata.keys) :
    headerName provider k = metadataPrefix provider ++ k := by
  obtain ⟨hlower, hnot⟩ := hnames k hk
  rw [headerName, hlower, if_neg hnot]

include hothers

/-- The metadata is put behind the other headers. -/
theorem items_mergeMeta : (mergeMeta provider headers metadata).items =
    headers.items ++ metadata.items.map fun item =>
      (metadataPrefix provider ++ item.1, Data.text item.2) := by
  have hnew : ∀ item ∈ metadata.items, headerName provider item.1 =
      metadataPrefix provider ++ item.1 := fun item hitem =>
    headerName_of_mem hnames (List.mem_map_of_mem hitem)
  have hfold : mergeMeta provider headers metadata =
      (metadata.items.map fun item => (metadataPrefix provider ++ item.1, Data.text item.2)).foldl
        (fun headers item => headers.set item.1 item.2) headers := by
    rw [mergeMeta, List.foldl_map]
    exact List.foldl_ext _ _ _ fun headers item hitem => by rw [hnew item hitem]
  rw [hfold, OrderedDict.items_foldl_set]
  have hkeys : (metadata.items.map fun item =>
      (metadataPrefix provider ++ item.1, Data.text item.2)).map Prod.fst =
        metadata.keys.map (metadataPrefix provider ++ ·) := by
    rw [List.map_map, OrderedDict.keys, List.map_map]
    rfl
  rw [hkeys, List.nodup_append]
  refine ⟨headers.nodup, metadata.nodup.map fun _ _ heq => List.append_cancel_left heq, ?_⟩
  rintro name hname other hother rfl
  obtain ⟨k, -, rfl⟩ := List.mem_map.mp hother
  have hmeta := hothers _ hname
  rw [isUserMetadata_append] at hmeta
  cases hmeta

/-- What comes back is the metadata with its values unquoted, and the other headers. -/
theorem getAwsMetadata_sent :
    (getAwsMetadata provider ((mergeMeta provider headers metadata).mapValues
        Auth.HTTPRequest.quoteHeader)).1 =
      metadata.mapValues (fun value =>
        unquoteHeader (Auth.HTTPRequest.quoteHeader (.text value))) ∧
    (getAwsMetadata provider ((mergeMeta provider headers metadata).mapValues
        Auth.HTTPRequest.quoteHeader)).2 =
      headers.mapValues Auth.HTTPRequest.quoteHeader := by
  have hitems := items_mergeMeta hothers hnames
  have hsent : ((mergeMeta provider headers metadata).mapValues
      Auth.HTTPRequest.quoteHeader).items =
      (headers.mapValues Auth.HTTPRequest.quoteHeader).items ++
        (metadata.items.map fun item =>
          (item.1, Auth.HTTPRequest.quoteHeader (.text item.2))).map fun item =>
            (metadataPrefix provider ++ item.1, item.2) := by
    rw [OrderedDict.items_mapValues, OrderedDict.items_mapValues, hitems, List.map_append,
      List.map_map, List.map_map]
    rfl
  have hkeys : ((mergeMeta provider headers metadata).mapValues
      Auth.HTTPRequest.quoteHeader).keys =
      headers.keys ++ (metadata.items.map fun item =>
        (item.1, Auth.HTTPRequest.quoteHeader (.text item.2))).map fun item =>
          metadataPrefix provider ++ item.1 := by
    rw [OrderedDict.keys, hsent, List.map_append, List.map_map]
    exact congrArg (· ++ _) (OrderedDict.keys_mapValues _ headers)
  have hnodup : (([] : List (Text × Text)).map Prod.fst ++ (metadata.items.map fun item =>
      (item.1, Auth.HTTPRequest.quoteHeader (.text item.2))).map Prod.fst).Nodup := by
    rw [List.map_nil, List.nil_append, List.map_map]
    exact metadata.nodup
  obtain ⟨hread, hleft⟩ := @foldl_readHeader_metadata provider
    (headers.mapValues Auth.HTTPRequest.quoteHeader) _ [] (OrderedDict.empty,
      (mergeMeta provider headers metadata).mapValues Auth.HTTPRequest.quoteHeader) rfl hsent hnodup
  rw [getAwsMetadata, hkeys, List.foldl_append, foldl_readHeader_skip hothers]
  refine ⟨OrderedDict.ext ?_, OrderedDict.ext hleft⟩
  rw [hread, List.nil_append, List.map_map, OrderedDict.items_mapValues]
  rfl

omit hothers hnames in
/-- A value comes back if it has nothing that looks like an escape. -/
theorem unquoteHeader_quoteHeader_iff (value : Text) :
    unquoteHeader (Auth.HTTPRequest.quoteHeader (.text value)) = value ↔
      PercentEncoding.hasEscape value = false :=
  PercentEncoding.unquote_quote_iff (PercentEncoding.forall_ascii (by decide)) (by decide) value

/-- User metadata that is sent is read back, and the other headers are left, exactly if no
value has a percent sign before two hexadecimal digits. -/
theorem getAwsMetadata_mergeMeta_iff :
    ((∀ name, (getAwsMetadata provider ((mergeMeta provider headers metadata).mapValues
        Auth.HTTPRequest.quoteHeader)).1.get? name = metadata.get? name) ∧
      (getAwsMetadata provider ((mergeMeta provider headers metadata).mapValues
        Auth.HTTPRequest.quoteHeader)).2 = headers.mapValues Auth.HTTPRequest.quoteHeader) ↔
    ∀ item ∈ metadata.items, PercentEncoding.hasEscape item.2 = false := by
  obtain ⟨hread, hleft⟩ := getAwsMetadata_sent hothers hnames
  rw [hread, hleft, and_iff_left rfl]
  constructor
  · intro hsame item hitem
    have hget : metadata.get? item.1 = some item.2 := OrderedDict.get?_eq_some_iff.mpr hitem
    have hvalue := hsame item.1
    rw [OrderedDict.get?_mapValues, hget, Option.map_some, Option.some_inj] at hvalue
    exact (unquoteHeader_quoteHeader_iff item.2).mp hvalue
  · intro hescape name
    rw [OrderedDict.get?_mapValues]
    cases hget : metadata.get? name with
    | none => rfl
    | some value =>
        have hitem := OrderedDict.get?_eq_some_iff.mp hget
        rw [Option.map_some, (unquoteHeader_quoteHeader_iff value).mpr (hescape _ hitem)]

end

/-- A discount of some percent. -/
theorem getAwsMetadata_mergeMeta_percent :
    (getAwsMetadata .aws ((mergeMeta .aws OrderedDict.empty
        (OrderedDict.empty.set "rate".toList "5% off".toList)).mapValues
          Auth.HTTPRequest.quoteHeader)).1.get? "rate".toList = some "5% off".toList :=
  ((@getAwsMetadata_mergeMeta_iff .aws OrderedDict.empty
    (OrderedDict.empty.set "rate".toList "5% off".toList) nofun (by decide)).mpr
      (by decide)).1 "rate".toList

/-- A value that is percent-encoded itself comes back decoded. -/
theorem metadata_decoded :
    (getAwsMetadata .aws ((mergeMeta .aws OrderedDict.empty
        (OrderedDict.empty.set "path".toList "a%2Fb".toList)).mapValues
          Auth.HTTPRequest.quoteHeader)).1.get? "path".toList = some "a/b".toList ∧
      (OrderedDict.empty.set "path".toList "a%2Fb".toList).get? "path".toList =
        some "a%2Fb".toList := by
  have hnames : ∀ name ∈ (OrderedDict.empty.set "path".toList "a%2Fb".toList).keys,
      lower name = name ∧ name ∉ baseUserSettableFields := by decide
  rw [(@getAwsMetadata_sent .aws OrderedDict.empty _ nofun hnames).1]
  decide +kernel

end Boto.S3
