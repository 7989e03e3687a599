import Boto.Auth.FormQuery
import Boto.Auth.HeaderOrder
import Boto.Auth.SignedQuery

/-!
# The query that is signed for S3

What is signed is compared with what a service reads from the query on the path.  The
parameters of the request are signed with it, but are not sent.
-/

namespace Boto.Auth

open PercentEncoding (markCount total unquoteToBytes)

/-! ## Queries that mean the same -/

/-- A query that is read as a form as a service reads it: it ends at no `#`, has no plus and
no other separator, and its names and values are texts. -/
structure IsPlainQuery (semicolons : Bool) (authPath query : Text) : Prop where
  fragment : servedPairs query ≠ [] → '#' ∉ authPath
  plus : '+' ∉ query
  semicolon : semicolons = true → ';' ∉ query
  text : ∀ pair ∈ servedPairs query, ∃ texts, encodeTexts texts = pair

/-- The texts of a pair. -/
def decodePair (pair : Bytes × Bytes) : Text × Text :=
  (PercentEncoding.decode pair.1, PercentEncoding.decode pair.2)

theorem decodePair_encodeTexts (texts : Text × Text) : decodePair (encodeTexts texts) = texts :=
  Prod.ext (PercentEncoding.decode_encode _) (PercentEncoding.decode_encode _)

theorem encodeTexts_decodePairs {pairs : List (Bytes × Bytes)}
    (htext : ∀ pair ∈ pairs, ∃ texts, encodeTexts texts = pair) :
    (pairs.map decodePair).map encodeTexts = pairs := by
  rw [List.map_map]
  refine (List.map_congr_left fun pair hpair => ?_).trans (List.map_id pairs)
  obtain ⟨texts, rfl⟩ := htext pair hpair
  rw [Function.comp_apply, decodePair_encodeTexts]
  rfl

theorem eq_ampersand_of_servedPairs {query : Text} (hpairs : servedPairs query = []) :
    ∀ c ∈ query, c = '&' := by
  intro c hc
  by_contra hne
  obtain ⟨piece, hpiece, hin⟩ := exists_mem_splitOn hc hne
  rw [servedPairs, List.map_eq_nil_iff, List.filter_eq_nil_iff] at hpairs
  cases piece with
  | nil => cases hin
  | cons d piece => exact hpairs _ hpiece rfl

/-- The characters of a path are those before the query and those of the query. -/
theorem mem_authPath {c : Char} {authPath : Text} (hc : c ∈ authPath) (hne : c ≠ '?') :
    c ∈ authPath.takeWhile (· ≠ '?') ∨ c ∈ sentQuery authPath := by
  by_cases hin : '?' ∈ authPath
  · obtain ⟨path, query, rfl, hpath⟩ := List.eq_append_cons_of_mem hin
    rw [Urls.takeWhile_append_cons hpath, sentQuery, Urls.cut_append_cons hpath]
    rcases List.mem_append.mp hc with hc | hc
    · exact .inl hc
    · rcases List.mem_cons.mp hc with heq | hc
      · exact absurd heq hne
      · exact .inr hc
  · left
    rwa [← Urls.cut_fst, Urls.cut_of_notMem hin]

/-- The query is read whole when it is plain, or nothing is in it. -/
theorem authQuery_of_fragment {authPath : Text}
    (hfragment : servedPairs (sentQuery authPath) ≠ [] → '#' ∉ authPath) :
    authQuery authPath = sentQuery authPath ∨
      authQuery authPath = [] ∧ servedPairs (sentQuery authPath) = [] := by
  by_cases hhash : '#' ∈ authPath
  · have hpairs : servedPairs (sentQuery authPath) = [] := by
      by_contra hne
      exact hfragment hne hhash
    rw [authQuery]
    split
    · exact .inr ⟨rfl, hpairs⟩
    · left
      rw [List.takeWhile_eq_self_iff]
      intro c hc
      rw [eq_ampersand_of_servedPairs hpairs c hc]
      rfl
  · left
    have hbefore : '#' ∉ authPath.takeWhile (· ≠ '?') := fun hin =>
      hhash ((List.takeWhile_sublist _).subset hin)
    rw [authQuery, if_neg hbefore, List.takeWhile_eq_self_iff]
    intro c hc
    refine decide_eq_true ?_
    rintro rfl
    refine hhash ?_
    by_cases hin : '?' ∈ authPath
    · obtain ⟨path, query, rfl, hpath⟩ := List.eq_append_cons_of_mem hin
      rw [sentQuery, Urls.cut_append_cons hpath] at hc
      exact List.mem_append_right _ (List.mem_cons_of_mem _ hc)
    · rw [sentQuery, Urls.cut_of_notMem hin] at hc
      cases hc

/-- A form is read as a service reads it, if no mark has a meaning of its own. -/
theorem parseQsl_eq {semicolons : Bool} {query : Text} (hascii : ∀ c ∈ query, c.val ≤ 127)
    (hplus : '+' ∉ query) (hsemicolon : semicolons = true → ';' ∉ query) :
    Urls.parseQsl semicolons query = (servedPairs query).map decodePair := by
  have hfields : Urls.fields semicolons query = query.splitOn '&' := by
    have hsplit : ∀ text : Text, (semicolons = true → ';' ∉ text) →
        text.splitOnP (fun c => c = '&' || semicolons && c = ';') =
          text.splitOnP (· == '&') := by
      intro text htext
      induction text with
      | nil => rfl
      | cons c text ih =>
          have hrest := ih fun hs hin => htext hs (List.mem_cons_of_mem _ hin)
          have hc : (c = '&' || semicolons && c = ';') = (c == '&') := by
            cases hs : semicolons
            · rw [Bool.false_and, Bool.or_false]
              rfl
            · have hne : c ≠ ';' := fun heq => htext hs (heq ▸ List.mem_cons_self)
              rw [decide_eq_false hne, Bool.and_false, Bool.or_false]
              rfl
          rw [List.splitOnP_cons_eq_if_modifyHead, List.splitOnP_cons_eq_if_modifyHead, hc,
            hrest]
    rw [Urls.fields, hsplit query hsemicolon, List.splitOn_eq_splitOnP]
  have hread : ∀ text : Text, (∀ c ∈ text, c ∈ query) →
      PercentEncoding.unquotePlus text = PercentEncoding.decode (unquoteToBytes text) := by
    intro text htext
    have hsame : (text.map fun c => if c = '+' then ' ' else c) = text := by
      refine (List.map_congr_left fun c hc => ?_).trans (List.map_id text)
      exact if_neg fun heq : c = '+' => hplus (heq ▸ htext c hc)
    rw [PercentEncoding.unquotePlus, hsame,
      PercentEncoding.unquote_of_ascii fun c hc => hascii c (htext c hc)]
  rw [Urls.parseQsl, hfields, servedPairs, List.map_map]
  refine List.map_congr_left fun field hfield => ?_
  have hmem : ∀ c ∈ field, c ∈ query := by
    intro c hc
    have hpiece := List.mem_of_mem_filter hfield
    rw [List.splitOn_eq_splitOnP] at hpiece
    exact mem_of_mem_splitOnP hpiece hc
  rw [Function.comp_apply, servedPair, decodePair]
  by_cases hin : '=' ∈ field
  · obtain ⟨name, value, rfl, hname⟩ := List.eq_append_cons_of_mem hin
    rw [Urls.cut_append_cons hname]
    dsimp only [Option.getD_some]
    rw [hread name fun c hc => hmem c (List.mem_append_left _ hc),
      hread value fun c hc => hmem c (List.mem_append_right _ (List.mem_cons_of_mem _ hc))]
  · rw [Urls.cut_of_notMem hin]
    dsimp only [Option.getD_none]
    rw [hread field hmem, hread [] (by simp)]

/-! ## Requests for S3 -/

section

variable {library : Library} {semicolons : Bool} {req updated : HTTPRequest} {path : Text}

/-- Every parameter that is signed can be written as text. -/
theorem updated_getUtf8ableStr {dict : OrderedDict Text (List Text)}
    (hparams : TextParams req.params)
    (hupdated : updated.params =
      req.params.update (dict.mapValues S3HmacAuthV4Handler.existingValue)) :
    ∀ item ∈ updated.params.items,
      getUtf8ableStr library item.2 = .ok (valueText library item.2) := by
  intro item hitem
  rw [hupdated] at hitem
  rcases OrderedDict.mem_items_update hitem with hold | hnew
  · exact hparams.getUtf8ableStr item hold
  · obtain ⟨⟨name, values⟩, -, rfl⟩ := List.mem_map.mp hnew
    rw [valueText, getUtf8ableStr_existingValue]

/-- Without parameters the existing query is what is signed. -/
theorem paramTexts_existing {dict : OrderedDict Text (List Text)}
    (hempty : req.params.items = []) :
    paramTexts library (req.params.update (dict.mapValues S3HmacAuthV4Handler.existingValue)) =
      dict.items.map fun item => (item.1, existingText library item.2) := by
  have hparams : req.params = OrderedDict.empty := OrderedDict.ext hempty
  rw [hparams, OrderedDict.empty_update, paramTexts, OrderedDict.mapValues, List.map_map]
  refine List.map_congr_left fun item _ => Prod.ext rfl ?_
  rw [Function.comp_apply, valueText, getUtf8ableStr_existingValue]

theorem total_byteMarks_encodeTexts_le {mark : Char} (hmark : IsFormMark mark)
    (pairs : List (Text × Text)) :
    total (byteMarks mark) (pairs.map encodeTexts) ≤ total (pairMarks mark) pairs := by
  rw [PercentEncoding.total_map]
  exact PercentEncoding.total_le fun pair _ => Nat.add_le_add
    (PercentEncoding.count_encode_le hmark.ascii _)
    (PercentEncoding.count_encode_le hmark.ascii _)

/-- A form whose pairs are those of the query has all of its marks, and none that is read
for something else. -/
theorem markCount_le_of_perm {mark : Char} (hmark : IsFormMark mark) {form query : Text}
    (hascii : ∀ c ∈ form, c.val ≤ 127)
    (hperm : (((S3HmacAuthV4Handler.parseQs semicolons form).items.map fun item =>
      (item.1, existingText library item.2)).map encodeTexts).Perm (servedPairs query)) :
    markCount mark query + total (fun c => if c = mark then 1 else 0)
        (form.filter fun c => c = '&' || semicolons && c = ';') +
      (if mark = '+' then form.count '+' else 0) ≤ markCount mark form := by
  have hserved : markCount mark query ≤ total (itemMarks mark)
      (S3HmacAuthV4Handler.parseQs semicolons form).items := by
    rw [← byteMarks_servedPairs hmark, ← PercentEncoding.total_perm hperm]
    refine Nat.le_trans (total_byteMarks_encodeTexts_le hmark _) ?_
    rw [PercentEncoding.total_map]
    exact PercentEncoding.total_le fun item _ => Nat.add_le_add_left
      (count_existingText_le hmark.toIsRawMark library _) _
  have hform := itemMarks_parseQs mark semicolons form
  have hfields := @pairMarks_parseQsl_le _ _ hmark semicolons hascii
  have htotal := markCount_fields hmark semicolons form
  omega

theorem markCount_takeWhile {mark : Char} (hmark : IsFormMark mark) {query : Text}
    (hhash : '#' ∈ query) :
    markCount mark (query.takeWhile (· ≠ '#')) + (if '#' = mark then 1 else 0) ≤
      markCount mark query := by
  obtain ⟨before, after, rfl, hbefore⟩ := List.eq_append_cons_of_mem hhash
  rw [Urls.takeWhile_append_cons hbefore, PercentEncoding.markCount_append_cons hmark.toIsMark
    ⟨by decide, by decide, by decide⟩]
  omega

/-- A form whose pairs are those of the query means the same. -/
theorem IsPlainQuery.of_perm {authPath : Text}
    (hascii : ∀ c ∈ sentQuery authPath, c.val ≤ 127)
    (hperm : (((S3HmacAuthV4Handler.parseQs semicolons (authQuery authPath)).items.map
      fun item => (item.1, existingText library item.2)).map encodeTexts).Perm
        (servedPairs (sentQuery authPath))) :
    IsPlainQuery semicolons authPath (sentQuery authPath) := by
  have htext : ∀ pair ∈ servedPairs (sentQuery authPath), ∃ texts, encodeTexts texts = pair := by
    intro pair hpair
    obtain ⟨texts, -, heq⟩ := List.mem_map.mp (hperm.mem_iff.mpr hpair)
    exact ⟨texts, heq⟩
  by_cases hpairs : servedPairs (sentQuery authPath) = []
  · refine ⟨fun hne => absurd hpairs hne, fun hin => ?_, fun _ hin => ?_, htext⟩
    · cases eq_ampersand_of_servedPairs hpairs _ hin
    · cases eq_ampersand_of_servedPairs hpairs _ hin
  · have hbefore : '#' ∉ authPath.takeWhile (· ≠ '?') := by
      intro hin
      rw [authQuery, if_pos hin] at hperm
      exact hpairs hperm.nil_eq.symm
    have hform : authQuery authPath = (sentQuery authPath).takeWhile (· ≠ '#') := by
      rw [authQuery, if_neg hbefore]
    rw [hform] at hperm
    have hascii' : ∀ c ∈ (sentQuery authPath).takeWhile (· ≠ '#'), c.val ≤ 127 := fun c hc =>
      hascii c ((List.takeWhile_sublist _).subset hc)
    have hmarks : ∀ mark ∈ ['#', '+', ';'], _ := fun mark hmark =>
      markCount_le_of_perm (isFormMark hmark) hascii' hperm
    have hhash : '#' ∉ sentQuery authPath := by
      intro hin
      have hless := markCount_takeWhile (@isFormMark '#' (by decide)) hin
      have hmore := hmarks '#' (by decide)
      rw [if_pos rfl] at hless
      omega
    have hwhole : (sentQuery authPath).takeWhile (· ≠ '#') = sentQuery authPath := by
      rw [← Urls.cut_fst, Urls.cut_of_notMem hhash]
    rw [hwhole] at hmarks
    refine ⟨fun _ hin => ?_, fun hin => ?_, fun hsemicolons hin => ?_, htext⟩
    · exact (mem_authPath hin (by decide)).elim hbefore hhash
    · have hmore := hmarks '+' (by decide)
      have hpos := List.count_pos_iff.mpr hin
      rw [if_pos rfl] at hmore
      omega
    · have hmore := hmarks ';' (by decide)
      obtain ⟨front, back, heq⟩ := List.append_of_mem hin
      rw [heq, List.filter_append, List.filter_cons_of_pos (by simp [hsemicolons]),
        PercentEncoding.total_append, PercentEncoding.total, if_pos rfl] at hmore
      omega

/-- A plain query is signed as the pairs that a service reads. -/
theorem IsPlainQuery.existing {authPath : Text}
    (hplain : IsPlainQuery semicolons authPath (sentQuery authPath))
    (hascii : ∀ c ∈ sentQuery authPath, c.val ≤ 127)
    (honce : ((servedPairs (sentQuery authPath)).map Prod.fst).Nodup) :
    (S3HmacAuthV4Handler.parseQs semicolons (authQuery authPath)).items.map
        (fun item => (item.1, existingText library item.2)) =
      (servedPairs (sentQuery authPath)).map decodePair := by
  rcases authQuery_of_fragment hplain.fragment with hwhole | ⟨hnil, hpairs⟩
  · have hpairs := parseQsl_eq hascii hplain.plus hplain.semicolon
    have hnodup : ((Urls.parseQsl semicolons (sentQuery authPath)).map Prod.fst).Nodup := by
      rw [hpairs]
      have htexts := encodeTexts_decodePairs hplain.text
      rw [← htexts, List.map_map] at honce
      have hnames : (Prod.fst ∘ encodeTexts) = encodeUtf8 ∘ Prod.fst := rfl
      rw [hnames, ← List.map_map] at honce
      exact honce.of_map _
    rw [hwhole, items_parseQs hnodup, hpairs, List.map_map]
    exact List.map_id _
  · rw [hnil, hpairs]
    rfl

/-- What is signed for S3 is what a service recomputes exactly when there are no parameters
and the query is plain, with names whose order is kept. -/
theorem canonicalQueryString_mangled_iff (hparams : TextParams req.params)
    (hpath : req.authPath = '/' :: path) (hquery : sentQuery req.authPath = sentQuery req.path)
    (hascii : ∀ c ∈ sentQuery req.path, c.val ≤ 127)
    (honce : (req.params.keys.map encodeUtf8 ++
      (servedPairs (sentQuery req.path)).map Prod.fst).Nodup)
    (hupdated : S3HmacAuthV4Handler.manglePathAndParams req semicolons = .ok updated) :
    S3HmacAuthV4Handler.canonicalQueryString library updated =
        .ok (servedQuery (sentQuery req.path)) ↔
      req.params.items = [] ∧ IsPlainQuery semicolons req.authPath (sentQuery req.path) ∧
        OrderKept ((servedPairs (sentQuery req.path)).map fun pair =>
          PercentEncoding.decode pair.1) := by
  have hmangled := params_of_mangle hpath hupdated
  rw [← hquery] at hascii honce ⊢
  have honce' := (List.nodup_append.mp honce).2.1
  rw [S3HmacAuthV4Handler.canonicalQueryString,
    queryPairs_canonical (updated_getUtf8ableStr hparams hmangled), Except.ok.injEq,
    join_eq_servedQuery_iff]
  have hfinish : req.params.items = [] →
      IsPlainQuery semicolons req.authPath (sentQuery req.authPath) →
      ((sortedBy Prod.fst (paramTexts library updated.params)).map encodeTexts =
          sortedBy encodedName (servedPairs (sentQuery req.authPath)) ↔
        OrderKept ((servedPairs (sentQuery req.authPath)).map fun pair =>
          PercentEncoding.decode pair.1)) := by
    intro hempty hplain
    have htexts := @IsPlainQuery.existing library _ _ hplain hascii honce'
    have hread := encodeTexts_decodePairs hplain.text
    have hnodup : (((servedPairs (sentQuery req.authPath)).map decodePair).map
        Prod.fst).Nodup := by
      rw [← htexts, ← paramTexts_existing hempty, fst_paramTexts]
      exact (OrderedDict.nodup _)
    have horder := sortedBy_eq_iff hnodup
    rw [hread, List.map_map] at horder
    rw [hmangled, paramTexts_existing hempty, htexts]
    exact horder
  constructor
  · intro heq
    have hperm : ((paramTexts library updated.params).map encodeTexts).Perm
        (servedPairs (sentQuery req.authPath)) := by
      refine (((sortedBy_perm Prod.fst _).symm.map encodeTexts).trans ?_)
      rw [heq]
      exact sortedBy_perm _ _
    have hempty : req.params.items = [] := by
      by_contra hne
      obtain ⟨item, hitem⟩ := List.exists_mem_of_ne_nil _ hne
      have hkey : item.1 ∈ req.params.keys := List.mem_map_of_mem hitem
      have hname : item.1 ∈ (paramTexts library updated.params).map Prod.fst := by
        rw [fst_paramTexts, hmangled]
        exact OrderedDict.mem_keys_update hkey
      obtain ⟨pair, hpair, hname⟩ := List.mem_map.mp hname
      have hserved := hperm.mem_iff.mp (List.mem_map_of_mem hpair)
      refine (List.nodup_append.mp honce).2.2 _ (List.mem_map_of_mem hkey) _
        (List.mem_map_of_mem hserved) ?_
      rw [← hname]
      rfl
    rw [hmangled, paramTexts_existing hempty] at hperm
    have hplain := IsPlainQuery.of_perm hascii hperm
    exact ⟨hempty, hplain, (hfinish hempty hplain).mp heq⟩
  · rintro ⟨hempty, hplain, horder⟩
    exact (hfinish hempty hplain).mpr horder

end

/-! ## Both handlers -/

/-- What is signed is what a service recomputes from the query that it is sent: in general
exactly when the order of the names is kept, and for S3 exactly when besides all of the
query is on the path, and plain. -/
theorem canonicalQueryString_eq_servedQuery_iff (library : Library) (clock : Clock)
    (self : HmacAuthV4Handler) :
    (∀ req sent : HTTPRequest, TextParams req.params → req.method ≠ "POST".toList →
      HmacAuthV4Handler.addAuth library clock HmacAuthV4Handler.ownMethods self req none =
        .ok sent →
      (HmacAuthV4Handler.canonicalQueryString library req =
          .ok (servedQuery (sentQuery sent.path)) ↔ OrderKept req.params.keys)) ∧
    ∀ (semicolons : Bool) (req updated : HTTPRequest) (path : Text), TextParams req.params →
      req.authPath = '/' :: path → sentQuery req.authPath = sentQuery req.path →
      (∀ c ∈ sentQuery req.path, c.val ≤ 127) →
      (req.params.keys.map encodeUtf8 ++
        (servedPairs (sentQuery req.path)).map Prod.fst).Nodup →
      S3HmacAuthV4Handler.manglePathAndParams req semicolons = .ok updated →
      (S3HmacAuthV4Handler.canonicalQueryString library updated =
          .ok (servedQuery (sentQuery req.path)) ↔
        req.params.items = [] ∧ IsPlainQuery semicolons req.authPath (sentQuery req.path) ∧
          OrderKept ((servedPairs (sentQuery req.path)).map fun pair =>
            PercentEncoding.decode pair.1)) :=
  ⟨fun _ _ hparams hmethod hsent => canonicalQueryString_sent_iff hparams hmethod hsent,
    fun _ _ _ _ hparams hpath hquery hascii honce hupdated =>
      canonicalQueryString_mangled_iff hparams hpath hquery hascii honce hupdated⟩

/-- A library whose digests are all zeros. -/
def zeroLibrary : Library where
  sha256 := fun _ => ⟨List.replicate 32 0, rfl⟩
  hmacSha1 := fun _ _ => ⟨List.replicate 20 0, rfl⟩
  hmacSha256 := fun _ _ => ⟨List.replicate 32 0, rfl⟩
  isPrintable := fun c => decide (0x20 ≤ c.toNat)

/-- A clock that has stopped. -/
def stoppedClock : Clock where
  httpDate := "Thu, 01 Jan 1970 00:00:00 GMT".toList
  isoDate := "19700101T000000Z".toList
  timestamp := "1970-01-01T00:00:00Z".toList

/-- A request with parameters. -/
def requestWithParams (path : Text) (params : OrderedDict Text ParamValue) : HTTPRequest :=
  .init "GET".toList "https".toList "h".toList 443 path none params .empty (.text [])

theorem canonicalQueryString_eq_servedQuery_plain :
    (∃ sent, HmacAuthV4Handler.addAuth zeroLibrary stoppedClock HmacAuthV4Handler.ownMethods
        HmacAuthV4Handler.plainHandler
        (requestWithParams "/".toList (OrderedDict.empty.set "a".toList (.text "é".toList)))
        none = .ok sent ∧
      HmacAuthV4Handler.canonicalQueryString zeroLibrary
        (requestWithParams "/".toList (OrderedDict.empty.set "a".toList (.text "é".toList))) =
          .ok (servedQuery (sentQuery sent.path))) ∧
    ∃ updated, S3HmacAuthV4Handler.manglePathAndParams
        (requestWithParams "/k?acl".toList .empty) true = .ok updated ∧
      S3HmacAuthV4Handler.canonicalQueryString zeroLibrary updated =
        .ok (servedQuery (sentQuery "/k?acl".toList)) := by
  have hsingle : ∀ name : Text, OrderKept [name] := by
    intro name front c d rest rest' hin hin' hcd
    have heq : c :: rest = d :: rest' := List.append_cancel_left
      ((List.mem_singleton.mp hin).trans (List.mem_singleton.mp hin').symm)
    rw [(List.cons.inj heq).1] at hcd
    exact absurd hcd (Std.lt_irrefl)
  obtain ⟨hgeneral, hs3⟩ := canonicalQueryString_eq_servedQuery_iff zeroLibrary stoppedClock
    HmacAuthV4Handler.plainHandler
  refine ⟨⟨_, rfl, ?_⟩, ⟨_, rfl, ?_⟩⟩
  · refine (hgeneral _ _ ?_ (by decide) rfl).mpr (hsingle _)
    intro item hitem
    obtain rfl := List.mem_singleton.mp hitem
    exact ⟨_, rfl⟩
  · refine (hs3 true (requestWithParams "/k?acl".toList .empty) _ _ ?_ rfl rfl
      (PercentEncoding.forall_ascii (by decide +kernel))
      (by decide +kernel) rfl).mpr
        ⟨rfl, ⟨by decide +kernel, by decide +kernel, by decide +kernel, ?_⟩, hsingle _⟩
    · intro item hitem
      cases hitem
    · intro pair hpair
      obtain rfl := List.mem_singleton.mp hpair
      exact ⟨("acl".toList, []), rfl⟩

/-- Parameters of which one has a name that is escaped. -/
def mixedParams : OrderedDict Text ParamValue :=
  (OrderedDict.empty.set "a".toList (.text "1".toList)).set "é".toList (.text "2".toList)

theorem textParams_mixedParams : TextParams mixedParams := by
  intro item hitem
  change item ∈ [("a".toList, _), ("é".toList, _)] at hitem
  simp only [List.mem_cons, List.not_mem_nil, or_false] at hitem
  rcases hitem with rfl | rfl <;> exact ⟨_, rfl⟩

/-- A name that is escaped is signed after a letter and recomputed before it. -/
theorem canonicalQueryString_ne_servedQuery :
    ¬∀ (library : Library) (clock : Clock) (self : HmacAuthV4Handler) (req sent : HTTPRequest),
      TextParams req.params → req.method ≠ "POST".toList →
      HmacAuthV4Handler.addAuth library clock HmacAuthV4Handler.ownMethods self req none =
        .ok sent →
      HmacAuthV4Handler.canonicalQueryString library req =
        .ok (servedQuery (sentQuery sent.path)) := by
  intro hclaim
  obtain ⟨sent, hsent⟩ : ∃ sent, HmacAuthV4Handler.addAuth zeroLibrary stoppedClock
      HmacAuthV4Handler.ownMethods HmacAuthV4Handler.plainHandler
      (requestWithParams "/".toList mixedParams) none = .ok sent := ⟨_, rfl⟩
  have hsame := hclaim zeroLibrary stoppedClock HmacAuthV4Handler.plainHandler
    (requestWithParams "/".toList mixedParams) sent textParams_mixedParams (by decide) hsent
  have hkept := (canonicalQueryString_sent_iff textParams_mixedParams (by decide) hsent).mp hsame
  have hescaped := hkept [] 'a' 'é' [] [] (by decide) (by decide) (by decide) (by decide)
  exact absurd hescaped (by decide)

end Boto.Auth
