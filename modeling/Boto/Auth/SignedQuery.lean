import Boto.Auth.QueryOrder

/-!
# The query that is signed

The general handler of version 4 writes its parameters on the path, and signs them with
another choice of safe characters.  A service reads the same pairs, and recomputes what is
signed unless their order changes.
-/

namespace Boto.Auth

/-! ## The query on the path -/

theorem path_of_credentialScope {methods : V4Methods} {self : HmacAuthV4Handler}
    {req dated : HTTPRequest} {scope : Text}
    (hscope : HmacAuthV4Handler.credentialScope methods self req = .ok (scope, dated)) :
    dated.path = req.path := by
  obtain ⟨date, -, hscope⟩ := except_bind_eq_ok.mp hscope
  obtain ⟨region, -, hscope⟩ := except_bind_eq_ok.mp hscope
  cases hscope
  rfl

theorem path_of_signRequest {library : Library} {methods : V4Methods}
    {self : HmacAuthV4Handler} {req signed : HTTPRequest}
    (hsign : HmacAuthV4Handler.signRequest library methods self req = .ok signed) :
    signed.path = req.path := by
  obtain ⟨canonical, -, hsign⟩ := except_bind_eq_ok.mp hsign
  obtain ⟨⟨toSign, dated⟩, hdated, hsign⟩ := except_bind_eq_ok.mp hsign
  obtain ⟨headers, -, hsign⟩ := except_bind_eq_ok.mp hsign
  cases hsign
  obtain ⟨date, -, hdated⟩ := except_bind_eq_ok.mp hdated
  obtain ⟨⟨scope, _⟩, hscope, hdated⟩ := except_bind_eq_ok.mp hdated
  cases hdated
  have hpath := path_of_credentialScope hscope
  exact hpath

theorem sentQuery_placed (path qs : Text) :
    sentQuery (if qs ≠ [] then path.takeWhile (· ≠ '?') ++ '?' :: qs
      else path.takeWhile (· ≠ '?')) = qs := by
  have hpath : '?' ∉ path.takeWhile (· ≠ '?') := fun hin =>
    of_decide_eq_true (List.all_eq_true.mp List.all_takeWhile '?' hin) rfl
  split
  · rw [sentQuery, Urls.cut_append_cons hpath]
    rfl
  · rename_i hempty
    rw [sentQuery, Urls.cut_of_notMem hpath, not_not.mp hempty]
    rfl

/-- The general handler sends the query that `query_string` makes. -/
theorem sentQuery_addAuth {library : Library} {clock : Clock} {methods : V4Methods}
    {self : HmacAuthV4Handler} {req sent : HTTPRequest} (hmethod : req.method ≠ "POST".toList)
    (hsent : HmacAuthV4Handler.addAuth library clock methods self req none = .ok sent) :
    HmacAuthV4Handler.queryString library req = .ok (sentQuery sent.path) := by
  obtain ⟨qs, hqs, hsent⟩ := except_bind_eq_ok.mp hsent
  obtain ⟨qsToPost, -, hsent⟩ := except_bind_eq_ok.mp hsent
  rw [path_of_signRequest hsent, HmacAuthV4Handler.placeQuery,
    if_neg fun hpost => hmethod hpost.2]
  dsimp only
  rw [sentQuery_placed]
  exact hqs

/-! ## Text parameters -/

/-- `str` of a value that is no bytes. -/
def valueText (library : Library) (value : ParamValue) : Text :=
  match getUtf8ableStr library value with
  | .ok text => text
  | .error _ => []

/-- Every value is a text. -/
def TextParams (params : OrderedDict Text ParamValue) : Prop :=
  ∀ item ∈ params.items, ∃ value, item.2 = .text value

/-- The names and values of parameters as they are written. -/
def paramTexts (library : Library) (params : OrderedDict Text ParamValue) :
    List (Text × Text) :=
  params.items.map fun item => (item.1, valueText library item.2)

theorem fst_paramTexts (library : Library) (params : OrderedDict Text ParamValue) :
    (paramTexts library params).map Prod.fst = params.keys := by
  rw [paramTexts, List.map_map]
  rfl

theorem TextParams.getUtf8ableStr {library : Library} {params : OrderedDict Text ParamValue}
    (hparams : TextParams params) : ∀ item ∈ params.items,
      getUtf8ableStr library item.2 = .ok (valueText library item.2) := by
  intro item hitem
  obtain ⟨value, heq⟩ := hparams item hitem
  rw [heq]
  rfl

/-- The canonical query of parameters that can be written as text. -/
theorem queryPairs_canonical {library : Library} {params : OrderedDict Text ParamValue}
    (hvalues : ∀ item ∈ params.items,
      getUtf8ableStr library item.2 = .ok (valueText library item.2)) :
    HmacAuthV4Handler.queryPairs library (quote "-_.~") (quote "-_.~") (sorted params.keys)
      params = .ok (join '&' (((sortedBy Prod.fst (paramTexts library params)).map
        encodeTexts).map encodedPair)) := by
  rw [queryPairs_eq hvalues, List.map_map]
  refine congrArg (fun fields => Except.ok (join '&' fields)) (List.map_congr_left ?_)
  intro pair _
  rw [quote, quote, quote_of_unreserved (by decide) (encodeUtf8 pair.1),
    quote_of_unreserved (by decide) (encodeUtf8 pair.2)]
  rfl

/-- What the general handler signs is what a service recomputes exactly when the order of
the names is kept. -/
theorem canonicalQueryString_sent_iff {library : Library} {clock : Clock}
    {methods : V4Methods} {self : HmacAuthV4Handler} {req sent : HTTPRequest}
    (hparams : TextParams req.params) (hmethod : req.method ≠ "POST".toList)
    (hsent : HmacAuthV4Handler.addAuth library clock methods self req none = .ok sent) :
    HmacAuthV4Handler.canonicalQueryString library req =
        .ok (servedQuery (sentQuery sent.path)) ↔ OrderKept req.params.keys := by
  have hquery := sentQuery_addAuth hmethod hsent
  have hserved : servedPairs (sentQuery sent.path) =
      (sortedBy Prod.fst (paramTexts library req.params)).map encodeTexts := by
    rw [HmacAuthV4Handler.queryString, queryPairs_eq hparams.getUtf8ableStr,
      Except.ok.injEq] at hquery
    rw [← hquery]
    have hread := @servedPairs_join [] "-_~".toList (by decide) (by decide) (by decide)
      (by decide) ((sortedBy Prod.fst (paramTexts library req.params)).map encodeTexts)
    rw [List.map_map] at hread
    exact hread
  have hnodup : ((sortedBy Prod.fst (paramTexts library req.params)).map Prod.fst).Nodup := by
    refine (((sortedBy_perm _ _).map _).nodup_iff).mpr ?_
    rw [fst_paramTexts]
    exact req.params.nodup
  have hnames : OrderKept ((sortedBy Prod.fst (paramTexts library req.params)).map Prod.fst) ↔
      OrderKept req.params.keys := by
    have hmem : ∀ name, name ∈ (sortedBy Prod.fst (paramTexts library req.params)).map
        Prod.fst ↔ name ∈ req.params.keys := fun name => by
      rw [((sortedBy_perm _ _).map _).mem_iff, fst_paramTexts]
    simp only [OrderKept, hmem]
  rw [HmacAuthV4Handler.canonicalQueryString, if_neg hmethod,
    queryPairs_canonical hparams.getUtf8ableStr, Except.ok.injEq, join_eq_servedQuery_iff,
    hserved, ← hnames, ← sortedBy_eq_iff hnodup,
    sortedBy_eq_self (pairwise_sortedBy Prod.fst _)]

end Boto.Auth
