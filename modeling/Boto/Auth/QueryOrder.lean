import Boto.Auth.SigV4
import Boto.Support.QuoteOrder
import Boto.Support.Urls

/-!
# The order of the canonical query

Names are sorted before they are encoded.  A service sorts them as they are encoded, where
a percent sign comes before every letter and digit, so the two orders differ for names that
first differ in a character that is escaped and a smaller one that is not.
-/

namespace Boto.Auth

open PercentEncoding (isUnreservedChar unquoteToBytes)

/-! ## The query that a service recomputes -/

/-- The query of a request line. -/
def sentQuery (target : Text) : Text :=
  (Urls.cut '?' target).2.getD []

/-- The pairs of a field, where a name may stand without a value. -/
def servedPair (field : Text) : Bytes × Bytes :=
  let (name, value) := Urls.cut '=' field
  (unquoteToBytes name, unquoteToBytes (value.getD []))

/-- The pairs of names and values that a service reads from a query. -/
def servedPairs (query : Text) : List (Bytes × Bytes) :=
  ((query.splitOn '&').filter fun field => !field.isEmpty).map servedPair

/-- A name as a service encodes it. -/
def encodedName (pair : Bytes × Bytes) : Text :=
  PercentEncoding.quote [] pair.1

/-- A pair as a service encodes it. -/
def encodedPair (pair : Bytes × Bytes) : Text :=
  encodedName pair ++ '=' :: PercentEncoding.quote [] pair.2

/-- The canonical query that a service recomputes from a query. -/
def servedQuery (query : Text) : Text :=
  join '&' ((sortedBy encodedName (servedPairs query)).map encodedPair)

/-- Where two of the names first differ, the smaller character is escaped or the greater
one is not. -/
def OrderKept (names : List Text) : Prop :=
  ∀ front c d rest rest', front ++ c :: rest ∈ names → front ++ d :: rest' ∈ names → c < d →
    isUnreservedChar c = true → isUnreservedChar d = true

/-- The UTF-8 form of a pair. -/
def encodeTexts (pair : Text × Text) : Bytes × Bytes :=
  (encodeUtf8 pair.1, encodeUtf8 pair.2)

/-! ## Reading encoded pairs -/

theorem encodeUtf8_injective : Function.Injective encodeUtf8 := by
  intro text other heq
  rw [← PercentEncoding.decode_encode text, ← PercentEncoding.decode_encode other]
  exact congrArg _ heq

theorem encodeTexts_injective : Function.Injective encodeTexts := by
  rintro ⟨name, value⟩ ⟨name', value'⟩ heq
  obtain ⟨hname, hvalue⟩ := Prod.mk.inj heq
  exact Prod.ext (encodeUtf8_injective hname) (encodeUtf8_injective hvalue)

/-- Fields that are neither empty nor broken are read back from the query that they
make. -/
theorem fields_join {fields : List Text} (hfields : ∀ field ∈ fields, field ≠ [] ∧ '&' ∉ field) :
    ((join '&' fields).splitOn '&').filter (fun field => !field.isEmpty) = fields := by
  by_cases hempty : fields = []
  · subst hempty
    rfl
  · rw [join, List.splitOn_intercalate _ (fun field hfield => (hfields field hfield).2) hempty,
      List.filter_eq_self]
    intro field hfield
    cases field with
    | nil => exact absurd rfl (hfields _ hfield).1
    | cons c field => rfl

section

variable {safe safe' : List Char}

/-- What is quoted has neither of the marks of a query, unless they are safe. -/
theorem notMem_quote (hsafe : '&' ∉ safe ∧ '=' ∉ safe) (bytes : Bytes) :
    '&' ∉ PercentEncoding.quote safe bytes ∧ '=' ∉ PercentEncoding.quote safe bytes := by
  refine ⟨fun hin => ?_, fun hin => ?_⟩ <;> rcases PercentEncoding.mem_quote hin with hin | hin
  · exact hsafe.1 hin
  · revert hin
    rw [PercentEncoding.IsQuoted]
    decide
  · exact hsafe.2 hin
  · revert hin
    rw [PercentEncoding.IsQuoted]
    decide

/-- A service reads the pairs of a query as they were encoded. -/
theorem servedPairs_join (hsafe : '&' ∉ safe ∧ '=' ∉ safe) (hsafe' : '&' ∉ safe' ∧ '=' ∉ safe')
    (hpercent : '%' ∉ safe) (hpercent' : '%' ∉ safe') (pairs : List (Bytes × Bytes)) :
    servedPairs (join '&' (pairs.map fun pair =>
      PercentEncoding.quote safe pair.1 ++ '=' :: PercentEncoding.quote safe' pair.2)) =
        pairs := by
  rw [servedPairs, fields_join, List.map_map]
  · refine (List.map_congr_left fun pair _ => ?_).trans (List.map_id pairs)
    rw [Function.comp_apply, servedPair, Urls.cut_append_cons (notMem_quote hsafe _).2]
    dsimp only [Option.getD_some]
    rw [PercentEncoding.unquoteToBytes_quote hpercent,
      PercentEncoding.unquoteToBytes_quote hpercent']
    rfl
  · intro field hfield
    obtain ⟨pair, -, rfl⟩ := List.mem_map.mp hfield
    refine ⟨by simp, fun hin => ?_⟩
    rcases List.mem_append.mp hin with hin | hin
    · exact (notMem_quote hsafe _).1 hin
    · rcases List.mem_cons.mp hin with heq | hin
      · cases heq
      · exact (notMem_quote hsafe' _).1 hin

theorem encodedPair_join (pairs : List (Bytes × Bytes)) :
    servedPairs (join '&' (pairs.map encodedPair)) = pairs :=
  servedPairs_join (by simp) (by simp) (by simp) (by simp) pairs

/-- The safe characters of `quote` that are never escaped make no difference. -/
theorem quote_of_unreserved {safe : List Char} (hsafe : safe.all isUnreservedChar = true)
    (bytes : Bytes) : PercentEncoding.quote safe bytes = PercentEncoding.quote [] bytes := by
  rw [PercentEncoding.quote, PercentEncoding.quote]
  refine List.flatMap_congr fun b _ => ?_
  rw [PercentEncoding.quoteByte, PercentEncoding.quoteByte]
  cases hb : PercentEncoding.isUnreserved b with
  | true => rfl
  | false =>
      have hnot : safe.contains (Char.ofNat b.toNat) = false := by
        rw [Bool.eq_false_iff]
        intro hin
        have hin := List.all_eq_true.mp hsafe _ (List.contains_iff_mem.mp hin)
        rw [← PercentEncoding.isUnreserved_eq, hb] at hin
        cases hin
      rw [hnot]
      rfl

end

/-! ## The two orders -/

section

variable {pairs : List (Text × Text)}

theorem encodedName_le (hkept : OrderKept (pairs.map Prod.fst)) {pair other : Text × Text}
    (hpair : pair ∈ pairs) (hother : other ∈ pairs) (hle : TextLe pair.1 other.1) :
    TextLe (encodedName (encodeTexts pair)) (encodedName (encodeTexts other)) := by
  rcases textLe_cases hle with hlt | heq
  · refine TextLe.of_lt ?_
    have hin : pair.1 ∈ pairs.map Prod.fst := List.mem_map_of_mem hpair
    have hin' : other.1 ∈ pairs.map Prod.fst := List.mem_map_of_mem hother
    rw [encodedName, encodedName, encodeTexts, encodeTexts]
    rcases lt_iff_split.mp hlt with ⟨c, rest, heq⟩ | ⟨front, c, d, rest, rest', heq, heq', hcd⟩
    · rw [heq]
      exact PercentEncoding.quote_lt_quote_append ..
    · rw [heq] at hin ⊢
      rw [heq'] at hin' ⊢
      exact (PercentEncoding.quote_lt_quote_iff front rest rest' hcd).mpr
        (hkept front c d rest rest' hin hin' hcd)
  · rw [encodedName, encodedName, encodeTexts, encodeTexts, heq]
    exact TextLe.refl _

theorem encodedName_injective {pair other : Text × Text}
    (heq : encodedName (encodeTexts pair) = encodedName (encodeTexts other)) :
    pair.1 = other.1 := by
  have hread := congrArg unquoteToBytes heq
  rw [encodedName, encodedName, PercentEncoding.unquoteToBytes_quote (by simp),
    PercentEncoding.unquoteToBytes_quote (by simp)] at hread
  exact encodeUtf8_injective hread

/-- The names in their own order are in the order of a service exactly when the order of
all of them is kept. -/
theorem sortedBy_eq_iff (hnodup : (pairs.map Prod.fst).Nodup) :
    (sortedBy Prod.fst pairs).map encodeTexts =
      sortedBy encodedName (pairs.map encodeTexts) ↔ OrderKept (pairs.map Prod.fst) := by
  constructor
  · intro heq front c d rest rest' hin hin' hcd
    obtain ⟨pair, hpair, hname⟩ := List.mem_map.mp hin
    obtain ⟨other, hother, hname'⟩ := List.mem_map.mp hin'
    have hlt : pair.1 < other.1 := by
      rw [hname, hname']
      exact lt_iff_split.mpr (.inr ⟨front, c, d, rest, rest', rfl, rfl, hcd⟩)
    have horder := pairwise_sortedBy encodedName (pairs.map encodeTexts)
    rw [← heq, List.pairwise_map] at horder
    have hne : pair ≠ other := fun heq => List.lt_irrefl _ (heq ▸ hlt)
    rcases pairwise_or ((pairwise_sortedBy Prod.fst pairs).and horder) (mem_sortedBy.mpr hpair)
      (mem_sortedBy.mpr hother) hne with ⟨-, hle⟩ | ⟨hle, -⟩
    · by_contra hnot
      have hchars := PercentEncoding.quote_lt_quote_iff front rest rest' hcd
      rcases textLe_cases hle with hless | hsame
      · rw [encodedName, encodedName, encodeTexts, encodeTexts, hname, hname'] at hless
        exact hnot (hchars.mp hless)
      · exact List.lt_irrefl _ (encodedName_injective hsame ▸ hlt)
    · exact absurd hlt hle
  · intro hkept
    refine List.Perm.eq_of_pairwise ?_ ?_ (pairwise_sortedBy encodedName _) ?_
    · intro a b ha hb hle hle'
      obtain ⟨pair, hpair, rfl⟩ := List.mem_map.mp ha
      obtain ⟨other, hother, rfl⟩ := List.mem_map.mp (mem_sortedBy.mp hb)
      have hname := encodedName_injective (TextLe.antisymm hle hle')
      exact congrArg _ (List.inj_on_of_nodup_map hnodup (mem_sortedBy.mp hpair) hother hname)
    · rw [List.pairwise_map]
      refine (pairwise_sortedBy Prod.fst pairs).imp_of_mem ?_
      intro pair other hpair hother hle
      exact encodedName_le hkept (mem_sortedBy.mp hpair) (mem_sortedBy.mp hother) hle
    · exact ((sortedBy_perm _ _).map _).trans (sortedBy_perm _ _).symm

/-- The signed query is the one of a service exactly when the pairs come in one order. -/
theorem join_eq_servedQuery_iff {pairs' : List (Bytes × Bytes)} {query : Text} :
    join '&' (pairs'.map encodedPair) = servedQuery query ↔
      pairs' = sortedBy encodedName (servedPairs query) := by
  constructor
  · intro heq
    rw [← encodedPair_join pairs', heq, servedQuery, encodedPair_join]
  · rintro rfl
    rfl

end

/-! ## Parameters -/

/-- Parameters that can be written as text are signed in the order of their names. -/
theorem queryPairs_eq {library : Library} {quoteName quoteValue : Text → Text}
    {params : OrderedDict Text ParamValue} {valueText : ParamValue → Text}
    (hvalues : ∀ item ∈ params.items, getUtf8ableStr library item.2 = .ok (valueText item.2)) :
    HmacAuthV4Handler.queryPairs library quoteName quoteValue (sorted params.keys) params =
      .ok (join '&' ((sortedBy Prod.fst (params.items.map fun item =>
        (item.1, valueText item.2))).map fun pair =>
          quoteName pair.1 ++ '=' :: quoteValue pair.2)) := by
  have hkeys : sorted params.keys = (sortedBy Prod.fst (params.items.map fun item =>
      (item.1, valueText item.2))).map Prod.fst := by
    refine (eq_sorted_of_perm ?_ ?_).symm
    · refine ((sortedBy_perm _ _).map _).trans (.of_eq ?_)
      rw [List.map_map]
      rfl
    · rw [List.pairwise_map]
      exact pairwise_sortedBy _ _
  have hpairs : ∀ pairs : List (Text × Text),
      (∀ pair ∈ pairs, ∃ value, (pair.1, value) ∈ params.items ∧ valueText value = pair.2) →
      (pairs.map Prod.fst).mapM (fun name => do
        let value ← getUtf8ableStr library ((params.get? name).getD (.text []))
        return quoteName name ++ '=' :: quoteValue value) =
      .ok (pairs.map fun pair => quoteName pair.1 ++ '=' :: quoteValue pair.2) := by
    intro pairs hpairs
    induction pairs with
    | nil => rfl
    | cons pair pairs ih =>
        obtain ⟨⟨value, hvalue, heq⟩, hrest⟩ := List.forall_mem_cons.mp hpairs
        have hget := OrderedDict.get?_eq_some_iff.mpr hvalue
        have hstr := hvalues _ hvalue
        dsimp only at hstr
        rw [List.map_cons, List.mapM_cons, ih hrest, hget, Option.getD_some, hstr, heq]
        rfl
  rw [HmacAuthV4Handler.queryPairs, hkeys, hpairs]
  · rfl
  · intro pair hpair
    obtain ⟨item, hitem, rfl⟩ := List.mem_map.mp (mem_sortedBy.mp hpair)
    exact ⟨item.2, hitem, rfl⟩

end Boto.Auth
