import Boto.S3.SignedUrl

/-!
# The headers of signed URLs

The lines that are signed are those of the hash of the body, of the content type and of the date,
in this order, and then those of the headers with the prefix of the provider.  These last lines
determine the headers that they are made from.
-/

namespace Boto.S3

open Auth (HmacKeys Provider canonicalQsa canonicalString interestingHeaders signedHeaderValues
  strInt)
open OrderedDict (lastEntry ofEntries)

/-! ## Lines -/

/-- The line of a header. -/
def headerLine (header : Text × Text) : Text :=
  header.1 ++ ':' :: header.2 ++ ['\n']

/-- A name ends at the first colon, and a value at the first end of a line. -/
def IsLine (header : Text × Text) : Prop :=
  ':' ∉ header.1 ∧ '\n' ∉ header.2

theorem headerLine_append_inj {header header' : Text × Text} (hline : IsLine header)
    (hline' : IsLine header') {rest rest' : Text}
    (heq : headerLine header ++ rest = headerLine header' ++ rest') :
    header = header' ∧ rest = rest' := by
  rw [headerLine, headerLine] at heq
  simp only [List.append_assoc, List.cons_append] at heq
  obtain ⟨hname, heq⟩ := Urls.append_cons_inj hline.1 hline'.1 heq
  obtain ⟨hvalue, hrest⟩ := Urls.append_cons_inj hline.2 hline'.2 heq
  exact ⟨Prod.ext hname hvalue, hrest⟩

theorem headerLine_ne_nil (header : Text × Text) : headerLine header ≠ [] := by
  rw [headerLine]
  simp

/-- The lines of headers determine the headers. -/
theorem flatMap_headerLine_injective {headers headers' : List (Text × Text)}
    (hlines : ∀ header ∈ headers, IsLine header) (hlines' : ∀ header ∈ headers', IsLine header)
    (heq : headers.flatMap headerLine = headers'.flatMap headerLine) : headers = headers' := by
  induction headers generalizing headers' with
  | nil =>
      cases headers' with
      | nil => rfl
      | cons header' headers' =>
          have hnil := (List.append_eq_nil_iff.mp heq.symm).1
          exact absurd hnil (headerLine_ne_nil header')
  | cons header headers ih =>
      cases headers' with
      | nil =>
          have hnil := (List.append_eq_nil_iff.mp heq).1
          exact absurd hnil (headerLine_ne_nil header)
      | cons header' headers' =>
          rw [List.forall_mem_cons] at hlines hlines'
          rw [List.flatMap_cons, List.flatMap_cons] at heq
          obtain ⟨rfl, hrest⟩ := headerLine_append_inj hlines.1 hlines'.1 heq
          rw [ih hlines.2 hlines'.2 hrest]

/-- The headers in the order of their names. -/
def sortedHeaders (headers : OrderedDict Text Text) : List (Text × Text) :=
  (sorted headers.keys).map fun name => (name, (headers.get? name).getD [])

theorem headerLines_eq (headers : OrderedDict Text Text) :
    headerLines headers = (sortedHeaders headers).flatMap headerLine := by
  rw [sortedHeaders, List.flatMap_map]
  rfl

theorem mem_sortedHeaders {headers : OrderedDict Text Text} {name value : Text} :
    (name, value) ∈ sortedHeaders headers ↔ headers.get? name = some value := by
  rw [sortedHeaders, List.mem_map]
  constructor
  · rintro ⟨other, hother, heq⟩
    obtain ⟨rfl, rfl⟩ := Prod.mk.inj heq
    have hne : headers.get? other ≠ none := fun hnone =>
      OrderedDict.get?_eq_none_iff.mp hnone (mem_sorted.mp hother)
    obtain ⟨found, hfound⟩ := Option.ne_none_iff_exists'.mp hne
    rw [hfound]
    rfl
  · intro hget
    have hkey : name ∈ headers.keys := by
      by_contra hnot
      rw [OrderedDict.get?_eq_none_iff.mpr hnot] at hget
      cases hget
    exact ⟨name, mem_sorted.mpr hkey, by rw [hget]; rfl⟩

theorem sorted_keys_congr {headers headers' : OrderedDict Text Text}
    (heq : ∀ name, headers.get? name = headers'.get? name) :
    sorted headers.keys = sorted headers'.keys := by
  refine eq_sorted_of_perm ((sorted_perm _).trans ?_) (pairwise_sorted _)
  refine (List.perm_ext_iff_of_nodup headers.nodup headers'.nodup).mpr fun name => ?_
  rw [← not_iff_not]
  exact OrderedDict.get?_eq_none_iff.symm.trans
    ((iff_of_eq (congrArg (· = none) (heq name))).trans OrderedDict.get?_eq_none_iff)

/-- The same lines are made from the same headers. -/
theorem headerLines_eq_iff {headers headers' : OrderedDict Text Text}
    (hlines : ∀ name value, headers.get? name = some value → IsLine (name, value))
    (hlines' : ∀ name value, headers'.get? name = some value → IsLine (name, value)) :
    headerLines headers = headerLines headers' ↔
      ∀ name, headers.get? name = headers'.get? name := by
  constructor
  · intro heq name
    rw [headerLines_eq, headerLines_eq] at heq
    have hsame := flatMap_headerLine_injective
      (fun header hheader => hlines _ _ (mem_sortedHeaders.mp hheader))
      (fun header hheader => hlines' _ _ (mem_sortedHeaders.mp hheader)) heq
    refine Option.ext fun value => ?_
    rw [← mem_sortedHeaders, hsame, mem_sortedHeaders]
  · intro heq
    rw [headerLines, headerLines, sorted_keys_congr heq]
    exact congrArg (List.flatMap · _) (funext fun name => by rw [heq])

/-! ## The headers that are signed -/

section

variable {provider : Provider} {headers : OrderedDict Text Text} {name : Text}

/-- A header that is absent is signed with a value. -/
theorem get?_default {d : OrderedDict Text Text} {key value : Text} :
    (if d.contains key then d else d.set key value).get? name =
      if name = key then some ((d.get? key).getD value) else d.get? name := by
  split
  · rename_i hkey
    obtain ⟨found, hfound⟩ := Option.isSome_iff_exists.mp hkey
    split
    · rename_i hname
      rw [hname, hfound]
      rfl
    · rfl
  · rename_i hkey
    rw [OrderedDict.contains, Bool.not_eq_true, Option.isSome_eq_false_iff,
      Option.isNone_iff_eq_none] at hkey
    rw [OrderedDict.get?_set, hkey]
    rfl

/-- The names without the prefix that are signed. -/
def plainNames : List Text :=
  ["content-md5".toList, "content-type".toList, "date".toList]

theorem get?_interestingHeaders :
    (interestingHeaders provider (headers.mapValues .text)).get? name =
      if name ∈ plainNames ∨ provider.headerPrefix.isPrefixOf name then
        lastEntry name (signedEntries headers.items)
      else none := by
  have hfold := @OrderedDict.get?_foldl_set_if _ _ _ name _
    (fun name : Text => name ∈ plainNames ∨ provider.headerPrefix.isPrefixOf name) _
    (fun header : Text × Text => (lower header.1, stripText header.2)) headers.items .empty
  rw [interestingHeaders, OrderedDict.items_mapValues, List.foldl_map]
  refine hfold.trans ?_
  rw [OrderedDict.get?_empty, Option.or_none]
  rfl

/-- The date that is signed. -/
def signedDate (provider : Provider) (headers : OrderedDict Text Text) (expires : ℤ) :
    Option Text :=
  if expires ≠ 0 then some (strInt expires)
  else if (lastEntry provider.dateHeader (signedEntries headers.items)).isSome then some []
  else lastEntry "date".toList (signedEntries headers.items)

/-- A prefix of the names that follow those without it. -/
structure IsHeaderPrefix (provider : Provider) : Prop where
  start : ∃ rest, provider.headerPrefix = 'x' :: rest
  date : provider.headerPrefix <+: provider.dateHeader

theorem isHeaderPrefix (keys : HmacKeys) : IsHeaderPrefix keys.provider := by
  obtain ⟨provider, hname⟩ := keys.configured
  rw [hname]
  cases provider with
  | aws => exact ⟨⟨_, rfl⟩, List.prefix_append _ _⟩
  | google => exact ⟨⟨_, rfl⟩, List.prefix_append _ _⟩

theorem IsHeaderPrefix.exists_rest (hstarts : IsHeaderPrefix provider)
    (hname : provider.headerPrefix <+: name) : ∃ rest, name = 'x' :: rest := by
  obtain ⟨rest, hrest⟩ := hstarts.start
  obtain ⟨after, rfl⟩ := hname
  rw [hrest]
  exact ⟨_, rfl⟩

/-- A name with the prefix comes after those without it. -/
theorem IsHeaderPrefix.lt (hstarts : IsHeaderPrefix provider)
    (hname : provider.headerPrefix <+: name) : ∀ plain ∈ plainNames, plain < name := by
  obtain ⟨rest, rfl⟩ := hstarts.exists_rest hname
  intro plain hplain
  rw [plainNames] at hplain
  simp only [List.mem_cons, List.not_mem_nil, or_false] at hplain
  rcases hplain with rfl | rfl | rfl
  · exact List.cons_lt_cons_iff.mpr (.inl (by decide))
  · exact List.cons_lt_cons_iff.mpr (.inl (by decide))
  · exact List.cons_lt_cons_iff.mpr (.inl (by decide))

theorem IsHeaderPrefix.notMem (hstarts : IsHeaderPrefix provider)
    (hname : provider.headerPrefix <+: name) : name ∉ plainNames := by
  intro hplain
  exact List.lt_irrefl name (hstarts.lt hname name hplain)

/-- The values that are signed, before the date. -/
def defaultedHeaders (provider : Provider) (headers : OrderedDict Text Text) :
    OrderedDict Text Text :=
  let interesting := interestingHeaders provider (headers.mapValues .text)
  let interesting :=
    if interesting.contains "content-type".toList then interesting
    else interesting.set "content-type".toList []
  if interesting.contains "content-md5".toList then interesting
  else interesting.set "content-md5".toList []

theorem get?_defaultedHeaders :
    (defaultedHeaders provider headers).get? name =
      if name = "content-md5".toList ∨ name = "content-type".toList then
        some (sentValue name headers)
      else (interestingHeaders provider (headers.mapValues .text)).get? name := by
  rw [defaultedHeaders, get?_default, get?_default, get?_default]
  have hne : "content-md5".toList ≠ "content-type".toList := by decide
  have hinteresting : ∀ key ∈ plainNames,
      ((interestingHeaders provider (headers.mapValues .text)).get? key).getD [] =
        sentValue key headers := by
    intro key hkey
    rw [get?_interestingHeaders, if_pos (Or.inl hkey)]
    rfl
  by_cases hmd5 : name = "content-md5".toList
  · rw [if_pos hmd5, if_pos (Or.inl hmd5), if_neg hne, hmd5, hinteresting _ (by decide)]
  · rw [if_neg hmd5]
    by_cases htype : name = "content-type".toList
    · rw [if_pos htype, if_pos (Or.inr htype), htype, hinteresting _ (by decide)]
    · rw [if_neg htype, if_neg (not_or.mpr ⟨hmd5, htype⟩)]

theorem contains_defaultedHeaders (hstarts : IsHeaderPrefix provider) :
    (defaultedHeaders provider headers).contains provider.dateHeader =
      (lastEntry provider.dateHeader (signedEntries headers.items)).isSome := by
  have hnot := hstarts.notMem hstarts.date
  have hnames : ¬(provider.dateHeader = "content-md5".toList ∨
      provider.dateHeader = "content-type".toList) := by
    rintro (heq | heq)
    · exact hnot (heq ▸ by decide)
    · exact hnot (heq ▸ by decide)
  rw [OrderedDict.contains, get?_defaultedHeaders, if_neg hnames, get?_interestingHeaders,
    if_pos (.inr (List.isPrefixOf_iff_prefix.mpr hstarts.date))]

theorem get?_signedHeaderValues (hstarts : IsHeaderPrefix provider) (expires : ℤ) :
    (signedHeaderValues (headers.mapValues .text) (some expires) provider).get? name =
      if name = "date".toList then signedDate provider headers expires
      else (defaultedHeaders provider headers).get? name := by
  have hvalues : signedHeaderValues (headers.mapValues .text) (some expires) provider =
      let dated :=
        if (defaultedHeaders provider headers).contains provider.dateHeader then
          (defaultedHeaders provider headers).set "date".toList []
        else defaultedHeaders provider headers
      if expires ≠ 0 then dated.set "date".toList (strInt expires) else dated := rfl
  rw [hvalues, contains_defaultedHeaders hstarts, signedDate]
  dsimp only
  by_cases hdate : name = "date".toList
  · subst hdate
    rw [if_pos rfl]
    split
    · rw [OrderedDict.get?_set, if_pos rfl]
    · split
      · rw [OrderedDict.get?_set, if_pos rfl]
      · rw [get?_defaultedHeaders, if_neg (by decide), get?_interestingHeaders,
          if_pos (.inl (by decide))]
  · rw [if_neg hdate]
    split
    · rw [OrderedDict.get?_set, if_neg hdate]
      split
      · rw [OrderedDict.get?_set, if_neg hdate]
      · rfl
    · split
      · rw [OrderedDict.get?_set, if_neg hdate]
      · rfl

/-! ## The lines that are signed -/

/-- The headers with the prefix that are signed. -/
def prefixedHeaders (provider : Provider) (headers : List (Text × Text)) :
    OrderedDict Text Text :=
  ofEntries ((signedEntries headers).filter fun entry =>
    provider.headerPrefix.isPrefixOf entry.1)

theorem get?_prefixedHeaders {headers : List (Text × Text)} :
    (prefixedHeaders provider headers).get? name =
      if provider.headerPrefix.isPrefixOf name = true then lastEntry name (signedEntries headers)
      else none := by
  rw [prefixedHeaders, OrderedDict.get?_ofEntries]
  exact OrderedDict.lastEntry_filter provider.headerPrefix.isPrefixOf

theorem headerPrefix_of_mem {headers : List (Text × Text)}
    (hname : name ∈ (prefixedHeaders provider headers).keys) :
    provider.headerPrefix <+: name := by
  by_contra hnot
  rw [← List.isPrefixOf_iff_prefix] at hnot
  refine OrderedDict.get?_eq_none_iff.mp ?_ hname
  rw [get?_prefixedHeaders, if_neg hnot]

/-- The names that are signed, in their order. -/
def signedNames (provider : Provider) (headers : OrderedDict Text Text) (expires : ℤ) :
    List Text :=
  "content-md5".toList :: "content-type".toList ::
    (((signedDate provider headers expires).toList.map fun _ => "date".toList) ++
      sorted (prefixedHeaders provider headers.items).keys)

theorem mem_signedNames {expires : ℤ} :
    name ∈ signedNames provider headers expires ↔
      name = "content-md5".toList ∨ name = "content-type".toList ∨
        (name = "date".toList ∧ signedDate provider headers expires ≠ none) ∨
          name ∈ (prefixedHeaders provider headers.items).keys := by
  rw [signedNames, List.mem_cons, List.mem_cons, List.mem_append, mem_sorted]
  cases signedDate provider headers expires <;> simp

/-- The names are in their order, without repetition. -/
theorem pairwise_signedNames (hstarts : IsHeaderPrefix provider) (expires : ℤ) :
    (signedNames provider headers expires).Pairwise fun a b => TextLe a b ∧ a ≠ b := by
  have hafter : ∀ plain ∈ plainNames, ∀ name ∈ sorted (prefixedHeaders provider headers.items).keys,
      TextLe plain name ∧ plain ≠ name := by
    intro plain hplain name hname
    have hlt := hstarts.lt (headerPrefix_of_mem (mem_sorted.mp hname)) plain hplain
    exact ⟨TextLe.of_lt hlt, fun heq => List.lt_irrefl name (heq ▸ hlt)⟩
  have hdates : ∀ plain ∈ ["content-md5".toList, "content-type".toList],
      ∀ name ∈ ((signedDate provider headers expires).toList.map fun _ => "date".toList) ++
        sorted (prefixedHeaders provider headers.items).keys,
      TextLe plain name ∧ plain ≠ name := by
    intro plain hplain name hname
    rcases List.mem_append.mp hname with hname | hname
    · obtain ⟨date, -, rfl⟩ := List.mem_map.mp hname
      revert plain
      decide
    · exact hafter plain (List.mem_append_left ["date".toList] hplain) name hname
  have hsorted : (sorted (prefixedHeaders provider headers.items).keys).Pairwise
      fun a b => TextLe a b ∧ a ≠ b :=
    (pairwise_sorted _).and ((sorted_perm _).nodup_iff.mpr (prefixedHeaders provider _).nodup)
  rw [signedNames, List.pairwise_cons, List.pairwise_cons, List.pairwise_append]
  refine ⟨?_, hdates _ (by decide), ?_, hsorted, ?_⟩
  · intro name hname
    rcases List.mem_cons.mp hname with rfl | hname
    · decide
    · exact hdates _ (by decide) name hname
  · cases signedDate provider headers expires with
    | none => exact .nil
    | some date => exact List.pairwise_singleton _ _
  · intro date hdate
    obtain ⟨value, -, rfl⟩ := List.mem_map.mp hdate
    exact hafter _ (by decide)

theorem sorted_signedHeaderValues (hstarts : IsHeaderPrefix provider) (expires : ℤ) :
    sorted (signedHeaderValues (headers.mapValues .text) (some expires) provider).keys =
      signedNames provider headers expires := by
  have hpairwise := @pairwise_signedNames provider headers hstarts expires
  refine (eq_sorted_of_perm ?_ (hpairwise.imp And.left)).symm
  refine (List.perm_ext_iff_of_nodup (hpairwise.imp And.right) (OrderedDict.nodup _)).mpr
    fun name => ?_
  have hkeys : ∀ d : OrderedDict Text Text, name ∈ d.keys ↔ d.get? name ≠ none := fun d =>
    (not_iff_not.mpr OrderedDict.get?_eq_none_iff |>.trans not_not).symm
  rw [mem_signedNames]
  refine Iff.trans ?_ (hkeys _).symm
  rw [hkeys, get?_signedHeaderValues hstarts, get?_defaultedHeaders, get?_interestingHeaders,
    get?_prefixedHeaders]
  by_cases hname : provider.headerPrefix <+: name
  · obtain ⟨hmd5, htype, hdate⟩ : name ≠ "content-md5".toList ∧ name ≠ "content-type".toList ∧
        name ≠ "date".toList := by
      have hnot := hstarts.notMem hname
      rw [plainNames] at hnot
      simpa only [List.mem_cons, List.not_mem_nil, or_false, not_or] using hnot
    have hprefixed := List.isPrefixOf_iff_prefix.mpr hname
    rw [if_neg hdate, if_neg (not_or.mpr ⟨hmd5, htype⟩), if_pos (Or.inr hprefixed),
      if_pos hprefixed]
    simp only [hmd5, htype, hdate, false_and, false_or]
  · rw [← List.isPrefixOf_iff_prefix] at hname
    rw [if_neg hname]
    by_cases hdate : name = "date".toList
    · subst hdate
      rw [if_pos rfl]
      have hmd5 : "date".toList ≠ "content-md5".toList := by decide
      have htype : "date".toList ≠ "content-type".toList := by decide
      simp only [hmd5, htype, true_and, ne_eq, not_true, or_false, false_or]
    · rw [if_neg hdate]
      by_cases hplain : name = "content-md5".toList ∨ name = "content-type".toList
      · rw [if_pos hplain]
        exact iff_of_true (hplain.imp_right .inl) (Option.some_ne_none _)
      · have hinteresting : ¬(name ∈ plainNames ∨ provider.headerPrefix.isPrefixOf name) := by
          rintro (hin | hin)
          · rw [plainNames] at hin
            simp only [List.mem_cons, List.not_mem_nil, or_false] at hin
            rcases hin with heq | heq | heq
            · exact hplain (.inl heq)
            · exact hplain (.inr heq)
            · exact hdate heq
          · exact hname hin
        rw [if_neg hplain, if_neg hinteresting]
        simp only [not_or.mp hplain, hdate, false_and, ne_eq, not_true, or_false]

/-- The line of a value that is signed. -/
def signedLine (provider : Provider) (values : OrderedDict Text Text) (key : Text) : Text :=
  let val := (values.get? key).getD []
  if provider.headerPrefix.isPrefixOf key then key ++ ':' :: val ++ ['\n'] else val ++ ['\n']

/-- The lines that are signed, with a date or without one. -/
def signedLines (provider : Provider) (headers : OrderedDict Text Text) (date : Option Text) :
    Text :=
  sentValue "content-md5".toList headers ++ '\n' ::
    (sentValue "content-type".toList headers ++ '\n' ::
      ((date.toList.flatMap fun date => date ++ ['\n']) ++
        headerLines (prefixedHeaders provider headers.items)))

/-- The value of a name without the prefix stands alone in its line. -/
theorem signedLine_of_plain (hstarts : IsHeaderPrefix provider) {values : OrderedDict Text Text}
    {value : Text} (hname : name ∈ plainNames) (hget : values.get? name = some value) :
    signedLine provider values name = value ++ ['\n'] := by
  have hnot : ¬provider.headerPrefix.isPrefixOf name = true := fun hin =>
    hstarts.notMem (List.isPrefixOf_iff_prefix.mp hin) hname
  rw [signedLine, hget, if_neg hnot]
  rfl

theorem signedLine_of_prefixed (hstarts : IsHeaderPrefix provider) {expires : ℤ}
    (hname : name ∈ (prefixedHeaders provider headers.items).keys) :
    signedLine provider (signedHeaderValues (headers.mapValues .text) (some expires) provider)
        name =
      name ++ ':' :: ((prefixedHeaders provider headers.items).get? name).getD [] ++ ['\n'] := by
  have hin := headerPrefix_of_mem hname
  have hnot := hstarts.notMem hin
  have hdate : name ≠ "date".toList := fun heq => hnot (heq ▸ by decide)
  have hplain : ¬(name = "content-md5".toList ∨ name = "content-type".toList) := by
    rintro (heq | heq)
    · exact hnot (heq ▸ by decide)
    · exact hnot (heq ▸ by decide)
  have hprefixed := List.isPrefixOf_iff_prefix.mpr hin
  rw [signedLine, get?_signedHeaderValues hstarts, if_neg hdate, get?_defaultedHeaders,
    if_neg hplain, get?_interestingHeaders, if_pos (Or.inr hprefixed), if_pos hprefixed,
    get?_prefixedHeaders, if_pos hprefixed]

theorem flatMap_signedLine (hstarts : IsHeaderPrefix provider) (expires : ℤ) :
    (sorted (signedHeaderValues (headers.mapValues .text) (some expires) provider).keys).flatMap
        (signedLine provider
          (signedHeaderValues (headers.mapValues .text) (some expires) provider)) =
      signedLines provider headers (signedDate provider headers expires) := by
  have hget := fun name => @get?_signedHeaderValues provider headers name hstarts expires
  have hmd5 := hget "content-md5".toList
  rw [if_neg (by decide), get?_defaultedHeaders, if_pos (by decide)] at hmd5
  have htype := hget "content-type".toList
  rw [if_neg (by decide), get?_defaultedHeaders, if_pos (by decide)] at htype
  have hdate := hget "date".toList
  rw [if_pos rfl] at hdate
  rw [sorted_signedHeaderValues hstarts, signedNames, List.flatMap_cons, List.flatMap_cons,
    List.flatMap_append, signedLine_of_plain hstarts (by decide) hmd5,
    signedLine_of_plain hstarts (by decide) htype, signedLines, List.append_assoc,
    List.singleton_append, List.append_assoc, List.singleton_append]
  have hlines : (sorted (prefixedHeaders provider headers.items).keys).flatMap
      (signedLine provider
        (signedHeaderValues (headers.mapValues .text) (some expires) provider)) =
      headerLines (prefixedHeaders provider headers.items) := by
    refine List.flatMap_congr fun name hname => ?_
    exact signedLine_of_prefixed hstarts (mem_sorted.mp hname)
  rw [hlines]
  cases hsigned : signedDate provider headers expires with
  | none => rfl
  | some date =>
      rw [hsigned] at hdate
      rw [Option.toList_some, List.map_singleton, List.flatMap_singleton,
        List.flatMap_singleton, signedLine_of_plain hstarts (by decide) hdate]

/-- What is signed for a path with a query. -/
theorem canonicalString_of_query (hstarts : IsHeaderPrefix provider) (method : Text)
    (expires : ℤ) {path query : Text} (hpath : '?' ∉ path) (hquery : '?' ∉ query) :
    canonicalString method (path ++ '?' :: query) (headers.mapValues .text) (some expires)
        provider =
      method ++ '\n' :: signedLines provider headers (signedDate provider headers expires) ++
        (path ++ canonicalQsa query) := by
  have hsplit : (path ++ '?' :: query).splitOn '?' = [path, query] := by
    rw [List.splitOn_append_cons_self, List.splitOn_eq_singleton hpath,
      List.splitOn_eq_singleton hquery]
    rfl
  rw [← flatMap_signedLine hstarts]
  unfold canonicalString
  rw [hsplit]
  rfl

/-- What is signed for a path without a query. -/
theorem canonicalString_of_path (hstarts : IsHeaderPrefix provider) (method : Text)
    (expires : ℤ) {path : Text} (hpath : '?' ∉ path) :
    canonicalString method path (headers.mapValues .text) (some expires) provider =
      method ++ '\n' :: signedLines provider headers (signedDate provider headers expires) ++
        path := by
  rw [← flatMap_signedLine hstarts]
  unfold canonicalString
  rw [List.splitOn_eq_singleton hpath]
  rfl

end

end Boto.S3
