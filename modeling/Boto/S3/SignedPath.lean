import Boto.Auth.S3SigV4
import Boto.S3.CallingFormat
import Boto.Support.Utf8

/-!
# The path that is signed for S3

The canonical URI is found by parsing the path of the request as a URL.  This gives a
meaning to two slashes at its start, to a `#`, and to a `;` in its last segment, which the
path of a request does not have.
-/

namespace Boto.S3

open Auth (HTTPRequest)
open Auth.S3HmacAuthV4Handler (canonicalUri)
open PercentEncoding (unquote)
open Urls (splitLastSlash pathOf)

/-! ## Paths of requests -/

/-- The path part of a request line. -/
def pathPart (target : Text) : Text :=
  target.takeWhile (· ≠ '?')

/-- What a service takes for the canonical URI of a request line. -/
def servedUri (target : Text) : Text :=
  Auth.quote "/~" (unquote (pathPart target))

/-- A path that means the same to a parser of URLs. -/
structure IsPlainPath (target : Text) : Prop where
  slashes : ¬"//".toList <+: target
  fragment : '#' ∉ pathPart target
  params : ';' ∉ (splitLastSlash (pathPart target)).2

theorem quote_injective : Function.Injective (Auth.quote "/~") := by
  intro text other heq
  have hread : ∀ text, unquote (Auth.quote "/~" text) = text :=
    PercentEncoding.unquote_quote (PercentEncoding.forall_ascii (by decide)) (by decide)
  rw [← hread text, heq, hread]

/-- Text that goes on after an ASCII mark is longer when it is unquoted. -/
theorem length_unquote_append {text rest : Text}
    (hrest : rest = [] ∨ rest.head? = some ';' ∨ rest.head? = some '#') :
    (unquote text).length ≤ (unquote (text ++ rest)).length ∧
      (rest ≠ [] → (unquote text).length < (unquote (text ++ rest)).length) := by
  have hmark : ∀ d after, d = ';' ∨ d = '#' →
      (unquote text).length < (unquote (text ++ d :: after)).length := by
    intro d after hd
    rw [PercentEncoding.unquote_append_cons
      (by rcases hd with rfl | rfl <;> decide) (by rcases hd with rfl | rfl <;> decide)
      (by rcases hd with rfl | rfl <;> decide), List.length_append, List.length_cons]
    omega
  cases rest with
  | nil => exact ⟨by rw [List.append_nil], fun hne => absurd rfl hne⟩
  | cons d after =>
      have hd : d = ';' ∨ d = '#' := by simpa using hrest
      exact ⟨(hmark d after hd).le, fun _ => hmark d after hd⟩

theorem unquote_slash (text : Text) : unquote ('/' :: text) = '/' :: unquote text :=
  PercentEncoding.unquote_append_cons (by decide) (by decide) (by decide) [] text

theorem canonicalUri_of_some {req : HTTPRequest} {path : Text}
    (hparse : (Urls.urlparse req.path).map (fun result => result.path) = some path) :
    canonicalUri req = .ok (Auth.quote "/~" (unquote path)) := by
  obtain ⟨result, hresult, rfl⟩ := Option.map_eq_some_iff.mp hparse
  rw [canonicalUri, Auth.S3HmacAuthV4Handler.urlparse, hresult]
  rfl

theorem canonicalUri_of_none {req : HTTPRequest}
    (hparse : (Urls.urlparse req.path).map (fun result => result.path) = none) :
    canonicalUri req = .error .valueError := by
  rw [Option.map_eq_none_iff] at hparse
  rw [canonicalUri, Auth.S3HmacAuthV4Handler.urlparse, hparse]
  rfl

/-- A path without a network location is signed as it is served, unless something is
taken for a fragment or for parameters. -/
theorem canonicalUri_of_path {req : HTTPRequest} {path : Text}
    (hpath : req.path = '/' :: path) (hslashes : ¬"//".toList <+: req.path) :
    canonicalUri req = .ok (servedUri req.path) ↔
      '#' ∉ pathPart req.path ∧ ';' ∉ (splitLastSlash (pathPart req.path)).2 := by
  have hparse : (Urls.urlparse req.path).map (fun result => result.path) =
      some (pathOf (pathPart req.path)) := by
    rw [hpath] at hslashes ⊢
    rw [Urls.path_of_urlparse, Urls.netlocOf_of_path hslashes]
    rfl
  obtain ⟨rest, heq, hrest, hiff⟩ := Urls.pathOf_append (pathPart req.path)
  rw [canonicalUri_of_some hparse, servedUri, ← hiff, Except.ok.injEq,
    quote_injective.eq_iff]
  constructor
  · intro hsame
    by_contra hne
    have hlonger := (@length_unquote_append (pathOf (pathPart req.path)) _ hrest).2 hne
    rw [← heq, ← hsame] at hlonger
    omega
  · rintro rfl
    rw [List.append_nil] at heq
    rw [← heq]

theorem unquote_netloc_append (netloc rest : Text)
    (hrest : rest = [] ∨ ∃ d, rest.head? = some d ∧ Urls.endsNetloc d = true) :
    (unquote (pathOf rest)).length ≤ (unquote (netloc ++ rest)).length := by
  obtain ⟨after, heq, hafter, -⟩ := Urls.pathOf_append rest
  cases hpath : pathOf rest with
  | nil => exact Nat.zero_le _
  | cons d path =>
      rw [hpath, List.cons_append] at heq
      have hd : Urls.endsNetloc d = true := by
        rw [heq] at hrest
        simpa using hrest
      have hmark : d.toNat < 128 ∧ d ≠ '%' ∧ PercentEncoding.hexValue d = none := by
        rw [Urls.endsNetloc, Bool.or_eq_true, Bool.or_eq_true, decide_eq_true_eq,
          decide_eq_true_eq, decide_eq_true_eq] at hd
        rcases hd with (rfl | rfl) | rfl <;> decide
      obtain ⟨hascii, hpercent, hhex⟩ := hmark
      have hlonger := (@length_unquote_append path after hafter).1
      have hfirst := PercentEncoding.unquote_append_cons hascii hpercent hhex [] path
      rw [List.nil_append] at hfirst
      rw [heq, PercentEncoding.unquote_append_cons hascii hpercent hhex, hfirst]
      simp only [List.length_append, List.length_cons]
      have hnil : (unquote []).length = 0 := rfl
      omega

/-- What follows two slashes is signed without the network location. -/
theorem canonicalUri_of_slashes {req : HTTPRequest} (hslashes : "//".toList <+: req.path) :
    canonicalUri req ≠ .ok (servedUri req.path) := by
  obtain ⟨path, hpath⟩ := hslashes
  change '/' :: '/' :: path = req.path at hpath
  obtain ⟨netloc, rest, hnetloc, rfl, hquery, hrest⟩ := Urls.netlocOf_append path
  have hparse := Urls.path_of_urlparse ('/' :: (netloc ++ rest))
  rw [hnetloc, hpath] at hparse
  split at hparse
  · rw [canonicalUri_of_some hparse, servedUri, ne_eq, Except.ok.injEq,
      quote_injective.eq_iff]
    intro hsame
    have hpart : pathPart req.path =
        '/' :: '/' :: (netloc ++ rest.takeWhile (· ≠ '?')) := by
      have hnetloc' : ∀ c ∈ netloc, decide (c ≠ '?') = true := fun c hc =>
        decide_eq_true fun heq => hquery (heq ▸ hc)
      rw [← hpath, pathPart, List.takeWhile_cons_of_pos (by decide),
        List.takeWhile_cons_of_pos (by decide), List.takeWhile_append_of_pos hnetloc']
    rw [hpart, unquote_slash, unquote_slash] at hsame
    have hshort := unquote_netloc_append netloc (rest.takeWhile (· ≠ '?')) (by
      cases rest with
      | nil => exact .inl rfl
      | cons d rest =>
          rw [List.takeWhile_cons]
          split
          · exact .inr (by simpa using hrest)
          · exact .inl rfl)
    rw [hsame] at hshort
    simp only [List.length_cons] at hshort
    omega
  · rw [canonicalUri_of_none hparse]
    intro heq
    cases heq

theorem canonicalUri_eq_iff {req : HTTPRequest} {path : Text}
    (hpath : req.path = '/' :: path) :
    canonicalUri req = .ok (servedUri req.path) ↔ IsPlainPath req.path := by
  by_cases hslashes : "//".toList <+: req.path
  · exact iff_of_false (canonicalUri_of_slashes hslashes) fun hplain =>
      hplain.slashes hslashes
  · rw [canonicalUri_of_path hpath hslashes]
    exact ⟨fun h => ⟨hslashes, h.1, h.2⟩, fun h => ⟨h.fragment, h.params⟩⟩

/-! ## Paths of keys -/

/-- The last segment of a path. -/
def lastSegment (path : Text) : Text :=
  (splitLastSlash path).2

theorem lastSegment_append (directory path : Text) :
    lastSegment (directory ++ '/' :: path) = lastSegment path := by
  rw [lastSegment, lastSegment, splitLastSlash, splitLastSlash]
  dsimp only
  rw [List.reverse_append, List.reverse_cons, List.append_assoc, List.takeWhile_append]
  split
  · rename_i hlength
    have heq := (List.takeWhile_sublist (· ≠ '/')).eq_of_length hlength
    rw [heq]
    simp
  · rfl

theorem lastSegment_of_notMem {path : Text} (hpath : '/' ∉ path) :
    lastSegment path = path := by
  have hall : path.reverse.takeWhile (· ≠ '/') = path.reverse := by
    rw [List.takeWhile_eq_self_iff]
    intro c hc
    exact decide_eq_true fun heq => hpath (heq ▸ List.mem_reverse.mp hc)
  rw [lastSegment, splitLastSlash, hall, List.reverse_reverse]

theorem mem_of_mem_lastSegment {path : Text} {c : Char} (hc : c ∈ lastSegment path) :
    c ∈ path := by
  rw [← Urls.splitLastSlash_append path]
  exact List.mem_append_right _ hc

theorem slash_notMem_lastSegment (path : Text) : '/' ∉ lastSegment path := by
  intro hin
  have hin := List.mem_reverse.mp hin
  have hall := List.all_eq_true.mp List.all_takeWhile '/' hin
  exact of_decide_eq_true hall rfl

/-- A path that starts with a slash is what comes before its last segment. -/
theorem exists_directory (path : Text) :
    ∃ directory, '/' :: path = directory ++ '/' :: lastSegment path := by
  have hsplit := Urls.splitLastSlash_append path
  have hdirectory : (splitLastSlash path).1 = [] ∨
      ∃ directory, (splitLastSlash path).1 = directory ++ ['/'] := by
    rw [splitLastSlash]
    dsimp only
    cases hdrop : path.reverse.dropWhile (· ≠ '/') with
    | nil => exact .inl rfl
    | cons d rest =>
        have hhead := List.head?_dropWhile_not (· ≠ '/') path.reverse
        rw [hdrop] at hhead
        have hd : d = '/' := by simpa using hhead
        exact .inr ⟨rest.reverse, by rw [hd, List.reverse_cons]⟩
  rcases hdirectory with hnil | ⟨directory, hdirectory⟩
  · rw [hnil, List.nil_append] at hsplit
    exact ⟨[], by rw [lastSegment, hsplit, List.nil_append]⟩
  · refine ⟨'/' :: directory, ?_⟩
    rw [hdirectory, List.append_assoc] at hsplit
    rw [lastSegment, List.cons_append]
    exact congrArg _ hsplit.symm

theorem mem_pathElements {path element : Text} (helement : element ∈ pathElements path) :
    element ≠ [] ∧ '/' ∉ element := by
  obtain ⟨hsplit, hne⟩ := List.mem_filter.mp helement
  refine ⟨?_, notMem_of_mem_splitOn hsplit⟩
  rintro rfl
  cases hne

theorem mem_join_pathElements {path : Text} {c : Char} (hc : c ≠ '/') :
    c ∈ join '/' (pathElements path) ↔ c ∈ path := by
  constructor
  · intro hin
    obtain ⟨element, helement, hin⟩ := mem_of_mem_join hin hc
    rw [← @List.intercalate_splitOn _ path _ _ '/']
    exact mem_join_of_mem (List.mem_of_mem_filter helement) hin
  · intro hin
    obtain ⟨element, helement, hin⟩ := exists_mem_splitOn hin hc
    refine mem_join_of_mem (List.mem_filter.mpr ⟨helement, ?_⟩) hin
    cases element with
    | nil => cases hin
    | cons d element => rfl

theorem pathElements_append_slash (directory path : Text) :
    pathElements (directory ++ '/' :: path) = pathElements directory ++ pathElements path := by
  rw [pathElements, pathElements, pathElements, List.splitOn_append_cons_self,
    List.filter_append]

theorem getLast?_of_pathElements {path : Text} (helements : pathElements path = []) :
    ('/' :: path).getLast? = some '/' := by
  obtain ⟨c, hlast⟩ : ∃ c, ('/' :: path).getLast? = some c :=
    ⟨_, List.getLast?_eq_some_getLast (List.cons_ne_nil _ _)⟩
  rw [hlast]
  by_contra hne
  have hc : c ≠ '/' := fun heq => hne (congrArg some heq)
  have hin : c ∈ path := by
    have hin := List.mem_of_getLast? hlast
    simpa [hc] using hin
  rw [← mem_join_pathElements hc, helements] at hin
  cases hin

theorem pathElements_append {directory segment : Text} (hsegment : '/' ∉ segment) :
    pathElements (directory ++ '/' :: segment) =
      pathElements directory ++ if segment = [] then [] else [segment] := by
  rw [pathElements, pathElements, List.splitOn_append_cons_self, List.filter_append,
    List.splitOn_eq_singleton hsegment]
  cases segment <;> rfl

/-- The path without consecutive slashes. -/
def suppressed (path : Text) : Text :=
  let suppressed := '/' :: join '/' (pathElements path)
  if suppressed.getLast? ≠ some '/' ∧ path.getLast? = some '/' then suppressed ++ ['/']
  else suppressed

theorem mem_suppressed {path : Text} {c : Char} (hc : c ≠ '/') :
    c ∈ suppressed path ↔ c ∈ path := by
  rw [suppressed]
  split <;> simp [hc, mem_join_pathElements hc]

theorem lastSegment_suppressed (path : Text) :
    lastSegment (suppressed ('/' :: path)) = lastSegment path := by
  obtain ⟨directory, heq⟩ := exists_directory path
  have hslash := slash_notMem_lastSegment path
  rw [suppressed, heq, pathElements_append hslash]
  by_cases hempty : lastSegment path = []
  · rw [hempty, if_pos rfl, List.append_nil]
    split
    · exact lastSegment_append _ []
    · rename_i hlast
      have hlast : ('/' :: join '/' (pathElements directory)).getLast? = some '/' := by
        by_contra hne
        exact hlast ⟨hne, by simp⟩
      obtain ⟨before, hbefore⟩ := List.getLast?_eq_some_iff.mp hlast
      rw [hbefore]
      exact lastSegment_append before []
  · rw [if_neg hempty]
    have hlast : (directory ++ '/' :: lastSegment path).getLast? ≠ some '/' := by
      intro hlast
      obtain ⟨last, hsome⟩ : ∃ last, (lastSegment path).getLast? = some last :=
        ⟨_, List.getLast?_eq_some_getLast hempty⟩
      rw [List.getLast?_append, List.getLast?_cons, hsome] at hlast
      obtain rfl : last = '/' := by simpa using hlast
      exact hslash (List.mem_of_getLast? hsome)
    rw [if_neg fun h => hlast h.2]
    by_cases hfirst : pathElements directory = []
    · rw [hfirst, List.nil_append]
      change lastSegment ([] ++ '/' :: join '/' [lastSegment path]) = _
      rw [lastSegment_append, join, List.intercalate_singleton, lastSegment_of_notMem hslash]
    · rw [join_append_singleton hfirst, ← List.cons_append, lastSegment_append,
        lastSegment_of_notMem hslash]

theorem head?_join_pathElements (path : Text) :
    (join '/' (pathElements path)).head? ≠ some '/' := by
  cases helements : pathElements path with
  | nil => simp [join]
  | cons element elements =>
      obtain ⟨hne, hslash⟩ := mem_pathElements (helements ▸ List.mem_cons_self)
      obtain ⟨c, rest, rfl⟩ := List.exists_cons_of_ne_nil hne
      have hc : c ≠ '/' := fun heq => hslash (heq ▸ List.mem_cons_self)
      by_cases hempty : elements = []
      · subst hempty
        simpa [join] using hc
      · rw [join_cons_of_ne_nil hempty]
        simpa using hc

theorem slashes_suppressed {path rest : Text} (hrest : rest.head? ≠ some '/') :
    ¬"//".toList <+: suppressed path ++ rest := by
  have hhead := head?_join_pathElements path
  rintro ⟨after, heq⟩
  change '/' :: '/' :: after = suppressed path ++ rest at heq
  rw [suppressed] at heq
  cases hjoin : join '/' (pathElements path) with
  | nil =>
      rw [hjoin, if_neg (by simp)] at heq
      have hrest' : '/' :: after = rest := (List.cons.inj heq).2
      exact hrest (hrest' ▸ rfl)
  | cons c text =>
      rw [hjoin] at hhead heq
      split at heq <;> exact hhead (congrArg List.head? (List.cons.inj heq).2).symm

/-- The path of a request is the joined path, with the query if there is one. -/
theorem getPath_suppressed (path : Text) :
    getPath ['/'] true path = suppressed (pathPart path) ++ path.dropWhile (· ≠ '?') := rfl

/-! ## Requests for keys -/

/-- What follows the first slash of a path. -/
def afterSlash (format : CallingFormat) (bucket key : Text) : Text :=
  if format.isOrdinary ∧ bucket ≠ [] then bucket ++ '/' :: Auth.quote "/" key
  else Auth.quote "/" key

theorem buildPathBase_eq (format : CallingFormat) (bucket key : Text) :
    format.buildPathBase bucket key = '/' :: afterSlash format bucket key := by
  rw [CallingFormat.buildPathBase, afterSlash]
  cases format.isOrdinary
  · rfl
  · by_cases hbucket : bucket = [] <;> simp [hbucket]

/-- The condition under which the path for a key is signed as it is served. -/
structure IsPlainRequest (format : CallingFormat) (suppressConsecSlashes : Bool)
    (bucket key : Text) : Prop where
  leading : suppressConsecSlashes = false →
    (if format.isOrdinary ∧ bucket ≠ [] then bucket else key).head? ≠ some '/'
  fragment : format.isOrdinary = true → '#' ∉ pathPart bucket
  params : format.isOrdinary = true → '?' ∈ bucket → ';' ∉ lastSegment (pathPart bucket)

theorem notMem_quote {c : Char} (hc : c ∈ ['?', '#', ';']) (text : Text) :
    c ∉ Auth.quote "/" text := by
  intro hin
  have hmarks : c ∉ "/".toList ∧ c.isAlphanum = false ∧ c ∉ ['_', '.', '-', '~', '%'] := by
    simp only [List.mem_cons, List.not_mem_nil, or_false] at hc
    rcases hc with rfl | rfl | rfl <;> decide
  obtain ⟨hsafe, halnum, hmark⟩ := hmarks
  rcases PercentEncoding.mem_quote hin with hin | hquoted
  · exact hsafe hin
  · rcases hquoted with hquoted | hquoted
    · rw [halnum] at hquoted
      cases hquoted
    · exact hmark hquoted

theorem head?_quote (key : Text) :
    (Auth.quote "/" key).head? = some '/' ↔ key.head? = some '/' := by
  constructor
  · intro hhead
    obtain ⟨rest, heq⟩ := List.head?_eq_some_iff.mp hhead
    have hread : unquote (Auth.quote "/" key) = key :=
      PercentEncoding.unquote_quote
        (PercentEncoding.forall_ascii (by decide)) (by decide) key
    rw [heq, unquote_slash] at hread
    rw [← hread]
    rfl
  · intro hhead
    obtain ⟨rest, rfl⟩ := List.head?_eq_some_iff.mp hhead
    rfl

theorem head?_afterSlash (format : CallingFormat) (bucket key : Text) :
    (afterSlash format bucket key).head? = some '/' ↔
      (if format.isOrdinary ∧ bucket ≠ [] then bucket else key).head? = some '/' := by
  rw [afterSlash]
  split
  · rename_i h
    obtain ⟨c, bucket, rfl⟩ := List.exists_cons_of_ne_nil h.2
    rfl
  · exact head?_quote key

theorem pathPart_of_notMem {path : Text} (hpath : '?' ∉ path) : pathPart path = path := by
  rw [pathPart, ← Urls.cut_fst, Urls.cut_of_notMem hpath]

theorem pathPart_append {before : Text} (hbefore : '?' ∈ before) (after : Text) :
    pathPart (before ++ after) = pathPart before := by
  obtain ⟨front, back, rfl, hfront⟩ := List.eq_append_cons_of_mem hbefore
  rw [pathPart, pathPart, List.append_assoc, List.cons_append,
    Urls.takeWhile_append_cons hfront, Urls.takeWhile_append_cons hfront]

/-- Where a URL parser would find something else in the path of a key. -/
theorem plain_afterSlash (format : CallingFormat) (bucket key : Text) :
    ('#' ∉ pathPart (afterSlash format bucket key) ∧
      ';' ∉ lastSegment (pathPart (afterSlash format bucket key))) ↔
    (format.isOrdinary = true → '#' ∉ pathPart bucket) ∧
      (format.isOrdinary = true → '?' ∈ bucket → ';' ∉ lastSegment (pathPart bucket)) := by
  have hquery := @notMem_quote '?' (by simp) key
  have hfragment := @notMem_quote '#' (by simp) key
  have hparams := @notMem_quote ';' (by simp) key
  rw [afterSlash]
  split
  · rename_i h
    by_cases hin : '?' ∈ bucket
    · rw [pathPart_append hin]
      simp [h.1, hin]
    · rw [pathPart_of_notMem hin, pathPart_of_notMem (by simp [hin, hquery]),
        lastSegment_append]
      have hlast : ';' ∉ lastSegment (Auth.quote "/" key) := fun hin =>
        hparams (mem_of_mem_lastSegment hin)
      simp [h.1, hin, hfragment, hlast]
  · rename_i h
    rw [pathPart_of_notMem hquery]
    refine iff_of_true ⟨hfragment, fun hin => hparams (mem_of_mem_lastSegment hin)⟩ ?_
    have hbucket : format.isOrdinary = true → bucket = [] := fun hordinary => by
      by_contra hne
      exact h ⟨hordinary, hne⟩
    refine ⟨fun hordinary => ?_, fun hordinary hin => ?_⟩
    · rw [hbucket hordinary]
      exact List.not_mem_nil
    · rw [hbucket hordinary] at hin
      cases hin

theorem dropWhile_query (path : Text) :
    path.dropWhile (· ≠ '?') = [] ∨ ∃ rest, path.dropWhile (· ≠ '?') = '?' :: rest := by
  cases hdrop : path.dropWhile (· ≠ '?') with
  | nil => exact .inl rfl
  | cons d rest =>
      have hhead := List.head?_dropWhile_not (· ≠ '?') path
      rw [hdrop] at hhead
      have hd : d = '?' := by simpa using hhead
      exact .inr ⟨rest, by rw [hd]⟩

theorem query_notMem_pathPart (path : Text) : '?' ∉ pathPart path := by
  intro hin
  have hall := List.all_eq_true.mp List.all_takeWhile '?' hin
  exact of_decide_eq_true hall rfl

/-- The path part of a joined path. -/
theorem pathPart_getPath (path : Text) :
    pathPart (getPath ['/'] true path) = suppressed (pathPart path) := by
  have hquery : '?' ∉ suppressed (pathPart path) := by
    rw [mem_suppressed (by decide)]
    exact query_notMem_pathPart path
  rw [getPath_suppressed]
  rcases dropWhile_query path with hnil | ⟨rest, hrest⟩
  · rw [hnil, List.append_nil, pathPart_of_notMem hquery]
  · rw [hrest, pathPart, Urls.takeWhile_append_cons hquery]

/-- The path of a request for a key is plain under the condition on the key. -/
theorem isPlainPath_iff (format : CallingFormat) (suppressConsecSlashes : Bool)
    (bucket key : Text) :
    IsPlainPath (getPath ['/'] suppressConsecSlashes (format.buildPathBase bucket key)) ↔
      IsPlainRequest format suppressConsecSlashes bucket key := by
  have hplain := plain_afterSlash format bucket key
  have hleading := head?_afterSlash format bucket key
  rw [buildPathBase_eq]
  generalize afterSlash format bucket key = path at hplain hleading ⊢
  have hpart : pathPart ('/' :: path) = '/' :: pathPart path :=
    List.takeWhile_cons_of_pos (by decide)
  have hlast : lastSegment ('/' :: pathPart path) = lastSegment (pathPart path) :=
    lastSegment_append [] (pathPart path)
  have hmem : '#' ∈ '/' :: pathPart path ↔ '#' ∈ pathPart path := by simp
  cases suppressConsecSlashes with
  | true =>
      have hrest : (('/' :: path).dropWhile (· ≠ '?')).head? ≠ some '/' := by
        rcases dropWhile_query ('/' :: path) with hnil | ⟨rest, hrest⟩
        · rw [hnil]
          exact fun heq => nomatch heq
        · rw [hrest]
          exact fun heq => absurd (Option.some.inj heq) (by decide)
      have hslashes : ¬"//".toList <+: getPath ['/'] true ('/' :: path) :=
        slashes_suppressed hrest
      have hpath := pathPart_getPath ('/' :: path)
      rw [hpart] at hpath
      constructor
      · rintro ⟨-, hfragment, hparams⟩
        change ';' ∉ lastSegment _ at hparams
        rw [hpath, mem_suppressed (by decide), hmem] at hfragment
        rw [hpath, lastSegment_suppressed] at hparams
        obtain ⟨hfragment, hparams⟩ := hplain.mp ⟨hfragment, hparams⟩
        exact ⟨fun h => absurd h (by decide), hfragment, hparams⟩
      · rintro ⟨-, hfragment, hparams⟩
        obtain ⟨hfragment, hparams⟩ := hplain.mpr ⟨hfragment, hparams⟩
        refine ⟨hslashes, ?_, ?_⟩
        · rw [hpath, mem_suppressed (by decide), hmem]
          exact hfragment
        · change ';' ∉ lastSegment _
          rw [hpath, lastSegment_suppressed]
          exact hparams
  | false =>
      have hslashes : "//".toList <+: '/' :: path ↔ path.head? = some '/' := by
        cases path with
        | nil => decide
        | cons d path => simp [List.cons_prefix_cons, eq_comm]
      change IsPlainPath ('/' :: path) ↔ _
      constructor
      · rintro ⟨hfirst, hfragment, hparams⟩
        change ';' ∉ lastSegment _ at hparams
        rw [hpart, hmem] at hfragment
        rw [hpart, hlast] at hparams
        obtain ⟨hfragment, hparams⟩ := hplain.mp ⟨hfragment, hparams⟩
        rw [hslashes, hleading] at hfirst
        exact ⟨fun _ => hfirst, hfragment, hparams⟩
      · rintro ⟨hfirst, hfragment, hparams⟩
        obtain ⟨hfragment, hparams⟩ := hplain.mpr ⟨hfragment, hparams⟩
        refine ⟨by rw [hslashes, hleading]; exact hfirst rfl, ?_, ?_⟩
        · rw [hpart, hmem]
          exact hfragment
        · change ';' ∉ lastSegment _
          rw [hpart, hlast]
          exact hparams

/-- The path that is signed for a key is the one that is served exactly when the key and
the bucket are plain. -/
theorem canonicalUri_getPath_iff {format : CallingFormat} {suppressConsecSlashes : Bool}
    {bucket key : Text} {req : HTTPRequest}
    (hpath : req.path = getPath ['/'] suppressConsecSlashes (format.buildPathBase bucket key)) :
    canonicalUri req = .ok (servedUri req.path) ↔
      IsPlainRequest format suppressConsecSlashes bucket key := by
  have hslash : ∃ path, req.path = '/' :: path := by
    rw [hpath]
    cases suppressConsecSlashes with
    | true =>
        rw [getPath_suppressed, suppressed]
        split <;> exact ⟨_, rfl⟩
    | false =>
        rw [buildPathBase_eq]
        exact ⟨_, rfl⟩
  obtain ⟨path, hslash⟩ := hslash
  rw [canonicalUri_eq_iff hslash, hpath, isPlainPath_iff]

/-- A request for a key of a bucket `b`. -/
def keyRequest (format : CallingFormat) (suppressConsecSlashes : Bool) (key : Text) :
    HTTPRequest :=
  .init "GET".toList "https".toList "h".toList 443
    (getPath ['/'] suppressConsecSlashes (format.buildPathBase ['b'] key)) none .empty
    .empty (.text [])

theorem canonicalUri_getPath_key :
    canonicalUri (keyRequest .subdomain true "/k~ ;".toList) =
      .ok (servedUri (keyRequest .subdomain true "/k~ ;".toList).path) :=
  (@canonicalUri_getPath_iff .subdomain true ['b'] "/k~ ;".toList
    (keyRequest .subdomain true "/k~ ;".toList) rfl).mpr
      ⟨by decide +kernel, by decide +kernel, by decide +kernel⟩

/-- A key that starts with a slash is signed as the empty path. -/
theorem canonicalUri_getPath_ne :
    ¬∀ (format : CallingFormat) (suppressConsecSlashes : Bool) (bucket key : Text)
      (req : HTTPRequest), format ∈ [.subdomain, .vhost, .ordinary] →
      req.path = getPath ['/'] suppressConsecSlashes (format.buildPathBase bucket key) →
      canonicalUri req = .ok (servedUri req.path) := by
  intro hclaim
  have hsame := hclaim .subdomain false ['b'] "/k".toList
    (keyRequest .subdomain false "/k".toList) (by decide) rfl
  exact canonicalUri_of_slashes (by decide +kernel) hsame

end Boto.S3
