import Boto.Support.PercentEncoding
import Mathlib.Data.List.TakeWhile

/-!
# Splitting URLs

`urlsplit`, `urlparse` and `parse_qsl` of Python's standard library, for text.
-/

namespace Urls

/-! ## Parts of a URL -/

/-- What comes before the first occurrence of a character, and after it if there is
one. -/
def cut (c : Char) (text : List Char) : List Char × Option (List Char) :=
  match text.dropWhile (· ≠ c) with
  | [] => (text, none)
  | _ :: after => (text.takeWhile (· ≠ c), some after)

/-- The parts that `urlsplit` returns. -/
structure SplitResult where
  scheme : List Char
  netloc : List Char
  path : List Char
  query : List Char
  fragment : List Char
  deriving DecidableEq

/-- The characters of a scheme. -/
def isSchemeChar (c : Char) : Bool :=
  c.isAlphanum || ['+', '-', '.'].contains c

/-- The scheme of a URL, and what follows it.  A number after the colon is a port. -/
def splitScheme (url : List Char) : List Char × List Char :=
  match cut ':' url with
  | ([], _) => ([], url)
  | (_, none) => ([], url)
  | (before, some rest) =>
      if before = "http".toList then (before, rest)
      else if before.all isSchemeChar && (rest.isEmpty || !rest.all Char.isDigit) then
        (before.map Char.toLower, rest)
      else ([], url)

/-- What ends a network location. -/
def endsNetloc (c : Char) : Bool :=
  c = '/' || c = '?' || c = '#'

/-- `_splitnetloc`, after the two slashes. -/
def splitNetloc (url : List Char) : List Char × List Char :=
  (url.takeWhile fun c => !endsNetloc c, url.dropWhile fun c => !endsNetloc c)

/-- The network location of a URL without its scheme, and what follows it. -/
def netlocOf : List Char → List Char × List Char
  | '/' :: '/' :: rest => splitNetloc rest
  | url => ([], url)

/-- `urlsplit`, which raises for a bracket that is not matched. -/
def urlsplit (url : List Char) : Option SplitResult :=
  let (scheme, rest) := splitScheme url
  let (netloc, rest) := netlocOf rest
  if netloc.contains '[' = netloc.contains ']' then
    let (rest, fragment) := cut '#' rest
    let (path, query) := cut '?' rest
    some
      { scheme := scheme
        netloc := netloc
        path := path
        query := query.getD []
        fragment := fragment.getD [] }
  else none

/-- The schemes whose paths may have parameters. -/
def usesParams : List (List Char) :=
  ["", "ftp", "hdl", "prospero", "http", "https", "shttp", "rtsp", "rtspu", "sip", "sips",
    "mms", "sftp", "tel"].map String.toList

/-- What comes up to the last slash, and after it. -/
def splitLastSlash (path : List Char) : List Char × List Char :=
  ((path.reverse.dropWhile (· ≠ '/')).reverse, (path.reverse.takeWhile (· ≠ '/')).reverse)

/-- `_splitparams`: the parameters of the last segment of a path. -/
def splitParams (path : List Char) : List Char × List Char :=
  let (directory, segment) := splitLastSlash path
  match cut ';' segment with
  | (_, none) => (path, [])
  | (name, some params) => (directory ++ name, params)

/-- The parts that `urlparse` returns. -/
structure ParseResult extends SplitResult where
  params : List Char
  deriving DecidableEq

/-- `urlparse`. -/
def urlparse (url : List Char) : Option ParseResult :=
  (urlsplit url).map fun result =>
    if usesParams.contains result.scheme then
      let (path, params) := splitParams result.path
      { result with path := path, params := params }
    else { result with params := [] }

/-! ## Paths -/

section

variable {c : Char} {text before after path rest : List Char}

theorem cut_fst (c : Char) (text : List Char) : (cut c text).1 = text.takeWhile (· ≠ c) := by
  rw [cut]
  split
  · rename_i hnil
    rw [List.dropWhile_eq_nil_iff] at hnil
    exact (List.takeWhile_eq_self_iff.mpr hnil).symm
  · rfl

theorem takeWhile_append_cons (hbefore : c ∉ before) (after : List Char) :
    (before ++ c :: after).takeWhile (· ≠ c) = before := by
  rw [List.takeWhile_append_of_pos]
  · simp
  · intro d hd
    exact decide_eq_true fun heq => hbefore (heq ▸ hd)

theorem dropWhile_append_cons (hbefore : c ∉ before) (after : List Char) :
    (before ++ c :: after).dropWhile (· ≠ c) = c :: after := by
  rw [List.dropWhile_append_of_pos]
  · simp
  · intro d hd
    exact decide_eq_true fun heq => hbefore (heq ▸ hd)

theorem cut_append_cons (hbefore : c ∉ before) (after : List Char) :
    cut c (before ++ c :: after) = (before, some after) := by
  rw [cut, dropWhile_append_cons hbefore, takeWhile_append_cons hbefore]

/-- What stands before a mark and after it. -/
theorem append_cons_inj {before' after after' : List Char} (hbefore : c ∉ before)
    (hbefore' : c ∉ before') (heq : before ++ c :: after = before' ++ c :: after') :
    before = before' ∧ after = after' := by
  have hcut := congrArg (cut c) heq
  rw [cut_append_cons hbefore, cut_append_cons hbefore'] at hcut
  obtain ⟨hfirst, hrest⟩ := Prod.mk.inj hcut
  exact ⟨hfirst, Option.some.inj hrest⟩

theorem cut_of_notMem (htext : c ∉ text) : cut c text = (text, none) := by
  have hnil : text.dropWhile (· ≠ c) = [] := by
    rw [List.dropWhile_eq_nil_iff]
    intro d hd
    exact decide_eq_true fun heq => htext (heq ▸ hd)
  rw [cut, hnil]

/-- A path has no scheme. -/
theorem splitScheme_slash (rest : List Char) :
    splitScheme ('/' :: rest) = ([], '/' :: rest) := by
  rw [splitScheme]
  split
  · rfl
  · rfl
  · rename_i before rest' _ heq
    have hbefore := congrArg Prod.fst heq
    rw [cut_fst, List.takeWhile_cons_of_pos (by decide)] at hbefore
    obtain rfl : '/' :: rest.takeWhile (· ≠ ':') = before := hbefore
    rw [if_neg (by simp), if_neg]
    simp [isSchemeChar]

theorem splitLastSlash_append (path : List Char) :
    (splitLastSlash path).1 ++ (splitLastSlash path).2 = path := by
  rw [splitLastSlash, ← List.reverse_append, List.takeWhile_append_dropWhile,
    List.reverse_reverse]

/-- What `urlparse` takes for the path of a text that has no query: it may leave out what
follows a `;` in the last segment, or a `#`. -/
def pathOf (text : List Char) : List Char :=
  (splitParams (text.takeWhile (· ≠ '#'))).1

theorem splitParams_append (path : List Char) :
    ∃ rest, path = (splitParams path).1 ++ rest ∧ (rest = [] ∨ rest.head? = some ';') ∧
      (rest = [] ↔ ';' ∉ (splitLastSlash path).2) := by
  have hsplit := splitLastSlash_append path
  rw [splitParams]
  generalize splitLastSlash path = parts at hsplit ⊢
  obtain ⟨directory, segment⟩ := parts
  dsimp only at hsplit ⊢
  by_cases hin : ';' ∈ segment
  · obtain ⟨name, params, rfl, hname⟩ := List.eq_append_cons_of_mem hin
    rw [cut_append_cons hname]
    refine ⟨';' :: params, ?_, .inr rfl, iff_of_false (by simp) (by simp)⟩
    rw [List.append_assoc]
    exact hsplit.symm
  · rw [cut_of_notMem hin]
    exact ⟨[], by simp, .inl rfl, iff_of_true rfl hin⟩

/-- A text without a query begins with what `urlparse` takes for its path. -/
theorem pathOf_append (text : List Char) :
    ∃ rest, text = pathOf text ++ rest ∧
      (rest = [] ∨ rest.head? = some ';' ∨ rest.head? = some '#') ∧
      (rest = [] ↔ '#' ∉ text ∧ ';' ∉ (splitLastSlash text).2) := by
  rw [pathOf]
  by_cases hin : '#' ∈ text
  · obtain ⟨before, after, rfl, hbefore⟩ := List.eq_append_cons_of_mem hin
    obtain ⟨rest, heq, hrest, -⟩ := splitParams_append before
    rw [takeWhile_append_cons hbefore]
    refine ⟨rest ++ '#' :: after, ?_, ?_, iff_of_false (by simp) (by simp)⟩
    · rw [← List.append_assoc, ← heq]
    · cases rest with
      | nil => exact .inr (.inr rfl)
      | cons d rest =>
          rcases hrest with hnil | hhead
          · cases hnil
          · exact .inr (.inl hhead)
  · obtain ⟨rest, heq, hrest, hiff⟩ := splitParams_append text
    have hall : text.takeWhile (· ≠ '#') = text := by
      rw [← cut_fst, cut_of_notMem hin]
    rw [hall]
    exact ⟨rest, heq, hrest.imp_right .inl, by rw [hiff, and_iff_right hin]⟩

theorem takeWhile_comm (p q : Char → Bool) (text : List Char) :
    (text.takeWhile p).takeWhile q = (text.takeWhile q).takeWhile p := by
  rw [List.takeWhile_takeWhile, List.takeWhile_takeWhile]
  congr 1
  funext c
  simp only [and_comm]

/-- The path that `urlparse` finds in a text that starts with a slash. -/
theorem path_of_urlparse (path : List Char) :
    (urlparse ('/' :: path)).map (fun result => result.path) =
      if (netlocOf ('/' :: path)).1.contains '[' = (netlocOf ('/' :: path)).1.contains ']' then
        some (pathOf ((netlocOf ('/' :: path)).2.takeWhile (· ≠ '?')))
      else none := by
  rw [urlparse, urlsplit, splitScheme_slash]
  dsimp only
  obtain ⟨netloc, rest⟩ := netlocOf ('/' :: path)
  dsimp only
  split
  · rw [cut_fst, cut_fst, takeWhile_comm]
    rfl
  · rfl

theorem netlocOf_of_path (hpath : ¬"//".toList <+: '/' :: path) :
    netlocOf ('/' :: path) = ([], '/' :: path) := by
  cases path with
  | nil => rfl
  | cons d path =>
      rw [netlocOf]
      rintro rest heq
      obtain ⟨rfl, rfl⟩ : d = '/' ∧ path = rest := by simpa using heq
      exact hpath ⟨path, rfl⟩

/-- After two slashes a URL has a network location, and its path is only a part of what
follows. -/
theorem netlocOf_append (path : List Char) :
    ∃ netloc rest, netlocOf ('/' :: '/' :: path) = (netloc, rest) ∧ path = netloc ++ rest ∧
      '?' ∉ netloc ∧ (rest = [] ∨ ∃ d, rest.head? = some d ∧ endsNetloc d = true) := by
  refine ⟨_, _, rfl, (List.takeWhile_append_dropWhile ..).symm, ?_, ?_⟩
  · intro hin
    have hall := List.all_eq_true.mp (@List.all_takeWhile _ (fun c => !endsNetloc c) path) '?' hin
    cases hall
  · cases hdrop : path.dropWhile fun c => !endsNetloc c with
    | nil => exact .inl rfl
    | cons d rest =>
        refine .inr ⟨d, rfl, ?_⟩
        have hhead := List.head?_dropWhile_not (fun c => !endsNetloc c) path
        rw [hdrop] at hhead
        simpa using hhead

end

/-! ## Queries -/

/-- The fields of a query, at `&` and also at `;` unless that is turned off. -/
def fields (semicolons : Bool) (query : List Char) : List (List Char) :=
  query.splitOnP fun c => c = '&' || semicolons && c = ';'

/-- `parse_qsl(query, keep_blank_values=True)`. -/
def parseQsl (semicolons : Bool) (query : List Char) : List (List Char × List Char) :=
  ((fields semicolons query).filter fun field => !field.isEmpty).map fun field =>
    let (name, value) := cut '=' field
    (PercentEncoding.unquotePlus name, PercentEncoding.unquotePlus (value.getD []))

end Urls
