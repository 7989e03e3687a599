import Boto.Support.GreedyMatch
import Boto.TextMethods
import Boto.Numerals
import Mathlib.Data.List.TakeWhile

/-!
# Storage URIs

`storage_uri` and `storage_uri_for_key` of `boto/__init__.py` and the strings of `BucketStorageUri`
in `boto/storage_uri.py`.  A version or a generation is split off by a regular expression, whose
dot stands for everything but a newline, so that it sees one line of the path only.
-/

namespace Boto.StorageUris

open GreedyMatch

/-! ## Regular expressions -/

/-- `$`, the end or a newline at the end. -/
def atEnd (rest : Text) : Option Unit :=
  if rest = [] ∨ rest = ['\n'] then some () else none

/-- `.` -/
def isDot (c : Char) : Bool := decide (c ≠ '\n')

/-- `[0-9]` -/
def isDigit (c : Char) : Bool := c.isDigit

/-- `(.+)#(p+)$` from its start. -/
def markedAt (p : Char → Bool) (text : Text) : Option (Text × Text) :=
  (greedyOne isDot (after '#' (greedyOne p atEnd)) text).map fun found => (found.1, found.2.1)

/-- `GENERATION_RE.search`. -/
def generationRe : Text → Option (Text × Text) := search (markedAt isDigit)

/-- `VERSION_RE.search`. -/
def versionRe : Text → Option (Text × Text) := search (markedAt isDot)

/-- `[a-zA-Z0-9]` -/
def isAlphanumeric (c : Char) : Bool :=
  ('a' ≤ c && c ≤ 'z') || ('A' ≤ c && c ≤ 'Z') || ('0' ≤ c && c ≤ '9')

/-- `BUCKET_NAME_RE.match`, where a newline at the end does not count. -/
def bucketNameRe (name : Text) : Bool :=
  let name := if name.getLast? = some '\n' then name.dropLast else name
  decide (3 ≤ name.length) && decide (name.length ≤ 255) &&
    (name.all fun c => isAlphanumeric c || c = '.' || c = '_' || c = '-') &&
      name.head?.any isAlphanumeric && name.getLast?.any isAlphanumeric

/-- `TOO_LONG_DNS_NAME_COMP.search`. -/
def tooLongDnsNameComp (name : Text) : Bool :=
  name.tails.any fun rest => decide (64 ≤ (rest.takeWhile fun c =>
    c = '-' || c = '_' || ('a' ≤ c && c ≤ 'z') || ('0' ≤ c && c ≤ '9')).length)

/-! ## URIs -/

/-- The schemes that are recognized. -/
inductive Scheme
  | file
  | s3
  | gs
  deriving DecidableEq

namespace Scheme

/-- The scheme as it is written. -/
def name : Scheme → Text
  | .file => "file".toList
  | .s3 => "s3".toList
  | .gs => "gs".toList

/-- The scheme that is written. -/
def ofName? (name : Text) : Option Scheme :=
  if name = "file".toList then some .file
  else if name = "s3".toList then some .s3
  else if name = "gs".toList then some .gs
  else none

end Scheme

/-- `BucketStorageUri`. -/
structure BucketStorageUri where
  scheme : Scheme
  bucketName : Text
  objectName : Text
  versionId : Option Text
  generation : Option ℕ
  deriving DecidableEq

namespace BucketStorageUri

variable (self : BucketStorageUri)

/-- `is_version_specific`. -/
def isVersionSpecific : Bool :=
  self.generation.any (· ≠ 0) || self.versionId.any (· ≠ [])

/-- `versionless_uri`. -/
def versionlessUri : Text :=
  self.scheme.name ++ "://".toList ++ self.bucketName ++ '/' :: self.objectName

/-- `version_specific_uri`, which is only there if there is a generation or a version. -/
def versionSpecificUri : Option Text :=
  match self.generation.filter (· ≠ 0) with
  | some generation => some (self.versionlessUri ++ '#' :: decimal generation)
  | none =>
      (self.versionId.filter (· ≠ [])).map fun versionId => self.versionlessUri ++ '#' :: versionId

/-- `uri`, as `_build_uri_strings` sets it. -/
def uri : Text :=
  if self.bucketName ≠ [] ∧ self.objectName ≠ [] then
    if self.isVersionSpecific then self.versionSpecificUri.getD [] else self.versionlessUri
  else if self.bucketName ≠ [] then
    self.scheme.name ++ "://".toList ++ self.bucketName ++ ['/']
  else self.scheme.name ++ "://".toList

end BucketStorageUri

/-- What `storage_uri` gives. -/
inductive StorageUri
  | file (objectName : Text) (stream : Bool)
  | bucket (uri : BucketStorageUri)
  deriving DecidableEq

/-- `InvalidUriError`. -/
structure InvalidUriError where
  message : Text
  deriving DecidableEq

/-- The text before the first `://`, and the text behind it. -/
def splitScheme : Text → Option (Text × Text)
  | [] => none
  | c :: rest =>
      if "://".toList <+: c :: rest then some ([], (c :: rest).drop 3)
      else (splitScheme rest).map fun found => (c :: found.1, found.2)

/-- `path.split('/', 1)`. -/
def splitSlash (path : Text) : Text × Option Text :=
  match path.dropWhile (· ≠ '/') with
  | [] => (path, none)
  | _ :: rest => (path.takeWhile (· ≠ '/'), some rest)

/-- The name of the scheme and the path of a URI. -/
def schemeAndPath (defaultScheme uriStr : Text) : Text × Text :=
  match splitScheme uriStr with
  | none => (lower defaultScheme, uriStr)
  | some (scheme, path) => (lower scheme, path)

/-- The path without version or generation, and this. -/
def versionOf : Scheme → Text → Option (Text × Text)
  | .file, _ => none
  | .gs, path => generationRe path
  | .s3, path => versionRe path

/-- The object that is named behind the first slash. -/
def objectOf (path : Text) : Text :=
  (splitSlash path).2.getD []

/-- The URI of a path for a bucket. -/
def bucketUri (scheme : Scheme) (path : Text) : BucketStorageUri where
  scheme := scheme
  bucketName := (splitSlash path).1
  objectName :=
    match versionOf scheme path with
    | some found => objectOf found.1
    | none => objectOf path
  versionId := if scheme = .s3 then (versionOf scheme path).map Prod.snd else none
  generation :=
    if scheme = .gs then (versionOf scheme path).map fun found => Nat.ofDigitChars 10 found.2 0
    else none

/-- `storage_uri`. -/
def storageUri (defaultScheme : Text) (validate : Bool) (uriStr : Text) :
    Except InvalidUriError StorageUri :=
  let scheme := (schemeAndPath defaultScheme uriStr).1
  let path := (schemeAndPath defaultScheme uriStr).2
  match Scheme.ofName? scheme with
  | none => .error ⟨"Unrecognized scheme \"".toList ++ scheme ++ ['"']⟩
  | some .file => .ok (.file path (decide (path = "-".toList)))
  | some scheme =>
      let bucketName := (splitSlash path).1
      if validate = true ∧ bucketName ≠ [] ∧
          (bucketNameRe bucketName = false ∨ tooLongDnsNameComp bucketName = true) then
        .error ⟨"Invalid bucket name in URI \"".toList ++ uriStr ++ ['"']⟩
      else .ok (.bucket (bucketUri scheme path))

/-- The provider of a key, the name of its bucket, and its own. -/
structure Key where
  scheme : Scheme
  isBucketScheme : scheme ≠ .file
  bucketName : Text
  name : Text

/-- `storage_uri_for_key`. -/
def storageUriForKey (key : Key) : Except InvalidUriError StorageUri :=
  storageUri "file".toList true
    (key.scheme.name ++ "://".toList ++ key.bucketName ++ '/' :: key.name)

/-! ## What URIs should name -/

/-- The path of a URI. -/
def pathOf (uriStr : Text) : Text :=
  (schemeAndPath [] uriStr).2

/-- Parsing the string of a URI gives the same URI. -/
def IsReadBack (defaultScheme : Text) (uri : BucketStorageUri) : Prop :=
  storageUri defaultScheme true uri.uri = .ok (.bucket uri)

/-- A bucket name that is taken. -/
def IsBucketName (name : Text) : Prop :=
  bucketNameRe name = true ∧ tooLongDnsNameComp name = false

/-- The URI of a key names its bucket and its object. -/
def NamesKey (key : Key) : Prop :=
  ∃ uri, storageUriForKey key = .ok (.bucket uri) ∧ uri.bucketName = key.bucketName ∧
    uri.objectName = key.name

/-- A path names a bucket, if it names anything; and if it names a version, then of an object, and
no generation 0. -/
structure IsUnambiguous (scheme : Scheme) (path : Text) : Prop where
  bucket : (splitSlash path).1 = [] → path = [] ∨ path = ['/']
  version : ∀ front version, versionOf scheme path = some (front, version) →
    objectOf front ≠ [] ∧ (scheme = .gs → Nat.ofDigitChars 10 version 0 ≠ 0)

/-! ## Marked paths -/

/-- A path with a version: on its last line, after the last mark that can stand before one. -/
structure IsMarked (p : Char → Bool) (path front version : Text) : Prop where
  divided : ∃ before behind, path = before ++ (front ++ '#' :: version ++ behind) ∧
    (before = [] ∨ before.getLast? = some '\n') ∧ (behind = [] ∨ behind = ['\n'])
  front_ne : front ≠ []
  front_line : ∀ c ∈ front, isDot c = true
  version_ne : version ≠ []
  version_all : ∀ c ∈ version, p c = true
  last_mark : ∀ first second, version = first ++ '#' :: second → second = []

section Marked

variable {p : Char → Bool} {path text front version behind : Text}

theorem atEnd_eq_some_iff {rest : Text} {u : Unit} :
    atEnd rest = some u ↔ rest = [] ∨ rest = ['\n'] := by
  rw [atEnd]
  split
  · next hend => exact iff_of_true rfl hend
  · next hend => exact iff_of_false nofun hend

theorem markedAt_eq_some_iff :
    markedAt p text = some (front, version) ↔
      greedyOne isDot (after '#' (greedyOne p atEnd)) text = some (front, version, ()) := by
  rw [markedAt, Option.map_eq_some_iff]
  constructor
  · rintro ⟨found, hfound, heq⟩
    cases heq
    exact hfound
  · exact fun hfound => ⟨_, hfound, rfl⟩

/-- What stands behind the front of a match. -/
theorem isSome_after_mark (hne : version ≠ []) (hall : ∀ c ∈ version, p c = true)
    (hbehind : behind = [] ∨ behind = ['\n']) :
    (after '#' (greedyOne p atEnd) ('#' :: version ++ behind)).isSome := by
  have hend : (atEnd behind).isSome := by
    rw [atEnd, if_pos hbehind, Option.isSome_some]
  obtain ⟨found, hfound⟩ := Option.isSome_iff_exists.mp (isSome_greedyOne hne hall hend)
  exact Option.isSome_iff_exists.mpr
    ⟨found, after_eq_some_iff.mpr ⟨version ++ behind, rfl, hfound⟩⟩

theorem isSome_markedAt (hfront : front ≠ []) (hline : ∀ c ∈ front, isDot c = true)
    (hne : version ≠ []) (hall : ∀ c ∈ version, p c = true)
    (hbehind : behind = [] ∨ behind = ['\n']) :
    (markedAt p (front ++ '#' :: version ++ behind)).isSome := by
  have hsome := isSome_greedyOne hfront hline (isSome_after_mark hne hall hbehind)
  rw [markedAt, Option.isSome_map, List.append_assoc]
  exact hsome

/-- The front of a match is the longest one. -/
theorem of_markedAt (hdot : ∀ c, p c = true → isDot c = true)
    (hmatch : markedAt p text = some (front, version)) :
    (∃ behind, text = front ++ '#' :: version ++ behind ∧ (behind = [] ∨ behind = ['\n'])) ∧
      front ≠ [] ∧ (∀ c ∈ front, isDot c = true) ∧ version ≠ [] ∧
      (∀ c ∈ version, p c = true) ∧
      ∀ first second, version = first ++ '#' :: second → second = [] := by
  have hgreedy := markedAt_eq_some_iff.mp hmatch
  obtain ⟨hfront, rest, htext, hline, hafter⟩ := exists_of_greedyOne hgreedy
  obtain ⟨marked, rfl, hversion⟩ := after_eq_some_iff.mp hafter
  obtain ⟨hne, behind, rfl, hall, hend⟩ := exists_of_greedyOne hversion
  have hbehind := atEnd_eq_some_iff.mp hend
  refine ⟨⟨behind, by simp [htext], hbehind⟩, hfront, hline, hne, hall, ?_⟩
  rintro first second rfl
  by_contra hsecond
  have hlonger : text = (front ++ '#' :: first) ++ ('#' :: second ++ behind) := by
    simp [htext]
  have hdots : ∀ c ∈ front ++ '#' :: first, isDot c = true := by
    intro c hc
    rcases List.mem_append.mp hc with hc | hc
    · exact hline c hc
    · rcases List.mem_cons.mp hc with rfl | hc
      · decide
      · exact hdot c (hall c (by simp [hc]))
  have hrest : ∀ c ∈ second, p c = true := fun c hc => hall c (by simp [hc])
  rw [hlonger] at hgreedy
  have hle := length_le_of_greedyOne hgreedy hdots (isSome_after_mark hsecond hrest hbehind)
  simp only [List.length_append, List.length_cons] at hle
  omega

/-- A search finds a version only as it is marked. -/
theorem isMarked_of_search (hdot : ∀ c, p c = true → isDot c = true)
    (hsearch : search (markedAt p) path = some (front, version)) :
    IsMarked p path front version := by
  obtain ⟨before, rest, hpath, hfound, hleft⟩ := exists_of_search hsearch
  obtain ⟨⟨behind, hrest, hbehind⟩, hfront, hline, hne, hall, hlast⟩ := of_markedAt hdot hfound
  refine ⟨⟨before, behind, by rw [hpath, hrest], ?_, hbehind⟩, hfront, hline, hne, hall, hlast⟩
  rcases List.eq_nil_or_concat before with hnil | ⟨early, c, rfl⟩
  · exact .inl hnil
  · right
    by_contra hlast
    have hc : isDot c = true := by
      rw [isDot, decide_eq_true_eq]
      rintro rfl
      simp at hlast
    have hnone : markedAt p (c :: rest) = none :=
      hleft early (c :: rest) (by simp [hpath]) (by simp)
    have hsome : (markedAt p ((c :: front) ++ '#' :: version ++ behind)).isSome :=
      isSome_markedAt (List.cons_ne_nil _ _) (List.forall_mem_cons.mpr ⟨hc, hline⟩) hne hall hbehind
    rw [List.cons_append, List.cons_append, ← hrest, hnone] at hsome
    cases hsome

/-- A line in front of which the text is empty or ends with a newline is the last one. -/
theorem eq_of_last_line {before before' line line' behind behind' : Text}
    (heq : before ++ (line ++ behind) = before' ++ (line' ++ behind'))
    (hbefore : before = [] ∨ before.getLast? = some '\n')
    (hbefore' : before' = [] ∨ before'.getLast? = some '\n')
    (hne : line ≠ []) (hne' : line' ≠ [])
    (hline : ∀ c ∈ line, isDot c = true) (hline' : ∀ c ∈ line', isDot c = true)
    (hbehind : behind = [] ∨ behind = ['\n']) (hbehind' : behind' = [] ∨ behind' = ['\n']) :
    line = line' := by
  have hlast : ∀ text : Text, (∀ c ∈ text, isDot c = true) → text.getLast? ≠ some '\n' := by
    intro text hall hsome
    have hc := hall '\n' (List.mem_of_getLast? hsome)
    cases hc
  have hsame : behind = behind' := by
    have hends := congrArg List.getLast? heq
    rcases hbehind with rfl | rfl
    · rcases hbehind' with rfl | rfl
      · rfl
      · rw [List.append_nil, List.getLast?_append_of_ne_nil _ hne] at hends
        simp only [← List.append_assoc, List.getLast?_append, List.getLast?_singleton,
          Option.some_or] at hends
        exact absurd hends (hlast line hline)
    · rcases hbehind' with rfl | rfl
      · rw [List.append_nil, List.getLast?_append_of_ne_nil _ hne'] at hends
        simp only [← List.append_assoc, List.getLast?_append, List.getLast?_singleton,
          Option.some_or] at hends
        exact absurd hends.symm (hlast line' hline')
      · rfl
  subst hsame
  rw [← List.append_assoc, ← List.append_assoc, List.append_cancel_right_eq] at heq
  have hnil : ∀ {early more late : Text}, early ++ more = late → (late = [] ∨
      late.getLast? = some '\n') → (∀ c ∈ more, isDot c = true) → more = [] := by
    rintro early more late rfl hlate hdots
    by_contra hmore
    rcases hlate with hlate | hlate
    · exact hmore (List.append_eq_nil_iff.mp hlate).2
    · rw [List.getLast?_append_of_ne_nil _ hmore] at hlate
      exact hlast more hdots hlate
  rcases List.append_eq_append_iff.mp heq with ⟨more, hmore, hsplit⟩ | ⟨more, hmore, hsplit⟩
  · have hempty := hnil hmore.symm hbefore' fun c hc => hline c (by simp [hsplit, hc])
    rw [hsplit, hempty, List.nil_append]
  · have hempty := hnil hmore.symm hbefore fun c hc => hline' c (by simp [hsplit, hc])
    rw [hsplit, hempty, List.nil_append]

/-- A mark that is followed by a mark only at the end of the text is in one place. -/
theorem eq_of_mark {front' version' : Text} (heq : front ++ '#' :: version = front' ++ '#' :: version')
    (hne : version ≠ []) (hne' : version' ≠ [])
    (hlast : ∀ first second, version = first ++ '#' :: second → second = [])
    (hlast' : ∀ first second, version' = first ++ '#' :: second → second = []) :
    front = front' ∧ version = version' := by
  rcases List.append_eq_append_iff.mp heq with ⟨more, rfl, hsplit⟩ | ⟨more, rfl, hsplit⟩
  · cases more with
    | nil =>
        cases hsplit
        exact ⟨(List.append_nil _).symm, rfl⟩
    | cons c more =>
        rw [List.cons_append, List.cons.injEq] at hsplit
        exact absurd (hlast more version' hsplit.2) hne'
  · cases more with
    | nil =>
        cases hsplit
        exact ⟨List.append_nil _, rfl⟩
    | cons c more =>
        rw [List.cons_append, List.cons.injEq] at hsplit
        exact absurd (hlast' more version hsplit.2) hne

/-- A path is marked in one way. -/
theorem IsMarked.unique {front' version' : Text} (hdot : ∀ c, p c = true → isDot c = true)
    (hmarked : IsMarked p path front version) (hmarked' : IsMarked p path front' version') :
    front = front' ∧ version = version' := by
  obtain ⟨before, behind, hpath, hbefore, hbehind⟩ := hmarked.divided
  obtain ⟨before', behind', hpath', hbefore', hbehind'⟩ := hmarked'.divided
  have hdots : ∀ {f v : Text}, IsMarked p path f v → ∀ c ∈ f ++ '#' :: v, isDot c = true := by
    intro f v hm c hc
    rcases List.mem_append.mp hc with hc | hc
    · exact hm.front_line c hc
    · rcases List.mem_cons.mp hc with rfl | hc
      · decide
      · exact hdot c (hm.version_all c hc)
  have hline := eq_of_last_line (hpath.symm.trans hpath') hbefore hbefore' (by simp) (by simp)
    (hdots hmarked) (hdots hmarked') hbehind hbehind'
  exact eq_of_mark hline hmarked.version_ne hmarked'.version_ne hmarked.last_mark
    hmarked'.last_mark

/-- A search finds a version exactly where it is marked. -/
theorem search_markedAt_iff (hdot : ∀ c, p c = true → isDot c = true) :
    search (markedAt p) path = some (front, version) ↔ IsMarked p path front version := by
  constructor
  · exact isMarked_of_search hdot
  · intro hmarked
    obtain ⟨before, behind, hpath, -, hbehind⟩ := hmarked.divided
    have hfound := isSome_markedAt hmarked.front_ne hmarked.front_line hmarked.version_ne
      hmarked.version_all hbehind
    have hsome : (search (markedAt p) path).isSome := by
      rw [hpath]
      exact isSome_search hfound
    obtain ⟨⟨front', version'⟩, hsearch⟩ := Option.isSome_iff_exists.mp hsome
    obtain ⟨rfl, rfl⟩ := hmarked.unique hdot (isMarked_of_search hdot hsearch)
    exact hsearch

end Marked

/-! ## Paths -/

section Paths

variable {scheme : Scheme} {path bucketName objectName front version : Text}

theorem splitSlash_of_notMem (hslash : '/' ∉ path) : splitSlash path = (path, none) := by
  have hdrop : path.dropWhile (· ≠ '/') = [] := by
    refine List.dropWhile_eq_nil_iff.mpr fun c hc => ?_
    exact decide_eq_true fun heq => hslash (heq ▸ hc)
  rw [splitSlash, hdrop]

theorem splitSlash_append (hslash : '/' ∉ bucketName) :
    splitSlash (bucketName ++ '/' :: objectName) = (bucketName, some objectName) := by
  have hall : ∀ c ∈ bucketName, decide (c ≠ '/') = true :=
    fun c hc => decide_eq_true fun heq => hslash (heq ▸ hc)
  have hdrop : (bucketName ++ '/' :: objectName).dropWhile (· ≠ '/') = '/' :: objectName := by
    rw [List.dropWhile_append_of_pos hall]
    rfl
  have htake : (bucketName ++ '/' :: objectName).takeWhile (· ≠ '/') = bucketName := by
    rw [List.takeWhile_append_of_pos hall]
    exact List.append_nil _
  rw [splitSlash, hdrop, htake]

/-- A path is a bucket, or a bucket and an object behind a slash. -/
theorem path_cases (path : Text) :
    '/' ∉ path ∨ ∃ bucketName objectName, path = bucketName ++ '/' :: objectName ∧
      '/' ∉ bucketName := by
  by_cases hslash : '/' ∈ path
  · obtain ⟨bucketName, objectName, hpath, hnot⟩ := List.eq_append_cons_of_mem hslash
    exact .inr ⟨bucketName, objectName, hpath, hnot⟩
  · exact .inl hslash

theorem objectOf_append (hslash : '/' ∉ bucketName) :
    objectOf (bucketName ++ '/' :: objectName) = objectName := by
  rw [objectOf, splitSlash_append hslash]
  rfl

theorem objectOf_of_notMem (hslash : '/' ∉ path) : objectOf path = [] := by
  rw [objectOf, splitSlash_of_notMem hslash]
  rfl

/-- A path that names an object is the bucket, a slash and the object. -/
theorem path_eq_of_objectOf (hobject : objectOf path ≠ []) :
    path = (splitSlash path).1 ++ '/' :: objectOf path := by
  rcases path_cases path with hslash | ⟨bucketName, objectName, rfl, hslash⟩
  · exact absurd (objectOf_of_notMem hslash) hobject
  · rw [objectOf_append hslash, splitSlash_append hslash]

theorem notMem_bucket (path : Text) : '/' ∉ (splitSlash path).1 := by
  rcases path_cases path with hslash | ⟨bucketName, objectName, rfl, hslash⟩
  · rwa [splitSlash_of_notMem hslash]
  · rwa [splitSlash_append hslash]

/-- `.` or `[0-9]`, what a version of a scheme is made of. -/
def versionChar : Scheme → Char → Bool
  | .gs => isDigit
  | _ => isDot

theorem isDot_of_versionChar (c : Char) (hc : versionChar scheme c = true) : isDot c = true := by
  cases scheme with
  | file => exact hc
  | s3 => exact hc
  | gs =>
      rw [isDot, decide_eq_true_eq]
      rintro rfl
      cases hc

theorem versionOf_eq_some_iff (hscheme : scheme ≠ .file) :
    versionOf scheme path = some (front, version) ↔
      IsMarked (versionChar scheme) path front version := by
  cases scheme with
  | file => exact absurd rfl hscheme
  | s3 => exact search_markedAt_iff (@isDot_of_versionChar .s3)
  | gs => exact search_markedAt_iff (@isDot_of_versionChar .gs)

/-- Without a mark there is no version. -/
theorem versionOf_eq_none (hscheme : scheme ≠ .file) (hmark : '#' ∉ path) :
    versionOf scheme path = none := by
  cases hversion : versionOf scheme path with
  | none => rfl
  | some found =>
      obtain ⟨before, behind, hpath, -, -⟩ := ((versionOf_eq_some_iff hscheme).mp hversion).divided
      exact absurd (by simp [hpath]) hmark

/-- A version is not part of the object: the object of the front is shorter than the one of the
path. -/
theorem objectOf_front_ne (hscheme : scheme ≠ .file) (hslash : '/' ∉ bucketName)
    (hmark : '#' ∉ bucketName)
    (hversion : versionOf scheme (bucketName ++ '/' :: objectName) = some (front, version)) :
    objectOf front ≠ objectName := by
  rintro rfl
  obtain ⟨before, behind, hpath, -, -⟩ := ((versionOf_eq_some_iff hscheme).mp hversion).divided
  by_cases hnil : objectOf front = []
  · have hin : '#' ∈ bucketName ++ '/' :: objectOf front := by simp [hpath]
    simp [hnil, hmark] at hin
  · have hfront := path_eq_of_objectOf hnil
    have hlength := congrArg List.length hpath
    have hwhole := congrArg List.length hfront
    simp only [List.length_append, List.length_cons] at hlength hwhole
    have hsplit : bucketName ++ '/' :: objectOf front = (before ++ (splitSlash front).1) ++
        '/' :: (objectOf front ++ '#' :: version ++ behind) := by
      rw [hpath]
      nth_rewrite 1 [hfront]
      simp
    rcases List.append_eq_append_iff.mp hsplit with ⟨more, hmore, -⟩ | ⟨more, hmore, hrest⟩
    · have hshort := congrArg List.length hmore
      rw [List.length_append, List.length_append] at hshort
      omega
    · cases more with
      | nil =>
          have hshort := congrArg List.length hmore
          rw [List.append_nil, List.length_append] at hshort
          omega
      | cons c more =>
          rw [List.cons_append, List.cons.injEq] at hrest
          have hin : '/' ∈ (before ++ (splitSlash front).1) ++ c :: more := by simp [← hrest.1]
          exact hslash (hmore ▸ hin)

/-- A bucket name is a word without marks and slashes, after which a newline may stand. -/
theorem word_of_isBucketName (hname : IsBucketName bucketName) :
    ∃ word, word ≠ [] ∧ (bucketName = word ∨ bucketName = word ++ ['\n']) ∧
      ∀ c ∈ word, c ≠ '#' ∧ c ≠ '/' ∧ c ≠ '\n' := by
  let word := if bucketName.getLast? = some '\n' then bucketName.dropLast else bucketName
  have hname := hname.1
  simp only [bucketNameRe, Bool.and_eq_true, decide_eq_true_eq] at hname
  obtain ⟨⟨⟨⟨hlong, -⟩, hall⟩, -⟩, -⟩ := hname
  refine ⟨word, ?_, ?_, ?_⟩
  · intro hnil
    rw [show (if bucketName.getLast? = some '\n' then bucketName.dropLast else bucketName) = []
      from hnil] at hlong
    cases hlong
  · by_cases hlast : bucketName.getLast? = some '\n'
    · right
      have hword : word = bucketName.dropLast := if_pos hlast
      rw [hword, List.dropLast_append_getLast? _ hlast]
    · exact .inl (if_neg hlast).symm
  · intro c hc
    have hchar := List.all_eq_true.mp hall c hc
    refine ⟨?_, ?_, ?_⟩ <;>
    · rintro rfl
      exact absurd hchar (by decide)

end Paths

/-! ## Writing and reading -/

section Strings

variable {scheme : Scheme} {path : Text}

theorem schemeAndPath_written (defaultScheme : Text) (scheme : Scheme) (path : Text) :
    schemeAndPath defaultScheme (scheme.name ++ "://".toList ++ path) = (scheme.name, path) := by
  have hsplit : splitScheme (scheme.name ++ "://".toList ++ path) = some (scheme.name, path) := by
    cases scheme <;> simp [Scheme.name, splitScheme]
  have hlower : lower scheme.name = scheme.name := by cases scheme <;> decide
  rw [schemeAndPath, hsplit]
  exact congrArg (·, path) hlower

theorem ofName?_name (scheme : Scheme) : Scheme.ofName? scheme.name = some scheme := by
  cases scheme <;> decide

/-- A bucket that `storage_uri` takes. -/
def IsTaken (bucketName : Text) : Prop :=
  bucketName = [] ∨ IsBucketName bucketName

theorem storageUri_written (defaultScheme : Text) (hscheme : scheme ≠ .file)
    (htaken : IsTaken (splitSlash path).1) :
    storageUri defaultScheme true (scheme.name ++ "://".toList ++ path) =
      .ok (.bucket (bucketUri scheme path)) := by
  have hvalid : ¬(true = true ∧ (splitSlash path).1 ≠ [] ∧
      (bucketNameRe (splitSlash path).1 = false ∨
        tooLongDnsNameComp (splitSlash path).1 = true)) := by
    rintro ⟨-, hne, hinvalid⟩
    rcases htaken with hnil | ⟨hname, hcomp⟩
    · exact hne hnil
    · rw [hname, hcomp] at hinvalid
      simp at hinvalid
  rw [storageUri, schemeAndPath_written]
  cases scheme with
  | file => exact absurd rfl hscheme
  | s3 =>
      rw [ofName?_name]
      exact if_neg hvalid
  | gs =>
      rw [ofName?_name]
      exact if_neg hvalid

/-- What `storage_uri` accepts. -/
theorem exists_of_storageUri {defaultScheme uriStr : Text} {uri : BucketStorageUri}
    (haccepted : storageUri defaultScheme true uriStr = .ok (.bucket uri)) :
    ∃ scheme, scheme ≠ Scheme.file ∧ uri = bucketUri scheme (pathOf uriStr) ∧
      IsTaken (splitSlash (pathOf uriStr)).1 := by
  have hpath : (schemeAndPath defaultScheme uriStr).2 = pathOf uriStr := by
    rw [pathOf, schemeAndPath, schemeAndPath]
    cases splitScheme uriStr with
    | none => rfl
    | some found => rfl
  have hbucket : ∀ scheme, scheme ≠ Scheme.file →
      (if true = true ∧ (splitSlash (pathOf uriStr)).1 ≠ [] ∧
          (bucketNameRe (splitSlash (pathOf uriStr)).1 = false ∨
            tooLongDnsNameComp (splitSlash (pathOf uriStr)).1 = true) then
        (.error ⟨"Invalid bucket name in URI \"".toList ++ uriStr ++ ['"']⟩ :
          Except InvalidUriError StorageUri)
      else .ok (.bucket (bucketUri scheme (pathOf uriStr)))) = .ok (.bucket uri) →
      uri = bucketUri scheme (pathOf uriStr) ∧ IsTaken (splitSlash (pathOf uriStr)).1 := by
    intro scheme hscheme hok
    split at hok
    · cases hok
    · next hvalid =>
        cases hok
        refine ⟨rfl, ?_⟩
        by_cases hnil : (splitSlash (pathOf uriStr)).1 = []
        · exact .inl hnil
        · right
          constructor
          · by_contra hname
            exact hvalid ⟨rfl, hnil, .inl (by simpa using hname)⟩
          · by_contra hcomp
            exact hvalid ⟨rfl, hnil, .inr (by simpa using hcomp)⟩
  rw [storageUri, hpath] at haccepted
  split at haccepted
  · cases haccepted
  · cases haccepted
  · next scheme hfile hname =>
      exact ⟨scheme, hfile, hbucket scheme hfile haccepted⟩

namespace BucketStorageUri

/-- What follows the object. -/
def mark (self : BucketStorageUri) : Text :=
  match self.generation.filter (· ≠ 0) with
  | some generation => '#' :: decimal generation
  | none =>
      match self.versionId.filter (· ≠ []) with
      | some versionId => '#' :: versionId
      | none => []

/-- The string behind the scheme. -/
def writtenPath (self : BucketStorageUri) : Text :=
  if self.bucketName ≠ [] then
    self.bucketName ++ '/' ::
      if self.objectName ≠ [] then self.objectName ++ self.mark else []
  else []

theorem any_eq_isSome_filter {α : Type} (x : Option α) (p : α → Bool) :
    x.any p = (x.filter p).isSome := by
  cases x with
  | none => rfl
  | some a => cases hp : p a <;> simp [hp]

theorem uri_eq (self : BucketStorageUri) :
    self.uri = self.scheme.name ++ "://".toList ++ self.writtenPath := by
  have hspecific : (if self.isVersionSpecific = true then self.versionSpecificUri.getD []
      else self.versionlessUri) = self.versionlessUri ++ self.mark := by
    rw [isVersionSpecific, any_eq_isSome_filter, any_eq_isSome_filter, versionSpecificUri, mark]
    cases self.generation.filter (· ≠ 0) with
    | some generation => rfl
    | none =>
        cases self.versionId.filter (· ≠ []) with
        | some versionId => rfl
        | none => simp
  rw [uri, writtenPath]
  by_cases hbucket : self.bucketName ≠ []
  · by_cases hobject : self.objectName ≠ []
    · rw [if_pos ⟨hbucket, hobject⟩, if_pos hbucket, if_pos hobject, hspecific, versionlessUri]
      simp
    · rw [if_neg fun hboth => hobject hboth.2, if_pos hbucket, if_pos hbucket, if_neg hobject]
      simp
  · rw [if_neg fun hboth => hbucket hboth.1, if_neg hbucket, if_neg hbucket, List.append_nil]

end BucketStorageUri

theorem isReadBack_iff_bucketUri (defaultScheme : Text) (hscheme : scheme ≠ .file)
    (htaken : IsTaken (splitSlash path).1) :
    IsReadBack defaultScheme (bucketUri scheme path) ↔
      bucketUri scheme (bucketUri scheme path).writtenPath = bucketUri scheme path := by
  have hbucket : (splitSlash (bucketUri scheme path).writtenPath).1 = (splitSlash path).1 := by
    have hslash := notMem_bucket path
    rw [BucketStorageUri.writtenPath]
    change (splitSlash (if (splitSlash path).1 ≠ [] then (splitSlash path).1 ++ '/' :: _
      else [])).1 = _
    split
    · rw [splitSlash_append hslash]
    · next hnil =>
        rw [not_not.mp hnil]
        rfl
  rw [IsReadBack, BucketStorageUri.uri_eq]
  change storageUri defaultScheme true (scheme.name ++ "://".toList ++ _) = _ ↔ _
  rw [storageUri_written defaultScheme hscheme (hbucket ▸ htaken), Except.ok.injEq,
    StorageUri.bucket.injEq]

/-- A text that is a version of its scheme, with a mark at its end only. -/
structure IsVersion (scheme : Scheme) (version : Text) : Prop where
  ne : version ≠ []
  all : ∀ c ∈ version, versionChar scheme c = true
  last_mark : ∀ first second, version = first ++ '#' :: second → second = []

/-- A version that is written behind an object on one line is found there. -/
theorem exists_versionOf {bucketName objectName version : Text} (hscheme : scheme ≠ .file)
    (hname : IsBucketName bucketName) (hline : ∀ c ∈ objectName, isDot c = true)
    (hversion : IsVersion scheme version) :
    ∃ front, versionOf scheme (bucketName ++ '/' :: (objectName ++ '#' :: version)) =
      some (front, version) ∧ objectOf front = objectName := by
  obtain ⟨word, -, hword, hchars⟩ := word_of_isBucketName hname
  have hdot : ∀ c ∈ '/' :: objectName, isDot c = true :=
    List.forall_mem_cons.mpr ⟨by decide, hline⟩
  have hslash : '/' ∉ word := fun hin => (hchars '/' hin).2.1 rfl
  rcases hword with rfl | rfl
  · refine ⟨bucketName ++ '/' :: objectName, (versionOf_eq_some_iff hscheme).mpr ?_,
      objectOf_append hslash⟩
    refine ⟨⟨[], [], by simp, .inl rfl, .inl rfl⟩, by simp, ?_, hversion.ne, hversion.all,
      hversion.last_mark⟩
    intro c hc
    rcases List.mem_append.mp hc with hc | hc
    · exact decide_eq_true (hchars c hc).2.2
    · exact hdot c hc
  · refine ⟨'/' :: objectName, (versionOf_eq_some_iff hscheme).mpr ?_,
      objectOf_append (List.not_mem_nil)⟩
    exact ⟨⟨word ++ ['\n'], [], by simp, .inr (by simp), .inl rfl⟩, by simp, hdot, hversion.ne,
      hversion.all, hversion.last_mark⟩

/-- The parts of a version that was found. -/
theorem isVersion_of_versionOf {front version : Text} (hscheme : scheme ≠ .file)
    (hversion : versionOf scheme path = some (front, version)) :
    IsVersion scheme version ∧ ∀ c ∈ objectOf front, isDot c = true := by
  have hmarked := (versionOf_eq_some_iff hscheme).mp hversion
  refine ⟨⟨hmarked.version_ne, hmarked.version_all, hmarked.last_mark⟩, fun c hc => ?_⟩
  have hfront := path_eq_of_objectOf (List.ne_nil_of_mem hc)
  refine hmarked.front_line c ?_
  rw [hfront]
  simp [hc]

theorem isVersion_decimal (n : ℕ) : IsVersion .gs (decimal n) where
  ne := decimal_ne_nil n
  all := fun _ hc => isDigit_of_mem_decimal hc
  last_mark := by
    intro first second hdecimal
    have hdigit := isDigit_of_mem_decimal (n := n) (c := '#') (by simp [hdecimal])
    cases hdigit

theorem bucketUri_of_none (hversion : versionOf scheme path = none) :
    bucketUri scheme path = ⟨scheme, (splitSlash path).1, objectOf path, none, none⟩ := by
  rw [bucketUri, hversion]
  simp

theorem bucketUri_of_some {front version : Text}
    (hversion : versionOf scheme path = some (front, version)) :
    bucketUri scheme path = ⟨scheme, (splitSlash path).1, objectOf front,
      if scheme = .s3 then some version else none,
      if scheme = .gs then some (Nat.ofDigitChars 10 version 0) else none⟩ := by
  rw [bucketUri, hversion]
  rfl

/-- A URI with a version has more than its bucket. -/
theorem bucketUri_ne_of_some {front version : Text} {uri : BucketStorageUri}
    (hscheme : scheme ≠ .file) (hversion : versionOf scheme path = some (front, version))
    (hid : uri.versionId = none) (hgeneration : uri.generation = none) :
    uri ≠ bucketUri scheme path := by
  rintro rfl
  rw [bucketUri_of_some hversion] at hid hgeneration
  cases scheme with
  | file => exact hscheme rfl
  | s3 => cases hid
  | gs => cases hgeneration

/-- Without a bucket only the empty path is read back. -/
theorem bucketUri_eq_iff_of_nil (hscheme : scheme ≠ .file) (hbucket : (splitSlash path).1 = []) :
    bucketUri scheme (bucketUri scheme path).writtenPath = bucketUri scheme path ↔
      IsUnambiguous scheme path := by
  have hwritten : (bucketUri scheme path).writtenPath = [] := if_neg (not_not.mpr hbucket)
  have hempty : bucketUri scheme [] = ⟨scheme, [], [], none, none⟩ :=
    bucketUri_of_none (versionOf_eq_none hscheme List.not_mem_nil)
  have hpath : objectOf path = [] ↔ path = [] ∨ path = ['/'] := by
    rcases path_cases path with hslash | ⟨bucketName, objectName, rfl, hslash⟩
    · rw [splitSlash_of_notMem hslash] at hbucket
      exact iff_of_true (objectOf_of_notMem hslash) (.inl hbucket)
    · rw [splitSlash_append hslash] at hbucket
      have hnil : bucketName = [] := hbucket
      rw [objectOf_append hslash, hnil]
      simp
  rw [hwritten, hempty]
  cases hversion : versionOf scheme path with
  | none =>
      rw [bucketUri_of_none hversion, hbucket, BucketStorageUri.mk.injEq]
      constructor
      · rintro ⟨-, -, hobject, -, -⟩
        refine ⟨fun _ => hpath.mp hobject.symm, fun front version hsome => ?_⟩
        rw [hversion] at hsome
        cases hsome
      · intro hunambiguous
        exact ⟨rfl, rfl, (hpath.mpr (hunambiguous.bucket hbucket)).symm, rfl, rfl⟩
  | some found =>
      refine iff_of_false (bucketUri_ne_of_some hscheme hversion rfl rfl) ?_
      intro hunambiguous
      have hmark : '#' ∉ path := by
        rcases hunambiguous.bucket hbucket with rfl | rfl
        · exact List.not_mem_nil
        · decide
      rw [versionOf_eq_none hscheme hmark] at hversion
      cases hversion

theorem notMem_of_isBucketName {bucketName : Text} (hname : IsBucketName bucketName) :
    bucketName ≠ [] ∧ '#' ∉ bucketName := by
  obtain ⟨word, hne, hword, hchars⟩ := word_of_isBucketName hname
  have hmark : '#' ∉ word := fun hin => (hchars '#' hin).1 rfl
  rcases hword with rfl | rfl
  · exact ⟨hne, hmark⟩
  · exact ⟨by simp, by simp [hmark]⟩

/-- The URI of a bucket alone. -/
theorem bucketUri_bucket (hscheme : scheme ≠ .file) (hname : IsBucketName (splitSlash path).1) :
    bucketUri scheme ((splitSlash path).1 ++ ['/']) =
      ⟨scheme, (splitSlash path).1, [], none, none⟩ := by
  have hmark := (notMem_of_isBucketName hname).2
  rw [bucketUri_of_none (versionOf_eq_none hscheme (by simp [hmark])),
    splitSlash_append (notMem_bucket path), objectOf_append (notMem_bucket path)]

/-- Without a version a URI is read back. -/
theorem bucketUri_eq_iff_of_none (hscheme : scheme ≠ .file)
    (hname : IsBucketName (splitSlash path).1) (hversion : versionOf scheme path = none) :
    bucketUri scheme (bucketUri scheme path).writtenPath = bucketUri scheme path ↔
      IsUnambiguous scheme path := by
  have hne := (notMem_of_isBucketName hname).1
  have hunambiguous : IsUnambiguous scheme path :=
    ⟨fun hnil => absurd hnil hne, fun front version hsome => nomatch hversion.symm.trans hsome⟩
  refine iff_of_true ?_ hunambiguous
  have hwritten : (bucketUri scheme path).writtenPath = (splitSlash path).1 ++ '/' ::
      if objectOf path ≠ [] then objectOf path ++ [] else [] := by
    rw [bucketUri_of_none hversion]
    exact if_pos hne
  rw [hwritten]
  by_cases hobject : objectOf path = []
  · rw [if_neg (not_not.mpr hobject), bucketUri_bucket hscheme hname, bucketUri_of_none hversion,
      hobject]
  · rw [if_pos hobject, List.append_nil, ← path_eq_of_objectOf hobject]

/-- With a version a URI is read back if it is written. -/
theorem bucketUri_eq_iff_of_some {front version : Text} (hscheme : scheme ≠ .file)
    (hname : IsBucketName (splitSlash path).1)
    (hversion : versionOf scheme path = some (front, version)) :
    bucketUri scheme (bucketUri scheme path).writtenPath = bucketUri scheme path ↔
      IsUnambiguous scheme path := by
  have hne := (notMem_of_isBucketName hname).1
  have hslash := notMem_bucket path
  obtain ⟨hmarked, hline⟩ := isVersion_of_versionOf hscheme hversion
  have hunambiguous : IsUnambiguous scheme path ↔
      objectOf front ≠ [] ∧ (scheme = .gs → Nat.ofDigitChars 10 version 0 ≠ 0) := by
    constructor
    · exact fun h => h.version front version hversion
    · intro h
      refine ⟨fun hnil => absurd hnil hne, fun front' version' hsome => ?_⟩
      cases hversion.symm.trans hsome
      exact h
  have hwritten : (bucketUri scheme path).writtenPath = (splitSlash path).1 ++ '/' ::
      if objectOf front ≠ [] then objectOf front ++ (bucketUri scheme path).mark else [] := by
    rw [bucketUri_of_some hversion]
    exact if_pos hne
  -- A version that was written is found behind the same object.
  have hback : ∀ mark, IsVersion scheme mark →
      bucketUri scheme ((splitSlash path).1 ++ '/' :: (objectOf front ++ '#' :: mark)) =
        ⟨scheme, (splitSlash path).1, objectOf front,
          if scheme = .s3 then some mark else none,
          if scheme = .gs then some (Nat.ofDigitChars 10 mark 0) else none⟩ := by
    intro mark hmark
    obtain ⟨front', hfound, hobject⟩ := exists_versionOf hscheme hname hline hmark
    rw [bucketUri_of_some hfound, splitSlash_append hslash, hobject]
  rw [hunambiguous, hwritten]
  by_cases hobject : objectOf front = []
  · rw [if_neg (not_not.mpr hobject), bucketUri_bucket hscheme hname]
    exact iff_of_false (bucketUri_ne_of_some hscheme hversion rfl rfl) fun h => h.1 hobject
  · rw [if_pos hobject]
    cases scheme with
    | file => exact absurd rfl hscheme
    | s3 =>
        have hmark : (bucketUri .s3 path).mark = '#' :: version := by
          rw [bucketUri_of_some hversion, BucketStorageUri.mark]
          simp [Option.filter, hmarked.ne]
        rw [hmark, hback version hmarked, bucketUri_of_some hversion]
        exact iff_of_true rfl ⟨hobject, nofun⟩
    | gs =>
        by_cases hzero : Nat.ofDigitChars 10 version 0 = 0
        · have hmark : (bucketUri .gs path).mark = [] := by
            rw [bucketUri_of_some hversion, BucketStorageUri.mark]
            simp [Option.filter, hzero]
          refine iff_of_false ?_ fun h => h.2 rfl hzero
          rw [hmark, List.append_nil, bucketUri_of_some hversion]
          cases hfound : versionOf .gs ((splitSlash path).1 ++ '/' :: objectOf front) with
          | none =>
              rw [bucketUri_of_none hfound]
              simp
          | some found =>
              have hother := objectOf_front_ne hscheme hslash (notMem_of_isBucketName hname).2 hfound
              rw [bucketUri_of_some hfound]
              intro heq
              exact hother (congrArg BucketStorageUri.objectName heq)
        · have hmark : (bucketUri .gs path).mark =
              '#' :: decimal (Nat.ofDigitChars 10 version 0) := by
            rw [bucketUri_of_some hversion, BucketStorageUri.mark]
            simp [Option.filter, hzero]
          have hnumber : Nat.ofDigitChars 10 (decimal (Nat.ofDigitChars 10 version 0)) 0 =
              Nat.ofDigitChars 10 version 0 := Nat.ofDigitChars_ten_toDigits
          rw [hmark, hback _ (isVersion_decimal _), bucketUri_of_some hversion, hnumber]
          exact iff_of_true rfl ⟨hobject, fun _ => hzero⟩

/-- A URI is read back if and only if its path is unambiguous. -/
theorem bucketUri_eq_iff (hscheme : scheme ≠ .file) (htaken : IsTaken (splitSlash path).1) :
    bucketUri scheme (bucketUri scheme path).writtenPath = bucketUri scheme path ↔
      IsUnambiguous scheme path := by
  rcases htaken with hbucket | hname
  · exact bucketUri_eq_iff_of_nil hscheme hbucket
  · cases hversion : versionOf scheme path with
    | none => exact bucketUri_eq_iff_of_none hscheme hname hversion
    | some found => exact bucketUri_eq_iff_of_some hscheme hname hversion

end Strings

/-- **Keys.**  In a validly named bucket the URI of a key names its bucket and exactly its object,
unless the last line of the bucket and the name together ends with what is taken for a version. -/
theorem namesKey_iff {key : Key} (hname : IsBucketName key.bucketName) :
    NamesKey key ↔ versionOf key.scheme (key.bucketName ++ '/' :: key.name) = none := by
  obtain ⟨word, -, hword, hchars⟩ := word_of_isBucketName hname
  have hslash : '/' ∉ key.bucketName := by
    have hin : '/' ∉ word := fun hin => (hchars '/' hin).2.1 rfl
    rcases hword with heq | heq
    · rwa [heq]
    · rw [heq]
      simp [hin]
  have hsplit : splitSlash (key.bucketName ++ '/' :: key.name) = (key.bucketName, some key.name) :=
    splitSlash_append hslash
  have huri : storageUriForKey key =
      .ok (.bucket (bucketUri key.scheme (key.bucketName ++ '/' :: key.name))) := by
    have htaken : IsTaken (splitSlash (key.bucketName ++ '/' :: key.name)).1 := by
      rw [hsplit]
      exact .inr hname
    rw [← storageUri_written "file".toList key.isBucketScheme htaken, storageUriForKey,
      List.append_assoc]
  have hbucket : (bucketUri key.scheme (key.bucketName ++ '/' :: key.name)).bucketName =
      key.bucketName := congrArg Prod.fst hsplit
  have hnames : NamesKey key ↔
      (bucketUri key.scheme (key.bucketName ++ '/' :: key.name)).objectName = key.name := by
    rw [NamesKey, huri]
    constructor
    · rintro ⟨uri, heq, -, hobject⟩
      cases heq
      exact hobject
    · exact fun hobject => ⟨_, rfl, hbucket, hobject⟩
  rw [hnames]
  cases hversion : versionOf key.scheme (key.bucketName ++ '/' :: key.name) with
  | none =>
      rw [bucketUri_of_none hversion]
      exact iff_of_true (objectOf_append hslash) rfl
  | some found =>
      rw [bucketUri_of_some hversion]
      exact iff_of_false (objectOf_front_ne key.isBucketScheme hslash
        (notMem_of_isBucketName hname).2 hversion) nofun

/-- A key whose name ends with a number. -/
theorem namesKey_iff_report :
    IsBucketName "abc".toList ∧
      (NamesKey ⟨.gs, nofun, "abc".toList, "a#1".toList⟩ ↔
        versionOf .gs ("abc".toList ++ '/' :: "a#1".toList) = none) := by
  have hname : IsBucketName "abc".toList := by
    constructor
    · decide
    · decide
  exact ⟨hname, namesKey_iff hname⟩

/-- **Storage URIs.**  The string of a URI is parsed to the same URI exactly if its path names a
bucket whenever it names anything, and a version only of an object and never a generation 0. -/
theorem isReadBack_iff (defaultScheme uriStr : Text) (uri : BucketStorageUri)
    (haccepted : storageUri defaultScheme true uriStr = .ok (.bucket uri)) :
    IsReadBack defaultScheme uri ↔ IsUnambiguous uri.scheme (pathOf uriStr) := by
  obtain ⟨scheme, hscheme, rfl, htaken⟩ := exists_of_storageUri haccepted
  exact (isReadBack_iff_bucketUri defaultScheme hscheme htaken).trans
    (bucketUri_eq_iff hscheme htaken)

/-- A URI with generation 0, which is not written. -/
theorem isReadBack_iff_zero :
    IsReadBack "file".toList ⟨.gs, "abc".toList, "a".toList, none, some 0⟩ ↔
      IsUnambiguous .gs (pathOf "gs://abc/a#0".toList) :=
  isReadBack_iff "file".toList "gs://abc/a#0".toList _ (by decide +kernel)

end Boto.StorageUris
