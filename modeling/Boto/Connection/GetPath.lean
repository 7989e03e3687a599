import Boto.S3.SignedPath
import Mathlib.Data.List.Chain

/-!
# Paths of requests

`AWSAuthConnection.get_path` of `boto/connection.py`, with the error that it raises for a path that
is empty up to its query.
-/

namespace Boto.Connection

open S3 (dropSlash pathElements)

/-- The path before its query. -/
def beforeQuery (path : Text) : Text :=
  path.takeWhile (· ≠ '?')

/-- The query of a path, with its mark. -/
def queryOf (path : Text) : Text :=
  path.dropWhile (· ≠ '?')

/-- `get_path`, for the path and the option of a connection. -/
def getPath (connectionPath : Text) (suppressConsecSlashes : Bool) (path : Text) :
    Except PyError Text :=
  if suppressConsecSlashes = false then .ok (connectionPath ++ dropSlash path)
  else
    match (beforeQuery path).getLast? with
    | none => .error (.indexError "string index out of range")
    | some last =>
        let needTrailing := last = '/'
        let normal := '/' :: join '/' (pathElements connectionPath ++ pathElements (beforeQuery path))
        let normal := if normal.getLast? ≠ some '/' ∧ needTrailing then normal ++ ['/'] else normal
        .ok (normal ++ queryOf path)

/-! ## What a path should become -/

/-- The segments of the path of a connection and of a path. -/
def segments (connectionPath path : Text) : List Text :=
  pathElements connectionPath ++ pathElements (beforeQuery path)

/-- A result has the segments between single slashes before the query, ends there in a slash if the
path did, and stays as it is. -/
structure IsNormalized (connectionPath path result : Text) : Prop where
  parts : ∃ before, result = before ++ queryOf path ∧
    (before = '/' :: join '/' (segments connectionPath path) ∨
      segments connectionPath path ≠ [] ∧
        before = '/' :: (join '/' (segments connectionPath path) ++ ['/'])) ∧
    (before.getLast? = some '/' ↔
      (beforeQuery path).getLast? = some '/' ∨ segments connectionPath path = [])
  fixed : getPath ['/'] true result = .ok result

/-- A path is normalized, or it only gets a slash where slashes are not suppressed. -/
def Normalizes (connectionPath : Text) (suppressConsecSlashes : Bool) (path : Text) : Prop :=
  ∃ result, getPath connectionPath suppressConsecSlashes path = .ok result ∧
    (suppressConsecSlashes = true → IsNormalized connectionPath path result) ∧
      (suppressConsecSlashes = false → connectionPath = ['/'] →
        result = if path.head? = some '/' then path else '/' :: path)

/-! ## Paths without consecutive slashes -/

section

variable {path segment rest : Text} {segments : List Text}

/-- No two slashes are next to each other. -/
def NoDoubles (path : Text) : Prop :=
  path.IsChain fun a b => a ≠ '/' ∨ b ≠ '/'

theorem noDoubles_append (hsegment : '/' ∉ segment) (hrest : NoDoubles rest) :
    NoDoubles (segment ++ rest) := by
  induction segment with
  | nil => exact hrest
  | cons c segment ih =>
      obtain ⟨hc, hsegment⟩ := not_or.mp (mt List.mem_cons.mpr hsegment)
      exact List.isChain_cons.mpr ⟨fun _ _ => .inl (Ne.symm hc), ih hsegment⟩

theorem noDoubles_slash (hsegment : '/' ∉ segment) (hne : segment ≠ []) (hrest : NoDoubles rest) :
    NoDoubles ('/' :: (segment ++ rest)) := by
  refine List.isChain_cons.mpr ⟨fun c hc => .inr ?_, noDoubles_append hsegment hrest⟩
  obtain ⟨first, segment, rfl⟩ := List.exists_cons_of_ne_nil hne
  obtain rfl : first = c := Option.some.inj hc
  exact fun heq => hsegment (heq ▸ List.mem_cons_self)

theorem noDoubles_join (hsegments : ∀ segment ∈ segments, segment ≠ [] ∧ '/' ∉ segment)
    (hrest : rest = [] ∨ segments ≠ [] ∧ rest = ['/']) :
    NoDoubles ('/' :: (join '/' segments ++ rest)) := by
  have hend : NoDoubles rest := by
    rcases hrest with rfl | ⟨-, rfl⟩
    · exact List.isChain_nil
    · exact List.isChain_singleton _
  induction segments with
  | nil =>
      obtain rfl := hrest.resolve_right fun hboth => hboth.1 rfl
      exact List.isChain_singleton _
  | cons segment segments ih =>
      obtain ⟨⟨hne, hslash⟩, hsegments⟩ := List.forall_mem_cons.mp hsegments
      by_cases hempty : segments = []
      · subst hempty
        have hjoin : join '/' [segment] = segment := List.intercalate_singleton ..
        rw [hjoin]
        exact noDoubles_slash hslash hne hend
      · have ih := ih hsegments (hrest.imp_right fun hboth => ⟨hempty, hboth.2⟩)
        rw [join_cons_of_ne_nil hempty, List.append_assoc]
        exact noDoubles_slash hslash hne ih

theorem pathElements_of_notMem (hslash : '/' ∉ segment) (hne : segment ≠ []) :
    pathElements segment = [segment] := by
  rw [pathElements, List.splitOn_eq_singleton hslash, List.filter_singleton,
    List.isEmpty_eq_false_iff.mpr hne]
  rfl

/-- The segments of a path without consecutive slashes make the path. -/
theorem join_pathElements (hdoubles : NoDoubles path) (hhead : path.head? ≠ some '/') :
    join '/' (pathElements path) ++ (if path.getLast? = some '/' then ['/'] else []) = path := by
  induction hlength : path.length using Nat.strong_induction_on generalizing path with
  | _ n ih =>
      by_cases hslash : '/' ∈ path
      · obtain ⟨segment, rest, rfl, hsegment⟩ := List.eq_append_cons_of_mem hslash
        have hne : segment ≠ [] := by
          rintro rfl
          exact hhead rfl
        obtain ⟨hnext, hrest⟩ := List.isChain_cons.mp hdoubles.right_of_append
        have hhead' : rest.head? ≠ some '/' := fun heq =>
          (hnext '/' heq).elim (fun hne => hne rfl) fun hne => hne rfl
        have hshorter : rest.length < n := by
          rw [← hlength, List.length_append, List.length_cons]
          omega
        have ih := ih rest.length hshorter hrest hhead' rfl
        rw [S3.pathElements_append_slash, pathElements_of_notMem hsegment hne, List.singleton_append]
        cases rest with
        | nil =>
            have hjoin : join '/' [segment] = segment := List.intercalate_singleton ..
            have hlast : (segment ++ ['/']).getLast? = some '/' := List.getLast?_concat
            rw [if_pos hlast]
            exact congrArg (· ++ ['/']) hjoin
        | cons c rest =>
            have helements : pathElements (c :: rest) ≠ [] := by
              intro hnil
              rw [hnil] at ih
              split at ih
              · exact hhead' (ih ▸ rfl)
              · cases ih
            have hlast : (segment ++ '/' :: c :: rest).getLast? = (c :: rest).getLast? := by
              rw [List.getLast?_append, List.getLast?_cons_cons, List.getLast?_cons]
              rfl
            rw [join_cons_of_ne_nil helements, hlast, List.append_assoc, List.cons_append, ih]
      · have hlast : path.getLast? ≠ some '/' := fun heq => hslash (List.mem_of_getLast? heq)
        rw [if_neg hlast, List.append_nil]
        by_cases hne : path = []
        · subst hne
          rfl
        · rw [pathElements_of_notMem hslash hne]
          exact List.intercalate_singleton ..

/-- What `get_path` makes of the path of a connection and a path before its query. -/
def normal (segments : List Text) (needTrailing : Prop) [Decidable needTrailing] : Text :=
  let normal := '/' :: join '/' segments
  if normal.getLast? ≠ some '/' ∧ needTrailing then normal ++ ['/'] else normal

theorem getPath_suppressed (connectionPath : Text) (hne : beforeQuery path ≠ []) :
    getPath connectionPath true path =
      .ok (normal (Connection.segments connectionPath path)
        ((beforeQuery path).getLast? = some '/') ++ queryOf path) := by
  rw [getPath, if_neg (by decide)]
  cases hlast : (beforeQuery path).getLast? with
  | none => exact absurd (List.getLast?_eq_none_iff.mp hlast) hne
  | some last =>
      dsimp only
      simp only [normal, Connection.segments, Option.some.injEq]

/-- The last character of segments between slashes is no slash. -/
theorem getLast?_join (hsegments : ∀ segment ∈ segments, segment ≠ [] ∧ '/' ∉ segment)
    (hne : segments ≠ []) : ('/' :: join '/' segments).getLast? ≠ some '/' := by
  induction segments with
  | nil => exact absurd rfl hne
  | cons segment segments ih =>
      obtain ⟨⟨hsegment, hslash⟩, hsegments⟩ := List.forall_mem_cons.mp hsegments
      by_cases hempty : segments = []
      · subst hempty
        have hjoin : join '/' [segment] = segment := List.intercalate_singleton ..
        rw [hjoin, List.getLast?_cons_of_ne_nil hsegment]
        exact fun heq => hslash (List.mem_of_getLast? heq)
      · have hlast : ('/' :: (segment ++ '/' :: join '/' segments)).getLast? =
            ('/' :: join '/' segments).getLast? := by
          rw [← List.cons_append, List.getLast?_append]
          cases hrest : ('/' :: join '/' segments).getLast? with
          | none => exact absurd (List.getLast?_eq_none_iff.mp hrest) (List.cons_ne_nil _ _)
          | some last => rfl
        rw [join_cons_of_ne_nil hempty, hlast]
        exact ih hsegments hempty

/-- Segments between slashes, with a slash at the end if one is needed. -/
theorem normal_cases {needTrailing : Prop} [Decidable needTrailing]
    (hsegments : ∀ segment ∈ segments, segment ≠ [] ∧ '/' ∉ segment) :
    ∃ rest, normal segments needTrailing = '/' :: (join '/' segments ++ rest) ∧
      (rest = [] ∧ (segments = [] ∨ ¬needTrailing) ∨
        rest = ['/'] ∧ segments ≠ [] ∧ needTrailing) := by
  rw [normal]
  by_cases hne : segments = []
  · subst hne
    refine ⟨[], ?_, .inl ⟨rfl, .inl rfl⟩⟩
    rw [if_neg fun hboth => hboth.1 rfl]
    rfl
  · by_cases htrailing : needTrailing
    · refine ⟨['/'], ?_, .inr ⟨rfl, hne, htrailing⟩⟩
      rw [if_pos ⟨getLast?_join hsegments hne, htrailing⟩, List.cons_append]
    · refine ⟨[], ?_, .inl ⟨rfl, .inr htrailing⟩⟩
      rw [if_neg fun hboth => htrailing hboth.2, List.append_nil]

theorem segments_spec (connectionPath path : Text) :
    ∀ segment ∈ Connection.segments connectionPath path, segment ≠ [] ∧ '/' ∉ segment := by
  intro segment hsegment
  rcases List.mem_append.mp hsegment with hmem | hmem
  · exact S3.mem_pathElements hmem
  · exact S3.mem_pathElements hmem

/-- A path without consecutive slashes that starts with one is normal. -/
theorem normal_of_noDoubles (hdoubles : NoDoubles ('/' :: path)) :
    normal (pathElements ('/' :: path)) (('/' :: path).getLast? = some '/') = '/' :: path := by
  obtain ⟨hnext, hpath⟩ := List.isChain_cons.mp hdoubles
  have hhead : path.head? ≠ some '/' := fun heq =>
    (hnext '/' heq).elim (fun hne => hne rfl) fun hne => hne rfl
  have hjoin := join_pathElements hpath hhead
  have helements : pathElements ('/' :: path) = pathElements path :=
    S3.pathElements_append_slash [] path
  have hsegments : ∀ segment ∈ pathElements path, segment ≠ [] ∧ '/' ∉ segment :=
    fun segment hsegment => S3.mem_pathElements hsegment
  rw [helements]
  cases path with
  | nil => rfl
  | cons c path =>
      rw [List.getLast?_cons_cons]
      obtain ⟨rest, hnormal, ⟨rfl, hend⟩ | ⟨rfl, -, htrailing⟩⟩ :=
        @normal_cases _ ((c :: path).getLast? = some '/') _ hsegments
      · have hlast : (c :: path).getLast? ≠ some '/' := by
          refine hend.resolve_left fun hnil => ?_
          rw [hnil] at hjoin
          split at hjoin
          · exact hhead (hjoin ▸ rfl)
          · cases hjoin
        rw [if_neg hlast] at hjoin
        rw [hnormal, hjoin]
      · rw [if_pos htrailing] at hjoin
        rw [hnormal, hjoin]

/-! ## Normalizing -/

/-- A text is what is before its query, and its query. -/
theorem beforeQuery_append_queryOf (path : Text) : beforeQuery path ++ queryOf path = path :=
  List.takeWhile_append_dropWhile

/-- What is normal up to a query stays as it is. -/
theorem getPath_of_noDoubles {before : Text} (hdoubles : NoDoubles ('/' :: before))
    (hquery : rest = [] ∨ rest.head? = some '?') :
    getPath ['/'] true ('/' :: before ++ rest) = .ok ('/' :: before ++ rest) := by
  have hfront : ∃ front, beforeQuery ('/' :: before ++ rest) = '/' :: front ∧
      NoDoubles ('/' :: front) := by
    refine ⟨beforeQuery before, ?_, ?_⟩
    · have hnone : beforeQuery rest = [] := by
        rcases hquery with rfl | hhead
        · rfl
        · obtain ⟨c, rest, rfl⟩ : ∃ c tail, rest = c :: tail := by
            cases rest with
            | nil => cases hhead
            | cons c tail => exact ⟨c, tail, rfl⟩
          obtain rfl : c = '?' := Option.some.inj hhead
          rfl
      change '/' :: beforeQuery (before ++ rest) = _
      rw [beforeQuery, List.takeWhile_append]
      split
      · rename_i hall
        have htake : before.takeWhile (· ≠ '?') = before :=
          (List.takeWhile_prefix _).eq_of_length hall
        rw [beforeQuery] at hnone ⊢
        rw [htake, hnone, List.append_nil]
      · rfl
    · have hsplit := beforeQuery_append_queryOf before
      rw [← hsplit, ← List.cons_append] at hdoubles
      exact hdoubles.left_of_append
  obtain ⟨front, hbefore, hnormal⟩ := hfront
  have hwhole := beforeQuery_append_queryOf ('/' :: before ++ rest)
  have hne : beforeQuery ('/' :: before ++ rest) ≠ [] := by
    rw [hbefore]
    exact List.cons_ne_nil _ _
  have hsegments : Connection.segments ['/'] ('/' :: before ++ rest) =
      pathElements ('/' :: front) := by
    rw [Connection.segments, hbefore]
    rfl
  rw [getPath_suppressed _ hne, hsegments, hbefore, normal_of_noDoubles hnormal]
  rw [hbefore] at hwhole
  exact congrArg Except.ok hwhole

theorem head?_queryOf (path : Text) : queryOf path = [] ∨ (queryOf path).head? = some '?' := by
  cases hquery : queryOf path with
  | nil => exact .inl rfl
  | cons c rest =>
      have hc := List.head?_dropWhile_not (fun c : Char => decide (c ≠ '?')) path
      rw [queryOf] at hquery
      rw [hquery] at hc
      exact .inr (congrArg some (by simpa using hc))

theorem isNormalized_of_ne_nil (connectionPath : Text) (hne : beforeQuery path ≠ []) :
    ∃ result, getPath connectionPath true path = .ok result ∧
      IsNormalized connectionPath path result := by
  have hspec := segments_spec connectionPath path
  refine ⟨_, getPath_suppressed connectionPath hne, ?_⟩
  obtain ⟨rest, hnormal, hrest⟩ :=
    @normal_cases _ ((beforeQuery path).getLast? = some '/') _ hspec
  have hdoubles := noDoubles_join hspec (hrest.imp And.left fun h => ⟨h.2.1, h.1⟩)
  rw [hnormal]
  constructor
  · refine ⟨_, rfl, ?_, ?_⟩
    · rcases hrest with ⟨rfl, -⟩ | ⟨rfl, hsegments, -⟩
      · exact .inl (by rw [List.append_nil])
      · exact .inr ⟨hsegments, rfl⟩
    · rcases hrest with ⟨rfl, hend⟩ | ⟨rfl, hsegments, htrailing⟩
      · rw [List.append_nil]
        by_cases hempty : Connection.segments connectionPath path = []
        · rw [hempty]
          exact iff_of_true rfl (.inr rfl)
        · refine iff_of_false (getLast?_join hspec hempty) (not_or.mpr ⟨?_, hempty⟩)
          exact hend.resolve_left hempty
      · refine iff_of_true ?_ (.inl htrailing)
        rw [← List.cons_append]
        exact List.getLast?_concat
  · exact getPath_of_noDoubles hdoubles (head?_queryOf path)

end

/-- A path is normalized exactly if slashes are not suppressed, or it has something before its
query. -/
theorem normalizes_iff (connectionPath : Text) (suppressConsecSlashes : Bool) (path : Text) :
    Normalizes connectionPath suppressConsecSlashes path ↔
      (suppressConsecSlashes = true → path ≠ [] ∧ path.head? ≠ some '?') := by
  cases suppressConsecSlashes with
  | false =>
      refine iff_of_true ⟨_, rfl, fun h => absurd h (by decide), ?_⟩ fun h => absurd h (by decide)
      rintro - rfl
      cases path with
      | nil => rfl
      | cons c path =>
          by_cases hc : c = '/'
          · subst hc
            rfl
          · have hdrop : dropSlash (c :: path) = c :: path := by
              rw [dropSlash]
              rintro path' heq
              exact hc (List.cons.inj heq).1
            have hhead : (c :: path).head? ≠ some '/' := fun heq => hc (Option.some.inj heq)
            rw [hdrop, if_neg hhead]
            rfl
  | true =>
      have hempty : beforeQuery path = [] ↔ ¬(path ≠ [] ∧ path.head? ≠ some '?') := by
        cases path with
        | nil => exact iff_of_true rfl fun hboth => hboth.1 rfl
        | cons c path =>
            by_cases hc : c = '?'
            · subst hc
              exact iff_of_true rfl fun hboth => hboth.2 rfl
            · have htake : beforeQuery (c :: path) = c :: beforeQuery path :=
                List.takeWhile_cons_of_pos (decide_eq_true hc)
              refine iff_of_false (htake ▸ List.cons_ne_nil _ _) (not_not.mpr ⟨?_, ?_⟩)
              · exact List.cons_ne_nil _ _
              · exact fun heq => hc (Option.some.inj heq)
      constructor
      · rintro ⟨result, hresult, -, -⟩ -
        by_contra hnot
        rw [getPath, if_neg (by decide), hempty.mpr hnot] at hresult
        cases hresult
      · intro hpath
        obtain ⟨result, hresult, hnormalized⟩ := isNormalized_of_ne_nil connectionPath
          (mt hempty.mp (not_not.mpr (hpath rfl)))
        exact ⟨result, hresult, fun _ => hnormalized, fun h => absurd h (by decide)⟩

/-- `get_path` raises for the empty path. -/
theorem not_normalizes_empty : ¬Normalizes ['/'] true [] := by
  rintro ⟨result, hresult, -⟩
  cases hresult

end Boto.Connection
