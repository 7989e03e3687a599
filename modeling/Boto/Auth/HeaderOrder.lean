import Boto.Auth.S3SigV4

/-!
# The order of signed headers

The canonical headers are sorted as lines, and the signed headers as names.  The two
orders agree unless one name starts another one that goes on with a character before the
colon, which ends the shorter name in its line.
-/

namespace Boto.Auth.HmacAuthV4Handler

/-- The names that the lines of canonical headers start with. -/
def lineNames (canonical : Text) : List Text :=
  (canonical.splitOn '\n').map fun line => line.takeWhile (· ≠ ':')

/-- The lines and the list of signed headers name the same headers, in the order of the
names. -/
structure HeadersMatch (headersToSign : OrderedDict Text Data) : Prop where
  names : lineNames (canonicalHeaders headersToSign) =
    (signedHeaders headersToSign).splitOn ';'
  ascending : (lineNames (canonicalHeaders headersToSign)).Pairwise TextLe

/-- The names have no separators, and none goes on where another one ends with a character
before the colon. -/
structure Separable (names : List Text) : Prop where
  clean : ∀ name ∈ names, ∀ c ∈ name, c ≠ ':' ∧ c ≠ ';' ∧ c ≠ '\n'
  extension : ∀ name ∈ names, ∀ c rest, name ++ c :: rest ∈ names → ':' ≤ c

/-- The line of a header. -/
def headerLine (header : Text × Data) : Text :=
  canonicalName header.1 ++ ':' :: canonicalValue header.2

section

variable {headers : OrderedDict Text Data}

theorem newline_notMem_canonicalValue {value : Data} (hvalue : '\n' ∉ strData value) :
    '\n' ∉ canonicalValue value := by
  rw [canonicalValue]
  split
  · exact fun hin => hvalue (mem_of_mem_stripText hin)
  · intro hin
    obtain ⟨word, hword, hin⟩ := mem_of_mem_join hin (by decide)
    exact hvalue (mem_of_mem_stripText (mem_of_mem_words hword hin))

theorem takeWhile_line {name : Text} (hname : ':' ∉ name) (value : Text) :
    (name ++ ':' :: value).takeWhile (· ≠ ':') = name := by
  rw [List.takeWhile_append_of_pos]
  · simp
  · intro c hc
    exact decide_eq_true fun heq => hname (heq ▸ hc)

/-- A line of a name that comes first comes first. -/
theorem line_lt_line {names : List Text} (hnames : Separable names) {name other : Text}
    (hname : name ∈ names) (hother : other ∈ names) (hlt : name < other)
    (value value' : Text) : name ++ ':' :: value < other ++ ':' :: value' := by
  rcases lt_iff_split.mp hlt with ⟨c, rest, rfl⟩ | ⟨front, c, d, rest, rest', rfl, rfl, hcd⟩
  · have hle := hnames.extension name hname c rest hother
    have hne : ':' ≠ c := fun heq => (hnames.clean _ hother c (by simp)).1 heq.symm
    rw [List.append_assoc]
    refine lt_iff_split.mpr (.inr ⟨name, ':', c, _, _, rfl, rfl, ?_⟩)
    exact Std.lt_of_le_of_ne hle hne
  · rw [List.append_assoc, List.append_assoc]
    exact lt_iff_split.mpr (.inr ⟨front, c, d, _, _, rfl, rfl, hcd⟩)

theorem exists_header {name : Text} (hname : name ∈ headers.keys.map canonicalName) :
    ∃ header ∈ headers.items, canonicalName header.1 = name := by
  rw [OrderedDict.keys, List.map_map] at hname
  exact List.mem_map.mp hname

theorem mem_names {header : Text × Data} (hheader : header ∈ headers.items) :
    canonicalName header.1 ∈ headers.keys.map canonicalName :=
  List.mem_map_of_mem (List.mem_map_of_mem hheader)

/-- The names at the start of the lines, where no line is broken. -/
theorem lineNames_canonicalHeaders (hne : headers.items ≠ [])
    (hclean : ∀ name ∈ headers.keys.map canonicalName, ':' ∉ name ∧ '\n' ∉ name)
    (hvalues : ∀ header ∈ headers.items, '\n' ∉ strData header.2) :
    lineNames (canonicalHeaders headers) =
      (sorted (headers.items.map headerLine)).map (·.takeWhile (· ≠ ':')) := by
  rw [lineNames, canonicalHeaders, join, List.splitOn_intercalate]
  · rfl
  · intro line hline hin
    obtain ⟨header, hheader, rfl⟩ := List.mem_map.mp (mem_sorted.mp hline)
    have hname := mem_names hheader
    rcases List.mem_append.mp hin with hin | hin
    · exact (hclean _ hname).2 hin
    · rcases List.mem_cons.mp hin with heq | hin
      · cases heq
      · exact newline_notMem_canonicalValue (hvalues header hheader) hin
  · exact sorted_ne_nil fun hempty => hne (List.map_eq_nil_iff.mp hempty)

/-- These are the names of the headers, in some order. -/
theorem lineNames_perm (hne : headers.items ≠ [])
    (hclean : ∀ name ∈ headers.keys.map canonicalName, ':' ∉ name ∧ '\n' ∉ name)
    (hvalues : ∀ header ∈ headers.items, '\n' ∉ strData header.2) :
    (lineNames (canonicalHeaders headers)).Perm (headers.keys.map canonicalName) := by
  rw [lineNames_canonicalHeaders hne hclean hvalues]
  refine ((sorted_perm _).map _).trans ?_
  rw [List.map_map, OrderedDict.keys, List.map_map]
  refine List.Perm.of_eq (List.map_congr_left fun header hheader => ?_)
  exact takeWhile_line (hclean _ (mem_names hheader)).1 _

theorem HeadersMatch.separable (hne : headers.items ≠ [])
    (hvalues : ∀ header ∈ headers.items, '\n' ∉ strData header.2)
    (hmatch : HeadersMatch headers) : Separable (headers.keys.map canonicalName) := by
  have hpieces : ∀ piece ∈ lineNames (canonicalHeaders headers),
      ':' ∉ piece ∧ '\n' ∉ piece ∧ ';' ∉ piece := by
    intro piece hpiece
    have hsemicolon : ';' ∉ piece := notMem_of_mem_splitOn (hmatch.names ▸ hpiece)
    obtain ⟨line, hline, rfl⟩ := List.mem_map.mp hpiece
    refine ⟨fun hin => ?_, fun hin => ?_, hsemicolon⟩
    · have hall := List.all_eq_true.mp (@List.all_takeWhile _ (· ≠ ':') line) ':' hin
      exact of_decide_eq_true hall rfl
    · exact notMem_of_mem_splitOn hline ((List.takeWhile_sublist _).subset hin)
  have hclean : ∀ name ∈ headers.keys.map canonicalName, ':' ∉ name ∧ '\n' ∉ name := by
    have hsigned : ∀ name ∈ headers.keys.map canonicalName, ∀ c ∈ name, c ≠ ';' →
        c ≠ ':' ∧ c ≠ '\n' := by
      intro name hname c hc hne
      have hin : c ∈ signedHeaders headers := mem_join_of_mem (mem_sorted.mpr hname) hc
      obtain ⟨piece, hpiece, hc⟩ := exists_mem_splitOn hin hne
      obtain ⟨hcolon, hnewline, -⟩ := hpieces piece (hmatch.names ▸ hpiece)
      exact ⟨fun heq => hcolon (heq ▸ hc), fun heq => hnewline (heq ▸ hc)⟩
    intro name hname
    exact ⟨fun hin => (hsigned name hname ':' hin (by decide)).1 rfl,
      fun hin => (hsigned name hname '\n' hin (by decide)).2 rfl⟩
  have hperm := lineNames_perm hne hclean hvalues
  refine ⟨fun name hname c hc => ?_, fun name hname c rest hother => ?_⟩
  · obtain ⟨hcolon, hnewline, hsemicolon⟩ := hpieces name (hperm.mem_iff.mpr hname)
    exact ⟨fun heq => hcolon (heq ▸ hc), fun heq => hsemicolon (heq ▸ hc),
      fun heq => hnewline (heq ▸ hc)⟩
  · rw [← Char.not_lt]
    intro hlt
    obtain ⟨header, hheader, rfl⟩ := exists_header hname
    obtain ⟨header', hheader', heq⟩ := exists_header hother
    have hline : headerLine header' < headerLine header := by
      rw [headerLine, headerLine, heq, List.append_assoc]
      exact lt_iff_split.mpr (.inr ⟨_, c, ':', _, _, rfl, rfl, hlt⟩)
    have hfirst : canonicalName header.1 < canonicalName header'.1 := by
      rw [heq]
      exact lt_iff_split.mpr (.inl ⟨c, rest, rfl⟩)
    have hascending := hmatch.ascending
    rw [lineNames_canonicalHeaders hne hclean hvalues, List.pairwise_map] at hascending
    have hin := mem_sorted.mpr (@List.mem_map_of_mem _ _ _ _ headerLine hheader)
    have hin' := mem_sorted.mpr (@List.mem_map_of_mem _ _ _ _ headerLine hheader')
    have hdistinct : headerLine header ≠ headerLine header' := fun heq =>
      List.lt_irrefl _ (heq ▸ hline)
    rcases pairwise_or ((pairwise_sorted _).and hascending) hin hin' hdistinct with
      ⟨hle, -⟩ | ⟨-, hle⟩
    · exact hle hline
    · rw [headerLine, headerLine, takeWhile_line (hclean _ hname).1,
        takeWhile_line (heq ▸ (hclean _ hother).1)] at hle
      exact hle hfirst

theorem Separable.headersMatch (hne : headers.items ≠ [])
    (hvalues : ∀ header ∈ headers.items, '\n' ∉ strData header.2)
    (hnames : Separable (headers.keys.map canonicalName)) : HeadersMatch headers := by
  have hclean : ∀ name ∈ headers.keys.map canonicalName, ':' ∉ name ∧ '\n' ∉ name :=
    fun name hname => ⟨fun hin => (hnames.clean name hname ':' hin).1 rfl,
      fun hin => (hnames.clean name hname '\n' hin).2.2 rfl⟩
  have hperm := lineNames_perm hne hclean hvalues
  have hascending : (lineNames (canonicalHeaders headers)).Pairwise TextLe := by
    rw [lineNames_canonicalHeaders hne hclean hvalues, List.pairwise_map]
    refine (pairwise_sorted _).imp_of_mem ?_
    intro line line' hline hline' hle hlt
    obtain ⟨header, hheader, rfl⟩ := List.mem_map.mp (mem_sorted.mp hline)
    obtain ⟨header', hheader', rfl⟩ := List.mem_map.mp (mem_sorted.mp hline')
    have hname := mem_names hheader
    have hname' := mem_names hheader'
    rw [headerLine, headerLine, takeWhile_line (hclean _ hname).1,
      takeWhile_line (hclean _ hname').1] at hlt
    exact hle (line_lt_line hnames hname' hname hlt _ _)
  refine ⟨?_, hascending⟩
  rw [signedHeaders, join, List.splitOn_intercalate]
  · exact eq_sorted_of_perm hperm hascending
  · exact fun name hname hin => (hnames.clean name (mem_sorted.mp hname) ';' hin).2.1 rfl
  · refine sorted_ne_nil fun hempty => hne ?_
    exact List.map_eq_nil_iff.mp (List.map_eq_nil_iff.mp hempty)

theorem separable_iff_headersMatch
    (hvalues : ∀ header ∈ headers.items, '\n' ∉ strData header.2) :
    HeadersMatch headers ↔ Separable (headers.keys.map canonicalName) := by
  by_cases hempty : headers.items = []
  · refine iff_of_true ?_ ?_
    · refine ⟨?_, ?_⟩ <;> rw [canonicalHeaders, hempty]
      · rw [signedHeaders, OrderedDict.keys, hempty]
        rfl
      · exact List.pairwise_singleton ..
    · rw [OrderedDict.keys, hempty]
      exact ⟨by simp, by simp⟩
  · exact ⟨HeadersMatch.separable hempty hvalues, Separable.headersMatch hempty hvalues⟩

end

/-- A handler with keys. -/
def plainHandler : HmacAuthV4Handler where
  host := "h".toList
  provider :=
    { accessKey := "a".toList
      secretKey := "s".toList
      securityToken := none
      securityTokenHeader := "x-amz-security-token".toList
      authHeader := "AWS".toList
      headerPrefix := "x-amz-".toList
      dateHeader := "x-amz-date".toList }
  serviceName := none
  regionName := none

/-- A request with some headers. -/
def requestWithHeaders (headers : OrderedDict Text Data) : HTTPRequest :=
  .init "GET".toList "https".toList "h".toList 443 "/".toList none .empty headers (.text [])

end Boto.Auth.HmacAuthV4Handler
