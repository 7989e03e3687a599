import Boto.Auth.QueryOrder
import Boto.Auth.S3SigV4
import Boto.Support.MarkCount

/-!
# Queries that are read as forms

The query on a path for S3 is read as a form, where a `#` ends it, a plus is a space, and a
semicolon may separate fields.  A service reads it by its escapes alone.  The marks that
have a meaning of their own are counted on both sides: reading a form never adds one.
-/

namespace Boto.Auth

open PercentEncoding (IsMark markCount plusToSpace total)

/-! ## The query that is read as a form -/

/-- The query that is read from the path to be signed: it ends at a `#`, and nothing is
left of it after one in the path. -/
def authQuery (authPath : Text) : Text :=
  if '#' ∈ authPath.takeWhile (· ≠ '?') then []
  else (sentQuery authPath).takeWhile (· ≠ '#')

theorem query_of_cuts (text : Text) :
    (Urls.cut '?' (Urls.cut '#' text).1).2.getD [] = authQuery text := by
  rw [Urls.cut_fst, authQuery, sentQuery]
  by_cases hquery : '?' ∈ text
  · obtain ⟨path, query, rfl, hpath⟩ := List.eq_append_cons_of_mem hquery
    rw [Urls.takeWhile_append_cons hpath, Urls.cut_append_cons hpath]
    by_cases hhash : '#' ∈ path
    · obtain ⟨before, after, rfl, hbefore⟩ := List.eq_append_cons_of_mem hhash
      have hbefore' : '?' ∉ before := fun hin => hpath (List.mem_append_left _ hin)
      rw [if_pos hhash, List.append_assoc, List.cons_append,
        Urls.takeWhile_append_cons hbefore, Urls.cut_of_notMem hbefore']
      rfl
    · have hall : ∀ c ∈ path, decide (c ≠ '#') = true := fun c hc =>
        decide_eq_true fun heq => hhash (heq ▸ hc)
      rw [if_neg hhash, List.takeWhile_append_of_pos hall,
        List.takeWhile_cons_of_pos (by decide), Urls.cut_append_cons hpath]
      rfl
  · have hcut : '?' ∉ text.takeWhile (· ≠ '#') := fun hin =>
      hquery ((List.takeWhile_sublist _).subset hin)
    rw [Urls.cut_of_notMem hcut, Urls.cut_of_notMem hquery]
    split <;> rfl

theorem authQuery_append {front : Text} (hquery : '?' ∉ front) (hhash : '#' ∉ front)
    (text : Text) : authQuery (front ++ text) = authQuery text := by
  have hall : ∀ c ∈ front, decide (c ≠ '?') = true := fun c hc =>
    decide_eq_true fun heq => hquery (heq ▸ hc)
  have hsent : sentQuery (front ++ text) = sentQuery text := by
    rw [sentQuery, sentQuery, Urls.cut, Urls.cut, List.dropWhile_append_of_pos hall]
    cases text.dropWhile (· ≠ '?') <;> rfl
  rw [authQuery, authQuery, hsent, List.takeWhile_append_of_pos hall]
  simp only [List.mem_append, hhash, false_or]

theorem query_of_urlparse {path : Text} {result : Urls.ParseResult}
    (hparse : Urls.urlparse ('/' :: path) = some result) :
    result.query = authQuery ('/' :: path) := by
  obtain ⟨split, hsplit, hresult⟩ := Option.map_eq_some_iff.mp hparse
  have hquery : result.query = split.query := by
    rw [← hresult]
    dsimp only
    split <;> rfl
  have hnetloc : ∃ front, '/' :: path = front ++ (Urls.netlocOf ('/' :: path)).2 ∧
      '?' ∉ front ∧ '#' ∉ front := by
    by_cases hslashes : "//".toList <+: '/' :: path
    · obtain ⟨rest, heq⟩ := hslashes
      rw [← heq]
      refine ⟨'/' :: '/' :: rest.takeWhile fun c => !Urls.endsNetloc c, ?_, ?_, ?_⟩
      · change '/' :: '/' :: rest = '/' :: '/' ::
          (rest.takeWhile (fun c => !Urls.endsNetloc c) ++
            rest.dropWhile fun c => !Urls.endsNetloc c)
        rw [List.takeWhile_append_dropWhile]
      · intro hin
        rcases List.mem_cons.mp hin with heq | hin
        · cases heq
        · rcases List.mem_cons.mp hin with heq | hin
          · cases heq
          · cases List.all_eq_true.mp List.all_takeWhile '?' hin
      · intro hin
        rcases List.mem_cons.mp hin with heq | hin
        · cases heq
        · rcases List.mem_cons.mp hin with heq | hin
          · cases heq
          · cases List.all_eq_true.mp List.all_takeWhile '#' hin
    · rw [Urls.netlocOf_of_path hslashes]
      exact ⟨[], rfl, List.not_mem_nil, List.not_mem_nil⟩
  obtain ⟨front, heq, hquestion, hhash⟩ := hnetloc
  rw [hquery, heq, authQuery_append hquestion hhash, ← query_of_cuts]
  rw [Urls.urlsplit, Urls.splitScheme_slash] at hsplit
  dsimp only at hsplit
  generalize Urls.netlocOf ('/' :: path) = parts at hsplit
  obtain ⟨netloc, rest⟩ := parts
  dsimp only at hsplit
  split at hsplit
  · rw [← Option.some.inj hsplit]
  · cases hsplit

theorem params_of_mangle {semicolons : Bool} {req updated : HTTPRequest} {path : Text}
    (hpath : req.authPath = '/' :: path)
    (hupdated : S3HmacAuthV4Handler.manglePathAndParams req semicolons = .ok updated) :
    updated.params = req.params.update ((S3HmacAuthV4Handler.parseQs semicolons
      (authQuery req.authPath)).mapValues S3HmacAuthV4Handler.existingValue) := by
  obtain ⟨result, hparse, hupdated⟩ := except_bind_eq_ok.mp hupdated
  cases hupdated
  rw [S3HmacAuthV4Handler.urlparse] at hparse
  split at hparse
  · rename_i result' hresult
    cases hparse
    rw [hpath] at hresult ⊢
    rw [query_of_urlparse hresult]
  · cases hparse

/-! ## Values that are collected -/

/-- The pairs and values of a form, counted for a mark. -/
def pairMarks (mark : Char) (pair : Text × Text) : ℕ :=
  pair.1.count mark + pair.2.count mark

/-- A name and its values, counted for a mark. -/
def itemMarks (mark : Char) (item : Text × List Text) : ℕ :=
  item.1.count mark + total (fun value => value.count mark) item.2

/-- A pair of bytes, counted for a mark. -/
def byteMarks (mark : Char) (pair : Bytes × Bytes) : ℕ :=
  pair.1.count (PercentEncoding.asciiByte mark) + pair.2.count (PercentEncoding.asciiByte mark)

/-- One value of a name, or the text of the list of several. -/
def existingText (library : Library) : List Text → Text
  | [value] => value
  | values => strList library values

theorem getUtf8ableStr_existingValue (library : Library) (values : List Text) :
    getUtf8ableStr library (S3HmacAuthV4Handler.existingValue values) =
      .ok (existingText library values) := by
  match values with
  | [] => rfl
  | [_] => rfl
  | _ :: _ :: _ => rfl

theorem total_setItems {κ ν : Type} [DecidableEq κ] {measure : κ × ν → ℕ} {key : κ} {value : ν}
    (items : List (κ × ν)) :
    total measure (OrderedDict.setItems key value items) +
        ((items.lookup key).map fun old => measure (key, old)).getD 0 =
      total measure items + measure (key, value) := by
  induction items with
  | nil => simp [OrderedDict.setItems, total]
  | cons item items ih =>
      obtain ⟨first, old⟩ := item
      rw [OrderedDict.setItems, List.lookup_cons]
      by_cases hfirst : first = key
      · subst hfirst
        rw [if_pos rfl, beq_self_eq_true]
        simp only [total, Option.map_some, Option.getD_some]
        omega
      · have hne : (key == first) = false := by simpa using fun heq => hfirst (Eq.symm heq)
        rw [if_neg hfirst, hne]
        simp only [total]
        omega

/-- Collecting the values of each name adds no mark. -/
theorem itemMarks_parseQs (mark : Char) (semicolons : Bool) (query : Text) :
    total (itemMarks mark) (S3HmacAuthV4Handler.parseQs semicolons query).items ≤
      total (pairMarks mark) (Urls.parseQsl semicolons query) := by
  have hfold : ∀ (pairs : List (Text × Text)) (dict : OrderedDict Text (List Text)),
      total (itemMarks mark) (pairs.foldl (fun dict pair =>
        dict.set pair.1 ((dict.get? pair.1).getD [] ++ [pair.2])) dict).items ≤
      total (itemMarks mark) dict.items + total (pairMarks mark) pairs := by
    intro pairs
    induction pairs with
    | nil => exact fun dict => Nat.le_refl _
    | cons pair pairs ih =>
        intro dict
        refine Nat.le_trans (ih _) ?_
        have hset := @total_setItems _ _ _ (itemMarks mark) pair.1
          ((dict.get? pair.1).getD [] ++ [pair.2]) dict.items
        change total (itemMarks mark) (dict.set pair.1 _).items +
          ((dict.get? pair.1).map fun old => itemMarks mark (pair.1, old)).getD 0 = _ at hset
        have hvalue : itemMarks mark (pair.1, (dict.get? pair.1).getD [] ++ [pair.2]) =
            itemMarks mark (pair.1, (dict.get? pair.1).getD []) + pair.2.count mark := by
          simp only [itemMarks, PercentEncoding.total_append, total]
          omega
        rw [hvalue] at hset
        rw [total, pairMarks]
        dsimp only
        generalize total (itemMarks mark) (dict.set pair.1
          ((dict.get? pair.1).getD [] ++ [pair.2])).items = marks at hset ⊢
        cases hget : dict.get? pair.1 with
        | none =>
            rw [hget] at hset
            simp only [Option.map_none, Option.getD_none, itemMarks, total] at hset ⊢
            omega
        | some old =>
            rw [hget] at hset
            simp only [Option.map_some, Option.getD_some] at hset ⊢
            omega
  refine Nat.le_trans (hfold _ _) ?_
  simp [OrderedDict.empty, total]

/-- Names that differ have one value each. -/
theorem items_parseQs {semicolons : Bool} {query : Text}
    (hnodup : ((Urls.parseQsl semicolons query).map Prod.fst).Nodup) :
    (S3HmacAuthV4Handler.parseQs semicolons query).items =
      (Urls.parseQsl semicolons query).map fun pair => (pair.1, [pair.2]) := by
  have hfold : ∀ (pairs : List (Text × Text)) (dict : OrderedDict Text (List Text)),
      (dict.keys ++ pairs.map Prod.fst).Nodup →
      (pairs.foldl (fun dict pair =>
        dict.set pair.1 ((dict.get? pair.1).getD [] ++ [pair.2])) dict).items =
      dict.items ++ pairs.map fun pair => (pair.1, [pair.2]) := by
    intro pairs
    induction pairs with
    | nil => exact fun dict _ => (List.append_nil _).symm
    | cons pair pairs ih =>
        intro dict hnodup
        have hkey : pair.1 ∉ dict.keys := fun hin =>
          (List.nodup_append.mp hnodup).2.2 _ hin _ List.mem_cons_self rfl
        have hset := @OrderedDict.items_set_of_notMem _ _ _ dict pair.1
          ((dict.get? pair.1).getD [] ++ [pair.2]) hkey
        have hkeys : (dict.set pair.1 ((dict.get? pair.1).getD [] ++ [pair.2])).keys =
            dict.keys ++ [pair.1] := by
          rw [OrderedDict.keys, hset, List.map_append]
          rfl
        rw [List.foldl_cons, ih, hset, OrderedDict.get?_eq_none_iff.mpr hkey, List.append_assoc]
        · rfl
        · rw [hkeys, List.append_assoc]
          exact hnodup
  exact hfold _ _ hnodup

/-! ## Lists that are written -/

/-- A mark that `repr` never adds. -/
structure IsRawMark (mark : Char) : Prop where
  alphanumeric : mark.isAlphanum = false
  brackets : mark ∉ ['[', ']', ',', ' ', '\'', '"', '\\']

theorem digitChar_isAlphanum : ∀ n < 16, (Nat.digitChar n).isAlphanum = true := by
  decide

theorem isAlphanum_of_mem_toDigits (n : ℕ) {c : Char} (hc : c ∈ Nat.toDigits 16 n) :
    c.isAlphanum = true := by
  induction n using Nat.strongRecOn with
  | ind n ih =>
      rw [Nat.toDigits_eq_if (by decide)] at hc
      split at hc
      · rename_i hsmall
        obtain rfl := List.mem_singleton.mp hc
        exact digitChar_isAlphanum n hsmall
      · rename_i hlarge
        rcases List.mem_append.mp hc with hc | hc
        · exact ih (n / 16) (Nat.div_lt_self (by omega) (by decide)) hc
        · obtain rfl := List.mem_singleton.mp hc
          exact digitChar_isAlphanum _ (Nat.mod_lt _ (by decide))

theorem notMem_hexNumeral {mark : Char} (hmark : IsRawMark mark) (width n : ℕ) :
    mark ∉ hexNumeral width n := by
  intro hin
  have hmem : mark ∈ Nat.toDigits 16 n ∨ mark = '0' := by
    rw [hexNumeral, List.leftpad, List.mem_append] at hin
    rcases hin with hin | hin
    · exact .inr (List.eq_of_mem_replicate hin)
    · exact .inl hin
  have halphanumeric : mark.isAlphanum = true := by
    rcases hmem with hmem | rfl
    · exact isAlphanum_of_mem_toDigits n hmem
    · rfl
  rw [hmark.alphanumeric] at halphanumeric
  cases halphanumeric

theorem count_reprChar_le {mark : Char} (hmark : IsRawMark mark) {isPrintable : Char → Bool}
    (quote c : Char) : (reprChar isPrintable quote c).count mark ≤ if c = mark then 1 else 0 := by
  have hbrackets := hmark.brackets
  simp only [List.mem_cons, List.not_mem_nil, or_false, not_or] at hbrackets
  obtain ⟨-, -, -, -, -, -, hbackslash⟩ := hbrackets
  have hletter : ∀ letter : Char, letter.isAlphanum = true → letter ≠ mark := by
    rintro letter hletter rfl
    rw [hmark.alphanumeric] at hletter
    cases hletter
  have hescape : ∀ (letter : Char) (digits : Text), letter.isAlphanum = true →
      mark ∉ digits →
        (['\\', letter] ++ digits).count mark ≤ if c = mark then 1 else 0 := by
    intro letter digits hletter' hdigits
    have hzero : (['\\', letter] ++ digits).count mark = 0 := by
      rw [List.count_eq_zero]
      simp only [List.cons_append, List.nil_append, List.mem_cons, not_or]
      exact ⟨hbackslash, (hletter letter hletter').symm, hdigits⟩
    rw [hzero]
    exact Nat.zero_le _
  rw [reprChar]
  split
  · rw [List.count_cons_of_ne (Ne.symm hbackslash), List.count_singleton]
    simp only [beq_iff_eq]
    exact Nat.le_refl _
  · split
    · exact hescape 't' [] rfl List.not_mem_nil
    · split
      · exact hescape 'n' [] rfl List.not_mem_nil
      · split
        · exact hescape 'r' [] rfl List.not_mem_nil
        · split
          · rw [List.count_singleton]
            simp only [beq_iff_eq]
            exact Nat.le_refl _
          · split
            · exact hescape 'x' _ rfl (notMem_hexNumeral hmark 2 _)
            · split
              · exact hescape 'u' _ rfl (notMem_hexNumeral hmark 4 _)
              · exact hescape 'U' _ rfl (notMem_hexNumeral hmark 8 _)

theorem count_reprText_le {mark : Char} (hmark : IsRawMark mark) {isPrintable : Char → Bool}
    (text : Text) : (reprText isPrintable text).count mark ≤ text.count mark := by
  have hquote : reprQuote text ≠ mark := by
    have hbrackets := hmark.brackets
    simp only [List.mem_cons, List.not_mem_nil, or_false, not_or] at hbrackets
    rw [reprQuote]
    split
    · exact Ne.symm hbrackets.2.2.2.2.2.1
    · exact Ne.symm hbrackets.2.2.2.2.1
  have hchars : ∀ (quote : Char) (text : Text),
      (text.flatMap (reprChar isPrintable quote)).count mark ≤ text.count mark := by
    intro quote text
    induction text with
    | nil => exact Nat.le_refl 0
    | cons c text ih =>
        rw [List.flatMap_cons, List.count_append, List.count_cons, Nat.add_comm]
        refine Nat.add_le_add ih ?_
        simpa only [beq_iff_eq] using count_reprChar_le hmark quote c
  rw [reprText, List.count_cons_of_ne hquote, List.count_append,
    List.count_cons_of_ne hquote, List.count_nil, Nat.add_zero]
  exact hchars _ text

theorem count_existingText_le {mark : Char} (hmark : IsRawMark mark) (library : Library)
    (values : List Text) :
    (existingText library values).count mark ≤ total (fun value => value.count mark) values := by
  have hbrackets := hmark.brackets
  simp only [List.mem_cons, List.not_mem_nil, or_false, not_or] at hbrackets
  obtain ⟨hopen, hclose, hcomma, hspace, -⟩ := hbrackets
  have hjoin : ∀ values : List Text,
      ([',', ' '].intercalate (values.map (reprText library.isPrintable))).count mark ≤
        total (fun value => value.count mark) values := by
    intro values
    induction values with
    | nil => exact Nat.le_refl 0
    | cons value values ih =>
        have hvalue := @count_reprText_le mark hmark library.isPrintable value
        cases values with
        | nil => simpa [total] using hvalue
        | cons next values =>
            rw [List.map_cons, List.intercalate_cons_of_ne_nil (by simp), List.count_append,
              List.count_append, List.count_cons_of_ne (Ne.symm hcomma),
              List.count_cons_of_ne (Ne.symm hspace), List.count_nil, total]
            omega
  have hlist : (strList library values).count mark ≤
      total (fun value => value.count mark) values := by
    rw [strList, List.count_cons_of_ne (Ne.symm hopen), List.count_append,
      List.count_cons_of_ne (Ne.symm hclose), List.count_nil, Nat.add_zero]
    exact hjoin values
  cases values with
  | nil => exact hlist
  | cons value rest =>
      cases rest with
      | nil => exact Nat.le_add_right _ _
      | cons next rest => exact hlist

/-! ## Fields that are read -/

/-- The marks that have a meaning when a query is read as a form, and none in a query that
is encoded. -/
structure IsFormMark (mark : Char) : Prop extends IsMark mark, IsRawMark mark where
  field : mark ≠ '='
  query : mark ≠ '&'
  space : mark ≠ ' '

theorem isFormMark {mark : Char} (hmark : mark ∈ ['#', '+', ';']) : IsFormMark mark := by
  simp only [List.mem_cons, List.not_mem_nil, or_false] at hmark
  rcases hmark with rfl | rfl | rfl <;>
    exact ⟨⟨by decide, by decide, by decide⟩, ⟨by decide, by decide⟩, by decide, by decide,
      by decide⟩

theorem isMark_equals : IsMark '=' := ⟨by decide, by decide, by decide⟩

theorem isMark_separator {semicolons : Bool} {c : Char}
    (hc : (c = '&' || semicolons && c = ';') = true) : IsMark c := by
  have hcases : c = '&' ∨ c = ';' := by
    rcases Bool.or_eq_true_iff.mp hc with hc | hc
    · exact .inl (of_decide_eq_true hc)
    · exact .inr (of_decide_eq_true (Bool.and_eq_true_iff.mp hc).2)
  rcases hcases with rfl | rfl <;> exact ⟨by decide, by decide, by decide⟩

section

variable {mark : Char} {query : Text}

theorem byteMarks_servedPair (hmark : IsFormMark mark) (field : Text) :
    byteMarks mark (servedPair field) = markCount mark field := by
  rw [servedPair]
  by_cases hin : '=' ∈ field
  · obtain ⟨name, value, rfl, hname⟩ := List.eq_append_cons_of_mem hin
    rw [Urls.cut_append_cons hname,
      PercentEncoding.markCount_append_cons hmark.toIsMark isMark_equals, if_neg hmark.field.symm]
    rfl
  · rw [Urls.cut_of_notMem hin]
    rfl

/-- A service reads all the marks of a query. -/
theorem byteMarks_servedPairs (hmark : IsFormMark mark) (query : Text) :
    total (byteMarks mark) (servedPairs query) = markCount mark query := by
  rw [servedPairs, PercentEncoding.total_map, PercentEncoding.total_filter,
    List.splitOn_eq_splitOnP]
  · have hsplit := @PercentEncoding.total_splitOnP (· == '&') (markCount mark)
      (fun c => if c = mark then 1 else 0) (fun front c back hc => by
        obtain rfl := beq_iff_eq.mp hc
        exact PercentEncoding.markCount_append_cons hmark.toIsMark
          ⟨by decide, by decide, by decide⟩ front back) query
    have hzero : total (fun c => if c = mark then 1 else 0) (query.filter (· == '&')) = 0 := by
      rw [← Nat.le_zero]
      refine Nat.le_trans (@PercentEncoding.total_le _ _ (fun _ => 0) _ fun c hc => ?_) ?_
      · obtain rfl := beq_iff_eq.mp (List.mem_filter.mp hc).2
        rw [if_neg hmark.query.symm]
      · induction query.filter (· == '&') with
        | nil => exact Nat.le_refl 0
        | cons c rest ih => rwa [total, Nat.zero_add]
    rw [hzero, Nat.add_zero] at hsplit
    simpa only [byteMarks_servedPair hmark] using hsplit
  · intro field _ hempty
    rw [Bool.not_eq_false', List.isEmpty_iff] at hempty
    rw [hempty]
    rfl

theorem count_unquotePlus_le (hmark : IsFormMark mark) {text : Text}
    (hascii : ∀ c ∈ text, c.val ≤ 127) :
    (PercentEncoding.unquotePlus text).count mark ≤ markCount mark (plusToSpace text) := by
  have hascii' : ∀ c ∈ plusToSpace text, c.val ≤ 127 := by
    intro c hc
    obtain ⟨d, hd, rfl⟩ := List.mem_map.mp hc
    split
    · decide
    · exact hascii d hd
  change (PercentEncoding.unquote (plusToSpace text)).count mark ≤ _
  rw [PercentEncoding.unquote_of_ascii hascii']
  exact PercentEncoding.count_decode_le hmark.ascii _

theorem plusToSpace_append_cons {c : Char} (hc : c ≠ '+') (front back : Text) :
    plusToSpace (front ++ c :: back) = plusToSpace front ++ c :: plusToSpace back := by
  rw [plusToSpace, List.map_append, List.map_cons, if_neg hc]
  rfl

/-- What is read as a form has no more marks than the fields. -/
theorem pairMarks_parseQsl_le (hmark : IsFormMark mark) {semicolons : Bool}
    (hascii : ∀ c ∈ query, c.val ≤ 127) :
    total (pairMarks mark) (Urls.parseQsl semicolons query) ≤
      total (fun field => markCount mark (plusToSpace field)) (Urls.fields semicolons query) := by
  rw [Urls.parseQsl, PercentEncoding.total_map, PercentEncoding.total_filter]
  · refine PercentEncoding.total_le fun field hfield => ?_
    have hfield : ∀ c ∈ field, c.val ≤ 127 := fun c hc =>
      hascii c (mem_of_mem_splitOnP hfield hc)
    by_cases hin : '=' ∈ field
    · obtain ⟨name, value, rfl, hname⟩ := List.eq_append_cons_of_mem hin
      have hname' := @count_unquotePlus_le mark hmark name fun c hc =>
        hfield c (List.mem_append_left _ hc)
      have hvalue' := @count_unquotePlus_le mark hmark value fun c hc =>
        hfield c (List.mem_append_right _ (List.mem_cons_of_mem _ hc))
      rw [Urls.cut_append_cons hname, plusToSpace_append_cons (by decide),
        PercentEncoding.markCount_append_cons hmark.toIsMark isMark_equals,
        if_neg hmark.field.symm]
      simp only [pairMarks, Option.getD_some]
      omega
    · rw [Urls.cut_of_notMem hin]
      exact count_unquotePlus_le hmark hfield
  · intro field _ hempty
    rw [Bool.not_eq_false', List.isEmpty_iff] at hempty
    rw [hempty]
    rfl

theorem markCount_fields (hmark : IsFormMark mark) (semicolons : Bool) (query : Text) :
    total (fun field => markCount mark (plusToSpace field)) (Urls.fields semicolons query) +
        total (fun c => if c = mark then 1 else 0)
          (query.filter fun c => c = '&' || semicolons && c = ';') +
      (if mark = '+' then query.count '+' else 0) = markCount mark query := by
  rw [← PercentEncoding.markCount_plusToSpace hmark.toIsMark hmark.space, Urls.fields]
  refine congrArg (· + _) (PercentEncoding.total_splitOnP ?_ query)
  intro front c back hc
  have hplus : c ≠ '+' := by
    rintro rfl
    cases semicolons <;> cases hc
  rw [plusToSpace_append_cons hplus,
    PercentEncoding.markCount_append_cons hmark.toIsMark (isMark_separator hc)]

end

end Boto.Auth
