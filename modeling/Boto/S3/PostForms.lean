import Boto.Auth.QueryOrder
import Boto.WrittenNumbers
import Boto.S3.PostPolicy

/-!
# What upload forms are accepted with

The conditions of a policy are read back exactly if their values are plain: a document with
escapes or with quotes that came in by a value has more marks than the conditions that are asked
for.  The fields and the conditions of a call pair up.
-/

namespace Boto.S3

open Auth (strInt)

/-! ## Numbers and times -/

theorem integer_strInt (value : ℤ) : integer (strInt value) = some value := by
  rw [integer, parseInt_strInt]
  rfl

/-- The characters of times and numbers. -/
def isTimeChar (c : Char) : Bool :=
  c.isDigit || ['-', 'T', ':', 'Z'].contains c

theorem isTimeChar_twoDigits (n : ℕ) : (twoDigits n).all isTimeChar = true := by
  have hdecimal : ∀ c ∈ decimal n, isTimeChar c = true := by
    intro c hc
    rw [isTimeChar, isDigit_of_mem_decimal hc]
    rfl
  rw [twoDigits]
  split
  · exact List.all_eq_true.mpr (List.forall_mem_cons.mpr ⟨rfl, hdecimal⟩)
  · exact List.all_eq_true.mpr hdecimal

theorem isTimeChar_iso8601 (t : StructTime) : t.iso8601.all isTimeChar = true := by
  have hyear : (decimal t.year).all isTimeChar = true := by
    refine List.all_eq_true.mpr fun c hc => ?_
    rw [isTimeChar, isDigit_of_mem_decimal hc]
    rfl
  have hmark : isTimeChar '-' = true ∧ isTimeChar 'T' = true ∧ isTimeChar ':' = true ∧
      isTimeChar 'Z' = true := by decide
  simp only [StructTime.iso8601, List.all_append, List.all_cons, List.all_nil, hyear,
    isTimeChar_twoDigits, hmark, Bool.and_self]

theorem isTimeChar_strInt (value : ℤ) : (strInt value).all isTimeChar = true := by
  refine List.all_eq_true.mpr fun c hc => ?_
  rcases strInt_chars hc with hdigit | rfl
  · rw [isTimeChar, hdigit]
    rfl
  · rfl

/-- Times and numbers are plain, without marks, and ASCII. -/
theorem isTimeChar_spec {c : Char} (hc : isTimeChar c = true) :
    (c ≠ '"' ∧ c ≠ '\\' ∧ 0x20 ≤ c.toNat) ∧ Json.isMark c = false ∧ isAscii c = true := by
  have hrange : 45 ≤ c.toNat ∧ c.toNat ≤ 90 := by
    rw [isTimeChar, Bool.or_eq_true] at hc
    rcases hc with hdigit | hmark
    · rw [Char.isDigit, Bool.and_eq_true, decide_eq_true_eq, decide_eq_true_eq] at hdigit
      have hlow : 48 ≤ c.toNat := hdigit.1
      have hhigh : c.toNat ≤ 57 := hdigit.2
      omega
    · have hall : ∀ d ∈ ['-', 'T', ':', 'Z'], 45 ≤ d.toNat ∧ d.toNat ≤ 90 := by simp
      exact hall c (by simpa using hmark)
  have hne : ∀ d : Char, d.toNat < 45 ∨ 90 < d.toNat → c ≠ d := by
    rintro d hd rfl
    omega
  have hquote := hne '"' (by decide)
  have hslash := hne '\\' (by decide)
  have hmark := hne 'u' (by decide)
  refine ⟨⟨hquote, hslash, by omega⟩, ?_, decide_eq_true (by omega)⟩
  simp [Json.isMark, hslash, hmark]

section

variable {text : Text}

theorem isPlain_of_time (htime : text.all isTimeChar = true) : Json.isPlain text = true := by
  refine List.all_eq_true.mpr fun c hc => ?_
  obtain ⟨⟨hquote, hslash, hcontrol⟩, -⟩ := isTimeChar_spec (List.all_eq_true.mp htime c hc)
  simp [hquote, hslash, hcontrol]

theorem weight_of_time (htime : text.all isTimeChar = true) : Json.weight text = 0 := by
  refine List.countP_eq_zero.mpr fun c hc => ?_
  obtain ⟨-, hmark, -⟩ := isTimeChar_spec (List.all_eq_true.mp htime c hc)
  simp [hmark]

theorem isAscii_of_time (htime : text.all isTimeChar = true) : text.all isAscii = true := by
  refine List.all_eq_true.mpr fun c hc => ?_
  exact (isTimeChar_spec (List.all_eq_true.mp htime c hc)).2.2

end

/-! ## Conditions -/

namespace Condition

/-- A string of a document. -/
def quoted (text : Text) : Text := '"' :: (text ++ ['"'])

/-- The operator for the start of a field. -/
def startsWithOperator : Text := "starts-with".toList

/-- The operator for the length of the file. -/
def rangeOperator : Text := "content-length-range".toList

/-- What is written for a condition. -/
def text : Condition → Text
  | equals name value => '{' :: (('"' :: (name ++ '"' :: ':' :: ' ' :: quoted value)) ++ ['}'])
  | startsWith name start =>
      '[' :: ((quoted startsWithOperator ++
        ',' :: ' ' :: (quoted ('$' :: name) ++ ',' :: ' ' :: quoted start)) ++ [']'])
  | contentLengthRange low high =>
      '[' :: ((quoted rangeOperator ++
        ',' :: ' ' :: (strInt low ++ ',' :: ' ' :: strInt high)) ++ [']'])

/-- What is read of it. -/
def json : Condition → Json
  | equals name value => .object [(name, .string value)]
  | startsWith name start =>
      .array [.string startsWithOperator, .string ('$' :: name), .string start]
  | contentLengthRange low high =>
      .array [.string rangeOperator, .number (strInt low), .number (strInt high)]

/-- The texts in a condition. -/
def texts : Condition → List Text
  | equals name value => [name, value]
  | startsWith name start => [name, start]
  | contentLengthRange _ _ => []

/-- A condition with plain texts. -/
def Plain (condition : Condition) : Prop :=
  ∀ part ∈ condition.texts, Json.isPlain part = true

theorem plain_startsWithOperator : Json.isPlain startsWithOperator = true := by decide

theorem plain_rangeOperator : Json.isPlain rangeOperator = true := by decide

open Json in
theorem reads_text {condition : Condition} (hplain : condition.Plain) :
    Json.Reads condition.json condition.text := by
  have hspace : IsBlank [(' ' : Char)] := isBlank_singleton (by decide)
  cases condition with
  | equals name value =>
      have hname := hplain name List.mem_cons_self
      have hvalue := hplain value (List.mem_cons_of_mem _ List.mem_cons_self)
      exact reads_object (readsMembers_last isBlank_nil (isContent_of_isPlain hname) hspace
        (reads_string (isContent_of_isPlain hvalue)))
  | startsWith name start =>
      have hname := hplain name List.mem_cons_self
      have hstart := hplain start (List.mem_cons_of_mem _ List.mem_cons_self)
      have hvariable : isPlain ('$' :: name) = true := by
        rw [isPlain, List.all_cons]
        exact hname
      exact reads_array (readsItems_more isBlank_nil
        (reads_string (isContent_of_isPlain plain_startsWithOperator))
        (readsItems_more hspace (reads_string (isContent_of_isPlain hvariable))
          (readsItems_last hspace (reads_string (isContent_of_isPlain hstart)))))
  | contentLengthRange low high =>
      exact reads_array (readsItems_more isBlank_nil
        (reads_string (isContent_of_isPlain plain_rangeOperator))
        (readsItems_more hspace (reads_strInt low) (readsItems_last hspace (reads_strInt high))))

theorem readCondition_json (condition : Condition) :
    readCondition condition.json = some condition := by
  cases condition with
  | equals name value => rfl
  | startsWith name start =>
      have hne : startsWithOperator ≠ "eq".toList := by decide
      have hsame : startsWithOperator = "starts-with".toList := rfl
      simp only [json, readCondition, if_neg hne, if_pos hsame]
      rfl
  | contentLengthRange low high =>
      have hsame : rangeOperator = "content-length-range".toList := rfl
      simp only [json, readCondition, if_pos hsame, integer_strInt]
      rfl

/-! ## What escapes would cost -/

theorem weight_startsWithOperator : Json.weight startsWithOperator = 0 := by decide

theorem weight_rangeOperator : Json.weight rangeOperator = 0 := by decide

/-- A character that is no mark. -/
theorem weight_cons_of_not_isMark {c : Char} (hc : Json.isMark c = false) (text : Text) :
    Json.weight (c :: text) = Json.weight text := by
  rw [Json.weight_cons, hc]
  exact Nat.zero_add _

theorem weight_quoted (text : Text) : Json.weight (quoted text) = Json.weight text := by
  have hquote : Json.weight ['"'] = 0 := by decide
  rw [quoted, weight_cons_of_not_isMark (by decide), Json.weight_append, hquote, Nat.add_zero]

/-- The marks of a condition are those of its texts. -/
theorem weight_text (condition : Condition) :
    Json.weight condition.text = Json.weights condition.texts := by
  have hend : Json.weight ['}'] = 0 ∧ Json.weight [']'] = 0 := by decide
  have hmark : ∀ c ∈ ['"', ':', ' ', ',', '$', '{', '['], Json.isMark c = false := by
    simp [Json.isMark]
  have hskip : ∀ c ∈ ['"', ':', ' ', ',', '$', '{', '['], ∀ text,
      Json.weight (c :: text) = Json.weight text := fun c hc =>
    weight_cons_of_not_isMark (hmark c hc)
  have hnumber : ∀ value, Json.weight (strInt value) = 0 := fun value =>
    weight_of_time (isTimeChar_strInt value)
  cases condition with
  | equals name value =>
      simp [text, texts, hskip, weight_quoted, hend]
  | startsWith name start =>
      simp [text, texts, hskip, weight_quoted, hend, weight_startsWithOperator]
  | contentLengthRange low high =>
      simp [text, texts, hskip, weight_quoted, hend, weight_rangeOperator, hnumber]

theorem eq_cons_of_variableName {text name : Text}
    (hname : variableName text = some name) :
    text = '$' :: name := by
  rw [variableName.eq_def] at hname
  split at hname
  · rw [Option.some.inj hname]
  · cases hname

/-- The strings of an item that is read as a condition are the texts of the condition, up to
text without marks. -/
theorem strings_of_readCondition {item : Json} {condition : Condition}
    (hread : readCondition item = some condition) :
    Json.weights item.strings = Json.weights condition.texts ∧
      ((∀ part ∈ item.strings, Json.isPlain part = true) → condition.Plain) := by
  have hcons : ∀ name, Json.weight ('$' :: name) = Json.weight name :=
    weight_cons_of_not_isMark (by decide)
  have hplain : ∀ name, Json.isPlain ('$' :: name) = true → Json.isPlain name = true := by
    intro name hname
    rw [Json.isPlain, List.all_cons, Bool.and_eq_true] at hname
    exact hname.2
  rw [readCondition.eq_def] at hread
  split at hread
  · rename_i name value
    cases hread
    simp [Json.strings, Json.stringsOfMembers, texts, Plain]
  · rename_i operator written value
    have hoperator : operator = "eq".toList ∨ operator = "starts-with".toList := by
      by_contra hnone
      rw [not_or] at hnone
      rw [if_neg hnone.1, if_neg hnone.2] at hread
      cases hread
    have hweight : Json.weight operator = 0 := by
      rcases hoperator with rfl | rfl <;> decide
    have hname : ∃ name, written = '$' :: name ∧ condition.texts = [name, value] := by
      split at hread
      · obtain ⟨name, hname, rfl⟩ := Option.map_eq_some_iff.mp hread
        exact ⟨name, eq_cons_of_variableName hname, rfl⟩
      · split at hread
        · obtain ⟨name, hname, rfl⟩ := Option.map_eq_some_iff.mp hread
          exact ⟨name, eq_cons_of_variableName hname, rfl⟩
        · cases hread
    obtain ⟨name, rfl, htexts⟩ := hname
    rw [Plain, htexts]
    constructor
    · simp [Json.strings, Json.stringsOf, hweight, hcons]
    · intro hparts
      simp only [Json.strings, Json.stringsOf] at hparts
      have hname := hplain name (hparts ('$' :: name) (by simp))
      have hvalue := hparts value (by simp)
      exact List.forall_mem_cons.mpr ⟨hname, List.forall_mem_singleton.mpr hvalue⟩
  · rename_i operator low high
    split at hread
    · rename_i hoperator
      have hweight : Json.weight operator = 0 := by
        rw [hoperator]
        decide
      obtain ⟨first, -, hread⟩ := Option.bind_eq_some_iff.mp hread
      obtain ⟨last, -, hread⟩ := Option.bind_eq_some_iff.mp hread
      cases hread
      simp [Json.strings, Json.stringsOf, texts, Plain, hweight]
    · cases hread
  · cases hread

end Condition

/-! ## Documents -/

section

open Condition

variable {conditions : List Condition} (t : StructTime)

/-- The names of the members of a policy. -/
def expirationName : Text := "expiration".toList

@[inherit_doc expirationName]
def conditionsName : Text := "conditions".toList

theorem buildPostPolicy_eq (texts : List Text) :
    buildPostPolicy t texts = '{' :: (('"' :: (expirationName ++ '"' :: ':' :: ' ' ::
      (quoted t.iso8601 ++ ',' :: '\n' :: '"' :: (conditionsName ++ '"' :: ':' :: ' ' ::
        ('[' :: (join ',' texts ++ [']'])))))) ++ ['}']) := by
  have hstart : "\x7b\"expiration\": \"".toList =
      '{' :: '"' :: (expirationName ++ ['"', ':', ' ', '"']) := by decide
  have hmiddle : "\",\n\"conditions\": [".toList =
      '"' :: ',' :: '\n' :: '"' :: (conditionsName ++ ['"', ':', ' ', '[']) := by decide
  have hend : "]\x7d".toList = [']', '}'] := by decide
  unfold buildPostPolicy
  simp only [hstart, hmiddle, hend, quoted, List.append_assoc, List.cons_append, List.nil_append]

/-- The conditions that are joined are read in turn. -/
theorem readsItems_join (hplain : ∀ condition ∈ conditions, condition.Plain)
    (hne : conditions ≠ []) :
    Json.ReadsItems (conditions.map json) (join ',' (conditions.map text)) := by
  induction conditions with
  | nil => exact absurd rfl hne
  | cons condition conditions ih =>
      have hfirst := reads_text (hplain condition List.mem_cons_self)
      by_cases hempty : conditions = []
      · subst hempty
        have hjoin : join ',' [condition.text] = [] ++ condition.text := by simp [join]
        rw [List.map_singleton, List.map_singleton, hjoin]
        exact Json.readsItems_last Json.isBlank_nil hfirst
      · have hrest := ih (fun other hother => hplain other (List.mem_cons_of_mem _ hother)) hempty
        rw [List.map_cons, List.map_cons, join_cons_of_ne_nil (by simpa using hempty)]
        exact Json.readsItems_more Json.isBlank_nil hfirst hrest

/-- The JSON of a policy. -/
def policyJson (conditions : List Condition) : Json :=
  .object [(expirationName, .string t.iso8601), (conditionsName, .array (conditions.map json))]

theorem parse_buildPostPolicy (hplain : ∀ condition ∈ conditions, condition.Plain)
    (hne : conditions ≠ []) :
    Json.parse (buildPostPolicy t (conditions.map text)) = some (policyJson t conditions) := by
  have hblank : Json.IsBlank [(' ' : Char)] := Json.isBlank_singleton (by decide)
  have hline : Json.IsBlank [('\n' : Char)] := Json.isBlank_singleton (by decide)
  have hexpiration : Json.isPlain expirationName = true := by decide
  have hconditions : Json.isPlain conditionsName = true := by decide
  have htime := Json.reads_string
    (Json.isContent_of_isPlain (isPlain_of_time (isTimeChar_iso8601 t)))
  have hitems := Json.reads_array (readsItems_join hplain hne)
  rw [buildPostPolicy_eq]
  exact Json.parse_of_reads (Json.reads_object
    (Json.readsMembers_more Json.isBlank_nil (Json.isContent_of_isPlain hexpiration) hblank htime
      (Json.readsMembers_last hline (Json.isContent_of_isPlain hconditions) hblank hitems)))

theorem mapM_readCondition (conditions : List Condition) :
    (conditions.map json).mapM readCondition = some conditions := by
  induction conditions with
  | nil => rfl
  | cons condition conditions ih =>
      rw [List.map_cons, List.mapM_cons, readCondition_json, ih]
      rfl

/-- Plain conditions are read back. -/
theorem readPolicy_buildPostPolicy (hplain : ∀ condition ∈ conditions, condition.Plain)
    (hne : conditions ≠ []) :
    readPolicy (buildPostPolicy t (conditions.map text)) = some (t.iso8601, conditions) := by
  have hnames : expirationName = "expiration".toList ∧ conditionsName = "conditions".toList :=
    ⟨rfl, rfl⟩
  rw [readPolicy, parse_buildPostPolicy t hplain hne, policyJson]
  simp only [if_pos hnames, mapM_readCondition, Option.map_some]

theorem weight_join (texts : List Text) :
    Json.weight (join ',' texts) = Json.weights texts := by
  induction texts with
  | nil => rfl
  | cons text texts ih =>
      by_cases hempty : texts = []
      · subst hempty
        simp [join]
      · rw [join_cons_of_ne_nil hempty, Json.weight_append,
          weight_cons_of_not_isMark (by decide), ih, Json.weights_cons]

/-- The marks of a document are those in the texts of its conditions. -/
theorem weight_buildPostPolicy (conditions : List Condition) :
    Json.weight (buildPostPolicy t (conditions.map text)) =
      Json.weights (conditions.flatMap texts) := by
  have hnames : Json.weight expirationName = 0 ∧ Json.weight conditionsName = 0 := by decide
  have hend : Json.weight [']', '}'] = 0 := by decide
  have hmark : ∀ c ∈ ['"', ':', ' ', ',', '\n', '{', '['], Json.isMark c = false := by
    simp [Json.isMark]
  have hskip : ∀ c ∈ ['"', ':', ' ', ',', '\n', '{', '['], ∀ text,
      Json.weight (c :: text) = Json.weight text := fun c hc =>
    weight_cons_of_not_isMark (hmark c hc)
  have htime := weight_of_time (isTimeChar_iso8601 t)
  have hconditions : Json.weights (conditions.map text) =
      Json.weights (conditions.flatMap texts) := by
    induction conditions with
    | nil => rfl
    | cons condition conditions ih =>
        rw [List.map_cons, Json.weights_cons, ih, weight_text, List.flatMap_cons,
          Json.weights_append]
  rw [buildPostPolicy_eq]
  simp [hskip, weight_quoted, hnames, hend, htime, weight_join, hconditions]

/-- What is read of the items of a list. -/
theorem strings_of_mapM {items : List Json} (hread : items.mapM readCondition = some conditions) :
    Json.weights (Json.stringsOf items) = Json.weights (conditions.flatMap texts) ∧
      ((∀ part ∈ Json.stringsOf items, Json.isPlain part = true) →
        ∀ condition ∈ conditions, condition.Plain) := by
  induction items generalizing conditions with
  | nil =>
      cases hread
      exact ⟨rfl, fun _ condition hcondition => absurd hcondition List.not_mem_nil⟩
  | cons item items ih =>
      rw [List.mapM_cons] at hread
      obtain ⟨condition, hcondition, hread⟩ := Option.bind_eq_some_iff.mp hread
      obtain ⟨others, hothers, hread⟩ := Option.bind_eq_some_iff.mp hread
      cases hread
      obtain ⟨hweight, hplain⟩ := strings_of_readCondition hcondition
      obtain ⟨hweights, hplains⟩ := ih hothers
      rw [Json.stringsOf, Json.weights_append, List.flatMap_cons, Json.weights_append, hweight,
        hweights]
      constructor
      · rfl
      · intro hparts
        rw [List.forall_mem_append] at hparts
        exact List.forall_mem_cons.mpr ⟨hplain hparts.1, hplains hparts.2⟩

/-- The conditions that are read of a document without more marks are plain. -/
theorem plain_of_readPolicy {document expiration : Text}
    (hread : readPolicy document = some (expiration, conditions))
    (hweight : Json.weight document ≤ Json.weights (conditions.flatMap texts)) :
    ∀ condition ∈ conditions, condition.Plain := by
  rw [readPolicy] at hread
  split at hread
  · rename_i name written name' items hparse
    split at hread
    · obtain ⟨read, hitems, hread⟩ := Option.map_eq_some_iff.mp hread
      cases hread
      obtain ⟨hweights, hplains⟩ := strings_of_mapM hitems
      have hle : Json.weight document ≤ Json.weights
          (Json.object [(name, .string expiration), (name', .array items)]).strings := by
        simp only [Json.strings, Json.stringsOfMembers, Json.weights_cons, Json.weights_append,
          hweights]
        omega
      have hparts := Json.plain_of_parse hparse hle
      refine hplains fun part hpart => hparts part ?_
      simp [Json.strings, Json.stringsOfMembers, hpart]
    · cases hread
  · cases hread

end

/-! ## What is written for a call -/

theorem equalsText_eq (name : String) (value : Text) :
    equalsText name value = (Condition.equals name.toList value).text := by
  have hstart : "\x7b\"".toList = ['{', '"'] := by decide
  have hmiddle : "\": \"".toList = ['"', ':', ' ', '"'] := by decide
  have hend : "\"\x7d".toList = ['"', '}'] := by decide
  unfold equalsText
  simp only [hstart, hmiddle, hend, Condition.text, Condition.quoted, List.append_assoc,
    List.cons_append, List.nil_append]

/-- The key up to the name of the file. -/
def keyStart (key : Text) : Text := key.take (key.length - filename.length)

theorem keyStart_append {key : Text} (hsuffix : filename.isSuffixOf key = true) :
    keyStart key ++ filename = key := by
  obtain ⟨start, rfl⟩ := List.isSuffixOf_iff_suffix.mp hsuffix
  rw [keyStart, List.length_append, Nat.add_sub_cancel, List.take_left']
  rfl

/-- The condition for the key of a call. -/
def keyCondition (key : Text) : Condition :=
  if filename.isSuffixOf key then .startsWith "key".toList (keyStart key)
  else .equals "key".toList key

theorem keyText_eq (key : Text) : keyText key = (keyCondition key).text := by
  have hstart : "[\"starts-with\", \"$key\", \"".toList =
      '[' :: (Condition.quoted Condition.startsWithOperator ++
        ',' :: ' ' :: (Condition.quoted ('$' :: "key".toList) ++ [',', ' ', '"'])) := by decide
  have hend : "\"]".toList = ['"', ']'] := by decide
  unfold keyText
  rw [keyCondition]
  split
  · simp only [hstart, hend, keyStart, Condition.text, Condition.quoted, List.append_assoc,
      List.cons_append, List.nil_append]
  · exact equalsText_eq "key" key

theorem rangeText_eq (n : ℤ) :
    "[\"content-length-range\", 0, ".toList ++ strInt n ++ "]".toList =
      (Condition.contentLengthRange 0 n).text := by
  have hstart : "[\"content-length-range\", 0, ".toList =
      '[' :: (Condition.quoted Condition.rangeOperator ++
        ',' :: ' ' :: (strInt 0 ++ [',', ' '])) := by decide
  have hend : "]".toList = [']'] := by decide
  simp only [hstart, hend, Condition.text, List.append_assoc, List.cons_append, List.nil_append]

theorem map_whenGiven {α β : Type} (f : α → β) (value : Text) (entry : α) :
    (whenGiven value entry).map f = whenGiven value (f entry) := by
  rw [whenGiven, whenGiven]
  split <;> rfl

theorem mem_whenGiven {α : Type} {value : Text} {entry found : α} :
    found ∈ whenGiven value entry ↔ value ≠ [] ∧ found = entry := by
  rw [whenGiven]
  split
  · rename_i hempty
    simp [hempty]
  · rename_i hgiven
    simp [hgiven]

namespace PostCall

/-- A call with a limit of zero left out. -/
def limited (call : PostCall) : PostCall :=
  { call with maxContentLength := call.maxContentLength.filter (· ≠ 0) }

/-- What a call appends is what is asked for, except for a limit of zero. -/
theorem conditionTexts_eq (call : PostCall) :
    call.conditionTexts = call.limited.constraints.map Condition.text := by
  unfold conditionTexts constraints limited
  rw [keyText_eq]
  cases call.maxContentLength with
  | none =>
      simp only [equalsText_eq, List.map_cons, List.map_append, map_whenGiven]
      rfl
  | some n =>
      by_cases hzero : n = 0
      · subst hzero
        simp only [equalsText_eq, List.map_cons, List.map_append, map_whenGiven]
        rfl
      · simp only [equalsText_eq, List.map_cons, List.map_append, map_whenGiven, hzero, if_false,
          Option.filter, ne_eq, not_false_eq_true, decide_true, if_true, Option.map_some,
          Option.toList_some, rangeText_eq]
        rfl

/-- The fields for texts that may be left out. -/
def arguments (call : PostCall) : List (Text × Text) :=
  [("acl".toList, call.acl), ("success_action_redirect".toList, call.successActionRedirect),
    ("x-amz-security-token".toList, call.securityToken),
    ("x-amz-storage-class".toList, call.storageClass),
    ("x-amz-server-side-encryption".toList, call.serverSideEncryption)]

variable {call : PostCall}

theorem mem_argumentFields {field : FormField} :
    field ∈ call.argumentFields ↔ ∃ argument ∈ call.arguments, argument.2 ≠ [] ∧
      field = ⟨argument.1, argument.2⟩ := by
  unfold argumentFields arguments
  simp only [List.mem_append, mem_whenGiven, List.mem_cons, List.not_mem_nil, or_false,
    exists_eq_or_imp, exists_eq_left, or_assoc]

theorem mem_constraints {condition : Condition} :
    condition ∈ call.constraints ↔ condition = .equals "bucket".toList call.bucketName ∨
      condition = keyCondition call.key ∨
      (∃ argument ∈ call.arguments, argument.2 ≠ [] ∧
        condition = .equals argument.1 argument.2) ∨
      ∃ n, call.maxContentLength = some n ∧ condition = .contentLengthRange 0 n := by
  have hrange : condition ∈ (call.maxContentLength.map (.contentLengthRange 0)).toList ↔
      ∃ n, call.maxContentLength = some n ∧ condition = .contentLengthRange 0 n := by
    simp [eq_comm]
  unfold constraints arguments
  simp only [List.mem_append, mem_whenGiven, List.mem_cons, List.not_mem_nil, or_false,
    exists_eq_or_imp, exists_eq_left, or_assoc, hrange]
  rw [keyCondition, keyStart]
  generalize (∃ n, call.maxContentLength = some n ∧ condition = .contentLengthRange 0 n) = range
  grind

theorem mem_constrainedTexts {part : Text} :
    part ∈ call.constrainedTexts ↔ part = call.bucketName ∨ part = call.key ∨
      ∃ argument ∈ call.arguments, part = argument.2 := by
  unfold constrainedTexts arguments
  simp only [List.mem_cons, List.not_mem_nil, or_false, exists_eq_or_imp, exists_eq_left]

/-- The names that conditions are written with, and the end of a key. -/
def names : List Text :=
  ["bucket".toList, "key".toList, filename, "acl".toList, "success_action_redirect".toList,
    "x-amz-security-token".toList, "x-amz-storage-class".toList,
    "x-amz-server-side-encryption".toList]

theorem name_mem {argument : Text × Text} (hargument : argument ∈ call.arguments) :
    argument.1 ∈ names := by
  have hsublist : call.arguments.map Prod.fst = names.drop 3 := rfl
  have hmem : argument.1 ∈ call.arguments.map Prod.fst := List.mem_map_of_mem hargument
  rw [hsublist] at hmem
  exact List.mem_of_mem_drop hmem

/-- The texts of the conditions are those of the arguments, up to names. -/
theorem forall_texts {q : Char → Bool} (hnames : ∀ name ∈ names, name.all q = true) :
    (∀ condition ∈ call.constraints, ∀ part ∈ condition.texts, part.all q = true) ↔
      ∀ part ∈ call.constrainedTexts, part.all q = true := by
  have hbucket : "bucket".toList ∈ names := List.mem_cons_self
  have hkey : "key".toList ∈ names := List.mem_cons_of_mem _ List.mem_cons_self
  have hfilename : filename ∈ names :=
    List.mem_cons_of_mem _ (List.mem_cons_of_mem _ List.mem_cons_self)
  constructor
  · intro hconditions part hpart
    rcases mem_constrainedTexts.mp hpart with rfl | rfl | ⟨argument, hargument, rfl⟩
    · exact hconditions _ (mem_constraints.mpr (.inl rfl)) _
        (List.mem_cons_of_mem _ List.mem_cons_self)
    · have hcondition := hconditions _ (mem_constraints.mpr (.inr (.inl rfl)))
      rw [keyCondition] at hcondition
      split at hcondition
      · rename_i hsuffix
        have hstart := hcondition _ (List.mem_cons_of_mem _ List.mem_cons_self)
        rw [← keyStart_append hsuffix, List.all_append, hstart, hnames _ hfilename]
        rfl
      · exact hcondition _ (List.mem_cons_of_mem _ List.mem_cons_self)
    · by_cases hempty : argument.2 = []
      · rw [hempty]
        rfl
      · exact hconditions _
          (mem_constraints.mpr (.inr (.inr (.inl ⟨argument, hargument, hempty, rfl⟩)))) _
          (List.mem_cons_of_mem _ List.mem_cons_self)
  · intro hparts condition hcondition
    rcases mem_constraints.mp hcondition with
      rfl | rfl | ⟨argument, hargument, -, rfl⟩ | ⟨n, -, rfl⟩
    · have hvalue := hparts _ (mem_constrainedTexts.mpr (.inl rfl))
      exact List.forall_mem_cons.mpr
        ⟨hnames _ hbucket, List.forall_mem_singleton.mpr hvalue⟩
    · have hvalue := hparts _ (mem_constrainedTexts.mpr (.inr (.inl rfl)))
      rw [keyCondition]
      split
      · rename_i hsuffix
        rw [← keyStart_append hsuffix, List.all_append, Bool.and_eq_true] at hvalue
        exact List.forall_mem_cons.mpr
          ⟨hnames _ hkey, List.forall_mem_singleton.mpr hvalue.1⟩
      · exact List.forall_mem_cons.mpr ⟨hnames _ hkey, List.forall_mem_singleton.mpr hvalue⟩
    · have hvalue := hparts _
        (mem_constrainedTexts.mpr (.inr (.inr ⟨argument, hargument, rfl⟩)))
      exact List.forall_mem_cons.mpr
        ⟨hnames _ (name_mem hargument), List.forall_mem_singleton.mpr hvalue⟩
    · intro part hpart
      cases hpart

theorem plain_iff : (∀ condition ∈ call.constraints, condition.Plain) ↔
    ∀ part ∈ call.constrainedTexts, Json.isPlain part = true := by
  have hnames : ∀ name ∈ names, Json.isPlain name = true := by decide
  exact forall_texts hnames

end PostCall

/-! ## Encoding -/

theorem all_join (texts : List Text) :
    (join ',' texts).all isAscii = texts.all fun text => text.all isAscii := by
  have hcomma : isAscii ',' = true := by decide
  induction texts with
  | nil => rfl
  | cons text texts ih =>
      by_cases hempty : texts = []
      · subst hempty
        simp [join]
      · rw [join_cons_of_ne_nil hempty, List.all_append, List.all_cons, ih, hcomma,
          Bool.true_and, List.all_cons]

theorem all_text (condition : Condition) :
    condition.text.all isAscii = condition.texts.all fun text => text.all isAscii := by
  have hmark : ∀ c ∈ ['"', ':', ' ', ',', '$', '{', '[', ']', '}'], isAscii c = true := by
    simp [isAscii]
  have hoperator : Condition.startsWithOperator.all isAscii = true ∧
      Condition.rangeOperator.all isAscii = true := by decide
  have hnumber : ∀ value, (strInt value).all isAscii = true := fun value =>
    isAscii_of_time (isTimeChar_strInt value)
  cases condition <;>
    simp only [Condition.text, Condition.texts, Condition.quoted, List.all_cons, List.all_append,
      List.all_nil, hmark, hoperator, hnumber, List.mem_cons, true_or, or_true, Bool.true_and,
      Bool.and_true]

/-- A document is encoded if the texts of its conditions are. -/
theorem all_buildPostPolicy (t : StructTime) (conditions : List Condition) :
    (buildPostPolicy t (conditions.map Condition.text)).all isAscii = true ↔
      ∀ condition ∈ conditions, ∀ part ∈ condition.texts, part.all isAscii = true := by
  have hmark : ∀ c ∈ ['"', ':', ' ', ',', '\n', '{', '[', ']', '}'], isAscii c = true := by
    simp [isAscii]
  have hname : expirationName.all isAscii = true ∧ conditionsName.all isAscii = true := by decide
  have htime := isAscii_of_time (isTimeChar_iso8601 t)
  rw [buildPostPolicy_eq]
  simp only [Condition.quoted, List.all_cons, List.all_append, List.all_nil, hmark, hname, htime,
    List.mem_cons, true_or, or_true, Bool.true_and, Bool.and_true, all_join, List.all_map,
    Function.comp_def, all_text, List.all_eq_true]

theorem b64encode_eq_ok {type : TextType} {text policy : Text} :
    b64encode type text = .ok policy ↔
      (type = .str2 ∨ type = .unicode2 ∧ text.all isAscii = true) ∧
        policy = Base64.encode (encodeUtf8 text) := by
  cases type with
  | str2 =>
      rw [b64encode, Except.ok.injEq]
      simp [@eq_comm _ policy]
  | unicode2 =>
      rw [b64encode]
      split
      · rename_i hascii
        simp [hascii, @eq_comm _ policy]
      · rename_i hascii
        simp [hascii]
  | str3 => simp [b64encode]

/-! ## Forms -/

namespace PostConnection

variable (connection : PostConnection) (call : PostCall)

/-- The policy field for a call. -/
def policyField : Text := Base64.encode (encodeUtf8 (connection.policyOf call []))

/-- The fields of the form for a call. -/
def formFields : List FormField :=
  call.argumentFields ++
    [⟨"policy".toList, connection.policyField call⟩,
      ⟨"AWSAccessKeyId".toList, call.awsAccessKeyId⟩,
      ⟨"signature".toList, connection.signString (connection.policyField call)⟩,
      ⟨"key".toList, call.key⟩]

variable {connection call}

theorem policyOf_eq : connection.policyOf call [] =
    buildPostPolicy (connection.gmtime (call.time + call.expiresIn))
      (call.limited.constraints.map Condition.text) := by
  rw [policyOf, List.nil_append, PostCall.conditionTexts_eq]

/-- The document of a call is encoded if its texts are. -/
theorem encodes_iff : (call.type = .str2 ∨
    call.type = .unicode2 ∧ (connection.policyOf call []).all isAscii = true) ↔
      call.Encodes := by
  have hnames : ∀ name ∈ PostCall.names, name.all isAscii = true := by decide
  have htexts : (connection.policyOf call []).all isAscii = true ↔
      ∀ text ∈ call.constrainedTexts, text.all isAscii = true := by
    rw [policyOf_eq, all_buildPostPolicy]
    exact PostCall.forall_texts hnames
  rw [PostCall.Encodes, htexts]

theorem buildPostFormArgs_eq_ok {form : PostForm} :
    connection.buildPostFormArgs call [] [] = .ok form ↔ call.Encodes ∧
      ∃ host, connection.callingFormat.buildHost connection.serverName call.bucketName = .ok host ∧
        form = ⟨call.httpMethod ++ "://".toList ++ host ++ ['/'], connection.formFields call⟩ := by
  unfold buildPostFormArgs
  rw [except_bind_eq_ok]
  constructor
  · rintro ⟨policy, hpolicy, hform⟩
    obtain ⟨hencodes, rfl⟩ := b64encode_eq_ok.mp (mapError_eq_ok.mp hpolicy)
    obtain ⟨host, hhost, hform⟩ := except_bind_eq_ok.mp hform
    cases hform
    exact ⟨encodes_iff.mp hencodes, host, mapError_eq_ok.mp hhost, rfl⟩
  · rintro ⟨hencodes, host, hhost, rfl⟩
    have hencode : b64encode call.type (connection.policyOf call []) =
        .ok (connection.policyField call) :=
      b64encode_eq_ok.mpr ⟨encodes_iff.mpr hencodes, rfl⟩
    exact ⟨connection.policyField call, mapError_eq_ok.mpr hencode,
      except_bind_eq_ok.mpr ⟨host, mapError_eq_ok.mpr hhost, rfl⟩⟩

theorem mem_formFields {field : FormField} : field ∈ connection.formFields call ↔
    field ∈ call.argumentFields ∨ field = ⟨"policy".toList, connection.policyField call⟩ ∨
      field = ⟨"AWSAccessKeyId".toList, call.awsAccessKeyId⟩ ∨
      field = ⟨"signature".toList, connection.signString (connection.policyField call)⟩ ∨
      field = ⟨"key".toList, call.key⟩ := by
  unfold formFields
  simp only [List.mem_append, List.mem_cons, List.not_mem_nil, or_false]

/-- There is one policy in a form. -/
theorem eq_policyField {policy : Text}
    (hmem : ⟨"policy".toList, policy⟩ ∈ connection.formFields call) :
    policy = connection.policyField call := by
  have hnames : "policy".toList ∉ PostCall.names ∧
      "policy".toList ≠ "AWSAccessKeyId".toList ∧ "policy".toList ≠ "signature".toList ∧
      "policy".toList ≠ "key".toList := by decide
  obtain ⟨hargument, hkeyId, hsignature, hkey⟩ := hnames
  rcases mem_formFields.mp hmem with hfield | hfield | hfield | hfield | hfield
  · obtain ⟨argument, hmem, -, hfield⟩ := PostCall.mem_argumentFields.mp hfield
    have hname : "policy".toList = argument.1 := congrArg FormField.name hfield
    rw [hname] at hargument
    exact absurd (PostCall.name_mem hmem) hargument
  · exact congrArg FormField.value hfield
  · exact absurd (congrArg FormField.name hfield) hkeyId
  · exact absurd (congrArg FormField.name hfield) hsignature
  · exact absurd (congrArg FormField.name hfield) hkey

/-- The condition for the key agrees with the key. -/
theorem admits_keyCondition (key : Text) :
    (keyCondition key).Admits ⟨"key".toList, key⟩ := by
  rw [keyCondition]
  split
  · rename_i hsuffix
    exact ⟨rfl, filename, keyStart_append hsuffix⟩
  · exact ⟨rfl, rfl⟩

/-- Each field that is not left out has its condition. -/
theorem formFields_covered : ∀ field ∈ connection.formFields call, field.name ∉ uncovered →
    ∃ condition ∈ call.constraints, condition.Admits field := by
  have huncovered : "policy".toList ∈ uncovered ∧ "AWSAccessKeyId".toList ∈ uncovered ∧
      "signature".toList ∈ uncovered := by decide
  intro field hfield hname
  rcases mem_formFields.mp hfield with hfield | rfl | rfl | rfl | rfl
  · obtain ⟨argument, hargument, hgiven, rfl⟩ := PostCall.mem_argumentFields.mp hfield
    exact ⟨_, PostCall.mem_constraints.mpr
      (.inr (.inr (.inl ⟨argument, hargument, hgiven, rfl⟩))), rfl, rfl⟩
  · exact absurd huncovered.1 hname
  · exact absurd huncovered.2.1 hname
  · exact absurd huncovered.2.2 hname
  · exact ⟨_, PostCall.mem_constraints.mpr (.inr (.inl rfl)), admits_keyCondition _⟩

theorem fieldName_keyCondition (key : Text) :
    (keyCondition key).fieldName = some "key".toList := by
  have hne : "key".toList ≠ "bucket".toList := by decide
  rw [keyCondition]
  split
  · rfl
  · rw [Condition.fieldName, if_neg hne]

/-- Each condition on a field has its field. -/
theorem formFields_present : ∀ condition ∈ call.constraints, ∀ name ∈ condition.fieldName,
    name ∈ (connection.formFields call).map FormField.name := by
  intro condition hcondition name hname
  rcases PostCall.mem_constraints.mp hcondition with
    rfl | rfl | ⟨argument, hargument, hgiven, rfl⟩ | ⟨n, -, rfl⟩
  · cases hname
  · rw [fieldName_keyCondition] at hname
    cases hname
    exact List.mem_map_of_mem (mem_formFields.mpr (.inr (.inr (.inr (.inr rfl)))))
  · rw [Condition.fieldName] at hname
    split at hname
    · cases hname
    · cases hname
      have hfield : ⟨argument.1, argument.2⟩ ∈ call.argumentFields :=
        PostCall.mem_argumentFields.mpr ⟨argument, hargument, hgiven, rfl⟩
      exact List.mem_map_of_mem (mem_formFields.mpr (.inl hfield))
  · cases hname

theorem limited_eq_self (hlimit : call.maxContentLength ≠ some 0) : call.limited = call := by
  have hfilter : call.maxContentLength.filter (· ≠ 0) = call.maxContentLength := by
    cases hvalue : call.maxContentLength with
    | none => rfl
    | some n =>
        have hn : n ≠ 0 := by
          rintro rfl
          exact hlimit hvalue
        simp [hn]
  rw [PostCall.limited, hfilter]

/-- A limit has no texts. -/
theorem flatMap_texts_limited :
    call.limited.constraints.flatMap Condition.texts =
      call.constraints.flatMap Condition.texts := by
  have hrange : ∀ limit : Option ℤ,
      (limit.map (Condition.contentLengthRange 0)).toList.flatMap Condition.texts = [] := by
    intro limit
    cases limit <;> rfl
  unfold PostCall.constraints
  simp only [List.flatMap_cons, List.flatMap_append, hrange, List.append_nil]
  rfl

theorem range_notMem (hlimit : call.maxContentLength = none) (low high : ℤ) :
    .contentLengthRange low high ∉ call.constraints := by
  intro hmem
  rcases PostCall.mem_constraints.mp hmem with hcase | hcase | ⟨_, _, _, hcase⟩ | ⟨n, hn, _⟩
  · cases hcase
  · rw [keyCondition] at hcase
    split at hcase
    · cases hcase
    · cases hcase
  · cases hcase
  · rw [hlimit] at hn
    cases hn

/-- A policy that reads as what is asked for has its texts as they are, and the limit. -/
theorem conveyed_of_readPolicy {expiration : Text} {conditions : List Condition}
    (hread : readPolicy (connection.policyOf call []) = some (expiration, conditions))
    (hperm : conditions.Perm call.constraints) :
    (∀ text ∈ call.constrainedTexts, Json.isPlain text = true) ∧
      call.maxContentLength ≠ some 0 := by
  have hweights : Json.weights (conditions.flatMap Condition.texts) =
      Json.weights (call.constraints.flatMap Condition.texts) :=
    (hperm.flatMap_right Condition.texts).flatten.countP_eq _
  have hweight : Json.weight (connection.policyOf call []) ≤
      Json.weights (conditions.flatMap Condition.texts) := by
    rw [policyOf_eq, weight_buildPostPolicy, flatMap_texts_limited, hweights]
  have hplain : ∀ text ∈ call.constrainedTexts, Json.isPlain text = true := by
    apply PostCall.plain_iff.mp
    intro condition hcondition
    exact plain_of_readPolicy hread hweight condition (hperm.mem_iff.mpr hcondition)
  have hlimited : ∀ condition ∈ call.limited.constraints, condition.Plain :=
    PostCall.plain_iff.mpr hplain
  have hwritten := readPolicy_buildPostPolicy
    (connection.gmtime (call.time + call.expiresIn)) hlimited (List.cons_ne_nil _ _)
  rw [← policyOf_eq, hread] at hwritten
  have hconditions : conditions = call.limited.constraints :=
    congrArg Prod.snd (Option.some.inj hwritten)
  constructor
  · exact hplain
  · intro hlimit
    have hmem : .contentLengthRange 0 0 ∈ call.constraints :=
      PostCall.mem_constraints.mpr (.inr (.inr (.inr ⟨0, hlimit, rfl⟩)))
    rw [← hperm.mem_iff, hconditions] at hmem
    refine range_notMem ?_ 0 0 hmem
    simp [PostCall.limited, hlimit]

/-- The policy field decodes to one document. -/
theorem document_of_decode {document : Text}
    (hdecode : Base64.decode (connection.policyField call) = some (encodeUtf8 document)) :
    document = connection.policyOf call [] := by
  rw [policyField, Base64.decode_encode] at hdecode
  exact Auth.encodeUtf8_injective (Option.some.inj hdecode).symm

/-- A call gets a form that its policy accepts exactly if it is written into the policy. -/
theorem accepts_iff : connection.Accepts call (connection.buildPostFormArgs call [] []) ↔
    call.Conveyed connection.callingFormat := by
  constructor
  · rintro ⟨form, hform, hmatches⟩
    obtain ⟨hencodes, host, hhost, rfl⟩ := buildPostFormArgs_eq_ok.mp hform
    obtain ⟨policy, document, conditions, hmem, hdecode, hread, hperm⟩ := hmatches.policy
    rw [eq_policyField hmem] at hdecode
    rw [document_of_decode hdecode] at hread
    obtain ⟨hplain, hlimit⟩ := conveyed_of_readPolicy hread hperm
    exact ⟨hencodes, hplain, hlimit, (CallingFormat.buildHost_isOk _ _ _).mp ⟨host, hhost⟩⟩
  · rintro ⟨hencodes, hplain, hlimit, htakes⟩
    obtain ⟨host, hhost⟩ := (CallingFormat.buildHost_isOk _ connection.serverName _).mpr htakes
    have hpolicy := @policyOf_eq connection call
    rw [limited_eq_self hlimit] at hpolicy
    have hread := readPolicy_buildPostPolicy (connection.gmtime (call.time + call.expiresIn))
      (PostCall.plain_iff.mpr hplain) (List.cons_ne_nil _ _)
    refine ⟨_, buildPostFormArgs_eq_ok.mpr ⟨hencodes, host, hhost, rfl⟩, ?_⟩
    constructor
    · refine ⟨connection.policyField call, connection.policyOf call [], call.constraints,
        mem_formFields.mpr (.inr (.inl rfl)), ?_, ?_, List.Perm.refl _⟩
      · rw [policyField, Base64.decode_encode]
      · rw [hpolicy]
        exact hread
    · exact formFields_covered
    · exact formFields_present

/-- In every sequence of calls, each call gets a form that its policy accepts exactly if the
calls are all written into their policies. -/
theorem forms_accepted_iff (connection : PostConnection) (calls : List PostCall) :
    List.Forall₂ connection.Accepts calls (connection.forms calls) ↔
      ∀ call ∈ calls, call.Conveyed connection.callingFormat := by
  rw [forms, List.forall₂_map_right_iff, List.forall₂_same]
  exact forall₂_congr fun call _ => accepts_iff

end PostConnection

/-- An upload whose access control has quotes, and a condition between them. -/
def quotedCall : PostCall where
  type := .str2
  bucketName := "b".toList
  key := "k".toList
  acl := "private\"\x7d,\x7b\"acl\": \"public-read".toList
  time := 0
  awsAccessKeyId := "id".toList
  securityToken := []

theorem not_forms_accepted_quote : ¬ ∀ (connection : PostConnection) (calls : List PostCall),
    List.Forall₂ connection.Accepts calls (connection.forms calls) := by
  intro haccepts
  have hcall := haccepts ⟨.ordinary, [], fun _ => ⟨2015, 1, 1, 0, 0, 0⟩, id⟩ [quotedCall]
  obtain ⟨-, hplain, -⟩ :=
    PostConnection.accepts_iff.mp (List.forall₂_cons.mp hcall).1
  have hacl := hplain quotedCall.acl (by simp [PostCall.constrainedTexts])
  revert hacl
  decide

end Boto.S3
