import Boto.Route53.Iterations
import Boto.Route53.RecordRoundTrip
import Boto.Route53.ResourceRecordSets
import Mathlib.Data.Char
import Mathlib.Data.List.Lex
import Mathlib.Data.Prod.Lex

/-!
# What is found in a zone

The weights of records are read as texts, so a search for a weight that is given as a number
finds nothing.  Searches for regions find what they should, unless a region looks like a number.
-/

namespace Boto.Route53

/-- What a routing must be to match an identifier with a weight or a region. -/
def Routing.Matches (routing : Routing) : Option (Text × Number) → Prop
  | none => True
  | some (identifier, .int weight) => routing = .weighted identifier (.int weight)
  | some (identifier, .text region) => routing = .latency identifier region

instance (routing : Routing) : DecidablePred routing.Matches
  | none => inferInstanceAs (Decidable True)
  | some (_, .int _) => inferInstanceAs (Decidable (_ = _))
  | some (_, .text _) => inferInstanceAs (Decidable (_ = _))

/-- A zone: its records with integers for weights, in an order by name and type, and a service
that gives them page by page from a name and type on, where what a page has after it was read
are the records as they are read. -/
structure StoredZone where
  stored : List RecordSet
  Rank : Type
  order : LinearOrder Rank
  rank : Text × Text → Rank
  rank_injective : Function.Injective rank
  sorted : stored.Pairwise fun r r' => rank (r.name, r.type) ≤ rank (r'.name, r'.type)
  weights_int : ∀ r ∈ stored, ∀ identifier weight, r.routing = .weighted identifier weight →
    ∃ value, weight = .int value
  service : RRSetsService Record
  rest : RecordStart → List Record
  serves : ResourceRecordSets.Serves service rest
  rest_eq : ∀ name type, rest ⟨some name, some type, none⟩ =
    (stored.filter fun r => decide (rank (name, type) ≤ rank (r.name, r.type))).map
      fun r => r.read.record

namespace StoredZone

variable (zone : StoredZone) (name type : Text) (identifier : Option (Text × Number))

/-- The stored records of a name and a type. -/
def named : List RecordSet :=
  zone.stored.filter fun r => decide (r.name = makeQualified name) && decide (r.type = type)

/-- The stored records that match a search. -/
def matching : List RecordSet :=
  (zone.named name type).filter fun r => decide (r.routing.Matches identifier)

end StoredZone

/-- With enough fuel a run ends with a result. -/
def Ends {β : Type} (run : ℕ → Option β) (result : β) : Prop :=
  ∃ enough, ∀ fuel, enough ≤ fuel → run fuel = some result

theorem Ends.unique {β : Type} {run : ℕ → Option β} {result result' : β} (hends : Ends run result)
    (hends' : Ends run result') : result = result' := by
  obtain ⟨enough, hrun⟩ := hends
  obtain ⟨enough', hrun'⟩ := hends'
  have hsame := hrun (max enough enough') (Nat.le_max_left _ _)
  rw [hrun' _ (Nat.le_max_right _ _)] at hsame
  exact (Option.some.inj hsame).symm

/-- The records that are deleted by what was committed, if anything was. -/
def committed : Except ZoneError (List Record) → List Record
  | .ok records => records
  | .error _ => []

/-- A search gives some records, or raises `TooManyRecordsException` if there are more than
desired and not all are asked for. -/
def GivesRecords (records : List Record) (desired : ℕ) (all : Bool)
    (outcome : Except ZoneError Found) : Prop :=
  if all = true ∨ records.length ≤ desired then
    ∃ found, outcome = .ok found ∧ found.toList = records
  else ∃ message, outcome = .error (.tooManyRecords message)

namespace StoredZone

variable (zone : StoredZone) (name type : Text) (identifier : Option (Text × Number))

/-- Every search finds the matching records, and a deletion deletes these and no others. -/
def FindsMatching : Prop :=
  ∀ all,
    (∀ desired, ∃ outcome,
      Ends (fun fuel => Zone.findRecords zone.service fuel name type desired all identifier)
        outcome ∧
      GivesRecords ((zone.matching name type identifier).map fun r => r.read.record) desired all
        outcome) ∧
    ∃ outcome,
      Ends (fun fuel => Zone.deleteRecords type zone.service fuel name identifier all) outcome ∧
      committed outcome =
        if all = true ∨ (zone.matching name type identifier).length ≤ 1 then
          (zone.matching name type identifier).map fun r => r.read.record
        else []

/-- A weight is asked for as a number only where no record has it; and a text that looks like a
number only where no record has it for its region or its weight. -/
def Findable : Prop :=
  match identifier with
  | none => True
  | some (identifier, .int weight) =>
      ∀ r ∈ zone.named name type, r.routing ≠ .weighted identifier (.int weight)
  | some (identifier, .text value) =>
      Zone.isInt (.text value) = true → ∀ r ∈ zone.named name type,
        r.routing ≠ .latency identifier value ∧
          ∀ weight, r.routing = .weighted identifier weight → weight.percentS ≠ value

end StoredZone

/-! ## Names -/

theorem dropWhile_isSpace_eq_self {text : Text} (hhead : ∀ c, text.head? = some c →
    isSpace c = false) : text.dropWhile isSpace = text := by
  cases text with
  | nil => rfl
  | cons c text => rw [List.dropWhile_cons_of_neg (by simp [hhead c rfl])]

theorem strip_eq_self_of_ends {text : Text} (hhead : ∀ c, text.head? = some c → isSpace c = false)
    (hlast : ∀ c, text.getLast? = some c → isSpace c = false) : strip text = text := by
  rw [strip, dropWhile_isSpace_eq_self hhead, dropWhile_isSpace_eq_self, List.reverse_reverse]
  intro c hc
  rw [List.head?_reverse] at hc
  exact hlast c hc

theorem isSpace_of_head?_dropWhile {text : Text} {c : Char}
    (hhead : (text.dropWhile isSpace).head? = some c) : isSpace c = false := by
  have hnot := List.head?_dropWhile_not isSpace text
  rw [hhead] at hnot
  exact hnot

/-- A stripped text has no space at its ends. -/
theorem strip_ends {text : Text} {c : Char}
    (hend : (strip text).head? = some c ∨ (strip text).getLast? = some c) : isSpace c = false := by
  rcases hend with hhead | hlast
  · have hstarts : strip text <+: text.dropWhile isSpace := by
      have hsuffix := (List.dropWhile_suffix isSpace (l := (text.dropWhile isSpace).reverse))
      have hreversed := List.reverse_prefix.mpr hsuffix
      rw [List.reverse_reverse] at hreversed
      exact hreversed
    obtain ⟨rest, hrest⟩ := hstarts
    refine @isSpace_of_head?_dropWhile text c ?_
    rw [← hrest, List.head?_append, hhead]
    rfl
  · rw [strip, List.getLast?_reverse] at hlast
    exact isSpace_of_head?_dropWhile hlast

/-- A name that is qualified stays as it is. -/
theorem makeQualified_makeQualified (name : Text) :
    makeQualified (makeQualified name) = makeQualified name := by
  have hstrip : strip (makeQualified name) = makeQualified name := by
    apply strip_eq_self_of_ends
    · intro c hc
      rw [makeQualified] at hc
      split at hc
      · rename_i hdot
        rw [List.head?_append_of_ne_nil _ hdot.1] at hc
        exact strip_ends (.inl hc)
      · exact strip_ends (.inl hc)
    · intro c hc
      rw [makeQualified] at hc
      split at hc
      · rw [List.getLast?_concat] at hc
        cases hc
        rfl
      · exact strip_ends (.inr hc)
  have hqualified : makeQualified name = [] ∨ (makeQualified name).getLast? = some '.' := by
    rw [makeQualified]
    split
    · exact .inr List.getLast?_concat
    · rename_i hnot
      by_cases hnil : strip name = []
      · exact .inl hnil
      · exact .inr (by_contra fun hlast => hnot ⟨hnil, hlast⟩)
  generalize makeQualified name = value at hstrip hqualified
  rw [makeQualified]
  simp only [hstrip]
  rw [if_neg]
  rintro ⟨hne, hlast⟩
  exact hqualified.elim hne hlast

/-! ## What is collected -/

/-- The results up to the first record that does not match are all that match, if the matching
records come first. -/
theorem takeWhile_eq_filter {α : Type} {p : α → Bool} {xs : List α}
    (hfirst : xs.Pairwise fun x y => p y = true → p x = true) : xs.takeWhile p = xs.filter p := by
  induction xs with
  | nil => rfl
  | cons x xs ih =>
      obtain ⟨hx, hxs⟩ := List.pairwise_cons.mp hfirst
      by_cases hp : p x = true
      · rw [List.takeWhile_cons_of_pos hp, List.filter_cons_of_pos hp, ih hxs]
      · rw [List.takeWhile_cons_of_neg hp, List.filter_cons_of_neg hp]
        exact (List.filter_eq_nil_iff.mpr fun y hy hpy => hp (hx y hy hpy)).symm

open ResourceRecordSets in
/-- The loop over the pages goes up to the first record that does not match. -/
theorem collect_eq {service : RRSetsService Record} {rest : RecordStart → List Record}
    (hserves : Serves service rest) (matched : Record → Bool) {fuel : ℕ}
    {rrsets : ResourceRecordSets Record} (calls : ℕ)
    (hfuel : (rrsets.behind rest).length < fuel) :
    Zone.collect service matched fuel rrsets calls =
      some ((rrsets.all rest).takeWhile matched) := by
  induction fuel generalizing rrsets calls with
  | zero => exact absurd hfuel (Nat.not_lt_zero _)
  | succ fuel ih =>
      rw [Zone.collect]
      dsimp only
      by_cases hlt : (rrsets.records.takeWhile matched).length < rrsets.records.length
      · rw [if_pos hlt, ResourceRecordSets.all, List.takeWhile_append, if_neg (Nat.ne_of_lt hlt)]
      · have hle := List.Sublist.length_le (List.takeWhile_sublist matched (l := rrsets.records))
        have hlength : (rrsets.records.takeWhile matched).length = rrsets.records.length := by
          omega
        have hsame : rrsets.records.takeWhile matched = rrsets.records :=
          (List.takeWhile_sublist matched).eq_of_length hlength
        rw [if_neg hlt, ResourceRecordSets.all, List.takeWhile_append, if_pos hlength, hsame]
        by_cases htruncated : rrsets.isTruncated = true
        · have hbehind : rrsets.behind rest = rest rrsets.next := if_pos htruncated
          have hcomplete := hserves.complete calls rrsets.next
          rw [if_pos htruncated, hbehind, ← hcomplete]
          by_cases hempty : (ofResponse (service calls rrsets.next)).records = []
          · rw [if_pos hempty, hcomplete, hserves.nonempty calls _ hempty, List.takeWhile_nil,
              List.append_nil]
          · have hshorter : ((ofResponse (service calls rrsets.next)).behind rest).length <
                fuel := by
              have hall := congrArg List.length hcomplete
              rw [ResourceRecordSets.all, List.length_append, ← hbehind] at hall
              have hpos := List.length_pos_iff.mpr hempty
              omega
            rw [if_neg hempty, ih (calls + 1) hshorter, Option.map_some]
        · have hbehind : rrsets.behind rest = [] := if_neg htruncated
          rw [if_neg htruncated, hbehind, List.takeWhile_nil, List.append_nil]

namespace StoredZone

variable (zone : StoredZone) (name type : Text) (identifier : Option (Text × Number))

/-- Whether a record has a name and a type. -/
def isNamed (r : Record) : Bool :=
  decide (r.name = some (makeQualified name)) && decide (r.type = some type)

theorem record_names (r : RecordSet) :
    r.read.record.name = some r.name ∧ r.read.record.type = some r.type :=
  ⟨r.read.record_fields.1, r.read.record_fields.2.1⟩

/-- The records from a name and a type on start with those of that name and type. -/
theorem takeWhile_rest :
    (zone.rest ⟨some (makeQualified name), some type, none⟩).takeWhile (isNamed name type) =
      (zone.named name type).map fun r => r.read.record := by
  let order := zone.order
  let key : RecordSet → Text × Text := fun r => (r.name, r.type)
  let wanted : Text × Text := (makeQualified name, type)
  have hnamed : ∀ r : RecordSet, isNamed name type r.read.record = decide (key r = wanted) := by
    intro r
    rw [isNamed, (record_names r).1, (record_names r).2]
    simp only [key, wanted, Option.some.injEq, Prod.mk.injEq, Bool.decide_and]
  have hrest := zone.rest_eq (makeQualified name) type
  have hsorted : (zone.rest ⟨some (makeQualified name), some type, none⟩).Pairwise
      fun x y => isNamed name type y = true → isNamed name type x = true := by
    rw [hrest, List.pairwise_map]
    refine ((zone.sorted.sublist List.filter_sublist).imp_of_mem ?_)
    intro r r' hr hr' hle hr'named
    rw [hnamed, decide_eq_true_eq] at hr'named ⊢
    have hfrom := of_decide_eq_true (List.mem_filter.mp hr).2
    refine zone.rank_injective (le_antisymm ?_ hfrom)
    rw [← hr'named]
    exact hle
  rw [takeWhile_eq_filter hsorted, hrest, List.filter_map, List.filter_filter, named]
  congr 1
  apply List.filter_congr
  intro r hr
  rw [Function.comp_apply, hnamed]
  by_cases hkey : key r = wanted
  · have hle : zone.rank (makeQualified name, type) ≤ zone.rank (r.name, r.type) :=
      le_of_eq (congrArg zone.rank hkey.symm)
    obtain ⟨hname, htype⟩ := Prod.mk.inj hkey
    simp [hname, htype, key, wanted]
  · have hne : ¬(r.name = makeQualified name ∧ r.type = type) := fun hboth =>
      hkey (Prod.ext hboth.1 hboth.2)
    rw [decide_eq_false hkey, Bool.false_and, ← Bool.decide_and, decide_eq_false hne]

/-- A search comes to what it gives for the records of its name and type. -/
theorem ends_findRecords (desired : ℕ) (all : Bool) :
    Ends (fun fuel => Zone.findRecords zone.service fuel name type desired all identifier)
      (Zone.give (makeQualified name) type desired all
        (Zone.narrow identifier ((zone.named name type).map fun r => r.read.record))) := by
  let start : RecordStart := ⟨some (makeQualified name), some type, none⟩
  let returned := ResourceRecordSets.ofResponse (zone.service 0 start)
  refine ⟨(returned.behind zone.rest).length + 1, fun fuel hfuel => ?_⟩
  have hcollect := collect_eq zone.serves (isNamed name type) 1 (Nat.lt_of_succ_le hfuel)
  rw [zone.serves.complete 0 start, zone.takeWhile_rest] at hcollect
  change Option.map _ (Zone.collect zone.service (isNamed name type) fuel returned 1) = _
  rw [hcollect]
  rfl

/-- A deletion deletes what a search for at most one record found. -/
theorem ends_deleteRecords (all : Bool) :
    Ends (fun fuel => Zone.deleteRecords type zone.service fuel name identifier all)
      (Zone.give (makeQualified name) type 1 all
        (Zone.narrow identifier ((zone.named name type).map fun r => r.read.record)) >>=
          Zone.deleteRecord) := by
  obtain ⟨enough, hrun⟩ := zone.ends_findRecords (makeQualified name) type identifier 1 all
  have hnamed : zone.named (makeQualified name) type = zone.named name type := by
    rw [named, makeQualified_makeQualified]
    rfl
  rw [makeQualified_makeQualified, hnamed] at hrun
  exact ⟨enough, fun fuel hfuel => congrArg (Option.map _) (hrun fuel hfuel)⟩

end StoredZone

/-! ## What is given -/

section

variable (name type : Text) (desired : ℕ) (all : Bool) (results : List Record)

theorem give_of_few (hfew : all = true ∨ results.length ≤ desired) :
    ∃ found, Zone.give name type desired all results = .ok found ∧ found.toList = results := by
  have hnot : ¬(all = false ∧ desired < results.length) := by
    rintro ⟨hall, hlt⟩
    rcases hfew with htrue | hle
    · rw [htrue] at hall
      cases hall
    · omega
  unfold Zone.give
  rw [if_neg hnot]
  cases results with
  | nil => exact ⟨_, rfl, rfl⟩
  | cons first results => cases results <;> exact ⟨_, rfl, rfl⟩

theorem give_of_many (hmany : ¬(all = true ∨ results.length ≤ desired)) :
    ∃ message, Zone.give name type desired all results = .error (.tooManyRecords message) := by
  obtain ⟨hall, hlt⟩ := not_or.mp hmany
  have hboth : all = false ∧ desired < results.length :=
    ⟨Bool.not_eq_true _ ▸ hall, Nat.not_le.mp hlt⟩
  unfold Zone.give
  rw [if_pos hboth]
  exact ⟨_, rfl⟩

theorem givesRecords_give : GivesRecords results desired all
    (Zone.give name type desired all results) := by
  rw [GivesRecords]
  split
  · rename_i hfew
    obtain ⟨found, hgive, hfound⟩ := give_of_few name type desired all results hfew
    exact ⟨found, hgive, hfound⟩
  · rename_i hmany
    exact give_of_many name type desired all results hmany

/-- What was found is deleted, unless it was too much; nothing is an error. -/
theorem committed_give :
    committed (Zone.give name type 1 all results >>= Zone.deleteRecord) =
      if all = true ∨ results.length ≤ 1 then results else [] := by
  split
  · rename_i hfew
    obtain ⟨found, hgive, hfound⟩ := give_of_few name type 1 all results hfew
    rw [hgive]
    change committed (Zone.deleteRecord found) = results
    rw [← hfound]
    cases found <;> rfl
  · rename_i hmany
    obtain ⟨message, hgive⟩ := give_of_many name type 1 all results hmany
    rw [hgive]
    rfl

end

/-! ## What is narrowed -/

namespace RecordSet

variable (self : RecordSet) (identifier : Text) (value : Number)

/-- A record that was read has a weight if it is weighted, as a text. -/
theorem weight_read_iff :
    (self.read.record.weight = some value ∧ self.read.record.identifier = some identifier) ↔
      ∃ weight, self.routing = .weighted identifier weight ∧ value = .text weight.percentS := by
  obtain ⟨name, type, ttl, content, routing, healthCheck⟩ := self
  cases content <;> cases routing <;>
    simp [read, record, Routing.read, Routing.giveTo, Content.giveTo, Record.init, Number.read,
      and_comm, eq_comm]

/-- A record that was read has a region if it is a latency record. -/
theorem region_read_iff :
    (self.read.record.region.map Number.text = some value ∧
        self.read.record.identifier = some identifier) ↔
      ∃ region, self.routing = .latency identifier region ∧ value = .text region := by
  obtain ⟨name, type, ttl, content, routing, healthCheck⟩ := self
  cases content <;> cases routing <;>
    simp [read, record, Routing.read, Routing.giveTo, Content.giveTo, Record.init,
      and_comm, eq_comm]

end RecordSet

namespace StoredZone

variable (zone : StoredZone) (name type : Text) (identifier : Option (Text × Number))

/-- What the records of a name and type are narrowed to. -/
def narrowed : List Record :=
  Zone.narrow identifier ((zone.named name type).map fun r => r.read.record)

/-- The matching records, as they are read. -/
def expected : List Record :=
  (zone.matching name type identifier).map fun r => r.read.record

theorem mem_expected {record : Record} : record ∈ zone.expected name type identifier ↔
    ∃ r ∈ zone.named name type, r.routing.Matches identifier ∧ r.read.record = record := by
  simp only [expected, matching, List.mem_map, List.mem_filter, decide_eq_true_eq, and_assoc]

theorem expected_eq_nil : zone.expected name type identifier = [] ↔
    ∀ r ∈ zone.named name type, ¬r.routing.Matches identifier := by
  simp only [expected, matching, List.map_eq_nil_iff, List.filter_eq_nil_iff, decide_eq_true_eq]

variable {zone name type}

/-- A number finds the records whose weight is written like it. -/
theorem mem_narrowed_weight {key : Text} {value : Number} (hint : Zone.isInt value = true)
    {record : Record} : record ∈ zone.narrowed name type (some (key, value)) ↔
      ∃ r ∈ zone.named name type, (∃ weight, r.routing = .weighted key weight ∧
        value = .text weight.percentS) ∧ r.read.record = record := by
  rw [narrowed, Zone.narrow]
  simp only [hint, if_true, List.mem_filter, List.mem_map, Bool.and_eq_true, decide_eq_true_eq]
  constructor
  · rintro ⟨⟨r, hr, rfl⟩, hmatch⟩
    exact ⟨r, hr, (r.weight_read_iff key value).mp hmatch, rfl⟩
  · rintro ⟨r, hr, hmatch, rfl⟩
    exact ⟨⟨r, hr, rfl⟩, (r.weight_read_iff key value).mpr hmatch⟩

/-- A region finds the records of it. -/
theorem narrowed_region {key region : Text} (hint : Zone.isInt (.text region) = false) :
    zone.narrowed name type (some (key, .text region)) =
      zone.expected name type (some (key, .text region)) := by
  rw [narrowed, Zone.narrow, expected, matching]
  simp only [hint, Bool.false_eq_true, if_false]
  rw [List.filter_map]
  congr 1
  apply List.filter_congr
  intro r hr
  rw [Function.comp_apply, ← Bool.decide_and]
  refine decide_eq_decide.mpr ((r.region_read_iff key (.text region)).trans ?_)
  constructor
  · rintro ⟨other, hrouting, hvalue⟩
    obtain rfl := Number.text.inj hvalue
    exact hrouting
  · intro hrouting
    exact ⟨region, hrouting, rfl⟩

/-- The search narrows the records to the matching ones where these can be found. -/
theorem narrowed_eq_expected_iff :
    zone.narrowed name type identifier = zone.expected name type identifier ↔
      zone.Findable name type identifier := by
  match identifier with
  | none =>
      refine iff_of_true ?_ trivial
      rw [narrowed, Zone.narrow, expected, matching, List.filter_eq_self.mpr]
      intro r _
      exact decide_eq_true trivial
  | some (key, .int weight) =>
      have hnil : zone.narrowed name type (some (key, .int weight)) = [] := by
        apply List.eq_nil_iff_forall_not_mem.mpr
        intro record hrecord
        obtain ⟨r, _, ⟨weight, _, hvalue⟩, _⟩ := (mem_narrowed_weight rfl).mp hrecord
        cases hvalue
      rw [hnil, eq_comm, expected_eq_nil]
      exact Iff.rfl
  | some (key, .text value) =>
      by_cases hint : Zone.isInt (.text value) = true
      · constructor
        · intro hsame _ r hr
          refine ⟨fun hrouting => ?_, fun weight hrouting hvalue => ?_⟩
          · have hmem : r.read.record ∈ zone.expected name type (some (key, .text value)) :=
              (zone.mem_expected name type _).mpr ⟨r, hr, hrouting, rfl⟩
            rw [← hsame] at hmem
            obtain ⟨r', _, hweighted, hread⟩ := (mem_narrowed_weight hint).mp hmem
            have hfound := (r'.weight_read_iff key (.text value)).mpr hweighted
            rw [hread] at hfound
            obtain ⟨weight, hother, _⟩ := (r.weight_read_iff key (.text value)).mp hfound
            rw [hrouting] at hother
            cases hother
          · have hmem : r.read.record ∈ zone.narrowed name type (some (key, .text value)) :=
              (mem_narrowed_weight hint).mpr ⟨r, hr, ⟨weight, hrouting, by rw [hvalue]⟩, rfl⟩
            rw [hsame] at hmem
            obtain ⟨r', _, hlatency, hread⟩ := (zone.mem_expected name type _).mp hmem
            have hfound := (r'.region_read_iff key (.text value)).mpr ⟨value, hlatency, rfl⟩
            rw [hread] at hfound
            obtain ⟨region, hother, _⟩ := (r.region_read_iff key (.text value)).mp hfound
            rw [hrouting] at hother
            cases hother
        · intro hfindable
          have hexpected : zone.expected name type (some (key, .text value)) = [] :=
            (zone.expected_eq_nil name type _).mpr fun r hr hmatch =>
              (hfindable hint r hr).1 hmatch
          rw [hexpected]
          apply List.eq_nil_iff_forall_not_mem.mpr
          intro record hrecord
          obtain ⟨r, hr, ⟨weight, hrouting, hvalue⟩, _⟩ := (mem_narrowed_weight hint).mp hrecord
          exact (hfindable hint r hr).2 weight hrouting (Number.text.inj hvalue).symm
      · refine iff_of_true (narrowed_region (Bool.eq_false_iff.mpr hint)) ?_
        exact fun htrue => absurd htrue hint

/-- What a search with `all` finds is what the records are narrowed to. -/
theorem narrowed_of_findsMatching (hfinds : zone.FindsMatching name type identifier) :
    zone.narrowed name type identifier = zone.expected name type identifier := by
  obtain ⟨outcome, hends, hgives⟩ := (hfinds true).1 0
  obtain rfl := hends.unique (zone.ends_findRecords name type identifier 0 true)
  rw [GivesRecords, if_pos (.inl rfl)] at hgives
  obtain ⟨found, hfound, hexpected⟩ := hgives
  have hgiven := givesRecords_give (makeQualified name) type 0 true
    (zone.narrowed name type identifier)
  rw [GivesRecords, if_pos (.inl rfl)] at hgiven
  obtain ⟨found', hfound', hnarrowed⟩ := hgiven
  obtain rfl := Except.ok.inj (hfound'.symm.trans hfound)
  exact hnarrowed.symm.trans hexpected

variable (zone name type)

/-- Searches find the matching records, and deletions delete them, exactly if these can be
found. -/
theorem findsMatching_iff :
    zone.FindsMatching name type identifier ↔ zone.Findable name type identifier := by
  rw [← narrowed_eq_expected_iff]
  constructor
  · exact narrowed_of_findsMatching identifier
  · intro hsame all
    constructor
    · intro desired
      refine ⟨_, zone.ends_findRecords name type identifier desired all, ?_⟩
      have hgiven := givesRecords_give (makeQualified name) type desired all
        (zone.narrowed name type identifier)
      rw [hsame] at hgiven
      change GivesRecords (zone.expected name type identifier) desired all
        (Zone.give _ _ _ _ (zone.narrowed name type identifier))
      rw [hsame]
      exact hgiven
    · refine ⟨_, zone.ends_deleteRecords name type identifier all, ?_⟩
      have hcommitted := committed_give (makeQualified name) type all
        (zone.narrowed name type identifier)
      have hlength : (zone.expected name type identifier).length =
          (zone.matching name type identifier).length := List.length_map _
      refine hcommitted.trans ?_
      rw [hsame, hlength]
      rfl

/-- A record of weight 10. -/
def recordTen : RecordSet :=
  ⟨"a.".toList, "A".toList, .int 60, .plain ["1.2.3.4".toList], .weighted "foo".toList (.int 10),
    none⟩

/-- The record, if it is not before a start. -/
def fromStart : RecordStart → List Record
  | ⟨some name, some type, none⟩ =>
      ([recordTen].filter fun r : RecordSet =>
        decide (toLex (name, type) ≤ toLex (r.name, r.type))).map fun r => r.read.record
  | _ => []

/-- A zone with this record. -/
def weightTen : StoredZone where
  stored := [recordTen]
  Rank := Lex (Text × Text)
  order := inferInstance
  rank := toLex
  rank_injective := toLex.injective
  sorted := List.pairwise_singleton _ _
  weights_int r hr identifier weight hrouting := by
    obtain rfl := List.mem_singleton.mp hr
    cases hrouting
    exact ⟨10, rfl⟩
  service _ start := ⟨fromStart start, []⟩
  rest := fromStart
  serves := ⟨fun n start => List.append_nil _, fun n start hempty => hempty⟩
  rest_eq name type := rfl

/-- The record of weight 10 is not found by its weight. -/
theorem not_findsMatching_weightTen :
    ¬weightTen.FindsMatching "a".toList "A".toList (some ("foo".toList, .int 10)) := by
  intro hfinds
  have hsame := narrowed_of_findsMatching _ hfinds
  have hfindable := (narrowed_eq_expected_iff _).mp hsame
  have hnamed : recordTen ∈ weightTen.named "a".toList "A".toList :=
    List.mem_filter.mpr ⟨List.mem_singleton_self _, by decide⟩
  exact hfindable recordTen hnamed rfl

end StoredZone

end Boto.Route53
