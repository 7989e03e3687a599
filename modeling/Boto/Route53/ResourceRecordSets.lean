import Boto.Python
import Boto.Route53.Record

/-!
# Resource record sets

`boto/route53/record.py`.  A set is the list of the records of one response, and iterating it
goes on with the sets of later responses, which are iterated in their turn.
-/

namespace Boto.Route53

variable {ρ : Type}

/-- The record that a listing starts from, by its name, type and identifier. -/
structure RecordStart where
  name : Option Text
  type : Option Text
  identifier : Option Text
  deriving DecidableEq

/-- A response to `get_all_rrsets`: its records, and the other elements with their texts. -/
structure RRSetsResponse (ρ : Type) where
  records : List ρ
  elements : List (Text × Text)

/-- `ResourceRecordSets`, with the records in it. -/
structure ResourceRecordSets (ρ : Type) where
  records : List ρ
  isTruncated : Bool
  nextRecordName : Option Text
  nextRecordType : Option Text
  nextRecordIdentifier : Option Text
  deriving DecidableEq

/-- A service, whose pages may differ from call to call. -/
abbrev RRSetsService (ρ : Type) := ℕ → RecordStart → RRSetsResponse ρ

namespace ResourceRecordSets

/-- `endElement`, as far as an iteration needs it. -/
def endElement (name value : Text) (rrsets : ResourceRecordSets ρ) : ResourceRecordSets ρ :=
  if name = "NextRecordName".toList then { rrsets with nextRecordName := some value }
  else if name = "NextRecordType".toList then { rrsets with nextRecordType := some value }
  else if name = "NextRecordIdentifier".toList then
    { rrsets with nextRecordIdentifier := some value }
  else if name = "IsTruncated".toList then
    { rrsets with isTruncated := decide (value = "true".toList) }
  else rrsets

/-- The set that is read from a response. -/
def ofResponse (response : RRSetsResponse ρ) : ResourceRecordSets ρ :=
  response.elements.foldl (fun rrsets element => rrsets.endElement element.1 element.2) {
    records := response.records
    isTruncated := false
    nextRecordName := none
    nextRecordType := none
    nextRecordIdentifier := none }

/-- Where the next response starts. -/
def next (rrsets : ResourceRecordSets ρ) : RecordStart where
  name := rrsets.nextRecordName
  type := rrsets.nextRecordType
  identifier := rrsets.nextRecordIdentifier

/-- An iteration: what it has yielded, whether it came to its end, the set after it, and how
many calls have been made. -/
structure Iterated (ρ : Type) where
  yielded : List ρ
  ended : Bool
  rrsets : ResourceRecordSets ρ
  calls : ℕ

/-- `__iter__` of which so many records are taken, or all until it stops by itself.  After
the records of this set the flag is cleared, so that the loop does not go round again after
those of the next response.  An empty response ends the loop at once. -/
def iter (service : RRSetsService ρ) :
    ℕ → ResourceRecordSets ρ → ℕ → Option ℕ → Option (Iterated ρ)
  | 0, _, _, _ => none
  | fuel + 1, rrsets, calls, taken =>
      if taken.any fun taken => decide (taken ≤ rrsets.records.length) then
        some {
          yielded := rrsets.records.take (taken.getD 0)
          ended := false
          rrsets := rrsets
          calls := calls }
      else if rrsets.isTruncated then
        let truncated := rrsets.isTruncated
        let cleared := { rrsets with isTruncated := false }
        let results := ofResponse (service calls cleared.next)
        if results.records = [] then
          some {
            yielded := rrsets.records
            ended := true
            rrsets := cleared
            calls := calls + 1 }
        else
          (iter service fuel results (calls + 1)
              (taken.map fun taken => taken - rrsets.records.length)).map fun later =>
            { yielded := rrsets.records ++ later.yielded
              ended := later.ended
              rrsets := if later.ended then { cleared with isTruncated := truncated } else cleared
              calls := later.calls }
      else
        some {
          yielded := rrsets.records
          ended := true
          rrsets := rrsets
          calls := calls }

/-- Iterations of the same set one after another, with what each of them takes. -/
def iterations (service : RRSetsService ρ) (fuel : ℕ) :
    ResourceRecordSets ρ → ℕ → List (Option ℕ) → Option (List (Iterated ρ))
  | _, _, [] => some []
  | rrsets, calls, taken :: later => do
      let iterated ← iter service fuel rrsets calls taken
      let rest ← iterations service fuel iterated.rrsets iterated.calls later
      return iterated :: rest

end ResourceRecordSets

end Boto.Route53

/-!
## Finding records in a zone

`find_records` of `boto/route53/zone.py` and the methods that delete what it finds.
-/

namespace Boto.Route53

/-- What a search or a deletion may raise. -/
inductive ZoneError
  | tooManyRecords (message : Text)
  | python (error : PyError)
  deriving DecidableEq

/-- What `find_records` returns. -/
inductive Found
  | none
  | record (record : Record)
  | records (records : List Record)
  deriving DecidableEq

/-- The records that were found. -/
def Found.toList : Found → List Record
  | .none => []
  | .record r => [r]
  | .records rs => rs

/-- `_make_qualified` of a string. -/
def makeQualified (value : Text) : Text :=
  let value := strip value
  if value ≠ [] ∧ value.getLast? ≠ some '.' then value ++ ['.'] else value

namespace Zone

/-- `int(value)` succeeds. -/
def isInt : Number → Bool
  | .int _ => true
  | .text value => (parseInt value).toBool

/-- The loop over the records that were returned, up to the first that has another name or
type. -/
def collect (service : RRSetsService Record) (matched : Record → Bool) :
    ℕ → ResourceRecordSets Record → ℕ → Option (List Record)
  | 0, _, _ => none
  | fuel + 1, returned, calls =>
      let results := returned.records.takeWhile matched
      if results.length < returned.records.length then some results
      else if returned.isTruncated then
        let next := ResourceRecordSets.ofResponse (service calls returned.next)
        if next.records = [] then some results
        else (collect service matched fuel next (calls + 1)).map (results ++ ·)
      else some results

/-- The records that match an identifier: by its weight if that is a number, else by its
region. -/
def narrow (identifier : Option (Text × Number)) (results : List Record) : List Record :=
  match identifier with
  | none => results
  | some (identifier, value) =>
      if isInt value then
        results.filter fun r =>
          decide (r.weight = some value) && decide (r.identifier = some identifier)
      else
        results.filter fun r =>
          decide (r.region.map Number.text = some value) &&
            decide (r.identifier = some identifier)

/-- What is returned for some results. -/
def give (name type : Text) (desired : ℕ) (all : Bool) (results : List Record) :
    Except ZoneError Found :=
  if all = false ∧ desired < results.length then
    let found := results.map fun r =>
      percentS r.name ++ " ".toList ++ percentS r.type ++ " ".toList ++ r.toPrint
    .error (.tooManyRecords ("Search: name ".toList ++ name ++ " type ".toList ++ type ++
      "\nFound: ".toList ++ ", ".toList.intercalate found))
  else
    match results with
    | [] => .ok .none
    | [result] => .ok (.record result)
    | results => .ok (.records results)

/-- `find_records`, for at most so many pages. -/
def findRecords (service : RRSetsService Record) (fuel : ℕ) (name type : Text) (desired : ℕ)
    (all : Bool) (identifier : Option (Text × Number)) : Option (Except ZoneError Found) :=
  let name := makeQualified name
  let returned := ResourceRecordSets.ofResponse (service 0 ⟨some name, some type, none⟩)
  let results := collect service
    (fun r => decide (r.name = some name) && decide (r.type = some type)) fuel returned 1
  results.map fun results => give name type desired all (narrow identifier results)

/-- `delete_record`: the records of the change set that is committed. -/
def deleteRecord : Found → Except ZoneError (List Record)
  | .none => .error (.python (.attributeError "'NoneType' object has no attribute 'to_xml'"))
  | .record r => .ok [r]
  | .records rs => .ok rs

/-- `delete_cname`, `delete_a` and `delete_mx`, by the type of their records. -/
def deleteRecords (type : Text) (service : RRSetsService Record) (fuel : ℕ) (name : Text)
    (identifier : Option (Text × Number)) (all : Bool) :
    Option (Except ZoneError (List Record)) :=
  (findRecords service fuel (makeQualified name) type 1 all identifier).map fun found =>
    found >>= deleteRecord

/-- `delete_cname`. -/
def deleteCname := deleteRecords "CNAME".toList

/-- `delete_a`. -/
def deleteA := deleteRecords "A".toList

/-- `delete_mx`. -/
def deleteMx := deleteRecords "MX".toList

end Zone

end Boto.Route53
