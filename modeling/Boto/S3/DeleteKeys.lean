import Boto.Python
import Boto.Support.OrderedDict
import Boto.Support.Xml
import Mathlib.Data.List.Range

/-!
# Deleting many keys

`Bucket.delete_keys` of `boto/s3/bucket.py`.  What the service answers to each request is
given, with the elements of the response where it can be parsed.
-/

namespace Boto.S3

namespace MultiDelete

/-- `Error` of `boto/s3/multidelete.py`. -/
structure Error where
  key : Option Text
  versionId : Option Text := none
  code : Option Text
  message : Option Text
  deriving DecidableEq

/-- `Deleted` of `boto/s3/multidelete.py`. -/
structure Deleted where
  key : Option Text
  versionId : Option Text
  deleteMarker : Bool
  deleteMarkerVersionId : Option Text
  deriving DecidableEq

end MultiDelete

/-- `MultiDeleteResult`. -/
structure MultiDeleteResult where
  deleted : List MultiDelete.Deleted := []
  errors : List MultiDelete.Error := []
  deriving DecidableEq

/-- What can be given to `delete_keys`.  Objects come with their `repr` where it is used. -/
inductive DeleteInput
  | name (name : Text)
  | pair (name : Text) (versionId : Option Text)
  /-- A `Key` or a `DeleteMarker`. -/
  | key (name : Option Text) (versionId : Option Text) (repr : Text)
  /-- A `Prefix`. -/
  | commonPrefix (name : Option Text)
  | other (repr : Text)

/-- A name and a version, as they are sent. -/
structure DeleteEntry where
  keyName : Text
  versionId : Option Text
  deriving DecidableEq

/-- The error for an input that is not sent. -/
def notDeleted (keyName : Option Text) (code : String) : MultiDelete.Error where
  key := keyName
  code := some code.toList
  message := some "Invalid. No delete action taken for this object.".toList

/-- What to do with an input. -/
def DeleteInput.read : DeleteInput → DeleteEntry ⊕ MultiDelete.Error
  | .name given => .inl ⟨given, none⟩
  | .pair given versionId => .inl ⟨given, versionId⟩
  | .key (some (c :: given)) versionId _ => .inl ⟨c :: given, versionId⟩
  | .key _ _ repr => .inr (notDeleted (some repr) "InvalidArgument")
  | .commonPrefix given => .inr (notDeleted given "PrefixSkipped")
  | .other repr => .inr (notDeleted (some repr) "InvalidArgument")

/-- The element of a name and a version. -/
def DeleteEntry.element (entry : DeleteEntry) : Text :=
  "<Object><Key>".toList ++ Xml.escape entry.keyName ++ "</Key>".toList ++
    (match entry.versionId with
    | some (c :: version) => "<VersionId>".toList ++ c :: version ++ "</VersionId>".toList
    | _ => []) ++ "</Object>".toList

/-- What one request is made of. -/
structure DeleteBatch where
  count : ℕ
  data : Text
  errors : List MultiDelete.Error
  /-- The inputs that the iterator still has. -/
  rest : List DeleteInput

/-- The loop of `delete_keys2`. -/
def collectKeys (count : ℕ) (data : Text) (errors : List MultiDelete.Error) :
    List DeleteInput → DeleteBatch
  | [] => ⟨count, data, errors, []⟩
  | key :: keys =>
      if count < 1000 then
        match key.read with
        | .inl entry => collectKeys (count + 1) (data ++ entry.element) errors keys
        | .inr error => collectKeys count data (errors ++ [error]) keys
      else ⟨count, data, errors, key :: keys⟩

/-- The beginning of a document. -/
def openDelete (quiet : Bool) : Text :=
  "<?xml version=\"1.0\" encoding=\"UTF-8\"?>".toList ++ "<Delete>".toList ++
    if quiet then "<Quiet>true</Quiet>".toList else []

/-- The end of a document. -/
def closeDelete : Text := "</Delete>".toList

/-- A request. -/
structure DeleteRequest where
  headers : OrderedDict Text Text
  data : Text

/-- A response, with its elements if it can be parsed. -/
structure DeleteResponse where
  status : ℕ
  reason : Text
  body : Text
  elements : Option (List MultiDelete.Deleted × List MultiDelete.Error)

/-- Why `delete_keys` raises. -/
inductive DeleteFailure
  /-- No response came. -/
  | request
  /-- `storage_response_error`. -/
  | storageResponse (status : ℕ) (reason body : Text)
  /-- The response cannot be parsed. -/
  | parse
  deriving DecidableEq

/-- The requests of a call, and how it ends. -/
structure DeleteRun where
  requests : List DeleteRequest
  outcome : Except DeleteFailure MultiDeleteResult

/-- The arguments of a call, and what it asks the provider and `compute_md5`. -/
structure DeleteSettings where
  quiet : Bool
  mfaToken : List Text
  mfaHeader : Text
  computeMd5 : Text → Text

/-- The headers of a request. -/
def DeleteSettings.requestHeaders (settings : DeleteSettings) (headers : OrderedDict Text Text)
    (data : Text) : OrderedDict Text Text :=
  let headers := (headers.set "Content-MD5".toList (settings.computeMd5 data)).set
    "Content-Type".toList "text/xml".toList
  if settings.mfaToken = [] then headers
  else headers.set settings.mfaHeader (List.intercalate [' '] settings.mfaToken)

theorem length_collectKeys (count : ℕ) (data : Text) (errors : List MultiDelete.Error)
    (keys : List DeleteInput) :
    (collectKeys count data errors keys).count + (collectKeys count data errors keys).rest.length ≤
      count + keys.length := by
  induction keys generalizing count data errors with
  | nil => exact le_rfl
  | cons key keys ih =>
      rw [collectKeys, List.length_cons]
      split
      · split
        · exact le_trans (ih _ _ _) (by omega)
        · exact le_trans (ih _ _ _) (by omega)
      · exact le_rfl

/-- `delete_keys` with the answers to the requests that are still to come.  A dictionary of
headers that is not empty is the same one for all requests. -/
def deleteKeys (settings : DeleteSettings) (answers : ℕ → Option DeleteResponse)
    (headers : OrderedDict Text Text) (result : MultiDeleteResult) (keys : List DeleteInput) :
    DeleteRun :=
  let batch := collectKeys 0 (openDelete settings.quiet) result.errors keys
  if _hcount : batch.count = 0 then ⟨[], .ok { result with errors := batch.errors }⟩
  else
    let data := batch.data ++ closeDelete
    let request : DeleteRequest := ⟨settings.requestHeaders headers data, data⟩
    match answers 0 with
    | none => ⟨[request], .error .request⟩
    | some response =>
        if response.status = 200 then
          match response.elements with
          | none => ⟨[request], .error .parse⟩
          | some (deleted, errors) =>
              let parsed : MultiDeleteResult :=
                ⟨result.deleted ++ deleted, batch.errors ++ errors⟩
              if 1000 ≤ batch.count then
                let run := deleteKeys settings (fun i => answers (i + 1))
                  (if headers.items = [] then headers else request.headers) parsed batch.rest
                ⟨request :: run.requests, run.outcome⟩
              else ⟨[request], .ok parsed⟩
        else
          ⟨[request], .error (.storageResponse response.status response.reason response.body)⟩
termination_by keys.length
decreasing_by
  have hlength := length_collectKeys 0 (openDelete settings.quiet) result.errors keys
  simp only [Nat.zero_add] at hlength
  exact Nat.lt_of_lt_of_le (Nat.lt_add_of_pos_left (Nat.pos_of_ne_zero _hcount)) hlength

/-! ## Batches -/

/-- The entry of an input that can be deleted. -/
def DeleteInput.entry? (key : DeleteInput) : Option DeleteEntry := key.read.getLeft?

/-- The error of an input that cannot. -/
def DeleteInput.error? (key : DeleteInput) : Option MultiDelete.Error := key.read.getRight?

/-- The entries in a document. -/
def elements (entries : List DeleteEntry) : Text := entries.flatMap DeleteEntry.element

/-- What is consumed for a request. -/
theorem collectKeys_eq (count : ℕ) (data : Text) (errors : List MultiDelete.Error)
    (keys : List DeleteInput) (hcount : count ≤ 1000) :
    ∃ taken rest, keys = taken ++ rest ∧
      collectKeys count data errors keys =
        ⟨count + (taken.filterMap DeleteInput.entry?).length,
          data ++ elements (taken.filterMap DeleteInput.entry?),
          errors ++ taken.filterMap DeleteInput.error?, rest⟩ ∧
      count + (taken.filterMap DeleteInput.entry?).length ≤ 1000 ∧
      (count + (taken.filterMap DeleteInput.entry?).length < 1000 → rest = []) := by
  induction keys generalizing count data errors with
  | nil => exact ⟨[], [], rfl, by simp [collectKeys, elements], hcount, fun _ => rfl⟩
  | cons key keys ih =>
      rw [collectKeys]
      by_cases hlt : count < 1000
      · rw [if_pos hlt]
        cases hread : key.read with
        | inl entry =>
            have hentry : key.entry? = some entry := by rw [DeleteInput.entry?, hread]; rfl
            have herror : key.error? = none := by rw [DeleteInput.error?, hread]; rfl
            obtain ⟨taken, rest, rfl, hbatch, hle, hrest⟩ :=
              ih (count + 1) (data ++ entry.element) errors hlt
            refine ⟨key :: taken, rest, rfl, ?_⟩
            rw [List.filterMap_cons_some hentry, List.filterMap_cons_none herror,
              List.length_cons, ← Nat.add_assoc, Nat.add_right_comm]
            refine ⟨?_, hle, hrest⟩
            simp only
            rw [hbatch, elements, elements, List.flatMap_cons, List.append_assoc]
        | inr error =>
            have hentry : key.entry? = none := by rw [DeleteInput.entry?, hread]; rfl
            have herror : key.error? = some error := by rw [DeleteInput.error?, hread]; rfl
            obtain ⟨taken, rest, rfl, hbatch, hle, hrest⟩ := ih count data (errors ++ [error]) hcount
            refine ⟨key :: taken, rest, rfl, ?_⟩
            rw [List.filterMap_cons_none hentry, List.filterMap_cons_some herror]
            refine ⟨?_, hle, hrest⟩
            simp only
            rw [hbatch, List.append_assoc]
            rfl
      · rw [if_neg hlt]
        exact ⟨[], key :: keys, rfl, by simp [elements], hcount, fun h => absurd h hlt⟩

/-! ## The whole call -/

/-- The service has accepted a request. -/
def succeeds (answer : Option DeleteResponse) : Bool :=
  answer.any fun response => response.status == 200 && response.elements.isSome

/-- The errors that the service reports. -/
def reported (answer : Option DeleteResponse) : List MultiDelete.Error :=
  ((answer.bind DeleteResponse.elements).map Prod.snd).getD []

/-- The document that asks for some entries to be deleted. -/
def deleteDocument (quiet : Bool) (entries : List DeleteEntry) : Text :=
  openDelete quiet ++ elements entries ++ closeDelete

/-- The inputs are split into the parts of a run. -/
structure IsSplit (keys : List DeleteInput) (parts : List (List DeleteEntry)) : Prop where
  flatten : parts.flatten = keys.filterMap DeleteInput.entry?
  sizes : ∀ part ∈ parts, 1 ≤ part.length ∧ part.length ≤ 1000

/-- A run sends the parts one after the other, until a request fails. -/
structure Sends (quiet : Bool) (answers : ℕ → Option DeleteResponse)
    (errors : List MultiDelete.Error) (keys : List DeleteInput)
    (parts : List (List DeleteEntry)) (run : DeleteRun) : Prop where
  finished : (∀ i < parts.length, succeeds (answers i) = true) →
    run.requests.map DeleteRequest.data = parts.map (deleteDocument quiet) ∧
    ∃ result, run.outcome = .ok result ∧ result.errors.Perm
      (errors ++ keys.filterMap DeleteInput.error? ++
        (List.range parts.length).flatMap fun i => reported (answers i))
  stopped : ∀ i < parts.length, (∀ j < i, succeeds (answers j) = true) →
    succeeds (answers i) = false →
    run.requests.map DeleteRequest.data = (parts.take (i + 1)).map (deleteDocument quiet) ∧
    ∃ failure, run.outcome = .error failure

section

variable {quiet : Bool} {answers : ℕ → Option DeleteResponse} {errors : List MultiDelete.Error}
  {keys taken rest : List DeleteInput} {parts : List (List DeleteEntry)} {run : DeleteRun}
  {request : DeleteRequest}

/-- The first request fails. -/
theorem Sends.of_failure {failure : DeleteFailure} (hanswer : succeeds (answers 0) = false)
    (hdata : request.data = deleteDocument quiet (taken.filterMap DeleteInput.entry?)) :
    Sends quiet answers errors keys (taken.filterMap DeleteInput.entry? :: parts)
      ⟨[request], .error failure⟩ := by
  constructor
  · intro hall
    rw [hall 0 (Nat.zero_lt_succ _)] at hanswer
    cases hanswer
  · intro i _ hbefore _
    cases i with
    | zero => exact ⟨by simp [hdata], failure, rfl⟩
    | succ i =>
        rw [hbefore 0 (Nat.zero_lt_succ _)] at hanswer
        cases hanswer

/-- The first request succeeds and others follow. -/
theorem Sends.cons {added : List MultiDelete.Error} (hanswer : succeeds (answers 0) = true)
    (hdata : request.data = deleteDocument quiet (taken.filterMap DeleteInput.entry?))
    (hadded : added = errors ++ taken.filterMap DeleteInput.error? ++ reported (answers 0))
    (hrest : Sends quiet (fun i => answers (i + 1)) added rest parts run) :
    Sends quiet answers errors (taken ++ rest) (taken.filterMap DeleteInput.entry? :: parts)
      ⟨request :: run.requests, run.outcome⟩ := by
  constructor
  · intro hall
    obtain ⟨hsent, result, houtcome, hperm⟩ := hrest.finished fun i hi =>
      hall (i + 1) (Nat.succ_lt_succ hi)
    refine ⟨by simp [hdata, hsent], result, houtcome, hperm.trans ?_⟩
    rw [hadded, List.length_cons, List.range_succ_eq_map, List.flatMap_cons, List.flatMap_map,
      List.filterMap_append]
    simp only [List.append_assoc]
    refine List.Perm.append_left _ (List.Perm.append_left _ ?_)
    exact List.perm_append_comm_assoc _ _ _
  · intro i hi hbefore hfails
    cases i with
    | zero =>
        rw [hanswer] at hfails
        cases hfails
    | succ i =>
        obtain ⟨hsent, hfailure⟩ := hrest.stopped i (Nat.lt_of_succ_lt_succ hi)
          (fun j hj => hbefore (j + 1) (Nat.succ_lt_succ hj)) hfails
        exact ⟨by simp [hdata, hsent], hfailure⟩

/-- Nothing is sent. -/
theorem Sends.nil {result : MultiDeleteResult}
    (herrors : result.errors = errors ++ keys.filterMap DeleteInput.error?) :
    Sends quiet answers errors keys [] ⟨[], .ok result⟩ :=
  ⟨fun _ => ⟨rfl, result, rfl, by simp [herrors]⟩, fun _ hi => absurd hi (Nat.not_lt_zero _)⟩

end

end Boto.S3
