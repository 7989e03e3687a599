import Boto.S3.BucketListing
import Boto.Support.XmlWeight
import Boto.WrittenNumbers

/-!
# Listing the parts of an upload

`Part`, `part_lister` and `MultiPartUpload` of `boto/s3/multipart.py`.  A generator keeps the page
that it is in, but it asks the upload whether there are more pages and where the next one starts,
after it has yielded the page.
-/

namespace Boto.S3

open Auth (strInt)
open Xml (Node)

/-! ## Objects -/

/-- `Part`. -/
structure Part where
  partNumber : Option ℤ
  lastModified : Option Text
  etag : Option Text
  size : Option ℤ
  deriving DecidableEq

namespace Part

/-- `Part()`. -/
def init : Part where
  partNumber := none
  lastModified := none
  etag := none
  size := none

/-- `endElement`. -/
def endElement (name value : Text) (self : Part) : Except PyError Part :=
  if name = "PartNumber".toList then
    (parseInt value).map fun number => { self with partNumber := some number }
  else if name = "LastModified".toList then .ok { self with lastModified := some value }
  else if name = "ETag".toList then .ok { self with etag := some value }
  else if name = "Size".toList then
    (parseInt value).map fun size => { self with size := some size }
  else .ok self

end Part

/-- `MultiPartUpload`, with the parts that were listed last. -/
structure MultiPartUpload where
  bucketName : Option Text
  keyName : Option Text
  id : Option Text
  storageClass : Option Text
  initiated : Option Text
  partNumberMarker : Option Text
  nextPartNumberMarker : Option Text
  maxParts : Option ℤ
  isTruncated : Bool
  parts : List Part

/-- The objects that are referred to while a list of parts is read: the upload, the part that was
added last, and a user. -/
inductive UploadRef
  | upload
  | part
  | user
  deriving DecidableEq

namespace MultiPartUpload

/-- `endElement`. -/
def endElement (name value : Text) (self : MultiPartUpload) : Except PyError MultiPartUpload :=
  if name = "Bucket".toList then .ok { self with bucketName := some value }
  else if name = "Key".toList then .ok { self with keyName := some value }
  else if name = "UploadId".toList then .ok { self with id := some value }
  else if name = "StorageClass".toList then .ok { self with storageClass := some value }
  else if name = "PartNumberMarker".toList then .ok { self with partNumberMarker := some value }
  else if name = "NextPartNumberMarker".toList then
    .ok { self with nextPartNumberMarker := some value }
  else if name = "MaxParts".toList then
    (parseInt value).map fun maxParts => { self with maxParts := some maxParts }
  else if name = "IsTruncated".toList then
    .ok { self with isTruncated := decide (value = "true".toList) }
  else if name = "Initiated".toList then .ok { self with initiated := some value }
  else .ok self

/-- Changes the part that was added last. -/
def modifyLast (f : Part → Except PyError Part) (self : MultiPartUpload) :
    Except PyError MultiPartUpload :=
  match self.parts.getLast? with
  | none => .ok self
  | some part => (f part).map fun part => { self with parts := self.parts.dropLast ++ [part] }

/-- The methods of an upload, its parts and its users. -/
def methods : Nodes UploadRef MultiPartUpload where
  startElement
    | .upload, name, self =>
        if name = "Initiator".toList ∨ name = "Owner".toList then (some .user, self)
        else if name = "Part".toList then
          (some .part, { self with parts := self.parts ++ [.init] })
        else (none, self)
    | .part, _, self => (none, self)
    | .user, _, self => (none, self)
  endElement
    | .upload, name, value, self => self.endElement name value
    | .part, name, value, self => self.modifyLast (·.endElement name value)
    | .user, _, _, self => .ok self

/-- `'%s' % value`. -/
def format (value : Option Text) : Text :=
  value.getD "None".toList

/-- A parameter that is put into the query if its value is true. -/
def queryArg (name : Text) (value : Option Text) : Text :=
  match value with
  | some (c :: value) => '&' :: (name ++ '=' :: c :: value)
  | _ => []

/-- `get_all_parts`, whose answer is status 200.  The parts of the upload are what it returns. -/
def getAllParts (server : Server) (self : MultiPartUpload) (i : ℕ) (maxParts : Option ℤ)
    (partNumberMarker encodingType : Option Text) : Except PyError MultiPartUpload :=
  let queryArgs := "uploadId=".toList ++ format self.id ++
    queryArg "max-parts".toList ((maxParts.filter fun maxParts => maxParts ≠ 0).map strInt) ++
      queryArg "part-number-marker".toList partNumberMarker ++
        queryArg "encoding-type".toList encodingType
  XmlHandler.parse methods .upload { self with parts := [] } (server i queryArgs).events

end MultiPartUpload

/-! ## The generator -/

/-- An upload, and how many requests were sent. -/
structure Session where
  upload : MultiPartUpload
  calls : ℕ

/-- `part_lister`: not started, before the rest of a page, or ended. -/
inductive PartLister
  | fresh (partNumberMarker : Option Text)
  | inPage (rest : List Part)
  | done

/-- What `next` of a generator gives: a part, unless it ends. -/
abbrev Advance := Option Part × PartLister × Session

/-- The loop of the generator from where it asks for a page, if it sends no more than the given
number of requests. -/
def nextPage (server : Server) : ℕ → Option Text → Session → Except PyError (Option Advance)
  | 0, _, _ => .ok none
  | fuel + 1, partNumberMarker, session => do
      let upload ← session.upload.getAllParts server session.calls none partNumberMarker none
      match upload.parts with
      | part :: rest => return some (some part, .inPage rest, ⟨upload, session.calls + 1⟩)
      | [] =>
          if upload.isTruncated then
            nextPage server fuel upload.nextPartNumberMarker ⟨upload, session.calls + 1⟩
          else return some (none, .done, ⟨upload, session.calls + 1⟩)

/-- `next`. -/
def next (server : Server) (fuel : ℕ) (lister : PartLister) (session : Session) :
    Except PyError (Option Advance) :=
  match lister with
  | .fresh partNumberMarker => nextPage server fuel partNumberMarker session
  | .inPage (part :: rest) => .ok (some (some part, .inPage rest, session))
  | .inPage [] =>
      if session.upload.isTruncated then
        nextPage server fuel session.upload.nextPartNumberMarker session
      else .ok (some (none, .done, session))
  | .done => .ok (some (none, .done, session))

/-- The parts that a generator yields up to its end, if there are fewer than the given number. -/
def collect (server : Server) (fuel : ℕ) :
    ℕ → PartLister → Session → Except PyError (Option (List Part × Session))
  | 0, _, _ => .ok none
  | steps + 1, lister, session => do
      match ← next server fuel lister session with
      | none => return none
      | some (none, _, session) => return some ([], session)
      | some (some part, lister, session) =>
          let found ← collect server fuel steps lister session
          return found.map fun found => (part :: found.1, found.2)

/-- The element of a part in `to_xml`. -/
def Part.toXml (part : Part) : Except PyError Text :=
  match part.partNumber with
  | none => .error (.typeError "%d format: a number is required, not NoneType")
  | some number =>
      .ok ("  <Part>\n".toList ++ "    <PartNumber>".toList ++ strInt number ++
        "</PartNumber>\n".toList ++ "    <ETag>".toList ++ MultiPartUpload.format part.etag ++
          "</ETag>\n".toList ++ "  </Part>\n".toList)

/-- `to_xml`, which is what `complete_upload` sends. -/
def toXml (server : Server) (fuel : ℕ) (session : Session) :
    Except PyError (Option (Text × Session)) := do
  match ← collect server fuel fuel (.fresh none) session with
  | none => return none
  | some (parts, session) =>
      let elements ← parts.mapM Part.toXml
      return some ("<CompleteMultipartUpload>\n".toList ++ elements.flatten ++
        "</CompleteMultipartUpload>".toList, session)

/-! ## The service -/

/-- A part that was uploaded. -/
structure UploadedPart where
  number : ℕ
  lastModified : Text
  etag : Text
  size : ℕ
  deriving DecidableEq

/-- The part as it is listed. -/
def UploadedPart.listed (part : UploadedPart) : Part where
  partNumber := some part.number
  lastModified := some part.lastModified
  etag := some part.etag
  size := some part.size

/-- An upload at the service, with its parts in order. -/
structure Uploaded where
  bucketName : Text
  keyName : Text
  id : Text
  parts : List UploadedPart
  idPlain : '&' ∉ id
  positive : ∀ part ∈ parts, 0 < part.number
  ordered : parts.Pairwise fun a b => decide (a.number < b.number) = true

namespace Uploaded

/-- The parts after a number. -/
def listing (uploaded : Uploaded) : Listing UploadedPart.number :=
  .ofSorted (fun a b => decide (a < b))
    (fun _ _ _ hab hbc => decide_eq_true ((of_decide_eq_true hab).trans (of_decide_eq_true hbc)))
    (fun a => decide_eq_false (Nat.lt_irrefl a)) uploaded.parts uploaded.ordered

/-- The parts as they are listed. -/
def listed (uploaded : Uploaded) : List Part :=
  uploaded.parts.map UploadedPart.listed

end Uploaded

/-- The elements in the element of a part. -/
def UploadedPart.fields (part : UploadedPart) : List (Text × Text) :=
  [("PartNumber".toList, decimal part.number), ("LastModified".toList, part.lastModified),
    ("ETag".toList, part.etag), ("Size".toList, decimal part.size)]

/-- The element of a part. -/
def UploadedPart.element (part : UploadedPart) : Node :=
  .element "Part".toList (part.fields.map fun field => .leaf field.1 field.2)

/-- The element of a user. -/
def userElement (name : Text) : Node :=
  .element name [.leaf "ID".toList "75aa57f09aa0".toList, .leaf "DisplayName".toList "user".toList]

/-- The number that a query asks for parts after. -/
def askedMarker (query : Text) : ℕ :=
  ((parseInt (queryParam "part-number-marker".toList query)).toOption.getD 0).toNat

/-- A service that lists parts, where page `i` has at most `sizes i + 1` of them. -/
def answerParts (uploaded : Uploaded) (sizes : ℕ → ℕ) : Server :=
  fun i query =>
    let marker := askedMarker query
    let rest := uploaded.listing.after marker
    let page := rest.take (sizes i + 1)
    let truncated := decide (sizes i + 1 < rest.length)
    let nextMarker := page.getLast?.bind fun last =>
      if truncated then some (decimal last.number) else none
    let fields := [("Bucket".toList, uploaded.bucketName), ("Key".toList, uploaded.keyName),
      ("UploadId".toList, uploaded.id)]
    let paging := [("StorageClass".toList, "STANDARD".toList),
        ("PartNumberMarker".toList, decimal marker)] ++
      optionalField "NextPartNumberMarker".toList nextMarker ++
        [("MaxParts".toList, decimal (sizes i + 1)), ("IsTruncated".toList, boolText truncated)]
    .element "ListPartsResult".toList
      (fields.map (fun field => .leaf field.1 field.2) ++
        ([userElement "Initiator".toList, userElement "Owner".toList] ++
          (paging.map (fun field => .leaf field.1 field.2) ++ page.map UploadedPart.element)))

/-! ## Runs -/

/-- A session, and its generators with what they have yielded. -/
structure Run where
  session : Session
  listers : List (PartLister × List Part)

/-- What is done with an upload. -/
inductive Action
  | iter
  | next (i : ℕ)
  | completeUpload

/-- An action and what it leads to. -/
inductive Performs (server : Server) : Run → Action → Run → Prop
  | iter (run : Run) :
      Performs server run .iter { run with listers := run.listers ++ [(.fresh none, [])] }
  | next {run : Run} {i fuel : ℕ} {lister lister' : PartLister} {yields : List Part}
      {part : Option Part} {session : Session}
      (hlister : run.listers[i]? = some (lister, yields))
      (hnext : next server fuel lister run.session = .ok (some (part, lister', session))) :
      Performs server run (.next i)
        ⟨session, run.listers.set i (lister', yields ++ part.toList)⟩
  | completeUpload {run : Run} {fuel : ℕ} {text : Text} {session : Session}
      (hxml : toXml server fuel run.session = .ok (some (text, session))) :
      Performs server run .completeUpload { run with session := session }

/-- The runs whose actions meet a condition. -/
inductive Reaches (server : Server) (condition : Run → Action → Prop) (start : Run) : Run → Prop
  | start : Reaches server condition start start
  | step {run run' : Run} {action : Action} (hreaches : Reaches server condition start run)
      (hcondition : condition run action) (hperforms : Performs server run action run') :
      Reaches server condition start run'

/-! ## Completeness -/

/-- The elements of parts in the document that completes an upload. -/
def completeNodes (parts : List UploadedPart) : List Node :=
  parts.map fun part => .element "Part".toList
    [.leaf "PartNumber".toList (decimal part.number), .leaf "ETag".toList part.etag]

/-- A document names parts, with white space between its elements. -/
def NamesParts (text : Text) (parts : List UploadedPart) : Prop :=
  ∃ spaced, Xml.Spaced (· = "Part".toList) Xml.IsCleanSpace (completeNodes parts) spaced ∧
    Xml.parse text =
      some (Node.eventsOf [.element "CompleteMultipartUpload".toList spaced])

/-- Generators that have ended have yielded all parts, and `complete_upload` names them all. -/
structure IsComplete (server : Server) (uploaded : Uploaded) (run : Run) : Prop where
  listers : ∀ lister ∈ run.listers, lister.1 = .done → lister.2 = uploaded.listed
  sends : ∃ enough text, NamesParts text uploaded.parts ∧ ∀ fuel, enough ≤ fuel →
    ∃ session, toXml server fuel run.session = .ok (some (text, session))

/-- An upload says what the page said that ended with what was yielded. -/
def IsUpToDate (uploaded : Uploaded) (yields : List Part) (upload : MultiPartUpload) : Prop :=
  (upload.isTruncated = true ↔ yields ≠ uploaded.listed) ∧
    (upload.isTruncated = true → ∃ part number, yields.getLast? = some part ∧
      part.partNumber = some number ∧ upload.nextPartNumberMarker = some (strInt number))

/-- A generator at the end of a page goes on only if the upload still says what that page said. -/
def IsUndisturbed (uploaded : Uploaded) (run : Run) (action : Action) : Prop :=
  ∀ i yields, action = .next i → run.listers[i]? = some (.inPage [], yields) →
    IsUpToDate uploaded yields run.session.upload

end Boto.S3
