import Boto.S3.Multipart
import Boto.Support.Utf8

/-!
# Which listings of parts are complete

A generator yields the parts after its marker page by page, as long as the upload tells it at the
end of a page what that page said.  Other generators change what the upload says, but
`complete_upload` lets none of them in between.
-/

namespace Boto.S3

open Auth (strInt)
open Xml (Node)

/-! ## Queries -/

theorem strInt_natCast (n : ℕ) : strInt n = decimal n := by
  rw [strInt, if_neg (by omega)]
  rfl

/-- ASCII text without escapes is read as it is. -/
theorem unquote_of_notMem {text : Text} (hascii : ∀ c ∈ text, c.val ≤ 127) (hpercent : '%' ∉ text) :
    PercentEncoding.unquote text = text := by
  have hbytes : PercentEncoding.unquoteToBytes text = PercentEncoding.encode text := by
    induction text with
    | nil => rfl
    | cons c text ih =>
        obtain ⟨hc, hrest⟩ := List.forall_mem_cons.mp hascii
        rw [List.mem_cons, not_or] at hpercent
        have hlt : c.toNat < 128 := Nat.lt_succ_of_le (UInt32.le_iff_toNat_le.mp hc)
        rw [PercentEncoding.unquoteToBytes_cons_of_ne (Ne.symm hpercent.1), ih hrest hpercent.2,
          PercentEncoding.encode, PercentEncoding.encode, List.flatMap_cons,
          PercentEncoding.encodeChar_of_ascii hlt]
        rfl
  rw [PercentEncoding.unquote_of_ascii hascii, hbytes, PercentEncoding.decode_encode]

theorem unquote_decimal (n : ℕ) : PercentEncoding.unquote (decimal n) = decimal n := by
  have hdigit : ∀ c ∈ decimal n, c.isDigit = true := fun c hc => isDigit_of_mem_decimal hc
  apply unquote_of_notMem
  · intro c hc
    have hc := hdigit c hc
    rw [Char.isDigit] at hc
    simp only [Bool.and_eq_true, decide_eq_true_eq] at hc
    exact UInt32.le_trans hc.2 (by decide)
  · intro hin
    cases hdigit _ hin

/-- The field of the upload in the queries. -/
theorem uploadId_field {id : Text} (hid : '&' ∉ id) :
    '&' ∉ "uploadId=".toList ++ id ∧ ("uploadId=".toList ++ id).isEmpty = false ∧
      PercentEncoding.unquote (("uploadId=".toList ++ id).takeWhile (· ≠ '=')) =
        "uploadId".toList := by
  have hname : ("uploadId=".toList ++ id).takeWhile (· ≠ '=') = "uploadId".toList := rfl
  refine ⟨fun hin => ?_, rfl, ?_⟩
  · rcases List.mem_append.mp hin with hin | hin
    · revert hin
      decide
    · exact hid hin
  · rw [hname]
    exact unquote_of_notMem (PercentEncoding.forall_ascii rfl) (by decide)

/-- Without a marker all parts are asked for. -/
theorem askedMarker_none {id : Text} (hid : '&' ∉ id) :
    askedMarker ("uploadId=".toList ++ id) = 0 := by
  obtain ⟨hamp, hempty, hname⟩ := uploadId_field hid
  have hquery : queryParam "part-number-marker".toList ("uploadId=".toList ++ id) = [] := by
    rw [queryParam, parseQuery, List.splitOn_eq_singleton hamp, List.filter_cons_of_pos (by simp),
      List.filter_nil, List.map_cons, hname]
    rfl
  rw [askedMarker, hquery]
  rfl

/-- The number that is asked for is the one of the marker. -/
theorem askedMarker_decimal {id : Text} (hid : '&' ∉ id) (n : ℕ) :
    askedMarker ("uploadId=".toList ++ id ++
      '&' :: ("part-number-marker".toList ++ '=' :: decimal n)) = n := by
  obtain ⟨hamp, hempty, hname⟩ := uploadId_field hid
  have hmarker : '&' ∉ "part-number-marker".toList ++ '=' :: decimal n := by
    intro hin
    rcases List.mem_append.mp hin with hin | hin
    · revert hin
      decide
    · rcases List.mem_cons.mp hin with heq | hin
      · cases heq
      · cases isDigit_of_mem_decimal hin
  have htake : ("part-number-marker".toList ++ '=' :: decimal n).takeWhile (· ≠ '=') =
      "part-number-marker".toList := rfl
  have hdrop : (("part-number-marker".toList ++ '=' :: decimal n).dropWhile (· ≠ '=')).drop 1 =
      decimal n := rfl
  have hunquote : PercentEncoding.unquote "part-number-marker".toList =
      "part-number-marker".toList :=
    unquote_of_notMem (PercentEncoding.forall_ascii rfl) (by decide)
  have hquery : queryParam "part-number-marker".toList ("uploadId=".toList ++ id ++
      '&' :: ("part-number-marker".toList ++ '=' :: decimal n)) = decimal n := by
    rw [queryParam, parseQuery, List.splitOn_append_cons_self, List.splitOn_eq_singleton hamp,
      List.splitOn_eq_singleton hmarker, List.singleton_append, List.filter_cons_of_pos (by simp),
      List.filter_cons_of_pos (by simp), List.filter_nil, List.map_cons, List.map_singleton, hname,
      htake, hdrop, hunquote, unquote_decimal]
    rfl
  rw [askedMarker, hquery, parseInt_decimal]
  exact Int.toNat_natCast n

/-! ## Answers -/

namespace MultiPartUpload

/-- The names for which an upload gives an object. -/
def objectNames : List Text :=
  ["Initiator".toList, "Owner".toList, "Part".toList, "root".toList]

theorem startElement_of_notMem {name : Text} (hname : name ∉ objectNames)
    (self : MultiPartUpload) : methods.startElement .upload name self = (none, self) := by
  simp only [objectNames, List.mem_cons, List.not_mem_nil, or_false, not_or] at hname
  obtain ⟨hinitiator, howner, hpart, -⟩ := hname
  simp only [methods, if_neg (not_or.mpr ⟨hinitiator, howner⟩), if_neg hpart]

/-- What leaves do to the upload. -/
theorem reads_fields (fields : List (Text × Text)) {self self' : MultiPartUpload}
    (hnames : ∀ field ∈ fields, field.1 ∉ objectNames)
    (hfields : fields.foldlM (fun (self : MultiPartUpload) field =>
      self.endElement field.1 field.2) self = .ok self') :
    Reads methods "root".toList .upload (fields.map fun field => .leaf field.1 field.2) self
      self' := by
  induction fields generalizing self with
  | nil =>
      cases hfields
      exact Reads.nil _ _ _ _
  | cons field fields ih =>
      obtain ⟨hname, hrest⟩ := List.forall_mem_cons.mp hnames
      rw [List.foldlM_cons] at hfields
      cases hend : self.endElement field.1 field.2 with
      | error e => simp [hend, bind, Except.bind] at hfields
      | ok between =>
          rw [hend] at hfields
          have hne : "root".toList ≠ field.1 := fun heq => hname (by simp [objectNames, ← heq])
          exact (Reads.leaf hne (startElement_of_notMem hname self) hend).append
            (ih hrest hfields)

/-- A user is read without a change. -/
theorem reads_user {name : Text} (hname : name = "Initiator".toList ∨ name = "Owner".toList)
    (self : MultiPartUpload) :
    Reads methods "root".toList .upload [userElement name] self self := by
  have hstart : methods.startElement .upload name self = (some .user, self) := by
    simp only [methods, if_pos hname]
  have hfield : ∀ field text, name ≠ field →
      Reads methods name .user [.leaf field text] self self := fun field text hne =>
    Reads.leaf hne rfl rfl
  have hne : name ≠ "ID".toList ∧ name ≠ "DisplayName".toList := by
    rcases hname with rfl | rfl <;> decide
  exact Reads.element hstart ((hfield _ _ hne.1).append (hfield _ _ hne.2)) fun _ => rfl

/-- A field of a part is read into the part that was added last. -/
theorem reads_partField {name value : Text} {self : MultiPartUpload} {parts : List Part}
    {part part' : Part} (hname : "Part".toList ≠ name) (hparts : self.parts = parts ++ [part])
    (hend : part.endElement name value = .ok part') :
    Reads methods "Part".toList .part [.leaf name value] self
      { self with parts := parts ++ [part'] } := by
  have hmodify : self.modifyLast (·.endElement name value) =
      .ok { self with parts := parts ++ [part'] } := by
    rw [modifyLast, hparts]
    simp [hend, Except.map]
  exact Reads.leaf hname rfl hmodify

/-- A part is read as it is listed. -/
theorem reads_part (part : UploadedPart) (self : MultiPartUpload) :
    Reads methods "root".toList .upload [part.element] self
      { self with parts := self.parts ++ [part.listed] } := by
  have hstart : methods.startElement .upload "Part".toList self =
      (some .part, { self with parts := self.parts ++ [.init] }) := rfl
  have hchildren : Reads methods "Part".toList .part
      (part.fields.map fun field => .leaf field.1 field.2)
      { self with parts := self.parts ++ [.init] }
      { self with parts := self.parts ++ [part.listed] } := by
    have hnumber : Part.init.endElement "PartNumber".toList (decimal part.number) =
        .ok { Part.init with partNumber := some part.number } := by
      simp [Part.endElement, parseInt_decimal, Except.map]
    have hsize : Part.endElement "Size".toList (decimal part.size)
        ⟨some part.number, some part.lastModified, some part.etag, none⟩ = .ok part.listed := by
      simp [Part.endElement, parseInt_decimal, Except.map, UploadedPart.listed]
    have hne : "Part".toList ≠ "PartNumber".toList ∧ "Part".toList ≠ "LastModified".toList ∧
        "Part".toList ≠ "ETag".toList ∧ "Part".toList ≠ "Size".toList := by decide
    exact (reads_partField hne.1 rfl hnumber).cons ((reads_partField hne.2.1 rfl rfl).cons
      ((reads_partField hne.2.2.1 rfl rfl).cons (reads_partField hne.2.2.2 rfl hsize)))
  refine Reads.element hstart hchildren fun text => ?_
  change MultiPartUpload.modifyLast _ _ = _
  unfold modifyLast
  simp [Part.endElement, Except.map]

/-- A page is read part by part. -/
theorem reads_page (page : List UploadedPart) (self : MultiPartUpload) :
    Reads methods "root".toList .upload (page.map UploadedPart.element) self
      { self with parts := self.parts ++ page.map UploadedPart.listed } := by
  have hone : ∀ done x, Reads methods "root".toList .upload [UploadedPart.element x]
      { self with parts := self.parts ++ done.map UploadedPart.listed }
      { self with parts := self.parts ++ (done ++ [x]).map UploadedPart.listed } := by
    intro done x
    have hpart := reads_part x { self with parts := self.parts ++ done.map UploadedPart.listed }
    rw [List.map_append, ← List.append_assoc]
    exact hpart
  have hall := @Reads.items _ _ methods "root".toList .upload _ UploadedPart.element
    (fun done => { self with parts := self.parts ++ done.map UploadedPart.listed }) hone [] page
  rw [List.nil_append] at hall
  simpa using hall

/-- What an answer says about the upload. -/
theorem foldlM_fields (self : MultiPartUpload) (uploaded : Uploaded) :
    [("Bucket".toList, uploaded.bucketName), ("Key".toList, uploaded.keyName),
      ("UploadId".toList, uploaded.id)].foldlM (fun (self : MultiPartUpload) field =>
        self.endElement field.1 field.2) self =
      .ok { self with
        bucketName := some uploaded.bucketName
        keyName := some uploaded.keyName
        id := some uploaded.id } := rfl

/-- What an answer says about the paging. -/
theorem foldlM_paging (self : MultiPartUpload) (marker : Text) (nextMarker : Option Text) (size : ℕ)
    (truncated : Bool) :
    ([("StorageClass".toList, "STANDARD".toList), ("PartNumberMarker".toList, marker)] ++
      optionalField "NextPartNumberMarker".toList nextMarker ++
        [("MaxParts".toList, decimal size), ("IsTruncated".toList, boolText truncated)]).foldlM
          (fun (self : MultiPartUpload) field => self.endElement field.1 field.2) self =
      .ok { self with
        storageClass := some "STANDARD".toList
        partNumberMarker := some marker
        nextPartNumberMarker := nextMarker.or self.nextPartNumberMarker
        maxParts := some size
        isTruncated := truncated } := by
  have hsize : ∀ self : MultiPartUpload, self.endElement "MaxParts".toList (decimal size) =
      .ok { self with maxParts := some size } := by
    intro self
    have hread : self.endElement "MaxParts".toList (decimal size) =
        (parseInt (decimal size)).map fun maxParts => { self with maxParts := some maxParts } := rfl
    rw [hread, parseInt_decimal]
    rfl
  have htruncated : decide (boolText truncated = "true".toList) = truncated := by
    cases truncated <;> rfl
  have hend : ∀ self : MultiPartUpload,
      self.endElement "IsTruncated".toList (boolText truncated) =
        .ok { self with isTruncated := truncated } := by
    intro self
    have hread : self.endElement "IsTruncated".toList (boolText truncated) =
        .ok { self with isTruncated := decide (boolText truncated = "true".toList) } := rfl
    rw [hread, htruncated]
  have hclass : ∀ self : MultiPartUpload,
      self.endElement "StorageClass".toList "STANDARD".toList =
        .ok { self with storageClass := some "STANDARD".toList } := fun _ => rfl
  have hmarker : ∀ self : MultiPartUpload, self.endElement "PartNumberMarker".toList marker =
      .ok { self with partNumberMarker := some marker } := fun _ => rfl
  have hnext : ∀ (self : MultiPartUpload) (text : Text),
      self.endElement "NextPartNumberMarker".toList text =
        .ok { self with nextPartNumberMarker := some text } := fun _ _ => rfl
  cases nextMarker with
  | none =>
      simp only [optionalField, Option.map_none, Option.toList_none, List.append_nil,
        List.cons_append, List.nil_append, List.foldlM_cons, List.foldlM_nil, hclass, hmarker,
        hsize, hend]
      rfl
  | some text =>
      simp only [optionalField, Option.map_some, Option.toList_some, List.cons_append,
        List.nil_append, List.foldlM_cons, List.foldlM_nil, hclass, hmarker, hnext, hsize, hend]
      rfl

/-- The upload after an answer. -/
def answered (self : MultiPartUpload) (uploaded : Uploaded) (size marker : ℕ) : MultiPartUpload :=
  let rest := uploaded.listing.after marker
  let page := rest.take size
  let truncated := decide (size < rest.length)
  let nextMarker := page.getLast?.bind fun last =>
    if truncated then some (decimal last.number) else none
  { self with
    bucketName := some uploaded.bucketName
    keyName := some uploaded.keyName
    id := some uploaded.id
    storageClass := some "STANDARD".toList
    partNumberMarker := some (decimal marker)
    nextPartNumberMarker := nextMarker.or self.nextPartNumberMarker
    maxParts := some size
    isTruncated := truncated
    parts := page.map UploadedPart.listed }

/-- A marker that asks for the parts after a number. -/
def IsMarkerFor (marker : Option Text) (n : ℕ) : Prop :=
  marker = none ∧ n = 0 ∨ marker = some (decimal n)

/-- What a request for parts does to the upload. -/
theorem getAllParts_answerParts {uploaded : Uploaded} (sizes : ℕ → ℕ) {self : MultiPartUpload}
    (hid : self.id = some uploaded.id) {marker : Option Text} {n : ℕ} (hmarker : IsMarkerFor marker n)
    (i : ℕ) : self.getAllParts (answerParts uploaded sizes) i none marker none =
      .ok (self.answered uploaded (sizes i + 1) n) := by
  have hasked : askedMarker ("uploadId=".toList ++ format self.id ++
      queryArg "max-parts".toList (((none : Option ℤ).filter fun m => m ≠ 0).map strInt) ++
        queryArg "part-number-marker".toList marker ++
          queryArg "encoding-type".toList none) = n := by
    have hnone : ∀ name, queryArg name none = [] := fun _ => rfl
    rw [Option.filter_none, Option.map_none, hnone, hnone, List.append_nil, List.append_nil, hid]
    rcases hmarker with ⟨rfl, rfl⟩ | rfl
    · rw [hnone, List.append_nil]
      exact askedMarker_none uploaded.idPlain
    · have harg : queryArg "part-number-marker".toList (some (decimal n)) =
          '&' :: ("part-number-marker".toList ++ '=' :: decimal n) := by
        cases hn : decimal n with
        | nil => exact absurd hn (decimal_ne_nil n)
        | cons c digits => rfl
      rw [harg]
      exact askedMarker_decimal uploaded.idPlain n
  have hstart : ∀ self, methods.startElement .upload "ListPartsResult".toList self =
      (none, self) := fun self => startElement_of_notMem (by decide) self
  have hend : ∀ text self, methods.endElement .upload "ListPartsResult".toList text self =
      .ok self := fun _ _ => rfl
  rw [getAllParts, answerParts, hasked]
  refine (Reads.skipped (by decide) (hstart _) ?_ fun text => hend text _).parse
  refine (reads_fields _ ?_ (foldlM_fields _ _)).append ((Reads.cons (reads_user (.inl rfl) _)
    (reads_user (.inr rfl) _)).append ((reads_fields _ ?_ (foldlM_paging _ _ _ _ _)).append
      (reads_page _ _)))
  · simp only [List.forall_mem_cons, List.not_mem_nil, false_implies, implies_true, and_true]
    decide
  · intro field hfield
    have hname : field.1 ∈ ["StorageClass".toList, "PartNumberMarker".toList,
        "NextPartNumberMarker".toList, "MaxParts".toList, "IsTruncated".toList] := by
      simp only [optionalField, List.mem_append, List.mem_cons, List.not_mem_nil, or_false,
        Option.mem_toList, Option.map_eq_some_iff] at hfield
      rcases hfield with ((rfl | rfl) | ⟨value, -, rfl⟩) | rfl | rfl
      · exact .head _
      · exact .tail _ (.head _)
      · exact .tail _ (.tail _ (.head _))
      · exact .tail _ (.tail _ (.tail _ (.head _)))
      · exact .tail _ (.tail _ (.tail _ (.tail _ (.head _))))
    simp only [List.mem_cons, List.not_mem_nil, or_false] at hname
    rcases hname with hname | hname | hname | hname | hname <;> rw [hname] <;> decide

end MultiPartUpload

/-! ## Generators -/

section

variable {uploaded : Uploaded} {sizes : ℕ → ℕ} {session session' : Session}
  {before : List UploadedPart} {yields : List Part} {lister lister' : PartLister}
  {part : Option Part}

/-- All parts come after 0. -/
theorem after_zero (uploaded : Uploaded) : uploaded.listing.after 0 = uploaded.parts :=
  List.filter_eq_self.mpr fun part hpart => decide_eq_true (uploaded.positive part hpart)

/-- After the last part of a page come the parts behind it. -/
theorem after_getLast {last : UploadedPart} {rest : List UploadedPart}
    (hparts : uploaded.parts = before ++ last :: rest) :
    uploaded.listing.after last.number = rest :=
  uploaded.listing.resumes 0 before last rest ((after_zero uploaded).trans hparts)

/-- What is asked for is empty, or a page of it is told by the upload. -/
theorem isUpToDate_answered {first : UploadedPart} {rest : List UploadedPart} {n : ℕ} (size : ℕ)
    (self : MultiPartUpload) (hafter : uploaded.listing.after n = first :: rest)
    (hparts : uploaded.parts = before ++ first :: rest) :
    IsUpToDate uploaded ((before ++ first :: rest.take size).map UploadedPart.listed)
      (self.answered uploaded (size + 1) n) := by
  have htruncated : (self.answered uploaded (size + 1) n).isTruncated =
      decide (size + 1 < (first :: rest).length) := by
    rw [MultiPartUpload.answered, hafter]
  have hmore : (self.answered uploaded (size + 1) n).isTruncated = true ↔ size < rest.length := by
    rw [htruncated, decide_eq_true_eq, List.length_cons]
    omega
  constructor
  · rw [hmore, Uploaded.listed, hparts]
    constructor
    · intro hlt heq
      have hlength := congrArg List.length heq
      simp only [List.length_map, List.length_append, List.length_cons, List.length_take] at hlength
      omega
    · intro hne
      by_contra hle
      rw [List.take_of_length_le (Nat.le_of_not_lt hle)] at hne
      exact hne rfl
  · intro htrue
    obtain ⟨last, hlast⟩ : ∃ last, (first :: rest.take size).getLast? = some last :=
      ⟨_, List.getLast?_eq_some_getLast (List.cons_ne_nil _ _)⟩
    refine ⟨last.listed, last.number, ?_, rfl, ?_⟩
    · rw [List.getLast?_map, List.getLast?_append, hlast]
      rfl
    · have hpage : ((first :: rest).take (size + 1)).getLast? = some last := hlast
      rw [htruncated] at htrue
      rw [MultiPartUpload.answered, hafter, hpage, strInt_natCast]
      dsimp only
      rw [htrue]
      rfl

variable (sizes) in
/-- A request for the parts after a number. -/
theorem nextPage_succ (hid : session.upload.id = some uploaded.id) {marker : Option Text} {n : ℕ}
    (hmarker : MultiPartUpload.IsMarkerFor marker n)
    (hparts : uploaded.parts = before ++ uploaded.listing.after n) (fuel : ℕ) :
    ∃ session' : Session, session'.upload.id = some uploaded.id ∧
      ((uploaded.listing.after n = [] ∧
          nextPage (answerParts uploaded sizes) (fuel + 1) marker session =
            .ok (some (none, .done, session'))) ∨
        ∃ first page after, uploaded.listing.after n = first :: (page ++ after) ∧
          nextPage (answerParts uploaded sizes) (fuel + 1) marker session =
            .ok (some (some first.listed, .inPage (page.map UploadedPart.listed), session')) ∧
          IsUpToDate uploaded ((before ++ first :: page).map UploadedPart.listed)
            session'.upload) := by
  have hget := MultiPartUpload.getAllParts_answerParts sizes hid hmarker session.calls
  refine ⟨⟨session.upload.answered uploaded (sizes session.calls + 1) n, session.calls + 1⟩, rfl, ?_⟩
  rw [nextPage, hget]
  cases hafter : uploaded.listing.after n with
  | nil =>
      refine .inl ⟨rfl, ?_⟩
      have hnone : (session.upload.answered uploaded (sizes session.calls + 1) n).parts = [] ∧
          (session.upload.answered uploaded (sizes session.calls + 1) n).isTruncated = false := by
        rw [MultiPartUpload.answered, hafter]
        exact ⟨rfl, rfl⟩
      simp only [bind, Except.bind, hnone.1, hnone.2]
      rfl
  | cons first rest =>
      rw [hafter] at hparts
      refine .inr ⟨first, rest.take (sizes session.calls), rest.drop (sizes session.calls), ?_, ?_,
        isUpToDate_answered _ _ hafter hparts⟩
      · rw [List.take_append_drop]
      · have hsome : (session.upload.answered uploaded (sizes session.calls + 1) n).parts =
            first.listed :: (rest.take (sizes session.calls)).map UploadedPart.listed := by
          rw [MultiPartUpload.answered, hafter]
          rfl
        simp only [bind, Except.bind, hsome]
        rfl

/-- Where a generator is that has yielded some parts. -/
def IsAt (uploaded : Uploaded) (yields : List Part) : PartLister → Prop
  | .fresh marker => marker = none ∧ yields = []
  | .inPage rest => ∃ before page after, uploaded.parts = before ++ (page ++ after) ∧
      before ≠ [] ∧ yields = before.map UploadedPart.listed ∧ rest = page.map UploadedPart.listed
  | .done => yields = uploaded.listed

/-- The upload says what the page of a generator said. -/
def IsOwn (uploaded : Uploaded) (yields : List Part) (upload : MultiPartUpload)
    (lister : PartLister) : Prop :=
  ∀ rest, lister = .inPage rest → IsUpToDate uploaded (yields ++ rest) upload

/-- What a step of a generator preserves. -/
structure Continues (uploaded : Uploaded) (yields : List Part) (lister : PartLister)
    (session : Session) : Prop where
  id : session.upload.id = some uploaded.id
  isAt : IsAt uploaded yields lister

variable (sizes) in
/-- A generator asks for the parts after those that it has yielded. -/
theorem nextPage_spec (hid : session.upload.id = some uploaded.id) {marker : Option Text} {n : ℕ}
    (hmarker : MultiPartUpload.IsMarkerFor marker n)
    (hparts : uploaded.parts = before ++ uploaded.listing.after n) (fuel : ℕ) :
    ∃ part lister' session', nextPage (answerParts uploaded sizes) (fuel + 1) marker session =
        .ok (some (part, lister', session')) ∧
      Continues uploaded (before.map UploadedPart.listed ++ part.toList) lister' session' ∧
      IsOwn uploaded (before.map UploadedPart.listed ++ part.toList) session'.upload lister' ∧
      (part = none → lister' = .done) := by
  obtain ⟨session', hid', ⟨hnil, hnext⟩ | ⟨first, page, after, hafter, hnext, hup⟩⟩ :=
    nextPage_succ sizes hid hmarker hparts fuel
  · refine ⟨none, .done, session', hnext, ⟨hid', ?_⟩, fun rest heq => ?_, fun _ => rfl⟩
    · rw [hnil, List.append_nil] at hparts
      rw [IsAt, Uploaded.listed, hparts]
      exact List.append_nil _
    · cases heq
  · refine ⟨some first.listed, _, session', hnext, ⟨hid', ?_⟩, fun rest heq => ?_, fun hnone => ?_⟩
    · refine ⟨before ++ [first], page, after, ?_, by simp, by simp, rfl⟩
      rw [hparts, hafter]
      simp
    · cases heq
      simpa using hup
    · cases hnone

/-- The marker after some parts. -/
theorem isMarkerFor_of_isUpToDate (hne : before ≠ []) {rest : List UploadedPart}
    {upload : MultiPartUpload} (hparts : uploaded.parts = before ++ rest)
    (hup : IsUpToDate uploaded (before.map UploadedPart.listed) upload)
    (htruncated : upload.isTruncated = true) :
    ∃ n, MultiPartUpload.IsMarkerFor upload.nextPartNumberMarker n ∧
      uploaded.listing.after n = rest := by
  obtain ⟨part, number, hpart, hnumber, hmarker⟩ := hup.2 htruncated
  obtain ⟨front, last, rfl⟩ : ∃ front last, before = front ++ [last] :=
    ⟨_, _, (List.dropLast_append_getLast hne).symm⟩
  rw [List.map_append, List.map_singleton, List.getLast?_concat, Option.some.injEq] at hpart
  rw [← hpart] at hnumber
  obtain rfl : (last.number : ℤ) = number := Option.some.inj hnumber
  rw [strInt_natCast] at hmarker
  rw [List.append_assoc, List.singleton_append] at hparts
  exact ⟨last.number, .inr hmarker, after_getLast hparts⟩

variable (sizes) in
/-- A step of a generator whose page is what the upload says at its end. -/
theorem next_spec (hcontinues : Continues uploaded yields lister session)
    (hup : lister = .inPage [] → IsUpToDate uploaded yields session.upload) (fuel : ℕ) :
    ∃ part lister' session', next (answerParts uploaded sizes) (fuel + 1) lister session =
        .ok (some (part, lister', session')) ∧
      Continues uploaded (yields ++ part.toList) lister' session' ∧
      (IsOwn uploaded yields session.upload lister →
        IsOwn uploaded (yields ++ part.toList) session'.upload lister') ∧
      (part = none → lister' = .done) := by
  obtain ⟨hid, hat⟩ := hcontinues
  cases lister with
  | fresh marker =>
      obtain ⟨rfl, rfl⟩ := hat
      have hparts : uploaded.parts = [] ++ uploaded.listing.after 0 := (after_zero uploaded).symm
      obtain ⟨part, lister', session', hnext, hcontinues, hown, hdone⟩ :=
        nextPage_spec sizes hid (.inl ⟨rfl, rfl⟩) hparts fuel
      exact ⟨part, lister', session', hnext, hcontinues, fun _ => hown, hdone⟩
  | done =>
      refine ⟨none, .done, session, rfl, ⟨hid, ?_⟩, fun _ rest heq => ?_, fun _ => rfl⟩
      · rw [Option.toList_none, List.append_nil]
        exact hat
      · cases heq
  | inPage rest =>
      obtain ⟨before, page, after, hparts, hne, rfl, rfl⟩ := hat
      cases page with
      | cons first page =>
          refine ⟨some first.listed, _, session, rfl, ⟨hid, ?_⟩, fun hown rest heq => ?_,
            fun hnone => ?_⟩
          · refine ⟨before ++ [first], page, after, ?_, by simp, by simp, rfl⟩
            rw [hparts]
            simp
          · cases heq
            have hup := hown _ rfl
            rw [List.map_cons] at hup
            simpa using hup
          · cases hnone
      | nil =>
          have hup := hup rfl
          rw [List.nil_append] at hparts
          rw [List.map_nil, next]
          by_cases htruncated : session.upload.isTruncated = true
          · rw [if_pos htruncated]
            obtain ⟨n, hmarker, hafter⟩ := isMarkerFor_of_isUpToDate hne hparts hup htruncated
            rw [← hafter] at hparts
            obtain ⟨part, lister', session', hnext, hcontinues, hown, hdone⟩ :=
              nextPage_spec sizes hid hmarker hparts fuel
            exact ⟨part, lister', session', hnext, hcontinues, fun _ => hown, hdone⟩
          · rw [if_neg htruncated]
            refine ⟨none, .done, session, rfl, ⟨hid, ?_⟩, fun _ rest heq => ?_, fun _ => rfl⟩
            · rw [Option.toList_none, List.append_nil]
              by_contra hne
              exact htruncated (hup.1.mpr hne)
            · cases heq

/-- Without requests, a step is what it is with one. -/
theorem next_zero {advance : Advance} (server : Server)
    (hnext : next server 0 lister session = .ok (some advance)) :
    next server 1 lister session = .ok (some advance) := by
  cases lister with
  | fresh marker => cases hnext
  | done => exact hnext
  | inPage rest =>
      cases rest with
      | cons part rest => exact hnext
      | nil =>
          rw [next] at hnext ⊢
          split at hnext
          · cases hnext
          · rename_i htruncated
            rw [if_neg htruncated]
            exact hnext

/-- What a step preserves. -/
theorem next_preserves {fuel : ℕ} (hcontinues : Continues uploaded yields lister session)
    (hup : lister = .inPage [] → IsUpToDate uploaded yields session.upload)
    (hnext : next (answerParts uploaded sizes) fuel lister session =
      .ok (some (part, lister', session'))) :
    Continues uploaded (yields ++ part.toList) lister' session' ∧
      (IsOwn uploaded yields session.upload lister →
        IsOwn uploaded (yields ++ part.toList) session'.upload lister') := by
  obtain ⟨enough, hsame⟩ : ∃ enough, next (answerParts uploaded sizes) (enough + 1) lister session =
      .ok (some (part, lister', session')) := by
    cases fuel with
    | zero => exact ⟨0, next_zero _ hnext⟩
    | succ fuel => exact ⟨fuel, hnext⟩
  obtain ⟨part', lister'', session'', hspec, hcontinues', hown', -⟩ :=
    next_spec sizes hcontinues hup enough
  rw [hspec] at hsame
  cases hsame
  exact ⟨hcontinues', hown'⟩

/-- The upload keeps its identifier while its parts are collected. -/
theorem collect_preserves {fuel steps : ℕ} {parts : List Part}
    (hcontinues : Continues uploaded yields lister session)
    (hown : IsOwn uploaded yields session.upload lister)
    (hcollect : collect (answerParts uploaded sizes) fuel steps lister session =
      .ok (some (parts, session'))) : session'.upload.id = some uploaded.id := by
  induction steps generalizing yields lister session parts with
  | zero => cases hcollect
  | succ steps ih =>
      have hup : lister = .inPage [] → IsUpToDate uploaded yields session.upload := by
        intro heq
        have hpage := hown [] heq
        rwa [List.append_nil] at hpage
      rw [collect] at hcollect
      cases hnext : next (answerParts uploaded sizes) fuel lister session with
      | error e => simp [hnext, bind, Except.bind] at hcollect
      | ok advance =>
          rw [hnext] at hcollect
          cases advance with
          | none => cases hcollect
          | some advance =>
              obtain ⟨part, lister', between⟩ := advance
              obtain ⟨hcontinues', hown'⟩ := next_preserves hcontinues hup hnext
              cases part with
              | none =>
                  cases hcollect
                  exact hcontinues'.id
              | some part =>
                  simp only [bind, Except.bind] at hcollect
                  cases hrest : collect (answerParts uploaded sizes) fuel steps lister' between with
                  | error e => simp [hrest] at hcollect
                  | ok found =>
                      rw [hrest] at hcollect
                      cases found with
                      | none => cases hcollect
                      | some found =>
                          cases hcollect
                          exact ih hcontinues' (hown' hown) hrest

/-- A generator has yielded the first parts. -/
theorem length_le_of_isAt (hat : IsAt uploaded yields lister) :
    yields.length ≤ uploaded.listed.length := by
  cases lister with
  | fresh marker =>
      rw [hat.2]
      exact Nat.zero_le _
  | inPage rest =>
      obtain ⟨before, page, after, hparts, -, rfl, -⟩ := hat
      rw [Uploaded.listed, hparts, List.length_map, List.length_map, List.length_append]
      exact Nat.le_add_right _ _
  | done =>
      rw [show yields = uploaded.listed from hat]

variable (sizes) in
/-- A generator that no other one disturbs yields the other parts. -/
theorem collect_spec {steps : ℕ} (hcontinues : Continues uploaded yields lister session)
    (hown : IsOwn uploaded yields session.upload lister)
    (hsteps : uploaded.listed.length < steps + yields.length) (fuel : ℕ) :
    ∃ parts session', collect (answerParts uploaded sizes) (fuel + 1) steps lister session =
        .ok (some (parts, session')) ∧ yields ++ parts = uploaded.listed ∧
      session'.upload.id = some uploaded.id := by
  induction steps generalizing yields lister session with
  | zero =>
      have hle := length_le_of_isAt hcontinues.isAt
      omega
  | succ steps ih =>
      have hup : lister = .inPage [] → IsUpToDate uploaded yields session.upload := by
        intro heq
        have hpage := hown [] heq
        rwa [List.append_nil] at hpage
      obtain ⟨part, lister', session', hnext, hcontinues', hown', hdone⟩ :=
        next_spec sizes hcontinues hup fuel
      rw [collect, hnext]
      cases part with
      | none =>
          obtain rfl := hdone rfl
          refine ⟨[], session', rfl, hcontinues'.isAt, hcontinues'.id⟩
      | some part =>
          have hlength : uploaded.listed.length < steps + (yields ++ [part]).length := by
            rw [List.length_append, List.length_singleton]
            omega
          obtain ⟨parts, last, hcollect, hparts, hid⟩ := ih hcontinues' (hown' hown) hlength
          refine ⟨part :: parts, last, ?_, ?_, hid⟩
          · simp only [bind, Except.bind, hcollect]
            rfl
          · rw [← hparts, List.append_assoc]
            rfl

end

/-! ## Documents -/

/-- The element of a part in the document. -/
def partPiece (part : UploadedPart) : Text :=
  "  <Part>\n".toList ++ "    <PartNumber>".toList ++ decimal part.number ++
    "</PartNumber>\n".toList ++ "    <ETag>".toList ++ part.etag ++ "</ETag>\n".toList ++
      "  </Part>\n".toList

/-- The document that completes an upload. -/
def completeText (parts : List UploadedPart) : Text :=
  "<CompleteMultipartUpload>\n".toList ++ (parts.map partPiece).flatten ++
    "</CompleteMultipartUpload>".toList

theorem mapM_partToXml (parts : List UploadedPart) :
    (parts.map UploadedPart.listed).mapM Part.toXml = .ok (parts.map partPiece) := by
  induction parts with
  | nil => rfl
  | cons part parts ih =>
      have hpart : Part.toXml part.listed = .ok (partPiece part) := by
        rw [Part.toXml, UploadedPart.listed]
        dsimp only
        rw [strInt_natCast]
        rfl
      rw [List.map_cons, List.mapM_cons, hpart, ih]
      rfl

theorem toXml_spec {uploaded : Uploaded} (sizes : ℕ → ℕ) {session : Session}
    (hid : session.upload.id = some uploaded.id) {fuel : ℕ}
    (hfuel : uploaded.listed.length < fuel) :
    ∃ session', toXml (answerParts uploaded sizes) fuel session =
        .ok (some (completeText uploaded.parts, session')) ∧
      session'.upload.id = some uploaded.id := by
  obtain ⟨fuel, rfl⟩ := Nat.exists_eq_add_of_le' (Nat.zero_lt_of_lt hfuel)
  have hcontinues : Continues uploaded [] (.fresh none) session := ⟨hid, rfl, rfl⟩
  have hown : IsOwn uploaded [] session.upload (.fresh none) := by
    intro rest heq
    cases heq
  obtain ⟨parts, session', hcollect, hparts, hid'⟩ :=
    collect_spec sizes hcontinues hown hfuel fuel
  obtain rfl : parts = uploaded.listed := hparts
  refine ⟨session', ?_, hid'⟩
  rw [toXml, hcollect]
  simp only [bind, Except.bind, Uploaded.listed, mapM_partToXml]
  rfl

theorem isCleanSpace_of_all {space : Text} (hall : space.all Xml.isCleanSpace = true) :
    Xml.IsCleanSpace space := List.all_eq_true.mp hall

/-- The element of a part with the white space around it. -/
theorem writes_partPiece (part : UploadedPart) :
    Xml.Writes (· = "Part".toList) (completeNodes [part]) (partPiece part) := by
  have hnumber : Xml.Writes (· = "Part".toList) [.leaf "PartNumber".toList (decimal part.number)]
      ("\n    ".toList ++ (Node.leaf "PartNumber".toList (decimal part.number)).render) :=
    .after_space (isCleanSpace_of_all rfl) (.leaf _ _)
  have hetag : Xml.Writes (· = "Part".toList) [.leaf "ETag".toList part.etag]
      ("\n    ".toList ++ (Node.leaf "ETag".toList part.etag).render) :=
    .after_space (isCleanSpace_of_all rfl) (.leaf _ _)
  have hclose : Xml.Writes (· = "Part".toList) [] "\n  ".toList :=
    .space (isCleanSpace_of_all rfl)
  have hend : Xml.Writes (· = "Part".toList) [] "\n".toList := .space (isCleanSpace_of_all rfl)
  have hstart : Xml.IsCleanSpace "  ".toList := isCleanSpace_of_all rfl
  have helement : Xml.Writes (· = "Part".toList) (completeNodes [part]) _ :=
    .element rfl ((hnumber.append hetag).append hclose)
  have hall := (helement.after_space hstart).append hend
  rw [List.append_nil] at hall
  convert hall using 1
  unfold partPiece
  simp [Node.leaf, Node.render, Node.renderOf]

theorem writes_body (parts : List UploadedPart) :
    Xml.Writes (· = "Part".toList) (completeNodes parts)
      ("\n".toList ++ (parts.map partPiece).flatten) := by
  have hpieces := Xml.Writes.flatMap writes_partPiece parts
  rw [List.flatMap_def] at hpieces
  exact hpieces.after_space (isCleanSpace_of_all rfl)

theorem isPlain_decimal (n : ℕ) : Xml.isPlain (decimal n) = true := by
  have hall : ∀ n < 128, (Char.ofNat n).isDigit = true →
      (Xml.isXmlChar (Char.ofNat n) && Char.ofNat n ≠ '<' && Char.ofNat n ≠ '&' &&
        Char.ofNat n ≠ '\r') = true ∧ Char.ofNat n ≠ ']' := by decide +kernel
  refine Xml.isPlain_of_forall fun c hc => ?_
  have hdigit := isDigit_of_mem_decimal hc
  have hlt : c.toNat < 128 := by
    rw [Char.isDigit] at hdigit
    simp only [Bool.and_eq_true, decide_eq_true_eq] at hdigit
    exact Nat.lt_of_le_of_lt (UInt32.le_iff_toNat_le.mp hdigit.2) (by decide)
  have hc := hall c.toNat hlt
  rw [Char.ofNat_toNat] at hc
  exact hc hdigit

/-- A document of plain tags names its parts. -/
theorem namesParts_completeText {parts : List UploadedPart}
    (hplain : ∀ part ∈ parts, Xml.isPlain part.etag = true) :
    NamesParts (completeText parts) parts := by
  obtain ⟨spaced, hspaced, hrender⟩ := writes_body parts
  have hword : Xml.isWord "CompleteMultipartUpload".toList = true := rfl
  have hleaves : Xml.Leaves (· = "Part".toList) (completeNodes parts)
      (parts.flatMap fun part => [decimal part.number, part.etag]) := by
    refine Xml.Leaves.flatMap (fun part => ?_) parts
    have hinner : Xml.Leaves (· = "Part".toList) [.leaf "PartNumber".toList (decimal part.number),
        .leaf "ETag".toList part.etag] [decimal part.number, part.etag] :=
      .leaf _ _ rfl (.leaf _ _ rfl .nil)
    have hpart := @Xml.Leaves.element (· = "Part".toList) _ _ _ _ "Part".toList rfl rfl hinner .nil
    rwa [List.append_nil] at hpart
  have htexts : ∀ text ∈ parts.flatMap (fun part => [decimal part.number, part.etag]),
      Xml.isPlain text = true := by
    intro text htext
    obtain ⟨part, hpart, htext⟩ := List.mem_flatMap.mp htext
    simp only [List.mem_cons, List.not_mem_nil, or_false] at htext
    rcases htext with rfl | rfl
    · exact isPlain_decimal _
    · exact hplain part hpart
  have hroot := Xml.IsRoot.isRoot_word (.inr rfl) hword
  have hspaces : Xml.Spaced (· = "Part".toList) Xml.IsSpace (completeNodes parts) spaced :=
    hspaced.mono fun space hclean c hc => (Bool.and_eq_true_iff.mp (hclean c hc)).1
  obtain ⟨spaced', hspaced', hparse⟩ := Xml.parse_spaced hroot hword hspaces hleaves htexts
  refine ⟨spaced', hspaced', ?_⟩
  rw [hrender] at hparse
  convert hparse using 2
  unfold completeText
  simp [Xml.document]

/-! ## Runs -/

section

variable {uploaded : Uploaded} {sizes : ℕ → ℕ} {run run' start : Run} {action : Action}

/-- Every generator is where it has yielded the parts before. -/
structure IsConsistent (uploaded : Uploaded) (run : Run) : Prop where
  id : run.session.upload.id = some uploaded.id
  listers : ∀ lister ∈ run.listers, IsAt uploaded lister.2 lister.1

/-- The identifier of the upload does not change when `to_xml` is called. -/
theorem toXml_preserves {session session' : Session} {fuel : ℕ} {text : Text}
    (hid : session.upload.id = some uploaded.id)
    (hxml : toXml (answerParts uploaded sizes) fuel session = .ok (some (text, session'))) :
    session'.upload.id = some uploaded.id := by
  have hcontinues : Continues uploaded [] (.fresh none) session := ⟨hid, rfl, rfl⟩
  have hown : IsOwn uploaded [] session.upload (.fresh none) := by
    intro rest heq
    cases heq
  rw [toXml] at hxml
  cases hcollect : collect (answerParts uploaded sizes) fuel fuel (.fresh none) session with
  | error e => simp [hcollect, bind, Except.bind] at hxml
  | ok found =>
      rw [hcollect] at hxml
      cases found with
      | none => cases hxml
      | some found =>
          have hlast := collect_preserves hcontinues hown hcollect
          simp only [bind, Except.bind] at hxml
          cases hpieces : found.1.mapM Part.toXml with
          | error e => simp [hpieces] at hxml
          | ok pieces =>
              rw [hpieces] at hxml
              cases hxml
              exact hlast

/-- An action keeps the generators where they have yielded the parts before. -/
theorem isConsistent_of_performs (hconsistent : IsConsistent uploaded run)
    (hundisturbed : IsUndisturbed uploaded run action)
    (hperforms : Performs (answerParts uploaded sizes) run action run') :
    IsConsistent uploaded run' := by
  obtain ⟨hid, hlisters⟩ := hconsistent
  cases hperforms with
  | iter =>
      refine ⟨hid, fun lister hlister => ?_⟩
      rcases List.mem_append.mp hlister with hlister | hlister
      · exact hlisters lister hlister
      · obtain rfl := List.mem_singleton.mp hlister
        exact ⟨rfl, rfl⟩
  | @next i fuel lister lister' yields part session hlister hnext =>
      have hat := hlisters _ (List.mem_of_getElem? hlister)
      have hup : lister = .inPage [] → IsUpToDate uploaded yields run.session.upload := by
        rintro rfl
        exact hundisturbed i yields rfl hlister
      obtain ⟨hcontinues, -⟩ := next_preserves ⟨hid, hat⟩ hup hnext
      refine ⟨hcontinues.id, fun other hother => ?_⟩
      rcases List.mem_or_eq_of_mem_set hother with hother | rfl
      · exact hlisters other hother
      · exact hcontinues.isAt
  | completeUpload hxml => exact ⟨toXml_preserves hid hxml, hlisters⟩

theorem isConsistent_of_reaches (hstart : IsConsistent uploaded start)
    (hreaches : Reaches (answerParts uploaded sizes) (IsUndisturbed uploaded) start run) :
    IsConsistent uploaded run := by
  induction hreaches with
  | start => exact hstart
  | step _ hcondition hperforms ih => exact isConsistent_of_performs ih hcondition hperforms

end

/-- Listings are complete if every generator finds at the end of a page what that page said, and
if the tags of the parts are plain. -/
theorem isComplete_of_reaches {uploaded : Uploaded} {sizes : ℕ → ℕ} {start run : Run}
    (hid : start.session.upload.id = some uploaded.id) (hnone : start.listers = [])
    (hplain : ∀ part ∈ uploaded.parts, Xml.isPlain part.etag = true)
    (hreaches : Reaches (answerParts uploaded sizes) (IsUndisturbed uploaded) start run) :
    IsComplete (answerParts uploaded sizes) uploaded run := by
  have hstart : IsConsistent uploaded start := ⟨hid, by simp [hnone]⟩
  obtain ⟨hid', hlisters⟩ := isConsistent_of_reaches hstart hreaches
  refine ⟨fun lister hlister hdone => ?_, ?_⟩
  · have hat := hlisters lister hlister
    rw [hdone] at hat
    exact hat
  · refine ⟨uploaded.listed.length + 1, completeText uploaded.parts,
      namesParts_completeText hplain, fun fuel hfuel => ?_⟩
    obtain ⟨session', hxml, -⟩ := toXml_spec sizes hid' hfuel
    exact ⟨session', hxml⟩

/-- An upload of two parts. -/
def twoParts : Uploaded where
  bucketName := ['b']
  keyName := ['k']
  id := ['u']
  parts := [⟨1, [], ['a'], 1⟩, ⟨2, [], ['c'], 1⟩]
  idPlain := by decide
  positive := by simp
  ordered := by simp

/-- `MultiPartUpload()` for it. -/
def twoPartsUpload : MultiPartUpload where
  bucketName := some ['b']
  keyName := some ['k']
  id := some ['u']
  storageClass := none
  initiated := none
  partNumberMarker := none
  nextPartNumberMarker := none
  maxParts := none
  isTruncated := false
  parts := []

/-- A page of one part. -/
theorem nextPage_twoParts {self : MultiPartUpload} (hid : self.id = some ['u']) (calls : ℕ)
    {marker : Option Text} {n : ℕ} (hmarker : MultiPartUpload.IsMarkerFor marker n)
    {part : UploadedPart} (hpart : (twoParts.listing.after n).take 1 = [part]) :
    nextPage (answerParts twoParts fun _ => 0) 1 marker ⟨self, calls⟩ =
      .ok (some (some part.listed, .inPage [], ⟨self.answered twoParts 1 n, calls + 1⟩)) := by
  have hget := @MultiPartUpload.getAllParts_answerParts twoParts (fun _ => 0) self hid marker n
    hmarker calls
  have hparts : (self.answered twoParts (0 + 1) n).parts = [part.listed] := by
    rw [MultiPartUpload.answered, hpart]
    rfl
  rw [nextPage, hget]
  simp only [bind, Except.bind, hparts]
  rfl

/-- The parts of the upload as they are listed. -/
def firstPart : Part := ⟨some 1, some [], some ['a'], some 1⟩

def secondPart : Part := ⟨some 2, some [], some ['c'], some 1⟩

/-- The upload after one, two and three requests, of which the last one is for the second part. -/
def twoPartsUpload₁ : MultiPartUpload := twoPartsUpload.answered twoParts 1 0

def twoPartsUpload₂ : MultiPartUpload := twoPartsUpload₁.answered twoParts 1 0

def twoPartsUpload₃ : MultiPartUpload := twoPartsUpload₂.answered twoParts 1 1

theorem next_fresh_twoParts {self : MultiPartUpload} (hid : self.id = some ['u']) (calls : ℕ) :
    next (answerParts twoParts fun _ => 0) 1 (.fresh none) ⟨self, calls⟩ =
      .ok (some (some firstPart, .inPage [], ⟨self.answered twoParts 1 0, calls + 1⟩)) :=
  nextPage_twoParts hid calls (.inl ⟨rfl, rfl⟩) rfl

theorem next_inPage_twoParts :
    next (answerParts twoParts fun _ => 0) 1 (.inPage []) ⟨twoPartsUpload₂, 2⟩ =
      .ok (some (some secondPart, .inPage [], ⟨twoPartsUpload₃, 3⟩)) := by
  have hnext : next (answerParts twoParts fun _ => 0) 1 (.inPage []) ⟨twoPartsUpload₂, 2⟩ =
      nextPage (answerParts twoParts fun _ => 0) 1 (some (decimal 1)) ⟨twoPartsUpload₂, 2⟩ := rfl
  rw [hnext]
  exact @nextPage_twoParts twoPartsUpload₂ rfl 2 _ 1 (.inr rfl) ⟨2, [], ['c'], 1⟩ rfl

/-- A generator in its first page. -/
theorem isComplete_first :
    IsComplete (answerParts twoParts fun _ => 0) twoParts
      ⟨⟨twoPartsUpload₁, 1⟩, [(.inPage [], [firstPart])]⟩ := by
  have hiter : Reaches (answerParts twoParts fun _ => 0) (IsUndisturbed twoParts)
      ⟨⟨twoPartsUpload, 0⟩, []⟩ ⟨⟨twoPartsUpload, 0⟩, [(.fresh none, [])]⟩ := by
    refine .step .start (fun i yields heq => ?_) (.iter _)
    cases heq
  have hnext : Reaches (answerParts twoParts fun _ => 0) (IsUndisturbed twoParts)
      ⟨⟨twoPartsUpload, 0⟩, []⟩ ⟨⟨twoPartsUpload₁, 1⟩, [(.inPage [], [firstPart])]⟩ := by
    refine hiter.step (fun i yields heq hlister => ?_)
      (@Performs.next _ ⟨⟨twoPartsUpload, 0⟩, [(.fresh none, [])]⟩ 0 1 _ _ [] _ _ rfl
        (next_fresh_twoParts rfl 0))
    cases heq
    cases hlister
  have htags : Xml.isPlain ['a'] = true ∧ Xml.isPlain ['c'] = true := by decide
  exact isComplete_of_reaches rfl rfl (by simp [twoParts, htags]) hnext

/-- Of two generators in turns, one ends after its first page if the other one has read the last
page meanwhile. -/
theorem not_isComplete_turns :
    ¬∀ (uploaded : Uploaded) (sizes : ℕ → ℕ) (start run : Run),
      start.session.upload.id = some uploaded.id → start.listers = [] →
      (∀ part ∈ uploaded.parts, Xml.isPlain part.etag = true) →
      Reaches (answerParts uploaded sizes) (fun _ _ => True) start run →
        IsComplete (answerParts uploaded sizes) uploaded run := by
  intro hall
  have htags : Xml.isPlain ['a'] = true ∧ Xml.isPlain ['c'] = true := by decide
  have htwo : Reaches (answerParts twoParts fun _ => 0) (fun _ _ => True)
      ⟨⟨twoPartsUpload, 0⟩, []⟩ ⟨⟨twoPartsUpload, 0⟩, [(.fresh none, []), (.fresh none, [])]⟩ :=
    .step (.step .start trivial (.iter _)) trivial (.iter ⟨_, [(.fresh none, [])]⟩)
  have hfirst : Reaches (answerParts twoParts fun _ => 0) (fun _ _ => True)
      ⟨⟨twoPartsUpload, 0⟩, []⟩
      ⟨⟨twoPartsUpload₁, 1⟩, [(.inPage [], [firstPart]), (.fresh none, [])]⟩ :=
    htwo.step trivial (@Performs.next _
      ⟨⟨twoPartsUpload, 0⟩, [(.fresh none, []), (.fresh none, [])]⟩ 0 1 _ _ [] _ _ rfl
        (next_fresh_twoParts rfl 0))
  have hsecond : Reaches (answerParts twoParts fun _ => 0) (fun _ _ => True)
      ⟨⟨twoPartsUpload, 0⟩, []⟩
      ⟨⟨twoPartsUpload₂, 2⟩, [(.inPage [], [firstPart]), (.inPage [], [firstPart])]⟩ :=
    hfirst.step trivial (@Performs.next _
      ⟨⟨twoPartsUpload₁, 1⟩, [(.inPage [], [firstPart]), (.fresh none, [])]⟩ 1 1 _ _ [] _ _ rfl
        (next_fresh_twoParts rfl 1))
  have hlast : Reaches (answerParts twoParts fun _ => 0) (fun _ _ => True)
      ⟨⟨twoPartsUpload, 0⟩, []⟩ ⟨⟨twoPartsUpload₃, 3⟩,
        [(.inPage [], [firstPart]), (.inPage [], [firstPart, secondPart])]⟩ :=
    hsecond.step trivial (@Performs.next _ ⟨⟨twoPartsUpload₂, 2⟩,
      [(.inPage [], [firstPart]), (.inPage [], [firstPart])]⟩ 1 1 _ _ _ _ _ rfl
        next_inPage_twoParts)
  have hend : Reaches (answerParts twoParts fun _ => 0) (fun _ _ => True)
      ⟨⟨twoPartsUpload, 0⟩, []⟩ ⟨⟨twoPartsUpload₃, 3⟩,
        [(.done, [firstPart]), (.inPage [], [firstPart, secondPart])]⟩ :=
    hlast.step trivial (@Performs.next _ ⟨⟨twoPartsUpload₃, 3⟩,
      [(.inPage [], [firstPart]), (.inPage [], [firstPart, secondPart])]⟩ 0 1 _ _ _ none _ rfl rfl)
  have hcomplete := hall twoParts _ _ _ rfl rfl (by simp [twoParts, htags]) hend
  have hyields : [firstPart] = twoParts.listed := hcomplete.listers _ (.head _) rfl
  cases congrArg List.length hyields

end Boto.S3
