import Boto.ComputeHash
import Boto.S3.SendFileRetries

/-!
# What an upload announces

`Key.set_contents_from_file` of `boto/s3/key.py` and of `boto/gs/key.py`, for a seekable file
that is neither rewound nor a `KeyFile`, without a resumable handler: the headers and the size
that they hand to `send_file`.  The chunked transfer is not for S3, and the Google subclass does
not use it.
-/

namespace Boto.S3.AnnouncedUpload

open Files SendFile

/-- The MD5 of some data as `compute_md5` returns it: in hexadecimal and in base 64. -/
abbrev Md5 := Text × Text

/-- What `send_file` is called with. -/
structure Upload where
  contentLength : ℤ
  md5 : Md5
  size : Option ℕ
  deriving DecidableEq

/-- The two classes of keys. -/
inductive Provider
  | s3
  | gs
  deriving DecidableEq

section

variable (lengths : ReadLengths) (bufSize : ℕ) (hashAlgorithm : HashAlgorithm)

/-- `Key.compute_md5`, where the reads do not run out of fuel. -/
def computeMd5 (fp : File UInt8) (size : Option ℕ) : HashResult :=
  (computeHash lengths bufSize (fp.rest.length + 1) fp size hashAlgorithm).getD
    ⟨[], [], 0, fp⟩

/-- The bytes to the end, as the difference of two positions. -/
def toEnd (fp : File UInt8) : ℤ := (fp.content.length : ℤ) - fp.pos

/-- `Key.set_contents_from_file` of S3 behind the check of the position. -/
def s3Upload (fp : File UInt8) (size : Option ℕ) (md5 : Option Md5) : Upload :=
  match md5 with
  | none =>
      let result := computeMd5 lengths bufSize hashAlgorithm fp size
      ⟨result.dataSize, (result.hexDigest, result.base64Digest), some result.dataSize.toNat⟩
  | some md5 =>
      match size with
      | none | some 0 => ⟨toEnd fp, md5, some (toEnd fp).toNat⟩
      | some size => ⟨size, md5, some size⟩

/-- `Key.set_contents_from_file` of Google behind the check of the position. -/
def gsUpload (fp : File UInt8) (size : Option ℕ) (md5 : Option Md5) : Upload :=
  let keySize : ℤ := match size with
    | none | some 0 => toEnd fp
    | some size => size
  let size := some keySize.toNat
  match md5 with
  | none =>
      let result := computeMd5 lengths bufSize hashAlgorithm fp size
      ⟨result.dataSize, (result.hexDigest, result.base64Digest), size⟩
  | some md5 => ⟨keySize, md5, size⟩

/-- `Key.set_contents_from_file`. -/
def setContentsFromFile (provider : Provider) (fp : File UInt8) (size : Option ℕ)
    (md5 : Option Md5) : Except PyError Upload :=
  if fp.content.length = fp.pos ∧ fp.pos ≠ 0 then
    .error (.attributeError "fp is at EOF. Use rewind option or seek() to data start.")
  else
    .ok (match provider with
      | .s3 => s3Upload lengths bufSize hashAlgorithm fp size md5
      | .gs => gsUpload lengths bufSize hashAlgorithm fp size md5)

/-- The MD5 that a caller has from `compute_md5`, if it gives one. -/
def callerMd5 (fp : File UInt8) (size : Option ℕ) (isGiven : Bool) : Option Md5 :=
  if isGiven then
    let result := computeMd5 lengths bufSize hashAlgorithm fp size
    some (result.hexDigest, result.base64Digest)
  else none

/-- The MD5 of some bytes. -/
def md5Of (data : Bytes) : Md5 :=
  (hexlify (hashAlgorithm.digest data),
    withoutLineEnd (encodebytes (hashAlgorithm.digest data)))

/-- An upload announces the length and the MD5 of these bytes, and every attempt that comes to a
response has sent them, as the size of the key says in the end. -/
structure Announces (fp : File UInt8) (upload : Upload) (range : Bytes) : Prop where
  length : upload.contentLength = range.length
  md5 : upload.md5 = md5Of hashAlgorithm range
  sent : ∀ (request : Request) (key : State) (numRetries : ℕ) (attempts : List Attempt),
    request.chunkedTransfer = false → request.size = upload.size → 0 < request.bufferSize →
    key.fp = ⟨fp, true⟩ →
    let run := sendFileInternal request none numRetries attempts key
    (∀ record ∈ run.records, record.conn.asked = true → record.conn.sent.flatten = range) ∧
      ∀ response, run.outcome = some (.ok response) → run.state.size = some range.length

end

/-! ## What is sent -/

section

variable {lengths : ReadLengths} {bufSize : ℕ} {hashAlgorithm : HashAlgorithm}
  {fp : File UInt8} {size : Option ℕ} {provider : Provider} {isGiven : Bool}

theorem computeMd5_eq (hbuf : 0 < bufSize) (size : Option ℕ) :
    computeMd5 lengths bufSize hashAlgorithm fp size =
      ⟨(md5Of hashAlgorithm (limit size fp.rest)).1, (md5Of hashAlgorithm (limit size fp.rest)).2,
        (limit size fp.rest).length, fp⟩ := by
  have hfuel : fp.rest.length < fp.rest.length + 1 := Nat.lt_succ_self _
  rw [computeMd5]
  rcases size with _ | _ | n
  · rw [computeHash_all hbuf (.inl rfl) hfuel]
    rfl
  · rw [computeHash_all hbuf (.inr rfl) hfuel]
    rfl
  · rw [computeHash_eq hashAlgorithm (hashReads_some hbuf (Nat.succ_ne_zero n) hfuel)]
    rfl

theorem toEnd_eq (hpos : fp.pos ≤ fp.content.length) : toEnd fp = fp.rest.length := by
  rw [toEnd, File.rest, List.length_drop]
  omega

theorem limit_some {n : ℕ} (hn : n ≠ 0) (data : Bytes) : limit (some n) data = data.take n := by
  cases n with
  | zero => exact absurd rfl hn
  | succ n => rfl

/-- A limit that is the length of what another limit leaves. -/
theorem limit_length (size : Option ℕ) (data : Bytes) :
    limit (some (limit size data).length) data = limit size data := by
  by_cases hnil : limit size data = []
  · rw [hnil]
    exact limit_eq_nil_iff.mp hnil
  · rw [limit_some (List.length_eq_zero_iff.not.mpr hnil)]
    rcases size with _ | _ | n
    · exact List.take_length
    · exact List.take_length
    · rw [limit_some (Nat.succ_ne_zero n), List.length_take, List.take_eq_take_iff]
      omega

/-- The length that is announced when the caller gives the MD5: the size is not checked. -/
def givenLength (size : Option ℕ) (data : Bytes) : ℕ :=
  match size with
  | none | some 0 => data.length
  | some size => size

theorem limit_givenLength (size : Option ℕ) (data : Bytes) :
    limit (some (givenLength size data)) data = limit size data := by
  rcases size with _ | _ | n
  · exact limit_length none data
  · exact limit_length none data
  · rfl

theorem callerMd5_eq (hbuf : 0 < bufSize) :
    callerMd5 lengths bufSize hashAlgorithm fp size isGiven =
      if isGiven then some (md5Of hashAlgorithm (limit size fp.rest)) else none := by
  rw [callerMd5, computeMd5_eq hbuf]

theorem s3Upload_none (hbuf : 0 < bufSize) :
    s3Upload lengths bufSize hashAlgorithm fp size none =
      ⟨(limit size fp.rest).length, md5Of hashAlgorithm (limit size fp.rest),
        some (limit size fp.rest).length⟩ := by
  rw [s3Upload, computeMd5_eq hbuf]
  rfl

theorem s3Upload_some (hpos : fp.pos ≤ fp.content.length) (md5 : Md5) :
    s3Upload lengths bufSize hashAlgorithm fp size (some md5) =
      ⟨givenLength size fp.rest, md5, some (givenLength size fp.rest)⟩ := by
  rcases size with _ | _ | n
  · rw [s3Upload, toEnd_eq hpos]
    rfl
  · rw [s3Upload, toEnd_eq hpos]
    rfl
  · rfl

theorem gsUpload_none (hbuf : 0 < bufSize) (hpos : fp.pos ≤ fp.content.length) :
    gsUpload lengths bufSize hashAlgorithm fp size none =
      ⟨(limit size fp.rest).length, md5Of hashAlgorithm (limit size fp.rest),
        some (givenLength size fp.rest)⟩ := by
  have hupload : gsUpload lengths bufSize hashAlgorithm fp size none =
      (let result := computeMd5 lengths bufSize hashAlgorithm fp (some (givenLength size fp.rest))
      ⟨result.dataSize, (result.hexDigest, result.base64Digest),
        some (givenLength size fp.rest)⟩) := by
    rcases size with _ | _ | n
    · rw [gsUpload, toEnd_eq hpos]
      rfl
    · rw [gsUpload, toEnd_eq hpos]
      rfl
    · rfl
  rw [hupload, computeMd5_eq hbuf, limit_givenLength]

theorem gsUpload_some (hpos : fp.pos ≤ fp.content.length) (md5 : Md5) :
    gsUpload lengths bufSize hashAlgorithm fp size (some md5) =
      ⟨givenLength size fp.rest, md5, some (givenLength size fp.rest)⟩ := by
  rcases size with _ | _ | n
  · rw [gsUpload, toEnd_eq hpos]
    rfl
  · rw [gsUpload, toEnd_eq hpos]
    rfl
  · rfl

/-- What both classes hand to `send_file`. -/
theorem of_setContentsFromFile (hbuf : 0 < bufSize) (hpos : fp.pos ≤ fp.content.length)
    {upload : Upload}
    (hupload : setContentsFromFile lengths bufSize hashAlgorithm provider fp size
      (callerMd5 lengths bufSize hashAlgorithm fp size isGiven) = .ok upload) :
    upload.md5 = md5Of hashAlgorithm (limit size fp.rest) ∧
      upload.contentLength =
        (if isGiven then givenLength size fp.rest else (limit size fp.rest).length : ℕ) ∧
      limit upload.size fp.rest = limit size fp.rest := by
  rw [callerMd5_eq hbuf] at hupload
  unfold setContentsFromFile at hupload
  split at hupload
  · cases hupload
  · cases provider with
    | s3 =>
        cases isGiven with
        | false =>
            cases (congrArg Except.ok (s3Upload_none hbuf)).symm.trans hupload
            exact ⟨rfl, rfl, limit_length size fp.rest⟩
        | true =>
            cases (congrArg Except.ok (s3Upload_some hpos _)).symm.trans hupload
            exact ⟨rfl, rfl, limit_givenLength size fp.rest⟩
    | gs =>
        cases isGiven with
        | false =>
            cases (congrArg Except.ok (gsUpload_none hbuf hpos)).symm.trans hupload
            exact ⟨rfl, rfl, limit_givenLength size fp.rest⟩
        | true =>
            cases (congrArg Except.ok (gsUpload_some hpos _)).symm.trans hupload
            exact ⟨rfl, rfl, limit_givenLength size fp.rest⟩

/-- What is sent is what the limit leaves, in every attempt that comes to a response. -/
theorem sent_limit {request : Request} {key : State} {numRetries : ℕ} {attempts : List Attempt}
    (hchunked : request.chunkedTransfer = false) (hbuf : 0 < request.bufferSize)
    (hfp : key.fp = ⟨fp, true⟩) :
    (∀ record ∈ (sendFileInternal request none numRetries attempts key).records,
      record.conn.asked = true →
        record.conn.sent.flatten = limit request.size fp.rest) ∧
      ∀ response, (sendFileInternal request none numRetries attempts key).outcome =
          some (.ok response) →
        (sendFileInternal request none numRetries attempts key).state.size =
          some (limit request.size fp.rest).length := by
  have hrun : Retried request fp.content (digesterAlgs request none key) fp.pos []
      (sendFileInternal request none numRetries attempts key) := by
    simp only [sendFileInternal, hfp, if_true]
    exact mexe_retried hbuf ⟨rfl, rfl, rfl⟩
  constructor
  · intro record hmem hasked
    have hcarries := hrun.sent record hmem hasked
    rw [hchunked] at hcarries
    exact hcarries
  · exact fun response hresponse => (hrun.returned response hresponse).2.1

/-- What `rangeOf` leaves out of consideration is a size of 0 with something to send. -/
theorem limit_eq_rangeOf_iff :
    limit size fp.rest = rangeOf fp size ↔ size ≠ some 0 ∨ fp.rest = [] := by
  rcases size with _ | _ | n
  · exact iff_of_true rfl (.inl nofun)
  · rw [rangeOf, List.take_zero]
    exact (or_iff_right fun hne => hne rfl).symm
  · exact iff_of_true rfl (.inl (by simp))

/-- A size is not 0 in front of something, and not beyond the end when the caller gives the MD5. -/
def SizeFits (fp : File UInt8) (size : Option ℕ) (isGiven : Bool) : Prop :=
  (size ≠ some 0 ∨ fp.rest = []) ∧
    (isGiven = true → ∀ n, size = some n → n ≤ fp.rest.length)

/-- An upload is refused exactly at the end of a file that is not empty, and otherwise it
announces exactly what it sends, and that is the requested range, if and only if the size fits. -/
def AnnouncesFitting (lengths : ReadLengths) (bufSize : ℕ) (hashAlgorithm : HashAlgorithm)
    (provider : Provider) (fp : File UInt8) (size : Option ℕ) (isGiven : Bool) : Prop :=
  ((∃ e, setContentsFromFile lengths bufSize hashAlgorithm provider fp size
      (callerMd5 lengths bufSize hashAlgorithm fp size isGiven) = .error e) ↔
    fp.rest = [] ∧ fp.content ≠ []) ∧
  ∀ upload, setContentsFromFile lengths bufSize hashAlgorithm provider fp size
      (callerMd5 lengths bufSize hashAlgorithm fp size isGiven) = .ok upload →
    (Announces hashAlgorithm fp upload (rangeOf fp size) ↔ SizeFits fp size isGiven)

/-- The length that is announced is the one of the range. -/
theorem announced_iff (size : Option ℕ) (isGiven : Bool) :
    (if isGiven then givenLength size fp.rest else (limit size fp.rest).length) =
        (rangeOf fp size).length ↔
      SizeFits fp size isGiven := by
  rw [SizeFits]
  have hempty : fp.rest = [] ↔ fp.rest.length = 0 := List.length_eq_zero_iff.symm
  rw [hempty]
  rcases size with _ | _ | n
  · cases isGiven <;> simp [givenLength, limit, rangeOf]
  · cases isGiven <;> simp [givenLength, limit, rangeOf]
  · cases isGiven with
    | false => simp [limit, rangeOf]
    | true =>
        simp only [if_true, givenLength, rangeOf, List.length_take]
        constructor
        · intro heq
          refine ⟨.inl (by simp), fun _ m hm => ?_⟩
          cases hm
          omega
        · rintro ⟨-, hle⟩
          have hfits := hle trivial (n + 1) rfl
          omega

end

/-- **Uploads.**  From a position in the file, an upload to either service is refused exactly at
the end of a file that is not empty.  Otherwise its headers announce exactly the bytes that every
attempt sends, and these are the requested range, if and only if the size fits. -/
theorem announcesFitting (lengths : ReadLengths) {bufSize : ℕ} (hbuf : 0 < bufSize)
    (hashAlgorithm : HashAlgorithm) (provider : Provider) (fp : File UInt8)
    (hpos : fp.pos ≤ fp.content.length) (size : Option ℕ) (isGiven : Bool) :
    AnnouncesFitting lengths bufSize hashAlgorithm provider fp size isGiven := by
  constructor
  · have hend : fp.rest = [] ∧ fp.content ≠ [] ↔ fp.content.length = fp.pos ∧ fp.pos ≠ 0 := by
      rw [File.rest, List.drop_eq_nil_iff, Ne, ← List.length_eq_zero_iff]
      omega
    rw [hend]
    unfold setContentsFromFile
    split
    · next hguard => exact iff_of_true ⟨_, rfl⟩ hguard
    · next hguard =>
        refine iff_of_false ?_ hguard
        rintro ⟨e, herror⟩
        cases herror
  · intro upload hupload
    obtain ⟨hmd5, hlength, hlimit⟩ := of_setContentsFromFile hbuf hpos hupload
    constructor
    · intro hannounces
      have hsame := hlength.symm.trans hannounces.length
      exact (announced_iff size isGiven).mp (Int.natCast_inj.mp hsame)
    · rintro hcondition
      have hrange := limit_eq_rangeOf_iff.mpr hcondition.1
      constructor
      · rw [hlength, (announced_iff size isGiven).mpr hcondition]
      · rw [hmd5, hrange]
      · intro request key numRetries attempts hchunked hsize hpositive hfp
        have hsent := @sent_limit fp request key numRetries attempts hchunked hpositive hfp
        rw [hsize, hlimit, hrange] at hsent
        exact hsent

/-- Four bytes from the second one on, with a size beyond the end. -/
theorem announcesFitting_beyond :
    AnnouncesFitting fullReads 8192 byteSum .s3 ⟨[1, 2, 3, 4], 1⟩ (some 5) true := by
  apply announcesFitting
  · exact Nat.succ_pos 8191
  · decide

end Boto.S3.AnnouncedUpload
