import Boto.Glacier.Writer.Model
import Boto.Numerals

/-!
# Resuming the upload of a file

`generate_parts_from_fobj` and `resume_file_upload` of `boto/glacier/writer.py`,
and the two functions of `boto/glacier/vault.py` that read the list of finished
parts.  A dictionary from part indices to hashes is the function that looks an
index up in it.
-/

namespace Boto.Glacier

open EStateM

/-! ## Reading the local file -/

/-- `data.encode('utf-8')`.  Python 2 decodes a byte string as ASCII before it
encodes it, and a byte string of Python 3 has no such method. -/
def encodeData (version : PyVersion) : Data → Except PyError Bytes
  | .text content => .ok (encodeUtf8 content)
  | .bytes content =>
      match version with
      | .py2 =>
          if content.all (· < 128) then .ok content
          else .error .unicodeDecodeError
      | .py3 => .error
          (.attributeError "'bytes' object has no attribute 'encode'")

/-- What the steps of `generate_parts_from_fobj` yield, from the rest of the
file on; an exception ends the generator.  A read that returns something shortens
the rest, whose length therefore bounds the number of steps. -/
def generatePartsLoop (version : PyVersion) (partSize : ℕ) :
    ℕ → Data → List (Except PyError Bytes)
  | 0, _ => []
  | fuel + 1, fobj =>
      let data := fobj.take partSize
      if data.length = 0 then []
      else
        match encodeData version data with
        | .ok part =>
            .ok part ::
              generatePartsLoop version partSize fuel (fobj.drop partSize)
        | .error e => [.error e]

/-- `generate_parts_from_fobj`. -/
def generatePartsFromFobj (version : PyVersion) (fobj : Data)
    (partSize : ℕ) : List (Except PyError Bytes) :=
  generatePartsLoop version partSize fobj.length fobj

section

variable (sha256 : Bytes → Bytes) (service : Service) (chunkSize : ℕ)
  (partHashMap : ℤ → Option Bytes)

/-- The loop of `resume_file_upload`, from the part with the given index on. -/
def resumeParts : ℕ → List (Except PyError Bytes) → EStateM PyError Upload Unit
  | _, [] => pure ()
  | _, .error e :: _ => throw e
  | partIndex, .ok partData :: rest => do
      let partTreeHash ← ofExcept
        (treeHash sha256 (chunkHashes sha256 partData chunkSize))
      if partHashMap partIndex = none ∨
          partHashMap partIndex ≠ some partTreeHash then
        Uploader.uploadPart sha256 service partIndex partData
      else Uploader.skipPart partIndex partTreeHash partData.length
      resumeParts (partIndex + 1) rest

/-- `resume_file_upload`, on the uploader it creates. -/
def resumeFileUpload (version : PyVersion) (partSize : ℕ) (fobj : Data) :
    EStateM PyError Upload (Option Text) := do
  resumeParts sha256 service chunkSize partHashMap 0
    (generatePartsFromFobj version fobj partSize)
  Uploader.close sha256 service
  return (← get).uploader.archiveId

end

/-! ## The list of finished parts -/

/-- `Vault._range_string_to_part_index`. -/
def rangeStringToPartIndex (rangeString : Text) (partSize : ℕ) :
    Except PyError ℤ := do
  let values ← (rangeString.splitOn '-').mapM parseInt
  match values with
  | [start, insideEnd] =>
      let stop := insideEnd + 1
      let length := stop - start
      -- the service may report a part one byte longer than it is
      let length := if length = partSize + 1 then length - 1 else length
      if partSize = 0 then .error .zeroDivisionError
      else if start % partSize ≠ 0 then
        .error (.assertionError
          "upload part start byte is not on a part boundary")
      else if length > partSize then
        .error (.assertionError "upload part is bigger than part size")
      else .ok (start / partSize)
  | _ => .error (.valueError "wrong number of values to unpack")

/-- An entry of the `Parts` of a part listing. -/
structure PartDesc where
  rangeInBytes : Text
  sha256TreeHash : Text
  deriving DecidableEq, Repr

/-- The loop of `resume_archive_from_file` over the listed parts. -/
def partHashMapLoop (partSize : ℕ) :
    List PartDesc → (ℤ → Option Bytes) → Except PyError (ℤ → Option Bytes)
  | [], partHashMap => .ok partHashMap
  | partDesc :: rest, partHashMap => do
      let partIndex ← rangeStringToPartIndex partDesc.rangeInBytes partSize
      let partTreeHash ← unhexlify partDesc.sha256TreeHash
      partHashMapLoop partSize rest
        (Function.update partHashMap partIndex (some partTreeHash))

/-- `Vault.resume_archive_from_file`, given the part listing of the upload. -/
def resumeArchiveFromFile (sha256 : Bytes → Bytes) (service : Service)
    (version : PyVersion) (partSizeInBytes : ℕ) (parts : List PartDesc)
    (fileObj : Data) : EStateM PyError Upload (Option Text) := do
  let partHashMap ← ofExcept
    (partHashMapLoop partSizeInBytes parts fun _ => none)
  resumeFileUpload sha256 service megabyte partHashMap version partSizeInBytes
    fileObj

end Boto.Glacier

/-!
## Reading back the ranges of finished parts

The service lists a finished part under the range it was sent with, or one byte
longer.  `rangeStringToPartIndex` gives the index of the part in both cases, so
the dictionary built from a listing holds the hash of each listed part.
-/

namespace Boto.Glacier

open EStateM

/-- `'%d-%d' % (first, last)`. -/
def rangeString (first last : ℕ) : Text :=
  decimal first ++ '-' :: decimal last

theorem splitOn_rangeString (first last : ℕ) :
    (rangeString first last).splitOn '-' = [decimal first, decimal last] := by
  have hminus : ∀ n, '-' ∉ decimal n := fun n => notMem_decimal (by decide)
  have hsplit : (['-'].intercalate [decimal first, decimal last]).splitOn '-' =
      [decimal first, decimal last] :=
    List.splitOn_intercalate '-' (by simp [hminus]) (by simp)
  simpa [rangeString, List.intercalate, List.intersperse] using hsplit

/-- The range of a part, and the same range with one byte too many, are read as
the index of the part. -/
theorem rangeStringToPartIndex_rangeString {p i len : ℕ} (hpos : 0 < len)
    (hle : len ≤ p) :
    rangeStringToPartIndex (rangeString (p * i) (p * i + len - 1)) p = .ok i ∧
      rangeStringToPartIndex (rangeString (p * i) (p * i + len)) p =
        .ok i := by
  have hp : p ≠ 0 := by omega
  have hread : ∀ last : ℕ,
      (last : ℤ) + 1 - (p * i : ℕ) ≤ p + 1 →
      rangeStringToPartIndex (rangeString (p * i) last) p = .ok i := by
    intro last hlast
    have hstart : ((p * i : ℕ) : ℤ) % p = 0 := by simp
    have hindex : ((p * i : ℕ) : ℤ) / p = i := by
      rw [Nat.cast_mul]
      exact Int.mul_ediv_cancel_left _ (by exact_mod_cast hp)
    have hlength : ¬ (if (last : ℤ) + 1 - (p * i : ℕ) = (p : ℤ) + 1 then
        (last : ℤ) + 1 - (p * i : ℕ) - 1
        else (last : ℤ) + 1 - (p * i : ℕ)) > p := by
      split <;> omega
    rw [rangeStringToPartIndex, splitOn_rangeString]
    simp only [List.mapM_cons, List.mapM_nil, parseInt_decimal]
    change (if p = 0 then _ else _) = _
    rw [if_neg hp, if_neg (by rw [hstart]; exact fun h => h rfl),
      if_neg hlength, hindex]
  exact ⟨hread _ (by omega), hread _ (by omega)⟩

/-- What a listing says about a part of `length` bytes: its range, possibly one
byte too long, and its hash. -/
structure FinishedPart where
  partIndex : ℕ
  length : ℕ
  treeHash : Bytes
  oneByteTooLong : Bool
  deriving DecidableEq, Repr

/-- The entry of the listing. -/
def FinishedPart.desc (partSize : ℕ) (part : FinishedPart) : PartDesc where
  rangeInBytes := rangeString (partSize * part.partIndex)
    (if part.oneByteTooLong then partSize * part.partIndex + part.length
      else partSize * part.partIndex + part.length - 1)
  sha256TreeHash := bytesToHex part.treeHash

/-- The dictionary that a listing stands for. -/
def finishedHashes (parts : List FinishedPart) (partHashMap : ℤ → Option Bytes) :
    ℤ → Option Bytes :=
  parts.foldl (fun hashes part =>
    Function.update hashes part.partIndex (some part.treeHash)) partHashMap

theorem partHashMapLoop_eq {p : ℕ} {parts : List FinishedPart}
    (hparts : ∀ part ∈ parts, 0 < part.length ∧ part.length ≤ p)
    (partHashMap : ℤ → Option Bytes) :
    partHashMapLoop p (parts.map (·.desc p)) partHashMap =
      .ok (finishedHashes parts partHashMap) := by
  induction parts generalizing partHashMap with
  | nil => rfl
  | cons part parts ih =>
      obtain ⟨hpos, hle⟩ := hparts part (by simp)
      have hrange : rangeStringToPartIndex (part.desc p).rangeInBytes p =
          .ok part.partIndex := by
        obtain ⟨hexact, hlong⟩ :=
          rangeStringToPartIndex_rangeString (i := part.partIndex) hpos hle
        simp only [FinishedPart.desc]
        split
        · exact hlong
        · exact hexact
      have hhash : unhexlify (part.desc p).sha256TreeHash =
          .ok part.treeHash := unhexlify_hexlify _
      have hrest := ih (fun x hx => hparts x (by simp [hx]))
        (Function.update partHashMap part.partIndex (some part.treeHash))
      rw [List.map_cons, partHashMapLoop, hrange, hhash]
      exact hrest

/-- Resuming from a listing is resuming with the hashes of the listed parts. -/
theorem resumeArchiveFromFile_eq {p : ℕ} {parts : List FinishedPart}
    (hparts : ∀ part ∈ parts, 0 < part.length ∧ part.length ≤ p)
    (sha256 : Bytes → Bytes) (service : Service) (version : PyVersion)
    (fileObj : Data) :
    resumeArchiveFromFile sha256 service version p (parts.map (·.desc p))
        fileObj =
      resumeFileUpload sha256 service megabyte
        (finishedHashes parts fun _ => none) version p fileObj := by
  rw [resumeArchiveFromFile, partHashMapLoop_eq hparts]
  rfl

end Boto.Glacier
