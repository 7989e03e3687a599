import Boto.Glacier.Utils
import Boto.Glacier.Writer.Model

/-!
# What each uploader method does

One equation for each method of `_Uploader` on an open uploader.  A part whose
index is at most the number of recorded hashes is recorded before the request is
made, so its hash stays recorded when the request raises; an index beyond that
raises `IndexError` and leaves the uploader as it was.
-/

namespace Boto.Glacier

open EStateM

namespace Uploader

/-- The recorded hashes after `_insert_tree_hash` succeeded. -/
def placeHash (treeHashes : List (Option Bytes)) (index : ℕ) (hash : Bytes) :
    List (Option Bytes) :=
  if index < treeHashes.length then treeHashes.set index (some hash)
  else treeHashes ++ [some hash]

theorem placeHash_length (treeHashes : List (Option Bytes)) (hash : Bytes) :
    placeHash treeHashes treeHashes.length hash =
      treeHashes ++ [some hash] := by
  simp [placeHash]

theorem length_placeHash {treeHashes : List (Option Bytes)} {index : ℕ}
    (hash : Bytes) (h : index ≤ treeHashes.length) :
    (placeHash treeHashes index hash).length =
      max treeHashes.length (index + 1) := by
  rw [placeHash]
  split
  · rw [List.length_set]
    omega
  · rw [List.length_append, List.length_singleton]
    omega

theorem none_notMem_placeHash {treeHashes : List (Option Bytes)} {index : ℕ}
    {hash : Bytes} (h : none ∉ treeHashes) :
    none ∉ placeHash treeHashes index hash := by
  rw [placeHash]
  split
  · intro hmem
    rcases List.mem_or_eq_of_mem_set hmem with hold | hnew
    · exact h hold
    · cases hnew
  · simp [h]

theorem extendTreeHashes_of_lt {treeHashes : List (Option Bytes)} {index : ℕ}
    (h : index < treeHashes.length) :
    extendTreeHashes treeHashes index = treeHashes := by
  simp [extendTreeHashes, h]

theorem extendTreeHashes_length (treeHashes : List (Option Bytes)) :
    extendTreeHashes treeHashes treeHashes.length = treeHashes ++ [none] := by
  simp [extendTreeHashes]

/-- The growth is computed the wrong way round: a list is never grown for an
index strictly beyond its end. -/
theorem extendTreeHashes_of_gt {treeHashes : List (Option Bytes)} {index : ℕ}
    (h : treeHashes.length < index) :
    extendTreeHashes treeHashes index = treeHashes := by
  have hcount : ((treeHashes.length : ℤ) - index + 1).toNat = 0 := by omega
  simp [extendTreeHashes, hcount]

end Uploader

/-- The byte range of a part of the given length, both ends included. -/
def partRange (partSize partIndex length : ℕ) : ℤ × ℤ :=
  (((partSize * partIndex : ℕ) : ℤ),
    ((partSize * partIndex : ℕ) : ℤ) + length - 1)

namespace Upload

/-- The uploader with other recorded hashes. -/
def withTreeHashes (u : Upload) (treeHashes : List (Option Bytes)) : Upload :=
  { u with uploader := { u.uploader with treeHashes := treeHashes } }

/-- The uploader with `n` more bytes counted. -/
def addSize (u : Upload) (n : ℕ) : Upload :=
  { u with uploader :=
    { u.uploader with uploadedSize := u.uploader.uploadedSize + n } }

section

variable (sha256 : Bytes → Bytes) (service : Service)

/-- The request `upload_part` makes for a part. -/
def partRequest (u : Upload) (partIndex : ℕ) (partData : Bytes) :
    PartRequest where
  uploadId := u.uploader.uploadId
  linearHash := hexlify (sha256 partData)
  treeHash := bytesToHex (partDigest sha256 u.uploader.chunkSize partData)
  contentRange := partRange u.uploader.partSize partIndex partData.length
  partData := partData
  fate := service.fate u.layer1.parts.length

/-- The uploader once the request for a part was made. -/
def sent (u : Upload) (partIndex : ℕ) (partData : Bytes) : Upload where
  uploader :=
    { u.uploader with
      treeHashes := Uploader.placeHash u.uploader.treeHashes partIndex
        (partDigest sha256 u.uploader.chunkSize partData) }
  layer1 :=
    { u.layer1 with
      parts := u.layer1.parts ++
        [u.partRequest sha256 service partIndex partData] }

/-- The completion request `close` makes for the recorded hashes. -/
def completed (u : Upload) (rawTreeHash : Bytes) : Upload where
  uploader :=
    { u.uploader with archiveId := some service.archiveId, closed := true }
  layer1 :=
    { u.layer1 with completions := u.layer1.completions ++ [
      { uploadId := u.uploader.uploadId
        treeHash := bytesToHex rawTreeHash
        archiveSize := u.uploader.uploadedSize }] }

end

end Upload

namespace Uploader

theorem run_insertTreeHash {u : Upload} {index : ℕ} (hash : Bytes)
    (h : index ≤ u.uploader.treeHashes.length) :
    (insertTreeHash index hash).run u =
      .ok () (u.withTreeHashes
        (placeHash u.uploader.treeHashes index hash)) := by
  rcases Nat.lt_or_eq_of_le h with hlt | rfl
  · simp [insertTreeHash, extendTreeHashes_of_lt hlt, hlt, placeHash,
      Upload.withTreeHashes]
  · simp [insertTreeHash, extendTreeHashes_length, placeHash,
      Upload.withTreeHashes]

theorem run_insertTreeHash_of_gt {u : Upload} {index : ℕ} (hash : Bytes)
    (h : u.uploader.treeHashes.length < index) :
    (insertTreeHash index hash).run u =
      .error (.indexError "list assignment index out of range") u := by
  simp [insertTreeHash, extendTreeHashes_of_gt h, Nat.not_lt.mpr h.le]

section

variable {sha256 : Bytes → Bytes} {service : Service} {u : Upload}
  (hopen : u.uploader.closed = false)

include hopen

theorem run_uploadPart {partIndex : ℕ} (partData : Bytes)
    (h : partIndex ≤ u.uploader.treeHashes.length) :
    (uploadPart sha256 service partIndex partData).run u =
      if (service.fate u.layer1.parts.length).raises then
        .error .requestError (u.sent sha256 service partIndex partData)
      else
        .ok () ((u.sent sha256 service partIndex partData).addSize
          partData.length) := by
  obtain ⟨⟨uploadId, p, c, archiveId, size, hashes, closed⟩, layer1⟩ := u
  obtain rfl : closed = false := hopen
  simp only [uploadPart, run_bind, run_get, Bool.false_eq_true, if_false,
    treeHash_chunkHashes, run_ofExcept_ok, run_insertTreeHash _ h,
    requestPart, Upload.withTreeHashes, run_modify]
  cases (service.fate layer1.parts.length).raises <;> rfl

theorem run_uploadPart_of_gt {partIndex : ℕ} (partData : Bytes)
    (h : u.uploader.treeHashes.length < partIndex) :
    (uploadPart sha256 service partIndex partData).run u =
      .error (.indexError "list assignment index out of range") u := by
  simp [uploadPart, hopen, run_insertTreeHash_of_gt _ h]

theorem run_skipPart {partIndex : ℕ} (hash : Bytes) (partLength : ℕ)
    (h : partIndex ≤ u.uploader.treeHashes.length) :
    (skipPart partIndex hash partLength).run u =
      .ok () ((u.withTreeHashes
        (placeHash u.uploader.treeHashes partIndex hash)).addSize
          partLength) := by
  simp [skipPart, hopen, run_insertTreeHash _ h, Upload.addSize,
    Upload.withTreeHashes]

theorem run_skipPart_of_gt {partIndex : ℕ} (hash : Bytes) (partLength : ℕ)
    (h : u.uploader.treeHashes.length < partIndex) :
    (skipPart partIndex hash partLength).run u =
      .error (.indexError "list assignment index out of range") u := by
  simp [skipPart, hopen, run_insertTreeHash_of_gt _ h]

theorem run_close (hnone : none ∉ u.uploader.treeHashes) {rawTreeHash : Bytes}
    (hhash : treeHash sha256 (u.uploader.treeHashes.filterMap id) =
      .ok rawTreeHash) :
    (close sha256 service).run u =
      .ok () (u.completed service rawTreeHash) := by
  simp only [close, run_bind, run_get, hopen, Bool.false_eq_true, if_false,
    hnone, hhash, run_ofExcept_ok, run_modify]
  rfl

theorem run_close_of_nil (hnil : u.uploader.treeHashes = []) :
    (close sha256 service).run u =
      .error (.indexError "list index out of range") u := by
  simp [close, hopen, hnil]

end

end Uploader

end Boto.Glacier
