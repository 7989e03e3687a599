import Boto.Python
import Boto.Support.PairTree

/-!
# Hashes and part sizes of Glacier uploads

The functions of `boto/glacier/utils.py`.  SHA-256 is an arbitrary function on
byte strings throughout.
-/

namespace Boto.Glacier

/-- `_MEGABYTE`. -/
def megabyte : ℕ := 1024 * 1024

/-- `DEFAULT_PART_SIZE`. -/
def defaultPartSize : ℕ := 4 * megabyte

/-- `MAXIMUM_NUMBER_OF_PARTS`. -/
def maximumNumberOfParts : ℕ := 10000

/-! ## Part sizes -/

/-- `part_size < size_in_bytes / 10000`: the quotient is floored by Python 2
and exact in Python 3. -/
def belowMinPartSize (version : PyVersion) (partSize sizeInBytes : ℕ) : Bool :=
  match version with
  | .py2 => partSize < sizeInBytes / 10000
  | .py3 => partSize * 10000 < sizeInBytes

/-- The `while part_size < min_part_size` loop of `minimum_part_size`. -/
def minimumPartSizeLoop (version : PyVersion) (sizeInBytes : ℕ) :
    ℕ → ℕ → ℕ → ℕ
  | 0, _, partSize => partSize
  | fuel + 1, power, partSize =>
      if belowMinPartSize version partSize sizeInBytes then
        minimumPartSizeLoop version sizeInBytes fuel (power + 1)
          (megabyte * 2 ^ power)
      else partSize

/-- `minimum_part_size`.  A size that passes the bound is met by the tenth part
size tried, so the loop never runs out of its fuel. -/
def minimumPartSize (version : PyVersion) (sizeInBytes : ℕ)
    (default : ℕ := defaultPartSize) : Except PyError ℕ :=
  if default * maximumNumberOfParts < sizeInBytes then
    if sizeInBytes > 4096 * megabyte * 10000 then
      .error (.valueError ("File size too large: " ++ toString sizeInBytes))
    else
      .ok (minimumPartSizeLoop version sizeInBytes 11 3 megabyte)
  else .ok default

/-! ## Hashes -/

section

variable (sha256 : Bytes → Bytes)

/-- `chunk_hashes`.  The chunk count is the exact quotient rounded up, which is
what the float division gives for any string that fits in memory. -/
def chunkHashes (bytestring : Bytes) (chunkSize : ℕ) : List Bytes :=
  let chunkCount := bytestring.length ⌈/⌉ chunkSize
  let hashes := (List.range chunkCount).map fun i =>
    let start := i * chunkSize
    let stop := (i + 1) * chunkSize
    sha256 (slice bytestring start stop)
  if hashes.isEmpty then [sha256 []] else hashes

/-- The inner loop of `tree_hash`, which empties `hashes` into `newHashes`. -/
def treeHashPass : List Bytes → List Bytes → List Bytes
  | first :: second :: hashes, newHashes =>
      treeHashPass hashes (newHashes ++ [sha256 (first ++ second)])
  | [only], newHashes => treeHashPass [] (newHashes ++ [only])
  | [], newHashes => newHashes

/-- The outer loop of `tree_hash`. -/
def treeHashLoop : ℕ → List Bytes → List Bytes
  | 0, hashes => hashes
  | fuel + 1, hashes =>
      if hashes.length > 1 then
        treeHashLoop fuel (treeHashPass sha256 hashes [])
      else hashes

/-- `tree_hash`.  Every pass shortens the list, so its length bounds the number
of passes. -/
def treeHash (fo : List Bytes) : Except PyError Bytes :=
  match treeHashLoop sha256 fo.length fo with
  | hash :: _ => .ok hash
  | [] => .error (.indexError "list index out of range")

/-- `bytes_to_hex`. -/
def bytesToHex (strAsBytes : Bytes) : Text := hexlify strAsBytes

/-- `tree_hash_from_str`. -/
def treeHashFromStr (strAsBytes : Bytes) : Except PyError Text :=
  bytesToHex <$> treeHash sha256 (chunkHashes sha256 strAsBytes megabyte)

/-- A file object as `compute_hashes_from_fileobj` sees it: what is left to
read, its `mode` if it has one, and the codec its text is encoded with. -/
structure FileObj where
  rest : Data
  mode : Option Text := none
  codec : Text → Bytes := encodeUtf8

/-- The bytes of a chunk that was read, text being encoded. -/
def FileObj.chunkBytes (fileobj : FileObj) : Data → Bytes
  | .bytes content => content
  | .text content => fileobj.codec content

/-- The read loop of `compute_hashes_from_fileobj`: the bytes given to the
linear hash and the chunk hashes, in order. -/
def computeHashesLoop (fileobj : FileObj) (chunkSize : ℕ) :
    ℕ → Data → Bytes × List Bytes → Bytes × List Bytes
  | 0, _, acc => acc
  | fuel + 1, rest, (linear, chunks) =>
      let chunk := rest.take chunkSize
      if chunk.length = 0 then (linear, chunks)
      else
        let chunk' := fileobj.chunkBytes chunk
        computeHashesLoop fileobj chunkSize fuel (rest.drop chunkSize)
          (linear ++ chunk', chunks ++ [sha256 chunk'])

/-- `compute_hashes_from_fileobj`. -/
def computeHashesFromFileobj (version : PyVersion) (fileobj : FileObj)
    (chunkSize : ℕ := megabyte) : Except PyError (Text × Text) :=
  if version = .py3 ∧ fileobj.mode.any (fun mode => 'b' ∉ mode) then
    .error (.valueError "File-like object must be opened in binary mode!")
  else
    let (linear, chunks) := computeHashesLoop sha256 fileobj chunkSize
      fileobj.rest.length fileobj.rest ([], [])
    let chunks := if chunks.isEmpty then [sha256 []] else chunks
    do
      let tree ← treeHash sha256 chunks
      return (hexlify (sha256 linear), bytesToHex tree)

end

end Boto.Glacier

/-!
## The tree hash is compositional

`tree_hash` is the root of the pairwise reduction with `sha256 (a ++ b)`, so the
hashes of parts of `chunk_size * 2 ^ k` bytes reduce to the tree hash of the
whole.  The parts are the ones any of the uploaders cuts; the last one may be
short.
-/

namespace Boto.Glacier

open Blocks

variable (sha256 : Bytes → Bytes)

/-- The digest of two neighbouring nodes of the hash tree. -/
def nodeHash (first second : Bytes) : Bytes := sha256 (first ++ second)

/-! ## The loops of `tree_hash` -/

theorem treeHashPass_eq (hashes newHashes : List Bytes) :
    treeHashPass sha256 hashes newHashes =
      newHashes ++ PairTree.level (nodeHash sha256) hashes := by
  induction hashes using PairTree.level.induct generalizing newHashes with
  | case1 first second rest ih =>
      rw [treeHashPass, ih, PairTree.level_cons_cons, List.append_assoc]
      rfl
  | case2 only => simp [treeHashPass]
  | case3 => simp [treeHashPass]

theorem treeHashLoop_eq (fuel : ℕ) (hashes : List Bytes) :
    treeHashLoop sha256 fuel hashes =
      (PairTree.level (nodeHash sha256))^[fuel] hashes := by
  induction fuel generalizing hashes with
  | zero => rfl
  | succ fuel ih =>
      rw [treeHashLoop]
      by_cases hlen : hashes.length > 1
      · rw [if_pos hlen, treeHashPass_eq, List.nil_append, ih,
          Function.iterate_succ_apply]
      · rw [if_neg hlen, PairTree.iterate_level_eq_self _ (by omega)]

/-- `tree_hash` returns the root of its list, and raises on an empty one. -/
theorem treeHash_eq (fo : List Bytes) :
    treeHash sha256 fo =
      match PairTree.root (nodeHash sha256) fo with
      | some hash => .ok hash
      | none => .error (.indexError "list index out of range") := by
  rw [treeHash, treeHashLoop_eq, PairTree.root]
  cases (PairTree.level (nodeHash sha256))^[fo.length] fo <;> rfl

theorem treeHash_eq_ok_iff {fo : List Bytes} {hash : Bytes} :
    treeHash sha256 fo = .ok hash ↔
      PairTree.root (nodeHash sha256) fo = some hash := by
  rw [treeHash_eq]
  cases PairTree.root (nodeHash sha256) fo <;> simp

@[simp] theorem treeHash_nil :
    treeHash sha256 [] = .error (.indexError "list index out of range") := rfl

theorem exists_treeHash_eq_ok {fo : List Bytes} (hne : fo ≠ []) :
    ∃ hash, treeHash sha256 fo = .ok hash := by
  obtain ⟨hash, hroot⟩ :=
    Option.isSome_iff_exists.mp (PairTree.root_isSome (nodeHash sha256) hne)
  exact ⟨hash, (treeHash_eq_ok_iff sha256).mpr hroot⟩

/-! ## Chunks -/

theorem chunkHashes_eq {d : Bytes} (hd : d ≠ []) {c : ℕ} (hc : 0 < c) :
    chunkHashes sha256 d c = (cut c d).map sha256 := by
  have hchunks : (List.range (d.length ⌈/⌉ c)).map
      (fun i => sha256 (slice d (i * c) ((i + 1) * c))) =
        (cut c d).map sha256 := by
    simp only [cut, List.map_map, Function.comp_def]
    apply List.map_congr_left
    intro i _
    rw [Nat.succ_mul, slice_eq_take_drop]
  have hne : ((cut c d).map sha256).isEmpty = false := by
    simp [cut_eq_cons hc hd]
  simp only [chunkHashes, hchunks, hne, Bool.false_eq_true, if_false]

theorem chunkHashes_ne_nil (d : Bytes) (c : ℕ) :
    chunkHashes sha256 d c ≠ [] := by
  simp only [chunkHashes]
  split
  · simp
  · rename_i h
    simpa using h

/-- The tree hash of a part, `tree_hash(chunk_hashes(part, chunk_size))`. -/
def partDigest (c : ℕ) (part : Bytes) : Bytes :=
  (treeHash sha256 (chunkHashes sha256 part c)).toOption.getD []

@[simp] theorem treeHash_chunkHashes (c : ℕ) (part : Bytes) :
    treeHash sha256 (chunkHashes sha256 part c) =
      .ok (partDigest sha256 c part) := by
  obtain ⟨hash, hok⟩ :=
    exists_treeHash_eq_ok sha256 (chunkHashes_ne_nil sha256 part c)
  rw [partDigest, hok]
  rfl

/-! ## Compositionality -/

/-- The tree hash of the part hashes is the tree hash of the whole. -/
theorem treeHash_map_partDigest {d : Bytes} (hd : d ≠ []) {c : ℕ} (hc : 0 < c)
    (k : ℕ) :
    treeHash sha256 ((cut (c * 2 ^ k) d).map (partDigest sha256 c)) =
      .ok (partDigest sha256 c d) := by
  have hm : 0 < 2 ^ k := Nat.two_pow_pos k
  have hp : 0 < c * 2 ^ k := Nat.mul_pos hc hm
  -- every part hash is the root of the corresponding block of chunk hashes
  have hroots : (cut (2 ^ k) (chunkHashes sha256 d c)).map
      (PairTree.root (nodeHash sha256)) =
        ((cut (c * 2 ^ k) d).map (partDigest sha256 c)).map some := by
    rw [chunkHashes_eq sha256 hd hc, cut_map, ← cut_mul hc hm, Nat.mul_comm,
      List.map_map, List.map_map, List.map_map]
    apply List.map_congr_left
    intro part hpart
    have hne := ne_nil_of_mem_cut hp hpart
    rw [Function.comp_apply, Function.comp_apply, Function.comp_apply,
      ← chunkHashes_eq sha256 hne hc, ← treeHash_eq_ok_iff,
      treeHash_chunkHashes]
  rw [treeHash_eq_ok_iff, PairTree.root_map_root_cut _ hroots,
    ← treeHash_eq_ok_iff, treeHash_chunkHashes]

end Boto.Glacier
