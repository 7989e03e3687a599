import Boto.Glacier.Concurrent.Upload
import Boto.Glacier.Writer.Partition

/-!
# All ways to hash an archive agree

A `Writer`, a `ConcurrentUploader` and `compute_hashes_from_fileobj` report the
same tree hash for the same bytes.  The first two hash the parts of the archive
and combine the part hashes; the third hashes the chunks of the whole.
-/

namespace Boto.Glacier

open EStateM Blocks

variable {sha256 : Bytes → Bytes} {c : ℕ} {d : Bytes}

/-! ## Hashing a file object -/

theorem computeHashesLoop_bytes (fileobj : FileObj) (hc : 0 < c) {fuel : ℕ}
    (hfuel : d.length ≤ fuel) (linear : Bytes) (chunks : List Bytes) :
    computeHashesLoop sha256 fileobj c fuel (.bytes d) (linear, chunks) =
      (linear ++ d, chunks ++ (cut c d).map sha256) := by
  induction fuel generalizing d linear chunks with
  | zero =>
      have hnil : d = [] := List.length_eq_zero_iff.mp (by omega)
      simp [hnil, computeHashesLoop]
  | succ fuel ih =>
      rw [computeHashesLoop]
      by_cases hnil : d = []
      · subst hnil
        simp [Data.take, Data.length]
      · have hlen : 0 < d.length := List.length_pos_iff.mpr hnil
        have hread : ¬ (Data.take c (.bytes d)).length = 0 := by
          rw [Data.length_take]
          simp only [Data.length]
          omega
        have hrest := ih (d := d.drop c) (by rw [List.length_drop]; omega)
          (linear ++ d.take c) (chunks ++ [sha256 (d.take c)])
        simp only [if_neg hread]
        refine hrest.trans ?_
        rw [List.append_assoc, List.take_append_drop, cut_eq_cons hc hnil,
          List.map_cons, List.append_assoc]
        rfl

/-- A file object that is open in binary mode, as far as it tells. -/
def FileObj.isBinary (fileobj : FileObj) : Prop :=
  ∀ mode ∈ fileobj.mode, 'b' ∈ mode

theorem computeHashesFromFileobj_eq {version : PyVersion} {fileobj : FileObj}
    (hmode : fileobj.isBinary) (hrest : fileobj.rest = .bytes d) (hd : d ≠ [])
    (hc : 0 < c) :
    computeHashesFromFileobj sha256 version fileobj c =
      .ok (hexlify (sha256 d), bytesToHex (partDigest sha256 c d)) := by
  have htext : ¬ (version = .py3 ∧
      fileobj.mode.any (fun mode => 'b' ∉ mode) = true) := by
    rintro ⟨-, hany⟩
    cases hm : fileobj.mode with
    | none => simp [hm] at hany
    | some mode => simp [hm, hmode mode (by simp [hm])] at hany
  have hloop : computeHashesLoop sha256 fileobj c d.length (.bytes d) ([], []) =
      _ := computeHashesLoop_bytes fileobj hc (le_refl d.length) [] []
  have hne : ((cut c d).map sha256).isEmpty = false := by
    simp [cut_eq_cons hc hd]
  rw [computeHashesFromFileobj, if_neg htext, hrest, Data.length, hloop]
  simp only [List.nil_append, hne, Bool.false_eq_true, if_false]
  rw [← chunkHashes_eq sha256 hd hc, treeHash_chunkHashes]
  rfl

/-! ## Hashing parts -/

/-- Hashing the parts one by one and combining their hashes. -/
def treeHashOfParts (sha256 : Bytes → Bytes) (c : ℕ) (parts : List Bytes) :
    Except PyError Bytes := do
  let hashes ← parts.mapM fun part =>
    treeHash sha256 (chunkHashes sha256 part c)
  treeHash sha256 hashes

theorem treeHashOfParts_eq (parts : List Bytes) :
    treeHashOfParts sha256 c parts =
      treeHash sha256 (parts.map (partDigest sha256 c)) := by
  have hmapM : parts.mapM (fun part =>
      treeHash sha256 (chunkHashes sha256 part c)) =
        .ok (parts.map (partDigest sha256 c)) := by
    induction parts with
    | nil => rfl
    | cons part parts ih =>
        rw [List.mapM_cons, treeHash_chunkHashes, ih]
        rfl
  rw [treeHashOfParts, hmapM]
  rfl

/-- The part hashes of a concurrent upload are those of the file's blocks. -/
theorem Concurrent.map_partHash {job : Concurrent.Job}
    (hparts : job.totalParts = job.content.length ⌈/⌉ job.partSize) :
    (List.range job.totalParts).map (job.partHash sha256) =
      (cut job.partSize job.content).map (partDigest sha256 megabyte) := by
  rw [cut, List.map_map, hparts]
  rfl

/-- The tree hash of a part list, of a `Writer`, of a file object and of a
`ConcurrentUploader` is that of the whole. -/
theorem tree_hash_agreement (sha256 : Bytes → Bytes) (hd : d ≠ [])
    (hc : 0 < c) (k : ℕ) :
    ∃ digest, treeHash sha256 (chunkHashes sha256 d c) = .ok digest ∧
      treeHashOfParts sha256 c (cut (c * 2 ^ k) d) = .ok digest ∧
      (∀ (service : Service) (uploadId : Text) (writes : List Bytes),
        service.Accepts → writes.flatten = d →
        ∃ w, (Writer.session sha256 service writes).run
            (.init uploadId (c * 2 ^ k) c) = .ok () w ∧
          w.core.upload.layer1.completions.map (·.treeHash) =
            [bytesToHex digest]) ∧
      (∀ (version : PyVersion) (fileobj : FileObj), fileobj.isBinary →
        fileobj.rest = .bytes d →
        computeHashesFromFileobj sha256 version fileobj c =
          .ok (hexlify (sha256 d), bytesToHex digest)) ∧
      (c = megabyte →
        ∀ (version : PyVersion) (numThreads numRetries : ℕ)
          (uploadId archiveId : Text) (job : Concurrent.Job)
          (s₀ s : Concurrent.State),
        Concurrent.upload version d (megabyte * 2 ^ k) numThreads numRetries
          uploadId archiveId = .ok (job, s₀) →
        Relation.ReflTransGen (Concurrent.Step sha256 job) s₀ s →
        ∀ completion ∈ s.completions,
          completion.treeHash = bytesToHex digest) := by
  have hp : 0 < c * 2 ^ k := Nat.mul_pos hc (Nat.two_pow_pos k)
  have hwhole := treeHash_map_partDigest sha256 hd hc k
  refine ⟨partDigest sha256 c d, treeHash_chunkHashes sha256 c d, ?_, ?_, ?_, ?_⟩
  · rw [treeHashOfParts_eq, hwhole]
  · rintro service uploadId writes haccepts rfl
    obtain ⟨w, hrun, hclosed, hclean⟩ :=
      Writer.run_session sha256 hp c haccepts uploadId hd
    refine ⟨w, hrun, ?_⟩
    obtain ⟨completion, hcompletions, hdigest⟩ := hclosed.completions
    obtain ⟨-, hash, hreported, hhash⟩ := hdigest hclean
    have hparts : w.core.upload.layer1.parts.map
        (fun r => partDigest sha256 c r.partData) =
          (cut (c * 2 ^ k) writes.flatten).map (partDigest sha256 c) := by
      rw [← (hclosed.isCut hclean).eq_cut hp, List.map_map]
      rfl
    rw [hparts, hwhole] at hhash
    cases hhash
    rw [hcompletions, List.map_singleton, hreported]
  · exact fun version fileobj hmode hrest =>
      computeHashesFromFileobj_eq hmode hrest hd hc
  · rintro rfl version numThreads numRetries uploadId archiveId job s₀ s
      hupload hrun completion hmem
    obtain ⟨rfl, hcontent, hsize, hparts, hpower⟩ :=
      Concurrent.upload_eq_ok hupload
    have hinv : Concurrent.Inv sha256 job s := Concurrent.Reachable.inv hsize hrun
    obtain ⟨-, hash, hhash, rfl⟩ := hinv.completed hmem
    obtain ⟨j, hj⟩ : ∃ j, job.partSize = megabyte * 2 ^ j := by
      rcases hpower with hgiven | hrequired
      · exact ⟨k, hgiven⟩
      · exact hrequired
    rw [← hcontent] at hparts hd
    rw [Concurrent.map_partHash hparts, hj,
      treeHash_map_partDigest sha256 hd hc j] at hhash
    cases hhash
    rw [← hcontent]
    rfl

theorem tree_hash_agreement_three_bytes :
    ∃ digest, treeHash id (chunkHashes id [1, 2, 3] 1) = .ok digest ∧
      treeHashOfParts id 1 (cut (1 * 2 ^ 1) [1, 2, 3]) = .ok digest := by
  obtain ⟨digest, hwhole, hparts, -⟩ :=
    tree_hash_agreement (d := [1, 2, 3]) id (by decide) Nat.one_pos 1
  exact ⟨digest, hwhole, hparts⟩

end Boto.Glacier
