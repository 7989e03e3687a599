import Boto.Glacier.Concurrent.Upload
import Boto.Glacier.Download.JobRuns
import Boto.Glacier.Download.Model

/-!
# Downloads by workers

The workers deliver the results of the parts in any order, and the main thread takes them
until one is an exception or all are there.  In Python 3 every result is an exception.
-/

namespace Boto.Glacier.Download

open Blocks WorkerPool

variable {sha256 : Bytes → Bytes} {job : Job} {archive : Bytes} {partSize total : ℕ}

/-! ## One part -/

/-- An attempt meets data with its hash. -/
def Meets (sha256 : Bytes → Bytes) (job : Job) (partSize i attempt : ℕ) (data : Bytes) : Prop :=
  job.getOutput (workRange partSize i) attempt = .response data (some (dataHash sha256 data))

/-- The data of a part that comes with its hash first. -/
def GoodPart (sha256 : Bytes → Bytes) (job : Job) (partSize i : ℕ) (data : Bytes) : Prop :=
  ∃ attempt < maxAttempts, Meets sha256 job partSize i attempt data ∧
    ∀ before < attempt, ∀ data, ¬Meets sha256 job partSize i before data

/-- No attempt meets data with its hash, but one meets data. -/
def CorruptedPart (sha256 : Bytes → Bytes) (job : Job) (partSize i : ℕ) : Prop :=
  (∀ attempt < maxAttempts, ∀ data, ¬Meets sha256 job partSize i attempt data) ∧
    ∃ attempt < maxAttempts, ∃ data treeHash,
      job.getOutput (workRange partSize i) attempt = .response data treeHash

/-- Every attempt meets an exception. -/
def FailingPart (job : Job) (partSize i : ℕ) : Prop :=
  ∀ attempt < maxAttempts, ∃ retryable,
    job.getOutput (workRange partSize i) attempt = .raised retryable

/-- The result for data of a part. -/
def goodResult (sha256 : Bytes → Bytes) (partSize i : ℕ) (data : Bytes) : PartResult :=
  .part i partSize (partDigest sha256 megabyte data) data

theorem toOption_ok {ε α : Type} (a : α) : (Except.ok a : Except ε α).toOption = some a := rfl

theorem downloadChunk_of_raised {i attempt : ℕ} {retryable : Bool}
    (hattempt : job.getOutput (workRange partSize i) attempt = .raised retryable) :
    downloadChunk sha256 job partSize i attempt = none := by
  rw [downloadChunk, hattempt]
  rfl

theorem downloadChunk_of_response {i attempt : ℕ} {data : Bytes} {treeHash : Option Text}
    (hattempt : job.getOutput (workRange partSize i) attempt = .response data treeHash) :
    downloadChunk sha256 job partSize i attempt =
      if sameHash job.version treeHash (dataHash sha256 data) then
        some (goodResult sha256 partSize i data)
      else none := by
  rw [downloadChunk, hattempt, Attempt.response?, Option.bind_eq_bind, Option.bind_some]
  dsimp only
  rw [treeHash_chunkHashes, toOption_ok, Option.bind_eq_bind, Option.bind_some, dataHash,
    goodResult]

theorem downloadChunk_py3 (hpy3 : job.version = .py3) (i attempt : ℕ) :
    downloadChunk sha256 job partSize i attempt = none := by
  cases hattempt : job.getOutput (workRange partSize i) attempt with
  | raised retryable => exact downloadChunk_of_raised hattempt
  | response data treeHash =>
      rw [downloadChunk_of_response hattempt, hpy3]
      exact if_neg Bool.false_ne_true

theorem processChunk_py3 (hpy3 : job.version = .py3) (i left first : ℕ) :
    processChunk sha256 job partSize i left first = .exception := by
  induction left generalizing first with
  | zero => rfl
  | succ left ih =>
      rw [processChunk, downloadChunk_py3 hpy3, Option.getD_none]
      exact ih _

section

variable (hpy2 : job.version = .py2)

include hpy2

theorem downloadChunk_of_meets {i attempt : ℕ} {data : Bytes}
    (hmeets : Meets sha256 job partSize i attempt data) :
    downloadChunk sha256 job partSize i attempt = some (goodResult sha256 partSize i data) := by
  rw [downloadChunk_of_response hmeets, hpy2]
  exact if_pos (sameHash_py2.mpr rfl)

theorem downloadChunk_of_not_meets {i attempt : ℕ}
    (hmeets : ∀ data, ¬Meets sha256 job partSize i attempt data) :
    downloadChunk sha256 job partSize i attempt = none := by
  cases hattempt : job.getOutput (workRange partSize i) attempt with
  | raised retryable => exact downloadChunk_of_raised hattempt
  | response data treeHash =>
      rw [downloadChunk_of_response hattempt, hpy2]
      refine if_neg fun hsame => hmeets data ?_
      rw [Meets, hattempt, sameHash_py2.mp hsame]

/-- A worker puts the first data that comes with its hash, or an exception. -/
theorem processChunk_cases (i left first : ℕ) :
    (∀ attempt, first ≤ attempt → attempt < first + left →
        ∀ data, ¬Meets sha256 job partSize i attempt data) ∧
      processChunk sha256 job partSize i left first = .exception ∨
    ∃ attempt data, first ≤ attempt ∧ attempt < first + left ∧
      Meets sha256 job partSize i attempt data ∧
      (∀ before, first ≤ before → before < attempt →
        ∀ data, ¬Meets sha256 job partSize i before data) ∧
      processChunk sha256 job partSize i left first = goodResult sha256 partSize i data := by
  induction left generalizing first with
  | zero => exact .inl ⟨fun attempt hle hlt => absurd hlt (by omega), rfl⟩
  | succ left ih =>
      by_cases hfirst : ∃ data, Meets sha256 job partSize i first data
      · obtain ⟨data, hmeets⟩ := hfirst
        refine .inr ⟨first, data, le_rfl, by omega, hmeets, fun before hle hlt => by omega, ?_⟩
        rw [processChunk, downloadChunk_of_meets hpy2 hmeets]
        rfl
      · have hnot := not_exists.mp hfirst
        have hat : ∀ attempt, first ≤ attempt → ¬first + 1 ≤ attempt →
            ∀ data, ¬Meets sha256 job partSize i attempt data := fun attempt hle hlater => by
          obtain rfl : attempt = first := by omega
          exact hnot
        rw [processChunk, downloadChunk_of_not_meets hpy2 hnot, Option.getD_none]
        rcases ih (first + 1) with
          ⟨hnone, heq⟩ | ⟨attempt, data, hle, hlt, hmeets, hbefore, heq⟩
        · refine .inl ⟨fun attempt hle hlt => ?_, heq⟩
          by_cases hlater : first + 1 ≤ attempt
          · exact hnone attempt hlater (by omega)
          · exact hat attempt hle hlater
        · refine .inr ⟨attempt, data, by omega, by omega, hmeets, fun before hle hlt => ?_, heq⟩
          by_cases hlater : first + 1 ≤ before
          · exact hbefore before hlater hlt
          · exact hat before hle hlater

theorem processChunk_of_goodPart {i : ℕ} {data : Bytes}
    (hgood : GoodPart sha256 job partSize i data) :
    processChunk sha256 job partSize i maxAttempts 0 = goodResult sha256 partSize i data := by
  obtain ⟨attempt, hlt, hmeets, hbefore⟩ := hgood
  rcases @processChunk_cases sha256 job partSize hpy2 i maxAttempts 0 with
    ⟨hnone, -⟩ | ⟨attempt', data', -, hlt', hmeets', hbefore', heq⟩
  · exact absurd hmeets (hnone attempt (Nat.zero_le _) (by omega) data)
  · obtain rfl : attempt' = attempt := by
      by_contra hdiffer
      rcases Nat.lt_or_gt_of_ne hdiffer with hless | hgreater
      · exact hbefore attempt' hless data' hmeets'
      · exact hbefore' attempt (Nat.zero_le _) hgreater data hmeets
    rw [heq, (Attempt.response.inj (hmeets.symm.trans hmeets')).1]

theorem goodPart_of_processChunk {i : ℕ}
    (hresult : processChunk sha256 job partSize i maxAttempts 0 ≠ .exception) :
    ∃ data, GoodPart sha256 job partSize i data := by
  rcases @processChunk_cases sha256 job partSize hpy2 i maxAttempts 0 with
    ⟨-, heq⟩ | ⟨attempt, data, -, hlt, hmeets, hbefore, -⟩
  · exact absurd heq hresult
  · exact ⟨data, attempt, by omega, hmeets, fun before hlt => hbefore before (Nat.zero_le _) hlt⟩

end

theorem not_goodPart_of_corruptedPart {i : ℕ} (hcorrupted : CorruptedPart sha256 job partSize i)
    (data : Bytes) : ¬GoodPart sha256 job partSize i data := by
  rintro ⟨attempt, hlt, hmeets, -⟩
  exact hcorrupted.1 attempt hlt data hmeets

theorem not_goodPart_of_failingPart {i : ℕ} (hfailing : FailingPart job partSize i)
    (data : Bytes) : ¬GoodPart sha256 job partSize i data := by
  rintro ⟨attempt, hlt, hmeets, -⟩
  obtain ⟨retryable, hraised⟩ := hfailing attempt hlt
  cases hmeets.symm.trans hraised

theorem eq_rangeOf_of_goodPart (hcorrect : IsCorrect sha256 archive job) {i : ℕ} {data : Bytes}
    (hgood : GoodPart sha256 job partSize i data) :
    data = rangeOf archive (workRange partSize i) := by
  obtain ⟨attempt, -, hmeets, -⟩ := hgood
  exact (Attempt.response.inj (hmeets.symm.trans (hcorrect.output _ attempt))).1

theorem goodPart_of_isCorrect (hcorrect : IsCorrect sha256 archive job) (i : ℕ) :
    GoodPart sha256 job partSize i (rangeOf archive (workRange partSize i)) :=
  ⟨0, by decide, hcorrect.output _ 0, fun before hlt => absurd hlt (Nat.not_lt_zero before)⟩

/-! ## The loop of the main thread -/

/-- The loop collects as many results as it waits for, unless one is an exception. -/
theorem waitLoop_eq (results : List PartResult) (left : ℕ) (collected : Collected) :
    waitLoop results left collected =
      if .exception ∈ results.take left then some (.error .downloadArchive)
      else if results.length < left then none
      else some (.ok ((results.take left).foldl Collected.add collected)) := by
  induction results generalizing left collected with
  | nil =>
      cases left with
      | zero => simp [waitLoop]
      | succ left => simp [waitLoop]
  | cons result results ih =>
      cases left with
      | zero => simp [waitLoop]
      | succ left =>
          cases result with
          | exception => simp [waitLoop]
          | part partNumber partSize actualHash data =>
              rw [waitLoop, ih, List.take_succ_cons, List.foldl_cons]
              · simp only [List.mem_cons, reduceCtorEq, false_or, List.length_cons,
                  Nat.add_lt_add_iff_right]
              · intro heq
                cases heq

/-- The results of good parts, collected in their order. -/
theorem foldl_add_good (data : ℕ → Bytes) (delivered : List ℕ) (collected : Collected) :
    (delivered.map fun i => goodResult sha256 partSize i (data i)).foldl Collected.add collected =
      { file := delivered.foldl (fun file i =>
          Files.File.write 0 (data i) { file with pos := i * partSize }) collected.file
        hashChunks := delivered.foldl (fun hashes i =>
          hashes.set i (some (partDigest sha256 megabyte (data i)))) collected.hashChunks } := by
  induction delivered generalizing collected with
  | nil => rfl
  | cons i delivered ih =>
      rw [List.map_cons, List.foldl_cons, ih]
      rfl

theorem getElem?_foldl_set {β : Type} (value : ℕ → β) (order : List ℕ) (xs : List β) (j : ℕ) :
    (order.foldl (fun xs i => xs.set i (value i)) xs)[j]? =
      if j ∈ order then (xs[j]?).map fun _ => value j else xs[j]? := by
  induction order generalizing xs with
  | nil => simp
  | cons i order ih =>
      rw [List.foldl_cons, ih, List.getElem?_set]
      by_cases hij : i = j
      · subst hij
        by_cases hlt : i < xs.length
        · simp [hlt]
        · simp [hlt]
      · have hne : j ≠ i := fun heq => hij heq.symm
        simp [hij, hne]

/-- Hashes that are recorded in any order. -/
theorem foldl_set_perm {β : Type} (value : ℕ → β) {order : List ℕ}
    (horder : order.Perm (List.range total)) :
    order.foldl (fun xs i => xs.set i (some (value i))) (List.replicate total none) =
      (List.range total).map fun i => some (value i) := by
  refine List.ext_getElem? fun j => ?_
  rw [getElem?_foldl_set fun i => some (value i), List.getElem?_map]
  by_cases hj : j < total
  · have hin : j ∈ order := horder.mem_iff.mpr (List.mem_range.mpr hj)
    simp [hin, hj]
  · have hnot : j ∉ order := fun hin => hj (List.mem_range.mp (horder.mem_iff.mp hin))
    simp [hnot, hj]

theorem treeHashOfChunks_some (hashes : List Bytes) :
    Concurrent.treeHashOfChunks sha256 (hashes.map some) = Glacier.treeHash sha256 hashes := by
  have hany : (hashes.map some).any Option.isNone = false := by simp
  have hall : (hashes.map some).filterMap id = hashes := by
    rw [List.filterMap_map]
    exact List.filterMap_some
  rw [Concurrent.treeHashOfChunks, hany, hall]
  exact if_neg Bool.false_ne_true

/-! ## What is claimed of a download -/

/-- Data that matches the hash reported with it, for every part, and the hash of the job
together, is the archive's. -/
def Detects (sha256 : Bytes → Bytes) (job : Job) (archive : Bytes) (partSize total : ℕ) : Prop :=
  ∀ (data : ℕ → Bytes) (hash : Bytes),
    (∀ i < total, GoodPart sha256 job partSize i (data i)) →
      Glacier.treeHash sha256
          ((List.range total).map fun i => partDigest sha256 megabyte (data i)) = .ok hash →
        bytesToHex hash = job.sha256Treehash →
          ∀ i < total, data i = rangeOf archive (workRange partSize i)

/-- What a download by workers should give: the archive or a failure, an exception of its
own when a part is corrupted or keeps failing, and the archive from a correct service. -/
structure RightDownload (sha256 : Bytes → Bytes) (job : Job) (archive : Bytes)
    (partSize total : ℕ) (result : Except DownloadError Bytes) : Prop where
  output : ∀ written, result = .ok written → written = archive
  corrupted : (∃ i < total, CorruptedPart sha256 job partSize i) →
    result = .error .treeHashDoesNotMatch ∨ result = .error .downloadArchive
  keepsFailing : (∃ i < total, FailingPart job partSize i) → result = .error .downloadArchive
  succeeds : IsCorrect sha256 archive job → ∃ written, result = .ok written

variable {threads : ℕ} {pool : Pool ℕ} {result : Except DownloadError Bytes}

/-- Either some result is an exception, or all parts are collected. -/
theorem download_cases (hreach : Reachable threads (List.range total) pool)
    (hresult : download sha256 job total partSize pool.delivered = some result) :
    (∃ i ∈ pool.delivered,
        processChunk sha256 job partSize i maxAttempts 0 = .exception) ∧
      result = .error .downloadArchive ∨
    pool.delivered.Perm (List.range total) ∧
      (∀ i < total, processChunk sha256 job partSize i maxAttempts 0 ≠ .exception) ∧
      result = checkHash sha256 job
        ((pool.delivered.map fun i => processChunk sha256 job partSize i maxAttempts 0).foldl
          Collected.add ⟨⟨[], 0⟩, List.replicate total none⟩) := by
  have hsubperm := hreach.delivered_subperm
  have hlength := hsubperm.length_le
  rw [List.length_range] at hlength
  rw [download] at hresult
  rw [waitLoop_eq, List.take_of_length_le (by rwa [List.length_map])] at hresult
  split at hresult
  · rename_i hin
    obtain ⟨i, hi, heq⟩ := List.mem_map.mp hin
    exact .inl ⟨⟨i, hi, heq⟩, (Option.some.inj hresult).symm⟩
  · rename_i hnone
    split at hresult
    · cases hresult
    · rename_i hall
      rw [List.length_map] at hall
      have hperm := hsubperm.perm_of_length_le (by rw [List.length_range]; omega)
      refine .inr ⟨hperm, fun i hi heq => hnone ?_, (Option.some.inj hresult).symm⟩
      rw [← heq]
      exact List.mem_map_of_mem (hperm.mem_iff.mpr (List.mem_range.mpr hi))

/-- A run in which nothing is left to do has a result. -/
theorem download_isSome (hreach : Reachable threads (List.range total) pool)
    (hdone : pool.IsDone) :
    (download sha256 job total partSize pool.delivered).isSome = true := by
  have hlength := (hreach.delivered_perm hdone).length_eq
  rw [List.length_range] at hlength
  rw [download, waitLoop_eq]
  split
  · rfl
  · rw [if_neg (by rw [List.length_map]; omega)]
    rfl

/-! ## Python 3 -/

theorem download_py3 (hpy3 : job.version = .py3) (htotal : 0 < total)
    (hreach : Reachable threads (List.range total) pool)
    (hresult : download sha256 job total partSize pool.delivered = some result) :
    result = .error .downloadArchive := by
  rcases download_cases hreach hresult with ⟨-, heq⟩ | ⟨-, hgood, -⟩
  · exact heq
  · exact absurd (processChunk_py3 hpy3 0 _ _) (hgood 0 htotal)

/-! ## Python 2 -/

section

variable (hpy2 : job.version = .py2)

include hpy2

/-- The result when all parts are good. -/
theorem checkHash_good {data : ℕ → Bytes} {hash : Bytes}
    (hperm : pool.delivered.Perm (List.range total))
    (hgood : ∀ i < total, GoodPart sha256 job partSize i (data i))
    (hhash : Glacier.treeHash sha256
      ((List.range total).map fun i => partDigest sha256 megabyte (data i)) = .ok hash) :
    checkHash sha256 job
        ((pool.delivered.map fun i => processChunk sha256 job partSize i maxAttempts 0).foldl
          Collected.add ⟨⟨[], 0⟩, List.replicate total none⟩) =
      if some job.sha256Treehash = some (bytesToHex hash) then
        .ok (pool.delivered.foldl (fun file i =>
          Files.File.write 0 (data i) { file with pos := i * partSize }) ⟨[], 0⟩).content
      else .error .treeHashDoesNotMatch := by
  have hresults : (pool.delivered.map fun i =>
      processChunk sha256 job partSize i maxAttempts 0) =
        pool.delivered.map fun i => goodResult sha256 partSize i (data i) :=
    List.map_congr_left fun i hi =>
      processChunk_of_goodPart hpy2 (hgood i (List.mem_range.mp (hperm.mem_iff.mp hi)))
  have hchunks : Concurrent.treeHashOfChunks sha256 ((List.range total).map fun i =>
      some (partDigest sha256 megabyte (data i))) = .ok hash := by
    rw [← hhash, ← treeHashOfChunks_some, List.map_map]
    rfl
  rw [hresults, foldl_add_good, checkHash]
  dsimp only
  rw [foldl_set_perm (fun i => partDigest sha256 megabyte (data i)) hperm, hchunks, hashed,
    ok_bind, hpy2]
  simp only [sameHash_py2]

end

/-- The archive's own parts make the archive. -/
theorem content_parts (hsize : 0 < partSize) (htotal : total = archive.length ⌈/⌉ partSize)
    (hperm : pool.delivered.Perm (List.range total)) {data : ℕ → Bytes}
    (hdata : ∀ i < total, data i = rangeOf archive (workRange partSize i)) :
    (pool.delivered.foldl (fun file i =>
      Files.File.write 0 (data i) { file with pos := i * partSize }) ⟨[], 0⟩).content =
        archive := by
  have hblocks : pool.delivered.foldl (fun file i =>
      Files.File.write 0 (data i) { file with pos := i * partSize }) ⟨[], 0⟩ =
        pool.delivered.foldl (writeBlock 0 partSize archive) ⟨[], 0⟩ := by
    refine List.foldl_ext _ _ _ fun file i hi => ?_
    rw [writeBlock, hdata i (List.mem_range.mp (hperm.mem_iff.mp hi)), workRange_eq,
      rangeOf_chunk archive hsize]
  rw [hblocks]
  exact content_writeBlocks hsize (htotal ▸ hperm)

/-- The hash of the archive's own parts is that of the archive. -/
theorem treeHash_parts (hne : archive ≠ []) {k : ℕ} (hsize : partSize = megabyte * 2 ^ k)
    (htotal : total = archive.length ⌈/⌉ partSize) :
    Glacier.treeHash sha256 ((List.range total).map fun i =>
      partDigest sha256 megabyte (rangeOf archive (workRange partSize i))) =
        .ok (partDigest sha256 megabyte archive) := by
  have hmegabyte : 0 < megabyte := by decide
  have hpos : 0 < partSize := hsize ▸ Nat.mul_pos hmegabyte (Nat.two_pow_pos k)
  have hparts : ((List.range total).map fun i =>
      partDigest sha256 megabyte (rangeOf archive (workRange partSize i))) =
        (cut partSize archive).map (partDigest sha256 megabyte) := by
    rw [cut, List.map_map, htotal]
    refine List.map_congr_left fun i _ => ?_
    rw [workRange_eq, rangeOf_chunk archive hpos, Function.comp_apply]
  rw [hparts, hsize]
  exact treeHash_map_partDigest sha256 hne hmegabyte k

theorem right_py2 (hpy2 : job.version = .py2) (hne : archive ≠ []) {k : ℕ} (hsize : partSize = megabyte * 2 ^ k)
    (htotal : total = archive.length ⌈/⌉ partSize)
    (hdetects : Detects sha256 job archive partSize total)
    (hreach : Reachable threads (List.range total) pool)
    (hresult : download sha256 job total partSize pool.delivered = some result) :
    RightDownload sha256 job archive partSize total result := by
  have hpos : 0 < partSize := hsize ▸ Nat.mul_pos (by decide) (Nat.two_pow_pos k)
  rcases download_cases hreach hresult with ⟨⟨i, hi, hfailed⟩, rfl⟩ | ⟨hperm, hgood, heq⟩
  · refine ⟨fun written hok => ?_, fun _ => .inr rfl, fun _ => rfl, fun hcorrect => ?_⟩
    · cases hok
    · rw [processChunk_of_goodPart hpy2 (goodPart_of_isCorrect hcorrect i)] at hfailed
      cases hfailed
  · have hall : ∀ i < total, ∃ data, GoodPart sha256 job partSize i data :=
      fun i hi => goodPart_of_processChunk hpy2 (hgood i hi)
    have hsome : ∀ i, ∃ data, i < total → GoodPart sha256 job partSize i data := by
      intro i
      by_cases hi : i < total
      · obtain ⟨data, hdata⟩ := hall i hi
        exact ⟨data, fun _ => hdata⟩
      · exact ⟨[], fun hlt => absurd hlt hi⟩
    obtain ⟨data, hdata⟩ := Classical.skolem.mp hsome
    have hparts : (List.range total).map (fun i => partDigest sha256 megabyte (data i)) ≠ [] := by
      rw [ne_eq, List.map_eq_nil_iff, List.range_eq_nil, htotal]
      exact Nat.pos_iff_ne_zero.mp ((lt_ceilDiv_iff hpos).mpr
        (by rw [Nat.zero_mul]; exact List.length_pos_iff.mpr hne))
    obtain ⟨hash, hhash⟩ := exists_treeHash_eq_ok sha256 hparts
    have hchecked := checkHash_good hpy2 hperm hdata hhash
    rw [hchecked] at heq
    refine ⟨fun written hok => ?_, ?_, ?_, fun hcorrect => ?_⟩
    · rw [heq] at hok
      split at hok
      · rename_i hsame
        have horigin := hdetects data hash hdata hhash (Option.some.inj hsame).symm
        rw [← Except.ok.inj hok]
        exact content_parts hpos htotal hperm horigin
      · cases hok
    · rintro ⟨i, hi, hcorrupted⟩
      obtain ⟨data, hdata⟩ := hall i hi
      exact absurd hdata (not_goodPart_of_corruptedPart hcorrupted data)
    · rintro ⟨i, hi, hfailing⟩
      obtain ⟨data, hdata⟩ := hall i hi
      exact absurd hdata (not_goodPart_of_failingPart hfailing data)
    · have hown : ∀ i < total, data i = rangeOf archive (workRange partSize i) :=
        fun i hi => eq_rangeOf_of_goodPart hcorrect (hdata i hi)
      have hwhole := @treeHash_parts sha256 archive partSize total hne k hsize htotal
      have hdigest : hash = partDigest sha256 megabyte archive := by
        refine Except.ok.inj (hhash.symm.trans (Eq.trans ?_ hwhole))
        refine congrArg _ (List.map_congr_left fun i hi => ?_)
        rw [hown i (List.mem_range.mp hi)]
      rw [if_pos (by rw [hcorrect.treeHash, hdigest, dataHash])] at heq
      exact ⟨_, heq⟩

/-- When a download by workers is right. -/
theorem rightDownload_iff (hne : archive ≠ []) {k : ℕ} (hsize : partSize = megabyte * 2 ^ k)
    (htotal : total = archive.length ⌈/⌉ partSize)
    (hdetects : Detects sha256 job archive partSize total)
    (hreach : Reachable threads (List.range total) pool)
    (hresult : download sha256 job total partSize pool.delivered = some result) :
    RightDownload sha256 job archive partSize total result ↔
      (job.version = .py3 → ¬IsCorrect sha256 archive job) := by
  cases hversion : job.version with
  | py2 =>
      refine iff_of_true (right_py2 hversion hne hsize htotal hdetects hreach hresult) ?_
      intro hpy3
      cases hpy3
  | py3 =>
      have hpos : 0 < partSize := hsize ▸ Nat.mul_pos (by decide) (Nat.two_pow_pos k)
      have hparts : 0 < total := by
        rw [htotal, lt_ceilDiv_iff hpos, Nat.zero_mul]
        exact List.length_pos_iff.mpr hne
      obtain rfl := download_py3 hversion hparts hreach hresult
      constructor
      · intro hright _ hcorrect
        obtain ⟨written, hok⟩ := hright.succeeds hcorrect
        cases hok
      · intro hcorrect
        refine ⟨fun written hok => ?_, fun _ => .inr rfl, fun _ => rfl,
          fun hright => absurd hright (hcorrect rfl)⟩
        cases hok

end Boto.Glacier.Download

/-!
## Downloads of archives

In Python 2 a download by workers gives the archive or fails as it should, whatever the
number of workers and the order of the parts.  A download by a job takes chunks that match
their own hashes for the archive.  In Python 3 no download succeeds.
-/

namespace Boto.Glacier.Download

open WorkerPool

variable {sha256 : Bytes → Bytes} {job : Job} {archive : Bytes}

/-- The parts of a download by workers. -/
theorem calculateRequiredPartSize_eq {version : PyVersion} {k totalSize total partSize : ℕ}
    (hparts : Concurrent.calculateRequiredPartSize version (megabyte * 2 ^ k) totalSize =
      .ok (total, partSize)) :
    total = totalSize ⌈/⌉ partSize ∧ ∃ j, partSize = megabyte * 2 ^ j := by
  rw [Concurrent.calculateRequiredPartSize] at hparts
  obtain ⟨required, hrequired, hparts⟩ := except_bind_eq_ok.mp hparts
  obtain ⟨j, hj⟩ := minimumPartSize_eq hrequired
  have hpair := Except.ok.inj hparts
  rw [Prod.mk.injEq] at hpair
  obtain ⟨htotal, hsize⟩ := hpair
  refine ⟨htotal.symm.trans (by rw [hsize]), ?_⟩
  rw [← hsize]
  split
  · exact ⟨k, rfl⟩
  · exact ⟨j, hj⟩

theorem detects_of_isCorrect (hcorrect : IsCorrect sha256 archive job) (partSize total : ℕ) :
    Detects sha256 job archive partSize total :=
  fun _ _ hgood _ _ i hi => eq_rangeOf_of_goodPart hcorrect (hgood i hi)

/-- When the downloads of an archive are right. -/
theorem downloads_right_iff (hne : archive ≠ []) (hsize : job.archiveSize = archive.length)
    (k : ℕ) :
    (Job.Right sha256 job archive (megabyte * 2 ^ k)
        (job.downloadToFileobj sha256 (megabyte * 2 ^ k)) ↔
      Job.DownloadsRight sha256 job archive (megabyte * 2 ^ k)) ∧
    ∀ total partSize, Concurrent.calculateRequiredPartSize job.version (megabyte * 2 ^ k)
        job.archiveSize = .ok (total, partSize) →
      Detects sha256 job archive partSize total →
        ∀ threads pool, Reachable threads (List.range total) pool →
          (0 < threads → ∃ pool', Relation.ReflTransGen Step pool pool' ∧ pool'.IsDone) ∧
          (pool.IsDone →
            (download sha256 job total partSize pool.delivered).isSome = true) ∧
          ∀ result, download sha256 job total partSize pool.delivered = some result →
            (RightDownload sha256 job archive partSize total result ↔
              (job.version = .py3 → ¬IsCorrect sha256 archive job)) := by
  have hlength : 0 < archive.length := List.length_pos_iff.mpr hne
  refine ⟨Job.right_iff ?_, fun total partSize hparts hdetects threads pool hreach => ?_⟩
  · rw [Job.calcNumChunks, hsize,
      Blocks.lt_ceilDiv_iff (Nat.mul_pos (by decide) (Nat.two_pow_pos k)), Nat.zero_mul]
    exact hlength
  · obtain ⟨htotal, j, hj⟩ := calculateRequiredPartSize_eq hparts
    rw [hsize] at htotal
    exact ⟨fun hthreads => hreach.exists_done hthreads, download_isSome hreach,
      fun result hresult => rightDownload_iff hne hj htotal hdetects hreach hresult⟩

/-- A job of a correct service for an archive. -/
def correctJob (version : PyVersion) (sha256 : Bytes → Bytes) (archive : Bytes) : Job where
  version := version
  archiveSize := archive.length
  sha256Treehash := dataHash sha256 archive
  getOutput := fun byteRange _ =>
    .response (rangeOf archive byteRange) (some (dataHash sha256 (rangeOf archive byteRange)))

theorem isCorrect_correctJob (version : PyVersion) (sha256 : Bytes → Bytes) (archive : Bytes) :
    IsCorrect sha256 archive (correctJob version sha256 archive) where
  output := fun _ _ => rfl
  treeHash := rfl

theorem downloads_right_correct : ∃ total partSize,
    Concurrent.calculateRequiredPartSize .py2 (megabyte * 2 ^ 0) 1 = .ok (total, partSize) ∧
    Job.Right id (correctJob .py2 id [7]) [7] (megabyte * 2 ^ 0)
      ((correctJob .py2 id [7]).downloadToFileobj id (megabyte * 2 ^ 0)) ∧
    ∃ pool result, Reachable 2 (List.range total) pool ∧
      download id (correctJob .py2 id [7]) total partSize pool.delivered = some result ∧
      RightDownload id (correctJob .py2 id [7]) [7] partSize total result := by
  have hcorrect := isCorrect_correctJob .py2 id [7]
  obtain ⟨hjob, hworkers⟩ :=
    @downloads_right_iff id (correctJob .py2 id [7]) [7] (List.cons_ne_nil _ _) rfl 0
  obtain ⟨⟨total, partSize⟩, hparts⟩ : ∃ parts,
      Concurrent.calculateRequiredPartSize .py2 (megabyte * 2 ^ 0) 1 = .ok parts := ⟨_, rfl⟩
  have hruns := hworkers total partSize hparts (detects_of_isCorrect hcorrect _ _) 2
  obtain ⟨pool, hreach, hdone⟩ := (hruns _ .refl).1 (by decide)
  obtain ⟨-, hsome, hright⟩ := hruns pool hreach
  obtain ⟨result, hresult⟩ := Option.isSome_iff_exists.mp (hsome hdone)
  refine ⟨total, partSize, hparts, hjob.mpr ?_, pool, result, hreach, hresult,
    (hright result hresult).mpr fun hpy3 => ?_⟩
  · exact Job.tellsTruth_of_isCorrect (by decide) rfl hcorrect
  · cases hpy3

/-- In Python 3 the download of an archive from a correct service fails. -/
theorem downloads_wrong_py3 : ¬∀ (sha256 : Bytes → Bytes) (job : Job) (archive : Bytes) (k : ℕ),
    archive ≠ [] → job.archiveSize = archive.length →
      Job.Right sha256 job archive (megabyte * 2 ^ k)
        (job.downloadToFileobj sha256 (megabyte * 2 ^ k)) := by
  intro hclaim
  have hright := hclaim id (correctJob .py3 id [7]) [7] 0 (List.cons_ne_nil _ _) rfl
  have hcondition := (Job.right_iff (by decide)).mp hright
  exact hcondition.1 (isCorrect_correctJob .py3 id [7])

end Boto.Glacier.Download
