import Boto.Glacier.Download.Model

/-!
# Downloads by a job

A job never compares the hash of the whole archive, and in Python 3 it takes every hash for
another one.
-/

namespace Boto.Glacier.Download.Job

open Blocks

variable {sha256 : Bytes → Bytes} {job : Job} {archive : Bytes} {chunkSize : ℕ}

/-! ## One chunk -/

/-- The range of a chunk comes with its hash. -/
def GoodChunk (sha256 : Bytes → Bytes) (job : Job) (chunkSize i : ℕ) : Prop :=
  ∃ data, Good sha256 job (chunkRange chunkSize i) data

theorem downloadChunk_of_keepsFailing {i : ℕ} {written : Bytes}
    (hfailing : job.KeepsFailing (chunkRange chunkSize i)) :
    job.downloadChunk sha256 chunkSize written i = .error (exhausted job.version) := by
  rw [downloadChunk, downloadByteRange_of_keepsFailing hfailing]
  rfl

theorem downloadChunk_of_raised {i : ℕ} {written : Bytes} {retryable : Bool}
    (hanswer : job.Answers (chunkRange chunkSize i) (.raised retryable)) :
    job.downloadChunk sha256 chunkSize written i = .error .raised := by
  rw [downloadChunk, downloadByteRange_of_answers hanswer]
  rfl

theorem downloadChunk_of_response {i : ℕ} {written data : Bytes} {treeHash : Option Text}
    (hanswer : job.Answers (chunkRange chunkSize i) (.response data treeHash)) :
    job.downloadChunk sha256 chunkSize written i =
      if sameHash job.version treeHash (dataHash sha256 data) then .ok (written ++ data)
      else .error .treeHashDoesNotMatch := by
  rw [downloadChunk, downloadByteRange_of_answers hanswer, answered, ok_bind]
  dsimp only
  rw [treeHashFromStr_eq, hashed, ok_bind]

theorem downloadChunk_corrupted {i : ℕ} {written data : Bytes} {treeHash : Option Text}
    (hanswer : job.Answers (chunkRange chunkSize i) (.response data treeHash))
    (hhash : treeHash ≠ some (dataHash sha256 data)) :
    job.downloadChunk sha256 chunkSize written i = .error .treeHashDoesNotMatch := by
  rw [downloadChunk_of_response hanswer, if_neg]
  cases hversion : job.version with
  | py2 => exact fun hsame => hhash (sameHash_py2.mp hsame)
  | py3 => exact Bool.false_ne_true

/-- A chunk is good, is corrupted, keeps failing, or meets an exception that is passed on. -/
theorem chunk_cases (sha256 : Bytes → Bytes) (job : Job) (chunkSize i : ℕ) :
    GoodChunk sha256 job chunkSize i ∨ Corrupted sha256 job (chunkRange chunkSize i) ∨
      job.KeepsFailing (chunkRange chunkSize i) ∨
        ∃ retryable, job.Answers (chunkRange chunkSize i) (.raised retryable) := by
  rcases job.keepsFailing_or_answers (chunkRange chunkSize i) with hfailing | ⟨answer, hanswer⟩
  · exact .inr (.inr (.inl hfailing))
  · cases answer with
    | raised retryable => exact .inr (.inr (.inr ⟨retryable, hanswer⟩))
    | response data treeHash =>
        by_cases hhash : treeHash = some (dataHash sha256 data)
        · subst hhash
          exact .inl ⟨data, hanswer⟩
        · exact .inr (.inl ⟨data, treeHash, hanswer, hhash⟩)

/-! ## All chunks -/

section

variable (hpy2 : job.version = .py2)

include hpy2

theorem downloadChunk_good {i : ℕ} {written data : Bytes}
    (hgood : Good sha256 job (chunkRange chunkSize i) data) :
    job.downloadChunk sha256 chunkSize written i = .ok (written ++ data) := by
  rw [downloadChunk_of_response hgood, hpy2, if_pos (sameHash_py2.mpr rfl)]

/-- Good chunks are written one after the other. -/
theorem foldlM_good {data : ℕ → Bytes} {chunks : List ℕ} {written : Bytes}
    (hgood : ∀ i ∈ chunks, Good sha256 job (chunkRange chunkSize i) (data i)) :
    chunks.foldlM (job.downloadChunk sha256 chunkSize) written =
      .ok (written ++ (chunks.map data).flatten) := by
  induction chunks generalizing written with
  | nil =>
      rw [List.map_nil, List.flatten_nil, List.append_nil]
      rfl
  | cons i chunks ih =>
      rw [List.foldlM_cons, downloadChunk_good hpy2 (hgood i List.mem_cons_self)]
      change chunks.foldlM (job.downloadChunk sha256 chunkSize) (written ++ data i) = _
      rw [ih fun j hj => hgood j (List.mem_cons_of_mem _ hj), List.map_cons,
        List.flatten_cons, List.append_assoc]

end

/-- The first chunk that fails is what the download fails with. -/
theorem foldlM_error {error : DownloadError} {before after : List ℕ} {i : ℕ} {written : Bytes}
    {data : ℕ → Bytes} (hpy2 : job.version = .py2)
    (hgood : ∀ j ∈ before, Good sha256 job (chunkRange chunkSize j) (data j))
    (herror : ∀ written, job.downloadChunk sha256 chunkSize written i = .error error) :
    (before ++ i :: after).foldlM (job.downloadChunk sha256 chunkSize) written =
      .error error := by
  rw [List.foldlM_append, foldlM_good hpy2 hgood]
  change (i :: after).foldlM (job.downloadChunk sha256 chunkSize) _ = _
  rw [List.foldlM_cons, herror]
  rfl

theorem range_eq_append {n i : ℕ} (hi : i < n) :
    ∃ after, List.range n = List.range i ++ i :: after := by
  refine ⟨(List.range n).drop (i + 1), ?_⟩
  have hsplit := List.take_append_drop i (List.range n)
  rw [List.take_range, Nat.min_eq_left hi.le,
    List.drop_eq_getElem_cons (by simpa using hi), List.getElem_range] at hsplit
  exact hsplit.symm

/-! ## What is claimed of a download -/

/-- What a download by a job should give: the archive or a failure, an exception of its own
for the first range that is corrupted or keeps failing, and the archive from a correct
service. -/
structure Right (sha256 : Bytes → Bytes) (job : Job) (archive : Bytes) (chunkSize : ℕ)
    (result : Except DownloadError Bytes) : Prop where
  output : ∀ written, result = .ok written → written = archive
  corrupted : ∀ i < job.calcNumChunks chunkSize,
    (∀ j < i, GoodChunk sha256 job chunkSize j) →
      Corrupted sha256 job (chunkRange chunkSize i) →
        result = .error .treeHashDoesNotMatch ∨ result = .error .downloadArchive
  keepsFailing : ∀ i < job.calcNumChunks chunkSize,
    (∀ j < i, GoodChunk sha256 job chunkSize j) →
      job.KeepsFailing (chunkRange chunkSize i) → result = .error .downloadArchive
  succeeds : IsCorrect sha256 archive job → ∃ written, result = .ok written

/-- Chunks that all come with their hashes make the archive. -/
def TellsTruth (sha256 : Bytes → Bytes) (job : Job) (archive : Bytes) (chunkSize : ℕ) : Prop :=
  ∀ data : ℕ → Bytes,
    (∀ i < job.calcNumChunks chunkSize, Good sha256 job (chunkRange chunkSize i) (data i)) →
      ((List.range (job.calcNumChunks chunkSize)).map data).flatten = archive

/-- The condition under which a download by a job is right. -/
def DownloadsRight (sha256 : Bytes → Bytes) (job : Job) (archive : Bytes) (chunkSize : ℕ) :
    Prop :=
  match job.version with
  | .py2 => TellsTruth sha256 job archive chunkSize
  | .py3 => ¬IsCorrect sha256 archive job ∧
      ∀ i < job.calcNumChunks chunkSize, (∀ j < i, GoodChunk sha256 job chunkSize j) →
        ¬job.KeepsFailing (chunkRange chunkSize i)

/-! ## Python 2 -/

theorem tellsTruth_of_isCorrect (hsize : 0 < chunkSize)
    (harchive : job.archiveSize = archive.length) (hcorrect : IsCorrect sha256 archive job) :
    TellsTruth sha256 job archive chunkSize := by
  intro data hdata
  have hranges : (List.range (job.calcNumChunks chunkSize)).map data = cut chunkSize archive := by
    rw [cut, calcNumChunks, harchive]
    refine List.map_congr_left fun i hi => ?_
    rw [← harchive] at hi
    have hunique := (hdata i (List.mem_range.mp hi)).unique
      (good_of_isCorrect hcorrect (chunkRange chunkSize i))
    have hdata := (Attempt.response.inj hunique).1
    rw [hdata, rangeOf_chunk archive hsize i]
  rw [hranges, flatten_cut hsize]

theorem right_of_py2 (hpy2 : job.version = .py2) :
    Right sha256 job archive chunkSize (job.downloadToFileobj sha256 chunkSize) ↔
      TellsTruth sha256 job archive chunkSize := by
  have hchoose : ∀ n, (∀ i < n, GoodChunk sha256 job chunkSize i) →
      ∃ data : ℕ → Bytes, ∀ i < n, Good sha256 job (chunkRange chunkSize i) (data i) := by
    intro n hgood
    have hsome : ∀ i, ∃ data, i < n → Good sha256 job (chunkRange chunkSize i) data := by
      intro i
      by_cases hi : i < n
      · obtain ⟨data, hdata⟩ := hgood i hi
        exact ⟨data, fun _ => hdata⟩
      · exact ⟨[], fun hlt => absurd hlt hi⟩
    exact Classical.skolem.mp hsome
  have hall : ∀ data : ℕ → Bytes, (∀ i < job.calcNumChunks chunkSize,
      Good sha256 job (chunkRange chunkSize i) (data i)) →
        job.downloadToFileobj sha256 chunkSize =
          .ok ((List.range (job.calcNumChunks chunkSize)).map data).flatten := by
    intro data hdata
    exact foldlM_good hpy2 fun i hi => hdata i (List.mem_range.mp hi)
  have hfails : ∀ i < job.calcNumChunks chunkSize, (∀ j < i, GoodChunk sha256 job chunkSize j) →
      ∀ error, (∀ written, job.downloadChunk sha256 chunkSize written i = .error error) →
        job.downloadToFileobj sha256 chunkSize = .error error := by
    intro i hi hgood error herror
    obtain ⟨data, hdata⟩ := hchoose i hgood
    obtain ⟨after, hrange⟩ := range_eq_append hi
    rw [downloadToFileobj, hrange]
    exact foldlM_error hpy2 (fun j hj => hdata j (List.mem_range.mp hj)) herror
  constructor
  · intro hright data hdata
    exact hright.output _ (hall data hdata)
  · intro htruth
    refine ⟨fun written hok => ?_, fun i hi hgood hcorrupted => .inl ?_,
      fun i hi hgood hfailing => ?_, fun hcorrect => ?_⟩
    · have hgood : ∀ i < job.calcNumChunks chunkSize, GoodChunk sha256 job chunkSize i := by
        intro i
        induction i using Nat.strongRecOn with
        | _ i ih =>
            intro hi
            have hbefore : ∀ j < i, GoodChunk sha256 job chunkSize j :=
              fun j hj => ih j hj (hj.trans hi)
            rcases chunk_cases sha256 job chunkSize i with
              hgood | ⟨data, treeHash, hanswer, hhash⟩ | hfailing | ⟨retryable, hraised⟩
            · exact hgood
            · have herror := hfails i hi hbefore _ fun written =>
                downloadChunk_corrupted hanswer hhash
              cases hok.symm.trans herror
            · have herror := hfails i hi hbefore _ fun written =>
                downloadChunk_of_keepsFailing hfailing
              cases hok.symm.trans herror
            · have herror := hfails i hi hbefore _ fun written =>
                downloadChunk_of_raised hraised
              cases hok.symm.trans herror
      obtain ⟨data, hdata⟩ := hchoose _ hgood
      rw [← htruth data hdata]
      exact Except.ok.inj (hok.symm.trans (hall data hdata))
    · obtain ⟨data, treeHash, hanswer, hhash⟩ := hcorrupted
      exact hfails i hi hgood _ fun written => downloadChunk_corrupted hanswer hhash
    · refine hfails i hi hgood _ fun written => ?_
      rw [downloadChunk_of_keepsFailing hfailing, hpy2]
      rfl
    · exact ⟨_, hall _ fun i _ => good_of_isCorrect hcorrect _⟩

/-! ## Python 3 -/

/-- A first chunk whose data comes is refused. -/
theorem downloadToFileobj_of_response (hpy3 : job.version = .py3) {data : Bytes}
    {treeHash : Option Text} (hchunks : 0 < job.calcNumChunks chunkSize)
    (hanswer : job.Answers (chunkRange chunkSize 0) (.response data treeHash)) :
    job.downloadToFileobj sha256 chunkSize = .error .treeHashDoesNotMatch := by
  obtain ⟨after, hrange⟩ := range_eq_append hchunks
  rw [downloadToFileobj, hrange, List.range_zero, List.nil_append, List.foldlM_cons,
    downloadChunk_of_response hanswer, hpy3]
  rfl

theorem downloadToFileobj_of_error {error : DownloadError}
    (hchunks : 0 < job.calcNumChunks chunkSize)
    (herror : job.downloadChunk sha256 chunkSize [] 0 = .error error) :
    job.downloadToFileobj sha256 chunkSize = .error error := by
  obtain ⟨after, hrange⟩ := range_eq_append hchunks
  rw [downloadToFileobj, hrange, List.range_zero, List.nil_append, List.foldlM_cons, herror]
  rfl

theorem right_of_py3 (hpy3 : job.version = .py3) (hchunks : 0 < job.calcNumChunks chunkSize) :
    Right sha256 job archive chunkSize (job.downloadToFileobj sha256 chunkSize) ↔
      ¬IsCorrect sha256 archive job ∧
        ∀ i < job.calcNumChunks chunkSize, (∀ j < i, GoodChunk sha256 job chunkSize j) →
          ¬job.KeepsFailing (chunkRange chunkSize i) := by
  have hnone : ∀ j, ¬j < 0 := fun j => Nat.not_lt_zero j
  constructor
  · intro hright
    refine ⟨fun hcorrect => ?_, fun i hi hgood hfailing => ?_⟩
    · obtain ⟨written, hok⟩ := hright.succeeds hcorrect
      have hrefused := @downloadToFileobj_of_response sha256 _ _ hpy3 _ _ hchunks
        (good_of_isCorrect hcorrect (chunkRange chunkSize 0))
      cases hok.symm.trans hrefused
    · have hresult := hright.keepsFailing i hi hgood hfailing
      by_cases hzero : i = 0
      · subst hzero
        rw [downloadToFileobj_of_error hchunks (downloadChunk_of_keepsFailing hfailing),
          hpy3] at hresult
        cases hresult
      · obtain ⟨data, hdata⟩ := hgood 0 (Nat.pos_of_ne_zero hzero)
        rw [downloadToFileobj_of_response hpy3 hchunks hdata] at hresult
        cases hresult
  · rintro ⟨hcorrect, hfailing⟩
    have hfirst := hfailing 0 hchunks fun j hj => absurd hj (hnone j)
    rcases job.keepsFailing_or_answers (chunkRange chunkSize 0) with hkeeps | ⟨answer, hanswer⟩
    · exact absurd hkeeps hfirst
    · have hlater : ∀ i < job.calcNumChunks chunkSize,
          (∀ j < i, GoodChunk sha256 job chunkSize j) →
            ¬job.KeepsFailing (chunkRange chunkSize i) := hfailing
      cases answer with
      | raised retryable =>
          have herror := downloadToFileobj_of_error hchunks
            (@downloadChunk_of_raised sha256 _ _ 0 [] _ hanswer)
          rw [herror]
          refine ⟨fun written hok => ?_, fun i hi hgood hcorrupted => ?_,
            fun i hi hgood hkeeps => absurd hkeeps (hlater i hi hgood),
            fun hright => absurd hright hcorrect⟩
          · cases hok
          · by_cases hzero : i = 0
            · subst hzero
              obtain ⟨data, treeHash, hother, -⟩ := hcorrupted
              cases hanswer.unique hother
            · obtain ⟨data, hdata⟩ := hgood 0 (Nat.pos_of_ne_zero hzero)
              cases hanswer.unique hdata
      | response data treeHash =>
          rw [downloadToFileobj_of_response hpy3 hchunks hanswer]
          refine ⟨fun written hok => ?_, fun i hi hgood hcorrupted => .inl rfl,
            fun i hi hgood hkeeps => absurd hkeeps (hlater i hi hgood),
            fun hright => absurd hright hcorrect⟩
          cases hok

/-- When a download by a job is right. -/
theorem right_iff (hchunks : 0 < job.calcNumChunks chunkSize) :
    Right sha256 job archive chunkSize (job.downloadToFileobj sha256 chunkSize) ↔
      DownloadsRight sha256 job archive chunkSize := by
  rw [DownloadsRight]
  cases hversion : job.version with
  | py2 => exact right_of_py2 hversion
  | py3 => exact right_of_py3 hversion hchunks

end Boto.Glacier.Download.Job
