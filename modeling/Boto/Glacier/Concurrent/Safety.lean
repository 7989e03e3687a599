import Boto.Glacier.Concurrent.Invariant

/-!
# Safety of concurrent uploads

`Inv` holds of every state an upload can reach.  From it follows what an upload
promises: no part is lost or processed twice, a completed upload consists of all
its parts, and an upload that ends was completed or aborted.  The last of these
needs a part: an empty file has none, and its upload is left open.
-/

namespace Boto.Glacier.Concurrent

/-! ## The invariant -/

section

variable (sha256 : Bytes → Bytes) (job : Job) (s : State)

/-- All results were collected, and all of them are hashes. -/
def AllHashed : Prop :=
  s.collected.length = job.totalParts ∧
    ∀ result ∈ s.collected, ∃ i hash, result = .hash i hash

/-- An exception was collected. -/
def Failed : Prop := ∃ i, PartResult.exception i ∈ s.collected

/-- The upload was neither completed nor aborted. -/
def Unsettled : Prop := s.completions = [] ∧ s.aborted = []

/-- The request that completes an upload with this tree hash. -/
def Job.completion (hash : Bytes) : Completion where
  uploadId := job.uploadId
  treeHash := bytesToHex hash
  archiveSize := job.content.length

/-- What the main thread knows in each of its phases. -/
def MainInv : Prop :=
  match s.main with
  | .starting => s.collected = [] ∧ Unsettled s
  | .collecting count =>
      s.collected.length = count ∧ count ≤ job.totalParts ∧
        (∀ result ∈ s.collected, ∃ i hash, result = .hash i hash) ∧ Unsettled s
  | .stopping failed _ =>
      (if failed then Failed s else AllHashed job s) ∧ Unsettled s
  | .joining failed _ =>
      (if failed then Failed s else AllHashed job s) ∧ Unsettled s
  | .aborting => Failed s ∧ Unsettled s
  | .completing => AllHashed job s ∧ Unsettled s
  | .returned _ =>
      AllHashed job s ∧ s.aborted = [] ∧ ∃ hash,
        treeHashOfChunks sha256 s.hashChunks = .ok hash ∧
          s.completions = [job.completion hash]
  | .raised _ =>
      (Failed s ∧ s.completions = [] ∧ s.aborted = [job.uploadId]) ∨
        (AllHashed job s ∧ Unsettled s ∧
          ∃ e, treeHashOfChunks sha256 s.hashChunks = .error e)

/-- What holds in every state of an upload.  The facts about threads are also
stated for one that is yet to be started. -/
structure Inv : Prop where
  parts : s.parts = Multiset.range job.totalParts
  results : ∀ t ∈ Thread.init :: s.threads,
    ResultsCorrect sha256 job s.shared t
  tries : ∀ t ∈ Thread.init :: s.threads, TriesBounded job s.shared t
  chunksLength : s.hashChunks.length = job.totalParts
  chunks : ∀ i hash, PartResult.hash i hash ∈ s.collected →
    PartResult.Correct sha256 job s.shared.requests (.hash i hash) ∧
      s.hashChunks[i]? = some (some hash)
  main : MainInv sha256 job s

end

variable {sha256 : Bytes → Bytes} {job : Job} {s s' : State}

theorem inv_initial : Inv sha256 job (initial job) where
  parts := parts_initial job
  results := by
    intro t ht
    rw [List.mem_singleton.mp ht]
    exact ⟨by simp [initial], by simp [Thread.init]⟩
  tries := by
    intro t ht
    rw [List.mem_singleton.mp ht]
    exact ⟨by simp [initial, Concurrent.tries], by simp [Thread.init],
      by simp [initial, Concurrent.tries]⟩
  chunksLength := by simp [initial]
  chunks := by simp [initial]
  main := ⟨rfl, rfl, rfl⟩

/-! ## Parts are in one place -/

/-- The part a worker holds is not queued, and no other worker holds it. -/
theorem Inv.held_disjoint (h : Inv sha256 job s) {before after : List Thread}
    {t : Thread} (hthreads : s.threads = before ++ t :: after) {i : ℕ}
    (hi : i ∈ t.held) :
    i ∉ s.shared.workerQueue.filterMap WorkItem.partNumber? ∧
      ∀ x ∈ before ++ after, i ∉ x.held := by
  have hcount : Multiset.count i s.parts ≤ 1 := by
    rw [h.parts]
    exact Multiset.nodup_iff_count_le_one.mp (Multiset.nodup_range _) i
  have hone : 1 ≤ Multiset.count i t.held := Multiset.one_le_count_iff_mem.mpr hi
  rw [State.parts, Multiset.count_add, Multiset.count_add, Shared.parts,
    Multiset.count_add, hthreads, sum_held_append, Multiset.count_add] at hcount
  constructor
  · intro hmem
    have : 1 ≤ Multiset.count i
        (s.shared.workerQueue.filterMap WorkItem.partNumber? : List ℕ) :=
      Multiset.one_le_count_iff_mem.mpr (Multiset.mem_coe.mpr hmem)
    omega
  · intro x hx hheld
    have : 1 ≤ Multiset.count i x.held :=
      Multiset.one_le_count_iff_mem.mpr hheld
    obtain ⟨before', after', hsplit⟩ := List.append_of_mem hx
    rw [hsplit, sum_held_append, Multiset.count_add] at hcount
    omega

/-- A collected or posted part is one of the upload. -/
theorem Inv.lt_totalParts (h : Inv sha256 job s) {result : PartResult}
    (hresult : result ∈ s.shared.resultQueue ∨ result ∈ s.collected) :
    result.partNumber < job.totalParts := by
  rw [← Multiset.mem_range, ← h.parts, State.parts, Shared.parts]
  simp only [Multiset.mem_add, Multiset.mem_coe]
  rcases hresult with hposted | hcollected
  · exact Or.inl (Or.inl (Or.inr (List.mem_map_of_mem hposted)))
  · exact Or.inr (List.mem_map_of_mem hcollected)

/-! ## Steps -/

theorem Inv.thread (h : Inv sha256 job s) (hsize : 0 < job.partSize)
    {before after : List Thread} {t t' : Thread} {shared' : Shared}
    (hthreads : s.threads = before ++ t :: after)
    (hstep : ThreadStep sha256 job (s.shared, t) (shared', t')) :
    Inv sha256 job
      { s with shared := shared', threads := before ++ t' :: after } := by
  have ht : t ∈ Thread.init :: s.threads := by simp [hthreads]
  have hresults := hstep.resultsCorrect (h.results t ht)
  have hfresh : ∀ i ∈ s.shared.workerQueue.filterMap WorkItem.partNumber?,
      i ∉ t.held :=
    fun i hi hheld => (h.held_disjoint hthreads hheld).1 hi
  have htries := hstep.triesBounded hsize hfresh (h.tries t ht)
  have hothers : ∀ x ∈ Thread.init :: (before ++ t' :: after), x = t' ∨
      (x ∈ Thread.init :: s.threads ∧
        ∀ i k, x.phase = .processing i k → i ∉ t.held) := by
    intro x hx
    rcases List.mem_cons.mp hx with rfl | hx
    · refine Or.inr ⟨by simp, fun i k hphase => ?_⟩
      cases hphase
    · rcases List.mem_append.mp hx with hbefore | hx
      · refine Or.inr ⟨by simp [hthreads, hbefore], ?_⟩
        intro i k hphase hheld
        exact (h.held_disjoint hthreads hheld).2 x (by simp [hbefore])
          (by simp [Thread.held, hphase])
      · rcases List.mem_cons.mp hx with rfl | hafter
        · exact Or.inl rfl
        · refine Or.inr ⟨by simp [hthreads, hafter], ?_⟩
          intro i k hphase hheld
          exact (h.held_disjoint hthreads hheld).2 x (by simp [hafter])
            (by simp [Thread.held, hphase])
  constructor
  · exact (Step.thread hthreads hstep).parts_eq.trans h.parts
  · intro x hx
    rcases hothers x hx with rfl | ⟨hold, -⟩
    · exact hresults
    · exact ⟨hresults.posted, fun result hphase =>
        ((h.results x hold).putting result hphase).mono hstep.requests_subset⟩
  · intro x hx
    rcases hothers x hx with rfl | ⟨hold, hfree⟩
    · exact htries
    · refine ⟨htries.queued, ?_, htries.all⟩
      intro i k hphase
      rw [hstep.tries_eq hsize (hfree i k hphase)]
      exact (h.tries x hold).processing i k hphase
  · exact h.chunksLength
  · intro i hash hmem
    obtain ⟨hcorrect, hchunk⟩ := h.chunks i hash hmem
    exact ⟨hcorrect.mono hstep.requests_subset, hchunk⟩
  · exact h.main

/-- Steps of the main thread that only change where it is. -/
theorem Inv.setMain (h : Inv sha256 job s) {main : MainPhase}
    (hmain : MainInv sha256 job { s with main := main }) :
    Inv sha256 job { s with main := main } where
  parts := h.parts
  results := h.results
  tries := h.tries
  chunksLength := h.chunksLength
  chunks := h.chunks
  main := hmain

theorem Inv.collect (h : Inv sha256 job s) {result : PartResult}
    {results : List PartResult} {hashChunks : List (Option Bytes)}
    {main : MainPhase} (hresults : s.shared.resultQueue = result :: results)
    (hlength : hashChunks.length = s.hashChunks.length)
    (hchunks : ∀ i hash, PartResult.hash i hash ∈ s.collected ++ [result] →
      PartResult.Correct sha256 job s.shared.requests (.hash i hash) →
      hashChunks[i]? = some (some hash))
    (hparts : State.parts
      { s with
        shared := { s.shared with resultQueue := results }
        main := main
        hashChunks := hashChunks
        collected := s.collected ++ [result] } = s.parts)
    (hmain : MainInv sha256 job
      { s with
        shared := { s.shared with resultQueue := results }
        main := main
        hashChunks := hashChunks
        collected := s.collected ++ [result] }) :
    Inv sha256 job
      { s with
        shared := { s.shared with resultQueue := results }
        main := main
        hashChunks := hashChunks
        collected := s.collected ++ [result] } where
  parts := hparts.trans h.parts
  results := by
    intro t ht
    have hold := h.results t ht
    refine ⟨fun r hr => hold.posted r ?_, hold.putting⟩
    rw [hresults]
    exact List.mem_cons_of_mem _ hr
  tries := fun t ht =>
    ⟨(h.tries t ht).queued, (h.tries t ht).processing, (h.tries t ht).all⟩
  chunksLength := hlength.trans h.chunksLength
  chunks := by
    intro i hash hmem
    have hcorrect :
        PartResult.Correct sha256 job s.shared.requests (.hash i hash) := by
      rcases List.mem_append.mp hmem with hold | hnew
      · exact (h.chunks i hash hold).1
      · apply (h.results .init (by simp)).posted
        rw [hresults, List.mem_singleton.mp hnew]
        simp
    exact ⟨hcorrect, hchunks i hash hmem hcorrect⟩
  main := hmain

theorem Step.inv (hsize : 0 < job.partSize) (hstep : Step sha256 job s s')
    (h : Inv sha256 job s) : Inv sha256 job s' := by
  have hparts := hstep.parts_eq
  have hmainInv := h.main
  cases hstep with
  | thread hthreads hstep => exact h.thread hsize hthreads hstep
  | startThread hmain hlt =>
      constructor
      · exact hparts.trans h.parts
      · intro t ht
        apply h.results
        simpa [or_comm] using ht
      · intro t ht
        apply h.tries
        simpa [or_comm] using ht
      · exact h.chunksLength
      · exact h.chunks
      · exact h.main
  | allStarted hmain heq =>
      rw [MainInv, hmain] at hmainInv
      obtain ⟨hnone, hopen⟩ := hmainInv
      apply h.setMain
      exact ⟨by simp [hnone], Nat.zero_le _, by simp [hnone], hopen⟩
  | @collectHash count i hash results hmain hlt hresults =>
      rw [MainInv, hmain] at hmainInv
      obtain ⟨hcount, -, hhashed, hopen⟩ := hmainInv
      have hi : i < s.hashChunks.length := by
        have hposted : PartResult.hash i hash ∈ s.shared.resultQueue := by
          rw [hresults]
          simp
        rw [h.chunksLength]
        exact h.lt_totalParts (Or.inl hposted)
      apply h.collect hresults (by simp) ?_ hparts
      · refine ⟨by simp [hcount], hlt, ?_, hopen⟩
        intro result hresult
        rcases List.mem_append.mp hresult with hold | hnew
        · exact hhashed result hold
        · exact ⟨i, hash, List.mem_singleton.mp hnew⟩
      · intro j hash' hmem hcorrect
        by_cases hij : i = j
        · subst hij
          have hposted : PartResult.Correct sha256 job s.shared.requests
              (.hash i hash) := by
            apply (h.results .init (by simp)).posted
            rw [hresults]
            simp
          rw [List.getElem?_set_self hi, hposted.1, hcorrect.1]
        · rw [List.getElem?_set_ne hij]
          rcases List.mem_append.mp hmem with hold | hnew
          · exact (h.chunks j hash' hold).2
          · cases List.mem_singleton.mp hnew
            exact absurd rfl hij
  | @collectException count i results hmain hlt hresults =>
      rw [MainInv, hmain] at hmainInv
      obtain ⟨-, -, -, hopen⟩ := hmainInv
      apply h.collect hresults rfl ?_ hparts
      · exact ⟨⟨i, by simp⟩, hopen⟩
      · intro j hash' hmem _
        rcases List.mem_append.mp hmem with hold | hnew
        · exact (h.chunks j hash' hold).2
        · cases List.mem_singleton.mp hnew
  | allCollected hmain heq =>
      rw [MainInv, hmain] at hmainInv
      obtain ⟨hcount, -, hhashed, hopen⟩ := hmainInv
      apply h.setMain
      exact ⟨⟨hcount.trans heq, hhashed⟩, hopen⟩
  | @stopThread failed before after t hmain hthreads =>
      rw [MainInv, hmain] at hmainInv
      have hsame : ∀ x ∈ Thread.init ::
          (before ++ { t with shouldContinue := false } :: after),
          ∃ y ∈ Thread.init :: s.threads, x.phase = y.phase := by
        intro x hx
        simp only [List.mem_cons, List.mem_append] at hx
        rcases hx with rfl | hbefore | rfl | hafter
        · exact ⟨.init, by simp, rfl⟩
        · exact ⟨x, by simp [hthreads, hbefore], rfl⟩
        · exact ⟨t, by simp [hthreads], rfl⟩
        · exact ⟨x, by simp [hthreads, hafter], rfl⟩
      constructor
      · exact hparts.trans h.parts
      · intro x hx
        obtain ⟨y, hy, hphase⟩ := hsame x hx
        refine ⟨(h.results y hy).posted, ?_⟩
        rw [hphase]
        exact (h.results y hy).putting
      · intro x hx
        obtain ⟨y, hy, hphase⟩ := hsame x hx
        refine ⟨(h.tries y hy).queued, ?_, (h.tries y hy).all⟩
        rw [hphase]
        exact (h.tries y hy).processing
      · exact h.chunksLength
      · exact h.chunks
      · exact hmainInv
  | allStopped hmain =>
      rw [MainInv, hmain] at hmainInv
      exact h.setMain hmainInv
  | joinThread hmain hthreads hexited =>
      rw [MainInv, hmain] at hmainInv
      exact h.setMain hmainInv
  | @allJoined failed hmain =>
      rw [MainInv, hmain] at hmainInv
      apply h.setMain
      cases failed with
      | false => exact hmainInv
      | true => exact hmainInv
  | abort hmain =>
      rw [MainInv, hmain] at hmainInv
      obtain ⟨hfailed, hcompletions, haborted⟩ := hmainInv
      constructor
      · exact hparts.trans h.parts
      · exact h.results
      · exact h.tries
      · exact h.chunksLength
      · exact h.chunks
      · exact Or.inl ⟨hfailed, hcompletions, by simp [haborted]⟩
  | @complete hash hmain hhash =>
      rw [MainInv, hmain] at hmainInv
      obtain ⟨hall, hcompletions, haborted⟩ := hmainInv
      constructor
      · exact hparts.trans h.parts
      · exact h.results
      · exact h.tries
      · exact h.chunksLength
      · exact h.chunks
      · exact ⟨hall, haborted, hash, hhash,
          by simp [hcompletions, Job.completion]⟩
  | @completeFails e hmain hhash =>
      rw [MainInv, hmain] at hmainInv
      apply h.setMain
      exact Or.inr ⟨hmainInv.1, hmainInv.2, e, hhash⟩

theorem Reachable.inv (hsize : 0 < job.partSize)
    (h : Reachable sha256 job s) : Inv sha256 job s := by
  induction h with
  | refl => exact inv_initial
  | tail _ hstep ih => exact hstep.inv hsize ih

/-! ## Complete uploads -/

/-- When all results are hashes, every part has one. -/
theorem Inv.exists_hash (h : Inv sha256 job s) (hall : AllHashed job s) {i : ℕ}
    (hi : i < job.totalParts) : ∃ hash, .hash i hash ∈ s.collected := by
  obtain ⟨hlength, hhashed⟩ := hall
  have hle : ((s.collected.map PartResult.partNumber : List ℕ) : Multiset ℕ) ≤
      Multiset.range job.totalParts := by
    rw [← h.parts, State.parts]
    exact Multiset.le_add_left _ _
  have heq := Multiset.eq_of_le_of_card_le hle (by simp [hlength])
  have hmem : i ∈ s.collected.map PartResult.partNumber := by
    rw [← Multiset.mem_coe, heq, Multiset.mem_range]
    exact hi
  obtain ⟨result, hresult, rfl⟩ := List.mem_map.mp hmem
  obtain ⟨i, hash, rfl⟩ := hhashed result hresult
  exact ⟨hash, hresult⟩

/-- The recorded hashes are those of the parts, in the order of the parts. -/
theorem Inv.hashChunks_eq (h : Inv sha256 job s) (hall : AllHashed job s) :
    s.hashChunks = (List.range job.totalParts).map
      fun i => some (job.partHash sha256 i) := by
  apply List.ext_getElem?
  intro i
  by_cases hi : i < job.totalParts
  · obtain ⟨hash, hmem⟩ := h.exists_hash hall hi
    obtain ⟨hcorrect, hchunk⟩ := h.chunks i hash hmem
    rw [hchunk, hcorrect.1]
    simp [hi]
  · rw [List.getElem?_eq_none (by rw [h.chunksLength]; omega),
      List.getElem?_eq_none (by simp; omega)]

theorem Inv.treeHashOfChunks_eq (h : Inv sha256 job s)
    (hall : AllHashed job s) :
    treeHashOfChunks sha256 s.hashChunks =
      treeHash sha256 ((List.range job.totalParts).map
        (job.partHash sha256)) := by
  rw [treeHashOfChunks, h.hashChunks_eq hall, if_neg (by simp),
    List.filterMap_map]
  simp

/-! ## Safety -/

/-- The upload keeps its promises: each part is in one place and tried a bounded
number of times, a completion is for all parts and each of them was accepted, and
an upload that ended was completed or aborted. -/
structure Safe (sha256 : Bytes → Bytes) (job : Job) (s : State) : Prop where
  parts : s.parts = Multiset.range job.totalParts
  tries : ∀ i, tries job s.shared.requests i ≤ job.numRetries + 1
  completed : ∀ completion ∈ s.completions,
    (∀ i < job.totalParts,
      job.partRequest sha256 i .accepted ∈ s.shared.requests) ∧
    ∃ hash, treeHash sha256 ((List.range job.totalParts).map
        (job.partHash sha256)) = .ok hash ∧
      completion = job.completion hash
  settled : s.main.finished = true →
    (s.completions.length = 1 ∧ s.aborted = []) ∨
      (s.completions = [] ∧ s.aborted = [job.uploadId])

theorem Inv.completed (h : Inv sha256 job s) {completion : Completion}
    (hmem : completion ∈ s.completions) :
    AllHashed job s ∧ ∃ hash, treeHash sha256
        ((List.range job.totalParts).map (job.partHash sha256)) = .ok hash ∧
      completion = job.completion hash := by
  have hmain := h.main
  rw [MainInv] at hmain
  have hnone : ¬ Unsettled s := by
    rintro ⟨hcompletions, -⟩
    rw [hcompletions] at hmem
    exact List.not_mem_nil hmem
  cases hphase : s.main with
  | starting => rw [hphase] at hmain; exact absurd hmain.2 hnone
  | collecting => rw [hphase] at hmain; exact absurd hmain.2.2.2 hnone
  | stopping => rw [hphase] at hmain; exact absurd hmain.2 hnone
  | joining => rw [hphase] at hmain; exact absurd hmain.2 hnone
  | aborting => rw [hphase] at hmain; exact absurd hmain.2 hnone
  | completing => rw [hphase] at hmain; exact absurd hmain.2 hnone
  | returned =>
      rw [hphase] at hmain
      obtain ⟨hall, -, hash, hhash, hcompletions⟩ := hmain
      rw [hcompletions] at hmem
      rw [h.treeHashOfChunks_eq hall] at hhash
      exact ⟨hall, hash, hhash, List.mem_singleton.mp hmem⟩
  | raised =>
      rw [hphase] at hmain
      rcases hmain with ⟨-, hcompletions, -⟩ | ⟨-, hopen, -⟩
      · rw [hcompletions] at hmem
        exact absurd hmem List.not_mem_nil
      · exact absurd hopen hnone

/-- An upload with at least one part that ended was completed or aborted. -/
theorem Inv.settled (h : Inv sha256 job s) (hparts : 0 < job.totalParts)
    (hfinished : s.main.finished = true) :
    (s.completions.length = 1 ∧ s.aborted = []) ∨
      (s.completions = [] ∧ s.aborted = [job.uploadId]) := by
  have hmain := h.main
  rw [MainInv] at hmain
  cases hphase : s.main with
  | returned =>
      rw [hphase] at hmain
      obtain ⟨-, haborted, hash, -, hcompletions⟩ := hmain
      exact Or.inl ⟨by rw [hcompletions]; rfl, haborted⟩
  | raised =>
      rw [hphase] at hmain
      rcases hmain with ⟨-, hcompletions, haborted⟩ | ⟨hall, -, e, he⟩
      · exact Or.inr ⟨hcompletions, haborted⟩
      · -- the tree hash of at least one part hash does not raise
        have hne : (List.range job.totalParts).map (job.partHash sha256) ≠ [] :=
          List.ne_nil_of_length_pos (by simpa using hparts)
        obtain ⟨hash, hhash⟩ := exists_treeHash_eq_ok sha256 hne
        rw [h.treeHashOfChunks_eq hall, hhash] at he
        cases he
  | _ => rw [hphase] at hfinished; cases hfinished

/-- An upload without parts that ended was neither completed nor aborted. -/
theorem Inv.unsettled_of_no_parts (h : Inv sha256 job s)
    (hparts : job.totalParts = 0) (hfinished : s.main.finished = true) :
    Unsettled s := by
  have hmain := h.main
  have hnotFailed : ¬ Failed s := by
    rintro ⟨i, hi⟩
    have := h.lt_totalParts (Or.inr hi)
    omega
  rw [MainInv] at hmain
  cases hphase : s.main with
  | returned =>
      rw [hphase] at hmain
      obtain ⟨hall, -, hash, hhash, -⟩ := hmain
      rw [h.treeHashOfChunks_eq hall, hparts] at hhash
      cases hhash
  | raised =>
      rw [hphase] at hmain
      rcases hmain with ⟨hfailed, -⟩ | ⟨-, hopen, -⟩
      · exact absurd hfailed hnotFailed
      · exact hopen
  | _ => rw [hphase] at hfinished; cases hfinished

end Boto.Glacier.Concurrent
