import Boto.Glacier.Concurrent.Model
import Mathlib.Algebra.BigOperators.Group.Multiset.Basic
import Mathlib.Data.Multiset.Range
import Mathlib.Tactic.Abel

/-!
# What every step of a concurrent upload keeps

A part is queued, held by a worker, posted or collected; a step moves it from one
of these to the next (`Step.parts_eq`).  Together with what is known about the
results on their way and about the main thread, this gives `Inv`, which holds of
every reachable state.
-/

namespace Boto.Glacier.Concurrent

/-! ## Where the parts are -/

/-- The part a work item is for. -/
def WorkItem.partNumber? : WorkItem → Option ℕ
  | part partNumber _ => some partNumber
  | endSentinel => none

/-- The part a result is for. -/
def PartResult.partNumber : PartResult → ℕ
  | hash partNumber _ => partNumber
  | exception partNumber => partNumber

/-- The part a worker holds. -/
def Thread.held (t : Thread) : Multiset ℕ :=
  match t.phase with
  | .processing partNumber _ => {partNumber}
  | .putting result => {result.partNumber}
  | _ => 0

/-- The parts in the two queues. -/
def Shared.parts (shared : Shared) : Multiset ℕ :=
  (shared.workerQueue.filterMap WorkItem.partNumber? : List ℕ) +
    (shared.resultQueue.map PartResult.partNumber : List ℕ)

/-- The parts of the upload, wherever they are. -/
def State.parts (s : State) : Multiset ℕ :=
  s.shared.parts + (s.threads.map Thread.held).sum +
    (s.collected.map PartResult.partNumber : List ℕ)

section

variable {sha256 : Bytes → Bytes} {job : Job}

/-- A worker moves parts between the queues and itself. -/
theorem ThreadStep.parts_eq {shared shared' : Shared} {t t' : Thread}
    (h : ThreadStep sha256 job (shared, t) (shared', t')) :
    shared'.parts + t'.held = shared.parts + t.held := by
  cases h with
  | goOn => rfl
  | leave => rfl
  | takePart =>
      simp only [Shared.parts, Thread.held, List.filterMap_cons,
        WorkItem.partNumber?, ← Multiset.cons_coe, ← Multiset.singleton_add]
      abel
  | takeSentinel => rfl
  | timeout => rfl
  | succeed => rfl
  | retry => rfl
  | giveUp => rfl
  | put =>
      simp only [Shared.parts, Thread.held, List.map_append, List.map_cons,
        List.map_nil, ← Multiset.coe_add, Multiset.coe_singleton, add_zero,
        add_assoc]

theorem sum_held_append (before after : List Thread) (t : Thread) :
    ((before ++ t :: after).map Thread.held).sum =
      ((before ++ after).map Thread.held).sum + t.held := by
  simp only [List.map_append, List.map_cons, List.sum_append, List.sum_cons]
  rw [add_assoc, add_comm t.held]

/-- No step loses a part or makes one up. -/
theorem Step.parts_eq {s s' : State} (h : Step sha256 job s s') :
    s'.parts = s.parts := by
  cases h with
  | thread hthreads hstep =>
      have hmove := hstep.parts_eq
      simp only [State.parts, hthreads, sum_held_append]
      rw [add_comm _ (Thread.held _), ← add_assoc, hmove]
      abel
  | startThread =>
      simp [State.parts, Thread.init, Thread.held]
  | allStarted => rfl
  | collectHash hmain hlt hresults =>
      simp only [State.parts, Shared.parts, hresults, List.map_cons,
        List.map_append, List.map_nil, ← Multiset.cons_coe,
        ← Multiset.coe_add, ← Multiset.singleton_add, Multiset.coe_nil,
        PartResult.partNumber]
      abel
  | collectException hmain hlt hresults =>
      simp only [State.parts, Shared.parts, hresults, List.map_cons,
        List.map_append, List.map_nil, ← Multiset.cons_coe,
        ← Multiset.coe_add, ← Multiset.singleton_add, Multiset.coe_nil,
        PartResult.partNumber]
      abel
  | allCollected => rfl
  | stopThread hmain hthreads =>
      simp only [State.parts, hthreads, sum_held_append]
      rfl
  | allStopped => rfl
  | joinThread => rfl
  | allJoined => rfl
  | abort => rfl
  | complete => rfl
  | completeFails => rfl

theorem parts_initial (job : Job) :
    (initial job).parts = Multiset.range job.totalParts := by
  have hitems : (workItems job).filterMap WorkItem.partNumber? =
      List.range job.totalParts := by
    simp [workItems, List.filterMap_map, Function.comp_def,
      WorkItem.partNumber?, List.filterMap_replicate]
  simp [State.parts, Shared.parts, initial, hitems, Multiset.range]

/-! ## What is known of a result -/

variable (sha256 job) in
/-- A posted hash is that of its part, which the service accepted. -/
def PartResult.Correct (requests : List PartRequest) : PartResult → Prop
  | .hash partNumber treeHash =>
      treeHash = job.partHash sha256 partNumber ∧
        job.partRequest sha256 partNumber .accepted ∈ requests
  | .exception _ => True

theorem PartResult.Correct.mono {requests requests' : List PartRequest}
    {result : PartResult} (h : result.Correct sha256 job requests)
    (hsub : requests ⊆ requests') : result.Correct sha256 job requests' := by
  cases result with
  | hash partNumber treeHash => exact ⟨h.1, hsub h.2⟩
  | exception partNumber => trivial

variable (sha256 job) in
/-- The results on their way to the main thread are correct. -/
structure ResultsCorrect (shared : Shared) (t : Thread) : Prop where
  posted : ∀ result ∈ shared.resultQueue,
    result.Correct sha256 job shared.requests
  putting : ∀ result, t.phase = .putting result →
    result.Correct sha256 job shared.requests

theorem ThreadStep.requests_subset {shared shared' : Shared} {t t' : Thread}
    (h : ThreadStep sha256 job (shared, t) (shared', t')) :
    shared.requests ⊆ shared'.requests := by
  cases h <;> simp

theorem ThreadStep.resultsCorrect {shared shared' : Shared} {t t' : Thread}
    (h : ThreadStep sha256 job (shared, t) (shared', t'))
    (hcorrect : ResultsCorrect sha256 job shared t) :
    ResultsCorrect sha256 job shared' t' := by
  obtain ⟨hposted, hputting⟩ := hcorrect
  have hold : ∀ result ∈ shared.resultQueue,
      result.Correct sha256 job shared'.requests :=
    fun result hresult => (hposted result hresult).mono h.requests_subset
  cases h with
  | goOn => exact ⟨hold, by simp⟩
  | leave => exact ⟨hold, by simp⟩
  | takePart => exact ⟨hold, by simp⟩
  | takeSentinel => exact ⟨hold, by simp⟩
  | timeout => exact ⟨hold, by simp⟩
  | succeed =>
      refine ⟨hold, ?_⟩
      rintro result hresult
      cases hresult
      exact ⟨rfl, by simp⟩
  | retry => exact ⟨hold, by simp⟩
  | giveUp =>
      refine ⟨hold, ?_⟩
      rintro result hresult
      cases hresult
      trivial
  | put =>
      refine ⟨?_, by simp⟩
      intro result hresult
      rcases List.mem_append.mp hresult with hqueued | hnew
      · exact hposted result hqueued
      · rw [List.mem_singleton.mp hnew]
        exact hputting _ rfl

/-! ## Tries -/

variable (job) in
/-- The number of requests made for a part. -/
def tries (requests : List PartRequest) (partNumber : ℕ) : ℕ :=
  requests.countP fun r =>
    r.contentRange.1 = ((partNumber * job.partSize : ℕ) : ℤ)

theorem tries_append_request (hsize : 0 < job.partSize)
    (requests : List PartRequest) (i j : ℕ) (fate : Fate) :
    tries job (requests ++ [job.partRequest sha256 i fate]) j =
      tries job requests j + if i = j then 1 else 0 := by
  rw [tries, List.countP_append, List.countP_singleton, tries]
  congr 1
  by_cases hij : i = j
  · subst hij
    simp [Job.partRequest]
  · have hne : (((i * job.partSize : ℕ) : ℤ)) ≠ (j * job.partSize : ℕ) := by
      intro heq
      exact hij (Nat.eq_of_mul_eq_mul_right hsize (by exact_mod_cast heq))
    rw [if_neg hij, if_neg]
    simpa [Job.partRequest] using hne

/-- A round that made a request, or none, for part `i`. -/
theorem tries_append_option (sha256 : Bytes → Bytes) (hsize : 0 < job.partSize)
    (requests : List PartRequest) (i j : ℕ) (fate : Option Fate) :
    tries job (requests ++ (fate.map (job.partRequest sha256 i)).toList) j ≤
      tries job requests j + if i = j then 1 else 0 := by
  cases fate with
  | none => simp
  | some fate => exact (tries_append_request hsize requests i j fate).le

variable (job) in
/-- A queued part was not tried yet, a held one as often as its worker counted,
and no part too often. -/
structure TriesBounded (shared : Shared) (t : Thread) : Prop where
  queued : ∀ i ∈ shared.workerQueue.filterMap WorkItem.partNumber?,
    tries job shared.requests i = 0
  processing : ∀ i k, t.phase = .processing i k →
    tries job shared.requests i ≤ k ∧ k ≤ job.numRetries
  all : ∀ i, tries job shared.requests i ≤ job.numRetries + 1

/-- A worker only tries the part it holds. -/
theorem ThreadStep.tries_eq (hsize : 0 < job.partSize)
    {shared shared' : Shared} {t t' : Thread}
    (h : ThreadStep sha256 job (shared, t) (shared', t')) {j : ℕ}
    (hj : j ∉ t.held) :
    tries job shared'.requests j = tries job shared.requests j := by
  have hround : ∀ (requests : List PartRequest) (i : ℕ) (fate : Option Fate),
      i ≠ j → tries job
        (requests ++ (fate.map (job.partRequest sha256 i)).toList) j =
          tries job requests j := by
    intro requests i fate hij
    cases fate with
    | none => simp
    | some fate =>
        rw [Option.map_some, Option.toList_some,
          tries_append_request hsize, if_neg hij, Nat.add_zero]
  cases h with
  | goOn => rfl
  | leave => rfl
  | takePart => rfl
  | takeSentinel => rfl
  | timeout => rfl
  | succeed =>
      exact hround _ _ (some .accepted) (by simpa [Thread.held, eq_comm] using hj)
  | retry fate =>
      exact hround _ _ fate (by simpa [Thread.held, eq_comm] using hj)
  | giveUp fate =>
      exact hround _ _ fate (by simpa [Thread.held, eq_comm] using hj)
  | put => rfl

theorem ThreadStep.triesBounded (hsize : 0 < job.partSize)
    {shared shared' : Shared} {t t' : Thread}
    (h : ThreadStep sha256 job (shared, t) (shared', t'))
    (hfresh : ∀ i ∈ shared.workerQueue.filterMap WorkItem.partNumber?,
      i ∉ t.held)
    (hbounded : TriesBounded job shared t) :
    TriesBounded job shared' t' := by
  obtain ⟨hqueued, hprocessing, hall⟩ := hbounded
  have hround : ∀ i k (fate : Option Fate), t.phase = .processing i k → ∀ j,
      tries job (shared.requests ++
        (fate.map (job.partRequest sha256 i)).toList) j ≤
          job.numRetries + 1 := by
    intro i k fate hphase j
    obtain ⟨hle, hk⟩ := hprocessing i k hphase
    have hnew := tries_append_option sha256 hsize shared.requests i
      j fate
    by_cases hij : i = j
    · subst hij
      rw [if_pos rfl] at hnew
      omega
    · rw [if_neg hij] at hnew
      exact hnew.trans (hall j)
  have hstill : ∀ i ∈ shared.workerQueue.filterMap WorkItem.partNumber?,
      tries job shared'.requests i = 0 := by
    intro i hi
    rw [h.tries_eq hsize (hfresh i hi)]
    exact hqueued i hi
  cases h with
  | goOn => exact ⟨hqueued, by simp, hall⟩
  | leave => exact ⟨hqueued, by simp, hall⟩
  | @takePart i =>
      refine ⟨fun j hj => hqueued j (List.mem_filterMap.mpr ?_), ?_, hall⟩
      · obtain ⟨item, hitem, hpart⟩ := List.mem_filterMap.mp hj
        exact ⟨item, List.mem_cons_of_mem _ hitem, hpart⟩
      intro j k hphase
      cases hphase
      exact ⟨(hqueued i (by simp [WorkItem.partNumber?])).le, Nat.zero_le _⟩
  | takeSentinel => exact ⟨hqueued, by simp, hall⟩
  | timeout => exact ⟨hqueued, by simp, hall⟩
  | succeed =>
      exact ⟨hstill, by simp, hround _ _ (some .accepted) rfl⟩
  | @retry i k _ _ requests _ fate _ htries =>
      refine ⟨hstill, ?_, hround _ _ fate rfl⟩
      intro j k' hphase
      cases hphase
      have hnew := tries_append_option sha256 hsize requests i i fate
      rw [if_pos rfl] at hnew
      have hold := (hprocessing i k rfl).1
      exact ⟨hnew.trans (by simpa using hold), htries⟩
  | giveUp fate =>
      exact ⟨hstill, by simp, hround _ _ fate rfl⟩
  | put => exact ⟨hqueued, by simp, hall⟩

end

end Boto.Glacier.Concurrent
