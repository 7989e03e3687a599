import Boto.GS.UploadRuns

/-!
# How often a resumable upload is retried

`server_has_bytes` is the first byte of the range that the server has, which is 0 in every
answer.  So an attempt never shows progress: the count grows with every failure, and the upload
is given up after the same number of them whatever the server has got meanwhile.
-/

namespace Boto.GS

open EStateM Files

/-! ## Failures -/

/-- An attempt that failed and may be followed by another one: the states before and after it,
and `progress_less_iterations` afterwards. -/
structure Failure where
  before : State
  after : State
  progressLess : ℕ
  deriving DecidableEq, Repr

/-- The server holds more bytes than before the attempt. -/
def Failure.Grew (failure : Failure) : Prop :=
  failure.before.held.length < failure.after.held.length

instance (failure : Failure) : Decidable failure.Grew :=
  inferInstanceAs (Decidable (failure.before.held.length < failure.after.held.length))

/-- The message with which an upload is given up. -/
def UploadError.gaveUp : UploadError → Bool
  | .resumable .tooManyAttempts _ => true
  | _ => false

section

variable (params : Params) (fileLength : ℕ)

/-- The failures of the loop of `send_file`. -/
def failures : ℕ → List Fate → State → List Failure
  | _, [], _ => []
  | progressLess, fate :: fates, self =>
      match (tryOnce params fileLength fate).run self with
      | .ok _ _ => []
      | .error e self' =>
          if e.retries then
            match trackProgressLessIterations params progressLess self self' with
            | .again progressLess' next =>
                ⟨self, self', progressLess'⟩ :: failures progressLess' fates next
            | .raised _ _ => [⟨self, self', progressLess + 1⟩]
            | .returned _ => []
          else []

end

/-- The failures of `send_file`. -/
def sendFileFailures (params : Params) (fates : List Fate) (self : State) : List Failure :=
  failures params self.fp.content.length 0 fates (self.prepared params)

/-- What the documentation says of the retries: the count is reset by progress, and an upload
is given up only after more than `num_retries` failures in a row without progress. -/
structure RetriesRight (numRetries : ℕ) (failures : List Failure) (outcome : Outcome) :
    Prop where
  reset : ∀ failure ∈ failures, failure.Grew → failure.progressLess = 0
  patient : ∀ e, outcome = .raised e → e.gaveUp = true →
    ∃ earlier last, failures = earlier ++ last ∧ numRetries < last.length ∧
      ∀ failure ∈ last, ¬failure.Grew

/-! ## No progress is seen -/

/-- The program leaves `server_has_bytes` at 0 and does not give up. -/
abbrev Unprogressed {α : Type} (p : α → Prop) (x : Upload α) : Prop :=
  Keeps (fun s : State => s.serverHasBytes = 0) (fun e => e.gaveUp = false) p x

section

variable {fileLength keyBufferSize : ℕ} {contentLength : Bool} {fate : Fate}

theorem queryServerState_unprogressed (query : QueryFate) :
    Unprogressed (fun resp => ∀ first last, resp.range = some (.bytes first last) → first = 0)
      (queryServerState fileLength query) := by
  cases query with
  | raises error => exact .throw rfl
  | unknown status =>
      exact .bind (.modify fun _ hs => hs) fun _ _ => .pure fun _ _ h => nomatch h
  | known complete =>
      refine .bind .get fun s _ => ?_
      dsimp only
      split
      · exact .pure fun _ _ h => nomatch h
      · split
        · exact .pure fun _ _ h => nomatch h
        · refine .pure fun first last h => ?_
          cases h
          rfl

theorem queryServerPos_unprogressed (query : QueryFate) :
    Unprogressed (fun pos => pos.1 = 0) (queryServerPos fileLength query) := by
  refine .bind (queryServerState_unprogressed query) fun resp hresp => ?_
  split
  · exact .pure rfl
  · split
    · exact .throw rfl
    · split
      · exact .pure rfl
      · exact .pure (hresp _ _ ‹_›)
      · exact .throw rfl

theorem startNewResumableUpload_unprogressed (post : PostFate) :
    Unprogressed (fun _ => True) (startNewResumableUpload contentLength post) := by
  refine .bind (.modify fun _ _ => rfl) fun _ _ => ?_
  cases contentLength with
  | true => exact .throw rfl
  | false =>
      cases post with
      | raises error => exact .throw rfl
      | answered status location saved =>
          simp only [Bool.false_eq_true, if_false]
          split
          · exact .throw rfl
          split
          · exact .throw rfl
          cases location with
          | missing => exact .throw rfl
          | invalid => exact .throw rfl
          | uri =>
              refine .bind (.modify fun _ _ => rfl) fun _ _ => ?_
              cases saved with
              | true => exact .pure trivial
              | false => exact .throw rfl

theorem catchUp_unprogressed {fuel bytesToGo : ℕ} :
    Unprogressed (fun _ => True) (catchUp keyBufferSize fuel bytesToGo) := by
  induction fuel generalizing bytesToGo with
  | zero => exact .pure trivial
  | succ fuel ih =>
      rw [catchUp]
      split
      · exact .pure trivial
      · refine .bind .get fun s _ => .bind (.modify fun _ hs => hs) fun _ _ => ?_
        split
        · exact .throw rfl
        · exact .bind (.modify fun _ hs => hs) fun _ _ => ih

theorem findServerEnd_unprogressed :
    Unprogressed (fun _ => True) (findServerEnd fileLength keyBufferSize contentLength fate) := by
  have hstart : ∀ result : ℤ, Unprogressed (fun _ => True) (do
      startNewResumableUpload contentLength fate.post
      return result) := fun result =>
    .bind (startNewResumableUpload_unprogressed _) fun _ _ => .pure trivial
  refine .bind .get fun s _ => ?_
  split
  · refine .bind (queryServerPos_unprogressed fate.query).attempt fun caught hcaught => ?_
    split
    · exact hstart _
    · exact .throw hcaught
    · rename_i serverStart serverEnd
      refine .bind (.modify fun _ _ => hcaught) fun _ _ => ?_
      split
      · exact .pure trivial
      · refine .bind (.modify fun _ hs => hs) fun _ _ => ?_
        refine .bind catchUp_unprogressed.attempt fun caught hcaught => ?_
        split
        · exact hstart _
        · exact .throw hcaught
        · exact .pure trivial
  · exact hstart _

/-! ## Attempts -/

theorem uploadFileBytes_gaveUp (put : PutFate) (total : ℕ) :
    Keeps (fun _ => True) (fun e : UploadError => e.gaveUp = false) (fun _ => True)
      (uploadFileBytes fileLength put total) := by
  have hcall : Keeps (fun _ => True) (fun e : UploadError => e.gaveUp = false) (fun _ => True)
      (call put.error) := by
    refine .bind .get fun self _ => ?_
    split
    · exact .throw rfl
    · exact .modify fun _ _ => trivial
    · exact .pure trivial
  have hread : Keeps (fun _ => True) (fun e : UploadError => e.gaveUp = false) (fun _ => True)
      readBuffer :=
    .bind .get fun self _ => .bind (.modify fun _ _ => trivial) fun _ _ => .pure trivial
  have hloop : ∀ fuel buf total, Keeps (fun _ => True) (fun e : UploadError => e.gaveUp = false)
      (fun _ => True) (sendLoop put.error fuel buf total) := by
    intro fuel
    induction fuel with
    | zero => exact fun _ _ => .pure trivial
    | succ fuel ih =>
        intro buf total
        rw [sendLoop]
        split
        · exact .pure trivial
        · exact .bind hcall fun _ _ => .bind (.modify fun _ _ => trivial) fun _ _ =>
            .bind hread fun _ _ => ih _ _
  refine .bind .get fun self _ => .bind hread fun _ _ => .bind hcall fun _ _ =>
    .bind (hloop _ _ _) fun total _ => .bind (.modify fun _ _ => trivial) fun _ _ => ?_
  split
  · exact .throw rfl
  · refine .bind hcall fun _ _ => ?_
    split
    · exact .pure trivial
    · split
      · exact .throw rfl
      · exact .throw rfl

theorem upload_unprogressed (put : PutFate) (total : ℕ) :
    Unprogressed (fun _ => True) (upload fileLength put total) := by
  intro s hs
  have hbytes := @uploadFileBytes_gaveUp fileLength put total (s.newPut put total) trivial
  rw [run_upload]
  cases hrun : (uploadFileBytes fileLength put total).run (s.newPut put total) with
  | ok etag sending => exact ⟨trivial, hs⟩
  | error e sending =>
      rw [hrun] at hbytes
      exact ⟨hbytes.1, hs⟩

theorem attemptResumableUpload_unprogressed (params : Params) :
    Unprogressed (fun _ => True) (attemptResumableUpload params fileLength fate) := by
  have herror : ∀ e : UploadError, e.gaveUp = false → Unprogressed (fun _ => True)
      (if e.requeries then do
        let resp ← queryServerState fileLength fate.requery
        if resp.status = 400 then throw (.resumable .badRequest .abort)
        else throw e
      else throw e : Upload Text) := by
    intro e he
    split
    · refine .bind (queryServerState_unprogressed fate.requery) fun resp _ => ?_
      split
      · exact .throw rfl
      · exact .throw he
    · exact .throw he
  refine .bind findServerEnd_unprogressed fun serverEnd _ => ?_
  dsimp only
  split
  · exact .bind (.modify fun _ hs => hs) fun _ _ =>
      (upload_unprogressed _ _).attempt_bind (fun _ _ => .pure trivial) herror
  · exact (upload_unprogressed _ _).attempt_bind (fun _ _ => .pure trivial) herror

theorem tryOnce_unprogressed (params : Params) :
    Unprogressed (fun _ => True) (tryOnce params fileLength fate) := by
  refine .bind (attemptResumableUpload_unprogressed params) fun etag _ =>
    .bind (.modify fun _ hs => hs) fun _ _ => .bind .get fun s _ => ?_
  split
  · exact .throw rfl
  · exact .pure trivial

end

/-! ## Runs -/

/-- What becomes of a failed attempt, as no progress is seen. -/
theorem trackProgressLessIterations_of_unprogressed {params : Params} {progressLess : ℕ}
    {before self : State} (hself : self.serverHasBytes = 0) :
    trackProgressLessIterations params progressLess before self =
      if params.numRetries < progressLess + 1 then
        .raised (.resumable .tooManyAttempts .abortCurProcess)
          { self with digesters := before.digesters }
      else .again (progressLess + 1) { self with digesters := before.digesters } := by
  rw [trackProgressLessIterations, if_neg (by omega)]

/-- The count grows with every failure, and the upload is given up when it is above
`num_retries`. -/
theorem failures_spec {params : Params} {fileLength progressLess : ℕ} {fates : List Fate}
    {self : State} (hself : self.serverHasBytes = 0) (hcount : progressLess ≤ params.numRetries) :
    (∀ failure ∈ failures params fileLength progressLess fates self,
        failure.progressLess ≠ 0) ∧
      ((∃ e, (rounds params fileLength progressLess fates self).outcome = .raised e ∧
          e.gaveUp = true) ↔
        progressLess + (failures params fileLength progressLess fates self).length =
          params.numRetries + 1) := by
  induction fates generalizing progressLess self with
  | nil =>
      refine ⟨fun _ h => (List.not_mem_nil h).elim, iff_of_false ?_ ?_⟩
      · rintro ⟨e, he, -⟩
        cases he
      · rw [failures, List.length_nil]
        omega
  | cons fate fates ih =>
      have htry := @tryOnce_unprogressed fileLength fate params self hself
      rw [rounds, failures, round]
      cases hrun : (tryOnce params fileLength fate).run self with
      | ok _ next =>
          refine ⟨fun _ h => (List.not_mem_nil h).elim, iff_of_false ?_ ?_⟩
          · rintro ⟨e, he, -⟩
            cases he
          · rw [List.length_nil]
            omega
      | error e next =>
          rw [hrun] at htry
          obtain ⟨hgaveUp, hnext⟩ := htry
          dsimp only
          split
          · rw [trackProgressLessIterations_of_unprogressed hnext]
            by_cases hlast : params.numRetries < progressLess + 1
            · rw [if_pos hlast]
              refine ⟨fun failure hmem => ?_,
                iff_of_true ⟨.resumable .tooManyAttempts .abortCurProcess, rfl, rfl⟩ ?_⟩
              · rw [List.mem_singleton.mp hmem]
                exact Nat.succ_ne_zero _
              · rw [List.length_singleton]
                omega
            · rw [if_neg hlast]
              obtain ⟨hcounts, hiff⟩ := @ih (progressLess + 1)
                { next with digesters := self.digesters } hnext (by omega)
              refine ⟨fun failure hmem => ?_, ?_⟩
              · rcases List.mem_cons.mp hmem with rfl | hmem
                · exact Nat.succ_ne_zero _
                · exact hcounts failure hmem
              · dsimp only
                rw [hiff, List.length_cons]
                omega
          · refine ⟨fun _ h => (List.not_mem_nil h).elim, iff_of_false ?_ ?_⟩
            · rintro ⟨e', he', hgave⟩
              cases he'
              rw [hgaveUp] at hgave
              cases hgave
            · rw [List.length_nil]
              omega

/-- A handler that was just made gives up with the failure after `num_retries` ones, whether
there was progress or not. -/
theorem gaveUp_iff (params : Params) (fates : List Fate) {self : State}
    (hself : self.serverHasBytes = 0) :
    (∃ e, (sendFile params fates self).outcome = .raised e ∧ e.gaveUp = true) ↔
      (sendFileFailures params fates self).length = params.numRetries + 1 := by
  have hspec := (@failures_spec params self.fp.content.length 0 fates (self.prepared params)
    hself (Nat.zero_le _)).2
  rwa [Nat.zero_add] at hspec

/-- The retries of a handler that was just made are as documented when no failed attempt made
progress, and in no other case. -/
theorem retries_right_iff (params : Params) (fates : List Fate) (self : State)
    (hself : self.serverHasBytes = 0) :
    RetriesRight params.numRetries (sendFileFailures params fates self)
        (sendFile params fates self).outcome ↔
      ∀ failure ∈ sendFileFailures params fates self, ¬failure.Grew := by
  have hcounts := (@failures_spec params self.fp.content.length 0 fates (self.prepared params)
    hself (Nat.zero_le _)).1
  constructor
  · intro hright failure hmem hgrew
    exact hcounts failure hmem (hright.reset failure hmem hgrew)
  · intro hnone
    refine ⟨fun failure hmem hgrew => (hnone failure hmem hgrew).elim, fun e he hgave => ?_⟩
    have hlength := (gaveUp_iff params fates hself).mp ⟨e, he, hgave⟩
    exact ⟨[], sendFileFailures params fates self, rfl, by omega, hnone⟩

/-- A PUT that breaks behind the bytes, of which the server keeps some. -/
def broken (kept : ℕ) : Fate :=
  { resumed (some 2) with
    put := { (resumed (some 2)).put with kept := kept } }

/-- Two attempts of which the server keeps nothing, and one retry. -/
theorem retries_right_without_progress :
    RetriesRight 1 (sendFileFailures { plainFile with numRetries := 1 } [broken 0, broken 0]
      (threeBytes [])) (sendFile { plainFile with numRetries := 1 } [broken 0, broken 0]
        (threeBytes [])).outcome :=
  (retries_right_iff { plainFile with numRetries := 1 } [broken 0, broken 0] (threeBytes [])
    rfl).mpr (by decide +kernel)

/-- Two attempts after which the server has two bytes and then three: the upload is given up
with one retry left. -/
theorem retries_wrong : ¬∀ (params : Params) (fates : List Fate) (self : State),
    self.serverHasBytes = 0 →
    (∀ failure ∈ sendFileFailures params fates self,
      failure.before.held.length ≤ failure.after.held.length) →
    RetriesRight params.numRetries (sendFileFailures params fates self)
      (sendFile params fates self).outcome := by
  intro hclaim
  have hright := hclaim { plainFile with numRetries := 1 } [broken 2, broken 1] (threeBytes [])
    rfl (by decide +kernel)
  have hreset := hright.reset
  revert hreset
  decide +kernel

end Boto.GS
