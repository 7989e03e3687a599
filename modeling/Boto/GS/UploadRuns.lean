import Boto.GS.Put

/-!
# Runs of a resumable upload

An attempt catches up the digests and the position with what the server holds,
except in two cases: the server holds exactly one byte, which the code takes for
nothing, and an upload starts over with the file not at its start.  A run in
which neither happens sends what the server lacks, attempt by attempt.
-/

namespace Boto.GS

open EStateM Files

variable {content : Bytes} {algs : List Text}

/-! ## Where an attempt starts -/

/-- The POST makes a new upload. -/
def PostFate.opens (contentLength : Bool) : PostFate → Bool
  | .raises _ => false
  | .answered status location saved =>
      !contentLength && (status == 200 || status == 201) &&
        location == .uri && saved

/-- The state between two attempts. -/
structure Ready (content : Bytes) (algs : List Text) (s : State) : Prop where
  file : s.fp.content = content
  digesters : s.digesters = .fed algs []
  held : s.held <+: content
  puts : ∀ put ∈ s.puts, put.Right content

/-- What is kept of the state `s` when something was raised. -/
structure Survives (content : Bytes) (s s' : State) : Prop where
  file : s'.fp.content = content
  held : s'.held <+: content
  puts : ∀ put ∈ s'.puts, put.Right content
  progress : s'.serverHasBytes ≤ s.serverHasBytes

theorem startNewResumableUpload_meets (contentLength : Bool) (fate : PostFate)
    (s : State) :
    ((startNewResumableUpload contentLength fate).run s).Meets
      (fun _ s' => fate.opens contentLength = true ∧
        s' = { s with tracker := true, serverHasBytes := 0, held := [] })
      (fun e s' => e.isFileChanged = false ∧ s'.fp = s.fp ∧ s'.puts = s.puts ∧
        s'.serverHasBytes = 0 ∧ (s'.held = s.held ∨ s'.held = [])) := by
  simp only [startNewResumableUpload, run_bind, run_modify]
  cases contentLength with
  | true => exact ⟨rfl, rfl, rfl, rfl, Or.inl rfl⟩
  | false =>
      simp only [Bool.false_eq_true, if_false]
      cases fate with
      | raises error => exact ⟨rfl, rfl, rfl, rfl, Or.inl rfl⟩
      | answered status location saved =>
          dsimp only
          split
          · exact ⟨rfl, rfl, rfl, rfl, Or.inl rfl⟩
          split
          · exact ⟨rfl, rfl, rfl, rfl, Or.inl rfl⟩
          rename_i hretry hstatus
          cases location with
          | missing => exact ⟨rfl, rfl, rfl, rfl, Or.inl rfl⟩
          | invalid => exact ⟨rfl, rfl, rfl, rfl, Or.inl rfl⟩
          | uri =>
              cases saved with
              | false => exact ⟨rfl, rfl, rfl, rfl, Or.inr rfl⟩
              | true =>
                  refine ⟨?_, rfl⟩
                  simp [PostFate.opens]
                  omega

/-- A server that knows the upload says how much of it it holds. -/
theorem run_queryServerPos_known {s : State} (complete : Bool) :
    (queryServerPos content.length (.known complete)).run s =
      .ok (0, (s.held.length : ℤ) - 1) s := by
  rw [queryServerPos, run_bind, queryServerState, run_bind, run_get]
  dsimp only
  by_cases hall : complete = true ∧ s.held.length = content.length
  · simp only [if_pos hall, run_pure]
    rw [hall.2]
    rfl
  · simp only [if_neg hall]
    by_cases hnil : s.held = []
    · simp only [hnil]
      rfl
    · have hpos := List.length_pos_iff.mpr hnil
      have hlast : ((s.held.length - 1 : ℕ) : ℤ) = s.held.length - 1 := by
        omega
      simp only [if_neg hnil]
      rw [← hlast]
      rfl

/-- Catching up gives the digesters what the server has, and moves the file
behind it. -/
theorem run_catchUp {keyBufferSize fuel n : ℕ} {old : Bytes} {s : State}
    (hbuf : 0 < keyBufferSize) (hfuel : n ≤ fuel)
    (hrest : n ≤ s.fp.rest.length) (hs : s.digesters = .fed algs old) :
    ∃ fp, (catchUp keyBufferSize fuel n).run s =
      .ok () { s with fp := fp, digesters := .fed algs (old ++ s.fp.rest.take n) } ∧
      fp.content = s.fp.content ∧ fp.rest = s.fp.rest.drop n := by
  induction fuel generalizing n old s with
  | zero =>
      obtain rfl : n = 0 := by omega
      exact ⟨s.fp, by simp [catchUp, ← hs], rfl, rfl⟩
  | succ fuel ih =>
      by_cases hn : n = 0
      · subst hn
        exact ⟨s.fp, by simp [catchUp, ← hs], rfl, rfl⟩
      · have hchunk : (s.fp.rest.take (min keyBufferSize n)).length =
            min keyBufferSize n := by
          rw [List.length_take]
          omega
        have hne : s.fp.rest.take (min keyBufferSize n) ≠ [] := by
          rw [← List.length_pos_iff]
          omega
        rw [catchUp, if_neg hn, run_bind, run_get]
        dsimp only
        rw [run_bind]
        simp only [run_modify, File.read_fst, if_neg hne, run_bind, hchunk]
        obtain ⟨fp, hrun, hcontent, hfp⟩ := @ih (n - min keyBufferSize n)
          (old ++ s.fp.rest.take (min keyBufferSize n))
          { s with
            fp := (s.fp.read (min keyBufferSize n)).2
            digesters := s.digesters.update
              (s.fp.rest.take (min keyBufferSize n)) } (by omega)
          (by simp only [File.rest_read, List.length_drop]; omega)
          (by simp [hs])
        refine ⟨fp, ?_, hcontent, ?_⟩
        · have hsplit : s.fp.rest.take n =
              s.fp.rest.take (min keyBufferSize n) ++
                (s.fp.rest.drop (min keyBufferSize n)).take
                  (n - min keyBufferSize n) := by
            rw [← List.take_add]
            congr 1
            omega
          rw [hrun, hsplit, ← List.append_assoc, File.rest_read]
        · rw [hfp, File.rest_read, List.drop_drop]
          congr 1
          omega

/-- The server answers with what it holds. -/
def QueryFate.isKnown : QueryFate → Bool
  | .known _ => true
  | _ => false

/-- The server does not know the upload. -/
def QueryFate.isUnknown : QueryFate → Bool
  | .unknown _ => true
  | _ => false

/-- The attempt does not meet one of the two cases in which the code goes wrong:
the server knows the upload and holds exactly one byte, or an upload is started
while the file is not at its start. -/
def AttemptOk (contentLength : Bool) (s : State) (fate : Fate) : Prop :=
  (s.tracker = true → fate.query.isKnown = true → s.held.length ≠ 1) ∧
    ((s.tracker = false ∨ fate.query.isUnknown = true) →
      fate.post.opens contentLength = true → s.fp.rest = s.fp.content)

instance (contentLength : Bool) (s : State) (fate : Fate) :
    Decidable (AttemptOk contentLength s fate) :=
  inferInstanceAs (Decidable
    ((s.tracker = true → fate.query.isKnown = true → s.held.length ≠ 1) ∧
      ((s.tracker = false ∨ fate.query.isUnknown = true) →
        fate.post.opens contentLength = true → s.fp.rest = s.fp.content)))

/-- The file and the digesters are where the server is. -/
structure Located (content : Bytes) (algs : List Text) (s : State) (e : ℤ)
    (s' : State) : Prop where
  survives : Survives content s s'
  rest : s'.fp.rest = content.drop (e + 1).toNat
  digesters : s'.digesters = .fed algs (content.take (e + 1).toNat)
  length : s'.held.length = (e + 1).toNat

theorem Ready.survives {s : State} (hs : Ready content algs s) :
    Survives content s s where
  file := hs.file
  held := hs.held
  puts := hs.puts
  progress := Nat.le_refl _

/-- An upload that is started with the file at its start. -/
theorem start_meets {s t : State} (ht : Ready content algs t)
    {contentLength : Bool} {fate : PostFate}
    (hok : fate.opens contentLength = true → t.fp.rest = t.fp.content) :
    ((do
      startNewResumableUpload contentLength fate
      return -1 : Upload ℤ).run t).Meets
      (Located content algs s)
      (fun e s' => e.isFileChanged = false ∧ Survives content s s') := by
  refine meets_bind
    ((startNewResumableUpload_meets contentLength fate t).mono
      (fun _ _ h => h) ?_) ?_
  · rintro e s' ⟨he, hfp, hputs, hprogress, hheld⟩
    refine ⟨he, ?_, ?_, ?_, ?_⟩
    · rw [hfp, ht.file]
    · rcases hheld with hsame | hnil
      · rw [hsame]
        exact ht.held
      · rw [hnil]
        exact List.nil_prefix
    · rw [hputs]
      exact ht.puts
    · rw [hprogress]
      exact Nat.zero_le _
  · rintro _ _ ⟨hopens, rfl⟩
    exact
      { survives :=
          { file := ht.file
            held := List.nil_prefix
            puts := ht.puts
            progress := Nat.zero_le _ }
        rest := (hok hopens).trans ht.file
        digesters := ht.digesters
        length := rfl }

theorem findServerEnd_meets {s : State} {keyBufferSize : ℕ}
    (hbuf : 0 < keyBufferSize) (hs : Ready content algs s)
    {contentLength : Bool} {fate : Fate}
    (hok : AttemptOk contentLength s fate) :
    ((findServerEnd content.length keyBufferSize contentLength fate).run
      s).Meets
      (Located content algs s)
      (fun e s' => e.isFileChanged = false ∧ Survives content s s') := by
  rw [findServerEnd, run_bind, run_get]
  dsimp only
  cases htracker : s.tracker with
  | false =>
      simp only [Bool.false_eq_true, if_false]
      exact start_meets hs (hok.2 (Or.inl htracker))
  | true =>
      simp only [if_true]
      rw [run_bind, run_attempt]
      cases hquery : fate.query with
      | raises error => exact ⟨rfl, hs.survives⟩
      | unknown status =>
          have hstart := hok.2 (Or.inr (by rw [hquery]; rfl))
          have hrun : (queryServerPos content.length (.unknown status)).run s =
              .error (.resumable (.queryResponse status.code) .startOver)
                { s with held := [] } := by
            rw [queryServerPos, run_bind]
            simp only [queryServerState, run_bind, run_modify, run_pure,
              if_neg status.ne_ok, if_pos status.ne_resume, run_throw_any]
          rw [hrun]
          exact start_meets (t := { s with held := [] })
            ⟨hs.file, hs.digesters, List.nil_prefix, hs.puts⟩ hstart
      | known complete =>
          have hone := hok.1 htracker (by rw [hquery]; rfl)
          rw [run_queryServerPos_known]
          dsimp only
          have hend : (s.held.length : ℤ) - 1 ≠ 0 := by omega
          have htotal : ((s.held.length : ℤ) - 1 + 1).toNat = s.held.length := by
            omega
          have hle := hs.held.length_le
          obtain ⟨fp, hcatch, hcontent, hrest⟩ := @run_catchUp algs keyBufferSize
            s.held.length s.held.length []
            { s with serverHasBytes := 0, fp := { s.fp with pos := 0 } } hbuf
            (Nat.le_refl _) (by simp [File.rest, hs.file, hle]) hs.digesters
          rw [run_bind]
          simp only [run_modify, if_neg hend, seek, run_bind, run_attempt, htotal,
            hcatch]
          exact
            { survives :=
                { file := hcontent.trans hs.file
                  held := hs.held
                  puts := hs.puts
                  progress := Nat.zero_le _ }
              rest := by
                rw [htotal, hrest, ← hs.file]
                rfl
              digesters := by
                rw [htotal, ← hs.file]
                rfl
              length := htotal.symm }

/-! ## Attempts -/

/-- What the server keeps of the rest of the file continues what it has. -/
theorem held_append_prefix {held kept : Bytes} (hheld : held <+: content)
    (hkept : kept <+: content.drop held.length) : held ++ kept <+: content := by
  obtain ⟨rest, rfl⟩ := hheld
  rw [List.drop_left] at hkept
  exact (List.prefix_append_right_inj held).mpr hkept

theorem Survives.afterPut {s t : State} (ht : Survives content s t)
    {sending : Sending} {kept : Bytes} (hfile : sending.fp.content = content)
    (hput : sending.put.Right content) (hheld : sending.put.held = t.held)
    (hkept : kept <+: sending.put.sent) :
    Survives content s (t.afterPut sending kept) where
  file := hfile
  held := by
    simp only [State.afterPut, hheld]
    apply held_append_prefix ht.held
    rw [← hheld, ← hput.total]
    exact hkept.trans hput.sent
  puts := by
    simp only [State.afterPut, List.forall_mem_append, List.forall_mem_singleton]
    exact ⟨ht.puts, hput⟩
  progress := ht.progress

/-- The PUT that `upload` makes. -/
def State.newPut (self : State) (fate : PutFate) (total : ℕ) : Sending where
  fp := self.fp
  digesters := self.digesters
  put :=
    { total := total, held := self.held, sent := [], complete := false
      callsLeft := fate.callsLeft }

theorem run_upload (fileLength : ℕ) (fate : PutFate) (total : ℕ) (s : State) :
    (upload fileLength fate total).run s =
      match (uploadFileBytes fileLength fate total).run
          (s.newPut fate total) with
      | .ok etag sending => .ok etag (s.afterPut sending sending.put.sent)
      | .error e sending =>
          .error e (s.afterPut sending (sending.put.sent.take fate.kept)) := rfl

theorem upload_meets {s t : State} {e : ℤ} (ht : Located content algs s e t)
    (fate : PutFate) :
    ((upload content.length fate (e + 1).toNat).run t).Meets
      (fun etag s' => etag = fate.etag ∧ Survives content s s' ∧
        s'.digesters = .fed algs content)
      (fun e s' => e.isFileChanged = false ∧ Survives content s s') := by
  have hle : (e + 1).toNat ≤ content.length := by
    rw [← ht.length]
    exact ht.survives.held.length_le
  have hplaced : Placed content algs (e + 1).toNat t.held
      (t.newPut fate (e + 1).toNat) :=
    ⟨ht.survives.file, ht.rest, ht.digesters, rfl, rfl, rfl, rfl⟩
  have hput := uploadFileBytes_meets fate hplaced ht.length.symm hle
  rw [run_upload]
  cases hrun : (uploadFileBytes content.length fate (e + 1).toNat).run
      (t.newPut fate (e + 1).toNat) with
  | ok etag sending =>
      rw [hrun] at hput
      obtain ⟨hetag, hfile, hright, hheld, hdigesters⟩ := hput
      exact ⟨hetag, ht.survives.afterPut hfile hright hheld List.prefix_rfl,
        hdigesters⟩
  | error error sending =>
      rw [hrun] at hput
      obtain ⟨hfile, hright, hheld, herror⟩ := hput
      exact ⟨herror,
        ht.survives.afterPut hfile hright hheld (List.take_prefix _ _)⟩

theorem queryServerState_meets {s t : State} (ht : Survives content s t)
    (fileLength : ℕ) (fate : QueryFate) :
    ((queryServerState fileLength fate).run t).Meets
      (fun _ s' => Survives content s s')
      (fun e s' => e.isFileChanged = false ∧ Survives content s s') := by
  cases fate with
  | raises error => exact ⟨rfl, ht⟩
  | unknown status => exact ⟨ht.file, List.nil_prefix, ht.puts, ht.progress⟩
  | known complete =>
      simp only [queryServerState, run_bind, run_get]
      split
      · exact ht
      · split
        · exact ht
        · exact ht

section

variable {params : Params} {s : State} {fate : Fate}
    (hbuf : 0 < params.keyBufferSize) (hs : Ready content algs s)
    (hok : AttemptOk params.contentLength s fate)

include hbuf hs hok

theorem attemptResumableUpload_meets :
    ((attemptResumableUpload params content.length fate).run s).Meets
      (fun etag s' => etag = fate.put.etag ∧ Survives content s s' ∧
        s'.digesters = .fed algs content)
      (fun e s' => e.isFileChanged = false ∧ Survives content s s') := by
  rw [attemptResumableUpload]
  refine meets_bind
    ((findServerEnd_meets hbuf hs hok).mono (fun _ _ h => h) fun _ _ h => h) ?_
  intro e t ht
  have hle : ¬ content.length < (e + 1).toNat := by
    rw [← ht.length]
    exact Nat.not_lt.mpr ht.survives.held.length_le
  have hupload := upload_meets ht fate.put
  simp only [if_neg hle]
  rw [run_bind, run_attempt]
  cases hrun : (upload content.length fate.put (e + 1).toNat).run t with
  | ok etag t' =>
      rw [hrun] at hupload
      exact hupload
  | error error t' =>
      rw [hrun] at hupload
      obtain ⟨herror, ht'⟩ := hupload
      dsimp only
      split
      · refine meets_bind (queryServerState_meets ht' _ _) ?_
        intro resp t'' ht''
        split
        · exact ⟨rfl, ht''⟩
        · exact ⟨herror, ht''⟩
      · exact ⟨herror, ht'⟩

/-- The response to the PUT carries the MD5 of the file, and MD5 is among the
digests. -/
def EtagRight (params : Params) (content : Bytes) (algs : List Text)
    (fate : Fate) : Prop :=
  "md5".toList ∈ algs ∧
    params.hexdigest (.of "md5".toList content) = stripQuotes fate.put.etag

/-- One round of the `try` in `send_file`. -/
theorem tryOnce_meets :
    ((tryOnce params content.length fate).run s).Meets
      (fun _ s' => Survives content s s' ∧
        ∀ alg ∈ algs, s'.localHashes.lookup alg = some (.of alg content))
      (fun e s' => Survives content s s' ∧
        (e.isFileChanged = false ∨
          e = .resumable .etagMismatch .abort ∧
            ¬ EtagRight params content algs fate)) := by
  rw [tryOnce]
  refine meets_bind
    ((attemptResumableUpload_meets hbuf hs hok).mono (fun _ _ h => h) ?_) ?_
  · rintro e s' ⟨herror, hs'⟩
    exact ⟨hs', Or.inl herror⟩
  rintro _ t ⟨rfl, ht, hdigesters⟩
  have hhashes : ∀ alg ∈ algs,
      (t.digesters.digests ++ t.localHashes).lookup alg =
        some (.of alg content) := by
    intro alg halg
    rw [hdigesters]
    exact Digesters.lookup_digests_fed algs content halg _
  have hsurvives : Survives content s
      { t with localHashes := t.digesters.digests ++ t.localHashes } :=
    ⟨ht.file, ht.held, ht.puts, ht.progress⟩
  rw [run_bind]
  simp only [run_modify, run_bind, run_get]
  split
  · rename_i hmismatch
    refine ⟨hsurvives, Or.inr ⟨rfl, ?_⟩⟩
    rintro ⟨hmd5, hetag⟩
    apply hmismatch
    simp only [State.md5, hhashes _ hmd5, hetag]
  · exact ⟨hsurvives, hhashes⟩

end

/-! ## Runs -/

/-- No attempt of the run meets one of the two cases. -/
def RunOk (params : Params) (fileLength : ℕ) : ℕ → List Fate → State → Prop
  | _, [], _ => True
  | progressLess, fate :: fates, self =>
      AttemptOk params.contentLength self fate ∧
        match round params fileLength progressLess fate self with
        | .again progressLess' self' =>
            RunOk params fileLength progressLess' fates self'
        | _ => True

instance RunOk.decide (params : Params) (fileLength : ℕ) :
    (progressLess : ℕ) → (fates : List Fate) → (self : State) →
      Decidable (RunOk params fileLength progressLess fates self)
  | _, [], _ => isTrue trivial
  | progressLess, fate :: fates, self =>
      have : Decidable (match round params fileLength progressLess fate self with
          | .again progressLess' self' =>
              RunOk params fileLength progressLess' fates self'
          | _ => True) :=
        match round params fileLength progressLess fate self with
        | .again progressLess' self' =>
            RunOk.decide params fileLength progressLess' fates self'
        | .returned _ => isTrue trivial
        | .raised _ _ => isTrue trivial
      inferInstanceAs (Decidable (AttemptOk params.contentLength self fate ∧ _))

/-- What is asked of a run: every PUT sends what the server lacks, no attempt
takes the file for changed, and an upload that returns has the digests of the
file. -/
structure Run.Right (params : Params) (content : Bytes) (algs : List Text)
    (fates : List Fate) (run : Run) : Prop where
  puts : ∀ put ∈ run.state.puts, put.Right content
  unchanged : ∀ e, run.outcome = .raised e → e.isFileChanged = false ∨
    e = .resumable .etagMismatch .abort ∧
      ∃ fate ∈ fates, ¬ EtagRight params content algs fate
  hashes : run.outcome = .returned →
    ∀ alg ∈ algs, run.state.localHashes.lookup alg = some (.of alg content)

/-- What a round of the loop leaves. -/
def Next.Right (params : Params) (content : Bytes) (algs : List Text)
    (fate : Fate) : Next → Prop
  | .returned t => (∀ put ∈ t.puts, put.Right content) ∧
      ∀ alg ∈ algs, t.localHashes.lookup alg = some (.of alg content)
  | .raised e t => (∀ put ∈ t.puts, put.Right content) ∧
      (e.isFileChanged = false ∨ e = .resumable .etagMismatch .abort ∧
        ¬ EtagRight params content algs fate)
  | .again _ t => Ready content algs t

section

variable {params : Params} (hbuf : 0 < params.keyBufferSize)

include hbuf

/-- After a failed attempt the next one starts like the first. -/
theorem round_right {progressLess : ℕ} {fate : Fate} {s : State}
    (hs : Ready content algs s) (hok : AttemptOk params.contentLength s fate) :
    (round params content.length progressLess fate s).Right params content algs
      fate := by
  have htry := tryOnce_meets hbuf hs hok
  rw [round]
  cases hrun : (tryOnce params content.length fate).run s with
  | ok _ s' =>
      rw [hrun] at htry
      exact ⟨htry.1.puts, htry.2⟩
  | error e s' =>
      rw [hrun] at htry
      obtain ⟨hs', herror⟩ := htry
      have hprogress : ¬ s.serverHasBytes < s'.serverHasBytes :=
        Nat.not_lt.mpr hs'.progress
      dsimp only
      split
      · rw [trackProgressLessIterations, if_neg hprogress]
        dsimp only
        split
        · exact ⟨hs'.puts, Or.inl rfl⟩
        · exact ⟨hs'.file, hs.digesters, hs'.held, hs'.puts⟩
      · exact ⟨hs'.puts, herror⟩

theorem rounds_right {progressLess : ℕ} {fates : List Fate} {s : State}
    (hs : Ready content algs s)
    (hok : RunOk params content.length progressLess fates s) :
    (rounds params content.length progressLess fates s).Right params content
      algs fates := by
  induction fates generalizing progressLess s with
  | nil => exact ⟨hs.puts, by simp [rounds], by simp [rounds]⟩
  | cons fate fates ih =>
      obtain ⟨hattempt, hlater⟩ := hok
      have hround := @round_right _ _ _ hbuf progressLess _ _ hs hattempt
      rw [rounds]
      cases hnext : round params content.length progressLess fate s with
      | returned t =>
          rw [hnext] at hround
          exact ⟨hround.1, by simp, fun _ => hround.2⟩
      | raised e t =>
          rw [hnext] at hround
          refine ⟨hround.1, ?_, by simp⟩
          intro e' he
          obtain rfl := Outcome.raised.inj he
          exact hround.2.imp_right fun h => ⟨h.1, fate, by simp, h.2⟩
      | again progressLess' t =>
          rw [hnext] at hround hlater
          have hright := ih hround hlater
          exact
            { puts := hright.puts
              unchanged := fun e he => (hright.unchanged e he).imp_right
                fun ⟨hmismatch, fate', hmem, hetag⟩ =>
                  ⟨hmismatch, fate', List.mem_cons_of_mem _ hmem, hetag⟩
              hashes := hright.hashes }

end

/-- In every run in which the server never holds exactly one byte when it is
asked, and no upload is started away from the start of the file, each PUT sends
what the server lacks, no attempt takes the file for changed as long as the
server answers with the MD5 of the file, and an upload that returns has the
digests of the whole file. -/
theorem sendFile_right (params : Params) (hbuf : 0 < params.keyBufferSize)
    (fates : List Fate) (self : State) (hheld : self.held <+: self.fp.content)
    (hok : RunOk params self.fp.content.length 0 fates (self.prepared params)) :
    (sendFile params fates self).Right params self.fp.content params.algs
      fates :=
  rounds_right hbuf ⟨rfl, rfl, hheld, by simp [State.prepared]⟩ hok

/-- An upload of a file that is no `KeyFile`. -/
def plainFile : Params where
  isKeyFile := false
  hashAlgs := none
  contentLength := false
  numRetries := 6
  keyBufferSize := 8192
  hexdigest := fun _ => []

/-- A file of three bytes, and a server that holds some bytes for the upload in
the tracker file. -/
def threeBytes (held : Bytes) : State where
  fp := { content := [1, 2, 3], pos := 0 }
  tracker := true
  serverHasBytes := 0
  digesters := []
  localHashes := []
  held := held
  puts := []

/-- A query of the upload, and a PUT on which `callsLeft` calls succeed. -/
def resumed (callsLeft : Option ℕ) : Fate where
  query := .known false
  post := .raises .httpException
  put :=
    { callsLeft := callsLeft, error := .socketError, status := 200, etag := []
      kept := 0 }
  requery := .known false

/-- Two bytes are there; the connection breaks once before the third is sent. -/
theorem sendFile_right_three_bytes :
    (sendFile plainFile [resumed (some 1), resumed none]
      (threeBytes [1, 2])).Right plainFile [1, 2, 3] plainFile.algs
        [resumed (some 1), resumed none] :=
  sendFile_right plainFile (by decide) [resumed (some 1), resumed none]
    (threeBytes [1, 2]) ⟨[3], rfl⟩ (by decide)

/-- One byte is there: the code takes it for nothing, and then the file for
changed. -/
theorem sendFile_ignores_single_byte :
    ¬ ∀ (params : Params) (fates : List Fate) (self : State),
      0 < params.keyBufferSize → self.held <+: self.fp.content →
      (sendFile params fates self).Right params self.fp.content params.algs
        fates := by
  intro hall
  have hright := hall plainFile [resumed none] (threeBytes [1]) (by decide)
    ⟨[2, 3], rfl⟩
  have hraised : (sendFile plainFile [resumed none] (threeBytes [1])).outcome =
      .raised (.resumable (.fileChanged 4 3) .abort) := by decide
  rcases hright.unchanged _ hraised with hunchanged | ⟨hmismatch, -⟩
  · exact absurd hunchanged (by decide)
  · exact absurd hmismatch (by decide)

end Boto.GS
