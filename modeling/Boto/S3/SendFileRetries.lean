import Boto.S3.SentBytes

/-!
# Sending a file with retries

The sender runs once for every attempt, and its digesters run on from one to the
next.  What is sent is what was asked for unless that is a size of 0, and what is
hashed is what is sent unless an earlier attempt got as far as its first chunk.
-/

namespace Boto.S3.SendFile

open EStateM Files

/-- The attempts before the last one that was made. -/
def Run.failed (run : Run) : List Attempt :=
  (run.records.map Record.attempt).dropLast

/-! ## Runs of the loop -/

section

variable {request : Request} {content : Bytes} {algs : List Text} {spos : ℕ}

/-- What a run has done that started with digesters which were given `old`. -/
structure Retried (request : Request) (content : Bytes) (algs : List Text)
    (spos : ℕ) (old : Bytes) (run : Run) : Prop where
  sent : ∀ record ∈ run.records, record.conn.asked = true →
    Carries request.chunkedTransfer record.conn.sent.flatten
      (limit request.size (content.drop spos))
  returned : ∀ response, run.outcome = some (.ok response) →
    run.records ≠ [] ∧
    run.state.size = some (limit request.size (content.drop spos)).length ∧
    ∃ fed, (fed = [] ↔ content.drop spos = [] ∨
        ∀ attempt ∈ run.failed,
          attempt.BreaksBeforeHash request.chunkedTransfer) ∧
      ∀ alg ∈ algs, run.state.localHashes.lookup alg =
        some (.of alg (old ++ fed ++ limit request.size (content.drop spos)))

theorem Attempted.sent {attempt : Attempt} {old fed : Bytes} {s : Exchange}
    (h : Attempted request content algs spos attempt old fed s)
    (hasked : s.conn.asked = true) :
    Carries request.chunkedTransfer s.conn.sent.flatten
      (limit request.size (content.drop spos)) := by
  rw [← h.all hasked]
  exact (h.complete hasked).carries

/-- An attempt that is followed by others. -/
theorem Retried.after {attempt : Attempt} {old fed : Bytes} {s : Exchange}
    {run : Run} (h : Attempted request content algs spos attempt old fed s)
    (hrun : Retried request content algs spos (old ++ fed) run) :
    Retried request content algs spos old
      (run.after { attempt := attempt, conn := s.conn }) where
  sent := List.forall_mem_cons.mpr ⟨h.sent, hrun.sent⟩
  returned := by
    intro response hresponse
    obtain ⟨hne, hsize, fed', hnothing, hhashes⟩ :=
      hrun.returned response hresponse
    refine ⟨by simp [Run.after], hsize, fed ++ fed', ?_, ?_⟩
    · have hfailed : (run.after { attempt := attempt, conn := s.conn }).failed =
          attempt :: run.failed := by
        simp only [Run.failed, Run.after, List.map_cons]
        rw [List.dropLast_cons_of_ne_nil (by simpa using hne)]
      rw [hfailed, List.append_eq_nil_iff, h.nothing_iff, hnothing,
        List.forall_mem_cons]
      tauto
    · intro alg halg
      rw [← List.append_assoc old]
      exact hhashes alg halg

/-- An attempt that is the last one. -/
theorem Retried.stop {attempt : Attempt} {old fed : Bytes} {s : Exchange}
    {outcome : Except SendError Response}
    (h : Attempted request content algs spos attempt old fed s)
    (hasked : ∀ response, outcome = .ok response → s.conn.asked = true) :
    Retried request content algs spos old
      { records := [{ attempt := attempt, conn := s.conn }]
        outcome := some outcome
        state := s.state } where
  sent := by simpa using h.sent
  returned := by
    intro response hresponse
    have htrue := hasked response (Option.some.inj hresponse)
    have hcomplete := h.complete htrue
    rw [← h.all htrue]
    refine ⟨by simp, hcomplete.size, [], by simp [Run.failed], ?_⟩
    simpa using hcomplete.hashes

/-- Without another attempt nothing is sent. -/
theorem Retried.none {old : Bytes} {outcome : Option (Except SendError Response)}
    {state : State} (h : ∀ response, outcome ≠ some (.ok response)) :
    Retried request content algs spos old
      { records := [], outcome := outcome, state := state } where
  sent := by simp
  returned := fun response hresponse => absurd hresponse (h response)

theorem mexe_retried (hbuf : 0 < request.bufferSize) {old : Bytes}
    {numRetries i : ℕ} {response : Option Response} {ex : Option SendError}
    {attempts : List Attempt} {state : State}
    (hs : Holds content algs old state) :
    Retried request content algs spos old
      (mexe request (some spos) numRetries i response ex attempts state) := by
  induction attempts generalizing old i response ex state with
  | nil =>
      rw [mexe]
      split
      · exact .none (by simp)
      · exact .none (by simp)
  | cons attempt attempts ih =>
      rw [mexe]
      split
      · exact .none (by simp)
      have hsender := @sender_meets request content algs old hbuf spos
        { state := state, conn := .fresh attempt } attempt hs rfl
      cases hrun : (sender request (some spos)).run
          { state := state, conn := .fresh attempt } with
      | ok response s' =>
          rw [hrun] at hsender
          obtain ⟨hasked, fed, hfed⟩ := hsender
          simp only [Result.state_ok]
          split_ifs
          · exact .after hfed (ih hfed.holds)
          · exact .stop hfed fun _ _ => hasked
          · exact .after hfed (ih hfed.holds)
      | error e s' =>
          rw [hrun] at hsender
          obtain ⟨fed, hfed⟩ := hsender
          simp only [Result.state_error]
          split
          · exact .after hfed (ih hfed.holds)
          · exact .after hfed (ih hfed.holds)
          · exact .stop hfed (by simp)

end

/-! ## What was asked for -/

/-- `file[spos : min(spos + size, EOF)]`, and everything behind `spos` without a
size. -/
def requested (size : Option ℕ) (file : File UInt8) : Bytes :=
  match size with
  | none => file.rest
  | some n =>
      slice file.content file.pos (min (file.pos + n) file.content.length)

/-- The size is not 0, or there is nothing to send anyway. -/
def SizeOk (size : Option ℕ) (file : File UInt8) : Prop :=
  size ≠ some 0 ∨ file.rest = []

instance (size : Option ℕ) (file : File UInt8) : Decidable (SizeOk size file) :=
  inferInstanceAs (Decidable (size ≠ some 0 ∨ file.rest = []))

theorem requested_some (n : ℕ) (file : File UInt8) :
    requested (some n) file = file.rest.take n := by
  rw [requested, slice, File.rest, List.drop_take]
  rcases Nat.le_total (file.pos + n) file.content.length with h | h
  · rw [Nat.min_eq_left h, Nat.add_sub_cancel_left]
  · rw [Nat.min_eq_right h, List.take_of_length_le (by simp),
      List.take_of_length_le (by simp; omega)]

/-- The sender sends as much as was asked for only where the size is fine. -/
theorem length_limit_eq_iff (size : Option ℕ) (file : File UInt8) :
    (limit size file.rest).length = (requested size file).length ↔
      SizeOk size file := by
  rcases size with _ | _ | n
  · simp [limit, requested, SizeOk]
  · simp [limit, requested_some, SizeOk]
  · simp [limit, requested_some, SizeOk]

theorem limit_eq_requested {size : Option ℕ} {file : File UInt8}
    (h : SizeOk size file) : limit size file.rest = requested size file := by
  rcases size with _ | _ | n
  · rfl
  · have hrest : file.rest = [] := by simpa [SizeOk] using h
    simp [limit, requested_some, hrest]
  · simp [limit, requested_some]

/-- What is sent for a size of 0 carries the empty range only if it is empty. -/
theorem carries_requested_iff {chunkedTransfer : Bool} {wire : Bytes}
    {size : Option ℕ} {file : File UInt8}
    (h : Carries chunkedTransfer wire (limit size file.rest)) :
    Carries chunkedTransfer wire (requested size file) ↔ SizeOk size file := by
  constructor
  · intro hrange
    by_contra hsize
    obtain ⟨hzero, hrest⟩ := not_or.mp hsize
    obtain rfl := not_not.mp hzero
    rw [requested_some, List.take_zero] at hrange
    exact hrest (h.eq_nil hrange)
  · intro hsize
    rwa [← limit_eq_requested hsize]

/-- The upload did what was asked for: every body that was completed is the
range, and when the upload returns, the size and the digests are those of the
range. -/
structure Right (request : Request) (algs : List Text) (range : Bytes)
    (run : Run) : Prop where
  sent : ∀ record ∈ run.records, record.conn.asked = true →
    Carries request.chunkedTransfer record.conn.sent.flatten range
  size : ∀ response, run.outcome = some (.ok response) →
    run.state.size = some range.length
  hashes : ∀ response, run.outcome = some (.ok response) →
    ∀ alg ∈ algs, run.state.localHashes.lookup alg = some (.of alg range)

/-- A body that was completed is the range exactly if the size is fine, and an
upload that returns did what was asked for exactly if moreover no attempt before
the last one hashed anything, or there is nothing to hash. -/
theorem sendFileInternal_right_iff (request : Request)
    (hbuf : 0 < request.bufferSize) (hashAlgs : Option (List Text))
    (numRetries : ℕ) (attempts : List Attempt) (key : State)
    (hseekable : key.fp.seekable = true) :
    let run := sendFileInternal request hashAlgs numRetries attempts key
    let algs := digesterAlgs request hashAlgs key
    let range := requested request.size key.fp.file
    (∀ record ∈ run.records, record.conn.asked = true →
      (Carries request.chunkedTransfer record.conn.sent.flatten range ↔
        SizeOk request.size key.fp.file)) ∧
    ∀ response, run.outcome = some (.ok response) →
      (Right request algs range run ↔
        SizeOk request.size key.fp.file ∧
          (algs = [] ∨ key.fp.file.rest = [] ∨
            ∀ attempt ∈ run.failed,
              attempt.BreaksBeforeHash request.chunkedTransfer)) := by
  intro run algs range
  have hrun : Retried request key.fp.file.content algs key.fp.file.pos [] run := by
    simp only [run, sendFileInternal, hseekable, if_true]
    exact mexe_retried hbuf ⟨rfl, hseekable, rfl⟩
  refine ⟨fun record hmem hasked =>
    carries_requested_iff (hrun.sent record hmem hasked), ?_⟩
  intro response hresponse
  obtain ⟨-, hsize, fed, hnothing, hhashes⟩ := hrun.returned response hresponse
  constructor
  · intro hright
    have hok : SizeOk request.size key.fp.file := by
      rw [← length_limit_eq_iff]
      exact Option.some.inj (hsize.symm.trans (hright.size response hresponse))
    refine ⟨hok, ?_⟩
    by_cases hnone : algs = []
    · exact Or.inl hnone
    · obtain ⟨alg, halg⟩ := List.exists_mem_of_ne_nil algs hnone
      have hsame := (hhashes alg halg).symm.trans
        (hright.hashes response hresponse alg halg)
      have hfed : fed = [] := by
        simpa [range, ← limit_eq_requested hok, File.rest] using hsame
      exact Or.inr (hnothing.mp hfed)
  · rintro ⟨hok, hearlier⟩
    have hrange : limit request.size key.fp.file.rest = range :=
      limit_eq_requested hok
    exact
      { sent := fun record hmem hasked => by
          rw [← hrange]
          exact hrun.sent record hmem hasked
        size := fun _ _ => by
          rw [← hrange]
          exact hsize
        hashes := fun _ _ alg halg => by
          have hfed : fed = [] := by
            rcases hearlier with hnone | hrest
            · rw [hnone] at halg
              cases halg
            · exact hnothing.mpr hrest
          rw [hhashes alg halg, hfed, ← hrange]
          rfl }

/-- A key whose data are two bytes. -/
def twoBytes : State where
  fp := { file := { content := [1, 2], pos := 0 }, seekable := true }
  digesters := []
  size := none
  localHashes := []
  etag := none
  readFromStream := false

/-- Everything is sent, one byte at a time. -/
def byteByByte : Request where
  chunkedTransfer := false
  size := none
  bufferSize := 1
  hexdigest := fun _ => []

/-- The object was stored, encrypted with a key of the customer. -/
def stored : Response where
  status := 200
  etag := none
  location := none
  sseCustomerAlgorithm := some ['A', 'E', 'S', '2', '5', '6']
  kmsKeyName := none
  errorCode := []

/-- An attempt that gets through, or that raises after some calls. -/
def storedAfter (callsLeft : Option ℕ) : Attempt where
  callsLeft := callsLeft
  fault := .http
  response := stored

/-- The connection breaks before the request, and the retry gets through. -/
theorem sendFileInternal_right_two_bytes :
    Right byteByByte (digesterAlgs byteByByte none twoBytes)
      (requested byteByByte.size twoBytes.fp.file)
      (sendFileInternal byteByByte none 1
        [storedAfter (some 0), storedAfter none] twoBytes) := by
  have hiff := (sendFileInternal_right_iff byteByByte Nat.one_pos none 1
    [storedAfter (some 0), storedAfter none] twoBytes rfl).2 stored rfl
  refine hiff.mpr ⟨by decide, Or.inr (Or.inr ?_)⟩
  have hfailed : (sendFileInternal byteByByte none 1
      [storedAfter (some 0), storedAfter none] twoBytes).failed =
        [storedAfter (some 0)] := rfl
  rw [hfailed, List.forall_mem_singleton]
  decide

/-- The connection breaks behind the first byte, and the digest is that of three
bytes. -/
theorem sendFileInternal_hashes_again :
    ¬ ∀ (request : Request) (hashAlgs : Option (List Text)) (numRetries : ℕ)
      (attempts : List Attempt) (key : State), 0 < request.bufferSize →
      key.fp.seekable = true →
      Right request (digesterAlgs request hashAlgs key)
        (requested request.size key.fp.file)
        (sendFileInternal request hashAlgs numRetries attempts key) := by
  intro hall
  have hright := hall byteByByte none 1 [storedAfter (some 2), storedAfter none]
    twoBytes Nat.one_pos rfl
  have hhash := hright.hashes stored rfl "md5".toList (by decide)
  exact absurd hhash (by decide)

end Boto.S3.SendFile
