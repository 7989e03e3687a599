import Boto.S3.SendFile

/-!
# What one run of the sender sends

A run that comes to its response has sent the bytes it was asked for, whatever
was read before it, and whatever the digesters already held is in front of what
it hashed.
-/

namespace Boto.S3.SendFile

open EStateM Files

/-! ## Chunked bodies -/

/-- The bytes of a chunked body, and what they carry. -/
inductive Chunked : Bytes → Bytes → Prop
  | last : Chunked (48 :: crlf ++ crlf) []
  | chunk {chunk wire payload : Bytes} (h : chunk ≠ [])
      (hwire : Chunked wire payload) :
      Chunked (hexNumber chunk.length ++ (59 :: crlf) ++ chunk ++ crlf ++ wire)
        (chunk ++ payload)

/-- The bytes on the wire carry the payload. -/
def Carries (chunkedTransfer : Bool) (wire payload : Bytes) : Prop :=
  if chunkedTransfer then Chunked wire payload else wire = payload

/-- A body carries nothing besides what it was made of. -/
theorem Carries.eq_nil {chunkedTransfer : Bool} {wire payload : Bytes}
    (h : Carries chunkedTransfer wire payload)
    (hnil : Carries chunkedTransfer wire []) : payload = [] := by
  cases chunkedTransfer with
  | false => exact (h : wire = payload) ▸ hnil
  | true =>
      change Chunked wire payload at h
      change Chunked wire [] at hnil
      have hwire : wire = 48 :: crlf ++ crlf := by
        generalize hempty : ([] : Bytes) = empty at hnil
        cases hnil with
        | last => rfl
        | chunk hne _ => simp [hne] at hempty
      cases h with
      | last => rfl
      | chunk hne _ =>
          have hlen := congrArg List.length hwire
          have hpos := List.length_pos_iff.mpr hne
          simp [crlf] at hlen
          omega

/-- The calls of `send` for a whole body. -/
def frames (chunkedTransfer : Bool) (chunks : List Bytes) : List Bytes :=
  chunks.flatMap (frame chunkedTransfer) ++
    if chunkedTransfer then [48 :: crlf, crlf] else []

theorem carries_frames (chunkedTransfer : Bool) (chunks : List Bytes)
    (h : ∀ chunk ∈ chunks, chunk ≠ []) :
    Carries chunkedTransfer (frames chunkedTransfer chunks).flatten
      chunks.flatten := by
  cases chunkedTransfer with
  | false =>
      have hflat : (chunks.flatMap (frame false)).flatten = chunks.flatten := by
        induction chunks with
        | nil => rfl
        | cons chunk chunks ih =>
            rw [List.forall_mem_cons] at h
            simp [frame, ih h.2]
      simpa [Carries, frames] using hflat
  | true =>
      simp only [Carries, if_true, frames]
      induction chunks with
      | nil => exact .last
      | cons chunk chunks ih =>
          rw [List.forall_mem_cons] at h
          have hchunked := Chunked.chunk h.1 (ih h.2)
          simpa [frame] using hchunked

/-! ## Calls on the connection -/

/-- There are calls left for `k` more. -/
def Enough (k : ℕ) (callsLeft : Option ℕ) : Prop :=
  ∀ n, callsLeft = some n → k ≤ n

instance (k : ℕ) : (callsLeft : Option ℕ) → Decidable (Enough k callsLeft)
  | none => isTrue fun _ h => by cases h
  | some n => decidable_of_iff (k ≤ n) (by simp [Enough])

theorem run_call_of_enough {conn : Connection} (h : Enough 1 conn.callsLeft) :
    Connection.call.run conn =
      .ok () { conn with callsLeft := conn.callsLeft.map (· - 1) } := by
  obtain ⟨sent, asked, callsLeft, fault, response⟩ := conn
  rcases callsLeft with _ | _ | n
  · rfl
  · exact absurd (h 0 rfl) (by decide)
  · rfl

theorem run_call_of_not_enough {conn : Connection}
    (h : ¬ Enough 1 conn.callsLeft) :
    Connection.call.run conn = .error (.fault conn.fault) conn := by
  obtain ⟨sent, asked, callsLeft, fault, response⟩ := conn
  rcases callsLeft with _ | _ | n
  · exact absurd (fun _ hn => by cases hn) h
  · rfl
  · exact absurd (fun _ hn => by cases hn; omega) h

theorem enough_succ_iff {k : ℕ} {callsLeft : Option ℕ} :
    Enough (k + 1) callsLeft ↔
      Enough 1 callsLeft ∧ Enough k (callsLeft.map (· - 1)) := by
  cases callsLeft with
  | none => simp [Enough]
  | some n =>
      simp only [Enough, Option.some.injEq, forall_eq', Option.map_some]
      omega

theorem run_sendAll_of_enough {conn : Connection} {datas : List Bytes}
    (h : Enough datas.length conn.callsLeft) :
    (sendAll datas).run conn =
      .ok () { conn with
        sent := conn.sent ++ datas
        callsLeft := conn.callsLeft.map (· - datas.length) } := by
  induction datas generalizing conn with
  | nil =>
      obtain ⟨sent, asked, callsLeft, fault, response⟩ := conn
      cases callsLeft <;> simp [sendAll]
  | cons data datas ih =>
      obtain ⟨hone, hrest⟩ := enough_succ_iff.mp h
      rw [sendAll, run_bind, Connection.send, run_bind, run_call_of_enough hone]
      simp only [run_modify]
      rw [ih hrest]
      simp only [List.append_assoc, List.singleton_append, Option.map_map,
        List.length_cons]
      congr 3
      funext n
      simp only [Function.comp_apply]
      omega

/-- Calls that do not all succeed: the response is not asked for. -/
theorem run_sendAll_of_not_enough {conn : Connection} {datas : List Bytes}
    (h : ¬ Enough datas.length conn.callsLeft) :
    ∃ conn', (sendAll datas).run conn = .error (.fault conn.fault) conn' ∧
      conn'.asked = conn.asked := by
  induction datas generalizing conn with
  | nil => exact absurd (fun n _ => Nat.zero_le n) h
  | cons data datas ih =>
      by_cases hone : Enough 1 conn.callsLeft
      · have hrest := fun hrest => h (enough_succ_iff.mpr ⟨hone, hrest⟩)
        obtain ⟨conn', hrun, hasked⟩ := @ih
          { conn with
            sent := conn.sent ++ [data]
            callsLeft := conn.callsLeft.map (· - 1) } hrest
        refine ⟨conn', ?_, hasked⟩
        rw [sendAll, run_bind, Connection.send, run_bind,
          run_call_of_enough hone]
        simp only [run_modify, hrun]
      · refine ⟨conn, ?_, rfl⟩
        rw [sendAll, run_bind, Connection.send, run_bind,
          run_call_of_not_enough hone]

/-! ## The loop -/

/-- The bytes that the sender takes from `data`: a limit of 0 is none. -/
def limit (size : Option ℕ) (data : Bytes) : Bytes :=
  match size with
  | none | some 0 => data
  | some n => data.take n

/-- How many bytes the next read asks for. -/
def amount (bufferSize : ℕ) : Option ℕ → ℕ
  | none | some 0 => bufferSize
  | some n => if n < bufferSize then n else bufferSize

theorem amount_pos {bufferSize : ℕ} (h : 0 < bufferSize) (togo : Option ℕ) :
    0 < amount bufferSize togo := by
  rcases togo with _ | _ | n
  · exact h
  · exact h
  · simp only [amount]
    split
    · omega
    · exact h

theorem amount_le (bufferSize n : ℕ) : amount bufferSize (some (n + 1)) ≤ n + 1 := by
  simp only [amount]
  split
  · exact Nat.le_refl _
  · omega

/-- The fields that a run of the sender works on: the file, and the digesters,
which were given `old`. -/
structure Holds (content : Bytes) (algs : List Text) (old : Bytes)
    (state : State) : Prop where
  content : state.fp.file.content = content
  seekable : state.fp.seekable = true
  digesters : state.digesters = .fed algs old

section

variable {request : Request} {content : Bytes} {algs : List Text} {old : Bytes}

/-- The exchange after reading. -/
def Exchange.afterRead (s : Exchange) (amt : ℕ) : Exchange :=
  { s with
    state :=
      { s.state with
        fp := { s.state.fp with file := (s.state.fp.file.read amt).2 } } }

theorem run_readChunk (togo : Option ℕ) (s : Exchange) :
    (readChunk request togo).run s =
      .ok (s.state.fp.file.rest.take (amount request.bufferSize togo))
        (s.afterRead (amount request.bufferSize togo)) := by
  rcases togo with _ | _ | n
  · rfl
  · rfl
  · rfl

theorem Holds.afterRead {s : Exchange} (h : Holds content algs old s.state)
    (amt : ℕ) : Holds content algs old (s.afterRead amt).state where
  content := h.content
  seekable := h.seekable
  digesters := h.digesters

/-- The calls that a chunk takes. -/
def frameCalls (chunkedTransfer : Bool) : ℕ := if chunkedTransfer then 3 else 1

@[simp] theorem length_frame (chunkedTransfer : Bool) (chunk : Bytes) :
    (frame chunkedTransfer chunk).length = frameCalls chunkedTransfer := by
  cases chunkedTransfer <;> rfl

/-- What a run of the loop has done when it has hashed `fed`.  Nothing is hashed
unless the first chunk gets through. -/
structure Looped (request : Request) (content : Bytes) (algs : List Text)
    (old : Bytes) (s : Exchange) (fed : Bytes) (s' : Exchange) : Prop where
  holds : Holds content algs (old ++ fed) s'.state
  asked : s'.conn.asked = s.conn.asked
  nothing_iff : fed = [] ↔ s.state.fp.file.rest = [] ∨
    ¬ Enough (frameCalls request.chunkedTransfer) s.conn.callsLeft

/-- The calls that have sent `body`. -/
def SentIn (chunkedTransfer : Bool) (before after : List Bytes) (body : Bytes) :
    Prop :=
  ∃ chunks : List Bytes, (∀ chunk ∈ chunks, chunk ≠ []) ∧
    chunks.flatten = body ∧ after = before ++ chunks.flatMap (frame chunkedTransfer)

theorem sentIn_nil (chunkedTransfer : Bool) (before : List Bytes) :
    SentIn chunkedTransfer before before [] :=
  ⟨[], by simp, rfl, by simp⟩

/-- The loop came to its end and has sent `body`. -/
structure LoopOk (request : Request) (content : Bytes) (algs : List Text)
    (old : Bytes) (dataLen : ℕ) (s : Exchange) (body : Bytes) (n : ℕ)
    (s' : Exchange) : Prop where
  looped : Looped request content algs old s body s'
  length : n = dataLen + body.length
  sent : SentIn request.chunkedTransfer s.conn.sent s'.conn.sent body

/-- The exchange after a chunk was sent and hashed. -/
def Exchange.afterChunk (chunkedTransfer : Bool) (chunk : Bytes)
    (s : Exchange) : Exchange where
  state := { s.state with digesters := s.state.digesters.update chunk }
  conn :=
    { s.conn with
      sent := s.conn.sent ++ frame chunkedTransfer chunk
      callsLeft := s.conn.callsLeft.map (· - frameCalls chunkedTransfer) }

theorem Holds.afterChunk {s : Exchange} (h : Holds content algs old s.state)
    (chunkedTransfer : Bool) (chunk : Bytes) :
    Holds content algs (old ++ chunk)
      (s.afterChunk chunkedTransfer chunk).state where
  content := h.content
  seekable := h.seekable
  digesters := by simp [Exchange.afterChunk, h.digesters]

theorem run_sendChunk {chunk : Bytes} {s : Exchange} {α : Type}
    (next : Sender α)
    (henough : Enough (frameCalls request.chunkedTransfer) s.conn.callsLeft) :
    (do
      onConn (sendAll (frame request.chunkedTransfer chunk))
      modifyState fun state =>
        { state with digesters := state.digesters.update chunk }
      next : Sender α).run s =
      next.run (s.afterChunk request.chunkedTransfer chunk) := by
  rw [← length_frame _ chunk] at henough
  simp only [run_bind, onConn, run_zoom, modifyState, run_modify,
    run_sendAll_of_enough henough, length_frame]
  rfl

/-- What is left of a limit behind the first chunk. -/
theorem limit_append {chunk rest : Bytes} {n : ℕ} (hlt : chunk.length < n) :
    limit (some n) (chunk ++ rest) =
      chunk ++ limit (some (n - chunk.length)) rest := by
  obtain ⟨k, hk⟩ := Nat.exists_eq_add_of_lt hlt
  have hn : n = (chunk.length + k) + 1 := by omega
  have hrest : n - chunk.length = k + 1 := by omega
  rw [hrest, hn]
  simp only [limit]
  rw [List.take_append, List.take_of_length_le (by omega)]
  congr 2
  omega

section

variable {chunk body : Bytes} {s s' : Exchange} {amt : ℕ} (hchunk : chunk ≠ [])
    (hrest : s.state.fp.file.rest ≠ [])
    (henough : Enough (frameCalls request.chunkedTransfer) s.conn.callsLeft)

include hchunk hrest henough

/-- A first chunk in front of what the rest of the loop did. -/
theorem Looped.cons
    (h : Looped request content algs (old ++ chunk)
      ((s.afterRead amt).afterChunk request.chunkedTransfer chunk) body s') :
    Looped request content algs old s (chunk ++ body) s' where
  holds := by
    rw [← List.append_assoc]
    exact h.holds
  asked := h.asked
  nothing_iff := by simp [hchunk, hrest, henough]

theorem LoopOk.cons {dataLen n : ℕ}
    (h : LoopOk request content algs (old ++ chunk) (dataLen + chunk.length)
      ((s.afterRead amt).afterChunk request.chunkedTransfer chunk) body n s') :
    LoopOk request content algs old dataLen s (chunk ++ body) n s' where
  looped := h.looped.cons hchunk hrest henough
  length := by
    rw [h.length, List.length_append]
    omega
  sent := by
    obtain ⟨chunks, hne, rfl, hsent⟩ := h.sent
    refine ⟨chunk :: chunks, List.forall_mem_cons.mpr ⟨hchunk, hne⟩, rfl, ?_⟩
    rw [hsent]
    simp [Exchange.afterChunk, Exchange.afterRead]

end

/-- The loop, with the read in front of it, sends what it was asked for. -/
theorem sendLoop_meets (hbuf : 0 < request.bufferSize) {fuel : ℕ}
    {togo : Option ℕ} {dataLen : ℕ} {s : Exchange}
    (hs : Holds content algs old s.state)
    (hfuel : s.state.fp.file.rest.length < fuel) :
    ((readChunk request togo >>= fun chunk =>
        sendLoop request fuel chunk togo dataLen).run s).Meets
      (LoopOk request content algs old dataLen s
        (limit togo s.state.fp.file.rest))
      (fun _ s' => ∃ fed, Looped request content algs old s fed s') := by
  induction fuel generalizing togo dataLen s old with
  | zero => omega
  | succ fuel ih =>
      have hamt := amount_pos hbuf togo
      have hread := hs.afterRead (amount request.bufferSize togo)
      have hsplit := List.take_append_drop (amount request.bufferSize togo)
        s.state.fp.file.rest
      rw [run_bind, run_readChunk]
      dsimp only
      generalize hchunk : s.state.fp.file.rest.take
        (amount request.bufferSize togo) = chunk at hsplit ⊢
      by_cases hrest : s.state.fp.file.rest = []
      · -- the end of the file
        have hnil : chunk = [] := by rw [← hchunk, hrest, List.take_nil]
        have hbody : limit togo s.state.fp.file.rest = [] := by
          rw [hrest]
          rcases togo with _ | _ | n <;> rfl
        rw [hnil, hbody]
        simp only [sendLoop, List.isEmpty_nil, if_true, run_pure]
        exact
          { looped := ⟨by simpa using hread, rfl, by simp [hrest]⟩
            length := rfl
            sent := sentIn_nil _ _ }
      have hpos := List.length_pos_iff.mpr hrest
      have hne : chunk ≠ [] := by
        rw [← hchunk, ← List.length_pos_iff, List.length_take]
        omega
      have hempty : chunk.isEmpty = false := by simp [hne]
      simp only [sendLoop, hempty, Bool.false_eq_true, if_false]
      by_cases henough :
          Enough (frameCalls request.chunkedTransfer) s.conn.callsLeft
      · have hconn : Enough (frameCalls request.chunkedTransfer)
            (s.afterRead (amount request.bufferSize togo)).conn.callsLeft :=
          henough
        rw [run_sendChunk _ hconn]
        have hstep := hread.afterChunk request.chunkedTransfer chunk
        -- the next round starts behind the chunk
        have hgo : ∀ next : Option ℕ,
            limit togo s.state.fp.file.rest =
              chunk ++ limit next (s.state.fp.file.rest.drop
                (amount request.bufferSize togo)) →
            ((readChunk request next >>= fun c =>
                sendLoop request fuel c next (dataLen + chunk.length)).run
              ((s.afterRead (amount request.bufferSize togo)).afterChunk
                request.chunkedTransfer chunk)).Meets
              (LoopOk request content algs old dataLen s
                (limit togo s.state.fp.file.rest))
              (fun _ s' =>
                ∃ fed, Looped request content algs old s fed s') := by
          intro next hbody
          rw [hbody, ← File.rest_read]
          refine (ih hstep ?_).mono ?_ ?_
          · simp only [Exchange.afterChunk, Exchange.afterRead, File.rest_read,
              List.length_drop]
            omega
          · intro n s' hok
            exact hok.cons hne hrest henough
          · rintro _ s' ⟨fed, hfed⟩
            exact ⟨_, hfed.cons hne hrest henough⟩
        rcases togo with _ | _ | n
        · exact hgo none hsplit.symm
        · exact hgo (some 0) hsplit.symm
        · rcases Nat.lt_or_ge chunk.length (n + 1) with hlt | hge
          · have hleft : n + 1 - chunk.length ≠ 0 := by omega
            simp only [if_neg hleft]
            apply hgo (some (n + 1 - chunk.length))
            rw [← limit_append hlt, hsplit]
          · -- the limit is reached
            have hlen : chunk.length = n + 1 := by
              have := amount_le request.bufferSize n
              have := congrArg List.length hchunk
              rw [List.length_take] at this
              omega
            have hbody : limit (some (n + 1)) s.state.fp.file.rest = chunk := by
              rw [← hsplit]
              exact List.take_left' hlen
            have hzero : n + 1 - chunk.length = 0 := by omega
            simp only [if_pos hzero, hbody]
            exact
              { looped := ⟨hstep, rfl, by simp [hne, hrest, henough]⟩
                length := rfl
                sent := ⟨[chunk], by simpa using hne, by simp,
                  by simp [Exchange.afterChunk, Exchange.afterRead]⟩ }
      · -- the chunk did not get through
        rw [← length_frame _ chunk] at henough
        obtain ⟨conn, hrun, hasked⟩ := @run_sendAll_of_not_enough
          (s.afterRead (amount request.bufferSize togo)).conn _ henough
        rw [run_bind, onConn, run_zoom, hrun]
        rw [length_frame] at henough
        exact ⟨[], by simpa using hread, hasked, by simp [henough]⟩

/-! ## One attempt -/

theorem limit_eq_nil_iff {size : Option ℕ} {data : Bytes} :
    limit size data = [] ↔ data = [] := by
  rcases size with _ | _ | n
  · exact Iff.rfl
  · exact Iff.rfl
  · simp [limit]

/-- The attempt raises before the first chunk is hashed. -/
def Attempt.BreaksBeforeHash (chunkedTransfer : Bool) (attempt : Attempt) :
    Prop :=
  ¬ Enough (frameCalls chunkedTransfer + 1) attempt.callsLeft

instance (chunkedTransfer : Bool) (attempt : Attempt) :
    Decidable (attempt.BreaksBeforeHash chunkedTransfer) :=
  inferInstanceAs
    (Decidable (¬ Enough (frameCalls chunkedTransfer + 1) attempt.callsLeft))

/-- What holds when the body is complete. -/
structure Complete (request : Request) (content : Bytes) (algs : List Text)
    (old fed : Bytes) (s : Exchange) : Prop where
  holds : Holds content algs (old ++ fed) s.state
  carries : Carries request.chunkedTransfer s.conn.sent.flatten fed
  size : s.state.size = some fed.length
  hashes : ∀ alg ∈ algs,
    s.state.localHashes.lookup alg = some (.of alg (old ++ fed))

/-- The exchange with another ETag. -/
def Exchange.withETag (s : Exchange) (etag : Option Text) : Exchange :=
  { s with state := { s.state with etag := etag } }

/-- `should_retry` changes nothing but the ETag. -/
theorem shouldRetry_meets (response : Response) (s : Exchange) :
    ((shouldRetry request response).run s).Meets
      (fun _ s' => ∃ etag, s' = s.withETag etag)
      (fun _ s' => ∃ etag, s' = s.withETag etag) := by
  have hsame : ∃ etag, s = s.withETag etag := ⟨s.state.etag, rfl⟩
  simp only [shouldRetry]
  split_ifs
  · exact hsame
  · exact hsame
  · simp only [run_bind, modifyState, run_modify, run_get]
    split_ifs
    · exact ⟨response.etag, rfl⟩
    · exact ⟨response.etag, rfl⟩
  · exact hsame
  · exact hsame

theorem Complete.withETag {fed : Bytes} {s : Exchange}
    (h : Complete request content algs old fed s) (etag : Option Text) :
    Complete request content algs old fed (s.withETag etag) where
  holds := ⟨h.holds.content, h.holds.seekable, h.holds.digesters⟩
  carries := h.carries
  size := h.size
  hashes := h.hashes

theorem getresponse_meets (s : Exchange) :
    ((onConn Connection.getresponse).run s).Meets
      (fun _ s' => ∃ callsLeft, s' =
        { s with conn := { s.conn with
          asked := true, callsLeft := callsLeft } })
      (fun _ s' => ∃ callsLeft, s' =
        { s with conn := { s.conn with
          asked := true, callsLeft := callsLeft } }) := by
  rw [onConn, run_zoom, Connection.getresponse, run_bind]
  simp only [run_modify, run_bind]
  by_cases h : Enough 1 s.conn.callsLeft
  · rw [@run_call_of_enough { s.conn with asked := true } h]
    exact ⟨_, rfl⟩
  · rw [@run_call_of_not_enough { s.conn with asked := true } h]
    exact ⟨_, rfl⟩

/-- The response is asked for when the body is complete. -/
theorem answer_meets {fed : Bytes} {s : Exchange}
    (h : Complete request content algs old fed s) :
    ((do
      let response ← onConn Connection.getresponse
      if ← shouldRetry request response then return response
      else throw (.storageResponseError response.status) :
        Sender Response).run s).Meets
      (fun _ s' => s'.conn.asked = true ∧
        Complete request content algs old fed s')
      (fun _ s' => Complete request content algs old fed s') := by
  have hkeep : ∀ callsLeft, Complete request content algs old fed
      { s with conn := { s.conn with
        asked := true, callsLeft := callsLeft } } := fun _ =>
    ⟨h.holds, h.carries, h.size, h.hashes⟩
  apply meets_bind
    ((getresponse_meets s).mono (fun _ _ h => h) (by
      rintro _ _ ⟨callsLeft, rfl⟩
      exact hkeep callsLeft))
  rintro response _ ⟨callsLeft, rfl⟩
  apply meets_bind
    ((shouldRetry_meets response _).mono (fun _ _ h => h) (by
      rintro _ _ ⟨etag, rfl⟩
      exact (hkeep callsLeft).withETag etag))
  rintro retry _ ⟨etag, rfl⟩
  cases retry with
  | true => exact ⟨rfl, (hkeep callsLeft).withETag etag⟩
  | false => exact (hkeep callsLeft).withETag etag

/-- The end of the sender, behind a loop that has sent `fed`. -/
theorem finish_meets {fed : Bytes} {s : Exchange}
    (hs : Holds content algs (old ++ fed) s.state)
    (hasked : s.conn.asked = false)
    (hsent : SentIn request.chunkedTransfer [] s.conn.sent fed) :
    ((finish request fed.length).run s).Meets
      (fun _ s' => s'.conn.asked = true ∧
        Complete request content algs old fed s')
      (fun _ s' => Holds content algs (old ++ fed) s'.state ∧
        (s'.conn.asked = true →
          Complete request content algs old fed s')) := by
  obtain ⟨chunks, hne, rfl, hsent⟩ := hsent
  rw [List.nil_append] at hsent
  have hhashes : ∀ alg ∈ algs,
      (s.state.digesters.digests ++ s.state.localHashes).lookup alg =
        some (.of alg (old ++ chunks.flatten)) := by
    intro alg halg
    rw [hs.digesters]
    exact Digesters.lookup_digests_fed algs _ halg _
  have hcarries := carries_frames request.chunkedTransfer chunks hne
  rw [frames, ← hsent] at hcarries
  rw [finish, run_bind]
  simp only [modifyState, run_modify]
  cases hchunked : request.chunkedTransfer with
  | false =>
      simp only [hchunked, Bool.false_eq_true, if_false, List.append_nil]
        at hcarries ⊢
      refine (answer_meets ?_).mono (fun _ _ h => h)
        (fun _ _ h => ⟨h.holds, fun _ => h⟩)
      exact
        { holds := ⟨hs.content, hs.seekable, hs.digesters⟩
          carries := by
            rw [hchunked]
            exact hcarries
          size := rfl
          hashes := hhashes }
  | true =>
      simp only [hchunked, if_true] at hcarries ⊢
      rw [run_bind, onConn, run_zoom]
      by_cases henough : Enough 2 s.conn.callsLeft
      · rw [@run_sendAll_of_enough s.conn [48 :: crlf, crlf] henough]
        refine (answer_meets ?_).mono (fun _ _ h => h)
          (fun _ _ h => ⟨h.holds, fun _ => h⟩)
        exact
          { holds := ⟨hs.content, hs.seekable, hs.digesters⟩
            carries := by
              rw [hchunked]
              exact hcarries
            size := rfl
            hashes := hhashes }
      · obtain ⟨conn, hrun, hconn⟩ :=
          @run_sendAll_of_not_enough s.conn [48 :: crlf, crlf] henough
        rw [hrun]
        refine ⟨⟨hs.content, hs.seekable, hs.digesters⟩, fun htrue => ?_⟩
        rw [hconn, hasked] at htrue
        cases htrue

/-- What an attempt has done when it has hashed `fed`. -/
structure Attempted (request : Request) (content : Bytes) (algs : List Text)
    (spos : ℕ) (attempt : Attempt) (old fed : Bytes) (s' : Exchange) :
    Prop where
  holds : Holds content algs (old ++ fed) s'.state
  nothing_iff : fed = [] ↔ content.drop spos = [] ∨
    attempt.BreaksBeforeHash request.chunkedTransfer
  all : s'.conn.asked = true → fed = limit request.size (content.drop spos)
  complete : s'.conn.asked = true →
    Complete request content algs old fed s'

/-- One run of the sender. -/
theorem sender_meets (hbuf : 0 < request.bufferSize) {spos : ℕ} {s : Exchange}
    {attempt : Attempt} (hs : Holds content algs old s.state)
    (hconn : s.conn = .fresh attempt) :
    ((sender request (some spos)).run s).Meets
      (fun _ s' => s'.conn.asked = true ∧
        ∃ fed, Attempted request content algs spos attempt old fed s')
      (fun _ s' =>
        ∃ fed, Attempted request content algs spos attempt old fed s') := by
  have hrest : (File.mk s.state.fp.file.content spos).rest =
      content.drop spos := by
    rw [← hs.content]
    rfl
  have hbreaks : attempt.BreaksBeforeHash request.chunkedTransfer ↔
      ¬ (Enough 1 s.conn.callsLeft ∧ Enough (frameCalls request.chunkedTransfer)
        (s.conn.callsLeft.map (· - 1))) := by
    rw [Attempt.BreaksBeforeHash, enough_succ_iff, hconn]
    rfl
  have hasked : s.conn.asked = false := by rw [hconn]; rfl
  have hsent : s.conn.sent = [] := by rw [hconn]; rfl
  simp only [sender, rewind, Option.isNone_some, Bool.false_eq_true, if_false]
  rw [run_bind]
  simp only [modifyState, run_modify]
  rw [run_bind, onConn, run_zoom]
  by_cases hone : Enough 1 s.conn.callsLeft
  · rw [@run_call_of_enough s.conn hone]
    dsimp only
    rw [run_bind, run_get]
    dsimp only
    rw [← bind_assoc]
    refine meets_bind
      ((@sendLoop_meets request content algs old hbuf _ _ _ _ ?_ ?_).mono
        (fun _ _ h => h) ?_) ?_
    · exact ⟨hs.content, hs.seekable, hs.digesters⟩
    · simp only [File.rest, List.length_drop]
      omega
    · rintro _ s' ⟨fed, h⟩
      have hnone := h.asked.trans hasked
      exact ⟨fed,
        { holds := h.holds
          nothing_iff := by
            rw [h.nothing_iff, hbreaks]
            simp [hrest, hone]
          all := by simp [hnone]
          complete := by simp [hnone] }⟩
    · intro dataLen s' h
      have hlength := h.length
      have hsentIn := h.sent
      rw [hrest] at h hlength hsentIn
      rw [Nat.zero_add] at hlength
      rw [hsent] at hsentIn
      subst hlength
      refine (finish_meets h.looped.holds (h.looped.asked.trans hasked)
        hsentIn).mono ?_ ?_
      · rintro _ t ⟨htrue, hcomplete⟩
        exact ⟨htrue, _,
          { holds := hcomplete.holds
            nothing_iff := by
              rw [h.looped.nothing_iff, hbreaks]
              simp [hrest, hone]
            all := fun _ => rfl
            complete := fun _ => hcomplete }⟩
      · rintro _ t ⟨hholds, hcomplete⟩
        exact ⟨_,
          { holds := hholds
            nothing_iff := by
              rw [h.looped.nothing_iff, hbreaks]
              simp [hrest, hone]
            all := fun _ => rfl
            complete := hcomplete }⟩
  · rw [@run_call_of_not_enough s.conn hone]
    exact ⟨[],
      { holds := by simpa using ⟨hs.content, hs.seekable, hs.digesters⟩
        nothing_iff := by simp [hbreaks, hone]
        all := by simp [hasked]
        complete := by simp [hasked] }⟩

end

end Boto.S3.SendFile
