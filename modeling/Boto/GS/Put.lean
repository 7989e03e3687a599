import Boto.GS.ResumableUpload

/-!
# What a PUT sends

A PUT that starts where the server stops sends the rest of the file, or a part of
it when the connection breaks.
-/

namespace Boto.GS

open EStateM Files

section

variable {content : Bytes} {algs : List Text} {old : Bytes} {error : NetError}

/-- What the loop has done when it has sent `body`. -/
structure Sent (algs : List Text) (old : Bytes) (s : Sending) (body : Bytes)
    (s' : Sending) : Prop where
  content : s'.fp.content = s.fp.content
  digesters : s'.digesters = .fed algs (old ++ body)
  put : ∃ callsLeft, s'.put =
    { s.put with sent := s.put.sent ++ body, callsLeft := callsLeft }

theorem call_meets (s : Sending) :
    ((call error).run s).Meets
      (fun _ s' => ∃ callsLeft,
        s' = { s with put := { s.put with callsLeft := callsLeft } })
      (fun e s' => e = .net error ∧ s' = s) := by
  obtain ⟨fp, digesters, ⟨total, held, sent, complete, callsLeft⟩⟩ := s
  rcases callsLeft with _ | _ | n
  · exact ⟨none, rfl⟩
  · exact ⟨rfl, rfl⟩
  · exact ⟨some n, rfl⟩

theorem run_readBuffer (s : Sending) :
    readBuffer.run s =
      .ok (s.fp.rest.take bufferSize)
        { s with fp := (s.fp.read bufferSize).2 } := rfl

theorem drop_buffer_eq_nil {rest : Bytes} (h : rest.take bufferSize = []) :
    rest.drop bufferSize = [] := by
  rcases List.take_eq_nil_iff.mp h with hzero | hrest
  · exact absurd hzero (by decide)
  · rw [hrest, List.drop_nil]

/-- A buffer in front of what the rest of the loop sent. -/
theorem Sent.cons {s t s' : Sending} {buf body : Bytes}
    (hcontent : t.fp.content = s.fp.content)
    (hput : ∃ callsLeft, t.put =
      { s.put with sent := s.put.sent ++ buf, callsLeft := callsLeft })
    (h : Sent algs (old ++ buf) t body s') :
    Sent algs old s (buf ++ body) s' where
  content := h.content.trans hcontent
  digesters := by rw [h.digesters, List.append_assoc]
  put := by
    obtain ⟨_, hput⟩ := hput
    obtain ⟨callsLeft, hbody⟩ := h.put
    exact ⟨callsLeft, by rw [hbody, hput, ← List.append_assoc]⟩

/-- The loop sends the buffer in hand and the rest of the file. -/
theorem sendLoop_meets {fuel : ℕ} {buf : Bytes} {total : ℕ} {s : Sending}
    (hs : s.digesters = .fed algs old)
    (hfuel : (buf ++ s.fp.rest).length < fuel)
    (hend : buf = [] → s.fp.rest = []) :
    ((sendLoop error fuel buf total).run s).Meets
      (fun n s' => n = total + (buf ++ s.fp.rest).length ∧
        Sent algs old s (buf ++ s.fp.rest) s')
      (fun e s' => e = .net error ∧
        ∃ body, body <+: buf ++ s.fp.rest ∧ Sent algs old s body s') := by
  induction fuel generalizing buf total s old with
  | zero => omega
  | succ fuel ih =>
      by_cases hbuf : buf = []
      · subst hbuf
        rw [sendLoop, if_pos rfl, hend rfl]
        exact ⟨rfl,
          { content := rfl
            digesters := by simpa using hs
            put := ⟨s.put.callsLeft, by simp⟩ }⟩
      · rw [sendLoop, if_neg hbuf]
        refine meets_bind ((call_meets s).mono (fun _ _ h => h) ?_) ?_
        · rintro e s' ⟨he, hs'⟩
          rw [he, hs']
          exact ⟨rfl, [], List.nil_prefix,
            { content := rfl
              digesters := by simpa using hs
              put := ⟨s.put.callsLeft, by simp⟩ }⟩
        · rintro _ _ ⟨callsLeft, rfl⟩
          rw [run_bind]
          simp only [run_modify]
          rw [run_bind, run_readBuffer]
          dsimp only
          have hsplit := List.take_append_drop bufferSize s.fp.rest
          have hlen : 0 < buf.length := List.length_pos_iff.mpr hbuf
          refine Result.Meets.mono (@ih (old ++ buf) _ _ _ ?_ ?_ ?_) ?_ ?_
          · simp [hs]
          · simp only [File.rest_read, hsplit]
            rw [List.length_append] at hfuel
            omega
          · simp only [File.rest_read]
            exact drop_buffer_eq_nil
          · rintro n s' ⟨hn, hsent⟩
            simp only [File.rest_read, hsplit] at hn hsent
            refine ⟨?_, Sent.cons ?_ ?_ hsent⟩
            · rw [hn, List.length_append]
              omega
            · rfl
            · exact ⟨callsLeft, rfl⟩
          · rintro e s' ⟨he, body, hprefix, hsent⟩
            simp only [File.rest_read, hsplit] at hprefix
            refine ⟨he, buf ++ body,
              (List.prefix_append_right_inj buf).mpr hprefix,
              Sent.cons ?_ ?_ hsent⟩
            · rfl
            · exact ⟨callsLeft, rfl⟩

/-- What is asked of a PUT: it starts where the server stopped, sends a part of
the rest of the file, and all of it when the file came to its end. -/
structure Put.Right (content : Bytes) (put : Put) : Prop where
  total : put.total = put.held.length
  sent : put.sent <+: content.drop put.total
  all : put.complete = true → put.sent = content.drop put.total

/-- The messages that start with `File changed during upload`. -/
def UploadError.isFileChanged : UploadError → Bool
  | .resumable (.fileChanged _ _) _ | .resumable .etagMismatch _ => true
  | _ => false

/-- A PUT in the right place. -/
structure Placed (content : Bytes) (algs : List Text) (total : ℕ)
    (held : Bytes) (s : Sending) : Prop where
  file : s.fp.content = content
  rest : s.fp.rest = content.drop total
  digesters : s.digesters = .fed algs (content.take total)
  put : s.put.total = total ∧ s.put.held = held ∧ s.put.sent = [] ∧
    s.put.complete = false

/-- A PUT in the right place sends what the server lacks. -/
theorem uploadFileBytes_meets {total : ℕ} {held : Bytes} {s : Sending}
    (fate : PutFate) (hs : Placed content algs total held s)
    (hheld : total = held.length) (hle : total ≤ content.length) :
    ((uploadFileBytes content.length fate total).run s).Meets
      (fun etag s' => etag = fate.etag ∧ s'.fp.content = content ∧
        s'.put.Right content ∧ s'.put.held = held ∧
        s'.digesters = .fed algs content)
      (fun e s' => s'.fp.content = content ∧ s'.put.Right content ∧
        s'.put.held = held ∧ e.isFileChanged = false) := by
  obtain ⟨htotal, hput, hsent, hcomplete⟩ := hs.put
  have hsplit := List.take_append_drop bufferSize s.fp.rest
  rw [hs.rest] at hsplit
  rw [uploadFileBytes, run_bind, run_get]
  dsimp only
  rw [run_bind, run_readBuffer]
  dsimp only
  refine meets_bind ((call_meets _).mono (fun _ _ h => h) ?_) ?_
  · rintro e s' ⟨he, hs'⟩
    rw [he, hs']
    refine ⟨hs.file, ⟨?_, ?_, ?_⟩, hput, rfl⟩
    · rw [htotal, hput, hheld]
    · rw [hsent]
      exact List.nil_prefix
    · simp [hcomplete]
  rintro _ _ ⟨callsLeft, rfl⟩
  refine meets_bind
    ((@sendLoop_meets algs (content.take total) _ _ _ _ _ ?_ ?_ ?_).mono
      (fun _ _ h => h) ?_) ?_
  · exact hs.digesters
  · simp only [File.rest_read, hs.rest, hsplit, hs.file, List.length_drop]
    omega
  · simp only [File.rest_read]
    exact drop_buffer_eq_nil
  · rintro e s' ⟨he, body, hprefix, hbody⟩
    simp only [File.rest_read, hs.rest, hsplit] at hprefix
    obtain ⟨_, hsame⟩ := hbody.put
    rw [he, hsame]
    refine ⟨hbody.content.trans hs.file, ⟨?_, ?_, ?_⟩, hput, rfl⟩
    · simp only [htotal, hput, hheld]
    · simpa only [hsent, List.nil_append, htotal] using hprefix
    · simp only [hcomplete]
      exact fun h => by cases h
  · rintro n s' ⟨hn, hbody⟩
    simp only [File.rest_read, hs.rest, hsplit] at hn hbody
    have hlength : n = content.length := by
      rw [hn, List.length_drop]
      omega
    have hdigesters := hbody.digesters
    rw [List.take_append_drop] at hdigesters
    obtain ⟨callsLeft', hsame⟩ := hbody.put
    have hfile : s'.fp.content = content := hbody.content.trans hs.file
    -- the PUT, whatever is left of its connection
    have hright : ∀ callsLeft, Put.Right content
        { s'.put with complete := true, callsLeft := callsLeft } := by
      intro callsLeft
      rw [hsame]
      refine ⟨?_, ?_, ?_⟩
      · simp only [htotal, hput, hheld]
      · simp only [hsent, List.nil_append, htotal, List.prefix_rfl]
      · simp only [hsent, List.nil_append, htotal, implies_true]
    have hheld' : s'.put.held = held := by rw [hsame, ← hput]
    rw [run_bind]
    simp only [run_modify, hlength, ne_eq, not_true_eq_false, if_false]
    refine meets_bind ((call_meets _).mono (fun _ _ h => h) ?_) ?_
    · rintro e t ⟨he, ht⟩
      rw [he, ht]
      exact ⟨hfile, hright s'.put.callsLeft, hheld', rfl⟩
    · rintro _ _ ⟨callsLeft, rfl⟩
      split
      · exact ⟨rfl, hfile, hright callsLeft, hheld', hdigesters⟩
      · split
        · exact ⟨hfile, hright callsLeft, hheld', rfl⟩
        · exact ⟨hfile, hright callsLeft, hheld', rfl⟩

end

end Boto.GS
