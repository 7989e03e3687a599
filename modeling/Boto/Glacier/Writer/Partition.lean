import Boto.Glacier.Writer.Session

/-!
# How written data is cut into parts

Whatever the sizes of the writes are, the parts given to `send_fn` are the
`part_size` blocks of the concatenated data.  In a `Writer` the byte ranges of
the parts therefore tile the archive.
-/

namespace Boto.Glacier

open EStateM Blocks

namespace Partitioner

/-- A `send_fn` that keeps the parts it is given. -/
def recordPart (part : Bytes) : EStateM PyError (List Bytes) Unit :=
  modify fun parts => parts ++ [part]

/-- `write` on each of the given data in turn. -/
def writeAll {σ : Type} (sendFn : Bytes → EStateM PyError σ Unit) :
    List Bytes → EStateM PyError (Partitioner × σ) Unit
  | [] => pure ()
  | data :: rest => do
      write sendFn data
      writeAll sendFn rest

variable {p : ℕ}

/-- What holds between two calls: `parts` were sent, `b` is buffered. -/
structure Between (p : ℕ) (written b : Bytes) (parts : List Bytes) : Prop where
  data : parts.flatten ++ b = written
  full : ∀ part ∈ parts, part.length = p
  buffered : written ≠ [] → b ≠ []

theorem Between.append {written b : Bytes} {parts : List Bytes}
    (h : Between p written b parts) (data : Bytes) :
    Between p (written ++ data) (b ++ data) parts where
  data := by rw [← List.append_assoc, h.data]
  full := h.full
  buffered := by
    intro hne hnil
    obtain ⟨hb, rfl⟩ := List.append_eq_nil_iff.mp hnil
    rw [List.append_nil] at hne
    exact h.buffered hne hb

/-- Sending a full part keeps what holds between calls. -/
theorem Between.sent {written b : Bytes} {parts : List Bytes}
    (h : Between p written b parts) (hlong : p < b.length) :
    Between p written (b.drop p) (parts ++ [b.take p]) where
  data := by
    rw [List.flatten_append, List.flatten_singleton, List.append_assoc,
      List.take_append_drop, h.data]
  full := by
    intro part hpart
    rcases List.mem_append.mp hpart with hold | hnew
    · exact h.full part hold
    · rw [List.mem_singleton.mp hnew, List.length_take, min_eq_left hlong.le]
  buffered := by
    intro _
    rw [← List.length_pos_iff, List.length_drop]
    omega

theorem run_write (hp : 0 < p) {self : Partitioner} {written b : Bytes}
    {parts : List Bytes} (hself : self.Holds p b) (hle : b.length ≤ p)
    (h : Between p written b parts) (data : Bytes) :
    ∃ self' b' parts', (write recordPart data).run (self, parts) =
        .ok () (self', parts') ∧
      self'.Holds p b' ∧ b'.length ≤ p ∧
      Between p (written ++ data) b' parts' := by
  have hwrite := meets_write recordPart hp
    (J := Between p (written ++ data)) (E := fun _ _ => False)
    (fun b' parts' hlong hJ => hJ.sent hlong) hself (h.append data)
  obtain ⟨⟨⟩, ⟨self', parts'⟩, hrun, b', hself', hb', hshort⟩ :=
    (hwrite.mono (fun _ _ h => h) fun _ _ ⟨_, _, _, h⟩ => h).exists_ok
  exact ⟨self', b', parts', hrun, hself', hshort (Or.inl hle), hb'⟩

/-- Any writes leave at most one part buffered, the rest being sent. -/
theorem run_writeAll (hp : 0 < p) (writes : List Bytes) {self : Partitioner}
    {written b : Bytes} {parts : List Bytes} (hself : self.Holds p b)
    (hle : b.length ≤ p) (h : Between p written b parts) :
    ∃ self' b' parts', (writeAll recordPart writes).run (self, parts) =
        .ok () (self', parts') ∧
      self'.Holds p b' ∧ b'.length ≤ p ∧
      Between p (written ++ writes.flatten) b' parts' := by
  induction writes generalizing self written b parts with
  | nil => exact ⟨self, b, parts, rfl, hself, hle, by simpa using h⟩
  | cons data rest ih =>
      obtain ⟨self₁, b₁, parts₁, hrun, hself₁, hle₁, h₁⟩ :=
        run_write hp hself hle h data
      obtain ⟨self₂, b₂, parts₂, hrest, hself₂, hle₂, h₂⟩ := ih hself₁ hle₁ h₁
      refine ⟨self₂, b₂, parts₂, ?_, hself₂, hle₂, ?_⟩
      · rw [writeAll, run_bind, hrun]
        exact hrest
      · rwa [List.flatten_cons, ← List.append_assoc]

/-- The buffer after any number of writes. -/
theorem run_writeAll_init (hp : 0 < p) (writes : List Bytes) :
    ∃ self b parts, (writeAll recordPart writes).run (init p, []) =
        .ok () (self, parts) ∧
      self.Holds p b ∧ b.length ≤ p ∧ Between p writes.flatten b parts :=
  run_writeAll hp writes (holds_init p) (Nat.zero_le _)
    ⟨rfl, by simp, fun h => absurd rfl h⟩

/-- The parts of a whole run are the blocks of the written data. -/
theorem run_writeAll_flush (hp : 0 < p) (writes : List Bytes) :
    ∃ self parts, (writeAll recordPart writes >>= fun _ =>
        flush recordPart).run (init p, []) = .ok () (self, parts) ∧
      IsCut p writes.flatten parts := by
  obtain ⟨self, b, parts, hrun, hself, hle, h⟩ := run_writeAll_init hp writes
  have hflush := meets_flush recordPart hself (t := parts)
    (Q := fun _ s => IsCut p writes.flatten s.2) (F := fun _ _ => False)
    (fun hnil => by
      have hwritten : writes.flatten = [] := by
        by_contra hne
        exact h.buffered hne hnil
      have hparts : parts = [] := by
        cases parts with
        | nil => rfl
        | cons part rest =>
            have hpart := h.full part (by simp)
            have hdata := h.data
            rw [hwritten, hnil, List.append_nil, List.flatten_cons,
              List.append_eq_nil_iff] at hdata
            rw [hdata.1] at hpart
            exact absurd hpart.symm hp.ne'
      rw [hparts, hwritten]
      exact isCut_nil p)
    (fun hne self' _ => by
      rw [← h.data, List.take_of_length_le hle]
      exact isCut_concat h.full hne hle)
  obtain ⟨⟨⟩, ⟨self', parts'⟩, hflushed, hcut⟩ := hflush.exists_ok
  refine ⟨self', parts', ?_, hcut⟩
  rw [run_bind, hrun]
  exact hflushed

end Partitioner

namespace Writer

variable {sha256 : Bytes → Bytes} {service : Service} {p c : ℕ}
  {written : Bytes} {layer1 : Layer1}

theorem Closed.isCut (h : Closed sha256 service p c written layer1)
    (hclean : Clean layer1.parts) :
    IsCut p written (layer1.parts.map (·.partData)) := by
  obtain ⟨log, r, hparts, hfull, hpos, hle, -⟩ := h.parts
  rw [← h.sentBytes_of_clean hclean, Layer1.sentBytes, hparts, List.map_append,
    List.flatten_append, List.map_singleton, List.flatten_singleton]
  apply isCut_concat
  · simpa using hfull
  · exact List.length_pos_iff.mp hpos
  · exact hle

/-- Without failures a session returns once something was written. -/
theorem run_session (sha256 : Bytes → Bytes) (hp : 0 < p) (c : ℕ)
    (haccepts : service.Accepts) (uploadId : Text) {writes : List Bytes} (hne : writes.flatten ≠ []) :
    ∃ w, (session sha256 service writes).run (init uploadId p c) = .ok () w ∧
      Closed sha256 service p c writes.flatten w.core.upload.layer1 ∧
      Clean w.core.upload.layer1.parts := by
  obtain ⟨w, hwrites, hinv⟩ := Inv.writeEach hp writes
    (inv_init sha256 service p c uploadId)
  rw [List.nil_append] at hinv
  obtain ⟨⟨⟩, w', hclose, hclosed⟩ := ((hinv.close hp).mono (fun _ _ h => h)
    (F := fun _ _ => False) fun _ _ h => by
      rcases h with ⟨hnil, -⟩ | ⟨n, hraises⟩
      · exact hne hnil
      · rw [haccepts n] at hraises
        cases hraises).exists_ok
  refine ⟨w', ?_, hclosed, hclosed.log.clean haccepts⟩
  rw [session, run_bind, hwrites]
  exact hclose

/-- A session that writes nothing sends nothing: `close` raises. -/
theorem run_session_of_nil (hp : 0 < p) (haccepts : service.Accepts)
    (uploadId : Text) {writes : List Bytes} (hnil : writes.flatten = []) :
    ∃ e w, (session sha256 service writes).run (init uploadId p c) =
        .error e w ∧
      w.core.upload.layer1 = { parts := [], completions := [] } := by
  obtain ⟨w, hwrites, hinv⟩ := Inv.writeEach hp writes
    (inv_init sha256 service p c uploadId)
  rw [List.nil_append] at hinv
  have hclose := hinv.close hp
  simp only [session, run_bind, hwrites]
  cases hrun : (close sha256 service).run w with
  | ok a w' =>
      rw [hrun] at hclose
      obtain ⟨log, r, hparts, -, hpos, -⟩ := hclose.parts
      have hsent := hclose.sentBytes_of_clean (hclose.log.clean haccepts)
      rw [hnil, Layer1.sentBytes, hparts, List.map_append,
        List.flatten_append, List.map_singleton, List.flatten_singleton,
        List.append_eq_nil_iff] at hsent
      rw [hsent.2] at hpos
      exact absurd hpos (Nat.lt_irrefl 0)
  | error e w' =>
      rw [hrun] at hclose
      rcases hclose with ⟨-, hparts, hcompletions⟩ | ⟨n, hraises⟩
      · refine ⟨e, w', rfl, ?_⟩
        rw [← hparts, ← hcompletions]
      · rw [haccepts n] at hraises
        cases hraises

/-- Writes are cut into full parts and a last one that is not empty; in a
`Writer` their ranges tile the archive, whose size is the one completed. -/
theorem write_partitioning (sha256 : Bytes → Bytes) (hp : 0 < p) (c : ℕ)
    (haccepts : service.Accepts) (uploadId : Text) (writes : List Bytes) :
    (∃ self parts, (Partitioner.writeAll Partitioner.recordPart writes >>=
        fun _ => Partitioner.flush Partitioner.recordPart).run
          (.init p, []) = .ok () (self, parts) ∧
      IsCut p writes.flatten parts ∧ (writes.flatten = [] → parts = [])) ∧
    (∀ pre, pre <+: writes →
      ∃ self parts, (Partitioner.writeAll Partitioner.recordPart pre).run
          (.init p, []) = .ok () (self, parts) ∧
        self.bufferSize = self.buffer.flatten.length ∧ self.bufferSize ≤ p) ∧
    (writes.flatten ≠ [] →
      ∃ w, (session sha256 service writes).run (init uploadId p c) =
          .ok () w ∧
        IsCut p writes.flatten
          (w.core.upload.layer1.parts.map (·.partData)) ∧
        (∀ k r, w.core.upload.layer1.parts[k]? = some r →
          r.contentRange = partRange p k r.partData.length) ∧
        Placement.Tiles 0 (w.core.upload.layer1.parts.map PartRequest.piece) ∧
        Placement.Covers (w.core.upload.layer1.parts.map PartRequest.piece)
          writes.flatten ∧
        w.core.upload.layer1.completions.map (·.archiveSize) =
          [writes.flatten.length]) ∧
    (writes.flatten = [] →
      ∃ e w, (session sha256 service writes).run (init uploadId p c) =
          .error e w ∧
        w.core.upload.layer1 = { parts := [], completions := [] }) := by
  refine ⟨?_, ?_, ?_, run_session_of_nil hp haccepts uploadId⟩
  · obtain ⟨self, parts, hrun, hcut⟩ := Partitioner.run_writeAll_flush hp writes
    refine ⟨self, parts, hrun, hcut, fun hnil => ?_⟩
    rw [hcut.eq_cut hp, hnil, cut_nil]
  · intro pre _
    obtain ⟨self, b, parts, hrun, hself, hle, -⟩ :=
      Partitioner.run_writeAll_init hp pre
    refine ⟨self, parts, hrun, ?_, ?_⟩
    · rw [hself.bufferSize, hself.buffer]
    · rw [hself.bufferSize]
      exact hle
  · intro hne
    obtain ⟨w, hrun, hclosed, hclean⟩ :=
      run_session sha256 hp c haccepts uploadId hne
    have htiles := hclosed.tiles hclean
    have hcovers := Placement.covers_of_tiles htiles
    rw [List.map_map] at hcovers
    refine ⟨w, hrun, hclosed.isCut hclean, ?_, htiles, ?_, ?_⟩
    · intro k r hr
      exact hclosed.range_of_clean hclean hr
    · convert hcovers using 1
      exact (hclosed.sentBytes_of_clean hclean).symm
    · obtain ⟨completion, hcompletions, hdigest⟩ := hclosed.completions
      simp [hcompletions, (hdigest hclean).1]

theorem write_partitioning_three_bytes :
    (∃ self parts, (Partitioner.writeAll Partitioner.recordPart [[1, 2], [3]] >>=
        fun _ => Partitioner.flush Partitioner.recordPart).run
          (.init 2, []) = .ok () (self, parts) ∧
      IsCut 2 [1, 2, 3] parts ∧ ([1, 2, 3] = ([] : Bytes) → parts = [])) :=
  (write_partitioning id Nat.two_pos 1 Service.accepts_accepting []
    [[1, 2], [3]]).1

end Writer

end Boto.Glacier
