import Boto.Glacier.Writer.Partitioner
import Boto.Glacier.Writer.Uploader
import Boto.Support.Placement

/-!
# Sessions of a `Writer`

A session writes byte strings one after another and closes the writer.  `Inv`
relates a writer between two calls to the bytes written so far; it survives
failed part requests, and says more when there were none.
-/

namespace Boto.Glacier

open EStateM

/-- Where a requested part belongs in the archive. -/
def PartRequest.piece (r : PartRequest) : Placement.Piece UInt8 where
  first := r.contentRange.1
  last := r.contentRange.2
  data := r.partData

/-- The bytes of all requested parts, in the order of the requests. -/
def Layer1.sentBytes (layer1 : Layer1) : Bytes :=
  (layer1.parts.map (·.partData)).flatten

/-- The pieces of the archive the service holds. -/
def Layer1.storedPieces (layer1 : Layer1) : List (Placement.Piece UInt8) :=
  (layer1.parts.filter fun r => r.fate.stores).map PartRequest.piece

namespace Writer

section

variable (sha256 : Bytes → Bytes) (service : Service)

/-- Write everything and close; a `write` that raises is not repeated. -/
def session (writes : List Bytes) : EStateM PyError Writer Unit := do
  writeEach sha256 service writes
  close sha256 service

/-- The number of requests that returned. -/
def returned (log : List PartRequest) : ℕ :=
  log.countP fun r => !r.fate.raises

/-- Each request has the fate the service gives it and the range of the part
index that follows the requests returned before it. -/
structure LogInv (p : ℕ) (log : List PartRequest) : Prop where
  fate : ∀ pre r post, log = pre ++ r :: post →
    r.fate = service.fate pre.length
  range : ∀ pre r post, log = pre ++ r :: post →
    r.contentRange = partRange p (returned pre) r.partData.length

/-- No request raised. -/
def Clean (log : List PartRequest) : Prop :=
  ∀ r ∈ log, r.fate.raises = false

/-- What holds of the writer's uploader when `written` was written and `b` of it
is still buffered. -/
structure CoreInv (p c : ℕ) (written b : Bytes) (core : WriterCore) : Prop where
  opened : core.upload.uploader.closed = false
  partSize : core.upload.uploader.partSize = p
  chunkSize : core.upload.uploader.chunkSize = c
  log : LogInv service p core.upload.layer1.parts
  full : ∀ r ∈ core.upload.layer1.parts, r.partData.length = p
  data : core.upload.layer1.sentBytes ++ b = written
  buffered : written ≠ [] → b ≠ []
  index : core.nextPartIndex = returned core.upload.layer1.parts
  index_le : core.nextPartIndex ≤ core.upload.uploader.treeHashes.length
  hashes : none ∉ core.upload.uploader.treeHashes
  hashes_nil : core.upload.layer1.parts = [] →
    core.upload.uploader.treeHashes = []
  clean : Clean core.upload.layer1.parts →
    core.upload.uploader.treeHashes =
      core.upload.layer1.parts.map
        (fun r => some (partDigest sha256 c r.partData)) ∧
    core.upload.uploader.uploadedSize = core.upload.layer1.sentBytes.length
  completions : core.upload.layer1.completions = []

/-- The invariant between two calls on the writer. -/
def Inv (p c : ℕ) (written : Bytes) (w : Writer) : Prop :=
  w.closed = false ∧ ∃ b, w.partitioner.Holds p b ∧
    CoreInv sha256 service p c written b w.core ∧
    (Clean w.core.upload.layer1.parts → b.length ≤ p)

/-! ## One request -/

/-- The request made for the next part. -/
def nextRequest (core : WriterCore) (partData : Bytes) : PartRequest :=
  core.upload.partRequest sha256 service core.nextPartIndex partData

/-- The writer's uploader after `_upload_part`, which counts a part only when
its request returned. -/
def afterRequest (core : WriterCore) (partData : Bytes) : WriterCore :=
  let upload := core.upload.sent sha256 service core.nextPartIndex partData
  if (nextRequest sha256 service core partData).fate.raises then
    { core with upload := upload }
  else
    { nextPartIndex := core.nextPartIndex + 1
      upload := upload.addSize partData.length }

end

variable {sha256 : Bytes → Bytes} {service : Service} {p c : ℕ}
  {written b : Bytes} {core : WriterCore}

@[simp] theorem returned_nil : returned [] = 0 := rfl

theorem returned_append (xs ys : List PartRequest) :
    returned (xs ++ ys) = returned xs + returned ys :=
  List.countP_append

theorem returned_singleton (r : PartRequest) :
    returned [r] = if r.fate.raises then 0 else 1 := by
  cases h : r.fate.raises <;> simp [returned, h]

theorem Clean.returned_eq {log : List PartRequest} (h : Clean log) :
    returned log = log.length := by
  rw [returned, List.countP_eq_length]
  intro r hr
  simp [h r hr]

theorem run_uploadPart (hopen : core.upload.uploader.closed = false)
    (hindex : core.nextPartIndex ≤ core.upload.uploader.treeHashes.length)
    (partData : Bytes) :
    (uploadPart sha256 service partData).run core =
      if (nextRequest sha256 service core partData).fate.raises then
        .error .requestError (afterRequest sha256 service core partData)
      else .ok () (afterRequest sha256 service core partData) := by
  simp only [uploadPart, onUpload, run_bind, run_get, run_zoom, run_modify,
    Uploader.run_uploadPart hopen partData hindex, afterRequest, nextRequest,
    Upload.partRequest]
  by_cases hraises : (service.fate core.upload.layer1.parts.length).raises
  · simp only [hraises, if_true]
  · simp only [hraises, Bool.false_eq_true, if_false]

theorem parts_afterRequest (partData : Bytes) :
    (afterRequest sha256 service core partData).upload.layer1.parts =
      core.upload.layer1.parts ++
        [nextRequest sha256 service core partData] := by
  rw [afterRequest]
  split <;> rfl

theorem sentBytes_afterRequest (partData : Bytes) :
    (afterRequest sha256 service core partData).upload.layer1.sentBytes =
      core.upload.layer1.sentBytes ++ partData := by
  rw [Layer1.sentBytes, parts_afterRequest, List.map_append,
    List.flatten_append]
  simp [Layer1.sentBytes, nextRequest, Upload.partRequest]

theorem treeHashes_afterRequest (partData : Bytes) :
    (afterRequest sha256 service core partData).upload.uploader.treeHashes =
      Uploader.placeHash core.upload.uploader.treeHashes core.nextPartIndex
        (partDigest sha256 core.upload.uploader.chunkSize partData) := by
  rw [afterRequest]
  split <;> rfl

/-- The log invariant of one more request. -/
theorem LogInv.append {log : List PartRequest} {r : PartRequest}
    (h : LogInv service p log) (hfate : r.fate = service.fate log.length)
    (hrange : r.contentRange =
      partRange p (returned log) r.partData.length) :
    LogInv service p (log ++ [r]) := by
  have hcases : ∀ {pre x post}, log ++ [r] = pre ++ x :: post →
      (pre = log ∧ x = r) ∨ ∃ post', log = pre ++ x :: post' := by
    intro pre x post heq
    rcases List.append_eq_append_iff.mp heq with ⟨as, hpre, hr⟩ | ⟨as, hlog, hr⟩
    · cases as with
      | nil =>
          simp only [List.append_nil, List.nil_append] at hpre hr
          exact Or.inl ⟨hpre, (List.cons.inj hr).1.symm⟩
      | cons a as => simp at hr
    · cases as with
      | nil =>
          simp only [List.append_nil, List.nil_append] at hlog hr
          exact Or.inl ⟨hlog.symm, (List.cons.inj hr).1⟩
      | cons a as =>
          obtain ⟨rfl, -⟩ := List.cons.inj hr
          exact Or.inr ⟨as, hlog⟩
  constructor
  · intro pre x post heq
    rcases hcases heq with ⟨rfl, rfl⟩ | ⟨post', heq'⟩
    · exact hfate
    · exact h.fate pre x post' heq'
  · intro pre x post heq
    rcases hcases heq with ⟨rfl, rfl⟩ | ⟨post', heq'⟩
    · exact hrange
    · exact h.range pre x post' heq'

theorem CoreInv.logInv_afterRequest
    (h : CoreInv sha256 service p c written b core) (partData : Bytes) :
    LogInv service p
      (afterRequest sha256 service core partData).upload.layer1.parts := by
  rw [parts_afterRequest]
  apply h.log.append rfl
  rw [nextRequest, Upload.partRequest, h.partSize, h.index]

/-- A service that accepts everything leaves a clean log. -/
theorem LogInv.clean {log : List PartRequest} (h : LogInv service p log)
    (haccepts : service.Accepts) : Clean log := by
  intro r hr
  obtain ⟨pre, post, hsplit⟩ := List.append_of_mem hr
  rw [h.fate pre r post hsplit, haccepts]
  rfl

theorem Clean.of_append {xs ys : List PartRequest} (h : Clean (xs ++ ys)) :
    Clean xs :=
  fun r hr => h r (List.mem_append_left _ hr)

/-- A clean log has as many hashes recorded as requests made. -/
theorem CoreInv.nextPartIndex_eq
    (h : CoreInv sha256 service p c written b core)
    (hclean : Clean core.upload.layer1.parts) :
    core.nextPartIndex = core.upload.uploader.treeHashes.length := by
  rw [h.index, hclean.returned_eq, (h.clean hclean).1, List.length_map]

theorem CoreInv.clean_afterRequest
    (h : CoreInv sha256 service p c written b core) {partData : Bytes}
    (hclean : Clean
      (afterRequest sha256 service core partData).upload.layer1.parts) :
    (afterRequest sha256 service core partData).upload.uploader.treeHashes =
      (afterRequest sha256 service core partData).upload.layer1.parts.map
        (fun r => some (partDigest sha256 c r.partData)) ∧
    (afterRequest sha256 service core partData).upload.uploader.uploadedSize =
      (afterRequest sha256 service core
        partData).upload.layer1.sentBytes.length := by
  rw [parts_afterRequest] at hclean
  obtain ⟨hhashes, hsize⟩ := h.clean hclean.of_append
  have hok : (nextRequest sha256 service core partData).fate.raises = false :=
    hclean _ (by simp)
  constructor
  · rw [treeHashes_afterRequest, parts_afterRequest,
      h.nextPartIndex_eq hclean.of_append, Uploader.placeHash_length, hhashes,
      List.map_append, h.chunkSize]
    rfl
  · rw [sentBytes_afterRequest, List.length_append, ← hsize, afterRequest,
      hok]
    rfl

/-- A full part taken off the buffer keeps the invariant, whatever becomes of
its request. -/
theorem CoreInv.afterRequest (h : CoreInv sha256 service p c written b core)
    (hlong : p < b.length) :
    CoreInv sha256 service p c written (b.drop p)
      (afterRequest sha256 service core (b.take p)) where
  opened := by
    rw [Writer.afterRequest]
    split <;> exact h.opened
  partSize := by
    rw [Writer.afterRequest]
    split <;> exact h.partSize
  chunkSize := by
    rw [Writer.afterRequest]
    split <;> exact h.chunkSize
  log := h.logInv_afterRequest _
  full := by
    intro r hr
    rw [parts_afterRequest] at hr
    rcases List.mem_append.mp hr with hold | hnew
    · exact h.full r hold
    · rw [List.mem_singleton.mp hnew]
      simp only [nextRequest, Upload.partRequest, List.length_take]
      omega
  data := by
    rw [sentBytes_afterRequest, List.append_assoc, List.take_append_drop,
      h.data]
  buffered := by
    intro _
    rw [← List.length_pos_iff, List.length_drop]
    omega
  index := by
    rw [parts_afterRequest, returned_append, returned_singleton, ← h.index,
      Writer.afterRequest]
    cases (nextRequest sha256 service core (b.take p)).fate.raises <;> rfl
  index_le := by
    rw [treeHashes_afterRequest, Uploader.length_placeHash _ h.index_le,
      Writer.afterRequest]
    split
    · exact h.index_le.trans (le_max_left _ _)
    · exact le_max_right _ _
  hashes := by
    rw [treeHashes_afterRequest]
    exact Uploader.none_notMem_placeHash h.hashes
  hashes_nil := by
    intro hnil
    rw [parts_afterRequest] at hnil
    simp at hnil
  clean := h.clean_afterRequest
  completions := by
    rw [Writer.afterRequest]
    split <;> exact h.completions

theorem CoreInv.append (h : CoreInv sha256 service p c written b core)
    (data : Bytes) :
    CoreInv sha256 service p c (written ++ data) (b ++ data) core :=
  { h with
    data := by rw [← List.append_assoc, h.data]
    buffered := by
      intro hne hnil
      obtain ⟨hb, rfl⟩ := List.append_eq_nil_iff.mp hnil
      rw [List.append_nil] at hne
      exact h.buffered hne hb }

/-! ## Calls -/

theorem inv_init (sha256 : Bytes → Bytes) (service : Service) (p c : ℕ)
    (uploadId : Text) : Inv sha256 service p c [] (init uploadId p c) :=
  ⟨rfl, [], Partitioner.holds_init p,
    { opened := rfl
      partSize := rfl
      chunkSize := rfl
      log := ⟨by simp [init, Upload.init], by simp [init, Upload.init]⟩
      full := by simp [init, Upload.init]
      data := rfl
      buffered := fun h => absurd rfl h
      index := rfl
      index_le := le_refl _
      hashes := by simp [init, Upload.init]
      hashes_nil := fun _ => rfl
      clean := fun _ => ⟨rfl, rfl⟩
      completions := rfl },
    fun _ => Nat.zero_le _⟩

theorem meets_onPartitioner {α : Type}
    {x : EStateM PyError (Partitioner × WriterCore) α} {w : Writer}
    {Q : α → Partitioner × WriterCore → Prop}
    {E : PyError → Partitioner × WriterCore → Prop}
    {Q' : α → Writer → Prop} {E' : PyError → Writer → Prop}
    (h : (x.run (w.partitioner, w.core)).Meets Q E)
    (hQ : ∀ a part core, Q a (part, core) →
      Q' a { w with partitioner := part, core := core })
    (hE : ∀ e part core, E e (part, core) →
      E' e { w with partitioner := part, core := core }) :
    ((onPartitioner x).run w).Meets Q' E' :=
  meets_zoom h (fun a s => hQ a s.1 s.2) (fun e s => hE e s.1 s.2)

/-- A `write` keeps the invariant, and raises only after a request did. -/
theorem Inv.write (hp : 0 < p) {w : Writer}
    (h : Inv sha256 service p c written w) (data : Bytes) :
    ((write sha256 service data).run w).Meets
      (fun _ w' => Inv sha256 service p c (written ++ data) w')
      (fun _ w' => Inv sha256 service p c (written ++ data) w' ∧
        ¬ Clean w'.core.upload.layer1.parts) := by
  obtain ⟨hclosed, b, hb, hcore, hshort⟩ := h
  simp only [Writer.write, run_bind, run_get, hclosed, Bool.false_eq_true,
    if_false]
  by_cases hdata : data = []
  · subst data
    rw [List.append_nil]
    exact ⟨hclosed, b, hb, hcore, hshort⟩
  · have hwrite := Partitioner.meets_write
      (uploadPart sha256 service) hp
      (J := CoreInv sha256 service p c (written ++ data))
      (E := fun _ core' => ¬ Clean core'.upload.layer1.parts)
      (fun b' core' hlong hJ => by
        have hnext := hJ.afterRequest hlong
        rw [run_uploadPart hJ.opened hJ.index_le]
        split
        · rename_i hraises
          refine ⟨hnext, fun hclean => ?_⟩
          rw [parts_afterRequest] at hclean
          have := hclean (nextRequest sha256 service core' (b'.take p))
            (by simp)
          rw [hraises] at this
          cases this
        · exact hnext)
      hb (hcore.append data)
    apply meets_onPartitioner hwrite
    · rintro _ part core' ⟨b', hb', hcore', hle⟩
      exact ⟨hclosed, b', hb', hcore', fun _ => hle (Or.inr hdata)⟩
    · rintro _ part core' ⟨b', hb', hcore', hraised⟩
      exact ⟨⟨hclosed, b', hb', hcore', fun h => absurd h hraised⟩, hraised⟩

/-- A caller that goes on after failed writes keeps the invariant. -/
theorem Inv.writeEach (hp : 0 < p) (writes : List Bytes) {w : Writer}
    (h : Inv sha256 service p c written w) :
    ∃ w', (writeEach sha256 service writes).run w = .ok () w' ∧
      Inv sha256 service p c (written ++ writes.flatten) w' := by
  induction writes generalizing written w with
  | nil => exact ⟨w, rfl, by simpa using h⟩
  | cons data rest ih =>
      have hwrite := h.write hp data
      simp only [Writer.writeEach, run_bind, run_attempt, List.flatten_cons,
        ← List.append_assoc]
      cases hrun : (Writer.write sha256 service data).run w with
      | ok a w₁ =>
          rw [hrun] at hwrite
          exact ih hwrite
      | error e w₁ =>
          rw [hrun] at hwrite
          exact ih hwrite.1

/-- What the service has received when `close` returned. -/
structure Closed (sha256 : Bytes → Bytes) (service : Service) (p c : ℕ)
    (written : Bytes) (layer1 : Layer1) : Prop where
  log : LogInv service p layer1.parts
  parts : ∃ log r, layer1.parts = log ++ [r] ∧
    (∀ x ∈ log, x.partData.length = p) ∧ 0 < r.partData.length ∧
    r.partData.length ≤ p ∧ r.fate.raises = false
  data : ∃ rest, layer1.sentBytes ++ rest = written ∧
    (Clean layer1.parts → rest = [])
  completions : ∃ completion, layer1.completions = [completion] ∧
    (Clean layer1.parts → completion.archiveSize = written.length ∧
      ∃ hash, completion.treeHash = bytesToHex hash ∧
        treeHash sha256 (layer1.parts.map
          fun r => partDigest sha256 c r.partData) = .ok hash)

/-- A `flush` requests what is still buffered as the last part. -/
theorem meets_flush {w : Writer} (hb : w.partitioner.Holds p b)
    (hcore : CoreInv sha256 service p c written b w.core) :
    ((onPartitioner (Partitioner.flush (uploadPart sha256 service))).run w).Meets
      (fun _ w' => w'.closed = w.closed ∧
        (b = [] ∧ w'.core = w.core ∨ b ≠ [] ∧
          (nextRequest sha256 service w.core (b.take p)).fate.raises = false ∧
          w'.core = afterRequest sha256 service w.core (b.take p)))
      (fun _ _ => ∃ n, (service.fate n).raises = true) := by
  apply meets_onPartitioner (Partitioner.meets_flush _
    (Q := fun _ s => b = [] ∧ s.2 = w.core ∨ b ≠ [] ∧
      (nextRequest sha256 service w.core (b.take p)).fate.raises = false ∧
      s.2 = afterRequest sha256 service w.core (b.take p))
    (F := fun _ _ => ∃ n, (service.fate n).raises = true) hb ?_ ?_)
  · exact fun _ _ _ h => ⟨rfl, h⟩
  · exact fun _ _ _ h => h
  · exact fun hnil => Or.inl ⟨hnil, rfl⟩
  · intro hne
    rw [run_uploadPart hcore.opened hcore.index_le]
    split
    · rename_i hraises
      exact fun _ _ => ⟨_, hraises⟩
    · rename_i hok
      exact fun _ _ => Or.inr ⟨hne, Bool.eq_false_of_not_eq_true hok, rfl⟩

theorem run_close {w : Writer} (hopen : w.closed = false) :
    (close sha256 service).run w =
      (onPartitioner (Partitioner.flush (uploadPart sha256 service)) >>=
        fun _ => zoom Writer.core (fun w c => { w with core := c })
          (onUpload (Uploader.close sha256 service)) >>=
        fun _ => modify fun w => { w with closed := true }).run w := by
  rw [close]
  simp only [run_bind, run_get, hopen, Bool.false_eq_true, if_false]

theorem CoreInv.parts_eq_nil (hp : 0 < p)
    (h : CoreInv sha256 service p c written b core) (hnil : written = []) :
    core.upload.layer1.parts = [] := by
  have hdata := h.data
  rw [hnil, List.append_eq_nil_iff] at hdata
  cases hparts : core.upload.layer1.parts with
  | nil => rfl
  | cons r rest =>
      have hlen := h.full r (by simp [hparts])
      have hr : r.partData = [] := by
        have hflat := hdata.1
        rw [Layer1.sentBytes, hparts, List.map_cons, List.flatten_cons,
          List.append_eq_nil_iff] at hflat
        exact hflat.1
      rw [hr] at hlen
      exact absurd hlen.symm hp.ne'

/-- The service's record after the last part and the completion request. -/
theorem CoreInv.closed (h : CoreInv sha256 service p c written b core)
    (hp : 0 < p) (hb : b ≠ [])
    (hshort : Clean core.upload.layer1.parts → b.length ≤ p)
    (hok : (nextRequest sha256 service core (b.take p)).fate.raises = false)
    {hash : Bytes}
    (hhash : treeHash sha256 ((Writer.afterRequest sha256 service core
      (b.take p)).upload.uploader.treeHashes.filterMap id) = .ok hash) :
    Closed sha256 service p c written ((Writer.afterRequest sha256 service core
      (b.take p)).upload.completed service hash).layer1 := by
  have hpos : 0 < b.length := List.length_pos_iff.mpr hb
  have hrest : Clean (Writer.afterRequest sha256 service core
      (b.take p)).upload.layer1.parts → b.drop p = [] := by
    intro hclean
    rw [parts_afterRequest] at hclean
    exact List.drop_of_length_le (hshort hclean.of_append)
  have hdata : (Writer.afterRequest sha256 service core
      (b.take p)).upload.layer1.sentBytes ++ b.drop p = written := by
    rw [sentBytes_afterRequest, List.append_assoc, List.take_append_drop,
      h.data]
  constructor
  · exact h.logInv_afterRequest _
  · refine ⟨_, _, parts_afterRequest _, h.full, ?_, ?_, hok⟩
    · simp only [nextRequest, Upload.partRequest, List.length_take]
      omega
    · simp only [nextRequest, Upload.partRequest, List.length_take]
      omega
  · exact ⟨b.drop p, hdata, hrest⟩
  · have hnone : (Writer.afterRequest sha256 service core
        (b.take p)).upload.layer1.completions = [] := by
      rw [Writer.afterRequest]
      split <;> exact h.completions
    refine ⟨_, by simp only [Upload.completed, hnone, List.nil_append]; rfl, ?_⟩
    intro hclean
    obtain ⟨hhashes, hsize⟩ := h.clean_afterRequest hclean
    refine ⟨?_, hash, rfl, ?_⟩
    · rw [hsize, ← hdata, hrest hclean, List.append_nil]
    · rw [hhashes, List.filterMap_map] at hhash
      rw [← hhash]
      simp [Upload.completed]

/-- `close` returns after a last part that the service acknowledged.  It raises
when nothing was written, and otherwise only when a request does. -/
theorem Inv.close {w : Writer} (hp : 0 < p)
    (h : Inv sha256 service p c written w) :
    ((close sha256 service).run w).Meets
      (fun _ w' => Closed sha256 service p c written w'.core.upload.layer1)
      (fun _ w' => written = [] ∧ w'.core.upload.layer1.parts = [] ∧
          w'.core.upload.layer1.completions = [] ∨
        ∃ n, (service.fate n).raises = true) := by
  obtain ⟨hclosed, b, hb, hcore, hshort⟩ := h
  rw [run_close hclosed]
  apply meets_bind ((meets_flush hb hcore).mono (fun _ _ h => h)
    (fun _ _ h => Or.inr h))
  rintro _ w₁ ⟨-, ⟨hnil, hsame⟩ | ⟨hne, hok, hafter⟩⟩
  · have hwritten : written = [] := by
      by_contra hne
      exact hcore.buffered hne hnil
    have hparts := hcore.parts_eq_nil hp hwritten
    simp only [run_bind, run_zoom, onUpload, hsame,
      Uploader.run_close_of_nil hcore.opened (hcore.hashes_nil hparts)]
    exact Or.inl ⟨hwritten, hparts, hcore.completions⟩
  · have hopen : w₁.core.upload.uploader.closed = false := by
      rw [hafter, afterRequest]
      split <;> exact hcore.opened
    have hnone : none ∉ w₁.core.upload.uploader.treeHashes := by
      rw [hafter, treeHashes_afterRequest]
      exact Uploader.none_notMem_placeHash hcore.hashes
    have hsome : w₁.core.upload.uploader.treeHashes.filterMap id ≠ [] := by
      have hpos : 0 < w₁.core.upload.uploader.treeHashes.length := by
        rw [hafter, treeHashes_afterRequest,
          Uploader.length_placeHash _ hcore.index_le]
        omega
      obtain ⟨x, hx⟩ := List.exists_mem_of_length_pos hpos
      cases x with
      | none => exact absurd hx hnone
      | some hash =>
          exact List.ne_nil_of_mem (List.mem_filterMap.mpr ⟨_, hx, rfl⟩)
    obtain ⟨hash, hhash⟩ := exists_treeHash_eq_ok sha256 hsome
    simp only [run_bind, run_zoom, onUpload, run_modify,
      Uploader.run_close hopen hnone hhash]
    rw [hafter] at hhash ⊢
    exact hcore.closed hp hne hshort hok hhash

end Writer

end Boto.Glacier

/-!
## Where the parts of a closed writer go

The parts of a session are full except for the last one.  Without failed requests
their ranges follow each other from the start of the archive, and the service
stores all of them.
-/

namespace Boto.Glacier.Writer

open EStateM

variable {sha256 : Bytes → Bytes} {service : Service} {p c : ℕ}
  {written : Bytes} {layer1 : Layer1}

/-! ## The pieces of a log -/

/-- Without failures the parts follow each other. -/
theorem tiles_of_clean {log : List PartRequest} (h : LogInv service p log)
    (hclean : Clean log)
    (hfull : ∀ r ∈ log.dropLast, r.partData.length = p) :
    Placement.Tiles 0 (log.map PartRequest.piece) := by
  -- a prefix of the log ends where the index of the next part begins
  have hprefix : ∀ pre post, log = pre ++ post →
      Placement.Tiles (p * pre.length : ℕ) (post.map PartRequest.piece) := by
    intro pre post heq
    induction post generalizing pre with
    | nil => exact trivial
    | cons r post ih =>
        have hpre : Clean pre := fun x hx => hclean x (by simp [heq, hx])
        have hrange := h.range pre r post heq
        rw [hpre.returned_eq] at hrange
        refine ⟨by simp [PartRequest.piece, hrange, partRange],
          by simp [PartRequest.piece, hrange, partRange], ?_⟩
        have htail := ih (pre ++ [r]) (by simp [heq])
        cases post with
        | nil => exact trivial
        | cons s post =>
            have hr : r.partData.length = p := by
              apply hfull
              rw [heq, List.dropLast_append_of_ne_nil (by simp)]
              simp
            rw [List.length_append, List.length_singleton, Nat.mul_add,
              Nat.mul_one, Nat.cast_add] at htail
            simpa only [PartRequest.piece, hr] using htail
  simpa using hprefix [] log rfl

theorem LogInv.fits_piece {log : List PartRequest} (h : LogInv service p log)
    {r : PartRequest} (hr : r ∈ log) : r.piece.Fits := by
  obtain ⟨pre, post, rfl⟩ := List.append_of_mem hr
  have hrange := h.range pre r post rfl
  constructor
  · simp only [PartRequest.piece, hrange, partRange]
    exact Int.natCast_nonneg _
  · simp only [PartRequest.piece, hrange, partRange]

/-! ## The requests of a closed writer -/

namespace Closed

theorem length_pos (h : Closed sha256 service p c written layer1) (hp : 0 < p)
    {r : PartRequest} (hr : r ∈ layer1.parts) : 0 < r.partData.length := by
  obtain ⟨log, last, hparts, hfull, hpos, -, -⟩ := h.parts
  rw [hparts] at hr
  rcases List.mem_append.mp hr with hlog | hlast
  · rw [hfull r hlog]
    exact hp
  · rw [List.mem_singleton.mp hlast]
    exact hpos

/-- All parts but the last one are full, so the number of parts follows from
the number of bytes. -/
theorem length_parts_bounds (h : Closed sha256 service p c written layer1) :
    (layer1.parts.length - 1) * p < layer1.sentBytes.length ∧
      layer1.sentBytes.length ≤ layer1.parts.length * p := by
  obtain ⟨log, last, hparts, hfull, hpos, hle, -⟩ := h.parts
  have hlog : (log.map fun r => r.partData.length).sum = log.length * p := by
    rw [List.map_congr_left hfull]
    simp
  have hsent : layer1.sentBytes.length =
      log.length * p + last.partData.length := by
    rw [Layer1.sentBytes, hparts, List.length_flatten, List.map_map,
      List.map_append, List.sum_append]
    simpa [Function.comp_def] using hlog
  have hlength : layer1.parts.length = log.length + 1 := by simp [hparts]
  have hmul : (log.length + 1) * p = log.length * p + p := Nat.succ_mul _ _
  rw [hsent, hlength, Nat.add_sub_cancel, hmul]
  omega

theorem tiles (h : Closed sha256 service p c written layer1)
    (hclean : Clean layer1.parts) :
    Placement.Tiles 0 (layer1.parts.map PartRequest.piece) := by
  obtain ⟨log, last, hparts, hfull, -⟩ := h.parts
  apply tiles_of_clean h.log hclean
  rw [hparts, List.dropLast_concat]
  exact hfull

/-- Without failures the `k`-th request is for the `k`-th part. -/
theorem range_of_clean (h : Closed sha256 service p c written layer1)
    (hclean : Clean layer1.parts) {k : ℕ} {r : PartRequest}
    (hr : layer1.parts[k]? = some r) :
    r.contentRange = partRange p k r.partData.length := by
  obtain ⟨hk, rfl⟩ := List.getElem?_eq_some_iff.mp hr
  have hsplit : layer1.parts = layer1.parts.take k ++
      layer1.parts[k] :: layer1.parts.drop (k + 1) := by simp
  have hpre : Clean (layer1.parts.take k) :=
    fun x hx => hclean x (List.mem_of_mem_take hx)
  rw [h.log.range _ _ _ hsplit, hpre.returned_eq, List.length_take,
    min_eq_left hk.le]

/-- Without failures the service stored every part. -/
theorem storedPieces_of_clean (hclean : Clean layer1.parts) :
    layer1.storedPieces = layer1.parts.map PartRequest.piece := by
  rw [Layer1.storedPieces, List.filter_eq_self.mpr]
  intro r hr
  have := hclean r hr
  cases hfate : r.fate <;> simp_all [Fate.raises, Fate.stores]

theorem sentBytes_of_clean (h : Closed sha256 service p c written layer1)
    (hclean : Clean layer1.parts) : layer1.sentBytes = written := by
  obtain ⟨rest, hdata, hrest⟩ := h.data
  rw [hrest hclean, List.append_nil] at hdata
  exact hdata

end Closed

theorem closed_of_session (hp : 0 < p) {uploadId : Text} {writes : List Bytes}
    {w : Writer} (hrun : (session sha256 service writes).run
      (init uploadId p c) = .ok () w) :
    Closed sha256 service p c writes.flatten w.core.upload.layer1 := by
  obtain ⟨w₁, hwrites, hinv⟩ := Inv.writeEach hp writes
    (inv_init sha256 service p c uploadId)
  rw [List.nil_append] at hinv
  have hclose := hinv.close hp
  simp only [session, run_bind, hwrites] at hrun
  rw [hrun] at hclose
  exact hclose

end Boto.Glacier.Writer
