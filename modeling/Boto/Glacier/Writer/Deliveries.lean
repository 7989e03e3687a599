import Boto.Glacier.Writer.Uploader

/-!
# Delivering parts to an uploader

A part is delivered by `upload_part` or by `skip_part`.  Parts delivered in the
order of their indices are recorded one after the other, whichever of the two
calls delivers them.
-/

namespace Boto.Glacier

open EStateM

/-- One call that delivers a part. -/
inductive Delivery
  | upload (partIndex : ℕ) (partData : Bytes)
  | skip (partIndex : ℕ) (partTreeHash : Bytes) (partLength : ℕ)
  deriving DecidableEq, Repr

namespace Delivery

/-- The index of the delivered part. -/
def partIndex : Delivery → ℕ
  | upload partIndex _ => partIndex
  | skip partIndex _ _ => partIndex

/-- The number of bytes of the delivered part. -/
def partLength : Delivery → ℕ
  | upload _ partData => partData.length
  | skip _ _ partLength => partLength

/-- The tree hash of the delivered part. -/
def partTreeHash (sha256 : Bytes → Bytes) (chunkSize : ℕ) : Delivery → Bytes
  | upload _ partData => partDigest sha256 chunkSize partData
  | skip _ partTreeHash _ => partTreeHash

/-- The request that delivers the part, if one is made. -/
def request? (sha256 : Bytes → Bytes) (uploadId : Text)
    (partSize chunkSize : ℕ) : Delivery → Option PartRequest
  | upload partIndex partData => some
      { uploadId := uploadId
        linearHash := hexlify (sha256 partData)
        treeHash := bytesToHex (partDigest sha256 chunkSize partData)
        contentRange := partRange partSize partIndex partData.length
        partData := partData
        fate := .accepted }
  | skip _ _ _ => none

end Delivery

section

variable (sha256 : Bytes → Bytes) (service : Service)

/-- The uploader after the parts were recorded in this order. -/
def Upload.recorded (u : Upload) (deliveries : List Delivery) : Upload where
  uploader :=
    { u.uploader with
      uploadedSize :=
        u.uploader.uploadedSize + (deliveries.map (·.partLength)).sum
      treeHashes := u.uploader.treeHashes ++ deliveries.map fun d =>
        some (d.partTreeHash sha256 u.uploader.chunkSize) }
  layer1 :=
    { u.layer1 with
      parts := u.layer1.parts ++ deliveries.filterMap
        (Delivery.request? sha256 u.uploader.uploadId u.uploader.partSize
          u.uploader.chunkSize) }

namespace Uploader

/-- Deliver one part. -/
def deliver : Delivery → EStateM PyError Upload Unit
  | .upload partIndex partData =>
      uploadPart sha256 service partIndex partData
  | .skip partIndex partTreeHash partLength =>
      skipPart partIndex partTreeHash partLength

/-- Deliver the parts one after the other; an exception ends it. -/
def deliverAll : List Delivery → EStateM PyError Upload Unit
  | [] => pure ()
  | delivery :: rest => do
      deliver sha256 service delivery
      deliverAll rest

/-- Deliver the parts one after the other; a caller that gets an exception goes
on with the next part. -/
def deliverEach : List Delivery → EStateM PyError Upload Unit
  | [] => pure ()
  | delivery :: rest => do
      let _ ← attempt (deliver sha256 service delivery)
      deliverEach rest

end Uploader

end

namespace Uploader

variable {sha256 : Bytes → Bytes} {service : Service} {u : Upload}

theorem recorded_cons (d : Delivery) (ds : List Delivery) :
    (u.recorded sha256 [d]).recorded sha256 ds = u.recorded sha256 (d :: ds) := by
  simp only [Upload.recorded, List.map_cons, List.map_nil, List.sum_cons,
    List.sum_nil, Nat.add_zero, List.filterMap_cons, List.filterMap_nil,
    Nat.add_assoc, List.append_assoc]
  cases Delivery.request? sha256 u.uploader.uploadId u.uploader.partSize
    u.uploader.chunkSize d <;> simp

section

variable (hopen : u.uploader.closed = false)

include hopen

/-- The part whose index comes next is recorded. -/
theorem run_deliver_next (haccepts : service.Accepts) {d : Delivery}
    (hindex : d.partIndex = u.uploader.treeHashes.length) :
    (deliver sha256 service d).run u = .ok () (u.recorded sha256 [d]) := by
  cases d with
  | upload partIndex partData =>
      simp only [Delivery.partIndex] at hindex
      subst hindex
      rw [deliver, run_uploadPart hopen partData (le_refl _),
        haccepts u.layer1.parts.length]
      simp [Fate.raises, Upload.sent, Upload.addSize, Upload.recorded,
        Upload.partRequest, placeHash_length, Delivery.partLength,
        Delivery.partTreeHash, Delivery.request?, haccepts _]
  | skip partIndex partTreeHash partLength =>
      simp only [Delivery.partIndex] at hindex
      subst hindex
      rw [deliver, run_skipPart hopen partTreeHash partLength (le_refl _)]
      simp [Upload.withTreeHashes, Upload.addSize, Upload.recorded,
        placeHash_length, Delivery.partLength, Delivery.partTreeHash,
        Delivery.request?, List.filterMap_cons]

/-- A part beyond the next index is refused, and nothing is recorded. -/
theorem run_deliver_of_gt {d : Delivery}
    (hindex : u.uploader.treeHashes.length < d.partIndex) :
    (deliver sha256 service d).run u =
      .error (.indexError "list assignment index out of range") u := by
  cases d with
  | upload partIndex partData => exact run_uploadPart_of_gt hopen _ hindex
  | skip partIndex partTreeHash partLength =>
      exact run_skipPart_of_gt hopen _ _ hindex

/-- Parts delivered in the order of their indices are all recorded. -/
theorem run_deliverAll (haccepts : service.Accepts) {ds : List Delivery}
    (horder : ds.map (·.partIndex) =
      List.range' u.uploader.treeHashes.length ds.length) :
    (deliverAll sha256 service ds).run u = .ok () (u.recorded sha256 ds) := by
  induction ds generalizing u with
  | nil => simp [deliverAll, Upload.recorded]
  | cons d ds ih =>
      rw [List.map_cons, List.length_cons, List.range'_succ,
        List.cons.injEq] at horder
      obtain ⟨hindex, htail⟩ := horder
      have hrest := ih (u := u.recorded sha256 [d]) hopen
        (by simpa [Upload.recorded] using htail)
      simp only [deliverAll, run_bind, run_deliver_next hopen haccepts hindex,
        hrest, recorded_cons]

end

/-- The completion of an upload whose parts were delivered in order. -/
theorem run_deliverAll_close (haccepts : service.Accepts) {c : ℕ}
    {ds : List Delivery}
    (horder : ds.map (·.partIndex) = List.range ds.length) {hash : Bytes}
    (hhash : treeHash sha256 (ds.map (·.partTreeHash sha256 c)) = .ok hash)
    (uploadId : Text) (p : ℕ) :
    (deliverAll sha256 service ds >>= fun _ => close sha256 service).run
        (.init uploadId p c) =
      .ok () (((Upload.init uploadId p c).recorded sha256 ds).completed service
        hash) := by
  have hrun : (deliverAll sha256 service ds).run (.init uploadId p c) =
      .ok () ((Upload.init uploadId p c).recorded sha256 ds) :=
    run_deliverAll rfl haccepts
      (by simpa [Upload.init, List.range_eq_range'] using horder)
  have hclose : (close sha256 service).run
      ((Upload.init uploadId p c).recorded sha256 ds) = .ok ()
        (((Upload.init uploadId p c).recorded sha256 ds).completed service
          hash) :=
    run_close rfl (by simp [Upload.recorded, Upload.init]) (by simpa [Upload.recorded, Upload.init, List.filterMap_map,
      Function.comp_def] using hhash)
  rw [run_bind, hrun]
  exact hclose

end Uploader

end Boto.Glacier
