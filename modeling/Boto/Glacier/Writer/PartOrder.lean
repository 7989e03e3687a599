import Boto.Glacier.Writer.Deliveries

/-!
# The order in which parts are delivered

The list of recorded hashes is grown by at most one place at a time, so a part
whose index lies beyond the next one is refused with an `IndexError`.  Hence the
parts have to arrive in the order of their indices, and a missing part is never
noticed: the list has no `None` in it when the uploader is closed.
-/

namespace Boto.Glacier

open EStateM

namespace Uploader

section

variable (sha256 : Bytes → Bytes) (service : Service)

/-- No call raised, and the upload was completed with the tree hash of the part
hashes in the order of their indices and with the size of all parts. -/
def Assembled (uploadId : Text) (p c : ℕ) (ds : List Delivery) : Prop :=
  ∃ u, (deliverAll sha256 service ds >>= fun _ =>
      close sha256 service).run (.init uploadId p c) = .ok () u ∧
    ∃ hashes hash, hashes.length = ds.length ∧
      (∀ d ∈ ds, hashes[d.partIndex]? = some (d.partTreeHash sha256 c)) ∧
      treeHash sha256 hashes = .ok hash ∧
      u.layer1.completions = [
        { uploadId := uploadId
          treeHash := bytesToHex hash
          archiveSize := (ds.map (·.partLength)).sum }]

/-- `close` raises `RuntimeError` after these deliveries. -/
def CloseRefuses (uploadId : Text) (p c : ℕ) (ds : List Delivery) : Prop :=
  ∃ message u, (deliverEach sha256 service ds >>= fun _ =>
    close sha256 service).run (.init uploadId p c) =
      .error (.runtimeError message) u

end

/-- Some index below a delivered one was never delivered. -/
def Gap (ds : List Delivery) : Prop :=
  ∃ d ∈ ds, ∃ i < d.partIndex, i ∉ ds.map (·.partIndex)

variable {sha256 : Bytes → Bytes} {service : Service} {u : Upload}
  {uploadId : Text} {p c : ℕ}

/-! ## Parts in order -/

theorem assembled_of_order (haccepts : service.Accepts) {ds : List Delivery}
    (hne : ds ≠ [])
    (horder : ds.map (·.partIndex) = List.range ds.length) :
    Assembled sha256 service uploadId p c ds := by
  have hhashes : ds.map (·.partTreeHash sha256 c) ≠ [] := by simpa using hne
  obtain ⟨hash, hhash⟩ := exists_treeHash_eq_ok sha256 hhashes
  refine ⟨_, run_deliverAll_close haccepts horder hhash uploadId p, _, hash, by simp, ?_,
    hhash, by simp [Upload.completed, Upload.recorded, Upload.init]⟩
  intro d hd
  obtain ⟨i, hi, rfl⟩ := List.getElem_of_mem hd
  have hindex : ds[i].partIndex = i := by
    have hat : (ds.map (·.partIndex))[i]? = (List.range ds.length)[i]? := by
      rw [horder]
    simpa [hi] using hat
  rw [hindex]
  simp [hi]

/-- A permutation of the next indices that raises nowhere is in order. -/
theorem order_of_run_deliverAll (haccepts : service.Accepts)
    (hopen : u.uploader.closed = false) {ds : List Delivery}
    (hperm : (ds.map (·.partIndex)).Perm
      (List.range' u.uploader.treeHashes.length ds.length))
    {u' : Upload} (hrun : (deliverAll sha256 service ds).run u = .ok () u') :
    ds.map (·.partIndex) =
      List.range' u.uploader.treeHashes.length ds.length := by
  induction ds generalizing u with
  | nil => rfl
  | cons d ds ih =>
      have hmem : d.partIndex ∈
          List.range' u.uploader.treeHashes.length (d :: ds).length :=
        hperm.mem_iff.mp (by simp)
      have hge := (List.mem_range'_1.mp hmem).1
      simp only [deliverAll, run_bind] at hrun
      -- a later index raises, and an earlier one is not among the indices
      have hindex : d.partIndex = u.uploader.treeHashes.length := by
        by_contra hne
        rw [run_deliver_of_gt hopen (by omega)] at hrun
        cases hrun
      rw [run_deliver_next hopen haccepts hindex] at hrun
      rw [List.map_cons, List.length_cons, List.range'_succ, hindex,
        List.perm_cons] at hperm
      have htail := ih (u := u.recorded sha256 [d]) hopen
        (by simpa [Upload.recorded] using hperm) hrun
      rw [List.map_cons, List.length_cons, List.range'_succ, hindex, htail]
      simp [Upload.recorded]

theorem order_of_assembled (haccepts : service.Accepts) {ds : List Delivery}
    (hperm : (ds.map (·.partIndex)).Perm (List.range ds.length))
    (h : Assembled sha256 service uploadId p c ds) :
    ds.map (·.partIndex) = List.range ds.length := by
  obtain ⟨u, hrun, -⟩ := h
  rw [run_bind] at hrun
  cases hdeliver : (deliverAll sha256 service ds).run (.init uploadId p c) with
  | error e u' =>
      rw [hdeliver] at hrun
      cases hrun
  | ok a u' =>
      have horder := order_of_run_deliverAll (u := .init uploadId p c) haccepts
        rfl (by simpa [Upload.init, List.range_eq_range'] using hperm) hdeliver
      simpa [Upload.init, List.range_eq_range'] using horder

/-! ## Missing parts -/

/-- No delivery leaves a `None` among the recorded hashes, whether it raises or
not. -/
theorem deliver_none_notMem (sha256 : Bytes → Bytes) (service : Service)
    (hopen : u.uploader.closed = false)
    (hnone : none ∉ u.uploader.treeHashes) (d : Delivery) :
    ((deliver sha256 service d).run u).state.uploader.closed = false ∧
      none ∉ ((deliver sha256 service d).run u).state.uploader.treeHashes := by
  by_cases hgt : u.uploader.treeHashes.length < d.partIndex
  · rw [run_deliver_of_gt hopen hgt]
    exact ⟨hopen, hnone⟩
  · have hle := Nat.not_lt.mp hgt
    have hplace : ∀ hash,
        none ∉ placeHash u.uploader.treeHashes d.partIndex hash :=
      fun hash => none_notMem_placeHash hnone
    cases d with
    | upload partIndex partData =>
        change partIndex ≤ _ at hle
        rw [deliver, run_uploadPart hopen partData hle]
        split
        · exact ⟨hopen, hplace _⟩
        · exact ⟨hopen, hplace _⟩
    | skip partIndex partTreeHash partLength =>
        change partIndex ≤ _ at hle
        rw [deliver, run_skipPart hopen partTreeHash partLength hle]
        exact ⟨hopen, hplace _⟩

theorem run_deliverEach (sha256 : Bytes → Bytes) (service : Service)
    (hopen : u.uploader.closed = false)
    (hnone : none ∉ u.uploader.treeHashes) (ds : List Delivery) :
    ∃ u', (deliverEach sha256 service ds).run u = .ok () u' ∧
      u'.uploader.closed = false ∧ none ∉ u'.uploader.treeHashes := by
  induction ds generalizing u with
  | nil => exact ⟨u, rfl, hopen, hnone⟩
  | cons d ds ih =>
      have hd := deliver_none_notMem sha256 service hopen hnone d
      simp only [deliverEach, run_bind, run_attempt]
      cases hrun : (deliver sha256 service d).run u with
      | ok a u₁ =>
          rw [hrun] at hd
          exact ih hd.1 hd.2
      | error e u₁ =>
          rw [hrun] at hd
          exact ih hd.1 hd.2

theorem not_closeRefuses (ds : List Delivery) :
    ¬ CloseRefuses sha256 service uploadId p c ds := by
  rintro ⟨message, u', hrun⟩
  obtain ⟨u, hdeliver, hopen, hnone⟩ := run_deliverEach sha256 service
    (u := .init uploadId p c) rfl (by simp [Upload.init]) ds
  rw [run_bind, hdeliver] at hrun
  by_cases hnil : u.uploader.treeHashes.filterMap id = []
  · have hempty : u.uploader.treeHashes = [] := by
      rw [List.eq_nil_iff_forall_not_mem]
      rintro (_ | hash) hmem
      · exact hnone hmem
      · have : hash ∈ u.uploader.treeHashes.filterMap id :=
          List.mem_filterMap.mpr ⟨_, hmem, rfl⟩
        rw [hnil] at this
        exact List.not_mem_nil this
    have hclose : (close sha256 service).run u = _ :=
      run_close_of_nil hopen hempty
    cases hclose.symm.trans hrun
  · obtain ⟨hash, hhash⟩ := exists_treeHash_eq_ok sha256 hnil
    have hclose : (close sha256 service).run u = _ :=
      run_close hopen hnone hhash
    cases hclose.symm.trans hrun

/-- Parts may be delivered in no other order than that of their indices, and
`close` does not notice a missing one. -/
theorem any_order_iff_in_order (haccepts : service.Accepts) :
    (∀ n ≥ 1, ∀ ds : List Delivery,
      (ds.map (·.partIndex)).Perm (List.range n) →
      (Assembled sha256 service uploadId p c ds ↔
        ds.map (·.partIndex) = List.range n)) ∧
    ∀ ds, (CloseRefuses sha256 service uploadId p c ds ↔ Gap ds) ↔
      ¬ Gap ds := by
  constructor
  · intro n hn ds hperm
    have hlength : n = ds.length := by simpa using hperm.length_eq.symm
    subst hlength
    constructor
    · exact order_of_assembled haccepts hperm
    · exact assembled_of_order haccepts (List.ne_nil_of_length_pos hn)
  · intro ds
    simp only [not_closeRefuses ds, false_iff]

theorem any_order_iff_in_order_accepting :
    (∀ n ≥ 1, ∀ ds : List Delivery,
      (ds.map (·.partIndex)).Perm (List.range n) →
      (Assembled id .accepting [] 1 1 ds ↔
        ds.map (·.partIndex) = List.range n)) ∧
    ∀ ds, (CloseRefuses id .accepting [] 1 1 ds ↔ Gap ds) ↔ ¬ Gap ds :=
  any_order_iff_in_order Service.accepts_accepting

/-- Two parts in the wrong order are refused, and a missing part is not
noticed. -/
theorem part_order_refused :
    (([.upload 1 [2], .upload 0 [1]] : List Delivery).map
        (·.partIndex)).Perm (List.range 2) ∧
    ¬ Assembled id .accepting [] 1 1 [.upload 1 [2], .upload 0 [1]] ∧
    Gap [.upload 0 [1], .upload 2 [3]] ∧
    ¬ CloseRefuses id .accepting [] 1 1 [.upload 0 [1], .upload 2 [3]] := by
  refine ⟨List.Perm.swap 0 1 [], ?_, ⟨.upload 2 [3], by simp, 1, ?_⟩,
    not_closeRefuses _⟩
  · rintro ⟨u, hrun, -⟩
    cases hrun
  · simp [Delivery.partIndex]

end Uploader

end Boto.Glacier
