import Boto.Glacier.Writer.Session

/-!
# What a failed part does to the archive

A `write` that raises has already taken its part off the buffer, and the writer
gives the next part the index of the failed one.  A later `close` still completes
the upload.  The archive is then what was written exactly when no part request
raised.
-/

namespace Boto.Glacier

open EStateM

/-- The service holds `written`, each byte once and at its place, and no two
different parts were requested for one place. -/
def StoredExactly (layer1 : Layer1) (written : Bytes) : Prop :=
  Placement.Covers layer1.storedPieces written ∧
    ∀ r ∈ layer1.parts, ∀ s ∈ layer1.parts,
      r.contentRange.1 = s.contentRange.1 → r.partData = s.partData

namespace Writer

variable {sha256 : Bytes → Bytes} {service : Service} {p c : ℕ}
  {written : Bytes} {layer1 : Layer1}

/-- A part that failed and the part requested after it are for the same
place. -/
theorem LogInv.range_after_failure {pre post : List PartRequest}
    {r s : PartRequest} (h : LogInv service p (pre ++ r :: s :: post))
    (hr : r.fate.raises = true) :
    s.contentRange.1 = r.contentRange.1 := by
  have hrange := h.range pre r (s :: post) rfl
  have hnext := h.range (pre ++ [r]) s post (by simp)
  rw [returned_append, returned_singleton, hr, if_pos rfl, Nat.add_zero]
    at hnext
  rw [hrange, hnext]
  rfl

/-! ## The archive of a closed writer -/

namespace Closed

theorem storedExactly_of_clean
    (h : Closed sha256 service p c written layer1) (hp : 0 < p)
    (hclean : Clean layer1.parts) : StoredExactly layer1 written := by
  constructor
  · have hcovers := Placement.covers_of_tiles (h.tiles hclean)
    rw [← storedPieces_of_clean hclean] at hcovers
    convert hcovers using 1
    rw [← h.sentBytes_of_clean hclean, storedPieces_of_clean hclean,
      List.map_map]
    rfl
  · intro r hr s hs hstart
    obtain ⟨i, hi, rfl⟩ := List.getElem_of_mem hr
    obtain ⟨j, hj, rfl⟩ := List.getElem_of_mem hs
    rw [h.range_of_clean hclean (List.getElem?_eq_getElem hi),
      h.range_of_clean hclean (List.getElem?_eq_getElem hj)] at hstart
    have hij : i = j := Nat.eq_of_mul_eq_mul_left hp (Int.ofNat.inj hstart)
    subst hij
    rfl

/-- An archive that is what was written holds every part that was requested,
and nothing is missing from the requests. -/
theorem stored_of_covers (h : Closed sha256 service p c written layer1)
    (hp : 0 < p) (hcovers : Placement.Covers layer1.storedPieces written) :
    (∀ r ∈ layer1.parts, r.fate.stores = true) ∧
      layer1.sentBytes = written := by
  obtain ⟨rest, hdata, -⟩ := h.data
  have hfits : ∀ q ∈ layer1.storedPieces, q.Fits := by
    intro q hq
    obtain ⟨r, hr, rfl⟩ := List.mem_map.mp hq
    exact h.log.fits_piece (List.mem_of_mem_filter hr)
  have hstored := hcovers.sum_length hfits
  rw [Layer1.storedPieces, List.map_map] at hstored
  have hsent : (layer1.parts.map fun r => r.partData.length).sum =
      layer1.sentBytes.length := by
    rw [Layer1.sentBytes, List.length_flatten, List.map_map]
    rfl
  have hwritten : layer1.sentBytes.length + rest.length = written.length := by
    rw [← hdata, List.length_append]
  have hfun : (fun q : Placement.Piece UInt8 => q.data.length) ∘
      PartRequest.piece = fun r => r.partData.length := rfl
  rw [hfun] at hstored
  have hle : ((layer1.parts.filter fun r => r.fate.stores).map
      fun r => r.partData.length).sum ≤
        (layer1.parts.map fun r => r.partData.length).sum :=
    (List.filter_sublist.map _).sum_le_sum (by simp)
  constructor
  · exact Placement.keep_of_sum_le (fun r hr => h.length_pos hp hr) (by omega)
  · have hnil : rest = [] := List.length_eq_zero_iff.mp (by omega)
    rw [← hdata, hnil, List.append_nil]

/-- In an archive that is what was written no request raised: the part after a
failed one would have overwritten it. -/
theorem clean_of_covers (h : Closed sha256 service p c written layer1)
    (hp : 0 < p) (hcovers : Placement.Covers layer1.storedPieces written) :
    Clean layer1.parts := by
  obtain ⟨hstores, -⟩ := h.stored_of_covers hp hcovers
  intro r hr
  by_contra hraises
  rw [Bool.not_eq_false] at hraises
  obtain ⟨pre, post, hsplit⟩ := List.append_of_mem hr
  obtain ⟨log, last, hparts, -, -, -, hlast⟩ := h.parts
  cases post with
  | nil =>
      -- the last request returned
      rw [hsplit] at hparts
      obtain ⟨-, heq⟩ := List.append_inj' hparts rfl
      rw [(List.cons.inj heq).1, hlast] at hraises
      cases hraises
  | cons s post =>
      have hlog := h.log
      rw [hsplit] at hlog
      have hstart := hlog.range_after_failure hraises
      have hs : s ∈ layer1.parts := by simp [hsplit]
      have hfitr := h.log.fits_piece hr
      have hfits := h.log.fits_piece hs
      have hposr := h.length_pos hp hr
      have hposs := h.length_pos hp hs
      have hsub : [r.piece, s.piece].Sublist layer1.storedPieces := by
        rw [Layer1.storedPieces, List.filter_eq_self.mpr hstores, hsplit]
        have hpair : [r, s].Sublist (pre ++ r :: s :: post) :=
          List.sublist_append_of_sublist_right
            (List.Sublist.cons_cons r (List.Sublist.cons_cons s
              (List.nil_sublist post)))
        exact hpair.map PartRequest.piece
      -- both parts put a byte at the place where they start
      have hat : ∀ q : Placement.Piece UInt8, q.Fits → (hq : 0 < q.data.length) →
          q.elemAt q.first.toNat = some q.data[0] := by
        rintro q ⟨hfirst, hfitlast⟩ hq
        rw [Placement.Piece.elemAt_of_fits (o := q.first.toNat) (by omega)
          (by omega), if_pos (le_refl _), Nat.sub_self,
          List.getElem?_eq_getElem hq]
      have hfirst : s.piece.first = r.piece.first := hstart
      have hats := hat s.piece hfits hposs
      rw [hfirst] at hats
      exact hcovers.not_elemAt_both hsub (hat r.piece hfitr hposr) hats

end Closed

/-- A completed upload is what was written if and only if none of the requests
that its bytes need raises. -/
theorem session_storedExactly_iff (hp : 0 < p) {uploadId : Text}
    {writes : List Bytes} {w : Writer}
    (hrun : (session sha256 service writes).run (init uploadId p c) =
      .ok () w) :
    StoredExactly w.core.upload.layer1 writes.flatten ↔
      ∀ i < writes.flatten.length ⌈/⌉ p, (service.fate i).raises = false := by
  have h := closed_of_session hp hrun
  obtain ⟨hlower, hupper⟩ := h.length_parts_bounds
  obtain ⟨rest, hdata, -⟩ := h.data
  have hwritten : w.core.upload.layer1.sentBytes.length + rest.length =
      writes.flatten.length := by
    rw [← hdata, List.length_append]
  have hfate : ∀ i (hi : i < w.core.upload.layer1.parts.length),
      (w.core.upload.layer1.parts[i]).fate = service.fate i := by
    intro i hi
    have hsplit : w.core.upload.layer1.parts =
        w.core.upload.layer1.parts.take i ++ w.core.upload.layer1.parts[i] ::
          w.core.upload.layer1.parts.drop (i + 1) := by simp
    rw [h.log.fate _ _ _ hsplit, List.length_take, min_eq_left hi.le]
  constructor
  · rintro ⟨hcovers, -⟩ i hi
    have hclean := h.clean_of_covers hp hcovers
    rw [Blocks.lt_ceilDiv_iff hp, ← h.sentBytes_of_clean hclean] at hi
    have hlt : i < w.core.upload.layer1.parts.length :=
      Nat.lt_of_mul_lt_mul_right (hi.trans_le hupper)
    rw [← hfate i hlt]
    exact hclean _ (List.getElem_mem hlt)
  · intro hok
    apply h.storedExactly_of_clean hp
    intro r hr
    obtain ⟨i, hi, rfl⟩ := List.getElem_of_mem hr
    rw [hfate i hi]
    apply hok
    rw [Blocks.lt_ceilDiv_iff hp]
    calc
      i * p ≤ (w.core.upload.layer1.parts.length - 1) * p :=
        Nat.mul_le_mul_right p (by omega)
      _ < writes.flatten.length := by omega

/-- A vault that refuses the first part it is sent. -/
def refusingFirst : Service where
  fate n := if n = 0 then .rejected else .accepted
  archiveId := []

theorem session_refusingFirst_ok :
    ∃ w, (session id refusingFirst [[1], [2]]).run (init [] 1 1) =
      .ok () w :=
  ⟨_, rfl⟩

theorem session_storedExactly_refusingFirst :
    ∃ w, (session id refusingFirst [[1], [2]]).run (init [] 1 1) =
        .ok () w ∧
      (StoredExactly w.core.upload.layer1 [[1], [2]].flatten ↔
        ∀ i < ([[1], [2]] : List Bytes).flatten.length ⌈/⌉ (1 : ℕ),
          (refusingFirst.fate i).raises = false) := by
  obtain ⟨w, hw⟩ := session_refusingFirst_ok
  exact ⟨w, hw, session_storedExactly_iff (p := 1) Nat.one_pos hw⟩

/-- The upload is completed although its first byte is missing. -/
theorem session_loses_refused_part :
    ∃ w, (session id refusingFirst [[1], [2]]).run (init [] 1 1) =
        .ok () w ∧
      w.core.upload.layer1.completions ≠ [] ∧
      ¬ StoredExactly w.core.upload.layer1 [1, 2] := by
  refine ⟨_, rfl, by decide, ?_⟩
  rintro ⟨hcovers, -⟩
  have hfirst := hcovers 0
  revert hfirst
  decide

end Writer

end Boto.Glacier
