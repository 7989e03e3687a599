import Boto.Glacier.Resume.Model
import Boto.Glacier.Writer.Deliveries

/-!
# A resumed upload is a fresh one

The file is cut into `part_size` units as it is read, characters in text mode,
and encoded afterwards.  The parts are the blocks of the file's bytes exactly
when encoding succeeds and keeps every part within the part size; then the
upload is what a fresh one would be, less the parts that are already there.
-/

namespace Boto.Glacier

open EStateM Blocks

/-- The bytes of the file that is read. -/
def fileBytes : Data → Bytes
  | .bytes content => content
  | .text content => encodeUtf8 content

/-- What a resumed upload does with a part: it is skipped when the dictionary has
its hash, and uploaded otherwise. -/
def resumeDelivery (sha256 : Bytes → Bytes) (chunkSize : ℕ)
    (partHashMap : ℤ → Option Bytes) (partIndex : ℕ) (part : Bytes) :
    Delivery :=
  if partHashMap partIndex = some (partDigest sha256 chunkSize part) then
    .skip partIndex (partDigest sha256 chunkSize part) part.length
  else .upload partIndex part

/-- What a resumed upload does with the parts of the file. -/
def resumeDeliveries (sha256 : Bytes → Bytes) (chunkSize : ℕ)
    (partHashMap : ℤ → Option Bytes) (parts : List Bytes) : List Delivery :=
  parts.mapIdx (resumeDelivery sha256 chunkSize partHashMap)

/-- The requests of a resumed upload are those for the blocks of the file's
bytes whose hash the dictionary does not have, no part is too long, and the
upload is completed with the tree hash and the length of the whole file. -/
structure ResumesExactly (sha256 : Bytes → Bytes) (service : Service)
    (version : PyVersion) (uploadId : Text) (p c : ℕ)
    (partHashMap : ℤ → Option Bytes) (content : Data) : Prop where
  fits : ∀ part, .ok part ∈ generatePartsFromFobj version content p →
    part.length ≤ p
  completes : ∃ u, (resumeFileUpload sha256 service c partHashMap version p
        content).run (.init uploadId p c) = .ok (some service.archiveId) u ∧
      u.layer1 =
        { parts := (resumeDeliveries sha256 c partHashMap
            (cut p (fileBytes content))).filterMap
              (Delivery.request? sha256 uploadId p c)
          completions := [
            { uploadId := uploadId
              treeHash := bytesToHex (partDigest sha256 c (fileBytes content))
              archiveSize := (fileBytes content).length }] }

/-- Encoding keeps the parts: byte strings are ASCII and read by Python 2; the
characters of text are ASCII up to where the last part begins, and the last part
does not outgrow the part size. -/
def EncodesToParts (version : PyVersion) (p : ℕ) : Data → Prop
  | .bytes content => version = .py2 ∧ ∀ b ∈ content, b < 128
  | .text content =>
      let last := p * ((content.length - 1) / p)
      (∀ c ∈ content.take last, c.val ≤ 127) ∧
        (encodeUtf8 (content.drop last)).length ≤ p

variable {sha256 : Bytes → Bytes} {service : Service} {version : PyVersion}
  {p c : ℕ} {partHashMap : ℤ → Option Bytes}

/-! ## The generated parts -/

/-- One step of the generator on a file that is not at its end. -/
theorem generatePartsLoop_succ (hp : 0 < p) {fuel : ℕ} {fobj : Data}
    (hne : fobj.length ≠ 0) :
    generatePartsLoop version p (fuel + 1) fobj =
      match encodeData version (fobj.take p) with
      | .ok part =>
          .ok part :: generatePartsLoop version p fuel (fobj.drop p)
      | .error e => [.error e] := by
  have hread : ¬ (fobj.take p).length = 0 := by
    rw [Data.length_take]
    omega
  cases hdata : encodeData version (fobj.take p) <;>
    simp only [generatePartsLoop, hread, if_false, hdata]

theorem generatePartsLoop_text (hp : 0 < p) {fuel : ℕ} {content : Text}
    (hfuel : content.length ≤ fuel) :
    generatePartsLoop version p fuel (.text content) =
      (cut p content).map fun part => .ok (encodeUtf8 part) := by
  induction fuel generalizing content with
  | zero =>
      have hnil : content = [] := List.length_eq_zero_iff.mp (by omega)
      simp [hnil, generatePartsLoop]
  | succ fuel ih =>
      by_cases hnil : content = []
      · simp [hnil, generatePartsLoop, Data.take, Data.length]
      · have hread : (Data.text content).length ≠ 0 :=
          (List.length_pos_iff.mpr hnil).ne'
        rw [cut_eq_cons hp hnil, List.map_cons,
          ← ih (by rw [List.length_drop]; omega),
          generatePartsLoop_succ hp hread]
        rfl

theorem generatePartsLoop_ascii (hp : 0 < p) {fuel : ℕ} {content : Bytes}
    (hfuel : content.length ≤ fuel) (hascii : ∀ b ∈ content, b < 128) :
    generatePartsLoop .py2 p fuel (.bytes content) =
      (cut p content).map .ok := by
  induction fuel generalizing content with
  | zero =>
      have hnil : content = [] := List.length_eq_zero_iff.mp (by omega)
      simp [hnil, generatePartsLoop]
  | succ fuel ih =>
      by_cases hnil : content = []
      · simp [hnil, generatePartsLoop, Data.take, Data.length]
      · have hread : (Data.bytes content).length ≠ 0 :=
          (List.length_pos_iff.mpr hnil).ne'
        have hpart : (content.take p).all (· < 128) = true := by
          simpa using fun b hb => hascii b (List.mem_of_mem_take hb)
        rw [cut_eq_cons hp hnil, List.map_cons,
          ← ih (by rw [List.length_drop]; omega)
            fun b hb => hascii b (List.mem_of_mem_drop hb),
          generatePartsLoop_succ hp hread, Data.take, encodeData]
        simp only [hpart, if_true]
        rfl

/-- A byte string that does not encode ends the generator with an exception. -/
theorem exists_error_of_not_ascii (hp : 0 < p) {fuel : ℕ} {content : Bytes}
    (hfuel : content.length ≤ fuel) (hne : content ≠ [])
    (hbad : ¬ (version = .py2 ∧ ∀ b ∈ content, b < 128)) :
    ∃ e, .error e ∈ generatePartsLoop version p fuel (.bytes content) := by
  induction fuel generalizing content with
  | zero => exact absurd (List.length_eq_zero_iff.mp (by omega)) hne
  | succ fuel ih =>
      have hread : (Data.bytes content).length ≠ 0 :=
        (List.length_pos_iff.mpr hne).ne'
      rw [generatePartsLoop_succ hp hread]
      cases version with
      | py3 => exact ⟨_, List.mem_singleton.mpr rfl⟩
      | py2 =>
          simp only [Data.take, encodeData]
          by_cases hpart : (content.take p).all (· < 128) = true
          · simp only [hpart, if_true]
            -- the offending byte lies behind the first part
            have htail : ¬ (∀ b ∈ content.drop p, b < 128) := by
              intro hdrop
              apply hbad
              refine ⟨rfl, fun b hb => ?_⟩
              rw [← List.take_append_drop p content] at hb
              rcases List.mem_append.mp hb with htake | hdropped
              · simpa using List.all_eq_true.mp hpart b htake
              · exact hdrop b hdropped
            have hrest : content.drop p ≠ [] := by
              intro hnil
              exact htail (by simp [hnil])
            obtain ⟨e, he⟩ := ih (by rw [List.length_drop]; omega) hrest
              (by simpa using htail)
            exact ⟨e, List.mem_cons_of_mem _ he⟩
          · simp only [hpart, Bool.false_eq_true, if_false]
            exact ⟨_, List.mem_singleton.mpr rfl⟩

/-! ## Text parts -/

/-- Text is the full parts before the last cut and the rest. -/
theorem cut_text_eq (hp : 0 < p) {content : Text} (hne : content ≠ []) :
    cut p content =
      cut p (content.take (p * ((content.length - 1) / p))) ++
        [content.drop (p * ((content.length - 1) / p))] := by
  have hlen : 0 < content.length := List.length_pos_iff.mpr hne
  have hmul := Nat.mul_div_le (content.length - 1) p
  have hmod := Nat.div_add_mod (content.length - 1) p
  have hlt := Nat.mod_lt (content.length - 1) hp
  have htake : (content.take (p * ((content.length - 1) / p))).length =
      (content.length - 1) / p * p := by
    rw [List.length_take, Nat.mul_comm _ p]
    omega
  have hcat := cut_flatten_append hp
    (fun _ hb => length_of_mem_cut_of_length_eq_mul hp htake hb)
    (content.drop (p * ((content.length - 1) / p)))
  have hrest : cut p (content.drop (p * ((content.length - 1) / p))) =
      [content.drop (p * ((content.length - 1) / p))] := by
    apply cut_eq_singleton
    · rw [← List.length_pos_iff, List.length_drop]
      omega
    · rw [List.length_drop]
      omega
  rwa [flatten_cut hp, List.take_append_drop, hrest] at hcat

theorem length_of_mem_text_parts (hp : 0 < p) {content part : Text}
    (hpart : part ∈ cut p (content.take (p * ((content.length - 1) / p)))) :
    part.length = p := by
  have hmul := Nat.mul_div_le (content.length - 1) p
  apply length_of_mem_cut_of_length_eq_mul hp ?_ hpart
  · exact (content.length - 1) / p
  · rw [List.length_take, Nat.mul_comm _ p]
    omega

/-- The parts of text stay within the part size only if they encode to the
blocks of its bytes. -/
theorem encodesToParts_text_iff (hp : 0 < p) {content : Text}
    (hne : content ≠ []) :
    EncodesToParts version p (.text content) ↔
      ∀ part ∈ cut p content, (encodeUtf8 part).length ≤ p := by
  rw [EncodesToParts, cut_text_eq hp hne, List.forall_mem_append,
    List.forall_mem_singleton]
  apply and_congr_left
  intro _
  constructor
  · intro hascii part hpart
    have hlen := length_of_mem_text_parts hp hpart
    rw [← hlen, length_encodeUtf8_le_iff]
    intro c hc
    apply hascii
    rw [← flatten_cut hp (content.take _)]
    exact List.mem_flatten.mpr ⟨part, hpart, hc⟩
  · intro hshort c hc
    rw [← flatten_cut hp (content.take _)] at hc
    obtain ⟨part, hpart, hc⟩ := List.mem_flatten.mp hc
    have hle := hshort part hpart
    rw [← length_of_mem_text_parts hp hpart, length_encodeUtf8_le_iff] at hle
    exact hle c hc

theorem cut_encodeUtf8 (hp : 0 < p) {content : Text} (hne : content ≠ [])
    (h : EncodesToParts version p (.text content)) :
    cut p (encodeUtf8 content) = (cut p content).map encodeUtf8 := by
  have hshort := (encodesToParts_text_iff hp hne).mp h
  obtain ⟨hascii, hlast⟩ := h
  have hlen : 0 < content.length := List.length_pos_iff.mpr hne
  have hmul := Nat.mul_div_le (content.length - 1) p
  have hsplit := cut_text_eq hp hne
  generalize hbs : cut p (content.take (p * ((content.length - 1) / p))) = bs
    at hsplit
  generalize hb : content.drop (p * ((content.length - 1) / p)) = b at hsplit
  have hfull : ∀ part ∈ bs.map encodeUtf8, part.length = p := by
    intro part hpart
    obtain ⟨chars, hchars, rfl⟩ := List.mem_map.mp hpart
    have hchars' : chars ∈
        cut p (content.take (p * ((content.length - 1) / p))) := by
      rw [hbs]
      exact hchars
    have hge := length_encodeUtf8_ge chars
    have hle := hshort chars (by rw [hsplit]; simp [hchars])
    have := length_of_mem_text_parts hp hchars'
    omega
  have hbne : 0 < b.length := by
    rw [← hb, List.length_drop]
    omega
  have hcontent : encodeUtf8 content =
      (bs.map encodeUtf8).flatten ++ encodeUtf8 b := by
    have hflat := flatten_cut hp content
    rw [hsplit] at hflat
    rw [← hflat, List.flatten_append, List.flatten_singleton,
      encodeUtf8_append]
    congr 1
    rw [encodeUtf8, List.flatMap_def, List.map_flatten, List.flatten_flatten,
      List.map_map]
    rfl
  rw [hcontent, cut_flatten_append hp hfull, hsplit, List.map_append,
    List.map_singleton, cut_eq_singleton]
  · exact List.length_pos_iff.mp
      (hbne.trans_le (length_encodeUtf8_ge b))
  · exact hshort b (by rw [hsplit]; simp)

/-! ## The upload loop -/

/-- Without exceptions the loop delivers the parts in order. -/
theorem resumeParts_map_ok (parts : List Bytes) (i : ℕ) :
    resumeParts sha256 service c partHashMap i (parts.map .ok) =
      Uploader.deliverAll sha256 service
        (parts.mapIdx fun j =>
          resumeDelivery sha256 c partHashMap (i + j)) := by
  induction parts generalizing i with
  | nil => rfl
  | cons part parts ih =>
      have hshift : (fun j => resumeDelivery sha256 c partHashMap (i + (j + 1))) =
          fun j => resumeDelivery sha256 c partHashMap (i + 1 + j) := by
        funext j
        rw [Nat.add_assoc, Nat.add_comm 1 j]
      rw [List.map_cons, List.mapIdx_cons, resumeParts, ih, hshift,
        Uploader.deliverAll, treeHash_chunkHashes, resumeDelivery]
      by_cases hhash : partHashMap i = some (partDigest sha256 c part)
      · simp [hhash, Uploader.deliver]
      · simp [hhash, Uploader.deliver]

/-- An exception of the generator ends the loop. -/
theorem resumeParts_of_error {e : PyError} {parts : List (Except PyError Bytes)}
    (he : .error e ∈ parts) (i : ℕ) (u : Upload) (u' : Upload) :
    (resumeParts sha256 service c partHashMap i parts).run u ≠ .ok () u' := by
  induction parts generalizing i u with
  | nil => simp at he
  | cons head parts ih =>
      cases head with
      | error e' =>
          intro hrun
          cases hrun
      | ok part =>
          have htail : .error e ∈ parts := by simpa using he
          rw [resumeParts, treeHash_chunkHashes, ofExcept_ok_bind]
          intro hrun
          split at hrun
          · rw [run_bind] at hrun
            split at hrun
            · exact ih htail _ _ hrun
            · cases hrun
          · rw [run_bind] at hrun
            split at hrun
            · exact ih htail _ _ hrun
            · cases hrun

section

variable (sha256 c partHashMap) (parts : List Bytes)

theorem map_partIndex_resumeDeliveries :
    (resumeDeliveries sha256 c partHashMap parts).map (·.partIndex) =
      List.range (resumeDeliveries sha256 c partHashMap parts).length := by
  apply List.ext_getElem
  · simp
  · intro i h₁ h₂
    simp only [resumeDeliveries, resumeDelivery, List.getElem_map,
      List.getElem_mapIdx, List.getElem_range]
    split <;> rfl

theorem map_partLength_resumeDeliveries :
    (resumeDeliveries sha256 c partHashMap parts).map (·.partLength) =
      parts.map List.length := by
  apply List.ext_getElem
  · simp [resumeDeliveries]
  · intro i h₁ h₂
    simp only [resumeDeliveries, resumeDelivery, List.getElem_map,
      List.getElem_mapIdx]
    split <;> rfl

theorem map_partTreeHash_resumeDeliveries :
    (resumeDeliveries sha256 c partHashMap parts).map
      (·.partTreeHash sha256 c) = parts.map (partDigest sha256 c) := by
  apply List.ext_getElem
  · simp [resumeDeliveries]
  · intro i h₁ h₂
    simp only [resumeDeliveries, resumeDelivery, List.getElem_map,
      List.getElem_mapIdx]
    split <;> rfl

end

/-- When the generator yields the blocks of the file's bytes, the upload is the
fresh one less the parts the dictionary has. -/
theorem completes_of_generated (hc : 0 < c) (k : ℕ)
    (haccepts : service.Accepts) {content : Data} (hne : fileBytes content ≠ [])
    (hparts : generatePartsFromFobj version content (c * 2 ^ k) =
      (cut (c * 2 ^ k) (fileBytes content)).map .ok) (uploadId : Text) :
    ResumesExactly sha256 service version uploadId (c * 2 ^ k) c partHashMap
      content := by
  have hp : 0 < c * 2 ^ k := Nat.mul_pos hc (Nat.two_pow_pos k)
  constructor
  · intro part hpart
    rw [hparts] at hpart
    obtain ⟨part', hmem, heq⟩ := List.mem_map.mp hpart
    cases heq
    exact (length_of_mem_cut hp hmem).2
  · have hsize : ((resumeDeliveries sha256 c partHashMap
        (cut (c * 2 ^ k) (fileBytes content))).map (·.partLength)).sum =
          (fileBytes content).length := by
      rw [map_partLength_resumeDeliveries, ← List.length_flatten,
        flatten_cut hp]
    have hhash : treeHash sha256 ((resumeDeliveries sha256 c partHashMap
        (cut (c * 2 ^ k) (fileBytes content))).map (·.partTreeHash sha256 c)) =
          .ok (partDigest sha256 c (fileBytes content)) := by
      rw [map_partTreeHash_resumeDeliveries]
      exact treeHash_map_partDigest sha256 hne hc k
    have hrun := Uploader.run_deliverAll_close haccepts
      (map_partIndex_resumeDeliveries sha256 c partHashMap
        (cut (c * 2 ^ k) (fileBytes content))) hhash uploadId (c * 2 ^ k)
    refine ⟨((Upload.init uploadId (c * 2 ^ k) c).recorded sha256
      (resumeDeliveries sha256 c partHashMap
        (cut (c * 2 ^ k) (fileBytes content)))).completed service
          (partDigest sha256 c (fileBytes content)), ?_, ?_⟩
    · rw [resumeFileUpload, hparts, resumeParts_map_ok]
      simp only [Nat.zero_add]
      rw [← bind_assoc, run_bind]
      exact hrun ▸ rfl
    · simp [Upload.completed, Upload.recorded, Upload.init, hsize]

theorem generated_of_encodes (hp : 0 < p) {content : Data}
    (hne : content.length ≠ 0) (h : EncodesToParts version p content) :
    generatePartsFromFobj version content p =
      (cut p (fileBytes content)).map .ok := by
  cases content with
  | bytes content =>
      obtain ⟨rfl, hascii⟩ := h
      exact generatePartsLoop_ascii hp (le_refl _) hascii
  | text content =>
      have hcontent : content ≠ [] :=
        List.length_pos_iff.mp (Nat.pos_of_ne_zero hne)
      rw [fileBytes, cut_encodeUtf8 hp hcontent h, List.map_map]
      exact generatePartsLoop_text hp (le_refl _)

theorem encodes_of_resumesExactly (hp : 0 < p) {content : Data}
    (hne : content.length ≠ 0) {uploadId : Text}
    (h : ResumesExactly sha256 service version uploadId p c partHashMap
      content) : EncodesToParts version p content := by
  cases content with
  | bytes content =>
      have hcontent : content ≠ [] :=
        List.length_pos_iff.mp (Nat.pos_of_ne_zero hne)
      obtain ⟨u, hrun, -⟩ := h.completes
      by_contra hbad
      obtain ⟨e, he⟩ :=
        exists_error_of_not_ascii hp (le_refl _) hcontent hbad
      rw [resumeFileUpload, run_bind] at hrun
      split at hrun
      · rename_i u' hparts
        exact resumeParts_of_error he 0 _ _ hparts
      · cases hrun
  | text content =>
      have hcontent : content ≠ [] :=
        List.length_pos_iff.mp (Nat.pos_of_ne_zero hne)
      rw [encodesToParts_text_iff hp hcontent]
      intro part hpart
      apply h.fits
      have hgenerated : generatePartsLoop version p content.length
          (.text content) = _ := generatePartsLoop_text hp (le_refl _)
      rw [generatePartsFromFobj, Data.length, hgenerated]
      exact List.mem_map.mpr ⟨part, hpart, rfl⟩

/-- A resumed upload gives the archive of a fresh upload exactly when the file's
units encode to parts of its bytes; the indices of the finished parts are read
correctly in any case. -/
theorem resume_iff_encodes (sha256 : Bytes → Bytes) (version : PyVersion)
    (partHashMap : ℤ → Option Bytes) (uploadId : Text)
    (haccepts : service.Accepts) (hc : 0 < c) (k : ℕ) {content : Data}
    (hne : content.length ≠ 0) :
    (ResumesExactly sha256 service version uploadId (c * 2 ^ k) c partHashMap
        content ↔ EncodesToParts version (c * 2 ^ k) content) ∧
      ∀ i len, 0 < len → len ≤ c * 2 ^ k →
        rangeStringToPartIndex (rangeString (c * 2 ^ k * i)
            (c * 2 ^ k * i + len - 1)) (c * 2 ^ k) = .ok i ∧
          rangeStringToPartIndex (rangeString (c * 2 ^ k * i)
            (c * 2 ^ k * i + len)) (c * 2 ^ k) = .ok i := by
  have hp : 0 < c * 2 ^ k := Nat.mul_pos hc (Nat.two_pow_pos k)
  have hbytes : fileBytes content ≠ [] := by
    rw [← List.length_pos_iff]
    cases content with
    | bytes content => exact Nat.pos_of_ne_zero hne
    | text content =>
        exact (Nat.pos_of_ne_zero hne).trans_le (length_encodeUtf8_ge content)
  constructor
  · constructor
    · exact encodes_of_resumesExactly hp hne
    · intro h
      exact completes_of_generated hc k haccepts hbytes
        (generated_of_encodes hp hne h) uploadId
  · exact fun i len => rangeStringToPartIndex_rangeString

theorem resume_iff_encodes_two_bytes :
    (ResumesExactly id .accepting .py2 [] (1 * 2 ^ 0) 1 (fun _ => none)
        (.bytes [1, 2]) ↔ EncodesToParts .py2 (1 * 2 ^ 0) (.bytes [1, 2])) ∧
      ∀ i len, 0 < len → len ≤ 1 * 2 ^ 0 →
        rangeStringToPartIndex (rangeString (1 * 2 ^ 0 * i)
            (1 * 2 ^ 0 * i + len - 1)) (1 * 2 ^ 0) = .ok i ∧
          rangeStringToPartIndex (rangeString (1 * 2 ^ 0 * i)
            (1 * 2 ^ 0 * i + len)) (1 * 2 ^ 0) = .ok i :=
  resume_iff_encodes id .py2 (fun _ => none) [] Service.accepts_accepting
    Nat.one_pos 0 (by decide)

/-- A binary file with a byte beyond ASCII cannot be resumed by either version,
and text outside ASCII gives parts that are too long. -/
theorem resume_fails_outside_ascii :
    (∀ version, ¬ ResumesExactly id .accepting version [] 1 1 (fun _ => none)
        (.bytes [255])) ∧
      ∀ version, ¬ ResumesExactly id .accepting version [] 1 1 (fun _ => none)
        (.text ['é']) := by
  constructor
  · rintro version ⟨-, u, hrun, -⟩
    cases version
    · cases hrun
    · cases hrun
  · intro version h
    have hlong := h.fits (encodeUtf8 ['é']) (List.mem_singleton.mpr rfl)
    revert hlong
    decide

end Boto.Glacier
