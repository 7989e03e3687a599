import Boto.Numerals
import Boto.Support.Base64
import Boto.Support.File

/-!
# Hashing part of a file

`compute_hash` of `boto/utils.py` for files of bytes, which may give less than what a read
asks for.
-/

namespace Boto

open Files (File)

/-- A hash algorithm, by the digests that it gives. -/
structure HashAlgorithm where
  digest : Bytes → Bytes
  digest_ne_nil : ∀ data, digest data ≠ []

/-- How many bytes a read gives that asks for some bytes at a position: at least one, if there
are any, and never more than asked for. -/
structure ReadLengths where
  given : ℕ → ℕ → ℕ
  given_pos : ∀ position asked, 0 < asked → 0 < given position asked
  given_le : ∀ position asked, given position asked ≤ asked

/-- `fp.read(asked)`. -/
def ReadLengths.read (lengths : ReadLengths) (asked : ℕ) (fp : File UInt8) :
    Bytes × File UInt8 :=
  fp.read (lengths.given fp.pos asked)

/-- `encodebytes`: lines for 57 bytes each. -/
def encodebytes (bytes : Bytes) : Text :=
  if bytes = [] then []
  else Base64.encode (bytes.take 57) ++ '\n' :: encodebytes (bytes.drop 57)
termination_by bytes.length
decreasing_by
  rename_i hne
  have hpositive := List.length_pos_iff.mpr hne
  rw [List.length_drop]
  omega

/-- What `compute_hash` returns, with the file after it. -/
structure HashResult where
  hexDigest : Text
  base64Digest : Text
  dataSize : ℤ
  fp : File UInt8
  deriving DecidableEq

section

variable (lengths : ReadLengths) (bufSize : ℕ)

/-- How many bytes the next read asks for. -/
def askedFor (size : Option ℕ) : ℕ :=
  match size with
  | none => bufSize
  | some size => if size ≠ 0 ∧ size < bufSize then size else bufSize

/-- The reads of `compute_hash`, with the bytes that have been hashed.  A read does not give
more than it asks for, so the size that is left is never negative. -/
def hashReads : ℕ → Option ℕ → Bytes → File UInt8 → Option (Bytes × File UInt8)
  | 0, _, _, _ => none
  | fuel + 1, size, hashed, fp =>
      let (s, fp) := lengths.read (askedFor bufSize size) fp
      if s = [] then some (hashed, fp)
      else
        let hashed := hashed ++ s
        let left := size.map fun left => left - s.length
        if left = some 0 ∧ size ≠ some 0 then some (hashed, fp)
        else hashReads fuel left hashed fp

/-- `base64_digest` without its last line end. -/
def withoutLineEnd (base64Digest : Text) : Text :=
  if base64Digest.getLast? = some '\n' then base64Digest.dropLast else base64Digest

/-- `compute_hash`. -/
def computeHash (fuel : ℕ) (fp : File UInt8) (size : Option ℕ) (hashAlgorithm : HashAlgorithm) :
    Option HashResult := do
  let spos := fp.pos
  let (hashed, fp) ← hashReads lengths bufSize fuel size [] fp
  let digest := hashAlgorithm.digest hashed
  let dataSize : ℤ := (fp.pos : ℤ) - spos
  let fp ← fp.seek spos .start
  return {
    hexDigest := hexlify digest
    base64Digest := withoutLineEnd (encodebytes digest)
    dataSize := dataSize
    fp := fp }

end

/-! ## What is read -/

section

variable {lengths : ReadLengths} {bufSize fuel : ℕ} {fp : File UInt8} {hashed : Bytes}

theorem askedFor_pos (hbuf : 0 < bufSize) (size : Option ℕ) : 0 < askedFor bufSize size := by
  cases size with
  | none => exact hbuf
  | some size =>
      rw [askedFor]
      split
      · omega
      · exact hbuf

theorem askedFor_le {size : ℕ} (hsize : size ≠ 0) : askedFor bufSize (some size) ≤ size := by
  rw [askedFor]
  split
  · exact Nat.le_refl _
  · omega

/-- At the end of the file the reads end. -/
theorem hashReads_end (size : Option ℕ) (hend : fp.rest = []) :
    hashReads lengths bufSize (fuel + 1) size hashed fp = some (hashed, fp) := by
  have hread : lengths.read (askedFor bufSize size) fp = ([], fp) := by
    rw [ReadLengths.read, File.read, hend, List.take_nil]
    rfl
  rw [hashReads, hread]
  rfl

/-- A read gives some of the bytes that are left, and no more than it asks for. -/
theorem hashReads_step (hbuf : 0 < bufSize) (size : Option ℕ) (hrest : fp.rest ≠ []) :
    ∃ count, 0 < count ∧ count ≤ fp.rest.length ∧ count ≤ askedFor bufSize size ∧
      hashReads lengths bufSize (fuel + 1) size hashed fp =
        (if size.map (fun left => left - count) = some 0 ∧ size ≠ some 0 then
          some (hashed ++ fp.rest.take count, { fp with pos := fp.pos + count })
        else hashReads lengths bufSize fuel (size.map fun left => left - count)
          (hashed ++ fp.rest.take count) { fp with pos := fp.pos + count }) := by
  have hpositive := List.length_pos_iff.mpr hrest
  have hgiven := lengths.given_pos fp.pos _ (askedFor_pos hbuf size)
  have hle := lengths.given_le fp.pos (askedFor bufSize size)
  let count := min (lengths.given fp.pos (askedFor bufSize size)) fp.rest.length
  have hlength : (fp.rest.take (lengths.given fp.pos (askedFor bufSize size))).length = count :=
    List.length_take
  have htake : fp.rest.take (lengths.given fp.pos (askedFor bufSize size)) =
      fp.rest.take count := by
    rw [List.take_eq_take_iff]
    omega
  have hread : lengths.read (askedFor bufSize size) fp =
      (fp.rest.take count, { fp with pos := fp.pos + count }) := by
    rw [ReadLengths.read, File.read, htake]
    rw [htake] at hlength
    rw [hlength]
  have hsome : fp.rest.take count ≠ [] := by
    rw [← htake, ← List.length_pos_iff, hlength]
    omega
  refine ⟨count, by omega, by omega, by omega, ?_⟩
  rw [hashReads, hread]
  dsimp only
  rw [if_neg hsome, ← htake, hlength]

theorem rest_moved (fp : File UInt8) (count : ℕ) :
    (File.mk fp.content (fp.pos + count)).rest = fp.rest.drop count := by
  rw [File.rest, File.rest, List.drop_drop]

/-- Without a size, or with the size zero, everything up to the end is hashed. -/
theorem hashReads_all (hbuf : 0 < bufSize) {size : Option ℕ}
    (hsize : size = none ∨ size = some 0) (hfuel : fp.rest.length < fuel) :
    hashReads lengths bufSize fuel size hashed fp =
      some (hashed ++ fp.rest, { fp with pos := fp.pos + fp.rest.length }) := by
  induction fuel generalizing hashed fp with
  | zero => omega
  | succ fuel ih =>
      by_cases hrest : fp.rest = []
      · rw [hashReads_end size hrest, hrest, List.append_nil]
        rfl
      · obtain ⟨count, hpositive, hle, -, hstep⟩ :=
          @hashReads_step lengths bufSize fuel fp hashed hbuf size hrest
        have hsame : size.map (fun left => left - count) = size := by
          rcases hsize with rfl | rfl
          · rfl
          · rw [Option.map_some, Nat.zero_sub]
        have hon : ¬(size = some 0 ∧ size ≠ some 0) := fun hboth => hboth.2 hboth.1
        have hmoved := rest_moved fp count
        rw [hstep, hsame, if_neg hon, ih (by rw [hmoved, List.length_drop]; omega), hmoved,
          List.append_assoc, List.take_append_drop, List.length_drop]
        congr 3
        dsimp only
        omega

/-- With another size, so many bytes are hashed, if there are so many. -/
theorem hashReads_some (hbuf : 0 < bufSize) {size : ℕ} (hsize : size ≠ 0)
    (hfuel : fp.rest.length < fuel) :
    hashReads lengths bufSize fuel (some size) hashed fp =
      some (hashed ++ fp.rest.take size,
        { fp with pos := fp.pos + (fp.rest.take size).length }) := by
  induction fuel generalizing size hashed fp with
  | zero => omega
  | succ fuel ih =>
      by_cases hrest : fp.rest = []
      · rw [hashReads_end _ hrest, hrest, List.take_nil, List.append_nil]
        rfl
      · obtain ⟨count, hpositive, hle, hasked, hstep⟩ :=
          @hashReads_step lengths bufSize fuel fp hashed hbuf (some size) hrest
        have hwithin := Nat.le_trans hasked (askedFor_le hsize)
        have hne : some size ≠ some 0 := fun heq => hsize (Option.some.inj heq)
        rw [hstep, Option.map_some]
        by_cases hall : size - count = 0
        · have hcount : count = size := by omega
          rw [if_pos ⟨congrArg some hall, hne⟩, hcount, List.length_take,
            Nat.min_eq_left (hcount ▸ hle)]
        · have hmoved := rest_moved fp count
          have hon : ¬(some (size - count) = some 0 ∧ some size ≠ some 0) :=
            fun hboth => hall (Option.some.inj hboth.1)
          have hjoin : fp.rest.take count ++ (fp.rest.drop count).take (size - count) =
              fp.rest.take size := by
            rw [← List.take_add]
            congr 1
            omega
          rw [if_neg hon, ih hall (by rw [hmoved, List.length_drop]; omega), hmoved,
            List.append_assoc, hjoin]
          have hcount : (fp.rest.take count).length = count := by
            rw [List.length_take, Nat.min_eq_left hle]
          congr 3
          rw [← hjoin, List.length_append, hcount]
          dsimp only
          omega

/-! ## The range that is asked for -/

/-- The bytes from the position on, up to the size. -/
def rangeOf (fp : File UInt8) (size : Option ℕ) : Bytes :=
  match size with
  | none => fp.rest
  | some size => fp.rest.take size

/-- `compute_hash` hashes the range that is asked for, reports its length, and leaves the file
where it was. -/
def HashesRange (lengths : ReadLengths) (bufSize : ℕ) (fp : File UInt8) (size : Option ℕ)
    (hashAlgorithm : HashAlgorithm) : Prop :=
  ∃ fuel, computeHash lengths bufSize fuel fp size hashAlgorithm = some {
    hexDigest := hexlify (hashAlgorithm.digest (rangeOf fp size))
    base64Digest := withoutLineEnd (encodebytes (hashAlgorithm.digest (rangeOf fp size)))
    dataSize := (rangeOf fp size).length
    fp := fp }

/-- More fuel does not change the reads. -/
theorem hashReads_mono {size : Option ℕ} {outcome : Bytes × File UInt8}
    (hrun : hashReads lengths bufSize fuel size hashed fp = some outcome) (more : ℕ) :
    hashReads lengths bufSize (fuel + more) size hashed fp = some outcome := by
  induction fuel generalizing size hashed fp with
  | zero => cases hrun
  | succ fuel ih =>
      rw [Nat.add_right_comm, hashReads]
      rw [hashReads] at hrun
      dsimp only at hrun ⊢
      split at hrun
      · rename_i hnone
        rw [if_pos hnone]
        exact hrun
      rename_i hsome
      rw [if_neg hsome]
      split at hrun
      · rename_i hdone
        rw [if_pos hdone]
        exact hrun
      · rename_i hon
        rw [if_neg hon]
        exact ih hrun

/-- What `compute_hash` returns when so many bytes from the position on were hashed. -/
theorem computeHash_eq {size : Option ℕ} {count : ℕ} (hashAlgorithm : HashAlgorithm)
    (hrun : hashReads lengths bufSize fuel size [] fp =
      some (fp.rest.take count, { fp with pos := fp.pos + (fp.rest.take count).length })) :
    computeHash lengths bufSize fuel fp size hashAlgorithm = some {
      hexDigest := hexlify (hashAlgorithm.digest (fp.rest.take count))
      base64Digest := withoutLineEnd (encodebytes (hashAlgorithm.digest (fp.rest.take count)))
      dataSize := (fp.rest.take count).length
      fp := fp } := by
  have hseek : (File.mk fp.content (fp.pos + (fp.rest.take count).length)).seek fp.pos .start =
      some fp := File.seek_of_eq rfl
  have hsize : ((fp.pos + (fp.rest.take count).length : ℕ) : ℤ) - fp.pos =
      (fp.rest.take count).length := by omega
  rw [computeHash, hrun]
  simp only [bind, Option.bind]
  rw [hseek]
  dsimp only
  rw [hsize]
  rfl

/-- Without a size, or with the size zero, `compute_hash` hashes everything up to the end. -/
theorem computeHash_all (hbuf : 0 < bufSize) {size : Option ℕ}
    (hsize : size = none ∨ size = some 0) (hfuel : fp.rest.length < fuel)
    (hashAlgorithm : HashAlgorithm) :
    computeHash lengths bufSize fuel fp size hashAlgorithm = some {
      hexDigest := hexlify (hashAlgorithm.digest fp.rest)
      base64Digest := withoutLineEnd (encodebytes (hashAlgorithm.digest fp.rest))
      dataSize := fp.rest.length
      fp := fp } := by
  have hrun := @hashReads_all lengths bufSize _ fp [] hbuf size hsize hfuel
  have hresult := @computeHash_eq lengths bufSize _ fp size fp.rest.length hashAlgorithm
    (by rw [hrun, List.take_length]; rfl)
  rw [List.take_length] at hresult
  exact hresult

theorem computeHash_mono {size : Option ℕ} {hashAlgorithm : HashAlgorithm} {result : HashResult}
    (hrun : computeHash lengths bufSize fuel fp size hashAlgorithm = some result) (more : ℕ) :
    computeHash lengths bufSize (fuel + more) fp size hashAlgorithm = some result := by
  obtain ⟨outcome, hreads, hrest⟩ := Option.bind_eq_some_iff.mp hrun
  rw [computeHash, hashReads_mono hreads more]
  exact hrest

/-- The range that is asked for is hashed, unless nothing is asked for and there is
something. -/
theorem hashesRange_iff (hbuf : 0 < bufSize) (size : Option ℕ) (hashAlgorithm : HashAlgorithm) :
    HashesRange lengths bufSize fp size hashAlgorithm ↔
      size ≠ some 0 ∨ fp.content.length ≤ fp.pos := by
  have hempty : fp.content.length ≤ fp.pos ↔ fp.rest = [] := List.drop_eq_nil_iff.symm
  rw [hempty]
  rcases size with _ | _ | size
  · refine iff_of_true ⟨_, computeHash_all hbuf (.inl rfl) (Nat.lt_succ_self _) hashAlgorithm⟩
      (.inl (Option.some_ne_none 0).symm)
  · constructor
    · rintro ⟨fuel, hrun⟩
      refine .inr ?_
      have hmore := computeHash_mono hrun (fp.rest.length + 1)
      have hall := @computeHash_all lengths bufSize (fuel + (fp.rest.length + 1)) fp hbuf (some 0)
        (.inr rfl) (by omega) hashAlgorithm
      rw [hall] at hmore
      have hsize := congrArg HashResult.dataSize (Option.some.inj hmore)
      exact List.length_eq_zero_iff.mp (Int.natCast_eq_zero.mp hsize)
    · rintro (hne | hnil)
      · exact absurd rfl hne
      · have hnothing : rangeOf fp (some 0) = fp.rest := by
          rw [rangeOf, hnil, List.take_nil]
        rw [HashesRange, hnothing]
        exact ⟨_, computeHash_all hbuf (.inr rfl) (Nat.lt_succ_self _) hashAlgorithm⟩
  · have hne : some (size + 1) ≠ some 0 := fun heq => Nat.succ_ne_zero size (Option.some.inj heq)
    have hrun := @hashReads_some lengths bufSize _ fp [] hbuf (size + 1) (Nat.succ_ne_zero size)
      (Nat.lt_succ_self _)
    exact iff_of_true ⟨_, computeHash_eq hashAlgorithm hrun⟩ (.inl hne)

/-- Reads that give what they ask for. -/
def fullReads : ReadLengths where
  given _ asked := asked
  given_pos _ _ hasked := hasked
  given_le _ _ := Nat.le_refl _

/-- A sum of all bytes, as an algorithm. -/
def byteSum : HashAlgorithm where
  digest data := [data.foldl (· + ·) 0]
  digest_ne_nil _ := List.cons_ne_nil _ _

/-- Two bytes from the second one on. -/
theorem hashesRange_two : HashesRange fullReads 8192 ⟨[1, 2, 3, 4], 1⟩ (some 2) byteSum :=
  (hashesRange_iff (by decide) (some 2) byteSum).mpr (.inl (by decide))

/-- The size zero lets everything be hashed. -/
theorem not_hashesRange_zero : ¬HashesRange fullReads 8192 ⟨[1, 2, 3, 4], 1⟩ (some 0) byteSum := by
  rintro ⟨fuel, hrun⟩
  have hmore := computeHash_mono hrun 4
  have hall := @computeHash_all fullReads 8192 (fuel + 4) ⟨[1, 2, 3, 4], 1⟩ (by decide) (some 0)
    (.inr rfl) (Nat.le_add_left 4 fuel) byteSum
  rw [hall] at hmore
  have hsize := congrArg HashResult.dataSize (Option.some.inj hmore)
  exact absurd hsize (by decide)

end

end Boto
