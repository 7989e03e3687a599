import Boto.GS.ResumableUpload

/-!
# Resumable downloads

`ResumableDownloadHandler` of `boto/s3/resumable_download_handler.py` fetches an object into a
local file in several attempts.  An attempt resumes at the size of the file if the object has
the entity tag that is remembered, and starts afresh otherwise.

A download that starts afresh cuts the file off, and leaves its position where it was.  So the
start matters: a file that holds something else, and is not opened for appending, gets the
object behind a gap.

The tracker file keeps the tag for the next process, which may find a part of another object.
-/

namespace Boto.S3.ResumableDownload

open Files (File)
open GS (stripQuotes)

/-- The object, which does not change during the download. -/
structure Key where
  content : Bytes
  etag : Text
  deriving DecidableEq

/-- `key.size`. -/
def Key.size (key : Key) : ℕ := key.content.length

/-- The arguments of the handler and of `get_file`, with the mode of the file. -/
structure Params where
  key : Key
  appends : Bool
  hasTrackerFile : Bool
  numRetries : ℕ
  deriving DecidableEq

/-- How `key.get_file` ends: with all that was requested, or with an exception after some of
the requested bytes were written.  A pipe may break in the request or in the response. -/
inductive Outcome
  | complete
  | retryable (written : ℕ)
  | brokenPipe (written : Option ℕ)
  | raised (written : ℕ)
  deriving DecidableEq

/-- How `key.get_file` ends that the handler calls after a broken pipe.  A response that was
broken off may give only some more bytes. -/
inductive Reread
  | returned (written : ℕ)
  | raised (written : ℕ)
  deriving DecidableEq

/-- What happens in an attempt. -/
structure Fate where
  trackerWritable : Bool
  outcome : Outcome
  reread : Reread
  deriving DecidableEq

/-- The handler, its tracker file and the local file. -/
structure State where
  fp : File UInt8
  etagValueForCurrentDownload : Option Text
  tracker : Option Text
  downloadStartPoint : Option ℕ
  deriving DecidableEq

/-- How an attempt ends.  After a broken pipe there may be a response to go on with. -/
inductive AttemptResult
  | returned
  | retryable
  | brokenPipe (left : Option Bytes)
  | abort
  | raised
  deriving DecidableEq

/-- How `get_file` ends, if it does. -/
inductive Result
  | returned
  | aborted
  | gaveUp
  | raised
  | running
  deriving DecidableEq

variable (params : Params)

/-- What writing to the file does. -/
def writeTo (data : Bytes) (fp : File UInt8) : File UInt8 :=
  if data = [] then fp
  else if params.appends = true then
    { content := fp.content ++ data, pos := (fp.content ++ data).length }
  else fp.write 0 data

/-- Writing in a state. -/
def State.write (data : Bytes) (self : State) : State :=
  { self with fp := writeTo params data self.fp }

/-- `_remove_tracker_file`. -/
def removeTrackerFile (self : State) : State :=
  if params.hasTrackerFile = true then { self with tracker := none } else self

/-- `_save_tracker_info`, with the state and whether it returns. -/
def saveTrackerInfo (fate : Fate) (self : State) : Bool × State :=
  let self := { self with etagValueForCurrentDownload := some (stripQuotes params.key.etag) }
  if params.hasTrackerFile = false then (true, self)
  else if fate.trackerWritable = true then
    (true, { self with tracker := some (stripQuotes params.key.etag ++ ['\n']) })
  else (false, self)

/-- `key.get_file`, for the bytes that are requested. -/
def keyGetFile (requested : Bytes) (outcome : Outcome) (self : State) : AttemptResult × State :=
  match outcome with
  | .complete => (.returned, self.write params requested)
  | .retryable written => (.retryable, self.write params (requested.take written))
  | .brokenPipe none => (.brokenPipe none, self)
  | .brokenPipe (some written) =>
      (.brokenPipe (some (requested.drop written)), self.write params (requested.take written))
  | .raised written => (.raised, self.write params (requested.take written))

/-- The handler resumes the download: there is something in the file, and a tag is remembered
that the object has. -/
def State.Resumes (self : State) : Prop :=
  self.fp.content ≠ [] ∧ stripQuotes params.key.etag ≠ [] ∧
    self.etagValueForCurrentDownload = some (stripQuotes params.key.etag)

instance (self : State) : Decidable (self.Resumes params) :=
  inferInstanceAs (Decidable (_ ∧ _ ∧ _))

/-- `_attempt_resumable_download`. -/
def attemptResumableDownload (fate : Fate) (self : State) : AttemptResult × State :=
  let curFileSize := self.fp.content.length
  let self := { self with fp := { self.fp with pos := curFileSize } }
  if self.Resumes params then
    if params.key.size < curFileSize then (.abort, self)
    else if curFileSize = params.key.size then (.returned, self)
    else
      keyGetFile params (params.key.content.drop curFileSize) fate.outcome
        { self with downloadStartPoint := some curFileSize }
  else
    match saveTrackerInfo params fate self with
    | (false, self) => (.abort, self)
    | (true, self) =>
        keyGetFile params params.key.content fate.outcome
          { self with downloadStartPoint := some 0, fp := self.fp.truncate 0 }

/-- `key.get_file` after a broken pipe, without a range: it goes on with the response if there
is one.  The state is given with whether it returns. -/
def rereadAfterBrokenPipe (left : Option Bytes) (reread : Reread) (self : State) :
    Bool × State :=
  match reread, left with
  | .returned written, some left => (true, self.write params (left.take written))
  | .returned _, none => (true, self.write params params.key.content)
  | .raised written, left =>
      (false, self.write params ((left.getD params.key.content).take written))

/-- What `get_file` makes of an attempt: how it ends, if it does not go on. -/
def conclude (reread : Reread) : AttemptResult × State → Option Result × State
  | (.returned, self) => (some .returned, removeTrackerFile params self)
  | (.abort, self) => (some .aborted, removeTrackerFile params self)
  | (.raised, self) => (some .raised, self)
  | (.retryable, self) => (none, self)
  | (.brokenPipe left, self) =>
      match rereadAfterBrokenPipe params left reread self with
      | (true, self) => (none, self)
      | (false, self) => (some .raised, self)

/-- The body of the `try` statement in `get_file`, with its handlers. -/
def tryOnce (fate : Fate) (self : State) : Option Result × State :=
  conclude params fate.reread (attemptResumableDownload params fate self)

/-- `progress_less_iterations` after a failure. -/
def countProgress (before after : File UInt8) (progressLessIterations : ℕ) : ℕ :=
  if before.content.length < after.content.length then 0 else progressLessIterations + 1

/-- The loop of `get_file`, over what happens in its attempts. -/
def loop : List Fate → ℕ → State → Result × State
  | [], _, self => (.running, self)
  | fate :: fates, progressLessIterations, self =>
      match tryOnce params fate self with
      | (some result, self') => (result, self')
      | (none, self') =>
          let progressLessIterations := countProgress self.fp self'.fp progressLessIterations
          if params.numRetries < progressLessIterations then (.gaveUp, self')
          else loop fates progressLessIterations self'

/-- `get_file`. -/
def getFile (fates : List Fate) (self : State) : Result × State := loop params fates 0 self

/-! ## Where a download can start -/

/-- A file that an attempt may start with: a resumed one has a part of the object, unless it is
too large, and a new one is empty or opened for appending, unless the object is empty. -/
def Sound (self : State) : Prop :=
  (self.Resumes params → self.fp.content <+: params.key.content ∨
    params.key.size < self.fp.content.length) ∧
  (¬self.Resumes params →
    params.appends = true ∨ self.fp.content = [] ∨ params.key.content = [])

/-! ## Writing -/

variable {params} {self self' : State} {fp : File UInt8} {data requested : Bytes}
  {fate : Fate} {fates : List Fate} {outcome : Outcome} {reread : Reread}
  {result : Option Result}

/-- What is written comes at the end of the file, if anything is. -/
def AtEnd (params : Params) (fp : File UInt8) : Prop :=
  params.appends = true ∨ fp.pos = fp.content.length ∨ params.key.content = []

/-- Bytes of the object. -/
def IsPart (params : Params) (data : Bytes) : Prop := params.key.content = [] → data = []

theorem IsPart.take {n : ℕ} (hdata : IsPart params data) : IsPart params (data.take n) :=
  fun hempty => by rw [hdata hempty, List.take_nil]

theorem IsPart.drop {n : ℕ} (hdata : IsPart params data) : IsPart params (data.drop n) :=
  fun hempty => by rw [hdata hempty, List.drop_nil]

theorem writeTo_of_atEnd (hend : AtEnd params fp) (hpart : IsPart params data) :
    (writeTo params data fp).content = fp.content ++ data ∧
      AtEnd params (writeTo params data fp) := by
  rw [writeTo]
  split
  · rename_i hempty
    rw [hempty, List.append_nil]
    exact ⟨rfl, hend⟩
  split
  · exact ⟨rfl, .inr (.inl rfl)⟩
  · rename_i hdata happends
    have hpos : fp.pos = fp.content.length :=
      (hend.resolve_left happends).resolve_right fun hempty => hdata (hpart hempty)
    have hwrite : fp.write 0 data =
        { content := fp.content ++ data, pos := fp.content.length + data.length } := by
      rw [File.write, if_neg (by simpa using hdata), hpos]
      simp
    rw [hwrite]
    exact ⟨rfl, .inr (.inl (List.length_append).symm)⟩

/-- What a state keeps while bytes are written to the end of its file. -/
structure Grows (params : Params) (data : Bytes) (before after : State) : Prop where
  content : after.fp.content = before.fp.content ++ data
  etag : after.etagValueForCurrentDownload = before.etagValueForCurrentDownload
  tracker : after.tracker = before.tracker
  atEnd : AtEnd params after.fp

theorem grows_write (hend : AtEnd params self.fp) (hpart : IsPart params data) :
    Grows params data self (self.write params data) :=
  ⟨(writeTo_of_atEnd hend hpart).1, rfl, rfl, (writeTo_of_atEnd hend hpart).2⟩

theorem Grows.trans {data' : Bytes} {middle : State} (hfirst : Grows params data self middle)
    (hrest : Grows params data' middle self') : Grows params (data ++ data') self self' :=
  ⟨by rw [hrest.content, hfirst.content, List.append_assoc], hrest.etag.trans hfirst.etag,
    hrest.tracker.trans hfirst.tracker, hrest.atEnd⟩

theorem write_nil : self.write params [] = self := by
  rw [State.write, writeTo, if_pos rfl]

theorem removeTrackerFile_fp : (removeTrackerFile params self).fp = self.fp := by
  rw [removeTrackerFile]
  split
  · rfl
  · rfl

theorem removeTrackerFile_tracker (htracked : params.hasTrackerFile = true) :
    (removeTrackerFile params self).tracker = none := by
  rw [removeTrackerFile, if_pos htracked]

/-! ## What an attempt can do -/

/-- What becomes of a request for bytes.  Unless all of them are there, some are written, and
after a broken pipe some more: of the rest, or of the whole object if there was no response. -/
theorem conclude_cases
    (h : conclude params reread (keyGetFile params requested outcome self) = (result, self')) :
    (result = some .returned ∧ self' = removeTrackerFile params (self.write params requested)) ∨
    (result = none ∨ result = some .raised) ∧ ∃ first second,
      self' = (self.write params first).write params second ∧
        ((∃ n, first ++ second = requested.take n) ∨ first = [] ∧ (second = params.key.content ∨
          result = some .raised ∧ outcome = .brokenPipe none ∧
            ∃ n, reread = .raised n ∧ second = params.key.content.take n)) := by
  cases outcome with
  | complete =>
      cases h
      exact .inl ⟨rfl, rfl⟩
  | retryable written =>
      cases h
      exact .inr ⟨.inl rfl, _, [], write_nil.symm, .inl ⟨written, List.append_nil _⟩⟩
  | raised written =>
      cases h
      exact .inr ⟨.inr rfl, _, [], write_nil.symm, .inl ⟨written, List.append_nil _⟩⟩
  | brokenPipe written =>
      cases written with
      | none =>
          cases reread with
          | returned more =>
              cases h
              exact .inr ⟨.inl rfl, [], _, by rw [write_nil], .inr ⟨rfl, .inl rfl⟩⟩
          | raised more =>
              cases h
              exact .inr ⟨.inr rfl, [], _, by rw [write_nil]; rfl,
                .inr ⟨rfl, .inr ⟨rfl, rfl, more, rfl, rfl⟩⟩⟩
      | some written =>
          have hsplit : ∀ more, requested.take written ++ (requested.drop written).take more =
              requested.take (written + more) := fun more => List.take_add.symm
          cases reread with
          | returned more =>
              cases h
              exact .inr ⟨.inl rfl, _, _, rfl, .inl ⟨_, hsplit more⟩⟩
          | raised more =>
              cases h
              exact .inr ⟨.inr rfl, _, _, rfl, .inl ⟨_, hsplit more⟩⟩

/-- The handler does not ask again in vain: if there was no response, the next one is not broken
off by an exception. -/
def IsCareful (outcome : Outcome) (reread : Reread) : Prop :=
  outcome = .brokenPipe none → ∀ n, reread ≠ .raised n

/-- The handler tries again, or another process may. -/
def GoesOn (outcome : Outcome) (reread : Reread) (result : Option Result) : Prop :=
  result = none ∨ result = some .raised ∧ IsCareful outcome reread

/-- When a download goes on, a part of what was asked for was written, or after a broken request
the whole object. -/
theorem grows_of_conclude
    (h : conclude params reread (keyGetFile params requested outcome self) = (result, self'))
    (hgoes : GoesOn outcome reread result) (hend : AtEnd params self.fp)
    (hpart : IsPart params requested) :
    (∃ n, Grows params (requested.take n) self self') ∨
      Grows params params.key.content self self' := by
  rcases conclude_cases h with ⟨rfl, -⟩ | ⟨-, first, second, rfl, hdata⟩
  · rcases hgoes with hgoes | ⟨hgoes, -⟩
    · cases hgoes
    · cases hgoes
  rcases hdata with ⟨n, heq⟩ | ⟨rfl, rfl | ⟨rfl, houtcome, n, hreread, -⟩⟩
  · have hparts : params.key.content = [] → first = [] ∧ second = [] := fun hempty =>
      List.append_eq_nil_iff.mp (heq.trans (hpart.take hempty))
    have hfirst := grows_write hend fun hempty => (hparts hempty).1
    exact .inl ⟨n, heq ▸ hfirst.trans (grows_write hfirst.atEnd fun hempty => (hparts hempty).2)⟩
  · rw [write_nil]
    exact .inr (grows_write hend id)
  · rcases hgoes with hgoes | ⟨-, hcareful⟩
    · cases hgoes
    · exact absurd hreread (hcareful houtcome n)

/-- The state in which an attempt that resumes asks for the rest of the object. -/
def resuming (self : State) : State :=
  { self with
    fp := { self.fp with pos := self.fp.content.length }
    downloadStartPoint := some self.fp.content.length }

/-- The state in which an attempt that starts afresh asks for the object. -/
def fresh (params : Params) (self : State) : State where
  fp := { content := [], pos := self.fp.content.length }
  etagValueForCurrentDownload := some (stripQuotes params.key.etag)
  tracker := if params.hasTrackerFile = true then some (stripQuotes params.key.etag ++ ['\n'])
    else self.tracker
  downloadStartPoint := some 0

/-- What an attempt asks for, and in which state. -/
inductive Asks (params : Params) (self : State) : State → Bytes → Prop
  | rest (hresumes : self.Resumes params) (hsmall : self.fp.content.length < params.key.size) :
      Asks params self (resuming self) (params.key.content.drop self.fp.content.length)
  | whole (hfresh : ¬self.Resumes params) :
      Asks params self (fresh params self) params.key.content

/-- What an attempt can do: it gives up the download, finds that the file is complete, or asks for
bytes. -/
theorem tryOnce_cases (htry : tryOnce params fate self = (result, self')) :
    ((self.Resumes params ∧ params.key.size < self.fp.content.length ∨
        ¬self.Resumes params ∧ fate.trackerWritable = false) ∧
      result = some .aborted ∧ (params.hasTrackerFile = true → self'.tracker = none)) ∨
    (self.Resumes params ∧ self.fp.content.length = params.key.size ∧ result = some .returned ∧
      self' = removeTrackerFile params
        { self with fp := { self.fp with pos := self.fp.content.length } }) ∨
    ∃ base requested, Asks params self base requested ∧
      conclude params fate.reread (keyGetFile params requested fate.outcome base) =
        (result, self') := by
  have habort : ∀ stopped, conclude params fate.reread (.abort, stopped) = (result, self') →
      result = some .aborted ∧ (params.hasTrackerFile = true → self'.tracker = none) := by
    intro stopped hstop
    cases hstop
    exact ⟨rfl, removeTrackerFile_tracker⟩
  have hat : ({ self with fp := { self.fp with pos := self.fp.content.length } } : State).Resumes
      params ↔ self.Resumes params := Iff.rfl
  rw [tryOnce, attemptResumableDownload] at htry
  dsimp only at htry
  split at htry
  · rename_i hresumes
    split at htry
    · rename_i hlarge
      exact .inl ⟨.inl ⟨hat.mp hresumes, hlarge⟩, habort _ htry⟩
    split at htry
    · rename_i hsize
      obtain ⟨rfl, rfl⟩ := Prod.mk.inj htry.symm
      exact .inr (.inl ⟨hat.mp hresumes, hsize, rfl, rfl⟩)
    · rename_i hlarge hsize
      exact .inr (.inr ⟨_, _, .rest (hat.mp hresumes) (by omega), htry⟩)
  · rename_i hfresh
    rw [saveTrackerInfo] at htry
    by_cases htracked : params.hasTrackerFile = true
    · by_cases hwritable : fate.trackerWritable = true
      · refine .inr (.inr ⟨_, _, .whole (mt hat.mpr hfresh), ?_⟩)
        simpa [fresh, htracked, hwritable, File.truncate] using htry
      · refine .inl ⟨.inr ⟨mt hat.mpr hfresh, Bool.not_eq_true _ ▸ hwritable⟩, ?_⟩
        simp only [htracked, hwritable] at htry
        exact habort _ htry
    · have hnone : params.hasTrackerFile = false := Bool.not_eq_true _ ▸ htracked
      refine .inr (.inr ⟨_, _, .whole (mt hat.mpr hfresh), ?_⟩)
      simpa [fresh, hnone, File.truncate] using htry

namespace Asks

variable {base : State}

theorem etag (hasks : Asks params self base requested) :
    base.etagValueForCurrentDownload = some (stripQuotes params.key.etag) := by
  cases hasks with
  | rest hresumes hsmall => exact hresumes.2.2
  | whole hfresh => rfl

/-- From a sound start the bytes that are asked for complete the file. -/
theorem completes (hasks : Asks params self base requested) (hsound : Sound params self) :
    base.fp.content ++ requested = params.key.content ∧ AtEnd params base.fp ∧
      IsPart params requested := by
  cases hasks with
  | rest hresumes hsmall =>
      have hheld := (hsound.1 hresumes).resolve_right (Nat.lt_asymm hsmall)
      exact ⟨List.prefix_iff_eq_append.mp hheld, .inr (.inl rfl), IsPart.drop id⟩
  | whole hfresh =>
      refine ⟨rfl, ?_, id⟩
      rcases hsound.2 hfresh with happends | hempty | hempty
      · exact .inl happends
      · exact .inr (.inl (by rw [fresh, hempty]))
      · exact .inr (.inr hempty)

end Asks

/-! ## Attempts -/

/-- A file is a part of an object, or larger. -/
def Fits (fp : File UInt8) (object : Bytes) : Prop :=
  fp.content <+: object ∨ object.length < fp.content.length

theorem sound_of_fits (hetag : stripQuotes params.key.etag ≠ [])
    (hsaved : self.etagValueForCurrentDownload = some (stripQuotes params.key.etag))
    (hfits : Fits self.fp params.key.content) : Sound params self := by
  refine ⟨fun _ => hfits, fun hnot => ?_⟩
  by_contra hne
  exact hnot ⟨fun hempty => hne (.inr (.inl hempty)), hetag, hsaved⟩

/-- When a download goes on, the tag of the object is remembered, and the file fits it. -/
theorem fits_of_asks {base : State} (hasks : Asks params self base requested)
    (hsound : Sound params self)
    (h : conclude params reread (keyGetFile params requested outcome base) = (result, self'))
    (hgoes : GoesOn outcome reread result) :
    self'.etagValueForCurrentDownload = some (stripQuotes params.key.etag) ∧
      self'.tracker = base.tracker ∧ Fits self'.fp params.key.content := by
  obtain ⟨hwhole, hend, hpart⟩ := hasks.completes hsound
  rcases grows_of_conclude h hgoes hend hpart with ⟨n, hgrows⟩ | hgrows
  · refine ⟨hgrows.etag.trans hasks.etag, hgrows.tracker, .inl ?_⟩
    rw [hgrows.content, ← hwhole, List.prefix_append_right_inj]
    exact List.take_prefix n requested
  · refine ⟨hgrows.etag.trans hasks.etag, hgrows.tracker, ?_⟩
    rw [Fits, hgrows.content]
    by_cases hempty : base.fp.content = []
    · rw [hempty, List.nil_append]
      exact .inl List.prefix_rfl
    · right
      rw [List.length_append]
      have hpos := List.length_pos_of_ne_nil hempty
      omega

/-- An attempt from a sound start has the object when it returns, and leaves a sound start when
the handler goes on. -/
theorem tryOnce_sound (hetag : stripQuotes params.key.etag ≠ []) (hsound : Sound params self) :
    (tryOnce params fate self = (some .returned, self') →
      self'.fp.content = params.key.content) ∧
    (tryOnce params fate self = (none, self') → Sound params self') := by
  constructor
  · intro htry
    rcases tryOnce_cases htry with ⟨-, h, -⟩ | ⟨hresumes, hsize, -, rfl⟩ | ⟨base, requested, hasks, h⟩
    · cases h
    · rw [removeTrackerFile_fp]
      have hheld := (hsound.1 hresumes).resolve_right (Nat.not_lt.mpr (Nat.le_of_eq hsize))
      exact hheld.eq_of_length hsize
    · obtain ⟨hwhole, hend, hpart⟩ := hasks.completes hsound
      rcases conclude_cases h with ⟨-, rfl⟩ | ⟨h' | h', -⟩
      · rw [removeTrackerFile_fp, (grows_write hend hpart).content, hwhole]
      · cases h'
      · cases h'
  · intro htry
    rcases tryOnce_cases htry with ⟨-, h, -⟩ | ⟨-, -, h, -⟩ | ⟨base, requested, hasks, h⟩
    · cases h
    · cases h
    · obtain ⟨hsaved, -, hfits⟩ := fits_of_asks hasks hsound h (.inl rfl)
      exact sound_of_fits hetag hsaved hfits

theorem tryOnce_ne_running : tryOnce params fate self ≠ (some .running, self') := by
  intro htry
  rcases tryOnce_cases htry with ⟨-, h, -⟩ | ⟨-, -, h, -⟩ | ⟨base, requested, -, h⟩
  · cases h
  · cases h
  · rcases conclude_cases h with ⟨h', -⟩ | ⟨h' | h', -⟩
    · cases h'
    · cases h'
    · cases h'

/-! ## Downloads -/

/-- A download from a sound start has the object when it returns, and is at a sound start
whenever it tries again. -/
theorem loop_sound (hetag : stripQuotes params.key.etag ≠ []) {progressLess : ℕ}
    (hsound : Sound params self) :
    (loop params fates progressLess self = (.returned, self') →
      self'.fp.content = params.key.content) ∧
    (loop params fates progressLess self = (.running, self') → Sound params self') := by
  induction fates generalizing progressLess self with
  | nil =>
      constructor
      · intro h
        cases h
      · intro h
        cases h
        exact hsound
  | cons fate fates ih =>
      rw [loop]
      rcases htry : tryOnce params fate self with ⟨_ | result, after⟩
      · dsimp only
        by_cases hmany : params.numRetries < countProgress self.fp after.fp progressLess
        · rw [if_pos hmany]
          constructor
          · intro h
            cases h
          · intro h
            cases h
        · rw [if_neg hmany]
          exact ih ((tryOnce_sound hetag hsound).2 htry)
      · dsimp only
        constructor
        · intro h
          obtain ⟨rfl, rfl⟩ := Prod.mk.inj h
          exact (tryOnce_sound hetag hsound).1 htry
        · intro h
          obtain ⟨rfl, rfl⟩ := Prod.mk.inj h
          exact absurd htry tryOnce_ne_running

/-- From a start that is not sound a complete attempt returns with something else. -/
theorem tryOnce_complete (hsound : ¬Sound params self)
    (htry : tryOnce params ⟨true, .complete, .returned 0⟩ self = (result, self')) :
    result = some .returned ∧ self'.fp.content ≠ params.key.content := by
  rcases tryOnce_cases htry with ⟨⟨hresumes, hlarge⟩ | ⟨-, hunwritable⟩, -⟩ |
    ⟨hresumes, hsize, rfl, rfl⟩ | ⟨base, requested, hasks, h⟩
  · exact absurd ⟨fun _ => .inr hlarge, fun hfresh => absurd hresumes hfresh⟩ hsound
  · cases hunwritable
  · refine ⟨rfl, fun heq => hsound ⟨fun _ => .inl ?_, fun hfresh => absurd hresumes hfresh⟩⟩
    rw [removeTrackerFile_fp] at heq
    have hsame : self.fp.content = params.key.content := heq
    exact hsame ▸ List.prefix_rfl
  · obtain ⟨rfl, rfl⟩ := Prod.mk.inj h.symm
    refine ⟨rfl, fun heq => ?_⟩
    rw [removeTrackerFile_fp] at heq
    cases hasks with
    | rest hresumes hsmall =>
        refine hsound ⟨fun _ => .inl ?_, fun hfresh => absurd hresumes hfresh⟩
        have hwrite := (@grows_write params (resuming self) _ (.inr (.inl rfl))
          (IsPart.drop (n := self.fp.content.length) id)).content
        exact ⟨_, hwrite.symm.trans heq⟩
    | whole hfresh =>
        have hnot : ¬(params.appends = true ∨ self.fp.content = [] ∨ params.key.content = []) :=
          fun hend => hsound ⟨fun hresumes => absurd hresumes hfresh, fun _ => hend⟩
        simp only [not_or] at hnot
        obtain ⟨happends, hcontent, hobject⟩ := hnot
        -- The object is written behind a gap of the size of what was in the file.
        have hlength := congrArg List.length heq
        have hpos := List.length_pos_of_ne_nil hcontent
        rw [State.write, writeTo, if_neg hobject, if_neg happends, fresh, File.write,
          if_neg (by simpa using hobject)] at hlength
        simp only [List.take_nil, List.drop_nil, List.append_nil, List.nil_append,
          List.length_nil, List.length_append, List.length_replicate] at hlength
        omega

/-- A download whose first attempt is complete. -/
theorem getFile_complete (hsound : ¬Sound params self) :
    ∃ self', getFile params [⟨true, .complete, .returned 0⟩] self = (.returned, self') ∧
      self'.fp.content ≠ params.key.content := by
  rcases htry : tryOnce params ⟨true, .complete, .returned 0⟩ self with ⟨result, self'⟩
  obtain ⟨rfl, hne⟩ := tryOnce_complete hsound htry
  exact ⟨self', by rw [getFile, loop, htry], hne⟩

/-- A download of two bytes into a file that is not opened for appending. -/
def twoBytes : Params where
  key := ⟨[1, 2], "\"abcde\"".toList⟩
  appends := false
  hasTrackerFile := false
  numRetries := 6

/-- A local file at its start, and no tag that is remembered. -/
def untagged (content : Bytes) : State := ⟨⟨content, 0⟩, none, none, none⟩

/-- After an attempt that the handler goes on from, the tag of the object is remembered.  An
attempt that resumes was not at the end of the object, and keeps what is in the file. -/
theorem tryOnce_again (htry : tryOnce params fate self = (none, self')) :
    self'.etagValueForCurrentDownload = some (stripQuotes params.key.etag) ∧
      (self.Resumes params → self.fp.content.length ≤ self'.fp.content.length ∧
        self.fp.content.length < params.key.size) := by
  rcases tryOnce_cases htry with ⟨-, h, -⟩ | ⟨-, -, h, -⟩ | ⟨base, requested, hasks, h⟩
  · cases h
  · cases h
  refine ⟨?_, fun hresumes => ?_⟩
  · rcases conclude_cases h with ⟨h', -⟩ | ⟨-, first, second, rfl, -⟩
    · cases h'
    · exact hasks.etag
  · cases hasks with
    | whole hfresh => exact absurd hresumes hfresh
    | rest hresumes hsmall =>
        refine ⟨?_, hsmall⟩
        rcases grows_of_conclude h (.inl rfl) (.inr (.inl rfl)) (IsPart.drop id) with
          ⟨n, hgrows⟩ | hgrows
        · rw [hgrows.content, List.length_append]
          exact Nat.le_add_right _ _
        · rw [hgrows.content, List.length_append]
          exact Nat.le_add_right _ _

/-- How many attempts may follow: the file may grow so many times, and between two times there
are so many failures at most. -/
def attemptsLeft (params : Params) (size progressLess : ℕ) : ℕ :=
  (params.key.size + 1 - size) * (params.numRetries + 1) + (params.numRetries + 1 - progressLess)

theorem attemptsLeft_grown {size size' progressLess : ℕ} (hsize : size ≤ params.key.size)
    (hgrown : size < size') (hfew : progressLess ≤ params.numRetries) :
    attemptsLeft params size' 0 < attemptsLeft params size progressLess := by
  rw [attemptsLeft, attemptsLeft]
  obtain ⟨rest, hrest⟩ : ∃ rest, params.key.size + 1 - size = rest + 1 :=
    ⟨params.key.size - size, by omega⟩
  have hmul : (params.key.size + 1 - size') * (params.numRetries + 1) ≤
      rest * (params.numRetries + 1) := Nat.mul_le_mul_right _ (by omega)
  rw [hrest, Nat.add_one_mul]
  omega

theorem attemptsLeft_failed {size size' progressLess : ℕ} (hkept : size ≤ size')
    (hfew : progressLess ≤ params.numRetries) :
    attemptsLeft params size' (progressLess + 1) < attemptsLeft params size progressLess := by
  rw [attemptsLeft, attemptsLeft]
  have hmul : (params.key.size + 1 - size') * (params.numRetries + 1) ≤
      (params.key.size + 1 - size) * (params.numRetries + 1) :=
    Nat.mul_le_mul_right _ (by omega)
  omega

/-- When the tag of the object is remembered, the loop ends after the attempts that are left. -/
theorem loop_ends (hetag : stripQuotes params.key.etag ≠ []) {progressLess : ℕ}
    (hfew : progressLess ≤ params.numRetries)
    (hsaved : self.etagValueForCurrentDownload = some (stripQuotes params.key.etag))
    (hmany : attemptsLeft params self.fp.content.length progressLess ≤ fates.length) :
    (loop params fates progressLess self).1 ≠ .running := by
  induction fates generalizing progressLess self with
  | nil =>
      rw [attemptsLeft, List.length_nil] at hmany
      omega
  | cons fate fates ih =>
      rw [loop]
      rw [List.length_cons] at hmany
      rcases htry : tryOnce params fate self with ⟨_ | result, after⟩
      · dsimp only
        split
        · simp
        · rename_i hretry
          obtain ⟨hsaved', hresumed⟩ := tryOnce_again htry
          have hkept : self.fp.content.length ≤ after.fp.content.length ∧
              self.fp.content.length ≤ params.key.size := by
            by_cases hempty : self.fp.content = []
            · simp [hempty]
            · obtain ⟨hle, hlt⟩ := hresumed ⟨hempty, hetag, hsaved⟩
              exact ⟨hle, Nat.le_of_lt hlt⟩
          refine ih (Nat.le_of_not_lt hretry) hsaved' ?_
          rw [countProgress]
          split
          · rename_i hgrown
            have hless := attemptsLeft_grown hkept.2 hgrown hfew
            omega
          · have hless := @attemptsLeft_failed params _ _ _ hkept.1 hfew
            omega
      · dsimp only
        rintro rfl
        exact tryOnce_ne_running htry

/-- What `_load_tracker_file_etag` takes from the tracker file: the first line. -/
def trackerTag (text : Text) : Text :=
  text.takeWhile fun c => decide (c ≠ '\n' ∧ c ≠ '\r')

/-- A process that opens the file and makes a handler for one download.  A process that is killed
during a request is one where this raises; it is not killed between the tracker file and the
file. -/
structure Process where
  params : Params
  empties : Bool
  trackerReadable : Bool
  fates : List Fate

/-- `__init__`, for the file and the tracker file that were left. -/
def Process.start (process : Process) (left : State) : State where
  fp := { content := if process.empties = true then [] else left.fp.content, pos := 0 }
  etagValueForCurrentDownload :=
    if process.params.hasTrackerFile = true ∧ process.trackerReadable = true then
      left.tracker.map trackerTag
    else none
  tracker := left.tracker
  downloadStartPoint := none

/-- The downloads of some processes, one after another, and how they end. -/
def history : List Process → State → List (Process × Result × State)
  | [], _ => []
  | process :: processes, left =>
      let ended := getFile process.params process.fates (process.start left)
      (process, ended) :: history processes ended.2

/-- A process with a tracker file that opens the file for appending or empties it, and fetches
the object that its tag, one line, stands for. -/
structure Process.IsRegular (contentOf : Text → Bytes) (process : Process) : Prop where
  opened : process.empties = true ∨ process.params.appends = true
  tracked : process.params.hasTrackerFile = true
  content : contentOf (stripQuotes process.params.key.etag) = process.params.key.content
  tag_ne : stripQuotes process.params.key.etag ≠ []
  tag_line : ∀ c ∈ stripQuotes process.params.key.etag, c ≠ '\n' ∧ c ≠ '\r'
  careful : ∀ fate ∈ process.fates, IsCareful fate.outcome fate.reread

/-- The file fits the object that the tracker file names, if it names one. -/
def Kept (contentOf : Text → Bytes) (self : State) : Prop :=
  ∀ text, self.tracker = some text → Fits self.fp (contentOf (trackerTag text))

/-- A tag that is remembered is the one in the tracker file. -/
def Agrees (self : State) : Prop :=
  ∀ tag text, self.etagValueForCurrentDownload = some tag → self.tracker = some text →
    trackerTag text = tag

variable {contentOf : Text → Bytes} {process : Process} {left : State}

theorem kept_of_none (htracker : self.tracker = none) : Kept contentOf self := by
  intro text htext
  rw [htracker] at htext
  cases htext

theorem trackerTag_line {tag : Text} (hline : ∀ c ∈ tag, c ≠ '\n' ∧ c ≠ '\r') :
    trackerTag (tag ++ ['\n']) = tag := by
  rw [trackerTag, List.takeWhile_append_of_pos fun c hc => decide_eq_true (hline c hc)]
  exact List.append_nil tag

/-- When bytes are asked for, the tracker file has the tag of the object, if there is one. -/
theorem Asks.agrees {base : State} (hasks : Asks process.params self base requested)
    (hregular : process.IsRegular contentOf) (hagrees : Agrees self) {text : Text}
    (htext : base.tracker = some text) :
    trackerTag text = stripQuotes process.params.key.etag := by
  cases hasks with
  | rest hresumes hsmall => exact hagrees _ _ hresumes.2.2 htext
  | whole hfresh =>
      rw [fresh, if_pos hregular.tracked] at htext
      cases htext
      exact trackerTag_line hregular.tag_line

/-- However an attempt ends, the tracker file is kept right. -/
theorem tryOnce_kept (hregular : process.IsRegular contentOf) (hfate : fate ∈ process.fates)
    (hsound : Sound process.params self) (hagrees : Agrees self)
    (htry : tryOnce process.params fate self = (result, self')) :
    Kept contentOf self' ∧ (result = none → Agrees self') := by
  rcases tryOnce_cases htry with ⟨-, rfl, htracker⟩ | ⟨-, -, rfl, rfl⟩ | ⟨base, requested, hasks, h⟩
  · exact ⟨kept_of_none (htracker hregular.tracked), fun h => by cases h⟩
  · exact ⟨kept_of_none (removeTrackerFile_tracker hregular.tracked), fun h => by cases h⟩
  rcases conclude_cases h with ⟨rfl, rfl⟩ | ⟨hresult, -⟩
  · exact ⟨kept_of_none (removeTrackerFile_tracker hregular.tracked), fun h => by cases h⟩
  have hgoes : GoesOn fate.outcome fate.reread result :=
    hresult.imp_right fun hraised => ⟨hraised, hregular.careful fate hfate⟩
  obtain ⟨hsaved, htracker, hfits⟩ := fits_of_asks hasks hsound h hgoes
  have htag : ∀ text, self'.tracker = some text →
      trackerTag text = stripQuotes process.params.key.etag :=
    fun text htext => hasks.agrees hregular hagrees (htracker.symm.trans htext)
  constructor
  · intro text htext
    rw [htag text htext, hregular.content]
    exact hfits
  · intro _ tag text hremembered htext
    rw [htag text htext]
    exact Option.some.inj (hsaved.symm.trans hremembered)

theorem loop_kept (hregular : process.IsRegular contentOf)
    (hfates : ∀ fate ∈ fates, fate ∈ process.fates) {progressLess : ℕ}
    (hsound : Sound process.params self) (hagrees : Agrees self) (hkept : Kept contentOf self) :
    Kept contentOf (loop process.params fates progressLess self).2 := by
  induction fates generalizing progressLess self with
  | nil => exact hkept
  | cons fate fates ih =>
      obtain ⟨hfate, hlater⟩ := List.forall_mem_cons.mp hfates
      rw [loop]
      rcases htry : tryOnce process.params fate self with ⟨_ | result, after⟩
      · obtain ⟨hkept', hagrees'⟩ := tryOnce_kept hregular hfate hsound hagrees htry
        dsimp only
        split
        · exact hkept'
        · exact ih hlater ((tryOnce_sound hregular.tag_ne hsound).2 htry) (hagrees' rfl) hkept'
      · exact (tryOnce_kept hregular hfate hsound hagrees htry).1

/-- A process starts soundly with what others kept right. -/
theorem start_right (hregular : process.IsRegular contentOf) (hkept : Kept contentOf left) :
    Sound process.params (process.start left) ∧ Agrees (process.start left) ∧
      Kept contentOf (process.start left) := by
  have hkept' : Kept contentOf (process.start left) := by
    intro text htext
    rw [Fits, Process.start]
    dsimp only
    split
    · exact .inl List.nil_prefix
    · exact hkept text htext
  have hagrees : Agrees (process.start left) := by
    intro tag text htag htext
    rw [Process.start] at htag htext
    dsimp only at htag htext
    rw [htext, Option.map_some] at htag
    split at htag
    · exact Option.some.inj htag
    · cases htag
  refine ⟨⟨fun hresumes => ?_, fun _ => ?_⟩, hagrees, hkept'⟩
  · obtain ⟨-, -, htag⟩ := hresumes
    cases htracker : left.tracker with
    | none =>
        rw [Process.start] at htag
        simp [htracker] at htag
    | some text =>
        have hfits := hkept' text htracker
        rwa [hagrees _ text htag htracker, hregular.content] at hfits
  · rcases hregular.opened with hempties | happends
    · exact .inr (.inl (if_pos hempties))
    · exact .inl happends

/-- A process that appends two bytes to the file. -/
def appending (fates : List Fate) : Process :=
  ⟨{ twoBytes with appends := true, hasTrackerFile := true }, false, true, fates⟩

/-- A process that is killed after one byte, and the next one. -/
def killed : List Process :=
  [appending [⟨true, .raised 1, .returned 0⟩], appending [⟨true, .complete, .returned 0⟩]]

/-- The handler asks in vain, and the next process does not see it. -/
example : (history [appending [⟨true, .retryable 1, .returned 0⟩,
      ⟨true, .brokenPipe none, .raised 1⟩], appending [⟨true, .complete, .returned 0⟩]]
    (untagged [])).map (fun entry => (entry.2.1, entry.2.2.fp.content)) =
      [(.raised, [1, 1]), (.returned, [1, 1])] := by
  decide

end Boto.S3.ResumableDownload
