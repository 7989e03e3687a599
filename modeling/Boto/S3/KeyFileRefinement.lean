import Boto.S3.KeyFile

/-!
# How far a key file is a file

A `KeyFile` holds its position three times: in `location`, in the open response,
and in what `Key.read` does when no response is open.  They agree with the
position of a file in memory as long as no call tears them apart, and this module
says which calls do.
-/

namespace Boto.S3

open EStateM Files

variable {store : Store}

/-! ## Reading the key -/

namespace Key

variable {key : Key} {resp : HTTPResponse}

/-- The key after `open_read()`. -/
def opened (store : Store) (key : Key) : Key :=
  match key.resp with
  | some _ => key
  | none =>
      { resp := some { body := store.content, cachedResponse := [] }
        size := some store.content.length }

theorem opened_of_some (h : key.resp = some resp) : key.opened store = key := by
  simp only [opened, h]

theorem exists_resp_opened (store : Store) (key : Key) :
    ∃ resp, (key.opened store).resp = some resp := by
  cases hkey : key.resp with
  | some resp => exact ⟨resp, by rw [opened_of_some hkey, hkey]⟩
  | none => exact ⟨_, by simp only [opened, hkey]; rfl⟩

theorem run_openRead_none :
    (openRead store none).run key = .ok () (key.opened store) := by
  cases hresp : key.resp with
  | some resp => simp [openRead, opened, hresp]
  | none => simp [openRead, opened, hresp, Store.answer]

theorem run_openRead_ok {start : Option ℤ} {body : Bytes}
    (hresp : key.resp = none) (hbody : store.answer start = .ok body) :
    (openRead store start).run key =
      .ok () { resp := some { body := body, cachedResponse := [] }
               size := some store.content.length } := by
  simp [openRead, hresp, hbody]

theorem run_openRead_error {start : Option ℤ} {status : ℕ}
    (hresp : key.resp = none) (hstatus : store.answer start = .error status) :
    (openRead store start).run key =
      .error (.storageResponseError status)
        { key with
          resp := some { body := [], cachedResponse := store.errorBody } } := by
  simp [openRead, hresp, hstatus, HTTPResponse.read]

/-- Reading an open key: the key is closed when nothing comes. -/
theorem run_read (n : ℕ) (h : (key.opened store).resp = some resp) :
    (read store n).run key =
      let got := if n = 0 then resp.read else resp.readAmt n
      .ok got.1 { key.opened store with
        resp := if got.1 = [] then none else some got.2 } := by
  rw [read, run_bind, run_openRead_none]
  by_cases hgot : (if n = 0 then resp.read else resp.readAmt n).1 = []
  · simp only [run_bind, run_get, h, run_modify, hgot, if_pos, run_pure, close,
      Bool.not_false]
  · simp only [run_bind, run_get, h, run_modify, hgot, if_neg, not_false_iff,
      run_pure]

/-- Reading no more than an open response has left. -/
theorem run_read_of_le {n : ℕ} {size : Option ℕ} (hn : 0 < n)
    (hle : n ≤ resp.body.length) :
    (read store n).run { resp := some resp, size := size } =
      .ok (resp.body.take n)
        { resp := some { resp with body := resp.body.drop n }, size := size } := by
  have hne : n ≠ 0 := by omega
  have hdata : resp.body.take n ≠ [] := by
    rw [← List.length_pos_iff, List.length_take]
    omega
  have hrun := @run_read store ⟨some resp, size⟩ resp n rfl
  simpa only [if_neg hne, HTTPResponse.readAmt, if_neg hdata, opened] using hrun

end Key

/-! ## Calls that agree -/

/-- The key file stands where the file in memory stands. -/
structure InStep (store : Store) (file : KeyFile) (f : File UInt8) : Prop where
  content : f.content = store.content
  location : file.location = some (f.pos : ℤ)
  size : file.key.size = some store.content.length
  body : ∀ resp, file.key.resp = some resp → resp.body = f.rest

/-- A call gives on both what it gives on one, and leaves them in step. -/
def Agrees (store : Store) (self : KeyFile) (f : File UInt8) (op : FileOp) :
    Prop :=
  (self.call store op).1 = (memoryCall f op).1 ∧
    InStep store (self.call store op).2 (memoryCall f op).2

/-- A response from which `read()` gets nothing. -/
def Drained (f : File UInt8) : Option HTTPResponse → Prop
  | none => f.content = []
  | some resp => resp.body = [] ∧ resp.cachedResponse = []

/-- The calls that a key file handles: reads that stay inside the object and come
while a response is open or at its start, empty reads with nothing left to read,
relative seeks that stay in front of no start, and seeks from the end to a
position after the first byte. -/
def CallOk (self : KeyFile) (f : File UInt8) : FileOp → Prop
  | .tell => True
  | .read size =>
      if size = 0 then Drained f self.key.resp
      else
        f.pos + size ≤ f.content.length ∧
          (self.key.resp.isSome ∨ f.pos = 0)
  | .seek _ .start => True
  | .seek pos .current => 0 ≤ f.pos + pos
  | .seek pos .stop =>
      if f.content = [] then pos = f.pos
      else
        f.content.length + pos < 0 ∨ 0 < f.content.length + pos ∧ pos ≤ 0

instance (f : File UInt8) : (resp : Option HTTPResponse) →
    Decidable (Drained f resp)
  | none => inferInstanceAs (Decidable (f.content = []))
  | some resp =>
      inferInstanceAs (Decidable (resp.body = [] ∧ resp.cachedResponse = []))

instance (self : KeyFile) (f : File UInt8) : (op : FileOp) →
    Decidable (CallOk self f op)
  | .tell => isTrue trivial
  | .read size =>
      inferInstanceAs (Decidable (if size = 0 then Drained f self.key.resp
        else f.pos + size ≤ f.content.length ∧
          (self.key.resp.isSome ∨ f.pos = 0)))
  | .seek _ .start => isTrue trivial
  | .seek pos .current => inferInstanceAs (Decidable (0 ≤ f.pos + pos))
  | .seek pos .stop =>
      inferInstanceAs (Decidable (if f.content = [] then pos = f.pos
        else f.content.length + pos < 0 ∨ 0 < f.content.length + pos ∧ pos ≤ 0))

section

variable {self : KeyFile} {f : File UInt8} (h : InStep store self f)

include h

theorem InStep.opened_rest (hopen : self.key.resp.isSome ∨ f.pos = 0) :
    ∃ resp, (self.key.opened store).resp = some resp ∧ resp.body = f.rest := by
  cases hresp : self.key.resp with
  | some resp =>
      refine ⟨resp, ?_, h.body resp hresp⟩
      rw [Key.opened_of_some hresp, hresp]
  | none =>
      have hpos : f.pos = 0 := by simpa [hresp] using hopen
      refine ⟨_, by simp only [Key.opened, hresp]; rfl, ?_⟩
      simp [File.rest, hpos, h.content]

theorem InStep.opened_size :
    (self.key.opened store).size = some store.content.length := by
  cases hresp : self.key.resp with
  | some resp => rw [Key.opened_of_some hresp, h.size]
  | none => simp [Key.opened, hresp]

theorem agrees_tell : Agrees store self f .tell := by
  have hcall : self.call store .tell = (.position f.pos, self) := by
    simp [KeyFile.call, KeyFile.tell, h.location, outcome]
  exact ⟨by rw [hcall]; rfl, by rw [hcall]; exact h⟩

/-- What `read` gives, and the key file it leaves. -/
theorem call_read {resp : HTTPResponse} (n : ℕ)
    (hresp : (self.key.opened store).resp = some resp) :
    self.call store (.read n) =
      let got := if n = 0 then resp.read else resp.readAmt n
      (.data got.1,
        { key := { self.key.opened store with
            resp := if got.1 = [] then none else some got.2 }
          location := some (f.pos + n) }) := by
  have hrun := Key.run_read n hresp
  simp only [KeyFile.call, KeyFile.read, KeyFile.getLocation, run_bind, run_get,
    run_modify, run_pure, KeyFile.onKey, run_zoom, h.location, hrun, outcome]

theorem drained_iff {resp : HTTPResponse}
    (hresp : (self.key.opened store).resp = some resp) :
    Drained f self.key.resp ↔ resp.read.1 = [] := by
  cases hkey : self.key.resp with
  | some old =>
      rw [Key.opened_of_some hkey, hkey] at hresp
      obtain rfl := Option.some.inj hresp
      cases hcached : old.cachedResponse with
      | nil => simp [Drained, HTTPResponse.read, hcached]
      | cons b bs => simp [Drained, HTTPResponse.read, hcached]
  | none =>
      simp only [Key.opened, hkey, Option.some.injEq] at hresp
      subst hresp
      simp [Drained, HTTPResponse.read, h.content]

theorem agrees_read_zero_iff :
    Agrees store self f (.read 0) ↔ CallOk self f (.read 0) := by
  obtain ⟨resp, hresp⟩ := Key.exists_resp_opened store self.key
  simp only [Agrees, CallOk, if_pos, call_read h 0 hresp,
    drained_iff h hresp, memoryCall, File.read_fst, List.take_zero,
    Outcome.data.injEq, and_iff_left_iff_imp]
  intro hnothing
  exact
    { content := h.content
      location := by simp [File.read]
      size := h.opened_size
      body := by simp [hnothing] }

theorem agrees_read_pos_iff {n : ℕ} (hn : 0 < n) :
    Agrees store self f (.read n) ↔ CallOk self f (.read n) := by
  obtain ⟨resp, hresp⟩ := Key.exists_resp_opened store self.key
  have hrest : f.rest.length = f.content.length - f.pos := by
    simp [File.rest]
  have hne : n ≠ 0 := by omega
  simp only [Agrees, CallOk, if_neg hne, call_read h n hresp, memoryCall,
    Outcome.data.injEq, File.read_fst, HTTPResponse.readAmt]
  constructor
  · rintro ⟨hdata, hstep⟩
    have hfits : f.pos + n ≤ f.content.length := by
      have hloc := hstep.location
      simp only [File.read, List.length_take, Option.some.injEq] at hloc
      omega
    refine ⟨hfits, ?_⟩
    by_contra hclosed
    obtain ⟨hnone, hpos⟩ := not_or.mp hclosed
    simp only [Option.isSome_iff_ne_none, ne_eq, not_not] at hnone
    -- the key was opened again, at the start of the object
    simp only [Key.opened, hnone, Option.some.injEq] at hresp
    subst hresp
    have hdata : store.content.take n ≠ [] := by
      rw [← List.length_pos_iff, List.length_take, ← h.content]
      omega
    have hbody := congrArg List.length (hstep.body _ (if_neg hdata))
    simp only [File.rest, File.pos_read_of_le f n hfits, File.content_read,
      List.length_drop, ← h.content] at hbody
    omega
  · rintro ⟨hfits, hopen⟩
    obtain ⟨_, hsome, hbody⟩ := h.opened_rest hopen
    obtain rfl := Option.some.inj (hsome.symm.trans hresp)
    have hdata : f.rest.take n ≠ [] := by
      rw [← List.length_pos_iff, List.length_take]
      omega
    refine ⟨by rw [hbody], ?_⟩
    exact
      { content := h.content
        location := by rw [File.pos_read_of_le f n hfits]; simp
        size := h.opened_size
        body := by
          intro resp' hresp'
          simp only [hbody, if_neg hdata, Option.some.injEq] at hresp'
          subst hresp'
          simp [File.rest, File.pos_read_of_le f n hfits] }

end

/-! ## Seeking -/

theorem Store.answer_of_lt (k : ℕ) (h : k < store.content.length) :
    store.answer (some (k : ℤ)) = .ok (store.content.drop k) := by
  have hpos : ¬ (k : ℤ) < 0 := by omega
  simp [Store.answer, hpos, h]

theorem Store.answer_of_le (k : ℕ) (h : store.content.length ≤ k) :
    store.answer (some (k : ℤ)) = .error 416 := by
  have hpos : ¬ (k : ℤ) < 0 := by omega
  simp [Store.answer, hpos, Nat.not_lt.mpr h]

namespace KeyFile

variable {self : KeyFile}

theorem run_close :
    (onKey (Key.close true)).run self =
      .ok () { self with key := { self.key with resp := none } } := by
  cases hresp : self.key.resp with
  | some resp => simp [onKey, run_zoom, Key.close, hresp]
  | none => simp [onKey, run_zoom, Key.close, hresp]

/-- Opening at a position in or behind the object puts the key file there. -/
theorem run_reopen (self : KeyFile) (k : ℕ) (hresp : self.key.resp = none)
    (hsize : self.key.size = some store.content.length) :
    ∃ resp, (reopen store k).run self =
      .ok ()
        { key := { resp := some resp, size := some store.content.length }
          location := some (k : ℤ) } ∧
      resp.body = store.content.drop k := by
  rcases Nat.lt_or_ge k store.content.length with hk | hk
  · refine ⟨{ body := store.content.drop k, cachedResponse := [] }, ?_, rfl⟩
    have hopen := Key.run_openRead_ok hresp (Store.answer_of_lt k hk)
    simp only [reopen, run_bind, run_attempt, onKey, run_zoom, hopen]
    rfl
  · refine ⟨{ body := [], cachedResponse := store.errorBody }, ?_,
      (List.drop_of_length_le hk).symm⟩
    have hopen := Key.run_openRead_error hresp (Store.answer_of_le k hk)
    simp only [reopen, run_bind, run_attempt, onKey, run_zoom, hopen, hsize]
    rfl

/-- Opening before the object never ends in an `IOError`. -/
theorem reopen_of_neg {pos : ℤ} (hpos : pos < 0) (hresp : self.key.resp = none) :
    (outcome (fun _ => .done) ((reopen store pos).run self)).1 ≠
      .raised (.ioError "Invalid argument") := by
  cases hrange : store.negativeRange with
  | none =>
      have hbody : store.answer (some pos) = .ok store.content := by
        simp [Store.answer, hpos, hrange]
      have hopen := Key.run_openRead_ok hresp hbody
      simp only [reopen, run_bind, run_attempt, onKey, run_zoom, hopen]
      simp [outcome]
  | some status =>
      have hstatus : store.answer (some pos) = .error status := by
        simp [Store.answer, hpos, hrange]
      have hopen := Key.run_openRead_error hresp hstatus
      simp only [reopen, run_bind, run_attempt, onKey, run_zoom, hopen]
      by_cases h416 : status = 416
      · simp [outcome, h416]
      · simp [outcome, h416]

theorem run_seekEnd_of_empty {pos : ℤ} (h : self.key.size = some 0) :
    (seekEnd store pos).run self = .ok () self := by
  simp only [seekEnd, run_bind, run_get, h, if_pos, run_pure]

theorem run_seekEnd_of_neg {pos : ℤ} {n : ℕ} (h : self.key.size = some n)
    (hn : n ≠ 0) (hneg : (n : ℤ) + pos - 1 < 0) :
    (seekEnd store pos).run self =
      .error (.ioError "Invalid argument") self := by
  simp only [seekEnd, run_bind, run_get, h, if_neg hn, if_pos hneg,
    run_throw_any]

theorem run_seekEnd_of_lt {pos : ℤ} {k : ℕ} (hresp : self.key.resp = none)
    (hsize : self.key.size = some store.content.length)
    (hk : store.content.length + pos - 1 = k) (hlt : k < store.content.length) :
    (seekEnd store pos).run self =
      .ok ()
        { key :=
            { resp := some
                { body := store.content.drop (k + 1), cachedResponse := [] }
              size := some store.content.length }
          location := some ((k + 1 : ℕ) : ℤ) } := by
  have hne : store.content.length ≠ 0 := by omega
  have hpos : ¬ (k : ℤ) < 0 := by omega
  have hopen := Key.run_openRead_ok hresp (Store.answer_of_lt k hlt)
  have hone : 1 ≤ (store.content.drop k).length := by
    rw [List.length_drop]
    omega
  have hread := @Key.run_read_of_le store ⟨store.content.drop k, []⟩ 1
    (some store.content.length) Nat.one_pos hone
  simp only [seekEnd, run_bind, run_get, hsize, if_neg hne, hk, if_neg hpos,
    onKey, run_zoom, hopen, hread, run_modify, List.drop_drop]
  rfl

theorem run_seekEnd_of_le {pos : ℤ} {k : ℕ} (hresp : self.key.resp = none)
    (hsize : self.key.size = some store.content.length)
    (hne : store.content.length ≠ 0)
    (hk : store.content.length + pos - 1 = k) (hle : store.content.length ≤ k) :
    ∃ self', (seekEnd store pos).run self =
      .error (.storageResponseError 416) self' := by
  have hpos : ¬ (k : ℤ) < 0 := by omega
  have hopen := Key.run_openRead_error hresp (Store.answer_of_le k hle)
  simp only [seekEnd, run_bind, run_get, hsize, if_neg hne, hk, if_neg hpos,
    onKey, run_zoom, hopen]
  exact ⟨_, rfl⟩

/-- The key file after `key.close(fast=True)`. -/
def closed (self : KeyFile) : KeyFile :=
  { self with key := { self.key with resp := none } }

theorem call_seek_start (store : Store) (self : KeyFile) (pos : ℤ) :
    self.call store (.seek pos .start) =
      outcome (fun _ => .done)
        ((if pos < 0 then throw (.ioError "Invalid argument")
          else reopen store pos).run self.closed) := by
  simp only [call, seek, run_bind, run_close]
  rfl

theorem call_seek_current (store : Store) {location : ℤ} (pos : ℤ)
    (h : self.location = some location) :
    self.call store (.seek pos .current) =
      outcome (fun _ => .done)
        ((reopen store (pos + location)).run self.closed) := by
  simp only [call, seek, run_bind, run_close, getLocation, run_get, h, run_pure,
    closed]

theorem call_seek_stop (store : Store) (self : KeyFile) (pos : ℤ) :
    self.call store (.seek pos .stop) =
      outcome (fun _ => .done) ((seekEnd store pos).run self.closed) := by
  simp only [call, seek, run_bind, run_close]
  rfl

end KeyFile

section

variable {self : KeyFile} {f : File UInt8}

theorem InStep.closed (h : InStep store self f) : InStep store self.closed f where
  content := h.content
  location := h.location
  size := h.size
  body := by simp [KeyFile.closed]

/-- A key file and a file that were both moved to `k`. -/
theorem inStep_of_body {resp : HTTPResponse} {k : ℕ}
    (hcontent : f.content = store.content)
    (hbody : resp.body = store.content.drop k) :
    InStep store
      { key := { resp := some resp, size := some store.content.length }
        location := some (k : ℤ) } { f with pos := k } where
  content := hcontent
  location := rfl
  size := rfl
  body := by
    intro resp' hresp'
    obtain rfl := Option.some.inj hresp'
    simp [File.rest, hbody, hcontent]

theorem memoryCall_of_neg {pos : ℤ} (whence : Whence)
    (h : f.target pos whence < 0) :
    memoryCall f (.seek pos whence) =
      (.raised (.ioError "Invalid argument"), f) := by
  simp only [memoryCall, File.seek_of_neg h]

theorem memoryCall_of_eq {pos : ℤ} (whence : Whence) {k : ℕ}
    (h : f.target pos whence = k) :
    memoryCall f (.seek pos whence) = (.done, { f with pos := k }) := by
  simp only [memoryCall, File.seek_of_eq h]

/-- Moving to `k` on both sides. -/
theorem agrees_of_reopen {op : FileOp} {k : ℕ} (h : InStep store self f)
    (hcall : self.call store op =
      outcome (fun _ => .done) ((KeyFile.reopen store k).run self.closed))
    (hmemory : memoryCall f op = (.done, { f with pos := k })) :
    Agrees store self f op := by
  obtain ⟨resp, hrun, hbody⟩ :=
    KeyFile.run_reopen self.closed k rfl h.size
  rw [Agrees, hcall, hmemory, hrun]
  exact ⟨rfl, inStep_of_body h.content hbody⟩

variable (h : InStep store self f)

include h

theorem agrees_seek_start (pos : ℤ) : Agrees store self f (.seek pos .start) := by
  have hcall := KeyFile.call_seek_start store self pos
  by_cases hpos : pos < 0
  · rw [if_pos hpos] at hcall
    rw [Agrees, hcall, memoryCall_of_neg .start hpos]
    exact ⟨rfl, h.closed⟩
  · rw [if_neg hpos] at hcall
    obtain ⟨k, rfl⟩ := Int.eq_ofNat_of_zero_le (Int.not_lt.mp hpos)
    exact agrees_of_reopen h hcall (memoryCall_of_eq .start rfl)

theorem agrees_seek_current_iff (pos : ℤ) :
    Agrees store self f (.seek pos .current) ↔ 0 ≤ f.pos + pos := by
  have hcall := KeyFile.call_seek_current store pos h.location
  constructor
  · intro hagrees
    by_contra hneg
    have hraised := hagrees.1
    rw [memoryCall_of_neg .current (Int.not_le.mp hneg), hcall]
      at hraised
    exact KeyFile.reopen_of_neg (by omega) rfl hraised
  · intro hpos
    obtain ⟨k, hk⟩ := Int.eq_ofNat_of_zero_le hpos
    rw [show pos + f.pos = k by omega] at hcall
    exact agrees_of_reopen h hcall (memoryCall_of_eq .current hk)

/-- Seeking from the end of an empty object does not move. -/
theorem agrees_seek_stop_of_empty_iff (pos : ℤ) (hempty : f.content = []) :
    Agrees store self f (.seek pos .stop) ↔ pos = f.pos := by
  have hsize : self.closed.key.size = some 0 := by
    have hsize := h.size
    rw [← h.content, hempty] at hsize
    exact hsize
  have hcall := KeyFile.call_seek_stop store self pos
  rw [KeyFile.run_seekEnd_of_empty hsize] at hcall
  have htarget : f.target pos .stop = pos := by simp [File.target, hempty]
  rcases Int.lt_or_le pos 0 with hneg | hpos
  · have hraised := memoryCall_of_neg .stop (show f.target pos .stop < 0 by omega)
    rw [Agrees, hcall, hraised]
    simp only [outcome, reduceCtorEq, false_and, false_iff]
    omega
  · obtain ⟨k, rfl⟩ := Int.eq_ofNat_of_zero_le hpos
    rw [Agrees, hcall, memoryCall_of_eq .stop htarget]
    constructor
    · rintro ⟨_, hstep⟩
      exact (Option.some.inj (h.location.symm.trans hstep.location)).symm
    · intro hk
      obtain rfl : k = f.pos := by omega
      exact ⟨rfl, h.closed⟩

/-- Seeking from the end of a nonempty object. -/
theorem agrees_seek_stop_iff (pos : ℤ) (hne : f.content ≠ []) :
    Agrees store self f (.seek pos .stop) ↔
      f.content.length + pos < 0 ∨ 0 < f.content.length + pos ∧ pos ≤ 0 := by
  have hcall := KeyFile.call_seek_stop store self pos
  have hclosed := h.closed
  have hlen : f.content.length = store.content.length := by rw [h.content]
  have hsize : store.content.length ≠ 0 := by
    rw [← hlen]
    exact mt List.length_eq_zero_iff.mp hne
  have htarget : f.target pos .stop = f.content.length + pos := rfl
  rcases Int.lt_or_le (store.content.length + pos - 1) 0 with hneg | hpos
  · rw [KeyFile.run_seekEnd_of_neg hclosed.size hsize hneg] at hcall
    rcases Int.lt_or_le (f.target pos .stop) 0 with hbefore | hstart
    · rw [Agrees, hcall, memoryCall_of_neg .stop hbefore]
      exact ⟨fun _ => Or.inl hbefore, fun _ => ⟨rfl, hclosed⟩⟩
    · obtain ⟨k, hk⟩ := Int.eq_ofNat_of_zero_le hstart
      rw [Agrees, hcall, memoryCall_of_eq .stop hk]
      simp only [outcome, reduceCtorEq, false_and, false_iff]
      omega
  · obtain ⟨k, hk⟩ := Int.eq_ofNat_of_zero_le hpos
    have hmoved := memoryCall_of_eq (f := f) .stop
      (k := k + 1) (by rw [htarget]; omega)
    rcases Nat.lt_or_ge k store.content.length with hlt | hge
    · rw [KeyFile.run_seekEnd_of_lt rfl hclosed.size hk hlt] at hcall
      rw [Agrees, hcall, hmoved]
      have hstep := @inStep_of_body store f ⟨store.content.drop (k + 1), []⟩ (k + 1)
        h.content rfl
      exact ⟨fun _ => Or.inr (by omega), fun _ => ⟨rfl, hstep⟩⟩
    · obtain ⟨self', hrun⟩ :=
        KeyFile.run_seekEnd_of_le rfl hclosed.size hsize hk hge
      rw [hrun] at hcall
      rw [Agrees, hcall, hmoved]
      simp only [outcome, reduceCtorEq, false_and, false_iff]
      omega

end

/-! ## Runs -/

section

variable {self : KeyFile} {f : File UInt8}

/-- From a key file in step, the calls that agree are the ones it handles. -/
theorem agrees_iff (h : InStep store self f) (op : FileOp) :
    Agrees store self f op ↔ CallOk self f op := by
  cases op with
  | tell => exact iff_of_true (agrees_tell h) trivial
  | read size =>
      rcases Nat.eq_zero_or_pos size with rfl | hpos
      · exact agrees_read_zero_iff h
      · exact agrees_read_pos_iff h hpos
  | seek pos whence =>
      cases whence with
      | start => exact iff_of_true (agrees_seek_start h pos) trivial
      | current => exact agrees_seek_current_iff h pos
      | stop =>
          by_cases hempty : f.content = []
          · simp only [CallOk, if_pos hempty]
            exact agrees_seek_stop_of_empty_iff h pos hempty
          · simp only [CallOk, if_neg hempty]
            exact agrees_seek_stop_iff h pos hempty

/-- Every call of a run is one that the key file handles, in the state in which
it comes. -/
def CallsOk (store : Store) : KeyFile → File UInt8 → List FileOp → Prop
  | _, _, [] => True
  | self, f, op :: ops =>
      CallOk self f op ∧
        CallsOk store (self.call store op).2 (memoryCall f op).2 ops

instance CallsOk.decide (store : Store) : (self : KeyFile) → (f : File UInt8) →
    (ops : List FileOp) → Decidable (CallsOk store self f ops)
  | _, _, [] => isTrue trivial
  | self, f, op :: ops =>
      have := CallsOk.decide store (self.call store op).2 (memoryCall f op).2 ops
      inferInstanceAs (Decidable (CallOk self f op ∧
        CallsOk store (self.call store op).2 (memoryCall f op).2 ops))

theorem calls_eq_memoryCalls (h : InStep store self f) (ops : List FileOp)
    (hok : CallsOk store self f ops) :
    self.calls store ops = memoryCalls f ops := by
  induction ops generalizing self f with
  | nil => rfl
  | cons op ops ih =>
      obtain ⟨hout, hstep⟩ := (agrees_iff h op).mpr hok.1
      rw [KeyFile.calls, memoryCalls, hout, ih hstep hok.2]

end

/-- The key file that `KeyFile(key)` makes of an unopened key. -/
def KeyFile.opened (store : Store) : KeyFile :=
  ((KeyFile.init store).run KeyFile.unopened).state

/-- The object in memory, at its start. -/
def Store.file (store : Store) : File UInt8 where
  content := store.content
  pos := 0

theorem inStep_opened (store : Store) :
    InStep store (KeyFile.opened store) store.file where
  content := rfl
  location := rfl
  size := rfl
  body := by
    intro resp hresp
    obtain rfl := Option.some.inj hresp
    rfl

/-- A key file gives what a file in memory gives in every run of calls that it
handles. -/
theorem keyFile_refines_file (store : Store) (ops : List FileOp)
    (hok : CallsOk store (KeyFile.opened store) store.file ops) :
    (KeyFile.opened store).calls store ops = memoryCalls store.file ops :=
  calls_eq_memoryCalls (inStep_opened store) ops hok

/-- An object of three bytes. -/
def threeBytes : Store where
  content := [1, 2, 3]
  errorBody := []
  negativeRange := none

/-- The last byte, and then the bytes in front of it. -/
theorem keyFile_refines_file_three_bytes :
    (KeyFile.opened threeBytes).calls threeBytes
        [.seek (-1) .stop, .tell, .read 1, .seek (-2) .current, .read 2, .tell] =
      memoryCalls threeBytes.file
        [.seek (-1) .stop, .tell, .read 1, .seek (-2) .current, .read 2, .tell] :=
  keyFile_refines_file threeBytes _ (by decide)

/-- A read that asks for more than there is moves the key file too far. -/
theorem keyFile_passes_end :
    ¬ ∀ (store : Store) (ops : List FileOp),
      (KeyFile.opened store).calls store ops = memoryCalls store.file ops := by
  intro hall
  have hrun := hall threeBytes [.read 5, .tell]
  exact absurd hrun (by decide)

end Boto.S3
