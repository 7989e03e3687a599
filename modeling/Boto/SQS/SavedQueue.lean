import Boto.SQS.Transparency
import Mathlib.Data.List.Induction

/-!
# Saving a queue to a file

`save_to_file` and `load_from_file` of `boto/sqs/queue.py`.  The separator is written behind a body,
but it is looked for as a line of its own; and an empty message ends the loop that empties the
queue.
-/

namespace Boto.SQS

open Xml (Node)

/-! ## The queue and its service -/

/-- The body at the service of a message with a text. -/
def storedBody (body : Text) : Text :=
  Base64.encode (encodeUtf8 body)

/-- A queue of messages: the text of each under its receipt handle. -/
abbrev Queue := OrderedDict Text Text

/-- A service: which message a read returns, what it tells of it besides its body, and which bodies
it takes. -/
structure Service where
  pick : ℕ → ℕ
  envelope : Text → Envelope
  accepts : Text → Bool

namespace Service

/-- The message that a read returns, if the queue has any. -/
def picked (service : Service) (i : ℕ) (queue : Queue) : Option (Text × Text) :=
  queue.items[service.pick i % queue.items.length]?

/-- The answer to a read. -/
def answer (service : Service) (i : ℕ) (queue : Queue) : Node :=
  match service.picked i queue with
  | some item =>
      { service.envelope item.1 with receiptHandle := item.1 }.reply (storedBody item.2)
  | none => emptyReply []

end Service

/-- `delete_message`. -/
def deleteMessage (message : Received) (queue : Queue) : Queue :=
  match message.receiptHandle with
  | some handle => queue.erase handle
  | none => queue

/-! ## Saving -/

/-- `fp.write` of a file of text. -/
def writeTo (file : Text) : Body → Except PyError Text
  | .text value => .ok (file ++ value)
  | .bytes _ => .error (.typeError "string argument expected, got 'bytes'")
  | .headers _ => .error (.typeError "string argument expected, got 'dict'")

/-- `len(message)`. -/
def messageLength (message : Received) : Except PyError ℕ :=
  (MessageClass.message.encode message.body).map List.length

/-- A file, the number that `save_to_file` returns, and what is in the queue then. -/
structure Saved where
  file : Text
  count : ℕ
  queue : Queue

/-- The loop of `save_to_file` after some reads, if there are no more than the given number. -/
def saveLoop (service : Service) (sep : Text) : ℕ → ℕ → Saved → Except PyError (Option Saved)
  | 0, _, _ => .ok none
  | fuel + 1, i, saved => do
      match ← read .message (service.answer i saved.queue) with
      | none => return some saved
      | some message =>
          -- The truth value of a message is that of its length.
          if (← messageLength message) = 0 then return some saved
          else
            let file ← writeTo saved.file message.body
            let file := if sep ≠ [] then file ++ sep else file
            saveLoop service sep fuel (i + 1)
              ⟨file, saved.count + 1, deleteMessage message saved.queue⟩

/-- `save_to_file`. -/
def saveToFile (service : Service) (sep : Text) (fuel : ℕ) (queue : Queue) :
    Except PyError (Option Saved) :=
  saveLoop service sep fuel 0 ⟨[], 0, queue⟩

/-! ## Loading -/

/-- The body that is being read, how many messages were written, and what the service has of
them. -/
structure Loading where
  body : Text
  count : ℕ
  written : List Text

/-- A line in `load_from_file`. -/
def loadLine (accepts : Text → Bool) (sep : Text) (loading : Loading) (line : Text) :
    Except PyError Loading :=
  if line = sep then
    (write accepts .message (.text loading.body)).map fun stored =>
      ⟨[], loading.count + 1, loading.written ++ [stored]⟩
  else .ok { loading with body := loading.body ++ line }

/-- `load_from_file`. -/
def loadFromFile (accepts : Text → Bool) (sep file : Text) : Except PyError Loading :=
  (readlines file).foldlM (loadLine accepts sep) ⟨[], 0, []⟩

/-! ## What should be loaded -/

/-- The texts of the messages in the order in which the service returns them, if each is deleted
after it was returned. -/
inductive Drains (service : Service) : ℕ → Queue → List Text → Prop
  | nil {i : ℕ} {queue : Queue} (hempty : queue.items = []) : Drains service i queue []
  | cons {i : ℕ} {queue : Queue} {item : Text × Text} {bodies : List Text}
      (hpicked : service.picked i queue = some item)
      (hrest : Drains service (i + 1) (queue.erase item.1) bodies) :
      Drains service i queue (item.2 :: bodies)

/-- The queue is saved, and what was saved is loaded. -/
def SavesAndLoads (sep : Text) (queue : Queue) : Prop :=
  ∀ service : Service, (∀ item ∈ queue.items, service.accepts (storedBody item.2) = true) →
    ∃ bodies file loading, Drains service 0 queue bodies ∧
      (∃ enough, ∀ fuel, enough ≤ fuel → saveToFile service sep fuel queue =
        .ok (some ⟨file, queue.items.length, .empty⟩)) ∧
      loadFromFile service.accepts sep file = .ok loading ∧
        loading.count = queue.items.length ∧ loading.written = bodies.map storedBody

/-- A line that ends in a newline. -/
def IsSeparator (sep : Text) : Prop :=
  ∃ front, '\n' ∉ front ∧ sep = front ++ ['\n']

/-! ## Reading and deleting -/

section

variable {service : Service} {sep : Text} {i : ℕ} {queue : Queue} {item : Text × Text}
  {bodies : List Text}

theorem storedBody_eq_nil_iff {body : Text} : storedBody body = [] ↔ body = [] := by
  constructor
  · intro hnil
    have hdecode := Base64.decode_encode (encodeUtf8 body)
    rw [storedBody] at hnil
    rw [hnil] at hdecode
    have hbytes : encodeUtf8 body = [] := (Option.some.inj hdecode).symm
    have hle := length_encodeUtf8_ge body
    rw [hbytes] at hle
    exact List.eq_nil_of_length_eq_zero (Nat.le_zero.mp hle)
  · rintro rfl
    rfl

/-- A message is read with its text and its receipt handle. -/
theorem read_answer (hpicked : service.picked i queue = some item) :
    ∃ message, read .message (service.answer i queue) = .ok (some message) ∧
      message.body = .text item.2 ∧ message.receiptHandle = some item.1 := by
  have hdecode : MessageClass.message.decode (.text (storedBody item.2)) =
      .ok (.text item.2) := by
    rw [MessageClass.decode, storedBody, decodeBase64_encode_text]
  rw [Service.answer, hpicked]
  exact read_reply _ hdecode

theorem picked_eq_none_iff : service.picked i queue = none ↔ queue.items = [] := by
  rw [Service.picked, List.getElem?_eq_none_iff]
  constructor
  · intro hle
    by_contra hne
    have hpos := List.length_pos_of_ne_nil hne
    exact absurd (Nat.mod_lt (service.pick i) hpos) (Nat.not_lt.mpr hle)
  · intro hnil
    rw [hnil]
    exact Nat.zero_le _

theorem read_empty (cls : MessageClass) (requestId : Text) :
    read cls (emptyReply requestId) = .ok none := by
  have hid : Reads (methods cls) "root".toList .resultSet
      [.leaf "RequestId".toList requestId] [] [] := Reads.leaf (by decide) rfl rfl
  have hresult := Reads.skipped (by decide : "root".toList ≠ "ReceiveMessageResult".toList) rfl
    (Reads.nil (methods cls) "root".toList .resultSet []) fun _ => rfl
  have hmetadata := Reads.skipped (by decide : "root".toList ≠ "ResponseMetadata".toList) rfl
    hid fun _ => rfl
  have hparse := Reads.parse (Reads.skipped
    (by decide : "root".toList ≠ "ReceiveMessageResponse".toList) rfl
      (hresult.cons hmetadata) fun _ => rfl)
  rw [read, emptyReply, hparse]
  rfl

theorem mem_of_picked (hpicked : service.picked i queue = some item) : item ∈ queue.items :=
  List.mem_of_getElem? hpicked

/-- What is left is everything but the message that is deleted. -/
theorem perm_erase (hitem : item ∈ queue.items) :
    queue.items.Perm (item :: (queue.erase item.1).items) := by
  obtain ⟨before, after, hitems⟩ := List.append_of_mem hitem
  rw [OrderedDict.items_erase hitems, hitems]
  exact List.perm_middle

theorem length_erase (hitem : item ∈ queue.items) :
    queue.items.length = (queue.erase item.1).items.length + 1 :=
  (perm_erase hitem).length_eq

theorem Drains.perm (hdrains : Drains service i queue bodies) :
    bodies.Perm (queue.items.map Prod.snd) := by
  induction hdrains with
  | nil hempty =>
      rw [hempty]
      exact List.Perm.nil
  | cons hpicked _ ih =>
      exact (ih.cons _).trans ((perm_erase (mem_of_picked hpicked)).map Prod.snd).symm

theorem Drains.unique {bodies' : List Text} (hdrains : Drains service i queue bodies)
    (hdrains' : Drains service i queue bodies') : bodies = bodies' := by
  induction hdrains generalizing bodies' with
  | nil hempty =>
      cases hdrains' with
      | nil _ => rfl
      | cons hpicked _ =>
          rw [picked_eq_none_iff.mpr hempty] at hpicked
          cases hpicked
  | cons hpicked _ ih =>
      cases hdrains' with
      | nil hempty =>
          rw [picked_eq_none_iff.mpr hempty] at hpicked
          cases hpicked
      | cons hpicked' hrest' =>
          rw [hpicked] at hpicked'
          cases hpicked'
          rw [ih hrest']

/-! ## The loops -/

/-- A message that is not empty is saved and deleted. -/
theorem saveLoop_picked (hsep : sep ≠ []) (hpicked : service.picked i queue = some item)
    (hne : item.2 ≠ []) (fuel : ℕ) (file : Text) (count : ℕ) :
    saveLoop service sep (fuel + 1) i ⟨file, count, queue⟩ =
      saveLoop service sep fuel (i + 1)
        ⟨file ++ (item.2 ++ sep), count + 1, queue.erase item.1⟩ := by
  obtain ⟨message, hread, hbody, hhandle⟩ := read_answer hpicked
  have hlength : messageLength message = .ok (storedBody item.2).length := by
    rw [messageLength, hbody]
    rfl
  have hpos : (storedBody item.2).length ≠ 0 := fun hzero =>
    hne (storedBody_eq_nil_iff.mp (List.eq_nil_of_length_eq_zero hzero))
  rw [saveLoop]
  simp only [hread, hlength, bind, Except.bind, if_neg hpos, hbody, writeTo, if_pos hsep,
    deleteMessage, hhandle, List.append_assoc]

/-- An empty message ends the loop. -/
theorem saveLoop_empty (hpicked : service.picked i queue = some item) (hnil : item.2 = [])
    (fuel : ℕ) (file : Text) (count : ℕ) :
    saveLoop service sep (fuel + 1) i ⟨file, count, queue⟩ =
      .ok (some ⟨file, count, queue⟩) := by
  obtain ⟨message, hread, hbody, -⟩ := read_answer hpicked
  have hlength : messageLength message = .ok 0 := by
    rw [messageLength, hbody, hnil]
    rfl
  rw [saveLoop]
  simp only [hread, hlength, bind, Except.bind, if_true]
  rfl

theorem saveLoop_none (hpicked : service.picked i queue = none) (fuel : ℕ) (file : Text)
    (count : ℕ) :
    saveLoop service sep (fuel + 1) i ⟨file, count, queue⟩ =
      .ok (some ⟨file, count, queue⟩) := by
  rw [saveLoop, Service.answer, hpicked]
  simp only [read_empty, bind, Except.bind]
  rfl

/-- A queue without empty messages is saved. -/
theorem saveLoop_spec (hsep : sep ≠ []) {fuel : ℕ} (hne : ∀ item ∈ queue.items, item.2 ≠ [])
    (hfuel : queue.items.length < fuel) (file : Text) (count : ℕ) :
    ∃ bodies, Drains service i queue bodies ∧
      saveLoop service sep fuel i ⟨file, count, queue⟩ =
        .ok (some ⟨file ++ bodies.flatMap (· ++ sep), count + bodies.length, .empty⟩) := by
  induction fuel generalizing i queue file count with
  | zero => exact absurd hfuel (Nat.not_lt_zero _)
  | succ fuel ih =>
      cases hpicked : service.picked i queue with
      | none =>
          have hempty := picked_eq_none_iff.mp hpicked
          obtain rfl : queue = .empty := OrderedDict.ext hempty
          refine ⟨[], .nil rfl, ?_⟩
          rw [saveLoop_none hpicked, List.flatMap_nil, List.append_nil]
          rfl
      | some item =>
          have hitem := mem_of_picked hpicked
          have hlength := length_erase hitem
          have hrest : ∀ other ∈ (queue.erase item.1).items, other.2 ≠ [] := fun other hother =>
            hne other ((perm_erase hitem).mem_iff.mpr (List.mem_cons_of_mem _ hother))
          obtain ⟨bodies, hdrains, hloop⟩ := ih hrest (by omega) (file ++ (item.2 ++ sep)) (count + 1)
          refine ⟨item.2 :: bodies, .cons hpicked hdrains, ?_⟩
          rw [saveLoop_picked hsep hpicked (hne item hitem), hloop, List.flatMap_cons,
            List.append_assoc file, List.length_cons, Nat.add_assoc, Nat.add_comm 1]

/-- Empty messages stay in the queue. -/
theorem mem_of_saveLoop (hsep : sep ≠ []) {fuel : ℕ} {saved saved' : Saved}
    (hloop : saveLoop service sep fuel i saved = .ok (some saved')) (hitem : item ∈ saved.queue.items)
    (hnil : item.2 = []) : item ∈ saved'.queue.items := by
  induction fuel generalizing i saved with
  | zero => cases hloop
  | succ fuel ih =>
      obtain ⟨file, count, queue⟩ := saved
      cases hpicked : service.picked i queue with
      | none =>
          rw [saveLoop_none hpicked] at hloop
          cases hloop
          exact hitem
      | some other =>
          by_cases hother : other.2 = []
          · rw [saveLoop_empty hpicked hother] at hloop
            cases hloop
            exact hitem
          · rw [saveLoop_picked hsep hpicked hother] at hloop
            refine ih hloop ?_
            have hmem := (perm_erase (mem_of_picked hpicked)).mem_iff.mp hitem
            refine (List.mem_cons.mp hmem).resolve_left ?_
            rintro rfl
            exact hother hnil

end

/-! ## Lines of the file -/

section

variable {sep : Text} {accepts : Text → Bool} {front text body : Text} {bodies : List Text}

/-- A text ends where a line does. -/
def EndsLine (text : Text) : Prop :=
  text = [] ∨ text.getLast? = some '\n'

instance : DecidablePred EndsLine := fun text =>
  inferInstanceAs (Decidable (text = [] ∨ text.getLast? = some '\n'))

theorem flatten_readlines (text : Text) : (readlines text).flatten = text := by
  induction text with
  | nil => rfl
  | cons c text ih =>
      rw [readlines]
      split
      · rw [List.flatten_cons, ih]
        rfl
      · split
        · rename_i hlines
          rw [hlines] at ih
          rw [← ih]
          rfl
        · rename_i line lines hlines
          rw [hlines, List.flatten_cons] at ih
          rw [List.flatten_cons, List.cons_append, ih]

theorem exists_readlines (hne : text ≠ []) : ∃ line lines, readlines text = line :: lines := by
  apply List.exists_cons_of_ne_nil
  intro hnil
  have hflat := flatten_readlines text
  rw [hnil] at hflat
  exact hne hflat.symm

theorem readlines_cons {c : Char} (hc : c ≠ '\n') {line : Text} {lines : List Text}
    (hlines : readlines text = line :: lines) : readlines (c :: text) = (c :: line) :: lines := by
  rw [readlines, if_neg hc, hlines]

theorem readlines_append (hfront : EndsLine front) (text : Text) :
    readlines (front ++ text) = readlines front ++ readlines text := by
  induction front with
  | nil => rfl
  | cons c front ih =>
      have hlast := hfront.resolve_left (List.cons_ne_nil c front)
      by_cases hc : c = '\n'
      · have hfront : EndsLine front := by
          cases front with
          | nil => exact .inl rfl
          | cons d front => exact .inr (by rwa [List.getLast?_cons_cons] at hlast)
        rw [List.cons_append, readlines, if_pos hc, readlines, if_pos hc, ih hfront]
        rfl
      · cases front with
        | nil => exact absurd (Option.some.inj hlast) hc
        | cons d front =>
            rw [List.getLast?_cons_cons] at hlast
            obtain ⟨line, lines, hlines⟩ := exists_readlines (List.cons_ne_nil d front)
            have hall := ih (.inr hlast)
            rw [hlines] at hall
            rw [List.cons_append, readlines_cons hc hall, readlines_cons hc hlines]
            rfl

/-- A text is some lines and the start of another one. -/
theorem exists_endsLine (text : Text) :
    ∃ front last, text = front ++ last ∧ EndsLine front ∧ '\n' ∉ last := by
  induction text using List.reverseRecOn with
  | nil => exact ⟨[], [], rfl, .inl rfl, List.not_mem_nil⟩
  | append_singleton text c ih =>
      obtain ⟨front, last, rfl, hfront, hlast⟩ := ih
      by_cases hc : c = '\n'
      · subst hc
        refine ⟨front ++ last ++ ['\n'], [], (List.append_nil _).symm, .inr ?_, List.not_mem_nil⟩
        exact List.getLast?_concat
      · refine ⟨front, last ++ [c], List.append_assoc _ _ _, hfront, ?_⟩
        rw [List.mem_append, List.mem_singleton, not_or]
        exact ⟨hlast, Ne.symm hc⟩

/-- The lines of a body with its separator, if it ends with a line. -/
theorem readlines_body_of_endsLine (hsep : IsSeparator sep) (hbody : EndsLine body) (text : Text) :
    readlines (body ++ sep ++ text) = readlines body ++ sep :: readlines text := by
  obtain ⟨front, hfront, rfl⟩ := hsep
  rw [List.append_assoc, readlines_append hbody, List.append_assoc, List.singleton_append,
    readlines_line hfront]

/-- The lines of a body with its separator, if it ends within a line. -/
theorem readlines_body_of_not_endsLine (hsep : IsSeparator sep) (hbody : ¬EndsLine body)
    (text : Text) : ∃ lines line, readlines (body ++ sep ++ text) =
      lines ++ line :: readlines text ∧ (∀ line ∈ lines, line ∈ readlines body) ∧ line ≠ sep := by
  obtain ⟨start, last, rfl, hstart, hlast⟩ := exists_endsLine body
  obtain ⟨front, hfront, rfl⟩ := hsep
  have hne : last ≠ [] := by
    rintro rfl
    rw [List.append_nil] at hbody
    exact hbody hstart
  refine ⟨readlines start, last ++ (front ++ ['\n']), ?_, fun line hline => ?_, fun heq => ?_⟩
  · have hline : '\n' ∉ last ++ front := by
      rw [List.mem_append, not_or]
      exact ⟨hlast, hfront⟩
    have hassoc : start ++ last ++ (front ++ ['\n']) ++ text =
        start ++ ((last ++ front) ++ '\n' :: text) := by simp
    rw [hassoc, readlines_append hstart, readlines_line hline, List.append_assoc]
  · rw [readlines_append hstart]
    exact List.mem_append_left _ hline
  · exact hne (List.append_left_eq_self.mp heq)

/-- As many lines are separators as there are bodies that end with a line. -/
theorem count_separators (hsep : IsSeparator sep)
    (hlines : ∀ body ∈ bodies, sep ∉ readlines body) :
    (readlines (bodies.flatMap (· ++ sep))).count sep =
      bodies.countP fun body => decide (EndsLine body) := by
  induction bodies with
  | nil => rfl
  | cons body bodies ih =>
      obtain ⟨hbody, hlines⟩ := List.forall_mem_cons.mp hlines
      rw [List.flatMap_cons]
      by_cases hends : EndsLine body
      · rw [readlines_body_of_endsLine hsep hends, List.count_append, List.count_cons_self,
          ih hlines, @List.countP_cons_of_pos _ (fun body => decide (EndsLine body)) body bodies
            (decide_eq_true hends), List.count_eq_zero_of_not_mem hbody, Nat.zero_add]
      · obtain ⟨lines, line, hread, hsub, hne⟩ := readlines_body_of_not_endsLine hsep hends
          (bodies.flatMap (· ++ sep))
        have hnot : sep ∉ lines := fun hmem => hbody (hsub sep hmem)
        have hneg : ¬decide (EndsLine body) = true := mt of_decide_eq_true hends
        rw [hread, List.count_append, List.count_cons_of_ne hne, ih hlines,
          @List.countP_cons_of_neg _ (fun body => decide (EndsLine body)) body bodies hneg,
          List.count_eq_zero_of_not_mem hnot, Nat.zero_add]

/-! ## Loading the file -/

/-- A message is written for each separator. -/
theorem count_of_loadLines {lines : List Text} {loading loading' : Loading}
    (hload : lines.foldlM (loadLine accepts sep) loading = .ok loading') :
    loading'.count = loading.count + lines.count sep := by
  induction lines generalizing loading with
  | nil =>
      cases hload
      rfl
  | cons line lines ih =>
      rw [List.foldlM_cons] at hload
      obtain ⟨between, hline, hrest⟩ := except_bind_eq_ok.mp hload
      rw [ih hrest]
      rw [loadLine] at hline
      split at hline
      · rename_i heq
        subst heq
        cases hwrite : write accepts .message (.text loading.body) with
        | error e =>
            rw [hwrite] at hline
            cases hline
        | ok stored =>
            rw [hwrite] at hline
            cases hline
            rw [List.count_cons_self]
            dsimp only
            omega
      · rename_i hne
        cases hline
        rw [List.count_cons_of_ne hne]

/-- Lines that are no separators are collected. -/
theorem loadLines_of_notMem {lines : List Text} (hlines : sep ∉ lines) (loading : Loading) :
    lines.foldlM (loadLine accepts sep) loading =
      .ok { loading with body := loading.body ++ lines.flatten } := by
  induction lines generalizing loading with
  | nil =>
      rw [List.flatten_nil, List.append_nil]
      rfl
  | cons line lines ih =>
      obtain ⟨hline, hlines⟩ := not_or.mp (mt List.mem_cons.mpr hlines)
      rw [List.foldlM_cons, loadLine, if_neg (Ne.symm hline)]
      change lines.foldlM (loadLine accepts sep) _ = _
      rw [ih hlines, List.flatten_cons, List.append_assoc]

/-- Bodies that end with a line are loaded. -/
theorem loadLines_bodies (hsep : IsSeparator sep) (hlines : ∀ body ∈ bodies, sep ∉ readlines body)
    (hends : ∀ body ∈ bodies, EndsLine body)
    (haccepts : ∀ body ∈ bodies, accepts (storedBody body) = true) (count : ℕ)
    (written : List Text) :
    (readlines (bodies.flatMap (· ++ sep))).foldlM (loadLine accepts sep) ⟨[], count, written⟩ =
      .ok ⟨[], count + bodies.length, written ++ bodies.map storedBody⟩ := by
  induction bodies generalizing count written with
  | nil =>
      rw [List.map_nil, List.append_nil]
      rfl
  | cons body bodies ih =>
      obtain ⟨hbody, hlines⟩ := List.forall_mem_cons.mp hlines
      obtain ⟨hend, hends⟩ := List.forall_mem_cons.mp hends
      obtain ⟨haccept, haccepts⟩ := List.forall_mem_cons.mp haccepts
      have hwrite : write accepts .message (.text body) = .ok (storedBody body) :=
        if_pos haccept
      have hline : loadLine accepts sep ⟨body, count, written⟩ sep =
          .ok ⟨[], count + 1, written ++ [storedBody body]⟩ := by
        rw [loadLine, if_pos rfl, hwrite]
        rfl
      rw [List.flatMap_cons, readlines_body_of_endsLine hsep hend, List.foldlM_append,
        loadLines_of_notMem hbody, flatten_readlines, List.nil_append]
      change (sep :: readlines (bodies.flatMap (· ++ sep))).foldlM (loadLine accepts sep)
        ⟨body, count, written⟩ = _
      rw [List.foldlM_cons, hline]
      change (readlines (bodies.flatMap (· ++ sep))).foldlM (loadLine accepts sep) _ = _
      rw [ih hlines hends haccepts, List.append_assoc, List.length_cons, Nat.add_assoc,
        Nat.add_comm 1]
      rfl

end

/-! ## Saving and loading -/

section

variable {sep : Text} {queue : Queue}

theorem IsSeparator.ne_nil (hsep : IsSeparator sep) : sep ≠ [] := by
  obtain ⟨front, -, rfl⟩ := hsep
  exact List.append_ne_nil_of_right_ne_nil _ (List.cons_ne_nil _ _)

/-- Messages that end with a line, and so are not empty, are saved and loaded. -/
theorem savesAndLoads_of_endsLine (hsep : IsSeparator sep)
    (hlines : ∀ item ∈ queue.items, sep ∉ readlines item.2)
    (hends : ∀ item ∈ queue.items, item.2.getLast? = some '\n') : SavesAndLoads sep queue := by
  intro service haccepts
  have hne : ∀ item ∈ queue.items, item.2 ≠ [] := by
    intro item hitem hnil
    have hlast := hends item hitem
    rw [hnil] at hlast
    cases hlast
  obtain ⟨bodies, hdrains, hloop⟩ := @saveLoop_spec service sep 0 queue hsep.ne_nil
    (queue.items.length + 1) hne (Nat.lt_succ_self _) [] 0
  have hperm := hdrains.perm
  have hlength : bodies.length = queue.items.length := by
    rw [hperm.length_eq, List.length_map]
  have hall : ∀ {p : Text → Prop}, (∀ item ∈ queue.items, p item.2) → ∀ body ∈ bodies, p body := by
    intro p hp body hbody
    obtain ⟨item, hitem, rfl⟩ := List.mem_map.mp (hperm.mem_iff.mp hbody)
    exact hp item hitem
  have hload := @loadLines_bodies sep service.accepts bodies hsep (hall hlines)
    (hall fun item hitem => .inr (hends item hitem)) (hall haccepts) 0 []
  refine ⟨bodies, bodies.flatMap (· ++ sep), _, hdrains, ⟨queue.items.length + 1, ?_⟩, hload, ?_, rfl⟩
  · intro fuel hfuel
    obtain ⟨bodies', hdrains', hloop'⟩ := @saveLoop_spec service sep 0 queue hsep.ne_nil fuel hne
      hfuel [] 0
    obtain rfl := hdrains'.unique hdrains
    rw [saveToFile, hloop', hlength, Nat.zero_add]
    rfl
  · rw [← hlength]
    exact Nat.zero_add _

/-- Only such messages are saved and loaded. -/
theorem endsLine_of_savesAndLoads (hsep : IsSeparator sep)
    (hlines : ∀ item ∈ queue.items, sep ∉ readlines item.2) (hsaves : SavesAndLoads sep queue) :
    ∀ item ∈ queue.items, item.2.getLast? = some '\n' := by
  obtain ⟨bodies, file, loading, hdrains, ⟨enough, hsave⟩, hload, hcount, -⟩ :=
    hsaves ⟨fun _ => 0, fun _ => plainEnvelope, fun _ => true⟩ fun _ _ => rfl
  have hne : ∀ item ∈ queue.items, item.2 ≠ [] := by
    intro item hitem hnil
    have hmem := mem_of_saveLoop hsep.ne_nil (hsave enough (Nat.le_refl _)) hitem hnil
    exact absurd hmem List.not_mem_nil
  obtain ⟨bodies', hdrains', hloop⟩ := @saveLoop_spec _ sep 0 queue hsep.ne_nil
    (enough + queue.items.length + 1) hne (by omega) [] 0
  have hfile := hsave (enough + queue.items.length + 1) (by omega)
  rw [saveToFile, hloop, List.nil_append] at hfile
  have hperm := hdrains'.perm
  obtain rfl : bodies'.flatMap (· ++ sep) = file :=
    congrArg Saved.file (Option.some.inj (Except.ok.inj hfile))
  have hends := count_of_loadLines hload
  have hnot : ∀ body ∈ bodies', sep ∉ readlines body := by
    intro body hbody
    obtain ⟨item, hitem, rfl⟩ := List.mem_map.mp (hperm.mem_iff.mp hbody)
    exact hlines item hitem
  rw [count_separators hsep hnot, Nat.zero_add, hcount, ← List.length_map, ← hperm.length_eq] at hends
  intro item hitem
  have hmem : item.2 ∈ bodies' := hperm.mem_iff.mpr (List.mem_map_of_mem hitem)
  have hend := List.countP_eq_length.mp hends.symm item.2 hmem
  exact (of_decide_eq_true hend).resolve_left (hne item hitem)

/-- A queue is saved and loaded exactly if every message ends with a newline. -/
theorem savesAndLoads_iff (hsep : IsSeparator sep)
    (hlines : ∀ item ∈ queue.items, sep ∉ readlines item.2) :
    SavesAndLoads sep queue ↔ ∀ item ∈ queue.items, item.2.getLast? = some '\n' := by
  constructor
  · exact endsLine_of_savesAndLoads hsep hlines
  · exact savesAndLoads_of_endsLine hsep hlines

end

/-- A queue with a message. -/
def oneMessage (body : Text) : Queue :=
  ⟨[("h".toList, body)], List.nodup_singleton _⟩

theorem savesAndLoads_line : SavesAndLoads ['\n'] (oneMessage "a\n".toList) := by
  have hlines : ∀ item ∈ (oneMessage "a\n".toList).items, ['\n'] ∉ readlines item.2 :=
    List.forall_mem_singleton.mpr (by decide)
  refine (savesAndLoads_iff ⟨[], List.not_mem_nil, rfl⟩ hlines).mpr ?_
  exact List.forall_mem_singleton.mpr rfl

/-- A message without a newline at its end is not loaded, and an empty one is not saved. -/
theorem not_savesAndLoads_word :
    ¬SavesAndLoads ['\n'] (oneMessage "a".toList) ∧ ¬SavesAndLoads ['\n'] (oneMessage []) := by
  have hnone : ∀ body : Text, ['\n'] ∉ readlines body → body.getLast? ≠ some '\n' →
      ¬SavesAndLoads ['\n'] (oneMessage body) := by
    intro body hlines hlast hsaves
    have hall : ∀ item ∈ (oneMessage body).items, ['\n'] ∉ readlines item.2 :=
      List.forall_mem_singleton.mpr hlines
    have hends := endsLine_of_savesAndLoads ⟨[], List.not_mem_nil, rfl⟩ hall hsaves
    exact hlast (hends ("h".toList, body) List.mem_cons_self)
  exact ⟨hnone _ (by decide) (by decide), hnone _ (by decide) (by decide)⟩

end Boto.SQS
