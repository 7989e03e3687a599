import Boto.Python
import Boto.Support.Programs

/-!
# Batch writes

`BatchTable` of `boto/dynamodb2/table.py`: operations are buffered and sent 25 at
a time, and what the service gives back as unprocessed is sent again at the end.
The service is a function of the number of the request and of its entries; each
request is recorded with its answer.
-/

namespace Boto.DynamoDB2

open EStateM

/-- What a `Table` makes of the data of an item (`Item.prepare_full`) and of the
keyword arguments of a delete (`_encode_keys`). -/
structure Encoding (π δ ρ κ : Type) where
  prepareFull : π → ρ
  encodeKeys : δ → κ

/-- An entry of a `batch_write_item` request. -/
inductive Entry (ρ κ : Type)
  | putRequest (item : ρ)
  | deleteRequest (key : κ)
  deriving DecidableEq, Repr

/-- What `batch_write_item` does with a request: it raises, or it answers, having
processed some of the entries. -/
inductive Answer (ρ κ : Type)
  | raises (error : PyError)
  | answered (processed unprocessedItems : List (Entry ρ κ))
  deriving DecidableEq, Repr

/-- The entries that an answer acknowledges. -/
def Answer.acknowledged {ρ κ : Type} : Answer ρ κ → List (Entry ρ κ)
  | .raises _ => []
  | .answered processed _ => processed

/-- The request did not raise. -/
def Answer.isAnswered {ρ κ : Type} : Answer ρ κ → Bool
  | .raises _ => false
  | .answered _ _ => true

/-- A request, with what was unprocessed when it was made, and its answer. -/
structure Exchange (ρ κ : Type) where
  resent : Bool
  waiting : List (Entry ρ κ)
  entries : List (Entry ρ κ)
  answer : Answer ρ κ
  deriving DecidableEq, Repr

section

variable {ρ κ : Type}

/-- The entries that the answers of a log acknowledge, in their order. -/
def acknowledged (log : List (Exchange ρ κ)) : List (Entry ρ κ) :=
  log.flatMap fun exchange => exchange.answer.acknowledged

theorem acknowledged_answered (log : List (Exchange ρ κ))
    {exchange : Exchange ρ κ} {processed unprocessedItems : List (Entry ρ κ)}
    (hanswer : exchange.answer = .answered processed unprocessedItems) :
    acknowledged (log ++ [exchange]) = acknowledged log ++ processed := by
  simp [acknowledged, hanswer, Answer.acknowledged]

theorem acknowledged_raises (log : List (Exchange ρ κ))
    {exchange : Exchange ρ κ} {error : PyError}
    (hanswer : exchange.answer = .raises error) :
    acknowledged (log ++ [exchange]) = acknowledged log := by
  simp [acknowledged, hanswer, Answer.acknowledged]

end

/-- The attributes of `BatchTable`, with the requests made so far. -/
structure BatchTable (π δ ρ κ : Type) where
  toPut : List π
  toDelete : List δ
  unprocessed : List (Entry ρ κ)
  log : List (Exchange ρ κ)
  deriving DecidableEq, Repr

/-- Why a call has not returned: it raised, or a loop is not done after its number
of rounds. -/
inductive Halt
  | raised (error : PyError)
  | running
  deriving DecidableEq, Repr

namespace BatchTable

variable {π δ ρ κ : Type}

/-- `BatchTable.__init__`. -/
def init : BatchTable π δ ρ κ where
  toPut := []
  toDelete := []
  unprocessed := []
  log := []

/-- The entries that `flush` makes of what is buffered: the puts come first. -/
def batchData (table : Encoding π δ ρ κ) (self : BatchTable π δ ρ κ) :
    List (Entry ρ κ) :=
  (self.toPut.map fun put => .putRequest (table.prepareFull put)) ++
    self.toDelete.map fun delete => .deleteRequest (table.encodeKeys delete)

/-- `should_flush`. -/
def shouldFlush (self : BatchTable π δ ρ κ) : Bool :=
  self.toPut.length + self.toDelete.length == 25

section

variable (serve : ℕ → List (Entry ρ κ) → Answer ρ κ)

/-- The record of a request made now. -/
def exchange (resent : Bool) (entries : List (Entry ρ κ))
    (self : BatchTable π δ ρ κ) : Exchange ρ κ where
  resent := resent
  waiting := self.unprocessed
  entries := entries
  answer := serve self.log.length entries

/-- `connection.batch_write_item`, which returns the unprocessed items. -/
def batchWriteItem (resent : Bool) (entries : List (Entry ρ κ)) :
    EStateM Halt (BatchTable π δ ρ κ) (List (Entry ρ κ)) := do
  let exchange := (← get).exchange serve resent entries
  modify fun self => { self with log := self.log ++ [exchange] }
  match exchange.answer with
  | .raises error => throw (.raised error)
  | .answered _ unprocessedItems => return unprocessedItems

/-- `handle_unprocessed`. -/
def handleUnprocessed (unprocessedItems : List (Entry ρ κ)) :
    EStateM Halt (BatchTable π δ ρ κ) Unit :=
  if unprocessedItems.isEmpty then pure ()
  else modify fun self =>
    { self with unprocessed := self.unprocessed ++ unprocessedItems }

variable (table : Encoding π δ ρ κ)

/-- `flush`. -/
def flush : EStateM Halt (BatchTable π δ ρ κ) Unit := do
  let entries := (← get).batchData table
  let unprocessedItems ← batchWriteItem serve false entries
  handleUnprocessed unprocessedItems
  modify fun self => { self with toPut := [], toDelete := [] }

/-- `if self.should_flush(): self.flush()`. -/
def flushIfFull : EStateM Halt (BatchTable π δ ρ κ) Unit := do
  if (← get).shouldFlush then flush serve table

/-- `put_item`. -/
def putItem (data : π) : EStateM Halt (BatchTable π δ ρ κ) Unit := do
  modify fun self => { self with toPut := self.toPut ++ [data] }
  flushIfFull serve table

/-- `delete_item`. -/
def deleteItem (kwargs : δ) : EStateM Halt (BatchTable π δ ρ κ) Unit := do
  modify fun self => { self with toDelete := self.toDelete ++ [kwargs] }
  flushIfFull serve table

/-- The body of the loop of `resend_unprocessed`. -/
def resendRound : EStateM Halt (BatchTable π δ ρ κ) Unit := do
  let toResend := (← get).unprocessed.take 25
  modify fun self => { self with unprocessed := self.unprocessed.drop 25 }
  let unprocessedItems ← batchWriteItem serve true toResend
  handleUnprocessed unprocessedItems

/-- `resend_unprocessed`, for at most the given number of rounds. -/
def resendUnprocessed : ℕ → EStateM Halt (BatchTable π δ ρ κ) Unit
  | 0 => do
      if (← get).unprocessed.isEmpty then pure () else throw .running
  | rounds + 1 => do
      if (← get).unprocessed.isEmpty then pure ()
      else
        resendRound serve
        resendUnprocessed rounds

/-- `if self._to_put or self._to_delete: self.flush()`. -/
def flushBuffered : EStateM Halt (BatchTable π δ ρ κ) Unit := do
  let self ← get
  if !self.toPut.isEmpty || !self.toDelete.isEmpty then flush serve table

/-- `__exit__`. -/
def exit (rounds : ℕ) : EStateM Halt (BatchTable π δ ρ κ) Unit := do
  flushBuffered serve table
  if !(← get).unprocessed.isEmpty then resendUnprocessed serve rounds

end

end BatchTable

/-! ## Contexts -/

/-- A call inside the context. -/
inductive BatchCall (π δ : Type)
  | putItem (data : π)
  | deleteItem (kwargs : δ)
  deriving DecidableEq, Repr

namespace BatchCall

variable {π δ ρ κ : Type}

/-- The entry that a call submits. -/
def entry (table : Encoding π δ ρ κ) : BatchCall π δ → Entry ρ κ
  | .putItem data => .putRequest (table.prepareFull data)
  | .deleteItem kwargs => .deleteRequest (table.encodeKeys kwargs)

/-- The method that a call runs. -/
def run (serve : ℕ → List (Entry ρ κ) → Answer ρ κ) (table : Encoding π δ ρ κ) :
    BatchCall π δ → EStateM Halt (BatchTable π δ ρ κ) Unit
  | .putItem data => BatchTable.putItem serve table data
  | .deleteItem kwargs => BatchTable.deleteItem serve table kwargs

end BatchCall

/-- The batch table after some calls, each of them allowed where it is made.  The
caller catches what a call raises. -/
inductive Issued {π δ ρ κ : Type} (serve : ℕ → List (Entry ρ κ) → Answer ρ κ)
    (table : Encoding π δ ρ κ)
    (allowed : BatchTable π δ ρ κ → BatchCall π δ → Prop) :
    List (BatchCall π δ) → BatchTable π δ ρ κ → Prop
  | start : Issued serve table allowed [] BatchTable.init
  | call {calls : List (BatchCall π δ)} {batch : BatchTable π δ ρ κ}
      (before : Issued serve table allowed calls batch)
      (call : BatchCall π δ) (ok : allowed batch call) :
      Issued serve table allowed (calls ++ [call])
        ((call.run serve table).run batch).state

namespace BatchTable

variable {π δ ρ κ : Type} {serve : ℕ → List (Entry ρ κ) → Answer ρ κ}
variable {table : Encoding π δ ρ κ}

/-! ## What the methods do -/

section

variable (resent : Bool) (entries : List (Entry ρ κ)) (s : BatchTable π δ ρ κ)

@[simp] theorem exchange_resent :
    (s.exchange serve resent entries).resent = resent := rfl

@[simp] theorem exchange_waiting :
    (s.exchange serve resent entries).waiting = s.unprocessed := rfl

@[simp] theorem exchange_entries :
    (s.exchange serve resent entries).entries = entries := rfl

end

/-- The batch table with a request recorded. -/
def recorded (exchange : Exchange ρ κ) (self : BatchTable π δ ρ κ) :
    BatchTable π δ ρ κ :=
  { self with log := self.log ++ [exchange] }

theorem batchWriteItem_meets (resent : Bool) (entries : List (Entry ρ κ))
    (s : BatchTable π δ ρ κ) :
    ((batchWriteItem serve resent entries).run s).Meets
      (fun unprocessedItems s' => ∃ processed,
        (s.exchange serve resent entries).answer =
          .answered processed unprocessedItems ∧
        s' = s.recorded (s.exchange serve resent entries))
      (fun e s' => ∃ error,
        (s.exchange serve resent entries).answer = .raises error ∧
        e = .raised error ∧
        s' = s.recorded (s.exchange serve resent entries)) := by
  simp only [batchWriteItem, run_bind, run_get, run_modify]
  cases hanswer : (s.exchange serve resent entries).answer with
  | raises error => exact ⟨error, rfl, rfl, rfl⟩
  | answered processed unprocessedItems => exact ⟨processed, rfl, rfl⟩

theorem run_handleUnprocessed (unprocessedItems : List (Entry ρ κ))
    (s : BatchTable π δ ρ κ) :
    (handleUnprocessed unprocessedItems).run s =
      .ok () { s with unprocessed := s.unprocessed ++ unprocessedItems } := by
  cases unprocessedItems with
  | nil => simp [handleUnprocessed]
  | cons item items => rfl

/-- A flush empties the buffers if the request is answered, and changes nothing
else if it raises. -/
theorem flush_meets (s : BatchTable π δ ρ κ) :
    ((flush serve table).run s).Meets
      (fun _ s' => ∃ processed unprocessedItems,
        (s.exchange serve false (s.batchData table)).answer =
          .answered processed unprocessedItems ∧
        s' =
          { toPut := [], toDelete := []
            unprocessed := s.unprocessed ++ unprocessedItems
            log := s.log ++ [s.exchange serve false (s.batchData table)] })
      (fun e s' => ∃ error,
        (s.exchange serve false (s.batchData table)).answer = .raises error ∧
        e = .raised error ∧
        s' = s.recorded (s.exchange serve false (s.batchData table))) := by
  rw [flush, run_bind, run_get]
  dsimp only
  apply meets_bind (batchWriteItem_meets false (s.batchData table) s)
  rintro unprocessedItems s' ⟨processed, hanswer, rfl⟩
  rw [run_bind, run_handleUnprocessed]
  exact ⟨processed, unprocessedItems, hanswer, rfl⟩

/-- A round takes its entries from the front of the unprocessed ones, whether its
request is answered or not. -/
theorem resendRound_meets (s : BatchTable π δ ρ κ) :
    let rest := { s with unprocessed := s.unprocessed.drop 25 }
    let exchange := rest.exchange serve true (s.unprocessed.take 25)
    ((resendRound serve).run s).Meets
      (fun _ s' => ∃ processed unprocessedItems,
        exchange.answer = .answered processed unprocessedItems ∧
        s' =
          { s with
            unprocessed := s.unprocessed.drop 25 ++ unprocessedItems
            log := s.log ++ [exchange] })
      (fun e s' => ∃ error, exchange.answer = .raises error ∧
        e = .raised error ∧ s' = rest.recorded exchange) := by
  intro rest exchange
  rw [resendRound, run_bind, run_get]
  dsimp only
  rw [run_bind, run_modify]
  dsimp only
  apply meets_bind (batchWriteItem_meets true (s.unprocessed.take 25) rest)
  rintro unprocessedItems s' ⟨processed, hanswer, rfl⟩
  rw [run_handleUnprocessed]
  exact ⟨processed, unprocessedItems, hanswer, rfl⟩

theorem length_batchData (s : BatchTable π δ ρ κ) :
    (s.batchData table).length = s.toPut.length + s.toDelete.length := by
  simp [batchData]

/-- The batch table with an operation added to its buffer. -/
def added (self : BatchTable π δ ρ κ) : BatchCall π δ → BatchTable π δ ρ κ
  | .putItem data => { self with toPut := self.toPut ++ [data] }
  | .deleteItem kwargs => { self with toDelete := self.toDelete ++ [kwargs] }

theorem run_call (call : BatchCall π δ) (s : BatchTable π δ ρ κ) :
    (call.run serve table).run s = (flushIfFull serve table).run (s.added call) := by
  cases call <;> rfl

/-! ## Leaving the context -/

theorem batchData_eq_nil_iff (s : BatchTable π δ ρ κ) :
    s.batchData table = [] ↔ s.toPut = [] ∧ s.toDelete = [] := by
  simp [batchData]

/-- What each round keeps is kept by the loop, which returns with nothing left. -/
theorem resendUnprocessed_meets {P : BatchTable π δ ρ κ → Prop}
    {E : Halt → BatchTable π δ ρ κ → Prop}
    (hround : ∀ s, P s → s.unprocessed ≠ [] → ((resendRound serve).run s).Meets
      (fun _ s' => P s' ∧ s'.batchData table = s.batchData table) E)
    (hrunning : ∀ s, P s → E .running s) (rounds : ℕ) {s : BatchTable π δ ρ κ}
    (hs : P s) :
    ((resendUnprocessed serve rounds).run s).Meets
      (fun _ s' => P s' ∧ s'.unprocessed = [] ∧
        s'.batchData table = s.batchData table) E := by
  induction rounds generalizing s with
  | zero =>
      rw [resendUnprocessed, run_bind, run_get]
      dsimp only
      cases hempty : s.unprocessed.isEmpty with
      | true => exact ⟨hs, by simpa using hempty, rfl⟩
      | false => exact hrunning s hs
  | succ rounds ih =>
      rw [resendUnprocessed, run_bind, run_get]
      dsimp only
      cases hempty : s.unprocessed.isEmpty with
      | true => exact ⟨hs, by simpa using hempty, rfl⟩
      | false =>
          simp only [Bool.false_eq_true, if_false]
          apply meets_bind (hround s hs (by simpa using hempty))
          rintro - s' ⟨hs', hdata⟩
          rw [← hdata]
          exact ih hs'

/-- What the last flush and each round keep is kept when the context is left.  When
that returns, nothing is left. -/
theorem exit_meets {P : BatchTable π δ ρ κ → Prop}
    {E : Halt → BatchTable π δ ρ κ → Prop} {rounds : ℕ} {s : BatchTable π δ ρ κ}
    (hround : ∀ s, P s → s.unprocessed ≠ [] → ((resendRound serve).run s).Meets
      (fun _ s' => P s' ∧ s'.batchData table = s.batchData table) E)
    (hrunning : ∀ s, P s → E .running s) (hs : P s)
    (hflush : s.batchData table ≠ [] → ((flush serve table).run s).Meets
      (fun _ s' => P s' ∧ s'.batchData table = []) E) :
    ((exit serve table rounds).run s).Meets
      (fun _ s' => P s' ∧ s'.unprocessed = [] ∧ s'.batchData table = []) E := by
  have hfirst : ((flushBuffered serve table).run s).Meets
      (fun _ s' => P s' ∧ s'.batchData table = []) E := by
    have hsome : (!s.toPut.isEmpty || !s.toDelete.isEmpty) = true ↔
        s.batchData table ≠ [] := by
      simp [batchData_eq_nil_iff, Decidable.imp_iff_not_or]
    rw [flushBuffered, run_bind, run_get]
    dsimp only
    split
    · rename_i hbuffered
      exact hflush (hsome.mp hbuffered)
    · rename_i hempty
      exact ⟨hs, not_not.mp fun hne => hempty (hsome.mpr hne)⟩
  rw [exit]
  apply meets_bind hfirst
  rintro - s' ⟨hs', hdata⟩
  rw [run_bind, run_get]
  dsimp only
  cases hempty : s'.unprocessed.isEmpty with
  | true => exact ⟨hs', by simpa using hempty, hdata⟩
  | false =>
      simp only [Bool.not_false, if_true]
      refine (resendUnprocessed_meets hround hrunning rounds hs').mono ?_
        (fun _ _ h => h)
      rintro - t ⟨ht, hnil, heq⟩
      exact ⟨ht, hnil, heq.trans hdata⟩

end BatchTable

end Boto.DynamoDB2
