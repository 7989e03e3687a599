import Boto.Support.Runs
import Mathlib.Data.Int.Notation
import Mathlib.Data.List.Nodup
import Mathlib.Logic.Function.Basic
import Mathlib.Tactic.Common

/-!
# Sequences

`Sequence` of `boto/sdb/db/sequence.py` with `increment_by_one`, for any number of objects
on one item.  A constructor and `next` make their requests one at a time, and requests of
other objects may come between them.
-/

namespace Boto.SDB

/-! ## Requests -/

/-- The attributes of the item of a sequence, beside the time stamp. -/
structure StoredItem where
  currentValue : ℤ
  lastValue : Option ℤ
  deriving DecidableEq

/-- A `PutAttributes` request, where the current value may be expected. -/
structure PutRequest where
  currentValue : ℤ
  lastValue : Option ℤ
  expectedValue : Option ℤ
  deriving DecidableEq

/-- What a service does with a request: nothing if the expected value is another one. -/
def putAttributes (item : Option StoredItem) (put : PutRequest) : Option StoredItem :=
  if put.expectedValue.isSome ∧ item.map StoredItem.currentValue ≠ put.expectedValue then none
  else some
    { currentValue := put.currentValue
      lastValue := put.lastValue <|> item.bind StoredItem.lastValue }

/-! ## Sequence objects -/

/-- The fields `_value` and `last_value` of a `Sequence`. -/
structure Sequence where
  value : Option ℤ
  lastValue : Option ℤ
  deriving DecidableEq

/-- `increment_by_one`. -/
def incrementByOne (cv _lv : Option ℤ) : ℤ :=
  match cv with
  | none => 0
  | some cv => cv + 1

namespace Sequence

/-- `__init__`, up to the value. -/
def init : Sequence where
  value := none
  lastValue := none

/-- `get`, with the item that the service has. -/
def get (item : Option StoredItem) (sequence : Sequence) : Sequence :=
  match item with
  | none => sequence
  | some item =>
      { value := some item.currentValue
        lastValue := item.lastValue <|> sequence.lastValue }

/-- The request that `set` makes. -/
def set (sequence : Sequence) (val : ℤ) : PutRequest where
  currentValue := val
  lastValue := sequence.value
  expectedValue := sequence.value

/-- `not self.val`, after reading it. -/
def isFalse (sequence : Sequence) : Bool :=
  sequence.value = none || sequence.value = some 0

end Sequence

/-! ## Steps -/

/-- What an object is about to do. -/
inductive Phase
  | absent
  /-- The read of `__init__`, and the write of an initial value. -/
  | bootstrapRead (initVal : ℤ)
  | bootstrapWrite (initVal : ℤ)
  | idle
  /-- The read of `next`, the write of a new value, and the read after it was written. -/
  | nextRead
  | nextWrite (val : ℤ)
  | nextReturn (val : ℤ)
  deriving DecidableEq

/-- An object, or a name for a later one. -/
structure Client where
  sequence : Sequence
  phase : Phase
  deriving DecidableEq

/-- The item, the objects and the values that calls of `next` have returned. -/
structure State where
  item : Option StoredItem
  clients : ℕ → Client
  returned : List ℤ

/-- What happens next. -/
inductive Action
  /-- A constructor is called. -/
  | create (client : ℕ) (initVal : Option ℤ)
  /-- `next` is called. -/
  | next (client : ℕ)
  /-- The next request of an object is answered. -/
  | request (client : ℕ)
  /-- The next request of an object raises, where a write may have been applied. -/
  | fail (client : ℕ) (applied : Bool)
  deriving DecidableEq

namespace Client

/-- The write that an object is about to make. -/
def put? (client : Client) : Option PutRequest :=
  match client.phase with
  | .bootstrapWrite val => some (client.sequence.set val)
  | .nextWrite val => some (client.sequence.set val)
  | _ => none

/-- An object after its call has raised: without its constructor there is none. -/
def raised (client : Client) : Client :=
  match client.phase with
  | .absent => client
  | .bootstrapRead _ => { client with phase := .absent }
  | .bootstrapWrite _ => { client with phase := .absent }
  | _ => { client with phase := .idle }

/-- An object after it has read the item. -/
def afterRead (item : Option StoredItem) (client : Client) : Client :=
  let sequence := client.sequence.get item
  match client.phase with
  | .bootstrapRead initVal =>
      ⟨sequence, if sequence.isFalse then .bootstrapWrite initVal else .idle⟩
  | .nextRead => ⟨sequence, .nextWrite (incrementByOne sequence.value sequence.lastValue)⟩
  | .nextReturn _ => ⟨sequence, .idle⟩
  | _ => client

/-- An object after its write has been applied. -/
def afterWrite (client : Client) : Client :=
  match client.phase with
  | .nextWrite val => { client with phase := .nextReturn val }
  | _ => { client with phase := .idle }

/-- What a call of `next` returns, if it has read a value. -/
def result (item : Option StoredItem) (client : Client) : List ℤ :=
  match client.phase with
  | .nextReturn _ => (client.sequence.get item).value.toList
  | _ => []

/-- Whether an object is about to make a request. -/
def isWaiting (client : Client) : Bool :=
  match client.phase with
  | .absent => false
  | .idle => false
  | _ => true

end Client

namespace State

/-- The state with another object. -/
def setClient (s : State) (i : ℕ) (client : Client) : State :=
  { s with clients := Function.update s.clients i client }

/-- No item and no objects. -/
def initial : State where
  item := none
  clients := fun _ => ⟨Sequence.init, .absent⟩
  returned := []

/-- The request of an object is answered. -/
def answer (s : State) (i : ℕ) : State :=
  let client := s.clients i
  match client.put? with
  | some put =>
      match putAttributes s.item put with
      | some item => { s with item := some item }.setClient i client.afterWrite
      | none => s.setClient i client.raised
  | none =>
      { s with returned := s.returned ++ client.result s.item }.setClient i
        (client.afterRead s.item)

/-- The request of an object raises. -/
def failed (s : State) (i : ℕ) (applied : Bool) : State :=
  let client := s.clients i
  let item :=
    match client.put? with
    | some put => if applied then putAttributes s.item put <|> s.item else s.item
    | none => s.item
  { s with item := item }.setClient i client.raised

/-- A step, if it is possible. -/
def step (s : State) : Action → Option State
  | .create i initVal =>
      if (s.clients i).phase = .absent then
        some (s.setClient i
          ⟨Sequence.init, .bootstrapRead (initVal.getD (incrementByOne none none))⟩)
      else none
  | .next i =>
      if (s.clients i).phase = .idle then
        some (s.setClient i { s.clients i with phase := .nextRead })
      else none
  | .request i => if (s.clients i).isWaiting then some (s.answer i) else none
  | .fail i applied => if (s.clients i).isWaiting then some (s.failed i applied) else none

end State

end Boto.SDB

/-!
## Values of sequences

The second read of `next` may find the value of another object, and the constructor writes
its initial value without a condition when it has read none, and over a value of zero.  In
runs without these accidents the stored value never decreases, and every call of `next`
returns the value that it wrote, which is greater than all before.
-/

namespace Boto.SDB.State

open Runs (run Guarded)

/-- The stored value. -/
def stored (s : State) : Option ℤ :=
  s.item.map StoredItem.currentValue

/-- A value that is written without a condition is the first one, and a value that is
written over an expected one is not less. -/
def PutIsSafe (s : State) (client : Client) : Prop :=
  ∀ put ∈ client.put?, (put.expectedValue = none → s.stored = none) ∧
    ∀ old ∈ put.expectedValue, old ≤ put.currentValue

/-- The value that a call of `next` has written and not yet returned. -/
def pending? (client : Client) : Option ℤ :=
  match client.phase with
  | .nextReturn val => some val
  | _ => none

/-- The steps without accidents: also the second read of `next` finds what was written. -/
def IsSafe (s : State) : Action → Prop
  | .request i => s.PutIsSafe (s.clients i) ∧
      ∀ val ∈ pending? (s.clients i), s.stored = some val
  | .fail i _ => s.PutIsSafe (s.clients i)
  | _ => True

instance (s : State) (client : Client) : Decidable (s.PutIsSafe client) :=
  inferInstanceAs (Decidable (∀ put ∈ client.put?, _ ∧ _))

instance (s : State) : ∀ action, Decidable (s.IsSafe action)
  | .request i => inferInstanceAs (Decidable (s.PutIsSafe (s.clients i) ∧
      ∀ val ∈ pending? (s.clients i), s.stored = some val))
  | .fail i _ => inferInstanceAs (Decidable (s.PutIsSafe (s.clients i)))
  | .create _ _ => inferInstanceAs (Decidable True)
  | .next _ => inferInstanceAs (Decidable True)

/-- A value that has been handed out, or is about to be. -/
def Claimed (s : State) (val : ℤ) : Prop :=
  val ∈ s.returned ∨ ∃ i, pending? (s.clients i) = some val

/-- A new value is greater than the one that was read. -/
def IsFresh (client : Client) : Prop :=
  ∀ val, client.phase = .nextWrite val → ∀ old ∈ client.sequence.value, old < val

/-- What holds in every state without accidents. -/
structure Invariant (s : State) : Prop where
  nodup : s.returned.Nodup
  bound : ∀ val, s.Claimed val → ∃ current, s.stored = some current ∧ val ≤ current
  unreturned : ∀ i val, pending? (s.clients i) = some val → val ∉ s.returned
  distinct : ∀ i j val, pending? (s.clients i) = some val →
    pending? (s.clients j) = some val → i = j
  fresh : ∀ i, IsFresh (s.clients i)

/-- The stored value stays, or grows. -/
def NotDecreased (s s' : State) : Prop :=
  ∀ val, s.stored = some val → ∃ val', s'.stored = some val' ∧ val ≤ val'

section

variable {s : State} {i : ℕ} {client : Client} {item : StoredItem}

theorem clients_setClient (j : ℕ) :
    (s.setClient i client).clients j = if j = i then client else s.clients j := by
  exact Function.update_apply ..

theorem pending?_setClient {j : ℕ} {val : ℤ} (hpending : pending? client = none)
    (hval : pending? ((s.setClient i client).clients j) = some val) :
    pending? (s.clients j) = some val := by
  rw [clients_setClient] at hval
  split at hval
  · rw [hpending] at hval
    cases hval
  · exact hval

/-! ## What steps keep -/

/-- A step of an object that has nothing to return. -/
theorem Invariant.setClient (hinvariant : s.Invariant) (hpending : pending? client = none)
    (hfresh : IsFresh client) : (s.setClient i client).Invariant where
  nodup := hinvariant.nodup
  bound := by
    intro val hclaimed
    refine hinvariant.bound val (hclaimed.imp_right ?_)
    rintro ⟨j, hval⟩
    exact ⟨j, pending?_setClient hpending hval⟩
  unreturned := fun j val hval =>
    hinvariant.unreturned j val (pending?_setClient hpending hval)
  distinct := fun j k val hval hval' => hinvariant.distinct j k val
    (pending?_setClient hpending hval) (pending?_setClient hpending hval')
  fresh := by
    intro j
    rw [clients_setClient]
    split
    · exact hfresh
    · exact hinvariant.fresh j

/-- A write of a value that is not less. -/
theorem Invariant.setItem (hinvariant : s.Invariant)
    (hle : ∀ val, s.stored = some val → val ≤ item.currentValue) :
    Invariant { s with item := some item } where
  nodup := hinvariant.nodup
  bound := by
    intro val hclaimed
    obtain ⟨current, hcurrent, hval⟩ := hinvariant.bound val hclaimed
    exact ⟨item.currentValue, rfl, Int.le_trans hval (hle current hcurrent)⟩
  unreturned := hinvariant.unreturned
  distinct := hinvariant.distinct
  fresh := hinvariant.fresh

/-- The write of `next`: its value is greater than all that have been handed out. -/
theorem Invariant.write (hinvariant : s.Invariant)
    (hlt : ∀ val, s.stored = some val → val < item.currentValue)
    (hpending : pending? client = some item.currentValue) (hfresh : IsFresh client) :
    ({ s with item := some item }.setClient i client).Invariant := by
  have hnew : ¬s.Claimed item.currentValue := by
    intro hclaimed
    obtain ⟨current, hcurrent, hle⟩ := hinvariant.bound _ hclaimed
    exact Int.not_lt.mpr hle (hlt current hcurrent)
  have hcases : ∀ j val,
      pending? (({ s with item := some item }.setClient i client).clients j) = some val →
        j = i ∧ val = item.currentValue ∨ j ≠ i ∧ pending? (s.clients j) = some val := by
    intro j val hval
    rw [clients_setClient] at hval
    split at hval
    · rename_i hj
      rw [hpending] at hval
      exact .inl ⟨hj, (Option.some.inj hval).symm⟩
    · rename_i hj
      exact .inr ⟨hj, hval⟩
  refine ⟨hinvariant.nodup, ?_, ?_, ?_, ?_⟩
  · intro val hclaimed
    refine ⟨item.currentValue, rfl, ?_⟩
    have hold : s.Claimed val → val ≤ item.currentValue := by
      intro hclaimed
      obtain ⟨current, hcurrent, hle⟩ := hinvariant.bound val hclaimed
      exact Int.le_trans hle (Int.le_of_lt (hlt current hcurrent))
    rcases hclaimed with hreturned | ⟨j, hval⟩
    · exact hold (.inl hreturned)
    · rcases hcases j val hval with ⟨-, rfl⟩ | ⟨-, hval⟩
      · exact Int.le_refl _
      · exact hold (.inr ⟨j, hval⟩)
  · intro j val hval hreturned
    rcases hcases j val hval with ⟨-, rfl⟩ | ⟨-, hval⟩
    · exact hnew (.inl hreturned)
    · exact hinvariant.unreturned j val hval hreturned
  · intro j k val hval hval'
    rcases hcases j val hval with ⟨rfl, rfl⟩ | ⟨-, hval⟩
    · rcases hcases k _ hval' with ⟨rfl, -⟩ | ⟨-, hval'⟩
      · rfl
      · exact absurd (.inr ⟨k, hval'⟩) hnew
    · rcases hcases k val hval' with ⟨-, rfl⟩ | ⟨-, hval'⟩
      · exact absurd (.inr ⟨j, hval⟩) hnew
      · exact hinvariant.distinct j k val hval hval'
  · intro j
    rw [clients_setClient]
    split
    · exact hfresh
    · exact hinvariant.fresh j

/-- The value that is returned is the one that was pending. -/
theorem Invariant.return (hinvariant : s.Invariant) {val : ℤ}
    (hval : pending? (s.clients i) = some val) (hpending : pending? client = none)
    (hfresh : IsFresh client) :
    ({ s with returned := s.returned ++ [val] }.setClient i client).Invariant := by
  have hother : ∀ j old,
      pending? (({ s with returned := s.returned ++ [val] }.setClient i client).clients j) =
        some old → j ≠ i ∧ pending? (s.clients j) = some old := by
    intro j old hold
    rw [clients_setClient] at hold
    split at hold
    · rw [hpending] at hold
      cases hold
    · rename_i hj
      exact ⟨hj, hold⟩
  refine ⟨?_, ?_, ?_, ?_, ?_⟩
  · refine List.nodup_append.mpr ⟨hinvariant.nodup, List.nodup_singleton _, ?_⟩
    rintro old hold _ hsingle rfl
    obtain rfl := List.mem_singleton.mp hsingle
    exact hinvariant.unreturned i _ hval hold
  · rintro old (hreturned | ⟨j, hold⟩)
    · rcases List.mem_append.mp hreturned with hreturned | hsingle
      · exact hinvariant.bound old (.inl hreturned)
      · obtain rfl := List.mem_singleton.mp hsingle
        exact hinvariant.bound old (.inr ⟨i, hval⟩)
    · exact hinvariant.bound old (.inr ⟨j, (hother j old hold).2⟩)
  · intro j old hold hreturned
    obtain ⟨hj, hpend⟩ := hother j old hold
    rcases List.mem_append.mp hreturned with hreturned | hsingle
    · exact hinvariant.unreturned j old hpend hreturned
    · obtain rfl := List.mem_singleton.mp hsingle
      exact hj (hinvariant.distinct j i _ hpend hval)
  · intro j k old hold hold'
    exact hinvariant.distinct j k old (hother j old hold).2 (hother k old hold').2
  · intro j
    rw [clients_setClient]
    split
    · exact hfresh
    · exact hinvariant.fresh j

/-! ## Steps -/

theorem pending?_of_phase (hphase : ∀ val, client.phase ≠ .nextReturn val) :
    pending? client = none := by
  rw [pending?]
  split
  · rename_i val heq
    exact absurd heq (hphase val)
  · rfl

theorem isFresh_of_phase (hphase : ∀ val, client.phase ≠ .nextWrite val) : IsFresh client :=
  fun val heq => absurd heq (hphase val)

theorem raised_phase (client : Client) :
    client.raised.phase = .absent ∨ client.raised.phase = .idle := by
  rw [Client.raised]
  split
  · exact .inl ‹_›
  · exact .inl rfl
  · exact .inl rfl
  · exact .inr rfl

theorem pending?_raised (client : Client) : pending? client.raised = none := by
  apply pending?_of_phase
  intro val heq
  rcases raised_phase client with hphase | hphase <;> rw [hphase] at heq <;> cases heq

theorem isFresh_raised (client : Client) : IsFresh client.raised := by
  apply isFresh_of_phase
  intro val heq
  rcases raised_phase client with hphase | hphase <;> rw [hphase] at heq <;> cases heq

/-- A write that is applied: the expected value was stored, and the new one is. -/
theorem putAttributes_eq_some {stored : Option StoredItem} {put : PutRequest}
    (hput : putAttributes stored put = some item) :
    item.currentValue = put.currentValue ∧
      (put.expectedValue = none ∨ stored.map StoredItem.currentValue = put.expectedValue) := by
  rw [putAttributes] at hput
  split at hput
  · cases hput
  · rename_i hnot
    cases hput
    refine ⟨rfl, ?_⟩
    cases hexpected : put.expectedValue with
    | none => exact .inl rfl
    | some old =>
        right
        by_contra hne
        rw [hexpected] at hnot
        exact hnot ⟨rfl, hne⟩

/-- A safe write does not lower the stored value. -/
theorem PutIsSafe.le {put : PutRequest} (hsafe : s.PutIsSafe client)
    (hclient : client.put? = some put) (hput : putAttributes s.item put = some item) :
    ∀ val, s.stored = some val → val ≤ item.currentValue := by
  intro val hval
  obtain ⟨hcurrent, hexpected⟩ := putAttributes_eq_some hput
  obtain ⟨hfirst, hle⟩ := hsafe put hclient
  rw [hcurrent]
  rcases hexpected with hnone | hexpected
  · rw [hfirst hnone] at hval
    cases hval
  · exact hle val (hexpected.symm.trans hval)

theorem NotDecreased.refl (s : State) : s.NotDecreased s :=
  fun val hval => ⟨val, hval, Int.le_refl val⟩

theorem NotDecreased.trans {s s' s'' : State} (hfirst : s.NotDecreased s')
    (hsecond : s'.NotDecreased s'') : s.NotDecreased s'' := by
  intro val hval
  obtain ⟨val', hval', hle⟩ := hfirst val hval
  obtain ⟨val'', hval'', hle'⟩ := hsecond val' hval'
  exact ⟨val'', hval'', Int.le_trans hle hle'⟩

/-- A read after which nothing is returned. -/
theorem Invariant.answer_read (hinvariant : s.Invariant) (hput : (s.clients i).put? = none)
    (hresult : (s.clients i).result s.item = [])
    (hpending : pending? ((s.clients i).afterRead s.item) = none)
    (hfresh : IsFresh ((s.clients i).afterRead s.item)) :
    (s.answer i).Invariant ∧ s.NotDecreased (s.answer i) := by
  rw [State.answer, hput, hresult, List.append_nil]
  exact ⟨hinvariant.setClient hpending hfresh, .refl s⟩

/-- A request is answered without an accident. -/
theorem Invariant.answer (hinvariant : s.Invariant) (hsafe : s.IsSafe (.request i)) :
    (s.answer i).Invariant ∧ s.NotDecreased (s.answer i) := by
  obtain ⟨hput, hreturn⟩ := hsafe
  cases hphase : (s.clients i).phase with
  | bootstrapWrite val =>
      have hclient : (s.clients i).put? = some ((s.clients i).sequence.set val) := by
        rw [Client.put?, hphase]
      rw [State.answer, hclient]
      dsimp only
      split
      · rename_i item happlied
        have hle := hput.le hclient happlied
        refine ⟨(hinvariant.setItem hle).setClient ?_ ?_, fun val hval => ⟨_, rfl, hle val hval⟩⟩
        · rw [Client.afterWrite, hphase]
          rfl
        · rw [Client.afterWrite, hphase]
          exact isFresh_of_phase nofun
      · exact ⟨hinvariant.setClient (pending?_raised _) (isFresh_raised _), .refl s⟩
  | nextWrite val =>
      have hclient : (s.clients i).put? = some ((s.clients i).sequence.set val) := by
        rw [Client.put?, hphase]
      rw [State.answer, hclient]
      dsimp only
      split
      · rename_i item happlied
        have hle := hput.le hclient happlied
        obtain ⟨hcurrent, hexpected⟩ := putAttributes_eq_some happlied
        refine ⟨hinvariant.write ?_ ?_ ?_, fun val hval => ⟨_, rfl, hle val hval⟩⟩
        · -- The expected value was stored, and the new one is greater.
          intro old hold
          rw [hcurrent]
          rcases hexpected with hnone | hexpected
          · rw [(hput _ hclient).1 hnone] at hold
            cases hold
          · exact hinvariant.fresh i val hphase old (hexpected.symm.trans hold)
        · rw [Client.afterWrite, hphase, hcurrent]
          rfl
        · rw [Client.afterWrite, hphase]
          exact isFresh_of_phase nofun
      · exact ⟨hinvariant.setClient (pending?_raised _) (isFresh_raised _), .refl s⟩
  | nextReturn val =>
      have hpending : pending? (s.clients i) = some val := by
        rw [pending?, hphase]
      have hstored := hreturn val hpending
      obtain ⟨item, hitem, hcurrent⟩ := Option.map_eq_some_iff.mp hstored
      have hclient : (s.clients i).put? = none := by
        rw [Client.put?, hphase]
      have hresult : (s.clients i).result s.item = [val] := by
        rw [Client.result, hphase, hitem, ← hcurrent]
        rfl
      rw [State.answer, hclient, hresult]
      refine ⟨hinvariant.return hpending ?_ ?_, .refl s⟩
      · rw [Client.afterRead, hphase]
        rfl
      · rw [Client.afterRead, hphase]
        exact isFresh_of_phase nofun
  | nextRead =>
      refine hinvariant.answer_read (by rw [Client.put?, hphase])
        (by rw [Client.result, hphase]) ?_ ?_
      · rw [Client.afterRead, hphase]
        rfl
      · rw [Client.afterRead, hphase]
        intro val heq old hold
        cases heq
        dsimp only at hold
        rw [Option.mem_def] at hold
        rw [hold]
        exact Int.lt_succ old
  | bootstrapRead val =>
      refine hinvariant.answer_read (by rw [Client.put?, hphase])
        (by rw [Client.result, hphase]) ?_ ?_
      · rw [Client.afterRead, hphase]
        dsimp only
        split <;> rfl
      · rw [Client.afterRead, hphase]
        dsimp only
        split <;> exact isFresh_of_phase nofun
  | absent =>
      refine hinvariant.answer_read (by rw [Client.put?, hphase])
        (by rw [Client.result, hphase]) ?_ ?_
      · rw [Client.afterRead, hphase]
        exact pending?_of_phase (by simp [hphase])
      · rw [Client.afterRead, hphase]
        exact hinvariant.fresh i
  | idle =>
      refine hinvariant.answer_read (by rw [Client.put?, hphase])
        (by rw [Client.result, hphase]) ?_ ?_
      · rw [Client.afterRead, hphase]
        exact pending?_of_phase (by simp [hphase])
      · rw [Client.afterRead, hphase]
        exact hinvariant.fresh i

/-- A request raises without an accident. -/
theorem Invariant.failed (hinvariant : s.Invariant) {applied : Bool}
    (hsafe : s.PutIsSafe (s.clients i)) :
    (s.failed i applied).Invariant ∧ s.NotDecreased (s.failed i applied) := by
  rw [State.failed]
  cases hclient : (s.clients i).put? with
  | none => exact ⟨hinvariant.setClient (pending?_raised _) (isFresh_raised _), .refl s⟩
  | some put =>
      dsimp only
      cases applied with
      | false => exact ⟨hinvariant.setClient (pending?_raised _) (isFresh_raised _), .refl s⟩
      | true =>
          rw [if_pos rfl]
          cases happlied : putAttributes s.item put with
          | none =>
              exact ⟨hinvariant.setClient (pending?_raised _) (isFresh_raised _), .refl s⟩
          | some item =>
              have hle := hsafe.le hclient happlied
              exact ⟨(hinvariant.setItem hle).setClient (pending?_raised _) (isFresh_raised _),
                fun val hval => ⟨_, rfl, hle val hval⟩⟩

end

/-- Every step without an accident. -/
theorem Invariant.step {s s' : State} {action : Action} (hinvariant : s.Invariant)
    (hsafe : s.IsSafe action) (hstep : s.step action = some s') :
    s'.Invariant ∧ s.NotDecreased s' := by
  cases action with
  | create i initVal =>
      obtain ⟨-, hstep⟩ := Option.ite_none_right_eq_some.mp hstep
      cases hstep
      exact ⟨hinvariant.setClient rfl (isFresh_of_phase nofun), .refl s⟩
  | next i =>
      obtain ⟨-, hstep⟩ := Option.ite_none_right_eq_some.mp hstep
      cases hstep
      exact ⟨hinvariant.setClient rfl (isFresh_of_phase nofun), .refl s⟩
  | request i =>
      obtain ⟨-, hstep⟩ := Option.ite_none_right_eq_some.mp hstep
      cases hstep
      exact hinvariant.answer hsafe
  | fail i applied =>
      obtain ⟨-, hstep⟩ := Option.ite_none_right_eq_some.mp hstep
      cases hstep
      exact hinvariant.failed hsafe

theorem Invariant.initial : initial.Invariant where
  nodup := List.nodup_nil
  bound := by
    rintro val (hreturned | ⟨i, hval⟩)
    · cases hreturned
    · cases hval
  unreturned := fun _ _ hval => nomatch hval
  distinct := fun _ _ _ hval => nomatch hval
  fresh := fun _ => isFresh_of_phase nofun

/-- An object is created, and its `next` is called. -/
def firstCall : List Action :=
  [.create 0 none, .request 0, .request 0, .next 0, .request 0, .request 0, .request 0]

/-- Two objects, of which the second one writes between the write and the last read of the
first one. -/
def overtaken : List Action :=
  [.create 0 none, .request 0, .request 0, .create 1 none, .request 1, .request 1,
    .next 0, .request 0, .request 0, .next 1, .request 1, .request 1, .request 0, .request 1]

end Boto.SDB.State
