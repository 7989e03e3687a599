import Mathlib.Data.List.Induction
import Boto.Support.Replay
import Boto.DynamoDB2.BatchTable

/-!
# Program order in a batch

A batch leaves a table as its operations would in program order, in a run with two
conditions.  A put is only made when no delete on its key is buffered, since a flush
sends the puts first.  And the service never acknowledges an entry ahead of an
earlier one on the same key, nor puts one behind a later one: unprocessed entries
are sent again only when the context is left.
-/

namespace Boto.DynamoDB2

open EStateM Replay

variable {π δ ρ κ : Type}

/-- The key that an entry writes. -/
def Entry.keyOf (keyOf : ρ → κ) : Entry ρ κ → κ
  | .putRequest item => keyOf item
  | .deleteRequest key => key

/-- What an entry leaves at its key. -/
def Entry.effect : Entry ρ κ → Option ρ
  | .putRequest item => some item
  | .deleteRequest _ => none

/-- The service processes entries of a request in their order and defers the ones
it gives back. -/
def Defers (serve : ℕ → List (Entry ρ κ) → Answer ρ κ) : Prop :=
  ∀ n entries, ∃ processed unprocessedItems,
    serve n entries = .answered processed unprocessedItems ∧
    processed.Sublist entries ∧ (processed ++ unprocessedItems).Perm entries

variable [DecidableEq κ] (keyOf : ρ → κ)

/-- A put is only made when no delete on its key is buffered. -/
def PutsAlone (table : Encoding π δ ρ κ) (batch : BatchTable π δ ρ κ) :
    BatchCall π δ → Prop
  | .putItem data => ∀ kwargs ∈ batch.toDelete,
      table.encodeKeys kwargs ≠ keyOf (table.prepareFull data)
  | .deleteItem _ => True

/-- An answer overtakes nothing: on each key, it acknowledges the first entries of
the request and gives back the others; with unprocessed entries on the key waiting
ahead of a flush it acknowledges none, and with such entries behind those that are
sent again it gives back none. -/
def InOrder (exchange : Exchange ρ κ) : Prop :=
  ∀ processed unprocessedItems,
    exchange.answer = .answered processed unprocessedItems → ∀ key,
      stream (Entry.keyOf keyOf) key (processed ++ unprocessedItems) =
        stream (Entry.keyOf keyOf) key exchange.entries ∧
      (stream (Entry.keyOf keyOf) key exchange.waiting = [] ∨
        stream (Entry.keyOf keyOf) key
          (if exchange.resent then unprocessedItems else processed) = [])

/-- If nothing was overtaken, what was applied, what is unprocessed and what is
buffered have the operations on each key in the order in which they were issued. -/
def Ordered (table : Encoding π δ ρ κ) (issued : List (Entry ρ κ))
    (batch : BatchTable π δ ρ κ) : Prop :=
  (∀ exchange ∈ batch.log, InOrder keyOf exchange) → ∀ key,
    stream (Entry.keyOf keyOf) key
        (acknowledged batch.log ++ batch.unprocessed ++ batch.batchData table) =
      stream (Entry.keyOf keyOf) key issued

namespace BatchTable

variable {ω : Type} {serve : ℕ → List (Entry ρ κ) → Answer ρ κ}
variable {table : Encoding π δ ρ κ} {issued : List (Entry ρ κ)}
variable {keyOf}

/-- On a key, an answer to a flush leaves the order. -/
theorem stream_of_flush {waiting entries processed unprocessedItems : List ω}
    (hsplit : processed ++ unprocessedItems = entries)
    (hwaiting : waiting = [] ∨ processed = []) :
    processed ++ (waiting ++ unprocessedItems) = waiting ++ entries := by
  subst hsplit
  rcases hwaiting with rfl | rfl <;> simp

/-- On a key, an answer to entries sent again leaves the order. -/
theorem stream_of_resend {waiting entries processed unprocessedItems : List ω}
    (hsplit : processed ++ unprocessedItems = entries)
    (hwaiting : waiting = [] ∨ unprocessedItems = []) :
    processed ++ (waiting ++ unprocessedItems) = entries ++ waiting := by
  subst hsplit
  rcases hwaiting with rfl | rfl <;> simp

theorem ordered_of_raises {s : BatchTable π δ ρ κ}
    (hs : Ordered keyOf table issued s) {exchange : Exchange ρ κ}
    {error : PyError} (hanswer : exchange.answer = .raises error) :
    Ordered keyOf table issued (s.recorded exchange) := by
  intro horder key
  have hbefore := hs (fun other hmem =>
    horder other (List.mem_append_left _ hmem)) key
  rw [← hbefore]
  simp only [recorded, acknowledged_raises s.log hanswer]
  rfl

theorem flush_ordered {s : BatchTable π δ ρ κ} (hs : Ordered keyOf table issued s) :
    ((flush serve table).run s).Meets
      (fun _ s' => Ordered keyOf table issued s' ∧ s'.batchData table = [])
      (fun _ s' => Ordered keyOf table issued s') := by
  refine (flush_meets s).mono ?_ ?_
  · rintro - s' ⟨processed, unprocessedItems, hanswer, rfl⟩
    refine ⟨fun horder key => ?_, rfl⟩
    have hbefore := hs (fun exchange hmem =>
      horder exchange (List.mem_append_left _ hmem)) key
    obtain ⟨hsplit, hwaiting⟩ := horder _
      (List.mem_append_right _ (List.mem_singleton.mpr rfl)) _ _ hanswer key
    rw [← hbefore, acknowledged_answered s.log hanswer]
    simp only [stream_append, exchange_waiting, exchange_entries,
      exchange_resent, Bool.false_eq_true, if_false] at hsplit hwaiting ⊢
    have hkey := stream_of_flush hsplit hwaiting
    change _ ++ _ ++ (_ ++ _) ++ [] = _
    rw [List.append_nil, List.append_assoc, hkey, List.append_assoc]
  · rintro e s' ⟨error, hanswer, -, rfl⟩
    exact ordered_of_raises hs hanswer

theorem resendRound_ordered {s : BatchTable π δ ρ κ}
    (hs : Ordered keyOf table issued s) :
    ((resendRound serve).run s).Meets
      (fun _ s' => Ordered keyOf table issued s' ∧
        s'.batchData table = s.batchData table) (fun _ _ => True) := by
  refine (resendRound_meets s).mono ?_ (fun _ _ _ => trivial)
  rintro - s' ⟨processed, unprocessedItems, hanswer, rfl⟩
  refine ⟨fun horder key => ?_, rfl⟩
  have hbefore := hs (fun exchange hmem =>
    horder exchange (List.mem_append_left _ hmem)) key
  obtain ⟨hsplit, hwaiting⟩ := horder _
    (List.mem_append_right _ (List.mem_singleton.mpr rfl)) _ _ hanswer key
  rw [← hbefore, acknowledged_answered s.log hanswer]
  have htaken := stream_append (Entry.keyOf keyOf) key (s.unprocessed.take 25)
    (s.unprocessed.drop 25)
  rw [List.take_append_drop] at htaken
  simp only [stream_append, exchange_waiting, exchange_entries, exchange_resent,
    if_true] at hsplit hwaiting htaken ⊢
  have hkey := stream_of_resend hsplit hwaiting
  change _ ++ _ ++ (_ ++ _) ++ stream _ key (s.batchData table) = _
  rw [htaken, List.append_assoc _ _ (_ ++ _), hkey]

theorem exit_ordered (rounds : ℕ) {s : BatchTable π δ ρ κ}
    (hs : Ordered keyOf table issued s) :
    ((exit serve table rounds).run s).Meets
      (fun _ s' => Ordered keyOf table issued s' ∧ s'.unprocessed = [] ∧
        s'.batchData table = []) (fun _ _ => True) :=
  exit_meets (fun _ hs _ => resendRound_ordered hs) (fun _ _ => trivial) hs
    (fun _ => (flush_ordered hs).mono (fun _ _ h => h) (fun _ _ _ => trivial))

/-- A new operation comes last on its key. -/
theorem added_ordered {s : BatchTable π δ ρ κ} (hs : Ordered keyOf table issued s)
    {call : BatchCall π δ} (hcall : PutsAlone keyOf table s call) :
    Ordered keyOf table (issued ++ [call.entry table]) (s.added call) := by
  intro horder key
  have hbefore := hs (by cases call <;> exact horder) key
  rw [stream_append _ _ issued, ← hbefore]
  cases call with
  | deleteItem kwargs =>
      simp only [added, batchData, BatchCall.entry, List.map_append, List.map_cons,
        List.map_nil, stream_append, List.append_assoc]
  | putItem data =>
      simp only [added, batchData, BatchCall.entry, List.map_append, List.map_cons,
        List.map_nil, stream_append, List.append_assoc]
      by_cases hkey : Entry.keyOf keyOf
          (.putRequest (table.prepareFull data) : Entry ρ κ) = key
      · have hdeletes : stream (Entry.keyOf keyOf) key
            (s.toDelete.map fun delete =>
              .deleteRequest (table.encodeKeys delete)) = [] := by
          rw [stream_eq_nil_iff]
          intro entry hmem
          obtain ⟨kwargs, hkwargs, rfl⟩ := List.mem_map.mp hmem
          rw [← hkey]
          exact hcall kwargs hkwargs
        rw [hdeletes, List.append_nil, List.nil_append]
      · rw [stream_singleton_of_ne _ hkey, List.nil_append, List.append_nil]

theorem call_ordered {s : BatchTable π δ ρ κ} (hs : Ordered keyOf table issued s)
    {call : BatchCall π δ} (hcall : PutsAlone keyOf table s call) :
    Ordered keyOf table (issued ++ [call.entry table])
      ((call.run serve table).run s).state := by
  have hadded := added_ordered hs hcall
  rw [run_call, flushIfFull, run_bind, run_get]
  dsimp only
  cases hfull : (s.added call).shouldFlush with
  | false => exact hadded
  | true =>
      have hflush := @flush_ordered _ _ _ _ _ _ serve _ _ _ hadded
      simp only [if_true]
      cases hrun : (flush serve table).run (s.added call) with
      | ok _ s' =>
          rw [hrun] at hflush
          exact hflush.1
      | error _ s' =>
          rw [hrun] at hflush
          exact hflush

theorem issued_ordered {calls : List (BatchCall π δ)} {s : BatchTable π δ ρ κ}
    (hissued : Issued serve table (PutsAlone keyOf table) calls s) :
    Ordered keyOf table (calls.map (BatchCall.entry table)) s := by
  induction hissued with
  | start => exact fun _ key => rfl
  | call before call ok ih =>
      rw [List.map_append]
      exact call_ordered ih ok

end BatchTable

/-! ## Contexts -/

/-- After a context that was left normally, the table has at each key what the last
operation on it gives, if each put was made with no delete on its key in the buffer
and no answer overtook anything. -/
theorem batchTable_programOrder {keyOf : ρ → κ}
    {serve : ℕ → List (Entry ρ κ) → Answer ρ κ} {table : Encoding π δ ρ κ}
    {calls : List (BatchCall π δ)} {batch after : BatchTable π δ ρ κ} {rounds : ℕ}
    (hissued : Issued serve table (PutsAlone keyOf table) calls batch)
    (hexit : (BatchTable.exit serve table rounds).run batch = .ok () after)
    (horder : ∀ exchange ∈ after.log, InOrder keyOf exchange)
    (store : κ → Option ρ) (key : κ) :
    replay (Entry.keyOf keyOf) Entry.effect store (acknowledged after.log) key =
      ((stream (Entry.keyOf keyOf) key
        (calls.map (BatchCall.entry table))).getLast?.map Entry.effect).getD
          (store key) := by
  have hmeets : ((BatchTable.exit serve table rounds).run batch).Meets _ _ :=
    BatchTable.exit_ordered rounds (BatchTable.issued_ordered hissued)
  rw [hexit] at hmeets
  obtain ⟨hordered, hnil, hdata⟩ := hmeets
  have hstream := hordered horder key
  rw [hdata, hnil, List.append_nil, List.append_nil] at hstream
  rw [replay_eq_last, hstream]

/-- With nothing waiting, an answer that splits its request overtakes nothing. -/
theorem inOrder_of_split {exchange : Exchange ρ κ}
    (hwaiting : exchange.waiting = [])
    (hsplit : ∀ processed unprocessedItems,
      exchange.answer = .answered processed unprocessedItems →
        processed ++ unprocessedItems = exchange.entries) :
    InOrder keyOf exchange := by
  intro processed unprocessedItems hanswer key
  rw [hsplit processed unprocessedItems hanswer, hwaiting]
  exact ⟨rfl, Or.inl rfl⟩

/-- A put and a delete on one key, and a delete on another one that is deferred. -/
theorem batchTable_programOrder_three_calls :
    let serve : ℕ → List (Entry ℕ ℕ) → Answer ℕ ℕ := fun n entries =>
      if n = 0 then .answered (entries.take 2) (entries.drop 2)
      else .answered entries []
    let table : Encoding ℕ ℕ ℕ ℕ := { prepareFull := id, encodeKeys := id }
    let calls : List (BatchCall ℕ ℕ) :=
      [.putItem 1, .deleteItem 1, .deleteItem 2]
    let log : List (Exchange ℕ ℕ) :=
      [{ resent := false, waiting := []
         entries := [.putRequest 1, .deleteRequest 1, .deleteRequest 2]
         answer := .answered [.putRequest 1, .deleteRequest 1] [.deleteRequest 2] },
       { resent := true, waiting := [], entries := [.deleteRequest 2]
         answer := .answered [.deleteRequest 2] [] }]
    (BatchTable.exit serve table 1).run
        { toPut := [1], toDelete := [1, 2], unprocessed := [], log := [] } =
      .ok () { toPut := [], toDelete := [], unprocessed := [], log := log } ∧
    ∀ key, replay (Entry.keyOf id) Entry.effect (fun _ => some 0)
        (acknowledged log) key =
      ((stream (Entry.keyOf id) key
        (calls.map (BatchCall.entry table))).getLast?.map Entry.effect).getD
          (some 0) := by
  intro serve table calls log
  have hissued : Issued serve table (PutsAlone id table) calls
      { toPut := [1], toDelete := [1, 2], unprocessed := [], log := [] } :=
    .call (.call (.call .start (.putItem 1) (fun _ hmem => by cases hmem))
      (.deleteItem 1) trivial) (.deleteItem 2) trivial
  have hexit : (BatchTable.exit serve table 1).run
      { toPut := [1], toDelete := [1, 2], unprocessed := [], log := [] } =
        .ok () { toPut := [], toDelete := [], unprocessed := [], log := log } :=
    rfl
  refine ⟨hexit, batchTable_programOrder hissued hexit ?_ (fun _ => some 0)⟩
  intro exchange hmem
  have hwaiting : ∀ exchange ∈ log, exchange.waiting = [] := by decide
  refine inOrder_of_split id (hwaiting exchange hmem) ?_
  rcases List.mem_cons.mp hmem with rfl | hmem
  · rintro - - ⟨⟩
    rfl
  · rw [List.mem_singleton.mp hmem]
    rintro - - ⟨⟩
    rfl

/-- A delete and then a put on one key are sent the other way round; and a put that
is deferred is sent again after a later one on its key. -/
theorem batchTable_overtakes :
    (¬∀ (serve : ℕ → List (Entry ℕ ℕ) → Answer ℕ ℕ) (table : Encoding ℕ ℕ ℕ ℕ)
        (calls : List (BatchCall ℕ ℕ)) (batch after : BatchTable ℕ ℕ ℕ ℕ)
        (rounds : ℕ) (store : ℕ → Option ℕ) (key : ℕ), Defers serve →
      Issued serve table (fun _ _ => True) calls batch →
      (BatchTable.exit serve table rounds).run batch = .ok () after →
      replay (Entry.keyOf id) Entry.effect store (acknowledged after.log) key =
        ((stream (Entry.keyOf id) key
          (calls.map (BatchCall.entry table))).getLast?.map Entry.effect).getD
            (store key)) ∧
    ¬∀ (serve : ℕ → List (Entry (ℕ × ℕ) ℕ) → Answer (ℕ × ℕ) ℕ)
        (table : Encoding (ℕ × ℕ) ℕ (ℕ × ℕ) ℕ) (calls : List (BatchCall (ℕ × ℕ) ℕ))
        (batch after : BatchTable (ℕ × ℕ) ℕ (ℕ × ℕ) ℕ)
        (rounds : ℕ) (store : ℕ → Option (ℕ × ℕ)) (key : ℕ), Defers serve →
      Issued serve table (PutsAlone Prod.fst table) calls batch →
      (BatchTable.exit serve table rounds).run batch = .ok () after →
      replay (Entry.keyOf Prod.fst) Entry.effect store (acknowledged after.log)
          key =
        ((stream (Entry.keyOf Prod.fst) key
          (calls.map (BatchCall.entry table))).getLast?.map Entry.effect).getD
            (store key) := by
  constructor
  · intro hall
    have hstore := hall (fun _ entries => .answered entries [])
      { prepareFull := id, encodeKeys := id } [.deleteItem 1, .putItem 1] _ _ 0
      (fun _ => none) 1
      (fun _ entries => ⟨entries, [], rfl, List.Sublist.refl _, by simp⟩)
      (.call (.call .start (.deleteItem 1) trivial) (.putItem 1) trivial) rfl
    revert hstore
    decide
  · intro hall
    have hstore := hall
      (fun n entries =>
        if n = 0 then .answered (entries.drop 1) (entries.take 1)
        else .answered entries [])
      { prepareFull := id, encodeKeys := id } [.putItem (0, 1), .putItem (0, 2)]
      _ _ 1 (fun _ => none) 0
      (fun n entries => by
        by_cases hn : n = 0
        · refine ⟨entries.drop 1, entries.take 1, if_pos hn,
            List.drop_sublist 1 entries, ?_⟩
          have hswap : (entries.drop 1 ++ entries.take 1).Perm _ :=
            List.perm_append_comm
          rwa [List.take_append_drop] at hswap
        · exact ⟨entries, [], if_neg hn, List.Sublist.refl _, by simp⟩)
      (.call (.call .start (.putItem (0, 1)) (fun _ hmem => by cases hmem))
        (.putItem (0, 2)) (fun _ hmem => by cases hmem)) rfl
    revert hstore
    decide

end Boto.DynamoDB2
