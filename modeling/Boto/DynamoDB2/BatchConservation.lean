import Mathlib.Data.List.Induction
import Boto.DynamoDB2.BatchTable

/-!
# Conservation in a batch

Each operation given to a batch is acknowledged, buffered or unprocessed, and each
request has 1 to 25 entries, in a run with two conditions.  No call is made while
25 operations are buffered, since the test for a full buffer is an equality: this
happens only after a flush raised.  And no request raises when unprocessed entries
are sent again, since they are removed from the list before the request is made.
-/

namespace Boto.DynamoDB2

open EStateM

variable {π δ ρ κ : Type}

/-- The service processes or gives back each entry of a request it answers. -/
def Accounts (serve : ℕ → List (Entry ρ κ) → Answer ρ κ) : Prop :=
  ∀ n entries processed unprocessedItems,
    serve n entries = .answered processed unprocessedItems →
    (processed ++ unprocessedItems).Perm entries

/-- Each request has 1 to 25 entries. -/
def SizesLegal (log : List (Exchange ρ κ)) : Prop :=
  ∀ exchange ∈ log,
    1 ≤ exchange.entries.length ∧ exchange.entries.length ≤ 25

/-- Each request is legal, and each submitted entry is in one place. -/
structure Keeps (table : Encoding π δ ρ κ) (submitted : List (Entry ρ κ))
    (batch : BatchTable π δ ρ κ) : Prop where
  sizes : SizesLegal batch.log
  conserved : submitted.Perm
    (acknowledged batch.log ++ batch.batchData table ++ batch.unprocessed)

/-- No request that sends unprocessed entries again raised. -/
def ResendsAnswered (log : List (Exchange ρ κ)) : Prop :=
  ∀ exchange ∈ log, exchange.resent = true →
    exchange.answer.isAnswered = true

namespace BatchTable

variable {serve : ℕ → List (Entry ρ κ) → Answer ρ κ}
variable {table : Encoding π δ ρ κ} {submitted : List (Entry ρ κ)}

theorem sizesLegal_append {log : List (Exchange ρ κ)} {exchange : Exchange ρ κ}
    (hlog : SizesLegal log) (hpos : 1 ≤ exchange.entries.length)
    (hle : exchange.entries.length ≤ 25) : SizesLegal (log ++ [exchange]) := by
  intro other hmem
  rcases List.mem_append.mp hmem with hmem | hmem
  · exact hlog other hmem
  · rw [List.mem_singleton.mp hmem]
    exact ⟨hpos, hle⟩

/-- What is counted before a request is counted after its answer. -/
theorem conserved_of_answered {log : List (Exchange ρ κ)}
    {exchange : Exchange ρ κ}
    {processed unprocessedItems buffered rest : List (Entry ρ κ)}
    (hbefore : submitted.Perm
      (acknowledged log ++ buffered ++ (exchange.entries ++ rest)))
    (hanswer : exchange.answer = .answered processed unprocessedItems)
    (hsent : (processed ++ unprocessedItems).Perm exchange.entries) :
    submitted.Perm (acknowledged (log ++ [exchange]) ++ buffered ++
      (rest ++ unprocessedItems)) := by
  classical
  rw [acknowledged_answered log hanswer]
  rw [List.perm_iff_count] at *
  intro entry
  have hsent := hsent entry
  have hbefore := hbefore entry
  simp only [List.count_append] at *
  omega

/-- A flush of a legal size keeps the accounts, also when it raises. -/
theorem flush_keeps (hserve : Accounts serve) {s : BatchTable π δ ρ κ}
    (hs : Keeps table submitted s) (hpos : 1 ≤ (s.batchData table).length)
    (hle : (s.batchData table).length ≤ 25) :
    ((flush serve table).run s).Meets
      (fun _ s' => Keeps table submitted s' ∧ s'.batchData table = [])
      (fun _ s' => Keeps table submitted s' ∧
        s'.batchData table = s.batchData table) := by
  have hsizes : SizesLegal
      (s.log ++ [s.exchange serve false (s.batchData table)]) :=
    sizesLegal_append hs.sizes hpos hle
  refine (flush_meets s).mono ?_ ?_
  · rintro - s' ⟨processed, unprocessedItems, hanswer, rfl⟩
    refine ⟨⟨hsizes, ?_⟩, rfl⟩
    refine conserved_of_answered ?_ hanswer (hserve _ _ _ _ hanswer)
    have hbefore := hs.conserved
    rwa [List.append_assoc, ← List.append_nil (acknowledged s.log)] at hbefore
  · rintro e s' ⟨error, hanswer, -, rfl⟩
    refine ⟨⟨hsizes, ?_⟩, rfl⟩
    simp only [recorded, acknowledged_raises s.log hanswer]
    exact hs.conserved

/-- A round of sending again keeps the accounts if its request is answered. -/
theorem resendRound_keeps (hserve : Accounts serve) {s : BatchTable π δ ρ κ}
    (hs : Keeps table submitted s) (hsome : s.unprocessed ≠ []) :
    ((resendRound serve).run s).Meets
      (fun _ s' => Keeps table submitted s' ∧
        s'.batchData table = s.batchData table)
      (fun _ s' => ResendsAnswered s'.log → Keeps table submitted s') := by
  refine (resendRound_meets s).mono ?_ ?_
  · rintro - s' ⟨processed, unprocessedItems, hanswer, rfl⟩
    refine ⟨⟨sizesLegal_append hs.sizes ?_ ?_, ?_⟩, rfl⟩
    · have hpos := List.length_pos_iff.mpr hsome
      simp only [exchange, List.length_take]
      omega
    · simp only [exchange]
      exact List.length_take_le 25 s.unprocessed
    · refine conserved_of_answered ?_ hanswer (hserve _ _ _ _ hanswer)
      simp only [exchange, List.take_append_drop]
      exact hs.conserved
  · rintro e s' ⟨error, hanswer, -, rfl⟩ hanswered
    have hraised := hanswered _ (List.mem_append_right _
      (List.mem_singleton.mpr rfl)) rfl
    simp [hanswer, Answer.isAnswered] at hraised

/-- Leaving the context keeps the accounts if each request that sends entries again
is answered.  When it returns, nothing is left. -/
theorem exit_keeps (hserve : Accounts serve) (rounds : ℕ)
    {s : BatchTable π δ ρ κ} (hs : Keeps table submitted s)
    (hle : (s.batchData table).length ≤ 25) :
    ((exit serve table rounds).run s).Meets
      (fun _ s' => Keeps table submitted s' ∧ s'.unprocessed = [] ∧
        s'.batchData table = [])
      (fun _ s' => ResendsAnswered s'.log → Keeps table submitted s') := by
  refine exit_meets (fun s hs hsome => resendRound_keeps hserve hs hsome)
    (fun s hs _ => hs) hs (fun hsome => ?_)
  have hpos : 1 ≤ (s.batchData table).length := List.length_pos_iff.mpr hsome
  exact (flush_keeps hserve hs hpos hle).mono (fun _ _ h => h)
    (fun _ _ h _ => h.1)

/-! ## Calls -/

/-- A new operation is buffered, in its part of the buffer. -/
theorem added_keeps {s : BatchTable π δ ρ κ} (hs : Keeps table submitted s)
    (call : BatchCall π δ) :
    Keeps table (submitted ++ [call.entry table]) (s.added call) := by
  refine ⟨by cases call <;> exact hs.sizes, ?_⟩
  classical
  have hbefore := List.perm_iff_count.mp hs.conserved
  rw [List.perm_iff_count]
  intro entry
  have hbefore := hbefore entry
  cases call <;>
    simp only [added, batchData, BatchCall.entry, List.map_append, List.map_cons,
      List.map_nil, List.count_append] at * <;>
    omega

theorem length_added (call : BatchCall π δ) (s : BatchTable π δ ρ κ) :
    ((s.added call).batchData table).length = (s.batchData table).length + 1 := by
  cases call <;> simp [added, batchData] <;> omega

theorem shouldFlush_eq_true_iff (s : BatchTable π δ ρ κ) :
    s.shouldFlush = true ↔ (s.batchData table).length = 25 := by
  simp [shouldFlush, length_batchData]

/-- A call at a buffer that is not full keeps the accounts, also when it raises. -/
theorem call_keeps (hserve : Accounts serve) {s : BatchTable π δ ρ κ}
    (hs : Keeps table submitted s) (hle : (s.batchData table).length ≤ 25)
    (hroom : s.shouldFlush = false) (call : BatchCall π δ) :
    Keeps table (submitted ++ [call.entry table])
        ((call.run serve table).run s).state ∧
      (((call.run serve table).run s).state.batchData table).length ≤ 25 := by
  have hadded := added_keeps hs call
  have hlength := @length_added _ _ _ _ table call s
  have hnot : (s.batchData table).length ≠ 25 := fun hfull => by
    simp [(shouldFlush_eq_true_iff s).mpr hfull] at hroom
  rw [run_call, flushIfFull, run_bind, run_get]
  dsimp only
  cases hfull : (s.added call).shouldFlush with
  | false =>
      have hle' : ((s.added call).batchData table).length ≤ 25 := by omega
      exact ⟨hadded, hle'⟩
  | true =>
      have hdata := (@shouldFlush_eq_true_iff _ _ _ _ table _).mp hfull
      have hflush := flush_keeps hserve hadded (by omega) (by omega)
      simp only [if_true]
      cases hrun : (flush serve table).run (s.added call) with
      | ok _ s' =>
          rw [hrun] at hflush
          obtain ⟨hkeeps, hempty⟩ := hflush
          exact ⟨hkeeps, by simp [hempty]⟩
      | error _ s' =>
          rw [hrun] at hflush
          obtain ⟨hkeeps, heq⟩ := hflush
          exact ⟨hkeeps, by rw [Result.state_error, heq]; omega⟩

theorem issued_keeps (hserve : Accounts serve) {calls : List (BatchCall π δ)}
    {s : BatchTable π δ ρ κ}
    (hissued : Issued serve table
      (fun batch _ => batch.shouldFlush = false) calls s) :
    Keeps table (calls.map (BatchCall.entry table)) s ∧
      (s.batchData table).length ≤ 25 := by
  induction hissued with
  | start =>
      refine ⟨⟨fun exchange hmem => ?_, List.Perm.refl _⟩, Nat.zero_le 25⟩
      simp [init] at hmem
  | call before call ok ih =>
      rw [List.map_append]
      exact call_keeps hserve ih.1 ih.2 ok call

end BatchTable

/-! ## Contexts -/

open BatchTable in
/-- A context keeps the accounts at every moment, and has everything acknowledged
when it is left normally, if no call is made at a full buffer and no request that
sends entries again raises. -/
theorem batchTable_keeps {serve : ℕ → List (Entry ρ κ) → Answer ρ κ}
    {table : Encoding π δ ρ κ} (hserve : Accounts serve)
    {calls : List (BatchCall π δ)} {batch : BatchTable π δ ρ κ}
    (hissued : Issued serve table
      (fun batch _ => batch.shouldFlush = false) calls batch) :
    Keeps table (calls.map (BatchCall.entry table)) batch ∧
      ∀ rounds, ResendsAnswered
          ((exit serve table rounds).run batch).state.log →
        Keeps table (calls.map (BatchCall.entry table))
          ((exit serve table rounds).run batch).state ∧
        ∀ after, (exit serve table rounds).run batch = .ok () after →
          (calls.map (BatchCall.entry table)).Perm (acknowledged after.log) := by
  obtain ⟨hkeeps, hle⟩ := issued_keeps hserve hissued
  refine ⟨hkeeps, fun rounds hanswered => ?_⟩
  have hexit := exit_keeps hserve rounds hkeeps hle
  cases hrun : (exit serve table rounds).run batch with
  | ok _ s' =>
      rw [hrun] at hexit
      obtain ⟨hkeeps', hnil, hdata⟩ := hexit
      refine ⟨hkeeps', fun after hafter => ?_⟩
      cases hafter
      have hconserved := hkeeps'.conserved
      rwa [hdata, hnil, List.append_nil, List.append_nil] at hconserved
  | error _ s' =>
      rw [hrun] at hexit hanswered
      exact ⟨hexit hanswered, fun after hafter => by cases hafter⟩

/-- The batch table after some calls, whatever they are. -/
def issue (serve : ℕ → List (Entry ρ κ) → Answer ρ κ)
    (table : Encoding π δ ρ κ) (calls : List (BatchCall π δ)) :
    BatchTable π δ ρ κ :=
  calls.foldl (fun batch call => ((call.run serve table).run batch).state) .init

theorem issued_issue (serve : ℕ → List (Entry ρ κ) → Answer ρ κ)
    (table : Encoding π δ ρ κ) (calls : List (BatchCall π δ)) :
    Issued serve table (fun _ _ => True) calls (issue serve table calls) := by
  induction calls using List.reverseRecOn with
  | nil => exact .start
  | append_singleton calls call ih =>
      rw [issue, List.foldl_concat]
      exact .call ih call trivial

/-- A put and a delete, of which the service defers the delete. -/
theorem batchTable_keeps_two_calls :
    let serve : ℕ → List (Entry ℕ ℕ) → Answer ℕ ℕ := fun n entries =>
      if n = 0 then .answered (entries.take 1) (entries.drop 1)
      else .answered entries []
    let table : Encoding ℕ ℕ ℕ ℕ := { prepareFull := id, encodeKeys := id }
    let calls : List (BatchCall ℕ ℕ) := [.putItem 1, .deleteItem 2]
    ∀ after, (BatchTable.exit serve table 1).run (issue serve table calls) =
        .ok () after →
      [.putRequest 1, .deleteRequest 2].Perm (acknowledged after.log) := by
  intro serve table calls
  have hserve : Accounts serve := by
    intro n entries processed unprocessedItems hanswer
    by_cases hn : n = 0
    · simp only [serve, hn, if_true, Answer.answered.injEq] at hanswer
      rw [← hanswer.1, ← hanswer.2, List.take_append_drop]
    · simp only [serve, hn, if_false, Answer.answered.injEq] at hanswer
      rw [← hanswer.1, ← hanswer.2, List.append_nil]
  have hissued : Issued serve table (fun batch _ => batch.shouldFlush = false)
      calls (issue serve table calls) :=
    .call (.call .start (.putItem 1) rfl) (.deleteItem 2) rfl
  exact ((batchTable_keeps hserve hissued).2 1
    (by unfold ResendsAnswered; decide)).2

/-- When each request raises, 26 puts end in a request with 26 entries; and when an
entry is deferred and sending it again raises, it is lost. -/
theorem batchTable_oversized_and_lost :
    (¬∀ (serve : ℕ → List (Entry ℕ ℕ) → Answer ℕ ℕ)
        (table : Encoding ℕ ℕ ℕ ℕ) (calls : List (BatchCall ℕ ℕ))
        (batch : BatchTable ℕ ℕ ℕ ℕ) (rounds : ℕ), Accounts serve →
      Issued serve table (fun _ _ => True) calls batch →
      SizesLegal ((BatchTable.exit serve table rounds).run batch).state.log) ∧
    ¬∀ (serve : ℕ → List (Entry ℕ ℕ) → Answer ℕ ℕ)
        (table : Encoding ℕ ℕ ℕ ℕ) (calls : List (BatchCall ℕ ℕ))
        (batch : BatchTable ℕ ℕ ℕ ℕ) (rounds : ℕ), Accounts serve →
      Issued serve table (fun _ _ => True) calls batch →
      Keeps table (calls.map (BatchCall.entry table))
        ((BatchTable.exit serve table rounds).run batch).state := by
  constructor
  · intro hall
    have hsizes := hall (fun _ _ => .raises .requestError)
      { prepareFull := id, encodeKeys := id } (List.replicate 26 (.putItem 0)) _ 0
      (fun _ _ _ _ hanswer => by cases hanswer) (issued_issue _ _ _)
    revert hsizes
    unfold SizesLegal
    decide +kernel
  · intro hall
    have hkeeps := hall
      (fun n entries =>
        if n = 0 then .answered [] entries else .raises .requestError)
      { prepareFull := id, encodeKeys := id } [.putItem 0] _ 1
      (fun n entries processed unprocessedItems hanswer => by
        by_cases hn : n = 0
        · simp only [hn, if_true, Answer.answered.injEq] at hanswer
          rw [← hanswer.1, ← hanswer.2, List.nil_append]
        · simp [hn] at hanswer) (issued_issue _ _ _)
    exact absurd hkeeps.conserved.length_eq (by decide)

end Boto.DynamoDB2
