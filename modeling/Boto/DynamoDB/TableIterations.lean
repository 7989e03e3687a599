import Boto.DynamoDB.TablePages

/-!
# Whole iterations over pages

On its own an iteration yields what comes next and nothing else, and with a service that does
not answer with empty pages forever it comes to its end.
-/

namespace Boto.DynamoDB

variable {α Value Payload : Type}

namespace Iteration

variable {rest : Option (DynamoDBKey Payload) → List α} {layer2 : Layer2 Value Payload}
  {service : PageService α Value Payload} {maxResults : Option ℕ} {requestLimit : Option ℤ}
  {it it' : Iteration α Value Payload} {items : List α}

/-! ## Without the consumer -/

/-- Exactly the items in front of what is to come were yielded, and at the end they are
enough or nothing is to come. -/
def Exact (rest : Option (DynamoDBKey Payload) → List α) (maxResults : Option ℕ)
    (items : List α) (it : Iteration α Value Payload) : Prop :=
  ∃ later, it.yields.map Prod.snd ++ later = items ∧
    (it.point ≠ .done → it.upcoming rest = later) ∧
    (it.point = .done → maxResults = some it.yields.length ∨ later = [])

theorem Exact.of_moved (hexact : Exact rest maxResults items it) (hpoint : it.point ≠ .done)
    (hmoved : Moved rest maxResults it it') : Exact rest maxResults items it' := by
  obtain ⟨later, hitems, hlater, -⟩ := hexact
  obtain ⟨taken, hyields, hgoes, hends⟩ := hmoved
  have hlater := hlater hpoint
  by_cases hdone : it'.point = .done
  · obtain ⟨rfl, henough⟩ := hends hdone
    rw [List.append_nil] at hyields
    rw [hlater] at henough
    exact ⟨later, hyields ▸ hitems, fun hne => absurd hdone hne, fun _ => henough⟩
  · refine ⟨it'.upcoming rest, ?_, fun _ => rfl, fun heq => absurd heq hdone⟩
    rw [hyields, List.append_assoc, ← hgoes hdone, hlater, hitems]

/-- What was yielded is a part of what is wanted, and all of it at the end. -/
theorem Exact.wanted (hexact : Exact rest maxResults items it)
    (hsound : Sound maxResults requestLimit it) :
    it.yields.map Prod.snd <+: upToMax maxResults items ∧
      (it.point = .done → it.yields.map Prod.snd = upToMax maxResults items) := by
  obtain ⟨later, hitems, -, hends⟩ := hexact
  have hlength : (it.yields.map Prod.snd).length = it.yields.length := List.length_map _
  cases maxResults with
  | none =>
      refine ⟨⟨later, hitems⟩, fun hdone => ?_⟩
      have hnothing := (hends hdone).resolve_left (by simp)
      rw [hnothing, List.append_nil] at hitems
      exact hitems
  | some bound =>
      have hle := hsound.counts.2 bound rfl
      have htake : it.yields.map Prod.snd = items.take it.yields.length := by
        rw [← hitems, ← hlength, List.take_left]
      refine ⟨?_, fun hdone => ?_⟩
      · rw [htake]
        exact List.take_prefix_take_left hle
      · rcases hends hdone with hbound | hnothing
        · rw [htake, upToMax, Option.some.inj hbound]
        · rw [hnothing, List.append_nil] at hitems
          rw [upToMax, hitems, List.take_of_length_le]
          rw [← hitems, hlength]
          exact hle

/-- The iteration after so many steps on its own. -/
def advances (layer2 : Layer2 Value Payload) (service : PageService α Value Payload) (n : ℕ)
    (it : Iteration α Value Payload) : Option (Iteration α Value Payload) :=
  Runs.run (step layer2 service) it (List.replicate n .advance)

theorem advances_succ {n : ℕ} :
    advances layer2 service (n + 1) it =
      (it.advance layer2 service).bind (advances layer2 service n) :=
  rfl

theorem advances_keep (hserves : ServesPages layer2 service rest) {n : ℕ}
    (hinvariant : Invariant rest maxResults requestLimit items it)
    (hexact : Exact rest maxResults items it) (hrun : advances layer2 service n it = some it') :
    Invariant rest maxResults requestLimit items it' ∧ Exact rest maxResults items it' := by
  induction n generalizing it with
  | zero =>
      cases hrun
      exact ⟨hinvariant, hexact⟩
  | succ n ih =>
      rw [advances_succ] at hrun
      obtain ⟨middle, hstep, hrest⟩ := Option.bind_eq_some_iff.mp hrun
      have hnotDone : it.point ≠ .done := by
        intro hdone
        rw [advance, hdone] at hstep
        cases hstep
      obtain ⟨next, hadvance, hnext, hmoved⟩ := exists_advance hserves hinvariant hnotDone
      obtain rfl : next = middle := Option.some.inj (hadvance.symm.trans hstep)
      exact ih hnext (hexact.of_moved hnotDone hmoved) hrest

/-! ## The end -/

/-- An iteration ends, or yields another item, after some steps on its own. -/
def Progresses (rest : Option (DynamoDBKey Payload) → List α) (layer2 : Layer2 Value Payload)
    (service : PageService α Value Payload) (it : Iteration α Value Payload) : Prop :=
  ∃ n it', advances layer2 service n it = some it' ∧
    (it'.point = .done ∨ (it'.upcoming rest).length < (it.upcoming rest).length)

theorem Progresses.of_advance (hstep : it.advance layer2 service = some it')
    (hmoved : Moved rest maxResults it it')
    (hprogresses : it'.point ≠ .done → Progresses rest layer2 service it') :
    Progresses rest layer2 service it := by
  by_cases hdone : it'.point = .done
  · refine ⟨1, it', ?_, .inl hdone⟩
    rw [advances_succ, hstep]
    rfl
  · obtain ⟨n, last, hrun, hlast⟩ := hprogresses hdone
    obtain ⟨taken, -, hgoes, -⟩ := hmoved
    refine ⟨n + 1, last, ?_, hlast.imp id fun hlt => ?_⟩
    · rw [advances_succ, hstep]
      exact hrun
    · rw [hgoes hdone, List.length_append]
      omega

theorem progresses_item (hinvariant : Invariant rest maxResults requestLimit items it)
    {response : ℕ} {item : α} {left : List α}
    (hpoint : it.point = .items response (item :: left)) : Progresses rest layer2 service it := by
  have hstep : it.advance layer2 service = some (it.yieldItem response item left) := by
    rw [advance, hpoint]
    rfl
  obtain ⟨-, taken, hyields, hgoes, -⟩ := hinvariant.yields_item hpoint
  have htaken : taken = [item] := by
    rw [yieldItem, List.map_append] at hyields
    exact (List.append_cancel_left hyields).symm
  refine ⟨1, it.yieldItem response item left, ?_, .inr ?_⟩
  · rw [advances_succ, hstep]
    rfl
  · rw [hgoes (by simp [yieldItem]), htaken]
    exact Nat.lt_succ_self _

theorem askedLimit_ne_zero {generator : TableGenerator α Value Payload}
    (hremaining : generator.remaining ≠ 0)
    (hlimit : ∀ limit, generator.limit = some limit → 1 ≤ limit) :
    generator.askedLimit ≠ some 0 := by
  intro hzero
  rw [TableGenerator.askedLimit] at hzero
  cases hkwargs : generator.limit with
  | none =>
      rw [hkwargs] at hzero
      split at hzero
      · exact hremaining (Option.some.inj hzero)
      · cases hzero
  | some limit =>
      have hle := hlimit limit hkwargs
      rw [hkwargs] at hzero
      split at hzero
      · dsimp only at hzero
        split at hzero
        · exact hremaining (Option.some.inj hzero)
        · have heq := Option.some.inj hzero
          omega
      · have heq := Option.some.inj hzero
        omega

/-- An iteration progresses behind a page if it does with every page that can follow. -/
theorem progresses_of_next_page (hserves : ServesPages layer2 service rest)
    (hinvariant : Invariant rest maxResults requestLimit items it) {response : ℕ}
    (hpoint : it.point = .items response [])
    (hnext : ∀ (it' : Iteration α Value Payload) page,
      Invariant rest maxResults requestLimit items it' →
        it'.point = .items it.generator.calls page.items →
          it'.generator.calls = it.generator.calls + 1 →
            page = service it.generator.calls it.generator.exclusiveStartKey
              it.generator.askedLimit →
              rest it.generator.exclusiveStartKey ≠ [] → Progresses rest layer2 service it') :
    Progresses rest layer2 service it := by
  obtain ⟨current, hresponse, hremaining, -⟩ := hinvariant.page_of_items hpoint
  have hcurrent := hinvariant.current response current hresponse
  cases hlast : it.generator.lastEvaluatedKey with
  | none =>
      refine ⟨1, it.moveTo .done, ?_, .inl rfl⟩
      rw [advances_succ, advance, hpoint]
      dsimp only
      rw [hlast]
      rfl
  | some lastKey =>
      obtain ⟨base, page, hstep, hbase, hmoved, hloop, hpage, hsame, hcalls, hanswer⟩ :=
        advance_more hserves hinvariant hpoint hlast
      have hbaseRemaining : base.generator.remaining ≠ 0 := hsame ▸ hremaining
      obtain ⟨hentered, hmoved'⟩ := hbase.enters (.inr hloop) hbaseRemaining hpage
      have hstep' : base.advance layer2 service =
          some (base.moveTo (.items it.generator.calls page.items)) := by
        rw [advance, hloop]
        dsimp only
        rw [enter, if_neg hbaseRemaining]
        simp [Iteration.response, hpage, moveTo]
      have hmore : rest it.generator.exclusiveStartKey ≠ [] := by
        refine hcurrent.more ?_
        rw [← hcurrent.lastKey, hlast]
        simp
      refine Progresses.of_advance hstep hmoved fun _ => ?_
      refine Progresses.of_advance hstep' hmoved' fun _ => ?_
      exact hnext _ page hentered rfl hcalls hanswer hmore

/-- Empty pages come to an end. -/
theorem progresses_items_nil (hserves : ServesPages layer2 service rest)
    (hlimit : ∀ limit, requestLimit = some limit → 1 ≤ limit) {d : ℕ}
    (hinvariant : Invariant rest maxResults requestLimit items it)
    (hfair : ∀ start limit, rest start = [] ∨ limit = some 0 ∨
      (service (it.generator.calls + d) start limit).items ≠ [])
    {response : ℕ} (hpoint : it.point = .items response []) :
    Progresses rest layer2 service it := by
  obtain ⟨-, -, hremaining, -⟩ := hinvariant.page_of_items hpoint
  induction d generalizing it response with
  | zero =>
      refine progresses_of_next_page hserves hinvariant hpoint
        fun it' page hnext hpoint' _ hpage hmore => ?_
      have hitems : page.items ≠ [] := by
        rw [hpage]
        refine ((hfair _ _).resolve_left hmore).resolve_left ?_
        exact askedLimit_ne_zero hremaining (hinvariant.sound.limit ▸ hlimit)
      obtain ⟨item, left, heq⟩ := List.exists_cons_of_ne_nil hitems
      rw [heq] at hpoint'
      exact progresses_item hnext hpoint'
  | succ d ih =>
      refine progresses_of_next_page hserves hinvariant hpoint
        fun it' page hnext hpoint' hcalls _ _ => ?_
      cases hitems : page.items with
      | cons item left =>
          rw [hitems] at hpoint'
          exact progresses_item hnext hpoint'
      | nil =>
          rw [hitems] at hpoint'
          obtain ⟨-, -, hremaining', -⟩ := hnext.page_of_items hpoint'
          refine ih hnext ?_ hpoint' hremaining'
          rw [hcalls, Nat.add_assoc, Nat.add_comm 1 d]
          exact hfair

theorem progresses_items (hserves : ServesPages layer2 service rest)
    (hfair : FairPages service rest)
    (hlimit : ∀ limit, requestLimit = some limit → 1 ≤ limit)
    (hinvariant : Invariant rest maxResults requestLimit items it) {response : ℕ}
    {left : List α} (hpoint : it.point = .items response left) :
    Progresses rest layer2 service it := by
  cases left with
  | cons item left => exact progresses_item hinvariant hpoint
  | nil =>
      obtain ⟨m, hle, hfair⟩ := hfair it.generator.calls
      obtain ⟨d, rfl⟩ := Nat.exists_eq_add_of_le hle
      exact progresses_items_nil hserves hlimit hinvariant hfair hpoint

theorem point_of_enter (hstep : it.enter layer2 service = some it') :
    it'.point = .done ∨ ∃ response left, it'.point = .items response left := by
  rw [enter] at hstep
  split at hstep
  · cases hstep
    exact .inl rfl
  · obtain ⟨base, -, hstep⟩ := Option.bind_eq_some_iff.mp hstep
    obtain ⟨⟨response, page⟩, -, hstep⟩ := Option.bind_eq_some_iff.mp hstep
    cases hstep
    exact .inr ⟨response, page.items, rfl⟩

theorem progresses_enter (hserves : ServesPages layer2 service rest)
    (hfair : FairPages service rest)
    (hlimit : ∀ limit, requestLimit = some limit → 1 ≤ limit)
    (hinvariant : Invariant rest maxResults requestLimit items it)
    (hpoint : it.point = .start ∨ it.point = .loop) : Progresses rest layer2 service it := by
  obtain ⟨it', hstep, hnext, hmoved⟩ := advance_enter hserves hinvariant hpoint
  have hadvance : it.advance layer2 service = some it' := by
    rcases hpoint with hpoint | hpoint <;>
      · rw [advance, hpoint]
        exact hstep
  refine Progresses.of_advance hadvance hmoved fun hnotDone => ?_
  obtain ⟨response, left, hitems⟩ := (point_of_enter hstep).resolve_left hnotDone
  exact progresses_items hserves hfair hlimit hnext hitems

theorem point_of_yielded {response : ℕ} {left : List α} (hpoint : it.point = .yielded response left)
    (hstep : it.advance layer2 service = some it') :
    it'.point = .done ∨ it'.point = .loop ∨ it'.point = .items response left := by
  rw [advance, hpoint] at hstep
  dsimp only at hstep
  split at hstep
  · split at hstep
    · cases hstep
      exact .inr (.inl rfl)
    · cases hstep
      exact .inl rfl
  · cases hstep
    exact .inr (.inr rfl)

theorem progresses (hserves : ServesPages layer2 service rest)
    (hfair : FairPages service rest)
    (hlimit : ∀ limit, requestLimit = some limit → 1 ≤ limit)
    (hinvariant : Invariant rest maxResults requestLimit items it) (hdone : it.point ≠ .done) :
    Progresses rest layer2 service it := by
  cases hpoint : it.point with
  | start => exact progresses_enter hserves hfair hlimit hinvariant (.inl hpoint)
  | loop => exact progresses_enter hserves hfair hlimit hinvariant (.inr hpoint)
  | items response left => exact progresses_items hserves hfair hlimit hinvariant hpoint
  | yielded response left =>
      obtain ⟨it', hstep, hnext, hmoved⟩ := @advance_yielded _ _ _ _ layer2 service _ _ _ _
        hinvariant _ _ hpoint
      refine Progresses.of_advance hstep hmoved fun hnotDone => ?_
      rcases (point_of_yielded hpoint hstep).resolve_left hnotDone with hloop | hitems
      · exact progresses_enter hserves hfair hlimit hnext (.inr hloop)
      · exact progresses_items hserves hfair hlimit hnext hitems
  | done => exact absurd hpoint hdone

theorem advances_add {n m : ℕ} :
    advances layer2 service (n + m) it =
      (advances layer2 service n it).bind (advances layer2 service m) := by
  rw [advances, List.replicate_add, Runs.run_append]
  rfl

/-- With a fair service, an iteration on its own ends. -/
theorem exists_done (hserves : ServesPages layer2 service rest)
    (hfair : FairPages service rest)
    (hlimit : ∀ limit, requestLimit = some limit → 1 ≤ limit)
    (hinvariant : Invariant rest maxResults requestLimit items it)
    (hexact : Exact rest maxResults items it) :
    ∃ n it', advances layer2 service n it = some it' ∧ it'.point = .done := by
  induction hlength : (it.upcoming rest).length using Nat.strongRecOn generalizing it with
  | ind length ih =>
      by_cases hdone : it.point = .done
      · exact ⟨0, it, rfl, hdone⟩
      · obtain ⟨n, it', hrun, hend⟩ := progresses hserves hfair hlimit hinvariant hdone
        rcases hend with hend | hlt
        · exact ⟨n, it', hrun, hend⟩
        · obtain ⟨hnext, hnextExact⟩ := advances_keep hserves hinvariant hexact hrun
          obtain ⟨m, last, hlast, hend⟩ := ih _ (hlength ▸ hlt) hnext hnextExact rfl
          refine ⟨n + m, last, ?_, hend⟩
          rw [advances_add, hrun]
          exact hlast

/-! ## Iterations -/

/-- What an iteration with a consumer that asks for responses must do: it yields items in
their order and none twice, a first part of every page and no more than it may, asks for no
more than is left, keeps the limit of its caller, and ends only when it has yielded enough or
there is no more. -/
structure Right (maxResults : Option ℕ) (requestLimit : Option ℤ) (items : List α)
    (it : Iteration α Value Payload) : Prop where
  inOrder : (it.yields.map Prod.snd).Sublist items
  ofPages : ∀ (response : ℕ) page, it.pages[response]? = some page →
    it.yieldsOf response <+: page
  within : ∀ bound, maxResults = some bound → it.yields.length ≤ bound
  asks : it.AsksWithin maxResults
  limit : it.generator.limit = requestLimit
  ended : it.point = .done → maxResults = some it.yields.length ∨ it.Exhausted

theorem Invariant.right (hinvariant : Invariant rest maxResults requestLimit items it) :
    Right maxResults requestLimit items it where
  inOrder := by
    obtain ⟨consumed, later, hsublist, hitems, -⟩ := hinvariant.order
    rw [← hitems]
    exact hsublist.trans (List.sublist_append_left _ _)
  ofPages := hinvariant.sound.prefixes
  within := hinvariant.sound.counts.2
  asks := hinvariant.sound.asked
  limit := hinvariant.sound.limit
  ended := hinvariant.ended

/-- An iteration over the pages of a service is right after every run of a considerate
consumer.  Without a consumer that asks for responses, it yields the first items in their
order, and ends with all of them if the service is fair. -/
theorem iteration_right (layer2 : Layer2 Value Payload) (service : PageService α Value Payload)
    (rest : Option (DynamoDBKey Payload) → List α) (hserves : ServesPages layer2 service rest)
    (maxResults : Option ℕ) (requestLimit : Option ℤ)
    (hlimit : ∀ limit, requestLimit = some limit → 1 ≤ limit)
    (startKey : Option (DynamoDBKey Payload)) :
    let begun : Iteration α Value Payload :=
      init (TableGenerator.init maxResults requestLimit startKey)
    (∀ actions it, Runs.Guarded (step layer2 service) Considerate begun actions →
      Runs.run (step layer2 service) begun actions = some it →
        Right maxResults requestLimit (rest startKey) it) ∧
      (∀ n it, Runs.run (step layer2 service) begun (List.replicate n .advance) = some it →
        it.yields.map Prod.snd <+: upToMax maxResults (rest startKey) ∧
          (it.point = .done → it.yields.map Prod.snd = upToMax maxResults (rest startKey))) ∧
      (FairPages service rest → ∃ n it,
        Runs.run (step layer2 service) begun (List.replicate n .advance) = some it ∧
          it.point = .done) := by
  dsimp only
  have hinvariant := @invariant_init α Value Payload rest maxResults requestLimit startKey
  have hexact : Exact rest maxResults (rest startKey)
      (init (TableGenerator.init maxResults requestLimit startKey) :
        Iteration α Value Payload) :=
    ⟨rest startKey, rfl, fun _ => rfl, fun hdone => by cases hdone⟩
  refine ⟨fun actions it hguarded hrun => ?_, fun n it hrun => ?_, fun hfair => ?_⟩
  · exact (Runs.invariant_of_step (fun _ action _ hkept hconsiderate hstep =>
      hkept.step hserves hconsiderate hstep) hinvariant hguarded hrun).right
  · obtain ⟨hkept, hexact⟩ := advances_keep hserves hinvariant hexact hrun
    exact hexact.wanted hkept.sound
  · exact exists_done hserves hfair hlimit hinvariant hexact

end Iteration

/-! ## A list in pages -/

/-- Numbers, and keys that are numbers. -/
def numberLayer2 : Layer2 ℕ ℕ where
  encode value := .ok ⟨"N".toList, value⟩
  getTable name := ⟨name, ⟨"id".toList, "N".toList, none, none⟩⟩
  getTable_name _ := rfl

/-- How many items come before what a call asks for. -/
def startOf (start : Option (DynamoDBKey ℕ)) : ℕ :=
  (start.map fun key => key.hashKeyElement.payload).getD 0

/-- A service with pages of a size, whose keys are positions in a list. -/
def pagesOf (size : ℕ) (xs : List α) : PageService α ℕ ℕ := fun _ start limit =>
  let page := (xs.drop (startOf start)).take (min size ((limit.map Int.natAbs).getD size))
  { items := page
    count := page.length
    scannedCount := page.length
    lastEvaluatedKey :=
      if startOf start + page.length < xs.length then some ⟨startOf start + page.length, none⟩
      else none }

theorem pagesOf_serves (size : ℕ) (xs : List α) :
    ServesPages numberLayer2 (pagesOf size xs) fun start => xs.drop (startOf start) where
  size n start limit hlimit := by
    change ((((xs.drop (startOf start)).take (min size limit.natAbs)).length : ℕ) : ℤ) ≤ limit
    rw [List.length_take]
    omega
  ended n start limit hlast := by
    rw [pagesOf] at hlast ⊢
    dsimp only at hlast ⊢
    split at hlast
    · cases hlast
    · rename_i hall
      rw [List.length_take, List.length_drop] at hall
      rw [List.take_of_length_le]
      rw [List.length_drop]
      omega
  lastKey n start limit lastKey hlast := by
    rw [pagesOf] at hlast ⊢
    dsimp only at hlast ⊢
    split at hlast
    · rename_i hmore
      cases hlast
      refine ⟨_, rfl, ?_, ?_⟩
      · rw [ne_eq, List.drop_eq_nil_iff]
        exact Nat.not_le.mpr hmore
      · change _ ++ xs.drop (startOf start + List.length _) = _
        generalize min size ((limit.map Int.natAbs).getD size) = n at hmore ⊢
        rw [List.length_take, List.length_drop] at hmore ⊢
        rw [Nat.min_eq_left (by omega), ← List.drop_drop]
        exact List.take_append_drop _ _
    · cases hlast

theorem pagesOf_fair {size : ℕ} (hsize : 0 < size) (xs : List α) :
    FairPages (pagesOf size xs) fun start => xs.drop (startOf start) := by
  refine fun n => ⟨n, Nat.le_refl n, fun start limit => ?_⟩
  by_cases hrest : xs.drop (startOf start) = []
  · exact .inl hrest
  · by_cases hlimit : limit = some 0
    · exact .inr (.inl hlimit)
    · refine .inr (.inr fun hempty => ?_)
      rw [pagesOf] at hempty
      dsimp only at hempty
      rw [List.take_eq_nil_iff] at hempty
      rcases hempty with hzero | hnil
      · cases limit with
        | none =>
            simp at hzero
            omega
        | some limit =>
            simp at hzero hlimit
            omega
      · exact hrest hnil

/-- Two pages, of which the rest of the first one is skipped. -/
def skipping : List Iteration.Action :=
  [.advance, .advance, .nextResponse, .advance, .advance, .advance]

theorem iteration_right_three :
    (∃ it : Iteration ℕ ℕ ℕ, it.yields.map Prod.snd = [1, 3] ∧
      Iteration.Right none (some 2) [1, 2, 3] it) ∧
      ∃ it : Iteration ℕ ℕ ℕ, it.point = .done ∧ it.yields.map Prod.snd = [1, 2] := by
  constructor
  · obtain ⟨it, hrun⟩ := Option.isSome_iff_exists.mp (show (Runs.run (Iteration.step numberLayer2
      (pagesOf 2 [1, 2, 3])) (Iteration.init (TableGenerator.init none (some 2) none))
        skipping).isSome = true by decide +kernel)
    refine ⟨it, ?_, (Iteration.iteration_right numberLayer2 (pagesOf 2 [1, 2, 3]) _ (pagesOf_serves 2 _)
      none (some 2) (by decide) none).1 skipping it (by decide +kernel) hrun⟩
    cases hrun
    rfl
  · obtain ⟨-, hexact, hends⟩ := Iteration.iteration_right numberLayer2 (pagesOf 2 [1, 2, 3]) _
      (pagesOf_serves 2 _) (some 2) none (by decide) none
    obtain ⟨n, it, hrun, hdone⟩ := hends (pagesOf_fair (by decide) _)
    exact ⟨it, hdone, (hexact n it hrun).2 hdone⟩

/-- The only page is asked for again, and its first item is yielded twice. -/
theorem iteration_repeats : ¬∀ (service : PageService ℕ ℕ ℕ) rest,
    ServesPages numberLayer2 service rest → ∀ actions it,
      Runs.run (Iteration.step numberLayer2 service)
        (Iteration.init (TableGenerator.init none none none)) actions = some it →
          Iteration.Right none none (rest none) it := by
  intro hclaim
  have hright := hclaim (pagesOf 2 [1]) _ (pagesOf_serves 2 [1]) skipping _ rfl
  have hlength := hright.inOrder.length_le
  revert hlength
  decide

end Boto.DynamoDB
