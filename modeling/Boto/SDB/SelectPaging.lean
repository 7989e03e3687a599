import Boto.Python

/-!
# Pages of selected items

`SelectResultSet` of `boto/sdb/queryresultset.py`, over a service that gives the matching items
page by page.  The token that a result set is left with is that of the next page only if the
iteration came to the end of a page.
-/

namespace Boto.SDB

variable {α : Type}

/-- A response to a request for items. -/
structure Page (α : Type) where
  items : List α
  nextToken : Option Text

/-- A service, by what it answers to a token. -/
abbrev SelectService (α : Type) := Option Text → Page α

/-- `SDBConnection.select`.  An empty token is not sent. -/
def select (service : SelectService α) (nextToken : Option Text) : Page α :=
  match nextToken with
  | some (c :: token) => service (some (c :: token))
  | _ => service none

/-- `self.max_items and num_results >= self.max_items`. -/
def isFull (maxItems : Option ℕ) (numResults : ℕ) : Bool :=
  match maxItems with
  | none => false
  | some maxItems => decide (maxItems ≠ 0) && decide (maxItems ≤ numResults)

/-- The loop over the items of a response: what it yields, the number of results after it, and
whether it stopped the iteration. -/
def yieldItems (maxItems : Option ℕ) : ℕ → List α → List α × ℕ × Bool
  | numResults, [] => ([], numResults, false)
  | numResults, item :: items =>
      if isFull maxItems numResults then ([], numResults, true)
      else
        let (yielded, numResults, stopped) := yieldItems maxItems (numResults + 1) items
        (item :: yielded, numResults, stopped)

/-- An iteration: what it yields, the token of the result set after it, and whether it stopped
because of `max_items`. -/
structure Iteration (α : Type) where
  yielded : List α
  nextToken : Option Text
  stopped : Bool

/-- `SelectResultSet.__iter__`, from a token and a number of results on.  The token of the
result set is what the next request is made with. -/
def iterate (service : SelectService α) (maxItems : Option ℕ) :
    ℕ → Option Text → ℕ → Option (Iteration α)
  | 0, _, _ => none
  | fuel + 1, nextToken, numResults =>
      let rs := select service nextToken
      let (yielded, numResults, stopped) := yieldItems maxItems numResults rs.items
      if stopped then some ⟨yielded, nextToken, true⟩
      else if isFull maxItems numResults then some ⟨yielded, rs.nextToken, true⟩
      else
        match rs.nextToken with
        | none => some ⟨yielded, none, false⟩
        | some token =>
            (iterate service maxItems fuel (some token) numResults).map fun later =>
              { later with yielded := yielded ++ later.yielded }

/-- The pages that a service gives one after the other, from a token on. -/
inductive Serves (service : SelectService α) : Option Text → List (List α) → Prop
  | last {token : Option Text} {items : List α} (hpage : select service token = ⟨items, none⟩) :
      Serves service token [items]
  | more {token : Option Text} {items : List α} {next : Text} {pages : List (List α)}
      (hpage : select service token = ⟨items, some next⟩)
      (hrest : Serves service (some next) pages) : Serves service token (items :: pages)

/-! ## One page -/

section

variable {service : SelectService α} {token : Option Text} {pages : List (List α)}

@[simp] theorem isFull_none (numResults : ℕ) : isFull none numResults = false := rfl

theorem isFull_some {maxItems : ℕ} (hmax : maxItems ≠ 0) (numResults : ℕ) :
    isFull (some maxItems) numResults = decide (maxItems ≤ numResults) := by
  rw [isFull, decide_eq_true hmax, Bool.true_and]

/-- Without a limit all items of a page are yielded. -/
theorem yieldItems_none (numResults : ℕ) (items : List α) :
    yieldItems none numResults items = (items, numResults + items.length, false) := by
  induction items generalizing numResults with
  | nil => rfl
  | cons item items ih =>
      rw [yieldItems, isFull_none, if_neg Bool.false_ne_true, ih, List.length_cons]
      simp only [Prod.mk.injEq, true_and, and_true]
      omega

/-- With a limit, the loop stops the iteration if items are left on the page. -/
theorem yieldItems_some {maxItems : ℕ} (hmax : maxItems ≠ 0) {numResults : ℕ}
    (hnum : numResults ≤ maxItems) (items : List α) :
    yieldItems (some maxItems) numResults items =
      (items.take (maxItems - numResults),
        numResults + min (maxItems - numResults) items.length,
        decide (maxItems - numResults < items.length)) := by
  induction items generalizing numResults with
  | nil =>
      rw [yieldItems, List.take_nil, List.length_nil, Nat.min_zero, Nat.add_zero]
      simp
  | cons item items ih =>
      rw [yieldItems, isFull_some hmax]
      by_cases hfull : maxItems ≤ numResults
      · have hzero : maxItems - numResults = 0 := by omega
        rw [if_pos (decide_eq_true hfull), hzero, List.take_zero, Nat.zero_min, Nat.add_zero]
        simp
      · have hsplit : maxItems - numResults = (maxItems - (numResults + 1)) + 1 := by omega
        have hnext := @ih (numResults + 1) (by omega)
        rw [if_neg (by simpa using hfull), hnext, hsplit, List.take_succ_cons, List.length_cons]
        simp only [Prod.mk.injEq, true_and]
        constructor
        · omega
        · simp

/-! ## Runs -/

/-- More fuel does not change an iteration. -/
theorem iterate_succ {maxItems : Option ℕ} {fuel numResults : ℕ} {iteration : Iteration α}
    (hrun : iterate service maxItems fuel token numResults = some iteration) :
    iterate service maxItems (fuel + 1) token numResults = some iteration := by
  induction fuel generalizing token numResults iteration with
  | zero => cases hrun
  | succ fuel ih =>
      rw [iterate] at hrun ⊢
      dsimp only at hrun ⊢
      split at hrun
      · rename_i hstopped
        rw [if_pos hstopped]
        exact hrun
      rename_i hstopped
      rw [if_neg hstopped]
      split at hrun
      · rename_i hfull
        rw [if_pos hfull]
        exact hrun
      rename_i hfull
      rw [if_neg hfull]
      split at hrun
      · exact hrun
      · obtain ⟨later, hlater, rfl⟩ := Option.map_eq_some_iff.mp hrun
        rw [ih hlater]
        rfl

theorem iterate_add {maxItems : Option ℕ} {fuel numResults : ℕ} {iteration : Iteration α}
    (hrun : iterate service maxItems fuel token numResults = some iteration) (more : ℕ) :
    iterate service maxItems (fuel + more) token numResults = some iteration := by
  induction more with
  | zero => exact hrun
  | succ more ih => exact iterate_succ ih

/-- An iteration has one outcome. -/
theorem iterate_unique {maxItems : Option ℕ} {fuel fuel' numResults : ℕ}
    {iteration iteration' : Iteration α}
    (hrun : iterate service maxItems fuel token numResults = some iteration)
    (hrun' : iterate service maxItems fuel' token numResults = some iteration') :
    iteration = iteration' := by
  have hmore := iterate_add hrun fuel'
  rw [Nat.add_comm, iterate_add hrun' fuel] at hmore
  exact (Option.some.inj hmore).symm

/-- Without a limit an iteration yields what is on the pages. -/
theorem iterate_none (hserves : Serves service token pages) (numResults : ℕ) :
    iterate service none pages.length token numResults =
      some ⟨pages.flatten, none, false⟩ := by
  induction hserves generalizing numResults with
  | last hpage =>
      rw [List.length_singleton, iterate, hpage]
      dsimp only
      rw [yieldItems_none, List.flatten_cons, List.flatten_nil, List.append_nil]
      rfl
  | more hpage _ ih =>
      rw [List.length_cons, iterate, hpage]
      dsimp only
      rw [yieldItems_none]
      dsimp only
      rw [if_neg Bool.false_ne_true, isFull_none, if_neg Bool.false_ne_true, ih,
        List.flatten_cons]
      rfl

/-- Where an iteration is that has yielded `count` items: on a page that it has begun, with the
token of this page if items are left on it, and with that of the next one otherwise. -/
structure StoppedOn (service : SelectService α) (pages : List (List α)) (count : ℕ)
    (nextToken : Option Text) (before : List (List α)) (page : List α)
    (after : List (List α)) : Prop where
  pages_eq : pages = before ++ page :: after
  begun : before.flatten.length < count
  reached : count ≤ before.flatten.length + page.length
  again : count < before.flatten.length + page.length →
    Serves service nextToken (page :: after)
  next : count = before.flatten.length + page.length →
    after = [] ∧ nextToken = none ∨ after ≠ [] ∧ Serves service nextToken after

theorem Serves.ne_nil (hserves : Serves service token pages) : pages ≠ [] := by
  cases hserves with
  | last _ => exact List.cons_ne_nil _ _
  | more _ _ => exact List.cons_ne_nil _ _

/-- With a limit an iteration yields the first items, and stops where they end. -/
theorem iterate_some {maxItems : ℕ} (hserves : Serves service token pages) {numResults : ℕ}
    (hnum : numResults < maxItems) :
    ∃ iteration, iterate service (some maxItems) pages.length token numResults =
        some iteration ∧
      iteration.yielded = pages.flatten.take (maxItems - numResults) ∧
      (iteration.stopped = true → maxItems - numResults ≤ pages.flatten.length) ∧
      (maxItems - numResults ≤ pages.flatten.length → iteration.stopped = true ∧
        ∃ before page after, StoppedOn service pages (maxItems - numResults)
          iteration.nextToken before page after) := by
  have hmax : maxItems ≠ 0 := by omega
  induction hserves generalizing numResults with
  | @last token items hpage =>
      rw [List.length_singleton, iterate, hpage]
      dsimp only
      rw [yieldItems_some hmax (Nat.le_of_lt hnum), List.flatten_cons, List.flatten_nil,
        List.append_nil]
      dsimp only
      by_cases hleft : maxItems - numResults < items.length
      · rw [if_pos (decide_eq_true hleft)]
        refine ⟨_, rfl, rfl, fun _ => Nat.le_of_lt hleft, fun _ => ⟨rfl, [], items, [], ?_⟩⟩
        exact {
          pages_eq := rfl
          begun := Nat.sub_pos_of_lt hnum
          reached := by rw [List.flatten_nil, List.length_nil]; omega
          again := fun _ => .last hpage
          next := fun heq => by rw [List.flatten_nil, List.length_nil] at heq; omega }
      · rw [if_neg (by simpa using hleft), isFull_some hmax]
        by_cases hfull : maxItems ≤ numResults + min (maxItems - numResults) items.length
        · rw [if_pos (decide_eq_true hfull)]
          refine ⟨_, rfl, rfl, fun _ => by omega, fun _ => ⟨rfl, [], items, [], ?_⟩⟩
          exact {
            pages_eq := rfl
            begun := Nat.sub_pos_of_lt hnum
            reached := by rw [List.flatten_nil, List.length_nil]; omega
            again := fun hlt => by rw [List.flatten_nil, List.length_nil] at hlt; omega
            next := fun _ => .inl ⟨rfl, rfl⟩ }
        · rw [if_neg (by simpa using hfull)]
          refine ⟨_, rfl, rfl, fun hstopped => ?_, fun hle => ?_⟩
          · cases hstopped
          · omega
  | @more token items next pages hpage hrest ih =>
      rw [List.length_cons, iterate, hpage]
      dsimp only
      rw [yieldItems_some hmax (Nat.le_of_lt hnum), List.flatten_cons, List.length_append]
      dsimp only
      by_cases hleft : maxItems - numResults < items.length
      · rw [if_pos (decide_eq_true hleft)]
        refine ⟨_, rfl, ?_, fun _ => by omega, fun _ => ⟨rfl, [], items, pages, ?_⟩⟩
        · rw [List.take_append_of_le_length (Nat.le_of_lt hleft)]
        · exact {
            pages_eq := rfl
            begun := Nat.sub_pos_of_lt hnum
            reached := by rw [List.flatten_nil, List.length_nil]; omega
            again := fun _ => .more hpage hrest
            next := fun heq => by rw [List.flatten_nil, List.length_nil] at heq; omega }
      · rw [if_neg (by simpa using hleft), isFull_some hmax]
        by_cases hfull : maxItems ≤ numResults + min (maxItems - numResults) items.length
        · rw [if_pos (decide_eq_true hfull)]
          have hexact : maxItems - numResults = items.length := by omega
          refine ⟨_, rfl, ?_, fun _ => by omega, fun _ => ⟨rfl, [], items, pages, ?_⟩⟩
          · rw [List.take_append_of_le_length (Nat.le_of_eq hexact)]
          · exact {
              pages_eq := rfl
              begun := Nat.sub_pos_of_lt hnum
              reached := by rw [List.flatten_nil, List.length_nil]; omega
              again := fun hlt => by rw [List.flatten_nil, List.length_nil] at hlt; omega
              next := fun _ => .inr ⟨hrest.ne_nil, hrest⟩ }
        · rw [if_neg (by simpa using hfull)]
          have hmin : min (maxItems - numResults) items.length = items.length := by omega
          have hsub : maxItems - (numResults + items.length) =
              maxItems - numResults - items.length := by omega
          obtain ⟨later, hrun, hyielded, hstopped, hstops⟩ :=
            @ih (numResults + items.length) (by omega)
          rw [hsub] at hyielded hstopped hstops
          rw [hmin, hrun]
          refine ⟨_, rfl, ?_, fun hstop => ?_, fun hle => ?_⟩
          · dsimp only
            rw [hyielded, List.take_append, List.take_of_length_le (by omega)]
          · have hle := hstopped hstop
            omega
          · obtain ⟨hstop, before, page, after, hon⟩ := hstops (by omega)
            refine ⟨hstop, items :: before, page, after, ?_⟩
            have hbegun := hon.begun
            have hreached := hon.reached
            exact {
              pages_eq := by rw [hon.pages_eq, List.cons_append]
              begun := by rw [List.flatten_cons, List.length_append]; omega
              reached := by rw [List.flatten_cons, List.length_append]; omega
              again := fun hlt => hon.again (by
                rw [List.flatten_cons, List.length_append] at hlt; omega)
              next := fun heq => hon.next (by
                rw [List.flatten_cons, List.length_append] at heq; omega) }

end

/-! ## Continuing an iteration -/

/-- The first items, or all of them. -/
def firstItems (maxItems : Option ℕ) (items : List α) : List α :=
  match maxItems with
  | none => items
  | some maxItems => items.take maxItems

/-- An iteration yields the first items, and if it stopped at `max_items`, a new result set
with the token that the old one is left with yields the others. -/
def Continues (service : SelectService α) (items : List α) (maxItems : Option ℕ) : Prop :=
  ∃ fuel iteration, iterate service maxItems fuel none 0 = some iteration ∧
    iteration.yielded = firstItems maxItems items ∧
    (iteration.stopped = true → ∃ fuel later,
      iterate service none fuel iteration.nextToken 0 = some later ∧
        iteration.yielded ++ later.yielded = items)

/-- There are fewer items than wanted, or as many as wanted end a page that is not the last
one. -/
def EndsPage (pages : List (List α)) (maxItems : Option ℕ) : Prop :=
  match maxItems with
  | none => True
  | some maxItems => pages.flatten.length < maxItems ∨ ∃ before after, pages = before ++ after ∧
      after ≠ [] ∧ before.flatten.length = maxItems

section

variable {service : SelectService α} {pages : List (List α)}

/-- Pages in front of others have no more items. -/
theorem flatten_length_le {before after before' after' : List (List α)}
    (heq : before ++ after = before' ++ after') (hle : before.length ≤ before'.length) :
    before.flatten.length ≤ before'.flatten.length := by
  rcases List.append_eq_append_iff.mp heq with ⟨between, rfl, -⟩ | ⟨between, rfl, -⟩
  · rw [List.flatten_append, List.length_append]
    exact Nat.le_add_right _ _
  · rw [List.length_append] at hle
    have hnil : between = [] := List.length_eq_zero_iff.mp (by omega)
    have hsame : before' ++ between = before' := by rw [hnil, List.append_nil]
    exact Nat.le_of_eq (congrArg (fun pages => pages.flatten.length) hsame)

/-- An iteration can be continued exactly if it ends with a page that is not the last one. -/
theorem continues_iff (hserves : Serves service none pages) {maxItems : Option ℕ}
    (hmax : maxItems ≠ some 0) :
    Continues service pages.flatten maxItems ↔ EndsPage pages maxItems := by
  cases maxItems with
  | none =>
      refine iff_of_true ?_ trivial
      exact ⟨_, _, iterate_none hserves 0, rfl, fun hstopped => absurd hstopped
        Bool.false_ne_true⟩
  | some maxItems =>
      have hpositive : 0 < maxItems := Nat.pos_of_ne_zero fun hzero => hmax (by rw [hzero])
      obtain ⟨iteration, hrun, hyielded, hstopped, hstops⟩ := iterate_some hserves hpositive
      rw [Nat.sub_zero] at hyielded hstopped hstops
      by_cases hfew : pages.flatten.length < maxItems
      · refine iff_of_true ⟨_, iteration, hrun, hyielded, fun hstop => ?_⟩ (.inl hfew)
        have hle := hstopped hstop
        omega
      obtain ⟨hstop, before, page, after, hon⟩ := hstops (by omega)
      have hcount : iteration.yielded.length = maxItems := by
        rw [hyielded, List.length_take]
        omega
      have htotal : pages.flatten.length =
          before.flatten.length + (page.length + after.flatten.length) := by
        rw [hon.pages_eq, List.flatten_append, List.flatten_cons, List.length_append,
          List.length_append]
      have hbegun := hon.begun
      have hreached := hon.reached
      constructor
      · rintro ⟨fuel, iteration', hrun', -, hcontinues⟩
        obtain rfl := iterate_unique hrun hrun'
        obtain ⟨fuel, later, hlater, hall⟩ := hcontinues hstop
        have hlength := congrArg List.length hall
        rw [List.length_append, hcount] at hlength
        by_cases hinside : maxItems < before.flatten.length + page.length
        · -- The page on which the iteration stopped is read again.
          have heq := iterate_unique hlater (iterate_none (hon.again hinside) 0)
          rw [heq, List.flatten_cons, List.length_append] at hlength
          omega
        · rcases hon.next (by omega) with ⟨hlast, hnone⟩ | ⟨hmore, -⟩
          · -- Behind the last page there is no token, and everything is read again.
            rw [hnone] at hlater
            have heq := iterate_unique hlater (iterate_none hserves 0)
            rw [heq] at hlength
            dsimp only at hlength
            omega
          · refine .inr ⟨before ++ [page], after, ?_, hmore, ?_⟩
            · rw [hon.pages_eq, List.append_assoc, List.singleton_append]
            · rw [List.flatten_append, List.length_append, List.flatten_singleton]
              omega
      · rintro (hless | ⟨before', after', hpages, hafter, hlength⟩)
        · exact absurd hless hfew
        refine ⟨_, iteration, hrun, hyielded, fun _ => ?_⟩
        have hboth : before ++ page :: after = before' ++ after' :=
          hon.pages_eq.symm.trans hpages
        have hlonger : before.length < before'.length := by
          by_contra hle
          have hless := flatten_length_le hboth.symm (Nat.le_of_not_lt hle)
          omega
        have hboth' : (before ++ [page]) ++ after = before' ++ after' := by
          rw [List.append_assoc, List.singleton_append, hboth]
        have hfull : (before ++ [page]).flatten.length =
            before.flatten.length + page.length := by
          rw [List.flatten_append, List.length_append, List.flatten_singleton]
        have hexact : maxItems = before.flatten.length + page.length := by
          have hle := flatten_length_le hboth' (by rw [List.length_append]; exact hlonger)
          omega
        have hnotLast : after ≠ [] := by
          intro hnil
          have hends := congrArg List.length hboth'
          rw [hnil, List.length_append, List.length_append, List.length_append,
            List.length_singleton, List.length_nil] at hends
          have hpositive := List.length_pos_iff.mpr hafter
          omega
        rcases hon.next hexact with ⟨hlast, -⟩ | ⟨-, hrest⟩
        · exact absurd hlast hnotLast
        · refine ⟨_, _, iterate_none hrest 0, ?_⟩
          dsimp only
          rw [hyielded, ← hfull] at *
          rw [hon.pages_eq, ← List.singleton_append, ← List.append_assoc, List.flatten_append,
            hexact, List.take_left]

/-- Two pages of two items and one. -/
def twoPages : SelectService ℕ
  | none => ⟨[1, 2], some ['t']⟩
  | some _ => ⟨[3], none⟩

/-- Two items end the first page. -/
theorem continues_twoPages : Continues twoPages [1, 2, 3] (some 2) :=
  (@continues_iff _ twoPages [[1, 2], [3]] (.more rfl (.last rfl)) _ (by decide)).mpr
    (.inr ⟨[[1, 2]], [[3]], rfl, by decide, rfl⟩)

/-- One item is in the middle of the first page, which is read again. -/
theorem not_continues_twoPages : ¬Continues twoPages [1, 2, 3] (some 1) := by
  rintro ⟨fuel, iteration, hrun, -, hcontinues⟩
  have hone : iterate twoPages (some 1) 1 none 0 = some ⟨[1], none, true⟩ := rfl
  obtain rfl := iterate_unique hrun hone
  obtain ⟨fuel, later, hlater, hall⟩ := hcontinues rfl
  have hagain : iterate twoPages none 2 none 0 = some ⟨[1, 2, 3], none, false⟩ := rfl
  obtain rfl := iterate_unique hlater hagain
  exact absurd hall (by decide)

end

end Boto.SDB
