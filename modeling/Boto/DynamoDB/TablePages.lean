import Boto.DynamoDB.TableGenerator
import Boto.Support.Runs
import Mathlib.Data.List.Infix
import Mathlib.Tactic.Common

/-!
# What an iteration over pages yields

A service has a list of items, and answers with a part of what comes behind the start key.
An iteration yields the first ones in their order.  A consumer that skips pages gets a part
of each, as long as it does not skip the last page, where the same page is asked for again.
-/

namespace Boto.DynamoDB

variable {α Value Payload : Type}

/-! ## The service -/

/-- A service by the items behind each start key: an answer has the first of them, within the
limit, and a key for the rest exactly if there is one. -/
structure ServesPages (layer2 : Layer2 Value Payload) (service : PageService α Value Payload)
    (rest : Option (DynamoDBKey Payload) → List α) : Prop where
  size : ∀ n start (limit : ℤ), 0 ≤ limit →
    ((service n start (some limit)).items.length : ℤ) ≤ limit
  ended : ∀ n start limit, (service n start limit).lastEvaluatedKey = none →
    (service n start limit).items = rest start
  lastKey : ∀ n start limit lastKey,
    (service n start limit).lastEvaluatedKey = some lastKey →
      ∃ key, layer2.dynamizeLastEvaluatedKey lastKey = .ok key ∧ rest (some key) ≠ [] ∧
        (service n start limit).items ++ rest (some key) = rest start

/-- Again and again a call is answered with an item if it asks for one and there is one. -/
def FairPages (service : PageService α Value Payload)
    (rest : Option (DynamoDBKey Payload) → List α) : Prop :=
  ∀ n, ∃ m, n ≤ m ∧ ∀ start limit,
    rest start = [] ∨ limit = some 0 ∨ (service m start limit).items ≠ []

/-- The first items, or all of them. -/
def upToMax (maxResults : Option ℕ) (items : List α) : List α :=
  match maxResults with
  | none => items
  | some maxResults => items.take maxResults

namespace Iteration

variable (rest : Option (DynamoDBKey Payload) → List α)

/-- The items behind the current page. -/
def ahead (it : Iteration α Value Payload) : List α :=
  match it.generator.lastEvaluatedKey with
  | none => []
  | some _ => rest it.generator.exclusiveStartKey

/-- What is left of the current page. -/
def left (it : Iteration α Value Payload) (response : ℕ) (page : List α) : List α :=
  match it.point with
  | .items _ left => left
  | .yielded other left => if other = response then left else page
  | _ => page

/-- What an iteration yields if it is not interfered with. -/
def upcoming (it : Iteration α Value Payload) : List α :=
  match it.generator.response with
  | none => rest it.generator.exclusiveStartKey
  | some (response, page) => it.left response page.items ++ it.ahead rest

/-- What was yielded of a response. -/
def yieldsOf (it : Iteration α Value Payload) (response : ℕ) : List α :=
  (it.yields.filter fun item => decide (item.1 = response)).map Prod.snd

/-- What the countdown starts with. -/
def countdown (maxResults : Option ℕ) : ℤ :=
  match maxResults with
  | none => -1
  | some maxResults => maxResults

/-- The countdown has been decreased by what was yielded. -/
def Counts (maxResults : Option ℕ) (it : Iteration α Value Payload) : Prop :=
  it.generator.remaining = countdown maxResults - it.yields.length ∧
    ∀ bound, maxResults = some bound → it.yields.length ≤ bound

/-- Calls ask for no more than may be yielded. -/
def AsksWithin (maxResults : Option ℕ) (it : Iteration α Value Payload) : Prop :=
  ∀ bound, maxResults = some bound → ∀ call ∈ it.asked,
    ∃ limit, call.1 = some limit ∧ limit ≤ bound - call.2

/-- What holds wherever an iteration is. -/
structure Sound (maxResults : Option ℕ) (requestLimit : Option ℤ)
    (it : Iteration α Value Payload) : Prop where
  limit : it.generator.limit = requestLimit
  counts : it.Counts maxResults
  asked : it.AsksWithin maxResults
  calls : it.pages.length = it.generator.calls
  yielded : ∀ item ∈ it.yields, item.1 < it.generator.calls
  prefixes : ∀ (response : ℕ) page, it.pages[response]? = some page →
    it.yieldsOf response <+: page

/-- What was yielded of the current page, by where an iteration is. -/
def PlacedAt (it : Iteration α Value Payload) (response : ℕ) (page : List α) :
    Point α → Prop
  | .start => it.yieldsOf response = []
  | .loop => it.yieldsOf response = []
  | .items other left =>
      other = response ∧ it.generator.remaining ≠ 0 ∧ it.yieldsOf response ++ left = page
  | .yielded other left =>
      if other = response then it.yieldsOf response ++ left = page
      else it.yieldsOf response = []
  | .done => True

/-- The current response is that of the last call, and what it says is known. -/
structure Current (it : Iteration α Value Payload) (response : ℕ)
    (page : PageResponse α Value) : Prop where
  last : response + 1 = it.generator.calls
  answered : it.pages[response]? = some page.items
  lastKey : it.generator.lastEvaluatedKey = page.lastEvaluatedKey
  ended : page.lastEvaluatedKey = none → rest it.generator.exclusiveStartKey = page.items
  more : page.lastEvaluatedKey ≠ none → rest it.generator.exclusiveStartKey ≠ []

variable {rest} {layer2 : Layer2 Value Payload} {service : PageService α Value Payload}
  {maxResults : Option ℕ} {requestLimit : Option ℤ} {it it' : Iteration α Value Payload}

/-- A call has been answered with a page of what comes next. -/
structure Fetched (rest : Option (DynamoDBKey Payload) → List α)
    (it it' : Iteration α Value Payload) (page : PageResponse α Value) : Prop where
  response : it'.generator.response = some (it.generator.calls, page)
  calls : it'.generator.calls = it.generator.calls + 1
  remaining : it'.generator.remaining = it.generator.remaining
  limit : it'.generator.limit = it.generator.limit
  point : it'.point = it.point
  yields : it'.yields = it.yields
  pages : it'.pages = it.pages ++ [page.items]
  asked : it'.asked = it.asked ++ [(it.generator.askedLimit, it.yields.length)]
  lastKey : it'.generator.lastEvaluatedKey = page.lastEvaluatedKey
  items : page.items ++ it'.ahead rest = rest it.generator.exclusiveStartKey
  ended : page.lastEvaluatedKey = none → rest it'.generator.exclusiveStartKey = page.items
  more : page.lastEvaluatedKey ≠ none → rest it'.generator.exclusiveStartKey ≠ []

theorem fetch_eq (it : Iteration α Value Payload) :
    it.fetch layer2 service = (do
      let page := service it.generator.calls it.generator.exclusiveStartKey
        it.generator.askedLimit
      let answered : TableGenerator α Value Payload := {
        it.generator with
        response := some (it.generator.calls, page)
        calls := it.generator.calls + 1
        count := it.generator.count + page.count
        scannedCount := it.generator.scannedCount + page.scannedCount }
      let generator ← match page.lastEvaluatedKey with
        | none => some { answered with lastEvaluatedKey := none }
        | some lastKey =>
            (layer2.dynamizeLastEvaluatedKey lastKey).toOption.map fun startKey => {
              answered with
              exclusiveStartKey := some startKey
              lastEvaluatedKey := some lastKey }
      return {
        it with
        generator := generator
        pages := it.pages ++ [page.items]
        asked := it.asked ++ [(it.generator.askedLimit, it.yields.length)] }) := by
  rw [fetch, TableGenerator.nextResponse]
  dsimp only
  cases (service it.generator.calls it.generator.exclusiveStartKey
    it.generator.askedLimit).lastEvaluatedKey with
  | none => rfl
  | some lastKey =>
      dsimp only
      cases layer2.dynamizeLastEvaluatedKey lastKey with
      | error e => rfl
      | ok startKey => rfl

/-- A call succeeds. -/
theorem exists_fetched (hserves : ServesPages layer2 service rest)
    (it : Iteration α Value Payload) :
    ∃ it' page, it.fetch layer2 service = some it' ∧ Fetched rest it it' page ∧
      page = service it.generator.calls it.generator.exclusiveStartKey
        it.generator.askedLimit := by
  obtain ⟨page, hpage⟩ : ∃ page, page = service it.generator.calls
    it.generator.exclusiveStartKey it.generator.askedLimit := ⟨_, rfl⟩
  rw [fetch_eq, ← hpage]
  dsimp only
  cases hlast : page.lastEvaluatedKey with
  | none =>
      have hended := hserves.ended _ _ _ (hpage ▸ hlast)
      rw [← hpage] at hended
      refine ⟨_, page, rfl, ⟨rfl, rfl, rfl, rfl, rfl, rfl, rfl, rfl, hlast.symm, ?_, ?_, ?_⟩,
        rfl⟩
      · exact (List.append_nil _).trans hended
      · exact fun _ => hended.symm
      · exact fun hne => absurd hlast hne
  | some lastKey =>
      obtain ⟨key, hkey, hmore, hrest⟩ := hserves.lastKey _ _ _ _ (hpage ▸ hlast)
      rw [← hpage] at hrest
      dsimp only
      rw [hkey]
      refine ⟨_, page, rfl, ⟨rfl, rfl, rfl, rfl, rfl, rfl, rfl, rfl, hlast.symm, ?_, ?_, ?_⟩,
        rfl⟩
      · exact hrest
      · intro hnone
        rw [hlast] at hnone
        cases hnone
      · exact fun _ => hmore

/-! ## Calls -/

theorem askedLimit_le {generator : TableGenerator α Value Payload}
    (hpos : 0 < generator.remaining) :
    ∃ limit, generator.askedLimit = some limit ∧ limit ≤ generator.remaining := by
  rw [TableGenerator.askedLimit, if_pos hpos]
  cases generator.limit with
  | none => exact ⟨_, rfl, Int.le_refl _⟩
  | some limit =>
      dsimp only
      split
      · exact ⟨_, rfl, Int.le_refl _⟩
      · exact ⟨_, rfl, by omega⟩

theorem yieldsOf_eq_nil {response : ℕ} (hyields : ∀ item ∈ it.yields, item.1 ≠ response) :
    it.yieldsOf response = [] := by
  rw [yieldsOf, List.map_eq_nil_iff, List.filter_eq_nil_iff]
  intro item hitem
  simpa using hyields item hitem

variable {page : PageResponse α Value}

theorem Fetched.yieldsOf_eq (hfetched : Fetched rest it it' page) (response : ℕ) :
    it'.yieldsOf response = it.yieldsOf response := by
  rw [yieldsOf, hfetched.yields, yieldsOf]

theorem Sound.yieldsOf_next (hsound : Sound maxResults requestLimit it) :
    it.yieldsOf it.generator.calls = [] :=
  yieldsOf_eq_nil fun item hitem => Nat.ne_of_lt (hsound.yielded item hitem)

/-- A call while items may be yielded asks for no more than these. -/
theorem Sound.fetched (hsound : Sound maxResults requestLimit it)
    (hremaining : it.generator.remaining ≠ 0) (hfetched : Fetched rest it it' page) :
    Sound maxResults requestLimit it' where
  limit := hfetched.limit.trans hsound.limit
  counts := by
    rw [Counts, hfetched.remaining, hfetched.yields]
    exact hsound.counts
  asked bound hbound call hcall := by
    rw [hfetched.asked, List.mem_append, List.mem_singleton] at hcall
    rcases hcall with hcall | rfl
    · exact hsound.asked bound hbound call hcall
    · have hle := hsound.counts.2 bound hbound
      have hcount : it.generator.remaining = bound - it.yields.length := by
        rw [hsound.counts.1, hbound]
        rfl
      obtain ⟨limit, hlimit, hle⟩ := @askedLimit_le _ _ _ it.generator (by omega)
      exact ⟨limit, hlimit, by omega⟩
  calls := by
    rw [hfetched.pages, hfetched.calls, List.length_append, hsound.calls]
    rfl
  yielded item hitem := by
    rw [hfetched.yields] at hitem
    rw [hfetched.calls]
    exact Nat.lt_succ_of_lt (hsound.yielded item hitem)
  prefixes response other hother := by
    rw [hfetched.yieldsOf_eq]
    rw [hfetched.pages] at hother
    by_cases hlt : response < it.pages.length
    · rw [List.getElem?_append_left hlt] at hother
      exact hsound.prefixes response other hother
    · rw [yieldsOf_eq_nil fun item hitem => ?_]
      · exact List.nil_prefix
      · have hitem := hsound.yielded item hitem
        rw [← hsound.calls] at hitem
        omega

theorem Fetched.current (hsound : Sound maxResults requestLimit it)
    (hfetched : Fetched rest it it' page) : Current rest it' it.generator.calls page where
  last := hfetched.calls.symm
  answered := by
    rw [hfetched.pages, ← hsound.calls, List.getElem?_append_right (Nat.le_refl _),
      Nat.sub_self]
    rfl
  lastKey := hfetched.lastKey
  ended := hfetched.ended
  more := hfetched.more

/-! ## Points -/

/-- The last response says that there is no more, and all of its items were yielded. -/
def Exhausted (it : Iteration α Value Payload) : Prop :=
  ∃ response page, it.generator.response = some (response, page) ∧
    page.lastEvaluatedKey = none ∧ it.yieldsOf response = page.items

/-- What was yielded is in the order of the items, in front of what is to come. -/
def InOrder (rest : Option (DynamoDBKey Payload) → List α) (items : List α)
    (it : Iteration α Value Payload) : Prop :=
  ∃ consumed later, (it.yields.map Prod.snd).Sublist consumed ∧ consumed ++ later = items ∧
    (it.point ≠ .done → it.upcoming rest = later)

/-- What holds at every point of an iteration. -/
structure Invariant (rest : Option (DynamoDBKey Payload) → List α) (maxResults : Option ℕ)
    (requestLimit : Option ℤ) (items : List α) (it : Iteration α Value Payload) : Prop where
  sound : Sound maxResults requestLimit it
  unanswered : it.generator.response = none →
    it.point = .start ∨ it.point = .loop ∨ it.point = .done
  current : ∀ response page, it.generator.response = some (response, page) →
    Current rest it response page
  placed : ∀ response page, it.generator.response = some (response, page) →
    it.PlacedAt response page.items it.point
  seen : ∀ response left, it.point = .yielded response left → response < it.generator.calls
  ended : it.point = .done → maxResults = some it.yields.length ∨ it.Exhausted
  order : InOrder rest items it

variable {items : List α}

/-- A call that goes on behind what was consumed keeps everything. -/
theorem Invariant.of_fetched (hsound : Sound maxResults requestLimit it)
    (hremaining : it.generator.remaining ≠ 0) (hfetched : Fetched rest it it' page)
    (hpoint : it.point = .start ∨ it.point = .loop ∨
      ∃ response left, it.point = .yielded response left ∧ response < it.generator.calls)
    (horder : ∃ consumed, (it.yields.map Prod.snd).Sublist consumed ∧
      consumed ++ rest it.generator.exclusiveStartKey = items) :
    Invariant rest maxResults requestLimit items it' ∧
      it'.upcoming rest = rest it.generator.exclusiveStartKey := by
  have hupcoming : it'.upcoming rest = rest it.generator.exclusiveStartKey := by
    rw [upcoming, hfetched.response, ← hfetched.items]
    dsimp only
    refine congrArg (· ++ _) ?_
    rw [left, hfetched.point]
    rcases hpoint with hpoint | hpoint | ⟨response, left, hpoint, hlt⟩
    · rw [hpoint]
    · rw [hpoint]
    · rw [hpoint]
      exact if_neg (Nat.ne_of_lt hlt)
  refine ⟨⟨hsound.fetched hremaining hfetched, fun hnone => ?_, fun response other hother => ?_,
    fun response other hother => ?_, fun response left hleft => ?_, fun hdone => ?_, ?_⟩,
    hupcoming⟩
  · rw [hfetched.response] at hnone
    cases hnone
  · rw [hfetched.response] at hother
    cases hother
    exact hfetched.current hsound
  · rw [hfetched.response] at hother
    cases hother
    have hnothing : it'.yieldsOf it.generator.calls = [] :=
      (hfetched.yieldsOf_eq _).trans hsound.yieldsOf_next
    rw [hfetched.point]
    rcases hpoint with hpoint | hpoint | ⟨response, left, hpoint, hlt⟩
    · rw [hpoint]
      exact hnothing
    · rw [hpoint]
      exact hnothing
    · rw [hpoint, PlacedAt, if_neg (Nat.ne_of_lt hlt)]
      exact hnothing
  · rw [hfetched.calls]
    rw [hfetched.point] at hleft
    rcases hpoint with hpoint | hpoint | ⟨other, old, hpoint, hlt⟩
    · rw [hpoint] at hleft
      cases hleft
    · rw [hpoint] at hleft
      cases hleft
    · rw [hpoint] at hleft
      cases hleft
      exact Nat.lt_succ_of_lt hlt
  · rw [hfetched.point] at hdone
    rcases hpoint with hpoint | hpoint | ⟨response, left, hpoint, -⟩ <;>
      · rw [hpoint] at hdone
        cases hdone
  · obtain ⟨consumed, hsublist, hitems⟩ := horder
    exact ⟨consumed, _, hfetched.yields ▸ hsublist, hitems, fun _ => hupcoming⟩

/-- The same iteration at another point. -/
def moveTo (it : Iteration α Value Payload) (point : Point α) : Iteration α Value Payload :=
  { it with point := point }

theorem Sound.moveTo (hsound : Sound maxResults requestLimit it) (point : Point α) :
    Sound maxResults requestLimit (it.moveTo point) :=
  ⟨hsound.limit, hsound.counts, hsound.asked, hsound.calls, hsound.yielded, hsound.prefixes⟩

theorem Current.moveTo {response : ℕ} (hcurrent : Current rest it response page)
    (point : Point α) : Current rest (it.moveTo point) response page :=
  ⟨hcurrent.last, hcurrent.answered, hcurrent.lastKey, hcurrent.ended, hcurrent.more⟩

/-- What an iteration has yielded by a step is what was to come, and when it ends, it has
yielded enough or nothing is to come. -/
def Moved (rest : Option (DynamoDBKey Payload) → List α) (maxResults : Option ℕ)
    (it it' : Iteration α Value Payload) : Prop :=
  ∃ taken, it'.yields.map Prod.snd = it.yields.map Prod.snd ++ taken ∧
    (it'.point ≠ .done → it.upcoming rest = taken ++ it'.upcoming rest) ∧
    (it'.point = .done → taken = [] ∧
      (maxResults = some it'.yields.length ∨ it.upcoming rest = []))

theorem InOrder.of_moved (horder : InOrder rest items it) (hpoint : it.point ≠ .done)
    (hmoved : Moved rest maxResults it it') : InOrder rest items it' := by
  obtain ⟨consumed, later, hsublist, hitems, hlater⟩ := horder
  obtain ⟨taken, hyields, hgoes, hends⟩ := hmoved
  have hlater := hlater hpoint
  by_cases hdone : it'.point = .done
  · obtain ⟨rfl, -⟩ := hends hdone
    rw [List.append_nil] at hyields
    exact ⟨consumed, later, hyields ▸ hsublist, hitems, fun hne => absurd hdone hne⟩
  · refine ⟨consumed ++ taken, it'.upcoming rest, ?_, ?_, fun _ => rfl⟩
    · rw [hyields]
      exact hsublist.append (List.Sublist.refl _)
    · rw [List.append_assoc, ← hgoes hdone, hlater, hitems]

/-- The countdown is at its end when enough was yielded. -/
theorem Sound.maxResults_eq (hsound : Sound maxResults requestLimit it)
    (hremaining : it.generator.remaining = 0) : maxResults = some it.yields.length := by
  have hcount := hsound.counts.1
  rw [hremaining] at hcount
  cases maxResults with
  | none =>
      change (0 : ℤ) = -1 - _ at hcount
      omega
  | some bound =>
      change (0 : ℤ) = bound - _ at hcount
      exact congrArg some (by omega)

theorem Invariant.ends (hinvariant : Invariant rest maxResults requestLimit items it)
    (hpoint : it.point ≠ .done)
    (hended : maxResults = some it.yields.length ∨ it.Exhausted ∧ it.upcoming rest = []) :
    Invariant rest maxResults requestLimit items (it.moveTo .done) ∧
      Moved rest maxResults it (it.moveTo .done) := by
  have hmoved : Moved rest maxResults it (it.moveTo .done) := by
    refine ⟨[], (List.append_nil _).symm, fun hne => absurd rfl hne, fun _ => ⟨rfl, ?_⟩⟩
    exact hended.imp id And.right
  refine ⟨⟨hinvariant.sound.moveTo _, fun _ => .inr (.inr rfl),
    fun response page hpage => (hinvariant.current response page hpage).moveTo _,
    fun _ _ _ => trivial, fun response left hleft => ?_, fun _ => hended.imp id And.left,
    hinvariant.order.of_moved hpoint hmoved⟩, hmoved⟩
  cases hleft

/-- An iteration moves to another point of the same page. -/
theorem Invariant.moves (hinvariant : Invariant rest maxResults requestLimit items it)
    (hpoint : it.point ≠ .done) {point : Point α} (hnext : point ≠ .done) {response : ℕ}
    (hresponse : it.generator.response = some (response, page))
    (hplaced : it.PlacedAt response page.items point)
    (hseen : ∀ other left, point = .yielded other left → other < it.generator.calls)
    (hleft : it.left response page.items = (it.moveTo point).left response page.items) :
    Invariant rest maxResults requestLimit items (it.moveTo point) ∧
      Moved rest maxResults it (it.moveTo point) := by
  have hupcoming : it.upcoming rest = (it.moveTo point).upcoming rest := by
    rw [upcoming, hresponse]
    dsimp only
    rw [hleft, upcoming, show (it.moveTo point).generator.response = some (response, page) from
      hresponse]
    rfl
  have hmoved : Moved rest maxResults it (it.moveTo point) :=
    ⟨[], (List.append_nil _).symm, fun _ => hupcoming, fun hdone => absurd hdone hnext⟩
  refine ⟨⟨hinvariant.sound.moveTo _, fun hnone => ?_,
    fun response page hpage => (hinvariant.current response page hpage).moveTo _,
    fun other otherPage hother => ?_, hseen, fun hdone => absurd hdone hnext,
    hinvariant.order.of_moved hpoint hmoved⟩, hmoved⟩
  · rw [moveTo, hresponse] at hnone
    cases hnone
  · rw [moveTo, hresponse] at hother
    cases hother
    exact hplaced

/-- At the head of the loop, the items of the current page are next. -/
theorem Invariant.enters (hinvariant : Invariant rest maxResults requestLimit items it)
    (hpoint : it.point = .start ∨ it.point = .loop) (hremaining : it.generator.remaining ≠ 0)
    {response : ℕ} (hresponse : it.generator.response = some (response, page)) :
    Invariant rest maxResults requestLimit items (it.moveTo (.items response page.items)) ∧
      Moved rest maxResults it (it.moveTo (.items response page.items)) := by
  have hnothing : it.yieldsOf response = [] := by
    have hplaced := hinvariant.placed response page hresponse
    rcases hpoint with hpoint | hpoint <;>
      · rw [hpoint] at hplaced
        exact hplaced
  have hnotDone : it.point ≠ .done := by
    rcases hpoint with hpoint | hpoint <;>
      · rw [hpoint]
        simp
  refine hinvariant.moves hnotDone (by simp) hresponse ⟨rfl, hremaining, ?_⟩ (by simp) ?_
  · rw [hnothing, List.nil_append]
  · rcases hpoint with hpoint | hpoint <;>
      · rw [left, hpoint]
        rfl

/-- An item is yielded. -/
def yieldItem (it : Iteration α Value Payload) (response : ℕ) (item : α) (left : List α) :
    Iteration α Value Payload :=
  { it with
    generator := { it.generator with remaining := it.generator.remaining - 1 }
    yields := it.yields ++ [(response, item)]
    point := .yielded response left }

theorem yieldsOf_yieldItem {response other : ℕ} {item : α} {left : List α} :
    (it.yieldItem response item left).yieldsOf other =
      it.yieldsOf other ++ if response = other then [item] else [] := by
  rw [yieldsOf, yieldItem, List.filter_append, List.map_append, yieldsOf]
  by_cases hother : response = other <;> simp [hother]

theorem Sound.yieldItem (hsound : Sound maxResults requestLimit it)
    (hremaining : it.generator.remaining ≠ 0) {response : ℕ} {item : α} {left : List α}
    (hlt : response < it.generator.calls) {answered : List α}
    (hanswered : it.pages[response]? = some answered)
    (hpage : it.yieldsOf response ++ item :: left = answered) :
    Sound maxResults requestLimit (it.yieldItem response item left) where
  limit := hsound.limit
  counts := by
    have hcount := hsound.counts.1
    constructor
    · change it.generator.remaining - 1 = countdown maxResults - ((it.yields ++ [_]).length : ℕ)
      rw [List.length_append, List.length_singleton]
      omega
    · intro bound hbound
      have hle := hsound.counts.2 bound hbound
      rw [hbound, countdown] at hcount
      change (it.yields ++ [_]).length ≤ bound
      rw [List.length_append, List.length_singleton]
      omega
  asked := hsound.asked
  calls := hsound.calls
  yielded other hother := by
    rcases List.mem_append.mp hother with hother | hother
    · exact hsound.yielded other hother
    · obtain rfl := List.mem_singleton.mp hother
      exact hlt
  prefixes other page hother := by
    rw [yieldsOf_yieldItem]
    by_cases hresponse : response = other
    · subst hresponse
      have hsame : answered = page := Option.some.inj (hanswered.symm.trans hother)
      rw [if_pos rfl, ← hsame, ← hpage]
      exact ⟨left, by rw [List.append_assoc, List.singleton_append]⟩
    · rw [if_neg hresponse, List.append_nil]
      exact hsound.prefixes other page hother

theorem Invariant.page_of_items (hinvariant : Invariant rest maxResults requestLimit items it)
    {response : ℕ} {left : List α} (hpoint : it.point = .items response left) :
    ∃ page, it.generator.response = some (response, page) ∧ it.generator.remaining ≠ 0 ∧
      it.yieldsOf response ++ left = page.items := by
  cases hresponse : it.generator.response with
  | none =>
      have hunanswered := hinvariant.unanswered hresponse
      rw [hpoint] at hunanswered
      simp at hunanswered
  | some answer =>
      obtain ⟨other, page⟩ := answer
      have hplaced := hinvariant.placed other page hresponse
      rw [hpoint] at hplaced
      obtain ⟨rfl, hremaining, hpage⟩ := hplaced
      exact ⟨page, rfl, hremaining, hpage⟩

theorem Invariant.yields_item (hinvariant : Invariant rest maxResults requestLimit items it)
    {response : ℕ} {item : α} {left : List α}
    (hpoint : it.point = .items response (item :: left)) :
    Invariant rest maxResults requestLimit items (it.yieldItem response item left) ∧
      Moved rest maxResults it (it.yieldItem response item left) := by
  obtain ⟨page, hresponse, hremaining, hpage⟩ := hinvariant.page_of_items hpoint
  have hcurrent := hinvariant.current response page hresponse
  have hlt : response < it.generator.calls := by
    have hlast := hcurrent.last
    omega
  have hmoved : Moved rest maxResults it (it.yieldItem response item left) := by
    refine ⟨[item], List.map_append, fun _ => ?_, fun hdone => by cases hdone⟩
    have hresponse' : (it.yieldItem response item left).generator.response =
        some (response, page) := hresponse
    rw [upcoming, upcoming, hresponse, hresponse']
    dsimp only
    rw [Iteration.left, Iteration.left, hpoint, yieldItem]
    dsimp only
    rw [if_pos rfl]
    rfl
  refine ⟨⟨hinvariant.sound.yieldItem hremaining hlt hcurrent.answered hpage, fun hnone => ?_,
    fun other otherPage hother => ?_, fun other otherPage hother => ?_, fun other left hleft => ?_,
    fun hdone => ?_, hinvariant.order.of_moved (by simp [hpoint]) hmoved⟩, hmoved⟩
  · rw [yieldItem, hresponse] at hnone
    cases hnone
  · have hother := hinvariant.current other otherPage hother
    exact ⟨hother.last, hother.answered, hother.lastKey, hother.ended, hother.more⟩
  · rw [yieldItem, hresponse] at hother
    cases hother
    change if response = response then _ else _
    rw [if_pos rfl, yieldsOf_yieldItem, if_pos rfl, List.append_assoc, List.singleton_append]
    exact hpage
  · cases hleft
    exact hlt
  · cases hdone

/-! ## Steps -/

theorem InOrder.exists_consumed (horder : InOrder rest items it) (hpoint : it.point ≠ .done)
    (skipped : List α)
    (hupcoming : it.upcoming rest = skipped ++ rest it.generator.exclusiveStartKey) :
    ∃ consumed, (it.yields.map Prod.snd).Sublist consumed ∧
      consumed ++ rest it.generator.exclusiveStartKey = items := by
  obtain ⟨consumed, later, hsublist, hitems, hlater⟩ := horder
  refine ⟨consumed ++ skipped, hsublist.trans (List.sublist_append_left _ _), ?_⟩
  rw [List.append_assoc, ← hupcoming, hlater hpoint, hitems]

theorem advance_enter (hserves : ServesPages layer2 service rest)
    (hinvariant : Invariant rest maxResults requestLimit items it)
    (hpoint : it.point = .start ∨ it.point = .loop) :
    ∃ it', it.enter layer2 service = some it' ∧
      Invariant rest maxResults requestLimit items it' ∧ Moved rest maxResults it it' := by
  have hnotDone : it.point ≠ .done := by
    rcases hpoint with hpoint | hpoint <;> simp [hpoint]
  by_cases hremaining : it.generator.remaining = 0
  · refine ⟨it.moveTo .done, if_pos hremaining, ?_⟩
    exact hinvariant.ends hnotDone (.inl (hinvariant.sound.maxResults_eq hremaining))
  · rw [enter, if_neg hremaining]
    cases hresponse : it.generator.response with
    | some answer =>
        obtain ⟨response, page⟩ := answer
        refine ⟨it.moveTo (.items response page.items), ?_,
          hinvariant.enters hpoint hremaining hresponse⟩
        simp [Iteration.response, hresponse, moveTo]
    | none =>
        obtain ⟨base, page, hfetch, hfetched, -⟩ := exists_fetched hserves it
        have hupcoming : it.upcoming rest = rest it.generator.exclusiveStartKey := by
          rw [upcoming, hresponse]
        obtain ⟨hbase, hbaseUpcoming⟩ := Invariant.of_fetched hinvariant.sound hremaining hfetched
          (by rcases hpoint with hpoint | hpoint <;> simp [hpoint])
          (hinvariant.order.exists_consumed hnotDone [] hupcoming)
        obtain ⟨hentered, hmoved⟩ := hbase.enters (hfetched.point ▸ hpoint)
          (hfetched.remaining ▸ hremaining) hfetched.response
        refine ⟨base.moveTo (.items it.generator.calls page.items), ?_, hentered, ?_⟩
        · simp [Iteration.response, hresponse, hfetch, hfetched.response, moveTo]
        · obtain ⟨taken, hyields, hgoes, hends⟩ := hmoved
          rw [hfetched.yields] at hyields
          refine ⟨taken, hyields, fun hne => ?_, fun hdone => by cases hdone⟩
          rw [hupcoming, ← hbaseUpcoming]
          exact hgoes hne

theorem Invariant.upcoming_of_items_nil
    (hinvariant : Invariant rest maxResults requestLimit items it) {response : ℕ}
    (hpoint : it.point = .items response []) : it.upcoming rest = it.ahead rest := by
  obtain ⟨page, hresponse, -, -⟩ := hinvariant.page_of_items hpoint
  rw [upcoming, hresponse]
  dsimp only
  rw [left, hpoint]
  rfl

/-- Behind a page with a last key, a call goes on with what it is answered. -/
theorem advance_more (hserves : ServesPages layer2 service rest)
    (hinvariant : Invariant rest maxResults requestLimit items it) {response : ℕ}
    (hpoint : it.point = .items response []) {lastKey : LastKey Value}
    (hlast : it.generator.lastEvaluatedKey = some lastKey) :
    ∃ it' page, it.advance layer2 service = some it' ∧
      Invariant rest maxResults requestLimit items it' ∧ Moved rest maxResults it it' ∧
      it'.point = .loop ∧ it'.generator.response = some (it.generator.calls, page) ∧
      it'.generator.remaining = it.generator.remaining ∧
      it'.generator.calls = it.generator.calls + 1 ∧
      page = service it.generator.calls it.generator.exclusiveStartKey
        it.generator.askedLimit := by
  obtain ⟨-, -, hremaining, -⟩ := hinvariant.page_of_items hpoint
  have hnotDone : it.point ≠ .done := by simp [hpoint]
  have hupcoming := hinvariant.upcoming_of_items_nil hpoint
  rw [ahead, hlast] at hupcoming
  obtain ⟨base, page, hfetch, hfetched, hpage⟩ := exists_fetched hserves it
  have hlooped : Fetched rest (it.moveTo .loop) (base.moveTo .loop) page :=
    ⟨hfetched.response, hfetched.calls, hfetched.remaining, hfetched.limit, rfl,
      hfetched.yields, hfetched.pages, hfetched.asked, hfetched.lastKey, hfetched.items,
      hfetched.ended, hfetched.more⟩
  obtain ⟨hinvariant', hnext⟩ := Invariant.of_fetched (hinvariant.sound.moveTo .loop)
    hremaining hlooped (.inr (.inl rfl))
    (hinvariant.order.exists_consumed hnotDone [] hupcoming)
  refine ⟨base.moveTo .loop, page, ?_, hinvariant', ⟨[], ?_, fun _ => ?_, fun hdone => ?_⟩, rfl,
    hfetched.response, hfetched.remaining, hfetched.calls, hpage⟩
  · rw [advance, hpoint]
    dsimp only
    rw [hlast, hfetch]
    rfl
  · rw [List.append_nil]
    exact congrArg _ hfetched.yields
  · exact hupcoming.trans hnext.symm
  · cases hdone

/-- Behind a page, a call goes on if there is more. -/
theorem advance_items_nil (hserves : ServesPages layer2 service rest)
    (hinvariant : Invariant rest maxResults requestLimit items it) {response : ℕ}
    (hpoint : it.point = .items response []) :
    ∃ it', it.advance layer2 service = some it' ∧
      Invariant rest maxResults requestLimit items it' ∧ Moved rest maxResults it it' := by
  cases hlast : it.generator.lastEvaluatedKey with
  | none =>
      obtain ⟨page, hresponse, -, hpage⟩ := hinvariant.page_of_items hpoint
      have hcurrent := hinvariant.current response page hresponse
      have hupcoming := hinvariant.upcoming_of_items_nil hpoint
      rw [ahead, hlast] at hupcoming
      rw [List.append_nil] at hpage
      refine ⟨it.moveTo .done, ?_, hinvariant.ends (by simp [hpoint]) (.inr ⟨⟨response, page,
        hresponse, hcurrent.lastKey ▸ hlast, hpage⟩, hupcoming⟩)⟩
      rw [advance, hpoint]
      dsimp only
      rw [hlast]
      rfl
  | some lastKey =>
      obtain ⟨it', page, hstep, hnext, hmoved, -⟩ := advance_more hserves hinvariant hpoint hlast
      exact ⟨it', hstep, hnext, hmoved⟩

/-- After an item, the iteration goes on with the page unless it was replaced. -/
theorem advance_yielded
    (hinvariant : Invariant rest maxResults requestLimit items it) {response : ℕ}
    {left : List α} (hpoint : it.point = .yielded response left) :
    ∃ it', it.advance layer2 service = some it' ∧
      Invariant rest maxResults requestLimit items it' ∧ Moved rest maxResults it it' := by
  have hnotDone : it.point ≠ .done := by simp [hpoint]
  obtain ⟨other, page, hresponse⟩ : ∃ other page, it.generator.response = some (other, page) := by
    cases hresponse : it.generator.response with
    | none =>
        have hunanswered := hinvariant.unanswered hresponse
        rw [hpoint] at hunanswered
        simp at hunanswered
    | some answer => exact ⟨answer.1, answer.2, rfl⟩
  have hplaced := hinvariant.placed other page hresponse
  rw [hpoint, PlacedAt] at hplaced
  have hcurrent : it.generator.current = some other := by
    rw [TableGenerator.current, hresponse]
    rfl
  rw [advance, hpoint]
  dsimp only
  rw [hcurrent]
  by_cases hreplaced : response = other
  · subst hreplaced
    rw [if_pos rfl] at hplaced
    by_cases hremaining : it.generator.remaining = 0
    · refine ⟨it.moveTo .done, ?_,
        hinvariant.ends hnotDone (.inl (hinvariant.sound.maxResults_eq hremaining))⟩
      simp [hremaining, moveTo]
    · refine ⟨it.moveTo (.items response left), ?_, hinvariant.moves hnotDone (by simp) hresponse
        ⟨rfl, hremaining, hplaced⟩ (by simp) ?_⟩
      · simp [hremaining, moveTo]
      · rw [Iteration.left, hpoint]
        exact if_pos rfl
  · rw [if_neg hreplaced] at hplaced
    refine ⟨it.moveTo .loop, ?_, hinvariant.moves hnotDone (by simp) hresponse hplaced (by simp)
      ?_⟩
    · simp [Ne.symm hreplaced, moveTo]
    · rw [Iteration.left, hpoint]
      exact if_neg hreplaced

/-- An iteration that has not ended goes on. -/
theorem exists_advance (hserves : ServesPages layer2 service rest)
    (hinvariant : Invariant rest maxResults requestLimit items it) (hdone : it.point ≠ .done) :
    ∃ it', it.advance layer2 service = some it' ∧
      Invariant rest maxResults requestLimit items it' ∧ Moved rest maxResults it it' := by
  cases hpoint : it.point with
  | start =>
      rw [advance, hpoint]
      exact advance_enter hserves hinvariant (.inl hpoint)
  | loop =>
      rw [advance, hpoint]
      exact advance_enter hserves hinvariant (.inr hpoint)
  | items response left =>
      cases left with
      | nil => exact advance_items_nil hserves hinvariant hpoint
      | cons item left =>
          refine ⟨it.yieldItem response item left, ?_, hinvariant.yields_item hpoint⟩
          rw [advance, hpoint]
          rfl
  | yielded response left => exact advance_yielded hinvariant hpoint
  | done => exact absurd hpoint hdone

/-- The current page has been begun, and there is none behind it. -/
def hasBegunLast (it : Iteration α Value Payload) : Bool :=
  match it.point with
  | .yielded response _ =>
      it.generator.current == some response && it.generator.lastEvaluatedKey.isNone
  | _ => false

/-- The consumer asks for the next response while items may still be yielded, and not once it
has begun a page that is the last one. -/
def Considerate (it : Iteration α Value Payload) : Action → Prop
  | .advance => True
  | .nextResponse => it.generator.remaining ≠ 0 ∧ it.hasBegunLast = false

instance (it : Iteration α Value Payload) (action : Action) : Decidable (it.Considerate action) :=
  match action with
  | .advance => isTrue trivial
  | .nextResponse => inferInstanceAs (Decidable (_ ∧ _))

/-- A response that is asked for between items goes on behind the current page, or is the
last page again if it has not been begun. -/
theorem Invariant.next_response (hserves : ServesPages layer2 service rest)
    (hinvariant : Invariant rest maxResults requestLimit items it)
    (hconsiderate : it.Considerate .nextResponse)
    (hstep : it.step layer2 service .nextResponse = some it') :
    Invariant rest maxResults requestLimit items it' := by
  obtain ⟨hremaining, hlast⟩ := hconsiderate
  obtain ⟨base, page, hfetch, hfetched, -⟩ := exists_fetched hserves it
  have hpoint : it.point = .start ∨ ∃ response left, it.point = .yielded response left := by
    rw [step] at hstep
    cases hpoint : it.point <;> simp [hpoint] at hstep ⊢
  have hbase : it' = base := by
    rw [step] at hstep
    rcases hpoint with hpoint | ⟨response, left, hpoint⟩ <;>
      · rw [hpoint] at hstep
        exact Option.some.inj (hstep.symm.trans hfetch)
  have hnotDone : it.point ≠ .done := by
    rcases hpoint with hpoint | ⟨response, left, hpoint⟩ <;> simp [hpoint]
  have hskipped : ∃ skipped, it.upcoming rest = skipped ++ rest it.generator.exclusiveStartKey := by
    rw [upcoming]
    cases hresponse : it.generator.response with
    | none => exact ⟨[], rfl⟩
    | some answer =>
        obtain ⟨response, current⟩ := answer
        have hcurrent := hinvariant.current response current hresponse
        dsimp only
        rw [ahead]
        cases hkey : it.generator.lastEvaluatedKey with
        | some key => exact ⟨_, rfl⟩
        | none =>
            have hended := hcurrent.ended (hcurrent.lastKey ▸ hkey)
            refine ⟨[], ?_⟩
            rw [hended, List.append_nil, List.nil_append, left]
            rcases hpoint with hpoint | ⟨other, left, hpoint⟩
            · rw [hpoint]
            · rw [hpoint]
              refine if_neg ?_
              rintro rfl
              rw [hasBegunLast, hpoint, TableGenerator.current, hresponse, hkey] at hlast
              simp at hlast
  obtain ⟨skipped, hskipped⟩ := hskipped
  rw [hbase]
  refine (Invariant.of_fetched hinvariant.sound hremaining hfetched ?_
    (hinvariant.order.exists_consumed hnotDone skipped hskipped)).1
  rcases hpoint with hpoint | ⟨response, left, hpoint⟩
  · exact .inl hpoint
  · exact .inr (.inr ⟨response, left, hpoint, hinvariant.seen response left hpoint⟩)

theorem Invariant.step (hserves : ServesPages layer2 service rest)
    (hinvariant : Invariant rest maxResults requestLimit items it) {action : Action}
    (hconsiderate : it.Considerate action)
    (hstep : it.step layer2 service action = some it') :
    Invariant rest maxResults requestLimit items it' := by
  cases action with
  | nextResponse => exact hinvariant.next_response hserves hconsiderate hstep
  | advance =>
      have hnotDone : it.point ≠ .done := by
        intro hdone
        rw [Iteration.step, advance, hdone] at hstep
        cases hstep
      obtain ⟨next, hadvance, hnext, -⟩ := exists_advance hserves hinvariant hnotDone
      obtain rfl : next = it' := Option.some.inj (hadvance.symm.trans hstep)
      exact hnext

theorem invariant_init {startKey : Option (DynamoDBKey Payload)} :
    Invariant rest maxResults requestLimit (rest startKey)
      (init (TableGenerator.init maxResults requestLimit startKey) :
        Iteration α Value Payload) where
  sound := by
    refine ⟨rfl, ⟨?_, fun bound _ => Nat.zero_le bound⟩, fun _ _ call hcall => ?_, rfl,
      fun item hitem => ?_, fun response page hpage => ?_⟩
    · change (TableGenerator.init maxResults requestLimit startKey).remaining =
        countdown maxResults - (0 : ℕ)
      cases maxResults <;> simp [TableGenerator.init, countdown]
    · cases hcall
    · cases hitem
    · cases hpage
  unanswered _ := .inl rfl
  current response page hresponse := by cases hresponse
  placed response page hresponse := by cases hresponse
  seen response left hpoint := by cases hpoint
  ended hdone := by cases hdone
  order := ⟨[], rest startKey, List.nil_sublist _, rfl, fun _ => rfl⟩

end Iteration

end Boto.DynamoDB
