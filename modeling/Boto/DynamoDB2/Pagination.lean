import Boto.DynamoDB2.ResultSet

/-!
# Pagination

A service holds a list of items and answers a request with a part of what comes
behind its start key, possibly an empty one.  Iterating a `ResultSet` over it
gives the items of the list, up to the limit, for as long as the service does not
answer with empty pages forever: `__next__` goes on until it gets something.
-/

namespace Boto.DynamoDB2

variable {ι κ : Type}

/-! ## The service -/

section

variable (xs : List ι) (position : κ → ℕ)

/-- How many items come before what a request asks for. -/
def startOf : Option κ → ℕ
  | none => 0
  | some key => position key

/-- The items behind the start key. -/
def remaining (start : Option κ) : List ι :=
  xs.drop (startOf position start)

/-- The service answers with the first items behind the start key, within the
limit, and gives a last key exactly when more items are left. -/
structure Serves (serve : ℕ → Option κ → Option ℤ → Page ι κ) : Prop where
  results : ∀ n start limit,
    (serve n start limit).results <+: remaining xs position start
  size : ∀ n start (limit : ℤ), 0 ≤ limit →
    ((serve n start (some limit)).results.length : ℤ) ≤ limit
  ended : ∀ n start limit, (serve n start limit).lastKey = none ↔
    (serve n start limit).results = remaining xs position start
  lastKey : ∀ n start limit key, (serve n start limit).lastKey = some key →
    position key =
      startOf position start + (serve n start limit).results.length

/-- Among requests made one after another, one has to be answered with an item if
it asks for one and there is one. -/
def Fair (serve : ℕ → Option κ → Option ℤ → Page ι κ) : Prop :=
  ∀ (start : ℕ → Option κ) (limit : ℕ → Option ℤ) (n : ℕ), ∃ m, n ≤ m ∧
    (remaining xs position (start m) = [] ∨ limit m = some 0 ∨
      (serve m (start m) (limit m)).results ≠ [])

end

/-- The first elements of a list, all of them without a limit. -/
def upTo (limit : Option ℤ) (items : List ι) : List ι :=
  match limit with
  | none => items
  | some limit => items.take limit.toNat

namespace ResultSet

variable {xs : List ι} {position : κ → ℕ}
variable {serve : ℕ → Option κ → Option ℤ → Page ι κ}

/-! ## What is still to be given out -/

/-- What the service still has for the result set. -/
def unfetched (xs : List ι) (position : κ → ℕ) (rs : ResultSet ι κ Unit) :
    List ι :=
  if rs.resultsLeft then remaining xs position rs.lastKeySeen else []

/-- The items from the offset of the page at hand on, and the unfetched ones, up to
the limit. -/
def pending (xs : List ι) (position : κ → ℕ) (first : ℤ)
    (rs : ResultSet ι κ Unit) : List ι :=
  upTo rs.limit (rs.results.drop first.toNat ++ rs.unfetched xs position)

/-- The limit allows for the items at hand, and the page size is right. -/
structure Ready (first : ℤ) (rs : ResultSet ι κ Unit) : Prop where
  nonneg : 0 ≤ first
  limit : ∀ limit, rs.resultsLeft = true → rs.limit = some limit →
    ((rs.results.drop first.toNat).length : ℤ) ≤ limit
  size : ∀ size, rs.maxPageSize = some size → 1 ≤ size

theorem upTo_append_of_le {limit : ℤ} {items rest : List ι}
    (hle : limit ≤ items.length) :
    upTo (some limit) (items ++ rest) = upTo (some limit) items := by
  rw [upTo, upTo, List.take_append_of_le_length (by omega)]

theorem Ready.limit_nonneg {first limit : ℤ} {rs : ResultSet ι κ Unit}
    (hrs : rs.Ready first) (hleft : rs.resultsLeft = true)
    (hlimit : rs.limit = some limit) : 0 ≤ limit := by
  have hle := hrs.limit limit hleft hlimit
  omega

theorem Ready.pageSize_pos {first size : ℤ} {rs : ResultSet ι κ Unit}
    (hrs : rs.Ready first) (hleft : rs.resultsLeft = true)
    (hsize : rs.pageSize = some size) : 1 ≤ size := by
  unfold pageSize at hsize
  split at hsize
  · rename_i limit most hlimit hmost
    have hone := hrs.size most hmost
    have hzero := hrs.limit_nonneg hleft hlimit
    split at hsize <;> simp only [Option.some.injEq] at hsize <;> omega
  · exact hrs.size size hsize

/-- A request for no item is made only when none is left of the limit. -/
theorem Ready.limit_of_requestLimit {first : ℤ} {rs : ResultSet ι κ Unit}
    (hrs : rs.Ready first) (hleft : rs.resultsLeft = true)
    (hlimit : rs.requestLimit = some 0) : rs.limit = some 0 := by
  unfold requestLimit at hlimit
  split at hlimit
  · rename_i size hsize
    have hpos := hrs.pageSize_pos hleft hsize
    simp only [Option.some.injEq] at hlimit
    omega
  · exact hlimit

/-! ## Fetching -/

/-- What is pending does not change with a fetch. -/
theorem fetchMore_ready (hserve : Serves xs position serve) {first : ℤ}
    {rs : ResultSet ι κ Unit} (hrs : rs.Ready first)
    (hleft : rs.resultsLeft = true) (hnil : rs.results.drop first.toNat = []) :
    (rs.fetchMore serve).Ready 0 ∧
      pending xs position 0 (rs.fetchMore serve) =
        pending xs position first rs := by
  have hpre := hserve.results rs.fetches rs.lastKeySeen rs.requestLimit
  have hended := hserve.ended rs.fetches rs.lastKeySeen rs.requestLimit
  have hlast := hserve.lastKey rs.fetches rs.lastKeySeen rs.requestLimit
  have hmore := fetchMore_resultsLeft serve rs
  simp only [pending, unfetched, hleft, if_true, hnil, List.nil_append,
    fetchMore_limit, fetchMore_results, fetchMore_lastKeySeen]
  generalize hpage : serve rs.fetches rs.lastKeySeen rs.requestLimit = page at *
  refine ⟨⟨Int.le_refl 0, ?_, ?_⟩, ?_⟩
  · intro limit hafter hlimit
    have hlt := (hmore.mp hafter).1.2 limit hlimit
      (hrs.limit_nonneg hleft hlimit)
    rw [fetchMore_results, hpage]
    exact Int.le_of_lt hlt
  · intro size hsize
    exact hrs.pageSize_pos hleft hsize
  · cases hkey : page.lastKey with
    | none =>
        have hover : (rs.fetchMore serve).resultsLeft = false := by
          simpa [hkey] using hmore
        simp [hover, hended.mp hkey]
    | some key =>
        have hsplit : page.results ++ remaining xs position (some key) =
            remaining xs position rs.lastKeySeen := by
          obtain ⟨rest, hrest⟩ := hpre
          have hdrop : remaining xs position (some key) = rest := by
            rw [remaining, startOf, hlast key hkey, ← List.drop_drop]
            change (remaining xs position rs.lastKeySeen).drop _ = rest
            rw [← hrest, List.drop_left]
          rw [hdrop, hrest]
        rw [← hsplit]
        cases hafter : (rs.fetchMore serve).resultsLeft with
        | true => rfl
        | false =>
            obtain ⟨limit, hlimit, -, hle⟩ : ∃ limit, rs.limit = some limit ∧
                0 ≤ limit ∧ limit ≤ page.results.length := by
              simpa [hafter, hleft, hkey] using hmore
            rw [hlimit]
            exact (upTo_append_of_le hle).trans (upTo_append_of_le hle).symm

/-- The item at the offset is the first pending one. -/
theorem item_ready {rs after : ResultSet ι κ Unit} {out : Option ι}
    (hrs : rs.Ready rs.offset)
    (hstop : rs.results.drop rs.offset.toNat = [] → rs.resultsLeft = false)
    (hitem : rs.item = (out, after)) :
    out = (pending xs position rs.offset rs).head? ∧
      pending xs position (rs.offset + 1) after =
        (pending xs position rs.offset rs).tail ∧
      after.Ready (after.offset + 1) ∧ after.offset = rs.offset ∧
      after.resultsLeft = rs.resultsLeft ∧ after.fetches = rs.fetches ∧
      (out = none → after.resultsLeft = false) := by
  have hnonneg := hrs.nonneg
  have hsucc : (rs.offset + 1).toNat = rs.offset.toNat + 1 := by omega
  cases hrest : rs.results.drop rs.offset.toNat with
  | nil =>
      have hleft := hstop hrest
      have hover := List.drop_eq_nil_iff.mp hrest
      have hnext := List.drop_eq_nil_of_le (i := rs.offset.toNat + 1)
        (Nat.le_succ_of_le hover)
      rw [item, if_neg (by omega), Prod.mk.injEq] at hitem
      obtain ⟨rfl, rfl⟩ := hitem
      simp only [pending, unfetched, hleft, hsucc, hrest, hnext]
      refine ⟨?_, ?_, ⟨by omega, by simp [hleft], hrs.size⟩, ?_⟩
      · cases rs.limit <;> simp [upTo]
      · cases rs.limit <;> simp [upTo]
      · simp
  | cons first rest =>
      have hget : rs.results[rs.offset.toNat]? = some first := by
        rw [← List.head?_drop, hrest]
        rfl
      have hnext : rs.results.drop (rs.offset.toNat + 1) = rest := by
        rw [← List.tail_drop, hrest]
        rfl
      have hlt : rs.offset < (rs.results.length : ℤ) := by
        have := (List.getElem?_eq_some_iff.mp hget).1
        omega
      rw [item, if_pos hlt] at hitem
      cases hlimit : rs.limit with
      | none =>
          rw [hlimit] at hitem
          simp only [hget, Prod.mk.injEq] at hitem
          obtain ⟨rfl, rfl⟩ := hitem
          simp only [pending, hlimit, hsucc, hrest, hnext]
          refine ⟨rfl, rfl, ⟨by omega, by simp [hlimit], hrs.size⟩, ?_⟩
          simp
      | some limit =>
          simp only [hlimit, hget] at hitem
          have hroom : rs.resultsLeft = true → 1 ≤ limit := by
            intro hleft
            have hle := hrs.limit limit hleft hlimit
            rw [hrest, List.length_cons] at hle
            omega
          split at hitem
          · rename_i hover
            simp only [Prod.mk.injEq] at hitem
            obtain ⟨rfl, rfl⟩ := hitem
            have hleft : rs.resultsLeft = false := by
              cases hleft : rs.resultsLeft with
              | false => rfl
              | true => exact absurd (hroom hleft) (by omega)
            have htaken : limit.toNat = 0 := by omega
            have hnone : (limit - 1).toNat = 0 := by omega
            simp only [pending, hlimit, upTo, htaken, hnone, List.take_zero]
            exact ⟨rfl, rfl, ⟨by omega, by simp [hleft], hrs.size⟩,
              trivial, trivial, trivial, fun _ => hleft⟩
          · rename_i hwithin
            simp only [Prod.mk.injEq] at hitem
            obtain ⟨rfl, rfl⟩ := hitem
            have htaken : limit.toNat = (limit - 1).toNat + 1 := by omega
            simp only [pending, unfetched, hlimit, upTo, hsucc, hrest, hnext,
              htaken, List.cons_append, List.take_succ_cons]
            refine ⟨rfl, rfl, ⟨by omega, ?_, hrs.size⟩,
              trivial, trivial, trivial, by simp⟩
            intro most hleft hmost
            have hle := hrs.limit limit hleft hlimit
            simp only [Option.some.injEq] at hmost
            simp only [hsucc, hnext]
            rw [hrest, List.length_cons] at hle
            omega

/-! ## The loop ends -/

theorem moved_ready {first : ℤ} {rs : ResultSet ι κ Unit} (hrs : rs.Ready first) :
    rs.moved.Ready first :=
  ⟨hrs.nonneg, hrs.limit, hrs.size⟩

/-- A fair service gives a page that ends the loop. -/
theorem fetchWhile_ends (hserve : Serves xs position serve)
    (hfair : Fair xs position serve) {first : ℤ} {rs : ResultSet ι κ Unit}
    (hrs : rs.Ready first) (hleft : rs.resultsLeft = true)
    (hnil : rs.results.drop first.toNat = []) :
    ∃ fuel after, fetchWhile (fetchMore serve) fuel (rs.fetchMore serve) =
      some after := by
  by_contra hnever
  have hmore : ∀ n, ((fetchMore serve)^[n + 1] rs).results = [] ∧
      ((fetchMore serve)^[n + 1] rs).resultsLeft = true := by
    intro n
    by_contra hstop
    refine hnever ⟨n, fetchWhile_of_stop (Nat.le_refl n) fun hresults => ?_⟩
    have hstop' := not_and.mp hstop hresults
    exact Bool.eq_false_iff.mpr hstop'
  have hready : ∀ n, ∃ first, ((fetchMore serve)^[n] rs).Ready first ∧
      ((fetchMore serve)^[n] rs).resultsLeft = true ∧
      ((fetchMore serve)^[n] rs).results.drop first.toNat = [] ∧
      ((fetchMore serve)^[n] rs).fetches = rs.fetches + n := by
    intro n
    induction n with
    | zero => exact ⟨first, hrs, hleft, hnil, rfl⟩
    | succ n ih =>
        obtain ⟨first, hn, hnleft, hnnil, hfetches⟩ := ih
        have hnext := (fetchMore_ready hserve hn hnleft hnnil).1
        rw [← Function.iterate_succ_apply' (fetchMore serve)] at hnext
        refine ⟨0, hnext, (hmore n).2, by rw [(hmore n).1]; rfl, ?_⟩
        rw [Function.iterate_succ_apply', fetchMore_fetches, hfetches]
        omega
  obtain ⟨m, hm, hanswer⟩ := hfair
    (fun m => ((fetchMore serve)^[m - rs.fetches] rs).lastKeySeen)
    (fun m => ((fetchMore serve)^[m - rs.fetches] rs).requestLimit) rs.fetches
  obtain ⟨first, hn, hnleft, -, hfetches⟩ := hready (m - rs.fetches)
  have hnext := hmore (m - rs.fetches)
  rw [Function.iterate_succ_apply'] at hnext
  rw [fetchMore_results, fetchMore_resultsLeft] at hnext
  have hnumber : rs.fetches + (m - rs.fetches) = m := by omega
  rw [hfetches, hnumber] at hnext
  generalize (fetchMore serve)^[m - rs.fetches] rs = last at *
  obtain ⟨hresults, ⟨-, hroom⟩, hkey⟩ := hnext
  rcases hanswer with hdone | hzero | hsome
  · exact hkey ((hserve.ended _ _ _).mpr (hresults.trans hdone.symm))
  · have hlt := hroom 0 (hn.limit_of_requestLimit hnleft hzero) (Int.le_refl 0)
    rw [hresults] at hlt
    simp at hlt
  · exact hsome hresults

/-! ## Runs -/

/-- A call gives the first pending item and leaves the others. -/
structure Gives (xs : List ι) (position : κ → ℕ) (rs : ResultSet ι κ Unit)
    (out : Option ι) (after : ResultSet ι κ Unit) : Prop where
  out_eq : out = (pending xs position (rs.offset + 1) rs).head?
  pending_eq : pending xs position (after.offset + 1) after =
    (pending xs position (rs.offset + 1) rs).tail
  ready : after.Ready (after.offset + 1)
  ended : out = none → after.resultsLeft = false

theorem gives_of_item {rs mid after : ResultSet ι κ Unit} {out : Option ι}
    (hmid : mid.Ready mid.offset)
    (hstop : mid.results.drop mid.offset.toNat = [] → mid.resultsLeft = false)
    (hpending : pending xs position mid.offset mid =
      pending xs position (rs.offset + 1) rs)
    (hitem : mid.item = (out, after)) :
    Gives xs position rs out after ∧ after.resultsLeft = mid.resultsLeft ∧
      after.fetches = mid.fetches := by
  obtain ⟨hout, hrest, hready, hoffset, hleft, hfetches, hended⟩ :=
    @item_ready ι κ xs position _ _ _ hmid hstop hitem
  rw [hpending] at hout hrest
  exact ⟨⟨hout, hoffset ▸ hrest, hready, hended⟩, hleft, hfetches⟩

/-- With no results left to fetch, a call does not fetch. -/
theorem next_of_ended {rs : ResultSet ι κ Unit} (hrs : rs.Ready (rs.offset + 1))
    (hleft : rs.resultsLeft = false) (fuel : ℕ) :
    ∃ out after, next (fetchMore serve) fuel rs = some (out, after) ∧
      Gives xs position rs out after ∧ after.resultsLeft = false ∧
      after.fetches = rs.fetches := by
  obtain ⟨hgives, hafter, hfetches⟩ :=
    @gives_of_item ι κ xs position rs rs.moved _ _ (moved_ready hrs)
      (fun _ => hleft) rfl rfl
  exact ⟨_, _, next_of_hand (fun _ => hleft) fuel, hgives, hafter.trans hleft,
    hfetches⟩

theorem next_gives (hserve : Serves xs position serve)
    (hfair : Fair xs position serve) {rs : ResultSet ι κ Unit}
    (hrs : rs.Ready (rs.offset + 1)) :
    ∃ fuel out after, next (fetchMore serve) fuel rs = some (out, after) ∧
      Gives xs position rs out after := by
  by_cases hhand : rs.results.length ≤ rs.offset + 1 → rs.resultsLeft = false
  · obtain ⟨hgives, -⟩ :=
      @gives_of_item ι κ xs position rs rs.moved _ _ (moved_ready hrs)
        (fun hnil => hhand (by
          have hover := List.drop_eq_nil_iff.mp hnil
          have hnonneg := hrs.nonneg
          simp only [moved_results, moved_offset] at hover
          omega)) rfl rfl
    exact ⟨0, _, _, next_of_hand hhand 0, hgives⟩
  · obtain ⟨hover, hleft⟩ := Classical.not_imp.mp hhand
    have hleft : rs.resultsLeft = true := by simpa using hleft
    have hnil : rs.moved.results.drop (rs.offset + 1).toNat = [] := by
      rw [moved_results, List.drop_eq_nil_iff]
      omega
    obtain ⟨fuel, mid, hloop⟩ :=
      fetchWhile_ends hserve hfair (moved_ready hrs) hleft hnil
    have hfirst := fetchMore_ready hserve (moved_ready hrs) hleft hnil
    obtain ⟨⟨hmid, hoffset, hpending⟩, hstop⟩ := fetchWhile_invariant
      (P := fun mid : ResultSet ι κ Unit => mid.Ready 0 ∧ mid.offset = 0 ∧
        pending xs position 0 mid = pending xs position (rs.offset + 1) rs)
      (fun mid hmid hnil hleft => by
        have hnext := fetchMore_ready hserve hmid.1 hleft (by rw [hnil]; rfl)
        exact ⟨hnext.1, rfl, hnext.2.trans hmid.2.2⟩)
      ⟨hfirst.1, rfl, hfirst.2⟩ hloop
    rw [← hoffset] at hmid hpending
    obtain ⟨hgives, -⟩ := gives_of_item hmid
      (fun hnil => hstop (by simpa [hoffset] using hnil)) hpending rfl
    refine ⟨fuel, mid.item.1, mid.item.2, ?_, hgives⟩
    have hover' : (rs.moved.results.length : ℤ) ≤ rs.moved.offset := hover
    have hleft' : rs.moved.resultsLeft = true := hleft
    simp only [next]
    rw [if_pos hover', if_pos hleft', hloop]
    rfl

/-- The outcomes of a call that gives the first item, and of those after it. -/
theorem outcomes_succ (items : List ι) (k : ℕ) :
    (List.range (k + 1)).map (items[·]?) =
      items.head? :: (List.range k).map (items.tail[·]?) := by
  rw [List.range_succ_eq_map, List.map_cons, List.map_map,
    List.head?_eq_getElem?]
  congr 1
  apply List.map_congr_left
  intro i _
  exact List.getElem?_tail.symm

theorem nexts_succ {fetchMore : ResultSet ι κ Unit → ResultSet ι κ Unit}
    {fuel k : ℕ} {rs mid after : ResultSet ι κ Unit} {out : Option ι}
    {outs : List (Option ι)}
    (hnext : next fetchMore fuel rs = some (out, mid))
    (hrest : nexts fetchMore fuel k mid = some (outs, after)) :
    nexts fetchMore fuel (k + 1) rs = some (out :: outs, after) := by
  simp [nexts, hnext, hrest]

theorem nexts_of_ended {rs : ResultSet ι κ Unit} (hrs : rs.Ready (rs.offset + 1))
    (hleft : rs.resultsLeft = false) (fuel k : ℕ) :
    ∃ after, nexts (fetchMore serve) fuel k rs =
        some ((List.range k).map
          ((pending xs position (rs.offset + 1) rs)[·]?), after) ∧
      after.fetches = rs.fetches := by
  induction k generalizing rs with
  | zero => exact ⟨rs, rfl, rfl⟩
  | succ k ih =>
      obtain ⟨out, mid, hnext, hgives, hended, hfetches⟩ :=
        @next_of_ended ι κ xs position serve _ hrs hleft fuel
      obtain ⟨after, hrest, hafter⟩ := ih hgives.ready hended
      refine ⟨after, ?_, hafter.trans hfetches⟩
      rw [nexts_succ hnext hrest, outcomes_succ, hgives.out_eq, hgives.pending_eq]

/-- A number of fetches is enough for any number of calls. -/
theorem nexts_of_ready (hserve : Serves xs position serve)
    (hfair : Fair xs position serve) {rs : ResultSet ι κ Unit}
    (hrs : rs.Ready (rs.offset + 1)) :
    ∃ fuel fetches, ∀ k, ∃ after, nexts (fetchMore serve) fuel k rs =
        some ((List.range k).map
          ((pending xs position (rs.offset + 1) rs)[·]?), after) ∧
      after.fetches ≤ fetches := by
  induction hlength : (pending xs position (rs.offset + 1) rs).length
    generalizing rs with
  | zero =>
      obtain ⟨fuel, out, mid, hnext, hgives⟩ := next_gives hserve hfair hrs
      have hnil := List.length_eq_zero_iff.mp hlength
      have hout : out = none := by rw [hgives.out_eq, hnil]; rfl
      refine ⟨fuel, rs.fetches + mid.fetches, fun k => ?_⟩
      cases k with
      | zero => exact ⟨rs, rfl, Nat.le_add_right _ _⟩
      | succ k =>
          obtain ⟨after, hrest, hafter⟩ := @nexts_of_ended ι κ xs position serve
            mid hgives.ready (hgives.ended hout) fuel k
          refine ⟨after, ?_, by omega⟩
          rw [nexts_succ hnext hrest, outcomes_succ, hgives.out_eq,
            hgives.pending_eq]
  | succ length ih =>
      obtain ⟨fuel, out, mid, hnext, hgives⟩ := next_gives hserve hfair hrs
      obtain ⟨fuel', fetches, hruns⟩ := ih hgives.ready
        (by rw [hgives.pending_eq, List.length_tail, hlength]; rfl)
      refine ⟨fuel + fuel', rs.fetches + fetches, fun k => ?_⟩
      cases k with
      | zero => exact ⟨rs, rfl, Nat.le_add_right _ _⟩
      | succ k =>
          obtain ⟨after, hrest, hafter⟩ := hruns k
          refine ⟨after, ?_, by omega⟩
          rw [nexts_succ (next_mono (Nat.le_add_right _ _) hnext)
            (nexts_mono (Nat.le_add_left _ _) hrest), outcomes_succ,
            hgives.out_eq, hgives.pending_eq]

end ResultSet

/-! ## Iterating over a service -/

/-- The items that iterating is to give: up to the limit, if it is not negative. -/
def wanted (xs : List ι) (limit : Option ℤ) : List ι :=
  upTo (limit.filter fun limit => 0 ≤ limit) xs

open ResultSet in
/-- Over a fair service, the calls of `__next__` give the items up to the limit and
then stop, within some number of fetches. -/
theorem resultSet_gives_wanted {xs : List ι} {position : κ → ℕ}
    {serve : ℕ → Option κ → Option ℤ → Page ι κ} {maxPageSize : Option ℤ}
    (hserve : Serves xs position serve) (hfair : Fair xs position serve)
    (hsize : ∀ size, maxPageSize = some size → 1 ≤ size) (limit : Option ℤ) :
    ∃ fuel fetches, ∀ k, ∃ after,
      nexts (fetchMore serve) fuel k (init maxPageSize limit ()) =
        some ((List.range k).map ((wanted xs limit)[·]?), after) ∧
      after.fetches ≤ fetches := by
  have hready : (init maxPageSize limit () : ResultSet ι κ Unit).Ready 0 := by
    refine ⟨Int.le_refl 0, fun most _ hmost => ?_, hsize⟩
    have hnonneg := (Option.filter_eq_some_iff.mp hmost).2
    simpa [init] using hnonneg
  exact nexts_of_ready hserve hfair hready

/-- A service that gives one item with every other page. -/
def everyOther (xs : List ι) (n : ℕ) (start : Option ℕ) (limit : Option ℤ) :
    Page ι ℕ :=
  let rest := remaining xs id start
  let page := if n % 2 = 0 ∨ limit = some 0 then [] else rest.take 1
  { results := page
    lastKey :=
      if page.length = rest.length then none
      else some (startOf id start + page.length) }

theorem everyOther_prefix (xs : List ι) (n : ℕ) (start : Option ℕ)
    (limit : Option ℤ) :
    (everyOther xs n start limit).results <+: remaining xs id start := by
  simp only [everyOther]
  split
  · exact List.nil_prefix
  · exact List.take_prefix _ _

theorem everyOther_serves (xs : List ι) : Serves xs id (everyOther xs) where
  results := everyOther_prefix xs
  size := by
    intro n start limit hlimit
    simp only [everyOther]
    split
    · simpa using hlimit
    · rename_i hsome
      have hpos : limit ≠ 0 := fun hzero => hsome (Or.inr (by rw [hzero]))
      rw [List.length_take]
      omega
  ended := by
    intro n start limit
    have hpre := everyOther_prefix xs n start limit
    have hlength : (everyOther xs n start limit).lastKey = none ↔
        (everyOther xs n start limit).results.length =
          (remaining xs id start).length := by
      simp [everyOther]
    rw [hlength]
    exact ⟨hpre.eq_of_length, fun heq => by rw [heq]⟩
  lastKey := by
    intro n start limit key hkey
    simp only [everyOther] at hkey ⊢
    generalize (if n % 2 = 0 ∨ limit = some 0 then []
      else (remaining xs id start).take 1) = page at *
    split at hkey
    · simp at hkey
    · exact (Option.some.inj hkey).symm

theorem everyOther_fair (xs : List ι) : Fair xs id (everyOther xs) := by
  intro start limit n
  refine ⟨2 * n + 1, by omega, ?_⟩
  by_cases hnil : remaining xs id (start (2 * n + 1)) = []
  · exact Or.inl hnil
  by_cases hzero : limit (2 * n + 1) = some 0
  · exact Or.inr (Or.inl hzero)
  · have hodd : ¬((2 * n + 1) % 2 = 0) := by omega
    refine Or.inr (Or.inr ?_)
    simpa [everyOther, hodd, hzero] using hnil

theorem resultSet_gives_wanted_two_items :
    ∃ fuel fetches, ∀ k, ∃ after,
      ResultSet.nexts (ResultSet.fetchMore (everyOther [5, 6, 7])) fuel k
          (ResultSet.init (some 3) (some 2) ()) =
        some ((List.range k).map ((wanted [5, 6, 7] (some 2))[·]?), after) ∧
      after.fetches ≤ fetches :=
  resultSet_gives_wanted (everyOther_serves [5, 6, 7]) (everyOther_fair [5, 6, 7])
    (fun size hsize => by simp only [Option.some.injEq] at hsize; omega) (some 2)

/-- A service that never gives an item. -/
def emptyPages (xs : List ι) (_ : ℕ) (start : Option ℕ) (_ : Option ℤ) :
    Page ι ℕ where
  results := []
  lastKey := if (remaining xs id start).isEmpty then none
    else some (startOf id start)

theorem emptyPages_serves (xs : List ι) : Serves xs id (emptyPages xs) where
  results := fun _ _ _ => List.nil_prefix
  size := fun _ _ limit hlimit => hlimit
  ended := by
    intro _ start _
    cases hrest : remaining xs id start <;> simp [emptyPages, hrest]
  lastKey := by
    intro _ start _ key hkey
    simp only [emptyPages] at hkey
    split at hkey
    · simp at hkey
    · exact (Option.some.inj hkey).symm

open ResultSet in
/-- With only empty pages, the first call does not return. -/
theorem resultSet_waits_for_an_item :
    ¬∀ (xs : List ℕ) (position : ℕ → ℕ)
        (serve : ℕ → Option ℕ → Option ℤ → Page ℕ ℕ) (maxPageSize : Option ℤ)
        (limit : Option ℤ), Serves xs position serve →
      (∀ size, maxPageSize = some size → 1 ≤ size) →
      ∃ fuel fetches, ∀ k, ∃ after,
        nexts (fetchMore serve) fuel k (init maxPageSize limit ()) =
          some ((List.range k).map ((wanted xs limit)[·]?), after) ∧
        after.fetches ≤ fetches := by
  intro hall
  obtain ⟨fuel, fetches, hruns⟩ := hall [1] id (emptyPages [1]) none none
    (emptyPages_serves [1]) (by simp)
  obtain ⟨after, hrun, -⟩ := hruns 1
  simp only [nexts, Option.bind_eq_bind, Option.bind_eq_some_iff] at hrun
  obtain ⟨⟨out, rs⟩, hnext, -⟩ := hrun
  rcases next_cases hnext with ⟨hlt, -⟩ | ⟨-, hleft, -⟩ | ⟨-, -, mid, hloop, -⟩
  · simp [init] at hlt
  · simp [init] at hleft
  · have hwaits := fetchWhile_invariant
      (P := fun rs : ResultSet ℕ ℕ Unit => rs.results = [] ∧
        rs.resultsLeft = true ∧ rs.limit = none ∧ startOf id rs.lastKeySeen = 0)
      (fun rs hrs _ _ => by
        obtain ⟨-, hleft, hlimit, hstart⟩ := hrs
        have hkey : (emptyPages [1] rs.fetches rs.lastKeySeen
            rs.requestLimit).lastKey = some 0 := by
          simp [emptyPages, remaining, hstart]
        refine ⟨rfl, ?_, hlimit, ?_⟩
        · rw [fetchMore_resultsLeft]
          simp [hleft, hlimit, hkey]
        · rw [fetchMore_lastKeySeen, hkey]
          rfl)
      ⟨rfl, rfl, rfl, rfl⟩ hloop
    obtain ⟨⟨hnil, hleft, -, -⟩, hstop⟩ := hwaits
    simp [hstop hnil] at hleft

end Boto.DynamoDB2
