import Boto.LRUCache

/-!
# The cache as a list ordered by recency

The cache behaves like an association list from the most to the least recently used
key.  The linked list and the dictionary agree after every operation, and no attribute
of `None` is ever used.
-/

namespace Boto

open LRUCache

variable {κ ν α : Type}

/-! ## Association lists ordered by recency -/

namespace Recency

variable [DecidableEq κ]

/-- The entries other than the one for a key. -/
def without (key : κ) (entries : List (κ × ν)) : List (κ × ν) :=
  entries.filter fun entry => entry.1 ≠ key

/-- An entry becomes the most recently used one. -/
def touch (key : κ) (value : ν) (entries : List (κ × ν)) : List (κ × ν) :=
  (key, value) :: without key entries

/-- The least recently used entry is given up if there are too many. -/
def shrink (capacity : ℕ) (entries : List (κ × ν)) : List (κ × ν) :=
  if capacity < entries.length then entries.dropLast else entries

/-- An operation, with what the caller sees. -/
def step (capacity : ℕ) (entries : List (κ × ν)) :
    Operation κ ν → Outcome κ ν × List (κ × ν)
  | .set key value => (.done, shrink capacity (touch key value entries))
  | .get key =>
      match entries.lookup key with
      | some value => (.value value, touch key value entries)
      | none => (.raised .keyError, entries)
  | .contains key => (.truth (entries.lookup key).isSome, entries)
  | .len => (.number entries.length, entries)
  | .iter => (.keys (entries.map Prod.fst), entries)

/-- Some operations, with what the caller sees of each. -/
def run (capacity : ℕ) (entries : List (κ × ν)) :
    List (Operation κ ν) → List (Outcome κ ν) × List (κ × ν)
  | [] => ([], entries)
  | op :: ops =>
      let (outcome, entries) := step capacity entries op
      let (outcomes, entries) := run capacity entries ops
      (outcome :: outcomes, entries)

/-- What was stored last for each key, after an operation. -/
def store (stored : κ → Option ν) : Operation κ ν → κ → Option ν
  | .set key value, other => if other = key then some value else stored other
  | _, other => stored other

/-- What some operations stored last for each key. -/
def lastStored (ops : List (Operation κ ν)) : κ → Option ν :=
  ops.foldl store fun _ => none

section

variable {stored : κ → Option ν} {entries : List (κ × ν)}

omit [DecidableEq κ] in
theorem mem_of_mem_shrink {capacity : ℕ} {entry : κ × ν}
    (hentry : entry ∈ shrink capacity entries) : entry ∈ entries := by
  rw [shrink] at hentry
  split at hentry
  · exact List.dropLast_sublist _ |>.subset hentry
  · exact hentry

theorem mem_of_lookup {key : κ} {value : ν} (hlookup : entries.lookup key = some value) :
    (key, value) ∈ entries := by
  obtain ⟨front, back, rfl, -⟩ := List.lookup_eq_some_iff.mp hlookup
  simp

/-- Entries hold what was stored last for their keys, if they did before. -/
theorem stored_step {capacity : ℕ} (op : Operation κ ν)
    (hstored : ∀ entry ∈ entries, stored entry.1 = some entry.2) :
    ∀ entry ∈ (step capacity entries op).2, store stored op entry.1 = some entry.2 := by
  intro entry hentry
  cases op with
  | set key value =>
      rcases List.mem_cons.mp (mem_of_mem_shrink hentry) with rfl | hother
      · exact if_pos rfl
      · obtain ⟨hold, hkey⟩ := List.mem_filter.mp hother
        have hne : entry.1 ≠ key := of_decide_eq_true hkey
        rw [store, if_neg hne]
        exact hstored entry hold
  | get key =>
      rw [step] at hentry
      cases hlookup : entries.lookup key with
      | none =>
          rw [hlookup] at hentry
          exact hstored entry hentry
      | some value =>
          rw [hlookup] at hentry
          rcases List.mem_cons.mp hentry with rfl | hother
          · exact hstored _ (mem_of_lookup hlookup)
          · exact hstored entry (List.mem_of_mem_filter hother)
  | contains key => exact hstored entry hentry
  | len => exact hstored entry hentry
  | iter => exact hstored entry hentry

theorem stored_run {capacity : ℕ} (ops : List (Operation κ ν))
    (hstored : ∀ entry ∈ entries, stored entry.1 = some entry.2) :
    ∀ entry ∈ (run capacity entries ops).2,
      ops.foldl store stored entry.1 = some entry.2 := by
  induction ops generalizing stored entries with
  | nil => exact hstored
  | cons op ops ih => exact ih (stored_step op hstored)

end

end Recency

/-! ## Pointers and contents -/

namespace LRUCache

/-- The pointers of the items, and of the cache to its head and its tail. -/
def links (self : LRUCache κ ν) : Links where
  next
    | none => self.head
    | some cell => self.items[cell]?.bind LRUItem.next
  previous
    | none => self.tail
    | some cell => self.items[cell]?.bind LRUItem.previous

/-- What an item stores. -/
def contents (self : LRUCache κ ν) (cell : ℕ) : Option (κ × ν) :=
  self.items[cell]?.map fun item => (item.key, item.value)

/-- The cache after an assignment to a next pointer. -/
def withNext (self : LRUCache κ ν) (ref target : Option ℕ) : LRUCache κ ν :=
  match ref with
  | none => { self with head := target }
  | some cell =>
      { self with items := self.items.modify cell fun item => { item with next := target } }

/-- The cache after an assignment to a previous pointer. -/
def withPrevious (self : LRUCache κ ν) (ref target : Option ℕ) : LRUCache κ ν :=
  match ref with
  | none => { self with tail := target }
  | some cell =>
      { self with
        items := self.items.modify cell fun item => { item with previous := target } }

section

variable (self : LRUCache κ ν) (ref target : Option ℕ)

@[simp] theorem dict_withNext : (self.withNext ref target).dict = self.dict := by
  cases ref <;> rfl

@[simp] theorem dict_withPrevious : (self.withPrevious ref target).dict = self.dict := by
  cases ref <;> rfl

@[simp] theorem capacity_withNext :
    (self.withNext ref target).capacity = self.capacity := by
  cases ref <;> rfl

@[simp] theorem capacity_withPrevious :
    (self.withPrevious ref target).capacity = self.capacity := by
  cases ref <;> rfl

@[simp] theorem length_withNext :
    (self.withNext ref target).items.length = self.items.length := by
  cases ref <;> simp [withNext]

@[simp] theorem length_withPrevious :
    (self.withPrevious ref target).items.length = self.items.length := by
  cases ref <;> simp [withPrevious]

@[simp] theorem contents_withNext :
    (self.withNext ref target).contents = self.contents := by
  funext cell
  cases ref with
  | none => rfl
  | some other =>
      rw [contents, contents, withNext, List.getElem?_modify]
      cases self.items[cell]? <;> simp
      split <;> exact ⟨rfl, rfl⟩

@[simp] theorem contents_withPrevious :
    (self.withPrevious ref target).contents = self.contents := by
  funext cell
  cases ref with
  | none => rfl
  | some other =>
      rw [contents, contents, withPrevious, List.getElem?_modify]
      cases self.items[cell]? <;> simp
      split <;> exact ⟨rfl, rfl⟩

variable {self ref}

theorem links_withNext (href : ∀ cell, ref = some cell → cell < self.items.length) :
    (self.withNext ref target).links = self.links.setNext ref target := by
  cases ref with
  | none =>
      rw [Links.setNext, links, links, withNext, Links.mk.injEq]
      refine ⟨?_, rfl⟩
      funext p
      cases p <;> simp
  | some cell =>
      have hcell := href cell rfl
      rw [Links.setNext, links, links, withNext, Links.mk.injEq]
      constructor
      · funext p
        cases p with
        | none => simp
        | some other =>
            by_cases heq : other = cell
            · subst heq
              simp [hcell]
            · have hne : ¬cell = other := fun h => heq h.symm
              simp [heq, hne]
      · funext p
        cases p with
        | none => rfl
        | some other =>
            dsimp only
            rw [List.getElem?_modify]
            cases self.items[other]? <;> simp
            split <;> rfl

theorem links_withPrevious (href : ∀ cell, ref = some cell → cell < self.items.length) :
    (self.withPrevious ref target).links = self.links.setPrevious ref target := by
  cases ref with
  | none =>
      rw [Links.setPrevious, links, links, withPrevious, Links.mk.injEq]
      refine ⟨rfl, ?_⟩
      funext p
      cases p <;> simp
  | some cell =>
      have hcell := href cell rfl
      rw [Links.setPrevious, links, links, withPrevious, Links.mk.injEq]
      constructor
      · funext p
        cases p with
        | none => rfl
        | some other =>
            dsimp only
            rw [List.getElem?_modify]
            cases self.items[other]? <;> simp
            split <;> rfl
      · funext p
        cases p with
        | none => simp
        | some other =>
            by_cases heq : other = cell
            · subst heq
              simp [hcell]
            · have hne : ¬cell = other := fun h => heq h.symm
              simp [heq, hne]

end

/-! ## What the parts of the methods do -/

theorem run_assign_next (self : LRUCache κ ν) (cell : ℕ) (target : Option ℕ) :
    (assign (fun item => { item with next := target }) (some cell)).run self =
      .ok () (self.withNext (some cell) target) := rfl

theorem run_assign_previous (self : LRUCache κ ν) (cell : ℕ) (target : Option ℕ) :
    (assign (fun item => { item with previous := target }) (some cell)).run self =
      .ok () (self.withPrevious (some cell) target) := rfl

theorem run_read {self : LRUCache κ ν} {cell : ℕ} (field : LRUItem κ ν → α)
    (hcell : cell < self.items.length) :
    (read field (some cell)).run self = .ok (field self.items[cell]) self := by
  simp [EStateM.run, read, hcell]

theorem run_read_next {self : LRUCache κ ν} {cell : ℕ}
    (hcell : cell < self.items.length) :
    (read LRUItem.next (some cell)).run self =
      .ok (self.links.next (some cell)) self := by
  rw [run_read _ hcell]
  simp [links, hcell]

theorem run_read_previous {self : LRUCache κ ν} {cell : ℕ}
    (hcell : cell < self.items.length) :
    (read LRUItem.previous (some cell)).run self =
      .ok (self.links.previous (some cell)) self := by
  rw [run_read _ hcell]
  simp [links, hcell]

/-- `_update_item` moves an item that is not the head to the front. -/
theorem run_updateItem {self : LRUCache κ ν} {before after : List ℕ} {cell : ℕ}
    (hholds : self.links.Holds (before ++ cell :: after))
    (hnodup : (before ++ cell :: after).Nodup)
    (hvalid : ∀ other ∈ before ++ cell :: after, other < self.items.length) :
    ∃ self', (updateItem cell).run self = .ok () self' ∧
      self'.links.Holds (cell :: (before ++ after)) ∧ self'.contents = self.contents ∧
      self'.dict = self.dict ∧ self'.capacity = self.capacity ∧
      self'.items.length = self.items.length := by
  have hhead : self.head = (before ++ cell :: after).head? := hholds.next_none
  cases before with
  | nil =>
      refine ⟨self, ?_, hholds, rfl, rfl, rfl, rfl⟩
      rw [updateItem]
      simp [hhead]
  | cons first before =>
      obtain ⟨items, dict, capacity, head, tail⟩ := self
      change head = some first at hhead
      subst hhead
      generalize hself : (⟨items, dict, capacity, some first, tail⟩ : LRUCache κ ν) = self
        at *
      have hhead : self.head = some first := by rw [← hself]
      have hcell : cell < self.items.length := hvalid cell (by simp)
      have hfirst : first ≠ cell := by
        rintro rfl
        simp at hnodup
      obtain ⟨hnext, hprevious⟩ := hholds.neighbours
      obtain ⟨last, hlast⟩ : ∃ last, (first :: before).getLast? = some last :=
        ⟨_, List.getLast?_eq_some_getLast (List.cons_ne_nil _ _)⟩
      rw [hlast] at hprevious
      have hprevious' : ∀ other, some last = some other → other < self.items.length := by
        intro other hother
        rw [← Option.some.inj hother]
        exact hvalid last (List.mem_append_left _ (List.mem_of_getLast? hlast))
      have hnext' : ∀ other, after.head? = some other → other < self.items.length := by
        intro other hother
        exact hvalid other (by simp [List.mem_of_head? hother])
      have hrun : (updateItem cell).run self = .ok ()
          ((((((self.withNext (some last) after.head?).withPrevious after.head?
            (some last)).withPrevious (some cell) none).withNext (some cell)
              (some first)).withPrevious (some first) (some cell)).withNext none
                (some cell)) := by
        have hread : (read LRUItem.next (some cell)).run
            (self.withNext (some last) after.head?) =
              .ok after.head? (self.withNext (some last) after.head?) := by
          have hne : some cell ≠ some last := by
            rintro heq
            rw [← Option.some.inj heq] at hlast
            exact (List.nodup_append.mp hnodup).2.2 cell (List.mem_of_getLast? hlast)
              cell List.mem_cons_self rfl
          rw [run_read_next (by simpa using hcell), links_withNext _ hprevious',
            Links.next_setNext_of_ne _ hne, hnext]
        have hne : ¬some first = some cell := fun heq => hfirst (Option.some.inj heq)
        rw [updateItem]
        simp only [EStateM.run_bind, EStateM.run_get, hhead, if_neg hne,
          run_read_previous hcell, run_read_next hcell, hnext, hprevious,
          run_assign_next, hread]
        cases after with
        | nil =>
            rw [← hself]
            rfl
        | cons next after =>
            rw [← hself]
            rfl
      refine ⟨_, hrun, ?_, by simp, by simp, by simp, by simp⟩
      have hrest := List.nodup_cons.mp (List.nodup_middle.mp hnodup)
      have hremoved := hholds.remove hnodup
      have hpushed := hremoved.push hrest.1 hrest.2
      have hfirst' : first < self.items.length := hvalid first (by simp)
      have hvalid₁ : ∀ other, some cell = some other → other < self.items.length :=
        fun other heq => Option.some.inj heq ▸ hcell
      have hvalid₂ : ∀ other, some first = some other → other < self.items.length :=
        fun other heq => Option.some.inj heq ▸ hfirst'
      rw [Links.push, hremoved.next_none, Links.remove, hnext, hprevious] at hpushed
      rw [links_withNext _ (by simp), links_withPrevious _ (by simpa using hvalid₂),
        links_withNext _ (by simpa using hvalid₁),
        links_withPrevious _ (by simpa using hvalid₁),
        links_withPrevious _ (by simpa using hnext'), links_withNext _ hprevious']
      exact hpushed

/-! ## The representation -/

variable [DecidableEq κ]

/-- The cache holds a list of cells that store some entries. -/
structure Represents (cache : LRUCache κ ν) (cells : List ℕ) (entries : List (κ × ν)) :
    Prop where
  nodup : cells.Nodup
  holds : cache.links.Holds cells
  contents : cells.map cache.contents = entries.map some
  dict : ∀ key cell, cache.dict.get? key = some cell ↔
    cell ∈ cells ∧ ∃ value, cache.contents cell = some (key, value)

variable {self : LRUCache κ ν} {cells : List ℕ} {entries : List (κ × ν)}

namespace Represents

theorem exists_contents (hself : Represents self cells entries) {cell : ℕ}
    (hcell : cell ∈ cells) : ∃ entry ∈ entries, self.contents cell = some entry := by
  have hmem : self.contents cell ∈ entries.map some := by
    rw [← hself.contents]
    exact List.mem_map_of_mem hcell
  obtain ⟨entry, hentry, heq⟩ := List.mem_map.mp hmem
  exact ⟨entry, hentry, heq.symm⟩

theorem valid (hself : Represents self cells entries) {cell : ℕ} (hcell : cell ∈ cells) :
    cell < self.items.length := by
  obtain ⟨entry, -, hentry⟩ := hself.exists_contents hcell
  rw [LRUCache.contents, Option.map_eq_some_iff] at hentry
  obtain ⟨item, hitem, -⟩ := hentry
  exact (List.getElem?_eq_some_iff.mp hitem).1

/-- The cell that the dictionary gives for a key is in the list, with the entry of that
key, and the entries around it have other keys. -/
theorem split_of_get? (hself : Represents self cells entries) {key : κ} {cell : ℕ}
    (hget : self.dict.get? key = some cell) :
    ∃ before after value front back, cells = before ++ cell :: after ∧
      entries = front ++ (key, value) :: back ∧
      self.contents cell = some (key, value) ∧
      before.map self.contents = front.map some ∧
      after.map self.contents = back.map some ∧
      (∀ entry ∈ front ++ back, entry.1 ≠ key) := by
  obtain ⟨hmem, value, hcontents⟩ := (hself.dict key cell).mp hget
  obtain ⟨before, after, rfl⟩ := List.append_of_mem hmem
  have hmap := hself.contents
  rw [List.map_append, List.map_cons, hcontents, eq_comm, List.map_eq_append_iff] at hmap
  obtain ⟨front, back', rfl, hfront, hback'⟩ := hmap
  rw [List.map_eq_cons_iff] at hback'
  obtain ⟨entry, back, rfl, hentry, hback⟩ := hback'
  obtain rfl := Option.some.inj hentry
  refine ⟨before, after, value, front, back, rfl, rfl, hcontents, hfront.symm,
    hback.symm, ?_⟩
  intro entry hentry hkey
  have hother : some entry ∈ (before ++ after).map self.contents := by
    rw [List.map_append, ← hfront, ← hback, ← List.map_append]
    exact List.mem_map_of_mem hentry
  obtain ⟨other, hin, heq⟩ := List.mem_map.mp hother
  have hcell : other ∈ before ++ cell :: after := by
    rcases List.mem_append.mp hin with hin | hin <;> simp [hin]
  have hsame : self.dict.get? key = some other := by
    refine (hself.dict key other).mpr ⟨hcell, entry.2, ?_⟩
    rw [heq, ← hkey]
  rw [hget] at hsame
  have hnot := (List.nodup_cons.mp (List.nodup_middle.mp hself.nodup)).1
  exact hnot (Option.some.inj hsame ▸ hin)

/-- The dictionary has as many keys as there are entries. -/
theorem len_eq (hself : Represents self cells entries) : self.len = entries.length := by
  have hmem : ∀ key cell, (key, cell) ∈ self.dict.items ↔
      cell ∈ cells ∧ ∃ value, self.contents cell = some (key, value) := by
    intro key cell
    rw [← Dict.get?_eq_some_iff, hself.dict]
  have hnodup : (self.dict.items.map Prod.snd).Nodup := by
    refine List.Nodup.map_on ?_ self.dict.nodup.of_map
    rintro ⟨key, cell⟩ hfirst ⟨key', cell'⟩ hsecond heq
    obtain rfl : cell = cell' := heq
    obtain ⟨-, value, hvalue⟩ := (hmem key cell).mp hfirst
    obtain ⟨-, value', hvalue'⟩ := (hmem key' cell).mp hsecond
    rw [hvalue, Option.some.injEq, Prod.mk.injEq] at hvalue'
    rw [hvalue'.1]
  have hperm : (self.dict.items.map Prod.snd).Perm cells := by
    rw [List.perm_ext_iff_of_nodup hnodup hself.nodup]
    intro cell
    rw [List.mem_map]
    constructor
    · rintro ⟨⟨key, cell⟩, hitem, rfl⟩
      exact ((hmem key cell).mp hitem).1
    · intro hcell
      obtain ⟨entry, -, hentry⟩ := hself.exists_contents hcell
      exact ⟨(entry.1, cell), (hmem entry.1 cell).mpr ⟨hcell, entry.2, hentry⟩, rfl⟩
  have hlength := congrArg List.length hself.contents
  rw [List.length_map, List.length_map] at hlength
  rw [len, ← hlength, ← hperm.length_eq, List.length_map]

/-- Lookups in the dictionary are lookups of entries. -/
theorem lookup_eq (hself : Represents self cells entries) (key : κ) :
    entries.lookup key = (self.dict.get? key).bind fun cell =>
      (self.contents cell).map Prod.snd := by
  cases hget : self.dict.get? key with
  | some cell =>
      obtain ⟨before, after, value, front, back, rfl, rfl, hcontents, -, -, hothers⟩ :=
        hself.split_of_get? hget
      have hfront : front.lookup key = none := by
        rw [List.lookup_eq_none_iff]
        intro entry hentry
        exact bne_iff_ne.mpr (Ne.symm (hothers entry (List.mem_append_left _ hentry)))
      rw [List.lookup_append, hfront, Option.none_or, List.lookup_cons_self,
        Option.bind_some, hcontents, Option.map_some]
  | none =>
      rw [Option.bind_none, List.lookup_eq_none_iff]
      intro entry hentry
      by_contra heq
      have hkey : key = entry.1 := by simpa using heq
      have hsome : some entry ∈ cells.map self.contents := by
        rw [hself.contents]
        exact List.mem_map_of_mem hentry
      obtain ⟨cell, hcell, hcontents⟩ := List.mem_map.mp hsome
      rw [(hself.dict key cell).mpr ⟨hcell, entry.2, by rw [hcontents, hkey]⟩] at hget
      cases hget

theorem without_eq {key : κ} {value : ν} {front back : List (κ × ν)}
    (hothers : ∀ entry ∈ front ++ back, entry.1 ≠ key) :
    Recency.without key (front ++ (key, value) :: back) = front ++ back := by
  have hkeep : ∀ part : List (κ × ν), (∀ entry ∈ part, entry.1 ≠ key) →
      part.filter (fun entry => entry.1 ≠ key) = part := by
    intro part hpart
    exact List.filter_eq_self.mpr fun entry hentry => decide_eq_true (hpart entry hentry)
  rw [List.forall_mem_append] at hothers
  rw [Recency.without, List.filter_append, List.filter_cons_of_neg (by simp),
    hkeep front hothers.1, hkeep back hothers.2]

/-- The items of a cache in another order and with another value for the first one. -/
theorem reorder {self' : LRUCache κ ν} {before after : List ℕ} {cell : ℕ}
    {front back : List (κ × ν)} {key : κ} {value : ν}
    (hself : Represents self (before ++ cell :: after) entries)
    (hkey : self.dict.get? key = some cell)
    (hbefore : before.map self.contents = front.map some)
    (hafter : after.map self.contents = back.map some)
    (hholds : self'.links.Holds (cell :: (before ++ after)))
    (hcell : self'.contents cell = some (key, value))
    (hothers : ∀ other, other ≠ cell → self'.contents other = self.contents other)
    (hdict : self'.dict = self.dict) :
    Represents self' (cell :: (before ++ after)) ((key, value) :: (front ++ back)) := by
  have hnodup := List.nodup_middle.mp hself.nodup
  have hmem : ∀ other, other ∈ cell :: (before ++ after) ↔
      other ∈ before ++ cell :: after := by
    intro other
    simp only [List.mem_cons, List.mem_append]
    tauto
  refine ⟨hnodup, hholds, ?_, ?_⟩
  · have hmap : (before ++ after).map self'.contents =
        (before ++ after).map self.contents := by
      refine List.map_congr_left fun other hother => hothers other ?_
      rintro rfl
      exact (List.nodup_cons.mp hnodup).1 hother
    rw [List.map_cons, hcell, hmap, List.map_append, hbefore, hafter, List.map_cons,
      List.map_append]
  · intro key' other
    rw [hdict, hself.dict, hmem]
    refine and_congr_right fun hin => ?_
    by_cases heq : other = cell
    · subst heq
      obtain ⟨-, value', hvalue'⟩ := (hself.dict key other).mp hkey
      rw [hcell, hvalue']
      simp
    · rw [hothers other heq]

end Represents

/-- `_update_item` makes the entry of an item the most recently used one. -/
theorem Represents.updateItem (hself : Represents self cells entries) {key : κ}
    {cell : ℕ} (hget : self.dict.get? key = some cell) :
    ∃ self' cells' value, (updateItem cell).run self = .ok () self' ∧
      self.contents cell = some (key, value) ∧ self'.contents = self.contents ∧
      self'.capacity = self.capacity ∧
      Represents self' cells' (Recency.touch key value entries) := by
  obtain ⟨before, after, value, front, back, rfl, rfl, hcontents, hbefore, hafter,
    hothers⟩ := hself.split_of_get? hget
  obtain ⟨self', hrun, hholds, hcontents', hdict, hcapacity, -⟩ :=
    run_updateItem hself.holds hself.nodup fun other hother => hself.valid hother
  refine ⟨self', cell :: (before ++ after), value, hrun, hcontents, hcontents', hcapacity,
    ?_⟩
  rw [Recency.touch, without_eq hothers]
  exact hself.reorder hget hbefore hafter hholds (by rw [hcontents', hcontents])
    (fun other _ => by rw [hcontents']) hdict

/-! ## Eviction -/

theorem run_delete {key : κ} {cell : ℕ} (hget : self.dict.get? key = some cell) :
    (delete key).run self = .ok () { self with dict := self.dict.erase key } := by
  simp [EStateM.run, delete, hget]

/-- A round of the loop of `_manage_size` removes the last entry. -/
theorem Represents.evict {cell : ℕ} {entry : κ × ν}
    (hself : Represents self (cells ++ [cell]) (entries ++ [entry])) :
    ∃ self', (LRUCache.evict).run self = .ok () self' ∧ self'.capacity = self.capacity ∧
      Represents self' cells entries := by
  have hcell : cell < self.items.length := hself.valid (by simp)
  have hlast := hself.contents
  rw [List.map_append, List.map_append] at hlast
  obtain ⟨hcontents, hentry⟩ := List.append_inj' hlast rfl
  have hentry : self.contents cell = some entry := by simpa using hentry
  have htail : self.tail = some cell := by
    have hprevious := hself.holds.previous_none
    rwa [List.getLast?_concat] at hprevious
  have hhead : self.head = (cells ++ [cell]).head? := hself.holds.next_none
  obtain ⟨-, hprevious⟩ := hself.holds.neighbours
  have hkey : self.dict.get? entry.1 = some cell :=
    (hself.dict _ _).mpr ⟨by simp, entry.2, hentry⟩
  have hrun : LRUCache.evict.run self = .ok ()
      (({ self with dict := self.dict.erase entry.1 }.withPrevious none
        cells.getLast?).withNext cells.getLast? none) := by
    have hread : (read LRUItem.key (some cell)).run self = .ok entry.1 self := by
      rw [run_read _ hcell]
      have heq : self.contents cell = some (self.items[cell].key, self.items[cell].value) := by
        simp [LRUCache.contents, hcell]
      rw [heq, Option.some.injEq] at hentry
      rw [← hentry]
    have hread' : (read LRUItem.previous (some cell)).run
        { self with dict := self.dict.erase entry.1 } =
          .ok cells.getLast? { self with dict := self.dict.erase entry.1 } := by
      rw [← hprevious]
      exact @run_read_previous _ _ { self with dict := self.dict.erase entry.1 } _ hcell
    rw [LRUCache.evict]
    simp only [EStateM.run_bind, EStateM.run_get, htail, hread, run_delete hkey]
    cases cells with
    | nil =>
        rw [hhead, if_neg (by simp)]
        rfl
    | cons first cells =>
        have hne : cell ≠ first := by
          rintro rfl
          simpa using hself.nodup
        obtain ⟨last, hlast⟩ : ∃ last, (first :: cells).getLast? = some last :=
          ⟨_, List.getLast?_eq_some_getLast (List.cons_ne_nil _ _)⟩
        simp only [htail, hhead, hlast] at hread' ⊢
        rw [if_pos (by simpa using hne)]
        simp only [EStateM.run_bind, EStateM.run_get, hread']
        rfl
  refine ⟨_, hrun, by simp, ?_⟩
  have hnodup := List.nodup_append.mp hself.nodup
  have hcell' : cell ∉ cells := fun hin =>
    hnodup.2.2 cell hin cell (List.mem_singleton_self cell) rfl
  refine ⟨hnodup.1, ?_, ?_, ?_⟩
  · have hvalid : ∀ other, cells.getLast? = some other → other < self.items.length :=
      fun other hother =>
        hself.valid (List.mem_append_left _ (List.mem_of_getLast? hother))
    have hremoved := hself.holds.remove hself.nodup
    rw [Links.remove, hself.holds.neighbours.1, hprevious, List.append_nil] at hremoved
    rw [links_withNext _ (by simpa using hvalid), links_withPrevious _ (by simp)]
    exact hremoved
  · rw [contents_withNext, contents_withPrevious]
    exact hcontents
  · intro key other
    rw [contents_withNext, contents_withPrevious, dict_withNext, dict_withPrevious,
      Dict.get?_erase]
    change _ ↔ other ∈ cells ∧ ∃ value, self.contents other = some (key, value)
    split
    · rename_i heq
      subst heq
      simp only [false_iff, reduceCtorEq, not_and]
      rintro hother ⟨value, hvalue⟩
      have hget := (hself.dict entry.1 other).mpr ⟨by simp [hother], value, hvalue⟩
      rw [hkey] at hget
      exact hcell' (Option.some.inj hget ▸ hother)
    · rename_i hne
      rw [hself.dict]
      refine and_congr_left ?_
      rintro ⟨value, hvalue⟩
      have hother : other ≠ cell := by
        rintro rfl
        rw [hentry] at hvalue
        exact hne (congrArg Prod.fst (Option.some.inj hvalue)).symm
      simp [hother]

/-- `_manage_size` with at most one entry too many. -/
theorem Represents.manageSize (hself : Represents self cells entries)
    (hlength : entries.length ≤ self.capacity + 1) :
    ∃ self' cells', (LRUCache.manageSize).run self = .ok () self' ∧
      self'.capacity = self.capacity ∧
      Represents self' cells' (Recency.shrink self.capacity entries) := by
  rw [LRUCache.manageSize, Recency.shrink]
  simp only [EStateM.run_bind, EStateM.run_get]
  by_cases hover : self.capacity < entries.length
  · have hcells : cells.length = entries.length := by
      have := congrArg List.length hself.contents
      simpa using this
    have hne : entries ≠ [] := by
      rintro rfl
      simp at hover
    have hne' : cells ≠ [] := by
      rintro rfl
      rw [← hcells] at hover
      simp at hover
    have hself' : Represents self (cells.dropLast ++ [cells.getLast hne'])
        (entries.dropLast ++ [entries.getLast hne]) := by
      rwa [List.dropLast_append_getLast, List.dropLast_append_getLast]
    obtain ⟨self', hrun, hcapacity, hevicted⟩ := hself'.evict
    refine ⟨self', _, ?_, hcapacity, by rw [if_pos hover]; exact hevicted⟩
    obtain ⟨fuel, hfuel⟩ : ∃ fuel, self.len = fuel + 1 := by
      refine ⟨self.len - 1, ?_⟩
      rw [hself.len_eq]
      omega
    have hstop : self'.isOverfull = false := by
      rw [isOverfull, hevicted.len_eq, hcapacity, List.length_dropLast]
      exact decide_eq_false (by omega)
    have hgo : self.isOverfull = true := by
      rw [isOverfull, hself.len_eq]
      exact decide_eq_true hover
    rw [hfuel, EStateM.run_whileLoop_succ hgo, EStateM.run_bind, hrun]
    exact EStateM.run_whileLoop_of_not hstop fuel
  · refine ⟨self, cells, ?_, rfl, by rw [if_neg hover]; exact hself⟩
    have hstop : self.isOverfull = false := by
      rw [isOverfull, hself.len_eq]
      exact decide_eq_false hover
    exact EStateM.run_whileLoop_of_not hstop _

/-! ## Insertion -/

/-- The cache with a new item, not yet linked. -/
def withItem (self : LRUCache κ ν) (key : κ) (value : ν) : LRUCache κ ν :=
  { self with
    items := self.items ++ [{ previous := none, next := none, key := key, value := value }]
    dict := self.dict.set key self.items.length }

theorem links_withItem (self : LRUCache κ ν) (key : κ) (value : ν) :
    (self.withItem key value).links = self.links := by
  rw [links, links, Links.mk.injEq]
  constructor <;> funext ref <;> cases ref with
  | none => rfl
  | some cell =>
      dsimp only [withItem]
      rcases lt_trichotomy cell self.items.length with hlt | rfl | hgt
      · rw [List.getElem?_append_left hlt]
      · simp
      · rw [List.getElem?_eq_none (by simp; omega), List.getElem?_eq_none (by omega)]

theorem contents_withItem (self : LRUCache κ ν) (key : κ) (value : ν) (cell : ℕ) :
    (self.withItem key value).contents cell =
      if cell = self.items.length then some (key, value) else self.contents cell := by
  dsimp only [withItem, contents]
  rcases lt_trichotomy cell self.items.length with hlt | rfl | hgt
  · rw [List.getElem?_append_left hlt, if_neg (by omega)]
  · simp
  · rw [List.getElem?_eq_none (by simp; omega), List.getElem?_eq_none (by omega),
      if_neg (by omega)]

/-- `_insert_item` puts an item before the head. -/
theorem run_insertItem (self : LRUCache κ ν) (item : ℕ) :
    (LRUCache.insertItem item).run self =
      LRUCache.manageSize.run
        ((((self.withPrevious (some item) none).withNext (some item) self.head).withPrevious
          self.head (some item)).withNext none (some item)) := by
  obtain ⟨items, dict, capacity, head, tail⟩ := self
  cases head <;> rfl

theorem Represents.insertItem (hself : Represents self cells entries) {key : κ}
    (hget : self.dict.get? key = none) (value : ν)
    (hlength : entries.length ≤ self.capacity) :
    ∃ self' cells', (LRUCache.insertItem self.items.length).run (self.withItem key value) =
        .ok () self' ∧ self'.capacity = self.capacity ∧
      Represents self' cells'
        (Recency.shrink self.capacity (Recency.touch key value entries)) := by
  have hnew : self.items.length ∉ cells := fun hin =>
    Nat.lt_irrefl _ (hself.valid hin)
  let added := self.withItem key value
  let linked := (((added.withPrevious (some self.items.length) none).withNext
    (some self.items.length) self.head).withPrevious self.head
      (some self.items.length)).withNext none (some self.items.length)
  have hcapacity : linked.capacity = self.capacity := by simp [linked, added, withItem]
  have hcontents : linked.contents = added.contents := by simp [linked]
  have hold : ∀ cell ∈ cells, added.contents cell = self.contents cell := by
    intro cell hcell
    rw [contents_withItem, if_neg fun heq : cell = self.items.length =>
      hnew (heq ▸ hcell)]
  have hwithout : Recency.without key entries = entries := by
    refine List.filter_eq_self.mpr fun entry hentry => decide_eq_true ?_
    rintro rfl
    have hsome : some entry ∈ cells.map self.contents := by
      rw [hself.contents]
      exact List.mem_map_of_mem hentry
    obtain ⟨cell, hcell, hvalue⟩ := List.mem_map.mp hsome
    rw [(hself.dict entry.1 cell).mpr ⟨hcell, entry.2, hvalue⟩] at hget
    cases hget
  have hholds : linked.links.Holds (self.items.length :: cells) := by
    have hpushed := hself.holds.push hnew hself.nodup
    have hlength : added.items.length = self.items.length + 1 := by
      simp [added, withItem]
    have hfresh : ∀ cell, some self.items.length = some cell → cell < added.items.length := by
      intro cell heq
      have := Option.some.inj heq
      omega
    have hhead : ∀ cell, self.head = some cell → cell < added.items.length := by
      intro cell heq
      have hfirst : self.head = cells.head? := hself.holds.next_none
      have := hself.valid (List.mem_of_head? (hfirst ▸ heq))
      omega
    rw [links_withNext _ (by simp), links_withPrevious _ (by simpa using hhead),
      links_withNext _ (by simpa using hfresh), links_withPrevious _ hfresh,
      links_withItem]
    exact hpushed
  have hlinked : Represents linked (self.items.length :: cells) ((key, value) :: entries) := by
    refine ⟨List.nodup_cons.mpr ⟨hnew, hself.nodup⟩, hholds, ?_, ?_⟩
    · have hfirst : added.contents self.items.length = some (key, value) := by
        rw [contents_withItem, if_pos rfl]
      rw [hcontents, List.map_cons, hfirst, List.map_congr_left hold, hself.contents,
        List.map_cons]
    · intro key' cell
      have hdict : linked.dict = self.dict.set key self.items.length := by
        simp [linked, added, withItem]
      rw [hdict, hcontents, Dict.get?_set, contents_withItem]
      by_cases hcell : cell = self.items.length
      · subst hcell
        have hnone : self.dict.get? key' ≠ some self.items.length := fun hsome =>
          hnew ((hself.dict _ _).mp hsome).1
        by_cases hkey : key' = key
        · simp [hkey]
        · simp [hkey, hnone, Ne.symm hkey]
      · by_cases hkey : key' = key
        · subst hkey
          have hdict := hself.dict key' cell
          rw [hget] at hdict
          simpa [hcell, Ne.symm hcell] using hdict
        · simp [hcell, hkey, hself.dict]
  obtain ⟨self', cells', hrun, hcapacity', hself'⟩ := hlinked.manageSize (by
    rw [hcapacity, List.length_cons]
    omega)
  refine ⟨self', cells', ?_, hcapacity'.trans hcapacity, ?_⟩
  · rw [run_insertItem]
    exact hrun
  · rw [Recency.touch, hwithout, ← hcapacity]
    exact hself'

/-! ## Lookups and assignments -/

theorem Represents.getItem (hself : Represents self cells entries) (key : κ) :
    (∃ self' cells' value, (LRUCache.getItem key).run self = .ok value self' ∧
      entries.lookup key = some value ∧ self'.capacity = self.capacity ∧
      Represents self' cells' (Recency.touch key value entries)) ∨
    ((LRUCache.getItem key).run self = .error .keyError self ∧
      entries.lookup key = none) := by
  rw [LRUCache.getItem]
  simp only [EStateM.run_bind, EStateM.run_get]
  cases hget : self.dict.get? key with
  | none =>
      refine .inr ⟨rfl, ?_⟩
      rw [hself.lookup_eq, hget]
      rfl
  | some cell =>
      obtain ⟨self', cells', value, hrun, hvalue, hcontents, hcapacity, hself'⟩ :=
        hself.updateItem hget
      refine .inl ⟨self', cells', value, ?_, ?_, hcapacity, hself'⟩
      · have hvalue' : self'.contents cell = some (key, value) := by rw [hcontents, hvalue]
        rw [LRUCache.contents, Option.map_eq_some_iff] at hvalue'
        obtain ⟨item, hitem, heq⟩ := hvalue'
        obtain ⟨hcell, rfl⟩ := List.getElem?_eq_some_iff.mp hitem
        dsimp only
        rw [EStateM.run_bind, hrun]
        dsimp only
        rw [run_read _ hcell, (Prod.mk.inj heq).2]
      · rw [hself.lookup_eq, hget, Option.bind_some, hvalue]
        rfl

/-- Assigning to the value of an item. -/
theorem Represents.assignValue {before after : List ℕ} {cell : ℕ} {key : κ}
    {old : ν} {front back : List (κ × ν)}
    (hself : Represents self (before ++ cell :: after) (front ++ (key, old) :: back))
    (hget : self.dict.get? key = some cell)
    (hcell : self.contents cell = some (key, old))
    (hbefore : before.map self.contents = front.map some)
    (hafter : after.map self.contents = back.map some) (value : ν) :
    ∃ self', (assign (fun item => { item with value := value }) (some cell)).run self =
        .ok () self' ∧ self'.capacity = self.capacity ∧
      self'.dict.get? key = some cell ∧ self'.contents cell = some (key, value) ∧
      Represents self' (before ++ cell :: after) (front ++ (key, value) :: back) := by
  let self' : LRUCache κ ν :=
    { self with items := self.items.modify cell fun item => { item with value := value } }
  have hlinks : self'.links = self.links := by
    rw [links, links, Links.mk.injEq]
    constructor <;> funext ref <;> cases ref with
    | none => rfl
    | some other =>
        dsimp only [self']
        rw [List.getElem?_modify]
        cases self.items[other]? <;> simp
        split <;> rfl
  have hthis : self'.contents cell = some (key, value) := by
    rw [LRUCache.contents, Option.map_eq_some_iff] at hcell ⊢
    obtain ⟨item, hitem, heq⟩ := hcell
    refine ⟨{ item with value := value }, ?_, ?_⟩
    · dsimp only [self']
      rw [List.getElem?_modify, hitem]
      simp
    · rw [← (Prod.mk.inj heq).1]
  have hothers : ∀ other, other ≠ cell → self'.contents other = self.contents other := by
    intro other hne
    dsimp only [LRUCache.contents, self']
    rw [List.getElem?_modify]
    simp [Ne.symm hne]
  have hnodup := List.nodup_middle.mp hself.nodup
  have hkeep : ∀ part : List ℕ, (∀ other ∈ part, other ∈ before ++ after) →
      part.map self'.contents = part.map self.contents := by
    intro part hpart
    refine List.map_congr_left fun other hother => hothers other ?_
    rintro rfl
    exact (List.nodup_cons.mp hnodup).1 (hpart other hother)
  refine ⟨self', rfl, rfl, hget, hthis, hself.nodup, hlinks ▸ hself.holds, ?_, ?_⟩
  · rw [List.map_append, List.map_cons, hthis,
      hkeep before fun _ => List.mem_append_left _, hbefore,
      hkeep after fun _ => List.mem_append_right _, hafter, List.map_append, List.map_cons]
  · intro key' other
    rw [show self'.dict = self.dict from rfl, hself.dict]
    refine and_congr_right fun _ => ?_
    by_cases heq : other = cell
    · subst heq
      rw [hthis, hcell]
      simp
    · rw [hothers other heq]

theorem length_touch_le (key : κ) (value : ν) (entries : List (κ × ν)) :
    (Recency.touch key value entries).length ≤ entries.length + 1 :=
  Nat.succ_le_succ (List.length_filter_le ..)

theorem length_shrink_le {capacity : ℕ} (key : κ) (value : ν) {entries : List (κ × ν)}
    (hlength : entries.length ≤ capacity) :
    (Recency.shrink capacity (Recency.touch key value entries)).length ≤ capacity := by
  have htouch := length_touch_le key value entries
  rw [Recency.shrink]
  split
  · rw [List.length_dropLast]
    omega
  · omega

theorem Represents.setItem (hself : Represents self cells entries)
    (hlength : entries.length ≤ self.capacity) (key : κ) (value : ν) :
    ∃ self' cells', (LRUCache.setItem key value).run self = .ok () self' ∧
      self'.capacity = self.capacity ∧
      Represents self' cells'
        (Recency.shrink self.capacity (Recency.touch key value entries)) := by
  rw [LRUCache.setItem]
  simp only [EStateM.run_bind, EStateM.run_get]
  cases hget : self.dict.get? key with
  | none => exact hself.insertItem hget value hlength
  | some cell =>
      obtain ⟨before, after, old, front, back, rfl, rfl, hcontents, hbefore, hafter,
        hothers⟩ := hself.split_of_get? hget
      obtain ⟨stored, hstore, hcapacity, hget', hcell, hstored⟩ :=
        hself.assignValue hget hcontents hbefore hafter value
      obtain ⟨moved, cells', value', hmove, hvalue, -, hcapacity', hmoved⟩ :=
        hstored.updateItem hget'
      rw [hcell, Option.some.injEq, Prod.mk.injEq] at hvalue
      have hsame : Recency.touch key value' (front ++ (key, value) :: back) =
          Recency.touch key value (front ++ (key, old) :: back) := by
        rw [Recency.touch, Recency.touch, ← hvalue.2, without_eq hothers,
          without_eq hothers]
      rw [hsame] at hmoved
      have hshort := length_touch_le key value (front ++ (key, old) :: back)
      obtain ⟨self', cells'', hrun, hcapacity'', hself'⟩ := hmoved.manageSize (by omega)
      rw [hcapacity', hcapacity] at hself'
      refine ⟨self', cells'', ?_, by rw [hcapacity'', hcapacity', hcapacity], hself'⟩
      dsimp only
      rw [EStateM.run_bind, hstore]
      dsimp only
      rw [EStateM.run_bind, hmove]
      exact hrun

/-! ## Runs -/

/-- The linked list of a cache visits some items in both directions, each once, and the
dictionary has exactly their keys. -/
structure Consistent (cache : LRUCache κ ν) (cells : List ℕ) (keys : List κ) : Prop where
  forward : cache.links.Forward cache.head cells
  backward : cache.links.Backward cache.tail cells.reverse
  visited : cells.map (fun cell => (cache.items[cell]?).map LRUItem.key) = keys.map some
  nodup : keys.Nodup
  dict : ∀ key cell, cache.dict.get? key = some cell ↔
    cell ∈ cells ∧ (cache.items[cell]?).map LRUItem.key = some key
  head_previous : ∀ head, cache.head = some head →
    cache.links.previous (some head) = none
  tail_next : ∀ tail, cache.tail = some tail → cache.links.next (some tail) = none
  head_none : cache.head = none ↔ cache.len = 0
  tail_none : cache.tail = none ↔ cache.len = 0
  len_le : cache.len ≤ cache.capacity

omit [DecidableEq κ] in
theorem key_eq (self : LRUCache κ ν) (cell : ℕ) :
    (self.items[cell]?).map LRUItem.key = (self.contents cell).map Prod.fst := by
  rw [contents, Option.map_map]
  rfl

namespace Represents

theorem init (κ ν : Type) [DecidableEq κ] (capacity : ℕ) :
    Represents (LRUCache.init κ ν capacity) [] [] := by
  refine ⟨List.nodup_nil, Links.holds_nil_iff.mpr ⟨rfl, rfl⟩, rfl, fun key cell => ?_⟩
  simp [LRUCache.init]

theorem length_cells (hself : Represents self cells entries) :
    cells.length = entries.length := by
  simpa using congrArg List.length hself.contents

theorem consistent (hself : Represents self cells entries)
    (hlength : entries.length ≤ self.capacity) :
    Consistent self cells (entries.map Prod.fst) := by
  have hhead : self.head = cells.head? := hself.holds.next_none
  have htail : self.tail = cells.getLast? := hself.holds.previous_none
  have hempty : cells = [] ↔ self.len = 0 := by
    rw [hself.len_eq, ← hself.length_cells, List.length_eq_zero_iff]
  have hkeys : cells.map (fun cell => (self.items[cell]?).map LRUItem.key) =
      (entries.map Prod.fst).map some := by
    have hmap := congrArg (List.map (Option.map Prod.fst)) hself.contents
    rw [List.map_map, List.map_map] at hmap
    rw [List.map_map]
    refine Eq.trans (List.map_congr_left fun cell _ => self.key_eq cell) (hmap.trans ?_)
    exact List.map_congr_left fun entry _ => rfl
  have hdict : ∀ key cell, self.dict.get? key = some cell ↔
      cell ∈ cells ∧ (self.items[cell]?).map LRUItem.key = some key := by
    intro key cell
    rw [hself.dict, self.key_eq, Option.map_eq_some_iff]
    refine and_congr_right fun _ => ⟨?_, ?_⟩
    · rintro ⟨value, hvalue⟩
      exact ⟨_, hvalue, rfl⟩
    · rintro ⟨⟨key, value⟩, hvalue, rfl⟩
      exact ⟨value, hvalue⟩
  refine ⟨hself.holds.forward, hself.holds.backward, hkeys, ?_, hdict, ?_, ?_, ?_, ?_, ?_⟩
  · have hnodup : ((entries.map Prod.fst).map some).Nodup := by
      rw [← hkeys]
      refine List.Nodup.map_on ?_ hself.nodup
      intro cell hcell cell' hcell' heq
      obtain ⟨entry, -, hentry⟩ := hself.exists_contents hcell
      have hkey : (self.items[cell]?).map LRUItem.key = some entry.1 := by
        rw [self.key_eq, hentry]
        rfl
      have hget := (hdict entry.1 cell).mpr ⟨hcell, hkey⟩
      rw [(hdict entry.1 cell').mpr ⟨hcell', heq ▸ hkey⟩] at hget
      exact (Option.some.inj hget).symm
    exact hnodup.of_map
  · intro head heq
    cases cells with
    | nil => rw [hhead] at heq; cases heq
    | cons first rest =>
        rw [hhead] at heq
        obtain rfl := Option.some.inj heq
        exact (@Links.Holds.neighbours _ [] rest first hself.holds).2
  · intro tail heq
    rw [htail, List.getLast?_eq_some_iff] at heq
    obtain ⟨before, rfl⟩ := heq
    exact hself.holds.neighbours.1
  · rw [hhead, List.head?_eq_none_iff, hempty]
  · rw [htail, List.getLast?_eq_none_iff, hempty]
  · rw [hself.len_eq]
    exact hlength

end Represents

omit [DecidableEq κ] in
/-- Following next pointers yields the keys of the items that are visited. -/
theorem keysFrom_eq {start : Option ℕ} {cells : List ℕ} {entries : List (κ × ν)}
    (hforward : self.links.Forward start cells)
    (hcontents : cells.map self.contents = entries.map some) {fuel : ℕ}
    (hfuel : cells.length ≤ fuel) :
    self.keysFrom fuel start = entries.map Prod.fst := by
  induction hforward generalizing fuel entries with
  | done =>
      rw [List.map_nil, eq_comm, List.map_eq_nil_iff] at hcontents
      rw [hcontents]
      cases fuel <;> rfl
  | @step cell cells hrest ih =>
      rw [List.map_cons, eq_comm, List.map_eq_cons_iff] at hcontents
      obtain ⟨entry, others, rfl, hentry, hothers⟩ := hcontents
      obtain ⟨item, hitem, heq⟩ := Option.map_eq_some_iff.mp hentry.symm
      rw [List.length_cons] at hfuel
      obtain ⟨fuel, rfl⟩ : ∃ n, fuel = n + 1 := ⟨fuel - 1, by omega⟩
      have hnext : self.links.next (some cell) = item.next := by
        simp [links, hitem]
      rw [keysFrom, hitem, List.map_cons, ← heq]
      dsimp only
      rw [← hnext, ih hothers.symm (by omega)]

namespace Represents

/-- `__iter__` yields the keys of the entries. -/
theorem iter_eq (hself : Represents self cells entries) :
    self.iter = entries.map Prod.fst := by
  have hhead : self.links.Forward self.head cells := hself.holds.forward
  refine keysFrom_eq hhead hself.contents ?_
  have hsub : cells ⊆ List.range self.items.length := fun cell hcell =>
    List.mem_range.mpr (hself.valid hcell)
  simpa using hself.nodup.length_le_of_subset hsub

/-- `__contains__` says whether there is an entry. -/
theorem contains_eq (hself : Represents self cells entries) (key : κ) :
    self.contains key = (entries.lookup key).isSome := by
  rw [contains, hself.lookup_eq]
  cases hget : self.dict.get? key with
  | none => rfl
  | some cell =>
      obtain ⟨-, value, hcontents⟩ := (hself.dict key cell).mp hget
      rw [Option.bind_some, hcontents]
      rfl

/-- Using a key that has an entry keeps their number. -/
theorem length_touch (hself : Represents self cells entries) {key : κ} {value : ν}
    (hlookup : entries.lookup key = some value) :
    (Recency.touch key value entries).length = entries.length := by
  cases hget : self.dict.get? key with
  | none =>
      rw [hself.lookup_eq, hget] at hlookup
      cases hlookup
  | some cell =>
      obtain ⟨-, -, _, front, back, -, rfl, -, -, -, hothers⟩ := hself.split_of_get? hget
      rw [Recency.touch, without_eq hothers]
      simp only [List.length_cons, List.length_append]
      omega

/-- An operation of the cache is one on its entries. -/
theorem step (hself : Represents self cells entries)
    (hlength : entries.length ≤ self.capacity) (op : Operation κ ν) :
    ∃ cells', (self.step op).1 = (Recency.step self.capacity entries op).1 ∧
      (self.step op).2.capacity = self.capacity ∧
      Represents (self.step op).2 cells' (Recency.step self.capacity entries op).2 ∧
      (Recency.step self.capacity entries op).2.length ≤ self.capacity := by
  cases op with
  | set key value =>
      obtain ⟨self', cells', hrun, hcapacity, hself'⟩ := hself.setItem hlength key value
      rw [LRUCache.step, hrun, Recency.step]
      exact ⟨cells', rfl, hcapacity, hself', length_shrink_le key value hlength⟩
  | get key =>
      rw [LRUCache.step, Recency.step]
      rcases hself.getItem key with
        ⟨self', cells', value, hrun, hlookup, hcapacity, hself'⟩ | ⟨hrun, hlookup⟩
      · rw [hrun, hlookup]
        exact ⟨cells', rfl, hcapacity, hself', (hself.length_touch hlookup).trans_le hlength⟩
      · rw [hrun, hlookup]
        exact ⟨cells, rfl, rfl, hself, hlength⟩
  | contains key =>
      refine ⟨cells, ?_, rfl, hself, hlength⟩
      rw [LRUCache.step, Recency.step, hself.contains_eq]
  | len =>
      refine ⟨cells, ?_, rfl, hself, hlength⟩
      rw [LRUCache.step, Recency.step, hself.len_eq]
  | iter =>
      refine ⟨cells, ?_, rfl, hself, hlength⟩
      rw [LRUCache.step, Recency.step, hself.iter_eq]

/-- Some operations of the cache are the same ones on its entries. -/
theorem run (hself : Represents self cells entries)
    (hlength : entries.length ≤ self.capacity) (ops : List (Operation κ ν)) :
    ∃ cells', (self.run ops).1 = (Recency.run self.capacity entries ops).1 ∧
      (self.run ops).2.capacity = self.capacity ∧
      Represents (self.run ops).2 cells' (Recency.run self.capacity entries ops).2 ∧
      (Recency.run self.capacity entries ops).2.length ≤ self.capacity := by
  induction ops generalizing self cells entries with
  | nil => exact ⟨cells, rfl, rfl, hself, hlength⟩
  | cons op ops ih =>
      obtain ⟨cells₁, houtcome, hcapacity, hself₁, hlength₁⟩ := hself.step hlength op
      obtain ⟨cells₂, houtcomes, hcapacity₂, hself₂, hlength₂⟩ :=
        ih hself₁ (hlength₁.trans_eq hcapacity.symm)
      rw [hcapacity] at houtcomes hcapacity₂ hself₂ hlength₂
      refine ⟨cells₂, ?_, hcapacity₂, hself₂, hlength₂⟩
      exact congrArg₂ List.cons houtcome houtcomes

end Represents

/-- After any operations on a new cache, the caller has seen what an association list
ordered by recency shows, with the last entry given up whenever there are more than the
capacity.  The linked list visits its entries in both directions, each holds what was
stored last for its key, and looking up another key changes nothing. -/
theorem run_refines (capacity : ℕ) (ops : List (Operation κ ν)) :
    ∃ cells outcomes entries cache,
      (LRUCache.init κ ν capacity).run ops = (outcomes, cache) ∧
      Recency.run capacity [] ops = (outcomes, entries) ∧
      cache.capacity = capacity ∧ Consistent cache cells (entries.map Prod.fst) ∧
      cache.iter = entries.map Prod.fst ∧ entries.length ≤ capacity ∧
      (∀ entry ∈ entries, Recency.lastStored ops entry.1 = some entry.2) ∧
      ∀ key, cache.contains key = false →
        cache.step (.get key) = (.raised .keyError, cache) := by
  obtain ⟨cells, houtcomes, hcapacity, hcache, hlength⟩ :=
    (Represents.init κ ν capacity).run (Nat.zero_le _) ops
  refine ⟨cells, _, _, _, rfl, Prod.ext houtcomes.symm rfl, hcapacity,
    hcache.consistent (hlength.trans_eq hcapacity.symm), hcache.iter_eq, hlength,
    Recency.stored_run ops (by simp), ?_⟩
  intro key hcontains
  rw [hcache.contains_eq, Option.isSome_eq_false_iff, Option.isNone_iff_eq_none]
    at hcontains
  rcases hcache.getItem key with ⟨-, -, value, -, hlookup, -⟩ | ⟨hrun, -⟩
  · rw [hcontains] at hlookup
    cases hlookup
  · rw [LRUCache.step, hrun]

end LRUCache

end Boto
