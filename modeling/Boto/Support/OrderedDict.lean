import Mathlib.Data.List.Nodup

/-!
# Dictionaries in the order of insertion

A dictionary whose items stay in the order in which their keys were first set.  Setting
a key that is present changes its value in place.
-/

/-- A list of items with distinct keys, in their order. -/
@[ext] structure OrderedDict (κ ν : Type) where
  items : List (κ × ν)
  nodup : (items.map Prod.fst).Nodup

namespace OrderedDict

variable {κ ν μ : Type}

/-- A dictionary without items. -/
def empty : OrderedDict κ ν := ⟨[], List.nodup_nil⟩

/-- The keys, in their order. -/
def keys (d : OrderedDict κ ν) : List κ :=
  d.items.map Prod.fst

/-- The dictionary with other values. -/
def mapValues (f : ν → μ) (d : OrderedDict κ ν) : OrderedDict κ μ where
  items := d.items.map fun item => (item.1, f item.2)
  nodup := by
    rw [List.map_map]
    exact d.nodup

theorem items_mapValues (f : ν → μ) (d : OrderedDict κ ν) :
    (d.mapValues f).items = d.items.map fun item => (item.1, f item.2) := rfl

theorem keys_mapValues (f : ν → μ) (d : OrderedDict κ ν) : (d.mapValues f).keys = d.keys := by
  rw [keys, items_mapValues, List.map_map]
  rfl

/-- The items that have a property. -/
def filter (p : κ → ν → Bool) (d : OrderedDict κ ν) : OrderedDict κ ν where
  items := d.items.filter fun item => p item.1 item.2
  nodup := d.nodup.sublist (List.filter_sublist.map _)

variable [DecidableEq κ]

/-- The value at a key. -/
def get? (d : OrderedDict κ ν) (key : κ) : Option ν :=
  d.items.lookup key

/-- `key in d`. -/
def contains (d : OrderedDict κ ν) (key : κ) : Bool :=
  (d.get? key).isSome

/-- Items with the value of a key changed, or added at the end. -/
def setItems (key : κ) (value : ν) : List (κ × ν) → List (κ × ν)
  | [] => [(key, value)]
  | item :: items =>
      if item.1 = key then (key, value) :: items
      else item :: setItems key value items

theorem mem_keys_setItems {key other : κ} {value : ν} {items : List (κ × ν)} :
    other ∈ (setItems key value items).map Prod.fst ↔
      other = key ∨ other ∈ items.map Prod.fst := by
  induction items with
  | nil => simp [setItems]
  | cons item items ih =>
      rw [setItems]
      split
      · rename_i hkey
        simp [hkey]
      · rw [List.map_cons, List.mem_cons, ih, List.map_cons, List.mem_cons]
        exact or_left_comm

theorem nodup_setItems {key : κ} {value : ν} {items : List (κ × ν)}
    (hnodup : (items.map Prod.fst).Nodup) :
    ((setItems key value items).map Prod.fst).Nodup := by
  induction items with
  | nil => exact List.nodup_singleton _
  | cons item items ih =>
      obtain ⟨hitem, hrest⟩ := List.nodup_cons.mp hnodup
      rw [setItems]
      split
      · rename_i hkey
        exact List.nodup_cons.mpr ⟨hkey ▸ hitem, hrest⟩
      · rename_i hkey
        refine List.nodup_cons.mpr ⟨fun hmem => ?_, ih hrest⟩
        exact (mem_keys_setItems.mp hmem).elim hkey hitem

/-- `d[key] = value`. -/
def set (d : OrderedDict κ ν) (key : κ) (value : ν) : OrderedDict κ ν :=
  ⟨setItems key value d.items, nodup_setItems d.nodup⟩

/-- `del d[key]`, or nothing if the key is missing. -/
def erase (d : OrderedDict κ ν) (key : κ) : OrderedDict κ ν :=
  d.filter fun other _ => decide (other ≠ key)

/-- `d.update(other)`. -/
def update (d other : OrderedDict κ ν) : OrderedDict κ ν :=
  other.items.foldl (fun d item => d.set item.1 item.2) d

variable {d : OrderedDict κ ν} {key other : κ} {value : ν}

/-- Lookups find exactly the items. -/
theorem get?_eq_some_iff : d.get? key = some value ↔ (key, value) ∈ d.items := by
  obtain ⟨items, hnodup⟩ := d
  simp only [get?]
  induction items with
  | nil => simp
  | cons item items ih =>
      obtain ⟨first, old⟩ := item
      obtain ⟨hfirst, hrest⟩ := List.nodup_cons.mp hnodup
      by_cases hkey : key = first
      · subst hkey
        have hnot : (key, value) ∉ items := fun hmem =>
          hfirst (List.mem_map.mpr ⟨(key, value), hmem, rfl⟩)
        simp [hnot, eq_comm]
      · have hne : (key == first) = false := by simpa using hkey
        simp [List.lookup_cons, hne, ih hrest, hkey]

theorem get?_eq_none_iff : d.get? key = none ↔ key ∉ d.keys := by
  simp only [Option.eq_none_iff_forall_ne_some, ne_eq, get?_eq_some_iff, keys,
    List.mem_map, Prod.exists, exists_and_right, exists_eq_right, not_exists]

theorem contains_iff : d.contains key = true ↔ key ∈ d.keys := by
  rw [contains, Option.isSome_iff_ne_none, ne_eq, get?_eq_none_iff, not_not]

@[simp] theorem get?_empty : (empty : OrderedDict κ ν).get? key = none := rfl

theorem lookup_setItems (items : List (κ × ν)) :
    (setItems key value items).lookup other =
      if other = key then some value else items.lookup other := by
  induction items with
  | nil =>
      by_cases hother : other = key
      · simp [setItems, hother]
      · have hne : (other == key) = false := by simpa using hother
        simp [setItems, List.lookup_cons, hne, hother]
  | cons item items ih =>
      obtain ⟨first, old⟩ := item
      rw [setItems]
      split
      · rename_i hfirst
        obtain rfl : first = key := hfirst
        by_cases hother : other = first
        · simp [hother]
        · have hne : (other == first) = false := by simpa using hother
          simp [List.lookup_cons, hne, hother]
      · rename_i hfirst
        rw [List.lookup_cons, List.lookup_cons, ih]
        by_cases hother : other = first
        · subst hother
          simp [show ¬other = key from hfirst]
        · have hne : (other == first) = false := by simpa using hother
          simp [hne]

@[simp] theorem get?_set :
    (d.set key value).get? other = if other = key then some value else d.get? other :=
  lookup_setItems d.items

@[simp] theorem contains_set :
    (d.set key value).contains other = (decide (other = key) || d.contains other) := by
  rw [contains, get?_set]
  split <;> simp_all [contains]

theorem setItems_eq_self {items : List (κ × ν)} (hget : items.lookup key = some value) :
    setItems key value items = items := by
  induction items with
  | nil => cases hget
  | cons item items ih =>
      obtain ⟨first, old⟩ := item
      rw [setItems]
      split
      · rename_i hfirst
        obtain rfl : first = key := hfirst
        rw [List.lookup_cons_self] at hget
        rw [Option.some.inj hget]
      · rename_i hfirst
        have hne : (key == first) = false := by simpa using fun heq => hfirst (Eq.symm heq)
        rw [List.lookup_cons, hne] at hget
        rw [ih hget]

/-- Setting a key to the value that it has changes nothing. -/
theorem set_eq_self (hget : d.get? key = some value) : d.set key value = d :=
  OrderedDict.ext (setItems_eq_self hget)

/-- The value that is set last counts. -/
theorem set_set (old : ν) : (d.set key old).set key value = d.set key value := by
  apply OrderedDict.ext
  obtain ⟨items, hnodup⟩ := d
  change setItems key value (setItems key old items) = setItems key value items
  clear hnodup
  induction items with
  | nil => simp [setItems]
  | cons item items ih =>
      rw [setItems]
      split
      · simp [setItems, *]
      · simp [setItems, *]

theorem erase_eq_self (hcontains : d.contains key = false) : d.erase key = d := by
  apply OrderedDict.ext
  rw [erase, filter, List.filter_eq_self]
  intro item hitem
  rw [decide_eq_true_eq]
  rintro rfl
  have hin := contains_iff.mpr (List.mem_map_of_mem hitem)
  rw [hcontains] at hin
  cases hin

@[simp] theorem get?_erase :
    (d.erase key).get? other = if other = key then none else d.get? other := by
  split
  · rename_i hother
    subst hother
    rw [get?_eq_none_iff, keys]
    intro hin
    obtain ⟨item, hitem, rfl⟩ := List.mem_map.mp hin
    exact of_decide_eq_true (List.mem_filter.mp hitem).2 rfl
  · rename_i hother
    apply Option.ext
    intro value
    rw [get?_eq_some_iff, get?_eq_some_iff, erase, filter, List.mem_filter]
    exact and_iff_left (decide_eq_true hother)

/-- Only the item of the key is deleted. -/
theorem items_erase {before after : List (κ × ν)}
    (hitems : d.items = before ++ (key, value) :: after) :
    (d.erase key).items = before ++ after := by
  have hnodup := d.nodup
  rw [hitems, List.map_append, List.map_cons] at hnodup
  obtain ⟨-, hafter, hbefore⟩ := List.nodup_append.mp hnodup
  have hkeep : ∀ items : List (κ × ν), (∀ item ∈ items, item.1 ≠ key) →
      items.filter (fun item => decide (item.1 ≠ key)) = items := fun items hne =>
    List.filter_eq_self.mpr fun item hitem => decide_eq_true (hne item hitem)
  change d.items.filter (fun item => decide (item.1 ≠ key)) = before ++ after
  rw [hitems, List.filter_append, List.filter_cons_of_neg (by simp), hkeep before, hkeep after]
  · rintro item hitem rfl
    have hmem : item.1 ∈ after.map Prod.fst := List.mem_map_of_mem hitem
    exact (List.nodup_cons.mp hafter).1 hmem
  · rintro item hitem rfl
    have hmem : item.1 ∈ before.map Prod.fst := List.mem_map_of_mem hitem
    exact hbefore _ hmem _ List.mem_cons_self rfl

@[simp] theorem get?_mapValues (f : ν → μ) : (d.mapValues f).get? key = (d.get? key).map f := by
  obtain ⟨items, hnodup⟩ := d
  change (items.map fun item => (item.1, f item.2)).lookup key = (items.lookup key).map f
  clear hnodup
  induction items with
  | nil => rfl
  | cons item items ih =>
      rw [List.map_cons, List.lookup_cons, List.lookup_cons, ih]
      cases key == item.1 <;> rfl

theorem get?_filter (p : κ → ν → Bool) : (d.filter p).get? key = (d.get? key).filter (p key) := by
  ext value
  rw [Option.filter_eq_some_iff, get?_eq_some_iff, get?_eq_some_iff]
  exact List.mem_filter

/-- A loop over the items that skips a key does not see that it is set. -/
theorem foldlM_set_of_skip {m : Type → Type} [Monad m] {β : Type} {f : β → κ × ν → m β}
    (hskip : ∀ acc value, f acc (key, value) = pure acc) [LawfulMonad m] (acc : β) :
    (d.set key value).items.foldlM f acc = d.items.foldlM f acc := by
  obtain ⟨items, hnodup⟩ := d
  change (setItems key value items).foldlM f acc = items.foldlM f acc
  clear hnodup
  induction items generalizing acc with
  | nil => simp [setItems, hskip]
  | cons item items ih =>
      rw [setItems]
      split
      · rename_i hfirst
        obtain ⟨first, old⟩ := item
        obtain rfl : first = key := hfirst
        simp [hskip]
      · rw [List.foldlM_cons, List.foldlM_cons]
        exact congrArg _ (funext ih)

theorem foldl_set_of_skip {β : Type} {f : β → κ × ν → β}
    (hskip : ∀ acc value, f acc (key, value) = acc) (acc : β) :
    (d.set key value).items.foldl f acc = d.items.foldl f acc := by
  rw [List.foldl_eq_foldlM, List.foldl_eq_foldlM]
  exact congrArg Id.run (foldlM_set_of_skip hskip acc)

/-! ## Updates -/

theorem mem_setItems {items : List (κ × ν)} {item : κ × ν}
    (hitem : item ∈ setItems key value items) : item = (key, value) ∨ item ∈ items := by
  induction items with
  | nil => exact .inl (List.mem_singleton.mp hitem)
  | cons first items ih =>
      rw [setItems] at hitem
      split at hitem
      · rcases List.mem_cons.mp hitem with heq | hitem
        · exact .inl heq
        · exact .inr (List.mem_cons_of_mem _ hitem)
      · rcases List.mem_cons.mp hitem with rfl | hitem
        · exact .inr List.mem_cons_self
        · exact (ih hitem).imp_right (List.mem_cons_of_mem _)

/-- A new key is set at the end. -/
theorem items_set_of_notMem (hkey : key ∉ d.keys) :
    (d.set key value).items = d.items ++ [(key, value)] := by
  have happend : ∀ items : List (κ × ν), key ∉ items.map Prod.fst →
      setItems key value items = items ++ [(key, value)] := by
    intro items hnot
    induction items with
    | nil => rfl
    | cons item items ih =>
        rw [List.map_cons, List.mem_cons, not_or] at hnot
        rw [setItems, if_neg (Ne.symm hnot.1), ih hnot.2, List.cons_append]
  exact happend d.items hkey

theorem mem_keys_update {d other : OrderedDict κ ν} {key : κ} (hkey : key ∈ d.keys) :
    key ∈ (d.update other).keys := by
  have hfold : ∀ (items : List (κ × ν)) (d : OrderedDict κ ν), key ∈ d.keys →
      key ∈ (items.foldl (fun d item => d.set item.1 item.2) d).keys := by
    intro items
    induction items with
    | nil => exact fun _ hkey => hkey
    | cons item items ih =>
        intro d hkey
        exact ih _ (mem_keys_setItems.mpr (.inr hkey))
  exact hfold other.items d hkey

theorem mem_items_update {d other : OrderedDict κ ν} {item : κ × ν}
    (hitem : item ∈ (d.update other).items) : item ∈ d.items ∨ item ∈ other.items := by
  have hfold : ∀ (items : List (κ × ν)) (d : OrderedDict κ ν),
      item ∈ (items.foldl (fun d item => d.set item.1 item.2) d).items →
        item ∈ d.items ∨ item ∈ items := by
    intro items
    induction items with
    | nil => exact fun _ hitem => .inl hitem
    | cons first items ih =>
        intro d hitem
        rcases ih _ hitem with hset | hlater
        · rcases mem_setItems hset with rfl | hold
          · exact .inr List.mem_cons_self
          · exact .inl hold
        · exact .inr (List.mem_cons_of_mem _ hlater)
  exact hfold other.items d hitem

/-- Items with new keys are added in their order. -/
theorem items_foldl_set {items : List (κ × ν)} {d : OrderedDict κ ν}
    (hnodup : (d.keys ++ items.map Prod.fst).Nodup) :
    (items.foldl (fun d item => d.set item.1 item.2) d).items = d.items ++ items := by
  induction items generalizing d with
  | nil => exact (List.append_nil _).symm
  | cons item items ih =>
      have hkey : item.1 ∉ d.keys := fun hin =>
        (List.nodup_append.mp hnodup).2.2 _ hin _ List.mem_cons_self rfl
      have hset := @items_set_of_notMem _ _ _ d item.1 item.2 hkey
      have hkeys : (d.set item.1 item.2).keys = d.keys ++ [item.1] := by
        rw [keys, hset, List.map_append]
        rfl
      rw [List.foldl_cons, ih, hset, List.append_assoc, List.singleton_append]
      rw [hkeys, List.append_assoc]
      exact hnodup

theorem empty_update (other : OrderedDict κ ν) : empty.update other = other :=
  OrderedDict.ext (items_foldl_set other.nodup)

section

variable {β : Type} {name : β → κ} {content : β → ν} {entries : List β}

/-- What is found after some entries were set is one of them, or was there and is still. -/
theorem mem_of_get?_foldl_set (hget : (entries.foldl (fun d entry =>
      d.set (name entry) (content entry)) d).get? key = some value) :
    (∃ entry ∈ entries, name entry = key ∧ content entry = value) ∨
      (∀ entry ∈ entries, name entry ≠ key) ∧ d.get? key = some value := by
  induction entries generalizing d with
  | nil => exact .inr ⟨nofun, hget⟩
  | cons first entries ih =>
      rcases ih hget with ⟨entry, hentry, hfound⟩ | ⟨hnone, hfirst⟩
      · exact .inl ⟨entry, List.mem_cons_of_mem _ hentry, hfound⟩
      · rw [get?_set] at hfirst
        split at hfirst
        · next hname =>
            exact .inl ⟨first, List.mem_cons_self, hname.symm, Option.some.inj hfirst⟩
        · next hname =>
            exact .inr ⟨List.forall_mem_cons.mpr ⟨Ne.symm hname, hnone⟩, hfirst⟩

theorem get?_foldl_set_ne_none
    (hkey : (∃ entry ∈ entries, name entry = key) ∨ d.get? key ≠ none) :
    (entries.foldl (fun d entry => d.set (name entry) (content entry)) d).get? key ≠ none := by
  induction entries generalizing d with
  | nil => exact hkey.resolve_left nofun
  | cons first entries ih =>
      apply ih
      rw [get?_set]
      by_cases hfirst : key = name first
      · rw [if_pos hfirst]
        exact .inr (Option.some_ne_none _)
      · rw [if_neg hfirst]
        rcases hkey with ⟨entry, hentry, hname⟩ | hget
        · rcases List.mem_cons.mp hentry with rfl | hentry
          · exact absurd hname.symm hfirst
          · exact .inl ⟨entry, hentry, hname⟩
        · exact .inr hget

theorem get?_foldl_erase (keys : List κ) :
    (keys.foldl OrderedDict.erase d).get? key = if key ∈ keys then none else d.get? key := by
  induction keys generalizing d with
  | nil => rfl
  | cons first keys ih =>
      rw [List.foldl_cons, ih, get?_erase]
      by_cases hfirst : key = first
      · rw [if_pos hfirst, ite_self, if_pos (hfirst ▸ List.mem_cons_self)]
      · rw [if_neg hfirst]
        simp only [List.mem_cons, hfirst, false_or]

end

end OrderedDict
