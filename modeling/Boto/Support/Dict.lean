import Mathlib.Data.List.Nodup

/-!
# Dictionaries

A dictionary is a list of items with distinct keys.  It is seen through `get?`: each
operation comes with what it does to every lookup, and the order of the items is
never used.
-/

/-- A list of items with distinct keys. -/
structure Dict (κ ν : Type) where
  items : List (κ × ν)
  nodup : (items.map Prod.fst).Nodup

namespace Dict

variable {κ ν μ ε : Type}

/-- A dictionary without items. -/
def empty : Dict κ ν := ⟨[], List.nodup_nil⟩

/-- The values that a function gives for the items, where it gives one. -/
def filterMap (f : κ → ν → Option μ) (d : Dict κ ν) : Dict κ μ where
  items := d.items.filterMap fun item => (f item.1 item.2).map (item.1, ·)
  nodup := by
    have hsub : ((d.items.filterMap fun item =>
        (f item.1 item.2).map (item.1, ·)).map Prod.fst).Sublist
          (d.items.map Prod.fst) := by
      induction d.items with
      | nil => exact List.Sublist.slnil
      | cons item items ih =>
          cases hf : f item.1 item.2 with
          | none => simpa [hf] using ih.cons item.1
          | some value => simpa [hf] using ih.cons_cons item.1
    exact d.nodup.sublist hsub

/-- The first error that a function raises for an item. -/
def firstError (f : κ → ν → Except ε (Option μ)) (d : Dict κ ν) : Option ε :=
  d.items.findSome? fun item =>
    match f item.1 item.2 with
    | .error e => some e
    | .ok _ => none

/-- `filterMap` with a function that may raise. -/
def filterMapM (f : κ → ν → Except ε (Option μ)) (d : Dict κ ν) :
    Except ε (Dict κ μ) :=
  match d.firstError f with
  | some e => .error e
  | none => .ok (d.filterMap fun key value =>
      match f key value with
      | .error _ => none
      | .ok result => result)

/-- A function that raises for no item gives each result. -/
theorem filterMapM_eq_ok {f : κ → ν → Except ε (Option μ)} {d : Dict κ ν}
    (hok : ∀ item ∈ d.items, ∃ result, f item.1 item.2 = .ok result) :
    ∃ e, d.filterMapM f = .ok e := by
  have hnone : d.firstError f = none := by
    rw [firstError, List.findSome?_eq_none_iff]
    intro item hmem
    obtain ⟨result, hresult⟩ := hok item hmem
    rw [hresult]
  rw [filterMapM, hnone]
  exact ⟨_, rfl⟩

section

variable [DecidableEq κ]

/-- The value at a key. -/
def get? (d : Dict κ ν) (key : κ) : Option ν :=
  d.items.lookup key

/-- Lookups find exactly the items. -/
theorem get?_eq_some_iff {d : Dict κ ν} {key : κ} {value : ν} :
    d.get? key = some value ↔ (key, value) ∈ d.items := by
  obtain ⟨items, hnodup⟩ := d
  simp only [get?]
  induction items with
  | nil => simp
  | cons item items ih =>
      obtain ⟨first, old⟩ := item
      obtain ⟨hfirst, hrest⟩ := List.nodup_cons.mp hnodup
      have ih := ih hrest
      by_cases hkey : key = first
      · subst hkey
        have hnot : (key, value) ∉ items := fun hmem =>
          hfirst (List.mem_map.mpr ⟨(key, value), hmem, rfl⟩)
        simp [List.lookup_cons, hnot, eq_comm]
      · have hne : (key == first) = false := by simpa using hkey
        simp [List.lookup_cons, hne, ih, hkey]

theorem mem_items_of_get? {d : Dict κ ν} {key : κ} {value : ν}
    (hget : d.get? key = some value) : (key, value) ∈ d.items :=
  get?_eq_some_iff.mp hget

theorem get?_eq_none_iff {d : Dict κ ν} {key : κ} :
    d.get? key = none ↔ ∀ value, (key, value) ∉ d.items := by
  simp only [← get?_eq_some_iff, Option.eq_none_iff_forall_ne_some, ne_eq]

@[simp] theorem get?_empty (key : κ) : (empty : Dict κ ν).get? key = none := rfl

@[simp] theorem get?_filterMap (f : κ → ν → Option μ) (d : Dict κ ν) (key : κ) :
    (d.filterMap f).get? key = (d.get? key).bind (f key) := by
  apply Option.ext
  intro value
  simp only [Option.mem_def, get?_eq_some_iff, filterMap, List.mem_filterMap,
    Option.map_eq_some_iff, Option.bind_eq_some_iff, Prod.mk.injEq]
  constructor
  · rintro ⟨⟨key, old⟩, hmem, result, hresult, rfl, rfl⟩
    exact ⟨old, hmem, hresult⟩
  · rintro ⟨old, hmem, hresult⟩
    exact ⟨(key, old), hmem, value, hresult, rfl, rfl⟩

/-- The dictionary is empty if each lookup is. -/
theorem items_eq_nil_iff {d : Dict κ ν} :
    d.items = [] ↔ ∀ key, d.get? key = none := by
  rw [List.eq_nil_iff_forall_not_mem]
  constructor
  · intro hnone key
    exact get?_eq_none_iff.mpr fun value => hnone (key, value)
  · rintro hnone ⟨key, value⟩ hmem
    exact get?_eq_none_iff.mp (hnone key) value hmem

/-- The dictionary with some keys set and some removed. -/
def overlay (d : Dict κ ν) (changes : Dict κ (Option ν)) : Dict κ ν where
  items := (changes.filterMap fun _ change => change).items ++
    (d.filterMap fun key value =>
      if (changes.get? key).isSome then none else some value).items
  nodup := by
    rw [List.map_append, List.nodup_append]
    refine ⟨Dict.nodup _, Dict.nodup _, ?_⟩
    rintro key hset _ hkept rfl
    obtain ⟨⟨key', value⟩, hmem, rfl⟩ := List.mem_map.mp hset
    obtain ⟨⟨_, value'⟩, hmem', rfl⟩ := List.mem_map.mp hkept
    have hchange := get?_eq_some_iff.mpr hmem
    have hold := get?_eq_some_iff.mpr hmem'
    rw [get?_filterMap, Option.bind_eq_some_iff] at hchange hold
    obtain ⟨change, hchange, -⟩ := hchange
    obtain ⟨old, -, hold⟩ := hold
    simp [hchange] at hold

@[simp] theorem get?_overlay (d : Dict κ ν) (changes : Dict κ (Option ν)) (key : κ) :
    (d.overlay changes).get? key = (changes.get? key).getD (d.get? key) := by
  apply Option.ext
  intro value
  simp only [Option.mem_def, get?_eq_some_iff, overlay, List.mem_append]
  simp only [← get?_eq_some_iff, get?_filterMap, Option.bind_eq_some_iff]
  cases hchange : changes.get? key with
  | none => simp
  | some change => simp

/-- A dictionary with one item. -/
def single (key : κ) (value : ν) : Dict κ ν :=
  ⟨[(key, value)], List.nodup_singleton _⟩

@[simp] theorem get?_single (key key' : κ) (value : ν) :
    (single key value).get? key' = if key' = key then some value else none := by
  by_cases hkey : key' = key
  · simp [single, get?, List.lookup_cons, hkey]
  · have hne : (key' == key) = false := by simpa using hkey
    simp [single, get?, List.lookup_cons, hne, hkey]

/-- `d[key] = value`. -/
def set (d : Dict κ ν) (key : κ) (value : ν) : Dict κ ν :=
  d.overlay (single key (some value))

@[simp] theorem get?_set (d : Dict κ ν) (key key' : κ) (value : ν) :
    (d.set key value).get? key' = if key' = key then some value else d.get? key' := by
  by_cases hkey : key' = key <;> simp [set, hkey]

/-- `del d[key]`, or nothing if the key is missing. -/
def erase (d : Dict κ ν) (key : κ) : Dict κ ν :=
  d.overlay (single key none)

@[simp] theorem get?_erase (d : Dict κ ν) (key key' : κ) :
    (d.erase key).get? key' = if key' = key then none else d.get? key' := by
  by_cases hkey : key' = key <;> simp [erase, hkey]

/-- The items of a dictionary, and those of another one with other keys. -/
def union (d e : Dict κ ν) : Dict κ ν :=
  e.overlay (d.filterMap fun _ value => some (some value))

@[simp] theorem get?_union (d e : Dict κ ν) (key : κ) :
    (d.union e).get? key = (d.get? key).or (e.get? key) := by
  cases hget : d.get? key <;> simp [union, hget]

theorem foldl_set_get?_of_not_mem {items : List (κ × ν)} {key : κ} (hnot : key ∉ items.map Prod.fst)
    (d : Dict κ ν) :
    (items.foldl (fun d item => d.set item.1 item.2) d).get? key = d.get? key := by
  induction items generalizing d with
  | nil => rfl
  | cons item items ih =>
      rw [List.map_cons, List.mem_cons, not_or] at hnot
      rw [List.foldl_cons, ih hnot.2, Dict.get?_set, if_neg hnot.1]

/-- When all items with a key have one value, this is what is set. -/
theorem foldl_set_get?_of_mem {items : List (κ × ν)}
    {key : κ} {value : ν} (hmem : key ∈ items.map Prod.fst)
    (hvalue : ∀ item ∈ items, item.1 = key → item.2 = value) (d : Dict κ ν) :
    (items.foldl (fun d item => d.set item.1 item.2) d).get? key = some value := by
  induction items generalizing d with
  | nil => simp at hmem
  | cons item items ih =>
      rw [List.foldl_cons]
      by_cases hlater : key ∈ items.map Prod.fst
      · exact ih hlater (fun item hitem => hvalue item (List.mem_cons_of_mem _ hitem)) _
      · have hkey : item.1 = key := by
          rcases List.mem_cons.mp hmem with hkey | hlater'
          · exact hkey.symm
          · exact absurd hlater' hlater
        rw [foldl_set_get?_of_not_mem hlater, Dict.get?_set, if_pos hkey.symm,
          hvalue item List.mem_cons_self hkey]

/-- Two dictionaries with the same values. -/
def Same (d e : Dict κ ν) : Prop :=
  ∀ key, d.get? key = e.get? key

/-- What `filterMapM` gives, key by key. -/
theorem filterMapM_ok_iff {f : κ → ν → Except ε (Option μ)} {d : Dict κ ν}
    {e : Dict κ μ} (hok : d.filterMapM f = .ok e) (key : κ) :
    (∀ value, d.get? key = some value → f key value = .ok (e.get? key)) ∧
      (d.get? key = none → e.get? key = none) := by
  rw [filterMapM] at hok
  split at hok
  · cases hok
  · rename_i hnone
    rw [firstError, List.findSome?_eq_none_iff] at hnone
    cases hok
    constructor
    · intro value hget
      have hitem := hnone _ (mem_items_of_get? hget)
      cases hf : f key value with
      | error error => simp [hf] at hitem
      | ok result => simp [hget, hf]
    · intro hget
      simp [hget]

end

end Dict
