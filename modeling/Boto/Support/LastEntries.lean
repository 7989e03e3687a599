import Boto.Support.OrderedDict
import Mathlib.Data.List.Forall2
import Mathlib.Tactic.Common

/-!
# Dictionaries filled from entries

Entries are set one after another, so that the last one for a key replaces those before it.
Nothing is lost exactly if what is replaced has no parts.
-/

namespace OrderedDict

variable {κ ν α : Type} [DecidableEq κ]

/-- The dictionary that some entries are set in. -/
def ofEntries (entries : List (κ × ν)) : OrderedDict κ ν :=
  entries.foldl (fun d entry => d.set entry.1 entry.2) empty

/-- The last entry for a key. -/
def lastEntry (key : κ) : List (κ × ν) → Option ν
  | [] => none
  | entry :: entries =>
      (lastEntry key entries).or (if entry.1 = key then some entry.2 else none)

/-- The parts of all entries for a key. -/
def collected (parts : ν → List α) (key : κ) : List (κ × ν) → List α
  | [] => []
  | entry :: entries =>
      if entry.1 = key then parts entry.2 ++ collected parts key entries
      else collected parts key entries

/-- No entry with parts has another one for its key after it. -/
def NothingReplaced (parts : ν → List α) (entries : List (κ × ν)) : Prop :=
  entries.Pairwise fun entry later => entry.1 = later.1 → parts entry.2 = []

variable {entries : List (κ × ν)} {parts : ν → List α} {key : κ}

theorem get?_foldl_set (entries : List (κ × ν)) (d : OrderedDict κ ν) :
    (entries.foldl (fun d entry => d.set entry.1 entry.2) d).get? key =
      (lastEntry key entries).or (d.get? key) := by
  induction entries generalizing d with
  | nil => rfl
  | cons entry entries ih =>
      rw [List.foldl_cons, ih, get?_set, lastEntry]
      cases lastEntry key entries with
      | some value => rfl
      | none =>
          by_cases hkey : entry.1 = key
          · simp [hkey]
          · simp [hkey, Ne.symm hkey]

/-- The last entry for a key is the one that is found. -/
@[simp] theorem get?_ofEntries : (ofEntries entries).get? key = lastEntry key entries := by
  rw [ofEntries, get?_foldl_set, get?_empty, Option.or_none]

theorem mem_of_lastEntry {value : ν} (hlast : lastEntry key entries = some value) :
    (key, value) ∈ entries := by
  induction entries with
  | nil => cases hlast
  | cons entry entries ih =>
      rw [lastEntry, Option.or_eq_some_iff] at hlast
      rcases hlast with hlater | ⟨-, hhere⟩
      · exact List.mem_cons_of_mem entry (ih hlater)
      · split at hhere
        · rename_i hkey
          rw [← hkey, ← Option.some.inj hhere]
          exact List.mem_cons_self
        · cases hhere

/-- Entries are set whose keys have a property. -/
theorem get?_foldl_set_if {β : Type} {p : κ → Prop} [DecidablePred p] (entry : β → κ × ν)
    (xs : List β) (d : OrderedDict κ ν) :
    (xs.foldl (fun d x => if p (entry x).1 then d.set (entry x).1 (entry x).2 else d) d).get? key =
      if p key then (lastEntry key (xs.map entry)).or (d.get? key) else d.get? key := by
  induction xs generalizing d with
  | nil => simp [lastEntry]
  | cons x xs ih =>
      rw [List.foldl_cons, ih, List.map_cons, lastEntry]
      by_cases hkey : (entry x).1 = key
      · subst hkey
        by_cases hp : p (entry x).1
        · rw [if_pos hp, if_pos hp, if_pos hp, if_pos rfl, get?_set, if_pos rfl]
          cases lastEntry (entry x).1 (xs.map entry) <;> rfl
        · rw [if_neg hp, if_neg hp, if_neg hp]
      · have hget : (if p (entry x).1 then d.set (entry x).1 (entry x).2 else d).get? key =
            d.get? key := by
          split
          · rw [get?_set, if_neg (Ne.symm hkey)]
          · rfl
        rw [hget, if_neg hkey, Option.or_none]

/-- Only the entries for a key decide its last one. -/
theorem lastEntry_filter (p : κ → Bool) :
    lastEntry key (entries.filter fun entry => p entry.1) =
      if p key = true then lastEntry key entries else none := by
  induction entries with
  | nil => simp [lastEntry]
  | cons entry entries ih =>
      rw [List.filter_cons, lastEntry]
      by_cases hkey : entry.1 = key
      · subst hkey
        cases hp : p entry.1 with
        | true =>
            rw [if_pos rfl, lastEntry, ih, hp]
            rfl
        | false =>
            rw [if_neg Bool.false_ne_true, ih, hp]
            rfl
      · rw [if_neg hkey, Option.or_none]
        split
        · rw [lastEntry, ih, if_neg hkey, Option.or_none]
        · exact ih

theorem lastEntry_eq_none_iff : lastEntry key entries = none ↔ key ∉ entries.map Prod.fst := by
  induction entries with
  | nil => simp [lastEntry]
  | cons entry entries ih =>
      rw [lastEntry, Option.or_eq_none_iff, ih, List.map_cons, List.mem_cons, not_or,
        and_comm]
      simp [eq_comm]

theorem mem_items_set {d : OrderedDict κ ν} {value : ν} {item : κ × ν} :
    item ∈ (d.set key value).items ↔ item = (key, value) ∨ item.1 ≠ key ∧ item ∈ d.items := by
  obtain ⟨name, content⟩ := item
  rw [← get?_eq_some_iff, get?_set, Prod.mk.injEq, ← get?_eq_some_iff]
  by_cases hname : name = key
  · simp [hname, eq_comm]
  · simp [hname]

/-- Entries with different keys are all kept, and replace what was there for their keys. -/
theorem mem_items_foldl_set {d : OrderedDict κ ν} {item : κ × ν}
    (hnodup : (entries.map Prod.fst).Nodup) :
    item ∈ (entries.foldl (fun d entry => d.set entry.1 entry.2) d).items ↔
      item ∈ entries ∨ item.1 ∉ entries.map Prod.fst ∧ item ∈ d.items := by
  induction entries generalizing d with
  | nil => simp
  | cons entry entries ih =>
      obtain ⟨hentry, hnodup⟩ := List.nodup_cons.mp hnodup
      rw [List.foldl_cons, ih hnodup, mem_items_set, List.map_cons, List.mem_cons,
        List.mem_cons, not_or]
      constructor
      · rintro (hlater | ⟨hnot, rfl | ⟨hne, hold⟩⟩)
        · exact .inl (.inr hlater)
        · exact .inl (.inl rfl)
        · exact .inr ⟨⟨hne, hnot⟩, hold⟩
      · rintro ((rfl | hlater) | ⟨⟨hne, hnot⟩, hold⟩)
        · exact .inr ⟨hentry, .inl rfl⟩
        · exact .inl hlater
        · exact .inr ⟨hnot, .inr ⟨hne, hold⟩⟩

/-- Entries are set unless their keys are skipped. -/
theorem mem_keys_foldl_set {skip : κ → Prop} [DecidablePred skip] {d : OrderedDict κ ν} :
    key ∈ (entries.foldl (fun d entry =>
      if skip entry.1 then d else d.set entry.1 entry.2) d).keys ↔
      key ∈ d.keys ∨ key ∈ entries.map Prod.fst ∧ ¬skip key := by
  induction entries generalizing d with
  | nil => simp
  | cons entry entries ih =>
      rw [List.foldl_cons, ih, List.map_cons, List.mem_cons]
      split
      · rename_i hskip
        constructor
        · rintro (hold | ⟨hlater, hkey⟩)
          · exact .inl hold
          · exact .inr ⟨.inr hlater, hkey⟩
        · rintro (hold | ⟨rfl | hlater, hkey⟩)
          · exact .inl hold
          · exact absurd hskip hkey
          · exact .inr ⟨hlater, hkey⟩
      · rename_i hset
        have hkeys : key ∈ (d.set entry.1 entry.2).keys ↔ key = entry.1 ∨ key ∈ d.keys :=
          mem_keys_setItems
        rw [hkeys]
        constructor
        · rintro ((rfl | hold) | ⟨hlater, hkey⟩)
          · exact .inr ⟨.inl rfl, hset⟩
          · exact .inl hold
          · exact .inr ⟨.inr hlater, hkey⟩
        · rintro (hold | ⟨rfl | hlater, hkey⟩)
          · exact .inl (.inr hold)
          · exact .inl (.inl rfl)
          · exact .inr ⟨hlater, hkey⟩

/-- Setting a key that is there keeps the number of items. -/
theorem length_items_set {d : OrderedDict κ ν} (hkey : key ∈ d.keys) (value : ν) :
    (d.set key value).items.length = d.items.length := by
  have hlength : ∀ items : List (κ × ν), key ∈ items.map Prod.fst →
      (setItems key value items).length = items.length := by
    intro items hmem
    induction items with
    | nil => cases hmem
    | cons item items ih =>
        rw [setItems]
        split
        · rfl
        · rename_i hne
          have hrest := (List.mem_cons.mp hmem).resolve_left (Ne.symm hne)
          rw [List.length_cons, List.length_cons, ih hrest]
  exact hlength d.items hkey

/-- The entries of a dictionary are found in what is made of them one by one. -/
theorem map_get?_of_forall₂ {μ ρ : Type} {d : OrderedDict κ ν} {entries : List (κ × μ)}
    {f : ν → ρ} {g : μ → ρ}
    (hrel : List.Forall₂ (fun item entry => entry.1 = item.1 ∧ f item.2 = g entry.2) d.items
      entries) (key : κ) : (d.get? key).map f = (lastEntry key entries).map g := by
  obtain ⟨items, hnodup⟩ := d
  rw [get?]
  dsimp only at hrel ⊢
  induction hrel with
  | nil => rfl
  | @cons item entry items entries hentry _ ih =>
      obtain ⟨hfirst, hnodup⟩ := List.nodup_cons.mp hnodup
      have ih := ih hnodup
      rw [lastEntry, List.lookup_cons, hentry.1]
      by_cases hname : key = item.1
      · subst hname
        have hlookup : items.lookup item.1 = none :=
          (@get?_eq_none_iff _ _ _ ⟨items, hnodup⟩ item.1).mpr hfirst
        rw [hlookup] at ih
        rw [beq_self_eq_true, Option.map_eq_none_iff.mp ih.symm, if_pos rfl]
        exact congrArg some hentry.2
      · rw [beq_eq_false_iff_ne.mpr hname, if_neg (Ne.symm hname), Option.or_none]
        exact ih

theorem collected_of_notMem (hkey : key ∉ entries.map Prod.fst) :
    collected parts key entries = [] := by
  induction entries with
  | nil => rfl
  | cons entry entries ih =>
      rw [List.map_cons, List.mem_cons, not_or] at hkey
      rw [collected, if_neg (Ne.symm hkey.1), ih hkey.2]

theorem length_lastEntry_le {value : ν} (hlast : lastEntry key entries = some value) :
    (parts value).length ≤ (collected parts key entries).length := by
  induction entries with
  | nil => cases hlast
  | cons entry entries ih =>
      rw [collected]
      rw [lastEntry, Option.or_eq_some_iff] at hlast
      rcases hlast with hlater | ⟨-, hhere⟩
      · have hle := ih hlater
        split
        · rw [List.length_append]
          omega
        · exact hle
      · split at hhere
        · cases hhere
          rename_i hkey
          rw [if_pos hkey, List.length_append]
          omega
        · cases hhere

/-- One more entry in front is kept exactly if it has no parts or none for its key
follows. -/
theorem kept_cons_iff {entry : κ × ν} :
    (∀ key, (((lastEntry key (entry :: entries)).map parts).getD []).Perm
        (collected parts key (entry :: entries))) ↔
      (entry.1 ∈ entries.map Prod.fst → parts entry.2 = []) ∧
        ∀ key, (((lastEntry key entries).map parts).getD []).Perm
          (collected parts key entries) := by
  constructor
  · intro hkept
    have hother : ∀ key, entry.1 ≠ key → (((lastEntry key entries).map parts).getD []).Perm
        (collected parts key entries) := by
      intro key hne
      have hkey := hkept key
      rwa [lastEntry, collected, if_neg hne, if_neg hne, Option.or_none] at hkey
    have hhere := hkept entry.1
    rw [lastEntry, collected, if_pos rfl, if_pos rfl] at hhere
    cases hlast : lastEntry entry.1 entries with
    | none =>
        have hnot := lastEntry_eq_none_iff.mp hlast
        refine ⟨fun hin => absurd hin hnot, fun key => ?_⟩
        by_cases hkey : entry.1 = key
        · subst hkey
          rw [hlast, collected_of_notMem hnot]
          exact List.Perm.refl _
        · exact hother key hkey
    | some value =>
        rw [hlast] at hhere
        change (parts value).Perm _ at hhere
        have hlength := hhere.length_eq
        have hle := @length_lastEntry_le κ ν α _ entries parts entry.1 value hlast
        rw [List.length_append] at hlength
        have hempty : parts entry.2 = [] := List.length_eq_zero_iff.mp (by omega)
        refine ⟨fun _ => hempty, fun key => ?_⟩
        by_cases hkey : entry.1 = key
        · subst hkey
          rw [hempty, List.nil_append] at hhere
          rw [hlast]
          exact hhere
        · exact hother key hkey
  · rintro ⟨hempty, hkept⟩ key
    rw [lastEntry, collected]
    by_cases hkey : entry.1 = key
    · subst hkey
      rw [if_pos rfl, if_pos rfl]
      cases hlast : lastEntry entry.1 entries with
      | none =>
          rw [collected_of_notMem (lastEntry_eq_none_iff.mp hlast), List.append_nil]
          exact List.Perm.refl _
      | some value =>
          have hin : entry.1 ∈ entries.map Prod.fst := by
            by_contra hnot
            rw [lastEntry_eq_none_iff.mpr hnot] at hlast
            cases hlast
          have hrest := hkept entry.1
          rw [hlast] at hrest
          rw [hempty hin, List.nil_append]
          exact hrest
    · rw [if_neg hkey, if_neg hkey, Option.or_none]
      exact hkept key

/-- The dictionary has the parts of all entries exactly if nothing is replaced. -/
theorem kept_iff_nothingReplaced :
    (∀ key, (((ofEntries entries).get? key).map parts |>.getD []).Perm
      (collected parts key entries)) ↔ NothingReplaced parts entries := by
  simp only [get?_ofEntries]
  induction entries with
  | nil => exact iff_of_true (fun _ => List.Perm.refl _) List.Pairwise.nil
  | cons entry entries ih =>
      rw [kept_cons_iff, ih, NothingReplaced, NothingReplaced, List.pairwise_cons]
      refine and_congr_left fun _ => ⟨fun hempty later hlater heq => ?_, fun hempty hin => ?_⟩
      · exact hempty (heq ▸ List.mem_map_of_mem hlater)
      · obtain ⟨later, hlater, heq⟩ := List.mem_map.mp hin
        exact hempty later hlater heq.symm

end OrderedDict
