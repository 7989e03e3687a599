import Boto.Numerals
import Boto.Support.OrderedDict
import Boto.Support.Urls

/-!
# Numbered parameters

Records go into the parameters of a request under names such as `Entry.1.Id`, with consecutive
numbers from 1 on.
-/

namespace Boto

variable {ν : Type}

/-- `'%s.%i.%s' % (base, i + 1, name)`. -/
def numbered (base : Text) (i : ℕ) (name : Text) : Text :=
  base ++ '.' :: (decimal (i + 1) ++ '.' :: name)

/-- The parameters of a record. -/
def recordItems (base : Text) (i : ℕ) (fields : List (Text × ν)) : List (Text × ν) :=
  fields.map fun field => (numbered base i field.1, field.2)

/-- The parameters of records, numbered from `i + 1` on. -/
def numberedFrom (base : Text) : ℕ → List (List (Text × ν)) → List (Text × ν)
  | _, [] => []
  | i, fields :: records => recordItems base i fields ++ numberedFrom base (i + 1) records

/-- The parameters of records. -/
def numberedItems (base : Text) (records : List (List (Text × ν))) : List (Text × ν) :=
  numberedFrom base 0 records

/-- Sets some parameters one after the other. -/
def setAll (params : OrderedDict Text ν) (items : List (Text × ν)) : OrderedDict Text ν :=
  items.foldl (fun params item => params.set item.1 item.2) params

theorem decimal_inj {m n : ℕ} (heq : decimal m = decimal n) : m = n := by
  have hparse := parseDigits_decimal m
  rw [heq, parseDigits_decimal] at hparse
  exact (Except.ok.inj hparse).symm

theorem numbered_inj {base name name' : Text} {i j : ℕ}
    (heq : numbered base i name = numbered base j name') : i = j ∧ name = name' := by
  have hrest := List.append_cancel_left heq
  obtain ⟨hnumber, hname⟩ := Urls.append_cons_inj (notMem_decimal (by decide))
    (notMem_decimal (by decide)) (List.cons.inj hrest).2
  exact ⟨Nat.succ.inj (decimal_inj hnumber), hname⟩

/-- A parameter is a field of one of the records. -/
theorem mem_numberedFrom {base : Text} {i : ℕ} {records : List (List (Text × ν))}
    {item : Text × ν} :
    item ∈ numberedFrom base i records ↔ ∃ j fields, records[j]? = some fields ∧
      ∃ field ∈ fields, item = (numbered base (i + j) field.1, field.2) := by
  induction records generalizing i with
  | nil => simp [numberedFrom]
  | cons fields records ih =>
      rw [numberedFrom, List.mem_append, ih]
      constructor
      · rintro (hfirst | ⟨j, fields', hget, field, hfield, rfl⟩)
        · obtain ⟨field, hfield, rfl⟩ := List.mem_map.mp hfirst
          exact ⟨0, fields, rfl, field, hfield, rfl⟩
        · refine ⟨j + 1, fields', hget, field, hfield, ?_⟩
          rw [Nat.add_right_comm, Nat.add_assoc i j 1]
      · rintro ⟨j, fields', hget, field, hfield, rfl⟩
        cases j with
        | zero =>
            cases hget
            exact .inl (List.mem_map.mpr ⟨field, hfield, rfl⟩)
        | succ j =>
            refine .inr ⟨j, fields', hget, field, hfield, ?_⟩
            rw [Nat.add_right_comm, Nat.add_assoc i j 1]

theorem nodup_numberedFrom (base : Text) {records : List (List (Text × ν))}
    (hnodup : ∀ fields ∈ records, (fields.map Prod.fst).Nodup) (i : ℕ) :
    ((numberedFrom base i records).map Prod.fst).Nodup := by
  induction records generalizing i with
  | nil => exact List.nodup_nil
  | cons fields records ih =>
      obtain ⟨hfields, hrecords⟩ := List.forall_mem_cons.mp hnodup
      rw [numberedFrom, List.map_append, List.nodup_append]
      refine ⟨?_, ih hrecords (i + 1), ?_⟩
      · rw [recordItems, List.map_map]
        have hinj : Function.Injective (numbered base i) := fun name name' heq =>
          (numbered_inj heq).2
        have hmap := hfields.map hinj
        rwa [List.map_map] at hmap
      · intro name hname name' hname' heq
        obtain ⟨item, hitem, rfl⟩ := List.mem_map.mp hname
        obtain ⟨item', hitem', rfl⟩ := List.mem_map.mp hname'
        obtain ⟨field, hfield, rfl⟩ := List.mem_map.mp hitem
        obtain ⟨j, fields', hget, field', hfield', rfl⟩ := mem_numberedFrom.mp hitem'
        have hnumber := (numbered_inj heq).1
        omega

/-- Records with distinct names in each of them are carried by distinct parameters. -/
theorem nodup_numberedItems (base : Text) {records : List (List (Text × ν))}
    (hnodup : ∀ fields ∈ records, (fields.map Prod.fst).Nodup) :
    ((numberedItems base records).map Prod.fst).Nodup :=
  nodup_numberedFrom base hnodup 0

theorem setAll_append (params : OrderedDict Text ν) (items items' : List (Text × ν)) :
    setAll params (items ++ items') = setAll (setAll params items) items' :=
  List.foldl_append

/-- Parameters with distinct names are there as they were set. -/
theorem items_setAll {items : List (Text × ν)} (hnodup : (items.map Prod.fst).Nodup) :
    (setAll .empty items).items = items :=
  OrderedDict.items_foldl_set hnodup

/-- Equal parameters come from records with the same fields. -/
theorem mem_iff_of_numberedItems_eq {base : Text} {records records' : List (List (Text × ν))}
    (heq : numberedItems base records = numberedItems base records') {j : ℕ}
    {fields fields' : List (Text × ν)} (hget : records[j]? = some fields)
    (hget' : records'[j]? = some fields') (field : Text × ν) :
    field ∈ fields ↔ field ∈ fields' := by
  have hmem : ∀ {records : List (List (Text × ν))} {fields : List (Text × ν)},
      records[j]? = some fields →
      (field ∈ fields ↔ (numbered base j field.1, field.2) ∈ numberedItems base records) := by
    intro records fields hget
    rw [numberedItems, mem_numberedFrom]
    constructor
    · intro hfield
      exact ⟨j, fields, hget, field, hfield, by rw [Nat.zero_add]⟩
    · rintro ⟨j', fields', hget', field', hfield', hitem⟩
      obtain ⟨hname, hvalue⟩ := Prod.mk.inj hitem
      obtain ⟨hindex, hname⟩ := numbered_inj hname
      rw [Nat.zero_add] at hindex
      rw [← hindex, hget] at hget'
      cases hget'
      rwa [show field = field' from Prod.ext hname hvalue]
  rw [hmem hget, heq, ← hmem hget']

/-- Setting the parameters of one record after the other. -/
theorem foldl_setAll_numbered {α : Type} (base : Text) (record : α → List (Text × ν))
    (xs : List α) (i : ℕ) (params : OrderedDict Text ν) :
    (xs.zipIdx i).foldl (fun params item =>
      setAll params (recordItems base item.2 (record item.1))) params =
        setAll params (numberedFrom base i (xs.map record)) := by
  induction xs generalizing i params with
  | nil => rfl
  | cons x xs ih =>
      rw [List.zipIdx_cons, List.foldl_cons, ih, List.map_cons, numberedFrom, setAll_append]

end Boto
