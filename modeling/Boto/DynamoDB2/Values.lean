import Mathlib.Data.Finset.Image
import Mathlib.Data.Rat.Init
import Boto.Python

/-!
# Values and their types

The Python values of items, with Python's equality, and the two dynamizers of
`boto/dynamodb/types.py`, which encode a value with its DynamoDB type.  Equality
identifies numbers by their values, and a boolean with 0 or 1; `Dynamizer` gives
booleans a type of their own, `NonBooleanDynamizer` encodes them as numbers.
-/

namespace Boto.DynamoDB2

/-! ## Python values -/

/-- A value that is no collection.  A number is an `int`, a `float` or a `Decimal`;
`exact` says whether `DYNAMODB_CONTEXT` takes its digits and its exponent without
rounding.  `other` stands for the objects of unsupported types. -/
inductive Scalar
  | none
  | bool (value : Bool)
  | number (value : ℚ) (exact : Bool)
  | str (value : Text)
  | bytes (value : Bytes)
  | other (name : ℕ) (truthy : Bool)
  deriving DecidableEq

mutual

/-- A value of a field.  A `dict` is the list of its items in the order of their
keys. -/
inductive Value
  | scalar (value : Scalar)
  | set (elements : Finset Scalar)
  | list (items : Items)
  | dict (fields : Fields)

/-- The items of a `list`. -/
inductive Items
  | nil
  | cons (head : Value) (tail : Items)

/-- The items of a `dict`. -/
inductive Fields
  | nil
  | cons (key : Text) (value : Value) (tail : Fields)

end

/-! ## Python's equality -/

/-- What equality sees of a scalar. -/
inductive Atom
  | none
  | number (value : ℚ)
  | str (value : Text)
  | bytes (value : Bytes)
  | other (name : ℕ) (truthy : Bool)
  deriving DecidableEq

/-- The value of a number, where `True` is 1 and `False` is 0. -/
def Scalar.numberValue : Scalar → ℚ
  | .bool value => if value then 1 else 0
  | .number value _ => value
  | _ => 0

/-- The atom of a scalar. -/
def Scalar.atom : Scalar → Atom
  | .none => .none
  | .bool value => .number (Scalar.bool value).numberValue
  | .number value _ => .number value
  | .str value => .str value
  | .bytes value => .bytes value
  | .other name truthy => .other name truthy

mutual

/-- `self == other`. -/
def Value.eq : Value → Value → Bool
  | .scalar a, .scalar b => decide (a.atom = b.atom)
  | .set a, .set b => decide (a.image Scalar.atom = b.image Scalar.atom)
  | .list a, .list b => a.eq b
  | .dict a, .dict b => a.eq b
  | _, _ => false

def Items.eq : Items → Items → Bool
  | .nil, .nil => true
  | .cons a as, .cons b bs => a.eq b && as.eq bs
  | _, _ => false

def Fields.eq : Fields → Fields → Bool
  | .nil, .nil => true
  | .cons k a as, .cons l b bs => decide (k = l) && a.eq b && as.eq bs
  | _, _ => false

end

/-- `bool(self)`. -/
def Scalar.truthy : Scalar → Bool
  | .none => false
  | .bool value => value
  | .number value _ => decide (value ≠ 0)
  | .str value => !value.isEmpty
  | .bytes value => !value.isEmpty
  | .other _ truthy => truthy

/-- `bool(self)`. -/
def Value.truthy : Value → Bool
  | .scalar value => value.truthy
  | .set elements => decide (elements ≠ ∅)
  | .list .nil => false
  | .list (.cons _ _) => true
  | .dict .nil => false
  | .dict (.cons _ _ _) => true

/-- `Item._is_storable`, where `value in (0, 0.0, False)` is equality with 0. -/
def Value.isStorable (value : Value) : Bool :=
  value.truthy || value.eq (.scalar (.number 0 true))

/-! ## Encoding -/

mutual

/-- A value with its DynamoDB type, as it is sent and received.  Numbers are given
by their values, and a map by its items in the order of their keys. -/
inductive Wire
  | null
  | bool (value : Bool)
  | n (value : ℚ)
  | s (value : Text)
  | b (value : Bytes)
  | ns (values : Finset ℚ)
  | ss (values : Finset Text)
  | bs (values : Finset Bytes)
  | l (items : WireItems)
  | m (fields : WireFields)
  deriving DecidableEq

inductive WireItems
  | nil
  | cons (head : Wire) (tail : WireItems)
  deriving DecidableEq

inductive WireFields
  | nil
  | cons (key : Text) (value : Wire) (tail : WireFields)
  deriving DecidableEq

end

/-- What `encode` raises: a `TypeError` for an unsupported type, or a
`DynamoDBNumberError`. -/
inductive EncodeError
  | unsupportedType
  | number
  deriving DecidableEq, Repr

namespace Scalar

/-- `is_num`. -/
def isNum : Scalar → Bool
  | .bool _ => true
  | .number _ _ => true
  | _ => false

/-- `is_str`. -/
def isStr : Scalar → Bool
  | .str _ => true
  | _ => false

/-- `is_binary`. -/
def isBinary : Scalar → Bool
  | .bytes _ => true
  | _ => false

/-- The characters of a text. -/
def strValue : Scalar → Text
  | .str value => value
  | _ => []

/-- The bytes of a binary value. -/
def bytesValue : Scalar → Bytes
  | .bytes value => value
  | _ => []

/-- `DYNAMODB_CONTEXT` takes the number as it is. -/
def isExact : Scalar → Bool
  | .number _ exact => exact
  | _ => true

/-- `_encode_n`. -/
def encodeN (value : Scalar) : Except EncodeError ℚ :=
  if value.isExact then .ok value.numberValue else .error .number

/-- `encode` for a scalar, with the type that `get_dynamodb_type` finds. -/
def encode (useBoolean : Bool) : Scalar → Except EncodeError Wire
  | .none => .ok .null
  | .bool value =>
      if useBoolean then .ok (.bool value) else (encodeN (.bool value)).map .n
  | .number value exact => (encodeN (.number value exact)).map .n
  | .str value => .ok (.s value)
  | .bytes value => .ok (.b value)
  | .other _ _ => .error .unsupportedType

end Scalar

/-- `encode` for a set: its type is that of all its elements, tried in this order. -/
def encodeSet (elements : Finset Scalar) : Except EncodeError Wire :=
  if ∀ element ∈ elements, element.isNum then
    if ∀ element ∈ elements, element.isExact then
      .ok (.ns (elements.image Scalar.numberValue))
    else .error .number
  else if ∀ element ∈ elements, element.isStr then
    .ok (.ss (elements.image Scalar.strValue))
  else if ∀ element ∈ elements, element.isBinary then
    .ok (.bs (elements.image Scalar.bytesValue))
  else .error .unsupportedType

mutual

/-- `encode` of `Dynamizer` if booleans have a type, of `NonBooleanDynamizer` if
not. -/
def Value.encode (useBoolean : Bool) : Value → Except EncodeError Wire
  | .scalar value => value.encode useBoolean
  | .set elements => encodeSet elements
  | .list items => do return .l (← items.encode useBoolean)
  | .dict fields => do return .m (← fields.encode useBoolean)

def Items.encode (useBoolean : Bool) : Items → Except EncodeError WireItems
  | .nil => .ok .nil
  | .cons head tail => do
      let head ← head.encode useBoolean
      return .cons head (← tail.encode useBoolean)

def Fields.encode (useBoolean : Bool) : Fields → Except EncodeError WireFields
  | .nil => .ok .nil
  | .cons key value tail => do
      let value ← value.encode useBoolean
      return .cons key value (← tail.encode useBoolean)

end

mutual

/-- `decode`, which is the same for both dynamizers. -/
def Wire.decode : Wire → Value
  | .null => .scalar .none
  | .bool value => .scalar (.bool value)
  | .n value => .scalar (.number value true)
  | .s value => .scalar (.str value)
  | .b value => .scalar (.bytes value)
  | .ns values => .set (values.image fun value => .number value true)
  | .ss values => .set (values.image .str)
  | .bs values => .set (values.image .bytes)
  | .l items => .list items.decode
  | .m fields => .dict fields.decode

def WireItems.decode : WireItems → Items
  | .nil => .nil
  | .cons head tail => .cons head.decode tail.decode

def WireFields.decode : WireFields → Fields
  | .nil => .nil
  | .cons key value tail => .cons key value.decode tail.decode

end

/-! ## Facts about equality -/

mutual

theorem Value.eq_refl (v : Value) : v.eq v = true := by
  cases v with
  | scalar a => simp [Value.eq]
  | set a => simp [Value.eq]
  | list a => simpa [Value.eq] using Items.eq_refl a
  | dict a => simpa [Value.eq] using Fields.eq_refl a

theorem Items.eq_refl (items : Items) : items.eq items = true := by
  cases items with
  | nil => rfl
  | cons head tail => simp [Items.eq, Value.eq_refl head, Items.eq_refl tail]

theorem Fields.eq_refl (fields : Fields) : fields.eq fields = true := by
  cases fields with
  | nil => rfl
  | cons key value tail =>
      simp [Fields.eq, Value.eq_refl value, Fields.eq_refl tail]

end

mutual

theorem Value.eq_comm (v w : Value) : v.eq w = w.eq v := by
  cases v with
  | scalar a =>
      cases w with
      | scalar b => exact decide_eq_decide.mpr ⟨Eq.symm, Eq.symm⟩
      | _ => rfl
  | set a =>
      cases w with
      | set b => exact decide_eq_decide.mpr ⟨Eq.symm, Eq.symm⟩
      | _ => rfl
  | list a =>
      cases w with
      | list b => exact Items.eq_comm a b
      | _ => rfl
  | dict a =>
      cases w with
      | dict b => exact Fields.eq_comm a b
      | _ => rfl

theorem Items.eq_comm (as bs : Items) : as.eq bs = bs.eq as := by
  cases as with
  | nil => cases bs <;> rfl
  | cons a as =>
      cases bs with
      | nil => rfl
      | cons b bs => rw [Items.eq, Items.eq, Value.eq_comm a b, Items.eq_comm as bs]

theorem Fields.eq_comm (as bs : Fields) : as.eq bs = bs.eq as := by
  cases as with
  | nil => cases bs <;> rfl
  | cons k a as =>
      cases bs with
      | nil => rfl
      | cons l b bs =>
          have hkey : decide (k = l) = decide (l = k) :=
            decide_eq_decide.mpr ⟨Eq.symm, Eq.symm⟩
          rw [Fields.eq, Fields.eq, hkey, Value.eq_comm a b, Fields.eq_comm as bs]

end

/-- All numbers are stored, and of the other scalars the true ones. -/
theorem Value.isStorable_scalar (a : Scalar) :
    (Value.scalar a).isStorable = (a.truthy || a.isNum) := by
  cases a with
  | bool value =>
      cases value <;> simp [isStorable, truthy, Scalar.truthy, Value.eq,
        Scalar.atom, Scalar.isNum, Scalar.numberValue]
  | number value exact =>
      by_cases hzero : value = 0 <;> simp [isStorable, truthy, Scalar.truthy,
        Value.eq, Scalar.atom, Scalar.isNum, hzero]
  | _ =>
      simp [isStorable, truthy, Scalar.truthy, Value.eq, Scalar.atom, Scalar.isNum]

theorem Scalar.stored_congr {a b : Scalar} (hatom : a.atom = b.atom) :
    (a.truthy || a.isNum) = (b.truthy || b.isNum) := by
  cases a <;> cases b <;> simp [atom] at hatom <;>
    simp [truthy, isNum, hatom]

/-- Equal values are both stored or both not. -/
theorem Value.isStorable_congr {v w : Value} (heq : v.eq w = true) :
    v.isStorable = w.isStorable := by
  cases v with
  | scalar a =>
      cases w with
      | scalar b =>
          rw [isStorable_scalar, isStorable_scalar]
          exact Scalar.stored_congr (by simpa [Value.eq] using heq)
      | _ => simp [Value.eq] at heq
  | set a =>
      cases w with
      | set b =>
          have himage : a.image Scalar.atom = b.image Scalar.atom := by
            simpa [Value.eq] using heq
          have hempty : a = ∅ ↔ b = ∅ := by
            rw [← Finset.image_eq_empty (f := Scalar.atom), himage,
              Finset.image_eq_empty]
          simp [isStorable, truthy, Value.eq, hempty]
      | _ => simp [Value.eq] at heq
  | list a =>
      cases w with
      | list b => cases a <;> cases b <;> simp_all [Value.eq, Items.eq, isStorable, truthy]
      | _ => simp [Value.eq] at heq
  | dict a =>
      cases w with
      | dict b => cases a <;> cases b <;> simp_all [Value.eq, Fields.eq, isStorable, truthy]
      | _ => simp [Value.eq] at heq

/-! ## Facts about encoding -/

/-- The scalar is a boolean. -/
def Scalar.isBool : Scalar → Bool
  | .bool _ => true
  | _ => false

mutual

/-- Two equal values have booleans at the same places, elements of sets apart. -/
def Value.sameBooleans : Value → Value → Bool
  | .scalar a, .scalar b => a.isBool == b.isBool
  | .list a, .list b => a.sameBooleans b
  | .dict a, .dict b => a.sameBooleans b
  | _, _ => true

def Items.sameBooleans : Items → Items → Bool
  | .cons a as, .cons b bs => a.sameBooleans b && as.sameBooleans bs
  | _, _ => true

def Fields.sameBooleans : Fields → Fields → Bool
  | .cons _ a as, .cons _ b bs => a.sameBooleans b && as.sameBooleans bs
  | _, _ => true

end

theorem except_mapError_eq_ok {ε δ α : Type} {f : ε → δ} {x : Except ε α} {a : α} :
    x.mapError f = .ok a ↔ x = .ok a := by
  cases x <;> simp [Except.mapError]

theorem Value.encode_list_eq_ok {useBoolean : Bool} {items : Items} {x : Wire}
    (hx : (Value.list items).encode useBoolean = .ok x) :
    ∃ xs, items.encode useBoolean = .ok xs ∧ x = .l xs := by
  rw [Value.encode, except_bind_eq_ok] at hx
  obtain ⟨xs, hxs, hx⟩ := hx
  exact ⟨xs, hxs, (Except.ok.inj hx).symm⟩

theorem Value.encode_dict_eq_ok {useBoolean : Bool} {fields : Fields} {x : Wire}
    (hx : (Value.dict fields).encode useBoolean = .ok x) :
    ∃ xs, fields.encode useBoolean = .ok xs ∧ x = .m xs := by
  rw [Value.encode, except_bind_eq_ok] at hx
  obtain ⟨xs, hxs, hx⟩ := hx
  exact ⟨xs, hxs, (Except.ok.inj hx).symm⟩

theorem Items.encode_cons_eq_ok {useBoolean : Bool} {head : Value} {tail : Items}
    {xs : WireItems} (hxs : (Items.cons head tail).encode useBoolean = .ok xs) :
    ∃ y ys, head.encode useBoolean = .ok y ∧ tail.encode useBoolean = .ok ys ∧
      xs = .cons y ys := by
  simp only [Items.encode, except_bind_eq_ok] at hxs
  obtain ⟨y, hy, ys, hys, hxs⟩ := hxs
  exact ⟨y, ys, hy, hys, (Except.ok.inj hxs).symm⟩

theorem Fields.encode_cons_eq_ok {useBoolean : Bool} {key : Text} {value : Value}
    {tail : Fields} {xs : WireFields}
    (hxs : (Fields.cons key value tail).encode useBoolean = .ok xs) :
    ∃ y ys, value.encode useBoolean = .ok y ∧ tail.encode useBoolean = .ok ys ∧
      xs = .cons key y ys := by
  simp only [Fields.encode, except_bind_eq_ok] at hxs
  obtain ⟨y, hy, ys, hys, hxs⟩ := hxs
  exact ⟨y, ys, hy, hys, (Except.ok.inj hxs).symm⟩

/-- What a scalar is encoded as, if it is. -/
def Scalar.wire (useBoolean : Bool) (a : Scalar) : Wire :=
  match a with
  | .none => .null
  | .bool value => if useBoolean then .bool value else .n a.numberValue
  | .number value _ => .n value
  | .str value => .s value
  | .bytes value => .b value
  | .other _ _ => .null

theorem Scalar.eq_wire_of_encode {useBoolean : Bool} {a : Scalar} {v : Wire}
    (hv : a.encode useBoolean = .ok v) : v = a.wire useBoolean := by
  cases a with
  | bool value =>
      cases useBoolean <;>
        simp only [encode, encodeN, isExact, Bool.false_eq_true, if_true, if_false,
          Except.map, Except.ok.injEq] at hv <;>
        exact hv.symm
  | number value exact =>
      cases exact with
      | false => simp [encode, encodeN, isExact, Except.map] at hv
      | true =>
          simp only [encode, encodeN, isExact, if_true, Except.map,
            Except.ok.injEq] at hv
          exact hv.symm
  | other name truthy => cases hv
  | _ => cases hv; rfl

/-- Equal scalars are encoded alike, unless one is a boolean with its own type. -/
theorem Scalar.wire_eq_iff (useBoolean : Bool) {a b : Scalar}
    (hatom : a.atom = b.atom) :
    a.wire useBoolean = b.wire useBoolean ↔
      (useBoolean = true → (a.isBool == b.isBool) = true) := by
  cases a with
  | bool x =>
      cases b with
      | bool y =>
          cases x <;> cases y <;> cases useBoolean <;>
            simp [atom, numberValue] at hatom <;> simp [wire, isBool]
      | number y exact =>
          cases useBoolean <;> simp [atom] at hatom <;> simp [wire, isBool, hatom]
      | _ => simp [atom] at hatom
  | number x exact =>
      cases b with
      | bool y =>
          cases useBoolean <;> simp [atom] at hatom <;> simp [wire, isBool, hatom]
      | number y exact => simp [atom] at hatom; simp [wire, isBool, hatom]
      | _ => simp [atom] at hatom
  | _ => cases b <;> simp [atom] at hatom <;> simp [wire, isBool, hatom]

/-- What holds of the images of two sets with the same atoms. -/
theorem image_congr_of_atom {α : Type} [DecidableEq α] {a b : Finset Scalar}
    {f : Scalar → α} {g : Atom → α} (hg : ∀ s : Scalar, g s.atom = f s)
    (himage : a.image Scalar.atom = b.image Scalar.atom) :
    a.image f = b.image f := by
  have hf : f = g ∘ Scalar.atom := funext fun s => (hg s).symm
  rw [hf, ← Finset.image_image, himage, Finset.image_image]

theorem forall_congr_of_atom {a b : Finset Scalar} {p : Scalar → Bool}
    {q : Atom → Bool} (hq : ∀ s : Scalar, q s.atom = p s)
    (himage : a.image Scalar.atom = b.image Scalar.atom) :
    (∀ s ∈ a, p s = true) ↔ ∀ s ∈ b, p s = true := by
  have hall : ∀ c : Finset Scalar, (∀ s ∈ c, p s = true) ↔
      ∀ t ∈ c.image Scalar.atom, q t = true := by
    intro c
    simp [Finset.forall_mem_image, hq]
  rw [hall, himage, ← hall]

theorem encodeSet_congr {a b : Finset Scalar} {v w : Wire}
    (himage : a.image Scalar.atom = b.image Scalar.atom)
    (hv : encodeSet a = .ok v) (hw : encodeSet b = .ok w) : v = w := by
  have hnum := @forall_congr_of_atom a b Scalar.isNum
    (fun | .number _ => true | _ => false) (fun s => by cases s <;> rfl) himage
  have hstr := @forall_congr_of_atom a b Scalar.isStr
    (fun | .str _ => true | _ => false) (fun s => by cases s <;> rfl) himage
  have hbytes := @forall_congr_of_atom a b Scalar.isBinary
    (fun | .bytes _ => true | _ => false) (fun s => by cases s <;> rfl) himage
  have hnumbers := @image_congr_of_atom ℚ _ a b Scalar.numberValue
    (fun | .number value => value | _ => 0) (fun s => by cases s <;> rfl) himage
  have hstrs := @image_congr_of_atom Text _ a b Scalar.strValue
    (fun | .str value => value | _ => []) (fun s => by cases s <;> rfl) himage
  have hbytess := @image_congr_of_atom Bytes _ a b Scalar.bytesValue
    (fun | .bytes value => value | _ => []) (fun s => by cases s <;> rfl) himage
  simp only [encodeSet, hnum, hstr, hbytes, hnumbers, hstrs, hbytess] at hv hw
  split at hv
  · rename_i hall
    rw [if_pos hall] at hw
    split at hv <;> split at hw <;> cases hv <;> cases hw
    rfl
  · rename_i hnot
    rw [if_neg hnot] at hw
    rw [hv] at hw
    cases hw
    rfl

mutual

/-- Equal values are encoded alike if and only if they have booleans at the same
places or booleans have no type of their own. -/
theorem Value.encode_eq_iff {useBoolean : Bool} (v o : Value) {x y : Wire}
    (heq : v.eq o = true) (hx : v.encode useBoolean = .ok x)
    (hy : o.encode useBoolean = .ok y) :
    x = y ↔ (useBoolean = true → v.sameBooleans o = true) := by
  cases v with
  | scalar a =>
      cases o with
      | scalar b =>
          rw [Scalar.eq_wire_of_encode hx, Scalar.eq_wire_of_encode hy]
          exact Scalar.wire_eq_iff useBoolean (by simpa [Value.eq] using heq)
      | _ => simp [Value.eq] at heq
  | set a =>
      cases o with
      | set b =>
          have hxy : x = y :=
            encodeSet_congr (by simpa [Value.eq] using heq) hx hy
          simp [hxy, Value.sameBooleans]
      | _ => simp [Value.eq] at heq
  | list a =>
      cases o with
      | list b =>
          obtain ⟨xs, hxs, rfl⟩ := Value.encode_list_eq_ok hx
          obtain ⟨ys, hys, rfl⟩ := Value.encode_list_eq_ok hy
          rw [Wire.l.injEq]
          exact Items.encode_eq_iff a b (by simpa [Value.eq] using heq) hxs hys
      | _ => simp [Value.eq] at heq
  | dict a =>
      cases o with
      | dict b =>
          obtain ⟨xs, hxs, rfl⟩ := Value.encode_dict_eq_ok hx
          obtain ⟨ys, hys, rfl⟩ := Value.encode_dict_eq_ok hy
          rw [Wire.m.injEq]
          exact Fields.encode_eq_iff a b (by simpa [Value.eq] using heq) hxs hys
      | _ => simp [Value.eq] at heq

theorem Items.encode_eq_iff {useBoolean : Bool} (as bs : Items) {xs ys : WireItems}
    (heq : as.eq bs = true) (hxs : as.encode useBoolean = .ok xs)
    (hys : bs.encode useBoolean = .ok ys) :
    xs = ys ↔ (useBoolean = true → as.sameBooleans bs = true) := by
  cases as with
  | nil =>
      cases bs with
      | nil =>
          cases hxs
          cases hys
          simp [Items.sameBooleans]
      | cons b bs => simp [Items.eq] at heq
  | cons a as =>
      cases bs with
      | nil => simp [Items.eq] at heq
      | cons b bs =>
          obtain ⟨x, xs, hx, hxs', rfl⟩ := Items.encode_cons_eq_ok hxs
          obtain ⟨y, ys, hy, hys', rfl⟩ := Items.encode_cons_eq_ok hys
          rw [Items.eq, Bool.and_eq_true] at heq
          rw [WireItems.cons.injEq, Value.encode_eq_iff a b heq.1 hx hy,
            Items.encode_eq_iff as bs heq.2 hxs' hys', Items.sameBooleans,
            Bool.and_eq_true, forall_and]

theorem Fields.encode_eq_iff {useBoolean : Bool} (as bs : Fields)
    {xs ys : WireFields} (heq : as.eq bs = true)
    (hxs : as.encode useBoolean = .ok xs) (hys : bs.encode useBoolean = .ok ys) :
    xs = ys ↔ (useBoolean = true → as.sameBooleans bs = true) := by
  cases as with
  | nil =>
      cases bs with
      | nil =>
          cases hxs
          cases hys
          simp [Fields.sameBooleans]
      | cons l b bs => simp [Fields.eq] at heq
  | cons k a as =>
      cases bs with
      | nil => simp [Fields.eq] at heq
      | cons l b bs =>
          obtain ⟨x, xs, hx, hxs', rfl⟩ := Fields.encode_cons_eq_ok hxs
          obtain ⟨y, ys, hy, hys', rfl⟩ := Fields.encode_cons_eq_ok hys
          simp only [Fields.eq, Bool.and_eq_true, decide_eq_true_eq] at heq
          obtain ⟨⟨rfl, hab⟩, hrest⟩ := heq
          rw [WireFields.cons.injEq, Value.encode_eq_iff a b hab hx hy,
            Fields.encode_eq_iff as bs hrest hxs' hys', Fields.sameBooleans,
            Bool.and_eq_true, forall_and, eq_self_iff_true, true_and]

end

/-- No value that is not stored has booleans. -/
theorem Value.sameBooleans_of_not_stored {v o : Value} (heq : v.eq o = true)
    (hnot : v.isStorable = false) : v.sameBooleans o = true := by
  cases v with
  | scalar a =>
      cases o with
      | scalar b =>
          have hatom : a.atom = b.atom := by simpa [Value.eq] using heq
          rw [isStorable_scalar, Bool.or_eq_false_iff] at hnot
          cases a <;> cases b <;> simp [Scalar.atom, Scalar.isNum] at hatom hnot <;>
            rfl
      | _ => simp [Value.eq] at heq
  | set a => cases o <;> rfl
  | list a =>
      cases a with
      | nil => cases o with
        | list b => rfl
        | _ => rfl
      | cons head tail => simp [isStorable, truthy] at hnot
  | dict a =>
      cases a with
      | nil => cases o with
        | dict b => rfl
        | _ => rfl
      | cons key value tail => simp [isStorable, truthy] at hnot

/-! ## Facts about decoding -/

theorem Scalar.encode_decode {useBoolean : Bool} {a : Scalar} {x : Wire}
    (hx : a.encode useBoolean = .ok x) :
    x.decode.encode useBoolean = .ok x := by
  rw [Scalar.eq_wire_of_encode hx]
  cases a with
  | bool value => cases useBoolean <;> rfl
  | other name truthy => cases hx
  | _ => rfl

theorem encodeSet_numbers (numbers : Finset ℚ) :
    encodeSet (numbers.image fun value => .number value true) =
      .ok (.ns numbers) := by
  simp [encodeSet, Scalar.isNum, Scalar.isExact, Finset.image_image,
    Function.comp_def, Scalar.numberValue]

/-- The types of a set are tried in order, and an empty set has the first one. -/
theorem encodeSet_strs {strs : Finset Text} (hne : strs.Nonempty) :
    encodeSet (strs.image .str) = .ok (.ss strs) := by
  obtain ⟨text, htext⟩ := hne
  have hnum : ¬∀ element ∈ strs.image Scalar.str, element.isNum = true := by
    intro hall
    have := hall (.str text) (Finset.mem_image_of_mem _ htext)
    simp [Scalar.isNum] at this
  have hstr : ∀ element ∈ strs.image Scalar.str, element.isStr = true := by
    simp [Scalar.isStr]
  rw [encodeSet, if_neg hnum, if_pos hstr, Finset.image_image]
  simp [Function.comp_def, Scalar.strValue]

theorem encodeSet_bytes {values : Finset Bytes} (hne : values.Nonempty) :
    encodeSet (values.image .bytes) = .ok (.bs values) := by
  obtain ⟨value, hvalue⟩ := hne
  have hmem := Finset.mem_image_of_mem Scalar.bytes hvalue
  have hnum : ¬∀ element ∈ values.image Scalar.bytes, element.isNum = true := by
    intro hall
    simpa [Scalar.isNum] using hall _ hmem
  have hstr : ¬∀ element ∈ values.image Scalar.bytes, element.isStr = true := by
    intro hall
    simpa [Scalar.isStr] using hall _ hmem
  have hbytes : ∀ element ∈ values.image Scalar.bytes,
      element.isBinary = true := by
    simp [Scalar.isBinary]
  rw [encodeSet, if_neg hnum, if_neg hstr, if_pos hbytes, Finset.image_image]
  simp [Function.comp_def, Scalar.bytesValue]

/-- A set that is not one of numbers has an element. -/
theorem image_nonempty {α : Type} [DecidableEq α] {a : Finset Scalar}
    {f : Scalar → α} (hnot : ¬∀ element ∈ a, element.isNum = true) :
    (a.image f).Nonempty := by
  obtain ⟨element, hmem, -⟩ : ∃ element ∈ a, ¬element.isNum = true := by
    simpa using hnot
  exact ⟨f element, Finset.mem_image_of_mem f hmem⟩

theorem encodeSet_decode {useBoolean : Bool} {a : Finset Scalar} {x : Wire}
    (hx : encodeSet a = .ok x) : x.decode.encode useBoolean = .ok x := by
  unfold encodeSet at hx
  split at hx
  · split at hx <;> cases hx
    exact encodeSet_numbers _
  · rename_i hnot
    split at hx
    · cases hx
      exact encodeSet_strs (image_nonempty hnot)
    · split at hx <;> cases hx
      exact encodeSet_bytes (image_nonempty hnot)

mutual

/-- A decoded value is encoded as what it was decoded from, if that was encoded. -/
theorem Value.encode_decode {useBoolean : Bool} (v : Value) {x : Wire}
    (hx : v.encode useBoolean = .ok x) :
    x.decode.encode useBoolean = .ok x := by
  cases v with
  | scalar a => exact Scalar.encode_decode hx
  | set a => exact encodeSet_decode hx
  | list a =>
      obtain ⟨xs, hxs, rfl⟩ := Value.encode_list_eq_ok hx
      rw [Wire.decode, Value.encode, Items.encode_decode a hxs]
      rfl
  | dict a =>
      obtain ⟨xs, hxs, rfl⟩ := Value.encode_dict_eq_ok hx
      rw [Wire.decode, Value.encode, Fields.encode_decode a hxs]
      rfl

theorem Items.encode_decode {useBoolean : Bool} (as : Items) {xs : WireItems}
    (hxs : as.encode useBoolean = .ok xs) :
    xs.decode.encode useBoolean = .ok xs := by
  cases as with
  | nil => cases hxs; rfl
  | cons a as =>
      obtain ⟨x, xs, hx, hxs', rfl⟩ := Items.encode_cons_eq_ok hxs
      rw [WireItems.decode, Items.encode, Value.encode_decode a hx,
        Items.encode_decode as hxs']
      rfl

theorem Fields.encode_decode {useBoolean : Bool} (as : Fields) {xs : WireFields}
    (hxs : as.encode useBoolean = .ok xs) :
    xs.decode.encode useBoolean = .ok xs := by
  cases as with
  | nil => cases hxs; rfl
  | cons k a as =>
      obtain ⟨x, xs, hx, hxs', rfl⟩ := Fields.encode_cons_eq_ok hxs
      rw [WireFields.decode, Fields.encode, Value.encode_decode a hx,
        Fields.encode_decode as hxs']
      rfl

end

theorem Value.isStorable_set (a : Finset Scalar) :
    (Value.set a).isStorable = decide (a ≠ ∅) := by
  simp [isStorable, truthy, Value.eq]

theorem isStorable_decode_set {a : Finset Scalar} {x : Wire}
    (hx : encodeSet a = .ok x) (hne : a ≠ ∅) : x.decode.isStorable = true := by
  unfold encodeSet at hx
  repeat' split at hx
  all_goals cases hx
  all_goals simpa [Wire.decode, Value.isStorable_set] using hne

/-- What is stored is still stored when it is decoded. -/
theorem isStorable_decode {useBoolean : Bool} {v : Value} {x : Wire}
    (hx : v.encode useBoolean = .ok x) (hv : v.isStorable = true) :
    x.decode.isStorable = true := by
  cases v with
  | scalar a =>
      rw [Value.isStorable_scalar] at hv
      rw [Scalar.eq_wire_of_encode hx]
      cases a with
      | none => simp [Scalar.truthy, Scalar.isNum] at hv
      | bool value =>
          cases useBoolean <;> simp [Scalar.wire, Wire.decode,
            Value.isStorable_scalar, Scalar.isNum]
      | other name truthy => cases hx
      | _ =>
          simpa [Scalar.wire, Wire.decode, Value.isStorable_scalar, Scalar.truthy,
            Scalar.isNum] using hv
  | set a =>
      rw [Value.isStorable_set, decide_eq_true_eq] at hv
      exact isStorable_decode_set hx hv
  | list a =>
      obtain ⟨xs, hxs, rfl⟩ := Value.encode_list_eq_ok hx
      cases a with
      | nil => simp [Value.isStorable, Value.truthy, Value.eq] at hv
      | cons head tail =>
          obtain ⟨y, ys, -, -, rfl⟩ := Items.encode_cons_eq_ok hxs
          simp [Wire.decode, WireItems.decode, Value.isStorable, Value.truthy]
  | dict a =>
      obtain ⟨xs, hxs, rfl⟩ := Value.encode_dict_eq_ok hx
      cases a with
      | nil => simp [Value.isStorable, Value.truthy, Value.eq] at hv
      | cons key value tail =>
          obtain ⟨y, ys, -, -, rfl⟩ := Fields.encode_cons_eq_ok hxs
          simp [Wire.decode, WireFields.decode, Value.isStorable, Value.truthy]

end Boto.DynamoDB2
