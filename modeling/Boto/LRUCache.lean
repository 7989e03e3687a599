import Boto.Support.Dict
import Boto.Support.LinkedList
import Boto.Support.Programs

/-!
# The cache of recently used items

`LRUCache` of `boto/utils.py` keeps its items in a doubly linked list from the most to
the least recently used one, beside a dictionary from keys to items.  Items are objects
that are changed in place, so they are given by references to those made so far.
-/

namespace Boto

/-- `LRUCache._Item`. -/
structure LRUItem (κ ν : Type) where
  previous : Option ℕ
  next : Option ℕ
  key : κ
  value : ν

/-- What a method raises: for a key that is missing, or for an attribute of `None`. -/
inductive LRUError
  | keyError
  | attributeError
  deriving DecidableEq

/-- `LRUCache`, with the items made so far. -/
structure LRUCache (κ ν : Type) where
  items : List (LRUItem κ ν)
  dict : Dict κ ℕ
  capacity : ℕ
  head : Option ℕ
  tail : Option ℕ

namespace LRUCache

variable {κ ν α : Type} [DecidableEq κ]

/-- `__init__`. -/
def init (κ ν : Type) (capacity : ℕ) : LRUCache κ ν :=
  { items := [], dict := Dict.empty, capacity := capacity, head := none, tail := none }

/-- `__contains__`. -/
def contains (key : κ) (self : LRUCache κ ν) : Bool :=
  (self.dict.get? key).isSome

/-- `__len__`. -/
def len (self : LRUCache κ ν) : ℕ :=
  self.dict.items.length

/-- The keys that `__iter__` yields from an item on, for at most the given number. -/
def keysFrom (self : LRUCache κ ν) : ℕ → Option ℕ → List κ
  | fuel + 1, some cur =>
      match self.items[cur]? with
      | some item => item.key :: keysFrom self fuel item.next
      | none => []
  | _, _ => []

/-- `__iter__`: an item is visited once, so there are no more than were made. -/
def iter (self : LRUCache κ ν) : List κ :=
  self.keysFrom self.items.length self.head

/-- A part of a method. -/
abbrev Method (κ ν α : Type) := EStateM LRUError (LRUCache κ ν) α

/-- An attribute of an item. -/
def read (field : LRUItem κ ν → α) (ref : Option ℕ) : Method κ ν α := fun self =>
  match ref.bind (self.items[·]?) with
  | some item => .ok (field item) self
  | none => .error .attributeError self

/-- Assigns to attributes of an item. -/
def assign (update : LRUItem κ ν → LRUItem κ ν) (ref : Option ℕ) : Method κ ν Unit :=
  fun self =>
    match ref with
    | some cell => .ok () { self with items := self.items.modify cell update }
    | none => .error .attributeError self

/-- `del self._dict[key]`. -/
def delete (key : κ) : Method κ ν Unit := fun self =>
  match self.dict.get? key with
  | some _ => .ok () { self with dict := self.dict.erase key }
  | none => .error .keyError self

/-- The body of the loop of `_manage_size`. -/
def evict : Method κ ν Unit := do
  delete (← read LRUItem.key (← get).tail)
  if (← get).tail ≠ (← get).head then
    let previous ← read LRUItem.previous (← get).tail
    modify fun self => { self with tail := previous }
    assign (fun item => { item with next := none }) (← get).tail
  else
    modify fun self => { self with head := none, tail := none }

/-- The condition of the loop of `_manage_size`. -/
def isOverfull (self : LRUCache κ ν) : Bool :=
  decide (self.capacity < self.len)

/-- `_manage_size`: every round deletes a key. -/
def manageSize : Method κ ν Unit := do
  EStateM.whileLoop isOverfull evict (← get).len

/-- `_insert_item`. -/
def insertItem (item : ℕ) : Method κ ν Unit := do
  assign (fun item => { item with previous := none }) (some item)
  let head := (← get).head
  assign (fun item => { item with next := head }) (some item)
  if head ≠ none then
    assign (fun head => { head with previous := some item }) head
  else
    modify fun self => { self with tail := some item }
  modify fun self => { self with head := some item }
  manageSize

/-- `_update_item`.  The old head is what its previous item is assigned to, and then the
item becomes the head. -/
def updateItem (item : ℕ) : Method κ ν Unit := do
  if (← get).head = some item then return
  let previous ← read LRUItem.previous (some item)
  let next ← read LRUItem.next (some item)
  assign (fun other => { other with next := next }) previous
  let next ← read LRUItem.next (some item)
  if next ≠ none then
    assign (fun next => { next with previous := previous }) next
  else
    modify fun self => { self with tail := previous }
  assign (fun item => { item with previous := none }) (some item)
  let head := (← get).head
  assign (fun item => { item with next := head }) (some item)
  assign (fun head => { head with previous := some item }) head
  modify fun self => { self with head := some item }

/-- `__getitem__`. -/
def getItem (key : κ) : Method κ ν ν := do
  match (← get).dict.get? key with
  | some item => do
      updateItem item
      read LRUItem.value (some item)
  | none => throw .keyError

/-- `__setitem__`. -/
def setItem (key : κ) (value : ν) : Method κ ν Unit := do
  match (← get).dict.get? key with
  | none => do
      let item := (← get).items.length
      modify fun self =>
        { self with
          items := self.items ++
            [{ previous := none, next := none, key := key, value := value }]
          dict := self.dict.set key item }
      insertItem item
  | some item => do
      assign (fun item => { item with value := value }) (some item)
      updateItem item
      manageSize

/-- An operation on a cache. -/
inductive Operation (κ ν : Type)
  | set (key : κ) (value : ν)
  | get (key : κ)
  | contains (key : κ)
  | len
  | iter

/-- What the caller of an operation sees. -/
inductive Outcome (κ ν : Type)
  | done
  | value (value : ν)
  | raised (error : LRUError)
  | truth (truth : Bool)
  | number (number : ℕ)
  | keys (keys : List κ)

/-- An operation, with what the caller sees. -/
def step (self : LRUCache κ ν) : Operation κ ν → Outcome κ ν × LRUCache κ ν
  | .set key value =>
      match (setItem key value).run self with
      | .ok () self => (.done, self)
      | .error e self => (.raised e, self)
  | .get key =>
      match (getItem key).run self with
      | .ok value self => (.value value, self)
      | .error e self => (.raised e, self)
  | .contains key => (.truth (self.contains key), self)
  | .len => (.number self.len, self)
  | .iter => (.keys self.iter, self)

/-- Some operations, with what the caller sees of each. -/
def run (self : LRUCache κ ν) :
    List (Operation κ ν) → List (Outcome κ ν) × LRUCache κ ν
  | [] => ([], self)
  | op :: ops =>
      let (outcome, self) := self.step op
      let (outcomes, self) := run self ops
      (outcome :: outcomes, self)

end LRUCache

end Boto
