import Mathlib.Data.List.Basic
import Mathlib.Data.Nat.Notation

/-!
# Python values shared by the models

Byte strings, text and the exceptions the modelled functions raise.  Both
interpreters that the repository supports occur: where they differ, a definition
takes the `PyVersion` it runs under.
-/

namespace Boto

/-- A byte string. -/
abbrev Bytes := List UInt8

/-- A text string, as the list of its characters. -/
abbrev Text := List Char

instance : LawfulBEq Text := inferInstance

/-- The interpreter the code runs under. -/
inductive PyVersion
  | py2
  | py3
  deriving DecidableEq, Repr

/-- An exception, with its message where the source gives one.
`requestError` stands for whatever a failed service request raised. -/
inductive PyError
  | valueError (message : String)
  | runtimeError (message : String)
  | indexError (message : String)
  | keyError
  | typeError (message : String)
  | attributeError (message : String)
  | unicodeDecodeError
  | assertionError (message : String)
  | zeroDivisionError
  | binasciiError (message : String)
  | ioError (message : String)
  | uploadArchiveError
  | storageResponseError (status : ℕ)
  | sqsDecodeError (message : String)
  | requestError
  deriving DecidableEq, Repr

/-- A block succeeds if both of its parts do. -/
theorem except_bind_eq_ok {ε α β : Type} {x : Except ε α} {f : α → Except ε β}
    {b : β} : (x >>= f) = .ok b ↔ ∃ a, x = .ok a ∧ f a = .ok b := by
  cases x with
  | error e => simp [bind, Except.bind]
  | ok a => simp [bind, Except.bind]

/-- A block that is wrapped succeeds if it does. -/
theorem mapError_eq_ok {ε ε' α : Type} {wrap : ε → ε'} {x : Except ε α} {a : α} :
    x.mapError wrap = .ok a ↔ x = .ok a := by
  cases x with
  | error e => simp [Except.mapError]
  | ok b => simp [Except.mapError]

/-- `xs[start:stop]` for indices that are not negative. -/
def slice {α : Type*} (xs : List α) (start stop : ℕ) : List α :=
  (xs.take stop).drop start

theorem slice_eq_take_drop {α : Type*} (xs : List α) (start len : ℕ) :
    slice xs start (start + len) = (xs.drop start).take len := by
  rw [slice, List.drop_take, Nat.add_sub_cancel_left]

/-- `text.encode('utf-8')` for a text string. -/
def encodeUtf8 (text : Text) : Bytes :=
  text.flatMap String.utf8EncodeChar

@[simp] theorem encodeUtf8_nil : encodeUtf8 [] = [] := rfl

@[simp] theorem encodeUtf8_append (a b : Text) :
    encodeUtf8 (a ++ b) = encodeUtf8 a ++ encodeUtf8 b := by
  simp [encodeUtf8]

theorem encodeUtf8_cons (c : Char) (text : Text) :
    encodeUtf8 (c :: text) = String.utf8EncodeChar c ++ encodeUtf8 text := rfl

theorem length_encodeUtf8_ge (text : Text) :
    text.length ≤ (encodeUtf8 text).length := by
  induction text with
  | nil => simp
  | cons c text ih =>
      have := c.utf8Size_pos
      rw [encodeUtf8_cons, List.length_append, String.length_utf8EncodeChar,
        List.length_cons]
      omega

/-- Text without a character beyond ASCII takes one byte for each character, and
only such text does. -/
theorem length_encodeUtf8_le_iff (text : Text) :
    (encodeUtf8 text).length ≤ text.length ↔ ∀ c ∈ text, c.val ≤ 127 := by
  induction text with
  | nil => simp
  | cons c text ih =>
      have hpos := c.utf8Size_pos
      have hge := length_encodeUtf8_ge text
      rw [encodeUtf8_cons, List.length_append, String.length_utf8EncodeChar,
        List.length_cons, List.forall_mem_cons, ← ih,
        ← Char.utf8Size_eq_one_iff]
      omega

/-- What reading a file object returns: bytes in binary mode, text in text
mode. -/
inductive Data
  | bytes (content : Bytes)
  | text (content : Text)
  deriving DecidableEq, Repr

namespace Data

/-- The length as `len` reports it: bytes or characters. -/
def length : Data → ℕ
  | bytes content => content.length
  | text content => content.length

/-- `data[:n]`, also what `read(n)` returns at the start of `data`. -/
def take (n : ℕ) : Data → Data
  | bytes content => bytes (content.take n)
  | text content => text (content.take n)

/-- `data[n:]`, also what is left of `data` after `read(n)`. -/
def drop (n : ℕ) : Data → Data
  | bytes content => bytes (content.drop n)
  | text content => text (content.drop n)

@[simp] theorem length_take (n : ℕ) (data : Data) :
    (data.take n).length = min n data.length := by
  cases data <;> simp [take, length]

@[simp] theorem length_drop (n : ℕ) (data : Data) :
    (data.drop n).length = data.length - n := by
  cases data <;> simp [drop, length]

end Data

/-- The two lower-case hexadecimal digits of a byte. -/
def hexDigits (b : UInt8) : List Char :=
  [Nat.digitChar (b.toNat / 16), Nat.digitChar (b.toNat % 16)]

/-- `binascii.hexlify`, and `hexdigest` of a digest. -/
def hexlify (bytes : Bytes) : Text :=
  bytes.flatMap hexDigits

end Boto

/-!
## Digesters

A digester is represented by what it was given, and a digest by what it is the
digest of: the algorithms themselves stay uninterpreted.
-/

namespace Boto

/-- A digest that a digester gave, or one whose value came from elsewhere. -/
inductive Digest
  | of (alg : Text) (data : Bytes)
  | given (value : Bytes)
  deriving DecidableEq, Repr

/-- The entries of a dictionary of digests; the first one for a name counts. -/
abbrev Hashes := List (Text × Digest)

/-- A dictionary of digesters, each with the bytes it was given. -/
abbrev Digesters := List (Text × Bytes)

namespace Digesters

/-- Digesters for the algorithms, all of them given `data`. -/
def fed (algs : List Text) (data : Bytes) : Digesters :=
  algs.map fun alg => (alg, data)

/-- `update` of every digester. -/
def update (data : Bytes) (digesters : Digesters) : Digesters :=
  digesters.map fun d => (d.1, d.2 ++ data)

/-- `digest` of every digester. -/
def digests (digesters : Digesters) : Hashes :=
  digesters.map fun d => (d.1, .of d.1 d.2)

variable (algs : List Text) (old data : Bytes)

@[simp] theorem update_fed :
    update data (fed algs old) = fed algs (old ++ data) := by
  simp [update, fed]

@[simp] theorem fed_nil : fed [] data = [] := rfl

/-- What the digesters of an algorithm give comes before older digests. -/
theorem lookup_digests_fed {alg : Text} (h : alg ∈ algs) (older : Hashes) :
    (digests (fed algs data) ++ older).lookup alg = some (.of alg data) := by
  induction algs with
  | nil => cases h
  | cons a algs ih =>
      by_cases halg : alg = a
      · subst halg
        simp [fed, digests]
      · have hmem := List.mem_of_ne_of_mem halg h
        have hbeq : (alg == a) = false := by simp [halg]
        simp only [fed, digests, List.map_cons, List.cons_append,
          List.lookup_cons, hbeq]
        exact ih hmem

end Digesters

end Boto
