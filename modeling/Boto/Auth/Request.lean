import Boto.Numerals
import Boto.Support.OrderedDict
import Boto.Support.PercentEncoding
import Boto.TextMethods

/-!
# Requests to be signed

`HTTPRequest` of `boto/connection.py` and what the handlers of `boto/auth.py` share, as
Python 3 runs it.  Digests and the clock stay uninterpreted, and a body is text or
bytes.
-/

namespace Boto.Auth

/-- What signing raises. -/
inductive AuthError
  | unicodeDecodeError
  | unboundLocalError
  | keyError
  | valueError
  | typeError
  | attributeError
  deriving DecidableEq

/-- A digest of a number of bytes. -/
abbrev HashValue (length : ℕ) := { bytes : Bytes // bytes.length = length }

/-- The parts of the standard library that stay uninterpreted: digests, keyed digests of a
key and a message, and which characters `repr` shows as they are. -/
structure Library where
  sha256 : Bytes → HashValue 32
  hmacSha1 : Bytes → Bytes → HashValue 20
  hmacSha256 : Bytes → Bytes → HashValue 32
  isPrintable : Char → Bool

/-- The time, in the formats in which it is sent. -/
structure Clock where
  httpDate : Text
  isoDate : Text
  timestamp : Text

/-- The fields of `Provider` that signing reads. -/
structure Provider where
  accessKey : Text
  secretKey : Text
  securityToken : Option Text
  securityTokenHeader : Text
  authHeader : Text
  headerPrefix : Text
  dateHeader : Text

/-- `if provider.security_token`. -/
def Provider.token? (provider : Provider) : Option Text :=
  provider.securityToken.filter fun token => !token.isEmpty

/-! ## Values -/

/-- A value in `params`. -/
inductive ParamValue
  | text (value : Text)
  | bytes (value : Bytes)
  | int (value : ℤ)
  | list (values : List Text)
  deriving DecidableEq

/-- The quotes that `repr` puts around a string. -/
def reprQuote (text : Text) : Char :=
  if text.contains '\'' && !text.contains '"' then '"' else '\''

/-- The lower-case hexadecimal digits of a number. -/
def hexNumeral (width n : ℕ) : Text :=
  (Nat.toDigits 16 n).leftpad width '0'

/-- A character inside of what `repr` returns. -/
def reprChar (isPrintable : Char → Bool) (quote c : Char) : Text :=
  if c = quote || c = '\\' then ['\\', c]
  else if c = '\t' then "\\t".toList
  else if c = '\n' then "\\n".toList
  else if c = '\r' then "\\r".toList
  else if isPrintable c then [c]
  else if c.toNat < 0x100 then "\\x".toList ++ hexNumeral 2 c.toNat
  else if c.toNat < 0x10000 then "\\u".toList ++ hexNumeral 4 c.toNat
  else "\\U".toList ++ hexNumeral 8 c.toNat

/-- `repr(text)`. -/
def reprText (isPrintable : Char → Bool) (text : Text) : Text :=
  let quote := reprQuote text
  quote :: (text.flatMap (reprChar isPrintable quote) ++ [quote])

/-- `str(bytes)`. -/
def strBytes (bytes : Bytes) : Text :=
  'b' :: reprText (fun c => decide (0x20 ≤ c.toNat ∧ c.toNat < 0x7F))
    (bytes.map fun b => Char.ofNat b.toNat)

/-- `str(texts)` of a list. -/
def strList (library : Library) (values : List Text) : Text :=
  '[' :: ([',', ' '].intercalate (values.map (reprText library.isPrintable)) ++ [']'])

/-- `'%d' % value`. -/
def strInt (value : ℤ) : Text :=
  if value < 0 then '-' :: decimal value.natAbs else decimal value.natAbs

/-- `bytes.decode('utf-8')`. -/
def decodeUtf8 (bytes : Bytes) : Except AuthError Text :=
  let text := PercentEncoding.decode bytes
  if encodeUtf8 text = bytes then .ok text else .error .unicodeDecodeError

theorem decodeUtf8_encodeUtf8 (text : Text) : decodeUtf8 (encodeUtf8 text) = .ok text := by
  have hread : PercentEncoding.decode (encodeUtf8 text) = text :=
    PercentEncoding.decode_encode text
  rw [decodeUtf8, hread, if_pos rfl]

theorem decodeUtf8_eq_ok {content : Bytes} {text : Text} (hok : decodeUtf8 content = .ok text) :
    encodeUtf8 text = content := by
  rw [decodeUtf8] at hok
  split at hok
  · rename_i hsame
    cases hok
    exact hsame
  · cases hok

/-- `get_utf8able_str`. -/
def getUtf8ableStr (library : Library) : ParamValue → Except AuthError Text
  | .text value => .ok value
  | .bytes value => decodeUtf8 value
  | .int value => .ok (strInt value)
  | .list values => .ok (strList library values)

/-- `str(value)` of a header. -/
def strData : Data → Text
  | .text content => content
  | .bytes content => strBytes content

/-- `urllib.parse.quote(text, safe=safe)`. -/
def quote (safe : String) (text : Text) : Text :=
  PercentEncoding.quote safe.toList (encodeUtf8 text)

/-! ## Requests -/

/-- `HTTPRequest`, with the attributes that signing adds to it. -/
structure HTTPRequest where
  method : Text
  protocol : Text
  host : Text
  port : ℕ
  path : Text
  authPath : Text
  params : OrderedDict Text ParamValue
  headers : OrderedDict Text Data
  body : Data
  headersQuoted : Bool
  timestamp : Text
  regionName : Text
  serviceName : Text

/-- `HTTPRequest.__init__`: without an `auth_path` it is the path, and only the
transfer of a `PUT` may be chunked. -/
def HTTPRequest.init (method protocol host : Text) (port : ℕ) (path : Text)
    (authPath : Option Text) (params : OrderedDict Text ParamValue)
    (headers : OrderedDict Text Data) (body : Data) : HTTPRequest where
  method := method
  protocol := protocol
  host := host
  port := port
  path := path
  authPath := authPath.getD path
  params := params
  headers :=
    if headers.get? "Transfer-Encoding".toList = some (.text "chunked".toList) ∧
        method ≠ "PUT".toList then headers.erase "Transfer-Encoding".toList
    else headers
  body := body
  headersQuoted := false
  timestamp := []
  regionName := []
  serviceName := []

end Boto.Auth
