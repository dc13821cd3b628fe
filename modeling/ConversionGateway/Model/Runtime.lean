import ConversionGateway.Library.Text

/-! # Values and the Python runtime

What the program takes from its interpreter and its third-party packages is a
parameter of the model, `Runtime`; nothing is assumed about it here. Time is
counted in microseconds since the epoch.
-/
namespace ConversionGateway

abbrev Time := ℤ

/-- `mantissa * 10 ^ exponent` -/
structure Decimal where
  mantissa : ℤ
  exponent : ℤ
deriving DecidableEq, Repr

/-- What a `NUMERIC(18, 6)` column holds for a value, rounded half away from
zero; `none` is a numeric overflow. -/
def Decimal.toNumeric (d : Decimal) : Option Decimal :=
  let magnitude :=
    if 0 ≤ d.exponent + 6 then d.mantissa.natAbs * 10 ^ (d.exponent + 6).toNat
    else
      let unit := 10 ^ (-(d.exponent + 6)).toNat
      (2 * d.mantissa.natAbs + unit) / (2 * unit)
  if magnitude < 10 ^ 18 then some ⟨d.mantissa.sign * magnitude,-6⟩ else none

/-- A `datetime`: wall clock fields and the UTC offset in seconds, if aware. -/
structure DateTime where
  year : ℕ
  month : ℕ
  day : ℕ
  hour : ℕ
  minute : ℕ
  second : ℕ
  microsecond : ℕ
  utcoffset : Option ℤ
  year_range : 1 ≤ year ∧ year ≤ 9999
  month_range : 1 ≤ month ∧ month ≤ 12
  day_range : 1 ≤ day ∧ day ≤ 31
  hour_lt : hour < 24
  minute_lt : minute < 60
  second_lt : second < 60
  microsecond_lt : microsecond < 1000000
  utcoffset_lt : ∀ o ∈ utcoffset, o.natAbs < 86400
deriving DecidableEq

namespace DateTime

/-- The `+hh:mm` part of `isoformat`, with `:ss` for an odd offset. -/
def isoOffset (offset : ℤ) : List Char :=
  let n := offset.natAbs
  (if offset < 0 then '-' else '+') :: (Text.twoDigits (n / 3600) ++ ':' :: Text.twoDigits (n / 60 % 60) ++
    if n % 60 = 0 then [] else ':' :: Text.twoDigits (n % 60))

/-- `when.replace(microsecond=0).isoformat(sep=" ")` -/
def isoformat (t : DateTime) : String :=
  String.ofList (Text.fourDigits t.year ++ '-' :: Text.twoDigits t.month ++ '-' :: Text.twoDigits t.day ++
    ' ' :: Text.twoDigits t.hour ++ ':' :: Text.twoDigits t.minute ++ ':' :: Text.twoDigits t.second ++
    match t.utcoffset with
    | none => []
    | some offset => isoOffset offset)

end DateTime

/-- A decoded JSON value. Lean strings hold Unicode scalar values only, so a
string with a lone surrogate is kept apart as its code points. -/
inductive Json
  | null
  | bool (b : Bool)
  | int (i : ℤ)
  /-- The exact value of the double. -/
  | float (d : Decimal)
  /-- `NaN`, `Infinity` or `-Infinity`. -/
  | nonfinite (token : String)
  | str (s : String)
  | surrogates (points : List ℕ)
  | arr (items : List Json)
  | obj (fields : List (String × Json))
deriving Repr

namespace Json

/-- `dict.get`, on a value that may not be a dict. -/
def get (j : Json) (k : String) : Option Json :=
  match j with
  | obj fields => fields.lookup k
  | _ => none

def asString : Json → Option String
  | str s => some s
  | _ => none

/-- Python truth of a decoded value. -/
def truthy : Json → Bool
  | null => false
  | bool b => b
  | int i => i ≠ 0
  | float d => d.mantissa ≠ 0
  | nonfinite _ => true
  | str s => s ≠ ""
  | surrogates _ => true
  | arr items => !items.isEmpty
  | obj fields => !fields.isEmpty

end Json

/-- The exceptions the modelled code raises or lets through. -/
inductive PyError
  | illegalTransition (eventId : String) (fromStatus toStatus : String)
  | assertionError
  | keyError (key : String)
  | valueError
  | typeError
  | attributeError
  /-- ValueError, OSError or OverflowError, by magnitude. -/
  | timestampOutOfRange
  | recursionError
  | unicodeEncodeError
  | dataError
  | publishError
deriving DecidableEq, Repr

/-- A Python string; one with a lone surrogate is not UTF-8 text. -/
inductive PyText
  | text (s : String)
  | surrogates (points : List ℕ)
deriving DecidableEq, Repr

namespace PyText

def truthy : PyText → Bool
  | text s => s ≠ ""
  | surrogates _ => true

/-- `not value.strip()` -/
def isBlank : PyText → Bool
  | text s => Text.isBlank s
  | surrogates _ => false

def encode : PyText → Except PyError String
  | text s => .ok s
  | surrogates _ => .error .unicodeEncodeError

def encodeOption : Option PyText → Except PyError (Option String)
  | none => .ok none
  | some t => t.encode.map some

end PyText

structure PhoneNumber where
  countryCode : ℕ
  nationalNumber : ℕ
  leadingZeros : ℕ
deriving DecidableEq, Repr

/-- What `json.loads` does with a body: only a `ValueError` is expected of it. -/
inductive Loaded
  | value (payload : Json)
  | valueError
  | raised (e : PyError)

/-- The interpreter's tables and the packages outside the repository. -/
structure Runtime where
  lower : String → String
  upper : String → String
  isAlpha : Char → Bool
  nfkd : String → String
  category : Char → String
  /-- `hashlib.sha256(data).hexdigest()` -/
  sha256 : ByteArray → String
  /-- `phonenumbers.parse`; `none` is a `NumberParseException`. -/
  parsePhone : String → Option String → Option PhoneNumber
  isValidNumber : PhoneNumber → Bool
  formatE164 : PhoneNumber → String
  loads : ByteArray → Loaded
  /-- pydantic's lax reading of a string as an `int`, of a value as a `datetime`
  or a `Decimal`; failures give the error type. -/
  intOfString : String → Except String ℤ
  datetimeOf : Json → Except String DateTime
  decimalOf : Json → Except String Decimal
  /-- The microseconds that the float `ms / 1000` leaves over its whole seconds. -/
  microsecondsOf : ℕ → Fin 1000000
  /-- A `timestamptz` value as the session reads it back; `none` when the driver
  cannot represent it. -/
  readTimestamp : DateTime → Option DateTime
  /-- `float(decimal)` -/
  toFloat : Decimal → Decimal

/-- `sha256_hex` -/
def Runtime.sha256Hex (rt : Runtime) (value : String) : String := rt.sha256 value.toUTF8

/-- A digest is 64 lowercase hexadecimal characters. -/
def isHex (c : Char) : Bool := Text.isAsciiDigit c || ('a' ≤ c && c ≤ 'f')

def Runtime.HexDigests (rt : Runtime) : Prop :=
  ∀ data, (rt.sha256 data).length = 64 ∧ (rt.sha256 data).toList.all isHex = true

/-- An interpreter for ASCII text that has one body to decode; runs of the model
on concrete inputs use it. -/
def Runtime.plain (loaded : Loaded) : Runtime where
  lower s := s
  upper s := s
  isAlpha c := ('a' ≤ c && c ≤ 'z') || ('A' ≤ c && c ≤ 'Z')
  nfkd s := s
  category _ := "Ll"
  sha256 _ := String.ofList (List.replicate 64 '0')
  parsePhone _ _ := none
  isValidNumber _ := false
  formatE164 _ := ""
  loads _ := loaded
  intOfString _ := .error "int_parsing"
  datetimeOf _ := .error "datetime_type"
  decimalOf _ := .error "decimal_type"
  microsecondsOf ms := ⟨ms % 1000 * 1000,by
    have h := Nat.mod_lt ms (show 1000 > 0 by decide)
    omega⟩
  readTimestamp t := some t
  toFloat d := d

theorem Runtime.plain_hexDigests (loaded : Loaded) : (Runtime.plain loaded).HexDigests := by
  intro data
  have h : (String.ofList (List.replicate 64 '0')).length = 64 ∧
      (String.ofList (List.replicate 64 '0')).toList.all isHex = true := by decide
  exact h

end ConversionGateway
