import ConversionGateway.Library.Binary64
import ConversionGateway.Model.Runtime

/-! # Webhook authentication

What decides whether a delivery is let in, before anything reads its body. The
timestamp goes through `int`, through the arithmetic of doubles and into the signed
string; the signature is compared without regard to its case.
-/
namespace ConversionGateway

inductive SignatureFailure
  | missingTimestamp | missingSignature | malformedTimestamp | malformedSignature
  | timestampOutOfWindow | signatureMismatch | sourceNotConfigured
deriving DecidableEq, Repr

/-- The exceptions that `verify` does not catch. -/
inductive VerifyError
  | overflowError | unicodeEncodeError | typeError
deriving DecidableEq, Repr

def isAscii (s : String) : Bool := s.toList.all fun c => c.toNat < 128

/-- `hexdigest()` of an HMAC with SHA-256. -/
@[ext] structure HmacDigest where
  value : String
  length_eq : value.length = 64
  hex : value.toList.all isHex = true

/-- The interpreter and the library code under the check. -/
structure Verifier extends Runtime where
  /-- `hmac.new(key, message, hashlib.sha256).hexdigest()` -/
  hmacSha256 : ByteArray → ByteArray → HmacDigest
  /-- The value of a decimal digit that is not ASCII. -/
  decimal : Char → Option (Fin 10)
  lower_ascii : ∀ s, isAscii s = true → lower s = String.ofList (s.toList.map Char.toLower)

/-! ## Integers from text -/

/-- The whitespace `int` skips; unlike `str.strip` it does not take the separators. -/
def intSpace (c : Char) : Bool := Text.isSpace c && !(28 ≤ c.toNat && c.toNat ≤ 31)

/-- `sys.get_int_max_str_digits()` -/
def maxStrDigits : ℕ := 4300

namespace Verifier
variable (v : Verifier)

def digitOf (c : Char) : Option ℕ :=
  if Text.isAsciiDigit c then some (c.toNat - '0'.toNat)
  else if c.toNat < 127 then none
  else (v.decimal c).map Fin.val

/-- Digits, with single underscores between them. -/
def digitsOf (cs : List Char) : Option (List ℕ) :=
  if (cs.splitOn '_').all fun g => !g.isEmpty then (cs.splitOn '_').flatten.mapM v.digitOf else none

def unsigned (cs : List Char) : Option ℕ :=
  match v.digitsOf cs with
  | none => none
  | some ds => if ds.length ≤ maxStrDigits then some (ds.foldl (fun n d => 10 * n + d) 0) else none

/-- `int(s)`; `none` is a `ValueError`. -/
def int (s : String) : Option ℤ :=
  match (s.toList.dropWhile intSpace).rdropWhile intSpace with
  | '-' :: cs => (v.unsigned cs).map fun n : ℕ => -(n : ℤ)
  | '+' :: cs => (v.unsigned cs).map fun n : ℕ => (n : ℤ)
  | cs => (v.unsigned cs).map fun n : ℕ => (n : ℤ)

/-! ## The check -/

/-- The bytes of ASCII text. -/
def asciiBytes (s : String) : ByteArray := ⟨(s.toList.map fun c => c.toNat.toUInt8).toArray⟩

/-- `s.encode("ascii")` -/
def encodeAscii (s : String) : Except VerifyError ByteArray :=
  if isAscii s then .ok (asciiBytes s) else .error .unicodeEncodeError

/-- `timestamp + b"." + body` -/
def signedString (timestamp : String) (body : ByteArray) : ByteArray :=
  asciiBytes timestamp ++ ⟨#[46]⟩ ++ body

def computeSignature (secret timestamp : String) (body : ByteArray) : Except VerifyError String := do
  let message := (← encodeAscii timestamp) ++ ⟨#[46]⟩ ++ body
  return "sha256=" ++ (v.hmacSha256 secret.toUTF8 message).value

/-- `hmac.compare_digest` of two strings -/
def compareDigest (a b : String) : Except VerifyError Bool :=
  if isAscii a && isAscii b then .ok (a = b) else .error .typeError

/-- The structural check of the signature header. -/
def signatureShape (signature : String) : Bool :=
  "sha256=".toList.isPrefixOf signature.toList && signature.length = "sha256=".length + 64

/-- `verify`; `none` means that the request is authentic and fresh. -/
def verify (secret : String) (timestampHeader signatureHeader : Option String) (body : ByteArray)
    (now : Binary64) (toleranceSeconds : ℤ) : Except VerifyError (Option SignatureFailure) :=
  if secret = "" then .ok (some .sourceNotConfigured) else
  match timestampHeader, signatureHeader with
  | none, _ => .ok (some .missingTimestamp)
  | some _, none => .ok (some .missingSignature)
  | some timestamp, some signature =>
    match v.int timestamp with
    | none => .ok (some .malformedTimestamp)
    | some sentAt =>
      if ¬ signatureShape signature then .ok (some .malformedSignature) else
      -- the difference of a float and an int is one of floats
      match Binary64.ofInt sentAt with
      | none => .error .overflowError
      | some sent =>
        if Binary64.absExceeds (now.sub sent) toleranceSeconds then .ok (some .timestampOutOfWindow)
        else do
          let expected ← v.computeSignature secret timestamp body
          if ← compareDigest expected (v.lower signature) then return none
          else return some .signatureMismatch

end Verifier
end ConversionGateway
