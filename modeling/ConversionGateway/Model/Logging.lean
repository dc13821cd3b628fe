import Mathlib.Data.List.Infix
import ConversionGateway.Library.Regex
import ConversionGateway.Library.Text

/-! # Redaction of log events

Every value of an event is scrubbed before it is rendered: what stands under a
sensitive key is replaced, and so is what looks like an email address or a phone
number in any other string. Strings are lists of code points here.
-/
namespace ConversionGateway
open Regex

abbrev CodePoints := List ℕ

def points (s : String) : CodePoints := s.toList.map Char.toNat

/-- What redaction takes from the interpreter; `Key` is the type of dict keys. -/
structure LogRuntime (Key : Type) where
  /-- `\d` beyond ASCII. -/
  isDecimal : ℕ → Bool
  lower : CodePoints → CodePoints
  lower_nil : lower [] = []
  str : Key → CodePoints

def sensitiveKeys : List String :=
  ["email","phone","given_name","family_name","first_name","last_name","firstname","lastname","street",
    "address","identifiers","raw","body"]

def safeKeyPrefix : String := "hashed_"

section Patterns

def between (a b : Char) (c : ℕ) : Bool := a.toNat ≤ c && c ≤ b.toNat

def oneOf (s : String) (c : ℕ) : Bool := (points s).contains c

def letter (c : ℕ) : Bool := between 'A' 'Z' c || between 'a' 'z' c

def emailLocal (c : ℕ) : Bool := letter c || between '0' '9' c || oneOf "._%+-" c

def emailDomain (c : ℕ) : Bool := letter c || between '0' '9' c || oneOf ".-" c

/-- `_EMAIL` -/
def emailPattern : List (Item ℕ) :=
  [.many emailLocal,.one (oneOf "@"),.many emailDomain,.one (oneOf ".")] ++ atLeast 2 letter

/-- `[0-9a-f]` -/
def hexDigit (c : ℕ) : Bool := between '0' '9' c || between 'a' 'f' c

/-- `\s` -/
def spacePoint (c : ℕ) : Bool := decide c.isValidChar && Text.isSpace (Char.ofNat c)

variable (isDecimal : ℕ → Bool)

/-- `\d` -/
def decimal (c : ℕ) : Bool := if c < 128 then between '0' '9' c else isDecimal c

def phoneInner (c : ℕ) : Bool := decimal isDecimal c || spacePoint c || oneOf "().-" c

/-- `_PHONE` after the optional sign. -/
def phoneCore : List (Item ℕ) :=
  .one (decimal isDecimal) ::
    (atLeast 6 (phoneInner isDecimal) ++ [.one (decimal isDecimal),.notAhead hexDigit])

/-- `_PHONE` -/
def phonePattern : List (Item ℕ) := .notBehind hexDigit :: .opt (oneOf "+") :: phoneCore isDecimal

end Patterns

def redacted : CodePoints := points "[REDACTED]"

inductive LogValue (Key : Type)
  | none
  | int (i : ℤ)
  | float (literal : String)
  | str (s : CodePoints)
  | dict (entries : List (Key × LogValue Key))
  | list (items : List (LogValue Key))
  | tuple (items : List (LogValue Key))

section Scrub
variable {Key : Type} (rt : LogRuntime Key)

/-- `_key_is_sensitive` -/
def keyIsSensitive (key : CodePoints) : Bool :=
  let lowered := rt.lower key
  if points safeKeyPrefix <+: lowered then false
  else sensitiveKeys.any fun marker => points marker <:+: lowered

def scrubString (value : CodePoints) : CodePoints :=
  replace (phonePattern rt.isDecimal) redacted (replace emailPattern redacted value)

mutual

/-- `_scrub` -/
def scrub (value : LogValue Key) (key : CodePoints) : LogValue Key :=
  if key ≠ [] ∧ keyIsSensitive rt key then .str redacted else
  match value with
  | .str s => .str (scrubString rt s)
  | .dict entries => .dict (scrubEntries entries)
  | .list items => .list (scrubItems items)
  | .tuple items => .list (scrubItems items)
  | .none => .none
  | .int i => .int i
  | .float literal => .float literal

def scrubEntries : List (Key × LogValue Key) → List (Key × LogValue Key)
  | [] => []
  | (k,v) :: rest => (k,scrub v (rt.str k)) :: scrubEntries rest

def scrubItems : List (LogValue Key) → List (LogValue Key)
  | [] => []
  | v :: rest => scrub v [] :: scrubItems rest

end

/-- An event dict: its keys are strings. -/
abbrev EventDict (Key : Type) := List (CodePoints × LogValue Key)

/-- `redact_pii` -/
def redactPii (event : EventDict Key) : EventDict Key :=
  event.map fun (k,v) => (k,scrub rt v (if k ≠ points "event" then k else []))

end Scrub

/-- An interpreter that knows no case and no digits beyond ASCII. -/
def asciiLog : LogRuntime String where
  isDecimal _ := false
  lower key := key.map fun c => if between 'A' 'Z' c then c + 32 else c
  lower_nil := rfl
  str := points

end ConversionGateway
