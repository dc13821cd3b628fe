import ConversionGateway.Library.Pattern
import ConversionGateway.Model.Runtime

/-! # The platform's side

`validateRow` is the check the mock of the ads API makes of one conversion row.
It takes any JSON value; a value of an unexpected shape may raise, as it does
there.
-/
namespace ConversionGateway
open Pattern (Item)

/-- `[0-9a-f]{64}` -/
def hex64 : List Item := Pattern.exactly 64 isHex

/-- `\d` on text -/
def isDecimal (rt : Runtime) (c : Char) : Bool := Text.isAsciiDigit c || rt.category c = "Nd"

/-- `[A-Za-z0-9_]` -/
def isActionChar (c : Char) : Bool :=
  ('A' ≤ c && c ≤ 'Z') || ('a' ≤ c && c ≤ 'z') || Text.isAsciiDigit c || c == '_'

def conversionActionPattern (rt : Runtime) : List Item :=
  Pattern.literal "customers/".toList ++ .many (isDecimal rt) ::
    (Pattern.literal "/conversionActions/".toList ++ [.many isActionChar])

def dateTimePattern (rt : Runtime) : List Item :=
  let digits (n : ℕ) := Pattern.exactly n (isDecimal rt)
  let mark (c : Char) : List Item := Pattern.literal [c]
  digits 4 ++ mark '-' ++ digits 2 ++ mark '-' ++ digits 2 ++ mark ' ' ++ digits 2 ++ mark ':' ++
    digits 2 ++ mark ':' ++ digits 2 ++ [.one fun c => c == '+' || c == '-'] ++ digits 2 ++
    mark ':' ++ digits 2

/-- `HEX64.match(str(value))`; of the other types only an integer can be 64
characters of the class. -/
def matchesHex64 : Json → Bool
  | .str s => Pattern.fits hex64 s.toList
  | .int i => Pattern.fits hex64 (toString i).toList
  | _ => false

/-- `resource.rsplit("/", 1)[-1]` -/
def actionName (resource : String) : String :=
  String.ofList (resource.toList.rtakeWhile (· ≠ '/'))

def isSubtext (s t : String) : Bool := t.toList.tails.any fun u => s.toList.isPrefixOf u

/-- `key in address`, and then `address[key]`; only a dict can be indexed by a string. -/
def addressEntry (address : Json) (key : String) : Except PyError (Option Json) :=
  match address with
  | .obj fields => .ok (fields.lookup key)
  | .str s => if isSubtext key s then .error .typeError else .ok none
  | .surrogates _ => .ok none
  | .arr items => if items.any fun i => i.asString = some key then .error .typeError else .ok none
  | _ => .error .typeError

/-- Whether every listed entry of the address that is there is a digest. -/
def checkAddress (address : Json) : List String → Except PyError Bool
  | [] => .ok true
  | key :: rest => do
    match ← addressEntry address key with
    | none => checkAddress address rest
    | some value => if matchesHex64 value then checkAddress address rest else return false

def hashedKeys : List String := ["hashedEmail","hashedPhoneNumber"]

def hashedAddressKeys : List String := ["hashedFirstName","hashedLastName","hashedStreetAddress"]

/-- Whether one entry of `userIdentifiers` passes. -/
def checkIdentifier (ident : Json) : Except PyError Bool :=
  match ident with
  | .obj fields =>
    if hashedKeys.all fun key => (fields.lookup key).all matchesHex64 then
      match fields.lookup "addressInfo" with
      | none => .ok true
      | some .null => .ok true
      | some address => checkAddress address hashedAddressKeys
    else .ok false
  | _ => .ok false

def checkIdentifiers : List Json → Except PyError Bool
  | [] => .ok true
  | ident :: rest => do if ← checkIdentifier ident then checkIdentifiers rest else return false

/-- What a `for` loop over the value visits. -/
def Json.iterate : Json → Except PyError (List Json)
  | .arr items => .ok items
  | .obj fields => .ok (fields.map fun f => .str f.1)
  | .str s => .ok (s.toList.map fun c => .str (String.singleton c))
  | .surrogates points => .ok (points.map fun p => .surrogates [p])
  | _ => .error .typeError

/-- `row.get(key) or fallback` -/
def getOr (fields : List (String × Json)) (key : String) (fallback : Json) : Json :=
  match fields.lookup key with
  | none => fallback
  | some v => if v.truthy then v else fallback

/-- Whether `consent["adUserData"]` is the explicit grant. -/
def consentGranted (consent : Json) : Except PyError Bool :=
  match consent with
  | .obj fields => .ok ((fields.lookup "adUserData").any fun v => v.asString = some "GRANTED")
  | _ => .error .attributeError

/-- An error code for the row, or `none` if it is acceptable. -/
def validateRow (rt : Runtime) (row : Json) (knownActions : List String) :
    Except PyError (Option String) :=
  match row with
  | .obj fields =>
    match (fields.lookup "conversionAction").bind Json.asString with
    | none => .ok (some "INVALID_CONVERSION_ACTION")
    | some action =>
      if ¬ Pattern.fits (conversionActionPattern rt) action.toList then
        .ok (some "INVALID_CONVERSION_ACTION") else
      if actionName action ∉ knownActions then .ok (some "CONVERSION_ACTION_NOT_FOUND") else
      match (fields.lookup "conversionDateTime").bind Json.asString with
      | none => .ok (some "INVALID_CONVERSION_DATE_TIME")
      | some time =>
        if ¬ Pattern.fits (dateTimePattern rt) time.toList then
          .ok (some "INVALID_CONVERSION_DATE_TIME") else
        let identifiers := getOr fields "userIdentifiers" (.arr [])
        if ¬ (fields.lookup "gclid").any Json.truthy ∧ ¬ identifiers.truthy then
          .ok (some "USER_IDENTIFIER_REQUIRED")
        else do
          let passed ← identifiers.iterate >>= checkIdentifiers
          if ¬ passed then return some "INVALID_USER_IDENTIFIER" else
          if ¬ identifiers.truthy then return none else
          let granted ← consentGranted (getOr fields "consent" (.obj []))
          return if granted then none else some "CONSENT_REQUIRED_FOR_USER_IDENTIFIERS"
  | _ => .ok (some "INVALID_CONVERSION")

/-! ## The upload endpoint -/

/-- `j[key]` -/
def Json.subscript (j : Json) (key : String) : Except PyError Json :=
  match j with
  | .obj fields =>
    match fields.lookup key with
    | some value => .ok value
    | none => .error (.keyError key)
  | _ => .error .typeError

/-- `j.get(key, default)`; only a dict has the method. -/
def Json.getD (j : Json) (key : String) (fallback : Json) : Except PyError Json :=
  match j with
  | .obj fields => .ok ((fields.lookup key).getD fallback)
  | _ => .error .attributeError

structure RowFailure where
  index : ℕ
  errorCode : String

/-- `injected.get(index)`; the last failure listed for a row counts. -/
def injectedCode (failRows : List RowFailure) (index : ℕ) : Option String :=
  (failRows.reverse.find? fun f => f.index = index).map RowFailure.errorCode

section Upload
variable (rt : Runtime) (knownActions : List String) (failRows : List RowFailure)

/-- `injected.get(index) or validate_row(row, known_actions)` -/
def rowCode (index : ℕ) (row : Json) : Except PyError (Option String) :=
  match injectedCode failRows index with
  | none => validateRow rt row knownActions
  | some code => if code = "" then validateRow rt row knownActions else .ok (some code)

def rowMessage (index : ℕ) (code : String) : String := "row " ++ toString index ++ ": " ++ code

def rowError (index : ℕ) (code : String) : Json :=
  .obj [("errorCode",.obj [("conversionUploadError",.str code)]),
    ("message",.str (rowMessage index code)),
    ("location",.obj [("fieldPathElements",
      .arr [.obj [("fieldName",.str "conversions"),("index",.int index)]])])]

/-- The entry of `results` for a row that was accepted. -/
def acceptedEntry (row : Json) : Except PyError Json := do
  return .obj [("gclid",← row.getD "gclid" .null),("conversionAction",← row.subscript "conversionAction"),
    ("conversionDateTime",← row.subscript "conversionDateTime"),("orderId",← row.getD "orderId" .null)]

/-- The loop over the rows from a given index on: the entries of `results` and the errors. -/
def uploadRows : ℕ → List Json → Except PyError (List Json × List Json)
  | _, [] => .ok ([],[])
  | index, row :: rest => do
    match ← rowCode rt knownActions failRows index row with
    | some code =>
      let (results,errors) ← uploadRows (index + 1) rest
      return (.obj [] :: results,rowError index code :: errors)
    | none =>
      let entry ← acceptedEntry row
      let (results,errors) ← uploadRows (index + 1) rest
      return (entry :: results,errors)

def uploadResponse (results errors : List Json) : Json :=
  .obj (("results",.arr results) :: if errors.isEmpty then [] else
    [("partialFailureError",.obj [("code",.int 3),
      ("message",.str (toString errors.length ++ " of " ++ toString results.length ++ " conversions failed")),
      ("details",.arr [.obj [("@type",.str "type.googleapis.com/google.ads.googleads.errors.GoogleAdsFailure"),
        ("errors",.arr errors)]])])])

/-- `upload` in mode `ok`: status code and body of its answer. -/
def mockUpload (body : Json) : Except PyError (ℕ × Json) := do
  match ← body.getD "conversions" .null with
  | .arr conversions =>
    let (results,errors) ← uploadRows rt knownActions failRows 0 conversions
    return (200,uploadResponse results errors)
  | _ => return (400,.obj [("error",.obj [("code",.int 400),("message",.str "conversions must be a list"),
      ("status",.str "INVALID_ARGUMENT")])])

end Upload

/-- A row that passes the check. -/
def plainRow : Json := .obj [("conversionAction",.str "customers/1/conversionActions/closed_won"),
  ("conversionDateTime",.str "2024-01-01 00:00:00+00:00"),("orderId",.str "hubspot:1"),("gclid",.str "a")]

end ConversionGateway
