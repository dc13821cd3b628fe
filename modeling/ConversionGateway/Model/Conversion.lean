import ConversionGateway.Model.Tables

/-! # The conversion row

Pure: a ledger row in, the platform's JSON object out. `orderId` is the event
id, on which the platform deduplicates.
-/
namespace ConversionGateway

/-- Without fractional seconds, `yyyy-mm-dd hh:mm:ss+hh:mm`. -/
def formatConversionTime (time : DateTime) : String := time.isoformat

def conversionActionResource (customerId conversionAction : String) : String :=
  "customers/" ++ customerId ++ "/conversionActions/" ++ conversionAction

/-- An entry for a value that is present and not empty. -/
def presentField (key : String) (value : Option String) : List (String × Json) :=
  match value with
  | none => []
  | some s => if s = "" then [] else [(key,.str s)]

/-- The address block, usable or not. -/
def addressFields (hashed : HashedIdentifiers) : List (String × Json) :=
  presentField "hashedFirstName" hashed.hashedGivenName ++
  presentField "hashedLastName" hashed.hashedFamilyName ++
  presentField "hashedStreetAddress" hashed.hashedStreetAddress ++
  presentField "city" hashed.city ++
  presentField "state" hashed.region ++
  presentField "postalCode" hashed.postalCode ++
  presentField "countryCode" hashed.country

/-- Both names, a postal code and a country. -/
def requiredAddressKeys : List String := ["hashedFirstName","hashedLastName","postalCode","countryCode"]

def userIdentifiers (hashed : HashedIdentifiers) : List Json :=
  let address := addressFields hashed
  (presentField "hashedEmail" hashed.hashedEmail).map (fun entry => .obj [entry]) ++
  (presentField "hashedPhoneNumber" hashed.hashedPhone).map (fun entry => .obj [entry]) ++
  if requiredAddressKeys.all fun k => (address.lookup k).isSome then [.obj [("addressInfo",.obj address)]]
  else []

def consentJson (status : Option ConsentStatus) : Json :=
  match status with
  | none => .null
  | some s => .str s.value

/-- The optional part of a conversion row. -/
def optionalFields (rt : Runtime) (event : Event) : List (String × Json) :=
  (match event.conversionValue with
    | none => []
    | some value => [("conversionValue",.float (rt.toFloat value))]) ++
  presentField "currencyCode" event.currency ++ presentField "gclid" event.clickId

def identifierFields (event : Event) : List (String × Json) :=
  let identifiers := match event.hashedIdentifiers with
    | none => []
    | some hashed => userIdentifiers hashed
  if identifiers.isEmpty then [] else
    [("userIdentifiers",.arr identifiers),
      ("consent",.obj [("adUserData",consentJson event.consentAdUserData),
        ("adPersonalization",consentJson event.consentAdPersonalization)])]

def buildConversion (rt : Runtime) (event : Event) (customerId : String) : Except PyError Json :=
  match event.conversionAction, event.conversionTime with
  | some action, some time =>
    .ok (.obj ([("conversionAction",.str (conversionActionResource customerId action)),
      ("conversionDateTime",.str (formatConversionTime time)),
      ("orderId",.str event.eventId)] ++ optionalFields rt event ++ identifierFields event))
  | _, _ => .error .assertionError

/-- The order id of a conversion row. -/
def Json.orderId (conversion : Json) : Option String := (conversion.get "orderId").bind Json.asString

theorem buildConversion_orderId {rt : Runtime} {event : Event} {customerId : String} {conversion : Json}
    (h : buildConversion rt event customerId = .ok conversion) :
    conversion.orderId = some event.eventId := by
  unfold buildConversion at h
  split at h
  · cases h
    rfl
  · cases h

end ConversionGateway
