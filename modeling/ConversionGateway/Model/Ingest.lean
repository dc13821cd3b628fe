import ConversionGateway.Library.Calendar
import ConversionGateway.Model.Schemas
import ConversionGateway.Model.LedgerOperations

/-! # Ingest

Mapping of a validated payload to the canonical event, and the two ways an
authenticated request ends in the ledger: accepted, or recorded as rejected. The
body of the database transaction is kept apart from what comes before it.
-/
namespace ConversionGateway

def makeEventId (source : Source) (sourceEventId : String) : String :=
  source.value ++ ":" ++ sourceEventId

/-- `""` and blanks are what a CRM sends for a field that was not filled in. -/
def present (value : Option PyText) : Option PyText := value.filter fun t => !t.isBlank

/-- `value or None` -/
def orNone (value : Option PyText) : Option PyText := value.filter PyText.truthy

/-- The constructor's own check: the conversion time must be aware. -/
def CanonicalLeadEvent.checked (event : CanonicalLeadEvent) : Validated CanonicalLeadEvent :=
  if event.conversionTime.utcoffset = none then .invalid [⟨["conversion_time"],"value_error"⟩]
  else .valid event

def mapSalesforce (payload : SalesforceWebhook) : Validated CanonicalLeadEvent :=
  let lead := payload.lead
  CanonicalLeadEvent.checked
    { eventId := makeEventId .salesforce payload.eventId, source := .salesforce
      sourceEventId := payload.eventId, correlationId := none
      conversionAction := payload.conversionAction, conversionTime := payload.eventTime
      conversionValue := payload.amount, currency := payload.currency, clickId := orNone lead.gclid
      identifiers :=
        { email := present lead.email, phone := present lead.phone
          givenName := present lead.firstName, familyName := present lead.lastName
          streetAddress := present lead.street, city := present lead.city
          region := present lead.stateCode, postalCode := present lead.postalCode
          country := present lead.countryCode }
      consent := ⟨lead.consentAdUserData,lead.consentAdPersonalization⟩ }

/-- The days before the year 10000. -/
def endOfTime : ℕ := 2932897

/-- `datetime.fromtimestamp(ms / 1000, tz=UTC)` -/
def fromTimestamp (rt : Runtime) (ms : ℕ) : Except PyError DateTime :=
  let days := ms / 86400000
  if h : days < endOfTime then
    .ok { year := (Calendar.civil days).year, month := (Calendar.civil days).month
          day := (Calendar.civil days).day, hour := ms / 3600000 % 24, minute := ms / 60000 % 60
          second := ms / 1000 % 60, microsecond := rt.microsecondsOf ms, utcoffset := some 0
          year_range := Calendar.civil_year (Nat.le_of_lt_succ h)
          month_range := Calendar.civil_month _
          day_range := Calendar.civil_day _
          hour_lt := Nat.mod_lt _ (by decide)
          minute_lt := Nat.mod_lt _ (by decide)
          second_lt := Nat.mod_lt _ (by decide)
          microsecond_lt := (rt.microsecondsOf ms).isLt
          utcoffset_lt := by simp }
  else .error .timestampOutOfRange

/-- What `parse_and_map` comes to: an event, a `ValidationError`, or another exception. -/
inductive Parsed
  | event (e : CanonicalLeadEvent)
  | validationError (errors : List ErrorItem)
  | raised (e : PyError)

def Parsed.ofValidated : Validated CanonicalLeadEvent → Parsed
  | .valid e => .event e
  | .invalid errors => .validationError errors

def mapHubspot (rt : Runtime) (payload : HubSpotWebhook) : Parsed :=
  let props := payload.properties
  match fromTimestamp rt payload.occurredAt with
  | .error e => .raised e
  | .ok conversionTime => Parsed.ofValidated <| CanonicalLeadEvent.checked
    { eventId := makeEventId .hubspot (toString payload.eventId), source := .hubspot
      sourceEventId := toString payload.eventId, correlationId := none
      conversionAction := payload.conversionAction, conversionTime := conversionTime
      conversionValue := props.amount, currency := props.dealCurrencyCode
      clickId := orNone props.hsGoogleClickId
      identifiers :=
        { email := present props.email, phone := present props.phone
          givenName := present props.firstname, familyName := present props.lastname
          streetAddress := present props.address, city := present props.city
          region := present props.state, postalCode := present props.zip
          country := present props.country }
      consent := ⟨props.adUserDataConsent,props.adPersonalizationConsent⟩ }

def parseAndMap (rt : Runtime) (source : Source) (payload : Json) : Parsed :=
  match source with
  | .salesforce =>
    match SalesforceWebhook.modelValidate rt payload with
    | .invalid errors => .validationError errors
    | .valid webhook => Parsed.ofValidated (mapSalesforce webhook)
  | .hubspot =>
    match HubSpotWebhook.modelValidate rt payload with
    | .invalid errors => .validationError errors
    | .valid webhook => mapHubspot rt webhook

def sourceEventIdKey : Source → String
  | .salesforce => "EventId"
  | .hubspot => "eventId"

/-- Best-effort read of the CRM's id from a payload that failed validation. -/
def extractSourceEventId (source : Source) (payload : Json) : Option PyText :=
  match payload.get (sourceEventIdKey source) with
  | some (.int i) => some (.text (toString i))
  | some (.str s) => if Text.isBlank s then none else some (.text s)
  | some (.surrogates points) => some (.surrogates points)
  | _ => none

structure FieldError where
  field : String
  reason : String
deriving DecidableEq, Repr

def rejectionReasons (errors : List ErrorItem) : List FieldError :=
  errors.map fun e => ⟨if e.loc = [] then "body" else ".".intercalate e.loc,e.type⟩

/-- What a request asks of the ledger. -/
inductive IngestPlan
  | accept (event : CanonicalLeadEvent)
  | reject (sourceEventId : PyText) (errors : List FieldError)
  | raised (e : PyError)

/-- `uuid4().hex` -/
structure CorrelationId where
  value : String
  length_eq : value.length = 32
  hex : value.toList.all isHex = true

def CorrelationId.zero : CorrelationId := ⟨String.ofList (List.replicate 32 '0'),by decide,by decide⟩

/-- A HubSpot delivery with a click id and both consents, at a given time. -/
def clickPayload (occurredAt : ℤ) : Json :=
  .obj [("eventId",.int 1),("objectId",.int 2),("occurredAt",.int occurredAt),
    ("conversionAction",.str "lead"),
    ("properties",.obj [("hs_google_click_id",.str "click"),("ad_user_data_consent",.str "GRANTED"),
      ("ad_personalization_consent",.str "GRANTED")])]

/-- The decoder for a HubSpot delivery with a click id. -/
def clickRuntime (occurredAt : ℤ) : Runtime := Runtime.plain (.value (clickPayload occurredAt))

/-- The text of such a delivery. -/
def clickBody (occurredAt : ℤ) : ByteArray :=
  ("\x7b\"eventId\":1,\"objectId\":2,\"occurredAt\":" ++ toString occurredAt ++
    ",\"conversionAction\":\"lead\",\"properties\":\x7b\"hs_google_click_id\":\"click\"," ++
    "\"ad_user_data_consent\":\"GRANTED\",\"ad_personalization_consent\":\"GRANTED\"\x7d\x7d").toUTF8

/-- A second delivery beside `clickBody`. -/
def secondBody : ByteArray :=
  ("\x7b\"eventId\":2,\"objectId\":2,\"occurredAt\":1704067200000,\"conversionAction\":\"lead\"," ++
    "\"properties\":\x7b\"hs_google_click_id\":\"click\",\"ad_user_data_consent\":\"GRANTED\"," ++
    "\"ad_personalization_consent\":\"GRANTED\"\x7d\x7d").toUTF8

def secondPayload : Json :=
  .obj [("eventId",.int 2),("objectId",.int 2),("occurredAt",.int 1704067200000),("conversionAction",.str "lead"),
    ("properties",.obj [("hs_google_click_id",.str "click"),("ad_user_data_consent",.str "GRANTED"),
      ("ad_personalization_consent",.str "GRANTED")])]

/-- The decoder for the two. -/
def twoRuntime : Runtime :=
  { clickRuntime 1704067200000 with
    loads := fun data =>
      if data.data.toList = secondBody.data.toList then .value secondPayload else .value (clickPayload 1704067200000) }

/-- The id of a rejected request; without a usable one the digest of the body. -/
def rejectedId (rt : Runtime) (body : ByteArray) (sourceEventId : Option PyText) : PyText :=
  sourceEventId.getD (.text ("unparsed:" ++ Text.truncate 16 (rt.sha256 body)))

/-- `_ingest` up to its transaction. -/
def planIngest (rt : Runtime) (source : Source) (body : ByteArray) (correlationId : CorrelationId) :
    IngestPlan :=
  match rt.loads body with
  | .raised e => .raised e
  | .valueError => .reject (rejectedId rt body none) [⟨"body","malformed_json"⟩]
  | .value payload =>
    match parseAndMap rt source payload with
    | .raised e => .raised e
    | .validationError errors =>
      .reject (rejectedId rt body (extractSourceEventId source payload)) (rejectionReasons errors)
    | .event event => .accept { event with correlationId := some correlationId.value }

structure Response where
  statusCode : ℕ
  eventId : String
  status : EventStatus
  correlationId : String
  errors : List FieldError
deriving DecidableEq, Repr

/-- The answer, and the message to publish once the transaction has committed. -/
structure Ingested where
  response : Response
  message : Option QueueMessage
deriving DecidableEq

section Transactions
variable (rt : Runtime) (db : Ledger) (correlationId : CorrelationId) (now : Time)

/-- The message of an accepted event; `none` if publishing it raises. -/
def ingestMessage (event : CanonicalLeadEvent) : Option QueueMessage :=
  match event.identifiers.encode with
  | .error _ => none
  | .ok identifiers => some ⟨event.eventId,identifiers,now,some correlationId.value⟩

def ingestAccepted (event : CanonicalLeadEvent) : Except PyError (Ledger × Ingested) := do
  match ← recordValidated rt db event now with
  | (db,none) =>
    match db.getEvent event.eventId with
    | none => throw .assertionError
    | some existing =>
      return (db,⟨⟨200,existing.eventId,existing.status,
        if truthy existing.correlationId then existing.correlationId.getD "" else correlationId.value,
        []⟩,none⟩)
  | (db,some row) =>
    return (db,⟨⟨202,row.eventId,row.status,correlationId.value,[]⟩,
      ingestMessage correlationId now event⟩)

def rejectReason (errors : List FieldError) : String :=
  Text.truncate 512 (";".intercalate (errors.map fun e => e.reason ++ ":" ++ e.field))

/-- `_reject` -/
def ingestRejected (source : Source) (sourceEventId : PyText) (errors : List FieldError) :
    Except PyError (Ledger × Ingested) := do
  let sourceEventId ← sourceEventId.encode
  let eventId := makeEventId source sourceEventId
  let response : Response := ⟨422,eventId,.rejected,correlationId.value,errors⟩
  match ← recordRejected rt db eventId source sourceEventId (rejectReason errors) now with
  | (db,none) => return (db,⟨response,none⟩)
  | (db,some row) =>
    return (db.putEvent (row.labelled (some correlationId.value)),⟨response,none⟩)

/-- The body of the transaction of a planned request. -/
def ingestBody (source : Source) (plan : IngestPlan) : Except PyError (Ledger × Ingested) :=
  match plan with
  | .raised e => .error e
  | .accept event => ingestAccepted rt db correlationId now event
  | .reject sourceEventId errors =>
    ingestRejected rt db correlationId now source sourceEventId errors

end Transactions

/-- The event id a plan is about, if it can be written at all. -/
def IngestPlan.eventId (source : Source) : IngestPlan → Option String
  | .raised _ => none
  | .accept event => some event.eventId
  | .reject (.text s) _ => some (makeEventId source s)
  | .reject (.surrogates _) _ => none

end ConversionGateway
