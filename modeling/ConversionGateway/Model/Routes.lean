import ConversionGateway.Model.Signature
import ConversionGateway.Model.Tables

/-! # Routes

What stands between a client and the ledger: the source in the path, the signature
over the body, and the answer to a query for an event.
-/
namespace ConversionGateway

/-! ## Webhooks -/

/-- What the webhook routes take from the settings. -/
structure WebhookSettings where
  webhookSecretSalesforce : String
  webhookSecretHubspot : String
  webhookTimestampToleranceSeconds : ℕ
  tolerance_pos : 1 ≤ webhookTimestampToleranceSeconds

/-- `_secret_for` -/
def secretFor (st : WebhookSettings) (source : Source) : String :=
  if source = .salesforce then st.webhookSecretSalesforce else st.webhookSecretHubspot

/-- `_source_or_404` -/
def sourceOr404 (source : String) : Option Source :=
  [Source.salesforce,.hubspot].find? fun s => s.value = source

/-- A POST to the webhook route. -/
structure WebhookPost where
  source : String
  timestampHeader : Option String
  signatureHeader : Option String
  body : ByteArray

/-- How a request ends that never reaches `_ingest`. -/
inductive Refusal
  | unknownSource
  | unauthorized (failure : SignatureFailure)
  /-- An exception of `verify`. -/
  | raised (error : VerifyError)
deriving DecidableEq

/-- `verified_body`, with the source its check was for. -/
def verifiedBody (v : Verifier) (st : WebhookSettings) (now : Binary64) (p : WebhookPost) :
    Except Refusal (Source × ByteArray) :=
  match sourceOr404 p.source with
  | none => .error .unknownSource
  | some source =>
    match v.verify (secretFor st source) p.timestampHeader p.signatureHeader p.body now
        st.webhookTimestampToleranceSeconds with
    | .error e => .error (.raised e)
    | .ok (some failure) => .error (.unauthorized failure)
    | .ok none => .ok (source,p.body)

/-! ## Queries -/

structure TransitionResponse where
  fromStatus : Option EventStatus
  toStatus : EventStatus
  reason : Option String
  occurredAt : Time
deriving DecidableEq

structure EventResponse where
  eventId : String
  source : Source
  status : EventStatus
  statusReason : Option String
  receivedAt : Time
  conversionAction : Option String
  matchKeyType : Option MatchKeyType
  attemptCount : ℕ
  transitions : List TransitionResponse
deriving DecidableEq

def EventTransition.response (t : EventTransition) : TransitionResponse :=
  ⟨t.fromStatus,t.toStatus,t.reason,t.occurredAt⟩

/-- The answer of `get_event`, of the row and the audit rows that its two statements read. -/
def eventResponse (row : Event) (transitions : List EventTransition) : EventResponse where
  eventId := row.eventId
  source := row.source
  status := row.status
  statusReason := row.statusReason
  receivedAt := row.receivedAt
  conversionAction := row.conversionAction
  matchKeyType := row.matchKeyType
  attemptCount := row.attemptCount
  transitions := transitions.map EventTransition.response

end ConversionGateway
