import ConversionGateway.Library.KeyedTable
import ConversionGateway.Model.Status
import ConversionGateway.Model.Consent
import ConversionGateway.Model.Identifiers

/-! # The tables of the ledger

One row per event with its current state, the append-only log of its
transitions, and one row per dead-lettering. Columns that hold an enumeration's
value have the enumeration as their type.
-/
namespace ConversionGateway
open Relational

structure Event where
  eventId : String
  source : Source
  sourceEventId : String
  receivedAt : Time
  correlationId : Option String
  conversionAction : Option String
  conversionTime : Option DateTime
  conversionValue : Option Decimal
  currency : Option String
  matchKeyType : Option MatchKeyType
  clickId : Option String
  hashedIdentifiers : Option HashedIdentifiers
  consentAdUserData : Option ConsentStatus
  consentAdPersonalization : Option ConsentStatus
  status : EventStatus
  statusReason : Option String
  attemptCount : ℕ
  lastAttemptAt : Option Time
deriving DecidableEq

structure EventTransition where
  id : ℕ
  eventId : String
  /-- `none` marks the creation of the row. -/
  fromStatus : Option EventStatus
  toStatus : EventStatus
  reason : Option String
  occurredAt : Time
deriving DecidableEq

structure HistoryEntry where
  occurredAt : Time
  status : EventStatus
  reason : Option String
deriving DecidableEq

structure DeadLetter where
  id : ℕ
  eventId : String
  source : Source
  conversionAction : Option String
  deadLetteredAt : Time
  failureClass : FailureClass
  reason : String
  platformErrorCode : Option String
  platformErrorMessage : Option String
  payload : Json
  attemptHistory : List HistoryEntry
  replayedAt : Option Time
  replayCount : ℕ

structure Ledger where
  events : Table Event Event.eventId
  transitions : Journal EventTransition EventTransition.id
  deadLetters : Journal DeadLetter DeadLetter.id

def Ledger.empty : Ledger := ⟨Table.empty,Journal.empty,Journal.empty⟩

/-- Python truth of an optional string. -/
def truthy : Option String → Bool
  | none => false
  | some s => s ≠ ""

section Columns

/-- A `VARCHAR(n)` column takes the text. -/
def varchar (n : ℕ) (s : String) : Bool := decide (s.length ≤ n) && !s.toList.contains (Char.ofNat 0)

def nullable (p : String → Bool) (s : Option String) : Bool := s.all p

@[simp] theorem nullable_some (p : String → Bool) (s : String) : nullable p (some s) = p s := rfl

/-- Every bounded column of the row holds its value. -/
def Event.fits (e : Event) : Bool :=
  varchar 255 e.eventId && varchar 255 e.sourceEventId && nullable (varchar 32) e.correlationId &&
    nullable (varchar 255) e.conversionAction && nullable (varchar 3) e.currency &&
    nullable (varchar 255) e.clickId && nullable (varchar 512) e.statusReason &&
    (e.hashedIdentifiers.all fun h => h.texts.all fun s => !s.toList.contains (Char.ofNat 0))

def EventTransition.fits (t : EventTransition) : Bool := nullable (varchar 512) t.reason

def DeadLetter.fits (d : DeadLetter) : Bool :=
  nullable (varchar 255) d.conversionAction && varchar 512 d.reason &&
    nullable (varchar 128) d.platformErrorCode && nullable (varchar 1024) d.platformErrorMessage

def Ledger.fits (db : Ledger) : Bool :=
  db.events.rows.all Event.fits && db.transitions.rows.all EventTransition.fits &&
    db.deadLetters.rows.all DeadLetter.fits

theorem varchar_truncate {n : ℕ} {s : String} (h : s.toList.contains (Char.ofNat 0) = false) :
    varchar n (Text.truncate n s) = true := by
  simp only [List.contains_eq_mem, decide_eq_false_iff_not] at h
  simp only [varchar, Text.truncate_length, List.contains_eq_mem, Bool.and_eq_true,
    decide_eq_true_eq, Bool.not_eq_true', decide_eq_false_iff_not]
  exact ⟨Nat.min_le_left _ _,fun hm => h (Text.mem_truncate hm)⟩

end Columns

/-- The consent signals of a row, as the worker reads them. -/
def Event.consent (e : Event) : ConsentSignals := ⟨e.consentAdUserData,e.consentAdPersonalization⟩

def Event.Granted (e : Event) : Prop := e.consent.Granted

/-- Digests under which the platform can match the event. -/
def Event.Matchable (rt : Runtime) (e : Event) (hashed : HashedIdentifiers) : Prop :=
  hashed.WellFormed rt ∧ (truthy e.clickId = true ∨ hashed.hasMatchKey = true)

/-- The columns that say what the event is; everything else is its progress. -/
structure Identity where
  eventId : String
  source : Source
  sourceEventId : String
  receivedAt : Time
  conversionAction : Option String
  conversionTime : Option DateTime
  conversionValue : Option Decimal
  currency : Option String
  matchKeyType : Option MatchKeyType
  clickId : Option String
  consent : ConsentSignals
deriving DecidableEq

def Event.identity (e : Event) : Identity :=
  { eventId := e.eventId, source := e.source, sourceEventId := e.sourceEventId
    receivedAt := e.receivedAt, conversionAction := e.conversionAction
    conversionTime := e.conversionTime, conversionValue := e.conversionValue
    currency := e.currency, matchKeyType := e.matchKeyType, clickId := e.clickId
    consent := e.consent }

theorem Event.granted_of_identity {a b : Event} (h : a.identity = b.identity) (hb : b.Granted) :
    a.Granted := by
  have hc : a.consent = b.consent := congrArg Identity.consent h
  unfold Event.Granted
  rw [hc]
  exact hb

structure CanonicalLeadEvent where
  eventId : String
  source : Source
  sourceEventId : String
  correlationId : Option String
  conversionAction : String
  conversionTime : DateTime
  conversionValue : Option Decimal
  currency : Option PyText
  clickId : Option PyText
  identifiers : RawIdentifiersOf PyText
  consent : ConsentSignals

def CanonicalLeadEvent.matchKeyType (e : CanonicalLeadEvent) : MatchKeyType :=
  if e.clickId.any PyText.truthy then .clickId else .userIdentifiers

structure QueueMessage where
  eventId : String
  identifiers : RawIdentifiers
  enqueuedAt : Time
  correlationId : Option String
deriving DecidableEq

end ConversionGateway
