import Mathlib.Data.List.Sort
import ConversionGateway.Library.Outcome
import ConversionGateway.Model.Tables

/-! # Ledger operations

The functions that write the event tables, on the ledger as the open session
sees it. None of them commits. An event object of a session is the current row
of that view, so objects are passed by value and looked up again after writes.
-/
namespace ConversionGateway
open Relational

namespace Ledger

def getEvent (db : Ledger) (eventId : String) : Option Event := db.events.get eventId

def getDeadLetter (db : Ledger) (id : ℕ) : Option DeadLetter := db.deadLetters.get id

/-- Flush the changed columns of an event object. -/
def putEvent (db : Ledger) (e : Event) : Ledger := { db with events := db.events.put e }

/-- `session.add(EventTransition(..))` -/
def addTransition (db : Ledger) (eventId : String) (fromStatus : Option EventStatus)
    (toStatus : EventStatus) (reason : Option String) (now : Time) : Ledger :=
  { db with transitions := db.transitions.append ⟨db.transitions.next,eventId,fromStatus,toStatus,reason,now⟩ rfl }

def listTransitions (db : Ledger) (eventId : String) : List EventTransition :=
  db.transitions.rows.filter fun t => t.eventId = eventId

section Views
variable (db : Ledger) (e : Event) (k : String) (fromStatus : Option EventStatus)
  (toStatus : EventStatus) (reason : Option String) (now : Time)

@[simp] theorem putEvent_transitions : (db.putEvent e).transitions = db.transitions := rfl

@[simp] theorem putEvent_deadLetters : (db.putEvent e).deadLetters = db.deadLetters := rfl

@[simp] theorem addTransition_events :
    (db.addTransition k fromStatus toStatus reason now).events = db.events := rfl

@[simp] theorem addTransition_deadLetters :
    (db.addTransition k fromStatus toStatus reason now).deadLetters = db.deadLetters := rfl

@[simp] theorem getEvent_addTransition (j : String) :
    (db.addTransition k fromStatus toStatus reason now).getEvent j = db.getEvent j := rfl

@[simp] theorem listTransitions_putEvent (j : String) :
    (db.putEvent e).listTransitions j = db.listTransitions j := rfl

theorem listTransitions_addTransition (j : String) :
    (db.addTransition k fromStatus toStatus reason now).listTransitions j =
      db.listTransitions j ++
        if k = j then [⟨db.transitions.next,k,fromStatus,toStatus,reason,now⟩] else [] := by
  simp [listTransitions, addTransition, List.filter_cons]

theorem getEvent_eventId {db : Ledger} {k : String} {e : Event} (h : db.getEvent k = some e) :
    e.eventId = k := Table.get_key h

theorem getEvent_putEvent_self {db : Ledger} {e old : Event} (h : db.getEvent e.eventId = some old) :
    (db.putEvent e).getEvent e.eventId = some e := Table.get_put_self h

theorem getEvent_putEvent_of_ne {db : Ledger} {e : Event} {k : String} (h : k ≠ e.eventId) :
    (db.putEvent e).getEvent k = db.getEvent k := Table.get_put_of_ne h

/-- A second write of one object replaces the first. -/
theorem putEvent_putEvent {db : Ledger} {a b : Event} (h : a.eventId = b.eventId) :
    (db.putEvent a).putEvent b = db.putEvent b := by
  simp only [putEvent, Table.put_put h]

end Views

end Ledger

/-- `event.status` and `event.status_reason` assigned. -/
def Event.moved (e : Event) (toStatus : EventStatus) (reason : Option String) : Event :=
  { e with status := toStatus, statusReason := reason }

/-- `event.attempt_count += 1` and `event.last_attempt_at = now`. -/
def Event.attempted (e : Event) (now : Time) : Event :=
  { e with attemptCount := e.attemptCount + 1, lastAttemptAt := some now }

/-- `event.correlation_id` assigned. -/
def Event.labelled (e : Event) (correlationId : Option String) : Event :=
  { e with correlationId := correlationId }

@[simp] theorem Event.moved_eventId (e : Event) (toStatus : EventStatus) (reason : Option String) :
    (e.moved toStatus reason).eventId = e.eventId := rfl

@[simp] theorem Event.labelled_eventId (e : Event) (correlationId : Option String) :
    (e.labelled correlationId).eventId = e.eventId := rfl

/-- Move an event to a new state and record the transition, or refuse. -/
def transition (db : Ledger) (event : Event) (toStatus : EventStatus) (reason : Option String)
    (now : Time) : Except PyError (Ledger × Event) :=
  if toStatus ∈ event.status.allowedTransitions then
    let moved := event.moved toStatus reason
    .ok ((db.putEvent moved).addTransition event.eventId (some event.status) toStatus reason now,moved)
  else .error (.illegalTransition event.eventId event.status.value toStatus.value)

section Ingest
variable (rt : Runtime)

/-- The row as its columns take it: `DataError` for text that is too long for
its column or a number out of range. -/
def Event.accept (row : Event) : Except PyError Event :=
  if row.fits then
    match row.conversionValue with
    | none => .ok row
    | some v =>
      match v.toNumeric with
      | none => .error .dataError
      | some stored => .ok { row with conversionValue := some stored }
  else .error .dataError

/-- The inserted row as the session reads it back. -/
def Event.readBack (row : Event) : Except PyError Event :=
  match row.conversionTime with
  | none => .ok row
  | some t =>
    match rt.readTimestamp t with
    | none => .error .dataError
    | some stored => .ok { row with conversionTime := some stored }

/-- The inserted row and the ledger with it, or nothing on a conflict. The
values are checked before the conflict is. -/
def insertIfAbsent (db : Ledger) (row : Event) : Except PyError (Option (Ledger × Event)) := do
  let accepted ← row.accept
  if db.getEvent accepted.eventId = none then
    let stored ← accepted.readBack rt
    if h : db.events.get stored.eventId = none then
      return some ({ db with events := db.events.insert stored h },stored)
    else return none
  else return none

/-- The values of the INSERT, as text of the connection's encoding. -/
def validatedRow (event : CanonicalLeadEvent) (now : Time) : Except PyError Event := do
  let currency ← PyText.encodeOption event.currency
  let clickId ← PyText.encodeOption event.clickId
  return { eventId := event.eventId, source := event.source, sourceEventId := event.sourceEventId
           receivedAt := now, correlationId := event.correlationId
           conversionAction := some event.conversionAction
           conversionTime := some event.conversionTime, conversionValue := event.conversionValue
           currency := currency, matchKeyType := some event.matchKeyType, clickId := clickId
           hashedIdentifiers := none, consentAdUserData := event.consent.adUserData
           consentAdPersonalization := event.consent.adPersonalization
           status := .received, statusReason := none, attemptCount := 0, lastAttemptAt := none }

/-- Persist a freshly validated event as RECEIVED, VALIDATED, QUEUED; `none` if
the event was in the ledger already. -/
def recordValidated (db : Ledger) (event : CanonicalLeadEvent) (now : Time) :
    Except PyError (Ledger × Option Event) := do
  match ← insertIfAbsent rt db (← validatedRow event now) with
  | none => return (db,none)
  | some (db,row) =>
    let db := db.addTransition row.eventId none .received none now
    let (db,row) ← transition db row .validated none now
    let (db,row) ← transition db row .queued none now
    return (db,some row)

def rejectedRow (eventId : String) (source : Source) (sourceEventId : String) (now : Time) : Event :=
  { eventId := eventId, source := source, sourceEventId := sourceEventId, receivedAt := now
    correlationId := none, conversionAction := none, conversionTime := none, conversionValue := none
    currency := none, matchKeyType := none, clickId := none, hashedIdentifiers := none
    consentAdUserData := none, consentAdPersonalization := none
    status := .received, statusReason := none, attemptCount := 0, lastAttemptAt := none }

def recordRejected (db : Ledger) (eventId : String) (source : Source) (sourceEventId reason : String)
    (now : Time) : Except PyError (Ledger × Option Event) := do
  match ← insertIfAbsent rt db (rejectedRow eventId source sourceEventId now) with
  | none => return (db,none)
  | some (db,row) =>
    let db := db.addTransition row.eventId none .received none now
    let (db,row) ← transition db row .rejected (some reason) now
    return (db,some row)

end Ingest

/-- The worker's happy path: digests written, event moves to PROCESSED. -/
def recordProcessed (db : Ledger) (event : Event) (hashed : HashedIdentifiers) (now : Time) :
    Except PyError (Ledger × Event) :=
  transition db { event with hashedIdentifiers := some hashed } .processed none now

/-- `ORDER BY received_at` -/
def byReceivedAt (events : List Event) : List Event :=
  events.insertionSort fun a b => a.receivedAt ≤ b.receivedAt

def findStuckQueued (db : Ledger) (olderThan : Time) : List Event :=
  byReceivedAt (db.events.rows.filter fun e => e.status = .queued ∧ e.receivedAt < olderThan)

/-- The WHERE clause of the claim; a comparison with NULL is not true. -/
def eligible (now retryAfter staleAfter : Time) (e : Event) : Bool :=
  e.status = .processed ||
    (e.status = .failedRetryable && e.lastAttemptAt.any fun t => t ≤ now - retryAfter) ||
    (e.status = .uploading && e.lastAttemptAt.any fun t => t ≤ now - staleAfter)

/-- The rows the claim's SELECT returns and locks, past those that others have locked. -/
def claimQuery (db : Ledger) (now : Time) (limit : ℕ) (retryAfter staleAfter : Time)
    (locked : List String) : List String :=
  ((byReceivedAt (db.events.rows.filter fun e =>
    eligible now retryAfter staleAfter e && !locked.contains e.eventId)).take limit).map Event.eventId

/-- Mark one selected row UPLOADING, or note that a stale one was reclaimed. -/
def claimRow (now : Time) (db : Ledger) (eventId : String) : Except PyError Ledger :=
  match db.getEvent eventId with
  | none => .ok db
  | some event => do
    let (db,event) ←
      if event.status ≠ .uploading then transition db event .uploading none now
      else .ok (db.addTransition event.eventId (some event.status) event.status
        (some "reclaimed_stale") now,event)
    return db.putEvent (event.attempted now)

/-- The loop of `claim_for_upload` over the rows its SELECT returned. -/
def claimForUpload (db : Ledger) (selected : List String) (now : Time) : Except PyError Ledger :=
  Outcome.loop (claimRow now) db selected

/-- Between two attempts of a batch: FAILED_RETRYABLE and UPLOADING again. -/
def recordRetryAttempt (db : Ledger) (event : Event) (reason : String) (now : Time) :
    Except PyError Ledger := do
  let (db,event) ← transition db event .failedRetryable (some reason) now
  let (db,event) ← transition db event .uploading none now
  return db.putEvent (event.attempted now)

end ConversionGateway
