import ConversionGateway.Model.LedgerOperations

/-! # The dead-letter store

`deadLetter` is the only way an event becomes DEAD_LETTERED: one ledger
transition and one row with a copy of the event's trail. `replay` sends the
event back through the pipeline and hands out the message to publish.
-/
namespace ConversionGateway
open Relational

/-- The reason under which a replay requeues an event. -/
def replayedReason (id : ℕ) : String := "replayed:dlq:" ++ toString id

theorem replayedReason_injective : Function.Injective replayedReason := by
  intro a b h
  have hl := congrArg String.toList h
  simp only [replayedReason, String.toList_append, List.append_cancel_left_eq] at hl
  have ha : Nat.toDigits 10 a = Nat.toDigits 10 b := by simpa [toString,Nat.repr] using hl
  rw [← Nat.ofDigitChars_ten_toDigits (n := a), ha, Nat.ofDigitChars_ten_toDigits]

def EventTransition.historyEntry (t : EventTransition) : HistoryEntry :=
  ⟨t.occurredAt,t.toStatus,t.reason⟩

/-- `(error_message or "")[:1024] or None` -/
def cutMessage (errorMessage : Option String) : Option String :=
  let cut := Text.truncate 1024 (errorMessage.getD "")
  if cut = "" then none else some cut

def Ledger.addDeadLetter (db : Ledger) (letter : DeadLetter) (h : letter.id = db.deadLetters.next) :
    Ledger := { db with deadLetters := db.deadLetters.append letter h }

def deadLetter (db : Ledger) (event : Event) (failureClass : FailureClass) (reason : String)
    (errorCode errorMessage : Option String) (payload : Json) (now : Time) : Except PyError Ledger := do
  let (db,event) ← transition db event .deadLettered (some reason) now
  let history := (db.listTransitions event.eventId).map EventTransition.historyEntry
  return db.addDeadLetter
    { id := db.deadLetters.next, eventId := event.eventId, source := event.source
      conversionAction := event.conversionAction, deadLetteredAt := now
      failureClass := failureClass, reason := reason, platformErrorCode := errorCode
      platformErrorMessage := cutMessage errorMessage, payload := payload, attemptHistory := history
      replayedAt := none, replayCount := 0 } rfl

def Ledger.putDeadLetter (db : Ledger) (letter : DeadLetter) : Ledger :=
  { db with deadLetters := db.deadLetters.put letter }

/-- Send one dead-lettered event back, unless the record was replayed or the
event, as it was read after the record, has moved. -/
def replay (db : Ledger) (row : DeadLetter) (event : Option Event) (now : Time) :
    Except PyError (Ledger × Option QueueMessage) :=
  if row.replayedAt ≠ none then .ok (db,none) else
  match event with
  | none => .ok (db,none)
  | some event =>
    if event.status ≠ .deadLettered then .ok (db,none) else do
      let (db,event) ← transition db event .queued (some (replayedReason row.id)) now
      let event := { event with attemptCount := 0, lastAttemptAt := none }
      let db := (db.putEvent event).putDeadLetter
        { row with replayedAt := some now, replayCount := row.replayCount + 1 }
      return (db,some
        { eventId := event.eventId, identifiers := .blank, enqueuedAt := now
          correlationId := event.correlationId })

end ConversionGateway
