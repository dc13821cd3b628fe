import ConversionGateway.Model.LedgerOperations

/-! # The processor

What happens to one queued event: the consent gate first, then the identifiers,
then the digests. A replayed event has no raw identifiers left and keeps the
digests of its row.
-/
namespace ConversionGateway

inductive ProcessOutcome
  | processed | suppressed | rejected | skippedNotQueued | skippedUnknownEvent
deriving DecidableEq, Repr

/-- The rejections that count: a click id is itself a complete match key. -/
def countedRejections (event : Event) (rejections : List FieldRejection) : List FieldRejection :=
  rejections.filter fun r => !(truthy event.clickId && r.reason = .noMatchKey)

def rejectionsReason (rejections : List FieldRejection) : String :=
  Text.truncate 512 (";".intercalate (rejections.map fun r => r.reason.value ++ ":" ++ r.field))

/-- The digests a message without identifiers leaves in place. -/
def reusedDigests (event : Event) (message : QueueMessage) : Option HashedIdentifiers :=
  if message.identifiers = .blank then event.hashedIdentifiers else none

/-- `process_message` after `get_event` returned `event`. -/
def processMessage (rt : Runtime) (db : Ledger) (event : Option Event) (message : QueueMessage)
    (now : Time) : Except PyError (Ledger × ProcessOutcome) :=
  match event with
  | none => .ok (db,.skippedUnknownEvent)
  | some event =>
    if event.status ≠ .queued then .ok (db,.skippedNotQueued) else
    let decision := evaluateConsent event.consent
    if ¬ decision.permitted then
      match decision.reason with
      | none => .error .assertionError
      | some reason => do
        let (db,_) ← transition db event .suppressed (some reason.value) now
        return (db,.suppressed)
    else
    match reusedDigests event message with
    | some hashed => do
      let (db,_) ← recordProcessed db event hashed now
      return (db,.processed)
    | none =>
      let result := buildUserIdentifiers rt message.identifiers
      let rejections := countedRejections event result.rejections
      if rejections ≠ [] then do
        let (db,_) ← transition db event .rejected (some (rejectionsReason rejections)) now
        return (db,.rejected)
      else do
        let (db,_) ← recordProcessed db event result.identifiers now
        return (db,.processed)

/-- Nothing counts against an event that is matched by click id or by digests. -/
theorem matchable_of_no_rejections {rt : Runtime} {event : Event} {raw : RawIdentifiers}
    (h : countedRejections event (buildUserIdentifiers rt raw).rejections = []) :
    truthy event.clickId = true ∨ (buildUserIdentifiers rt raw).identifiers.hasMatchKey = true := by
  cases hc : truthy event.clickId with
  | true => exact Or.inl rfl
  | false =>
    refine Or.inr (buildUserIdentifiers_hasMatchKey fun r hr => ?_)
    have hn : r ∉ countedRejections event (buildUserIdentifiers rt raw).rejections := by simp [h]
    simp [countedRejections,hc,hr] at hn

end ConversionGateway
