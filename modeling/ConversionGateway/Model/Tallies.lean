import ConversionGateway.Model.Metrics

/-! # The counters of what becomes of an event

`process_message` increments `events_suppressed_total` and `events_rejected_total`, and
`apply_result` increments `conversions_uploaded_total`, each after the transition of the
event and inside of its transaction. The functions below are those of the two stages with
these increments.
-/
namespace ConversionGateway

/-- The labels of the three counters. -/
inductive TallyLabels
  | suppressed (source : Source) (conversionAction reason : String)
  | rejected (source : Source) (conversionAction reason : String)
  | uploaded (source : Source) (conversionAction : String)
deriving DecidableEq

/-- A computation that may increment one of the three. -/
abbrev Tallied := Metered PyError TallyLabels

/-- The loop over the rejections of a record. -/
def countRejections (event : Event) (rejections : List FieldRejection) : Tallied PUnit :=
  Metered.loop (fun _ r => Metered.count (.rejected event.source (unknown event.conversionAction) r.reason.value))
    ⟨⟩ rejections

/-- `process_message` after `get_event` returned `event`. -/
def processMessageTallied (rt : Runtime) (db : Ledger) (event : Option Event) (message : QueueMessage)
    (now : Time) : Tallied (Ledger × ProcessOutcome) :=
  match event with
  | none => pure (db,.skippedUnknownEvent)
  | some event =>
    if event.status ≠ .queued then pure (db,.skippedNotQueued) else
    let decision := evaluateConsent event.consent
    if ¬ decision.permitted then
      match decision.reason with
      | none => Metered.lift (.error .assertionError)
      | some reason => do
        let (db,_) ← Metered.lift (transition db event .suppressed (some reason.value) now)
        Metered.count (.suppressed event.source (unknown event.conversionAction) reason.value)
        return (db,.suppressed)
    else
    match reusedDigests event message with
    | some hashed => do
      let (db,_) ← Metered.lift (recordProcessed db event hashed now)
      return (db,.processed)
    | none =>
      let result := buildUserIdentifiers rt message.identifiers
      let rejections := countedRejections event result.rejections
      if rejections ≠ [] then do
        let (db,_) ← Metered.lift (transition db event .rejected (some (rejectionsReason rejections)) now)
        countRejections event rejections
        return (db,.rejected)
      else do
        let (db,_) ← Metered.lift (recordProcessed db event result.identifiers now)
        return (db,.processed)

/-- The outcome of one row. -/
def applyRowTallied (loaded : List String) (now : Time) (db : Ledger) (item : Claimed × RowResult) :
    Tallied Ledger :=
  match if item.1.eventId ∈ loaded then db.getEvent item.1.eventId else none with
  | none => Metered.lift (.error (.keyError item.1.eventId))
  | some event =>
    if item.2.ok then do
      let (db,_) ← Metered.lift (transition db event .uploaded none now)
      Metered.count (.uploaded event.source (unknown event.conversionAction))
      return db
    else if classifyRowError item.2.code = .transient then do
      let (db,_) ← Metered.lift
        (transition db event .failedRetryable (some ("retryable_row:" ++ item.2.code)) now)
      return db
    else Metered.lift (deadLetter db event .partialFailure ("permanent_row:" ++ item.2.code) (some item.2.code)
      item.2.message item.1.conversion now)

/-- `apply_result` -/
def applyResultTallied (db : Ledger) (loaded : List String) (batch : List Claimed) (rows : List RowResult)
    (now : Time) : Tallied Ledger := do
  let db ← Metered.loop (applyRowTallied loaded now) db (batch.zip rows)
  Metered.lift (if batch.length = rows.length then .ok db else .error .valueError)

/-- The statements of a transaction and the increments they make; the counters have no
other callers on the ledger. -/
def Transaction.bodyTallied (rt : Runtime) (db : Ledger) : Transaction → Tallied (Ledger × Reply)
  | .process message loaded now => do
    let (db,outcome) ← processMessageTallied rt db loaded message now
    return (db,.processed outcome)
  | .apply batch loaded rows now => do
    let db ← applyResultTallied db (loaded.map Event.eventId) batch rows now
    return (db,.written)
  | tx => Metered.lift (tx.body rt db)

/-- The increments of a transaction that runs its statements on the ledger as its session
sees it. -/
def Transaction.tallied (rt : Runtime) (db : Ledger) (tx : Transaction) : List TallyLabels :=
  (tx.bodyTallied rt (tx.session.view db)).2

/-! ## The counters read off the trail -/

/-- The reasons in a text of entries `reason:field`. -/
def reasonsOf (text : String) : List String :=
  (text.toList.splitOn ';').map fun entry => String.ofList (entry.takeWhile (· ≠ ':'))

/-- The labels of an event. -/
def Event.series (e : Event) : Source × String := (e.source,unknown e.conversionAction)

/-- What an entry of the trail tells of the counters. A rejection on receipt is not one of
the processor's. -/
def EventTransition.tallies (t : EventTransition) (series : Source × String) : List TallyLabels :=
  match t.toStatus with
  | .suppressed => t.reason.toList.map (.suppressed series.1 series.2)
  | .rejected =>
    if t.fromStatus = some .queued then
      (t.reason.toList.flatMap reasonsOf).map (.rejected series.1 series.2)
    else []
  | .uploaded => [.uploaded series.1 series.2]
  | _ => []

namespace Ledger

def series (db : Ledger) (k : String) : Option (Source × String) := (db.getEvent k).map Event.series

/-- What the whole trail tells of the counters, in its order. -/
def tallies (db : Ledger) : List TallyLabels :=
  db.transitions.rows.flatMap fun t => (db.series t.eventId).toList.flatMap t.tallies

end Ledger
end ConversionGateway
