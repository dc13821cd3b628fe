import ConversionGateway.Library.Metered
import ConversionGateway.Concurrency.Transaction

/-! # The dead-letter counter

`dead_letter` increments `conversions_dead_lettered_total` as it adds its row. The
row belongs to the transaction, the increment does not. The functions below are
those of the upload stage with the increments they make.
-/
namespace ConversionGateway

/-- The labels of `conversions_dead_lettered_total`. -/
structure DeadLetterLabels where
  source : Source
  conversionAction : String
  failureClass : FailureClass
deriving DecidableEq

/-- `value if value else "unknown"` -/
def unknown (value : Option String) : String :=
  match value with
  | none => "unknown"
  | some value => if value = "" then "unknown" else value

def DeadLetter.labels (row : DeadLetter) : DeadLetterLabels :=
  ⟨row.source,unknown row.conversionAction,row.failureClass⟩

/-- A computation that may increment the counter. -/
abbrev Counted := Metered PyError DeadLetterLabels

/-- `dead_letter` -/
def deadLetterCounted (db : Ledger) (event : Event) (failureClass : FailureClass) (reason : String)
    (errorCode errorMessage : Option String) (payload : Json) (now : Time) : Counted Ledger := do
  let db ← Metered.lift (deadLetter db event failureClass reason errorCode errorMessage payload now)
  Metered.count ⟨event.source,unknown event.conversionAction,failureClass⟩
  return db

section Uploads
variable (rt : Runtime) (st : Settings)

/-- The second loop of `claim`. -/
def claimItemCounted (now : Time) (acc : Ledger × List Claimed) (eventId : String) :
    Counted (Ledger × List Claimed) :=
  match acc.1.getEvent eventId with
  | none => pure acc
  | some event => do
    let conversion ← Metered.lift (buildConversion rt event st.adsCustomerId)
    if event.attemptCount > st.maxRowAttempts then do
      let db ← deadLetterCounted acc.1 event .poison
        ("poison:row_attempt_ceiling:" ++ toString (event.attemptCount - 1))
        (some "row_attempt_ceiling") event.statusReason conversion now
      return (db,acc.2)
    else return (acc.1,acc.2 ++ [⟨event.eventId,event.attemptCount,conversion⟩])

/-- `claim` -/
def claimCounted (db : Ledger) (selected : List String) (now : Time) : Counted (Ledger × List Claimed) := do
  let db ← Metered.lift (claimForUpload db selected now)
  Metered.loop (claimItemCounted rt st now) (db,[]) selected

end Uploads

/-- The outcome of one row. -/
def applyRowCounted (loaded : List String) (now : Time) (db : Ledger) (item : Claimed × RowResult) :
    Counted Ledger :=
  match if item.1.eventId ∈ loaded then db.getEvent item.1.eventId else none with
  | none => Metered.lift (.error (.keyError item.1.eventId))
  | some event =>
    if item.2.ok then do
      let (db,_) ← Metered.lift (transition db event .uploaded none now)
      return db
    else if classifyRowError item.2.code = .transient then do
      let (db,_) ← Metered.lift
        (transition db event .failedRetryable (some ("retryable_row:" ++ item.2.code)) now)
      return db
    else deadLetterCounted db event .partialFailure ("permanent_row:" ++ item.2.code) (some item.2.code)
      item.2.message item.1.conversion now

/-- `apply_result` -/
def applyResultCounted (db : Ledger) (loaded : List String) (batch : List Claimed) (rows : List RowResult)
    (now : Time) : Counted Ledger := do
  let db ← Metered.loop (applyRowCounted loaded now) db (batch.zip rows)
  Metered.lift (if batch.length = rows.length then .ok db else .error .valueError)

def deadLetterOneCounted (batch : List Claimed) (failure : BatchFailure) (now : Time) (db : Ledger)
    (eventId : String) : Counted Ledger :=
  match db.getEvent eventId with
  | none => pure db
  | some event => deadLetterCounted db event failure.failureClass failure.reason
    (some failure.errorCode) (some failure.errorMessage) (conversionOf batch eventId) now

/-- `_dead_letter_all` -/
def deadLetterAllCounted (db : Ledger) (loaded : List String) (batch : List Claimed)
    (failure : BatchFailure) (now : Time) : Counted Ledger :=
  Metered.loop (deadLetterOneCounted batch failure now) db loaded

/-- The statements of a transaction and the increments they make; `dead_letter` has
no caller outside of the upload stage. -/
def Transaction.bodyCounted (rt : Runtime) (db : Ledger) : Transaction → Counted (Ledger × Reply)
  | .claim st selected now => do
    let (db,items) ← claimCounted rt st db selected now
    return (db,.claimed items)
  | .apply batch loaded rows now => do
    let db ← applyResultCounted db (loaded.map Event.eventId) batch rows now
    return (db,.written)
  | .bury batch loaded failure now => do
    let db ← deadLetterAllCounted db (loaded.map Event.eventId) batch failure now
    return (db,.written)
  | tx => Metered.lift (tx.body rt db)

/-- The increments of a transaction that runs its statements on the ledger as its
session sees it. -/
def Transaction.counted (rt : Runtime) (db : Ledger) (tx : Transaction) : List DeadLetterLabels :=
  (tx.bodyCounted rt (tx.session.view db)).2

end ConversionGateway
