import ConversionGateway.Model.Conversion
import ConversionGateway.Model.DeadLetters

/-! # The upload stage

Claiming rows, batching them, and writing the outcome of a request back, row by
row. Each ledger function here is the body of one transaction; the order of the
transactions is the business of the process that runs them.
-/
namespace ConversionGateway

/-- The settings the uploader is built from, as `Settings` admits them; times
are in microseconds and `none` is an infinite wait. The ceiling of a row's
attempts is a parameter of its own, for which `build_uploader` takes the other one. -/
structure Settings where
  adsCustomerId : String
  uploadBatchSize : ℕ
  uploadBatchWait : Option Time
  uploadMaxAttempts : ℕ
  uploadRowRetryAfter : Time
  uploadStaleAfter : Time
  maxRowAttempts : ℕ
  batchSize_pos : 1 ≤ uploadBatchSize
  batchWait_nonneg : ∀ w ∈ uploadBatchWait, 0 ≤ w
  maxAttempts_pos : 1 ≤ uploadMaxAttempts
  rowRetryAfter_nonneg : 0 ≤ uploadRowRetryAfter
  staleAfter_pos : 1000000 ≤ uploadStaleAfter
  maxRowAttempts_pos : 1 ≤ maxRowAttempts

/-- The defaults, with batches of one row. -/
def Settings.single : Settings where
  adsCustomerId := "1234567890"
  uploadBatchSize := 1
  uploadBatchWait := some 5000000
  uploadMaxAttempts := 6
  uploadRowRetryAfter := 60000000
  uploadStaleAfter := 600000000
  maxRowAttempts := 6
  batchSize_pos := by decide
  batchWait_nonneg := by simp
  maxAttempts_pos := by decide
  rowRetryAfter_nonneg := by decide
  staleAfter_pos := by decide
  maxRowAttempts_pos := by decide

/-- A row held for this upload cycle, with the conversion built at claim time. -/
structure Claimed where
  eventId : String
  attemptCount : ℕ
  conversion : Json

structure RowResult where
  index : ℕ
  ok : Bool
  errorCode : Option String
  message : Option String
deriving DecidableEq, Repr

/-- How a call of the upload client ends. -/
inductive UploadOutcome
  | result (rows : List RowResult)
  | transient (reason : String)
  | permanent (reason : String)
deriving DecidableEq, Repr

structure Batcher (T : Type) where
  items : List T
  oldestAt : Option Time

namespace Batcher
variable {T : Type}

def empty : Batcher T := ⟨[],none⟩

def flush (b : Batcher T) : List T × Batcher T := (b.items,empty)

/-- Add one item; the batch if this filled it. -/
def add (maxSize : ℕ) (b : Batcher T) (item : T) (now : Time) : Option (List T) × Batcher T :=
  let b : Batcher T := ⟨b.items ++ [item],some (b.oldestAt.getD now)⟩
  if maxSize ≤ b.items.length then (some b.items,b.flush.2) else (none,b)

/-- The batch if the oldest item has waited long enough. -/
def flushIfDue (maxWait : Option Time) (b : Batcher T) (now : Time) : Option (List T) × Batcher T :=
  match b.oldestAt, maxWait with
  | some oldest, some wait => if wait ≤ now - oldest then (some b.items,b.flush.2) else (none,b)
  | _, _ => (none,b)

/-- Add the claimed items; the last batch that was filled, if any. -/
def addAll (maxSize : ℕ) (now : Time) : Option (List T) → Batcher T → List T → Option (List T) × Batcher T
  | batch, b, [] => (batch,b)
  | batch, b, item :: rest =>
    let (full,b) := b.add maxSize item now
    addAll maxSize now (full.or batch) b rest

end Batcher

/-- The batch of one cycle, after the claim returned `items`. -/
def cycleBatch (st : Settings) (b : Batcher Claimed) (items : List Claimed) (now : Time) :
    Option (List Claimed) × Batcher Claimed :=
  match Batcher.addAll st.uploadBatchSize now none b items with
  | (some batch,b) => (some batch,b)
  | (none,b) => b.flushIfDue st.uploadBatchWait now

section Transactions
variable (rt : Runtime) (st : Settings)

/-- The second loop of `claim`: a row over the attempt ceiling is dead-lettered,
any other is handed out. -/
def claimItem (now : Time) (acc : Ledger × List Claimed) (eventId : String) :
    Except PyError (Ledger × List Claimed) :=
  match acc.1.getEvent eventId with
  | none => .ok acc
  | some event => do
    let conversion ← buildConversion rt event st.adsCustomerId
    if event.attemptCount > st.maxRowAttempts then do
      let db ← deadLetter acc.1 event .poison
        ("poison:row_attempt_ceiling:" ++ toString (event.attemptCount - 1))
        (some "row_attempt_ceiling") event.statusReason conversion now
      return (db,acc.2)
    else return (acc.1,acc.2 ++ [⟨event.eventId,event.attemptCount,conversion⟩])

/-- `claim` on the rows its SELECT returned. -/
def claim (db : Ledger) (selected : List String) (now : Time) : Except PyError (Ledger × List Claimed) := do
  let db ← claimForUpload db selected now
  Outcome.loop (claimItem rt st now) (db,[]) selected

end Transactions

/-- One iteration of `on_retry`; every iteration reads the clock itself. -/
def retryRow (reason : String) (db : Ledger) (item : String × Time) : Except PyError Ledger :=
  match db.getEvent item.1 with
  | none => .ok db
  | some event => recordRetryAttempt db event ("transient:" ++ reason) item.2

/-- `on_retry` over the events that were loaded. -/
def onRetry (db : Ledger) (loaded : List String) (reason : String) (stamps : List Time) :
    Except PyError Ledger := Outcome.loop (retryRow reason) db (loaded.zip stamps)

def retryableRowErrors : List String := ["TOO_RECENT_CONVERSION"]

def classifyRowError (code : String) : FailureClass :=
  if code ∈ retryableRowErrors then .transient else .permanent

/-- `row.error_code or "UNKNOWN"` -/
def RowResult.code (row : RowResult) : String :=
  match row.errorCode with
  | none => "UNKNOWN"
  | some code => if code = "" then "UNKNOWN" else code

/-- The state in which `apply_result` leaves the event of a row. -/
def RowResult.status (row : RowResult) : EventStatus :=
  if row.ok then .uploaded
  else if classifyRowError row.code = .transient then .failedRetryable else .deadLettered

/-- The reason it notes. -/
def RowResult.reason (row : RowResult) : Option String :=
  if row.ok then none
  else if classifyRowError row.code = .transient then some ("retryable_row:" ++ row.code)
  else some ("permanent_row:" ++ row.code)

/-- The outcome of one row; `loaded` are the events the transaction has read. -/
def applyRow (loaded : List String) (now : Time) (db : Ledger) (item : Claimed × RowResult) :
    Except PyError Ledger :=
  match if item.1.eventId ∈ loaded then db.getEvent item.1.eventId else none with
  | none => .error (.keyError item.1.eventId)
  | some event =>
    if item.2.ok then do
      let (db,_) ← transition db event .uploaded none now
      return db
    else if classifyRowError item.2.code = .transient then do
      let (db,_) ← transition db event .failedRetryable (some ("retryable_row:" ++ item.2.code)) now
      return db
    else deadLetter db event .partialFailure ("permanent_row:" ++ item.2.code) (some item.2.code)
      item.2.message item.1.conversion now

/-- Per-row outcomes by index; a result of another length raises. -/
def applyResult (db : Ledger) (loaded : List String) (batch : List Claimed) (rows : List RowResult)
    (now : Time) : Except PyError Ledger := do
  let db ← Outcome.loop (applyRow loaded now) db (batch.zip rows)
  if batch.length = rows.length then return db else throw .valueError

/-- Why a whole batch is dead-lettered. -/
structure BatchFailure where
  failureClass : FailureClass
  reason : String
  errorCode : String
  errorMessage : String
deriving DecidableEq, Repr

def permanentFailure (reason : String) : BatchFailure :=
  ⟨.permanent,"permanent:" ++ reason,reason,reason⟩

def poisonFailure (reason : String) (attempts : ℕ) : BatchFailure :=
  ⟨.poison,"poison:" ++ reason ++ ":after_" ++ toString attempts ++ "_attempts",reason,
    "gave up after " ++ toString attempts ++ " attempts; last error " ++ reason⟩

/-- `by_id[event_id].conversion`: the last item of the batch under the id. -/
def conversionOf (batch : List Claimed) (eventId : String) : Json :=
  match batch.reverse.find? (fun c => c.eventId = eventId) with
  | none => .null
  | some c => c.conversion

def deadLetterOne (batch : List Claimed) (failure : BatchFailure) (now : Time) (db : Ledger)
    (eventId : String) : Except PyError Ledger :=
  match db.getEvent eventId with
  | none => .ok db
  | some event => deadLetter db event failure.failureClass failure.reason (some failure.errorCode)
    (some failure.errorMessage) (conversionOf batch eventId) now

/-- `_dead_letter_all` over the events that were loaded. -/
def deadLetterAll (db : Ledger) (loaded : List String) (batch : List Claimed) (failure : BatchFailure)
    (now : Time) : Except PyError Ledger := Outcome.loop (deadLetterOne batch failure now) db loaded

end ConversionGateway
