import ConversionGateway.Library.Delivery
import ConversionGateway.Lifecycle.SerialRuns

/-! # The processes

What each process holds between two of its steps, and the steps that leave the
ledger alone. A process reads the ledger as it is committed at that moment; what
it writes goes through its transaction.
-/
namespace ConversionGateway

abbrev MessageQueue := Delivery.Queue QueueMessage

/-! ## Webhook requests -/

/-- An authenticated delivery. -/
structure WebhookCall where
  source : Source
  plan : IngestPlan
  correlationId : CorrelationId
  now : Time

namespace WebhookCall

def eventId (c : WebhookCall) : Option String := c.plan.eventId c.source

def transaction (c : WebhookCall) : Transaction := .ingest c.source c.plan c.correlationId c.now

end WebhookCall

/-- One request; it ends answered, failed by an escaping exception, or lost with
the process that served it. -/
inductive Request
  | idle
  | planned (call : WebhookCall)
  | recorded (call : WebhookCall) (i : Ingested)
  | answered (call : WebhookCall) (response : Response)
  | failed (call : WebhookCall)
  | lost (call : WebhookCall)

inductive RequestAction
  | deliver (source : Source) (body : ByteArray) (correlationId : CorrelationId)
  | raise
  | publish
  | publishFails
  | answer

namespace Request

/-- A step of a request; the last component is the event whose message went out. -/
def step (rt : Runtime) (clock : Time) (db : Ledger) (q : MessageQueue) :
    Request → RequestAction → Option (Request × MessageQueue × Option String)
  | idle, .deliver source body correlationId =>
    some (planned ⟨source,planIngest rt source body correlationId,correlationId,clock⟩,q,none)
  | planned call, .raise =>
    match call.transaction.commit rt db with
    | .error _ => some (failed call,q,none)
    | .ok _ => none
  | recorded call i, .publish =>
    i.message.map fun m => (answered call i.response,q.publish m,some m.eventId)
  | recorded call i, .publishFails => i.message.map fun _ => (answered call i.response,q,none)
  | recorded call i, .answer => if i.message = none then some (answered call i.response,q,none) else none
  | _, _ => none

def transaction : Request → Option Transaction
  | planned call => some call.transaction
  | _ => none

/-- The request goes on after its commit. -/
def committed : Request → Reply → Request
  | planned call, .ingested i => recorded call i
  | r, _ => r

def crash : Request → Request
  | planned call => lost call
  | recorded call _ => lost call
  | r => r

/-- The delivery, once there is one. -/
def call : Request → Option WebhookCall
  | idle => none
  | planned c => some c
  | recorded c _ => some c
  | answered c _ => some c
  | failed c => some c
  | lost c => some c

end Request

/-! ## Workers -/

/-- A worker takes its time from the clock before it reads the row. -/
inductive Worker
  | idle
  | received (id : ℕ) (message : QueueMessage) (now : Time)
  | loaded (id : ℕ) (message : QueueMessage) (row : Option Event) (now : Time)
  | done (id : ℕ)
  | failed (id : ℕ)

/-- Messages are received in batches; `handle` is the turn of one that had to wait. -/
inductive WorkerAction
  | receive (id : ℕ)
  | handle
  | read
  | raise
  | ack
  | nack

namespace Worker

def step (clock : Time) (db : Ledger) (q : MessageQueue) :
    Worker → WorkerAction → Option (Worker × MessageQueue)
  | idle, .receive id => (q.receive id).map fun p => (received id p.1 clock,p.2)
  | received id message _, .handle => some (received id message clock,q)
  | received id message now, .read => some (loaded id message (db.getEvent message.eventId) now,q)
  | received id _ _, .raise => some (failed id,q)
  | loaded id _ _ _, .raise => some (failed id,q)
  | done id, .ack => some (idle,q.ack id)
  | failed id, .nack => some (idle,q.release id)
  | _, _ => none

def transaction : Worker → Option Transaction
  | loaded _ message row now => some (.process message row now)
  | _ => none

def committed : Worker → Worker
  | loaded id _ _ _ => done id
  | w => w

/-- The rows the worker's transaction has read. -/
def rows : Worker → List Event
  | loaded _ _ row _ => row.toList
  | _ => []

end Worker

/-! ## Uploaders -/

/-- What is to be written after the last attempt of a batch. -/
inductive Verdict
  | rows (rows : List RowResult)
  | failure (failure : BatchFailure)

inductive Phase
  | idle
  | cycle (now : Time)
  | selected (now : Time) (ids : List String)
  | ready (now : Time) (batch : List Claimed) (attempt : ℕ)
  | sending (now : Time) (batch : List Claimed) (attempt : ℕ)
  | retrying (now : Time) (batch : List Claimed) (attempt : ℕ) (reason : String) (loaded : List Event)
      (pending : List String) (stamps : List Time)
  | settling (now : Time) (batch : List Claimed) (verdict : Verdict) (loaded : List Event)
      (pending : List String)

structure Uploader where
  batcher : Batcher Claimed
  phase : Phase

inductive UploaderAction
  | begin
  | select (ids : List String)
  | skip
  | send
  | finish (outcome : UploadOutcome)
  | retry (reason : String)
  | load
  | stamp

/-- Row locks: the row and the uploader that holds it. -/
abbrev Locks := List (String × ℕ)

/-- The SELECT may lock these rows: no more than there is room for, each eligible
as it is committed, none locked. -/
def Selectable (st : Settings) (db : Ledger) (locks : Locks) (now : Time) (room : ℕ)
    (ids : List String) : Prop :=
  ids.Nodup ∧ ids.length ≤ room ∧ ∀ id ∈ ids,
    (db.getEvent id).any (eligible now st.uploadRowRetryAfter st.uploadStaleAfter) = true ∧
      ∀ l ∈ locks, l.1 ≠ id

instance (st : Settings) (db : Ledger) (locks : Locks) (now : Time) (room : ℕ) (ids : List String) :
    Decidable (Selectable st db locks now room ids) := inferInstanceAs (Decidable (_ ∧ _ ∧ _))

namespace Uploader

def fresh : Uploader := ⟨Batcher.empty,.idle⟩

/-- The cycle goes on with the items of its claim. -/
def withClaim (st : Settings) (u : Uploader) (items : List Claimed) (now : Time) : Uploader :=
  match cycleBatch st u.batcher items now with
  | (none,b) => ⟨b,.idle⟩
  | (some [],b) => ⟨b,.idle⟩
  | (some batch,b) => ⟨b,.ready now batch 1⟩

def room (st : Settings) (u : Uploader) : ℕ := st.uploadBatchSize - u.batcher.items.length

/-- The verdict that ends the attempts of a batch. -/
def verdict (attempt : ℕ) : UploadOutcome → Verdict
  | .result rows => .rows rows
  | .permanent reason => .failure (permanentFailure reason)
  | .transient reason => .failure (poisonFailure reason attempt)

/-- A step of uploader `n`; the last component is what it passed to the client. -/
def step (st : Settings) (n : ℕ) (clock : Time) (db : Ledger) (locks : Locks) (u : Uploader) :
    UploaderAction → Option (Uploader × Locks × Option (List Json))
  | .begin =>
    match u.phase with
    | .idle => some (⟨u.batcher,.cycle clock⟩,locks,none)
    | _ => none
  | .select ids =>
    match u.phase with
    | .cycle now =>
      if 0 < u.room st ∧ Selectable st db locks now (u.room st) ids then
        some (⟨u.batcher,.selected now ids⟩,locks ++ ids.map fun id => (id,n),none)
      else none
    | _ => none
  | .skip =>
    match u.phase with
    | .cycle now => if u.room st = 0 then some (u.withClaim st [] now,locks,none) else none
    | _ => none
  | .send =>
    match u.phase with
    | .ready now batch attempt =>
      some (⟨u.batcher,.sending now batch attempt⟩,locks,some (batch.map Claimed.conversion))
    | _ => none
  | .finish outcome =>
    match u.phase with
    | .sending now batch attempt =>
      some (⟨u.batcher,.settling now batch (verdict attempt outcome) [] (batchIds batch).eraseDups⟩,
        locks,none)
    | _ => none
  | .retry reason =>
    match u.phase with
    | .sending now batch attempt =>
      if attempt < st.uploadMaxAttempts then
        some (⟨u.batcher,.retrying now batch attempt reason [] (batchIds batch).eraseDups []⟩,locks,none)
      else none
    | _ => none
  | .load =>
    match u.phase with
    | .retrying now batch attempt reason loaded (id :: pending) stamps =>
      some (⟨u.batcher,.retrying now batch attempt reason (loaded ++ (db.getEvent id).toList) pending
        stamps⟩,locks,none)
    | .settling now batch verdict loaded (id :: pending) =>
      some (⟨u.batcher,.settling now batch verdict (loaded ++ (db.getEvent id).toList) pending⟩,
        locks,none)
    | _ => none
  | .stamp =>
    match u.phase with
    | .retrying now batch attempt reason loaded [] stamps =>
      if stamps.length < (found (batchIds batch) loaded).length then
        some (⟨u.batcher,.retrying now batch attempt reason loaded [] (stamps ++ [clock])⟩,locks,none)
      else none
    | _ => none

def transaction (st : Settings) (u : Uploader) : Option Transaction :=
  match u.phase with
  | .selected now ids => some (.claim st ids now)
  | .retrying _ batch _ reason loaded [] stamps =>
    if stamps.length = (found (batchIds batch) loaded).length then
      some (.retry (batchIds batch) loaded reason stamps)
    else none
  | .settling now batch (.rows rows) loaded [] => some (.apply batch loaded rows now)
  | .settling now batch (.failure failure) loaded [] => some (.bury batch loaded failure now)
  | _ => none

def committed (st : Settings) (u : Uploader) (reply : Reply) : Uploader :=
  match u.phase with
  | .selected now _ => u.withClaim st reply.items now
  | .retrying now batch attempt _ _ _ _ => ⟨u.batcher,.ready now batch (attempt + 1)⟩
  | .settling .. => ⟨u.batcher,.idle⟩
  | _ => u

/-- The rows the uploader's open transaction has read without a lock. -/
def rows (u : Uploader) : List Event :=
  match u.phase with
  | .retrying _ _ _ _ loaded _ _ => loaded
  | .settling _ _ _ loaded _ => loaded
  | _ => []

/-- The batch that left the batcher and is not finished. -/
def batch (u : Uploader) : List Claimed :=
  match u.phase with
  | .ready _ batch _ => batch
  | .sending _ batch _ => batch
  | .retrying _ batch _ _ _ _ _ => batch
  | .settling _ batch _ _ _ => batch
  | _ => []

/-- Everything the uploader claimed and is not done with. -/
def held (u : Uploader) : List Claimed := u.batcher.items ++ u.batch

end Uploader

/-! ## Replay commands -/

/-- The message a replay hands to its publisher, if it gets that far. -/
def replayMessage (letter : DeadLetter) (event : Option Event) (now : Time) : Option QueueMessage :=
  match event with
  | none => none
  | some e =>
    if letter.replayedAt = none ∧ e.status = .deadLettered then
      some ⟨e.eventId,.blank,now,e.correlationId⟩
    else none

theorem replay_message {db out : Ledger} {letter : DeadLetter} {event : Option Event} {now : Time}
    {message : Option QueueMessage} (h : replay db letter event now = .ok (out,message)) :
    message = replayMessage letter event now := by
  unfold replay at h
  split at h
  · next hr =>
    cases h
    cases event <;> simp [replayMessage,hr]
  · next hr =>
    split at h
    · cases h
      rfl
    · next e =>
      split at h
      · next hd =>
        cases h
        simp [replayMessage,hd]
      · next hd =>
        obtain ⟨⟨db₁,e₁⟩,ht,h⟩ := Outcome.bind_ok.mp h
        obtain ⟨_,rfl,rfl⟩ := transition_ok ht
        cases h
        simp only [ne_eq, not_not] at hr hd
        simp [replayMessage,hr,hd,Event.moved]

theorem replayMessage_event {letter : DeadLetter} {event : Option Event} {now : Time} {m : QueueMessage}
    (h : replayMessage letter event now = some m) : ∃ e, event = some e ∧ m.eventId = e.eventId := by
  cases event with
  | none => cases h
  | some e =>
    simp only [replayMessage] at h
    split at h
    · cases h
      exact ⟨e,rfl,rfl⟩
    · cases h

inductive Replayer
  | idle
  | picked (letter : DeadLetter) (now : Time)
  | loaded (letter : DeadLetter) (row : Option Event) (now : Time)
  | published (letter : DeadLetter) (row : Option Event) (now : Time) (id : ℕ)

inductive ReplayerAction
  | pick (id : ℕ) (now : Time)
  | load
  | publish

namespace Replayer

def step (db : Ledger) (q : MessageQueue) :
    Replayer → ReplayerAction → Option (Replayer × MessageQueue)
  | idle, .pick id now => (db.getDeadLetter id).map fun letter => (picked letter now,q)
  | picked letter now, .load => some (loaded letter (db.getEvent letter.eventId) now,q)
  | loaded letter row now, .publish =>
    (replayMessage letter row now).map fun m => (published letter row now q.next,q.publish m)
  | _, _ => none

/-- The commit comes after the publication, if there is anything to publish. -/
def transaction : Replayer → Option Transaction
  | loaded letter row now =>
    if replayMessage letter row now = none then some (.replay letter row now) else none
  | published letter row now _ => some (.replay letter row now)
  | _ => none

def rows : Replayer → List Event
  | loaded _ row _ => row.toList
  | published _ row _ _ => row.toList
  | _ => []

def letters : Replayer → List DeadLetter
  | idle => []
  | picked letter _ => [letter]
  | loaded letter _ _ => [letter]
  | published letter _ _ _ => [letter]

end Replayer

/-! ## Reconcile commands -/

/-- The messages that `reconcile --republish` sends, of the events it finds stuck. -/
def reconcile (db : Ledger) (threshold now : Time) : List QueueMessage :=
  ((findStuckQueued db threshold).filter fun e =>
    e.matchKeyType = some .clickId || e.hashedIdentifiers.isSome).map fun e =>
      ⟨e.eventId,.blank,now,e.correlationId⟩

inductive ReconcilerAction
  | scan (threshold now : Time)
  | republish

/-- The state of a reconcile command is the messages it still has to publish. -/
def reconcilerStep (db : Ledger) (q : MessageQueue) :
    List QueueMessage → ReconcilerAction → Option (List QueueMessage × MessageQueue)
  | [], .scan threshold now => some (reconcile db threshold now,q)
  | m :: rest, .republish => some (rest,q.publish m)
  | _, _ => none

end ConversionGateway
