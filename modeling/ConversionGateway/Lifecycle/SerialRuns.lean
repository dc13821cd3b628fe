import ConversionGateway.Library.Machine
import ConversionGateway.Lifecycle.Edits

/-! # Serial runs

Transactions one at a time. Each reads its rows as it begins, and commits or
leaves nothing behind but unused sequence numbers. An invariant that every edit
keeps holds after every serial run.
-/
namespace ConversionGateway

/-- A call of one of the operations, before it has read anything. -/
inductive Operation
  | ingest (source : Source) (plan : IngestPlan) (correlationId : CorrelationId) (now : Time)
  | process (message : QueueMessage) (now : Time)
  | claim (st : Settings) (selected : List String) (now : Time)
  | retry (ids : List String) (reason : String) (stamps : List Time)
  | apply (batch : List Claimed) (rows : List RowResult) (now : Time)
  | bury (batch : List Claimed) (failure : BatchFailure) (now : Time)
  | replay (id : ℕ) (now : Time)

/-- `_load` -/
def load (db : Ledger) (ids : List String) : List Event := ids.eraseDups.filterMap db.getEvent

/-- `list(by_id)`: the ids of a batch, each once. -/
def batchIds (batch : List Claimed) : List String := batch.map Claimed.eventId

/-- The transaction of an operation, with its rows as they stand; a replay of a
record that is not there fails its assertion. -/
def Operation.begin (db : Ledger) : Operation → Option Transaction
  | ingest source plan correlationId now => some (.ingest source plan correlationId now)
  | process message now => some (.process message (db.getEvent message.eventId) now)
  | claim st selected now => some (.claim st selected now)
  | retry ids reason stamps => some (.retry ids (load db ids) reason stamps)
  | apply batch rows now => some (.apply batch (load db (batchIds batch)) rows now)
  | bury batch failure now => some (.bury batch (load db (batchIds batch)) failure now)
  | replay id now => (db.getDeadLetter id).map fun letter =>
      .replay letter (db.getEvent letter.eventId) now

inductive SerialAction
  | commit (op : Operation)
  | abort (transitionIds letterIds : ℕ)

def serialStep (rt : Runtime) (db : Ledger) : SerialAction → Option Ledger
  | .commit op =>
    match op.begin db with
    | none => none
    | some tx =>
      match tx.commit rt db with
      | .error _ => none
      | .ok (db',_) => some db'
  | .abort n m =>
    some { db with transitions := db.transitions.skip n, deadLetters := db.deadLetters.skip m }

abbrev serialRun (rt : Runtime) : Ledger → List SerialAction → Option Ledger :=
  Machine.run (serialStep rt)

section Fresh
variable {db : Ledger}

theorem mem_load {ids : List String} {e : Event} (h : e ∈ load db ids) :
    db.getEvent e.eventId = some e := by
  obtain ⟨id,_,he⟩ := List.mem_filterMap.mp h
  exact getEvent_self he

theorem begin_fresh (op : Operation) {tx : Transaction} (h : op.begin db = some tx) :
    tx.session.Fresh db ∧ tx.Paired := by
  cases op with
  | ingest source plan correlationId now =>
    cases h
    exact ⟨Session.fresh_empty db,trivial⟩
  | process message now =>
    cases h
    refine ⟨⟨fun e he => ?_,by simp [Transaction.session]⟩,trivial⟩
    exact getEvent_self (by simpa [Transaction.session] using he)
  | claim st selected now =>
    cases h
    exact ⟨Session.fresh_empty db,trivial⟩
  | retry ids reason stamps =>
    cases h
    exact ⟨⟨fun e he => mem_load he,by simp [Transaction.session]⟩,trivial⟩
  | apply batch rows now =>
    cases h
    exact ⟨⟨fun e he => mem_load he,by simp [Transaction.session]⟩,trivial⟩
  | bury batch failure now =>
    cases h
    exact ⟨⟨fun e he => mem_load he,by simp [Transaction.session]⟩,trivial⟩
  | replay id now =>
    obtain ⟨letter,hl,rfl⟩ := Option.map_eq_some_iff.mp h
    refine ⟨⟨fun e he => ?_,fun d hd => ?_⟩,fun e he => ?_⟩
    · exact getEvent_self (by simpa [Transaction.session] using he)
    · have hd : d = letter := by simpa [Transaction.session] using hd
      subst hd
      rwa [Relational.Journal.get_serial hl]
    · exact (Ledger.getEvent_eventId he).symm

end Fresh

theorem serialStep_edits {rt : Runtime} {db db' : Ledger} {a : SerialAction}
    (h : serialStep rt db a = some db') : Edits rt db db' := by
  cases a with
  | abort n m =>
    cases h
    exact .single (.skip n m)
  | commit op =>
    simp only [serialStep] at h
    split at h
    · cases h
    · next tx hb =>
      split at h
      · cases h
      · next reply hc =>
        cases h
        obtain ⟨hf,hp⟩ := begin_fresh _ hb
        exact Transaction.body_edits hf hp (Transaction.commit_fresh hf hc).1

/-- An invariant of the empty ledger that every edit keeps holds in every
reachable ledger. -/
theorem serialRun_inv {rt : Runtime} (I : Ledger → Prop) (hempty : I Ledger.empty)
    (hedit : ∀ db db', I db → Edit rt db db' → I db') {actions : List SerialAction} {db : Ledger}
    (h : serialRun rt Ledger.empty actions = some db) : I db :=
  Machine.run_inv' I (fun _ _ _ hs hst => Edits.inv hedit hs (serialStep_edits hst)) hempty h

/-- One event to the dead-letter store and back, with a rollback on the way. -/
def buryAndReplay : List SerialAction :=
  [.commit (.ingest .hubspot (planIngest (clickRuntime 1704067200000) .hubspot (clickBody 1704067200000)
      .zero) .zero 0),
    .commit (.process ⟨"hubspot:1",.blank,0,none⟩ 0), .commit (.claim .single ["hubspot:1"] 0),
    .abort 1 1, .commit (.bury [⟨"hubspot:1",1,.null⟩] (permanentFailure "http_401") 0),
    .commit (.replay 2 0)]

end ConversionGateway
