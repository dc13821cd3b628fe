import ConversionGateway.Concurrency.Session
import ConversionGateway.Model.Ingest
import ConversionGateway.Model.Processor
import ConversionGateway.Model.Uploader

/-! # Transactions

The units in which the processes touch the ledger. Each carries what it has read
so far; `commit` runs its body on the session's view and writes the result back.
-/
namespace ConversionGateway

inductive Transaction
  | ingest (source : Source) (plan : IngestPlan) (correlationId : CorrelationId) (now : Time)
  | process (message : QueueMessage) (loaded : Option Event) (now : Time)
  | claim (st : Settings) (selected : List String) (now : Time)
  | retry (ids : List String) (loaded : List Event) (reason : String) (stamps : List Time)
  | apply (batch : List Claimed) (loaded : List Event) (rows : List RowResult) (now : Time)
  | bury (batch : List Claimed) (loaded : List Event) (failure : BatchFailure) (now : Time)
  | replay (letter : DeadLetter) (loaded : Option Event) (now : Time)

/-- What a transaction hands to the process that ran it. -/
inductive Reply
  | ingested (i : Ingested)
  | processed (outcome : ProcessOutcome)
  | claimed (items : List Claimed)
  | written
  | replayed (message : Option QueueMessage)

def Reply.items : Reply → List Claimed
  | claimed items => items
  | _ => []

/-- The events of `ids` that were found, in the order and multiplicity of `ids`. -/
def found (ids : List String) (loaded : List Event) : List String :=
  ids.filter fun id => loaded.any fun e => e.eventId = id

namespace Transaction

/-- The rows read without a lock; the rows of a claim are locked by its SELECT. -/
def session : Transaction → Session
  | ingest .. => Session.empty
  | process _ loaded _ => ⟨loaded.toList,[]⟩
  | claim .. => Session.empty
  | retry _ loaded _ _ => ⟨loaded,[]⟩
  | apply _ loaded _ _ => ⟨loaded,[]⟩
  | bury _ loaded _ _ => ⟨loaded,[]⟩
  | replay letter loaded _ => ⟨loaded.toList,[letter]⟩

/-- The statements of the transaction, on the ledger as its session sees it. -/
def body (rt : Runtime) (db : Ledger) : Transaction → Except PyError (Ledger × Reply)
  | ingest source plan correlationId now => do
    let (db,i) ← ingestBody rt db correlationId now source plan
    return (db,.ingested i)
  | process message loaded now => do
    let (db,outcome) ← processMessage rt db loaded message now
    return (db,.processed outcome)
  | claim st selected now => do
    let (db,items) ← ConversionGateway.claim rt st db selected now
    return (db,.claimed items)
  | retry ids loaded reason stamps => do
    let db ← onRetry db (found ids loaded) reason stamps
    return (db,.written)
  | apply batch loaded rows now => do
    let db ← applyResult db (loaded.map Event.eventId) batch rows now
    return (db,.written)
  | bury batch loaded failure now => do
    let db ← deadLetterAll db (loaded.map Event.eventId) batch failure now
    return (db,.written)
  | replay letter loaded now => do
    let (db,message) ← ConversionGateway.replay db letter loaded now
    return (db,.replayed message)

/-- Run the body and commit, or fail and leave nothing behind. -/
def commit (rt : Runtime) (db : Ledger) (tx : Transaction) : Except PyError (Ledger × Reply) := do
  let (out,reply) ← tx.body rt (tx.session.view db)
  let db := tx.session.flush db out
  if db.fits then return (db,reply) else throw .dataError

theorem commit_ok {rt : Runtime} {db db' : Ledger} {tx : Transaction} {reply : Reply} :
    tx.commit rt db = .ok (db',reply) ↔ ∃ out, tx.body rt (tx.session.view db) = .ok (out,reply) ∧
      tx.session.flush db out = db' ∧ db'.fits = true := by
  unfold commit
  rw [Outcome.bind_ok]
  constructor
  · rintro ⟨⟨out,r⟩,hb,h⟩
    dsimp only at h
    split at h
    · next hf =>
      obtain ⟨rfl,rfl⟩ := Prod.mk.inj (Except.ok.inj h)
      exact ⟨out,hb,rfl,hf⟩
    · exact absurd h (by simp)
  · rintro ⟨out,hb,rfl,hf⟩
    exact ⟨(out,reply),hb,by simp [hf,pure,Except.pure]⟩

/-- With nothing stale in its session a transaction is its body. -/
theorem commit_fresh {rt : Runtime} {db db' : Ledger} {tx : Transaction} {reply : Reply}
    (hf : tx.session.Fresh db) (h : tx.commit rt db = .ok (db',reply)) :
    tx.body rt db = .ok (db',reply) ∧ db'.fits = true := by
  obtain ⟨out,hb,rfl,hfit⟩ := commit_ok.mp h
  rw [hf.view_eq] at hb
  rw [hf.flush_eq] at hfit ⊢
  exact ⟨hb,hfit⟩

/-- It commits if what the body leaves fits the columns. -/
theorem commit_of_fresh {rt : Runtime} {db out : Ledger} {tx : Transaction} {reply : Reply}
    (hf : tx.session.Fresh db) (hb : tx.body rt db = .ok (out,reply)) (hfits : out.fits = true) :
    tx.commit rt db = .ok (out,reply) := by
  refine commit_ok.mpr ⟨out,?_,hf.flush_eq,hfits⟩
  rw [hf.view_eq]
  exact hb

end Transaction
end ConversionGateway
