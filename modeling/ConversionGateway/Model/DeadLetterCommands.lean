import ConversionGateway.Library.Like
import ConversionGateway.Library.Ranking
import ConversionGateway.Model.DeadLetters

/-! # The dead-letter commands

The filter of `dlq list` and `dlq replay`, its query, and the loop that replays the
candidates one transaction each.
-/
namespace ConversionGateway

/-- What `dlq list` and `dlq replay` select on. All optional and ANDed. -/
structure DlqFilter where
  eventId : Option String
  source : Option String
  failureClass : Option String
  reasonPrefix : Option String
  since : Option Time
  untilTime : Option Time
  includeReplayed : Bool

namespace DlqFilter

/-- `if value: stmt = stmt.where(..)` -/
def whenTrue (p : String → Bool) : Option String → Bool
  | none => true
  | some s => s = "" || p s

/-- The WHERE clause of the query. -/
def selects (flt : DlqFilter) (d : DeadLetter) : Bool :=
  (flt.includeReplayed || d.replayedAt = none) &&
    whenTrue (fun s => d.eventId = s) flt.eventId &&
    whenTrue (fun s => d.source.value = s) flt.source &&
    whenTrue (fun s => d.failureClass.value = s) flt.failureClass &&
    whenTrue (fun s => Like.startswith s d.reason) flt.reasonPrefix &&
    flt.since.all (fun t => decide (t ≤ d.deadLetteredAt)) &&
    flt.untilTime.all (fun t => decide (d.deadLetteredAt < t))

/-- The filter of `dlq replay --reason text`. -/
def byReason (text : String) : DlqFilter := ⟨none,none,none,some text,none,none,false⟩

end DlqFilter

/-- What the query may return: the rows selected, newest first and rows of one time
in any order, up to the limit. -/
def Listing (db : Ledger) (flt : DlqFilter) (limit : ℕ) (rows : List DeadLetter) : Prop :=
  ∃ order, Ranking.Ordered DeadLetter.deadLetteredAt (db.deadLetters.rows.filter flt.selects) order ∧
    rows = order.take limit

/-- The listing that keeps rows of one time in the order of their ids. -/
def listDeadLetters (db : Ledger) (flt : DlqFilter) (limit : ℕ) : List DeadLetter :=
  ((db.deadLetters.rows.filter flt.selects).insertionSort
    fun a b => b.deadLetteredAt ≤ a.deadLetteredAt).take limit

theorem listDeadLetters_listing (db : Ledger) (flt : DlqFilter) (limit : ℕ) :
    Listing db flt limit (listDeadLetters db flt limit) :=
  ⟨_,Ranking.ordered_insertionSort DeadLetter.deadLetteredAt _,rfl⟩

theorem Listing.mem {db : Ledger} {flt : DlqFilter} {limit : ℕ} {rows : List DeadLetter} {d : DeadLetter}
    (h : Listing db flt limit rows) (hd : d ∈ rows) : d ∈ db.deadLetters.rows := by
  obtain ⟨order,horder,rfl⟩ := h
  exact (List.mem_filter.mp (horder.perm.mem_iff.mp (List.mem_of_mem_take hd))).1

/-- Whether a message is accepted, given those that were. -/
abbrev Publisher := List QueueMessage → QueueMessage → Bool

/-- How far a bulk replay has come: the ledger, the messages the queue has accepted
and the records that were replayed. -/
structure BulkReplay where
  ledger : Ledger
  sent : List QueueMessage
  replayed : List ℕ

/-- One candidate, in a transaction of its own. An error is an exception that ends
the command; what it holds is what the command leaves. -/
def replayCandidate (publish : Publisher) (now : Time) (b : BulkReplay) (id : ℕ) :
    Except BulkReplay BulkReplay :=
  match b.ledger.getDeadLetter id with
  | none => .error b
  | some row =>
    match replay b.ledger row (b.ledger.getEvent row.eventId) now with
    | .error _ => .error b
    | .ok (_,none) => .ok b
    | .ok (db,some message) =>
      if publish b.sent message then
        if db.fits then .ok ⟨db,b.sent ++ [message],b.replayed ++ [row.id]⟩
        else .error { b with sent := b.sent ++ [message] }
      else .error b

/-- The candidates of `dlq replay`, by id or by filter. -/
inductive Candidates (db : Ledger) (flt : DlqFilter) : Option ℕ → List ℕ → Prop
  | byId (id : ℕ) : Candidates db flt (some id) ((db.getDeadLetter id).toList.map DeadLetter.id)
  | byFilter {rows : List DeadLetter} (h : Listing db flt 1000 rows) : Candidates db flt none (rows.map DeadLetter.id)

def dlqReplay (publish : Publisher) (now : Time) (db : Ledger) (candidates : List ℕ) :
    Except BulkReplay BulkReplay :=
  Outcome.loop (replayCandidate publish now) ⟨db,[],[]⟩ candidates

end ConversionGateway
