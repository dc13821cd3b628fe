import ConversionGateway.System.QueuedMessages

/-! # The first write of an event

Deliveries of one event race for its row. The primary key lets one of them
insert; the others change nothing and publish nothing, and no later operation
touches what the row says the event is.
-/
namespace ConversionGateway
open Relational EventStatus

/-- The audit rows that note the creation of a row. -/
def Ledger.creations (db : Ledger) (k : String) : List EventTransition :=
  (db.listTransitions k).filter fun t => t.fromStatus = none ∧ t.toStatus = .received

/-- A row was created once, a missing row never. -/
def Born (k : String) (db : Ledger) : Prop :=
  (db.creations k).length = if (db.getEvent k).isSome then 1 else 0

section Born
variable {rt : Runtime} {db db' : Ledger} {k : String}

theorem Born.congr (h : Born k db) (he : (db'.getEvent k).isSome = (db.getEvent k).isSome)
    (ht : db'.listTransitions k = db.listTransitions k) : Born k db' := by
  unfold Born Ledger.creations at h ⊢
  rwa [he, ht]

theorem getEvent_put_isSome {e e' : Event} (he : db.getEvent e.eventId = some e)
    (hk : e'.eventId = e.eventId) : ((db.putEvent e').getEvent k).isSome = (db.getEvent k).isSome := by
  rw [Ledger.putEvent_getEvent he hk]
  split
  · next h =>
    rw [h, he]
    rfl
  · rfl

theorem Born.record (h : Born k db) {e : Event} (e' : Event) (reason : Option String) (now : Time)
    (he : db.getEvent e.eventId = some e) (hk : e'.eventId = e.eventId) :
    Born k (db.record e e' reason now) := by
  have hsame : (db.record e e' reason now).creations k = db.creations k := by
    unfold Ledger.creations
    rw [Ledger.record_listTransitions, List.filter_append]
    split <;> simp
  have hrow : ((db.record e e' reason now).getEvent k).isSome = (db.getEvent k).isSome :=
    getEvent_put_isSome he hk
  unfold Born
  rwa [hsame, hrow]

theorem Born.enter (h : Born k db) {e : Event} (hnew : db.events.get e.eventId = none) (now : Time) :
    Born k (db.enter e hnew now) := by
  have hg := Ledger.enter_getEvent now hnew k
  have ht := Ledger.enter_listTransitions now hnew k
  unfold Born Ledger.creations at h ⊢
  rw [hg, ht, List.filter_append, List.length_append, h]
  by_cases hk : k = e.eventId
  · subst hk
    have hn : db.getEvent e.eventId = none := hnew
    simp [hn]
  · simp [hk,Ne.symm hk]

theorem Born.edit (h : Born k db) (he : Edit rt db db') : Born k db' := by
  cases he with
  | create hnew he now => exact h.enter hnew now
  | label he c => exact h.congr (getEvent_put_isSome he rfl) rfl
  | move he hm reason now => exact h.record _ _ _ he rfl
  | process he hq hg hm now => exact h.record _ _ _ he rfl
  | attempt he ha now => exact h.record _ _ _ he rfl
  | reclaim he hu now => exact h.record _ _ _ he rfl
  | @bury e reason now letter he ha hid hl =>
    exact (h.record (e.moved .deadLettered (some reason)) (some reason) now he rfl).congr rfl rfl
  | @revive e letter he hd hl hk ho now =>
    exact (h.record (e.requeued letter) (some (replayedReason letter.id)) now he rfl).congr rfl rfl
  | skip n m => exact h.congr rfl rfl

/-- A commit writes stale objects over the rows, but adds the audit rows of its edits. -/
theorem Born.commit (h : Born k db) {tx : Transaction} {reply : Reply} (hk : tx.session.Known db)
    (hp : tx.Paired) (hc : tx.commit rt db = .ok (db',reply)) : Born k db' := by
  obtain ⟨out,hedits,rfl⟩ := Transaction.commit_edits hk hp hc
  have hview : Born k (tx.session.view db) :=
    h.congr (by rw [Session.view_getEvent, Option.isSome_map]) rfl
  have hout : Born k out := Edits.inv (fun _ _ hi he => hi.edit he) hview hedits
  exact hout.congr (by rw [Session.flush_getEvent, Option.isSome_map]) rfl

end Born

namespace System
variable {rt : Runtime} {settings : ℕ → Settings} {s t : System} {a : Action} {k : String}

/-- Only requests ingest. -/
theorem transaction_ingest {who : Process} {source : Source} {plan : IngestPlan}
    {correlationId : CorrelationId} {now : Time}
    (h : s.transaction settings who = some (.ingest source plan correlationId now)) :
    ∃ n, who = .request n ∧ s.requests n = .planned ⟨source,plan,correlationId,now⟩ := by
  cases who with
  | request n =>
    cases hr : s.requests n with
    | planned call =>
      simp only [transaction, Request.transaction, hr, Option.some.injEq] at h
      cases h
      exact ⟨n,rfl,hr⟩
    | idle | recorded | answered | failed | lost => simp [transaction,Request.transaction,hr] at h
  | worker n =>
    simp only [transaction, Worker.transaction] at h
    split at h <;> cases h
  | uploader n =>
    rcases Uploader.transaction_cases h with ⟨_,_,_,heq⟩ | ⟨_,_,_,_,_,_,_,_,heq⟩ | ⟨_,_,_,_,_,heq⟩ |
      ⟨_,_,_,_,_,heq⟩ <;> cases heq
  | replayer n =>
    simp only [transaction, Replayer.transaction] at h
    split at h
    · split at h <;> cases h
    · cases h
    · cases h
  | reconciler n => cases h

variable (rt settings k) (actions : List Action)

variable {rt settings k actions}

/-- The commit of a delivery leaves a row for its event. -/
theorem commit_row {n : ℕ} {call : WebhookCall} (hn : s.requests n = .planned call)
    (hk : call.eventId = some k) (h : step rt settings s (.commit (.request n)) = some t) :
    (t.ledger.getEvent k).isSome := by
  obtain ⟨tx,reply,hc⟩ := step_commit h
  have htx : tx = .ingest call.source call.plan call.correlationId call.now := by
    have ht := hc.transaction
    simp only [transaction, Request.transaction, hn, Option.some.injEq] at ht
    exact ht.symm
  subst htx
  obtain ⟨i,_,hid,⟨heq,_,hold⟩ | ⟨x,_,hx,_,hget,_⟩⟩ := hc.ingest
  · obtain rfl := Option.some.inj (hk.symm.trans hid)
    rw [heq]
    exact Option.isSome_iff_ne_none.mpr hold
  · obtain rfl := Option.some.inj (hk.symm.trans hid)
    simp [hget,← hx]

end System
end ConversionGateway
