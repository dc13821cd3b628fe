import ConversionGateway.Model.MemoryQueue
import ConversionGateway.Lifecycle.IngestOutcome
import ConversionGateway.Lifecycle.SerialRuns

/-! # Deliveries to the worker

A call that commits takes a queued row to its verdict, which depends on the row
and the message alone; every other call leaves the ledger as it was. Runs of the
worker are compared through the set of messages that were handled.
-/
namespace ConversionGateway
open Relational EventStatus

/-- What processing makes of a queued row, and the reason it notes. -/
structure ProcessVerdict where
  row : Event
  reason : Option String
  outcome : ProcessOutcome

def Event.verdict (rt : Runtime) (e : Event) (message : QueueMessage) : ProcessVerdict :=
  match (evaluateConsent e.consent).reason with
  | some reason => ⟨e.moved .suppressed (some reason.value),some reason.value,.suppressed⟩
  | none =>
    match reusedDigests e message with
    | some hashed => ⟨e.processedWith hashed,none,.processed⟩
    | none =>
      let result := buildUserIdentifiers rt message.identifiers
      let rejections := countedRejections e result.rejections
      if rejections ≠ [] then
        ⟨e.moved .rejected (some (rejectionsReason rejections)),some (rejectionsReason rejections),.rejected⟩
      else ⟨e.processedWith result.identifiers,none,.processed⟩

section Verdicts
variable {rt : Runtime} {e : Event} {message : QueueMessage}

theorem verdict_eventId : (e.verdict rt message).row.eventId = e.eventId := by
  unfold Event.verdict
  split
  · rfl
  · split
    · rfl
    · dsimp only
      split <;> rfl

/-- No verdict leaves a row in the queue. -/
theorem verdict_status : (e.verdict rt message).row.status ≠ queued := by
  unfold Event.verdict
  split
  · simp [Event.moved]
  · split
    · simp [Event.moved,Event.processedWith]
    · dsimp only
      split <;> simp [Event.moved,Event.processedWith]

theorem transition_of_allowed {db : Ledger} {dest : EventStatus} (h : dest ∈ e.status.allowedTransitions)
    (reason : Option String) (now : Time) : transition db e dest reason now =
      .ok (db.record e (e.moved dest reason) reason now,e.moved dest reason) := if_pos h

theorem evaluateConsent_reason_none : (evaluateConsent e.consent).reason = none ↔ e.Granted := by
  refine Iff.trans ⟨fun h => ?_,fun h => ?_⟩ evaluateConsent_permitted
  · cases hp : (evaluateConsent e.consent).permitted with
    | true => rfl
    | false =>
      obtain ⟨reason,hr⟩ := evaluateConsent_reason hp
      rw [hr] at h
      cases h
  · unfold evaluateConsent at h ⊢
    split
    · next h' => simp [h'] at h
    · next hu =>
      simp only [hu] at h
      split
      · next h' => simp [h'] at h
      · rfl

/-- Processing never raises on a queued row, whatever the ledger and the time. -/
theorem processMessage_queued (hq : e.status = queued) (db : Ledger) (now : Time) :
    processMessage rt db (some e) message now =
      .ok (db.record e (e.verdict rt message).row (e.verdict rt message).reason now,
        (e.verdict rt message).outcome) := by
  have hmove {dest : EventStatus} (hd : dest ∈ [processed,suppressed,rejected]) :
      dest ∈ e.status.allowedTransitions := by rw [hq]; exact hd
  unfold processMessage Event.verdict
  simp only [hq, ne_eq, not_true_eq_false, if_false]
  cases hr : (evaluateConsent e.consent).reason with
  | some reason =>
    have hg : ¬ (evaluateConsent e.consent).permitted = true := fun hp => by
      rw [evaluateConsent_reason_none.mpr (evaluateConsent_permitted.mp hp)] at hr
      cases hr
    rw [if_pos hg]
    exact Outcome.bind_ok.mpr ⟨_,transition_of_allowed (hmove (by simp)) _ now,rfl⟩
  | none =>
    have hg := evaluateConsent_permitted.mpr (evaluateConsent_reason_none.mp hr)
    rw [if_neg (not_not.mpr hg)]
    cases reusedDigests e message with
    | some hashed =>
      exact Outcome.bind_ok.mpr ⟨_,transition_of_allowed (by exact hmove (by simp)) _ now,rfl⟩
    | none =>
      dsimp only
      split
      · exact Outcome.bind_ok.mpr ⟨_,transition_of_allowed (hmove (by simp)) _ now,rfl⟩
      · exact Outcome.bind_ok.mpr ⟨_,transition_of_allowed (by exact hmove (by simp)) _ now,rfl⟩

end Verdicts

/-- The trail of an event without the times and the serial numbers. -/
def Ledger.trail (db : Ledger) (k : String) : List (Option EventStatus × EventStatus × Option String) :=
  (db.listTransitions k).map fun t => (t.fromStatus,t.toStatus,t.reason)

/-- Every event has the same row and, but for the times, the same trail. -/
def Ledger.SameProgress (a b : Ledger) : Prop := ∀ k, a.getEvent k = b.getEvent k ∧ a.trail k = b.trail k

/-- The ledger after a message was processed: only a queued row moves. -/
def Ledger.processed (rt : Runtime) (db : Ledger) (message : QueueMessage) (now : Time) : Ledger :=
  match db.getEvent message.eventId with
  | none => db
  | some e =>
    if e.status = queued then db.record e (e.verdict rt message).row (e.verdict rt message).reason now
    else db

section Processed
variable {rt : Runtime} {db : Ledger} {message : QueueMessage} {now : Time} {e : Event}

theorem processed_queued (he : db.getEvent message.eventId = some e) (hq : e.status = queued) :
    db.processed rt message now =
      db.record e (e.verdict rt message).row (e.verdict rt message).reason now := by
  simp [Ledger.processed,he,hq]

theorem processed_settled (h : ∀ e, db.getEvent message.eventId = some e → e.status ≠ queued) :
    db.processed rt message now = db := by
  unfold Ledger.processed
  split
  · rfl
  · next e he => exact if_neg (h e he)

theorem processMessage_eq (rt : Runtime) (db : Ledger) (message : QueueMessage) (now : Time) : ∃ outcome,
    processMessage rt db (db.getEvent message.eventId) message now =
      .ok (db.processed rt message now,outcome) := by
  unfold Ledger.processed
  cases db.getEvent message.eventId with
  | none => exact ⟨_,rfl⟩
  | some e =>
    dsimp only
    by_cases hq : e.status = queued
    · rw [if_pos hq]
      exact ⟨_,processMessage_queued hq db now⟩
    · rw [if_neg hq]
      exact ⟨_,if_pos hq⟩

/-- Processing commits exactly if what it leaves fits the columns. -/
theorem process_commit {db' : Ledger} {reply : Reply} :
    (Transaction.process message (db.getEvent message.eventId) now).commit rt db = .ok (db',reply) →
      db' = db.processed rt message now ∧ db'.fits = true ∧ ∃ outcome, reply = .processed outcome := by
  intro h
  obtain ⟨hbody,hfits⟩ := Transaction.commit_fresh (begin_fresh (.process message now) rfl).1 h
  obtain ⟨outcome,hp⟩ := processMessage_eq rt db message now
  obtain ⟨⟨out,o⟩,ho,hr⟩ := Outcome.bind_ok.mp hbody
  cases hp.symm.trans ho
  cases hr
  exact ⟨rfl,hfits,_,rfl⟩

theorem process_commit_of_fits (h : (db.processed rt message now).fits = true) : ∃ outcome,
    (Transaction.process message (db.getEvent message.eventId) now).commit rt db =
      .ok (db.processed rt message now,.processed outcome) := by
  obtain ⟨outcome,hp⟩ := processMessage_eq rt db message now
  exact ⟨outcome,Transaction.commit_of_fresh (begin_fresh (.process message now) rfl).1
    (Outcome.bind_ok.mpr ⟨_,hp,rfl⟩) h⟩

/-- Other events are not touched. -/
theorem processed_frame (rt : Runtime) (db : Ledger) (now : Time) {k : String} (hk : k ≠ message.eventId) :
    (db.processed rt message now).getEvent k = db.getEvent k ∧
    (db.processed rt message now).trail k = db.trail k := by
  cases he : db.getEvent message.eventId with
  | none => rw [processed_settled (by simp [he])]; exact ⟨rfl,rfl⟩
  | some e =>
    by_cases hq : e.status = queued
    · have hid := Ledger.getEvent_eventId he
      rw [processed_queued he hq, Ledger.record_getEvent (getEvent_self he) verdict_eventId, hid,
        if_neg hk, Ledger.trail, Ledger.record_listTransitions, hid, if_neg (Ne.symm hk), List.append_nil]
      exact ⟨rfl,rfl⟩
    · rw [processed_settled (by simp [he,hq])]
      exact ⟨rfl,rfl⟩

theorem processed_self (rt : Runtime) (now : Time) (he : db.getEvent message.eventId = some e) (hq : e.status = queued) :
    (db.processed rt message now).getEvent message.eventId = some (e.verdict rt message).row ∧
    (db.processed rt message now).trail message.eventId = db.trail message.eventId ++
      [(some queued,(e.verdict rt message).row.status,(e.verdict rt message).reason)] := by
  have hid := Ledger.getEvent_eventId he
  rw [processed_queued he hq, Ledger.record_getEvent (getEvent_self he) verdict_eventId, Ledger.trail,
    Ledger.record_listTransitions, if_pos hid.symm, if_pos hid, List.map_append, hq]
  exact ⟨rfl,rfl⟩

end Processed

/-! ## The worker -/

/-- One call of `handle_delivery`: whether something raises before the commit
does, and how many transition ids a transaction that fails has drawn. -/
structure Call where
  delivery : Delivery
  now : Time
  raises : Bool
  drawn : ℕ

structure WorkerState where
  ledger : Ledger
  queue : MemoryQueue

/-- The transaction failed: nothing is committed, and the message goes back. -/
def WorkerState.refuse (s : WorkerState) (c : Call) : WorkerState :=
  ⟨{ s.ledger with transitions := s.ledger.transitions.skip c.drawn },s.queue.nack c.delivery⟩

/-- Commit, then ack; `none` if processing raised. -/
def handleDelivery (rt : Runtime) (s : WorkerState) (c : Call) : WorkerState × Option ProcessOutcome :=
  let message := c.delivery.message
  let tx := Transaction.process message (s.ledger.getEvent message.eventId) c.now
  match c.raises, tx.commit rt s.ledger with
  | false, .ok (db,.processed outcome) => (⟨db,s.queue.ack c.delivery⟩,some outcome)
  | _, _ => (s.refuse c,none)

inductive QueueAction
  | publish (message : QueueMessage)
  | receive (maxMessages : ℕ)
  | handle (c : Call)

def workerStep (rt : Runtime) (s : WorkerState) : QueueAction → WorkerState
  | .publish message => ⟨s.ledger,s.queue.publish message⟩
  | .receive maxMessages => ⟨s.ledger,(s.queue.receive maxMessages).2⟩
  | .handle c => (handleDelivery rt s c).1

def workerRun (rt : Runtime) (s : WorkerState) (actions : List QueueAction) : WorkerState :=
  actions.foldl (workerStep rt) s

/-- Somewhere in the run a call for the message commits. -/
def Succeeds (rt : Runtime) (s : WorkerState) (actions : List QueueAction) (message : QueueMessage) : Prop :=
  ∃ pre c post, actions = pre ++ .handle c :: post ∧ c.delivery.message = message ∧
    (handleDelivery rt (workerRun rt s pre) c).2 ≠ none

section Worker
variable {rt : Runtime} {s : WorkerState} {c : Call}

/-- A call either fails, or leaves the ledger processed and the delivery acked. -/
theorem handleDelivery_cases (rt : Runtime) (s : WorkerState) (c : Call) :
    handleDelivery rt s c = (s.refuse c,none) ∨ ∃ outcome,
      handleDelivery rt s c = (⟨s.ledger.processed rt c.delivery.message c.now,s.queue.ack c.delivery⟩,some outcome) ∧
      (s.ledger.processed rt c.delivery.message c.now).fits = true := by
  unfold handleDelivery
  dsimp only
  split
  · next db outcome hr hc =>
    obtain ⟨rfl,hfits,_⟩ := process_commit hc
    exact Or.inr ⟨outcome,rfl,hfits⟩
  · exact Or.inl rfl

theorem workerRun_append (as bs : List QueueAction) :
    workerRun rt s (as ++ bs) = workerRun rt (workerRun rt s as) bs := List.foldl_append

/-- The first call of a run that commits, or a later one. -/
theorem succeeds_cons {a : QueueAction} {rest : List QueueAction} {m : QueueMessage}
    (h : Succeeds rt s (a :: rest) m) : Succeeds rt (workerStep rt s a) rest m ∨
      ∃ c, a = .handle c ∧ c.delivery.message = m ∧ (handleDelivery rt s c).2 ≠ none := by
  obtain ⟨pre,c,post,heq,hm,hs⟩ := h
  cases pre with
  | nil =>
    obtain ⟨rfl,_⟩ := List.cons.inj heq
    exact Or.inr ⟨c,rfl,hm,hs⟩
  | cons b pre =>
    obtain ⟨rfl,hrest⟩ := List.cons.inj heq
    exact Or.inl ⟨pre,c,post,hrest,hm,hs⟩

end Worker

/-! ## Exactly once -/

/-- From `db₀` the messages of `done` were handled, whenever and however often,
and no others. -/
structure Handled (rt : Runtime) (db₀ : Ledger) (done : List QueueMessage) (db : Ledger) : Prop where
  moved : ∀ m ∈ done, ∀ e, db₀.getEvent m.eventId = some e →
    db.getEvent m.eventId = some (e.verdict rt m).row ∧
    db.trail m.eventId = db₀.trail m.eventId ++
      [(some queued,(e.verdict rt m).row.status,(e.verdict rt m).reason)]
  rest : ∀ k, (∀ m ∈ done, m.eventId ≠ k) → db.getEvent k = db₀.getEvent k ∧ db.trail k = db₀.trail k

/-- One message each for events that are waiting in the queue. -/
structure Waiting (db₀ : Ledger) (messages : List QueueMessage) : Prop where
  nodup : (messages.map QueueMessage.eventId).Nodup
  queued : ∀ m ∈ messages, ∃ e, db₀.getEvent m.eventId = some e ∧ e.status = queued

section Handled
variable {rt : Runtime} {db₀ db : Ledger} {messages done done' : List QueueMessage} {m : QueueMessage}

theorem Handled.refl (rt : Runtime) (db₀ : Ledger) : Handled rt db₀ [] db₀ :=
  ⟨fun _ h => (by cases h),fun _ _ => ⟨rfl,rfl⟩⟩

/-- Sequence numbers that failing transactions draw do not show. -/
theorem Handled.skip (h : Handled rt db₀ done db) (n : ℕ) :
    Handled rt db₀ done { db with transitions := db.transitions.skip n } := ⟨h.moved,h.rest⟩

/-- The step: a message that was handled before is absorbed, another one commutes
with those that were. -/
theorem Handled.process (hw : Waiting db₀ messages) (h : Handled rt db₀ done db)
    (hdone : ∀ x ∈ done, x ∈ messages) (hm : m ∈ messages) (now : Time) :
    Handled rt db₀ (m :: done) (db.processed rt m now) := by
  obtain ⟨e,he,hq⟩ := hw.queued m hm
  by_cases hin : m ∈ done
  · have hrow := (h.moved m hin e he).1
    rw [processed_settled fun x hx => by
      obtain rfl := Option.some.inj (hrow.symm.trans hx)
      exact verdict_status]
    refine ⟨fun x hx => ?_,fun k hk => h.rest k fun x hx => hk x (List.mem_cons_of_mem _ hx)⟩
    rcases List.mem_cons.mp hx with rfl | hx
    · exact h.moved _ hin
    · exact h.moved x hx
  · have hne : ∀ x ∈ done, x.eventId ≠ m.eventId := fun x hx heq =>
      hin (List.inj_on_of_nodup_map hw.nodup (hdone x hx) hm heq ▸ hx)
    obtain ⟨hrow,htrail⟩ := h.rest m.eventId hne
    obtain ⟨hself,htrail'⟩ := processed_self rt now (hrow.trans he) hq
    refine ⟨fun x hx x₀ hx₀ => ?_,fun k hk => ?_⟩
    · rcases List.mem_cons.mp hx with rfl | hx
      · obtain rfl := Option.some.inj (he.symm.trans hx₀)
        exact ⟨hself,htrail'.trans (by rw [htrail])⟩
      · obtain ⟨hf₁,hf₂⟩ := processed_frame rt db now (hne x hx)
        rw [hf₁, hf₂]
        exact h.moved x hx x₀ hx₀
    · obtain ⟨hf₁,hf₂⟩ := processed_frame rt db now (hk m List.mem_cons_self).symm
      rw [hf₁, hf₂]
      exact h.rest k fun x hx => hk x (List.mem_cons_of_mem _ hx)

/-- Two ledgers in which the same messages were handled show the same progress. -/
theorem Handled.same (hw : Waiting db₀ messages) {db' : Ledger} (h : Handled rt db₀ done db)
    (h' : Handled rt db₀ done' db') (hdone : ∀ x, x ∈ done ↔ x ∈ messages)
    (hdone' : ∀ x, x ∈ done' ↔ x ∈ messages) : db.SameProgress db' := by
  intro k
  by_cases hk : ∃ m ∈ messages, m.eventId = k
  · obtain ⟨m,hm,rfl⟩ := hk
    obtain ⟨e,he,_⟩ := hw.queued m hm
    obtain ⟨h₁,h₂⟩ := h.moved m ((hdone m).mpr hm) e he
    obtain ⟨h₁',h₂'⟩ := h'.moved m ((hdone' m).mpr hm) e he
    exact ⟨h₁.trans h₁'.symm,h₂.trans h₂'.symm⟩
  · push Not at hk
    obtain ⟨h₁,h₂⟩ := h.rest k fun m hm => hk m ((hdone m).mp hm)
    obtain ⟨h₁',h₂'⟩ := h'.rest k fun m hm => hk m ((hdone' m).mp hm)
    exact ⟨h₁.trans h₁'.symm,h₂.trans h₂'.symm⟩

/-- What was committed for a message fits its columns. -/
theorem Handled.storable (h : Handled rt db₀ done db) (hfits : db.fits = true) (hm : m ∈ done)
    {e : Event} (he : db₀.getEvent m.eventId = some e) :
    (e.verdict rt m).row.fits = true ∧ nullable (varchar 512) (e.verdict rt m).reason = true := by
  obtain ⟨hrows,htrans,_⟩ := Ledger.fits_iff.mp hfits
  obtain ⟨hrow,htrail⟩ := h.moved m hm e he
  refine ⟨hrows _ (Table.mem_of_get hrow),?_⟩
  have hlast : (some EventStatus.queued,(e.verdict rt m).row.status,(e.verdict rt m).reason) ∈
      db.trail m.eventId := by
    rw [htrail]
    exact List.mem_append_right _ List.mem_cons_self
  obtain ⟨t,ht,heq⟩ := List.mem_map.mp hlast
  have hreason : t.reason = (e.verdict rt m).reason := congrArg (fun x => x.2.2) heq
  rw [← hreason]
  exact htrans t (List.mem_filter.mp ht).1

/-- After the run more of the messages are handled, those among them for which a
call has committed. -/
def HandlesMore (rt : Runtime) (db₀ : Ledger) (messages done : List QueueMessage) (s : WorkerState)
    (actions : List QueueAction) : Prop :=
  ∃ done', Handled rt db₀ done' (workerRun rt s actions).ledger ∧
    (workerRun rt s actions).ledger.fits = true ∧ (∀ x ∈ done', x ∈ messages) ∧
    (∀ x ∈ done, x ∈ done') ∧ ∀ x, Succeeds rt s actions x → x ∈ done'

theorem workerRun_handled (hw : Waiting db₀ messages) {s : WorkerState} {actions : List QueueAction}
    (hover : ∀ c, .handle c ∈ actions → c.delivery.message ∈ messages)
    (h : Handled rt db₀ done s.ledger) (hdone : ∀ x ∈ done, x ∈ messages) (hfits : s.ledger.fits = true) :
    HandlesMore rt db₀ messages done s actions := by
  induction actions generalizing s done with
  | nil => exact ⟨done,h,hfits,hdone,fun _ hx => hx,fun x ⟨pre,_,_,heq,_⟩ => by simp at heq⟩
  | cons a rest ih =>
    have hrest := fun c hc => hover c (List.mem_cons_of_mem a hc)
    -- a step that handles no message leaves the set as it is
    have hidle (hs : Handled rt db₀ done (workerStep rt s a).ledger)
        (hf : (workerStep rt s a).ledger.fits = true)
        (hno : ∀ c, a = .handle c → (handleDelivery rt s c).2 = none) :
        HandlesMore rt db₀ messages done s (a :: rest) := by
      obtain ⟨done',h₁,h₂,h₃,h₄,h₅⟩ := ih hrest hs hdone hf
      refine ⟨done',h₁,h₂,h₃,h₄,fun x hx => ?_⟩
      rcases succeeds_cons hx with hx | ⟨c,hc,_,hsome⟩
      · exact h₅ x hx
      · exact absurd (hno c hc) hsome
    cases a with
    | publish message => exact hidle h hfits fun _ hc => by cases hc
    | receive n => exact hidle h hfits fun _ hc => by cases hc
    | handle c =>
      rcases handleDelivery_cases rt s c with heq | ⟨outcome,heq,hf⟩
      · have hs : workerStep rt s (.handle c) = s.refuse c := congrArg Prod.fst heq
        refine hidle (hs ▸ h.skip c.drawn) (hs ▸ hfits) fun d hd => ?_
        cases hd
        exact congrArg Prod.snd heq
      · have hm := hover c List.mem_cons_self
        have hs : (workerStep rt s (.handle c)).ledger = s.ledger.processed rt c.delivery.message c.now :=
          congrArg (fun r => r.1.ledger) heq
        obtain ⟨done',h₁,h₂,h₃,h₄,h₅⟩ := ih hrest
          (hs ▸ Handled.process hw h hdone hm c.now)
          (fun x hx => (List.mem_cons.mp hx).elim (fun he => he ▸ hm) (hdone x)) (hs ▸ hf)
        refine ⟨done',h₁,h₂,h₃,fun x hx => h₄ x (List.mem_cons_of_mem _ hx),fun x hx => ?_⟩
        rcases succeeds_cons hx with hx | ⟨d,hd,rfl,_⟩
        · exact h₅ x hx
        · cases hd
          exact h₄ _ List.mem_cons_self

/-- Each message processed once, one after the other. -/
def processOnce (stamps : QueueMessage → Time) (messages : List QueueMessage) : List SerialAction :=
  messages.map fun m => .commit (.process m (stamps m))

theorem processOnce_handled (hw : Waiting db₀ messages) {todo : List QueueMessage}
    (htodo : ∀ m ∈ todo, m ∈ messages) (hdone : ∀ m ∈ done, m ∈ messages)
    (hst : ∀ m ∈ messages, ∀ e, db₀.getEvent m.eventId = some e →
      (e.verdict rt m).row.fits = true ∧ nullable (varchar 512) (e.verdict rt m).reason = true)
    (h : Handled rt db₀ done db) (hfits : db.fits = true) (stamps : QueueMessage → Time) :
    ∃ once done', serialRun rt db (processOnce stamps todo) = some once ∧ Handled rt db₀ done' once ∧
      (∀ x ∈ done', x ∈ messages) ∧ ∀ x, x ∈ done ∨ x ∈ todo → x ∈ done' := by
  induction todo generalizing db done with
  | nil => exact ⟨db,done,rfl,h,hdone,fun x hx => hx.elim id (by simp)⟩
  | cons m rest ih =>
    have hm := htodo m List.mem_cons_self
    obtain ⟨e₀,he₀,_⟩ := hw.queued m hm
    have hf : (db.processed rt m (stamps m)).fits = true := by
      cases he : db.getEvent m.eventId with
      | none => rwa [processed_settled (by simp [he])]
      | some e =>
        by_cases hq : e.status = queued
        · have hfresh : ∀ x ∈ done, x.eventId ≠ m.eventId := by
            intro x hx heq
            have hxm := List.inj_on_of_nodup_map hw.nodup (hdone x hx) hm heq
            subst hxm
            obtain rfl := Option.some.inj ((h.moved x hx e₀ he₀).1.symm.trans he)
            exact verdict_status hq
          obtain rfl := Option.some.inj (((h.rest _ hfresh).1.trans he₀).symm.trans he)
          obtain ⟨h₁,h₂⟩ := hst m hm _ he₀
          rw [processed_queued he hq]
          exact Ledger.fits_record _ _ hfits h₁ h₂
        · rwa [processed_settled (by simp [he,hq])]
    obtain ⟨outcome,hc⟩ := process_commit_of_fits hf
    have hstep : serialStep rt db (.commit (.process m (stamps m))) =
        some (db.processed rt m (stamps m)) := by
      simp only [serialStep, Operation.begin, hc]
    obtain ⟨once,done',hrun,h₁,h₂,h₃⟩ := ih
      (fun x hx => htodo x (List.mem_cons_of_mem m hx))
      (fun x hx => (List.mem_cons.mp hx).elim (fun he => he ▸ hm) (hdone x))
      (Handled.process hw h hdone hm (stamps m)) hf
    refine ⟨once,done',Machine.run_cons.mpr ⟨_,hstep,hrun⟩,h₁,h₂,fun x hx => h₃ x ?_⟩
    rcases hx with hx | hx
    · exact Or.inl (List.mem_cons_of_mem m hx)
    · exact (List.mem_cons.mp hx).elim (fun he => Or.inl (he ▸ List.mem_cons_self)) Or.inr

end Handled

/-- Nothing of a call that failed is in the tables, and a delivery that was in
flight waits for its next attempt. -/
structure Refused (s t : WorkerState) (d : Delivery) : Prop where
  events : t.ledger.events = s.ledger.events
  transitions : t.ledger.transitions.rows = s.ledger.transitions.rows
  deadLetters : t.ledger.deadLetters = s.ledger.deadLetters
  ready : d ∈ s.queue.inflight → t.queue.ready = s.queue.ready ++ [(d.message,d.attempt + 1)]
  inflight : d ∈ s.queue.inflight → t.queue.Settled d.ackId

/-- The delivery was not put back, and whatever happens later it is not in flight again. -/
structure Removed (rt : Runtime) (s t : WorkerState) (d : Delivery) : Prop where
  ready : t.queue.ready = s.queue.ready
  settled : d ∈ s.queue.inflight → ∀ later, (workerRun rt t later).queue.Settled d.ackId

section Calls
variable {rt : Runtime} {s : WorkerState} {c : Call}

theorem handleDelivery_refused (h : (handleDelivery rt s c).2 = none) :
    Refused s (handleDelivery rt s c).1 c.delivery := by
  rcases handleDelivery_cases rt s c with heq | ⟨outcome,heq,_⟩
  · rw [heq]
    refine ⟨rfl,rfl,rfl,fun hd => (MemoryQueue.nack_inflight hd).1,fun hd => ?_⟩
    have hs := MemoryQueue.settle_settled (q := s.queue) (s.queue.below _ hd)
    have hlt : (s.queue.nack c.delivery).issued = s.queue.issued := by
      unfold MemoryQueue.nack
      split <;> rfl
    exact ⟨hlt ▸ hs.1,(MemoryQueue.nack_inflight hd).2 ▸ hs.2⟩
  · rw [heq] at h
    cases h

theorem workerStep_settled {id : ℕ} (h : s.queue.Settled id) (a : QueueAction) :
    (workerStep rt s a).queue.Settled id := by
  cases a with
  | publish message => exact ⟨h.1,h.2⟩
  | receive n => exact h.receive n
  | handle c =>
    rcases handleDelivery_cases rt s c with heq | ⟨outcome,heq,_⟩
    · rw [workerStep, heq]
      exact h.nack
    · rw [workerStep, heq]
      exact h.settle

theorem workerRun_settled {id : ℕ} (h : s.queue.Settled id) (actions : List QueueAction) :
    (workerRun rt s actions).queue.Settled id := by
  induction actions generalizing s with
  | nil => exact h
  | cons a rest ih => exact ih (workerStep_settled h a)

theorem handleDelivery_removed (h : (handleDelivery rt s c).2 ≠ none) :
    Removed rt s (handleDelivery rt s c).1 c.delivery := by
  rcases handleDelivery_cases rt s c with heq | ⟨outcome,heq,_⟩
  · rw [heq] at h
    exact absurd rfl h
  · rw [heq]
    exact ⟨rfl,fun hd => workerRun_settled (MemoryQueue.settle_settled (s.queue.below _ hd))⟩

end Calls

/-- However the deliveries of the messages are ordered, repeated and interrupted:
if each commits once, the ledger shows what processing each message exactly once
leaves. Every call that fails is undone, every other one settles its delivery.
The ledger is one that was committed, so it fits its columns. -/
theorem workerRun_exactly_once (rt : Runtime) (db₀ : Ledger) (queue : MemoryQueue)
    (messages : List QueueMessage) (actions : List QueueAction) (stamps : QueueMessage → Time)
    (hfits : db₀.fits = true) (hw : Waiting db₀ messages)
    (hover : ∀ c, .handle c ∈ actions → c.delivery.message ∈ messages)
    (hall : ∀ m ∈ messages, Succeeds rt ⟨db₀,queue⟩ actions m) :
    (∃ once, serialRun rt db₀ (processOnce stamps messages) = some once ∧
      (workerRun rt ⟨db₀,queue⟩ actions).ledger.SameProgress once) ∧
    ∀ s c, ((handleDelivery rt s c).2 = none → Refused s (handleDelivery rt s c).1 c.delivery) ∧
      ((handleDelivery rt s c).2 ≠ none → Removed rt s (handleDelivery rt s c).1 c.delivery) := by
  refine ⟨?_,fun s c => ⟨handleDelivery_refused,handleDelivery_removed⟩⟩
  obtain ⟨done,h,hf,hsub,_,hdone⟩ := workerRun_handled hw (s := ⟨db₀,queue⟩) hover
    (Handled.refl rt db₀) (fun _ hx => by cases hx) hfits
  have hmem : ∀ x, x ∈ done ↔ x ∈ messages := fun x => ⟨hsub x,fun hx => hdone x (hall x hx)⟩
  obtain ⟨once,done',hrun,h',hsub',hdone'⟩ := processOnce_handled hw
    (fun _ hx => hx) (fun _ hx => by cases hx)
    (fun m hm e he => h.storable hf ((hmem m).mpr hm) he) (Handled.refl rt db₀) hfits stamps
  exact ⟨once,hrun,h.same hw h' hmem fun x => ⟨hsub' x,fun hx => hdone' x (Or.inr hx)⟩⟩

/-- The ledger and the message of a request with a click id. -/
def clickIngested : Ledger :=
  (serialRun (clickRuntime 1704067200000) Ledger.empty [.commit (.ingest .hubspot
    (planIngest (clickRuntime 1704067200000) .hubspot (clickBody 1704067200000) .zero) .zero 0)]).getD
    Ledger.empty

def clickMessage : QueueMessage := ⟨"hubspot:1",.blank,0,some CorrelationId.zero.value⟩

/-- The message is published twice; the first call fails, then both copies are handled. -/
def twiceAndOnceMore : List QueueAction :=
  [.publish clickMessage,.publish clickMessage,.receive 2,.handle ⟨⟨0,clickMessage,1⟩,1,true,1⟩,
    .handle ⟨⟨1,clickMessage,1⟩,2,false,0⟩,.receive 1,.handle ⟨⟨2,clickMessage,2⟩,3,false,0⟩]

theorem workerRun_exactly_once_click : ∃ once,
    serialRun (clickRuntime 1704067200000) clickIngested (processOnce (fun _ => 9) [clickMessage]) = some once ∧
    (workerRun (clickRuntime 1704067200000) ⟨clickIngested,.empty⟩ twiceAndOnceMore).ledger.SameProgress once := by
  refine (workerRun_exactly_once (clickRuntime 1704067200000) clickIngested .empty [clickMessage]
    twiceAndOnceMore (fun _ => 9) (by decide +kernel) ⟨by simp,fun m hm => ?_⟩ ?_ fun m hm => ?_).1
  · obtain rfl := List.mem_singleton.mp hm
    have h : (clickIngested.getEvent clickMessage.eventId).any (fun e => e.status = queued) = true := by
      decide +kernel
    obtain ⟨e,he,hq⟩ := (Option.any_eq_true _ _).mp h
    exact ⟨e,he,of_decide_eq_true hq⟩
  · intro c hc
    simp only [twiceAndOnceMore, List.mem_cons, QueueAction.handle.injEq, reduceCtorEq, false_or,
      List.not_mem_nil, or_false] at hc
    rcases hc with rfl | rfl | rfl <;> exact List.mem_singleton_self _
  · obtain rfl := List.mem_singleton.mp hm
    exact ⟨[_,_,_,_],_,[_,_],rfl,rfl,by decide +kernel⟩

end ConversionGateway
