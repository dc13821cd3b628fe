import ConversionGateway.System.FirstWrite
import ConversionGateway.System.StuckEvents

/-! # Correlation ids

One id for each authenticated request, on the row it brings in, on every message for its
event and in every answer that is about the row. A later transaction leaves the column
alone, also one that writes over a row from a stale object.
-/
namespace ConversionGateway
open EventStatus

/-- Rows keep the correlation id they have. -/
def Ledger.Keeps (db out : Ledger) : Prop :=
  ∀ k e, db.getEvent k = some e → ∃ x, out.getEvent k = some x ∧ x.correlationId = e.correlationId

/-- The message names the request of its event's row. -/
def Ledger.Names (db : Ledger) (m : QueueMessage) : Prop :=
  ∃ e, db.getEvent m.eventId = some e ∧ e.correlationId = m.correlationId

section Bodies
variable {rt : Runtime} {db out : Ledger} {now : Time}

theorem Ledger.Keeps.refl (db : Ledger) : db.Keeps db := fun _ e he => ⟨e,he,rfl⟩

theorem Ledger.Keeps.trans {mid : Ledger} (h : db.Keeps mid) (h' : mid.Keeps out) : db.Keeps out := by
  intro k e he
  obtain ⟨x,hx,hxe⟩ := h k e he
  obtain ⟨y,hy,hyx⟩ := h' k x hx
  exact ⟨y,hy,hyx.trans hxe⟩

theorem Ledger.Keeps.names (h : db.Keeps out) {m : QueueMessage} (hm : db.Names m) : out.Names m := by
  obtain ⟨e,he,hc⟩ := hm
  obtain ⟨x,hx,hxe⟩ := h _ e he
  exact ⟨x,hx,hxe.trans hc⟩

theorem keeps_record {e : Event} (e' : Event) (reason : Option String) (now : Time)
    (he : db.getEvent e.eventId = some e) (hk : e'.eventId = e.eventId) (hc : e'.correlationId = e.correlationId) :
    db.Keeps (db.record e e' reason now) := by
  intro k x hx
  rw [Ledger.record_getEvent he hk]
  split
  · next heq =>
    subst heq
    rw [he] at hx
    cases hx
    exact ⟨e',rfl,hc⟩
  · exact ⟨x,hx,rfl⟩

theorem deadLetter_keeps {e : Event} {failureClass : FailureClass} {reason : String} {code message : Option String}
    {payload : Json} (he : db.getEvent e.eventId = some e)
    (h : deadLetter db e failureClass reason code message payload now = .ok out) : db.Keeps out := by
  obtain ⟨_,_,_,_,_,rfl⟩ := deadLetter_ok h
  exact keeps_record (e.moved deadLettered (some reason)) (some reason) now he rfl rfl

theorem claimRow_keeps {id : String} (h : claimRow now db id = .ok out) : db.Keeps out := by
  rcases claimRow_ok h with ⟨_,rfl⟩ | ⟨e,he,e',reason,hc,rfl⟩
  · exact .refl _
  · exact keeps_record e' reason now (getEvent_self he) (by cases hc <;> rfl) (by cases hc <;> rfl)

theorem claimItem_keeps {st : Settings} {id : String} {items items' : List Claimed}
    (h : claimItem rt st now (db,items) id = .ok (out,items')) : db.Keeps out := by
  rcases claimItem_ok h with ⟨_,rfl,_⟩ | ⟨e,_,he,_,⟨_,_,hd⟩ | ⟨_,rfl,_⟩⟩
  · exact .refl _
  · exact deadLetter_keeps (getEvent_self he) hd
  · exact .refl _

theorem retryRow_keeps {reason : String} {item : String × Time} (h : retryRow reason db item = .ok out) :
    db.Keeps out := by
  rcases retryRow_ok h with ⟨_,rfl⟩ | ⟨e,he,_,failed,hfailed,rfl⟩
  · exact .refl _
  · have he := getEvent_self he
    have hkey : failed.eventId = e.eventId := by rw [hfailed, Event.moved_eventId]
    have hlabel : failed.correlationId = e.correlationId := by rw [hfailed]; rfl
    exact (keeps_record failed failed.statusReason item.2 he hkey hlabel).trans
      (keeps_record ((failed.moved uploading none).attempted item.2) none item.2
        (Ledger.record_getEvent_self he hkey) rfl rfl)

theorem applyRow_keeps {loaded : List String} {item : Claimed × RowResult}
    (h : applyRow loaded now db item = .ok out) : db.Keeps out := by
  obtain ⟨_,e,he,⟨dest,reason,_,_,rfl⟩ | hd⟩ := applyRow_ok h
  · exact keeps_record (e.moved dest reason) reason now (getEvent_self he) rfl rfl
  · exact deadLetter_keeps (getEvent_self he) hd

theorem deadLetterOne_keeps {batch : List Claimed} {failure : BatchFailure} {id : String}
    (h : deadLetterOne batch failure now db id = .ok out) : db.Keeps out := by
  rcases deadLetterOne_ok h with ⟨_,rfl⟩ | ⟨e,he,hd⟩
  · exact .refl _
  · exact deadLetter_keeps (getEvent_self he) hd

theorem loop_keeps {α : Type} {f : Ledger → α → Except PyError Ledger} {l : List α}
    (hf : ∀ a b x, f a x = .ok b → a.Keeps b) (h : Outcome.loop f db l = .ok out) : db.Keeps out :=
  Outcome.loop_inv db.Keeps (fun _ _ _ _ ha hstep => ha.trans (hf _ _ _ hstep)) (.refl db) h

theorem claim_keeps {st : Settings} {selected : List String} {items : List Claimed}
    (h : ConversionGateway.claim rt st db selected now = .ok (out,items)) : db.Keeps out := by
  obtain ⟨mid,hm,h⟩ := Outcome.bind_ok.mp h
  have hmid : db.Keeps mid := loop_keeps (fun _ _ _ => claimRow_keeps) hm
  exact Outcome.loop_inv (fun p : Ledger × List Claimed => db.Keeps p.1)
    (fun _ _ _ _ ha hstep => ha.trans (claimItem_keeps hstep)) hmid h

/-- No body but that of an ingest writes the column. -/
theorem Transaction.body_keeps {tx : Transaction} {reply : Reply}
    (hf : ∀ e ∈ tx.session.events, db.getEvent e.eventId = some e)
    (hi : ∀ source plan correlationId now, tx ≠ .ingest source plan correlationId now)
    (h : tx.body rt db = .ok (out,reply)) : db.Keeps out := by
  cases tx with
  | ingest source plan correlationId now => exact absurd rfl (hi source plan correlationId now)
  | process message loaded now =>
    obtain ⟨⟨mid,o⟩,ho,h⟩ := Outcome.bind_ok.mp h
    cases h
    rcases processMessage_ok ho with ⟨rfl,_⟩ | ⟨e,rfl,_,e',reason,hp,rfl⟩
    · exact .refl _
    · exact keeps_record e' reason now (hf e (by simp [session])) (by cases hp <;> rfl) (by cases hp <;> rfl)
  | claim st selected now =>
    obtain ⟨⟨mid,items⟩,hc,h⟩ := Outcome.bind_ok.mp h
    cases h
    exact claim_keeps hc
  | retry ids loaded reason stamps =>
    obtain ⟨mid,hr,h⟩ := Outcome.bind_ok.mp h
    cases h
    exact loop_keeps (fun _ _ _ => retryRow_keeps) hr
  | apply batch loaded rows now =>
    obtain ⟨mid,ha,h⟩ := Outcome.bind_ok.mp h
    cases h
    exact loop_keeps (fun _ _ _ => applyRow_keeps) (applyResult_ok ha).1
  | bury batch loaded failure now =>
    obtain ⟨mid,hb,h⟩ := Outcome.bind_ok.mp h
    cases h
    exact loop_keeps (fun _ _ _ => deadLetterOne_keeps) hb
  | replay letter loaded now =>
    obtain ⟨⟨mid,m⟩,hm,h⟩ := Outcome.bind_ok.mp h
    cases h
    rcases replay_ok hm with ⟨rfl,_⟩ | ⟨e,rfl,_,_,rfl,_⟩
    · exact .refl _
    · exact keeps_record (e.requeued letter) (some (replayedReason letter.id)) now (hf e (by simp [session])) rfl rfl

/-- Nor does its commit, whatever the session had read. -/
theorem Transaction.commit_keeps {tx : Transaction} {reply : Reply} (hk : tx.session.Known db)
    (hi : ∀ source plan correlationId now, tx ≠ .ingest source plan correlationId now)
    (h : tx.commit rt db = .ok (out,reply)) : db.Keeps out := by
  obtain ⟨mid,hb,rfl,_⟩ := commit_ok.mp h
  intro k current hcur
  have hview : (tx.session.view db).getEvent k = some (tx.session.event current) := by
    rw [Session.view_getEvent, hcur, Option.map_some]
  obtain ⟨final,hfinal,hlabel⟩ := body_keeps hk.fresh_view.events hi hb k _ hview
  have hkey : db.getEvent final.eventId = some current := by
    rw [Ledger.getEvent_eventId hfinal, hcur]
  refine ⟨Event.merge (tx.session.event current) final current,?_,?_⟩
  · rw [Session.flush_getEvent, hfinal, Option.map_some, Session.settle_of_some hkey]
  · change pick _ final.correlationId _ = _
    rw [hlabel, pick_unchanged]

end Bodies

/-! ## The request that brings a row in -/

theorem CorrelationId.truthy (c : CorrelationId) : ConversionGateway.truthy (some c.value) = true := by
  refine decide_eq_true fun hempty => ?_
  have hlen := c.length_eq
  rw [hempty] at hlen
  cases hlen

/-- What a plan, of a request with this id, has stored in the column. -/
def IngestPlan.label (correlationId : CorrelationId) : IngestPlan → Option String
  | .accept event => event.correlationId
  | _ => some correlationId.value

theorem planIngest_label (rt : Runtime) (source : Source) (body : ByteArray) (correlationId : CorrelationId) :
    (planIngest rt source body correlationId).label correlationId = some correlationId.value := by
  unfold planIngest
  split
  · rfl
  · rfl
  · split <;> rfl

/-- A stored row has the column of the row that was inserted. -/
theorem Event.StoredAs.label {row stored : Event} (h : row.StoredAs stored) :
    stored.correlationId = row.correlationId := by
  obtain ⟨_,_,rfl⟩ := h.columns
  rfl

section Ingest
variable {rt : Runtime} {db out : Ledger} {source : Source} {correlationId : CorrelationId} {now : Time}
  {plan : IngestPlan} {i : Ingested}

theorem enters_label {event : CanonicalLeadEvent} {e : Event}
    (h : (IngestPlan.accept event).Enters source now e) : e.correlationId = event.correlationId := by
  obtain ⟨row,stored,hrow,hstored,rfl⟩ := h
  obtain ⟨_,_,hrow⟩ := Outcome.bind_ok.mp hrow
  obtain ⟨_,_,hrow⟩ := Outcome.bind_ok.mp hrow
  have hlabel : row.correlationId = event.correlationId := by rw [← Outcome.pure_ok.mp hrow]
  exact hstored.label.trans hlabel

/-- An accepted request is answered with its own id, or with that of the row that was
there. -/
theorem ingestAccepted_label {event : CanonicalLeadEvent}
    (h : ingestAccepted rt db correlationId now event = .ok (out,i)) :
    (∀ m ∈ i.message, m.correlationId = some correlationId.value) ∧
    (i.response.statusCode ≠ 200 → i.response.correlationId = correlationId.value) ∧
    (db.getEvent i.response.eventId = none → i.response.statusCode ≠ 200) ∧
    ∀ e, db.getEvent i.response.eventId = some e →
      i.response.correlationId = if truthy e.correlationId then e.correlationId.getD "" else correlationId.value := by
  obtain ⟨⟨mid,r⟩,hr,h₁⟩ := Outcome.bind_ok.mp h
  rcases recordValidated_ok hr with ⟨rfl,rfl,hk⟩ | ⟨row,stored,_,_,hnew,rfl,rfl⟩
  · obtain ⟨e,he⟩ := Option.ne_none_iff_exists'.mp hk
    simp only [he, Outcome.pure_ok, Prod.mk.injEq] at h₁
    obtain ⟨rfl,rfl⟩ := h₁
    have hself := getEvent_self he
    refine ⟨fun m hm => (by cases hm),fun hcode => absurd rfl hcode,fun hnone => ?_,fun x hx => ?_⟩
    · rw [hself] at hnone
      cases hnone
    · rw [hself] at hx
      cases hx
      rfl
  · simp only [Outcome.pure_ok, Prod.mk.injEq] at h₁
    obtain ⟨rfl,rfl⟩ := h₁
    refine ⟨fun m hm => ?_,fun _ => rfl,fun _ hcode => (by cases hcode),fun e he => ?_⟩
    · simp only [ingestMessage] at hm
      split at hm
      · cases hm
      · obtain rfl := Option.some.inj hm
        rfl
    · exact absurd (he.symm.trans hnew) (by simp)

/-- A rejected request is answered with its own id, which is that of the row if the
row is new. -/
theorem ingestRejected_label {sourceEventId : PyText} {errors : List FieldError}
    (h : ingestRejected rt db correlationId now source sourceEventId errors = .ok (out,i)) :
    i.response.correlationId = correlationId.value ∧ i.response.statusCode = 422 ∧ i.message = none ∧
      (db.getEvent i.response.eventId = none →
        ∀ e, out.getEvent i.response.eventId = some e → e.correlationId = some correlationId.value) := by
  obtain ⟨id,_,h₁⟩ := Outcome.bind_ok.mp h
  obtain ⟨⟨mid,r⟩,hr,h₂⟩ := Outcome.bind_ok.mp h₁
  rcases recordRejected_ok hr with ⟨rfl,rfl,_⟩ | ⟨stored,hstored,hnew,rfl,rfl⟩
  · cases h₂
    refine ⟨rfl,rfl,rfl,fun hnone e he => ?_⟩
    rw [hnone] at he
    cases he
  · cases h₂
    refine ⟨rfl,rfl,rfl,fun _ e he => ?_⟩
    have hkey : stored.eventId = makeEventId source id := hstored.eventId
    set moved := stored.moved rejected (some (rejectReason errors))
    have hget : ((db.enter stored hnew now).record stored moved (some (rejectReason errors)) now).getEvent
        moved.eventId = some moved := Ledger.record_getEvent_self (Ledger.enter_getEvent_self now hnew) rfl
    have hlabel : (moved.labelled (some correlationId.value)).eventId = moved.eventId := rfl
    have hmoved : moved.eventId = stored.eventId := rfl
    rw [Ledger.putEvent_getEvent hget hlabel, if_pos (hkey.symm.trans hmoved.symm)] at he
    cases he
    rfl

/-- What the transaction of a request does with its id. -/
theorem ingestBody_label (hplan : plan.label correlationId = some correlationId.value)
    (h : ingestBody rt db correlationId now source plan = .ok (out,i)) :
    (∀ m ∈ i.message, m.correlationId = some correlationId.value) ∧
    (i.response.statusCode ≠ 200 → i.response.correlationId = correlationId.value) ∧
    (db.getEvent i.response.eventId = none → i.response.correlationId = correlationId.value ∧
      ∀ e, out.getEvent i.response.eventId = some e → e.correlationId = some correlationId.value) ∧
    ∀ e, db.getEvent i.response.eventId = some e → i.response.statusCode ≠ 422 →
      i.response.correlationId = if truthy e.correlationId then e.correlationId.getD "" else correlationId.value := by
  have hcases := (ingestBody_ok h).2
  cases plan with
  | raised err => cases h
  | accept event =>
    obtain ⟨hmessage,hown,hnew,hold⟩ := ingestAccepted_label h
    refine ⟨hmessage,hown,fun hnone => ⟨hown (hnew hnone),fun e he => ?_⟩,fun e he _ => hold e he⟩
    rcases hcases with ⟨_,_,hk⟩ | ⟨x,henters,hid,_,hget,_⟩
    · exact absurd hnone hk
    · rw [hget, if_pos hid.symm] at he
      cases he
      exact (enters_label henters).trans hplan
  | reject sourceEventId errors =>
    obtain ⟨hresponse,hcode,hmessage,hnew⟩ := ingestRejected_label h
    refine ⟨fun m hm => ?_,fun _ => hresponse,fun hnone => ⟨hresponse,hnew hnone⟩,fun _ _ hno => absurd hcode hno⟩
    rw [hmessage] at hm
    cases hm

end Ingest

/-! ## The messages in circulation -/

/-- A request keeps its delivery to the end. -/
theorem Request.step_keeps_call {rt : Runtime} {clock : Time} {db : Ledger} {q q' : MessageQueue} {r r' : Request}
    {b : RequestAction} {out : Option String} (h : r.step rt clock db q b = some (r',q',out))
    {call : WebhookCall} (hc : r.call = some call) : r'.call = some call := by
  cases r <;> cases b <;> simp only [Request.step] at h <;> try (cases h; done)
  · cases hc
  · split at h <;> cases h
    exact hc
  · obtain ⟨m,_,h⟩ := Option.map_eq_some_iff.mp h
    cases h
    exact hc
  · obtain ⟨m,_,h⟩ := Option.map_eq_some_iff.mp h
    cases h
    exact hc
  · split at h <;> cases h
    exact hc

section Steps
variable {rt : Runtime} {clock : Time} {db : Ledger} {q q' : MessageQueue} {id : ℕ} {m : QueueMessage}

theorem Request.step_messages {r r' : Request} {b : RequestAction} {out : Option String}
    (h : r.step rt clock db q b = some (r',q',out)) :
    (∀ id m, q'.Holds id m → q.Holds id m ∨ ∃ call i, r = .recorded call i ∧ i.message = some m) ∧
      ∀ call i, r' ≠ .recorded call i := by
  cases r <;> cases b <;> simp only [Request.step] at h <;> try (cases h; done)
  · cases h
    exact ⟨fun _ _ => Or.inl,by rintro _ _ ⟨⟩⟩
  · split at h
    · cases h
      exact ⟨fun _ _ => Or.inl,by rintro _ _ ⟨⟩⟩
    · cases h
  · next call i =>
    obtain ⟨n,hn,h⟩ := Option.map_eq_some_iff.mp h
    cases h
    refine ⟨fun id m hm => ?_,by rintro _ _ ⟨⟩⟩
    rcases Delivery.Queue.holds_publish.mp hm with hm | ⟨_,rfl⟩
    · exact Or.inl hm
    · exact Or.inr ⟨call,i,rfl,hn⟩
  · obtain ⟨n,_,h⟩ := Option.map_eq_some_iff.mp h
    cases h
    exact ⟨fun _ _ => Or.inl,by rintro _ _ ⟨⟩⟩
  · split at h
    · cases h
      exact ⟨fun _ _ => Or.inl,by rintro _ _ ⟨⟩⟩
    · cases h

theorem Worker.step_messages {w w' : Worker} {b : WorkerAction} (h : w.step clock db q b = some (w',q')) :
    (q'.Holds id m → q.Holds id m) ∧ (w'.Carries id m → w.Carries id m ∨ q.Holds id m) := by
  cases w <;> cases b <;> simp only [Worker.step] at h <;> try (cases h; done)
  · obtain ⟨⟨n,q₁⟩,hn,h⟩ := Option.map_eq_some_iff.mp h
    cases h
    obtain ⟨hold,rfl⟩ := Delivery.Queue.receive_eq hn
    refine ⟨Delivery.Queue.holds_mark.mp,?_⟩
    rintro ⟨rfl,rfl⟩
    exact Or.inr hold
  all_goals cases h
  · exact ⟨fun hm => hm,Or.inl⟩
  · exact ⟨fun hm => hm,Or.inl⟩
  · exact ⟨fun hm => hm,fun hc => hc.elim⟩
  · exact ⟨fun hm => hm,fun hc => hc.elim⟩
  · exact ⟨fun hm => (Delivery.Queue.holds_ack.mp hm).1,fun hc => hc.elim⟩
  · exact ⟨Delivery.Queue.holds_release.mp,fun hc => hc.elim⟩

theorem Worker.carries_of_committed {w : Worker} (h : w.committed.Carries id m) : w.Carries id m := by
  cases w with
  | loaded id' message row now => exact h.elim
  | idle | received id' message now | done id' | failed id' => exact h

theorem Replayer.step_messages {r r' : Replayer} {b : ReplayerAction} (h : r.step db q b = some (r',q'))
    (hm : q'.Holds id m) : q.Holds id m ∨
      ∃ letter row now, r = .loaded letter row now ∧ replayMessage letter row now = some m := by
  cases r <;> cases b <;> simp only [Replayer.step] at h <;> try (cases h; done)
  · obtain ⟨letter,_,h⟩ := Option.map_eq_some_iff.mp h
    cases h
    exact Or.inl hm
  · cases h
    exact Or.inl hm
  · next letter row now =>
    obtain ⟨n,hn,h⟩ := Option.map_eq_some_iff.mp h
    cases h
    rcases Delivery.Queue.holds_publish.mp hm with hm | ⟨_,rfl⟩
    · exact Or.inl hm
    · exact Or.inr ⟨letter,row,now,rfl,hn⟩

theorem reconcilerStep_messages {l l' : List QueueMessage} {b : ReconcilerAction}
    (h : reconcilerStep db q l b = some (l',q')) : (∀ id, q'.Holds id m → q.Holds id m ∨ m ∈ l) ∧
      (m ∈ l' → m ∈ l ∨ ∃ threshold now, m ∈ reconcile db threshold now) := by
  unfold reconcilerStep at h
  split at h <;> cases h
  · exact ⟨fun _ => Or.inl,fun hm => Or.inr ⟨_,_,hm⟩⟩
  · next n =>
    refine ⟨fun id hm => ?_,fun hm => Or.inl (List.mem_cons_of_mem _ hm)⟩
    rcases Delivery.Queue.holds_publish.mp hm with hm | ⟨_,rfl⟩
    · exact Or.inl hm
    · exact Or.inr (List.mem_cons_self ..)

end Steps

/-- The answer to a delivery, once the transaction has committed. -/
def Request.response : Request → Option (WebhookCall × Response)
  | recorded call i => some (call,i.response)
  | answered call response => some (call,response)
  | _ => none

section Requests
variable {rt : Runtime} {clock : Time} {db : Ledger} {q q' : MessageQueue} {r r' : Request}

theorem Request.step_label {b : RequestAction} {out : Option String} (h : r.step rt clock db q b = some (r',q',out)) :
    (∀ call, r' = .planned call → call.plan.label call.correlationId = some call.correlationId.value) ∧
      ∀ response, r'.response = some response → r.response = some response := by
  cases r <;> cases b <;> simp only [Request.step] at h <;> try (cases h; done)
  · cases h
    refine ⟨?_,by rintro _ ⟨⟩⟩
    rintro _ ⟨⟩
    exact planIngest_label rt _ _ _
  · split at h <;> cases h
    exact ⟨by rintro _ ⟨⟩,by rintro _ ⟨⟩⟩
  · obtain ⟨m,_,h⟩ := Option.map_eq_some_iff.mp h
    cases h
    exact ⟨by rintro _ ⟨⟩,fun _ hr => hr⟩
  · obtain ⟨m,_,h⟩ := Option.map_eq_some_iff.mp h
    cases h
    exact ⟨by rintro _ ⟨⟩,fun _ hr => hr⟩
  · split at h <;> cases h
    exact ⟨by rintro _ ⟨⟩,fun _ hr => hr⟩

end Requests

namespace System

/-- The message is in the queue, or a process has it. -/
inductive Circulates (s : System) (m : QueueMessage) : Prop
  | queued {id : ℕ} (h : s.queue.Holds id m)
  | received {n id : ℕ} (h : (s.workers n).Carries id m)
  | recorded {n : ℕ} {call : WebhookCall} {i : Ingested} (h : s.requests n = .recorded call i)
      (hm : i.message = some m)
  | listed {n : ℕ} (h : m ∈ s.reconcilers n)

variable {rt : Runtime} {settings : ℕ → Settings} {s t : System} {a : Action} {m : QueueMessage}

theorem Circulates.mono (hm : t.Circulates m) (hq : ∀ id, t.queue.Holds id m → s.queue.Holds id m)
    (hw : t.workers = s.workers) (hr : t.requests = s.requests) (hl : t.reconcilers = s.reconcilers) :
    s.Circulates m := by
  cases hm with
  | queued h => exact .queued (hq _ h)
  | received h => exact .received (hw ▸ h)
  | recorded h hm => exact .recorded (hr ▸ h) hm
  | listed h => exact .listed (hl ▸ h)

/-- A message that is new in circulation is one of an ingest that commits, of a replay,
or of a reconcile command. -/
theorem step_circulates (h : step rt settings s a = some t) (hm : t.Circulates m) : s.Circulates m ∨
    (∃ n tx i, a = .commit (.request n) ∧ Commits rt settings s t (.request n) tx (.ingested i) ∧
      i.message = some m) ∨
    (∃ n letter row now, s.replayers n = .loaded letter row now ∧ replayMessage letter row now = some m) ∨
    ∃ threshold now, m ∈ reconcile s.ledger threshold now := by
  cases a with
  | tick now =>
    simp only [step, Option.ite_none_right_eq_some] at h
    cases h.2
    exact Or.inl (hm.mono (fun _ => id) rfl rfl rfl)
  | expire id =>
    cases h
    exact Or.inl (hm.mono (fun _ => Delivery.Queue.holds_release.mp) rfl rfl rfl)
  | uploader n b =>
    obtain ⟨p,_,rfl⟩ := Option.map_eq_some_iff.mp h
    exact Or.inl (hm.mono (fun _ => id) rfl rfl rfl)
  | request n b =>
    obtain ⟨⟨r,q,out⟩,hp,rfl⟩ := Option.map_eq_some_iff.mp h
    cases hm with
    | queued h =>
      rcases (Request.step_messages hp).1 _ _ h with h | ⟨call,i,hr,hm⟩
      · exact Or.inl (.queued h)
      · exact Or.inl (.recorded hr hm)
    | received h => exact Or.inl (.received h)
    | @recorded j call i h hm =>
      simp only [Function.update_apply] at h
      split at h
      · exact absurd h ((Request.step_messages hp).2 call i)
      · exact Or.inl (.recorded h hm)
    | listed h => exact Or.inl (.listed h)
  | worker n b =>
    obtain ⟨⟨w,q⟩,hp,rfl⟩ := Option.map_eq_some_iff.mp h
    cases hm with
    | queued h => exact Or.inl (.queued ((Worker.step_messages hp).1 h))
    | @received j id h =>
      simp only [Function.update_apply] at h
      split at h
      · rcases (Worker.step_messages hp).2 h with h | h
        · exact Or.inl (.received h)
        · exact Or.inl (.queued h)
      · exact Or.inl (.received h)
    | recorded h hm => exact Or.inl (.recorded h hm)
    | listed h => exact Or.inl (.listed h)
  | replayer n b =>
    obtain ⟨⟨r,q⟩,hp,rfl⟩ := Option.map_eq_some_iff.mp h
    cases hm with
    | queued h =>
      rcases Replayer.step_messages hp h with h | ⟨letter,row,now,hr,hm⟩
      · exact Or.inl (.queued h)
      · exact Or.inr (Or.inr (Or.inl ⟨n,letter,row,now,hr,hm⟩))
    | received h => exact Or.inl (.received h)
    | recorded h hm => exact Or.inl (.recorded h hm)
    | listed h => exact Or.inl (.listed h)
  | reconciler n b =>
    obtain ⟨⟨l,q⟩,hp,rfl⟩ := Option.map_eq_some_iff.mp h
    cases hm with
    | queued h =>
      rcases (reconcilerStep_messages hp).1 _ h with h | h
      · exact Or.inl (.queued h)
      · exact Or.inl (.listed h)
    | received h => exact Or.inl (.received h)
    | recorded h hm => exact Or.inl (.recorded h hm)
    | @listed j h =>
      simp only [Function.update_apply] at h
      split at h
      · rcases (reconcilerStep_messages hp).2 h with h | h
        · exact Or.inl (.listed h)
        · exact Or.inr (Or.inr (Or.inr h))
      · exact Or.inl (.listed h)
  | crash who =>
    cases h
    cases who with
    | uploader n | replayer n => exact Or.inl (hm.mono (fun _ => id) rfl rfl rfl)
    | request n =>
      cases hm with
      | queued h => exact Or.inl (.queued h)
      | received h => exact Or.inl (.received h)
      | recorded h hm =>
        simp only [crash, Function.update_apply] at h
        split at h
        · cases hn : s.requests n <;> rw [hn] at h <;> cases h
        · exact Or.inl (.recorded h hm)
      | listed h => exact Or.inl (.listed h)
    | worker n =>
      cases hm with
      | queued h => exact Or.inl (.queued h)
      | received h =>
        simp only [crash, Function.update_apply] at h
        split at h
        · exact h.elim
        · exact Or.inl (.received h)
      | recorded h hm => exact Or.inl (.recorded h hm)
      | listed h => exact Or.inl (.listed h)
    | reconciler n =>
      cases hm with
      | queued h => exact Or.inl (.queued h)
      | received h => exact Or.inl (.received h)
      | recorded h hm => exact Or.inl (.recorded h hm)
      | listed h =>
        simp only [crash, Function.update_apply] at h
        split at h
        · cases h
        · exact Or.inl (.listed h)
  | commit who =>
    obtain ⟨tx,reply,hc⟩ := step_commit h
    have hafter := hc.after
    cases who with
    | uploader n | replayer n | reconciler n =>
      exact Or.inl (hm.mono (fun _ hq => by rwa [hafter] at hq) (by rw [hafter]; rfl) (by rw [hafter]; rfl)
        (by rw [hafter]; rfl))
    | worker n =>
      rw [hafter] at hm
      cases hm with
      | queued h => exact Or.inl (.queued h)
      | received h =>
        simp only [committed, Function.update_apply] at h
        split at h
        · exact Or.inl (.received (Worker.carries_of_committed h))
        · exact Or.inl (.received h)
      | recorded h hm => exact Or.inl (.recorded h hm)
      | listed h => exact Or.inl (.listed h)
    | request n =>
      rw [hafter] at hm
      cases hm with
      | queued h => exact Or.inl (.queued h)
      | received h => exact Or.inl (.received h)
      | @recorded j call i h hm =>
        simp only [committed, Function.update_apply] at h
        split at h
        · unfold Request.committed at h
          split at h
          · cases h
            exact Or.inr (Or.inl ⟨n,tx,i,rfl,hc,hm⟩)
          · exact Or.inl (.recorded h hm)
        · exact Or.inl (.recorded h hm)
      | listed h => exact Or.inl (.listed h)

/-! ## The invariant -/

theorem Commits.keeps {who : Process} {tx : Transaction} {reply : Reply} (hs : s.Linked)
    (hc : Commits rt settings s t who tx reply) : s.ledger.Keeps t.ledger := by
  by_cases hi : ∃ source plan correlationId now, tx = .ingest source plan correlationId now
  · obtain ⟨source,plan,correlationId,now,rfl⟩ := hi
    obtain ⟨⟨i,hbody,_⟩,_⟩ := commit_ingest.mp hc.commit
    exact fun k e he => ⟨e,ingestBody_row hbody he,rfl⟩
  · exact Transaction.commit_keeps (hs.known hc.transaction)
      (fun source plan correlationId now heq => hi ⟨source,plan,correlationId,now,heq⟩) hc.commit

theorem step_correlation (hs : s.Linked) (h : step rt settings s a = some t) : s.ledger.Keeps t.ledger := by
  rcases step_ledger h with heq | ⟨who,tx,reply,_,hc⟩
  · rw [heq]
    exact .refl _
  · exact hc.keeps hs

theorem step_keeps_call (h : step rt settings s a = some t) {n : ℕ} {call : WebhookCall}
    (hc : (s.requests n).call = some call) : (t.requests n).call = some call := by
  rcases step_request h n with heq | ⟨b,q,out,_,hstep⟩ | ⟨reply,heq⟩ | heq
  · rw [heq, hc]
  · exact Request.step_keeps_call hstep hc
  · rw [heq, Request.committed_call, hc]
  · rw [heq, Request.crash_call, hc]

/-- The ids that the ledger, the messages and the answers have: every row has that of a
request that was delivered for its event, every message in circulation that of its event's
row, a 202 its own, which is that of its row, a 200 that of its row, a 422 its own. -/
structure Correlated (s : System) : Prop where
  linked : s.Linked
  planned : ∀ n call, s.requests n = .planned call →
    call.plan.label call.correlationId = some call.correlationId.value
  rows : ∀ k e, s.ledger.getEvent k = some e → ∃ n call, (s.requests n).call = some call ∧
    call.eventId = some k ∧ e.correlationId = some call.correlationId.value
  held : ∀ who, ∀ e ∈ s.rows who, ∃ x, s.ledger.getEvent e.eventId = some x ∧ x.correlationId = e.correlationId
  messages : ∀ m, s.Circulates m → s.ledger.Names m
  answers : ∀ n call response, (s.requests n).response = some (call,response) →
    (response.statusCode ≠ 200 → response.correlationId = call.correlationId.value) ∧
    (response.statusCode ≠ 422 →
      ∃ e, s.ledger.getEvent response.eventId = some e ∧ e.correlationId = some response.correlationId)

theorem start_correlated : (start Ledger.empty).Correlated := by
  refine ⟨start_linked _,by rintro n _ ⟨⟩,by rintro k e ⟨⟩,fun who e he => ?_,fun m hm => ?_,by rintro n _ _ ⟨⟩⟩
  · cases who <;> simp [System.rows,start,Worker.rows,Uploader.rows,Uploader.fresh,Replayer.rows] at he
  · cases hm with
    | queued h =>
      obtain ⟨e,he,_⟩ := h
      cases he
    | received h => exact h.elim
    | recorded h hm => cases h
    | listed h => cases h

/-- An ingest through its commit: a row it brings in has its id, its message names a row
that has it, and so does the answer. -/
theorem Commits.label {who : Process} {source : Source} {plan : IngestPlan} {correlationId : CorrelationId}
    {now : Time} {i : Ingested} (hs : s.Correlated)
    (hc : Commits rt settings s t who (.ingest source plan correlationId now) (.ingested i)) :
    (∀ k e, s.ledger.getEvent k = none → t.ledger.getEvent k = some e → e.correlationId = some correlationId.value) ∧
    (∀ m ∈ i.message, t.ledger.Names m) ∧
    (i.response.statusCode ≠ 200 → i.response.correlationId = correlationId.value) ∧
    (i.response.statusCode ≠ 422 →
      ∃ e, t.ledger.getEvent i.response.eventId = some e ∧ e.correlationId = some i.response.correlationId) := by
  obtain ⟨n,_,hn⟩ := transaction_ingest hc.transaction
  obtain ⟨⟨j,hbody,hj⟩,_⟩ := commit_ingest.mp hc.commit
  cases hj
  obtain ⟨hmessage,hown,hnew,hold⟩ := ingestBody_label (hs.planned n _ hn) hbody
  rcases (ingestBody_ok hbody).2 with ⟨heq,hno,hk⟩ | ⟨x,_,hid,hnone,hget,hm⟩
  · refine ⟨fun k e hk he => ?_,fun m hm => ?_,hown,fun hcode => ?_⟩
    · rw [heq, hk] at he
      cases he
    · rw [hno] at hm
      cases hm
    · obtain ⟨e,he⟩ := Option.ne_none_iff_exists'.mp hk
      obtain ⟨_,call,_,_,hlabel⟩ := hs.rows _ e he
      refine ⟨e,heq ▸ he,?_⟩
      rw [hold e he hcode, hlabel, if_pos call.correlationId.truthy]
      rfl
  · rw [hid] at hnone
    have hx : t.ledger.getEvent i.response.eventId = some x := by rw [hget, if_pos hid.symm]
    obtain ⟨hresponse,hrow⟩ := hnew hnone
    refine ⟨fun k e hk he => ?_,fun m hm' => ⟨x,?_,?_⟩,hown,fun _ => ⟨x,hx,?_⟩⟩
    · rw [hget] at he
      split at he
      · next heq =>
        rw [heq, hid] at hk
        cases he
        exact hrow x hx
      · rw [hk] at he
        cases he
    · rw [(hm m hm').1, hid]
      exact hx
    · rw [hrow x hx, hmessage m hm']
    · rw [hrow x hx, hresponse]

/-- An answer was there before, or the transaction of its request has just committed. -/
theorem step_response (h : step rt settings s a = some t) {n : ℕ} {call : WebhookCall} {response : Response}
    (hr : (t.requests n).response = some (call,response)) : (s.requests n).response = some (call,response) ∨
      ∃ i, Commits rt settings s t (.request n) call.transaction (.ingested i) ∧ i.response = response := by
  cases a with
  | tick now =>
    simp only [step, Option.ite_none_right_eq_some] at h
    cases h.2
    exact Or.inl hr
  | expire id =>
    cases h
    exact Or.inl hr
  | worker m b | uploader m b | replayer m b | reconciler m b =>
    obtain ⟨p,_,rfl⟩ := Option.map_eq_some_iff.mp h
    exact Or.inl hr
  | request m b =>
    obtain ⟨⟨r,q,out⟩,hp,rfl⟩ := Option.map_eq_some_iff.mp h
    simp only [Function.update_apply] at hr
    split at hr
    · next hm =>
      subst hm
      exact Or.inl ((Request.step_label hp).2 _ hr)
    · exact Or.inl hr
  | crash who =>
    cases h
    cases who with
    | worker m | uploader m | replayer m | reconciler m => exact Or.inl hr
    | request m =>
      simp only [crash, Function.update_apply] at hr
      split at hr
      · next hm =>
        subst hm
        cases hn : s.requests n <;> rw [hn] at hr <;> first | cases hr; done | exact Or.inl hr
      · exact Or.inl hr
  | commit who =>
    obtain ⟨tx,reply,hc⟩ := step_commit h
    have hafter := hc.after
    cases who with
    | worker m | uploader m | replayer m | reconciler m =>
      rw [hafter] at hr
      exact Or.inl hr
    | request m =>
      by_cases hm : n = m
      · subst hm
        have htx : (s.requests n).transaction = some tx := hc.transaction
        rw [hafter] at hr
        simp only [committed, Function.update_self] at hr
        cases hn : s.requests n with
        | planned call' =>
          rw [hn] at hr htx
          cases htx
          cases reply with
          | ingested i =>
            cases hr
            exact Or.inr ⟨i,hc,rfl⟩
          | processed | claimed | written | replayed => cases hr
        | idle | recorded | answered | failed | lost =>
          rw [hn] at htx
          cases htx
      · rw [hafter] at hr
        simp only [committed, Function.update_of_ne hm] at hr
        exact Or.inl hr

/-- A row keeps its request, or the request has just brought it in. -/
theorem Correlated.row (hs : s.Correlated) (h : step rt settings s a = some t) {k : String} {e : Event}
    (he : t.ledger.getEvent k = some e) : ∃ n call, (t.requests n).call = some call ∧
      call.eventId = some k ∧ e.correlationId = some call.correlationId.value := by
  cases hk : s.ledger.getEvent k with
  | some e₀ =>
    obtain ⟨x,hx,hlabel⟩ := step_correlation hs.linked h k e₀ hk
    rw [he] at hx
    cases hx
    obtain ⟨n,call,hcall,hid,hc⟩ := hs.rows k e₀ hk
    exact ⟨n,call,step_keeps_call h hcall,hid,hlabel.trans hc⟩
  | none =>
    rcases step_ledger h with heq | ⟨who,tx,reply,_,hc⟩
    · rw [heq, hk] at he
      cases he
    · obtain ⟨source,plan,c,now,rfl,hid,_⟩ := hc.new_row hs.linked hk he
      obtain ⟨n,_,hn⟩ := transaction_ingest hc.transaction
      obtain ⟨i,rfl,_⟩ := hc.ingest
      have hcall : (s.requests n).call = some ⟨source,plan,c,now⟩ := by rw [hn]; rfl
      exact ⟨n,_,step_keeps_call h hcall,hid,(hc.label hs).1 k e hk he⟩

/-- A message that comes into circulation is made from a row. -/
theorem Correlated.message (hs : s.Correlated) (h : step rt settings s a = some t) {m : QueueMessage}
    (hm : t.Circulates m) : t.ledger.Names m := by
  have hkeeps := step_correlation hs.linked h
  rcases step_circulates h hm with hm | ⟨n,tx,i,_,hc,hm⟩ | ⟨n,letter,row,now,hr,hm⟩ | ⟨threshold,now,hm⟩
  · exact hkeeps.names (hs.messages m hm)
  · have htx := hc.transaction
    simp only [transaction, Request.transaction] at htx
    split at htx
    · cases htx
      exact (hc.label hs).2.1 m hm
    · cases htx
  · refine hkeeps.names ?_
    obtain ⟨e,rfl,_⟩ := replayMessage_event hm
    have he : e ∈ s.rows (.replayer n) := by
      change e ∈ (s.replayers n).rows
      rw [hr]
      exact List.mem_singleton_self e
    obtain ⟨x,hx,hlabel⟩ := hs.held (.replayer n) e he
    unfold replayMessage at hm
    dsimp only at hm
    split at hm
    · cases hm
      exact ⟨x,hx,hlabel⟩
    · cases hm
  · refine hkeeps.names ?_
    obtain ⟨e,he,rfl⟩ := List.mem_map.mp hm
    exact ⟨e,Relational.Table.get_of_mem (mem_findStuckQueued.mp (List.mem_filter.mp he).1).1,rfl⟩

theorem step_correlated (hs : s.Correlated) (h : step rt settings s a = some t) : t.Correlated := by
  have hkeeps := step_correlation hs.linked h
  refine ⟨step_linked hs.linked h,fun n call hn => ?_,fun _ _ he => hs.row h he,fun who e he => ?_,
    fun _ hm => hs.message h hm,fun n call response hr => ?_⟩
  · rcases step_request h n with heq | ⟨b,q,out,_,hstep⟩ | ⟨reply,heq⟩ | heq
    · exact hs.planned n call (heq ▸ hn)
    · exact (Request.step_label hstep).1 call hn
    · rw [heq] at hn
      unfold Request.committed at hn
      split at hn
      · cases hn
      · exact hs.planned n call hn
    · rw [heq] at hn
      cases hr : s.requests n <;> rw [hr] at hn <;> cases hn
  · have hread : ∃ x, s.ledger.getEvent e.eventId = some x ∧ x.correlationId = e.correlationId := by
      rcases step_rows h he with he | he
      · exact hs.held who e he
      · exact ⟨e,he,rfl⟩
    obtain ⟨x,hx,hlabel⟩ := hread
    obtain ⟨y,hy,hxy⟩ := hkeeps _ x hx
    exact ⟨y,hy,hxy.trans hlabel⟩
  · have hstays (hold : (s.requests n).response = some (call,response)) :
        (response.statusCode ≠ 200 → response.correlationId = call.correlationId.value) ∧
        (response.statusCode ≠ 422 →
          ∃ e, t.ledger.getEvent response.eventId = some e ∧ e.correlationId = some response.correlationId) := by
      obtain ⟨hown,hrow⟩ := hs.answers n call response hold
      refine ⟨hown,fun hcode => ?_⟩
      obtain ⟨e,he,hlabel⟩ := hrow hcode
      obtain ⟨x,hx,hxe⟩ := hkeeps _ e he
      exact ⟨x,hx,hxe.trans hlabel⟩
    rcases step_response h hr with hold | ⟨i,hc,rfl⟩
    · exact hstays hold
    · exact (hc.label hs).2.2

theorem run_correlation (hs : s.Linked) {actions : List Action} (h : run rt settings s actions = some t) :
    s.ledger.Keeps t.ledger := by
  induction actions generalizing s with
  | nil =>
    cases h
    exact .refl _
  | cons a rest ih =>
    obtain ⟨m,hm,hrest⟩ := Machine.run_cons.mp h
    exact (step_correlation hs hm).trans (ih (step_linked hs hm) hrest)

/-- In every reachable state every row has the correlation id of a request that was
delivered for its event, every message in circulation has that of its event's row, and the
answers agree with the rows; and no step from there changes the id of a row. -/
theorem run_correlated (rt : Runtime) (settings : ℕ → Settings) (actions later : List Action) (s t : System)
    (h : run rt settings (start Ledger.empty) actions = some s) (hlater : run rt settings s later = some t) :
    s.Correlated ∧ s.ledger.Keeps t.ledger := by
  have hs : s.Correlated := Machine.run_inv' Correlated (fun _ _ _ hs hst => step_correlated hs hst)
    start_correlated h
  exact ⟨hs,run_correlation hs.linked hlater⟩

/-- The theorem at one event, from its delivery to its upload. -/
theorem run_correlated_uploadOnce : ∃ s t,
    run (clickRuntime 1704067200000) (fun _ => .single) (start Ledger.empty) (uploadOnce.take 4) = some s ∧
    run (clickRuntime 1704067200000) (fun _ => .single) s (uploadOnce.drop 4) = some t ∧
    s.Correlated ∧ s.ledger.Keeps t.ledger := by
  have h : (run (clickRuntime 1704067200000) (fun _ => .single) (start Ledger.empty) uploadOnce).isSome := by
    decide +kernel
  obtain ⟨t,ht⟩ := Option.isSome_iff_exists.mp h
  rw [← List.take_append_drop 4 uploadOnce] at ht
  obtain ⟨s,hs,ht⟩ := Machine.run_append.mp ht
  exact ⟨s,t,hs,ht,run_correlated _ _ _ _ s t hs ht⟩

end System
end ConversionGateway
