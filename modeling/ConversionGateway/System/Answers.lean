import ConversionGateway.Lifecycle.IngestOutcome
import ConversionGateway.System.Step

/-! # What a request is told

An accepted event is answered with the status of its row, a new one or the one that
was there. A rejected request is answered REJECTED, whatever its row says.
-/
namespace ConversionGateway
open EventStatus

section Answer
variable {rt : Runtime} {db out : Ledger} {source : Source} {correlationId : CorrelationId} {now : Time}
  {i : Ingested}

theorem ingestAccepted_status {event : CanonicalLeadEvent}
    (h : ingestAccepted rt db correlationId now event = .ok (out,i)) :
    (db.getEvent i.response.eventId = none ∧ i.response.status = queued) ∨
      ∃ e, db.getEvent i.response.eventId = some e ∧ i.response.status = e.status := by
  obtain ⟨⟨db₁,r⟩,hr,h₁⟩ := Outcome.bind_ok.mp h
  rcases recordValidated_ok hr with ⟨rfl,rfl,hk⟩ | ⟨row,stored,hrow,hstored,hnew,rfl,rfl⟩
  · obtain ⟨e,he⟩ := Option.ne_none_iff_exists'.mp hk
    simp only [he, Outcome.pure_ok, Prod.mk.injEq] at h₁
    obtain ⟨-,rfl⟩ := h₁
    exact Or.inr ⟨e,getEvent_self he,rfl⟩
  · simp only [Outcome.pure_ok, Prod.mk.injEq] at h₁
    obtain ⟨-,rfl⟩ := h₁
    exact Or.inl ⟨hnew,rfl⟩

theorem ingestRejected_status {sourceEventId : PyText} {errors : List FieldError}
    (h : ingestRejected rt db correlationId now source sourceEventId errors = .ok (out,i)) :
    i.response.status = rejected := by
  obtain ⟨id,_,h₁⟩ := Outcome.bind_ok.mp h
  obtain ⟨⟨db₁,r⟩,_,h₂⟩ := Outcome.bind_ok.mp h₁
  cases r with
  | none =>
    cases h₂
    rfl
  | some row =>
    cases h₂
    rfl

/-- The row a request is answered about, and when it has the status of the answer. -/
theorem ingestBody_status {plan : IngestPlan} (h : ingestBody rt db correlationId now source plan = .ok (out,i)) :
    ∃ e, out.getEvent i.response.eventId = some e ∧ (e.status = i.response.status ↔
      ∀ sourceEventId errors, plan = .reject sourceEventId errors →
        ∀ e₀, db.getEvent i.response.eventId = some e₀ → e₀.status = rejected) := by
  obtain ⟨_,hcases⟩ := ingestBody_ok h
  cases plan with
  | raised err => cases h
  | accept event =>
    have hright : ∀ sourceEventId errors, IngestPlan.accept event = .reject sourceEventId errors →
        ∀ e₀, db.getEvent i.response.eventId = some e₀ → e₀.status = rejected := by
      intro _ _ hplan
      cases hplan
    have hstatus := ingestAccepted_status h
    rcases hcases with ⟨rfl,_,hk⟩ | ⟨e,hentered,hid,hnew,hget,_⟩
    · rcases hstatus with ⟨hnone,_⟩ | ⟨e,he,hs⟩
      · exact absurd hnone hk
      · exact ⟨e,he,iff_of_true hs.symm hright⟩
    · rw [hid] at hnew
      rcases hstatus with ⟨_,hs⟩ | ⟨e,he,_⟩
      · refine ⟨e,by rw [hget, if_pos hid.symm],iff_of_true ?_ hright⟩
        obtain ⟨_,stored,_,_,rfl⟩ := hentered
        exact hs.symm
      · rw [hnew] at he
        cases he
  | reject sourceEventId errors =>
    have hs : i.response.status = rejected := ingestRejected_status h
    rcases hcases with ⟨rfl,_,hk⟩ | ⟨e,hentered,hid,hnew,hget,_⟩
    · obtain ⟨e,he⟩ := Option.ne_none_iff_exists'.mp hk
      refine ⟨e,he,?_⟩
      rw [hs]
      constructor
      · rintro hrow _ _ _ e₀ he₀
        rw [he] at he₀
        cases he₀
        exact hrow
      · intro hall
        exact hall sourceEventId errors rfl e he
    · rw [hid] at hnew
      refine ⟨e,by rw [hget, if_pos hid.symm],iff_of_true ?_ ?_⟩
      · obtain ⟨_,stored,_,_,_,rfl⟩ := hentered
        exact hs.symm
      · intro _ _ _ e₀ he₀
        rw [hnew] at he₀
        cases he₀

end Answer

/-- On every ledger, so on every one that is reached, the answer has the status of its row
unless a request that fails validation comes on an id that is there with another status. -/
theorem ingest_answer_agrees_iff {rt : Runtime} {db out : Ledger} {source : Source} {body : ByteArray} {now : Time}
    {correlationId : CorrelationId} {i : Ingested}
    (h : ingest rt db source body now correlationId = .ok (out,.ingested i)) :
    (∃ e, out.getEvent i.response.eventId = some e ∧ e.status = i.response.status) ↔
      ∀ sourceEventId errors k e, planIngest rt source body correlationId = .reject sourceEventId errors →
        (planIngest rt source body correlationId).eventId source = some k → db.getEvent k = some e →
        e.status = rejected := by
  obtain ⟨⟨_,hbody,hreply⟩,_⟩ := commit_ingest.mp h
  cases hreply
  obtain ⟨hid,_⟩ := ingestBody_ok hbody
  obtain ⟨row,hrow,hagrees⟩ := ingestBody_status hbody
  constructor
  · rintro ⟨e,he,hs⟩ sourceEventId errors k e₀ hplan hk he₀
    rw [hrow] at he
    cases he
    rw [hid] at hk
    cases hk
    exact hagrees.mp hs sourceEventId errors hplan e₀ he₀
  · intro hall
    refine ⟨row,hrow,hagrees.mpr ?_⟩
    intro sourceEventId errors hplan e₀ he₀
    exact hall sourceEventId errors _ e₀ hplan hid he₀

/-- A request with nothing but an id. -/
def bareBody : ByteArray := "\x7b\"eventId\":1\x7d".toUTF8

/-- The decoder for it and for the delivery with a click id. -/
def bareRuntime : Runtime :=
  { clickRuntime 1704067200000 with
    loads := fun data =>
      if data.data.toList = bareBody.data.toList then .value (.obj [("eventId",.int 1)])
      else .value (clickPayload 1704067200000) }

/-- The answer of a request and the status of its row. -/
def told : Except PyError (Ledger × Reply) → Option (Response × Option EventStatus)
  | .ok (out,.ingested i) => some (i.response,(out.getEvent i.response.eventId).map Event.status)
  | _ => none

theorem told_some {result : Except PyError (Ledger × Reply)} {response : Response} {status : EventStatus}
    (h : told result = some (response,some status)) : ∃ out i e, result = .ok (out,.ingested i) ∧
      i.response = response ∧ out.getEvent response.eventId = some e ∧ e.status = status := by
  unfold told at h
  split at h
  · next out i =>
    simp only [Option.some.injEq, Prod.mk.injEq, Option.map_eq_some_iff] at h
    obtain ⟨rfl,e,he,hs⟩ := h
    exact ⟨out,i,e,rfl,rfl,he,hs⟩
  · cases h

namespace System

/-- The first delivery of an event is answered with the status it gets. -/
theorem ingest_answer_agrees_iff_click : ∃ out i,
    ingest (clickRuntime 1704067200000) Ledger.empty .hubspot (clickBody 1704067200000) 0 .zero =
      .ok (out,.ingested i) ∧
    ∃ e, out.getEvent i.response.eventId = some e ∧ e.status = i.response.status := by
  have h : told (ingest (clickRuntime 1704067200000) Ledger.empty .hubspot (clickBody 1704067200000) 0 .zero) =
      some (⟨202,"hubspot:1",queued,CorrelationId.zero.value,[]⟩,some queued) := by decide +kernel
  obtain ⟨out,i,_,hi,_,_,_⟩ := told_some h
  refine ⟨out,i,hi,(ingest_answer_agrees_iff hi).mpr ?_⟩
  intro _ _ _ e _ _ he
  cases he

/-- After its upload an event is answered REJECTED, on a request with its id that fails
validation. -/
theorem not_answer_agrees_uploaded : ∃ s out i e,
    run bareRuntime (fun _ => .single) (start Ledger.empty) uploadOnce = some s ∧
    ingest bareRuntime s.ledger .hubspot bareBody 9 .zero = .ok (out,.ingested i) ∧
    i.response.statusCode = 422 ∧ i.response.eventId = "hubspot:1" ∧ i.response.status = rejected ∧
    out.getEvent "hubspot:1" = some e ∧ e.status = uploaded := by
  have h : ((run bareRuntime (fun _ => .single) (start Ledger.empty) uploadOnce).bind fun s =>
      (told (ingest bareRuntime s.ledger .hubspot bareBody 9 .zero)).map fun p =>
        (p.1.statusCode,p.1.eventId,p.1.status,p.2)) = some (422,"hubspot:1",rejected,some uploaded) := by
    decide +kernel
  obtain ⟨s,hs,h⟩ := Option.bind_eq_some_iff.mp h
  obtain ⟨⟨response,status⟩,htold,hcols⟩ := Option.map_eq_some_iff.mp h
  simp only [Prod.mk.injEq] at hcols
  obtain ⟨hcode,hid,hstatus,rfl⟩ := hcols
  obtain ⟨out,i,e,hi,rfl,he,hrow⟩ := told_some htold
  exact ⟨s,out,i,e,hs,hi,hcode,hid,hstatus,hid ▸ he,hrow⟩

end System
end ConversionGateway
