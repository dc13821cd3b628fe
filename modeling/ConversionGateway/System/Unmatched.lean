import ConversionGateway.Lifecycle.IdentifierFields
import ConversionGateway.Lifecycle.SourceEventId
import ConversionGateway.System.Reconcile
import ConversionGateway.System.Resends

/-! # Events that nothing matches

Identifiers that are blank are absent, but a click id is absent only if it is empty.
An event without a match key is rejected if it has no click id in this sense, or if some
identifier was rejected for itself.
-/
namespace ConversionGateway
open Relational EventStatus

/-! ## The click id of a payload -/

/-- The click id of a valid payload, as it was sent. -/
def sentClickId (rt : Runtime) (source : Source) (payload : Json) : Option PyText :=
  match source with
  | .salesforce =>
    match SalesforceWebhook.modelValidate rt payload with
    | .invalid _ => none
    | .valid webhook => webhook.lead.gclid
  | .hubspot =>
    match HubSpotWebhook.modelValidate rt payload with
    | .invalid _ => none
    | .valid webhook => webhook.properties.hsGoogleClickId

theorem parseAndMap_clickId {rt : Runtime} {source : Source} {payload : Json} {event : CanonicalLeadEvent}
    (h : parseAndMap rt source payload = .event event) : event.clickId = orNone (sentClickId rt source payload) := by
  cases source with
  | salesforce =>
    simp only [parseAndMap, sentClickId] at h ⊢
    cases hw : SalesforceWebhook.modelValidate rt payload with
    | invalid errors =>
      rw [hw] at h
      cases h
    | valid webhook =>
      rw [hw] at h
      rw [CanonicalLeadEvent.checked_valid (ofValidated_event h)]
  | hubspot =>
    simp only [parseAndMap, sentClickId] at h ⊢
    cases hw : HubSpotWebhook.modelValidate rt payload with
    | invalid errors =>
      rw [hw] at h
      cases h
    | valid webhook =>
      rw [hw] at h
      simp only [mapHubspot] at h
      cases ht : fromTimestamp rt webhook.occurredAt with
      | error e =>
        rw [ht] at h
        cases h
      | ok time =>
        rw [ht] at h
        rw [CanonicalLeadEvent.checked_valid (ofValidated_event h)]

/-- `value or None` is there if the value was not empty. -/
theorem orNone_truthy (value : Option PyText) : (orNone value).any PyText.truthy = value.any PyText.truthy := by
  cases value with
  | none => rfl
  | some t => cases ht : t.truthy <;> simp [orNone,Option.filter,ht]

/-! ## The verdict on an event without a match key -/

section Verdict
variable {rt : Runtime} {e : Event} {message : QueueMessage}

theorem reusedDigests_of_none (hd : e.hashedIdentifiers = none) : reusedDigests e message = none := by
  unfold reusedDigests
  split
  · exact hd
  · rfl

theorem verdict_counted (hg : e.Granted) (hd : e.hashedIdentifiers = none)
    (hcounted : countedRejections e (buildUserIdentifiers rt message.identifiers).rejections ≠ []) :
    e.verdict rt message =
      ⟨e.moved .rejected (some (rejectionsReason (countedRejections e
        (buildUserIdentifiers rt message.identifiers).rejections))),
      some (rejectionsReason (countedRejections e (buildUserIdentifiers rt message.identifiers).rejections)),
      .rejected⟩ := by
  simp only [Event.verdict, evaluateConsent_reason_none.mpr hg, reusedDigests_of_none hd, if_pos hcounted]

theorem verdict_uncounted (hg : e.Granted) (hd : e.hashedIdentifiers = none)
    (hcounted : countedRejections e (buildUserIdentifiers rt message.identifiers).rejections = []) :
    e.verdict rt message =
      ⟨e.processedWith (buildUserIdentifiers rt message.identifiers).identifiers,none,.processed⟩ := by
  simp only [Event.verdict, evaluateConsent_reason_none.mpr hg, reusedDigests_of_none hd, hcounted, ne_eq,
    not_true_eq_false, if_false]

/-- What counts against an event without a match key. -/
theorem countedRejections_ne_nil {raw : RawIdentifiers} (hkey : (buildUserIdentifiers rt raw).identifiers.hasMatchKey = false) :
    countedRejections e (buildUserIdentifiers rt raw).rejections ≠ [] ↔
      truthy e.clickId = false ∨ ∃ r ∈ (buildUserIdentifiers rt raw).rejections, r.reason ≠ .noMatchKey := by
  have hmissing : ⟨"identifiers",.noMatchKey⟩ ∈ (buildUserIdentifiers rt raw).rejections := by
    unfold buildUserIdentifiers at hkey ⊢
    dsimp only at hkey ⊢
    rw [if_neg (by simp [hkey])]
    exact List.mem_append_right _ (List.mem_singleton_self _)
  constructor
  · intro hcounted
    obtain ⟨r,hr⟩ := List.exists_mem_of_ne_nil _ hcounted
    obtain ⟨hr,hcounts⟩ := List.mem_filter.mp hr
    cases hc : truthy e.clickId with
    | false => exact Or.inl rfl
    | true => exact Or.inr ⟨r,hr,by simpa [hc] using hcounts⟩
  · rintro (hc | ⟨r,hr,hreason⟩)
    · exact List.ne_nil_of_mem (List.mem_filter.mpr ⟨hmissing,by simp [hc]⟩)
    · exact List.ne_nil_of_mem (List.mem_filter.mpr ⟨hr,by simp [hreason]⟩)

theorem mem_intercalate {c : Char} {sep : String} {l : List String} (h : c ∈ (sep.intercalate l).toList) :
    c ∈ sep.toList ∨ ∃ t ∈ l, c ∈ t.toList := by
  induction l with
  | nil => simp at h
  | cons t rest ih =>
    cases rest with
    | nil =>
      rw [String.intercalate_singleton] at h
      exact Or.inr ⟨t,List.mem_singleton_self t,h⟩
    | cons u rest =>
      rw [String.intercalate_cons_cons] at h
      simp only [String.toList_append, List.mem_append] at h
      rcases h with (h | h) | h
      · exact Or.inr ⟨t,List.mem_cons_self,h⟩
      · exact Or.inl h
      · rcases ih h with h | ⟨v,hv,h⟩
        · exact Or.inl h
        · exact Or.inr ⟨v,List.mem_cons_of_mem t hv,h⟩

/-- The reason of rejected identifiers fits its column. -/
theorem rejectionsReason_fits {rejections : List FieldRejection} {raw : RawIdentifiers}
    (h : ∀ j ∈ rejections, j ∈ (buildUserIdentifiers rt raw).rejections) :
    varchar 512 (rejectionsReason rejections) = true := by
  apply varchar_truncate
  rw [List.contains_eq_mem, decide_eq_false_iff_not]
  intro hnul
  rcases mem_intercalate hnul with hbad | ⟨t,ht,hbad⟩
  · exact absurd hbad (by decide)
  · obtain ⟨j,hj,rfl⟩ := List.mem_map.mp ht
    simp only [String.toList_append, List.mem_append] at hbad
    rcases hbad with (hbad | hbad) | hbad
    · cases hr : j.reason <;> rw [hr] at hbad <;> exact absurd hbad (by decide)
    · exact absurd hbad (by decide)
    · rcases IdentifierField.mem_rejections (h j hj) with ⟨f,hf,_⟩ | rfl
      · rw [hf] at hbad
        cases f <;> exact absurd hbad (by decide)
      · exact absurd hbad (by decide)

theorem verdict_counted_fits (h : e.fits = true) (hg : e.Granted) (hd : e.hashedIdentifiers = none)
    (hcounted : countedRejections e (buildUserIdentifiers rt message.identifiers).rejections ≠ []) :
    (e.verdict rt message).row.fits = true ∧ nullable (varchar 512) (e.verdict rt message).reason = true := by
  have hreason : nullable (varchar 512) (some (rejectionsReason (countedRejections e
      (buildUserIdentifiers rt message.identifiers).rejections))) = true := by
    rw [nullable_some]
    exact rejectionsReason_fits fun j hj => (List.mem_filter.mp hj).1
  rw [verdict_counted hg hd hcounted]
  exact ⟨Event.fits_moved .rejected h hreason,hreason⟩

end Verdict

/-! ## Runs -/

section Rows
variable {rt : Runtime} {db : Ledger} {e x : Event} {tx : Transaction} {k : String}

/-- The outcome of an upload is not for a row that waits or was rejected. -/
theorem not_settled (hs : e.status = queued ∨ e.status = rejected) : ¬ e.Settled x := by
  intro h
  have hallowed := h.allowed
  have houtcome := h.outcome
  rcases hs with hs | hs
  · simp only [hs, allowedTransitions, List.mem_cons, List.not_mem_nil, or_false] at hallowed houtcome
    rcases hallowed with ha | ha | ha <;> simp [ha] at houtcome
  · simp [hs,allowedTransitions] at hallowed

/-- Only processing moves a row out of the queue, and nothing moves a rejected one. -/
theorem Transaction.Change.sticks (h : tx.Change rt e x)
    (hs : e.status = EventStatus.queued ∨ e.status = EventStatus.rejected) :
    ∃ message loaded now, tx = .process message loaded now := by
  cases tx with
  | ingest source plan correlationId now => exact h.elim
  | process message loaded now => exact ⟨message,loaded,now,rfl⟩
  | claim st selected now =>
    obtain ⟨y,reason,hy,_⟩ := h
    have hsendable := hy.sendable
    rcases hs with hs | hs <;> simp [hs,Sendable] at hsendable
  | retry ids loaded reason stamps =>
    have hbefore := Event.Retried.before h
    rcases hs with hs | hs <;> simp [hs] at hbefore
  | apply batch loaded rows now => exact absurd h (not_settled hs)
  | bury batch loaded failure now => exact absurd h.1 (not_settled hs)
  | replay letter loaded now =>
    have hdead := h.1
    rcases hs with hs | hs <;> simp [hs] at hdead

end Rows

/-- The event was rejected, and has no digests. -/
def Ledger.Refused (db : Ledger) (k : String) : Prop :=
  ∃ e, db.getEvent k = some e ∧ e.status = rejected ∧ e.hashedIdentifiers = none

namespace Traffic
variable {rt : Runtime} {customerId : String} {t u : Traffic} {a : TrafficAction} {e e₀ : Event} {m : QueueMessage}
  {i : ℕ} {k : String}

/-- A commit that is no ingest and no processing leaves the row. -/
theorem row_sticks {tx : Transaction} {db : Ledger} {reply : Reply} (ho : t.Opens tx)
    (hi : ∀ source plan correlationId now, tx ≠ .ingest source plan correlationId now)
    (hp : ∀ message loaded now, tx ≠ .process message loaded now) (hbody : tx.body rt t.ledger = .ok (db,reply))
    (he : t.ledger.getEvent k = some e) (hs : e.status = queued ∨ e.status = rejected) :
    db.getEvent k = some e := by
  have hw := Transaction.body_rewrites ho.fresh.events ho.once hi hbody
  by_cases hk : k ∈ tx.keys
  · obtain ⟨x,hx,hchange⟩ := hw.touch k e hk he
    cases hchange with
    | refl => exact hx
    | single hchange =>
      obtain ⟨message,loaded,now,heq⟩ := hchange.sticks hs
      exact absurd heq (hp message loaded now)
  · exact (hw.frame k hk).trans he

/-- The event of message `i` waits as it was, or it was rejected. -/
structure Waits (rt : Runtime) (customerId : String) (e₀ : Event) (m : QueueMessage) (i : ℕ) (t : Traffic) : Prop where
  steady : t.Steady rt customerId
  fits : t.ledger.fits = true
  message : t.published[i]? = some m
  row : t.ledger.getEvent m.eventId = some e₀ ∨ t.ledger.Refused m.eventId

/-- An event that every delivery of its message rejects. -/
structure Unmatchable (rt : Runtime) (e₀ : Event) (m : QueueMessage) : Prop where
  queued : e₀.status = queued
  undigested : e₀.hashedIdentifiers = none
  granted : e₀.Granted
  counted : countedRejections e₀ (buildUserIdentifiers rt m.identifiers).rejections ≠ []

/-- A delivery rejects the event if it is of its message, and leaves it alone if not. -/
theorem Waits.processed (hs : t.Waits rt customerId e₀ m i) (hm : Unmatchable rt e₀ m) {message : QueueMessage}
    (hpublished : message ∈ t.published) (now : Time) :
    ((t.ledger.processed rt message now).getEvent m.eventId = some e₀ ∨
      (t.ledger.processed rt message now).Refused m.eventId) ∧
    (message.eventId = m.eventId → (t.ledger.processed rt message now).Refused m.eventId) := by
  by_cases hk : message.eventId = m.eventId
  · have hrefused : (t.ledger.processed rt message now).Refused m.eventId := by
      rcases hs.row with he | ⟨e,he,hrejected,hnone⟩
      · obtain ⟨e,he',_,hsame⟩ := hs.steady.messages m (List.mem_of_getElem? hs.message)
        obtain rfl := Option.some.inj (he.symm.trans he')
        have hidentifiers := hsame hm.undigested message hpublished hk
        rw [← hk] at he ⊢
        refine ⟨_,(processed_self rt now he hm.queued).1,?_⟩
        rw [verdict_counted hm.granted hm.undigested (hidentifiers ▸ hm.counted)]
        exact ⟨rfl,hm.undigested⟩
      · rw [processed_settled]
        · exact ⟨e,he,hrejected,hnone⟩
        · intro x hx
          rw [hk, he] at hx
          cases hx
          simp [hrejected]
    exact ⟨Or.inr hrefused,fun _ => hrefused⟩
  · have hframe := (processed_frame rt t.ledger now (Ne.symm hk)).1
    refine ⟨?_,fun h => absurd h hk⟩
    unfold Ledger.Refused
    rw [hframe]
    exact hs.row

/-- What was published stays under its number. -/
theorem published_extend {db : Ledger} {messages : List QueueMessage} {items : List Claimed}
    (h : t.published[i]? = some m) : (t.extend db messages items).published[i]? = some m := by
  obtain ⟨hlt,_⟩ := List.getElem?_eq_some_iff.mp h
  show (t.published ++ messages)[i]? = some m
  rw [List.getElem?_append_left hlt, h]

/-- The row of a waiting or rejected event. -/
theorem Waits.kept (hs : t.Waits rt customerId e₀ m i) (hm : Unmatchable rt e₀ m) {db : Ledger}
    (hkept : ∀ e, t.ledger.getEvent m.eventId = some e → (e.status = queued ∨ e.status = rejected) →
      db.getEvent m.eventId = some e) :
    (db.getEvent m.eventId = some e₀ ∨ db.Refused m.eventId) ∧
    (t.ledger.Refused m.eventId → db.Refused m.eventId) := by
  have hrefused : t.ledger.Refused m.eventId → db.Refused m.eventId := by
    rintro ⟨e,he,hrejected,hnone⟩
    exact ⟨e,hkept e he (Or.inr hrejected),hrejected,hnone⟩
  refine ⟨?_,hrefused⟩
  rcases hs.row with he | href
  · exact Or.inl (hkept e₀ he (Or.inl hm.queued))
  · exact Or.inr (hrefused href)

theorem commit_row {op : Operation} {tx : Transaction} {db : Ledger} {reply : Reply}
    (hs : t.Waits rt customerId e₀ m i) (hm : Unmatchable rt e₀ m) (hop : t.operation rt customerId a = some op)
    (hb : op.begin t.ledger = some tx) (hc : tx.commit rt t.ledger = .ok (db,reply)) :
    (db.getEvent m.eventId = some e₀ ∨ db.Refused m.eventId) ∧
    (t.ledger.Refused m.eventId → db.Refused m.eventId) ∧
    ((∃ now, a = .deliver i now) → db.Refused m.eventId) := by
  have ho := operation_opens hop hb
  have hbody := (Transaction.commit_fresh ho.fresh hc).1
  cases a with
  | deliver j now =>
    obtain ⟨message,hmessage,rfl⟩ := Option.map_eq_some_iff.mp hop
    cases hb
    obtain ⟨rfl,_,_⟩ := process_commit hc
    obtain ⟨hrow,hown⟩ := hs.processed hm (List.mem_of_getElem? hmessage) now
    refine ⟨hrow,?_,?_⟩
    · intro href
      rcases hrow with he | href'
      · obtain ⟨e,he',hrejected,_⟩ := href
        obtain ⟨x,hx,hcases⟩ := processed_row rt message now he'
        rw [he] at hx
        cases hx
        rcases hcases with rfl | ⟨hk,_⟩
        · exact absurd (hrejected.symm.trans hm.queued) (by simp)
        · exact hown hk.symm
      · exact href'
    · rintro ⟨now',heq⟩
      cases heq
      rw [hs.message] at hmessage
      cases hmessage
      exact hown rfl
  | ingest source body correlationId now =>
    cases hop
    cases hb
    obtain ⟨⟨out,i⟩,hingest,hreply⟩ := Outcome.bind_ok.mp hbody
    cases hreply
    obtain ⟨hrow,href⟩ := hs.kept hm fun e he _ => ingestBody_row hingest he
    exact ⟨hrow,href,by simp⟩
  | claim st selected now =>
    simp only [operation] at hop
    split at hop
    · cases hop
      cases hb
      obtain ⟨hrow,href⟩ := hs.kept hm fun e he hst => row_sticks ho (by simp) (by simp) hbody he hst
      exact ⟨hrow,href,by simp⟩
    · cases hop
  | retry items reason stamps | apply items rows now | bury items failure now =>
    cases hop
    cases hb
    obtain ⟨hrow,href⟩ := hs.kept hm fun e he hst => row_sticks ho (by simp) (by simp) hbody he hst
    exact ⟨hrow,href,by simp⟩
  | replay id now =>
    cases hop
    obtain ⟨letter,_,rfl⟩ := Option.map_eq_some_iff.mp hb
    obtain ⟨hrow,href⟩ := hs.kept hm fun e he hst => row_sticks ho (by simp) (by simp) hbody he hst
    exact ⟨hrow,href,by simp⟩
  | send | abort | abandon => cases hop

/-- A step keeps the event waiting or rejects it; a delivery of its message rejects it. -/
theorem step_waits (hs : t.Waits rt customerId e₀ m i) (hm : Unmatchable rt e₀ m)
    (h : step rt customerId t a = some u) : u.Waits rt customerId e₀ m i ∧
    (t.ledger.Refused m.eventId → u.ledger.Refused m.eventId) ∧
    ((∃ now, a = .deliver i now) → u.ledger.Refused m.eventId) := by
  have hsteady := (step_steady hs.steady h).1
  rcases step_ok h with ⟨items,rfl,rfl⟩ | ⟨n,n',rfl,rfl⟩ | ⟨id,now,rfl,rfl⟩ | ⟨op,tx,db,reply,hop,hb,hc,rfl⟩
  · exact ⟨⟨hsteady,hs.fits,hs.message,hs.row⟩,fun href => href,by simp⟩
  · exact ⟨⟨hsteady,hs.fits,hs.message,hs.row⟩,fun href => href,by simp⟩
  · exact ⟨⟨hsteady,hs.fits,published_extend hs.message,hs.row⟩,fun href => href,by simp⟩
  · obtain ⟨hrow,hkept,hown⟩ := commit_row hs hm hop hb hc
    obtain ⟨_,_,_,hfits⟩ := Transaction.commit_ok.mp hc
    exact ⟨⟨hsteady,hfits,published_extend hs.message,hrow⟩,hkept,hown⟩

theorem run_waits {rest : List TrafficAction} (hs : t.Waits rt customerId e₀ m i) (hm : Unmatchable rt e₀ m)
    (h : run rt customerId t rest = some u) : u.Waits rt customerId e₀ m i ∧
    (t.ledger.Refused m.eventId → u.ledger.Refused m.eventId) ∧
    ((∃ now, .deliver i now ∈ rest) → u.ledger.Refused m.eventId) := by
  induction rest generalizing t with
  | nil =>
    cases h
    exact ⟨hs,fun href => href,by simp⟩
  | cons a rest ih =>
    obtain ⟨v,hv,hrest⟩ := Machine.run_cons.mp h
    obtain ⟨hwaits,hkept,hown⟩ := step_waits hs hm hv
    obtain ⟨hend,hkept',hown'⟩ := ih hwaits hrest
    refine ⟨hend,fun href => hkept' (hkept href),?_⟩
    rintro ⟨now,hmem⟩
    rcases List.mem_cons.mp hmem with heq | hmem
    · exact hkept' (hown ⟨now,heq.symm⟩)
    · exact hown' ⟨now,hmem⟩

/-- A delivery of the message goes through. -/
theorem Waits.delivered (hs : t.Waits rt customerId e₀ m i) (hm : Unmatchable rt e₀ m) (now : Time) :
    ∃ u, step rt customerId t (.deliver i now) = some u ∧ u.ledger.Refused m.eventId := by
  have hfits : (t.ledger.processed rt m now).fits = true := by
    rcases hs.row with he | ⟨e,he,hrejected,_⟩
    · obtain ⟨hrow,hreason⟩ := verdict_counted_fits (fits_event hs.fits he) hm.granted hm.undigested hm.counted
      rw [processed_queued he hm.queued]
      exact Ledger.fits_record e₀ now hs.fits hrow hreason
    · rw [processed_settled]
      · exact hs.fits
      · intro x hx
        rw [he] at hx
        cases hx
        simp [hrejected]
  obtain ⟨outcome,hc⟩ := process_commit_of_fits hfits
  refine ⟨t.extend (t.ledger.processed rt m now) [] [],?_,?_⟩
  · simp only [step, operation, hs.message, Option.map_some, Option.bind_eq_bind, Option.bind_some, Operation.begin, hc]
    rfl
  · exact (hs.processed hm (List.mem_of_getElem? hs.message) now).2 rfl

/-! ## From the delivery on -/

theorem enters_accepted {source : Source} {now : Time} {event : CanonicalLeadEvent}
    (h : (IngestPlan.accept event).Enters source now e) : e.status = queued ∧ e.hashedIdentifiers = none ∧
      e.consent = event.consent ∧ truthy e.clickId = event.clickId.any PyText.truthy := by
  have hnone := enters_undigested h
  obtain ⟨row,stored,hrow,hstored,rfl⟩ := h
  obtain ⟨currency,_,hrow⟩ := Outcome.bind_ok.mp hrow
  obtain ⟨clickId,hclick,hrow⟩ := Outcome.bind_ok.mp hrow
  obtain ⟨value,time,rfl⟩ := hstored.columns
  refine ⟨rfl,hnone,?_,?_⟩
  · rw [← Outcome.pure_ok.mp hrow]
    rfl
  · rw [← encodeOption_truthy hclick, ← Outcome.pure_ok.mp hrow]
    rfl

theorem ingestAccepted_message {db out : Ledger} {correlationId : CorrelationId} {now : Time}
    {event : CanonicalLeadEvent} {ingested : Ingested}
    (h : ingestAccepted rt db correlationId now event = .ok (out,ingested)) (hnew : db.getEvent event.eventId = none) :
    ingested.message = ingestMessage correlationId now event := by
  obtain ⟨⟨db₁,r⟩,hr,h₁⟩ := Outcome.bind_ok.mp h
  rcases recordValidated_ok hr with ⟨_,_,hk⟩ | ⟨_,_,_,_,_,rfl,_⟩
  · exact absurd hnew hk
  · cases h₁
    rfl

/-- The first delivery of a valid payload publishes its message, and its row waits. -/
theorem first_delivery {source : Source} {body : ByteArray} {correlationId : CorrelationId} {now : Time}
    {payload : Json} {event : CanonicalLeadEvent} {raw : RawIdentifiers}
    (hloads : rt.loads body = .value payload) (hparse : parseAndMap rt source payload = .event event)
    (hraw : event.identifiers.encode = .ok raw) (hnew : t.ledger.getEvent event.eventId = none)
    (h : step rt customerId t (.ingest source body correlationId now) = some u) :
    u.ledger.fits = true ∧
    (∃ m : QueueMessage, u.published = t.published ++ [m] ∧ m.eventId = event.eventId ∧ m.identifiers = raw) ∧
    ∃ e, u.ledger.getEvent event.eventId = some e ∧ e.status = queued ∧ e.hashedIdentifiers = none ∧
      e.consent = event.consent ∧ truthy e.clickId = (sentClickId rt source payload).any PyText.truthy := by
  rcases step_ok h with ⟨_,heq,_⟩ | ⟨_,_,heq,_⟩ | ⟨_,_,heq,_⟩ | ⟨op,tx,db,reply,hop,hb,hc,rfl⟩
  · cases heq
  · cases heq
  · cases heq
  · have hplan : planIngest rt source body correlationId =
        .accept { event with correlationId := some correlationId.value } := by
      simp only [planIngest, hloads, hparse]
    cases hop
    cases hb
    rw [hplan] at hc
    obtain ⟨⟨ingested,hi,rfl⟩,hfits⟩ := commit_ingest.mp hc
    have hmessage : ingested.message = some ⟨event.eventId,raw,now,some correlationId.value⟩ := by
      rw [ingestAccepted_message hi hnew]
      simp only [ingestMessage, hraw]
    obtain ⟨hid,hcases⟩ := ingestBody_ok hi
    have hkey : event.eventId = ingested.response.eventId := Option.some.inj hid
    rcases hcases with ⟨_,hnone,_⟩ | ⟨e,henters,hek,_,hget,_⟩
    · rw [hmessage] at hnone
      cases hnone
    · obtain ⟨hq,hd,hconsent,hclick⟩ := enters_accepted henters
      refine ⟨hfits,⟨⟨event.eventId,raw,now,some correlationId.value⟩,?_,rfl,rfl⟩,e,?_,hq,hd,hconsent,?_⟩
      · show t.published ++ ingested.message.toList = _
        rw [hmessage]
        rfl
      · show db.getEvent event.eventId = some e
        rw [hget, if_pos (hkey.trans hek.symm)]
      · rw [hclick, ← orNone_truthy (sentClickId rt source payload), ← parseAndMap_clickId hparse]

/-- The event of message `i` is never processed or sent, is REJECTED once the message was
handled, and can be handled at any time. -/
structure Barred (rt : Runtime) (customerId : String) (k : String) (i : ℕ) (rest : List TrafficAction) (u : Traffic) :
    Prop where
  row : ∃ e, u.ledger.getEvent k = some e ∧ (e.status = queued ∨ e.status = rejected) ∧
    ((∃ later, .deliver i later ∈ rest) → e.status = rejected)
  ends : ∀ later, ∃ v e, step rt customerId u (.deliver i later) = some v ∧ v.ledger.getEvent k = some e ∧
    e.status = rejected
  unsent : ∀ conversion, ¬ u.Built k conversion

theorem deliver_ok {now : Time} (hm : t.published[i]? = some m) (h : step rt customerId t (.deliver i now) = some u) :
    u.ledger = t.ledger.processed rt m now := by
  rcases step_ok h with ⟨_,heq,_⟩ | ⟨_,_,heq,_⟩ | ⟨_,_,heq,_⟩ | ⟨op,tx,db,reply,hop,hb,hc,rfl⟩
  · cases heq
  · cases heq
  · cases heq
  · obtain ⟨message,hmessage,rfl⟩ := Option.map_eq_some_iff.mp hop
    cases hm.symm.trans hmessage
    cases hb
    exact (process_commit hc).1

theorem Waits.barred (hs : t.Waits rt customerId e₀ m i) (hm : Unmatchable rt e₀ m) {rest : List TrafficAction}
    (h : run rt customerId t rest = some u) : u.Barred rt customerId m.eventId i rest := by
  obtain ⟨hwaits,_,hown⟩ := run_waits hs hm h
  constructor
  · rcases hwaits.row with he | ⟨e,he,hrejected,_⟩
    · refine ⟨e₀,he,Or.inl hm.queued,?_⟩
      intro hdelivered
      obtain ⟨e,he',hrejected,_⟩ := hown hdelivered
      rw [he] at he'
      cases he'
      exact hrejected
    · exact ⟨e,he,Or.inr hrejected,fun _ => hrejected⟩
  · intro later
    obtain ⟨v,hv,e,he,hrejected,_⟩ := hwaits.delivered hm later
    exact ⟨v,e,hv,he,hrejected⟩
  · intro conversion hbuilt
    obtain ⟨e,he,hdigests,_⟩ := hwaits.steady.built hbuilt
    have hnone : e.hashedIdentifiers = none := by
      rcases hwaits.row with he' | ⟨x,he',_,hnone⟩
      · rw [he] at he'
        cases he'
        exact hm.undigested
      · rw [he] at he'
        cases he'
        exact hnone
    rw [hnone] at hdigests
    cases hdigests

/-- After the first delivery of a valid payload with both consents and without a match key,
every run bars the event from processing, if and only if the click id is absent or empty
or a field was rejected. -/
theorem run_unmatched_iff {before : List TrafficAction} {source : Source} {body : ByteArray}
    {correlationId : CorrelationId} {now : Time} {payload : Json} {event : CanonicalLeadEvent} {raw : RawIdentifiers}
    (hrun : run rt customerId start before = some t)
    (hloads : rt.loads body = .value payload) (hparse : parseAndMap rt source payload = .event event)
    (hconsent : event.consent.Granted) (hraw : event.identifiers.encode = .ok raw)
    (hkey : (buildUserIdentifiers rt raw).identifiers.hasMatchKey = false)
    (hnew : t.ledger.getEvent event.eventId = none)
    (h : step rt customerId t (.ingest source body correlationId now) = some u) :
    (∀ rest v, run rt customerId u rest = some v → v.Barred rt customerId event.eventId t.published.length rest) ↔
      (∀ text ∈ sentClickId rt source payload, text.truthy = false) ∨
        ∃ r ∈ (buildUserIdentifiers rt raw).rejections, r.reason ≠ .noMatchKey := by
  have hsteady := Machine.run_inv' (Steady rt customerId) (fun _ _ _ hi h => (step_steady hi h).1) start_steady hrun
  obtain ⟨hfits,⟨m,hpublished,hid,rfl⟩,e,he,hq,hd,hsignals,hclick⟩ := first_delivery hloads hparse hraw hnew h
  rw [← hid] at he ⊢
  have hmessage : u.published[t.published.length]? = some m := by
    rw [hpublished, List.getElem?_append_right (Nat.le_refl _), Nat.sub_self]
    rfl
  have hg : e.Granted := by
    unfold Event.Granted
    rw [hsignals]
    exact hconsent
  have hempty : truthy e.clickId = false ↔ ∀ text ∈ sentClickId rt source payload, text.truthy = false := by
    rw [hclick]
    cases sentClickId rt source payload <;> simp
  rw [← hempty, ← countedRejections_ne_nil hkey]
  constructor
  · intro hall hcounted
    obtain ⟨v,x,hv,hx,hrejected⟩ := (hall [] u rfl).ends now
    rw [deliver_ok hmessage hv, (processed_self rt now he hq).1, verdict_uncounted hg hd hcounted] at hx
    cases hx
    cases hrejected
  · intro hcounted rest v hv
    have hwaits : u.Waits rt customerId e m t.published.length :=
      ⟨(step_steady hsteady h).1,hfits,hmessage,Or.inl he⟩
    exact hwaits.barred ⟨hq,hd,hg,hcounted⟩ hv

/-- A HubSpot delivery with both consents and no identifiers. -/
def consentPayload (clickId : List (String × Json)) : Json :=
  .obj [("eventId",.int 1),("objectId",.int 2),("occurredAt",.int 1704067200000),("conversionAction",.str "lead"),
    ("properties",.obj (clickId ++ [("ad_user_data_consent",.str "GRANTED"),
      ("ad_personalization_consent",.str "GRANTED")]))]

def consentBody (clickId : String) : ByteArray :=
  ("\x7b\"eventId\":1,\"objectId\":2,\"occurredAt\":1704067200000,\"conversionAction\":\"lead\"," ++
    "\"properties\":\x7b" ++ clickId ++ "\"ad_user_data_consent\":\"GRANTED\"," ++
    "\"ad_personalization_consent\":\"GRANTED\"\x7d\x7d").toUTF8

def consentRuntime (clickId : List (String × Json)) : Runtime := Runtime.plain (.value (consentPayload clickId))

/-- The id of a parsed event, whether both consents are there, and its identifiers. -/
def summary : Parsed → Option (String × Bool × RawIdentifiersOf PyText)
  | .event e => some (e.eventId,decide e.consent.Granted,e.identifiers)
  | _ => none

theorem consentPayload_event (clickId : List (String × Json))
    (h : summary (parseAndMap (consentRuntime clickId) .hubspot (consentPayload clickId)) =
      some ("hubspot:1",true,.blank)) :
    ∃ event, parseAndMap (consentRuntime clickId) .hubspot (consentPayload clickId) = .event event ∧
      event.eventId = "hubspot:1" ∧ event.consent.Granted ∧ event.identifiers = .blank := by
  unfold summary at h
  split at h
  · next event heq =>
    simp only [Option.some.injEq, Prod.mk.injEq, decide_eq_true_eq] at h
    exact ⟨event,heq,h⟩
  · cases h

/-- Without a click id. -/
theorem run_unmatched_iff_consent : ∃ u,
    step (consentRuntime []) "1234567890" start (.ingest .hubspot (consentBody "") .zero 0) = some u ∧
    ∀ rest v, run (consentRuntime []) "1234567890" u rest = some v →
      v.Barred (consentRuntime []) "1234567890" "hubspot:1" 0 rest := by
  have hstep : (step (consentRuntime []) "1234567890" start (.ingest .hubspot (consentBody "") .zero 0)).isSome = true := by
    decide +kernel
  obtain ⟨u,hu⟩ := Option.isSome_iff_exists.mp hstep
  obtain ⟨event,hparse,hid,hconsent,hblank⟩ := consentPayload_event [] (by decide +kernel)
  have hraw : event.identifiers.encode = .ok .blank := by
    rw [hblank]
    rfl
  have hstart : run (consentRuntime []) "1234567890" start [] = some start := rfl
  refine ⟨u,hu,?_⟩
  rw [← hid]
  exact (run_unmatched_iff hstart rfl hparse hconsent hraw rfl rfl hu).mpr (Or.inl (by decide +kernel))

/-- A click id of one blank takes an event without identifiers to its upload. -/
theorem not_unmatched_blank : ∃ event t,
    (consentRuntime [("hs_google_click_id",.str " ")]).loads (consentBody "\"hs_google_click_id\":\" \",") =
      .value (consentPayload [("hs_google_click_id",.str " ")]) ∧
    parseAndMap (consentRuntime [("hs_google_click_id",.str " ")]) .hubspot
      (consentPayload [("hs_google_click_id",.str " ")]) = .event event ∧ event.consent.Granted ∧
    sentClickId (consentRuntime [("hs_google_click_id",.str " ")]) .hubspot
      (consentPayload [("hs_google_click_id",.str " ")]) = some (.text " ") ∧
    (PyText.text " ").isBlank = true ∧ event.identifiers.encode = .ok .blank ∧
    (buildUserIdentifiers (consentRuntime [("hs_google_click_id",.str " ")]) .blank).identifiers.hasMatchKey = false ∧
    run (consentRuntime [("hs_google_click_id",.str " ")]) "1234567890" start
      [.ingest .hubspot (consentBody "\"hs_google_click_id\":\" \",") .zero 0, .deliver 0 0,
        .claim .single [event.eventId] 0, .send [0], .apply [0] [⟨0,true,none,none⟩] 0] = some t ∧
    (t.ledger.getEvent event.eventId).map Event.status = some uploaded := by
  obtain ⟨event,hparse,hid,hconsent,hblank⟩ := consentPayload_event [("hs_google_click_id",.str " ")]
    (by decide +kernel)
  have hrun : (run (consentRuntime [("hs_google_click_id",.str " ")]) "1234567890" start
      [.ingest .hubspot (consentBody "\"hs_google_click_id\":\" \",") .zero 0, .deliver 0 0,
        .claim .single ["hubspot:1"] 0, .send [0], .apply [0] [⟨0,true,none,none⟩] 0]).map
      (fun t => (t.ledger.getEvent "hubspot:1").map Event.status) = some (some uploaded) := by decide +kernel
  obtain ⟨t,ht,hstatus⟩ := Option.map_eq_some_iff.mp hrun
  rw [← hid] at ht hstatus
  have hraw : event.identifiers.encode = .ok .blank := by
    rw [hblank]
    rfl
  exact ⟨event,t,rfl,hparse,hconsent,by decide +kernel,by decide,hraw,rfl,ht,hstatus⟩

end Traffic
end ConversionGateway
