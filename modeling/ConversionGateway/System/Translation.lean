import ConversionGateway.System.Api
import ConversionGateway.System.Reconcile
import ConversionGateway.System.Resends
import ConversionGateway.System.Serializable

/-! # From the webhook to the platform

The gateway as one function, from an event of a CRM to a conversion. Whatever its
processes do, all that it sends about an event is the value of that function at one
signed delivery.
-/
namespace ConversionGateway
open EventStatus

/-- A row as the INSERT leaves it. -/
def Event.inserted (rt : Runtime) (row : Event) : Except PyError Event := do
  let accepted ← row.accept
  accepted.readBack rt

/-- What the platform is to be told of an event, under the digests of these identifiers:
no ledger, no queue and no process has a part in it. -/
def CanonicalLeadEvent.conversion (rt : Runtime) (customerId : String) (identifiers : RawIdentifiers)
    (event : CanonicalLeadEvent) : Except PyError Json := do
  let row ← validatedRow event 0
  let stored ← row.inserted rt
  buildConversion rt
    { stored with hashedIdentifiers := some (buildUserIdentifiers rt identifiers).identifiers } customerId

namespace IngestPlan

/-- The identifiers of a message: those that were delivered, or none. -/
def Carries (plan : IngestPlan) (identifiers : RawIdentifiers) : Prop :=
  identifiers = .blank ∨ ∃ event, plan = .accept event ∧ event.identifiers.encode = .ok identifiers

/-- The columns of a row that was stored for the plan. -/
def Stores (rt : Runtime) (plan : IngestPlan) (e : Event) : Prop :=
  match plan with
  | .accept event => ∃ row stored now, validatedRow event 0 = .ok row ∧ row.inserted rt = .ok stored ∧
      e.identity = ({ stored with receivedAt := now } : Event).identity
  | _ => e.conversionAction = none

/-- The conversion is one of the event that the plan accepts. -/
def Tells (rt : Runtime) (settings : ℕ → Settings) (plan : IngestPlan) (c : Json) : Prop :=
  ∃ event identifiers n, plan = .accept event ∧
    (identifiers = .blank ∨ event.identifiers.encode = .ok identifiers) ∧
    event.conversion rt (settings n).adsCustomerId identifiers = .ok c

end IngestPlan

/-- The row is the plan's, with digests of one of its messages or without any. -/
structure Event.Of (rt : Runtime) (plan : IngestPlan) (e : Event) : Prop where
  columns : plan.Stores rt e
  digests : ∀ h, e.hashedIdentifiers = some h → ∃ identifiers, plan.Carries identifiers ∧
    (buildUserIdentifiers rt identifiers).identifiers = h

section Rows
variable {rt : Runtime} {plan : IngestPlan} {e x : Event} {c : Json} {settings : ℕ → Settings}

/-- When an event came has no part in how it is stored. -/
theorem validatedRow_received (event : CanonicalLeadEvent) (now : Time) {row : Event}
    (h : validatedRow event now = .ok row) : ∃ row₀, validatedRow event 0 = .ok row₀ ∧
      row = { row₀ with receivedAt := now } := by
  obtain ⟨currency,hcurrency,h⟩ := Outcome.bind_ok.mp h
  obtain ⟨clickId,hclick,h⟩ := Outcome.bind_ok.mp h
  refine ⟨_,Outcome.bind_ok.mpr ⟨currency,hcurrency,Outcome.bind_ok.mpr ⟨clickId,hclick,rfl⟩⟩,?_⟩
  exact (Outcome.pure_ok.mp h).symm

theorem Event.inserted_received {row stored : Event} {now : Time}
    (h : ({ row with receivedAt := now } : Event).inserted rt = .ok stored) :
    ∃ stored₀, row.inserted rt = .ok stored₀ ∧ stored = { stored₀ with receivedAt := now } := by
  obtain ⟨accepted,ha,hb⟩ := Outcome.bind_ok.mp h
  have haccept : ∃ accepted₀, row.accept = .ok accepted₀ ∧ accepted = { accepted₀ with receivedAt := now } := by
    have hfits : ({ row with receivedAt := now } : Event).fits = row.fits := rfl
    simp only [accept, hfits] at ha ⊢
    split at ha
    · next hf =>
      rw [if_pos hf]
      cases hv : row.conversionValue with
      | none =>
        rw [hv] at ha
        cases ha
        exact ⟨row,rfl,by rw [← hv]⟩
      | some v =>
        rw [hv] at ha
        dsimp only at ha ⊢
        cases hn : v.toNumeric with
        | none =>
          rw [hn] at ha
          cases ha
        | some numeric =>
          rw [hn] at ha
          cases ha
          exact ⟨_,rfl,rfl⟩
    · cases ha
  obtain ⟨accepted₀,ha₀,rfl⟩ := haccept
  have hread : ∃ stored₀, accepted₀.readBack rt = .ok stored₀ ∧ stored = { stored₀ with receivedAt := now } := by
    simp only [readBack] at hb ⊢
    cases ht : accepted₀.conversionTime with
    | none =>
      rw [ht] at hb
      cases hb
      exact ⟨accepted₀,rfl,by rw [← ht]⟩
    | some t =>
      rw [ht] at hb
      dsimp only at hb ⊢
      cases hr : rt.readTimestamp t with
      | none =>
        rw [hr] at hb
        cases hb
      | some read =>
        rw [hr] at hb
        cases hb
        exact ⟨_,rfl,rfl⟩
  obtain ⟨stored₀,hb₀,rfl⟩ := hread
  exact ⟨stored₀,Outcome.bind_ok.mpr ⟨accepted₀,ha₀,hb₀⟩,rfl⟩

/-- A conversion without digests is the one under no identifiers. -/
theorem buildConversion_undigested (rt : Runtime) (customerId : String) (h : e.hashedIdentifiers = none) :
    buildConversion rt e customerId = buildConversion rt
      { e with hashedIdentifiers := some (buildUserIdentifiers rt .blank).identifiers } customerId := by
  have hfields : identifierFields e = identifierFields
      { e with hashedIdentifiers := some (buildUserIdentifiers rt .blank).identifiers } := by
    rw [(build_blank rt).1]
    unfold identifierFields
    rw [h]
    rfl
  unfold buildConversion
  rw [hfields]
  rfl

/-- What a row of the plan says to the platform, the plan says. -/
theorem Event.Of.tells (h : e.Of rt plan) {n : ℕ} (hc : buildConversion rt e (settings n).adsCustomerId = .ok c) :
    plan.Tells rt settings c := by
  obtain ⟨identifiers,hcarries,hbuilt⟩ : ∃ identifiers, plan.Carries identifiers ∧ buildConversion rt
      { e with hashedIdentifiers := some (buildUserIdentifiers rt identifiers).identifiers }
      (settings n).adsCustomerId = .ok c := by
    cases hd : e.hashedIdentifiers with
    | none => exact ⟨.blank,Or.inl rfl,(buildConversion_undigested rt _ hd).symm.trans hc⟩
    | some digests =>
      obtain ⟨identifiers,hcarries,hdigests⟩ := h.digests digests hd
      refine ⟨identifiers,hcarries,?_⟩
      rw [hdigests, ← hd]
      exact hc
  have hcolumns := h.columns
  cases plan with
  | accept event =>
    obtain ⟨row,stored,now,hrow,hstored,hid⟩ := hcolumns
    refine ⟨event,identifiers,n,rfl,?_,?_⟩
    · refine hcarries.imp id ?_
      rintro ⟨event',heq,hencode⟩
      cases heq
      exact hencode
    · refine Outcome.bind_ok.mpr ⟨row,hrow,Outcome.bind_ok.mpr ⟨stored,hstored,?_⟩⟩
      set digests := some (buildUserIdentifiers rt identifiers).identifiers
      have hsame : buildConversion rt { e with hashedIdentifiers := digests } (settings n).adsCustomerId =
          buildConversion rt { stored with receivedAt := now, hashedIdentifiers := digests }
            (settings n).adsCustomerId := buildConversion_congr hid rfl
      exact hsame.symm.trans hbuilt
  | reject sourceEventId errors | raised err =>
    unfold buildConversion at hbuilt
    have hnone : e.conversionAction = none := hcolumns
    simp only [hnone] at hbuilt
    cases hbuilt

/-- The consents of a stored row are those of the event. -/
theorem stores_consent {event : CanonicalLeadEvent} (h : (IngestPlan.accept event).Stores rt e) :
    e.consent = event.consent := by
  obtain ⟨row,stored,now,hrow,hstored,hid⟩ := h
  obtain ⟨accepted,ha,hb⟩ := Outcome.bind_ok.mp hstored
  obtain ⟨_,rfl⟩ := Event.accept_ok ha
  obtain ⟨_,rfl,_⟩ := Event.readBack_ok hb
  obtain ⟨_,_,hrow⟩ := Outcome.bind_ok.mp hrow
  obtain ⟨_,_,hrow⟩ := Outcome.bind_ok.mp hrow
  have hconsent : e.consent = row.consent := congrArg Identity.consent hid
  rw [hconsent, ← Outcome.pure_ok.mp hrow]
  rfl

theorem IngestPlan.Stores.congr (h : plan.Stores rt e) (hid : x.identity = e.identity) : plan.Stores rt x := by
  cases plan with
  | accept event =>
    obtain ⟨row,stored,now,hrow,hstored,he⟩ := h
    exact ⟨row,stored,now,hrow,hstored,hid.trans he⟩
  | reject sourceEventId errors | raised err => exact (congrArg Identity.conversionAction hid).trans h

end Rows

section Ingest
variable {rt : Runtime} {db out : Ledger} {correlationId : CorrelationId} {now : Time} {source : Source}
  {plan : IngestPlan} {i : Ingested}

theorem insertIfAbsent_inserted {row stored : Event} (h : insertIfAbsent rt db row = .ok (some (out,stored))) :
    row.inserted rt = .ok stored := by
  obtain ⟨accepted,ha,h⟩ := Outcome.bind_ok.mp h
  split at h
  · obtain ⟨read,hb,h⟩ := Outcome.bind_ok.mp h
    split at h
    · simp only [Outcome.pure_ok, Option.some.injEq, Prod.mk.injEq] at h
      exact Outcome.bind_ok.mpr ⟨accepted,ha,h.2 ▸ hb⟩
    · simp at h
  · simp at h

/-- The row that `record_validated` brings in, to the last column. -/
theorem recordValidated_of {event : CanonicalLeadEvent} {r : Option Event}
    (h : recordValidated rt db event now = .ok (out,r)) {k : String} {e : Event} (hn : db.getEvent k = none)
    (he : out.getEvent k = some e) : e.Of rt (.accept event) := by
  rcases recordValidated_ok h with ⟨_,rfl,_⟩ | ⟨row,stored,hrow,hstored,hnew,rfl,rfl⟩
  · rw [hn] at he
    cases he
  · have hget := Ledger.enter_getEvent_self now hnew
    have hget₁ : ((db.enter stored hnew now).record stored (stored.moved .validated none) none
        now).getEvent (stored.moved .validated none).eventId = some (stored.moved .validated none) :=
      Ledger.record_getEvent_self hget rfl
    have hkey : (stored.moved .queued none).eventId = (stored.moved .validated none).eventId := rfl
    have hkey' : (stored.moved .validated none).eventId = stored.eventId := rfl
    rw [Ledger.record_getEvent hget₁ hkey, Ledger.record_getEvent hget hkey', Ledger.enter_getEvent] at he
    obtain rfl : e = stored.moved .queued none := by
      by_cases hk : k = stored.eventId
      · simpa [hk] using he.symm
      · simp [hk,hn] at he
    -- the same call, now for the values of the columns
    obtain ⟨row',hrow',h⟩ := Outcome.bind_ok.mp h
    obtain ⟨inserted,hi,h⟩ := Outcome.bind_ok.mp h
    cases inserted with
    | none => simp at h
    | some p =>
      obtain ⟨fresh,read⟩ := p
      obtain ⟨⟨_,validatedEvent⟩,hv,h⟩ := Outcome.bind_ok.mp h
      obtain ⟨⟨_,queuedEvent⟩,hq,h⟩ := Outcome.bind_ok.mp h
      obtain ⟨_,rfl,_⟩ := transition_ok hv
      obtain ⟨_,rfl,_⟩ := transition_ok hq
      simp only [Outcome.pure_ok, Prod.mk.injEq, Option.some.injEq] at h
      have hid : ((read.moved .validated none).moved .queued none).identity =
          (stored.moved .queued none).identity := congrArg Event.identity h.2
      obtain ⟨row₀,hrow₀,rfl⟩ := validatedRow_received event now hrow'
      obtain ⟨stored₀,hstored₀,rfl⟩ := Event.inserted_received (insertIfAbsent_inserted hi)
      refine ⟨⟨row₀,stored₀,now,hrow₀,hstored₀,hid.symm⟩,fun d hd => ?_⟩
      have henters : (IngestPlan.accept event).Enters .hubspot now (stored.moved .queued none) :=
        ⟨row,stored,hrow,hstored,rfl⟩
      rw [enters_undigested henters] at hd
      cases hd

/-- A request brings in a row of its plan, and its message is of the plan. -/
theorem ingestBody_of (h : ingestBody rt db correlationId now source plan = .ok (out,i)) :
    (∀ m ∈ i.message, plan.Carries m.identifiers) ∧
    ∀ k e, db.getEvent k = none → out.getEvent k = some e → e.Of rt plan := by
  have hcases := (ingestBody_ok h).2
  cases plan with
  | raised err => cases h
  | accept event =>
    obtain ⟨⟨mid,r⟩,hr,h₁⟩ := Outcome.bind_ok.mp h
    have hout : mid = out ∧ ∀ m ∈ i.message, some m = ingestMessage correlationId now event := by
      cases r with
      | some row =>
        simp only [Outcome.pure_ok, Prod.mk.injEq] at h₁
        obtain ⟨rfl,rfl⟩ := h₁
        exact ⟨rfl,fun m hm => hm.symm⟩
      | none =>
        cases he : mid.getEvent event.eventId with
        | none => simp only [he] at h₁; cases h₁
        | some e =>
          simp only [he, Outcome.pure_ok, Prod.mk.injEq] at h₁
          obtain ⟨rfl,rfl⟩ := h₁
          exact ⟨rfl,fun m hm => (by cases hm)⟩
    refine ⟨fun m hm => Or.inr ⟨event,rfl,?_⟩,fun k e hn he => recordValidated_of hr hn (hout.1 ▸ he)⟩
    have hmessage := hout.2 m hm
    unfold ingestMessage at hmessage
    split at hmessage
    · cases hmessage
    · next identifiers hencode =>
      cases hmessage
      exact hencode
  | reject sourceEventId errors =>
    have hnone : i.message = none := (ingestRejected_label h).2.2.1
    refine ⟨fun m hm => ?_,fun k e hn he => ?_⟩
    · rw [hnone] at hm
      cases hm
    · rcases hcases with ⟨rfl,_⟩ | ⟨x,henters,_,_,hget,_⟩
      · rw [hn] at he
        cases he
      · rw [hget] at he
        split at he
        · cases he
          have hundigested := enters_undigested henters
          obtain ⟨id,stored,_,hstored,label,rfl⟩ := henters
          obtain ⟨_,_,rfl⟩ := hstored.columns
          refine ⟨rfl,fun d hd => ?_⟩
          rw [hundigested] at hd
          cases hd
        · rw [hn] at he
          cases he

end Ingest

section Digests
variable {rt : Runtime} {db db' : Ledger} {tx : Transaction} {reply : Reply} {k : String} {e : Event}

/-- A worker keeps the digests of a row or takes those of its message. -/
theorem verdict_hashed (rt : Runtime) (e : Event) (m : QueueMessage) :
    (e.verdict rt m).row.hashedIdentifiers = e.hashedIdentifiers ∨
      (e.verdict rt m).row.hashedIdentifiers = some (buildUserIdentifiers rt m.identifiers).identifiers := by
  unfold Event.verdict
  split
  · exact Or.inl rfl
  · split
    · next hashed hreuse =>
      unfold reusedDigests at hreuse
      split at hreuse
      · exact Or.inl hreuse.symm
      · cases hreuse
    · dsimp only
      split
      · exact Or.inl rfl
      · exact Or.inr rfl

/-- The transaction processes a message for the event. -/
def Transaction.Processes (tx : Transaction) (k : String) (m : QueueMessage) : Prop :=
  ∃ loaded now, tx = .process m (some loaded) now ∧ loaded.eventId = k

/-- The digests of a row after the body of a transaction. -/
theorem Transaction.body_digests {out : Ledger} (hf : ∀ e ∈ tx.session.events, db.getEvent e.eventId = some e)
    (hn : tx.keys.Nodup) (hi : ∀ source plan correlationId now, tx ≠ .ingest source plan correlationId now)
    (h : tx.body rt db = .ok (out,reply)) (he : db.getEvent k = some e) : ∃ x, out.getEvent k = some x ∧
      (x.hashedIdentifiers = e.hashedIdentifiers ∨ ∃ m, tx.Processes k m ∧
        x.hashedIdentifiers = some (buildUserIdentifiers rt m.identifiers).identifiers) := by
  by_cases hp : ∃ m loaded now, tx = .process m loaded now
  · obtain ⟨m,loaded,now,rfl⟩ := hp
    obtain ⟨⟨mid,o⟩,ho,h⟩ := Outcome.bind_ok.mp h
    cases h
    cases loaded with
    | none =>
      cases ho
      exact ⟨e,he,Or.inl rfl⟩
    | some row =>
      by_cases hq : row.status = queued
      · rw [processMessage_queued hq] at ho
        cases ho
        rw [Ledger.record_getEvent (hf row (by simp [session])) verdict_eventId]
        split
        · next hk =>
          obtain rfl : row = e := by
            rw [hk, hf row (by simp [session])] at he
            exact Option.some.inj he
          exact ⟨_,rfl,(verdict_hashed rt row m).imp id fun hd => ⟨m,⟨row,now,rfl,hk.symm⟩,hd⟩⟩
        · exact ⟨e,he,Or.inl rfl⟩
      · have hskip : processMessage rt db (some row) m now = .ok (db,.skippedNotQueued) := if_pos hq
        rw [hskip] at ho
        cases ho
        exact ⟨e,he,Or.inl rfl⟩
  · have hw := body_rewrites hf hn hi h
    by_cases hkey : k ∈ tx.keys
    · obtain ⟨x,hx,hchange⟩ := hw.touch k e hkey he
      refine ⟨x,hx,Or.inl ?_⟩
      cases hchange with
      | refl => rfl
      | single hchange => exact (hchange.kept fun m loaded now heq => hp ⟨m,loaded,now,heq⟩).2
    · exact ⟨e,(hw.frame k hkey).trans he,Or.inl rfl⟩

/-- The digests of a row after a commit: those of the row, of the object that the session
had of it, or of the message. -/
theorem Transaction.commit_digests (hk : tx.session.Known db) (hn : tx.keys.Nodup)
    (hi : ∀ source plan correlationId now, tx ≠ .ingest source plan correlationId now)
    (h : tx.commit rt db = .ok (db',reply)) (he : db.getEvent k = some e) : ∃ x, db'.getEvent k = some x ∧
      (x.hashedIdentifiers = e.hashedIdentifiers ∨
        x.hashedIdentifiers = (tx.session.event e).hashedIdentifiers ∨
        ∃ m, tx.Processes k m ∧ x.hashedIdentifiers = some (buildUserIdentifiers rt m.identifiers).identifiers) := by
  obtain ⟨out,hb,rfl,_⟩ := commit_ok.mp h
  have hview : (tx.session.view db).getEvent k = some (tx.session.event e) := by
    rw [Session.view_getEvent, he, Option.map_some]
  obtain ⟨final,hfinal,hdigests⟩ := body_digests hk.fresh_view.events hn hi hb hview
  have hkey : db.getEvent final.eventId = some e := by rw [Ledger.getEvent_eventId hfinal, he]
  refine ⟨_,by rw [Session.flush_getEvent, hfinal, Option.map_some, Session.settle_of_some hkey],?_⟩
  rw [Event.merge_hashedIdentifiers]
  rcases pick_eq_or (tx.session.event e).hashedIdentifiers final.hashedIdentifiers e.hashedIdentifiers with hpick | hpick
  · rw [hpick]
    exact Or.inr hdigests
  · exact Or.inl hpick

end Digests

namespace System
variable {rt : Runtime} {settings : ℕ → Settings} {s t : System} {a : Action} {k : String} {plan : IngestPlan}

/-- All that is there about the event is of one plan: its row, the objects that
transactions have of it, its messages, its items, and what was sent about it. -/
structure Origin (rt : Runtime) (settings : ℕ → Settings) (s : System) (k : String) (plan : IngestPlan) : Prop where
  row : ∀ e, s.ledger.getEvent k = some e → e.Of rt plan
  objects : ∀ who, ∀ e ∈ s.rows who, e.eventId = k → e.Of rt plan
  messages : ∀ m, s.Circulates m → m.eventId = k → plan.Carries m.identifiers
  held : ∀ n, ∀ c ∈ (s.uploaders n).held, c.conversion.orderId = some k → plan.Tells rt settings c.conversion
  sent : ∀ batch ∈ s.sent, ∀ c ∈ batch, c.orderId = some k → plan.Tells rt settings c

/-- Before there is a row, there is nothing. -/
theorem origin_of_absent (hs : s.Correlated) (hc : s.Consenting) (hk : s.ledger.getEvent k = none)
    (plan : IngestPlan) : s.Origin rt settings k plan := by
  have hpermitted {c : Json} (hp : Permitted s.ledger c) : c.orderId ≠ some k := by
    obtain ⟨id,e,hid,he,_⟩ := hp
    rintro horder
    cases hid.symm.trans horder
    rw [hk] at he
    cases he
  refine ⟨fun e he => ?_,fun who e he hid => ?_,fun m hm hid => ?_,fun n c hc' ho => ?_,fun batch hb c hc' ho => ?_⟩
  · rw [hk] at he
    cases he
  · obtain ⟨x,hx,_⟩ := hs.linked.rows who e he
    rw [hid, hk] at hx
    cases hx
  · obtain ⟨e,he,_⟩ := hs.messages m hm
    rw [hid, hk] at he
    cases he
  · exact absurd ho (hpermitted (hc.held n c hc'))
  · exact absurd ho (hpermitted (hc.sent batch hb c hc'))

/-- An item of an uploader was there before, or a transaction hands it out. -/
theorem step_held_reply (h : step rt settings s a = some t) {n : ℕ} {c : Claimed}
    (hc : c ∈ (t.uploaders n).held) : c ∈ (s.uploaders n).held ∨
      ∃ tx reply, Commits rt settings s t (.uploader n) tx reply ∧ c ∈ reply.items := by
  rcases step_uploader h n with hu | ⟨b,sent,_,hstep⟩ | ⟨tx,reply,hcom,hu⟩ | hu
  · exact Or.inl (hu ▸ hc)
  · exact Or.inl (Uploader.step_held hstep hc)
  · rw [hu] at hc
    exact (Uploader.committed_held hc).imp id fun hitem => ⟨tx,reply,hcom,hitem⟩
  · rw [hu] at hc
    simp [Uploader.fresh,Uploader.held,Uploader.batch,Batcher.empty] at hc

/-- An item of a claim, built from its row. -/
theorem Commits.item (hs : s.Linked) {n : ℕ} {tx : Transaction} {reply : Reply}
    (hc : Commits rt settings s t (.uploader n) tx reply) {c : Claimed} (hitem : c ∈ reply.items) :
    c.conversion.orderId = some c.eventId ∧ ∃ e x now reason, s.ledger.getEvent c.eventId = some e ∧
      e.ClaimedAs now x reason ∧ buildConversion rt x (settings n).adsCustomerId = .ok c.conversion := by
  have hn := hs.keys_nodup hc.transaction
  obtain ⟨⟨st,selected,now,rfl⟩,_,hbacked⟩ := Transaction.commit_items hn hc.commit c hitem
  have hst : st = settings n := by
    rcases Uploader.transaction_cases hc.transaction with ⟨_,_,_,heq⟩ | ⟨_,_,_,_,_,_,_,_,heq⟩ | ⟨_,_,_,_,_,heq⟩ |
      ⟨_,_,_,_,_,heq⟩ <;> cases heq
    rfl
  have hfresh : (Transaction.claim st selected now).session.Fresh s.ledger := Session.fresh_empty _
  obtain ⟨⟨out,items⟩,hclaim,hb⟩ := Outcome.bind_ok.mp (Transaction.commit_fresh hfresh hc.commit).1
  cases hb
  obtain ⟨e,x,reason,he,hclaimed,hbuilt⟩ := claim_builds hn hclaim hitem
  exact ⟨hbacked.orderId,e,x,now,reason,he,hclaimed,hst ▸ hbuilt⟩

/-- A transaction that processes a message has it from a worker, for the row it names. -/
theorem Commits.message (hw : ∀ n, (s.workers n).Prepared) {who : Process} {tx : Transaction} {reply : Reply}
    (hc : Commits rt settings s t who tx reply) {m : QueueMessage} (hp : tx.Processes k m) :
    s.Circulates m ∧ m.eventId = k := by
  obtain ⟨loaded,now,rfl,rfl⟩ := hp
  have htx := hc.transaction
  cases who with
  | worker n =>
    simp only [System.transaction, Worker.transaction] at htx
    split at htx
    · next id message row now' hn =>
      cases htx
      have hread := hw n
      rw [hn] at hread
      exact ⟨.received (by rw [hn]; exact ⟨rfl,rfl⟩),(hread loaded rfl).symm⟩
    · cases htx
  | request n =>
    simp only [System.transaction, Request.transaction] at htx
    split at htx <;> cases htx
  | uploader n =>
    rcases Uploader.transaction_cases htx with ⟨_,_,_,heq⟩ | ⟨_,_,_,_,_,_,_,_,heq⟩ | ⟨_,_,_,_,_,heq⟩ |
      ⟨_,_,_,_,_,heq⟩ <;> cases heq
  | replayer n =>
    simp only [System.transaction, Replayer.transaction] at htx
    split at htx
    · split at htx <;> cases htx
    · cases htx
    · cases htx
  | reconciler n => cases htx

/-- The plan is that of the request which brings the row in with this step, if one does. -/
def Introduces (s : System) (a : Action) (k : String) (plan : IngestPlan) : Prop :=
  s.ledger.getEvent k = none → ∀ n call, a = .commit (.request n) → s.requests n = .planned call →
    call.eventId = some k → call.plan = plan

theorem Origin.row_after (ho : s.Origin rt settings k plan) (hs : s.Linked) (hw : ∀ n, (s.workers n).Prepared)
    (hnew : s.Introduces a k plan) (h : step rt settings s a = some t) {e : Event}
    (he : t.ledger.getEvent k = some e) : e.Of rt plan := by
  rcases step_ledger h with heq | ⟨who,tx,reply,ha,hc⟩
  · exact ho.row e (heq ▸ he)
  · cases hk : s.ledger.getEvent k with
    | none =>
      obtain ⟨source,plan',correlationId,now,rfl,hid,_⟩ := hc.new_row hs hk he
      obtain ⟨n,rfl,hn⟩ := transaction_ingest hc.transaction
      have hplan : plan' = plan := hnew hk n _ ha hn hid
      obtain ⟨⟨i,hbody,_⟩,_⟩ := commit_ingest.mp hc.commit
      exact hplan ▸ (ingestBody_of hbody).2 k e hk he
    | some e₀ =>
      have hold := ho.row e₀ hk
      by_cases hi : ∃ source plan correlationId now, tx = .ingest source plan correlationId now
      · obtain ⟨source,plan',correlationId,now,rfl⟩ := hi
        obtain ⟨⟨i,hbody,_⟩,_⟩ := commit_ingest.mp hc.commit
        have hsame := ingestBody_row hbody hk
        rw [he] at hsame
        cases hsame
        exact hold
      · have hknown := hs.known hc.transaction
        obtain ⟨x,hx,hdigests⟩ := Transaction.commit_digests hknown (hs.keys_nodup hc.transaction)
          (fun source plan correlationId now heq => hi ⟨source,plan,correlationId,now,heq⟩) hc.commit hk
        obtain ⟨y,hy,hid⟩ := Transaction.commit_identity hknown (hs.paired hc.transaction) hc.commit hk
        obtain rfl : x = e := Option.some.inj (hx.symm.trans he)
        obtain rfl : y = x := Option.some.inj (hy.symm.trans hx)
        refine ⟨hold.columns.congr hid,fun d hd => ?_⟩
        rcases hdigests with heq | heq | ⟨m,hp,heq⟩
        · exact hold.digests d (heq ▸ hd)
        · rcases Session.event_eq_or tx.session e₀ with hobject | hobject
          · rw [hobject] at heq
            exact hold.digests d (heq ▸ hd)
          · have hmem : tx.session.event e₀ ∈ s.rows who := (transaction_session hc.transaction).1 ▸ hobject
            have hkey : (tx.session.event e₀).eventId = k := by
              rw [Session.event_eventId, Ledger.getEvent_eventId hk]
            exact (ho.objects who _ hmem hkey).digests d (heq ▸ hd)
        · obtain ⟨hcirculates,hkey⟩ := hc.message hw hp
          rw [hd] at heq
          exact ⟨m.identifiers,ho.messages m hcirculates hkey,(Option.some.inj heq).symm⟩

theorem step_origin (hs : s.Linked) (hw : ∀ n, (s.workers n).Prepared) (hnew : s.Introduces a k plan)
    (ho : s.Origin rt settings k plan) (h : step rt settings s a = some t) : t.Origin rt settings k plan := by
  refine ⟨fun e he => ho.row_after hs hw hnew h he,fun who e he hid => ?_,fun m hm hid => ?_,fun n c hc horder => ?_,
    fun batch hb c hc horder => ?_⟩
  · rcases step_rows h he with he | he
    · exact ho.objects who e he hid
    · exact ho.row e (hid ▸ he)
  · rcases step_circulates h hm with hm | ⟨n,tx,i,rfl,hc,hm⟩ | ⟨n,letter,row,now,_,hm⟩ | ⟨threshold,now,hm⟩
    · exact ho.messages m hm hid
    · have htx := hc.transaction
      simp only [transaction, Request.transaction] at htx
      split at htx
      · next call hn =>
        cases htx
        obtain ⟨⟨j,hbody,hj⟩,_⟩ := commit_ingest.mp hc.commit
        cases hj
        obtain ⟨hkey,⟨_,hnone,_⟩ | ⟨x,_,hx,habsent,_,hmessage⟩⟩ := ingestBody_ok hbody
        · rw [hnone] at hm
          cases hm
        · have hxk : x.eventId = k := (hmessage m hm).1.symm.trans hid
          have hplan := hnew (hxk ▸ habsent) n call rfl hn (by rw [← hxk, hx]; exact hkey)
          exact hplan ▸ (ingestBody_of hbody).1 m hm
      · cases htx
    · exact Or.inl (replayMessage_blank hm).1
    · obtain ⟨e,_,rfl⟩ := List.mem_map.mp hm
      exact Or.inl rfl
  · rcases step_held_reply h hc with hc | ⟨tx,reply,hcom,hitem⟩
    · exact ho.held n c hc horder
    · obtain ⟨hkey,e,x,now,reason,he,hclaimed,hbuilt⟩ := hcom.item hs hitem
      obtain ⟨hid,hdigests⟩ := hclaimed.kept
      have hk : c.eventId = k := Option.some.inj (hkey.symm.trans horder)
      have hrow := ho.row e (hk ▸ he)
      have hclaimedRow : x.Of rt plan := ⟨hrow.columns.congr hid,hdigests ▸ hrow.digests⟩
      exact hclaimedRow.tells hbuilt
  · rcases step_sent h with heq | ⟨n,_,heq⟩
    · exact ho.sent batch (heq ▸ hb) c hc horder
    · rw [heq] at hb
      rcases List.mem_append.mp hb with hb | hb
      · exact ho.sent batch hb c hc horder
      · rw [List.mem_singleton.mp hb] at hc
        obtain ⟨item,hitem,rfl⟩ := List.mem_map.mp hc
        exact ho.held n item (List.mem_append_right _ hitem) horder

end System

namespace Api
variable {v : Verifier} {st : WebhookSettings} {settings : ℕ → Settings} {api api' : Api} {a : ApiAction}
  {actions : List ApiAction}

/-- All that is there about an event with a row is of one signed delivery. -/
structure Translating (v : Verifier) (st : WebhookSettings) (settings : ℕ → Settings) (actions : List ApiAction)
    (api : Api) : Prop where
  sourced : Sourced v st actions api
  consenting : api.system.Consenting
  workers : ∀ n, (api.system.workers n).Prepared
  origins : ∀ k e, api.system.ledger.getEvent k = some e → ∃ call, Posted v st actions call ∧
    call.eventId = some k ∧ api.system.Origin v.toRuntime settings k call.plan

theorem Translating.origin (hs : Translating v st settings actions api) {b : Action} {t : System}
    (h : System.step v.toRuntime settings api.system b = some t) {k : String} {e : Event}
    (he : t.ledger.getEvent k = some e) : ∃ call, Posted v st actions call ∧ call.eventId = some k ∧
      t.Origin v.toRuntime settings k call.plan := by
  have hlinked := hs.consenting.linked
  cases hk : api.system.ledger.getEvent k with
  | some e₀ =>
    obtain ⟨call,hposted,hid,horigin⟩ := hs.origins k e₀ hk
    refine ⟨call,hposted,hid,System.step_origin hlinked hs.workers (fun hn => ?_) horigin h⟩
    rw [hk] at hn
    cases hn
  | none =>
    rcases System.step_ledger h with heq | ⟨who,tx,reply,rfl,hc⟩
    · rw [heq, hk] at he
      cases he
    · obtain ⟨source,plan,correlationId,now,rfl,hid,_⟩ := hc.new_row hlinked hk he
      obtain ⟨n,rfl,hn⟩ := System.transaction_ingest hc.transaction
      refine ⟨⟨source,plan,correlationId,now⟩,hs.sourced.calls n _ (by rw [hn]; rfl),hid,System.step_origin hlinked hs.workers ?_
        (System.origin_of_absent hs.sourced.correlated hs.consenting hk _) h⟩
      intro _ n' call' ha hn' _
      cases ha
      rw [hn] at hn'
      cases hn'
      rfl

theorem step_translating (hs : Translating v st settings actions api) (h : step v st settings api a = some api') :
    Translating v st settings (actions ++ [a]) api' := by
  refine ⟨step_sourced hs.sourced h,?_,?_,fun k e he => ?_⟩
  · exact step_forall (P := System.Consenting) hs.consenting
      (fun _ _ hst => System.step_consenting hs.consenting hst) h
  · exact step_forall (P := fun t => ∀ n, (t.workers n).Prepared) hs.workers
      (fun _ _ hst => System.step_worker_prepared hs.workers hst) h
  · obtain ⟨call,hposted,hid,horigin⟩ := step_forall (P := fun t => ∀ e, t.ledger.getEvent k = some e →
      ∃ call, Posted v st actions call ∧ call.eventId = some k ∧ t.Origin v.toRuntime settings k call.plan)
      (fun e he => hs.origins k e he) (fun _ _ hst _ he => hs.origin hst he) h e he
    exact ⟨call,hposted.snoc a,hid,horigin⟩

theorem start_translating : Translating v st settings [] start :=
  ⟨⟨System.start_correlated,by rintro n _ ⟨⟩⟩,System.start_consenting,fun _ => trivial,
    by rintro k e ⟨⟩⟩

theorem run_translating (h : run v st settings start actions = some api) :
    Translating v st settings actions api := by
  induction actions using List.reverseRecOn generalizing api with
  | nil =>
    cases h
    exact start_translating
  | append_singleton as a ih =>
    obtain ⟨m,hm,ha⟩ := Machine.run_concat.mp h
    exact step_translating (ih hm) ha

/-- In every run of the gateway, whatever its processes do to each other: a conversion
that is sent is of one signed post, whose payload maps to an event with both consents, and
so are all others that are sent with its order id, by whatever uploader and however often.
Each is the conversion of that event under its identifiers or under none. -/
theorem run_translated (v : Verifier) (st : WebhookSettings) (settings : ℕ → Settings) (actions : List ApiAction)
    (api : Api) (h : run v st settings start actions = some api) (batch : List Json) (hb : batch ∈ api.system.sent)
    (c : Json) (hc : c ∈ batch) :
    ∃ n p now correlationId source event, .post n p now correlationId ∈ actions ∧ p.Signed v st now source ∧
      planIngest v.toRuntime source p.body correlationId = .accept event ∧
      event.consent.Granted ∧ c.orderId = some event.eventId ∧
      ∀ batch' ∈ api.system.sent, ∀ c' ∈ batch', c'.orderId = c.orderId → ∃ m identifiers,
        (identifiers = .blank ∨ event.identifiers.encode = .ok identifiers) ∧
        event.conversion v.toRuntime (settings m).adsCustomerId identifiers = .ok c' := by
  have hs := run_translating h
  obtain ⟨k,e,horder,he,hgranted⟩ := hs.consenting.sent batch hb c hc
  obtain ⟨call,⟨n,p,now,hp,hsigned,hplan⟩,hid,horigin⟩ := hs.origins k e he
  obtain ⟨event,identifiers,m,haccept,_,_⟩ := horigin.sent batch hb c hc horder
  have hkey : event.eventId = k := by
    rw [WebhookCall.eventId, haccept] at hid
    exact Option.some.inj hid
  have hconsent : e.consent = event.consent := stores_consent (haccept ▸ (horigin.row e he).columns)
  refine ⟨n,p,now,call.correlationId,call.source,event,hp,hsigned,hplan.symm.trans haccept,hconsent ▸ hgranted,
    hkey ▸ horder,?_⟩
  intro batch' hb' c' hc' horder'
  obtain ⟨event',identifiers',m',haccept',hcarried,hconversion⟩ :=
    horigin.sent batch' hb' c' hc' (horder'.trans horder)
  rw [haccept] at haccept'
  cases haccept'
  exact ⟨m',identifiers',hcarried,hconversion⟩

/-- One event from its post to its upload. -/
def uploadPosted : List ApiAction :=
  .post 0 clickPost Verifier.helloTime .zero :: System.uploadOnce.tail.map .other

/-- The theorem at the one conversion of this run. -/
theorem run_translated_uploadPosted : ∃ (api : Api) (c : Json) (event : CanonicalLeadEvent) (identifiers : RawIdentifiers),
    run clickVerifier clickSettings (fun _ => .single) start uploadPosted = some api ∧ [c] ∈ api.system.sent ∧
    event.consent.Granted ∧ c.orderId = some event.eventId ∧
    event.conversion clickVerifier.toRuntime Settings.single.adsCustomerId identifiers = .ok c := by
  have h : (run clickVerifier clickSettings (fun _ => .single) start uploadPosted).map
      (fun api => api.system.sent.map List.length) = some [1] := by decide +kernel
  obtain ⟨api,hapi,hsent⟩ := Option.map_eq_some_iff.mp h
  obtain ⟨batch,hb,hlen⟩ := List.mem_map.mp (hsent ▸ List.mem_singleton_self 1)
  obtain ⟨c,rfl⟩ := List.length_eq_one_iff.mp hlen
  obtain ⟨_,_,_,_,_,event,_,_,_,hgranted,horder,hall⟩ :=
    run_translated _ _ _ _ api hapi [c] hb c (List.mem_singleton_self c)
  obtain ⟨_,identifiers,_,hconversion⟩ := hall [c] hb c (List.mem_singleton_self c) rfl
  exact ⟨api,c,event,identifiers,hapi,hb,hgranted,horder,hconversion⟩

end Api
end ConversionGateway
