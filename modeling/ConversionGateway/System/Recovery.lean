import ConversionGateway.Lifecycle.Deliveries
import ConversionGateway.System.Processes

/-! # Recovery messages

An event with a click id that is stuck in the queue is published again, without
the identifiers, which only its first message had. Of the messages for an event
the one that is handled first decides, whichever it is.
-/
namespace ConversionGateway
open EventStatus

/-- The first call of the run that commits for event `k` carries `message`. -/
def FirstHandled (rt : Runtime) (s : WorkerState) (actions : List QueueAction) (k : String)
    (message : QueueMessage) : Prop :=
  message.eventId = k ∧ ∃ pre c post, actions = pre ++ .handle c :: post ∧ c.delivery.message = message ∧
    (handleDelivery rt (workerRun rt s pre) c).2 ≠ none ∧ ∀ m, m.eventId = k → ¬ Succeeds rt s pre m

section First
variable {rt : Runtime} {s : WorkerState} {k : String} {e : Event} {message : QueueMessage}

/-- A step that commits nothing for an event leaves its row alone. -/
theorem workerStep_row {a : QueueAction}
    (h : ∀ c, a = .handle c → c.delivery.message.eventId = k → (handleDelivery rt s c).2 = none) :
    (workerStep rt s a).ledger.getEvent k = s.ledger.getEvent k := by
  cases a with
  | publish message => rfl
  | receive n => rfl
  | handle c =>
    rcases handleDelivery_cases rt s c with heq | ⟨outcome,heq,_⟩
    · rw [workerStep, heq]
      rfl
    · rw [workerStep, heq]
      refine (processed_frame _ _ _ fun hk => ?_).1
      have hn := h c rfl hk.symm
      rw [heq] at hn
      cases hn

/-- A row that is not in the queue is out of the worker's reach. -/
theorem workerRun_settled_row {actions : List QueueAction} (he : s.ledger.getEvent k = some e)
    (hq : e.status ≠ queued) : (workerRun rt s actions).ledger.getEvent k = some e := by
  induction actions generalizing s with
  | nil => exact he
  | cons a rest ih =>
    refine ih ?_
    cases a with
    | publish message => exact he
    | receive n => exact he
    | handle c =>
      rcases handleDelivery_cases rt s c with heq | ⟨outcome,heq,_⟩
      · rw [workerStep, heq]
        exact he
      · rw [workerStep, heq]
        by_cases hk : k = c.delivery.message.eventId
        · subst hk
          have hset : s.ledger.processed rt c.delivery.message c.now = s.ledger :=
            processed_settled fun x hx => by
              obtain rfl := Option.some.inj (he.symm.trans hx)
              exact hq
          rw [hset]
          exact he
        · exact (processed_frame _ _ _ hk).1.trans he

theorem workerRun_row {actions : List QueueAction} (h : ∀ m, m.eventId = k → ¬ Succeeds rt s actions m) :
    (workerRun rt s actions).ledger.getEvent k = s.ledger.getEvent k := by
  induction actions generalizing s with
  | nil => rfl
  | cons a rest ih =>
    refine (ih fun m hm ⟨pre,c,post,heq,hc,hs⟩ => h m hm ⟨a :: pre,c,post,by simp [heq],hc,hs⟩).trans ?_
    refine workerStep_row fun c hc hk => ?_
    by_contra hs
    exact h c.delivery.message hk ⟨[],c,rest,by rw [hc]; rfl,rfl,hs⟩

/-- The row ends as the verdict of the message that was handled first. -/
theorem FirstHandled.row {actions : List QueueAction} (h : FirstHandled rt s actions k message)
    (he : s.ledger.getEvent k = some e) (hq : e.status = queued) :
    (workerRun rt s actions).ledger.getEvent k = some (e.verdict rt message).row := by
  obtain ⟨hk,pre,c,post,rfl,rfl,hs,hpre⟩ := h
  have hbefore := (workerRun_row hpre).trans he
  rw [workerRun_append]
  refine workerRun_settled_row (s := workerStep rt (workerRun rt s pre) (.handle c)) ?_ verdict_status
  rcases handleDelivery_cases rt (workerRun rt s pre) c with heq | ⟨outcome,heq,_⟩
  · rw [heq] at hs
    exact absurd rfl hs
  · rw [workerStep, heq]
    subst hk
    exact (processed_self _ _ hbefore hq).1

/-- Some call commits first. -/
theorem Succeeds.first {actions : List QueueAction} (hk : message.eventId = k)
    (h : Succeeds rt s actions message) : ∃ m, FirstHandled rt s actions k m := by
  obtain ⟨pre,c,post,rfl,rfl,hs⟩ := h
  -- an earlier call in the part before makes that part shorter
  induction hn : pre.length using Nat.strong_induction_on generalizing pre c post with
  | h n ih =>
    by_cases hpre : ∃ m, m.eventId = k ∧ Succeeds rt s pre m
    · obtain ⟨m,hm,pre',d,post',rfl,rfl,hs'⟩ := hpre
      have hlt : pre'.length < n := by
        rw [← hn]
        simp
      obtain ⟨x,hx⟩ := ih pre'.length hlt pre' d (post' ++ .handle c :: post) hs' hm rfl
      exact ⟨x,by simpa using hx⟩
    · exact ⟨c.delivery.message,hk,pre,c,post,rfl,rfl,hs,fun m hm hx => hpre ⟨m,hm,hx⟩⟩

end First

/-- What the deliveries decide about an event. -/
def Event.result (e : Event) : EventStatus × Option String × Option HashedIdentifiers :=
  (e.status,e.statusReason,e.hashedIdentifiers)

def HashedIdentifiers.blank : HashedIdentifiers := ⟨none,none,none,none,none,none,none,none,none⟩

/-- Identifiers that an event with a click id can do without: nothing in them
counts against it, and nothing of them is kept. -/
def Bare (rt : Runtime) (e : Event) (raw : RawIdentifiers) : Prop :=
  countedRejections e (buildUserIdentifiers rt raw).rejections = [] ∧
    (buildUserIdentifiers rt raw).identifiers = .blank

section Verdicts
variable {rt : Runtime} {e : Event} {message : QueueMessage}

theorem verdict_not_granted (hg : ¬ e.Granted) (m : QueueMessage) :
    (e.verdict rt m).row = (e.verdict rt message).row := by
  unfold Event.verdict
  cases hr : (evaluateConsent e.consent).reason with
  | none => exact absurd (evaluateConsent_reason_none.mp hr) hg
  | some reason => rfl

/-- Without digests on the row the identifiers of the message count. -/
theorem verdict_granted (hg : e.Granted) (hd : e.hashedIdentifiers = none) :
    (e.verdict rt message).row =
      let result := buildUserIdentifiers rt message.identifiers
      if countedRejections e result.rejections ≠ [] then
        e.moved .rejected (some (rejectionsReason (countedRejections e result.rejections)))
      else e.processedWith result.identifiers := by
  have hreuse : reusedDigests e message = none := by
    unfold reusedDigests
    split
    · exact hd
    · rfl
  unfold Event.verdict
  rw [evaluateConsent_reason_none.mpr hg, hreuse]
  dsimp only
  split <;> rfl

theorem bare_blank (rt : Runtime) (hc : truthy e.clickId = true) : Bare rt e .blank := by
  constructor
  · simp [countedRejections,hc,buildUserIdentifiers,identifierOutcomes,RawIdentifiersOf.blank,outcomeOf,
      hashOrNone,plainOrNone,HashedIdentifiers.hasMatchKey,Except.toOption,rejectionOf]
  · rfl

/-- A message without identifiers has the event PROCESSED on its click id alone. -/
theorem verdict_blank (hg : e.Granted) (hd : e.hashedIdentifiers = none) (hc : truthy e.clickId = true)
    (hr : message.identifiers = .blank) : (e.verdict rt message).row = e.processedWith .blank := by
  obtain ⟨h₁,h₂⟩ := bare_blank rt hc
  rw [verdict_granted hg hd, hr]
  dsimp only
  rw [h₁, h₂]
  rfl

/-- A message gives what one without identifiers gives, exactly if the consent
gate stops both or its identifiers are of no consequence. -/
theorem verdict_eq_blank_iff (hd : e.hashedIdentifiers = none) (hc : truthy e.clickId = true)
    {recovery : QueueMessage} (hr : recovery.identifiers = .blank) :
    (e.verdict rt message).row.result = (e.verdict rt recovery).row.result ↔
      ¬ e.Granted ∨ Bare rt e message.identifiers := by
  by_cases hg : e.Granted
  · rw [verdict_blank hg hd hc hr, verdict_granted hg hd]
    dsimp only
    split
    · next hn => simp [Bare,Event.result,Event.moved,Event.processedWith,hg,hn]
    · next hn =>
      have hn := not_not.mp hn
      simp [Bare,Event.result,Event.moved,Event.processedWith,hg,hn]
  · rw [verdict_not_granted hg]
    exact ⟨fun _ => Or.inl hg,fun _ => rfl⟩

/-- What the two messages of a click-id event make of it, whichever is handled first. -/
structure Decides (rt : Runtime) (e : Event) (original recovery : QueueMessage) : Prop where
  suppressed : ¬ e.Granted → ∃ reason : SuppressionReason, ∀ m ∈ [original,recovery],
    (e.verdict rt m).row.result = (.suppressed,some reason.value,none)
  recovered : e.Granted → (e.verdict rt recovery).row.result = (.processed,none,some .blank)
  bare : e.Granted → Bare rt e original.identifiers →
    (e.verdict rt original).row.result = (.processed,none,some .blank)
  rejected : e.Granted → ∀ rejections, rejections ≠ [] →
    countedRejections e (buildUserIdentifiers rt original.identifiers).rejections = rejections →
      (e.verdict rt original).row.result = (.rejected,some (rejectionsReason rejections),none)
  digests : e.Granted → ¬ Bare rt e original.identifiers →
    countedRejections e (buildUserIdentifiers rt original.identifiers).rejections = [] →
      (e.verdict rt original).row.result =
          (.processed,none,some (buildUserIdentifiers rt original.identifiers).identifiers) ∧
        (buildUserIdentifiers rt original.identifiers).identifiers ≠ .blank

theorem verdicts_decide {original recovery : QueueMessage} (hd : e.hashedIdentifiers = none)
    (hc : truthy e.clickId = true) (hr : recovery.identifiers = .blank) : Decides rt e original recovery where
  suppressed hg := by
    cases hreason : (evaluateConsent e.consent).reason with
    | none => exact absurd (evaluateConsent_reason_none.mp hreason) hg
    | some reason =>
      refine ⟨reason,fun m _ => ?_⟩
      unfold Event.verdict
      simp only [hreason, Event.result, Event.moved, hd]
  recovered hg := congrArg Event.result (verdict_blank hg hd hc hr)
  bare hg hbare := by
    rw [(verdict_eq_blank_iff hd hc hr).mpr (Or.inr hbare), verdict_blank hg hd hc hr]
    rfl
  rejected hg rejections hne heq := by
    rw [verdict_granted hg hd]
    simp only [heq, if_pos hne, Event.result, Event.moved, hd]
  digests hg hbare hnone := by
    refine ⟨?_,fun hblank => hbare ⟨hnone,hblank⟩⟩
    rw [verdict_granted hg hd]
    simp only [hnone, ne_eq, not_true_eq_false, if_false]
    rfl

end Verdicts

/-- The messages for an event: the one it was ingested with, and those that
`reconcile` published while it was in the queue. -/
def MessageFor (e : Event) (original m : QueueMessage) : Prop :=
  m = original ∨ ∃ db threshold now, db.getEvent e.eventId = some e ∧ m ∈ reconcile db threshold now

theorem reconcile_blank {db : Ledger} {threshold now : Time} {m : QueueMessage}
    (h : m ∈ reconcile db threshold now) : m.identifiers = .blank := by
  obtain ⟨e,_,rfl⟩ := List.mem_map.mp h
  rfl

/-- A row that was ingested waits in the queue without digests. -/
theorem recordValidated_row {rt : Runtime} {db out : Ledger} {event : CanonicalLeadEvent} {now : Time}
    {e : Event} (h : recordValidated rt db event now = .ok (out,some e)) :
    e.status = queued ∧ e.hashedIdentifiers = none := by
  rcases recordValidated_ok h with ⟨hn,_⟩ | ⟨row,stored,hrow,hstored,_,he,_⟩
  · cases hn
  · obtain ⟨_,_,hrow⟩ := Outcome.bind_ok.mp hrow
    obtain ⟨_,_,hrow⟩ := Outcome.bind_ok.mp hrow
    obtain ⟨v,t,rfl⟩ := hstored.columns
    rw [Option.some.inj he, ← Outcome.pure_ok.mp hrow]
    exact ⟨rfl,rfl⟩

/-- Of the messages for a click-id event, with whatever identifiers it was ingested, the
first that is handled decides. It makes no difference which one it is, exactly if consent
is not granted or the identifiers of the original message are of no consequence; else it
is PROCESSED on the click id alone, or what these identifiers make of it. -/
theorem workerRun_recovery (rt : Runtime) (db₀ db : Ledger) (event : CanonicalLeadEvent) (now : Time)
    (e : Event) (original : QueueMessage) (hi : recordValidated rt db₀ event now = .ok (db,some e))
    (hc : truthy e.clickId = true) :
    (∀ s actions, s.ledger.getEvent e.eventId = some e →
      (∀ c, .handle c ∈ actions → c.delivery.message.eventId = e.eventId →
        MessageFor e original c.delivery.message) →
      (∃ m, m.eventId = e.eventId ∧ Succeeds rt s actions m) →
      ∃ m x, FirstHandled rt s actions e.eventId m ∧ MessageFor e original m ∧
        (workerRun rt s actions).ledger.getEvent e.eventId = some x ∧
        x.result = (e.verdict rt m).row.result) ∧
    ∀ recovery, MessageFor e original recovery → recovery ≠ original →
      ((e.verdict rt original).row.result = (e.verdict rt recovery).row.result ↔
        ¬ e.Granted ∨ Bare rt e original.identifiers) ∧ Decides rt e original recovery := by
  obtain ⟨hq,hd⟩ := recordValidated_row hi
  refine ⟨fun s actions he hover ⟨m,hm,hs⟩ => ?_,fun recovery hr hne => ?_⟩
  · obtain ⟨first,hf⟩ := hs.first hm
    obtain ⟨hk,pre,c,post,heq,hmsg,_⟩ := id hf
    have hfor := hover c (by rw [heq]; simp) (by rw [hmsg, hk])
    exact ⟨first,_,hf,hmsg ▸ hfor,hf.row he hq,rfl⟩
  · obtain ⟨_,_,_,_,hm⟩ := hr.resolve_left hne
    exact ⟨verdict_eq_blank_iff hd hc (reconcile_blank hm),verdicts_decide hd hc (reconcile_blank hm)⟩

/-! ## A click id next to a malformed email -/

def stuckEvent : CanonicalLeadEvent where
  eventId := "hubspot:1"
  source := .hubspot
  sourceEventId := "1"
  correlationId := none
  conversionAction := "lead"
  conversionTime := ⟨2024,1,1,0,0,0,0,some 3600,by decide,by decide,by decide,by decide,by decide,by decide,
    by decide,by decide⟩
  conversionValue := none
  currency := none
  clickId := some (.text "click")
  identifiers := { RawIdentifiersOf.blank with email := some (.text "nobody") }
  consent := ⟨some .granted,some .granted⟩

def stuckRuntime : Runtime := Runtime.plain .valueError

def stuckLedger : Ledger :=
  match recordValidated stuckRuntime Ledger.empty stuckEvent 0 with
  | .ok (db,_) => db
  | .error _ => Ledger.empty

def stuckOriginal : QueueMessage :=
  ⟨"hubspot:1",{ RawIdentifiersOf.blank with email := some "nobody" },0,some CorrelationId.zero.value⟩

def stuckRecovery : QueueMessage := ⟨"hubspot:1",.blank,600,none⟩

/-- Both messages are received and handled, in this order. -/
def handleBoth (first second : QueueMessage) : List QueueAction :=
  [.publish first,.publish second,.receive 2,.handle ⟨⟨0,first,1⟩,700,false,0⟩,
    .handle ⟨⟨1,second,1⟩,800,false,0⟩]

theorem stuckEvent_recorded : ∃ e, recordValidated stuckRuntime Ledger.empty stuckEvent 0 =
    .ok (stuckLedger,some e) ∧ truthy e.clickId = true ∧ stuckLedger.getEvent "hubspot:1" = some e ∧
    e.eventId = "hubspot:1" := ⟨_,rfl,rfl,rfl,rfl⟩

theorem handleBoth_succeeds {first second m : QueueMessage}
    (h : (handleDelivery stuckRuntime (workerRun stuckRuntime ⟨stuckLedger,.empty⟩
      [.publish first,.publish second,.receive 2]) ⟨⟨0,first,1⟩,700,false,0⟩).2 ≠ none)
    (h' : (handleDelivery stuckRuntime (workerRun stuckRuntime ⟨stuckLedger,.empty⟩
      [.publish first,.publish second,.receive 2,.handle ⟨⟨0,first,1⟩,700,false,0⟩])
      ⟨⟨1,second,1⟩,800,false,0⟩).2 ≠ none) (hm : m = first ∨ m = second) :
    Succeeds stuckRuntime ⟨stuckLedger,.empty⟩ (handleBoth first second) m := by
  rcases hm with rfl | rfl
  · exact ⟨[_,_,_],_,[_],rfl,rfl,h⟩
  · exact ⟨[_,_,_,_],_,[],rfl,rfl,h'⟩

/-- The original message first leads to REJECTED, the recovery message first to PROCESSED. -/
theorem recovery_order_matters : ∃ (e : Event) (original recovery : QueueMessage)
    (first second : List QueueAction),
    recordValidated stuckRuntime Ledger.empty stuckEvent 0 = .ok (stuckLedger,some e) ∧
    truthy e.clickId = true ∧ ingestMessage .zero 0 stuckEvent = some original ∧
    recovery ∈ reconcile stuckLedger 300 600 ∧
    (∀ m, m = original ∨ m = recovery → Succeeds stuckRuntime ⟨stuckLedger,.empty⟩ first m ∧
      Succeeds stuckRuntime ⟨stuckLedger,.empty⟩ second m) ∧
    ((workerRun stuckRuntime ⟨stuckLedger,.empty⟩ first).ledger.getEvent e.eventId).map Event.result ≠
      ((workerRun stuckRuntime ⟨stuckLedger,.empty⟩ second).ledger.getEvent e.eventId).map Event.result := by
  obtain ⟨e,he,hc,_,hid⟩ := stuckEvent_recorded
  refine ⟨e,stuckOriginal,stuckRecovery,handleBoth stuckOriginal stuckRecovery,
    handleBoth stuckRecovery stuckOriginal,he,hc,rfl,by decide +kernel,fun m hm => ⟨?_,?_⟩,?_⟩
  · exact handleBoth_succeeds (by decide +kernel) (by decide +kernel) hm
  · exact handleBoth_succeeds (by decide +kernel) (by decide +kernel) hm.symm
  · rw [hid]
    decide +kernel

theorem workerRun_recovery_stuck : ∃ (e : Event) (m : QueueMessage) (x : Event),
    FirstHandled stuckRuntime ⟨stuckLedger,.empty⟩ (handleBoth stuckRecovery stuckOriginal) e.eventId m ∧
    MessageFor e stuckOriginal m ∧
    (workerRun stuckRuntime ⟨stuckLedger,.empty⟩ (handleBoth stuckRecovery stuckOriginal)).ledger.getEvent
      e.eventId = some x ∧ x.result = (e.verdict stuckRuntime m).row.result ∧
    ((e.verdict stuckRuntime stuckOriginal).row.result = (e.verdict stuckRuntime stuckRecovery).row.result ↔
      ¬ e.Granted ∨ Bare stuckRuntime e stuckOriginal.identifiers) ∧
    Decides stuckRuntime e stuckOriginal stuckRecovery := by
  obtain ⟨e,he,hc,hget,hid⟩ := stuckEvent_recorded
  obtain ⟨hrun,hiff⟩ := workerRun_recovery stuckRuntime Ledger.empty stuckLedger stuckEvent 0 e
    stuckOriginal he hc
  have hrec : MessageFor e stuckOriginal stuckRecovery :=
    Or.inr ⟨stuckLedger,300,600,hid ▸ hget,by decide +kernel⟩
  have hover : ∀ c, .handle c ∈ handleBoth stuckRecovery stuckOriginal →
      c.delivery.message.eventId = e.eventId → MessageFor e stuckOriginal c.delivery.message := by
    intro c hc _
    simp only [handleBoth, List.mem_cons, QueueAction.handle.injEq, reduceCtorEq, false_or,
      List.not_mem_nil, or_false] at hc
    rcases hc with rfl | rfl
    · exact hrec
    · exact Or.inl rfl
  obtain ⟨m,x,hf,hfor,hx,hres⟩ := hrun ⟨stuckLedger,.empty⟩ (handleBoth stuckRecovery stuckOriginal)
    (hid ▸ hget) hover ⟨stuckRecovery,hid.symm,
      handleBoth_succeeds (by decide +kernel) (by decide +kernel) (Or.inl rfl)⟩
  exact ⟨e,m,x,hf,hfor,hx,hres,hiff stuckRecovery hrec (by decide)⟩

end ConversionGateway
