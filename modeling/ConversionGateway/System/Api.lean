import ConversionGateway.Lifecycle.Authentication
import ConversionGateway.Model.Routes
import ConversionGateway.System.ConsentInvariant
import ConversionGateway.System.Correlation

/-! # The API

The system as its clients reach it. A post gets to the ledger through the check of its
signature only; a query for an event reads its row and its trail in two statements,
between which other transactions commit.
-/
namespace ConversionGateway
open Relational EventStatus

/-! ## The check of a post -/

section Check
variable {v : Verifier} {st : WebhookSettings} {now : Binary64} {p : WebhookPost} {source : Source} {body : ByteArray}

/-- The post is signed for the source it names, over its own timestamp and body, and
was sent within the tolerance. -/
structure WebhookPost.Signed (v : Verifier) (st : WebhookSettings) (now : Binary64) (p : WebhookPost)
    (src : Source) : Prop where
  source : src.value = p.source
  secret : secretFor st src ≠ ""
  signature : ∃ timestamp signature sentAt sent, p.timestampHeader = some timestamp ∧
    p.signatureHeader = some signature ∧ v.int timestamp = some sentAt ∧ Binary64.ofInt sentAt = some sent ∧
    Binary64.absExceeds (now.sub sent) st.webhookTimestampToleranceSeconds = false ∧
    v.lower signature =
      "sha256=" ++ (v.hmacSha256 (secretFor st src).toUTF8 (Verifier.signedString timestamp p.body)).value

/-- Nothing else is let in. -/
theorem verifiedBody_ok (h : verifiedBody v st now p = .ok (source,body)) :
    body = p.body ∧ p.Signed v st now source := by
  unfold verifiedBody at h
  split at h
  · cases h
  · next src hsrc =>
    have hvalue : src.value = p.source := by simpa using List.find?_some hsrc
    split at h
    · cases h
    · cases h
    · next hverify =>
      cases h
      have hsecret : secretFor st source ≠ "" := by
        intro hempty
        simp [Verifier.verify,hempty] at hverify
      cases hts : p.timestampHeader with
      | none => simp [Verifier.verify,hsecret,hts] at hverify
      | some timestamp =>
        cases hsig : p.signatureHeader with
        | none => simp [Verifier.verify,hsecret,hts,hsig] at hverify
        | some signature =>
          rw [hts, hsig] at hverify
          obtain ⟨n,sent,hn,hsent,hwindow,hcompute⟩ := Verifier.verify_accepted hverify
          refine ⟨rfl,hvalue,hsecret,timestamp,signature,n,sent,hts,hsig,hn,hsent,hwindow,?_⟩
          rw [Verifier.computeSignature_eq (Verifier.computeSignature_ascii hcompute)] at hcompute
          exact (Except.ok.inj hcompute).symm

end Check

/-! ## Trails of rows -/

/-- Trails grow, and a row has the status it had or one that its trail has gained. -/
def Ledger.Notes (db out : Ledger) : Prop :=
  ∀ k, ∃ new, out.listTransitions k = db.listTransitions k ++ new ∧ ∀ x, out.getEvent k = some x →
    (∃ e, db.getEvent k = some e ∧ x.status = e.status) ∨ ∃ t ∈ new, t.toStatus = x.status

section Notes
variable {rt : Runtime} {db db' out : Ledger} {e e' : Event} {k : String}

theorem Ledger.Notes.refl (db : Ledger) : db.Notes db :=
  fun _ => ⟨[],(List.append_nil _).symm,fun x hx => Or.inl ⟨x,hx,rfl⟩⟩

theorem Ledger.Notes.trans (h : db.Notes db') (h' : db'.Notes out) : db.Notes out := by
  intro k
  obtain ⟨new,hnew,hrow⟩ := h k
  obtain ⟨new',hnew',hrow'⟩ := h' k
  refine ⟨new ++ new',by rw [hnew', hnew, List.append_assoc],fun x hx => ?_⟩
  rcases hrow' x hx with ⟨y,hy,hxy⟩ | ⟨t,ht,hto⟩
  · rcases hrow y hy with ⟨z,hz,hyz⟩ | ⟨t,ht,hto⟩
    · exact Or.inl ⟨z,hz,hxy.trans hyz⟩
    · exact Or.inr ⟨t,List.mem_append_left _ ht,hto.trans hxy.symm⟩
  · exact Or.inr ⟨t,List.mem_append_right _ ht,hto⟩

theorem notes_record (e' : Event) (reason : Option String) (now : Time) (he : db.getEvent e.eventId = some e)
    (hk : e'.eventId = e.eventId) : db.Notes (db.record e e' reason now) := by
  intro k
  refine ⟨_,Ledger.record_listTransitions k,fun x hx => ?_⟩
  rw [Ledger.record_getEvent he hk] at hx
  split at hx
  · next heq =>
    cases hx
    rw [if_pos heq.symm]
    exact Or.inr ⟨_,List.mem_singleton_self _,rfl⟩
  · exact Or.inl ⟨x,hx,rfl⟩

theorem Edit.notes (h : Edit rt db db') : db.Notes db' := by
  cases h with
  | @create e hnew hc now =>
    intro k
    refine ⟨_,Ledger.enter_listTransitions now hnew k,fun x hx => ?_⟩
    rw [Ledger.enter_getEvent] at hx
    split at hx
    · next heq =>
      cases hx
      rw [if_pos heq.symm]
      exact Or.inr ⟨_,List.mem_singleton_self _,hc.status.symm⟩
    · exact Or.inl ⟨x,hx,rfl⟩
  | @label e he c =>
    intro k
    refine ⟨[],(List.append_nil _).symm,fun x hx => Or.inl ?_⟩
    rw [Ledger.putEvent_getEvent he (Event.labelled_eventId e c)] at hx
    split at hx
    · next heq =>
      cases hx
      exact ⟨e,heq ▸ he,rfl⟩
    · exact ⟨x,hx,rfl⟩
  | @move e dest he hm reason now => exact notes_record (e.moved dest reason) reason now he rfl
  | @process e hashed he hq hg hm now => exact notes_record (e.processedWith hashed) none now he rfl
  | @attempt e he ha now => exact notes_record ((e.moved .uploading none).attempted now) none now he rfl
  | @reclaim e he hu now => exact notes_record (e.attempted now) reclaimedStale now he rfl
  | @bury e reason now letter he ha hid hl =>
    exact notes_record (e.moved .deadLettered (some reason)) (some reason) now he rfl
  | @revive e letter he hd hl hk ho now =>
    exact notes_record (e.requeued letter) (some (replayedReason letter.id)) now he rfl
  | skip n m => exact .refl db

end Notes

/-! ## The machine -/

/-- What a client is answered. -/
inductive ApiAnswer
  | refused (refusal : Refusal)
  | failed
  | ingested (response : Response)
  | unknownEvent (eventId : String)
  | event (response : EventResponse)

/-- The system with the queries under way, each with the row it has read. -/
structure Api where
  system : System
  readers : ℕ → Option Event

inductive ApiAction
  | post (n : ℕ) (p : WebhookPost) (now : Binary64) (correlationId : CorrelationId)
  | query (n : ℕ) (eventId : String)
  | list (n : ℕ)
  | other (a : Action)

namespace Api

def start : Api := ⟨System.start Ledger.empty,fun _ => none⟩

variable (v : Verifier) (st : WebhookSettings) (settings : ℕ → Settings)

def step (api : Api) : ApiAction → Option Api
  | .post n p now correlationId =>
    match verifiedBody v st now p with
    | .error _ => some api
    | .ok (source,body) =>
      (System.step v.toRuntime settings api.system (.request n (.deliver source body correlationId))).map fun s =>
        { api with system := s }
  | .query n eventId =>
    match api.readers n with
    | some _ => none
    | none => some { api with readers := Function.update api.readers n (api.system.ledger.getEvent eventId) }
  | .list n =>
    match api.readers n with
    | none => none
    | some _ => some { api with readers := Function.update api.readers n none }
  | .other (.request _ (.deliver ..)) => none
  | .other a => (System.step v.toRuntime settings api.system a).map fun s => { api with system := s }

abbrev run : Api → List ApiAction → Option Api := Machine.run (step v st settings)

/-- What the clients are told with an action. -/
def answers (api : Api) : ApiAction → List ApiAnswer
  | .post _ p now _ =>
    match verifiedBody v st now p with
    | .error refusal => [.refused refusal]
    | .ok _ => []
  | .query _ eventId => if api.system.ledger.getEvent eventId = none then [.unknownEvent eventId] else []
  | .list n => (api.readers n).toList.map fun row =>
      .event (eventResponse row (api.system.ledger.listTransitions row.eventId))
  | .other (.request _ .raise) => [.failed]
  | .other (.request n .publish) | .other (.request n .publishFails) | .other (.request n .answer) =>
    match api.system.requests n with
    | .recorded _ i => [.ingested i.response]
    | _ => []
  | .other _ => []

section Steps
variable {v : Verifier} {st : WebhookSettings} {settings : ℕ → Settings} {api api' : Api} {a : ApiAction}

/-- What an action does to the system: nothing, a delivery that was let in, or a step
that is no delivery. -/
theorem step_system (h : step v st settings api a = some api') :
    api'.system = api.system ∨
    (∃ n p now correlationId source body, a = .post n p now correlationId ∧
      verifiedBody v st now p = .ok (source,body) ∧ api'.readers = api.readers ∧
      System.step v.toRuntime settings api.system (.request n (.deliver source body correlationId)) =
        some api'.system) ∨
    ∃ b, a = .other b ∧ (∀ n source body correlationId, b ≠ .request n (.deliver source body correlationId)) ∧
      api'.readers = api.readers ∧ System.step v.toRuntime settings api.system b = some api'.system := by
  cases a with
  | post n p now correlationId =>
    simp only [step] at h
    split at h
    · cases h
      exact Or.inl rfl
    · next source body hbody =>
      obtain ⟨s,hs,rfl⟩ := Option.map_eq_some_iff.mp h
      exact Or.inr (Or.inl ⟨n,p,now,correlationId,source,body,rfl,hbody,rfl,hs⟩)
  | query n eventId =>
    simp only [step] at h
    split at h
    · cases h
    · cases h
      exact Or.inl rfl
  | list n =>
    simp only [step] at h
    split at h
    · cases h
    · cases h
      exact Or.inl rfl
  | other b =>
    unfold step at h
    split at h
    · next heq => cases heq
    · next heq => cases heq
    · next heq => cases heq
    · cases h
    · next b' hb heq =>
      cases heq
      obtain ⟨s,hs,rfl⟩ := Option.map_eq_some_iff.mp h
      exact Or.inr (Or.inr ⟨b,rfl,fun n source body correlationId => hb n source body correlationId,rfl,hs⟩)

/-- One step of the system, or none. -/
theorem step_forall {P : System → Prop} (hsame : P api.system)
    (hstep : ∀ b s, System.step v.toRuntime settings api.system b = some s → P s)
    (h : step v st settings api a = some api') : P api'.system := by
  rcases step_system h with heq | ⟨_,_,_,_,_,_,_,_,_,hs⟩ | ⟨b,_,_,_,hs⟩
  · rwa [heq]
  · exact hstep _ _ hs
  · exact hstep _ _ hs

end Steps

/-! ## One delivery and a query -/

/-- The digest of the text of a delivery, signed with `s3cret` at 1700000000. -/
def clickDigest : HmacDigest where
  value := "b18d286ad5d1cfcc0de85ef04b2eda21cee3a299206ab5249f12afe1b6cf7a6e"
  length_eq := by decide +kernel
  hex := by decide +kernel

def clickVerifier : Verifier where
  toRuntime := { clickRuntime 1704067200000 with lower := (Verifier.plain clickDigest).lower }
  hmacSha256 _ _ := clickDigest
  decimal _ := none
  lower_ascii := (Verifier.plain clickDigest).lower_ascii

def clickSettings : WebhookSettings where
  webhookSecretSalesforce := ""
  webhookSecretHubspot := "s3cret"
  webhookTimestampToleranceSeconds := 300
  tolerance_pos := by decide

def clickPost : WebhookPost :=
  ⟨"hubspot",some "1700000000",some ("sha256=" ++ clickDigest.value),clickBody 1704067200000⟩

/-- A query that reads the row before a worker has processed it, and the trail after. -/
def queryAcross : List ApiAction :=
  [.post 0 clickPost Verifier.helloTime .zero, .other (.commit (.request 0)), .other (.request 0 .publish),
    .query 0 "hubspot:1", .other (.worker 0 (.receive 0)), .other (.worker 0 .read),
    .other (.commit (.worker 0)), .list 0]

/-! ## Where rows come from -/

/-- One of the actions posted the delivery, and the check let it in. -/
def Posted (v : Verifier) (st : WebhookSettings) (actions : List ApiAction) (call : WebhookCall) : Prop :=
  ∃ n p now, .post n p now call.correlationId ∈ actions ∧ p.Signed v st now call.source ∧
    call.plan = planIngest v.toRuntime call.source p.body call.correlationId

/-- Rows are of deliveries, and deliveries are posted. -/
structure Sourced (v : Verifier) (st : WebhookSettings) (actions : List ApiAction) (api : Api) : Prop where
  correlated : api.system.Correlated
  calls : ∀ n call, (api.system.requests n).call = some call → Posted v st actions call

section Sources
variable {v : Verifier} {st : WebhookSettings} {settings : ℕ → Settings} {api api' : Api} {a : ApiAction}
  {actions : List ApiAction}

theorem Posted.snoc {call : WebhookCall} (h : Posted v st actions call) (a : ApiAction) :
    Posted v st (actions ++ [a]) call := by
  obtain ⟨n,p,now,hp,hsigned,hplan⟩ := h
  exact ⟨n,p,now,List.mem_append_left _ hp,hsigned,hplan⟩

theorem request_delivery {rt : Runtime} {clock : Time} {db : Ledger} {q q' : MessageQueue} {r r' : Request}
    {b : RequestAction} {out : Option String} (h : r.step rt clock db q b = some (r',q',out)) :
    ∀ c ∈ r'.call, c ∈ r.call ∨ ∃ body, b = .deliver c.source body c.correlationId ∧
      c.plan = planIngest rt c.source body c.correlationId := by
  intro c hc
  cases r <;> cases b <;> simp only [Request.step] at h <;> try (cases h; done)
  · cases h
    cases hc
    exact Or.inr ⟨_,rfl,rfl⟩
  · split at h <;> cases h
    exact Or.inl hc
  · obtain ⟨m,_,h⟩ := Option.map_eq_some_iff.mp h
    cases h
    exact Or.inl hc
  · obtain ⟨m,_,h⟩ := Option.map_eq_some_iff.mp h
    cases h
    exact Or.inl hc
  · split at h <;> cases h
    exact Or.inl hc

/-- A delivery that a request has is the one it had or has just arrived. -/
theorem step_calls {s t : System} {b : Action} {rt : Runtime} (h : System.step rt settings s b = some t)
    {n : ℕ} {call : WebhookCall} (hc : (t.requests n).call = some call) : (s.requests n).call = some call ∨
      ∃ body, b = .request n (.deliver call.source body call.correlationId) ∧
        call.plan = planIngest rt call.source body call.correlationId := by
  rcases System.step_request h n with heq | ⟨b',q,out,rfl,hstep⟩ | ⟨reply,heq⟩ | heq
  · exact Or.inl (heq ▸ hc)
  · rcases request_delivery hstep call hc with hold | ⟨body,rfl,hplan⟩
    · exact Or.inl hold
    · exact Or.inr ⟨body,rfl,hplan⟩
  · rw [heq, Request.committed_call] at hc
    exact Or.inl hc
  · rw [heq, Request.crash_call] at hc
    exact Or.inl hc

theorem step_sourced (hs : Sourced v st actions api) (h : step v st settings api a = some api') :
    Sourced v st (actions ++ [a]) api' := by
  have hcorrelated : api'.system.Correlated :=
    step_forall (P := System.Correlated) hs.correlated (fun _ _ hst => System.step_correlated hs.correlated hst) h
  refine ⟨hcorrelated,fun n call hc => ?_⟩
  rcases step_system h with heq | ⟨m,p,now,correlationId,source,body,rfl,hbody,_,hst⟩ | ⟨b,rfl,hno,_,hst⟩
  · rw [heq] at hc
    exact (hs.calls n call hc).snoc _
  · rcases step_calls hst hc with hold | ⟨body',heq,hplan⟩
    · exact (hs.calls n call hold).snoc _
    · cases heq
      obtain ⟨rfl,hsigned⟩ := verifiedBody_ok hbody
      exact ⟨_,p,now,List.mem_append_right _ (List.mem_singleton_self _),hsigned,hplan⟩
  · rcases step_calls hst hc with hold | ⟨body,rfl,_⟩
    · exact (hs.calls n call hold).snoc _
    · exact absurd rfl (hno n _ body _)

theorem run_sourced (h : run v st settings start actions = some api) : Sourced v st actions api := by
  induction actions using List.reverseRecOn generalizing api with
  | nil =>
    cases h
    exact ⟨System.start_correlated,by rintro n _ ⟨⟩⟩
  | append_singleton as a ih =>
    obtain ⟨m,hm,ha⟩ := Machine.run_concat.mp h
    exact step_sourced (ih hm) ha

/-- In every run, every row in the ledger is that of a post which was signed, for the
source in its path and over its own body, when it came: its event is the one that the body
is about, and it has the correlation id of that post. -/
theorem run_authentic (v : Verifier) (st : WebhookSettings) (settings : ℕ → Settings) (actions : List ApiAction)
    (api : Api) (h : run v st settings start actions = some api) (k : String) (e : Event)
    (he : api.system.ledger.getEvent k = some e) :
    ∃ n p now correlationId source, .post n p now correlationId ∈ actions ∧ p.Signed v st now source ∧
      (planIngest v.toRuntime source p.body correlationId).eventId source = some k ∧
      e.correlationId = some correlationId.value := by
  have hs := run_sourced h
  obtain ⟨i,call,hcall,hid,hlabel⟩ := hs.correlated.rows k e he
  obtain ⟨n,p,now,hp,hsigned,hplan⟩ := hs.calls i call hcall
  refine ⟨n,p,now,call.correlationId,call.source,hp,hsigned,?_,hlabel⟩
  rw [← hplan]
  exact hid

/-- The theorem at the row of one signed delivery. -/
theorem run_authentic_queryAcross : ∃ api e,
    run clickVerifier clickSettings (fun _ => .single) start queryAcross = some api ∧
    api.system.ledger.getEvent "hubspot:1" = some e ∧
    ∃ n p now correlationId source, .post n p now correlationId ∈ queryAcross ∧
      p.Signed clickVerifier clickSettings now source ∧
      (planIngest clickVerifier.toRuntime source p.body correlationId).eventId source = some "hubspot:1" ∧
      e.correlationId = some correlationId.value := by
  have h : ((run clickVerifier clickSettings (fun _ => .single) start queryAcross).bind fun api =>
      api.system.ledger.getEvent "hubspot:1").isSome := by decide +kernel
  obtain ⟨e,he⟩ := Option.isSome_iff_exists.mp h
  obtain ⟨api,hapi,he⟩ := Option.bind_eq_some_iff.mp he
  exact ⟨api,e,hapi,he,run_authentic _ _ _ _ api hapi _ e he⟩

end Sources

/-! ## What one client sees after another -/

/-- The later of two answers about an event agrees with the earlier one on what the event
is, and its trail goes on from there. -/
structure Precedes (r r' : EventResponse) : Prop where
  source : r'.source = r.source
  receivedAt : r'.receivedAt = r.receivedAt
  conversionAction : r'.conversionAction = r.conversionAction
  matchKeyType : r'.matchKeyType = r.matchKeyType
  transitions : r.transitions <+: r'.transitions

/-- What was answered still holds. -/
def Holds (db : Ledger) : ApiAnswer → Prop
  | .ingested response => (db.getEvent response.eventId).isSome
  | .event r => ∃ e, db.getEvent r.eventId = some e ∧
    Precedes r (eventResponse e (db.listTransitions r.eventId))
  | _ => True

/-- What every step of the system keeps. -/
structure Grows (s t : System) : Prop where
  rows : ∀ k e, s.ledger.getEvent k = some e → ∃ e', t.ledger.getEvent k = some e' ∧ e'.identity = e.identity
  notes : s.ledger.Notes t.ledger

section Views
variable {v : Verifier} {st : WebhookSettings} {settings : ℕ → Settings} {api api' : Api} {a : ApiAction}

theorem Grows.trail {s t : System} (h : Grows s t) (k : String) :
    s.ledger.listTransitions k <+: t.ledger.listTransitions k := by
  obtain ⟨new,hnew,_⟩ := h.notes k
  exact ⟨new,hnew.symm⟩

theorem Grows.holds {s t : System} (h : Grows s t) {x : ApiAnswer} (hx : Holds s.ledger x) : Holds t.ledger x := by
  cases x with
  | refused | failed | unknownEvent => trivial
  | ingested response =>
    obtain ⟨e,he⟩ := Option.isSome_iff_exists.mp hx
    obtain ⟨e',he',_⟩ := h.rows _ e he
    exact Option.isSome_iff_exists.mpr ⟨e',he'⟩
  | event r =>
    obtain ⟨e,he,hp⟩ := hx
    obtain ⟨e',he',hid⟩ := h.rows _ e he
    refine ⟨e',he',?_,?_,?_,?_,?_⟩
    · exact (congrArg Identity.source hid).trans hp.source
    · exact (congrArg Identity.receivedAt hid).trans hp.receivedAt
    · exact (congrArg Identity.conversionAction hid).trans hp.conversionAction
    · exact (congrArg Identity.matchKeyType hid).trans hp.matchKeyType
    · exact hp.transitions.trans ((h.trail _).map _)

theorem Grows.noted {s t : System} (h : Grows s t) {k : String} {status : EventStatus}
    (hs : ∃ x ∈ s.ledger.listTransitions k, x.toStatus = status) :
    ∃ x ∈ t.ledger.listTransitions k, x.toStatus = status := by
  obtain ⟨x,hx,hto⟩ := hs
  exact ⟨x,(h.trail k).subset hx,hto⟩

end Views
end Api
end ConversionGateway
