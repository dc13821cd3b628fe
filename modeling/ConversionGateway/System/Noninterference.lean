import ConversionGateway.Lifecycle.RawText
import ConversionGateway.System.Step

/-! # Noninterference of raw text

Two runs whose deliveries differ in raw text only. They go step by step together:
all that tells their states apart is the raw text of the messages on the way.
-/
namespace ConversionGateway

section Processes
variable {rt : Runtime} {clock : Time} {db : Ledger} {q q' : MessageQueue}

structure WebhookCall.Alike (rt : Runtime) (c c' : WebhookCall) : Prop where
  source : c.source = c'.source
  plan : c.plan.Alike rt c'.plan
  correlationId : c.correlationId = c'.correlationId
  now : c.now = c'.now

inductive Request.Alike (rt : Runtime) : Request → Request → Prop
  | idle : Alike rt .idle .idle
  | planned {c c' : WebhookCall} (hc : c.Alike rt c') : Alike rt (.planned c) (.planned c')
  | recorded {c c' : WebhookCall} {i i' : Ingested} (hc : c.Alike rt c') (hi : i.Alike rt i') :
      Alike rt (.recorded c i) (.recorded c' i')
  | answered {c c' : WebhookCall} (hc : c.Alike rt c') (response : Response) :
      Alike rt (.answered c response) (.answered c' response)
  | failed {c c' : WebhookCall} (hc : c.Alike rt c') : Alike rt (.failed c) (.failed c')
  | lost {c c' : WebhookCall} (hc : c.Alike rt c') : Alike rt (.lost c) (.lost c')

inductive Worker.Alike (rt : Runtime) : Worker → Worker → Prop
  | idle : Alike rt .idle .idle
  | received {m m' : QueueMessage} (id : ℕ) (hm : m.Alike rt m') (now : Time) :
      Alike rt (.received id m now) (.received id m' now)
  | loaded {m m' : QueueMessage} (id : ℕ) (hm : m.Alike rt m') (row : Option Event) (now : Time) :
      Alike rt (.loaded id m row now) (.loaded id m' row now)
  | done (id : ℕ) : Alike rt (.done id) (.done id)
  | failed (id : ℕ) : Alike rt (.failed id) (.failed id)

/-- The same action, or two deliveries that differ in raw text only. -/
inductive RequestAction.Alike (rt : Runtime) : RequestAction → RequestAction → Prop
  | refl (a : RequestAction) : Alike rt a a
  | deliver {source : Source} {body body' : ByteArray} (correlationId : CorrelationId)
      (hb : BodiesAlike rt source body body') (hid : Identified rt source body) :
      Alike rt (.deliver source body correlationId) (.deliver source body' correlationId)

inductive Transaction.Alike (rt : Runtime) : Transaction → Transaction → Prop
  | refl (tx : Transaction) : Alike rt tx tx
  | ingest {plan plan' : IngestPlan} (source : Source) (hp : plan.Alike rt plan') (correlationId : CorrelationId)
      (now : Time) : Alike rt (.ingest source plan correlationId now) (.ingest source plan' correlationId now)
  | process {m m' : QueueMessage} (hm : m.Alike rt m') (row : Option Event) (now : Time) :
      Alike rt (.process m row now) (.process m' row now)

inductive Reply.Alike (rt : Runtime) : Reply → Reply → Prop
  | refl (reply : Reply) : Alike rt reply reply
  | ingested {i i' : Ingested} (hi : i.Alike rt i') : Alike rt (.ingested i) (.ingested i')

/-- Alike transactions write the same. -/
theorem Transaction.Alike.commit {tx tx' : Transaction} (h : tx.Alike rt tx') (db : Ledger) :
    Outcome.Together (fun a b => a.1 = b.1 ∧ a.2.Alike rt b.2) (tx.commit rt db) (tx'.commit rt db) := by
  cases h with
  | refl tx => exact .refl (fun a => ⟨rfl,.refl a.2⟩) _
  | @process m m' hm row now =>
    have hsame : (Transaction.process m row now).commit rt db = (Transaction.process m' row now).commit rt db := by
      simp only [Transaction.commit, body, session, processMessage_congr hm]
      rfl
    rw [hsame]
    exact .refl (fun a => ⟨rfl,.refl a.2⟩) _
  | @ingest plan plan' source hp correlationId now =>
    have hbody (view : Ledger) : Outcome.Together (fun a b => a.1 = b.1 ∧ a.2.Alike rt b.2)
        ((Transaction.ingest source plan correlationId now).body rt view)
        ((Transaction.ingest source plan' correlationId now).body rt view) :=
      (ingestBody_alike hp).bind fun a b hab => .ok ⟨hab.1,.ingested hab.2⟩
    apply (hbody _).bind
    rintro ⟨out,reply⟩ ⟨_,reply'⟩ ⟨rfl,hreply⟩
    by_cases hfits : (Session.empty.flush db out).fits = true
    · simp only [session, hfits, if_true]
      exact .ok ⟨rfl,hreply⟩
    · simp only [session, hfits]
      exact .error _

theorem WebhookCall.Alike.transaction {c c' : WebhookCall} (h : c.Alike rt c') :
    c.transaction.Alike rt c'.transaction := by
  obtain ⟨source,plan,correlationId,now⟩ := c
  obtain ⟨source',plan',correlationId',now'⟩ := c'
  obtain ⟨hsource,hplan,hcorrelation,hnow⟩ := h
  dsimp only at hsource hplan hcorrelation hnow
  subst hsource hcorrelation hnow
  exact .ingest _ hplan _ _

theorem Request.Alike.step {r r' : Request} {a a' : RequestAction} (hr : r.Alike rt r') (ha : a.Alike rt a')
    (hq : q.Alike (QueueMessage.Alike rt) q') :
    Option.Rel (fun p p' => p.1.Alike rt p'.1 ∧ p.2.1.Alike (QueueMessage.Alike rt) p'.2.1 ∧ p.2.2 = p'.2.2)
      (r.step rt clock db q a) (r'.step rt clock db q' a') := by
  cases hr with
  | idle =>
    cases ha with
    | deliver correlationId hb hid => exact .some ⟨.planned ⟨rfl,planIngest_alike hb hid _,rfl,rfl⟩,hq,rfl⟩
    | refl a =>
      cases a with
      | deliver source body correlationId => exact .some ⟨.planned ⟨rfl,.refl _,rfl,rfl⟩,hq,rfl⟩
      | raise | publish | publishFails | answer => exact .none
  | planned hc =>
    cases ha with
    | deliver => exact .none
    | refl a =>
      cases a with
      | raise =>
        have hcommit := hc.transaction.commit db
        simp only [Request.step]
        generalize Transaction.commit rt db _ = x at hcommit ⊢
        generalize Transaction.commit rt db _ = y at hcommit ⊢
        cases hcommit with
        | ok _ => exact .none
        | error e => exact .some ⟨.failed hc,hq,rfl⟩
      | deliver | publish | publishFails | answer => exact .none
  | @recorded c c' i i' hc hi =>
    obtain ⟨response,message⟩ := i
    obtain ⟨response',message'⟩ := i'
    obtain ⟨hresponse,hmessage⟩ := hi
    dsimp only at hresponse hmessage
    subst hresponse
    cases ha with
    | deliver => exact .none
    | refl a =>
      cases a with
      | publish => exact Machine.rel_map hmessage fun m m' hm =>
          ⟨.answered hc _,hq.publish hm,congrArg some hm.eventId⟩
      | publishFails => exact Machine.rel_map hmessage fun m m' hm => ⟨.answered hc _,hq,rfl⟩
      | answer =>
        simp only [Request.step]
        cases hmessage with
        | none => exact .some ⟨.answered hc _,hq,rfl⟩
        | some => exact .none
      | deliver | raise => exact .none
  | answered | failed | lost =>
    cases ha with
    | deliver => exact .none
    | refl a => cases a <;> exact .none

theorem Request.Alike.committed {r r' : Request} {reply reply' : Reply} (hr : r.Alike rt r')
    (h : reply.Alike rt reply') : (r.committed reply).Alike rt (r'.committed reply') := by
  cases hr with
  | planned hc =>
    cases h with
    | ingested hi => exact .recorded hc hi
    | refl reply =>
      cases reply with
      | ingested i => exact .recorded hc (.refl i)
      | processed | claimed | written | replayed => exact .planned hc
  | idle => exact .idle
  | recorded hc hi => exact .recorded hc hi
  | answered hc response => exact .answered hc response
  | failed hc => exact .failed hc
  | lost hc => exact .lost hc

theorem Request.Alike.crash {r r' : Request} (hr : r.Alike rt r') : r.crash.Alike rt r'.crash := by
  cases hr with
  | planned hc | recorded hc _ => exact .lost hc
  | idle => exact .idle
  | answered hc response => exact .answered hc response
  | failed hc => exact .failed hc
  | lost hc => exact .lost hc

theorem Worker.Alike.step {w w' : Worker} (hw : w.Alike rt w') (a : WorkerAction)
    (hq : q.Alike (QueueMessage.Alike rt) q') :
    Option.Rel (fun p p' => p.1.Alike rt p'.1 ∧ p.2.Alike (QueueMessage.Alike rt) p'.2)
      (w.step clock db q a) (w'.step clock db q' a) := by
  cases hw with
  | idle =>
    cases a with
    | receive id => exact Machine.rel_map (hq.receive id) fun _ _ h => ⟨.received id h.1 clock,h.2⟩
    | handle | read | raise | ack | nack => exact .none
  | @received m m' id hm now =>
    cases a with
    | handle => exact .some ⟨.received id hm clock,hq⟩
    | read =>
      refine .some ⟨?_,hq⟩
      rw [hm.eventId]
      exact .loaded id hm _ now
    | raise => exact .some ⟨.failed id,hq⟩
    | receive | ack | nack => exact .none
  | loaded id hm row now =>
    cases a with
    | raise => exact .some ⟨.failed id,hq⟩
    | receive | handle | read | ack | nack => exact .none
  | done id =>
    cases a with
    | ack => exact .some ⟨.idle,hq.ack id⟩
    | receive | handle | read | raise | nack => exact .none
  | failed id =>
    cases a with
    | nack => exact .some ⟨.idle,hq.release id⟩
    | receive | handle | read | raise | ack => exact .none

theorem Worker.Alike.committed {w w' : Worker} (hw : w.Alike rt w') : w.committed.Alike rt w'.committed := by
  cases hw with
  | loaded id => exact .done id
  | idle => exact .idle
  | received id hm now => exact .received id hm now
  | done id => exact .done id
  | failed id => exact .failed id

theorem Replayer.step_alike (r : Replayer) (a : ReplayerAction) (hq : q.Alike (QueueMessage.Alike rt) q') :
    Option.Rel (fun p p' => p.1 = p'.1 ∧ p.2.Alike (QueueMessage.Alike rt) p'.2) (r.step db q a) (r.step db q' a) := by
  cases r with
  | idle =>
    cases a with
    | pick id now => exact Machine.rel_map Machine.rel_refl fun _ _ h => ⟨h ▸ rfl,hq⟩
    | load | publish => exact .none
  | picked letter now =>
    cases a with
    | load => exact .some ⟨rfl,hq⟩
    | pick | publish => exact .none
  | loaded letter row now =>
    cases a with
    | publish =>
      apply Machine.rel_map Machine.rel_refl
      rintro m _ rfl
      exact ⟨by rw [hq.next],hq.publish (.refl m)⟩
    | pick | load => exact .none
  | published => cases a <;> exact .none

theorem reconcilerStep_alike (pending : List QueueMessage) (a : ReconcilerAction)
    (hq : q.Alike (QueueMessage.Alike rt) q') :
    Option.Rel (fun p p' => p.1 = p'.1 ∧ p.2.Alike (QueueMessage.Alike rt) p'.2)
      (reconcilerStep db q pending a) (reconcilerStep db q' pending a) := by
  cases pending with
  | nil =>
    cases a with
    | scan threshold now => exact .some ⟨rfl,hq⟩
    | republish => exact .none
  | cons m rest =>
    cases a with
    | republish => exact .some ⟨rfl,hq.publish (.refl m)⟩
    | scan => exact .none

end Processes

/-- The same action, or two deliveries that differ in raw text only. -/
inductive Action.Alike (rt : Runtime) : Action → Action → Prop
  | refl (a : Action) : Alike rt a a
  | request {a a' : RequestAction} (n : ℕ) (h : a.Alike rt a') : Alike rt (.request n a) (.request n a')

namespace System
variable {rt : Runtime} {settings : ℕ → Settings} {s s' : System}

/-- The same state up to the raw text of the deliveries and messages that are on the way. -/
structure Alike (rt : Runtime) (s s' : System) : Prop where
  rest : s' = { s with queue := s'.queue, requests := s'.requests, workers := s'.workers }
  queue : s.queue.Alike (QueueMessage.Alike rt) s'.queue
  requests : ∀ n, (s.requests n).Alike rt (s'.requests n)
  workers : ∀ n, (s.workers n).Alike rt (s'.workers n)

theorem update_alike {T T' : Type} {R : T → T' → Prop} {f : ℕ → T} {g : ℕ → T'} (h : ∀ n, R (f n) (g n)) (n : ℕ)
    {x : T} {y : T'} (hxy : R x y) (m : ℕ) : R (Function.update f n x m) (Function.update g n y m) := by
  by_cases hm : m = n
  · subst hm
    rwa [Function.update_self, Function.update_self]
  · rw [Function.update_of_ne hm, Function.update_of_ne hm]
    exact h m

theorem start_alike (db : Ledger) : (start db).Alike rt (start db) :=
  ⟨rfl,Delivery.Queue.alike_empty,fun _ => .idle,fun _ => .idle⟩

theorem Alike.transaction (settings : ℕ → Settings) (h : s.Alike rt s') (who : Process) :
    Option.Rel (Transaction.Alike rt) (s.transaction settings who) (s'.transaction settings who) := by
  have hsame {x y : Option Transaction} (heq : x = y) : Option.Rel (Transaction.Alike rt) x y := by
    subst heq
    cases x with
    | none => exact .none
    | some tx => exact .some (.refl tx)
  cases who with
  | request n =>
    have hr := h.requests n
    simp only [System.transaction]
    generalize s.requests n = r at hr ⊢
    generalize s'.requests n = r' at hr ⊢
    cases hr with
    | planned hc => exact .some hc.transaction
    | idle | recorded | answered | failed | lost => exact .none
  | worker n =>
    have hw := h.workers n
    simp only [System.transaction]
    generalize s.workers n = w at hw ⊢
    generalize s'.workers n = w' at hw ⊢
    cases hw with
    | loaded id hm row now => exact .some (.process hm row now)
    | idle | received | done | failed => exact .none
  | uploader n | replayer n | reconciler n =>
    apply hsame
    rw [h.rest]
    rfl

/-- The two go on alike after a commit. -/
theorem Alike.committed (h : s.Alike rt s') (db : Ledger) {reply reply' : Reply} (hreply : reply.Alike rt reply')
    (who : Process) : (s.committed settings db reply who).Alike rt (s'.committed settings db reply' who) := by
  obtain ⟨queue,requests,workers,rfl⟩ : ∃ queue requests workers,
    s' = { s with queue := queue, requests := requests, workers := workers } := ⟨_,_,_,h.rest⟩
  cases who with
  | request n => exact ⟨rfl,h.queue,update_alike h.requests n ((h.requests n).committed hreply),h.workers⟩
  | worker n => exact ⟨rfl,h.queue,h.requests,update_alike h.workers n (h.workers n).committed⟩
  | uploader n =>
    refine ⟨?_,h.queue,h.requests,h.workers⟩
    cases hreply with
    | refl => rfl
    | ingested => rfl
  | replayer n =>
    refine ⟨?_,h.queue,h.requests,h.workers⟩
    cases hreply with
    | refl => rfl
    | ingested => rfl
  | reconciler n => exact ⟨rfl,h.queue,h.requests,h.workers⟩

theorem Alike.commit (h : s.Alike rt s') (who : Process) :
    Option.Rel (Alike rt) (step rt settings s (.commit who)) (step rt settings s' (.commit who)) := by
  have htx := h.transaction settings who
  have hledger : s'.ledger = s.ledger := by rw [h.rest]
  have hlocks : s'.locks = s.locks := by rw [h.rest]
  simp only [step]
  generalize s.transaction settings who = x at htx ⊢
  generalize s'.transaction settings who = y at htx ⊢
  cases htx with
  | none => exact .none
  | @some tx tx' htx =>
    have hcommit := htx.commit s.ledger
    dsimp only
    rw [hledger]
    generalize tx.commit rt s.ledger = x at hcommit ⊢
    generalize tx'.commit rt s.ledger = y at hcommit ⊢
    cases hcommit with
    | error e => exact .none
    | @ok a b hab =>
      obtain ⟨db,reply⟩ := a
      obtain ⟨db',reply'⟩ := b
      obtain ⟨hdb,hreply⟩ := hab
      dsimp only at hdb hreply ⊢
      subst hdb
      have hkept : s'.LocksKept who db ↔ s.LocksKept who db := by
        unfold LocksKept
        rw [hledger, hlocks]
      by_cases hk : s.LocksKept who db
      · rw [if_pos hk, if_pos (hkept.mpr hk)]
        exact .some (h.committed db hreply who)
      · rw [if_neg hk, if_neg (mt hkept.mp hk)]
        exact .none

theorem Alike.crash (h : s.Alike rt s') (who : Process) : (s.crash who).Alike rt (s'.crash who) := by
  obtain ⟨queue,requests,workers,rfl⟩ : ∃ queue requests workers,
    s' = { s with queue := queue, requests := requests, workers := workers } := ⟨_,_,_,h.rest⟩
  cases who with
  | request n => exact ⟨rfl,h.queue,update_alike h.requests n (h.requests n).crash,h.workers⟩
  | worker n => exact ⟨rfl,h.queue,h.requests,update_alike h.workers n .idle⟩
  | uploader n | replayer n | reconciler n => exact ⟨rfl,h.queue,h.requests,h.workers⟩

theorem Alike.step (settings : ℕ → Settings) (h : s.Alike rt s') {a a' : Action} (ha : a.Alike rt a') :
    Option.Rel (Alike rt) (step rt settings s a) (step rt settings s' a') := by
  obtain ⟨queue,requests,workers,rfl⟩ : ∃ queue requests workers,
    s' = { s with queue := queue, requests := requests, workers := workers } := ⟨_,_,_,h.rest⟩
  have hrequest {b b' : RequestAction} (n : ℕ) (hb : b.Alike rt b') : Option.Rel (Alike rt)
      (step rt settings s (.request n b))
      (step rt settings { s with queue := queue, requests := requests, workers := workers } (.request n b')) := by
    apply Machine.rel_map ((h.requests n).step hb h.queue)
    rintro ⟨r,q,out⟩ ⟨r',q',_⟩ ⟨hr,hq,rfl⟩
    exact ⟨rfl,hq,update_alike h.requests n hr,h.workers⟩
  cases ha with
  | request n hb => exact hrequest n hb
  | refl a =>
    cases a with
    | tick now =>
      simp only [System.step]
      split
      · exact .some ⟨rfl,h.queue,h.requests,h.workers⟩
      · exact .none
    | expire id => exact .some ⟨rfl,h.queue.release id,h.requests,h.workers⟩
    | commit who => exact h.commit who
    | crash who => exact .some (h.crash who)
    | request n b => exact hrequest n (.refl b)
    | worker n b =>
      apply Machine.rel_map ((h.workers n).step b h.queue)
      rintro ⟨w,q⟩ ⟨w',q'⟩ ⟨hw,hq⟩
      exact ⟨rfl,hq,h.requests,update_alike h.workers n hw⟩
    | uploader n b =>
      apply Machine.rel_map Machine.rel_refl
      rintro p _ rfl
      exact ⟨rfl,h.queue,h.requests,h.workers⟩
    | replayer n b =>
      apply Machine.rel_map ((s.replayers n).step_alike b h.queue)
      rintro ⟨r,q⟩ ⟨_,q'⟩ ⟨rfl,hq⟩
      exact ⟨rfl,hq,h.requests,h.workers⟩
    | reconciler n b =>
      apply Machine.rel_map (reconcilerStep_alike (s.reconcilers n) b h.queue)
      rintro ⟨r,q⟩ ⟨_,q'⟩ ⟨rfl,hq⟩
      exact ⟨rfl,hq,h.requests,h.workers⟩

/-- If two runs differ in the raw text of their deliveries only, with the same class in
every field, and every delivery names its event, then they leave the same ledger and
have passed the same conversions to the client. -/
theorem run_noninterference {db : Ledger} {actions actions' : List Action} {t : System}
    (ha : List.Forall₂ (Action.Alike rt) actions actions') (ht : run rt settings (start db) actions = some t) :
    ∃ t', run rt settings (start db) actions' = some t' ∧ t'.ledger = t.ledger ∧ t'.sent = t.sent := by
  have hstep : ∀ s s' a a', s.Alike rt s' → a.Alike rt a' →
      Option.Rel (Alike rt) (step rt settings s a) (step rt settings s' a') := fun _ _ _ _ h ha => h.step settings ha
  have hrun : Option.Rel (Alike rt) (run rt settings (start db) actions) (run rt settings (start db) actions') :=
    Machine.run_lockstep hstep (start_alike db) ha
  rw [ht] at hrun
  generalize hu : run rt settings (start db) actions' = u at hrun
  cases hrun with
  | some h => exact ⟨_,rfl,by rw [h.rest],by rw [h.rest]⟩

/-- A valid delivery with an email address, and one with nothing else. -/
def emailBody (email : String) : ByteArray :=
  ("\x7b\"eventId\":1,\"objectId\":2,\"occurredAt\":1704067200000,\"conversionAction\":\"lead\"," ++
    "\"properties\":\x7b\"email\":\"" ++ email ++ "\",\"ad_user_data_consent\":\"GRANTED\"," ++
    "\"ad_personalization_consent\":\"GRANTED\"\x7d\x7d").toUTF8

def namelessBody (email : String) : ByteArray :=
  ("\x7b\"properties\":\x7b\"email\":\"" ++ email ++ "\"\x7d\x7d").toUTF8

def emailPayload (email : String) : Json :=
  .obj [("eventId",.int 1),("objectId",.int 2),("occurredAt",.int 1704067200000),("conversionAction",.str "lead"),
    ("properties",.obj [("email",.str email),("ad_user_data_consent",.str "GRANTED"),
      ("ad_personalization_consent",.str "GRANTED")])]

def namelessPayload (email : String) : Json := .obj [("properties",.obj [("email",.str email)])]

/-- An interpreter with two bodies to decode, and the digests of the two nameless
bodies and of `ann@example.com`. -/
def annRuntime (body : String → ByteArray) (payload : String → Json) : Runtime :=
  { Runtime.plain (.value .null) with
    loads := fun data =>
      if data.data.toList = (body "ann@example.com").data.toList then .value (payload "ann@example.com") else .value (payload " ann@example.com")
    sha256 := fun data =>
      if data.data.toList = (namelessBody "ann@example.com").data.toList then
        "bd083fa1d343713034437c3b1776545bf74500e90346b86b0d4ce1b03c9f7543"
      else if data.data.toList = (namelessBody " ann@example.com").data.toList then
        "3ff2321a2fce4edfeec72cb643dd60e467d2e8ca410e924defe2e9b8410b225a"
      else "71d4f55f72fa128dfb468a1a3901507c804b74316488744d769d7f4b16696476" }

theorem annRuntime_loads {body : String → ByteArray}
    (h : (body " ann@example.com").data.toList ≠ (body "ann@example.com").data.toList)
    (payload : String → Json) :
    (annRuntime body payload).loads (body "ann@example.com") = .value (payload "ann@example.com") ∧
      (annRuntime body payload).loads (body " ann@example.com") = .value (payload " ann@example.com") :=
  ⟨if_pos rfl,if_neg h⟩

theorem onlyEmail (email email' : String) (rest : List (String × Json)) : ∀ keys ∈ rawFields .hubspot,
    findField (("email",.str email) :: rest) keys = findField (("email",.str email') :: rest) keys ∨
      (∀ p ∈ findField (("email",.str email) :: rest) keys, p.2.IsText) ∧
        ∀ p ∈ findField (("email",.str email') :: rest) keys, p.2.IsText := by
  intro keys hk
  simp only [rawFields, List.mem_cons, List.not_mem_nil, or_false] at hk
  rcases hk with rfl | rfl | rfl | rfl | rfl | rfl | rfl | rfl | rfl
  · exact Or.inr ⟨by rintro _ ⟨⟩; trivial,by rintro _ ⟨⟩; trivial⟩
  all_goals exact Or.inl rfl

theorem emailBody_alike : BodiesAlike (annRuntime emailBody emailPayload) .hubspot (emailBody "ann@example.com")
    (emailBody " ann@example.com") := by
  have hne : (emailBody " ann@example.com").data.toList ≠ (emailBody "ann@example.com").data.toList := by
    decide +kernel
  obtain ⟨hfirst,hsecond⟩ := annRuntime_loads hne emailPayload
  refine ⟨_,_,hfirst,hsecond,⟨_,_,rfl,rfl,rfl,Or.inr ⟨_,_,_,rfl,rfl,?_⟩⟩,?_⟩
  · exact ⟨_,_,rfl,rfl,rfl,onlyEmail _ _ _⟩
  · intro e e' he he'
    cases he
    cases he'
    exact .ok rfl

theorem namelessBody_alike : BodiesAlike (annRuntime namelessBody namelessPayload) .hubspot
    (namelessBody "ann@example.com") (namelessBody " ann@example.com") := by
  have hne : (namelessBody " ann@example.com").data.toList ≠ (namelessBody "ann@example.com").data.toList := by
    decide +kernel
  obtain ⟨hfirst,hsecond⟩ := annRuntime_loads hne namelessPayload
  refine ⟨_,_,hfirst,hsecond,⟨_,_,rfl,rfl,rfl,Or.inr ⟨_,_,_,rfl,rfl,?_⟩⟩,?_⟩
  · exact ⟨_,_,rfl,rfl,rfl,onlyEmail _ _ _⟩
  · intro e e' he
    cases he

/-- One event from its delivery to the request that sends it. -/
def sendOnce (body : ByteArray) : List Action :=
  [.request 0 (.deliver .hubspot body .zero), .commit (.request 0), .request 0 .publish, .worker 0 (.receive 0),
    .worker 0 .read, .commit (.worker 0), .uploader 0 .begin, .uploader 0 (.select ["hubspot:1"]),
    .commit (.uploader 0), .uploader 0 .send]

theorem run_noninterference_email : ∃ t t',
    run (annRuntime emailBody emailPayload) (fun _ => .single) (start Ledger.empty)
      (sendOnce (emailBody "ann@example.com")) = some t ∧ t.sent.length = 1 ∧
    run (annRuntime emailBody emailPayload) (fun _ => .single) (start Ledger.empty)
      (sendOnce (emailBody " ann@example.com")) = some t' ∧ t'.ledger = t.ledger ∧ t'.sent = t.sent := by
  have h : (run (annRuntime emailBody emailPayload) (fun _ => .single) (start Ledger.empty)
      (sendOnce (emailBody "ann@example.com"))).map (fun t => t.sent.length) = some 1 := by decide +kernel
  obtain ⟨t,ht,hsent⟩ := Option.map_eq_some_iff.mp h
  have hid : Identified (annRuntime emailBody emailPayload) .hubspot (emailBody "ann@example.com") := by
    intro payload errors hp herrors
    cases hp.symm.trans (annRuntime_loads (by decide +kernel) emailPayload).1
    cases herrors
  have ha : List.Forall₂ (Action.Alike (annRuntime emailBody emailPayload)) (sendOnce (emailBody "ann@example.com"))
      (sendOnce (emailBody " ann@example.com")) :=
    .cons (.request 0 (.deliver _ emailBody_alike hid)) (List.forall₂_same.mpr fun a _ => .refl a)
  obtain ⟨t',ht',heq⟩ := run_noninterference ha ht
  exact ⟨t,t',ht,hsent,ht',heq⟩

/-- Without an id the event is named by the digest of the body, raw text and all. -/
theorem not_noninterference_nameless :
    BodiesAlike (annRuntime namelessBody namelessPayload) .hubspot (namelessBody "ann@example.com")
      (namelessBody " ann@example.com") ∧
    normaliseEmail (annRuntime namelessBody namelessPayload) (some "ann@example.com") =
      normaliseEmail (annRuntime namelessBody namelessPayload) (some " ann@example.com") ∧
    ∃ t t', run (annRuntime namelessBody namelessPayload) (fun _ => .single) (start Ledger.empty)
        [.request 0 (.deliver .hubspot (namelessBody "ann@example.com") .zero), .commit (.request 0)] = some t ∧
      run (annRuntime namelessBody namelessPayload) (fun _ => .single) (start Ledger.empty)
        [.request 0 (.deliver .hubspot (namelessBody " ann@example.com") .zero), .commit (.request 0)] = some t' ∧
      t.ledger ≠ t'.ledger := by
  have hrun (email : String) (id : String) (h : (run (annRuntime namelessBody namelessPayload) (fun _ => .single)
      (start Ledger.empty) [.request 0 (.deliver .hubspot (namelessBody email) .zero), .commit (.request 0)]).map
        (fun t => t.ledger.events.rows.map Event.eventId) = some [id]) := Option.map_eq_some_iff.mp h
  obtain ⟨t,ht,hid⟩ := hrun "ann@example.com" "hubspot:unparsed:bd083fa1d3437130" (by decide +kernel)
  obtain ⟨t',ht',hid'⟩ := hrun " ann@example.com" "hubspot:unparsed:3ff2321a2fce4edf" (by decide +kernel)
  refine ⟨namelessBody_alike,rfl,t,t',ht,ht',fun heq => ?_⟩
  rw [heq, hid'] at hid
  exact absurd hid (by decide)

end System
end ConversionGateway
