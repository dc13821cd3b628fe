import Mathlib.Data.List.Perm.Basic
import Mathlib.Data.List.Perm.Subperm
import ConversionGateway.Model.MockServer
import ConversionGateway.System.ConsentInvariant
import ConversionGateway.System.Transitions

/-! # The gateway and its platform

The system next to the mock, with the requests on their way between them. A call
may end before its answer is there; the request goes on and may still be handled.
What the ledger calls uploaded the platform has, and what the platform has was
sent, with consent, as often as it is there.
-/
namespace ConversionGateway
open EventStatus

/-! ## Deployments -/

inductive Stage
  | sent
  | arrived (control : Control)
  | answered (reply : HttpReply)

/-- One request of the upload client. -/
structure Flight where
  conversions : List Json
  stage : Stage

/-- What a request may still add to the list of uploads. -/
def Flight.due (f : Flight) : List Json :=
  match f.stage with
  | .sent | .arrived _ => f.conversions
  | .answered _ => []

/-- What ends a call without an answer. -/
inductive Interruption
  | timeout
  | transportError (name : String)

def Interruption.reply : Interruption → HttpReply
  | timeout => .timeout
  | transportError name => .transportError name

/-- The system, the platform, all requests ever sent, and the last one of each uploader. -/
structure Deployment where
  system : System
  platform : MockServer
  flights : List Flight
  latest : ℕ → Option ℕ

inductive DeploymentAction
  | gateway (a : Action)
  | send (n : ℕ)
  | arrive (i : ℕ)
  | answer (i : ℕ)
  | receive (n : ℕ) (again : Bool)
  | interrupt (n : ℕ) (failure : Interruption) (again : Bool)
  | setControl (control : Control)
  | clearUploads

/-- The step calls the client or ends its call. -/
def Action.UsesClient : Action → Bool
  | .uploader _ .send | .uploader _ (.finish _) | .uploader _ (.retry _) => true
  | _ => false

/-- How uploader `n` goes on when its call ends; `again` is what the retry policy
says to a transient error, and an exception takes the uploader down. -/
def clientStep (repr : Json → String) (n : ℕ) (conversions : List Json) (reply : HttpReply) (again : Bool) : Action :=
  match httpUpload repr (fun _ => reply) conversions with
  | .ok (.transient reason) => .uploader n (if again then .retry reason else .finish (.transient reason))
  | .ok outcome => .uploader n (.finish outcome)
  | .error _ => .crash (.uploader n)

namespace Deployment

def start (knownActions : List String) (initialMode : MockMode) : Deployment :=
  ⟨.start Ledger.empty,.createApp knownActions initialMode,[],fun _ => none⟩

/-- The request that uploader `n` waits for, if it waits for one. -/
def awaited (d : Deployment) (n : ℕ) : Option Flight := (d.latest n).bind fun i => d.flights[i]?

section Step
variable (rt : Runtime) (repr : Json → String) (settings : ℕ → Settings) (d : Deployment)

/-- The call of uploader `n` ends. -/
def endCall (n : ℕ) (conversions : List Json) (reply : HttpReply) (again : Bool) : Option Deployment :=
  (System.step rt settings d.system (clientStep repr n conversions reply again)).map fun s => { d with system := s }

def step : DeploymentAction → Option Deployment
  | .gateway a =>
    if a.UsesClient then none else (System.step rt settings d.system a).map fun s => { d with system := s }
  | .send n =>
    (System.step rt settings d.system (.uploader n .send)).map fun s =>
      { d with system := s
               flights := d.flights ++ [⟨(d.system.uploaders n).batch.map Claimed.conversion,.sent⟩]
               latest := Function.update d.latest n (some d.flights.length) }
  | .arrive i =>
    match d.flights[i]? with
    | some ⟨conversions,.sent⟩ =>
      some { d with platform := d.platform.arrive.2
                    flights := d.flights.set i ⟨conversions,.arrived d.platform.arrive.1⟩ }
    | _ => none
  | .answer i =>
    match d.flights[i]? with
    | some ⟨conversions,.arrived control⟩ =>
      some { d with platform := (d.platform.respond rt control (.value (uploadRequest conversions))).1
                    flights := d.flights.set i
                      ⟨conversions,.answered (d.platform.respond rt control (.value (uploadRequest conversions))).2⟩ }
    | _ => none
  | .receive n again =>
    match d.awaited n with
    | some ⟨conversions,.answered reply⟩ => d.endCall rt repr settings n conversions reply again
    | _ => none
  | .interrupt n failure again =>
    match d.awaited n with
    | some f => d.endCall rt repr settings n f.conversions failure.reply again
    | none => none
  | .setControl control => some { d with platform.control := control }
  | .clearUploads => some { d with platform.uploads := [], platform.requestCount := 0 }

abbrev run : Deployment → List DeploymentAction → Option Deployment :=
  Machine.run (step rt repr settings)

end Step
end Deployment

/-! ## What an uploader asks and is told -/

/-- The batch whose call is open. -/
def Phase.asked : Phase → Option (List Claimed)
  | .sending _ batch _ => some batch
  | _ => none

/-- The rows of the batch with the results the platform gave them. -/
def Phase.told : Phase → List (Claimed × RowResult)
  | .settling _ batch (.rows rows) _ _ => batch.zip rows
  | _ => []

namespace Uploader
variable {st : Settings} {u u' : Uploader} {n : ℕ} {clock : Time} {db : Ledger} {locks locks' : Locks}
  {sent : Option (List Json)} {a : UploaderAction}

theorem withClaim_quiet (u : Uploader) (items : List Claimed) (now : Time) :
    (u.withClaim st items now).phase.asked = none ∧ (u.withClaim st items now).phase.told = [] := by
  unfold withClaim
  split <;> exact ⟨rfl,rfl⟩

theorem committed_quiet {tx : Transaction} (reply : Reply) (h : u.transaction st = some tx) :
    (u.committed st reply).phase.asked = none ∧ (u.committed st reply).phase.told = [] := by
  rcases committed_cases reply h with ⟨items,now,h⟩ | ⟨_,_,_,h | h⟩ <;> rw [h]
  · exact withClaim_quiet u items now
  · exact ⟨rfl,rfl⟩
  · exact ⟨rfl,rfl⟩

/-- A call is opened by a send only; results come from a call that ends with them. -/
theorem step_told (h : u.step st n clock db locks a = some (u',locks',sent)) :
    (∀ batch ∈ u'.phase.asked, a = .send ∧ batch = u.batch) ∧
      ∀ p ∈ u'.phase.told, p ∈ u.phase.told ∨
        ∃ rows batch, a = .finish (.result rows) ∧ u.phase.asked = some batch ∧ p ∈ batch.zip rows := by
  cases a with
  | send =>
    simp only [step] at h
    split at h
    · next hp =>
      cases h
      exact ⟨fun batch hb => ⟨rfl,by cases hb; simp [Uploader.batch,hp]⟩,by simp [Phase.told]⟩
    · cases h
  | finish outcome =>
    simp only [step] at h
    split at h
    · next hp =>
      cases h
      refine ⟨by simp [Phase.asked],fun p hp' => ?_⟩
      cases outcome with
      | result rows => exact Or.inr ⟨rows,_,rfl,by rw [hp]; rfl,hp'⟩
      | transient reason | permanent reason => cases hp'
    · cases h
  | load =>
    simp only [step] at h
    split at h
    · cases h
      exact ⟨by simp [Phase.asked],by simp [Phase.told]⟩
    · next verdict _ _ _ hp =>
      cases h
      refine ⟨by simp [Phase.asked],fun p hp' => Or.inl ?_⟩
      rw [hp]
      cases verdict <;> exact hp'
    · cases h
  | skip =>
    simp only [step] at h
    split at h
    · split at h
      · cases h
        rw [(withClaim_quiet u [] _).1, (withClaim_quiet u [] _).2]
        simp
      · cases h
    · cases h
  | begin | select ids | retry reason | stamp =>
    simp only [step] at h
    split at h
    · first
        | (cases h; simp [Phase.asked,Phase.told])
        | (split at h <;> cases h; simp [Phase.asked,Phase.told])
    · cases h

end Uploader

/-! ## Which rows become UPLOADED -/

section Rows
variable {rt : Runtime} {db out : Ledger} {k : String} {e : Event} {now : Time}

/-- A row moved elsewhere than to UPLOADED adds no uploaded event. -/
theorem record_uploaded {x : Event} {dest : EventStatus} {reason : Option String} (now : Time)
    (hx : db.getEvent x.eventId = some x)
    (hd : dest ≠ uploaded) (he : (db.record x (x.moved dest reason) reason now).getEvent k = some e)
    (hu : e.status = uploaded) : ∃ e₀, db.getEvent k = some e₀ ∧ e₀.status = uploaded := by
  have hkey : (x.moved dest reason).eventId = x.eventId := rfl
  rw [Ledger.record_getEvent hx hkey] at he
  split at he
  · cases he
    exact absurd hu hd
  · exact ⟨e,he,hu⟩

/-- One result makes UPLOADED its own event only, and only if it is ok. -/
theorem applyRow_uploaded {loaded : List String} {item : Claimed × RowResult}
    (h : applyRow loaded now db item = .ok out) (he : out.getEvent k = some e) (hu : e.status = uploaded) :
    (∃ e₀, db.getEvent k = some e₀ ∧ e₀.status = uploaded) ∨ (item.1.eventId = k ∧ item.2.ok = true) := by
  unfold applyRow at h
  split at h
  · cases h
  · next x hx =>
    split at hx
    · have hid := Ledger.getEvent_eventId hx
      have hx := getEvent_self hx
      split at h
      · next hok =>
        obtain ⟨⟨_,_⟩,ht,h⟩ := Outcome.bind_ok.mp h
        obtain ⟨_,rfl,rfl⟩ := transition_ok ht
        cases h
        have hkey : (x.moved uploaded none).eventId = x.eventId := rfl
        rw [Ledger.record_getEvent hx hkey] at he
        split at he
        · next hk => exact Or.inr ⟨by rw [hk, hid],hok⟩
        · exact Or.inl ⟨e,he,hu⟩
      · split at h
        · obtain ⟨⟨_,_⟩,ht,h⟩ := Outcome.bind_ok.mp h
          obtain ⟨_,rfl,rfl⟩ := transition_ok ht
          cases h
          exact Or.inl (record_uploaded now hx (by decide) he hu)
        · obtain ⟨_,letter,hl,_,_,rfl⟩ := deadLetter_ok h
          exact Or.inl (record_uploaded now hx (by decide) he hu)
    · cases hx

theorem applyResult_uploaded {loaded : List String} {batch : List Claimed} {rows : List RowResult}
    (h : applyResult db loaded batch rows now = .ok out) (he : out.getEvent k = some e) (hu : e.status = uploaded) :
    (∃ e₀, db.getEvent k = some e₀ ∧ e₀.status = uploaded) ∨
      ∃ p ∈ batch.zip rows, p.1.eventId = k ∧ p.2.ok = true := by
  have hloop := Outcome.loop_inv (fun a : Ledger => (∃ e, a.getEvent k = some e ∧ e.status = uploaded) →
      (∃ e₀, db.getEvent k = some e₀ ∧ e₀.status = uploaded) ∨
        ∃ p ∈ batch.zip rows, p.1.eventId = k ∧ p.2.ok = true) ?_ Or.inl (applyResult_ok h).1
  · exact hloop ⟨e,he,hu⟩
  · rintro item hitem a b ha hstep ⟨x,hx,hxu⟩
    rcases applyRow_uploaded hstep hx hxu with hold | hrow
    · exact ha hold
    · exact Or.inr ⟨item,hitem,hrow⟩

end Rows

namespace System
variable {rt : Runtime} {settings : ℕ → Settings} {s t : System} {who : Process} {tx : Transaction}
  {reply : Reply} {k : String} {e : Event}

/-- A commit leaves an event UPLOADED that was so before, or whose row the platform
answered for. -/
theorem Commits.becomes_uploaded (hs : s.Linked) (hc : Commits rt settings s t who tx reply)
    (he : t.ledger.getEvent k = some e) (hu : e.status = uploaded) :
    (∃ e₀, s.ledger.getEvent k = some e₀ ∧ e₀.status = uploaded) ∨
      ∃ batch loaded rows now, tx = .apply batch loaded rows now ∧
        ∃ p ∈ batch.zip rows, p.1.eventId = k ∧ p.2.ok = true := by
  cases hcur : s.ledger.getEvent k with
  | none =>
    obtain ⟨source,plan,_,now,_,_,henters⟩ := hc.new_row hs hcur he
    have hno := (enters_unattempted henters).2
    rw [hu] at hno
    exact absurd (by simp [Attempted]) hno
  | some current =>
    have hpick {final : Event} (heq : e = Event.merge (tx.session.event current) final current)
        (hne : final.status ≠ uploaded) : current.status = uploaded := by
      rw [heq, Event.merge_status] at hu
      rcases pick_eq_or (tx.session.event current).status final.status current.status with h | h
      · exact absurd (h.symm.trans hu) hne
      · exact h.symm.trans hu
    by_cases happly : ∃ batch loaded rows now, tx = .apply batch loaded rows now
    · obtain ⟨batch,loaded,rows,now,rfl⟩ := happly
      obtain ⟨out,hb,hflush,_⟩ := Transaction.commit_ok.mp hc.commit
      obtain ⟨out,hres,hb⟩ := Outcome.bind_ok.mp hb
      cases hb
      rw [← hflush, Session.flush_getEvent] at he
      obtain ⟨final,hfinal,rfl⟩ := Option.map_eq_some_iff.mp he
      have hkey := Ledger.getEvent_eventId hfinal
      have hsettle : (Transaction.apply batch loaded rows now).session.settle s.ledger final = _ :=
        Session.settle_of_some (by rw [hkey, hcur])
      by_cases hfu : final.status = uploaded
      · rcases applyResult_uploaded hres hfinal hfu with ⟨base,hbase,hbu⟩ | hrow
        · rw [Session.view_getEvent, hcur, Option.map_some] at hbase
          cases hbase
          rw [hsettle, Event.merge_status, hbu, hfu, pick_unchanged] at hu
          exact Or.inl ⟨current,rfl,hu⟩
        · exact Or.inr ⟨batch,loaded,rows,now,rfl,hrow⟩
      · exact Or.inl ⟨current,rfl,hpick hsettle hfu⟩
    · rcases hc.row hs hcur with hsame | ⟨_,final,hchange,hget⟩
      · obtain rfl := Option.some.inj (hsame.symm.trans he)
        exact Or.inl ⟨current,rfl,hu⟩
      · refine Or.inl ⟨current,rfl,hpick (Option.some.inj (he.symm.trans hget)) ?_⟩
        cases tx with
        | ingest source plan correlationId now => exact hchange.elim
        | apply batch loaded rows now => exact absurd ⟨batch,loaded,rows,now,rfl⟩ happly
        | process message loaded now =>
          obtain ⟨_,reason,hp⟩ := hchange
          cases hp <;> simp [Event.moved,Event.processedWith]
        | claim st selected now => rcases Event.TakenBy.status hchange with h | h <;> simp [h]
        | retry ids loaded reason stamps => simp [hchange.after]
        | bury batch loaded failure now => simp [hchange.2]
        | replay letter loaded now =>
          obtain ⟨_,_,rfl⟩ := hchange
          simp [Event.requeued,Event.moved]

/-- A send adds its batch to what was sent. -/
theorem step_send {n : ℕ} (h : step rt settings s (.uploader n .send) = some t) :
    t.sent = s.sent ++ [(s.uploaders n).batch.map Claimed.conversion] := by
  obtain ⟨⟨u,locks,sent⟩,hp,rfl⟩ := Option.map_eq_some_iff.mp h
  simp only [Uploader.step] at hp
  split at hp
  · next hphase =>
    cases hp
    simp [Uploader.batch,hphase]
  · cases hp

/-- What an uploader asks and is told after a step. -/
theorem step_told {a : Action} (h : step rt settings s a = some t) (n : ℕ) :
    (∀ batch ∈ (t.uploaders n).phase.asked, batch ∈ (s.uploaders n).phase.asked ∨
        a = .uploader n .send ∧ batch = (s.uploaders n).batch) ∧
      ∀ p ∈ (t.uploaders n).phase.told, p ∈ (s.uploaders n).phase.told ∨ ∃ rows batch,
        a = .uploader n (.finish (.result rows)) ∧ (s.uploaders n).phase.asked = some batch ∧ p ∈ batch.zip rows := by
  rcases step_uploader h n with hu | ⟨b,sent,rfl,hstep⟩ | ⟨tx,reply,hc,hu⟩ | hu
  · rw [hu]
    exact ⟨fun _ hb => Or.inl hb,fun _ hp => Or.inl hp⟩
  · obtain ⟨hasked,htold⟩ := Uploader.step_told hstep
    refine ⟨fun batch hb => Or.inr ?_,fun p hp => ?_⟩
    · obtain ⟨rfl,rfl⟩ := hasked batch hb
      exact ⟨rfl,rfl⟩
    · rcases htold p hp with hold | ⟨rows,batch,rfl,hb,hp⟩
      · exact Or.inl hold
      · exact Or.inr ⟨rows,batch,rfl,hb,hp⟩
  · obtain ⟨hasked,htold⟩ := Uploader.committed_quiet reply hc.transaction
    rw [hu, hasked, htold]
    simp
  · rw [hu]
    simp [Uploader.fresh,Phase.asked,Phase.told]

end System

namespace Deployment
variable {rt : Runtime} {repr : Json → String} {settings : ℕ → Settings} {d d' : Deployment} {x : DeploymentAction}

/-! ## What the ledger calls uploaded -/

/-- What was reported is there: in the answers on their way, with the uploaders that
have not written it down yet, and in the ledger. -/
structure Faithful (repr : Json → String) (d : Deployment) : Prop where
  linked : d.system.Linked
  orderId : ∀ n, ∀ c ∈ (d.system.uploaders n).held, c.conversion.orderId = some c.eventId
  asked : ∀ n, ∀ batch ∈ (d.system.uploaders n).phase.asked,
    ∃ f, d.awaited n = some f ∧ f.conversions = batch.map Claimed.conversion
  answered : ∀ f ∈ d.flights, ∀ reply, f.stage = .answered reply →
    ∀ row ∈ reportedRows repr reply f.conversions, row ∈ d.platform.uploads
  told : ∀ n, ∀ p ∈ (d.system.uploaders n).phase.told, p.2.ok = true → p.1.conversion ∈ d.platform.uploads
  uploaded : ∀ k e, d.system.ledger.getEvent k = some e → e.status = uploaded →
    ∃ row ∈ d.platform.uploads, row.orderId = some k

theorem start_faithful (knownActions : List String) (initialMode : MockMode) :
    (start knownActions initialMode).Faithful repr := by
  refine ⟨System.start_linked _,fun n c hc => ?_,fun n batch hb => ?_,fun f hf => (by cases hf),fun n p hp => ?_,
    fun k e he => (by cases he)⟩
  · simp [start,System.start,Uploader.fresh,Uploader.held,Uploader.batch,Batcher.empty] at hc
  · simp [start,System.start,Uploader.fresh,Phase.asked] at hb
  · simp [start,System.start,Uploader.fresh,Phase.told] at hp

/-- A step of the system next to an unchanged list of uploads, provided that results
which end a call are those of the platform. -/
theorem Faithful.settle {s : System} {a : Action} (hd : d.Faithful repr)
    (h : System.step rt settings d.system a = some s)
    (hresult : ∀ n rows batch, a = .uploader n (.finish (.result rows)) →
      (d.system.uploaders n).phase.asked = some batch →
      ∀ p ∈ batch.zip rows, p.2.ok = true → p.1.conversion ∈ d.platform.uploads) :
    (∀ n, ∀ c ∈ (s.uploaders n).held, c.conversion.orderId = some c.eventId) ∧
      (∀ n, ∀ p ∈ (s.uploaders n).phase.told, p.2.ok = true → p.1.conversion ∈ d.platform.uploads) ∧
      ∀ k e, s.ledger.getEvent k = some e → e.status = .uploaded →
        ∃ row ∈ d.platform.uploads, row.orderId = some k := by
  refine ⟨fun n c hc => ?_,fun n p hp hok => ?_,fun k e he hu => ?_⟩
  · rcases System.step_held h hd.linked hc with hc | ⟨_,_,_,_,_,_,hb⟩
    · exact hd.orderId n c hc
    · exact hb.orderId
  · rcases (System.step_told h n).2 p hp with hp | ⟨rows,batch,ha,hb,hp⟩
    · exact hd.told n p hp hok
    · exact hresult n rows batch ha hb p hp hok
  · rcases System.step_ledger h with heq | ⟨who,tx,reply,_,hc⟩
    · exact hd.uploaded k e (heq ▸ he) hu
    · rcases hc.becomes_uploaded hd.linked he hu with ⟨e₀,he₀,hu₀⟩ | ⟨batch,loaded,rows,now,rfl,p,hp,hid,hok⟩
      · exact hd.uploaded k e₀ he₀ hu₀
      · have htx := hc.transaction
        cases who with
        | uploader n =>
          rcases Uploader.transaction_cases htx with ⟨_,_,_,heq⟩ | ⟨_,_,_,_,_,_,_,_,heq⟩ |
            ⟨_,_,_,_,hphase,heq⟩ | ⟨_,_,_,_,_,heq⟩ <;> cases heq
          have hp' : p ∈ (d.system.uploaders n).phase.told := by
            rw [hphase]
            exact hp
          have hheld : p.1 ∈ (d.system.uploaders n).held := by
            refine List.mem_append_right _ ?_
            rw [Uploader.batch, hphase]
            exact (List.of_mem_zip hp).1
          exact ⟨_,hd.told n p hp' hok,hid ▸ hd.orderId n p.1 hheld⟩
        | request n =>
          simp only [System.transaction, Request.transaction] at htx
          split at htx <;> cases htx
        | worker n =>
          simp only [System.transaction, Worker.transaction] at htx
          split at htx <;> cases htx
        | replayer n =>
          simp only [System.transaction, Replayer.transaction] at htx
          split at htx
          · split at htx <;> cases htx
          · cases htx
          · cases htx
        | reconciler n => cases htx

theorem clientStep_result {n m : ℕ} {conversions : List Json} {reply : HttpReply} {again : Bool} {rows : List RowResult}
    (h : clientStep repr n conversions reply again = .uploader m (.finish (.result rows))) :
    m = n ∧ httpUpload repr (fun _ => reply) conversions = .ok (.result rows) := by
  unfold clientStep at h
  split at h
  · split at h <;> cases h
  · next outcome _ heq =>
    cases h
    exact ⟨rfl,heq⟩
  · cases h

theorem clientStep_not_send {n m : ℕ} {conversions : List Json} {reply : HttpReply} {again : Bool} :
    clientStep repr n conversions reply again ≠ .uploader m .send := by
  unfold clientStep
  split
  · split <;> simp
  · simp
  · simp

/-- A result that is ok is that of a reported row. -/
theorem mem_reportedRows {batch : List Claimed} {reply : HttpReply} {rows : List RowResult}
    (h : httpUpload repr (fun _ => reply) (batch.map Claimed.conversion) = .ok (.result rows))
    {p : Claimed × RowResult} (hp : p ∈ batch.zip rows) (hok : p.2.ok = true) :
    p.1.conversion ∈ reportedRows repr reply (batch.map Claimed.conversion) := by
  unfold reportedRows
  rw [h]
  refine List.mem_map.mpr ⟨(p.1.conversion,p.2),List.mem_filter.mpr ⟨?_,hok⟩,rfl⟩
  rw [← List.map_id rows, List.zip_map]
  exact List.mem_map.mpr ⟨p,hp,rfl⟩

/-- The end of a call whose reply reports only rows that are there. -/
theorem Faithful.endCall {n : ℕ} {f : Flight} {reply : HttpReply} {again : Bool} (hd : d.Faithful repr)
    (hf : d.awaited n = some f) (hreply : ∀ row ∈ reportedRows repr reply f.conversions, row ∈ d.platform.uploads)
    (h : d.endCall rt repr settings n f.conversions reply again = some d') : d'.Faithful repr := by
  obtain ⟨s,hs,rfl⟩ := Option.map_eq_some_iff.mp h
  obtain ⟨horder,htold,huploaded⟩ := hd.settle hs fun m rows batch ha hb p hp hok => by
    obtain ⟨rfl,hresult⟩ := clientStep_result ha
    obtain ⟨g,hg,hconv⟩ := hd.asked m batch hb
    obtain rfl := Option.some.inj (hg.symm.trans hf)
    rw [hconv] at hresult hreply
    exact hreply _ (mem_reportedRows hresult hp hok)
  refine ⟨System.step_linked hd.linked hs,horder,fun m batch hb => ?_,hd.answered,htold,huploaded⟩
  rcases (System.step_told hs m).1 batch hb with hb | ⟨ha,_⟩
  · exact hd.asked m batch hb
  · exact absurd ha clientStep_not_send

/-- A request that moves on carries what it carried. -/
theorem awaited_set {i : ℕ} {f g : Flight} {n : ℕ} (stage : Stage) (hi : d.flights[i]? = some f)
    (hg : d.awaited n = some g) : ∃ g', ((d.latest n).bind fun j => (d.flights.set i ⟨f.conversions,stage⟩)[j]?) = some g' ∧
      g'.conversions = g.conversions := by
  obtain ⟨j,hj,hget⟩ := Option.bind_eq_some_iff.mp hg
  rw [hj, Option.bind_some, List.getElem?_set]
  by_cases hij : i = j
  · subst hij
    obtain rfl := Option.some.inj (hi.symm.trans hget)
    rw [if_pos rfl, if_pos (List.getElem?_eq_some_iff.mp hi).1]
    exact ⟨_,rfl,rfl⟩
  · rw [if_neg hij]
    exact ⟨g,hget,rfl⟩

/-- The platform takes a step: its list of uploads may grow, one request moves on. -/
theorem Faithful.advance {i : ℕ} {f : Flight} {stage : Stage} {platform : MockServer} (hd : d.Faithful repr)
    (hi : d.flights[i]? = some f) (hgrow : ∀ row ∈ d.platform.uploads, row ∈ platform.uploads)
    (hnew : ∀ reply, stage = .answered reply → ∀ row ∈ reportedRows repr reply f.conversions, row ∈ platform.uploads) :
    Faithful repr { d with platform := platform, flights := d.flights.set i ⟨f.conversions,stage⟩ } := by
  refine ⟨hd.linked,hd.orderId,fun n batch hb => ?_,fun g hg reply hr => ?_,
    fun n p hp hok => hgrow _ (hd.told n p hp hok),fun k e he hu => ?_⟩
  · obtain ⟨g,hg,hconv⟩ := hd.asked n batch hb
    obtain ⟨g',hg',heq⟩ := awaited_set stage hi hg
    exact ⟨g',hg',heq.trans hconv⟩
  · rcases List.mem_or_eq_of_mem_set hg with hg | rfl
    · exact fun row hrow => hgrow row (hd.answered g hg reply hr row hrow)
    · exact hnew reply hr
  · obtain ⟨row,hrow,hid⟩ := hd.uploaded k e he hu
    exact ⟨row,hgrow row hrow,hid⟩

theorem arrive_uploads (s : MockServer) : s.arrive.2.uploads = s.uploads ∧ s.arrive.2.knownActions = s.knownActions := by
  unfold MockServer.arrive MockServer.takeControl
  split
  · exact ⟨rfl,rfl⟩
  · split <;> exact ⟨rfl,rfl⟩

theorem step_faithful (hd : d.Faithful repr) (hx : x ≠ .clearUploads)
    (h : step rt repr settings d x = some d') : d'.Faithful repr := by
  cases x with
  | gateway a =>
    simp only [step] at h
    split at h
    · cases h
    · next hclient =>
      obtain ⟨s,hs,rfl⟩ := Option.map_eq_some_iff.mp h
      obtain ⟨horder,htold,huploaded⟩ := hd.settle hs fun m rows batch ha _ => absurd (by rw [ha]; rfl) hclient
      refine ⟨System.step_linked hd.linked hs,horder,fun n batch hb => ?_,hd.answered,htold,huploaded⟩
      rcases (System.step_told hs n).1 batch hb with hb | ⟨ha,_⟩
      · exact hd.asked n batch hb
      · exact absurd (by rw [ha]; rfl) hclient
  | send n =>
    obtain ⟨s,hs,rfl⟩ := Option.map_eq_some_iff.mp h
    obtain ⟨horder,htold,huploaded⟩ := hd.settle hs fun m rows batch ha => by cases ha
    refine ⟨System.step_linked hd.linked hs,horder,fun m batch hb => ?_,fun f hf reply hr => ?_,htold,huploaded⟩
    · by_cases hm : m = n
      · subst hm
        refine ⟨⟨(d.system.uploaders m).batch.map Claimed.conversion,.sent⟩,?_,?_⟩
        · simp [awaited]
        · rcases (System.step_told hs m).1 batch hb with hb | ⟨_,rfl⟩
          · cases hp : (d.system.uploaders m).phase <;> simp_all [Phase.asked,Uploader.batch]
          · rfl
      · rcases (System.step_told hs m).1 batch hb with hb | ⟨ha,_⟩
        · obtain ⟨f,hf,hconv⟩ := hd.asked m batch hb
          obtain ⟨j,hj,hget⟩ := Option.bind_eq_some_iff.mp hf
          refine ⟨f,?_,hconv⟩
          simp only [awaited, Function.update_of_ne hm, hj, Option.bind_some]
          rw [List.getElem?_append_left (List.getElem?_eq_some_iff.mp hget).1, hget]
        · cases ha
          exact absurd rfl hm
    · rcases List.mem_append.mp hf with hf | hf
      · exact hd.answered f hf reply hr
      · rw [List.mem_singleton.mp hf] at hr
        cases hr
  | arrive i =>
    simp only [step] at h
    split at h
    · next conversions hi =>
      cases h
      exact hd.advance hi (fun row hrow => (arrive_uploads d.platform).1 ▸ hrow) fun reply hr => by cases hr
    · cases h
  | answer i =>
    simp only [step] at h
    split at h
    · next conversions control hi =>
      cases h
      refine hd.advance hi (fun row hrow => List.mem_append_left _ hrow) fun reply hr row hrow => ?_
      cases hr
      refine List.mem_append_right _ ?_
      have hp : (uploadRequest conversions).getD "conversions" .null = .ok (.arr conversions) := rfl
      rcases d.platform.answer_reported rt repr control hp with heq | herr
      · exact heq ▸ hrow
      · have hrow : row ∈ reportedRows repr
            (d.platform.answer rt control (.value (uploadRequest conversions))).2 conversions := hrow
        rw [herr, reportedRows_internalError] at hrow
        cases hrow
    · cases h
  | receive n again =>
    simp only [step] at h
    split at h
    · next conversions reply hf =>
      refine hd.endCall hf (fun row hrow => ?_) h
      obtain ⟨j,_,hget⟩ := Option.bind_eq_some_iff.mp hf
      exact hd.answered _ (List.mem_of_getElem? hget) reply rfl row hrow
    · cases h
  | interrupt n failure again =>
    simp only [step] at h
    split at h
    · next f hf =>
      refine hd.endCall hf (fun row hrow => ?_) h
      cases failure <;> cases hrow
    · cases h
  | setControl control =>
    cases h
    exact ⟨hd.linked,hd.orderId,hd.asked,hd.answered,hd.told,hd.uploaded⟩
  | clearUploads => exact absurd rfl hx

/-- In every run in which nobody empties the platform's list: an event that the ledger
calls UPLOADED has its row there, whatever calls are cut off, retried or answered late. -/
theorem run_uploaded_accepted (rt : Runtime) (repr : Json → String) (settings : ℕ → Settings)
    (knownActions : List String) (initialMode : MockMode) (actions : List DeploymentAction) (d : Deployment)
    (h : run rt repr settings (start knownActions initialMode) actions = some d)
    (hkeep : ∀ x ∈ actions, x ≠ .clearUploads) :
    ∀ k, d.system.status k = some .uploaded → ∃ row ∈ d.platform.uploads, row.orderId = some k := by
  intro k hk
  obtain ⟨e,he,hu⟩ := Option.map_eq_some_iff.mp hk
  have hd : d.Faithful repr := Machine.run_inv (C := fun _ x => x ≠ DeploymentAction.clearUploads) (Faithful repr)
    (fun _ _ _ hi hx hst => step_faithful hi hx hst) (start_faithful knownActions initialMode)
    (fun pre x post _ heq _ => hkeep x (by simp [heq])) h
  exact hd.uploaded k e he hu

/-- One event whose first request is cut off, handled late, and sent again. -/
def lateAnswer : List DeploymentAction :=
  [.gateway (.request 0 (.deliver .hubspot (clickBody 1704067200000) .zero)), .gateway (.commit (.request 0)),
    .gateway (.request 0 .publish), .gateway (.worker 0 (.receive 0)), .gateway (.worker 0 .read),
    .gateway (.commit (.worker 0)), .gateway (.uploader 0 .begin), .gateway (.uploader 0 (.select ["hubspot:1"])),
    .gateway (.commit (.uploader 0)), .send 0, .arrive 0, .interrupt 0 .timeout true, .gateway (.uploader 0 .load),
    .gateway (.uploader 0 .stamp), .gateway (.commit (.uploader 0)), .answer 0, .send 0, .arrive 1, .answer 1,
    .receive 0 false, .gateway (.uploader 0 .load), .gateway (.commit (.uploader 0))]

/-- The theorem at this run. -/
theorem run_uploaded_accepted_late : ∃ (d : Deployment) (row : Json),
    run (clickRuntime 1704067200000) (fun _ => "") (fun _ => .single) (start ["lead"] .ok) lateAnswer = some d ∧
    d.system.status "hubspot:1" = some .uploaded ∧ row ∈ d.platform.uploads ∧ row.orderId = some "hubspot:1" := by
  have hrun : (run (clickRuntime 1704067200000) (fun _ => "") (fun _ => .single) (start ["lead"] .ok)
      lateAnswer).map (fun d => d.system.status "hubspot:1") = some (some .uploaded) := by decide +kernel
  obtain ⟨d,hd,hstatus⟩ := Option.map_eq_some_iff.mp hrun
  obtain ⟨row,hrow,hid⟩ := run_uploaded_accepted _ _ _ _ _ lateAnswer d hd (by simp [lateAnswer]) _ hstatus
  exact ⟨d,row,hd,hstatus,hrow,hid⟩

/-! ## What the platform has -/

/-- Every row in the list or on its way to it was sent, each copy by its own request. -/
structure Sourced (rt : Runtime) (d : Deployment) : Prop where
  consenting : d.system.Consenting
  rows : (d.platform.uploads ++ d.flights.flatMap Flight.due).Subperm d.system.sent.flatten
  valid : ∀ row ∈ d.platform.uploads, validateRow rt row d.platform.knownActions = .ok none

theorem start_sourced (knownActions : List String) (initialMode : MockMode) :
    (start knownActions initialMode).Sourced rt :=
  ⟨System.start_consenting,List.Subperm.refl _,fun _ hrow => (by cases hrow)⟩

/-- A step of the system that sends nothing. -/
theorem Sourced.system {s : System} (hd : d.Sourced rt) {a : Action}
    (h : System.step rt settings d.system a = some s) (hsend : ∀ n, a ≠ .uploader n .send) :
    Sourced rt { d with system := s } := by
  refine ⟨System.step_consenting hd.consenting h,?_,hd.valid⟩
  rcases System.step_sent h with heq | ⟨n,ha,_⟩
  · rw [heq]
    exact hd.rows
  · exact absurd ha (hsend n)

/-- What is due with one request moved on. -/
theorem due_set {i : ℕ} {f : Flight} (hi : d.flights[i]? = some f) (g : Flight) :
    ∃ rest, (d.flights.flatMap Flight.due).Perm (f.due ++ rest) ∧
      ((d.flights.set i g).flatMap Flight.due).Perm (g.due ++ rest) := by
  obtain ⟨hlt,hget⟩ := List.getElem?_eq_some_iff.mp hi
  have hold := List.getElem_cons_eraseIdx_perm hlt
  rw [hget] at hold
  exact ⟨_,hold.symm.flatMap_right Flight.due,(List.set_perm_cons_eraseIdx hlt g).flatMap_right Flight.due⟩

/-- The platform takes a step: a request loses at least what the list gains. -/
theorem Sourced.advance {i : ℕ} {f g : Flight} {platform : MockServer} {accepted : List Json} (hd : d.Sourced rt)
    (hi : d.flights[i]? = some f) (hup : platform.uploads = d.platform.uploads ++ accepted)
    (hknown : platform.knownActions = d.platform.knownActions) (hsub : (accepted ++ g.due).Sublist f.due)
    (hvalid : ∀ row ∈ accepted, validateRow rt row d.platform.knownActions = .ok none) :
    Sourced rt { d with platform := platform, flights := d.flights.set i g } := by
  refine ⟨hd.consenting,?_,fun row hrow => ?_⟩
  · obtain ⟨rest,hold,hnew⟩ := due_set hi g
    have hlist : (platform.uploads ++ (d.flights.set i g).flatMap Flight.due).Perm
        (d.platform.uploads ++ ((accepted ++ g.due) ++ rest)) := by
      rw [hup, List.append_assoc, List.append_assoc]
      exact (hnew.append_left _).append_left _
    refine hlist.subperm_right.mpr (List.Subperm.trans ?_ ((hold.append_left _).subperm_right.mp hd.rows))
    exact ((hsub.append_right rest).append_left _).subperm
  · rw [hknown]
    rw [hup] at hrow
    rcases List.mem_append.mp hrow with hrow | hrow
    · exact hd.valid row hrow
    · exact hvalid row hrow

theorem step_sourced (hd : d.Sourced rt) (h : step rt repr settings d x = some d') : d'.Sourced rt := by
  cases x with
  | gateway a =>
    simp only [step] at h
    split at h
    · cases h
    · next hclient =>
      obtain ⟨s,hs,rfl⟩ := Option.map_eq_some_iff.mp h
      refine hd.system hs fun n ha => hclient ?_
      rw [ha]
      rfl
  | send n =>
    obtain ⟨s,hs,rfl⟩ := Option.map_eq_some_iff.mp h
    refine ⟨System.step_consenting hd.consenting hs,?_,hd.valid⟩
    rw [System.step_send hs, List.flatten_append, List.flatMap_append, ← List.append_assoc]
    simp only [List.flatMap_singleton, List.flatten_singleton]
    exact hd.rows.append (List.Subperm.refl _)
  | arrive i =>
    simp only [step] at h
    split at h
    · next conversions hi =>
      cases h
      obtain ⟨hup,hknown⟩ := arrive_uploads d.platform
      exact hd.advance hi (hup.trans (List.append_nil _).symm) hknown (List.Sublist.refl _) (by simp)
    · cases h
  | answer i =>
    simp only [step] at h
    split at h
    · next conversions control hi =>
      cases h
      obtain ⟨hrows,hvalid⟩ := d.platform.answer_accepted rt control (.value (uploadRequest conversions))
      refine hd.advance hi rfl rfl ?_ hvalid
      rw [Flight.due, List.append_nil]
      rcases hrows with hnil | ⟨payload,cs,hv,hp,hsub⟩
      · rw [hnil]
        exact List.nil_sublist _
      · cases hv
        cases hp
        exact hsub
    · cases h
  | receive n again =>
    simp only [step] at h
    split at h
    · obtain ⟨s,hs,rfl⟩ := Option.map_eq_some_iff.mp h
      exact hd.system hs fun _ => clientStep_not_send
    · cases h
  | interrupt n failure again =>
    simp only [step] at h
    split at h
    · obtain ⟨s,hs,rfl⟩ := Option.map_eq_some_iff.mp h
      exact hd.system hs fun _ => clientStep_not_send
    · cases h
  | setControl control =>
    cases h
    exact ⟨hd.consenting,hd.rows,hd.valid⟩
  | clearUploads =>
    cases h
    exact ⟨hd.consenting,(List.sublist_append_right d.platform.uploads _).subperm.trans hd.rows,by simp⟩

/-- In every run: what the platform has passed its check and was sent by the gateway,
each copy in a request of its own, and is of an event with both consents. -/
theorem run_accepted_sent (rt : Runtime) (repr : Json → String) (settings : ℕ → Settings)
    (knownActions : List String) (initialMode : MockMode) (actions : List DeploymentAction) (d : Deployment)
    (h : run rt repr settings (start knownActions initialMode) actions = some d) :
    d.platform.uploads.Subperm d.system.sent.flatten ∧
      ∀ row ∈ d.platform.uploads, validateRow rt row d.platform.knownActions = .ok none ∧
        ∃ id e, row.orderId = some id ∧ d.system.ledger.getEvent id = some e ∧
          e.consentAdUserData = some .granted ∧ e.consentAdPersonalization = some .granted := by
  have hd : d.Sourced rt := Machine.run_inv' (Sourced rt) (fun _ _ _ hi hst => step_sourced hi hst)
    (start_sourced knownActions initialMode) h
  have hrows := (List.sublist_append_left d.platform.uploads _).subperm.trans hd.rows
  refine ⟨hrows,fun row hrow => ⟨hd.valid row hrow,?_⟩⟩
  obtain ⟨batch,hb,hmem⟩ := List.mem_flatten.mp (hrows.subset hrow)
  obtain ⟨id,e,hid,he,hg⟩ := hd.consenting.sent batch hb row hmem
  exact ⟨id,e,hid,he,hg.1,hg.2⟩

/-- The theorem at the same run, after which the platform has two copies of the row. -/
theorem run_accepted_sent_late : ∃ d : Deployment,
    run (clickRuntime 1704067200000) (fun _ => "") (fun _ => .single) (start ["lead"] .ok) lateAnswer = some d ∧
    d.platform.uploads.length = 2 ∧ d.platform.uploads.Subperm d.system.sent.flatten := by
  have hrun : (run (clickRuntime 1704067200000) (fun _ => "") (fun _ => .single) (start ["lead"] .ok)
      lateAnswer).map (fun d => d.platform.uploads.length) = some 2 := by decide +kernel
  obtain ⟨d,hd,hlen⟩ := Option.map_eq_some_iff.mp hrun
  exact ⟨d,hd,hlen,(run_accepted_sent _ _ _ _ _ lateAnswer d hd).1⟩

end Deployment
end ConversionGateway
