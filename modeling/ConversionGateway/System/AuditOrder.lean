import ConversionGateway.Lifecycle.TimeOrder
import ConversionGateway.System.Ownership

/-! # The audit trail of a run in time order

All processes read one clock that never goes back. The retries of a batch read it
for every row they note; a worker, a replay and an uploader's cycle have read it
before they read the rows, and stamp with it what may happen much later.
-/
namespace ConversionGateway
open Relational EventStatus

/-- The trail of a QUEUED object, as far as it is older than `now`, ends with the
transition that queued it. -/
def Ledger.QueuedSince (db : Ledger) (e : Event) (now : Time) : Prop :=
  ∃ p, p <+: db.listTransitions e.eventId ∧ (∀ t ∈ p, t.occurredAt ≤ now) ∧
    ∃ t, p.getLast? = some t ∧ t.toStatus = queued ∧ t.reason = e.statusReason

/-- A QUEUED row came into the queue no later than `now`. -/
def Ledger.QueuedBy (db : Ledger) (k : String) (now : Time) : Prop :=
  ∀ e ∈ db.getEvent k, e.status = queued → ∀ t ∈ db.listTransitions k, t.toStatus = queued → t.occurredAt ≤ now

instance (db : Ledger) (k : String) (now : Time) : Decidable (db.QueuedBy k now) :=
  inferInstanceAs (Decidable (∀ _ ∈ _, _ → ∀ _ ∈ _, _ → _))

section Queued
variable {db db' : Ledger} {e : Event} {now : Time}

theorem Trail.last_reason {ts : List EventTransition} {s : EventStatus} {r : Option String}
    (h : Trail ts s r) (hs : s ≠ uploading) : ts.getLast?.map EventTransition.reason = some r := by
  cases h with
  | created hf ht hr => simp [hr]
  | moved h hf ha => simp
  | reclaimed h ht => exact absurd rfl hs

/-- The last transition of a QUEUED row. -/
theorem Trails.last_queued (h : Trails db) (he : db.getEvent e.eventId = some e) (hq : e.status = queued) :
    ∃ t, (db.listTransitions e.eventId).getLast? = some t ∧ t.toStatus = queued ∧
      t.reason = e.statusReason := by
  have htrail := h.trail _ e he
  have hs := htrail.status
  have hr := htrail.last_reason (by simp [hq])
  obtain ⟨t,ht,hto⟩ := Option.map_eq_some_iff.mp hs
  rw [ht] at hr
  exact ⟨t,ht,hto.trans hq,Option.some.inj hr⟩

theorem Ledger.Timed.queuedSince (h : db.Timed) (hby : db.QueuedBy e.eventId now)
    (he : db.getEvent e.eventId = some e) (hq : e.status = queued) : db.QueuedSince e now := by
  obtain ⟨t,hlast,hto,hreason⟩ := h.trails.last_queued he hq
  refine ⟨_,List.prefix_rfl,fun x hx => ?_,t,hlast,hto,hreason⟩
  exact h.order.until_last hlast (hby e he hq t (List.mem_of_getLast? hlast) hto) x hx

theorem Ledger.QueuedSince.mono (h : db.QueuedSince e now)
    (hp : db.listTransitions e.eventId <+: db'.listTransitions e.eventId) : db'.QueuedSince e now := by
  obtain ⟨p,hpre,hrest⟩ := h
  exact ⟨p,hpre.trans hp,hrest⟩

/-- While the row is still the one that was read, nothing has come after: another
entry into the queue would show another reason. -/
theorem Ledger.Timed.until_of_queuedSince (h : db.Timed) (he : db.getEvent e.eventId = some e)
    (hq : e.status = queued) (hs : db.QueuedSince e now) : db.Until e.eventId now := by
  obtain ⟨p,⟨q,hpq⟩,huntil,a,ha,hato,har⟩ := hs
  obtain ⟨b,hb,hbto,hbr⟩ := h.trails.last_queued he hq
  have honce := h.queued_once he
  rw [← hpq] at hb honce
  cases q using List.reverseRecOn with
  | nil =>
    intro t ht
    rw [← hpq, List.append_nil] at ht
    exact huntil t ht
  | append_singleton q c =>
    rw [← List.append_assoc, List.getLast?_concat] at hb
    cases hb
    have hne := (List.pairwise_append.mp honce).2.2 a (List.mem_of_getLast? ha) b (by simp)
    exact absurd (har.trans hbr.symm) (hne hato hbto)

end Queued

/-! ## What a process holds -/

section Local
variable {rt : Runtime} {st : Settings} {clock clock' : Time} {db db' : Ledger}

def Worker.InOrder (db : Ledger) (clock : Time) : Worker → Prop
  | received _ _ now => now ≤ clock
  | loaded _ _ row now => now ≤ clock ∧ ∀ e ∈ row, e.status = queued → db.QueuedSince e now
  | _ => True

/-- Stamps are taken one after the other, once everything is read. -/
def Phase.InOrder (clock : Time) : Phase → Prop
  | idle => True
  | cycle now => now ≤ clock
  | selected now _ => now ≤ clock
  | ready now _ _ => now ≤ clock
  | sending now _ _ => now ≤ clock
  | retrying now _ _ _ loaded pending stamps => now ≤ clock ∧ (pending ≠ [] → stamps = []) ∧
      stamps.Pairwise (· ≤ ·) ∧ (∀ t ∈ stamps, t ≤ clock) ∧
      ∀ e ∈ loaded, ∀ a ∈ e.lastAttemptAt, a ≤ clock ∧ ∀ t ∈ stamps, a ≤ t
  | settling now _ _ _ _ => now ≤ clock

def Replayer.InOrder (clock : Time) : Replayer → Prop
  | idle => True
  | picked letter now | loaded letter _ now | published letter _ now _ => now ≤ clock ∧
      (letter.replayedAt = none → ∀ h ∈ letter.attemptHistory, h.occurredAt ≤ now)

theorem Worker.InOrder.mono {w : Worker} (h : w.InOrder db clock) (hclock : clock ≤ clock')
    (hp : ∀ k, db.listTransitions k <+: db'.listTransitions k) : w.InOrder db' clock' := by
  cases w with
  | received id m now => exact le_trans h hclock
  | loaded id m row now => exact ⟨h.1.trans hclock,fun e he hq => (h.2 e he hq).mono (hp _)⟩
  | idle | done | failed => trivial

theorem Phase.InOrder.mono {p : Phase} (h : p.InOrder clock) (hclock : clock ≤ clock') :
    p.InOrder clock' := by
  cases p with
  | idle => trivial
  | cycle | selected | ready | sending | settling => exact le_trans h hclock
  | retrying now batch attempt reason loaded pending stamps =>
    obtain ⟨hnow,hempty,hsorted,hstamps,hlast⟩ := h
    exact ⟨hnow.trans hclock,hempty,hsorted,fun t ht => (hstamps t ht).trans hclock,
      fun e he a ha => ⟨(hlast e he a ha).1.trans hclock,(hlast e he a ha).2⟩⟩

theorem Replayer.InOrder.mono {r : Replayer} (h : r.InOrder clock) (hclock : clock ≤ clock') :
    r.InOrder clock' := by
  cases r with
  | idle => trivial
  | picked | loaded | published => exact ⟨h.1.trans hclock,h.2⟩

/-- A delivery has its time from the clock. -/
theorem Request.step_call {r r' : Request} {q q' : MessageQueue} {out : Option String} {b : RequestAction}
    (h : r.step rt clock db q b = some (r',q',out)) : ∀ c ∈ r'.call, c.now = clock ∨ c ∈ r.call := by
  intro c hc
  unfold step at h
  split at h
  · cases h
    cases hc
    exact Or.inl rfl
  · split at h
    · cases h
      exact Or.inr hc
    · cases h
  · obtain ⟨m,_,hm⟩ := Option.map_eq_some_iff.mp h
    cases hm
    exact Or.inr hc
  · obtain ⟨m,_,hm⟩ := Option.map_eq_some_iff.mp h
    cases hm
    exact Or.inr hc
  · split at h
    · cases h
      exact Or.inr hc
    · cases h
  · cases h

theorem Request.committed_call (r : Request) (reply : Reply) : (r.committed reply).call = r.call := by
  unfold committed
  split <;> rfl

theorem Request.crash_call (r : Request) : r.crash.call = r.call := by
  unfold crash
  split <;> rfl

theorem Worker.step_inOrder {w w' : Worker} {q q' : MessageQueue} {b : WorkerAction} (ht : db.Timed)
    (hw : w.InOrder db clock)
    (hread : b = .read → ∀ id m now, w = .received id m now → db.QueuedBy m.eventId now)
    (h : w.step clock db q b = some (w',q')) : w'.InOrder db clock := by
  unfold step at h
  split at h
  · obtain ⟨p,_,hp⟩ := Option.map_eq_some_iff.mp h
    cases hp
    exact le_refl _
  · cases h
    exact le_refl _
  · next id m now =>
    cases h
    refine ⟨hw,fun e he hq => ht.queuedSince ?_ (getEvent_self he) hq⟩
    rw [Ledger.getEvent_eventId he]
    exact hread rfl id m now rfl
  · cases h
    trivial
  · cases h
    trivial
  · cases h
    trivial
  · cases h
    trivial
  · cases h

theorem Worker.InOrder.committed {w : Worker} (hw : w.InOrder db clock) : w.committed.InOrder db clock := by
  cases w with
  | loaded id m row now => trivial
  | idle | received | done | failed => exact hw

theorem Uploader.withClaim_inOrder (u : Uploader) (items : List Claimed) {now : Time} (hnow : now ≤ clock) :
    (u.withClaim st items now).phase.InOrder clock := by
  rcases u.withClaim_phase st items now with hp | ⟨batch,hp⟩ <;> rw [hp]
  · trivial
  · exact hnow

theorem Uploader.step_inOrder {u u' : Uploader} {n : ℕ} {locks locks' : Locks} {sent : Option (List Json)}
    {b : UploaderAction} (hd : db.Dated clock) (hu : u.phase.InOrder clock)
    (h : u.step st n clock db locks b = some (u',locks',sent)) : u'.phase.InOrder clock := by
  cases b with
  | begin =>
    simp only [step] at h
    split at h
    · cases h
      exact le_refl _
    · cases h
  | select ids =>
    simp only [step] at h
    split at h
    · next hp =>
      rw [hp] at hu
      split at h
      · cases h
        exact hu
      · cases h
    · cases h
  | skip =>
    simp only [step] at h
    split at h
    · next hp =>
      rw [hp] at hu
      split at h
      · cases h
        exact withClaim_inOrder u [] hu
      · cases h
    · cases h
  | send | finish =>
    simp only [step] at h
    split at h
    · next hp =>
      rw [hp] at hu
      cases h
      exact hu
    · cases h
  | retry reason =>
    simp only [step] at h
    split at h
    · next hp =>
      rw [hp] at hu
      split at h
      · cases h
        exact ⟨hu,fun _ => rfl,List.Pairwise.nil,by simp,by simp⟩
      · cases h
    · cases h
  | load =>
    simp only [step] at h
    split at h
    · next now batch attempt reason loaded id pending stamps hp =>
      rw [hp] at hu
      cases h
      obtain ⟨hnow,hempty,_,_,hlast⟩ := hu
      obtain rfl := hempty (by simp)
      refine ⟨hnow,fun _ => rfl,List.Pairwise.nil,by simp,fun e he a ha => ⟨?_,by simp⟩⟩
      rcases List.mem_append.mp he with he | he
      · exact (hlast e he a ha).1
      · exact hd.attempts id e (Option.mem_toList.mp he) a ha
    · next hp =>
      rw [hp] at hu
      cases h
      exact hu
    · cases h
  | stamp =>
    simp only [step] at h
    split at h
    · next hp =>
      rw [hp] at hu
      split at h
      · cases h
        obtain ⟨hnow,_,hsorted,hstamps,hlast⟩ := hu
        refine ⟨hnow,by simp,List.pairwise_append.mpr ⟨hsorted,List.pairwise_singleton _ _,?_⟩,?_,?_⟩
        · intro t ht x hx
          rw [List.mem_singleton.mp hx]
          exact hstamps t ht
        · intro t ht
          rcases List.mem_append.mp ht with ht | ht
          · exact hstamps t ht
          · exact le_of_eq (List.mem_singleton.mp ht)
        · intro e he a ha
          obtain ⟨hclock,hbefore⟩ := hlast e he a ha
          refine ⟨hclock,fun t ht => ?_⟩
          rcases List.mem_append.mp ht with ht | ht
          · exact hbefore t ht
          · rw [List.mem_singleton.mp ht]
            exact hclock
      · cases h
    · cases h

theorem Uploader.committed_inOrder {u : Uploader} (reply : Reply) (hu : u.phase.InOrder clock) :
    (u.committed st reply).phase.InOrder clock := by
  unfold committed
  split
  · next hp =>
    rw [hp] at hu
    exact withClaim_inOrder u _ hu
  · next hp =>
    rw [hp] at hu
    exact hu.1
  · trivial
  · exact hu

theorem Replayer.step_inOrder {r r' : Replayer} {q q' : MessageQueue} {b : ReplayerAction} (ht : db.Timed)
    (hread : ∀ id now, b = .pick id now → now ≤ clock ∧
      ∀ letter ∈ db.getDeadLetter id, letter.replayedAt = none → letter.deadLetteredAt ≤ now)
    (hr : r.InOrder clock) (h : r.step db q b = some (r',q')) : r'.InOrder clock := by
  unfold step at h
  split at h
  · next id now =>
    obtain ⟨letter,hl,hp⟩ := Option.map_eq_some_iff.mp h
    cases hp
    obtain ⟨hnow,hfiled⟩ := hread id now rfl
    exact ⟨hnow,fun ho x hx => (ht.order.deadLetters letter (Journal.mem_of_get hl) x hx).trans
      (hfiled letter hl ho)⟩
  · cases h
    exact hr
  · obtain ⟨m,_,hm⟩ := Option.map_eq_some_iff.mp h
    cases hm
    exact hr
  · cases h

end Local

/-! ## Transactions in time -/

/-- Nobody has touched the events of an uploader's transaction since its cycle began. -/
def Transaction.Undisturbed (db : Ledger) : Transaction → Prop
  | claim _ selected now => ∀ k ∈ selected, db.Untouched k now
  | apply _ loaded _ now => ∀ e ∈ loaded, db.Untouched e.eventId now
  | bury _ loaded _ now => ∀ e ∈ loaded, db.Untouched e.eventId now
  | _ => True

instance (db : Ledger) : ∀ tx : Transaction, Decidable (tx.Undisturbed db)
  | .claim _ selected now => inferInstanceAs (Decidable (∀ k ∈ selected, db.Untouched k now))
  | .apply _ loaded _ now => inferInstanceAs (Decidable (∀ e ∈ loaded, db.Untouched e.eventId now))
  | .bury _ loaded _ now => inferInstanceAs (Decidable (∀ e ∈ loaded, db.Untouched e.eventId now))
  | .ingest .. | .process .. | .retry .. | .replay .. => isTrue trivial

/-- The session's objects are still as they are committed; of a record only the replay
columns can have changed. -/
def Session.Current (s : Session) (db : Ledger) : Prop :=
  (∀ e ∈ s.events, db.getEvent e.eventId = some e) ∧
    ∀ d ∈ s.deadLetters, ∀ current ∈ db.getDeadLetter d.id,
      current.replayedAt = d.replayedAt ∧ current.replayCount = d.replayCount

instance (s : Session) (db : Ledger) : Decidable (s.Current db) :=
  inferInstanceAs (Decidable ((∀ _ ∈ _, _) ∧ ∀ _ ∈ _, ∀ _ ∈ _, _))

section Transactions
variable {rt : Runtime} {db db' : Ledger} {tx : Transaction} {reply : Reply}

theorem Session.Current.fresh {s : Session} (h : s.Current db)
    (hrec : ∀ d ∈ s.deadLetters, ∃ current, db.getDeadLetter d.id = some current ∧
      current.frozen = d.frozen) : s.Fresh db := by
  refine ⟨h.1,fun d hd => ?_⟩
  obtain ⟨current,hget,hf⟩ := hrec d hd
  obtain ⟨hr,hc⟩ := h.2 d hd current hget
  have hsame : current = d := DeadLetter.ext_frozen hf hr hc
  exact hsame ▸ hget

/-- A transaction that acts on what is current is its body on the ledger; one that
acts on nothing leaves the ledger alone. -/
theorem Transaction.fresh_or_idle
    (hrec : ∀ d ∈ tx.session.deadLetters, ∃ current, db.getDeadLetter d.id = some current ∧
      current.frozen = d.frozen)
    (hcur : tx.acted ≠ [] → tx.session.Current db) (h : tx.commit rt db = .ok (db',reply)) :
    tx.session.Fresh db ∨ db' = db := by
  have hidle (hbody : ∀ db out, tx.body rt db = .ok (out,reply) → out = db) : db' = db := by
    obtain ⟨out,hb,rfl,_⟩ := commit_ok.mp h
    rw [hbody _ out hb]
    exact Session.flush_view hrec
  have hloaded (loaded : List Event) (hs : tx.session = ⟨loaded,[]⟩) (ha : tx.acted = loaded) :
      tx.session.Fresh db := by
    by_cases hl : loaded = []
    · rw [hs, hl]
      exact Session.fresh_empty db
    · exact (hcur (ha ▸ hl)).fresh hrec
  by_cases ha : tx.acted = []
  · cases tx with
    | ingest | claim => exact Or.inl (Session.fresh_empty db)
    | retry _ loaded | apply _ loaded | bury _ loaded => exact Or.inl (hloaded loaded rfl rfl)
    | process message loaded now =>
      refine Or.inr (hidle fun db out hb => ?_)
      obtain ⟨⟨db₁,o⟩,ho,hb⟩ := Outcome.bind_ok.mp hb
      cases hb
      rcases processMessage_ok ho with ⟨rfl,_⟩ | ⟨e,rfl,hq,_⟩
      · rfl
      · simp [acted,hq] at ha
    | replay letter loaded now =>
      refine Or.inr (hidle fun db out hb => ?_)
      obtain ⟨⟨db₁,m⟩,hm,hb⟩ := Outcome.bind_ok.mp hb
      cases hb
      rcases replay_ok hm with ⟨rfl,_⟩ | ⟨e,rfl,ho,hd,_⟩
      · rfl
      · simp [acted,ho,hd] at ha
  · exact Or.inl ((hcur ha).fresh hrec)

end Transactions

/-- The event that a worker reads was queued before the worker read the clock. -/
def Worker.Timely (db : Ledger) : Worker → Prop
  | received _ message now => db.QueuedBy message.eventId now
  | _ => True

instance (db : Ledger) : ∀ w : Worker, Decidable (w.Timely db)
  | .received _ message now => inferInstanceAs (Decidable (db.QueuedBy message.eventId now))
  | .idle | .loaded .. | .done _ | .failed _ => isTrue trivial

namespace System
variable {rt : Runtime} {settings : ℕ → Settings} {s t : System} {a : Action}

/-- A replay command has its time from the clock that the other processes read. -/
def ReadsClock (s : System) : Action → Prop
  | .replayer _ (.pick _ now) => now ≤ s.clock
  | _ => True

/-- What is read was there before the clock was read; a transaction that acts on rows
commits them as it read them, and the events of an uploader's transaction are as they
were when its cycle began. -/
def Timely (settings : ℕ → Settings) (s : System) : Action → Prop
  | .worker n .read => (s.workers n).Timely s.ledger
  | .replayer _ (.pick id now) => ∀ letter ∈ s.ledger.getDeadLetter id, letter.replayedAt = none →
      letter.deadLetteredAt ≤ now
  | .commit who => ∀ tx ∈ s.transaction settings who,
      (tx.acted ≠ [] → tx.session.Current s.ledger) ∧ tx.Undisturbed s.ledger
  | _ => True

instance (s : System) : ∀ a, Decidable (ReadsClock s a)
  | .replayer _ (.pick _ now) => inferInstanceAs (Decidable (now ≤ s.clock))
  | .replayer _ .load | .replayer _ .publish | .tick _ | .expire _ | .request _ _ | .worker _ _ |
    .uploader _ _ | .reconciler _ _ | .commit _ | .crash _ => isTrue trivial

instance (s : System) : ∀ a, Decidable (Timely settings s a)
  | .worker n .read => inferInstanceAs (Decidable ((s.workers n).Timely s.ledger))
  | .replayer _ (.pick id now) => inferInstanceAs (Decidable (∀ letter ∈ s.ledger.getDeadLetter id,
      letter.replayedAt = none → letter.deadLetteredAt ≤ now))
  | .commit who => inferInstanceAs (Decidable (∀ tx ∈ s.transaction settings who,
      (tx.acted ≠ [] → tx.session.Current s.ledger) ∧ tx.Undisturbed s.ledger))
  | .worker _ (.receive _) | .worker _ .handle | .worker _ .raise | .worker _ .ack | .worker _ .nack |
    .replayer _ .load | .replayer _ .publish | .tick _ | .expire _ | .request _ _ | .uploader _ _ |
    .reconciler _ _ | .crash _ => isTrue trivial

/-- Every time in the system has been read from the clock, in its order. -/
structure InOrder (s : System) : Prop where
  linked : s.Linked
  timed : s.ledger.Timed
  dated : s.ledger.Dated s.clock
  records : ∀ who, ∀ d ∈ s.letters who, ∃ current, s.ledger.getDeadLetter d.id = some current ∧
    current.frozen = d.frozen
  requests : ∀ n, ∀ c ∈ (s.requests n).call, c.now ≤ s.clock
  workers : ∀ n, (s.workers n).InOrder s.ledger s.clock
  uploaders : ∀ n, (s.uploaders n).phase.InOrder s.clock
  replayers : ∀ n, (s.replayers n).InOrder s.clock

theorem start_inOrder : (start Ledger.empty).InOrder where
  linked := start_linked _
  timed := .empty
  dated := ⟨by simp [start,Ledger.empty,Journal.empty],fun k e he => (by cases he),
    by simp [start,Ledger.empty,Journal.empty]⟩
  records who d hd := by cases who <;> cases hd
  requests n c hc := by cases hc
  workers n := trivial
  uploaders n := trivial
  replayers n := trivial

/-- A transaction writes times that were on the clock. -/
theorem InOrder.stamps (hs : s.InOrder) {who : Process} {tx : Transaction}
    (htx : s.transaction settings who = some tx) : ∀ t ∈ tx.stamps, t ≤ s.clock := by
  have hone {now : Time} (hnow : now ≤ s.clock) : ∀ t ∈ [now], t ≤ s.clock := by simpa using hnow
  cases who with
  | reconciler n => cases htx
  | request n =>
    have hr := hs.requests n
    simp only [transaction, Request.transaction] at htx
    split at htx
    · next call hn =>
      cases htx
      rw [hn] at hr
      exact hone (hr call rfl)
    · cases htx
  | worker n =>
    have hw := hs.workers n
    simp only [transaction, Worker.transaction] at htx
    split at htx
    · next hn =>
      cases htx
      rw [hn] at hw
      exact hone hw.1
    · cases htx
  | replayer n =>
    have hr := hs.replayers n
    simp only [transaction, Replayer.transaction] at htx
    split at htx
    · next hn =>
      rw [hn] at hr
      split at htx
      · cases htx
        exact hone hr.1
      · cases htx
    · next hn =>
      cases htx
      rw [hn] at hr
      exact hone hr.1
    · cases htx
  | uploader n =>
    have hu := hs.uploaders n
    rcases Uploader.transaction_cases htx with ⟨now,ids,hp,rfl⟩ | ⟨now,batch,attempt,reason,loaded,stamps,hp,_,rfl⟩ |
      ⟨now,batch,rows,loaded,hp,rfl⟩ | ⟨now,batch,failure,loaded,hp,rfl⟩ <;> rw [hp] at hu
    · exact hone hu
    · exact hu.2.2.2.1
    · exact hone hu
    · exact hone hu

/-- The whole trail of the event is in the open record that a replay has read. -/
theorem InOrder.until_of_letter (hs : s.InOrder) {letter : DeadLetter} {e : Event} {now : Time}
    (hl : s.ledger.getDeadLetter letter.id = some letter) (he : s.ledger.getEvent e.eventId = some e)
    (hk : letter.eventId = e.eventId) (ho : letter.replayedAt = none) (hd : e.status = deadLettered)
    (hh : ∀ h ∈ letter.attemptHistory, h.occurredAt ≤ now) : s.ledger.Until e.eventId now := by
  have hmem : letter ∈ s.ledger.letters e.eventId :=
    List.mem_filter.mpr ⟨Journal.mem_of_get hl,by simpa using hk⟩
  have htrail := hs.timed.buried _ e he hd letter hmem (by simp [DeadLetter.Replayed,ho])
  intro t ht
  refine hh t.historyEntry ?_
  rw [htrail]
  exact List.mem_map.mpr ⟨t,ht,rfl⟩

/-- A transaction on what it has read, and an uploader's on what nobody has touched,
stamps nothing earlier than what is there. -/
theorem InOrder.inTime (hs : s.InOrder) {who : Process} {tx : Transaction}
    (htx : s.transaction settings who = some tx) (hf : tx.session.Fresh s.ledger)
    (hu : tx.Undisturbed s.ledger) : tx.InTime s.ledger := by
  cases who with
  | reconciler n => cases htx
  | request n =>
    simp only [transaction, Request.transaction] at htx
    split at htx
    · cases htx
      trivial
    · cases htx
  | worker n =>
    have hw := hs.workers n
    simp only [transaction, Worker.transaction] at htx
    split at htx
    · next id message row now hn =>
      cases htx
      rw [hn] at hw
      intro e he hq
      have hrow := hf.events e (Option.mem_toList.mpr he)
      exact hs.timed.until_of_queuedSince hrow hq (hw.2 e he hq)
    · cases htx
  | replayer n =>
    have hr := hs.replayers n
    have hp := hs.linked.paired htx
    simp only [transaction, Replayer.transaction] at htx
    split at htx
    · next letter row now hn =>
      rw [hn] at hr
      split at htx
      · cases htx
        intro ho e he hd
        exact hs.until_of_letter (hf.deadLetters letter (List.mem_singleton_self _))
          (hf.events e (Option.mem_toList.mpr he)) (hp e he) ho hd (hr.2 ho)
      · cases htx
    · next letter row now id hn =>
      cases htx
      rw [hn] at hr
      intro ho e he hd
      exact hs.until_of_letter (hf.deadLetters letter (List.mem_singleton_self _))
        (hf.events e (Option.mem_toList.mpr he)) (hp e he) ho hd (hr.2 ho)
    · cases htx
  | uploader n =>
    have hphase := hs.uploaders n
    rcases Uploader.transaction_cases htx with ⟨now,ids,hp,rfl⟩ | ⟨now,batch,attempt,reason,loaded,stamps,hp,_,rfl⟩ |
      ⟨now,batch,rows,loaded,hp,rfl⟩ | ⟨now,batch,failure,loaded,hp,rfl⟩
    · exact hu
    · rw [hp] at hphase
      obtain ⟨_,_,hsorted,_,hlast⟩ := hphase
      exact ⟨hsorted,fun e he a ha => (hlast e he a ha).2⟩
    · exact hu
    · exact hu

/-- What a timely step adds to the ledger is stamped in order. -/
theorem step_advances (hs : s.InOrder) (ht : Timely settings s a) (h : step rt settings s a = some t) :
    s.ledger.Advances rt s.clock t.ledger := by
  rcases step_ledger h with heq | ⟨who,tx,reply,rfl,hc⟩
  · rw [heq]
  · obtain ⟨hcur,hu⟩ := ht tx hc.transaction
    have hrec : ∀ d ∈ tx.session.deadLetters, ∃ current, s.ledger.getDeadLetter d.id = some current ∧
        current.frozen = d.frozen := by
      rw [(transaction_session hc.transaction).2]
      exact hs.records who
    rcases Transaction.fresh_or_idle hrec hcur hc.commit with hf | heq
    · exact Transaction.body_advances hs.timed hf (hs.linked.paired hc.transaction)
        (hs.inTime hc.transaction hf hu) (hs.stamps hc.transaction) (Transaction.commit_fresh hf hc.commit).1
    · rw [heq]

theorem step_inOrder (hs : s.InOrder) (hread : ReadsClock s a) (ht : Timely settings s a)
    (h : step rt settings s a = some t) : t.InOrder := by
  have hadv := step_advances hs ht h
  have hclock := step_clock h
  have htimed := hadv.timed hs.timed
  have hdated : t.ledger.Dated s.clock := hadv.dated hs.dated
  refine ⟨step_linked hs.linked h,htimed,hdated.mono hclock,fun who d hd => ?_,fun n c hc => ?_,
    fun n => ?_,fun n => ?_,fun n => ?_⟩
  · have hold : ∃ current, s.ledger.getDeadLetter d.id = some current ∧ current.frozen = d.frozen := by
      rcases step_letters h hd with hd | hd
      · exact hs.records who d hd
      · exact ⟨d,hd,rfl⟩
    obtain ⟨current,hcur,hfrozen⟩ := hold
    obtain ⟨current',hcur',hfrozen'⟩ := hadv.letter hcur
    exact ⟨current',hcur',hfrozen'.trans hfrozen⟩
  · refine le_trans ?_ hclock
    rcases step_request h n with heq | ⟨b,q,out,_,hstep⟩ | ⟨reply,heq⟩ | heq
    · exact hs.requests n c (heq ▸ hc)
    · rcases Request.step_call hstep c hc with hnow | hold
      · exact le_of_eq hnow
      · exact hs.requests n c hold
    · rw [heq, Request.committed_call] at hc
      exact hs.requests n c hc
    · rw [heq, Request.crash_call] at hc
      exact hs.requests n c hc
  · have hw : (t.workers n).InOrder s.ledger s.clock := by
      rcases step_worker h n with heq | ⟨b,q,rfl,hstep⟩ | heq | heq
      · exact heq ▸ hs.workers n
      · refine Worker.step_inOrder hs.timed (hs.workers n) ?_ hstep
        intro hb id m now hreceived
        subst hb
        have htimely : (s.workers n).Timely s.ledger := ht
        rwa [hreceived] at htimely
      · rw [heq]
        exact (hs.workers n).committed
      · rw [heq]
        trivial
    exact hw.mono hclock hadv.trail
  · have hu : (t.uploaders n).phase.InOrder s.clock := by
      rcases step_uploader h n with heq | ⟨b,sent,_,hstep⟩ | ⟨tx,reply,_,heq⟩ | heq
      · exact heq ▸ hs.uploaders n
      · exact Uploader.step_inOrder hs.dated (hs.uploaders n) hstep
      · rw [heq]
        exact Uploader.committed_inOrder reply (hs.uploaders n)
      · rw [heq]
        trivial
    exact hu.mono hclock
  · have hr : (t.replayers n).InOrder s.clock := by
      rcases step_replayer h n with heq | ⟨b,q,rfl,hstep⟩ | heq
      · exact heq ▸ hs.replayers n
      · refine Replayer.step_inOrder hs.timed ?_ (hs.replayers n) hstep
        intro id now hpick
        subst hpick
        exact ⟨hread,ht⟩
      · rw [heq]
        trivial
    exact hr.mono hclock

/-- In every state of a run the transitions of every event are in time order, if every
transaction acts on rows that are still as it read them, and nothing has happened to
them since the process read the clock. -/
theorem run_in_time_order (rt : Runtime) (settings : ℕ → Settings) (actions : List Action) (s : System)
    (h : run rt settings (start Ledger.empty) actions = some s)
    (hread : Machine.Along (step rt settings) ReadsClock (start Ledger.empty) actions)
    (htimely : Machine.Along (step rt settings) (Timely settings) (start Ledger.empty) actions) :
    s.ledger.InTimeOrder := by
  have hboth : Machine.Along (step rt settings) (fun s a => ReadsClock s a ∧ Timely settings s a)
      (start Ledger.empty) actions :=
    fun pre a post t heq ht => ⟨hread pre a post t heq ht,htimely pre a post t heq ht⟩
  have hfinal := Machine.run_inv InOrder (fun _ _ _ hs hc hst => step_inOrder hs hc.1 hc.2 hst)
    start_inOrder hboth h
  exact hfinal.timed.order

/-- One event through a cycle that begins at 5 and ends at 7, without a retry. -/
def timelyUpload : List Action :=
  uploadOnce.take 6 ++ [.tick 5, .uploader 0 .begin, .uploader 0 (.select ["hubspot:1"]),
    .commit (.uploader 0), .uploader 0 .send, .tick 7, .uploader 0 (.finish (.permanent "http_401")),
    .uploader 0 .load, .commit (.uploader 0), .tick 9, .replayer 0 (.pick 1 9), .replayer 0 .load,
    .replayer 0 .publish, .commit (.replayer 0)]

/-- The theorem at an event that is dead-lettered and replayed. -/
theorem run_in_time_order_replay : ∃ s,
    run (clickRuntime 1704067200000) (fun _ => .single) (start Ledger.empty) timelyUpload = some s ∧
    s.ledger.transitions.rows.map EventTransition.occurredAt = [0,0,0,0,5,5,9] ∧
    s.ledger.InTimeOrder := by
  have hrun : (run (clickRuntime 1704067200000) (fun _ => .single) (start Ledger.empty)
      timelyUpload).map (fun s => s.ledger.transitions.rows.map EventTransition.occurredAt) =
      some [0,0,0,0,5,5,9] := by decide +kernel
  obtain ⟨s,hs,htimes⟩ := Option.map_eq_some_iff.mp hrun
  exact ⟨s,hs,htimes,run_in_time_order _ _ timelyUpload s hs (by decide +kernel) (by decide +kernel)⟩

/-- A cycle that begins at 0; its first attempt fails, and the retry is noted at 5. -/
def retriedUpload : List Action :=
  uploadOnce.take 10 ++ [.uploader 0 (.retry "http_503"), .uploader 0 .load, .tick 5, .uploader 0 .stamp,
    .commit (.uploader 0), .uploader 0 .send, .uploader 0 (.finish (.result [⟨0,true,none,none⟩])),
    .uploader 0 .load, .commit (.uploader 0)]

/-- The outcome is stamped with the start of the cycle, before the retry. -/
theorem not_inTimeOrder_retried : ∃ s,
    run (clickRuntime 1704067200000) (fun _ => .single) (start Ledger.empty) retriedUpload = some s ∧
    Machine.Along (step (clickRuntime 1704067200000) fun _ => .single) ReadsClock (start Ledger.empty)
      retriedUpload ∧ ¬ s.ledger.InTimeOrder := by
  have hrun : (run (clickRuntime 1704067200000) (fun _ => .single) (start Ledger.empty)
      retriedUpload).map (fun s => (s.ledger.listTransitions "hubspot:1").map EventTransition.occurredAt) =
      some [0,0,0,0,0,5,5,0] := by decide +kernel
  obtain ⟨s,hs,htimes⟩ := Option.map_eq_some_iff.mp hrun
  refine ⟨s,hs,by decide +kernel,fun horder => ?_⟩
  have hsorted : ([0,0,0,0,0,5,5,0] : List Time).Pairwise (· ≤ ·) := by
    rw [← htimes]
    exact List.pairwise_map.mpr (horder.transitions "hubspot:1")
  exact absurd hsorted (by decide)

end System
end ConversionGateway
