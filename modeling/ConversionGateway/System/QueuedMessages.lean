import ConversionGateway.System.Ownership

/-! # Messages of queued events

The ledger and the queue share no transaction. A worker is done with a message
without effect when it finds the row in another state than QUEUED, so a message
stands for its event only as long as nobody has read the row too early.
-/
namespace ConversionGateway
open EventStatus

namespace Worker

/-- The message the worker is at. -/
def delivery : Worker → Option ℕ
  | idle => none
  | received id _ _ => some id
  | loaded id _ _ _ => some id
  | done id => some id
  | failed id => some id

/-- The worker still knows what the message under the number says. -/
def Carries (id : ℕ) (m : QueueMessage) : Worker → Prop
  | received id' m' _ => id' = id ∧ m' = m
  | loaded id' m' _ _ => id' = id ∧ m' = m
  | _ => False

/-- The worker has not read the row for the message. -/
def Unread (id : ℕ) : Worker → Prop
  | loaded id' _ _ _ => id' ≠ id
  | done id' => id' ≠ id
  | _ => True

/-- Nor has it read the row in another state than QUEUED. -/
def Promising (id : ℕ) : Worker → Prop
  | loaded id' _ row _ => id' = id → ∃ e, row = some e ∧ e.status = .queued
  | done id' => id' ≠ id
  | _ => True

theorem Unread.promising {id : ℕ} {w : Worker} (h : w.Unread id) : w.Promising id := by
  cases w with
  | loaded id' m row now => exact fun heq => absurd heq h
  | done id' => exact h
  | _ => trivial

/-- A worker that is at no message of that number. -/
theorem unread_of_delivery {id : ℕ} {w : Worker} (h : w.delivery ≠ some id) : w.Unread id := by
  cases w with
  | loaded id' m row now => exact fun heq => h (by rw [delivery, heq])
  | done id' => exact fun heq => h (by rw [delivery, heq])
  | _ => trivial

end Worker

section Row
variable {rt : Runtime} {tx : Transaction} {base final current : Event}

/-- A row that a transaction makes QUEUED was QUEUED, or the transaction is a replay. -/
theorem Transaction.Change.queued (h : tx.Change rt base final)
    (hclaim : ∀ st ids now, tx = .claim st ids now → current = base)
    (hq : (Event.merge base final current).status = queued) : current.status = queued ∨
      ∃ letter loaded now, tx = .replay letter loaded now ∧ base.status = deadLettered ∧
        letter.replayedAt = none := by
  cases tx with
  | ingest source plan correlationId now => exact h.elim
  | claim st ids now =>
    obtain rfl := hclaim st ids now rfl
    have htaken : current.TakenBy st.maxRowAttempts now final := h
    rw [Event.merge_fresh] at hq
    rcases htaken.status with hst | hst <;> simp [hst] at hq
  | process message loaded now =>
    obtain ⟨hb,reason,hp⟩ := h
    refine Or.inl ?_
    have hfinal : final.status ≠ queued := by cases hp <;> simp [Event.moved,Event.processedWith]
    rw [Event.merge_status, pick_of_ne (by rwa [hb])] at hq
    exact absurd hq hfinal
  | retry ids loaded reason stamps =>
    rw [Event.Retried.merge_status h] at hq
    exact Or.inl hq
  | apply batch loaded rows now =>
    have ho := h.outcome
    rw [Event.Settled.merge_status h] at hq
    simp [hq] at ho
  | bury batch loaded failure now =>
    rw [Event.Settled.merge_status h.1, h.2] at hq
    cases hq
  | replay letter loaded now => exact Or.inr ⟨letter,loaded,now,rfl,h.1,h.2.1⟩

end Row

namespace System
variable {rt : Runtime} {settings : ℕ → Settings} {s t : System} {a : Action}

/-- No worker reads the row for the message of a replay that has not committed. -/
def NoEarlyRead (s : System) (a : Action) : Prop :=
  match a with
  | .worker w .read => ∀ id m since, s.workers w = .received id m since →
      ∀ r letter row now, s.replayers r ≠ .published letter row now id
  | _ => True

/-- Each announced event that is QUEUED has a message that no worker is bound to
acknowledge without effect; the message of an open replay is one nobody has read
the row for. -/
structure Delivering (s : System) : Prop where
  linked : s.Linked
  ids : ∀ w id, (s.workers w).delivery = some id → id < s.queue.next
  messages : ∀ w id m, (s.workers w).Carries id m → ∀ m', s.queue.Holds id m' → m' = m
  loaded : ∀ w id m row now, s.workers w = .loaded id m row now → ∀ e ∈ row, e.eventId = m.eventId
  recorded : ∀ n call i m, s.requests n = .recorded call i → i.message = some m →
    (s.ledger.getEvent m.eventId).isSome
  announced : ∀ k ∈ s.announced, (s.ledger.getEvent k).isSome
  published : ∀ r letter row now id, s.replayers r = .published letter row now id →
    ∃ m, s.queue.Holds id m ∧ m.eventId = letter.eventId ∧ ∀ w, (s.workers w).Unread id
  queued : ∀ k ∈ s.announced, s.status k = some .queued →
    ∃ id m, s.queue.Holds id m ∧ m.eventId = k ∧ ∀ w, (s.workers w).Promising id

theorem start_delivering (db : Ledger) : (start db).Delivering :=
  ⟨start_linked db,by rintro w id ⟨⟩,by rintro w id m ⟨⟩,by rintro w _ _ _ _ ⟨⟩,by rintro n _ _ _ ⟨⟩,
    by rintro k ⟨⟩,by rintro r _ _ _ _ ⟨⟩,by rintro k ⟨⟩⟩

/-- A step under which the rows and messages that are there stay. -/
structure Quiet (s t : System) : Prop where
  linked : t.Linked
  rows : ∀ k, (s.ledger.getEvent k).isSome → (t.ledger.getEvent k).isSome
  status : ∀ k ∈ s.announced, t.status k = some .queued → s.status k = some .queued
  next : s.queue.next ≤ t.queue.next
  holds : ∀ id m, s.queue.Holds id m → t.queue.Holds id m
  fresh : ∀ id m, t.queue.Holds id m → s.queue.Holds id m ∨ s.queue.next ≤ id
  workers : t.workers = s.workers

/-- No worker is at a message that is new. -/
theorem Delivering.unread_next (hs : s.Delivering) (w : ℕ) : (s.workers w).Unread s.queue.next :=
  Worker.unread_of_delivery fun hd => Nat.lt_irrefl _ (hs.ids w _ hd)

/-- Quiet steps keep what the workers know; what the producers know is up to them. -/
theorem Delivering.quiet (hs : s.Delivering) (h : s.Quiet t)
    (hrec : ∀ n call i m, t.requests n = .recorded call i → i.message = some m →
      (t.ledger.getEvent m.eventId).isSome)
    (hpub : ∀ r letter row now id, t.replayers r = .published letter row now id →
      s.replayers r = .published letter row now id ∨
        ∃ m, t.queue.Holds id m ∧ m.eventId = letter.eventId ∧ ∀ w, (s.workers w).Unread id)
    (hann : t.announced = s.announced) : t.Delivering := by
  refine ⟨h.linked,fun w id hw => ?_,fun w id m hw m' hm => ?_,fun w => ?_,hrec,fun k hk => ?_,
    fun r letter row now id hr => ?_,fun k hk hq => ?_⟩
  · rw [h.workers] at hw
    exact (hs.ids w id hw).trans_le h.next
  · rw [h.workers] at hw
    rcases h.fresh id m' hm with hm | hlt
    · exact hs.messages w id m hw m' hm
    · have hdel : (s.workers w).delivery = some id := by
        cases hx : s.workers w <;> rw [hx] at hw
        · exact hw.elim
        · exact congrArg some hw.1
        · exact congrArg some hw.1
        · exact hw.elim
        · exact hw.elim
      exact absurd (hs.ids w id hdel) (Nat.not_lt.mpr hlt)
  · rw [h.workers]
    exact hs.loaded w
  · exact h.rows k (hs.announced k (hann ▸ hk))
  · rw [h.workers]
    rcases hpub r letter row now id hr with hr | hnew
    · obtain ⟨m,hm,hk,hw⟩ := hs.published r letter row now id hr
      exact ⟨m,h.holds id m hm,hk,hw⟩
    · exact hnew
  · obtain ⟨id,m,hm,hid,hw⟩ := hs.queued k (hann ▸ hk) (h.status k (hann ▸ hk) hq)
    exact ⟨id,m,h.holds id m hm,hid,h.workers ▸ hw⟩

/-- A step of one worker, which ends in state `v`. -/
structure Works (s t : System) (w : ℕ) (v : Worker) : Prop where
  linked : t.Linked
  rows : ∀ k, (s.ledger.getEvent k).isSome → (t.ledger.getEvent k).isSome
  status : ∀ k ∈ s.announced, t.status k = some .queued → s.status k = some .queued
  next : t.queue.next = s.queue.next
  holds : ∀ id m, s.queue.Holds id m → (s.workers w).Promising id → t.queue.Holds id m
  fresh : ∀ id m, t.queue.Holds id m → s.queue.Holds id m
  workers : t.workers = Function.update s.workers w v
  requests : t.requests = s.requests
  replayers : t.replayers = s.replayers
  announced : t.announced = s.announced

theorem Delivering.works (hs : s.Delivering) {w : ℕ} {v : Worker} (h : s.Works t w v)
    (hid : ∀ id, v.delivery = some id → id < s.queue.next)
    (hcarry : ∀ id m, v.Carries id m → ∀ m', s.queue.Holds id m' → m' = m)
    (hrow : ∀ id m row now, v = .loaded id m row now → ∀ e ∈ row, e.eventId = m.eventId)
    (hunread : ∀ r letter row now id, s.replayers r = .published letter row now id →
      (s.workers w).Unread id → v.Unread id)
    (hpromise : ∀ k ∈ s.announced, t.status k = some .queued → ∀ id m, s.queue.Holds id m →
      m.eventId = k → (s.workers w).Promising id → v.Promising id) : t.Delivering := by
  have hworker {P : Worker → Prop} (hP : ∀ i, P (s.workers i)) (hv : P v) : ∀ i, P (t.workers i) := by
    intro i
    rw [h.workers, Function.update_apply]
    split
    · exact hv
    · exact hP i
  refine ⟨h.linked,?_,?_,?_,fun n call i m hn hm => ?_,fun k hk => ?_,fun r letter row now id hr => ?_,
    fun k hk hq => ?_⟩
  · rw [h.next]
    exact hworker (P := fun u => ∀ id, u.delivery = some id → id < s.queue.next) hs.ids hid
  · exact hworker (P := fun u => ∀ id m, u.Carries id m → ∀ m', t.queue.Holds id m' → m' = m)
      (fun i id m hc m' hm => hs.messages i id m hc m' (h.fresh id m' hm))
      (fun id m hc m' hm => hcarry id m hc m' (h.fresh id m' hm))
  · exact hworker (P := fun u => ∀ id m row now, u = .loaded id m row now → ∀ e ∈ row, e.eventId = m.eventId)
      hs.loaded hrow
  · exact h.rows _ (hs.recorded n call i m (h.requests ▸ hn) hm)
  · exact h.rows k (hs.announced k (h.announced ▸ hk))
  · rw [h.replayers] at hr
    obtain ⟨m,hm,hk,hw⟩ := hs.published r letter row now id hr
    exact ⟨m,h.holds id m hm (hw w).promising,hk,
      hworker (P := Worker.Unread id) hw (hunread r letter row now id hr (hw w))⟩
  · rw [h.announced] at hk
    obtain ⟨id,m,hm,hid,hw⟩ := hs.queued k hk (h.status k hk hq)
    exact ⟨id,m,h.holds id m hm (hw w),hid,
      hworker (P := Worker.Promising id) hw (hpromise k hk hq id m hm hid (hw w))⟩

/-- A worker's own step. -/
theorem worker_delivering (hs : s.Delivering) {w : ℕ} {b : WorkerAction} (hno : NoEarlyRead s (.worker w b))
    (h : step rt settings s (.worker w b) = some t) : t.Delivering := by
  have hlinked := step_linked hs.linked h
  obtain ⟨⟨v,q⟩,hp,rfl⟩ := Option.map_eq_some_iff.mp h
  cases hw : s.workers w with
  | idle =>
    rw [hw] at hp
    cases b with
    | receive id =>
      obtain ⟨⟨m,q'⟩,hr,hp⟩ := Option.map_eq_some_iff.mp hp
      cases hp
      obtain ⟨hm,rfl⟩ := Delivery.Queue.receive_eq hr
      refine hs.works (w := w) (v := .received id m s.clock) ⟨hlinked,fun _ hk => hk,fun _ _ hq => hq,rfl,
        fun _ _ hm _ => Delivery.Queue.holds_mark.mpr hm,fun _ _ hm => Delivery.Queue.holds_mark.mp hm,
        rfl,rfl,rfl,rfl⟩ ?_ ?_ (by rintro _ _ _ _ ⟨⟩) (fun _ _ _ _ _ _ _ => trivial)
        (fun _ _ _ _ _ _ _ _ => trivial)
      · rintro _ ⟨⟩
        exact hm.lt_next
      · rintro _ _ ⟨rfl,rfl⟩ m' hm'
        exact hm'.unique hm
    | handle | read | raise | ack | nack => cases hp
  | received id m since =>
    rw [hw] at hp
    have hlt := hs.ids w id (by rw [hw]; rfl)
    have hmsg := hs.messages w id m (by rw [hw]; exact ⟨rfl,rfl⟩)
    cases b with
    | handle =>
      cases hp
      refine hs.works (w := w) (v := .received id m s.clock) ⟨hlinked,
        fun _ hk => hk,fun _ _ hq => hq,rfl,fun _ _ hm _ => hm,fun _ _ hm => hm,rfl,rfl,rfl,rfl⟩
        ?_ ?_ (by rintro _ _ _ _ ⟨⟩) (fun _ _ _ _ _ _ _ => trivial) (fun _ _ _ _ _ _ _ _ => trivial)
      · rintro _ ⟨⟩
        exact hlt
      · rintro _ _ ⟨rfl,rfl⟩
        exact hmsg
    | read =>
      cases hp
      refine hs.works (w := w) (v := .loaded id m (s.ledger.getEvent m.eventId) since) ⟨hlinked,
        fun _ hk => hk,fun _ _ hq => hq,rfl,fun _ _ hm _ => hm,fun _ _ hm => hm,rfl,rfl,rfl,rfl⟩
        ?_ ?_ ?_ ?_ ?_
      · rintro _ ⟨⟩
        exact hlt
      · rintro _ _ ⟨rfl,rfl⟩
        exact hmsg
      · rintro _ _ _ _ ⟨⟩ e he
        exact Ledger.getEvent_eventId he
      · rintro r letter row now id' hr _ rfl
        exact hno _ m since hw r letter row now hr
      · rintro k _ hq id' m' hm' rfl _ rfl
        obtain rfl := hmsg m' hm'
        exact Option.map_eq_some_iff.mp hq
    | raise =>
      cases hp
      refine hs.works (w := w) (v := .failed id) ⟨hlinked,
        fun _ hk => hk,fun _ _ hq => hq,rfl,fun _ _ hm _ => hm,fun _ _ hm => hm,rfl,rfl,rfl,rfl⟩
        ?_ (by rintro _ _ ⟨⟩) (by rintro _ _ _ _ ⟨⟩) (fun _ _ _ _ _ _ _ => trivial)
        (fun _ _ _ _ _ _ _ _ => trivial)
      rintro _ ⟨⟩
      exact hlt
    | receive | ack | nack => cases hp
  | loaded id m row now =>
    rw [hw] at hp
    have hlt := hs.ids w id (by rw [hw]; rfl)
    cases b with
    | raise =>
      cases hp
      refine hs.works (w := w) (v := .failed id) ⟨hlinked,
        fun _ hk => hk,fun _ _ hq => hq,rfl,fun _ _ hm _ => hm,fun _ _ hm => hm,rfl,rfl,rfl,rfl⟩
        ?_ (by rintro _ _ ⟨⟩) (by rintro _ _ _ _ ⟨⟩) (fun _ _ _ _ _ _ _ => trivial)
        (fun _ _ _ _ _ _ _ _ => trivial)
      rintro _ ⟨⟩
      exact hlt
    | receive | handle | read | ack | nack => cases hp
  | done id =>
    rw [hw] at hp
    cases b with
    | ack =>
      cases hp
      refine hs.works (w := w) (v := .idle) ⟨hlinked,fun _ hk => hk,fun _ _ hq => hq,rfl,
        fun id' m hm hprom => ?_,fun _ _ hm => (Delivery.Queue.holds_ack.mp hm).1,rfl,rfl,rfl,rfl⟩
        (by rintro _ ⟨⟩) (by rintro _ _ ⟨⟩) (by rintro _ _ _ _ ⟨⟩) (fun _ _ _ _ _ _ _ => trivial)
        (fun _ _ _ _ _ _ _ _ => trivial)
      rw [hw] at hprom
      exact Delivery.Queue.holds_ack.mpr ⟨hm,fun heq => hprom heq.symm⟩
    | receive | handle | read | raise | nack => cases hp
  | failed id =>
    rw [hw] at hp
    cases b with
    | nack =>
      cases hp
      exact hs.works (w := w) (v := .idle) ⟨hlinked,fun _ hk => hk,fun _ _ hq => hq,rfl,
        fun _ _ hm _ => Delivery.Queue.holds_release.mpr hm,
        fun _ _ hm => Delivery.Queue.holds_release.mp hm,rfl,rfl,rfl,rfl⟩
        (by rintro _ ⟨⟩) (by rintro _ _ ⟨⟩) (by rintro _ _ _ _ ⟨⟩) (fun _ _ _ _ _ _ _ => trivial)
        (fun _ _ _ _ _ _ _ _ => trivial)
    | receive | handle | read | raise | ack => cases hp

/-- One more event is announced, whose message nobody has read the row for. -/
theorem Delivering.announce (hs : s.Delivering) {k : String} (hk : (s.ledger.getEvent k).isSome)
    (hmsg : ∃ id m, s.queue.Holds id m ∧ m.eventId = k ∧ ∀ w, (s.workers w).Promising id) :
    { s with announced := s.announced ++ [k] }.Delivering := by
  refine ⟨⟨hs.linked.rows,hs.linked.letters,hs.linked.uploaders,hs.linked.replayers⟩,hs.ids,hs.messages,
    hs.loaded,hs.recorded,fun j hj => ?_,hs.published,fun j hj hq => ?_⟩
  · rcases List.mem_append.mp hj with hj | hj
    · exact hs.announced j hj
    · rwa [List.mem_singleton.mp hj]
  · rcases List.mem_append.mp hj with hj | hj
    · exact hs.queued j hj hq
    · rwa [List.mem_singleton.mp hj]

theorem Commits.keeps_row {who : Process} {tx : Transaction} {reply : Reply} (hs : s.Linked)
    (hc : Commits rt settings s t who tx reply) {k : String} (hk : (s.ledger.getEvent k).isSome) :
    (t.ledger.getEvent k).isSome := by
  obtain ⟨e,he⟩ := Option.isSome_iff_exists.mp hk
  obtain ⟨e',he',_⟩ := Transaction.commit_identity (hs.known hc.transaction) (hs.paired hc.transaction)
    hc.commit he
  rw [he']
  rfl

/-- A row that is QUEUED after a commit was QUEUED before, unless a replay wrote it. -/
theorem Commits.was_queued {who : Process} {tx : Transaction} {reply : Reply} (hs : s.Linked)
    (hc : Commits rt settings s t who tx reply) {k : String} (hk : (s.ledger.getEvent k).isSome)
    (hq : t.status k = some .queued) : s.status k = some .queued ∨
      ∃ letter e now, tx = .replay letter (some e) now ∧ e.eventId = k ∧ e.status = .deadLettered ∧
        letter.replayedAt = none := by
  obtain ⟨e,he⟩ := Option.isSome_iff_exists.mp hk
  rcases hc.row hs he with hsame | ⟨hkey,final,hchange,hget⟩
  · refine Or.inl ?_
    rwa [status, hsame, ← he] at hq
  · rw [status, hget, Option.map_some, Option.some.injEq] at hq
    have hclaim : ∀ st ids now, tx = .claim st ids now → e = tx.session.event e := by
      rintro st ids now rfl
      rfl
    rcases hchange.queued hclaim hq with hold | ⟨letter,loaded,now,rfl,hd,hr⟩
    · exact Or.inl (by rw [status, he, Option.map_some, hold])
    · refine Or.inr ?_
      cases loaded with
      | none => cases hkey
      | some b =>
        obtain rfl : k = b.eventId := by simpa [Transaction.keys,Transaction.session] using hkey
        have hobject : (Transaction.replay letter (some b) now).session.event e = b :=
          Session.event_of_mem (hs.known hc.transaction).distinct (by simp [Transaction.session])
            (Ledger.getEvent_eventId he)
        exact ⟨letter,b,now,rfl,rfl,hobject ▸ hd,hr⟩

/-- The commit of a worker: if it had read the row as QUEUED, it is not any more. -/
theorem commit_worker_delivering (hs : s.Delivering) {w : ℕ}
    (h : step rt settings s (.commit (.worker w)) = some t) : t.Delivering := by
  have hlinked := step_linked hs.linked h
  obtain ⟨tx,reply,hc⟩ := step_commit h
  have htx := hc.transaction
  simp only [transaction, Worker.transaction] at htx
  split at htx
  · next id m row now hw =>
    cases htx
    have hafter := hc.after
    simp only [committed, hw, Worker.committed] at hafter
    have hstatus : ∀ k ∈ s.announced, t.status k = some .queued → s.status k = some .queued := by
      intro k hk hq
      rcases hc.was_queued hs.linked (hs.announced k hk) hq with hold | ⟨_,_,_,htx,_⟩
      · exact hold
      · cases htx
    refine hs.works (w := w) (v := .done id) ⟨hlinked,fun _ hk => hc.keeps_row hs.linked hk,hstatus,
      by rw [hafter],fun _ _ hm _ => by rwa [hafter],fun _ _ hm => by rwa [hafter] at hm,by rw [hafter],
      by rw [hafter],by rw [hafter],by rw [hafter]⟩ ?_ (by rintro _ _ ⟨⟩) (by rintro _ _ _ _ ⟨⟩) ?_ ?_
    · rintro _ ⟨⟩
      exact hs.ids w id (by rw [hw]; rfl)
    · intro r letter row' now' id' _ hun
      rw [hw] at hun
      exact hun
    · rintro k hk hq id' m' hm' rfl hprom rfl
      rw [hw] at hprom
      obtain ⟨e,rfl,he⟩ := hprom rfl
      obtain rfl := hs.messages w id m (by rw [hw]; exact ⟨rfl,rfl⟩) m' hm'
      have hkey := hs.loaded w id m' _ now hw e rfl
      obtain ⟨current,hcur⟩ := Option.isSome_iff_exists.mp (hs.announced _ hk)
      rw [← hkey] at hcur hq
      obtain ⟨final,reason,hp,hget⟩ := hc.processed hs.linked he hcur
      have hfinal : final.status ≠ .queued := by cases hp <;> simp [Event.moved,Event.processedWith]
      rw [status, hget, Option.map_some, Event.merge_status, pick_of_ne (by rwa [he]),
        Option.some.injEq] at hq
      exact hfinal hq
  · cases htx

/-- The commit of a replay: its message is still there, and nobody has read the row
for it. -/
theorem commit_replayer_delivering (hs : s.Delivering) {r : ℕ}
    (h : step rt settings s (.commit (.replayer r)) = some t) : t.Delivering := by
  have hlinked := step_linked hs.linked h
  obtain ⟨tx,reply,hc⟩ := step_commit h
  have hafter := hc.after
  simp only [committed] at hafter
  obtain ⟨letter,row,now,rfl,hphase⟩ : ∃ letter row now, tx = .replay letter row now ∧
      ((s.replayers r = .loaded letter row now ∧ replayMessage letter row now = none) ∨
        ∃ id, s.replayers r = .published letter row now id) := by
    have htx := hc.transaction
    simp only [transaction, Replayer.transaction] at htx
    split at htx
    · next letter row now hr =>
      split at htx
      · next hn =>
        cases htx
        exact ⟨letter,row,now,rfl,Or.inl ⟨hr,hn⟩⟩
      · cases htx
    · next letter row now id hr =>
      cases htx
      exact ⟨letter,row,now,rfl,Or.inr ⟨id,hr⟩⟩
    · cases htx
  have hreply : reply = .replayed (replayMessage letter row now) := by
    obtain ⟨out,hb,_⟩ := Transaction.commit_ok.mp hc.commit
    obtain ⟨⟨db,m⟩,hm,hb⟩ := Outcome.bind_ok.mp hb
    cases hb
    rw [replay_message hm]
  -- a replay with something to publish has published it
  have hpublished {e : Event} (hrow : row = some e) (hm : replayMessage letter row now ≠ none) :
      ∃ id m', s.queue.Holds id m' ∧ m'.eventId = e.eventId ∧ ∀ w, (s.workers w).Promising id := by
    rcases hphase with ⟨_,hn⟩ | ⟨id,hr⟩
    · exact absurd hn hm
    · obtain ⟨m',hm',hk,hw⟩ := hs.published r letter row now id hr
      have hpair : letter.eventId = e.eventId := by
        refine hs.linked.replayers r letter ?_ e ?_ <;> rw [hr]
        · exact List.mem_singleton_self _
        · rw [hrow]
          exact List.mem_singleton_self _
      exact ⟨id,m',hm',hk.trans hpair,fun w => (hw w).promising⟩
  have hqueue : t.queue = s.queue := by rw [hafter]
  have hworkers : t.workers = s.workers := by rw [hafter]
  have hmessage {k : String} (hk : k ∈ announcement reply) :
      ∃ e, row = some e ∧ replayMessage letter row now ≠ none ∧ e.eventId = k := by
    rw [hreply] at hk
    cases row with
    | none => cases hk
    | some e =>
      cases hm : replayMessage letter (some e) now with
      | none =>
        rw [hm] at hk
        cases hk
      | some m =>
        rw [hm] at hk
        obtain rfl := List.mem_singleton.mp hk
        refine ⟨e,rfl,by simp,?_⟩
        simp only [replayMessage] at hm
        split at hm
        · cases hm
          rfl
        · cases hm
  refine ⟨hlinked,?_,?_,?_,fun n call i m hn hm => ?_,fun k hk => ?_,fun r' letter' row' now' id' hr => ?_,
    fun k hk hq => ?_⟩
  · rw [hworkers, hqueue]
    exact hs.ids
  · rw [hworkers, hqueue]
    exact hs.messages
  · rw [hworkers]
    exact hs.loaded
  · rw [hafter] at hn
    exact hc.keeps_row hs.linked (hs.recorded n call i m hn hm)
  · rw [hafter] at hk
    rcases List.mem_append.mp hk with hk | hk
    · exact hc.keeps_row hs.linked (hs.announced k hk)
    · obtain ⟨e,hrow,_,rfl⟩ := hmessage hk
      have hmem : e ∈ s.rows (.replayer r) := by
        rw [← (transaction_session hc.transaction).1, hrow]
        exact List.mem_singleton_self _
      obtain ⟨current,hcur,_⟩ := hs.linked.rows _ e hmem
      exact hc.keeps_row hs.linked (by rw [hcur]; rfl)
  · rw [hworkers, hqueue]
    rw [hafter] at hr
    simp only [Function.update_apply] at hr
    split at hr
    · cases hr
    · exact hs.published r' letter' row' now' id' hr
  · rw [hworkers, hqueue]
    rw [hafter] at hk
    rcases List.mem_append.mp hk with hk | hk
    · rcases hc.was_queued hs.linked (hs.announced k hk) hq with hold | ⟨letter',e,now',htx,rfl,hd,hr⟩
      · exact hs.queued k hk hold
      · cases htx
        exact hpublished rfl (by simp [replayMessage,hd,hr])
    · obtain ⟨e,hrow,hm,rfl⟩ := hmessage hk
      exact hpublished hrow hm

/-- A step that touches neither the ledger nor the workers and at most adds messages. -/
theorem Quiet.of_queue (hl : t.Linked) (hledger : t.ledger = s.ledger) (hw : t.workers = s.workers)
    (hq : t.queue = s.queue ∨ (∃ m, t.queue = s.queue.publish m) ∨ ∃ id, t.queue = s.queue.release id) :
    s.Quiet t := by
  refine ⟨hl,fun k hk => by rwa [hledger],fun k _ hk => by rwa [System.status, hledger] at hk,?_,?_,?_,hw⟩ <;>
    rcases hq with hq | ⟨m,hq⟩ | ⟨id,hq⟩ <;> rw [hq]
  · exact Nat.le_succ _
  · exact le_refl _
  · exact fun _ _ hm => hm
  · exact fun _ _ hm => Delivery.Queue.holds_publish.mpr (Or.inl hm)
  · exact fun _ _ hm => Delivery.Queue.holds_release.mpr hm
  · exact fun _ _ hm => Or.inl hm
  · intro _ _ hm
    rcases Delivery.Queue.holds_publish.mp hm with hm | ⟨rfl,_⟩
    · exact Or.inl hm
    · exact Or.inr (le_refl _)
  · exact fun _ _ hm => Or.inl (Delivery.Queue.holds_release.mp hm)

theorem step_delivering (hs : s.Delivering) (hno : NoEarlyRead s a) (h : step rt settings s a = some t) :
    t.Delivering := by
  have hlinked := step_linked hs.linked h
  cases a with
  | tick now =>
    simp only [step, Option.ite_none_right_eq_some] at h
    cases h.2
    exact hs.quiet (.of_queue hlinked rfl rfl (Or.inl rfl)) hs.recorded (fun _ _ _ _ _ hr => Or.inl hr) rfl
  | expire id =>
    cases h
    exact hs.quiet (.of_queue hlinked rfl rfl (Or.inr (Or.inr ⟨id,rfl⟩))) hs.recorded
      (fun _ _ _ _ _ hr => Or.inl hr) rfl
  | uploader n b =>
    obtain ⟨p,_,rfl⟩ := Option.map_eq_some_iff.mp h
    exact hs.quiet (.of_queue hlinked rfl rfl (Or.inl rfl)) hs.recorded (fun _ _ _ _ _ hr => Or.inl hr) rfl
  | worker w b => exact worker_delivering hs hno h
  | reconciler n b =>
    obtain ⟨⟨rest,q⟩,hp,rfl⟩ := Option.map_eq_some_iff.mp h
    refine hs.quiet (.of_queue hlinked rfl rfl ?_) hs.recorded (fun _ _ _ _ _ hr => Or.inl hr) rfl
    unfold reconcilerStep at hp
    split at hp <;> cases hp
    · exact Or.inl rfl
    · exact Or.inr (Or.inl ⟨_,rfl⟩)
  | replayer r b =>
    obtain ⟨⟨v,q⟩,hp,rfl⟩ := Option.map_eq_some_iff.mp h
    have hquiet (hq : q = s.queue ∨ (∃ m, q = s.queue.publish m) ∨ ∃ id, q = s.queue.release id)
        (hv : ∀ letter row now id, v = .published letter row now id → ∃ m, q.Holds id m ∧
          m.eventId = letter.eventId ∧ ∀ w, (s.workers w).Unread id) :
        { s with replayers := Function.update s.replayers r v, queue := q }.Delivering := by
      refine hs.quiet (.of_queue hlinked rfl rfl hq) hs.recorded (fun i letter row now id hr => ?_) rfl
      simp only [Function.update_apply] at hr
      split at hr
      · exact Or.inr (hv letter row now id hr)
      · exact Or.inl hr
    cases hr : s.replayers r <;> rw [hr] at hp <;> cases b <;> simp only [Replayer.step] at hp <;>
      try (cases hp; done)
    · obtain ⟨letter,_,hp⟩ := Option.map_eq_some_iff.mp hp
      cases hp
      exact hquiet (Or.inl rfl) (by rintro _ _ _ _ ⟨⟩)
    · cases hp
      exact hquiet (Or.inl rfl) (by rintro _ _ _ _ ⟨⟩)
    · next letter row now =>
      obtain ⟨m,hm,hp⟩ := Option.map_eq_some_iff.mp hp
      cases hp
      refine hquiet (Or.inr (Or.inl ⟨m,rfl⟩)) ?_
      rintro _ _ _ _ ⟨⟩
      refine ⟨m,Delivery.Queue.holds_publish.mpr (Or.inr ⟨rfl,rfl⟩),?_,hs.unread_next⟩
      obtain ⟨e,rfl,hid⟩ := replayMessage_event hm
      rw [hid]
      refine (hs.linked.replayers r letter ?_ e ?_).symm <;> rw [hr]
      · exact List.mem_singleton_self _
      · exact List.mem_singleton_self _
  | request n b =>
    obtain ⟨⟨v,q,pub⟩,hp,rfl⟩ := Option.map_eq_some_iff.mp h
    have hquiet (q : MessageQueue) (hq : q = s.queue ∨ (∃ m, q = s.queue.publish m) ∨
        ∃ id, q = s.queue.release id) (hv : ∀ call i, v ≠ .recorded call i) (published : List String) :
        { s with requests := Function.update s.requests n v, queue := q
                 published := published }.Delivering := by
      have hl : { s with requests := Function.update s.requests n v, queue := q
                         published := published }.Linked :=
        ⟨hs.linked.rows,hs.linked.letters,hs.linked.uploaders,hs.linked.replayers⟩
      refine hs.quiet (.of_queue hl rfl rfl hq) (fun i call ing m hi hm => ?_)
        (fun _ _ _ _ _ hr => Or.inl hr) rfl
      simp only [Function.update_apply] at hi
      split at hi
      · exact absurd hi (hv call ing)
      · exact hs.recorded i call ing m hi hm
    have hsilent (hv : ∀ call i, v ≠ .recorded call i) (hq : q = s.queue) (hpub : pub = none) :
        { s with requests := Function.update s.requests n v, queue := q
                 published := s.published ++ pub.toList
                 announced := s.announced ++ pub.toList }.Delivering := by
      subst hq hpub
      simp only [Option.toList_none, List.append_nil]
      exact hquiet _ (Or.inl rfl) hv _
    cases hn : s.requests n <;> rw [hn] at hp <;> cases b <;> simp only [Request.step] at hp <;>
      try (cases hp; done)
    · cases hp
      exact hsilent (by simp) rfl rfl
    · split at hp
      · cases hp
        exact hsilent (by simp) rfl rfl
      · cases hp
    · next call i =>
      obtain ⟨m,hm,hp⟩ := Option.map_eq_some_iff.mp hp
      cases hp
      refine (hquiet (s.queue.publish m) (Or.inr (Or.inl ⟨m,rfl⟩)) (by simp) _).announce
        (hs.recorded n call i m hn hm) ⟨s.queue.next,m,?_,rfl,fun w => (hs.unread_next w).promising⟩
      exact Delivery.Queue.holds_publish.mpr (Or.inr ⟨rfl,rfl⟩)
    · obtain ⟨m,_,hp⟩ := Option.map_eq_some_iff.mp hp
      cases hp
      exact hsilent (by simp) rfl rfl
    · split at hp
      · cases hp
        exact hsilent (by simp) rfl rfl
      · cases hp
  | crash who =>
    cases h
    cases who with
    | worker w =>
      exact hs.works (w := w) (v := .idle) ⟨hlinked,fun _ hk => hk,fun _ _ hq => hq,rfl,
        fun _ _ hm _ => hm,fun _ _ hm => hm,rfl,rfl,rfl,rfl⟩
        (by rintro _ ⟨⟩) (by rintro _ _ ⟨⟩) (by rintro _ _ _ _ ⟨⟩) (fun _ _ _ _ _ _ _ => trivial)
        (fun _ _ _ _ _ _ _ _ => trivial)
    | uploader n =>
      exact hs.quiet (.of_queue hlinked rfl rfl (Or.inl rfl)) hs.recorded
        (fun _ _ _ _ _ hr => Or.inl hr) rfl
    | reconciler n =>
      exact hs.quiet (.of_queue hlinked rfl rfl (Or.inl rfl)) hs.recorded
        (fun _ _ _ _ _ hr => Or.inl hr) rfl
    | replayer n =>
      refine hs.quiet (.of_queue hlinked rfl rfl (Or.inl rfl)) hs.recorded
        (fun i letter row now id hr => Or.inl ?_) rfl
      simp only [crash, Function.update_apply] at hr
      split at hr
      · cases hr
      · exact hr
    | request n =>
      refine hs.quiet (.of_queue hlinked rfl rfl (Or.inl rfl)) (fun i call ing m hi hm => ?_)
        (fun _ _ _ _ _ hr => Or.inl hr) rfl
      simp only [crash, Function.update_apply] at hi
      split at hi
      · cases hn : s.requests n <;> rw [hn] at hi <;> cases hi
      · exact hs.recorded i call ing m hi hm
  | commit who =>
    cases who with
    | worker w => exact commit_worker_delivering hs h
    | replayer r => exact commit_replayer_delivering hs h
    | uploader n =>
      obtain ⟨tx,reply,hc⟩ := step_commit h
      have hafter := hc.after
      simp only [committed] at hafter
      refine hs.quiet ⟨hlinked,fun _ hk => hc.keeps_row hs.linked hk,fun k hk hq => ?_,by rw [hafter],
        fun _ _ hm => by rwa [hafter],fun _ _ hm => Or.inl (by rwa [hafter] at hm),by rw [hafter]⟩
        (fun i call ing m hi hm => ?_) (fun i letter row now id hr => Or.inl (by rwa [hafter] at hr))
        (by rw [hafter])
      · rcases hc.was_queued hs.linked (hs.announced k hk) hq with hold | ⟨_,_,_,rfl,_⟩
        · exact hold
        · rcases Uploader.transaction_cases hc.transaction with ⟨_,_,_,htx⟩ | ⟨_,_,_,_,_,_,_,_,htx⟩ |
            ⟨_,_,_,_,_,htx⟩ | ⟨_,_,_,_,_,htx⟩ <;> cases htx
      · rw [hafter] at hi
        exact hc.keeps_row hs.linked (hs.recorded i call ing m hi hm)
    | reconciler n =>
      obtain ⟨tx,reply,hc⟩ := step_commit h
      cases hc.transaction
    | request n =>
      obtain ⟨tx,reply,hc⟩ := step_commit h
      have hafter := hc.after
      simp only [committed] at hafter
      have htx := hc.transaction
      simp only [transaction, Request.transaction] at htx
      split at htx
      · next call hn =>
        cases htx
        obtain ⟨ing,rfl,_,hing⟩ := hc.ingest
        refine hs.quiet ⟨hlinked,fun _ hk => hc.keeps_row hs.linked hk,fun k hk hq => ?_,by rw [hafter],
          fun _ _ hm => by rwa [hafter],fun _ _ hm => Or.inl (by rwa [hafter] at hm),by rw [hafter]⟩
          (fun i call' ing' m hi hm => ?_) (fun i letter row now id hr => Or.inl (by rwa [hafter] at hr))
          (by rw [hafter])
        · rcases hc.was_queued hs.linked (hs.announced k hk) hq with hold | ⟨_,_,_,htx,_⟩
          · exact hold
          · cases htx
        · rw [hafter] at hi
          simp only [Function.update_apply, hn, Request.committed] at hi
          split at hi
          · cases hi
            rcases hing with ⟨_,hnone,_⟩ | ⟨x,_,_,_,hget,hmsg⟩
            · rw [hnone] at hm
              cases hm
            · rw [hget, (hmsg m hm).1, if_pos rfl]
              rfl
          · exact hc.keeps_row hs.linked (hs.recorded i call' ing' m hi hm)
      · cases htx

/-- In every run in which no worker reads the row for the message of a replay before
the replay has committed, each QUEUED event that was announced has a message. -/
theorem run_delivers (rt : Runtime) (settings : ℕ → Settings) (db : Ledger) (actions : List Action)
    (s : System) (h : run rt settings (start db) actions = some s)
    (hno : Machine.Along (step rt settings) NoEarlyRead (start db) actions) :
    ∀ e ∈ s.ledger.events.rows, e.status = .queued → e.eventId ∈ s.announced →
      ∃ id m, s.queue.Holds id m ∧ m.eventId = e.eventId := by
  have hs : s.Delivering := Machine.run_inv Delivering (fun _ _ _ hs hc hst => step_delivering hs hc hst)
    (start_delivering db) hno h
  intro e he hq hann
  have hget : s.ledger.getEvent e.eventId = some e := Relational.Table.get_of_mem he
  obtain ⟨id,m,hm,hid,_⟩ := hs.queued e.eventId hann (by rw [status, hget, Option.map_some, hq])
  exact ⟨id,m,hm,hid⟩

/-- Replays that have not started publish nothing. -/
theorem run_replayers_idle {db : Ledger} {actions : List Action}
    (h : run rt settings (start db) actions = some s) (hno : ∀ a ∈ actions, ∀ r b, a ≠ .replayer r b) :
    ∀ r, s.replayers r = .idle := by
  have hnone : Machine.Along (step rt settings) (fun _ a => ∀ r b, a ≠ .replayer r b) (start db) actions := by
    rintro pre a post t rfl _
    exact hno a (by simp)
  refine Machine.run_inv (fun s : System => ∀ r, s.replayers r = .idle) ?_ (fun _ => rfl) hnone h
  intro s a t hs ha hst r
  cases a with
  | replayer i b => exact absurd rfl (ha i b)
  | tick now =>
    simp only [step, Option.ite_none_right_eq_some] at hst
    cases hst.2
    exact hs r
  | expire id =>
    cases hst
    exact hs r
  | request n b | worker n b | uploader n b | reconciler n b =>
    obtain ⟨p,_,rfl⟩ := Option.map_eq_some_iff.mp hst
    exact hs r
  | commit who =>
    obtain ⟨tx,reply,hc⟩ := step_commit hst
    rw [hc.after]
    cases who <;> simp [committed,hs,Function.update_apply]
  | crash who =>
    cases hst
    cases who <;> simp [crash,hs,Function.update_apply]

/-- The condition holds where all reads come before the first replay. -/
theorem along_noEarlyRead {db : Ledger} {pre post : List Action}
    (hpre : ∀ a ∈ pre, ∀ r b, a ≠ .replayer r b) (hpost : ∀ a ∈ post, ∀ w, a ≠ .worker w .read) :
    Machine.Along (step rt settings) NoEarlyRead (start db) (pre ++ post) := by
  intro p a q t heq ht
  unfold NoEarlyRead
  split
  · next w =>
    rcases List.append_eq_append_iff.mp heq with ⟨rest,_,rfl⟩ | ⟨rest,rfl,_⟩
    · exact absurd rfl (hpost _ (by simp) w)
    · intro id m since _ r letter row now hr
      rw [run_replayers_idle ht (fun b hb => hpre b (by simp [hb])) r] at hr
      cases hr
  · trivial

/-- One event to the dead-letter store. -/
def buryOnce : List Action :=
  uploadOnce.take 6 ++ [.worker 0 .ack, .uploader 0 .begin, .uploader 0 (.select ["hubspot:1"]),
    .commit (.uploader 0), .uploader 0 .send, .uploader 0 (.finish (.permanent "http_401")),
    .uploader 0 .load, .commit (.uploader 0)]

/-- A replay of its record, up to the publication. -/
def replayOnce : List Action := [.replayer 0 (.pick 1 0), .replayer 0 .load, .replayer 0 .publish]

/-- The theorem at a replay whose message waits until it has committed. -/
theorem run_delivers_replay : ∃ (s : System) (e : Event),
    run (clickRuntime 1704067200000) (fun _ => .single) (start Ledger.empty)
      (buryOnce ++ (replayOnce ++ [.commit (.replayer 0)])) = some s ∧ e ∈ s.ledger.events.rows ∧
    e.status = .queued ∧ ∃ id m, s.queue.Holds id m ∧ m.eventId = e.eventId := by
  have h : (run (clickRuntime 1704067200000) (fun _ => .single) (start Ledger.empty)
      (buryOnce ++ (replayOnce ++ [.commit (.replayer 0)]))).map
      (fun s => (s.ledger.events.rows.map fun e => (e.eventId,e.status),s.announced)) =
      some ([("hubspot:1",.queued)],["hubspot:1","hubspot:1"]) := by decide +kernel
  obtain ⟨s,hs,hview⟩ := Option.map_eq_some_iff.mp h
  obtain ⟨hrows,hann⟩ := Prod.mk.inj hview
  obtain ⟨e,he,hcols⟩ := List.mem_map.mp (hrows ▸ List.mem_singleton_self ("hubspot:1",EventStatus.queued))
  obtain ⟨hid,hq⟩ := Prod.mk.inj hcols
  exact ⟨s,e,hs,he,hq,run_delivers _ _ _ _ s hs
    (along_noEarlyRead (by simp [buryOnce,uploadOnce]) (by simp [replayOnce])) e he hq
    (by simp [hid,hann])⟩

/-- A worker takes the message of a replay that has not committed: it finds the row
DEAD_LETTERED and acknowledges, and then the row becomes QUEUED. -/
theorem not_delivers_earlyRead : ∃ (s : System) (e : Event),
    run (clickRuntime 1704067200000) (fun _ => .single) (start Ledger.empty)
      (buryOnce ++ replayOnce ++ [.worker 0 (.receive 1), .worker 0 .read, .commit (.worker 0),
        .worker 0 .ack, .commit (.replayer 0)]) = some s ∧ e ∈ s.ledger.events.rows ∧
    e.status = .queued ∧ e.eventId ∈ s.announced ∧
    ¬ ∃ id m, s.queue.Holds id m ∧ m.eventId = e.eventId := by
  have h : (run (clickRuntime 1704067200000) (fun _ => .single) (start Ledger.empty)
      (buryOnce ++ replayOnce ++ [.worker 0 (.receive 1), .worker 0 .read, .commit (.worker 0),
        .worker 0 .ack, .commit (.replayer 0)])).map
      (fun s => (s.ledger.events.rows.map fun e => (e.eventId,e.status),s.announced,
        s.queue.envelopes.length)) =
      some ([("hubspot:1",.queued)],["hubspot:1","hubspot:1"],0) := by decide +kernel
  obtain ⟨s,hs,hview⟩ := Option.map_eq_some_iff.mp h
  obtain ⟨hrows,hview⟩ := Prod.mk.inj hview
  obtain ⟨hann,hempty⟩ := Prod.mk.inj hview
  obtain ⟨e,he,hcols⟩ := List.mem_map.mp (hrows ▸ List.mem_singleton_self ("hubspot:1",EventStatus.queued))
  obtain ⟨hid,hq⟩ := Prod.mk.inj hcols
  refine ⟨s,e,hs,he,hq,by simp [hid,hann],?_⟩
  rintro ⟨id,m,⟨envelope,hmem,_⟩,_⟩
  rw [List.length_eq_zero_iff.mp hempty] at hmem
  cases hmem

end System
end ConversionGateway
