import ConversionGateway.Concurrency.Filing
import ConversionGateway.Lifecycle.Uploadable
import ConversionGateway.System.Recovery
import ConversionGateway.System.Links

/-! # What is sent again

Ingest, worker, uploader and replays, one transaction at a time. A message may be
delivered any number of times and as late as it likes, and a batch may be any of the
items that were ever claimed. All that a conversion says of its event is fixed with
the digests of its row.
-/
namespace ConversionGateway
open Relational EventStatus

/-- The ledger, and all that was ever published, claimed and passed to the client. -/
structure Traffic where
  ledger : Ledger
  published : List QueueMessage
  claimed : List Claimed
  sent : List (List Json)

/-- Messages and claimed items are named by their numbers. -/
inductive TrafficAction
  | ingest (source : Source) (body : ByteArray) (correlationId : CorrelationId) (now : Time)
  | deliver (message : ℕ) (now : Time)
  | claim (st : Settings) (selected : List String) (now : Time)
  | send (batch : List ℕ)
  | retry (batch : List ℕ) (reason : String) (stamps : List Time)
  | apply (batch : List ℕ) (rows : List RowResult) (now : Time)
  | bury (batch : List ℕ) (failure : BatchFailure) (now : Time)
  | replay (id : ℕ) (now : Time)
  /-- A transaction fails and leaves unused sequence numbers behind. -/
  | abort (transitionIds letterIds : ℕ)
  /-- A replay fails after it has published its message. -/
  | abandon (id : ℕ) (now : Time)

/-- The messages that go out with a transaction. -/
def Reply.messages : Reply → List QueueMessage
  | ingested i => i.message.toList
  | replayed m => m.toList
  | _ => []

namespace Traffic

def start : Traffic := ⟨Ledger.empty,[],[],[]⟩

/-- What a commit adds. -/
def extend (t : Traffic) (db : Ledger) (messages : List QueueMessage) (items : List Claimed) : Traffic :=
  { t with ledger := db, published := t.published ++ messages, claimed := t.claimed ++ items }

def batch (t : Traffic) (items : List ℕ) : List Claimed := items.filterMap fun i => t.claimed[i]?

/-- The operation of an action, if it is one: claims are for the one customer and
select each row once. -/
def operation (rt : Runtime) (customerId : String) (t : Traffic) : TrafficAction → Option Operation
  | .ingest source body correlationId now =>
    some (.ingest source (planIngest rt source body correlationId) correlationId now)
  | .deliver i now => t.published[i]?.map fun m => .process m now
  | .claim st selected now =>
    if st.adsCustomerId = customerId ∧ selected.Nodup then some (.claim st selected now) else none
  | .retry items reason stamps => some (.retry (batchIds (t.batch items)) reason stamps)
  | .apply items rows now => some (.apply (t.batch items) rows now)
  | .bury items failure now => some (.bury (t.batch items) failure now)
  | .replay id now => some (.replay id now)
  | .send _ | .abort _ _ | .abandon _ _ => none

def step (rt : Runtime) (customerId : String) (t : Traffic) (a : TrafficAction) : Option Traffic :=
  match a with
  | .send items => some { t with sent := t.sent ++ [(t.batch items).map Claimed.conversion] }
  | .abort n m =>
    some { t with ledger := { t.ledger with
      transitions := t.ledger.transitions.skip n
      deadLetters := t.ledger.deadLetters.skip m } }
  | .abandon id now =>
    some (t.extend t.ledger ((t.ledger.getDeadLetter id).bind fun letter =>
      replayMessage letter (t.ledger.getEvent letter.eventId) now).toList [])
  | a => do
    let op ← t.operation rt customerId a
    let tx ← op.begin t.ledger
    match tx.commit rt t.ledger with
    | .error _ => none
    | .ok (db,reply) => some (t.extend db reply.messages reply.items)

abbrev run (rt : Runtime) (customerId : String) : Traffic → List TrafficAction → Option Traffic :=
  Machine.run (step rt customerId)

/-- A conversion that was built for the event: claimed, sent or put on record. -/
def Built (t : Traffic) (id : String) (conversion : Json) : Prop :=
  (∃ c ∈ t.claimed, c.eventId = id ∧ c.conversion = conversion) ∨
  (∃ batch ∈ t.sent, conversion ∈ batch ∧ conversion.orderId = some id) ∨
  ∃ d ∈ t.ledger.deadLetters.rows, d.eventId = id ∧ d.payload = conversion

end Traffic

section Rows
variable {rt : Runtime} {db db' : Ledger} {e x : Event} {k : String} {c : Json} {customerId : String}

/-- What the event is stays, and digests that are there stay. -/
structure Event.Settles (e x : Event) : Prop where
  identity : x.identity = e.identity
  digests : ∀ h, e.hashedIdentifiers = some h → x.hashedIdentifiers = some h

/-- No row is lost, and each keeps what it has. -/
def Ledger.Settles (db db' : Ledger) : Prop :=
  ∀ k e, db.getEvent k = some e → ∃ x, db'.getEvent k = some x ∧ e.Settles x

/-- The conversion is the one of the row, which has its digests. -/
def Ledger.Converts (rt : Runtime) (customerId : String) (db : Ledger) (k : String) (c : Json) : Prop :=
  ∃ e, db.getEvent k = some e ∧ e.hashedIdentifiers.isSome ∧ buildConversion rt e customerId = .ok c

theorem buildConversion_congr (hid : x.identity = e.identity) (hh : x.hashedIdentifiers = e.hashedIdentifiers) :
    buildConversion rt x customerId = buildConversion rt e customerId := by
  obtain ⟨hkey,_,_,_,ha,ht,hv,hcur,_,hclick,hu,hp⟩ := Event.identity_eq_iff.mp hid
  unfold buildConversion optionalFields identifierFields
  rw [hkey, ha, ht, hv, hcur, hclick, hu, hp, hh]

theorem Ledger.Converts.settles (h : db.Converts rt customerId k c) (hs : db.Settles db') :
    db'.Converts rt customerId k c := by
  obtain ⟨e,he,hd,hc⟩ := h
  obtain ⟨x,hx,hex⟩ := hs k e he
  obtain ⟨digests,hd⟩ := Option.isSome_iff_exists.mp hd
  have hsame := hex.digests digests hd
  refine ⟨x,hx,by rw [hsame]; rfl,?_⟩
  rw [buildConversion_congr hex.identity (hsame.trans hd.symm)]
  exact hc

theorem Ledger.Converts.unique {c' : Json} (h : db.Converts rt customerId k c) (h' : db.Converts rt customerId k c') :
    c = c' := by
  obtain ⟨e,he,_,hc⟩ := h
  obtain ⟨e',he',_,hc'⟩ := h'
  obtain rfl := Option.some.inj (he.symm.trans he')
  exact Except.ok.inj (hc.symm.trans hc')

/-- A claimed row was sendable. -/
theorem Event.ClaimedAs.sendable {now : Time} {reason : Option String} (h : e.ClaimedAs now x reason) :
    e.status.Sendable := by
  cases h with
  | attempt ha => exact sendable_of_allowed ha (by simp [Sendable]) (by simp)
  | reclaim hu => simp [hu,Sendable]

theorem Event.ClaimedAs.kept {now : Time} {reason : Option String} (h : e.ClaimedAs now x reason) :
    x.identity = e.identity ∧ x.hashedIdentifiers = e.hashedIdentifiers := by
  cases h <;> exact ⟨rfl,rfl⟩

/-- Only processing writes digests. -/
theorem Transaction.Change.kept {tx : Transaction} (h : tx.Change rt e x)
    (hp : ∀ message loaded now, tx ≠ .process message loaded now) :
    x.identity = e.identity ∧ x.hashedIdentifiers = e.hashedIdentifiers := by
  cases tx with
  | ingest source plan correlationId now => exact h.elim
  | process message loaded now => exact absurd rfl (hp message loaded now)
  | claim st selected now =>
    obtain ⟨y,reason,hy,hx⟩ := h
    cases hx with
    | refl => exact hy.kept
    | single hcut =>
      obtain ⟨_,reason,rfl⟩ := hcut
      exact hy.kept
  | retry ids loaded reason stamps => exact ⟨Event.Retried.identity h,Event.Retried.hashedIdentifiers h⟩
  | apply batch loaded rows now => exact ⟨Event.Settled.identity h,Event.Settled.hashedIdentifiers h⟩
  | bury batch loaded failure now => exact ⟨h.1.identity,h.1.hashedIdentifiers⟩
  | replay letter loaded now =>
    obtain ⟨_,_,rfl⟩ := h
    exact ⟨rfl,rfl⟩

/-- The verdict on a row without digests gives it none, or those of the message. -/
theorem verdict_digests {message : QueueMessage} (hn : e.hashedIdentifiers = none) {h : HashedIdentifiers}
    (hh : (e.verdict rt message).row.hashedIdentifiers = some h) :
    (buildUserIdentifiers rt message.identifiers).identifiers = h := by
  have hreuse : reusedDigests e message = none := by
    unfold reusedDigests
    split
    · exact hn
    · rfl
  unfold Event.verdict at hh
  rw [hreuse] at hh
  split at hh
  · simp [Event.moved,hn] at hh
  · dsimp only at hh
    split at hh
    · simp [Event.moved,hn] at hh
    · exact Option.some.inj hh

/-- The verdict of a message without identifiers, or with those of the digests, keeps
the digests that are there. -/
theorem verdict_settles {message : QueueMessage} (hm : ∀ h, e.hashedIdentifiers = some h →
      message.identifiers = .blank ∨ (buildUserIdentifiers rt message.identifiers).identifiers = h) :
    e.Settles (e.verdict rt message).row := by
  constructor
  · unfold Event.verdict
    split
    · rfl
    · split
      · rfl
      · dsimp only
        split <;> rfl
  · intro h hh
    unfold Event.verdict
    split
    · exact hh
    · split
      · next hashed hreuse =>
        unfold reusedDigests at hreuse
        split at hreuse
        · exact hreuse.symm.trans hh
        · cases hreuse
      · next hreuse =>
        dsimp only
        split
        · exact hh
        · rcases hm h hh with hblank | hsame
          · simp [reusedDigests,hblank,hh] at hreuse
          · exact congrArg some hsame

theorem load_keys (db : Ledger) (ids : List String) :
    (load db ids).map Event.eventId = ids.eraseDups.filter fun id => (db.getEvent id).isSome := by
  unfold load
  induction ids.eraseDups with
  | nil => rfl
  | cons id rest ih =>
    cases he : db.getEvent id with
    | none => simpa [he] using ih
    | some e => simpa [he,Ledger.getEvent_eventId he] using ih

/-- The worker leaves a row alone, or takes it to its verdict. -/
theorem processed_row (rt : Runtime) (message : QueueMessage) (now : Time) (he : db.getEvent k = some e) :
    ∃ x, (db.processed rt message now).getEvent k = some x ∧
      (x = e ∨ k = message.eventId ∧ x = (e.verdict rt message).row) := by
  by_cases hk : k = message.eventId
  · subst hk
    by_cases hq : e.status = queued
    · exact ⟨_,(processed_self rt now he hq).1,Or.inr ⟨rfl,rfl⟩⟩
    · refine ⟨e,?_,Or.inl rfl⟩
      rwa [processed_settled fun x hx => by rwa [Option.some.inj (hx.symm.trans he)]]
  · exact ⟨e,(processed_frame rt db now hk).1.trans he,Or.inl rfl⟩

/-- The row of a first delivery has no digests. -/
theorem enters_undigested {source : Source} {now : Time} {plan : IngestPlan} (h : plan.Enters source now e) :
    e.hashedIdentifiers = none := by
  cases plan with
  | raised e => exact h.elim
  | accept event =>
    obtain ⟨row,stored,hrow,hstored,rfl⟩ := h
    obtain ⟨_,_,hrow⟩ := Outcome.bind_ok.mp hrow
    obtain ⟨_,_,hrow⟩ := Outcome.bind_ok.mp hrow
    obtain ⟨v,t,rfl⟩ := hstored.columns
    rw [← Outcome.pure_ok.mp hrow]
    rfl
  | reject sourceEventId errors =>
    obtain ⟨id,stored,_,hstored,label,rfl⟩ := h
    have hnone : stored.hashedIdentifiers = none := by
      obtain ⟨v,t,rfl⟩ := hstored.columns
      rfl
    exact hnone

/-- The message of a replay has no identifiers, and its event is dead-lettered. -/
theorem replayMessage_blank {letter : DeadLetter} {event : Option Event} {now : Time} {m : QueueMessage}
    (h : replayMessage letter event now = some m) : m.identifiers = .blank ∧
      ∃ e, event = some e ∧ m.eventId = e.eventId ∧ e.status = deadLettered := by
  cases event with
  | none => cases h
  | some e =>
    simp only [replayMessage] at h
    split at h
    · next hopen =>
      cases h
      exact ⟨rfl,e,rfl,rfl,hopen.2⟩
    · cases h

end Rows

namespace Traffic
variable {rt : Runtime} {customerId : String} {t u : Traffic} {a : TrafficAction}

/-- Digests fit every message of their event; before there are any, all its messages
have the same identifiers. What was built was built of the rows as they are. -/
structure Steady (rt : Runtime) (customerId : String) (t : Traffic) : Prop where
  sound : ∀ k e, t.ledger.getEvent k = some e → e.Sound rt
  messages : ∀ m ∈ t.published, ∃ e, t.ledger.getEvent m.eventId = some e ∧
    (∀ h, e.hashedIdentifiers = some h →
      m.identifiers = .blank ∨ (buildUserIdentifiers rt m.identifiers).identifiers = h) ∧
    (e.hashedIdentifiers = none → ∀ m' ∈ t.published, m'.eventId = m.eventId → m'.identifiers = m.identifiers)
  claimed : ∀ c ∈ t.claimed, t.ledger.Converts rt customerId c.eventId c.conversion
  sent : ∀ batch ∈ t.sent, ∀ c ∈ batch, ∃ x ∈ t.claimed, x.conversion = c
  letters : ∀ d ∈ t.ledger.accounts, t.ledger.Converts rt customerId d.eventId d.payload

theorem start_steady : start.Steady rt customerId :=
  ⟨by rintro _ _ ⟨⟩,by rintro _ ⟨⟩,by rintro _ ⟨⟩,by rintro _ ⟨⟩,by rintro _ ⟨⟩⟩

/-- A message of an event that is new, or one without identifiers for an event that
has its digests. -/
def Welcome (t : Traffic) (db : Ledger) (new : List QueueMessage) : Prop :=
  ∀ m ∈ new, ∃ x, db.getEvent m.eventId = some x ∧
    (t.ledger.getEvent m.eventId = none ∧ new = [m] ∧ x.hashedIdentifiers = none ∨
      m.identifiers = .blank ∧ x.hashedIdentifiers.isSome)

theorem Steady.extend (hs : t.Steady rt customerId) {db : Ledger} {new : List QueueMessage} {items : List Claimed}
    (hsettles : t.ledger.Settles db) (hsound : ∀ k e, db.getEvent k = some e → e.Sound rt)
    (hdigests : ∀ m ∈ t.published, ∀ e x h, t.ledger.getEvent m.eventId = some e → e.hashedIdentifiers = none →
      db.getEvent m.eventId = some x → x.hashedIdentifiers = some h →
        (buildUserIdentifiers rt m.identifiers).identifiers = h)
    (hnew : t.Welcome db new) (hitems : ∀ c ∈ items, t.ledger.Converts rt customerId c.eventId c.conversion)
    (hletters : t.ledger.Files (fun d => t.ledger.Converts rt customerId d.eventId d.payload) db) :
    (t.extend db new items).Steady rt customerId ∧ t.ledger.Settles db := by
  refine ⟨⟨hsound,fun m hm => ?_,fun c hc => ?_,fun batch hb c hc => ?_,fun d hd => ?_⟩,hsettles⟩
  · rcases List.mem_append.mp hm with hm | hm
    · obtain ⟨e,he,hfit,hsame⟩ := hs.messages m hm
      obtain ⟨x,hx,hex⟩ := hsettles _ e he
      refine ⟨x,hx,fun h hh => ?_,fun hnone m' hm' hkey => ?_⟩
      · cases hd : e.hashedIdentifiers with
        | none => exact Or.inr (hdigests m hm e x h he hd hx hh)
        | some digests =>
          have hkept := hex.digests digests hd
          rw [hh] at hkept
          exact Option.some.inj hkept ▸ hfit digests hd
      · have hold : e.hashedIdentifiers = none := by
          cases hd : e.hashedIdentifiers with
          | none => rfl
          | some digests => exact absurd ((hex.digests digests hd).symm.trans hnone) (by simp)
        rcases List.mem_append.mp hm' with hm' | hm'
        · exact hsame hold m' hm' hkey
        · obtain ⟨x',hx',⟨habsent,_⟩ | ⟨_,hsome⟩⟩ := hnew m' hm'
          · rw [hkey, he] at habsent
            cases habsent
          · rw [hkey, hx] at hx'
            cases hx'
            rw [hnone] at hsome
            cases hsome
    · obtain ⟨x,hx,⟨habsent,hone,hnone⟩ | ⟨hblank,hsome⟩⟩ := hnew m hm
      · refine ⟨x,hx,fun h hh => absurd (hnone.symm.trans hh) (by simp),fun _ m' hm' hkey => ?_⟩
        rcases List.mem_append.mp hm' with hm' | hm'
        · obtain ⟨e,he,_⟩ := hs.messages m' hm'
          rw [hkey, habsent] at he
          cases he
        · rw [hone] at hm'
          rw [List.mem_singleton.mp hm']
      · refine ⟨x,hx,fun _ _ => Or.inl hblank,fun hnone => ?_⟩
        rw [hnone] at hsome
        cases hsome
  · rcases List.mem_append.mp hc with hc | hc
    · exact (hs.claimed c hc).settles hsettles
    · exact (hitems c hc).settles hsettles
  · obtain ⟨x,hx,heq⟩ := hs.sent batch hb c hc
    exact ⟨x,List.mem_append_left _ hx,heq⟩
  · rcases hletters.mem hd with hd | hd
    · exact (hs.letters d hd).settles hsettles
    · exact hd.settles hsettles

theorem settles_refl (db : Ledger) : db.Settles db := fun _ e he => ⟨e,he,rfl,fun _ h => h⟩

/-- Its rows are as the ledger has them, each once. -/
structure Opens (t : Traffic) (tx : Transaction) : Prop where
  fresh : tx.session.Fresh t.ledger
  paired : tx.Paired
  once : tx.keys.Nodup

theorem load_once (db : Ledger) (ids : List String) : ((load db ids).map Event.eventId).Nodup := by
  rw [load_keys]
  exact (nodup_eraseDups ids).filter _

theorem operation_opens {op : Operation} {tx : Transaction} (hop : t.operation rt customerId a = some op)
    (h : op.begin t.ledger = some tx) : t.Opens tx := by
  obtain ⟨hf,hp⟩ := begin_fresh op h
  refine ⟨hf,hp,?_⟩
  have hopt (k : String) : (((t.ledger.getEvent k).toList).map Event.eventId).Nodup := by
    cases t.ledger.getEvent k <;> simp
  cases a with
  | ingest source body correlationId now =>
    cases hop
    cases h
    exact List.nodup_nil
  | deliver i now =>
    obtain ⟨m,_,rfl⟩ := Option.map_eq_some_iff.mp hop
    cases h
    exact hopt _
  | claim st selected now =>
    simp only [operation] at hop
    split at hop
    · next hn =>
      cases hop
      cases h
      exact hn.2
    · cases hop
  | retry items reason stamps | apply items rows now | bury items failure now =>
    cases hop
    cases h
    exact load_once _ _
  | replay id now =>
    cases hop
    obtain ⟨letter,_,rfl⟩ := Option.map_eq_some_iff.mp h
    exact hopt _
  | send | abort | abandon => cases hop

theorem Steady.sound_after (hs : t.Steady rt customerId) {tx : Transaction} {db : Ledger} {reply : Reply}
    (ho : t.Opens tx) (hbody : tx.body rt t.ledger = .ok (db,reply)) : ∀ k e, db.getEvent k = some e → e.Sound rt :=
  Edits.inv (fun _ _ hi he => he.forall_rows (fun _ hc => hc.sound) (fun _ _ hr hs => hr.sound hs) hi) hs.sound
    (Transaction.body_edits ho.fresh ho.paired hbody)

/-- The transactions that write no digests and add no rows. -/
theorem rows_kept {tx : Transaction} {db : Ledger} {reply : Reply} (ho : t.Opens tx)
    (hi : ∀ source plan correlationId now, tx ≠ .ingest source plan correlationId now)
    (hp : ∀ message loaded now, tx ≠ .process message loaded now) (hbody : tx.body rt t.ledger = .ok (db,reply)) :
    ∀ k e, t.ledger.getEvent k = some e → ∃ x, db.getEvent k = some x ∧ x.identity = e.identity ∧
      x.hashedIdentifiers = e.hashedIdentifiers := by
  intro k e he
  have hw := Transaction.body_rewrites ho.fresh.events ho.once hi hbody
  by_cases hk : k ∈ tx.keys
  · obtain ⟨x,hx,hchange⟩ := hw.touch k e hk he
    cases hchange with
    | refl => exact ⟨e,hx,rfl,rfl⟩
    | single hchange => exact ⟨x,hx,hchange.kept hp⟩
  · exact ⟨e,(hw.frame k hk).trans he,rfl,rfl⟩

/-- What a claim builds it builds of rows with digests. -/
theorem Steady.converts (hs : t.Steady rt customerId) {k : String} {e x : Event} {now : Time} {reason : Option String}
    {c : Json} (he : t.ledger.getEvent k = some e) (hx : e.ClaimedAs now x reason)
    (hc : buildConversion rt x customerId = .ok c) : t.ledger.Converts rt customerId k c := by
  obtain ⟨hid,hh⟩ := hx.kept
  refine ⟨e,he,(hs.sound k e he).sendable hx.sendable,?_⟩
  rw [← hc]
  exact (buildConversion_congr hid hh).symm

/-- A commit that writes no digests keeps everything steady if what it publishes, hands
out and files is in order. -/
theorem Steady.commit (hs : t.Steady rt customerId) {tx : Transaction} {db : Ledger} {reply : Reply}
    (ho : t.Opens tx) (hi : ∀ source plan correlationId now, tx ≠ .ingest source plan correlationId now)
    (hp : ∀ message loaded now, tx ≠ .process message loaded now) (hbody : tx.body rt t.ledger = .ok (db,reply))
    (hmessages : t.ledger.Settles db → t.Welcome db reply.messages)
    (hitems : ∀ c ∈ reply.items, t.ledger.Converts rt customerId c.eventId c.conversion)
    (hletters : ∀ d, tx.Files rt t.ledger d → t.ledger.Converts rt customerId d.eventId d.payload) :
    (t.extend db reply.messages reply.items).Steady rt customerId ∧ t.ledger.Settles db := by
  have hrows := rows_kept ho hi hp hbody
  have hsettles : t.ledger.Settles db := by
    intro k e he
    obtain ⟨x,hx,hid,hh⟩ := hrows k e he
    exact ⟨x,hx,hid,fun h hd => hh.trans hd⟩
  refine hs.extend hsettles (hs.sound_after ho hbody) (fun m _ e x h he hnone hx hh => ?_) (hmessages hsettles) hitems
    ((body_files ho.once ho.fresh hbody).mono hletters)
  obtain ⟨x',hx',_,hsame⟩ := hrows _ e he
  obtain rfl := Option.some.inj (hx.symm.trans hx')
  rw [hsame, hnone] at hh
  cases hh

theorem mem_batch {items : List ℕ} {c : Claimed} (h : c ∈ t.batch items) : c ∈ t.claimed := by
  obtain ⟨i,_,hi⟩ := List.mem_filterMap.mp h
  exact List.mem_of_getElem? hi

theorem conversionOf_mem {batch : List Claimed} {k : String} (h : k ∈ batchIds batch) :
    ∃ c ∈ batch, c.eventId = k ∧ c.conversion = conversionOf batch k := by
  unfold conversionOf
  cases hfind : batch.reverse.find? fun c => c.eventId = k with
  | none =>
    obtain ⟨c,hc,hk⟩ := List.mem_map.mp h
    have hno := List.find?_eq_none.mp hfind c (List.mem_reverse.mpr hc)
    simp [hk] at hno
  | some c =>
    have hkey : c.eventId = k := by simpa using List.find?_some hfind
    exact ⟨c,List.mem_reverse.mp (List.mem_of_find?_eq_some hfind),hkey,rfl⟩

/-- A message that a replay publishes is welcome. -/
theorem Steady.welcomes (hs : t.Steady rt customerId) {letter : DeadLetter} {now : Time} {db : Ledger}
    (hsettles : t.ledger.Settles db) :
    t.Welcome db (replayMessage letter (t.ledger.getEvent letter.eventId) now).toList := by
  intro m hm
  obtain ⟨hblank,e,he,hkey,hdead⟩ := replayMessage_blank (Option.mem_toList.mp hm)
  have hid : m.eventId = letter.eventId := hkey.trans (Ledger.getEvent_eventId he)
  obtain ⟨x,hx,hex⟩ := hsettles _ e he
  obtain ⟨digests,hd⟩ := Option.isSome_iff_exists.mp ((hs.sound _ e he).sendable (by simp [hdead,Sendable]))
  refine ⟨x,hid ▸ hx,Or.inr ⟨hblank,?_⟩⟩
  rw [hex.digests digests hd]
  rfl

theorem ingest_steady (hs : t.Steady rt customerId) {source : Source} {plan : IngestPlan} {correlationId : CorrelationId}
    {now : Time} {db : Ledger} {reply : Reply} (ho : t.Opens (.ingest source plan correlationId now))
    (hbody : (Transaction.ingest source plan correlationId now).body rt t.ledger = .ok (db,reply)) :
    (t.extend db reply.messages reply.items).Steady rt customerId ∧ t.ledger.Settles db := by
  have hsound := hs.sound_after ho hbody
  obtain ⟨⟨out,i⟩,hingest,hreply⟩ := Outcome.bind_ok.mp hbody
  obtain ⟨rfl,rfl⟩ := Prod.mk.inj (Except.ok.inj hreply)
  refine hs.extend (fun k e he => ⟨e,ingestBody_row hingest he,rfl,fun _ h => h⟩) hsound (fun m _ e x h he hnone hx hh => ?_) ?_
    (by rintro _ ⟨⟩) (.of_deadLetters (ingestBody_deadLetters hingest))
  · obtain rfl := Option.some.inj ((ingestBody_row hingest he).symm.trans hx)
    rw [hnone] at hh
    cases hh
  · intro m hm
    have hm : i.message = some m := Option.mem_toList.mp hm
    rcases (ingestBody_ok hingest).2 with ⟨_,hnone,_⟩ | ⟨x,henters,_,hnew,hget,hmessage⟩
    · rw [hnone] at hm
      cases hm
    · obtain ⟨hkey,_⟩ := hmessage m hm
      refine ⟨x,by rw [hget, if_pos hkey],Or.inl ⟨hkey ▸ hnew,?_,enters_undigested henters⟩⟩
      simp [Reply.messages,hm]

/-- Either the row has digests that fit the message, or it gets those of the message. -/
theorem deliver_steady (hs : t.Steady rt customerId) {message : QueueMessage} {now : Time} {db : Ledger} {reply : Reply}
    (hm : message ∈ t.published) (ho : t.Opens (.process message (t.ledger.getEvent message.eventId) now))
    (hcommit : (Transaction.process message (t.ledger.getEvent message.eventId) now).commit rt t.ledger = .ok (db,reply)) :
    (t.extend db reply.messages reply.items).Steady rt customerId ∧ t.ledger.Settles db := by
  obtain ⟨rfl,_,outcome,rfl⟩ := process_commit hcommit
  have hbody := (Transaction.commit_fresh ho.fresh hcommit).1
  obtain ⟨e₀,he₀,hfit,hsame⟩ := hs.messages message hm
  refine hs.extend (fun k e he => ?_) (hs.sound_after ho hbody) (fun m hpub e x h he hnone hx hh => ?_)
    (by rintro _ ⟨⟩) (by rintro _ ⟨⟩) ((body_files ho.once ho.fresh hbody).mono fun d hd => hd.elim)
  · obtain ⟨x,hx,rfl | ⟨rfl,rfl⟩⟩ := processed_row rt message now he
    · exact ⟨x,hx,rfl,fun _ h => h⟩
    · obtain rfl := Option.some.inj (he₀.symm.trans he)
      exact ⟨_,hx,verdict_settles hfit⟩
  · obtain ⟨x',hx',hcases⟩ := processed_row rt message now he
    obtain rfl := Option.some.inj (hx.symm.trans hx')
    rcases hcases with rfl | ⟨hkey,rfl⟩
    · rw [hnone] at hh
      cases hh
    · rw [hkey, he₀] at he
      obtain rfl := Option.some.inj he
      rw [hsame hnone m hpub hkey]
      exact verdict_digests hnone hh

theorem claim_steady (hs : t.Steady rt customerId) {st : Settings} {selected : List String} {now : Time} {db : Ledger}
    {reply : Reply} (hcustomer : st.adsCustomerId = customerId) (ho : t.Opens (.claim st selected now))
    (hbody : (Transaction.claim st selected now).body rt t.ledger = .ok (db,reply)) :
    (t.extend db reply.messages reply.items).Steady rt customerId ∧ t.ledger.Settles db := by
  subst hcustomer
  obtain ⟨⟨out,items⟩,hclaim,hreply⟩ := Outcome.bind_ok.mp hbody
  obtain ⟨rfl,rfl⟩ := Prod.mk.inj (Except.ok.inj hreply)
  refine hs.commit ho (by simp) (by simp) hbody (by rintro _ _ ⟨⟩) (fun c hc => ?_) (fun d hd => ?_)
  · obtain ⟨e,x,reason,he,hx,hbuilt⟩ := claim_builds ho.once hclaim hc
    exact hs.converts he hx hbuilt
  · obtain ⟨_,_,e,x,reason,he,hx,_,hbuilt,_⟩ := hd
    exact hs.converts he hx hbuilt

/-- Every other commit but a replay publishes nothing, claims nothing, and files only
conversions that were claimed. -/
theorem settle_steady (hs : t.Steady rt customerId) {tx : Transaction} {items : List ℕ} {db : Ledger} {reply : Reply}
    (htx : (∃ reason stamps, tx = .retry (batchIds (t.batch items)) (load t.ledger (batchIds (t.batch items))) reason stamps)
      ∨ (∃ rows now, tx = .apply (t.batch items) (load t.ledger (batchIds (t.batch items))) rows now)
      ∨ ∃ failure now, tx = .bury (t.batch items) (load t.ledger (batchIds (t.batch items))) failure now)
    (ho : t.Opens tx) (hbody : tx.body rt t.ledger = .ok (db,reply)) :
    (t.extend db reply.messages reply.items).Steady rt customerId ∧ t.ledger.Settles db := by
  have hclaimed {c : Claimed} (hc : c ∈ t.batch items) : t.ledger.Converts rt customerId c.eventId c.conversion :=
    hs.claimed c (mem_batch hc)
  rcases htx with ⟨reason,stamps,rfl⟩ | ⟨rows,now,rfl⟩ | ⟨failure,now,rfl⟩
  · obtain ⟨out,_,hreply⟩ := Outcome.bind_ok.mp hbody
    obtain ⟨rfl,rfl⟩ := Prod.mk.inj (Except.ok.inj hreply)
    exact hs.commit ho (by simp) (by simp) hbody (by rintro _ _ ⟨⟩) (by rintro _ ⟨⟩) fun d hd => hd.elim
  · obtain ⟨out,_,hreply⟩ := Outcome.bind_ok.mp hbody
    obtain ⟨rfl,rfl⟩ := Prod.mk.inj (Except.ok.inj hreply)
    refine hs.commit ho (by simp) (by simp) hbody (by rintro _ _ ⟨⟩) (by rintro _ ⟨⟩) ?_
    rintro d ⟨_,c,hc,hkey,hpayload⟩
    rw [← hkey, hpayload]
    exact hclaimed hc
  · obtain ⟨out,_,hreply⟩ := Outcome.bind_ok.mp hbody
    obtain ⟨rfl,rfl⟩ := Prod.mk.inj (Except.ok.inj hreply)
    refine hs.commit ho (by simp) (by simp) hbody (by rintro _ _ ⟨⟩) (by rintro _ ⟨⟩) ?_
    rintro d ⟨_,_,hk,_,hpayload⟩
    rw [load_keys] at hk
    obtain ⟨c,hc,hkey,hconversion⟩ := conversionOf_mem (List.mem_eraseDups.mp (List.mem_filter.mp hk).1)
    rw [hpayload, ← hconversion, ← hkey]
    exact hclaimed hc

theorem replay_steady (hs : t.Steady rt customerId) {letter : DeadLetter} {now : Time} {db : Ledger} {reply : Reply}
    (ho : t.Opens (.replay letter (t.ledger.getEvent letter.eventId) now))
    (hbody : (Transaction.replay letter (t.ledger.getEvent letter.eventId) now).body rt t.ledger = .ok (db,reply)) :
    (t.extend db reply.messages reply.items).Steady rt customerId ∧ t.ledger.Settles db := by
  obtain ⟨⟨out,message⟩,hreplay,hreply⟩ := Outcome.bind_ok.mp hbody
  obtain ⟨rfl,rfl⟩ := Prod.mk.inj (Except.ok.inj hreply)
  refine hs.commit ho (by simp) (by simp) hbody (fun hsettles => ?_) (by rintro _ ⟨⟩) fun d hd => hd.elim
  have hmessage : (Reply.replayed message).messages =
      (replayMessage letter (t.ledger.getEvent letter.eventId) now).toList := by
    rw [← replay_message hreplay]
    rfl
  rw [hmessage]
  exact hs.welcomes hsettles

/-- A transaction is for an operation: what it does then hangs on which. -/
theorem commit_steady (hs : t.Steady rt customerId) {op : Operation} {tx : Transaction} {db : Ledger} {reply : Reply}
    (hop : t.operation rt customerId a = some op) (hb : op.begin t.ledger = some tx)
    (hc : tx.commit rt t.ledger = .ok (db,reply)) :
    (t.extend db reply.messages reply.items).Steady rt customerId ∧ t.ledger.Settles db := by
  have ho := operation_opens hop hb
  have hbody := (Transaction.commit_fresh ho.fresh hc).1
  cases a with
  | ingest source body correlationId now =>
    cases hop
    cases hb
    exact ingest_steady hs ho hbody
  | deliver i now =>
    obtain ⟨m,hm,rfl⟩ := Option.map_eq_some_iff.mp hop
    cases hb
    exact deliver_steady hs (List.mem_of_getElem? hm) ho hc
  | claim st selected now =>
    simp only [operation] at hop
    split at hop
    · next hn =>
      cases hop
      cases hb
      exact claim_steady hs hn.1 ho hbody
    · cases hop
  | retry items reason stamps =>
    cases hop
    cases hb
    exact settle_steady hs (Or.inl ⟨reason,stamps,rfl⟩) ho hbody
  | apply items rows now =>
    cases hop
    cases hb
    exact settle_steady hs (Or.inr (Or.inl ⟨rows,now,rfl⟩)) ho hbody
  | bury items failure now =>
    cases hop
    cases hb
    exact settle_steady hs (Or.inr (Or.inr ⟨failure,now,rfl⟩)) ho hbody
  | replay id now =>
    cases hop
    obtain ⟨letter,_,rfl⟩ := Option.map_eq_some_iff.mp hb
    exact replay_steady hs ho hbody
  | send | abort | abandon => cases hop

theorem step_ok (h : step rt customerId t a = some u) : (∃ items, a = .send items ∧
      u = { t with sent := t.sent ++ [(t.batch items).map Claimed.conversion] }) ∨
    (∃ n m, a = .abort n m ∧ u = { t with ledger := { t.ledger with
      transitions := t.ledger.transitions.skip n
      deadLetters := t.ledger.deadLetters.skip m } }) ∨
    (∃ id now, a = .abandon id now ∧ u = t.extend t.ledger ((t.ledger.getDeadLetter id).bind fun letter =>
      replayMessage letter (t.ledger.getEvent letter.eventId) now).toList []) ∨
    ∃ op tx db reply, t.operation rt customerId a = some op ∧ op.begin t.ledger = some tx ∧
      tx.commit rt t.ledger = .ok (db,reply) ∧ u = t.extend db reply.messages reply.items := by
  cases a with
  | send items => exact Or.inl ⟨items,rfl,(Option.some.inj h).symm⟩
  | abort n m => exact Or.inr (Or.inl ⟨n,m,rfl,(Option.some.inj h).symm⟩)
  | abandon id now => exact Or.inr (Or.inr (Or.inl ⟨id,now,rfl,(Option.some.inj h).symm⟩))
  | ingest | deliver | claim | retry | apply | bury | replay =>
    simp only [step, Option.bind_eq_bind, Option.bind_eq_some_iff] at h
    obtain ⟨op,hop,tx,hb,h⟩ := h
    cases hc : tx.commit rt t.ledger with
    | error e =>
      rw [hc] at h
      cases h
    | ok out =>
      rw [hc] at h
      exact Or.inr (Or.inr (Or.inr ⟨op,tx,out.1,out.2,hop,hb,hc,(Option.some.inj h).symm⟩))

theorem step_steady (hs : t.Steady rt customerId) (h : step rt customerId t a = some u) :
    u.Steady rt customerId ∧ t.ledger.Settles u.ledger := by
  rcases step_ok h with ⟨items,_,rfl⟩ | ⟨n,m,_,rfl⟩ | ⟨id,now,_,rfl⟩ | ⟨op,tx,db,reply,hop,hb,hc,rfl⟩
  · refine ⟨⟨hs.sound,hs.messages,hs.claimed,fun batch hb c hc => ?_,hs.letters⟩,settles_refl _⟩
    rcases List.mem_append.mp hb with hb | hb
    · exact hs.sent batch hb c hc
    · rw [List.mem_singleton] at hb
      subst hb
      obtain ⟨x,hx,heq⟩ := List.mem_map.mp hc
      exact ⟨x,mem_batch hx,heq⟩
  · exact ⟨⟨hs.sound,hs.messages,hs.claimed,hs.sent,hs.letters⟩,settles_refl _⟩
  · refine hs.extend (settles_refl _) hs.sound (fun m _ e x h he hnone hx hh => ?_) ?_ (by rintro _ ⟨⟩)
      (.of_deadLetters rfl)
    · obtain rfl := Option.some.inj (he.symm.trans hx)
      rw [hnone] at hh
      cases hh
    · cases t.ledger.getDeadLetter id with
      | none => rintro _ ⟨⟩
      | some letter => exact hs.welcomes (settles_refl _)
  · exact commit_steady hs hop hb hc

/-- Whatever was built for an event is the conversion of its row. -/
theorem Steady.built (hs : t.Steady rt customerId) {id : String} {c : Json} (h : t.Built id c) :
    t.ledger.Converts rt customerId id c := by
  rcases h with ⟨x,hx,rfl,rfl⟩ | ⟨batch,hb,hc,horder⟩ | ⟨d,hd,rfl,rfl⟩
  · exact hs.claimed x hx
  · obtain ⟨x,hx,rfl⟩ := hs.sent batch hb c hc
    obtain ⟨e,he,hd,hbuilt⟩ := hs.claimed x hx
    have hid := Option.some.inj ((buildConversion_orderId hbuilt).symm.trans horder)
    rw [Ledger.getEvent_eventId he] at hid
    exact ⟨e,hid ▸ he,hd,hbuilt⟩
  · exact hs.letters d.frozen (List.mem_map_of_mem hd)

theorem Settles.trans {db db' db'' : Ledger} (h : db.Settles db') (h' : db'.Settles db'') : db.Settles db'' := by
  intro k e he
  obtain ⟨x,hx,hex⟩ := h k e he
  obtain ⟨y,hy,hxy⟩ := h' k x hx
  exact ⟨y,hy,hxy.identity.trans hex.identity,fun digests hd => hxy.digests digests (hex.digests digests hd)⟩

/-- From any state of a run on, digests that an event has stay, and any two conversions
built for an event at any time are equal. -/
theorem run_resends_identical {before since : List TrafficAction} {s t : Traffic}
    (hs : run rt customerId start before = some s) (ht : run rt customerId s since = some t) :
    (∀ id e digests, s.ledger.getEvent id = some e → e.hashedIdentifiers = some digests →
      ∃ x, t.ledger.getEvent id = some x ∧ x.hashedIdentifiers = some digests) ∧
    ∀ id c c', t.Built id c → t.Built id c' → c = c' := by
  have hsteady := Machine.run_inv' (Steady rt customerId) (fun _ _ _ hi h => (step_steady hi h).1) start_steady hs
  obtain ⟨hend,hsettles⟩ := Machine.run_rel (C := fun _ _ => True) (Steady rt customerId)
    (fun t u => t.ledger.Settles u.ledger) (fun t => settles_refl t.ledger) Settles.trans
    (fun _ _ _ hi _ h => step_steady hi h) hsteady (fun _ _ _ _ _ _ => trivial) ht
  constructor
  · intro id e digests he hd
    obtain ⟨x,hx,hex⟩ := hsettles id e he
    exact ⟨x,hx,hex.digests digests hd⟩
  · intro id c c' hc hc'
    exact (hend.built hc).unique (hend.built hc')

def clickSends : List TrafficAction :=
  [.ingest .hubspot (clickBody 1704067200000) .zero 0, .deliver 0 0, .claim .single ["hubspot:1"] 0, .send [0]]

/-- To the dead-letter store and back, with a replay that fails on the way and the first
message once more at the end. -/
def clickResends : List TrafficAction :=
  [.bury [0] (permanentFailure "http_401") 0, .abandon 1 0, .replay 1 0, .abort 1 1, .deliver 2 0, .deliver 0 0,
    .deliver 1 0, .claim .single ["hubspot:1"] 0, .send [1]]

theorem run_resends_identical_click : ∃ s t,
    run (clickRuntime 1704067200000) "1234567890" start clickSends = some s ∧
    run (clickRuntime 1704067200000) "1234567890" s clickResends = some t ∧ t.sent.length = 2 ∧
    (∀ id e digests, s.ledger.getEvent id = some e → e.hashedIdentifiers = some digests →
      ∃ x, t.ledger.getEvent id = some x ∧ x.hashedIdentifiers = some digests) ∧
    ∀ id c c', t.Built id c → t.Built id c' → c = c' := by
  have h : (run (clickRuntime 1704067200000) "1234567890" start (clickSends ++ clickResends)).map
      (fun t => t.sent.length) = some 2 := by decide +kernel
  obtain ⟨t,ht,hsent⟩ := Option.map_eq_some_iff.mp h
  obtain ⟨s,hs,ht⟩ := Machine.run_append.mp ht
  exact ⟨s,t,hs,ht,hsent,run_resends_identical hs ht⟩

end Traffic
end ConversionGateway
