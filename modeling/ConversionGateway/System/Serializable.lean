import ConversionGateway.Lifecycle.DeadLetterHistory
import ConversionGateway.System.AuditOrder
import ConversionGateway.System.Batches

/-! # Serial order

As long as no transaction acts on rows that have changed since it read them, the
processes together do to the ledger what the same operations do one at a time, in
the order of their commits.
-/
namespace ConversionGateway
open Relational

/-- The call that a transaction came from. -/
def Transaction.operation : Transaction → Operation
  | ingest source plan correlationId now => .ingest source plan correlationId now
  | process message _ now => .process message now
  | claim st selected now => .claim st selected now
  | retry ids _ reason stamps => .retry ids reason stamps
  | apply batch _ rows now => .apply batch rows now
  | bury batch _ failure now => .bury batch failure now
  | replay letter _ now => .replay letter.id now

/-- A worker has read the row of its message. -/
def Worker.Prepared : Worker → Prop
  | .loaded _ message row _ => ∀ e ∈ row, e.eventId = message.eventId
  | _ => True

/-- What an uploader has read and what it is about to read are the rows of its batch. -/
def Phase.Prepared : Phase → Prop
  | .retrying _ batch _ _ loaded pending _ => loaded.map Event.eventId ++ pending = (batchIds batch).eraseDups
  | .settling _ batch _ loaded pending => loaded.map Event.eventId ++ pending = (batchIds batch).eraseDups
  | _ => True

section Local
variable {rt : Runtime} {st : Settings} {clock : Time} {db : Ledger}

theorem Worker.step_prepared {w w' : Worker} {q q' : MessageQueue} {a : WorkerAction}
    (h : w.step clock db q a = some (w',q')) : w'.Prepared := by
  unfold step at h
  split at h
  · obtain ⟨p,_,hp⟩ := Option.map_eq_some_iff.mp h
    cases hp
    trivial
  · cases h
    trivial
  · cases h
    exact fun e he => Ledger.getEvent_eventId he
  all_goals
    cases h
    try trivial

theorem Uploader.withClaim_prepared (u : Uploader) (items : List Claimed) (now : Time) :
    (u.withClaim st items now).phase.Prepared := by
  unfold withClaim
  split <;> trivial

/-- One more row read, if it is there. -/
theorem prepared_load {loaded : List Event} {id : String} {pending ids : List String}
    (h : loaded.map Event.eventId ++ id :: pending = ids) (hid : db.getEvent id ≠ none) :
    (loaded ++ (db.getEvent id).toList).map Event.eventId ++ pending = ids := by
  obtain ⟨e,he⟩ := Option.ne_none_iff_exists'.mp hid
  rw [← h, he]
  simp [Ledger.getEvent_eventId he]

theorem Uploader.step_prepared {u u' : Uploader} {n : ℕ} {locks locks' : Locks} {sent : Option (List Json)}
    {a : UploaderAction} (h : u.step st n clock db locks a = some (u',locks',sent)) (hu : u.phase.Prepared)
    (hheld : ∀ id ∈ batchIds u.batch, db.getEvent id ≠ none) : u'.phase.Prepared := by
  cases a with
  | load =>
    simp only [step] at h
    split at h
    · next id pending _ hp =>
      cases h
      simp only [hp, Phase.Prepared] at hu
      have hmem : id ∈ (batchIds u.batch).eraseDups := by
        rw [batch, hp, ← hu]
        simp
      exact prepared_load hu (hheld id (List.mem_eraseDups.mp hmem))
    · next id pending hp =>
      cases h
      simp only [hp, Phase.Prepared] at hu
      have hmem : id ∈ (batchIds u.batch).eraseDups := by
        rw [batch, hp, ← hu]
        simp
      exact prepared_load hu (hheld id (List.mem_eraseDups.mp hmem))
    · cases h
  | stamp =>
    simp only [step] at h
    split at h
    · next hp =>
      split at h
      · cases h
        simpa only [hp, Phase.Prepared] using hu
      · cases h
    · cases h
  | skip =>
    simp only [step] at h
    split at h
    · split at h
      · cases h
        exact withClaim_prepared u [] _
      · cases h
    · cases h
  | finish outcome =>
    simp only [step] at h
    split at h
    · cases h
      rfl
    · cases h
  | retry reason =>
    simp only [step] at h
    split at h
    · split at h
      · cases h
        rfl
      · cases h
    · cases h
  | begin | select ids | send =>
    simp only [step] at h
    split at h
    · first
        | (cases h; trivial)
        | (split at h <;> cases h; trivial)
    · cases h

theorem Uploader.committed_prepared {u : Uploader} {tx : Transaction} (reply : Reply)
    (h : u.transaction st = some tx) : (u.committed st reply).phase.Prepared := by
  rcases committed_cases reply h with ⟨items,now,h⟩ | ⟨_,_,_,h | h⟩ <;> rw [h]
  · exact withClaim_prepared u items now
  · trivial
  · trivial

/-- Rows that are all there and all current are what a new transaction would load. -/
theorem load_eq {loaded : List Event} {ids : List String} (hids : loaded.map Event.eventId = ids.eraseDups)
    (hcur : ∀ e ∈ loaded, db.getEvent e.eventId = some e) : load db ids = loaded := by
  rw [load, ← hids, List.filterMap_map]
  calc loaded.filterMap (db.getEvent ∘ Event.eventId) = loaded.filterMap some :=
        List.filterMap_congr fun e he => hcur e he
    _ = loaded := List.filterMap_some

end Local

namespace System
variable {rt : Runtime} {settings : ℕ → Settings} {s t : System} {a : Action}

/-- A commit writes nothing over what has changed since its transaction read it. -/
def CommitsCurrent (settings : ℕ → Settings) (s : System) : Action → Prop
  | .commit who => ∀ tx ∈ s.transaction settings who, tx.acted ≠ [] → tx.session.Current s.ledger
  | _ => True

instance (s : System) : ∀ a, Decidable (CommitsCurrent settings s a)
  | .commit who => inferInstanceAs (Decidable (∀ tx ∈ s.transaction settings who,
      tx.acted ≠ [] → tx.session.Current s.ledger))
  | .tick _ | .expire _ | .request _ _ | .worker _ _ | .uploader _ _ | .replayer _ _ | .reconciler _ _ |
    .crash _ => isTrue trivial

/-- The operations of those commits of a run that change the ledger, in their order. -/
inductive Changes (rt : Runtime) (settings : ℕ → Settings) : System → List Action → List Operation → Prop
  | nil {s : System} : Changes rt settings s [] []
  | change {s t : System} {who : Process} {tx : Transaction} {rest : List Action} {ops : List Operation}
      (ha : step rt settings s (.commit who) = some t) (htx : s.transaction settings who = some tx)
      (hne : t.ledger ≠ s.ledger) (h : Changes rt settings t rest ops) :
      Changes rt settings s (.commit who :: rest) (tx.operation :: ops)
  | idle {s t : System} {a : Action} {rest : List Action} {ops : List Operation}
      (ha : step rt settings s a = some t) (heq : t.ledger = s.ledger) (h : Changes rt settings t rest ops) :
      Changes rt settings s (a :: rest) ops

/-- What is held was read from rows that are still there, and all of what was asked for. -/
structure Prepared (s : System) : Prop where
  linked : s.Linked
  letters : ∀ who, ∀ d ∈ s.letters who, ∃ current, s.ledger.getDeadLetter d.id = some current ∧
    current.frozen = d.frozen
  held : ∀ n, ∀ c ∈ (s.uploaders n).held, s.ledger.getEvent c.eventId ≠ none
  workers : ∀ n, (s.workers n).Prepared
  uploaders : ∀ n, (s.uploaders n).phase.Prepared

theorem start_prepared (db : Ledger) : (start db).Prepared := by
  refine ⟨start_linked db,fun who d hd => ?_,fun n c hc => ?_,fun n => trivial,fun n => trivial⟩
  · cases who <;> simp [System.letters,start,Replayer.letters] at hd
  · simp [start,Uploader.fresh,Uploader.held,Uploader.batch,Batcher.empty] at hc

/-- A transaction that may commit is its body on the ledger, or changes nothing. -/
theorem Prepared.fresh_or_idle (hs : s.Prepared) {who : Process} {tx : Transaction} {reply : Reply}
    (hcur : CommitsCurrent settings s (.commit who)) (hc : Commits rt settings s t who tx reply) :
    tx.session.Fresh s.ledger ∨ t.ledger = s.ledger := by
  refine Transaction.fresh_or_idle ?_ (hcur tx hc.transaction) hc.commit
  rw [(transaction_session hc.transaction).2]
  exact hs.letters who

/-- Records stay, and keep what a replay does not assign. -/
theorem Prepared.letter (hs : s.Prepared) (hcur : CommitsCurrent settings s a)
    (h : step rt settings s a = some t) {id : ℕ} {d : DeadLetter} (hd : s.ledger.getDeadLetter id = some d) :
    ∃ d', t.ledger.getDeadLetter id = some d' ∧ d'.frozen = d.frozen := by
  rcases step_ledger h with heq | ⟨who,tx,reply,rfl,hc⟩
  · exact ⟨d,heq ▸ hd,rfl⟩
  · rcases hs.fresh_or_idle hcur hc with hf | heq
    · have hedits := Transaction.body_edits hf (hs.linked.paired hc.transaction)
        (Transaction.commit_fresh hf hc.commit).1
      refine Edits.inv (I := fun db => ∃ d', db.getDeadLetter id = some d' ∧ d'.frozen = d.frozen)
        (fun db db' hi he => ?_) ⟨d,hd,rfl⟩ hedits
      obtain ⟨d',hd',hfrozen⟩ := hi
      obtain ⟨d'',hd'',hfrozen'⟩ := he.letter hd'
      exact ⟨d'',hd'',hfrozen'.trans hfrozen⟩
    · exact ⟨d,heq ▸ hd,rfl⟩

/-- A row that is there stays there. -/
theorem Linked.row_kept (hs : s.Linked) (h : step rt settings s a = some t) {k : String}
    (hk : s.ledger.getEvent k ≠ none) : t.ledger.getEvent k ≠ none := by
  obtain ⟨e,he⟩ := Option.ne_none_iff_exists'.mp hk
  rcases step_ledger h with heq | ⟨who,tx,reply,_,hc⟩
  · rwa [heq]
  · obtain ⟨e',he',_⟩ := Transaction.commit_identity (hs.known hc.transaction) (hs.paired hc.transaction)
      hc.commit he
    rw [he']
    exact Option.some_ne_none e'

theorem step_worker_prepared (hs : ∀ n, (s.workers n).Prepared) (h : step rt settings s a = some t) (n : ℕ) :
    (t.workers n).Prepared := by
  rcases step_worker h n with hw | ⟨b,q,_,hstep⟩ | hw | hw
  · exact hw ▸ hs n
  · exact Worker.step_prepared hstep
  · rw [hw]
    have hold := hs n
    cases hn : s.workers n with
    | loaded id message row now => trivial
    | _ =>
      rw [hn] at hold
      exact hold
  · rw [hw]
    trivial

theorem step_prepared (hs : s.Prepared) (hcur : CommitsCurrent settings s a)
    (h : step rt settings s a = some t) : t.Prepared := by
  refine ⟨step_linked hs.linked h,fun who d hd => ?_,fun n c hc => ?_,fun n => ?_,fun n => ?_⟩
  · have hold : ∃ current, s.ledger.getDeadLetter d.id = some current ∧ current.frozen = d.frozen := by
      rcases step_letters h hd with hd | hd
      · exact hs.letters who d hd
      · exact ⟨d,hd,rfl⟩
    obtain ⟨current,hget,hfrozen⟩ := hold
    obtain ⟨current',hget',hfrozen'⟩ := hs.letter hcur h hget
    exact ⟨current',hget',hfrozen'.trans hfrozen⟩
  · rcases step_held h hs.linked hc with hc | ⟨_,_,_,_,_,_,hb⟩
    · exact hs.linked.row_kept h (hs.held n c hc)
    · obtain ⟨e,he,_⟩ := hb.row
      rw [he]
      exact Option.some_ne_none e
  · exact step_worker_prepared hs.workers h n
  · rcases step_uploader h n with hu | ⟨b,sent,_,hstep⟩ | ⟨tx,reply,hc,hu⟩ | hu
    · exact hu ▸ hs.uploaders n
    · refine Uploader.step_prepared hstep (hs.uploaders n) fun id hid => ?_
      obtain ⟨c,hc,rfl⟩ := List.mem_map.mp hid
      exact hs.held n c (List.mem_append_right _ hc)
    · rw [hu]
      exact Uploader.committed_prepared reply hc.transaction
    · rw [hu]
      trivial

/-- A transaction with nothing stale in it is the one its operation would begin now,
unless there is no row for it to act on. -/
theorem Prepared.begin_operation (hs : s.Prepared) {who : Process} {tx : Transaction} {reply : Reply}
    (hc : Commits rt settings s t who tx reply) (hf : tx.session.Fresh s.ledger) :
    tx.operation.begin s.ledger = some tx ∨ t.ledger = s.ledger := by
  have hidle (hbody : ∀ out, tx.body rt s.ledger = .ok (out,reply) → out = s.ledger) :
      t.ledger = s.ledger := hbody _ (Transaction.commit_fresh hf hc.commit).1
  have htx := hc.transaction
  cases who with
  | reconciler n => cases htx
  | request n =>
    simp only [transaction, Request.transaction] at htx
    split at htx
    · cases htx
      exact Or.inl rfl
    · cases htx
  | worker n =>
    have hread := hs.workers n
    simp only [transaction, Worker.transaction] at htx
    split at htx
    · next id message row now hn =>
      cases htx
      cases row with
      | none =>
        refine Or.inr (hidle fun out hb => ?_)
        cases hb
        rfl
      | some e =>
        rw [hn] at hread
        have hrow := hf.events e (by simp [Transaction.session])
        rw [hread e rfl] at hrow
        exact Or.inl (congrArg (fun row => some (Transaction.process message row now)) hrow)
    · cases htx
  | replayer n =>
    have hp := hs.linked.paired htx
    have hreplay (letter : DeadLetter) (row : Option Event) (now : Time)
        (heq : tx = .replay letter row now) : tx.operation.begin s.ledger = some tx ∨ t.ledger = s.ledger := by
      subst heq
      cases row with
      | none =>
        refine Or.inr (hidle fun out hb => ?_)
        obtain ⟨⟨db,m⟩,hm,hb⟩ := Outcome.bind_ok.mp hb
        cases hb
        rcases replay_ok hm with ⟨rfl,_⟩ | ⟨_,hrow,_⟩
        · rfl
        · cases hrow
      | some e =>
        have hletter := hf.deadLetters letter (List.mem_singleton_self letter)
        have hrow := hf.events e (by simp [Transaction.session])
        rw [← hp e rfl] at hrow
        refine Or.inl ?_
        simp only [Transaction.operation, Operation.begin, hletter, Option.map_some, hrow]
    simp only [transaction, Replayer.transaction] at htx
    split at htx
    · split at htx
      · cases htx
        exact hreplay _ _ _ rfl
      · cases htx
    · cases htx
      exact hreplay _ _ _ rfl
    · cases htx
  | uploader n =>
    have hread := hs.uploaders n
    rcases Uploader.transaction_cases htx with ⟨now,ids,hp,rfl⟩ | ⟨now,batch,attempt,reason,loaded,stamps,hp,_,rfl⟩ |
      ⟨now,batch,rows,loaded,hp,rfl⟩ | ⟨now,batch,failure,loaded,hp,rfl⟩
    · exact Or.inl rfl
    all_goals
      simp only [hp, Phase.Prepared, List.append_nil] at hread
      refine Or.inl ?_
      simp only [Transaction.operation, Operation.begin, load_eq hread hf.events]

/-- A commit does what its operation does alone, or nothing. -/
theorem Prepared.serialStep (hs : s.Prepared) {who : Process} {tx : Transaction} {reply : Reply}
    (hcur : CommitsCurrent settings s (.commit who)) (hc : Commits rt settings s t who tx reply) :
    ConversionGateway.serialStep rt s.ledger (.commit tx.operation) = some t.ledger ∨ t.ledger = s.ledger := by
  rcases hs.fresh_or_idle hcur hc with hf | heq
  · rcases hs.begin_operation hc hf with hbegin | heq
    · refine Or.inl ?_
      simp only [ConversionGateway.serialStep, hbegin, hc.commit]
    · exact Or.inr heq
  · exact Or.inr heq

/-- From any state: the commits that change the ledger can run one at a time. -/
theorem Prepared.serialRun {actions : List Action} {u : System} (hs : s.Prepared)
    (hcur : Machine.Along (step rt settings) (CommitsCurrent settings) s actions)
    (h : run rt settings s actions = some u) : ∃ ops, Changes rt settings s actions ops ∧
      ConversionGateway.serialRun rt s.ledger (ops.map .commit) = some u.ledger := by
  induction actions generalizing s with
  | nil =>
    cases h
    exact ⟨[],.nil,rfl⟩
  | cons a rest ih =>
    obtain ⟨t,ht,hrest⟩ := Machine.run_cons.mp h
    obtain ⟨hfirst,hlater⟩ := Machine.along_cons.mp hcur
    obtain ⟨ops,hops,hrun⟩ := ih (step_prepared hs hfirst ht) (hlater t ht) hrest
    by_cases heq : t.ledger = s.ledger
    · exact ⟨ops,.idle ht heq hops,heq ▸ hrun⟩
    · rcases step_ledger ht with hno | ⟨who,tx,reply,rfl,hc⟩
      · exact absurd hno heq
      · rcases hs.serialStep hfirst hc with hone | hno
        · exact ⟨tx.operation :: ops,.change ht hc.transaction heq hops,Machine.run_cons.mpr ⟨t.ledger,hone,hrun⟩⟩
        · exact absurd hno heq

/-- In every run in which no transaction acts on rows that have changed since it read
them, the ledger is the one that the operations of the commits that change it leave when
they run one at a time, in the order of the commits. -/
theorem run_serializable (rt : Runtime) (settings : ℕ → Settings) (db : Ledger) (actions : List Action)
    (s : System) (h : run rt settings (start db) actions = some s)
    (hcur : Machine.Along (step rt settings) (CommitsCurrent settings) (start db) actions) :
    ∃ ops, Changes rt settings (start db) actions ops ∧
      ConversionGateway.serialRun rt db (ops.map .commit) = some s.ledger :=
  (start_prepared db).serialRun hcur h

/-- Two events side by side: two requests, two workers and two uploaders, each with its
transaction open while the other commits. A third request delivers the first event again.
One event is uploaded, the other refused. -/
def sideBySide : List Action :=
  [.request 0 (.deliver .hubspot (clickBody 1704067200000) .zero), .request 1 (.deliver .hubspot secondBody .zero),
    .request 2 (.deliver .hubspot (clickBody 1704067200000) .zero), .commit (.request 1), .commit (.request 0),
    .commit (.request 2), .request 0 .publish, .request 1 .publish, .worker 0 (.receive 0), .worker 1 (.receive 1),
    .worker 0 .read, .worker 1 .read, .commit (.worker 1), .commit (.worker 0), .uploader 0 .begin,
    .uploader 1 .begin, .uploader 0 (.select ["hubspot:1"]), .uploader 1 (.select ["hubspot:2"]),
    .commit (.uploader 1), .commit (.uploader 0), .uploader 0 .send, .uploader 1 .send,
    .uploader 0 (.finish (.result [⟨0,true,none,none⟩])), .uploader 1 (.finish (.permanent "http_401")),
    .uploader 0 .load, .uploader 1 .load, .commit (.uploader 1), .commit (.uploader 0)]

/-- The theorem at these. -/
theorem run_serializable_sideBySide : ∃ (s : System) (ops : List Operation),
    run twoRuntime (fun _ => .single) (start Ledger.empty) sideBySide = some s ∧
    s.status "hubspot:1" = some .uploaded ∧ s.status "hubspot:2" = some .deadLettered ∧
    Changes twoRuntime (fun _ => .single) (start Ledger.empty) sideBySide ops ∧
    ConversionGateway.serialRun twoRuntime Ledger.empty (ops.map .commit) = some s.ledger := by
  have hrun : (run twoRuntime (fun _ => .single) (start Ledger.empty) sideBySide).map
      (fun s => (s.status "hubspot:1",s.status "hubspot:2")) = some (some .uploaded,some .deadLettered) := by
    decide +kernel
  obtain ⟨s,hs,hstatus⟩ := Option.map_eq_some_iff.mp hrun
  obtain ⟨hfirst,hsecond⟩ := Prod.mk.inj hstatus
  obtain ⟨ops,hops,hserial⟩ := run_serializable _ _ _ sideBySide s hs (by decide +kernel)
  exact ⟨s,ops,hs,hfirst,hsecond,hops,hserial⟩

/-- So what holds after serial runs holds after these: the rows of every event explain
it, and its dead-letter records and its trail agree. -/
theorem run_accounted (rt : Runtime) (settings : ℕ → Settings) (actions : List Action) (s : System)
    (h : run rt settings (start Ledger.empty) actions = some s)
    (hcur : Machine.Along (step rt settings) (CommitsCurrent settings) (start Ledger.empty) actions) :
    ∀ e ∈ s.ledger.events.rows, Audited (s.ledger.listTransitions e.eventId) e ∧
      Accounts (s.ledger.listTransitions e.eventId) (s.ledger.letters e.eventId) e.status := by
  obtain ⟨ops,_,hrun⟩ := (start_prepared Ledger.empty).serialRun hcur h
  intro e he
  have hget := Table.get_of_mem he
  refine ⟨((serialRun_trails hrun).trail e.eventId e hget).audited,?_⟩
  refine ((serialRun_books hrun).book e.eventId e hget).accounts fun a ha b hb hi => ?_
  exact Journal.eq_of_serial (List.mem_filter.mp ha).1 (List.mem_filter.mp hb).1 hi

/-- The theorem at the event that is refused. -/
theorem run_accounted_sideBySide : ∃ (s : System) (e : Event),
    run twoRuntime (fun _ => .single) (start Ledger.empty) sideBySide = some s ∧
    e.status = .deadLettered ∧ s.ledger.letters e.eventId ≠ [] ∧ Audited (s.ledger.listTransitions e.eventId) e ∧
    Accounts (s.ledger.listTransitions e.eventId) (s.ledger.letters e.eventId) e.status := by
  have hrun : ((run twoRuntime (fun _ => .single) (start Ledger.empty) sideBySide).any fun s =>
      s.ledger.events.rows.any fun e => decide (e.status = .deadLettered) &&
        !(s.ledger.letters e.eventId).isEmpty) = true := by
    decide +kernel
  obtain ⟨s,hs,hany⟩ := (Option.any_eq_true ..).mp hrun
  obtain ⟨e,he,hcols⟩ := List.any_eq_true.mp hany
  simp only [Bool.and_eq_true, decide_eq_true_eq, Bool.not_eq_true', List.isEmpty_eq_false_iff] at hcols
  exact ⟨s,e,hs,hcols.1,hcols.2,run_accounted _ _ sideBySide s hs (by decide +kernel) e he⟩

end System
end ConversionGateway
