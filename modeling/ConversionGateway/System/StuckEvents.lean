import ConversionGateway.Lifecycle.QueueEntries
import ConversionGateway.System.AuditOrder

/-! # Stuck events

The query for stuck events compares the time at which an event was received with the
threshold. That is when the event entered the queue, unless it was replayed since.
-/
namespace ConversionGateway
open Relational EventStatus

/-- The event is QUEUED, and has been since before `olderThan`. -/
def Ledger.StuckSince (db : Ledger) (olderThan : Time) (e : Event) : Prop :=
  e.status = queued ∧ ∃ t, db.lastEntry e.eventId = some t ∧ t.occurredAt < olderThan

/-- A row through a commit has the status of the object or keeps its own. -/
theorem Session.settle_status (s : Session) (db : Ledger) (final : Event) :
    (s.settle db final).status = final.status ∨
      ∃ current, db.getEvent final.eventId = some current ∧ (s.settle db final).status = current.status := by
  cases hc : db.getEvent final.eventId with
  | none =>
    rw [settle_of_none hc]
    exact Or.inl rfl
  | some current =>
    rw [settle_of_some hc, Event.merge_status]
    rcases pick_eq_or (s.event current).status final.status current.status with h | h
    · exact Or.inl h
    · exact Or.inr ⟨current,rfl,h⟩

section Commit
variable {rt : Runtime} {db db' : Ledger} {tx : Transaction} {reply : Reply}

/-- What a session shows is Entered if its objects are. -/
theorem Session.view_entered {s : Session} (h : db.Entered)
    (hheld : ∀ e ∈ s.events, e.status = queued → db.HasEntry e.eventId) : (s.view db).Entered := by
  refine h.congr (fun k hk => ?_) (fun k e he hq => ?_) (fun k => rfl)
  · rwa [view_getEvent, Option.map_eq_none_iff] at hk
  · rw [view_getEvent] at he
    obtain ⟨current,hc,rfl⟩ := Option.map_eq_some_iff.mp he
    rcases s.event_eq_or current with heq | hmem
    · rw [heq] at hq
      exact h.entry k current hc hq
    · have hentry := hheld _ hmem hq
      rwa [event_eventId, Ledger.getEvent_eventId hc] at hentry

theorem Transaction.commit_entered (hk : tx.session.Known db) (hp : tx.Paired) (h : db.Entered)
    (hheld : ∀ e ∈ tx.session.events, e.status = queued → db.HasEntry e.eventId)
    (htrail : ∀ k, ∃ new, db'.listTransitions k = db.listTransitions k ++ new)
    (hc : tx.commit rt db = .ok (db',reply)) : db'.Entered := by
  obtain ⟨out,hedits,rfl⟩ := commit_edits hk hp hc
  have hout : out.Entered := Edits.inv (fun _ _ hi he => hi.edit he) (Session.view_entered h hheld) hedits
  refine hout.congr (fun k hn => ?_) (fun k e he hq => ?_) (fun k => rfl)
  · rwa [Session.flush_getEvent, Option.map_eq_none_iff] at hn
  · rw [Session.flush_getEvent] at he
    obtain ⟨final,hfinal,rfl⟩ := Option.map_eq_some_iff.mp he
    rcases tx.session.settle_status db final with hs | ⟨current,hcur,hs⟩
    · exact hout.entry k final hfinal (hs.symm.trans hq)
    · obtain ⟨new,hnew⟩ := htrail k
      rw [Ledger.getEvent_eventId hfinal] at hcur
      exact (h.entry k current hcur (hs.symm.trans hq)).mono hnew

/-- A commit that is no ingest queues only by replaying. -/
theorem Transaction.commit_requeues (hk : tx.session.Known db) (hp : tx.Paired) (hn : tx.keys.Nodup)
    (hi : ∀ source plan correlationId now, tx ≠ .ingest source plan correlationId now)
    (hrest : ∀ k e, db.getEvent k = some e → e.AtRest) (hheld : ∀ e ∈ tx.session.events, e.AtRest)
    (hc : tx.commit rt db = .ok (db',reply)) :
    db.Requeues db' ∧ ∀ k e, db'.getEvent k = some e → e.AtRest := by
  obtain ⟨out,hb,rfl,_⟩ := commit_ok.mp hc
  have hview : ∀ k e, (tx.session.view db).getEvent k = some e → e.AtRest := by
    intro k e he
    rw [Session.view_getEvent] at he
    obtain ⟨current,hcur,rfl⟩ := Option.map_eq_some_iff.mp he
    rcases tx.session.event_eq_or current with heq | hmem
    · rw [heq]
      exact hrest k current hcur
    · exact hheld _ hmem
  have habsent := (body_rewrites hk.fresh_view.events hn hi hb).absent
  obtain ⟨htrail,hout⟩ := Edits.requeues (body_edits hk.fresh_view hp hb) hview fun k => habsent k
  refine ⟨htrail,?_⟩
  intro k e he
  rw [Session.flush_getEvent] at he
  obtain ⟨final,hfinal,rfl⟩ := Option.map_eq_some_iff.mp he
  unfold Event.AtRest
  rcases tx.session.settle_status db final with hs | ⟨current,hcur,hs⟩ <;> rw [hs]
  · exact hout k final hfinal
  · exact hrest _ current hcur

end Commit

/-- The row of a first delivery is past its ingest and has the time of it. -/
theorem IngestPlan.Enters.received {source : Source} {now : Time} {plan : IngestPlan} {e : Event}
    (h : plan.Enters source now e) : e.AtRest ∧ e.receivedAt = now := by
  cases plan with
  | raised x => exact h.elim
  | accept event =>
    obtain ⟨row,stored,hrow,hstored,rfl⟩ := h
    obtain ⟨_,_,hrow⟩ := Outcome.bind_ok.mp hrow
    obtain ⟨_,_,hrow⟩ := Outcome.bind_ok.mp hrow
    obtain ⟨v,t,rfl⟩ := hstored.columns
    rw [← Outcome.pure_ok.mp hrow]
    exact ⟨⟨by simp [Event.moved],by simp [Event.moved]⟩,rfl⟩
  | reject sourceEventId errors =>
    obtain ⟨id,stored,_,hstored,label,rfl⟩ := h
    have hat : stored.receivedAt = now := by
      obtain ⟨v,t,rfl⟩ := hstored.columns
      rfl
    exact ⟨⟨by simp [Event.labelled,Event.moved],by simp [Event.labelled,Event.moved]⟩,hat⟩

namespace System
variable {rt : Runtime} {settings : ℕ → Settings} {s t : System} {a : Action}

/-- Every entry into QUEUED is the ingest, at the time the row says, or a replay. -/
structure Arrivals (s : System) : Prop where
  linked : s.Linked
  entered : s.ledger.Entered
  rows : ∀ k e, s.ledger.getEvent k = some e → e.AtRest
  held : ∀ who, ∀ e ∈ s.rows who, e.AtRest ∧ (e.status = queued → s.ledger.HasEntry e.eventId)
  received : ∀ k e, s.ledger.getEvent k = some e →
    ∀ x ∈ s.ledger.listTransitions k, x.toStatus = queued → x.IsReplay ∨ x.occurredAt = e.receivedAt

theorem start_arrivals : (start Ledger.empty).Arrivals := by
  refine ⟨start_linked _,⟨?_,fun k _ => rfl⟩,?_,fun who e he => ?_,?_⟩
  · intro k e he
    cases he
  · intro k e he
    cases he
  · cases who <;> simp [System.rows,start,Worker.rows,Uploader.rows,Uploader.fresh,Replayer.rows] at he
  · intro k e he
    cases he

/-- A first delivery: its trail and its row have one time. -/
theorem Arrivals.ingest (hs : s.Arrivals) {who : Process} {source : Source} {plan : IngestPlan}
    {correlationId : CorrelationId} {now : Time} {reply : Reply}
    (hc : Commits rt settings s t who (.ingest source plan correlationId now) reply) :
    (∀ k, ∃ new, t.ledger.listTransitions k = s.ledger.listTransitions k ++ new) ∧
    (∀ k e, t.ledger.getEvent k = some e → e.AtRest) ∧ ∀ k e, t.ledger.getEvent k = some e →
      ∀ x ∈ t.ledger.listTransitions k, x.toStatus = queued → x.IsReplay ∨ x.occurredAt = e.receivedAt := by
  obtain ⟨⟨i,hbody,_⟩,_⟩ := commit_ingest.mp hc.commit
  obtain ⟨j,hfresh,hadded⟩ : ∃ j, (t.ledger = s.ledger ∨ s.ledger.getEvent j = none) ∧ ∀ k,
      ∃ new, t.ledger.listTransitions k = s.ledger.listTransitions k ++ new ∧
        ∀ x ∈ new, k = j ∧ s.ledger.getEvent j = none ∧ x.occurredAt = now := by
    rcases ingestBody_edits hbody with heq | ⟨j,hnone,hedits⟩
    · exact ⟨"",Or.inl heq,fun k => ⟨[],by rw [heq, List.append_nil],by simp⟩⟩
    · refine ⟨j,Or.inr hnone,fun k => ?_⟩
      obtain ⟨new,heq,hnew⟩ := hedits.stamped k
      exact ⟨new,heq,fun x hx => ⟨(hnew x hx).1,hnone,(hnew x hx).2⟩⟩
  have hrow (k : String) (e : Event) (he : t.ledger.getEvent k = some e) :
      s.ledger.getEvent k = some e ∨ s.ledger.getEvent k = none ∧ e.AtRest ∧ e.receivedAt = now := by
    cases hk : s.ledger.getEvent k with
    | none =>
      obtain ⟨_,_,_,_,htx,_,hx⟩ := hc.new_row hs.linked hk he
      cases htx
      exact Or.inr ⟨rfl,hx.received⟩
    | some e₀ =>
      rcases hc.row hs.linked hk with hsame | ⟨_,final,hchange,_⟩
      · exact Or.inl (hsame.symm.trans he)
      · exact hchange.elim
  refine ⟨fun k => (hadded k).imp fun _ h => h.1,fun k e he => ?_,fun k e he x hx hq => ?_⟩
  · rcases hrow k e he with hold | ⟨_,hrest,_⟩
    · exact hs.rows k e hold
    · exact hrest
  · obtain ⟨new,heq,hnew⟩ := hadded k
    rw [heq] at hx
    rcases hrow k e he with hold | ⟨hnone,_,hat⟩
    · rcases List.mem_append.mp hx with hx | hx
      · exact hs.received k e hold x hx hq
      · obtain ⟨rfl,hnone,_⟩ := hnew x hx
        exact absurd (hnone.symm.trans hold) (by simp)
    · rw [hs.entered.orphan k hnone, List.nil_append] at hx
      exact Or.inr ((hnew x hx).2.2.trans hat.symm)

theorem step_arrivals (hs : s.Arrivals) (h : step rt settings s a = some t) : t.Arrivals := by
  obtain ⟨hentered,hrows,htrail,hreceived⟩ : t.ledger.Entered ∧
      (∀ k e, t.ledger.getEvent k = some e → e.AtRest) ∧
      (∀ k, ∃ new, t.ledger.listTransitions k = s.ledger.listTransitions k ++ new) ∧
      ∀ k e, t.ledger.getEvent k = some e → ∀ x ∈ t.ledger.listTransitions k, x.toStatus = queued →
        x.IsReplay ∨ x.occurredAt = e.receivedAt := by
    rcases step_ledger h with heq | ⟨who,tx,reply,_,hc⟩
    · rw [heq]
      exact ⟨hs.entered,hs.rows,fun k => ⟨[],(List.append_nil _).symm⟩,hs.received⟩
    · have hk := hs.linked.known hc.transaction
      have hp := hs.linked.paired hc.transaction
      have hheld (e : Event) (he : e ∈ tx.session.events) :=
        hs.held who e ((transaction_session hc.transaction).1 ▸ he)
      have hentered (htrail : ∀ k, ∃ new, t.ledger.listTransitions k = s.ledger.listTransitions k ++ new) :
          t.ledger.Entered :=
        Transaction.commit_entered hk hp hs.entered (fun e he => (hheld e he).2) htrail hc.commit
      by_cases hi : ∃ source plan correlationId now, tx = .ingest source plan correlationId now
      · obtain ⟨source,plan,correlationId,now,rfl⟩ := hi
        obtain ⟨htrail,hrest,hreceived⟩ := hs.ingest hc
        exact ⟨hentered htrail,hrest,htrail,hreceived⟩
      · have hi : ∀ source plan correlationId now, tx ≠ .ingest source plan correlationId now :=
          fun source plan correlationId now heq => hi ⟨source,plan,correlationId,now,heq⟩
        obtain ⟨hrequeues,hrest⟩ := Transaction.commit_requeues hk hp (hs.linked.keys_nodup hc.transaction) hi
          hs.rows (fun e he => (hheld e he).1) hc.commit
        have htrail (k : String) : ∃ new, t.ledger.listTransitions k = s.ledger.listTransitions k ++ new :=
          (hrequeues k).imp fun _ h => h.1
        refine ⟨hentered htrail,hrest,htrail,fun k e he x hx hq => ?_⟩
        obtain ⟨new,heq,hnew⟩ := hrequeues k
        rw [heq] at hx
        rcases List.mem_append.mp hx with hx | hx
        · cases hold : s.ledger.getEvent k with
          | none =>
            rw [hs.entered.orphan k hold] at hx
            cases hx
          | some e₀ =>
            obtain ⟨e',he',hid⟩ := Transaction.commit_identity hk hp hc.commit hold
            obtain rfl := Option.some.inj (he.symm.trans he')
            have hat : e.receivedAt = e₀.receivedAt := congrArg Identity.receivedAt hid
            rw [hat]
            exact hs.received k e₀ hold x hx hq
        · exact Or.inl (hnew x hx hq)
  refine ⟨step_linked hs.linked h,hentered,hrows,fun who e he => ?_,hreceived⟩
  rcases step_rows h he with he | he
  · obtain ⟨hrest,hentry⟩ := hs.held who e he
    obtain ⟨new,hnew⟩ := htrail e.eventId
    exact ⟨hrest,fun hq => (hentry hq).mono hnew⟩
  · obtain ⟨new,hnew⟩ := htrail e.eventId
    exact ⟨hs.rows _ e he,fun hq => (hs.entered.entry _ e he hq).mono hnew⟩

end System

theorem mem_findStuckQueued {db : Ledger} {olderThan : Time} {e : Event} :
    e ∈ findStuckQueued db olderThan ↔ e ∈ db.events.rows ∧ e.status = queued ∧ e.receivedAt < olderThan := by
  unfold findStuckQueued byReceivedAt
  rw [List.mem_insertionSort, List.mem_filter, decide_eq_true_eq]

namespace System

/-- In every state of every run the query returns exactly the events that have been in
the queue since before the threshold, if and only if no event that came back by a replay
was received on one side of the threshold and replayed on the other. -/
theorem run_stuck_exact_iff (rt : Runtime) (settings : ℕ → Settings) (actions : List Action) (s : System)
    (h : run rt settings (start Ledger.empty) actions = some s) (olderThan : Time) :
    (∀ e, e ∈ findStuckQueued s.ledger olderThan ↔
        e ∈ s.ledger.events.rows ∧ s.ledger.StuckSince olderThan e) ↔
      ∀ e ∈ s.ledger.events.rows, e.status = queued → ∀ t, s.ledger.lastEntry e.eventId = some t →
        t.IsReplay → (e.receivedAt < olderThan ↔ t.occurredAt < olderThan) := by
  have hs : s.Arrivals := Machine.run_inv' Arrivals (fun _ _ _ hs hst => step_arrivals hs hst) start_arrivals h
  constructor
  · intro hexact e he hq t ht _
    have hiff := hexact e
    rw [mem_findStuckQueued] at hiff
    constructor
    · intro hold
      obtain ⟨_,_,t',ht',hlt⟩ := hiff.mp ⟨he,hq,hold⟩
      obtain rfl := Option.some.inj (ht.symm.trans ht')
      exact hlt
    · intro hlt
      exact (hiff.mpr ⟨he,hq,t,ht,hlt⟩).2.2
  · intro hreplayed e
    rw [mem_findStuckQueued]
    refine and_congr_right fun he => and_congr_right fun hq => ?_
    have hget : s.ledger.getEvent e.eventId = some e := Table.get_of_mem he
    obtain ⟨t,ht⟩ := (hs.entered.entry _ e hget hq).last
    obtain ⟨hmem,hto⟩ := Ledger.lastEntry_some ht
    have hside : e.receivedAt < olderThan ↔ t.occurredAt < olderThan := by
      rcases hs.received _ e hget t hmem hto with hrep | hat
      · exact hreplayed e he hq t ht hrep
      · rw [hat]
    rw [hside]
    constructor
    · intro hlt
      exact ⟨t,ht,hlt⟩
    · rintro ⟨t',ht',hlt⟩
      obtain rfl := Option.some.inj (ht.symm.trans ht')
      exact hlt

/-- When each row was received and when it last entered the queue. -/
def queueTimes (s : System) : List (Time × Option Time) :=
  s.ledger.events.rows.map fun e =>
    (e.receivedAt,(s.ledger.lastEntry e.eventId).map EventTransition.occurredAt)

theorem timelyUpload_queueTimes : ∃ s,
    run (clickRuntime 1704067200000) (fun _ => .single) (start Ledger.empty) timelyUpload = some s ∧
    s.queueTimes = [(0,some 9)] ∧ s.ledger.events.rows.map Event.status = [queued] := by
  have hrun : (run (clickRuntime 1704067200000) (fun _ => .single) (start Ledger.empty)
      timelyUpload).map (fun s => (s.queueTimes,s.ledger.events.rows.map Event.status)) =
      some ([(0,some 9)],[queued]) := by decide +kernel
  obtain ⟨s,hs,hboth⟩ := Option.map_eq_some_iff.mp hrun
  obtain ⟨htimes,hstatus⟩ := Prod.mk.inj hboth
  exact ⟨s,hs,htimes,hstatus⟩

/-- The theorem at an event received at 0 and replayed at 9, of which both are before 20. -/
theorem run_stuck_exact_iff_replayed : ∃ s,
    run (clickRuntime 1704067200000) (fun _ => .single) (start Ledger.empty) timelyUpload = some s ∧
    s.queueTimes = [(0,some 9)] ∧ ∀ e, e ∈ findStuckQueued s.ledger 20 ↔
      e ∈ s.ledger.events.rows ∧ s.ledger.StuckSince 20 e := by
  obtain ⟨s,hs,htimes,_⟩ := timelyUpload_queueTimes
  refine ⟨s,hs,htimes,(run_stuck_exact_iff _ _ timelyUpload s hs 20).mpr ?_⟩
  intro e he _ t ht _
  have hmem : (e.receivedAt,(s.ledger.lastEntry e.eventId).map EventTransition.occurredAt) ∈ s.queueTimes :=
    List.mem_map_of_mem he
  rw [htimes, List.mem_singleton, ht] at hmem
  obtain ⟨hreceived,hentered⟩ := Prod.mk.inj hmem
  have hat : t.occurredAt = 9 := Option.some.inj hentered
  rw [hreceived, hat]
  decide

/-- With the threshold in between, the event that was queued at 9 is taken for one that
is stuck since before 5. -/
theorem not_stuck_exact_replayed : ∃ s,
    run (clickRuntime 1704067200000) (fun _ => .single) (start Ledger.empty) timelyUpload = some s ∧
    ¬ ∀ e, e ∈ findStuckQueued s.ledger 5 ↔ e ∈ s.ledger.events.rows ∧ s.ledger.StuckSince 5 e := by
  obtain ⟨s,hs,htimes,hstatus⟩ := timelyUpload_queueTimes
  refine ⟨s,hs,?_⟩
  intro hexact
  obtain ⟨e,he,hq⟩ := List.mem_map.mp (hstatus ▸ List.mem_singleton_self queued)
  have hmem : (e.receivedAt,(s.ledger.lastEntry e.eventId).map EventTransition.occurredAt) ∈ s.queueTimes :=
    List.mem_map_of_mem he
  rw [htimes, List.mem_singleton] at hmem
  obtain ⟨hreceived,hentered⟩ := Prod.mk.inj hmem
  have hold : e.receivedAt < 5 := by
    rw [hreceived]
    decide
  obtain ⟨_,_,t,ht,hlt⟩ := (hexact e).mp (mem_findStuckQueued.mpr ⟨he,hq,hold⟩)
  rw [ht] at hentered
  have hat : t.occurredAt = 9 := Option.some.inj hentered
  rw [hat] at hlt
  exact absurd hlt (by decide)

end System
end ConversionGateway
