import ConversionGateway.Lifecycle.IngestOutcome
import ConversionGateway.System.Links

/-! # Committed rows

One row of the ledger through one commit: it stays as it is, or the object of the
committing session changes as its transaction may change it and what changed is
written over the row. Only an ingest adds a row.
-/
namespace ConversionGateway
open EventStatus

section Row
variable {base final current : Event}

/-- A claimed row is UPLOADING, unless the claim cut it off. -/
theorem Event.TakenBy.status {maxAttempts : ℕ} {now : Time} {e x : Event}
    (h : e.TakenBy maxAttempts now x) : x.status = uploading ∨ x.status = deadLettered := by
  obtain ⟨y,reason,hy,hx⟩ := h
  cases hx with
  | refl =>
    refine Or.inl ?_
    cases hy with
    | attempt ha => rfl
    | reclaim hu => exact hu
  | single hcut =>
    obtain ⟨_,reason,rfl⟩ := hcut
    exact Or.inr rfl

/-- Only a row that may become UPLOADING, or is, can be claimed. -/
theorem Event.TakenBy.before {maxAttempts : ℕ} {now : Time} {e x : Event}
    (h : e.TakenBy maxAttempts now x) :
    e.status = processed ∨ e.status = failedRetryable ∨ e.status = uploading := by
  obtain ⟨y,reason,hy,_⟩ := h
  cases hy with
  | attempt ha => cases hs : e.status <;> simp_all [allowedTransitions]
  | reclaim hu => exact Or.inr (Or.inr hu)

/-- The two assignments of a retry cancel out: the status column is not written. -/
theorem Event.Retried.merge_status {stamps : List Time} (h : base.Retried stamps final) :
    (Event.merge base final current).status = current.status := by
  rw [Event.merge_status, h.after, h.before, pick_unchanged]

/-- The status of an outcome is always written. -/
theorem Event.Settled.merge_status (h : base.Settled final) :
    (Event.merge base final current).status = final.status := by
  refine pick_of_ne fun heq => ?_
  have ha := h.allowed
  rw [heq] at ha
  exact EventStatus.not_allowed_self _ ha

end Row

namespace System
variable {rt : Runtime} {settings : ℕ → Settings} {s t : System} {who : Process} {tx : Transaction}
  {reply : Reply} {k : String} {e : Event}

/-- The transaction of an ingest leaves the rows that are there alone and adds at
most the row of its plan. -/
theorem Commits.ingest {source : Source} {plan : IngestPlan} {correlationId : CorrelationId} {now : Time}
    (hc : Commits rt settings s t who (.ingest source plan correlationId now) reply) :
    ∃ i, reply = .ingested i ∧ plan.eventId source = some i.response.eventId ∧
      ((t.ledger = s.ledger ∧ i.message = none ∧ s.ledger.getEvent i.response.eventId ≠ none) ∨
        ∃ x, plan.Enters source now x ∧ x.eventId = i.response.eventId ∧
          s.ledger.getEvent x.eventId = none ∧
          (∀ k, t.ledger.getEvent k = if k = x.eventId then some x else s.ledger.getEvent k) ∧
          ∀ m ∈ i.message, m.eventId = x.eventId ∧ x.status = .queued) := by
  obtain ⟨⟨i,hbody,rfl⟩,_⟩ := commit_ingest.mp hc.commit
  exact ⟨i,rfl,ingestBody_ok hbody⟩

/-- A row that is there, through a commit. -/
theorem Commits.row (hs : s.Linked) (hc : Commits rt settings s t who tx reply)
    (he : s.ledger.getEvent k = some e) :
    t.ledger.getEvent k = some e ∨ (k ∈ tx.keys ∧ ∃ final, tx.Change rt (tx.session.event e) final ∧
      t.ledger.getEvent k = some (Event.merge (tx.session.event e) final e)) := by
  by_cases hi : ∃ source plan correlationId now, tx = .ingest source plan correlationId now
  · obtain ⟨source,plan,correlationId,now,rfl⟩ := hi
    obtain ⟨⟨i,hbody,_⟩,_⟩ := commit_ingest.mp hc.commit
    exact Or.inl (ingestBody_row hbody he)
  · have hi : ∀ source plan correlationId now, tx ≠ .ingest source plan correlationId now :=
      fun source plan correlationId now heq => hi ⟨source,plan,correlationId,now,heq⟩
    obtain ⟨hframe,final,hchange,hget⟩ := Transaction.commit_row (hs.known hc.transaction)
      (hs.keys_nodup hc.transaction) hi hc.commit he
    by_cases hkey : k ∈ tx.keys
    · cases hchange with
      | refl =>
        rw [Event.merge_unchanged] at hget
        exact Or.inl hget
      | single hchange => exact Or.inr ⟨hkey,final,hchange,hget⟩
    · exact Or.inl (hframe hkey)

/-- A row that is not there is only added by an ingest that plans it. -/
theorem Commits.new_row (hs : s.Linked) (hc : Commits rt settings s t who tx reply)
    (hn : s.ledger.getEvent k = none) (he : t.ledger.getEvent k = some e) :
    ∃ source plan correlationId now, tx = .ingest source plan correlationId now ∧
      plan.eventId source = some k ∧ plan.Enters source now e := by
  by_cases hi : ∃ source plan correlationId now, tx = .ingest source plan correlationId now
  · obtain ⟨source,plan,correlationId,now,rfl⟩ := hi
    refine ⟨source,plan,correlationId,now,rfl,?_⟩
    obtain ⟨i,_,hid,⟨heq,_⟩ | ⟨x,hx,hkey,_,hget,_⟩⟩ := hc.ingest
    · rw [heq, hn] at he
      cases he
    · rw [hget] at he
      split at he
      · next hk =>
        cases he
        exact ⟨by rw [hid, ← hkey, hk],hx⟩
      · rw [hn] at he
        cases he
  · have hi : ∀ source plan correlationId now, tx ≠ .ingest source plan correlationId now :=
      fun source plan correlationId now heq => hi ⟨source,plan,correlationId,now,heq⟩
    have habsent := Transaction.commit_absent (hs.known hc.transaction) (hs.keys_nodup hc.transaction)
      hi hc.commit hn
    rw [habsent] at he
    cases he

/-- Each row that a claim selected is taken by it. -/
theorem Commits.claimed {st : Settings} {selected : List String} {now : Time} (hs : s.Linked)
    (hc : Commits rt settings s t who (.claim st selected now) reply) (hk : k ∈ selected)
    (he : s.ledger.getEvent k = some e) :
    ∃ e', t.ledger.getEvent k = some e' ∧ e.TakenBy st.maxRowAttempts now e' := by
  have hfresh : (Transaction.claim st selected now).session.Fresh s.ledger := Session.fresh_empty _
  obtain ⟨⟨out,items⟩,hclaim,hb⟩ := Outcome.bind_ok.mp (Transaction.commit_fresh hfresh hc.commit).1
  obtain ⟨rfl,_⟩ := Prod.mk.inj (Except.ok.inj hb)
  exact (claim_rewrites (hs.keys_nodup hc.transaction) hclaim).touch k e hk he

/-- Each row of the batch that a retry has read is retried. -/
theorem Commits.retried {ids : List String} {loaded : List Event} {reason : String} {stamps : List Time}
    (hs : s.Linked) (hc : Commits rt settings s t who (.retry ids loaded reason stamps) reply)
    (hlen : stamps.length = (found ids loaded).length) (hid : k ∈ found ids loaded)
    (he : s.ledger.getEvent k = some e) :
    ∃ base final, base ∈ loaded ∧ base.eventId = k ∧ base.Retried stamps final ∧
      t.ledger.getEvent k = some (Event.merge base final e) := by
  have hk := hs.known hc.transaction
  obtain ⟨out,hb,hflush,_⟩ := Transaction.commit_ok.mp hc.commit
  obtain ⟨out,hretry,hb⟩ := Outcome.bind_ok.mp hb
  cases hb
  obtain ⟨base,hbase,hkey⟩ := List.any_eq_true.mp (List.mem_filter.mp hid).2
  have hkey : base.eventId = k := by simpa using hkey
  have hobject : (Transaction.retry ids loaded reason stamps).session.event e = base :=
    Session.event_of_mem hk.distinct hbase (by rw [hkey, Ledger.getEvent_eventId he])
  have hview := hk.fresh_view.events base hbase
  rw [hkey] at hview
  obtain ⟨final,hfinal,hretried⟩ := onRetry_retried hretry hlen hid hview
  refine ⟨base,final,hbase,hkey,hretried,?_⟩
  rw [← hflush, Session.flush_getEvent, hfinal, Option.map_some,
    Session.settle_of_some (by rw [Ledger.getEvent_eventId hfinal, he]), hobject]

/-- A row that a worker has read as QUEUED is written by its commit. -/
theorem Commits.processed {m : QueueMessage} {now : Time} {current : Event} (hs : s.Linked)
    (hc : Commits rt settings s t who (.process m (some e) now) reply) (hq : e.status = queued)
    (hcur : s.ledger.getEvent e.eventId = some current) :
    ∃ final reason, e.Processed rt final reason ∧
      t.ledger.getEvent e.eventId = some (Event.merge e final current) := by
  have hk := hs.known hc.transaction
  obtain ⟨out,hb,hflush,_⟩ := Transaction.commit_ok.mp hc.commit
  obtain ⟨⟨out,o⟩,ho,hb⟩ := Outcome.bind_ok.mp hb
  cases hb
  rcases processMessage_ok ho with ⟨_,hn⟩ | ⟨e,⟨⟩,_,final,reason,hp,rfl⟩
  · exact absurd hq (hn e rfl)
  · refine ⟨final,reason,hp,?_⟩
    have hmem : e ∈ (Transaction.process m (some e) now).session.events := by simp [Transaction.session]
    have hview := hk.fresh_view.events e hmem
    have hkey : final.eventId = e.eventId := by cases hp <;> rfl
    have hobject : (Transaction.process m (some e) now).session.event current = e :=
      Session.event_of_mem hk.distinct hmem (Ledger.getEvent_eventId hcur)
    have hout : ((Ledger.record _ e final reason now).getEvent final.eventId) = some final :=
      Ledger.record_getEvent_self hview hkey
    rw [← hflush, Session.flush_getEvent, ← hkey, hout, Option.map_some,
      Session.settle_of_some (by rw [hkey, hcur]), hobject]

end System
end ConversionGateway
