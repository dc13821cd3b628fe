import ConversionGateway.Concurrency.Effects

/-! # Commits of stale sessions

What a commit does to the committed rows when the session's objects may be out
of date. Only one thing is asked of a session: its objects were read from rows
of this ledger, whose identity columns nobody has changed since.
-/
namespace ConversionGateway
open Relational Relation

/-- The session's objects, each read once from a row that is still there. -/
structure Session.Known (s : Session) (db : Ledger) : Prop where
  events : ∀ e ∈ s.events, ∃ current, db.getEvent e.eventId = some current ∧
    current.identity = e.identity
  distinct : (s.events.map Event.eventId).Nodup
  deadLetters : ∀ d ∈ s.deadLetters, ∃ current, db.getDeadLetter d.id = some current
  single : (s.deadLetters.map DeadLetter.id).Nodup

namespace Session
variable {s : Session} {db : Ledger}

theorem event_of_mem (hs : (s.events.map Event.eventId).Nodup) {e current : Event} (he : e ∈ s.events)
    (hk : current.eventId = e.eventId) : s.event current = e := by
  unfold event
  cases hx : s.events.find? fun x => x.eventId = current.eventId with
  | none =>
    have hn := List.find?_eq_none.mp hx e he
    simp [hk] at hn
  | some x =>
    have hid : x.eventId = current.eventId := by simpa using List.find?_some hx
    exact List.inj_on_of_nodup_map hs (List.mem_of_find?_eq_some hx) he (hid.trans hk)

theorem deadLetter_of_mem (hs : (s.deadLetters.map DeadLetter.id).Nodup) {d current : DeadLetter}
    (hd : d ∈ s.deadLetters) (hk : current.id = d.id) : s.deadLetter current = d := by
  unfold deadLetter
  cases hx : s.deadLetters.find? fun x => x.id = current.id with
  | none =>
    have hn := List.find?_eq_none.mp hx d hd
    simp [hk] at hn
  | some x =>
    have hid : x.id = current.id := by simpa using List.find?_some hx
    exact List.inj_on_of_nodup_map hs (List.mem_of_find?_eq_some hx) hd (hid.trans hk)

/-- A session sees its own objects. -/
theorem Known.fresh_view (h : s.Known db) : s.Fresh (s.view db) := by
  refine ⟨fun e he => ?_,fun d hd => ?_⟩
  · obtain ⟨current,hc,_⟩ := h.events e he
    rw [view_getEvent, hc, Option.map_some, event_of_mem h.distinct he (Ledger.getEvent_eventId hc)]
  · obtain ⟨current,hc⟩ := h.deadLetters d hd
    rw [view_getDeadLetter, hc, Option.map_some, deadLetter_of_mem h.single hd (Journal.get_serial hc)]

/-- An object differs from its row in the progress of the event at most. -/
theorem Known.event_identity (h : s.Known db) {k : String} {current : Event}
    (hc : db.getEvent k = some current) : (s.event current).identity = current.identity := by
  rcases s.event_eq_or current with he | he
  · rw [he]
  · obtain ⟨current',hc',hid⟩ := h.events _ he
    rw [event_eventId, getEvent_self hc] at hc'
    cases hc'
    exact hid.symm

end Session

section Commit
variable {rt : Runtime} {db db' : Ledger} {tx : Transaction} {reply : Reply} {k : String}

theorem Transaction.commit_edits (hk : tx.session.Known db) (hp : tx.Paired)
    (h : tx.commit rt db = .ok (db',reply)) :
    ∃ out, Edits rt (tx.session.view db) out ∧ tx.session.flush db out = db' := by
  obtain ⟨out,hb,hf,_⟩ := commit_ok.mp h
  exact ⟨out,body_edits hk.fresh_view hp hb,hf⟩

/-- No commit removes a row or changes what the event is. -/
theorem Transaction.commit_identity (hk : tx.session.Known db) (hp : tx.Paired)
    (h : tx.commit rt db = .ok (db',reply)) {current : Event} (hc : db.getEvent k = some current) :
    ∃ current', db'.getEvent k = some current' ∧ current'.identity = current.identity := by
  obtain ⟨out,hedits,rfl⟩ := commit_edits hk hp h
  have hv : (tx.session.view db).getEvent k = some (tx.session.event current) := by
    rw [Session.view_getEvent, hc, Option.map_some]
  obtain ⟨final,hfinal,hrow⟩ := hedits.row hv
  have hid := identity_of_rowEdits hrow
  have hkey : db.getEvent final.eventId = some current := by
    rw [Ledger.getEvent_eventId hfinal, hc]
  refine ⟨Event.merge (tx.session.event current) final current,?_,Event.merge_identity hid⟩
  rw [Session.flush_getEvent, hfinal, Option.map_some, Session.settle_of_some hkey]

theorem Transaction.commit_keeps_letter (hk : tx.session.Known db) (hp : tx.Paired)
    (h : tx.commit rt db = .ok (db',reply)) {id : ℕ} (hd : (db.getDeadLetter id).isSome) :
    (db'.getDeadLetter id).isSome := by
  obtain ⟨out,hedits,rfl⟩ := commit_edits hk hp h
  have hv : ((tx.session.view db).getDeadLetter id).isSome := by
    rwa [Session.view_getDeadLetter, Option.isSome_map]
  have ho : (out.getDeadLetter id).isSome :=
    Edits.inv (I := fun db => (db.getDeadLetter id).isSome) (fun _ _ hi he => he.keeps_letter hi) hv hedits
  rwa [Session.flush_getDeadLetter, Option.isSome_map]

/-- A property of rows that the edits keep, and that a row put together from two
others inherits, is kept by commits. -/
theorem Transaction.commit_forall {P : Event → Prop} (hnew : ∀ e, e.Created → P e)
    (hedit : ∀ e x, RowEdit rt e x → P e → P x)
    (hmerge : ∀ base final current, P final → P current → final.identity = current.identity →
      P (Event.merge base final current))
    (hk : tx.session.Known db) (hp : tx.Paired) (h : tx.commit rt db = .ok (db',reply))
    (hrows : ∀ k e, db.getEvent k = some e → P e) (hheld : ∀ e ∈ tx.session.events, P e) :
    ∀ k e, db'.getEvent k = some e → P e := by
  obtain ⟨out,hedits,rfl⟩ := commit_edits hk hp h
  have hview : ∀ k e, (tx.session.view db).getEvent k = some e → P e := by
    intro k e he
    rw [Session.view_getEvent] at he
    obtain ⟨current,hc,rfl⟩ := Option.map_eq_some_iff.mp he
    rcases tx.session.event_eq_or current with heq | hmem
    · rw [heq]
      exact hrows k current hc
    · exact hheld _ hmem
  have hout : ∀ k e, out.getEvent k = some e → P e :=
    Edits.inv (fun _ _ hi he => he.forall_rows hnew hedit hi) hview hedits
  intro k e he
  rw [Session.flush_getEvent] at he
  obtain ⟨final,hfinal,rfl⟩ := Option.map_eq_some_iff.mp he
  have hP := hout k final hfinal
  cases hc : db.getEvent final.eventId with
  | none => rwa [Session.settle_of_none hc]
  | some current =>
    rw [Session.settle_of_some hc]
    refine hmerge _ _ _ hP (hrows _ _ hc) ?_
    have hk' := Ledger.getEvent_eventId hfinal
    have hv : (tx.session.view db).getEvent k = some (tx.session.event current) := by
      rw [Session.view_getEvent, ← hk', hc, Option.map_some]
    obtain ⟨final',hfinal',hrow⟩ := hedits.row hv
    rw [hfinal] at hfinal'
    cases hfinal'
    exact (identity_of_rowEdits hrow).trans (hk.event_identity hc)

/-- A body that is no ingest rewrites the rows of its keys. -/
theorem Transaction.body_rewrites {out : Ledger}
    (hf : ∀ e ∈ tx.session.events, db.getEvent e.eventId = some e) (hn : tx.keys.Nodup)
    (hi : ∀ source plan correlationId now, tx ≠ .ingest source plan correlationId now)
    (h : tx.body rt db = .ok (out,reply)) :
    Table.Rewrites (· ∈ tx.keys) (ReflGen (tx.Change rt)) db.events out.events := by
  cases tx with
  | ingest source plan correlationId now => exact absurd rfl (hi source plan correlationId now)
  | process message loaded now =>
    obtain ⟨⟨db₁,o⟩,ho,h⟩ := Outcome.bind_ok.mp h
    cases h
    rcases processMessage_ok ho with ⟨rfl,_⟩ | ⟨e,rfl,hq,e',reason,hp,rfl⟩
    · exact .refl (fun _ => .refl) _
    · have he := hf e (by simp [session])
      refine (record_rewrites reason now he (by cases hp <;> rfl)
        (.single ⟨hq,reason,hp⟩)).widen (fun _ => .refl) ?_
      rintro _ rfl
      simp [keys,session]
  | claim st selected now =>
    obtain ⟨⟨db₁,items⟩,hc,h⟩ := Outcome.bind_ok.mp h
    cases h
    exact (claim_rewrites hn hc).mono fun _ _ hx => .single hx
  | retry ids loaded reason stamps =>
    obtain ⟨db₁,hr,h⟩ := Outcome.bind_ok.mp h
    cases h
    refine (onRetry_rewrites hr).widen (fun _ => .refl) ?_
    intro id hid
    obtain ⟨e,he,hk⟩ : ∃ e ∈ loaded, e.eventId = id := by
      simpa [found] using (List.mem_filter.mp hid).2
    exact List.mem_map.mpr ⟨e,he,hk⟩
  | apply batch loaded rows now =>
    obtain ⟨db₁,ha,h⟩ := Outcome.bind_ok.mp h
    cases h
    exact applyResult_rewrites ha
  | bury batch loaded failure now =>
    obtain ⟨db₁,hb,h⟩ := Outcome.bind_ok.mp h
    cases h
    exact deadLetterAll_rewrites hb
  | replay letter loaded now =>
    obtain ⟨⟨db₁,m⟩,hm,h⟩ := Outcome.bind_ok.mp h
    cases h
    rcases replay_ok hm with ⟨rfl,_⟩ | ⟨e,rfl,ho,hd,rfl,_⟩
    · exact .refl (fun _ => .refl) _
    · have he := hf e (by simp [session])
      refine (record_rewrites (some (replayedReason letter.id)) now he (by rfl)
        (.single ⟨hd,ho,rfl⟩)).widen (fun _ => .refl) ?_
      rintro _ rfl
      simp [keys,session]

/-- One committed row through a commit that is no ingest: the object of the
session changes as the transaction may change it, and what changed is written. -/
theorem Transaction.commit_row (hk : tx.session.Known db) (hn : tx.keys.Nodup)
    (hi : ∀ source plan correlationId now, tx ≠ .ingest source plan correlationId now)
    (h : tx.commit rt db = .ok (db',reply)) {current : Event} (hc : db.getEvent k = some current) :
    (k ∉ tx.keys → db'.getEvent k = some current) ∧ ∃ final,
      ReflGen (tx.Change rt) (tx.session.event current) final ∧
      db'.getEvent k = some (Event.merge (tx.session.event current) final current) := by
  obtain ⟨out,hb,rfl,_⟩ := commit_ok.mp h
  have hw := body_rewrites hk.fresh_view.events hn hi hb
  have hv : (tx.session.view db).getEvent k = some (tx.session.event current) := by
    rw [Session.view_getEvent, hc, Option.map_some]
  obtain ⟨final,hfinal,hchange,hframe⟩ : ∃ final, out.getEvent k = some final ∧
      ReflGen (tx.Change rt) (tx.session.event current) final ∧
      (k ∉ tx.keys → final = tx.session.event current) := by
    by_cases hkey : k ∈ tx.keys
    · obtain ⟨final,hfinal,hchange⟩ := hw.touch k _ hkey hv
      exact ⟨final,hfinal,hchange,fun hn => absurd hkey hn⟩
    · exact ⟨_,(hw.frame k hkey).trans hv,.refl,fun _ => rfl⟩
  have hkey : db.getEvent final.eventId = some current := by
    rw [Ledger.getEvent_eventId hfinal, hc]
  have hrow : (tx.session.flush db out).getEvent k =
      some (Event.merge (tx.session.event current) final current) := by
    rw [Session.flush_getEvent, hfinal, Option.map_some, Session.settle_of_some hkey]
  refine ⟨fun hn => ?_,final,hchange,hrow⟩
  rw [hrow, hframe hn, Event.merge_unchanged]

/-- Nor does it add rows. -/
theorem Transaction.commit_absent (hk : tx.session.Known db) (hn : tx.keys.Nodup)
    (hi : ∀ source plan correlationId now, tx ≠ .ingest source plan correlationId now)
    (h : tx.commit rt db = .ok (db',reply)) (hc : db.getEvent k = none) : db'.getEvent k = none := by
  obtain ⟨out,hb,rfl,_⟩ := commit_ok.mp h
  have hv : (tx.session.view db).getEvent k = none := by
    rw [Session.view_getEvent, hc, Option.map_none]
  have ho : out.getEvent k = none := (body_rewrites hk.fresh_view.events hn hi hb).absent k hv
  rw [Session.flush_getEvent, ho, Option.map_none]

/-- Only a claim hands out items, of rows it changed and left UPLOADING. -/
theorem Transaction.commit_items (hn : tx.keys.Nodup) (h : tx.commit rt db = .ok (db',reply)) :
    ∀ c ∈ reply.items, (∃ st selected now, tx = .claim st selected now) ∧ c.eventId ∈ tx.keys ∧
      c.Backed db' := by
  intro c hc
  cases tx with
  | claim st selected now =>
    have hfresh : (Transaction.claim st selected now).session.Fresh db := Session.fresh_empty db
    have hb := (commit_fresh hfresh h).1
    obtain ⟨⟨out,items⟩,hcl,hb⟩ := Outcome.bind_ok.mp hb
    cases hb
    exact ⟨⟨st,selected,now,rfl⟩,claim_backed hn hcl c hc⟩
  | ingest | process | retry | apply | bury | replay =>
    obtain ⟨out,hb,_⟩ := commit_ok.mp h
    obtain ⟨_,_,hb⟩ := Outcome.bind_ok.mp hb
    cases hb
    cases hc

end Commit
end ConversionGateway
