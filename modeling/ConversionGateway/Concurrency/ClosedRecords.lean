import ConversionGateway.Concurrency.Filing

/-! # The record a replay closes

Records are filed open, and nothing but a replay that returns True closes one. A
closed record stays closed, also under the commit of a session that read it open.
-/
namespace ConversionGateway
open Relational

/-- The committed record was replayed. -/
def Ledger.Closed (db : Ledger) (r : ℕ) : Prop := ∃ d, db.getDeadLetter r = some d ∧ d.Replayed

instance (db : Ledger) (r : ℕ) : Decidable (db.Closed r) :=
  decidable_of_iff ((db.getDeadLetter r).any fun d => d.Replayed) (by simp [Ledger.Closed,Option.any_eq_true])

/-- What the call returns. -/
def Reply.returnsTrue : Reply → Bool
  | .replayed message => message.isSome
  | _ => false

section Bodies
variable {rt : Runtime} {db out : Ledger} {e : Event} {r : ℕ}

theorem closed_congr (h : out.deadLetters = db.deadLetters) : out.Closed r ↔ db.Closed r := by
  unfold Ledger.Closed Ledger.getDeadLetter
  rw [h]

theorem closed_addDeadLetter {d : DeadLetter} (hid : d.id = db.deadLetters.next) (hopen : d.replayedAt = none) :
    (db.addDeadLetter d hid).Closed r ↔ db.Closed r := by
  have hclosed : ¬ d.Replayed := by simp [DeadLetter.Replayed,hopen]
  unfold Ledger.Closed Ledger.getDeadLetter Ledger.addDeadLetter Journal.get
  rw [Journal.append_rows, List.find?_append]
  cases hold : db.deadLetters.rows.find? fun d => d.id = r with
  | some old => simp
  | none =>
    by_cases hkey : d.id = r
    · simp [hkey,hclosed]
    · simp [hkey]

theorem deadLetter_closed {failureClass : FailureClass} {reason : String} {code message : Option String}
    {payload : Json} {now : Time} (h : deadLetter db e failureClass reason code message payload now = .ok out) :
    out.Closed r ↔ db.Closed r := by
  obtain ⟨_,letter,hid,hrecords,_,rfl⟩ := deadLetter_ok h
  exact (closed_addDeadLetter hid hrecords.replayedAt).trans (closed_congr rfl)

/-- A loop closes nothing if its iterations do not. -/
theorem loop_closed {α σ : Type} {f : σ → α → Except PyError σ} (ledger : σ → Ledger) {items : List α}
    {s t : σ} (hstep : ∀ a ∈ items, ∀ s t, f s a = .ok t → ((ledger t).Closed r ↔ (ledger s).Closed r))
    (h : Outcome.loop f s items = .ok t) : (ledger t).Closed r ↔ (ledger s).Closed r :=
  Outcome.loop_rel (fun s t => (ledger t).Closed r ↔ (ledger s).Closed r) (fun _ => Iff.rfl)
    (fun h₁ h₂ => h₂.trans h₁) hstep h

/-- No transaction but a replay closes a record. -/
theorem body_closed {tx : Transaction} {reply : Reply} (htx : ∀ letter loaded now, tx ≠ .replay letter loaded now)
    (h : tx.body rt db = .ok (out,reply)) : (out.Closed r ↔ db.Closed r) ∧ reply.returnsTrue = false := by
  cases tx with
  | ingest source plan correlationId now =>
    obtain ⟨⟨mid,i⟩,hi,hb⟩ := Outcome.bind_ok.mp h
    cases hb
    exact ⟨closed_congr (ingestBody_deadLetters hi),rfl⟩
  | process message loaded now =>
    obtain ⟨⟨mid,o⟩,ho,hb⟩ := Outcome.bind_ok.mp h
    cases hb
    exact ⟨closed_congr (processMessage_deadLetters ho),rfl⟩
  | retry ids loaded reason stamps =>
    obtain ⟨mid,hr,hb⟩ := Outcome.bind_ok.mp h
    cases hb
    exact ⟨closed_congr (onRetry_deadLetters hr),rfl⟩
  | replay letter loaded now => exact absurd rfl (htx letter loaded now)
  | claim st selected now =>
    obtain ⟨⟨mid,items⟩,hm,hb⟩ := Outcome.bind_ok.mp h
    cases hb
    obtain ⟨first,hfirst,hloop⟩ := Outcome.bind_ok.mp hm
    have hrows : first.Closed r ↔ db.Closed r := closed_congr (claimForUpload_deadLetters hfirst)
    refine ⟨(loop_closed Prod.fst (fun k _ s t hs => ?_) hloop).trans hrows,rfl⟩
    rcases claimItem_ok hs with ⟨_,heq,_⟩ | ⟨_,_,_,_,⟨_,_,hd⟩ | ⟨_,heq,_⟩⟩
    · rw [heq]
    · exact deadLetter_closed hd
    · rw [heq]
  | apply batch loaded rows now =>
    obtain ⟨mid,hm,hb⟩ := Outcome.bind_ok.mp h
    cases hb
    refine ⟨loop_closed id (fun item _ s t hs => ?_) (applyResult_ok hm).1,rfl⟩
    obtain ⟨_,_,_,⟨_,_,_,_,rfl⟩ | hd⟩ := applyRow_ok hs
    · exact closed_congr rfl
    · exact deadLetter_closed hd
  | bury batch loaded failure now =>
    obtain ⟨mid,hm,hb⟩ := Outcome.bind_ok.mp h
    cases hb
    refine ⟨loop_closed id (fun k _ s t hs => ?_) hm,rfl⟩
    rcases deadLetterOne_ok hs with ⟨_,rfl⟩ | ⟨_,_,hd⟩
    · exact Iff.rfl
    · exact deadLetter_closed hd

end Bodies

section Commits
variable {rt : Runtime} {db db' out : Ledger} {r : ℕ} {reply : Reply}

/-- Of the two replay columns a commit writes those that its session changed. -/
theorem flush_replayedAt {s : Session} {d x : DeadLetter} (hd : db.getDeadLetter r = some d)
    (hx : out.getDeadLetter r = some x) : ∃ y, (s.flush db out).getDeadLetter r = some y ∧
      y.replayedAt = pick (s.deadLetter d).replayedAt x.replayedAt d.replayedAt := by
  have hkey : db.getDeadLetter x.id = some d := by rw [Journal.get_serial hx, hd]
  refine ⟨s.settleLetter db x,?_,?_⟩
  · rw [Session.flush_getDeadLetter, hx, Option.map_some]
  · simp only [Session.settleLetter, hkey]

/-- A record whose column the session left alone. -/
theorem flush_closed {s : Session} (h : out.getDeadLetter r = (s.view db).getDeadLetter r) :
    (s.flush db out).Closed r ↔ db.Closed r := by
  rw [Session.view_getDeadLetter] at h
  unfold Ledger.Closed
  cases hd : db.getDeadLetter r with
  | none =>
    rw [hd] at h
    rw [Session.flush_getDeadLetter, h]
    simp
  | some d =>
    rw [hd] at h
    obtain ⟨y,hy,hcolumn⟩ := flush_replayedAt (s := s) hd h
    rw [pick_unchanged] at hcolumn
    simp [hy,DeadLetter.Replayed,hcolumn]

/-- What a replay does to the records. -/
theorem replay_commit {letter : DeadLetter} {loaded : Option Event} {now : Time}
    (hk : (Transaction.replay letter loaded now).session.Known db)
    (h : (Transaction.replay letter loaded now).commit rt db = .ok (db',reply)) :
    (reply.returnsTrue = false ∧ ∀ r, db'.Closed r ↔ db.Closed r) ∨
    (reply.returnsTrue = true ∧ db'.Closed letter.id ∧ ∀ r, r ≠ letter.id → (db'.Closed r ↔ db.Closed r)) := by
  obtain ⟨out,hb,rfl,_⟩ := Transaction.commit_ok.mp h
  obtain ⟨⟨mid,m⟩,hm,hb⟩ := Outcome.bind_ok.mp hb
  cases hb
  rcases replay_ok hm with ⟨rfl,rfl⟩ | ⟨e,_,hopen,_,rfl,rfl⟩
  · exact Or.inl ⟨rfl,fun r => flush_closed rfl⟩
  · refine Or.inr ⟨rfl,?_,fun r hr => flush_closed ?_⟩
    · have hmem : letter ∈ (Transaction.replay letter loaded now).session.deadLetters := List.mem_singleton_self _
      obtain ⟨d,hd⟩ := hk.deadLetters letter hmem
      have hobject := Session.deadLetter_of_mem hk.single hmem (Journal.get_serial hd)
      have hview := hk.fresh_view.deadLetters letter hmem
      have hput : (((((Transaction.replay letter loaded now).session.view db).record e (e.requeued letter)
          (some (replayedReason letter.id)) now).putDeadLetter (letter.replayed now)).getDeadLetter letter.id) =
          some (letter.replayed now) :=
        Journal.get_put_self (r := letter.replayed now) hview
      obtain ⟨y,hy,hcolumn⟩ := flush_replayedAt hd hput
      refine ⟨y,hy,?_⟩
      have hset : (letter.replayed now).replayedAt = some now := rfl
      rw [hobject, hopen, hset, pick_of_ne (Option.some_ne_none now)] at hcolumn
      rw [DeadLetter.Replayed, hcolumn]
      rfl
    · exact Journal.get_put_of_ne hr

/-- Only a replay that returns True closes a record, and no commit opens one. -/
theorem Transaction.commit_closed {tx : Transaction} (hk : tx.session.Known db)
    (h : tx.commit rt db = .ok (db',reply)) :
    db'.Closed r ↔ db.Closed r ∨ (reply.returnsTrue = true ∧ ∃ letter loaded now, tx = .replay letter loaded now ∧
      letter.id = r) := by
  by_cases htx : ∃ letter loaded now, tx = .replay letter loaded now
  · obtain ⟨letter,loaded,now,rfl⟩ := htx
    rcases replay_commit hk h with ⟨hfalse,hsame⟩ | ⟨htrue,hclosed,hsame⟩
    · simp [hfalse,hsame r]
    · by_cases hr : letter.id = r
      · subst hr
        simp [htrue,hclosed]
      · simp [hsame r (Ne.symm hr),hr]
  · have htx : ∀ letter loaded now, tx ≠ .replay letter loaded now :=
      fun letter loaded now heq => htx ⟨letter,loaded,now,heq⟩
    obtain ⟨out,hb,rfl,_⟩ := commit_ok.mp h
    obtain ⟨hbody,hfalse⟩ := body_closed (r := r) htx hb
    have hsession : tx.session.deadLetters = [] := by
      cases tx with
      | replay letter loaded now => exact absurd rfl (htx letter loaded now)
      | ingest | process | claim | retry | apply | bury => rfl
    have hobject (d : DeadLetter) : tx.session.deadLetter d = d := by simp [Session.deadLetter,hsession]
    have hview : (tx.session.view db).getDeadLetter r = db.getDeadLetter r := by
      rw [Session.view_getDeadLetter, funext hobject, Option.map_id']
    have hflush : (tx.session.flush db out).Closed r ↔ out.Closed r := by
      unfold Ledger.Closed
      rw [Session.flush_getDeadLetter]
      cases hx : out.getDeadLetter r with
      | none => simp
      | some x =>
        have hcolumn : (tx.session.settleLetter db x).replayedAt = x.replayedAt := by
          unfold Session.settleLetter
          split
          · rfl
          · next d hd => rw [hobject, pick_fresh]
        simp [DeadLetter.Replayed,hcolumn]
    rw [hflush, hbody, Ledger.Closed, hview, hfalse]
    simp [Ledger.Closed]

end Commits
end ConversionGateway
