import Mathlib.Logic.Relation
import ConversionGateway.Lifecycle.Stamps

/-! # Edits of the ledger

What the operations can do to the ledger, said once: every operation is a
sequence of the edits below, each under its guard and, for the operations on one
event, each stamped with the time of the operation. The invariants of the audit
trail, of the dead-letter store and of the digests are proved for edits.
-/
namespace ConversionGateway
open Relational Relation

/-- A change of state that brings no other data with it. -/
structure Event.MayMove (e : Event) (dest : EventStatus) : Prop where
  allowed : dest ∈ e.status.allowedTransitions
  plain : dest ∈ [EventStatus.validated,.queued,.rejected,.suppressed,.uploaded,.failedRetryable]
  complete : dest = .validated → e.conversionAction.isSome ∧ e.conversionTime.isSome
  first : dest = .queued → e.status = .validated

inductive Edit (rt : Runtime) : Ledger → Ledger → Prop
  | create {db : Ledger} {e : Event} (hnew : db.events.get e.eventId = none) (he : e.Created)
      (now : Time) : Edit rt db (db.enter e hnew now)
  | label {db : Ledger} {e : Event} (he : db.getEvent e.eventId = some e) (c : Option String) :
      Edit rt db (db.putEvent (e.labelled c))
  | move {db : Ledger} {e : Event} {dest : EventStatus} (he : db.getEvent e.eventId = some e)
      (hm : e.MayMove dest) (reason : Option String) (now : Time) :
      Edit rt db (db.record e (e.moved dest reason) reason now)
  | process {db : Ledger} {e : Event} {hashed : HashedIdentifiers} (he : db.getEvent e.eventId = some e)
      (hq : e.status = .queued) (hg : e.Granted)
      (hm : e.hashedIdentifiers = some hashed ∨ e.Matchable rt hashed) (now : Time) :
      Edit rt db (db.record e (e.processedWith hashed) none now)
  | attempt {db : Ledger} {e : Event} (he : db.getEvent e.eventId = some e)
      (ha : .uploading ∈ e.status.allowedTransitions) (now : Time) :
      Edit rt db (db.record e ((e.moved .uploading none).attempted now) none now)
  | reclaim {db : Ledger} {e : Event} (he : db.getEvent e.eventId = some e)
      (hu : e.status = .uploading) (now : Time) :
      Edit rt db (db.record e (e.attempted now) reclaimedStale now)
  | bury {db : Ledger} {e : Event} {reason : String} {now : Time} {letter : DeadLetter}
      (he : db.getEvent e.eventId = some e) (ha : .deadLettered ∈ e.status.allowedTransitions)
      (hid : letter.id = db.deadLetters.next)
      (hl : letter.Records e ((db.record e (e.moved .deadLettered (some reason)) (some reason)
        now).listTransitions e.eventId)) :
      Edit rt db ((db.record e (e.moved .deadLettered (some reason)) (some reason) now).addDeadLetter
        letter hid)
  | revive {db : Ledger} {e : Event} {letter : DeadLetter} (he : db.getEvent e.eventId = some e)
      (hd : e.status = .deadLettered) (hl : db.getDeadLetter letter.id = some letter)
      (hk : letter.eventId = e.eventId) (ho : letter.replayedAt = none) (now : Time) :
      Edit rt db ((db.record e (e.requeued letter) (some (replayedReason letter.id)) now).putDeadLetter
        (letter.replayed now))
  | skip {db : Ledger} (n m : ℕ) :
      Edit rt db { db with transitions := db.transitions.skip n, deadLetters := db.deadLetters.skip m }

/-- A sequence of edits. -/
abbrev Edits (rt : Runtime) : Ledger → Ledger → Prop := ReflTransGen (Edit rt)

/-- A sequence of edits that write the trail of one event, all at one time. -/
abbrev EventEdits (rt : Runtime) (k : String) (now : Time) : Ledger → Ledger → Prop :=
  ReflTransGen fun db db' => Edit rt db db' ∧ Ledger.Adds k now db db'

theorem EventEdits.edits {rt : Runtime} {k : String} {now : Time} {db db' : Ledger}
    (h : EventEdits rt k now db db') : Edits rt db db' := ReflTransGen.mono (fun _ _ h => h.1) _ _ h

/-- What an edit does to one row that was there before. -/
inductive RowEdit (rt : Runtime) (e : Event) : Event → Prop
  | label (c : Option String) : RowEdit rt e (e.labelled c)
  | move {dest : EventStatus} (hm : e.MayMove dest) (reason : Option String) :
      RowEdit rt e (e.moved dest reason)
  | process {hashed : HashedIdentifiers} (hq : e.status = .queued) (hg : e.Granted)
      (hm : e.hashedIdentifiers = some hashed ∨ e.Matchable rt hashed) :
      RowEdit rt e (e.processedWith hashed)
  | attempt (ha : .uploading ∈ e.status.allowedTransitions) (now : Time) :
      RowEdit rt e ((e.moved .uploading none).attempted now)
  | reclaim (hu : e.status = .uploading) (now : Time) : RowEdit rt e (e.attempted now)
  | bury (ha : .deadLettered ∈ e.status.allowedTransitions) (reason : String) :
      RowEdit rt e (e.moved .deadLettered (some reason))
  | revive (hd : e.status = .deadLettered) (letter : DeadLetter) : RowEdit rt e (e.requeued letter)

theorem RowEdit.identity {rt : Runtime} {e x : Event} (h : RowEdit rt e x) : x.identity = e.identity := by
  cases h <;> rfl

section Rows
variable {rt : Runtime} {db db' : Ledger} {e x : Event} {k : String}

theorem row_of_put (he : db.getEvent e.eventId = some e) {e' : Event} (hk : e'.eventId = e.eventId)
    (hr : RowEdit rt e e') (h : db.getEvent k = some x) :
    ∃ y, (db.putEvent e').getEvent k = some y ∧ (y = x ∨ RowEdit rt x y) := by
  rw [Ledger.putEvent_getEvent he hk]
  split
  · next heq =>
    subst heq
    rw [he] at h
    cases h
    exact ⟨e',rfl,Or.inr hr⟩
  · exact ⟨x,h,Or.inl rfl⟩

/-- A row survives an edit, changed by one row edit at most. -/
theorem Edit.row (h : Edit rt db db') (hx : db.getEvent k = some x) :
    ∃ y, db'.getEvent k = some y ∧ (y = x ∨ RowEdit rt x y) := by
  cases h with
  | create hnew he now =>
    rw [Ledger.enter_getEvent]
    split
    · next heq =>
      subst heq
      exact absurd (hnew.symm.trans hx) (by simp)
    · exact ⟨x,hx,Or.inl rfl⟩
  | label he c => exact row_of_put he rfl (.label c) hx
  | move he hm reason now => exact row_of_put he rfl (.move hm reason) hx
  | process he hq hg hm now => exact row_of_put he rfl (.process hq hg hm) hx
  | attempt he ha now => exact row_of_put he rfl (.attempt ha now) hx
  | reclaim he hu now => exact row_of_put he rfl (.reclaim hu now) hx
  | bury he ha hid hl => exact row_of_put he rfl (.bury ha _) hx
  | revive he hd hl hk ho now => exact row_of_put he rfl (.revive hd _) hx
  | skip n m => exact ⟨x,hx,Or.inl rfl⟩

/-- A row that an edit brings in is as the INSERT left it. -/
theorem Edit.new_row (h : Edit rt db db') (hk : db.getEvent k = none) (hx : db'.getEvent k = some x) :
    x.Created := by
  have hput (e' : Event) (hx : (db.putEvent e').getEvent k = some x) : x.Created := by
    have hn : (db.putEvent e').getEvent k = none := by
      unfold Ledger.getEvent Ledger.putEvent
      rw [Table.get_put, show db.events.get k = none from hk]
      split <;> rfl
    exact absurd (hn.symm.trans hx) (by simp)
  cases h with
  | create hnew he now =>
    rw [Ledger.enter_getEvent] at hx
    split at hx
    · cases hx
      exact he
    · exact absurd (hk.symm.trans hx) (by simp)
  | label he c => exact hput _ hx
  | move he hm reason now => exact hput _ hx
  | process he hq hg hm now => exact hput _ hx
  | attempt he ha now => exact hput _ hx
  | reclaim he hu now => exact hput _ hx
  | bury he ha hid hl => exact hput _ hx
  | revive he hd hl hk ho now => exact hput _ hx
  | skip n m => exact absurd (hk.symm.trans hx) (by simp)

/-- A property of rows that holds of new rows and survives row edits. -/
theorem Edit.forall_rows {P : Event → Prop} (hnew : ∀ e, e.Created → P e)
    (hedit : ∀ e x, RowEdit rt e x → P e → P x) (h : Edit rt db db')
    (hP : ∀ k e, db.getEvent k = some e → P e) : ∀ k e, db'.getEvent k = some e → P e := by
  intro k y hy
  cases hx : db.getEvent k with
  | none => exact hnew y (h.new_row hx hy)
  | some x =>
    obtain ⟨z,hz,hzx⟩ := h.row hx
    rw [hz] at hy
    cases hy
    rcases hzx with rfl | hr
    · exact hP k _ hx
    · exact hedit x _ hr (hP k x hx)

/-- Records of the dead-letter store are never removed, and a replay changes its two
columns only. -/
theorem Edit.letter (h : Edit rt db db') {id : ℕ} {d : DeadLetter} (hd : db.getDeadLetter id = some d) :
    ∃ d', db'.getDeadLetter id = some d' ∧ d'.frozen = d.frozen := by
  cases h with
  | create | label | move | process | attempt | reclaim | skip => exact ⟨d,hd,rfl⟩
  | bury he ha hid hl =>
    refine ⟨d,?_,rfl⟩
    change ((db.deadLetters.append _ hid).rows.find? fun r => r.id = id) = some d
    have hd : (db.deadLetters.rows.find? fun r => r.id = id) = some d := hd
    rw [Journal.append_rows, List.find?_append, hd, Option.some_or]
  | @revive e letter he hd' hl hk ho now =>
    have hget : (db.deadLetters.put (letter.replayed now)).get id = (db.deadLetters.get id).map
        fun x => if x.id = letter.id then letter.replayed now else x := Journal.get_mapRows ..
    refine ⟨_,hget.trans (congrArg (Option.map _) hd),?_⟩
    dsimp only
    split
    · next heq =>
      have hsame : d = letter := Journal.eq_of_serial (Journal.mem_of_get hd) (Journal.mem_of_get hl) heq
      rw [hsame]
      rfl
    · rfl

theorem Edit.keeps_letter (h : Edit rt db db') {id : ℕ} (hd : (db.getDeadLetter id).isSome) :
    (db'.getDeadLetter id).isSome := by
  obtain ⟨d,hd⟩ := Option.isSome_iff_exists.mp hd
  obtain ⟨d',hd',_⟩ := h.letter hd
  rw [hd']
  rfl

/-- An invariant kept by every edit is kept by every sequence of edits. -/
theorem Edits.inv {rt : Runtime} {I : Ledger → Prop} (hedit : ∀ db db', I db → Edit rt db db' → I db')
    {db db' : Ledger} (hs : I db) (h : Edits rt db db') : I db' := by
  induction h with
  | refl => exact hs
  | tail _ he ih => exact hedit _ _ ih he

/-- A row through several edits. -/
theorem Edits.row (h : Edits rt db db') (hx : db.getEvent k = some x) :
    ∃ y, db'.getEvent k = some y ∧ ReflTransGen (RowEdit rt) x y := by
  induction h with
  | refl => exact ⟨x,hx,.refl⟩
  | tail _ he ih =>
    obtain ⟨y,hy,hxy⟩ := ih
    obtain ⟨z,hz,rfl | hyz⟩ := he.row hy
    · exact ⟨_,hz,hxy⟩
    · exact ⟨z,hz,hxy.tail hyz⟩

theorem identity_of_rowEdits {y : Event} (h : ReflTransGen (RowEdit rt) x y) :
    y.identity = x.identity := by
  induction h with
  | refl => rfl
  | tail _ hr ih => exact hr.identity.trans ih

end Rows

/-! ## The operations are edits -/

section Operations
variable {rt : Runtime} {db out : Ledger} {e e' : Event}

/-- Ingest writes nothing, or a new event. -/
def NewEvent (rt : Runtime) (now : Time) (db out : Ledger) : Prop :=
  out = db ∨ ∃ k, db.getEvent k = none ∧ EventEdits rt k now db out

theorem NewEvent.edits {now : Time} (h : NewEvent rt now db out) : Edits rt db out := by
  rcases h with rfl | ⟨_,_,h⟩
  · exact .refl
  · exact h.edits

theorem recordValidated_edits {event : CanonicalLeadEvent} {now : Time} {r : Option Event}
    (h : recordValidated rt db event now = .ok (out,r)) : NewEvent rt now db out := by
  rcases recordValidated_ok h with ⟨_,rfl,_⟩ | ⟨row,stored,hrow,hstored,hnew,_,rfl⟩
  · exact Or.inl rfl
  · obtain ⟨hc,ht,hlast⟩ : row.Created ∧ (stored.conversionAction.isSome ∧ stored.conversionTime.isSome) ∧
        stored.lastAttemptAt = none := by
      obtain ⟨_,_,hrow⟩ := Outcome.bind_ok.mp hrow
      obtain ⟨_,_,hrow⟩ := Outcome.bind_ok.mp hrow
      have hrow := Outcome.pure_ok.mp hrow
      have ht := hstored.time
      obtain ⟨v,t,rfl⟩ := hstored.columns
      rw [← hrow] at ht ⊢
      exact ⟨⟨rfl,rfl,rfl⟩,⟨rfl,ht⟩,rfl⟩
    have hs := (hstored.created hc).status
    have he := Ledger.enter_getEvent_self now hnew
    have he₁ := Ledger.moved_getEvent he .validated none now
    have hm₁ : stored.MayMove .validated :=
      ⟨by simp [hs,EventStatus.allowedTransitions],by simp,fun _ => ht,by simp⟩
    have hm₂ : (stored.moved .validated none).MayMove .queued :=
      ⟨by simp [Event.moved,EventStatus.allowedTransitions],by simp,by simp,fun _ => rfl⟩
    have hcreate : EventEdits rt stored.eventId now db (db.enter stored hnew now) :=
      .single ⟨.create hnew (hstored.created hc) now,Ledger.adds_enter now hnew hlast⟩
    have hvalidate := hcreate.tail ⟨.move he hm₁ none now,Ledger.adds_moved none now he (by simp)⟩
    exact Or.inr ⟨stored.eventId,hnew,
      hvalidate.tail ⟨.move he₁ hm₂ none now,Ledger.adds_moved none now he₁ fun _ => ⟨rfl,rfl⟩⟩⟩

theorem ingestRejected_edits {correlationId : CorrelationId} {now : Time} {source : Source}
    {sourceEventId : PyText} {errors : List FieldError} {i : Ingested}
    (h : ingestRejected rt db correlationId now source sourceEventId errors = .ok (out,i)) :
    NewEvent rt now db out := by
  obtain ⟨id,_,h₁⟩ := Outcome.bind_ok.mp h
  obtain ⟨⟨db₁,r⟩,hr,h₂⟩ := Outcome.bind_ok.mp h₁
  rcases recordRejected_ok hr with ⟨rfl,rfl,_⟩ | ⟨stored,hstored,hnew,rfl,rfl⟩
  · simp only [Outcome.pure_ok, Prod.mk.injEq] at h₂
    obtain ⟨rfl,_⟩ := h₂
    exact Or.inl rfl
  · simp only [Outcome.pure_ok, Prod.mk.injEq] at h₂
    obtain ⟨rfl,_⟩ := h₂
    have hc := hstored.created ⟨rfl,rfl,rfl⟩
    have hlast : stored.lastAttemptAt = none := by
      obtain ⟨v,t,rfl⟩ := hstored.columns
      rfl
    have he := Ledger.enter_getEvent_self now hnew
    have hm : stored.MayMove .rejected :=
      ⟨by simp [hc.status,EventStatus.allowedTransitions],by simp,by simp,by simp⟩
    have he₁ := Ledger.moved_getEvent he .rejected (some (rejectReason errors)) now
    have hcreate : EventEdits rt stored.eventId now db (db.enter stored hnew now) :=
      .single ⟨.create hnew hc now,Ledger.adds_enter now hnew hlast⟩
    have hreject := hcreate.tail ⟨.move he hm (some (rejectReason errors)) now,
      Ledger.adds_moved _ now he (by simp)⟩
    exact Or.inr ⟨stored.eventId,hnew,hreject.tail ⟨.label he₁ _,Ledger.adds_labelled now he₁ _⟩⟩

theorem ingestBody_edits {correlationId : CorrelationId} {now : Time} {source : Source}
    {plan : IngestPlan} {i : Ingested}
    (h : ingestBody rt db correlationId now source plan = .ok (out,i)) : NewEvent rt now db out := by
  cases plan with
  | raised e => cases h
  | reject sourceEventId errors => exact ingestRejected_edits h
  | accept event =>
    obtain ⟨⟨db₁,r⟩,hr,h₁⟩ := Outcome.bind_ok.mp h
    have hedits := recordValidated_edits hr
    cases r with
    | none =>
      dsimp only at h₁
      split at h₁
      · simp at h₁
      · simp only [Outcome.pure_ok, Prod.mk.injEq] at h₁
        obtain ⟨rfl,_⟩ := h₁
        exact hedits
    | some row =>
      simp only [Outcome.pure_ok, Prod.mk.injEq] at h₁
      obtain ⟨rfl,_⟩ := h₁
      exact hedits

theorem processMessage_edits {event : Option Event} {message : QueueMessage} {now : Time}
    {outcome : ProcessOutcome} (he : ∀ e ∈ event, db.getEvent e.eventId = some e)
    (h : processMessage rt db event message now = .ok (out,outcome)) :
    out = db ∨ ∃ e ∈ event, e.status = .queued ∧ EventEdits rt e.eventId now db out := by
  rcases processMessage_ok h with ⟨rfl,_⟩ | ⟨e,rfl,hq,e',reason,hp,rfl⟩
  · exact Or.inl rfl
  · have he := he e rfl
    refine Or.inr ⟨e,rfl,hq,.single ?_⟩
    cases hp with
    | suppressed reason hg =>
      have ha : .suppressed ∈ e.status.allowedTransitions := by simp [hq,EventStatus.allowedTransitions]
      exact ⟨.move he ⟨ha,by simp,by simp,by simp⟩ _ now,Ledger.adds_moved _ now he (by simp)⟩
    | rejected reason hg =>
      have ha : .rejected ∈ e.status.allowedTransitions := by simp [hq,EventStatus.allowedTransitions]
      exact ⟨.move he ⟨ha,by simp,by simp,by simp⟩ _ now,Ledger.adds_moved _ now he (by simp)⟩
    | processed hashed hg hm =>
      refine ⟨.process he hq hg hm now,Ledger.adds_record _ none now he rfl ?_ fun _ ha => Or.inr ha⟩
      simp [Event.processedWith,Event.moved]

theorem deadLetter_edits {failureClass : FailureClass} {reason : String}
    {code message : Option String} {payload : Json} {now : Time} (he : db.getEvent e.eventId = some e)
    (h : deadLetter db e failureClass reason code message payload now = .ok out) :
    EventEdits rt e.eventId now db out := by
  obtain ⟨ha,letter,hid,hl,hat,rfl⟩ := deadLetter_ok h
  exact .single ⟨.bury he ha hid hl,(Ledger.adds_moved _ now he (by simp)).addDeadLetter hid hat⟩

theorem claimRow_edits {now : Time} {id : String} (h : claimRow now db id = .ok out) :
    EventEdits rt id now db out := by
  rcases claimRow_ok h with ⟨_,rfl⟩ | ⟨e,he,e',reason,hc,rfl⟩
  · exact .refl
  · obtain rfl := Ledger.getEvent_eventId he
    refine .single ?_
    cases hc with
    | attempt ha =>
      refine ⟨.attempt he ha now,Ledger.adds_record _ none now he rfl (by simp [Event.attempted,Event.moved]) ?_⟩
      simp [Event.attempted]
    | reclaim hu =>
      refine ⟨.reclaim he hu now,Ledger.adds_record _ _ now he rfl (by simp [Event.attempted,hu]) ?_⟩
      simp [Event.attempted]

/-- The second loop writes the rows that have had too many attempts. -/
theorem claimItem_edits {st : Settings} {now : Time} {id : String} {items items' : List Claimed}
    (h : claimItem rt st now (db,items) id = .ok (out,items')) : EventEdits rt id now db out := by
  rcases claimItem_ok h with ⟨_,rfl,_⟩ | ⟨e,_,he,_,⟨_,_,hd⟩ | ⟨_,rfl,_⟩⟩
  · exact .refl
  · obtain rfl := Ledger.getEvent_eventId he
    exact deadLetter_edits he hd
  · exact .refl

theorem claim_edits {st : Settings} {selected : List String} {now : Time} {items : List Claimed}
    (h : claim rt st db selected now = .ok (out,items)) : Edits rt db out := by
  obtain ⟨db₁,h₁,h₂⟩ := Outcome.bind_ok.mp h
  have hrows : Edits rt db db₁ := Outcome.loop_rel (Edits rt) (fun _ => .refl) .trans
    (fun _ _ _ _ hs => (claimRow_edits hs).edits) h₁
  exact hrows.trans (Outcome.loop_rel (fun a b => Edits rt a.1 b.1) (fun _ => .refl) .trans
    (fun _ _ _ _ hs => (claimItem_edits hs).edits) h₂)

theorem retryRow_edits {reason : String} {item : String × Time} (h : retryRow reason db item = .ok out) :
    EventEdits rt item.1 item.2 db out := by
  rcases retryRow_ok h with ⟨_,rfl⟩ | ⟨e,he,hu,failed,rfl,rfl⟩
  · exact .refl
  · rw [← Ledger.getEvent_eventId he]
    have he := getEvent_self he
    have he₁ := Ledger.moved_getEvent he .failedRetryable (some ("transient:" ++ reason)) item.2
    have hm : e.MayMove .failedRetryable :=
      ⟨by simp [hu,EventStatus.allowedTransitions],by simp,by simp,by simp⟩
    have hfailed : EventEdits rt e.eventId item.2 db (db.record e
        (e.moved .failedRetryable (some ("transient:" ++ reason))) (some ("transient:" ++ reason)) item.2) :=
      .single ⟨.move he hm _ item.2,Ledger.adds_moved _ item.2 he (by simp)⟩
    refine hfailed.tail ⟨.attempt he₁ (by simp [Event.moved,EventStatus.allowedTransitions]) item.2,?_⟩
    refine Ledger.adds_record _ none item.2 he₁ rfl ?_ ?_ <;> simp [Event.attempted,Event.moved]

theorem onRetry_edits {loaded : List String} {reason : String} {stamps : List Time}
    (h : onRetry db loaded reason stamps = .ok out) : Edits rt db out :=
  Outcome.loop_rel (Edits rt) (fun _ => .refl) .trans (fun _ _ _ _ hs => (retryRow_edits hs).edits) h

theorem applyRow_edits {loaded : List String} {now : Time} {item : Claimed × RowResult}
    (h : applyRow loaded now db item = .ok out) : EventEdits rt item.1.eventId now db out := by
  obtain ⟨_,e,he,hcases⟩ := applyRow_ok h
  rw [← Ledger.getEvent_eventId he]
  have he := getEvent_self he
  rcases hcases with ⟨dest,reason,hd,ha,rfl⟩ | hd
  · have hq : dest ≠ .queued ∧ dest ≠ .validated := by
      constructor <;> rintro rfl <;> simp at hd
    refine .single ⟨.move he ⟨ha,?_,fun hv => absurd hv hq.2,fun hv => absurd hv hq.1⟩ reason now,?_⟩
    · simp only [List.mem_cons, List.not_mem_nil, or_false] at hd ⊢
      rcases hd with rfl | rfl <;> simp
    · exact Ledger.adds_moved reason now he fun hv => absurd hv hq.1
  · exact deadLetter_edits he hd

theorem applyResult_edits {loaded : List String} {batch : List Claimed} {rows : List RowResult}
    {now : Time} (h : applyResult db loaded batch rows now = .ok out) : Edits rt db out :=
  Outcome.loop_rel (Edits rt) (fun _ => .refl) .trans (fun _ _ _ _ hs => (applyRow_edits hs).edits)
    (applyResult_ok h).1

theorem deadLetterOne_edits {batch : List Claimed} {failure : BatchFailure} {now : Time} {id : String}
    (h : deadLetterOne batch failure now db id = .ok out) : EventEdits rt id now db out := by
  rcases deadLetterOne_ok h with ⟨_,rfl⟩ | ⟨e,he,hd⟩
  · exact .refl
  · obtain rfl := Ledger.getEvent_eventId he
    exact deadLetter_edits he hd

theorem deadLetterAll_edits {loaded : List String} {batch : List Claimed} {failure : BatchFailure}
    {now : Time} (h : deadLetterAll db loaded batch failure now = .ok out) : Edits rt db out :=
  Outcome.loop_rel (Edits rt) (fun _ => .refl) .trans (fun _ _ _ _ hs => (deadLetterOne_edits hs).edits) h

theorem replay_edits {letter : DeadLetter} {event : Option Event} {now : Time}
    {message : Option QueueMessage} (hl : db.getDeadLetter letter.id = some letter)
    (he : ∀ e ∈ event, db.getEvent e.eventId = some e ∧ letter.eventId = e.eventId)
    (h : replay db letter event now = .ok (out,message)) :
    out = db ∨ ∃ e ∈ event, letter.replayedAt = none ∧ e.status = .deadLettered ∧
      EventEdits rt e.eventId now db out := by
  rcases replay_ok h with ⟨rfl,_⟩ | ⟨e,rfl,ho,hd,rfl,_⟩
  · exact Or.inl rfl
  · obtain ⟨he,hk⟩ := he e rfl
    have hadds : Ledger.Adds e.eventId now db (db.record e (e.requeued letter)
        (some (replayedReason letter.id)) now) :=
      Ledger.adds_record _ _ now he rfl (fun _ => Or.inr hd) (by simp [Event.requeued])
    exact Or.inr ⟨e,rfl,ho,hd,.single ⟨.revive he hd hl hk ho now,hadds.putDeadLetter hl now⟩⟩

/-- The record and the event of a replay belong together. -/
def Transaction.Paired : Transaction → Prop
  | .replay letter loaded _ => ∀ e ∈ loaded, letter.eventId = e.eventId
  | _ => True

/-- The body of every transaction, on a ledger that shows what the session has
read, is a sequence of edits. -/
theorem Transaction.body_edits {tx : Transaction} {reply : Reply} (hf : tx.session.Fresh db)
    (hp : tx.Paired) (h : tx.body rt db = .ok (out,reply)) : Edits rt db out := by
  cases tx with
  | ingest source plan correlationId now =>
    obtain ⟨⟨db₁,i⟩,hi,h⟩ := Outcome.bind_ok.mp h
    cases h
    exact (ingestBody_edits hi).edits
  | process message loaded now =>
    obtain ⟨⟨db₁,o⟩,ho,h⟩ := Outcome.bind_ok.mp h
    cases h
    rcases processMessage_edits (fun e he => hf.events e (by simpa [session] using he)) ho with
      rfl | ⟨_,_,_,h⟩
    · exact .refl
    · exact h.edits
  | claim st selected now =>
    obtain ⟨⟨db₁,items⟩,hc,h⟩ := Outcome.bind_ok.mp h
    cases h
    exact claim_edits hc
  | retry ids loaded reason stamps =>
    obtain ⟨db₁,hr,h⟩ := Outcome.bind_ok.mp h
    cases h
    exact onRetry_edits hr
  | apply batch loaded rows now =>
    obtain ⟨db₁,ha,h⟩ := Outcome.bind_ok.mp h
    cases h
    exact applyResult_edits ha
  | bury batch loaded failure now =>
    obtain ⟨db₁,hb,h⟩ := Outcome.bind_ok.mp h
    cases h
    exact deadLetterAll_edits hb
  | replay letter loaded now =>
    obtain ⟨⟨db₁,m⟩,hm,h⟩ := Outcome.bind_ok.mp h
    cases h
    have he : ∀ e ∈ loaded, db.getEvent e.eventId = some e ∧ letter.eventId = e.eventId :=
      fun e he => ⟨hf.events e (by simpa [session] using he),hp e he⟩
    rcases replay_edits (hf.deadLetters letter (by simp [session])) he hm with rfl | ⟨_,_,_,_,h⟩
    · exact .refl
    · exact h.edits

end Operations
end ConversionGateway
