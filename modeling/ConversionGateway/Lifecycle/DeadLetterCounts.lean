import ConversionGateway.Lifecycle.DeadLetterHistory
import ConversionGateway.Model.Metrics

/-! # The dead-letter store against the counter

A transaction that commits adds a row for every increment it made, under the same
labels. Apart from the two replay columns a row of the store is never changed, and
each was added together with one transition into DEAD_LETTERED.
-/
namespace ConversionGateway
open Relational

/-- The labels of the rows, in id order. -/
def Ledger.labels (db : Ledger) : List DeadLetterLabels := db.deadLetters.rows.map DeadLetter.labels

/-- The rows without their replay columns. -/
def Ledger.accounts (db : Ledger) : List DeadLetter := db.deadLetters.rows.map DeadLetter.frozen

theorem Ledger.labels_eq (db : Ledger) : db.labels = db.accounts.map DeadLetter.labels := by
  unfold Ledger.labels Ledger.accounts
  rw [List.map_map]
  rfl

/-! ## The counter and the outcome -/

section Forget
variable (rt : Runtime)

theorem deadLetterCounted_fst (db : Ledger) (e : Event) (failureClass : FailureClass) (reason : String)
    (code message : Option String) (payload : Json) (now : Time) :
    (deadLetterCounted db e failureClass reason code message payload now).1 =
      deadLetter db e failureClass reason code message payload now := by
  unfold deadLetterCounted
  rw [Metered.bind_fst, Metered.lift_fst]
  cases deadLetter db e failureClass reason code message payload now with
  | error e => rfl
  | ok out => rfl

theorem claimItemCounted_fst (st : Settings) (now : Time) (acc : Ledger × List Claimed) (id : String) :
    (claimItemCounted rt st now acc id).1 = claimItem rt st now acc id := by
  unfold claimItemCounted claimItem
  cases acc.1.getEvent id with
  | none => rfl
  | some e =>
    dsimp only
    rw [Metered.bind_fst, Metered.lift_fst]
    refine congrArg (buildConversion rt e st.adsCustomerId >>= ·) ?_
    funext conversion
    split
    · rw [Metered.bind_fst, deadLetterCounted_fst]
      rfl
    · rfl

theorem applyRowCounted_fst (loaded : List String) (now : Time) (db : Ledger) (item : Claimed × RowResult) :
    (applyRowCounted loaded now db item).1 = applyRow loaded now db item := by
  unfold applyRowCounted applyRow
  generalize (if item.1.eventId ∈ loaded then db.getEvent item.1.eventId else none) = found
  cases found with
  | none => rfl
  | some e =>
    dsimp only
    split
    · rw [Metered.bind_fst, Metered.lift_fst]
      rfl
    · split
      · rw [Metered.bind_fst, Metered.lift_fst]
        rfl
      · apply deadLetterCounted_fst

theorem deadLetterOneCounted_fst (batch : List Claimed) (failure : BatchFailure) (now : Time) (db : Ledger)
    (id : String) :
    (deadLetterOneCounted batch failure now db id).1 = deadLetterOne batch failure now db id := by
  unfold deadLetterOneCounted deadLetterOne
  cases db.getEvent id with
  | none => rfl
  | some e => apply deadLetterCounted_fst

/-- Without the counter the statements are those of the transaction. -/
theorem bodyCounted_fst (db : Ledger) (tx : Transaction) : (tx.bodyCounted rt db).1 = tx.body rt db := by
  cases tx with
  | claim st selected now =>
    have hloop := fun db => Metered.loop_fst (claimItemCounted_fst rt st now) (db,[]) selected
    simp only [Transaction.bodyCounted, claimCounted, Metered.bind_fst, Metered.lift_fst, hloop]
    rfl
  | apply batch loaded rows now =>
    have hloop := Metered.loop_fst (applyRowCounted_fst (loaded.map Event.eventId) now) db (batch.zip rows)
    simp only [Transaction.bodyCounted, applyResultCounted, Metered.bind_fst, Metered.lift_fst, hloop]
    rfl
  | bury batch loaded failure now =>
    have hloop := Metered.loop_fst (deadLetterOneCounted_fst batch failure now) db (loaded.map Event.eventId)
    simp only [Transaction.bodyCounted, deadLetterAllCounted, Metered.bind_fst, hloop]
    rfl
  | ingest | process | retry | replay => rfl

end Forget

/-! ## The counter and the rows -/

section Labels
variable {rt : Runtime} {db out : Ledger}

theorem deadLetterCounted_labels {e : Event} {failureClass : FailureClass} {reason : String}
    {code message : Option String} {payload : Json} {now : Time}
    (h : (deadLetterCounted db e failureClass reason code message payload now).1 = .ok out) :
    out.labels = db.labels ++ (deadLetterCounted db e failureClass reason code message payload now).2 := by
  unfold deadLetterCounted at h ⊢
  obtain ⟨mid,hmid,hout,hcounted⟩ := Metered.bind_ok h
  cases hout
  rw [hcounted]
  obtain ⟨⟨db₁,e₁⟩,ht,hmid⟩ := Outcome.bind_ok.mp hmid
  obtain ⟨_,rfl,rfl⟩ := transition_ok ht
  cases hmid
  simp only [Ledger.labels, Ledger.addDeadLetter, Journal.append_rows, List.map_append]
  rfl

theorem claimItemCounted_labels {st : Settings} {now : Time} {acc acc' : Ledger × List Claimed} {id : String}
    (h : (claimItemCounted rt st now acc id).1 = .ok acc') :
    acc'.1.labels = acc.1.labels ++ (claimItemCounted rt st now acc id).2 := by
  unfold claimItemCounted at h ⊢
  split at h
  · cases h
    exact (List.append_nil _).symm
  · obtain ⟨conversion,_,h,hcounted⟩ := Metered.bind_ok h
    rw [hcounted]
    split at h
    · next hover =>
      rw [if_pos hover]
      obtain ⟨mid,hmid,h,hcounted⟩ := Metered.bind_ok h
      cases h
      rw [hcounted, deadLetterCounted_labels hmid]
      simp [Metered.lift,pure]
    · next hover =>
      rw [if_neg hover]
      cases h
      exact (List.append_nil _).symm

/-- A step of the row loop that records a change of the event adds no row. -/
theorem transitionCounted_labels {e : Event} {dest : EventStatus} {reason : Option String} {now : Time}
    (h : (do let (db,_) ← (Metered.lift (transition db e dest reason now) : Counted (Ledger × Event))
             return db : Counted Ledger).1 = .ok out) : out.labels = db.labels := by
  obtain ⟨⟨db₁,e₁⟩,ht,h,_⟩ := Metered.bind_ok h
  obtain ⟨_,rfl,rfl⟩ := transition_ok ht
  cases h
  rfl

theorem applyRowCounted_labels {loaded : List String} {now : Time} {item : Claimed × RowResult}
    (h : (applyRowCounted loaded now db item).1 = .ok out) :
    out.labels = db.labels ++ (applyRowCounted loaded now db item).2 := by
  unfold applyRowCounted at h ⊢
  generalize (if item.1.eventId ∈ loaded then db.getEvent item.1.eventId else none) = found at h ⊢
  cases found with
  | none => cases h
  | some e =>
    dsimp only at h ⊢
    split at h
    · next hok =>
      rw [if_pos hok, transitionCounted_labels h]
      obtain ⟨_,_,_,hcounted⟩ := Metered.bind_ok h
      rw [hcounted]
      exact (List.append_nil _).symm
    · next hok =>
      rw [if_neg hok]
      split at h
      · next hclass =>
        rw [if_pos hclass, transitionCounted_labels h]
        obtain ⟨_,_,_,hcounted⟩ := Metered.bind_ok h
        rw [hcounted]
        exact (List.append_nil _).symm
      · next hclass =>
        rw [if_neg hclass]
        exact deadLetterCounted_labels h

theorem deadLetterOneCounted_labels {batch : List Claimed} {failure : BatchFailure} {now : Time} {id : String}
    (h : (deadLetterOneCounted batch failure now db id).1 = .ok out) :
    out.labels = db.labels ++ (deadLetterOneCounted batch failure now db id).2 := by
  unfold deadLetterOneCounted at h ⊢
  cases hrow : db.getEvent id with
  | none =>
    rw [hrow] at h
    cases h
    exact (List.append_nil _).symm
  | some e =>
    rw [hrow] at h
    exact deadLetterCounted_labels h

/-- An ingest writes no row of the store. -/
theorem ingestBody_deadLetters {correlationId : CorrelationId} {now : Time} {source : Source}
    {plan : IngestPlan} {i : Ingested}
    (h : ingestBody rt db correlationId now source plan = .ok (out,i)) : out.deadLetters = db.deadLetters := by
  cases plan with
  | raised e => cases h
  | reject sourceEventId errors =>
    obtain ⟨id,_,h₁⟩ := Outcome.bind_ok.mp h
    obtain ⟨⟨db₁,r⟩,hr,h₂⟩ := Outcome.bind_ok.mp h₁
    rcases recordRejected_ok hr with ⟨rfl,rfl,_⟩ | ⟨stored,_,hnew,rfl,rfl⟩
    · cases h₂
      rfl
    · cases h₂
      rfl
  | accept event =>
    obtain ⟨⟨db₁,r⟩,hr,h⟩ := Outcome.bind_ok.mp h
    have hdb : db₁.deadLetters = db.deadLetters := by
      rcases recordValidated_ok hr with ⟨_,rfl,_⟩ | ⟨row,stored,_,_,hnew,_,rfl⟩
      · rfl
      · rfl
    rw [← hdb]
    cases r with
    | none =>
      dsimp only at h
      split at h
      · simp at h
      · cases h
        rfl
    | some row =>
      cases h
      rfl

theorem processMessage_deadLetters {event : Option Event} {message : QueueMessage} {now : Time}
    {outcome : ProcessOutcome} (h : processMessage rt db event message now = .ok (out,outcome)) :
    out.deadLetters = db.deadLetters := by
  rcases processMessage_ok h with ⟨rfl,_⟩ | ⟨e,rfl,_,e',reason,_,rfl⟩
  · rfl
  · rfl

theorem claimForUpload_deadLetters {ids : List String} {now : Time}
    (h : claimForUpload db ids now = .ok out) : out.deadLetters = db.deadLetters := by
  refine Outcome.loop_rel (fun a b : Ledger => b.deadLetters = a.deadLetters) (fun _ => rfl)
    (fun h₁ h₂ => h₂.trans h₁) ?_ h
  intro id _ a b hs
  rcases claimRow_ok hs with ⟨_,rfl⟩ | ⟨e,_,e',reason,_,rfl⟩
  · rfl
  · rfl

theorem onRetry_deadLetters {loaded : List String} {reason : String} {stamps : List Time}
    (h : onRetry db loaded reason stamps = .ok out) : out.deadLetters = db.deadLetters := by
  refine Outcome.loop_rel (fun a b : Ledger => b.deadLetters = a.deadLetters) (fun _ => rfl)
    (fun h₁ h₂ => h₂.trans h₁) ?_ h
  intro item _ a b hs
  rcases retryRow_ok hs with ⟨_,rfl⟩ | ⟨e,_,_,failed,rfl,rfl⟩
  · rfl
  · rfl

end Labels

/-! ## The rows and their transitions -/

section Accounts
variable {rt : Runtime} {db db' : Ledger}

/-- Closing a record changes its replay columns only. -/
theorem accounts_putDeadLetter {d : DeadLetter} (d' : DeadLetter) (hd : db.getDeadLetter d'.id = some d)
    (ha : d'.frozen = d.frozen) : (db.putDeadLetter d').accounts = db.accounts := by
  have hrow : ∀ r ∈ db.deadLetters.rows,
      DeadLetter.frozen (if r.id = d'.id then d' else r) = r.frozen := by
    intro r hr
    split
    · next hid =>
      have hsame := Journal.eq_of_serial hr (Journal.mem_of_get hd) (hid.trans (Journal.get_serial hd).symm)
      rw [ha, hsame]
    · rfl
  unfold Ledger.accounts Ledger.putDeadLetter Journal.put
  rw [Journal.mapRows_rows, List.map_map]
  exact List.map_congr_left hrow

theorem accounts_addDeadLetter {d : DeadLetter} (hid : d.id = db.deadLetters.next) :
    (db.addDeadLetter d hid).accounts = db.accounts ++ [d.frozen] := by
  unfold Ledger.accounts Ledger.addDeadLetter
  rw [Journal.append_rows, List.map_append]
  rfl

/-- The transitions into DEAD_LETTERED, in id order. -/
def Ledger.burials (db : Ledger) : List EventTransition := db.transitions.rows.filter fun t => t.IsBurial

/-- The record was made of this transition: it has the event, and its history ends
with the entry of the transition. -/
structure DeadLetter.Of (d : DeadLetter) (t : EventTransition) : Prop where
  eventId : d.eventId = t.eventId
  history : d.attemptHistory.getLast? = some t.historyEntry

/-- Every record pairs off with the transition into DEAD_LETTERED that it is of. -/
def Ledger.Paired (db : Ledger) : Prop := List.Forall₂ (fun t d => d.Of t) db.burials db.accounts

theorem burials_record {e e' : Event} {reason : Option String} {now : Time} (hs : e'.status = .deadLettered) :
    (db.record e e' reason now).burials = db.burials ++
      [⟨db.transitions.next,e.eventId,some e.status,.deadLettered,reason,now⟩] := by
  unfold Ledger.burials Ledger.record Ledger.addTransition
  rw [Journal.append_rows, List.filter_append, hs]
  rfl

/-- A change of one event that is no burial. -/
theorem burials_record_of_ne {e e' : Event} {reason : Option String} {now : Time}
    (hs : e'.status ≠ .deadLettered) : (db.record e e' reason now).burials = db.burials := by
  unfold Ledger.burials Ledger.record Ledger.addTransition
  rw [Journal.append_rows, List.filter_append]
  simp [EventTransition.IsBurial,hs]

/-- What an edit does to the store and to the burials: nothing, or it adds one of
each that belong together. -/
theorem Edit.buries (h : Edit rt db db') :
    (db'.accounts = db.accounts ∧ db'.burials = db.burials) ∨
    ∃ d t, d.Of t ∧ db'.accounts = db.accounts ++ [d] ∧ db'.burials = db.burials ++ [t] := by
  cases h with
  | @create e hnew he now =>
    refine Or.inl ⟨rfl,?_⟩
    unfold Ledger.burials Ledger.enter Ledger.addTransition
    simp [EventTransition.IsBurial]
  | label he c => exact Or.inl ⟨rfl,rfl⟩
  | move he hm reason now =>
    refine Or.inl ⟨rfl,burials_record_of_ne fun hs => ?_⟩
    have hplain := hm.plain
    simp only [Event.moved] at hs
    rw [hs] at hplain
    simp at hplain
  | process he hq hg hm now => exact Or.inl ⟨rfl,burials_record_of_ne (by simp [Event.processedWith,Event.moved])⟩
  | attempt he ha now => exact Or.inl ⟨rfl,burials_record_of_ne (by simp [Event.attempted,Event.moved])⟩
  | reclaim he hu now => exact Or.inl ⟨rfl,burials_record_of_ne (by simp [Event.attempted,hu])⟩
  | @bury e reason now letter he ha hid hl =>
    refine Or.inr ⟨letter.frozen,⟨db.transitions.next,e.eventId,some e.status,.deadLettered,some reason,now⟩,
      ⟨hl.eventId,?_⟩,accounts_addDeadLetter hid,?_⟩
    · have hhistory := hl.history
      rw [Ledger.record_listTransitions, if_pos rfl, List.map_append] at hhistory
      exact (congrArg List.getLast? hhistory).trans List.getLast?_concat
    · exact burials_record rfl
  | revive he hd hl hk ho now =>
    refine Or.inl ⟨accounts_putDeadLetter _ hl rfl,?_⟩
    exact burials_record_of_ne (by simp [Event.requeued,Event.moved])
  | skip n m => exact Or.inl ⟨rfl,rfl⟩

theorem Ledger.Paired.edit (h : db.Paired) (he : Edit rt db db') : db'.Paired := by
  rcases he.buries with ⟨ha,hb⟩ | ⟨d,t,hd,ha,hb⟩
  · unfold Ledger.Paired
    rwa [ha, hb]
  · unfold Ledger.Paired
    rw [ha, hb]
    exact List.rel_append h (List.Forall₂.cons hd List.Forall₂.nil)

/-- The records are kept, in their order, and new ones come last. -/
theorem Edits.accounts (h : Edits rt db db') : db.accounts <+: db'.accounts := by
  refine Edits.inv (I := fun a : Ledger => db.accounts <+: a.accounts) (fun a b hi he => ?_) (List.prefix_refl _) h
  rcases he.buries with ⟨ha,_⟩ | ⟨d,t,_,ha,_⟩
  · rwa [ha]
  · rw [ha]
    exact hi.trans (List.prefix_append _ _)

end Accounts

/-! ## Transactions -/

section Transactions
variable {rt : Runtime} {db db' out : Ledger} {tx : Transaction} {reply : Reply}

theorem labels_of_deadLetters (h : out.deadLetters = db.deadLetters) : out.labels = db.labels ++ [] := by
  unfold Ledger.labels
  rw [h, List.append_nil]

/-- The statements of a transaction add a row for every increment. -/
theorem bodyCounted_labels (hf : tx.session.Fresh db) (h : (tx.bodyCounted rt db).1 = .ok (out,reply)) :
    out.labels = db.labels ++ (tx.bodyCounted rt db).2 := by
  cases tx with
  | ingest source plan correlationId now =>
    obtain ⟨⟨mid,i⟩,hi,hb⟩ := Outcome.bind_ok.mp h
    cases hb
    exact labels_of_deadLetters (ingestBody_deadLetters hi)
  | process message loaded now =>
    obtain ⟨⟨mid,o⟩,ho,hb⟩ := Outcome.bind_ok.mp h
    cases hb
    exact labels_of_deadLetters (processMessage_deadLetters ho)
  | retry ids loaded reason stamps =>
    obtain ⟨mid,hr,hb⟩ := Outcome.bind_ok.mp h
    cases hb
    exact labels_of_deadLetters (onRetry_deadLetters hr)
  | replay letter loaded now =>
    obtain ⟨⟨mid,m⟩,hm,hb⟩ := Outcome.bind_ok.mp h
    cases hb
    have hletter := hf.deadLetters letter (by simp [Transaction.session])
    rcases replay_ok hm with ⟨rfl,_⟩ | ⟨e,rfl,_,_,rfl,_⟩
    · exact labels_of_deadLetters rfl
    · have ha := accounts_putDeadLetter (letter.replayed now) hletter rfl
      rw [Ledger.labels_eq, Ledger.labels_eq db, ← ha]
      exact (List.append_nil _).symm
  | claim st selected now =>
    unfold Transaction.bodyCounted at h ⊢
    obtain ⟨⟨mid,items⟩,hm,hb,hcounted⟩ := Metered.bind_ok h
    cases hb
    rw [hcounted]
    unfold claimCounted at hm ⊢
    obtain ⟨claimed,hc,hm,hcounted⟩ := Metered.bind_ok hm
    have hloop := Metered.loop_journal (fun acc : Ledger × List Claimed => acc.1.labels)
      (fun _ _ _ => claimItemCounted_labels) hm
    have hfirst : claimed.labels = db.labels := by
      unfold Ledger.labels
      rw [claimForUpload_deadLetters hc]
    rw [hcounted, hloop, hfirst]
    simp
  | apply batch loaded rows now =>
    unfold Transaction.bodyCounted at h ⊢
    obtain ⟨mid,hm,hb,hcounted⟩ := Metered.bind_ok h
    cases hb
    rw [hcounted]
    unfold applyResultCounted at hm ⊢
    obtain ⟨last,hl,hm,hcounted⟩ := Metered.bind_ok hm
    have hloop := Metered.loop_journal Ledger.labels (fun _ _ _ => applyRowCounted_labels) hl
    rw [Metered.lift_fst] at hm
    split at hm
    · cases hm
      rw [hcounted, hloop]
      simp
    · cases hm
  | bury batch loaded failure now =>
    unfold Transaction.bodyCounted at h ⊢
    obtain ⟨mid,hm,hb,hcounted⟩ := Metered.bind_ok h
    cases hb
    rw [hcounted]
    have hloop := Metered.loop_journal Ledger.labels (fun _ _ _ => deadLetterOneCounted_labels) hm
    rw [hloop]
    simp [deadLetterAllCounted]

/-- The session's records are rows of the store, up to their replay columns. -/
def Session.Holds (s : Session) (db : Ledger) : Prop :=
  ∀ d ∈ s.deadLetters, ∃ current, db.getDeadLetter d.id = some current ∧ current.frozen = d.frozen

theorem Session.Holds.view_accounts {s : Session} (h : s.Holds db) : (s.view db).accounts = db.accounts := by
  unfold Ledger.accounts Session.view
  rw [Journal.mapRows_rows, List.map_map]
  refine List.map_congr_left fun r hr => ?_
  change (s.deadLetter r).frozen = r.frozen
  have hid := s.deadLetter_id r
  unfold Session.deadLetter at hid ⊢
  cases hx : s.deadLetters.find? fun x => x.id = r.id with
  | none => rfl
  | some d =>
    rw [hx] at hid
    obtain ⟨current,hc,ha⟩ := h d (List.mem_of_find?_eq_some hx)
    have hsame := Journal.eq_of_serial (Journal.mem_of_get hc) hr ((Journal.get_serial hc).trans hid)
    rw [← hsame]
    exact ha.symm

/-- A commit writes the replay columns only of the rows that were there. -/
theorem Session.flush_accounts (s : Session) (db out : Ledger) : (s.flush db out).accounts = out.accounts := by
  unfold Ledger.accounts Session.flush
  rw [Journal.mapRows_rows, List.map_map]
  refine List.map_congr_left fun r _ => ?_
  change (s.settleLetter db r).frozen = r.frozen
  unfold Session.settleLetter
  split
  · rfl
  · rfl

theorem Ledger.getDeadLetter_frozen (db : Ledger) (id : ℕ) :
    (db.getDeadLetter id).map DeadLetter.frozen = db.accounts.find? fun d => d.id = id := by
  unfold Ledger.getDeadLetter Journal.get Ledger.accounts
  rw [List.find?_map]
  rfl

/-- A record is frozen but for its replay columns while the store grows. -/
theorem frozen_of_prefix (h : db.accounts <+: db'.accounts) {id : ℕ} {d : DeadLetter}
    (hd : db.getDeadLetter id = some d) : ∃ d', db'.getDeadLetter id = some d' ∧ d'.frozen = d.frozen := by
  obtain ⟨new,hnew⟩ := h
  have hfind := db'.getDeadLetter_frozen id
  rw [← hnew, List.find?_append, ← db.getDeadLetter_frozen, hd] at hfind
  exact Option.map_eq_some_iff.mp hfind

/-- A commit adds a row for every increment that the transaction made, keeps those
that were there, and keeps the pairing. -/
theorem Transaction.commit_counts (hf : tx.session.Fresh (tx.session.view db)) (hh : tx.session.Holds db) (hp : tx.Paired)
    (h : tx.commit rt db = .ok (db',reply)) :
    db'.labels = db.labels ++ tx.counted rt db ∧ db.accounts <+: db'.accounts ∧ (db.Paired → db'.Paired) := by
  obtain ⟨out,hb,rfl,_⟩ := commit_ok.mp h
  have hedits := body_edits hf hp hb
  have hview := hh.view_accounts
  have hflush := tx.session.flush_accounts db out
  refine ⟨?_,?_,fun hpaired => ?_⟩
  · rw [← bodyCounted_fst] at hb
    rw [Ledger.labels_eq, Ledger.labels_eq db, hflush, ← hview, ← Ledger.labels_eq, ← Ledger.labels_eq]
    exact bodyCounted_labels hf hb
  · rw [hflush, ← hview]
    exact hedits.accounts
  · have hstart : (tx.session.view db).Paired := by
      unfold Ledger.Paired
      rw [hview]
      exact hpaired
    have hend : out.Paired := Edits.inv (fun _ _ hi he => hi.edit he) hstart hedits
    unfold Ledger.Paired
    rw [hflush]
    exact hend

end Transactions
end ConversionGateway
