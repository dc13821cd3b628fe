import ConversionGateway.Concurrency.Transaction

/-! # The operations inverted

One lemma for each ledger operation: what the ledger is after a call that did
not raise. Nothing below unfolds an operation again.
-/
namespace ConversionGateway
open Relational

/-- Write an object and the audit row of its change. -/
def Ledger.record (db : Ledger) (e e' : Event) (reason : Option String) (now : Time) : Ledger :=
  (db.putEvent e').addTransition e.eventId (some e.status) e'.status reason now

/-- Insert a row and the audit row of its creation. -/
def Ledger.enter (db : Ledger) (e : Event) (hnew : db.events.get e.eventId = none) (now : Time) : Ledger :=
  ({ db with events := db.events.insert e hnew } : Ledger).addTransition e.eventId none .received none now

/-- The reason of the audit row of a reclaim. -/
def reclaimedStale : Option String := some "reclaimed_stale"

section Record
variable {db : Ledger} {e e' : Event} {reason : Option String} {now : Time}

/-- The row found under an id is the row under its own id. -/
theorem getEvent_self {id : String} (he : db.getEvent id = some e) : db.getEvent e.eventId = some e := by
  rwa [Ledger.getEvent_eventId he]

@[simp] theorem Ledger.record_deadLetters : (db.record e e' reason now).deadLetters = db.deadLetters :=
  rfl

theorem Ledger.putEvent_getEvent (he : db.getEvent e.eventId = some e) (hk : e'.eventId = e.eventId)
    (k : String) : (db.putEvent e').getEvent k = if k = e.eventId then some e' else db.getEvent k := by
  split
  · next h =>
    subst h
    rw [← hk] at he ⊢
    exact getEvent_putEvent_self he
  · next h => exact getEvent_putEvent_of_ne (by rwa [hk])

theorem Ledger.record_getEvent (he : db.getEvent e.eventId = some e) (hk : e'.eventId = e.eventId)
    (k : String) : (db.record e e' reason now).getEvent k =
      if k = e.eventId then some e' else db.getEvent k := putEvent_getEvent he hk k

theorem Ledger.record_getEvent_self (he : db.getEvent e.eventId = some e) (hk : e'.eventId = e.eventId) :
    (db.record e e' reason now).getEvent e'.eventId = some e' := by
  rw [record_getEvent he hk, if_pos hk]

/-- The moved object is the row after its move. -/
theorem Ledger.moved_getEvent (he : db.getEvent e.eventId = some e) (dest : EventStatus)
    (reason : Option String) (now : Time) :
    (db.record e (e.moved dest reason) reason now).getEvent (e.moved dest reason).eventId =
      some (e.moved dest reason) := record_getEvent_self he rfl

/-- A second write of the object folds into the first. -/
theorem Ledger.record_putEvent {e'' : Event} (hk : e'.eventId = e''.eventId)
    (hs : e'.status = e''.status) :
    (db.record e e' reason now).putEvent e'' = db.record e e'' reason now := by
  have hp : ((db.putEvent e').putEvent e'').addTransition e.eventId (some e.status) e'.status reason now =
      (db.putEvent e'').addTransition e.eventId (some e.status) e''.status reason now := by
    rw [putEvent_putEvent hk, hs]
  exact hp

theorem Ledger.record_listTransitions (k : String) : (db.record e e' reason now).listTransitions k =
    db.listTransitions k ++
      if e.eventId = k then [⟨db.transitions.next,e.eventId,some e.status,e'.status,reason,now⟩]
      else [] := by
  simp only [record, listTransitions_addTransition, listTransitions_putEvent, putEvent_transitions]

theorem Ledger.enter_getEvent (now : Time) (hnew : db.events.get e.eventId = none) (k : String) :
    (db.enter e hnew now).getEvent k = if k = e.eventId then some e else db.getEvent k :=
  Table.get_insert _ _ hnew k

theorem Ledger.enter_getEvent_self (now : Time) (hnew : db.events.get e.eventId = none) :
    (db.enter e hnew now).getEvent e.eventId = some e := by
  rw [enter_getEvent, if_pos rfl]

theorem Ledger.enter_listTransitions (now : Time) (hnew : db.events.get e.eventId = none) (k : String) :
    (db.enter e hnew now).listTransitions k = db.listTransitions k ++
      if e.eventId = k then [⟨db.transitions.next,e.eventId,none,.received,none,now⟩] else [] :=
  Ledger.listTransitions_addTransition _ _ _ _ _ _ k

end Record

/-- A row as the INSERT leaves it. -/
structure Event.Created (e : Event) : Prop where
  status : e.status = .received
  statusReason : e.statusReason = none
  hashedIdentifiers : e.hashedIdentifiers = none

def Event.processedWith (e : Event) (hashed : HashedIdentifiers) : Event :=
  ({ e with hashedIdentifiers := some hashed } : Event).moved .processed none

/-- Back in the queue under a replay, with a full retry budget. -/
def Event.requeued (e : Event) (letter : DeadLetter) : Event :=
  { e.moved .queued (some (replayedReason letter.id)) with attemptCount := 0, lastAttemptAt := none }

def DeadLetter.replayed (letter : DeadLetter) (now : Time) : DeadLetter :=
  { letter with replayedAt := some now, replayCount := letter.replayCount + 1 }

/-- A record of a burial, given the trail it closes. -/
structure DeadLetter.Records (letter : DeadLetter) (e : Event) (trail : List EventTransition) : Prop where
  eventId : letter.eventId = e.eventId
  history : letter.attemptHistory = trail.map EventTransition.historyEntry
  replayedAt : letter.replayedAt = none
  replayCount : letter.replayCount = 0

section Operations
variable {rt : Runtime} {db out : Ledger} {e e' : Event}

/-- What a successful transition is. -/
theorem transition_ok {dest : EventStatus} {reason : Option String} {now : Time}
    (h : transition db e dest reason now = .ok (out,e')) :
    dest ∈ e.status.allowedTransitions ∧ e' = e.moved dest reason ∧ out = db.record e e' reason now := by
  unfold transition at h
  split at h
  · next ha =>
    cases h
    exact ⟨ha,rfl,rfl⟩
  · cases h

/-- An INSERT that went through stored the row, up to the rounding of its columns. -/
structure Event.StoredAs (row stored : Event) : Prop where
  columns : ∃ value time, stored = { row with conversionValue := value, conversionTime := time }
  time : stored.conversionTime.isSome = row.conversionTime.isSome

theorem Event.StoredAs.created {row stored : Event} (h : row.StoredAs stored) (hr : row.Created) :
    stored.Created := by
  obtain ⟨v,t,rfl⟩ := h.columns
  exact ⟨hr.status,hr.statusReason,hr.hashedIdentifiers⟩

theorem Event.accept_ok {row a : Event} (h : row.accept = .ok a) :
    ∃ value, a = { row with conversionValue := value } := by
  unfold accept at h
  split at h
  · split at h
    · cases h
      exact ⟨row.conversionValue,rfl⟩
    · split at h
      · cases h
      · cases h
        exact ⟨_,rfl⟩
  · cases h

theorem Event.readBack_ok {row a : Event} (h : row.readBack rt = .ok a) :
    ∃ time, a = { row with conversionTime := time } ∧ time.isSome = row.conversionTime.isSome := by
  unfold readBack at h
  split at h
  · cases h
    exact ⟨row.conversionTime,rfl,rfl⟩
  · next t ht =>
    split at h
    · cases h
    · next stored hs =>
      cases h
      exact ⟨some stored,rfl,by rw [ht]; rfl⟩

theorem insertIfAbsent_some {row stored : Event}
    (h : insertIfAbsent rt db row = .ok (some (out,stored))) :
    row.StoredAs stored ∧ ∃ hnew : db.events.get stored.eventId = none,
      out = { db with events := db.events.insert stored hnew } := by
  obtain ⟨a,ha,h⟩ := Outcome.bind_ok.mp h
  obtain ⟨v,rfl⟩ := Event.accept_ok ha
  split at h
  · obtain ⟨b,hb,h⟩ := Outcome.bind_ok.mp h
    obtain ⟨t,rfl,ht⟩ := Event.readBack_ok hb
    split at h
    · next hnew =>
      simp only [Outcome.pure_ok, Option.some.injEq, Prod.mk.injEq] at h
      obtain ⟨rfl,rfl⟩ := h
      exact ⟨⟨⟨v,t,rfl⟩,ht⟩,hnew,rfl⟩
    · simp at h
  · simp at h

theorem insertIfAbsent_none {row : Event} (h : insertIfAbsent rt db row = .ok none) :
    db.getEvent row.eventId ≠ none := by
  obtain ⟨a,ha,h⟩ := Outcome.bind_ok.mp h
  obtain ⟨v,rfl⟩ := Event.accept_ok ha
  split at h
  · next hn =>
    obtain ⟨b,hb,h⟩ := Outcome.bind_ok.mp h
    obtain ⟨t,rfl,-⟩ := Event.readBack_ok hb
    split at h
    · simp at h
    · next hc => exact absurd hn hc
  · next hn => exact hn

/-- The two outcomes of `recordValidated`: the key was taken, or the row is in
the queue as it was stored. -/
theorem recordValidated_ok {event : CanonicalLeadEvent} {now : Time} {r : Option Event}
    (h : recordValidated rt db event now = .ok (out,r)) :
    (r = none ∧ out = db ∧ db.getEvent event.eventId ≠ none) ∨
    ∃ row stored, validatedRow event now = .ok row ∧ row.StoredAs stored ∧
      ∃ hnew : db.events.get stored.eventId = none,
        r = some (stored.moved .queued none) ∧
        out = (((db.enter stored hnew now).record stored (stored.moved .validated none) none now).record
          (stored.moved .validated none) (stored.moved .queued none) none now) := by
  obtain ⟨row,hrow,h⟩ := Outcome.bind_ok.mp h
  obtain ⟨i,hi,h⟩ := Outcome.bind_ok.mp h
  have hid : row.eventId = event.eventId := by
    obtain ⟨_,_,hrow⟩ := Outcome.bind_ok.mp hrow
    obtain ⟨_,_,hrow⟩ := Outcome.bind_ok.mp hrow
    rw [← Outcome.pure_ok.mp hrow]
  cases i with
  | none =>
    simp only [Outcome.pure_ok, Prod.mk.injEq] at h
    obtain ⟨rfl,rfl⟩ := h
    exact Or.inl ⟨rfl,rfl,hid ▸ insertIfAbsent_none hi⟩
  | some p =>
    obtain ⟨db₁,stored⟩ := p
    obtain ⟨hstored,hnew,rfl⟩ := insertIfAbsent_some hi
    obtain ⟨⟨db₂,e₂⟩,h₂,h⟩ := Outcome.bind_ok.mp h
    obtain ⟨⟨db₃,e₃⟩,h₃,h⟩ := Outcome.bind_ok.mp h
    obtain ⟨_,rfl,rfl⟩ := transition_ok h₂
    obtain ⟨_,rfl,rfl⟩ := transition_ok h₃
    simp only [Outcome.pure_ok, Prod.mk.injEq] at h
    obtain ⟨rfl,rfl⟩ := h
    exact Or.inr ⟨row,stored,hrow,hstored,hnew,rfl,rfl⟩

/-- Likewise for a rejected request. -/
theorem recordRejected_ok {eventId sourceEventId reason : String} {source : Source} {now : Time}
    {r : Option Event} (h : recordRejected rt db eventId source sourceEventId reason now = .ok (out,r)) :
    (r = none ∧ out = db ∧ db.getEvent eventId ≠ none) ∨
    ∃ stored, (rejectedRow eventId source sourceEventId now).StoredAs stored ∧
      ∃ hnew : db.events.get stored.eventId = none,
        r = some (stored.moved .rejected (some reason)) ∧
        out = (db.enter stored hnew now).record stored (stored.moved .rejected (some reason))
          (some reason) now := by
  obtain ⟨i,hi,h⟩ := Outcome.bind_ok.mp h
  cases i with
  | none =>
    simp only [Outcome.pure_ok, Prod.mk.injEq] at h
    obtain ⟨rfl,rfl⟩ := h
    exact Or.inl ⟨rfl,rfl,insertIfAbsent_none hi⟩
  | some p =>
    obtain ⟨db₁,stored⟩ := p
    obtain ⟨hstored,hnew,rfl⟩ := insertIfAbsent_some hi
    obtain ⟨⟨db₂,e₂⟩,h₂,h⟩ := Outcome.bind_ok.mp h
    obtain ⟨_,rfl,rfl⟩ := transition_ok h₂
    simp only [Outcome.pure_ok, Prod.mk.injEq] at h
    obtain ⟨rfl,rfl⟩ := h
    exact Or.inr ⟨stored,hstored,hnew,rfl,rfl⟩

/-- What processing makes of a queued row, and the reason it notes. -/
inductive Event.Processed (rt : Runtime) (e : Event) : Event → Option String → Prop
  | suppressed (reason : String) (hg : ¬ e.Granted) :
      Processed rt e (e.moved .suppressed (some reason)) (some reason)
  | rejected (reason : String) (hg : e.Granted) :
      Processed rt e (e.moved .rejected (some reason)) (some reason)
  | processed (hashed : HashedIdentifiers) (hg : e.Granted)
      (hm : e.hashedIdentifiers = some hashed ∨ e.Matchable rt hashed) :
      Processed rt e (e.processedWith hashed) none

theorem processMessage_ok {event : Option Event} {message : QueueMessage} {now : Time}
    {outcome : ProcessOutcome} (h : processMessage rt db event message now = .ok (out,outcome)) :
    (out = db ∧ ∀ e, event = some e → e.status ≠ .queued) ∨
    ∃ e, event = some e ∧ e.status = .queued ∧ ∃ e' reason,
      e.Processed rt e' reason ∧ out = db.record e e' reason now := by
  cases event with
  | none =>
    cases h
    exact Or.inl ⟨rfl,by rintro _ ⟨⟩⟩
  | some e =>
    simp only [processMessage] at h
    split at h
    · next hq =>
      cases h
      refine Or.inl ⟨rfl,?_⟩
      rintro _ ⟨⟩
      exact hq
    · next hq =>
      refine Or.inr ⟨e,rfl,not_not.mp hq,?_⟩
      split at h
      · next hp =>
        have hg : ¬ e.Granted := fun hg => hp (evaluateConsent_permitted.mpr hg)
        split at h
        · cases h
        · next reason _ =>
          obtain ⟨⟨db₁,e₁⟩,ht,h⟩ := Outcome.bind_ok.mp h
          obtain ⟨_,rfl,rfl⟩ := transition_ok ht
          cases h
          exact ⟨_,_,.suppressed reason.value hg,rfl⟩
      · next hp =>
        have hg : e.Granted := evaluateConsent_permitted.mp (not_not.mp hp)
        split at h
        · next hashed hr =>
          have hh : e.hashedIdentifiers = some hashed := by
            unfold reusedDigests at hr
            split at hr
            · exact hr
            · cases hr
          obtain ⟨⟨db₁,e₁⟩,ht,h⟩ := Outcome.bind_ok.mp h
          obtain ⟨_,rfl,rfl⟩ := transition_ok ht
          cases h
          exact ⟨_,_,.processed hashed hg (Or.inl hh),rfl⟩
        · split at h
          · obtain ⟨⟨db₁,e₁⟩,ht,h⟩ := Outcome.bind_ok.mp h
            obtain ⟨_,rfl,rfl⟩ := transition_ok ht
            cases h
            exact ⟨_,_,.rejected _ hg,rfl⟩
          · next hnone =>
            obtain ⟨⟨db₁,e₁⟩,ht,h⟩ := Outcome.bind_ok.mp h
            obtain ⟨_,rfl,rfl⟩ := transition_ok ht
            cases h
            have hm := matchable_of_no_rejections (not_not.mp hnone)
            exact ⟨_,_,.processed _ hg (Or.inr ⟨buildUserIdentifiers_wellFormed rt _,hm⟩),rfl⟩

theorem deadLetter_ok {failureClass : FailureClass} {reason : String} {code message : Option String}
    {payload : Json} {now : Time}
    (h : deadLetter db e failureClass reason code message payload now = .ok out) :
    .deadLettered ∈ e.status.allowedTransitions ∧ ∃ letter, ∃ hid : letter.id = db.deadLetters.next,
      letter.Records e ((db.record e (e.moved .deadLettered (some reason)) (some reason)
        now).listTransitions e.eventId) ∧ letter.deadLetteredAt = now ∧
      out = (db.record e (e.moved .deadLettered (some reason)) (some reason) now).addDeadLetter letter
        hid := by
  obtain ⟨⟨db₁,e₁⟩,ht,h⟩ := Outcome.bind_ok.mp h
  obtain ⟨ha,rfl,rfl⟩ := transition_ok ht
  cases h
  exact ⟨ha,_,rfl,⟨rfl,rfl,rfl,rfl⟩,rfl,rfl⟩

/-- A claim moves a row to UPLOADING or finds it there. -/
inductive Event.ClaimedAs (e : Event) (now : Time) : Event → Option String → Prop
  | attempt (ha : .uploading ∈ e.status.allowedTransitions) :
      ClaimedAs e now ((e.moved .uploading none).attempted now) none
  | reclaim (hu : e.status = .uploading) : ClaimedAs e now (e.attempted now) reclaimedStale

theorem claimRow_ok {now : Time} {id : String} (h : claimRow now db id = .ok out) :
    (db.getEvent id = none ∧ out = db) ∨ ∃ e, db.getEvent id = some e ∧ ∃ e' reason,
      e.ClaimedAs now e' reason ∧ out = db.record e e' reason now := by
  unfold claimRow at h
  split at h
  · next hn =>
    cases h
    exact Or.inl ⟨hn,rfl⟩
  · next e he =>
    refine Or.inr ⟨e,he,?_⟩
    dsimp only at h
    split at h
    · obtain ⟨⟨db₁,e₁⟩,ht,h⟩ := Outcome.bind_ok.mp h
      obtain ⟨ha,rfl,rfl⟩ := transition_ok ht
      cases h
      exact ⟨_,_,.attempt ha,Ledger.record_putEvent rfl rfl⟩
    · next hu =>
      cases h
      exact ⟨_,_,.reclaim (not_not.mp hu),rfl⟩

theorem claimItem_ok {st : Settings} {now : Time} {id : String} {items items' : List Claimed}
    (h : claimItem rt st now (db,items) id = .ok (out,items')) :
    (db.getEvent id = none ∧ out = db ∧ items' = items) ∨ ∃ e conversion, db.getEvent id = some e ∧
      buildConversion rt e st.adsCustomerId = .ok conversion ∧
      ((st.maxRowAttempts < e.attemptCount ∧ items' = items ∧
        deadLetter db e .poison ("poison:row_attempt_ceiling:" ++ toString (e.attemptCount - 1))
          (some "row_attempt_ceiling") e.statusReason conversion now = .ok out) ∨
      (e.attemptCount ≤ st.maxRowAttempts ∧ out = db ∧
        items' = items ++ [⟨e.eventId,e.attemptCount,conversion⟩])) := by
  unfold claimItem at h
  split at h
  · next hn =>
    cases h
    exact Or.inl ⟨hn,rfl,rfl⟩
  · next e he =>
    obtain ⟨conversion,hc,h⟩ := Outcome.bind_ok.mp h
    refine Or.inr ⟨e,conversion,he,hc,?_⟩
    split at h
    · next hlt =>
      obtain ⟨db₁,hd,h⟩ := Outcome.bind_ok.mp h
      cases h
      exact Or.inl ⟨hlt,rfl,hd⟩
    · next hle =>
      cases h
      exact Or.inr ⟨Nat.le_of_not_lt hle,rfl,rfl⟩

theorem retryRow_ok {reason : String} {item : String × Time} (h : retryRow reason db item = .ok out) :
    (db.getEvent item.1 = none ∧ out = db) ∨ ∃ e, db.getEvent item.1 = some e ∧
      e.status = .uploading ∧ ∃ failed, failed = e.moved .failedRetryable (some ("transient:" ++ reason)) ∧
      out = (db.record e failed failed.statusReason item.2).record failed
        ((failed.moved .uploading none).attempted item.2) none item.2 := by
  unfold retryRow at h
  split at h
  · next hn =>
    cases h
    exact Or.inl ⟨hn,rfl⟩
  · next e he =>
    obtain ⟨⟨db₁,e₁⟩,h₁,h⟩ := Outcome.bind_ok.mp h
    obtain ⟨⟨db₂,e₂⟩,h₂,h⟩ := Outcome.bind_ok.mp h
    obtain ⟨ha,rfl,rfl⟩ := transition_ok h₁
    obtain ⟨_,rfl,rfl⟩ := transition_ok h₂
    cases h
    have hu : e.status = .uploading := by
      cases hs : e.status <;> simp_all [EventStatus.allowedTransitions]
    exact Or.inr ⟨e,he,hu,_,rfl,Ledger.record_putEvent rfl rfl⟩

/-- The three outcomes of a row; the last one also writes a record. -/
theorem applyRow_ok {loaded : List String} {now : Time} {item : Claimed × RowResult}
    (h : applyRow loaded now db item = .ok out) :
    item.1.eventId ∈ loaded ∧ ∃ e, db.getEvent item.1.eventId = some e ∧
      ((∃ dest reason, dest ∈ [EventStatus.uploaded,.failedRetryable] ∧
          dest ∈ e.status.allowedTransitions ∧ out = db.record e (e.moved dest reason) reason now) ∨
        deadLetter db e .partialFailure ("permanent_row:" ++ item.2.code) (some item.2.code)
          item.2.message item.1.conversion now = .ok out) := by
  unfold applyRow at h
  split at h
  · cases h
  · next e he =>
    split at he
    · next hl =>
      refine ⟨hl,e,he,?_⟩
      split at h
      · obtain ⟨⟨db₁,e₁⟩,ht,h⟩ := Outcome.bind_ok.mp h
        obtain ⟨ha,rfl,rfl⟩ := transition_ok ht
        cases h
        exact Or.inl ⟨_,_,by simp,ha,rfl⟩
      · split at h
        · obtain ⟨⟨db₁,e₁⟩,ht,h⟩ := Outcome.bind_ok.mp h
          obtain ⟨ha,rfl,rfl⟩ := transition_ok ht
          cases h
          exact Or.inl ⟨_,_,by simp,ha,rfl⟩
        · exact Or.inr h
    · cases he

theorem applyResult_ok {loaded : List String} {batch : List Claimed} {rows : List RowResult} {now : Time}
    (h : applyResult db loaded batch rows now = .ok out) :
    Outcome.loop (applyRow loaded now) db (batch.zip rows) = .ok out ∧ batch.length = rows.length := by
  obtain ⟨db₁,hl,h⟩ := Outcome.bind_ok.mp h
  split at h
  · next hn =>
    cases h
    exact ⟨hl,hn⟩
  · simp at h

theorem deadLetterOne_ok {batch : List Claimed} {failure : BatchFailure} {now : Time} {id : String}
    (h : deadLetterOne batch failure now db id = .ok out) :
    (db.getEvent id = none ∧ out = db) ∨ ∃ e, db.getEvent id = some e ∧
      deadLetter db e failure.failureClass failure.reason (some failure.errorCode)
        (some failure.errorMessage) (conversionOf batch id) now = .ok out := by
  unfold deadLetterOne at h
  split at h
  · next hn =>
    cases h
    exact Or.inl ⟨hn,rfl⟩
  · next e he => exact Or.inr ⟨e,he,h⟩

theorem replay_ok {letter : DeadLetter} {event : Option Event} {now : Time}
    {message : Option QueueMessage} (h : replay db letter event now = .ok (out,message)) :
    (out = db ∧ message = none) ∨ ∃ e, event = some e ∧ letter.replayedAt = none ∧
      e.status = .deadLettered ∧
      out = (db.record e (e.requeued letter) (some (replayedReason letter.id)) now).putDeadLetter
        (letter.replayed now) ∧
      message = some ⟨e.eventId,.blank,now,e.correlationId⟩ := by
  unfold replay at h
  split at h
  · cases h
    exact Or.inl ⟨rfl,rfl⟩
  · next ho =>
    split at h
    · cases h
      exact Or.inl ⟨rfl,rfl⟩
    · next e =>
      split at h
      · cases h
        exact Or.inl ⟨rfl,rfl⟩
      · next hd =>
        obtain ⟨⟨db₁,e₁⟩,ht,h⟩ := Outcome.bind_ok.mp h
        obtain ⟨_,rfl,rfl⟩ := transition_ok ht
        cases h
        refine Or.inr ⟨e,rfl,not_not.mp ho,not_not.mp hd,?_,rfl⟩
        exact congrArg (fun l => Ledger.putDeadLetter l _) (Ledger.record_putEvent rfl rfl)

end Operations
end ConversionGateway
