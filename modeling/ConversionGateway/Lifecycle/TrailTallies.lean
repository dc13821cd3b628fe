import ConversionGateway.Lifecycle.IdentifierFields
import ConversionGateway.Concurrency.Commits
import ConversionGateway.Model.Tallies

/-! # The trail against the counters of what becomes of an event

The trail tells the increments of every transaction that commits: its entries are of the
same labels, and the reasons of a rejection can be read back from the text it notes.
-/
namespace ConversionGateway
open Relational

/-! ## The reasons of a rejection -/

theorem RejectionReason.value_plain (r : RejectionReason) :
    ':' ∉ r.value.toList ∧ ';' ∉ r.value.toList ∧ r.value.length ≤ 17 := by
  cases r <;> decide

/-- The rejections name fields of the record. -/
theorem rejection_field {rt : Runtime} {raw : RawIdentifiers} {r : FieldRejection}
    (h : r ∈ (buildUserIdentifiers rt raw).rejections) : ';' ∉ r.field.toList ∧ r.field.length ≤ 14 := by
  rcases IdentifierField.mem_rejections h with ⟨f,hf,_⟩ | rfl
  · rw [hf]
    cases f <;> decide
  · decide

theorem rejections_length (rt : Runtime) (raw : RawIdentifiers) :
    (buildUserIdentifiers rt raw).rejections.length ≤ 10 := by
  rw [IdentifierField.rejections_eq, List.length_append]
  have hfields : (IdentifierField.all.filterMap (IdentifierField.rejection rt raw)).length ≤ 9 :=
    List.length_filterMap_le ..
  split
  · simp only [List.length_nil]
    omega
  · simp only [List.length_singleton]
    omega

/-- The text keeps every rejection in full. -/
theorem rejectionsReason_eq {rt : Runtime} {event : Event} {raw : RawIdentifiers} :
    rejectionsReason (countedRejections event (buildUserIdentifiers rt raw).rejections) =
      ";".intercalate ((countedRejections event (buildUserIdentifiers rt raw).rejections).map fun r =>
        r.reason.value ++ ":" ++ r.field) := by
  set counted := countedRejections event (buildUserIdentifiers rt raw).rejections with hcounted
  have hlen : counted.length ≤ 10 := (List.length_filter_le ..).trans (rejections_length rt raw)
  have hentries : ∀ s ∈ counted.map (fun r => r.reason.value ++ ":" ++ r.field), s.length ≤ 32 := by
    intro s hs
    obtain ⟨r,hr,rfl⟩ := List.mem_map.mp hs
    have hreason := r.reason.value_plain.2.2
    have hfield := (rejection_field (List.mem_of_mem_filter hr)).2
    have hcolon : ":".length = 1 := rfl
    rw [String.length_append, String.length_append]
    omega
  have htext : (";".intercalate (counted.map fun r => r.reason.value ++ ":" ++ r.field)).length ≤ _ :=
    Text.length_intercalate_le hentries
  have hsep : ";".length = 1 := rfl
  rw [List.length_map, hsep] at htext
  exact Text.truncate_of_le (by omega)

/-- The reasons are read back from the text. -/
theorem reasonsOf_rejectionsReason {rt : Runtime} {event : Event} {raw : RawIdentifiers}
    (hne : countedRejections event (buildUserIdentifiers rt raw).rejections ≠ []) :
    reasonsOf (rejectionsReason (countedRejections event (buildUserIdentifiers rt raw).rejections)) =
      (countedRejections event (buildUserIdentifiers rt raw).rejections).map fun r => r.reason.value := by
  rw [rejectionsReason_eq]
  have hplain : ∀ r ∈ countedRejections event (buildUserIdentifiers rt raw).rejections, ';' ∉ r.field.toList :=
    fun r hr => (rejection_field (List.mem_of_mem_filter hr)).1
  generalize countedRejections event (buildUserIdentifiers rt raw).rejections = rejections at hne hplain
  have hsep : ";".toList = [';'] := rfl
  rw [reasonsOf, String.toList_intercalate, hsep, List.map_map, List.splitOn_intercalate]
  · rw [List.map_map]
    refine List.map_congr_left fun r _ => ?_
    have hentry : (r.reason.value ++ ":" ++ r.field).toList = r.reason.value.toList ++ ':' :: r.field.toList := by
      simp
    have hreason : ∀ c ∈ r.reason.value.toList, decide (c ≠ ':') = true :=
      fun c hc => decide_eq_true fun heq => r.reason.value_plain.1 (heq ▸ hc)
    simp only [Function.comp_apply, hentry]
    rw [List.takeWhile_append_of_pos hreason, List.takeWhile_cons_of_neg (by simp), List.append_nil,
      String.ofList_toList]
  · intro l hl
    obtain ⟨r,hr,rfl⟩ := List.mem_map.mp hl
    have hreason := r.reason.value_plain.2.1
    simp [hreason,hplain r hr]
  · simpa using hne

/-! ## The trail grows -/

section Journal
variable {rt : Runtime} {db out : Ledger} {e e' : Event} {reason : Option String} {now : Time}

theorem Event.series_congr (h : e'.identity = e.identity) : e'.series = e.series := by
  have hsource : e'.source = e.source := congrArg Identity.source h
  have haction : e'.conversionAction = e.conversionAction := congrArg Identity.conversionAction h
  rw [series, series, hsource, haction]

namespace Ledger

/-- Every entry of the trail has its event. -/
def Anchored (db : Ledger) : Prop := ∀ t ∈ db.transitions.rows, ∃ e, db.getEvent t.eventId = some e

theorem tallies_append {new : List EventTransition} (ht : out.transitions.rows = db.transitions.rows ++ new)
    (hs : ∀ t ∈ db.transitions.rows, out.series t.eventId = db.series t.eventId) :
    out.tallies = db.tallies ++ new.flatMap fun t => (out.series t.eventId).toList.flatMap t.tallies := by
  have hold : (db.transitions.rows.flatMap fun t => (out.series t.eventId).toList.flatMap t.tallies) = db.tallies :=
    List.flatMap_congr fun t ht => by rw [hs t ht]
  rw [tallies, ht, List.flatMap_append, hold]

theorem tallies_congr (ht : out.transitions.rows = db.transitions.rows)
    (hs : ∀ k, out.series k = db.series k) : out.tallies = db.tallies := by
  rw [tallies_append (ht.trans (List.append_nil _).symm) fun t _ => hs t.eventId]
  exact List.append_nil _

theorem putEvent_series (he : db.getEvent e.eventId = some e) (hid : e'.identity = e.identity) (k : String) :
    (db.putEvent e').series k = db.series k := by
  have hkey : e'.eventId = e.eventId := congrArg Identity.eventId hid
  unfold series
  rw [putEvent_getEvent he hkey]
  split
  · next hk => rw [hk, he, Option.map_some, Option.map_some, Event.series_congr hid]
  · rfl

theorem record_tallies (he : db.getEvent e.eventId = some e) (hid : e'.identity = e.identity) :
    (db.record e e' reason now).tallies = db.tallies ++
      EventTransition.tallies ⟨db.transitions.next,e.eventId,some e.status,e'.status,reason,now⟩ e.series := by
  have hseries : ∀ k, (db.record e e' reason now).series k = db.series k := putEvent_series he hid
  have hrow : db.series e.eventId = some e.series := by rw [series, he, Option.map_some]
  have hnew : (db.record e e' reason now).transitions.rows = db.transitions.rows ++
      [⟨db.transitions.next,e.eventId,some e.status,e'.status,reason,now⟩] := rfl
  rw [tallies_append hnew fun t _ => hseries t.eventId, List.flatMap_singleton, hseries, hrow,
    Option.toList_some, List.flatMap_singleton]

/-- Most changes of an event are none that is counted. -/
theorem record_quiet (he : db.getEvent e.eventId = some e) (hid : e'.identity = e.identity)
    (hs : e'.status ∉ [EventStatus.suppressed,.rejected,.uploaded]) :
    (db.record e e' reason now).tallies = db.tallies := by
  have hnone : EventTransition.tallies ⟨db.transitions.next,e.eventId,some e.status,e'.status,reason,now⟩ e.series = [] := by
    simp only [List.mem_cons, List.not_mem_nil, or_false, not_or] at hs
    unfold EventTransition.tallies
    cases hd : e'.status <;> simp_all
  rw [record_tallies he hid, hnone, List.append_nil]

theorem enter_tallies (ha : db.Anchored) (hnew : db.events.get e.eventId = none) :
    (db.enter e hnew now).tallies = db.tallies := by
  have htrail : (db.enter e hnew now).transitions.rows = db.transitions.rows ++
      [⟨db.transitions.next,e.eventId,none,.received,none,now⟩] := rfl
  have hseries : ∀ t ∈ db.transitions.rows, (db.enter e hnew now).series t.eventId = db.series t.eventId := by
    intro t ht
    obtain ⟨x,hx⟩ := ha t ht
    have hne : t.eventId ≠ e.eventId := by
      intro heq
      rw [heq] at hx
      exact absurd (hx.symm.trans hnew) (by simp)
    unfold series
    rw [enter_getEvent, if_neg hne]
  rw [tallies_append htrail hseries, List.flatMap_singleton]
  simp [EventTransition.tallies]

end Ledger

/-! ## What is not counted -/

theorem deadLetter_tallies {failureClass : FailureClass} {reason : String} {code message : Option String}
    {payload : Json} (he : db.getEvent e.eventId = some e)
    (h : deadLetter db e failureClass reason code message payload now = .ok out) : out.tallies = db.tallies := by
  obtain ⟨_,letter,hid,_,_,rfl⟩ := deadLetter_ok h
  have hrecord : (db.record e (e.moved .deadLettered (some reason)) (some reason) now).tallies = db.tallies :=
    Ledger.record_quiet he rfl (by simp [Event.moved])
  rw [← hrecord]
  exact Ledger.tallies_congr rfl fun _ => rfl

theorem recordProcessed_tallies {hashed : HashedIdentifiers} (he : db.getEvent e.eventId = some e)
    (h : recordProcessed db e hashed now = .ok (out,e')) : out.tallies = db.tallies := by
  obtain ⟨_,rfl,rfl⟩ := transition_ok h
  change (db.record e (e.processedWith hashed) none now).tallies = db.tallies
  exact Ledger.record_quiet he rfl (by simp [Event.processedWith,Event.moved])

theorem claimRow_tallies {id : String} (h : claimRow now db id = .ok out) : out.tallies = db.tallies := by
  rcases claimRow_ok h with ⟨_,rfl⟩ | ⟨e,he,e',reason,hc,rfl⟩
  · rfl
  · have he := getEvent_self he
    cases hc with
    | attempt ha => exact Ledger.record_quiet he rfl (by simp [Event.attempted,Event.moved])
    | reclaim hu => exact Ledger.record_quiet he rfl (by simp [Event.attempted,hu])

theorem claimItem_tallies {st : Settings} {id : String} {items items' : List Claimed}
    (h : claimItem rt st now (db,items) id = .ok (out,items')) : out.tallies = db.tallies := by
  rcases claimItem_ok h with ⟨_,rfl,_⟩ | ⟨e,conversion,he,_,⟨_,_,hd⟩ | ⟨_,rfl,_⟩⟩
  · rfl
  · exact deadLetter_tallies (getEvent_self he) hd
  · rfl

theorem retryRow_tallies {reason : String} {item : String × Time} (h : retryRow reason db item = .ok out) :
    out.tallies = db.tallies := by
  rcases retryRow_ok h with ⟨_,rfl⟩ | ⟨e,he,_,failed,rfl,rfl⟩
  · rfl
  · have he := getEvent_self he
    have hfailed := Ledger.moved_getEvent he .failedRetryable (some ("transient:" ++ reason)) item.2
    refine Eq.trans (Ledger.record_quiet hfailed rfl (by simp [Event.attempted,Event.moved])) ?_
    exact Ledger.record_quiet he rfl (by simp [Event.moved])

theorem deadLetterOne_tallies {batch : List Claimed} {failure : BatchFailure} {id : String}
    (h : deadLetterOne batch failure now db id = .ok out) : out.tallies = db.tallies := by
  rcases deadLetterOne_ok h with ⟨_,rfl⟩ | ⟨e,he,hd⟩
  · rfl
  · exact deadLetter_tallies (getEvent_self he) hd

theorem replay_tallies {letter : DeadLetter} {event : Option Event} {message : Option QueueMessage}
    (hrow : ∀ e ∈ event, db.getEvent e.eventId = some e) (h : replay db letter event now = .ok (out,message)) :
    out.tallies = db.tallies := by
  rcases replay_ok h with ⟨rfl,_⟩ | ⟨e,rfl,_,_,rfl,_⟩
  · rfl
  · have hrecord : (db.record e (e.requeued letter) (some (replayedReason letter.id)) now).tallies = db.tallies :=
      Ledger.record_quiet (hrow e rfl) rfl (by simp [Event.requeued,Event.moved])
    rw [← hrecord]
    exact Ledger.tallies_congr rfl fun _ => rfl

theorem recordValidated_tallies {event : CanonicalLeadEvent} {r : Option Event} (ha : db.Anchored)
    (h : recordValidated rt db event now = .ok (out,r)) : out.tallies = db.tallies := by
  rcases recordValidated_ok h with ⟨_,rfl,_⟩ | ⟨row,stored,_,_,hnew,_,rfl⟩
  · rfl
  · have he := Ledger.enter_getEvent_self now hnew
    have he₁ := Ledger.moved_getEvent he .validated none now
    refine Eq.trans (Ledger.record_quiet he₁ rfl (by simp [Event.moved])) ?_
    refine Eq.trans (Ledger.record_quiet he rfl (by simp [Event.moved])) ?_
    exact Ledger.enter_tallies ha hnew

/-- A rejection on receipt is not the processor's. -/
theorem recordRejected_tallies {eventId sourceEventId reason : String} {source : Source} {r : Option Event}
    (ha : db.Anchored) (h : recordRejected rt db eventId source sourceEventId reason now = .ok (out,r)) :
    out.tallies = db.tallies := by
  rcases recordRejected_ok h with ⟨_,rfl,_⟩ | ⟨stored,hstored,hnew,_,rfl⟩
  · rfl
  · have he := Ledger.enter_getEvent_self now hnew
    have hs := (hstored.created ⟨rfl,rfl,rfl⟩).status
    refine Eq.trans (Ledger.record_tallies he rfl) ?_
    rw [Ledger.enter_tallies ha hnew, hs]
    simp [EventTransition.tallies,Event.moved]

theorem ingestBody_tallies {correlationId : CorrelationId} {source : Source} {plan : IngestPlan} {i : Ingested}
    (ha : db.Anchored) (h : ingestBody rt db correlationId now source plan = .ok (out,i)) :
    out.tallies = db.tallies := by
  cases plan with
  | raised e => cases h
  | reject sourceEventId errors =>
    obtain ⟨id,_,h₁⟩ := Outcome.bind_ok.mp h
    obtain ⟨⟨db₁,r⟩,hr,h₂⟩ := Outcome.bind_ok.mp h₁
    rw [← recordRejected_tallies ha hr]
    rcases recordRejected_ok hr with ⟨rfl,rfl,_⟩ | ⟨stored,_,hnew,rfl,rfl⟩
    · cases h₂
      rfl
    · cases h₂
      have he := Ledger.enter_getEvent_self now hnew
      exact Ledger.tallies_congr rfl (Ledger.putEvent_series
        (Ledger.moved_getEvent he .rejected (some (rejectReason errors)) now) rfl)
  | accept event =>
    obtain ⟨⟨db₁,r⟩,hr,h⟩ := Outcome.bind_ok.mp h
    rw [← recordValidated_tallies ha hr]
    cases r with
    | none =>
      dsimp only at h
      split at h
      · simp at h
      · cases h
        rfl
    | some row =>
      cases h
      rfl

/-! ## What is counted -/

theorem countRejections_eq (e : Event) (rejections : List FieldRejection) : countRejections e rejections =
    (.ok ⟨⟩,rejections.map fun r => .rejected e.source (unknown e.conversionAction) r.reason.value) :=
  Metered.loop_count _ rejections

/-- The entry of a rejection tells what the loop over its reasons counts. -/
theorem rejected_tallies {raw : RawIdentifiers} (he : db.getEvent e.eventId = some e) (hq : e.status = .queued)
    (hne : countedRejections e (buildUserIdentifiers rt raw).rejections ≠ []) :
    (db.record e (e.moved .rejected
      (some (rejectionsReason (countedRejections e (buildUserIdentifiers rt raw).rejections))))
      (some (rejectionsReason (countedRejections e (buildUserIdentifiers rt raw).rejections))) now).tallies =
    db.tallies ++ (countedRejections e (buildUserIdentifiers rt raw).rejections).map fun r =>
      .rejected e.source (unknown e.conversionAction) r.reason.value := by
  refine Eq.trans (Ledger.record_tallies he rfl) (congrArg (db.tallies ++ ·) ?_)
  have hentry : EventTransition.tallies ⟨db.transitions.next,e.eventId,some e.status,.rejected,
      some (rejectionsReason (countedRejections e (buildUserIdentifiers rt raw).rejections)),now⟩ e.series = _ :=
    if_pos (congrArg some hq)
  refine hentry.trans ?_
  rw [Option.toList_some, List.flatMap_singleton, reasonsOf_rejectionsReason hne, List.map_map]
  rfl

/-- Without the counters the statements are those of `process_message`. -/
theorem processMessageTallied_fst (rt : Runtime) (db : Ledger) (event : Option Event) (message : QueueMessage)
    (now : Time) :
    (processMessageTallied rt db event message now).1 = processMessage rt db event message now := by
  cases event with
  | none => rfl
  | some e =>
    unfold processMessageTallied processMessage
    dsimp only
    by_cases hq : e.status ≠ .queued
    · rw [if_pos hq, if_pos hq]
      rfl
    rw [if_neg hq, if_neg hq]
    by_cases hp : ¬ (evaluateConsent e.consent).permitted = true
    · rw [if_pos hp, if_pos hp]
      cases (evaluateConsent e.consent).reason with
      | none => rfl
      | some reason =>
        dsimp only
        rw [Metered.bind_fst, Metered.lift_fst]
        rfl
    rw [if_neg hp, if_neg hp]
    cases reusedDigests e message with
    | some hashed =>
      dsimp only
      rw [Metered.bind_fst, Metered.lift_fst]
      rfl
    | none =>
      dsimp only
      split
      · rw [Metered.bind_fst, Metered.lift_fst]
        refine congrArg (transition db e .rejected _ now >>= ·) (funext fun p => ?_)
        rw [Metered.bind_fst, countRejections_eq]
        rfl
      · rw [Metered.bind_fst, Metered.lift_fst]
        rfl

theorem processMessageTallied_tallies {event : Option Event} {message : QueueMessage} {outcome : ProcessOutcome}
    (hrow : ∀ e ∈ event, db.getEvent e.eventId = some e)
    (h : (processMessageTallied rt db event message now).1 = .ok (out,outcome)) :
    out.tallies = db.tallies ++ (processMessageTallied rt db event message now).2 := by
  cases event with
  | none =>
    cases h
    exact (List.append_nil _).symm
  | some e =>
    have he := hrow e rfl
    unfold processMessageTallied at h ⊢
    dsimp only at h ⊢
    by_cases hq : e.status ≠ .queued
    · rw [if_pos hq] at h ⊢
      cases h
      exact (List.append_nil _).symm
    rw [if_neg hq] at h ⊢
    by_cases hp : ¬ (evaluateConsent e.consent).permitted = true
    · rw [if_pos hp] at h ⊢
      cases hreason : (evaluateConsent e.consent).reason with
      | none =>
        rw [hreason] at h
        cases h
      | some reason =>
        rw [hreason] at h
        obtain ⟨⟨db₁,e₁⟩,ht,h,hcounted⟩ := Metered.bind_ok h
        cases h
        rw [hcounted]
        obtain ⟨_,rfl,rfl⟩ := transition_ok ht
        exact Ledger.record_tallies he rfl
    rw [if_neg hp] at h ⊢
    cases hdigests : reusedDigests e message with
    | some hashed =>
      rw [hdigests] at h
      obtain ⟨⟨db₁,e₁⟩,ht,h,hcounted⟩ := Metered.bind_ok h
      cases h
      rw [hcounted, recordProcessed_tallies he ht]
      exact (List.append_nil _).symm
    | none =>
      rw [hdigests] at h
      dsimp only at h ⊢
      split at h
      · next hne =>
        rw [if_pos hne]
        obtain ⟨⟨db₁,e₁⟩,ht,h,hcounted⟩ := Metered.bind_ok h
        rw [hcounted]
        dsimp only at h ⊢
        rw [countRejections_eq] at h ⊢
        cases h
        obtain ⟨_,rfl,rfl⟩ := transition_ok ht
        exact (rejected_tallies he (not_not.mp hq) hne).trans (congrArg (db.tallies ++ ·) (List.append_nil _).symm)
      · next hnone =>
        rw [if_neg hnone]
        obtain ⟨⟨db₁,e₁⟩,ht,h,hcounted⟩ := Metered.bind_ok h
        cases h
        rw [hcounted, recordProcessed_tallies he ht]
        exact (List.append_nil _).symm

/-- Likewise for a row of a result. -/
theorem applyRowTallied_fst (loaded : List String) (now : Time) (db : Ledger) (item : Claimed × RowResult) :
    (applyRowTallied loaded now db item).1 = applyRow loaded now db item := by
  unfold applyRowTallied applyRow
  generalize (if item.1.eventId ∈ loaded then db.getEvent item.1.eventId else none) = found
  cases found with
  | none => rfl
  | some e =>
    dsimp only
    split
    · rw [Metered.bind_fst, Metered.lift_fst]
      rfl
    · split
      · rw [Metered.bind_fst, Metered.lift_fst]
        rfl
      · rfl

theorem applyRowTallied_tallies {loaded : List String} {item : Claimed × RowResult}
    (h : (applyRowTallied loaded now db item).1 = .ok out) :
    out.tallies = db.tallies ++ (applyRowTallied loaded now db item).2 := by
  unfold applyRowTallied at h ⊢
  cases hfound : (if item.1.eventId ∈ loaded then db.getEvent item.1.eventId else none) with
  | none =>
    rw [hfound] at h
    cases h
  | some e =>
    rw [hfound] at h
    dsimp only at h ⊢
    have he : db.getEvent e.eventId = some e := by
      split at hfound
      · exact getEvent_self hfound
      · cases hfound
    split at h
    · next hok =>
      rw [if_pos hok]
      obtain ⟨⟨db₁,e₁⟩,ht,h,hcounted⟩ := Metered.bind_ok h
      cases h
      rw [hcounted]
      obtain ⟨_,rfl,rfl⟩ := transition_ok ht
      exact Ledger.record_tallies he rfl
    · next hok =>
      rw [if_neg hok]
      split at h
      · next hclass =>
        rw [if_pos hclass]
        obtain ⟨⟨db₁,e₁⟩,ht,h,hcounted⟩ := Metered.bind_ok h
        cases h
        rw [hcounted]
        obtain ⟨_,rfl,rfl⟩ := transition_ok ht
        refine Eq.trans (Ledger.record_quiet he rfl (by simp [Event.moved])) ?_
        exact (List.append_nil _).symm
      · next hclass =>
        rw [if_neg hclass, deadLetter_tallies he h]
        exact (List.append_nil _).symm

end Journal

/-! ## Transactions -/

section Transactions
variable {rt : Runtime} {db db' out : Ledger} {tx : Transaction} {reply : Reply}

/-- Without the counters the statements are those of the transaction. -/
theorem bodyTallied_fst (rt : Runtime) (db : Ledger) (tx : Transaction) :
    (tx.bodyTallied rt db).1 = tx.body rt db := by
  cases tx with
  | process message loaded now =>
    simp only [Transaction.bodyTallied, Metered.bind_fst, processMessageTallied_fst]
    rfl
  | apply batch loaded rows now =>
    have hloop := Metered.loop_fst (applyRowTallied_fst (loaded.map Event.eventId) now) db (batch.zip rows)
    simp only [Transaction.bodyTallied, applyResultTallied, Metered.bind_fst, Metered.lift_fst, hloop]
    rfl
  | ingest | claim | retry | bury | replay => rfl

/-- The statements of a transaction add to the trail what they count. -/
theorem bodyTallied_tallies (hf : tx.session.Fresh db) (ha : db.Anchored)
    (h : (tx.bodyTallied rt db).1 = .ok (out,reply)) : out.tallies = db.tallies ++ (tx.bodyTallied rt db).2 := by
  cases tx with
  | process message loaded now =>
    have hrow : ∀ e ∈ loaded, db.getEvent e.eventId = some e :=
      fun e he => hf.events e (by simpa [Transaction.session] using he)
    unfold Transaction.bodyTallied at h ⊢
    obtain ⟨⟨mid,o⟩,hm,hb,hcounted⟩ := Metered.bind_ok h
    cases hb
    rw [hcounted, processMessageTallied_tallies hrow hm]
    simp
  | apply batch loaded rows now =>
    unfold Transaction.bodyTallied at h ⊢
    obtain ⟨mid,hm,hb,hcounted⟩ := Metered.bind_ok h
    cases hb
    rw [hcounted]
    unfold applyResultTallied at hm ⊢
    obtain ⟨last,hl,hm,hcounted⟩ := Metered.bind_ok hm
    have hloop := Metered.loop_journal Ledger.tallies (fun _ _ _ => applyRowTallied_tallies) hl
    rw [Metered.lift_fst] at hm
    split at hm
    · cases hm
      rw [hcounted, hloop]
      simp
    · cases hm
  | ingest source plan correlationId now =>
    obtain ⟨⟨mid,i⟩,hi,hb⟩ := Outcome.bind_ok.mp h
    cases hb
    exact (ingestBody_tallies ha hi).trans (List.append_nil _).symm
  | claim st selected now =>
    obtain ⟨⟨mid,items⟩,hc,hb⟩ := Outcome.bind_ok.mp h
    cases hb
    obtain ⟨claimed,hclaimed,hitems⟩ := Outcome.bind_ok.mp hc
    have hrows : claimed.tallies = db.tallies :=
      Outcome.loop_view Ledger.tallies (fun _ _ _ => claimRow_tallies) hclaimed
    have hrest : out.tallies = claimed.tallies :=
      Outcome.loop_view (fun acc : Ledger × List Claimed => acc.1.tallies) (fun _ _ _ => claimItem_tallies) hitems
    exact (hrest.trans hrows).trans (List.append_nil _).symm
  | retry ids loaded reason stamps =>
    obtain ⟨mid,hr,hb⟩ := Outcome.bind_ok.mp h
    cases hb
    have hrows : out.tallies = db.tallies :=
      Outcome.loop_view Ledger.tallies (fun _ _ _ => retryRow_tallies) hr
    exact hrows.trans (List.append_nil _).symm
  | bury batch loaded failure now =>
    obtain ⟨mid,hr,hb⟩ := Outcome.bind_ok.mp h
    cases hb
    have hrows : out.tallies = db.tallies :=
      Outcome.loop_view Ledger.tallies (fun _ _ _ => deadLetterOne_tallies) hr
    exact hrows.trans (List.append_nil _).symm
  | replay letter loaded now =>
    obtain ⟨⟨mid,m⟩,hm,hb⟩ := Outcome.bind_ok.mp h
    cases hb
    have hrow : ∀ e ∈ loaded, db.getEvent e.eventId = some e :=
      fun e he => hf.events e (by simpa [Transaction.session] using he)
    exact (replay_tallies hrow hm).trans (List.append_nil _).symm

/-- An edit notes nothing of an event that is not there. -/
theorem Ledger.Anchored.edit (ha : db.Anchored) (he : Edit rt db db') : db'.Anchored := by
  have hkept : ∀ k x, db.getEvent k = some x → ∃ y, db'.getEvent k = some y := by
    intro k x hx
    obtain ⟨y,hy,_⟩ := he.row hx
    exact ⟨y,hy⟩
  have hold : ∀ t ∈ db.transitions.rows, ∃ y, db'.getEvent t.eventId = some y := by
    intro t ht
    obtain ⟨x,hx⟩ := ha t ht
    exact hkept _ x hx
  have hgrown {t₀ : EventTransition} (hrows : db'.transitions.rows = db.transitions.rows ++ [t₀])
      (hnew : ∃ y, db'.getEvent t₀.eventId = some y) : db'.Anchored := by
    intro t ht
    rw [hrows] at ht
    rcases List.mem_append.mp ht with ht | ht
    · exact hold t ht
    · rw [List.mem_singleton.mp ht]
      exact hnew
  cases he with
  | create hnew hc now => exact hgrown rfl ⟨_,Ledger.enter_getEvent_self now hnew⟩
  | label | skip => exact hold
  | move he | process he | attempt he | reclaim he | bury he | revive he => exact hgrown rfl (hkept _ _ he)

/-- A commit adds to the trail what its transaction has counted. -/
theorem Transaction.commit_tallies (hk : tx.session.Known db) (hp : tx.Paired) (ha : db.Anchored)
    (h : tx.commit rt db = .ok (db',reply)) :
    db'.Anchored ∧ db'.tallies = db.tallies ++ tx.tallied rt db := by
  obtain ⟨out,hb,rfl,_⟩ := commit_ok.mp h
  have hedits := body_edits hk.fresh_view hp hb
  have hview : (tx.session.view db).Anchored := by
    intro t ht
    obtain ⟨x,hx⟩ := ha t ht
    exact ⟨_,by rw [Session.view_getEvent, hx, Option.map_some]⟩
  have hseen : (tx.session.view db).tallies = db.tallies := by
    refine Ledger.tallies_congr rfl fun k => ?_
    unfold Ledger.series
    rw [Session.view_getEvent]
    cases hc : db.getEvent k with
    | none => rfl
    | some current => exact congrArg some (Event.series_congr (hk.event_identity hc))
  have hwritten : (tx.session.flush db out).tallies = out.tallies := by
    refine Ledger.tallies_congr rfl fun k => ?_
    unfold Ledger.series
    rw [Session.flush_getEvent]
    cases hfinal : out.getEvent k with
    | none => rfl
    | some final =>
      have hkey := Ledger.getEvent_eventId hfinal
      refine congrArg some ?_
      cases hc : db.getEvent final.eventId with
      | none => rw [Session.settle_of_none hc]
      | some current =>
        have hv : (tx.session.view db).getEvent k = some (tx.session.event current) := by
          rw [Session.view_getEvent, ← hkey, hc, Option.map_some]
        obtain ⟨final',hfinal',hrow⟩ := hedits.row hv
        cases hfinal.symm.trans hfinal'
        have hid := identity_of_rowEdits hrow
        rw [Session.settle_of_some hc]
        exact Event.series_congr ((Event.merge_identity hid).trans (hid.trans (hk.event_identity hc)).symm)
  refine ⟨fun t ht => ?_,?_⟩
  · obtain ⟨x,hx⟩ := Edits.inv (fun _ _ => Ledger.Anchored.edit) hview hedits t ht
    exact ⟨_,by rw [Session.flush_getEvent, hx, Option.map_some]⟩
  · rw [← bodyTallied_fst] at hb
    rw [hwritten, bodyTallied_tallies hk.fresh_view hview hb, hseen]
    rfl

end Transactions
end ConversionGateway
