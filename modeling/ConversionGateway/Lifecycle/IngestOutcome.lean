import ConversionGateway.Lifecycle.Operations

/-! # How a request ends

A request is answered, with its row in the ledger, exactly when nothing it
carries is refused on the way: by the JSON decoder, by the conversion of a
timestamp, by the encoding of the connection or by a column.
-/
namespace ConversionGateway
open Relational

/-- `_ingest`: everything before the transaction, and the transaction. -/
def ingest (rt : Runtime) (db : Ledger) (source : Source) (body : ByteArray) (now : Time)
    (correlationId : CorrelationId) : Except PyError (Ledger × Reply) :=
  (Transaction.ingest source (planIngest rt source body correlationId) correlationId now).commit rt db

/-- The request is answered and the ledger has a row with the id of the answer. -/
def Answered (result : Except PyError (Ledger × Reply)) : Prop :=
  ∃ db i, result = .ok (db,.ingested i) ∧ i.response.statusCode ∈ [202,200,422] ∧
    ∃ e, db.getEvent i.response.eventId = some e

section Columns
variable {db : Ledger} {e : Event}

theorem Ledger.fits_iff : db.fits = true ↔ (∀ e ∈ db.events.rows, e.fits = true) ∧
    (∀ t ∈ db.transitions.rows, t.fits = true) ∧ ∀ d ∈ db.deadLetters.rows, d.fits = true := by
  simp [Ledger.fits,and_assoc]

theorem fits_event (hf : db.fits = true) {k : String} (he : db.getEvent k = some e) : e.fits = true :=
  (Ledger.fits_iff.mp hf).1 e (Table.mem_of_get he)

theorem Ledger.fits_record (e : Event) {e' : Event} (now : Time) (h : db.fits = true)
    (he : e'.fits = true) {reason : Option String} (hr : nullable (varchar 512) reason = true) :
    (db.record e e' reason now).fits = true := by
  obtain ⟨h₁,h₂,h₃⟩ := fits_iff.mp h
  refine fits_iff.mpr ⟨fun x hx => ?_,fun t ht => ?_,h₃⟩
  · obtain ⟨y,hy,rfl⟩ := List.mem_map.mp hx
    split
    · exact he
    · exact h₁ y hy
  · rcases List.mem_append.mp ht with ht | ht
    · exact h₂ t ht
    · rw [List.mem_singleton.mp ht]
      exact hr

/-- The reason of an audit row that fits. -/
theorem Ledger.reason_fits {e' : Event} {reason : Option String} {now : Time}
    (h : ∀ t ∈ (db.record e e' reason now).transitions.rows, t.fits = true) :
    nullable (varchar 512) reason = true := by
  have hm : (⟨db.transitions.next,e.eventId,some e.status,e'.status,reason,now⟩ : EventTransition) ∈
      (db.record e e' reason now).transitions.rows :=
    List.mem_append_right db.transitions.rows (List.mem_singleton_self _)
  have hf := h _ hm
  exact hf

theorem Ledger.fits_enter (hnew : db.events.get e.eventId = none) (now : Time) (h : db.fits = true)
    (he : e.fits = true) : (db.enter e hnew now).fits = true := by
  obtain ⟨h₁,h₂,h₃⟩ := fits_iff.mp h
  refine fits_iff.mpr ⟨fun x hx => ?_,fun t ht => ?_,h₃⟩
  · rcases List.mem_append.mp hx with hx | hx
    · exact h₁ x hx
    · rw [List.mem_singleton.mp hx]
      exact he
  · rcases List.mem_append.mp ht with ht | ht
    · exact h₂ t ht
    · rw [List.mem_singleton.mp ht]
      rfl

theorem Ledger.fits_putEvent (h : db.fits = true) (he : e.fits = true) : (db.putEvent e).fits = true := by
  obtain ⟨h₁,h₂,h₃⟩ := fits_iff.mp h
  refine fits_iff.mpr ⟨fun x hx => ?_,h₂,h₃⟩
  obtain ⟨y,hy,rfl⟩ := List.mem_map.mp hx
  split
  · exact he
  · exact h₁ y hy

theorem Event.fits_moved (dest : EventStatus) {reason : Option String} (h : e.fits = true)
    (hr : nullable (varchar 512) reason = true) : (e.moved dest reason).fits = true := by
  simp only [Event.fits, Bool.and_eq_true] at h ⊢
  obtain ⟨⟨⟨⟨⟨⟨⟨h₁,h₂⟩,h₃⟩,h₄⟩,h₅⟩,h₆⟩,-⟩,h₈⟩ := h
  exact ⟨⟨⟨⟨⟨⟨⟨h₁,h₂⟩,h₃⟩,h₄⟩,h₅⟩,h₆⟩,hr⟩,h₈⟩

theorem CorrelationId.fits (c : CorrelationId) : varchar 32 c.value = true := by
  simp only [varchar, c.length_eq, Bool.and_eq_true, decide_eq_true_eq, List.contains_eq_mem,
    Bool.not_eq_true', decide_eq_false_iff_not]
  refine ⟨Nat.le_refl _,fun hz => ?_⟩
  have hh := List.all_eq_true.mp c.hex _ hz
  revert hh
  decide

theorem Event.fits_labelled (h : e.fits = true) (c : CorrelationId) :
    (e.labelled (some c.value)).fits = true := by
  simp only [Event.fits, Bool.and_eq_true] at h ⊢
  obtain ⟨⟨⟨⟨⟨⟨⟨h₁,h₂⟩,h₃⟩,h₄⟩,h₅⟩,h₆⟩,h₇⟩,h₈⟩ := h
  exact ⟨⟨⟨⟨⟨⟨⟨h₁,h₂⟩,c.fits⟩,h₄⟩,h₅⟩,h₆⟩,h₇⟩,h₈⟩

end Columns

section Insert
variable {rt : Runtime} {db : Ledger} {row : Event}

/-- The INSERT raises nothing: the values fit their columns, and the time of a
row that is new can be read back. -/
structure Event.Insertable (rt : Runtime) (db : Ledger) (row : Event) : Prop where
  fits : row.fits = true
  value : ∀ v ∈ row.conversionValue, v.toNumeric.isSome
  time : db.getEvent row.eventId = none → ∀ t ∈ row.conversionTime, (rt.readTimestamp t).isSome

theorem Event.accept_isOk : (∃ a, row.accept = .ok a) ↔
    row.fits = true ∧ ∀ v ∈ row.conversionValue, v.toNumeric.isSome := by
  unfold accept
  split
  · next hf =>
    split
    · next hv => simp [hf,hv]
    · next v hv =>
      split
      · next hn => simp [hv,hn]
      · next stored hs => simp [hf,hv,hs]
  · next hf => simp [hf]

theorem Event.readBack_isOk (rt : Runtime) (row : Event) : (∃ a, row.readBack rt = .ok a) ↔
    ∀ t ∈ row.conversionTime, (rt.readTimestamp t).isSome := by
  unfold readBack
  split
  · next ht => simp [ht]
  · next t ht =>
    split
    · next hn => simp [ht,hn]
    · next stored hs => simp [ht,hs]

theorem insertIfAbsent_isOk : (∃ r, insertIfAbsent rt db row = .ok r) ↔ row.Insertable rt db := by
  constructor
  · rintro ⟨r,h⟩
    obtain ⟨a,ha,h⟩ := Outcome.bind_ok.mp h
    obtain ⟨hf,hv⟩ := Event.accept_isOk.mp ⟨a,ha⟩
    obtain ⟨v,rfl⟩ := Event.accept_ok ha
    refine ⟨hf,hv,fun hn => ?_⟩
    rw [if_pos (show db.getEvent row.eventId = none from hn)] at h
    obtain ⟨b,hb,_⟩ := Outcome.bind_ok.mp h
    have hr := (Event.readBack_isOk rt _).mp ⟨b,hb⟩
    exact hr
  · intro h
    obtain ⟨a,ha⟩ := Event.accept_isOk.mpr ⟨h.fits,h.value⟩
    obtain ⟨v,hav⟩ := Event.accept_ok ha
    unfold insertIfAbsent
    rw [ha]
    cases hg : db.getEvent row.eventId with
    | some e => exact ⟨none,by simp [hav,hg,bind,Except.bind,pure,Except.pure]⟩
    | none =>
      obtain ⟨b,hb⟩ := (Event.readBack_isOk rt a).mpr (by
        rw [hav]
        exact h.time hg)
      have hbind : (Except.ok a >>= fun accepted => if db.getEvent accepted.eventId = none then do
            let stored ← accepted.readBack rt
            if h : db.events.get stored.eventId = none then
              return some ({ db with events := db.events.insert stored h },stored)
            else return none
          else return none : Except PyError (Option (Ledger × Event))) =
          if h : db.events.get b.eventId = none then
            .ok (some ({ db with events := db.events.insert b h },b))
          else .ok none := by
        have hga : db.getEvent a.eventId = none := by
          rw [hav]
          exact hg
        simp only [bind, Except.bind, hga, if_true, hb]
        rfl
      rw [hbind]
      split
      · exact ⟨_,rfl⟩
      · exact ⟨_,rfl⟩

/-- A stored row is in its columns as the row was. -/
theorem Event.StoredAs.fits {stored : Event} (h : row.StoredAs stored) (hf : row.fits = true) :
    stored.fits = true := by
  obtain ⟨v,t,rfl⟩ := h.columns
  exact hf

theorem Event.StoredAs.eventId {stored : Event} (h : row.StoredAs stored) :
    stored.eventId = row.eventId := by
  obtain ⟨v,t,rfl⟩ := h.columns
  rfl

theorem transition_isOk {e : Event} {dest : EventStatus} (h : dest ∈ e.status.allowedTransitions)
    (reason : Option String) (now : Time) {T : Type} {f : Ledger × Event → Except PyError T}
    (hf : ∃ b, f (db.record e (e.moved dest reason) reason now,e.moved dest reason) = .ok b) :
    ∃ b, transition db e dest reason now >>= f = .ok b :=
  Outcome.bind_isOk.mpr ⟨_,if_pos h,hf⟩

/-- An error-free INSERT is all that `recordValidated` needs. -/
theorem recordValidated_isOk {event : CanonicalLeadEvent} {now : Time} :
    (∃ r, recordValidated rt db event now = .ok r) ↔
      ∃ row, validatedRow event now = .ok row ∧ row.Insertable rt db := by
  unfold recordValidated
  rw [Outcome.bind_isOk]
  refine exists_congr fun row => and_congr_right fun hrow => ?_
  rw [Outcome.bind_isOk, ← insertIfAbsent_isOk]
  refine exists_congr fun i => and_iff_left_of_imp fun hi => ?_
  cases i with
  | none => exact ⟨_,rfl⟩
  | some p =>
    have hs : p.2.status = .received := by
      obtain ⟨_,_,hrow⟩ := Outcome.bind_ok.mp hrow
      obtain ⟨_,_,hrow⟩ := Outcome.bind_ok.mp hrow
      obtain ⟨v,t,hp⟩ := (insertIfAbsent_some hi).1.columns
      rw [hp, ← Outcome.pure_ok.mp hrow]
    refine transition_isOk (by simp [hs,EventStatus.allowedTransitions]) none now ?_
    exact transition_isOk (by simp [Event.moved,EventStatus.allowedTransitions]) none now ⟨_,rfl⟩

theorem recordRejected_isOk {eventId sourceEventId reason : String} {source : Source} {now : Time} :
    (∃ r, recordRejected rt db eventId source sourceEventId reason now = .ok r) ↔
      (rejectedRow eventId source sourceEventId now).Insertable rt db := by
  unfold recordRejected
  rw [Outcome.bind_isOk, ← insertIfAbsent_isOk]
  refine exists_congr fun i => and_iff_left_of_imp fun hi => ?_
  cases i with
  | none => exact ⟨_,rfl⟩
  | some p =>
    have hs : p.2.status = .received := by
      obtain ⟨v,t,hp⟩ := (insertIfAbsent_some hi).1.columns
      rw [hp]
      rfl
    exact transition_isOk (by simp [hs,EventStatus.allowedTransitions]) _ now ⟨_,rfl⟩

end Insert

section Plan
variable {rt : Runtime} {db : Ledger} {source : Source} {correlationId : CorrelationId} {now : Time}

/-- The values an accepted event is stored with can be stored. -/
def AcceptanceFits (rt : Runtime) (db : Ledger) (event : CanonicalLeadEvent) (now : Time) : Prop :=
  ∃ row, validatedRow event now = .ok row ∧ row.Insertable rt db

/-- The id of a rejected request is text that fits its columns, and so is the
reason if the row is new. -/
def RejectionFits (rt : Runtime) (db : Ledger) (source : Source) (sourceEventId : PyText)
    (errors : List FieldError) (now : Time) : Prop :=
  ∃ id, sourceEventId.encode = .ok id ∧
    (rejectedRow (makeEventId source id) source id now).Insertable rt db ∧
    (db.getEvent (makeEventId source id) = none → varchar 512 (rejectReason errors) = true)

/-- A plan that raises nothing. -/
def IngestPlan.Storable (rt : Runtime) (db : Ledger) (source : Source) (now : Time) : IngestPlan → Prop
  | .raised _ => False
  | .accept event => AcceptanceFits rt db event now
  | .reject sourceEventId errors => RejectionFits rt db source sourceEventId errors now

theorem ingestAccepted_isOk {event : CanonicalLeadEvent} :
    (∃ r, ingestAccepted rt db correlationId now event = .ok r) ↔ AcceptanceFits rt db event now := by
  unfold ingestAccepted
  rw [Outcome.bind_isOk]
  constructor
  · rintro ⟨r,hr,_⟩
    exact recordValidated_isOk.mp ⟨r,hr⟩
  · intro h
    obtain ⟨⟨out,r⟩,hr⟩ := recordValidated_isOk.mpr h
    refine ⟨⟨out,r⟩,hr,?_⟩
    rcases recordValidated_ok hr with ⟨rfl,rfl,hk⟩ | ⟨_,_,_,_,_,rfl,_⟩
    · obtain ⟨e,he⟩ := Option.ne_none_iff_exists'.mp hk
      simp only [he]
      exact ⟨_,rfl⟩
    · exact ⟨_,rfl⟩

/-- An accepted event that raises nothing leaves its row in a ledger that fits. -/
theorem ingestAccepted_ok {event : CanonicalLeadEvent} {out : Ledger} {i : Ingested}
    (hfit : db.fits = true) (h : ingestAccepted rt db correlationId now event = .ok (out,i)) :
    out.fits = true ∧ i.response.statusCode ∈ [202,200,422] ∧
      ∃ e, out.getEvent i.response.eventId = some e := by
  obtain ⟨⟨db₁,r⟩,hr,h₁⟩ := Outcome.bind_ok.mp h
  rcases recordValidated_ok hr with ⟨rfl,rfl,hk⟩ | ⟨row,stored,hrow,hstored,hnew,rfl,rfl⟩
  · obtain ⟨e,he⟩ := Option.ne_none_iff_exists'.mp hk
    simp only [he, Outcome.pure_ok, Prod.mk.injEq] at h₁
    obtain ⟨rfl,rfl⟩ := h₁
    exact ⟨hfit,by simp,e,getEvent_self he⟩
  · obtain ⟨row',hrow',hins⟩ := recordValidated_isOk.mp ⟨_,hr⟩
    obtain rfl := Except.ok.inj (hrow.symm.trans hrow')
    simp only [Outcome.pure_ok, Prod.mk.injEq] at h₁
    obtain ⟨rfl,rfl⟩ := h₁
    have hf := hstored.fits hins.fits
    have hf₁ : (stored.moved .validated none).fits = true := Event.fits_moved _ hf rfl
    have hf₂ : (stored.moved .queued none).fits = true := Event.fits_moved _ hf rfl
    have hentered := Ledger.fits_enter hnew now hfit hf
    have hget := Ledger.enter_getEvent_self now hnew
    set db₁ := (db.enter stored hnew now).record stored (stored.moved .validated none) none now with hdb₁
    have hf₃ : db₁.fits = true := Ledger.fits_record _ now hentered hf₁ rfl
    have hget₁ : db₁.getEvent (stored.moved .validated none).eventId =
        some (stored.moved .validated none) := Ledger.record_getEvent_self hget rfl
    refine ⟨Ledger.fits_record _ now hf₃ hf₂ rfl,by simp,stored.moved .queued none,?_⟩
    exact Ledger.record_getEvent_self hget₁ rfl

theorem ingestRejected_isOk {sourceEventId : PyText} {errors : List FieldError} :
    (∃ r, ingestRejected rt db correlationId now source sourceEventId errors = .ok r) ↔
      ∃ id, sourceEventId.encode = .ok id ∧
        (rejectedRow (makeEventId source id) source id now).Insertable rt db := by
  unfold ingestRejected
  rw [Outcome.bind_isOk]
  refine exists_congr fun id => and_congr_right fun _ => ?_
  rw [Outcome.bind_isOk, ← recordRejected_isOk]
  refine exists_congr fun r => and_iff_left_of_imp fun _ => ?_
  obtain ⟨out,r⟩ := r
  cases r <;> exact ⟨_,rfl⟩

/-- A rejected request leaves a ledger that fits if its reason fits or is not stored. -/
theorem ingestRejected_ok {sourceEventId : PyText} {errors : List FieldError} {out : Ledger}
    {i : Ingested} (hfit : db.fits = true)
    (h : ingestRejected rt db correlationId now source sourceEventId errors = .ok (out,i)) :
    (out.fits = true ↔ ∀ id, sourceEventId.encode = .ok id →
      db.getEvent (makeEventId source id) = none → varchar 512 (rejectReason errors) = true) ∧
    i.response.statusCode ∈ [202,200,422] ∧ ∃ e, out.getEvent i.response.eventId = some e := by
  obtain ⟨id,hid,h₁⟩ := Outcome.bind_ok.mp h
  obtain ⟨⟨db₁,r⟩,hr,h₂⟩ := Outcome.bind_ok.mp h₁
  have hone : (∀ id', sourceEventId.encode = .ok id' → db.getEvent (makeEventId source id') = none →
      varchar 512 (rejectReason errors) = true) ↔
      (db.getEvent (makeEventId source id) = none → varchar 512 (rejectReason errors) = true) := by
    simp [hid]
  rw [hone]
  rcases recordRejected_ok hr with ⟨rfl,rfl,hk⟩ | ⟨stored,hstored,hnew,rfl,rfl⟩
  · simp only [Outcome.pure_ok, Prod.mk.injEq] at h₂
    obtain ⟨rfl,rfl⟩ := h₂
    refine ⟨⟨fun _ hn => absurd hn hk,fun _ => hfit⟩,by simp,?_⟩
    exact Option.ne_none_iff_exists'.mp hk
  · simp only [Outcome.pure_ok, Prod.mk.injEq] at h₂
    obtain ⟨rfl,rfl⟩ := h₂
    have hins := recordRejected_isOk.mp ⟨_,hr⟩
    have hf := hstored.fits hins.fits
    have hkey : stored.eventId = makeEventId source id := hstored.eventId
    have hget := Ledger.enter_getEvent_self now hnew
    have hentered := Ledger.fits_enter hnew now hfit hf
    set moved := stored.moved .rejected (some (rejectReason errors)) with hmoved
    set mid := (db.enter stored hnew now).record stored moved (some (rejectReason errors)) now with hmid
    have hrow : mid.getEvent moved.eventId = some moved := Ledger.record_getEvent_self hget rfl
    refine ⟨⟨fun hall _ => ?_,fun hv => ?_⟩,by simp,moved.labelled (some correlationId.value),?_⟩
    · have ht : ∀ t ∈ mid.transitions.rows, t.fits = true := (Ledger.fits_iff.mp hall).2.1
      have hr := Ledger.reason_fits ht
      rwa [nullable_some] at hr
    · have hreason : nullable (varchar 512) (some (rejectReason errors)) = true := by
        rw [nullable_some]
        exact hv (hkey ▸ hnew)
      have hf₁ : moved.fits = true := Event.fits_moved .rejected hf hreason
      have hf₂ : mid.fits = true := Ledger.fits_record stored now hentered hf₁ hreason
      exact Ledger.fits_putEvent hf₂ (Event.fits_labelled hf₁ correlationId)
    · have hput : (mid.putEvent (moved.labelled (some correlationId.value))).getEvent moved.eventId =
          some (moved.labelled (some correlationId.value)) := Ledger.getEvent_putEvent_self hrow
      have hkey' : moved.eventId = makeEventId source id := hkey
      rwa [hkey'] at hput

/-- The row as the first delivery of an event leaves it. -/
def IngestPlan.Enters (source : Source) (now : Time) (plan : IngestPlan) (e : Event) : Prop :=
  match plan with
  | .raised _ => False
  | .accept event => ∃ row stored, validatedRow event now = .ok row ∧ row.StoredAs stored ∧
      e = stored.moved .queued none
  | .reject sourceEventId errors => ∃ id stored, sourceEventId.encode = .ok id ∧
      (rejectedRow (makeEventId source id) source id now).StoredAs stored ∧ ∃ label,
        e = (stored.moved .rejected (some (rejectReason errors))).labelled label

/-- The transaction of a request that raised nothing: the key was taken and
nothing changed, or exactly the row of the plan is new. -/
theorem ingestBody_ok {plan : IngestPlan} {out : Ledger} {i : Ingested}
    (h : ingestBody rt db correlationId now source plan = .ok (out,i)) :
    plan.eventId source = some i.response.eventId ∧
    ((out = db ∧ i.message = none ∧ db.getEvent i.response.eventId ≠ none) ∨
      ∃ e, plan.Enters source now e ∧ e.eventId = i.response.eventId ∧
        db.getEvent e.eventId = none ∧
        (∀ k, out.getEvent k = if k = e.eventId then some e else db.getEvent k) ∧
        ∀ m ∈ i.message, m.eventId = e.eventId ∧ e.status = .queued) := by
  cases plan with
  | raised e => cases h
  | accept event =>
    obtain ⟨⟨db₁,r⟩,hr,h₁⟩ := Outcome.bind_ok.mp h
    rcases recordValidated_ok hr with ⟨rfl,rfl,hk⟩ | ⟨row,stored,hrow,hstored,hnew,rfl,rfl⟩
    · obtain ⟨e,he⟩ := Option.ne_none_iff_exists'.mp hk
      simp only [he, Outcome.pure_ok, Prod.mk.injEq] at h₁
      obtain ⟨rfl,rfl⟩ := h₁
      have hid := Ledger.getEvent_eventId he
      exact ⟨congrArg some hid.symm,Or.inl ⟨rfl,rfl,by simpa [hid] using hk⟩⟩
    · simp only [Outcome.pure_ok, Prod.mk.injEq] at h₁
      obtain ⟨rfl,rfl⟩ := h₁
      have hid : stored.eventId = event.eventId := by
        obtain ⟨_,_,hrow⟩ := Outcome.bind_ok.mp hrow
        obtain ⟨_,_,hrow⟩ := Outcome.bind_ok.mp hrow
        rw [hstored.eventId, ← Outcome.pure_ok.mp hrow]
      have hget := Ledger.enter_getEvent_self now hnew
      refine ⟨congrArg some hid.symm,Or.inr ⟨stored.moved .queued none,⟨row,stored,hrow,hstored,rfl⟩,
        rfl,hnew,fun k => ?_,fun m hm => ⟨?_,rfl⟩⟩⟩
      · have hget₁ : ((db.enter stored hnew now).record stored (stored.moved .validated none) none
            now).getEvent (stored.moved .validated none).eventId = some (stored.moved .validated none) :=
          Ledger.record_getEvent_self hget rfl
        have hkey : (stored.moved .queued none).eventId = (stored.moved .validated none).eventId := rfl
        have hkey' : (stored.moved .validated none).eventId = stored.eventId := rfl
        rw [Ledger.record_getEvent hget₁ hkey, Ledger.record_getEvent hget hkey', Ledger.enter_getEvent]
        by_cases hk : k = stored.eventId <;> simp [hk]
      · simp only [ingestMessage] at hm
        split at hm
        · cases hm
        · obtain rfl := Option.some.inj hm
          exact hid.symm
  | reject sourceEventId errors =>
    obtain ⟨id,hid,h₁⟩ := Outcome.bind_ok.mp h
    obtain ⟨⟨db₁,r⟩,hr,h₂⟩ := Outcome.bind_ok.mp h₁
    have hplan : (IngestPlan.reject sourceEventId errors).eventId source =
        some (makeEventId source id) := by
      cases sourceEventId with
      | text s =>
        cases hid
        rfl
      | surrogates points => cases hid
    rcases recordRejected_ok hr with ⟨rfl,rfl,hk⟩ | ⟨stored,hstored,hnew,rfl,rfl⟩
    · simp only [Outcome.pure_ok, Prod.mk.injEq] at h₂
      obtain ⟨rfl,rfl⟩ := h₂
      exact ⟨hplan,Or.inl ⟨rfl,rfl,hk⟩⟩
    · simp only [Outcome.pure_ok, Prod.mk.injEq] at h₂
      obtain ⟨rfl,rfl⟩ := h₂
      have hget := Ledger.enter_getEvent_self now hnew
      have hkey : stored.eventId = makeEventId source id := hstored.eventId
      set moved := stored.moved .rejected (some (rejectReason errors)) with hmoved
      have hget₁ : ((db.enter stored hnew now).record stored moved (some (rejectReason errors))
          now).getEvent moved.eventId = some moved := Ledger.record_getEvent_self hget rfl
      refine ⟨hplan,Or.inr ⟨moved.labelled (some correlationId.value),⟨id,stored,hid,hstored,_,rfl⟩,hkey,
        hnew,fun k => ?_,fun m hm => by cases hm⟩⟩
      have hlabel : (moved.labelled (some correlationId.value)).eventId = moved.eventId := rfl
      have hmove : moved.eventId = stored.eventId := rfl
      rw [Ledger.putEvent_getEvent hget₁ hlabel, Ledger.record_getEvent hget hmove, Ledger.enter_getEvent]
      by_cases hk : k = stored.eventId <;> simp [hk,hmoved]

/-- An ingest leaves the rows alone that are there. -/
theorem ingestBody_row {plan : IngestPlan} {out : Ledger} {i : Ingested}
    (h : ingestBody rt db correlationId now source plan = .ok (out,i)) {k : String} {e : Event}
    (he : db.getEvent k = some e) : out.getEvent k = some e := by
  rcases (ingestBody_ok h).2 with ⟨rfl,_⟩ | ⟨x,_,_,hnew,hget,_⟩
  · exact he
  · rw [hget, if_neg]
    · exact he
    · rintro rfl
      rw [hnew] at he
      cases he

/-- The commit of a request: its body on the ledger as it is, if the result fits. -/
theorem commit_ingest {plan : IngestPlan} {db' : Ledger} {reply : Reply} :
    (Transaction.ingest source plan correlationId now).commit rt db = .ok (db',reply) ↔
      (∃ i, ingestBody rt db correlationId now source plan = .ok (db',i) ∧ reply = .ingested i) ∧
        db'.fits = true := by
  constructor
  · intro h
    have hfresh : (Transaction.ingest source plan correlationId now).session.Fresh db :=
      Session.fresh_empty db
    obtain ⟨hb,hf⟩ := Transaction.commit_fresh hfresh h
    obtain ⟨⟨out,i⟩,hi,hb⟩ := Outcome.bind_ok.mp hb
    cases hb
    exact ⟨⟨i,hi,rfl⟩,hf⟩
  · rintro ⟨⟨i,hi,rfl⟩,hf⟩
    refine Transaction.commit_ok.mpr ⟨db',?_,(Session.fresh_empty db).flush_eq,hf⟩
    have hview : (Transaction.ingest source plan correlationId now).session.view db = db :=
      (Session.fresh_empty db).view_eq
    rw [hview]
    exact Outcome.bind_ok.mpr ⟨(db',i),hi,rfl⟩

/-- A transaction that went through stored a plan that can be stored. -/
theorem storable_of_commit (hfit : db.fits = true) {plan : IngestPlan} {db' : Ledger} {reply : Reply}
    (h : (Transaction.ingest source plan correlationId now).commit rt db = .ok (db',reply)) :
    plan.Storable rt db source now := by
  obtain ⟨⟨i,hi,_⟩,hf⟩ := commit_ingest.mp h
  cases plan with
  | raised e => cases hi
  | accept event => exact ingestAccepted_isOk.mp ⟨_,hi⟩
  | reject sourceEventId errors =>
    obtain ⟨id,hid,hins⟩ := ingestRejected_isOk.mp ⟨_,hi⟩
    exact ⟨id,hid,hins,(ingestRejected_ok hfit hi).1.mp hf id hid⟩

/-- A planned request is answered, with its row in the ledger, exactly when its
plan raises nothing. -/
theorem plan_answered (correlationId : CorrelationId) (hfit : db.fits = true) (plan : IngestPlan) :
    Answered ((Transaction.ingest source plan correlationId now).commit rt db) ↔
      plan.Storable rt db source now := by
  constructor
  · rintro ⟨db',i,h,_⟩
    exact storable_of_commit hfit h
  intro h
  cases plan with
  | raised e => exact h.elim
  | accept event =>
    obtain ⟨⟨db',i⟩,hi⟩ : ∃ r, ingestAccepted rt db correlationId now event = .ok r :=
      ingestAccepted_isOk.mpr h
    obtain ⟨hf,hcode,hrow⟩ := ingestAccepted_ok hfit hi
    exact ⟨db',i,commit_ingest.mpr ⟨⟨i,hi,rfl⟩,hf⟩,hcode,hrow⟩
  | reject sourceEventId errors =>
    obtain ⟨id,hid,hins,hreason⟩ := h
    obtain ⟨⟨db',i⟩,hi⟩ : ∃ r, ingestRejected rt db correlationId now source sourceEventId errors =
      .ok r := ingestRejected_isOk.mpr ⟨id,hid,hins⟩
    obtain ⟨hf,hcode,hrow⟩ := ingestRejected_ok hfit hi
    refine ⟨db',i,commit_ingest.mpr ⟨⟨i,hi,rfl⟩,hf.mpr fun id' hid' => ?_⟩,hcode,hrow⟩
    obtain rfl := Except.ok.inj (hid.symm.trans hid')
    exact hreason

end Plan

section Request
variable (rt : Runtime) (db : Ledger) (source : Source) (body : ByteArray) (now : Time)
  (correlationId : CorrelationId)

variable {rt source}

variable (rt source)

end Request

end ConversionGateway
