import Mathlib.Logic.Relation
import ConversionGateway.Lifecycle.Edits

/-! # What a transaction does to the event rows

For each kind of transaction: the rows it may change, and how one row may be
changed. This is all the concurrent system needs to know of an operation.
-/
namespace ConversionGateway
open Relational Relation EventStatus

/-- Retries between two attempts: UPLOADING again, later and with more attempts. -/
structure Event.Retried (stamps : List Time) (e x : Event) : Prop where
  before : e.status = .uploading
  after : x.status = .uploading
  identity : x.identity = e.identity
  hashedIdentifiers : x.hashedIdentifiers = e.hashedIdentifiers
  attemptCount : e.attemptCount < x.attemptCount
  lastAttemptAt : ∃ t ∈ stamps, x.lastAttemptAt = some t

/-- The outcome of an upload written to a row. -/
structure Event.Settled (e x : Event) : Prop where
  allowed : x.status ∈ e.status.allowedTransitions
  outcome : x.status ∈ [uploaded,failedRetryable,deadLettered]
  identity : x.identity = e.identity
  hashedIdentifiers : x.hashedIdentifiers = e.hashedIdentifiers
  attemptCount : x.attemptCount = e.attemptCount
  lastAttemptAt : x.lastAttemptAt = e.lastAttemptAt

/-- Dead-lettered by the claim that took the row over the attempt ceiling. -/
def Event.CutOff (e : Event) (maxAttempts : ℕ) (x : Event) : Prop :=
  maxAttempts < e.attemptCount ∧ ∃ reason, x = e.moved .deadLettered (some reason)

/-- A claimed row: kept, or cut off. -/
def Event.TakenBy (e : Event) (maxAttempts : ℕ) (now : Time) (x : Event) : Prop :=
  ∃ y reason, e.ClaimedAs now y reason ∧ ReflGen (fun a b => a.CutOff maxAttempts b) y x

theorem Event.Retried.trans {stamps : List Time} {a b c : Event} (h₁ : a.Retried stamps b)
    (h₂ : b.Retried stamps c) : a.Retried stamps c where
  before := h₁.before
  after := h₂.after
  identity := h₂.identity.trans h₁.identity
  hashedIdentifiers := h₂.hashedIdentifiers.trans h₁.hashedIdentifiers
  attemptCount := h₁.attemptCount.trans h₂.attemptCount
  lastAttemptAt := h₂.lastAttemptAt

/-- A row settled twice went through FAILED_RETRYABLE. -/
theorem Event.Settled.trans {a b c : Event} (h₁ : a.Settled b) (h₂ : b.Settled c) : a.Settled c where
  allowed := by
    have ha := h₁.allowed
    have hb := h₁.outcome
    have hc := h₂.allowed
    have ho := h₂.outcome
    simp only [List.mem_cons, List.not_mem_nil, or_false] at hb ho
    rcases hb with hb | hb | hb <;> rcases ho with ho | ho | ho <;> rw [hb] at ha hc <;>
      rw [ho] at hc ⊢ <;> cases hs : a.status <;> simp_all [allowedTransitions]
  outcome := h₂.outcome
  identity := h₂.identity.trans h₁.identity
  hashedIdentifiers := h₂.hashedIdentifiers.trans h₁.hashedIdentifiers
  attemptCount := h₂.attemptCount.trans h₁.attemptCount
  lastAttemptAt := h₂.lastAttemptAt.trans h₁.lastAttemptAt

/-- Two possible changes in a row, of a kind that composes. -/
theorem reflGen_trans {R : Event → Event → Prop} (htrans : ∀ {a b c}, R a b → R b c → R a c)
    {a b c : Event} (h₁ : ReflGen R a b) (h₂ : ReflGen R b c) : ReflGen R a c := by
  cases h₁ with
  | refl => exact h₂
  | single h₁ =>
    cases h₂ with
    | refl => exact .single h₁
    | single h₂ => exact .single (htrans h₁ h₂)

namespace Transaction

/-- The ids of the rows a transaction may change. -/
def keys : Transaction → List String
  | claim _ selected _ => selected
  | tx => tx.session.events.map Event.eventId

/-- How a transaction may change a row. -/
def Change (rt : Runtime) : Transaction → Event → Event → Prop
  | ingest .. => fun _ _ => False
  | process .. => fun e x => e.status = .queued ∧ ∃ reason, e.Processed rt x reason
  | claim st _ now => fun e x => e.TakenBy st.maxRowAttempts now x
  | retry _ _ _ stamps => fun e x => e.Retried stamps x
  | apply .. => fun e x => e.Settled x
  | bury .. => fun e x => e.Settled x ∧ x.status = .deadLettered
  | replay letter _ _ => fun e x => e.status = .deadLettered ∧ letter.replayedAt = none ∧
      x = e.requeued letter

end Transaction

section Rows
variable {rt : Runtime} {db out : Ledger} {e e' : Event}

/-- One written row is a rewrite of that row. -/
theorem record_rewrites {R : Event → Event → Prop} (reason : Option String) (now : Time)
    (he : db.getEvent e.eventId = some e) (hk : e'.eventId = e.eventId) (hR : R e e') :
    Table.Rewrites (· = e.eventId) R db.events (db.record e e' reason now).events := by
  have hold : db.events.get e'.eventId = some e := by
    rw [hk]
    exact he
  exact hk ▸ Table.Rewrites.put hold hR

theorem deadLetter_rewrites {failureClass : FailureClass} {reason : String}
    {code message : Option String} {payload : Json} {now : Time} (he : db.getEvent e.eventId = some e)
    (h : deadLetter db e failureClass reason code message payload now = .ok out) :
    .deadLettered ∈ e.status.allowedTransitions ∧
      Table.Rewrites (· = e.eventId) (fun a b => a = e ∧ b = e.moved .deadLettered (some reason))
        db.events out.events := by
  obtain ⟨ha,letter,hid,_,_,rfl⟩ := deadLetter_ok h
  exact ⟨ha,record_rewrites (some reason) now he rfl ⟨rfl,rfl⟩⟩

/-- A dead-lettered row is a settled one. -/
theorem Event.settled_of_deadLettered {reason : Option String}
    (ha : .deadLettered ∈ e.status.allowedTransitions) : e.Settled (e.moved .deadLettered reason) :=
  ⟨ha,by simp [Event.moved],rfl,rfl,rfl,rfl⟩

theorem claimRow_rewrites {now : Time} {id : String} (h : claimRow now db id = .ok out) :
    Table.Rewrites (· = id) (fun e x => ∃ reason, e.ClaimedAs now x reason) db.events out.events := by
  rcases claimRow_ok h with ⟨hn,rfl⟩ | ⟨e,he,e',reason,hc,rfl⟩
  · exact .missing hn
  · obtain rfl := Ledger.getEvent_eventId he
    exact record_rewrites _ now he (by cases hc <;> rfl) ⟨reason,hc⟩

theorem claimItem_rewrites {st : Settings} {now : Time} {id : String} {items items' : List Claimed}
    (h : claimItem rt st now (db,items) id = .ok (out,items')) :
    Table.Rewrites (· = id) (ReflGen fun a b => a.CutOff st.maxRowAttempts b) db.events out.events := by
  rcases claimItem_ok h with ⟨hn,rfl,_⟩ | ⟨e,_,he,_,⟨hlt,_,hd⟩ | ⟨_,rfl,_⟩⟩
  · exact .missing hn
  · obtain rfl := Ledger.getEvent_eventId he
    refine (deadLetter_rewrites he hd).2.mono ?_
    rintro a b ⟨rfl,rfl⟩
    exact .single ⟨hlt,_,rfl⟩
  · exact .refl (fun _ => .refl) _

/-- A loop over distinct ids that rewrites one row at a time. -/
theorem loop_rewrites {σ : Type} {f : σ → String → Except PyError σ} {R : Event → Event → Prop}
    (rows : σ → Table Event Event.eventId)
    (hstep : ∀ s t id, f s id = .ok t → Table.Rewrites (· = id) R (rows s) (rows t))
    {ids : List String} (hids : ids.Nodup) {s t : σ} (h : Outcome.loop f s ids = .ok t) :
    Table.Rewrites (· ∈ ids) R (rows s) (rows t) := by
  induction ids generalizing s with
  | nil =>
    cases h
    exact ⟨fun _ _ => rfl,fun _ h => h,by simp⟩
  | cons id rest ih =>
    obtain ⟨m,hm,hrest⟩ := Outcome.loop_cons_ok.mp h
    obtain ⟨hid,hrest'⟩ := List.nodup_cons.mp hids
    exact .seq hid (hstep s m id hm) (ih hrest' hrest)

theorem claim_rewrites {st : Settings} {selected : List String} {now : Time} {items : List Claimed}
    (hs : selected.Nodup) (h : claim rt st db selected now = .ok (out,items)) :
    Table.Rewrites (· ∈ selected) (fun e x => e.TakenBy st.maxRowAttempts now x)
      db.events out.events := by
  obtain ⟨db₁,h₁,h₂⟩ := Outcome.bind_ok.mp h
  have hrows := loop_rewrites Ledger.events (fun _ _ _ hr => claimRow_rewrites hr) hs h₁
  have hitems := loop_rewrites (fun a : Ledger × List Claimed => a.1.events)
    (fun _ _ _ hi => claimItem_rewrites hi) hs h₂
  exact hrows.trans (fun ⟨reason,hc⟩ hx => ⟨_,reason,hc,hx⟩) hitems

/-- A claimed item: its row is UPLOADING with the item's number of attempts, and its
conversion carries its id. -/
structure Claimed.Backed (c : Claimed) (db : Ledger) : Prop where
  row : ∃ e, db.getEvent c.eventId = some e ∧ e.status = .uploading
  attempts : ∃ e, db.getEvent c.eventId = some e ∧ e.attemptCount = c.attemptCount
  orderId : c.conversion.orderId = some c.eventId

/-- The second loop of `claim`: what it hands out is still UPLOADING at its end. -/
theorem claimItems_backed {st : Settings} {now : Time} {ids : List String} {items items' : List Claimed}
    (hids : ids.Nodup) (hrows : ∀ id ∈ ids, ∀ e, db.getEvent id = some e → e.status = .uploading)
    (h : Outcome.loop (claimItem rt st now) (db,items) ids = .ok (out,items')) :
    ∀ c ∈ items', c ∈ items ∨ (c.eventId ∈ ids ∧ c.Backed out) := by
  induction ids generalizing db items with
  | nil =>
    cases h
    exact fun c hc => Or.inl hc
  | cons id rest ih =>
    obtain ⟨⟨mid,acc⟩,hm,hrest⟩ := Outcome.loop_cons_ok.mp h
    obtain ⟨hid,hnd⟩ := List.nodup_cons.mp hids
    have hstep := claimItem_rewrites hm
    have htail := loop_rewrites (fun a : Ledger × List Claimed => a.1.events)
      (fun _ _ _ hi => claimItem_rewrites hi) hnd hrest
    have hmid : ∀ j ∈ rest, ∀ e, mid.getEvent j = some e → e.status = .uploading := by
      intro j hj e he
      have hne : j ≠ id := fun heq => hid (heq ▸ hj)
      exact hrows j (List.mem_cons_of_mem _ hj) e ((hstep.frame j hne).symm.trans he)
    intro c hc
    rcases ih hnd hmid hrest c hc with hacc | ⟨hmem,hb⟩
    · rcases claimItem_ok hm with ⟨_,rfl,rfl⟩ | ⟨e,conv,he,hconv,⟨_,rfl,_⟩ | ⟨_,rfl,rfl⟩⟩
      · exact Or.inl hacc
      · exact Or.inl hacc
      · rcases List.mem_append.mp hacc with hacc | hacc
        · exact Or.inl hacc
        · obtain rfl := List.mem_singleton.mp hacc
          have hk := Ledger.getEvent_eventId he
          have hout : out.getEvent e.eventId = some e := by
            rw [hk]
            exact (htail.frame id hid).trans he
          refine Or.inr ⟨by simp [hk],⟨e,hout,hrows id List.mem_cons_self e he⟩,⟨e,hout,rfl⟩,?_⟩
          exact buildConversion_orderId hconv
    · exact Or.inr ⟨List.mem_cons_of_mem _ hmem,hb⟩

theorem claim_backed {st : Settings} {selected : List String} {now : Time} {items : List Claimed}
    (hs : selected.Nodup) (h : claim rt st db selected now = .ok (out,items)) :
    ∀ c ∈ items, c.eventId ∈ selected ∧ c.Backed out := by
  obtain ⟨mid,h₁,h₂⟩ := Outcome.bind_ok.mp h
  have hrows := loop_rewrites Ledger.events (fun _ _ _ hr => claimRow_rewrites hr) hs h₁
  have hmid : ∀ id ∈ selected, ∀ e, mid.getEvent id = some e → e.status = .uploading := by
    intro id hid e he
    cases hdb : db.getEvent id with
    | none => exact absurd (he.symm.trans (hrows.absent id hdb)) (by simp)
    | some e₀ =>
      obtain ⟨e',he',reason,hc⟩ := hrows.touch id e₀ hid hdb
      have heq : e = e' := Option.some.inj (he.symm.trans he')
      subst heq
      cases hc with
      | attempt ha => rfl
      | reclaim hu => exact hu
  intro c hc
  rcases claimItems_backed hs hmid h₂ c hc with hn | hb
  · cases hn
  · exact hb

theorem retryRow_rewrites {reason : String} {item : String × Time} {stamps : List Time}
    (hstamp : item.2 ∈ stamps) (h : retryRow reason db item = .ok out) :
    Table.Rewrites (· = item.1) (fun a b => a.Retried stamps b) db.events out.events := by
  rcases retryRow_ok h with ⟨hn,rfl⟩ | ⟨e,he,hu,failed,rfl,rfl⟩
  · exact .missing hn
  · have hk := Ledger.getEvent_eventId he
    have he := getEvent_self he
    set failed := e.moved .failedRetryable (some ("transient:" ++ reason)) with hf
    set again := (failed.moved .uploading none).attempted item.2 with ha
    set mid := db.record e failed failed.statusReason item.2 with hmid
    have hm : mid.getEvent failed.eventId = some failed := Ledger.record_getEvent_self he rfl
    have h₁ : Table.Rewrites (· = e.eventId) (fun a b => a = e ∧ b = failed) db.events mid.events :=
      record_rewrites _ _ he rfl ⟨rfl,rfl⟩
    have h₂ : Table.Rewrites (· = failed.eventId) (fun a b => a = failed ∧ b = again) mid.events
        (mid.record failed again none item.2).events := record_rewrites _ _ hm rfl ⟨rfl,rfl⟩
    rw [← hk]
    refine h₁.trans ?_ h₂
    rintro a b c ⟨rfl,rfl⟩ ⟨-,rfl⟩
    exact ⟨hu,rfl,rfl,rfl,Nat.lt_succ_self _,item.2,hstamp,rfl⟩

theorem onRetry_rewrites {ids : List String} {reason : String} {stamps : List Time}
    (h : onRetry db ids reason stamps = .ok out) :
    Table.Rewrites (· ∈ ids) (ReflGen fun a b => a.Retried stamps b) db.events out.events := by
  refine Outcome.loop_rel (fun a b : Ledger => Table.Rewrites (· ∈ ids)
    (ReflGen fun a b => a.Retried stamps b) a.events b.events) (fun _ => .refl (fun _ => .refl) _)
    (.trans (reflGen_trans .trans)) ?_ h
  intro item hitem a b hs
  obtain ⟨hid,hstamp⟩ := List.of_mem_zip hitem
  exact ((retryRow_rewrites hstamp hs).mono fun _ _ hr => .single hr).widen (fun _ => .refl) (fun k hk => hk ▸ hid)

/-- Each row of a batch is retried, be it more than once. -/
theorem onRetry_retried {ids : List String} {reason : String} {stamps : List Time} {id : String}
    (h : onRetry db ids reason stamps = .ok out) (hlen : stamps.length = ids.length) (hid : id ∈ ids)
    (he : db.getEvent id = some e) : ∃ x, out.getEvent id = some x ∧ e.Retried stamps x := by
  have hrows : ∀ (items : List (String × Time)) (db : Ledger) (e : Event), (∀ i ∈ items, i.2 ∈ stamps) →
      Outcome.loop (retryRow reason) db items = .ok out → db.getEvent id = some e →
      ∃ x, out.getEvent id = some x ∧ ReflGen (fun a b => a.Retried stamps b) e x ∧
        (id ∈ items.map Prod.fst → e.Retried stamps x) := by
    intro items
    induction items with
    | nil =>
      intro db e _ h he
      cases h
      exact ⟨e,he,.refl,by simp⟩
    | cons item rest ih =>
      intro db e hstamps h he
      obtain ⟨hstamp,hstamps⟩ := List.forall_mem_cons.mp hstamps
      obtain ⟨mid,hrow,hloop⟩ := Outcome.loop_cons_ok.mp h
      have hw := retryRow_rewrites hstamp hrow
      by_cases hitem : id = item.1
      · obtain ⟨a,ha,hretried⟩ := hw.touch id e hitem he
        obtain ⟨x,hx,hrest,_⟩ := ih mid a hstamps hloop ha
        have hall : e.Retried stamps x := by
          cases hrest with
          | refl => exact hretried
          | single hrest => exact hretried.trans hrest
        exact ⟨x,hx,.single hall,fun _ => hall⟩
      · obtain ⟨x,hx,hrest,hall⟩ := ih mid e hstamps hloop ((hw.frame id hitem).trans he)
        refine ⟨x,hx,hrest,fun hid => hall ?_⟩
        exact (List.mem_cons.mp hid).resolve_left hitem
  obtain ⟨x,hx,_,hretried⟩ := hrows (ids.zip stamps) db e (fun i hi => (List.of_mem_zip hi).2) h he
  refine ⟨x,hx,hretried ?_⟩
  rwa [List.map_fst_zip (Nat.le_of_eq hlen.symm)]

theorem applyRow_rewrites {loaded : List String} {now : Time} {item : Claimed × RowResult}
    (h : applyRow loaded now db item = .ok out) :
    Table.Rewrites (· ∈ loaded) (ReflGen Event.Settled) db.events out.events := by
  obtain ⟨hl,e,he,hcases⟩ := applyRow_ok h
  obtain hk := Ledger.getEvent_eventId he
  have hone : Table.Rewrites (· = e.eventId) (ReflGen Event.Settled) db.events out.events := by
    rcases hcases with ⟨dest,reason,hd,ha,rfl⟩ | hd
    · refine record_rewrites _ now (getEvent_self he) rfl (.single ⟨ha,?_,rfl,rfl,rfl,rfl⟩)
      simp only [List.mem_cons, List.not_mem_nil, or_false] at hd ⊢
      rcases hd with rfl | rfl <;> simp [Event.moved]
    · obtain ⟨ha,hw⟩ := deadLetter_rewrites (getEvent_self he) hd
      refine hw.mono ?_
      rintro a b ⟨rfl,rfl⟩
      exact .single (Event.settled_of_deadLettered ha)
  exact hone.widen (fun _ => .refl) (fun k hk' => by rw [hk', hk]; exact hl)

theorem applyResult_rewrites {loaded : List String} {batch : List Claimed} {rows : List RowResult}
    {now : Time} (h : applyResult db loaded batch rows now = .ok out) :
    Table.Rewrites (· ∈ loaded) (ReflGen Event.Settled) db.events out.events :=
  Outcome.loop_rel (fun a b : Ledger => Table.Rewrites (· ∈ loaded) (ReflGen Event.Settled)
    a.events b.events) (fun _ => .refl (fun _ => .refl) _) (.trans (reflGen_trans .trans))
    (fun _ _ _ _ hs => applyRow_rewrites hs) (applyResult_ok h).1

theorem deadLetterAll_rewrites {loaded : List String} {batch : List Claimed} {failure : BatchFailure}
    {now : Time} (h : deadLetterAll db loaded batch failure now = .ok out) :
    Table.Rewrites (· ∈ loaded) (ReflGen fun e x => e.Settled x ∧ x.status = .deadLettered)
      db.events out.events := by
  refine Outcome.loop_rel (fun a b : Ledger => Table.Rewrites (· ∈ loaded)
    (ReflGen fun e x => e.Settled x ∧ x.status = .deadLettered) a.events b.events)
    (fun _ => .refl (fun _ => .refl) _)
    (.trans (reflGen_trans fun h₁ h₂ => ⟨h₁.1.trans h₂.1,h₂.2⟩)) ?_ h
  intro id hid a b hs
  rcases deadLetterOne_ok hs with ⟨_,rfl⟩ | ⟨e,he,hd⟩
  · exact .refl (fun _ => .refl) _
  · obtain rfl := Ledger.getEvent_eventId he
    obtain ⟨ha,hw⟩ := deadLetter_rewrites he hd
    refine (hw.mono ?_).widen (fun _ => .refl) (fun k hk => hk ▸ hid)
    rintro a b ⟨rfl,rfl⟩
    exact .single ⟨Event.settled_of_deadLettered ha,rfl⟩

end Rows
end ConversionGateway
