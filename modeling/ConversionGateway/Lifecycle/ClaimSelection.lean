import ConversionGateway.Concurrency.Effects
import ConversionGateway.Lifecycle.IngestOutcome
import ConversionGateway.Lifecycle.SerialRuns

/-! # Which rows a claim takes

A row that is UPLOADING or FAILED_RETRYABLE has the time of its last attempt, so
the comparison in the claim's WHERE clause is never one with NULL and the row
becomes eligible again. A claim changes the rows its SELECT returned, and those only.
-/
namespace ConversionGateway
open Relational EventStatus

/-- An attempt that is under way or has failed left its time on the row. -/
def Event.Stamped (e : Event) : Prop :=
  e.status ∈ [uploading,failedRetryable] → e.lastAttemptAt.isSome

theorem Event.Created.stamped {e : Event} (h : e.Created) : e.Stamped := by
  intro hs
  simp [h.status] at hs

theorem RowEdit.stamped {rt : Runtime} {e x : Event} (h : RowEdit rt e x) (he : e.Stamped) :
    x.Stamped := by
  cases h with
  | label c => exact he
  | @move dest hm reason =>
    intro hs
    have hplain := hm.plain
    have hdest : dest = failedRetryable := by
      simp only [Event.moved, List.mem_cons, List.not_mem_nil, or_false] at hs hplain
      rcases hs with rfl | rfl
      · simp at hplain
      · rfl
    have hu : e.status = uploading := by
      have ha := hm.allowed
      rw [hdest] at ha
      cases hst : e.status <;> simp_all [allowedTransitions]
    exact he (by simp [hu])
  | process hq hg hm =>
    intro hs
    simp [Event.processedWith,Event.moved] at hs
  | attempt ha now => exact fun _ => rfl
  | reclaim hu now => exact fun _ => rfl
  | bury ha reason =>
    intro hs
    simp [Event.moved] at hs
  | revive hd letter =>
    intro hs
    simp [Event.requeued,Event.moved] at hs

theorem serialRun_stamped {rt : Runtime} {actions : List SerialAction} {db : Ledger}
    (h : serialRun rt Ledger.empty actions = some db) : ∀ k e, db.getEvent k = some e → e.Stamped :=
  serialRun_inv (fun db => ∀ k e, db.getEvent k = some e → e.Stamped) (fun _ _ h => by cases h)
    (fun _ _ hP he => he.forall_rows (fun _ hc => hc.stamped) (fun _ _ hr hs => hr.stamped hs) hP) h

section Eligible
variable {now retryAfter staleAfter : Time} {e : Event}

theorem eligible_of_processed (h : e.status = processed) : eligible now retryAfter staleAfter e = true := by
  simp [eligible,h]

/-- After both waiting times every attempt may be repeated. -/
theorem eligible_of_waited {t : Time} (hs : e.status ∈ [uploading,failedRetryable])
    (ht : e.lastAttemptAt = some t) (hnow : t + max retryAfter staleAfter ≤ now) :
    eligible now retryAfter staleAfter e = true := by
  have h₁ : t ≤ now - retryAfter :=
    le_sub_iff_add_le.mpr ((Int.add_le_add_left (le_max_left retryAfter staleAfter) t).trans hnow)
  have h₂ : t ≤ now - staleAfter :=
    le_sub_iff_add_le.mpr ((Int.add_le_add_left (le_max_right retryAfter staleAfter) t).trans hnow)
  simp only [List.mem_cons, List.not_mem_nil, or_false] at hs
  rcases hs with hs | hs <;> simp [eligible,hs,ht,h₁,h₂]

/-- Every eligible row may become UPLOADING, or is. -/
theorem eligible_status (h : eligible now retryAfter staleAfter e = true) :
    e.status = uploading ∨ uploading ∈ e.status.allowedTransitions := by
  simp only [eligible, Bool.or_eq_true, Bool.and_eq_true, decide_eq_true_eq] at h
  rcases h with (h | ⟨h,_⟩) | ⟨h,_⟩
  · exact Or.inr (by simp [h,allowedTransitions])
  · exact Or.inr (by simp [h,allowedTransitions])
  · exact Or.inl h

end Eligible

/-! ## The SELECT -/

section Select
variable (db : Ledger) (now : Time) (limit : ℕ) (retryAfter staleAfter : Time)

def eligibleEvents : List Event := db.events.rows.filter fun e => eligible now retryAfter staleAfter e

/-- `SELECT .. WHERE .. ORDER BY received_at LIMIT limit`, with nothing locked by
others: the ids may come in any order that sorts the eligible rows. -/
def Selects (ids : List String) : Prop :=
  ∃ order : List Event, order.Perm (eligibleEvents db now retryAfter staleAfter) ∧
    order.Pairwise (fun a b => a.receivedAt ≤ b.receivedAt) ∧ ids = (order.take limit).map Event.eventId

variable {db now limit retryAfter staleAfter} {ids : List String}

/-- The model's own query is such a SELECT. -/
theorem claimQuery_selects :
    Selects db now limit retryAfter staleAfter (claimQuery db now limit retryAfter staleAfter []) := by
  refine ⟨byReceivedAt (eligibleEvents db now retryAfter staleAfter),List.perm_insertionSort _ _,?_,?_⟩
  · have : Std.Total fun a b : Event => a.receivedAt ≤ b.receivedAt := ⟨fun a b => le_total _ _⟩
    have : IsTrans Event fun a b => a.receivedAt ≤ b.receivedAt := ⟨fun _ _ _ => le_trans⟩
    exact List.pairwise_insertionSort _ _
  · simp [claimQuery,eligibleEvents]

theorem Selects.length (h : Selects db now limit retryAfter staleAfter ids) :
    ids.length = min limit (eligibleEvents db now retryAfter staleAfter).length := by
  obtain ⟨order,hperm,_,rfl⟩ := h
  rw [List.length_map, List.length_take, hperm.length_eq]

theorem Selects.nodup (h : Selects db now limit retryAfter staleAfter ids) : ids.Nodup := by
  obtain ⟨order,hperm,_,rfl⟩ := h
  have hall : (order.map Event.eventId).Nodup := by
    refine (hperm.map Event.eventId).nodup_iff.mpr ?_
    exact db.events.unique.sublist (List.filter_sublist.map _)
  exact hall.sublist ((List.take_sublist _ _).map _)

/-- A selected id is that of an eligible row. -/
theorem Selects.row (h : Selects db now limit retryAfter staleAfter ids) {id : String} (hid : id ∈ ids) :
    ∃ e, db.getEvent id = some e ∧ eligible now retryAfter staleAfter e = true := by
  obtain ⟨order,hperm,_,rfl⟩ := h
  obtain ⟨e,he,rfl⟩ := List.mem_map.mp hid
  have hm : e ∈ eligibleEvents db now retryAfter staleAfter := hperm.mem_iff.mp (List.mem_of_mem_take he)
  obtain ⟨hrow,hel⟩ := List.mem_filter.mp hm
  exact ⟨e,Table.get_of_mem hrow,hel⟩

/-- No eligible row that was left out was received before one that was selected. -/
theorem Selects.first (h : Selects db now limit retryAfter staleAfter ids) {a b : Event}
    (ha : a ∈ eligibleEvents db now retryAfter staleAfter) (hout : a.eventId ∉ ids)
    (hb : b ∈ db.events.rows) (hin : b.eventId ∈ ids) : b.receivedAt ≤ a.receivedAt := by
  obtain ⟨order,hperm,hsorted,rfl⟩ := h
  have ha : a ∈ order.drop limit := by
    have hm := hperm.mem_iff.mpr ha
    rw [← List.take_append_drop limit order, List.mem_append] at hm
    exact hm.resolve_left fun hm => hout (List.mem_map_of_mem hm)
  obtain ⟨c,hc,hcb⟩ := List.mem_map.mp hin
  have hrow : c ∈ db.events.rows :=
    (List.mem_filter.mp (hperm.mem_iff.mp (List.mem_of_mem_take hc))).1
  obtain rfl := List.inj_on_of_nodup_map db.events.unique hrow hb hcb
  rw [← List.take_append_drop limit order, List.pairwise_append] at hsorted
  exact hsorted.2.2 c hc a ha

end Select

/-! ## The loop -/

section Loop
variable {db out : Ledger} {now : Time} {ids : List String}

theorem claimRow_isOk {id : String} (h : ∀ e, db.getEvent id = some e →
    e.status = uploading ∨ uploading ∈ e.status.allowedTransitions) : ∃ out, claimRow now db id = .ok out := by
  unfold claimRow
  cases hg : db.getEvent id with
  | none => exact ⟨db,rfl⟩
  | some e =>
    dsimp only
    rcases h e hg with hu | ha
    · simp [hu,bind,Except.bind,pure,Except.pure]
    · by_cases hu : e.status = uploading
      · simp [hu,bind,Except.bind,pure,Except.pure]
      · rw [if_pos hu]
        exact transition_isOk ha none now ⟨_,rfl⟩

/-- Other events keep their trails. -/
theorem claimRow_frame {id k : String} (h : claimRow now db id = .ok out) (hk : k ≠ id) :
    out.listTransitions k = db.listTransitions k := by
  rcases claimRow_ok h with ⟨_,rfl⟩ | ⟨e,he,e',reason,_,rfl⟩
  · rfl
  · rw [Ledger.record_listTransitions, Ledger.getEvent_eventId he, if_neg (Ne.symm hk), List.append_nil]

theorem claimForUpload_isOk (hids : ids.Nodup) (h : ∀ id ∈ ids, ∀ e, db.getEvent id = some e →
    e.status = uploading ∨ uploading ∈ e.status.allowedTransitions) :
    ∃ out, claimForUpload db ids now = .ok out := by
  induction ids generalizing db with
  | nil => exact ⟨db,rfl⟩
  | cons id rest ih =>
    obtain ⟨hid,hrest⟩ := List.nodup_cons.mp hids
    obtain ⟨mid,hmid⟩ := claimRow_isOk (h id List.mem_cons_self)
    have hframe := (claimRow_rewrites hmid).frame
    obtain ⟨out,hout⟩ := ih hrest fun j hj e he => by
      exact h j (List.mem_cons_of_mem _ hj) e ((hframe j fun heq => hid (heq ▸ hj)).symm.trans he)
    exact ⟨out,Outcome.loop_cons_ok.mpr ⟨mid,hmid,hout⟩⟩

theorem claimForUpload_frame (h : claimForUpload db ids now = .ok out) {k : String} (hk : k ∉ ids) :
    out.listTransitions k = db.listTransitions k :=
  Outcome.loop_rel (fun a b : Ledger => b.listTransitions k = a.listTransitions k) (fun _ => rfl)
    (fun h₁ h₂ => h₂.trans h₁) (fun _ hid _ _ hs => claimRow_frame hs fun heq => hk (heq ▸ hid)) h

theorem Event.ClaimedAs.columns {e x : Event} {reason : Option String} (h : e.ClaimedAs now x reason) :
    x.status = uploading ∧ x.attemptCount = e.attemptCount + 1 ∧ x.lastAttemptAt = some now := by
  cases h with
  | attempt ha => exact ⟨rfl,rfl,rfl⟩
  | reclaim hu => exact ⟨hu,rfl,rfl⟩

end Loop

/-- What a claim does that selected `ids`: each of them is eligible and taken, in
the order in which the events were received, and nothing else is touched. -/
structure ClaimsExactly (db : Ledger) (now : Time) (limit : ℕ) (retryAfter staleAfter : Time)
    (ids : List String) (out : Ledger) : Prop where
  nodup : ids.Nodup
  length : ids.length = min limit (eligibleEvents db now retryAfter staleAfter).length
  first : ∀ a ∈ eligibleEvents db now retryAfter staleAfter, a.eventId ∉ ids →
    ∀ b ∈ db.events.rows, b.eventId ∈ ids → b.receivedAt ≤ a.receivedAt
  taken : ∀ id ∈ ids, ∃ e x, db.getEvent id = some e ∧ eligible now retryAfter staleAfter e = true ∧
    out.getEvent id = some x ∧ x.status = uploading ∧ x.attemptCount = e.attemptCount + 1 ∧
    x.lastAttemptAt = some now
  others : ∀ k, k ∉ ids → out.getEvent k = db.getEvent k ∧ out.listTransitions k = db.listTransitions k

theorem Selects.claims {db : Ledger} {now : Time} {limit : ℕ} {retryAfter staleAfter : Time}
    {ids : List String} (h : Selects db now limit retryAfter staleAfter ids) :
    ∃ out, claimForUpload db ids now = .ok out ∧
      ClaimsExactly db now limit retryAfter staleAfter ids out := by
  have hrow : ∀ id ∈ ids, ∀ e, db.getEvent id = some e → eligible now retryAfter staleAfter e = true := by
    intro id hid e he
    obtain ⟨e',he',hel⟩ := h.row hid
    obtain rfl := Option.some.inj (he.symm.trans he')
    exact hel
  obtain ⟨out,hout⟩ := claimForUpload_isOk h.nodup
    fun id hid e he => eligible_status (hrow id hid e he)
  have hw := loop_rewrites Ledger.events (fun _ _ _ hr => claimRow_rewrites hr) h.nodup hout
  refine ⟨out,hout,h.nodup,h.length,fun a ha hn b hb hin => h.first ha hn hb hin,fun id hid => ?_,
    fun k hk => ⟨hw.frame k hk,claimForUpload_frame hout hk⟩⟩
  obtain ⟨e,he,hel⟩ := h.row hid
  obtain ⟨x,hx,reason,hc⟩ := hw.touch id e hid he
  exact ⟨e,x,he,hel,hx,hc.columns⟩

/-- So a claim that runs while nothing is locked takes the oldest eligible rows. -/
theorem claimQuery_claims (db : Ledger) (now : Time) (limit : ℕ) (retryAfter staleAfter : Time) :
    ∃ out, claimForUpload db (claimQuery db now limit retryAfter staleAfter []) now = .ok out ∧
      ClaimsExactly db now limit retryAfter staleAfter (claimQuery db now limit retryAfter staleAfter []) out :=
  claimQuery_selects.claims

/-- In every ledger a serial run reaches no unfinished event is stranded, and a
claim takes exactly the rows that its SELECT may return. -/
theorem serialRun_claims_exact (rt : Runtime) (actions : List SerialAction) (db : Ledger)
    (h : serialRun rt Ledger.empty actions = some db) :
    (∀ e ∈ db.events.rows, e.status ∈ [uploading,failedRetryable] → ∃ t, e.lastAttemptAt = some t ∧
      ∀ retryAfter staleAfter now, t + max retryAfter staleAfter ≤ now →
        eligible now retryAfter staleAfter e = true) ∧
    (∀ e ∈ db.events.rows, e.status = processed →
      ∀ retryAfter staleAfter now, eligible now retryAfter staleAfter e = true) ∧
    ∀ now limit retryAfter staleAfter ids, Selects db now limit retryAfter staleAfter ids →
      ∃ out, claimForUpload db ids now = .ok out ∧
        ClaimsExactly db now limit retryAfter staleAfter ids out := by
  refine ⟨fun e he hs => ?_,fun e _ hp _ _ _ => eligible_of_processed hp,fun _ _ _ _ _ hsel => hsel.claims⟩
  obtain ⟨t,ht⟩ := Option.isSome_iff_exists.mp (serialRun_stamped h _ e (Table.get_of_mem he) hs)
  exact ⟨t,ht,fun _ _ _ hnow => eligible_of_waited hs ht hnow⟩

/-- One event, claimed by an uploader that then dies. -/
def claimAndDie : List SerialAction :=
  [.commit (.ingest .hubspot (planIngest (clickRuntime 1704067200000) .hubspot (clickBody 1704067200000)
      .zero) .zero 0),
    .commit (.process ⟨"hubspot:1",.blank,0,none⟩ 0), .commit (.claim .single ["hubspot:1"] 0)]

/-- The row it leaves behind can be reclaimed, and the next claim takes it. -/
theorem serialRun_claims_exact_stale : ∃ (db out : Ledger) (e : Event) (t : Time),
    serialRun (clickRuntime 1704067200000) Ledger.empty claimAndDie = some db ∧ e ∈ db.events.rows ∧
    e.status = .uploading ∧ e.lastAttemptAt = some t ∧ eligible (t + 600000000) 60000000 600000000 e = true ∧
    claimForUpload db ["hubspot:1"] 600000000 = .ok out ∧
    ClaimsExactly db 600000000 100 60000000 600000000 ["hubspot:1"] out := by
  have h : (serialRun (clickRuntime 1704067200000) Ledger.empty claimAndDie).map (fun db =>
      (db.events.rows.map Event.status,claimQuery db 600000000 100 60000000 600000000 [])) =
      some ([.uploading],["hubspot:1"]) := by decide +kernel
  obtain ⟨db,hdb,hview⟩ := Option.map_eq_some_iff.mp h
  obtain ⟨hrows,hquery⟩ := Prod.mk.inj hview
  obtain ⟨e,he,hst⟩ := List.mem_map.mp (hrows ▸ List.mem_singleton_self uploading)
  obtain ⟨hstamped,_,hclaims⟩ := serialRun_claims_exact _ _ db hdb
  obtain ⟨t,ht,hel⟩ := hstamped e he (by simp [hst])
  obtain ⟨out,hout,hexact⟩ := hclaims 600000000 100 60000000 600000000 _ claimQuery_selects
  rw [hquery] at hout hexact
  exact ⟨db,out,e,t,hdb,he,hst,ht,hel 60000000 600000000 _ (by simp),hout,hexact⟩

end ConversionGateway
