import ConversionGateway.System.CommittedRows
import ConversionGateway.System.Recovery

/-! # What reconcile predicts

`reconcile` tells by two columns whether an event can be recovered without its
identifiers. What a message without identifiers makes of the event is decided later,
by the consent gate, the digests and the click id.
-/
namespace ConversionGateway
open EventStatus

/-- The test of `reconcile`: a match key is on the row. -/
def Event.recoverable (e : Event) : Bool :=
  e.matchKeyType = some .clickId || e.hashedIdentifiers.isSome

/-- The type of the match key says whether there is a click id. -/
def Event.Keyed (e : Event) : Prop := e.matchKeyType = some .clickId ↔ truthy e.clickId = true

section Verdict
variable {rt : Runtime} {e : Event} {message : QueueMessage}

theorem verdict_suppressed (rt : Runtime) (message : QueueMessage) (hg : ¬ e.Granted) : ∃ reason : SuppressionReason, e.verdict rt message =
    ⟨e.moved .suppressed (some reason.value),some reason.value,.suppressed⟩ := by
  cases hr : (evaluateConsent e.consent).reason with
  | none => exact absurd (evaluateConsent_reason_none.mp hr) hg
  | some reason =>
    refine ⟨reason,?_⟩
    simp only [Event.verdict, hr]

/-- Digests of the row are kept, whatever else there is. -/
theorem verdict_reused {hashed : HashedIdentifiers} (hg : e.Granted) (hb : message.identifiers = .blank)
    (hd : e.hashedIdentifiers = some hashed) :
    e.verdict rt message = ⟨e.processedWith hashed,none,.processed⟩ := by
  have hreuse : reusedDigests e message = some hashed := by rw [reusedDigests, if_pos hb, hd]
  simp only [Event.verdict, evaluateConsent_reason_none.mpr hg, hreuse]

/-- Identifiers that are not there are rejected as one missing match key. -/
theorem build_blank (rt : Runtime) : (buildUserIdentifiers rt .blank).identifiers = .blank ∧
    (buildUserIdentifiers rt .blank).rejections = [⟨"identifiers",.noMatchKey⟩] := ⟨rfl,rfl⟩

theorem verdict_click (hg : e.Granted) (hb : message.identifiers = .blank) (hd : e.hashedIdentifiers = none)
    (hc : truthy e.clickId = true) : e.verdict rt message = ⟨e.processedWith .blank,none,.processed⟩ := by
  have hreuse : reusedDigests e message = none := by rw [reusedDigests, if_pos hb, hd]
  have hcounted : countedRejections e [⟨"identifiers",.noMatchKey⟩] = [] := by simp [countedRejections,hc]
  obtain ⟨hidentifiers,hrejections⟩ := build_blank rt
  simp only [Event.verdict, evaluateConsent_reason_none.mpr hg, hreuse, hb, hidentifiers, hrejections, hcounted,
    ne_eq, not_true_eq_false, if_false]

theorem verdict_unmatched (hg : e.Granted) (hb : message.identifiers = .blank)
    (hd : e.hashedIdentifiers = none) (hc : truthy e.clickId = false) : e.verdict rt message =
      ⟨e.moved .rejected (some "no_match_key:identifiers"),some "no_match_key:identifiers",.rejected⟩ := by
  have hreuse : reusedDigests e message = none := by rw [reusedDigests, if_pos hb, hd]
  have hcounted : countedRejections e [⟨"identifiers",.noMatchKey⟩] = [⟨"identifiers",.noMatchKey⟩] := by
    simp [countedRejections,hc]
  have hreason : rejectionsReason [⟨"identifiers",.noMatchKey⟩] = "no_match_key:identifiers" := by decide
  obtain ⟨_,hrejections⟩ := build_blank rt
  simp only [Event.verdict, evaluateConsent_reason_none.mpr hg, hreuse, hb, hrejections, hcounted, hreason,
    ne_eq, List.cons_ne_nil, not_false_eq_true, if_true]

theorem fits_processedWith {hashed : HashedIdentifiers} (h : e.fits = true)
    (hh : (hashed.texts.all fun s => !s.toList.contains (Char.ofNat 0)) = true) :
    (e.processedWith hashed).fits = true := by
  simp only [Event.fits, Bool.and_eq_true] at h ⊢
  obtain ⟨⟨⟨⟨⟨⟨⟨h₁,h₂⟩,h₃⟩,h₄⟩,h₅⟩,h₆⟩,-⟩,-⟩ := h
  exact ⟨⟨⟨⟨⟨⟨⟨h₁,h₂⟩,h₃⟩,h₄⟩,h₅⟩,h₆⟩,rfl⟩,hh⟩

/-- What a message without identifiers makes of a row always fits its columns. -/
theorem verdict_fits (rt : Runtime) (h : e.fits = true) (hb : message.identifiers = .blank) :
    (e.verdict rt message).row.fits = true ∧ nullable (varchar 512) (e.verdict rt message).reason = true := by
  by_cases hg : e.Granted
  · cases hd : e.hashedIdentifiers with
    | some hashed =>
      rw [verdict_reused hg hb hd]
      refine ⟨fits_processedWith h ?_,rfl⟩
      simp only [Event.fits, Bool.and_eq_true, hd, Option.all_some] at h
      exact h.2
    | none =>
      cases hc : truthy e.clickId with
      | true =>
        rw [verdict_click hg hb hd hc]
        exact ⟨fits_processedWith h rfl,rfl⟩
      | false =>
        rw [verdict_unmatched hg hb hd hc]
        have hfits : nullable (varchar 512) (some "no_match_key:identifiers") = true := by decide
        exact ⟨Event.fits_moved .rejected h hfits,hfits⟩
  · obtain ⟨reason,hreason⟩ := verdict_suppressed rt message hg
    have hfits : nullable (varchar 512) (some reason.value) = true := by cases reason <;> decide
    rw [hreason]
    exact ⟨Event.fits_moved .suppressed h hfits,hfits⟩

end Verdict

section Keyed
variable {rt : Runtime} {e x : Event}

theorem Event.Keyed.congr (h : e.Keyed) (hid : x.identity = e.identity) : x.Keyed := by
  have hk : x.matchKeyType = e.matchKeyType := congrArg Identity.matchKeyType hid
  have hc : x.clickId = e.clickId := congrArg Identity.clickId hid
  unfold Event.Keyed
  rw [hk, hc]
  exact h

/-- Text is there after its encoding if it was there before. -/
theorem encodeOption_truthy {text : Option PyText} {out : Option String} (h : PyText.encodeOption text = .ok out) :
    truthy out = text.any PyText.truthy := by
  cases text with
  | none =>
    cases h
    rfl
  | some t =>
    cases t with
    | text s =>
      cases h
      rfl
    | surrogates points => cases h

/-- An ingest writes the type of the match key from the click id it writes. -/
theorem IngestPlan.Enters.keyed {source : Source} {now : Time} {plan : IngestPlan}
    (h : plan.Enters source now e) : e.Keyed := by
  cases plan with
  | raised x => exact h.elim
  | accept event =>
    obtain ⟨row,stored,hrow,hstored,rfl⟩ := h
    obtain ⟨currency,_,hrow⟩ := Outcome.bind_ok.mp hrow
    obtain ⟨clickId,hclick,hrow⟩ := Outcome.bind_ok.mp hrow
    obtain ⟨v,t,rfl⟩ := hstored.columns
    rw [← Outcome.pure_ok.mp hrow]
    show some event.matchKeyType = some .clickId ↔ truthy clickId = true
    rw [encodeOption_truthy hclick, CanonicalLeadEvent.matchKeyType]
    cases event.clickId.any PyText.truthy <;> simp
  | reject sourceEventId errors =>
    obtain ⟨id,stored,_,hstored,label,rfl⟩ := h
    obtain ⟨v,t,rfl⟩ := hstored.columns
    show (none : Option MatchKeyType) = some .clickId ↔ truthy none = true
    simp [truthy]

end Keyed

namespace System
variable {rt : Runtime} {settings : ℕ → Settings} {s t : System} {a : Action}

/-- The rows of a reachable ledger, as the columns allow. -/
structure Columns (s : System) : Prop where
  linked : s.Linked
  fits : s.ledger.fits = true
  keyed : ∀ k e, s.ledger.getEvent k = some e → e.Keyed

theorem start_columns : (start Ledger.empty).Columns := by
  refine ⟨start_linked _,rfl,?_⟩
  intro k e he
  cases he

theorem step_columns (hs : s.Columns) (h : step rt settings s a = some t) : t.Columns := by
  refine ⟨step_linked hs.linked h,?_,?_⟩
  · rcases step_ledger h with heq | ⟨who,tx,reply,_,hc⟩
    · rw [heq]
      exact hs.fits
    · obtain ⟨_,_,_,hfits⟩ := Transaction.commit_ok.mp hc.commit
      exact hfits
  · rcases step_ledger h with heq | ⟨who,tx,reply,_,hc⟩
    · rw [heq]
      exact hs.keyed
    · intro k e he
      cases hk : s.ledger.getEvent k with
      | none =>
        obtain ⟨_,_,_,_,_,_,hx⟩ := hc.new_row hs.linked hk he
        exact hx.keyed
      | some e₀ =>
        obtain ⟨e',he',hid⟩ := Transaction.commit_identity (hs.linked.known hc.transaction)
          (hs.linked.paired hc.transaction) hc.commit hk
        obtain rfl := Option.some.inj (he.symm.trans he')
        exact (hs.keyed k e₀ hk).congr hid

/-- In every reachable state, a worker that handles a message without identifiers for a
QUEUED event commits, and does what the test of `reconcile` says. -/
theorem run_recoverable_exact (rt : Runtime) (settings : ℕ → Settings) (actions : List Action) (s : System)
    (h : run rt settings (start Ledger.empty) actions = some s) (e : Event) (message : QueueMessage)
    (now : Time) (he : s.ledger.getEvent message.eventId = some e) (hq : e.status = queued)
    (hb : message.identifiers = .blank) :
    ∃ db x outcome, (Transaction.process message (s.ledger.getEvent message.eventId) now).commit rt s.ledger =
        .ok (db,.processed outcome) ∧ db.getEvent message.eventId = some x ∧
      (e.Granted → e.recoverable = true → outcome = .processed ∧ x.status = .processed) ∧
      (e.Granted → e.recoverable = false → outcome = .rejected ∧ x.status = rejected ∧
        x.statusReason = some "no_match_key:identifiers") ∧
      (¬ e.Granted → outcome = .suppressed ∧ x.status = suppressed) := by
  have hs : s.Columns := Machine.run_inv' Columns (fun _ _ _ hs hst => step_columns hs hst) start_columns h
  have hkeyed := hs.keyed _ e he
  obtain ⟨hrow,hreason⟩ := verdict_fits rt (fits_event hs.fits he) hb
  have hfits : (s.ledger.record e (e.verdict rt message).row (e.verdict rt message).reason now).fits = true :=
    Ledger.fits_record e now hs.fits hrow hreason
  refine ⟨s.ledger.record e (e.verdict rt message).row (e.verdict rt message).reason now,
    (e.verdict rt message).row,(e.verdict rt message).outcome,?_,?_,?_,?_,?_⟩
  · refine Transaction.commit_of_fresh (begin_fresh (.process message now) rfl).1 ?_ hfits
    rw [he]
    exact Outcome.bind_ok.mpr ⟨_,processMessage_queued hq s.ledger now,rfl⟩
  · rw [Ledger.record_getEvent (getEvent_self he) verdict_eventId, if_pos (Ledger.getEvent_eventId he).symm]
  · intro hg hr
    cases hd : e.hashedIdentifiers with
    | some hashed =>
      rw [verdict_reused hg hb hd]
      exact ⟨rfl,rfl⟩
    | none =>
      have hclick : truthy e.clickId = true := hkeyed.mp (by simpa [Event.recoverable,hd] using hr)
      rw [verdict_click hg hb hd hclick]
      exact ⟨rfl,rfl⟩
  · intro hg hr
    simp only [Event.recoverable, Bool.or_eq_false_iff, decide_eq_false_iff_not, Option.isSome_eq_false_iff,
      Option.isNone_iff_eq_none] at hr
    have hclick : truthy e.clickId = false := by
      rw [← Bool.not_eq_true]
      exact fun hc => hr.1 (hkeyed.mpr hc)
    rw [verdict_unmatched hg hb hr.2 hclick]
    exact ⟨rfl,rfl,rfl⟩
  · intro hg
    obtain ⟨reason,hreason⟩ := verdict_suppressed rt message hg
    rw [hreason]
    exact ⟨rfl,rfl⟩

/-- The theorem at an event with a click id that waits in the queue. -/
theorem run_recoverable_exact_click : ∃ s e db x outcome,
    run (clickRuntime 1704067200000) (fun _ => .single) (start Ledger.empty) (uploadOnce.take 2) = some s ∧
    s.ledger.getEvent "hubspot:1" = some e ∧ e.recoverable = true ∧
    (Transaction.process ⟨"hubspot:1",.blank,9,none⟩ (s.ledger.getEvent "hubspot:1") 9).commit
      (clickRuntime 1704067200000) s.ledger = .ok (db,.processed outcome) ∧
    db.getEvent "hubspot:1" = some x ∧ outcome = .processed ∧ x.status = .processed := by
  have hrun : (run (clickRuntime 1704067200000) (fun _ => .single) (start Ledger.empty)
      (uploadOnce.take 2)).map (fun s => (s.ledger.getEvent "hubspot:1").map fun e =>
        (e.status,e.recoverable,decide e.consent.Granted)) = some (some (queued,true,true)) := by decide +kernel
  obtain ⟨s,hs,hrow⟩ := Option.map_eq_some_iff.mp hrun
  obtain ⟨e,he,hcols⟩ := Option.map_eq_some_iff.mp hrow
  simp only [Prod.mk.injEq, decide_eq_true_eq] at hcols
  obtain ⟨hq,hr,hg⟩ := hcols
  obtain ⟨db,x,outcome,hc,hx,hprocessed,_⟩ := run_recoverable_exact _ _ (uploadOnce.take 2) s hs e
    ⟨"hubspot:1",.blank,9,none⟩ 9 he hq rfl
  exact ⟨s,e,db,x,outcome,hs,he,hr,hc,hx,hprocessed hg hr⟩

end System
end ConversionGateway
