import ConversionGateway.Lifecycle.IngestOutcome

/-! # The counters of the intake

An accepted event is counted once its row is new. A rejected request is counted whenever
it is answered, also if its row was there before.
-/
namespace ConversionGateway
open Relational

/-- An authenticated request. -/
structure IntakeRequest where
  source : Source
  body : ByteArray
  now : Time
  correlationId : CorrelationId

/-- The ledger, and the labels of all increments so far. -/
structure Intake where
  ledger : Ledger
  /-- `events_received_total`, by source and conversion action. -/
  received : List (Source × String)
  /-- `events_rejected_total`, by source, conversion action and reason. -/
  rejected : List (Source × String × String)

namespace IntakeRequest
variable (rt : Runtime) (r : IntakeRequest)

def plan : IngestPlan := planIngest rt r.source r.body r.correlationId

/-- The increments of `events_received_total` by a request with this answer. -/
def received (i : Ingested) : List (Source × String) :=
  match r.plan rt with
  | .raised _ => []
  | .accept event => if i.response.statusCode = 200 then [] else [(r.source,event.conversionAction)]
  | .reject _ _ => [(r.source,"unknown")]

/-- The increments of `events_rejected_total`. -/
def rejected : List (Source × String × String) :=
  match r.plan rt with
  | .raised _ => []
  | .accept _ => []
  | .reject _ errors => errors.map fun e => (r.source,"unknown",e.reason)

/-- The event id of the request is in the ledger. -/
def Taken (db : Ledger) : Prop := ∃ k, (r.plan rt).eventId r.source = some k ∧ db.getEvent k ≠ none

/-- The request is invalid, nothing in it is refused by a column, and its row is there already. -/
def RepeatsRejection (db : Ledger) : Prop := (∃ id errors, r.plan rt = .reject id errors) ∧
  (r.plan rt).Storable rt db r.source r.now ∧ r.Taken rt db

end IntakeRequest

namespace Intake
variable (rt : Runtime)

/-- One request; if it raises, nothing is committed or counted. -/
def deliver (s : Intake) (r : IntakeRequest) : Intake :=
  match ingest rt s.ledger r.source r.body r.now r.correlationId with
  | .ok (db,.ingested i) => ⟨db,s.received ++ r.received rt i,s.rejected ++ r.rejected rt⟩
  | _ => s

def run (s : Intake) (rs : List IntakeRequest) : Intake := rs.foldl (deliver rt) s

/-- No request repeats a rejection. -/
def NoRepeats : Intake → List IntakeRequest → Prop
  | _, [] => True
  | s, r :: rest => ¬ r.RepeatsRejection rt s.ledger ∧ NoRepeats (s.deliver rt r) rest

section Deliver
variable {rt} {s : Intake} {r : IntakeRequest} {db : Ledger} {i : Ingested}

/-- An accepted event is answered with 200 exactly if its id was taken. -/
theorem ingestAccepted_duplicate {event : CanonicalLeadEvent} {correlationId : CorrelationId} {now : Time} {out : Ledger}
    (h : ingestAccepted rt db correlationId now event = .ok (out,i)) :
    i.response.statusCode = 200 ↔ db.getEvent event.eventId ≠ none := by
  obtain ⟨⟨db₁,found⟩,hr,h₁⟩ := Outcome.bind_ok.mp h
  rcases recordValidated_ok hr with ⟨rfl,rfl,hk⟩ | ⟨row,stored,hrow,hstored,hnew,rfl,rfl⟩
  · obtain ⟨e,he⟩ := Option.ne_none_iff_exists'.mp hk
    simp only [he, Outcome.pure_ok, Prod.mk.injEq] at h₁
    obtain ⟨rfl,rfl⟩ := h₁
    exact iff_of_true rfl hk
  · simp only [Outcome.pure_ok, Prod.mk.injEq] at h₁
    obtain ⟨rfl,rfl⟩ := h₁
    have hid : stored.eventId = event.eventId := by
      obtain ⟨_,_,hrow⟩ := Outcome.bind_ok.mp hrow
      obtain ⟨_,_,hrow⟩ := Outcome.bind_ok.mp hrow
      rw [hstored.eventId, ← Outcome.pure_ok.mp hrow]
    have habsent : db.getEvent event.eventId = none := hid ▸ hnew
    exact iff_of_false (by simp) (not_not.mpr habsent)

/-- What a request does: it raises and changes nothing, or it commits and is counted. -/
theorem deliver_cases (rt : Runtime) (s : Intake) (r : IntakeRequest) :
    (s.deliver rt r = s ∧ ∀ out, ingest rt s.ledger r.source r.body r.now r.correlationId ≠ .ok out) ∨
    ∃ db i, ingestBody rt s.ledger r.correlationId r.now r.source (r.plan rt) = .ok (db,i) ∧ db.fits = true ∧
      s.deliver rt r = ⟨db,s.received ++ r.received rt i,s.rejected ++ r.rejected rt⟩ := by
  unfold deliver
  cases h : ingest rt s.ledger r.source r.body r.now r.correlationId with
  | error e => exact Or.inl ⟨rfl,fun out hout => by cases hout⟩
  | ok p =>
    obtain ⟨db,reply⟩ := p
    obtain ⟨⟨i,hi,rfl⟩,hfit⟩ := commit_ingest.mp h
    exact Or.inr ⟨db,i,hi,hfit,rfl⟩

theorem deliver_fits (hfit : s.ledger.fits = true) (r : IntakeRequest) : (s.deliver rt r).ledger.fits = true := by
  rcases deliver_cases rt s r with ⟨hsame,_⟩ | ⟨db,i,_,hdb,heq⟩
  · rw [hsame]
    exact hfit
  · rw [heq]
    exact hdb

theorem run_fits (hfit : s.ledger.fits = true) (rs : List IntakeRequest) : (s.run rt rs).ledger.fits = true := by
  induction rs generalizing s with
  | nil => exact hfit
  | cons r rest ih => exact ih (deliver_fits hfit r)

theorem not_repeats_of_raised (hfit : s.ledger.fits = true)
    (h : ∀ out, ingest rt s.ledger r.source r.body r.now r.correlationId ≠ .ok out) :
    ¬ r.RepeatsRejection rt s.ledger := by
  rintro ⟨_,hstorable,_⟩
  obtain ⟨db,i,hok,_⟩ := (plan_answered r.correlationId hfit (r.plan rt)).mpr hstorable
  exact h _ hok

/-- A request adds no row and is not counted, or adds a row that was not there and is counted
once, or repeats a rejection and is counted once. -/
theorem deliver_outcome (hfit : s.ledger.fits = true) (r : IntakeRequest) :
    ((s.deliver rt r).received = s.received ∧ (s.deliver rt r).rejected = s.rejected ∧
      (s.deliver rt r).ledger.events.rows.length = s.ledger.events.rows.length ∧ ¬ r.RepeatsRejection rt s.ledger) ∨
    (∃ label, (s.deliver rt r).received = s.received ++ [label] ∧
      (s.deliver rt r).ledger.events.rows.length = s.ledger.events.rows.length + 1 ∧ ¬ r.Taken rt s.ledger) ∨
    ∃ label, (s.deliver rt r).received = s.received ++ [label] ∧
      (s.deliver rt r).ledger.events.rows.length = s.ledger.events.rows.length ∧ r.RepeatsRejection rt s.ledger := by
  rcases deliver_cases rt s r with ⟨hsame,hraised⟩ | ⟨db,i,hbody,hdb,heq⟩
  · rw [hsame]
    exact Or.inl ⟨rfl,rfl,rfl,not_repeats_of_raised hfit hraised⟩
  rw [heq]
  obtain ⟨hid,hrow⟩ := ingestBody_ok hbody
  have hfree (hk : s.ledger.getEvent i.response.eventId = none) : ¬ r.Taken rt s.ledger := by
    rintro ⟨k,hk',htaken⟩
    rw [hid, Option.some.injEq] at hk'
    subst hk'
    exact htaken hk
  cases hplan : r.plan rt with
  | raised e =>
    rw [hplan] at hbody
    cases hbody
  | accept event =>
    have hnot : ¬ r.RepeatsRejection rt s.ledger := by
      rintro ⟨⟨id,errors,hreject⟩,_⟩
      rw [hplan] at hreject
      cases hreject
    have hevent : event.eventId = i.response.eventId := by
      rw [hplan] at hid
      exact Option.some.inj hid
    have hstatus : i.response.statusCode = 200 ↔ s.ledger.getEvent i.response.eventId ≠ none := by
      rw [hplan] at hbody
      rw [← hevent]
      exact ingestAccepted_duplicate hbody
    have hrejected : r.rejected rt = [] := by rw [IntakeRequest.rejected, hplan]
    rcases hrow with ⟨rfl,_,htaken⟩ | ⟨e,_,hkey,hnew,hget,_⟩
    · have hreceived : r.received rt i = [] := by
        rw [IntakeRequest.received, hplan]
        exact if_pos (hstatus.mpr htaken)
      rw [hreceived, hrejected, List.append_nil, List.append_nil]
      exact Or.inl ⟨rfl,rfl,rfl,hnot⟩
    · have hfresh : s.ledger.getEvent i.response.eventId = none := hkey ▸ hnew
      have hreceived : r.received rt i = [(r.source,event.conversionAction)] := by
        rw [IntakeRequest.received, hplan]
        exact if_neg fun h => hstatus.mp h hfresh
      rw [hreceived]
      exact Or.inr (Or.inl ⟨_,rfl,Table.length_of_get hnew hget,hfree hfresh⟩)
  | reject id errors =>
    have hreceived : r.received rt i = [(r.source,"unknown")] := by rw [IntakeRequest.received, hplan]
    rw [hreceived]
    rcases hrow with ⟨rfl,_,htaken⟩ | ⟨e,_,hkey,hnew,hget,_⟩
    · have hstorable : (r.plan rt).Storable rt s.ledger r.source r.now :=
        storable_of_commit hfit (commit_ingest.mpr ⟨⟨i,hbody,rfl⟩,hdb⟩)
      exact Or.inr (Or.inr ⟨_,rfl,rfl,⟨id,errors,hplan⟩,hstorable,_,hid,htaken⟩)
    · exact Or.inr (Or.inl ⟨_,rfl,Table.length_of_get hnew hget,hfree (hkey ▸ hnew)⟩)

/-- One request: as many are counted as rows are created, unless it repeats a rejection. -/
theorem deliver_counts (rt : Runtime) (hfit : s.ledger.fits = true) (r : IntakeRequest) :
    (¬ r.RepeatsRejection rt s.ledger → (s.deliver rt r).received.length + s.ledger.events.rows.length =
      s.received.length + (s.deliver rt r).ledger.events.rows.length) ∧
    (r.RepeatsRejection rt s.ledger → (s.deliver rt r).received.length + s.ledger.events.rows.length =
      s.received.length + (s.deliver rt r).ledger.events.rows.length + 1) := by
  rcases deliver_outcome hfit r with ⟨hreceived,_,hrows,hnot⟩ | ⟨label,hreceived,hrows,hfree⟩ | ⟨label,hreceived,hrows,hrepeats⟩
  · rw [hreceived, hrows]
    exact ⟨fun _ => rfl,fun h => absurd h hnot⟩
  · rw [hreceived, hrows, List.length_append, List.length_singleton]
    exact ⟨fun _ => by omega,fun h => absurd h.2.2 hfree⟩
  · rw [hreceived, hrows, List.length_append, List.length_singleton]
    exact ⟨fun h => absurd hrepeats h,fun _ => by omega⟩

/-- A run: every repeated rejection is counted in excess. -/
theorem run_counts (hfit : s.ledger.fits = true) (rs : List IntakeRequest) :
    s.received.length + (s.run rt rs).ledger.events.rows.length ≤
      (s.run rt rs).received.length + s.ledger.events.rows.length ∧
    ((s.run rt rs).received.length + s.ledger.events.rows.length =
      s.received.length + (s.run rt rs).ledger.events.rows.length ↔ s.NoRepeats rt rs) := by
  induction rs generalizing s with
  | nil => exact ⟨Nat.le_refl _,iff_of_true rfl trivial⟩
  | cons r rest ih =>
    have hfits : (s.deliver rt r).ledger.fits = true := deliver_fits hfit r
    obtain ⟨hle,hiff⟩ := ih hfits
    obtain ⟨hsame,hmore⟩ := deliver_counts rt hfit r
    have hrun : s.run rt (r :: rest) = (s.deliver rt r).run rt rest := rfl
    rw [hrun, NoRepeats]
    by_cases hrepeats : r.RepeatsRejection rt s.ledger
    · have hone := hmore hrepeats
      refine ⟨by omega,iff_of_false (by omega) fun h => h.1 hrepeats⟩
    · have hone := hsame hrepeats
      refine ⟨by omega,?_⟩
      rw [and_iff_right hrepeats, ← hiff]
      omega

/-- A request on an id that is taken leaves the counters alone unless it repeats a rejection. -/
theorem deliver_taken (hfit : s.ledger.fits = true) (htaken : r.Taken rt s.ledger) :
    ((s.deliver rt r).received = s.received ∧ (s.deliver rt r).rejected = s.rejected) ↔
      ¬ r.RepeatsRejection rt s.ledger := by
  rcases deliver_outcome hfit r with ⟨hreceived,hrejected,_,hnot⟩ | ⟨label,_,_,hfree⟩ | ⟨label,hreceived,_,hrepeats⟩
  · exact iff_of_true ⟨hreceived,hrejected⟩ hnot
  · exact absurd htaken hfree
  · refine iff_of_false (fun h => ?_) (not_not.mpr hrepeats)
    have hlen := congrArg List.length (hreceived.symm.trans h.1)
    rw [List.length_append, List.length_singleton] at hlen
    omega

end Deliver

/-- Over any sequence of requests as many are counted as rows are created, exactly if none of
them repeats a rejection; and after it a request on an id that is taken leaves both counters
alone, exactly if it does not. -/
theorem run_counted_iff {rt : Runtime} {s : Intake} (hfit : s.ledger.fits = true) (rs : List IntakeRequest) :
    ((s.run rt rs).received.length + s.ledger.events.rows.length =
      s.received.length + (s.run rt rs).ledger.events.rows.length ↔ s.NoRepeats rt rs) ∧
    ∀ r : IntakeRequest, r.Taken rt (s.run rt rs).ledger →
      ((((s.run rt rs).deliver rt r).received = (s.run rt rs).received ∧
        ((s.run rt rs).deliver rt r).rejected = (s.run rt rs).rejected) ↔
        ¬ r.RepeatsRejection rt (s.run rt rs).ledger) :=
  ⟨(run_counts hfit rs).2,fun _ htaken => deliver_taken (run_fits hfit rs) htaken⟩

def empty : Intake := ⟨Ledger.empty,[],[]⟩

/-- A body that is not JSON. -/
def garbage : IntakeRequest := ⟨.salesforce,"\x7bnot json".toUTF8,0,.zero⟩

/-- The theorem for a body that is not JSON and comes once. -/
theorem run_counted_iff_once : (empty.run (.plain .valueError) [garbage]).received.length + empty.ledger.events.rows.length =
    empty.received.length + (empty.run (.plain .valueError) [garbage]).ledger.events.rows.length := by
  have hfit : empty.ledger.fits = true := by decide
  refine (run_counted_iff hfit [garbage]).1.mpr ⟨?_,trivial⟩
  rintro ⟨_,_,k,_,htaken⟩
  exact htaken rfl

/-- The same body twice makes one row and is counted twice by both counters. -/
theorem not_counted_once :
    (empty.run (.plain .valueError) [garbage,garbage]).ledger.events.rows.length = 1 ∧
    (empty.run (.plain .valueError) [garbage,garbage]).received.length = 2 ∧
    (empty.run (.plain .valueError) [garbage]).rejected = [(.salesforce,"unknown","malformed_json")] ∧
    (empty.run (.plain .valueError) [garbage,garbage]).rejected =
      [(.salesforce,"unknown","malformed_json"),(.salesforce,"unknown","malformed_json")] := by
  decide +kernel

end Intake
end ConversionGateway
