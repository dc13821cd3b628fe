import ConversionGateway.Model.MockServer

/-! # Runs of the mock

Requests arrive and are handled in any order, between changes of the control and
of the list of uploads. Between two changes a control governs as many requests as
it says, and what the list gains is what the clients are told.
-/
namespace ConversionGateway

/-- The application, and the controls of the requests whose bodies are awaited. -/
structure MockApp where
  server : MockServer
  waiting : List Control

inductive MockAction
  | arrive
  /-- The body of a waiting request is there. -/
  | handle (i : ℕ) (body : Loaded)
  | setControl (control : Control)
  | resetControl
  | clearUploads

namespace MockAction

/-- The action sets or resets the control. -/
def Controls : MockAction → Prop
  | setControl _ | resetControl => True
  | arrive | handle .. | clearUploads => False

def arrives : MockAction → Bool
  | arrive => true
  | handle .. | setControl _ | resetControl | clearUploads => false

def Clears : MockAction → Prop
  | clearUploads => True
  | arrive | handle .. | setControl _ | resetControl => False

end MockAction

namespace MockApp
variable (rt : Runtime)

def step (a : MockApp) : MockAction → Option MockApp
  | .arrive => some ⟨a.server.arrive.2,a.waiting ++ [a.server.arrive.1]⟩
  | .handle i body => a.waiting[i]?.map fun control =>
      ⟨(a.server.respond rt control body).1,a.waiting.eraseIdx i⟩
  | .setControl control => some { a with server.control := control }
  | .resetControl => some { a with server.control := .plain }
  | .clearUploads => some { a with server.uploads := [], server.requestCount := 0 }

abbrev run : MockApp → List MockAction → Option MockApp := Machine.run (step rt)

/-- The application as `create_app` leaves it. -/
def start (knownActions : List String) (initialMode : MockMode) : MockApp :=
  ⟨.createApp knownActions initialMode,[]⟩

/-- The control that an arriving request takes. -/
def takes (a : MockApp) : MockAction → List Control
  | .arrive => [a.server.arrive.1]
  | .handle .. | .setControl _ | .resetControl | .clearUploads => []

/-- The answer to a request that is handled. -/
def answers (a : MockApp) : MockAction → List (List Json × HttpReply)
  | .handle i body => a.waiting[i]?.toList.map fun control => a.server.answer rt control body
  | .arrive | .setControl _ | .resetControl | .clearUploads => []

/-- The rows that its client takes for accepted. -/
def reports (repr : Json → String) (a : MockApp) : MockAction → List Json
  | .handle i (.value payload) =>
    match payload.getD "conversions" .null with
    | .ok (.arr conversions) => a.waiting[i]?.toList.flatMap fun control =>
        reportedRows repr (a.server.answer rt control (.value payload)).2 conversions
    | _ => []
  | _ => []

end MockApp

/-! ## How long a control lasts -/

/-- The controls that the next `k` requests take, as long as nobody changes it. -/
def Control.schedule (c : Control) (k : ℕ) : List Control :=
  match c.times with
  | none => List.replicate k c
  | some n => (List.range k).map fun i : ℕ => if (i : ℤ) < n then { c with times := some (n - i) } else .plain

namespace MockApp
variable {rt : Runtime} {a b : MockApp} {x : MockAction}

/-- The request takes the first of the schedule and leaves the rest of it. -/
theorem schedule_succ (s : MockServer) (k : ℕ) :
    s.control.schedule (k + 1) = s.arrive.1 :: s.arrive.2.control.schedule k := by
  unfold MockServer.arrive MockServer.takeControl Control.schedule
  cases ht : s.control.times with
  | none => simp only [ht, List.replicate_succ]
  | some n =>
    dsimp only
    by_cases hn : n ≤ 0
    · have hpast (i : ℕ) : ¬ ((i : ℤ) < n) := by omega
      simp only [hn, if_true, Control.plain, hpast, if_false, List.map_const', List.length_range, List.replicate_succ]
    · rw [if_neg hn, List.range_succ_eq_map, List.map_cons, List.map_map]
      refine congrArg₂ List.cons ?_ (List.map_congr_left fun i _ => ?_)
      · rw [if_pos (by push_cast; omega), Nat.cast_zero, sub_zero, ← ht]
      · have hlt : ((i + 1 : ℕ) : ℤ) < n ↔ (i : ℤ) < n - 1 := by
          push_cast
          omega
        have hsub : n - ((i + 1 : ℕ) : ℤ) = n - 1 - i := by
          push_cast
          omega
        simp only [Function.comp_apply, Nat.succ_eq_add_one, hlt, hsub]

theorem step_control (hx : ¬ x.Controls) (h : step rt a x = some b) :
    (x.arrives = false ∧ takes a x = [] ∧ b.server.control = a.server.control) ∨
      (x.arrives = true ∧ takes a x = [a.server.arrive.1] ∧ b.server = a.server.arrive.2) := by
  cases x with
  | arrive =>
    cases h
    exact Or.inr ⟨rfl,rfl,rfl⟩
  | handle i body =>
    obtain ⟨control,_,rfl⟩ := Option.map_eq_some_iff.mp h
    exact Or.inl ⟨rfl,rfl,rfl⟩
  | clearUploads =>
    cases h
    exact Or.inl ⟨rfl,rfl,rfl⟩
  | setControl control | resetControl => exact absurd trivial hx

/-- In every run in which nobody sets or resets the control, the requests that arrive
take the controls of its schedule, whatever is handled or cleared in between: one set
for `n` requests governs exactly the next `n`. -/
theorem run_controls (rt : Runtime) (actions : List MockAction) (a b : MockApp)
    (h : run rt a actions = some b) (hkeep : ∀ x ∈ actions, ¬ x.Controls) :
    Machine.outputs (step rt) takes a actions = a.server.control.schedule (actions.countP MockAction.arrives) := by
  induction actions generalizing a with
  | nil =>
    unfold Control.schedule
    cases a.server.control.times <;> rfl
  | cons x rest ih =>
    obtain ⟨m,hm,hrest⟩ := Machine.run_cons.mp h
    obtain ⟨hx,hkeep⟩ := List.forall_mem_cons.mp hkeep
    rw [Machine.outputs_cons rest hm, ih m hrest hkeep, List.countP_cons]
    rcases step_control hx hm with ⟨ha,ht,hc⟩ | ⟨ha,ht,hs⟩
    · rw [ha, ht, hc]
      rfl
    · rw [ha, ht, hs]
      exact (schedule_succ a.server _).symm

/-- The theorem at a failure injected for one request. -/
theorem run_controls_once : ∃ b k, run (Runtime.plain .valueError)
      ⟨⟨["closed_won"],⟨.http500,[],some 1⟩,[],0⟩,[]⟩ [.arrive,.clearUploads,.arrive] = some b ∧
    Machine.outputs (step (Runtime.plain .valueError)) takes ⟨⟨["closed_won"],⟨.http500,[],some 1⟩,[],0⟩,[]⟩
      [.arrive,.clearUploads,.arrive] = (Control.mk .http500 [] (some 1)).schedule k ∧
    (Control.mk .http500 [] (some 1)).schedule k = [⟨.http500,[],some 1⟩,.plain] :=
  ⟨_,2,rfl,run_controls _ _ _ _ rfl (by simp [MockAction.Controls]),rfl⟩

/-! ## What the list of uploads gains -/

theorem step_uploads (hx : ¬ x.Clears) (h : step rt a x = some b) :
    b.server.knownActions = a.server.knownActions ∧
      b.server.uploads = a.server.uploads ++ (answers rt a x).flatMap Prod.fst := by
  cases x with
  | arrive =>
    cases h
    unfold MockServer.arrive MockServer.takeControl
    split
    · exact ⟨rfl,(List.append_nil _).symm⟩
    · split <;> exact ⟨rfl,(List.append_nil _).symm⟩
  | handle i body =>
    obtain ⟨control,hc,rfl⟩ := Option.map_eq_some_iff.mp h
    refine ⟨rfl,?_⟩
    simp [answers,hc,MockServer.respond]
  | setControl control | resetControl =>
    cases h
    exact ⟨rfl,(List.append_nil _).symm⟩
  | clearUploads => exact absurd trivial hx

/-- No answer accepts a row that fails the check. -/
theorem answers_accepted (a : MockApp) (x : MockAction) : ∀ r ∈ answers rt a x, ∀ row ∈ r.1,
    validateRow rt row a.server.knownActions = .ok none := by
  intro r hr
  cases x with
  | handle i body =>
    obtain ⟨control,_,rfl⟩ := List.mem_map.mp hr
    exact (a.server.answer_accepted rt control body).2
  | arrive | setControl control | resetControl | clearUploads => cases hr

/-- Of one request the client is told of all accepted rows, or after an exception of none. -/
theorem step_reports (rt : Runtime) (repr : Json → String) (a : MockApp) (x : MockAction) :
    (reports rt repr a x).Sublist ((answers rt a x).flatMap Prod.fst) ∧
      ((∀ r ∈ answers rt a x, r.2 ≠ internalError) → reports rt repr a x = (answers rt a x).flatMap Prod.fst) := by
  cases x with
  | arrive | setControl control | resetControl | clearUploads => exact ⟨List.Sublist.refl _,fun _ => rfl⟩
  | handle i body =>
    cases hc : a.waiting[i]? with
    | none =>
      have hnone : reports rt repr a (.handle i body) = [] := by
        unfold reports
        split
        · split <;> simp_all
        · rfl
      rw [hnone]
      exact ⟨List.nil_sublist _,fun _ => by simp [answers,hc]⟩
    | some control =>
      have hanswers : answers rt a (.handle i body) = [a.server.answer rt control body] := by simp [answers,hc]
      rw [hanswers, List.flatMap_singleton]
      have hnone (hbody : ∀ payload conversions, body = .value payload →
          payload.getD "conversions" .null ≠ .ok (.arr conversions)) :
          ([] : List Json).Sublist (a.server.answer rt control body).1 ∧
            ((∀ r ∈ [a.server.answer rt control body], r.2 ≠ internalError) →
              [] = (a.server.answer rt control body).1) := by
        refine ⟨List.nil_sublist _,fun _ => ?_⟩
        rcases (a.server.answer_accepted rt control body).1 with hnil | ⟨payload,conversions,hv,hp,_⟩
        · exact hnil.symm
        · exact absurd hp (hbody payload conversions hv)
      unfold reports
      split
      · next payload heq =>
        cases heq
        split
        · next conversions hp =>
          simp only [hc, Option.toList_some, List.flatMap_singleton]
          rcases a.server.answer_reported rt repr control hp with heq | herr
          · rw [heq]
            exact ⟨List.Sublist.refl _,fun _ => rfl⟩
          · rw [herr, reportedRows_internalError]
            exact ⟨List.nil_sublist _,fun hno => absurd herr (hno _ (List.mem_singleton_self _))⟩
        · next hp =>
          refine hnone fun payload' conversions hv hc => ?_
          cases hv
          exact hp conversions hc
      · next hbody => exact hnone fun payload _ hv => absurd (hv ▸ rfl) (hbody i payload)

/-- In every run without a deletion the list of uploads gains rows that pass the check
and nothing else: what the clients are told they accepted, and what an exception kept
from them. -/
theorem run_uploads (rt : Runtime) (repr : Json → String) (actions : List MockAction) (a b : MockApp)
    (h : run rt a actions = some b) (hkeep : ∀ x ∈ actions, ¬ x.Clears) :
    ∃ added, b.server.uploads = a.server.uploads ++ added ∧
      (∀ row ∈ added, validateRow rt row a.server.knownActions = .ok none) ∧
      (Machine.outputs (step rt) (reports rt repr) a actions).Sublist added ∧
      ((∀ r ∈ Machine.outputs (step rt) (answers rt) a actions, r.2 ≠ internalError) →
        Machine.outputs (step rt) (reports rt repr) a actions = added) := by
  induction actions generalizing a with
  | nil =>
    cases h
    exact ⟨[],(List.append_nil _).symm,by simp,List.Sublist.refl _,fun _ => rfl⟩
  | cons x rest ih =>
    obtain ⟨m,hm,hrest⟩ := Machine.run_cons.mp h
    obtain ⟨hx,hkeep⟩ := List.forall_mem_cons.mp hkeep
    obtain ⟨added,hup,hpass,hsub,heq⟩ := ih m hrest hkeep
    obtain ⟨hknown,hone⟩ := step_uploads hx hm
    obtain ⟨hsub₁,heq₁⟩ := step_reports rt repr a x
    rw [Machine.outputs_cons rest hm, Machine.outputs_cons rest hm]
    refine ⟨(answers rt a x).flatMap Prod.fst ++ added,?_,fun row hrow => ?_,hsub₁.append hsub,fun hno => ?_⟩
    · rw [hup, hone, List.append_assoc]
    · rcases List.mem_append.mp hrow with hrow | hrow
      · obtain ⟨r,hr,hrow⟩ := List.mem_flatMap.mp hrow
        exact answers_accepted a x r hr row hrow
      · exact hknown ▸ hpass row hrow
    · rw [heq₁ fun r hr => hno r (List.mem_append_left _ hr), heq fun r hr => hno r (List.mem_append_right _ hr)]

/-- The theorem at two requests, the first of which is answered with an injected error. -/
theorem run_uploads_plain : ∃ b added, run (Runtime.plain .valueError) (start [] .ok)
      [.setControl ⟨.http500,[],some 1⟩,.arrive,.arrive,.handle 1 (.value (uploadRequest [plainRow])),
        .handle 0 (.value (uploadRequest [plainRow]))] = some b ∧
    b.server.uploads = added ∧ added.length = 1 ∧
    ∀ row ∈ added, validateRow (Runtime.plain .valueError) row ["closed_won","qualified_lead"] = .ok none := by
  have hrun : (run (Runtime.plain .valueError) (start [] .ok)
      [.setControl ⟨.http500,[],some 1⟩,.arrive,.arrive,.handle 1 (.value (uploadRequest [plainRow])),
        .handle 0 (.value (uploadRequest [plainRow]))]).map (fun b => b.server.uploads.length) = some 1 := by
    decide +kernel
  obtain ⟨b,hb,hlen⟩ := Option.map_eq_some_iff.mp hrun
  obtain ⟨added,hup,hpass,_⟩ := run_uploads _ (fun _ => "") _ _ b hb (by simp [MockAction.Clears])
  have hup : b.server.uploads = added := hup
  exact ⟨b,added,hb,hup,hup ▸ hlen,hpass⟩

end MockApp
end ConversionGateway
