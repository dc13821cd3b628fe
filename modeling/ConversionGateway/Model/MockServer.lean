import ConversionGateway.Library.Machine
import ConversionGateway.Model.UploadClient

/-! # The mock as a server

A request takes the control that is in force as it arrives. Its body is handled
later, at a stroke, under that control; what a client may then take for accepted
is among the rows that were.
-/
namespace ConversionGateway

/-! ## The application -/

/-- `Mode` -/
inductive MockMode
  | ok
  | http401
  | http429
  | http500
  | http503
  | timeout
  | malformed
deriving DecidableEq, Repr

/-- `int(control.mode.removeprefix("http_"))`, of the modes that start with `http_`. -/
def MockMode.httpCode : MockMode → Option ℕ
  | http401 => some 401
  | http429 => some 429
  | http500 => some 500
  | http503 => some 503
  | ok | timeout | malformed => none

/-- Failure injection; how long a timeout sleeps is left to the client's clock. -/
structure Control where
  mode : MockMode
  failRows : List RowFailure
  times : Option ℤ

/-- `Control()` -/
def Control.plain : Control := ⟨.ok,[],none⟩

/-- `State` -/
structure MockServer where
  knownActions : List String
  control : Control
  uploads : List Json
  requestCount : ℕ

mutual

/-- `JSONResponse` renders neither NaN nor an infinity nor a lone surrogate. -/
def Json.renders : Json → Bool
  | .nonfinite _ => false
  | .surrogates _ => false
  | .arr items => rendersItems items
  | .obj fields => rendersFields fields
  | .null | .bool _ | .int _ | .float _ | .str _ => true

def Json.rendersItems : List Json → Bool
  | [] => true
  | item :: rest => item.renders && rendersItems rest

def Json.rendersFields : List (String × Json) → Bool
  | [] => true
  | (_,value) :: rest => value.renders && rendersFields rest

end

section Rows
variable (rt : Runtime) (knownActions : List String) (failRows : List RowFailure)

/-- The loop over the rows: those it appends to `uploads`, also when it raises
later, and how it ends. -/
def acceptRows : ℕ → List Json → List Json × Except PyError (List Json × List Json)
  | _, [] => ([],.ok ([],[]))
  | index, row :: rest =>
    match rowCode rt knownActions failRows index row with
    | .error e => ([],.error e)
    | .ok (some code) =>
      let (accepted,result) := acceptRows (index + 1) rest
      (accepted,result.map fun r => (.obj [] :: r.1,rowError index code :: r.2))
    | .ok none =>
      match acceptedEntry row with
      | .error e => ([row],.error e)
      | .ok entry =>
        let (accepted,result) := acceptRows (index + 1) rest
        (row :: accepted,result.map fun r => (entry :: r.1,r.2))

end Rows

/-- The body of an injected HTTP error. -/
def injectedError (code : ℕ) : Json :=
  .obj [("error",.obj [("code",.int code),("message",.str ("injected " ++ toString code)),
    ("status",.str (if code = 401 then "UNAUTHENTICATED" else if code = 429 then "RESOURCE_EXHAUSTED"
      else "INTERNAL"))])]

/-- What the framework answers after an exception. -/
def internalError : HttpReply := .response 500 .valueError

def renderedResponse (status : ℕ) (body : Json) : HttpReply :=
  if body.renders then .response status (.value body) else internalError

namespace MockServer
variable (rt : Runtime) (s : MockServer)

/-- `create_app`; an empty set is no set. -/
def createApp (knownActions : List String) (initialMode : MockMode) : MockServer where
  knownActions := if knownActions = [] then ["closed_won","qualified_lead"] else knownActions
  control := ⟨initialMode,[],none⟩
  uploads := []
  requestCount := 0

/-- The control that applies to this request, consuming one of its `times`. -/
def takeControl : Control × MockServer :=
  match s.control.times with
  | none => (s.control,s)
  | some n =>
    if n ≤ 0 then (.plain,{ s with control := .plain })
    else (s.control,{ s with control := { s.control with times := some (n - 1) } })

/-- `upload` up to the point where it awaits the body. -/
def arrive : Control × MockServer := takeControl { s with requestCount := s.requestCount + 1 }

/-- The rows that a request with this body has accepted, and its answer. -/
def answer (control : Control) (body : Loaded) : List Json × HttpReply :=
  match control.mode.httpCode with
  | some code => ([],renderedResponse code (injectedError code))
  | none =>
    if control.mode = .malformed then ([],.response 200 .valueError) else
    match body with
    | .value payload =>
      match payload.getD "conversions" .null with
      | .ok (.arr conversions) =>
        match acceptRows rt s.knownActions control.failRows 0 conversions with
        | (accepted,.ok (results,errors)) => (accepted,renderedResponse 200 (uploadResponse results errors))
        | (accepted,.error _) => (accepted,internalError)
      | .ok _ => ([],renderedResponse 400 (.obj [("error",.obj [("code",.int 400),
          ("message",.str "conversions must be a list"),("status",.str "INVALID_ARGUMENT")])]))
      | .error _ => ([],internalError)
    | .valueError | .raised _ => ([],internalError)

/-- `upload` from there on. -/
def respond (control : Control) (body : Loaded) : MockServer × HttpReply :=
  ({ s with uploads := s.uploads ++ (s.answer rt control body).1 },(s.answer rt control body).2)

end MockServer

/-! ## The rows of an answer -/

section Answer
variable {rt : Runtime} {knownActions : List String} {failRows : List RowFailure} {index : ℕ}

/-- The loop ends as the one that only looks at the rows. -/
theorem acceptRows_result (conversions : List Json) : (acceptRows rt knownActions failRows index conversions).2 =
    uploadRows rt knownActions failRows index conversions := by
  induction conversions generalizing index with
  | nil => rfl
  | cons row rest ih =>
    have ih := @ih (index + 1)
    unfold acceptRows uploadRows
    cases rowCode rt knownActions failRows index row with
    | error e => rfl
    | ok code =>
      cases code with
      | some code =>
        dsimp only [bind, Except.bind]
        rw [← ih]
        cases (acceptRows rt knownActions failRows (index + 1) rest).2 <;> rfl
      | none =>
        dsimp only [bind, Except.bind]
        cases acceptedEntry row with
        | error e => rfl
        | ok entry =>
          dsimp only
          rw [← ih]
          cases (acceptRows rt knownActions failRows (index + 1) rest).2 <;> rfl

theorem rowCode_none {row : Json} (h : rowCode rt knownActions failRows index row = .ok none) :
    validateRow rt row knownActions = .ok none := by
  unfold rowCode at h
  split at h
  · exact h
  · split at h
    · exact h
    · cases h

/-- It appends rows of the request, in their order. -/
theorem acceptRows_sublist (conversions : List Json) :
    (acceptRows rt knownActions failRows index conversions).1.Sublist conversions := by
  induction conversions generalizing index with
  | nil => exact List.Sublist.refl _
  | cons first rest ih =>
    unfold acceptRows
    split
    · exact List.nil_sublist _
    · exact ih.cons _
    · split
      · exact (List.nil_sublist rest).cons_cons first
      · exact ih.cons_cons first

/-- Every row it appends passed the check. -/
theorem acceptRows_valid (conversions : List Json) :
    ∀ row ∈ (acceptRows rt knownActions failRows index conversions).1, validateRow rt row knownActions = .ok none := by
  induction conversions generalizing index with
  | nil => exact fun row h => (by cases h)
  | cons first rest ih =>
    intro row h
    unfold acceptRows at h
    split at h
    · cases h
    · exact ih row h
    · next hcode =>
      split at h
      · rw [List.mem_singleton.mp h]
        exact rowCode_none hcode
      · rcases List.mem_cons.mp h with rfl | h
        · exact rowCode_none hcode
        · exact ih row h

/-- Where it ends well, the rows it appended are those with an entry. -/
theorem acceptRows_ok {conversions accepted results errors : List Json}
    (h : acceptRows rt knownActions failRows index conversions = (accepted,.ok (results,errors))) :
    results.length = conversions.length ∧
      accepted = ((conversions.zip results).filter fun p => p.2.truthy).map Prod.fst := by
  induction conversions generalizing index accepted results errors with
  | nil =>
    cases h
    exact ⟨rfl,rfl⟩
  | cons row rest ih =>
    unfold acceptRows at h
    split at h
    · cases h
    · generalize htail : acceptRows rt knownActions failRows (index + 1) rest = tail at h
      obtain ⟨accepted',_ | ⟨results',errors'⟩⟩ := tail
      · cases h
      · cases h
        obtain ⟨hlen,rfl⟩ := ih htail
        exact ⟨by simp [hlen],by simp [Json.truthy]⟩
    · split at h
      · cases h
      · next entry hentry =>
        generalize htail : acceptRows rt knownActions failRows (index + 1) rest = tail at h
        obtain ⟨accepted',_ | ⟨results',errors'⟩⟩ := tail
        · cases h
        · cases h
          obtain ⟨hlen,rfl⟩ := ih htail
          exact ⟨by simp [hlen],by simp [acceptedEntry_truthy hentry]⟩

variable (rt) in
/-- The rows that a request has accepted are rows of its list, and passed the check. -/
theorem MockServer.answer_accepted (s : MockServer) (control : Control) (body : Loaded) :
    ((s.answer rt control body).1 = [] ∨ ∃ payload conversions, body = .value payload ∧
      payload.getD "conversions" .null = .ok (.arr conversions) ∧ (s.answer rt control body).1.Sublist conversions) ∧
      ∀ row ∈ (s.answer rt control body).1, validateRow rt row s.knownActions = .ok none := by
  unfold answer
  split
  · exact ⟨Or.inl rfl,by simp⟩
  · split
    · exact ⟨Or.inl rfl,by simp⟩
    · split
      · next payload =>
        split
        · next conversions hp =>
          have hsub : (acceptRows rt s.knownActions control.failRows 0 conversions).1.Sublist conversions :=
            acceptRows_sublist conversions
          have hvalid : ∀ row ∈ (acceptRows rt s.knownActions control.failRows 0 conversions).1,
              validateRow rt row s.knownActions = .ok none := acceptRows_valid conversions
          split <;> next heq =>
            rw [heq] at hsub hvalid
            exact ⟨Or.inr ⟨payload,conversions,rfl,hp,hsub⟩,hvalid⟩
        · exact ⟨Or.inl rfl,by simp⟩
        · exact ⟨Or.inl rfl,by simp⟩
      · exact ⟨Or.inl rfl,by simp⟩
      · exact ⟨Or.inl rfl,by simp⟩

end Answer

/-! ## What the client makes of an answer -/

/-- The rows that the client, given this answer, takes for accepted. -/
def reportedRows (repr : Json → String) (reply : HttpReply) (conversions : List Json) : List Json :=
  match httpUpload repr (fun _ => reply) conversions with
  | .ok (.result rows) => ((conversions.zip rows).filter fun p => p.2.ok).map Prod.fst
  | _ => []

section Client
variable {rt : Runtime} (repr : Json → String)

/-- Numbering the results does not change which rows are kept. -/
theorem filter_zip_mapIdx (f : ℕ → Json → RowResult) (hf : ∀ i j, (f i j).ok = j.truthy)
    (conversions results : List Json) :
    ((conversions.zip (results.mapIdx f)).filter fun p => p.2.ok).map Prod.fst =
      ((conversions.zip results).filter fun p => p.2.truthy).map Prod.fst := by
  induction results generalizing f conversions with
  | nil => simp
  | cons r rest ih =>
    cases conversions with
    | nil => rfl
    | cons c cs =>
      have ih := ih (fun i => f (i + 1)) (fun i j => hf (i + 1) j) cs
      simp only [List.mapIdx_cons, List.zip_cons_cons, List.filter_cons, hf]
      split
      · exact congrArg (c :: ·) ih
      · exact ih

/-- An answer that is no 200 reports no row. -/
theorem reportedRows_failed {status : ℕ} (hs : status ≠ 200) (body : Loaded) (conversions : List Json) :
    reportedRows repr (.response status body) conversions = [] := by
  unfold reportedRows httpUpload
  dsimp only
  rw [if_pos hs]
  split
  · next heq => split at heq <;> cases heq
  · rfl

theorem reportedRows_malformed (conversions : List Json) :
    reportedRows repr (.response 200 .valueError) conversions = [] := rfl

theorem injectedError_renders (code : ℕ) : (injectedError code).renders = true := rfl

/-- The client reads the answer to rows that were all looked at. -/
theorem httpUpload_rows {knownActions : List String} {failRows : List RowFailure}
    {conversions accepted results errors : List Json}
    (h : acceptRows rt knownActions failRows 0 conversions = (accepted,.ok (results,errors))) :
    ∃ details, httpUpload repr (fun _ => .response 200 (.value (uploadResponse results errors))) conversions =
      .ok (.result (results.mapIdx (rowResult details))) := by
  have hupload : uploadRows rt knownActions failRows 0 conversions = .ok (results,errors) := by
    rw [← acceptRows_result, h]
  obtain ⟨codes,_,_,rfl,_⟩ := uploadRows_ok hupload
  have hparse := parseBatchResponse_uploadResponse repr results (errorsFrom 0 codes)
  rw [(acceptRows_ok h).1] at hparse
  refine ⟨((errorsFrom 0 codes).map readError).reverse,?_⟩
  unfold httpUpload readResponse
  dsimp only
  rw [hparse]
  rfl

variable (rt) in
/-- The client takes for accepted exactly the rows that were, unless an exception
on the way hides all of them from it. -/
theorem MockServer.answer_reported (s : MockServer) (control : Control) {payload : Json} {conversions : List Json}
    (hp : payload.getD "conversions" .null = .ok (.arr conversions)) :
    reportedRows repr (s.answer rt control (.value payload)).2 conversions =
        (s.answer rt control (.value payload)).1 ∨
      (s.answer rt control (.value payload)).2 = internalError := by
  unfold answer
  split
  · next code hcode =>
    have hne : code ≠ 200 := by
      rintro rfl
      cases hm : control.mode <;> simp [hm,MockMode.httpCode] at hcode
    refine Or.inl ?_
    rw [renderedResponse, injectedError_renders, if_pos rfl]
    exact reportedRows_failed repr hne _ _
  · split
    · exact Or.inl (reportedRows_malformed repr conversions)
    · simp only [hp]
      cases hrows : acceptRows rt s.knownActions control.failRows 0 conversions with
      | mk accepted result =>
        cases result with
        | error e => exact Or.inr rfl
        | ok r =>
          obtain ⟨results,errors⟩ := r
          dsimp only
          rw [renderedResponse]
          split
          · refine Or.inl ?_
            obtain ⟨details,hupload⟩ := httpUpload_rows repr hrows
            obtain ⟨_,rfl⟩ := acceptRows_ok hrows
            rw [reportedRows, hupload]
            exact filter_zip_mapIdx _ (fun i j => rowResult_ok _ i j) conversions results
          · exact Or.inr rfl

theorem reportedRows_internalError (conversions : List Json) :
    reportedRows repr internalError conversions = [] := reportedRows_failed repr (by decide) _ conversions

end Client

end ConversionGateway
