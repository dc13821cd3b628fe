import ConversionGateway.Library.Judgement
import ConversionGateway.Model.ErrorDetails

/-! # The HTTP upload client

`upload` turns whatever a request ends with into results or into one of two
errors. Of a body it only expects to fail with a `ValueError`, a `KeyError` or a
`TypeError`; what else the walk over the body can raise depends on the shapes met
on the way.
-/
namespace ConversionGateway

/-! ## The client -/

/-- How the request of the HTTP library ends. -/
inductive HttpReply
  | timeout
  | transportError (name : String)
  | response (status : ℕ) (body : Loaded)

def transientStatuses : List ℕ := [408,429,500,502,503,504]

def classifyHttpStatus (statusCode : ℕ) : FailureClass :=
  if statusCode ∈ transientStatuses then .transient else .permanent

/-- Whether `except (ValueError, KeyError, TypeError)` catches it. -/
def PyError.isMalformed : PyError → Bool
  | .valueError | .keyError _ | .typeError | .unicodeEncodeError => true
  | _ => false

section Client
variable (repr : Json → String)

/-- `parse_batch_response(response.json(), …)` -/
def readResponse (body : Loaded) (expectedRows : ℕ) : Except PyError (List RowResult) :=
  match body with
  | .value payload => parseBatchResponse repr payload expectedRows
  | .valueError => .error .valueError
  | .raised e => .error e

/-- `HttpUploadClient.upload`; `post` sends the request. -/
def httpUpload (post : Json → HttpReply) (conversions : List Json) : Except PyError UploadOutcome :=
  match post (uploadRequest conversions) with
  | .timeout => .ok (.transient "timeout")
  | .transportError name => .ok (.transient ("connection:" ++ name))
  | .response status body =>
    if status ≠ 200 then
      let reason := "http_" ++ toString status
      if classifyHttpStatus status = .transient then .ok (.transient reason) else .ok (.permanent reason)
    else
      match readResponse repr body conversions.length with
      | .ok rows => .ok (.result rows)
      | .error e => if e.isMalformed then .ok (.transient "malformed_response") else .error e

end Client

/-! ## The shapes of a body -/

namespace Json

/-- The value has the method `get`. -/
def IsObject : Json → Prop
  | obj _ => True
  | _ => False

/-- A `for` loop can go over the value. -/
def IsIterable : Json → Prop
  | arr _ | obj _ | str _ | surrogates _ => True
  | _ => False

/-- The field of an object; every other value counts as the empty object. -/
def field (j : Json) (key : String) (fallback : Json) : Json := (j.get key).getD fallback

/-- What a loop over the value visits, which is nothing where there can be none. -/
def visits (j : Json) : List Json :=
  match j.iterate with
  | .ok items => items
  | .error _ => []

theorem getD_isObject {j : Json} (h : j.IsObject) (key : String) (fallback : Json) :
    j.getD key fallback = .ok (j.field key fallback) := by
  cases j with
  | obj fields => rfl
  | null | bool | int | float | nonfinite | str | surrogates | arr => cases h

theorem getD_not_isObject {j : Json} (h : ¬ j.IsObject) (key : String) (fallback : Json) :
    j.getD key fallback = .error .attributeError := by
  cases j with
  | obj fields => exact absurd trivial h
  | null | bool | int | float | nonfinite | str | surrogates | arr => rfl

theorem iterate_isIterable {j : Json} (h : j.IsIterable) : j.iterate = .ok j.visits := by
  cases j with
  | arr | obj | str | surrogates => rfl
  | null | bool | int | float | nonfinite => cases h

theorem iterate_not_isIterable {j : Json} (h : ¬ j.IsIterable) : j.iterate = .error .typeError := by
  cases j with
  | arr | obj | str | surrogates => exact absurd trivial h
  | null | bool | int | float | nonfinite => rfl

theorem visits_not_isIterable {j : Json} (h : ¬ j.IsIterable) : j.visits = [] := by
  unfold visits
  rw [iterate_not_isIterable h]

theorem field_not_isObject {j : Json} (h : ¬ j.IsObject) (key : String) (fallback : Json) :
    j.field key fallback = fallback := by
  cases j with
  | obj fields => exact absurd trivial h
  | null | bool | int | float | nonfinite | str | surrogates | arr => rfl

/-- `element.get("fieldName") == "conversions" and isinstance(element.get("index"), int)` -/
def GivesIndex (element : Json) : Prop :=
  (element.field "fieldName" .null).asString = some "conversions" ∧
    ((∃ i, element.field "index" .null = .int i) ∨ ∃ b, element.field "index" .null = .bool b)

/-- The value in which `_row_index` looks for the elements of an error. -/
def location (err : Json) : Json := orEmpty (err.field "location" .null)

def fieldPathElements (err : Json) : Json := err.location.field "fieldPathElements" (.arr [])

/-- An element that is passed over without naming a row. -/
def Passes (element : Json) : Prop := element.IsObject ∧ ¬ element.GivesIndex

/-- An error that is located at a row. -/
def Located (err : Json) : Prop := Outcome.Reaches Passes GivesIndex err.fieldPathElements.visits

/-- A step on the way to the row of an error is not an object. -/
def PathStumbles (err : Json) : Prop :=
  ¬ err.IsObject ∨ ¬ err.location.IsObject ∨
    Outcome.Reaches Passes (fun element => ¬ element.IsObject) err.fieldPathElements.visits

/-- So is one of these steps, or the code of a located error. -/
def ErrorStumbles (err : Json) : Prop :=
  err.PathStumbles ∨ (err.Located ∧ ¬ (err.field "errorCode" (.obj [])).IsObject)

/-- An error that is read. -/
def ErrorReads (err : Json) : Prop := ¬ err.ErrorStumbles ∧ err.fieldPathElements.IsIterable

def DetailStumbles (detail : Json) : Prop :=
  ¬ detail.IsObject ∨ Outcome.Reaches ErrorReads ErrorStumbles (detail.field "errors" (.arr [])).visits

def DetailReads (detail : Json) : Prop :=
  detail.IsObject ∧ (detail.field "errors" (.arr [])).IsIterable ∧
    ∀ err ∈ (detail.field "errors" (.arr [])).visits, err.ErrorReads

/-- `body.get("partialFailureError") or {}` -/
def failure (body : Json) : Json := orEmpty (body.field "partialFailureError" .null)

/-- The body answers for every row. -/
def Counts (body : Json) (n : ℕ) : Prop := ∃ results, body.get "results" = some (.arr results) ∧ results.length = n

/-- The walk over the errors of an otherwise well formed body comes to a value that
should be an object and is not, before it comes to one that no loop can go over. -/
def BodyStumbles (body : Json) (n : ℕ) : Prop :=
  body.Counts n ∧ (¬ body.failure.IsObject ∨
    Outcome.Reaches DetailReads DetailStumbles (body.failure.field "details" (.arr [])).visits)

end Json

/-! ## The walk over the body -/

/-- A run that can raise an `AttributeError`, besides what counts as malformed. -/
abbrev Walk {α : Type} (run : Except PyError α) (passes fails : Prop) : Prop :=
  Outcome.Judged .attributeError (fun e => e.isMalformed = true) run passes fails

section Walk
variable (repr : Json → String)

theorem getD_bind {α : Type} {f : Json → Except PyError α} {passes fails : Prop} (j : Json) (key : String)
    (fallback : Json) (hf : Walk (f (j.field key fallback)) passes fails) :
    Walk (j.getD key fallback >>= f) (j.IsObject ∧ passes) (¬ j.IsObject ∨ fails ∧ j.IsObject) := by
  by_cases h : j.IsObject
  · rw [Json.getD_isObject h]
    exact hf.congr (by simp [h]) (by simp [h])
  · rw [Json.getD_not_isObject h]
    exact Outcome.Judged.error.congr (by simp [h]) (by simp [h])

theorem iterate_bind {α : Type} {f : List Json → Except PyError α} {passes fails : Prop} (j : Json)
    (hf : Walk (f j.visits) passes fails) :
    Walk (j.iterate >>= f) (j.IsIterable ∧ passes) (fails ∧ j.IsIterable) := by
  by_cases h : j.IsIterable
  · rw [Json.iterate_isIterable h]
    exact hf.congr (by simp [h]) (by simp [h])
  · rw [Json.iterate_not_isIterable h]
    have hraise : Walk (.error .typeError : Except PyError α) False False :=
      Outcome.Judged.raise (by decide) rfl
    exact hraise.congr (by simp [h]) (by simp [h])

theorem elementIndex_not_isObject {element : Json} (h : ¬ element.IsObject) (rest : List Json) :
    elementIndex (element :: rest) = .error .attributeError := by
  unfold elementIndex
  rw [Json.getD_not_isObject h]
  rfl

theorem elementIndex_givesIndex {element : Json} (h : element.GivesIndex) (rest : List Json) :
    element.IsObject ∧ ∃ i, elementIndex (element :: rest) = .ok (some i) := by
  have hobj : element.IsObject := by
    by_contra hobj
    have hname := h.1
    rw [Json.field_not_isObject hobj] at hname
    cases hname
  refine ⟨hobj,?_⟩
  unfold elementIndex
  rw [Json.getD_isObject hobj, Json.getD_isObject hobj]
  simp only [bind, Except.bind, if_pos h.1]
  rcases h.2 with ⟨i,hi⟩ | ⟨b,hb⟩
  · rw [hi]
    exact ⟨i,rfl⟩
  · rw [hb]
    exact ⟨_,rfl⟩

theorem elementIndex_passes {element : Json} (h : element.Passes) (rest : List Json) :
    elementIndex (element :: rest) = elementIndex rest := by
  obtain ⟨hobj,hgives⟩ := h
  conv => lhs; unfold elementIndex
  rw [Json.getD_isObject hobj, Json.getD_isObject hobj]
  simp only [bind, Except.bind]
  split
  · next hname =>
    cases hindex : element.field "index" .null with
    | int i => exact absurd ⟨hname,Or.inl ⟨i,hindex⟩⟩ hgives
    | bool b => exact absurd ⟨hname,Or.inr ⟨b,hindex⟩⟩ hgives
    | null | float | nonfinite | str | surrogates | arr | obj => rfl
  · rfl

/-- Of the elements, the first that does not pass decides. -/
theorem elementIndex_cases (elements : List Json) :
    (elementIndex elements = .error .attributeError ∧
        Outcome.Reaches Json.Passes (fun element => ¬ element.IsObject) elements ∧
        ¬ Outcome.Reaches Json.Passes Json.GivesIndex elements) ∨
      (∃ i, elementIndex elements = .ok (some i) ∧
        ¬ Outcome.Reaches Json.Passes (fun element => ¬ element.IsObject) elements ∧
        Outcome.Reaches Json.Passes Json.GivesIndex elements) ∨
      (elementIndex elements = .ok none ∧
        ¬ Outcome.Reaches Json.Passes (fun element => ¬ element.IsObject) elements ∧
        ¬ Outcome.Reaches Json.Passes Json.GivesIndex elements) := by
  induction elements with
  | nil => exact Or.inr (Or.inr ⟨rfl,Outcome.not_reaches_nil,Outcome.not_reaches_nil⟩)
  | cons element rest ih =>
    simp only [Outcome.reaches_cons]
    by_cases hobj : element.IsObject
    · by_cases hgives : element.GivesIndex
      · obtain ⟨_,i,hi⟩ := elementIndex_givesIndex hgives rest
        have hpass : ¬ element.Passes := fun h => h.2 hgives
        exact Or.inr (Or.inl ⟨i,hi,by simp [hobj,hpass],Or.inl hgives⟩)
      · have hpass : element.Passes := ⟨hobj,hgives⟩
        rw [elementIndex_passes hpass]
        simpa [hobj,hgives,hpass] using ih
    · have hgives : ¬ element.GivesIndex := fun h => hobj (elementIndex_givesIndex h rest).1
      have hpass : ¬ element.Passes := fun h => hobj h.1
      exact Or.inl ⟨elementIndex_not_isObject hobj rest,Or.inl hobj,by simp [hgives,hpass]⟩

theorem elementIndex_walk (elements : List Json) :
    Walk (elementIndex elements) (¬ Outcome.Reaches Json.Passes (fun element => ¬ element.IsObject) elements)
      (Outcome.Reaches Json.Passes (fun element => ¬ element.IsObject) elements) := by
  rcases elementIndex_cases elements with ⟨he,hr,_⟩ | ⟨i,he,hr,_⟩ | ⟨he,hr,_⟩
  · rw [he]
    exact Outcome.Judged.error.congr (by simp [hr]) (by simp [hr])
  · rw [he]
    exact (Outcome.Judged.ok _).congr (by simp [hr]) (by simp [hr])
  · rw [he]
    exact (Outcome.Judged.ok _).congr (by simp [hr]) (by simp [hr])

/-- Where nothing is visited, no item is reached. -/
theorem reaches_visits {pass goal : Json → Prop} {j : Json} (h : Outcome.Reaches pass goal j.visits) :
    j.IsIterable := by
  by_contra hi
  rw [Json.visits_not_isIterable hi] at h
  exact Outcome.not_reaches_nil h

theorem rowIndex_walk (err : Json) :
    Walk (rowIndex err) (¬ err.PathStumbles ∧ err.fieldPathElements.IsIterable) err.PathStumbles := by
  have helements := iterate_bind _ (elementIndex_walk err.fieldPathElements.visits)
  have hlocation : Walk (err.location.getD "fieldPathElements" (.arr []) >>=
    fun elements => elements.iterate >>= elementIndex) _ _ := getD_bind _ _ _ helements
  have herr : Walk (rowIndex err) _ _ := getD_bind err "location" .null hlocation
  refine herr.congr ?_ ?_
  · unfold Json.PathStumbles
    tauto
  · have hreaches : Outcome.Reaches Json.Passes (fun element => ¬ element.IsObject) err.fieldPathElements.visits →
        err.fieldPathElements.IsIterable := reaches_visits
    unfold Json.PathStumbles
    tauto

theorem rowIndex_ok {err : Json} {index : Option ℤ} (h : rowIndex err = .ok index) :
    elementIndex err.fieldPathElements.visits = .ok index := by
  have hw := (rowIndex_walk err).isOk.mp ⟨index,h⟩
  have hobj : err.IsObject := not_not.mp fun ho => hw.1 (Or.inl ho)
  have hloc : err.location.IsObject := not_not.mp fun hl => hw.1 (Or.inr (Or.inl hl))
  unfold rowIndex at h
  rw [Json.getD_isObject hobj] at h
  change (err.location.getD "fieldPathElements" (.arr []) >>= fun elements =>
    elements.iterate >>= elementIndex) = .ok index at h
  rw [Json.getD_isObject hloc] at h
  change (err.fieldPathElements.iterate >>= elementIndex) = .ok index at h
  rw [Json.iterate_isIterable hw.2] at h
  exact h

theorem errorCode_walk {err : Json} (hobj : err.IsObject) :
    Walk (errorCode err) (err.field "errorCode" (.obj [])).IsObject (¬ (err.field "errorCode" (.obj [])).IsObject) := by
  unfold errorCode
  rw [Json.getD_isObject hobj]
  change Walk (firstValue (err.field "errorCode" (.obj []))) _ _
  cases err.field "errorCode" (.obj []) with
  | obj fields =>
    cases fields <;> exact (Outcome.Judged.ok _).congr (by simp [Json.IsObject]) (by simp [Json.IsObject])
  | null | bool | int | float | nonfinite | str | surrogates | arr =>
    exact Outcome.Judged.error.congr (by simp [Json.IsObject]) (by simp [Json.IsObject])

theorem errorEntry_walk (err : Json) : Walk (errorEntry repr err) err.ErrorReads err.ErrorStumbles := by
  have hw := rowIndex_walk err
  have hlocated : err.Located → err.fieldPathElements.IsIterable := reaches_visits
  unfold Json.ErrorReads Json.ErrorStumbles
  cases hrow : rowIndex err with
  | error e =>
    have hentry : errorEntry repr err = .error e := by
      unfold errorEntry
      rw [hrow]
      rfl
    rw [hrow] at hw
    rw [hentry]
    have hstop : ¬ (¬ err.PathStumbles ∧ err.fieldPathElements.IsIterable) := fun h => by
      obtain ⟨a,ha⟩ := hw.isOk.mpr h
      cases ha
    have hpath : err.Located → err.PathStumbles := fun hl => not_not.mp fun hp => hstop ⟨hp,hlocated hl⟩
    exact hw.retype.congr (by tauto) (or_iff_left_of_imp fun h => hpath h.1).symm
  | ok index =>
    obtain ⟨hpath,hiter⟩ := hw.isOk.mp ⟨index,hrow⟩
    have hobj : err.IsObject := not_not.mp fun ho => hpath (Or.inl ho)
    have hcases := elementIndex_cases err.fieldPathElements.visits
    rw [rowIndex_ok hrow] at hcases
    cases index with
    | none =>
      have hentry : errorEntry repr err = .ok none := by
        unfold errorEntry
        rw [hrow]
        rfl
      have hnot : ¬ err.Located := by
        rcases hcases with ⟨h,_⟩ | ⟨i,h,_⟩ | ⟨_,_,h⟩
        · cases h
        · cases h
        · exact h
      rw [hentry]
      exact (Outcome.Judged.ok _).congr (by tauto) (by tauto)
    | some i =>
      have hloc : err.Located := by
        rcases hcases with ⟨h,_⟩ | ⟨_,_,_,h⟩ | ⟨h,_⟩
        · cases h
        · exact h
        · cases h
      have hentry : errorEntry repr err = errorCode err >>= fun code =>
          .ok (some (i,pyStr repr code,pyStr repr (err.field "message" (.str "")))) := by
        unfold errorEntry
        rw [hrow, Json.getD_isObject hobj]
        rfl
      rw [hentry]
      refine ((errorCode_walk hobj).bind fun code _ => Outcome.Judged.ok _).congr ?_ ?_
      · tauto
      · tauto

theorem collectError_walk (errors : ErrorsByIndex) (err : Json) :
    Walk (collectError repr errors err) err.ErrorReads err.ErrorStumbles := by
  rw [collectError_eq]
  exact ((errorEntry_walk repr err).bind fun entry _ => Outcome.Judged.ok _).congr (by simp) (by simp)

theorem collectDetail_walk (errors : ErrorsByIndex) (detail : Json) :
    Walk (collectDetail repr errors detail) detail.DetailReads detail.DetailStumbles := by
  have hloop := Outcome.Judged.loop (collectError_walk repr) (detail.field "errors" (.arr [])).visits errors
  have hdetail : Walk (collectDetail repr errors detail) _ _ :=
    getD_bind detail "errors" (.arr []) (iterate_bind _ hloop)
  refine hdetail.congr Iff.rfl ?_
  have hreaches : Outcome.Reaches Json.ErrorReads Json.ErrorStumbles (detail.field "errors" (.arr [])).visits →
      (detail.field "errors" (.arr [])).IsIterable := reaches_visits
  unfold Json.DetailStumbles
  tauto

/-- A body that does not answer for every row is malformed. -/
theorem parseBatchResponse_uncounted {body : Json} {n : ℕ} (h : ¬ body.Counts n) :
    ∃ e, parseBatchResponse repr body n = .error e ∧ e.isMalformed = true := by
  unfold parseBatchResponse
  cases body with
  | obj fields =>
    simp only [Json.subscript]
    cases hv : fields.lookup "results" with
    | none => exact ⟨.keyError "results",rfl,rfl⟩
    | some value =>
      cases value with
      | arr results =>
        have hlen : results.length ≠ n := fun hlen => h ⟨results,hv,hlen⟩
        refine ⟨.valueError,?_,rfl⟩
        simp only [bind, Except.bind, if_pos hlen]
        rfl
      | null | bool | int | float | nonfinite | str | surrogates | obj => exact ⟨.valueError,rfl,rfl⟩
  | null | bool | int | float | nonfinite | str | surrogates | arr => exact ⟨.typeError,rfl,rfl⟩

/-- The details of every other body are walked over. -/
theorem parseBatchResponse_counted {body : Json} {results : List Json}
    (h : body.get "results" = some (.arr results)) :
    body.IsObject ∧ parseBatchResponse repr body results.length =
      body.failure.getD "details" (.arr []) >>= fun details => details.iterate >>= fun visited =>
        Outcome.loop (collectDetail repr) [] visited >>= fun errors => .ok (results.mapIdx (rowResult errors)) := by
  have hobj : body.IsObject := by
    by_contra hobj
    cases body with
    | obj fields => exact hobj trivial
    | null | bool | int | float | nonfinite | str | surrogates | arr => cases h
  refine ⟨hobj,?_⟩
  unfold parseBatchResponse
  rw [subscript_ok.mpr h, Json.getD_isObject hobj]
  simp only [bind, Except.bind, ne_eq, not_true_eq_false, if_false]
  rfl

theorem parseBatchResponse_walk (body : Json) (n : ℕ) :
    ∃ passes, Walk (parseBatchResponse repr body n) passes (body.BodyStumbles n) := by
  by_cases hcounts : body.Counts n
  · obtain ⟨results,hv,rfl⟩ := id hcounts
    obtain ⟨hobj,hparse⟩ := parseBatchResponse_counted repr hv
    have hloop := Outcome.Judged.loop (collectDetail_walk repr) (body.failure.field "details" (.arr [])).visits []
    have hrows : Walk (Outcome.loop (collectDetail repr) [] (body.failure.field "details" (.arr [])).visits >>=
        fun errors => .ok (results.mapIdx (rowResult errors))) _ _ := hloop.bind fun _ _ => Outcome.Judged.ok _
    rw [hparse]
    refine ⟨_,Outcome.Judged.congr (getD_bind _ _ _ (iterate_bind _ hrows)) Iff.rfl ?_⟩
    have hreaches : Outcome.Reaches Json.DetailReads Json.DetailStumbles
          (body.failure.field "details" (.arr [])).visits →
        (body.failure.field "details" (.arr [])).IsIterable := reaches_visits
    unfold Json.BodyStumbles
    tauto
  · obtain ⟨e,he,hm⟩ := parseBatchResponse_uncounted repr hcounts
    rw [he]
    have hne : e ≠ .attributeError := fun heq => by
      rw [heq] at hm
      cases hm
    have hraise : Walk (.error e : Except PyError (List RowResult)) False False :=
      Outcome.Judged.raise hne hm
    exact ⟨False,hraise.congr Iff.rfl (by simp [Json.BodyStumbles,hcounts])⟩

end Walk

/-! ## The contract -/

/-- The call ends with one result for each conversion, in their order, or with one
of the two errors of the contract. -/
def MeetsContract (n : ℕ) : Except PyError UploadOutcome → Prop
  | .ok (.result rows) => rows.length = n ∧ ∀ (i : ℕ) (row : RowResult), rows[i]? = some row → row.index = i
  | .ok (.transient _) => True
  | .ok (.permanent _) => True
  | .error _ => False

theorem rowResult_index (errors : ErrorsByIndex) (index : ℕ) (result : Json) :
    (rowResult errors index result).index = index := by
  unfold rowResult
  split <;> rfl

/-- Of the bodies of a 200 response, those that the walk stumbles over break the contract. -/
theorem httpUpload_iff (repr : Json → String) (post : Json → HttpReply) (conversions : List Json)
    (body : Json) (h : post (uploadRequest conversions) = .response 200 (.value body)) :
    MeetsContract conversions.length (httpUpload repr post conversions) ↔
      ¬ body.BodyStumbles conversions.length := by
  obtain ⟨passes,hw⟩ := parseBatchResponse_walk repr body conversions.length
  have hcall : httpUpload repr post conversions =
      match parseBatchResponse repr body conversions.length with
      | .ok rows => .ok (.result rows)
      | .error e => if e.isMalformed then .ok (.transient "malformed_response") else .error e := by
    unfold httpUpload
    rw [h]
    rfl
  rw [hcall, ← hw.isError]
  cases hparse : parseBatchResponse repr body conversions.length with
  | ok rows =>
    obtain ⟨results,errs,_,hlen,_,_,rfl⟩ := parseBatchResponse_ok.mp hparse
    refine iff_of_true ⟨by rw [List.length_mapIdx, hlen],fun i row hrow => ?_⟩ (by simp)
    rw [List.getElem?_mapIdx] at hrow
    obtain ⟨entry,_,rfl⟩ := Option.map_eq_some_iff.mp hrow
    exact rowResult_index _ _ _
  | error e =>
    dsimp only
    by_cases hm : e.isMalformed = true
    · rw [if_pos hm]
      refine iff_of_true trivial fun heq => ?_
      obtain rfl := Except.error.inj heq
      cases hm
    · rw [if_neg hm]
      refine iff_of_false id (not_not.mpr ?_)
      rw [(hw.other e hparse).resolve_right hm]

/-- A server that answers every request with the body. -/
def answers (body : Json) (_ : Json) : HttpReply := .response 200 (.value body)

theorem httpUpload_iff_success :
    MeetsContract 1 (httpUpload (fun _ => "") (answers (successBody [])) [.null]) := by
  refine (httpUpload_iff (fun _ => "") (answers (successBody [])) [.null] (successBody []) rfl).mpr ?_
  rintro ⟨_,hfailure | hdetails⟩
  · exact hfailure trivial
  · exact Outcome.not_reaches_nil hdetails

/-- Every row succeeded, but the error of the batch is a text: the exception of the
walk leaves the client. -/
theorem not_meetsContract_text : ∃ body : Json, body = .obj [("results",.arr [.obj [("gclid",.str "a")]]),
      ("partialFailureError",.str "quota")] ∧
    httpUpload (fun _ => "") (answers body) [.null] = .error .attributeError ∧
    ¬ MeetsContract 1 (httpUpload (fun _ => "") (answers body) [.null]) :=
  ⟨_,rfl,rfl,id⟩

end ConversionGateway
