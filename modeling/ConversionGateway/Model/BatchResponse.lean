import ConversionGateway.Model.MockAds
import ConversionGateway.Model.Uploader

/-! # The response of the platform, read back

`parseBatchResponse` maps a response onto the rows that were sent. What the mock
answers is read back as it was meant: encoder and decoder meet in the list of
the rows' codes.
-/
namespace ConversionGateway

section Parse
variable (repr : Json → String)

/-- `str(j)`; of a string it is the string, other values are written by `repr`. Of a
string that is no UTF-8 text only that no column takes it matters here, and the same
holds of NUL, which `Char.ofNat` puts in the place of a surrogate. -/
def pyStr (j : Json) : String :=
  match j with
  | .str s => s
  | .surrogates points => String.ofList (points.map Char.ofNat)
  | j => repr j

/-- `j or {}` -/
def orEmpty (j : Json) : Json := if j.truthy then j else .obj []

/-- The index of the first element that names a row of `conversions`. -/
def elementIndex : List Json → Except PyError (Option ℤ)
  | [] => .ok none
  | element :: rest => do
    let fieldName ← element.getD "fieldName" .null
    if fieldName.asString = some "conversions" then
      match ← element.getD "index" .null with
      | .int i => return some i
      | .bool b => return some (if b then 1 else 0)
      | _ => elementIndex rest
    else elementIndex rest

/-- `_row_index` -/
def rowIndex (err : Json) : Except PyError (Option ℤ) := do
  let location ← err.getD "location" .null
  let elements ← (orEmpty location).getD "fieldPathElements" (.arr [])
  elementIndex (← elements.iterate)

/-- `next(iter(value.values()), "UNKNOWN")` -/
def firstValue (value : Json) : Except PyError Json :=
  match value with
  | .obj [] => .ok (.str "UNKNOWN")
  | .obj (entry :: _) => .ok entry.2
  | _ => .error .attributeError

/-- `errors_by_index`, the latest assignment first. -/
abbrev ErrorsByIndex := List (ℤ × String × String)

def collectError (errors : ErrorsByIndex) (err : Json) : Except PyError ErrorsByIndex := do
  match ← rowIndex err with
  | none => return errors
  | some index =>
    let code ← (← err.getD "errorCode" (.obj [])) |> firstValue
    let message ← err.getD "message" (.str "")
    return (index,pyStr repr code,pyStr repr message) :: errors

def collectDetail (errors : ErrorsByIndex) (detail : Json) : Except PyError ErrorsByIndex := do
  let errs ← detail.getD "errors" (.arr [])
  Outcome.loop (collectError repr) errors (← errs.iterate)

/-- The result of the row at `index`, given its entry of `results`. -/
def rowResult (errors : ErrorsByIndex) (index : ℕ) (result : Json) : RowResult :=
  if result.truthy then ⟨index,true,none,none⟩ else
    let detail := (errors.lookup (index : ℤ)).getD ("UNKNOWN","no error detail for row")
    ⟨index,false,some detail.1,some detail.2⟩

def parseBatchResponse (body : Json) (expectedRows : ℕ) : Except PyError (List RowResult) := do
  match ← body.subscript "results" with
  | .arr results =>
    if results.length ≠ expectedRows then throw .valueError
    let failure ← body.getD "partialFailureError" .null
    let details ← (orEmpty failure).getD "details" (.arr [])
    let errors ← Outcome.loop (collectDetail repr) [] (← details.iterate)
    return results.mapIdx (rowResult errors)
  | _ => throw .valueError

end Parse

/-- The body that the client posts. -/
def uploadRequest (conversions : List Json) : Json :=
  .obj [("conversions",.arr conversions),("partialFailure",.bool true)]

/-! ## The codes of the rows -/

/-- The errors of a list of codes, the first of which is that of row `index`. -/
def errorsFrom : ℕ → List (Option String) → List (ℕ × String)
  | _, [] => []
  | index, none :: rest => errorsFrom (index + 1) rest
  | index, some code :: rest => (index,code) :: errorsFrom (index + 1) rest

theorem errorsFrom_ge {index : ℕ} {codes : List (Option String)} {e : ℕ × String}
    (h : e ∈ errorsFrom index codes) : index ≤ e.1 := by
  induction codes generalizing index with
  | nil => cases h
  | cons c rest ih =>
    cases c with
    | none => exact Nat.le_of_succ_le (ih h)
    | some code =>
      rcases List.mem_cons.mp h with rfl | h
      · exact Nat.le_refl _
      · exact Nat.le_of_succ_le (ih h)

/-- Every row has one error at most. -/
theorem errorsFrom_nodup (index : ℕ) (codes : List (Option String)) :
    ((errorsFrom index codes).map Prod.fst).Nodup := by
  induction codes generalizing index with
  | nil => exact List.nodup_nil
  | cons c rest ih =>
    cases c with
    | none => exact ih (index + 1)
    | some code =>
      refine List.nodup_cons.mpr ⟨fun hm => ?_,ih (index + 1)⟩
      obtain ⟨e,he,hi⟩ := List.mem_map.mp hm
      have hge := errorsFrom_ge he
      omega

theorem mem_errorsFrom {index i : ℕ} {codes : List (Option String)} {code : String}
    (h : codes[i]? = some (some code)) : (index + i,code) ∈ errorsFrom index codes := by
  induction codes generalizing index i with
  | nil => simp at h
  | cons c rest ih =>
    cases i with
    | zero =>
      obtain rfl : c = some code := by simpa using h
      exact List.mem_cons_self
    | succ i =>
      have hrest : (index + 1 + i,code) ∈ errorsFrom (index + 1) rest := ih (by simpa using h)
      have heq : index + 1 + i = index + (i + 1) := by omega
      rw [heq] at hrest
      cases c with
      | none => exact hrest
      | some d => exact List.mem_cons_of_mem _ hrest

/-! ## The mock's side -/

section Encode
variable {rt : Runtime} {knownActions : List String} {failRows : List RowFailure} {index : ℕ}

/-- An accepted row has an entry that is not empty. -/
theorem acceptedEntry_truthy {row entry : Json} (h : acceptedEntry row = .ok entry) : entry.truthy = true := by
  obtain ⟨_,_,h⟩ := Outcome.bind_ok.mp h
  obtain ⟨_,_,h⟩ := Outcome.bind_ok.mp h
  obtain ⟨_,_,h⟩ := Outcome.bind_ok.mp h
  obtain ⟨_,_,h⟩ := Outcome.bind_ok.mp h
  rw [← Outcome.pure_ok.mp h]
  rfl

/-- What the loop returns is given by the codes of the rows. -/
theorem uploadRows_ok {conversions results errors : List Json}
    (h : uploadRows rt knownActions failRows index conversions = .ok (results,errors)) :
    ∃ codes : List (Option String), codes.length = conversions.length ∧
      (∀ i row, conversions[i]? = some row → ∃ c, codes[i]? = some c ∧
        rowCode rt knownActions failRows (index + i) row = .ok c) ∧
      errors = (errorsFrom index codes).map (fun e => rowError e.1 e.2) ∧
      results.map Json.truthy = codes.map Option.isNone := by
  induction conversions generalizing index results errors with
  | nil =>
    cases h
    exact ⟨[],rfl,by simp,rfl,rfl⟩
  | cons row rest ih =>
    obtain ⟨code,hcode,h⟩ := Outcome.bind_ok.mp h
    have hrows {codes : List (Option String)} (hc : ∀ i r, rest[i]? = some r → ∃ c, codes[i]? = some c ∧
        rowCode rt knownActions failRows (index + 1 + i) r = .ok c) (i : ℕ) (r : Json)
        (hr : (row :: rest)[i]? = some r) : ∃ c, (code :: codes)[i]? = some c ∧
          rowCode rt knownActions failRows (index + i) r = .ok c := by
      cases i with
      | zero =>
        obtain rfl : row = r := by simpa using hr
        exact ⟨code,rfl,hcode⟩
      | succ i =>
        obtain ⟨c,hi,hrow⟩ := hc i r (by simpa using hr)
        have heq : index + 1 + i = index + (i + 1) := by omega
        exact ⟨c,by simpa using hi,heq ▸ hrow⟩
    cases code with
    | some code =>
      obtain ⟨⟨rs,es⟩,htail,h⟩ := Outcome.bind_ok.mp h
      cases h
      obtain ⟨codes,hlen,hc,rfl,hr⟩ := ih htail
      exact ⟨some code :: codes,by simp [hlen],hrows hc,rfl,by simp [hr,Json.truthy]⟩
    | none =>
      obtain ⟨entry,hentry,h⟩ := Outcome.bind_ok.mp h
      obtain ⟨⟨rs,es⟩,htail,h⟩ := Outcome.bind_ok.mp h
      cases h
      obtain ⟨codes,hlen,hc,rfl,hr⟩ := ih htail
      exact ⟨none :: codes,by simp [hlen],hrows hc,rfl,by simp [hr,acceptedEntry_truthy hentry]⟩

theorem mockUpload_ok {conversions : List Json} {body : Json}
    (h : mockUpload rt knownActions failRows (uploadRequest conversions) = .ok (200,body)) :
    ∃ results errors, uploadRows rt knownActions failRows 0 conversions = .ok (results,errors) ∧
      body = uploadResponse results errors := by
  obtain ⟨j,hj,h⟩ := Outcome.bind_ok.mp h
  obtain rfl : Json.arr conversions = j := Except.ok.inj hj
  obtain ⟨⟨results,errors⟩,hrows,h⟩ := Outcome.bind_ok.mp h
  cases h
  exact ⟨results,errors,hrows,rfl⟩

end Encode

/-! ## The client's side -/

section Decode
variable (repr : Json → String)

/-- An error of the mock as the client keeps it. -/
def readError (e : ℕ × String) : ℤ × String × String := (e.1,e.2,rowMessage e.1 e.2)

theorem collectError_rowError (errors : ErrorsByIndex) (e : ℕ × String) :
    collectError repr errors (rowError e.1 e.2) = .ok (readError e :: errors) := rfl

theorem collectError_loop (errors : ErrorsByIndex) (es : List (ℕ × String)) :
    Outcome.loop (collectError repr) errors (es.map fun e => rowError e.1 e.2) =
      .ok ((es.map readError).reverse ++ errors) := by
  induction es generalizing errors with
  | nil => rfl
  | cons e rest ih =>
    have hrest := ih (readError e :: errors)
    rw [List.map_cons]
    refine Outcome.loop_cons_ok.mpr ⟨_,collectError_rowError repr errors e,?_⟩
    simpa using hrest

theorem lookup_of_mem {α β : Type} [BEq α] [LawfulBEq α] {l : List (α × β)} {a : α} {b : β}
    (hn : (l.map Prod.fst).Nodup) (h : (a,b) ∈ l) : l.lookup a = some b := by
  induction l with
  | nil => cases h
  | cons p rest ih =>
    obtain ⟨k,v⟩ := p
    obtain ⟨hp,hrest⟩ := List.nodup_cons.mp hn
    rcases List.mem_cons.mp h with heq | h
    · cases heq
      exact List.lookup_cons_self
    · have hne : (a == k) = false := by
        refine beq_false_of_ne fun heq => hp ?_
        have hm : a ∈ rest.map Prod.fst := List.mem_map.mpr ⟨_,h,rfl⟩
        exact heq ▸ hm
      rw [List.lookup_cons, hne]
      exact ih hrest h

theorem readError_lookup {codes : List (Option String)} {i : ℕ} {code : String}
    (h : codes[i]? = some (some code)) :
    ((errorsFrom 0 codes).map readError).reverse.lookup (i : ℤ) = some (code,rowMessage i code) := by
  refine lookup_of_mem ?_ ?_
  · rw [List.map_reverse, List.nodup_reverse, List.map_map]
    have hkeys : Prod.fst ∘ readError = (fun n : ℕ => (n : ℤ)) ∘ Prod.fst := rfl
    rw [hkeys, ← List.map_map]
    exact (errorsFrom_nodup 0 codes).map Int.ofNat_injective
  · have hm : (0 + i,code) ∈ errorsFrom 0 codes := mem_errorsFrom h
    rw [Nat.zero_add] at hm
    exact List.mem_reverse.mpr (List.mem_map_of_mem (f := readError) hm)

/-- The response of the mock is well formed, and the client collects its errors. -/
theorem parseBatchResponse_uploadResponse (results : List Json) (es : List (ℕ × String)) :
    parseBatchResponse repr (uploadResponse results (es.map fun e => rowError e.1 e.2)) results.length =
      .ok (results.mapIdx (rowResult (es.map readError).reverse)) := by
  have hloop := collectError_loop repr [] es
  rw [List.append_nil] at hloop
  refine Outcome.bind_ok.mpr ⟨.arr results,rfl,?_⟩
  simp only [ne_eq, not_true_eq_false, if_false]
  cases es with
  | nil => rfl
  | cons e rest =>
    refine Outcome.bind_ok.mpr ⟨_,rfl,?_⟩
    refine Outcome.bind_ok.mpr ⟨_,rfl,?_⟩
    refine Outcome.bind_ok.mpr ⟨_,rfl,?_⟩
    refine Outcome.bind_ok.mpr ⟨_,?_,rfl⟩
    exact Outcome.loop_cons_ok.mpr ⟨_,Outcome.bind_ok.mpr ⟨_,rfl,hloop⟩,rfl⟩

end Decode

/-- The result that the code of row `index` stands for. -/
def codeResult (index : ℕ) : Option String → RowResult
  | none => ⟨index,true,none,none⟩
  | some code => ⟨index,false,some code,some (rowMessage index code)⟩

/-- A 200 answer of the mock reads back as one result for each row, in their
order: what its code says. -/
theorem mockUpload_roundTrip (rt : Runtime) (repr : Json → String) (knownActions : List String)
    (failRows : List RowFailure) (conversions : List Json) (body : Json)
    (h : mockUpload rt knownActions failRows (uploadRequest conversions) = .ok (200,body)) :
    ∃ rows, parseBatchResponse repr body conversions.length = .ok rows ∧
      rows.length = conversions.length ∧
      ∀ i row, conversions[i]? = some row → ∃ code,
        rowCode rt knownActions failRows i row = .ok code ∧ rows[i]? = some (codeResult i code) := by
  obtain ⟨results,errors,hrows,rfl⟩ := mockUpload_ok h
  obtain ⟨codes,hlen,hcodes,rfl,htruthy⟩ := uploadRows_ok hrows
  have hresults : results.length = conversions.length := by
    rw [← hlen, ← List.length_map (f := Option.isNone), ← htruthy, List.length_map]
  have hparse := parseBatchResponse_uploadResponse repr results (errorsFrom 0 codes)
  rw [hresults] at hparse
  refine ⟨_,hparse,by rw [List.length_mapIdx, hresults],fun i row hrow => ?_⟩
  obtain ⟨code,hi,hcode⟩ := hcodes i row hrow
  rw [Nat.zero_add] at hcode
  refine ⟨code,hcode,?_⟩
  obtain ⟨result,hresult⟩ : ∃ result, results[i]? = some result := by
    have hlt : i < results.length := by
      rw [hresults]
      exact (List.getElem?_eq_some_iff.mp hrow).1
    exact ⟨results[i],List.getElem?_eq_getElem hlt⟩
  have htrue : result.truthy = code.isNone := by
    have hmap := congrArg (fun l => l[i]?) htruthy
    simpa [List.getElem?_map,hresult,hi] using hmap
  rw [List.getElem?_mapIdx, hresult, Option.map_some]
  cases code with
  | none => simp [rowResult,codeResult,htrue]
  | some code => simp [rowResult,codeResult,htrue,readError_lookup hi]

/-- One good row between two failures, one of them injected. -/
theorem mockUpload_roundTrip_three : ∃ body rows,
    mockUpload (Runtime.plain .valueError) ["closed_won"] [⟨2,"TOO_RECENT_CONVERSION"⟩]
      (uploadRequest [.null,plainRow,plainRow]) = .ok (200,body) ∧
    parseBatchResponse (fun _ => "") body 3 = .ok rows ∧ rows.length = 3 ∧
    rows[0]? = some (codeResult 0 (some "INVALID_CONVERSION")) ∧ rows[1]? = some (codeResult 1 none) ∧
    rows[2]? = some (codeResult 2 (some "TOO_RECENT_CONVERSION")) := by
  have hgood : rowCode (Runtime.plain .valueError) ["closed_won"] [⟨2,"TOO_RECENT_CONVERSION"⟩] 1 plainRow =
      .ok none := by decide +kernel
  obtain ⟨body,h⟩ : ∃ body, mockUpload (Runtime.plain .valueError) ["closed_won"] [⟨2,"TOO_RECENT_CONVERSION"⟩]
      (uploadRequest [.null,plainRow,plainRow]) = .ok (200,body) := by
    have hrows : ∃ p, uploadRows (Runtime.plain .valueError) ["closed_won"] [⟨2,"TOO_RECENT_CONVERSION"⟩] 0
        [.null,plainRow,plainRow] = .ok p := by
      simp only [uploadRows, hgood]
      exact ⟨_,rfl⟩
    obtain ⟨p,hrows⟩ := hrows
    exact ⟨uploadResponse p.1 p.2,Outcome.bind_ok.mpr ⟨_,rfl,Outcome.bind_ok.mpr ⟨p,hrows,rfl⟩⟩⟩
  obtain ⟨rows,hparse,hlen,hrows⟩ := mockUpload_roundTrip _ (fun _ => "") _ _ _ _ h
  obtain ⟨_,hcode,hfirst⟩ := hrows 0 .null rfl
  cases hcode
  obtain ⟨_,hcode,hsecond⟩ := hrows 1 plainRow rfl
  cases hgood.symm.trans hcode
  obtain ⟨_,hcode,hthird⟩ := hrows 2 plainRow rfl
  cases hcode
  exact ⟨body,rows,h,hparse,hlen,hfirst,hsecond,hthird⟩

end ConversionGateway
