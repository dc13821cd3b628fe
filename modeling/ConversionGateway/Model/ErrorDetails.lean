import ConversionGateway.Model.BatchResponse

/-! # The error details of a response

The errors of all details, one after the other, are what `parse_batch_response`
folds into one slot for each row. A row that succeeded is not looked up there, and
of several errors of a row the last one counts.
-/
namespace ConversionGateway

section Details

/-- What the loop over the details visits. -/
def detailsOf (body : Json) : Except PyError (List Json) := do
  let failure ← body.getD "partialFailureError" .null
  let details ← (orEmpty failure).getD "details" (.arr [])
  details.iterate

/-- What the loop over the errors of a detail visits. -/
def errorsOf (detail : Json) : Except PyError (List Json) := do
  let errs ← detail.getD "errors" (.arr [])
  errs.iterate

/-- The errors of the body, in the order of the walk. -/
def Json.HasErrors (body : Json) (errs : List Json) : Prop :=
  ∃ details lists, detailsOf body = .ok details ∧
    List.Forall₂ (fun detail l => errorsOf detail = .ok l) details lists ∧ errs = lists.flatten

/-- `next(iter(err.get("errorCode", {}).values()), "UNKNOWN")` -/
def errorCode (err : Json) : Except PyError Json := do firstValue (← err.getD "errorCode" (.obj []))

/-- The slot that an error fills. -/
def errorEntry (repr : Json → String) (err : Json) : Except PyError (Option (ℤ × String × String)) := do
  match ← rowIndex err with
  | none => return none
  | some index =>
    let code ← errorCode err
    let message ← err.getD "message" (.str "")
    return some (index,pyStr repr code,pyStr repr message)

/-- The row an error is located at, with the code and the message. -/
def locate (repr : Json → String) (err : Json) : Option (ℤ × String × String) :=
  match errorEntry repr err with
  | .ok entry => entry
  | .error _ => none

variable {repr : Json → String}

theorem collectError_eq (errors : ErrorsByIndex) (err : Json) :
    collectError repr errors err = errorEntry repr err >>= fun entry => .ok (entry.toList ++ errors) := by
  unfold collectError errorEntry errorCode
  cases rowIndex err with
  | error e => rfl
  | ok index =>
    cases index with
    | none => rfl
    | some index =>
      simp only [bind, Except.bind]
      cases err.getD "errorCode" (.obj []) with
      | error e => rfl
      | ok value =>
        dsimp only
        cases firstValue value with
        | error e => rfl
        | ok code =>
          dsimp only
          cases err.getD "message" (.str "") with
          | error e => rfl
          | ok message => rfl

/-- The slots are filled in order, the latest in front. -/
theorem collectErrors_ok {errors out : ErrorsByIndex} {errs : List Json} :
    Outcome.loop (collectError repr) errors errs = .ok out ↔
      (∀ err ∈ errs, ∃ entry, errorEntry repr err = .ok entry) ∧
        out = (errs.filterMap (locate repr)).reverse ++ errors := by
  induction errs generalizing errors with
  | nil => simp [eq_comm]
  | cons err rest ih =>
    rw [Outcome.loop_cons_ok]
    constructor
    · rintro ⟨m,hm,hrest⟩
      rw [collectError_eq] at hm
      obtain ⟨entry,he,hm⟩ := Outcome.bind_ok.mp hm
      cases hm
      obtain ⟨hall,rfl⟩ := ih.mp hrest
      have hloc : locate repr err = entry := by simp only [locate, he]
      refine ⟨List.forall_mem_cons.mpr ⟨⟨entry,he⟩,hall⟩,?_⟩
      cases entry <;> simp [hloc]
    · rintro ⟨hall,rfl⟩
      obtain ⟨⟨entry,he⟩,hrest⟩ := List.forall_mem_cons.mp hall
      have hloc : locate repr err = entry := by simp only [locate, he]
      refine ⟨entry.toList ++ errors,?_,ih.mpr ⟨hrest,?_⟩⟩
      · rw [collectError_eq, he]
        rfl
      · cases entry <;> simp [hloc]

theorem subscript_ok {body value : Json} {key : String} :
    body.subscript key = .ok value ↔ body.get key = some value := by
  cases body with
  | obj fields =>
    simp only [Json.subscript, Json.get]
    cases fields.lookup key <;> simp
  | null | bool | int | float | nonfinite | str | surrogates | arr => simp [Json.subscript,Json.get]

theorem collectDetails_eq : collectDetail repr =
    fun errors detail => errorsOf detail >>= Outcome.loop (collectError repr) errors := by
  funext errors detail
  unfold collectDetail errorsOf
  cases detail.getD "errors" (.arr []) with
  | error e => rfl
  | ok errs => rfl

/-- What the client makes of a body that it accepts. -/
theorem parseBatchResponse_ok {body : Json} {n : ℕ} {rows : List RowResult} :
    parseBatchResponse repr body n = .ok rows ↔ ∃ results errs, body.get "results" = some (.arr results) ∧
      results.length = n ∧ body.HasErrors errs ∧ (∀ err ∈ errs, ∃ entry, errorEntry repr err = .ok entry) ∧
      rows = results.mapIdx (rowResult (errs.filterMap (locate repr)).reverse) := by
  constructor
  · intro h
    obtain ⟨value,hv,h⟩ := Outcome.bind_ok.mp h
    have hv := subscript_ok.mp hv
    cases value with
    | arr results =>
      dsimp only at h
      split at h
      · cases h
      · next hlen =>
        obtain ⟨failure,hf,h⟩ := Outcome.bind_ok.mp h
        obtain ⟨value,hd,h⟩ := Outcome.bind_ok.mp h
        obtain ⟨details,hi,h⟩ := Outcome.bind_ok.mp h
        obtain ⟨errors,he,h⟩ := Outcome.bind_ok.mp h
        obtain ⟨lists,hlists,hall⟩ := Outcome.loop_flatten_ok.mp (collectDetails_eq ▸ he)
        obtain ⟨hread,rfl⟩ := collectErrors_ok.mp hall
        have hdetails : detailsOf body = .ok details :=
          Outcome.bind_ok.mpr ⟨failure,hf,Outcome.bind_ok.mpr ⟨value,hd,hi⟩⟩
        refine ⟨results,lists.flatten,hv,not_not.mp hlen,⟨details,lists,hdetails,hlists,rfl⟩,hread,?_⟩
        rw [← Outcome.pure_ok.mp h, List.append_nil]
    | null | bool | int | float | nonfinite | str | surrogates | obj => cases h
  · rintro ⟨results,errs,hv,hlen,⟨details,lists,hdetails,hlists,rfl⟩,hread,rfl⟩
    obtain ⟨failure,hf,hdetails⟩ := Outcome.bind_ok.mp hdetails
    obtain ⟨value,hd,hi⟩ := Outcome.bind_ok.mp hdetails
    refine Outcome.bind_ok.mpr ⟨.arr results,subscript_ok.mpr hv,?_⟩
    dsimp only
    rw [if_neg (not_not.mpr hlen)]
    refine Outcome.bind_ok.mpr ⟨failure,hf,Outcome.bind_ok.mpr ⟨value,hd,Outcome.bind_ok.mpr ⟨details,hi,?_⟩⟩⟩
    refine Outcome.bind_ok.mpr ⟨(lists.flatten.filterMap (locate repr)).reverse,?_,rfl⟩
    rw [collectDetails_eq]
    refine Outcome.loop_flatten_ok.mpr ⟨lists,hlists,collectErrors_ok.mpr ⟨hread,?_⟩⟩
    rw [List.append_nil]

end Details

/-! ## Results and details -/

/-- The entry of a row, by whether it counts as a success. -/
def Json.Answers (body : Json) (index : ℕ) (success : Bool) : Prop :=
  ∃ results entry, body.get "results" = some (.arr results) ∧ results[index]? = some entry ∧
    entry.truthy = success

/-- An error of the body is located at the row. -/
def Json.Locates (body : Json) (index : ℕ) : Prop :=
  ∃ errs, body.HasErrors errs ∧ ∃ err ∈ errs, rowIndex err = .ok (some (index : ℤ))

/-- An error of the body is located at the row and carries the code. -/
def Json.Blames (repr : Json → String) (body : Json) (index : ℕ) (code : String) : Prop :=
  ∃ errs, body.HasErrors errs ∧ ∃ err ∈ errs, ∃ message, locate repr err = some ((index : ℤ),code,message)

section Results
variable {repr : Json → String} {body : Json} {n : ℕ} {rows : List RowResult}

theorem Json.HasErrors.unique {errs errs' : List Json} (h : body.HasErrors errs)
    (h' : body.HasErrors errs') : errs = errs' := by
  obtain ⟨details,lists,hd,hl,rfl⟩ := h
  obtain ⟨details',lists',hd',hl',rfl⟩ := h'
  obtain rfl := Except.ok.inj (hd.symm.trans hd')
  have heq : lists = lists' := List.right_unique_forall₂' (fun _ _ _ h₁ h₂ => Except.ok.inj (h₁.symm.trans h₂)) hl hl'
  rw [heq]

/-- A row reports what its entry says. -/
theorem rowResult_ok (errors : ErrorsByIndex) (index : ℕ) (result : Json) :
    (rowResult errors index result).ok = result.truthy := by
  unfold rowResult
  split
  · next h => exact h.symm
  · next h => exact (Bool.eq_false_iff.mpr h).symm

theorem answers_of_row (h : parseBatchResponse repr body n = .ok rows) {i : ℕ} {row : RowResult}
    (hrow : rows[i]? = some row) : body.Answers i row.ok := by
  obtain ⟨results,errs,hv,_,_,_,rfl⟩ := parseBatchResponse_ok.mp h
  rw [List.getElem?_mapIdx] at hrow
  obtain ⟨entry,he,rfl⟩ := Option.map_eq_some_iff.mp hrow
  exact ⟨results,entry,hv,he,(rowResult_ok _ _ _).symm⟩

theorem row_of_answers (h : parseBatchResponse repr body n = .ok rows) {i : ℕ} {success : Bool}
    (ha : body.Answers i success) : ∃ row, rows[i]? = some row ∧ row.ok = success := by
  obtain ⟨results,errs,hv,_,_,_,rfl⟩ := parseBatchResponse_ok.mp h
  obtain ⟨results',entry,hv',he,rfl⟩ := ha
  cases hv.symm.trans hv'
  exact ⟨_,by rw [List.getElem?_mapIdx, he]; rfl,rowResult_ok _ _ _⟩

/-- A row counts as uploaded only if both parts of the body say so, and a body that
contradicts itself is malformed. -/
def ResultsAgree (repr : Json → String) (body : Json) (n : ℕ) : Prop :=
  (∀ rows, parseBatchResponse repr body n = .ok rows → ∀ (i : ℕ) (row : RowResult), rows[i]? = some row →
    row.ok = true → body.Answers i true ∧ ¬ body.Locates i) ∧
  ∀ i, body.Answers i true → body.Locates i → ∃ e, parseBatchResponse repr body n = .error e

/-- Of the bodies that are accepted, those without a located error for a row that
succeeded are read as they should be. -/
theorem resultsAgree_iff (repr : Json → String) (body : Json) (n : ℕ) (rows : List RowResult)
    (h : parseBatchResponse repr body n = .ok rows) :
    ResultsAgree repr body n ↔ ¬ ∃ i, body.Answers i true ∧ body.Locates i := by
  constructor
  · rintro ⟨hok,_⟩ ⟨i,ha,hl⟩
    obtain ⟨row,hrow,hsuccess⟩ := row_of_answers h ha
    exact (hok rows h i row hrow hsuccess).2 hl
  · intro hnone
    refine ⟨fun rows' h' i row hrow hsuccess => ?_,fun i ha hl => absurd ⟨i,ha,hl⟩ hnone⟩
    have ha := answers_of_row h' hrow
    rw [hsuccess] at ha
    exact ⟨ha,fun hl => hnone ⟨i,ha,hl⟩⟩

end Results

/-- A row that succeeded, without and with an error detail that is located at it. -/
def successBody (errors : List Json) : Json := uploadResponse [.obj [("gclid",.str "a")]] errors

theorem resultsAgree_iff_success : ResultsAgree (fun _ => "") (successBody []) 1 := by
  refine (resultsAgree_iff (fun _ => "") (successBody []) 1 [⟨0,true,none,none⟩] rfl).mpr ?_
  rintro ⟨i,_,errs,⟨details,lists,hd,hl,rfl⟩,err,he,_⟩
  cases hd
  cases hl
  cases he

theorem not_resultsAgree_refused :
    ¬ ResultsAgree (fun _ => "") (successBody [rowError 0 "EXPIRED_CLICK"]) 1 := by
  intro h
  have hparse : parseBatchResponse (fun _ => "") (successBody [rowError 0 "EXPIRED_CLICK"]) 1 =
    .ok [⟨0,true,none,none⟩] := rfl
  refine (h.1 _ hparse 0 _ rfl rfl).2 ⟨[rowError 0 "EXPIRED_CLICK"],?_,_,List.mem_singleton_self _,rfl⟩
  exact ⟨_,[[rowError 0 "EXPIRED_CLICK"]],rfl,.cons rfl .nil,rfl⟩

/-! ## The order of the errors -/

/-- The same results, and the same errors in another order, within or across details. -/
def Json.Reordered (body other : Json) : Prop :=
  other.get "results" = body.get "results" ∧
    ∃ errs errs', body.HasErrors errs ∧ other.HasErrors errs' ∧ errs'.Perm errs

/-- The state of a row, by its entry and its slot. -/
theorem rowResult_status (errors : ErrorsByIndex) (index : ℕ) (result : Json) :
    (rowResult errors index result).status =
      if result.truthy then .uploaded else
        match errors.lookup (index : ℤ) with
        | none => .deadLettered
        | some (code,_) => if classifyRowError code = .transient then .failedRetryable else .deadLettered := by
  unfold rowResult
  by_cases ht : result.truthy = true
  · rw [if_pos ht, if_pos ht]
    rfl
  · rw [if_neg ht, if_neg ht]
    cases errors.lookup (index : ℤ) with
    | none => rfl
    | some slot =>
      obtain ⟨code,message⟩ := slot
      -- an empty code counts as UNKNOWN, which is as little retryable as the empty one
      by_cases hcode : code = ""
      · subst hcode
        rfl
      · simp [RowResult.status,RowResult.code,hcode]

section Order
variable {repr : Json → String} {body other : Json} {n : ℕ} {rows : List RowResult}

/-- Every row fares the same however the errors are ordered, and a row with an error
that is not retryable is not retried. -/
structure OrderIndependent (repr : Json → String) (body : Json) (n : ℕ) (rows : List RowResult) : Prop where
  same : ∀ other, body.Reordered other → ∃ rows', parseBatchResponse repr other n = .ok rows' ∧
    rows'.map RowResult.status = rows.map RowResult.status
  hopeless : ∀ (i : ℕ) (row : RowResult) (code : String), rows[i]? = some row → body.Blames repr i code →
    classifyRowError code ≠ .transient → row.status ≠ .failedRetryable

/-- The errors located at a refused row are all retryable, or none of them is. -/
def Json.OneClass (repr : Json → String) (body : Json) : Prop :=
  ∀ (i : ℕ) (code code' : String), body.Answers i false → body.Blames repr i code →
    body.Blames repr i code' → (classifyRowError code = .transient ↔ classifyRowError code' = .transient)

/-- A slot holds one of the errors of the row, if there is one. -/
theorem lookup_blames (repr : Json → String) {errs : List Json} (h : body.HasErrors errs) (i : ℕ) :
    match (errs.filterMap (locate repr)).reverse.lookup (i : ℤ) with
    | none => ∀ code, ¬ body.Blames repr i code
    | some (code,_) => body.Blames repr i code := by
  split
  · next hnone =>
    rintro code ⟨errs',h',err,herr,message,hloc⟩
    obtain rfl := h.unique h'
    have hmem : ((i : ℤ),code,message) ∈ (errs.filterMap (locate repr)).reverse :=
      List.mem_reverse.mpr (List.mem_filterMap.mpr ⟨err,herr,hloc⟩)
    simpa using List.lookup_eq_none_iff.mp hnone _ hmem
  · next code message hsome =>
    obtain ⟨l₁,l₂,heq,_⟩ := List.lookup_eq_some_iff.mp hsome
    have hmem : ((i : ℤ),code,message) ∈ (errs.filterMap (locate repr)).reverse := by
      rw [heq]
      exact List.mem_append_right _ List.mem_cons_self
    obtain ⟨err,herr,hloc⟩ := List.mem_filterMap.mp (List.mem_reverse.mp hmem)
    exact ⟨errs,h,err,herr,message,hloc⟩

theorem Json.Reordered.blames (h : body.Reordered other) {i : ℕ} {code : String} :
    other.Blames repr i code ↔ body.Blames repr i code := by
  obtain ⟨_,errs,errs',he,he',hperm⟩ := h
  constructor
  · rintro ⟨errs₁,h₁,err,herr,hloc⟩
    obtain rfl := he'.unique h₁
    exact ⟨errs,he,err,hperm.mem_iff.mp herr,hloc⟩
  · rintro ⟨errs₁,h₁,err,herr,hloc⟩
    obtain rfl := he.unique h₁
    exact ⟨errs',he',err,hperm.mem_iff.mpr herr,hloc⟩

/-- A body with one detail. -/
def detailBody (results errs : List Json) : Json :=
  .obj [("results",.arr results),("partialFailureError",.obj [("details",.arr [.obj [("errors",.arr errs)]])])]

theorem detailBody_errors (results errs : List Json) : (detailBody results errs).HasErrors errs :=
  ⟨_,[errs],rfl,.cons rfl .nil,(List.flatten_singleton ..).symm⟩

/-- The slot of a row holds its last error. -/
theorem lookup_last {errs : List Json} {err : Json} {i : ℕ} {code message : String}
    (h : locate repr err = some ((i : ℤ),code,message)) :
    ((errs ++ [err]).filterMap (locate repr)).reverse.lookup (i : ℤ) = some (code,message) := by
  rw [List.filterMap_append, List.reverse_append]
  simp [h]

/-- With one class of errors for each refused row, the slot decides what any order does. -/
theorem row_status_eq (hone : body.OneClass repr) {errs errs' : List Json} (he : body.HasErrors errs)
    (ho : body.Reordered other) (he' : other.HasErrors errs') {i : ℕ} {entry : Json}
    (ha : body.Answers i entry.truthy) :
    (rowResult (errs'.filterMap (locate repr)).reverse i entry).status =
      (rowResult (errs.filterMap (locate repr)).reverse i entry).status := by
  rw [rowResult_status, rowResult_status]
  by_cases ht : entry.truthy = true
  · rw [if_pos ht, if_pos ht]
  · rw [if_neg ht, if_neg ht]
    rw [Bool.eq_false_iff.mpr ht] at ha
    have hslot := lookup_blames repr he i
    have hslot' := lookup_blames repr he' i
    cases hl : (errs.filterMap (locate repr)).reverse.lookup (i : ℤ) with
    | none =>
      rw [hl] at hslot
      cases hl' : (errs'.filterMap (locate repr)).reverse.lookup (i : ℤ) with
      | none => rfl
      | some slot' =>
        rw [hl'] at hslot'
        exact absurd (ho.blames.mp hslot') (hslot _)
    | some slot =>
      rw [hl] at hslot
      cases hl' : (errs'.filterMap (locate repr)).reverse.lookup (i : ℤ) with
      | none =>
        rw [hl'] at hslot'
        exact absurd (ho.blames.mpr hslot) (hslot' _)
      | some slot' =>
        rw [hl'] at hslot'
        have hclass := hone i _ _ ha (ho.blames.mp hslot') hslot
        dsimp only
        by_cases hc : classifyRowError slot.1 = .transient
        · rw [if_pos hc, if_pos (hclass.mpr hc)]
        · rw [if_neg hc, if_neg (mt hclass.mp hc)]

/-- Of the bodies that are accepted, those that mix no classes on a refused row are
read alike in every order. -/
theorem orderIndependent_iff (repr : Json → String) (body : Json) (n : ℕ) (rows : List RowResult)
    (h : parseBatchResponse repr body n = .ok rows) :
    OrderIndependent repr body n rows ↔ body.OneClass repr := by
  obtain ⟨results,errs,hv,hlen,he,hread,rfl⟩ := parseBatchResponse_ok.mp h
  constructor
  · intro hind
    -- of two errors of a row, the retryable one can be put last
    have hforward (i : ℕ) (code code' : String) (ha : body.Answers i false) (hb : body.Blames repr i code)
        (hb' : body.Blames repr i code') (hc : classifyRowError code = .transient) :
        classifyRowError code' = .transient := by
      by_contra hc'
      obtain ⟨errs₁,he₁,err,herr,message,hloc⟩ := hb
      obtain rfl := he.unique he₁
      obtain ⟨pre,post,rfl⟩ := List.append_of_mem herr
      have hperm : (pre ++ post ++ [err]).Perm (pre ++ err :: post) := by
        rw [List.append_assoc]
        exact List.Perm.append_left pre (List.perm_append_singleton err post)
      obtain ⟨rows',hrows',hstatus⟩ := hind.same (detailBody results (pre ++ post ++ [err]))
        ⟨hv.symm,_,_,he,detailBody_errors _ _,hperm⟩
      obtain ⟨results',errs',hv',_,he',_,rfl⟩ := parseBatchResponse_ok.mp hrows'
      obtain rfl : results = results' := Json.arr.inj (Option.some.inj hv')
      obtain rfl := (detailBody_errors _ _).unique he'
      obtain ⟨row,hrow,_⟩ := row_of_answers h ha
      obtain ⟨results',entry,hv',hentry,hempty⟩ := ha
      obtain rfl : results = results' := Json.arr.inj (Option.some.inj (hv.symm.trans hv'))
      have hlast := congrArg (fun l => l[i]?) hstatus
      simp only [List.getElem?_map, List.getElem?_mapIdx, hentry, Option.map_some, rowResult_status,
        hempty, lookup_last hloc, if_pos hc] at hlast
      refine hind.hopeless i row code' hrow hb' hc' ?_
      rw [List.getElem?_mapIdx, hentry] at hrow
      cases hrow
      rw [rowResult_status, hempty]
      exact (Option.some.inj hlast).symm
    intro i code code' ha hb hb'
    exact ⟨hforward i code code' ha hb hb',hforward i code' code ha hb' hb⟩
  · intro hone
    refine ⟨fun other ho => ?_,fun i row code hrow hb hc hretry => ?_⟩
    · obtain ⟨hres,errs₁,errs',he₁,he',hperm⟩ := id ho
      obtain rfl := he.unique he₁
      refine ⟨_,parseBatchResponse_ok.mpr ⟨results,errs',hres.trans hv,hlen,he',
        fun err herr => hread err (hperm.mem_iff.mp herr),rfl⟩,List.ext_getElem? fun i => ?_⟩
      simp only [List.getElem?_map, List.getElem?_mapIdx]
      cases hentry : results[i]? with
      | none => rfl
      | some entry => exact congrArg some (row_status_eq hone he ho he' ⟨results,entry,hv,hentry,rfl⟩)
    · rw [List.getElem?_mapIdx] at hrow
      obtain ⟨entry,hentry,rfl⟩ := Option.map_eq_some_iff.mp hrow
      rw [rowResult_status] at hretry
      split at hretry
      · cases hretry
      · next hempty =>
        have ha : body.Answers i false := ⟨results,entry,hv,hentry,Bool.eq_false_iff.mpr hempty⟩
        have hslot := lookup_blames repr he i
        split at hretry
        · cases hretry
        · next slot hl =>
          rw [hl] at hslot
          split at hretry
          · next ht => exact hc ((hone i _ _ ha hslot hb).mp ht)
          · cases hretry

end Order

/-- A refused row with the given errors. -/
def refusedBody (errs : List Json) : Json := detailBody [.obj []] errs

theorem orderIndependent_iff_single : OrderIndependent (fun _ => "") (refusedBody [rowError 0 "EXPIRED_CLICK"]) 1
    [⟨0,false,some "EXPIRED_CLICK",some (rowMessage 0 "EXPIRED_CLICK")⟩] := by
  refine (orderIndependent_iff (fun _ => "") (refusedBody [rowError 0 "EXPIRED_CLICK"]) 1 _ rfl).mpr ?_
  have hcode {i : ℕ} {code : String}
      (hb : (refusedBody [rowError 0 "EXPIRED_CLICK"]).Blames (fun _ => "") i code) : code = "EXPIRED_CLICK" := by
    obtain ⟨errs,he,err,herr,message,hloc⟩ := hb
    obtain rfl := (detailBody_errors _ _).unique he
    obtain rfl := List.mem_singleton.mp herr
    have hslot : locate (fun _ => "") (rowError 0 "EXPIRED_CLICK") =
      some (0,"EXPIRED_CLICK",rowMessage 0 "EXPIRED_CLICK") := rfl
    rw [hslot] at hloc
    exact (Prod.mk.inj (Prod.mk.inj (Option.some.inj hloc)).2).1.symm
  intro i code code' _ hb hb'
  rw [hcode hb, hcode hb']

/-- A row that was refused for good and, in a later error, as too recent is retried;
with the errors the other way round it is dead-lettered. -/
theorem not_orderIndependent_mixed : ∃ rows rows',
    parseBatchResponse (fun _ => "")
      (refusedBody [rowError 0 "EXPIRED_CLICK",rowError 0 "TOO_RECENT_CONVERSION"]) 1 = .ok rows ∧
    parseBatchResponse (fun _ => "")
      (refusedBody [rowError 0 "TOO_RECENT_CONVERSION",rowError 0 "EXPIRED_CLICK"]) 1 = .ok rows' ∧
    rows.map RowResult.status = [.failedRetryable] ∧ rows'.map RowResult.status = [.deadLettered] ∧
    ¬ OrderIndependent (fun _ => "")
      (refusedBody [rowError 0 "EXPIRED_CLICK",rowError 0 "TOO_RECENT_CONVERSION"]) 1 rows := by
  refine ⟨_,_,rfl,rfl,by decide,by decide,fun h => ?_⟩
  refine h.hopeless 0 _ "EXPIRED_CLICK" rfl ⟨_,detailBody_errors _ _,_,List.mem_cons_self,_,rfl⟩ ?_ ?_
  · decide
  · decide

end ConversionGateway
