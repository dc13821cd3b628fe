import ConversionGateway.Lifecycle.ClaimSelection
import ConversionGateway.Lifecycle.Deliveries
import ConversionGateway.System.Processes

/-! # One batch from end to end

`uploadBatch` calls the client until an outcome ends the attempts, with a
transaction between two of them, and writes the outcome back. What it leaves of
each event is its row and its trail; other processes may commit in between, but
not to the events of the batch.
-/
namespace ConversionGateway
open Relational EventStatus

/-- The ceilings of the retry loop. The waits show in the elapsed times only. -/
structure RetryPolicy where
  maxAttempts : ℕ
  maxElapsed : Time
  maxAttempts_pos : 1 ≤ maxAttempts

/-- What a batch meets, by the number of the attempt: how the call of the client
ends, the time that has passed then, the readings of the clock in `on_retry`, and
what other processes commit before the next transaction. -/
structure UploadEnv where
  outcome : ℕ → UploadOutcome
  elapsed : ℕ → Time
  clock : ℕ → ℕ → Time
  others : ℕ → Ledger → Ledger

structure CycleReport where
  uploaded : ℕ
  retryLater : ℕ
  deadLettered : ℕ
deriving DecidableEq, Repr

/-- The counters of `apply_result`, one row further. -/
def CycleReport.count (report : CycleReport) (row : RowResult) : CycleReport :=
  if row.ok then { report with uploaded := report.uploaded + 1 }
  else if classifyRowError row.code = .transient then { report with retryLater := report.retryLater + 1 }
  else { report with deadLettered := report.deadLettered + 1 }

section Definitions
variable (rt : Runtime) (policy : RetryPolicy) (env : UploadEnv) (batch : List Claimed)

/-- The transaction of `on_retry`. -/
def retryTransaction (attempt : ℕ) (reason : String) (db : Ledger) : Except PyError Ledger := do
  let db := env.others attempt db
  let loaded := load db (batchIds batch)
  let stamps := (List.range (found (batchIds batch) loaded).length).map (env.clock attempt)
  let (db,_) ← (Transaction.retry (batchIds batch) loaded reason stamps).commit rt db
  return db

/-- `call_with_retry`: the calls of the client and how they end. The first number
is how many attempts `max_attempts` still allows after this one. -/
def uploadAttempts : ℕ → ℕ → Ledger → Except PyError (Ledger × List (List Json) × Verdict)
  | 0, attempt, db =>
    .ok (db,[batch.map Claimed.conversion],Uploader.verdict attempt (env.outcome attempt))
  | left + 1, attempt, db =>
    match env.outcome attempt with
    | .transient reason =>
      if policy.maxElapsed ≤ env.elapsed attempt then
        .ok (db,[batch.map Claimed.conversion],Uploader.verdict attempt (.transient reason))
      else do
        let db ← retryTransaction rt env batch attempt reason db
        let (db,calls,verdict) ← uploadAttempts left (attempt + 1) db
        return (db,batch.map Claimed.conversion :: calls,verdict)
    | outcome => .ok (db,[batch.map Claimed.conversion],Uploader.verdict attempt outcome)

/-- `upload_batch`: the ledger, the calls of the client, and the report. -/
def uploadBatch (db : Ledger) (now : Time) : Except PyError (Ledger × List (List Json) × CycleReport) := do
  let (db,calls,verdict) ← uploadAttempts rt policy env batch (policy.maxAttempts - 1) 1 db
  let db := env.others calls.length db
  let loaded := load db (batchIds batch)
  match verdict with
  | .rows rows => do
    let (db,_) ← (Transaction.apply batch loaded rows now).commit rt db
    return (db,calls,(batch.zip rows).foldl (fun report item => report.count item.2) ⟨0,0,0⟩)
  | .failure failure => do
    let (db,_) ← (Transaction.bury batch loaded failure now).commit rt db
    return (db,calls,⟨0,0,batch.length⟩)

end Definitions

/-! ## Rows and trails -/

abbrev TrailEntry := Option EventStatus × EventStatus × Option String

/-- What the ledger shows of an event. -/
def Ledger.view (db : Ledger) (k : String) : Option Event × List TrailEntry := (db.getEvent k,db.trail k)

section Views
variable {db : Ledger} {e : Event}

theorem record_view (reason : Option String) (now : Time) (he : db.getEvent e.eventId = some e) (e' : Event) (hk : e'.eventId = e.eventId) :
    (db.record e e' reason now).view e.eventId =
      (some e',db.trail e.eventId ++ [(some e.status,e'.status,reason)]) := by
  refine Prod.ext ?_ ?_
  · exact (Ledger.record_getEvent he hk _).trans (if_pos rfl)
  · simp only [Ledger.view, Ledger.trail, Ledger.record_listTransitions, if_true, List.map_append]
    rfl

theorem record_view_of_ne {reason : Option String} {now : Time} (he : db.getEvent e.eventId = some e) (e' : Event) (hk : e'.eventId = e.eventId)
    {k : String} (hne : k ≠ e.eventId) : (db.record e e' reason now).view k = db.view k := by
  refine Prod.ext ?_ ?_
  · exact (Ledger.record_getEvent he hk _).trans (if_neg hne)
  · simp only [Ledger.view, Ledger.trail, Ledger.record_listTransitions, if_neg (Ne.symm hne),
      List.append_nil]

theorem trail_fits (hf : db.fits = true) {k : String} {entry : TrailEntry} (h : entry ∈ db.trail k) :
    nullable (varchar 512) entry.2.2 = true := by
  obtain ⟨t,ht,rfl⟩ := List.mem_map.mp h
  exact (Ledger.fits_iff.mp hf).2.1 t (List.mem_filter.mp ht).1

end Views

/-- The event is being uploaded. -/
def Uploading (v : Option Event × List TrailEntry) : Prop := ∃ e, v.1 = some e ∧ e.status = uploading

/-- The row after a step on it that was noted in its trail. -/
def Noted (attempts : ℕ) (status : EventStatus) (entries : List TrailEntry)
    (v v' : Option Event × List TrailEntry) : Prop :=
  ∃ e e', v.1 = some e ∧ v'.1 = some e' ∧ e'.status = status ∧
    e'.attemptCount = e.attemptCount + attempts ∧ v'.2 = v.2 ++ entries

theorem Noted.trans {n m : ℕ} {s t : EventStatus} {l l' : List TrailEntry}
    {u v w : Option Event × List TrailEntry} (h : Noted n s l u v) (h' : Noted m t l' v w) :
    Noted (n + m) t (l ++ l') u w := by
  obtain ⟨e,e₁,he,he₁,_,ha,hl⟩ := h
  obtain ⟨e₂,e₃,he₂,he₃,hs,ha',hl'⟩ := h'
  obtain rfl := Option.some.inj (he₁.symm.trans he₂)
  exact ⟨e,e₃,he,he₃,hs,by omega,by rw [hl', hl, List.append_assoc]⟩

/-- What fits the columns of a dead letter, beside the event. -/
structure LetterFits (reason : String) (errorCode errorMessage : Option String) : Prop where
  reason : varchar 512 reason = true
  errorCode : nullable (varchar 128) errorCode = true
  errorMessage : nullable (varchar 1024) (cutMessage errorMessage) = true

/-- The entries of one retry. -/
def retryPair (reason : String) : List TrailEntry :=
  [(some uploading,failedRetryable,some ("transient:" ++ reason)),(some failedRetryable,uploading,none)]

/-- The last entry of a row that the platform answered for. -/
def rowEntry (row : RowResult) : TrailEntry :=
  if row.ok then (some uploading,uploaded,none)
  else if classifyRowError row.code = .transient then
    (some uploading,failedRetryable,some ("retryable_row:" ++ row.code))
  else (some uploading,deadLettered,some ("permanent_row:" ++ row.code))

/-- The texts of a row's answer fit the columns they would go to. -/
def RowResult.Fits (row : RowResult) : Prop :=
  row.ok = true ∨ classifyRowError row.code = .transient ∨
    LetterFits ("permanent_row:" ++ row.code) (some row.code) row.message

section Steps
variable {db : Ledger} {e : Event}

theorem allowed_of_uploading (h : e.status = uploading) {dest : EventStatus}
    (hd : dest ∈ [uploaded,failedRetryable,deadLettered]) : dest ∈ e.status.allowedTransitions := by
  rw [h]
  exact hd

theorem retryRow_view (reason : String) {item : String × Time} (h : Uploading (db.view item.1)) : ∃ out,
    retryRow reason db item = .ok out ∧ (∀ k, k ≠ item.1 → out.view k = db.view k) ∧
    Noted 1 uploading (retryPair reason) (db.view item.1) (out.view item.1) := by
  obtain ⟨e,he,hu⟩ := h
  have hid : e.eventId = item.1 := Ledger.getEvent_eventId he
  have hself : db.getEvent e.eventId = some e := getEvent_self he
  obtain ⟨out,hout⟩ : ∃ out, retryRow reason db item = .ok out := by
    have he : db.getEvent item.1 = some e := he
    unfold retryRow
    rw [he]
    exact transition_isOk (allowed_of_uploading hu (by simp)) _ _
      (transition_isOk (by simp [Event.moved,allowedTransitions]) _ _ ⟨_,rfl⟩)
  rcases retryRow_ok hout with ⟨hn,_⟩ | ⟨x,hx,_,failed,rfl,rfl⟩
  · exact absurd (hn.symm.trans he) (by simp)
  · obtain rfl := Option.some.inj (he.symm.trans hx)
    set failed := e.moved failedRetryable (some ("transient:" ++ reason)) with hfailed
    have hself' : (db.record e failed failed.statusReason item.2).getEvent failed.eventId = some failed :=
      Ledger.record_getEvent_self hself rfl
    refine ⟨_,hout,fun k hk => ?_,?_⟩
    · rw [record_view_of_ne hself' ((failed.moved uploading none).attempted item.2) rfl (hid ▸ hk),
        record_view_of_ne hself failed rfl (hid ▸ hk)]
    · rw [← hid]
      have hv := record_view none item.2 hself' ((failed.moved uploading none).attempted item.2) rfl
      have hv₀ := congrArg Prod.snd (record_view failed.statusReason item.2 hself failed rfl)
      refine ⟨e,_,hself,congrArg Prod.fst hv,rfl,rfl,(congrArg Prod.snd hv).trans ?_⟩
      have hv₀ : (db.record e failed failed.statusReason item.2).trail failed.eventId =
        db.trail e.eventId ++ [(some e.status,failed.status,failed.statusReason)] := hv₀
      rw [hv₀, hu, List.append_assoc]
      rfl

theorem retryRow_fits {reason : String} (hr : varchar 512 ("transient:" ++ reason) = true) (hf : db.fits = true)
    {item : String × Time} {out : Ledger} (h : retryRow reason db item = .ok out) : out.fits = true := by
  rcases retryRow_ok h with ⟨_,rfl⟩ | ⟨e,he,_,failed,rfl,rfl⟩
  · exact hf
  · set failed := e.moved failedRetryable (some ("transient:" ++ reason)) with hfailed
    have hfe : failed.fits = true := Event.fits_moved _ (fits_event hf he) hr
    have hmid : (db.record e failed failed.statusReason item.2).fits = true :=
      Ledger.fits_record e item.2 hf hfe hr
    have hagain : (failed.moved uploading none).fits = true := Event.fits_moved _ hfe rfl
    have hfinal : ((failed.moved uploading none).attempted item.2).fits = true := hagain
    exact Ledger.fits_record _ _ hmid hfinal rfl

/-- It keeps what fits, if its reason does. -/
theorem retryRow_noted {reason : String} (hf : varchar 512 ("transient:" ++ reason) = true → db.fits = true)
    {item : String × Time} (h : Uploading (db.view item.1)) : ∃ out, retryRow reason db item = .ok out ∧
    (varchar 512 ("transient:" ++ reason) = true → out.fits = true) ∧
    (∀ k, k ≠ item.1 → out.view k = db.view k) ∧
    Noted 1 uploading (retryPair reason) (db.view item.1) (out.view item.1) := by
  obtain ⟨out,hout,hframe,hnoted⟩ := retryRow_view reason h
  exact ⟨out,hout,fun hr => retryRow_fits hr (hf hr) hout,hframe,hnoted⟩

theorem deadLetter_noted {failureClass : FailureClass} {reason : String} {code message : Option String}
    {payload : Json} {now : Time} (hl : LetterFits reason code message) (hf : db.fits = true) {k : String}
    (he : db.getEvent k = some e) (hu : e.status = uploading) : ∃ out,
    deadLetter db e failureClass reason code message payload now = .ok out ∧ out.fits = true ∧
    (∀ j, j ≠ k → out.view j = db.view j) ∧
    Noted 0 deadLettered [(some uploading,deadLettered,some reason)] (db.view k) (out.view k) := by
  obtain rfl : e.eventId = k := Ledger.getEvent_eventId he
  have hfe : (e.moved deadLettered (some reason)).fits = true := Event.fits_moved _ (fits_event hf he) hl.reason
  have hmid : (db.record e (e.moved deadLettered (some reason)) (some reason) now).fits = true :=
    Ledger.fits_record e now hf hfe hl.reason
  refine ⟨_,Outcome.bind_ok.mpr ⟨_,transition_of_allowed (allowed_of_uploading hu (by simp)) _ now,rfl⟩,?_,
    fun j hj => record_view_of_ne he (e.moved deadLettered (some reason)) rfl hj,?_⟩
  · obtain ⟨h₁,h₂,h₃⟩ := Ledger.fits_iff.mp hmid
    refine Ledger.fits_iff.mpr ⟨h₁,h₂,fun d hd => ?_⟩
    rcases List.mem_append.mp hd with hd | hd
    · exact h₃ d hd
    · rw [List.mem_singleton.mp hd]
      have hevent := fits_event hf he
      simp only [Event.fits, Bool.and_eq_true] at hevent
      simp only [DeadLetter.fits, Bool.and_eq_true]
      exact ⟨⟨⟨hevent.1.1.1.1.2,hl.reason⟩,hl.errorCode⟩,hl.errorMessage⟩
  · have hv := record_view (some reason) now he (e.moved deadLettered (some reason)) rfl
    refine ⟨e,_,he,congrArg Prod.fst hv,rfl,rfl,(congrArg Prod.snd hv).trans ?_⟩
    rw [hu]
    rfl

/-- One move of a row that is being uploaded. -/
theorem move_noted {dest : EventStatus} {reason : Option String} {now : Time}
    (hd : dest ∈ [uploaded,failedRetryable,deadLettered]) (hr : nullable (varchar 512) reason = true)
    (hf : db.fits = true) {k : String} (he : db.getEvent k = some e) (hu : e.status = uploading) : ∃ out,
    (do let (db,_) ← transition db e dest reason now; return db) = .ok out ∧ out.fits = true ∧
    (∀ j, j ≠ k → out.view j = db.view j) ∧
    Noted 0 dest [(some uploading,dest,reason)] (db.view k) (out.view k) := by
  obtain rfl : e.eventId = k := Ledger.getEvent_eventId he
  have hfe : (e.moved dest reason).fits = true := Event.fits_moved _ (fits_event hf he) hr
  refine ⟨_,Outcome.bind_ok.mpr ⟨_,transition_of_allowed (allowed_of_uploading hu hd) _ now,rfl⟩,
    Ledger.fits_record e now hf hfe hr,fun j hj => record_view_of_ne he (e.moved dest reason) rfl hj,?_⟩
  have hv := record_view reason now he (e.moved dest reason) rfl
  refine ⟨e,_,he,congrArg Prod.fst hv,rfl,rfl,(congrArg Prod.snd hv).trans ?_⟩
  rw [hu]
  rfl

theorem applyRow_noted {loaded : List String} {now : Time} {item : Claimed × RowResult}
    (hrow : item.2.Fits) (hl : item.1.eventId ∈ loaded) (hf : db.fits = true)
    (h : Uploading (db.view item.1.eventId)) : ∃ out, applyRow loaded now db item = .ok out ∧
    out.fits = true ∧ (∀ k, k ≠ item.1.eventId → out.view k = db.view k) ∧
    Noted 0 (rowEntry item.2).2.1 [rowEntry item.2] (db.view item.1.eventId) (out.view item.1.eventId) := by
  obtain ⟨e,he,hu⟩ := h
  have he : db.getEvent item.1.eventId = some e := he
  unfold applyRow rowEntry
  rw [if_pos hl, he]
  dsimp only
  by_cases hok : item.2.ok = true
  · rw [if_pos hok, if_pos hok]
    exact move_noted (by simp) rfl hf he hu
  · rw [if_neg hok, if_neg hok]
    by_cases ht : classifyRowError item.2.code = .transient
    · rw [if_pos ht, if_pos ht]
      have hcode : item.2.code = "TOO_RECENT_CONVERSION" := by
        by_contra hne
        simp [classifyRowError,retryableRowErrors,hne] at ht
      exact move_noted (by simp) (by rw [hcode]; decide) hf he hu
    · rw [if_neg ht, if_neg ht]
      exact deadLetter_noted ((hrow.resolve_left hok).resolve_left ht) hf he hu

theorem deadLetterOne_noted {batch : List Claimed} {failure : BatchFailure} {now : Time} {id : String}
    (hfail : LetterFits failure.reason (some failure.errorCode) (some failure.errorMessage))
    (hf : db.fits = true) (h : Uploading (db.view id)) : ∃ out,
    deadLetterOne batch failure now db id = .ok out ∧ out.fits = true ∧
    (∀ k, k ≠ id → out.view k = db.view k) ∧
    Noted 0 deadLettered [(some uploading,deadLettered,some failure.reason)] (db.view id) (out.view id) := by
  obtain ⟨e,he,hu⟩ := h
  have he : db.getEvent id = some e := he
  unfold deadLetterOne
  rw [he]
  exact deadLetter_noted hfail hf he hu

end Steps

/-! ## The transactions -/

/-- A whole-batch outcome whose texts fit the columns they may go to. -/
def BatchFailure.Fits (failure : BatchFailure) : Prop :=
  LetterFits failure.reason (some failure.errorCode) (some failure.errorMessage)

/-- Different events, all of them being uploaded, in a ledger that was committed. -/
structure BatchReady (batch : List Claimed) (db : Ledger) : Prop where
  nodup : (batchIds batch).Nodup
  uploading : ∀ id ∈ batchIds batch, Uploading (db.view id)
  fits : db.fits = true

/-- Other processes commit, and keep off the events of the batch. -/
def Elsewhere (batch : List Claimed) (others : Ledger → Ledger) : Prop :=
  ∀ db, db.fits = true → (others db).fits = true ∧ ∀ id ∈ batchIds batch, (others db).view id = db.view id

section Transactions
variable {rt : Runtime} {env : UploadEnv} {batch : List Claimed} {db : Ledger}

theorem eraseDups_of_nodup {ids : List String} (h : ids.Nodup) : ids.eraseDups = ids := by
  induction ids with
  | nil => rfl
  | cons id rest ih =>
    obtain ⟨hid,hrest⟩ := List.nodup_cons.mp h
    have hfilter : (rest.filter fun b => !b == id) = rest :=
      List.filter_eq_self.mpr fun b hb => by simpa using fun heq : b = id => hid (heq ▸ hb)
    rw [List.eraseDups_cons, hfilter, ih hrest]

theorem BatchReady.load (h : BatchReady batch db) :
    (load db (batchIds batch)).map Event.eventId = batchIds batch := by
  unfold ConversionGateway.load
  rw [eraseDups_of_nodup h.nodup]
  have hrow := h.uploading
  generalize batchIds batch = ids at hrow
  induction ids with
  | nil => rfl
  | cons id rest ih =>
    obtain ⟨e,he,_⟩ := hrow id List.mem_cons_self
    have he : db.getEvent id = some e := he
    rw [List.filterMap_cons, he]
    dsimp only
    rw [List.map_cons, Ledger.getEvent_eventId he, ih fun j hj => hrow j (List.mem_cons_of_mem id hj)]

theorem BatchReady.found (h : BatchReady batch db) :
    found (batchIds batch) (ConversionGateway.load db (batchIds batch)) = batchIds batch := by
  refine List.filter_eq_self.mpr fun id hid => ?_
  have hm : id ∈ (ConversionGateway.load db (batchIds batch)).map Event.eventId := by rwa [h.load]
  obtain ⟨e,he,heq⟩ := List.mem_map.mp hm
  exact List.any_eq_true.mpr ⟨e,he,decide_eq_true heq⟩

theorem BatchReady.others (h : BatchReady batch db) {others : Ledger → Ledger}
    (ho : Elsewhere batch others) : BatchReady batch (others db) :=
  ⟨h.nodup,fun id hid => (ho db h.fits).2 id hid ▸ h.uploading id hid,(ho db h.fits).1⟩

theorem Noted.of_view {n : ℕ} {s : EventStatus} {l : List TrailEntry}
    {u v w : Option Event × List TrailEntry} (h : Noted n s l v w) (heq : v = u) : Noted n s l u w := heq ▸ h

/-- Between two attempts every event fails and starts again, and the transaction commits
if what it leaves fits. -/
theorem retryTransaction_body (rt : Runtime) {attempt : ℕ} (reason : String) (h : BatchReady batch db)
    (ho : Elsewhere batch (env.others attempt)) :
    ∃ out, (∀ out', retryTransaction rt env batch attempt reason db = .ok out' ↔ out = out' ∧ out.fits = true) ∧
      (varchar 512 ("transient:" ++ reason) = true → out.fits = true) ∧
      ∀ id ∈ batchIds batch, Noted 1 uploading (retryPair reason) (db.view id) (out.view id) := by
  have h' := h.others ho
  set mid := env.others attempt db
  set stamps := (List.range (found (batchIds batch) (load mid (batchIds batch))).length).map (env.clock attempt)
    with hstamps
  have hlen : (batchIds batch).length = stamps.length := by
    simp only [stamps, List.length_map, List.length_range, h'.found]
  have hkeys : ((batchIds batch).zip stamps).map Prod.fst = batchIds batch :=
    List.map_fst_zip (Nat.le_of_eq hlen)
  obtain ⟨out,hout,hfits,_,hnoted⟩ := Outcome.loop_views Ledger.view Prod.fst
    ((batchIds batch).zip stamps)
    (I := fun db => varchar 512 ("transient:" ++ reason) = true → db.fits = true) (P := fun _ => Uploading)
    (R := fun _ => Noted 1 uploading (retryPair reason))
    (hkeys.symm ▸ h'.nodup) (fun item _ db hf hu => retryRow_noted hf hu) (fun _ => h'.fits)
    fun item hi => h'.uploading _ (List.of_mem_zip hi).1
  have hbody : (Transaction.retry (batchIds batch) (load mid (batchIds batch)) reason stamps).body rt mid =
      .ok (out,.written) := by
    refine Outcome.bind_ok.mpr ⟨out,?_,rfl⟩
    rw [h'.found]
    exact hout
  have hfresh : (Transaction.retry (batchIds batch) (load mid (batchIds batch)) reason stamps).session.Fresh mid :=
    (begin_fresh (.retry (batchIds batch) reason stamps) rfl).1
  refine ⟨out,fun out' => ⟨fun hok => ?_,?_⟩,hfits,fun id hid => ?_⟩
  · obtain ⟨⟨out₁,reply⟩,hc,hret⟩ := Outcome.bind_ok.mp hok
    obtain ⟨hbody',hf⟩ := Transaction.commit_fresh hfresh hc
    obtain rfl : out = out₁ := (Prod.mk.inj (Except.ok.inj (hbody.symm.trans hbody'))).1
    exact ⟨Outcome.pure_ok.mp hret,hf⟩
  · rintro ⟨rfl,hf⟩
    exact Outcome.bind_ok.mpr ⟨_,Transaction.commit_of_fresh hfresh hbody hf,rfl⟩
  · rw [← hkeys] at hid
    obtain ⟨item,hi,rfl⟩ := List.mem_map.mp hid
    exact (hnoted item hi).of_view ((ho db h.fits).2 _ (List.of_mem_zip hi).1)

theorem retryTransaction_ok {attempt : ℕ} {reason : String} {out : Ledger} (h : BatchReady batch db)
    (ho : Elsewhere batch (env.others attempt)) (hok : retryTransaction rt env batch attempt reason db = .ok out) :
    BatchReady batch out ∧ ∀ id ∈ batchIds batch, Noted 1 uploading (retryPair reason) (db.view id) (out.view id) := by
  obtain ⟨out',hiff,_,hids⟩ := retryTransaction_body rt reason h ho
  obtain ⟨rfl,hf⟩ := (hiff out).mp hok
  refine ⟨⟨h.nodup,fun id hid => ?_,hf⟩,hids⟩
  obtain ⟨_,e',_,he',hs,_⟩ := hids id hid
  exact ⟨e',he',hs⟩

theorem retryTransaction_isOk (rt : Runtime) {attempt : ℕ} {reason : String} (h : BatchReady batch db)
    (ho : Elsewhere batch (env.others attempt)) (hr : varchar 512 ("transient:" ++ reason) = true) :
    ∃ out, retryTransaction rt env batch attempt reason db = .ok out := by
  obtain ⟨out,hiff,hfits,_⟩ := retryTransaction_body rt reason h ho
  exact ⟨out,(hiff out).mpr ⟨rfl,hfits hr⟩⟩

theorem zip_keys {rows : List RowResult} (hlen : rows.length = batch.length) :
    (batch.zip rows).map (fun item => item.1.eventId) = batchIds batch := by
  have hfst : (batch.zip rows).map Prod.fst = batch := List.map_fst_zip (Nat.le_of_eq hlen.symm)
  unfold batchIds
  rw [← hfst, List.map_map, hfst]
  rfl

theorem apply_noted (rt : Runtime) {rows : List RowResult} (h : BatchReady batch db) (hlen : rows.length = batch.length)
    (hrows : ∀ row ∈ rows, row.Fits) (now : Time) : ∃ out,
    (Transaction.apply batch (load db (batchIds batch)) rows now).commit rt db = .ok (out,.written) ∧
    ∀ (i : ℕ) (c : Claimed) (row : RowResult), batch[i]? = some c → rows[i]? = some row →
      Noted 0 (rowEntry row).2.1 [rowEntry row] (db.view c.eventId) (out.view c.eventId) := by
  have hmem : ∀ item ∈ batch.zip rows, item.1.eventId ∈ batchIds batch := fun item hi =>
    List.mem_map_of_mem (List.of_mem_zip hi).1
  obtain ⟨out,hout,hfits,_,hnoted⟩ := Outcome.loop_views Ledger.view
    (fun item : Claimed × RowResult => item.1.eventId) (batch.zip rows)
    (f := applyRow ((load db (batchIds batch)).map Event.eventId) now)
    (I := fun db => db.fits = true) (P := fun _ => Uploading)
    (R := fun item => Noted 0 (rowEntry item.2).2.1 [rowEntry item.2])
    ((zip_keys hlen).symm ▸ h.nodup)
    (fun item hi db' hf hu => applyRow_noted (hrows _ (List.of_mem_zip hi).2)
      (by rw [h.load]; exact hmem item hi) hf hu) h.fits
    fun item hi => h.uploading _ (hmem item hi)
  have hbody : (Transaction.apply batch (load db (batchIds batch)) rows now).body rt db =
      .ok (out,.written) :=
    Outcome.bind_ok.mpr ⟨out,Outcome.bind_ok.mpr ⟨out,hout,if_pos hlen.symm⟩,rfl⟩
  refine ⟨out,Transaction.commit_of_fresh (begin_fresh (.apply batch rows now) rfl).1 hbody hfits,
    fun i c row hc hr => ?_⟩
  exact hnoted (c,row) (List.mem_of_getElem? (List.getElem?_zip_eq_some.mpr ⟨hc,hr⟩))

theorem bury_noted (rt : Runtime) {failure : BatchFailure} (h : BatchReady batch db) (hfail : failure.Fits) (now : Time) :
    ∃ out, (Transaction.bury batch (load db (batchIds batch)) failure now).commit rt db = .ok (out,.written) ∧
      ∀ id ∈ batchIds batch, Noted 0 deadLettered [(some uploading,deadLettered,some failure.reason)]
        (db.view id) (out.view id) := by
  obtain ⟨out,hout,hfits,_,hnoted⟩ := Outcome.loop_views Ledger.view id (batchIds batch)
    (f := deadLetterOne batch failure now) (I := fun db => db.fits = true)
    (P := fun _ => Uploading)
    (R := fun _ => Noted 0 deadLettered [(some uploading,deadLettered,some failure.reason)])
    (by simpa using h.nodup)
    (fun item _ db hf hu => deadLetterOne_noted hfail hf hu) h.fits h.uploading
  have hbody : (Transaction.bury batch (load db (batchIds batch)) failure now).body rt db =
      .ok (out,.written) := by
    refine Outcome.bind_ok.mpr ⟨out,?_,rfl⟩
    unfold deadLetterAll
    rw [h.load]
    exact hout
  exact ⟨out,Transaction.commit_of_fresh (begin_fresh (.bury batch failure now) rfl).1 hbody hfits,
    hnoted⟩

end Transactions

/-! ## The attempts -/

/-- The entries of `n` retries, the first of them after attempt `attempt`. -/
def retryEntries (env : UploadEnv) : ℕ → ℕ → List TrailEntry
  | _, 0 => []
  | attempt, n + 1 =>
    (match env.outcome attempt with
    | .transient reason => retryPair reason
    | _ => []) ++ retryEntries env (attempt + 1) n

/-- `n` retries after attempt `attempt`, of at most `left`: they failed transiently
in time, and the one that ended them did not, or hit a ceiling. -/
structure Attempted (policy : RetryPolicy) (env : UploadEnv) (batch : List Claimed) (left attempt : ℕ)
    (db : Ledger) (n : ℕ) (out : Ledger) : Prop where
  bound : n ≤ left
  retried : ∀ j, attempt ≤ j → j < attempt + n → ∃ reason, env.outcome j = .transient reason ∧
    env.elapsed j < policy.maxElapsed
  ended : ∀ reason, env.outcome (attempt + n) = .transient reason →
    n = left ∨ policy.maxElapsed ≤ env.elapsed (attempt + n)
  ready : BatchReady batch out
  noted : ∀ id ∈ batchIds batch, Noted n uploading (retryEntries env attempt n) (db.view id) (out.view id)

section Attempts
variable {rt : Runtime} {policy : RetryPolicy} {env : UploadEnv} {batch : List Claimed}

/-- No retry at all. -/
theorem Attempted.zero {left attempt : ℕ} {db : Ledger} (h : BatchReady batch db)
    (hend : ∀ reason, env.outcome attempt = .transient reason →
      left = 0 ∨ policy.maxElapsed ≤ env.elapsed attempt) :
    Attempted policy env batch left attempt db 0 db := by
  refine ⟨Nat.zero_le _,fun j h₁ h₂ => by omega,fun reason hr => (hend reason hr).imp Eq.symm id,h,
    fun id hid => ?_⟩
  obtain ⟨e,he,hu⟩ := h.uploading id hid
  exact ⟨e,e,he,he,hu,rfl,(List.append_nil _).symm⟩

/-- What the attempts come to, by induction on those that are left. -/
theorem uploadAttempts_ok (ho : ∀ j, Elsewhere batch (env.others j)) (left attempt : ℕ) {db : Ledger}
    (h : BatchReady batch db) {r : Ledger × List (List Json) × Verdict}
    (hok : uploadAttempts rt policy env batch left attempt db = .ok r) :
    ∃ n out, r = (out,List.replicate (n + 1) (batch.map Claimed.conversion),
        Uploader.verdict (attempt + n) (env.outcome (attempt + n))) ∧
      Attempted policy env batch left attempt db n out := by
  induction left generalizing attempt db r with
  | zero => exact ⟨0,db,(Except.ok.inj hok).symm,.zero h fun _ _ => Or.inl rfl⟩
  | succ left ih =>
    unfold uploadAttempts at hok
    cases hout : env.outcome attempt with
    | result rows | permanent reason =>
      rw [hout] at hok
      obtain rfl := Except.ok.inj hok
      have hlast : env.outcome (attempt + 0) = _ := hout
      refine ⟨0,db,by rw [hlast]; rfl,.zero h fun reason hr => ?_⟩
      rw [hout] at hr
      cases hr
    | transient reason =>
      rw [hout] at hok
      dsimp only at hok
      split at hok
      · next hstop =>
        obtain rfl := Except.ok.inj hok
        have hlast : env.outcome (attempt + 0) = _ := hout
        exact ⟨0,db,by rw [hlast]; rfl,.zero h fun _ _ => Or.inr hstop⟩
      · next hstop =>
        obtain ⟨mid,hmid,hok⟩ := Outcome.bind_ok.mp hok
        obtain ⟨⟨out,calls,verdict⟩,hcalls,hret⟩ := Outcome.bind_ok.mp hok
        obtain ⟨hready,hpair⟩ := retryTransaction_ok h (ho attempt) hmid
        obtain ⟨n,_,⟨⟩,ha⟩ := ih (attempt + 1) hready hcalls
        obtain rfl := Outcome.pure_ok.mp hret
        have hnext : attempt + 1 + n = attempt + (n + 1) := by omega
        refine ⟨n + 1,out,by rw [← hnext]; rfl,Nat.succ_le_succ ha.bound,fun j h₁ h₂ => ?_,fun reason hr => ?_,
          ha.ready,fun id hid => ?_⟩
        · by_cases hj : j = attempt
          · subst hj
            exact ⟨reason,hout,lt_of_not_ge hstop⟩
          · exact ha.retried j (by omega) (by omega)
        · rw [← hnext] at hr ⊢
          exact (ha.ended reason hr).imp (congrArg Nat.succ) id
        · have hall := (hpair id hid).trans (ha.noted id hid)
          rw [Nat.add_comm] at hall
          unfold retryEntries
          rw [hout]
          exact hall

/-- They come to an end if the reasons of the retries fit. -/
theorem uploadAttempts_isOk (rt : Runtime) (ho : ∀ j, Elsewhere batch (env.others j)) (left attempt : ℕ) {db : Ledger}
    (h : BatchReady batch db)
    (hfit : ∀ j reason, attempt ≤ j → j < attempt + left →
      (∀ i, attempt ≤ i → i < j → ∃ reason, env.outcome i = .transient reason ∧ env.elapsed i < policy.maxElapsed) →
      env.outcome j = .transient reason → env.elapsed j < policy.maxElapsed →
      varchar 512 ("transient:" ++ reason) = true) :
    ∃ r, uploadAttempts rt policy env batch left attempt db = .ok r := by
  induction left generalizing attempt db with
  | zero => exact ⟨_,rfl⟩
  | succ left ih =>
    unfold uploadAttempts
    cases hout : env.outcome attempt with
    | result rows | permanent reason => exact ⟨_,rfl⟩
    | transient reason =>
      dsimp only
      split
      · exact ⟨_,rfl⟩
      · next hstop =>
        have htime : env.elapsed attempt < policy.maxElapsed := lt_of_not_ge hstop
        have hr := hfit attempt reason le_rfl (by omega) (fun i h₁ h₂ => absurd h₁ (by omega)) hout htime
        obtain ⟨mid,hmid⟩ := retryTransaction_isOk rt h (ho attempt) hr
        obtain ⟨r,hr⟩ := ih (attempt + 1) (retryTransaction_ok h (ho attempt) hmid).1 fun j reason h₁ h₂ hbefore =>
          hfit j reason (by omega) (by omega) fun i h₃ h₄ => by
            by_cases hi : i = attempt
            · exact hi ▸ ⟨_,hout,htime⟩
            · exact hbefore i (by omega) h₄
        exact ⟨_,Outcome.bind_ok.mpr ⟨mid,hmid,Outcome.bind_ok.mpr ⟨r,hr,rfl⟩⟩⟩

theorem retryEntries_mem {attempt n j : ℕ} {reason : String} (h₁ : attempt ≤ j) (h₂ : j < attempt + n)
    (hout : env.outcome j = .transient reason) :
    (some uploading,failedRetryable,some ("transient:" ++ reason)) ∈ retryEntries env attempt n := by
  induction n generalizing attempt with
  | zero => omega
  | succ n ih =>
    by_cases hj : j = attempt
    · subst hj
      simp [retryEntries,hout,retryPair]
    · exact List.mem_append_right _ (ih (by omega) (by omega))

/-- The reasons of the retries that were committed fit. -/
theorem Attempted.reason_fits {left attempt n j : ℕ} {db out : Ledger} {reason : String}
    (h : Attempted policy env batch left attempt db n out) (hne : batch ≠ []) (h₁ : attempt ≤ j)
    (h₂ : j < attempt + n) (hout : env.outcome j = .transient reason) :
    varchar 512 ("transient:" ++ reason) = true := by
  obtain ⟨c,hc⟩ := List.exists_mem_of_ne_nil batch hne
  obtain ⟨_,_,_,_,_,_,htrail⟩ := h.noted c.eventId (List.mem_map_of_mem hc)
  have hmem : (some uploading,failedRetryable,some ("transient:" ++ reason)) ∈ (out.view c.eventId).2 := by
    rw [htrail]
    exact List.mem_append_right _ (retryEntries_mem h₁ h₂ hout)
  exact trail_fits h.ready.fits hmem

end Attempts

/-! ## The batch -/

/-- The last entry of row `i`, by the outcome of the last attempt. -/
inductive Ends (attempt i : ℕ) : UploadOutcome → TrailEntry → Prop
  | row {rows : List RowResult} {row : RowResult} (h : rows[i]? = some row) :
      Ends attempt i (.result rows) (rowEntry row)
  | permanent (reason : String) : Ends attempt i (.permanent reason)
      (some uploading,deadLettered,some ("permanent:" ++ reason))
  | exhausted (reason : String) : Ends attempt i (.transient reason)
      (some uploading,deadLettered,some ("poison:" ++ reason ++ ":after_" ++ toString attempt ++ "_attempts"))

/-- How a batch ends: with `k` calls of the client, all of them the same, `k - 1`
retries in the trail of every event, and one final transition. -/
structure BatchEnds (policy : RetryPolicy) (env : UploadEnv) (batch : List Claimed) (db out : Ledger)
    (calls : List (List Json)) (report : CycleReport) : Prop where
  pos : 1 ≤ calls.length
  bound : calls.length ≤ policy.maxAttempts
  same : ∀ call ∈ calls, call = batch.map Claimed.conversion
  retried : ∀ j, 1 ≤ j → j < calls.length → ∃ reason, env.outcome j = .transient reason ∧
    env.elapsed j < policy.maxElapsed
  ended : ∀ reason, env.outcome calls.length = .transient reason →
    calls.length = policy.maxAttempts ∨ policy.maxElapsed ≤ env.elapsed calls.length
  events : ∀ (i : ℕ) (c : Claimed), batch[i]? = some c →
    ∃ entry, Ends calls.length i (env.outcome calls.length) entry ∧
      Noted (calls.length - 1) entry.2.1 (retryEntries env 1 (calls.length - 1) ++ [entry])
        (db.view c.eventId) (out.view c.eventId)
  answered : ∀ rows, env.outcome calls.length = .result rows →
    report = (batch.zip rows).foldl (fun report item => report.count item.2) ⟨0,0,0⟩
  buried : (∀ rows, env.outcome calls.length ≠ .result rows) → report = ⟨0,0,batch.length⟩
  report : report.uploaded + report.retryLater + report.deadLettered = batch.length

section Batch
variable {policy : RetryPolicy} {env : UploadEnv} {batch : List Claimed}

theorem count_total (report : CycleReport) (row : RowResult) :
    (report.count row).uploaded + (report.count row).retryLater + (report.count row).deadLettered =
      report.uploaded + report.retryLater + report.deadLettered + 1 := by
  unfold CycleReport.count
  split
  · dsimp only
    omega
  · split
    · dsimp only
      omega
    · dsimp only
      omega

theorem foldl_count_total (items : List (Claimed × RowResult)) (report : CycleReport) :
    let final := items.foldl (fun report item => report.count item.2) report
    final.uploaded + final.retryLater + final.deadLettered =
      report.uploaded + report.retryLater + report.deadLettered + items.length := by
  induction items generalizing report with
  | nil => rfl
  | cons item rest ih =>
    have hrest := ih (report.count item.2)
    have hone := count_total report item.2
    dsimp only [List.foldl_cons, List.length_cons] at hrest ⊢
    omega

/-- A batch whose attempts are over, once the last outcome is written back. -/
theorem Attempted.ends {n : ℕ} {db mid out : Ledger} {report : CycleReport}
    (h : Attempted policy env batch (policy.maxAttempts - 1) 1 db n mid)
    (hfinal : ∀ (i : ℕ) (c : Claimed), batch[i]? = some c → ∃ entry,
      Ends (1 + n) i (env.outcome (1 + n)) entry ∧
      Noted 0 entry.2.1 [entry] (mid.view c.eventId) (out.view c.eventId))
    (hanswered : ∀ rows, env.outcome (1 + n) = .result rows →
      report = (batch.zip rows).foldl (fun report item => report.count item.2) ⟨0,0,0⟩)
    (hburied : (∀ rows, env.outcome (1 + n) ≠ .result rows) → report = ⟨0,0,batch.length⟩)
    (hreport : report.uploaded + report.retryLater + report.deadLettered = batch.length) :
    BatchEnds policy env batch db out (List.replicate (n + 1) (batch.map Claimed.conversion)) report := by
  have hpos := policy.maxAttempts_pos
  have hbound := h.bound
  have hlen : (List.replicate (n + 1) (batch.map Claimed.conversion)).length = 1 + n := by
    rw [List.length_replicate, Nat.add_comm]
  have hpred : 1 + n - 1 = n := Nat.add_sub_cancel_left 1 n
  refine ⟨?_,?_,fun call hc => (List.mem_replicate.mp hc).2,?_,?_,?_,?_,?_,hreport⟩ <;> rw [hlen]
  · omega
  · omega
  · exact fun j h₁ h₂ => h.retried j h₁ h₂
  · exact fun reason hr => (h.ended reason hr).imp (fun heq => by omega) id
  · intro i c hc
    obtain ⟨entry,hend,hnoted⟩ := hfinal i c hc
    have hid : c.eventId ∈ batchIds batch := List.mem_map_of_mem (List.mem_of_getElem? hc)
    refine ⟨entry,hend,?_⟩
    rw [hpred]
    exact (h.noted _ hid).trans hnoted
  · exact hanswered
  · exact hburied

end Batch

/-! ## A batch of one -/

def uploadingLedger : Ledger :=
  (serialRun (clickRuntime 1704067200000) Ledger.empty claimAndDie).getD Ledger.empty

theorem uploadingLedger_ready : BatchReady [⟨"hubspot:1",1,.null⟩] uploadingLedger := by
  refine ⟨by simp [batchIds],fun id hid => ?_,by decide +kernel⟩
  obtain rfl : id = "hubspot:1" := by simpa [batchIds] using hid
  have h : (uploadingLedger.getEvent "hubspot:1").any (fun e => e.status = uploading) = true := by
    decide +kernel
  obtain ⟨e,he,hu⟩ := (Option.any_eq_true _ _).mp h
  exact ⟨e,he,of_decide_eq_true hu⟩

end ConversionGateway
