import ConversionGateway.System.RowOutcomes

/-! # Which batches end as they should

Every attempt writes something: the reason of a retry, the results of the rows, or
the record of a whole batch. The batch ends as it should if the ledger can store what
those of its attempts have it write that take place, and only then.
-/
namespace ConversionGateway
open Relational EventStatus

/-- Attempt `j` takes place: those before it failed transiently, in time. -/
def RetryPolicy.Reaches (policy : RetryPolicy) (env : UploadEnv) (j : ℕ) : Prop :=
  1 ≤ j ∧ j ≤ policy.maxAttempts ∧
    ∀ i, 1 ≤ i → i < j → ∃ reason, env.outcome i = .transient reason ∧ env.elapsed i < policy.maxElapsed

/-- The ledger can store what attempt `j` has it write: the messages of the rows that are
refused for good, the reason of a retry, the record of a batch that is given up. -/
def RetryPolicy.Storable (policy : RetryPolicy) (env : UploadEnv) (j : ℕ) : Prop :=
  match env.outcome j with
  | .result rows => ∀ row ∈ rows, row.status = deadLettered → ∀ m ∈ cutMessage row.message, Char.ofNat 0 ∉ m.toList
  | .permanent reason => (permanentFailure reason).Fits
  | .transient reason =>
    if j < policy.maxAttempts ∧ env.elapsed j < policy.maxElapsed then varchar 512 ("transient:" ++ reason) = true
    else (poisonFailure reason j).Fits

/-- The results of an attempt are one for each row, and their codes fit. -/
def RetryPolicy.CodesFit (policy : RetryPolicy) (env : UploadEnv) (batch : List Claimed) : Prop :=
  ∀ j rows, policy.Reaches env j → env.outcome j = .result rows → rows.length = batch.length ∧
    ∀ row ∈ rows, row.status = deadLettered → varchar 128 row.code = true

/-! ## The record of a whole batch -/

section Bury
variable {rt : Runtime} {batch : List Claimed} {db : Ledger} {failure : BatchFailure}

/-- One event of the batch has its record, and no other is touched. -/
theorem deadLetterOne_files (batch : List Claimed) (failure : BatchFailure) (now : Time) {id : String}
    (h : (db.account id).Uploading) : ∃ out, deadLetterOne batch failure now db id = .ok out ∧
      (∀ k, k ≠ id → out.account k = db.account k) ∧ ∃ d ∈ (out.account id).letters,
        d.reason = failure.reason ∧ d.platformErrorCode = some failure.errorCode ∧
        d.platformErrorMessage = cutMessage (some failure.errorMessage) := by
  obtain ⟨e,he,hu⟩ := h
  have he : db.getEvent id = some e := he
  obtain rfl : e.eventId = id := Ledger.getEvent_eventId he
  set moved := e.moved deadLettered (some failure.reason) with hm
  have hmove : transition db e deadLettered (some failure.reason) now =
      .ok (db.record e moved (some failure.reason) now,moved) :=
    transition_of_allowed (allowed_of_uploading hu (by simp)) _ now
  unfold deadLetterOne deadLetter
  rw [he]
  refine ⟨_,Outcome.bind_ok.mpr ⟨_,hmove,rfl⟩,fun k hk => ?_,?_⟩
  · exact (addDeadLetter_account_of_ne _ (Ne.symm hk)).trans (record_account_of_ne he moved rfl _ hk)
  · rw [addDeadLetter_account, if_pos (by rfl)]
    exact ⟨_,List.mem_append_right _ (List.mem_singleton_self _),rfl,rfl,rfl⟩

/-- A batch of at least one event commits its records if they fit, and only then. -/
theorem bury_isOk (rt : Runtime) (h : BatchReady batch db) (hne : batch ≠ []) (failure : BatchFailure) (now : Time) :
    (∃ out, (Transaction.bury batch (load db (batchIds batch)) failure now).commit rt db = .ok (out,.written)) ↔
      failure.Fits := by
  refine ⟨fun ⟨out,hc⟩ => ?_,fun hfail => ?_⟩
  · obtain ⟨hbody,hfits⟩ := Transaction.commit_fresh (begin_fresh (.bury batch failure now) rfl).1 hc
    obtain ⟨out',hout',_,_,hletters⟩ := Outcome.loop_views Ledger.account id (batchIds batch)
      (f := deadLetterOne batch failure now) (I := fun _ => True) (P := fun _ => Account.Uploading)
      (R := fun _ _ v => ∃ d ∈ v.letters, d.reason = failure.reason ∧
        d.platformErrorCode = some failure.errorCode ∧ d.platformErrorMessage = cutMessage (some failure.errorMessage))
      (by simpa using h.nodup)
      (fun id _ db _ hu => by
        obtain ⟨out,hout,hframe,hd⟩ := deadLetterOne_files batch failure now hu
        exact ⟨out,hout,trivial,hframe,hd⟩)
      trivial h.uploading
    obtain ⟨out₁,hall,hret⟩ := Outcome.bind_ok.mp hbody
    unfold deadLetterAll at hall
    rw [h.load] at hall
    cases hret
    obtain rfl : out' = out := Except.ok.inj (hout'.symm.trans hall)
    obtain ⟨c,hcm⟩ := List.exists_mem_of_ne_nil batch hne
    obtain ⟨d,hd,hreason,hcode,hmessage⟩ := hletters c.eventId (List.mem_map_of_mem hcm)
    have hfit : d.fits = true := (Ledger.fits_iff.mp hfits).2.2 d (List.mem_filter.mp hd).1
    simp only [DeadLetter.fits, Bool.and_eq_true, hreason, hcode, hmessage] at hfit
    exact ⟨hfit.1.1.2,hfit.1.2,hfit.2⟩
  · obtain ⟨out,hc,_⟩ := bury_noted rt h hfail now
    exact ⟨out,hc⟩

end Bury

/-! ## The batch -/

section Batch
variable {rt : Runtime} {policy : RetryPolicy} {env : UploadEnv} {batch : List Claimed} {db : Ledger}

/-- The attempts that take place are those that were made. -/
theorem Attempted.reaches {n : ℕ} {mid : Ledger}
    (h : Attempted policy env batch (policy.maxAttempts - 1) 1 db n mid) {j : ℕ} :
    policy.Reaches env j ↔ 1 ≤ j ∧ j ≤ 1 + n := by
  have hpos := policy.maxAttempts_pos
  have hbound := h.bound
  refine ⟨fun ⟨h₁,hA,hbefore⟩ => ⟨h₁,?_⟩,fun ⟨h₁,hn⟩ => ⟨h₁,by omega,fun i h₂ h₃ => h.retried i h₂ (by omega)⟩⟩
  by_contra hlt
  obtain ⟨reason,hout,htime⟩ := hbefore (1 + n) (by omega) (by omega)
  rcases h.ended reason hout with hall | hstop
  · omega
  · exact absurd htime (not_lt_of_ge hstop)

/-- After the last of them there is no retry. -/
theorem Attempted.last {n : ℕ} {mid : Ledger} (h : Attempted policy env batch (policy.maxAttempts - 1) 1 db n mid)
    {reason : String} (hout : env.outcome (1 + n) = .transient reason) :
    ¬ (1 + n < policy.maxAttempts ∧ env.elapsed (1 + n) < policy.maxElapsed) := by
  rintro ⟨hA,htime⟩
  rcases h.ended reason hout with hall | hstop
  · omega
  · exact absurd htime (not_lt_of_ge hstop)

/-- The reply of a transaction that only writes. -/
theorem written_of_commit {tx : Transaction} {f : Ledger → Except PyError Ledger}
    (htx : ∀ db, tx.body rt db = f db >>= fun out => pure (out,.written)) {out : Ledger} {reply : Reply}
    (hc : tx.commit rt db = .ok (out,reply)) : reply = .written := by
  obtain ⟨_,hb,_⟩ := Transaction.commit_ok.mp hc
  rw [htx] at hb
  obtain ⟨_,_,hret⟩ := Outcome.bind_ok.mp hb
  cases hret
  rfl

/-- All but the last attempt were retried. -/
theorem Attempted.storable {n : ℕ} {mid : Ledger} (ha : Attempted policy env batch (policy.maxAttempts - 1) 1 db n mid)
    (hne : batch ≠ []) (hlast : policy.Storable env (1 + n)) {j : ℕ} (hj : policy.Reaches env j) :
    policy.Storable env j := by
  obtain ⟨h₁,hn⟩ := ha.reaches.mp hj
  by_cases hjn : j = 1 + n
  · exact hjn ▸ hlast
  · obtain ⟨reason,hout,htime⟩ := ha.retried j h₁ (by omega)
    have hA := hj.2.1
    have hbound := ha.bound
    unfold RetryPolicy.Storable
    rw [hout]
    dsimp only
    rw [if_pos ⟨by omega,htime⟩]
    exact ha.reason_fits hne h₁ (by omega) hout

section Last
variable {n : ℕ} {mid out : Ledger} {others : Ledger → Ledger} {now : Time} {reply : Reply}

/-- The last attempt was answered for each row, and what it has the ledger store went in. -/
theorem Attempted.applied (ha : Attempted policy env batch (policy.maxAttempts - 1) 1 db n mid)
    (ho : Elsewhere batch others) {rows : List RowResult} (hout : env.outcome (1 + n) = .result rows)
    (hlen : rows.length = batch.length)
    (hc : (Transaction.apply batch (load (others mid) (batchIds batch)) rows now).commit rt (others mid) =
      .ok (out,reply)) :
    policy.Storable env (1 + n) ∧ BatchEnds policy env batch db out
      (List.replicate (n + 1) (batch.map Claimed.conversion))
      ((batch.zip rows).foldl (fun report item => report.count item.2) ⟨0,0,0⟩) := by
  obtain rfl := written_of_commit (fun _ => rfl) hc
  have hready := ha.ready.others ho
  have hall := (apply_isOk rt hready hlen now).mp ⟨_,hc⟩
  obtain ⟨out',hc',hrows⟩ := apply_noted rt hready hlen (fun row hrow => RowResult.storable_iff.mp (hall row hrow)) now
  obtain rfl : out = out' := (Prod.mk.inj (Except.ok.inj (hc.symm.trans hc'))).1
  refine ⟨?_,ha.ends (fun i c hi => ?_) (fun rows' hr => ?_) (fun hr => absurd hout (hr rows)) ?_⟩
  · unfold RetryPolicy.Storable
    rw [hout]
    exact fun row hrow => (hall row hrow).message
  · obtain ⟨row,hrow⟩ : ∃ row, rows[i]? = some row := by
      have hlt : i < rows.length := hlen ▸ (List.getElem?_eq_some_iff.mp hi).1
      exact ⟨rows[i],List.getElem?_eq_getElem hlt⟩
    rw [hout]
    exact ⟨rowEntry row,.row hrow,(hrows i c row hi hrow).of_view
      ((ho mid ha.ready.fits).2 _ (List.mem_map_of_mem (List.mem_of_getElem? hi)))⟩
  · rw [UploadOutcome.result.inj (hout.symm.trans hr)]
  · have htotal := foldl_count_total (batch.zip rows) ⟨0,0,0⟩
    dsimp only at htotal ⊢
    rw [htotal, List.length_zip, hlen, Nat.min_self, Nat.zero_add]

/-- The last attempt was not answered, and the records of the batch went in. -/
theorem Attempted.buried (ha : Attempted policy env batch (policy.maxAttempts - 1) 1 db n mid)
    (ho : Elsewhere batch others) (hne : batch ≠ []) {failure : BatchFailure}
    (hend : ∀ i, Ends (1 + n) i (env.outcome (1 + n)) (some uploading,deadLettered,some failure.reason))
    (hno : ∀ rows, env.outcome (1 + n) ≠ .result rows)
    (hc : (Transaction.bury batch (load (others mid) (batchIds batch)) failure now).commit rt (others mid) =
      .ok (out,reply)) :
    failure.Fits ∧ BatchEnds policy env batch db out (List.replicate (n + 1) (batch.map Claimed.conversion))
      ⟨0,0,batch.length⟩ := by
  obtain rfl := written_of_commit (fun _ => rfl) hc
  have hready := ha.ready.others ho
  have hfail := (bury_isOk rt hready hne failure now).mp ⟨out,hc⟩
  obtain ⟨out',hc',hids⟩ := bury_noted rt hready hfail now
  obtain rfl : out = out' := (Prod.mk.inj (Except.ok.inj (hc.symm.trans hc'))).1
  refine ⟨hfail,ha.ends (fun i c hi => ⟨_,hend i,?_⟩) (fun rows hr => absurd hr (hno rows)) (fun _ => rfl) (by simp)⟩
  have hid : c.eventId ∈ batchIds batch := List.mem_map_of_mem (List.mem_of_getElem? hi)
  exact (hids _ hid).of_view ((ho mid ha.ready.fits).2 _ hid)

end Last

/-- What a batch that was uploaded leaves, and what must then have fitted. -/
theorem uploadBatch_ok (now : Time) (h : BatchReady batch db) (hne : batch ≠ [])
    (ho : ∀ j, Elsewhere batch (env.others j)) (hcodes : policy.CodesFit env batch) {out : Ledger}
    {calls : List (List Json)} {report : CycleReport}
    (hok : uploadBatch rt policy env batch db now = .ok (out,calls,report)) :
    BatchEnds policy env batch db out calls report ∧ ∀ j, policy.Reaches env j → policy.Storable env j := by
  obtain ⟨r,hattempts,hok⟩ := Outcome.bind_ok.mp hok
  obtain ⟨n,mid,rfl,ha⟩ := uploadAttempts_ok ho (policy.maxAttempts - 1) 1 h hattempts
  have hlast : policy.Reaches env (1 + n) := ha.reaches.mpr ⟨by omega,le_rfl⟩
  cases hout : env.outcome (1 + n) with
  | result rows =>
    rw [hout] at hok
    obtain ⟨⟨out',reply⟩,hc,hret⟩ := Outcome.bind_ok.mp hok
    simp only [Outcome.pure_ok, Prod.mk.injEq] at hret
    obtain ⟨rfl,rfl,rfl⟩ := hret
    obtain ⟨hfit,hends⟩ := ha.applied (ho _) hout (hcodes _ _ hlast hout).1 hc
    exact ⟨hends,fun _ => ha.storable hne hfit⟩
  | permanent reason =>
    rw [hout] at hok
    obtain ⟨⟨out',reply⟩,hc,hret⟩ := Outcome.bind_ok.mp hok
    simp only [Outcome.pure_ok, Prod.mk.injEq] at hret
    obtain ⟨rfl,rfl,rfl⟩ := hret
    obtain ⟨hfail,hends⟩ := ha.buried (ho _) hne (fun i => hout ▸ Ends.permanent reason) (by simp [hout]) hc
    refine ⟨hends,fun _ => ha.storable hne ?_⟩
    unfold RetryPolicy.Storable
    rw [hout]
    exact hfail
  | transient reason =>
    rw [hout] at hok
    obtain ⟨⟨out',reply⟩,hc,hret⟩ := Outcome.bind_ok.mp hok
    simp only [Outcome.pure_ok, Prod.mk.injEq] at hret
    obtain ⟨rfl,rfl,rfl⟩ := hret
    obtain ⟨hfail,hends⟩ := ha.buried (ho _) hne (fun i => hout ▸ Ends.exhausted reason) (by simp [hout]) hc
    refine ⟨hends,fun _ => ha.storable hne ?_⟩
    unfold RetryPolicy.Storable
    rw [hout]
    dsimp only
    rw [if_neg (ha.last hout)]
    exact hfail

/-- Where everything fits, nothing raises. -/
theorem uploadBatch_isOk (rt : Runtime) (now : Time) (h : BatchReady batch db) (hne : batch ≠ [])
    (ho : ∀ j, Elsewhere batch (env.others j)) (hcodes : policy.CodesFit env batch)
    (hfit : ∀ j, policy.Reaches env j → policy.Storable env j) :
    ∃ out calls report, uploadBatch rt policy env batch db now = .ok (out,calls,report) := by
  have hpos := policy.maxAttempts_pos
  obtain ⟨r,hattempts⟩ := uploadAttempts_isOk rt ho (policy.maxAttempts - 1) 1 h
    fun j reason h₁ hlt hbefore hout htime => by
      have hj := hfit j ⟨h₁,by omega,hbefore⟩
      unfold RetryPolicy.Storable at hj
      rw [hout] at hj
      dsimp only at hj
      rwa [if_pos ⟨by omega,htime⟩] at hj
  obtain ⟨n,mid,rfl,ha⟩ := uploadAttempts_ok ho (policy.maxAttempts - 1) 1 h hattempts
  set all := List.replicate (n + 1) (batch.map Claimed.conversion)
  have hready := ha.ready.others (ho all.length)
  have hreach : policy.Reaches env (1 + n) := ha.reaches.mpr ⟨by omega,le_rfl⟩
  have hlast := hfit (1 + n) hreach
  unfold RetryPolicy.Storable at hlast
  cases hout : env.outcome (1 + n) with
  | result rows =>
    rw [hout] at hattempts hlast
    obtain ⟨hlen,hcode⟩ := hcodes _ _ hreach hout
    obtain ⟨out,hc⟩ := (apply_isOk rt hready hlen now).mpr fun row hrow => ⟨hcode row hrow,hlast row hrow⟩
    exact ⟨out,all,_,Outcome.bind_ok.mpr ⟨_,hattempts,Outcome.bind_ok.mpr ⟨_,hc,rfl⟩⟩⟩
  | permanent reason =>
    rw [hout] at hattempts hlast
    obtain ⟨out,hc⟩ := (bury_isOk rt hready hne (permanentFailure reason) now).mpr hlast
    exact ⟨out,all,_,Outcome.bind_ok.mpr ⟨_,hattempts,Outcome.bind_ok.mpr ⟨_,hc,rfl⟩⟩⟩
  | transient reason =>
    have hno := ha.last hout
    rw [hout] at hattempts hlast
    dsimp only at hlast
    rw [if_neg hno] at hlast
    obtain ⟨out,hc⟩ := (bury_isOk rt hready hne (poisonFailure reason (1 + n)) now).mpr hlast
    exact ⟨out,all,_,Outcome.bind_ok.mpr ⟨_,hattempts,Outcome.bind_ok.mpr ⟨_,hc,rfl⟩⟩⟩

/-- `upload_batch` on events that nobody else touches, whatever the client's outcomes and
however long the attempts take, ends as it should exactly if the ledger can store what
the attempts have it write. -/
theorem uploadBatch_ends_iff (rt : Runtime) (policy : RetryPolicy) (env : UploadEnv) (batch : List Claimed)
    (db : Ledger) (now : Time) (h : BatchReady batch db) (hne : batch ≠ [])
    (ho : ∀ j, Elsewhere batch (env.others j)) (hcodes : policy.CodesFit env batch) :
    (∃ out calls report, uploadBatch rt policy env batch db now = .ok (out,calls,report) ∧
      BatchEnds policy env batch db out calls report) ↔ ∀ j, policy.Reaches env j → policy.Storable env j := by
  constructor
  · rintro ⟨out,calls,report,hok,_⟩
    exact (uploadBatch_ok now h hne ho hcodes hok).2
  · intro hfit
    obtain ⟨out,calls,report,hok⟩ := uploadBatch_isOk rt now h hne ho hcodes hfit
    exact ⟨out,calls,report,hok,(uploadBatch_ok now h hne ho hcodes hok).1⟩

end Batch

/-! ## Two rows, answered for at the second attempt -/

/-- The platform is unavailable once; then it takes the first row and refuses the second
with the message. -/
def secondTime (message : String) : UploadEnv where
  outcome j := if j = 1 then .transient "http_503" else .result (pairRows message)
  elapsed j := j
  clock j i := j + i
  others _ db := db

theorem secondTime_codes (message : String) :
    RetryPolicy.CodesFit ⟨3,600000000,by decide⟩ (secondTime message) pairBatch := by
  intro j rows _ hout
  have hrows : rows = pairRows message := by
    unfold secondTime at hout
    dsimp only at hout
    split at hout
    · cases hout
    · exact (UploadOutcome.result.inj hout).symm
  subst hrows
  refine ⟨rfl,fun row hrow hd => ?_⟩
  rcases List.mem_cons.mp hrow with rfl | hrow
  · exact absurd hd (by simp [RowResult.status])
  · rw [List.mem_singleton.mp hrow]
    change varchar 128 "INVALID" = true
    decide

theorem secondTime_reaches (message : String) {j : ℕ} (h : RetryPolicy.Reaches ⟨3,600000000,by decide⟩ (secondTime message) j) :
    j = 1 ∨ j = 2 := by
  obtain ⟨h₁,_,hbefore⟩ := h
  by_contra hj
  obtain ⟨reason,hout,_⟩ := hbefore 2 (by omega) (by omega)
  cases hout

theorem uploadBatch_ends_iff_pair : ∃ out calls report,
    uploadBatch (clickRuntime 1704067200000) ⟨3,600000000,by decide⟩ (secondTime "refused") pairBatch pairLedger 7 =
      .ok (out,calls,report) ∧
    BatchEnds ⟨3,600000000,by decide⟩ (secondTime "refused") pairBatch pairLedger out calls report := by
  refine (uploadBatch_ends_iff (clickRuntime 1704067200000) ⟨3,600000000,by decide⟩ (secondTime "refused") pairBatch
    pairLedger 7 pairLedger_ready (by simp [pairBatch]) (fun _ db hf => ⟨hf,fun _ _ => rfl⟩)
    (secondTime_codes "refused")).mpr fun j hj => ?_
  rcases secondTime_reaches "refused" hj with rfl | rfl
  · change if 1 < 3 ∧ (1 : ℤ) < 600000000 then varchar 512 ("transient:" ++ "http_503") = true
      else (poisonFailure "http_503" 1).Fits
    rw [if_pos (by decide)]
    decide
  · change ∀ row ∈ pairRows "refused", row.status = deadLettered → ∀ m ∈ cutMessage row.message,
      Char.ofNat 0 ∉ m.toList
    decide

/-- The message of the second row cannot be stored, and no event of the batch gets its last
transition. -/
theorem not_uploadBatch_ends_nul : BatchReady pairBatch pairLedger ∧
    RetryPolicy.CodesFit ⟨3,600000000,by decide⟩ (secondTime (String.singleton (Char.ofNat 0))) pairBatch ∧
    ¬ ∃ out calls report, uploadBatch (clickRuntime 1704067200000) ⟨3,600000000,by decide⟩
      (secondTime (String.singleton (Char.ofNat 0))) pairBatch pairLedger 7 = .ok (out,calls,report) := by
  refine ⟨pairLedger_ready,secondTime_codes _,fun ⟨out,calls,report,hok⟩ => ?_⟩
  have hall := (uploadBatch_ok 7 pairLedger_ready (by simp [pairBatch])
    (fun _ db hf => ⟨hf,fun _ _ => rfl⟩) (secondTime_codes _) hok).2 2
      ⟨by decide,by decide,fun i h₁ h₂ => ⟨"http_503",by
        obtain rfl : i = 1 := by omega
        rfl,by
        obtain rfl : i = 1 := by omega
        decide⟩⟩
  exact absurd (hall _ (List.mem_cons_of_mem _ List.mem_cons_self) (by decide) _ rfl) (by decide)

end ConversionGateway
