import ConversionGateway.Lifecycle.DeadLetterHistory
import ConversionGateway.Model.ErrorDetails
import ConversionGateway.System.UploadBatch

/-! # The outcome of each row

What `apply_result` leaves of an event is given by what the ledger had on it and
by the result at its own index. The transaction writes all of it or nothing, so
one text that a column refuses undoes the outcome of every row.
-/
namespace ConversionGateway
open Relational EventStatus

/-- All that the ledger has on an event. -/
structure Account where
  row : Option Event
  trail : List EventTransition
  letters : List DeadLetter

def Ledger.account (db : Ledger) (k : String) : Account :=
  ⟨db.getEvent k,db.listTransitions k,db.letters k⟩

/-- The serial numbers depend on what else is written, and are left out. -/
def Account.unnumbered (v : Account) : Account :=
  ⟨v.row,v.trail.map fun t => { t with id := 0 },v.letters.map fun d => { d with id := 0 }⟩

/-- The record of a refused row, given the trail that it closes. -/
def RowResult.letter (row : RowResult) (e : Event) (payload : Json) (trail : List EventTransition)
    (now : Time) : DeadLetter :=
  { id := 0, eventId := e.eventId, source := e.source, conversionAction := e.conversionAction
    deadLetteredAt := now, failureClass := .partialFailure, reason := "permanent_row:" ++ row.code
    platformErrorCode := some row.code, platformErrorMessage := cutMessage row.message
    payload := payload, attemptHistory := trail.map EventTransition.historyEntry
    replayedAt := none, replayCount := 0 }

/-- What becomes of an event, by its own result. -/
def Account.settle (v : Account) (payload : Json) (row : RowResult) (now : Time) : Account :=
  match v.row with
  | none => v
  | some e =>
    let trail := v.trail ++ [⟨0,e.eventId,some e.status,row.status,row.reason,now⟩]
    ⟨some (e.moved row.status row.reason),trail,
      v.letters ++ if row.status = deadLettered then [row.letter e payload trail now] else []⟩

section Rows
variable {db : Ledger} {e : Event} {now : Time}

theorem record_account_of_ne (he : db.getEvent e.eventId = some e) (e' : Event) (hk : e'.eventId = e.eventId)
    (reason : Option String) {k : String} (hne : k ≠ e.eventId) :
    (db.record e e' reason now).account k = db.account k := by
  have hrow : (db.record e e' reason now).getEvent k = db.getEvent k :=
    (Ledger.record_getEvent he hk k).trans (if_neg hne)
  unfold Ledger.account
  rw [hrow, Ledger.record_listTransitions, if_neg (Ne.symm hne), List.append_nil]
  rfl

theorem record_account (he : db.getEvent e.eventId = some e) (e' : Event) (hk : e'.eventId = e.eventId)
    (reason : Option String) : (db.record e e' reason now).account e.eventId =
      ⟨some e',db.listTransitions e.eventId ++
        [⟨db.transitions.next,e.eventId,some e.status,e'.status,reason,now⟩],db.letters e.eventId⟩ := by
  have hrow : (db.record e e' reason now).getEvent e.eventId = some e' :=
    (Ledger.record_getEvent he hk e.eventId).trans (if_pos rfl)
  unfold Ledger.account
  rw [hrow, Ledger.record_listTransitions, if_pos rfl]
  rfl

theorem addDeadLetter_account (letter : DeadLetter) (h : letter.id = db.deadLetters.next) (k : String) :
    (db.addDeadLetter letter h).account k = { db.account k with
      letters := (db.account k).letters ++ if letter.eventId = k then [letter] else [] } := by
  simp [Ledger.account,Ledger.letters,Ledger.addDeadLetter,Ledger.getEvent,
    Ledger.listTransitions,List.filter_cons]

theorem addDeadLetter_account_of_ne {letter : DeadLetter} (h : letter.id = db.deadLetters.next) {k : String}
    (hne : letter.eventId ≠ k) : (db.addDeadLetter letter h).account k = db.account k := by
  rw [addDeadLetter_account, if_neg hne, List.append_nil]

/-- A row that is not refused for good moves its event. -/
theorem applyRow_moves {loaded : List String} {item : Claimed × RowResult} (hl : item.1.eventId ∈ loaded)
    (he : db.getEvent item.1.eventId = some e) (hu : e.status = uploading)
    (hd : item.2.status ≠ deadLettered) : applyRow loaded now db item =
      .ok (db.record e (e.moved item.2.status item.2.reason) item.2.reason now) := by
  have hallowed {dest : EventStatus} (hd : dest ∈ [uploaded,failedRetryable,deadLettered])
      (reason : Option String) : transition db e dest reason now =
        .ok (db.record e (e.moved dest reason) reason now,e.moved dest reason) :=
    transition_of_allowed (allowed_of_uploading hu hd) reason now
  unfold RowResult.status at hd ⊢
  unfold applyRow RowResult.reason
  rw [if_pos hl, he]
  by_cases hok : item.2.ok = true
  · simp only [if_pos hok]
    exact Outcome.bind_ok.mpr ⟨_,hallowed (by simp) none,rfl⟩
  · simp only [if_neg hok] at hd ⊢
    by_cases ht : classifyRowError item.2.code = .transient
    · simp only [if_pos ht]
      exact Outcome.bind_ok.mpr ⟨_,hallowed (by simp) _,rfl⟩
    · exact absurd (if_neg ht) hd

/-- A row that is refused for good files its record with the move. -/
theorem applyRow_buries (now : Time) {loaded : List String} {item : Claimed × RowResult} (hl : item.1.eventId ∈ loaded)
    (he : db.getEvent item.1.eventId = some e) (hu : e.status = uploading)
    (hd : item.2.status = deadLettered) : ∃ mid letter, ∃ hid : letter.id = mid.deadLetters.next,
      mid = db.record e (e.moved item.2.status item.2.reason) item.2.reason now ∧
      applyRow loaded now db item = .ok (mid.addDeadLetter letter hid) ∧
      letter = { item.2.letter e item.1.conversion (mid.listTransitions e.eventId) now with
        id := mid.deadLetters.next } := by
  have hok : ¬ item.2.ok = true := by
    intro hok
    simp [RowResult.status,hok] at hd
  have ht : ¬ classifyRowError item.2.code = .transient := by
    intro ht
    simp [RowResult.status,hok,ht] at hd
  have hr : item.2.reason = some ("permanent_row:" ++ item.2.code) := by simp [RowResult.reason,hok,ht]
  have hmove : transition db e deadLettered item.2.reason now =
      .ok (db.record e (e.moved deadLettered item.2.reason) item.2.reason now,
        e.moved deadLettered item.2.reason) :=
    transition_of_allowed (allowed_of_uploading hu (by simp)) item.2.reason now
  rw [hd, hr] at *
  refine ⟨_,_,rfl,rfl,?_,rfl⟩
  unfold applyRow
  rw [if_pos hl, he]
  dsimp only
  rw [if_neg hok, if_neg ht]
  exact Outcome.bind_ok.mpr ⟨_,hmove,rfl⟩

/-- The event is being uploaded. -/
def Account.Uploading (v : Account) : Prop := ∃ e, v.row = some e ∧ e.status = uploading

/-- One result settles its event and touches no other. -/
theorem applyRow_settles {loaded : List String} {item : Claimed × RowResult}
    (hl : item.1.eventId ∈ loaded) (h : (db.account item.1.eventId).Uploading) :
    ∃ out, applyRow loaded now db item = .ok out ∧
      (∀ k, k ≠ item.1.eventId → out.account k = db.account k) ∧
      (out.account item.1.eventId).unnumbered =
        (db.account item.1.eventId).unnumbered.settle item.1.conversion item.2 now := by
  obtain ⟨e,he,hu⟩ := h
  have he : db.getEvent item.1.eventId = some e := he
  have hid : e.eventId = item.1.eventId := Ledger.getEvent_eventId he
  have hself : db.getEvent e.eventId = some e := getEvent_self he
  set moved := e.moved item.2.status item.2.reason with hm
  have hrow : (db.record e moved item.2.reason now).account e.eventId = _ :=
    record_account hself moved rfl item.2.reason
  by_cases hd : item.2.status = deadLettered
  · obtain ⟨mid,letter,hnext,rfl,happly,rfl⟩ :=
      applyRow_buries now hl he hu hd
    refine ⟨_,happly,fun k hk => ?_,?_⟩
    · have hne : ¬ e.eventId = k := fun heq => hk (heq.symm.trans hid)
      exact (addDeadLetter_account_of_ne _ hne).trans
        (record_account_of_ne hself moved rfl item.2.reason (Ne.symm hne))
    · rw [addDeadLetter_account, ← hid, hrow]
      have htrail : (db.record e moved item.2.reason now).listTransitions e.eventId = _ :=
        congrArg Account.trail hrow
      rw [htrail]
      simp [Account.unnumbered,Account.settle,Ledger.account,hself,hd,RowResult.letter,hm,Event.moved,
        EventTransition.historyEntry,Function.comp_def]
  · refine ⟨_,applyRow_moves hl he hu hd,fun k hk => ?_,?_⟩
    · exact record_account_of_ne hself moved rfl item.2.reason (hid ▸ hk)
    · rw [← hid, hrow]
      simp [Account.unnumbered,Account.settle,Ledger.account,hself,hd,hm,Event.moved]

end Rows

/-! ## The transaction -/

/-- The texts of a result that reach the ledger can be stored there: those of a row
that is refused for good. The message is cut to the length of its column. -/
structure RowResult.Storable (row : RowResult) : Prop where
  code : row.status = deadLettered → varchar 128 row.code = true
  message : row.status = deadLettered → ∀ m ∈ cutMessage row.message, Char.ofNat 0 ∉ m.toList

theorem varchar_iff {n : ℕ} {s : String} : varchar n s = true ↔ s.length ≤ n ∧ Char.ofNat 0 ∉ s.toList := by
  simp [varchar]

/-- A cut message is never too long. -/
theorem cutMessage_fits {message : Option String} : nullable (varchar 1024) (cutMessage message) = true ↔
    ∀ m ∈ cutMessage message, Char.ofNat 0 ∉ m.toList := by
  unfold nullable
  rw [Option.all_eq_true]
  refine forall₂_congr fun m hm => ?_
  rw [varchar_iff, and_iff_right]
  unfold cutMessage at hm
  dsimp only at hm
  split at hm
  · cases hm
  · cases hm
    rw [Text.truncate_length]
    exact Nat.min_le_left _ _

/-- The code of a row is stored behind a short prefix. -/
theorem permanentRow_fits {code : String} (h : varchar 128 code = true) :
    varchar 512 ("permanent_row:" ++ code) = true := by
  obtain ⟨hlen,hnul⟩ := varchar_iff.mp h
  have hprefix : ("permanent_row:" : String).length = 14 := by decide
  refine varchar_iff.mpr ⟨?_,fun hmem => ?_⟩
  · rw [String.length_append]
    omega
  · rw [String.toList_append, List.mem_append] at hmem
    exact hmem.elim (by decide) hnul

theorem RowResult.storable_iff {row : RowResult} : row.Storable ↔ row.Fits := by
  have hstatus : row.status = deadLettered ↔
      ¬ (row.ok = true ∨ classifyRowError row.code = .transient) := by
    unfold status
    split
    · next hok => simp [hok]
    · split
      · next ht => simp [ht]
      · next hok ht => simp [hok,ht]
  unfold Fits
  rw [← or_assoc]
  constructor
  · intro h
    by_cases hd : row.ok = true ∨ classifyRowError row.code = .transient
    · exact Or.inl hd
    · have hd := hstatus.mpr hd
      exact Or.inr ⟨permanentRow_fits (h.code hd),h.code hd,cutMessage_fits.mpr (h.message hd)⟩
  · intro h
    have hfits (hd : row.status = deadLettered) := h.resolve_left (hstatus.mp hd)
    exact ⟨fun hd => (hfits hd).errorCode,fun hd => cutMessage_fits.mp (hfits hd).errorMessage⟩

/-- Every event of the batch is settled by its own result, and no other is touched. -/
structure Settled (batch : List Claimed) (rows : List RowResult) (now : Time) (db out : Ledger) : Prop where
  own : ∀ item ∈ batch.zip rows, (out.account item.1.eventId).unnumbered =
    (db.account item.1.eventId).unnumbered.settle item.1.conversion item.2 now
  others : ∀ k, k ∉ batchIds batch → out.account k = db.account k

section Apply
variable {rt : Runtime} {batch : List Claimed} {db : Ledger} {rows : List RowResult}

theorem zip_keys_sublist (batch : List Claimed) (rows : List RowResult) :
    ((batch.zip rows).map fun item => item.1.eventId).Sublist (batchIds batch) := by
  induction batch generalizing rows with
  | nil => exact List.nil_sublist _
  | cons c rest ih =>
    cases rows with
    | nil => exact List.nil_sublist _
    | cons row rows => exact (ih rows).cons_cons c.eventId

/-- The results go through, and settle every event that has one. -/
theorem applyRows_settle {loaded : List String} (hl : ∀ id ∈ batchIds batch, id ∈ loaded)
    (hn : (batchIds batch).Nodup) (hu : ∀ id ∈ batchIds batch, (db.account id).Uploading)
    (rows : List RowResult) (now : Time) :
    ∃ out, Outcome.loop (applyRow loaded now) db (batch.zip rows) = .ok out ∧ Settled batch rows now db out := by
  have hkeys := zip_keys_sublist batch rows
  have hmem : ∀ item ∈ batch.zip rows, item.1.eventId ∈ batchIds batch := fun item hi =>
    hkeys.subset (List.mem_map_of_mem hi)
  obtain ⟨out,hout,_,hframe,hown⟩ := Outcome.loop_views Ledger.account
    (fun item : Claimed × RowResult => item.1.eventId) (batch.zip rows) (f := applyRow loaded now)
    (I := fun _ => True) (P := fun _ => Account.Uploading)
    (R := fun item v v' => v'.unnumbered = v.unnumbered.settle item.1.conversion item.2 now)
    (hn.sublist hkeys)
    (fun item hi db' _ hu => by
      obtain ⟨out,happly,hother,hsettle⟩ := applyRow_settles (hl _ (hmem item hi)) hu
      exact ⟨out,happly,trivial,hother,hsettle⟩)
    trivial (fun item hi => hu _ (hmem item hi))
  exact ⟨out,hout,hown,fun k hk => hframe k fun hk' => hk (hkeys.subset hk')⟩

/-- The transaction always comes to its end, and settles every row. -/
theorem apply_settles (rt : Runtime) (h : BatchReady batch db) (hlen : rows.length = batch.length) (now : Time) :
    ∃ out, (Transaction.apply batch (load db (batchIds batch)) rows now).body rt db = .ok (out,.written) ∧
      Settled batch rows now db out := by
  have hloaded : ∀ id ∈ batchIds batch, id ∈ (load db (batchIds batch)).map Event.eventId := by
    rw [h.load]
    exact fun _ hid => hid
  obtain ⟨out,hout,hsettled⟩ := applyRows_settle hloaded h.nodup h.uploading rows now
  exact ⟨out,Outcome.bind_ok.mpr ⟨out,Outcome.bind_ok.mpr ⟨out,hout,if_pos hlen.symm⟩,rfl⟩,hsettled⟩

theorem apply_committed (rt : Runtime) (h : BatchReady batch db) (hlen : rows.length = batch.length) {now : Time}
    {out : Ledger} (hc : (Transaction.apply batch (load db (batchIds batch)) rows now).commit rt db =
      .ok (out,.written)) : Settled batch rows now db out ∧ out.fits = true := by
  obtain ⟨out',hbody,hsettled⟩ := apply_settles rt h hlen now
  obtain ⟨hbody',hfits⟩ := Transaction.commit_fresh (begin_fresh (.apply batch rows now) rfl).1 hc
  obtain rfl : out' = out := (Prod.mk.inj (Except.ok.inj (hbody.symm.trans hbody'))).1
  exact ⟨hsettled,hfits⟩

/-- It commits if every row can be stored, and only then. -/
theorem apply_isOk (rt : Runtime) (h : BatchReady batch db) (hlen : rows.length = batch.length) (now : Time) :
    (∃ out, (Transaction.apply batch (load db (batchIds batch)) rows now).commit rt db = .ok (out,.written)) ↔
      ∀ row ∈ rows, row.Storable := by
  constructor
  · rintro ⟨out,hc⟩ row hrow
    obtain ⟨hsettled,hfits⟩ := apply_committed rt h hlen hc
    obtain ⟨i,hi,rfl⟩ := List.getElem_of_mem hrow
    have hib : i < batch.length := hlen ▸ hi
    have hitem : (batch[i],rows[i]) ∈ batch.zip rows := List.mem_of_getElem? (List.getElem?_zip_eq_some.mpr
      ⟨List.getElem?_eq_getElem hib,List.getElem?_eq_getElem hi⟩)
    obtain ⟨e,he,hu⟩ := h.uploading batch[i].eventId (List.mem_map_of_mem (List.getElem_mem hib))
    have he : db.getEvent batch[i].eventId = some e := he
    have hstored (hd : rows[i].status = deadLettered) : ∃ d ∈ out.deadLetters.rows,
        d.platformErrorCode = some rows[i].code ∧ d.platformErrorMessage = cutMessage rows[i].message := by
      have hletters := congrArg Account.letters (hsettled.own _ hitem)
      simp only [Account.unnumbered, Account.settle, Ledger.account, he, if_pos hd] at hletters
      have hlast : ∀ letter, letter ∈ [rows[i].letter e batch[i].conversion
          ((db.listTransitions batch[i].eventId).map (fun t => { t with id := 0 }) ++
            [⟨0,e.eventId,some e.status,rows[i].status,rows[i].reason,now⟩]) now] →
          letter ∈ (out.letters batch[i].eventId).map fun d => { d with id := 0 } := by
        intro letter hl
        rw [hletters]
        exact List.mem_append_right _ hl
      obtain ⟨d,hd,heq⟩ := List.mem_map.mp (hlast _ (List.mem_singleton_self _))
      refine ⟨d,(List.mem_filter.mp hd).1,?_,?_⟩
      · exact congrArg DeadLetter.platformErrorCode heq
      · exact congrArg DeadLetter.platformErrorMessage heq
    have hcolumns (hd : rows[i].status = deadLettered) :
        varchar 128 rows[i].code = true ∧ nullable (varchar 1024) (cutMessage rows[i].message) = true := by
      obtain ⟨d,hmem,hcode,hmessage⟩ := hstored hd
      have hfit : d.fits = true := (Ledger.fits_iff.mp hfits).2.2 d hmem
      simp only [DeadLetter.fits, Bool.and_eq_true] at hfit
      rw [hcode, hmessage] at hfit
      exact ⟨hfit.1.2,hfit.2⟩
    exact ⟨fun hd => (hcolumns hd).1,fun hd => cutMessage_fits.mp (hcolumns hd).2⟩
  · intro hrows
    obtain ⟨out,hout,_⟩ := apply_noted rt h hlen (fun row hrow => RowResult.storable_iff.mp (hrows row hrow)) now
    exact ⟨out,hout⟩

/-- The outcome of every row that the platform answered for is recorded, unless a text
of its answer cannot be. -/
theorem apply_commits_iff (rt : Runtime) (repr : Json → String) (body : Json) (batch : List Claimed) (db : Ledger)
    (rows : List RowResult) (now : Time) (h : BatchReady batch db)
    (hparse : parseBatchResponse repr body batch.length = .ok rows) :
    (∃ out, (Transaction.apply batch (load db (batchIds batch)) rows now).commit rt db = .ok (out,.written)) ↔
      ∀ row ∈ rows, row.Storable := by
  obtain ⟨results,_,_,hlen,_,_,rfl⟩ := parseBatchResponse_ok.mp hparse
  exact apply_isOk rt h (by rw [List.length_mapIdx, hlen]) now

end Apply

theorem apply_commits_iff_expired : ∃ out, (Transaction.apply [⟨"hubspot:1",1,.null⟩]
    (load uploadingLedger ["hubspot:1"]) [⟨0,false,some "EXPIRED_CLICK",some (rowMessage 0 "EXPIRED_CLICK")⟩] 7).commit
      (clickRuntime 1704067200000) uploadingLedger = .ok (out,.written) := by
  refine (apply_commits_iff (clickRuntime 1704067200000) (fun _ => "") (refusedBody [rowError 0 "EXPIRED_CLICK"])
    [⟨"hubspot:1",1,.null⟩] uploadingLedger _ 7 uploadingLedger_ready rfl).mpr fun row hrow => ?_
  rw [List.mem_singleton.mp hrow]
  exact ⟨fun _ => by decide,fun _ => by decide⟩

/-- A code of 129 characters, in a body that the parser accepts. -/
def longError : Json := rowError 0 (String.ofList (List.replicate 129 'c'))

theorem not_apply_commits_long : ∃ rows, parseBatchResponse (fun _ => "") (refusedBody [longError]) 1 = .ok rows ∧
    BatchReady [⟨"hubspot:1",1,.null⟩] uploadingLedger ∧
    ¬ ∃ out, (Transaction.apply [⟨"hubspot:1",1,.null⟩] (load uploadingLedger ["hubspot:1"]) rows 7).commit
      (clickRuntime 1704067200000) uploadingLedger = .ok (out,.written) := by
  refine ⟨_,rfl,uploadingLedger_ready,fun hout => ?_⟩
  have hrows := (apply_isOk (clickRuntime 1704067200000) uploadingLedger_ready rfl 7).mp hout
  have hcode := (hrows _ List.mem_cons_self).code (by decide +kernel)
  exact absurd hcode (by decide +kernel)

/-! ## Rows on their own -/

/-- Each row acts on its own event, by itself and in whatever order the rows are in. -/
structure PerRow (rt : Runtime) (batch : List Claimed) (rows : List RowResult) (now : Time) (db : Ledger) : Prop where
  settled : ∃ out, (Transaction.apply batch (load db (batchIds batch)) rows now).commit rt db = .ok (out,.written) ∧
    Settled batch rows now db out
  columns : ∀ out, (Transaction.apply batch (load db (batchIds batch)) rows now).commit rt db = .ok (out,.written) →
    ∀ k e, db.getEvent k = some e → ∃ e', out.getEvent k = some e' ∧ e' = e.moved e'.status e'.statusReason
  permuted : ∀ out, (Transaction.apply batch (load db (batchIds batch)) rows now).commit rt db = .ok (out,.written) →
    ∀ items : List (Claimed × RowResult), items.Perm (batch.zip rows) → ∃ out',
      (Transaction.apply (items.map Prod.fst) (load db (batchIds (items.map Prod.fst))) (items.map Prod.snd)
        now).commit rt db = .ok (out',.written) ∧
      ∀ k, (out'.account k).unnumbered = (out.account k).unnumbered

section Rows
variable {batch : List Claimed} {db : Ledger} {rows : List RowResult}

/-- Two orders of the same rows settle every event alike. -/
theorem Settled.unique {batch' : List Claimed} {rows' : List RowResult} {now : Time} {out out' : Ledger}
    (h : Settled batch rows now db out) (h' : Settled batch' rows' now db out')
    (hlen : rows.length = batch.length) (hlen' : rows'.length = batch'.length)
    (hperm : (batch'.zip rows').Perm (batch.zip rows)) (k : String) :
    (out'.account k).unnumbered = (out.account k).unnumbered := by
  have hids := hperm.map (fun item => item.1.eventId)
  rw [zip_keys hlen, zip_keys hlen'] at hids
  by_cases hk : k ∈ batchIds batch
  · rw [← zip_keys hlen] at hk
    obtain ⟨item,hitem,rfl⟩ := List.mem_map.mp hk
    rw [h.own item hitem, h'.own item (hperm.mem_iff.mpr hitem)]
  · rw [h.others k hk, h'.others k fun hk' => hk (hids.mem_iff.mp hk')]

theorem BatchReady.perm {batch' : List Claimed} (h : BatchReady batch db) (hperm : batch'.Perm batch) :
    BatchReady batch' db := by
  have hids : (batchIds batch').Perm (batchIds batch) := hperm.map Claimed.eventId
  exact ⟨hids.nodup_iff.mpr h.nodup,fun id hid => h.uploading id (hids.mem_iff.mp hid),h.fits⟩

/-- A settled event keeps every other column. -/
theorem Settled.moved {now : Time} {out : Ledger} (hlen : rows.length = batch.length)
    (h : Settled batch rows now db out) {k : String} {e : Event} (he : db.getEvent k = some e) :
    ∃ e', out.getEvent k = some e' ∧ e' = e.moved e'.status e'.statusReason := by
  by_cases hk : k ∈ batchIds batch
  · rw [← zip_keys hlen] at hk
    obtain ⟨item,hitem,rfl⟩ := List.mem_map.mp hk
    have hrow := congrArg Account.row (h.own item hitem)
    simp only [Account.unnumbered, Account.settle, Ledger.account, he] at hrow
    exact ⟨_,hrow,rfl⟩
  · have hrow : out.getEvent k = db.getEvent k := congrArg Account.row (h.others k hk)
    exact ⟨e,hrow.trans he,rfl⟩

/-- Of the results whose codes fit, those without a message that cannot be stored are
acted on row by row. -/
theorem perRow_iff (rt : Runtime) (batch : List Claimed) (rows : List RowResult) (now : Time) (db : Ledger)
    (h : BatchReady batch db) (hlen : rows.length = batch.length)
    (hcodes : ∀ row ∈ rows, row.status = deadLettered → varchar 128 row.code = true) :
    PerRow rt batch rows now db ↔
      ∀ row ∈ rows, row.status = deadLettered → ∀ m ∈ cutMessage row.message, Char.ofNat 0 ∉ m.toList := by
  constructor
  · rintro ⟨⟨out,hout,_⟩,_,_⟩ row hrow
    exact ((apply_isOk rt h hlen now).mp ⟨out,hout⟩ row hrow).message
  · intro hmessages
    have hstorable : ∀ row ∈ rows, row.Storable := fun row hrow => ⟨hcodes row hrow,hmessages row hrow⟩
    obtain ⟨out,hout⟩ := (apply_isOk rt h hlen now).mpr hstorable
    have hsettled := (apply_committed rt h hlen hout).1
    have hthis {out' : Ledger} (h' : (Transaction.apply batch (load db (batchIds batch)) rows now).commit rt db =
        .ok (out',.written)) : out = out' := (Prod.mk.inj (Except.ok.inj (hout.symm.trans h'))).1
    refine ⟨⟨out,hout,hsettled⟩,fun out' h' k e he => ?_,fun out' h' items hperm => ?_⟩
    · obtain rfl := hthis h'
      exact hsettled.moved hlen he
    · obtain rfl := hthis h'
      have hfst : (batch.zip rows).map Prod.fst = batch := List.map_fst_zip (Nat.le_of_eq hlen.symm)
      have hsnd : (batch.zip rows).map Prod.snd = rows := List.map_snd_zip (Nat.le_of_eq hlen)
      have hbatch : (items.map Prod.fst).Perm batch := hfst ▸ hperm.map Prod.fst
      have hrows : (items.map Prod.snd).Perm rows := hsnd ▸ hperm.map Prod.snd
      have hitems : (items.map Prod.fst).zip (items.map Prod.snd) = items :=
        (List.zip_of_prod rfl rfl).symm
      have hlen' : (items.map Prod.snd).length = (items.map Prod.fst).length := by simp
      have h'' := h.perm hbatch
      obtain ⟨out',hout'⟩ := (apply_isOk rt h'' hlen' now).mpr fun row hrow => hstorable row (hrows.mem_iff.mp hrow)
      refine ⟨out',hout',hsettled.unique (apply_committed rt h'' hlen' hout').1 hlen hlen' ?_⟩
      rw [hitems]
      exact hperm

end Rows

/-- A second event beside the one that is being uploaded. -/
def secondPlan : IngestPlan :=
  match planIngest (clickRuntime 1704067200000) .hubspot (clickBody 1704067200000) .zero with
  | .accept event => .accept { event with eventId := "hubspot:2", sourceEventId := "2" }
  | plan => plan

def pairLedger : Ledger :=
  (serialRun (clickRuntime 1704067200000) uploadingLedger
    [.commit (.ingest .hubspot secondPlan .zero 0), .commit (.process ⟨"hubspot:2",.blank,0,none⟩ 0),
      .commit (.claim .single ["hubspot:2"] 0)]).getD Ledger.empty

def pairBatch : List Claimed := [⟨"hubspot:1",1,.null⟩,⟨"hubspot:2",1,.null⟩]

/-- The first row succeeded, and the second was refused with the message. -/
def pairRows (message : String) : List RowResult :=
  [⟨0,true,none,none⟩,⟨1,false,some "INVALID",some message⟩]

theorem pairLedger_ready : BatchReady pairBatch pairLedger := by
  refine ⟨by simp [batchIds,pairBatch],fun id hid => ?_,by decide +kernel⟩
  have hall : ∀ id ∈ batchIds pairBatch,
      (pairLedger.getEvent id).any (fun e => e.status = uploading) = true := by decide +kernel
  obtain ⟨e,he,hu⟩ := (Option.any_eq_true _ _).mp (hall id hid)
  exact ⟨e,he,of_decide_eq_true hu⟩

theorem perRow_iff_pair : PerRow (clickRuntime 1704067200000) pairBatch (pairRows "refused") 7 pairLedger := by
  refine (perRow_iff (clickRuntime 1704067200000) pairBatch (pairRows "refused") 7 pairLedger
    pairLedger_ready rfl (by decide)).mpr (by decide)

/-- The first row is left as it was when the message of the second row is one that the
ledger refuses, although its own result and all that the ledger has on it are the same. -/
theorem not_perRow_nul : ∃ out, BatchReady pairBatch pairLedger ∧
    (Transaction.apply pairBatch (load pairLedger (batchIds pairBatch)) (pairRows "refused") 7).commit
      (clickRuntime 1704067200000) pairLedger = .ok (out,.written) ∧
    (out.getEvent "hubspot:1").map Event.status = some uploaded ∧
    (¬ ∃ out, (Transaction.apply pairBatch (load pairLedger (batchIds pairBatch))
      (pairRows (String.singleton (Char.ofNat 0))) 7).commit (clickRuntime 1704067200000) pairLedger =
        .ok (out,.written)) ∧
    ¬ PerRow (clickRuntime 1704067200000) pairBatch (pairRows (String.singleton (Char.ofNat 0))) 7 pairLedger := by
  have hrows : ∀ row ∈ pairRows "refused", row.Storable := fun row hrow =>
    RowResult.storable_iff.mpr (by
      rcases List.mem_cons.mp hrow with rfl | hrow
      · exact Or.inl rfl
      · rw [List.mem_singleton.mp hrow]
        exact Or.inr (Or.inr ⟨by decide,by decide,by decide⟩))
  obtain ⟨out,hout⟩ := (apply_isOk (clickRuntime 1704067200000) pairLedger_ready rfl 7).mpr hrows
  have hnot : ¬ ∃ out, (Transaction.apply pairBatch (load pairLedger (batchIds pairBatch))
      (pairRows (String.singleton (Char.ofNat 0))) 7).commit (clickRuntime 1704067200000) pairLedger =
        .ok (out,.written) := fun hout => by
    have hall := (apply_isOk (clickRuntime 1704067200000) pairLedger_ready rfl 7).mp hout
    exact absurd ((hall _ (List.mem_cons_of_mem _ List.mem_cons_self)).message (by decide)) (by decide)
  refine ⟨out,pairLedger_ready,hout,?_,hnot,fun h => ?_⟩
  · have hsettled := (apply_committed (clickRuntime 1704067200000) pairLedger_ready rfl hout).1
    have hrow := congrArg Account.row (hsettled.own (⟨"hubspot:1",1,.null⟩,⟨0,true,none,none⟩) List.mem_cons_self)
    obtain ⟨e,he,hu⟩ := pairLedger_ready.uploading "hubspot:1" List.mem_cons_self
    have he : pairLedger.getEvent "hubspot:1" = some e := he
    simp only [Account.unnumbered, Account.settle, Ledger.account, he] at hrow
    rw [hrow]
    rfl
  · obtain ⟨out',hout',_⟩ := h.settled
    exact hnot ⟨out',hout'⟩

end ConversionGateway
