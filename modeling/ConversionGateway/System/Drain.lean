import ConversionGateway.Lifecycle.Uploadable
import ConversionGateway.System.Reconcile
import ConversionGateway.System.Serializable
import ConversionGateway.System.StuckEvents
import ConversionGateway.System.UploadBatch

/-! # What is left can be finished

From any state, whatever the processes were doing, time, restarts, one reconcile
command, one worker and one uploader bring every event to its end, but for those
whose match key was in a lost message.
-/
namespace ConversionGateway
open Relational EventStatus

instance (e : Event) : Decidable e.Granted := inferInstanceAs (Decidable e.consent.Granted)

/-- What the worker would write fits its columns. -/
def ProcessVerdict.Fits (v : ProcessVerdict) : Prop := v.row.fits = true ∧ nullable (varchar 512) v.reason = true

instance (v : ProcessVerdict) : Decidable v.Fits := inferInstanceAs (Decidable (_ ∧ _))

/-- Where the event of a row can be brought without its CRM and without an operator's
replay, if the platform takes everything. A queued event with a match key on its row is
published again; another one needs a message of its own that is still there. -/
def Event.fate (rt : Runtime) (st : Settings) (held : Option QueueMessage) (e : Event) : EventStatus :=
  let last := if st.maxRowAttempts ≤ e.attemptCount then deadLettered else uploaded
  match e.status with
  | .queued =>
    if e.recoverable then if e.Granted then last else suppressed
    else match held with
      | none => queued
      | some m =>
        if (e.verdict rt m).Fits then
          if (e.verdict rt m).row.status = processed then last else (e.verdict rt m).row.status
        else queued
  | .processed | .uploading | .failedRetryable => last
  | s => s

/-! ## One transaction for one event -/

section Transactions
variable {rt : Runtime} {db : Ledger} {e : Event} {k : String} {now : Time}

/-- A worker changes the progress of an event, not what it is. -/
theorem verdict_columns (rt : Runtime) (e : Event) (m : QueueMessage) :
    (e.verdict rt m).row.identity = e.identity ∧ (e.verdict rt m).row.attemptCount = e.attemptCount := by
  unfold Event.verdict
  split
  · exact ⟨rfl,rfl⟩
  · split
    · exact ⟨rfl,rfl⟩
    · dsimp only
      split <;> exact ⟨rfl,rfl⟩

/-- A message for an event that is queued. -/
theorem process_verdict (rt : Runtime) (hf : db.fits = true) (he : db.getEvent k = some e) (hq : e.status = queued)
    {m : QueueMessage} (hm : m.eventId = k) (hv : (e.verdict rt m).Fits) (now : Time) : ∃ out reply,
    (Transaction.process m (db.getEvent m.eventId) now).commit rt db = .ok (out,reply) ∧ out.fits = true ∧
    (∀ j, j ≠ k → out.getEvent j = db.getEvent j) ∧ out.getEvent k = some (e.verdict rt m).row := by
  subst hm
  have hid := Ledger.getEvent_eventId he
  have hself := getEvent_self he
  have hout : (db.processed rt m now).fits = true := by
    rw [processed_queued he hq]
    exact Ledger.fits_record e now hf hv.1 hv.2
  obtain ⟨outcome,hcommit⟩ := process_commit_of_fits hout
  exact ⟨_,_,hcommit,hout,fun j hj => (processed_frame rt db now hj).1,(processed_self rt now he hq).1⟩

/-- What the message that `reconcile` sends makes of a recoverable event. -/
theorem verdict_recoverable (rt : Runtime) (hkeyed : e.Keyed) (hr : e.recoverable = true) {m : QueueMessage}
    (hb : m.identifiers = .blank) :
    (e.verdict rt m).row.status = if e.Granted then processed else suppressed := by
  by_cases hg : e.Granted
  · rw [if_pos hg]
    cases hd : e.hashedIdentifiers with
    | some hashed =>
      rw [verdict_reused hg hb hd]
      rfl
    | none =>
      have hclick : truthy e.clickId = true := hkeyed.mp (by simpa [Event.recoverable,hd] using hr)
      rw [verdict_click hg hb hd hclick]
      rfl
  · obtain ⟨reason,hreason⟩ := verdict_suppressed rt m hg
    rw [if_neg hg, hreason]
    rfl

/-- A claim of nothing. -/
theorem claim_none (rt : Runtime) (st : Settings) (hf : db.fits = true) (now : Time) :
    (Transaction.claim st [] now).commit rt db = .ok (db,.claimed []) :=
  Transaction.commit_of_fresh (begin_fresh (.claim st [] now) rfl).1 rfl hf

/-- The row of a claim that finds it eligible. -/
theorem claimRow_eligible {retryAfter staleAfter : Time} (hf : db.fits = true) (he : db.getEvent k = some e)
    (hel : eligible now retryAfter staleAfter e = true) : ∃ out x, claimRow now db k = .ok out ∧ out.fits = true ∧
    (∀ j, j ≠ k → out.getEvent j = db.getEvent j) ∧ out.getEvent k = some x ∧ x.identity = e.identity ∧
      x.status = uploading ∧ x.attemptCount = e.attemptCount + 1 := by
  have hid := Ledger.getEvent_eventId he
  have hself := getEvent_self he
  have hstatus := eligible_status hel
  obtain ⟨out,hout⟩ : ∃ out, claimRow now db k = .ok out := claimRow_isOk fun x hx => by
    obtain rfl := Option.some.inj (he.symm.trans hx)
    exact hstatus
  rcases claimRow_ok hout with ⟨hn,_⟩ | ⟨y,hy,x,reason,hc,rfl⟩
  · rw [he] at hn
    cases hn
  · obtain rfl := Option.some.inj (he.symm.trans hy)
    have hkey : x.eventId = e.eventId := by cases hc <;> rfl
    have hfits : x.fits = true ∧ nullable (varchar 512) reason = true := by
      have hev := fits_event hf he
      cases hc with
      | attempt ha =>
        have hmoved : (e.moved uploading none).fits = true := Event.fits_moved uploading hev rfl
        exact ⟨hmoved,rfl⟩
      | reclaim hu => exact ⟨hev,by decide⟩
    have hget (j : String) : (db.record e x reason now).getEvent j = if j = e.eventId then some x else db.getEvent j :=
      Ledger.record_getEvent hself hkey j
    refine ⟨_,x,hout,Ledger.fits_record e now hf hfits.1 hfits.2,fun j hj => ?_,?_,?_,hc.columns.1,hc.columns.2.1⟩
    · rw [hget, if_neg (hid ▸ hj)]
    · rw [hget, if_pos hid.symm]
    · cases hc <;> rfl

/-- The number of an attempt fits the columns of a record. -/
theorem ceiling_fits {n : ℕ} (hn : n < 2 ^ 31) {reason : Option String} (hr : nullable (varchar 512) reason = true) :
    LetterFits ("poison:row_attempt_ceiling:" ++ toString n) (some "row_attempt_ceiling") reason := by
  refine ⟨?_,by decide,?_⟩
  · have hlen : n.repr.length ≤ 10 := (Nat.length_repr_le_iff (by decide)).mpr (hn.trans (by decide))
    have hnul : Char.ofNat 0 ∉ n.repr.toList := by
      intro hc
      rw [Nat.toList_repr] at hc
      exact absurd (Nat.isDigit_of_mem_toDigits (by decide) (by decide) hc) (by decide)
    have hfront : "poison:row_attempt_ceiling:".length = 27 ∧
        Char.ofNat 0 ∉ "poison:row_attempt_ceiling:".toList := by decide
    have htext : toString n = n.repr := rfl
    simp only [varchar, htext, String.length_append, hfront.1, String.toList_append, List.contains_eq_mem,
      List.mem_append, hfront.2, hnul, or_self, decide_false, Bool.not_false, Bool.and_true, decide_eq_true_eq]
    omega
  · have hnul : (reason.getD "").toList.contains (Char.ofNat 0) = false := by
      cases reason with
      | none => rfl
      | some r =>
        simp only [nullable_some, varchar, Bool.and_eq_true, Bool.not_eq_true'] at hr
        exact hr.2
    unfold cutMessage
    dsimp only
    split
    · rfl
    · rw [nullable_some]
      exact varchar_truncate hnul

/-- A claim of one row: it is taken, or buried if it had its attempts. -/
theorem claim_one (rt : Runtime) (st : Settings) (hf : db.fits = true) (he : db.getEvent k = some e)
    (hel : eligible now st.uploadRowRetryAfter st.uploadStaleAfter e = true)
    (hcomplete : e.conversionAction.isSome ∧ e.conversionTime.isSome) (hcount : e.attemptCount < 2 ^ 31) :
    ∃ out reply x, (Transaction.claim st [k] now).commit rt db = .ok (out,reply) ∧
      (∀ j, j ≠ k → out.getEvent j = db.getEvent j) ∧ out.getEvent k = some x ∧
      ((st.maxRowAttempts ≤ e.attemptCount ∧ reply.items = [] ∧ x.status = deadLettered) ∨
        (e.attemptCount < st.maxRowAttempts ∧ x.status = uploading ∧ ∃ c, c.eventId = k ∧ reply.items = [c])) := by
  obtain ⟨mid,x,hrow,hfits,hframe,hx,hid,hu,hattempts⟩ := claimRow_eligible hf he hel
  obtain ⟨conversion,hconversion⟩ : ∃ conversion, buildConversion rt x st.adsCustomerId = .ok conversion := by
    obtain ⟨action,ha⟩ := Option.isSome_iff_exists.mp hcomplete.1
    obtain ⟨time,ht⟩ := Option.isSome_iff_exists.mp hcomplete.2
    have ha' : x.conversionAction = some action := (congrArg Identity.conversionAction hid).trans ha
    have ht' : x.conversionTime = some time := (congrArg Identity.conversionTime hid).trans ht
    exact ⟨_,by rw [buildConversion, ha', ht']⟩
  have hclaim : claimForUpload db [k] now = .ok mid := Outcome.loop_cons_ok.mpr ⟨mid,hrow,rfl⟩
  have hcommit {out : Ledger} {items : List Claimed} (hitem : claimItem rt st now (mid,[]) k = .ok (out,items))
      (hout : out.fits = true) :
      (Transaction.claim st [k] now).commit rt db = .ok (out,.claimed items) := by
    have hitems : ConversionGateway.claim rt st db [k] now = .ok (out,items) :=
      Outcome.bind_ok.mpr ⟨mid,hclaim,Outcome.loop_cons_ok.mpr ⟨_,hitem,rfl⟩⟩
    exact Transaction.commit_of_fresh (begin_fresh (.claim st [k] now) rfl).1
      (Outcome.bind_ok.mpr ⟨_,hitems,rfl⟩) hout
  by_cases hmax : st.maxRowAttempts ≤ e.attemptCount
  · have hreason : nullable (varchar 512) x.statusReason = true := by
      have hev := fits_event hfits hx
      simp only [Event.fits, Bool.and_eq_true] at hev
      exact hev.1.2
    obtain ⟨out,hout,houtfits,hothers,y,y',hy,hy',hdead,_⟩ :=
      @deadLetter_noted mid x .poison _ _ _ conversion now (ceiling_fits hcount hreason) hfits k hx hu
    refine ⟨out,.claimed [],y',hcommit ?_ houtfits,fun j hj => ?_,hy',Or.inl ⟨hmax,rfl,hdead⟩⟩
    · simp only [claimItem, hx]
      refine Outcome.bind_ok.mpr ⟨conversion,hconversion,?_⟩
      have hpred : x.attemptCount - 1 = e.attemptCount := by omega
      rw [if_pos (by omega), hpred]
      exact Outcome.bind_ok.mpr ⟨out,hout,rfl⟩
    · exact (congrArg Prod.fst (hothers j hj)).trans (hframe j hj)
  · have hitem : claimItem rt st now (mid,[]) k = .ok (mid,[⟨x.eventId,x.attemptCount,conversion⟩]) := by
      simp only [claimItem, hx]
      refine Outcome.bind_ok.mpr ⟨conversion,hconversion,?_⟩
      rw [if_neg (by omega)]
      rfl
    exact ⟨mid,_,x,hcommit hitem hfits,hframe,hx,Or.inr ⟨by omega,hu,_,Ledger.getEvent_eventId hx,rfl⟩⟩

/-- The answer for one row that the platform took. -/
theorem apply_one (rt : Runtime) (hf : db.fits = true) (he : db.getEvent k = some e) (hu : e.status = uploading)
    {c : Claimed} (hc : c.eventId = k) (now : Time) : ∃ out,
    (Transaction.apply [c] (load db [k]) [⟨0,true,none,none⟩] now).commit rt db = .ok (out,.written) ∧
      (∀ j, j ≠ k → out.getEvent j = db.getEvent j) ∧ ∃ x, out.getEvent k = some x ∧ x.status = uploaded := by
  have hid := Ledger.getEvent_eventId he
  have hload : load db [k] = [e] := by simp [load,List.eraseDups_cons,he]
  have hloaded : c.eventId ∈ [e.eventId] := by simp [hid,hc]
  have hview : Uploading (db.view c.eventId) := ⟨e,hc ▸ he,hu⟩
  obtain ⟨out,hout,hfits,hframe,y,y',_,hy',hs,_⟩ :=
    @applyRow_noted db [e.eventId] now (c,⟨0,true,none,none⟩) (Or.inl rfl) hloaded hf hview
  have hbody : (Transaction.apply [c] [e] [⟨0,true,none,none⟩] now).body rt db = .ok (out,.written) :=
    Outcome.bind_ok.mpr ⟨out,Outcome.bind_ok.mpr ⟨out,Outcome.loop_cons_ok.mpr ⟨out,hout,rfl⟩,rfl⟩,rfl⟩
  rw [hload]
  refine ⟨out,Transaction.commit_of_fresh ⟨fun x hx => ?_,by simp [Transaction.session]⟩ hbody hfits,fun j hj => ?_,y',?_,?_⟩
  · obtain rfl : x = e := by simpa [Transaction.session] using hx
    exact getEvent_self he
  · exact congrArg Prod.fst (hframe j (by simpa [hc] using hj))
  · exact hc ▸ hy'
  · simpa [rowEntry] using hs

end Transactions

/-! ## The crew -/

/-- What recovery needs: time, restarts, and one process of each of three kinds. -/
def Action.Repairs : Action → Prop
  | .tick _ | .expire _ | .crash _ => True
  | .worker n _ | .uploader n _ | .reconciler n _ => n = 0
  | .commit (.worker n) | .commit (.uploader n) => n = 0
  | _ => False

/-- The part of the system that the first worker, uploader and reconcile command see. -/
structure Crew where
  clock : Time
  ledger : Ledger
  locks : Locks
  queue : MessageQueue
  worker : Worker
  uploader : Uploader
  listed : List QueueMessage

namespace System

def crew (s : System) : Crew where
  clock := s.clock
  ledger := s.ledger
  locks := s.locks
  queue := s.queue
  worker := s.workers 0
  uploader := s.uploaders 0
  listed := s.reconcilers 0

abbrev Repaired (rt : Runtime) (settings : ℕ → Settings) : System → System → Prop :=
  Machine.Reaches (step rt settings) Action.Repairs

/-- Whatever the other processes hold, the crew gets there. -/
def Leads (rt : Runtime) (settings : ℕ → Settings) (c d : Crew) : Prop :=
  ∀ s : System, s.crew = c → ∃ t, Repaired rt settings s t ∧ t.crew = d

section Leads
variable {rt : Runtime} {settings : ℕ → Settings} {clock : Time} {db : Ledger} {locks : Locks} {q q' : MessageQueue}
  {w w' : Worker} {u u' : Uploader} {l l' : List QueueMessage}

theorem repaired {s t : System} (a : Action) (ha : a.Repairs) (h : step rt settings s a = some t) :
    Repaired rt settings s t := .of_step ha h

theorem Leads.refl (c : Crew) : Leads rt settings c c := fun s hs => ⟨s,.refl s,hs⟩

theorem Leads.trans {c d d' : Crew} (h : Leads rt settings c d) (h' : Leads rt settings d d') :
    Leads rt settings c d' := by
  intro s hs
  obtain ⟨t,ht,hd⟩ := h s hs
  obtain ⟨v,hv,hd'⟩ := h' t hd
  exact ⟨v,ht.trans hv,hd'⟩

theorem leads_tick {now : Time} (h : clock ≤ now) :
    Leads rt settings ⟨clock,db,locks,q,w,u,l⟩ ⟨now,db,locks,q,w,u,l⟩ := by
  rintro s hs
  cases hs
  have hstep : step rt settings s (.tick now) = some { s with clock := now } := if_pos h
  exact ⟨_,repaired (.tick now) trivial hstep,rfl⟩

theorem leads_expire {id : ℕ} :
    Leads rt settings ⟨clock,db,locks,q,w,u,l⟩ ⟨clock,db,locks,q.release id,w,u,l⟩ := by
  rintro s hs
  cases hs
  exact ⟨_,repaired (.expire id) trivial rfl,rfl⟩

theorem leads_worker {a : WorkerAction} (h : w.step clock db q a = some (w',q')) :
    Leads rt settings ⟨clock,db,locks,q,w,u,l⟩ ⟨clock,db,locks,q',w',u,l⟩ := by
  rintro s hs
  cases hs
  have hstep : step rt settings s (.worker 0 a) =
      some { s with workers := Function.update s.workers 0 w', queue := q' } :=
    Option.map_eq_some_iff.mpr ⟨_,h,rfl⟩
  exact ⟨_,repaired (.worker 0 a) rfl hstep,by simp [crew]⟩

theorem leads_uploader {a : UploaderAction} {locks' : Locks} {sent : Option (List Json)}
    (h : u.step (settings 0) 0 clock db locks a = some (u',locks',sent)) :
    Leads rt settings ⟨clock,db,locks,q,w,u,l⟩ ⟨clock,db,locks',q,w,u',l⟩ := by
  rintro s hs
  cases hs
  have hstep : step rt settings s (.uploader 0 a) =
      some { s with uploaders := Function.update s.uploaders 0 u', locks := locks'
                    sent := s.sent ++ sent.toList } :=
    Option.map_eq_some_iff.mpr ⟨_,h,rfl⟩
  exact ⟨_,repaired (.uploader 0 a) rfl hstep,by simp [crew]⟩

theorem leads_reconciler {a : ReconcilerAction} (h : reconcilerStep db q l a = some (l',q')) :
    Leads rt settings ⟨clock,db,locks,q,w,u,l⟩ ⟨clock,db,locks,q',w,u,l'⟩ := by
  rintro s hs
  cases hs
  have hstep : step rt settings s (.reconciler 0 a) =
      some { s with reconcilers := Function.update s.reconcilers 0 l', queue := q' } :=
    Option.map_eq_some_iff.mpr ⟨_,h,rfl⟩
  exact ⟨_,repaired (.reconciler 0 a) rfl hstep,by simp [crew]⟩

theorem leads_commit_worker {tx : Transaction} {out : Ledger} {reply : Reply} (htx : w.transaction = some tx)
    (h : tx.commit rt db = .ok (out,reply)) :
    Leads rt settings ⟨clock,db,[],q,w,u,l⟩ ⟨clock,out,[],q,w.committed,u,l⟩ := by
  rintro s hs
  obtain ⟨hclock,hdb,hlocks,hq,hw,hu,hlisted⟩ := Crew.mk.inj hs
  have htx : s.transaction settings (.worker 0) = some tx := by rw [transaction, hw, htx]
  have hkept : s.LocksKept (.worker 0) out := by simp [LocksKept,hlocks]
  have hstep : step rt settings s (.commit (.worker 0)) = some (s.committed settings out reply (.worker 0)) := by
    simp only [step, htx, hdb, h, if_pos hkept]
  exact ⟨_,repaired (.commit (.worker 0)) rfl hstep,by simp [crew,committed,hclock,hlocks,hq,hw,hu,hlisted]⟩

theorem leads_commit_uploader {tx : Transaction} {out : Ledger} {reply : Reply}
    (htx : u.transaction (settings 0) = some tx) (h : tx.commit rt db = .ok (out,reply))
    (hl : ∀ x ∈ locks, x.2 = 0) :
    Leads rt settings ⟨clock,db,locks,q,w,u,l⟩ ⟨clock,out,[],q,w,u.committed (settings 0) reply,l⟩ := by
  rintro s hs
  obtain ⟨_,hdb,hlocks,_,_,hu,_⟩ := Crew.mk.inj hs
  have htx : s.transaction settings (.uploader 0) = some tx := by rw [transaction, hu, htx]
  have hl : ∀ x ∈ s.locks, x.2 = 0 := hlocks ▸ hl
  have hkept : s.LocksKept (.uploader 0) out := fun x hx => Or.inl (by rw [hl x hx])
  have hstep : step rt settings s (.commit (.uploader 0)) = some (s.committed settings out reply (.uploader 0)) := by
    simp only [step, htx, hdb, h, if_pos hkept]
  have hunlocked : s.unlock 0 = [] := List.filter_eq_nil_iff.mpr fun x hx => by simp [hl x hx]
  refine ⟨_,repaired (.commit (.uploader 0)) rfl hstep,?_⟩
  cases hs
  simp [crew,committed,hunlocked]

/-- The crew at rest. -/
abbrev rested (clock : Time) (db : Ledger) (q : MessageQueue) : Crew := ⟨clock,db,[],q,.idle,Uploader.fresh,[]⟩

theorem leads_republish (clock : Time) (db : Ledger) (q : MessageQueue) (ms : List QueueMessage) :
    Leads rt settings ⟨clock,db,[],q,.idle,Uploader.fresh,ms⟩ (rested clock db (ms.foldl Delivery.Queue.publish q)) := by
  induction ms generalizing q with
  | nil => exact .refl _
  | cons m rest ih =>
    have hstep : reconcilerStep db q (m :: rest) .republish = some (rest,q.publish m) := rfl
    exact (leads_reconciler hstep).trans (ih _)

variable {e : Event} {k : String}

/-- A worker handles a message that is ready. -/
theorem leads_handled (settings : ℕ → Settings) (hf : db.fits = true) (he : db.getEvent k = some e) (hq : e.status = queued) {m : QueueMessage}
    (hm : m.eventId = k) (hv : (e.verdict rt m).Fits) {id : ℕ} (hready : q.Ready id m) (clock : Time) : ∃ out,
    Leads rt settings (rested clock db q) (rested clock out ((q.mark id true).ack id)) ∧ out.fits = true ∧
    (∀ j, j ≠ k → out.getEvent j = db.getEvent j) ∧ out.getEvent k = some (e.verdict rt m).row := by
  obtain ⟨out,reply,hcommit,hfits,hframe,hrow⟩ := process_verdict rt hf he hq hm hv clock
  refine ⟨out,?_,hfits,hframe,hrow⟩
  have hreceive : Worker.idle.step clock db q (.receive id) = some (.received id m clock,q.mark id true) := by
    simp only [Worker.step, hready.receive, Option.map_some]
  have hread : (Worker.received id m clock).step clock db (q.mark id true) .read =
      some (.loaded id m (db.getEvent m.eventId) clock,q.mark id true) := rfl
  have hack : (Worker.done id).step clock out (q.mark id true) .ack = some (.idle,(q.mark id true).ack id) := rfl
  exact (leads_worker hreceive).trans <| (leads_worker hread).trans <|
    (leads_commit_worker rfl hcommit).trans (leads_worker hack)

/-- The messages of other events stay in the queue. -/
def SparesOthers (k : String) (q q' : MessageQueue) : Prop :=
  ∀ id m, q.Holds id m → m.eventId ≠ k → q'.Holds id m

theorem sparesOthers_handled {id : ℕ} {m : QueueMessage} (hready : q.Ready id m) (hm : m.eventId = k) :
    SparesOthers k q ((q.mark id true).ack id) := by
  intro j n hn hne
  refine Delivery.Queue.holds_ack.mpr ⟨Delivery.Queue.holds_mark.mpr hn,?_⟩
  rintro rfl
  have hsame : n = m := hn.unique ⟨_,hready,rfl,rfl⟩
  exact hne (hsame ▸ hm)

theorem sparesOthers_publish (k : String) (q : MessageQueue) (ms : List QueueMessage) :
    SparesOthers k q (ms.foldl Delivery.Queue.publish q) := by
  induction ms generalizing q with
  | nil => exact fun _ _ h _ => h
  | cons m rest ih => exact fun id n hn hne => ih (q.publish m) id n (Delivery.Queue.holds_publish.mpr (Or.inl hn)) hne

/-- A queued event that `reconcile` calls recoverable leaves the queue. -/
theorem leads_republished (hf : db.fits = true) (he : db.getEvent k = some e) (hq : e.status = queued)
    (hr : e.recoverable = true) (clock : Time) (q : MessageQueue) : ∃ clock' out q' m,
    Leads rt settings (rested clock db q) (rested clock' out q') ∧ SparesOthers k q q' ∧ out.fits = true ∧
    (∀ j, j ≠ k → out.getEvent j = db.getEvent j) ∧ out.getEvent k = some (e.verdict rt m).row ∧
    m.identifiers = .blank := by
  have hid := Ledger.getEvent_eventId he
  set now := max clock (e.receivedAt + 1) with hnow
  set m : QueueMessage := ⟨e.eventId,.blank,now,e.correlationId⟩ with hm
  have hlisted : m ∈ reconcile db now now := by
    refine List.mem_map_of_mem (List.mem_filter.mpr ⟨mem_findStuckQueued.mpr ⟨Table.mem_of_get he,hq,?_⟩,hr⟩)
    exact Int.lt_iff_add_one_le.mpr (le_max_right clock (e.receivedAt + 1))
  set q₁ := (reconcile db now now).foldl Delivery.Queue.publish q with hq₁
  obtain ⟨id,hready⟩ : ∃ id, q₁.Ready id m := Delivery.Queue.ready_foldl_publish hlisted q
  obtain ⟨out,hhandled,hfits,hframe,hrow⟩ := leads_handled settings hf he hq (show m.eventId = k from hid)
    (verdict_fits rt (fits_event hf he) rfl) hready now
  refine ⟨now,out,(q₁.mark id true).ack id,m,?_,?_,hfits,hframe,hrow,rfl⟩
  · have hscan : reconcilerStep db q [] (.scan now now) = some (reconcile db now now,q) := rfl
    exact (leads_tick (le_max_left clock (e.receivedAt + 1))).trans <| (leads_reconciler hscan).trans <|
      (leads_republish now db q _).trans hhandled
  · exact fun j n hn hne => sparesOthers_handled hready hid j n (sparesOthers_publish k q _ j n hn hne) hne

/-- A message that some worker may still have comes back when its deadline passes. -/
theorem leads_redelivered (hf : db.fits = true) (he : db.getEvent k = some e) (hq : e.status = queued)
    {m : QueueMessage} (hm : m.eventId = k) (hv : (e.verdict rt m).Fits) {id : ℕ} (hheld : q.Holds id m)
    (clock : Time) : ∃ out q',
    Leads rt settings (rested clock db q) (rested clock out q') ∧ SparesOthers k q q' ∧ out.fits = true ∧
    (∀ j, j ≠ k → out.getEvent j = db.getEvent j) ∧ out.getEvent k = some (e.verdict rt m).row := by
  obtain ⟨out,hhandled,hfits,hframe,hrow⟩ := leads_handled settings hf he hq hm hv hheld.release clock
  refine ⟨out,((q.release id).mark id true).ack id,leads_expire.trans hhandled,?_,hfits,hframe,hrow⟩
  exact fun j n hn hne => sparesOthers_handled hheld.release hm j n (Delivery.Queue.holds_release.mpr hn) hne

section Claims
variable {st : Settings} {wait : Time}

theorem withClaim_nothing (st : Settings) (p : Phase) (now : Time) :
    Uploader.withClaim st ⟨Batcher.empty,p⟩ [] now = Uploader.fresh := rfl

/-- One item fills a batch, is due at once, or waits. -/
theorem withClaim_item (hwait : st.uploadBatchWait = some wait) (p : Phase) (c : Claimed) (now : Time) :
    Uploader.withClaim st ⟨Batcher.empty,p⟩ [c] now = ⟨Batcher.empty,.ready now [c] 1⟩ ∨
      (1 < st.uploadBatchSize ∧ Uploader.withClaim st ⟨Batcher.empty,p⟩ [c] now = ⟨⟨[c],some now⟩,.idle⟩) := by
  by_cases hsize : st.uploadBatchSize ≤ 1
  · left
    simp [Uploader.withClaim,cycleBatch,Batcher.addAll,Batcher.add,Batcher.empty,Batcher.flush,hsize]
  · by_cases hdue : wait ≤ 0
    · left
      simp [Uploader.withClaim,cycleBatch,Batcher.addAll,Batcher.add,Batcher.empty,Batcher.flush,
        Batcher.flushIfDue,hsize,hwait,hdue]
    · right
      refine ⟨by omega,?_⟩
      simp [Uploader.withClaim,cycleBatch,Batcher.addAll,Batcher.add,Batcher.empty,
        Batcher.flushIfDue,hsize,hwait,hdue]

theorem withClaim_waited (hwait : st.uploadBatchWait = some wait) (p : Phase) (c : Claimed) (since : Time) :
    Uploader.withClaim st ⟨⟨[c],some since⟩,p⟩ [] (since + wait) =
      ⟨Batcher.empty,.ready (since + wait) [c] 1⟩ := by
  simp [Uploader.withClaim,cycleBatch,Batcher.addAll,Batcher.empty,Batcher.flush,Batcher.flushIfDue,hwait]

end Claims

/-- A batch of one event, and a platform that takes it. -/
theorem leads_sent (hf : db.fits = true) (he : db.getEvent k = some e) (hu : e.status = uploading) {c : Claimed}
    (hc : c.eventId = k) (clock now : Time) (q : MessageQueue) : ∃ out,
    Leads rt settings ⟨clock,db,[],q,.idle,⟨Batcher.empty,.ready now [c] 1⟩,[]⟩ (rested clock out q) ∧
    (∀ j, j ≠ k → out.getEvent j = db.getEvent j) ∧ ∃ x, out.getEvent k = some x ∧ x.status = uploaded := by
  obtain ⟨out,hcommit,hframe,hrow⟩ := apply_one rt hf he hu hc now
  have hload : load db [k] = [e] := by simp [load,List.eraseDups_cons,he]
  rw [hload] at hcommit
  refine ⟨out,?_,hframe,hrow⟩
  have hids : (batchIds [c]).eraseDups = [k] := by simp [batchIds,hc,List.eraseDups_cons]
  set taken : UploadOutcome := .result [⟨0,true,none,none⟩] with htaken
  have hsend : Uploader.step (settings 0) 0 clock db [] ⟨Batcher.empty,.ready now [c] 1⟩ .send =
      some (⟨Batcher.empty,.sending now [c] 1⟩,[],some [c.conversion]) := rfl
  have hfinish : Uploader.step (settings 0) 0 clock db [] ⟨Batcher.empty,.sending now [c] 1⟩ (.finish taken) =
      some (⟨Batcher.empty,.settling now [c] (.rows [⟨0,true,none,none⟩]) [] [k]⟩,[],none) := by
    simp only [Uploader.step, hids]
    rfl
  have hread : Uploader.step (settings 0) 0 clock db []
      ⟨Batcher.empty,.settling now [c] (.rows [⟨0,true,none,none⟩]) [] [k]⟩ .load =
      some (⟨Batcher.empty,.settling now [c] (.rows [⟨0,true,none,none⟩]) [e] []⟩,[],none) := by
    simp only [Uploader.step, he]
    rfl
  exact (leads_uploader hsend).trans <| (leads_uploader hfinish).trans <| (leads_uploader hread).trans
    (leads_commit_uploader rfl hcommit (by simp))

/-- An item that waits in the batcher leaves it when it is due. -/
theorem leads_waited {wait : Time} (hwait : (settings 0).uploadBatchWait = some wait) (hf : db.fits = true)
    (hsize : 1 < (settings 0).uploadBatchSize) (q : MessageQueue) (c : Claimed) (since : Time) :
    Leads rt settings ⟨since,db,[],q,.idle,⟨⟨[c],some since⟩,.idle⟩,[]⟩
      ⟨since + wait,db,[],q,.idle,⟨Batcher.empty,.ready (since + wait) [c] 1⟩,[]⟩ := by
  have hnonneg : 0 ≤ wait := (settings 0).batchWait_nonneg wait hwait
  have hbegin : Uploader.step (settings 0) 0 (since + wait) db [] ⟨⟨[c],some since⟩,.idle⟩ .begin =
      some (⟨⟨[c],some since⟩,.cycle (since + wait)⟩,[],none) := rfl
  have hselect : Uploader.step (settings 0) 0 (since + wait) db [] ⟨⟨[c],some since⟩,.cycle (since + wait)⟩ (.select []) =
      some (⟨⟨[c],some since⟩,.selected (since + wait) []⟩,[],none) := by
    have hroom : 0 < Uploader.room (settings 0) ⟨⟨[c],some since⟩,.cycle (since + wait)⟩ := by
      simpa [Uploader.room] using hsize
    have hselectable : Selectable (settings 0) db [] (since + wait)
        (Uploader.room (settings 0) ⟨⟨[c],some since⟩,.cycle (since + wait)⟩) [] := by
      simp [Selectable]
    simp only [Uploader.step, if_pos (And.intro hroom hselectable)]
    rfl
  have hbatch : Uploader.committed (settings 0) ⟨⟨[c],some since⟩,.selected (since + wait) []⟩ (.claimed []) =
      ⟨Batcher.empty,.ready (since + wait) [c] 1⟩ := withClaim_waited hwait _ c since
  have hcommit : Leads rt settings ⟨since + wait,db,[],q,.idle,⟨⟨[c],some since⟩,.selected (since + wait) []⟩,[]⟩
      ⟨since + wait,db,[],q,.idle,⟨Batcher.empty,.ready (since + wait) [c] 1⟩,[]⟩ := by
    rw [← hbatch]
    exact leads_commit_uploader rfl (claim_none rt (settings 0) hf (since + wait)) (by simp)
  exact (leads_tick (Int.le_add_of_nonneg_right hnonneg)).trans <| (leads_uploader hbegin).trans <|
    (leads_uploader hselect).trans hcommit

theorem leads_uploaded {wait : Time} (hwait : (settings 0).uploadBatchWait = some wait) (hf : db.fits = true)
    (he : db.getEvent k = some e) (hs : e.status = processed ∨ e.status ∈ [uploading,failedRetryable])
    (hstamped : e.Stamped) (hcomplete : e.conversionAction.isSome ∧ e.conversionTime.isSome)
    (hcount : e.attemptCount < 2 ^ 31) (clock : Time) (q : MessageQueue) : ∃ clock' out,
    Leads rt settings (rested clock db q) (rested clock' out q) ∧
    (∀ j, j ≠ k → out.getEvent j = db.getEvent j) ∧ ∃ x, out.getEvent k = some x ∧
      x.status = if (settings 0).maxRowAttempts ≤ e.attemptCount then deadLettered else uploaded := by
  obtain ⟨now,hnow,hel⟩ : ∃ now, clock ≤ now ∧
      eligible now (settings 0).uploadRowRetryAfter (settings 0).uploadStaleAfter e = true := by
    rcases hs with hs | hs
    · exact ⟨clock,le_refl _,eligible_of_processed hs⟩
    · obtain ⟨t,ht⟩ := Option.isSome_iff_exists.mp (hstamped hs)
      exact ⟨_,le_max_left _ _,eligible_of_waited hs ht (le_max_right _ _)⟩
  obtain ⟨mid,reply,x,hclaim,hframe,hx,hclaimed⟩ := claim_one rt (settings 0) hf he hel hcomplete hcount
  have hpos := (settings 0).batchSize_pos
  have hbegin : Uploader.step (settings 0) 0 now db [] Uploader.fresh .begin =
      some (⟨Batcher.empty,.cycle now⟩,[],none) := rfl
  have hselect : Uploader.step (settings 0) 0 now db [] ⟨Batcher.empty,.cycle now⟩ (.select [k]) =
      some (⟨Batcher.empty,.selected now [k]⟩,[(k,0)],none) := by
    have hroom : Uploader.room (settings 0) ⟨Batcher.empty,.cycle now⟩ = (settings 0).uploadBatchSize := rfl
    have hselectable : Selectable (settings 0) db [] now (settings 0).uploadBatchSize [k] :=
      ⟨by simp,hpos,by simp [he,hel]⟩
    simp only [Uploader.step, hroom]
    exact if_pos ⟨hpos,hselectable⟩
  have hready : Leads rt settings (rested clock db q)
      ⟨now,mid,[],q,.idle,Uploader.withClaim (settings 0) ⟨Batcher.empty,.selected now [k]⟩ reply.items now,[]⟩ :=
    (leads_tick hnow).trans <| (leads_uploader hbegin).trans <| (leads_uploader hselect).trans
      (leads_commit_uploader rfl hclaim (by simp))
  obtain ⟨_,_,_,hfits⟩ := Transaction.commit_ok.mp hclaim
  rcases hclaimed with ⟨hmax,hitems,hdead⟩ | ⟨hmax,hu,c,hc,hitems⟩
  · rw [hitems, withClaim_nothing] at hready
    exact ⟨now,mid,hready,hframe,x,hx,by rw [if_pos hmax, hdead]⟩
  · rw [hitems] at hready
    obtain ⟨clock',sent,hbatch⟩ : ∃ clock' sent, Leads rt settings (rested clock db q)
        ⟨clock',mid,[],q,.idle,⟨Batcher.empty,.ready sent [c] 1⟩,[]⟩ := by
      rcases withClaim_item hwait (.selected now [k]) c now with heq | ⟨hsize,heq⟩
      · exact ⟨now,now,heq ▸ hready⟩
      · -- the batch is not full, and goes out when its item has waited
        rw [heq] at hready
        have hlater := hready.trans (leads_waited hwait hfits hsize q c now)
        exact ⟨_,_,hlater⟩
    obtain ⟨out,hsent,hothers,y,hy,hdone⟩ := leads_sent hfits hx hu hc clock' sent q
    refine ⟨clock',out,hbatch.trans hsent,fun j hj => (hothers j hj).trans (hframe j hj),y,hy,?_⟩
    rw [if_neg (by omega), hdone]

end Leads

/-! ## All events -/

section Drain
variable {rt : Runtime} {settings : ℕ → Settings} {s t : System}

/-- The event has come to its end. -/
def Arrived (rt : Runtime) (st : Settings) (held : String → Option QueueMessage) (db : Ledger) (k : String)
    (s : System) : Prop :=
  s.status k = (db.getEvent k).map (Event.fate rt st (held k))

/-- Every row is as it was in the ledger `db`, and a message of it that was in the queue
still is, or the event has come to its end. -/
structure Draining (rt : Runtime) (st : Settings) (held : String → Option QueueMessage) (db : Ledger)
    (s : System) : Prop where
  columns : s.Columns
  rested : ∃ clock q, s.crew = rested clock s.ledger q
  rows : ∀ k, (s.ledger.getEvent k = db.getEvent k ∧ ∀ m, held k = some m → ∃ id, s.queue.Holds id m) ∨
    Arrived rt st held db k s

/-- What recovery relies on in the row of an unfinished event. -/
structure Resumable (e : Event) : Prop where
  stamped : e.Stamped
  complete : e.status ≠ .received → e.status ≠ .rejected → e.conversionAction.isSome ∧ e.conversionTime.isSome
  attempts : e.attemptCount < 2 ^ 31

section Settle
variable {held : String → Option QueueMessage} {db : Ledger} {k : String}

/-- The crew brings one event to its end. -/
theorem Draining.advance {st : Settings} (hheld : ∀ k m, held k = some m → m.eventId = k)
    (hs : s.Draining rt st held db) {clock clock' : Time} {q q' : MessageQueue} {out : Ledger}
    (hcrew : s.crew = System.rested clock s.ledger q)
    (hl : Leads rt settings (System.rested clock s.ledger q) (System.rested clock' out q'))
    (hspared : SparesOthers k q q') (hframe : ∀ j, j ≠ k → out.getEvent j = s.ledger.getEvent j)
    (hrow : (out.getEvent k).map Event.status = (db.getEvent k).map (Event.fate rt st (held k))) :
    ∃ t, Repaired rt settings s t ∧ t.Draining rt st held db ∧ Arrived rt st held db k t ∧
      ∀ j, Arrived rt st held db j s → Arrived rt st held db j t := by
  obtain ⟨t,ht,htcrew⟩ := hl s hcrew
  have hledger : t.ledger = out := congrArg Crew.ledger htcrew
  have hqueue : s.queue = q ∧ t.queue = q' := ⟨congrArg Crew.queue hcrew,congrArg Crew.queue htcrew⟩
  have hk : Arrived rt st held db k t := by
    unfold Arrived status
    rw [hledger, hrow]
  have hother (j : String) (hj : j ≠ k) : t.ledger.getEvent j = s.ledger.getEvent j := by
    rw [hledger, hframe j hj]
  have hkept (j : String) (hj : Arrived rt st held db j s) : Arrived rt st held db j t := by
    by_cases hjk : j = k
    · exact hjk ▸ hk
    · unfold Arrived status
      rw [hother j hjk]
      exact hj
  refine ⟨t,ht,⟨ht.inv Columns (fun _ _ _ hm hst => step_columns hm hst) hs.columns,?_,fun j => ?_⟩,hk,hkept⟩
  · exact ⟨clock',q',by rw [htcrew, hledger]⟩
  · by_cases hjk : j = k
    · exact Or.inr (hjk ▸ hk)
    · rcases hs.rows j with ⟨hrow,hmessage⟩ | hdone
      · refine Or.inl ⟨(hother j hjk).trans hrow,fun m hm => ?_⟩
        obtain ⟨id,hid⟩ := hmessage m hm
        rw [hqueue.1] at hid
        rw [hqueue.2]
        exact ⟨id,hspared id m hid (by rw [hheld j m hm]; exact hjk)⟩
      · exact Or.inr (hkept j hdone)

theorem fate_uploadable {st : Settings} {e : Event} {m : Option QueueMessage}
    (h : e.status = processed ∨ e.status ∈ [uploading,failedRetryable]) :
    e.fate rt st m = if st.maxRowAttempts ≤ e.attemptCount then deadLettered else uploaded := by
  simp only [List.mem_cons, List.not_mem_nil, or_false] at h
  rcases h with h | h | h <;> simp only [Event.fate, h]

/-- An event that a worker has handled goes on to the platform, if it was let through. -/
theorem leads_after {wait : Time} (hwait : (settings 0).uploadBatchWait = some wait) (hf : db.fits = true) {e : Event}
    {m : QueueMessage} (hrow : db.getEvent k = some (e.verdict rt m).row) (hq : e.status = queued) (he : Resumable e)
    (clock : Time) (q : MessageQueue) : ∃ clock' out,
    Leads rt settings (rested clock db q) (rested clock' out q) ∧
    (∀ j, j ≠ k → out.getEvent j = db.getEvent j) ∧ ∃ x, out.getEvent k = some x ∧ x.status =
      if (e.verdict rt m).row.status = processed then
        if (settings 0).maxRowAttempts ≤ e.attemptCount then deadLettered else uploaded
      else (e.verdict rt m).row.status := by
  obtain ⟨hid,hcount⟩ := verdict_columns rt e m
  by_cases hp : (e.verdict rt m).row.status = processed
  · have ha : (e.verdict rt m).row.conversionAction = e.conversionAction := congrArg Identity.conversionAction hid
    have ht : (e.verdict rt m).row.conversionTime = e.conversionTime := congrArg Identity.conversionTime hid
    obtain ⟨clock',out,hl,hframe,x,hx,hs⟩ := leads_uploaded hwait hf hrow (Or.inl hp) (fun h => by simp [hp] at h)
      (by rw [ha, ht]; exact he.complete (by simp [hq]) (by simp [hq])) (hcount ▸ he.attempts) clock q
    exact ⟨clock',out,hl,hframe,x,hx,by rw [hs, if_pos hp, hcount]⟩
  · exact ⟨clock,db,.refl _,fun _ _ => rfl,_,hrow,by rw [if_neg hp]⟩

/-- One event, with whatever is left to do for it. -/
theorem Draining.settle {wait : Time} (hwait : (settings 0).uploadBatchWait = some wait)
    (hdb : ∀ k e, db.getEvent k = some e → Resumable e) (hheld : ∀ k m, held k = some m → m.eventId = k)
    (k : String) (hs : s.Draining rt (settings 0) held db) :
    ∃ t, Repaired rt settings s t ∧ t.Draining rt (settings 0) held db ∧ Arrived rt (settings 0) held db k t ∧
      ∀ j, Arrived rt (settings 0) held db j s → Arrived rt (settings 0) held db j t := by
  have hdone (h : Arrived rt (settings 0) held db k s) : ∃ t, Repaired rt settings s t ∧
      t.Draining rt (settings 0) held db ∧ Arrived rt (settings 0) held db k t ∧
      ∀ j, Arrived rt (settings 0) held db j s → Arrived rt (settings 0) held db j t :=
    ⟨s,.refl s,hs,h,fun _ hj => hj⟩
  rcases hs.rows k with ⟨hsame,hmessage⟩ | harrived
  · cases hk : db.getEvent k with
    | none => exact hdone (by rw [Arrived, status, hsame, hk]; rfl)
    | some e =>
      have he : s.ledger.getEvent k = some e := hsame.trans hk
      have hstays (h : e.fate rt (settings 0) (held k) = e.status) : Arrived rt (settings 0) held db k s := by
        rw [Arrived, status, he, hk, Option.map_some, Option.map_some, h]
      obtain ⟨clock,q,hcrew⟩ := hs.rested
      have hresumable := hdb k e hk
      have hfits := hs.columns.fits
      cases hst : e.status with
      | received | validated | uploaded | suppressed | rejected | deadLettered =>
        exact hdone (hstays (by simp only [Event.fate, hst]))
      | processed | uploading | failedRetryable =>
        have hup : e.status = processed ∨ e.status ∈ [uploading,failedRetryable] := by simp [hst]
        obtain ⟨clock',out,hl,hframe,x,hx,hxs⟩ := leads_uploaded hwait hfits he hup hresumable.stamped
          (hresumable.complete (by simp [hst]) (by simp [hst])) hresumable.attempts clock q
        refine hs.advance hheld hcrew hl (fun _ _ h _ => h) hframe ?_
        rw [hx, hk, Option.map_some, Option.map_some, hxs, fate_uploadable hup]
      | queued =>
        by_cases hr : e.recoverable = true
        · obtain ⟨clock₁,mid,q₁,m,hl₁,hspared,hmid,hframe₁,hx,hb⟩ :=
            leads_republished hfits he hst hr clock q
          obtain ⟨clock₂,out,hl₂,hframe₂,y,hy,hys⟩ := leads_after hwait hmid hx hst hresumable clock₁ q₁
          refine hs.advance hheld hcrew (hl₁.trans hl₂) hspared
            (fun j hj => (hframe₂ j hj).trans (hframe₁ j hj)) ?_
          rw [hy, hk, Option.map_some, Option.map_some, hys,
            verdict_recoverable rt (hs.columns.keyed k e he) hr hb]
          by_cases hg : e.Granted <;> simp [Event.fate,hst,hr,hg]
        · cases hm : held k with
          | none => exact hdone (hstays (by simp only [Event.fate, hst, if_neg hr, hm]))
          | some m =>
            by_cases hv : (e.verdict rt m).Fits
            · obtain ⟨id,hid⟩ := hmessage m hm
              have hqueue : s.queue = q := congrArg Crew.queue hcrew
              obtain ⟨mid,q₁,hl₁,hspared,hmid,hframe₁,hx⟩ :=
                leads_redelivered hfits he hst (hheld k m hm) hv (hqueue ▸ hid) clock
              obtain ⟨clock₂,out,hl₂,hframe₂,y,hy,hys⟩ := leads_after hwait hmid hx hst hresumable clock q₁
              refine hs.advance hheld hcrew (hl₁.trans hl₂) hspared
                (fun j hj => (hframe₂ j hj).trans (hframe₁ j hj)) ?_
              rw [hy, hk, Option.map_some, Option.map_some, hys]
              simp only [Event.fate, hst, if_neg hr, hm, if_pos hv]
            · exact hdone (hstays (by simp only [Event.fate, hst, if_neg hr, hm, if_neg hv]))
  · exact hdone harrived

end Settle

end Drain

end System
end ConversionGateway
