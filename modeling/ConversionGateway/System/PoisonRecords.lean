import ConversionGateway.Concurrency.Filing
import ConversionGateway.System.DeadLetterMetric
import ConversionGateway.System.OneUploader

/-! # The records of poisonous events

A batch that gives up files its last transient error with each of its events. The
claim that finds a row over the attempt ceiling files what the row says after the
claim itself has rewritten it.
-/
namespace ConversionGateway
open EventStatus

/-- There is a FAILED_RETRYABLE since the last PROCESSED. -/
def FailedSince (statuses : List EventStatus) : Prop :=
  failedRetryable ∈ statuses.reverse.takeWhile fun status => status ≠ processed

instance (statuses : List EventStatus) : Decidable (FailedSince statuses) := inferInstanceAs (Decidable (_ ∈ _))

theorem failedSince_append {statuses later : List EventStatus}
    (h : ∀ status ∈ later, status ∈ [uploading,deadLettered]) :
    FailedSince (statuses ++ later) ↔ FailedSince statuses := by
  have hother : ∀ status ∈ later.reverse, status ≠ processed ∧ status ≠ failedRetryable := by
    intro status hmem
    have hst := h status (List.mem_reverse.mp hmem)
    simp only [List.mem_cons, List.not_mem_nil, or_false] at hst
    rcases hst with rfl | rfl <;> simp
  unfold FailedSince
  rw [List.reverse_append, List.takeWhile_append_of_pos fun status hmem => decide_eq_true (hother status hmem).1,
    List.mem_append]
  exact or_iff_right fun hmem => (hother _ hmem).2 rfl

/-- The record's message contains the reason. -/
def DeadLetter.Mentions (d : DeadLetter) (reason : String) : Prop :=
  ∃ message, d.platformErrorMessage = some message ∧ reason.toList <:+: message.toList

/-- The last FAILED_RETRYABLE of the history has the reason. -/
def DeadLetter.LastFailure (d : DeadLetter) (reason : String) : Prop :=
  ∃ earlier entry later, d.attemptHistory = earlier ++ entry :: later ∧ entry.status = failedRetryable ∧
    entry.reason = some reason ∧ ∀ h ∈ later, h.status ≠ failedRetryable

/-- The text in which a batch gives up contains the last error, and is not cut. -/
theorem poisonFailure_message {reason : String} {attempts : ℕ}
    (hfits : (poisonFailure reason attempts).reason.length ≤ 512) :
    ∃ message, cutMessage (some (poisonFailure reason attempts).errorMessage) = some message ∧
      reason.toList <:+: message.toList := by
  have hlen : (poisonFailure reason attempts).errorMessage.length ≤ 1024 := by
    simp only [poisonFailure, String.length_append] at hfits ⊢
    have hgave : "gave up after ".length = 14 := by decide
    have hlast : " attempts; last error ".length = 22 := by decide
    omega
  have hcut : Text.truncate 1024 (poisonFailure reason attempts).errorMessage =
      (poisonFailure reason attempts).errorMessage := by
    unfold Text.truncate
    rw [List.take_of_length_le (by rwa [String.length_toList]), String.ofList_toList]
  have hne : (poisonFailure reason attempts).errorMessage ≠ "" := by
    intro h
    have h := congrArg String.length h
    simp only [poisonFailure, String.length_append] at h
    have hgave : "gave up after ".length = 14 := by decide
    rw [String.length_empty] at h
    omega
  refine ⟨(poisonFailure reason attempts).errorMessage,?_,?_⟩
  · simp only [cutMessage, Option.getD_some, hcut, if_neg hne]
  · simp only [poisonFailure, String.toList_append]
    exact (List.suffix_append _ _).isInfix

namespace Uploader
variable {st : Settings} {clock : Time} {db : Ledger}

/-- An outcome comes from the client, and its rows are read one by one. -/
theorem step_settling {u u' : Uploader} {n : ℕ} {locks locks' : Locks} {sent : Option (List Json)}
    {a : UploaderAction} (h : u.step st n clock db locks a = some (u',locks',sent)) {now : Time}
    {batch : List Claimed} {verdict : Verdict} {loaded : List Event} {pending : List String}
    (hp : u'.phase = .settling now batch verdict loaded pending) :
    (∃ attempt outcome, a = .finish outcome ∧ u.phase = .sending now batch attempt ∧
      verdict = Uploader.verdict attempt outcome ∧ loaded = [] ∧ pending = (batchIds batch).eraseDups) ∨
    ∃ id before, a = .load ∧ u.phase = .settling now batch verdict before (id :: pending) ∧
      loaded = before ++ (db.getEvent id).toList := by
  cases a with
  | finish outcome =>
    simp only [step] at h
    split at h
    · next hphase =>
      cases h
      cases hp
      exact Or.inl ⟨_,outcome,rfl,hphase,rfl,rfl,rfl⟩
    · cases h
  | load =>
    simp only [step] at h
    split at h
    · cases h
      cases hp
    · next hphase =>
      cases h
      cases hp
      exact Or.inr ⟨_,_,rfl,hphase,rfl⟩
    · cases h
  | skip =>
    simp only [step] at h
    split at h
    · split at h
      · cases h
        rcases withClaim_phase st u [] ‹_› with hw | ⟨_,hw⟩ <;> rw [hw] at hp <;> cases hp
      · cases h
    · cases h
  | begin | select ids | send | retry reason | stamp =>
    simp only [step] at h
    split at h
    · first
        | (cases h; cases hp)
        | (split at h <;> cases h; cases hp)
    · cases h

theorem committed_unsettled {u : Uploader} {tx : Transaction} (reply : Reply) (h : u.transaction st = some tx)
    {now : Time} {batch : List Claimed} {verdict : Verdict} {loaded : List Event} {pending : List String} :
    (u.committed st reply).phase ≠ .settling now batch verdict loaded pending := by
  intro hp
  rcases committed_cases reply h with ⟨items,_,hu⟩ | ⟨_,_,_,hu | hu⟩ <;> rw [hu] at hp
  · rcases withClaim_phase st u items _ with hw | ⟨_,hw⟩ <;> rw [hw] at hp <;> cases hp
  · cases hp
  · cases hp

end Uploader

namespace System
variable {rt : Runtime} {settings : ℕ → Settings} {s t : System} {a : Action} {n : ℕ}

/-- An uploader is at the outcome of a batch. -/
def Settling (n : ℕ) (now : Time) (batch : List Claimed) (verdict : Verdict) (s : System) : Prop :=
  ∃ loaded pending, (s.uploaders n).phase = .settling now batch verdict loaded pending

/-- The call that brought the outcome. -/
def Concludes (n : ℕ) (now : Time) (batch : List Claimed) (verdict : Verdict) (s : System) (a : Action) : Prop :=
  ∃ attempt outcome, a = .uploader n (.finish outcome) ∧ (s.uploaders n).phase = .sending now batch attempt ∧
    verdict = Uploader.verdict attempt outcome

theorem step_settling {now : Time} {batch : List Claimed} {verdict : Verdict} (h : step rt settings s a = some t)
    (ht : Settling n now batch verdict t) : Concludes n now batch verdict s a ∨
      Settling n now batch verdict s ∧ ¬ ∃ outcome, a = .uploader n (.finish outcome) := by
  obtain ⟨loaded,pending,hp⟩ := ht
  by_cases hown : ∃ b, a = .uploader n b
  · obtain ⟨b,rfl⟩ := hown
    obtain ⟨⟨u,locks,sent⟩,hstep,rfl⟩ := Option.map_eq_some_iff.mp h
    simp only [Function.update_self] at hp
    rcases Uploader.step_settling hstep hp with ⟨attempt,outcome,rfl,hphase,hverdict,_,_⟩ | ⟨id,before,rfl,hphase,_⟩
    · exact Or.inl ⟨attempt,outcome,rfl,hphase,hverdict⟩
    · refine Or.inr ⟨⟨before,id :: pending,hphase⟩,?_⟩
      rintro ⟨outcome,ha⟩
      cases ha
  · rcases step_uploader h n with hu | ⟨b,_,ha,_⟩ | ⟨tx,reply,hc,hu⟩ | hu
    · refine Or.inr ⟨⟨loaded,pending,hu ▸ hp⟩,?_⟩
      rintro ⟨outcome,ha⟩
      exact hown ⟨_,ha⟩
    · exact absurd ⟨b,ha⟩ hown
    · rw [hu] at hp
      exact absurd hp (Uploader.committed_unsettled reply hc.transaction)
    · rw [hu] at hp
      cases hp

/-- The transaction that files the record of an event says why its last attempt failed:
the last call with the batch, or the last FAILED_RETRYABLE of the history. -/
def LastFailure (rt : Runtime) (settings : ℕ → Settings) (db : Ledger) (before : List Action) (n : ℕ)
    (d : DeadLetter) (reason : String) : Transaction → Prop
  | .claim _ _ _ => d.LastFailure reason
  | .bury batch _ _ _ => ∃ earlier later s now attempt,
      before = earlier ++ .uploader n (.finish (.transient reason)) :: later ∧
      run rt settings (start db) earlier = some s ∧ (s.uploaders n).phase = .sending now batch attempt ∧
      d.eventId ∈ batchIds batch ∧ ∀ outcome, .uploader n (.finish outcome) ∉ later
  | _ => False

/-- One step of the run filed the record, and it mentions the last failure. -/
def Explains (rt : Runtime) (settings : ℕ → Settings) (db : Ledger) (actions : List Action) (d : DeadLetter) : Prop :=
  ∃ before n after s t tx reason, actions = before ++ .commit (.uploader n) :: after ∧
    run rt settings (start db) before = some s ∧ step rt settings s (.commit (.uploader n)) = some t ∧
    s.transaction settings (.uploader n) = some tx ∧ d.frozen ∉ s.ledger.accounts ∧ d.frozen ∈ t.ledger.accounts ∧
    LastFailure rt settings db before n d reason tx ∧ d.Mentions reason

/-- No claim finds over the ceiling a row that has failed since it was PROCESSED. -/
def SparesFailed (settings : ℕ → Settings) (s : System) (a : Action) : Prop :=
  match a with
  | .commit who => ∀ tx ∈ s.transaction settings who, ∀ st ids now, tx = .claim st ids now → ∀ id ∈ ids,
      ∀ e ∈ s.ledger.getEvent id, st.maxRowAttempts ≤ e.attemptCount →
        ¬ FailedSince ((s.ledger.listTransitions id).map EventTransition.toStatus)
  | _ => True

/-- A record that a step adds was filed by the commit of an uploader. -/
theorem step_files (hl : s.Linked) (hh : s.HeldRecords) (h : step rt settings s a = some t) {d : DeadLetter}
    (hold : d ∉ s.ledger.accounts) (hd : d ∈ t.ledger.accounts) :
    ∃ n tx reply, a = .commit (.uploader n) ∧ Commits rt settings s t (.uploader n) tx reply ∧ tx.Files rt s.ledger d := by
  rcases step_ledger h with heq | ⟨who,tx,reply,rfl,hc⟩
  · exact absurd (heq ▸ hd) hold
  · have hfiles := Transaction.commit_files (hl.known hc.transaction) (hl.keys_nodup hc.transaction)
      (hh.holds hc.transaction) hc.commit
    have hfiled := (hfiles.mem hd).resolve_left hold
    cases who with
    | uploader n => exact ⟨n,tx,reply,rfl,hc,hfiled⟩
    | request n | worker n | replayer n | reconciler n =>
      rcases transaction_other hc.transaction (by simp) with ⟨_,_,_,_,rfl⟩ | ⟨_,_,_,rfl⟩ | ⟨_,_,_,rfl⟩
      · exact hfiled.elim
      · exact hfiled.elim
      · exact hfiled.elim

/-- The record of a batch that gave up. -/
theorem bury_explains {db : Ledger} {before : List Action} {batch : List Claimed} {loaded : List Event}
    {failure : BatchFailure} {now : Time} {reply : Reply} {d : DeadLetter}
    (hs : run rt settings (start db) before = some s) (htidy : (s.uploaders n).Tidy (settings n))
    (hc : Commits rt settings s t (.uploader n) (.bury batch loaded failure now) reply)
    (hfiled : (Transaction.bury batch loaded failure now).Files rt s.ledger d.frozen) (hd : d.frozen ∈ t.ledger.accounts)
    (hpoison : d.failureClass = .poison) :
    ∃ reason, LastFailure rt settings db before n d reason (.bury batch loaded failure now) ∧ d.Mentions reason := by
  obtain ⟨hclass,hreason,hloaded,hmessage,_⟩ := hfiled
  obtain ⟨now,batch,failure,loaded,hp,heq⟩ : ∃ now' batch' failure' loaded',
      (s.uploaders n).phase = .settling now' batch' (.failure failure') loaded' [] ∧
        Transaction.bury batch loaded failure now = .bury batch' loaded' failure' now' := by
    rcases Uploader.transaction_cases hc.transaction with ⟨_,_,_,heq⟩ | ⟨_,_,_,_,_,_,_,_,heq⟩ | ⟨_,_,_,_,_,heq⟩ |
      ⟨_,_,_,_,hp,heq⟩
    · cases heq
    · cases heq
    · cases heq
    · exact ⟨_,_,_,_,hp,heq⟩
  cases heq
  have hstart : ¬ Settling n now batch (.failure failure) (start db) := by
    rintro ⟨_,_,hidle⟩
    cases hidle
  have hend : Settling n now batch (.failure failure) s := ⟨loaded,[],hp⟩
  obtain ⟨earlier,b,later,v,rfl,hv,⟨attempt,outcome,rfl,hsending,hverdict⟩,hlater⟩ :=
    Machine.run_since (Q := Settling n now batch (.failure failure)) (E := Concludes n now batch (.failure failure))
      (M := fun a => ∃ outcome, a = .uploader n (.finish outcome)) (fun _ _ _ h ht => step_settling h ht) hstart hend hs
  have hbatch : d.eventId ∈ batchIds batch := by
    have hreads : (s.uploaders n).reads = loaded.map Event.eventId := by simp [Uploader.reads,hp]
    have hin := htidy.reads d.eventId (hreads.symm ▸ hloaded)
    simpa [Uploader.batch,hp] using hin
  cases outcome with
  | result rows => cases hverdict
  | permanent reason =>
    cases hverdict
    exact absurd (hclass.symm.trans hpoison) (by simp [permanentFailure])
  | transient reason =>
    cases hverdict
    have hlen : d.reason.length ≤ 512 := by
      obtain ⟨_,_,_,hfits⟩ := Transaction.commit_ok.mp hc.commit
      obtain ⟨x,hx,hsame⟩ := List.mem_map.mp hd
      simp only [Ledger.fits, Bool.and_eq_true, List.all_eq_true] at hfits
      have hrow := hfits.2 x hx
      simp only [DeadLetter.fits, varchar, Bool.and_eq_true, decide_eq_true_eq] at hrow
      have hreason : x.frozen.reason = d.frozen.reason := by rw [hsame]
      have hreason : x.reason = d.reason := hreason
      rw [← hreason]
      exact hrow.1.1.2.1
    have hreason : d.reason = (poisonFailure reason attempt).reason := hreason
    rw [hreason] at hlen
    obtain ⟨message,hcut,hin⟩ := poisonFailure_message hlen
    refine ⟨reason,⟨earlier,later,v,now,attempt,rfl,hv,hsending,hbatch,fun outcome hmem => ?_⟩,?_⟩
    · exact hlater _ hmem ⟨outcome,rfl⟩
    · exact ⟨message,hmessage.trans hcut,hin⟩

/-- In every run in which no claim finds over the ceiling a row that has failed since
it was PROCESSED, each record of a poisonous event that has mentions its last failure. -/
theorem run_poison_explained (rt : Runtime) (settings : ℕ → Settings) (db : Ledger) (actions : List Action)
    (s : System) (h : run rt settings (start db) actions = some s)
    (hspares : Machine.Along (step rt settings) (SparesFailed settings) (start db) actions) (d : DeadLetter)
    (hd : d ∈ s.ledger.deadLetters.rows) (hnew : d.frozen ∉ db.accounts) (hpoison : d.failureClass = .poison)
    (hfailed : FailedSince (d.attemptHistory.map HistoryEntry.status)) : Explains rt settings db actions d := by
  obtain ⟨before,a,after,v,w,rfl,hv,hw,hafter,hold,hadded⟩ := Machine.run_crossing
    (P := fun u : System => d.frozen ∈ u.ledger.accounts) h hnew (List.mem_map_of_mem hd)
  have hinv := Machine.run_inv' (fun u : System => u.Linked ∧ u.HeldRecords ∧ ∀ m, (u.uploaders m).Tidy (settings m))
    (fun _ _ _ hs hst => ⟨step_linked hs.1 hst,step_heldRecords hs.1 hs.2.1 hst,step_tidy hst hs.2.2⟩)
    ⟨start_linked db,start_heldRecords db,fun _ => Uploader.fresh_tidy⟩ hv
  obtain ⟨hl,hh,htidy⟩ := hinv
  obtain ⟨n,tx,reply,rfl,hc,hfiled⟩ := step_files hl hh hw hold hadded
  obtain ⟨reason,hlast,hmentions⟩ : ∃ reason, LastFailure rt settings db before n d reason tx ∧ d.Mentions reason := by
    rcases Uploader.transaction_cases hc.transaction with ⟨now,ids,hp,rfl⟩ | ⟨_,_,_,_,_,_,_,_,rfl⟩ |
      ⟨_,_,_,_,_,rfl⟩ | ⟨_,_,_,_,_,rfl⟩
    · obtain ⟨_,hid,e,x,reason,he,hx,hlt,_,_,trail,htrail,hhistory⟩ := hfiled
      have hcount : x.attemptCount = e.attemptCount + 1 := by cases hx <;> rfl
      have hspared := hspares before (.commit (.uploader n)) after v rfl hv _ hc.transaction _ _ _ rfl _ hid e he
        (by omega)
      have hstatuses : d.attemptHistory.map HistoryEntry.status =
          (v.ledger.listTransitions d.eventId).map EventTransition.toStatus ++ trail.map EventTransition.toStatus := by
        have hhistory : d.attemptHistory = _ := hhistory
        rw [hhistory, List.map_map, List.map_append]
        rfl
      rw [hstatuses, failedSince_append] at hfailed
      · exact absurd hfailed hspared
      · intro status hmem
        obtain ⟨t,ht,rfl⟩ := List.mem_map.mp hmem
        exact htrail t ht
    · exact hfiled.elim
    · exact absurd (hfiled.1.symm.trans hpoison) (by simp)
    · exact bury_explains hv (htidy n) hc hfiled hadded hpoison
  exact ⟨before,n,after,v,w,tx,reason,rfl,hv,hw,hc.transaction,hold,hadded,hlast,hmentions⟩

instance (settings : ℕ → Settings) (s : System) : ∀ a, Decidable (SparesFailed settings s a)
  | .commit who =>
    match h : s.transaction settings who with
    | some (.claim st ids now) => decidable_of_iff (∀ id ∈ ids, ∀ e ∈ s.ledger.getEvent id,
        st.maxRowAttempts ≤ e.attemptCount →
          ¬ FailedSince ((s.ledger.listTransitions id).map EventTransition.toStatus)) (by simp [SparesFailed,h])
    | some (.ingest ..) | some (.process ..) | some (.retry ..) | some (.apply ..) | some (.bury ..) |
      some (.replay ..) => isTrue (by simp [SparesFailed,h])
    | none => isTrue (by simp [SparesFailed,h])
  | .tick _ | .expire _ | .request _ _ | .worker _ _ | .uploader _ _ | .replayer _ _ |
    .reconciler _ _ | .crash _ => isTrue trivial

/-- Two attempts in a row, and two for a batch. -/
def impatient : Settings :=
  { Settings.single with
    uploadMaxAttempts := 2
    maxRowAttempts := 1
    maxAttempts_pos := Nat.two_pos
    maxRowAttempts_pos := Nat.one_pos }

/-- Both attempts of the batch fail, and it gives up. -/
def giveUp : List Action :=
  uploadOnce.take 10 ++ [.uploader 0 (.retry "http_503"), .uploader 0 .load, .uploader 0 .stamp,
    .commit (.uploader 0), .uploader 0 .send, .uploader 0 (.finish (.transient "timeout")), .uploader 0 .load,
    .commit (.uploader 0)]

theorem run_poison_explained_giveUp : ∃ s d,
    run (clickRuntime 1704067200000) (fun _ => impatient) (start Ledger.empty) giveUp = some s ∧
      d ∈ s.ledger.deadLetters.rows ∧ d.failureClass = .poison ∧
      Explains (clickRuntime 1704067200000) (fun _ => impatient) Ledger.empty giveUp d := by
  have hrun : ((run (clickRuntime 1704067200000) (fun _ => impatient) (start Ledger.empty) giveUp).any fun s =>
      s.ledger.deadLetters.rows.any fun d => decide (d.failureClass = .poison ∧
        FailedSince (d.attemptHistory.map HistoryEntry.status))) = true := by decide +kernel
  obtain ⟨s,hs,h⟩ := (Option.any_eq_true ..).mp hrun
  obtain ⟨d,hd,h⟩ := List.any_eq_true.mp h
  obtain ⟨hpoison,hfailed⟩ := of_decide_eq_true h
  exact ⟨s,d,hs,hd,hpoison,run_poison_explained (clickRuntime 1704067200000) (fun _ => impatient) Ledger.empty giveUp s
    hs (by decide +kernel) d hd List.not_mem_nil hpoison hfailed⟩

/-- A row fails on its own, and the next claim finds it over the ceiling. -/
def failTwice : List Action :=
  uploadOnce.take 10 ++ [.uploader 0 (.finish (.result [⟨0,false,some "TOO_RECENT_CONVERSION",none⟩])),
    .uploader 0 .load, .commit (.uploader 0), .tick 60000000, .uploader 0 .begin, .uploader 0 (.select ["hubspot:1"]),
    .commit (.uploader 0)]

theorem not_poison_explained_ceiling : ∃ s d,
    run (clickRuntime 1704067200000) (fun _ => impatient) (start Ledger.empty) failTwice = some s ∧
      d ∈ s.ledger.deadLetters.rows ∧ d.frozen ∉ Ledger.empty.accounts ∧ d.failureClass = .poison ∧
      FailedSince (d.attemptHistory.map HistoryEntry.status) ∧
      ¬ Explains (clickRuntime 1704067200000) (fun _ => impatient) Ledger.empty failTwice d := by
  have hrun : ((run (clickRuntime 1704067200000) (fun _ => impatient) (start Ledger.empty) failTwice).any fun s =>
      s.ledger.deadLetters.rows.any fun d => decide (d.failureClass = .poison ∧
        FailedSince (d.attemptHistory.map HistoryEntry.status) ∧ d.platformErrorMessage = none)) = true := by
    decide +kernel
  obtain ⟨s,hs,h⟩ := (Option.any_eq_true ..).mp hrun
  obtain ⟨d,hd,h⟩ := List.any_eq_true.mp h
  obtain ⟨hpoison,hfailed,hnone⟩ := of_decide_eq_true h
  refine ⟨s,d,hs,hd,List.not_mem_nil,hpoison,hfailed,?_⟩
  rintro ⟨_,_,_,_,_,_,_,_,_,_,_,_,_,_,message,hmessage,_⟩
  rw [hnone] at hmessage
  cases hmessage

end System
end ConversionGateway
