import ConversionGateway.System.CommittedRows

/-! # Committed changes of status

A transaction checks the status it has read. As long as the committed row still
has that status when the transaction commits, every committed change is one that
the table of transitions permits; a stale read can undo a terminal status.
-/
namespace ConversionGateway
open EventStatus

/-- The attempts of a row are counted from its claim to its replay. -/
def Event.Counted (e : Event) : Prop := e.status.Attempted ↔ 0 < e.attemptCount

/-- The committed status stays or changes as the table permits. -/
def EventStatus.Leads (s t : EventStatus) : Prop := t = s ∨ t ∈ s.allowedTransitions

/-- The rows a transaction changes on the strength of a plain read. -/
def Transaction.acted : Transaction → List Event
  | process _ loaded _ => loaded.toList.filter fun e => e.status = .queued
  | replay letter loaded _ =>
    loaded.toList.filter fun e => letter.replayedAt = none ∧ e.status = .deadLettered
  | retry _ loaded _ _ => loaded
  | apply _ loaded _ _ => loaded
  | bury _ loaded _ _ => loaded
  | _ => []

section Row
variable {rt : Runtime} {tx : Transaction} {base final current : Event}

theorem Event.Counted.pos {e : Event} (h : e.Counted) (ha : e.status.Attempted) : 0 < e.attemptCount :=
  h.mp ha

theorem Event.Counted.zero {e : Event} (h : e.Counted) (ha : ¬ e.status.Attempted) :
    e.attemptCount = 0 := Nat.eq_zero_of_not_pos fun hp => ha (h.mpr hp)

/-- A claimed row: at the first attempt it is kept. -/
theorem Event.TakenBy.leads {maxAttempts : ℕ} {now : Time} {e x : Event} (hmax : 1 ≤ maxAttempts)
    (he : e.Counted) (h : e.TakenBy maxAttempts now x) : x.Counted ∧ e.status.Leads x.status := by
  have hfrom := h.before
  obtain ⟨y,reason,hy,hx⟩ := h
  have hcount : y.attemptCount = e.attemptCount + 1 := by cases hy <;> rfl
  have hup : y.status = .uploading := by
    cases hy with
    | attempt ha => rfl
    | reclaim hu => exact hu
  cases hx with
  | refl =>
    refine ⟨⟨fun _ => ?_,fun _ => ?_⟩,?_⟩
    · rw [hcount]
      exact Nat.succ_pos _
    · simp [hup,Attempted]
    · rw [hup]
      rcases hfrom with hs | hs | hs <;> simp [hs,Leads,allowedTransitions]
  | single hcut =>
    obtain ⟨hlt,reason,rfl⟩ := hcut
    have hpos : 0 < e.attemptCount := by omega
    have hatt := he.mpr hpos
    refine ⟨⟨fun _ => ?_,fun _ => ?_⟩,?_⟩
    · show 0 < y.attemptCount
      omega
    · simp [Event.moved,Attempted]
    · rcases hfrom with hs | hs | hs
      · simp [hs,Attempted] at hatt
      · simp [hs,Leads,allowedTransitions,Event.moved]
      · simp [hs,Leads,allowedTransitions,Event.moved]

/-- The outcome of an upload written over a row with the status that was read. -/
theorem Event.Settled.leads (h : base.Settled final) (hc : current.Counted)
    (hs : current.status = base.status) : (Event.merge base final current).Counted ∧
      current.status.Leads (Event.merge base final current).status := by
  have hmerged : (Event.merge base final current).status = final.status := h.merge_status
  have hatt : base.status.Attempted := by
    have ha := h.allowed
    have ho := h.outcome
    simp only [List.mem_cons, List.not_mem_nil, or_false] at ho
    rcases ho with ho | ho | ho <;> rw [ho] at ha <;> cases hst : base.status <;>
      simp_all [allowedTransitions,Attempted]
  have hcount : (Event.merge base final current).attemptCount = current.attemptCount := by
    rw [Event.merge_attemptCount, h.attemptCount, pick_unchanged]
  refine ⟨⟨fun _ => ?_,fun _ => ?_⟩,Or.inr ?_⟩
  · rw [hcount]
    exact hc.pos (hs ▸ hatt)
  · rw [hmerged]
    have ho := h.outcome
    simp only [List.mem_cons, List.not_mem_nil, or_false] at ho
    rcases ho with ho | ho | ho <;> simp [ho,Attempted]
  · rw [hmerged, hs]
    exact h.allowed

/-- One changed object written over a row whose status is the one that was read. -/
theorem Transaction.Change.leads (h : tx.Change rt base final) (hb : base.Counted)
    (hc : current.Counted) (hs : current.status = base.status)
    (hclaim : ∀ st selected now, tx = .claim st selected now → current = base ∧ 1 ≤ st.maxRowAttempts) :
    (Event.merge base final current).Counted ∧
      current.status.Leads (Event.merge base final current).status := by
  cases tx with
  | ingest source plan correlationId now => exact h.elim
  | claim st selected now =>
    obtain ⟨rfl,hmax⟩ := hclaim st selected now rfl
    rw [Event.merge_fresh]
    exact Event.TakenBy.leads hmax hb h
  | process message loaded now =>
    obtain ⟨hq,reason,hp⟩ := h
    have hcount : final.attemptCount = base.attemptCount := by cases hp <;> rfl
    have hzero := hc.zero (by simp [hs,hq,Attempted])
    have hfinal : final.status ∈ [processed,suppressed,rejected] := by
      cases hp <;> simp [Event.moved,Event.processedWith]
    have hmerged : (Event.merge base final current).status = final.status := by
      refine pick_of_ne fun heq => ?_
      rw [heq, hq] at hfinal
      simp at hfinal
    unfold Event.Counted
    rw [hmerged, hs, hq, Event.merge_attemptCount, hcount, pick_unchanged, hzero]
    simp only [List.mem_cons, List.not_mem_nil, or_false] at hfinal
    rcases hfinal with hf | hf | hf <;> simp [hf,Attempted,Leads,allowedTransitions]
  | retry ids loaded reason stamps =>
    have hu : current.status = .uploading := hs.trans h.before
    have hmerged : (Event.merge base final current).status = .uploading := h.merge_status.trans hu
    have hcount : (Event.merge base final current).attemptCount = final.attemptCount :=
      pick_of_ne (Nat.ne_of_gt h.attemptCount)
    refine ⟨⟨fun _ => ?_,fun _ => ?_⟩,Or.inl (hmerged.trans hu.symm)⟩
    · rw [hcount]
      exact Nat.zero_lt_of_lt h.attemptCount
    · rw [hmerged]
      simp [Attempted]
  | apply batch loaded rows now => exact Event.Settled.leads h hc hs
  | bury batch loaded failure now => exact Event.Settled.leads h.1 hc hs
  | replay letter loaded now =>
    obtain ⟨hd,_,rfl⟩ := h
    have hpos := hb.pos (by simp [hd,Attempted])
    have hmerged : (Event.merge base (base.requeued letter) current).status = .queued := by
      refine pick_of_ne fun heq => ?_
      rw [hd] at heq
      cases heq
    have hcount : (Event.merge base (base.requeued letter) current).attemptCount = 0 :=
      pick_of_ne (Nat.ne_of_lt hpos)
    refine ⟨⟨fun ha => ?_,fun hp => ?_⟩,Or.inr ?_⟩
    · rw [hmerged] at ha
      simp [Attempted] at ha
    · rw [hcount] at hp
      cases hp
    · rw [hmerged, hs, hd]
      simp [allowedTransitions]

/-- A row changed by a transaction that took no lock is one it acts on. -/
theorem Transaction.mem_acted {db : Ledger} {k : String} (hk : tx.session.Known db) (hkey : k ∈ tx.keys)
    (hc : db.getEvent k = some current) (h : tx.Change rt (tx.session.event current) final)
    (hclaim : ∀ st selected now, tx ≠ .claim st selected now) :
    tx.session.event current ∈ tx.acted := by
  have hmem : k ∈ tx.session.events.map Event.eventId → tx.session.event current ∈ tx.session.events := by
    intro hm
    obtain ⟨e,he,hid⟩ := List.mem_map.mp hm
    rw [Session.event_of_mem hk.distinct he ((Ledger.getEvent_eventId hc).trans hid.symm)]
    exact he
  cases tx with
  | claim st selected now => exact absurd rfl (hclaim st selected now)
  | ingest source plan correlationId now => exact h.elim
  | process message loaded now => exact List.mem_filter.mpr ⟨hmem hkey,by simpa using h.1⟩
  | replay letter loaded now =>
    exact List.mem_filter.mpr ⟨hmem hkey,by simpa using ⟨h.2.1,h.1⟩⟩
  | retry | apply | bury => exact hmem hkey

end Row

namespace System
variable {rt : Runtime} {settings : ℕ → Settings} {s t : System} {a : Action}

/-- A commit is current if every row its transaction acts on still has the status
that was read. -/
def Current (settings : ℕ → Settings) (s : System) (a : Action) : Prop :=
  match a with
  | .commit who => ∀ tx ∈ s.transaction settings who, ∀ e ∈ tx.acted,
      ∀ current ∈ s.ledger.getEvent e.eventId, current.status = e.status
  | _ => True

instance (s : System) : ∀ a, Decidable (Current settings s a)
  | .commit who => inferInstanceAs (Decidable (∀ tx ∈ s.transaction settings who, ∀ e ∈ tx.acted,
      ∀ current ∈ s.ledger.getEvent e.eventId, current.status = e.status))
  | .tick _ | .expire _ | .request _ _ | .worker _ _ | .uploader _ _ | .replayer _ _ |
    .reconciler _ _ | .crash _ => isTrue trivial

/-- Every committed change of status is permitted from the committed status. -/
def Lawful (rt : Runtime) (settings : ℕ → Settings) (s : System) (a : Action) : Prop :=
  ∀ t, step rt settings s a = some t → ∀ k e, s.ledger.getEvent k = some e →
    ∃ e', t.ledger.getEvent k = some e' ∧
      (e'.status = e.status ∨ e'.status ∈ e.status.allowedTransitions)

structure Counting (s : System) : Prop where
  linked : s.Linked
  rows : ∀ k e, s.ledger.getEvent k = some e → e.Counted
  held : ∀ who, ∀ e ∈ s.rows who, e.Counted

theorem start_counting : (start Ledger.empty).Counting := by
  refine ⟨start_linked _,fun k e he => (by cases he),fun who e he => ?_⟩
  cases who <;> simp [System.rows,start,Worker.rows,Uploader.rows,Uploader.fresh,Replayer.rows] at he

/-- The row of a first delivery has no attempts. -/
theorem enters_unattempted {source : Source} {now : Time} {plan : IngestPlan} {e : Event}
    (h : plan.Enters source now e) : e.attemptCount = 0 ∧ ¬ e.status.Attempted := by
  cases plan with
  | raised e => exact h.elim
  | accept event =>
    obtain ⟨row,stored,hrow,hstored,rfl⟩ := h
    obtain ⟨_,_,hrow⟩ := Outcome.bind_ok.mp hrow
    obtain ⟨_,_,hrow⟩ := Outcome.bind_ok.mp hrow
    obtain ⟨v,t,rfl⟩ := hstored.columns
    rw [← Outcome.pure_ok.mp hrow]
    exact ⟨rfl,by simp [Event.moved,Attempted]⟩
  | reject sourceEventId errors =>
    obtain ⟨id,stored,_,hstored,label,rfl⟩ := h
    have hcount : stored.attemptCount = 0 := by
      obtain ⟨v,t,rfl⟩ := hstored.columns
      rfl
    have hmoved : (stored.moved .rejected (some (rejectReason errors))).attemptCount = 0 ∧
        ¬ (stored.moved .rejected (some (rejectReason errors))).status.Attempted :=
      ⟨hcount,by simp [Event.moved,Attempted]⟩
    exact hmoved

theorem enters_counted {source : Source} {now : Time} {plan : IngestPlan} {e : Event}
    (h : plan.Enters source now e) : e.Counted := by
  obtain ⟨hcount,hnot⟩ := enters_unattempted h
  constructor
  · intro ha
    exact absurd ha hnot
  · intro hp
    omega

/-- A current commit changes statuses as permitted and keeps the count. -/
theorem commit_leads {who : Process} {tx : Transaction} {reply : Reply} (hs : s.Counting)
    (hcur : Current settings s (.commit who)) (hc : Commits rt settings s t who tx reply) {k : String}
    {e : Event} (he : s.ledger.getEvent k = some e) :
    ∃ e', t.ledger.getEvent k = some e' ∧ e'.Counted ∧ e.status.Leads e'.status := by
  have hcount := hs.rows k e he
  rcases hc.row hs.linked he with hsame | ⟨hkey,final,hchange,hget⟩
  · exact ⟨e,hsame,hcount,Or.inl rfl⟩
  · refine ⟨_,hget,hchange.leads ?_ hcount ?_ ?_⟩
    · rcases tx.session.event_eq_or e with heq | hmem
      · rw [heq]
        exact hcount
      · exact hs.held who _ ((transaction_session hc.transaction).1 ▸ hmem)
    · by_cases hcl : ∃ st selected now, tx = .claim st selected now
      · obtain ⟨st,selected,now,rfl⟩ := hcl
        rfl
      · have hacts := Transaction.mem_acted (hs.linked.known hc.transaction) hkey he hchange
          fun st selected now heq => hcl ⟨st,selected,now,heq⟩
        refine hcur tx hc.transaction _ hacts e ?_
        rw [Session.event_eventId]
        exact getEvent_self he
    · rintro st selected now rfl
      exact ⟨rfl,st.maxRowAttempts_pos⟩

theorem step_counting (hs : s.Counting) (hcur : Current settings s a)
    (h : step rt settings s a = some t) : t.Counting := by
  refine ⟨step_linked hs.linked h,?_,fun who e he => ?_⟩
  · rcases step_ledger h with heq | ⟨who,tx,reply,rfl,hc⟩
    · rw [heq]
      exact hs.rows
    · intro k e he
      cases hk : s.ledger.getEvent k with
      | none =>
        obtain ⟨_,_,_,_,_,_,hx⟩ := hc.new_row hs.linked hk he
        exact enters_counted hx
      | some e₀ =>
        obtain ⟨e',he',hcount,_⟩ := commit_leads hs hcur hc hk
        obtain rfl := Option.some.inj (he.symm.trans he')
        exact hcount
  · rcases step_rows h he with he | he
    · exact hs.held who e he
    · exact hs.rows _ e he

theorem current_lawful (hs : s.Counting) (hcur : Current settings s a) : Lawful rt settings s a := by
  intro t h k e he
  rcases step_ledger h with heq | ⟨who,tx,reply,rfl,hc⟩
  · exact ⟨e,heq ▸ he,Or.inl rfl⟩
  · obtain ⟨e',he',_,hl⟩ := commit_leads hs hcur hc he
    exact ⟨e',he',hl⟩

/-- A lawful step leaves a terminal status alone. -/
theorem Lawful.terminal (h : Lawful rt settings s a) (hst : step rt settings s a = some t) {k : String}
    {e : Event} (he : s.ledger.getEvent k = some e) (ht : e.status.Terminal) :
    ∃ e', t.ledger.getEvent k = some e' ∧ e'.status = e.status := by
  obtain ⟨e',he',hs | ha⟩ := h t hst k e he
  · exact ⟨e',he',hs⟩
  · rw [show e.status.allowedTransitions = [] from ht] at ha
    cases ha

/-- In every run whose commits are current, every committed change of status is a
permitted one, and a row that is UPLOADED or REJECTED stays so. -/
theorem run_lawful (rt : Runtime) (settings : ℕ → Settings) (actions : List Action) (s : System)
    (h : run rt settings (start Ledger.empty) actions = some s)
    (hcur : Machine.Along (step rt settings) (Current settings) (start Ledger.empty) actions) :
    Machine.Along (step rt settings) (Lawful rt settings) (start Ledger.empty) actions ∧
    ∀ pre post t, actions = pre ++ post → run rt settings (start Ledger.empty) pre = some t →
      ∀ k e, t.ledger.getEvent k = some e → e.status = uploaded ∨ e.status = rejected →
        ∃ e', s.ledger.getEvent k = some e' ∧ e'.status = e.status := by
  have hlaw : Machine.Along (step rt settings) (Lawful rt settings) (start Ledger.empty) actions :=
    Machine.along_of_inv Counting (fun _ _ _ hs hc hst => step_counting hs hc hst)
      (fun _ _ hs hc => current_lawful hs hc) start_counting hcur
  refine ⟨hlaw,?_⟩
  rintro pre post t rfl ht k e he hterm
  obtain ⟨t',ht',hpost⟩ := Machine.run_append.mp h
  obtain rfl := Option.some.inj (ht.symm.trans ht')
  have hrest := hlaw.right ht
  have hkept := Machine.run_inv
    (fun u : System => ∃ e', u.ledger.getEvent k = some e' ∧ e'.status = e.status)
    (fun u a v ⟨x,hx,hxs⟩ hl hst => by
      obtain ⟨y,hy,hys⟩ := hl.terminal hst hx (by rw [hxs]; exact (terminal_iff _).mpr hterm)
      exact ⟨y,hy,hys.trans hxs⟩) ⟨e,he,rfl⟩ hrest hpost
  exact hkept

/-- The theorem at the run of one event. -/
theorem run_lawful_uploadOnce : ∃ s,
    run (clickRuntime 1704067200000) (fun _ => .single) (start Ledger.empty) uploadOnce = some s ∧
    s.status "hubspot:1" = some uploaded ∧
    Machine.Along (step (clickRuntime 1704067200000) fun _ => .single)
      (Lawful (clickRuntime 1704067200000) fun _ => .single) (start Ledger.empty) uploadOnce := by
  have hrun : (run (clickRuntime 1704067200000) (fun _ => .single) (start Ledger.empty)
      uploadOnce).map (fun s => s.status "hubspot:1") = some (some uploaded) := by decide +kernel
  obtain ⟨s,hs,hstatus⟩ := Option.map_eq_some_iff.mp hrun
  exact ⟨s,hs,hstatus,(run_lawful _ _ uploadOnce s hs (by decide +kernel)).1⟩

/-- A message is delivered again while its first worker is at it; the second
worker commits what it read before the upload. -/
def staleWorker : List Action :=
  [.request 0 (.deliver .hubspot (clickBody 1704067200000) .zero), .commit (.request 0),
    .request 0 .publish, .worker 0 (.receive 0), .worker 0 .read, .expire 0, .worker 1 (.receive 0),
    .worker 1 .read, .commit (.worker 0), .uploader 0 .begin, .uploader 0 (.select ["hubspot:1"]),
    .commit (.uploader 0), .uploader 0 .send, .uploader 0 (.finish (.result [⟨0,true,none,none⟩])),
    .uploader 0 .load, .commit (.uploader 0)]

/-- The stale commit takes an UPLOADED event back to PROCESSED. -/
theorem not_lawful_staleWorker :
    ¬ Machine.Along (step (clickRuntime 1704067200000) fun _ => .single)
      (Lawful (clickRuntime 1704067200000) fun _ => .single) (start Ledger.empty)
      (staleWorker ++ [.commit (.worker 1)]) := by
  intro h
  have hpre : (run (clickRuntime 1704067200000) (fun _ => .single) (start Ledger.empty)
      staleWorker).map (fun s => s.status "hubspot:1") = some (some uploaded) := by decide +kernel
  have hall : (run (clickRuntime 1704067200000) (fun _ => .single) (start Ledger.empty)
      (staleWorker ++ [.commit (.worker 1)])).map (fun s => s.status "hubspot:1") =
        some (some processed) := by decide +kernel
  obtain ⟨s,hs,hstatus⟩ := Option.map_eq_some_iff.mp hpre
  obtain ⟨t,ht,hstatus'⟩ := Option.map_eq_some_iff.mp hall
  obtain ⟨s',hs',hstep⟩ := Machine.run_concat.mp ht
  obtain rfl := Option.some.inj (hs.symm.trans hs')
  obtain ⟨e,he,hup⟩ := Option.map_eq_some_iff.mp hstatus
  obtain ⟨e',he',hpr⟩ := Option.map_eq_some_iff.mp hstatus'
  have hl := h staleWorker _ [] s rfl hs
  obtain ⟨e'',he'',hlead⟩ := hl t hstep "hubspot:1" e he
  obtain rfl := Option.some.inj (he'.symm.trans he'')
  simp [hup,hpr,allowedTransitions] at hlead

end System
end ConversionGateway
