import ConversionGateway.Concurrency.Commits
import ConversionGateway.Lifecycle.DeadLetterCounts

/-! # The records a transaction files

What a record of the dead-letter store says, by the transaction that wrote it. The
store only grows, so each record was filed by one transaction.
-/
namespace ConversionGateway
open Relational EventStatus

/-- The store of `out` is that of `db` and then records with `P`. -/
def Ledger.Files (P : DeadLetter → Prop) (db out : Ledger) : Prop :=
  ∃ filed, out.accounts = db.accounts ++ filed ∧ ∀ d ∈ filed, P d

section Files
variable {rt : Runtime} {P Q : DeadLetter → Prop} {db mid out : Ledger} {e : Event}

theorem Ledger.Files.refl (db : Ledger) : db.Files P db := ⟨[],(List.append_nil _).symm,by simp⟩

theorem Ledger.Files.trans (h₁ : db.Files P mid) (h₂ : mid.Files P out) : db.Files P out := by
  obtain ⟨first,hfirst,hP⟩ := h₁
  obtain ⟨second,hsecond,hQ⟩ := h₂
  refine ⟨first ++ second,by rw [hsecond, hfirst, List.append_assoc],fun d hd => ?_⟩
  rcases List.mem_append.mp hd with hd | hd
  · exact hP d hd
  · exact hQ d hd

theorem Ledger.Files.mono (h : db.Files P out) (hPQ : ∀ d, P d → Q d) : db.Files Q out := by
  obtain ⟨filed,hfiled,hP⟩ := h
  exact ⟨filed,hfiled,fun d hd => hPQ d (hP d hd)⟩

theorem Ledger.Files.of_deadLetters (h : out.deadLetters = db.deadLetters) : db.Files P out := by
  refine ⟨[],?_,by simp⟩
  unfold Ledger.accounts
  rw [h, List.append_nil]

theorem Ledger.Files.mem (h : db.Files P out) {d : DeadLetter} (hd : d ∈ out.accounts) :
    d ∈ db.accounts ∨ P d := by
  obtain ⟨filed,hfiled,hP⟩ := h
  rw [hfiled] at hd
  exact (List.mem_append.mp hd).imp id (hP d)

/-- The loop files what its iterations file. -/
theorem Ledger.Files.loop {α σ : Type} {f : σ → α → Except PyError σ} (ledger : σ → Ledger) {items : List α}
    {s t : σ} (hstep : ∀ a ∈ items, ∀ s t, f s a = .ok t → (ledger s).Files P (ledger t))
    (h : Outcome.loop f s items = .ok t) : (ledger s).Files P (ledger t) :=
  Outcome.loop_rel (fun s t => (ledger s).Files P (ledger t)) (fun _ => .refl _) (fun h₁ h₂ => h₁.trans h₂)
    hstep h

/-- What `deadLetter` writes: the arguments of the call, and the trail with the burial
as its last entry. -/
structure DeadLetter.Filed (d : DeadLetter) (db : Ledger) (k : String) (failureClass : FailureClass)
    (reason : String) (message : Option String) (payload : Json) : Prop where
  eventId : d.eventId = k
  failureClass : d.failureClass = failureClass
  reason : d.reason = reason
  message : d.platformErrorMessage = cutMessage message
  payload : d.payload = payload
  history : ∃ burial : EventTransition, burial.IsBurial ∧
    d.attemptHistory = (db.listTransitions k ++ [burial]).map EventTransition.historyEntry

theorem deadLetter_files {failureClass : FailureClass} {reason : String} {code message : Option String}
    {payload : Json} {now : Time} (h : deadLetter db e failureClass reason code message payload now = .ok out) :
    db.Files (fun d => d.Filed db e.eventId failureClass reason message payload) out := by
  obtain ⟨⟨mid,moved⟩,ht,h⟩ := Outcome.bind_ok.mp h
  obtain ⟨_,rfl,rfl⟩ := transition_ok ht
  cases h
  refine ⟨_,accounts_addDeadLetter rfl,fun d hd => ?_⟩
  rw [List.mem_singleton.mp hd]
  refine ⟨rfl,rfl,rfl,rfl,rfl,⟨db.transitions.next,e.eventId,some e.status,.deadLettered,some reason,now⟩,rfl,?_⟩
  have htrail : (db.record e (e.moved .deadLettered (some reason)) (some reason) now).listTransitions e.eventId = _ :=
    Ledger.record_listTransitions e.eventId
  rw [if_pos rfl] at htrail
  exact congrArg (List.map EventTransition.historyEntry) htrail

theorem deadLetter_trail_of_ne {failureClass : FailureClass} {reason : String} {code message : Option String}
    {payload : Json} {now : Time} {k : String}
    (h : deadLetter db e failureClass reason code message payload now = .ok out) (hne : k ≠ e.eventId) :
    out.listTransitions k = db.listTransitions k := by
  obtain ⟨_,letter,hserial,_,_,rfl⟩ := deadLetter_ok h
  refine (Ledger.record_listTransitions k).trans ?_
  rw [if_neg (Ne.symm hne), List.append_nil]

end Files

/-! ## By transaction -/

/-- What a record says of the transaction that filed it. -/
def Transaction.Files (rt : Runtime) (db : Ledger) (d : DeadLetter) : Transaction → Prop
  | claim st selected now => d.failureClass = .poison ∧ d.eventId ∈ selected ∧ ∃ e x reason,
      db.getEvent d.eventId = some e ∧ e.ClaimedAs now x reason ∧ st.maxRowAttempts < x.attemptCount ∧
      buildConversion rt x st.adsCustomerId = .ok d.payload ∧
      d.platformErrorMessage = cutMessage x.statusReason ∧
      ∃ trail : List EventTransition, (∀ t ∈ trail, t.toStatus ∈ [uploading,deadLettered]) ∧
        d.attemptHistory = (db.listTransitions d.eventId ++ trail).map EventTransition.historyEntry
  | apply batch _ _ _ => d.failureClass = .partialFailure ∧
      ∃ c ∈ batch, c.eventId = d.eventId ∧ d.payload = c.conversion
  | bury batch loaded failure _ => d.failureClass = failure.failureClass ∧ d.reason = failure.reason ∧
      d.eventId ∈ loaded.map Event.eventId ∧ d.platformErrorMessage = cutMessage (some failure.errorMessage) ∧
      d.payload = conversionOf batch d.eventId
  | _ => False

section Transactions
variable {rt : Runtime} {db db' out : Ledger} {tx : Transaction} {reply : Reply}

/-- A claim adds no entries to a trail but its own. -/
theorem claimRow_trail {now : Time} {id : String} (h : claimRow now db id = .ok out) (k : String) :
    ∃ trail, (∀ t ∈ trail, t.toStatus ∈ [uploading,deadLettered]) ∧
      out.listTransitions k = db.listTransitions k ++ trail := by
  rcases claimRow_ok h with ⟨_,rfl⟩ | ⟨e,_,x,reason,hx,rfl⟩
  · exact ⟨[],by simp,(List.append_nil _).symm⟩
  · refine ⟨_,?_,Ledger.record_listTransitions k⟩
    have hst : x.status = uploading := by
      cases hx with
      | attempt => rfl
      | reclaim hu => exact hu
    split <;> simp [hst]

/-- The second loop of a claim: each row of its own is as the first loop left it. -/
theorem claimItems_files {st : Settings} {now : Time} {ids : List String} (hids : ids.Nodup)
    {acc acc' : Ledger × List Claimed} (h : Outcome.loop (claimItem rt st now) acc ids = .ok acc') :
    acc.1.Files (fun d => d.eventId ∈ ids ∧ ∃ x, acc.1.getEvent d.eventId = some x ∧
      st.maxRowAttempts < x.attemptCount ∧ buildConversion rt x st.adsCustomerId = .ok d.payload ∧
      d.Filed acc.1 d.eventId .poison d.reason x.statusReason d.payload) acc'.1 := by
  induction ids generalizing acc with
  | nil =>
    cases h
    exact .refl _
  | cons id rest ih =>
    obtain ⟨hid,hrest⟩ := List.nodup_cons.mp hids
    obtain ⟨⟨mid,items⟩,hitem,hloop⟩ := Outcome.loop_cons_ok.mp h
    have hlater := ih hrest hloop
    rcases claimItem_ok hitem with ⟨_,rfl,_⟩ | ⟨x,payload,hx,hpayload,⟨hlt,_,hd⟩ | ⟨_,rfl,_⟩⟩
    · exact hlater.mono fun d ⟨hmem,hd⟩ => ⟨List.mem_cons_of_mem _ hmem,hd⟩
    · obtain rfl := Ledger.getEvent_eventId hx
      refine ((deadLetter_files hd).mono fun d hf => ?_).trans (hlater.mono fun d ⟨hmem,x',hx',hrow⟩ => ?_)
      · have hkey := hf.eventId
        rw [hf.payload.symm] at hpayload
        refine ⟨hkey ▸ List.mem_cons_self,x,hkey ▸ hx,hlt,hpayload,?_⟩
        exact ⟨rfl,hf.failureClass,rfl,hf.message,rfl,hkey ▸ hf.history⟩
      · have hne : d.eventId ≠ x.eventId := fun heq => hid (heq ▸ hmem)
        have hget := (deadLetter_rewrites hx hd).2.frame d.eventId hne
        have htrail := deadLetter_trail_of_ne hd hne
        obtain ⟨hlt',hpayload',hf⟩ := hrow
        refine ⟨List.mem_cons_of_mem _ hmem,x',hget.symm.trans hx',hlt',hpayload',
          rfl,hf.failureClass,rfl,hf.message,rfl,?_⟩
        have hhistory := hf.history
        rwa [htrail] at hhistory
    · exact hlater.mono fun d ⟨hmem,hd⟩ => ⟨List.mem_cons_of_mem _ hmem,hd⟩

theorem claim_files {st : Settings} {selected : List String} {now : Time} {items : List Claimed}
    (hids : selected.Nodup) (h : claim rt st db selected now = .ok (out,items)) :
    db.Files (fun d => (Transaction.claim st selected now).Files rt db d) out := by
  obtain ⟨mid,hmid,hloop⟩ := Outcome.bind_ok.mp h
  have hfirst : db.Files (fun d => (Transaction.claim st selected now).Files rt db d) mid :=
    .of_deadLetters (claimForUpload_deadLetters hmid)
  refine hfirst.trans ((claimItems_files hids hloop).mono fun d ⟨hmem,x,hx,hlt,hpayload,hf⟩ => ?_)
  have hrows := loop_rewrites Ledger.events (fun _ _ _ hr => claimRow_rewrites hr) hids hmid
  obtain ⟨trail,htrail,hlist⟩ : ∃ trail, (∀ t ∈ trail, t.toStatus ∈ [uploading,deadLettered]) ∧
      mid.listTransitions d.eventId = db.listTransitions d.eventId ++ trail := by
    refine Outcome.loop_rel (fun a b : Ledger => ∃ trail : List EventTransition,
      (∀ t ∈ trail, t.toStatus ∈ [uploading,deadLettered]) ∧
        b.listTransitions d.eventId = a.listTransitions d.eventId ++ trail)
      (fun _ => ⟨[],by simp,(List.append_nil _).symm⟩) ?_ (fun _ _ _ _ hs => claimRow_trail hs _) hmid
    rintro a b c ⟨first,hfirst,hb⟩ ⟨second,hsecond,hc⟩
    refine ⟨first ++ second,fun t ht => ?_,by rw [hc, hb, List.append_assoc]⟩
    rcases List.mem_append.mp ht with ht | ht
    · exact hfirst t ht
    · exact hsecond t ht
  obtain ⟨burial,hburial,hhistory⟩ := hf.history
  cases he : db.getEvent d.eventId with
  | none => exact absurd ((hrows.absent _ he).symm.trans hx) (by simp)
  | some e =>
    obtain ⟨x',hx',reason,hclaimed⟩ := hrows.touch _ e hmem he
    obtain rfl := Option.some.inj (hx'.symm.trans hx)
    refine ⟨hf.failureClass,hmem,e,x',reason,he,hclaimed,hlt,hpayload,hf.message,trail ++ [burial],?_,?_⟩
    · intro t ht
      rcases List.mem_append.mp ht with ht | ht
      · exact htrail t ht
      · rw [List.mem_singleton.mp ht, show burial.toStatus = deadLettered from hburial]
        simp
    · rw [hhistory, hlist, List.append_assoc]

/-- Each item of a claim has the conversion of its row, as the claim took it. -/
theorem claim_builds {st : Settings} {selected : List String} {now : Time} {items : List Claimed}
    (hids : selected.Nodup) (h : claim rt st db selected now = .ok (out,items)) {c : Claimed} (hc : c ∈ items) :
    ∃ e x reason, db.getEvent c.eventId = some e ∧ e.ClaimedAs now x reason ∧
      buildConversion rt x st.adsCustomerId = .ok c.conversion := by
  obtain ⟨mid,hmid,hloop⟩ := Outcome.bind_ok.mp h
  have hrows := loop_rewrites Ledger.events (fun _ _ _ hr => claimRow_rewrites hr) hids hmid
  have hitems : ∀ (ids : List String) (acc acc' : Ledger × List Claimed), ids.Nodup →
      Outcome.loop (claimItem rt st now) acc ids = .ok acc' → ∀ c ∈ acc'.2, c ∈ acc.2 ∨ c.eventId ∈ ids ∧
        ∃ x, acc.1.getEvent c.eventId = some x ∧ buildConversion rt x st.adsCustomerId = .ok c.conversion := by
    intro ids
    induction ids with
    | nil =>
      intro acc acc' _ h c hc
      cases h
      exact Or.inl hc
    | cons id rest ih =>
      intro acc acc' hids h c hc
      obtain ⟨hid,hrest⟩ := List.nodup_cons.mp hids
      obtain ⟨⟨mid,items⟩,hitem,hloop⟩ := Outcome.loop_cons_ok.mp h
      have hframe := (claimItem_rewrites hitem).frame
      rcases ih _ _ hrest hloop c hc with hc | ⟨hmem,x,hx,hbuilt⟩
      · rcases claimItem_ok hitem with ⟨_,_,rfl⟩ | ⟨x,conversion,hx,hbuilt,⟨_,rfl,_⟩ | ⟨_,_,rfl⟩⟩
        · exact Or.inl hc
        · exact Or.inl hc
        · rcases List.mem_append.mp hc with hc | hc
          · exact Or.inl hc
          · obtain rfl := List.mem_singleton.mp hc
            have hkey : x.eventId = id := Ledger.getEvent_eventId hx
            exact Or.inr ⟨hkey ▸ List.mem_cons_self,x,hkey ▸ hx,hbuilt⟩
      · have hne : c.eventId ≠ id := fun heq => hid (heq ▸ hmem)
        exact Or.inr ⟨List.mem_cons_of_mem _ hmem,x,(hframe _ hne).symm.trans hx,hbuilt⟩
  obtain ⟨hmem,x,hx,hbuilt⟩ := (hitems selected (mid,[]) (out,items) hids hloop c hc).resolve_left (by simp)
  cases he : db.getEvent c.eventId with
  | none => exact absurd ((hrows.absent _ he).symm.trans hx) (by simp)
  | some e =>
    obtain ⟨x',hx',reason,hclaimed⟩ := hrows.touch _ e hmem he
    obtain rfl := Option.some.inj (hx'.symm.trans hx)
    exact ⟨e,x',reason,rfl,hclaimed,hbuilt⟩

theorem applyResult_files {loaded : List String} {batch : List Claimed} {rows : List RowResult} {now : Time}
    (h : applyResult db loaded batch rows now = .ok out) :
    db.Files (fun d => d.failureClass = .partialFailure ∧ ∃ c ∈ batch, c.eventId = d.eventId ∧
      d.payload = c.conversion) out := by
  refine Ledger.Files.loop id (fun item hitem a b hs => ?_) (applyResult_ok h).1
  obtain ⟨_,e,he,⟨_,_,_,_,rfl⟩ | hd⟩ := applyRow_ok hs
  · exact .of_deadLetters rfl
  · refine (deadLetter_files hd).mono fun d hf => ⟨hf.failureClass,item.1,(List.of_mem_zip hitem).1,?_,hf.payload⟩
    rw [hf.eventId, Ledger.getEvent_eventId he]

theorem deadLetterAll_files {loaded : List String} {batch : List Claimed} {failure : BatchFailure} {now : Time}
    (h : deadLetterAll db loaded batch failure now = .ok out) :
    db.Files (fun d => d.failureClass = failure.failureClass ∧ d.reason = failure.reason ∧ d.eventId ∈ loaded ∧
      d.platformErrorMessage = cutMessage (some failure.errorMessage) ∧
      d.payload = conversionOf batch d.eventId) out := by
  refine Ledger.Files.loop id (fun k hk a b hs => ?_) h
  rcases deadLetterOne_ok hs with ⟨_,rfl⟩ | ⟨e,he,hd⟩
  · exact .refl _
  · obtain rfl := Ledger.getEvent_eventId he
    refine (deadLetter_files hd).mono fun d hf => ⟨hf.failureClass,hf.reason,?_,hf.message,?_⟩
    · rwa [hf.eventId]
    · rw [hf.payload, hf.eventId]

theorem body_files (hn : tx.keys.Nodup) (hf : tx.session.Fresh db) (h : tx.body rt db = .ok (out,reply)) :
    db.Files (fun d => tx.Files rt db d) out := by
  cases tx with
  | ingest source plan correlationId now =>
    obtain ⟨⟨mid,i⟩,hi,hb⟩ := Outcome.bind_ok.mp h
    cases hb
    exact .of_deadLetters (ingestBody_deadLetters hi)
  | process message loaded now =>
    obtain ⟨⟨mid,o⟩,ho,hb⟩ := Outcome.bind_ok.mp h
    cases hb
    exact .of_deadLetters (processMessage_deadLetters ho)
  | retry ids loaded reason stamps =>
    obtain ⟨mid,hr,hb⟩ := Outcome.bind_ok.mp h
    cases hb
    exact .of_deadLetters (onRetry_deadLetters hr)
  | replay letter loaded now =>
    obtain ⟨⟨mid,m⟩,hm,hb⟩ := Outcome.bind_ok.mp h
    cases hb
    have hletter := hf.deadLetters letter (by simp [Transaction.session])
    rcases replay_ok hm with ⟨rfl,_⟩ | ⟨e,rfl,_,_,rfl,_⟩
    · exact .refl _
    · have ha := accounts_putDeadLetter (letter.replayed now) hletter rfl
      exact ⟨[],ha.trans (List.append_nil _).symm,by simp⟩
  | claim st selected now =>
    obtain ⟨⟨mid,items⟩,hm,hb⟩ := Outcome.bind_ok.mp h
    cases hb
    exact claim_files hn hm
  | apply batch loaded rows now =>
    obtain ⟨mid,hm,hb⟩ := Outcome.bind_ok.mp h
    cases hb
    exact applyResult_files hm
  | bury batch loaded failure now =>
    obtain ⟨mid,hm,hb⟩ := Outcome.bind_ok.mp h
    cases hb
    exact deadLetterAll_files hm

/-- The session of a claim is empty, and the other records do not depend on the ledger. -/
theorem Transaction.Files.of_view {d : DeadLetter} (h : tx.Files rt (tx.session.view db) d) : tx.Files rt db d := by
  cases tx with
  | claim st selected now =>
    have hview : (claim st selected now).session.view db = db := (Session.fresh_empty db).view_eq
    rwa [hview] at h
  | ingest | process | retry | apply | bury | replay => exact h

theorem Transaction.commit_files (hk : tx.session.Known db) (hn : tx.keys.Nodup) (hh : tx.session.Holds db)
    (h : tx.commit rt db = .ok (db',reply)) : db.Files (fun d => tx.Files rt db d) db' := by
  obtain ⟨out,hb,rfl,_⟩ := commit_ok.mp h
  obtain ⟨filed,hfiled,hP⟩ := body_files hn hk.fresh_view hb
  refine ⟨filed,?_,fun d hd => (hP d hd).of_view⟩
  rw [Session.flush_accounts, hfiled, hh.view_accounts]

end Transactions
end ConversionGateway
