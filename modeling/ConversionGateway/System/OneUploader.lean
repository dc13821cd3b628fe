import ConversionGateway.System.Ownership
import ConversionGateway.System.RowOutcomes
import ConversionGateway.Lifecycle.Batching

/-! # One uploader

What an uploader holds grows by its claims and is given up with the outcome of a
batch. As long as none of its rows is eligible again when a cycle reads the ledger, no
batch has an event twice; and as long as nobody else writes these rows, every outcome
is written to rows that are UPLOADING. Its rows are as old as the oldest item of its
batcher, so what counts is how long that has waited when a cycle begins.
-/
namespace ConversionGateway
open EventStatus

/-- Of the uploaders only `n` takes steps. -/
def Action.Sole (n : ℕ) : Action → Prop
  | .uploader m _ => m = n
  | .commit (.uploader m) => m = n
  | .crash (.uploader m) => m = n
  | _ => True

instance (n : ℕ) : ∀ a : Action, Decidable (a.Sole n)
  | .uploader m _ => inferInstanceAs (Decidable (m = n))
  | .commit (.uploader m) => inferInstanceAs (Decidable (m = n))
  | .crash (.uploader m) => inferInstanceAs (Decidable (m = n))
  | .tick _ | .expire _ | .request _ _ | .worker _ _ | .replayer _ _ | .reconciler _ _ | .commit (.request _) |
    .commit (.worker _) | .commit (.replayer _) | .commit (.reconciler _) | .crash (.request _) |
    .crash (.worker _) | .crash (.replayer _) | .crash (.reconciler _) => isTrue trivial

section Local
variable {rt : Runtime} {st : Settings} {clock : Time} {db : Ledger}

namespace Uploader

/-- The time of a cycle that has not read the ledger yet. -/
def cycleTime (u : Uploader) : Option Time :=
  match u.phase with
  | .cycle now => some now
  | _ => none

/-- Going on after a claim, the uploader holds its batcher and then the new items. -/
theorem withClaim_keeps {u : Uploader} (hu : u.batcher.Sound st.uploadBatchSize) {items : List Claimed}
    (hroom : items.length ≤ u.room st) (now : Time) :
    (u.withClaim st items now).batcher.Sound st.uploadBatchSize ∧
      (u.withClaim st items now).held = u.batcher.items ++ items := by
  have hbelow := hu.below
  have hsum : u.batcher.items.length + items.length ≤ st.uploadBatchSize := by
    unfold room at hroom
    omega
  unfold withClaim
  rcases cycleBatch_spec hu hsum now with ⟨b,heq,hk,_⟩ | ⟨heq,hne⟩
  · rw [heq]
    exact ⟨hk.sound,by simp [held,batch,hk.items]⟩
  · rw [heq]
    cases hitems : u.batcher.items ++ items with
    | nil => exact absurd hitems hne
    | cons c rest => exact ⟨Batcher.empty_sound st.batchSize_pos,by simp [held,batch,Batcher.empty]⟩

/-- A local step changes nothing of what is held. -/
theorem step_keeps {u u' : Uploader} {n : ℕ} {locks locks' : Locks} {sent : Option (List Json)}
    {a : UploaderAction} (h : u.step st n clock db locks a = some (u',locks',sent))
    (hu : u.batcher.Sound st.uploadBatchSize) :
    u'.batcher.Sound st.uploadBatchSize ∧ u'.held = u.held := by
  cases a with
  | skip =>
    simp only [step] at h
    split at h
    · next hp =>
      split at h
      · cases h
        have hnone : ([] : List Claimed).length ≤ u.room st := Nat.zero_le _
        obtain ⟨hsound,hheld⟩ := withClaim_keeps hu hnone _
        refine ⟨hsound,hheld.trans ?_⟩
        simp [held,batch,hp]
      · cases h
    · cases h
  | load =>
    simp only [step] at h
    split at h
    · next hp =>
      cases h
      exact ⟨hu,by simp [held,batch,hp]⟩
    · next hp =>
      cases h
      exact ⟨hu,by simp [held,batch,hp]⟩
    · cases h
  | begin | select ids | send | finish outcome | retry reason | stamp =>
    simp only [step] at h
    split at h
    · next hp =>
      first
        | (cases h; exact ⟨hu,by simp [held,batch,hp]⟩)
        | (split at h <;> cases h; exact ⟨hu,by simp [held,batch,hp]⟩)
    · cases h

theorem rows_reads {u : Uploader} {e : Event} (h : e ∈ u.rows) : e.eventId ∈ u.reads := by
  cases hp : u.phase with
  | retrying _ _ _ _ loaded pending _ | settling _ _ _ loaded pending =>
    simp only [rows, hp] at h
    simp only [Uploader.reads, hp]
    exact List.mem_append_left _ (List.mem_map_of_mem h)
  | idle | cycle | selected | ready | sending =>
    simp only [rows, hp] at h
    cases h

/-- A transaction on the rows of the batch is open. -/
def Reading (u : Uploader) : Prop :=
  match u.phase with
  | .retrying .. => True
  | .settling .. => True
  | _ => False

/-- The rows to read are those of the batch, and are read one by one. -/
theorem step_reading {u u' : Uploader} {n : ℕ} {locks locks' : Locks} {sent : Option (List Json)}
    {a : UploaderAction} (h : u.step st n clock db locks a = some (u',locks',sent)) (hr : u'.Reading) :
    u'.batch = u.batch ∧ (u'.reads = (batchIds u'.batch).eraseDups ∨ u.Reading ∧ (u'.reads = u.reads ∨
      ∃ loaded id pending, u.reads = loaded.map Event.eventId ++ id :: pending ∧
        u'.reads = (loaded ++ (db.getEvent id).toList).map Event.eventId ++ pending)) := by
  cases a with
  | finish outcome =>
    simp only [step] at h
    split at h
    · next hp =>
      cases h
      exact ⟨by simp [batch,hp],Or.inl (List.nil_append _)⟩
    · cases h
  | retry reason =>
    simp only [step] at h
    split at h
    · next hp =>
      split at h
      · cases h
        exact ⟨by simp [batch,hp],Or.inl (List.nil_append _)⟩
      · cases h
    · cases h
  | load =>
    simp only [step] at h
    split at h
    · next hp =>
      cases h
      exact ⟨by simp [batch,hp],Or.inr ⟨by simp [Reading,hp],Or.inr ⟨_,_,_,by simp only [Uploader.reads, hp],rfl⟩⟩⟩
    · next hp =>
      cases h
      exact ⟨by simp [batch,hp],Or.inr ⟨by simp [Reading,hp],Or.inr ⟨_,_,_,by simp only [Uploader.reads, hp],rfl⟩⟩⟩
    · cases h
  | stamp =>
    simp only [step] at h
    split at h
    · next hp =>
      split at h
      · cases h
        exact ⟨by simp [batch,hp],Or.inr ⟨by simp [Reading,hp],Or.inl (by simp only [Uploader.reads, hp])⟩⟩
      · cases h
    · cases h
  | skip =>
    simp only [step] at h
    split at h
    · split at h
      · cases h
        rcases withClaim_phase st u [] ‹_› with hw | ⟨_,hw⟩ <;> simp [Reading,hw] at hr
      · cases h
    · cases h
  | begin | select ids | send =>
    simp only [step] at h
    split at h
    · first
        | (cases h; exact hr.elim)
        | (split at h <;> cases h; exact hr.elim)
    · cases h

theorem committed_reading {u : Uploader} {tx : Transaction} (reply : Reply) (h : u.transaction st = some tx) :
    ¬ (u.committed st reply).Reading := by
  intro hr
  rcases committed_cases reply h with ⟨items,now,hu⟩ | ⟨_,_,_,hu | hu⟩ <;> rw [hu] at hr
  · rcases withClaim_phase st u items now with hw | ⟨_,hw⟩ <;> simp [Reading,hw] at hr
  · exact hr
  · exact hr

/-- With its commit an uploader takes on what it claimed, or is done with its batch. -/
theorem committed_keeps {u : Uploader} {tx : Transaction} {reply : Reply} (h : u.transaction st = some tx)
    (hu : u.Tidy st) (hsound : u.batcher.Sound st.uploadBatchSize)
    (hitems : ∀ st' ids now, tx = .claim st' ids now → reply.items.length ≤ ids.length) :
    (u.committed st reply).batcher.Sound st.uploadBatchSize ∧
      (((∃ now ids, u.phase = .selected now ids ∧ tx = .claim st ids now) ∧
          (u.committed st reply).held = u.held ++ reply.items) ∨
        ((∃ ids loaded reason stamps, tx = .retry ids loaded reason stamps) ∧
          (u.committed st reply).held = u.held) ∨ (u.committed st reply).held = []) := by
  rcases transaction_cases h with ⟨now,ids,hp,rfl⟩ | ⟨now,batch,attempt,reason,loaded,stamps,hp,_,rfl⟩ |
      ⟨now,batch,rows,loaded,hp,_⟩ | ⟨now,batch,failure,loaded,hp,_⟩ <;> simp only [committed, hp]
  · obtain ⟨hsound',hheld⟩ := withClaim_keeps hsound ((hitems st ids now rfl).trans (hu.room now ids hp)) now
    refine ⟨hsound',Or.inl ⟨⟨now,ids,rfl,rfl⟩,hheld.trans ?_⟩⟩
    simp [held,Uploader.batch,hp]
  · exact ⟨hsound,Or.inr (Or.inl ⟨⟨_,_,_,_,rfl⟩,by simp [held,Uploader.batch,hp]⟩)⟩
  · have hempty := hu.alone (by rw [hp]; trivial)
    exact ⟨hsound,Or.inr (Or.inr (by simp [held,Uploader.batch,hempty]))⟩
  · have hempty := hu.alone (by rw [hp]; trivial)
    exact ⟨hsound,Or.inr (Or.inr (by simp [held,Uploader.batch,hempty]))⟩

end Uploader

/-- A claim hands out rows that it selected, in their order, none of them over the
attempt ceiling. -/
theorem claim_items {ids : List String} {now : Time} {out : Ledger} {items : List Claimed}
    (h : claim rt st db ids now = .ok (out,items)) :
    (items.map Claimed.eventId).Sublist ids ∧ ∀ c ∈ items, c.attemptCount ≤ st.maxRowAttempts := by
  obtain ⟨mid,_,hloop⟩ := Outcome.bind_ok.mp h
  have hgrow : ∀ (ids : List String) (acc acc' : Ledger × List Claimed),
      Outcome.loop (claimItem rt st now) acc ids = .ok acc' → ∃ new, acc'.2 = acc.2 ++ new ∧
        (new.map Claimed.eventId).Sublist ids ∧ ∀ c ∈ new, c.attemptCount ≤ st.maxRowAttempts := by
    intro ids
    induction ids with
    | nil =>
      intro acc acc' h
      cases h
      exact ⟨[],(List.append_nil _).symm,List.Sublist.refl _,by simp⟩
    | cons id rest ih =>
      intro acc acc' h
      obtain ⟨⟨db₁,items₁⟩,h₁,h₂⟩ := Outcome.loop_cons_ok.mp h
      obtain ⟨new,hnew,hsub,hwithin⟩ := ih _ _ h₂
      rcases claimItem_ok h₁ with ⟨_,_,rfl⟩ | ⟨e,_,he,_,⟨_,rfl,_⟩ | ⟨hle,_,rfl⟩⟩
      · exact ⟨new,hnew,hsub.cons id,hwithin⟩
      · exact ⟨new,hnew,hsub.cons id,hwithin⟩
      · refine ⟨_ :: new,by rw [hnew, List.append_assoc]; rfl,?_,List.forall_mem_cons.mpr ⟨hle,hwithin⟩⟩
        have hid : e.eventId = id := Ledger.getEvent_eventId he
        rw [List.map_cons, hid]
        exact hsub.cons_cons id
  obtain ⟨new,rfl,hsub,hwithin⟩ := hgrow ids (mid,[]) (out,items) hloop
  exact ⟨by simpa using hsub,by simpa using hwithin⟩

end Local

namespace System
variable {rt : Runtime} {settings : ℕ → Settings} {s t : System} {a : Action} {n : ℕ}

/-- A cycle of the uploader finds no row that it still holds eligible in the ledger. -/
def HeldIneligible (settings : ℕ → Settings) (n : ℕ) (s : System) (a : Action) : Prop :=
  match a with
  | .uploader m (.select _) => m = n → ∀ now ∈ (s.uploaders n).cycleTime, ∀ c ∈ (s.uploaders n).held,
    (s.ledger.getEvent c.eventId).any
      (eligible now (settings n).uploadRowRetryAfter (settings n).uploadStaleAfter) = false
  | _ => True

instance (n : ℕ) (s : System) : ∀ a, Decidable (HeldIneligible settings n s a)
  | .uploader m (.select _) => inferInstanceAs (Decidable (m = n → ∀ now ∈ (s.uploaders n).cycleTime,
    ∀ c ∈ (s.uploaders n).held, (s.ledger.getEvent c.eventId).any
      (eligible now (settings n).uploadRowRetryAfter (settings n).uploadStaleAfter) = false))
  | .uploader _ .begin | .uploader _ .skip | .uploader _ .send | .uploader _ (.finish _) |
    .uploader _ (.retry _) | .uploader _ .load | .uploader _ .stamp | .tick _ | .expire _ |
    .request _ _ | .worker _ _ | .replayer _ _ | .reconciler _ _ | .commit _ | .crash _ => isTrue trivial

/-- The SELECT of a claim returns eligible rows only. -/
theorem HeldIneligible.select {ids : List String} (hre : HeldIneligible settings n s (.uploader n (.select ids)))
    (h : step rt settings s (.uploader n (.select ids)) = some t) : ∀ c ∈ (s.uploaders n).held, c.eventId ∉ ids := by
  intro c hc hid
  obtain ⟨⟨u,locks,sent⟩,hstep,_⟩ := Option.map_eq_some_iff.mp h
  rcases Uploader.step_claim hstep with ⟨hcycle,_⟩ | ⟨now,ids',ha,hp,_,hsel,_⟩ | ⟨haway,_⟩
  · simp only [Uploader.step] at hstep
    split at hstep
    · split at hstep <;> cases hstep
      cases hcycle
    · cases hstep
  · cases ha
    have hnot := hre rfl now (by simp [Uploader.cycleTime,hp]) c hc
    rw [(hsel.2.2 _ hid).1] at hnot
    cases hnot
  · simp only [Uploader.step] at hstep
    split at hstep
    · split at hstep <;> cases hstep
      exact absurd rfl (haway.2 _ _)
    · cases hstep

/-- The uploader holds no row twice, and none that its open claim has selected. -/
structure Distinct (settings : ℕ → Settings) (n : ℕ) (s : System) : Prop where
  linked : s.Linked
  tidy : ∀ m, (s.uploaders m).Tidy (settings m)
  sound : (s.uploaders n).batcher.Sound (settings n).uploadBatchSize
  nodup : (batchIds (s.uploaders n).held).Nodup
  selected : ∀ now ids, (s.uploaders n).phase = .selected now ids → ∀ c ∈ (s.uploaders n).held, c.eventId ∉ ids

theorem Distinct.batch_nodup (h : s.Distinct settings n) : (batchIds (s.uploaders n).batch).Nodup := by
  have hids := h.nodup
  unfold Uploader.held batchIds at hids
  rw [List.map_append] at hids
  exact (List.nodup_append.mp hids).2.1

theorem fresh_held : Uploader.fresh.held = [] := by
  simp [Uploader.fresh,Uploader.held,Uploader.batch,Batcher.empty]

theorem start_distinct (db : Ledger) : (start db).Distinct settings n := by
  refine ⟨start_linked db,fun _ => Uploader.fresh_tidy,Batcher.empty_sound (settings n).batchSize_pos,?_,by rintro _ _ ⟨⟩⟩
  have hheld : ((start db).uploaders n).held = [] := fresh_held
  rw [hheld]
  exact List.nodup_nil

/-- What an uploader holds after a step: what it held, that and the items of its
claim, or nothing. -/
theorem step_keeps (ht : (s.uploaders n).Tidy (settings n))
    (hs : (s.uploaders n).batcher.Sound (settings n).uploadBatchSize) (h : step rt settings s a = some t) :
    (t.uploaders n).batcher.Sound (settings n).uploadBatchSize ∧
      ((t.uploaders n).held = (s.uploaders n).held ∨
        (∃ now ids items, a = .commit (.uploader n) ∧ (s.uploaders n).phase = .selected now ids ∧
          Commits rt settings s t (.uploader n) (.claim (settings n) ids now) (.claimed items) ∧
          (items.map Claimed.eventId).Sublist ids ∧ (∀ c ∈ items, c.attemptCount ≤ (settings n).maxRowAttempts) ∧
          (t.uploaders n).held = (s.uploaders n).held ++ items) ∨
        (t.uploaders n).held = []) := by
  rcases step_uploaders h with ⟨hu,_⟩ | ⟨m,_,hu,_⟩ | ⟨m,tx,reply,ha,hc,hu,_⟩ | ⟨m,b,u,sent,_,hp,hu,_⟩
  · rw [hu]
    exact ⟨hs,Or.inl rfl⟩
  all_goals
    by_cases hm : n = m
  · subst hm
    rw [hu, Function.update_self]
    exact ⟨Batcher.empty_sound (settings n).batchSize_pos,Or.inr (Or.inr fresh_held)⟩
  · rw [hu, Function.update_of_ne hm]
    exact ⟨hs,Or.inl rfl⟩
  · subst hm
    rw [hu, Function.update_self]
    have hlength : ∀ st' ids now, tx = .claim st' ids now → reply.items.length ≤ ids.length := by
      rintro st ids now rfl
      exact hc.items_length
    obtain ⟨hsound,hcases⟩ := Uploader.committed_keeps hc.transaction ht hs hlength
    refine ⟨hsound,?_⟩
    rcases hcases with ⟨⟨now,ids,hphase,rfl⟩,hheld⟩ | ⟨_,hheld⟩ | hheld
    · have hfresh : (Transaction.claim (settings n) ids now).session.Fresh s.ledger := Session.fresh_empty _
      obtain ⟨⟨out,items⟩,hclaim,hb⟩ := Outcome.bind_ok.mp (Transaction.commit_fresh hfresh hc.commit).1
      obtain ⟨_,rfl⟩ := Prod.mk.inj (Except.ok.inj hb)
      obtain ⟨hsub,hwithin⟩ := claim_items hclaim
      exact Or.inr (Or.inl ⟨now,ids,items,ha,hphase,hc,hsub,hwithin,hheld⟩)
    · exact Or.inl hheld
    · exact Or.inr (Or.inr hheld)
  · rw [hu, Function.update_of_ne hm]
    exact ⟨hs,Or.inl rfl⟩
  · subst hm
    rw [hu, Function.update_self]
    obtain ⟨hsound,hheld⟩ := Uploader.step_keeps hp hs
    exact ⟨hsound,Or.inl hheld⟩
  · rw [hu, Function.update_of_ne hm]
    exact ⟨hs,Or.inl rfl⟩

/-- The rows of a claim that goes on were selected before, or just now. -/
theorem step_selection (h : step rt settings s a = some t) {now : Time} {ids : List String}
    (hp : (t.uploaders n).phase = .selected now ids) :
    (s.uploaders n).phase = .selected now ids ∧ t.uploaders n = s.uploaders n ∨
      a = .uploader n (.select ids) := by
  rcases step_uploader h n with hu | ⟨b,sent,rfl,hstep⟩ | ⟨tx,reply,hc,hu⟩ | hu
  · exact Or.inl ⟨hu ▸ hp,hu⟩
  · rcases Uploader.step_claim hstep with ⟨hcycle,_⟩ | ⟨now',ids',rfl,_,hu,_⟩ | ⟨haway,_⟩
    · rw [hcycle] at hp
      cases hp
    · rw [hu] at hp
      cases hp
      exact Or.inr rfl
    · exact absurd hp (haway.2 now ids)
  · rw [hu] at hp
    exact absurd hp ((Uploader.committed_away reply hc.transaction).2 now ids)
  · rw [hu] at hp
    cases hp

theorem step_distinct (hs : s.Distinct settings n) (hre : HeldIneligible settings n s a)
    (h : step rt settings s a = some t) : t.Distinct settings n := by
  obtain ⟨hsound,hcases⟩ := step_keeps (hs.tidy n) hs.sound h
  refine ⟨step_linked hs.linked h,step_tidy h hs.tidy,hsound,?_,fun now ids hp c hc => ?_⟩
  · rcases hcases with hheld | ⟨now,ids,items,_,hphase,_,hsub,_,hheld⟩ | hheld <;> rw [hheld]
    · exact hs.nodup
    · have hids := ((hs.linked.uploaders n).selected now ids hphase).1
      unfold batchIds
      rw [List.map_append]
      refine List.Nodup.append hs.nodup (hids.sublist hsub) fun id hid hid' => ?_
      obtain ⟨c,hc,rfl⟩ := List.mem_map.mp hid
      exact hs.selected now ids hphase c hc (hsub.subset hid')
    · exact List.nodup_nil
  · rcases step_selection h hp with ⟨hold,hu⟩ | rfl
    · rw [hu] at hc
      exact hs.selected now ids hold c hc
    · rcases hcases with hheld | ⟨_,_,_,ha,_⟩ | hheld
      · rw [hheld] at hc
        exact hre.select h c hc
      · cases ha
      · rw [hheld] at hc
        cases hc

/-! ## Nobody else at the rows -/

/-- What a process that is no uploader commits. -/
theorem transaction_other {who : Process} {tx : Transaction} (h : s.transaction settings who = some tx)
    (hwho : ∀ m, who ≠ .uploader m) : (∃ source plan correlationId now, tx = .ingest source plan correlationId now) ∨
      (∃ message loaded now, tx = .process message loaded now) ∨
      ∃ letter loaded now, tx = .replay letter loaded now := by
  cases who with
  | reconciler m => cases h
  | uploader m => exact absurd rfl (hwho m)
  | request m =>
    simp only [transaction, Request.transaction] at h
    split at h
    · cases h
      exact Or.inl ⟨_,_,_,_,rfl⟩
    · cases h
  | worker m =>
    simp only [transaction, Worker.transaction] at h
    split at h
    · cases h
      exact Or.inr (Or.inl ⟨_,_,_,rfl⟩)
    · cases h
  | replayer m =>
    simp only [transaction, Replayer.transaction] at h
    split at h
    · split at h
      · cases h
        exact Or.inr (Or.inr ⟨_,_,_,rfl⟩)
      · cases h
    · cases h
      exact Or.inr (Or.inr ⟨_,_,_,rfl⟩)
    · cases h

/-- A row that is spared stays as it is. -/
theorem Commits.spared {who : Process} {tx : Transaction} {reply : Reply} (hs : s.Linked)
    (hc : Commits rt settings s t who tx reply) (hwho : ∀ m, who ≠ .uploader m) {id : String}
    (hsp : tx.Spares id) {e : Event} (he : s.ledger.getEvent id = some e) : t.ledger.getEvent id = some e := by
  rcases hc.row hs he with hsame | ⟨hkey,final,hchange,_⟩
  · exact hsame
  · exfalso
    rcases transaction_other hc.transaction hwho with ⟨_,_,_,_,rfl⟩ | ⟨_,_,_,rfl⟩ | ⟨_,_,_,rfl⟩
    · exact hchange
    · obtain ⟨x,hx,hid⟩ := hc.acts hs he hkey hchange (by simp)
      exact hsp x hx hid
    · obtain ⟨x,hx,hid⟩ := hc.acts hs he hkey hchange (by simp)
      exact hsp x hx hid

/-- Uploader `n` is the only one, and workers and replays do not write the rows that
it holds. -/
structure Alone (settings : ℕ → Settings) (n : ℕ) (s : System) (a : Action) : Prop where
  sole : a.Sole n
  spares : ∀ c ∈ (s.uploaders n).held, Spares settings c.eventId s a

instance (n : ℕ) (s : System) (a : Action) : Decidable (Alone settings n s a) :=
  decidable_of_iff (a.Sole n ∧ ∀ c ∈ (s.uploaders n).held, Spares settings c.eventId s a)
    ⟨fun ⟨h₁,h₂⟩ => ⟨h₁,h₂⟩,fun ⟨h₁,h₂⟩ => ⟨h₁,h₂⟩⟩

/-- What is held is UPLOADING, what has been read of it is still committed, and the
rows of a batch are all read before they are written. -/
structure Working (settings : ℕ → Settings) (n : ℕ) (s : System) : Prop where
  distinct : s.Distinct settings n
  uploading : ∀ c ∈ (s.uploaders n).held, s.status c.eventId = some uploading
  fresh : ∀ e ∈ (s.uploaders n).rows, s.ledger.getEvent e.eventId = some e
  covered : (s.uploaders n).Reading → ∀ id ∈ batchIds (s.uploaders n).batch, id ∈ (s.uploaders n).reads

theorem Working.known (hs : s.Working settings n) :
    ∀ c ∈ (s.uploaders n).held, ∃ e, s.ledger.getEvent c.eventId = some e := by
  intro c hc
  obtain ⟨e,he,_⟩ := Option.map_eq_some_iff.mp (hs.uploading c hc)
  exact ⟨e,he⟩

theorem start_working (db : Ledger) : (start db).Working settings n := by
  have hheld : ((start db).uploaders n).held = [] := fresh_held
  refine ⟨start_distinct db,?_,by rintro _ ⟨⟩,fun hr => hr.elim⟩
  rw [hheld]
  rintro _ ⟨⟩

/-- A row that the uploader holds is written by nobody but the uploader. -/
theorem held_unwritten (hs : s.Linked) (hal : Alone settings n s a) (h : step rt settings s a = some t)
    (hcommit : a ≠ .commit (.uploader n)) {c : Claimed} (hc : c ∈ (s.uploaders n).held) {e : Event}
    (he : s.ledger.getEvent c.eventId = some e) : t.ledger.getEvent c.eventId = some e := by
  rcases step_ledger h with heq | ⟨who,tx,reply,rfl,hcom⟩
  · rwa [heq]
  · have hwho : ∀ m, who ≠ .uploader m := by
      rintro m rfl
      have hm : m = n := hal.sole
      exact hcommit (by rw [hm])
    exact hcom.spared hs hwho (hal.spares c hc tx hcom.transaction) he

theorem Commits.uploaders_self {tx : Transaction} {reply : Reply}
    (hc : Commits rt settings s t (.uploader n) tx reply) :
    t.uploaders n = (s.uploaders n).committed (settings n) reply := by
  rw [hc.after]
  exact Function.update_self ..

/-- While the uploader goes on to hold it, only its retries write a row: the claim is
one of other rows. -/
theorem held_committed (hs : s.Distinct settings n) {tx : Transaction} {reply : Reply}
    (hcom : Commits rt settings s t (.uploader n) tx reply) {c : Claimed} (hc : c ∈ (s.uploaders n).held)
    (hkept : (t.uploaders n).held ≠ []) {e : Event} (he : s.ledger.getEvent c.eventId = some e) :
    t.ledger.getEvent c.eventId = some e ∨ ∃ ids loaded reason stamps final,
      tx = .retry ids loaded reason stamps ∧ (tx.session.event e).Retried stamps final ∧
        t.ledger.getEvent c.eventId = some (Event.merge (tx.session.event e) final e) := by
  have hsettled (hclaim : ∀ st ids now, tx ≠ .claim st ids now)
      (hretry : ∀ ids loaded reason stamps, tx ≠ .retry ids loaded reason stamps) : False := by
    have hitems : ∀ st ids now, tx = .claim st ids now → reply.items.length ≤ ids.length :=
      fun st ids now htx => absurd htx (hclaim st ids now)
    obtain ⟨_,⟨⟨now,ids,_,htx⟩,_⟩ | ⟨⟨ids,loaded,reason,stamps,htx⟩,_⟩ | hnil⟩ :=
      Uploader.committed_keeps hcom.transaction (hs.tidy n) hs.sound hitems
    · exact hclaim _ ids now htx
    · exact hretry ids loaded reason stamps htx
    · rw [hcom.uploaders_self] at hkept
      exact hkept hnil
  rcases hcom.row hs.linked he with hsame | ⟨hkey,final,hchange,hget⟩
  · exact Or.inl hsame
  · rcases Uploader.transaction_cases hcom.transaction with ⟨now,ids,hp,rfl⟩ |
        ⟨_,_,_,_,_,_,_,_,rfl⟩ | ⟨_,_,_,_,_,rfl⟩ | ⟨_,_,_,_,_,rfl⟩
    · exact absurd hkey (hs.selected now ids hp c hc)
    · exact Or.inr ⟨_,_,_,_,final,rfl,hchange,hget⟩
    · exact (hsettled (by simp) (by simp)).elim
    · exact (hsettled (by simp) (by simp)).elim

theorem step_uploading (hs : s.Working settings n) (hal : Alone settings n s a)
    (h : step rt settings s a = some t) {c : Claimed} (hc : c ∈ (t.uploaders n).held) :
    t.status c.eventId = some uploading := by
  rcases step_held h hs.distinct.linked hc with hold | ⟨_,_,_,_,_,_,hb⟩
  · obtain ⟨e,he,hst⟩ := Option.map_eq_some_iff.mp (hs.uploading c hold)
    by_cases hcommit : a = .commit (.uploader n)
    · subst hcommit
      obtain ⟨tx,reply,hcom⟩ := step_commit h
      rcases held_committed hs.distinct hcom hold (List.ne_nil_of_mem hc) he with
          hsame | ⟨_,_,_,_,final,_,hretried,hget⟩
      · rw [status, hsame, Option.map_some, hst]
      · rw [status, hget, Option.map_some, Event.Retried.merge_status hretried, hst]
    · rw [status, held_unwritten hs.distinct.linked hal h hcommit hold he, Option.map_some, hst]
  · obtain ⟨e,he,hu⟩ := hb.row
    rw [status, he, Option.map_some, hu]

theorem step_fresh (hs : s.Working settings n) (hal : Alone settings n s a)
    (h : step rt settings s a = some t) {e : Event} (he : e ∈ (t.uploaders n).rows) :
    t.ledger.getEvent e.eventId = some e := by
  rcases step_ledger h with heq | ⟨who,tx,reply,rfl,hcom⟩
  · rw [heq]
    have he : e ∈ t.rows (.uploader n) := he
    rcases step_rows h he with hold | hread
    · exact hs.fresh e hold
    · exact hread
  · by_cases hwho : who = .uploader n
    · subst hwho
      rw [hcom.uploaders_self, Uploader.committed_rows reply hcom.transaction] at he
      cases he
    · have hold : e ∈ (s.uploaders n).rows := by
        have he : e ∈ t.rows (.uploader n) := he
        rw [hcom.after, committed_other t.ledger reply (Ne.symm hwho)] at he
        exact he
      obtain ⟨c,hc,hid⟩ := List.mem_map.mp ((hs.distinct.tidy n).reads _ (Uploader.rows_reads hold))
      have hrow := hs.fresh e hold
      rw [← hid] at hrow ⊢
      exact held_unwritten hs.distinct.linked hal h (by simpa using hwho) (List.mem_append_right _ hc) hrow

/-- The rows of a batch are all read. -/
theorem step_covered (hknown : ∀ c ∈ (s.uploaders n).held, ∃ e, s.ledger.getEvent c.eventId = some e)
    (hs : (s.uploaders n).Reading → ∀ id ∈ batchIds (s.uploaders n).batch, id ∈ (s.uploaders n).reads)
    (h : step rt settings s a = some t) (hr : (t.uploaders n).Reading) : ∀ id ∈ batchIds (t.uploaders n).batch, id ∈ (t.uploaders n).reads := by
  rcases step_uploader h n with hu | ⟨b,sent,rfl,hstep⟩ | ⟨tx,reply,hc,hu⟩ | hu
  · rw [hu] at hr ⊢
    exact hs hr
  · obtain ⟨hbatch,hreads | ⟨hr,hreads | ⟨loaded,id,pending,hbefore,hafter⟩⟩⟩ := Uploader.step_reading hstep hr
    · intro id hid
      rw [hreads]
      exact List.mem_eraseDups.mpr hid
    · rw [hbatch, hreads]
      exact hs hr
    · intro j hj
      rw [hbatch] at hj
      have hmem := hs hr j hj
      rw [hbefore, List.mem_append, List.mem_cons] at hmem
      rw [hafter]
      rcases hmem with hmem | rfl | hmem
      · simp only [List.map_append, List.append_assoc, List.mem_append]
        exact Or.inl hmem
      · obtain ⟨c,hc,hid⟩ := List.mem_map.mp hj
        obtain ⟨e,he⟩ := hknown c (List.mem_append_right _ hc)
        rw [hid] at he
        simp [he,Ledger.getEvent_eventId he]
      · exact List.mem_append_right _ hmem
  · rw [hu] at hr
    exact absurd hr (Uploader.committed_reading reply hc.transaction)
  · rw [hu] at hr
    exact hr.elim

theorem step_working (hs : s.Working settings n) (hal : Alone settings n s a) (hre : HeldIneligible settings n s a)
    (h : step rt settings s a = some t) : t.Working settings n :=
  ⟨step_distinct hs.distinct hre h,fun _ hc => step_uploading hs hal h hc,
    fun _ he => step_fresh hs hal h he,fun hr => step_covered hs.known hs.covered h hr⟩

/-- The outcome of a batch is written without an error, unless there are too many or
too few results. -/
theorem Working.apply_legal (hs : s.Working settings n) {batch : List Claimed} {loaded : List Event}
    {rows : List RowResult} {now : Time}
    (htx : s.transaction settings (.uploader n) = some (.apply batch loaded rows now)) {e : PyError}
    (h : (Transaction.apply batch loaded rows now).commit rt s.ledger = .error e) :
    e = .valueError ∨ e = .dataError := by
  obtain ⟨now,batch,rows,loaded,hp,heq⟩ : ∃ now' batch' rows' loaded',
      (s.uploaders n).phase = .settling now' batch' (.rows rows') loaded' [] ∧
        Transaction.apply batch loaded rows now = .apply batch' loaded' rows' now' := by
    rcases Uploader.transaction_cases htx with ⟨_,_,_,heq⟩ | ⟨_,_,_,_,_,_,_,_,heq⟩ | ⟨_,_,_,_,hp,heq⟩ |
      ⟨_,_,_,_,_,heq⟩
    · cases heq
    · cases heq
    · exact ⟨_,_,_,_,hp,heq⟩
    · cases heq
  rw [heq] at h
  have hbatch : (s.uploaders n).batch = batch := by simp [Uploader.batch,hp]
  have hrows : (s.uploaders n).rows = loaded := by simp [Uploader.rows,hp]
  have hheld {c : Claimed} (hc : c ∈ batch) : c ∈ (s.uploaders n).held :=
    List.mem_append_right _ (hbatch.symm ▸ hc)
  have hfresh : (Transaction.apply batch loaded rows now).session.Fresh s.ledger :=
    ⟨fun e he => hs.fresh e (hrows.symm ▸ he),by simp [Transaction.session]⟩
  have hnodup : (batchIds batch).Nodup := hbatch ▸ hs.distinct.batch_nodup
  have huploading : ∀ id ∈ batchIds batch, (s.ledger.account id).Uploading := by
    intro id hid
    obtain ⟨c,hc,rfl⟩ := List.mem_map.mp hid
    exact Option.map_eq_some_iff.mp (hs.uploading c (hheld hc))
  have hcovered : ∀ id ∈ batchIds batch, id ∈ loaded.map Event.eventId := by
    have hreads := hs.covered (by simp [Uploader.Reading,hp])
    simpa [hbatch,Uploader.reads,hp] using hreads
  obtain ⟨out,hout,_⟩ := applyRows_settle hcovered hnodup huploading rows now
  unfold Transaction.commit at h
  rw [hfresh.view_eq] at h
  rcases Outcome.bind_error.mp h with hbody | ⟨p,_,hfits⟩
  · rcases Outcome.bind_error.mp hbody with happly | ⟨_,_,hdone⟩
    · unfold applyResult at happly
      rw [hout] at happly
      rcases Outcome.bind_error.mp happly with hloop | ⟨_,_,hlen⟩
      · cases hloop
      · split at hlen
        · cases hlen
        · exact Or.inl (Except.error.inj hlen).symm
    · cases hdone
  · dsimp only at hfits
    split at hfits
    · cases hfits
    · exact Or.inr (Except.error.inj hfits).symm

/-! ## How long the batcher has waited -/

end System

/-- A claimed row, kept or cut off, was attempted at the time of the claim. -/
theorem Event.TakenBy.lastAttemptAt {maxAttempts : ℕ} {now : Time} {e x : Event} (h : e.TakenBy maxAttempts now x) :
    x.lastAttemptAt = some now := by
  obtain ⟨y,reason,hy,hx⟩ := h
  have hlast := hy.columns.2.2
  cases hx with
  | refl => exact hlast
  | single hcut =>
    obtain ⟨_,_,rfl⟩ := hcut
    exact hlast

section Waiting
variable {st : Settings} {clock : Time} {db : Ledger}

/-- The oldest item of a batcher was there before, or has just been added. -/
theorem Batcher.addAll_oldest {T : Type} (maxSize : ℕ) {now o : Time} (batch : Option (List T)) {b : Batcher T}
    (items : List T) (h : (addAll maxSize now batch b items).2.oldestAt = some o) : b.oldestAt = some o ∨ o = now := by
  induction items generalizing batch b with
  | nil => exact Or.inl h
  | cons item rest ih =>
    simp only [addAll, add] at h
    split at h
    · exact (ih _ h).resolve_left (by simp [flush,empty]) |> Or.inr
    · rcases ih _ h with hb | hb
      · cases ho : b.oldestAt with
        | none =>
          rw [ho] at hb
          exact Or.inr (Option.some.inj hb).symm
        | some old =>
          rw [ho] at hb
          exact Or.inl hb
      · exact Or.inr hb

namespace Uploader

theorem withClaim_oldest {u : Uploader} {items : List Claimed} {now o : Time}
    (h : (u.withClaim st items now).batcher.oldestAt = some o) : u.batcher.oldestAt = some o ∨ o = now := by
  have hcycle : (cycleBatch st u.batcher items now).2.oldestAt = some o := by
    unfold withClaim at h
    split at h <;> next heq => rw [heq]; exact h
  refine Batcher.addAll_oldest st.uploadBatchSize none items ?_
  unfold cycleBatch at hcycle
  split at hcycle
  · next heq =>
    rw [heq]
    exact hcycle
  · next heq =>
    rw [heq]
    unfold Batcher.flushIfDue at hcycle
    split at hcycle
    · split at hcycle
      · cases hcycle
      · exact hcycle
    · exact hcycle

/-- After a claim the batcher is empty, or its items are as old as they were and the new
ones at most as old as the claim. -/
theorem withClaim_batcher {u : Uploader} (hu : u.batcher.Sound st.uploadBatchSize) {items : List Claimed}
    (hroom : items.length ≤ u.room st) (now : Time) :
    (u.withClaim st items now).batcher.items = [] ∨
      ((u.withClaim st items now).batcher.items = u.batcher.items ++ items ∧
        ∀ o, u.batcher.oldestAt = some o → (u.withClaim st items now).batcher.oldestAt = some o) := by
  have hbelow := hu.below
  have hsum : u.batcher.items.length + items.length ≤ st.uploadBatchSize := by
    unfold room at hroom
    omega
  unfold withClaim
  rcases cycleBatch_spec hu hsum now with ⟨b,heq,hk,_⟩ | ⟨heq,hne⟩
  · rw [heq]
    exact Or.inr ⟨hk.items,hk.oldest⟩
  · rw [heq]
    cases hitems : u.batcher.items ++ items with
    | nil => exact absurd hitems hne
    | cons c rest => exact Or.inl rfl

/-- A local step leaves the batcher alone: a cycle claims as long as there is room. -/
theorem step_batcher {u u' : Uploader} {n : ℕ} {locks locks' : Locks} {sent : Option (List Json)}
    {a : UploaderAction} (h : u.step st n clock db locks a = some (u',locks',sent)) (hu : u.Tidy st) :
    u'.batcher = u.batcher := by
  cases a with
  | skip =>
    simp only [step] at h
    split at h
    · split at h
      · next hroom =>
        have hbelow := hu.below
        unfold room at hroom
        omega
      · cases h
    · cases h
  | load =>
    simp only [step] at h
    split at h
    · cases h
      rfl
    · cases h
      rfl
    · cases h
  | begin | select ids | send | finish outcome | retry reason | stamp =>
    simp only [step] at h
    split at h
    · first
        | (cases h; rfl)
        | (split at h <;> cases h; rfl)
    · cases h

/-- A cycle takes its time when it begins. -/
theorem step_times {u u' : Uploader} {n : ℕ} {locks locks' : Locks} {sent : Option (List Json)}
    {a : UploaderAction} (h : u.step st n clock db locks a = some (u',locks',sent)) :
    (∀ now, u'.phase = .cycle now → a = .begin ∧ now = clock) ∧
      ∀ now ids, u'.phase = .selected now ids → u.phase = .cycle now := by
  cases a with
  | skip =>
    simp only [step] at h
    split at h
    · split at h
      · cases h
        rcases withClaim_phase st u [] ‹_› with hw | ⟨_,hw⟩ <;> simp [hw]
      · cases h
    · cases h
  | load =>
    simp only [step] at h
    split at h
    · cases h
      simp
    · cases h
      simp
    · cases h
  | begin | select ids | send | finish outcome | retry reason | stamp =>
    simp only [step] at h
    split at h
    · next hp =>
      first
        | (cases h; simp [hp])
        | (split at h <;> cases h; simp [hp])
    · cases h

end Uploader
end Waiting

namespace System
variable {rt : Runtime} {settings : ℕ → Settings} {s t : System} {a : Action} {n : ℕ}

/-- What a claim hands out is the row that it took. -/
theorem Commits.handed {who : Process} {st : Settings} {ids : List String} {now : Time} {reply : Reply}
    (hs : s.Linked) (hc : Commits rt settings s t who (.claim st ids now) reply) {c : Claimed} (hmem : c ∈ reply.items) :
    ∃ e e', s.ledger.getEvent c.eventId = some e ∧ t.ledger.getEvent c.eventId = some e' ∧
      e.TakenBy st.maxRowAttempts now e' := by
  obtain ⟨_,hk,hb⟩ := Transaction.commit_items (hs.keys_nodup hc.transaction) hc.commit c hmem
  obtain ⟨x,hx,_⟩ := hb.row
  cases he : s.ledger.getEvent c.eventId with
  | none =>
    obtain ⟨_,_,_,_,htx,_⟩ := hc.new_row hs he hx
    cases htx
  | some e =>
    obtain ⟨e',he',htaken⟩ := hc.claimed hs hk he
    exact ⟨e,e',rfl,he',htaken⟩

/-- A cycle begins before the oldest item of the batcher is as old as a stale row. -/
def Prompt (settings : ℕ → Settings) (n : ℕ) (s : System) (a : Action) : Prop :=
  match a with
  | .uploader m .begin => m = n → ∀ o ∈ (s.uploaders n).batcher.oldestAt,
    s.clock < o + (settings n).uploadStaleAfter
  | _ => True

instance (n : ℕ) (s : System) : ∀ a, Decidable (Prompt settings n s a)
  | .uploader m .begin => inferInstanceAs (Decidable (m = n → ∀ o ∈ (s.uploaders n).batcher.oldestAt,
    s.clock < o + (settings n).uploadStaleAfter))
  | .uploader _ (.select _) | .uploader _ .skip | .uploader _ .send | .uploader _ (.finish _) |
    .uploader _ (.retry _) | .uploader _ .load | .uploader _ .stamp | .tick _ | .expire _ |
    .request _ _ | .worker _ _ | .replayer _ _ | .reconciler _ _ | .commit _ | .crash _ => isTrue trivial

/-- The items of the batcher were claimed when the oldest of them was added, or later,
and the cycle that goes on began before that was too long ago. -/
structure Aged (settings : ℕ → Settings) (n : ℕ) (s : System) : Prop where
  working : s.Working settings n
  past : ∀ o, (s.uploaders n).batcher.oldestAt = some o → o ≤ s.clock
  cycle : ∀ now, ((s.uploaders n).phase = .cycle now ∨ ∃ ids, (s.uploaders n).phase = .selected now ids) →
    now ≤ s.clock ∧ ∀ o, (s.uploaders n).batcher.oldestAt = some o →
      o ≤ now ∧ now < o + (settings n).uploadStaleAfter
  waited : ∀ o, (s.uploaders n).batcher.oldestAt = some o → ∀ c ∈ (s.uploaders n).batcher.items,
    ∃ e last, s.ledger.getEvent c.eventId = some e ∧ e.lastAttemptAt = some last ∧ o ≤ last

theorem start_aged (db : Ledger) : (start db).Aged settings n :=
  ⟨start_working db,by rintro _ ⟨⟩,fun _ h => absurd h (by simp [start,Uploader.fresh]),by rintro _ ⟨⟩⟩

/-- The rows of the batcher are not stale yet. -/
theorem Aged.ineligible (hs : s.Aged settings n) (a : Action) : HeldIneligible settings n s a := by
  unfold HeldIneligible
  split
  · rintro - now hnow c hc
    have hp : (s.uploaders n).phase = .cycle now := by
      unfold Uploader.cycleTime at hnow
      split at hnow
      · next hp =>
        cases hnow
        exact hp
      · cases hnow
    have hitem : c ∈ (s.uploaders n).batcher.items := by simpa [Uploader.held,Uploader.batch,hp] using hc
    cases ho : (s.uploaders n).batcher.oldestAt with
    | none =>
      rw [hs.working.distinct.sound.aged.mp ho] at hitem
      cases hitem
    | some o =>
      obtain ⟨e,last,he,hlast,hle⟩ := hs.waited o ho c hitem
      obtain ⟨_,hbefore⟩ := (hs.cycle now (Or.inl hp)).2 o ho
      have hu := hs.working.uploading c hc
      rw [status, he, Option.map_some, Option.some.injEq] at hu
      rw [he, Option.any_some, Bool.eq_false_iff]
      intro helig
      rcases eligible_iff.mp helig with hst | ⟨hst,_⟩ | ⟨_,last',hlast',hdue⟩
      · rw [hu] at hst
        cases hst
      · rw [hu] at hst
        cases hst
      · rw [hlast] at hlast'
        cases hlast'
        exact absurd hdue (not_le_of_gt (hbefore.trans_le (by gcongr)))
  · trivial

/-- A row that the uploader keeps in its batcher over a step is not written. -/
theorem waiting_unwritten (hs : s.Working settings n) (hal : Alone settings n s a) (h : step rt settings s a = some t)
    {c : Claimed} (hc : c ∈ (s.uploaders n).batcher.items) (hkept : (t.uploaders n).batcher.items ≠ []) {e : Event}
    (he : s.ledger.getEvent c.eventId = some e) : t.ledger.getEvent c.eventId = some e := by
  have hheld : c ∈ (s.uploaders n).held := List.mem_append_left _ hc
  by_cases hcommit : a = .commit (.uploader n)
  · subst hcommit
    obtain ⟨tx,reply,hcom⟩ := step_commit h
    have hne : (t.uploaders n).held ≠ [] := fun hnil => hkept (List.append_eq_nil_iff.mp hnil).1
    rcases held_committed hs.distinct hcom hheld hne he with hsame | ⟨ids,loaded,reason,stamps,_,rfl,_⟩
    · exact hsame
    · -- while a batch is out the batcher is empty
      rcases Uploader.transaction_cases hcom.transaction with ⟨_,_,_,htx⟩ | ⟨_,_,_,_,_,_,hp,_⟩ |
          ⟨_,_,_,_,_,htx⟩ | ⟨_,_,_,_,_,htx⟩
      · cases htx
      · rw [(hs.distinct.tidy n).alone (by rw [hp]; trivial)] at hc
        cases hc
      · cases htx
      · cases htx
  · exact held_unwritten hs.distinct.linked hal h hcommit hheld he

/-- A step that leaves the batcher alone leaves its rows alone, too. -/
theorem Aged.kept (hs : s.Aged settings n) (hal : Alone settings n s a) (h : step rt settings s a = some t)
    (hb : (t.uploaders n).batcher = (s.uploaders n).batcher) {o : Time}
    (ho : (t.uploaders n).batcher.oldestAt = some o) : o ≤ t.clock ∧ ∀ c ∈ (t.uploaders n).batcher.items,
      ∃ e last, t.ledger.getEvent c.eventId = some e ∧ e.lastAttemptAt = some last ∧ o ≤ last := by
  rw [hb] at ho
  refine ⟨(hs.past o ho).trans (step_clock h),fun c hc => ?_⟩
  have hold := hb ▸ hc
  obtain ⟨e,last,he,hlast,hle⟩ := hs.waited o ho c hold
  exact ⟨e,last,waiting_unwritten hs.working hal h hold (List.ne_nil_of_mem hc) he,hlast,hle⟩

/-- The rows of a claim join those that wait, with the time of the cycle. -/
theorem Aged.claimed (hs : s.Aged settings n) (hal : Alone settings n s a) (h : step rt settings s a = some t)
    {ids : List String} {now : Time} {reply : Reply} (hp : (s.uploaders n).phase = .selected now ids)
    (hcom : Commits rt settings s t (.uploader n) (.claim (settings n) ids now) reply)
    (hu : t.uploaders n = (s.uploaders n).committed (settings n) reply) {o : Time}
    (ho : (t.uploaders n).batcher.oldestAt = some o) : o ≤ t.clock ∧ ∀ c ∈ (t.uploaders n).batcher.items,
      ∃ e last, t.ledger.getEvent c.eventId = some e ∧ e.lastAttemptAt = some last ∧ o ≤ last := by
  obtain ⟨hle,hcycle⟩ := hs.cycle now (Or.inr ⟨ids,hp⟩)
  have hclock := step_clock h
  have hafter : t.uploaders n = (s.uploaders n).withClaim (settings n) reply.items now := by
    rw [hu]
    simp only [Uploader.committed, hp]
  have hroom := hcom.items_length.trans ((hs.working.distinct.tidy n).room now ids hp)
  have hoten : o ≤ now ∧ o ≤ t.clock := by
    rw [hafter] at ho
    rcases Uploader.withClaim_oldest ho with hold | rfl
    · exact ⟨(hcycle o hold).1,(hs.past o hold).trans hclock⟩
    · exact ⟨le_rfl,hle.trans hclock⟩
  refine ⟨hoten.2,fun c hc => ?_⟩
  have hne := List.ne_nil_of_mem hc
  obtain ⟨hitems,hold⟩ := (Uploader.withClaim_batcher hs.working.distinct.sound hroom now).resolve_left
    (hafter ▸ hne)
  have hc' := hc
  rw [hafter, hitems] at hc'
  rcases List.mem_append.mp hc' with hc' | hnew
  · cases ho' : (s.uploaders n).batcher.oldestAt with
    | none =>
      rw [hs.working.distinct.sound.aged.mp ho'] at hc'
      cases hc'
    | some o' =>
      have hsame := hold o' ho'
      rw [← hafter, ho] at hsame
      cases hsame
      obtain ⟨e,last,he,hlast,hle⟩ := hs.waited o ho' c hc'
      exact ⟨e,last,waiting_unwritten hs.working hal h hc' hne he,hlast,hle⟩
  · obtain ⟨_,e,_,he,htaken⟩ := hcom.handed hs.working.distinct.linked hnew
    exact ⟨e,now,he,htaken.lastAttemptAt,hoten.1⟩

theorem step_aged (hs : s.Aged settings n) (hal : Alone settings n s a) (hpr : Prompt settings n s a)
    (h : step rt settings s a = some t) : t.Aged settings n := by
  have hworking := step_working hs.working hal (hs.ineligible a) h
  have hclock := step_clock h
  rcases step_uploader h n with hu | ⟨b,sent,rfl,hstep⟩ | ⟨tx,reply,hcom,hu⟩ | hu
  · have hb := congrArg Uploader.batcher hu
    refine ⟨hworking,fun _ ho => (hs.kept hal h hb ho).1,fun now hp => ?_,fun _ ho => (hs.kept hal h hb ho).2⟩
    rw [hu] at hp ⊢
    exact ⟨(hs.cycle now hp).1.trans hclock,(hs.cycle now hp).2⟩
  · have hb := Uploader.step_batcher hstep (hs.working.distinct.tidy n)
    obtain ⟨hbegin,hselect⟩ := Uploader.step_times hstep
    refine ⟨hworking,fun _ ho => (hs.kept hal h hb ho).1,fun now hp => ?_,fun _ ho => (hs.kept hal h hb ho).2⟩
    rw [hb]
    rcases hp with hp | ⟨ids,hp⟩
    · obtain ⟨rfl,rfl⟩ := hbegin now hp
      exact ⟨hclock,fun o ho => ⟨hs.past o ho,hpr rfl o ho⟩⟩
    · obtain ⟨hle,hcycle⟩ := hs.cycle now (Or.inl (hselect now ids hp))
      exact ⟨hle.trans hclock,hcycle⟩
  · have haway := Uploader.committed_away reply hcom.transaction
    rw [← hu] at haway
    have hno : ∀ now, ¬ ((t.uploaders n).phase = .cycle now ∨ ∃ ids, (t.uploaders n).phase = .selected now ids) := by
      rintro now (hp | ⟨ids,hp⟩)
      · exact haway.1 now hp
      · exact haway.2 now ids hp
    rcases Uploader.transaction_cases hcom.transaction with ⟨now,ids,hp,rfl⟩ | ⟨_,_,_,_,_,_,hp,_⟩ |
        ⟨_,_,_,_,hp,_⟩ | ⟨_,_,_,_,hp,_⟩
    · exact ⟨hworking,fun _ ho => (hs.claimed hal h hp hcom hu ho).1,fun now hp => absurd hp (hno now),
        fun _ ho => (hs.claimed hal h hp hcom hu ho).2⟩
    all_goals
      have hb : (t.uploaders n).batcher = (s.uploaders n).batcher := by
        rw [hu]
        simp only [Uploader.committed, hp]
      exact ⟨hworking,fun _ ho => (hs.kept hal h hb ho).1,fun now hp => absurd hp (hno now),
        fun _ ho => (hs.kept hal h hb ho).2⟩
  · refine ⟨hworking,?_,?_,?_⟩ <;> rw [hu]
    · rintro _ ⟨⟩
    · exact fun _ hp => absurd hp (by simp [Uploader.fresh])
    · rintro _ ⟨⟩

/-- In every run in which no cycle finds a row that the uploader still holds eligible, its
batches are without repetition; where it is alone with its rows, no outcome is an illegal
transition, and no cycle does find one if each begins in time. -/
theorem run_batches_distinct (rt : Runtime) (settings : ℕ → Settings) (n : ℕ) (db : Ledger)
    (actions : List Action) (s : System) (h : run rt settings (start db) actions = some s) :
    (Machine.Along (step rt settings) (HeldIneligible settings n) (start db) actions →
      (batchIds (s.uploaders n).batch).Nodup ∧
      (Machine.Along (step rt settings) (Alone settings n) (start db) actions →
        ∀ (batch : List Claimed) (loaded : List Event) (rows : List RowResult) (now : Time)
          (id fromStatus toStatus : String),
          s.transaction settings (.uploader n) = some (.apply batch loaded rows now) →
          (Transaction.apply batch loaded rows now).commit rt s.ledger ≠
            .error (.illegalTransition id fromStatus toStatus))) ∧
    (Machine.Along (step rt settings) (Alone settings n) (start db) actions →
      Machine.Along (step rt settings) (Prompt settings n) (start db) actions →
      Machine.Along (step rt settings) (HeldIneligible settings n) (start db) actions) := by
  refine ⟨fun hre => ⟨?_,?_⟩,fun hal hpr => ?_⟩
  · exact (Machine.run_inv (Distinct settings n) (fun _ _ _ hs hre hst => step_distinct hs hre hst)
      (start_distinct db) hre h).batch_nodup
  · intro hal batch loaded rows now id fromStatus toStatus htx herror
    have hboth : Machine.Along (step rt settings) (fun s a => Alone settings n s a ∧ HeldIneligible settings n s a)
      (start db) actions := fun pre a post t heq ht => ⟨hal pre a post t heq ht,hre pre a post t heq ht⟩
    have hworking := Machine.run_inv (Working settings n)
      (fun _ _ _ hs hc hst => step_working hs hc.1 hc.2 hst) (start_working db) hboth h
    rcases hworking.apply_legal htx herror with he | he <;> cases he
  · have hboth : Machine.Along (step rt settings) (fun s a => Alone settings n s a ∧ Prompt settings n s a)
      (start db) actions := fun pre a post t heq ht => ⟨hal pre a post t heq ht,hpr pre a post t heq ht⟩
    exact Machine.along_of_inv (Aged settings n) (fun _ _ _ hs hc hst => step_aged hs hc.1 hc.2 hst)
      (fun _ a hs _ => hs.ineligible a) (start_aged db) hboth

/-- Batches of two that may wait for an hour. -/
def slowSettings : Settings :=
  { Settings.single with
    uploadBatchSize := 2
    uploadBatchWait := some 3600000000
    batchSize_pos := by decide
    batchWait_nonneg := by simp }

/-- A row that waits five minutes for a second one, over three cycles. -/
def fillBatch : List Action :=
  processBody (clickBody 1704067200000) 0 ++
    [.uploader 0 .begin, .uploader 0 (.select ["hubspot:1"]), .commit (.uploader 0), .tick 200000000,
      .uploader 0 .begin, .uploader 0 (.select []), .commit (.uploader 0), .tick 300000000] ++
    processBody secondBody 1 ++
    [.uploader 0 .begin, .uploader 0 (.select ["hubspot:2"]), .commit (.uploader 0), .uploader 0 .send,
      .uploader 0 (.finish (.result [⟨0,true,none,none⟩,⟨1,true,none,none⟩])), .uploader 0 .load, .uploader 0 .load]

theorem run_batches_distinct_fillBatch : ∃ s,
    run twoRuntime (fun _ => slowSettings) (start Ledger.empty) fillBatch = some s ∧
      batchIds (s.uploaders 0).batch = ["hubspot:1","hubspot:2"] ∧ (batchIds (s.uploaders 0).batch).Nodup ∧
      ∀ (batch : List Claimed) (loaded : List Event) (rows : List RowResult) (now : Time)
        (id fromStatus toStatus : String),
        s.transaction (fun _ => slowSettings) (.uploader 0) = some (.apply batch loaded rows now) →
        (Transaction.apply batch loaded rows now).commit twoRuntime s.ledger ≠
          .error (.illegalTransition id fromStatus toStatus) := by
  have h : (run twoRuntime (fun _ => slowSettings) (start Ledger.empty) fillBatch).map
      (fun s => batchIds (s.uploaders 0).batch) = some ["hubspot:1","hubspot:2"] := by decide +kernel
  obtain ⟨s,hs,hbatch⟩ := Option.map_eq_some_iff.mp h
  have hal : Machine.Along (step twoRuntime fun _ => slowSettings) (Alone (fun _ => slowSettings) 0)
      (start Ledger.empty) fillBatch := by decide +kernel
  have hpr : Machine.Along (step twoRuntime fun _ => slowSettings) (Prompt (fun _ => slowSettings) 0)
      (start Ledger.empty) fillBatch := by decide +kernel
  obtain ⟨hdistinct,hprompt⟩ := run_batches_distinct twoRuntime (fun _ => slowSettings) 0 Ledger.empty fillBatch s hs
  obtain ⟨hnodup,hlegal⟩ := hdistinct (hprompt hal hpr)
  exact ⟨s,hs,hbatch,hnodup,hlegal hal⟩

/-- One row, claimed again after ten minutes by the uploader that still holds it. -/
def claimTwice : List Action :=
  uploadOnce.take 9 ++ [.tick 600000000, .uploader 0 .begin, .uploader 0 (.select ["hubspot:1"]),
    .commit (.uploader 0), .uploader 0 .send,
    .uploader 0 (.finish (.result [⟨0,true,none,none⟩,⟨1,true,none,none⟩])), .uploader 0 .load]

/-- The batch has the row twice, and its outcome is an illegal transition. -/
theorem not_batches_distinct_waiting : ∃ s tx,
    run (clickRuntime 1704067200000) (fun _ => slowSettings) (start Ledger.empty) claimTwice = some s ∧
    Machine.Along (step (clickRuntime 1704067200000) fun _ => slowSettings) (Alone (fun _ => slowSettings) 0)
      (start Ledger.empty) claimTwice ∧
    ¬ (batchIds (s.uploaders 0).batch).Nodup ∧
    s.transaction (fun _ => slowSettings) (.uploader 0) = some tx ∧
    tx.commit (clickRuntime 1704067200000) s.ledger =
      .error (.illegalTransition "hubspot:1" "UPLOADED" "UPLOADED") := by
  have hrun : ((run (clickRuntime 1704067200000) (fun _ => slowSettings) (start Ledger.empty) claimTwice).bind
      fun s => (s.transaction (fun _ => slowSettings) (.uploader 0)).map fun tx =>
        (decide (batchIds (s.uploaders 0).batch).Nodup,
          Outcome.raised (tx.commit (clickRuntime 1704067200000) s.ledger))) =
      some (false,some (.illegalTransition "hubspot:1" "UPLOADED" "UPLOADED")) := by decide +kernel
  obtain ⟨s,hs,h⟩ := Option.bind_eq_some_iff.mp hrun
  obtain ⟨tx,htx,h⟩ := Option.map_eq_some_iff.mp h
  obtain ⟨hnodup,hcommit⟩ := Prod.mk.inj h
  exact ⟨s,tx,hs,by decide +kernel,of_decide_eq_false hnodup,htx,Outcome.raised_eq_some.mp hcommit⟩

end System
end ConversionGateway
