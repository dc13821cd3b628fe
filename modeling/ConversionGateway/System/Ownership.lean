import ConversionGateway.System.ClaimExclusion
import ConversionGateway.System.Batches

/-! # Ownership of claimed rows

What an uploader has selected or claimed is its own as long as no other uploader
takes it over as stale. Under that condition an event that is committed as
UPLOADED is in nobody's hands, and nobody sends it again.
-/
namespace ConversionGateway
open EventStatus

namespace Batcher
variable {T : Type} {maxSize : ℕ} {b b' : Batcher T} {batch : Option (List T)} {now : Time}

/-- As many items as there is room for are kept, or fill the batch with the last one. -/
theorem addAll_room {items : List T} (hlen : b.items.length < maxSize)
    (hroom : b.items.length + items.length ≤ maxSize) (h : addAll maxSize now none b items = (batch,b')) :
    (batch = none ∧ b'.items.length < maxSize) ∨ (batch.isSome ∧ b'.items = []) := by
  induction items generalizing b with
  | nil =>
    cases h
    exact Or.inl ⟨rfl,hlen⟩
  | cons item rest ih =>
    simp only [List.length_cons] at hroom
    simp only [addAll, add, List.length_append, List.length_singleton, Option.or_none] at h
    split at h
    · next hfull =>
      have hrest : rest = [] := List.eq_nil_of_length_eq_zero (by omega)
      subst hrest
      cases h
      exact Or.inr ⟨rfl,rfl⟩
    · next hfull =>
      refine ih ?_ ?_ h
      · simp only [List.length_append, List.length_singleton]
        omega
      · simp only [List.length_append, List.length_singleton]
        omega

end Batcher

/-- A batch is out: to be sent, being sent, or being written back. -/
def Phase.Busy : Phase → Prop
  | .ready .. => True
  | .sending .. => True
  | .retrying .. => True
  | .settling .. => True
  | _ => False

section Local
variable {rt : Runtime} {st : Settings} {clock : Time} {db : Ledger}

namespace Uploader

/-- The batcher is not full, and empty while a batch is out; a SELECT fits into it,
and the rows read are those of the batch. -/
structure Tidy (st : Settings) (u : Uploader) : Prop where
  below : u.batcher.items.length < st.uploadBatchSize
  alone : u.phase.Busy → u.batcher.items = []
  room : ∀ now ids, u.phase = .selected now ids → ids.length ≤ u.room st
  reads : ∀ id ∈ u.reads, id ∈ batchIds u.batch

theorem fresh_tidy : fresh.Tidy st :=
  ⟨st.batchSize_pos,fun h => h.elim,by rintro _ _ ⟨⟩,by rintro _ ⟨⟩⟩

theorem withClaim_tidy {u : Uploader} (hu : u.Tidy st) {items : List Claimed} {now : Time}
    (hroom : items.length ≤ u.room st) : (u.withClaim st items now).Tidy st := by
  have hlen := hu.below
  have hsum : u.batcher.items.length + items.length ≤ st.uploadBatchSize := by
    unfold room at hroom
    omega
  have hcases : ∀ batch b, cycleBatch st u.batcher items now = (batch,b) →
      b.items.length < st.uploadBatchSize ∧ (batch.isSome → b.items = []) := by
    intro batch b h
    unfold cycleBatch at h
    split at h
    · next hadd =>
      cases h
      rcases Batcher.addAll_room hlen hsum hadd with ⟨hnone,_⟩ | ⟨_,hempty⟩
      · cases hnone
      · exact ⟨by rw [hempty]; exact st.batchSize_pos,fun _ => hempty⟩
    · next hadd =>
      rcases Batcher.addAll_room hlen hsum hadd with ⟨_,hshort⟩ | ⟨hsome,_⟩
      · unfold Batcher.flushIfDue at h
        split at h
        · split at h
          · cases h
            exact ⟨st.batchSize_pos,fun _ => rfl⟩
          · cases h
            exact ⟨hshort,by rintro ⟨⟩⟩
        · cases h
          exact ⟨hshort,by rintro ⟨⟩⟩
      · cases hsome
  unfold withClaim
  split
  · next h => exact ⟨(hcases _ _ h).1,fun h => h.elim,by rintro _ _ ⟨⟩,by rintro _ ⟨⟩⟩
  · next h => exact ⟨(hcases _ _ h).1,fun h => h.elim,by rintro _ _ ⟨⟩,by rintro _ ⟨⟩⟩
  · next h =>
    exact ⟨(hcases _ _ h).1,fun _ => (hcases _ _ h).2 rfl,by rintro _ _ ⟨⟩,by rintro _ ⟨⟩⟩

theorem step_tidy {u u' : Uploader} {n : ℕ} {locks locks' : Locks} {sent : Option (List Json)}
    {a : UploaderAction} (h : u.step st n clock db locks a = some (u',locks',sent)) (hu : u.Tidy st) :
    u'.Tidy st := by
  have hreads := hu.reads
  have halone := hu.alone
  cases a with
  | begin =>
    simp only [step] at h
    split at h
    · cases h
      exact ⟨hu.below,fun h => h.elim,by rintro _ _ ⟨⟩,by rintro _ ⟨⟩⟩
    · cases h
  | select ids =>
    simp only [step] at h
    split at h
    · split at h
      · next hs =>
        cases h
        refine ⟨hu.below,fun h => h.elim,?_,by rintro _ ⟨⟩⟩
        rintro _ _ ⟨⟩
        exact hs.2.2.1
      · cases h
    · cases h
  | skip =>
    simp only [step] at h
    split at h
    · split at h
      · cases h
        exact withClaim_tidy hu (Nat.zero_le _)
      · cases h
    · cases h
  | send =>
    simp only [step] at h
    split at h
    · next hp =>
      cases h
      exact ⟨hu.below,fun _ => halone (by rw [hp]; trivial),by rintro _ _ ⟨⟩,by rintro _ ⟨⟩⟩
    · cases h
  | finish outcome =>
    simp only [step] at h
    split at h
    · next hp =>
      cases h
      refine ⟨hu.below,fun _ => halone (by rw [hp]; trivial),by rintro _ _ ⟨⟩,fun id hid => ?_⟩
      simpa [Uploader.reads,batch,List.mem_eraseDups] using hid
    · cases h
  | retry reason =>
    simp only [step] at h
    split at h
    · next hp =>
      split at h
      · cases h
        refine ⟨hu.below,fun _ => halone (by rw [hp]; trivial),by rintro _ _ ⟨⟩,fun id hid => ?_⟩
        simpa [Uploader.reads,batch,List.mem_eraseDups] using hid
      · cases h
    · cases h
  | load =>
    have hread {k : String} {loaded : List Event} {pending : List String} {id : String}
        (hid : id ∈ (loaded ++ (db.getEvent k).toList).map Event.eventId ++ pending) :
        id ∈ loaded.map Event.eventId ++ k :: pending := by
      simp only [List.map_append, List.mem_append] at hid
      rcases hid with (hid | hid) | hid
      · exact List.mem_append_left _ hid
      · obtain ⟨e,he,rfl⟩ := List.mem_map.mp hid
        rw [Ledger.getEvent_eventId (Option.mem_toList.mp he)]
        exact List.mem_append_right _ List.mem_cons_self
      · exact List.mem_append_right _ (List.mem_cons_of_mem _ hid)
    simp only [step] at h
    split at h
    · next hp =>
      cases h
      simp only [Uploader.reads, batch, hp] at hreads
      exact ⟨hu.below,fun _ => halone (by rw [hp]; trivial),by rintro _ _ ⟨⟩,
        fun id hid => hreads id (hread hid)⟩
    · next hp =>
      cases h
      simp only [Uploader.reads, batch, hp] at hreads
      exact ⟨hu.below,fun _ => halone (by rw [hp]; trivial),by rintro _ _ ⟨⟩,
        fun id hid => hreads id (hread hid)⟩
    · cases h
  | stamp =>
    simp only [step] at h
    split at h
    · next hp =>
      split at h
      · cases h
        simp only [Uploader.reads, batch, hp] at hreads
        exact ⟨hu.below,fun _ => halone (by rw [hp]; trivial),by rintro _ _ ⟨⟩,hreads⟩
      · cases h
    · cases h

theorem committed_tidy {u : Uploader} {tx : Transaction} {reply : Reply} (h : u.transaction st = some tx)
    (hitems : ∀ st' ids now, tx = .claim st' ids now → reply.items.length ≤ ids.length) (hu : u.Tidy st) :
    (u.committed st reply).Tidy st := by
  rcases transaction_cases h with ⟨now,ids,hp,rfl⟩ | ⟨now,batch,attempt,reason,loaded,stamps,hp,_,_⟩ |
      ⟨now,batch,rows,loaded,hp,_⟩ | ⟨now,batch,failure,loaded,hp,_⟩ <;> simp only [committed, hp]
  · exact withClaim_tidy hu ((hitems st ids now rfl).trans (hu.room now ids hp))
  · exact ⟨hu.below,fun _ => hu.alone (by rw [hp]; trivial),by rintro _ _ ⟨⟩,by rintro _ ⟨⟩⟩
  · exact ⟨hu.below,fun h => h.elim,by rintro _ _ ⟨⟩,by rintro _ ⟨⟩⟩
  · exact ⟨hu.below,fun h => h.elim,by rintro _ _ ⟨⟩,by rintro _ ⟨⟩⟩

/-- The row is selected or claimed by the uploader. -/
def Owns (u : Uploader) (id : String) : Prop :=
  (∃ c ∈ u.held, c.eventId = id) ∨ ∃ now ids, u.phase = .selected now ids ∧ id ∈ ids

theorem not_fresh_owns {id : String} : ¬ fresh.Owns id := by
  rintro (⟨c,hc,_⟩ | ⟨_,_,⟨⟩,_⟩)
  simp [fresh,held,batch,Batcher.empty] at hc

/-- A step brings in only the rows of a SELECT. -/
theorem step_owns {u u' : Uploader} {n : ℕ} {locks locks' : Locks} {sent : Option (List Json)}
    {a : UploaderAction} (h : u.step st n clock db locks a = some (u',locks',sent)) {id : String}
    (hid : u'.Owns id) : u.Owns id ∨ ∃ ids now, a = .select ids ∧ id ∈ ids ∧
      Selectable st db locks now (u.room st) ids := by
  rcases hid with ⟨c,hc,rfl⟩ | ⟨now,ids,hp,hid⟩
  · exact Or.inl (Or.inl ⟨c,step_held h hc,rfl⟩)
  · rcases step_claim h with ⟨hcycle,_⟩ | ⟨now',ids',rfl,_,rfl,hsel,_⟩ | ⟨haway,_⟩
    · rw [hcycle] at hp
      cases hp
    · cases hp
      exact Or.inr ⟨ids,now,rfl,hid,hsel⟩
    · exact absurd hp (haway.2 now ids)

/-- What a transaction of the uploader may change is its own. -/
theorem owns_of_key {u : Uploader} {tx : Transaction} (h : u.transaction st = some tx) (hu : u.Tidy st)
    {k : String} (hk : k ∈ tx.keys) : u.Owns k ∧
      ((∃ st' ids now, tx = .claim st' ids now) ∨ ∃ c ∈ u.batch, c.eventId = k) := by
  have hbatch (hr : k ∈ u.reads) : u.Owns k ∧
      ((∃ st' ids now, tx = .claim st' ids now) ∨ ∃ c ∈ u.batch, c.eventId = k) := by
    obtain ⟨c,hc,hid⟩ := List.mem_map.mp (hu.reads k hr)
    exact ⟨Or.inl ⟨c,List.mem_append_right _ hc,hid⟩,Or.inr ⟨c,hc,hid⟩⟩
  rcases transaction_cases h with ⟨now,ids,hp,rfl⟩ | ⟨now,batch,attempt,reason,loaded,stamps,hp,_,rfl⟩ |
      ⟨now,batch,rows,loaded,hp,rfl⟩ | ⟨now,batch,failure,loaded,hp,rfl⟩
  · exact ⟨Or.inr ⟨now,ids,hp,hk⟩,Or.inl ⟨st,ids,now,rfl⟩⟩
  · exact hbatch (by simpa [Uploader.reads,hp,Transaction.keys,Transaction.session] using hk)
  · exact hbatch (by simpa [Uploader.reads,hp,Transaction.keys,Transaction.session] using hk)
  · exact hbatch (by simpa [Uploader.reads,hp,Transaction.keys,Transaction.session] using hk)

end Uploader

/-- A claim hands out at most the rows it selected. -/
theorem claim_items_length {ids : List String} {now : Time} {out : Ledger} {items : List Claimed}
    (h : claim rt st db ids now = .ok (out,items)) : items.length ≤ ids.length := by
  obtain ⟨mid,_,hloop⟩ := Outcome.bind_ok.mp h
  have hgrow : ∀ (ids : List String) (acc acc' : Ledger × List Claimed),
      Outcome.loop (claimItem rt st now) acc ids = .ok acc' →
      acc'.2.length ≤ acc.2.length + ids.length := by
    intro ids
    induction ids with
    | nil =>
      intro acc acc' h
      cases h
      exact Nat.le_refl _
    | cons id rest ih =>
      intro acc acc' h
      obtain ⟨⟨db₁,items₁⟩,h₁,h₂⟩ := Outcome.loop_cons_ok.mp h
      have hrest := ih _ _ h₂
      have hone : items₁.length ≤ acc.2.length + 1 := by
        rcases claimItem_ok h₁ with ⟨_,_,rfl⟩ | ⟨_,_,_,_,⟨_,rfl,_⟩ | ⟨_,_,rfl⟩⟩
        · exact Nat.le_succ _
        · exact Nat.le_succ _
        · simp
      simp only [List.length_cons] at hrest ⊢
      omega
  simpa using hgrow ids (mid,[]) (out,items) hloop

end Local

/-- Ticks and the steps, commits and crashes of uploaders. -/
def Action.Uploads : Action → Prop
  | .tick _ => True
  | .uploader _ _ => True
  | .commit (.uploader _) => True
  | .crash (.uploader _) => True
  | _ => False

/-- Ticks and the steps, commits and crashes of the uploaders before `k`. -/
def Action.Below (k : ℕ) : Action → Prop
  | .tick _ => True
  | .uploader m _ => m < k
  | .commit (.uploader m) => m < k
  | .crash (.uploader m) => m < k
  | _ => False

namespace System
variable {rt : Runtime} {settings : ℕ → Settings} {s t : System} {a : Action}

/-- No claim selects a row that another live uploader still holds. -/
def NoTakeover (s : System) (a : Action) : Prop :=
  match a with
  | .uploader n (.select ids) => ∀ m, m ≠ n → ∀ c ∈ (s.uploaders m).held, c.eventId ∉ ids
  | _ => True

/-- The condition as far as the uploaders before `k` go. -/
def NoTakeoverBelow (k : ℕ) (s : System) : Action → Prop
  | .uploader n (.select ids) => ∀ m < k, m ≠ n → ∀ c ∈ (s.uploaders m).held, c.eventId ∉ ids
  | _ => True

instance (k : ℕ) (s : System) : ∀ a, Decidable (NoTakeoverBelow k s a)
  | .uploader n (.select ids) =>
    inferInstanceAs (Decidable (∀ m < k, m ≠ n → ∀ c ∈ (s.uploaders m).held, c.eventId ∉ ids))
  | .uploader _ .begin | .uploader _ .skip | .uploader _ .send | .uploader _ (.retry _) | .uploader _ (.finish _) |
    .uploader _ .load | .uploader _ .stamp | .tick _ | .expire _ | .request _ _ | .worker _ _ | .replayer _ _ |
    .reconciler _ _ | .commit _ | .crash _ => isTrue trivial

/-- Every row has one owner at most, and what is held is not uploaded yet. -/
structure Owned (settings : ℕ → Settings) (s : System) : Prop where
  linked : s.Linked
  tidy : ∀ n, (s.uploaders n).Tidy (settings n)
  orderId : ∀ n, ∀ c ∈ (s.uploaders n).held, c.conversion.orderId = some c.eventId
  disjoint : ∀ n m id, (s.uploaders n).Owns id → (s.uploaders m).Owns id → n = m
  pending : ∀ n, ∀ c ∈ (s.uploaders n).held, s.status c.eventId ≠ some uploaded

theorem start_owned (db : Ledger) : (start db).Owned settings := by
  have hnone : ∀ n, ∀ c ∈ ((start db).uploaders n).held, False := by
    intro n c hc
    simp [start,Uploader.fresh,Uploader.held,Uploader.batch,Batcher.empty] at hc
  exact ⟨start_linked db,fun _ => Uploader.fresh_tidy,fun n c hc => (hnone n c hc).elim,
    fun n _ _ hn _ => absurd hn Uploader.not_fresh_owns,fun n c hc => (hnone n c hc).elim⟩

theorem Commits.items_length {who : Process} {st : Settings} {ids : List String} {now : Time}
    {reply : Reply} (hc : Commits rt settings s t who (.claim st ids now) reply) :
    reply.items.length ≤ ids.length := by
  have hfresh : (Transaction.claim st ids now).session.Fresh s.ledger := Session.fresh_empty _
  obtain ⟨⟨out,items⟩,hclaim,hb⟩ := Outcome.bind_ok.mp (Transaction.commit_fresh hfresh hc.commit).1
  obtain ⟨_,rfl⟩ := Prod.mk.inj (Except.ok.inj hb)
  exact claim_items_length hclaim

theorem step_tidy (h : step rt settings s a = some t) (hs : ∀ n, (s.uploaders n).Tidy (settings n))
    (n : ℕ) : (t.uploaders n).Tidy (settings n) := by
  rcases step_uploaders h with ⟨hu,_⟩ | ⟨m,_,hu,_⟩ | ⟨m,tx,reply,_,hc,hu,_⟩ | ⟨m,b,u,_,_,hp,hu,_⟩ <;>
    rw [hu]
  · exact hs n
  all_goals
    rw [Function.update_apply]
    split
  · exact Uploader.fresh_tidy
  · exact hs n
  · next hn =>
    subst hn
    refine Uploader.committed_tidy hc.transaction ?_ (hs n)
    rintro st ids now rfl
    exact hc.items_length
  · exact hs n
  · next hn =>
    subst hn
    exact Uploader.step_tidy hp (hs n)
  · exact hs n

/-- Only a SELECT makes an uploader the owner of a row. -/
theorem step_owns (hs : s.Owned settings) (h : step rt settings s a = some t) {n : ℕ} {id : String}
    (hid : (t.uploaders n).Owns id) : (s.uploaders n).Owns id ∨
      ∃ ids, a = .uploader n (.select ids) ∧ id ∈ ids ∧ ∀ l ∈ s.locks, l.1 ≠ id := by
  rcases step_uploaders h with ⟨hu,_⟩ | ⟨m,_,hu,_⟩ | ⟨m,tx,reply,_,hc,hu,_⟩ | ⟨m,b,u,_,rfl,hp,hu,_⟩ <;>
    rw [hu] at hid
  · exact Or.inl hid
  all_goals
    rw [Function.update_apply] at hid
    split at hid
  · exact absurd hid Uploader.not_fresh_owns
  · exact Or.inl hid
  · next hn =>
    subst hn
    refine Or.inl ?_
    rcases hid with ⟨c,hheld,rfl⟩ | ⟨now,ids,hphase,_⟩
    · rcases Uploader.committed_held hheld with hheld | hitem
      · exact Or.inl ⟨c,hheld,rfl⟩
      · obtain ⟨_,hkey,_⟩ := Transaction.commit_items (hs.linked.keys_nodup hc.transaction) hc.commit c hitem
        exact (Uploader.owns_of_key hc.transaction (hs.tidy n) hkey).1
    · exact absurd hphase ((Uploader.committed_away reply hc.transaction).2 now ids)
  · exact Or.inl hid
  · next hn =>
    subst hn
    rcases Uploader.step_owns hp hid with hold | ⟨ids,now,rfl,hmem,hsel⟩
    · exact Or.inl hold
    · exact Or.inr ⟨ids,rfl,hmem,(hsel.2.2 id hmem).2⟩
  · exact Or.inl hid

theorem step_disjoint (hs : s.Owned settings) (hno : NoTakeover s a) (h : step rt settings s a = some t)
    {n m : ℕ} {id : String} (hn : (t.uploaders n).Owns id) (hm : (t.uploaders m).Owns id) : n = m := by
  -- a row that one uploader has just selected was owned by nobody else
  have hfree {i j : ℕ} {ids : List String} (ha : a = .uploader i (.select ids)) (hid : id ∈ ids)
      (hlock : ∀ l ∈ s.locks, l.1 ≠ id) (hold : (s.uploaders j).Owns id) : i = j := by
    by_contra hne
    subst ha
    rcases hold with ⟨c,hc,rfl⟩ | ⟨now,ids',hp,hid'⟩
    · exact hno j (Ne.symm hne) c hc hid
    · exact hlock _ (hs.linked.locked ⟨ids',hp,hid'⟩) rfl
  rcases step_owns hs h hn with hn | ⟨ids,ha,hid,hlock⟩ <;>
    rcases step_owns hs h hm with hm | ⟨ids',ha',hid',hlock'⟩
  · exact hs.disjoint n m id hn hm
  · exact (hfree ha' hid' hlock' hn).symm
  · exact hfree ha hid hlock hm
  · rw [ha] at ha'
    cases ha'
    rfl

/-- What a transaction of an uploader does to the status of a row. -/
theorem Commits.upload_status {m : ℕ} {tx : Transaction} {reply : Reply} (hs : s.Owned settings)
    (hc : Commits rt settings s t (.uploader m) tx reply) {k : String} {e : Event}
    (he : s.ledger.getEvent k = some e) : ∃ e', t.ledger.getEvent k = some e' ∧
      (e'.status = e.status ∨ (s.uploaders m).Owns k ∧
        (e.status ≠ uploaded ∧ e'.status ≠ uploaded ∨
          (∃ c ∈ (s.uploaders m).held, c.eventId = k) ∧
            ((s.uploaders m).committed (settings m) reply).held = [])) := by
  rcases hc.row hs.linked he with hsame | ⟨hkey,final,hchange,hget⟩
  · exact ⟨e,hsame,Or.inl rfl⟩
  · refine ⟨_,hget,?_⟩
    obtain ⟨howns,hheld⟩ := Uploader.owns_of_key hc.transaction (hs.tidy m) hkey
    have hsettled {now : Time} {batch : List Claimed} {verdict : Verdict} {loaded : List Event}
        (hp : (s.uploaders m).phase = .settling now batch verdict loaded []) :
        ((s.uploaders m).committed (settings m) reply).held = [] := by
      have hempty := (hs.tidy m).alone (by rw [hp]; trivial)
      simp [Uploader.committed,Uploader.held,Uploader.batch,hp,hempty]
    have hbatch (hn : ∀ st ids now, tx ≠ .claim st ids now) :
        ∃ c ∈ (s.uploaders m).held, c.eventId = k := by
      rcases hheld with ⟨st,ids,now,htx⟩ | ⟨c,hcb,hid⟩
      · exact absurd htx (hn st ids now)
      · exact ⟨c,List.mem_append_right _ hcb,hid⟩
    rcases Uploader.transaction_cases hc.transaction with ⟨now,ids,hp,rfl⟩ | ⟨_,_,_,_,_,_,hp,_,rfl⟩ |
        ⟨_,_,_,_,hp,rfl⟩ | ⟨_,_,_,_,hp,rfl⟩
    · have htaken : e.TakenBy (settings m).maxRowAttempts now final := hchange
      have hmerged : Event.merge ((Transaction.claim (settings m) ids now).session.event e) final e =
        final := Event.merge_fresh e final
      rw [hmerged]
      refine Or.inr ⟨howns,Or.inl ⟨?_,?_⟩⟩
      · rcases htaken.before with hst | hst | hst <;> simp [hst]
      · rcases htaken.status with hst | hst <;> simp [hst]
    · exact Or.inl (Event.Retried.merge_status hchange)
    · exact Or.inr ⟨howns,Or.inr ⟨hbatch (by simp),hsettled hp⟩⟩
    · exact Or.inr ⟨howns,Or.inr ⟨hbatch (by simp),hsettled hp⟩⟩

/-- A committed UPLOADED stays. -/
theorem step_uploaded (hs : s.Owned settings) (ha : a.Uploads) (h : step rt settings s a = some t)
    {k : String} (hk : s.status k = some uploaded) : t.status k = some uploaded := by
  obtain ⟨e,he,hst⟩ := Option.map_eq_some_iff.mp hk
  rcases step_ledger h with heq | ⟨who,tx,reply,rfl,hc⟩
  · rwa [status, heq]
  · cases who with
    | uploader m =>
      obtain ⟨e',he',hsame | ⟨_,⟨hne,_⟩ | ⟨⟨c,hcm,rfl⟩,_⟩⟩⟩ := hc.upload_status hs he
      · rw [status, he', Option.map_some, hsame, hst]
      · exact absurd hst hne
      · exact absurd hk (hs.pending m c hcm)
    | _ => exact ha.elim

/-- What is held is not uploaded: the outcome of a batch is written by the one
uploader that has it, which then has nothing. -/
theorem step_pending (hs : s.Owned settings) (ha : a.Uploads) (h : step rt settings s a = some t) {n : ℕ}
    {c : Claimed} (hc : c ∈ (t.uploaders n).held) : t.status c.eventId ≠ some uploaded := by
  rcases step_held h hs.linked hc with hold | ⟨_,_,_,_,_,_,hb⟩
  · have hpending := hs.pending n c hold
    rcases step_ledger h with heq | ⟨who,tx,reply,rfl,hcom⟩
    · rwa [status, heq]
    · cases who with
      | uploader m =>
        cases he : s.ledger.getEvent c.eventId with
        | none =>
          intro hup
          obtain ⟨e',he',_⟩ := Option.map_eq_some_iff.mp hup
          obtain ⟨_,_,_,_,rfl,_⟩ := hcom.new_row hs.linked he he'
          rcases Uploader.transaction_cases hcom.transaction with ⟨_,_,_,htx⟩ | ⟨_,_,_,_,_,_,_,_,htx⟩ |
            ⟨_,_,_,_,_,htx⟩ | ⟨_,_,_,_,_,htx⟩ <;> cases htx
        | some e =>
          obtain ⟨e',he',hcases⟩ := hcom.upload_status hs he
          rw [status, he', Option.map_some, ne_eq, Option.some.injEq]
          rw [status, he, Option.map_some, ne_eq, Option.some.injEq] at hpending
          rcases hcases with hsame | ⟨howns,⟨_,hne⟩ | ⟨_,hempty⟩⟩
          · rwa [hsame]
          · exact hne
          · obtain rfl := hs.disjoint n m _ (Or.inl ⟨c,hold,rfl⟩) howns
            rw [hcom.after] at hc
            simp [committed,hempty] at hc
      | _ => exact ha.elim
  · obtain ⟨e,he,hu⟩ := hb.row
    rw [status, he, Option.map_some, hu]
    simp

theorem step_owned (hs : s.Owned settings) (ha : a.Uploads) (hno : NoTakeover s a)
    (h : step rt settings s a = some t) : t.Owned settings := by
  refine ⟨step_linked hs.linked h,step_tidy h hs.tidy,fun n c hc => ?_,
    fun n m id hn hm => step_disjoint hs hno h hn hm,fun n c hc => step_pending hs ha h hc⟩
  rcases step_held h hs.linked hc with hold | ⟨_,_,_,_,_,_,hb⟩
  · exact hs.orderId n c hold
  · exact hb.orderId

/-- No call that starts after an event was committed as UPLOADED carries it. -/
def NeverResends (rt : Runtime) (settings : ℕ → Settings) (s : System) (actions : List Action) : Prop :=
  ∀ pre post t u id, actions = pre ++ post → run rt settings s pre = some t →
    run rt settings t post = some u → t.status id = some uploaded →
    ∃ later, u.sent = t.sent ++ later ∧
      ∀ batch ∈ later, ∀ conversion ∈ batch, conversion.orderId ≠ some id

/-- What `t` sent more than `s` is without the events that `s` had UPLOADED. -/
def Sends (s t : System) : Prop := ∃ later, t.sent = s.sent ++ later ∧
  ∀ id, s.status id = some uploaded → t.status id = some uploaded ∧
    ∀ batch ∈ later, ∀ conversion ∈ batch, conversion.orderId ≠ some id

theorem Sends.refl (s : System) : s.Sends s := ⟨[],by simp,by simp⟩

theorem Sends.trans {u : System} (h₁ : s.Sends t) (h₂ : t.Sends u) : s.Sends u := by
  obtain ⟨l₁,hl₁,h₁⟩ := h₁
  obtain ⟨l₂,hl₂,h₂⟩ := h₂
  refine ⟨l₁ ++ l₂,by rw [hl₂, hl₁, List.append_assoc],fun id hid => ?_⟩
  obtain ⟨ht,hfirst⟩ := h₁ id hid
  obtain ⟨hu,hsecond⟩ := h₂ id ht
  refine ⟨hu,fun batch hb => ?_⟩
  rcases List.mem_append.mp hb with hb | hb
  · exact hfirst batch hb
  · exact hsecond batch hb

theorem step_sends (hs : s.Owned settings) (ha : a.Uploads) (h : step rt settings s a = some t) :
    s.Sends t := by
  rcases System.step_sent h with heq | ⟨n,_,heq⟩
  · exact ⟨[],by rw [heq, List.append_nil],fun id hid => ⟨step_uploaded hs ha h hid,by simp⟩⟩
  · refine ⟨_,heq,fun id hid => ⟨step_uploaded hs ha h hid,?_⟩⟩
    intro batch hb conversion hconv horder
    obtain rfl := List.mem_singleton.mp hb
    obtain ⟨c,hc,rfl⟩ := List.mem_map.mp hconv
    have hheld : c ∈ (s.uploaders n).held := List.mem_append_right _ hc
    rw [hs.orderId n c hheld] at horder
    cases horder
    exact hs.pending n c hheld hid

/-- In every run of uploaders in which nobody takes over a row that another one
still holds, an event committed as UPLOADED is not sent again. -/
theorem run_never_resends (rt : Runtime) (settings : ℕ → Settings) (db : Ledger) (actions : List Action)
    (hup : ∀ a ∈ actions, a.Uploads)
    (hno : Machine.Along (step rt settings) NoTakeover (start db) actions) :
    NeverResends rt settings (start db) actions := by
  rintro pre post t u id rfl ht hu hid
  have hpre : Machine.Along (step rt settings) (fun s a => a.Uploads ∧ NoTakeover s a) (start db) pre := by
    rintro p a q v rfl hv
    exact ⟨hup a (by simp),hno p a (q ++ post) v (by simp) hv⟩
  have hpost : Machine.Along (step rt settings) (fun s a => a.Uploads ∧ NoTakeover s a) t post := by
    rintro p a q v rfl hv
    exact ⟨hup a (by simp),hno (pre ++ p) a q v (by simp) (Machine.run_append.mpr ⟨t,ht,hv⟩)⟩
  have howned : t.Owned settings := Machine.run_inv (Owned settings)
    (fun _ _ _ hs hc hst => step_owned hs hc.1 hc.2 hst) (start_owned db) hpre ht
  obtain ⟨_,later,hlater,hall⟩ := Machine.run_rel (Owned settings) Sends Sends.refl Sends.trans
    (fun _ _ _ hs hc hst => ⟨step_owned hs hc.1 hc.2 hst,step_sends hs hc.1 hst⟩) howned hpost hu
  exact ⟨later,hlater,(hall id hid).2⟩

/-- The other uploaders never hold anything. -/
theorem along_noTakeover {db : Ledger} {k : ℕ} {actions : List Action} (h : ∀ a ∈ actions, a.Below k)
    (hno : Machine.Along (step rt settings) (NoTakeoverBelow k) (start db) actions) :
    Machine.Along (step rt settings) NoTakeover (start db) actions := by
  rintro pre a post t rfl ht
  have hothers : ∀ m, k ≤ m → t.uploaders m = Uploader.fresh := by
    have hbelow : Machine.Along (step rt settings) (fun _ a => a.Below k) (start db) pre := by
      rintro p b q v rfl _
      exact h b (by simp)
    refine Machine.run_inv (fun s : System => ∀ m, k ≤ m → s.uploaders m = Uploader.fresh) ?_
      (fun m _ => rfl) hbelow ht
    intro s a t hs ha hst m hm
    rcases step_uploaders hst with ⟨hu,_⟩ | ⟨i,rfl,hu,_⟩ | ⟨i,_,_,rfl,_,hu,_⟩ | ⟨i,_,_,_,rfl,_,hu,_⟩
    · rw [hu, hs m hm]
    all_goals
      have hi : i < k := ha
      rw [hu, Function.update_of_ne (hi.trans_le hm).ne', hs m hm]
  have hbelow := hno pre a post t rfl ht
  unfold NoTakeover
  split
  · intro m hm c hc
    rcases lt_or_ge m k with hlt | hle
    · exact hbelow m hlt hm c hc
    · rw [hothers m hle] at hc
      simp [Uploader.fresh,Uploader.held,Uploader.batch,Batcher.empty] at hc
  · trivial

/-- Two uploaders with one row each at the same time. The row of the first is refused for
the time being; the second one uploads its own, and later that of the first. -/
def handOver : List Action :=
  [.uploader 0 .begin, .uploader 0 (.select ["hubspot:1"]), .commit (.uploader 0), .uploader 1 .begin,
    .uploader 1 (.select ["hubspot:2"]), .commit (.uploader 1), .uploader 0 .send,
    .uploader 0 (.finish (.result [⟨0,false,some "TOO_RECENT_CONVERSION",none⟩])), .uploader 1 .send,
    .uploader 0 .load, .commit (.uploader 0), .uploader 1 (.finish (.result [⟨0,true,none,none⟩])),
    .uploader 1 .load, .commit (.uploader 1), .tick 60000000, .uploader 1 .begin,
    .uploader 1 (.select ["hubspot:1"]), .commit (.uploader 1), .uploader 1 .send,
    .uploader 1 (.finish (.result [⟨0,true,none,none⟩])), .uploader 1 .load, .commit (.uploader 1)]

/-- The theorem at these: the row of the first is sent by both, but not after UPLOADED. -/
theorem run_never_resends_handOver : ∃ (db : Ledger) (t : System),
    run twoRuntime (fun _ => .single) (start db) handOver = some t ∧
      t.sent.map (fun b => b.map Json.orderId) = [[some "hubspot:1"],[some "hubspot:2"],[some "hubspot:1"]] ∧
      t.status "hubspot:1" = some uploaded ∧ t.status "hubspot:2" = some uploaded ∧
      NeverResends twoRuntime (fun _ => .single) (start db) handOver := by
  have h : ((run twoRuntime (fun _ => .single) (start Ledger.empty)
      (processBody (clickBody 1704067200000) 0 ++ processBody secondBody 1)).bind fun s =>
        (run twoRuntime (fun _ => .single) (start s.ledger) handOver).map fun t =>
          (decide (Machine.Along (step twoRuntime fun _ => .single) (NoTakeoverBelow 2) (start s.ledger) handOver),
            t.sent.map (fun b => b.map Json.orderId),t.status "hubspot:1",t.status "hubspot:2")) =
      some (true,[[some "hubspot:1"],[some "hubspot:2"],[some "hubspot:1"]],some uploaded,some uploaded) := by
    decide +kernel
  obtain ⟨s,_,h⟩ := Option.bind_eq_some_iff.mp h
  obtain ⟨t,ht,h⟩ := Option.map_eq_some_iff.mp h
  simp only [Prod.mk.injEq, decide_eq_true_eq] at h
  obtain ⟨hno,hsent,hfirst,hsecond⟩ := h
  have hbelow : ∀ a ∈ handOver, a.Below 2 := by simp [handOver,Action.Below]
  exact ⟨s.ledger,t,ht,hsent,hfirst,hsecond,run_never_resends _ _ s.ledger handOver
    (by simp [handOver,Action.Uploads]) (along_noTakeover hbelow hno)⟩

/-- The first uploader is away with its batch until the row is stale; the second
one reclaims it and uploads it. -/
def takeover : List Action :=
  [.uploader 0 .begin, .uploader 0 (.select ["hubspot:1"]), .commit (.uploader 0), .tick 600000000,
    .uploader 1 .begin, .uploader 1 (.select ["hubspot:1"]), .commit (.uploader 1), .uploader 1 .send,
    .uploader 1 (.finish (.result [⟨0,true,none,none⟩])), .uploader 1 .load, .commit (.uploader 1)]

/-- Then the first one sends the row again. -/
theorem not_neverResends_takeover : ∃ db : Ledger,
    (∀ a ∈ takeover ++ [.uploader 0 .send], a.Uploads) ∧
      ¬ NeverResends (clickRuntime 1704067200000) (fun _ => .single) (start db)
        (takeover ++ [.uploader 0 .send]) := by
  have h : ((run (clickRuntime 1704067200000) (fun _ => .single) (start Ledger.empty)
      (uploadOnce.take 6)).bind fun s => (run (clickRuntime 1704067200000) (fun _ => .single)
        (start s.ledger) takeover).bind fun t =>
        (run (clickRuntime 1704067200000) (fun _ => .single) t [.uploader 0 .send]).map fun u =>
          (t.status "hubspot:1",t.sent.length,u.sent.map fun b => b.map Json.orderId)) =
      some (some uploaded,1,[[some "hubspot:1"],[some "hubspot:1"]]) := by decide +kernel
  obtain ⟨s,_,h⟩ := Option.bind_eq_some_iff.mp h
  obtain ⟨t,ht,h⟩ := Option.bind_eq_some_iff.mp h
  obtain ⟨u,hu,h⟩ := Option.map_eq_some_iff.mp h
  obtain ⟨hstatus,hlen,hsent⟩ : t.status "hubspot:1" = some uploaded ∧ t.sent.length = 1 ∧
      u.sent.map (fun b => b.map Json.orderId) = [[some "hubspot:1"],[some "hubspot:1"]] := by
    simpa using h
  refine ⟨s.ledger,by simp [takeover,Action.Uploads],fun hnever => ?_⟩
  obtain ⟨later,hlater,hall⟩ := hnever takeover _ t u "hubspot:1" rfl ht hu hstatus
  have hmap : later.map (fun b => b.map Json.orderId) = [[some "hubspot:1"]] := by
    have hdrop := congrArg (List.drop 1) hsent
    rwa [hlater, List.map_append, List.drop_append_of_le_length (by simp [hlen]),
      List.drop_of_length_le (by simp [hlen]), List.nil_append] at hdrop
  obtain ⟨batch,rfl,hbatch⟩ := List.map_eq_singleton_iff.mp hmap
  obtain ⟨conversion,rfl,hconv⟩ := List.map_eq_singleton_iff.mp hbatch
  exact hall _ (List.mem_singleton_self _) conversion (List.mem_singleton_self _) hconv

end System
end ConversionGateway
