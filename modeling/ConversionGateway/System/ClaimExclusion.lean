import ConversionGateway.System.Transitions

/-! # Exclusive claims

A claim takes rows that it locked while they were eligible. From then on such a
row becomes eligible again by growing stale, or by an applied result that made it
FAILED_RETRYABLE; the FAILED_RETRYABLE between two attempts is never committed.
-/
namespace ConversionGateway
open EventStatus

theorem eligible_iff {now retryAfter staleAfter : Time} {e : Event} :
    eligible now retryAfter staleAfter e = true ↔ e.status = processed ∨
      (e.status = failedRetryable ∧ ∃ t, e.lastAttemptAt = some t ∧ t + retryAfter ≤ now) ∨
      (e.status = uploading ∧ ∃ t, e.lastAttemptAt = some t ∧ t + staleAfter ≤ now) := by
  simp only [eligible, Bool.or_eq_true, Bool.and_eq_true, decide_eq_true_eq, Option.any_eq_true,
    or_assoc, Int.add_le_iff_le_sub]

section Local
variable {st : Settings} {clock : Time} {db : Ledger}

namespace Uploader

/-- Going on after a claim, the uploader is idle or has a batch to send. -/
theorem withClaim_phase (st : Settings) (u : Uploader) (items : List Claimed) (now : Time) :
    (u.withClaim st items now).phase = .idle ∨
      ∃ batch, (u.withClaim st items now).phase = .ready now batch 1 := by
  unfold withClaim
  split
  · exact Or.inl rfl
  · exact Or.inl rfl
  · exact Or.inr ⟨_,rfl⟩

/-- The uploader is past its SELECT, or before its cycle. -/
def Away (u : Uploader) : Prop :=
  (∀ now, u.phase ≠ .cycle now) ∧ ∀ now ids, u.phase ≠ .selected now ids

theorem withClaim_away (u : Uploader) (items : List Claimed) (now : Time) :
    (u.withClaim st items now).Away := by
  rcases withClaim_phase st u items now with h | ⟨batch,h⟩ <;> simp [Away,h]

/-- The cycle and the rows of a SELECT whose transaction is open. -/
def selection (u : Uploader) : Option (Time × List String) :=
  match u.phase with
  | .selected now ids => some (now,ids)
  | _ => none

theorem fresh_away : fresh.Away := ⟨by rintro _ ⟨⟩,by rintro _ _ ⟨⟩⟩

theorem committed_away {u : Uploader} {tx : Transaction} (reply : Reply) (h : u.transaction st = some tx) :
    (u.committed st reply).Away := by
  rcases committed_cases reply h with ⟨_,_,h⟩ | ⟨_,_,_,h | h⟩ <;> rw [h]
  · exact withClaim_away u _ _
  · exact ⟨by rintro _ ⟨⟩,by rintro _ _ ⟨⟩⟩
  · exact ⟨by rintro _ ⟨⟩,by rintro _ _ ⟨⟩⟩

/-- A step begins a cycle at the time of the clock, is the SELECT of a cycle and
locks what it takes, or leads away from both and locks nothing. -/
theorem step_claim {u u' : Uploader} {n : ℕ} {locks locks' : Locks} {sent : Option (List Json)}
    {a : UploaderAction} (h : u.step st n clock db locks a = some (u',locks',sent)) :
    (u'.phase = .cycle clock ∧ locks' = locks) ∨
    (∃ now ids, a = .select ids ∧ u.phase = .cycle now ∧ u' = ⟨u.batcher,.selected now ids⟩ ∧
      Selectable st db locks now (u.room st) ids ∧ locks' = locks ++ ids.map fun id => (id,n)) ∨
    (u'.Away ∧ locks' = locks) := by
  cases a with
  | begin =>
    simp only [step] at h
    split at h
    · cases h
      exact Or.inl ⟨rfl,rfl⟩
    · cases h
  | select ids =>
    simp only [step] at h
    split at h
    · next now hp =>
      split at h
      · next hs =>
        cases h
        exact Or.inr (Or.inl ⟨now,ids,rfl,hp,rfl,hs.2,rfl⟩)
      · cases h
    · cases h
  | skip =>
    simp only [step] at h
    split at h
    · split at h
      · cases h
        exact Or.inr (Or.inr ⟨withClaim_away u [] _,rfl⟩)
      · cases h
    · cases h
  | load =>
    simp only [step] at h
    split at h
    · cases h
      exact Or.inr (Or.inr ⟨⟨by rintro _ ⟨⟩,by rintro _ _ ⟨⟩⟩,rfl⟩)
    · cases h
      exact Or.inr (Or.inr ⟨⟨by rintro _ ⟨⟩,by rintro _ _ ⟨⟩⟩,rfl⟩)
    · cases h
  | send | finish outcome | retry reason | stamp =>
    simp only [step] at h
    split at h
    · first
        | (cases h; exact Or.inr (Or.inr ⟨⟨by rintro _ ⟨⟩,by rintro _ _ ⟨⟩⟩,rfl⟩))
        | (split at h <;> cases h; exact Or.inr (Or.inr ⟨⟨by rintro _ ⟨⟩,by rintro _ _ ⟨⟩⟩,rfl⟩))
    · cases h

end Uploader
end Local

/-- A worker or a replay does not act on the row. -/
def Transaction.Spares (id : String) (tx : Transaction) : Prop :=
  match tx with
  | process .. => ∀ e ∈ tx.acted, e.eventId ≠ id
  | replay .. => ∀ e ∈ tx.acted, e.eventId ≠ id
  | _ => True

instance (id : String) : ∀ tx : Transaction, Decidable (tx.Spares id)
  | .process message loaded now =>
    inferInstanceAs (Decidable (∀ e ∈ (Transaction.process message loaded now).acted, e.eventId ≠ id))
  | .replay letter loaded now =>
    inferInstanceAs (Decidable (∀ e ∈ (Transaction.replay letter loaded now).acted, e.eventId ≠ id))
  | .ingest .. | .claim .. | .retry .. | .apply .. | .bury .. => isTrue trivial

namespace System
variable {rt : Runtime} {settings : ℕ → Settings} {s t : System} {a : Action}

/-- The claim of uploader `n`, of the cycle that began at `now`, has selected the row. -/
def Claims (s : System) (n : ℕ) (now : Time) (id : String) : Prop :=
  ∃ ids, (s.uploaders n).phase = .selected now ids ∧ id ∈ ids

theorem claims_of_selection {n : ℕ} {now : Time} {ids : List String} {id : String}
    (h : (s.uploaders n).selection = some (now,ids)) (hid : id ∈ ids) : s.Claims n now id := by
  unfold Uploader.selection at h
  split at h
  · next hp =>
    cases h
    exact ⟨ids,hp,hid⟩
  · cases h

/-- Locks have one owner, and what a claim has selected is eligible as committed. -/
structure Claiming (settings : ℕ → Settings) (s : System) : Prop where
  linked : s.Linked
  cycle : ∀ n now, (s.uploaders n).phase = .cycle now → now ≤ s.clock
  selected : ∀ n now id, s.Claims n now id → now ≤ s.clock ∧ ∃ e, s.ledger.getEvent id = some e ∧
    eligible now (settings n).uploadRowRetryAfter (settings n).uploadStaleAfter e = true
  locks : ∀ id n m, (id,n) ∈ s.locks → (id,m) ∈ s.locks → n = m

theorem start_claiming (db : Ledger) : (start db).Claiming settings :=
  ⟨start_linked db,by rintro n _ ⟨⟩,by rintro n _ _ ⟨_,⟨⟩,_⟩,by rintro _ _ _ ⟨⟩⟩

/-- A claim holds the lock of every row it has selected. -/
theorem Linked.locked (h : s.Linked) {n : ℕ} {now : Time} {id : String} (hc : s.Claims n now id) :
    (id,n) ∈ s.locks := by
  obtain ⟨ids,hp,hid⟩ := hc
  exact ((h.uploaders n).selected now ids hp).2 id hid

/-- Two claims that are going on have selected no row in common. -/
theorem Claiming.exclusive (h : s.Claiming settings) {n m : ℕ} {now now' : Time} {id : String}
    (hn : s.Claims n now id) (hm : s.Claims m now' id) : n = m :=
  h.locks id n m (h.linked.locked hn) (h.linked.locked hm)

theorem mem_locks_of_unlock {n m : ℕ} {id : String} (h : (id,m) ∈ s.unlock n) : (id,m) ∈ s.locks :=
  (List.mem_filter.mp h).1

/-- What uploaders other than `n` have selected when `n` locks the rows `ids`. -/
theorem locks_append {locks : Locks} {n : ℕ} {ids : List String}
    (hl : ∀ id n m, (id,n) ∈ locks → (id,m) ∈ locks → n = m)
    (hfree : ∀ id ∈ ids, ∀ l ∈ locks, l.1 ≠ id) :
    ∀ id n' m, (id,n') ∈ locks ++ ids.map (fun id => (id,n)) →
      (id,m) ∈ locks ++ ids.map (fun id => (id,n)) → n' = m := by
  intro id n' m hn hm
  simp only [List.mem_append, List.mem_map, Prod.mk.injEq] at hn hm
  rcases hn with hn | ⟨_,hin,rfl,rfl⟩ <;> rcases hm with hm | ⟨_,him,rfl,rfl⟩
  · exact hl id n' m hn hm
  · exact absurd rfl (hfree _ him _ hn)
  · exact absurd rfl (hfree _ hin _ hm)
  · rfl

/-- Another uploader's claim is untouched where only uploader `n` moves. -/
theorem claims_of_update {n m : ℕ} {u : Uploader} {now : Time} {id : String}
    (ht : t.uploaders = Function.update s.uploaders n u) (hm : m ≠ n) (hc : t.Claims m now id) :
    s.Claims m now id := by
  obtain ⟨ids,hp,hid⟩ := hc
  rw [ht, Function.update_of_ne hm] at hp
  exact ⟨ids,hp,hid⟩

theorem not_claims_of_away {n : ℕ} {u : Uploader} {now : Time} {id : String}
    (ht : t.uploaders = Function.update s.uploaders n u) (hu : u.Away) : ¬ t.Claims n now id := by
  rintro ⟨ids,hp,_⟩
  rw [ht, Function.update_self] at hp
  exact hu.2 now ids hp

/-- A claim of after the step is one of before, or has just selected eligible rows. -/
theorem step_claims (h : step rt settings s a = some t) {n : ℕ} {now : Time} {id : String}
    (hc : t.Claims n now id) : s.Claims n now id ∨
      ((s.uploaders n).phase = .cycle now ∧ t.ledger = s.ledger ∧ ∃ e, s.ledger.getEvent id = some e ∧
        eligible now (settings n).uploadRowRetryAfter (settings n).uploadStaleAfter e = true) := by
  rcases step_uploaders h with ⟨hu,_⟩ | ⟨m,_,hu,_⟩ | ⟨m,tx,reply,_,hcom,hu,_⟩ |
      ⟨m,b,u,_,_,hp,hu,_,hl,_⟩
  · obtain ⟨ids,hp,hid⟩ := hc
    exact Or.inl ⟨ids,hu ▸ hp,hid⟩
  · by_cases hn : n = m
    · subst hn
      exact absurd hc (not_claims_of_away hu Uploader.fresh_away)
    · exact Or.inl (claims_of_update hu hn hc)
  · by_cases hn : n = m
    · subst hn
      exact absurd hc (not_claims_of_away hu (Uploader.committed_away reply hcom.transaction))
    · exact Or.inl (claims_of_update hu hn hc)
  · by_cases hn : n = m
    · subst hn
      rcases Uploader.step_claim hp with ⟨hcycle,_⟩ | ⟨now',ids',_,hcycle,rfl,hsel,_⟩ | ⟨haway,_⟩
      · obtain ⟨ids,hids,_⟩ := hc
        rw [hu, Function.update_self, hcycle] at hids
        cases hids
      · obtain ⟨ids,hids,hid⟩ := hc
        rw [hu, Function.update_self] at hids
        cases hids
        obtain ⟨e,he,helig⟩ := (Option.any_eq_true _ _).mp (hsel.2.2 id hid).1
        exact Or.inr ⟨hcycle,hl,e,he,helig⟩
      · exact absurd hc (not_claims_of_away hu haway)
    · exact Or.inl (claims_of_update hu hn hc)

/-- Nobody writes a row between the SELECT that locked it and the commit of the claim. -/
theorem step_claims_row (hs : s.Linked) (h : step rt settings s a = some t) {n : ℕ} {now : Time}
    {id : String} (hold : s.Claims n now id) (hc : t.Claims n now id) :
    t.ledger.getEvent id = s.ledger.getEvent id := by
  rcases step_ledger h with heq | ⟨who,tx,reply,_,hcom⟩
  · rw [heq]
  · rcases hcom.locks _ (hs.locked hold) with rfl | hsame
    · have hu : t.uploaders = Function.update s.uploaders n ((s.uploaders n).committed (settings n) reply) := by
        rw [hcom.after]
        rfl
      exact absurd hc (not_claims_of_away hu (Uploader.committed_away reply hcom.transaction))
    · exact hsame

theorem step_cycle (h : step rt settings s a = some t)
    (hs : ∀ n now, (s.uploaders n).phase = .cycle now → now ≤ s.clock) {n : ℕ} {now : Time}
    (hc : (t.uploaders n).phase = .cycle now) : now ≤ t.clock := by
  have hclock := step_clock h
  rcases step_uploaders h with ⟨hu,_⟩ | ⟨m,_,hu,_⟩ | ⟨m,tx,reply,_,hcom,hu,_⟩ |
      ⟨m,b,u,_,_,hp,hu,htime,_⟩
  · exact (hs n now (hu ▸ hc)).trans hclock
  · rw [hu, Function.update_apply] at hc
    split at hc
    · exact absurd hc (Uploader.fresh_away.1 now)
    · exact (hs n now hc).trans hclock
  · rw [hu, Function.update_apply] at hc
    split at hc
    · exact absurd hc ((Uploader.committed_away reply hcom.transaction).1 now)
    · exact (hs n now hc).trans hclock
  · rw [hu, Function.update_apply] at hc
    split at hc
    · rcases Uploader.step_claim hp with ⟨hcycle,_⟩ | ⟨now',ids',_,_,rfl,_⟩ | ⟨haway,_⟩
      · rw [hcycle] at hc
        cases hc
        exact hclock
      · cases hc
      · exact absurd hc (haway.1 now)
    · exact (hs n now hc).trans hclock

theorem step_owners (h : step rt settings s a = some t)
    (hs : ∀ id n m, (id,n) ∈ s.locks → (id,m) ∈ s.locks → n = m) :
    ∀ id n m, (id,n) ∈ t.locks → (id,m) ∈ t.locks → n = m := by
  have hunlock (i : ℕ) : ∀ id n m, (id,n) ∈ s.unlock i → (id,m) ∈ s.unlock i → n = m :=
    fun id n m hn hm => hs id n m (mem_locks_of_unlock hn) (mem_locks_of_unlock hm)
  rcases step_uploaders h with ⟨_,hl⟩ | ⟨i,_,_,hl⟩ | ⟨i,tx,reply,_,_,_,hl⟩ | ⟨i,b,u,_,_,hp,_⟩
  · rwa [hl]
  · rw [hl]
    exact hunlock i
  · rw [hl]
    exact hunlock i
  · rcases Uploader.step_claim hp with ⟨_,hl⟩ | ⟨now,ids,_,_,_,hsel,hl⟩ | ⟨_,hl⟩
    · rwa [hl]
    · rw [hl]
      exact locks_append hs fun id hid => (hsel.2.2 id hid).2
    · rwa [hl]

theorem step_claiming (hs : s.Claiming settings) (h : step rt settings s a = some t) :
    t.Claiming settings := by
  refine ⟨step_linked hs.linked h,fun n now hc => step_cycle h hs.cycle hc,fun n now id hc => ?_,
    step_owners h hs.locks⟩
  rcases step_claims h hc with hold | ⟨hcycle,hl,e,he,helig⟩
  · obtain ⟨hle,e,he,helig⟩ := hs.selected n now id hold
    exact ⟨hle.trans (step_clock h),e,(step_claims_row hs.linked h hold hc).trans he,helig⟩
  · exact ⟨(hs.cycle n now hcycle).trans (step_clock h),e,hl ▸ he,helig⟩

theorem run_claiming {db : Ledger} {actions : List Action}
    (h : run rt settings (start db) actions = some s) : s.Claiming settings :=
  Machine.run_inv' (Claiming settings) (fun _ _ _ hs hst => step_claiming hs hst) (start_claiming db) h

/-! ## A claimed row until the next claim -/

/-- The commits of workers and replays leave the row alone. -/
def Spares (settings : ℕ → Settings) (id : String) (s : System) (a : Action) : Prop :=
  match a with
  | .commit who => ∀ tx ∈ s.transaction settings who, tx.Spares id
  | _ => True

instance (id : String) (s : System) : ∀ a, Decidable (Spares settings id s a)
  | .commit who => inferInstanceAs (Decidable (∀ tx ∈ s.transaction settings who, tx.Spares id))
  | .tick _ | .expire _ | .request _ _ | .worker _ _ | .uploader _ _ | .replayer _ _ |
    .reconciler _ _ | .crash _ => isTrue trivial

/-- The step applies a result after which the row is FAILED_RETRYABLE. -/
def AppliesRetryable (rt : Runtime) (settings : ℕ → Settings) (id : String) (s : System) (a : Action) :
    Prop :=
  ∃ who batch loaded rows now t, a = .commit who ∧
    s.transaction settings who = some (.apply batch loaded rows now) ∧ step rt settings s a = some t ∧
    t.status id = some failedRetryable

/-- A transaction other than a claim changes only rows that it acts on. -/
theorem Commits.acts {who : Process} {tx : Transaction} {reply : Reply} (hs : s.Linked)
    (hc : Commits rt settings s t who tx reply) {id : String} {e final : Event} (he : s.ledger.getEvent id = some e)
    (hkey : id ∈ tx.keys) (hchange : tx.Change rt (tx.session.event e) final)
    (hclaim : ∀ st selected now, tx ≠ .claim st selected now) : ∃ x ∈ tx.acted, x.eventId = id := by
  refine ⟨_,Transaction.mem_acted (hs.known hc.transaction) hkey he hchange hclaim,?_⟩
  rw [Session.event_eventId, Ledger.getEvent_eventId he]

/-- A row that was attempted stays so, and becomes FAILED_RETRYABLE by results only. -/
theorem step_attempted (hs : s.Linked) {id : String} (hsp : Spares settings id s a)
    (h : step rt settings s a = some t) {e : Event} (he : s.ledger.getEvent id = some e)
    (ha : e.status.Attempted) : ∃ e', t.ledger.getEvent id = some e' ∧ e'.status.Attempted ∧
      (e'.status = failedRetryable → e.status = failedRetryable ∨
        AppliesRetryable rt settings id s a) := by
  rcases step_ledger h with heq | ⟨who,tx,reply,rfl,hc⟩
  · exact ⟨e,heq ▸ he,ha,Or.inl⟩
  · rcases hc.row hs he with hsame | ⟨hkey,final,hchange,hget⟩
    · exact ⟨e,hsame,ha,Or.inl⟩
    · refine ⟨_,hget,?_⟩
      have hspare := hsp tx hc.transaction
      cases tx with
      | ingest source plan correlationId now => exact hchange.elim
      | process message loaded now | replay letter loaded now =>
        obtain ⟨x,hx,hid⟩ := hc.acts hs he hkey hchange (by simp)
        exact absurd hid (hspare x hx)
      | claim st selected now =>
        have htaken : e.TakenBy st.maxRowAttempts now final := hchange
        have hmerged : Event.merge ((Transaction.claim st selected now).session.event e) final e = final :=
          Event.merge_fresh e final
        rw [hmerged]
        rcases htaken.status with hst | hst <;> simp [hst,Attempted]
      | retry ids loaded reason stamps =>
        rw [Event.Retried.merge_status hchange]
        exact ⟨ha,Or.inl⟩
      | apply batch loaded rows now =>
        rw [Event.Settled.merge_status hchange]
        refine ⟨?_,fun hfr => Or.inr ⟨who,batch,loaded,rows,now,t,rfl,hc.transaction,h,?_⟩⟩
        · have ho := hchange.outcome
          simp only [List.mem_cons, List.not_mem_nil, or_false] at ho
          rcases ho with ho | ho | ho <;> simp [ho,Attempted]
        · rw [status, hget, Option.map_some, Event.Settled.merge_status hchange, hfr]
      | bury batch loaded failure now =>
        rw [Event.Settled.merge_status hchange.1, hchange.2]
        simp [Attempted]

theorem run_attempted {id : String} {actions : List Action} (hs : s.Linked)
    (hsp : Machine.Along (step rt settings) (Spares settings id) s actions)
    (h : run rt settings s actions = some t) {e : Event} (he : s.ledger.getEvent id = some e)
    (ha : e.status.Attempted) : ∃ e', t.ledger.getEvent id = some e' ∧ e'.status.Attempted ∧
      (e'.status = failedRetryable → e.status = failedRetryable ∨ ∃ before a after u,
        actions = before ++ a :: after ∧ run rt settings s before = some u ∧
        AppliesRetryable rt settings id u a) := by
  induction actions generalizing s e with
  | nil =>
    cases h
    exact ⟨e,he,ha,Or.inl⟩
  | cons a rest ih =>
    obtain ⟨m,hm,hrest⟩ := Machine.run_cons.mp h
    obtain ⟨e₁,he₁,ha₁,hfr₁⟩ := step_attempted hs hsp.head hm he ha
    obtain ⟨e₂,he₂,ha₂,hfr₂⟩ := ih (step_linked hs hm) (hsp.tail hm) hrest he₁ ha₁
    refine ⟨e₂,he₂,ha₂,fun hfr => ?_⟩
    rcases hfr₂ hfr with hfr | ⟨before,b,after,u,rfl,hu,happ⟩
    · rcases hfr₁ hfr with hfr | happ
      · exact Or.inl hfr
      · exact Or.inr ⟨[],a,rest,s,rfl,rfl,happ⟩
    · exact Or.inr ⟨a :: before,b,after,u,rfl,Machine.run_cons.mpr ⟨m,hm,hu⟩,happ⟩

/-- A retry between two attempts leaves every committed status as it was. -/
theorem Commits.retry_status {who : Process} {ids : List String} {loaded : List Event} {reason : String}
    {stamps : List Time} {reply : Reply} (hs : s.Linked)
    (hc : Commits rt settings s t who (.retry ids loaded reason stamps) reply) (j : String) :
    t.status j = s.status j := by
  unfold status
  cases hj : s.ledger.getEvent j with
  | none =>
    cases hj' : t.ledger.getEvent j with
    | none => rfl
    | some e =>
      obtain ⟨_,_,_,_,htx,_⟩ := hc.new_row hs hj hj'
      cases htx
  | some e =>
    rcases hc.row hs hj with hsame | ⟨_,final,hchange,hget⟩
    · rw [hsame]
    · rw [hget, Option.map_some, Option.map_some, Event.Retried.merge_status hchange]

/-- What the next claim of a claimed row finds: the row grew stale since its last
attempt, or a result made it FAILED_RETRYABLE and the delay has passed. Claims
that go on at one time share no row, and a retry changes no committed status. -/
theorem run_claims_exclusive (rt : Runtime) (settings : ℕ → Settings) (db : Ledger)
    (before between : List Action) (s t u : System) (n m : ℕ) (now now' : Time) (id : String)
    (hs : run rt settings (start db) before = some s) (hclaim : s.Claims n now id)
    (ht : step rt settings s (.commit (.uploader n)) = some t)
    (hu : run rt settings t between = some u)
    (hsp : Machine.Along (step rt settings) (Spares settings id) t between)
    (hnext : u.Claims m now' id) :
    (∃ e last, u.ledger.getEvent id = some e ∧ e.lastAttemptAt = some last ∧ now' ≤ u.clock ∧
      ((e.status = uploading ∧ last + (settings m).uploadStaleAfter ≤ now') ∨
        (e.status = failedRetryable ∧ last + (settings m).uploadRowRetryAfter ≤ now' ∧
          ∃ pre a post v, between = pre ++ a :: post ∧ run rt settings t pre = some v ∧
            AppliesRetryable rt settings id v a))) ∧
    (∀ k later, u.Claims k later id → k = m) ∧
    ∀ k ids loaded reason stamps v,
      u.transaction settings (.uploader k) = some (.retry ids loaded reason stamps) →
      step rt settings u (.commit (.uploader k)) = some v → ∀ j, v.status j = u.status j := by
  have hclaiming := run_claiming hs
  have hclaiming' : u.Claiming settings :=
    Machine.run_inv' (Claiming settings) (fun _ _ _ hs hst => step_claiming hs hst)
      (step_claiming hclaiming ht) hu
  refine ⟨?_,fun k later hk => hclaiming'.exclusive hk hnext,fun k ids loaded reason stamps v htx hv j => ?_⟩
  · obtain ⟨tx,reply,hc⟩ := step_commit ht
    obtain ⟨_,e₀,he₀,_⟩ := hclaiming.selected n now id hclaim
    obtain ⟨ids,hphase,hid⟩ := hclaim
    have htx : s.transaction settings (.uploader n) = some (.claim (settings n) ids now) := by
      simp only [transaction, Uploader.transaction, hphase]
    obtain rfl := Option.some.inj (htx.symm.trans hc.transaction)
    obtain ⟨e₁,he₁,htaken⟩ := hc.claimed hclaiming.linked hid he₀
    have hstatus := htaken.status
    have hatt : e₁.status.Attempted := by rcases hstatus with h | h <;> simp [h,Attempted]
    have hfresh : e₁.status ≠ failedRetryable := by rcases hstatus with h | h <;> simp [h]
    obtain ⟨e,he,ha,hfr⟩ := run_attempted (step_linked hclaiming.linked ht) hsp hu he₁ hatt
    obtain ⟨hle,e',he',helig⟩ := hclaiming'.selected m now' id hnext
    obtain rfl := Option.some.inj (he.symm.trans he')
    rcases eligible_iff.mp helig with hp | ⟨hst,last,hlast,hdue⟩ | ⟨hst,last,hlast,hdue⟩
    · simp [hp,Attempted] at ha
    · exact ⟨e,last,he,hlast,hle,Or.inr ⟨hst,hdue,(hfr hst).resolve_left hfresh⟩⟩
    · exact ⟨e,last,he,hlast,hle,Or.inl ⟨hst,hdue⟩⟩
  · obtain ⟨tx,reply,hc⟩ := step_commit hv
    obtain rfl := Option.some.inj (htx.symm.trans hc.transaction)
    exact hc.retry_status hclaiming'.linked j

/-- An uploader has selected a processed row. -/
def claimOnce : List Action := uploadOnce.take 8

/-- Ten minutes later another uploader selects it. -/
def reclaim : List Action :=
  [.tick 600000000, .uploader 1 .begin, .uploader 1 (.select ["hubspot:1"])]

/-- The theorem at a claim whose uploader stays away until the row is stale. -/
theorem run_claims_exclusive_reclaim : ∃ (u : System) (e : Event) (last : Time),
    u.ledger.getEvent "hubspot:1" = some e ∧
    e.lastAttemptAt = some last ∧ (600000000 : Time) ≤ u.clock ∧
    (e.status = uploading ∧ last + Settings.single.uploadStaleAfter ≤ 600000000 ∨
      e.status = failedRetryable ∧ last + Settings.single.uploadRowRetryAfter ≤ 600000000) := by
  have hs : (run (clickRuntime 1704067200000) (fun _ => .single) (start Ledger.empty) claimOnce).map
      (fun s => (s.uploaders 0).selection) = some (some (0,["hubspot:1"])) := by decide +kernel
  have ht : (run (clickRuntime 1704067200000) (fun _ => .single) (start Ledger.empty)
      (claimOnce ++ [.commit (.uploader 0)])).isSome = true := by decide +kernel
  have hsp : ∀ t ∈ run (clickRuntime 1704067200000) (fun _ => .single) (start Ledger.empty)
      (claimOnce ++ [.commit (.uploader 0)]), Machine.Along (step (clickRuntime 1704067200000)
        fun _ => .single) (Spares (fun _ => .single) "hubspot:1") t reclaim := by decide +kernel
  have hu : (run (clickRuntime 1704067200000) (fun _ => .single) (start Ledger.empty)
      ((claimOnce ++ [.commit (.uploader 0)]) ++ reclaim)).map (fun u => (u.uploaders 1).selection) =
        some (some (600000000,["hubspot:1"])) := by decide +kernel
  obtain ⟨s,hs,hclaim⟩ := Option.map_eq_some_iff.mp hs
  obtain ⟨u,hu,hnext⟩ := Option.map_eq_some_iff.mp hu
  obtain ⟨t,ht,hbetween⟩ := Machine.run_append.mp hu
  obtain ⟨s',hs',hcommit⟩ := Machine.run_concat.mp ht
  obtain rfl := Option.some.inj (hs.symm.trans hs')
  obtain ⟨⟨e,last,he,hlast,hle,hcases⟩,_⟩ := run_claims_exclusive _ _ _ _ _ _ _ _ 0 1 _ _ _ hs
    (claims_of_selection hclaim (by simp)) hcommit hbetween (hsp t ht) (claims_of_selection hnext (by simp))
  exact ⟨u,e,last,he,hlast,hle,hcases.imp_right fun h => ⟨h.1,h.2.1⟩⟩

end System
end ConversionGateway
