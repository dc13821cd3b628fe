import ConversionGateway.Concurrency.Commits
import ConversionGateway.System.Step

/-! # What the processes hold

Every object in an open transaction was read from a row that is still there and
still describes the same event. This is what makes the lemmas on commits of
stale sessions apply in every reachable state.
-/
namespace ConversionGateway
open Relational

section Local
variable {rt : Runtime} {st : Settings} {clock : Time} {db : Ledger}

theorem Worker.step_rows {w w' : Worker} {q q' : MessageQueue} {a : WorkerAction}
    (h : w.step clock db q a = some (w',q')) {e : Event} (he : e ∈ w'.rows) :
    e ∈ w.rows ∨ db.getEvent e.eventId = some e := by
  unfold step at h
  split at h
  · obtain ⟨p,_,hp⟩ := Option.map_eq_some_iff.mp h
    cases hp
    cases he
  · cases h
    cases he
  · cases h
    exact Or.inr (getEvent_self (Option.mem_toList.mp he))
  all_goals cases h <;> cases he

theorem Worker.mem_committed_rows {w : Worker} {e : Event} (he : e ∈ w.committed.rows) : e ∈ w.rows := by
  cases w with
  | loaded id message row now => cases he
  | _ => exact he

theorem Replayer.step_rows {r r' : Replayer} {q q' : MessageQueue} {a : ReplayerAction}
    (h : r.step db q a = some (r',q')) {e : Event} (he : e ∈ r'.rows) :
    e ∈ r.rows ∨ db.getEvent e.eventId = some e := by
  unfold step at h
  split at h
  · obtain ⟨p,_,hp⟩ := Option.map_eq_some_iff.mp h
    cases hp
    cases he
  · cases h
    exact Or.inr (getEvent_self (Option.mem_toList.mp he))
  · obtain ⟨p,_,hp⟩ := Option.map_eq_some_iff.mp h
    cases hp
    exact Or.inl he
  · cases h

theorem Replayer.step_letters {r r' : Replayer} {q q' : MessageQueue} {a : ReplayerAction}
    (h : r.step db q a = some (r',q')) {d : DeadLetter} (hd : d ∈ r'.letters) :
    d ∈ r.letters ∨ db.getDeadLetter d.id = some d := by
  unfold step at h
  split at h
  · obtain ⟨letter,hl,hp⟩ := Option.map_eq_some_iff.mp h
    cases hp
    obtain rfl := List.mem_singleton.mp hd
    refine Or.inr ?_
    rwa [Journal.get_serial hl]
  · cases h
    exact Or.inl hd
  · obtain ⟨p,_,hp⟩ := Option.map_eq_some_iff.mp h
    cases hp
    exact Or.inl hd
  · cases h

/-- The record and the event of a replay belong together. -/
def Replayer.Paired (r : Replayer) : Prop := ∀ d ∈ r.letters, ∀ e ∈ r.rows, d.eventId = e.eventId

theorem Replayer.step_paired {r r' : Replayer} {q q' : MessageQueue} {a : ReplayerAction}
    (h : r.step db q a = some (r',q')) (hr : r.Paired) : r'.Paired := by
  unfold step at h
  split at h
  · obtain ⟨letter,_,hp⟩ := Option.map_eq_some_iff.mp h
    cases hp
    intro d _ e he
    cases he
  · cases h
    intro d hd e he
    obtain rfl := List.mem_singleton.mp hd
    exact (Ledger.getEvent_eventId (Option.mem_toList.mp he)).symm
  · obtain ⟨p,_,hp⟩ := Option.map_eq_some_iff.mp h
    cases hp
    exact hr
  · cases h

theorem Uploader.withClaim_rows (u : Uploader) (items : List Claimed) (now : Time) :
    (u.withClaim st items now).rows = [] := by
  unfold withClaim
  split <;> rfl

theorem Uploader.step_rows {u u' : Uploader} {n : ℕ} {locks locks' : Locks} {sent : Option (List Json)}
    {a : UploaderAction} (h : u.step st n clock db locks a = some (u',locks',sent)) {e : Event}
    (he : e ∈ u'.rows) : e ∈ u.rows ∨ db.getEvent e.eventId = some e := by
  have hread {id : String} (hm : e ∈ (db.getEvent id).toList) : db.getEvent e.eventId = some e :=
    getEvent_self (Option.mem_toList.mp hm)
  cases a with
  | load =>
    simp only [step] at h
    split at h
    · next hp =>
      cases h
      rcases List.mem_append.mp he with he | he
      · exact Or.inl (by simpa [rows,hp] using he)
      · exact Or.inr (hread he)
    · next hp =>
      cases h
      rcases List.mem_append.mp he with he | he
      · exact Or.inl (by simpa [rows,hp] using he)
      · exact Or.inr (hread he)
    · cases h
  | stamp =>
    simp only [step] at h
    split at h
    · next hp =>
      split at h
      · cases h
        exact Or.inl (by simpa [rows,hp] using he)
      · cases h
    · cases h
  | skip =>
    simp only [step] at h
    split at h
    · split at h
      · cases h
        rw [withClaim_rows] at he
        cases he
      · cases h
    · cases h
  | begin | select ids | send | finish outcome | retry reason =>
    simp only [step] at h
    split at h
    · first
        | (cases h; cases he)
        | (split at h <;> cases h; cases he)
    · cases h

/-- The ids that the open transaction has read or is about to read. -/
def Uploader.reads (u : Uploader) : List String :=
  match u.phase with
  | .retrying _ _ _ _ loaded pending _ => loaded.map Event.eventId ++ pending
  | .settling _ _ _ loaded pending => loaded.map Event.eventId ++ pending
  | _ => []

/-- Reads go through distinct ids, and selected rows are locked. -/
structure Uploader.Orderly (u : Uploader) (n : ℕ) (locks : Locks) : Prop where
  reads : u.reads.Nodup
  selected : ∀ now ids, u.phase = .selected now ids → ids.Nodup ∧ ∀ id ∈ ids, (id,n) ∈ locks

theorem nodup_eraseDups (ids : List String) : ids.eraseDups.Nodup := by
  induction h : ids.length using Nat.strong_induction_on generalizing ids with
  | _ n ih =>
    cases ids with
    | nil => exact List.nodup_nil
    | cons id rest =>
      rw [List.eraseDups_cons, List.nodup_cons]
      refine ⟨by simp [List.mem_eraseDups],ih _ ?_ _ rfl⟩
      rw [← h, List.length_cons]
      exact Nat.lt_succ_of_le (List.length_filter_le _ _)

theorem nodup_read {loaded : List Event} {id : String} {pending : List String}
    (h : (loaded.map Event.eventId ++ id :: pending).Nodup) :
    ((loaded ++ (db.getEvent id).toList).map Event.eventId ++ pending).Nodup := by
  cases hg : db.getEvent id with
  | none =>
    refine h.sublist ?_
    simp
  | some e => simpa [Ledger.getEvent_eventId hg] using h

theorem Uploader.withClaim_orderly (u : Uploader) (items : List Claimed) (now : Time) (n : ℕ)
    (locks : Locks) : (u.withClaim st items now).Orderly n locks := by
  unfold withClaim
  split <;> exact ⟨List.nodup_nil,by rintro _ _ ⟨⟩⟩

theorem Uploader.step_orderly {u u' : Uploader} {n : ℕ} {locks locks' : Locks}
    {sent : Option (List Json)} {a : UploaderAction}
    (h : u.step st n clock db locks a = some (u',locks',sent)) (hu : u.Orderly n locks) :
    u'.Orderly n locks' := by
  have hreads := hu.reads
  cases a with
  | load =>
    simp only [step] at h
    split at h
    · next hp =>
      cases h
      simp only [Uploader.reads, hp] at hreads
      exact ⟨nodup_read hreads,by rintro _ _ ⟨⟩⟩
    · next hp =>
      cases h
      simp only [Uploader.reads, hp] at hreads
      exact ⟨nodup_read hreads,by rintro _ _ ⟨⟩⟩
    · cases h
  | stamp =>
    simp only [step] at h
    split at h
    · next hp =>
      split at h
      · cases h
        simp only [Uploader.reads, hp] at hreads
        exact ⟨hreads,by rintro _ _ ⟨⟩⟩
      · cases h
    · cases h
  | skip =>
    simp only [step] at h
    split at h
    · split at h
      · cases h
        exact withClaim_orderly u [] _ n _
      · cases h
    · cases h
  | select ids =>
    simp only [step] at h
    split at h
    · split at h
      · next hs =>
        cases h
        refine ⟨List.nodup_nil,?_⟩
        rintro _ _ ⟨⟩
        exact ⟨hs.2.1,fun id hid => List.mem_append_right _ (List.mem_map.mpr ⟨id,hid,rfl⟩)⟩
      · cases h
    · cases h
  | begin | send =>
    simp only [step] at h
    split at h
    · cases h
      exact ⟨List.nodup_nil,by rintro _ _ ⟨⟩⟩
    · cases h
  | finish outcome =>
    simp only [step] at h
    split at h
    · cases h
      exact ⟨by simpa [Uploader.reads] using nodup_eraseDups _,by rintro _ _ ⟨⟩⟩
    · cases h
  | retry reason =>
    simp only [step] at h
    split at h
    · split at h
      · cases h
        exact ⟨by simpa [Uploader.reads] using nodup_eraseDups _,by rintro _ _ ⟨⟩⟩
      · cases h
    · cases h

/-- A local step gives up no lock. -/
theorem Uploader.step_locks {u u' : Uploader} {n : ℕ} {locks locks' : Locks} {sent : Option (List Json)}
    {a : UploaderAction} (h : u.step st n clock db locks a = some (u',locks',sent)) :
    ∀ l ∈ locks, l ∈ locks' := by
  intro l hl
  cases a with
  | select ids =>
    simp only [step] at h
    split at h
    · split at h
      · cases h
        exact List.mem_append_left _ hl
      · cases h
    · cases h
  | load =>
    simp only [step] at h
    split at h
    · cases h
      exact hl
    · cases h
      exact hl
    · cases h
  | begin | skip | send | finish outcome | retry reason | stamp =>
    simp only [step] at h
    split at h
    · first
        | (cases h; exact hl)
        | (split at h <;> cases h; exact hl)
    · cases h

theorem Uploader.Orderly.mono {u : Uploader} {n : ℕ} {locks locks' : Locks} (h : u.Orderly n locks)
    (hl : ∀ id, (id,n) ∈ locks → (id,n) ∈ locks') : u.Orderly n locks' :=
  ⟨h.reads,fun now ids hp => ⟨(h.selected now ids hp).1,fun id hid => hl id ((h.selected now ids hp).2 id hid)⟩⟩

theorem Uploader.fresh_orderly (n : ℕ) (locks : Locks) : Uploader.fresh.Orderly n locks :=
  ⟨List.nodup_nil,by rintro _ _ ⟨⟩⟩

/-- The transaction of an uploader, by its phase. -/
theorem Uploader.transaction_cases {u : Uploader} {tx : Transaction} (h : u.transaction st = some tx) :
    (∃ now ids, u.phase = .selected now ids ∧ tx = .claim st ids now) ∨
    (∃ now batch attempt reason loaded stamps,
      u.phase = .retrying now batch attempt reason loaded [] stamps ∧
      stamps.length = (found (batchIds batch) loaded).length ∧
      tx = .retry (batchIds batch) loaded reason stamps) ∨
    (∃ now batch rows loaded, u.phase = .settling now batch (.rows rows) loaded [] ∧
      tx = .apply batch loaded rows now) ∨
    ∃ now batch failure loaded, u.phase = .settling now batch (.failure failure) loaded [] ∧
      tx = .bury batch loaded failure now := by
  unfold transaction at h
  split at h
  · next now ids hp =>
    cases h
    exact Or.inl ⟨now,ids,hp,rfl⟩
  · next now batch attempt reason loaded stamps hp =>
    split at h
    · next hlen =>
      cases h
      exact Or.inr (Or.inl ⟨now,batch,attempt,reason,loaded,stamps,hp,hlen,rfl⟩)
    · cases h
  · next now batch rows loaded hp =>
    cases h
    exact Or.inr (Or.inr (Or.inl ⟨now,batch,rows,loaded,hp,rfl⟩))
  · next now batch failure loaded hp =>
    cases h
    exact Or.inr (Or.inr (Or.inr ⟨now,batch,failure,loaded,hp,rfl⟩))
  · cases h

/-- What an uploader is after its commit: idle, or about to send. -/
theorem Uploader.committed_cases {u : Uploader} {tx : Transaction} (reply : Reply)
    (h : u.transaction st = some tx) :
    (∃ items now, u.committed st reply = u.withClaim st items now) ∨
      ∃ now batch attempt, u.committed st reply = ⟨u.batcher,.ready now batch attempt⟩ ∨
        u.committed st reply = ⟨u.batcher,.idle⟩ := by
  rcases transaction_cases h with ⟨now,ids,hp,_⟩ | ⟨now,batch,attempt,_,_,_,hp,_,_⟩ | ⟨_,_,_,_,hp,_⟩ | ⟨_,_,_,_,hp,_⟩
  · exact Or.inl ⟨reply.items,now,by simp only [committed, hp]⟩
  · exact Or.inr ⟨now,batch,attempt + 1,Or.inl (by simp only [committed, hp])⟩
  · exact Or.inr ⟨0,[],0,Or.inr (by simp only [committed, hp])⟩
  · exact Or.inr ⟨0,[],0,Or.inr (by simp only [committed, hp])⟩

theorem Uploader.committed_rows {u : Uploader} {tx : Transaction} (reply : Reply)
    (h : u.transaction st = some tx) : (u.committed st reply).rows = [] := by
  rcases committed_cases reply h with ⟨_,_,h⟩ | ⟨_,_,_,h | h⟩ <;> rw [h]
  · exact withClaim_rows u _ _
  · rfl
  · rfl

theorem Uploader.committed_orderly {u : Uploader} {tx : Transaction} (reply : Reply) (n : ℕ)
    (locks : Locks) (h : u.transaction st = some tx) : (u.committed st reply).Orderly n locks := by
  rcases committed_cases reply h with ⟨_,_,h⟩ | ⟨_,_,_,h | h⟩ <;> rw [h]
  · exact withClaim_orderly u _ _ n locks
  · exact ⟨List.nodup_nil,by rintro _ _ ⟨⟩⟩
  · exact ⟨List.nodup_nil,by rintro _ _ ⟨⟩⟩

end Local

namespace System
variable {rt : Runtime} {settings : ℕ → Settings} {s t : System} {a : Action}

/-- The event objects of a process's open transaction. -/
def rows (s : System) : Process → List Event
  | .worker n => (s.workers n).rows
  | .uploader n => (s.uploaders n).rows
  | .replayer n => (s.replayers n).rows
  | _ => []

/-- The dead-letter objects of a process's open transaction. -/
def letters (s : System) : Process → List DeadLetter
  | .replayer n => (s.replayers n).letters
  | _ => []

/-- A commit leaves the objects of the other processes alone. -/
theorem committed_other (db : Ledger) (reply : Reply) {who other : Process} (h : other ≠ who) :
    (s.committed settings db reply who).rows other = s.rows other := by
  cases who <;> cases other <;> simp_all [committed,rows]

/-- An object of an open transaction was there before or has just been read. -/
theorem step_rows (h : step rt settings s a = some t) {who : Process} {e : Event} (he : e ∈ t.rows who) :
    e ∈ s.rows who ∨ s.ledger.getEvent e.eventId = some e := by
  cases who with
  | request n | reconciler n => exact Or.inl he
  | worker n =>
    have he : e ∈ (t.workers n).rows := he
    rcases step_worker h n with hw | ⟨b,q,_,hstep⟩ | hw | hw
    · rw [hw] at he
      exact Or.inl he
    · exact Worker.step_rows hstep he
    · exact Or.inl (Worker.mem_committed_rows (hw ▸ he))
    · rw [hw] at he
      cases he
  | uploader n =>
    have he : e ∈ (t.uploaders n).rows := he
    rcases step_uploader h n with hu | ⟨b,sent,_,hstep⟩ | ⟨tx,reply,hc,hu⟩ | hu
    · rw [hu] at he
      exact Or.inl he
    · exact Uploader.step_rows hstep he
    · rw [hu, Uploader.committed_rows reply hc.transaction] at he
      cases he
    · rw [hu] at he
      cases he
  | replayer n =>
    have he : e ∈ (t.replayers n).rows := he
    rcases step_replayer h n with hr | ⟨b,q,_,hstep⟩ | hr
    · rw [hr] at he
      exact Or.inl he
    · exact Replayer.step_rows hstep he
    · rw [hr] at he
      cases he

theorem step_letters (h : step rt settings s a = some t) {who : Process} {d : DeadLetter}
    (hd : d ∈ t.letters who) : d ∈ s.letters who ∨ s.ledger.getDeadLetter d.id = some d := by
  cases who with
  | request n | worker n | uploader n | reconciler n => exact Or.inl hd
  | replayer n =>
    have hd : d ∈ (t.replayers n).letters := hd
    rcases step_replayer h n with hr | ⟨b,q,_,hstep⟩ | hr
    · rw [hr] at hd
      exact Or.inl hd
    · exact Replayer.step_letters hstep hd
    · rw [hr] at hd
      cases hd

theorem step_paired (h : step rt settings s a = some t) (hs : ∀ n, (s.replayers n).Paired) (n : ℕ) :
    (t.replayers n).Paired := by
  rcases step_replayer h n with hr | ⟨b,q,_,hstep⟩ | hr
  · rw [hr]
    exact hs n
  · exact Replayer.step_paired hstep (hs n)
  · rw [hr]
    intro d hd
    cases hd

theorem mem_unlock {n m : ℕ} {id : String} (h : (id,m) ∈ s.locks) (hm : m ≠ n) : (id,m) ∈ s.unlock n := by
  simp [unlock,h,hm]

theorem step_orderly (h : step rt settings s a = some t)
    (hs : ∀ n, (s.uploaders n).Orderly n s.locks) (n : ℕ) : (t.uploaders n).Orderly n t.locks := by
  rcases step_uploaders h with ⟨hu,hl⟩ | ⟨m,_,hu,hl⟩ | ⟨m,tx,reply,_,hc,hu,hl⟩ | ⟨m,b,u,_,_,hp,hu,_⟩
  · rw [hu, hl]
    exact hs n
  · rw [hu, hl, Function.update_apply]
    split
    · next hn => exact Uploader.fresh_orderly n _
    · next hn => exact (hs n).mono fun id hid => mem_unlock hid hn
  · rw [hu, hl, Function.update_apply]
    split
    · next hn =>
      subst hn
      exact Uploader.committed_orderly reply n _ hc.transaction
    · next hn => exact (hs n).mono fun id hid => mem_unlock hid hn
  · rw [hu, Function.update_apply]
    split
    · next hn =>
      subst hn
      exact Uploader.step_orderly hp (hs n)
    · exact (hs n).mono fun id hid => Uploader.step_locks hp _ hid

/-- Every object held by a process belongs to a row that is there. -/
structure Linked (s : System) : Prop where
  rows : ∀ who, ∀ e ∈ s.rows who, ∃ current, s.ledger.getEvent e.eventId = some current ∧
    current.identity = e.identity
  letters : ∀ who, ∀ d ∈ s.letters who, (s.ledger.getDeadLetter d.id).isSome
  uploaders : ∀ n, (s.uploaders n).Orderly n s.locks
  replayers : ∀ n, (s.replayers n).Paired

theorem start_linked (db : Ledger) : (start db).Linked := by
  refine ⟨fun who e he => ?_,fun who d hd => ?_,fun n => Uploader.fresh_orderly n [],fun n d hd => ?_⟩
  · cases who <;> simp [System.rows,start,Worker.rows,Uploader.rows,Uploader.fresh,Replayer.rows] at he
  · cases who <;> simp [System.letters,start,Replayer.letters] at hd
  · simp [start,Replayer.letters] at hd

/-- The session of a pending transaction is what its process holds. -/
theorem transaction_session {who : Process} {tx : Transaction} (h : s.transaction settings who = some tx) :
    tx.session.events = s.rows who ∧ tx.session.deadLetters = s.letters who := by
  cases who with
  | reconciler n => cases h
  | request n =>
    simp only [transaction, Request.transaction] at h
    split at h
    · cases h
      exact ⟨rfl,rfl⟩
    · cases h
  | worker n =>
    simp only [transaction, Worker.transaction] at h
    split at h
    · next hw =>
      cases h
      simp [Transaction.session,System.rows,System.letters,hw,Worker.rows]
    · cases h
  | uploader n =>
    rcases Uploader.transaction_cases h with ⟨_,_,hp,rfl⟩ | ⟨_,_,_,_,_,_,hp,_,rfl⟩ | ⟨_,_,_,_,hp,rfl⟩ | ⟨_,_,_,_,hp,rfl⟩ <;>
      simp [Transaction.session,Session.empty,System.rows,System.letters,hp,Uploader.rows]
  | replayer n =>
    simp only [transaction, Replayer.transaction] at h
    split at h
    · next hr =>
      split at h
      · cases h
        simp [Transaction.session,System.rows,System.letters,hr,Replayer.rows,Replayer.letters]
      · cases h
    · next hr =>
      cases h
      simp [Transaction.session,System.rows,System.letters,hr,Replayer.rows,Replayer.letters]
    · cases h

theorem Linked.rows_nodup (h : s.Linked) (who : Process) :
    ((s.rows who).map Event.eventId).Nodup := by
  have hone (row : Option Event) : (row.toList.map Event.eventId).Nodup := by cases row <;> simp
  cases who with
  | request n | reconciler n => exact List.nodup_nil
  | worker n =>
    simp only [System.rows, Worker.rows]
    split
    · exact hone _
    · exact List.nodup_nil
  | replayer n =>
    simp only [System.rows, Replayer.rows]
    split
    · exact hone _
    · exact hone _
    · exact List.nodup_nil
  | uploader n =>
    have hr := (h.uploaders n).reads
    simp only [System.rows, Uploader.rows]
    simp only [Uploader.reads] at hr
    split
    · next hp =>
      rw [hp] at hr
      exact hr.of_append_left
    · next hp =>
      rw [hp] at hr
      exact hr.of_append_left
    · exact List.nodup_nil

theorem Linked.known (h : s.Linked) {who : Process} {tx : Transaction}
    (ht : s.transaction settings who = some tx) : tx.session.Known s.ledger := by
  obtain ⟨he,hd⟩ := transaction_session ht
  refine ⟨fun e hm => h.rows who e (he ▸ hm),he ▸ h.rows_nodup who,fun d hm => ?_,?_⟩
  · exact Option.isSome_iff_exists.mp (h.letters who d (hd ▸ hm))
  · rw [hd]
    cases who with
    | replayer n =>
      simp only [System.letters, Replayer.letters]
      split <;> simp
    | _ => exact List.nodup_nil

theorem Linked.keys_nodup (h : s.Linked) {who : Process} {tx : Transaction}
    (ht : s.transaction settings who = some tx) : tx.keys.Nodup := by
  have hsession : (tx.session.events.map Event.eventId).Nodup :=
    (transaction_session ht).1 ▸ h.rows_nodup who
  cases tx with
  | claim st selected now =>
    cases who with
    | uploader n =>
      rcases Uploader.transaction_cases ht with ⟨_,_,hp,heq⟩ | ⟨_,_,_,_,_,_,_,_,heq⟩ | ⟨_,_,_,_,_,heq⟩ | ⟨_,_,_,_,_,heq⟩ <;>
        cases heq
      exact ((h.uploaders n).selected _ _ hp).1
    | reconciler n => cases ht
    | request n =>
      simp only [transaction, Request.transaction] at ht
      split at ht <;> cases ht
    | worker n =>
      simp only [transaction, Worker.transaction] at ht
      split at ht <;> cases ht
    | replayer n =>
      simp only [transaction, Replayer.transaction] at ht
      split at ht
      · split at ht <;> cases ht
      · cases ht
      · cases ht
  | _ => exact hsession

theorem Linked.paired (h : s.Linked) {who : Process} {tx : Transaction}
    (ht : s.transaction settings who = some tx) : tx.Paired := by
  obtain ⟨he,hd⟩ := transaction_session ht
  cases tx with
  | replay letter loaded now =>
    intro e hm
    cases who with
    | replayer n =>
      refine h.replayers n letter ?_ e ?_
      · have hl : letter ∈ s.letters (.replayer n) := hd ▸ List.mem_singleton_self letter
        exact hl
      · have hr : e ∈ s.rows (.replayer n) := he ▸ Option.mem_toList.mpr hm
        exact hr
    | _ =>
      simp [Transaction.session,System.letters] at hd
  | _ => trivial

/-- The links hold in every reachable state. -/
theorem step_linked (hs : s.Linked) (h : step rt settings s a = some t) : t.Linked := by
  have hkept : (∀ k current, s.ledger.getEvent k = some current →
      ∃ current', t.ledger.getEvent k = some current' ∧ current'.identity = current.identity) ∧
      ∀ id, (s.ledger.getDeadLetter id).isSome → (t.ledger.getDeadLetter id).isSome := by
    rcases step_ledger h with heq | ⟨who,tx,reply,_,hc⟩
    · rw [heq]
      exact ⟨fun k current hk => ⟨current,hk,rfl⟩,fun _ hd => hd⟩
    · have hk := hs.known hc.transaction
      have hp := hs.paired hc.transaction
      exact ⟨fun k current hcur => Transaction.commit_identity hk hp hc.commit hcur,
        fun id hd => Transaction.commit_keeps_letter hk hp hc.commit hd⟩
  refine ⟨fun who e he => ?_,fun who d hd => ?_,step_orderly h hs.uploaders,step_paired h hs.replayers⟩
  · have hread : ∃ current, s.ledger.getEvent e.eventId = some current ∧
        current.identity = e.identity := by
      rcases step_rows h he with he | he
      · exact hs.rows who e he
      · exact ⟨e,he,rfl⟩
    obtain ⟨current,hcur,hid⟩ := hread
    obtain ⟨current',hcur',hid'⟩ := hkept.1 _ current hcur
    exact ⟨current',hcur',hid'.trans hid⟩
  · rcases step_letters h hd with hd | hd
    · exact hkept.2 _ (hs.letters who d hd)
    · exact hkept.2 _ (by rw [hd]; rfl)

/-- A property of rows that edits keep and that merged rows inherit holds of all
rows and of all objects held. -/
theorem step_forall {P : Event → Prop} (hnew : ∀ e, e.Created → P e)
    (hedit : ∀ e x, RowEdit rt e x → P e → P x)
    (hmerge : ∀ base final current, P final → P current → final.identity = current.identity →
      P (Event.merge base final current))
    (hs : s.Linked) (h : step rt settings s a = some t)
    (hP : (∀ k e, s.ledger.getEvent k = some e → P e) ∧ ∀ who, ∀ e ∈ s.rows who, P e) :
    (∀ k e, t.ledger.getEvent k = some e → P e) ∧ ∀ who, ∀ e ∈ t.rows who, P e := by
  refine ⟨?_,fun who e he => ?_⟩
  · rcases step_ledger h with heq | ⟨who,tx,reply,_,hc⟩
    · rw [heq]
      exact hP.1
    · refine Transaction.commit_forall hnew hedit hmerge (hs.known hc.transaction)
        (hs.paired hc.transaction) hc.commit hP.1 fun e he => ?_
      exact hP.2 who e ((transaction_session hc.transaction).1 ▸ he)
  · rcases step_rows h he with he | he
    · exact hP.2 who e he
    · exact hP.1 _ e he

end System
end ConversionGateway
