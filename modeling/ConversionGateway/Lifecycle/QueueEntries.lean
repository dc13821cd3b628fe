import ConversionGateway.Lifecycle.DeadLetterHistory

/-! # Entries into the queue

An event enters QUEUED with its ingest and with every replay. The trail says when;
the row itself keeps just the time of the ingest.
-/
namespace ConversionGateway
open Relational Relation EventStatus

/-- The latest transition of an event into QUEUED. -/
def Ledger.lastEntry (db : Ledger) (k : String) : Option EventTransition :=
  ((db.listTransitions k).filter fun t => t.toStatus = queued).getLast?

/-- The trail has an entry into QUEUED. -/
def Ledger.HasEntry (db : Ledger) (k : String) : Prop := ∃ t ∈ db.listTransitions k, t.toStatus = queued

/-- The event is past its ingest. -/
def Event.AtRest (e : Event) : Prop := e.status ≠ received ∧ e.status ≠ validated

/-- The trails grow, by no entry into QUEUED that is not a replay. -/
def Ledger.Requeues (db db' : Ledger) : Prop :=
  ∀ k, ∃ new, db'.listTransitions k = db.listTransitions k ++ new ∧ ∀ t ∈ new, t.toStatus = queued → t.IsReplay

section Entries
variable {rt : Runtime} {db db' out : Ledger} {e e' : Event} {k : String} {now : Time}

theorem Ledger.lastEntry_some {t : EventTransition} (h : db.lastEntry k = some t) :
    t ∈ db.listTransitions k ∧ t.toStatus = queued := by
  have hmem := List.mem_filter.mp (List.mem_of_getLast? h)
  exact ⟨hmem.1,by simpa using hmem.2⟩

theorem Ledger.HasEntry.last (h : db.HasEntry k) : ∃ t, db.lastEntry k = some t := by
  obtain ⟨t,ht,hto⟩ := h
  have hmem : t ∈ (db.listTransitions k).filter fun t => t.toStatus = queued :=
    List.mem_filter.mpr ⟨ht,by simpa using hto⟩
  exact ⟨_,List.getLast?_eq_some_getLast (List.ne_nil_of_mem hmem)⟩

theorem Ledger.HasEntry.mono {new : List EventTransition} (h : db.HasEntry k)
    (hnew : db'.listTransitions k = db.listTransitions k ++ new) : db'.HasEntry k := by
  obtain ⟨t,ht,hto⟩ := h
  exact ⟨t,hnew ▸ List.mem_append_left new ht,hto⟩

/-! ## A QUEUED row has an entry -/

/-- Every QUEUED row has an entry in its trail, and every trail its row. -/
structure Ledger.Entered (db : Ledger) : Prop where
  entry : ∀ k e, db.getEvent k = some e → e.status = queued → db.HasEntry k
  orphan : ∀ k, db.getEvent k = none → db.listTransitions k = []

theorem Ledger.Entered.record (h : db.Entered) (he : db.getEvent e.eventId = some e)
    (hk : e'.eventId = e.eventId) (reason : Option String) (now : Time) :
    (db.record e e' reason now).Entered := by
  have htrail (k : String) : (db.record e e' reason now).listTransitions k = db.listTransitions k ++
      if e.eventId = k then [⟨db.transitions.next,e.eventId,some e.status,e'.status,reason,now⟩] else [] :=
    Ledger.record_listTransitions k
  constructor
  · intro k x hx hq
    rw [Ledger.record_getEvent he hk] at hx
    split at hx
    · next heq =>
      cases hx
      subst heq
      refine ⟨⟨db.transitions.next,e.eventId,some e.status,e'.status,reason,now⟩,?_,hq⟩
      rw [htrail, if_pos rfl]
      simp
    · exact (h.entry k x hx hq).mono (htrail k)
  · intro k hx
    rw [Ledger.record_getEvent he hk] at hx
    split at hx
    · cases hx
    · next hne =>
      rw [htrail, if_neg (Ne.symm hne), List.append_nil]
      exact h.orphan k hx

theorem Ledger.Entered.put (h : db.Entered) (he : db.getEvent e.eventId = some e)
    (hk : e'.eventId = e.eventId) (hs : e'.status = e.status) : (db.putEvent e').Entered := by
  constructor
  · intro k x hx hq
    rw [Ledger.putEvent_getEvent he hk] at hx
    split at hx
    · next heq =>
      cases hx
      subst heq
      exact h.entry _ e he (hs.symm.trans hq)
    · exact h.entry k x hx hq
  · intro k hx
    rw [Ledger.putEvent_getEvent he hk] at hx
    split at hx
    · cases hx
    · exact h.orphan k hx

theorem Ledger.Entered.enter (h : db.Entered) (hnew : db.events.get e.eventId = none)
    (hs : e.status ≠ queued) (now : Time) : (db.enter e hnew now).Entered := by
  constructor
  · intro k x hx hq
    rw [Ledger.enter_getEvent] at hx
    split at hx
    · cases hx
      exact absurd hq hs
    · exact (h.entry k x hx hq).mono (Ledger.enter_listTransitions now hnew k)
  · intro k hx
    rw [Ledger.enter_getEvent] at hx
    split at hx
    · cases hx
    · next hne =>
      rw [Ledger.enter_listTransitions, if_neg (Ne.symm hne), List.append_nil]
      exact h.orphan k hx

/-- Only the statuses of the rows and the trails matter. -/
theorem Ledger.Entered.congr (h : db.Entered) (hk : ∀ k, db'.getEvent k = none → db.getEvent k = none)
    (he : ∀ k e, db'.getEvent k = some e → e.status = queued → db.HasEntry k)
    (ht : ∀ k, db'.listTransitions k = db.listTransitions k) : db'.Entered := by
  constructor
  · intro k e hx hq
    obtain ⟨t,hmem,hto⟩ := he k e hx hq
    exact ⟨t,ht k ▸ hmem,hto⟩
  · intro k hx
    rw [ht]
    exact h.orphan k (hk k hx)

theorem Ledger.Entered.edit (h : db.Entered) (he : Edit rt db db') : db'.Entered := by
  cases he with
  | create hnew hc now => exact h.enter hnew (by simp [hc.status]) now
  | label he c => exact h.put he rfl rfl
  | move he hm reason now => exact h.record he (by rfl) reason now
  | process he hq hg hm now => exact h.record he (by rfl) none now
  | attempt he ha now => exact h.record he (by rfl) none now
  | reclaim he hu now => exact h.record he (by rfl) reclaimedStale now
  | @bury e reason now letter he ha hid hl =>
    have hrecord : (db.record e (e.moved .deadLettered (some reason)) (some reason) now).Entered :=
      h.record he (by rfl) (some reason) now
    exact ⟨hrecord.entry,hrecord.orphan⟩
  | @revive e letter he hd hl hk ho now =>
    have hrecord : (db.record e (e.requeued letter) (some (replayedReason letter.id)) now).Entered :=
      h.record he (by rfl) (some (replayedReason letter.id)) now
    exact ⟨hrecord.entry,hrecord.orphan⟩
  | skip n m => exact ⟨h.entry,h.orphan⟩

/-! ## Entries without an ingest -/

theorem RowEdit.atRest {x : Event} (h : RowEdit rt e x) (he : e.AtRest) : x.AtRest := by
  have hmoved {dest : EventStatus} (ha : dest ∈ e.status.allowedTransitions) :
      dest ≠ received ∧ dest ≠ validated := by
    obtain ⟨hr,hv⟩ := he
    cases hs : e.status <;> rw [hs] at ha hr hv <;> simp [allowedTransitions] at ha hr hv ⊢
    all_goals rcases ha with rfl | rfl | rfl | rfl <;> simp
  cases h with
  | label c => exact he
  | move hm reason => exact hmoved hm.allowed
  | process hq hg hm => simp [Event.AtRest,Event.processedWith,Event.moved]
  | attempt ha now => exact hmoved ha
  | reclaim hu now => exact he
  | bury ha reason => exact hmoved ha
  | revive hd letter => simp [Event.AtRest,Event.requeued,Event.moved]

theorem Ledger.Requeues.refl (db : Ledger) : db.Requeues db := by
  intro k
  exact ⟨[],(List.append_nil _).symm,by simp⟩

theorem Ledger.Requeues.trans (h : db.Requeues db') (h' : db'.Requeues out) : db.Requeues out := by
  intro k
  obtain ⟨new,heq,hnew⟩ := h k
  obtain ⟨new',heq',hnew'⟩ := h' k
  refine ⟨new ++ new',by rw [heq', heq, List.append_assoc],?_⟩
  intro t ht
  rcases List.mem_append.mp ht with ht | ht
  · exact hnew t ht
  · exact hnew' t ht

theorem Ledger.requeues_record (reason : Option String) (now : Time)
    (hq : e'.status = queued → e.status = deadLettered) : db.Requeues (db.record e e' reason now) := by
  intro k
  refine ⟨_,Ledger.record_listTransitions k,?_⟩
  intro t ht hto
  split at ht
  · obtain rfl := List.mem_singleton.mp ht
    exact ⟨congrArg some (hq hto),hto⟩
  · cases ht

/-- An edit of an event at rest: an entry into QUEUED is a replay. -/
theorem Edit.requeues (he : Edit rt db db') (hrest : ∀ k e, db.getEvent k = some e → e.AtRest)
    (hkeys : ∀ k, db.getEvent k = none → db'.getEvent k = none) : db.Requeues db' := by
  cases he with
  | @create e hnew hc now =>
    have hnone := hkeys e.eventId hnew
    rw [Ledger.enter_getEvent_self] at hnone
    cases hnone
  | label he c => exact .refl db
  | @move e dest he hm reason now =>
    refine Ledger.requeues_record reason now fun hq => ?_
    exact absurd (hm.first hq) (hrest _ e he).2
  | process he hq hg hm now => exact Ledger.requeues_record none now (by simp [Event.processedWith,Event.moved])
  | attempt he ha now => exact Ledger.requeues_record none now (by simp [Event.attempted,Event.moved])
  | @reclaim e he hu now =>
    refine Ledger.requeues_record reclaimedStale now fun hq => ?_
    exact absurd (hu.symm.trans hq) (by simp)
  | @bury e reason now letter he ha hid hl =>
    have hrecord : db.Requeues (db.record e (e.moved .deadLettered (some reason)) (some reason) now) :=
      Ledger.requeues_record (some reason) now (by simp [Event.moved])
    exact fun k => hrecord k
  | @revive e letter he hd hl hk ho now =>
    have hrecord : db.Requeues (db.record e (e.requeued letter) (some (replayedReason letter.id)) now) :=
      Ledger.requeues_record (some (replayedReason letter.id)) now fun _ => hd
    exact fun k => hrecord k
  | skip n m => exact .refl db

/-- Edits that create no row, of events at rest. -/
theorem Edits.requeues (h : Edits rt db out) (hrest : ∀ k e, db.getEvent k = some e → e.AtRest)
    (hkeys : ∀ k, db.getEvent k = none → out.getEvent k = none) :
    db.Requeues out ∧ ∀ k e, out.getEvent k = some e → e.AtRest := by
  induction h with
  | refl => exact ⟨.refl db,hrest⟩
  | @tail mid out hedits he ih =>
    -- a row that is there in between is there at the end
    have hmid : ∀ k, db.getEvent k = none → mid.getEvent k = none := by
      intro k hk
      cases hm : mid.getEvent k with
      | none => rfl
      | some x =>
        obtain ⟨y,hy,_⟩ := he.row hm
        exact absurd (hy.symm.trans (hkeys k hk)) (by simp)
    obtain ⟨htrail,hatRest⟩ := ih hmid
    have hkept : ∀ k, mid.getEvent k = none → out.getEvent k = none := by
      intro k hk
      cases hd : db.getEvent k with
      | none => exact hkeys k hd
      | some x =>
        obtain ⟨y,hy,_⟩ := Edits.row hedits hd
        exact absurd (hy.symm.trans hk) (by simp)
    refine ⟨htrail.trans (he.requeues hatRest hkept),?_⟩
    intro k y hy
    cases hm : mid.getEvent k with
    | none => exact absurd ((hkept k hm).symm.trans hy) (by simp)
    | some x =>
      obtain ⟨z,hz,hxz⟩ := he.row hm
      obtain rfl := Option.some.inj (hz.symm.trans hy)
      rcases hxz with rfl | hedit
      · exact hatRest k _ hm
      · exact hedit.atRest (hatRest k x hm)

/-! ## Entries of an ingest -/

/-- Everything that the edits of one operation add is stamped with its time. -/
theorem EventEdits.stamped (h : EventEdits rt k now db out) (j : String) :
    ∃ new, out.listTransitions j = db.listTransitions j ++ new ∧ ∀ t ∈ new, j = k ∧ t.occurredAt = now := by
  induction h with
  | refl => exact ⟨[],(List.append_nil _).symm,by simp⟩
  | tail _ hstep ih =>
    obtain ⟨new,heq,hnew⟩ := ih
    obtain ⟨new',heq',hnew'⟩ := hstep.2.trail j
    refine ⟨new ++ new',by rw [heq', heq, List.append_assoc],?_⟩
    intro t ht
    rcases List.mem_append.mp ht with ht | ht
    · exact hnew t ht
    · exact ⟨(hnew' t ht).1,(hnew' t ht).2.1⟩

end Entries
end ConversionGateway
