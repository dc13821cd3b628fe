import Mathlib.Data.List.Chain
import ConversionGateway.Lifecycle.SerialRuns

/-! # The audit trail

The transitions of an event form a chain from its creation to its current
state. `Trail` is that chain as it grows; the explicit form, `Audited`, is what
a reader of the table can check.
-/
namespace ConversionGateway
open Relational

/-- The audit row of a stale reclaim, which is not a change of state. -/
def EventTransition.IsReclaim (t : EventTransition) : Prop :=
  t.fromStatus = some .uploading ∧ t.toStatus = .uploading ∧ t.reason = reclaimedStale

instance (t : EventTransition) : Decidable t.IsReclaim := inferInstanceAs (Decidable (_ ∧ _ ∧ _))

/-- `b` may follow `a` in the trail of one event. -/
def EventTransition.Follows (a b : EventTransition) : Prop :=
  b.fromStatus = some a.toStatus ∧ (b.toStatus ∈ a.toStatus.allowedTransitions ∨ b.IsReclaim)

/-- The rows explain the state: they start with the creation, each follows the one
before, the last one names the status and the last one that is not a reclaim the reason. -/
structure Audited (trail : List EventTransition) (e : Event) : Prop where
  head : ∃ t rest, trail = t :: rest ∧ t.fromStatus = none ∧ t.toStatus = .received
  chain : trail.IsChain EventTransition.Follows
  status : trail.getLast?.map EventTransition.toStatus = some e.status
  statusReason : (trail.filter fun t => ¬ t.IsReclaim).getLast?.map EventTransition.reason =
    some e.statusReason

/-- Trails as they grow, with the status and the reason they lead to. -/
inductive Trail : List EventTransition → EventStatus → Option String → Prop
  | created {t : EventTransition} (hf : t.fromStatus = none) (ht : t.toStatus = .received)
      (hr : t.reason = none) : Trail [t] .received none
  | moved {ts : List EventTransition} {s : EventStatus} {r : Option String} {t : EventTransition}
      (h : Trail ts s r) (hf : t.fromStatus = some s) (ha : t.toStatus ∈ s.allowedTransitions) :
      Trail (ts ++ [t]) t.toStatus t.reason
  | reclaimed {ts : List EventTransition} {r : Option String} {t : EventTransition}
      (h : Trail ts .uploading r) (ht : t.IsReclaim) : Trail (ts ++ [t]) .uploading r

section Trail
variable {ts : List EventTransition} {s : EventStatus} {r : Option String} {t : EventTransition}

theorem not_isReclaim_of_allowed (hf : t.fromStatus = some s) (ha : t.toStatus ∈ s.allowedTransitions) :
    ¬ t.IsReclaim := by
  rintro ⟨hu,ht,_⟩
  rw [hf] at hu
  cases hu
  rw [ht] at ha
  exact EventStatus.not_allowed_self _ ha

theorem Trail.head (h : Trail ts s r) :
    ∃ t rest, ts = t :: rest ∧ t.fromStatus = none ∧ t.toStatus = .received := by
  induction h with
  | @created t hf ht _ => exact ⟨t,[],rfl,hf,ht⟩
  | moved _ _ _ ih =>
    obtain ⟨t,rest,rfl,hf,ht⟩ := ih
    exact ⟨t,_,rfl,hf,ht⟩
  | reclaimed _ _ ih =>
    obtain ⟨t,rest,rfl,hf,ht⟩ := ih
    exact ⟨t,_,rfl,hf,ht⟩

theorem Trail.status (h : Trail ts s r) : ts.getLast?.map EventTransition.toStatus = some s := by
  cases h with
  | created hf ht hr => simp [ht]
  | moved h hf ha => simp
  | reclaimed h ht => simp [ht.2.1]

theorem Trail.statusReason (h : Trail ts s r) :
    (ts.filter fun t => ¬ t.IsReclaim).getLast?.map EventTransition.reason = some r := by
  induction h with
  | created hf ht hr => simp [EventTransition.IsReclaim,hf,hr]
  | moved h hf ha ih => simp [List.filter_append, not_isReclaim_of_allowed hf ha]
  | reclaimed h ht ih => simpa [List.filter_append, ht] using ih

/-- A row follows the trail if it starts where the trail ends. -/
theorem Trail.chain_concat (h : Trail ts s r) (hc : ts.IsChain EventTransition.Follows)
    (hf : t.fromStatus = some s) (ha : t.toStatus ∈ s.allowedTransitions ∨ t.IsReclaim) :
    (ts ++ [t]).IsChain EventTransition.Follows := by
  refine List.isChain_append.mpr ⟨hc,List.isChain_singleton t,?_⟩
  intro x hx y hy
  have hs := h.status
  rw [Option.mem_def.mp hx] at hs
  cases hs
  cases hy
  exact ⟨hf,ha⟩

theorem Trail.chain (h : Trail ts s r) : ts.IsChain EventTransition.Follows := by
  induction h with
  | created hf ht hr => exact List.isChain_singleton _
  | moved h hf ha ih => exact h.chain_concat ih hf (Or.inl ha)
  | reclaimed h ht ih => exact h.chain_concat ih ht.1 (Or.inr ht)

theorem Trail.audited {e : Event} (h : Trail ts e.status e.statusReason) : Audited ts e :=
  ⟨h.head,h.chain,h.status,h.statusReason⟩

end Trail

/-- Every event has its trail, and every trail its event. -/
structure Trails (db : Ledger) : Prop where
  trail : ∀ k e, db.getEvent k = some e → Trail (db.listTransitions k) e.status e.statusReason
  orphan : ∀ k, db.getEvent k = none → db.listTransitions k = []

section Trails
variable {rt : Runtime} {db db' : Ledger}

theorem Trails.empty : Trails Ledger.empty := ⟨fun _ _ h => (by cases h),fun _ _ => rfl⟩

/-- Only the events and their transitions matter. -/
theorem Trails.congr (h : Trails db) (he : ∀ k, db'.getEvent k = db.getEvent k)
    (ht : ∀ k, db'.listTransitions k = db.listTransitions k) : Trails db' :=
  ⟨fun k e hk => ht k ▸ h.trail k e (he k ▸ hk),fun k hk => ht k ▸ h.orphan k (he k ▸ hk)⟩

/-- Writing an object with its audit row keeps the trails, if the row extends the
trail of that event. -/
theorem Trails.record (h : Trails db) {e e' : Event} {reason : Option String} {now : Time}
    (he : db.getEvent e.eventId = some e) (hk : e'.eventId = e.eventId)
    (hstep : ∀ ts t, Trail ts e.status e.statusReason → t.fromStatus = some e.status →
      t.toStatus = e'.status → t.reason = reason → Trail (ts ++ [t]) e'.status e'.statusReason) :
    Trails (db.record e e' reason now) := by
  refine ⟨fun k x hx => ?_,fun k hx => ?_⟩
  · rw [Ledger.record_getEvent he hk] at hx
    rw [Ledger.record_listTransitions]
    split at hx
    · next heq =>
      cases hx
      rw [if_pos heq.symm, heq]
      exact hstep _ _ (h.trail _ e he) rfl rfl rfl
    · next hne =>
      rw [if_neg (Ne.symm hne), List.append_nil]
      exact h.trail k x hx
  · rw [Ledger.record_getEvent he hk] at hx
    rw [Ledger.record_listTransitions]
    split at hx
    · cases hx
    · next hne =>
      rw [if_neg (Ne.symm hne), List.append_nil]
      exact h.orphan k hx

/-- A record that is a legal move of the event. -/
theorem Trails.record_moved (h : Trails db) {e : Event} (e' : Event) {reason : Option String}
    {now : Time} (he : db.getEvent e.eventId = some e) (hk : e'.eventId = e.eventId)
    (ha : e'.status ∈ e.status.allowedTransitions) (hr : e'.statusReason = reason) :
    Trails (db.record e e' reason now) := by
  refine h.record he hk fun ts t hts hf ht htr => ?_
  have hm := hts.moved hf (ht ▸ ha)
  rwa [ht, htr, ← hr] at hm

theorem Trails.enter (h : Trails db) {e : Event} (hnew : db.events.get e.eventId = none)
    (he : e.Created) (now : Time) : Trails (db.enter e hnew now) := by
  refine ⟨fun k x hx => ?_,fun k hx => ?_⟩
  · rw [Ledger.enter_getEvent] at hx
    rw [Ledger.enter_listTransitions]
    split at hx
    · next heq =>
      cases hx
      rw [if_pos heq.symm, heq, h.orphan _ hnew, he.status, he.statusReason]
      exact .created rfl rfl rfl
    · next hne =>
      rw [if_neg (Ne.symm hne), List.append_nil]
      exact h.trail k x hx
  · rw [Ledger.enter_getEvent] at hx
    rw [Ledger.enter_listTransitions]
    split at hx
    · cases hx
    · next hne =>
      rw [if_neg (Ne.symm hne), List.append_nil]
      exact h.orphan k hx

/-- Writing an object with the same status and reason needs no audit row. -/
theorem Trails.put (h : Trails db) {e e' : Event} (he : db.getEvent e.eventId = some e)
    (hk : e'.eventId = e.eventId) (hs : e'.status = e.status) (hr : e'.statusReason = e.statusReason) :
    Trails (db.putEvent e') := by
  refine ⟨fun k x hx => ?_,fun k hx => ?_⟩
  · rw [Ledger.putEvent_getEvent he hk] at hx
    rw [Ledger.listTransitions_putEvent]
    split at hx
    · next heq =>
      cases hx
      rw [heq, hs, hr]
      exact h.trail _ e he
    · exact h.trail k x hx
  · rw [Ledger.putEvent_getEvent he hk] at hx
    split at hx
    · cases hx
    · exact h.orphan k hx

theorem Trails.edit (h : Trails db) (he : Edit rt db db') : Trails db' := by
  cases he with
  | create hnew he now => exact h.enter hnew he now
  | label he c => exact h.put he rfl rfl rfl
  | move he hm reason now => exact h.record_moved _ he rfl hm.allowed rfl
  | process he hq hg hm now =>
    refine h.record_moved _ he rfl ?_ rfl
    simp [hq,Event.processedWith,Event.moved,EventStatus.allowedTransitions]
  | attempt he ha now => exact h.record_moved _ he rfl ha rfl
  | @reclaim e he hu now =>
    refine h.record he rfl fun ts t hts hf ht hr => ?_
    have hs : (e.attempted now).status = .uploading := hu
    rw [hu] at hts hf
    rw [hs] at ht ⊢
    exact hts.reclaimed ⟨hf,ht,hr⟩
  | @bury e reason now letter he ha hid hl =>
    exact (h.record_moved (e.moved .deadLettered (some reason)) he rfl ha rfl).congr (fun _ => rfl) (fun _ => rfl)
  | @revive e letter he hd hl hk ho now =>
    refine (h.record_moved (e.requeued letter) he rfl ?_ rfl).congr (fun _ => rfl) (fun _ => rfl)
    simp [hd,Event.requeued,Event.moved,EventStatus.allowedTransitions]
  | skip n m => exact h.congr (fun _ => rfl) (fun _ => rfl)

theorem serialRun_trails {actions : List SerialAction}
    (h : serialRun rt Ledger.empty actions = some db) : Trails db :=
  serialRun_inv Trails .empty (fun _ _ hi he => hi.edit he) h

/-- In every ledger a serial run reaches, the rows of every event explain it. -/
theorem serialRun_audited (rt : Runtime) (actions : List SerialAction) (db : Ledger)
    (h : serialRun rt Ledger.empty actions = some db) :
    ∀ e ∈ db.events.rows, Audited (db.listTransitions e.eventId) e :=
  fun e he => ((serialRun_trails h).trail e.eventId e (Table.get_of_mem he)).audited

/-- The theorem at an event that was dead-lettered and replayed. -/
theorem serialRun_audited_replay : ∃ (db : Ledger) (e : Event),
    serialRun (clickRuntime 1704067200000) Ledger.empty buryAndReplay = some db ∧ e.status = .queued ∧
      Audited (db.listTransitions e.eventId) e := by
  have h : (serialRun (clickRuntime 1704067200000) Ledger.empty buryAndReplay).map
      (fun db => db.events.rows.map Event.status) = some [.queued] := by decide +kernel
  obtain ⟨db,hdb,hrows⟩ := Option.map_eq_some_iff.mp h
  obtain ⟨e,he,hst⟩ := List.mem_map.mp (hrows ▸ List.mem_singleton_self EventStatus.queued)
  exact ⟨db,e,hdb,hst,serialRun_audited _ _ db hdb e he⟩

end Trails
end ConversionGateway
