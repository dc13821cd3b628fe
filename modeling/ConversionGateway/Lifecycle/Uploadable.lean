import ConversionGateway.Model.PlatformContract
import ConversionGateway.Lifecycle.Trail

/-! # What a processed row holds

A row is sendable only with a conversion action, a conversion time, both
consents, and digests under which the platform can match it. Replays and
messages without identifiers keep the digests they find.
-/
namespace ConversionGateway
open EventStatus

/-- What a row holds by the state it is in. -/
structure Event.Sound (rt : Runtime) (e : Event) : Prop where
  complete : e.status ≠ .received → e.status ≠ .rejected →
    e.conversionAction.isSome ∧ e.conversionTime.isSome
  digests : ∀ h, e.hashedIdentifiers = some h → (e.Granted ∧ e.Matchable rt h) ∧
    e.conversionAction.isSome ∧ e.conversionTime.isSome
  sendable : e.status.Sendable → e.hashedIdentifiers.isSome

section Sound
variable {rt : Runtime} {e x : Event}

theorem Event.Created.sound (h : e.Created) : e.Sound rt := by
  refine ⟨fun hs => absurd h.status hs,fun hashed hh => ?_,fun hs => ?_⟩
  · rw [h.hashedIdentifiers] at hh
    cases hh
  · rw [h.status] at hs
    simp [Sendable] at hs

/-- A change of status alone keeps a row sound if it keeps what the statuses promise. -/
theorem Event.Sound.restatus (h : e.Sound rt) (hid : x.identity = e.identity)
    (hh : x.hashedIdentifiers = e.hashedIdentifiers)
    (hc : x.status ≠ .received → x.status ≠ .rejected →
      e.conversionAction.isSome ∧ e.conversionTime.isSome)
    (hs : x.status.Sendable → e.status.Sendable) : x.Sound rt := by
  obtain ⟨_,_,_,_,ha,ht,_,_,_,hclick,hu,hp⟩ := Event.identity_eq_iff.mp hid
  refine ⟨fun h₁ h₂ => ?_,fun d hd => ?_,fun h₁ => ?_⟩
  · rw [ha, ht]
    exact hc h₁ h₂
  · rw [hh] at hd
    obtain ⟨⟨hg,hm⟩,hc⟩ := h.digests d hd
    rw [ha, ht]
    refine ⟨⟨Event.granted_of_identity hid hg,hm.1,?_⟩,hc⟩
    rw [hclick]
    exact hm.2
  · rw [hh]
    exact h.sendable (hs h₁)

/-- No move but the first one leaves RECEIVED, and no move leaves REJECTED. -/
theorem EventStatus.not_received_of_allowed {s t : EventStatus} (h : t ∈ s.allowedTransitions)
    (h₁ : t ≠ .validated) (h₂ : t ≠ .rejected) : s ≠ .received ∧ s ≠ .rejected := by
  cases s <;> simp_all [allowedTransitions]

theorem Event.Sound.complete_of_allowed (h : e.Sound rt) {t : EventStatus}
    (ha : t ∈ e.status.allowedTransitions) (h₁ : t ≠ .validated) (h₂ : t ≠ .rejected) :
    e.conversionAction.isSome ∧ e.conversionTime.isSome := by
  obtain ⟨hr,hj⟩ := not_received_of_allowed ha h₁ h₂
  exact h.complete hr hj

theorem RowEdit.sound (hr : RowEdit rt e x) (h : e.Sound rt) : x.Sound rt := by
  have hid := hr.identity
  cases hr with
  | label c => exact h.restatus hid rfl h.complete id
  | @move dest hm reason =>
    refine h.restatus hid rfl (fun _ hj => ?_) fun hs => ?_
    · by_cases hv : dest = .validated
      · exact hm.complete hv
      · exact h.complete_of_allowed hm.allowed hv hj
    · refine sendable_of_allowed hm.allowed hs ?_
      rintro rfl
      simpa using hm.plain
  | @process hashed hq hg hm =>
    have hc := h.complete (by simp [hq]) (by simp [hq])
    refine ⟨fun _ _ => hc,fun d hd => ?_,fun _ => rfl⟩
    have hd : hashed = d := Option.some.inj hd
    subst hd
    refine ⟨⟨hg,?_⟩,hc⟩
    rcases hm with hm | hm
    · exact (h.digests _ hm).1.2
    · exact hm
  | attempt ha now =>
    exact h.restatus hid rfl (fun _ _ => h.complete_of_allowed ha (by simp) (by simp))
      fun hs => sendable_of_allowed ha hs (by simp)
  | reclaim hu now => exact h.restatus hid rfl h.complete id
  | bury ha reason =>
    exact h.restatus hid rfl (fun _ _ => h.complete_of_allowed ha (by simp) (by simp))
      fun hs => sendable_of_allowed ha hs (by simp)
  | revive hd letter =>
    exact h.restatus hid rfl (fun _ _ => h.complete (by simp [hd]) (by simp [hd]))
      fun hs => by simp [Sendable,Event.requeued,Event.moved] at hs

end Sound

/-- In every ledger a serial run reaches, every row is sound. -/
theorem serialRun_sound {rt : Runtime} {actions : List SerialAction} {db : Ledger}
    (h : serialRun rt Ledger.empty actions = some db) :
    ∀ k e, db.getEvent k = some e → e.Sound rt :=
  serialRun_inv (fun db => ∀ k e, db.getEvent k = some e → e.Sound rt) (fun _ _ he => by cases he)
    (fun _ _ hi he => he.forall_rows (fun _ hc => hc.sound) (fun _ _ hr hs => hr.sound hs) hi) h

/-- An event that was ever processed has digests. -/
def Digested (db : Ledger) : Prop :=
  ∀ k e, db.getEvent k = some e → (∃ t ∈ db.listTransitions k, t.toStatus = .processed) →
    e.hashedIdentifiers.isSome

section Digested
variable {rt : Runtime} {db db' : Ledger} {e e' : Event} {reason : Option String} {now : Time}

theorem Digested.record (h : Digested db) (e' : Event) (he : db.getEvent e.eventId = some e)
    (hk : e'.eventId = e.eventId) (hkeep : e.hashedIdentifiers.isSome → e'.hashedIdentifiers.isSome)
    (hnew : e'.status = .processed → e'.hashedIdentifiers.isSome) :
    Digested (db.record e e' reason now) := by
  rintro k x hx ⟨t,ht,hp⟩
  rw [Ledger.record_getEvent he hk] at hx
  rw [Ledger.record_listTransitions] at ht
  split at hx
  · next heq =>
    cases hx
    subst heq
    rw [if_pos rfl] at ht
    rcases List.mem_append.mp ht with ht | ht
    · exact hkeep (h _ e he ⟨t,ht,hp⟩)
    · rw [List.mem_singleton.mp ht] at hp
      exact hnew hp
  · next hne =>
    rw [if_neg (Ne.symm hne), List.append_nil] at ht
    exact h k x hx ⟨t,ht,hp⟩

theorem Digested.edit (h : Digested db) (htr : Trails db) (he : Edit rt db db') : Digested db' := by
  cases he with
  | create hnew he now =>
    rintro k x hx ⟨t,ht,hp⟩
    rw [Ledger.enter_getEvent] at hx
    rw [Ledger.enter_listTransitions] at ht
    split at hx
    · next heq =>
      cases hx
      subst heq
      rw [if_pos rfl, htr.orphan _ hnew, List.nil_append] at ht
      rw [List.mem_singleton.mp ht] at hp
      cases hp
    · next hne =>
      rw [if_neg (Ne.symm hne), List.append_nil] at ht
      exact h k x hx ⟨t,ht,hp⟩
  | @label e he c =>
    rintro k x hx ht
    rw [Ledger.putEvent_getEvent he (show (e.labelled c).eventId = e.eventId from rfl)] at hx
    split at hx
    · next heq =>
      cases hx
      subst heq
      exact h e.eventId e he ht
    · exact h k x hx ht
  | move he hm reason now =>
    refine h.record _ he rfl id fun hp => ?_
    subst hp
    simpa [Event.moved] using hm.plain
  | process he hq hg hm now => exact h.record _ he rfl (fun _ => rfl) fun _ => rfl
  | attempt he ha now => exact h.record _ he rfl id (by simp [Event.attempted,Event.moved])
  | reclaim he hu now => exact h.record _ he rfl id (by simp [Event.attempted,hu])
  | @bury e reason now letter he ha hid hl =>
    exact h.record (e.moved .deadLettered (some reason)) he rfl id (by simp [Event.moved])
  | @revive e letter he hd hl hk ho now =>
    exact h.record (e.requeued letter) he rfl id (by simp [Event.requeued,Event.moved])
  | skip n m => exact h

end Digested

theorem serialRun_digested {rt : Runtime} {actions : List SerialAction} {db : Ledger}
    (h : serialRun rt Ledger.empty actions = some db) : Digested db :=
  (serialRun_inv (fun db => Digested db ∧ Trails db) ⟨fun _ _ he => (by cases he),.empty⟩
    (fun _ _ hi he => ⟨hi.1.edit hi.2 he,hi.2.edit he⟩) h).1

/-- Every event a serial run brings to PROCESSED or beyond makes a conversion the
platform accepts. -/
theorem serialRun_accepted (rt : Runtime) (hhex : rt.HexDigests) (actions : List SerialAction)
    (db : Ledger) (h : serialRun rt Ledger.empty actions = some db) :
    ∀ e ∈ db.events.rows,
      (e.status.Sendable ∨ ∃ t ∈ db.listTransitions e.eventId, t.toStatus = .processed) →
      ∃ action time, e.conversionAction = some action ∧ e.conversionTime = some time ∧
        ∀ (customerId : String) (knownActions : List String) (offset : ℤ),
          customerId ≠ "" → customerId.toList.all Text.isAsciiDigit = true →
          action ≠ "" → action.toList.all isActionChar = true → action ∈ knownActions →
          time.utcoffset = some offset → offset % 60 = 0 →
          ∃ conversion, buildConversion rt e customerId = .ok conversion ∧
            validateRow rt conversion knownActions = .ok none := by
  intro e he hs
  have hget : db.getEvent e.eventId = some e := Relational.Table.get_of_mem he
  have hsound := serialRun_sound h e.eventId e hget
  have hd : e.hashedIdentifiers.isSome := by
    rcases hs with hs | ht
    · exact hsound.sendable hs
    · exact serialRun_digested h e.eventId e hget ht
  obtain ⟨hashed,hh⟩ := Option.isSome_iff_exists.mp hd
  obtain ⟨⟨hg,hm⟩,ha,ht⟩ := hsound.digests hashed hh
  obtain ⟨action,ha⟩ := Option.isSome_iff_exists.mp ha
  obtain ⟨time,ht⟩ := Option.isSome_iff_exists.mp ht
  refine ⟨action,time,ha,ht,fun customerId knownActions offset h₁ h₂ h₃ h₄ h₅ h₆ h₇ => ?_⟩
  exact validateRow_buildConversion hhex ha ht hh hm hg h₁ h₂ h₃ h₄ h₆ h₇ h₅

/-- The theorem at a dead-lettered event, with a customer and its action known. -/
theorem serialRun_accepted_buried : ∃ (e : Event) (conversion : Json), e.status = .deadLettered ∧
    buildConversion (clickRuntime 1704067200000) e "1234567890" = .ok conversion ∧
    validateRow (clickRuntime 1704067200000) conversion ["lead"] = .ok none := by
  have h : (serialRun (clickRuntime 1704067200000) Ledger.empty (buryAndReplay.take 5)).map
      (fun db => db.events.rows.map fun e =>
        (e.status,e.conversionAction,e.conversionTime.map DateTime.utcoffset)) =
      some [(.deadLettered,some "lead",some (some 0))] := by decide +kernel
  obtain ⟨db,hdb,hrows⟩ := Option.map_eq_some_iff.mp h
  obtain ⟨e,he,hcols⟩ := List.mem_map.mp (hrows ▸ List.mem_singleton_self _)
  obtain ⟨hst,ha,ht⟩ : e.status = .deadLettered ∧ e.conversionAction = some "lead" ∧
      e.conversionTime.map DateTime.utcoffset = some (some 0) := by simpa using hcols
  obtain ⟨action,time,ha',ht',hvalid⟩ := serialRun_accepted _ (Runtime.plain_hexDigests _) _ db hdb e he
    (Or.inl (by simp [hst,EventStatus.Sendable]))
  obtain rfl := Option.some.inj (ha.symm.trans ha')
  rw [ht', Option.map_some, Option.some.injEq] at ht
  obtain ⟨conversion,hb,hv⟩ := hvalid "1234567890" ["lead"] 0 (by decide) (by decide) (by decide)
    (by decide) (by decide) ht (by decide)
  exact ⟨e,conversion,hst,hb,hv⟩

end ConversionGateway
