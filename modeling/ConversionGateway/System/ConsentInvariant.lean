import ConversionGateway.System.Batches

/-! # Consent over the whole pipeline

A row is sendable, or holds digests, only with both consents; a merge of a stale
object into a row cannot break that, because nobody writes the consent columns.
-/
namespace ConversionGateway
open EventStatus

/-- What a row may hold and be without both consents. -/
def Event.Consented (e : Event) : Prop :=
  e.status.Sendable ∨ e.hashedIdentifiers.isSome → e.Granted

section Consented
variable {rt : Runtime} {e x : Event}

theorem Event.Created.consented (h : e.Created) : e.Consented := by
  rintro (hs | hh)
  · rw [h.status] at hs
    simp [Sendable] at hs
  · rw [h.hashedIdentifiers] at hh
    cases hh

/-- A move into a sendable state starts in one. -/
theorem Event.Consented.restatus (h : e.Consented) (hid : x.identity = e.identity)
    (hh : x.hashedIdentifiers = e.hashedIdentifiers) (hs : x.status.Sendable → e.status.Sendable) :
    x.Consented := by
  rintro (hx | hx)
  · exact Event.granted_of_identity hid (h (Or.inl (hs hx)))
  · exact Event.granted_of_identity hid (h (Or.inr (hh ▸ hx)))

theorem RowEdit.consented (hr : RowEdit rt e x) (h : e.Consented) : x.Consented := by
  have hid := hr.identity
  cases hr with
  | label c => exact h.restatus hid rfl id
  | @move dest hm reason =>
    refine h.restatus hid rfl fun hs => sendable_of_allowed hm.allowed hs ?_
    rintro rfl
    simpa using hm.plain
  | process hq hg hm => exact fun _ => Event.granted_of_identity hid hg
  | attempt ha now => exact h.restatus hid rfl fun hs => sendable_of_allowed ha hs (by simp)
  | reclaim hu now => exact h.restatus hid rfl id
  | bury ha reason => exact h.restatus hid rfl fun hs => sendable_of_allowed ha hs (by simp)
  | revive hd letter =>
    exact h.restatus hid rfl fun hs => by simp [Sendable,Event.requeued,Event.moved] at hs

/-- Each column of a merged row comes from a row that has the consents it needs. -/
theorem Event.Consented.merge {base final current : Event} (hf : final.Consented)
    (hc : current.Consented) (hid : final.identity = current.identity) :
    (Event.merge base final current).Consented := by
  have hgrant : current.Granted → (Event.merge base final current).Granted := by
    have hcons : final.consent = current.consent := congrArg Identity.consent hid
    intro hg
    have hu := congrArg ConsentSignals.adUserData hcons
    have hp := congrArg ConsentSignals.adPersonalization hcons
    refine ⟨?_,?_⟩
    · rcases pick_eq_or base.consentAdUserData final.consentAdUserData current.consentAdUserData
        with h | h
      · exact h.trans (hu.trans hg.1)
      · exact h.trans hg.1
    · rcases pick_eq_or base.consentAdPersonalization final.consentAdPersonalization
        current.consentAdPersonalization with h | h
      · exact h.trans (hp.trans hg.2)
      · exact h.trans hg.2
  have hfinal : final.Granted → current.Granted := Event.granted_of_identity hid.symm
  rintro (hs | hh)
  · rw [merge_status] at hs
    rcases pick_eq_or base.status final.status current.status with h | h
    · exact hgrant (hfinal (hf (Or.inl (h ▸ hs))))
    · exact hgrant (hc (Or.inl (h ▸ hs)))
  · rw [merge_hashedIdentifiers] at hh
    rcases pick_eq_or base.hashedIdentifiers final.hashedIdentifiers current.hashedIdentifiers
      with h | h
    · exact hgrant (hfinal (hf (Or.inr (h ▸ hh))))
    · exact hgrant (hc (Or.inr (h ▸ hh)))

end Consented

/-- The conversion is of an event whose row has both consents. -/
def Permitted (db : Ledger) (conversion : Json) : Prop :=
  ∃ id e, conversion.orderId = some id ∧ db.getEvent id = some e ∧ e.Granted

namespace System
variable {rt : Runtime} {settings : ℕ → Settings} {s t : System} {a : Action}

/-- The consent columns of a row stay as they were inserted. -/
theorem step_consent (hl : s.Linked) (h : step rt settings s a = some t) {k : String} {e : Event}
    (he : s.ledger.getEvent k = some e) :
    ∃ e', t.ledger.getEvent k = some e' ∧ e'.identity = e.identity := by
  rcases step_ledger h with heq | ⟨who,tx,reply,_,hc⟩
  · exact ⟨e,heq ▸ he,rfl⟩
  · exact Transaction.commit_identity (hl.known hc.transaction) (hl.paired hc.transaction) hc.commit he

theorem step_permitted (hl : s.Linked) (h : step rt settings s a = some t) {conversion : Json}
    (hp : Permitted s.ledger conversion) : Permitted t.ledger conversion := by
  obtain ⟨id,e,ho,he,hg⟩ := hp
  obtain ⟨e',he',hid⟩ := step_consent hl h he
  exact ⟨id,e',ho,he',Event.granted_of_identity hid hg⟩

/-- Rows, objects in sessions, items of uploaders and everything sent. -/
structure Consenting (s : System) : Prop where
  linked : s.Linked
  rows : (∀ k e, s.ledger.getEvent k = some e → e.Consented) ∧ ∀ who, ∀ e ∈ s.rows who, e.Consented
  held : ∀ n, ∀ c ∈ (s.uploaders n).held, Permitted s.ledger c.conversion
  sent : ∀ batch ∈ s.sent, ∀ conversion ∈ batch, Permitted s.ledger conversion

theorem start_consenting : (start Ledger.empty).Consenting := by
  refine ⟨start_linked _,⟨fun k e he => (by cases he),fun who e he => ?_⟩,fun n c hc => ?_,
    fun batch hb => (by cases hb)⟩
  · cases who <;> simp [System.rows,start,Worker.rows,Uploader.rows,Uploader.fresh,Replayer.rows] at he
  · simp [start,Uploader.fresh,Uploader.held,Uploader.batch,Batcher.empty] at hc

theorem step_consenting (hs : s.Consenting) (h : step rt settings s a = some t) : t.Consenting := by
  have hrows := step_forall (fun _ hc => hc.consented) (fun _ _ hr hc => hr.consented hc)
    (fun _ _ _ hf hc hid => hf.merge hc hid) hs.linked h hs.rows
  refine ⟨step_linked hs.linked h,hrows,fun n c hc => ?_,?_⟩
  · rcases step_held h hs.linked hc with hc | ⟨st,selected,now,_,_,_,hb⟩
    · exact step_permitted hs.linked h (hs.held n c hc)
    · obtain ⟨e,he,hu⟩ := hb.row
      exact ⟨_,e,hb.orderId,he,hrows.1 _ e he (Or.inl (by simp [hu,Sendable]))⟩
  · have hold : ∀ batch ∈ s.sent, ∀ conversion ∈ batch, Permitted t.ledger conversion :=
      fun batch hb conversion hc => step_permitted hs.linked h (hs.sent batch hb conversion hc)
    rcases step_sent h with heq | ⟨n,_,heq⟩
    · rwa [heq]
    · rw [heq]
      intro batch hb conversion hc
      rcases List.mem_append.mp hb with hb | hb
      · exact hold batch hb conversion hc
      · rw [List.mem_singleton.mp hb] at hc
        obtain ⟨c,hm,rfl⟩ := List.mem_map.mp hc
        exact step_permitted hs.linked h (hs.held n c (List.mem_append_right _ hm))

theorem run_consenting {actions : List Action}
    (h : run rt settings (start Ledger.empty) actions = some s) : s.Consenting :=
  Machine.run_inv' Consenting (fun _ _ _ hs hst => step_consenting hs hst) start_consenting h

/-- Whatever the processes do and in whatever order: only consented events are
sent, only consented rows are sendable or hold digests, and no step changes a
consent column. -/
theorem run_sends_consented (rt : Runtime) (settings : ℕ → Settings) (actions : List Action) (s : System)
    (h : run rt settings (start Ledger.empty) actions = some s) :
    (∀ batch ∈ s.sent, ∀ conversion ∈ batch, ∃ id e, conversion.orderId = some id ∧
      s.ledger.getEvent id = some e ∧ e.consentAdUserData = some .granted ∧
      e.consentAdPersonalization = some .granted) ∧
    (∀ k e, s.ledger.getEvent k = some e →
      e.status ∈ [processed,uploading,failedRetryable,uploaded,deadLettered] ∨
        e.hashedIdentifiers ≠ none →
      e.consentAdUserData = some .granted ∧ e.consentAdPersonalization = some .granted) ∧
    ∀ a t, step rt settings s a = some t → ∀ k e, s.ledger.getEvent k = some e →
      ∃ e', t.ledger.getEvent k = some e' ∧ e'.consentAdUserData = e.consentAdUserData ∧
        e'.consentAdPersonalization = e.consentAdPersonalization := by
  have hs := run_consenting h
  refine ⟨fun batch hb conversion hc => ?_,fun k e he hsend => ?_,fun a t hst k e he => ?_⟩
  · obtain ⟨id,e,ho,he,hg⟩ := hs.sent batch hb conversion hc
    exact ⟨id,e,ho,he,hg.1,hg.2⟩
  · have hg : e.Granted := by
      refine hs.rows.1 k e he ?_
      rcases hsend with hsend | hh
      · refine Or.inl ?_
        cases hst : e.status <;> simp_all [Sendable]
      · exact Or.inr (Option.isSome_iff_ne_none.mpr hh)
    exact ⟨hg.1,hg.2⟩
  · obtain ⟨e',he',hid⟩ := step_consent hs.linked hst he
    have hcons : e'.consent = e.consent := congrArg Identity.consent hid
    exact ⟨e',he',congrArg ConsentSignals.adUserData hcons,
      congrArg ConsentSignals.adPersonalization hcons⟩

/-- The theorem at the run of one event: its conversion was sent, with consent. -/
theorem run_sends_consented_uploadOnce : ∃ (s : System) (batch : List Json) (conversion : Json)
    (id : String) (e : Event), batch ∈ s.sent ∧ conversion ∈ batch ∧ conversion.orderId = some id ∧
      s.ledger.getEvent id = some e ∧ e.consentAdUserData = some .granted ∧
      e.consentAdPersonalization = some .granted := by
  have h : (run (clickRuntime 1704067200000) (fun _ => .single) (start Ledger.empty) uploadOnce).map
      (fun s => s.sent.map List.length) = some [1] := by decide +kernel
  obtain ⟨s,hs,hsent⟩ := Option.map_eq_some_iff.mp h
  obtain ⟨batch,hb,hlen⟩ := List.mem_map.mp (hsent ▸ List.mem_singleton_self 1)
  obtain ⟨conversion,rfl⟩ := List.length_eq_one_iff.mp hlen
  have hc : conversion ∈ [conversion] := List.mem_singleton_self _
  obtain ⟨id,e,horder,he,hg⟩ := (run_sends_consented _ _ _ s hs).1 _ hb conversion hc
  exact ⟨s,_,conversion,id,e,hb,hc,horder,he,hg⟩

end System
end ConversionGateway
