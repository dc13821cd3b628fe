import ConversionGateway.Model.Ingest

/-! # Two readers of the CRM's event id

The schema and the best-effort reader take the id of an event from the same
payload, the first for an accepted event, the second for a rejected one. They
agree on ids in their canonical form under the wire name only.
-/
namespace ConversionGateway

section Validated
variable {α β : Type}

/-- All fields of a valid model are valid. -/
theorem Validated.and_valid {f : Validated (α → β)} {x : Validated α} {b : β} :
    f.and x = .valid b ↔ ∃ g a, f = .valid g ∧ x = .valid a ∧ g a = b := by
  cases f <;> cases x <;> simp [Validated.and]

theorem Validated.under_valid {key : String} {v : Validated α} {a : α} :
    v.under key = .valid a ↔ v = .valid a := by
  cases v <;> simp [Validated.under]

/-- A required field is read under the alias, or under the name if that is missing. -/
theorem required_valid {read : Json → Validated α} {fields : List (String × Json)} {wire name : String}
    {a : α} (h : required read fields [wire,name] = .valid a) :
    (∃ v, fields.lookup wire = some v ∧ read v = .valid a) ∨
      (fields.lookup wire = none ∧ ∃ v, fields.lookup name = some v ∧ read v = .valid a) := by
  unfold required at h
  cases hw : fields.lookup wire with
  | some v =>
    simp only [findField, List.findSome?_cons, hw, Option.map_some] at h
    exact Or.inl ⟨v,rfl,Validated.under_valid.mp h⟩
  | none =>
    cases hn : fields.lookup name with
    | some v =>
      simp only [findField, List.findSome?_cons, hw, hn, Option.map_none, Option.map_some] at h
      exact Or.inr ⟨rfl,v,rfl,Validated.under_valid.mp h⟩
    | none => simp [findField,hw,hn,Validated.fail,Validated.under] at h

end Validated

section Text

theorem isSpace_of_isDigit {c : Char} (h : c.isDigit = true) : Text.isSpace c = false := by
  have hd : 48 ≤ c.toNat ∧ c.toNat ≤ 57 := Char.isDigit_iff_toNat.mp h
  simp only [Text.isSpace, Bool.or_eq_false_iff, Bool.and_eq_false_iff, decide_eq_false_iff_not]
  omega

/-- The text of a number is not blank. -/
theorem not_isBlank_toString (i : ℤ) : Text.isBlank (toString i) = false := by
  have hdigits (n : ℕ) : ∃ c ∈ n.repr.toList, Text.isSpace c = false := by
    rw [Nat.toList_repr]
    obtain ⟨c,hc⟩ := List.exists_mem_of_ne_nil _ (Nat.toDigits_ne_nil (n := n) (b := 10))
    exact ⟨c,hc,isSpace_of_isDigit (Nat.isDigit_of_mem_toDigits (by decide) (by decide) hc)⟩
  have hblank : ∃ c ∈ (toString i).toList, Text.isSpace c = false := by
    cases i with
    | ofNat n => exact hdigits n
    | negSucc n =>
      obtain ⟨c,hc,hs⟩ := hdigits (n + 1)
      refine ⟨c,?_,hs⟩
      have hneg : toString (Int.negSucc n) = "-" ++ (n + 1).repr := rfl
      rw [hneg, String.toList_append]
      exact List.mem_append_right _ hc
  obtain ⟨c,hc,hs⟩ := hblank
  by_contra hb
  rw [Bool.not_eq_false] at hb
  have hall := List.all_eq_true.mp hb c hc
  simp [hs] at hall

end Text

section Ids
variable {rt : Runtime}

theorem ofValidated_event {v : Validated CanonicalLeadEvent} {e : CanonicalLeadEvent}
    (h : Parsed.ofValidated v = .event e) : v = .valid e := by
  cases v with
  | valid a =>
    cases h
    rfl
  | invalid errors => cases h

/-- The check of the constructor changes nothing. -/
theorem CanonicalLeadEvent.checked_valid {e e' : CanonicalLeadEvent} (h : e.checked = .valid e') :
    e' = e := by
  unfold checked at h
  split at h
  · cases h
  · cases h
    rfl

theorem salesforce_sourceEventId {payload : Json} {event : CanonicalLeadEvent}
    (h : parseAndMap rt .salesforce payload = .event event) :
    ∃ fields, payload = .obj fields ∧
      required readNonEmpty fields ["EventId","event_id"] = .valid event.sourceEventId := by
  simp only [parseAndMap] at h
  split at h
  · cases h
  · next webhook hw =>
    have hid : event.sourceEventId = webhook.eventId := by
      rw [CanonicalLeadEvent.checked_valid (ofValidated_event h)]
    unfold SalesforceWebhook.modelValidate at hw
    split at hw
    · next fields =>
      simp only [Validated.and_valid, Validated.valid.injEq] at hw
      obtain ⟨_,_,⟨_,_,⟨_,_,⟨_,_,⟨_,_,⟨_,id,rfl,hreq,rfl⟩,_,rfl⟩,_,rfl⟩,_,rfl⟩,_,rfl⟩,_,rfl⟩ := hw
      exact ⟨fields,rfl,hid ▸ hreq⟩
    · cases hw

theorem hubspot_sourceEventId {payload : Json} {event : CanonicalLeadEvent}
    (h : parseAndMap rt .hubspot payload = .event event) :
    ∃ fields i, payload = .obj fields ∧ event.sourceEventId = toString i ∧
      required (readInt rt) fields ["eventId","event_id"] = .valid i := by
  simp only [parseAndMap] at h
  split at h
  · cases h
  · next webhook hw =>
    have hid : event.sourceEventId = toString webhook.eventId := by
      unfold mapHubspot at h
      split at h
      · cases h
      · rw [CanonicalLeadEvent.checked_valid (ofValidated_event h)]
    unfold HubSpotWebhook.modelValidate at hw
    split at hw
    · next fields =>
      simp only [Validated.and_valid, Validated.valid.injEq] at hw
      obtain ⟨_,_,⟨_,_,⟨_,_,⟨_,_,⟨_,id,rfl,hreq,rfl⟩,_,rfl⟩,_,rfl⟩,_,rfl⟩,_,rfl⟩ := hw
      exact ⟨fields,id,rfl,hid,hreq⟩
    · cases hw

variable (rt)

/-- The id is under its wire name and in canonical form: a string that is not
blank, for HubSpot a number or the decimal text of one without padding. -/
def CanonicalId (source : Source) (payload : Json) : Prop :=
  match source with
  | .salesforce => ∃ s, payload.get "EventId" = some (.str s) ∧ Text.isBlank s = false
  | .hubspot => (∃ i, payload.get "eventId" = some (.int i)) ∨
      ∃ s i, payload.get "eventId" = some (.str s) ∧ rt.intOfString s = .ok i ∧ toString i = s

/-- Of a valid payload, the best-effort reader returns the id of the accepted
event if and only if the id is canonical. -/
theorem extract_agrees_iff (source : Source) (payload : Json) (event : CanonicalLeadEvent)
    (h : parseAndMap rt source payload = .event event) :
    extractSourceEventId source payload = some (.text event.sourceEventId) ↔
      CanonicalId rt source payload := by
  cases source with
  | salesforce =>
    obtain ⟨fields,rfl,hreq⟩ := salesforce_sourceEventId h
    unfold extractSourceEventId CanonicalId
    simp only [sourceEventIdKey, Json.get]
    rcases required_valid hreq with ⟨v,hv,hread⟩ | ⟨hv,_⟩
    · rw [hv]
      cases v with
      | str s =>
        have hs : s = event.sourceEventId := by
          simp only [readNonEmpty] at hread
          split at hread
          · cases hread
          · exact (Validated.valid.inj hread)
        subst hs
        by_cases hb : Text.isBlank event.sourceEventId = true <;> simp [hb]
      | _ => simp [readNonEmpty,Validated.fail] at hread
    · simp [hv]
  | hubspot =>
    obtain ⟨fields,i,rfl,hid,hreq⟩ := hubspot_sourceEventId h
    unfold extractSourceEventId CanonicalId
    simp only [sourceEventIdKey, Json.get, hid]
    rcases required_valid hreq with ⟨v,hv,hread⟩ | ⟨hv,_⟩
    · rw [hv]
      cases v with
      | int j =>
        obtain rfl : j = i := Validated.valid.inj hread
        simp
      | str s =>
        have hint : rt.intOfString s = .ok i := by
          simp only [readInt] at hread
          split at hread
          · next j hj => rw [hj, Validated.valid.inj hread]
          · cases hread
        have hright : ((∃ j, some (Json.str s) = some (.int j)) ∨ ∃ t j, some (Json.str s) = some (.str t) ∧
            rt.intOfString t = .ok j ∧ toString j = t) ↔ toString i = s := by
          constructor
          · rintro (⟨_,⟨⟩⟩ | ⟨t,j,⟨⟩,hj,ht⟩)
            rw [← Except.ok.inj (hj.symm.trans hint), ht]
          · exact fun hs => Or.inr ⟨s,i,rfl,hint,hs⟩
        rw [hright]
        by_cases hb : Text.isBlank s = true
        · have hne : toString i ≠ s := by
            rintro rfl
            rw [not_isBlank_toString] at hb
            cases hb
          simp only [hb, hne, if_true, reduceCtorEq]
        · simp only [hb, Bool.false_eq_true, if_false, Option.some.injEq, PyText.text.injEq]
          exact eq_comm
      | surrogates points => cases hread
      | _ => simp
    · simp [hv]

end Ids

/-- A valid HubSpot delivery under a numeric id. -/
theorem extract_agrees_iff_click :
    (∃ event, parseAndMap (clickRuntime 1704067200000) .hubspot (clickPayload 1704067200000) =
      .event event ∧
      (extractSourceEventId .hubspot (clickPayload 1704067200000) = some (.text event.sourceEventId) ↔
        CanonicalId (clickRuntime 1704067200000) .hubspot (clickPayload 1704067200000))) := by
  have h : (match parseAndMap (clickRuntime 1704067200000) .hubspot (clickPayload 1704067200000) with
    | .event _ => true
    | _ => false) = true := by decide +kernel
  split at h
  · next event he => exact ⟨event,he,extract_agrees_iff _ _ _ event he⟩
  · cases h

/-- The same delivery with its id as an integral float. -/
def floatIdPayload : Json :=
  .obj [("eventId",.float ⟨1,0⟩),("objectId",.int 2),("occurredAt",.int 1704067200000),
    ("conversionAction",.str "lead"),
    ("properties",.obj [("hs_google_click_id",.str "click"),("ad_user_data_consent",.str "GRANTED"),
      ("ad_personalization_consent",.str "GRANTED")])]

/-- It is accepted as event 1, but no id can be extracted from it. -/
theorem not_extract_agrees_float : ∃ event,
    parseAndMap (Runtime.plain (.value floatIdPayload)) .hubspot floatIdPayload = .event event ∧
    event.sourceEventId = "1" ∧
    extractSourceEventId .hubspot floatIdPayload ≠ some (.text event.sourceEventId) := by
  have h : (match parseAndMap (Runtime.plain (.value floatIdPayload)) .hubspot floatIdPayload with
    | .event e => e.sourceEventId == "1"
    | _ => false) = true := by decide +kernel
  split at h
  · next event he =>
    have hid : event.sourceEventId = "1" := eq_of_beq h
    refine ⟨event,he,hid,?_⟩
    have hnone : extractSourceEventId .hubspot floatIdPayload = none := by decide +kernel
    simp [hnone]
  · cases h

end ConversionGateway
