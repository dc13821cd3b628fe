import Mathlib.Logic.Relator
import ConversionGateway.Lifecycle.FieldClasses

/-! # Deliveries that differ in raw text

Two payloads with the same keys and the same values but for the raw text of the
lead. They are validated to the same errors, or to events that only their raw text
tells apart.
-/
namespace ConversionGateway
open Relator

/-- The relation of raw text. -/
def Any {α : Type} (_ _ : α) : Prop := True

/-- The keys the lead is read under. -/
def leadKeys : Source → List String
  | .salesforce => ["Lead","lead"]
  | .hubspot => ["properties"]

/-- The keys each raw text of a lead is read under. -/
def rawFields : Source → List (List String)
  | .salesforce => [["Email","email"],["Phone","phone"],["FirstName","first_name"],["LastName","last_name"],
      ["Street","street"],["City","city"],["StateCode","state_code"],["PostalCode","postal_code"],
      ["CountryCode","country_code"]]
  | .hubspot => [["email"],["phone"],["firstname"],["lastname"],["address"],["city"],["state"],["zip"],["country"]]

/-- `str | None` -/
def Json.IsText : Json → Prop
  | .null | .str _ | .surrogates _ => True
  | _ => False

/-- The same entries under all other keys. -/
def SameBesides (keys : List String) (fields fields' : List (String × Json)) : Prop :=
  (fields.filter fun p => p.1 ∉ keys) = fields'.filter fun p => p.1 ∉ keys

/-- Two leads that differ in raw text only: each of these fields is the same in both, or
a text or missing in both. -/
def Json.LeadsAlike (source : Source) (j j' : Json) : Prop := ∃ fields fields', j = .obj fields ∧ j' = .obj fields' ∧
  SameBesides (rawFields source).flatten fields fields' ∧ ∀ keys ∈ rawFields source,
    findField fields keys = findField fields' keys ∨
      (∀ p ∈ findField fields keys, p.2.IsText) ∧ ∀ p ∈ findField fields' keys, p.2.IsText

/-- Payloads that differ in the raw text of the lead only. -/
def Json.PayloadsAlike (source : Source) (j j' : Json) : Prop := ∃ fields fields', j = .obj fields ∧ j' = .obj fields' ∧
  SameBesides (leadKeys source) fields fields' ∧
    (findField fields (leadKeys source) = findField fields' (leadKeys source) ∨
      ∃ key lead lead', findField fields (leadKeys source) = some (key,lead) ∧
        findField fields' (leadKeys source) = some (key,lead') ∧ lead.LeadsAlike source lead')

/-- Both are invalid for the same reasons, or both are valid and related. -/
inductive Validated.Alike {α β : Type} (R : α → β → Prop) : Validated α → Validated β → Prop
  | valid {a : α} {b : β} (h : R a b) : Alike R (.valid a) (.valid b)
  | invalid (errors : List ErrorItem) : Alike R (.invalid errors) (.invalid errors)

namespace Validated
variable {α α' β β' : Type} {Q : α → α' → Prop} {S : β → β' → Prop}

theorem Alike.refl (x : Validated α) : Alike Eq x x := by
  cases x with
  | valid a => exact .valid rfl
  | invalid errors => exact .invalid errors

theorem Alike.imp {Q' : α → α' → Prop} {x : Validated α} {y : Validated α'} (h : Alike Q x y)
    (hQ : ∀ a b, Q a b → Q' a b) : Alike Q' x y := by
  cases h with
  | valid h => exact .valid (hQ _ _ h)
  | invalid errors => exact .invalid errors

theorem Alike.and {f : Validated (α → β)} {g : Validated (α' → β')} (hf : Alike (Relator.LiftFun Q S) f g)
    {x : Validated α} {y : Validated α'} (hx : Alike Q x y) : Alike S (f.and x) (g.and y) := by
  cases hf with
  | valid hf =>
    cases hx with
    | valid hx => exact .valid (hf hx)
    | invalid errors => exact .invalid errors
  | invalid errors =>
    cases hx with
    | valid hx => exact .invalid errors
    | invalid errors' => exact .invalid (errors ++ errors')

theorem Alike.under {x : Validated α} {y : Validated α'} (h : Alike Q x y) (key : String) :
    Alike Q (x.under key) (y.under key) := by
  cases h with
  | valid h => exact .valid h
  | invalid errors => exact .invalid _

end Validated

section Fields
variable {fields fields' : List (String × Json)} {keys others : List String}

theorem lookup_besides {k : String} (hk : k ∉ others) (fields : List (String × Json)) :
    (fields.filter fun p => p.1 ∉ others).lookup k = fields.lookup k := by
  induction fields with
  | nil => rfl
  | cons p rest ih =>
    obtain ⟨key,v⟩ := p
    by_cases hmem : key ∈ others
    · have hne : (k == key) = false := by
        rw [beq_eq_false_iff_ne]
        rintro rfl
        exact hk hmem
      rw [List.filter_cons_of_neg (by simpa using hmem), List.lookup_cons, hne]
      exact ih
    · rw [List.filter_cons_of_pos (by simpa using hmem), List.lookup_cons, List.lookup_cons, ih]

theorem SameBesides.lookup (h : SameBesides others fields fields') {k : String} (hk : k ∉ others) :
    fields.lookup k = fields'.lookup k := by
  rw [← lookup_besides hk fields, h, lookup_besides hk]

/-- Under other keys the same is read. -/
theorem SameBesides.findField (h : SameBesides others fields fields') (hk : ∀ k ∈ keys, k ∉ others) :
    findField fields keys = findField fields' keys := by
  unfold ConversionGateway.findField
  induction keys with
  | nil => rfl
  | cons k rest ih =>
    rw [List.findSome?_cons, List.findSome?_cons, h.lookup (hk k List.mem_cons_self),
      ih fun k' hk' => hk k' (List.mem_cons_of_mem _ hk')]

variable {α : Type}

theorem SameBesides.required (h : SameBesides others fields fields') (hk : ∀ k ∈ keys, k ∉ others)
    (read : Json → Validated α) : Validated.Alike Eq (required read fields keys) (required read fields' keys) := by
  unfold ConversionGateway.required
  rw [h.findField hk]
  exact .refl _

theorem SameBesides.optional (h : SameBesides others fields fields') (hk : ∀ k ∈ keys, k ∉ others)
    (read : Json → Validated α) : Validated.Alike Eq (optional read fields keys) (optional read fields' keys) := by
  unfold ConversionGateway.optional
  rw [h.findField hk]
  exact .refl _

/-- Text, or no field at all, is always valid. -/
theorem optional_text (h : ∀ p ∈ findField fields keys, p.2.IsText) :
    ∃ t, optional readStr fields keys = .valid t := by
  unfold optional
  cases hf : findField fields keys with
  | none => exact ⟨none,rfl⟩
  | some p =>
    obtain ⟨key,v⟩ := p
    have htext := h (key,v) hf
    cases v with
    | null | str | surrogates => exact ⟨_,rfl⟩
    | bool | int | float | nonfinite | arr | obj => exact htext.elim

theorem optional_raw (h : findField fields keys = findField fields' keys ∨
      (∀ p ∈ findField fields keys, p.2.IsText) ∧ ∀ p ∈ findField fields' keys, p.2.IsText) :
    Validated.Alike Any (optional readStr fields keys) (optional readStr fields' keys) := by
  rcases h with heq | ⟨ht,ht'⟩
  · unfold optional
    rw [heq]
    exact (Validated.Alike.refl _).imp fun _ _ _ => trivial
  · obtain ⟨t,ht⟩ := optional_text ht
    obtain ⟨t',ht'⟩ := optional_text ht'
    rw [ht, ht']
    exact .valid trivial

/-- The lead itself, where the readings of alike leads are related. -/
theorem required_lead {source : Source} {Q : α → α → Prop} {read : Json → Validated α} (hQ : ∀ a, Q a a)
    (hread : ∀ v v', v.LeadsAlike source v' → Validated.Alike Q (read v) (read v'))
    (h : findField fields keys = findField fields' keys ∨ ∃ key lead lead', findField fields keys = some (key,lead) ∧
      findField fields' keys = some (key,lead') ∧ lead.LeadsAlike source lead') :
    Validated.Alike Q (required read fields keys) (required read fields' keys) := by
  unfold required
  rcases h with heq | ⟨key,lead,lead',hf,hf',hlead⟩
  · rw [heq]
    apply (Validated.Alike.refl _).imp
    rintro a _ rfl
    exact hQ a
  · rw [hf, hf']
    exact (hread lead lead' hlead).under key

end Fields

/-- The webhooks without the raw text of the lead. -/
def SalesforceLead.anonymous (l : SalesforceLead) : SalesforceLead :=
  { l with email := none, phone := none, firstName := none, lastName := none, street := none, city := none
           stateCode := none, postalCode := none, countryCode := none }

def HubSpotProperties.anonymous (p : HubSpotProperties) : HubSpotProperties :=
  { p with email := none, phone := none, firstname := none, lastname := none, address := none, city := none
           state := none, zip := none, country := none }

def SalesforceWebhook.anonymous (w : SalesforceWebhook) : SalesforceWebhook := { w with lead := w.lead.anonymous }

def HubSpotWebhook.anonymous (w : HubSpotWebhook) : HubSpotWebhook :=
  { w with properties := w.properties.anonymous }

/-- What `parse_and_map` comes to, up to raw text. -/
inductive Parsed.Alike : Parsed → Parsed → Prop
  | event {e e' : CanonicalLeadEvent} (rest : e.anonymous = e'.anonymous) : Alike (.event e) (.event e')
  | validationError (errors : List ErrorItem) : Alike (.validationError errors) (.validationError errors)
  | raised (e : PyError) : Alike (.raised e) (.raised e)

section Payloads
variable {rt : Runtime} {source : Source} {j j' : Json}

theorem SalesforceLead.modelValidate_alike (h : j.LeadsAlike .salesforce j') :
    Validated.Alike (fun l l' => l.anonymous = l'.anonymous) (modelValidate j) (modelValidate j') := by
  obtain ⟨fields,fields',rfl,rfl,hs,hraw⟩ := h
  have hmk : Validated.Alike
      (Eq ⇒ Any ⇒ Any ⇒ Any ⇒ Any ⇒ Any ⇒ Any ⇒ Any ⇒ Any ⇒ Any ⇒ Eq ⇒ Eq ⇒ Eq ⇒
        fun l l' : SalesforceLead => l.anonymous = l'.anonymous)
      (.valid SalesforceLead.mk) (.valid SalesforceLead.mk) := by
    apply Validated.Alike.valid
    rintro _ _ rfl _ _ _ _ _ _ _ _ _ _ _ _ _ _ _ _ _ _ _ _ _ _ _ _ _ _ _ _ _ rfl _ _ rfl _ _ rfl
    rfl
  have htext {keys : List String} (hk : keys ∈ rawFields .salesforce) := optional_raw (hraw keys hk)
  exact hmk.and (hs.required (by decide) readStr) |>.and (htext (by decide)) |>.and (htext (by decide)) |>.and (htext (by decide))
    |>.and (htext (by decide)) |>.and (htext (by decide)) |>.and (htext (by decide)) |>.and (htext (by decide)) |>.and (htext (by decide)) |>.and (htext (by decide))
    |>.and (hs.optional (by decide) readStr) |>.and (hs.optional (by decide) readConsent)
    |>.and (hs.optional (by decide) readConsent)

theorem HubSpotProperties.modelValidate_alike (rt : Runtime) (h : j.LeadsAlike .hubspot j') :
    Validated.Alike (fun p p' => p.anonymous = p'.anonymous) (modelValidate rt j) (modelValidate rt j') := by
  obtain ⟨fields,fields',rfl,rfl,hs,hraw⟩ := h
  have hmk : Validated.Alike
      (Any ⇒ Any ⇒ Any ⇒ Any ⇒ Any ⇒ Any ⇒ Any ⇒ Any ⇒ Any ⇒ Eq ⇒ Eq ⇒ Eq ⇒ Eq ⇒ Eq ⇒
        fun p p' : HubSpotProperties => p.anonymous = p'.anonymous)
      (.valid HubSpotProperties.mk) (.valid HubSpotProperties.mk) := by
    apply Validated.Alike.valid
    rintro _ _ _ _ _ _ _ _ _ _ _ _ _ _ _ _ _ _ _ _ _ _ _ _ _ _ _ _ _ rfl _ _ rfl _ _ rfl _ _ rfl _ _ rfl
    rfl
  have htext {keys : List String} (hk : keys ∈ rawFields .hubspot) := optional_raw (hraw keys hk)
  exact hmk.and (htext (by decide)) |>.and (htext (by decide)) |>.and (htext (by decide)) |>.and (htext (by decide)) |>.and (htext (by decide)) |>.and (htext (by decide))
    |>.and (htext (by decide)) |>.and (htext (by decide)) |>.and (htext (by decide)) |>.and (hs.optional (by decide) readStr)
    |>.and (hs.optional (by decide) (readDecimal rt))
    |>.and (hs.optional (by decide) readStr) |>.and (hs.optional (by decide) readConsent)
    |>.and (hs.optional (by decide) readConsent)

theorem SalesforceWebhook.modelValidate_alike (rt : Runtime) (h : j.PayloadsAlike .salesforce j') :
    Validated.Alike (fun w w' => w.anonymous = w'.anonymous) (modelValidate rt j) (modelValidate rt j') := by
  obtain ⟨fields,fields',rfl,rfl,hs,hraw⟩ := h
  have hmk : Validated.Alike
      (Eq ⇒ Eq ⇒ Eq ⇒ Eq ⇒ Eq ⇒ (fun l l' : SalesforceLead => l.anonymous = l'.anonymous) ⇒
        fun w w' : SalesforceWebhook => w.anonymous = w'.anonymous)
      (.valid SalesforceWebhook.mk) (.valid SalesforceWebhook.mk) := by
    apply Validated.Alike.valid
    rintro _ _ rfl _ _ rfl _ _ rfl _ _ rfl _ _ rfl l l' hl
    simp [anonymous,hl]
  have hlead : Validated.Alike (fun l l' => l.anonymous = l'.anonymous)
      (required SalesforceLead.modelValidate fields ["Lead","lead"])
      (required SalesforceLead.modelValidate fields' ["Lead","lead"]) := by
    exact required_lead (fun _ => rfl) (fun _ _ hv => SalesforceLead.modelValidate_alike hv) hraw
  exact hmk.and (hs.required (by decide) readNonEmpty)
    |>.and (hs.required (by decide) (readDatetime rt))
    |>.and (hs.required (by decide) readNonEmpty)
    |>.and (hs.optional (by decide) (readDecimal rt))
    |>.and (hs.optional (by decide) readStr) |>.and hlead

theorem HubSpotWebhook.modelValidate_alike (rt : Runtime) (h : j.PayloadsAlike .hubspot j') :
    Validated.Alike (fun w w' => w.anonymous = w'.anonymous) (modelValidate rt j) (modelValidate rt j') := by
  obtain ⟨fields,fields',rfl,rfl,hs,hraw⟩ := h
  have hmk : Validated.Alike
      (Eq ⇒ Eq ⇒ Eq ⇒ Eq ⇒ (fun p p' : HubSpotProperties => p.anonymous = p'.anonymous) ⇒
        fun w w' : HubSpotWebhook => w.anonymous = w'.anonymous)
      (.valid HubSpotWebhook.mk) (.valid HubSpotWebhook.mk) := by
    apply Validated.Alike.valid
    rintro _ _ rfl _ _ rfl _ _ rfl _ _ rfl p p' hp
    simp [anonymous,hp]
  have hproperties : Validated.Alike (fun p p' => p.anonymous = p'.anonymous)
      (required (HubSpotProperties.modelValidate rt) fields ["properties"])
      (required (HubSpotProperties.modelValidate rt) fields' ["properties"]) := by
    exact required_lead (fun _ => rfl) (fun _ _ hv => HubSpotProperties.modelValidate_alike rt hv) hraw
  exact hmk.and (hs.required (by decide) (readInt rt))
    |>.and (hs.required (by decide) (readInt rt)) |>.and (hs.required (by decide) (readNat rt))
    |>.and (hs.required (by decide) readNonEmpty) |>.and hproperties

theorem checked_alike {e e' : CanonicalLeadEvent} (h : e.anonymous = e'.anonymous) :
    (Parsed.ofValidated e.checked).Alike (Parsed.ofValidated e'.checked) := by
  have htime : e.conversionTime = e'.conversionTime := congrArg (fun e => e.conversionTime) h
  unfold CanonicalLeadEvent.checked
  rw [htime]
  split
  · exact .validationError _
  · exact .event h

theorem parseAndMap_alike (rt : Runtime) (h : j.PayloadsAlike source j') :
    (parseAndMap rt source j).Alike (parseAndMap rt source j') := by
  cases source with
  | salesforce =>
    have hw := SalesforceWebhook.modelValidate_alike rt h
    simp only [parseAndMap]
    generalize SalesforceWebhook.modelValidate rt j = x at hw
    generalize SalesforceWebhook.modelValidate rt j' = y at hw
    cases hw with
    | invalid errors => exact .validationError errors
    | @valid w w' hw =>
      apply checked_alike
      obtain ⟨id,time,action,amount,currency,lead⟩ := w
      obtain ⟨id',time',action',amount',currency',lead'⟩ := w'
      simp only [SalesforceWebhook.anonymous, SalesforceWebhook.mk.injEq, SalesforceLead.anonymous,
        SalesforceLead.mk.injEq] at hw
      simp only [CanonicalLeadEvent.anonymous, CanonicalLeadEvent.mk.injEq]
      simp [hw]
  | hubspot =>
    have hw := HubSpotWebhook.modelValidate_alike rt h
    simp only [parseAndMap]
    generalize HubSpotWebhook.modelValidate rt j = x at hw
    generalize HubSpotWebhook.modelValidate rt j' = y at hw
    cases hw with
    | invalid errors => exact .validationError errors
    | @valid w w' hw =>
      have hat : w.occurredAt = w'.occurredAt := congrArg (fun w => w.occurredAt) hw
      dsimp only [mapHubspot]
      rw [hat]
      split
      · exact .raised _
      · apply checked_alike
        obtain ⟨id,object,at',action,props⟩ := w
        obtain ⟨id',object',at'',action',props'⟩ := w'
        simp only [HubSpotWebhook.anonymous, HubSpotWebhook.mk.injEq, HubSpotProperties.anonymous,
          HubSpotProperties.mk.injEq] at hw
        simp only [CanonicalLeadEvent.anonymous, CanonicalLeadEvent.mk.injEq]
        simp [hw]

/-- The id of the CRM is no raw text. -/
theorem extractSourceEventId_eq (h : j.PayloadsAlike source j') :
    extractSourceEventId source j = extractSourceEventId source j' := by
  obtain ⟨fields,fields',rfl,rfl,hs,hraw⟩ := h
  have hkey : sourceEventIdKey source ∉ leadKeys source := by cases source <;> decide
  have hget := hs.lookup hkey
  simp only [extractSourceEventId, Json.get, hget]

end Payloads

section Plans
variable {rt : Runtime} {source : Source} {body body' : ByteArray}

/-- Deliveries that differ in raw text only, with the same class in every field. -/
def BodiesAlike (rt : Runtime) (source : Source) (body body' : ByteArray) : Prop :=
  ∃ payload payload', rt.loads body = .value payload ∧ rt.loads body' = .value payload' ∧
    payload.PayloadsAlike source payload' ∧ ∀ e e', parseAndMap rt source payload = .event e →
      parseAndMap rt source payload' = .event e' → e.identifiers.Alike rt e'.identifiers

/-- The delivery is valid, or has a usable id in spite of its errors. -/
def Identified (rt : Runtime) (source : Source) (body : ByteArray) : Prop :=
  ∀ payload errors, rt.loads body = .value payload → parseAndMap rt source payload = .validationError errors →
    (extractSourceEventId source payload).isSome

theorem planIngest_alike (h : BodiesAlike rt source body body') (hid : Identified rt source body)
    (correlationId : CorrelationId) :
    (planIngest rt source body correlationId).Alike rt (planIngest rt source body' correlationId) := by
  obtain ⟨payload,payload',hp,hp',hpayload,hraw⟩ := h
  have hparsed := parseAndMap_alike rt hpayload
  have hsame := extractSourceEventId_eq hpayload
  unfold planIngest
  rw [hp, hp']
  dsimp only
  generalize hx : parseAndMap rt source payload = x at hparsed
  generalize hy : parseAndMap rt source payload' = y at hparsed
  cases hparsed with
  | @event e e' hrest =>
    refine .accept ?_ (hraw e e' hx hy)
    rw [eq_of_anonymous hrest]
    rfl
  | validationError errors =>
    obtain ⟨id,hsome⟩ := Option.isSome_iff_exists.mp (hid payload errors hp hx)
    dsimp only
    rw [← hsame, hsome]
    exact .refl _
  | raised e => exact .refl _

end Plans
end ConversionGateway
