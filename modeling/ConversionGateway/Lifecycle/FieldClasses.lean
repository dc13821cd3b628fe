import ConversionGateway.Concurrency.Transaction
import ConversionGateway.Library.Lockstep

/-! # What is left of raw text

Of a raw field only the outcome of its normaliser goes on, and of that only the
digest where the field is hashed. Two deliveries that agree in this are the same
to the ledger.
-/
namespace ConversionGateway

/-- The fields that leave the normalisers as digests. -/
def hashedFields : List String := ["email","phone","given_name","family_name","street_address"]

/-- The class of an outcome: its rejection, its digest, or the text that is sent in clear. -/
def outcomeClass (rt : Runtime) (outcome : String × Normalised) : String × Normalised :=
  (outcome.1,if outcome.1 ∈ hashedFields then outcome.2.map rt.sha256Hex else outcome.2)

/-- The classes of the fields that are there. -/
def fieldClasses (rt : Runtime) (raw : RawIdentifiers) : List (String × Normalised) :=
  (identifierOutcomes rt raw).map (outcomeClass rt)

section Outcomes
variable {rt : Runtime} {raw raw' : RawIdentifiers} {field : String}

theorem lookup_outcomeClass (rt : Runtime) (outcomes : List (String × Normalised)) (field : String) :
    (outcomes.map (outcomeClass rt)).lookup field =
      (outcomes.lookup field).map fun o => (outcomeClass rt (field,o)).2 := by
  induction outcomes with
  | nil => rfl
  | cons outcome rest ih =>
    obtain ⟨name,o⟩ := outcome
    by_cases hname : field = name
    · subst hname
      simp [outcomeClass]
    · have hne : (field == name) = false := by simpa using hname
      simp only [List.map_cons, List.lookup_cons, outcomeClass, hne] at ih ⊢
      exact ih

theorem hashOrNone_class (h : field ∈ hashedFields) : hashOrNone rt (outcomeOf rt raw field) =
    plainOrNone (((fieldClasses rt raw).lookup field).getD (.error .missing)) := by
  unfold outcomeOf fieldClasses
  rw [lookup_outcomeClass]
  cases (identifierOutcomes rt raw).lookup field with
  | none => rfl
  | some o =>
    simp only [outcomeClass, h, if_true, Option.map_some, Option.getD_some]
    cases o <;> rfl

theorem plainOrNone_class (h : field ∉ hashedFields) : plainOrNone (outcomeOf rt raw field) =
    plainOrNone (((fieldClasses rt raw).lookup field).getD (.error .missing)) := by
  unfold outcomeOf fieldClasses
  rw [lookup_outcomeClass]
  simp only [outcomeClass, h, if_false]
  cases (identifierOutcomes rt raw).lookup field <;> rfl

theorem rejections_class (outcomes : List (String × Normalised)) :
    (outcomes.map (outcomeClass rt)).filterMap rejectionOf = outcomes.filterMap rejectionOf := by
  rw [List.filterMap_map]
  congr 1
  funext outcome
  obtain ⟨name,o⟩ := outcome
  by_cases hf : name ∈ hashedFields
  · simp only [Function.comp_apply, outcomeClass, rejectionOf, hf, if_true]
    cases o <;> rfl
  · simp only [Function.comp_apply, outcomeClass, rejectionOf, hf, if_false]

/-- The result is a function of the classes. -/
theorem buildUserIdentifiers_congr (h : fieldClasses rt raw = fieldClasses rt raw') :
    buildUserIdentifiers rt raw = buildUserIdentifiers rt raw' := by
  have hhash (field : String) (hf : field ∈ hashedFields) :
      hashOrNone rt (outcomeOf rt raw field) = hashOrNone rt (outcomeOf rt raw' field) := by
    rw [hashOrNone_class hf, hashOrNone_class hf, h]
  have hplain (field : String) (hf : field ∉ hashedFields) :
      plainOrNone (outcomeOf rt raw field) = plainOrNone (outcomeOf rt raw' field) := by
    rw [plainOrNone_class hf, plainOrNone_class hf, h]
  have hrejections : (identifierOutcomes rt raw).filterMap rejectionOf =
      (identifierOutcomes rt raw').filterMap rejectionOf := by
    rw [← rejections_class, ← rejections_class (identifierOutcomes rt raw')]
    exact congrArg _ h
  unfold buildUserIdentifiers
  simp only [hhash "email" (by decide), hhash "phone" (by decide), hhash "given_name" (by decide),
    hhash "family_name" (by decide), hhash "street_address" (by decide), hplain "city" (by decide),
    hplain "region" (by decide), hplain "postal_code" (by decide), hplain "country" (by decide), hrejections]

/-- The record is blank if no field has an outcome. -/
theorem fieldClasses_nil (rt : Runtime) (raw : RawIdentifiers) : fieldClasses rt raw = [] ↔ raw = .blank := by
  obtain ⟨email,phone,givenName,familyName,streetAddress,city,region,postalCode,country⟩ := raw
  simp only [fieldClasses, identifierOutcomes, RawIdentifiersOf.blank, List.map_eq_nil_iff, List.filterMap_eq_nil_iff,
    List.mem_cons, List.not_mem_nil, or_false, forall_eq_or_imp, forall_eq, id_eq, Option.map_eq_none_iff,
    RawIdentifiersOf.mk.injEq]
  tauto

theorem blank_congr (h : fieldClasses rt raw = fieldClasses rt raw') : raw = .blank ↔ raw' = .blank := by
  rw [← fieldClasses_nil rt, ← fieldClasses_nil rt, h]

end Outcomes

/-- Two messages that only their raw text tells apart. -/
structure QueueMessage.Alike (rt : Runtime) (m m' : QueueMessage) : Prop where
  eventId : m.eventId = m'.eventId
  classes : fieldClasses rt m.identifiers = fieldClasses rt m'.identifiers
  enqueuedAt : m.enqueuedAt = m'.enqueuedAt
  correlationId : m.correlationId = m'.correlationId

/-- Raw text that is encoded to the same classes, or none of which can be encoded. -/
def RawIdentifiersOf.Alike (rt : Runtime) (raw raw' : RawIdentifiersOf PyText) : Prop :=
  Outcome.Together (fun r r' => fieldClasses rt r = fieldClasses rt r') raw.encode raw'.encode

/-- An event without its raw text. -/
def CanonicalLeadEvent.anonymous (e : CanonicalLeadEvent) : CanonicalLeadEvent := { e with identifiers := .blank }

inductive IngestPlan.Alike (rt : Runtime) : IngestPlan → IngestPlan → Prop
  | refl (plan : IngestPlan) : Alike rt plan plan
  | accept {e e' : CanonicalLeadEvent} (rest : e.anonymous = e'.anonymous)
      (raw : e.identifiers.Alike rt e'.identifiers) : Alike rt (.accept e) (.accept e')

/-- Two replies that hand out alike messages. -/
def Ingested.Alike (rt : Runtime) (i i' : Ingested) : Prop :=
  i.response = i'.response ∧ Option.Rel (QueueMessage.Alike rt) i.message i'.message

section Bodies
variable {rt : Runtime} {db : Ledger} {m m' : QueueMessage} {now : Time}

theorem QueueMessage.Alike.refl (m : QueueMessage) : m.Alike rt m := ⟨rfl,rfl,rfl,rfl⟩

theorem Ingested.Alike.refl (i : Ingested) : i.Alike rt i := by
  refine ⟨rfl,?_⟩
  cases i.message with
  | none => exact .none
  | some m => exact .some (.refl m)

theorem processMessage_congr (h : m.Alike rt m') (event : Option Event) :
    processMessage rt db event m now = processMessage rt db event m' now := by
  have hreuse (e : Event) : reusedDigests e m = reusedDigests e m' := by
    unfold reusedDigests
    simp only [blank_congr h.classes]
  unfold processMessage
  simp only [hreuse, buildUserIdentifiers_congr h.classes]

theorem eq_of_anonymous {e e' : CanonicalLeadEvent} (h : e.anonymous = e'.anonymous) :
    e' = { e with identifiers := e'.identifiers } := by
  cases e
  cases e'
  simpa [CanonicalLeadEvent.anonymous,eq_comm] using h

theorem ingestMessage_alike {correlationId : CorrelationId} {e e' : CanonicalLeadEvent}
    (rest : e.anonymous = e'.anonymous) (raw : e.identifiers.Alike rt e'.identifiers) :
    Option.Rel (QueueMessage.Alike rt) (ingestMessage correlationId now e) (ingestMessage correlationId now e') := by
  obtain ⟨raw',rfl⟩ : ∃ raw', e' = { e with identifiers := raw' } := ⟨e'.identifiers,eq_of_anonymous rest⟩
  unfold RawIdentifiersOf.Alike at raw
  unfold ingestMessage
  dsimp only at raw ⊢
  generalize e.identifiers.encode = x at raw ⊢
  generalize raw'.encode = y at raw ⊢
  cases raw with
  | ok hclasses => exact .some ⟨rfl,hclasses,rfl,rfl⟩
  | error e => exact .none

/-- Ingest writes the same and answers the same, and its messages are alike. -/
theorem ingestBody_alike {correlationId : CorrelationId} {source : Source} {plan plan' : IngestPlan}
    (h : plan.Alike rt plan') : Outcome.Together (fun a b => a.1 = b.1 ∧ a.2.Alike rt b.2)
      (ingestBody rt db correlationId now source plan) (ingestBody rt db correlationId now source plan') := by
  cases h with
  | refl plan => exact .refl (fun a => ⟨rfl,Ingested.Alike.refl a.2⟩) _
  | @accept e e' rest raw =>
    have hmessage (now : Time) : Option.Rel (QueueMessage.Alike rt) (ingestMessage correlationId now e)
        (ingestMessage correlationId now e') := ingestMessage_alike rest raw
    obtain ⟨raw',rfl⟩ : ∃ raw', e' = { e with identifiers := raw' } := ⟨e'.identifiers,eq_of_anonymous rest⟩
    apply Outcome.Together.bind (Outcome.Together.refl (R := Eq) (fun _ => rfl) (recordValidated rt db e now))
    rintro ⟨out,row⟩ _ rfl
    cases row with
    | none =>
      dsimp only
      cases out.getEvent e.eventId with
      | none => exact .error _
      | some existing => exact .ok ⟨rfl,rfl,.none⟩
    | some row => exact .ok ⟨rfl,rfl,hmessage now⟩

end Bodies
end ConversionGateway
