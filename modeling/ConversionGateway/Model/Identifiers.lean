import ConversionGateway.Model.Runtime

/-! # Normalisation and hashing of identifiers

Every normaliser maps a field as it came off the CRM record to its canonical
text or to the reason it was rejected. `buildUserIdentifiers` attempts every
present field and reports each one that failed.
-/
namespace ConversionGateway

inductive RejectionReason
  | missing | empty | malformed | unparseable | invalid | noDefaultRegion | notAlpha2 | noMatchKey
deriving DecidableEq, Repr

def RejectionReason.value : RejectionReason → String
  | .missing => "missing"
  | .empty => "empty"
  | .malformed => "malformed"
  | .unparseable => "unparseable"
  | .invalid => "invalid"
  | .noDefaultRegion => "no_default_region"
  | .notAlpha2 => "not_alpha2"
  | .noMatchKey => "no_match_key"

structure FieldRejection where
  field : String
  reason : RejectionReason
deriving DecidableEq, Repr

/-- `str | RejectionReason` -/
abbrev Normalised := Except RejectionReason String

/-- The raw fields of a lead; `T` is the type of their text. -/
structure RawIdentifiersOf (T : Type) where
  email : Option T
  phone : Option T
  givenName : Option T
  familyName : Option T
  streetAddress : Option T
  city : Option T
  region : Option T
  postalCode : Option T
  country : Option T
deriving DecidableEq, Repr

abbrev RawIdentifiers := RawIdentifiersOf String

/-- `RawIdentifiers()` -/
def RawIdentifiersOf.blank {T : Type} : RawIdentifiersOf T :=
  ⟨none,none,none,none,none,none,none,none,none⟩

/-- Every text of the record as UTF-8, or the error of the first that has none. -/
def RawIdentifiersOf.encode (raw : RawIdentifiersOf PyText) : Except PyError RawIdentifiers := do
  return ⟨← PyText.encodeOption raw.email,← PyText.encodeOption raw.phone,
    ← PyText.encodeOption raw.givenName,← PyText.encodeOption raw.familyName,
    ← PyText.encodeOption raw.streetAddress,← PyText.encodeOption raw.city,
    ← PyText.encodeOption raw.region,← PyText.encodeOption raw.postalCode,
    ← PyText.encodeOption raw.country⟩

structure HashedIdentifiers where
  hashedEmail : Option String
  hashedPhone : Option String
  hashedGivenName : Option String
  hashedFamilyName : Option String
  hashedStreetAddress : Option String
  city : Option String
  region : Option String
  postalCode : Option String
  country : Option String
deriving DecidableEq, Repr

def HashedIdentifiers.hasMatchKey (h : HashedIdentifiers) : Bool :=
  let fullAddress :=
    h.hashedGivenName.isSome && h.hashedFamilyName.isSome && h.postalCode.isSome && h.country.isSome
  h.hashedEmail.isSome || h.hashedPhone.isSome || fullAddress

/-- The strings of the record, for the checks of the `JSONB` column. -/
def HashedIdentifiers.texts (h : HashedIdentifiers) : List String :=
  [h.hashedEmail,h.hashedPhone,h.hashedGivenName,h.hashedFamilyName,h.hashedStreetAddress,
    h.city,h.region,h.postalCode,h.country].filterMap id

section Normalisers
variable (rt : Runtime)

def dotInsensitiveDomains : List String := ["gmail.com","googlemail.com"]

def normaliseEmail (raw : Option String) : Normalised :=
  match raw with
  | none => .error .missing
  | some raw =>
    let value := (rt.lower (Text.strip raw)).toList
    if value = [] then .error .empty else
    let localPart := value.takeWhile (· ≠ '@')
    let rest := value.dropWhile (· ≠ '@')
    let domain := rest.drop 1
    if rest = [] ∨ localPart = [] ∨ domain = [] ∨ '@' ∈ domain then .error .malformed else
    if String.ofList domain ∈ dotInsensitiveDomains then
      let localPart := (localPart.filter (· ≠ '.')).takeWhile (· ≠ '+')
      if localPart = [] then .error .malformed else .ok (String.ofList (localPart ++ '@' :: domain))
    else .ok (String.ofList (localPart ++ '@' :: domain))

def normalisePhone (raw defaultRegion : Option String) : Normalised :=
  match raw with
  | none => .error .missing
  | some raw =>
    let value := Text.strip raw
    if value = "" then .error .empty else
    let region := defaultRegion.map rt.upper
    if region = none ∧ value.toList.head? ≠ some '+' then .error .noDefaultRegion else
    match rt.parsePhone value region with
    | none => .error .unparseable
    | some parsed => if rt.isValidNumber parsed then .ok (rt.formatE164 parsed) else .error .invalid

def stripTokens : List String :=
  ["mr","mrs","ms","miss","mx","dr","prof","sir","madam","jr","sr","ii","iii","iv","esq","phd","md"]

def stripAccents (value : String) : String :=
  String.ofList ((rt.nfkd value).toList.filter fun c => rt.category c ≠ "Mn")

def stripPunctuation (value : String) : String :=
  String.ofList (value.toList.filter fun c => (rt.category c).toList.head? ≠ some 'P')

def normaliseName (raw : Option String) : Normalised :=
  match raw with
  | none => .error .missing
  | some raw =>
    let value := stripPunctuation rt (stripAccents rt (rt.lower (Text.strip raw)))
    let kept := (Text.tokens value.toList).filter fun t => String.ofList t ∉ stripTokens
    if kept = [] then .error .empty else .ok (String.ofList kept.flatten)

def normaliseStreet (raw : Option String) : Normalised :=
  match raw with
  | none => .error .missing
  | some raw =>
    let value := stripPunctuation rt (stripAccents rt (rt.lower (Text.strip raw)))
    let tokens := Text.tokens value.toList
    if tokens = [] then .error .empty else .ok (String.ofList (List.intercalate [' '] tokens))

def lowercaseCollapsed (raw : Option String) : Normalised :=
  match raw with
  | none => .error .missing
  | some raw =>
    let value := List.intercalate [' '] (Text.tokens (rt.lower (Text.strip raw)).toList)
    if value = [] then .error .empty else .ok (String.ofList value)

def normaliseCity (raw : Option String) : Normalised := lowercaseCollapsed rt raw

def normaliseRegion (raw : Option String) : Normalised := lowercaseCollapsed rt raw

def normalisePostalCode (raw : Option String) : Normalised :=
  match raw with
  | none => .error .missing
  | some raw => if Text.strip raw = "" then .error .empty else .ok (Text.strip raw)

def normaliseCountry (raw : Option String) : Normalised :=
  match raw with
  | none => .error .missing
  | some raw =>
    let value := rt.upper (Text.strip raw)
    if value = "" then .error .empty else
    if value.length ≠ 2 ∨ ¬ value.toList.all rt.isAlpha then .error .notAlpha2 else .ok value

end Normalisers

structure IdentifierBuildResult where
  identifiers : HashedIdentifiers
  rejections : List FieldRejection

/-- Reason of an outcome that is a rejection. -/
def rejectionOf (outcome : String × Normalised) : Option FieldRejection :=
  match outcome.2 with
  | .error reason => some ⟨outcome.1,reason⟩
  | .ok _ => none

section Build
variable (rt : Runtime) (raw : RawIdentifiers)

/-- The outcome of every present field; the country comes first because the
phone number is parsed against it. -/
def identifierOutcomes : List (String × Normalised) :=
  let country := normaliseCountry rt raw.country
  let attempt (field : String) (present : Option String) (outcome : Normalised) :=
    present.map fun _ => (field,outcome)
  [attempt "country" raw.country country,
    attempt "email" raw.email (normaliseEmail rt raw.email),
    attempt "phone" raw.phone (normalisePhone rt raw.phone country.toOption),
    attempt "given_name" raw.givenName (normaliseName rt raw.givenName),
    attempt "family_name" raw.familyName (normaliseName rt raw.familyName),
    attempt "street_address" raw.streetAddress (normaliseStreet rt raw.streetAddress),
    attempt "city" raw.city (normaliseCity rt raw.city),
    attempt "region" raw.region (normaliseRegion rt raw.region),
    attempt "postal_code" raw.postalCode (normalisePostalCode raw.postalCode)].filterMap id

/-- `outcomes.get(field, MISSING)` -/
def outcomeOf (field : String) : Normalised :=
  ((identifierOutcomes rt raw).lookup field).getD (.error .missing)

def hashOrNone (outcome : Normalised) : Option String := outcome.toOption.map rt.sha256Hex

def plainOrNone (outcome : Normalised) : Option String := outcome.toOption

def buildUserIdentifiers : IdentifierBuildResult :=
  let outcome := outcomeOf rt raw
  let identifiers : HashedIdentifiers :=
    { hashedEmail := hashOrNone rt (outcome "email")
      hashedPhone := hashOrNone rt (outcome "phone")
      hashedGivenName := hashOrNone rt (outcome "given_name")
      hashedFamilyName := hashOrNone rt (outcome "family_name")
      hashedStreetAddress := hashOrNone rt (outcome "street_address")
      city := plainOrNone (outcome "city")
      region := plainOrNone (outcome "region")
      postalCode := plainOrNone (outcome "postal_code")
      country := plainOrNone (outcome "country") }
  let rejections := (identifierOutcomes rt raw).filterMap rejectionOf
  ⟨identifiers,if identifiers.hasMatchKey then rejections
    else rejections ++ [⟨"identifiers",.noMatchKey⟩]⟩

end Build

/-- What every record built from raw identifiers looks like: digests where the
names say so, and postal code and country never empty. -/
structure HashedIdentifiers.WellFormed (rt : Runtime) (h : HashedIdentifiers) : Prop where
  digest : ∀ d, d ∈ [h.hashedEmail,h.hashedPhone,h.hashedGivenName,h.hashedFamilyName,
    h.hashedStreetAddress] → ∀ s, d = some s → ∃ data, s = rt.sha256 data
  postalCode : ∀ s, h.postalCode = some s → s ≠ ""
  country : ∀ s, h.country = some s → s ≠ ""

theorem hashOrNone_digest {rt : Runtime} {outcome : Normalised} {s : String}
    (h : hashOrNone rt outcome = some s) : ∃ data, s = rt.sha256 data := by
  obtain ⟨v,_,rfl⟩ := Option.map_eq_some_iff.mp h
  exact ⟨v.toUTF8,rfl⟩

theorem normalisePostalCode_ne_empty {raw : Option String} {s : String}
    (h : normalisePostalCode raw = .ok s) : s ≠ "" := by
  cases raw with
  | none => simp [normalisePostalCode] at h
  | some raw =>
    simp only [normalisePostalCode] at h
    split at h
    · cases h
    · next hne => cases h; exact hne

theorem normaliseCountry_length {rt : Runtime} {raw : Option String} {s : String}
    (h : normaliseCountry rt raw = .ok s) : s.length = 2 := by
  cases raw with
  | none => simp [normaliseCountry] at h
  | some raw =>
    simp only [normaliseCountry] at h
    split at h
    · cases h
    · split at h
      · cases h
      · next hn =>
        cases h
        exact not_not.mp fun hl => hn (Or.inl hl)

/-- A field is looked up under the outcome that was computed for it. -/
theorem outcomeOf_mem {rt : Runtime} {raw : RawIdentifiers} {field s : String}
    (h : outcomeOf rt raw field = .ok s) : (field,Except.ok s) ∈ identifierOutcomes rt raw := by
  unfold outcomeOf at h
  cases hl : (identifierOutcomes rt raw).lookup field with
  | none => simp [hl] at h
  | some o =>
    rw [hl, Option.getD_some] at h
    subst h
    obtain ⟨l₁,l₂,hsplit,_⟩ := List.lookup_eq_some_iff.mp hl
    rw [hsplit]
    simp

theorem outcomeOf_postal_code {rt : Runtime} {raw : RawIdentifiers} {s : String}
    (h : outcomeOf rt raw "postal_code" = .ok s) : normalisePostalCode raw.postalCode = .ok s := by
  have hm := outcomeOf_mem h
  simp only [identifierOutcomes, List.mem_filterMap, List.mem_cons, List.not_mem_nil, or_false, id_eq,
    exists_eq_right] at hm
  have hp : (∃ x, raw.postalCode = some x) ∧ normalisePostalCode raw.postalCode = .ok s := by
    simpa [eq_comm, Option.map_eq_some_iff] using hm
  exact hp.2

theorem outcomeOf_country {rt : Runtime} {raw : RawIdentifiers} {s : String}
    (h : outcomeOf rt raw "country" = .ok s) : normaliseCountry rt raw.country = .ok s := by
  have hm := outcomeOf_mem h
  simp only [identifierOutcomes, List.mem_filterMap, List.mem_cons, List.not_mem_nil, or_false, id_eq,
    exists_eq_right] at hm
  have hp : (∃ x, raw.country = some x) ∧ normaliseCountry rt raw.country = .ok s := by
    simpa [eq_comm, Option.map_eq_some_iff] using hm
  exact hp.2

theorem buildUserIdentifiers_wellFormed (rt : Runtime) (raw : RawIdentifiers) :
    (buildUserIdentifiers rt raw).identifiers.WellFormed rt := by
  refine ⟨?_,?_,?_⟩
  · intro d hd s hs
    simp only [buildUserIdentifiers, List.mem_cons, List.not_mem_nil, or_false] at hd
    rcases hd with rfl | rfl | rfl | rfl | rfl <;> exact hashOrNone_digest hs
  · intro s hs
    have ho : outcomeOf rt raw "postal_code" = .ok s := by
      simp only [buildUserIdentifiers, plainOrNone] at hs
      cases h : outcomeOf rt raw "postal_code" <;> simp_all [Except.toOption]
    exact normalisePostalCode_ne_empty (outcomeOf_postal_code ho)
  · intro s hs he
    have ho : outcomeOf rt raw "country" = .ok s := by
      simp only [buildUserIdentifiers, plainOrNone] at hs
      cases h : outcomeOf rt raw "country" <;> simp_all [Except.toOption]
    have hl := normaliseCountry_length (outcomeOf_country ho)
    simp [he] at hl

/-- No rejection at all means the record is matchable; with only the missing
match key tolerated, everything else is still required. -/
theorem buildUserIdentifiers_hasMatchKey {rt : Runtime} {raw : RawIdentifiers}
    (h : ∀ r ∈ (buildUserIdentifiers rt raw).rejections, r.reason ≠ .noMatchKey) :
    (buildUserIdentifiers rt raw).identifiers.hasMatchKey = true := by
  by_contra hn
  refine h ⟨"identifiers",.noMatchKey⟩ ?_ rfl
  have hf : (buildUserIdentifiers rt raw).identifiers.hasMatchKey = false := by simpa using hn
  unfold buildUserIdentifiers at hf ⊢
  dsimp only at hf ⊢
  rw [if_neg (by simp [hf])]
  simp

end ConversionGateway
