import ConversionGateway.Lifecycle.IdentifierFields
import ConversionGateway.Model.Conversion

/-! # The two rules for a match key

The normaliser asks which fields of the record are present, the uploader which entries of
its dictionary are truthy, under other names. No field that was accepted is empty, so the
rules agree.
-/
namespace ConversionGateway

/-- `model_dump()` -/
def HashedIdentifiers.modelDump (h : HashedIdentifiers) : List (String × Option String) :=
  [("hashed_email",h.hashedEmail),("hashed_phone",h.hashedPhone),("hashed_given_name",h.hashedGivenName),
    ("hashed_family_name",h.hashedFamilyName),("hashed_street_address",h.hashedStreetAddress),("city",h.city),
    ("region",h.region),("postal_code",h.postalCode),("country",h.country)]

/-- The names of the address fields in the dictionary and in the conversion. -/
def addressNames : List (String × String) :=
  [("hashed_given_name","hashedFirstName"),("hashed_family_name","hashedLastName"),
    ("hashed_street_address","hashedStreetAddress"),("city","city"),("region","state"),("postal_code","postalCode"),
    ("country","countryCode")]

/-- `_user_identifiers` of a dictionary. -/
def userIdentifiersOf (hashed : List (String × Option String)) : List Json :=
  let get (key : String) := (hashed.lookup key).join
  let address := addressNames.flatMap fun names => presentField names.2 (get names.1)
  (presentField "hashedEmail" (get "hashed_email")).map (fun entry => .obj [entry]) ++
  (presentField "hashedPhoneNumber" (get "hashed_phone")).map (fun entry => .obj [entry]) ++
  if requiredAddressKeys.all fun k => (address.lookup k).isSome then [.obj [("addressInfo",.obj address)]]
  else []

/-- Both hashed names, postal code and country are present. -/
def HashedIdentifiers.HasAddress (h : HashedIdentifiers) : Prop :=
  h.hashedGivenName.isSome ∧ h.hashedFamilyName.isSome ∧ h.postalCode.isSome ∧ h.country.isSome

instance (h : HashedIdentifiers) : Decidable h.HasAddress := inferInstanceAs (Decidable (_ ∧ _))

theorem HashedIdentifiers.hasMatchKey_iff (h : HashedIdentifiers) :
    h.hasMatchKey = true ↔ h.hashedEmail.isSome ∨ h.hashedPhone.isSome ∨ h.HasAddress := by
  simp [HashedIdentifiers.hasMatchKey,HashedIdentifiers.HasAddress,or_assoc,and_assoc]

/-- The dictionary of a record has all names that are asked for. -/
theorem userIdentifiersOf_modelDump (h : HashedIdentifiers) : userIdentifiersOf h.modelDump = userIdentifiers h := by
  have haddress : (addressNames.flatMap fun names => presentField names.2 (h.modelDump.lookup names.1).join) =
      addressFields h := by
    simp [addressNames,addressFields,HashedIdentifiers.modelDump,List.lookup_cons]
  unfold userIdentifiersOf userIdentifiers
  dsimp only
  rw [haddress]
  rfl

theorem presentField_eq {key : String} {value : Option String} (h : ∀ s, value = some s → s ≠ "") :
    presentField key value = (value.map fun s => (key,Json.str s)).toList := by
  cases value with
  | none => rfl
  | some s => exact if_neg (h s rfl)

namespace IdentifierField

/-- The name of the field in a conversion. -/
def conversionKey : IdentifierField → String
  | email => "hashedEmail"
  | phone => "hashedPhoneNumber"
  | givenName => "hashedFirstName"
  | familyName => "hashedLastName"
  | streetAddress => "hashedStreetAddress"
  | city => "city"
  | region => "state"
  | postalCode => "postalCode"
  | country => "countryCode"

/-- The fields of an address, in the order in which they are written. -/
def addressOrder : List IdentifierField := [givenName,familyName,streetAddress,city,region,postalCode,country]

theorem conversionKeys_nodup : (addressOrder.map conversionKey).Nodup := by decide

/-- The entry of a field that was accepted. -/
def FromAccepted (rt : Runtime) (r : RawIdentifiers) (entry : String × Json) : Prop :=
  ∃ (f : IdentifierField) (value : String), (f.raw r).isSome ∧ f.normalised rt r = .ok value ∧
    entry = (f.conversionKey,.str (f.written rt value))

section Accepted
variable {rt : Runtime} {r : RawIdentifiers} {f : IdentifierField} {s : String}

theorem lowercaseCollapsed_ne_empty {raw : Option String} (h : lowercaseCollapsed rt raw = .ok s) : s ≠ "" := by
  cases raw with
  | none => cases h
  | some raw =>
    simp only [lowercaseCollapsed] at h
    split at h
    · cases h
    · next hne =>
      cases h
      rwa [ne_eq, String.ofList_eq_empty_iff]

/-- Nothing in the result is empty. -/
theorem output_ne_empty (hsha : ∀ value, rt.sha256Hex value ≠ "")
    (h : f.output (buildUserIdentifiers rt r).identifiers = some s) : s ≠ "" := by
  rw [output_eq] at h
  obtain ⟨value,hvalue,rfl⟩ := Option.map_eq_some_iff.mp h
  have hok := toOption_eq_some.mp hvalue
  cases f with
  | email | phone | givenName | familyName | streetAddress => exact hsha value
  | city | region => exact lowercaseCollapsed_ne_empty hok
  | postalCode => exact normalisePostalCode_ne_empty hok
  | country =>
    rintro rfl
    cases normaliseCountry_length hok

/-- An entry that was written for a field. -/
theorem output_accepted (h : f.output (buildUserIdentifiers rt r).identifiers = some s) :
    FromAccepted rt r (f.conversionKey,.str s) := by
  rw [output_eq] at h
  obtain ⟨value,hvalue,rfl⟩ := Option.map_eq_some_iff.mp h
  have hok := toOption_eq_some.mp hvalue
  refine ⟨f,value,?_,hok,rfl⟩
  by_contra habsent
  rw [normalised_of_absent (by simpa using habsent)] at hok
  cases hok

/-- The entries of a field. -/
def entries (h : HashedIdentifiers) (f : IdentifierField) : Option (String × Json) :=
  (f.output h).map fun s => (f.conversionKey,Json.str s)

theorem entries_accepted {entry : String × Json} (h : f.entries (buildUserIdentifiers rt r).identifiers = some entry) :
    FromAccepted rt r entry := by
  obtain ⟨s,hs,rfl⟩ := Option.map_eq_some_iff.mp h
  exact output_accepted hs

variable (hsha : ∀ value, rt.sha256Hex value ≠ "")
include hsha

theorem addressFields_eq : addressFields (buildUserIdentifiers rt r).identifiers =
    addressOrder.filterMap (entries (buildUserIdentifiers rt r).identifiers) := by
  have hpresent (f : IdentifierField) : presentField f.conversionKey (f.output (buildUserIdentifiers rt r).identifiers) =
      (f.entries (buildUserIdentifiers rt r).identifiers).toList := presentField_eq fun s hs => output_ne_empty hsha hs
  rw [List.filterMap_eq_flatMap_toList, ← List.flatMap_congr fun f _ => hpresent f]
  simp only [addressOrder, List.flatMap_cons, List.flatMap_nil, List.append_nil]
  simp only [addressFields, List.append_assoc]
  rfl

theorem address_lookup (hf : f ∈ addressOrder) : (addressFields (buildUserIdentifiers rt r).identifiers).lookup
    f.conversionKey = (f.output (buildUserIdentifiers rt r).identifiers).map Json.str := by
  rw [addressFields_eq hsha]
  have hlookup : (addressOrder.filterMap fun g => ((g.output (buildUserIdentifiers rt r).identifiers).map Json.str).map
      fun v => (g.conversionKey,v)).lookup f.conversionKey = (f.output (buildUserIdentifiers rt r).identifiers).map Json.str :=
    lookup_label conversionKeys_nodup hf
  simp only [Option.map_map, Function.comp_def] at hlookup
  exact hlookup

/-- The address has the required keys exactly if its fields are there. -/
theorem required_iff : (requiredAddressKeys.all fun k =>
      ((addressFields (buildUserIdentifiers rt r).identifiers).lookup k).isSome) = true ↔
    (buildUserIdentifiers rt r).identifiers.HasAddress := by
  have hgiven := address_lookup (r := r) hsha (f := givenName) (by decide)
  have hfamily := address_lookup (r := r) hsha (f := familyName) (by decide)
  have hpostal := address_lookup (r := r) hsha (f := postalCode) (by decide)
  have hcountry := address_lookup (r := r) hsha (f := country) (by decide)
  simp only [conversionKey, output] at hgiven hfamily hpostal hcountry
  simp only [requiredAddressKeys, List.all_cons, List.all_nil, hgiven, hfamily, hpostal, hcountry, Option.isSome_map,
    Bool.and_true, Bool.and_eq_true]
  rfl

/-- What a conversion says about a record: its email, its phone number and its address if
that is complete. -/
theorem userIdentifiers_eq : userIdentifiers (buildUserIdentifiers rt r).identifiers =
    ([email,phone].filterMap (entries (buildUserIdentifiers rt r).identifiers)).map (fun entry => .obj [entry]) ++
    if (buildUserIdentifiers rt r).identifiers.HasAddress then
      [.obj [("addressInfo",.obj (addressOrder.filterMap (entries (buildUserIdentifiers rt r).identifiers)))]]
    else [] := by
  have hpresent (f : IdentifierField) : presentField f.conversionKey (f.output (buildUserIdentifiers rt r).identifiers) =
      (f.entries (buildUserIdentifiers rt r).identifiers).toList := presentField_eq fun s hs => output_ne_empty hsha hs
  have hemail : presentField "hashedEmail" (buildUserIdentifiers rt r).identifiers.hashedEmail =
      (email.entries (buildUserIdentifiers rt r).identifiers).toList := hpresent email
  have hphone : presentField "hashedPhoneNumber" (buildUserIdentifiers rt r).identifiers.hashedPhone =
      (phone.entries (buildUserIdentifiers rt r).identifiers).toList := hpresent phone
  unfold userIdentifiers
  dsimp only
  rw [hemail, hphone, List.filterMap_eq_flatMap_toList, List.flatMap_cons, List.flatMap_cons, List.flatMap_nil,
    List.append_nil, List.map_append]
  simp only [required_iff hsha]
  rw [addressFields_eq hsha]

end Accepted
end IdentifierField

/-- A record has a match key exactly if its conversion has an identifier; all identifiers come
from accepted fields; and there is an address exactly if both names, the postal code and the
country are there. -/
theorem matchKey_rules_agree {rt : Runtime} (hsha : ∀ value, rt.sha256Hex value ≠ "") (r : RawIdentifiers) :
    ((buildUserIdentifiers rt r).identifiers.hasMatchKey = true ↔
      userIdentifiersOf (buildUserIdentifiers rt r).identifiers.modelDump ≠ []) ∧
    (∀ entry ∈ userIdentifiersOf (buildUserIdentifiers rt r).identifiers.modelDump, ∃ fields,
      (entry = .obj fields ∨ entry = .obj [("addressInfo",.obj fields)]) ∧
      ∀ field ∈ fields, IdentifierField.FromAccepted rt r field) ∧
    ((∃ fields, Json.obj [("addressInfo",.obj fields)] ∈
        userIdentifiersOf (buildUserIdentifiers rt r).identifiers.modelDump) ↔
      (buildUserIdentifiers rt r).identifiers.HasAddress) := by
  rw [userIdentifiersOf_modelDump, IdentifierField.userIdentifiers_eq hsha, HashedIdentifiers.hasMatchKey_iff]
  refine ⟨?_,?_,?_⟩
  · -- one of two entries is there, or the address
    have hsome (f : IdentifierField) : (f.output (buildUserIdentifiers rt r).identifiers).isSome =
        (f.entries (buildUserIdentifiers rt r).identifiers).isSome := Option.isSome_map.symm
    have hemail := hsome .email
    have hphone := hsome .phone
    simp only [IdentifierField.output] at hemail hphone
    rw [hemail, hphone]
    by_cases haddress : (buildUserIdentifiers rt r).identifiers.HasAddress
    · simp [haddress]
    · cases he : IdentifierField.email.entries (buildUserIdentifiers rt r).identifiers <;>
        cases hp : IdentifierField.phone.entries (buildUserIdentifiers rt r).identifiers <;> simp [he,hp,haddress]
  · intro entry hentry
    rcases List.mem_append.mp hentry with hentry | hentry
    · obtain ⟨pair,hpair,rfl⟩ := List.mem_map.mp hentry
      obtain ⟨f,_,hf⟩ := List.mem_filterMap.mp hpair
      refine ⟨[pair],Or.inl rfl,fun field hfield => ?_⟩
      rw [List.mem_singleton.mp hfield]
      exact IdentifierField.entries_accepted hf
    · split at hentry
      · refine ⟨_,Or.inr (List.mem_singleton.mp hentry),fun field hfield => ?_⟩
        obtain ⟨f,_,hf⟩ := List.mem_filterMap.mp hfield
        exact IdentifierField.entries_accepted hf
      · cases hentry
  · constructor
    · rintro ⟨fields,hfields⟩
      rcases List.mem_append.mp hfields with hentry | hentry
      · -- no single entry has this name
        obtain ⟨pair,hpair,heq⟩ := List.mem_map.mp hentry
        obtain ⟨f,hf,hpair⟩ := List.mem_filterMap.mp hpair
        obtain ⟨s,_,rfl⟩ := Option.map_eq_some_iff.mp hpair
        have hkey : f.conversionKey = "addressInfo" := by
          injection heq with heq
          injection heq with heq
          exact congrArg Prod.fst heq
        have hnone : ∀ g ∈ [IdentifierField.email,.phone], g.conversionKey ≠ "addressInfo" := by decide
        exact absurd hkey (hnone f hf)
      · split at hentry
        · assumption
        · cases hentry
    · intro haddress
      rw [if_pos haddress]
      exact ⟨_,List.mem_append_right _ (List.mem_singleton_self _)⟩

/-- A lead with an email and a full address. -/
def addressedLead : RawIdentifiers :=
  { RawIdentifiersOf.blank with
    email := some "a@b.c", givenName := some "Ada", familyName := some "King", city := some "Bonn"
    postalCode := some "53111", country := some "DE" }

/-- The theorem for such a record. -/
theorem matchKey_rules_agree_address :
    userIdentifiersOf (buildUserIdentifiers (.plain .valueError) addressedLead).identifiers.modelDump ≠ [] ∧
    ∃ fields, Json.obj [("addressInfo",.obj fields)] ∈
      userIdentifiersOf (buildUserIdentifiers (.plain .valueError) addressedLead).identifiers.modelDump := by
  have hsha (value : String) : (Runtime.plain .valueError).sha256Hex value ≠ "" := by
    show String.ofList (List.replicate 64 '0') ≠ ""
    decide
  obtain ⟨hkey,_,haddress⟩ := matchKey_rules_agree hsha addressedLead
  exact ⟨hkey.mp (by decide +kernel),haddress.mpr (by decide +kernel)⟩

end ConversionGateway
