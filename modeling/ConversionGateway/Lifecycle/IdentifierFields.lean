import Mathlib.Data.List.Nodup
import ConversionGateway.Model.Identifiers

/-! # The fields of a record, one by one

`buildUserIdentifiers` keeps its outcomes in a dictionary under the names of the raw
fields and reads them back under other names. Here the nine fields are told apart by
a type, and each is followed from the raw record to the result.
-/
namespace ConversionGateway

/-! ## Labelled lists -/

section Labelled
variable {ι β γ : Type*} [DecidableEq γ] {fs : List ι} {f : ι} {name : ι → γ}

/-- Of entries made one for each item at most, those under an item's label are its own. -/
theorem filter_label {g : ι → Option β} {label : β → γ} (hg : ∀ f b, g f = some b → label b = name f)
    (hn : (fs.map name).Nodup) (hf : f ∈ fs) :
    (fs.filterMap g).filter (fun b => label b = name f) = (g f).toList := by
  induction fs with
  | nil => cases hf
  | cons x fs ih =>
    obtain ⟨hx,hn⟩ := List.nodup_cons.mp hn
    rcases List.mem_cons.mp hf with rfl | hmem
    · have hrest : (fs.filterMap g).filter (fun b => label b = name f) = [] := by
        apply List.filter_eq_nil_iff.mpr
        intro b hb
        obtain ⟨y,hy,hyb⟩ := List.mem_filterMap.mp hb
        rw [hg y b hyb, decide_eq_true_eq]
        intro heq
        exact hx (heq ▸ List.mem_map_of_mem hy)
      cases hgf : g f with
      | none => rw [List.filterMap_cons_none hgf, hrest, Option.toList_none]
      | some b =>
        rw [List.filterMap_cons_some hgf, List.filter_cons_of_pos (by simpa using hg f b hgf), hrest,
          Option.toList_some]
    · cases hgx : g x with
      | none => rw [List.filterMap_cons_none hgx, ih hn hmem]
      | some b =>
        have hne : ¬ label b = name f := by
          rw [hg x b hgx]
          intro heq
          exact hx (heq ▸ List.mem_map_of_mem hmem)
        rw [List.filterMap_cons_some hgx, List.filter_cons_of_neg (by simpa using hne), ih hn hmem]

theorem lookup_eq_head? {l : List (γ × β)} {k : γ} :
    l.lookup k = ((l.filter fun p => p.1 = k).head?).map Prod.snd := by
  induction l with
  | nil => rfl
  | cons p l ih =>
    by_cases hk : p.1 = k
    · subst hk
      rw [List.lookup_cons, beq_self_eq_true, List.filter_cons_of_pos (by simp)]
      rfl
    · have hne : (k == p.1) = false := by simpa using Ne.symm hk
      rw [List.lookup_cons, hne, List.filter_cons_of_neg (by simpa using hk)]
      exact ih

/-- Looking up an item's label gives the value of the item. -/
theorem lookup_label {value : ι → Option β} (hn : (fs.map name).Nodup) (hf : f ∈ fs) :
    (fs.filterMap fun f => (value f).map fun v => (name f,v)).lookup (name f) = value f := by
  have hg : ∀ f p, ((value f).map fun v => (name f,v)) = some p → p.1 = name f := by
    intro f p hp
    obtain ⟨v,_,rfl⟩ := Option.map_eq_some_iff.mp hp
    rfl
  rw [lookup_eq_head?, filter_label hg hn hf]
  cases value f <;> rfl

end Labelled

theorem toOption_eq_some {outcome : Normalised} {s : String} : outcome.toOption = some s ↔ outcome = .ok s := by
  cases outcome <;> simp [Except.toOption]

/-! ## The nine fields -/

inductive IdentifierField
  | country | email | phone | givenName | familyName | streetAddress | city | region | postalCode
deriving DecidableEq, Repr

namespace IdentifierField

/-- The fields in the order in which they are attempted. -/
def all : List IdentifierField :=
  [country,email,phone,givenName,familyName,streetAddress,city,region,postalCode]

theorem mem_all (f : IdentifierField) : f ∈ all := by cases f <;> decide

/-- The name of the raw field. -/
def name : IdentifierField → String
  | country => "country"
  | email => "email"
  | phone => "phone"
  | givenName => "given_name"
  | familyName => "family_name"
  | streetAddress => "street_address"
  | city => "city"
  | region => "region"
  | postalCode => "postal_code"

theorem names_nodup : (all.map name).Nodup := by decide

theorem name_ne_identifiers (f : IdentifierField) : f.name ≠ "identifiers" := by cases f <;> decide

def raw (r : RawIdentifiers) : IdentifierField → Option String
  | country => r.country
  | email => r.email
  | phone => r.phone
  | givenName => r.givenName
  | familyName => r.familyName
  | streetAddress => r.streetAddress
  | city => r.city
  | region => r.region
  | postalCode => r.postalCode

/-- The field of the result. -/
def output (h : HashedIdentifiers) : IdentifierField → Option String
  | country => h.country
  | email => h.hashedEmail
  | phone => h.hashedPhone
  | givenName => h.hashedGivenName
  | familyName => h.hashedFamilyName
  | streetAddress => h.hashedStreetAddress
  | city => h.city
  | region => h.region
  | postalCode => h.postalCode

section Fields
variable (rt : Runtime) (r : RawIdentifiers)

/-- The field through its own normaliser; a phone number is read in the country of the
record, if that was accepted. -/
def normalised : IdentifierField → Normalised
  | country => normaliseCountry rt r.country
  | email => normaliseEmail rt r.email
  | phone => normalisePhone rt r.phone (normaliseCountry rt r.country).toOption
  | givenName => normaliseName rt r.givenName
  | familyName => normaliseName rt r.familyName
  | streetAddress => normaliseStreet rt r.streetAddress
  | city => normaliseCity rt r.city
  | region => normaliseRegion rt r.region
  | postalCode => normalisePostalCode r.postalCode

/-- What the result holds of a normal form: its digest, or the text in clear. -/
def written (value : String) : IdentifierField → String
  | country | city | region | postalCode => value
  | email | phone | givenName | familyName | streetAddress => rt.sha256Hex value

variable {rt r} {f : IdentifierField}

theorem outcomes_eq : identifierOutcomes rt r =
    all.filterMap fun f => (f.raw r).map fun _ => (f.name,f.normalised rt r) := by
  show (all.map fun f => (f.raw r).map fun _ => (f.name,f.normalised rt r)).filterMap id = _
  rw [List.filterMap_map]
  rfl

theorem outcomeOf_name : outcomeOf rt r f.name =
    ((f.raw r).map fun _ => f.normalised rt r).getD (.error .missing) := by
  have hlookup : (all.filterMap fun f => ((f.raw r).map fun _ => f.normalised rt r).map fun v => (f.name,v)).lookup
      f.name = (f.raw r).map fun _ => f.normalised rt r := lookup_label names_nodup f.mem_all
  simp only [Option.map_map, Function.comp_def] at hlookup
  rw [outcomeOf, outcomes_eq, hlookup]

/-- An absent field is read as one that is missing. -/
theorem normalised_of_absent (h : f.raw r = none) : f.normalised rt r = .error .missing := by
  cases f <;> simp only [raw] at h <;> simp only [normalised, h] <;> rfl

theorem output_eq (rt : Runtime) (r : RawIdentifiers) (f : IdentifierField) :
    f.output (buildUserIdentifiers rt r).identifiers =
    (f.normalised rt r).toOption.map fun s => f.written rt s := by
  have hread : outcomeOf rt r f.name = f.normalised rt r := by
    rw [outcomeOf_name]
    cases hr : f.raw r with
    | none => rw [normalised_of_absent hr]; rfl
    | some s => rfl
  rw [← hread]
  cases f with
  | country | city | region | postalCode => exact Option.map_id'.symm
  | email | phone | givenName | familyName | streetAddress => rfl

/-! ## Rejections -/

/-- The rejection of a field that is there and has no normal form. -/
def rejection (rt : Runtime) (r : RawIdentifiers) (f : IdentifierField) : Option FieldRejection :=
  (f.raw r).bind fun _ => rejectionOf (f.name,f.normalised rt r)

theorem rejection_some {j : FieldRejection} (h : f.rejection rt r = some j) : j.field = f.name ∧
    f.normalised rt r = .error j.reason := by
  obtain ⟨_,_,h⟩ := Option.bind_eq_some_iff.mp h
  unfold rejectionOf at h
  split at h
  · next reason hreason =>
    cases h
    exact ⟨rfl,hreason⟩
  · cases h

/-- The rejection of a record that nothing matches. -/
def unmatched : FieldRejection := ⟨"identifiers",.noMatchKey⟩

theorem rejections_eq (rt : Runtime) (r : RawIdentifiers) : (buildUserIdentifiers rt r).rejections =
    all.filterMap (rejection rt r) ++
      if (buildUserIdentifiers rt r).identifiers.hasMatchKey = true then [] else [unmatched] := by
  have hfields : (identifierOutcomes rt r).filterMap rejectionOf = all.filterMap (rejection rt r) := by
    rw [outcomes_eq, List.filterMap_filterMap]
    apply congrArg (fun g => all.filterMap g)
    funext f
    unfold rejection
    cases f.raw r <;> rfl
  rw [← hfields]
  unfold buildUserIdentifiers
  dsimp only
  split
  · rw [List.append_nil]
  · rfl

/-- The rejections that name a field are the one it has. -/
theorem rejections_named (rt : Runtime) (r : RawIdentifiers) (f : IdentifierField) :
    (buildUserIdentifiers rt r).rejections.filter (fun j => j.field = f.name) = (f.rejection rt r).toList := by
  have hlast : (if (buildUserIdentifiers rt r).identifiers.hasMatchKey = true then [] else [unmatched]).filter
      (fun j => j.field = f.name) = [] := by
    apply List.filter_eq_nil_iff.mpr
    intro j hj
    split at hj
    · cases hj
    · rw [List.mem_singleton.mp hj, decide_eq_true_eq]
      exact Ne.symm f.name_ne_identifiers
  rw [rejections_eq, List.filter_append, hlast, List.append_nil]
  exact filter_label (fun _ _ h => (rejection_some h).1) names_nodup f.mem_all

theorem normaliseEmail_reason (raw : Option String) : normaliseEmail rt raw ≠ .error .noMatchKey := by
  cases raw with
  | none => simp [normaliseEmail]
  | some s =>
    simp only [normaliseEmail]
    split_ifs <;> simp

theorem normalisePhone_reason (raw region : Option String) : normalisePhone rt raw region ≠ .error .noMatchKey := by
  cases raw with
  | none => simp [normalisePhone]
  | some s =>
    simp only [normalisePhone]
    split_ifs
    · simp
    · simp
    · split
      · simp
      · split_ifs <;> simp

theorem normaliseName_reason (raw : Option String) : normaliseName rt raw ≠ .error .noMatchKey := by
  cases raw with
  | none => simp [normaliseName]
  | some s =>
    simp only [normaliseName]
    split_ifs <;> simp

theorem normaliseStreet_reason (raw : Option String) : normaliseStreet rt raw ≠ .error .noMatchKey := by
  cases raw with
  | none => simp [normaliseStreet]
  | some s =>
    simp only [normaliseStreet]
    split_ifs <;> simp

theorem lowercaseCollapsed_reason (raw : Option String) : lowercaseCollapsed rt raw ≠ .error .noMatchKey := by
  cases raw with
  | none => simp [lowercaseCollapsed]
  | some s =>
    simp only [lowercaseCollapsed]
    split_ifs <;> simp

theorem normalisePostalCode_reason (raw : Option String) : normalisePostalCode raw ≠ .error .noMatchKey := by
  cases raw with
  | none => simp [normalisePostalCode]
  | some s =>
    simp only [normalisePostalCode]
    split_ifs <;> simp

theorem normaliseCountry_reason (raw : Option String) : normaliseCountry rt raw ≠ .error .noMatchKey := by
  cases raw with
  | none => simp [normaliseCountry]
  | some s =>
    simp only [normaliseCountry]
    split_ifs <;> simp

/-- No normaliser gives the reason of a record that nothing matches. -/
theorem normalised_reason (rt : Runtime) (r : RawIdentifiers) (f : IdentifierField) :
    f.normalised rt r ≠ .error .noMatchKey := by
  cases f with
  | country => exact normaliseCountry_reason _
  | email => exact normaliseEmail_reason _
  | phone => exact normalisePhone_reason _ _
  | givenName | familyName => exact normaliseName_reason _
  | streetAddress => exact normaliseStreet_reason _
  | city | region => exact lowercaseCollapsed_reason _
  | postalCode => exact normalisePostalCode_reason _

theorem mem_rejections {j : FieldRejection} (h : j ∈ (buildUserIdentifiers rt r).rejections) :
    (∃ f : IdentifierField, j.field = f.name ∧ f.normalised rt r = .error j.reason) ∨ j = unmatched := by
  rw [rejections_eq] at h
  rcases List.mem_append.mp h with h | h
  · obtain ⟨f,_,hf⟩ := List.mem_filterMap.mp h
    exact Or.inl ⟨f,rejection_some hf⟩
  · split at h
    · cases h
    · exact Or.inr (List.mem_singleton.mp h)

end Fields

/-! ## The result -/

/-- What becomes of a field. -/
inductive Fate
  | absent
  | accepted (value : String)
  | rejected (reason : RejectionReason)

/-- The result says this, and nothing else, about the field. -/
def Reports (rt : Runtime) (r : RawIdentifiers) (result : IdentifierBuildResult) (f : IdentifierField) :
    Fate → Prop
  | .absent => f.raw r = none ∧ f.output result.identifiers = none ∧
      result.rejections.filter (fun j => j.field = f.name) = []
  | .accepted value => (f.raw r).isSome ∧ f.normalised rt r = .ok value ∧
      f.output result.identifiers = some (f.written rt value) ∧
      result.rejections.filter (fun j => j.field = f.name) = []
  | .rejected reason => (f.raw r).isSome ∧ f.normalised rt r = .error reason ∧
      f.output result.identifiers = none ∧
      result.rejections.filter (fun j => j.field = f.name) = [⟨f.name,reason⟩]

section Result
variable (rt : Runtime) (r : RawIdentifiers)

theorem reports_unique (f : IdentifierField) : ∃! fate, f.Reports rt r (buildUserIdentifiers rt r) fate := by
  have hnamed := rejections_named rt r f
  have houtput := output_eq rt r f
  unfold rejection at hnamed
  cases hr : f.raw r with
  | none =>
    rw [hr] at hnamed
    rw [normalised_of_absent hr] at houtput
    refine ⟨.absent,⟨hr,houtput,hnamed⟩,?_⟩
    rintro (_ | value | reason) hfate
    · rfl
    · exact absurd hfate.1 (by simp [hr])
    · exact absurd hfate.1 (by simp [hr])
  | some s =>
    have hpresent : (f.raw r).isSome = true := by rw [hr]; rfl
    rw [hr, Option.bind_some] at hnamed
    cases hn : f.normalised rt r with
    | ok value =>
      rw [hn] at hnamed houtput
      refine ⟨.accepted value,⟨hpresent,hn,houtput,hnamed⟩,?_⟩
      rintro (_ | value' | reason) hfate
      · exact absurd hfate.1 (by simp [hr])
      · rw [Except.ok.inj (hn.symm.trans hfate.2.1)]
      · cases hn.symm.trans hfate.2.1
    | error reason =>
      rw [hn] at hnamed houtput
      refine ⟨.rejected reason,⟨hpresent,hn,houtput,hnamed⟩,?_⟩
      rintro (_ | value | reason') hfate
      · exact absurd hfate.1 (by simp [hr])
      · cases hn.symm.trans hfate.2.1
      · rw [Except.error.inj (hn.symm.trans hfate.2.1)]

theorem rejection_reason {f : IdentifierField} {j : FieldRejection} (h : f.rejection rt r = some j) :
    j.reason ≠ .noMatchKey := by
  intro hreason
  exact normalised_reason rt r f (hreason ▸ (rejection_some h).2)

/-- A record that nothing matches has one rejection for it, after those of the fields. -/
theorem hasMatchKey_false_iff : (buildUserIdentifiers rt r).identifiers.hasMatchKey = false ↔
    ∃ fields, (buildUserIdentifiers rt r).rejections = fields ++ [unmatched] ∧
      ∀ j ∈ fields, j.reason ≠ .noMatchKey := by
  have hfields : ∀ j ∈ all.filterMap (rejection rt r), j.reason ≠ .noMatchKey := by
    intro j hj
    obtain ⟨f,_,hf⟩ := List.mem_filterMap.mp hj
    exact rejection_reason rt r hf
  constructor
  · intro hkey
    refine ⟨all.filterMap (rejection rt r),?_,hfields⟩
    rw [rejections_eq, if_neg (by simp [hkey])]
  · rintro ⟨fields,heq,_⟩
    by_contra hkey
    rw [rejections_eq, if_pos (by simpa using hkey), List.append_nil] at heq
    exact hfields unmatched (heq ▸ List.mem_append_right fields (List.mem_singleton_self _)) rfl

/-- A number without a country prefix is read in the country of the record. -/
theorem normalisePhone_national {raw value : String} {region : Option String}
    (hnational : (Text.strip raw).toList.head? ≠ some '+') (h : normalisePhone rt (some raw) region = .ok value) :
    ∃ country number, region = some country ∧ rt.parsePhone (Text.strip raw) (some (rt.upper country)) = some number ∧
      rt.isValidNumber number = true ∧ value = rt.formatE164 number := by
  simp only [normalisePhone] at h
  split at h
  · cases h
  · cases region with
    | none => simp [hnational] at h
    | some country =>
      simp only [Option.map_some, reduceCtorEq, false_and, if_false] at h
      split at h
      · cases h
      · next number hparse =>
        split at h
        · next hvalid =>
          cases h
          exact ⟨country,number,rfl,hparse,hvalid,rfl⟩
        · cases h

end Result
end IdentifierField

/-- Every field is absent, accepted or rejected, and the result says so and nothing else; a
record without a match key has one rejection for it, the last; and a number without a country
prefix is accepted in the accepted country of its record only. -/
theorem buildUserIdentifiers_exact (rt : Runtime) (r : RawIdentifiers) :
    (∀ f : IdentifierField, ∃! fate, f.Reports rt r (buildUserIdentifiers rt r) fate) ∧
    ((buildUserIdentifiers rt r).identifiers.hasMatchKey = false ↔
      ∃ fields, (buildUserIdentifiers rt r).rejections = fields ++ [⟨"identifiers",.noMatchKey⟩] ∧
        ∀ j ∈ fields, j.reason ≠ .noMatchKey) ∧
    ((buildUserIdentifiers rt r).identifiers.hasMatchKey = true ↔
      ∀ j ∈ (buildUserIdentifiers rt r).rejections, j.reason ≠ .noMatchKey) ∧
    ∀ phone digest, r.phone = some phone → (Text.strip phone).toList.head? ≠ some '+' →
      (buildUserIdentifiers rt r).identifiers.hashedPhone = some digest →
      ∃ country number, normaliseCountry rt r.country = .ok country ∧
        (buildUserIdentifiers rt r).identifiers.country = some country ∧
        rt.parsePhone (Text.strip phone) (some (rt.upper country)) = some number ∧
        rt.isValidNumber number = true ∧ digest = rt.sha256Hex (rt.formatE164 number) := by
  refine ⟨IdentifierField.reports_unique rt r,IdentifierField.hasMatchKey_false_iff rt r,⟨?_,?_⟩,?_⟩
  · intro hkey j hj hreason
    rw [IdentifierField.rejections_eq, if_pos hkey, List.append_nil] at hj
    obtain ⟨f,_,hf⟩ := List.mem_filterMap.mp hj
    exact IdentifierField.rejection_reason rt r hf hreason
  · intro h
    exact buildUserIdentifiers_hasMatchKey h
  · intro phone digest hphone hnational hdigest
    have hread : (buildUserIdentifiers rt r).identifiers.hashedPhone =
        (IdentifierField.phone.normalised rt r).toOption.map rt.sha256Hex :=
      IdentifierField.output_eq rt r .phone
    have hcountry : (buildUserIdentifiers rt r).identifiers.country =
        (normaliseCountry rt r.country).toOption.map id := IdentifierField.output_eq rt r .country
    rw [hread] at hdigest
    obtain ⟨value,hvalue,rfl⟩ := Option.map_eq_some_iff.mp hdigest
    have hok : normalisePhone rt (some phone) (normaliseCountry rt r.country).toOption = .ok value := by
      rw [← hphone]
      exact toOption_eq_some.mp hvalue
    obtain ⟨country,number,hregion,hparse,hvalid,rfl⟩ := IdentifierField.normalisePhone_national rt hnational hok
    rw [hregion] at hcountry
    exact ⟨country,number,toOption_eq_some.mp hregion,hcountry,hparse,hvalid,rfl⟩

end ConversionGateway
