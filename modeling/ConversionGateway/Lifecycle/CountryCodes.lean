import ConversionGateway.Lifecycle.CanonicalEmail
import ConversionGateway.Lifecycle.IdentifierFields

/-! # Country codes

The shape of a country is tested after it was mapped to upper case, by a letter test
that knows every script. So a sharp s, or two letters with accents, pass for a code.
-/
namespace ConversionGateway
open Unicode

/-- Two ASCII letters. -/
def AlphaPair (s : List Char) : Prop := s.length = 2 ∧ ∀ c ∈ s, c.isAlpha = true

/-- Two characters in A-Z. -/
def CountryCode (s : String) : Prop := s.toList.length = 2 ∧ ∀ c ∈ s.toList, c.isUpper = true

/-- The trimmed text of a country is a code in either case, and becomes that code. -/
def ExactCountry (rt : Runtime) (raw : String) : Prop :=
  ∀ v, normaliseCountry rt (some raw) = .ok v ↔
    AlphaPair (Text.strip raw).toList ∧ v = String.ofList ((Text.strip raw).toList.map Char.toUpper)

/-- The region with which the phone number of a record is parsed. -/
def phoneRegion (rt : Runtime) (r : RawIdentifiers) : Option String := (normaliseCountry rt r.country).toOption

theorem normalised_phone (rt : Runtime) (r : RawIdentifiers) :
    IdentifierField.phone.normalised rt r = normalisePhone rt r.phone (phoneRegion rt r) := rfl

/-- No pair of ASCII letters, but one character whose upper case is two letters, or two
characters with a letter each for their upper case. -/
def PassesForPair (rt : Runtime) (t : CaseTables) (s : List Char) : Prop := ¬ AlphaPair s ∧
  ((∃ c a b, s = [c] ∧ t.upperFull c = [a,b] ∧ rt.isAlpha a = true ∧ rt.isAlpha b = true) ∨
    ∃ c d a b, s = [c,d] ∧ t.upperFull c = [a] ∧ t.upperFull d = [b] ∧ rt.isAlpha a = true ∧ rt.isAlpha b = true)

section Country
variable {rt : Runtime} {t : CaseTables} {raw v : String} {s : List Char}

theorem isAlpha_ascii {c : Char} (h : c.isAlpha = true) : c.toNat < 128 := by
  rcases Bool.or_eq_true_iff.mp h with hupper | hlower
  · have hle := (of_decide_eq_true hupper).2
    exact Nat.lt_of_le_of_lt (show c.toNat ≤ 90 from hle) (by decide)
  · have hle := of_decide_eq_true (Bool.and_eq_true_iff.mp hlower).2
    exact Nat.lt_of_le_of_lt (show c.toNat ≤ 122 from hle) (by decide)

theorem toUpper_isUpper {c : Char} (h : c.isAlpha = true) : c.toUpper.isUpper = true := by
  unfold Char.toUpper
  split
  · next hlower =>
    have hlow : 97 ≤ c.val.toNat := hlower.1
    have hhigh : c.val.toNat ≤ 122 := hlower.2
    have hval : (c.val + ('A'.val - 'a'.val)).toNat = c.val.toNat - 32 := by
      rw [UInt32.toNat_add]
      show (c.val.toNat + 4294967264) % 4294967296 = _
      omega
    refine decide_eq_true ⟨?_,?_⟩
    · show 65 ≤ (c.val + ('A'.val - 'a'.val)).toNat
      omega
    · show (c.val + ('A'.val - 'a'.val)).toNat ≤ 90
      omega
  · next hlower =>
    rcases Bool.or_eq_true_iff.mp h with hupper | hl
    · exact hupper
    · have hbounds := Bool.and_eq_true_iff.mp hl
      exact absurd ⟨of_decide_eq_true hbounds.1,of_decide_eq_true hbounds.2⟩ hlower

/-- The upper case of a text is two letters for pairs of letters and what passes for them. -/
theorem upper_pair_iff (h : rt.MapsCase t) :
    ((t.upper s).length = 2 ∧ ∀ c ∈ t.upper s, rt.isAlpha c = true) ↔ AlphaPair s ∨ PassesForPair rt t s := by
  constructor
  · rintro ⟨hlen,hall⟩
    by_cases hpair : AlphaPair s
    · exact Or.inl hpair
    · refine Or.inr ⟨hpair,?_⟩
      unfold CaseTables.upper at hlen hall
      -- every character has an upper case, so there are one or two of them
      have hpos (c : Char) : 0 < (t.upperFull c).length := List.length_pos_iff.mpr (t.upper_ne_nil c)
      match s with
      | [] => simp at hlen
      | [c] =>
        simp only [List.flatMap_cons, List.flatMap_nil, List.append_nil] at hlen hall
        obtain ⟨a,b,hab⟩ := List.length_eq_two.mp hlen
        rw [hab] at hall
        exact Or.inl ⟨c,a,b,rfl,hab,hall a (by simp),hall b (by simp)⟩
      | [c,d] =>
        simp only [List.flatMap_cons, List.flatMap_nil, List.append_nil, List.length_append] at hlen hall
        obtain ⟨a,ha⟩ := List.length_eq_one_iff.mp (show (t.upperFull c).length = 1 by have := hpos c; have := hpos d; omega)
        obtain ⟨b,hb⟩ := List.length_eq_one_iff.mp (show (t.upperFull d).length = 1 by have := hpos c; have := hpos d; omega)
        rw [ha, hb] at hall
        exact Or.inr ⟨c,d,a,b,rfl,ha,hb,hall a (by simp),hall b (by simp)⟩
      | c :: d :: e :: rest =>
        simp only [List.flatMap_cons, List.length_append] at hlen
        have hc := hpos c
        have hd := hpos d
        have he := hpos e
        omega
  · rintro (⟨hlen,hall⟩ | ⟨_,⟨c,a,b,rfl,hab,ha,hb⟩ | ⟨c,d,a,b,rfl,hc,hd,ha,hb⟩⟩)
    · obtain ⟨c,d,rfl⟩ := List.length_eq_two.mp hlen
      have hascii (x : Char) (hx : x.isAlpha = true) : t.upperFull x = [x.toUpper] := t.upper_ascii x (isAlpha_ascii hx)
      have hletter (x : Char) (hx : x.isAlpha = true) : rt.isAlpha x.toUpper = true := by
        have hupper : x.toUpper.isAlpha = true := Bool.or_eq_true_iff.mpr (Or.inl (toUpper_isUpper hx))
        rw [h.alpha_ascii _ (isAlpha_ascii hupper)]
        exact hupper
      have hc := hall c (by simp)
      have hd := hall d (by simp)
      simp [CaseTables.upper,hascii c hc,hascii d hd,hletter c hc,hletter d hd]
    · simp [CaseTables.upper,hab,ha,hb]
    · simp [CaseTables.upper,hc,hd,ha,hb]

theorem upper_of_alphaPair (h : AlphaPair s) : t.upper s = s.map Char.toUpper := by
  obtain ⟨c,d,rfl⟩ := List.length_eq_two.mp h.1
  have hc := t.upper_ascii c (isAlpha_ascii (h.2 c (by simp)))
  have hd := t.upper_ascii d (isAlpha_ascii (h.2 d (by simp)))
  simp [CaseTables.upper,hc,hd]

theorem normaliseCountry_ok (h : rt.MapsCase t) : normaliseCountry rt (some raw) = .ok v ↔
    (AlphaPair (Text.strip raw).toList ∨ PassesForPair rt t (Text.strip raw).toList) ∧
      v = String.ofList (t.upper (Text.strip raw).toList) := by
  rw [← upper_pair_iff h]
  simp only [normaliseCountry, h.upper]
  generalize t.upper (Text.strip raw).toList = value
  constructor
  · intro hv
    split at hv
    · cases hv
    · split at hv
      · cases hv
      · next hshape =>
        cases hv
        simp only [String.length_ofList, String.toList_ofList, not_or, not_not, List.all_eq_true] at hshape
        exact ⟨hshape,rfl⟩
  · rintro ⟨⟨hlen,hall⟩,rfl⟩
    have hne : String.ofList value ≠ "" := by
      intro heq
      have hzero := congrArg String.length heq
      rw [String.length_ofList, hlen] at hzero
      cases hzero
    rw [if_neg hne, if_neg]
    simp only [String.length_ofList, String.toList_ofList, not_or, not_not, List.all_eq_true]
    exact ⟨hlen,hall⟩

/-- A country is exact unless it passes for a pair of letters. -/
theorem exactCountry_iff (h : rt.MapsCase t) (raw : String) :
    ExactCountry rt raw ↔ ¬ PassesForPair rt t (Text.strip raw).toList := by
  constructor
  · intro hexact hpasses
    have hok := (normaliseCountry_ok h).mpr ⟨Or.inr hpasses,rfl⟩
    exact hpasses.1 ((hexact _).mp hok).1
  · intro hnot v
    rw [normaliseCountry_ok h, or_iff_left hnot]
    exact and_congr_right fun hpair => by rw [upper_of_alphaPair hpair]

theorem ExactCountry.code (h : ExactCountry rt raw) (hv : normaliseCountry rt (some raw) = .ok v) : CountryCode v := by
  obtain ⟨hpair,rfl⟩ := (h v).mp hv
  refine ⟨by simpa using hpair.1,?_⟩
  intro c hc
  rw [String.toList_ofList] at hc
  obtain ⟨d,hd,rfl⟩ := List.mem_map.mp hc
  exact toUpper_isUpper (hpair.2 d hd)

end Country

/-- The country of a record is read exactly, and what is stored and what phone numbers are
parsed with are codes, unless the country passes for a pair of letters. -/
theorem build_country_exact_iff {rt : Runtime} {t : CaseTables} (h : rt.MapsCase t) (r : RawIdentifiers) :
    ((∀ raw, r.country = some raw → ExactCountry rt raw) ∧
      (∀ v, (buildUserIdentifiers rt r).identifiers.country = some v → CountryCode v) ∧
      ∀ region, phoneRegion rt r = some region → CountryCode region) ↔
    ∀ raw, r.country = some raw → ¬ PassesForPair rt t (Text.strip raw).toList := by
  constructor
  · rintro ⟨hexact,_⟩ raw hraw
    exact (exactCountry_iff h raw).mp (hexact raw hraw)
  · intro hnot
    have hexact : ∀ raw, r.country = some raw → ExactCountry rt raw :=
      fun raw hraw => (exactCountry_iff h raw).mpr (hnot raw hraw)
    have hcode : ∀ v, normaliseCountry rt r.country = .ok v → CountryCode v := by
      intro v hv
      cases hr : r.country with
      | none =>
        rw [hr] at hv
        cases hv
      | some raw =>
        rw [hr] at hv
        exact (hexact raw hr).code hv
    refine ⟨hexact,fun v hv => ?_,fun region hregion => hcode region (toOption_eq_some.mp hregion)⟩
    have hread : (buildUserIdentifiers rt r).identifiers.country =
        (normaliseCountry rt r.country).toOption.map id := IdentifierField.output_eq rt r .country
    rw [hread, Option.map_id] at hv
    exact hcode v (toOption_eq_some.mp hv)

/-- A record of nothing but a country. -/
def countryOnly (country : String) : RawIdentifiers := { RawIdentifiersOf.blank with country := some country }

/-- The theorem for a code with capitals missing. -/
theorem build_country_exact_iff_us : ExactCountry latinRuntime " us " ∧ (∀ v,
    (buildUserIdentifiers latinRuntime (countryOnly " us ")).identifiers.country = some v → CountryCode v) := by
  have hall := (build_country_exact_iff latinRuntime_mapsCase (countryOnly " us ")).mpr (by
    rintro raw hraw ⟨hpair,_⟩
    obtain rfl : " us " = raw := Option.some.inj hraw
    exact hpair ⟨by decide +kernel,List.all_eq_true.mp (by decide +kernel)⟩)
  exact ⟨hall.1 _ rfl,hall.2.1⟩

/-- A sharp s passes for the code of a country, and two accented letters are stored as one. -/
theorem not_exactCountry_sharp : ¬ ExactCountry latinRuntime "ß" ∧
    normaliseCountry latinRuntime (some "ß") = .ok "SS" ∧
    (buildUserIdentifiers latinRuntime (countryOnly "ß")).identifiers.country = some "SS" ∧
    (buildUserIdentifiers latinRuntime (countryOnly "éé")).identifiers.country = some "ÉÉ" ∧
    phoneRegion latinRuntime (countryOnly "éé") = some "ÉÉ" ∧ ¬ CountryCode "ÉÉ" := by
  have hok : normaliseCountry latinRuntime (some "ß") = .ok "SS" := by decide +kernel
  refine ⟨fun hexact => ?_,hok,by decide +kernel,by decide +kernel,by decide +kernel,fun hcode => ?_⟩
  · have hpair := ((hexact _).mp hok).1
    exact absurd hpair.1 (by decide +kernel)
  · exact absurd (hcode.2 'É' (by decide)) (by decide)

end ConversionGateway
