import ConversionGateway.Model.Conversion
import ConversionGateway.Model.MockAds

/-! # The conversion row against the platform's check

Two components written apart agree: what `buildConversion` makes of a complete,
consented row with usable digests passes `validateRow`.
-/
namespace ConversionGateway

section Formats
variable {rt : Runtime}

theorem isDecimal_of_digit {c : Char} (h : Text.isAsciiDigit c = true) : isDecimal rt c = true := by
  simp [isDecimal,h]

/-- The resource name of an action the platform can read, under a numeric customer id. -/
theorem conversionActionResource_fits {customerId action : String} (hne : customerId ≠ "")
    (hid : customerId.toList.all Text.isAsciiDigit = true) (hane : action ≠ "")
    (ha : action.toList.all isActionChar = true) :
    Pattern.fits (conversionActionPattern rt) (conversionActionResource customerId action).toList = true := by
  rw [List.all_eq_true] at hid ha
  refine Pattern.Denotes.fits ?_
  simp only [conversionActionResource, String.toList_append, List.append_assoc]
  refine Pattern.denotes_literal (Pattern.denotes_many (by simpa using hne)
    (fun c hc => isDecimal_of_digit (hid c hc)) (Pattern.denotes_literal ?_))
  have hnil := Pattern.denotes_many (by simpa using hane) ha Pattern.Denotes.nil
  rwa [List.append_nil] at hnil

theorem isActionChar_ne_slash {c : Char} (h : isActionChar c = true) : c ≠ '/' := by
  rintro rfl
  exact absurd h (by decide)

/-- The name is what follows the last slash. -/
theorem actionName_resource {customerId action : String} (ha : action.toList.all isActionChar = true) :
    actionName (conversionActionResource customerId action) = action := by
  rw [List.all_eq_true] at ha
  have hsplit : (conversionActionResource customerId action).toList =
      ("customers/".toList ++ customerId.toList ++ "/conversionActions".toList ++ ['/']) ++ action.toList := by
    simp [conversionActionResource, String.toList_append]
  have hall : ∀ c ∈ action.toList.reverse, decide (c ≠ '/') = true := by
    intro c hc
    simpa using isActionChar_ne_slash (ha c (List.mem_reverse.mp hc))
  unfold actionName
  rw [hsplit, List.rtakeWhile, List.reverse_append, List.takeWhile_append_of_pos hall, List.reverse_append]
  simp

theorem digits_denote {n : ℕ} {rest : List Pattern.Item} {s t : List Char} (hn : s.length = n)
    (hs : ∀ c ∈ s, Text.isAsciiDigit c = true) (h : Pattern.Denotes rest t) :
    Pattern.Denotes (Pattern.exactly n (isDecimal rt) ++ rest) (s ++ t) :=
  Pattern.denotes_exactly hn (fun c hc => isDecimal_of_digit (hs c hc)) h

theorem two_denote {n : ℕ} {rest : List Pattern.Item} {t : List Char} (h : Pattern.Denotes rest t) :
    Pattern.Denotes (Pattern.exactly 2 (isDecimal rt) ++ rest) (Text.twoDigits n ++ t) :=
  digits_denote rfl (fun _ hc => Text.twoDigits_digits hc) h

theorem mark_denote {c : Char} {rest : List Pattern.Item} {t : List Char} (h : Pattern.Denotes rest t) :
    Pattern.Denotes (Pattern.literal [c] ++ rest) (c :: t) := Pattern.denotes_literal h

/-- An aware time with a whole-minute offset is in the required format. -/
theorem isoformat_fits {t : DateTime} {o : ℤ} (ho : t.utcoffset = some o) (hm : o % 60 = 0) :
    Pattern.fits (dateTimePattern rt) t.isoformat.toList = true := by
  have hoff : o.natAbs % 60 = 0 := by omega
  have hoffset : Pattern.Denotes ([Pattern.Item.one fun c => c == '+' || c == '-'] ++
      (Pattern.exactly 2 (isDecimal rt) ++ (Pattern.literal [':'] ++ Pattern.exactly 2 (isDecimal rt))))
      (DateTime.isoOffset o) := by
    simp only [DateTime.isoOffset, if_pos hoff, List.append_nil]
    refine .one (by split <;> decide) ?_
    have hminutes : Pattern.Denotes (Pattern.exactly 2 (isDecimal rt))
        (Text.twoDigits (o.natAbs / 60 % 60)) := by
      simpa using (two_denote Pattern.Denotes.nil : Pattern.Denotes (Pattern.exactly 2 (isDecimal rt) ++ [])
        (Text.twoDigits (o.natAbs / 60 % 60) ++ []))
    exact two_denote (mark_denote hminutes)
  refine Pattern.Denotes.fits ?_
  simp only [DateTime.isoformat, ho, dateTimePattern, String.toList_ofList, List.append_assoc,
    List.cons_append]
  exact digits_denote rfl (fun _ hc => Text.fourDigits_digits hc) (mark_denote (two_denote (mark_denote
    (two_denote (mark_denote (two_denote (mark_denote (two_denote (mark_denote (two_denote hoffset)))))))))) 

end Formats
section Rows
variable {rt : Runtime}

theorem presentField_lookup (key k : String) (value : Option String) :
    (presentField key value).lookup k =
      if k = key then (value.filter fun s => s ≠ "").map Json.str else none := by
  unfold presentField
  cases value with
  | none => simp
  | some s =>
    by_cases hs : s = ""
    · simp [hs]
    · by_cases hk : k = key
      · simp [hs, hk]
      · have hb : (k == key) = false := by simpa using hk
        simp [hs, hk, hb, List.lookup_cons]

theorem mem_presentField {key : String} {value : Option String} {field : String × Json}
    (h : field ∈ presentField key value) : ∃ s, value = some s ∧ field = (key,.str s) := by
  unfold presentField at h
  split at h
  · cases h
  · next s =>
    split at h
    · cases h
    · exact ⟨s,rfl,List.mem_singleton.mp h⟩

theorem digest_matches (hhex : rt.HexDigests) (data : ByteArray) :
    matchesHex64 (.str (rt.sha256 data)) = true := by
  obtain ⟨hl,hc⟩ := hhex data
  rw [List.all_eq_true] at hc
  have hd := Pattern.denotes_exactly (String.length_toList.trans hl) hc Pattern.Denotes.nil
  rw [List.append_nil, List.append_nil] at hd
  exact hd.fits

theorem digest_ne_empty (hhex : rt.HexDigests) (data : ByteArray) : rt.sha256 data ≠ "" := by
  intro h
  have hl := (hhex data).1
  rw [h] at hl
  simp at hl

/-- Every entry passes, so the list does. -/
theorem checkIdentifiers_of_all {idents : List Json} (h : ∀ i ∈ idents, checkIdentifier i = .ok true) :
    checkIdentifiers idents = .ok true := by
  induction idents with
  | nil => rfl
  | cons i rest ih =>
    have hi := h i List.mem_cons_self
    have hrest := ih fun j hj => h j (List.mem_cons_of_mem i hj)
    simp [checkIdentifiers, hi, hrest, bind, Except.bind]

/-- An address passes if its digests are digests. -/
theorem checkAddress_of_all {fields : List (String × Json)} {keys : List String}
    (h : ∀ k ∈ keys, ∀ v, fields.lookup k = some v → matchesHex64 v = true) :
    checkAddress (.obj fields) keys = .ok true := by
  induction keys with
  | nil => rfl
  | cons k rest ih =>
    have hrest := ih fun j hj => h j (List.mem_cons_of_mem k hj)
    cases hk : fields.lookup k with
    | none => simp [checkAddress, addressEntry, hk, hrest, bind, Except.bind]
    | some v =>
      simp [checkAddress, addressEntry, hk, hrest, h k List.mem_cons_self v hk, bind, Except.bind]

variable {hashed : HashedIdentifiers}

/-- A digest of the record that is shown at all matches the pattern. -/
theorem shown_digest (hhex : rt.HexDigests) (hw : hashed.WellFormed rt) {d : Option String}
    (hd : d ∈ [hashed.hashedEmail,hashed.hashedPhone,hashed.hashedGivenName,hashed.hashedFamilyName,
      hashed.hashedStreetAddress]) {v : Json}
    (hv : (d.filter fun s => s ≠ "").map Json.str = some v) : matchesHex64 v = true := by
  obtain ⟨s,hs,rfl⟩ := Option.map_eq_some_iff.mp hv
  obtain ⟨hs,_⟩ := Option.filter_eq_some_iff.mp hs
  obtain ⟨data,rfl⟩ := hw.digest d hd s hs
  exact digest_matches hhex data

/-- The digests of the address block, under the platform's names. -/
theorem addressFields_digests (hhex : rt.HexDigests) (hw : hashed.WellFormed rt) :
    ∀ k ∈ hashedAddressKeys, ∀ v, (addressFields hashed).lookup k = some v → matchesHex64 v = true := by
  intro k hk v hv
  simp only [hashedAddressKeys, List.mem_cons, List.not_mem_nil, or_false] at hk
  rcases hk with rfl | rfl | rfl <;>
    simp only [addressFields, List.lookup_append, presentField_lookup, reduceIte, Option.or_none,
      Option.none_or, String.reduceEq] at hv <;>
    exact shown_digest hhex hw (by simp) hv

theorem checkIdentifier_digest {key : String} {d : String} (hkey : key ∈ hashedKeys)
    (hd : matchesHex64 (.str d) = true) : checkIdentifier (.obj [(key,.str d)]) = .ok true := by
  simp only [hashedKeys, List.mem_cons, List.not_mem_nil, or_false] at hkey
  rcases hkey with rfl | rfl <;> simp [checkIdentifier, hashedKeys, List.lookup_cons, hd]

theorem userIdentifiers_pass (hhex : rt.HexDigests) (hw : hashed.WellFormed rt) :
    ∀ i ∈ userIdentifiers hashed, checkIdentifier i = .ok true := by
  intro i hi
  simp only [userIdentifiers, List.mem_append, List.mem_map] at hi
  rcases hi with (⟨field,hf,rfl⟩ | ⟨field,hf,rfl⟩) | hi
  · obtain ⟨s,hs,rfl⟩ := mem_presentField hf
    obtain ⟨data,rfl⟩ := hw.digest _ (by simp) s hs
    exact checkIdentifier_digest (by simp [hashedKeys]) (digest_matches hhex data)
  · obtain ⟨s,hs,rfl⟩ := mem_presentField hf
    obtain ⟨data,rfl⟩ := hw.digest hashed.hashedPhone (by simp) s hs
    exact checkIdentifier_digest (by simp [hashedKeys]) (digest_matches hhex data)
  · split at hi
    · rw [List.mem_singleton.mp hi]
      simp [checkIdentifier, hashedKeys, List.lookup_cons,
        checkAddress_of_all (addressFields_digests hhex hw)]
    · cases hi

theorem presentField_digest (hhex : rt.HexDigests) (hw : hashed.WellFormed rt) {d : Option String}
    (hd : d ∈ [hashed.hashedEmail,hashed.hashedPhone,hashed.hashedGivenName,hashed.hashedFamilyName,
      hashed.hashedStreetAddress]) (hs : d.isSome) : (d.filter fun s => s ≠ "").isSome := by
  obtain ⟨s,rfl⟩ := Option.isSome_iff_exists.mp hs
  obtain ⟨data,rfl⟩ := hw.digest _ hd s rfl
  simp [Option.filter, digest_ne_empty hhex data]

theorem filter_isSome_of_ne {value : Option String} (h : value.isSome) (hne : ∀ s, value = some s → s ≠ "") :
    (value.filter fun s => s ≠ "").isSome := by
  obtain ⟨s,rfl⟩ := Option.isSome_iff_exists.mp h
  simp [Option.filter, hne s rfl]

theorem presentField_ne_nil (key : String) {value : Option String}
    (h : (value.filter fun s => s ≠ "").isSome) : presentField key value ≠ [] := by
  cases value with
  | none => simp at h
  | some s =>
    have hs : s ≠ "" := by
      rintro rfl
      simp [Option.filter] at h
    simp [presentField, hs]

/-- A match key is something the platform is sent. -/
theorem userIdentifiers_ne_nil (hhex : rt.HexDigests) (hw : hashed.WellFormed rt)
    (hm : hashed.hasMatchKey = true) : userIdentifiers hashed ≠ [] := by
  simp only [HashedIdentifiers.hasMatchKey, Bool.or_eq_true, Bool.and_eq_true] at hm
  rcases hm with (hm | hm) | ⟨⟨⟨hgiven,hfamily⟩,hpostal⟩,hcountry⟩
  · have hs := presentField_ne_nil "hashedEmail" (presentField_digest hhex hw (by simp) hm)
    simp [userIdentifiers, hs]
  · have hs := presentField_ne_nil "hashedPhoneNumber" (presentField_digest hhex hw (by simp) hm)
    simp [userIdentifiers, hs]
  · have hgiven' := presentField_digest hhex hw (by simp) hgiven
    have hfamily' := presentField_digest hhex hw (by simp) hfamily
    have hpostal' := filter_isSome_of_ne hpostal hw.postalCode
    have hcountry' := filter_isSome_of_ne hcountry hw.country
    have hkeys : (requiredAddressKeys.all fun k => ((addressFields hashed).lookup k).isSome) = true := by
      simp only [requiredAddressKeys, List.all_cons, List.all_nil, addressFields, List.lookup_append,
        presentField_lookup, reduceIte, Option.or_none, Option.none_or, String.reduceEq,
        Option.isSome_map, hgiven', hfamily', hpostal', hcountry', Bool.and_self]
    simp [userIdentifiers, hkeys]

end Rows

section Contract
variable {rt : Runtime} {e : Event} {hashed : HashedIdentifiers} {customerId action : String}
  {time : DateTime} {offset : ℤ}

/-- What the platform asks of an object, read off its entries. -/
theorem validateRow_of_lookups {fields : List (String × Json)} {resource when_ : String}
    {idents : List Json} {knownActions : List String}
    (haction : fields.lookup "conversionAction" = some (.str resource))
    (hfits : Pattern.fits (conversionActionPattern rt) resource.toList = true)
    (hknown : actionName resource ∈ knownActions)
    (htime : fields.lookup "conversionDateTime" = some (.str when_))
    (hwhen : Pattern.fits (dateTimePattern rt) when_.toList = true)
    (hids : getOr fields "userIdentifiers" (.arr []) = .arr idents)
    (hkey : (fields.lookup "gclid").any Json.truthy = true ∨ idents ≠ [])
    (hpass : ∀ i ∈ idents, checkIdentifier i = .ok true)
    (hconsent : idents ≠ [] → consentGranted (getOr fields "consent" (.obj [])) = .ok true) :
    validateRow rt (.obj fields) knownActions = .ok none := by
  have hreq : ¬ (¬ (fields.lookup "gclid").any Json.truthy ∧ ¬ (Json.arr idents).truthy) := by
    rintro ⟨hg,hi⟩
    rcases hkey with hkey | hkey
    · exact hg hkey
    · exact hi (by simpa [Json.truthy] using hkey)
  have hall : ((Json.arr idents).iterate >>= checkIdentifiers) = .ok true := checkIdentifiers_of_all hpass
  simp only [validateRow, haction, htime, Option.bind_some, Json.asString, hfits, hknown, hwhen, hids,
    not_true_eq_false, if_false, if_neg hreq]
  rw [hall]
  by_cases hnil : idents = []
  · simp [hnil, Json.truthy, bind, Except.bind, pure, Except.pure]
  · simp [hconsent hnil, bind, Except.bind, pure, Except.pure]

theorem optionalFields_lookup {k : String} (hk : k ∉ ["conversionValue","currencyCode","gclid"]) :
    (optionalFields rt e).lookup k = none := by
  simp only [List.mem_cons, List.not_mem_nil, or_false, not_or] at hk
  have hb : (k == "conversionValue") = false := by simpa using hk.1
  cases hv : e.conversionValue <;>
    simp [optionalFields, hv, List.lookup_append, presentField_lookup, hk, hb, List.lookup_cons]

/-- The click id is sent just if it is not empty. -/
theorem optionalFields_gclid (hc : truthy e.clickId = true) :
    ((optionalFields rt e).lookup "gclid").any Json.truthy = true := by
  obtain ⟨s,hs⟩ : ∃ s, e.clickId = some s := by
    cases h : e.clickId with
    | none => simp [h,truthy] at hc
    | some s => exact ⟨s,rfl⟩
  have hne : s ≠ "" := by simpa [hs,truthy] using hc
  cases hv : e.conversionValue <;>
    simp [optionalFields, hv, List.lookup_append, presentField_lookup, hs, Option.filter, hne, Json.truthy,
      List.lookup_cons]

theorem identifierFields_getOr (hh : e.hashedIdentifiers = some hashed) :
    getOr (identifierFields e) "userIdentifiers" (.arr []) = .arr (userIdentifiers hashed) := by
  by_cases hnil : userIdentifiers hashed = []
  · simp [identifierFields, hh, hnil, getOr]
  · simp [identifierFields, hh, hnil, getOr, Json.truthy]

theorem identifierFields_consent (hh : e.hashedIdentifiers = some hashed) (hg : e.Granted)
    (hne : userIdentifiers hashed ≠ []) :
    consentGranted (getOr (identifierFields e) "consent" (.obj [])) = .ok true := by
  have hu : e.consentAdUserData = some .granted := hg.1
  simp [identifierFields, hh, hne, getOr, List.lookup_cons, Json.truthy, consentGranted, hu,
    consentJson, Json.asString, ConsentStatus.value]

/-- A complete row with matchable digests and both consents makes a conversion the
platform accepts. -/
theorem validateRow_buildConversion (hhex : rt.HexDigests) (haction : e.conversionAction = some action)
    (htime : e.conversionTime = some time) (hhashed : e.hashedIdentifiers = some hashed)
    (hm : e.Matchable rt hashed) (hg : e.Granted) (hcustomer : customerId ≠ "")
    (hdigits : customerId.toList.all Text.isAsciiDigit = true) (hane : action ≠ "")
    (hchars : action.toList.all isActionChar = true) (hoffset : time.utcoffset = some offset)
    (hminute : offset % 60 = 0) {knownActions : List String} (hknown : action ∈ knownActions) :
    ∃ conversion, buildConversion rt e customerId = .ok conversion ∧
      validateRow rt conversion knownActions = .ok none := by
  have hlookup {k : String} (h₁ : k ∉ ["conversionAction","conversionDateTime","orderId"])
      (h₂ : k ∉ ["conversionValue","currencyCode","gclid"]) :
      ([("conversionAction",Json.str (conversionActionResource customerId action)),
        ("conversionDateTime",.str (formatConversionTime time)),("orderId",.str e.eventId)] ++
        optionalFields rt e ++ identifierFields e).lookup k = (identifierFields e).lookup k := by
    simp only [List.mem_cons, List.not_mem_nil, or_false, not_or] at h₁
    have ho : (optionalFields rt e).lookup k = none := optionalFields_lookup h₂
    have hb : (k == "conversionAction") = false ∧ (k == "conversionDateTime") = false ∧
        (k == "orderId") = false := by simpa using h₁
    rw [List.lookup_append, List.lookup_append, ho]
    simp [List.lookup_cons, hb]
  refine ⟨_,by simp only [buildConversion, haction, htime]; rfl,?_⟩
  refine validateRow_of_lookups rfl (conversionActionResource_fits hcustomer hdigits hane hchars)
    (by rwa [actionName_resource hchars]) rfl (isoformat_fits hoffset hminute) ?_ ?_
    (userIdentifiers_pass hhex hm.1) ?_
  · unfold getOr
    rw [hlookup (by simp) (by simp)]
    exact identifierFields_getOr hhashed
  · rcases hm.2 with hc | hk
    · refine Or.inl ?_
      have ho : ((optionalFields rt e).lookup "gclid").any Json.truthy = true := optionalFields_gclid hc
      obtain ⟨v,hv,ht⟩ := (Option.any_eq_true _ _).mp ho
      rw [List.lookup_append, List.lookup_append, hv]
      simpa [List.lookup_cons] using ht
    · exact Or.inr (userIdentifiers_ne_nil hhex hm.1 hk)
  · intro hne
    unfold getOr
    rw [hlookup (by simp) (by simp)]
    exact identifierFields_consent hhashed hg hne

end Contract
end ConversionGateway
