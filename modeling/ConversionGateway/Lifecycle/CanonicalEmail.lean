import Mathlib.Data.Bool.AllAny
import ConversionGateway.Library.Unicode
import ConversionGateway.Model.Identifiers

/-! # Canonical email addresses

A normal form has one `@`, is trimmed and in lower case, has no dots and no tag before
a Google domain, and is its own normal form. Dots are taken out after the address was
trimmed, so one that hid a blank leaves it at the front.
-/
namespace ConversionGateway
open Unicode

/-- The interpreter maps case by the tables. -/
structure Runtime.MapsCase (rt : Runtime) (t : CaseTables) : Prop where
  lower : ∀ s, rt.lower s = String.ofList (t.lower s.toList)
  upper : ∀ s, rt.upper s = String.ofList (t.upper s.toList)
  alpha_ascii : ∀ c, c.toNat < 128 → rt.isAlpha c = c.isAlpha

/-- The domain is one of those that ignore dots and tags. -/
def GoogleDomain (domain : List Char) : Prop := String.ofList domain ∈ dotInsensitiveDomains

instance (domain : List Char) : Decidable (GoogleDomain domain) := inferInstanceAs (Decidable (_ ∈ _))

/-- The local part as it is kept. -/
def mailbox (domain localPart : List Char) : List Char :=
  if GoogleDomain domain then (localPart.filter (· ≠ '.')).takeWhile (· ≠ '+') else localPart

/-- One `@` with text on both sides. -/
structure EmailParts (value localPart domain : List Char) : Prop where
  eq : value = localPart ++ '@' :: domain
  localPart_at : '@' ∉ localPart
  domain_at : '@' ∉ domain
  localPart_ne : localPart ≠ []
  domain_ne : domain ≠ []

section Parts
variable {rt : Runtime} {value localPart domain : List Char} {raw v : String}

theorem mem_mailbox {c : Char} (h : c ∈ mailbox domain localPart) : c ∈ localPart := by
  unfold mailbox at h
  split at h
  · exact List.mem_of_mem_filter ((List.takeWhile_sublist _).subset h)
  · exact h

theorem mailbox_plain (hd : GoogleDomain domain) : '.' ∉ mailbox domain localPart ∧ '+' ∉ mailbox domain localPart := by
  rw [mailbox, if_pos hd]
  constructor
  · intro h
    simpa using (List.mem_filter.mp ((List.takeWhile_sublist _).subset h)).2
  · intro h
    simpa using List.mem_takeWhile_imp h

/-- A local part without dots and tags is kept whole. -/
theorem mailbox_of_plain (h : GoogleDomain domain → '.' ∉ localPart ∧ '+' ∉ localPart) :
    mailbox domain localPart = localPart := by
  unfold mailbox
  split
  · next hd =>
    obtain ⟨hdot,hplus⟩ := h hd
    have hfilter : localPart.filter (· ≠ '.') = localPart := by
      refine List.filter_eq_self.mpr fun c hc => ?_
      simpa using fun heq : c = '.' => hdot (heq ▸ hc)
    rw [hfilter]
    refine List.takeWhile_eq_self_iff.mpr fun c hc => ?_
    simpa using fun heq : c = '+' => hplus (heq ▸ hc)
  · rfl

theorem EmailParts.takeWhile (h : EmailParts value localPart domain) :
    value.takeWhile (· ≠ '@') = localPart ∧ value.dropWhile (· ≠ '@') = '@' :: domain := by
  have hall : ∀ c ∈ localPart, (decide (c ≠ '@')) = true := by
    intro c hc
    simpa using fun heq : c = '@' => h.localPart_at (heq ▸ hc)
  rw [h.eq, List.takeWhile_append_of_pos hall, List.dropWhile_append_of_pos hall]
  simp

theorem EmailParts.of_split (hrest : value.dropWhile (· ≠ '@') ≠ []) (hlocal : value.takeWhile (· ≠ '@') ≠ [])
    (hdomain : (value.dropWhile (· ≠ '@')).drop 1 ≠ []) (hat : '@' ∉ (value.dropWhile (· ≠ '@')).drop 1) :
    EmailParts value (value.takeWhile (· ≠ '@')) ((value.dropWhile (· ≠ '@')).drop 1) := by
  refine ⟨?_,fun hm => by simpa using List.mem_takeWhile_imp hm,hat,hlocal,hdomain⟩
  have hc := List.head_dropWhile_not (fun c => decide (c ≠ '@')) hrest
  have hsplit := List.takeWhile_append_dropWhile (p := fun c => decide (c ≠ '@')) (l := value)
  obtain ⟨c,rest,heq⟩ := List.exists_cons_of_ne_nil hrest
  obtain rfl : c = '@' := by
    simp only [heq] at hc
    exact not_not.mp (of_decide_eq_false hc)
  rw [heq] at hsplit ⊢
  exact hsplit.symm

/-- What is accepted, and as what. -/
theorem normaliseEmail_ok : normaliseEmail rt (some raw) = .ok v ↔ ∃ localPart domain,
    EmailParts (rt.lower (Text.strip raw)).toList localPart domain ∧ mailbox domain localPart ≠ [] ∧
    v = String.ofList (mailbox domain localPart ++ '@' :: domain) := by
  simp only [normaliseEmail]
  constructor
  · intro h
    split at h
    · cases h
    · split at h
      · cases h
      · next hparts =>
        simp only [not_or] at hparts
        obtain ⟨hrest,hlocal,hdomain,hat⟩ := hparts
        refine ⟨_,_,.of_split hrest hlocal hdomain hat,?_⟩
        split at h
        · next hgoogle =>
          rw [mailbox, if_pos (show GoogleDomain _ from hgoogle)]
          split at h
          · cases h
          · next hne =>
            cases h
            exact ⟨hne,rfl⟩
        · next hother =>
          rw [mailbox, if_neg (show ¬ GoogleDomain _ from hother)]
          cases h
          exact ⟨hlocal,rfl⟩
  · rintro ⟨localPart,domain,hparts,hne,rfl⟩
    obtain ⟨htake,hdrop⟩ := hparts.takeWhile
    rw [htake, hdrop, if_neg (by rw [hparts.eq]; simp)]
    simp only [List.drop_succ_cons, List.drop_zero]
    rw [if_neg (by simp [hparts.localPart_ne,hparts.domain_ne,hparts.domain_at])]
    unfold mailbox at hne ⊢
    split
    · next hgoogle =>
      have hgoogle : GoogleDomain domain := hgoogle
      rw [if_pos hgoogle] at hne ⊢
      rw [if_neg hne]
    · next hother =>
      have hother : ¬ GoogleDomain domain := hother
      rw [if_neg hother]

/-- What has nothing left to take out is its own normal form. -/
theorem normaliseEmail_fixed (h : EmailParts v.toList localPart domain)
    (hplain : GoogleDomain domain → '.' ∉ localPart ∧ '+' ∉ localPart) (hstrip : Text.strip v = v)
    (hlower : rt.lower v = v) : normaliseEmail rt (some v) = .ok v := by
  refine normaliseEmail_ok.mpr ⟨localPart,domain,?_,?_,?_⟩
  · rw [hstrip, hlower]
    exact h
  · rw [mailbox_of_plain hplain]
    exact h.localPart_ne
  · rw [mailbox_of_plain hplain, ← h.eq, String.ofList_toList]

end Parts

/-- An address in canonical form. -/
structure CanonicalEmail (rt : Runtime) (v : String) : Prop where
  parts : ∃ localPart domain, EmailParts v.toList localPart domain ∧
    (GoogleDomain domain → '.' ∉ localPart ∧ '+' ∉ localPart)
  trimmed : Text.strip v = v
  lowercase : rt.lower v = v
  fixed : normaliseEmail rt (some v) = .ok v

/-- An address of a Google domain whose local part, its leading dots left out, begins
with whitespace. -/
def BlankBehindDots (value : List Char) : Prop := ∃ localPart domain,
  EmailParts value localPart domain ∧ GoogleDomain domain ∧
    (localPart.find? (· ≠ '.')).any Text.isSpace = true

section Canonical
variable {rt : Runtime} {t : CaseTables} {raw v : String}

theorem strip_eq_self : Text.strip v = v ↔ Text.Trimmed v.toList := by
  rw [← Text.stripChars_eq_self, Text.strip]
  constructor
  · intro h
    have hlist := congrArg String.toList h
    rwa [String.toList_ofList] at hlist
  · intro h
    rw [h, String.ofList_toList]

namespace Runtime.MapsCase

theorem lower_toList (h : rt.MapsCase t) (s : String) : (rt.lower s).toList = t.lower s.toList := by
  rw [h.lower, String.toList_ofList]

theorem lower_eq_self (h : rt.MapsCase t) : rt.lower v = v ↔ ∀ c ∈ v.toList, t.Lowercase c := by
  rw [← CaseTables.lower_eq_self, ← h.lower_toList, String.toList_inj]

theorem lower_strip (h : rt.MapsCase t) (raw : String) : Text.Trimmed (rt.lower (Text.strip raw)).toList := by
  rw [h.lower_toList, Text.strip, String.toList_ofList]
  exact CaseTables.lower_trimmed (Text.stripChars_trimmed _)

end Runtime.MapsCase

/-- The first character of a kept local part. -/
theorem mailbox_head {localPart domain : List Char} (h : GoogleDomain domain) :
    (mailbox domain localPart).head? = (localPart.find? (· ≠ '.')).filter (· ≠ '+') := by
  rw [mailbox, if_pos h, ← List.head?_filter]
  cases localPart.filter (· ≠ '.') with
  | nil => rfl
  | cons c rest =>
    by_cases hc : c = '+'
    · simp [hc,Option.filter]
    · simp [hc,Option.filter]

/-- Every accepted text is canonical, unless blanks stand behind leading dots. -/
theorem normaliseEmail_canonical_iff (h : rt.MapsCase t) (raw : String) :
    (∀ v, normaliseEmail rt (some raw) = .ok v → CanonicalEmail rt v) ↔
      ¬ BlankBehindDots (rt.lower (Text.strip raw)).toList := by
  have htrimmed := h.lower_strip raw
  constructor
  · rintro hall ⟨localPart,domain,hparts,hgoogle,hblank⟩
    obtain ⟨c,hfind,hspace⟩ : ∃ c, localPart.find? (· ≠ '.') = some c ∧ Text.isSpace c = true := by
      cases hf : localPart.find? (· ≠ '.') with
      | none =>
        rw [hf] at hblank
        cases hblank
      | some c =>
        rw [hf] at hblank
        exact ⟨c,rfl,hblank⟩
    have hhead : (mailbox domain localPart).head? = some c := by
      have hplus : c ≠ '+' := by
        rintro rfl
        exact absurd hspace (by decide)
      rw [mailbox_head hgoogle, hfind]
      simp [hplus,Option.filter]
    have hne : mailbox domain localPart ≠ [] := by
      intro hnil
      rw [hnil] at hhead
      cases hhead
    have hcanonical := hall _ (normaliseEmail_ok.mpr ⟨localPart,domain,hparts,hne,rfl⟩)
    have hfirst := (strip_eq_self.mp hcanonical.trimmed).1 c
      (by rw [String.toList_ofList, List.head?_append_of_ne_nil _ hne]; exact hhead)
    rw [hspace] at hfirst
    cases hfirst
  · intro hblank v hv
    obtain ⟨localPart,domain,hparts,hne,rfl⟩ := normaliseEmail_ok.mp hv
    have hlist : (String.ofList (mailbox domain localPart ++ '@' :: domain)).toList =
        mailbox domain localPart ++ '@' :: domain := String.toList_ofList
    generalize String.ofList (mailbox domain localPart ++ '@' :: domain) = v at hlist ⊢
    have hkept : EmailParts v.toList (mailbox domain localPart) domain :=
      ⟨hlist,fun hm => hparts.localPart_at (mem_mailbox hm),hparts.domain_at,hne,hparts.domain_ne⟩
    have hstrip : Text.strip v = v := by
      rw [strip_eq_self, hlist]
      rw [hparts.eq] at htrimmed
      refine ⟨fun c hc => ?_,fun c hc => ?_⟩
      · rw [List.head?_append_of_ne_nil _ hne] at hc
        by_cases hgoogle : GoogleDomain domain
        · -- the first character that is no dot
          rw [mailbox_head hgoogle] at hc
          by_contra hspace
          obtain ⟨hfind,_⟩ := Option.filter_eq_some_iff.mp hc
          exact hblank ⟨localPart,domain,hparts,hgoogle,by rw [hfind]; simpa using hspace⟩
        · rw [mailbox, if_neg hgoogle] at hc
          exact htrimmed.1 c (by rw [List.head?_append_of_ne_nil _ hparts.localPart_ne]; exact hc)
      · rw [List.getLast?_append_of_ne_nil _ (by simp)] at hc
        exact htrimmed.2 c (by rw [List.getLast?_append_of_ne_nil _ (by simp)]; exact hc)
    have hlower : rt.lower v = v := by
      refine h.lower_eq_self.mpr fun c hc => ?_
      have hvalue : c ∈ t.lower (Text.strip raw).toList := by
        rw [← h.lower_toList, hparts.eq]
        rw [hlist] at hc
        rcases List.mem_append.mp hc with hc | hc
        · exact List.mem_append_left _ (mem_mailbox hc)
        · exact List.mem_append_right _ hc
      exact CaseTables.mem_lower hvalue
    exact ⟨⟨_,_,hkept,mailbox_plain⟩,hstrip,hlower,normaliseEmail_fixed hkept mailbox_plain hstrip hlower⟩

end Canonical

/-- A character is its own ASCII lower case, or a capital letter. -/
theorem toLower_cases (c : Char) :
    c.toLower = c ∨ (65 ≤ c.toNat ∧ c.toNat ≤ 90 ∧ c.toLower.toNat = c.toNat + 32) := by
  unfold Char.toLower
  split
  · next h =>
    refine Or.inr ⟨h.1,h.2,?_⟩
    have hhigh : c.val.toNat ≤ 90 := h.2
    show (c.val + 32).toNat = c.val.toNat + 32
    rw [UInt32.toNat_add]
    refine Nat.mod_eq_of_lt ?_
    show c.val.toNat + 32 < 2 ^ 32
    omega
  · exact Or.inl rfl

/-- The case tables of ASCII, the sigmas, the sharp s and the upper case of one accented letter. -/
def latinCase : CaseTables where
  lowerFull c := if c = 'Σ' then ['σ'] else [c.toLower]
  upperFull c := if c = 'ß' then ['S','S'] else if c = 'é' then ['É'] else [c.toUpper]
  cased c := c.isAlpha
  caseIgnorable c := c = '.'
  lower_sigma := rfl
  lower_finalSigma := by decide
  lower_lower := by
    intro c d hd
    split at hd
    · obtain rfl := List.mem_singleton.mp hd
      decide
    · next hc =>
      obtain rfl := List.mem_singleton.mp hd
      rcases toLower_cases c with heq | ⟨hlow,hhigh,hval⟩
      · rw [heq, if_neg hc, heq]
      · have hsigma : c.toLower ≠ 'Σ' := by
          intro heq
          rw [heq] at hval
          have h931 : 'Σ'.toNat = 931 := rfl
          omega
        rw [if_neg hsigma]
        rcases toLower_cases c.toLower with heq | ⟨_,hhigh',_⟩
        · rw [heq]
        · omega
  lower_ne_nil := by
    intro c
    split <;> simp
  lower_spaceless := by
    intro c hc d hd
    split at hd
    · obtain rfl := List.mem_singleton.mp hd
      decide
    · obtain rfl := List.mem_singleton.mp hd
      rcases toLower_cases c with heq | ⟨hlow,hhigh,hval⟩
      · rw [heq]
        exact hc
      · simp only [Text.isSpace, hval]
        simp
        omega
  lower_space := by
    intro c hc
    have hsigma : c ≠ 'Σ' := by
      rintro rfl
      revert hc
      decide
    rw [if_neg hsigma]
    rcases toLower_cases c with heq | ⟨hlow,hhigh,_⟩
    · rw [heq]
    · simp [Text.isSpace] at hc
      omega
  lower_ascii := by
    intro c hc
    rw [if_neg]
    rintro rfl
    revert hc
    decide
  upper_ascii := by
    intro c hc
    have hsharp : c ≠ 'ß' := by
      rintro rfl
      revert hc
      decide
    have haccent : c ≠ 'é' := by
      rintro rfl
      revert hc
      decide
    rw [if_neg hsharp, if_neg haccent]
  upper_ne_nil := by
    intro c
    split_ifs <;> simp

/-- An interpreter with these tables. -/
def latinRuntime : Runtime :=
  { Runtime.plain .valueError with
    lower := fun s => String.ofList (latinCase.lower s.toList)
    upper := fun s => String.ofList (latinCase.upper s.toList)
    isAlpha := fun c => c.isAlpha || "ßéÉ".toList.contains c }

theorem latinRuntime_mapsCase : latinRuntime.MapsCase latinCase :=
  ⟨fun _ => rfl,fun _ => rfl,by
    intro c hc
    have hother : "ßéÉ".toList.contains c = false := by
      rw [List.contains_eq_mem, decide_eq_false_iff_not]
      intro hm
      have hlarge : ∀ d ∈ "ßéÉ".toList, 128 ≤ d.toNat := List.all_iff_forall_prop.mp (by decide)
      exact absurd hc (Nat.not_lt.mpr (hlarge c hm))
    exact (congrArg (c.isAlpha || ·) hother).trans (Bool.or_false _)⟩

/-- The theorem for an address with capitals, dots and a tag. -/
theorem normaliseEmail_canonical_iff_tag :
    normaliseEmail latinRuntime (some " M.Ohith+Ads@GMAIL.com ") = .ok "mohith@gmail.com" ∧
    CanonicalEmail latinRuntime "mohith@gmail.com" := by
  have hok : normaliseEmail latinRuntime (some " M.Ohith+Ads@GMAIL.com ") = .ok "mohith@gmail.com" := by
    decide +kernel
  have hlist : (latinRuntime.lower (Text.strip " M.Ohith+Ads@GMAIL.com ")).toList =
      "m.ohith+ads".toList ++ '@' :: "gmail.com".toList := by decide +kernel
  refine ⟨hok,(normaliseEmail_canonical_iff latinRuntime_mapsCase _).mpr ?_ _ hok⟩
  rintro ⟨localPart,domain,hparts,_,hblank⟩
  rw [hlist] at hparts
  have htake := hparts.takeWhile.1
  rw [← htake] at hblank
  exact absurd hblank (by decide +kernel)

/-- A blank behind a dot comes to the front, and the result has another normal form. -/
theorem not_canonical_blank : normaliseEmail latinRuntime (some ". a@gmail.com") = .ok " a@gmail.com" ∧
    ¬ CanonicalEmail latinRuntime " a@gmail.com" ∧
    normaliseEmail latinRuntime (some " a@gmail.com") = .ok "a@gmail.com" := by
  refine ⟨by decide +kernel,?_,by decide +kernel⟩
  intro h
  exact absurd h.trimmed (by decide +kernel)

end ConversionGateway
