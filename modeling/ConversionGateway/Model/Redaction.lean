import Mathlib.Data.List.Forall2
import ConversionGateway.Model.Logging

/-! # Redaction is complete

Replacing a match never makes a new one: the brackets of the replacement are in
neither pattern, and a phone number that was cut off by a match next to it would
have been part of that match.
-/
namespace ConversionGateway
open Regex

section Email
variable {prev : Option ℕ} {s out : List ℕ} {items : List (Item ℕ)}

theorem emailPattern_plain : ∀ i ∈ emailPattern, i.Plain := by
  simp [emailPattern,atLeast,Item.Plain]

theorem emailPattern_bracket {c : ℕ} (hc : c = 91 ∨ c = 93) : ∀ i ∈ emailPattern, i.accepts c = false := by
  rcases hc with rfl | rfl <;> simp [emailPattern,atLeast,Item.accepts] <;> decide

/-- An address in the result of a replacement was one of the text before. -/
theorem replaced_email (h : Replaced items redacted prev s out)
    (hf : Found emailPattern prev out) : ∃ u w x, s = u ++ (w ++ x) ∧ w ≠ [] ∧
      Matches emailPattern (lastOf prev u) (w ++ x) x ∧ Unmatched items (lastOf prev u) w x := by
  obtain ⟨u,t,r,rfl,hm⟩ := hf
  obtain ⟨w,rfl,haccepts,_,hone⟩ := hm.text
  have hout (c : ℕ) (hc : c = 91 ∨ c = 93) : c ∉ w := fun hcw => by
    obtain ⟨i,hi,hic⟩ := haccepts c hcw
    rw [emailPattern_bracket hc i hi] at hic
    cases hic
  obtain ⟨a,ha,hat⟩ := hone (oneOf "@") (by simp [emailPattern])
  have hat : a = 64 := by simpa [oneOf,points] using hat
  subst hat
  obtain ⟨u',x,rfl,hu,_,_⟩ := h.stretch (o := 91) (e := 93) rfl rfl (hout 91 (Or.inl rfl))
    (hout 93 (Or.inr rfl)) ⟨64,ha,by decide⟩
  exact ⟨u',w,x,rfl,List.ne_nil_of_mem ha,hm.anywhere emailPattern_plain _ _,hu⟩

/-- After the first replacement there is no address left. -/
theorem not_found_email (s : List ℕ) : ¬ Found emailPattern none (replace emailPattern redacted s) := by
  intro hf
  have hr : Replaced emailPattern redacted none s (replace emailPattern redacted s) :=
    replaceFrom_replaced (by decide)
  obtain ⟨u,w,x,_,hne,hm,hu⟩ := replaced_email hr hf
  exact matchHere_eq_none.mp (hu [] w rfl hne) x hm

/-- The second replacement makes none. -/
theorem not_found_email_phone {isDecimal : ℕ → Bool} (h : ¬ Found emailPattern none s) :
    ¬ Found emailPattern none (replace (phonePattern isDecimal) redacted s) := by
  intro hf
  have hr : Replaced (phonePattern isDecimal) redacted none s
      (replace (phonePattern isDecimal) redacted s) := replaceFrom_replaced (by simp [width,phonePattern,phoneCore,Item.width])
  obtain ⟨u,w,x,rfl,_,hm,_⟩ := replaced_email hr hf
  exact h ⟨u,w ++ x,x,rfl,hm⟩

end Email

section Phone
variable {isDecimal : ℕ → Bool} {prev : Option ℕ} {s r : List ℕ}

/-- A phone number without its sign. -/
def PhoneDigits (isDecimal : ℕ → Bool) (z : List ℕ) : Prop :=
  ∃ d mid d', z = d :: (mid ++ [d']) ∧ decimal isDecimal d = true ∧ decimal isDecimal d' = true ∧
    6 ≤ mid.length ∧ ∀ c ∈ mid, phoneInner isDecimal c = true

theorem phoneInner_of_decimal {c : ℕ} (h : decimal isDecimal c = true) : phoneInner isDecimal c = true := by
  simp [phoneInner,h]

/-- Two numbers next to each other are one. -/
theorem PhoneDigits.append {a b : List ℕ} (ha : PhoneDigits isDecimal a) (hb : PhoneDigits isDecimal b) :
    PhoneDigits isDecimal (a ++ b) := by
  obtain ⟨d,m,d',rfl,hd,hd',hm,hin⟩ := ha
  obtain ⟨e,n,e',rfl,he,he',hn,hin'⟩ := hb
  refine ⟨d,m ++ [d',e] ++ n,e',by simp,hd,he',by simp only [List.length_append]; omega,fun c hc => ?_⟩
  simp only [List.mem_append, List.mem_cons, List.not_mem_nil, or_false] at hc
  rcases hc with (hc | rfl | rfl) | hc
  · exact hin c hc
  · exact phoneInner_of_decimal hd'
  · exact phoneInner_of_decimal he
  · exact hin' c hc

theorem PhoneDigits.ne_nil {z : List ℕ} (h : PhoneDigits isDecimal z) : z ≠ [] := by
  obtain ⟨d,mid,d',rfl,_⟩ := h
  simp

theorem matches_phoneCore : Matches (phoneCore isDecimal) prev s r ↔
    ∃ z, s = z ++ r ∧ PhoneDigits isDecimal z ∧ r.head?.any hexDigit = false := by
  constructor
  · intro h
    cases h with
    | one hd h =>
      obtain ⟨mid,t,rfl,hl,hp,h⟩ := matches_atLeast.mp h
      cases h with
      | one hd' h =>
        cases h with
        | notAhead hr h =>
          cases h
          exact ⟨_,by simp,⟨_,mid,_,rfl,hd,hd',hl,hp⟩,hr⟩
  · rintro ⟨z,rfl,⟨d,mid,d',rfl,hd,hd',hl,hp⟩,hr⟩
    have htail : Matches [.one (decimal isDecimal),.notAhead hexDigit] (lastOf (some d) mid) (d' :: r) r :=
      .one hd' (.notAhead hr .nil)
    have hall : Matches (phoneCore isDecimal) prev (d :: (mid ++ d' :: r)) r :=
      .one hd (matches_atLeast.mpr ⟨mid,d' :: r,rfl,hl,hp,htail⟩)
    simpa using hall

theorem matches_phone (h : Matches (phonePattern isDecimal) prev s r) : prev.any hexDigit = false ∧
    ((∃ t, s = 43 :: t ∧ Matches (phoneCore isDecimal) (some 43) t r) ∨
      Matches (phoneCore isDecimal) prev s r) := by
  cases h with
  | notBehind hp h =>
    refine ⟨hp,?_⟩
    cases h with
    | @take _ _ _ c _ _ hc h =>
      obtain rfl : c = 43 := by simpa [oneOf,points] using hc
      exact Or.inl ⟨_,rfl,h⟩
    | leave h => exact Or.inr h

theorem phoneCore_longest {p q : Option ℕ} {r' : List ℕ} (h : matchHere (phoneCore isDecimal) p s = some r)
    (h' : Matches (phoneCore isDecimal) q s r') : r.length ≤ r'.length := by
  have h' : Matches (phoneCore isDecimal) p s r' := matches_phoneCore.mpr (matches_phoneCore.mp h')
  let pre := Item.one (decimal isDecimal) :: List.replicate 5 (.one (phoneInner isDecimal))
  let post := [Item.one (decimal isDecimal),.notAhead hexDigit]
  have hcore : phoneCore isDecimal = pre ++ .many (phoneInner isDecimal) :: post := rfl
  rw [hcore] at h h'
  refine matchHere_longest ?_ ?_ h h'
  · simp [pre,Item.Fixed]
  · simp [post,Item.Fixed]

/-- What the engine takes is a number, with its sign if it has one, and the longest there is. -/
theorem matchHere_phone (h : matchHere (phonePattern isDecimal) prev s = some r) :
    ∃ sign t, s = sign ++ t ∧ (sign = [] ∨ sign = [43]) ∧ Matches (phoneCore isDecimal) none t r ∧
      ∀ r', Matches (phoneCore isDecimal) none t r' → r.length ≤ r'.length := by
  have hany {p : Option ℕ} {t : List ℕ} (ht : matchHere (phoneCore isDecimal) p t = some r) :
      Matches (phoneCore isDecimal) none t r ∧
        ∀ r', Matches (phoneCore isDecimal) none t r' → r.length ≤ r'.length :=
    ⟨matches_phoneCore.mpr (matches_phoneCore.mp (matchHere_sound ht)),fun r' h' => phoneCore_longest ht h'⟩
  unfold phonePattern matchHere at h
  split at h
  · cases h
  · cases s with
    | nil => exact ⟨[],[],rfl,Or.inl rfl,hany (p := prev) h⟩
    | cons c t =>
      rcases Option.or_eq_some_iff.mp h with h | ⟨_,h⟩
      · split at h
        · next hc =>
          obtain rfl : c = 43 := by simpa [oneOf,points] using hc
          exact ⟨[43],t,rfl,Or.inr rfl,hany h⟩
        · cases h
      · exact ⟨[],c :: t,rfl,Or.inl rfl,hany h⟩

theorem not_bracket_of_phone {z : List ℕ} (h : PhoneDigits isDecimal z) {c : ℕ} (hc : c = 91 ∨ c = 93) :
    c ∉ z := by
  have hinner : phoneInner isDecimal c = false := by
    rcases hc with rfl | rfl <;> simp [phoneInner,decimal,spacePoint,oneOf,points,between] <;> decide
  obtain ⟨d,mid,d',rfl,hd,hd',_,hin⟩ := h
  simp only [List.mem_cons, List.mem_append, List.not_mem_nil, or_false]
  rintro (rfl | hm | rfl)
  · rw [phoneInner_of_decimal hd] at hinner
    cases hinner
  · rw [hin c hm] at hinner
    cases hinner
  · rw [phoneInner_of_decimal hd'] at hinner
    cases hinner

theorem decimal_not_redacted {c : ℕ} (h : decimal isDecimal c = true) : c ∉ redacted := by
  intro hm
  have hcases : c ∈ [91,82,69,68,65,67,84,93] := by
    have hsub : ∀ x ∈ redacted, x ∈ [91,82,69,68,65,67,84,93] := by decide
    exact hsub c hm
  simp only [List.mem_cons, List.not_mem_nil, or_false] at hcases
  rcases hcases with rfl | rfl | rfl | rfl | rfl | rfl | rfl | rfl <;> simp [decimal,between] at h

/-- Whatever follows a number in the text, the number or a longer one ends well there. -/
theorem phone_extends {z x out : List ℕ} (hz : PhoneDigits isDecimal z)
    (hx : Replaced (phonePattern isDecimal) redacted prev x out) (hout : out.head?.any hexDigit = false) :
    ∃ r, Matches (phoneCore isDecimal) none (z ++ x) r := by
  cases hx with
  | nil => exact ⟨[],matches_phoneCore.mpr ⟨z,rfl,hz,rfl⟩⟩
  | keep hn hr => exact ⟨_,matches_phoneCore.mpr ⟨z,rfl,hz,hout⟩⟩
  | @subst _ m rest _ hm hs hr =>
    obtain ⟨sign,t,ht,hsign,hmatch,_⟩ := matchHere_phone hs
    rcases hsign with rfl | rfl
    · -- the next match begins with a digit, so it prolongs the number
      obtain ⟨z',hz',hdig,hr⟩ := matches_phoneCore.mp hmatch
      have heq : m ++ rest = z' ++ rest := ht.trans hz'
      refine ⟨rest,matches_phoneCore.mpr ⟨z ++ z',?_,hz.append hdig,hr⟩⟩
      rw [heq, List.append_assoc]
    · refine ⟨m ++ rest,matches_phoneCore.mpr ⟨z,rfl,hz,?_⟩⟩
      rw [ht]
      rfl

/-- After the second replacement there is no phone number left. -/
theorem not_found_phone (s : List ℕ) :
    ¬ Found (phonePattern isDecimal) none (replace (phonePattern isDecimal) redacted s) := by
  rintro ⟨u,t,r,heq,hm⟩
  have h : Replaced (phonePattern isDecimal) redacted none s (replace (phonePattern isDecimal) redacted s) :=
    replaceFrom_replaced (by simp [width,phonePattern,phoneCore,Item.width])
  rw [heq] at h
  obtain ⟨hprev,hcore⟩ := matches_phone hm
  -- the number, with the sign it may have
  have hsplit : ∃ sign z, t = (sign ++ z) ++ r ∧ (sign = [] ∨ sign = [43]) ∧ PhoneDigits isDecimal z ∧
      r.head?.any hexDigit = false := by
    rcases hcore with ⟨t,rfl,hc⟩ | hc
    · obtain ⟨z,rfl,hz,hr⟩ := matches_phoneCore.mp hc
      exact ⟨[43],z,rfl,Or.inr rfl,hz,hr⟩
    · obtain ⟨z,rfl,hz,hr⟩ := matches_phoneCore.mp hc
      exact ⟨[],z,rfl,Or.inl rfl,hz,hr⟩
  obtain ⟨sign,z,rfl,hsign,hz,hr⟩ := hsplit
  have hout (c : ℕ) (hc : c = 91 ∨ c = 93) : c ∉ sign ++ z := fun hcw => by
    rcases List.mem_append.mp hcw with hcw | hcw
    · rcases hsign with rfl | rfl
      · cases hcw
      · rcases hc with rfl | rfl <;> simp at hcw
    · exact not_bracket_of_phone hz hc hcw
  have hdigit : ∃ c ∈ sign ++ z, c ∉ redacted := by
    obtain ⟨d,mid,d',rfl,hd,_⟩ := id hz
    exact ⟨d,by simp,decimal_not_redacted hd⟩
  obtain ⟨u',x,rfl,hu,hx,hsame⟩ := h.stretch (o := 91) (e := 93) rfl rfl (hout 91 (Or.inl rfl))
    (hout 93 (Or.inr rfl)) hdigit
  obtain ⟨r',hr'⟩ := phone_extends hz hx hr
  have hnone {p : Option ℕ} (hp : p.any hexDigit = false)
      (hn : matchHere (phonePattern isDecimal) p (z ++ x) = none) : False :=
    matchHere_eq_none.mp hn r' (.notBehind hp (.leave (matches_phoneCore.mpr (matches_phoneCore.mp hr'))))
  rcases hsign with rfl | rfl
  · rcases hsame with hsame | ⟨a,m,rfl,hm,hs⟩
    · exact hnone (hsame ▸ hprev) (hu [] z rfl hz.ne_nil)
    · -- a match that ends where the number begins would have gone on
      rw [List.nil_append] at hs
      obtain ⟨sign,t,ht,hsign,hmatch,hlongest⟩ := matchHere_phone hs
      obtain ⟨z',hz',hdig,_⟩ := matches_phoneCore.mp hmatch
      obtain ⟨y,hy,hydig,hyr⟩ := matches_phoneCore.mp hr'
      have hle := hlongest r' (matches_phoneCore.mpr
        ⟨z' ++ y,by rw [hz', hy, List.append_assoc],hdig.append hydig,hyr⟩)
      have hpos := List.length_pos_iff.mpr hydig.ne_nil
      rw [hy, List.length_append] at hle
      omega
  · exact hnone rfl (hu [43] z rfl hz.ne_nil)

end Phone

/-! ## Events -/

section Events
variable {Key : Type} (rt : LogRuntime Key)

/-- The key names data that is personal: it contains a marker, in any case, and
is not that of a digest. -/
def SensitiveKey (key : CodePoints) : Prop :=
  (∃ marker ∈ sensitiveKeys, points marker <:+: rt.lower key) ∧ ¬ points safeKeyPrefix <+: rt.lower key

theorem keyIsSensitive_iff {key : CodePoints} : keyIsSensitive rt key = true ↔ SensitiveKey rt key := by
  unfold keyIsSensitive SensitiveKey
  dsimp only
  split
  · next h => simp [h]
  · next h => simp [h]

/-- A string with neither kind of match. -/
def Scrubbed (s : CodePoints) : Prop :=
  ¬ Found emailPattern none s ∧ ¬ Found (phonePattern rt.isDecimal) none s

theorem scrubString_scrubbed (s : CodePoints) : Scrubbed rt (scrubString rt s) :=
  ⟨not_found_email_phone (not_found_email s),not_found_phone _⟩

theorem Scrubbed.fixed {s : CodePoints} (h : Scrubbed rt s) : scrubString rt s = s := by
  have he : replace emailPattern redacted s = s := replaceFrom_eq_self h.1
  rw [scrubString, he]
  exact replaceFrom_eq_self h.2

/-- A value as `_scrub` leaves it: no personal data under a sensitive key or in a string. -/
inductive Clean : LogValue Key → Prop
  | none : Clean .none
  | int (i : ℤ) : Clean (.int i)
  | float (literal : String) : Clean (.float literal)
  | str {s : CodePoints} (h : Scrubbed rt s) : Clean (.str s)
  | dict {entries : List (Key × LogValue Key)}
      (hkey : ∀ k v, (k,v) ∈ entries → SensitiveKey rt (rt.str k) → v = .str redacted)
      (h : ∀ k v, (k,v) ∈ entries → Clean v) : Clean (.dict entries)
  | list {items : List (LogValue Key)} (h : ∀ v ∈ items, Clean v) : Clean (.list items)

mutual

/-- What redaction leaves of a value: the same data, with the matches in its strings and
what stands under a sensitive key replaced. A tuple becomes a list. -/
inductive Redacted : LogValue Key → LogValue Key → Prop
  | none : Redacted .none .none
  | int (i : ℤ) : Redacted (.int i) (.int i)
  | float (literal : String) : Redacted (.float literal) (.float literal)
  | str {s mid out : CodePoints} (he : Replaced emailPattern redacted none s mid)
      (hp : Replaced (phonePattern rt.isDecimal) redacted none mid out) : Redacted (.str s) (.str out)
  | dict {entries out : List (Key × LogValue Key)} (h : RedactedEntries entries out) :
      Redacted (.dict entries) (.dict out)
  | list {items out : List (LogValue Key)} (h : RedactedItems items out) : Redacted (.list items) (.list out)
  | tuple {items out : List (LogValue Key)} (h : RedactedItems items out) : Redacted (.tuple items) (.list out)

inductive RedactedEntries : List (Key × LogValue Key) → List (Key × LogValue Key) → Prop
  | nil : RedactedEntries [] []
  | sensitive {k : Key} {v : LogValue Key} {rest out : List (Key × LogValue Key)}
      (hs : SensitiveKey rt (rt.str k)) (h : RedactedEntries rest out) :
      RedactedEntries ((k,v) :: rest) ((k,.str redacted) :: out)
  | plain {k : Key} {v w : LogValue Key} {rest out : List (Key × LogValue Key)}
      (hs : ¬ SensitiveKey rt (rt.str k)) (hv : Redacted v w) (h : RedactedEntries rest out) :
      RedactedEntries ((k,v) :: rest) ((k,w) :: out)

inductive RedactedItems : List (LogValue Key) → List (LogValue Key) → Prop
  | nil : RedactedItems [] []
  | cons {v w : LogValue Key} {rest out : List (LogValue Key)} (hv : Redacted v w)
      (h : RedactedItems rest out) : RedactedItems (v :: rest) (w :: out)

end

section Scrub
variable {rt}

theorem redacted_scrubbed : Scrubbed rt redacted := by
  have h : scrubString rt redacted = redacted := rfl
  rw [← h]
  exact scrubString_scrubbed rt redacted

theorem SensitiveKey.ne_nil {key : CodePoints} (h : SensitiveKey rt key) : key ≠ [] := by
  rintro rfl
  obtain ⟨⟨marker,hm,hin⟩,_⟩ := h
  rw [rt.lower_nil, List.infix_nil] at hin
  have hne : ∀ m ∈ sensitiveKeys, points m ≠ [] := by decide
  exact hne marker hm hin

theorem scrub_sensitive {key : CodePoints} (h : SensitiveKey rt key) (v : LogValue Key) :
    scrub rt v key = .str redacted := by
  unfold scrub
  exact if_pos ⟨h.ne_nil,(keyIsSensitive_iff rt).mpr h⟩

/-- Under any other key the value itself decides. -/
theorem scrub_plain {key : CodePoints} (h : ¬ SensitiveKey rt key) (v : LogValue Key) :
    scrub rt v key = scrub rt v [] := by
  have hk : ¬ (key ≠ [] ∧ keyIsSensitive rt key = true) := fun hk => h ((keyIsSensitive_iff rt).mp hk.2)
  cases v <;> simp only [scrub, if_neg hk, ne_eq, not_true_eq_false, false_and, if_false]

mutual

theorem scrub_clean (v : LogValue Key) : Clean rt (scrub rt v []) := by
  cases v with
  | none => exact .none
  | int i => exact .int i
  | float literal => exact .float literal
  | str s => exact .str (scrubString_scrubbed rt s)
  | dict entries =>
    exact .dict (fun k v hk hs => (scrubEntries_clean entries k v hk).2 hs)
      fun k v hk => (scrubEntries_clean entries k v hk).1
  | list items | tuple items => exact .list (scrubItems_clean items)

theorem scrubEntries_clean (entries : List (Key × LogValue Key)) : ∀ k v, (k,v) ∈ scrubEntries rt entries →
    Clean rt v ∧ (SensitiveKey rt (rt.str k) → v = .str redacted) := by
  cases entries with
  | nil => exact fun _ _ hk => (by cases hk)
  | cons entry rest =>
    obtain ⟨j,x⟩ := entry
    intro k v hk
    rcases List.mem_cons.mp hk with hk | hk
    · obtain ⟨rfl,rfl⟩ := Prod.mk.inj hk
      by_cases hs : SensitiveKey rt (rt.str k)
      · rw [scrub_sensitive hs]
        exact ⟨.str redacted_scrubbed,fun _ => rfl⟩
      · rw [scrub_plain hs]
        exact ⟨scrub_clean x,fun h => absurd h hs⟩
    · exact scrubEntries_clean rest k v hk

theorem scrubItems_clean (items : List (LogValue Key)) : ∀ v ∈ scrubItems rt items, Clean rt v := by
  cases items with
  | nil => exact fun _ hv => (by cases hv)
  | cons x rest =>
    intro v hv
    rcases List.mem_cons.mp hv with rfl | hv
    · exact scrub_clean x
    · exact scrubItems_clean rest v hv

end

theorem scrubEntries_fixed {entries : List (Key × LogValue Key)}
    (h : ∀ k v, (k,v) ∈ entries → scrub rt v (rt.str k) = v) : scrubEntries rt entries = entries := by
  induction entries with
  | nil => rfl
  | cons entry rest ih =>
    obtain ⟨k,v⟩ := entry
    rw [scrubEntries, h k v List.mem_cons_self, ih fun j x hj => h j x (List.mem_cons_of_mem _ hj)]

theorem scrubItems_fixed {items : List (LogValue Key)} (h : ∀ v ∈ items, scrub rt v [] = v) :
    scrubItems rt items = items := by
  induction items with
  | nil => rfl
  | cons v rest ih =>
    rw [scrubItems, h v List.mem_cons_self, ih fun x hx => h x (List.mem_cons_of_mem _ hx)]

/-- A clean value is left as it is. -/
theorem Clean.fixed {v : LogValue Key} (h : Clean rt v) : scrub rt v [] = v := by
  induction h with
  | none | int | float => rfl
  | str hs => exact congrArg LogValue.str hs.fixed
  | dict hkey _ ih =>
    refine congrArg LogValue.dict (scrubEntries_fixed fun k v hk => ?_)
    by_cases hs : SensitiveKey rt (rt.str k)
    · rw [scrub_sensitive hs, hkey k v hk hs]
    · exact (scrub_plain hs v).trans (ih k v hk)
  | list _ ih => exact congrArg LogValue.list (scrubItems_fixed ih)

theorem scrubString_redacted (s : CodePoints) : Redacted rt (.str s) (.str (scrubString rt s)) :=
  .str (replaceFrom_replaced (by decide))
    (replaceFrom_replaced (by simp [width,phonePattern,phoneCore,Item.width]))

mutual

theorem scrub_redacted (v : LogValue Key) : Redacted rt v (scrub rt v []) := by
  cases v with
  | none => exact .none
  | int i => exact .int i
  | float literal => exact .float literal
  | str s => exact scrubString_redacted s
  | dict entries => exact .dict (scrubEntries_redacted entries)
  | list items => exact .list (scrubItems_redacted items)
  | tuple items => exact .tuple (scrubItems_redacted items)

theorem scrubEntries_redacted (entries : List (Key × LogValue Key)) :
    RedactedEntries rt entries (scrubEntries rt entries) := by
  cases entries with
  | nil => exact .nil
  | cons entry rest =>
    obtain ⟨k,v⟩ := entry
    rw [scrubEntries]
    by_cases hs : SensitiveKey rt (rt.str k)
    · rw [scrub_sensitive hs]
      exact .sensitive hs (scrubEntries_redacted rest)
    · rw [scrub_plain hs]
      exact .plain hs (scrub_redacted v) (scrubEntries_redacted rest)

theorem scrubItems_redacted (items : List (LogValue Key)) : RedactedItems rt items (scrubItems rt items) := by
  cases items with
  | nil => exact .nil
  | cons v rest => exact .cons (scrub_redacted v) (scrubItems_redacted rest)

end

end Scrub

end Events

end ConversionGateway
