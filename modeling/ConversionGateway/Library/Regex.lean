import Mathlib.Algebra.GroupWithZero.Nat
import Mathlib.Data.List.Basic

/-! # Backtracking search and replace

Regular expressions that are a sequence of character classes with greedy
repetition, options and one-character lookarounds, matched in the order of a
backtracking engine. `Matches` says what can be matched at a position, with the
character before it; `matchHere` takes the first of it in that order. `replace`
is the leftmost replacement of the matches, `Replaced` how its result comes about.
-/
namespace Regex
variable {α : Type*}

inductive Item (α : Type*)
  | one (p : α → Bool)
  /-- One or more, as many as possible. -/
  | many (p : α → Bool)
  | opt (p : α → Bool)
  | notBehind (p : α → Bool)
  | notAhead (p : α → Bool)

/-- `p{n,}` for `1 ≤ n` -/
def atLeast (n : ℕ) (p : α → Bool) : List (Item α) := List.replicate (n - 1) (.one p) ++ [.many p]

/-- Take as much of the class as leaves something that `k` accepts. -/
def greedy (p : α → Bool) (k : Option α → List α → Option (List α)) : List α → Option (List α)
  | [] => none
  | c :: s => if p c then (greedy p k s).or (k (some c) s) else none

/-- What is left after the first match at a position; the option is the character before it. -/
def matchHere : List (Item α) → Option α → List α → Option (List α)
  | [], _, s => some s
  | .one _ :: _, _, [] => none
  | .one p :: items, _, c :: s => if p c then matchHere items (some c) s else none
  | .many p :: items, _, s => greedy p (matchHere items) s
  | .opt _ :: items, prev, [] => matchHere items prev []
  | .opt p :: items, prev, c :: s =>
    (if p c then matchHere items (some c) s else none).or (matchHere items prev (c :: s))
  | .notBehind p :: items, prev, s => if prev.any p then none else matchHere items prev s
  | .notAhead p :: items, prev, s => if s.head?.any p then none else matchHere items prev s

/-- The items can match the beginning of a text and leave the rest of it. -/
inductive Matches : List (Item α) → Option α → List α → List α → Prop
  | nil {prev : Option α} {s : List α} : Matches [] prev s s
  | one {p : α → Bool} {items : List (Item α)} {prev : Option α} {c : α} {s r : List α} (hc : p c = true)
      (h : Matches items (some c) s r) : Matches (.one p :: items) prev (c :: s) r
  | last {p : α → Bool} {items : List (Item α)} {prev : Option α} {c : α} {s r : List α}
      (hc : p c = true) (h : Matches items (some c) s r) : Matches (.many p :: items) prev (c :: s) r
  | more {p : α → Bool} {items : List (Item α)} {prev : Option α} {c : α} {s r : List α}
      (hc : p c = true) (h : Matches (.many p :: items) (some c) s r) :
      Matches (.many p :: items) prev (c :: s) r
  | take {p : α → Bool} {items : List (Item α)} {prev : Option α} {c : α} {s r : List α}
      (hc : p c = true) (h : Matches items (some c) s r) : Matches (.opt p :: items) prev (c :: s) r
  | leave {p : α → Bool} {items : List (Item α)} {prev : Option α} {s r : List α}
      (h : Matches items prev s r) : Matches (.opt p :: items) prev s r
  | notBehind {p : α → Bool} {items : List (Item α)} {prev : Option α} {s r : List α}
      (hp : prev.any p = false) (h : Matches items prev s r) : Matches (.notBehind p :: items) prev s r
  | notAhead {p : α → Bool} {items : List (Item α)} {prev : Option α} {s r : List α}
      (hp : s.head?.any p = false) (h : Matches items prev s r) : Matches (.notAhead p :: items) prev s r

section Matcher
variable {p : α → Bool} {items : List (Item α)} {prev : Option α} {s r : List α}

theorem greedy_sound (hk : ∀ {prev s r}, matchHere items prev s = some r → Matches items prev s r)
    (h : greedy p (matchHere items) s = some r) : Matches (.many p :: items) prev s r := by
  induction s generalizing prev with
  | nil => cases h
  | cons c s ih =>
    unfold greedy at h
    split at h
    · next hc =>
      rcases Option.or_eq_some_iff.mp h with h | ⟨_,h⟩
      · exact .more hc (ih h)
      · exact .last hc (hk h)
    · cases h

theorem matchHere_sound (h : matchHere items prev s = some r) : Matches items prev s r := by
  induction items generalizing prev s r with
  | nil =>
    cases h
    exact .nil
  | cons item items ih =>
    cases item with
    | one p =>
      cases s with
      | nil => cases h
      | cons c s =>
        simp only [matchHere] at h
        split at h
        · next hc => exact .one hc (ih h)
        · cases h
    | many p => exact greedy_sound ih h
    | opt p =>
      cases s with
      | nil => exact .leave (ih h)
      | cons c s =>
        simp only [matchHere] at h
        rcases Option.or_eq_some_iff.mp h with h | ⟨_,h⟩
        · split at h
          · next hc => exact .take hc (ih h)
          · cases h
        · exact .leave (ih h)
    | notBehind p =>
      simp only [matchHere] at h
      split at h
      · cases h
      · next hp => exact .notBehind (by simpa using hp) (ih h)
    | notAhead p =>
      simp only [matchHere] at h
      split at h
      · cases h
      · next hp => exact .notAhead (by simpa using hp) (ih h)

/-- The matcher backtracks into every way to match. -/
theorem Matches.isSome (h : Matches items prev s r) : (matchHere items prev s).isSome := by
  induction h with
  | nil => rfl
  | one hc _ ih => simpa [matchHere,hc] using ih
  | last hc _ ih =>
    have ih : (matchHere _ _ _).isSome := ih
    simp [matchHere,greedy,hc,ih]
  | more hc _ ih =>
    have ih : (greedy _ _ _).isSome := ih
    simp [matchHere,greedy,hc,ih]
  | take hc _ ih => simp [matchHere,hc,ih]
  | @leave p items prev s r _ ih =>
    cases s with
    | nil => exact ih
    | cons c s => simp [matchHere,ih]
  | notBehind hp _ ih => simpa [matchHere,hp] using ih
  | notAhead hp _ ih => simpa [matchHere,hp] using ih

theorem matchHere_eq_none : matchHere items prev s = none ↔ ∀ r, ¬ Matches items prev s r := by
  refine ⟨fun h r hm => ?_,fun h => ?_⟩
  · simpa [h] using hm.isSome
  · cases hs : matchHere items prev s with
    | none => rfl
    | some r => exact absurd (matchHere_sound hs) (h r)

end Matcher

/-! ## What a match is made of -/

/-- The character before the position that is reached by reading `s`. -/
def lastOf (prev : Option α) (s : List α) : Option α := s.foldl (fun _ c => some c) prev

@[simp] theorem lastOf_nil (prev : Option α) : lastOf prev [] = prev := rfl

@[simp] theorem lastOf_cons (prev : Option α) (c : α) (s : List α) :
    lastOf prev (c :: s) = lastOf (some c) s := rfl

@[simp] theorem lastOf_append (prev : Option α) (s t : List α) :
    lastOf prev (s ++ t) = lastOf (lastOf prev s) t := List.foldl_append

theorem lastOf_of_ne_nil {s : List α} (h : s ≠ []) (p q : Option α) : lastOf p s = lastOf q s := by
  cases s with
  | nil => exact absurd rfl h
  | cons c s => rfl

/-- The characters an item reads. -/
def Item.accepts : Item α → α → Bool
  | .one p | .many p | .opt p => p
  | .notBehind _ | .notAhead _ => fun _ => false

def Item.Plain : Item α → Prop
  | .notBehind _ | .notAhead _ => False
  | _ => True

/-- How much an item reads that always reads the same. -/
def Item.width : Item α → ℕ
  | .one _ => 1
  | _ => 0

def Item.Fixed : Item α → Prop
  | .many _ | .opt _ => False
  | _ => True

def width (items : List (Item α)) : ℕ := (items.map Item.width).sum

section Language
variable {p : α → Bool} {items pre post : List (Item α)} {prev : Option α} {s r r' : List α}

/-- The text that was matched: every item of a single character has read one. -/
theorem Matches.text (h : Matches items prev s r) : ∃ w, s = w ++ r ∧
    (∀ c ∈ w, ∃ i ∈ items, i.accepts c = true) ∧ width items ≤ w.length ∧
    ∀ p, .one p ∈ items → ∃ c ∈ w, p c = true := by
  induction h with
  | nil => exact ⟨[],rfl,by simp,Nat.le_refl _,by simp⟩
  | @one p items prev c s r hc _ ih =>
    obtain ⟨w,rfl,ha,hw,ho⟩ := ih
    refine ⟨c :: w,rfl,fun d hd => ?_,?_,fun q hq => ?_⟩
    · rcases List.mem_cons.mp hd with rfl | hd
      · exact ⟨.one p,List.mem_cons_self,hc⟩
      · obtain ⟨i,hi,hia⟩ := ha d hd
        exact ⟨i,List.mem_cons_of_mem _ hi,hia⟩
    · simp only [width, Item.width, List.map_cons, List.sum_cons, List.length_cons] at hw ⊢
      omega
    · rcases List.mem_cons.mp hq with hq | hq
      · cases hq
        exact ⟨c,List.mem_cons_self,hc⟩
      · obtain ⟨d,hd,hqd⟩ := ho q hq
        exact ⟨d,List.mem_cons_of_mem c hd,hqd⟩
  | @last p items prev c s r hc _ ih | @take p items prev c s r hc _ ih =>
    obtain ⟨w,rfl,ha,hw,ho⟩ := ih
    refine ⟨c :: w,rfl,fun d hd => ?_,?_,fun q hq => ?_⟩
    · rcases List.mem_cons.mp hd with rfl | hd
      · exact ⟨_,List.mem_cons_self,hc⟩
      · obtain ⟨i,hi,hia⟩ := ha d hd
        exact ⟨i,List.mem_cons_of_mem _ hi,hia⟩
    · simp only [width, Item.width, List.map_cons, List.sum_cons, List.length_cons] at hw ⊢
      omega
    · obtain ⟨d,hd,hqd⟩ := ho q (by simpa using hq)
      exact ⟨d,List.mem_cons_of_mem c hd,hqd⟩
  | @more p items prev c s r hc _ ih =>
    obtain ⟨w,rfl,ha,hw,ho⟩ := ih
    refine ⟨c :: w,rfl,fun d hd => ?_,Nat.le_succ_of_le hw,fun q hq => ?_⟩
    · rcases List.mem_cons.mp hd with rfl | hd
      · exact ⟨_,List.mem_cons_self,hc⟩
      · exact ha d hd
    · obtain ⟨d,hd,hqd⟩ := ho q hq
      exact ⟨d,List.mem_cons_of_mem c hd,hqd⟩
  | @leave p items prev s r _ ih | @notBehind p items prev s r _ _ ih | @notAhead p items prev s r _ _ ih =>
    obtain ⟨w,rfl,ha,hw,ho⟩ := ih
    refine ⟨w,rfl,fun d hd => ?_,?_,fun q hq => ho q (by simpa using hq)⟩
    · obtain ⟨i,hi,hia⟩ := ha d hd
      exact ⟨i,List.mem_cons_of_mem _ hi,hia⟩
    · simpa [width,Item.width] using hw

/-- Without lookarounds a text matches wherever it stands. -/
theorem Matches.anywhere (hplain : ∀ i ∈ items, i.Plain) {w : List α} (h : Matches items prev (w ++ r) r)
    (prev' : Option α) (t : List α) : Matches items prev' (w ++ t) t := by
  generalize hs : w ++ r = s at h
  induction h generalizing w prev' with
  | nil =>
    have hw : w = [] := by simpa using hs
    subst hw
    exact .nil
  | @one p items prev c s r hc h ih | @last p items prev c s r hc h ih | @take p items prev c s r hc h ih =>
    obtain ⟨w₁,hw₁,_⟩ := h.text
    obtain rfl : w = c :: w₁ := List.append_cancel_right (hs.trans (by rw [hw₁]; rfl))
    have htail := ih (fun i hi => hplain i (List.mem_cons_of_mem _ hi)) (some c) hw₁.symm
    first
      | exact .one hc htail
      | exact .last hc htail
      | exact .take hc htail
  | @more p items prev c s r hc h ih =>
    obtain ⟨w₁,hw₁,_⟩ := h.text
    obtain rfl : w = c :: w₁ := List.append_cancel_right (hs.trans (by rw [hw₁]; rfl))
    exact .more hc (ih hplain (some c) hw₁.symm)
  | leave _ ih => exact .leave (ih (fun i hi => hplain i (List.mem_cons_of_mem _ hi)) prev' hs)
  | notBehind _ _ _ => exact (hplain _ List.mem_cons_self).elim
  | notAhead _ _ _ => exact (hplain _ List.mem_cons_self).elim

theorem matches_ones {n : ℕ} : Matches (List.replicate n (.one p) ++ items) prev s r ↔
    ∃ mid t, s = mid ++ t ∧ mid.length = n ∧ (∀ c ∈ mid, p c = true) ∧ Matches items (lastOf prev mid) t r := by
  induction n generalizing prev s with
  | zero =>
    refine ⟨fun h => ⟨[],s,rfl,rfl,by simp,h⟩,fun ⟨mid,t,hs,hl,_,h⟩ => ?_⟩
    obtain rfl := List.length_eq_zero_iff.mp hl
    exact hs ▸ h
  | succ n ih =>
    constructor
    · intro h
      cases h with
      | @one _ _ _ c s _ hc h =>
        obtain ⟨mid,t,rfl,hl,hm,h⟩ := ih.mp h
        exact ⟨c :: mid,t,rfl,by simp [hl],by simpa [hc] using hm,h⟩
    · rintro ⟨mid,t,rfl,hl,hm,h⟩
      cases mid with
      | nil => cases hl
      | cons c mid =>
        exact .one (hm c List.mem_cons_self)
          (ih.mpr ⟨mid,t,rfl,Nat.succ.inj hl,fun d hd => hm d (List.mem_cons_of_mem c hd),h⟩)

theorem matches_many : Matches (.many p :: items) prev s r ↔
    ∃ mid t, s = mid ++ t ∧ mid ≠ [] ∧ (∀ c ∈ mid, p c = true) ∧ Matches items (lastOf prev mid) t r := by
  constructor
  · intro h
    generalize hi : Item.many p :: items = all at h
    induction h with
    | last hc h =>
      cases hi
      exact ⟨[_],_,rfl,by simp,by simpa using hc,h⟩
    | more hc h ih =>
      cases hi
      obtain ⟨mid,t,rfl,_,hm,h⟩ := ih rfl
      exact ⟨_ :: mid,t,rfl,by simp,by simpa [hc] using hm,h⟩
    | nil | one | take | leave | notBehind | notAhead => cases hi
  · rintro ⟨mid,t,rfl,hne,hm,h⟩
    induction mid generalizing prev with
    | nil => exact absurd rfl hne
    | cons c mid ih =>
      have hc := hm c List.mem_cons_self
      by_cases hmid : mid = []
      · subst hmid
        exact .last hc h
      · exact .more hc (ih hmid (fun d hd => hm d (List.mem_cons_of_mem c hd)) h)

/-- A class that is repeated often enough. -/
theorem matches_atLeast {n : ℕ} : Matches (atLeast (n + 1) p ++ items) prev s r ↔
    ∃ mid t, s = mid ++ t ∧ n + 1 ≤ mid.length ∧ (∀ c ∈ mid, p c = true) ∧
      Matches items (lastOf prev mid) t r := by
  have hsplit : atLeast (n + 1) p ++ items = List.replicate n (.one p) ++ (.many p :: items) := by
    simp [atLeast]
  rw [hsplit, matches_ones]
  constructor
  · rintro ⟨a,t,rfl,ha,hpa,h⟩
    obtain ⟨b,t,rfl,hb,hpb,h⟩ := matches_many.mp h
    have hlen := List.length_pos_iff.mpr hb
    refine ⟨a ++ b,t,by simp,by rw [List.length_append]; omega,fun c hc => ?_,by simpa using h⟩
    exact (List.mem_append.mp hc).elim (hpa c) (hpb c)
  · rintro ⟨mid,t,rfl,hl,hp,h⟩
    refine ⟨mid.take n,mid.drop n ++ t,by rw [← List.append_assoc, List.take_append_drop],
      by rw [List.length_take]; omega,fun c hc => hp c (List.mem_of_mem_take hc),
      matches_many.mpr ⟨mid.drop n,t,rfl,?_,fun c hc => hp c (List.mem_of_mem_drop hc),?_⟩⟩
    · rw [← List.length_pos_iff, List.length_drop]
      omega
    · rwa [← lastOf_append, List.take_append_drop]

theorem Matches.length (hfix : ∀ i ∈ items, i.Fixed) (h : Matches items prev s r) :
    s.length = r.length + width items := by
  induction h with
  | nil => rfl
  | one hc _ ih =>
    have hlen := ih fun i hi => hfix i (List.mem_cons_of_mem _ hi)
    simp only [width, Item.width, List.map_cons, List.sum_cons, List.length_cons] at hlen ⊢
    omega
  | notBehind _ _ ih | notAhead _ _ ih =>
    have hlen := ih fun i hi => hfix i (List.mem_cons_of_mem _ hi)
    simpa [width,Item.width] using hlen
  | last _ _ _ | take _ _ _ | leave _ _ => exact (hfix _ List.mem_cons_self).elim
  | more _ _ _ => exact (hfix _ List.mem_cons_self).elim

/-- Repetition stops as late as what follows it allows. -/
theorem greedy_longest (hpost : ∀ i ∈ post, i.Fixed) (h : greedy p (matchHere post) s = some r)
    (h' : Matches (.many p :: post) prev s r') : r.length ≤ r'.length := by
  induction s generalizing prev with
  | nil => cases h
  | cons c s ih =>
    unfold greedy at h
    split at h
    · rcases Option.or_eq_some_iff.mp h with h | ⟨hnone,h⟩
      · cases h' with
        | last _ h' =>
          have hgreedy : Matches (.many p :: post) prev s r := greedy_sound matchHere_sound h
          obtain ⟨mid,t,rfl,hmid,_,ht⟩ := matches_many.mp hgreedy
          have h₁ := h'.length hpost
          have h₂ := ht.length hpost
          rw [List.length_append] at h₁
          omega
        | more _ h' => exact ih h h'
      · cases h' with
        | last _ h' =>
          have h₁ := h'.length hpost
          have h₂ := (matchHere_sound h).length hpost
          omega
        | more _ h' =>
          have hsome : (greedy p (matchHere post) s).isSome := h'.isSome
          rw [hnone] at hsome
          cases hsome
    · cases h

/-- Of a pattern with one repetition the match is the longest there is. -/
theorem matchHere_longest (hpre : ∀ i ∈ pre, i.Fixed) (hpost : ∀ i ∈ post, i.Fixed)
    (h : matchHere (pre ++ .many p :: post) prev s = some r)
    (h' : Matches (pre ++ .many p :: post) prev s r') : r.length ≤ r'.length := by
  induction pre generalizing prev s with
  | nil => exact greedy_longest hpost h h'
  | cons item pre ih =>
    have hrest := fun i hi => hpre i (List.mem_cons_of_mem item hi)
    cases item with
    | one q =>
      cases h' with
      | one hc h' =>
        simp only [List.cons_append, matchHere, hc, if_true] at h
        exact ih hrest h h'
    | notBehind q =>
      cases h' with
      | notBehind hq h' =>
        simp only [List.cons_append, matchHere, hq, Bool.false_eq_true, if_false] at h
        exact ih hrest h h'
    | notAhead q =>
      cases h' with
      | notAhead hq h' =>
        simp only [List.cons_append, matchHere, hq, Bool.false_eq_true, if_false] at h
        exact ih hrest h h'
    | many q => exact (hpre _ List.mem_cons_self).elim
    | opt q => exact (hpre _ List.mem_cons_self).elim

end Language

/-! ## Replacement -/

/-- `re.search` finds a match at some position. -/
def Found (items : List (Item α)) (prev : Option α) (s : List α) : Prop :=
  ∃ u t r, s = u ++ t ∧ Matches items (lastOf prev u) t r

/-- The leftmost matches replaced; the number is how much of a match is still to be skipped. -/
def replaceFrom (items : List (Item α)) (repl : List α) : ℕ → Option α → List α → List α
  | _, _, [] => []
  | n + 1, _, c :: s => replaceFrom items repl n (some c) s
  | 0, prev, c :: s =>
    match matchHere items prev (c :: s) with
    | none => c :: replaceFrom items repl 0 (some c) s
    | some rest => repl ++ replaceFrom items repl (s.length - rest.length) (some c) s

/-- `re.sub`, of a pattern that does not match the empty text. -/
def replace (items : List (Item α)) (repl s : List α) : List α := replaceFrom items repl 0 none s

/-- The result of a replacement, in the order in which the text is read. -/
inductive Replaced (items : List (Item α)) (repl : List α) : Option α → List α → List α → Prop
  | nil {prev : Option α} : Replaced items repl prev [] []
  | keep {prev : Option α} {c : α} {s out : List α} (h : matchHere items prev (c :: s) = none)
      (hr : Replaced items repl (some c) s out) : Replaced items repl prev (c :: s) (c :: out)
  | subst {prev : Option α} {m rest out : List α} (hm : m ≠ [])
      (h : matchHere items prev (m ++ rest) = some rest)
      (hr : Replaced items repl (lastOf prev m) rest out) :
      Replaced items repl prev (m ++ rest) (repl ++ out)

section Replace
variable {items : List (Item α)} {repl : List α} {prev : Option α} {s out : List α}

theorem replaceFrom_skip (m rest : List α) :
    replaceFrom items repl m.length prev (m ++ rest) = replaceFrom items repl 0 (lastOf prev m) rest := by
  induction m generalizing prev with
  | nil => rfl
  | cons c m ih => exact ih

theorem replaceFrom_replaced (hne : 0 < width items) :
    Replaced items repl prev s (replaceFrom items repl 0 prev s) := by
  induction hn : s.length using Nat.strongRecOn generalizing prev s with
  | ind n ih =>
    cases s with
    | nil => exact .nil
    | cons c s =>
      rw [List.length_cons] at hn
      cases hm : matchHere items prev (c :: s) with
      | none =>
        rw [replaceFrom, hm]
        exact .keep hm (ih s.length (by omega) rfl)
      | some rest =>
        obtain ⟨w,hw,_,hlen,_⟩ := (matchHere_sound hm).text
        cases w with
        | nil => exact absurd hlen (Nat.not_le.mpr hne)
        | cons d m =>
          obtain ⟨rfl,rfl⟩ : c = d ∧ s = m ++ rest := by simpa using hw
          have hskip : (m ++ rest).length - rest.length = m.length := by simp
          rw [replaceFrom, hm]
          dsimp only
          rw [hskip, replaceFrom_skip]
          rw [List.length_append] at hn
          exact .subst (m := c :: m) (by simp) hm (ih rest.length (by omega) rfl)

/-- Nothing to find, nothing to replace. -/
theorem replaceFrom_eq_self (h : ¬ Found items prev s) : replaceFrom items repl 0 prev s = s := by
  induction s generalizing prev with
  | nil => rfl
  | cons c s ih =>
    have hn : matchHere items prev (c :: s) = none :=
      matchHere_eq_none.mpr fun r hr => h ⟨[],c :: s,r,rfl,hr⟩
    rw [replaceFrom, hn]
    exact congrArg (c :: ·) (ih fun ⟨u,t,r,hs,hr⟩ => h ⟨c :: u,t,r,by rw [hs]; rfl,hr⟩)

/-- No match begins inside `w`, where `x` follows it. -/
def Unmatched (items : List (Item α)) (prev : Option α) (w x : List α) : Prop :=
  ∀ a b, w = a ++ b → b ≠ [] → matchHere items (lastOf prev a) (b ++ x) = none

/-- What stands at the beginning of the result, without the first character of a
replacement, stands at the beginning of the text. -/
theorem Replaced.head {w x : List α} (h : Replaced items repl prev s (w ++ x)) {o : α}
    (ho : repl.head? = some o) (hw : o ∉ w) : ∃ x', s = w ++ x' ∧ Unmatched items prev w x' ∧
      Replaced items repl (lastOf prev w) x' x := by
  induction w generalizing prev s with
  | nil => exact ⟨s,rfl,fun a b hab hb => absurd (List.append_eq_nil_iff.mp hab.symm).2 hb,h⟩
  | cons c w ih =>
    generalize hout : c :: w ++ x = out at h
    cases h with
    | nil => cases hout
    | keep hn hr =>
      obtain ⟨rfl,rfl⟩ := List.cons.inj hout
      obtain ⟨x',rfl,hu,hx⟩ := ih hr fun hm => hw (List.mem_cons_of_mem c hm)
      refine ⟨x',rfl,fun a b hab hb => ?_,hx⟩
      cases a with
      | nil =>
        obtain rfl : c :: w = b := hab
        exact hn
      | cons d a =>
        obtain ⟨rfl,hab⟩ := List.cons.inj hab
        exact hu a b (by simpa using hab) hb
    | subst hm hs hr =>
      cases repl with
      | nil => cases ho
      | cons d repl =>
        obtain rfl : d = o := Option.some.inj ho
        obtain rfl : c = d := (List.cons.inj hout).1
        exact absurd List.mem_cons_self hw

/-- The character before a stretch is the same in the text and in the result,
unless a replaced match ends there. -/
def SameBefore (items : List (Item α)) (prev : Option α) (u u' t : List α) : Prop :=
  lastOf prev u = lastOf prev u' ∨ ∃ a m, u' = a ++ m ∧ m ≠ [] ∧
    matchHere items (lastOf prev a) (m ++ t) = some t

/-- A stretch of the result that is no part of a replacement is a stretch of the
text in which no match begins. -/
theorem Replaced.stretch {u w x : List α} (h : Replaced items repl prev s (u ++ (w ++ x))) {o e : α}
    (ho : repl.head? = some o) (he : repl.getLast? = some e) (how : o ∉ w) (hew : e ∉ w)
    (hw : ∃ c ∈ w, c ∉ repl) : ∃ u' x', s = u' ++ (w ++ x') ∧ Unmatched items (lastOf prev u') w x' ∧
      Replaced items repl (lastOf (lastOf prev u') w) x' x ∧ SameBefore items prev u u' (w ++ x') := by
  generalize hout : u ++ (w ++ x) = out at h
  induction h generalizing u with
  | nil =>
    obtain ⟨c,hc,_⟩ := hw
    obtain ⟨_,hwx⟩ := List.append_eq_nil_iff.mp hout
    rw [(List.append_eq_nil_iff.mp hwx).1] at hc
    cases hc
  | @keep prev c s out hn hr ih =>
    cases u with
    | nil =>
      have hall : Replaced items repl prev (c :: s) (w ++ x) := by
        rw [show w ++ x = c :: out from hout]
        exact .keep hn hr
      obtain ⟨x',hs,hu,hx⟩ := hall.head ho how
      exact ⟨[],x',hs,hu,hx,Or.inl rfl⟩
    | cons d u =>
      obtain ⟨rfl,hout⟩ := List.cons.inj hout
      obtain ⟨u',x',rfl,hu,hx,hsame⟩ := ih (u := u) (by simpa using hout)
      refine ⟨d :: u',x',rfl,hu,hx,hsame.imp id fun ⟨a,m,ha,hm,hs⟩ => ⟨d :: a,m,by rw [ha]; rfl,hm,hs⟩⟩
  | @subst prev m rest out hm hs hr ih =>
    rcases List.append_eq_append_iff.mp hout with ⟨z,hz,hrest⟩ | ⟨v,rfl,hrest⟩
    · -- the stretch would begin inside the replacement
      by_cases hzn : z = []
      · subst hzn
        rw [List.append_nil] at hz
        subst hz
        rw [show out = w ++ x by simpa using hrest.symm] at hr
        obtain ⟨x',rfl,hu,hx⟩ := hr.head ho how
        exact ⟨m,x',rfl,hu,hx,Or.inr ⟨[],m,rfl,hm,hs⟩⟩
      · exfalso
        rcases List.append_eq_append_iff.mp hrest with ⟨y,hy,_⟩ | ⟨y,hy,_⟩
        · obtain ⟨c,hc,hcr⟩ := hw
          refine hcr ?_
          rw [hz, hy]
          exact List.mem_append_right u (List.mem_append_left y hc)
        · refine hew ?_
          rw [hy]
          refine List.mem_append_left y ?_
          rw [hz, List.getLast?_append_of_ne_nil u hzn] at he
          exact List.mem_of_getLast? he
    · by_cases hv : v = []
      · subst hv
        rw [hrest] at hr
        obtain ⟨x',rfl,hu,hx⟩ := Replaced.head (w := w) hr ho how
        exact ⟨m,x',rfl,hu,hx,Or.inr ⟨[],m,rfl,hm,hs⟩⟩
      · obtain ⟨u',x',rfl,hu,hx,hsame⟩ := ih hrest.symm
        refine ⟨m ++ u',x',by simp,by simpa using hu,by simpa using hx,?_⟩
        refine hsame.imp (fun heq => ?_) fun ⟨a,n,ha,hn,hs⟩ => ⟨m ++ a,n,by rw [ha]; simp,hn,by simpa using hs⟩
        rw [lastOf_append, lastOf_append, ← heq]
        exact lastOf_of_ne_nil hv _ _

end Replace
end Regex
