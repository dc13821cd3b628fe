import Mathlib.Data.List.Basic

/-! # Anchored patterns

Regular expressions of the form `^...$` that are a sequence of character
classes, each taken once or repeated. As in Python, `$` also matches before a
final newline. `fits` is the matcher, `Denotes` the language it decides.
-/
namespace Pattern

/-- One character of a class, or one or more of them. -/
inductive Item
  | one (p : Char → Bool)
  | many (p : Char → Bool)

def fits : List Item → List Char → Bool
  | [], s => s = [] || s = ['\n']
  | .one _ :: _, [] => false
  | .one p :: rest, c :: s => p c && fits rest s
  | .many _ :: _, [] => false
  | .many p :: rest, c :: s => p c && (fits rest s || fits (.many p :: rest) s)

/-- The texts a pattern stands for. -/
inductive Denotes : List Item → List Char → Prop
  | nil : Denotes [] []
  | one {p : Char → Bool} {rest : List Item} {c : Char} {s : List Char} (hc : p c = true)
      (h : Denotes rest s) : Denotes (.one p :: rest) (c :: s)
  | last {p : Char → Bool} {rest : List Item} {c : Char} {s : List Char} (hc : p c = true)
      (h : Denotes rest s) : Denotes (.many p :: rest) (c :: s)
  | more {p : Char → Bool} {rest : List Item} {c : Char} {s : List Char} (hc : p c = true)
      (h : Denotes (.many p :: rest) s) : Denotes (.many p :: rest) (c :: s)

variable {p : Char → Bool} {rest : List Item} {s t : List Char}

theorem Denotes.fits {items : List Item} (h : Denotes items s) : fits items s = true := by
  induction h with
  | nil => rfl
  | one hc _ ih => simp [Pattern.fits,hc,ih]
  | last hc _ ih => simp [Pattern.fits,hc,ih]
  | more hc _ ih => simp [Pattern.fits,hc,ih]

theorem Denotes.fits_newline {items : List Item} (h : Denotes items s) :
    Pattern.fits items (s ++ ['\n']) = true := by
  induction h with
  | nil => rfl
  | one hc _ ih => simp [Pattern.fits,hc,ih]
  | last hc _ ih => simp [Pattern.fits,hc,ih]
  | more hc _ ih => simp [Pattern.fits,hc,ih]

/-- The matcher accepts the language of the pattern, up to one final newline. -/
theorem fits_iff (items : List Item) (s : List Char) :
    fits items s = true ↔ ∃ t, Denotes items t ∧ (s = t ∨ s = t ++ ['\n']) := by
  constructor
  · intro h
    induction items, s using fits.induct with
    | case1 s =>
      simp only [fits, Bool.or_eq_true, decide_eq_true_eq] at h
      exact ⟨[],.nil,h⟩
    | case2 p rest => simp [fits] at h
    | case3 p rest c s ih =>
      simp only [fits, Bool.and_eq_true] at h
      obtain ⟨t,ht,he⟩ := ih h.2
      exact ⟨c :: t,.one h.1 ht,by simpa using he⟩
    | case4 p rest => simp [fits] at h
    | case5 p rest c s ihr ihm =>
      simp only [fits, Bool.and_eq_true, Bool.or_eq_true] at h
      rcases h.2 with hr | hm
      · obtain ⟨t,ht,he⟩ := ihr hr
        exact ⟨c :: t,.last h.1 ht,by simpa using he⟩
      · obtain ⟨t,ht,he⟩ := ihm hm
        exact ⟨c :: t,.more h.1 ht,by simpa using he⟩
  · rintro ⟨t,ht,rfl | rfl⟩
    · exact ht.fits
    · exact ht.fits_newline

/-- A fixed text. -/
def literal (s : List Char) : List Item := s.map fun c => .one (· == c)

/-- A class repeated a fixed number of times. -/
def exactly (n : ℕ) (p : Char → Bool) : List Item := List.replicate n (.one p)

theorem denotes_literal (h : Denotes rest t) : Denotes (literal s ++ rest) (s ++ t) := by
  induction s with
  | nil => exact h
  | cons c s ih => exact .one (by simp) ih

theorem denotes_exactly {n : ℕ} (hn : s.length = n) (hs : ∀ c ∈ s, p c = true)
    (h : Denotes rest t) : Denotes (exactly n p ++ rest) (s ++ t) := by
  induction s generalizing n with
  | nil =>
    subst hn
    exact h
  | cons c s ih =>
    subst hn
    exact .one (hs c List.mem_cons_self) (ih rfl fun d hd => hs d (List.mem_cons_of_mem c hd))

theorem denotes_many (hne : s ≠ []) (hs : ∀ c ∈ s, p c = true) (h : Denotes rest t) :
    Denotes (.many p :: rest) (s ++ t) := by
  induction s with
  | nil => exact absurd rfl hne
  | cons c s ih =>
    have hc := hs c List.mem_cons_self
    by_cases hs' : s = []
    · subst hs'
      exact .last hc h
    · exact .more hc (ih hs' fun d hd => hs d (List.mem_cons_of_mem c hd))

end Pattern
