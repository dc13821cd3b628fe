import Mathlib.Data.List.Perm.Basic
import ConversionGateway.Library.Words

/-! # Case mappings and decomposition

The full lower and upper case mappings and the compatibility decomposition of
Unicode text, over the tables of single characters. What a table promises is what
every version of the standard keeps: a mapped or decomposed character is not mapped
or decomposed again, and whitespace neither comes nor goes.
-/
namespace Unicode
open Text

structure CaseTables where
  lowerFull : Char → List Char
  upperFull : Char → List Char
  cased : Char → Bool
  caseIgnorable : Char → Bool
  lower_sigma : lowerFull 'Σ' = ['σ']
  lower_finalSigma : lowerFull 'ς' = ['ς']
  lower_lower : ∀ c, ∀ d ∈ lowerFull c, lowerFull d = [d]
  lower_ne_nil : ∀ c, lowerFull c ≠ []
  lower_spaceless : ∀ c, isSpace c = false → Spaceless (lowerFull c)
  lower_space : ∀ c, isSpace c = true → lowerFull c = [c]
  lower_ascii : ∀ c, c.toNat < 128 → lowerFull c = [c.toLower]
  upper_ascii : ∀ c, c.toNat < 128 → upperFull c = [c.toUpper]
  upper_ne_nil : ∀ c, upperFull c ≠ []

namespace CaseTables
variable (t : CaseTables)

/-- A capital sigma stands at the end of a word: after a cased character and not before
one, case-ignorable characters left out. The text before it is read backwards. -/
def isFinal (before after : List Char) : Bool :=
  (before.dropWhile t.caseIgnorable).head?.any t.cased && !(after.dropWhile t.caseIgnorable).head?.any t.cased

def lowerFrom (before : List Char) : List Char → List Char
  | [] => []
  | c :: after =>
    (if c = 'Σ' ∧ t.isFinal before after = true then ['ς'] else t.lowerFull c) ++ lowerFrom (c :: before) after

/-- `str.lower()` -/
def lower (s : List Char) : List Char := t.lowerFrom [] s

/-- `str.upper()` -/
def upper (s : List Char) : List Char := s.flatMap t.upperFull

/-- The character has no lower case but itself. -/
def Lowercase (c : Char) : Prop := t.lowerFull c = [c]

section Lower
variable {t} {before s : List Char} {c : Char}

theorem lowercase_ascii (h : c.toNat < 128) (hc : c.toLower = c) : t.Lowercase c := by
  unfold Lowercase
  rw [t.lower_ascii c h, hc]

theorem lowercase_space (h : isSpace c = true) : t.Lowercase c := t.lower_space c h

theorem lowerFrom_images (before s : List Char) : ∃ images : List (List Char),
    List.Forall₂ (fun c image => image = t.lowerFull c ∨ image = ['ς']) s images ∧
    t.lowerFrom before s = images.flatten := by
  induction s generalizing before with
  | nil => exact ⟨[],.nil,rfl⟩
  | cons c s ih =>
    obtain ⟨images,himages,heq⟩ := ih (c :: before)
    unfold lowerFrom
    rw [heq]
    split
    · exact ⟨['ς'] :: images,.cons (Or.inr rfl) himages,rfl⟩
    · exact ⟨t.lowerFull c :: images,.cons (Or.inl rfl) himages,rfl⟩

theorem mem_lower {d : Char} (h : d ∈ t.lower s) : t.Lowercase d := by
  obtain ⟨images,himages,heq⟩ := t.lowerFrom_images [] s
  rw [lower, heq] at h
  clear heq
  induction himages with
  | nil => cases h
  | @cons c image s images hc _ ih =>
    rcases List.mem_append.mp h with hd | hd
    · rcases hc with rfl | rfl
      · exact t.lower_lower c d hd
      · rw [List.mem_singleton.mp hd]
        exact t.lower_finalSigma
    · exact ih hd

theorem lowerFrom_of_lowercase (before : List Char) (h : ∀ c ∈ s, t.Lowercase c) : t.lowerFrom before s = s := by
  induction s generalizing before with
  | nil => rfl
  | cons c s ih =>
    have hc : t.lowerFull c = [c] := h c List.mem_cons_self
    have hsigma : c ≠ 'Σ' := by
      rintro rfl
      rw [t.lower_sigma] at hc
      cases hc
    unfold lowerFrom
    rw [if_neg (fun hfinal => hsigma hfinal.1), hc, ih _ fun d hd => h d (List.mem_cons_of_mem c hd)]
    rfl

/-- A text is its own lower case if all its characters are. -/
theorem lower_eq_self : t.lower s = s ↔ ∀ c ∈ s, t.Lowercase c := by
  constructor
  · intro h c hc
    rw [← h] at hc
    exact mem_lower hc
  · exact lowerFrom_of_lowercase []

theorem lower_trimmed (h : Trimmed s) : Trimmed (t.lower s) := by
  obtain ⟨images,himages,heq⟩ := t.lowerFrom_images [] s
  rw [lower, heq]
  refine h.flatten (himages.imp ?_)
  rintro c image (rfl | rfl)
  · exact ⟨t.lower_ne_nil c,t.lower_spaceless c⟩
  · exact ⟨by simp,fun _ => by simp [Spaceless]; decide⟩

end Lower
end CaseTables

/-! ## Decomposition -/

structure DecompositionTables where
  /-- The full compatibility decomposition of a character. -/
  decompose : Char → List Char
  combiningClass : Char → ℕ
  /-- The general category. -/
  category : Char → String
  decompose_full : ∀ c, ∀ d ∈ decompose c, decompose d = [d]
  decompose_blank : decompose ' ' = [' ']
  class_space : ∀ c, isSpace c = true → combiningClass c = 0
  category_blank : category ' ' = "Zs"

namespace DecompositionTables
variable (t : DecompositionTables)

/-- Put a combining character before those of a higher class that it follows; the text
is read backwards. -/
def insertMark (c : Char) : List Char → List Char
  | [] => [c]
  | d :: out =>
    if 0 < t.combiningClass c ∧ t.combiningClass c < t.combiningClass d then d :: insertMark c out
    else c :: d :: out

/-- The canonical order of combining characters. -/
def reorder (s : List Char) : List Char := (s.foldl (fun out c => t.insertMark c out) []).reverse

/-- `unicodedata.normalize("NFKD", s)` -/
def nfkd (s : List Char) : List Char := t.reorder (s.flatMap t.decompose)

/-- No combining character follows one of a higher class. -/
def Ordered (s : List Char) : Prop :=
  s.IsChain fun d c => ¬ (0 < t.combiningClass c ∧ t.combiningClass c < t.combiningClass d)

section Reorder
variable {t} {s : List Char} {c : Char}

theorem insertMark_perm (c : Char) (out : List Char) : (t.insertMark c out).Perm (c :: out) := by
  induction out with
  | nil => exact List.Perm.refl _
  | cons d out ih =>
    unfold insertMark
    split
    · exact (ih.cons d).trans (List.Perm.swap c d out)
    · exact List.Perm.refl _

theorem foldl_insertMark_perm (s out : List Char) :
    (s.foldl (fun out c => t.insertMark c out) out).Perm (s.reverse ++ out) := by
  induction s generalizing out with
  | nil => exact List.Perm.refl _
  | cons c s ih =>
    have hinsert := (t.insertMark_perm c out).append_left s.reverse
    rw [List.foldl_cons, List.reverse_cons, List.append_assoc]
    exact (ih _).trans hinsert

theorem mem_reorder : c ∈ t.reorder s ↔ c ∈ s := by
  rw [reorder, List.mem_reverse, (t.foldl_insertMark_perm s []).mem_iff, List.append_nil, List.mem_reverse]

theorem mem_nfkd : c ∈ t.nfkd s ↔ ∃ d ∈ s, c ∈ t.decompose d := by
  rw [nfkd, mem_reorder, List.mem_flatMap]

/-- Reordering leaves the order canonical. -/
theorem insertMark_ordered {out : List Char} (h : t.Ordered out.reverse) :
    t.Ordered (t.insertMark c out).reverse := by
  unfold Ordered at h ⊢
  rw [List.isChain_reverse] at h ⊢
  induction out with
  | nil => exact .singleton c
  | cons d out ih =>
    unfold insertMark
    split
    · next hlt =>
      refine List.isChain_cons.mpr ⟨?_,ih h.tail⟩
      intro e he
      cases out with
      | nil =>
        obtain rfl : c = e := by simpa [insertMark] using he
        show ¬ _
        omega
      | cons f out =>
        unfold insertMark at he
        split at he
        · obtain rfl : f = e := by simpa using he
          exact h.rel
        · obtain rfl : c = e := by simpa using he
          show ¬ _
          omega
    · next hle => exact List.isChain_cons_cons.mpr ⟨hle,h⟩

theorem foldl_insertMark_ordered {out : List Char} (h : t.Ordered out.reverse) :
    t.Ordered (s.foldl (fun out c => t.insertMark c out) out).reverse := by
  induction s generalizing out with
  | nil => exact h
  | cons c s ih => exact ih (insertMark_ordered h)

theorem foldl_insertMark_of_ordered {out : List Char} (h : t.Ordered (out.reverse ++ s)) :
    s.foldl (fun out c => t.insertMark c out) out = s.reverse ++ out := by
  induction s generalizing out with
  | nil => rfl
  | cons c s ih =>
    have hinsert : t.insertMark c out = c :: out := by
      cases out with
      | nil => rfl
      | cons d out =>
        unfold insertMark
        rw [if_neg]
        rw [List.reverse_cons, List.append_assoc] at h
        exact (List.isChain_append.mp h).2.1.rel
    rw [List.foldl_cons, hinsert, ih, List.reverse_cons, List.append_assoc]
    · rfl
    · simpa using h

/-- Only text in canonical order is left alone. -/
theorem reorder_eq_self : t.reorder s = s ↔ t.Ordered s := by
  constructor
  · intro h
    rw [← h]
    exact foldl_insertMark_ordered .nil
  · intro h
    rw [reorder, foldl_insertMark_of_ordered h, List.append_nil, List.reverse_reverse]

theorem insertMark_append {base : List Char} {d : Char} (hd : t.combiningClass d = 0) (out : List Char) :
    t.insertMark c (out ++ d :: base) = t.insertMark c out ++ d :: base := by
  induction out with
  | nil => simp [insertMark,hd]
  | cons e out ih =>
    rw [List.cons_append]
    unfold insertMark
    rw [ih]
    split <;> rfl

/-- Nothing moves past a character that does not combine. -/
theorem reorder_append {d : Char} (hd : t.combiningClass d = 0) (s rest : List Char) :
    t.reorder (s ++ d :: rest) = t.reorder s ++ d :: t.reorder rest := by
  have hfold (base out rest : List Char) :
      rest.foldl (fun out c => t.insertMark c out) (out ++ d :: base) =
        rest.foldl (fun out c => t.insertMark c out) out ++ d :: base := by
    induction rest generalizing out with
    | nil => rfl
    | cons c rest ih => rw [List.foldl_cons, List.foldl_cons, insertMark_append hd, ih]
  have hstart (out : List Char) : t.insertMark d out = d :: out := by
    cases out with
    | nil => rfl
    | cons e out => simp [insertMark,hd]
  unfold reorder
  rw [List.foldl_append, List.foldl_cons, hstart]
  have hrest := hfold (s.foldl (fun out c => t.insertMark c out) []) [] rest
  rw [List.nil_append] at hrest
  rw [hrest, List.reverse_append, List.reverse_cons, List.append_assoc]
  rfl

/-- Words are reordered one by one. -/
theorem reorder_joined (ts : List (List Char)) : t.reorder (joined ts) = joined (ts.map t.reorder) := by
  induction ts with
  | nil => rfl
  | cons u ts ih =>
    cases ts with
    | nil => simp [joined]
    | cons v ts =>
      rw [joined_cons_cons, reorder_append (t.class_space ' ' (by decide)), ih]
      simp

theorem ordered_tokens (s : List Char) : t.Ordered s ↔ ∀ u ∈ tokens s, t.Ordered u := by
  refine isChain_tokens ?_ s
  rintro c d (h | h)
  · simp [t.class_space c h]
  · simp [t.class_space d h]

/-- What is decomposed is only reordered by a second decomposition. -/
theorem nfkd_of_full (h : ∀ c ∈ s, t.decompose c = [c]) : t.nfkd s = t.reorder s := by
  have hself : s.flatMap t.decompose = s := by
    induction s with
    | nil => rfl
    | cons c s ih =>
      rw [List.flatMap_cons, h c List.mem_cons_self, ih fun d hd => h d (List.mem_cons_of_mem c hd)]
      rfl
  rw [nfkd, hself]

end Reorder
end DecompositionTables
end Unicode
