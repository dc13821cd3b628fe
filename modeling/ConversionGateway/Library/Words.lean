import Mathlib.Data.List.Chain
import Mathlib.Data.List.TakeWhile
import ConversionGateway.Library.Text

/-! # Trimmed text and its words

What `str.strip`, `str.split` and the joining of words by single blanks do to each
other: trimmed text is left alone by a second strip, and joined words split into
the same words again.
-/
namespace Text

/-- Neither end is whitespace. -/
def Trimmed (s : List Char) : Prop :=
  (∀ c ∈ s.head?, isSpace c = false) ∧ ∀ c ∈ s.getLast?, isSpace c = false

/-- No character is whitespace. -/
def Spaceless (s : List Char) : Prop := ∀ c ∈ s, isSpace c = false

section Trimmed
variable {s : List Char}

theorem stripChars_eq_self : stripChars s = s ↔ Trimmed s := by
  have hlast : s.rdropWhile isSpace = s ↔ ∀ c ∈ s.getLast?, isSpace c = false := by
    rw [List.rdropWhile_eq_self_iff]
    cases s using List.reverseRecOn with
    | nil => simp
    | append_singleton s c => simp
  have hhead : s.dropWhile isSpace = s ↔ ∀ c ∈ s.head?, isSpace c = false := by
    rw [List.dropWhile_eq_self_iff]
    cases s with
    | nil => simp
    | cons c s => simp
  constructor
  · intro h
    have hlen := (List.rdropWhile_prefix isSpace (l := s.dropWhile isSpace)).length_le
    rw [show List.rdropWhile isSpace (s.dropWhile isSpace) = s from h] at hlen
    have hdrop : s.dropWhile isSpace = s := (List.dropWhile_suffix _).eq_of_length_le hlen
    refine ⟨hhead.mp hdrop,hlast.mp ?_⟩
    rw [stripChars, hdrop] at h
    exact h
  · intro h
    rw [stripChars, hhead.mpr h.1, hlast.mpr h.2]

theorem stripChars_trimmed (s : List Char) : Trimmed (stripChars s) := by
  constructor
  · intro c hc
    -- what is dropped at the end does not change the first character
    obtain ⟨rest,hrest⟩ := List.rdropWhile_prefix isSpace (s.dropWhile isSpace)
    have hne : s.dropWhile isSpace ≠ [] := by
      intro hnil
      rw [stripChars, hnil] at hc
      cases hc
    have hhead := List.head_dropWhile_not isSpace hne
    have hsame : (s.dropWhile isSpace).head hne = c := by
      apply Option.some.inj
      rw [← List.head?_eq_some_head, ← hrest, List.head?_append, show (List.rdropWhile isSpace
        (s.dropWhile isSpace)).head? = some c from hc]
      rfl
    rw [← hsame]
    exact hhead
  · intro c hc
    have hne : (s.dropWhile isSpace).rdropWhile isSpace ≠ [] := by
      intro hnil
      rw [stripChars, hnil] at hc
      cases hc
    have hlast := List.rdropWhile_last_not isSpace (s.dropWhile isSpace) hne
    rw [stripChars, List.getLast?_eq_some_getLast hne] at hc
    cases hc
    simpa using hlast

/-- Images of the characters one by one, none empty and with whitespace from whitespace
only, leave trimmed text trimmed. -/
theorem Trimmed.flatten {images : List (List Char)} (h : Trimmed s)
    (hs : List.Forall₂ (fun c image => image ≠ [] ∧ (isSpace c = false → Spaceless image)) s images) :
    Trimmed images.flatten := by
  constructor
  · cases hs with
    | nil => simp
    | @cons c image s images hc hs =>
      intro d hd
      obtain ⟨d',image,rfl⟩ := List.exists_cons_of_ne_nil hc.1
      obtain rfl : d' = d := by simpa using hd
      exact hc.2 (h.1 c rfl) d' List.mem_cons_self
  · cases s using List.reverseRecOn with
    | nil =>
      cases hs
      simp
    | append_singleton s c =>
      cases images using List.reverseRecOn with
      | nil => simp
      | append_singleton images image =>
        have hrev := List.forall₂_reverse_iff.mpr hs
        rw [List.reverse_concat, List.reverse_concat] at hrev
        obtain ⟨hc,_⟩ := List.forall₂_cons.mp hrev
        intro d hd
        rw [List.flatten_append, List.flatten_singleton, List.getLast?_append_of_ne_nil _ hc.1] at hd
        exact hc.2 (h.2 c (by simp)) d (List.mem_of_getLast? hd)

end Trimmed

/-! ## Words -/

section Words
variable {s : List Char} {ts : List (List Char)}

theorem tokens_of_spaceless (h : Spaceless s) : tokens s = if s = [] then [] else [s] := by
  rw [tokens, List.splitOnP_eq_singleton h]
  split
  · next hs =>
    rw [hs]
    rfl
  · next hs => simp [hs]

theorem tokens_append {c : Char} (s rest : List Char) (hc : isSpace c = true) :
    tokens (s ++ c :: rest) = tokens s ++ tokens rest := by
  rw [tokens, List.splitOnP_append_cons _ _ hc, List.filter_append]
  rfl

/-- Text is a word, or a word and whitespace before more text. -/
theorem wordsInduction {P : List Char → Prop} (word : ∀ s, Spaceless s → P s)
    (cut : ∀ s c rest, Spaceless s → isSpace c = true → P rest → P (s ++ c :: rest)) (s : List Char) : P s := by
  induction hn : s.length using Nat.strongRecOn generalizing s with
  | ind n ih =>
    have hword : Spaceless (s.takeWhile fun c => !isSpace c) := by
      intro c hc
      simpa using List.mem_takeWhile_imp hc
    have hsplit := List.takeWhile_append_dropWhile (p := fun c => !isSpace c) (l := s)
    cases hd : s.dropWhile fun c => !isSpace c with
    | nil =>
      rw [hd, List.append_nil] at hsplit
      rw [← hsplit]
      exact word _ hword
    | cons c rest =>
      have hne : (s.dropWhile fun c => !isSpace c) ≠ [] := by simp [hd]
      have hc := List.head_dropWhile_not (fun c => !isSpace c) hne
      have hlen := congrArg List.length hsplit
      rw [hd, List.length_append, List.length_cons] at hlen
      rw [← hsplit, hd]
      exact cut _ c rest hword (by simpa [hd] using hc) (ih rest.length (by omega) rest rfl)

theorem tokens_spec (s : List Char) : ∀ t ∈ tokens s, t ≠ [] ∧ Spaceless t := by
  induction s using wordsInduction with
  | word s hs =>
    rw [tokens_of_spaceless hs]
    split
    · simp
    · next hne =>
      intro t ht
      rw [List.mem_singleton.mp ht]
      exact ⟨hne,hs⟩
  | cut s c rest hs hc ih =>
    rw [tokens_append s rest hc, tokens_of_spaceless hs]
    intro t ht
    rcases List.mem_append.mp ht with ht | ht
    · split at ht
      · cases ht
      · next hne =>
        rw [List.mem_singleton.mp ht]
        exact ⟨hne,hs⟩
    · exact ih t ht

/-- The words hold every character that is no whitespace, in order. -/
theorem tokens_flatten (s : List Char) : (tokens s).flatten = s.filter fun c => !isSpace c := by
  have hword (s : List Char) (hs : Spaceless s) : (tokens s).flatten = s.filter fun c => !isSpace c := by
    rw [tokens_of_spaceless hs, List.filter_eq_self.mpr (by simpa [Spaceless] using hs)]
    split
    · next h => exact h.symm
    · exact List.flatten_singleton
  induction s using wordsInduction with
  | word s hs => exact hword s hs
  | cut s c rest hs hc ih =>
    rw [tokens_append s rest hc, List.flatten_append, hword s hs, ih, List.filter_append,
      List.filter_cons_of_neg (by simp [hc])]

/-- Joined by single blanks. -/
def joined (ts : List (List Char)) : List Char := List.intercalate [' '] ts

@[simp] theorem joined_cons_cons (t u : List Char) (ts : List (List Char)) :
    joined (t :: u :: ts) = t ++ ' ' :: joined (u :: ts) := by
  simp [joined]

/-- Words are joined into text with these words. -/
theorem tokens_joined (h : ∀ t ∈ ts, t ≠ [] ∧ Spaceless t) : tokens (joined ts) = ts := by
  have hword (t : List Char) (ht : t ≠ [] ∧ Spaceless t) : tokens t = [t] := by
    rw [tokens_of_spaceless ht.2, if_neg ht.1]
  induction ts with
  | nil => rfl
  | cons t ts ih =>
    have hrest := ih fun u hu => h u (List.mem_cons_of_mem t hu)
    cases ts with
    | nil => simpa [joined] using hword t (h t List.mem_cons_self)
    | cons u ts =>
      rw [joined_cons_cons, tokens_append t _ (by decide), hword t (h t List.mem_cons_self), hrest]
      rfl

theorem mem_joined {c : Char} (h : c ∈ joined ts) : c = ' ' ∨ ∃ t ∈ ts, c ∈ t := by
  induction ts with
  | nil => cases h
  | cons t ts ih =>
    cases ts with
    | nil => exact Or.inr ⟨t,List.mem_cons_self,by simpa [joined] using h⟩
    | cons u ts =>
      rw [joined_cons_cons, List.mem_append, List.mem_cons] at h
      rcases h with h | h | h
      · exact Or.inr ⟨t,List.mem_cons_self,h⟩
      · exact Or.inl h
      · exact (ih h).imp_right fun ⟨v,hv,hc⟩ => ⟨v,List.mem_cons_of_mem t hv,hc⟩

theorem mem_joined_of_mem {c : Char} {t : List Char} (ht : t ∈ ts) (hc : c ∈ t) : c ∈ joined ts := by
  induction ts with
  | nil => cases ht
  | cons u ts ih =>
    cases ts with
    | nil =>
      obtain rfl := List.mem_singleton.mp ht
      simpa [joined] using hc
    | cons v ts =>
      rw [joined_cons_cons]
      rcases List.mem_cons.mp ht with rfl | ht
      · exact List.mem_append_left _ hc
      · exact List.mem_append_right u (List.mem_cons_of_mem ' ' (ih ht))

/-- Whitespace in joined words is the single blank between two of them. -/
theorem joined_trimmed (h : ∀ t ∈ ts, t ≠ [] ∧ Spaceless t) : Trimmed (joined ts) ∧
    (joined ts).IsChain fun c d => isSpace c = true → isSpace d = false := by
  induction ts with
  | nil => exact ⟨by simp [Trimmed,joined],.nil⟩
  | cons t ts ih =>
    obtain ⟨hne,ht⟩ := h t List.mem_cons_self
    have hchain : t.IsChain fun c d => isSpace c = true → isSpace d = false :=
      List.Pairwise.isChain (List.pairwise_of_forall_mem_list fun c _ d hd _ => ht d hd)
    have hends : Trimmed t := ⟨fun c hc => ht c (List.mem_of_mem_head? hc),fun c hc => ht c (List.mem_of_getLast? hc)⟩
    cases ts with
    | nil => simpa [joined] using And.intro hends hchain
    | cons u ts =>
      obtain ⟨hrest,hrestchain⟩ := ih fun v hv => h v (List.mem_cons_of_mem t hv)
      have hu := h u (List.mem_cons_of_mem t List.mem_cons_self)
      have hun : joined (u :: ts) ≠ [] := by
        obtain ⟨c,hc⟩ := List.exists_mem_of_ne_nil u hu.1
        exact List.ne_nil_of_mem (mem_joined_of_mem List.mem_cons_self hc)
      rw [joined_cons_cons]
      refine ⟨⟨?_,?_⟩,?_⟩
      · rw [List.head?_append_of_ne_nil _ hne]
        exact hends.1
      · rw [List.getLast?_append_of_ne_nil _ (by simp), List.getLast?_cons_of_ne_nil hun]
        exact hrest.2
      · refine List.isChain_append.mpr ⟨hchain,List.isChain_cons.mpr ⟨fun d hd _ => hrest.1 d hd,hrestchain⟩,?_⟩
        intro c hc d _ hspace
        rw [hends.2 c hc] at hspace
        cases hspace

/-- A relation that whitespace is never in the way of holds along a text exactly if it holds
along each word. -/
theorem isChain_tokens {R : Char → Char → Prop} (hR : ∀ c d, isSpace c = true ∨ isSpace d = true → R c d)
    (s : List Char) : s.IsChain R ↔ ∀ t ∈ tokens s, t.IsChain R := by
  have hword (s : List Char) (hs : Spaceless s) : s.IsChain R ↔ ∀ t ∈ tokens s, t.IsChain R := by
    rw [tokens_of_spaceless hs]
    split
    · next h => simp [h]
    · simp
  induction s using wordsInduction with
  | word s hs => exact hword s hs
  | cut s c rest hs hc ih =>
    have hrest : rest.IsChain R ↔ ∀ t ∈ tokens rest, t.IsChain R := ih
    rw [tokens_append s rest hc, List.isChain_append, hword s hs, List.isChain_cons, hrest, List.forall_mem_append]
    constructor
    · exact fun h => ⟨h.1,h.2.1.2⟩
    · intro h
      refine ⟨h.1,⟨fun d _ => hR c d (Or.inl hc),h.2⟩,?_⟩
      intro d _ e he
      obtain rfl : c = e := by simpa using he
      exact hR d c (Or.inr hc)

end Words
/-- What is kept of a list is related in order if what comes together by the removal is. -/
theorem isChain_filter_iff {α : Type*} {R : α → α → Prop} {p : α → Bool} {xs : List α} :
    (xs.filter p).IsChain R ↔ ∀ front d gap c back, xs = front ++ d :: (gap ++ c :: back) →
      p d = true → p c = true → (∀ e ∈ gap, p e = false) → R d c := by
  constructor
  · rintro h front d gap c back rfl hd hc hgap
    have hnone : gap.filter p = [] := List.filter_eq_nil_iff.mpr fun e he => by simp [hgap e he]
    rw [List.filter_append, List.filter_cons_of_pos hd, List.filter_append, hnone, List.nil_append,
      List.filter_cons_of_pos hc] at h
    exact (List.isChain_append_cons_cons.mp h).2.1
  · intro h
    induction xs with
    | nil => exact .nil
    | cons x xs ih =>
      have hrest : (xs.filter p).IsChain R := by
        refine ih fun front d gap c back heq => ?_
        exact h (x :: front) d gap c back (congrArg (x :: ·) heq)
      cases hx : p x with
      | false =>
        rw [List.filter_cons_of_neg (by simp [hx])]
        exact hrest
      | true =>
        rw [List.filter_cons_of_pos hx]
        refine List.isChain_cons.mpr ⟨fun c hc => ?_,hrest⟩
        obtain ⟨tail,htail⟩ := List.head?_eq_some_iff.mp hc
        obtain ⟨gap,back,rfl,hgap,hpc,_⟩ := List.filter_eq_cons_iff.mp htail
        exact h [] x gap c back rfl hx hpc fun e he => by simpa using hgap e he

end Text
