import Mathlib.Data.List.Sort
import Mathlib.Order.Basic

/-! # The top rows of a table

`ORDER BY key DESC LIMIT n`. The order of rows with one key is left open, so a row
is in every answer only if it would be the last of its key to be let in, and in none
only if there is no room even for the first.
-/
namespace Ranking
variable {α κ : Type*} [LinearOrder κ] {key : α → κ} {rows order front back rest : List α} {d x : α} {limit : ℕ}

/-- An arrangement of the rows that the query may answer with, before the limit. -/
structure Ordered (key : α → κ) (rows order : List α) : Prop where
  perm : order.Perm rows
  descending : order.Pairwise fun a b => key b ≤ key a

theorem ordered_insertionSort (key : α → κ) (rows : List α) :
    Ordered key rows (rows.insertionSort fun a b => key b ≤ key a) := by
  have : Std.Total fun a b : α => key b ≤ key a := ⟨fun a b => le_total (key b) (key a)⟩
  have : IsTrans α fun a b : α => key b ≤ key a := ⟨fun _ _ _ h₁ h₂ => h₂.trans h₁⟩
  exact ⟨List.perm_insertionSort _ _,List.pairwise_insertionSort _ _⟩

/-- What stands before a row is at least as high. -/
theorem Ordered.front_le (h : Ordered key rows (front ++ d :: back)) (hx : x ∈ front) : key d ≤ key x := by
  have hpair := (List.pairwise_append.mp h.descending).2.2
  exact hpair x hx d List.mem_cons_self

/-- A higher row stands before it. -/
theorem Ordered.mem_front (h : Ordered key rows (front ++ d :: back)) (hx : x ∈ rows) (hlt : key d < key x) :
    x ∈ front := by
  have hback := (List.pairwise_cons.mp (List.pairwise_append.mp h.descending).2.1).1
  rcases List.mem_append.mp (h.perm.mem_iff.mpr hx) with hx | hx
  · exact hx
  · rcases List.mem_cons.mp hx with rfl | hx
    · exact absurd hlt (lt_irrefl _)
    · exact absurd hlt (not_lt_of_ge (hback x hx))

/-- The rows higher than `d` come first; of those of its key any may come before it. -/
theorem exists_ordered (key : α → κ) (p : α → Bool) (hrows : rows.Perm (d :: rest)) (hhigh : ∀ x ∈ rest, key d < key x → p x = true)
    (hp : ∀ x ∈ rest, p x = true → key d ≤ key x) :
    ∃ front back, Ordered key rows (front ++ d :: back) ∧ front.Perm (rest.filter p) := by
  obtain ⟨front,hfront⟩ : ∃ front, Ordered key (rest.filter p) front := ⟨_,ordered_insertionSort key _⟩
  obtain ⟨back,hback⟩ : ∃ back, Ordered key (rest.filter fun x => !p x) back := ⟨_,ordered_insertionSort key _⟩
  have hmem {x : α} (hx : x ∈ front) : key d ≤ key x := by
    obtain ⟨hx,hpx⟩ := List.mem_filter.mp (hfront.perm.mem_iff.mp hx)
    exact hp x hx hpx
  have hlow {y : α} (hy : y ∈ back) : key y ≤ key d := by
    obtain ⟨hy,hpy⟩ := List.mem_filter.mp (hback.perm.mem_iff.mp hy)
    by_contra hlt
    have htrue := hhigh y hy (not_le.mp hlt)
    simp [htrue] at hpy
  refine ⟨front,back,⟨?_,?_⟩,hfront.perm⟩
  · have hsplit : (rest.filter p ++ rest.filter fun x => !p x).Perm rest := List.filter_append_perm p rest
    have hall := (hfront.perm.append hback.perm).trans hsplit
    exact List.perm_middle.trans ((hall.cons d).trans hrows.symm)
  · refine List.pairwise_append.mpr ⟨hfront.descending,List.pairwise_cons.mpr ⟨fun y hy => hlow hy,hback.descending⟩,?_⟩
    intro x hx y hy
    rcases List.mem_cons.mp hy with rfl | hy
    · exact hmem hx
    · exact (hlow hy).trans (hmem hx)

/-- A row is let in if fewer rows than the limit stand before it. -/
theorem mem_take_iff (hnodup : (front ++ d :: back).Nodup) :
    d ∈ (front ++ d :: back).take limit ↔ front.length < limit := by
  rw [List.take_append]
  have hd : d ∉ front := by
    intro hd
    exact (List.nodup_append.mp hnodup).2.2 d hd d List.mem_cons_self rfl
  rw [List.mem_append]
  constructor
  · rintro (h | h)
    · exact absurd (List.mem_of_mem_take h) hd
    · by_contra hle
      have hzero : limit - front.length = 0 := by omega
      rw [hzero] at h
      cases h
  · intro hlt
    right
    have hpos : limit - front.length = (limit - front.length - 1) + 1 := by omega
    rw [hpos, List.take_succ_cons]
    exact List.mem_cons_self

end Ranking
