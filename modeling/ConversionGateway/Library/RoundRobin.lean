import Mathlib.Data.List.Basic
import ConversionGateway.Library.Machine

/-! # Service in rounds

A line is served in batches from its front, and everyone who is not done joins the end
again. Nobody is overtaken, and the place in the line bounds the wait.
-/
structure Rounds (α : Type*) where
  /-- Everyone who was called up, in order. -/
  called : List α
  /-- The last of them, who are not served yet. -/
  batch : List α
  line : List α

namespace Rounds
variable {α : Type*}

inductive Op (α : Type*)
  | join (x : α)
  | call
  | serve (again : Option α)

namespace Op

/-- Who joins the line. -/
def joined : Op α → List α
  | join x => [x]
  | call => []
  | serve again => again.toList

def isCall : Op α → Bool
  | call => true
  | _ => false

end Op

/-- The next batch is called when the last one is served. -/
def step (size : ℕ) (r : Rounds α) : Op α → Option (Rounds α)
  | .join x => some { r with line := r.line ++ [x] }
  | .call =>
    if r.batch.isEmpty then
      some ⟨r.called ++ r.line.take size,r.line.take size,r.line.drop size⟩
    else none
  | .serve again =>
    match r.batch with
    | [] => none
    | _ :: rest => some ⟨r.called,rest,r.line ++ again.toList⟩

abbrev run (size : ℕ) : Rounds α → List (Op α) → Option (Rounds α) := Machine.run (step size)

variable {size : ℕ} {r t : Rounds α} {op : Op α} {ops : List (Op α)}

/-- Those who were called and those who wait make up one list, which grows at its end. -/
theorem step_order (h : step size r op = some t) : t.called ++ t.line = r.called ++ r.line ++ op.joined := by
  cases op with
  | join x =>
    cases h
    exact (List.append_assoc ..).symm
  | call =>
    simp only [step, Option.ite_none_right_eq_some] at h
    cases h.2
    simp [Op.joined]
  | serve again =>
    simp only [step] at h
    split at h
    · cases h
    · cases h
      exact (List.append_assoc ..).symm

/-- A call takes a whole batch, or the whole line. -/
theorem step_called (h : step size r op = some t) : r.called.length ≤ t.called.length ∧
    (op.isCall = true → min size r.line.length ≤ t.called.length - r.called.length) := by
  cases op with
  | join x =>
    cases h
    exact ⟨Nat.le_refl _,fun hc => (by cases hc)⟩
  | call =>
    simp only [step, Option.ite_none_right_eq_some] at h
    cases h.2
    simp
  | serve again =>
    simp only [step] at h
    split at h
    · cases h
    · cases h
      exact ⟨Nat.le_refl _,fun hc => (by cases hc)⟩

theorem run_order (h : run size r ops = some t) :
    t.called ++ t.line = r.called ++ r.line ++ ops.flatMap Op.joined := by
  induction ops generalizing r with
  | nil =>
    cases h
    exact (List.append_nil _).symm
  | cons op rest ih =>
    obtain ⟨m,hm,hrest⟩ := Machine.run_cons.mp h
    rw [ih hrest, step_order hm, List.flatMap_cons, ← List.append_assoc]

theorem run_called (h : run size r ops = some t) :
    r.called.length + min r.line.length (size * ops.countP Op.isCall) ≤ t.called.length := by
  induction ops generalizing r with
  | nil =>
    cases h
    simp
  | cons op rest ih =>
    obtain ⟨m,hm,hrest⟩ := Machine.run_cons.mp h
    have hlater := ih hrest
    have horder := congrArg List.length (step_order hm)
    obtain ⟨hgrow,hcall⟩ := step_called hm
    simp only [List.length_append] at horder
    rw [List.countP_cons]
    by_cases hc : op.isCall = true
    · have hbatch := hcall hc
      rw [if_pos hc, Nat.mul_add, Nat.mul_one]
      omega
    · rw [if_neg hc, Nat.add_zero]
      omega

/-- Whoever has fewer than `size * n` others before them is called up in one of the next
`n` calls, and in the order of the line. -/
theorem run_turn (h : run size r ops = some t) {p : ℕ} {x : α} (hx : r.line[p]? = some x)
    (hp : p < size * ops.countP Op.isCall) : t.called[r.called.length + p]? = some x := by
  have hline : p < r.line.length := (List.getElem?_eq_some_iff.mp hx).1
  have hlt : r.called.length + p < t.called.length := by
    have hcalled := run_called h
    omega
  calc t.called[r.called.length + p]?
      = (t.called ++ t.line)[r.called.length + p]? := (List.getElem?_append_left hlt).symm
    _ = (r.called ++ r.line ++ ops.flatMap Op.joined)[r.called.length + p]? := by rw [run_order h]
    _ = (r.called ++ r.line)[r.called.length + p]? :=
      List.getElem?_append_left (by rw [List.length_append]; omega)
    _ = r.line[p]? := by rw [List.getElem?_append_right (by omega), Nat.add_sub_cancel_left]
    _ = some x := hx

end Rounds
