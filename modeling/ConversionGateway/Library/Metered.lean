import Mathlib.Data.List.Basic
import ConversionGateway.Library.Outcome

/-! # Computations that may raise and count as they go

A counter is not part of a transaction: what a computation has counted stays
counted when it raises. `Metered` reports it in either case, next to the outcome;
without the reports it is a computation in `Except`.
-/
/-- The outcome of a computation and what it counted on the way, in order. -/
def Metered (ε : Type*) (κ : Type*) (α : Type*) := Except ε α × List κ

namespace Metered
universe u
variable {ε κ : Type*} {α β σ : Type u}

instance : Monad (Metered ε κ) where
  pure a := (.ok a,[])
  bind x f :=
    match x with
    | (.error e,counted) => (.error e,counted)
    | (.ok a,counted) => ((f a).1,counted ++ (f a).2)

/-- A computation that counts nothing. -/
def lift (x : Except ε α) : Metered ε κ α := (x,[])

/-- Count once. -/
def count (k : κ) : Metered ε κ PUnit := (.ok ⟨⟩,[k])

/-- Run `f` over a list, threading the state and stopping at the first error. -/
def loop (f : σ → α → Metered ε κ σ) : σ → List α → Metered ε κ σ
  | s, [] => pure s
  | s, a :: rest => f s a >>= fun t => loop f t rest

/-- What is counted does not influence the outcome. -/
theorem bind_fst (x : Metered ε κ α) (f : α → Metered ε κ β) :
    (x >>= f).1 = x.1 >>= fun a => (f a).1 := by
  obtain ⟨x,counted⟩ := x
  cases x with
  | error e => rfl
  | ok a => rfl

theorem lift_fst (x : Except ε α) : (lift x : Metered ε κ α).1 = x := rfl

@[simp] theorem pure_snd (a : α) : (pure a : Metered ε κ α).2 = [] := rfl

@[simp] theorem lift_snd (x : Except ε α) : (lift x : Metered ε κ α).2 = [] := rfl

theorem loop_fst {f : σ → α → Metered ε κ σ} {g : σ → α → Except ε σ} (h : ∀ s a, (f s a).1 = g s a)
    (s : σ) (items : List α) : (loop f s items).1 = Outcome.loop g s items := by
  induction items generalizing s with
  | nil => rfl
  | cons a rest ih =>
    unfold loop Outcome.loop
    rw [bind_fst, h]
    exact congrArg (g s a >>= ·) (funext fun t => ih t)

/-- A loop that only counts. -/
theorem loop_count (f : α → κ) (items : List α) :
    loop (fun _ a => count (f a)) ⟨⟩ items = ((.ok ⟨⟩,items.map f) : Metered ε κ PUnit) := by
  induction items with
  | nil => rfl
  | cons a rest ih =>
    have hrest : loop (fun _ a => count (f a)) ⟨⟩ (a :: rest) =
        (((loop (fun _ a => count (f a)) ⟨⟩ rest : Metered ε κ PUnit).1,
          f a :: (loop (fun _ a => count (f a)) ⟨⟩ rest : Metered ε κ PUnit).2) : Metered ε κ PUnit) := rfl
    rw [hrest, ih]
    rfl

/-- Two steps that succeed have counted what the one and then the other counts. -/
theorem bind_ok {x : Metered ε κ α} {f : α → Metered ε κ β} {b : β} (h : (x >>= f).1 = .ok b) :
    ∃ a, x.1 = .ok a ∧ (f a).1 = .ok b ∧ (x >>= f).2 = x.2 ++ (f a).2 := by
  obtain ⟨x,counted⟩ := x
  cases x with
  | error e => cases h
  | ok a => exact ⟨a,rfl,h,rfl⟩

/-- If a journal of the state grows by what each iteration counts, it grows by what
the loop counts. -/
theorem loop_journal {f : σ → α → Metered ε κ σ} (journal : σ → List κ)
    (hstep : ∀ s a t, (f s a).1 = .ok t → journal t = journal s ++ (f s a).2) {items : List α} {s t : σ}
    (h : (loop f s items).1 = .ok t) : journal t = journal s ++ (loop f s items).2 := by
  induction items generalizing s with
  | nil =>
    cases h
    exact (List.append_nil _).symm
  | cons a rest ih =>
    unfold loop at h ⊢
    obtain ⟨m,hm,hrest,hcounted⟩ := bind_ok h
    rw [hcounted, ih hrest, hstep s a m hm, List.append_assoc]

end Metered
