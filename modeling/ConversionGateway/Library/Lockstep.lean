import Mathlib.Data.List.Forall2
import ConversionGateway.Library.Delivery
import ConversionGateway.Library.Machine

/-! # Two runs in lockstep

Two machines that take related actions from related states, two computations that may
fail, and the queue of one machine against the queue of the other.
-/
namespace Machine
variable {σ τ α β γ δ : Type*} {R : σ → τ → Prop} {Q : γ → δ → Prop}

theorem rel_bind {x : Option σ} {y : Option τ} (h : Option.Rel R x y) {f : σ → Option γ} {g : τ → Option δ}
    (hf : ∀ s t, R s t → Option.Rel Q (f s) (g t)) : Option.Rel Q (x.bind f) (y.bind g) := by
  cases h with
  | some h => exact hf _ _ h
  | none => exact .none

theorem rel_refl {x : Option σ} : Option.Rel Eq x x := by
  cases x with
  | none => exact .none
  | some s => exact .some rfl

theorem rel_map {x : Option σ} {y : Option τ} (h : Option.Rel R x y) {f : σ → γ} {g : τ → δ}
    (hf : ∀ s t, R s t → Q (f s) (g t)) : Option.Rel Q (x.map f) (y.map g) := by
  cases h with
  | some h => exact .some (hf _ _ h)
  | none => exact .none

/-- If related actions are possible in both of two related states or in neither, and
lead to related states, then so do lists of them. -/
theorem run_lockstep {step : σ → α → Option σ} {step' : τ → β → Option τ} {A : α → β → Prop}
    (hstep : ∀ s t a b, R s t → A a b → Option.Rel R (step s a) (step' t b)) {s : σ} {t : τ} {as : List α}
    {bs : List β} (hst : R s t) (hab : List.Forall₂ A as bs) : Option.Rel R (run step s as) (run step' t bs) := by
  induction hab generalizing s t with
  | nil => exact .some hst
  | cons ha _ ih => exact rel_bind (hstep _ _ _ _ hst ha) fun _ _ h => ih h

end Machine

namespace Outcome
universe u v
variable {ε : Type*} {α γ : Type u} {β δ : Type v} {R : α → β → Prop} {Q : γ → δ → Prop}

/-- Both fail with the same error, or both succeed with related results. -/
inductive Together (R : α → β → Prop) : Except ε α → Except ε β → Prop
  | ok {a : α} {b : β} (h : R a b) : Together R (.ok a) (.ok b)
  | error (e : ε) : Together R (.error e) (.error e)

theorem Together.refl {R : α → α → Prop} (hR : ∀ a, R a a) (x : Except ε α) : Together R x x := by
  cases x with
  | ok a => exact .ok (hR a)
  | error e => exact .error e

theorem Together.bind {x : Except ε α} {y : Except ε β} (h : Together R x y) {f : α → Except ε γ} {g : β → Except ε δ}
    (hf : ∀ a b, R a b → Together Q (f a) (g b)) : Together Q (x >>= f) (y >>= g) := by
  cases h with
  | ok h => exact hf _ _ h
  | error e => exact .error e

end Outcome

namespace Delivery
variable {M N : Type*} {R : M → N → Prop}

/-- One number and one state of delivery, with related messages. -/
structure Envelope.Alike (R : M → N → Prop) (e : Envelope M) (f : Envelope N) : Prop where
  id : e.id = f.id
  message : R e.message f.message
  inflight : e.inflight = f.inflight

namespace Queue
variable {p : Queue M} {q : Queue N}

/-- The same queue up to a relation of the messages. -/
structure Alike (R : M → N → Prop) (p : Queue M) (q : Queue N) : Prop where
  next : p.next = q.next
  envelopes : List.Forall₂ (Envelope.Alike R) p.envelopes q.envelopes

theorem alike_empty : Alike R (empty : Queue M) (empty : Queue N) := ⟨rfl,.nil⟩

theorem Alike.publish (h : Alike R p q) {m : M} {n : N} (hmn : R m n) : Alike R (p.publish m) (q.publish n) := by
  constructor
  · exact congrArg (· + 1) h.next
  · exact List.rel_append h.envelopes (.cons ⟨h.next,hmn,rfl⟩ .nil)

theorem Alike.mark (h : Alike R p q) (id : ℕ) (inflight : Bool) :
    Alike R (p.mark id inflight) (q.mark id inflight) := by
  refine ⟨h.next,List.rel_map (fun e f hef => ?_) h.envelopes⟩
  by_cases he : e.id = id
  · rw [if_pos he, if_pos (hef.id.symm.trans he)]
    exact ⟨hef.id,hef.message,rfl⟩
  · rw [if_neg he, if_neg fun hf => he (hef.id.trans hf)]
    exact hef

theorem Alike.receive (h : Alike R p q) (id : ℕ) :
    Option.Rel (fun a b => R a.1 b.1 ∧ Alike R a.2 b.2) (p.receive id) (q.receive id) := by
  have hfind {es : List (Envelope M)} {fs : List (Envelope N)} (hef : List.Forall₂ (Envelope.Alike R) es fs) :
      Option.Rel (Envelope.Alike R) (es.find? fun e => e.id = id && !e.inflight)
        (fs.find? fun e => e.id = id && !e.inflight) := by
    induction hef with
    | nil => exact .none
    | cons hef _ ih =>
      rw [List.find?_cons, List.find?_cons, hef.id, hef.inflight]
      split
      · exact .some hef
      · exact ih
  exact Machine.rel_map (hfind h.envelopes) fun _ _ hef => ⟨hef.message,h.mark id true⟩

theorem Alike.release (h : Alike R p q) (id : ℕ) : Alike R (p.release id) (q.release id) := h.mark id false

theorem Alike.ack (h : Alike R p q) (id : ℕ) : Alike R (p.ack id) (q.ack id) := by
  have hfilter {es : List (Envelope M)} {fs : List (Envelope N)} (hef : List.Forall₂ (Envelope.Alike R) es fs) :
      List.Forall₂ (Envelope.Alike R) (es.filter fun e => e.id ≠ id) (fs.filter fun e => e.id ≠ id) := by
    induction hef with
    | nil => exact .nil
    | cons hef _ ih =>
      rw [List.filter_cons, List.filter_cons, hef.id]
      split
      · exact .cons hef ih
      · exact ih
  exact ⟨h.next,hfilter h.envelopes⟩

end Queue
end Delivery
