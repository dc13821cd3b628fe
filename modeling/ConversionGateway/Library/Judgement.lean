import ConversionGateway.Library.Outcome

/-! # Runs that are judged in advance

Whether a run succeeds, and whether it ends with one particular error, is often
decided by its input alone. Judgements of the parts compose to a judgement of the
whole, along binds and along loops.
-/
namespace Outcome
universe u
variable {ε : Type*} {α β σ : Type u}

/-- The items before one that meets `goal` all pass. -/
def Reaches (pass goal : α → Prop) (items : List α) : Prop :=
  ∃ pre a post, items = pre ++ a :: post ∧ (∀ x ∈ pre, pass x) ∧ goal a

@[simp] theorem not_reaches_nil {pass goal : α → Prop} : ¬ Reaches pass goal [] := by
  rintro ⟨pre,a,post,heq,_⟩
  cases pre <;> cases heq

theorem reaches_cons {pass goal : α → Prop} {a : α} {rest : List α} :
    Reaches pass goal (a :: rest) ↔ goal a ∨ (pass a ∧ Reaches pass goal rest) := by
  constructor
  · rintro ⟨pre,x,post,heq,hpre,hx⟩
    cases pre with
    | nil =>
      cases heq
      exact Or.inl hx
    | cons y pre =>
      obtain ⟨rfl,rfl⟩ := List.cons.inj heq
      obtain ⟨hy,hpre⟩ := List.forall_mem_cons.mp hpre
      exact Or.inr ⟨hy,pre,x,post,rfl,hpre,hx⟩
  · rintro (ha | ⟨ha,pre,x,post,rfl,hpre,hx⟩)
    · exact ⟨[],a,rest,rfl,by simp,ha⟩
    · exact ⟨a :: pre,x,post,rfl,List.forall_mem_cons.mpr ⟨ha,hpre⟩,hx⟩

/-- The run succeeds when `passes` holds and ends with `e` when `fails` does; any
other error it ends with is among `others`. -/
structure Judged (e : ε) (others : ε → Prop) (run : Except ε α) (passes fails : Prop) : Prop where
  isOk : (∃ a, run = .ok a) ↔ passes
  isError : run = .error e ↔ fails
  other : ∀ e', run = .error e' → e' = e ∨ others e'

namespace Judged
variable {e : ε} {others : ε → Prop} {run : Except ε α} {passes fails : Prop}

theorem ok (a : α) : Judged e others (.ok a) True False :=
  ⟨by simp,by simp,by simp⟩

theorem error : Judged e others (.error e : Except ε α) False True :=
  ⟨by simp,by simp,fun _ h => Or.inl (Except.error.inj h).symm⟩

/-- An error among the others neither passes nor fails. -/
theorem raise {e' : ε} (hne : e' ≠ e) (h : others e') : Judged e others (.error e' : Except ε α) False False :=
  ⟨by simp,by simp [hne],fun _ heq => Or.inr (Except.error.inj heq ▸ h)⟩

/-- An error is judged alike at every type of result. -/
theorem retype {e' : ε} (h : Judged e others (.error e' : Except ε α) passes fails) :
    Judged e others (.error e' : Except ε β) passes fails :=
  ⟨by simpa using h.isOk,by simpa using h.isError,by simpa using h.other⟩

theorem congr {passes' fails' : Prop} (h : Judged e others run passes fails) (hp : passes ↔ passes')
    (hf : fails ↔ fails') : Judged e others run passes' fails' :=
  ⟨h.isOk.trans hp,h.isError.trans hf,h.other⟩

theorem bind {f : α → Except ε β} {passes' fails' : Prop} (h : Judged e others run passes fails)
    (hf : ∀ a, run = .ok a → Judged e others (f a) passes' fails') :
    Judged e others (run >>= f) (passes ∧ passes') (fails ∨ (passes ∧ fails')) := by
  rw [← h.isOk, ← h.isError]
  refine ⟨?_,?_,?_⟩
  · rw [bind_isOk]
    constructor
    · rintro ⟨a,ha,hb⟩
      exact ⟨⟨a,ha⟩,(hf a ha).isOk.mp hb⟩
    · rintro ⟨⟨a,ha⟩,hp⟩
      exact ⟨a,ha,(hf a ha).isOk.mpr hp⟩
  · rw [bind_error]
    refine or_congr_right ⟨?_,?_⟩
    · rintro ⟨a,ha,hb⟩
      exact ⟨⟨a,ha⟩,(hf a ha).isError.mp hb⟩
    · rintro ⟨⟨a,ha⟩,hp⟩
      exact ⟨a,ha,(hf a ha).isError.mpr hp⟩
  · intro e' he
    rcases bind_error.mp he with he | ⟨a,ha,he⟩
    · exact h.other e' he
    · exact (hf a ha).other e' he

/-- A loop passes if all its items do, and fails at the first that does not pass. -/
theorem loop {f : σ → α → Except ε σ} {pass fail : α → Prop}
    (hf : ∀ s a, Judged e others (f s a) (pass a) (fail a)) (items : List α) (s : σ) :
    Judged e others (Outcome.loop f s items) (∀ a ∈ items, pass a) (Reaches pass fail items) := by
  induction items generalizing s with
  | nil => exact (ok s).congr (by simp) (by simp)
  | cons a rest ih =>
    have hstep := (hf s a).bind fun t _ => ih t
    exact hstep.congr List.forall_mem_cons.symm reaches_cons.symm

end Judged

end Outcome
