import Mathlib.Data.List.Basic

/-! # Computations that may raise

Inversion rules for `Except`: a successful bind splits into the two successful
steps, and a successful monadic fold is an induction over its list.
-/
namespace Outcome
universe u
variable {ε : Type*} {α β σ : Type u}

/-- A successful bind consists of two successful steps. -/
theorem bind_ok {x : Except ε α} {f : α → Except ε β} {b : β} :
    x >>= f = .ok b ↔ ∃ a, x = .ok a ∧ f a = .ok b := by
  cases x with
  | error e => simp [bind, Except.bind]
  | ok a => simp [bind, Except.bind]

/-- A bind succeeds if both steps do. -/
theorem bind_isOk {x : Except ε α} {f : α → Except ε β} :
    (∃ b, x >>= f = .ok b) ↔ ∃ a, x = .ok a ∧ ∃ b, f a = .ok b := by
  simp only [bind_ok]
  exact ⟨fun ⟨b,a,ha,hb⟩ => ⟨a,ha,b,hb⟩,fun ⟨a,ha,b,hb⟩ => ⟨b,a,ha,hb⟩⟩

/-- A bind fails with its first step, or with its second after the first succeeded. -/
theorem bind_error {x : Except ε α} {f : α → Except ε β} {e : ε} :
    x >>= f = .error e ↔ x = .error e ∨ ∃ a, x = .ok a ∧ f a = .error e := by
  cases x with
  | error e => simp [bind, Except.bind]
  | ok a => simp [bind, Except.bind]

@[simp] theorem pure_ok {a b : α} : (pure a : Except ε α) = .ok b ↔ a = b := by
  simp [pure, Except.pure]

@[simp] theorem throw_ok {e : ε} {b : α} : (throw e : Except ε α) = .ok b ↔ False := by
  simp [throw, throwThe, MonadExceptOf.throw]

/-- The error that was raised, if one was. -/
def raised : Except ε α → Option ε
  | .error e => some e
  | .ok _ => none

theorem raised_eq_some {x : Except ε α} {e : ε} : raised x = some e ↔ x = .error e := by
  cases x <;> simp [raised]

/-- Run `f` over a list, threading the state and stopping at the first error. -/
def loop (f : σ → α → Except ε σ) : σ → List α → Except ε σ
  | s, [] => .ok s
  | s, a :: rest => f s a >>= fun t => loop f t rest

@[simp] theorem loop_nil (f : σ → α → Except ε σ) (s : σ) : loop f s [] = .ok s := rfl

theorem loop_cons_ok {f : σ → α → Except ε σ} {s t : σ} {a : α} {rest : List α} :
    loop f s (a :: rest) = .ok t ↔ ∃ m, f s a = .ok m ∧ loop f m rest = .ok t := bind_ok

theorem loop_append_ok {f : σ → α → Except ε σ} {s t : σ} {as bs : List α} :
    loop f s (as ++ bs) = .ok t ↔ ∃ m, loop f s as = .ok m ∧ loop f m bs = .ok t := by
  induction as generalizing s with
  | nil => simp
  | cons a rest ih =>
    simp only [List.cons_append, loop_cons_ok, ih]
    constructor
    · rintro ⟨x,hx,m,hm,ht⟩
      exact ⟨m,⟨x,hx,hm⟩,ht⟩
    · rintro ⟨m,⟨x,hx,hm⟩,ht⟩
      exact ⟨x,hx,m,hm,ht⟩

theorem loop_map {f : σ → β → Except ε σ} (g : α → β) (s : σ) (items : List α) :
    loop f s (items.map g) = loop (fun s a => f s (g a)) s items := by
  induction items generalizing s with
  | nil => rfl
  | cons a rest ih =>
    rw [List.map_cons, loop, loop]
    exact congrArg (f s (g a) >>= ·) (funext fun t => ih t)

/-- A loop ends after its items or at the first that fails, with what `I` says of the
items before. -/
theorem loop_upto {f : σ → α → Except ε σ} {I : List α → σ → Prop} {items : List α}
    (hstep : ∀ done a rest s t, items = done ++ a :: rest → I done s → f s a = .ok t → I (done ++ [a]) t)
    {s : σ} (hs : I [] s) :
    (∃ t, loop f s items = .ok t ∧ I items t) ∨
    ∃ done a rest t e, items = done ++ a :: rest ∧ I done t ∧ f t a = .error e ∧ loop f s items = .error e := by
  have hfrom (rest : List α) : ∀ done s, items = done ++ rest → I done s →
      (∃ t, loop f s rest = .ok t ∧ I items t) ∨
      ∃ done a rest' t e, items = done ++ a :: rest' ∧ I done t ∧ f t a = .error e ∧ loop f s rest = .error e := by
    induction rest with
    | nil =>
      intro done s heq hi
      rw [List.append_nil] at heq
      exact Or.inl ⟨s,rfl,heq ▸ hi⟩
    | cons a rest ih =>
      intro done s heq hi
      cases hf : f s a with
      | error e => exact Or.inr ⟨done,a,rest,s,e,heq,hi,hf,by rw [loop, hf]; rfl⟩
      | ok t =>
        have hloop : loop f s (a :: rest) = loop f t rest := by
          rw [loop, hf]
          rfl
        rw [hloop]
        exact ih (done ++ [a]) t (by rw [heq, List.append_assoc]; rfl) (hstep done a rest s t heq hi hf)
  exact hfrom items [] s rfl hs

/-- A loop in a loop goes over the inner lists one after the other. -/
theorem loop_flatten_ok {f : σ → α → Except ε σ} {g : β → Except ε (List α)} {s t : σ} {items : List β} :
    loop (fun s b => g b >>= loop f s) s items = .ok t ↔
      ∃ lists, List.Forall₂ (fun b l => g b = .ok l) items lists ∧ loop f s lists.flatten = .ok t := by
  induction items generalizing s with
  | nil =>
    constructor
    · intro h
      exact ⟨[],.nil,h⟩
    · rintro ⟨lists,hl,h⟩
      cases hl
      exact h
  | cons b rest ih =>
    rw [loop_cons_ok]
    constructor
    · rintro ⟨m,hm,hrest⟩
      obtain ⟨l,hl,hin⟩ := bind_ok.mp hm
      obtain ⟨lists,hlists,hall⟩ := ih.mp hrest
      exact ⟨l :: lists,.cons hl hlists,loop_append_ok.mpr ⟨m,hin,hall⟩⟩
    · rintro ⟨_,hforall,hall⟩
      cases hforall with
      | cons hl hlists =>
      obtain ⟨m,hin,hrest⟩ := loop_append_ok.mp hall
      exact ⟨m,bind_ok.mpr ⟨_,hl,hin⟩,ih.mpr ⟨_,hlists,hrest⟩⟩

/-- A reflexive and transitive relation kept by every iteration is kept by the loop. -/
theorem loop_rel {f : σ → α → Except ε σ} (R : σ → σ → Prop) (hrefl : ∀ s, R s s)
    (htrans : ∀ {s t u}, R s t → R t u → R s u) {items : List α}
    (hstep : ∀ a ∈ items, ∀ s t, f s a = .ok t → R s t) {s t : σ}
    (h : loop f s items = .ok t) : R s t := by
  induction items generalizing s with
  | nil =>
    cases h
    exact hrefl _
  | cons a rest ih =>
    obtain ⟨m,hm,hrest⟩ := loop_cons_ok.mp h
    exact htrans (hstep a List.mem_cons_self s m hm)
      (ih (fun b hb => hstep b (List.mem_cons_of_mem a hb)) hrest)

/-- An invariant kept by every iteration is kept by the loop. -/
theorem loop_inv {f : σ → α → Except ε σ} (I : σ → Prop) {items : List α}
    (hstep : ∀ a ∈ items, ∀ s t, I s → f s a = .ok t → I t) {s t : σ} (hs : I s)
    (h : loop f s items = .ok t) : I t :=
  loop_rel (fun s t => I s → I t) (fun _ => id) (fun h₁ h₂ => h₂ ∘ h₁)
    (fun a ha s t hst hi => hstep a ha s t hi hst) h hs

/-- What every step leaves alone is left alone by the loop. -/
theorem loop_view {V : Type*} {f : σ → α → Except ε σ} (view : σ → V) {items : List α}
    (hstep : ∀ s a t, f s a = .ok t → view t = view s) {s t : σ} (h : loop f s items = .ok t) : view t = view s :=
  loop_rel (fun s t => view t = view s) (fun _ => rfl) (fun h₁ h₂ => h₂.trans h₁)
    (fun a _ s t hst => hstep s a t hst) h

/-- A loop over items under different keys, each step of which depends on what is
under its own key and changes nothing under the others. -/
theorem loop_views {κ V : Type*} {f : σ → α → Except ε σ} (view : σ → κ → V) (key : α → κ) {I : σ → Prop}
    {P : α → V → Prop} {R : α → V → V → Prop} (items : List α) (hn : (items.map key).Nodup)
    (hstep : ∀ a ∈ items, ∀ s, I s → P a (view s (key a)) → ∃ t, f s a = .ok t ∧ I t ∧
      (∀ k, k ≠ key a → view t k = view s k) ∧ R a (view s (key a)) (view t (key a)))
    {s : σ} (hs : I s) (hP : ∀ a ∈ items, P a (view s (key a))) :
    ∃ t, loop f s items = .ok t ∧ I t ∧ (∀ k, k ∉ items.map key → view t k = view s k) ∧
      ∀ a ∈ items, R a (view s (key a)) (view t (key a)) := by
  induction items generalizing s with
  | nil => exact ⟨s,rfl,hs,fun _ _ => rfl,fun _ ha => by cases ha⟩
  | cons a rest ih =>
    obtain ⟨ha,hrest⟩ := List.nodup_cons.mp hn
    obtain ⟨m,hm,hi,hother,hR⟩ := hstep a List.mem_cons_self s hs (hP a List.mem_cons_self)
    have hne : ∀ c ∈ rest, key c ≠ key a := fun c hc heq => ha (heq ▸ List.mem_map_of_mem hc)
    obtain ⟨t,ht,hit,hframe,hRs⟩ := ih hrest (fun c hc => hstep c (List.mem_cons_of_mem a hc)) hi
      fun c hc => by rw [hother _ (hne c hc)]; exact hP c (List.mem_cons_of_mem a hc)
    refine ⟨t,loop_cons_ok.mpr ⟨m,hm,ht⟩,hit,fun k hk => ?_,fun c hc => ?_⟩
    · rw [List.map_cons, List.mem_cons, not_or] at hk
      rw [hframe k hk.2, hother k hk.1]
    · rcases List.mem_cons.mp hc with rfl | hc
      · rwa [hframe _ ha]
      · rw [← hother _ (hne c hc)]
        exact hRs c hc

end Outcome
