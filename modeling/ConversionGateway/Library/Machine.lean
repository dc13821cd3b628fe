import Mathlib.Data.List.Induction

/-! # Runs of a machine with a partial step function

`run` replays a list of actions; it stops at an action that is not enabled. A
property of single steps becomes a property of runs by the induction packaged
here once.
-/
namespace Machine
variable {σ α : Type*} {step : σ → α → Option σ}

/-- The state after a list of actions, if each was enabled in its turn. -/
def run (step : σ → α → Option σ) : σ → List α → Option σ
  | s, [] => some s
  | s, a :: rest => (step s a).bind fun t => run step t rest

@[simp] theorem run_nil (s : σ) : run step s [] = some s := rfl

theorem run_cons {s u : σ} {a : α} {rest : List α} :
    run step s (a :: rest) = some u ↔ ∃ t, step s a = some t ∧ run step t rest = some u :=
  Option.bind_eq_some_iff

theorem run_append {s u : σ} {as bs : List α} :
    run step s (as ++ bs) = some u ↔ ∃ t, run step s as = some t ∧ run step t bs = some u := by
  induction as generalizing s with
  | nil => simp
  | cons a as ih =>
    simp only [List.cons_append, run_cons, ih]
    constructor
    · rintro ⟨m,hm,t,ht,hu⟩
      exact ⟨t,⟨m,hm,ht⟩,hu⟩
    · rintro ⟨t,⟨m,hm,ht⟩,hu⟩
      exact ⟨m,hm,t,ht,hu⟩

theorem run_concat {s u : σ} {as : List α} {a : α} :
    run step s (as ++ [a]) = some u ↔ ∃ t, run step s as = some t ∧ step t a = some u := by
  rw [run_append]
  refine exists_congr fun t => and_congr_right fun _ => ?_
  rw [run_cons]
  exact ⟨fun ⟨m,hm,he⟩ => by cases he; exact hm,fun h => ⟨u,h,rfl⟩⟩

/-- `C` holds at every action of the run, in the state in which it is taken. -/
def Along (step : σ → α → Option σ) (C : σ → α → Prop) (s : σ) (as : List α) : Prop :=
  ∀ pre a post t, as = pre ++ a :: post → run step s pre = some t → C t a

theorem Along.head {C : σ → α → Prop} {s : σ} {a : α} {rest : List α}
    (h : Along step C s (a :: rest)) : C s a := h [] a rest s rfl rfl

theorem Along.tail {C : σ → α → Prop} {s t : σ} {a : α} {rest : List α}
    (h : Along step C s (a :: rest)) (ht : step s a = some t) : Along step C t rest := by
  intro pre b post u heq hu
  exact h (a :: pre) b post u (by simp [heq]) (run_cons.mpr ⟨t,ht,hu⟩)

theorem along_cons {C : σ → α → Prop} {s : σ} {a : α} {rest : List α} :
    Along step C s (a :: rest) ↔ C s a ∧ ∀ t ∈ step s a, Along step C t rest := by
  refine ⟨fun h => ⟨h.head,fun t ht => h.tail ht⟩,?_⟩
  rintro ⟨hC,hrest⟩ (_ | ⟨b,pre⟩) c post t heq ht
  · obtain ⟨rfl,rfl⟩ := List.cons.inj heq
    cases ht
    exact hC
  · obtain ⟨rfl,rfl⟩ := List.cons.inj heq
    obtain ⟨m,hm,ht⟩ := run_cons.mp ht
    exact hrest m hm pre c post t rfl ht

/-- Whether a condition holds along a given run can be computed. -/
instance decidableAlong {C : σ → α → Prop} [∀ s a, Decidable (C s a)] :
    ∀ s as, Decidable (Along step C s as)
  | _, [] => isTrue fun pre a post _ heq _ => absurd heq (by simp)
  | s, a :: rest =>
    have : ∀ t, Decidable (Along step C t rest) := fun t => decidableAlong t rest
    decidable_of_iff _ along_cons.symm

theorem Along.left {C : σ → α → Prop} {s : σ} {as bs : List α}
    (h : Along step C s (as ++ bs)) : Along step C s as := by
  intro pre a post t heq ht
  exact h pre a (post ++ bs) t (by simp [heq]) ht

theorem Along.right {C : σ → α → Prop} {s t : σ} {as bs : List α}
    (h : Along step C s (as ++ bs)) (ht : run step s as = some t) : Along step C t bs := by
  intro pre a post u heq hu
  exact h (as ++ pre) a post u (by simp [heq]) (run_append.mpr ⟨t,ht,hu⟩)

/-- A reflexive and transitive relation kept by every permitted step holds
between the two ends of a permitted run. -/
theorem run_rel {C : σ → α → Prop} (I : σ → Prop) (R : σ → σ → Prop)
    (hrefl : ∀ s, R s s) (htrans : ∀ {s t u}, R s t → R t u → R s u)
    (hstep : ∀ s a t, I s → C s a → step s a = some t → I t ∧ R s t)
    {s u : σ} {as : List α} (hs : I s) (hC : Along step C s as) (h : run step s as = some u) :
    I u ∧ R s u := by
  induction as generalizing s with
  | nil =>
    cases h
    exact ⟨hs,hrefl _⟩
  | cons a rest ih =>
    obtain ⟨t,ht,hu⟩ := run_cons.mp h
    obtain ⟨hi,hr⟩ := hstep s a t hs hC.head ht
    obtain ⟨hi',hr'⟩ := ih hi (hC.tail ht) hu
    exact ⟨hi',htrans hr hr'⟩

/-- An invariant kept by every permitted step holds after every permitted run. -/
theorem run_inv {C : σ → α → Prop} (I : σ → Prop)
    (hstep : ∀ s a t, I s → C s a → step s a = some t → I t)
    {s u : σ} {as : List α} (hs : I s) (hC : Along step C s as) (h : run step s as = some u) : I u :=
  (run_rel I (fun _ _ => True) (fun _ => trivial) (fun _ _ => trivial)
    (fun s a t hi hc ht => ⟨hstep s a t hi hc ht,trivial⟩) hs hC h).1

/-- What every permitted step from a state of the invariant does is done along
every permitted run. -/
theorem along_of_inv {C D : σ → α → Prop} (I : σ → Prop)
    (hstep : ∀ s a t, I s → C s a → step s a = some t → I t) (hD : ∀ s a, I s → C s a → D s a)
    {s : σ} {as : List α} (hs : I s) (hC : Along step C s as) : Along step D s as := by
  intro pre a post t heq ht
  have hpre : Along step C s pre := by
    rw [heq] at hC
    exact hC.left
  exact hD t a (run_inv I hstep hs hpre ht) (hC pre a post t heq ht)

/-- A run from a state without `P` to one with `P` has a first step into `P`. -/
theorem run_crossing {P : σ → Prop} {s u : σ} {as : List α} (h : run step s as = some u) (hs : ¬ P s)
    (hu : P u) : ∃ pre a post v w, as = pre ++ a :: post ∧ run step s pre = some v ∧
      step v a = some w ∧ run step w post = some u ∧ ¬ P v ∧ P w := by
  induction as generalizing s with
  | nil =>
    cases h
    exact absurd hu hs
  | cons a rest ih =>
    obtain ⟨t,ht,hrest⟩ := run_cons.mp h
    by_cases hP : P t
    · exact ⟨[],a,rest,s,t,rfl,rfl,ht,hrest,hs,hP⟩
    · obtain ⟨pre,b,post,v,w,rfl,hpre,hb,hpost,hv,hw⟩ := ih hrest hP
      exact ⟨a :: pre,b,post,v,w,rfl,run_cons.mpr ⟨t,ht,hpre⟩,hb,hpost,hv,hw⟩

/-- Every action of a run is enabled in its turn. -/
theorem run_along {s u : σ} {as : List α} (h : run step s as = some u) :
    Along step (fun s a => ∃ t, step s a = some t) s as := by
  rintro pre a post t rfl ht
  obtain ⟨t',ht',hrest⟩ := run_append.mp h
  cases ht.symm.trans ht'
  obtain ⟨w,hw,_⟩ := run_cons.mp hrest
  exact ⟨w,hw⟩

/-- Conditions that agree at every step of the run. -/
theorem along_congr {C D : σ → α → Prop} {s u : σ} {as : List α} (h : run step s as = some u)
    (hCD : ∀ pre t v a, run step s pre = some t → step t a = some v → (C t a ↔ D t a)) :
    Along step C s as ↔ Along step D s as := by
  constructor <;> intro hC pre a post t heq ht
  all_goals
    obtain ⟨v,hv⟩ := run_along h pre a post t heq ht
    have hiff := hCD pre t v a ht hv
  · exact hiff.mp (hC pre a post t heq ht)
  · exact hiff.mpr (hC pre a post t heq ht)

/-- What holds since some action of the run: `Q` at its end goes back to the last
action with `E`, after which there was no action with `M`. -/
theorem run_since {Q : σ → Prop} {E : σ → α → Prop} {M : α → Prop}
    (hstep : ∀ s a t, step s a = some t → Q t → E s a ∨ Q s ∧ ¬ M a) {s u : σ} {as : List α} (hs : ¬ Q s)
    (hu : Q u) (h : run step s as = some u) :
    ∃ pre a post v, as = pre ++ a :: post ∧ run step s pre = some v ∧ E v a ∧ ∀ b ∈ post, ¬ M b := by
  induction as using List.reverseRecOn generalizing u with
  | nil =>
    cases h
    exact absurd hu hs
  | append_singleton as b ih =>
    obtain ⟨t,ht,hb⟩ := run_concat.mp h
    rcases hstep t b u hb hu with hE | ⟨hQ,hM⟩
    · exact ⟨as,b,[],t,rfl,ht,hE,by simp⟩
    · obtain ⟨pre,a,post,v,rfl,hpre,hE,hpost⟩ := ih hQ ht
      refine ⟨pre,a,post ++ [b],v,by simp,hpre,hE,fun c hc => ?_⟩
      rcases List.mem_append.mp hc with hc | hc
      · exact hpost c hc
      · rwa [List.mem_singleton.mp hc]

/-! ## What a run hands out -/

section Outputs
variable {β γ : Type*} {f : σ → α → List β}

/-- What the actions of a run hand out, in their order. -/
def outputs (step : σ → α → Option σ) (f : σ → α → List β) : σ → List α → List β
  | _, [] => []
  | s, a :: rest => f s a ++ ((step s a).map fun t => outputs step f t rest).getD []

theorem outputs_cons {s t : σ} {a : α} (rest : List α) (h : step s a = some t) :
    outputs step f s (a :: rest) = f s a ++ outputs step f t rest := by
  rw [outputs, h]
  rfl

/-- A function of lists that goes through concatenations goes through runs. -/
theorem outputs_hom (g : List β → List γ) (hnil : g [] = []) (happend : ∀ xs ys, g (xs ++ ys) = g xs ++ g ys)
    (s : σ) (as : List α) : g (outputs step f s as) = outputs step (fun s a => g (f s a)) s as := by
  induction as generalizing s with
  | nil => exact hnil
  | cons a rest ih =>
    rw [outputs, outputs, happend]
    cases step s a with
    | none => exact congrArg _ hnil
    | some t => exact congrArg _ (ih t)

/-- Whatever a run hands out is handed out by one of its actions. -/
theorem mem_outputs {s : σ} {as : List α} {b : β} (h : b ∈ outputs step f s as) :
    ∃ pre a post t, as = pre ++ a :: post ∧ run step s pre = some t ∧ b ∈ f t a := by
  induction as generalizing s with
  | nil => cases h
  | cons a rest ih =>
    rw [outputs] at h
    rcases List.mem_append.mp h with h | h
    · exact ⟨[],a,rest,s,rfl,rfl,h⟩
    · cases hst : step s a with
      | none => simp [hst] at h
      | some t =>
        rw [hst] at h
        obtain ⟨pre,c,post,u,rfl,hpre,hb⟩ := ih h
        exact ⟨a :: pre,c,post,u,rfl,run_cons.mpr ⟨t,hst,hpre⟩,hb⟩

theorem outputs_eq_nil_iff {s : σ} {as : List α} :
    outputs step f s as = [] ↔ Along step (fun s a => f s a = []) s as := by
  induction as generalizing s with
  | nil =>
    constructor
    · intro _ pre a post t heq
      exact absurd heq (by simp)
    · intro _
      rfl
  | cons a rest ih =>
    rw [along_cons, outputs, List.append_eq_nil_iff]
    apply and_congr_right
    intro _
    cases step s a with
    | none => simp
    | some t => simpa using ih

/-- Double entry over a run: what its steps hand out is what they add to a journal of the
state, but for what is written off. -/
theorem outputs_balance {g : σ → α → List β} (J : σ → List β) (I : σ → Prop)
    (hstep : ∀ s a t, I s → step s a = some t → I t ∧ (J s ++ f s a).Perm (J t ++ g s a)) {s u : σ} {as : List α}
    (hs : I s) (h : run step s as = some u) :
    I u ∧ (J s ++ outputs step f s as).Perm (J u ++ outputs step g s as) := by
  induction as generalizing s with
  | nil =>
    cases h
    exact ⟨hs,List.Perm.refl _⟩
  | cons a rest ih =>
    obtain ⟨t,ht,hrest⟩ := run_cons.mp h
    obtain ⟨hi,hone⟩ := hstep s a t hs ht
    obtain ⟨hu,hall⟩ := ih hi hrest
    refine ⟨hu,?_⟩
    rw [outputs_cons rest ht, outputs_cons rest ht, ← List.append_assoc]
    have hswap (xs ys zs : List β) : (xs ++ ys ++ zs).Perm (ys ++ (xs ++ zs)) := by
      rw [← List.append_assoc]
      exact List.perm_append_comm.append_right zs
    have hback : (g s a ++ (J u ++ outputs step g t rest)).Perm (J u ++ (g s a ++ outputs step g t rest)) := by
      rw [← List.append_assoc]
      exact hswap _ _ _
    calc
      List.Perm (J s ++ f s a ++ outputs step f t rest) (J t ++ g s a ++ outputs step f t rest) := hone.append_right _
      List.Perm _ (g s a ++ (J t ++ outputs step f t rest)) := hswap _ _ _
      List.Perm _ (g s a ++ (J u ++ outputs step g t rest)) := hall.append_left _
      List.Perm _ (J u ++ (g s a ++ outputs step g t rest)) := hback

/-- Where a mark `Q` stays, comes with an output and only with one: a run hands out
at most one thing if and only if nothing is handed out under the mark. -/
theorem outputs_once_iff {Q : σ → Prop} (I : σ → Prop) (hinv : ∀ s a t, I s → step s a = some t → I t)
    (hone : ∀ s a, (f s a).length ≤ 1)
    (hmark : ∀ s a t, I s → step s a = some t → (Q t ↔ Q s ∨ f s a ≠ [])) {s : σ} {as : List α} (hi : I s)
    (hs : ¬ Q s) : (outputs step f s as).length ≤ 1 ↔ Along step (fun s a => f s a ≠ [] → ¬ Q s) s as := by
  have hmarked (s : σ) (hi : I s) (hQ : Q s) (as : List α) :
      Along step (fun s a => f s a ≠ [] → ¬ Q s) s as ↔ outputs step f s as = [] := by
    induction as generalizing s with
    | nil => simp [outputs_eq_nil_iff,Along]
    | cons a rest ih =>
      rw [outputs_eq_nil_iff, along_cons, along_cons]
      apply and_congr
      · simp [hQ]
      · apply forall₂_congr
        intro t ht
        rw [ih t (hinv s a t hi ht) ((hmark s a t hi ht).mpr (Or.inl hQ)), outputs_eq_nil_iff]
  induction as generalizing s with
  | nil => simp [outputs,Along]
  | cons a rest ih =>
    rw [along_cons]
    cases hst : step s a with
    | none => simpa [outputs,hst,hs] using hone s a
    | some t =>
      have hrest := hmark s a t hi hst
      rw [outputs_cons rest hst, List.length_append]
      by_cases hf : f s a = []
      · have ht : ¬ Q t := by simp [hrest,hs,hf]
        simpa [hf,hs] using ih (hinv s a t hi hst) ht
      · have ht : Q t := hrest.mpr (Or.inr hf)
        have hlen : (f s a).length = 1 := by
          have hpos := List.length_pos_iff.mpr hf
          have hle := hone s a
          omega
        have hC : Along step (fun s a => f s a ≠ [] → ¬ Q s) t rest ↔ outputs step f t rest = [] :=
          hmarked t (hinv s a t hi hst) ht rest
        simp only [Option.mem_def, Option.some.injEq, forall_eq', hs, not_false_eq_true, implies_true, true_and]
        rw [hlen, hC, ← List.length_eq_zero_iff]
        omega

end Outputs

/-- The unconditional form: every step keeps the invariant. -/
theorem run_inv' (I : σ → Prop) (hstep : ∀ s a t, I s → step s a = some t → I t)
    {s u : σ} {as : List α} (hs : I s) (h : run step s as = some u) : I u :=
  run_inv (C := fun _ _ => True) I (fun s a t hi _ ht => hstep s a t hi ht) hs
    (fun _ _ _ _ _ _ => trivial) h

/-! ## What can still be reached -/

section Reaches
variable {C : α → Prop}

/-- Some run of permitted actions leads there. -/
def Reaches (step : σ → α → Option σ) (C : α → Prop) (s t : σ) : Prop :=
  ∃ as, (∀ a ∈ as, C a) ∧ run step s as = some t

theorem Reaches.refl (s : σ) : Reaches step C s s := ⟨[],by simp,rfl⟩

theorem Reaches.of_step {s t : σ} {a : α} (ha : C a) (h : step s a = some t) : Reaches step C s t :=
  ⟨[a],by simpa using ha,run_cons.mpr ⟨t,h,rfl⟩⟩

theorem Reaches.trans {s t u : σ} (h : Reaches step C s t) (h' : Reaches step C t u) : Reaches step C s u := by
  obtain ⟨as,hC,has⟩ := h
  obtain ⟨bs,hC',hbs⟩ := h'
  refine ⟨as ++ bs,fun a ha => ?_,run_append.mpr ⟨t,has,hbs⟩⟩
  exact (List.mem_append.mp ha).elim (hC a) (hC' a)

/-- An invariant holds in all that can be reached. -/
theorem Reaches.inv (I : σ → Prop) (hstep : ∀ s a t, I s → step s a = some t → I t) {s t : σ} (hs : I s)
    (h : Reaches step C s t) : I t := by
  obtain ⟨as,_,has⟩ := h
  exact run_inv' I hstep hs has

end Reaches

end Machine
