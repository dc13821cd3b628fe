import ConversionGateway.System.Links

/-! # What an uploader holds and sends

The items of an uploader come out of its claims; what it sends is a batch of
them. An item leaves with the end of its batch or with the uploader.
-/
namespace ConversionGateway

namespace Batcher
variable {T : Type} {maxSize : ℕ} {b b' : Batcher T} {batch : Option (List T)} {now : Time}

theorem add_mem {item : T} (h : b.add maxSize item now = (batch,b')) :
    ∀ x ∈ batch.getD [] ++ b'.items, x ∈ b.items ∨ x = item := by
  simp only [add] at h
  intro x hx
  split at h <;> cases h <;> simpa [flush,empty] using hx

theorem flushIfDue_mem {maxWait : Option Time} (h : b.flushIfDue maxWait now = (batch,b')) :
    ∀ x ∈ batch.getD [] ++ b'.items, x ∈ b.items := by
  unfold flushIfDue at h
  intro x hx
  split at h
  · split at h <;> cases h <;> simpa [flush,empty] using hx
  · cases h
    simpa using hx

theorem addAll_mem {items : List T} {full : Option (List T)}
    (h : addAll maxSize now full b items = (batch,b')) :
    ∀ x ∈ batch.getD [] ++ b'.items, x ∈ full.getD [] ∨ x ∈ b.items ∨ x ∈ items := by
  induction items generalizing b full with
  | nil =>
    cases h
    intro x hx
    rcases List.mem_append.mp hx with hx | hx
    · exact Or.inl hx
    · exact Or.inr (Or.inl hx)
  | cons item rest ih =>
    intro x hx
    cases ha : b.add maxSize item now with
    | mk filled b₁ =>
      simp only [addAll, ha] at h
      have hadd := add_mem ha
      rcases ih h x hx with hx | hx | hx
      · cases filled with
        | none => exact Or.inl hx
        | some l =>
          rcases hadd x (List.mem_append_left _ hx) with hx | rfl
          · exact Or.inr (Or.inl hx)
          · exact Or.inr (Or.inr List.mem_cons_self)
      · rcases hadd x (List.mem_append_right _ hx) with hx | rfl
        · exact Or.inr (Or.inl hx)
        · exact Or.inr (Or.inr List.mem_cons_self)
      · exact Or.inr (Or.inr (List.mem_cons_of_mem _ hx))

end Batcher

section Local
variable {rt : Runtime} {st : Settings} {clock : Time} {db : Ledger}

theorem cycleBatch_mem {b b' : Batcher Claimed} {items : List Claimed} {now : Time}
    {batch : Option (List Claimed)} (h : cycleBatch st b items now = (batch,b')) :
    ∀ c ∈ batch.getD [] ++ b'.items, c ∈ b.items ∨ c ∈ items := by
  unfold cycleBatch at h
  intro c hc
  split at h
  · next hadd =>
    cases h
    rcases Batcher.addAll_mem hadd c hc with hc | hc
    · cases hc
    · exact hc
  · next hadd =>
    rcases Batcher.addAll_mem hadd c (by simpa using Batcher.flushIfDue_mem h c hc) with hc | hc
    · cases hc
    · exact hc

namespace Uploader

/-- Going on after a claim, the uploader holds its batcher and the new items. -/
theorem withClaim_held {u : Uploader} {items : List Claimed} {now : Time} {c : Claimed}
    (h : c ∈ (u.withClaim st items now).held) : c ∈ u.batcher.items ∨ c ∈ items := by
  unfold withClaim at h
  split at h
  · next hcy => exact cycleBatch_mem hcy c (by simpa [held,batch] using h)
  · next hcy => exact cycleBatch_mem hcy c (by simpa [held,batch] using h)
  · next hcy =>
    refine cycleBatch_mem hcy c ?_
    simpa [held,batch,or_comm] using h

theorem committed_held {u : Uploader} {reply : Reply} {c : Claimed}
    (h : c ∈ (u.committed st reply).held) : c ∈ u.held ∨ c ∈ reply.items := by
  unfold committed at h
  split at h
  · rcases withClaim_held h with h | h
    · exact Or.inl (List.mem_append_left _ h)
    · exact Or.inr h
  · next hp =>
    refine Or.inl ?_
    simpa [held,batch,hp] using h
  · next hp =>
    refine Or.inl (List.mem_append_left _ ?_)
    simpa [held,batch] using h
  · exact Or.inl h

/-- A local step brings in no item. -/
theorem step_held {u u' : Uploader} {n : ℕ} {locks locks' : Locks} {sent : Option (List Json)}
    {a : UploaderAction} (h : u.step st n clock db locks a = some (u',locks',sent)) {c : Claimed}
    (hc : c ∈ u'.held) : c ∈ u.held := by
  cases a with
  | skip =>
    simp only [step] at h
    split at h
    · split at h
      · cases h
        rcases withClaim_held hc with hc | hc
        · exact List.mem_append_left _ hc
        · cases hc
      · cases h
    · cases h
  | load =>
    simp only [step] at h
    split at h
    · next hp =>
      cases h
      simpa [held,batch,hp] using hc
    · next hp =>
      cases h
      simpa [held,batch,hp] using hc
    · cases h
  | begin | select ids | send | finish outcome | retry reason | stamp =>
    simp only [step] at h
    split at h
    · next hp =>
      first
        | (cases h; simpa [held,batch,hp] using hc)
        | (split at h <;> cases h; simpa [held,batch,hp] using hc)
    · cases h

/-- What is passed to the client is the batch about to be sent. -/
theorem step_sent {u u' : Uploader} {n : ℕ} {locks locks' : Locks} {conversions : List Json}
    {a : UploaderAction} (h : u.step st n clock db locks a = some (u',locks',some conversions)) :
    a = .send ∧ conversions = u.batch.map Claimed.conversion := by
  cases a with
  | send =>
    simp only [step] at h
    split at h
    · next hp =>
      cases h
      simp [batch,hp]
    · cases h
  | load =>
    simp only [step] at h
    split at h <;> cases h
  | begin | select ids | skip | finish outcome | retry reason | stamp =>
    simp only [step] at h
    split at h
    · first
        | cases h
        | (split at h <;> cases h)
    · cases h

end Uploader
end Local

namespace System
variable {rt : Runtime} {settings : ℕ → Settings} {s t : System} {a : Action}

/-- A property of items and ledgers that claims establish and commits keep holds
of everything that uploaders hold. -/
theorem step_held (h : step rt settings s a = some t) (hl : s.Linked) {n : ℕ} {c : Claimed}
    (hc : c ∈ (t.uploaders n).held) : c ∈ (s.uploaders n).held ∨
      ∃ st selected now, a = .commit (.uploader n) ∧
        s.transaction settings (.uploader n) = some (.claim st selected now) ∧
        c.eventId ∈ selected ∧ c.Backed t.ledger := by
  rcases step_uploaders h with ⟨hu,_⟩ | ⟨m,_,hu,_⟩ | ⟨m,tx,reply,rfl,hcom,hu,_⟩ | ⟨m,b,u,_,_,hp,hu,_⟩
  · rw [hu] at hc
    exact Or.inl hc
  · rw [hu, Function.update_apply] at hc
    split at hc
    · simp [Uploader.fresh,Uploader.held,Uploader.batch,Batcher.empty] at hc
    · exact Or.inl hc
  · rw [hu, Function.update_apply] at hc
    split at hc
    · next hn =>
      subst hn
      rcases Uploader.committed_held hc with hc | hc
      · exact Or.inl hc
      · obtain ⟨⟨st,selected,now,rfl⟩,hk,hb⟩ :=
          Transaction.commit_items (hl.keys_nodup hcom.transaction) hcom.commit c hc
        exact Or.inr ⟨st,selected,now,rfl,hcom.transaction,hk,hb⟩
    · exact Or.inl hc
  · rw [hu, Function.update_apply] at hc
    split at hc
    · next hn =>
      subst hn
      exact Or.inl (Uploader.step_held hp hc)
    · exact Or.inl hc

/-- What is sent is the batch of the uploader that sends. -/
theorem step_sent (h : step rt settings s a = some t) :
    t.sent = s.sent ∨ ∃ n, a = .uploader n .send ∧
      t.sent = s.sent ++ [(s.uploaders n).batch.map Claimed.conversion] := by
  cases a with
  | commit who =>
    obtain ⟨tx,reply,hcom⟩ := step_commit h
    rw [hcom.after]
    cases who <;> exact Or.inl rfl
  | crash who =>
    cases h
    cases who <;> exact Or.inl rfl
  | tick now =>
    simp only [step, Option.ite_none_right_eq_some] at h
    cases h.2
    exact Or.inl rfl
  | expire id =>
    cases h
    exact Or.inl rfl
  | request m a | reconciler m a | worker m a | replayer m a =>
    obtain ⟨p,_,rfl⟩ := Option.map_eq_some_iff.mp h
    exact Or.inl rfl
  | uploader m a =>
    obtain ⟨⟨u,locks,sent⟩,hp,rfl⟩ := Option.map_eq_some_iff.mp h
    cases sent with
    | none => exact Or.inl (List.append_nil _)
    | some conversions =>
      obtain ⟨rfl,rfl⟩ := Uploader.step_sent hp
      exact Or.inr ⟨m,rfl,rfl⟩

end System
end ConversionGateway
