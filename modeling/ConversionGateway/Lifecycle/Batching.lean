import ConversionGateway.Library.Machine
import ConversionGateway.Model.Uploader

/-! # The batcher over the cycles of an uploader

`run_once` adds what it claimed and passes on a batch when the batcher is full or
its oldest item is due. A cycle keeps everything or hands out everything, so the
batches and the batcher together hold the claimed items in their order.
-/
namespace ConversionGateway

namespace Batcher
variable {T : Type} {maxSize : ℕ} {b : Batcher T}

/-- Between two calls: not full, and aged exactly when it holds something. -/
structure Sound (maxSize : ℕ) (b : Batcher T) : Prop where
  below : b.items.length < maxSize
  aged : b.oldestAt = none ↔ b.items = []

theorem empty_sound (h : 1 ≤ maxSize) : (empty : Batcher T).Sound maxSize := ⟨h,by simp [empty]⟩

/-- The batcher took the items and holds on to them. -/
structure Keeps (maxSize : ℕ) (b : Batcher T) (items : List T) (b' : Batcher T) : Prop where
  items : b'.items = b.items ++ items
  sound : b'.Sound maxSize
  oldest : ∀ oldest, b.oldestAt = some oldest → b'.oldestAt = some oldest

/-- As many items as there is room for are kept, or the last one fills the batch. -/
theorem addAll_spec (hb : b.Sound maxSize) {items : List T}
    (hroom : b.items.length + items.length ≤ maxSize) (now : Time) :
    (∃ b', addAll maxSize now none b items = (none,b') ∧ Keeps maxSize b items b') ∨
      (addAll maxSize now none b items = (some (b.items ++ items),empty) ∧ b.items ++ items ≠ []) := by
  induction items generalizing b with
  | nil => exact Or.inl ⟨b,rfl,(List.append_nil _).symm,hb,fun _ h => h⟩
  | cons item rest ih =>
    simp only [List.length_cons] at hroom
    simp only [addAll, add, List.length_append, List.length_singleton, Option.or_none]
    by_cases hfull : maxSize ≤ b.items.length + 1
    · have hrest : rest = [] := List.eq_nil_of_length_eq_zero (by omega)
      subst hrest
      rw [if_pos hfull]
      exact Or.inr ⟨rfl,by simp⟩
    · rw [if_neg hfull]
      set b₁ : Batcher T := ⟨b.items ++ [item],some (b.oldestAt.getD now)⟩ with hb₁
      have hlen : b₁.items.length = b.items.length + 1 := by simp [hb₁]
      have hsound : b₁.Sound maxSize := ⟨by omega,by simp [hb₁]⟩
      have hitems : b₁.items ++ rest = b.items ++ item :: rest := by simp [hb₁]
      have hold : ∀ oldest, b.oldestAt = some oldest → b₁.oldestAt = some oldest := by
        intro oldest ho
        simp [hb₁,ho]
      rcases ih hsound (by omega) with ⟨b',heq,hk⟩ | ⟨heq,hne⟩
      · exact Or.inl ⟨b',heq,hk.items.trans hitems,hk.sound,fun o ho => hk.oldest o (hold o ho)⟩
      · rw [hitems] at heq hne
        exact Or.inr ⟨heq,hne⟩

end Batcher

/-- One call of `run_once`: its time and what its claim returned. -/
structure Cycle where
  now : Time
  claimed : List Claimed

/-- The batcher between two calls, and what was passed to `upload_batch` so far. -/
structure Batching where
  batcher : Batcher Claimed
  uploaded : List (List Claimed)

namespace Batching

def start : Batching := ⟨Batcher.empty,[]⟩

/-- The limit that `run_once` passes to its claim; without room it does not claim. -/
def room (st : Settings) (s : Batching) : ℕ := st.uploadBatchSize - s.batcher.items.length

/-- A call of `run_once` whose claim respects its limit and whose upload does not raise. -/
def step (st : Settings) (s : Batching) (c : Cycle) : Option Batching :=
  if c.claimed.length ≤ s.room st then
    match cycleBatch st s.batcher c.claimed c.now with
    | (none,b) => some ⟨b,s.uploaded⟩
    | (some [],b) => some ⟨b,s.uploaded⟩
    | (some batch,b) => some ⟨b,s.uploaded ++ [batch]⟩
  else none

abbrev run (st : Settings) : Batching → List Cycle → Option Batching := Machine.run (step st)

/-- The items so far, in the order in which they were handed on or are held. -/
def items (s : Batching) : List Claimed := s.uploaded.flatten ++ s.batcher.items

end Batching

/-- A cycle on a sound batcher: the items are kept and none is due, or everything
goes out as one batch. -/
theorem cycleBatch_spec {st : Settings} {b : Batcher Claimed} {items : List Claimed}
    (hb : b.Sound st.uploadBatchSize) (hroom : b.items.length + items.length ≤ st.uploadBatchSize)
    (now : Time) :
    (∃ b', cycleBatch st b items now = (none,b') ∧ b.Keeps st.uploadBatchSize items b' ∧
      ∀ oldest ∈ b.oldestAt, ∀ wait ∈ st.uploadBatchWait, now < oldest + wait) ∨
    (cycleBatch st b items now = (some (b.items ++ items),Batcher.empty) ∧ b.items ++ items ≠ []) := by
  unfold cycleBatch
  rcases Batcher.addAll_spec hb hroom now with ⟨b',heq,hk⟩ | ⟨heq,hne⟩
  · rw [heq]
    dsimp only
    unfold Batcher.flushIfDue
    cases ho : b'.oldestAt with
    | none =>
      refine Or.inl ⟨b',rfl,hk,fun oldest h => ?_⟩
      rw [hk.oldest oldest h] at ho
      cases ho
    | some oldest =>
      cases hw : st.uploadBatchWait with
      | none => exact Or.inl ⟨b',rfl,hk,fun _ _ _ h => by cases h⟩
      | some wait =>
        dsimp only
        by_cases hdue : wait ≤ now - oldest
        · rw [if_pos hdue, ← hk.items]
          refine Or.inr ⟨rfl,fun hnil => ?_⟩
          rw [hk.sound.aged.mpr hnil] at ho
          cases ho
        · rw [if_neg hdue]
          refine Or.inl ⟨b',rfl,hk,fun oldest' h' wait' hw' => ?_⟩
          rw [hk.oldest oldest' h'] at ho
          cases ho
          cases hw'
          exact lt_add_of_sub_left_lt (lt_of_not_ge hdue)
  · rw [heq]
    exact Or.inr ⟨rfl,hne⟩

namespace Batching
variable {st : Settings} {s t : Batching} {c : Cycle}

/-- The two ways a call ends. -/
theorem step_cases (hb : s.batcher.Sound st.uploadBatchSize) (h : step st s c = some t) :
    (t.uploaded = s.uploaded ∧ s.batcher.Keeps st.uploadBatchSize c.claimed t.batcher ∧
      ∀ oldest ∈ s.batcher.oldestAt, ∀ wait ∈ st.uploadBatchWait, c.now < oldest + wait) ∨
    ∃ batch, batch = s.batcher.items ++ c.claimed ∧ 1 ≤ batch.length ∧ batch.length ≤ st.uploadBatchSize ∧
      t = ⟨Batcher.empty,s.uploaded ++ [batch]⟩ := by
  have hbelow := hb.below
  unfold step at h
  split at h
  · next hroom =>
    have hroom : s.batcher.items.length + c.claimed.length ≤ st.uploadBatchSize := by
      unfold room at hroom
      omega
    rcases cycleBatch_spec hb hroom c.now with ⟨b',heq,hk,hdue⟩ | ⟨heq,hne⟩
    · rw [heq] at h
      cases h
      exact Or.inl ⟨rfl,hk,hdue⟩
    · rw [heq] at h
      refine Or.inr ⟨_,rfl,List.length_pos_iff.mpr hne,by rwa [List.length_append],?_⟩
      cases hbatch : s.batcher.items ++ c.claimed with
      | nil => exact absurd hbatch hne
      | cons x rest =>
        rw [hbatch] at h
        exact (Option.some.inj h).symm
  · cases h

/-- What holds between two calls. -/
structure Valid (st : Settings) (s : Batching) : Prop where
  sound : s.batcher.Sound st.uploadBatchSize
  sizes : ∀ batch ∈ s.uploaded, 1 ≤ batch.length ∧ batch.length ≤ st.uploadBatchSize

theorem start_valid : start.Valid st := ⟨Batcher.empty_sound st.batchSize_pos,by simp [start]⟩

theorem step_valid (hs : s.Valid st) (h : step st s c = some t) : t.Valid st := by
  rcases step_cases hs.sound h with ⟨hu,hk,_⟩ | ⟨batch,_,hpos,hmax,rfl⟩
  · exact ⟨hk.sound,fun batch hb => hs.sizes batch (hu ▸ hb)⟩
  · refine ⟨Batcher.empty_sound st.batchSize_pos,fun other ho => ?_⟩
    rcases List.mem_append.mp ho with ho | ho
    · exact hs.sizes other ho
    · rw [List.mem_singleton.mp ho]
      exact ⟨hpos,hmax⟩

/-- A call appends what it claimed. -/
theorem step_items (hs : s.Valid st) (h : step st s c = some t) : t.items = s.items ++ c.claimed := by
  unfold items
  rcases step_cases hs.sound h with ⟨hu,hk,_⟩ | ⟨batch,rfl,_,_,rfl⟩
  · rw [hu, hk.items, List.append_assoc]
  · simp [Batcher.empty]

theorem run_items {cycles : List Cycle} (hs : s.Valid st) (h : run st s cycles = some t) :
    t.Valid st ∧ t.items = s.items ++ (cycles.map Cycle.claimed).flatten := by
  induction cycles generalizing s with
  | nil =>
    cases h
    exact ⟨hs,(List.append_nil _).symm⟩
  | cons c rest ih =>
    obtain ⟨m,hm,hrest⟩ := Machine.run_cons.mp h
    obtain ⟨hv,heq⟩ := ih (step_valid hs hm) hrest
    refine ⟨hv,?_⟩
    rw [heq, step_items hs hm, List.map_cons, List.flatten_cons, List.append_assoc]

/-- Until the held items go out they stay in front of the batcher under their age;
once they are out they stay out. -/
def Awaits (held : List Claimed) (oldest : Time) (before : List Claimed) (s : Batching) : Prop :=
  (s.batcher.oldestAt = some oldest ∧ s.uploaded.flatten = before ∧ held <+: s.batcher.items) ∨
    before ++ held <+: s.uploaded.flatten

theorem step_awaits {held before : List Claimed} {oldest : Time} (hs : s.Valid st)
    (ha : s.Awaits held oldest before) (h : step st s c = some t) : t.Awaits held oldest before := by
  rcases step_cases hs.sound h with ⟨hu,hk,_⟩ | ⟨batch,rfl,_,_,rfl⟩
  · rcases ha with ⟨ho,hb,hh⟩ | hout
    · refine Or.inl ⟨hk.oldest oldest ho,hu ▸ hb,?_⟩
      rw [hk.items]
      exact hh.trans (List.prefix_append _ _)
    · exact Or.inr (hu ▸ hout)
  · refine Or.inr ?_
    rw [List.flatten_append, List.flatten_singleton]
    rcases ha with ⟨_,rfl,hh⟩ | hout
    · exact (List.prefix_append_right_inj _).mpr (hh.trans (List.prefix_append _ _))
    · exact hout.trans (List.prefix_append _ _)

/-- A call that finds the oldest item due hands the held items out. -/
theorem step_due {held before : List Claimed} {oldest wait : Time} (hs : s.Valid st)
    (ha : s.Awaits held oldest before) (hw : st.uploadBatchWait = some wait) (hdue : oldest + wait ≤ c.now)
    (h : step st s c = some t) : before ++ held <+: t.uploaded.flatten := by
  have hafter := step_awaits hs ha h
  rcases step_cases hs.sound h with ⟨hu,_,hnot⟩ | ⟨batch,_,_,_,rfl⟩
  · rcases ha with ⟨ho,_⟩ | hout
    · exact absurd hdue (not_le_of_gt (hnot oldest ho wait hw))
    · exact hu ▸ hout
  · exact hafter.resolve_left fun hheld => by cases hheld.1

theorem run_awaits {held before : List Claimed} {oldest : Time} {cycles : List Cycle} (hs : s.Valid st)
    (ha : s.Awaits held oldest before) (h : run st s cycles = some t) : t.Awaits held oldest before :=
  (Machine.run_inv' (fun s => s.Valid st ∧ s.Awaits held oldest before)
    (fun _ _ _ hi hst => ⟨step_valid hi.1 hst,step_awaits hi.1 hi.2 hst⟩) ⟨hs,ha⟩ h).2

/-- Over every sequence of calls: nothing claimed is dropped, doubled or put out of
order; no batch is empty or too large; between two calls the batcher is not full
and has an age exactly when it holds something; and what it holds is uploaded by
the first call that finds its oldest item due. -/
theorem run_drops_nothing (st : Settings) (cycles : List Cycle) (s : Batching)
    (h : run st start cycles = some s) :
    s.uploaded.flatten ++ s.batcher.items = (cycles.map Cycle.claimed).flatten ∧
    (∀ batch ∈ s.uploaded, 1 ≤ batch.length ∧ batch.length ≤ st.uploadBatchSize) ∧
    s.batcher.items.length < st.uploadBatchSize ∧
    (s.batcher.oldestAt = none ↔ s.batcher.items = []) ∧
    ∀ (later : List Cycle) (last : Cycle) (t : Batching) (oldest wait : Time),
      s.batcher.oldestAt = some oldest → st.uploadBatchWait = some wait → oldest + wait ≤ last.now →
      run st s (later ++ [last]) = some t → s.uploaded.flatten ++ s.batcher.items <+: t.uploaded.flatten := by
  obtain ⟨hv,hitems⟩ := run_items start_valid h
  refine ⟨hitems,hv.sizes,hv.sound.below,hv.sound.aged,?_⟩
  intro later last t oldest wait ho hw hdue ht
  obtain ⟨m,hm,hlast⟩ := Machine.run_concat.mp ht
  have hheld : s.Awaits s.batcher.items oldest s.uploaded.flatten := Or.inl ⟨ho,rfl,List.prefix_rfl⟩
  exact step_due (run_items hv hm).1 (run_awaits hv hheld hm) hw hdue hlast

/-- Two rows are claimed one after the other; the second call fills the batch. -/
theorem run_drops_nothing_pair : ∃ s, run { Settings.single with uploadBatchSize := 2, batchSize_pos := by decide }
      start [⟨0,[⟨"a",1,.null⟩]⟩,⟨3,[⟨"b",1,.null⟩]⟩,⟨4,[⟨"c",1,.null⟩]⟩] = some s ∧
    s.uploaded.flatten ++ s.batcher.items = [⟨"a",1,.null⟩,⟨"b",1,.null⟩,⟨"c",1,.null⟩] ∧
    s.batcher.items.length < 2 := by
  have h : run { Settings.single with uploadBatchSize := 2, batchSize_pos := by decide } start
    [⟨0,[⟨"a",1,.null⟩]⟩,⟨3,[⟨"b",1,.null⟩]⟩,⟨4,[⟨"c",1,.null⟩]⟩] = some _ := rfl
  obtain ⟨hitems,_,hbelow,_⟩ := run_drops_nothing _ _ _ h
  exact ⟨_,h,hitems,hbelow⟩

end Batching
end ConversionGateway
