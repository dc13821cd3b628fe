import Mathlib.Data.List.Perm.Basic

/-! # The custody of messages

A queue with acknowledgements, seen from the messages. A message has its place in the
order of publication for a name. It waits, is in flight under a handle, or was
acknowledged; a refusal lets it wait again, at the end.
-/
structure Custody where
  published : ℕ
  ready : List ℕ
  /-- Handles and the messages under them. -/
  inflight : List (ℕ × ℕ)
  acked : List ℕ
  /-- The messages of all refusals that found their delivery in flight. -/
  nacked : List ℕ
  /-- The messages of all deliveries, in order, with the refusals each had had by then. -/
  delivered : List (ℕ × ℕ)
  issued : ℕ

namespace Custody

inductive Op
  | publish
  | receive (n : ℕ)
  | ack (handle : ℕ)
  | nack (handle : ℕ)

def start : Custody := ⟨0,[],[],[],[],[],0⟩

/-- Fresh handles for messages that go out. -/
def handOut (issued : ℕ) : List ℕ → List (ℕ × ℕ)
  | [] => []
  | i :: rest => (issued,i) :: handOut (issued + 1) rest

/-- The message under a handle, if it is in flight. -/
def under (s : Custody) (handle : ℕ) : List ℕ := (s.inflight.filter fun p => p.1 = handle).map Prod.snd

def perform (s : Custody) : Op → Custody
  | .publish => { s with ready := s.ready ++ [s.published], published := s.published + 1 }
  | .receive n =>
    { s with ready := s.ready.drop n
             inflight := s.inflight ++ handOut s.issued (s.ready.take n)
             delivered := s.delivered ++ (s.ready.take n).map fun i => (i,s.nacked.count i)
             issued := s.issued + (s.ready.take n).length }
  | .ack handle =>
    { s with inflight := s.inflight.filter fun p => p.1 ≠ handle, acked := s.acked ++ s.under handle }
  | .nack handle =>
    { s with inflight := s.inflight.filter fun p => p.1 ≠ handle, ready := s.ready ++ s.under handle
             nacked := s.nacked ++ s.under handle }

/-- How often a message is in any place. -/
def places (s : Custody) (i : ℕ) : ℕ :=
  s.ready.count i + (s.inflight.map Prod.snd).count i + s.acked.count i

/-- No message is lost or doubled, and those that were never refused are delivered in the
order of publication, those that wait after those that went out. -/
structure Kept (s : Custody) : Prop where
  conserved : ∀ i, s.places i = if i < s.published then 1 else 0
  refused : ∀ i ∈ s.nacked, i < s.published
  inOrder : (s.delivered.map Prod.fst ++ s.ready).filter (fun i => i ∉ s.nacked) =
    (List.range s.published).filter fun i => i ∉ s.nacked

section Kept
variable {s : Custody} {i : ℕ}

theorem handOut_snd (issued : ℕ) (out : List ℕ) : (handOut issued out).map Prod.snd = out := by
  induction out generalizing issued with
  | nil => rfl
  | cons i rest ih => rw [handOut, List.map_cons, ih]

theorem start_kept : start.Kept := ⟨fun _ => rfl,by simp [start],rfl⟩

theorem Kept.once (h : s.Kept) (i : ℕ) : s.places i ≤ 1 := by
  rw [h.conserved]
  split <;> omega

theorem Kept.lt (h : s.Kept) (hi : 0 < s.places i) : i < s.published := by
  by_contra hge
  rw [h.conserved, if_neg hge] at hi
  exact Nat.lt_irrefl 0 hi

/-- A message in flight is under the handle or stays in flight. -/
theorem under_count (s : Custody) (handle i : ℕ) : (s.under handle).count i +
    ((s.inflight.filter fun p => p.1 ≠ handle).map Prod.snd).count i = (s.inflight.map Prod.snd).count i := by
  have hperm := List.filter_append_perm (fun p : ℕ × ℕ => decide (p.1 = handle)) s.inflight
  have hcount := (hperm.map Prod.snd).count_eq i
  rw [List.map_append, List.count_append] at hcount
  simpa [under] using hcount

theorem Kept.under_lt (h : s.Kept) {handle : ℕ} (hi : i ∈ s.under handle) : i < s.published := by
  refine h.lt ?_
  have hcount := s.under_count handle i
  have hpos := List.count_pos_iff.mpr hi
  unfold places
  omega

theorem Kept.perform (h : s.Kept) (op : Op) : (s.perform op).Kept := by
  cases op with
  | publish =>
    refine ⟨fun i => ?_,fun i hi => Nat.lt_succ_of_lt (h.refused i hi),?_⟩
    · have hold := h.conserved i
      have hnew : [s.published].count i = if s.published = i then 1 else 0 := by
        rw [List.count_singleton, beq_eq_decide]
        simp
      show (s.ready ++ [s.published]).count i + (s.inflight.map Prod.snd).count i + s.acked.count i =
        if i < s.published + 1 then 1 else 0
      rw [List.count_append, hnew]
      unfold places at hold
      split at hold <;> split <;> split <;> omega
    · show (s.delivered.map Prod.fst ++ (s.ready ++ [s.published])).filter (fun i => decide (i ∉ s.nacked)) =
        (List.range (s.published + 1)).filter fun i => decide (i ∉ s.nacked)
      rw [← List.append_assoc, List.filter_append, h.inOrder, ← List.filter_append, ← List.range_succ]
  | receive n =>
    refine ⟨fun i => ?_,h.refused,?_⟩
    · have hold := h.conserved i
      have hready := congrArg (List.count i) (List.take_append_drop n s.ready)
      rw [List.count_append] at hready
      show (s.ready.drop n).count i + ((s.inflight ++ handOut s.issued (s.ready.take n)).map Prod.snd).count i +
        s.acked.count i = if i < s.published then 1 else 0
      rw [← hold, List.map_append, handOut_snd, List.count_append]
      unfold places
      omega
    · show ((s.delivered ++ (s.ready.take n).map fun i => (i,s.nacked.count i)).map Prod.fst ++
        s.ready.drop n).filter (fun i => decide (i ∉ s.nacked)) = _
      have hid : (s.ready.take n).map (Prod.fst ∘ fun i => (i,s.nacked.count i)) = s.ready.take n := List.map_id _
      rw [List.map_append, List.map_map, List.append_assoc, hid, List.take_append_drop]
      exact h.inOrder
  | ack handle =>
    refine ⟨fun i => ?_,h.refused,h.inOrder⟩
    have hold := h.conserved i
    have hunder := s.under_count handle i
    show s.ready.count i + ((s.inflight.filter fun p => p.1 ≠ handle).map Prod.snd).count i +
      (s.acked ++ s.under handle).count i = if i < s.published then 1 else 0
    rw [← hold, List.count_append]
    unfold places
    omega
  | nack handle =>
    refine ⟨fun i => ?_,?_,?_⟩
    · have hold := h.conserved i
      have hunder := s.under_count handle i
      show (s.ready ++ s.under handle).count i + ((s.inflight.filter fun p => p.1 ≠ handle).map Prod.snd).count i +
        s.acked.count i = if i < s.published then 1 else 0
      rw [← hold, List.count_append]
      unfold places
      omega
    · intro i hi
      rcases List.mem_append.mp hi with hi | hi
      · exact h.refused i hi
      · exact h.under_lt hi
    · -- refused messages count on neither side
      have hsplit (xs : List ℕ) : xs.filter (fun i => decide (i ∉ s.nacked ++ s.under handle)) =
          (xs.filter fun i => decide (i ∉ s.nacked)).filter fun i => decide (i ∉ s.under handle) := by
        rw [List.filter_filter]
        refine List.filter_congr fun i _ => ?_
        simp [not_or,Bool.and_comm]
      have hunder : (s.under handle).filter (fun i => decide (i ∉ s.nacked ++ s.under handle)) = [] := by
        refine List.filter_eq_nil_iff.mpr fun i hi => ?_
        simp [hi]
      show (s.delivered.map Prod.fst ++ (s.ready ++ s.under handle)).filter
        (fun i => decide (i ∉ s.nacked ++ s.under handle)) =
        (List.range s.published).filter fun i => decide (i ∉ s.nacked ++ s.under handle)
      rw [← List.append_assoc, List.filter_append, hunder, List.append_nil, hsplit, hsplit, h.inOrder]

/-- After any operations. -/
def run (ops : List Op) : Custody := ops.foldl perform start

theorem run_kept (ops : List Op) : (run ops).Kept := by
  have hfrom (s : Custody) (h : s.Kept) : (ops.foldl Custody.perform s).Kept := by
    induction ops generalizing s with
    | nil => exact h
    | cons op rest ih => exact ih _ (h.perform op)
  exact hfrom start start_kept

/-- The deliveries of messages that are never refused are the first of these messages. -/
theorem Kept.delivered_inOrder (h : s.Kept) : (s.delivered.map Prod.fst).filter (fun i => i ∉ s.nacked) <+:
    (List.range s.published).filter fun i => i ∉ s.nacked := by
  rw [← h.inOrder, List.filter_append]
  exact List.prefix_append _ _

end Kept
end Custody
