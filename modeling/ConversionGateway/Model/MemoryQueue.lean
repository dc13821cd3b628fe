import Mathlib.Data.List.Nodup
import ConversionGateway.Model.Tables

/-! # The in-process queue

Messages wait under the number of the attempt that will deliver them. A delivery
is in flight from `receive` until it is acknowledged or refused.
-/
namespace ConversionGateway

/-- One received message and the handle that settles it. -/
structure Delivery where
  ackId : ℕ
  message : QueueMessage
  attempt : ℕ
deriving DecidableEq

/-- The ids that `uuid4` makes are all different; they are numbered here. -/
structure MemoryQueue where
  ready : List (QueueMessage × ℕ)
  inflight : List Delivery
  issued : ℕ
  below : ∀ d ∈ inflight, d.ackId < issued
  unique : (inflight.map Delivery.ackId).Nodup

namespace MemoryQueue

def empty : MemoryQueue := ⟨[],[],0,by simp,List.nodup_nil⟩

def publish (q : MemoryQueue) (message : QueueMessage) : MemoryQueue :=
  { q with ready := q.ready ++ [(message,1)] }

/-- The deliveries of a list of waiting messages. -/
def handOut (issued : ℕ) : List (QueueMessage × ℕ) → List Delivery
  | [] => []
  | (message,attempt) :: rest => ⟨issued,message,attempt⟩ :: handOut (issued + 1) rest

theorem handOut_range {n : ℕ} {waiting : List (QueueMessage × ℕ)} {d : Delivery}
    (h : d ∈ handOut n waiting) : n ≤ d.ackId ∧ d.ackId < n + waiting.length := by
  induction waiting generalizing n with
  | nil => cases h
  | cons w rest ih =>
    rw [List.length_cons]
    rcases List.mem_cons.mp h with rfl | h
    · exact ⟨Nat.le_refl _,by dsimp only; omega⟩
    · have hr := ih h
      omega

theorem handOut_nodup (n : ℕ) (waiting : List (QueueMessage × ℕ)) :
    ((handOut n waiting).map Delivery.ackId).Nodup := by
  induction waiting generalizing n with
  | nil => exact List.nodup_nil
  | cons w rest ih =>
    refine List.nodup_cons.mpr ⟨fun hm => ?_,ih (n + 1)⟩
    obtain ⟨d,hd,heq⟩ := List.mem_map.mp hm
    have hge : n + 1 ≤ d.ackId := (handOut_range hd).1
    have heq : d.ackId = n := heq
    omega

/-- `receive`: what is in the front of the queue goes out. -/
def receive (q : MemoryQueue) (maxMessages : ℕ) : List Delivery × MemoryQueue :=
  let deliveries := handOut q.issued (q.ready.take maxMessages)
  (deliveries,
    { ready := q.ready.drop maxMessages
      inflight := q.inflight ++ deliveries
      issued := q.issued + (q.ready.take maxMessages).length
      below := by
        intro d hd
        rcases List.mem_append.mp hd with hd | hd
        · exact Nat.lt_of_lt_of_le (q.below d hd) (Nat.le_add_right _ _)
        · exact (handOut_range hd).2
      unique := by
        rw [List.map_append]
        refine List.nodup_append.mpr ⟨q.unique,handOut_nodup _ _,?_⟩
        intro a ha b hb heq
        obtain ⟨x,hx,rfl⟩ := List.mem_map.mp ha
        obtain ⟨y,hy,rfl⟩ := List.mem_map.mp hb
        have hlt := q.below x hx
        have hge := (handOut_range hy).1
        omega })

/-- `self._inflight.pop(delivery.ack_id, None)` -/
def settle (q : MemoryQueue) (d : Delivery) : MemoryQueue where
  ready := q.ready
  inflight := q.inflight.filter fun x => x.ackId ≠ d.ackId
  issued := q.issued
  below := fun x hx => q.below x (List.mem_filter.mp hx).1
  unique := q.unique.sublist (List.filter_sublist.map _)

def ack (q : MemoryQueue) (d : Delivery) : MemoryQueue := q.settle d

def nack (q : MemoryQueue) (d : Delivery) : MemoryQueue :=
  match q.inflight.find? fun x => x.ackId = d.ackId with
  | none => q.settle d
  | some entry => { q.settle d with ready := q.ready ++ [(entry.message,entry.attempt + 1)] }

/-- The id is not in flight, and will not be given out again. -/
def Settled (q : MemoryQueue) (id : ℕ) : Prop := id < q.issued ∧ ∀ d ∈ q.inflight, d.ackId ≠ id

section Settled
variable {q : MemoryQueue} {d : Delivery} {id : ℕ}

theorem settle_settled (h : d.ackId < q.issued) : (q.settle d).Settled d.ackId :=
  ⟨h,fun x hx => by simpa using (List.mem_filter.mp hx).2⟩

theorem Settled.settle (h : q.Settled id) : (q.settle d).Settled id :=
  ⟨h.1,fun x hx => h.2 x (List.mem_filter.mp hx).1⟩

theorem Settled.nack (h : q.Settled id) : (q.nack d).Settled id := by
  unfold MemoryQueue.nack
  split
  · exact h.settle
  · exact ⟨h.1,(h.settle (d := d)).2⟩

theorem Settled.receive (h : q.Settled id) (maxMessages : ℕ) : (q.receive maxMessages).2.Settled id := by
  refine ⟨Nat.lt_of_lt_of_le h.1 (Nat.le_add_right _ _),fun x hx => ?_⟩
  rcases List.mem_append.mp hx with hx | hx
  · exact h.2 x hx
  · have hge := (handOut_range hx).1
    have hlt := h.1
    omega

/-- A refused delivery is back at the end of the queue, one attempt on. -/
theorem nack_inflight (h : d ∈ q.inflight) :
    (q.nack d).ready = q.ready ++ [(d.message,d.attempt + 1)] ∧
    (q.nack d).inflight = (q.settle d).inflight := by
  have hfind : (q.inflight.find? fun x => x.ackId = d.ackId) = some d := by
    cases hf : q.inflight.find? fun x => x.ackId = d.ackId with
    | none => simpa using List.find?_eq_none.mp hf d h
    | some x =>
      have hx : x.ackId = d.ackId := by simpa using List.find?_some hf
      rw [List.inj_on_of_nodup_map q.unique (List.mem_of_find?_eq_some hf) h hx]
  unfold nack
  rw [hfind]
  exact ⟨rfl,rfl⟩

end Settled
end MemoryQueue
end ConversionGateway
