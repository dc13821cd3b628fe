import ConversionGateway.Library.Custody
import ConversionGateway.Model.MemoryQueue

/-! # What becomes of a queued message

The operations of a client in any order, with handles that may be stale, against the
custody of the messages: the queue holds those that wait and those in flight, under
attempts that count their refusals.
-/
namespace ConversionGateway

inductive QueueOp
  | publish (message : QueueMessage)
  | receive (maxMessages : ℕ)
  | ack (delivery : Delivery)
  | nack (delivery : Delivery)

namespace QueueOp

def published : QueueOp → List QueueMessage
  | publish message => [message]
  | _ => []

def custody : QueueOp → Custody.Op
  | publish _ => .publish
  | receive maxMessages => .receive maxMessages
  | ack d => .ack d.ackId
  | nack d => .nack d.ackId

end QueueOp

/-- The messages of all publications, in order. -/
def publications (ops : List QueueOp) : List QueueMessage := ops.flatMap QueueOp.published

/-- What became of them. -/
def history (ops : List QueueOp) : Custody := Custody.run (ops.map QueueOp.custody)

namespace MemoryQueue

/-- The deliveries of an operation, and the queue after it. -/
def perform (q : MemoryQueue) : QueueOp → List Delivery × MemoryQueue
  | .publish message => ([],q.publish message)
  | .receive maxMessages => q.receive maxMessages
  | .ack d => ([],q.ack d)
  | .nack d => ([],q.nack d)

/-- All deliveries of a sequence of operations, and the queue after it. -/
def run (q : MemoryQueue) : List QueueOp → List Delivery × MemoryQueue
  | [] => ([],q)
  | op :: rest => ((q.perform op).1 ++ ((q.perform op).2.run rest).1,((q.perform op).2.run rest).2)

/-- The delivery hands out a message, with an attempt for each refusal it had and one more. -/
def Hands (messages : List QueueMessage) (d : Delivery) (p : ℕ × ℕ) : Prop :=
  messages[p.1]? = some d.message ∧ d.attempt = 1 + p.2

/-- The queue holds what waits and what is in flight. -/
structure Tracks (messages : List QueueMessage) (q : MemoryQueue) (s : Custody) : Prop where
  length : messages.length = s.published
  issued : q.issued = s.issued
  ready : List.Forall₂ (fun w i => messages[i]? = some w.1 ∧ w.2 = 1 + s.nacked.count i) q.ready s.ready
  inflight : List.Forall₂ (fun d p => d.ackId = p.1 ∧ Hands messages d (p.2,s.nacked.count p.2)) q.inflight s.inflight

section Steps
variable {messages : List QueueMessage} {q : MemoryQueue} {s : Custody} {d : Delivery}

theorem Hands.append {p : ℕ × ℕ} (h : Hands messages d p) (more : List QueueMessage) : Hands (messages ++ more) d p := by
  refine ⟨?_,h.2⟩
  obtain ⟨hlt,_⟩ := List.getElem?_eq_some_iff.mp h.1
  rw [List.getElem?_append_left hlt]
  exact h.1

theorem handOut_hands (issued : ℕ) {waiting : List (QueueMessage × ℕ)} {out : List ℕ}
    (h : List.Forall₂ (fun w i => messages[i]? = some w.1 ∧ w.2 = 1 + s.nacked.count i) waiting out) :
    List.Forall₂ (fun d p => d.ackId = p.1 ∧ Hands messages d (p.2,s.nacked.count p.2))
      (handOut issued waiting) (Custody.handOut issued out) ∧
    List.Forall₂ (Hands messages) (handOut issued waiting) (out.map fun i => (i,s.nacked.count i)) := by
  induction h generalizing issued with
  | nil => exact ⟨.nil,.nil⟩
  | @cons w i waiting out hw _ ih =>
    obtain ⟨htags,hhands⟩ := ih (issued + 1)
    exact ⟨.cons ⟨rfl,hw⟩ htags,.cons hw hhands⟩

theorem forall₂_of_mem {α β : Type*} {R S : α → β → Prop} {xs : List α} {ys : List β} (h : List.Forall₂ R xs ys)
    (himp : ∀ a, ∀ b ∈ ys, R a b → S a b) : List.Forall₂ S xs ys := by
  induction h with
  | nil => exact .nil
  | @cons a b xs ys hab _ ih =>
    exact .cons (himp a b List.mem_cons_self hab) (ih fun a b hb => himp a b (List.mem_cons_of_mem _ hb))

theorem Tracks.publish (h : Tracks messages q s) (hs : s.Kept) (m : QueueMessage) :
    Tracks (messages ++ [m]) (q.publish m) (s.perform .publish) := by
  have hready : List.Forall₂ (fun w i => (messages ++ [m])[i]? = some w.1 ∧ w.2 = 1 + s.nacked.count i)
      q.ready s.ready := by
    refine h.ready.imp ?_
    intro w i hw
    exact ⟨(Hands.append (d := ⟨0,w.1,w.2⟩) (p := (i,s.nacked.count i)) hw [m]).1,hw.2⟩
  have hnew : s.nacked.count s.published = 0 :=
    List.count_eq_zero_of_not_mem fun hm => Nat.lt_irrefl _ (hs.refused _ hm)
  refine ⟨?_,h.issued,?_,h.inflight.imp fun d p hp => ⟨hp.1,hp.2.append [m]⟩⟩
  · show (messages ++ [m]).length = s.published + 1
    rw [List.length_append, h.length]
    rfl
  · refine List.rel_append hready (.cons ⟨?_,?_⟩ .nil)
    · rw [← h.length, List.getElem?_concat_length]
    · show 1 = 1 + s.nacked.count s.published
      rw [hnew]

theorem Tracks.receive (h : Tracks messages q s) (n : ℕ) :
    Tracks messages (q.receive n).2 (s.perform (.receive n)) ∧
    List.Forall₂ (Hands messages) (q.receive n).1 ((s.ready.take n).map fun i => (i,s.nacked.count i)) := by
  obtain ⟨htags,hhands⟩ := handOut_hands q.issued (List.forall₂_take n h.ready)
  refine ⟨⟨h.length,?_,List.forall₂_drop n h.ready,?_⟩,hhands⟩
  · show q.issued + _ = s.issued + _
    rw [h.issued, (List.forall₂_take n h.ready).length_eq]
  · rw [h.issued] at htags
    refine List.rel_append h.inflight ?_
    show List.Forall₂ _ (handOut q.issued _) _
    rw [h.issued]
    exact htags

/-- What stays in flight when a handle is settled. -/
theorem Tracks.settle (h : Tracks messages q s) (d : Delivery) :
    List.Forall₂ (fun d p => d.ackId = p.1 ∧ Hands messages d (p.2,s.nacked.count p.2))
      (q.settle d).inflight (s.inflight.filter fun p => p.1 ≠ d.ackId) := by
  refine List.rel_filter ?_ h.inflight
  intro x p hp
  simp [hp.1]

theorem Tracks.ack (h : Tracks messages q s) (d : Delivery) :
    Tracks messages (q.ack d) (s.perform (.ack d.ackId)) := ⟨h.length,h.issued,h.ready,h.settle d⟩

/-- The messages under the handle of a delivery. -/
theorem Tracks.under (h : Tracks messages q s) (d : Delivery) :
    List.Forall₂ (fun d i => Hands messages d (i,s.nacked.count i))
      (q.inflight.filter fun x => x.ackId = d.ackId) (s.under d.ackId) := by
  rw [Custody.under, List.forall₂_map_right_iff]
  refine (List.rel_filter ?_ h.inflight).imp fun _ _ hp => hp.2
  intro x p hp
  simp [hp.1]

/-- The only delivery under its handle. -/
theorem filter_ackId (q : MemoryQueue) (d : Delivery) :
    (q.inflight.filter fun x => x.ackId = d.ackId) = (q.inflight.find? fun x => x.ackId = d.ackId).toList := by
  have hunique := q.unique
  generalize q.inflight = inflight at hunique
  induction inflight with
  | nil => rfl
  | cons x rest ih =>
    obtain ⟨hx,hrest⟩ := List.nodup_cons.mp hunique
    by_cases hid : x.ackId = d.ackId
    · have hnone : (rest.filter fun x => x.ackId = d.ackId) = [] := by
        refine List.filter_eq_nil_iff.mpr fun y hy => ?_
        rw [decide_eq_true_eq, ← hid]
        exact fun heq => hx (heq ▸ List.mem_map_of_mem hy)
      rw [List.filter_cons_of_pos (by simpa using hid), List.find?_cons_of_pos (by simpa using hid), hnone]
      rfl
    · rw [List.filter_cons_of_neg (by simpa using hid), List.find?_cons_of_neg (by simpa using hid)]
      exact ih hrest

theorem nack_ready (q : MemoryQueue) (d : Delivery) : (q.nack d).ready = q.ready ++
    (q.inflight.filter fun x => x.ackId = d.ackId).map fun x => (x.message,x.attempt + 1) := by
  rw [filter_ackId]
  unfold nack
  cases q.inflight.find? fun x => x.ackId = d.ackId with
  | none => exact (List.append_nil _).symm
  | some entry => rfl

theorem nack_rest (q : MemoryQueue) (d : Delivery) :
    (q.nack d).inflight = (q.settle d).inflight ∧ (q.nack d).issued = q.issued := by
  unfold nack
  split <;> exact ⟨rfl,rfl⟩

theorem Tracks.nack (h : Tracks messages q s) (hs : s.Kept) (d : Delivery) :
    Tracks messages (q.nack d) (s.perform (.nack d.ackId)) := by
  have hcount (i : ℕ) (hi : i ∉ s.under d.ackId) : (s.nacked ++ s.under d.ackId).count i = s.nacked.count i := by
    rw [List.count_append, List.count_eq_zero_of_not_mem hi, Nat.add_zero]
  -- a refused message is in no other place
  have honce (i : ℕ) : s.ready.count i + (s.under d.ackId).count i +
      ((s.inflight.filter fun p => p.1 ≠ d.ackId).map Prod.snd).count i ≤ 1 := by
    have hplaces := hs.once i
    have hunder := s.under_count d.ackId i
    unfold Custody.places at hplaces
    omega
  obtain ⟨hinflight,hissued⟩ := nack_rest q d
  refine ⟨h.length,hissued.trans h.issued,?_,?_⟩
  · rw [nack_ready]
    refine List.rel_append (forall₂_of_mem h.ready ?_) ?_
    · intro w i hi hw
      show _ ∧ _ = 1 + (s.nacked ++ s.under d.ackId).count i
      have hnot : i ∉ s.under d.ackId := by
        intro hm
        have hready := List.count_pos_iff.mpr hi
        have hunder := List.count_pos_iff.mpr hm
        have hsum := honce i
        omega
      rw [hcount i hnot]
      exact hw
    · rw [List.forall₂_map_left_iff]
      refine forall₂_of_mem (h.under d) fun x i hi hx => ⟨hx.1,?_⟩
      show x.attempt + 1 = 1 + (s.nacked ++ s.under d.ackId).count i
      have hone : (s.under d.ackId).count i = 1 := by
        have hunder := List.count_pos_iff.mpr hi
        have hsum := honce i
        omega
      rw [List.count_append, hone, hx.2, Nat.add_assoc]
  · rw [hinflight]
    refine forall₂_of_mem (h.settle d) fun x p hp hx => ⟨hx.1,hx.2.1,?_⟩
    show x.attempt = 1 + (s.nacked ++ s.under d.ackId).count p.2
    have hnot : p.2 ∉ s.under d.ackId := by
      intro hm
      have hunder := List.count_pos_iff.mpr hm
      have hrest : 0 < ((s.inflight.filter fun p => p.1 ≠ d.ackId).map Prod.snd).count p.2 :=
        List.count_pos_iff.mpr (List.mem_map_of_mem hp)
      have hsum := honce p.2
      omega
    rw [hcount p.2 hnot]
    exact hx.2.2

/-- Every operation, and what it hands out. -/
theorem Tracks.perform (h : Tracks messages q s) (hs : s.Kept) (op : QueueOp) :
    Tracks (messages ++ op.published) (q.perform op).2 (s.perform op.custody) ∧
    ∃ new, (s.perform op.custody).delivered = s.delivered ++ new ∧
      List.Forall₂ (Hands messages) (q.perform op).1 new := by
  cases op with
  | publish m => exact ⟨h.publish hs m,[],(List.append_nil _).symm,.nil⟩
  | receive n =>
    have hnone : messages ++ (QueueOp.receive n).published = messages := List.append_nil _
    rw [hnone]
    exact ⟨(h.receive n).1,_,rfl,(h.receive n).2⟩
  | ack d =>
    have hnone : messages ++ (QueueOp.ack d).published = messages := List.append_nil _
    rw [hnone]
    exact ⟨h.ack d,[],(List.append_nil _).symm,.nil⟩
  | nack d =>
    have hnone : messages ++ (QueueOp.nack d).published = messages := List.append_nil _
    rw [hnone]
    exact ⟨h.nack hs d,[],(List.append_nil _).symm,.nil⟩

/-- Every run, and all that it hands out. -/
theorem Tracks.run (h : Tracks messages q s) (hs : s.Kept) {log : List Delivery}
    (hlog : List.Forall₂ (Hands messages) log s.delivered) (ops : List QueueOp) :
    Tracks (messages ++ publications ops) (q.run ops).2 ((ops.map QueueOp.custody).foldl Custody.perform s) ∧
    List.Forall₂ (Hands (messages ++ publications ops)) (log ++ (q.run ops).1)
      ((ops.map QueueOp.custody).foldl Custody.perform s).delivered := by
  induction ops generalizing messages q s log with
  | nil =>
    simp only [publications, List.flatMap_nil, List.append_nil]
    exact ⟨h,by simpa [MemoryQueue.run] using hlog⟩
  | cons op rest ih =>
    obtain ⟨hnext,new,hnew,hhands⟩ := h.perform hs op
    have hlog' : List.Forall₂ (Hands (messages ++ op.published)) (log ++ (q.perform op).1)
        (s.perform op.custody).delivered := by
      rw [hnew]
      exact (List.rel_append hlog hhands).imp fun _ _ hp => hp.append _
    have hrest := ih hnext (hs.perform op.custody) hlog'
    rw [List.append_assoc, List.append_assoc] at hrest
    exact hrest

/-- A handle that is not in flight settles nothing. -/
theorem settle_stale (h : ∀ x ∈ q.inflight, x.ackId ≠ d.ackId) : q.settle d = q := by
  have hall : (q.inflight.filter fun x => x.ackId ≠ d.ackId) = q.inflight :=
    List.filter_eq_self.mpr fun x hx => by simpa using h x hx
  obtain ⟨ready,inflight,issued,below,unique⟩ := q
  simp only [settle, hall]

theorem nack_stale (h : ∀ x ∈ q.inflight, x.ackId ≠ d.ackId) : q.nack d = q := by
  have hnone : (q.inflight.find? fun x => x.ackId = d.ackId) = none :=
    List.find?_eq_none.mpr fun x hx => by simpa using h x hx
  unfold nack
  rw [hnone]
  exact settle_stale h

end Steps

/-- After any operations every published message waits, is in flight or was acknowledged, and
only one of these; the queue holds those that wait and those in flight, and has handed out
what was delivered, under attempts that count the refusals; a stale handle changes nothing;
and messages that were never refused were delivered in the order of publication. -/
theorem run_custody (ops : List QueueOp) :
    Tracks (publications ops) (empty.run ops).2 (history ops) ∧
    (∀ i, (history ops).places i = if i < (publications ops).length then 1 else 0) ∧
    List.Forall₂ (Hands (publications ops)) (empty.run ops).1 (history ops).delivered ∧
    (∀ d, (∀ x ∈ (empty.run ops).2.inflight, x.ackId ≠ d.ackId) →
      (empty.run ops).2.ack d = (empty.run ops).2 ∧ (empty.run ops).2.nack d = (empty.run ops).2) ∧
    ((history ops).delivered.map Prod.fst).filter (fun i => i ∉ (history ops).nacked) <+:
      (List.range (publications ops).length).filter fun i => i ∉ (history ops).nacked := by
  have hstart : Tracks [] empty Custody.start := ⟨rfl,rfl,.nil,.nil⟩
  obtain ⟨htracks,hlog⟩ := hstart.run Custody.start_kept .nil ops
  have hkept : (history ops).Kept := Custody.run_kept _
  rw [List.nil_append] at htracks
  rw [List.nil_append, List.nil_append] at hlog
  have hlength : (publications ops).length = (history ops).published := htracks.length
  refine ⟨htracks,?_,hlog,fun d hd => ⟨settle_stale hd,nack_stale hd⟩,?_⟩
  · intro i
    rw [hlength]
    exact hkept.conserved i
  · rw [hlength]
    exact hkept.delivered_inOrder

end MemoryQueue
end ConversionGateway
