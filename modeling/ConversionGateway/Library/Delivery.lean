import Mathlib.Data.List.Nodup

/-! # At-least-once delivery

A queue of numbered messages. A message that is in flight can become ready
again, by a negative acknowledgement or because its deadline passed, and leaves
the queue only when it is acknowledged.
-/
namespace Delivery
variable {M : Type*}

structure Envelope (M : Type*) where
  id : ℕ
  message : M
  inflight : Bool

/-- The messages that were published and not acknowledged. -/
structure Queue (M : Type*) where
  envelopes : List (Envelope M)
  next : ℕ
  below : ∀ e ∈ envelopes, e.id < next
  unique : (envelopes.map Envelope.id).Nodup

namespace Queue

def empty : Queue M := ⟨[],0,by simp,List.nodup_nil⟩

/-- The message is in the queue under the number, ready or in flight. -/
def Holds (q : Queue M) (id : ℕ) (m : M) : Prop := ∃ e ∈ q.envelopes, e.id = id ∧ e.message = m

theorem Holds.lt_next {q : Queue M} {id : ℕ} {m : M} (h : q.Holds id m) : id < q.next := by
  obtain ⟨e,he,rfl,_⟩ := h
  exact q.below e he

theorem Holds.unique {q : Queue M} {id : ℕ} {m n : M} (hm : q.Holds id m) (hn : q.Holds id n) :
    m = n := by
  obtain ⟨d,hd,rfl,rfl⟩ := hm
  obtain ⟨e,he,hid,rfl⟩ := hn
  rw [List.inj_on_of_nodup_map q.unique he hd hid]

def publish (q : Queue M) (m : M) : Queue M where
  envelopes := q.envelopes ++ [⟨q.next,m,false⟩]
  next := q.next + 1
  below := by
    intro e he
    rcases List.mem_append.mp he with he | he
    · exact Nat.lt_succ_of_lt (q.below e he)
    · rw [List.mem_singleton.mp he]
      exact Nat.lt_succ_self _
  unique := by
    rw [List.map_append, List.nodup_append]
    refine ⟨q.unique,by simp,?_⟩
    simpa using fun e he => Nat.ne_of_lt (q.below e he)

theorem holds_publish {q : Queue M} {m n : M} {id : ℕ} :
    (q.publish m).Holds id n ↔ q.Holds id n ∨ (id = q.next ∧ n = m) := by
  simp only [Holds, publish, List.mem_append, List.mem_singleton, or_and_right, exists_or,
    exists_eq_left]
  exact or_congr_right ⟨fun ⟨h₁,h₂⟩ => ⟨h₁.symm,h₂.symm⟩,fun ⟨h₁,h₂⟩ => ⟨h₁.symm,h₂.symm⟩⟩

@[simp] theorem publish_next (q : Queue M) (m : M) : (q.publish m).next = q.next + 1 := rfl

/-- Change whether a message is in flight. -/
def mark (q : Queue M) (id : ℕ) (inflight : Bool) : Queue M where
  envelopes := q.envelopes.map fun e => if e.id = id then { e with inflight := inflight } else e
  next := q.next
  below := by
    intro e he
    obtain ⟨x,hx,rfl⟩ := List.mem_map.mp he
    have hlt := q.below x hx
    split <;> exact hlt
  unique := by
    have h : Envelope.id ∘ (fun e : Envelope M =>
        if e.id = id then { e with inflight := inflight } else e) = Envelope.id := by
      funext e
      simp only [Function.comp_apply]
      split <;> rfl
    rw [List.map_map, h]
    exact q.unique

theorem holds_mark {q : Queue M} {id j : ℕ} {inflight : Bool} {m : M} :
    (q.mark id inflight).Holds j m ↔ q.Holds j m := by
  simp only [Holds, mark, List.mem_map]
  constructor
  · rintro ⟨_,⟨e,he,rfl⟩,hid,hm⟩
    refine ⟨e,he,?_⟩
    split at hid <;> simp_all
  · rintro ⟨e,he,hid,hm⟩
    refine ⟨_,⟨e,he,rfl⟩,?_⟩
    split <;> exact ⟨hid,hm⟩

@[simp] theorem mark_next (q : Queue M) (id : ℕ) (inflight : Bool) : (q.mark id inflight).next = q.next :=
  rfl

/-- Hand out a message that is ready. -/
def receive (q : Queue M) (id : ℕ) : Option (M × Queue M) :=
  (q.envelopes.find? fun e => e.id = id && !e.inflight).map fun e => (e.message,q.mark id true)

theorem receive_eq {q q' : Queue M} {id : ℕ} {m : M} (h : q.receive id = some (m,q')) :
    q.Holds id m ∧ q' = q.mark id true := by
  obtain ⟨e,he,heq⟩ := Option.map_eq_some_iff.mp h
  obtain ⟨rfl,rfl⟩ := Prod.mk.inj heq
  have hp := List.find?_some he
  simp only [Bool.and_eq_true, decide_eq_true_eq] at hp
  exact ⟨⟨e,List.mem_of_find?_eq_some he,hp.1,rfl⟩,rfl⟩

/-- The message is in the queue under the number and not in flight. -/
def Ready (q : Queue M) (id : ℕ) (m : M) : Prop := (⟨id,m,false⟩ : Envelope M) ∈ q.envelopes

theorem Ready.receive {q : Queue M} {id : ℕ} {m : M} (h : q.Ready id m) :
    q.receive id = some (m,q.mark id true) := by
  have hfind : q.envelopes.find? (fun e => e.id = id && !e.inflight) = some ⟨id,m,false⟩ := by
    cases hf : q.envelopes.find? (fun e => e.id = id && !e.inflight) with
    | none => simpa using List.find?_eq_none.mp hf _ h
    | some e =>
      have hp := List.find?_some hf
      simp only [Bool.and_eq_true, decide_eq_true_eq] at hp
      rw [List.inj_on_of_nodup_map q.unique (List.mem_of_find?_eq_some hf) h hp.1]
  rw [Queue.receive, hfind]
  rfl

theorem ready_publish (q : Queue M) (m : M) : (q.publish m).Ready q.next m :=
  List.mem_append_right _ (List.mem_singleton_self _)

theorem Ready.publish {q : Queue M} {id : ℕ} {m : M} (h : q.Ready id m) (n : M) : (q.publish n).Ready id m :=
  List.mem_append_left _ h

/-- Messages that are published one after the other are ready together. -/
theorem ready_foldl_publish {ms : List M} {m : M} (hm : m ∈ ms) (q : Queue M) :
    ∃ id, (ms.foldl publish q).Ready id m := by
  have hkeep (ms : List M) : ∀ (q : Queue M) (id : ℕ), q.Ready id m → (ms.foldl publish q).Ready id m := by
    induction ms with
    | nil => exact fun _ _ h => h
    | cons n rest ih => exact fun q id h => ih _ _ (h.publish n)
  induction ms generalizing q with
  | nil => cases hm
  | cons n rest ih =>
    rcases List.mem_cons.mp hm with rfl | hm
    · exact ⟨q.next,hkeep rest _ _ (ready_publish q m)⟩
    · exact ih hm _

/-- Make a message ready again. -/
def release (q : Queue M) (id : ℕ) : Queue M := q.mark id false

theorem holds_release {q : Queue M} {id j : ℕ} {m : M} : (q.release id).Holds j m ↔ q.Holds j m :=
  holds_mark

/-- Whatever is in the queue can be made ready. -/
theorem Holds.release {q : Queue M} {id : ℕ} {m : M} (h : q.Holds id m) : (q.release id).Ready id m := by
  obtain ⟨e,he,rfl,rfl⟩ := h
  exact List.mem_map.mpr ⟨e,he,if_pos rfl⟩

@[simp] theorem release_next (q : Queue M) (id : ℕ) : (q.release id).next = q.next := rfl

def ack (q : Queue M) (id : ℕ) : Queue M where
  envelopes := q.envelopes.filter fun e => e.id ≠ id
  next := q.next
  below := fun e he => q.below e (List.mem_filter.mp he).1
  unique := q.unique.sublist (List.Sublist.map _ List.filter_sublist)

theorem holds_ack {q : Queue M} {id j : ℕ} {m : M} :
    (q.ack id).Holds j m ↔ q.Holds j m ∧ j ≠ id := by
  simp only [Holds, ack, List.mem_filter, decide_eq_true_eq]
  constructor
  · rintro ⟨e,⟨he,hne⟩,rfl,rfl⟩
    exact ⟨⟨e,he,rfl,rfl⟩,hne⟩
  · rintro ⟨⟨e,he,rfl,rfl⟩,hne⟩
    exact ⟨e,⟨he,hne⟩,rfl,rfl⟩

@[simp] theorem ack_next (q : Queue M) (id : ℕ) : (q.ack id).next = q.next := rfl

end Queue
end Delivery
