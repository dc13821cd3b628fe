import ConversionGateway.Lifecycle.Operations

/-! # Stamps

An operation that takes one time writes it wherever it writes a time: on the
transitions it adds, on the attempts it counts and on the record it files.
-/
namespace ConversionGateway
open Relational EventStatus

/-- The way into the queue that takes no reason. -/
def EventTransition.FirstQueue (t : EventTransition) : Prop :=
  t.fromStatus = some validated ∧ t.toStatus = queued

/-- An event enters QUEUED for the first time, or comes back from the dead-letter store. -/
def EventTransition.Queues (t : EventTransition) : Prop :=
  t.toStatus = queued → t.FirstQueue ∧ t.reason = none ∨ t.fromStatus = some deadLettered

/-- Every transition of the event is stamped no later than `now`. -/
def Ledger.Until (db : Ledger) (k : String) (now : Time) : Prop :=
  ∀ t ∈ db.listTransitions k, t.occurredAt ≤ now

/-- A step that adds transitions of one event only, all stamped `now`, and whose
attempts and records are dated `now`. -/
structure Ledger.Adds (k : String) (now : Time) (db db' : Ledger) : Prop where
  transitions : ∃ new, db'.transitions.rows = db.transitions.rows ++ new ∧
    ∀ t ∈ new, t.eventId = k ∧ t.occurredAt = now ∧ t.Queues
  attempts : ∀ j x a, db'.getEvent j = some x → x.lastAttemptAt = some a →
    a = now ∨ ∃ y, db.getEvent j = some y ∧ y.lastAttemptAt = some a
  deadLetters : ∀ d ∈ db'.deadLetters.rows, d.deadLetteredAt = now ∨
    ∃ d₀ ∈ db.deadLetters.rows, d₀.deadLetteredAt = d.deadLetteredAt ∧ d₀.attemptHistory = d.attemptHistory

namespace Ledger

section Adds
variable {db db' : Ledger} {k : String} {now : Time} {e e' : Event} {reason : Option String}

theorem Adds.trail (h : Adds k now db db') (j : String) :
    ∃ new, db'.listTransitions j = db.listTransitions j ++ new ∧
      ∀ t ∈ new, j = k ∧ t.occurredAt = now ∧ t.Queues := by
  obtain ⟨new,hrows,hnew⟩ := h.transitions
  refine ⟨new.filter fun t => t.eventId = j,?_,fun t ht => ?_⟩
  · unfold listTransitions
    rw [hrows, List.filter_append]
  · obtain ⟨hmem,hj⟩ := List.mem_filter.mp ht
    obtain ⟨hk,hrest⟩ := hnew t hmem
    exact ⟨(by simpa using hj : t.eventId = j).symm.trans hk,hrest⟩

/-- What holds of the trail and of the new transitions holds of the new trail. -/
theorem Adds.forall_trail (h : Adds k now db db') {j : String} {P : EventTransition → Prop}
    (hold : ∀ t ∈ db.listTransitions j, P t)
    (hnew : ∀ t : EventTransition, j = k → t.occurredAt = now → t.Queues → P t) :
    ∀ t ∈ db'.listTransitions j, P t := by
  obtain ⟨new,heq,hadded⟩ := h.trail j
  intro t ht
  rw [heq] at ht
  rcases List.mem_append.mp ht with ht | ht
  · exact hold t ht
  · obtain ⟨hj,hat,hq⟩ := hadded t ht
    exact hnew t hj hat hq

theorem Adds.until (h : Adds k now db db') (hu : db.Until k now) : db'.Until k now :=
  h.forall_trail hu fun _ _ hat _ => le_of_eq hat

theorem Adds.sorted (h : Adds k now db db') (hu : db.Until k now) (j : String)
    (hs : (db.listTransitions j).Pairwise fun a b => a.occurredAt ≤ b.occurredAt) :
    (db'.listTransitions j).Pairwise fun a b => a.occurredAt ≤ b.occurredAt := by
  obtain ⟨new,heq,hnew⟩ := h.trail j
  rw [heq]
  refine List.pairwise_append.mpr ⟨hs,List.pairwise_of_forall_mem_list fun a ha b hb => ?_,fun a ha b hb => ?_⟩
  · rw [(hnew a ha).2.1, (hnew b hb).2.1]
  · obtain ⟨rfl,hb,_⟩ := hnew b hb
    rw [hb]
    exact hu a ha

/-- The one transition that a recorded change adds is the one that was announced. -/
theorem Adds.single (h : Adds k now db db') {t : EventTransition}
    (ht : db'.transitions.rows = db.transitions.rows ++ [t]) : t.eventId = k ∧ t.occurredAt = now := by
  obtain ⟨new,hrows,hnew⟩ := h.transitions
  have heq : [t] = new := List.append_cancel_left (ht.symm.trans hrows)
  obtain ⟨hk,hnow,_⟩ := hnew t (heq ▸ List.mem_singleton_self t)
  exact ⟨hk,hnow⟩

theorem adds_enter (now : Time) (hnew : db.events.get e.eventId = none) (hlast : e.lastAttemptAt = none) :
    Adds e.eventId now db (db.enter e hnew now) := by
  refine ⟨⟨_,rfl,fun t ht => ?_⟩,fun j x a hx ha => ?_,fun d hd => Or.inr ⟨d,hd,rfl,rfl⟩⟩
  · obtain rfl := List.mem_singleton.mp ht
    exact ⟨rfl,rfl,by simp [EventTransition.Queues]⟩
  · rw [enter_getEvent] at hx
    split at hx
    · cases hx
      rw [hlast] at ha
      cases ha
    · exact Or.inr ⟨x,hx,ha⟩

theorem adds_record (e' : Event) (reason : Option String) (now : Time) (he : db.getEvent e.eventId = some e)
    (hk : e'.eventId = e.eventId)
    (hq : e'.status = queued → e.status = validated ∧ reason = none ∨ e.status = deadLettered)
    (hlast : ∀ a ∈ e'.lastAttemptAt, a = now ∨ e.lastAttemptAt = some a) :
    Adds e.eventId now db (db.record e e' reason now) := by
  refine ⟨⟨_,rfl,fun t ht => ?_⟩,fun j x a hx ha => ?_,fun d hd => Or.inr ⟨d,hd,rfl,rfl⟩⟩
  · obtain rfl := List.mem_singleton.mp ht
    refine ⟨rfl,rfl,fun hto => ?_⟩
    rcases hq hto with ⟨hs,hr⟩ | hs
    · exact Or.inl ⟨⟨congrArg some hs,hto⟩,hr⟩
    · exact Or.inr (congrArg some hs)
  · rw [record_getEvent he hk] at hx
    split at hx
    · next heq =>
      cases hx
      subst heq
      rcases hlast a ha with hnow | hold
      · exact Or.inl hnow
      · exact Or.inr ⟨e,he,hold⟩
    · exact Or.inr ⟨x,hx,ha⟩

/-- A move that leaves the attempts alone. -/
theorem adds_moved {dest : EventStatus} (reason : Option String) (now : Time)
    (he : db.getEvent e.eventId = some e) (hq : dest = queued → e.status = validated ∧ reason = none) :
    Adds e.eventId now db (db.record e (e.moved dest reason) reason now) :=
  adds_record _ reason now he (e.moved_eventId dest reason) (fun hto => Or.inl (hq hto))
    fun _ ha => Or.inr ha

theorem adds_labelled (now : Time) (he : db.getEvent e.eventId = some e) (c : Option String) :
    Adds e.eventId now db (db.putEvent (e.labelled c)) := by
  refine ⟨⟨[],(List.append_nil _).symm,by simp⟩,fun j x a hx ha => ?_,fun d hd => Or.inr ⟨d,hd,rfl,rfl⟩⟩
  rw [putEvent_getEvent he (e.labelled_eventId c)] at hx
  split at hx
  · next heq =>
    cases hx
    subst heq
    exact Or.inr ⟨e,he,ha⟩
  · exact Or.inr ⟨x,hx,ha⟩

theorem Adds.addDeadLetter (h : Adds k now db db') {letter : DeadLetter}
    (hid : letter.id = db'.deadLetters.next) (hat : letter.deadLetteredAt = now) :
    Adds k now db (db'.addDeadLetter letter hid) := by
  refine ⟨h.transitions,h.attempts,fun d hd => ?_⟩
  rcases List.mem_append.mp hd with hd | hd
  · exact h.deadLetters d hd
  · rw [List.mem_singleton.mp hd]
    exact Or.inl hat

theorem Adds.putDeadLetter (h : Adds k now db db') {letter : DeadLetter}
    (hl : db'.getDeadLetter letter.id = some letter) (at' : Time) :
    Adds k now db (db'.putDeadLetter (letter.replayed at')) := by
  refine ⟨h.transitions,h.attempts,fun d hd => ?_⟩
  rcases Journal.mem_put.mp hd with ⟨hd,_⟩ | ⟨rfl,_⟩
  · exact h.deadLetters d hd
  · exact h.deadLetters letter (Journal.mem_of_get hl)

end Adds
end Ledger
end ConversionGateway
