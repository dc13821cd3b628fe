import ConversionGateway.Lifecycle.DeadLetterHistory

/-! # Transitions in time order

What keeps the trail in time order: a transaction whose clock reading is no earlier
than the trails of the events it changes. `Timed` is the order together with what
it takes to find out, from a row and its records alone, how late the trail is.
-/
namespace ConversionGateway
open Relational Relation EventStatus

/-- In id order the transitions of every event are in time order, and no record is
older than the transitions in its history. -/
structure Ledger.InTimeOrder (db : Ledger) : Prop where
  transitions : ∀ k, (db.listTransitions k).Pairwise fun a b => a.occurredAt ≤ b.occurredAt
  deadLetters : ∀ d ∈ db.deadLetters.rows, ∀ h ∈ d.attemptHistory, h.occurredAt ≤ d.deadLetteredAt

/-- In a trail that is in order, the last transition is the latest. -/
theorem Ledger.InTimeOrder.until_last {db : Ledger} {k : String} {now : Time} {t : EventTransition}
    (h : db.InTimeOrder) (hlast : (db.listTransitions k).getLast? = some t) (hnow : t.occurredAt ≤ now) :
    db.Until k now := by
  obtain ⟨front,hfront⟩ := List.getLast?_eq_some_iff.mp hlast
  have hsorted := h.transitions k
  intro x hx
  rw [hfront] at hx hsorted
  refine le_trans ?_ hnow
  rcases List.mem_append.mp hx with hx | hx
  · exact (List.pairwise_append.mp hsorted).2.2 x hx t (List.mem_singleton_self t)
  · rw [List.mem_singleton.mp hx]

structure Ledger.Timed (db : Ledger) : Prop where
  trails : Trails db
  books : Books db
  order : db.InTimeOrder
  /-- The last attempt of an event that is being uploaded is its last transition. -/
  attempts : ∀ k e, db.getEvent k = some e → e.status = uploading →
    ∃ last, e.lastAttemptAt = some last ∧ db.Until k last
  /-- The open record of a dead-lettered event has its whole trail. -/
  buried : ∀ k e, db.getEvent k = some e → e.status = deadLettered → ∀ d ∈ db.letters k, ¬ d.Replayed →
    d.attemptHistory = (db.listTransitions k).map EventTransition.historyEntry
  queues : ∀ k, ∀ t ∈ db.listTransitions k, t.Queues

theorem Ledger.Timed.empty : Ledger.empty.Timed where
  trails := .empty
  books := .empty
  order := ⟨fun _ => List.Pairwise.nil,fun d hd => (by cases hd)⟩
  attempts k e he := by cases he
  buried k e he := by cases he
  queues k t ht := by cases ht

section Edits
variable {rt : Runtime} {db db' : Ledger} {k : String} {now : Time}

/-- A record is one that was there, or has the whole trail of the event that the edit
added a transition to. -/
theorem Edit.history (he : Edit rt db db') : ∀ d ∈ db'.deadLetters.rows,
    (∃ d₀ ∈ db.deadLetters.rows, d₀.deadLetteredAt = d.deadLetteredAt ∧ d₀.attemptHistory = d.attemptHistory) ∨
    d.attemptHistory = (db'.listTransitions d.eventId).map EventTransition.historyEntry ∧
      ∃ t, db'.transitions.rows = db.transitions.rows ++ [t] ∧ t.eventId = d.eventId := by
  intro d hd
  cases he with
  | create | label | move | process | attempt | reclaim | skip => exact Or.inl ⟨d,hd,rfl,rfl⟩
  | bury he ha hid hl =>
    rcases List.mem_append.mp hd with hd | hd
    · exact Or.inl ⟨d,hd,rfl,rfl⟩
    · obtain rfl := List.mem_singleton.mp hd
      refine Or.inr ⟨?_,_,rfl,hl.eventId.symm⟩
      rw [hl.eventId]
      exact hl.history
  | revive he hd' hl hk ho now =>
    rcases Journal.mem_put.mp hd with ⟨hd,_⟩ | ⟨rfl,_⟩
    · exact Or.inl ⟨d,hd,rfl,rfl⟩
    · exact Or.inl ⟨_,Journal.mem_of_get hl,rfl,rfl⟩

section Records
variable {e e' x : Event} {reason : Option String} {at' : Time} {j : String}

theorem Ledger.Timed.attempts_record (h : db.Timed) (he : db.getEvent e.eventId = some e)
    (hkey : e'.eventId = e.eventId) (hu : db.Until e.eventId at')
    (hup : e'.status = uploading → e'.lastAttemptAt = some at')
    (hx : (db.record e e' reason at').getEvent j = some x) (hs : x.status = uploading) :
    ∃ last, x.lastAttemptAt = some last ∧ (db.record e e' reason at').Until j last := by
  rw [Ledger.record_getEvent he hkey] at hx
  unfold Ledger.Until
  rw [Ledger.record_listTransitions]
  split at hx
  · next heq =>
    cases hx
    subst heq
    refine ⟨at',hup hs,fun t ht => ?_⟩
    rw [if_pos rfl] at ht
    rcases List.mem_append.mp ht with ht | ht
    · exact hu t ht
    · rw [List.mem_singleton.mp ht]
  · next hne =>
    rw [if_neg (Ne.symm hne), List.append_nil]
    exact h.attempts j x hx hs

theorem Ledger.Timed.buried_record (h : db.Timed) (he : db.getEvent e.eventId = some e)
    (hx : (db.record e e' reason at').getEvent j = some x) (hkey : e'.eventId = e.eventId)
    (hs' : e'.status ≠ deadLettered) (hs : x.status = deadLettered) {d : DeadLetter}
    (hd : d ∈ db.letters j) (ho : ¬ d.Replayed) :
    d.attemptHistory = ((db.record e e' reason at').listTransitions j).map EventTransition.historyEntry := by
  rw [Ledger.record_getEvent he hkey] at hx
  rw [Ledger.record_listTransitions]
  split at hx
  · cases hx
    exact absurd hs hs'
  · next hne =>
    rw [if_neg (Ne.symm hne), List.append_nil]
    exact h.buried j x hx hs d hd ho

end Records

/-- The last attempt stays the last transition of an event that is being uploaded. -/
theorem Ledger.Timed.edit_attempts (h : db.Timed) (he : Edit rt db db') (ha : Adds k now db db')
    (hu : db.Until k now) : ∀ j x, db'.getEvent j = some x → x.status = uploading →
      ∃ last, x.lastAttemptAt = some last ∧ db'.Until j last := by
  intro j x hx hs
  cases he with
  | create hnew hc at' =>
    obtain ⟨rfl,rfl⟩ := ha.single rfl
    rw [Ledger.enter_getEvent] at hx
    unfold Until
    rw [Ledger.enter_listTransitions]
    split at hx
    · cases hx
      rw [hc.status] at hs
      cases hs
    · next hne =>
      rw [if_neg (Ne.symm hne), List.append_nil]
      exact h.attempts j x hx hs
  | @label e he c =>
    rw [Ledger.putEvent_getEvent he (e.labelled_eventId c)] at hx
    split at hx
    · next heq =>
      cases hx
      subst heq
      exact h.attempts _ e he hs
    · exact h.attempts j x hx hs
  | move he hm reason at' =>
    obtain ⟨rfl,rfl⟩ := ha.single rfl
    refine h.attempts_record he rfl hu (fun hup => ?_) hx hs
    have hplain := hm.plain
    simp only [Event.moved] at hup
    rw [hup] at hplain
    simp at hplain
  | process he hq hg hm at' =>
    obtain ⟨rfl,rfl⟩ := ha.single rfl
    refine h.attempts_record he rfl hu (fun hup => ?_) hx hs
    simp [Event.processedWith,Event.moved] at hup
  | attempt he hal at' =>
    obtain ⟨rfl,rfl⟩ := ha.single rfl
    exact h.attempts_record he rfl hu (fun _ => rfl) hx hs
  | reclaim he hup at' =>
    obtain ⟨rfl,rfl⟩ := ha.single rfl
    exact h.attempts_record he rfl hu (fun _ => rfl) hx hs
  | bury he hal hid hl =>
    obtain ⟨rfl,rfl⟩ := ha.single rfl
    refine h.attempts_record he rfl hu (fun hup => ?_) hx hs
    simp [Event.moved] at hup
  | revive he hd hl hk ho at' =>
    obtain ⟨rfl,rfl⟩ := ha.single rfl
    refine h.attempts_record he rfl hu (fun hup => ?_) hx hs
    simp [Event.requeued,Event.moved] at hup
  | skip n m => exact h.attempts j x hx hs

/-- The open record keeps the whole trail. -/
theorem Ledger.Timed.edit_buried (h : db.Timed) (he : Edit rt db db') :
    ∀ j x, db'.getEvent j = some x → x.status = deadLettered → ∀ d ∈ db'.letters j, ¬ d.Replayed →
      d.attemptHistory = (db'.listTransitions j).map EventTransition.historyEntry := by
  intro j x hx hs d hd ho
  cases he with
  | create hnew hc at' =>
    rw [Ledger.enter_getEvent] at hx
    rw [Ledger.enter_listTransitions]
    split at hx
    · cases hx
      rw [hc.status] at hs
      cases hs
    · next hne =>
      rw [if_neg (Ne.symm hne), List.append_nil]
      exact h.buried j x hx hs d hd ho
  | @label e he c =>
    rw [Ledger.putEvent_getEvent he (e.labelled_eventId c)] at hx
    split at hx
    · next heq =>
      cases hx
      subst heq
      exact h.buried _ e he hs d hd ho
    · exact h.buried j x hx hs d hd ho
  | move he hm reason at' =>
    refine h.buried_record he hx rfl (fun hs' => ?_) hs hd ho
    have hplain := hm.plain
    simp only [Event.moved] at hs'
    rw [hs'] at hplain
    simp at hplain
  | process he hq hg hm at' =>
    exact h.buried_record he hx rfl (by simp [Event.processedWith,Event.moved]) hs hd ho
  | attempt he hal at' =>
    exact h.buried_record he hx rfl (by simp [Event.attempted,Event.moved]) hs hd ho
  | reclaim he hup at' => exact h.buried_record he hx rfl (by simp [Event.attempted,hup]) hs hd ho
  | @bury e reason at' letter he hal hid hl =>
    have hadd : ((db.record e (e.moved .deadLettered (some reason)) (some reason) at').addDeadLetter
      letter hid).letters j = db.letters j ++ if letter.eventId = j then [letter] else [] :=
        letters_addDeadLetter hid j
    rw [hadd] at hd
    by_cases hj : letter.eventId = j
    · subst hj
      rw [if_pos rfl] at hd
      rcases List.mem_append.mp hd with hd | hd
      · -- before, the event was not dead-lettered, so its records were closed
        rw [hl.eventId] at hd
        refine absurd ((h.books.book _ e he).closed (fun hd' => ?_) d hd) ho
        rw [hd'] at hal
        exact EventStatus.not_allowed_self _ hal
      · rw [List.mem_singleton.mp hd, hl.eventId]
        exact hl.history
    · rw [if_neg hj, List.append_nil] at hd
      have hne : j ≠ e.eventId := fun heq => hj (hl.eventId.trans heq.symm)
      have hget : (db.record e (e.moved .deadLettered (some reason)) (some reason) at').getEvent j =
        db.getEvent j := (Ledger.record_getEvent he (e.moved_eventId _ _) j).trans (if_neg hne)
      have hx : db.getEvent j = some x := hget.symm.trans hx
      have htrail := h.buried j x hx hs d hd ho
      rw [htrail]
      refine congrArg _ (Eq.symm ?_)
      exact (Ledger.record_listTransitions j).trans (by rw [if_neg (Ne.symm hne), List.append_nil])
  | @revive e letter he hd' hl hk ho' at' =>
    have hput : ((db.record e (e.requeued letter) (some (replayedReason letter.id)) at').putDeadLetter
      (letter.replayed at')).letters j =
        (db.letters j).map fun y => if y.id = letter.id then letter.replayed at' else y :=
          letters_putDeadLetter (letter.replayed at') hl rfl j
    rw [hput] at hd
    obtain ⟨d₀,hd₀,rfl⟩ := List.mem_map.mp hd
    split at ho
    · exact absurd rfl ho
    · next hne =>
      rw [if_neg hne]
      exact h.buried_record he hx rfl (by simp [Event.requeued,Event.moved]) hs hd₀ ho
  | skip n m => exact h.buried j x hx hs d hd ho

/-- An edit that is stamped no earlier than the trail of its event. -/
theorem Ledger.Timed.edit (h : db.Timed) (he : Edit rt db db') (ha : Adds k now db db')
    (hu : db.Until k now) : db'.Timed where
  trails := h.trails.edit he
  books := h.books.edit h.trails he
  order := by
    refine ⟨fun j => ha.sorted hu j (h.order.transitions j),fun d hd => ?_⟩
    rcases he.history d hd with ⟨d₀,hd₀,hdate,hhistory⟩ | ⟨hhistory,t,hrows,hkey⟩
    · rw [← hdate, ← hhistory]
      exact h.order.deadLetters d₀ hd₀
    · rcases ha.deadLetters d hd with hdate | ⟨d₀,hd₀,hdate,hhistory⟩
      · intro entry hentry
        rw [hhistory, ← hkey, (ha.single hrows).1] at hentry
        obtain ⟨t',ht',rfl⟩ := List.mem_map.mp hentry
        rw [hdate]
        exact ha.until hu t' ht'
      · rw [← hdate, ← hhistory]
        exact h.order.deadLetters d₀ hd₀
  attempts := h.edit_attempts he ha hu
  buried := h.edit_buried he
  queues j := ha.forall_trail (h.queues j) fun _ _ _ hq => hq

end Edits

/-! ## Entries into the queue -/

section Queue
variable {db : Ledger} {k : String} {e : Event}

/-- An event enters the queue for the first time once. -/
theorem Trail.firstQueue {ts : List EventTransition} {s : EventStatus} {r : Option String}
    (h : Trail ts s r) : (ts.Pairwise fun a b => ¬ (a.FirstQueue ∧ b.FirstQueue)) ∧
      (s = received ∨ s = validated → ∀ t ∈ ts, ¬ t.FirstQueue) := by
  induction h with
  | created hf ht hr =>
    refine ⟨List.pairwise_singleton _ _,fun _ x hx hq => ?_⟩
    rw [List.mem_singleton.mp hx] at hq
    cases hf.symm.trans hq.1
  | @moved ts s r t h hf ha ih =>
    refine ⟨List.pairwise_append.mpr ⟨ih.1,List.pairwise_singleton _ _,?_⟩,fun hto x hx => ?_⟩
    · intro x hx y hy hboth
      rw [List.mem_singleton.mp hy] at hboth
      have hs : s = validated := Option.some.inj (hf.symm.trans hboth.2.1)
      exact ih.2 (Or.inr hs) x hx hboth.1
    · -- RECEIVED is never entered again, and VALIDATED from it alone
      have hs : s = received := by
        rcases hto with hto | hto <;> rw [hto] at ha <;> cases s <;> simp [allowedTransitions] at ha ⊢
      rcases List.mem_append.mp hx with hx | hx
      · exact ih.2 (Or.inl hs) x hx
      · rw [List.mem_singleton.mp hx]
        intro hq
        rw [hq.2] at hto
        simp at hto
  | @reclaimed ts r t h ht ih =>
    refine ⟨List.pairwise_append.mpr ⟨ih.1,List.pairwise_singleton _ _,?_⟩,by simp⟩
    intro x _ y hy hboth
    rw [List.mem_singleton.mp hy] at hboth
    cases ht.2.1.symm.trans hboth.2.2

/-- The replays of an event name different records. -/
theorem Book.replays_nodup {trail : List EventTransition} {letters : List DeadLetter} {s : EventStatus}
    (h : Book trail letters s) (hid : letters.Pairwise fun a b => a.id < b.id) :
    ((trail.filter fun t => t.IsReplay).map EventTransition.reason).Nodup := by
  rw [← h.replays]
  refine List.pairwise_map.mpr ((hid.filter _).imp fun hlt heq => ?_)
  exact absurd (replayedReason_injective (Option.some.inj heq)) (Nat.ne_of_lt hlt)

/-- No event enters the queue twice for the same reason. -/
theorem Ledger.Timed.queued_once (h : db.Timed) (he : db.getEvent k = some e) :
    (db.listTransitions k).Pairwise fun a b =>
      a.toStatus = queued → b.toStatus = queued → a.reason ≠ b.reason := by
  have hbook := h.books.book k e he
  have hreplays : (db.listTransitions k).Pairwise fun a b => a.IsReplay → b.IsReplay → a.reason ≠ b.reason := by
    have hnodup := hbook.replays_nodup (db.deadLetters.ordered.filter _)
    simpa using List.pairwise_filter.mp (List.pairwise_map.mp hnodup)
  have hreason (t : EventTransition) (ht : t ∈ db.listTransitions k) (hr : t.IsReplay) : t.reason ≠ none := by
    have hmem : t.reason ∈ ((db.listTransitions k).filter fun t => t.IsReplay).map EventTransition.reason :=
      List.mem_map.mpr ⟨t,List.mem_filter.mpr ⟨ht,by simpa using hr⟩,rfl⟩
    rw [← hbook.replays] at hmem
    obtain ⟨d,_,hd⟩ := List.mem_map.mp hmem
    rw [← hd]
    simp
  refine (hreplays.and (h.trails.trail k e he).firstQueue.1).imp_of_mem ?_
  intro a b ha hb hab hqa hqb heq
  rcases h.queues k a ha hqa with ⟨hfa,hna⟩ | hra
  · rcases h.queues k b hb hqb with ⟨hfb,_⟩ | hrb
    · exact hab.2 ⟨hfa,hfb⟩
    · exact hreason b hb ⟨hrb,hqb⟩ (heq.symm.trans hna)
  · rcases h.queues k b hb hqb with ⟨_,hnb⟩ | hrb
    · exact hreason a ha ⟨hra,hqa⟩ (heq.trans hnb)
    · exact hab.1 ⟨hra,hqa⟩ ⟨hrb,hqb⟩ heq

end Queue

/-! ## Advances -/

/-- An edit of one event, stamped no earlier than the trail of that event. -/
def Ledger.Advance (rt : Runtime) (now : Time) (db db' : Ledger) : Prop :=
  ∃ k, db.Until k now ∧ Edit rt db db' ∧ Adds k now db db'

/-- Advances stamped `limit` or earlier. -/
abbrev Ledger.Advances (rt : Runtime) (limit : Time) : Ledger → Ledger → Prop :=
  ReflTransGen fun db db' => ∃ now ≤ limit, Advance rt now db db'

/-- Nothing in the ledger is stamped later than `limit`. -/
structure Ledger.Dated (db : Ledger) (limit : Time) : Prop where
  transitions : ∀ t ∈ db.transitions.rows, t.occurredAt ≤ limit
  attempts : ∀ k, ∀ e ∈ db.getEvent k, ∀ a ∈ e.lastAttemptAt, a ≤ limit
  deadLetters : ∀ d ∈ db.deadLetters.rows, d.deadLetteredAt ≤ limit

/-- Since `now` nobody has attempted to upload the event, and the worker has not
handed it on. -/
def Ledger.Untouched (db : Ledger) (k : String) (now : Time) : Prop :=
  (∀ e ∈ db.getEvent k, ∀ a ∈ e.lastAttemptAt, a ≤ now) ∧
    ∀ t ∈ db.listTransitions k, t.toStatus = .processed ∨ t.toStatus = failedRetryable → t.occurredAt ≤ now

instance (db : Ledger) (k : String) (now : Time) : Decidable (db.Untouched k now) :=
  inferInstanceAs (Decidable ((∀ _ ∈ _, ∀ _ ∈ _, _) ∧ ∀ _ ∈ _, _))

section Advances
variable {rt : Runtime} {db db' : Ledger} {k : String} {now limit : Time}

theorem Ledger.Timed.advance (h : db.Timed) (ha : db.Advance rt now db') : db'.Timed := by
  obtain ⟨k,hu,he,hadds⟩ := ha
  exact h.edit he hadds hu

theorem Ledger.Adds.dated (h : Adds k now db db') (hd : db.Dated limit) (hnow : now ≤ limit) :
    db'.Dated limit := by
  refine ⟨fun t ht => ?_,fun j x hx a ha => ?_,fun d hmem => ?_⟩
  · obtain ⟨new,hrows,hnew⟩ := h.transitions
    rw [hrows] at ht
    rcases List.mem_append.mp ht with ht | ht
    · exact hd.transitions t ht
    · rw [(hnew t ht).2.1]
      exact hnow
  · rcases h.attempts j x a hx ha with rfl | ⟨y,hy,hlast⟩
    · exact hnow
    · exact hd.attempts j y hy a hlast
  · rcases h.deadLetters d hmem with heq | ⟨d₀,hd₀,heq,_⟩
    · rw [heq]
      exact hnow
    · rw [← heq]
      exact hd.deadLetters d₀ hd₀

theorem Ledger.Adds.untouched (h : Adds k now db db') {j : String} (hj : db.Untouched j now) :
    db'.Untouched j now := by
  refine ⟨fun x hx a ha => ?_,fun t ht hto => ?_⟩
  · rcases h.attempts j x a hx ha with rfl | ⟨y,hy,hlast⟩
    · exact le_refl _
    · exact hj.1 y hy a hlast
  · exact h.forall_trail (P := fun t => t.toStatus = .processed ∨ t.toStatus = failedRetryable → t.occurredAt ≤ now)
      hj.2 (fun _ _ hat _ _ => le_of_eq hat) t ht hto

theorem Ledger.Advances.timed (ha : Advances rt limit db db') (h : db.Timed) : db'.Timed := by
  induction ha with
  | refl => exact h
  | tail _ hstep ih =>
    obtain ⟨now,_,hstep⟩ := hstep
    exact ih.advance hstep

theorem Ledger.Advances.dated (ha : Advances rt limit db db') (h : db.Dated limit) : db'.Dated limit := by
  induction ha with
  | refl => exact h
  | tail _ hstep ih =>
    obtain ⟨now,hnow,_,_,_,hadds⟩ := hstep
    exact hadds.dated ih hnow

theorem Ledger.Dated.mono (h : db.Dated now) (hle : now ≤ limit) : db.Dated limit :=
  ⟨fun t ht => (h.transitions t ht).trans hle,fun k e he a ha => (h.attempts k e he a ha).trans hle,
    fun d hd => (h.deadLetters d hd).trans hle⟩

/-- A record keeps what it was filed with. -/
theorem Ledger.Advances.letter (ha : Advances rt limit db db') {id : ℕ} {d : DeadLetter}
    (hd : db.getDeadLetter id = some d) : ∃ d', db'.getDeadLetter id = some d' ∧ d'.frozen = d.frozen := by
  induction ha with
  | refl => exact ⟨d,hd,rfl⟩
  | tail _ hstep ih =>
    obtain ⟨d₁,hd₁,hf₁⟩ := ih
    obtain ⟨_,_,_,_,he,_⟩ := hstep
    obtain ⟨d₂,hd₂,hf₂⟩ := he.letter hd₁
    exact ⟨d₂,hd₂,hf₂.trans hf₁⟩

theorem Ledger.Advances.widen (ha : Advances rt now db db') (hle : now ≤ limit) : Advances rt limit db db' :=
  ReflTransGen.mono (fun _ _ ⟨at',hat,hstep⟩ => ⟨at',hat.trans hle,hstep⟩) _ _ ha

/-- A trail is never rewritten. -/
theorem Ledger.Advances.trail (ha : Advances rt limit db db') (j : String) :
    db.listTransitions j <+: db'.listTransitions j := by
  induction ha with
  | refl => exact List.prefix_rfl
  | tail _ hstep ih =>
    obtain ⟨now,_,_,_,_,hadds⟩ := hstep
    obtain ⟨new,heq,_⟩ := hadds.trail j
    rw [heq]
    exact ih.trans (List.prefix_append _ _)

/-- A row that nobody has touched since `now` has no later transition, unless it is
out of the uploaders' hands. -/
theorem Ledger.Timed.until_of_untouched (h : db.Timed) {e : Event} (he : db.getEvent k = some e)
    (hs : e.status ∈ [.processed,failedRetryable,uploading]) (hu : db.Untouched k now) : db.Until k now := by
  simp only [List.mem_cons, List.not_mem_nil, or_false] at hs
  by_cases hup : e.status = uploading
  · obtain ⟨last,hlast,huntil⟩ := h.attempts k e he hup
    intro t ht
    exact (huntil t ht).trans (hu.1 e he last hlast)
  · have hlast := (h.trails.trail k e he).status
    cases htrail : (db.listTransitions k).getLast? with
    | none =>
      rw [htrail] at hlast
      cases hlast
    | some t =>
      rw [htrail] at hlast
      have hto : t.toStatus = e.status := Option.some.inj hlast
      refine h.order.until_last htrail (hu.2 t (List.mem_of_getLast? htrail) ?_)
      rw [hto]
      tauto

end Advances

/-! ## The operations advance -/

section Operations
variable {rt : Runtime} {db out : Ledger} {k : String} {now limit : Time}

theorem EventEdits.until (h : EventEdits rt k now db out) (hu : db.Until k now) : out.Until k now := by
  induction h with
  | refl => exact hu
  | tail _ hstep ih => exact hstep.2.until ih

theorem EventEdits.untouched (h : EventEdits rt k now db out) {j : String} (hj : db.Untouched j now) :
    out.Untouched j now := by
  induction h with
  | refl => exact hj
  | tail _ hstep ih => exact hstep.2.untouched ih

theorem EventEdits.attempts (h : EventEdits rt k now db out) {j : String} {x : Event} {a : Time}
    (hx : out.getEvent j = some x) (ha : x.lastAttemptAt = some a) :
    a = now ∨ ∃ y, db.getEvent j = some y ∧ y.lastAttemptAt = some a := by
  induction h generalizing x with
  | refl => exact Or.inr ⟨x,hx,ha⟩
  | tail _ hstep ih =>
    rcases hstep.2.attempts j x a hx ha with hnow | ⟨y,hy,hya⟩
    · exact Or.inl hnow
    · exact ih hy hya

theorem EventEdits.advances (h : EventEdits rt k now db out) (hu : db.Until k now) (hnow : now ≤ limit) :
    db.Advances rt limit out := by
  induction h with
  | refl => exact .refl
  | tail hedits hstep ih =>
    have hmid : Ledger.Until _ k now := EventEdits.until hedits hu
    exact ih.tail ⟨now,hnow,k,hmid,hstep.1,hstep.2⟩

/-- A new event has no transitions yet. -/
theorem NewEvent.advances (ht : Trails db) (h : NewEvent rt now db out) (hnow : now ≤ limit) :
    db.Advances rt limit out := by
  rcases h with rfl | ⟨k,hnew,h⟩
  · exact .refl
  · refine h.advances (fun t ht' => ?_) hnow
    rw [ht.orphan k hnew] at ht'
    cases ht'

/-- One row that an uploader writes: left alone, or in the uploaders' hands. -/
def Ledger.Held (db out : Ledger) (k : String) : Prop :=
  out = db ∨ ∃ e, db.getEvent k = some e ∧ e.status ∈ [.processed,failedRetryable,uploading]

theorem held_of_deadLetter {e : Event} {failureClass : FailureClass} {reason : String}
    {code message : Option String} {payload : Json} (he : db.getEvent k = some e)
    (h : deadLetter db e failureClass reason code message payload now = .ok out) : db.Held out k := by
  obtain ⟨ha,_⟩ := deadLetter_ok h
  refine Or.inr ⟨e,he,?_⟩
  cases hs : e.status <;> simp [hs,allowedTransitions] at ha ⊢

theorem claimRow_held (h : claimRow now db k = .ok out) : db.Held out k := by
  rcases claimRow_ok h with ⟨_,rfl⟩ | ⟨e,he,e',reason,hc,_⟩
  · exact Or.inl rfl
  · refine Or.inr ⟨e,he,?_⟩
    cases hc with
    | attempt ha => cases hs : e.status <;> simp [hs,allowedTransitions] at ha ⊢
    | reclaim hu => simp [hu]

theorem claimItem_held {st : Settings} {items items' : List Claimed}
    (h : claimItem rt st now (db,items) k = .ok (out,items')) : db.Held out k := by
  rcases claimItem_ok h with ⟨_,rfl,_⟩ | ⟨e,_,he,_,⟨_,_,hd⟩ | ⟨_,rfl,_⟩⟩
  · exact Or.inl rfl
  · exact held_of_deadLetter he hd
  · exact Or.inl rfl

theorem applyRow_held {loaded : List String} {item : Claimed × RowResult}
    (h : applyRow loaded now db item = .ok out) : db.Held out item.1.eventId := by
  obtain ⟨_,e,he,⟨dest,reason,hd,ha,_⟩ | hd⟩ := applyRow_ok h
  · refine Or.inr ⟨e,he,?_⟩
    simp only [List.mem_cons, List.not_mem_nil, or_false] at hd
    rcases hd with rfl | rfl <;> cases hs : e.status <;> simp [hs,allowedTransitions] at ha ⊢
  · exact held_of_deadLetter he hd

theorem deadLetterOne_held {batch : List Claimed} {failure : BatchFailure}
    (h : deadLetterOne batch failure now db k = .ok out) : db.Held out k := by
  rcases deadLetterOne_ok h with ⟨_,rfl⟩ | ⟨e,he,hd⟩
  · exact Or.inl rfl
  · exact held_of_deadLetter he hd

/-- What an uploader's transaction has done so far: the events it is about are still
untouched but for itself. -/
structure Ledger.Uploads (rt : Runtime) (ids : List String) (now : Time) (start db : Ledger) : Prop where
  advances : start.Advances rt now db
  untouched : ∀ k ∈ ids, db.Untouched k now

theorem Ledger.Uploads.row {start : Ledger} {ids : List String} (hs : start.Timed)
    (h : Uploads rt ids now start db) (hk : k ∈ ids) (hheld : db.Held out k)
    (hedits : EventEdits rt k now db out) : Uploads rt ids now start out := by
  rcases hheld with rfl | ⟨e,he,hst⟩
  · exact h
  · have huntil := (h.advances.timed hs).until_of_untouched he hst (h.untouched k hk)
    exact ⟨h.advances.trans (hedits.advances huntil (le_refl _)),
      fun j hj => hedits.untouched (h.untouched j hj)⟩

theorem claim_uploads {st : Settings} {selected : List String} {items : List Claimed} (ht : db.Timed)
    (hu : ∀ k ∈ selected, db.Untouched k now) (h : claim rt st db selected now = .ok (out,items)) :
    Ledger.Uploads rt selected now db out := by
  obtain ⟨db₁,h₁,h₂⟩ := Outcome.bind_ok.mp h
  have hrows : Ledger.Uploads rt selected now db db₁ :=
    Outcome.loop_inv (Ledger.Uploads rt selected now db)
      (fun k hk a b ha hs => ha.row ht hk (claimRow_held hs) (claimRow_edits hs)) ⟨.refl,hu⟩ h₁
  refine Outcome.loop_inv (fun acc => Ledger.Uploads rt selected now db acc.1) ?_ hrows h₂
  intro k hk a b ha hs
  exact ha.row ht hk (claimItem_held hs) (claimItem_edits hs)

theorem applyResult_uploads {loaded : List String} {batch : List Claimed} {rows : List RowResult}
    (ht : db.Timed) (hu : ∀ k ∈ loaded, db.Untouched k now)
    (h : applyResult db loaded batch rows now = .ok out) : Ledger.Uploads rt loaded now db out := by
  refine Outcome.loop_inv (Ledger.Uploads rt loaded now db) ?_ ⟨.refl,hu⟩ (applyResult_ok h).1
  intro item _ a b ha hs
  exact ha.row ht (applyRow_ok hs).1 (applyRow_held hs) (applyRow_edits hs)

theorem deadLetterAll_uploads {loaded : List String} {batch : List Claimed} {failure : BatchFailure}
    (ht : db.Timed) (hu : ∀ k ∈ loaded, db.Untouched k now)
    (h : deadLetterAll db loaded batch failure now = .ok out) : Ledger.Uploads rt loaded now db out := by
  refine Outcome.loop_inv (Ledger.Uploads rt loaded now db) ?_ ⟨.refl,hu⟩ h
  intro k hk a b ha hs
  exact ha.row ht hk (deadLetterOne_held hs) (deadLetterOne_edits hs)

/-- Every iteration of the retry loop reads the clock after the attempts that were
made before, its own earlier ones included. -/
theorem onRetry_advances {reason : String} {loaded : List String} {stamps : List Time} (ht : db.Timed)
    (hsorted : stamps.Pairwise (· ≤ ·)) (hlimit : ∀ t ∈ stamps, t ≤ limit)
    (hlast : ∀ k ∈ loaded, ∀ e ∈ db.getEvent k, ∀ a ∈ e.lastAttemptAt, ∀ t ∈ stamps, a ≤ t)
    (h : onRetry db loaded reason stamps = .ok out) : db.Advances rt limit out := by
  unfold onRetry at h
  induction loaded generalizing db stamps with
  | nil =>
    cases h
    exact .refl
  | cons k rest ih =>
    cases stamps with
    | nil =>
      cases h
      exact .refl
    | cons now stamps =>
      obtain ⟨mid,hrow,hrest⟩ := Outcome.loop_cons_ok.mp h
      have hedits : EventEdits rt k now db mid := retryRow_edits hrow
      obtain ⟨hfirst,hsorted⟩ := List.pairwise_cons.mp hsorted
      have hadv : db.Advances rt limit mid := by
        rcases retryRow_ok hrow with ⟨_,rfl⟩ | ⟨e,he,hup,_⟩
        · exact .refl
        · obtain ⟨last,hl,huntil⟩ := ht.attempts k e he hup
          have hle := hlast k List.mem_cons_self e he last hl now List.mem_cons_self
          exact hedits.advances (fun t ht => (huntil t ht).trans hle) (hlimit now List.mem_cons_self)
      refine hadv.trans (ih (hadv.timed ht) hsorted (fun t ht => hlimit t (List.mem_cons_of_mem _ ht)) ?_ hrest)
      intro j hj x hx a ha t ht
      rcases hedits.attempts hx ha with rfl | ⟨y,hy,hya⟩
      · exact hfirst t ht
      · exact hlast j (List.mem_cons_of_mem _ hj) y hy a hya t (List.mem_cons_of_mem _ ht)

/-- Every time that a transaction writes. -/
def Transaction.stamps : Transaction → List Time
  | ingest _ _ _ now => [now]
  | process _ _ now => [now]
  | claim _ _ now => [now]
  | retry _ _ _ stamps => stamps
  | apply _ _ _ now => [now]
  | bury _ _ _ now => [now]
  | replay _ _ now => [now]

/-- The times of a transaction are no earlier than what happened to its events. -/
def Transaction.InTime (db : Ledger) : Transaction → Prop
  | ingest .. => True
  | process _ loaded now => ∀ e ∈ loaded, e.status = queued → db.Until e.eventId now
  | claim _ selected now => ∀ k ∈ selected, db.Untouched k now
  | retry _ loaded _ stamps => stamps.Pairwise (· ≤ ·) ∧
      ∀ e ∈ loaded, ∀ a ∈ e.lastAttemptAt, ∀ t ∈ stamps, a ≤ t
  | apply _ loaded _ now => ∀ e ∈ loaded, db.Untouched e.eventId now
  | bury _ loaded _ now => ∀ e ∈ loaded, db.Untouched e.eventId now
  | replay letter loaded now => letter.replayedAt = none → ∀ e ∈ loaded, e.status = deadLettered →
      db.Until e.eventId now

theorem Transaction.body_advances {tx : Transaction} {reply : Reply} (ht : db.Timed)
    (hf : tx.session.Fresh db) (hp : tx.Paired) (htime : tx.InTime db) (hlimit : ∀ t ∈ tx.stamps, t ≤ limit)
    (h : tx.body rt db = .ok (out,reply)) : db.Advances rt limit out := by
  have hnow {now : Time} (hs : tx.stamps = [now]) : now ≤ limit := hlimit now (by simp [hs])
  have hup {ids : List String} {now : Time} (hs : tx.stamps = [now])
      (hu : Ledger.Uploads rt ids now db out) : db.Advances rt limit out := by
    exact hu.advances.widen (hnow hs)
  cases tx with
  | ingest source plan correlationId now =>
    obtain ⟨⟨db₁,i⟩,hi,h⟩ := Outcome.bind_ok.mp h
    cases h
    exact (ingestBody_edits hi).advances ht.trails (hnow rfl)
  | process message loaded now =>
    obtain ⟨⟨db₁,o⟩,ho,h⟩ := Outcome.bind_ok.mp h
    cases h
    rcases processMessage_edits (fun e he => hf.events e (by simpa [session] using he)) ho with
      rfl | ⟨e,he,hq,hedits⟩
    · exact .refl
    · exact hedits.advances (htime e he hq) (hnow rfl)
  | claim st selected now =>
    obtain ⟨⟨db₁,items⟩,hc,h⟩ := Outcome.bind_ok.mp h
    cases h
    exact hup rfl (claim_uploads ht htime hc)
  | retry ids loaded reason stamps =>
    obtain ⟨db₁,hr,h⟩ := Outcome.bind_ok.mp h
    cases h
    refine onRetry_advances ht htime.1 hlimit (fun k hk x hx a ha t ht' => ?_) hr
    obtain ⟨e,he,rfl⟩ : ∃ e ∈ loaded, e.eventId = k := by simpa [found] using (List.mem_filter.mp hk).2
    have heq : x = e := Option.some.inj ((Option.mem_def.mp hx).symm.trans (hf.events e he))
    exact htime.2 x (heq ▸ he) a ha t ht'
  | apply batch loaded rows now =>
    obtain ⟨db₁,ha,h⟩ := Outcome.bind_ok.mp h
    cases h
    refine hup rfl (applyResult_uploads ht (fun k hk => ?_) ha)
    obtain ⟨e,he,rfl⟩ := List.mem_map.mp hk
    exact htime e he
  | bury batch loaded failure now =>
    obtain ⟨db₁,hb,h⟩ := Outcome.bind_ok.mp h
    cases h
    refine hup rfl (deadLetterAll_uploads ht (fun k hk => ?_) hb)
    obtain ⟨e,he,rfl⟩ := List.mem_map.mp hk
    exact htime e he
  | replay letter loaded now =>
    obtain ⟨⟨db₁,m⟩,hm,h⟩ := Outcome.bind_ok.mp h
    cases h
    have hloaded : ∀ e ∈ loaded, db.getEvent e.eventId = some e ∧ letter.eventId = e.eventId :=
      fun e he => ⟨hf.events e (by simpa [session] using he),hp e he⟩
    rcases replay_edits (hf.deadLetters letter (by simp [session])) hloaded hm with
      rfl | ⟨e,hmem,ho,hd,hedits⟩
    · exact .refl
    · exact hedits.advances (htime ho e hmem hd) (hnow rfl)

end Operations
end ConversionGateway
