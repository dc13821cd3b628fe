import Mathlib.Data.List.Infix
import ConversionGateway.Lifecycle.Trail

/-! # The dead-letter store against the trail

The records of an event and its trail are two accounts of one history: a record
for every entry into DEAD_LETTERED, closed by the replay that names it, and open
just while the event is dead-lettered.
-/
namespace ConversionGateway
open Relational

/-- The records of an event, in id order. -/
def Ledger.letters (db : Ledger) (k : String) : List DeadLetter :=
  db.deadLetters.rows.filter fun d => d.eventId = k

def DeadLetter.Replayed (d : DeadLetter) : Prop := d.replayedAt.isSome

instance (d : DeadLetter) : Decidable d.Replayed := inferInstanceAs (Decidable (_ = true))

def EventTransition.IsBurial (t : EventTransition) : Prop := t.toStatus = .deadLettered

instance (t : EventTransition) : Decidable t.IsBurial := inferInstanceAs (Decidable (_ = _))

def EventTransition.IsReplay (t : EventTransition) : Prop :=
  t.fromStatus = some .deadLettered ∧ t.toStatus = .queued

instance (t : EventTransition) : Decidable t.IsReplay := inferInstanceAs (Decidable (_ ∧ _))

/-- The trail up to and including each entry into DEAD_LETTERED. -/
def burials (trail : List EventTransition) : List (List EventTransition) :=
  trail.inits.filter fun p => p.getLast?.any fun t => t.IsBurial

/-- Status and reason of a history entry. -/
def HistoryEntry.step (h : HistoryEntry) : EventStatus × Option String := (h.status,h.reason)

/-- Status and reason of a transition. -/
def EventTransition.step (t : EventTransition) : EventStatus × Option String := (t.toStatus,t.reason)

theorem burials_concat (ts : List EventTransition) (t : EventTransition) :
    burials (ts ++ [t]) = burials ts ++ if t.IsBurial then [ts ++ [t]] else [] := by
  simp [burials, List.inits_append, List.filter_append, List.filter_cons]

theorem burials_length (ts : List EventTransition) :
    (burials ts).length = (ts.filter fun t => t.IsBurial).length := by
  induction ts using List.reverseRecOn with
  | nil => rfl
  | append_singleton ts t ih =>
    rw [burials_concat, List.filter_append, List.length_append, List.length_append, ih]
    by_cases ht : t.IsBurial <;> simp [ht]

/-- The two accounts agree. -/
structure Accounts (trail : List EventTransition) (letters : List DeadLetter) (s : EventStatus) : Prop where
  /-- One open record while the event is dead-lettered, none otherwise. -/
  openRecords : (letters.filter fun d => ¬ d.Replayed).length = if s = .deadLettered then 1 else 0
  count : letters.length = (trail.filter fun t => t.IsBurial).length
  /-- A record is closed exactly if a replay names it. -/
  closed : ∀ d ∈ letters, d.Replayed ↔
    ∃ t ∈ trail, t.IsReplay ∧ t.reason = some (replayedReason d.id)
  named : ∀ t ∈ trail, t.IsReplay → ∃ d ∈ letters, t.reason = some (replayedReason d.id)
  replayCount : ∀ d ∈ letters, d.replayCount = if d.Replayed then 1 else 0
  history : letters.map (fun d => d.attemptHistory.map HistoryEntry.step) =
    (burials trail).map (fun p => p.map EventTransition.step)

/-- The form that grows with the trail: every record but a last one is closed, and
the replays name the closed ones in order. -/
structure Book (trail : List EventTransition) (letters : List DeadLetter) (s : EventStatus) : Prop where
  history : letters.map (fun d => d.attemptHistory.map HistoryEntry.step) =
    (burials trail).map (fun p => p.map EventTransition.step)
  replays : (letters.filter fun d => d.Replayed).map (fun d => some (replayedReason d.id)) =
    (trail.filter fun t => t.IsReplay).map EventTransition.reason
  replayCount : ∀ d ∈ letters, d.replayCount = if d.Replayed then 1 else 0
  closed : s ≠ .deadLettered → ∀ d ∈ letters, d.Replayed
  lastOpen : s = .deadLettered → ∃ rest last, letters = rest ++ [last] ∧ ¬ last.Replayed ∧
    ∀ d ∈ rest, d.Replayed

section Book
variable {trail : List EventTransition} {letters : List DeadLetter} {s s' : EventStatus}
  {t : EventTransition}

theorem Book.created (ht : ¬ t.IsBurial) (hr : ¬ t.IsReplay) (hs : s ≠ .deadLettered) : Book [t] [] s := by
  refine ⟨?_,?_,by simp,by simp,fun h => absurd h hs⟩
  · have hb : burials [t] = [] := by simp [burials, ht]
    rw [hb]
    rfl
  · simp [hr]

/-- A step outside of DEAD_LETTERED adds to the trail only. -/
theorem Book.other (h : Book trail letters s) (hs : s ≠ .deadLettered) (ht : ¬ t.IsBurial)
    (hr : ¬ t.IsReplay) (hs' : s' ≠ .deadLettered) : Book (trail ++ [t]) letters s' := by
  refine ⟨?_,?_,h.replayCount,fun _ => h.closed hs,fun h => absurd h hs'⟩
  · rw [burials_concat, if_neg ht, List.append_nil]
    exact h.history
  · rw [List.filter_append, h.replays]
    simp [hr]

theorem Book.bury (h : Book trail letters s) (hs : s ≠ .deadLettered) (ht : t.IsBurial)
    {d : DeadLetter} (hd : d.attemptHistory = (trail ++ [t]).map EventTransition.historyEntry)
    (ho : d.replayedAt = none) (hc : d.replayCount = 0) :
    Book (trail ++ [t]) (letters ++ [d]) .deadLettered := by
  have hn : ¬ d.Replayed := by simp [DeadLetter.Replayed,ho]
  have hr : ¬ t.IsReplay := by
    rintro ⟨_,hq⟩
    rw [show t.toStatus = .deadLettered from ht] at hq
    cases hq
  refine ⟨?_,?_,?_,fun h => absurd rfl h,fun _ => ⟨letters,d,rfl,hn,h.closed hs⟩⟩
  · rw [burials_concat, if_pos ht, List.map_append, List.map_append, h.history]
    simp [hd, Function.comp_def, HistoryEntry.step, EventTransition.step, EventTransition.historyEntry]
  · rw [List.filter_append, List.filter_append, List.map_append, List.map_append, h.replays]
    simp [hn,hr]
  · intro x hx
    rcases List.mem_append.mp hx with hx | hx
    · exact h.replayCount x hx
    · rw [List.mem_singleton.mp hx, if_neg hn, hc]

/-- The replay of the open record closes it. -/
theorem Book.revive {rest : List DeadLetter} {last : DeadLetter}
    (h : Book trail (rest ++ [last]) .deadLettered) (hrest : ∀ d ∈ rest, d.Replayed)
    (hlast : ¬ last.Replayed) (ht : ¬ t.IsBurial) (hr : t.IsReplay)
    (hreason : t.reason = some (replayedReason last.id)) (now : Time) :
    Book (trail ++ [t]) (rest ++ [last.replayed now]) .queued := by
  have hl : (last.replayed now).Replayed := rfl
  refine ⟨?_,?_,?_,?_,by simp⟩
  · rw [burials_concat, if_neg ht, List.append_nil, ← h.history]
    simp [DeadLetter.replayed]
  · have hb := h.replays
    rw [List.filter_append] at hb ⊢
    rw [List.filter_append, List.map_append, List.map_append, ← hb]
    have hlast' : List.filter (fun d : DeadLetter => decide d.Replayed) [last] = [] := by simp [hlast]
    have hl' : List.filter (fun d : DeadLetter => decide d.Replayed) [last.replayed now] =
        [last.replayed now] := by simp [hl]
    have ht' : List.filter (fun t : EventTransition => decide t.IsReplay) [t] = [t] := by simp [hr]
    rw [hlast', hl', ht']
    simp [hreason, DeadLetter.replayed]
  · intro x hx
    rcases List.mem_append.mp hx with hx | hx
    · exact h.replayCount x (List.mem_append_left _ hx)
    · have hc := h.replayCount last (by simp)
      rw [if_neg hlast] at hc
      rw [List.mem_singleton.mp hx, if_pos hl]
      simp [DeadLetter.replayed,hc]
  · intro _ x hx
    rcases List.mem_append.mp hx with hx | hx
    · exact hrest x hx
    · rw [List.mem_singleton.mp hx]
      exact hl

/-- The book in the form a reader can check. -/
theorem Book.accounts (h : Book trail letters s)
    (hid : ∀ a ∈ letters, ∀ b ∈ letters, a.id = b.id → a = b) : Accounts trail letters s := by
  have hmem (r : Option String) :
      (∃ d ∈ letters, d.Replayed ∧ some (replayedReason d.id) = r) ↔
        ∃ t ∈ trail, t.IsReplay ∧ t.reason = r := by
    have hl : r ∈ (letters.filter fun d => d.Replayed).map (fun d => some (replayedReason d.id)) ↔
        r ∈ (trail.filter fun t => t.IsReplay).map EventTransition.reason := by rw [h.replays]
    simpa only [List.mem_map, List.mem_filter, decide_eq_true_eq, and_assoc] using hl
  refine ⟨?_,?_,?_,?_,h.replayCount,h.history⟩
  · split
    · next hs =>
      obtain ⟨rest,last,rfl,hlast,hrest⟩ := h.lastOpen hs
      simpa [List.filter_append, hlast] using hrest
    · next hs => simpa using h.closed hs
  · have hlen := congrArg List.length h.history
    simpa only [List.length_map, burials_length] using hlen
  · intro d hd
    rw [← hmem]
    constructor
    · exact fun hr => ⟨d,hd,hr,rfl⟩
    · rintro ⟨d',hd',hr,he⟩
      rwa [hid d hd d' hd' (replayedReason_injective (Option.some.inj he)).symm]
  · intro t ht hr
    obtain ⟨d,hd,_,he⟩ := (hmem t.reason).mpr ⟨t,ht,hr,rfl⟩
    exact ⟨d,hd,he.symm⟩

end Book

/-- Every event has its book; records of unknown events do not exist. -/
structure Books (db : Ledger) : Prop where
  book : ∀ k e, db.getEvent k = some e → Book (db.listTransitions k) (db.letters k) e.status
  orphan : ∀ k, db.getEvent k = none → db.letters k = []

section Books
variable {rt : Runtime} {db db' : Ledger} {e e' : Event} {reason : Option String} {now : Time}

theorem Books.empty : Books Ledger.empty := ⟨fun _ _ h => (by cases h),fun _ _ => rfl⟩

theorem Books.congr (h : Books db) (he : ∀ k, db'.getEvent k = db.getEvent k)
    (ht : ∀ k, db'.listTransitions k = db.listTransitions k)
    (hl : ∀ k, db'.letters k = db.letters k) : Books db' := by
  refine ⟨fun k e hk => ?_,fun k hk => ?_⟩
  · rw [ht, hl]
    exact h.book k e (he k ▸ hk)
  · rw [hl]
    exact h.orphan k (he k ▸ hk)

/-- What a recorded change of one event asks of its book. -/
theorem Books.record (h : Books db) (e' : Event) (he : db.getEvent e.eventId = some e) (hk : e'.eventId = e.eventId)
    (hdb : ∀ k, db'.getEvent k = (db.record e e' reason now).getEvent k)
    (ht : ∀ k, db'.listTransitions k = (db.record e e' reason now).listTransitions k)
    (hl : ∀ k, k ≠ e.eventId → db'.letters k = db.letters k)
    (hstep : ∀ t : EventTransition, t.fromStatus = some e.status → t.toStatus = e'.status →
      t.reason = reason → (db.record e e' reason now).listTransitions e.eventId =
        db.listTransitions e.eventId ++ [t] →
      Book (db.listTransitions e.eventId ++ [t]) (db'.letters e.eventId) e'.status) :
    Books db' := by
  refine ⟨fun k x hx => ?_,fun k hx => ?_⟩
  · rw [hdb, Ledger.record_getEvent he hk] at hx
    rw [ht]
    split at hx
    · next heq =>
      cases hx
      have htl : (db.record e e' reason now).listTransitions e.eventId = _ :=
        Ledger.record_listTransitions e.eventId
      rw [if_pos rfl] at htl
      rw [heq, htl]
      exact hstep _ rfl rfl rfl htl
    · next hne =>
      rw [Ledger.record_listTransitions, if_neg (Ne.symm hne), List.append_nil, hl k hne]
      exact h.book k x hx
  · rw [hdb, Ledger.record_getEvent he hk] at hx
    split at hx
    · cases hx
    · next hne =>
      rw [hl k hne]
      exact h.orphan k hx

/-- A change of state outside of DEAD_LETTERED. -/
theorem Books.record_other (h : Books db) (he : db.getEvent e.eventId = some e)
    (hk : e'.eventId = e.eventId) (hs : e.status ≠ .deadLettered) (hs' : e'.status ≠ .deadLettered) :
    Books (db.record e e' reason now) := by
  refine h.record _ he hk (fun _ => rfl) (fun _ => rfl) (fun _ _ => rfl) fun t hf ht _ _ => ?_
  refine (h.book _ e he).other hs (fun hb => hs' (ht ▸ hb)) (fun hr => ?_) hs'
  exact hs (Option.some.inj (hf.symm.trans hr.1))

theorem letters_addDeadLetter {d : DeadLetter} (hid : d.id = db.deadLetters.next) (k : String) :
    (db.addDeadLetter d hid).letters k = db.letters k ++ if d.eventId = k then [d] else [] := by
  simp [Ledger.letters, Ledger.addDeadLetter, List.filter_append, List.filter_cons]

theorem letters_putDeadLetter {d : DeadLetter} (d' : DeadLetter) (hd : db.getDeadLetter d'.id = some d)
    (hk : d'.eventId = d.eventId) (k : String) :
    (db.putDeadLetter d').letters k = (db.letters k).map fun x => if x.id = d'.id then d' else x := by
  have hkey : ∀ x ∈ db.deadLetters.rows,
      decide ((if x.id = d'.id then d' else x).eventId = k) = decide (x.eventId = k) := by
    intro x hx
    split
    · next hi =>
      have hid := Journal.get_serial hd
      rw [Journal.eq_of_serial hx (Journal.mem_of_get hd) (hi.trans hid.symm), hk]
    · rfl
  simp only [Ledger.letters, Ledger.putDeadLetter, Journal.put, Journal.mapRows_rows, List.filter_map]
  exact congrArg _ (List.filter_congr hkey)

theorem Books.enter (h : Books db) (ht : Trails db) (hnew : db.events.get e.eventId = none)
    (he : e.Created) (now : Time) : Books (db.enter e hnew now) := by
  refine ⟨fun k x hx => ?_,fun k hx => ?_⟩
  · rw [Ledger.enter_getEvent] at hx
    rw [Ledger.enter_listTransitions]
    split at hx
    · next heq =>
      cases hx
      subst heq
      have hl : (db.enter e hnew now).letters e.eventId = [] := h.orphan _ hnew
      rw [if_pos rfl, ht.orphan _ hnew, hl, he.status]
      exact .created (by simp [EventTransition.IsBurial]) (by simp [EventTransition.IsReplay]) (by simp)
    · next hne =>
      rw [if_neg (Ne.symm hne), List.append_nil]
      exact h.book k x hx
  · rw [Ledger.enter_getEvent] at hx
    split at hx
    · cases hx
    · exact h.orphan k hx

theorem Books.put (h : Books db) (he : db.getEvent e.eventId = some e) (hk : e'.eventId = e.eventId)
    (hs : e'.status = e.status) : Books (db.putEvent e') := by
  refine ⟨fun k x hx => ?_,fun k hx => ?_⟩
  · rw [Ledger.putEvent_getEvent he hk] at hx
    split at hx
    · next heq =>
      cases hx
      rw [hs, heq]
      exact h.book _ e he
    · exact h.book k x hx
  · rw [Ledger.putEvent_getEvent he hk] at hx
    split at hx
    · cases hx
    · exact h.orphan k hx

theorem Books.bury (h : Books db) {reason : String} {d : DeadLetter} (he : db.getEvent e.eventId = some e)
    (ha : .deadLettered ∈ e.status.allowedTransitions) (hid : d.id = db.deadLetters.next)
    (hd : d.Records e ((db.record e (e.moved .deadLettered (some reason)) (some reason)
      now).listTransitions e.eventId)) :
    Books ((db.record e (e.moved .deadLettered (some reason)) (some reason) now).addDeadLetter d hid) := by
  have hs : e.status ≠ .deadLettered := by
    intro hs
    rw [hs] at ha
    exact EventStatus.not_allowed_self _ ha
  have hadd (k : String) : ((db.record e (e.moved .deadLettered (some reason)) (some reason)
      now).addDeadLetter d hid).letters k = db.letters k ++ if d.eventId = k then [d] else [] :=
    letters_addDeadLetter hid k
  refine h.record (e.moved .deadLettered (some reason)) he rfl (fun _ => rfl) (fun _ => rfl)
    (fun k hne => ?_) fun t hf ht hr htl => ?_
  · rw [hadd, if_neg (by rw [hd.eventId]; exact Ne.symm hne), List.append_nil]
  · rw [hadd, if_pos hd.eventId]
    exact (h.book _ e he).bury hs ht (htl ▸ hd.history) hd.replayedAt hd.replayCount

theorem Books.revive (h : Books db) {d : DeadLetter} (he : db.getEvent e.eventId = some e)
    (hd : e.status = .deadLettered) (hl : db.getDeadLetter d.id = some d) (hk : d.eventId = e.eventId)
    (ho : d.replayedAt = none) (now : Time) :
    Books ((db.record e (e.requeued d) (some (replayedReason d.id)) now).putDeadLetter (d.replayed now)) := by
  have hput (k : String) : ((db.record e (e.requeued d) (some (replayedReason d.id)) now).putDeadLetter
      (d.replayed now)).letters k = (db.letters k).map fun x => if x.id = d.id then d.replayed now else x :=
    letters_putDeadLetter (d.replayed now) hl rfl k
  have hsame (k : String) (x : DeadLetter) (hx : x ∈ db.letters k) (hi : x.id = d.id) : x = d :=
    Journal.eq_of_serial (List.mem_filter.mp hx).1 (Journal.mem_of_get hl) hi
  -- no record of another event has this id, and no closed record of this one
  have hkeep (ds : List DeadLetter) (hne : ∀ x ∈ ds, x.id ≠ d.id) :
      ds.map (fun x => if x.id = d.id then d.replayed now else x) = ds := by
    refine (List.map_congr_left fun x hx => ?_).trans ds.map_id
    exact if_neg (hne x hx)
  refine h.record (e.requeued d) he rfl (fun _ => rfl) (fun _ => rfl) (fun k hne => ?_)
    fun t hf ht hr _ => ?_
  · rw [hput]
    refine hkeep _ fun x hx hi => hne ?_
    rw [← hk, ← hsame k x hx hi]
    exact (by simpa using (List.mem_filter.mp hx).2 : x.eventId = k).symm
  · have hb := h.book _ e he
    obtain ⟨rest,last,hsplit,hlast,hrest⟩ := hb.lastOpen hd
    have hmem : d ∈ db.letters e.eventId := List.mem_filter.mpr ⟨Journal.mem_of_get hl,by simp [hk]⟩
    have hno : ¬ d.Replayed := by simp [DeadLetter.Replayed,ho]
    have hdl : d = last := by
      rw [hsplit] at hmem
      rcases List.mem_append.mp hmem with hm | hm
      · exact absurd (hrest d hm) hno
      · exact List.mem_singleton.mp hm
    rw [hput, hsplit, List.map_append, hkeep rest fun x hx hi => ?_]
    · rw [hsplit, hd] at hb
      subst hdl
      simp only [List.map_cons, List.map_nil, if_pos]
      refine hb.revive hrest hlast ?_ ⟨hd ▸ hf,ht⟩ hr now
      rw [EventTransition.IsBurial, ht]
      simp [Event.requeued,Event.moved]
    · have hx' := hsame e.eventId x (by rw [hsplit]; exact List.mem_append_left _ hx) hi
      exact hno (hx' ▸ hrest x hx)

theorem Books.edit (h : Books db) (ht : Trails db) (he : Edit rt db db') : Books db' := by
  cases he with
  | create hnew he now => exact h.enter ht hnew he now
  | label he c => exact h.put he rfl rfl
  | @move e dest he hm reason now =>
    have hs' : dest ≠ .deadLettered := by
      rintro rfl
      simpa using hm.plain
    refine h.record_other he rfl (fun hs => ?_) hs'
    have ha := hm.allowed
    rw [hs] at ha
    have hq : dest = .queued := by simpa [EventStatus.allowedTransitions] using ha
    rw [hm.first hq] at hs
    cases hs
  | process he hq hg hm now =>
    exact h.record_other he rfl (by simp [hq]) (by simp [Event.processedWith,Event.moved])
  | attempt he ha now =>
    refine h.record_other he rfl (fun hs => ?_) (by simp [Event.attempted,Event.moved])
    simp [hs,EventStatus.allowedTransitions] at ha
  | reclaim he hu now => exact h.record_other he rfl (by simp [hu]) (by simp [Event.attempted,hu])
  | bury he ha hid hl => exact h.bury he ha hid hl
  | revive he hd hl hk ho now => exact h.revive he hd hl hk ho now
  | skip n m => exact h.congr (fun _ => rfl) (fun _ => rfl) (fun _ => rfl)

theorem serialRun_books {actions : List SerialAction}
    (h : serialRun rt Ledger.empty actions = some db) : Books db :=
  (serialRun_inv (fun db => Books db ∧ Trails db) ⟨.empty,.empty⟩
    (fun _ _ hi he => ⟨hi.1.edit hi.2 he,hi.2.edit he⟩) h).1

/-- In every ledger a serial run reaches, the dead-letter store and the trail of
every event agree. -/
theorem serialRun_accounts (rt : Runtime) (actions : List SerialAction) (db : Ledger)
    (h : serialRun rt Ledger.empty actions = some db) :
    ∀ e ∈ db.events.rows, Accounts (db.listTransitions e.eventId) (db.letters e.eventId) e.status := by
  intro e he
  refine ((serialRun_books h).book e.eventId e (Table.get_of_mem he)).accounts fun a ha b hb hi => ?_
  exact Journal.eq_of_serial (List.mem_filter.mp ha).1 (List.mem_filter.mp hb).1 hi

/-- The theorem at an event that was dead-lettered and replayed. -/
theorem serialRun_accounts_replay : ∃ (db : Ledger) (e : Event),
    serialRun (clickRuntime 1704067200000) Ledger.empty buryAndReplay = some db ∧ e.status = .queued ∧
      Accounts (db.listTransitions e.eventId) (db.letters e.eventId) e.status := by
  have h : (serialRun (clickRuntime 1704067200000) Ledger.empty buryAndReplay).map
      (fun db => db.events.rows.map Event.status) = some [.queued] := by decide +kernel
  obtain ⟨db,hdb,hrows⟩ := Option.map_eq_some_iff.mp h
  obtain ⟨e,he,hst⟩ := List.mem_map.mp (hrows ▸ List.mem_singleton_self EventStatus.queued)
  exact ⟨db,e,hdb,hst,serialRun_accounts _ _ db hdb e he⟩

end Books
end ConversionGateway
