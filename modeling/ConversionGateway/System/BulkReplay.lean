import ConversionGateway.Concurrency.ClosedRecords
import ConversionGateway.Lifecycle.IngestOutcome
import ConversionGateway.Model.DeadLetterCommands
import ConversionGateway.System.Step

/-! # Bulk replays

`dlq replay` takes its candidates one at a time, each in a transaction of its own. A
candidate is taken if it is open, its event is DEAD_LETTERED, and no candidate before
it was taken for the same event; nothing else is written. An exception of the
publisher ends the command with what was taken so far.
-/
namespace ConversionGateway
open EventStatus Relational

/-- A ledger as the columns can hold it: texts that fit, and INTEGER keys. -/
structure Ledger.Stored (db : Ledger) : Prop where
  fits : db.fits = true
  keys : ∀ d ∈ db.deadLetters.rows, d.id < 2 ^ 31

/-- The record is open and its event DEAD_LETTERED. -/
def Ledger.Replayable (db : Ledger) (d : DeadLetter) : Prop :=
  d.replayedAt = none ∧ (db.getEvent d.eventId).any fun e => e.status = deadLettered

instance (db : Ledger) (d : DeadLetter) : Decidable (db.Replayable d) :=
  inferInstanceAs (Decidable (_ ∧ _ = true))

theorem Ledger.Replayable.event {db : Ledger} {d : DeadLetter} (h : db.Replayable d) :
    ∃ e, db.getEvent d.eventId = some e ∧ e.status = deadLettered := by
  obtain ⟨_,hdead⟩ := h
  cases he : db.getEvent d.eventId with
  | none => simp [he] at hdead
  | some e => exact ⟨e,rfl,by simpa [he] using hdead⟩

/-- The candidate is the first of its event that can be replayed. -/
def Taken (db : Ledger) (candidates : List DeadLetter) (d : DeadLetter) : Prop :=
  ∃ pre post, candidates = pre ++ d :: post ∧ db.Replayable d ∧
    ∀ x ∈ pre, db.Replayable x → x.eventId ≠ d.eventId

section Candidates
variable {db : Ledger} {pre candidates : List DeadLetter} {c d x : DeadLetter}

theorem Taken.mem (h : Taken db candidates d) : d ∈ candidates ∧ db.Replayable d := by
  obtain ⟨pre,post,rfl,hd,_⟩ := h
  exact ⟨by simp,hd⟩

theorem taken_concat : Taken db (pre ++ [c]) d ↔ Taken db pre d ∨
    (d = c ∧ db.Replayable c ∧ ∀ x ∈ pre, db.Replayable x → x.eventId ≠ c.eventId) := by
  constructor
  · rintro ⟨front,back,heq,hd,hfirst⟩
    rcases List.eq_nil_or_concat back with rfl | ⟨back,y,rfl⟩
    · obtain ⟨rfl,hlast⟩ := List.append_inj' heq rfl
      obtain ⟨rfl,_⟩ := List.cons.inj hlast
      exact Or.inr ⟨rfl,hd,hfirst⟩
    · have hsplit : pre ++ [c] = (front ++ d :: back) ++ [y] := by simp [heq]
      obtain ⟨rfl,_⟩ := List.append_inj' hsplit rfl
      exact Or.inl ⟨front,back,rfl,hd,hfirst⟩
  · rintro (⟨front,back,rfl,hd,hfirst⟩ | ⟨rfl,hd,hfirst⟩)
    · exact ⟨front,back ++ [c],by simp,hd,hfirst⟩
    · exact ⟨pre,[],rfl,hd,hfirst⟩

/-- Of one event at most one candidate is taken. -/
theorem Taken.unique (hx : Taken db candidates x) (hd : Taken db candidates d) (h : x.eventId = d.eventId) :
    x = d := by
  induction candidates using List.reverseRecOn with
  | nil => exact absurd hx.mem.1 (by simp)
  | append_singleton pre c ih =>
    rcases taken_concat.mp hx with hx' | ⟨hxc,_,hfirst⟩ <;> rcases taken_concat.mp hd with hd' | ⟨hdc,_,hlast⟩
    · exact ih hx' hd'
    · exact absurd (hdc ▸ h) (hlast x hx'.mem.1 hx'.mem.2)
    · exact absurd (hxc ▸ h.symm) (hfirst d hd'.mem.1 hd'.mem.2)
    · rw [hxc, hdc]

/-- Where a candidate could be replayed, one of its event is taken. -/
theorem exists_taken (hd : d ∈ candidates) (hr : db.Replayable d) :
    ∃ x, Taken db candidates x ∧ x.eventId = d.eventId := by
  cases hx : candidates.find? fun x => db.Replayable x ∧ x.eventId = d.eventId with
  | none =>
    have hnone := List.find?_eq_none.mp hx d hd
    simp [hr] at hnone
  | some x =>
    obtain ⟨hp,front,back,heq,hfront⟩ := List.find?_eq_some_iff_append.mp hx
    simp only [decide_eq_true_eq] at hp
    refine ⟨x,⟨front,back,heq,hp.1,fun y hy hyr hkey => ?_⟩,hp.2⟩
    have hnot := hfront y hy
    simp [hyr,hkey.trans hp.2] at hnot

theorem not_taken_iff_fresh (k : String) : (∀ d, Taken db candidates d → d.eventId ≠ k) ↔
    ∀ d ∈ candidates, db.Replayable d → d.eventId ≠ k := by
  constructor
  · intro h d hd hr hk
    obtain ⟨x,hx,hkey⟩ := exists_taken hd hr
    exact h x hx (hkey.trans hk)
  · intro h d hd
    exact h d hd.mem.1 hd.mem.2

end Candidates

section Replay
variable {db : Ledger} {row : DeadLetter} {e : Event}

/-- The reason of a replay fits its column. -/
theorem replayedReason_fits (h : row.id < 2 ^ 31) : varchar 512 (replayedReason row.id) = true := by
  have hlen : (Nat.repr row.id).length ≤ 10 := (Nat.length_repr_le_iff (by decide)).mpr (by omega)
  have htext : replayedReason row.id = "replayed:dlq:" ++ Nat.repr row.id := rfl
  have hprefix : ("replayed:dlq:" : String).length = 13 := rfl
  have hnul : Char.ofNat 0 ∉ (Nat.repr row.id).toList := by
    intro hmem
    rw [Nat.repr_eq_ofList_toDigits, String.toList_ofList] at hmem
    exact absurd (Nat.isDigit_of_mem_toDigits (by decide) (by decide) hmem) (by decide)
  have hnul' : Char.ofNat 0 ∉ ("replayed:dlq:" : String).toList := by decide
  simp only [varchar, htext, String.length_append, String.toList_append, hprefix, Bool.and_eq_true,
    decide_eq_true_eq, List.contains_eq_mem, List.mem_append, hnul, hnul']
  exact ⟨by omega,rfl⟩

/-- A replay of an open record whose event is DEAD_LETTERED goes through. -/
theorem replay_goes (now : Time) (hopen : row.replayedAt = none) (hd : e.status = deadLettered) :
    replay db row (some e) now = .ok ((db.record e (e.requeued row) (some (replayedReason row.id)) now).putDeadLetter
      (row.replayed now),some ⟨e.eventId,.blank,now,e.correlationId⟩) := by
  obtain ⟨p,hp⟩ : ∃ p, replay db row (some e) now = .ok p := by
    unfold replay
    rw [if_neg (by simp [hopen])]
    dsimp only
    rw [if_neg (by simp [hd])]
    exact transition_isOk (by simp [hd,allowedTransitions]) _ _ ⟨_,rfl⟩
  obtain ⟨out,m⟩ := p
  rcases replay_ok hp with ⟨_,rfl⟩ | ⟨e',he,_,_,rfl,rfl⟩
  · have hm := replay_message hp
    simp [replayMessage,hopen,hd] at hm
  · cases he
    exact hp

/-- A replay without a message writes nothing. -/
theorem replay_nothing {event : Option Event} {now : Time} (h : replayMessage row event now = none) :
    replay db row event now = .ok (db,none) := by
  unfold replay
  split
  · rfl
  · next hopen =>
    cases event with
    | none => rfl
    | some e =>
      have hopen : row.replayedAt = none := by simpa using hopen
      have hd : e.status ≠ deadLettered := by
        intro hd
        simp [replayMessage,hopen,hd] at h
      simp [hd]

theorem fits_replayed {now : Time} (hf : db.fits = true) (he : e.fits = true)
    (hrow : db.getDeadLetter row.id = some row) (hid : row.id < 2 ^ 31) :
    ((db.record e (e.requeued row) (some (replayedReason row.id)) now).putDeadLetter (row.replayed now)).fits = true := by
  have hreason : nullable (varchar 512) (some (replayedReason row.id)) = true := replayedReason_fits hid
  have hmoved : (e.requeued row).fits = true := by
    have hmoved := Event.fits_moved queued he hreason
    exact hmoved
  have hrecord : (db.record e (e.requeued row) (some (replayedReason row.id)) now).fits = true :=
    Ledger.fits_record e now hf hmoved hreason
  obtain ⟨h₁,h₂,h₃⟩ := Ledger.fits_iff.mp hrecord
  refine Ledger.fits_iff.mpr ⟨h₁,h₂,fun d hd => ?_⟩
  rcases Journal.mem_put.mp hd with ⟨hd,_⟩ | ⟨rfl,_⟩
  · exact h₃ d hd
  · exact h₃ row (Journal.mem_of_get hrow)

end Replay

/-! ## The loop -/

/-- What a bulk replay has done after the candidates `done`. -/
structure Progress (db : Ledger) (now : Time) (done : List DeadLetter) (b : BulkReplay) : Prop where
  fits : b.ledger.fits = true
  taken : ∀ d, Taken db done d → b.ledger.getDeadLetter d.id = some (d.replayed now)
  left : ∀ d ∈ db.deadLetters.rows, ¬ Taken db done d → b.ledger.getDeadLetter d.id = some d
  requeued : ∀ d e, Taken db done d → db.getEvent d.eventId = some e →
    b.ledger.getEvent d.eventId = some (e.requeued d)
  still : ∀ k, (∀ d, Taken db done d → d.eventId ≠ k) →
    b.ledger.getEvent k = db.getEvent k ∧ b.ledger.listTransitions k = db.listTransitions k
  replayed : ∀ d ∈ db.deadLetters.rows, d.id ∈ b.replayed ↔ Taken db done d

section Loop
variable {db : Ledger} {now : Time} {done : List DeadLetter} {b : BulkReplay} {c : DeadLetter} {publish : Publisher}

theorem not_taken_nil (d : DeadLetter) : ¬ Taken db [] d := fun h => absurd h.mem.1 (by simp)

theorem start_progress (now : Time) (hdb : db.Stored) : Progress db now [] ⟨db,[],[]⟩ where
  fits := hdb.fits
  taken d h := absurd h (not_taken_nil d)
  left d hd _ := Journal.get_of_mem hd
  requeued d _ h := absurd h (not_taken_nil d)
  still _ _ := ⟨rfl,rfl⟩
  replayed d _ := iff_of_false (by simp) (not_taken_nil d)

/-- The candidate is passed over. -/
def PassedOver (db : Ledger) (done : List DeadLetter) (c : DeadLetter) : Prop :=
  ¬ (db.Replayable c ∧ ∀ x ∈ done, db.Replayable x → x.eventId ≠ c.eventId)

theorem taken_passed (h : PassedOver db done c) (d : DeadLetter) : Taken db (done ++ [c]) d ↔ Taken db done d := by
  rw [taken_concat]
  constructor
  · rintro (hd | ⟨_,hc⟩)
    · exact hd
    · exact absurd hc h
  · exact Or.inl

theorem Progress.congr (h : Progress db now done b) {done' : List DeadLetter}
    (hsame : ∀ d, Taken db done' d ↔ Taken db done d) : Progress db now done' b where
  fits := h.fits
  taken d hd := h.taken d ((hsame d).mp hd)
  left d hd hn := h.left d hd fun ht => hn ((hsame d).mpr ht)
  requeued d e hd := h.requeued d e ((hsame d).mp hd)
  still k hk := h.still k fun d hd => hk d ((hsame d).mpr hd)
  replayed d hd := (h.replayed d hd).trans (hsame d).symm

/-- A candidate that is passed over has no message. -/
theorem Progress.silent (h : Progress db now done b) (hc : c ∈ db.deadLetters.rows)
    (hpass : PassedOver db done c) : ∃ row, b.ledger.getDeadLetter c.id = some row ∧
      replayMessage row (b.ledger.getEvent row.eventId) now = none := by
  by_cases htaken : Taken db done c
  · exact ⟨_,h.taken c htaken,by cases b.ledger.getEvent _ <;> simp [replayMessage,DeadLetter.replayed]⟩
  · refine ⟨c,h.left c hc htaken,?_⟩
    by_cases hkey : ∃ d, Taken db done d ∧ d.eventId = c.eventId
    · obtain ⟨d,hd,hkey⟩ := hkey
      obtain ⟨e,he,_⟩ := hd.mem.2.event
      rw [← hkey, h.requeued d e hd he]
      simp [replayMessage,Event.requeued,Event.moved]
    · have hfresh : ∀ d, Taken db done d → d.eventId ≠ c.eventId := fun d hd heq => hkey ⟨d,hd,heq⟩
      rw [(h.still c.eventId hfresh).1]
      have hno : ¬ db.Replayable c := fun hc => hpass ⟨hc,(not_taken_iff_fresh c.eventId).mp hfresh⟩
      cases he : db.getEvent c.eventId with
      | none => rfl
      | some e => simpa [replayMessage,Ledger.Replayable,he] using hno

theorem Progress.pass (h : Progress db now done b) (publish : Publisher) (hc : c ∈ db.deadLetters.rows) (hpass : PassedOver db done c) :
    replayCandidate publish now b c.id = .ok b ∧ Progress db now (done ++ [c]) b := by
  obtain ⟨row,hrow,hnone⟩ := h.silent hc hpass
  refine ⟨?_,h.congr (taken_passed hpass)⟩
  simp only [replayCandidate, hrow, replay_nothing hnone]

/-- A candidate that is not passed over is replayed, if its message is accepted. -/
theorem Progress.advance (h : Progress db now done b) (publish : Publisher) (hkeys : ∀ d ∈ db.deadLetters.rows, d.id < 2 ^ 31)
    (hc : c ∈ db.deadLetters.rows) (hdone : ∀ d ∈ done, d ∈ db.deadLetters.rows) (hpass : ¬ PassedOver db done c) :
    ∃ (m : QueueMessage) (b' : BulkReplay), m.eventId = c.eventId ∧ b'.sent = b.sent ++ [m] ∧
      replayCandidate publish now b c.id = (if publish b.sent m then .ok b' else .error b) ∧
      Progress db now (done ++ [c]) b' := by
  obtain ⟨hreplay,hfirst⟩ := not_not.mp hpass
  have hfresh := (not_taken_iff_fresh c.eventId).mpr hfirst
  have hnot : ¬ Taken db done c := fun ht => hfresh c ht rfl
  obtain ⟨e,he,hdead⟩ := hreplay.event
  have hrow := h.left c hc hnot
  have hevent : b.ledger.getEvent c.eventId = some e := by rw [(h.still _ hfresh).1, he]
  have hkey : e.eventId = c.eventId := Ledger.getEvent_eventId he
  have hself : b.ledger.getEvent e.eventId = some e := hkey ▸ hevent
  set db' := (b.ledger.record e (e.requeued c) (some (replayedReason c.id)) now).putDeadLetter (c.replayed now) with hdb'
  have hfits : db'.fits = true := fits_replayed h.fits (fits_event h.fits hevent) hrow (hkeys c hc)
  have htaken (d : DeadLetter) : Taken db (done ++ [c]) d ↔ Taken db done d ∨ d = c := by
    rw [taken_concat]
    exact or_congr Iff.rfl ⟨And.left,fun heq => ⟨heq,hreplay,hfirst⟩⟩
  have hrows {d : DeadLetter} (hd : d ∈ db.deadLetters.rows) (hne : d ≠ c) : d.id ≠ c.id :=
    fun hid => hne (Journal.eq_of_serial hd hc hid)
  have hget (k : String) : db'.getEvent k = if k = e.eventId then some (e.requeued c) else b.ledger.getEvent k := by
    have hid : (e.requeued c).eventId = e.eventId := rfl
    have hrecord : (b.ledger.record e (e.requeued c) (some (replayedReason c.id)) now).getEvent k = _ :=
      Ledger.record_getEvent hself hid k
    exact hrecord
  have htrail (k : String) (hk : k ≠ e.eventId) : db'.listTransitions k = b.ledger.listTransitions k :=
    (Ledger.record_listTransitions k).trans (by rw [if_neg (Ne.symm hk), List.append_nil])
  have hletter (n : ℕ) : db'.getDeadLetter n =
      if n = c.id then some (c.replayed now) else b.ledger.getDeadLetter n := by
    split
    · next hn =>
      subst hn
      exact Journal.get_put_self (r := c.replayed now) hrow
    · next hn => exact Journal.get_put_of_ne (r := c.replayed now) hn
  refine ⟨⟨e.eventId,.blank,now,e.correlationId⟩,⟨db',b.sent ++ [_],b.replayed ++ [c.id]⟩,hkey,rfl,?_,hfits,?_,?_,?_,?_,?_⟩
  · simp only [replayCandidate, hrow, hevent, replay_goes now hreplay.1 hdead]
    rw [← hdb', if_pos hfits]
  · intro d hd
    rw [hletter]
    rcases (htaken d).mp hd with hd | rfl
    · have hne : d ≠ c := fun heq => hnot (heq ▸ hd)
      rw [if_neg (hrows (hdone d hd.mem.1) hne)]
      exact h.taken d hd
    · rw [if_pos rfl]
  · intro d hd hn
    have hn : ¬ Taken db done d ∧ d ≠ c := by simpa [htaken] using hn
    rw [hletter, if_neg (hrows hd hn.2)]
    exact h.left d hd hn.1
  · intro d x hd hx
    rw [hget, hkey]
    rcases (htaken d).mp hd with hd | rfl
    · rw [if_neg (hfresh d hd)]
      exact h.requeued d x hd hx
    · rw [if_pos rfl]
      cases he.symm.trans hx
      rfl
  · intro k hk
    have hck : k ≠ e.eventId := by
      intro heq
      exact hk c ((htaken c).mpr (Or.inr rfl)) (hkey.symm.trans heq.symm)
    have hold := h.still k fun d hd => hk d ((htaken d).mpr (Or.inl hd))
    exact ⟨by rw [hget, if_neg hck, hold.1],(htrail k hck).trans hold.2⟩
  · intro d hd
    rw [htaken, ← h.replayed d hd, List.mem_append, List.mem_singleton]
    apply or_congr Iff.rfl
    constructor
    · intro hid
      by_contra hne
      exact hrows hd hne hid
    · rintro rfl
      rfl

/-- The loop goes through, or ends at the candidate whose message is not accepted. -/
theorem dlqReplay_progress (publish : Publisher) (now : Time) (hdb : db.Stored) {candidates : List DeadLetter}
    (hrows : ∀ d ∈ candidates, d ∈ db.deadLetters.rows) :
    (∃ b, dlqReplay publish now db (candidates.map DeadLetter.id) = .ok b ∧ Progress db now candidates b) ∨
    ∃ done c rest b, candidates = done ++ c :: rest ∧
      dlqReplay publish now db (candidates.map DeadLetter.id) = .error b ∧ Progress db now done b ∧
      ¬ PassedOver db done c ∧ ∃ m : QueueMessage, m.eventId = c.eventId ∧ publish b.sent m = false := by
  have hbefore {done rest : List DeadLetter} {c : DeadLetter} (heq : candidates = done ++ c :: rest) :
      c ∈ db.deadLetters.rows ∧ ∀ d ∈ done, d ∈ db.deadLetters.rows := by
    refine ⟨hrows c (by simp [heq]),fun d hd => hrows d (by simp [heq,hd])⟩
  unfold dlqReplay
  rw [Outcome.loop_map]
  have hstep : ∀ done c rest b t, candidates = done ++ c :: rest → Progress db now done b →
      replayCandidate publish now b c.id = .ok t → Progress db now (done ++ [c]) t := by
    intro done c rest b t heq hprogress ht
    obtain ⟨hc,hdone⟩ := hbefore heq
    by_cases hpass : PassedOver db done c
    · obtain ⟨hok,hnext⟩ := hprogress.pass publish hc hpass
      cases hok.symm.trans ht
      exact hnext
    · obtain ⟨_,_,_,_,hreplay,hnext⟩ := hprogress.advance publish hdb.keys hc hdone hpass
      rw [hreplay] at ht
      split at ht
      · cases ht
        exact hnext
      · cases ht
  rcases Outcome.loop_upto hstep (start_progress now hdb) with ⟨b,hb,hprogress⟩ |
      ⟨done,c,rest,b,b',heq,hprogress,herror,hb⟩
  · exact Or.inl ⟨b,hb,hprogress⟩
  · right
    obtain ⟨hc,hdone⟩ := hbefore heq
    have hpass : ¬ PassedOver db done c := by
      intro hpass
      rw [(hprogress.pass publish hc hpass).1] at herror
      cases herror
    obtain ⟨m,_,hm,_,hreplay,_⟩ := hprogress.advance publish hdb.keys hc hdone hpass
    rw [hreplay] at herror
    split at herror
    · cases herror
    · next hreject =>
      cases herror
      exact ⟨done,c,rest,b,heq,hb,hprogress,hpass,m,hm,by simpa using hreject⟩

end Loop

/-! ## Failing publications -/

/-- A command that an exception has ended: some candidate's message was not accepted.
The candidates before it that could be replayed, the first of each event, are replayed
and their events are QUEUED with a full retry budget. It and those after it are as they
were, so each that could be replayed still can be, except that a candidate whose event
was requeued finds that event moved. -/
theorem dlqReplay_failed (publish : Publisher) (now : Time) (db : Ledger) (hdb : db.Stored)
    (candidates : List DeadLetter) (hrows : ∀ d ∈ candidates, d ∈ db.deadLetters.rows) (b : BulkReplay)
    (h : dlqReplay publish now db (candidates.map DeadLetter.id) = .error b) :
    ∃ done c rest, candidates = done ++ c :: rest ∧
      (∃ m : QueueMessage, m.eventId = c.eventId ∧ publish b.sent m = false) ∧
      (∀ x, Taken db done x → x.eventId ≠ c.eventId) ∧
      (∀ d, Taken db done d → b.ledger.getDeadLetter d.id = some (d.replayed now) ∧
        ∃ e, b.ledger.getEvent d.eventId = some e ∧ e.status = queued ∧ e.attemptCount = 0) ∧
      (∀ d ∈ c :: rest, ¬ Taken db done d → b.ledger.getDeadLetter d.id = some d) ∧
      ∀ d ∈ c :: rest, (∀ x, Taken db done x → x.eventId ≠ d.eventId) →
        b.ledger.getEvent d.eventId = db.getEvent d.eventId ∧
        b.ledger.listTransitions d.eventId = db.listTransitions d.eventId ∧
        (b.ledger.Replayable d ↔ db.Replayable d) := by
  rcases dlqReplay_progress publish now hdb hrows with ⟨b',hok,_⟩ |
      ⟨done,c,rest,b',heq,herror,hprogress,hpass,hreject⟩
  · cases h.symm.trans hok
  · cases h.symm.trans herror
    refine ⟨done,c,rest,heq,hreject,?_,fun d hd => ?_,fun d hd hnot => ?_,fun d hd hfresh => ?_⟩
    · exact (not_taken_iff_fresh c.eventId).mpr (not_not.mp hpass).2
    · obtain ⟨e,he,_⟩ := hd.mem.2.event
      exact ⟨hprogress.taken d hd,e.requeued d,hprogress.requeued d e hd he,rfl,rfl⟩
    · exact hprogress.left d (hrows d (heq ▸ List.mem_append_right done hd)) hnot
    · obtain ⟨hevent,htrail⟩ := hprogress.still d.eventId hfresh
      refine ⟨hevent,htrail,?_⟩
      unfold Ledger.Replayable
      rw [hevent]

namespace System

/-- An upload of one event that the platform refuses. -/
def refuse (uploader : ℕ) (id : String) : List Action :=
  [.uploader uploader .begin, .uploader uploader (.select [id]), .commit (.uploader uploader),
    .uploader uploader .send, .uploader uploader (.finish (.permanent "http_401"))]

/-- `hubspot:2` is dead-lettered; then `hubspot:1`, by two uploaders, the second of
which has reclaimed it as stale, so that it has two open records. -/
def buryTwice : List Action :=
  processBody secondBody 0 ++ refuse 0 "hubspot:2" ++ [.uploader 0 .load, .commit (.uploader 0), .tick 1] ++
    processBody (clickBody 1704067200000) 1 ++ refuse 0 "hubspot:1" ++ [.tick 600000001] ++ refuse 1 "hubspot:1" ++
    [.uploader 0 .load, .uploader 1 .load, .commit (.uploader 0), .commit (.uploader 1)]

end System

/-- A publisher that fails after its first message. -/
def failsLater : Publisher := fun sent _ => sent.isEmpty

/-- Where the newest record is replayed, the second of its event passed over, and the
publication of the third fails. -/
theorem failsLater_run : ∃ (s : System) (b : BulkReplay) (c₃ c₂ c₁ : DeadLetter),
    System.run twoRuntime (fun _ => .single) (System.start Ledger.empty) System.buryTwice = some s ∧
    s.ledger.Stored ∧ listDeadLetters s.ledger (.byReason "permanent:") 1000 = [c₃,c₂,c₁] ∧
    dlqReplay failsLater 0 s.ledger ([c₃,c₂,c₁].map DeadLetter.id) = .error b ∧
    s.ledger.Replayable c₂ ∧ b.ledger.Closed c₃.id ∧ ¬ b.ledger.Closed c₂.id ∧
    b.ledger.getEvent c₂.eventId ≠ s.ledger.getEvent c₂.eventId := by
  have h : (System.run twoRuntime (fun _ => .single) (System.start Ledger.empty) System.buryTwice).map (fun s =>
      (s.ledger.fits && decide (∀ d ∈ s.ledger.deadLetters.rows, d.id < 2 ^ 31 ∧ s.ledger.Replayable d),
        (listDeadLetters s.ledger (.byReason "permanent:") 1000).map (fun d => (d.id,d.eventId)),
        (Outcome.raised (dlqReplay failsLater 0 s.ledger [3,2,1])).map fun b =>
          [decide (b.ledger.Closed 3),decide (b.ledger.Closed 2),
            decide (b.ledger.getEvent "hubspot:1" = s.ledger.getEvent "hubspot:1")])) =
      some (true,[(3,"hubspot:1"),(2,"hubspot:1"),(1,"hubspot:2")],some [true,false,false]) := by
    decide +kernel
  obtain ⟨s,hs,hcols⟩ := Option.map_eq_some_iff.mp h
  simp only [Prod.mk.injEq, Bool.and_eq_true, decide_eq_true_eq] at hcols
  obtain ⟨⟨hfits,hledger⟩,hrows,hrun⟩ := hcols
  obtain ⟨b,hb,hafter⟩ := Option.map_eq_some_iff.mp hrun
  simp only [List.cons.injEq, decide_eq_true_eq, decide_eq_false_iff_not] at hafter
  obtain ⟨c₃,l₃,hlist,h₃,hl₃⟩ := List.map_eq_cons_iff.mp hrows
  obtain ⟨c₂,l₂,rfl,h₂,hl₂⟩ := List.map_eq_cons_iff.mp hl₃
  obtain ⟨c₁,l₁,rfl,h₁,hl₁⟩ := List.map_eq_cons_iff.mp hl₂
  obtain rfl := List.map_eq_nil_iff.mp hl₁
  obtain ⟨hid₃,hkey₃⟩ := Prod.mk.inj h₃
  obtain ⟨hid₂,hkey₂⟩ := Prod.mk.inj h₂
  have hmem : c₂ ∈ s.ledger.deadLetters.rows :=
    (listDeadLetters_listing s.ledger (.byReason "permanent:") 1000).mem (by simp [hlist])
  refine ⟨s,b,c₃,c₂,c₁,hs,⟨hfits,fun d hd => (hledger d hd).1⟩,hlist,?_,(hledger c₂ hmem).2,?_,?_,?_⟩
  · rw [List.map_cons, List.map_cons, List.map_cons, List.map_nil, hid₃, hid₂, (Prod.mk.inj h₁).1]
    exact Outcome.raised_eq_some.mp hb
  · rw [hid₃]
    exact hafter.1
  · rw [hid₂]
    exact hafter.2.1
  · rw [hkey₂]
    exact hafter.2.2.1

/-- The theorem at this run. -/
theorem dlqReplay_failed_third : ∃ (s : System) (b : BulkReplay) (done rest : List DeadLetter) (c : DeadLetter),
    System.run twoRuntime (fun _ => .single) (System.start Ledger.empty) System.buryTwice = some s ∧
    listDeadLetters s.ledger (.byReason "permanent:") 1000 = done ++ c :: rest ∧
    dlqReplay failsLater 0 s.ledger ((done ++ c :: rest).map DeadLetter.id) = .error b ∧
    ∀ d ∈ c :: rest, ¬ Taken s.ledger done d → b.ledger.getDeadLetter d.id = some d := by
  obtain ⟨s,b,c₃,c₂,c₁,hs,hstored,hlist,hb,_⟩ := failsLater_run
  have hrows : ∀ d ∈ [c₃,c₂,c₁], d ∈ s.ledger.deadLetters.rows := fun d hd =>
    (listDeadLetters_listing s.ledger (.byReason "permanent:") 1000).mem (hlist ▸ hd)
  obtain ⟨done,c,rest,heq,_,_,_,hlater,_⟩ := dlqReplay_failed failsLater 0 s.ledger hstored [c₃,c₂,c₁] hrows b hb
  exact ⟨s,b,done,rest,c,hs,hlist.trans heq,heq ▸ hb,hlater⟩

/-- The second record could be replayed as well and came before the failure, and yet it
is not replayed; or, if it counts as not reached, its event is not as it was. -/
theorem not_dlqReplay_atomic_twins : ¬ ∀ (publish : Publisher) (now : Time) (db : Ledger), db.Stored →
    ∀ candidates : List DeadLetter, (∀ d ∈ candidates, d ∈ db.deadLetters.rows) → ∀ b : BulkReplay,
    dlqReplay publish now db (candidates.map DeadLetter.id) = .error b →
    ∃ done c rest, candidates = done ++ c :: rest ∧
      (∃ m : QueueMessage, m.eventId = c.eventId ∧ publish b.sent m = false) ∧
      (∀ d ∈ done, db.Replayable d → b.ledger.getDeadLetter d.id = some (d.replayed now) ∧
        ∃ e, b.ledger.getEvent d.eventId = some e ∧ e.status = queued ∧ e.attemptCount = 0) ∧
      ∀ d ∈ c :: rest, b.ledger.getDeadLetter d.id = some d ∧
        b.ledger.getEvent d.eventId = db.getEvent d.eventId ∧
        b.ledger.listTransitions d.eventId = db.listTransitions d.eventId := by
  intro hclaim
  obtain ⟨s,b,c₃,c₂,c₁,_,hstored,hlist,hb,hreplayable,_,hopen,hevent⟩ := failsLater_run
  have hrows : ∀ d ∈ [c₃,c₂,c₁], d ∈ s.ledger.deadLetters.rows := fun d hd =>
    (listDeadLetters_listing s.ledger (.byReason "permanent:") 1000).mem (hlist ▸ hd)
  obtain ⟨done,c,rest,heq,_,hdone,hlater⟩ := hclaim failsLater 0 s.ledger hstored [c₃,c₂,c₁] hrows b hb
  by_cases hmem : c₂ ∈ done
  · have hreplayed := (hdone c₂ hmem hreplayable).1
    exact hopen ⟨_,hreplayed,rfl⟩
  · have hrest : c₂ ∈ c :: rest := by
      have hall : c₂ ∈ done ++ c :: rest := heq ▸ (by simp)
      exact (List.mem_append.mp hall).resolve_left hmem
    exact hevent (hlater c₂ hrest).2.1

/-! ## Replays by filter -/

/-- Every predicate that was given holds of the record. -/
def DlqFilter.Satisfied (flt : DlqFilter) (d : DeadLetter) : Prop :=
  (∀ s ∈ flt.eventId, d.eventId = s) ∧ (∀ s ∈ flt.source, d.source.value = s) ∧
    (∀ s ∈ flt.failureClass, d.failureClass.value = s) ∧
    (∀ s ∈ flt.reasonPrefix, s.toList <+: d.reason.toList) ∧
    (∀ t ∈ flt.since, t ≤ d.deadLetteredAt) ∧ ∀ t ∈ flt.untilTime, d.deadLetteredAt < t

/-- Nothing in the filter that the query reads otherwise: no empty text, and no pattern
character in the prefix. -/
structure DlqFilter.Plain (flt : DlqFilter) : Prop where
  eventId : flt.eventId ≠ some ""
  source : flt.source ≠ some ""
  failureClass : flt.failureClass ≠ some ""
  reasonPrefix : ∀ s ∈ flt.reasonPrefix, Like.Plain s.toList

theorem DlqFilter.whenTrue_iff {p : String → Bool} {value : Option String} (h : value ≠ some "") :
    whenTrue p value = true ↔ ∀ s ∈ value, p s = true := by
  cases value with
  | none => simp [whenTrue]
  | some s =>
    have hs : s ≠ "" := fun heq => h (by rw [heq])
    simp [whenTrue,hs]

/-- The clause of a plain filter says what the filter says, of the open records. -/
theorem DlqFilter.Plain.selects_iff {flt : DlqFilter} (h : flt.Plain) (hflt : flt.includeReplayed = false)
    (d : DeadLetter) : flt.selects d = true ↔ d.replayedAt = none ∧ flt.Satisfied d := by
  have hreason : whenTrue (fun s => Like.startswith s d.reason) flt.reasonPrefix = true ↔
      ∀ s ∈ flt.reasonPrefix, s.toList <+: d.reason.toList := by
    cases hp : flt.reasonPrefix with
    | none => simp [whenTrue]
    | some s =>
      have hplain := h.reasonPrefix s hp
      by_cases hs : s = ""
      · simp [whenTrue,hs]
      · simp [whenTrue,hs,Like.startswith_plain hplain]
  simp only [selects, hflt, Bool.false_or, Bool.and_eq_true, decide_eq_true_eq, whenTrue_iff h.eventId,
    whenTrue_iff h.source, whenTrue_iff h.failureClass, hreason, Satisfied, Option.all_eq_true]
  constructor
  · rintro ⟨⟨⟨⟨⟨⟨hopen,hid⟩,hsource⟩,hclass⟩,hreason⟩,hsince⟩,huntil⟩
    exact ⟨hopen,hid,hsource,hclass,hreason,hsince,huntil⟩
  · rintro ⟨hopen,hid,hsource,hclass,hreason,hsince,huntil⟩
    exact ⟨⟨⟨⟨⟨⟨hopen,hid⟩,hsource⟩,hclass⟩,hreason⟩,hsince⟩,huntil⟩

/-- The rows that the query ranks. -/
def Ledger.selected (db : Ledger) (flt : DlqFilter) : List DeadLetter := db.deadLetters.rows.filter flt.selects

/-- The query treats a record as the filter says: one that it satisfies is selected,
within the limit whatever the order of rows of one time, and ahead of all others of
its event; one that it does not satisfy is not selected, or beyond the limit, or
behind another of its event. -/
structure DlqFilter.Faithful (flt : DlqFilter) (db : Ledger) (limit : ℕ) (d : DeadLetter) : Prop where
  complete : flt.Satisfied d → flt.selects d = true ∧
    (db.selected flt).countP (fun x => d.deadLetteredAt ≤ x.deadLetteredAt) ≤ limit ∧
    ∀ x ∈ db.selected flt, x.eventId = d.eventId → d.deadLetteredAt ≤ x.deadLetteredAt → x.id = d.id
  sound : ¬ flt.Satisfied d → flt.selects d = false ∨
    limit ≤ (db.selected flt).countP (fun x => d.deadLetteredAt < x.deadLetteredAt) ∨
    ∃ x ∈ db.selected flt, x.eventId = d.eventId ∧ d.deadLetteredAt < x.deadLetteredAt

instance (flt : DlqFilter) (d : DeadLetter) : Decidable (flt.Satisfied d) := inferInstanceAs (Decidable (_ ∧ _))

instance (flt : DlqFilter) (db : Ledger) (limit : ℕ) (d : DeadLetter) : Decidable (flt.Faithful db limit d) :=
  decidable_of_iff (_ ∧ _) ⟨fun h => ⟨h.1,h.2⟩,fun h => ⟨h.complete,h.sound⟩⟩

section Filter
variable {db : Ledger} {flt : DlqFilter} {limit : ℕ} {order front back : List DeadLetter} {d x : DeadLetter}

theorem selected_open (hflt : flt.includeReplayed = false) (hx : x ∈ db.selected flt) :
    x ∈ db.deadLetters.rows ∧ x.replayedAt = none := by
  obtain ⟨hmem,hsel⟩ := List.mem_filter.mp hx
  refine ⟨hmem,?_⟩
  simp only [DlqFilter.selects, hflt, Bool.false_or, Bool.and_eq_true, decide_eq_true_eq] at hsel
  exact hsel.1.1.1.1.1.1

/-- A record of the ranking is taken if it is within the limit and the first of its event. -/
theorem taken_ranked (hflt : flt.includeReplayed = false)
    (h : Ranking.Ordered DeadLetter.deadLetteredAt (db.selected flt) (front ++ d :: back)) :
    Taken db ((front ++ d :: back).take limit) d ↔
      db.Replayable d ∧ front.length < limit ∧ ∀ x ∈ front, x.eventId ≠ d.eventId := by
  have hnodup : (front ++ d :: back).Nodup := h.perm.nodup_iff.mpr (db.deadLetters.serials_nodup.of_map.filter _)
  have hopen {x : DeadLetter} (hx : x ∈ front) : x.replayedAt = none :=
    (selected_open hflt (h.perm.mem_iff.mp (List.mem_append_left _ hx))).2
  constructor
  · intro ht
    have hlt := (Ranking.mem_take_iff hnodup).mp ht.mem.1
    obtain ⟨pre,post,heq,hd,hfirst⟩ := ht
    have hwhole : front ++ d :: back = pre ++ d :: (post ++ (front ++ d :: back).drop limit) := by
      conv_lhs => rw [← List.take_append_drop limit (front ++ d :: back), heq, List.append_assoc, List.cons_append]
    have hsides : d ∉ front ∧ d ∉ back := by
      have hmiddle := (List.perm_middle.nodup_iff).mp hnodup
      simpa using (List.nodup_cons.mp hmiddle).1
    obtain ⟨rfl,_,_⟩ := (List.append_cons_inj_of_notMem hsides.1 hsides.2).mp hwhole
    refine ⟨hd,hlt,fun x hx hkey => hfirst x hx ⟨hopen hx,?_⟩ hkey⟩
    rw [hkey]
    exact hd.2
  · rintro ⟨hd,hlt,hfirst⟩
    refine ⟨front,back.take (limit - front.length - 1),?_,hd,fun x hx _ => hfirst x hx⟩
    have hpos : limit - front.length = (limit - front.length - 1) + 1 := by omega
    rw [List.take_append, List.take_of_length_le (Nat.le_of_lt hlt), hpos, List.take_succ_cons]
    rfl

theorem exists_rest (hd : d ∈ db.selected flt) : ∃ rest, (db.selected flt).Perm (d :: rest) := by
  obtain ⟨front,back,heq⟩ := List.append_of_mem hd
  exact ⟨front ++ back,by rw [heq]; exact List.perm_middle⟩

/-- In a faithful query a record is taken if and only if it satisfies the filter. -/
theorem Faithful.taken_iff (hflt : flt.includeReplayed = false) (hd : d ∈ db.deadLetters.rows)
    (hfaithful : db.Replayable d → flt.Faithful db limit d)
    (h : Ranking.Ordered DeadLetter.deadLetteredAt (db.selected flt) order) :
    Taken db (order.take limit) d ↔ db.Replayable d ∧ flt.Satisfied d := by
  constructor
  · intro ht
    obtain ⟨hmem,hr⟩ := ht.mem
    refine ⟨hr,?_⟩
    by_contra hnot
    obtain ⟨front,back,rfl⟩ := List.append_of_mem (List.mem_of_mem_take hmem)
    have hsel : flt.selects d = true := (List.mem_filter.mp (h.perm.mem_iff.mp (by simp))).2
    obtain ⟨_,hlt,hfirst⟩ := (taken_ranked hflt h).mp ht
    rcases (hfaithful hr).sound hnot with hout | hbeyond | ⟨x,hx,hkey,hnewer⟩
    · rw [hsel] at hout
      cases hout
    · have hcount : (db.selected flt).countP (fun x => d.deadLetteredAt < x.deadLetteredAt) ≤ front.length := by
        rw [← h.perm.countP_eq, List.countP_append]
        have hlow : (d :: back).countP (fun x => d.deadLetteredAt < x.deadLetteredAt) = 0 := by
          refine List.countP_eq_zero.mpr fun x hx => ?_
          have hpair := (List.pairwise_append.mp h.descending).2.1
          rcases List.mem_cons.mp hx with rfl | hx
          · simp
          · have hle := (List.pairwise_cons.mp hpair).1 x hx
            simpa using hle
        rw [hlow, Nat.add_zero]
        exact List.countP_le_length
      omega
    · exact hfirst x (h.mem_front hx hnewer) hkey
  · rintro ⟨hr,hsat⟩
    obtain ⟨hsel,hroom,halone⟩ := (hfaithful hr).complete hsat
    have hselected : d ∈ db.selected flt := List.mem_filter.mpr ⟨hd,hsel⟩
    obtain ⟨front,back,rfl⟩ := List.append_of_mem (h.perm.mem_iff.mpr hselected)
    refine (taken_ranked hflt h).mpr ⟨hr,?_,fun x hx hkey => ?_⟩
    · rw [← h.perm.countP_eq, List.countP_append, List.countP_cons] at hroom
      have hall : front.countP (fun x => d.deadLetteredAt ≤ x.deadLetteredAt) = front.length :=
        List.countP_eq_length.mpr fun x hx => by simpa using h.front_le hx
      simp only [hall, le_refl, decide_true, if_true] at hroom
      omega
    · have hx' : x ∈ db.selected flt := h.perm.mem_iff.mp (List.mem_append_left _ hx)
      have heq := Journal.eq_of_serial (List.mem_filter.mp hx').1 hd (halone x hx' hkey (h.front_le hx))
      have hnodup : (front ++ d :: back).Nodup := h.perm.nodup_iff.mpr (db.deadLetters.serials_nodup.of_map.filter _)
      exact (List.nodup_append.mp hnodup).2.2 x hx d List.mem_cons_self heq

/-- A query that takes what satisfies the filter, however it arranges the rows of one
time, is faithful. -/
theorem Faithful.of_taken (hflt : flt.includeReplayed = false) (hd : d ∈ db.deadLetters.rows) (hr : db.Replayable d)
    (h : ∀ order, Ranking.Ordered DeadLetter.deadLetteredAt (db.selected flt) order →
      (Taken db (order.take limit) d ↔ db.Replayable d ∧ flt.Satisfied d)) : flt.Faithful db limit d := by
  constructor
  · intro hsat
    have hany := (h _ (Ranking.ordered_insertionSort DeadLetter.deadLetteredAt _)).mpr ⟨hr,hsat⟩
    have hselected : d ∈ db.selected flt :=
      (List.perm_insertionSort _ _).mem_iff.mp (List.mem_of_mem_take hany.mem.1)
    obtain ⟨rest,hrest⟩ := exists_rest hselected
    obtain ⟨front,back,hordered,hfront⟩ := Ranking.exists_ordered DeadLetter.deadLetteredAt
      (fun x => decide (d.deadLetteredAt ≤ x.deadLetteredAt)) hrest
      (fun x _ hlt => by simpa using le_of_lt hlt) (fun x _ hp => by simpa using hp)
    obtain ⟨_,hlt,hfirst⟩ := (taken_ranked hflt hordered).mp ((h _ hordered).mpr ⟨hr,hsat⟩)
    refine ⟨(List.mem_filter.mp hselected).2,?_,fun x hx hkey hnewer => ?_⟩
    · rw [hrest.countP_eq, List.countP_cons, List.countP_eq_length_filter, ← hfront.length_eq]
      simp
      omega
    · rcases List.mem_cons.mp (hrest.mem_iff.mp hx) with rfl | hx
      · rfl
      · exact absurd hkey (hfirst x (hfront.mem_iff.mpr (List.mem_filter.mpr ⟨hx,by simpa using hnewer⟩)))
  · intro hnot
    by_contra hnone
    simp only [not_or, not_exists, not_and, Bool.not_eq_false, not_le] at hnone
    obtain ⟨hsel,hroom,halone⟩ := hnone
    have hselected : d ∈ db.selected flt := List.mem_filter.mpr ⟨hd,hsel⟩
    obtain ⟨rest,hrest⟩ := exists_rest hselected
    obtain ⟨front,back,hordered,hfront⟩ := Ranking.exists_ordered DeadLetter.deadLetteredAt
      (fun x => decide (d.deadLetteredAt < x.deadLetteredAt)) hrest
      (fun x _ hlt => by simpa using hlt) (fun x _ hp => le_of_lt (by simpa using hp))
    have htaken : Taken db ((front ++ d :: back).take limit) d := by
      refine (taken_ranked hflt hordered).mpr ⟨hr,?_,fun x hx hkey => ?_⟩
      · rw [hrest.countP_eq, List.countP_cons, List.countP_eq_length_filter, ← hfront.length_eq] at hroom
        simpa using hroom
      · obtain ⟨hx,hnewer⟩ := List.mem_filter.mp (hfront.mem_iff.mp hx)
        have hx' := hrest.mem_iff.mpr (List.mem_cons_of_mem d hx)
        exact halone x hx' hkey (by simpa using hnewer)
    exact hnot ((h _ hordered).mp htaken).2

end Filter

/-- The command has replayed the records that satisfy the filter, of those that can be
replayed, and has changed no other record and no other event. -/
structure BulkReplay.Exact (b : BulkReplay) (db : Ledger) (flt : DlqFilter) (now : Time) : Prop where
  replayed : ∀ d ∈ db.deadLetters.rows, d.id ∈ b.replayed ↔ db.Replayable d ∧ flt.Satisfied d
  moved : ∀ d ∈ db.deadLetters.rows, db.Replayable d → flt.Satisfied d →
    b.ledger.getDeadLetter d.id = some (d.replayed now) ∧
      ∃ e, b.ledger.getEvent d.eventId = some e ∧ e.status = queued
  records : ∀ d ∈ db.deadLetters.rows, ¬ (db.Replayable d ∧ flt.Satisfied d) →
    b.ledger.getDeadLetter d.id = some d
  events : ∀ k, (∀ d ∈ db.deadLetters.rows, db.Replayable d → flt.Satisfied d → d.eventId ≠ k) →
    b.ledger.getEvent k = db.getEvent k ∧ b.ledger.listTransitions k = db.listTransitions k

theorem Progress.exact_iff {db : Ledger} {flt : DlqFilter} {now : Time} {done : List DeadLetter} {b : BulkReplay}
    (h : Progress db now done b) (hdone : ∀ d ∈ done, d ∈ db.deadLetters.rows) : b.Exact db flt now ↔
      ∀ d ∈ db.deadLetters.rows, (Taken db done d ↔ db.Replayable d ∧ flt.Satisfied d) := by
  constructor
  · intro hexact d hd
    rw [← h.replayed d hd, hexact.replayed d hd]
  · intro hsame
    refine ⟨fun d hd => (h.replayed d hd).trans (hsame d hd),fun d hd hr hsat => ?_,fun d hd hnot => ?_,
      fun k hk => ?_⟩
    · have ht := (hsame d hd).mpr ⟨hr,hsat⟩
      obtain ⟨e,he,_⟩ := hr.event
      exact ⟨h.taken d ht,e.requeued d,h.requeued d e ht he,rfl⟩
    · exact h.left d hd fun ht => hnot ((hsame d hd).mp ht)
    · refine h.still k fun d ht => ?_
      obtain ⟨hr,hsat⟩ := (hsame d (hdone d ht.mem.1)).mp ht
      exact hk d (hdone d ht.mem.1) hr hsat

/-- Where every message is accepted, the command does exactly what the filter says,
whatever the order of rows of one time, if and only if the query is faithful to it. -/
theorem dlqReplay_exact_iff (db : Ledger) (flt : DlqFilter) (now : Time) (hdb : db.Stored)
    (hflt : flt.includeReplayed = false) :
    (∀ candidates, Candidates db flt none candidates →
      ∃ b, dlqReplay (fun _ _ => true) now db candidates = .ok b ∧ b.Exact db flt now) ↔
    ∀ d ∈ db.deadLetters.rows, db.Replayable d → flt.Faithful db 1000 d := by
  have hrun {order : List DeadLetter} (h : Ranking.Ordered DeadLetter.deadLetteredAt (db.selected flt) order) :
      (∀ d ∈ order.take 1000, d ∈ db.deadLetters.rows) ∧
      ∃ b, dlqReplay (fun _ _ => true) now db ((order.take 1000).map DeadLetter.id) = .ok b ∧
        Progress db now (order.take 1000) b := by
    have hlisting : Listing db flt 1000 (order.take 1000) := ⟨order,h,rfl⟩
    have hrows : ∀ d ∈ order.take 1000, d ∈ db.deadLetters.rows := fun d hd => hlisting.mem hd
    refine ⟨hrows,?_⟩
    rcases dlqReplay_progress (fun _ _ => true) now hdb hrows with hok | ⟨_,_,_,_,_,_,_,_,_,_,hreject⟩
    · exact hok
    · cases hreject
  constructor
  · intro h d hd hr
    refine Faithful.of_taken hflt hd hr fun order horder => ?_
    obtain ⟨hrows,b,hb,hprogress⟩ := hrun horder
    obtain ⟨b',hb',hexact⟩ := h _ (.byFilter ⟨order,horder,rfl⟩)
    cases hb.symm.trans hb'
    exact (hprogress.exact_iff hrows).mp hexact d hd
  · intro hfaithful candidates hcandidates
    cases hcandidates with
    | byFilter hlisting =>
    obtain ⟨order,horder,rfl⟩ := hlisting
    obtain ⟨hrows,b,hb,hprogress⟩ := hrun horder
    refine ⟨b,hb,(hprogress.exact_iff hrows).mpr fun d hd => ?_⟩
    exact Faithful.taken_iff hflt hd (hfaithful d hd) horder

theorem dlqReplay_exact_iff_permanent : ∃ db, serialRun (clickRuntime 1704067200000) Ledger.empty
      (buryAndReplay.take 5) = some db ∧
    ∀ candidates, Candidates db (.byReason "permanent:") none candidates →
      ∃ b, dlqReplay (fun _ _ => true) 0 db candidates = .ok b ∧ b.Exact db (.byReason "permanent:") 0 := by
  have h : (serialRun (clickRuntime 1704067200000) Ledger.empty (buryAndReplay.take 5)).map
      (fun db => (db.fits,decide (∀ d ∈ db.deadLetters.rows, d.id < 2 ^ 31),
        decide (∀ d ∈ db.deadLetters.rows, db.Replayable d → (DlqFilter.byReason "permanent:").Faithful db 1000 d))) =
      some (true,true,true) := by decide +kernel
  obtain ⟨db,hdb,hcols⟩ := Option.map_eq_some_iff.mp h
  simp only [Prod.mk.injEq, decide_eq_true_eq] at hcols
  exact ⟨db,hdb,(dlqReplay_exact_iff db _ 0 ⟨hcols.1,hcols.2.1⟩ rfl).mpr hcols.2.2⟩

/-- The underscore of `permanent_` stands for any character, so the failures of whole
batches, `permanent:..`, are replayed with those of single rows, `permanent_row:..`. -/
theorem not_dlqReplay_exact_wildcard : ¬ ∀ (db : Ledger) (flt : DlqFilter) (now : Time), db.Stored →
    flt.includeReplayed = false → ∀ candidates, Candidates db flt none candidates →
      ∃ b, dlqReplay (fun _ _ => true) now db candidates = .ok b ∧ b.Exact db flt now := by
  intro hclaim
  have h : (serialRun (clickRuntime 1704067200000) Ledger.empty (buryAndReplay.take 5)).map
      (fun db => (db.fits,decide (∀ d ∈ db.deadLetters.rows, d.id < 2 ^ 31),
        db.deadLetters.rows.map (fun d => (d.id,decide ((DlqFilter.byReason "permanent_").Satisfied d))),
        (dlqReplay (fun _ _ => true) 0 db ((listDeadLetters db (.byReason "permanent_") 1000).map
          DeadLetter.id)).toOption.map BulkReplay.replayed)) =
      some (true,true,[(2,false)],some [2]) := by decide +kernel
  obtain ⟨db,hdb,hcols⟩ := Option.map_eq_some_iff.mp h
  simp only [Prod.mk.injEq, decide_eq_true_eq] at hcols
  obtain ⟨hfits,hkeys,hrows,hrun⟩ := hcols
  obtain ⟨b,hb,hexact⟩ := hclaim db (.byReason "permanent_") 0 ⟨hfits,hkeys⟩ rfl _
    (.byFilter (listDeadLetters_listing db _ 1000))
  rw [hb] at hrun
  obtain ⟨d,hd,hcols⟩ := List.mem_map.mp (hrows ▸ List.mem_singleton_self ((2,false) : ℕ × Bool))
  obtain ⟨hid,hunsatisfied⟩ := Prod.mk.inj hcols
  have hreplayed : b.replayed = [2] := Option.some.inj hrun
  have hsat := ((hexact.replayed d hd).mp (by simp [hreplayed,hid])).2
  simp [hsat] at hunsatisfied

end ConversionGateway
