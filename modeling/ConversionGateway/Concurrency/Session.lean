import ConversionGateway.Model.DeadLetters

/-! # Sessions at READ COMMITTED

A session keeps the rows it has read as objects. Its operations run on a view of
the ledger that shows those objects in place of the committed rows; the commit
overwrites, by primary key, just the columns that differ from what was read.
-/
namespace ConversionGateway
open Relational

/-- A column at commit: what was read, what the object holds, what is committed. -/
def pick {T : Type} [DecidableEq T] (base final current : T) : T :=
  if final = base then current else final

@[simp] theorem pick_unchanged {T : Type} [DecidableEq T] (b c : T) : pick b b c = c := if_pos rfl

@[simp] theorem pick_fresh {T : Type} [DecidableEq T] (b f : T) : pick b f b = f := by
  unfold pick
  split
  · next h => exact h.symm
  · rfl

theorem pick_of_ne {T : Type} [DecidableEq T] {b f c : T} (h : f ≠ b) : pick b f c = f := if_neg h

theorem pick_eq_or {T : Type} [DecidableEq T] (b f c : T) : pick b f c = f ∨ pick b f c = c := by
  unfold pick
  split
  · exact Or.inr rfl
  · exact Or.inl rfl

/-- The UPDATE of an event object: only its changed columns. -/
def Event.merge (base final current : Event) : Event :=
  { eventId := pick base.eventId final.eventId current.eventId
    source := pick base.source final.source current.source
    sourceEventId := pick base.sourceEventId final.sourceEventId current.sourceEventId
    receivedAt := pick base.receivedAt final.receivedAt current.receivedAt
    correlationId := pick base.correlationId final.correlationId current.correlationId
    conversionAction := pick base.conversionAction final.conversionAction current.conversionAction
    conversionTime := pick base.conversionTime final.conversionTime current.conversionTime
    conversionValue := pick base.conversionValue final.conversionValue current.conversionValue
    currency := pick base.currency final.currency current.currency
    matchKeyType := pick base.matchKeyType final.matchKeyType current.matchKeyType
    clickId := pick base.clickId final.clickId current.clickId
    hashedIdentifiers := pick base.hashedIdentifiers final.hashedIdentifiers current.hashedIdentifiers
    consentAdUserData := pick base.consentAdUserData final.consentAdUserData current.consentAdUserData
    consentAdPersonalization :=
      pick base.consentAdPersonalization final.consentAdPersonalization current.consentAdPersonalization
    status := pick base.status final.status current.status
    statusReason := pick base.statusReason final.statusReason current.statusReason
    attemptCount := pick base.attemptCount final.attemptCount current.attemptCount
    lastAttemptAt := pick base.lastAttemptAt final.lastAttemptAt current.lastAttemptAt }

namespace Event

@[simp] theorem merge_unchanged (b c : Event) : merge b b c = c := by simp [merge]

@[simp] theorem merge_fresh (b f : Event) : merge b f b = f := by simp [merge]

@[simp] theorem merge_status (b f c : Event) :
    (merge b f c).status = pick b.status f.status c.status := rfl

@[simp] theorem merge_hashedIdentifiers (b f c : Event) : (merge b f c).hashedIdentifiers =
    pick b.hashedIdentifiers f.hashedIdentifiers c.hashedIdentifiers := rfl

@[simp] theorem merge_attemptCount (b f c : Event) :
    (merge b f c).attemptCount = pick b.attemptCount f.attemptCount c.attemptCount := rfl

@[simp] theorem merge_lastAttemptAt (b f c : Event) :
    (merge b f c).lastAttemptAt = pick b.lastAttemptAt f.lastAttemptAt c.lastAttemptAt := rfl

theorem identity_eq_iff {a b : Event} : a.identity = b.identity ↔
    a.eventId = b.eventId ∧ a.source = b.source ∧ a.sourceEventId = b.sourceEventId ∧
    a.receivedAt = b.receivedAt ∧ a.conversionAction = b.conversionAction ∧
    a.conversionTime = b.conversionTime ∧ a.conversionValue = b.conversionValue ∧
    a.currency = b.currency ∧ a.matchKeyType = b.matchKeyType ∧ a.clickId = b.clickId ∧
    a.consentAdUserData = b.consentAdUserData ∧
    a.consentAdPersonalization = b.consentAdPersonalization := by
  simp [identity, consent]

/-- An object whose identity columns were not assigned leaves those of the row alone. -/
theorem merge_identity {b f c : Event} (h : f.identity = b.identity) :
    (merge b f c).identity = c.identity := by
  obtain ⟨h₁,h₂,h₃,h₄,h₅,h₆,h₇,h₈,h₉,h₁₀,h₁₁,h₁₂⟩ := identity_eq_iff.mp h
  simp [identity_eq_iff, merge, h₁, h₂, h₃, h₄, h₅, h₆, h₇, h₈, h₉, h₁₀, h₁₁, h₁₂]

end Event

/-- What a record keeps for good. -/
def DeadLetter.frozen (d : DeadLetter) : DeadLetter := { d with replayedAt := none, replayCount := 0 }

theorem DeadLetter.ext_frozen {a b : DeadLetter} (h : a.frozen = b.frozen) (hr : a.replayedAt = b.replayedAt)
    (hc : a.replayCount = b.replayCount) : a = b := by
  cases a
  cases b
  simp_all [frozen]

/-- The rows a transaction has read and not locked. -/
structure Session where
  events : List Event
  deadLetters : List DeadLetter

namespace Session

def empty : Session := ⟨[],[]⟩

/-- The object of the session for a row, or the row. -/
def event (s : Session) (r : Event) : Event :=
  (s.events.find? fun x => x.eventId = r.eventId).getD r

def deadLetter (s : Session) (r : DeadLetter) : DeadLetter :=
  (s.deadLetters.find? fun x => x.id = r.id).getD r

@[simp] theorem event_eventId (s : Session) (r : Event) : (s.event r).eventId = r.eventId := by
  unfold event
  cases h : s.events.find? fun x => x.eventId = r.eventId with
  | none => rfl
  | some x => simpa using List.find?_some h

@[simp] theorem deadLetter_id (s : Session) (r : DeadLetter) : (s.deadLetter r).id = r.id := by
  unfold deadLetter
  cases h : s.deadLetters.find? fun x => x.id = r.id with
  | none => rfl
  | some x => simpa using List.find?_some h

/-- What a session shows for a row is the row or an object read earlier. -/
theorem event_eq_or (s : Session) (r : Event) : s.event r = r ∨ s.event r ∈ s.events := by
  unfold event
  cases h : s.events.find? fun x => x.eventId = r.eventId with
  | none => exact Or.inl rfl
  | some x => exact Or.inr (List.mem_of_find?_eq_some h)

/-- The ledger as the session sees it. -/
def view (s : Session) (db : Ledger) : Ledger where
  events := db.events.mapRows s.event s.event_eventId
  transitions := db.transitions
  deadLetters := db.deadLetters.mapRows s.deadLetter s.deadLetter_id

/-- An event row after the commit, given the row of the session's final view. -/
def settle (s : Session) (db : Ledger) (final : Event) : Event :=
  match db.getEvent final.eventId with
  | none => final
  | some current => Event.merge (s.event current) final current

/-- Likewise for a record of the dead-letter store, of which only the two replay
columns are ever assigned. -/
def settleLetter (s : Session) (db : Ledger) (final : DeadLetter) : DeadLetter :=
  match db.getDeadLetter final.id with
  | none => final
  | some current =>
    { final with
      replayedAt := pick (s.deadLetter current).replayedAt final.replayedAt current.replayedAt
      replayCount := pick (s.deadLetter current).replayCount final.replayCount current.replayCount }

theorem settle_eventId (s : Session) (db : Ledger) (r : Event) :
    (s.settle db r).eventId = r.eventId := by
  unfold settle
  split
  · rfl
  · next current h =>
    have hc := Table.get_key h
    simp [Event.merge, hc]

theorem settleLetter_id (s : Session) (db : Ledger) (r : DeadLetter) :
    (s.settleLetter db r).id = r.id := by
  unfold settleLetter
  split <;> rfl

/-- The committed ledger, from the view `out` that the transaction ends with. -/
def flush (s : Session) (db out : Ledger) : Ledger where
  events := out.events.mapRows (s.settle db) (s.settle_eventId db)
  transitions := out.transitions
  deadLetters := out.deadLetters.mapRows (s.settleLetter db) (s.settleLetter_id db)

/-- Every object of the session is still the committed row. -/
structure Fresh (s : Session) (db : Ledger) : Prop where
  events : ∀ e ∈ s.events, db.getEvent e.eventId = some e
  deadLetters : ∀ d ∈ s.deadLetters, db.getDeadLetter d.id = some d

theorem fresh_empty (db : Ledger) : empty.Fresh db := ⟨by simp [empty],by simp [empty]⟩

variable {s : Session} {db out : Ledger}

theorem Fresh.event_eq (h : s.Fresh db) {r : Event} (hr : r ∈ db.events.rows) : s.event r = r := by
  rcases s.event_eq_or r with he | he
  · exact he
  · have hf := h.events _ he
    rw [event_eventId, Ledger.getEvent, Table.get_of_mem hr] at hf
    exact (Option.some.inj hf).symm

theorem Fresh.deadLetter_eq (h : s.Fresh db) {r : DeadLetter} (hr : r ∈ db.deadLetters.rows) :
    s.deadLetter r = r := by
  unfold deadLetter
  cases hx : s.deadLetters.find? fun x => x.id = r.id with
  | none => rfl
  | some x =>
    have hf := h.deadLetters x (List.mem_of_find?_eq_some hx)
    have hid : x.id = r.id := by simpa using List.find?_some hx
    rw [hid, Ledger.getDeadLetter, Journal.get_of_mem hr] at hf
    exact (Option.some.inj hf).symm

theorem Fresh.view_eq (h : s.Fresh db) : s.view db = db := by
  have he : db.events.mapRows s.event s.event_eventId = db.events :=
    Table.mapRows_eq_self fun r hr => h.event_eq hr
  have hd : db.deadLetters.mapRows s.deadLetter s.deadLetter_id = db.deadLetters :=
    Journal.mapRows_eq_self fun r hr => h.deadLetter_eq hr
  unfold view
  rw [he, hd]

/-- With nothing stale in the session, the commit is what the transaction saw. -/
theorem Fresh.flush_eq (h : s.Fresh db) : s.flush db out = out := by
  have he : out.events.mapRows (s.settle db) (s.settle_eventId db) = out.events := by
    refine Table.mapRows_eq_self fun r _ => ?_
    unfold settle
    split
    · rfl
    · next current hc => rw [h.event_eq (Table.mem_of_get hc), Event.merge_fresh]
  have hd : out.deadLetters.mapRows (s.settleLetter db) (s.settleLetter_id db) = out.deadLetters := by
    refine Journal.mapRows_eq_self fun r _ => ?_
    unfold settleLetter
    split
    · rfl
    · next current hc => rw [h.deadLetter_eq (Journal.mem_of_get hc), pick_fresh, pick_fresh]
  unfold flush
  rw [he, hd]

theorem view_getEvent (s : Session) (db : Ledger) (k : String) :
    (s.view db).getEvent k = (db.getEvent k).map s.event :=
  Table.get_mapRows _ _ s.event_eventId _

/-- One row through a commit. -/
theorem flush_getEvent (s : Session) (db out : Ledger) (k : String) :
    (s.flush db out).getEvent k = (out.getEvent k).map (s.settle db) :=
  Table.get_mapRows _ _ (s.settle_eventId db) _

theorem view_getDeadLetter (s : Session) (db : Ledger) (id : ℕ) :
    (s.view db).getDeadLetter id = (db.getDeadLetter id).map s.deadLetter :=
  Journal.get_mapRows _ _ s.deadLetter_id _

theorem flush_getDeadLetter (s : Session) (db out : Ledger) (id : ℕ) :
    (s.flush db out).getDeadLetter id = (out.getDeadLetter id).map (s.settleLetter db) :=
  Journal.get_mapRows _ _ (s.settleLetter_id db) _

/-- Writing back what was read changes nothing, if of the records only the replay
columns can have changed since. -/
theorem flush_view (hd : ∀ d ∈ s.deadLetters, ∃ current, db.getDeadLetter d.id = some current ∧
    current.frozen = d.frozen) : s.flush db (s.view db) = db := by
  have he : (db.events.mapRows s.event s.event_eventId).mapRows (s.settle db) (s.settle_eventId db) =
      db.events := by
    refine Table.ext_rows ((List.map_map ..).trans ((List.map_congr_left fun r hr => ?_).trans
      (List.map_id _)))
    have hr : db.getEvent (s.event r).eventId = some r := by
      rw [event_eventId]
      exact Table.get_of_mem hr
    simp only [Function.comp_apply, settle, hr, Event.merge_unchanged, id]
  have hl : (db.deadLetters.mapRows s.deadLetter s.deadLetter_id).mapRows (s.settleLetter db)
      (s.settleLetter_id db) = db.deadLetters := by
    refine Journal.ext_rows ((List.map_map ..).trans ((List.map_congr_left fun r hr => ?_).trans
      (List.map_id _))) rfl
    have hr : db.getDeadLetter r.id = some r := Journal.get_of_mem hr
    have hfrozen : r.frozen = (s.deadLetter r).frozen := by
      unfold deadLetter
      cases hx : s.deadLetters.find? fun x => x.id = r.id with
      | none => rfl
      | some x =>
        obtain ⟨current,hcur,hf⟩ := hd x (List.mem_of_find?_eq_some hx)
        have hid : x.id = r.id := by simpa using List.find?_some hx
        rw [hid, hr] at hcur
        cases hcur
        exact hf
    have hr : db.getDeadLetter (s.deadLetter r).id = some r := by rwa [deadLetter_id]
    simp only [Function.comp_apply, settleLetter, hr, pick_unchanged, id]
    exact DeadLetter.ext_frozen hfrozen.symm rfl rfl
  unfold flush view
  rw [he, hl]

theorem settle_of_some {current final : Event} (h : db.getEvent final.eventId = some current) :
    s.settle db final = Event.merge (s.event current) final current := by
  simp only [settle, h]

theorem settle_of_none {final : Event} (h : db.getEvent final.eventId = none) :
    s.settle db final = final := by
  simp only [settle, h]

end Session
end ConversionGateway
