import ConversionGateway.Concurrency.ClosedRecords
import ConversionGateway.System.QueuedMessages

/-! # Concurrent replays of one record

A replay reads the record and then the event, publishes, and commits. It has locked
neither row, so what it has read may be out of date when it commits. Of the calls on
one record at most one returns True if and only if none is overtaken: no call that
has published for the record finds it closed at its commit.
-/
namespace ConversionGateway

/-- The queue messages that the call has published. -/
def Replayer.sent : Replayer → List ℕ
  | .published _ _ _ id => [id]
  | _ => []

/-- A call that has published had a record and an event to replay. -/
def Replayer.Sound : Replayer → Prop
  | .published letter row now _ => replayMessage letter row now ≠ none
  | _ => True

/-- A call of replay that has committed. -/
structure ReplayCall where
  returned : Bool
  messages : List ℕ

theorem Replayer.step_sound {r r' : Replayer} {db : Ledger} {q q' : MessageQueue} {a : ReplayerAction}
    (h : r.step db q a = some (r',q')) : r'.Sound := by
  unfold step at h
  split at h
  · obtain ⟨letter,_,hp⟩ := Option.map_eq_some_iff.mp h
    cases hp
    trivial
  · cases h
    trivial
  · obtain ⟨m,hm,hp⟩ := Option.map_eq_some_iff.mp h
    cases hp
    simp [Sound,hm]
  · cases h

theorem replayMessage_replayed {letter : DeadLetter} {row : Option Event} {now : Time} (h : letter.Replayed) :
    replayMessage letter row now = none := by
  have hopen : letter.replayedAt ≠ none := Option.isSome_iff_ne_none.mp h
  cases row with
  | none => rfl
  | some e => simp [replayMessage,hopen]

/-- The reply of a replay is the message that it handed out. -/
theorem replay_reply {rt : Runtime} {db db' : Ledger} {letter : DeadLetter} {row : Option Event} {now : Time}
    {reply : Reply} (h : (Transaction.replay letter row now).commit rt db = .ok (db',reply)) :
    reply = .replayed (replayMessage letter row now) := by
  obtain ⟨out,hb,_⟩ := Transaction.commit_ok.mp h
  obtain ⟨⟨mid,m⟩,hm,hb⟩ := Outcome.bind_ok.mp hb
  cases hb
  rw [replay_message hm]

/-- Replay commands do nothing else. -/
theorem Replayer.transaction_replay {r : Replayer} {tx : Transaction} (h : r.transaction = some tx) :
    ∃ letter row now, tx = .replay letter row now := by
  cases r with
  | idle | picked => cases h
  | loaded letter row now =>
    simp only [transaction, Option.ite_none_right_eq_some] at h
    cases h.2
    exact ⟨letter,row,now,rfl⟩
  | published letter row now id =>
    cases h
    exact ⟨letter,row,now,rfl⟩

/-- A sound call sends one message if it is going to return True, else none. -/
theorem Replayer.sent_length {r : Replayer} (hr : r.Sound) {letter : DeadLetter} {row : Option Event} {now : Time}
    (h : r.transaction = some (.replay letter row now)) :
    r.letters = [letter] ∧ r.sent.length = if (replayMessage letter row now).isSome then 1 else 0 := by
  cases r with
  | idle | picked => cases h
  | loaded letter' row' now' =>
    simp only [transaction, Option.ite_none_right_eq_some] at h
    obtain ⟨hnone,h⟩ := h
    cases h
    simp [letters,sent,hnone]
  | published letter' row' now' id =>
    cases h
    have hsome := Option.isSome_iff_ne_none.mpr hr
    simp [letters,sent,hsome]

theorem ReplayCall.messages_length {calls : List ReplayCall}
    (h : ∀ call ∈ calls, call.messages.length = if call.returned then 1 else 0) :
    (calls.flatMap messages).length = (calls.filter returned).length := by
  induction calls with
  | nil => rfl
  | cons call rest ih =>
    obtain ⟨hcall,hrest⟩ := List.forall_mem_cons.mp h
    rw [List.flatMap_cons, List.length_append, hcall, ih hrest, List.filter_cons]
    split
    · rw [List.length_cons, Nat.add_comm]
    · exact Nat.zero_add _

namespace System
variable {rt : Runtime} {settings : ℕ → Settings} {s t : System} {a : Action} {r : ℕ}

/-- The call on record `r` that commits with an action. -/
def replayCalls (rt : Runtime) (settings : ℕ → Settings) (r : ℕ) (s : System) : Action → List ReplayCall
  | .commit (.replayer n) =>
    if ∃ d ∈ (s.replayers n).letters, d.id = r then
      match s.transaction settings (.replayer n) with
      | none => []
      | some tx =>
        match tx.commit rt s.ledger with
        | .error _ => []
        | .ok (_,reply) => [⟨reply.returnsTrue,(s.replayers n).sent⟩]
    else []
  | _ => []

/-- A call that has published for record `r` finds it open when it commits. -/
def NotOvertaken (r : ℕ) (s : System) : Action → Prop
  | .commit (.replayer n) =>
    (s.replayers n).sent ≠ [] → (∃ d ∈ (s.replayers n).letters, d.id = r) → ¬ s.ledger.Closed r
  | _ => True

instance (r : ℕ) (s : System) : ∀ a, Decidable (s.NotOvertaken r a)
  | .commit (.replayer _) => inferInstanceAs (Decidable (_ → _ → ¬ _))
  | .commit (.request _) | .commit (.worker _) | .commit (.uploader _) | .commit (.reconciler _) => isTrue trivial
  | .tick _ | .expire _ | .request .. | .worker .. | .uploader .. | .replayer .. | .reconciler .. | .crash _ =>
    isTrue trivial

/-- What holds of the replay calls in every run. -/
structure ReplaysSound (s : System) : Prop where
  linked : s.Linked
  sound : ∀ n, (s.replayers n).Sound

theorem start_replaysSound (db : Ledger) : (start db).ReplaysSound := ⟨start_linked db,fun _ => trivial⟩

theorem step_replaysSound (hs : s.ReplaysSound) (h : step rt settings s a = some t) : t.ReplaysSound := by
  refine ⟨step_linked hs.linked h,fun n => ?_⟩
  rcases step_replayer h n with heq | ⟨b,q,_,hstep⟩ | heq
  · rw [heq]
    exact hs.sound n
  · exact Replayer.step_sound hstep
  · rw [heq]
    trivial

theorem run_replaysSound {db : Ledger} {actions : List Action} (h : run rt settings (start db) actions = some s) :
    s.ReplaysSound :=
  Machine.run_inv' ReplaysSound (fun _ _ _ hs hst => step_replaysSound hs hst) (start_replaysSound db) h

/-- Only replay commands replay. -/
theorem transaction_replayer {who : Process} {letter : DeadLetter} {row : Option Event} {now : Time}
    (h : s.transaction settings who = some (.replay letter row now)) :
    ∃ n, who = .replayer n ∧ (s.replayers n).transaction = some (.replay letter row now) := by
  cases who with
  | replayer n => exact ⟨n,rfl,h⟩
  | reconciler n => cases h
  | request n =>
    simp only [transaction, Request.transaction] at h
    split at h <;> cases h
  | worker n =>
    simp only [transaction, Worker.transaction] at h
    split at h <;> cases h
  | uploader n =>
    rcases Uploader.transaction_cases h with ⟨_,_,_,h⟩ | ⟨_,_,_,_,_,_,_,_,h⟩ | ⟨_,_,_,_,_,h⟩ | ⟨_,_,_,_,_,h⟩ <;> cases h

/-- The calls that return True. -/
def trueCalls (rt : Runtime) (settings : ℕ → Settings) (r : ℕ) (s : System) (a : Action) : List ReplayCall :=
  (s.replayCalls rt settings r a).filter ReplayCall.returned

theorem trueCalls_length (rt : Runtime) (settings : ℕ → Settings) (r : ℕ) (s : System) (a : Action) :
    (s.trueCalls rt settings r a).length ≤ 1 := by
  refine (List.length_filter_le ..).trans ?_
  unfold replayCalls
  split
  · split
    · split
      · exact Nat.zero_le _
      · split
        · exact Nat.zero_le _
        · exact Nat.le_refl _
    · exact Nat.zero_le _
  · exact Nat.zero_le _

/-- What a committed call says. -/
theorem mem_replayCalls (hs : s.ReplaysSound) {call : ReplayCall} (h : call ∈ s.replayCalls rt settings r a) :
    ∃ n letter row now, a = .commit (.replayer n) ∧ letter.id = r ∧ letter ∈ (s.replayers n).letters ∧
      call.returned = (replayMessage letter row now).isSome ∧
      call.messages.length = if call.returned then 1 else 0 := by
  unfold replayCalls at h
  split at h
  · next n =>
    split at h
    · next hrecord =>
      split at h
      · cases h
      · next tx htx =>
        split at h
        · cases h
        · next db reply hcommit =>
          obtain rfl := List.mem_singleton.mp h
          obtain ⟨d,hd,hid⟩ := hrecord
          obtain ⟨letter,row,now,rfl⟩ := Replayer.transaction_replay htx
          obtain ⟨hletters,hlen⟩ := Replayer.sent_length (hs.sound n) htx
          have hd' : d = letter := by simpa [hletters] using hd
          rw [replay_reply hcommit]
          exact ⟨n,letter,row,now,rfl,hd' ▸ hid,hd' ▸ hd,rfl,hlen⟩
    · cases h
  · cases h

/-- A call returns True with an action that closes the record. -/
theorem trueCalls_commit (hs : s.ReplaysSound) {n : ℕ} {tx : Transaction} {reply : Reply}
    (hc : Commits rt settings s t (.replayer n) tx reply) :
    s.trueCalls rt settings r (.commit (.replayer n)) ≠ [] ↔
      (s.replayers n).sent ≠ [] ∧ ∃ d ∈ (s.replayers n).letters, d.id = r := by
  obtain ⟨letter,row,now,rfl⟩ := Replayer.transaction_replay hc.transaction
  obtain ⟨hletters,hlen⟩ := Replayer.sent_length (hs.sound n) hc.transaction
  have hreply := replay_reply hc.commit
  simp only [trueCalls, replayCalls, hc.transaction, hc.commit]
  by_cases hr : ∃ d ∈ (s.replayers n).letters, d.id = r
  · rw [if_pos hr, hreply]
    cases hm : replayMessage letter row now with
    | none =>
      have hsent : (s.replayers n).sent = [] := List.length_eq_zero_iff.mp (by simpa [hm] using hlen)
      simp [Reply.returnsTrue,hsent]
    | some m =>
      have hsent : (s.replayers n).sent ≠ [] := by
        intro heq
        simp [hm,heq] at hlen
      simp [Reply.returnsTrue,hsent,hr]
  · simp [hr]

/-- A record is closed by the calls that return True, and stays closed. -/
theorem step_closed (hs : s.ReplaysSound) (h : step rt settings s a = some t) :
    t.ledger.Closed r ↔ s.ledger.Closed r ∨ s.trueCalls rt settings r a ≠ [] := by
  have hnone (ha : ∀ n, a ≠ .commit (.replayer n)) : s.trueCalls rt settings r a = [] := by
    refine List.filter_eq_nil_iff.mpr fun call hcall => ?_
    obtain ⟨n,_,_,_,heq,_⟩ := mem_replayCalls hs hcall
    exact absurd heq (ha n)
  cases a with
  | commit who =>
    obtain ⟨tx,reply,hc⟩ := step_commit h
    rw [Transaction.commit_closed (hs.linked.known hc.transaction) hc.commit]
    apply or_congr Iff.rfl
    cases who with
    | replayer n =>
      obtain ⟨letter,row,now,rfl⟩ := Replayer.transaction_replay hc.transaction
      obtain ⟨hletters,hlen⟩ := Replayer.sent_length (hs.sound n) hc.transaction
      rw [trueCalls_commit hs hc, replay_reply hc.commit, hletters, ← List.length_pos_iff, hlen]
      cases replayMessage letter row now <;> simp [Reply.returnsTrue]
    | request n | worker n | uploader n | reconciler n =>
      rw [hnone (by simp)]
      constructor
      · rintro ⟨_,letter,row,now,rfl,_⟩
        obtain ⟨_,hwho,_⟩ := transaction_replayer hc.transaction
        cases hwho
      · intro hne
        exact absurd rfl hne
  | tick | expire | request | worker | uploader | replayer | reconciler | crash =>
    rw [hnone (by simp)]
    rcases step_ledger h with heq | ⟨_,_,_,heq,_⟩
    · simp [heq]
    · cases heq

/-- The record was closed before, and every call that is under way has read it so. -/
structure Spent (r : ℕ) (s : System) : Prop where
  sound : s.ReplaysSound
  closed : s.ledger.Closed r
  held : ∀ n, ∀ d ∈ (s.replayers n).letters, d.id = r → d.Replayed

theorem step_spent (hs : s.Spent r) (h : step rt settings s a = some t) : t.Spent r := by
  refine ⟨step_replaysSound hs.sound h,(step_closed hs.sound h).mpr (Or.inl hs.closed),fun n d hd hid => ?_⟩
  have hd' : d ∈ t.letters (.replayer n) := hd
  rcases step_letters h hd' with hold | hread
  · exact hs.held n d hold hid
  · obtain ⟨x,hx,hreplayed⟩ := hs.closed
    rw [hid, hx] at hread
    cases hread
    exact hreplayed

/-- Nothing is replayed for a spent record. -/
theorem Spent.trueCalls_eq_nil (hs : s.Spent r) (a : Action) : s.trueCalls rt settings r a = [] := by
  refine List.filter_eq_nil_iff.mpr fun call hcall => ?_
  obtain ⟨n,letter,row,now,_,hid,hmem,hreturned,_⟩ := mem_replayCalls hs.sound hcall
  rw [hreturned, replayMessage_replayed (hs.held n letter hmem hid)]
  simp

theorem Spent.notOvertaken (hs : s.Spent r) (a : Action) : s.NotOvertaken r a := by
  unfold NotOvertaken
  split
  · next n =>
    rintro hsent ⟨d,hd,hid⟩
    have hsound := hs.sound.sound n
    have hreplayed := hs.held n d hd hid
    cases hr : s.replayers n with
    | idle | picked | loaded => simp [hr,Replayer.sent] at hsent
    | published letter row now id =>
      rw [hr] at hd hsound
      obtain rfl : d = letter := List.mem_singleton.mp hd
      exact absurd (replayMessage_replayed hreplayed) hsound
  · trivial

/-- A commit is overtaken if a call returns True with it though the record is closed. -/
theorem notOvertaken_iff (hs : s.ReplaysSound) (h : step rt settings s a = some t) :
    s.NotOvertaken r a ↔ (s.trueCalls rt settings r a ≠ [] → ¬ s.ledger.Closed r) := by
  by_cases ha : ∃ n, a = .commit (.replayer n)
  · obtain ⟨n,rfl⟩ := ha
    obtain ⟨tx,reply,hc⟩ := step_commit h
    rw [trueCalls_commit hs hc, NotOvertaken, and_imp]
  · have hnone : s.trueCalls rt settings r a = [] := by
      refine List.filter_eq_nil_iff.mpr fun call hcall => ?_
      obtain ⟨n,_,_,_,heq,_⟩ := mem_replayCalls hs hcall
      exact absurd ⟨n,heq⟩ ha
    rw [hnone]
    simp only [ne_eq, not_true_eq_false, false_implies, iff_true]
    unfold NotOvertaken
    split
    · next n => exact absurd ⟨n,rfl⟩ ha
    · trivial

/-- Among the committed calls on a record at most one returns True, and at most one
message was published by them, if and only if no call was overtaken. -/
theorem run_replayed_once (rt : Runtime) (settings : ℕ → Settings) (db : Ledger) (actions : List Action) (r : ℕ)
    (h : ∃ s, run rt settings (start db) actions = some s) :
    (((Machine.outputs (step rt settings) (replayCalls rt settings r) (start db) actions).filter
        ReplayCall.returned).length ≤ 1 ∧
      ((Machine.outputs (step rt settings) (replayCalls rt settings r) (start db) actions).flatMap
        ReplayCall.messages).length ≤ 1) ↔
    Machine.Along (step rt settings) (NotOvertaken r) (start db) actions := by
  obtain ⟨s,hrun⟩ := h
  have hsound {pre : List Action} {t : System} (ht : run rt settings (start db) pre = some t) := run_replaysSound ht
  have hcalls : ∀ call ∈ Machine.outputs (step rt settings) (replayCalls rt settings r) (start db) actions,
      call.messages.length = if call.returned then 1 else 0 := by
    intro call hcall
    obtain ⟨pre,a,post,t,_,ht,hcall⟩ := Machine.mem_outputs hcall
    obtain ⟨_,_,_,_,_,_,_,_,hlen⟩ := mem_replayCalls (hsound ht) hcall
    exact hlen
  have htrue : (Machine.outputs (step rt settings) (replayCalls rt settings r) (start db) actions).filter
      ReplayCall.returned = Machine.outputs (step rt settings) (trueCalls rt settings r) (start db) actions :=
    Machine.outputs_hom (List.filter ReplayCall.returned) rfl (fun _ _ => List.filter_append ..) ..
  rw [ReplayCall.messages_length hcalls, and_self, htrue]
  by_cases hclosed : db.Closed r
  · have hspent : (start db).Spent r := ⟨start_replaysSound db,hclosed,fun n d hd => (by cases hd)⟩
    have hlater {pre : List Action} {t : System} (ht : run rt settings (start db) pre = some t) : t.Spent r :=
      Machine.run_inv' (Spent r) (fun _ _ _ hi hst => step_spent hi hst) hspent ht
    apply iff_of_true
    · have hnone : Machine.outputs (step rt settings) (trueCalls rt settings r) (start db) actions = [] :=
        Machine.outputs_eq_nil_iff.mpr fun _ a _ _ _ ht => (hlater ht).trueCalls_eq_nil a
      rw [hnone]
      exact Nat.zero_le _
    · intro _ a _ t _ ht
      exact (hlater ht).notOvertaken a
  · have honce : (Machine.outputs (step rt settings) (trueCalls rt settings r) (start db) actions).length ≤ 1 ↔ _ :=
      Machine.outputs_once_iff ReplaysSound (fun _ _ _ hi hst => step_replaysSound hi hst)
        (trueCalls_length rt settings r) (fun _ _ _ hi hst => step_closed hi hst) (start_replaysSound db) hclosed
    refine honce.trans (Machine.along_congr hrun fun pre t u a ht hst => ?_)
    exact (notOvertaken_iff (hsound ht) hst).symm

/-- Two calls on one record, one after the other; the second returns False. -/
def replayInTurn : List Action :=
  replayOnce ++ [.commit (.replayer 0), .replayer 1 (.pick 1 0), .replayer 1 .load, .commit (.replayer 1)]

theorem run_replayed_once_inTurn :
    ((Machine.outputs (step (clickRuntime 1704067200000) fun _ => .single)
      (replayCalls (clickRuntime 1704067200000) (fun _ => .single) 1) (start Ledger.empty)
      (buryOnce ++ replayInTurn)).filter ReplayCall.returned).length ≤ 1 := by
  have hrun : (run (clickRuntime 1704067200000) (fun _ => .single) (start Ledger.empty)
      (buryOnce ++ replayInTurn)).isSome = true := by decide +kernel
  have halong : Machine.Along (step (clickRuntime 1704067200000) fun _ => .single) (NotOvertaken 1)
      (start Ledger.empty) (buryOnce ++ replayInTurn) := by decide +kernel
  exact ((run_replayed_once _ _ _ _ 1 (Option.isSome_iff_exists.mp hrun)).mpr halong).1

/-- Two calls that have both read the record before either commits: each of them
returns True, commits and leaves its own message on the queue. -/
def replayTwice : List Action :=
  replayOnce ++ [.replayer 1 (.pick 1 0), .replayer 1 .load, .replayer 1 .publish, .commit (.replayer 0),
    .commit (.replayer 1)]

theorem not_replayed_once_concurrent : ¬ ∀ (rt : Runtime) (settings : ℕ → Settings) (db : Ledger)
    (actions : List Action) (r : ℕ), (∃ s, run rt settings (start db) actions = some s) →
    ((Machine.outputs (step rt settings) (replayCalls rt settings r) (start db) actions).filter
        ReplayCall.returned).length ≤ 1 ∧
      ((Machine.outputs (step rt settings) (replayCalls rt settings r) (start db) actions).flatMap
        ReplayCall.messages).length ≤ 1 := by
  intro h
  have hrun : (run (clickRuntime 1704067200000) (fun _ => .single) (start Ledger.empty)
      (buryOnce ++ replayTwice)).isSome = true := by decide +kernel
  have htwo := (h _ _ _ _ 1 (Option.isSome_iff_exists.mp hrun)).1
  have hlen : ((Machine.outputs (step (clickRuntime 1704067200000) fun _ => .single)
      (replayCalls (clickRuntime 1704067200000) (fun _ => .single) 1) (start Ledger.empty)
      (buryOnce ++ replayTwice)).filter ReplayCall.returned).length = 2 := by decide +kernel
  omega

end System
end ConversionGateway
