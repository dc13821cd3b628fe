import ConversionGateway.System.ConsentInvariant
import ConversionGateway.System.OneUploader

/-! # The attempts of an event

Every call of the upload client is paid for in advance: by the claim that brought
the event in, or by the retry that was noted before it. So the calls that carried
an event since its count was zero are no more than the count, and the two ceilings
bound them together. Other processes may write the rows of the uploader: of the
count they leave nothing but itself or zero.
-/
namespace ConversionGateway
open EventStatus

/-- The attempts that the ledger counts for an event. -/
def Ledger.attempts (db : Ledger) (id : String) : ℕ := ((db.getEvent id).map Event.attemptCount).getD 0

/-- The calls that carried the event. -/
def carried (id : String) (sent : List (List Json)) : ℕ :=
  sent.countP fun conversions => conversions.any fun c => c.orderId = some id

theorem attempts_of_some {db : Ledger} {id : String} {e : Event} (h : db.getEvent id = some e) :
    db.attempts id = e.attemptCount := by
  unfold Ledger.attempts
  rw [h]
  rfl

theorem carried_append (id : String) (sent later : List (List Json)) :
    carried id (sent ++ later) = carried id sent + carried id later := List.countP_append

section Rows
variable {rt : Runtime} {db out : Ledger} {e x : Event}

/-- A claimed row has one more attempt. -/
theorem Event.TakenBy.attempts {maxAttempts : ℕ} {now : Time} (h : e.TakenBy maxAttempts now x) :
    x.attemptCount = e.attemptCount + 1 := by
  obtain ⟨y,reason,hy,hx⟩ := h
  have hcount : y.attemptCount = e.attemptCount + 1 := by cases hy <;> rfl
  cases hx with
  | refl => exact hcount
  | single hcut =>
    obtain ⟨_,reason,rfl⟩ := hcut
    exact hcount

end Rows

/-! ## What is still to be spent -/

/-- The attempts of a batch are numbered from one to the limit of the retry policy. -/
def Phase.Numbered (maxAttempts : ℕ) : Phase → Prop
  | .ready _ _ attempt => 1 ≤ attempt ∧ attempt ≤ maxAttempts
  | .sending _ _ attempt => 1 ≤ attempt ∧ attempt ≤ maxAttempts
  | .retrying _ _ attempt _ _ _ _ => 1 ≤ attempt ∧ attempt < maxAttempts
  | _ => True

/-- Of an event in the batch, with `spent` calls since there were `base` and `count`
attempts now: before a call an attempt is left, and the calls of one batch come on
top of fewer than `maxRowAttempts`. -/
def Phase.Affords (maxRowAttempts : ℕ) (id : String) (base spent count : ℕ) : Phase → Prop
  | .ready _ batch attempt => id ∈ batchIds batch →
      (count ≠ 0 → spent < base + count) ∧ spent + 2 ≤ base + maxRowAttempts + attempt
  | .sending _ batch attempt => id ∈ batchIds batch → spent + 1 ≤ base + maxRowAttempts + attempt
  | .retrying _ batch attempt _ loaded _ _ =>
      (id ∈ batchIds batch → spent + 1 ≤ base + maxRowAttempts + attempt) ∧
      ∀ e ∈ loaded, e.eventId = id → spent ≤ base + e.attemptCount
  | _ => True

/-- So has every event that waits in the batcher. -/
structure Uploader.Solvent (maxRowAttempts : ℕ) (id : String) (base spent count : ℕ) (u : Uploader) : Prop where
  waiting : id ∈ batchIds u.batcher.items →
    (count ≠ 0 → spent < base + count) ∧ spent + 1 ≤ base + maxRowAttempts
  phase : u.phase.Affords maxRowAttempts id base spent count

section Local
variable {st : Settings} {clock : Time} {db : Ledger} {id : String} {base spent count maxRowAttempts : ℕ}

theorem Uploader.fresh_solvent : Uploader.fresh.Solvent maxRowAttempts id base spent count :=
  ⟨fun h => (by cases h),trivial⟩

theorem Uploader.withClaim_solvent {u : Uploader} (hu : u.batcher.Sound st.uploadBatchSize)
    {items : List Claimed} (hroom : items.length ≤ u.room st) (now : Time)
    (h : id ∈ batchIds (u.batcher.items ++ items) →
      (count ≠ 0 → spent < base + count) ∧ spent + 1 ≤ base + maxRowAttempts) :
    (u.withClaim st items now).phase.Numbered st.uploadMaxAttempts ∧
      (u.withClaim st items now).Solvent maxRowAttempts id base spent count := by
  have hbelow := hu.below
  have hsum : u.batcher.items.length + items.length ≤ st.uploadBatchSize := by
    unfold room at hroom
    omega
  unfold withClaim
  rcases cycleBatch_spec hu hsum now with ⟨b,heq,hk,_⟩ | ⟨heq,hne⟩
  · rw [heq]
    exact ⟨trivial,hk.items ▸ h,trivial⟩
  · rw [heq]
    cases hitems : u.batcher.items ++ items with
    | nil => exact absurd hitems hne
    | cons c rest =>
      refine ⟨⟨Nat.le_refl _,st.maxAttempts_pos⟩,fun h => (by cases h),fun hid => ?_⟩
      obtain ⟨hspent,hcount⟩ := h (hitems ▸ hid)
      exact ⟨hspent,by omega⟩

/-- No step but a call spends anything. -/
theorem Uploader.step_solvent {u u' : Uploader} {n : ℕ} {locks locks' : Locks} {sent : Option (List Json)}
    {a : UploaderAction} (h : u.step st n clock db locks a = some (u',locks',sent)) (ha : a ≠ .send)
    (hb : u.batcher.Sound st.uploadBatchSize) (hcalls : spent ≤ base + db.attempts id)
    (hu : u.Solvent maxRowAttempts id base spent (db.attempts id)) :
    u'.Solvent maxRowAttempts id base spent (db.attempts id) := by
  have hphase := hu.phase
  cases a with
  | send => exact absurd rfl ha
  | skip =>
    simp only [step] at h
    split at h
    · split at h
      · cases h
        exact (withClaim_solvent hb (Nat.zero_le _) _ (by simpa using hu.waiting)).2
      · cases h
    · cases h
  | retry reason =>
    simp only [step] at h
    split at h
    · next hp =>
      split at h
      · cases h
        rw [hp] at hphase
        exact ⟨hu.waiting,hphase,by simp⟩
      · cases h
    · cases h
  | load =>
    simp only [step] at h
    split at h
    · next hp =>
      cases h
      rw [hp] at hphase
      refine ⟨hu.waiting,hphase.1,fun e he hid => ?_⟩
      rcases List.mem_append.mp he with he | he
      · exact hphase.2 e he hid
      · have hget := Option.mem_toList.mp he
        have hcount : db.attempts id = e.attemptCount :=
          attempts_of_some (by rw [← hid, Ledger.getEvent_eventId hget]; exact hget)
        rwa [hcount] at hcalls
    · cases h
      exact ⟨hu.waiting,trivial⟩
    · cases h
  | stamp =>
    simp only [step] at h
    split at h
    · next hp =>
      split at h
      · cases h
        rw [hp] at hphase
        exact ⟨hu.waiting,hphase⟩
      · cases h
    · cases h
  | begin | select ids | finish outcome =>
    simp only [step] at h
    split at h
    · first
        | (cases h; exact ⟨hu.waiting,trivial⟩)
        | (split at h <;> cases h; exact ⟨hu.waiting,trivial⟩)
    · cases h

theorem Uploader.step_numbered {u u' : Uploader} {n : ℕ} {locks locks' : Locks} {sent : Option (List Json)}
    {a : UploaderAction} (h : u.step st n clock db locks a = some (u',locks',sent))
    (hu : u.phase.Numbered st.uploadMaxAttempts) :
    u'.phase.Numbered st.uploadMaxAttempts := by
  cases a with
  | skip =>
    simp only [step] at h
    split at h
    · split at h
      · cases h
        rcases withClaim_phase st u [] ‹_› with hw | ⟨_,hw⟩ <;> rw [hw]
        · trivial
        · exact ⟨Nat.le_refl _,st.maxAttempts_pos⟩
      · cases h
    · cases h
  | retry reason =>
    simp only [step] at h
    split at h
    · next hp =>
      split at h
      · next hlt =>
        cases h
        rw [hp] at hu
        exact ⟨hu.1,hlt⟩
      · cases h
    · cases h
  | load =>
    simp only [step] at h
    split at h
    · next hp =>
      cases h
      rwa [hp] at hu
    · cases h
      trivial
    · cases h
  | begin | select ids | send | finish outcome | stamp =>
    simp only [step] at h
    split at h
    · next hp =>
      first
        | (cases h; rw [hp] at hu; first | exact hu | trivial)
        | (split at h <;> cases h; rw [hp] at hu; exact hu)
    · cases h

end Local

namespace System
variable {rt : Runtime} {settings : ℕ → Settings} {s t : System} {a : Action} {n : ℕ} {id : String} {base : ℕ}

/-- A transaction that leaves the counts of its rows alone leaves them all alone. -/
theorem Commits.attempts_eq {who : Process} {tx : Transaction} {reply : Reply} (hs : s.Linked)
    (hc : Commits rt settings s t who tx reply)
    (hnew : ∀ source plan correlationId now, tx ≠ .ingest source plan correlationId now)
    (hsame : ∀ e final, s.ledger.getEvent id = some e → id ∈ tx.keys →
      tx.Change rt (tx.session.event e) final → final.attemptCount = (tx.session.event e).attemptCount) :
    t.ledger.attempts id = s.ledger.attempts id := by
  cases he : s.ledger.getEvent id with
  | none =>
    cases he' : t.ledger.getEvent id with
    | none => simp only [Ledger.attempts, he, he']
    | some e =>
      obtain ⟨source,plan,correlationId,now,htx,_⟩ := hc.new_row hs he he'
      exact absurd htx (hnew source plan correlationId now)
  | some e =>
    rcases hc.row hs he with hget | ⟨hkey,final,hchange,hget⟩
    · rw [attempts_of_some hget, attempts_of_some he]
    · rw [attempts_of_some hget, attempts_of_some he, Event.merge_attemptCount,
        hsame e final he hkey hchange, pick_unchanged]

/-- Other processes leave the count of an event, or set it to zero. -/
theorem Commits.attempts_other {who : Process} {tx : Transaction} {reply : Reply} (hs : s.Linked)
    (hc : Commits rt settings s t who tx reply) (hwho : ∀ m, who ≠ .uploader m) :
    t.ledger.attempts id = s.ledger.attempts id ∨ t.ledger.attempts id = 0 := by
  rcases transaction_other hc.transaction hwho with ⟨source,plan,_,now,rfl⟩ | ⟨_,_,_,rfl⟩ | ⟨letter,_,_,rfl⟩
  · cases he : s.ledger.getEvent id with
    | none =>
      cases he' : t.ledger.getEvent id with
      | none => exact Or.inl (by simp only [Ledger.attempts, he, he'])
      | some e =>
        obtain ⟨_,_,_,_,_,_,henters⟩ := hc.new_row hs he he'
        rw [attempts_of_some he']
        exact Or.inr (enters_unattempted henters).1
    | some e =>
      rcases hc.row hs he with hget | ⟨_,_,hchange,_⟩
      · exact Or.inl (by rw [attempts_of_some hget, attempts_of_some he])
      · exact hchange.elim
  · refine Or.inl (hc.attempts_eq hs (by simp) fun e final _ _ hchange => ?_)
    obtain ⟨_,reason,hp⟩ := hchange
    cases hp <;> rfl
  · cases he : s.ledger.getEvent id with
    | none =>
      cases he' : t.ledger.getEvent id with
      | none => exact Or.inl (by simp only [Ledger.attempts, he, he'])
      | some e =>
        obtain ⟨_,_,_,_,htx,_⟩ := hc.new_row hs he he'
        cases htx
    | some e =>
      rcases hc.row hs he with hget | ⟨_,final,hchange,hget⟩
      · exact Or.inl (by rw [attempts_of_some hget, attempts_of_some he])
      · obtain ⟨_,_,rfl⟩ := hchange
        rw [attempts_of_some hget, attempts_of_some he, Event.merge_attemptCount]
        rcases pick_eq_or (((Transaction.replay letter _ _).session.event e).attemptCount)
          ((((Transaction.replay letter _ _).session.event e).requeued letter).attemptCount) e.attemptCount with h | h
        · exact Or.inr h
        · exact Or.inl h

/-- A claim counts one attempt for each row that it takes. -/
theorem Commits.attempts_claim {ids : List String} {now : Time} {reply : Reply} (hs : s.Linked)
    (hc : Commits rt settings s t (.uploader n) (.claim (settings n) ids now) reply) (id : String) :
    (id ∉ ids → t.ledger.attempts id = s.ledger.attempts id) ∧
      ∀ e, t.ledger.getEvent id = some e → id ∈ ids → t.ledger.attempts id = s.ledger.attempts id + 1 := by
  constructor
  · intro hid
    exact hc.attempts_eq hs (by simp) fun _ _ _ hkey => absurd hkey hid
  · intro e he hid
    cases hold : s.ledger.getEvent id with
    | none =>
      obtain ⟨_,_,_,_,htx,_⟩ := hc.new_row hs hold he
      cases htx
    | some e₀ =>
      obtain ⟨e',he',htaken⟩ := hc.claimed hs hid hold
      rw [attempts_of_some hold, attempts_of_some he', htaken.attempts]

/-- An outcome counts no attempt. -/
theorem Commits.attempts_settle {tx : Transaction} {reply : Reply} (hs : s.Linked)
    (hc : Commits rt settings s t (.uploader n) tx reply)
    (htx : (∃ batch loaded rows now, tx = .apply batch loaded rows now) ∨
      ∃ batch loaded failure now, tx = .bury batch loaded failure now) :
    t.ledger.attempts id = s.ledger.attempts id := by
  rcases htx with ⟨_,_,_,_,rfl⟩ | ⟨_,_,_,_,rfl⟩
  · refine hc.attempts_eq hs (by simp) fun e final _ _ hchange => ?_
    have hsettled : Event.Settled _ final := hchange
    exact hsettled.attemptCount
  · refine hc.attempts_eq hs (by simp) fun e final _ _ hchange => ?_
    have hsettled : Event.Settled _ final := hchange.1
    exact hsettled.attemptCount


/-- What holds of the uploader in every run: its rows exist, its conversions carry
the ids of their events, and its attempts are numbered. -/
structure Stocked (settings : ℕ → Settings) (n : ℕ) (s : System) : Prop where
  linked : s.Linked
  tidy : ∀ m, (s.uploaders m).Tidy (settings m)
  sound : (s.uploaders n).batcher.Sound (settings n).uploadBatchSize
  numbered : (s.uploaders n).phase.Numbered (settings n).uploadMaxAttempts
  known : ∀ c ∈ (s.uploaders n).held, ∃ e, s.ledger.getEvent c.eventId = some e
  orderId : ∀ c ∈ (s.uploaders n).held, c.conversion.orderId = some c.eventId
  covered : (s.uploaders n).Reading → ∀ id ∈ batchIds (s.uploaders n).batch, id ∈ (s.uploaders n).reads

theorem start_stocked (db : Ledger) : (start db).Stocked settings n := by
  have hheld : ((start db).uploaders n).held = [] := fresh_held
  refine ⟨start_linked db,fun _ => Uploader.fresh_tidy,Batcher.empty_sound (settings n).batchSize_pos,trivial,
    ?_,?_,fun hr => hr.elim⟩ <;> rw [hheld] <;> rintro _ ⟨⟩

theorem committed_numbered {u : Uploader} {st : Settings} {tx : Transaction} (reply : Reply)
    (h : u.transaction st = some tx) (hu : u.phase.Numbered st.uploadMaxAttempts) :
    (u.committed st reply).phase.Numbered st.uploadMaxAttempts := by
  rcases Uploader.transaction_cases h with ⟨now,ids,hp,_⟩ | ⟨now,batch,attempt,reason,loaded,stamps,hp,_⟩ |
      ⟨_,_,_,_,hp,_⟩ | ⟨_,_,_,_,hp,_⟩ <;> simp only [Uploader.committed, hp]
  · rcases Uploader.withClaim_phase st u reply.items now with hw | ⟨_,hw⟩ <;> rw [hw]
    · trivial
    · exact ⟨Nat.le_refl _,st.maxAttempts_pos⟩
  · rw [hp] at hu
    exact ⟨Nat.le_add_left _ _,hu.2⟩
  · trivial
  · trivial

theorem step_stocked (hs : s.Stocked settings n) (h : step rt settings s a = some t) : t.Stocked settings n := by
  have hkeep {c : Claimed} (hc : c ∈ (s.uploaders n).held) : ∃ e, t.ledger.getEvent c.eventId = some e := by
    obtain ⟨e,he⟩ := hs.known c hc
    obtain ⟨e',he',_⟩ := step_consent hs.linked h he
    exact ⟨e',he'⟩
  refine ⟨step_linked hs.linked h,step_tidy h hs.tidy,(step_keeps (hs.tidy n) hs.sound h).1,?_,fun c hc => ?_,
    fun c hc => ?_,fun hr => step_covered hs.known hs.covered h hr⟩
  · rcases step_uploader h n with hu | ⟨b,sent,rfl,hstep⟩ | ⟨tx,reply,hc,hu⟩ | hu
    · rw [hu]
      exact hs.numbered
    · exact Uploader.step_numbered hstep hs.numbered
    · rw [hu]
      exact committed_numbered reply hc.transaction hs.numbered
    · rw [hu]
      trivial
  · rcases step_held h hs.linked hc with hold | ⟨_,_,_,_,_,_,hb⟩
    · exact hkeep hold
    · obtain ⟨e,he,_⟩ := hb.row
      exact ⟨e,he⟩
  · rcases step_held h hs.linked hc with hold | ⟨_,_,_,_,_,_,hb⟩
    · exact hs.orderId c hold
    · exact hb.orderId

/-- The calls that carried the event since a state in which there were `base` are paid
for by its count, and within the two ceilings. -/
structure Budget (settings : ℕ → Settings) (n : ℕ) (id : String) (base : ℕ) (s : System) : Prop where
  stocked : s.Stocked settings n
  calls : carried id s.sent ≤ base + s.ledger.attempts id
  ceiling : carried id s.sent + 1 ≤ base + (settings n).maxRowAttempts + (settings n).uploadMaxAttempts
  solvent : (s.uploaders n).Solvent (settings n).maxRowAttempts id base (carried id s.sent) (s.ledger.attempts id)

/-- While the count is zero nothing has to be paid for. -/
theorem Stocked.budget (hs : s.Stocked settings n) (hzero : s.ledger.attempts id = 0) :
    s.Budget settings n id (carried id s.sent) := by
  have hrows := (settings n).maxRowAttempts_pos
  have hattempts := (settings n).maxAttempts_pos
  refine ⟨hs,by omega,by omega,⟨fun _ => ⟨fun h => absurd hzero h,by omega⟩,?_⟩⟩
  have hnumbered := hs.numbered
  cases hp : (s.uploaders n).phase <;> rw [hp] at hnumbered <;> simp only [Phase.Numbered] at hnumbered <;>
    simp only [Phase.Affords]
  · exact fun _ => ⟨fun h => absurd hzero h,by omega⟩
  · exact fun _ => by omega
  · exact ⟨fun _ => by omega,fun _ _ _ => by omega⟩

/-- A call carries the event at most once, and only if it is in the batch. -/
theorem carried_batch (id : String) {batch : List Claimed} (horder : ∀ c ∈ batch, c.conversion.orderId = some c.eventId) :
    carried id [batch.map Claimed.conversion] ≤ 1 ∧
      (id ∉ batchIds batch → carried id [batch.map Claimed.conversion] = 0) := by
  constructor
  · exact List.countP_le_length
  · intro hid
    refine List.countP_eq_zero.mpr fun conversions hmem hany => ?_
    obtain rfl := List.mem_singleton.mp hmem
    obtain ⟨conversion,hconv,heq⟩ := List.any_eq_true.mp hany
    obtain ⟨c,hc,rfl⟩ := List.mem_map.mp hconv
    rw [horder c hc] at heq
    have hcid : c.eventId = id := by simpa using heq
    exact hid (hcid ▸ List.mem_map_of_mem hc)

/-- A call spends an attempt that the event has left. -/
theorem send_budget {now : Time} {batch : List Claimed} {attempt : ℕ} (hs : s.Budget settings n id base)
    (ht : t.Stocked settings n) (hready : (s.uploaders n).phase = .ready now batch attempt)
    (hu : t.uploaders n = ⟨(s.uploaders n).batcher,.sending now batch attempt⟩) (hledger : t.ledger = s.ledger)
    (hsent : t.sent = s.sent ++ [batch.map Claimed.conversion]) (hcount : s.ledger.attempts id ≠ 0) :
    t.Budget settings n id base := by
  have hin : (s.uploaders n).batch = batch := by simp [Uploader.batch,hready]
  have horder : ∀ c ∈ batch, c.conversion.orderId = some c.eventId :=
    fun c hc => hs.stocked.orderId c (List.mem_append_right _ (hin.symm ▸ hc))
  obtain ⟨hone,hnone⟩ := carried_batch id horder
  have hempty := (hs.stocked.tidy n).alone (by rw [hready]; trivial)
  have hnumbered := hs.stocked.numbered
  have hphase := hs.solvent.phase
  rw [hready] at hphase hnumbered
  obtain ⟨_,hattempt⟩ := hnumbered
  have hspent : carried id t.sent = carried id s.sent + carried id [batch.map Claimed.conversion] := by
    rw [hsent, carried_append]
  have hcalls := hs.calls
  have hceiling := hs.ceiling
  by_cases hid : id ∈ batchIds batch
  · obtain ⟨hpaid,hlimit⟩ := hphase hid
    have hleft := hpaid hcount
    refine ⟨ht,?_,?_,?_,?_⟩ <;> rw [hspent]
    · rw [hledger]
      omega
    · omega
    · rw [hu, hempty]
      simp [batchIds]
    · rw [hu]
      intro _
      omega
  · have hzero := hnone hid
    refine ⟨ht,?_,?_,?_,?_⟩ <;> rw [hspent]
    · rw [hledger]
      omega
    · omega
    · rw [hu, hempty]
      simp [batchIds]
    · rw [hu]
      exact fun hmem => absurd hmem hid

/-- The local steps of the uploader. -/
theorem own_budget {b : UploaderAction} (hs : s.Budget settings n id base) (ht : t.Stocked settings n)
    (h : step rt settings s (.uploader n b) = some t) (hcount : t.ledger.attempts id ≠ 0) :
    t.Budget settings n id base := by
  obtain ⟨⟨u,locks,sent⟩,hp,rfl⟩ := Option.map_eq_some_iff.mp h
  by_cases hb : b = .send
  · subst hb
    simp only [Uploader.step] at hp
    split at hp
    · next hready =>
      cases hp
      exact send_budget hs ht hready (Function.update_self ..) rfl rfl hcount
    · cases hp
  · have hu := Uploader.step_solvent hp hb hs.stocked.sound hs.calls hs.solvent
    have hnone : sent = none := by
      cases sent with
      | none => rfl
      | some conversions => exact absurd (Uploader.step_sent hp).1 hb
    subst hnone
    refine ⟨ht,?_,?_,?_⟩
    · simpa using hs.calls
    · simpa using hs.ceiling
    · simpa using hu

/-- The claim of the uploader pays for the next call. -/
theorem claim_budget {now : Time} {ids : List String} {reply : Reply} (hs : s.Budget settings n id base)
    (ht : t.Stocked settings n) (hp : (s.uploaders n).phase = .selected now ids)
    (hc : Commits rt settings s t (.uploader n) (.claim (settings n) ids now) reply)
    (hcount : t.ledger.attempts id ≠ 0) : t.Budget settings n id base := by
  have hlinked := hs.stocked.linked
  have hsent : t.sent = s.sent := by
    rw [hc.after]
    rfl
  obtain ⟨hframe,hclaimed⟩ := hc.attempts_claim hlinked id
  have hrow : ∃ e, t.ledger.getEvent id = some e := by
    by_contra hnone
    have hnone : t.ledger.getEvent id = none := Option.eq_none_iff_forall_ne_some.mpr fun e he => hnone ⟨e,he⟩
    exact hcount (by simp [Ledger.attempts,hnone])
  obtain ⟨e,he⟩ := hrow
  have hfresh : (Transaction.claim (settings n) ids now).session.Fresh s.ledger := Session.fresh_empty _
  obtain ⟨⟨out,items⟩,hclaim,hb⟩ := Outcome.bind_ok.mp (Transaction.commit_fresh hfresh hc.commit).1
  obtain ⟨rfl,rfl⟩ := Prod.mk.inj (Except.ok.inj hb)
  obtain ⟨hsub,hwithin⟩ := claim_items hclaim
  have hcalls := hs.calls
  have hwaiting := hs.solvent.waiting
  have hpaid : id ∈ batchIds ((s.uploaders n).batcher.items ++ items) →
      (t.ledger.attempts id ≠ 0 → carried id s.sent < base + t.ledger.attempts id) ∧
        carried id s.sent + 1 ≤ base + (settings n).maxRowAttempts := by
    intro hid
    have hspare : t.ledger.attempts id ≠ 0 → carried id s.sent < base + t.ledger.attempts id := by
      intro _
      by_cases hnew : id ∈ ids
      · have hone := hclaimed e he hnew
        omega
      · rw [hframe hnew] at hcount ⊢
        have hold : id ∈ batchIds (s.uploaders n).batcher.items := by
          obtain ⟨c,hc,rfl⟩ := List.mem_map.mp hid
          rcases List.mem_append.mp hc with hc | hc
          · exact List.mem_map_of_mem hc
          · exact absurd (hsub.subset (List.mem_map_of_mem hc)) hnew
        exact (hwaiting hold).1 hcount
    refine ⟨hspare,?_⟩
    obtain ⟨c,hmem,rfl⟩ := List.mem_map.mp hid
    rcases List.mem_append.mp hmem with hold | hnew
    · exact (hwaiting (List.mem_map_of_mem hold)).2
    · obtain ⟨_,_,hbacked⟩ := Transaction.commit_items (hlinked.keys_nodup hc.transaction) hc.commit c hnew
      obtain ⟨x,hx,hsame⟩ := hbacked.attempts
      have hattempts : t.ledger.attempts c.eventId = c.attemptCount := (attempts_of_some hx).trans hsame
      have hlimit := hwithin c hnew
      have hless := hspare hcount
      omega
  have hkept := Uploader.withClaim_solvent hs.stocked.sound
    (hc.items_length.trans ((hs.stocked.tidy n).room now ids hp)) now hpaid
  refine ⟨ht,?_,hsent ▸ hs.ceiling,?_⟩ <;> rw [hsent]
  · by_cases hid : id ∈ ids
    · have hnew := hclaimed e he hid
      omega
    · rwa [hframe hid]
  · rw [hc.uploaders_self]
    simp only [Uploader.committed, hp]
    exact hkept.2

/-- A retry pays for the next call. -/
theorem retry_budget {now : Time} {batch : List Claimed} {attempt : ℕ} {reason : String} {loaded : List Event}
    {stamps : List Time} {reply : Reply} (hs : s.Budget settings n id base) (ht : t.Stocked settings n)
    (hp : (s.uploaders n).phase = .retrying now batch attempt reason loaded [] stamps)
    (hlen : stamps.length = (found (batchIds batch) loaded).length)
    (hc : Commits rt settings s t (.uploader n) (.retry (batchIds batch) loaded reason stamps) reply) :
    t.Budget settings n id base := by
  have hlinked := hs.stocked.linked
  have hsent : t.sent = s.sent := by
    rw [hc.after]
    rfl
  have hbatch : (s.uploaders n).batch = batch := by simp [Uploader.batch,hp]
  have hreads : (s.uploaders n).reads = loaded.map Event.eventId := by simp [Uploader.reads,hp]
  have hempty := (hs.stocked.tidy n).alone (by rw [hp]; trivial)
  have hphase := hs.solvent.phase
  rw [hp] at hphase
  obtain ⟨hlimit,hpaid⟩ := hphase
  have hcovered := hs.stocked.covered (by simp [Uploader.Reading,hp]) id
  rw [hbatch, hreads] at hcovered
  have hcalls : carried id s.sent ≤ base + t.ledger.attempts id ∧
      (id ∈ batchIds batch → carried id s.sent < base + t.ledger.attempts id) := by
    by_cases hid : id ∈ batchIds batch
    · obtain ⟨x,hx,hkey⟩ := List.mem_map.mp (hcovered hid)
      have hfound : id ∈ found (batchIds batch) loaded :=
        List.mem_filter.mpr ⟨hid,List.any_eq_true.mpr ⟨x,hx,decide_eq_true hkey⟩⟩
      obtain ⟨c,hmem,rfl⟩ := List.mem_map.mp hid
      obtain ⟨current,hcurrent⟩ := hs.stocked.known c (List.mem_append_right _ (hbatch.symm ▸ hmem))
      obtain ⟨e,final,he,heid,hretried,hget⟩ := hc.retried hlinked hlen hfound hcurrent
      have hbefore := hpaid e he heid
      have hmore := hretried.attemptCount
      have hnew : t.ledger.attempts c.eventId = final.attemptCount := by
        rw [attempts_of_some hget, Event.merge_attemptCount, pick_of_ne (Nat.ne_of_gt hmore)]
      have hspare : carried c.eventId s.sent < base + t.ledger.attempts c.eventId := by omega
      exact ⟨hspare.le,fun _ => hspare⟩
    · have hsame : t.ledger.attempts id = s.ledger.attempts id := by
        refine hc.attempts_eq hlinked (by simp) fun e final _ hkey _ => ?_
        have hmem := (hs.stocked.tidy n).reads id (hreads.symm ▸ hkey)
        rw [hbatch] at hmem
        exact absurd hmem hid
      rw [hsame]
      exact ⟨hs.calls,fun h => absurd h hid⟩
  refine ⟨ht,hsent ▸ hcalls.1,hsent ▸ hs.ceiling,?_,?_⟩ <;> rw [hsent, hc.uploaders_self] <;>
    simp only [Uploader.committed, hp]
  · simp [hempty,batchIds]
  · intro hid
    have hnext := hlimit hid
    exact ⟨fun _ => hcalls.2 hid,by omega⟩

/-- The commits of the uploader; an outcome has nothing to be paid for. -/
theorem commit_budget (hs : s.Budget settings n id base) (ht : t.Stocked settings n)
    (h : step rt settings s (.commit (.uploader n)) = some t) (hcount : t.ledger.attempts id ≠ 0) :
    t.Budget settings n id base := by
  obtain ⟨tx,reply,hc⟩ := step_commit h
  have hsettled (htx : (∃ batch loaded rows now, tx = .apply batch loaded rows now) ∨
      ∃ batch loaded failure now, tx = .bury batch loaded failure now)
      (hidle : t.uploaders n = ⟨(s.uploaders n).batcher,.idle⟩) : t.Budget settings n id base := by
    have hsent : t.sent = s.sent := by
      rw [hc.after]
      rfl
    have hsame : t.ledger.attempts id = s.ledger.attempts id := hc.attempts_settle hs.stocked.linked htx
    refine ⟨ht,?_,hsent ▸ hs.ceiling,?_,?_⟩ <;> rw [hsent]
    · rw [hsame]
      exact hs.calls
    · rw [hidle, hsame]
      exact hs.solvent.waiting
    · rw [hidle]
      trivial
  rcases Uploader.transaction_cases hc.transaction with ⟨now,ids,hp,rfl⟩ |
      ⟨now,batch,attempt,reason,loaded,stamps,hp,hlen,rfl⟩ | ⟨_,_,_,_,hp,rfl⟩ | ⟨_,_,_,_,hp,rfl⟩
  · exact claim_budget hs ht hp hc hcount
  · exact retry_budget hs ht hp hlen hc
  · refine hsettled (Or.inl ⟨_,_,_,_,rfl⟩) ?_
    rw [hc.uploaders_self]
    simp only [Uploader.committed, hp]
  · refine hsettled (Or.inr ⟨_,_,_,_,rfl⟩) ?_
    rw [hc.uploaders_self]
    simp only [Uploader.committed, hp]

theorem step_budget (hs : s.Budget settings n id base) (hsole : a.Sole n)
    (h : step rt settings s a = some t) (hcount : t.ledger.attempts id ≠ 0) :
    t.Budget settings n id base := by
  have ht := step_stocked hs.stocked h
  by_cases hown : ∃ b, a = .uploader n b
  · obtain ⟨b,rfl⟩ := hown
    exact own_budget hs ht h hcount
  by_cases hcommit : a = .commit (.uploader n)
  · subst hcommit
    exact commit_budget hs ht h hcount
  -- what is left are the other processes and a crash of the uploader
  have hsent : t.sent = s.sent := by
    rcases step_sent h with hsent | ⟨m,rfl,_⟩
    · exact hsent
    · have hm : m = n := hsole
      exact absurd ⟨_,by rw [hm]⟩ hown
  have hsame : t.ledger.attempts id = s.ledger.attempts id := by
    rcases step_ledger h with heq | ⟨who,tx,reply,rfl,hc⟩
    · rw [heq]
    · have hwho : ∀ m, who ≠ .uploader m := by
        rintro m rfl
        have hm : m = n := hsole
        exact hcommit (by rw [hm])
      exact (hc.attempts_other hs.stocked.linked hwho).resolve_right hcount
  refine ⟨ht,?_,hsent ▸ hs.ceiling,?_⟩ <;> rw [hsent, hsame]
  · exact hs.calls
  · rcases step_uploaders h with ⟨hu,_⟩ | ⟨m,_,hu,_⟩ | ⟨m,_,_,rfl,_,_,_⟩ | ⟨m,b,_,_,rfl,_,_,_⟩
    · rw [hu]
      exact hs.solvent
    · rw [hu, Function.update_apply]
      split
      · exact Uploader.fresh_solvent
      · exact hs.solvent
    · have hm : m = n := hsole
      exact absurd (by rw [hm]) hcommit
    · have hm : m = n := hsole
      exact absurd ⟨b,by rw [hm]⟩ hown

/-- Every count of the run but the first is positive. -/
def Attempting (rt : Runtime) (settings : ℕ → Settings) (id : String) (s : System) (a : Action) : Prop :=
  ∀ t ∈ step rt settings s a, t.ledger.attempts id ≠ 0

instance (s : System) (a : Action) : Decidable (Attempting rt settings id s a) :=
  inferInstanceAs (Decidable (∀ t ∈ step rt settings s a, t.ledger.attempts id ≠ 0))

/-- In every run with one uploader: since the count of an event was last zero, no more
calls carried it than its count says, and no more than the two ceilings together allow. -/
theorem run_attempts_bounded (rt : Runtime) (settings : ℕ → Settings) (n : ℕ) (db : Ledger) (id : String)
    (before since : List Action) (s t : System)
    (hs : run rt settings (start db) before = some s) (hzero : s.ledger.attempts id = 0)
    (ht : run rt settings s since = some t)
    (hattempting : Machine.Along (step rt settings) (Attempting rt settings id) s since)
    (hsole : ∀ a ∈ since, a.Sole n) :
    carried id t.sent ≤ carried id s.sent + t.ledger.attempts id ∧
      carried id t.sent ≤ carried id s.sent +
        ((settings n).maxRowAttempts + (settings n).uploadMaxAttempts - 1) := by
  have hstocked := Machine.run_inv' (Stocked settings n) (fun _ _ _ hs hst => step_stocked hs hst)
    (start_stocked db) hs
  have hboth : Machine.Along (step rt settings) (fun s a => Attempting rt settings id s a ∧ a.Sole n) s since :=
    fun pre a post u heq hu => ⟨hattempting pre a post u heq hu,hsole a (by simp [heq])⟩
  have hbudget := Machine.run_inv (Budget settings n id (carried id s.sent))
    (fun _ _ u hs hc hst => step_budget hs hc.2 hst (hc.1 u hst)) (hstocked.budget hzero) hboth ht
  have hcalls := hbudget.calls
  have hceiling := hbudget.ceiling
  constructor <;> omega

theorem run_attempts_bounded_once : ∃ t,
    run (clickRuntime 1704067200000) (fun _ => .single) (start Ledger.empty) uploadOnce = some t ∧
      carried "hubspot:1" t.sent = 1 ∧ carried "hubspot:1" t.sent ≤ t.ledger.attempts "hubspot:1" := by
  have hfirst : ((run (clickRuntime 1704067200000) (fun _ => .single) (start Ledger.empty) (uploadOnce.take 8)).any
      fun s => decide (s.ledger.attempts "hubspot:1" = 0 ∧ carried "hubspot:1" s.sent = 0 ∧
        Machine.Along (step (clickRuntime 1704067200000) fun _ => .single)
          (Attempting (clickRuntime 1704067200000) (fun _ => .single) "hubspot:1") s (uploadOnce.drop 8))) = true := by
    decide +kernel
  have hlast : ((run (clickRuntime 1704067200000) (fun _ => .single) (start Ledger.empty) uploadOnce).any
      fun t => decide (carried "hubspot:1" t.sent = 1)) = true := by decide +kernel
  obtain ⟨s,hs,h⟩ := (Option.any_eq_true ..).mp hfirst
  obtain ⟨hzero,hnone,hattempting⟩ := of_decide_eq_true h
  obtain ⟨t,ht,hone⟩ := (Option.any_eq_true ..).mp hlast
  rw [← List.take_append_drop 8 uploadOnce] at ht
  obtain ⟨m,hm,hrest⟩ := Machine.run_append.mp ht
  obtain rfl := Option.some.inj (hs.symm.trans hm)
  refine ⟨t,ht,of_decide_eq_true hone,?_⟩
  have hbound := run_attempts_bounded (clickRuntime 1704067200000) (fun _ => .single) 0 Ledger.empty "hubspot:1"
    (uploadOnce.take 8) (uploadOnce.drop 8) s t hs hzero hrest hattempting (by decide +kernel)
  rw [hnone, Nat.zero_add] at hbound
  exact hbound.1

end System
end ConversionGateway
