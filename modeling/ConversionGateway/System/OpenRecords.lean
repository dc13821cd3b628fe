import Mathlib.Data.List.Dedup
import ConversionGateway.Concurrency.ClosedRecords
import ConversionGateway.Lifecycle.ClaimSelection
import ConversionGateway.System.Processes

/-! # How many records are open

Every transaction changes the number of open records of a source by those it adds and
the one it closes, whatever else is committed in between.
-/
namespace ConversionGateway
open Relational

/-- `open_depth_by_source`: a source is there only if it has an open record. -/
def openDepthBySource (db : Ledger) : List (Source × ℕ) :=
  let sources := (db.deadLetters.rows.filter fun d => d.replayedAt = none).map DeadLetter.source
  sources.dedup.map fun source => (source,sources.count source)

/-- The committed records of a source that were not replayed. -/
def Ledger.openDepth (db : Ledger) (source : Source) : ℕ :=
  db.deadLetters.rows.countP fun d => d.source = source ∧ d.replayedAt = none

/-- The records of a source that the transaction adds. -/
def Transaction.opens (rt : Runtime) (db : Ledger) (tx : Transaction) (source : Source) : ℕ :=
  (tx.counted rt db).countP fun l => l.source = source

/-- A replay closes its record if it goes through and nobody was there first. -/
def Transaction.closes (db : Ledger) (tx : Transaction) (source : Source) : ℕ :=
  match tx with
  | .replay letter loaded now =>
    if letter.source = source ∧ (replayMessage letter loaded now).isSome ∧ ¬ db.Closed letter.id then 1 else 0
  | _ => 0

section Counting
variable {α : Type*} {p q : α → Bool} {l : List α}

theorem countP_split (p q : α → Bool) (l : List α) :
    l.countP p = l.countP (fun a => p a && q a) + l.countP (fun a => p a && !q a) := by
  induction l with
  | nil => rfl
  | cons a l ih =>
    simp only [List.countP_cons, ih]
    cases p a <;> cases q a <;> simp <;> omega

/-- Two predicates that differ at one element only. -/
theorem countP_update {a : α} (hn : l.Nodup) (ha : a ∈ l) (h : ∀ b ∈ l, b ≠ a → q b = p b) :
    l.countP q + (p a).toNat = l.countP p + (q a).toNat := by
  obtain ⟨s,t,rfl⟩ := List.append_of_mem ha
  obtain ⟨_,ht,hst⟩ := List.nodup_append.mp hn
  have hs : s.countP q = s.countP p := List.countP_congr fun b hb => by
    rw [h b (List.mem_append_left _ hb) (hst b hb a List.mem_cons_self)]
  have ht : t.countP q = t.countP p := List.countP_congr fun b hb => by
    have hne : b ≠ a := fun heq => (List.nodup_cons.mp ht).1 (heq ▸ hb)
    rw [h b (List.mem_append_right _ (List.mem_cons_of_mem _ hb)) hne]
  rw [List.countP_append, List.countP_append, List.countP_cons, List.countP_cons, hs, ht]
  cases p a <;> cases q a <;> simp <;> omega

theorem lookup_count [DecidableEq α] (xs : List α) (a : α) :
    ((xs.dedup.map fun x => (x,xs.count x)).lookup a).getD 0 = xs.count a := by
  by_cases ha : a ∈ xs
  · rw [List.lookup_graph _ (List.mem_dedup.mpr ha)]
    rfl
  · have hnone : (xs.dedup.map fun x => (x,xs.count x)).lookup a = none := by
      rw [List.lookup_eq_none_iff]
      rintro p hp
      obtain ⟨x,hx,rfl⟩ := List.mem_map.mp hp
      have hne : a ≠ x := fun heq => ha (heq ▸ List.mem_dedup.mp hx)
      simpa using hne
    rw [hnone, List.count_eq_zero_of_not_mem ha]
    rfl

end Counting

section Depth
variable {rt : Runtime} {db db' : Ledger} {tx : Transaction} {reply : Reply} {source : Source}

/-- What the query returns for a source, or zero. -/
theorem openDepthBySource_lookup (db : Ledger) (source : Source) :
    ((openDepthBySource db).lookup source).getD 0 = db.openDepth source := by
  rw [openDepthBySource, lookup_count, List.count_eq_countP, List.countP_map, List.countP_filter, Ledger.openDepth]
  refine List.countP_congr fun d _ => ?_
  simp only [Function.comp_apply, beq_iff_eq, Bool.and_eq_true, decide_eq_true_eq]

/-- The records of a source. -/
def Ledger.filed (db : Ledger) (source : Source) : ℕ := db.labels.countP fun l => l.source = source

/-- Those that were replayed. -/
def Ledger.closedDepth (db : Ledger) (source : Source) : ℕ :=
  db.accounts.countP fun d => d.source = source ∧ db.Closed d.id

theorem closed_iff {d : DeadLetter} (hd : d ∈ db.deadLetters.rows) : db.Closed d.id ↔ d.Replayed := by
  have hget : db.getDeadLetter d.id = some d := Journal.get_of_mem hd
  simp [Ledger.Closed,hget]

theorem openDepth_add_closedDepth (db : Ledger) (source : Source) :
    db.openDepth source + db.closedDepth source = db.filed source := by
  have hfiled : db.filed source = db.deadLetters.rows.countP fun d => d.source = source := by
    rw [Ledger.filed, Ledger.labels, List.countP_map]
    rfl
  have hclosed : db.closedDepth source =
      db.deadLetters.rows.countP fun d => d.source = source && !decide (d.replayedAt = none) := by
    rw [Ledger.closedDepth, Ledger.accounts, List.countP_map]
    refine List.countP_congr fun d hd => ?_
    have hiff := closed_iff hd
    simp only [Function.comp_apply, decide_eq_true_eq, Bool.and_eq_true, Bool.not_eq_true', decide_eq_false_iff_not]
    refine and_congr_right fun _ => hiff.trans ?_
    rw [DeadLetter.Replayed, Option.isSome_iff_ne_none]
  have hopen : db.openDepth source =
      db.deadLetters.rows.countP fun d => d.source = source && decide (d.replayedAt = none) :=
    List.countP_congr fun d _ => by simp only [Bool.decide_and]
  rw [hfiled, hclosed, hopen]
  exact (countP_split _ _ _).symm

/-! ## Commits -/

theorem nodup_accounts (db : Ledger) : (db.accounts.map DeadLetter.id).Nodup := by
  have hids : db.accounts.map DeadLetter.id = db.deadLetters.rows.map DeadLetter.id := by
    rw [Ledger.accounts, List.map_map]
    rfl
  rw [hids]
  exact db.deadLetters.serials_nodup

/-- A replay says True if it has a message to send. -/
theorem replay_returnsTrue {letter : DeadLetter} {loaded : Option Event} {now : Time}
    (h : (Transaction.replay letter loaded now).commit rt db = .ok (db',reply)) :
    reply.returnsTrue = (replayMessage letter loaded now).isSome := by
  obtain ⟨out,hb,_,_⟩ := Transaction.commit_ok.mp h
  obtain ⟨⟨mid,message⟩,hm,hb⟩ := Outcome.bind_ok.mp hb
  cases hb
  rw [replay_message hm]
  rfl

/-- The old records that a commit closes. -/
theorem closed_accounts (hk : tx.session.Known db) (hh : tx.session.Holds db)
    (h : tx.commit rt db = .ok (db',reply)) :
    db.accounts.countP (fun d => d.source = source ∧ db'.Closed d.id) =
      db.closedDepth source + tx.closes db source := by
  have hsame (hr : ∀ d ∈ db.accounts, d.source = source → (db'.Closed d.id ↔ db.Closed d.id)) :
      db.accounts.countP (fun d => d.source = source ∧ db'.Closed d.id) = db.closedDepth source := by
    refine List.countP_congr fun d hd => ?_
    simp only [decide_eq_true_eq]
    exact and_congr_right (hr d hd)
  by_cases htx : ∃ letter loaded now, tx = .replay letter loaded now
  · obtain ⟨letter,loaded,now,rfl⟩ := htx
    have hsome := replay_returnsTrue h
    rcases replay_commit hk h with ⟨hfalse,hkept⟩ | ⟨htrue,hclosed,hkept⟩
    · rw [hsame fun d _ _ => hkept d.id]
      simp [Transaction.closes,← hsome,hfalse]
    · obtain ⟨current,hget,haccount⟩ := hh letter (List.mem_singleton_self _)
      have hmem : letter.frozen ∈ db.accounts := haccount ▸ List.mem_map_of_mem (Journal.mem_of_get hget)
      have hone := countP_update (p := fun d => decide (d.source = source ∧ db.Closed d.id))
        (q := fun d => decide (d.source = source ∧ db'.Closed d.id)) (nodup_accounts db).of_map hmem fun b hb hne => by
          have hid : b.id ≠ letter.id := fun heq => hne (List.inj_on_of_nodup_map (nodup_accounts db) hb hmem heq)
          simp only [hkept b.id hid]
      have hsource : letter.frozen.source = letter.source := rfl
      have hid : letter.frozen.id = letter.id := rfl
      rw [hsource, hid] at hone
      simp only [Transaction.closes, ← hsome, htrue, Ledger.closedDepth]
      by_cases hs : letter.source = source <;> by_cases hc : db.Closed letter.id <;>
        simp_all
  · rw [hsame fun d _ _ => ?_]
    · cases tx with
      | replay letter loaded now => exact absurd ⟨letter,loaded,now,rfl⟩ htx
      | ingest | process | claim | retry | apply | bury => rfl
    · rw [Transaction.commit_closed hk h]
      refine or_iff_left fun ⟨_,letter,loaded,now,heq,_⟩ => htx ⟨letter,loaded,now,heq⟩

/-- The change of the number of open records. -/
theorem Transaction.commit_depth (hk : tx.session.Known db) (hh : tx.session.Holds db) (hp : tx.Paired)
    (h : tx.commit rt db = .ok (db',reply)) :
    db'.openDepth source + tx.closes db source = db.openDepth source + tx.opens rt db source := by
  obtain ⟨hlabels,⟨new,hnew⟩,_⟩ := Transaction.commit_counts hk.fresh_view hh hp h
  have hfiled : db'.filed source = db.filed source + tx.opens rt db source := by
    rw [Ledger.filed, hlabels, List.countP_append]
    rfl
  -- a record that is new is open: only a replay closes one, and it adds none
  have hopen : ∀ d ∈ new, ¬ db'.Closed d.id := by
    intro d hd hclosed
    have hnodup := nodup_accounts db'
    rw [← hnew, List.map_append, List.nodup_append] at hnodup
    have hfresh : db.getDeadLetter d.id = none := by
      cases hget : db.getDeadLetter d.id with
      | none => rfl
      | some old =>
        have hmem : old.frozen.id ∈ db.accounts.map DeadLetter.id :=
          List.mem_map_of_mem (List.mem_map_of_mem (Journal.mem_of_get hget))
        exact absurd (Journal.get_serial hget) (hnodup.2.2 _ hmem _ (List.mem_map_of_mem hd))
    rcases (Transaction.commit_closed hk h).mp hclosed with ⟨old,hold,_⟩ | ⟨_,letter,loaded,now,rfl,hid⟩
    · rw [hfresh] at hold
      cases hold
    · obtain ⟨current,hget,_⟩ := hh letter (List.mem_singleton_self _)
      rw [hid, hfresh] at hget
      cases hget
  have hclosed : db'.closedDepth source = db.closedDepth source + tx.closes db source := by
    rw [Ledger.closedDepth, ← hnew, List.countP_append, closed_accounts hk hh h]
    refine Nat.add_eq_left.mpr (List.countP_eq_zero.mpr fun d hd => ?_)
    simp only [decide_eq_true_eq, not_and]
    exact fun _ => hopen d hd
  have hbefore := openDepth_add_closedDepth db source
  have hafter := openDepth_add_closedDepth db' source
  omega

end Depth

/-! ## Claims -/

/-- The row under the id is of the source, and one more attempt is over the ceiling. -/
def Ledger.exhausted (db : Ledger) (st : Settings) (source : Source) (id : String) : Bool :=
  (db.getEvent id).any fun e => e.source = source ∧ st.maxRowAttempts ≤ e.attemptCount

section Claims
variable {rt : Runtime} {st : Settings} {db db' : Ledger} {now : Time}

/-- A call that returns has counted once. -/
theorem deadLetterCounted_once {e : Event} {failureClass : FailureClass} {reason : String}
    {code message : Option String} {payload : Json}
    (h : (deadLetterCounted db e failureClass reason code message payload now).1 = .ok db') :
    (deadLetterCounted db e failureClass reason code message payload now).2 =
      [⟨e.source,unknown e.conversionAction,failureClass⟩] := by
  unfold deadLetterCounted at h ⊢
  obtain ⟨out,_,_,hcounted⟩ := Metered.bind_ok h
  rw [hcounted]
  rfl

/-- The second loop of a claim takes one row after the other. -/
theorem claimItemCounted_count (source : Source) {acc acc' : Ledger × List Claimed} {id : String}
    (h : (claimItemCounted rt st now acc id).1 = .ok acc') :
    (claimItemCounted rt st now acc id).2.countP (fun l => l.source = source) =
      ((acc.1.getEvent id).any fun e => e.source = source ∧ st.maxRowAttempts < e.attemptCount).toNat := by
  unfold claimItemCounted at h ⊢
  cases he : acc.1.getEvent id with
  | none => rfl
  | some e =>
    rw [he] at h
    obtain ⟨conversion,_,h,hcounted⟩ := Metered.bind_ok h
    dsimp only
    rw [hcounted]
    split at h
    · next hover =>
      obtain ⟨mid,hmid,h,hcounted⟩ := Metered.bind_ok h
      rw [if_pos hover, hcounted, deadLetterCounted_once hmid]
      have hover : st.maxRowAttempts < e.attemptCount := hover
      by_cases hs : e.source = source <;> simp [hs,hover]
    · next hover =>
      rw [if_neg hover]
      simp [hover]

theorem claimItemsCounted_count (source : Source) {ids : List String} (hids : ids.Nodup) {acc acc' : Ledger × List Claimed}
    (h : (Metered.loop (claimItemCounted rt st now) acc ids).1 = .ok acc') :
    (Metered.loop (claimItemCounted rt st now) acc ids).2.countP (fun l => l.source = source) =
      ids.countP fun id => (acc.1.getEvent id).any fun e => e.source = source ∧ st.maxRowAttempts < e.attemptCount := by
  induction ids generalizing acc with
  | nil => rfl
  | cons id rest ih =>
    obtain ⟨hid,hrest⟩ := List.nodup_cons.mp hids
    unfold Metered.loop at h ⊢
    obtain ⟨mid,hmid,hloop,hcounted⟩ := Metered.bind_ok h
    have hframe := (claimItem_rewrites ((claimItemCounted_fst rt st now acc id).symm.trans hmid)).frame
    have hrows : rest.countP (fun j => (mid.1.getEvent j).any fun e => e.source = source ∧ st.maxRowAttempts < e.attemptCount) =
        rest.countP fun j => (acc.1.getEvent j).any fun e => e.source = source ∧ st.maxRowAttempts < e.attemptCount := by
      refine List.countP_congr fun j hj => ?_
      have hne : j ≠ id := fun heq => hid (heq ▸ hj)
      rw [show mid.1.getEvent j = acc.1.getEvent j from hframe j hne]
    rw [hcounted, List.countP_append, claimItemCounted_count source hmid, ih hrest hloop, hrows, List.countP_cons, Nat.add_comm]
    cases (acc.1.getEvent id).any fun e => e.source = source ∧ st.maxRowAttempts < e.attemptCount <;> rfl

/-- A claim files the rows it finds exhausted. -/
theorem claim_opens (source : Source) {selected : List String} (hids : selected.Nodup) {reply : Reply}
    (h : (Transaction.claim st selected now).commit rt db = .ok (db',reply)) :
    (Transaction.claim st selected now).opens rt db source = selected.countP (db.exhausted st source) := by
  have hfresh : (Transaction.claim st selected now).session.Fresh db := Session.fresh_empty db
  obtain ⟨hbody,_⟩ := Transaction.commit_fresh hfresh h
  rw [← bodyCounted_fst rt] at hbody
  unfold Transaction.opens Transaction.counted
  rw [hfresh.view_eq]
  unfold Transaction.bodyCounted at hbody ⊢
  obtain ⟨⟨out,items⟩,hclaim,_,hcounted⟩ := Metered.bind_ok hbody
  rw [hcounted]
  unfold claimCounted at hclaim ⊢
  obtain ⟨mid,hmid,hloop,hcounted⟩ := Metered.bind_ok hclaim
  rw [hcounted]
  have hrows := loop_rewrites Ledger.events (fun _ _ _ hr => claimRow_rewrites hr) hids hmid
  have hcount := claimItemsCounted_count source hids hloop
  simp only [Metered.lift_snd, List.nil_append, Metered.pure_snd, List.append_nil]
  rw [hcount]
  refine List.countP_congr fun id hid => ?_
  unfold Ledger.exhausted
  cases he : db.getEvent id with
  | none =>
    rw [show mid.getEvent id = none from hrows.absent id he]
    simp
  | some e =>
    obtain ⟨x,hx,reason,hc⟩ := hrows.touch id e hid he
    rw [show mid.getEvent id = some x from hx]
    have hsource : x.source = e.source := by cases hc <;> rfl
    simp only [Option.any_some, decide_eq_true_eq, hsource, hc.columns.2.1, Nat.lt_succ_iff]

end Claims
end ConversionGateway
