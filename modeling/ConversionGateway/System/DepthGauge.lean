import ConversionGateway.System.DeadLetterMetric
import ConversionGateway.System.OpenRecords
import ConversionGateway.System.Ownership

/-! # The depth gauge

The system with the gauge `dlq_depth` of every uploader. A cycle sets it after it has
uploaded a batch, and returns without setting it if no batch is due. Then the gauge
is true only if as many records were closed as opened since it was set.
-/
namespace ConversionGateway
open Relational

/-- The gauge of one process, with the records opened and closed since it was set. -/
structure DepthGauge where
  value : Source → ℕ
  /-- A batch has been uploaded and `_refresh_dlq_depth` comes next. -/
  due : Bool
  opened : Source → ℕ
  closed : Source → ℕ

namespace DepthGauge

/-- A process starts at zero, whatever is open by then. -/
def fresh (db : Ledger) : DepthGauge := ⟨fun _ => 0,false,db.openDepth,fun _ => 0⟩

/-- `_refresh_dlq_depth`: every source is set, a source without open records to zero. -/
def refresh (db : Ledger) : DepthGauge :=
  ⟨fun source => ((openDepthBySource db).lookup source).getD 0,false,fun _ => 0,fun _ => 0⟩

/-- A transaction of any process commits. -/
def pass (rt : Runtime) (db : Ledger) (tx : Transaction) (g : DepthGauge) : DepthGauge :=
  { g with opened := fun source => g.opened source + tx.opens rt db source
           closed := fun source => g.closed source + tx.closes db source }

end DepthGauge

/-- `upload_batch` ends with this transaction. -/
def Transaction.settles : Transaction → Bool
  | apply .. => true
  | bury .. => true
  | _ => false

instance : ∀ phase : Phase, Decidable (phase = .idle)
  | .idle => isTrue rfl
  | .cycle .. => isFalse nofun
  | .selected .. => isFalse nofun
  | .ready .. => isFalse nofun
  | .sending .. => isFalse nofun
  | .retrying .. => isFalse nofun
  | .settling .. => isFalse nofun

/-- Of its own steps only the one that finds no room leaves an uploader idle. -/
theorem Uploader.step_idle {st : Settings} {clock : Time} {db : Ledger} {u u' : Uploader} {n : ℕ}
    {locks locks' : Locks} {sent : Option (List Json)} {a : UploaderAction}
    (h : u.step st n clock db locks a = some (u',locks',sent)) (hidle : u'.phase = .idle) :
    a = .skip ∧ ∃ now, u.phase = .cycle now := by
  cases a with
  | skip =>
    simp only [step] at h
    split at h
    · next now hphase => exact ⟨rfl,now,hphase⟩
    · cases h
  | load =>
    simp only [step] at h
    split at h <;> cases h <;> cases hidle
  | begin | select ids | send | finish outcome | retry reason | stamp =>
    simp only [step] at h
    split at h
    · first
        | (cases h; cases hidle)
        | (split at h <;> cases h; cases hidle)
    · cases h

structure GaugedSystem where
  system : System
  gauges : ℕ → DepthGauge

inductive GaugedAction
  | step (a : Action)
  | refresh (n : ℕ)

namespace System
variable (rt : Runtime) (settings : ℕ → Settings)

def gaugesAfter (m : GaugedSystem) : Action → ℕ → DepthGauge
  | .commit who =>
    match m.system.transaction settings who with
    | none => m.gauges
    | some tx => fun n =>
      let g := (m.gauges n).pass rt m.system.ledger tx
      if who = .uploader n ∧ tx.settles then { g with due := true } else g
  | .crash (.uploader n) => Function.update m.gauges n (.fresh m.system.ledger)
  | _ => m.gauges

/-- A cycle that still has to set the gauge is not over. -/
def begins (m : GaugedSystem) : Action → Bool
  | .uploader n .begin => !(m.gauges n).due
  | _ => true

def gaugedStep (m : GaugedSystem) : GaugedAction → Option GaugedSystem
  | .step a =>
    if begins m a then
      (step rt settings m.system a).map fun s => ⟨s,gaugesAfter rt settings m a⟩
    else none
  | .refresh n =>
    if (m.gauges n).due then
      some { m with gauges := Function.update m.gauges n (.refresh m.system.ledger) }
    else none

abbrev gaugedRun : GaugedSystem → List GaugedAction → Option GaugedSystem :=
  Machine.run (gaugedStep rt settings)

def gaugedStart (db : Ledger) : GaugedSystem := ⟨start db,fun _ => .fresh db⟩

/-- `run_once` is under way. -/
def Cycling (m : GaugedSystem) (n : ℕ) : Prop :=
  (m.system.uploaders n).phase ≠ .idle ∨ (m.gauges n).due = true

instance (m : GaugedSystem) (n : ℕ) : Decidable (Cycling m n) := inferInstanceAs (Decidable (_ ∨ _))

/-- `run_once` returns with this step. -/
def Returns (m : GaugedSystem) (a : GaugedAction) (m' : GaugedSystem) (n : ℕ) : Prop :=
  Cycling m n ∧ ¬ Cycling m' n ∧ a ≠ .step (.crash (.uploader n))

/-- The records of a source that the claim under way is about to open. -/
def exhausting (s : System) (n : ℕ) (source : Source) : ℕ :=
  match (s.uploaders n).phase with
  | .selected _ ids => ids.countP (s.ledger.exhausted (settings n) source)
  | _ => 0

/-- The cycle has uploaded a batch, or every opening of a record since the gauge was
set is made up for by a closing. -/
def SetOrEven (m : GaugedSystem) (n : ℕ) : Prop :=
  (m.gauges n).due = true ∨
    ∀ source, (m.gauges n).opened source + exhausting settings m.system n source = (m.gauges n).closed source

section Steps
variable {rt : Runtime} {settings : ℕ → Settings} {s t : System} {m m' : GaugedSystem} {n : ℕ}

/-- The gauge and the records it has not seen add up to the open records. -/
structure Tallied (m : GaugedSystem) : Prop where
  linked : m.system.Linked
  held : m.system.HeldRecords
  balanced : ∀ n source, (m.gauges n).value source + (m.gauges n).opened source =
    m.system.ledger.openDepth source + (m.gauges n).closed source

theorem gaugedStart_tallied (db : Ledger) : Tallied (gaugedStart db) :=
  ⟨start_linked db,start_heldRecords db,fun _ source => Nat.add_comm 0 (db.openDepth source)⟩

theorem DepthGauge.refresh_value (db : Ledger) (source : Source) :
    (DepthGauge.refresh db).value source = db.openDepth source := openDepthBySource_lookup db source

/-- The open records after a commit of any process. -/
theorem Commits.depth {who : Process} {tx : Transaction} {reply : Reply} (source : Source) (hl : s.Linked)
    (hh : s.HeldRecords) (hc : Commits rt settings s t who tx reply) :
    t.ledger.openDepth source + tx.closes s.ledger source = s.ledger.openDepth source + tx.opens rt s.ledger source :=
  Transaction.commit_depth (hl.known hc.transaction) (hh.holds hc.transaction) (hl.paired hc.transaction) hc.commit

theorem gaugesAfter_commit {who : Process} {tx : Transaction} (h : m.system.transaction settings who = some tx) :
    gaugesAfter rt settings m (.commit who) n =
      { (m.gauges n).pass rt m.system.ledger tx with
        due := (m.gauges n).due || decide (who = .uploader n ∧ tx.settles) } := by
  simp only [gaugesAfter, h]
  split
  · next hlast => simp [hlast]
  · next hlast => simp [hlast,DepthGauge.pass]

theorem gaugedStep_tallied {a : GaugedAction} (hm : Tallied m) (h : gaugedStep rt settings m a = some m') : Tallied m' := by
  cases a with
  | refresh k =>
    obtain ⟨_,h⟩ := Option.ite_none_right_eq_some.mp h
    cases h
    refine ⟨hm.linked,hm.held,fun n source => ?_⟩
    by_cases hn : n = k
    · subst hn
      simp only [Function.update_self]
      rw [DepthGauge.refresh_value]
      rfl
    · simpa only [Function.update_of_ne hn] using hm.balanced n source
  | step a =>
    obtain ⟨_,h⟩ := Option.ite_none_right_eq_some.mp h
    obtain ⟨t,ht,rfl⟩ := Option.map_eq_some_iff.mp h
    refine ⟨step_linked hm.linked ht,step_heldRecords hm.linked hm.held ht,fun n source => ?_⟩
    have hbefore := hm.balanced n source
    have hidle (hn : ∀ who, a ≠ .commit who) : t.ledger = m.system.ledger := by
      rcases step_ledger ht with heq | ⟨who,_,_,ha,_⟩
      · exact heq
      · exact absurd ha (hn who)
    cases a with
    | commit who =>
      obtain ⟨tx,reply,hc⟩ := step_commit ht
      have hdepth := hc.depth source hm.linked hm.held
      simp only [gaugesAfter_commit hc.transaction, DepthGauge.pass]
      omega
    | crash who =>
      have hledger := hidle (by simp)
      cases who with
      | uploader k =>
        simp only [gaugesAfter, hledger]
        by_cases hn : n = k
        · subst hn
          simp only [Function.update_self, DepthGauge.fresh]
          omega
        · simpa only [Function.update_of_ne hn] using hbefore
      | _ => simpa only [gaugesAfter, hledger] using hbefore
    | _ =>
      rw [hidle (by simp)]
      exact hbefore

theorem gaugedRun_tallied {db : Ledger} {actions : List GaugedAction}
    (h : gaugedRun rt settings (gaugedStart db) actions = some m) : Tallied m :=
  Machine.run_inv' Tallied (fun _ _ _ hm hs => gaugedStep_tallied hm hs) (gaugedStart_tallied db) h

/-- Only the refresh and a crash take the mark away. -/
theorem gaugesAfter_due {a : Action} (hdue : (m.gauges n).due = true) (ha : a ≠ .crash (.uploader n)) :
    (gaugesAfter rt settings m a n).due = true := by
  cases a with
  | commit who =>
    cases htx : m.system.transaction settings who with
    | none => simpa only [gaugesAfter, htx] using hdue
    | some tx => simp [gaugesAfter_commit htx,hdue]
  | crash who =>
    cases who with
    | uploader k =>
      have hn : n ≠ k := fun heq => ha (heq ▸ rfl)
      simpa only [gaugesAfter, Function.update_of_ne hn] using hdue
    | _ => exact hdue
  | _ => exact hdue

/-- How an uploader comes to be idle: with the transaction that settles a batch, or
after a claim with which no batch is due. -/
theorem step_idles {a : Action} (h : step rt settings s a = some t) (hbusy : (s.uploaders n).phase ≠ .idle)
    (hidle : (t.uploaders n).phase = .idle) (hcrash : a ≠ .crash (.uploader n)) :
    (a = .uploader n .skip ∧ ∃ now, (s.uploaders n).phase = .cycle now) ∨
    ∃ tx reply, a = .commit (.uploader n) ∧ Commits rt settings s t (.uploader n) tx reply ∧ (tx.settles = true ∨
      ∃ now ids, (s.uploaders n).phase = .selected now ids ∧ tx = .claim (settings n) ids now) := by
  have hother {k : ℕ} {u : Uploader} (hu : t.uploaders = Function.update s.uploaders k u) : n = k := by
    by_contra hn
    rw [hu, Function.update_of_ne hn] at hidle
    exact hbusy hidle
  rcases step_uploaders h with ⟨hu,_⟩ | ⟨k,ha,hu,_⟩ | ⟨k,tx,reply,ha,hc,hu,_⟩ | ⟨k,b,u,_,ha,hp,hu,_⟩
  · exact absurd (hu ▸ hidle) hbusy
  · obtain rfl := hother hu
    exact absurd ha hcrash
  · obtain rfl := hother hu
    refine Or.inr ⟨tx,reply,ha,hc,?_⟩
    rw [hu, Function.update_self] at hidle
    rcases Uploader.transaction_cases hc.transaction with ⟨now,ids,hphase,rfl⟩ | ⟨_,_,_,_,_,_,hphase,_,_⟩ |
      ⟨_,_,_,_,_,rfl⟩ | ⟨_,_,_,_,_,rfl⟩
    · exact Or.inr ⟨now,ids,hphase,rfl⟩
    · simp [Uploader.committed,hphase] at hidle
    · exact Or.inl rfl
    · exact Or.inl rfl
  · obtain rfl := hother hu
    rw [hu, Function.update_self] at hidle
    obtain ⟨rfl,hphase⟩ := Uploader.step_idle hp hidle
    exact Or.inl ⟨ha,hphase⟩

/-- A cycle that has not uploaded a batch returns with its claim, or without one. -/
theorem gaugedStep_returns {a : Action} (hl : m.system.Linked) (h : gaugedStep rt settings m (.step a) = some m')
    (hret : Returns m (.step a) m' n) : (m.gauges n).due = false ∧ (m'.gauges n).value = (m.gauges n).value ∧
      ∀ source, (m'.gauges n).opened source = (m.gauges n).opened source + exhausting settings m.system n source ∧
        (m'.gauges n).closed source = (m.gauges n).closed source := by
  obtain ⟨hunder,hover,hcrash⟩ := hret
  obtain ⟨_,h⟩ := Option.ite_none_right_eq_some.mp h
  obtain ⟨t,ht,rfl⟩ := Option.map_eq_some_iff.mp h
  simp only [Cycling, not_or, not_not, Bool.not_eq_true] at hover
  obtain ⟨hidle,hset⟩ := hover
  have hcrash : a ≠ .crash (.uploader n) := fun heq => hcrash (congrArg GaugedAction.step heq)
  have hdue : (m.gauges n).due = false := by
    by_contra hd
    rw [gaugesAfter_due (Bool.not_eq_false _ ▸ hd) hcrash] at hset
    cases hset
  have hbusy : (m.system.uploaders n).phase ≠ .idle := hunder.resolve_right (by simp [hdue])
  refine ⟨hdue,?_⟩
  rcases step_idles ht hbusy hidle hcrash with ⟨rfl,now,hphase⟩ | ⟨tx,reply,rfl,hc,hlast | ⟨now,ids,hphase,rfl⟩⟩
  · refine ⟨rfl,fun source => ⟨?_,rfl⟩⟩
    simp [exhausting,hphase,gaugesAfter]
  · simp [gaugesAfter_commit hc.transaction,hlast] at hset
  · simp only [gaugesAfter_commit hc.transaction]
    refine ⟨rfl,fun source => ⟨?_,rfl⟩⟩
    have hopens := claim_opens source ((hl.uploaders n).selected now ids hphase).1 hc.commit
    simp only [DepthGauge.pass, hopens, exhausting, hphase]

/-- In every run a cycle that returns leaves the gauge of its process true exactly if it
has uploaded a batch, or every opening of a record since the gauge was set, those of the
claim included, is made up for by a closing. -/
theorem gaugedRun_depth_iff (rt : Runtime) (settings : ℕ → Settings) (db : Ledger) (actions : List GaugedAction)
    (m : GaugedSystem) (h : gaugedRun rt settings (gaugedStart db) actions = some m) (a : GaugedAction)
    (m' : GaugedSystem) (hstep : gaugedStep rt settings m a = some m') (n : ℕ) (hret : Returns m a m' n) :
    (∀ source, (m'.gauges n).value source = m'.system.ledger.openDepth source) ↔ SetOrEven settings m n := by
  have hm := gaugedRun_tallied h
  cases a with
  | refresh k =>
    obtain ⟨hdue,hstep⟩ := Option.ite_none_right_eq_some.mp hstep
    cases hstep
    by_cases hn : n = k
    · subst hn
      simp only [Function.update_self, DepthGauge.refresh_value]
      exact iff_of_true (fun _ => trivial) (Or.inl hdue)
    · refine absurd ?_ hret.2.1
      simpa only [Cycling, Function.update_of_ne hn] using hret.1
  | step a =>
    obtain ⟨hdue,hvalue,hsince⟩ := gaugedStep_returns hm.linked hstep hret
    have hafter := (gaugedStep_tallied hm hstep).balanced n
    rw [SetOrEven, hdue, hvalue]
    rw [hvalue] at hafter
    simp only [Bool.false_eq_true, false_or]
    refine forall_congr' fun source => ?_
    have hbalance := hafter source
    obtain ⟨hopened,hclosed⟩ := hsince source
    rw [hopened, hclosed] at hbalance
    omega

end Steps

/-- One event whose upload is refused for good. -/
def refusedOnce : List GaugedAction :=
  ([.request 0 (.deliver .hubspot (clickBody 1704067200000) .zero), .commit (.request 0),
    .request 0 .publish, .worker 0 (.receive 0), .worker 0 .read, .commit (.worker 0),
    .uploader 0 .begin, .uploader 0 (.select ["hubspot:1"]), .commit (.uploader 0), .uploader 0 .send,
    .uploader 0 (.finish (.result [⟨0,false,some "INVALID",none⟩])), .uploader 0 .load,
    .commit (.uploader 0)] : List Action).map .step

/-- The cycle that uploads it. -/
theorem gaugedRun_depth_iff_refused : ∃ m m',
    gaugedRun (clickRuntime 1704067200000) (fun _ => .single) (gaugedStart Ledger.empty) refusedOnce = some m ∧
    gaugedStep (clickRuntime 1704067200000) (fun _ => .single) m (.refresh 0) = some m' ∧
    (m'.gauges 0).value .hubspot = 1 ∧
    ∀ source, (m'.gauges 0).value source = m'.system.ledger.openDepth source := by
  have hrun : (gaugedRun (clickRuntime 1704067200000) (fun _ => .single) (gaugedStart Ledger.empty) refusedOnce).bind
      (fun m => (gaugedStep (clickRuntime 1704067200000) (fun _ => .single) m (.refresh 0)).map fun m' =>
        ((m.gauges 0).due,decide (Cycling m' 0),(m'.gauges 0).value .hubspot)) = some (true,false,1) := by decide +kernel
  obtain ⟨m,hm,hview⟩ := Option.bind_eq_some_iff.mp hrun
  obtain ⟨m',hm',hview⟩ := Option.map_eq_some_iff.mp hview
  obtain ⟨hdue,hview⟩ := Prod.mk.inj hview
  obtain ⟨hover,hvalue⟩ := Prod.mk.inj hview
  refine ⟨m,m',hm,hm',hvalue,(gaugedRun_depth_iff _ _ _ _ m hm _ m' hm' 0 ⟨Or.inr hdue,?_,nofun⟩).mpr (Or.inl hdue)⟩
  exact of_decide_eq_false hover

/-- Its record is replayed, and the next cycle finds nothing to upload. -/
def replayedMeanwhile : List GaugedAction :=
  refusedOnce ++ .refresh 0 :: ([.replayer 0 (.pick 1 0), .replayer 0 .load, .replayer 0 .publish,
    .commit (.replayer 0), .uploader 0 .begin, .uploader 0 (.select [])] : List Action).map .step

/-- The cycle returns, no record is open, and the gauge still says one. -/
theorem not_depth_replayedMeanwhile : ∃ m m',
    gaugedRun (clickRuntime 1704067200000) (fun _ => .single) (gaugedStart Ledger.empty) replayedMeanwhile = some m ∧
    gaugedStep (clickRuntime 1704067200000) (fun _ => .single) m (.step (.commit (.uploader 0))) = some m' ∧
    Returns m (.step (.commit (.uploader 0))) m' 0 ∧ (m'.gauges 0).value .hubspot = 1 ∧
    m'.system.ledger.openDepth .hubspot = 0 := by
  have hrun : (gaugedRun (clickRuntime 1704067200000) (fun _ => .single) (gaugedStart Ledger.empty)
      replayedMeanwhile).bind (fun m =>
        (gaugedStep (clickRuntime 1704067200000) (fun _ => .single) m (.step (.commit (.uploader 0)))).map fun m' =>
          (decide (Cycling m 0),decide (Cycling m' 0),(m'.gauges 0).value .hubspot,
            m'.system.ledger.openDepth .hubspot)) = some (true,false,1,0) := by decide +kernel
  obtain ⟨m,hm,hview⟩ := Option.bind_eq_some_iff.mp hrun
  obtain ⟨m',hm',hview⟩ := Option.map_eq_some_iff.mp hview
  obtain ⟨hunder,hview⟩ := Prod.mk.inj hview
  obtain ⟨hover,hview⟩ := Prod.mk.inj hview
  obtain ⟨hvalue,hdepth⟩ := Prod.mk.inj hview
  exact ⟨m,m',hm,hm',⟨of_decide_eq_true hunder,of_decide_eq_false hover,nofun⟩,hvalue,hdepth⟩

end System
end ConversionGateway
