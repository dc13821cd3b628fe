import ConversionGateway.Lifecycle.TrailTallies
import ConversionGateway.System.Links

/-! # The counters of what becomes of an event, over whole runs

A counter is no part of a transaction: what a transaction has counted stays counted when
it is rolled back. That is all in which the counters and the trail come to differ.
-/
namespace ConversionGateway

/-- A step of the gateway, or one by which a process gives up its transaction after so many
increments: it raises, its commit does, or the process dies. -/
inductive TallyAction
  | step (a : Action)
  | abandon (a : Action) (calls : ℕ)

/-- The process whose transaction is rolled back. -/
def Action.abandons : Action → Option Process
  | .worker n .raise => some (.worker n)
  | .crash who => some who
  | _ => none

namespace System
variable (rt : Runtime) (settings : ℕ → Settings)

/-- The increments of the transaction that a process has before it. -/
def pendingTallies (s : System) (who : Process) : List TallyLabels :=
  match s.transaction settings who with
  | none => []
  | some tx => tx.tallied rt s.ledger

def tallyStep (s : System) : TallyAction → Option System
  | .step a => step rt settings s a
  | .abandon a _ => if a.abandons.isSome then step rt settings s a else none

abbrev tallyRun : System → List TallyAction → Option System := Machine.run (tallyStep rt settings)

/-- The increments of a step. -/
def counts (s : System) : TallyAction → List TallyLabels
  | .step (.commit who) => s.pendingTallies rt settings who
  | .step _ => []
  | .abandon a calls => a.abandons.toList.flatMap fun who => (s.pendingTallies rt settings who).take calls

/-- Those of a transaction that is rolled back. -/
def lost (s : System) : TallyAction → List TallyLabels
  | .step _ => []
  | .abandon a calls => s.counts rt settings (.abandon a calls)

section Steps
variable {rt : Runtime} {settings : ℕ → Settings} {s t : System}

/-- A step adds to the trail what it counts. -/
theorem step_tallies {a : Action} (hl : s.Linked) (ha : s.ledger.Anchored) (h : step rt settings s a = some t) :
    t.ledger.Anchored ∧ t.ledger.tallies = s.ledger.tallies ++ s.counts rt settings (.step a) := by
  cases a with
  | commit who =>
    obtain ⟨tx,reply,hc⟩ := step_commit h
    have hcounts : s.counts rt settings (.step (.commit who)) = tx.tallied rt s.ledger := by
      simp only [counts, pendingTallies, hc.transaction]
    rw [hcounts]
    exact Transaction.commit_tallies (hl.known hc.transaction) (hl.paired hc.transaction) ha hc.commit
  | _ =>
    rcases step_ledger h with heq | ⟨_,_,_,hcommit,_⟩
    · rw [heq]
      exact ⟨ha,(List.append_nil _).symm⟩
    · cases hcommit

/-- What a step counts it adds to the trail or it is lost. -/
theorem tallyStep_balance {a : TallyAction} (hs : s.Linked ∧ s.ledger.Anchored)
    (h : tallyStep rt settings s a = some t) : (t.Linked ∧ t.ledger.Anchored) ∧
      (s.ledger.tallies ++ s.counts rt settings a).Perm (t.ledger.tallies ++ s.lost rt settings a) := by
  obtain ⟨hl,ha⟩ := hs
  cases a with
  | step a =>
    obtain ⟨ha',htallies⟩ := step_tallies hl ha h
    refine ⟨⟨step_linked hl h,ha'⟩,List.Perm.of_eq ?_⟩
    rw [htallies]
    exact (List.append_nil _).symm
  | abandon a calls =>
    obtain ⟨habandons,h⟩ := Option.ite_none_right_eq_some.mp h
    have heq : t.ledger = s.ledger := by
      rcases step_ledger h with heq | ⟨_,_,_,rfl,_⟩
      · exact heq
      · cases habandons
    rw [heq]
    exact ⟨⟨step_linked hl h,heq ▸ ha⟩,List.Perm.refl _⟩

end Steps

/-- In every run, whatever its processes do to each other and wherever transactions are
given up: under all labels the counters are what the trail tells, and the increments of the
transactions that were rolled back on the way. So they agree with it exactly if none of
these had counted. -/
theorem tallyRun_counted (rt : Runtime) (settings : ℕ → Settings) (actions : List TallyAction) (s : System)
    (h : tallyRun rt settings (start Ledger.empty) actions = some s) :
    (∀ labels, (Machine.outputs (tallyStep rt settings) (counts rt settings) (start Ledger.empty) actions).count labels =
      s.ledger.tallies.count labels +
        (Machine.outputs (tallyStep rt settings) (lost rt settings) (start Ledger.empty) actions).count labels) ∧
    ((∀ labels, (Machine.outputs (tallyStep rt settings) (counts rt settings) (start Ledger.empty) actions).count labels =
      s.ledger.tallies.count labels) ↔
        Machine.Along (tallyStep rt settings) (fun s a => s.lost rt settings a = []) (start Ledger.empty) actions) := by
  have hstart : (start Ledger.empty).Linked ∧ (start Ledger.empty).ledger.Anchored :=
    ⟨start_linked _,fun t ht => by cases ht⟩
  obtain ⟨_,hperm⟩ := Machine.outputs_balance (fun s : System => s.ledger.tallies)
    (fun s => s.Linked ∧ s.ledger.Anchored) (fun _ _ _ hs hst => tallyStep_balance hs hst) hstart h
  have hcount : ∀ labels, (Machine.outputs (tallyStep rt settings) (counts rt settings) (start Ledger.empty) actions).count
      labels = s.ledger.tallies.count labels +
        (Machine.outputs (tallyStep rt settings) (lost rt settings) (start Ledger.empty) actions).count labels := by
    intro labels
    rw [← List.count_append]
    exact hperm.count_eq labels
  refine ⟨hcount,?_⟩
  rw [← Machine.outputs_eq_nil_iff, List.eq_nil_iff_forall_not_mem]
  apply forall_congr'
  intro labels
  rw [hcount, ← List.count_eq_zero]
  omega

/-- One event whose upload succeeds, and the uploader dies before its commit. -/
def uploadedAndLost : List TallyAction :=
  uploadOnce.dropLast.map .step ++ [.abandon (.crash (.uploader 0)) 1]

/-- The theorem at this run: the upload is counted and not in the trail. -/
theorem tallyRun_counted_lost : ∃ s,
    tallyRun (clickRuntime 1704067200000) (fun _ => .single) (start Ledger.empty) uploadedAndLost = some s ∧
    s.ledger.tallies = [] ∧
    (Machine.outputs (tallyStep (clickRuntime 1704067200000) fun _ => .single)
      (counts (clickRuntime 1704067200000) fun _ => .single) (start Ledger.empty) uploadedAndLost).count
        (.uploaded .hubspot "lead") = 1 := by
  have hrun : (tallyRun (clickRuntime 1704067200000) (fun _ => .single) (start Ledger.empty) uploadedAndLost).map
      (fun s => s.ledger.tallies) = some [] := by decide +kernel
  have hlost : (Machine.outputs (tallyStep (clickRuntime 1704067200000) fun _ => .single)
      (lost (clickRuntime 1704067200000) fun _ => .single) (start Ledger.empty) uploadedAndLost).count
        (.uploaded .hubspot "lead") = 1 := by decide +kernel
  obtain ⟨s,hs,htallies⟩ := Option.map_eq_some_iff.mp hrun
  refine ⟨s,hs,htallies,?_⟩
  rw [(tallyRun_counted _ _ _ s hs).1, htallies, hlost]
  rfl

end System
end ConversionGateway
