import Mathlib.Data.List.Perm.Subperm
import ConversionGateway.Lifecycle.DeadLetterCounts
import ConversionGateway.System.Links

/-! # The dead-letter counter over whole runs

The system with the increments of `conversions_dead_lettered_total`. A transaction
of an uploader may fail at any point; the calls of `dead_letter` that had returned
by then stay counted, while the rows they added are rolled back. The counter is
never behind the store, and it is ahead for good after the first such failure.
-/
namespace ConversionGateway
open Relational

structure MeteredSystem where
  system : System
  /-- The increments so far, in order. -/
  counted : List DeadLetterLabels

inductive MeteredAction
  | step (a : Action)
  /-- The transaction of an uploader raises, or its commit does, after so many calls
  of `dead_letter` have returned; the process is started again. -/
  | fail (n : ℕ) (calls : ℕ)

namespace System
variable (rt : Runtime) (settings : ℕ → Settings)

/-- The increments of the transaction that a process has before it. -/
def increments (s : System) (who : Process) : List DeadLetterLabels :=
  match s.transaction settings who with
  | none => []
  | some tx => tx.counted rt s.ledger

/-- The increments of one step: those of a commit. -/
def stepIncrements (s : System) : Action → List DeadLetterLabels
  | .commit who => s.increments rt settings who
  | _ => []

def meteredStep (m : MeteredSystem) : MeteredAction → Option MeteredSystem
  | .step a => (step rt settings m.system a).map fun s =>
      ⟨s,m.counted ++ m.system.stepIncrements rt settings a⟩
  | .fail n calls =>
    if (m.system.transaction settings (.uploader n)).isSome then
      some ⟨m.system.crash (.uploader n),
        m.counted ++ (m.system.increments rt settings (.uploader n)).take calls⟩
    else none

abbrev meteredRun : MeteredSystem → List MeteredAction → Option MeteredSystem :=
  Machine.run (meteredStep rt settings)

def meteredStart : MeteredSystem := ⟨start Ledger.empty,[]⟩

/-- No transaction fails after a call of `dead_letter` in it has returned. -/
def FailsUncounted (m : MeteredSystem) : MeteredAction → Prop
  | .step _ => True
  | .fail n calls => (m.system.increments rt settings (.uploader n)).take calls = []

instance (m : MeteredSystem) : ∀ a, Decidable (FailsUncounted rt settings m a)
  | .step _ => isTrue trivial
  | .fail _ _ => inferInstanceAs (Decidable (_ = _))

/-- Ledger, dead-letter store and counter agree: every committed row pairs off with
the committed transition into DEAD_LETTERED it is of, and under all labels there are
as many increments as rows and as transitions that these record. -/
def Agree (counted : List DeadLetterLabels) (db : Ledger) : Prop :=
  ∃ pairs : List (EventTransition × DeadLetter),
    pairs.map Prod.fst = db.burials ∧ pairs.map Prod.snd = db.deadLetters.rows ∧
    (∀ p ∈ pairs, p.2.Of p.1) ∧
    ∀ labels, counted.count labels = db.deadLetters.rows.countP (fun d => d.labels = labels) ∧
      db.deadLetters.rows.countP (fun d => d.labels = labels) =
        pairs.countP (fun p => p.2.labels = labels)

section Steps
variable {rt : Runtime} {settings : ℕ → Settings} {s t : System} {a : Action}

/-- The records that processes hold are rows of the store, up to the replay columns. -/
def HeldRecords (s : System) : Prop :=
  ∀ who, ∀ d ∈ s.letters who, ∃ current, s.ledger.getDeadLetter d.id = some current ∧
    current.frozen = d.frozen

theorem start_heldRecords (db : Ledger) : (start db).HeldRecords := by
  intro who d hd
  cases who <;> simp [System.letters,start,Replayer.letters] at hd

theorem HeldRecords.holds (hh : s.HeldRecords) {who : Process} {tx : Transaction}
    (h : s.transaction settings who = some tx) : tx.session.Holds s.ledger := by
  intro d hd
  rw [(transaction_session h).2] at hd
  exact hh who d hd

/-- The rows of the store grow by the increments of a step. -/
theorem step_counts (hl : s.Linked) (hh : s.HeldRecords) (h : step rt settings s a = some t) :
    t.ledger.labels = s.ledger.labels ++ s.stepIncrements rt settings a ∧
    s.ledger.accounts <+: t.ledger.accounts ∧ (s.ledger.Paired → t.ledger.Paired) := by
  have hidle (hn : ∀ who, a ≠ .commit who) : t.ledger = s.ledger := by
    rcases step_ledger h with heq | ⟨who,_,_,ha,_⟩
    · exact heq
    · exact absurd ha (hn who)
  cases a with
  | commit who =>
    obtain ⟨tx,reply,hc⟩ := step_commit h
    have hinc : s.stepIncrements rt settings (.commit who) = tx.counted rt s.ledger := by
      simp only [stepIncrements, increments, hc.transaction]
    rw [hinc]
    exact Transaction.commit_counts (hl.known hc.transaction).fresh_view (hh.holds hc.transaction)
      (hl.paired hc.transaction) hc.commit
  | _ =>
    rw [hidle (by simp)]
    exact ⟨(List.append_nil _).symm,List.prefix_refl _,id⟩

theorem step_heldRecords (hl : s.Linked) (hh : s.HeldRecords) (h : step rt settings s a = some t) : t.HeldRecords := by
  intro who d hd
  have hkept := (step_counts hl hh h).2.1
  rcases step_letters h hd with hd | hd
  · obtain ⟨current,hc,ha⟩ := hh who d hd
    obtain ⟨current',hc',ha'⟩ := frozen_of_prefix hkept hc
    exact ⟨current',hc',ha'.trans ha⟩
  · exact frozen_of_prefix hkept hd

/-- The counter covers the rows; the rest of it are the increments whose rows were
rolled back. -/
structure Ahead (m : MeteredSystem) : Prop where
  linked : m.system.Linked
  held : m.system.HeldRecords
  paired : m.system.ledger.Paired
  covers : m.system.ledger.labels.Subperm m.counted

/-- How far the counter is ahead. -/
def surplus (m : MeteredSystem) : ℕ := m.counted.length - m.system.ledger.labels.length

theorem meteredStart_ahead : Ahead meteredStart :=
  ⟨start_linked _,start_heldRecords _,List.Forall₂.nil,List.nil_subperm⟩

/-- A step leaves the counter as far ahead as it is, unless a transaction fails that
has counted. -/
theorem meteredStep_ahead {m m' : MeteredSystem} {a : MeteredAction} (hs : Ahead m)
    (h : meteredStep rt settings m a = some m') :
    Ahead m' ∧ surplus m ≤ surplus m' ∧ (surplus m' = surplus m ↔ FailsUncounted rt settings m a) := by
  cases a with
  | step a =>
    obtain ⟨t,ht,rfl⟩ := Option.map_eq_some_iff.mp h
    obtain ⟨hlabels,_,hpaired⟩ := step_counts hs.linked hs.held ht
    have hsame : surplus ⟨t,m.counted ++ m.system.stepIncrements rt settings a⟩ = surplus m := by
      simp only [surplus, hlabels, List.length_append]
      omega
    refine ⟨⟨step_linked hs.linked ht,step_heldRecords hs.linked hs.held ht,hpaired hs.paired,?_⟩,?_,?_⟩
    · rw [hlabels]
      exact hs.covers.append (List.Subperm.refl _)
    · rw [hsame]
    · exact ⟨fun _ => trivial,fun _ => hsame⟩
  | fail n calls =>
    obtain ⟨_,h⟩ := Option.ite_none_right_eq_some.mp h
    cases h
    have hcrash : System.step rt settings m.system (.crash (.uploader n)) =
        some (m.system.crash (.uploader n)) := rfl
    set lost := (m.system.increments rt settings (.uploader n)).take calls with hlost
    have hmore : surplus ⟨m.system.crash (.uploader n),m.counted ++ lost⟩ = surplus m + lost.length := by
      have hle := hs.covers.length_le
      simp only [surplus, crash, List.length_append]
      omega
    refine ⟨⟨step_linked hs.linked hcrash,step_heldRecords hs.linked hs.held hcrash,hs.paired,?_⟩,?_,?_⟩
    · exact hs.covers.trans (List.sublist_append_left _ _).subperm
    · omega
    · rw [hmore]
      change _ ↔ lost = []
      rw [← List.length_eq_zero_iff]
      omega

theorem meteredRun_ahead {m m' : MeteredSystem} {actions : List MeteredAction} (hs : Ahead m)
    (h : meteredRun rt settings m actions = some m') : Ahead m' ∧ surplus m ≤ surplus m' ∧
      (surplus m' = surplus m ↔
        Machine.Along (meteredStep rt settings) (FailsUncounted rt settings) m actions) := by
  induction actions generalizing m with
  | nil =>
    cases h
    refine ⟨hs,le_refl _,fun _ => ?_,fun _ => rfl⟩
    intro pre a post t heq
    simp at heq
  | cons a rest ih =>
    obtain ⟨mid,hmid,hrest⟩ := Machine.run_cons.mp h
    obtain ⟨hs',hle,hiff⟩ := meteredStep_ahead hs hmid
    obtain ⟨hs'',hle',hiff'⟩ := ih hs' hrest
    refine ⟨hs'',hle.trans hle',?_⟩
    rw [Machine.along_cons, ← hiff]
    constructor
    · intro heq
      refine ⟨by omega,fun t ht => ?_⟩
      obtain rfl := Option.some.inj (hmid.symm.trans ht)
      exact hiff'.mp (by omega)
    · rintro ⟨hfirst,hlater⟩
      have hlast := hiff'.mpr (hlater mid hmid)
      omega

/-- They agree exactly if the counter is not ahead. -/
theorem Ahead.agree_iff {m : MeteredSystem} (hs : Ahead m) :
    Agree m.counted m.system.ledger ↔ surplus m = 0 := by
  have hcount : ∀ labels, m.system.ledger.labels.count labels =
      m.system.ledger.deadLetters.rows.countP (fun d => d.labels = labels) := by
    intro labels
    unfold Ledger.labels
    rw [List.count_eq_countP, List.countP_map]
    exact List.countP_congr fun d _ => by simp
  constructor
  · rintro ⟨_,_,_,_,hagree⟩
    have hperm : m.counted.Perm m.system.ledger.labels := List.perm_iff_count.mpr fun labels => by
      rw [hcount, (hagree labels).1]
    unfold surplus
    rw [hperm.length_eq]
    omega
  · intro hzero
    have hlen : m.counted.length ≤ m.system.ledger.labels.length := by
      unfold surplus at hzero
      omega
    have hperm := hs.covers.perm_of_length_le hlen
    have hpaired : List.Forall₂ (fun t d => d.Of t) m.system.ledger.burials
        m.system.ledger.deadLetters.rows :=
      (List.forall₂_map_right_iff.mp hs.paired).imp fun _ _ hof => ⟨hof.eventId,hof.history⟩
    have hsnd : (m.system.ledger.burials.zip m.system.ledger.deadLetters.rows).map Prod.snd =
        m.system.ledger.deadLetters.rows := List.map_snd_zip hpaired.length_eq.ge
    refine ⟨m.system.ledger.burials.zip m.system.ledger.deadLetters.rows,
      List.map_fst_zip hpaired.length_eq.le,hsnd,fun p hp => ?_,fun labels => ⟨?_,?_⟩⟩
    · exact List.forall₂_zip hpaired hp
    · rw [← hcount, hperm.count_eq]
    · conv_lhs => rw [← hsnd]
      rw [List.countP_map]
      rfl

/-- In every run the store, the trail and the counter agree at the end exactly if no
transaction failed on the way that had counted a dead letter. -/
theorem meteredRun_agree (rt : Runtime) (settings : ℕ → Settings) (actions : List MeteredAction)
    (m : MeteredSystem) (h : meteredRun rt settings meteredStart actions = some m) :
    Agree m.counted m.system.ledger ↔
      Machine.Along (meteredStep rt settings) (FailsUncounted rt settings) meteredStart actions := by
  obtain ⟨hs,_,hiff⟩ := meteredRun_ahead meteredStart_ahead h
  rw [hs.agree_iff, ← hiff]
  rfl

end Steps

/-- One event to the point where the result of its upload is about to be written. -/
def resultLoaded (row : RowResult) : List MeteredAction :=
  ([.request 0 (.deliver .hubspot (clickBody 1704067200000) .zero), .commit (.request 0),
    .request 0 .publish, .worker 0 (.receive 0), .worker 0 .read, .commit (.worker 0),
    .uploader 0 .begin, .uploader 0 (.select ["hubspot:1"]), .commit (.uploader 0), .uploader 0 .send,
    .uploader 0 (.finish (.result [row])), .uploader 0 .load] : List Action).map .step

/-- The theorem where the row is dead-lettered. -/
theorem meteredRun_agree_partial : ∃ m,
    meteredRun (clickRuntime 1704067200000) (fun _ => .single) meteredStart
      (resultLoaded ⟨0,false,some "INVALID",none⟩ ++ [.step (.commit (.uploader 0))]) = some m ∧
    m.counted.length = 1 ∧ Agree m.counted m.system.ledger := by
  have hrun : (meteredRun (clickRuntime 1704067200000) (fun _ => .single) meteredStart
      (resultLoaded ⟨0,false,some "INVALID",none⟩ ++ [.step (.commit (.uploader 0))])).map
      (fun m => m.counted.length) = some 1 := by decide +kernel
  obtain ⟨m,hm,hlen⟩ := Option.map_eq_some_iff.mp hrun
  exact ⟨m,hm,hlen,(meteredRun_agree _ _ _ m hm).mpr (by decide +kernel)⟩

/-- An error code that fits into the reason and not into its own column. -/
def longCode : RowResult := ⟨0,false,some (String.ofList (List.replicate 200 'c')),none⟩

/-- The commit that dead-letters it fails, and the counter is ahead. -/
theorem not_agree_longCode : ∃ m m' tx,
    meteredRun (clickRuntime 1704067200000) (fun _ => .single) meteredStart (resultLoaded longCode) = some m ∧
    m.system.transaction (fun _ => .single) (.uploader 0) = some tx ∧
    tx.commit (clickRuntime 1704067200000) m.system.ledger = .error .dataError ∧
    meteredStep (clickRuntime 1704067200000) (fun _ => .single) m (.fail 0 1) = some m' ∧
    ¬ Agree m'.counted m'.system.ledger := by
  have hrun : (meteredRun (clickRuntime 1704067200000) (fun _ => .single) meteredStart
      (resultLoaded longCode)).bind (fun m => (m.system.transaction (fun _ => .single) (.uploader 0)).map
      fun tx => (match tx.commit (clickRuntime 1704067200000) m.system.ledger with
        | .error .dataError => true
        | _ => false,
        (m.counted ++ (m.system.increments (clickRuntime 1704067200000) (fun _ => .single)
          (.uploader 0)).take 1).length,m.system.ledger.deadLetters.rows.length)) = some (true,1,0) := by
    decide +kernel
  obtain ⟨m,hm,hview⟩ := Option.bind_eq_some_iff.mp hrun
  obtain ⟨tx,htx,hview⟩ := Option.map_eq_some_iff.mp hview
  obtain ⟨hfails,hview⟩ := Prod.mk.inj hview
  obtain ⟨hcounted,hrows⟩ := Prod.mk.inj hview
  refine ⟨m,_,tx,hm,htx,?_,if_pos (by rw [htx]; rfl),?_⟩
  · split at hfails
    · assumption
    · cases hfails
  · rintro ⟨_,_,_,_,hagree⟩
    obtain ⟨label,hlabel⟩ := List.length_eq_one_iff.mp hcounted
    have hcount := (hagree label).1
    have hnone : (m.system.crash (.uploader 0)).ledger.deadLetters.rows = [] := List.length_eq_zero_iff.mp hrows
    rw [hlabel, hnone] at hcount
    simp at hcount

end System
end ConversionGateway
