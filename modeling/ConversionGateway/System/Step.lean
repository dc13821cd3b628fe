import Mathlib.Logic.Function.Basic
import ConversionGateway.System.Processes

/-! # The system

Any number of processes of each kind over one ledger and one queue. A step is a
step of one process, a commit, a crash, or the passing of time; a run is any
sequence of them.
-/
namespace ConversionGateway

/-- The processes of the gateway, by kind and number. -/
inductive Process
  | request (n : ℕ)
  | worker (n : ℕ)
  | uploader (n : ℕ)
  | replayer (n : ℕ)
  | reconciler (n : ℕ)
deriving DecidableEq

inductive Action
  | tick (now : Time)
  /-- The acknowledgement deadline of a message passes. -/
  | expire (id : ℕ)
  | request (n : ℕ) (a : RequestAction)
  | worker (n : ℕ) (a : WorkerAction)
  | uploader (n : ℕ) (a : UploaderAction)
  | replayer (n : ℕ) (a : ReplayerAction)
  | reconciler (n : ℕ) (a : ReconcilerAction)
  | commit (who : Process)
  | crash (who : Process)

structure System where
  clock : Time
  ledger : Ledger
  locks : Locks
  queue : MessageQueue
  requests : ℕ → Request
  workers : ℕ → Worker
  uploaders : ℕ → Uploader
  replayers : ℕ → Replayer
  reconcilers : ℕ → List QueueMessage
  /-- Every list of conversions that was passed to the upload client. -/
  sent : List (List Json)
  /-- The event of every message that ingest published. -/
  published : List String
  /-- The events whose publication for their latest entry into QUEUED returned. -/
  announced : List String

namespace System

/-- Every process idle over a given ledger. -/
def start (db : Ledger) : System where
  clock := 0
  ledger := db
  locks := []
  queue := Delivery.Queue.empty
  requests := fun _ => .idle
  workers := fun _ => .idle
  uploaders := fun _ => Uploader.fresh
  replayers := fun _ => .idle
  reconcilers := fun _ => []
  sent := []
  published := []
  announced := []

variable (rt : Runtime) (settings : ℕ → Settings) (s : System)

/-- The transaction a process is ready to commit. -/
def transaction : Process → Option Transaction
  | .request n => (s.requests n).transaction
  | .worker n => (s.workers n).transaction
  | .uploader n => (s.uploaders n).transaction (settings n)
  | .replayer n => (s.replayers n).transaction
  | .reconciler _ => none

def unlock (n : ℕ) : Locks := s.locks.filter fun l => l.2 ≠ n

/-- The event a replay announces with its commit. -/
def announcement : Reply → List String
  | .replayed (some m) => [m.eventId]
  | _ => []

/-- The process goes on after its commit. -/
def committed (db : Ledger) (reply : Reply) : Process → System
  | .request n =>
    { s with ledger := db, requests := Function.update s.requests n ((s.requests n).committed reply) }
  | .worker n => { s with ledger := db, workers := Function.update s.workers n (s.workers n).committed }
  | .uploader n =>
    { s with ledger := db, locks := s.unlock n
             uploaders := Function.update s.uploaders n ((s.uploaders n).committed (settings n) reply) }
  | .replayer n =>
    { s with ledger := db, replayers := Function.update s.replayers n .idle
             announced := s.announced ++ announcement reply }
  | .reconciler _ => { s with ledger := db }

/-- The process dies and another takes its place; its transaction rolls back. -/
def crash : Process → System
  | .request n => { s with requests := Function.update s.requests n (s.requests n).crash }
  | .worker n => { s with workers := Function.update s.workers n .idle }
  | .uploader n =>
    { s with locks := s.unlock n, uploaders := Function.update s.uploaders n Uploader.fresh }
  | .replayer n => { s with replayers := Function.update s.replayers n .idle }
  | .reconciler n => { s with reconcilers := Function.update s.reconcilers n [] }

/-- Nobody writes a row that an uploader has locked. -/
def LocksKept (who : Process) (db : Ledger) : Prop :=
  ∀ l ∈ s.locks, who = .uploader l.2 ∨ db.getEvent l.1 = s.ledger.getEvent l.1

instance (who : Process) (db : Ledger) : Decidable (s.LocksKept who db) :=
  inferInstanceAs (Decidable (∀ _ ∈ _, _))

def step : Action → Option System
  | .tick now => if s.clock ≤ now then some { s with clock := now } else none
  | .expire id => some { s with queue := s.queue.release id }
  | .request n a =>
    ((s.requests n).step rt s.clock s.ledger s.queue a).map fun p =>
      { s with requests := Function.update s.requests n p.1, queue := p.2.1
               published := s.published ++ p.2.2.toList, announced := s.announced ++ p.2.2.toList }
  | .worker n a =>
    ((s.workers n).step s.clock s.ledger s.queue a).map fun p =>
      { s with workers := Function.update s.workers n p.1, queue := p.2 }
  | .uploader n a =>
    ((s.uploaders n).step (settings n) n s.clock s.ledger s.locks a).map fun p =>
      { s with uploaders := Function.update s.uploaders n p.1, locks := p.2.1
               sent := s.sent ++ p.2.2.toList }
  | .replayer n a =>
    ((s.replayers n).step s.ledger s.queue a).map fun p =>
      { s with replayers := Function.update s.replayers n p.1, queue := p.2 }
  | .reconciler n a =>
    (reconcilerStep s.ledger s.queue (s.reconcilers n) a).map fun p =>
      { s with reconcilers := Function.update s.reconcilers n p.1, queue := p.2 }
  | .commit who =>
    match s.transaction settings who with
    | none => none
    | some tx =>
      match tx.commit rt s.ledger with
      | .error _ => none
      | .ok (db,reply) => if s.LocksKept who db then some (s.committed settings db reply who) else none
  | .crash who => some (s.crash who)

/-- A run of the system. -/
abbrev run : System → List Action → Option System := Machine.run (step rt settings)

/-- The committed status of an event. -/
def status (k : String) : Option EventStatus := (s.ledger.getEvent k).map Event.status

section Step
variable {rt : Runtime} {settings : ℕ → Settings} {s t : System} {a : Action}

/-- A commit that went through. -/
structure Commits (rt : Runtime) (settings : ℕ → Settings) (s t : System) (who : Process)
    (tx : Transaction) (reply : Reply) : Prop where
  transaction : s.transaction settings who = some tx
  commit : tx.commit rt s.ledger = .ok (t.ledger,reply)
  locks : s.LocksKept who t.ledger
  after : t = s.committed settings t.ledger reply who

@[simp] theorem committed_ledger (db : Ledger) (reply : Reply) (who : Process) :
    (s.committed settings db reply who).ledger = db := by
  cases who <;> rfl

theorem step_commit {who : Process} (h : step rt settings s (.commit who) = some t) :
    ∃ tx reply, Commits rt settings s t who tx reply := by
  simp only [step] at h
  split at h
  · cases h
  · next tx htx =>
    split at h
    · cases h
    · next db reply hc =>
      split at h
      · next hl =>
        cases h
        exact ⟨tx,reply,htx,by rwa [committed_ledger],by rwa [committed_ledger],by rw [committed_ledger]⟩
      · cases h

/-- Only a commit changes the ledger. -/
theorem step_ledger (h : step rt settings s a = some t) :
    t.ledger = s.ledger ∨ ∃ who tx reply, a = .commit who ∧ Commits rt settings s t who tx reply := by
  cases a with
  | commit who =>
    obtain ⟨tx,reply,hc⟩ := step_commit h
    exact Or.inr ⟨who,tx,reply,rfl,hc⟩
  | tick now =>
    simp only [step, Option.ite_none_right_eq_some] at h
    cases h.2
    exact Or.inl rfl
  | expire id =>
    cases h
    exact Or.inl rfl
  | crash who =>
    cases h
    cases who <;> exact Or.inl rfl
  | request n a | worker n a | uploader n a | replayer n a | reconciler n a =>
    obtain ⟨p,_,rfl⟩ := Option.map_eq_some_iff.mp h
    exact Or.inl rfl

theorem step_clock (h : step rt settings s a = some t) : s.clock ≤ t.clock := by
  cases a with
  | tick now =>
    simp only [step, Option.ite_none_right_eq_some] at h
    obtain ⟨hle,h⟩ := h
    cases h
    exact hle
  | expire id =>
    cases h
    exact le_refl _
  | commit who =>
    obtain ⟨tx,reply,hc⟩ := step_commit h
    rw [hc.after]
    cases who <;> exact le_refl _
  | crash who =>
    cases h
    cases who <;> exact le_refl _
  | request n a | worker n a | uploader n a | replayer n a | reconciler n a =>
    obtain ⟨p,_,rfl⟩ := Option.map_eq_some_iff.mp h
    exact le_refl _

/-- One request through a step of the system. -/
theorem step_request (h : step rt settings s a = some t) (n : ℕ) : t.requests n = s.requests n ∨
    (∃ b q out, a = .request n b ∧
      (s.requests n).step rt s.clock s.ledger s.queue b = some (t.requests n,q,out)) ∨
    (∃ reply, t.requests n = (s.requests n).committed reply) ∨ t.requests n = (s.requests n).crash := by
  cases a with
  | commit who =>
    obtain ⟨tx,reply,hc⟩ := step_commit h
    rw [hc.after]
    cases who with
    | request m =>
      by_cases hm : n = m
      · subst hm
        exact Or.inr (Or.inr (Or.inl ⟨reply,Function.update_self ..⟩))
      · exact Or.inl (Function.update_of_ne hm ..)
    | worker m | uploader m | replayer m | reconciler m => exact Or.inl rfl
  | crash who =>
    cases h
    cases who with
    | request m =>
      by_cases hm : n = m
      · subst hm
        exact Or.inr (Or.inr (Or.inr (Function.update_self ..)))
      · exact Or.inl (Function.update_of_ne hm ..)
    | worker m | uploader m | replayer m | reconciler m => exact Or.inl rfl
  | tick now =>
    simp only [step, Option.ite_none_right_eq_some] at h
    cases h.2
    exact Or.inl rfl
  | expire id =>
    cases h
    exact Or.inl rfl
  | worker m b | uploader m b | replayer m b | reconciler m b =>
    obtain ⟨p,_,rfl⟩ := Option.map_eq_some_iff.mp h
    exact Or.inl rfl
  | request m b =>
    obtain ⟨⟨r,q,out⟩,hp,rfl⟩ := Option.map_eq_some_iff.mp h
    by_cases hm : n = m
    · subst hm
      exact Or.inr (Or.inl ⟨b,q,out,rfl,by simp only [hp, Function.update_self]⟩)
    · exact Or.inl (Function.update_of_ne hm ..)

/-- One worker through a step of the system. -/
theorem step_worker (h : step rt settings s a = some t) (n : ℕ) : t.workers n = s.workers n ∨
    (∃ b q, a = .worker n b ∧ (s.workers n).step s.clock s.ledger s.queue b = some (t.workers n,q)) ∨
    t.workers n = (s.workers n).committed ∨ t.workers n = .idle := by
  cases a with
  | commit who =>
    obtain ⟨tx,reply,hc⟩ := step_commit h
    rw [hc.after]
    cases who with
    | worker m =>
      by_cases hm : n = m
      · subst hm
        exact Or.inr (Or.inr (Or.inl (Function.update_self ..)))
      · exact Or.inl (Function.update_of_ne hm ..)
    | request m | uploader m | replayer m | reconciler m => exact Or.inl rfl
  | crash who =>
    cases h
    cases who with
    | worker m =>
      by_cases hm : n = m
      · subst hm
        exact Or.inr (Or.inr (Or.inr (Function.update_self ..)))
      · exact Or.inl (Function.update_of_ne hm ..)
    | request m | uploader m | replayer m | reconciler m => exact Or.inl rfl
  | tick now =>
    simp only [step, Option.ite_none_right_eq_some] at h
    cases h.2
    exact Or.inl rfl
  | expire id =>
    cases h
    exact Or.inl rfl
  | request m b | uploader m b | replayer m b | reconciler m b =>
    obtain ⟨p,_,rfl⟩ := Option.map_eq_some_iff.mp h
    exact Or.inl rfl
  | worker m b =>
    obtain ⟨⟨w,q⟩,hp,rfl⟩ := Option.map_eq_some_iff.mp h
    by_cases hm : n = m
    · subst hm
      exact Or.inr (Or.inl ⟨b,q,rfl,by simp only [hp, Function.update_self]⟩)
    · exact Or.inl (Function.update_of_ne hm ..)

/-- One replay command through a step of the system. -/
theorem step_replayer (h : step rt settings s a = some t) (n : ℕ) : t.replayers n = s.replayers n ∨
    (∃ b q, a = .replayer n b ∧ (s.replayers n).step s.ledger s.queue b = some (t.replayers n,q)) ∨
    t.replayers n = .idle := by
  cases a with
  | commit who =>
    obtain ⟨tx,reply,hc⟩ := step_commit h
    rw [hc.after]
    cases who with
    | replayer m =>
      by_cases hm : n = m
      · subst hm
        exact Or.inr (Or.inr (Function.update_self ..))
      · exact Or.inl (Function.update_of_ne hm ..)
    | request m | worker m | uploader m | reconciler m => exact Or.inl rfl
  | crash who =>
    cases h
    cases who with
    | replayer m =>
      by_cases hm : n = m
      · subst hm
        exact Or.inr (Or.inr (Function.update_self ..))
      · exact Or.inl (Function.update_of_ne hm ..)
    | request m | worker m | uploader m | reconciler m => exact Or.inl rfl
  | tick now =>
    simp only [step, Option.ite_none_right_eq_some] at h
    cases h.2
    exact Or.inl rfl
  | expire id =>
    cases h
    exact Or.inl rfl
  | request m b | worker m b | uploader m b | reconciler m b =>
    obtain ⟨p,_,rfl⟩ := Option.map_eq_some_iff.mp h
    exact Or.inl rfl
  | replayer m b =>
    obtain ⟨⟨r,q⟩,hp,rfl⟩ := Option.map_eq_some_iff.mp h
    by_cases hm : n = m
    · subst hm
      exact Or.inr (Or.inl ⟨b,q,rfl,by simp only [hp, Function.update_self]⟩)
    · exact Or.inl (Function.update_of_ne hm ..)

/-- What a step does to the uploaders: nothing, or one of them crashes, commits or
takes a step of its own. -/
theorem step_uploaders (h : step rt settings s a = some t) :
    (t.uploaders = s.uploaders ∧ t.locks = s.locks) ∨
    (∃ n, a = .crash (.uploader n) ∧ t.uploaders = Function.update s.uploaders n Uploader.fresh ∧
      t.locks = s.unlock n) ∨
    (∃ n tx reply, a = .commit (.uploader n) ∧ Commits rt settings s t (.uploader n) tx reply ∧
      t.uploaders = Function.update s.uploaders n ((s.uploaders n).committed (settings n) reply) ∧
      t.locks = s.unlock n) ∨
    ∃ n b u sent, a = .uploader n b ∧
      (s.uploaders n).step (settings n) n s.clock s.ledger s.locks b = some (u,t.locks,sent) ∧
      t.uploaders = Function.update s.uploaders n u ∧ t.clock = s.clock ∧ t.ledger = s.ledger ∧
      t.sent = s.sent ++ sent.toList := by
  cases a with
  | commit who =>
    obtain ⟨tx,reply,hc⟩ := step_commit h
    have hafter := hc.after
    cases who with
    | uploader n =>
      refine Or.inr (Or.inr (Or.inl ⟨n,tx,reply,rfl,hc,?_,?_⟩)) <;> rw [hafter] <;> rfl
    | request n | worker n | replayer n | reconciler n =>
      rw [hafter]
      exact Or.inl ⟨rfl,rfl⟩
  | crash who =>
    cases h
    cases who with
    | uploader n => exact Or.inr (Or.inl ⟨n,rfl,rfl,rfl⟩)
    | request n | worker n | replayer n | reconciler n => exact Or.inl ⟨rfl,rfl⟩
  | tick now =>
    simp only [step, Option.ite_none_right_eq_some] at h
    cases h.2
    exact Or.inl ⟨rfl,rfl⟩
  | expire id =>
    cases h
    exact Or.inl ⟨rfl,rfl⟩
  | request n a | worker n a | replayer n a | reconciler n a =>
    obtain ⟨p,_,rfl⟩ := Option.map_eq_some_iff.mp h
    exact Or.inl ⟨rfl,rfl⟩
  | uploader n b =>
    obtain ⟨⟨u,locks,sent⟩,hp,rfl⟩ := Option.map_eq_some_iff.mp h
    exact Or.inr (Or.inr (Or.inr ⟨n,b,u,sent,rfl,hp,rfl,rfl,rfl,rfl⟩))

/-- One uploader through a step of the system. -/
theorem step_uploader (h : step rt settings s a = some t) (n : ℕ) : t.uploaders n = s.uploaders n ∨
    (∃ b sent, a = .uploader n b ∧
      (s.uploaders n).step (settings n) n s.clock s.ledger s.locks b = some (t.uploaders n,t.locks,sent)) ∨
    (∃ tx reply, Commits rt settings s t (.uploader n) tx reply ∧
      t.uploaders n = (s.uploaders n).committed (settings n) reply) ∨
    t.uploaders n = Uploader.fresh := by
  rcases step_uploaders h with ⟨heq,_⟩ | ⟨m,_,heq,_⟩ | ⟨m,tx,reply,_,hc,heq,_⟩ | ⟨m,b,u,sent,ha,hp,heq,_⟩
  · exact Or.inl (congrFun heq n)
  all_goals
    by_cases hm : n = m
    · subst hm
      have hself := (congrFun heq n).trans (Function.update_self ..)
      first
        | exact Or.inr (Or.inr (Or.inr hself))
        | exact Or.inr (Or.inr (Or.inl ⟨tx,reply,hc,hself⟩))
        | exact Or.inr (Or.inl ⟨b,sent,ha,by rw [hp, hself]⟩)
    · exact Or.inl ((congrFun heq n).trans (Function.update_of_ne hm ..))

end Step

/-- One event from its delivery to its upload. -/
def uploadOnce : List Action :=
  [.request 0 (.deliver .hubspot (clickBody 1704067200000) .zero), .commit (.request 0),
    .request 0 .publish, .worker 0 (.receive 0), .worker 0 .read, .commit (.worker 0),
    .uploader 0 .begin, .uploader 0 (.select ["hubspot:1"]), .commit (.uploader 0), .uploader 0 .send,
    .uploader 0 (.finish (.result [⟨0,true,none,none⟩])), .uploader 0 .load, .commit (.uploader 0)]

/-- A delivery through the worker. -/
def processBody (body : ByteArray) (n : ℕ) : List Action :=
  [.request n (.deliver .hubspot body .zero), .commit (.request n), .request n .publish, .worker 0 (.receive n),
    .worker 0 .read, .commit (.worker 0), .worker 0 .ack]

end System
end ConversionGateway
