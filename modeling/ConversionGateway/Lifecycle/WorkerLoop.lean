import ConversionGateway.Library.RoundRobin
import ConversionGateway.Lifecycle.Deliveries

/-! # The worker loop

`run` over the in-process queue, beside publishers and the transactions of others. It
serves the queue in rounds: a message that fails goes to the end and holds up nobody.
-/
namespace ConversionGateway

/-- A message and the number of its attempt, as they wait in the queue. -/
def Delivery.entry (d : Delivery) : QueueMessage × ℕ := (d.message,d.attempt)

structure WorkerLoop where
  state : WorkerState
  /-- A call of `receive` is under way. -/
  waiting : Bool
  /-- What the last `receive` returned and is not handled yet. -/
  pending : List Delivery
  stopping : Bool
  received : List Delivery
  outcomes : List (Delivery × Option ProcessOutcome)

inductive LoopAction
  | publish (message : QueueMessage)
  /-- The ledger after a transaction of another process. -/
  | commit (ledger : Ledger)
  /-- `stop.is_set()`, and into the body of the loop. -/
  | check
  /-- The call of `receive` returns, with nothing if it has timed out. -/
  | receive
  | handle (now : Time) (raises : Bool) (drawn : ℕ)
  | stop

def LoopAction.isReceive : LoopAction → Bool
  | receive => true
  | _ => false

namespace WorkerLoop
variable (rt : Runtime) (batchSize : ℕ)

def start (db : Ledger) : WorkerLoop := ⟨⟨db,.empty⟩,false,[],false,[],[]⟩

/-- The stop event is looked at before each `receive`, and not while it waits. -/
def step (l : WorkerLoop) : LoopAction → Option WorkerLoop
  | .publish message => some { l with state := ⟨l.state.ledger,l.state.queue.publish message⟩ }
  | .commit ledger => some { l with state := ⟨ledger,l.state.queue⟩ }
  | .check => if l.pending.isEmpty && !l.waiting && !l.stopping then some { l with waiting := true } else none
  | .receive =>
    if l.waiting then
      let deliveries := (l.state.queue.receive batchSize).1
      some { l with state := ⟨l.state.ledger,(l.state.queue.receive batchSize).2⟩, waiting := false
                    pending := deliveries, received := l.received ++ deliveries }
    else none
  | .handle now raises drawn =>
    match l.pending with
    | [] => none
    | d :: rest =>
      let result := handleDelivery rt l.state ⟨d,now,raises,drawn⟩
      some { l with state := result.1, pending := rest, outcomes := l.outcomes ++ [(d,result.2)] }
  | .stop => some { l with stopping := true }

abbrev run : WorkerLoop → List LoopAction → Option WorkerLoop := Machine.run (step rt batchSize)

/-- What the action is in the rounds of the queue. -/
def roundOp (l : WorkerLoop) : LoopAction → Option (Rounds.Op (QueueMessage × ℕ))
  | .publish message => some (.join (message,1))
  | .receive => some .call
  | .handle now raises drawn => l.pending.head?.map fun d =>
    .serve (match (handleDelivery rt l.state ⟨d,now,raises,drawn⟩).2 with
      | none => some (d.message,d.attempt + 1)
      | some _ => none)
  | .commit _ | .check | .stop => none

def rounds (l : WorkerLoop) : Rounds (QueueMessage × ℕ) :=
  ⟨l.received.map Delivery.entry,l.pending.map Delivery.entry,l.state.queue.ready⟩

/-- In flight is what is pending; the rest of what was received was handled in its order. -/
structure Tidy (l : WorkerLoop) : Prop where
  inflight : l.state.queue.inflight = l.pending
  idle : l.waiting = true → l.pending = []
  handled : l.received = l.outcomes.map Prod.fst ++ l.pending

section Steps
variable {rt : Runtime} {batchSize : ℕ} {l t : WorkerLoop} {a : LoopAction}

theorem handOut_entry (issued : ℕ) (waiting : List (QueueMessage × ℕ)) :
    (MemoryQueue.handOut issued waiting).map Delivery.entry = waiting := by
  induction waiting generalizing issued with
  | nil => rfl
  | cons w rest ih => rw [MemoryQueue.handOut, List.map_cons, ih]; rfl

/-- The handle of a delivery settles that delivery and no other. -/
theorem settle_head {q : MemoryQueue} {d : Delivery} {rest : List Delivery} (h : q.inflight = d :: rest) :
    (q.settle d).inflight = rest := by
  have hunique := q.unique
  rw [h, List.map_cons, List.nodup_cons] at hunique
  have hrest : rest.filter (fun x => x.ackId ≠ d.ackId) = rest :=
    List.filter_eq_self.mpr fun x hx => by
      have hne : x.ackId ≠ d.ackId := fun heq => hunique.1 (heq ▸ List.mem_map_of_mem hx)
      simpa using hne
  simp only [MemoryQueue.settle, h]
  rw [List.filter_cons_of_neg (by simp), hrest]

/-- What one call of `handle_delivery` does to the queue. -/
theorem handleDelivery_queue (rt : Runtime) {s : WorkerState} {d : Delivery} {rest : List Delivery}
    (h : s.queue.inflight = d :: rest) (now : Time) (raises : Bool) (drawn : ℕ) :
    let result := handleDelivery rt s ⟨d,now,raises,drawn⟩
    result.1.queue.inflight = rest ∧ result.1.queue.ready = s.queue.ready ++
      (match result.2 with
        | none => some (d.message,d.attempt + 1)
        | some _ => none).toList := by
  have hd : d ∈ s.queue.inflight := by simp [h]
  rcases handleDelivery_cases rt s ⟨d,now,raises,drawn⟩ with heq | ⟨outcome,heq,_⟩
  · rw [heq]
    obtain ⟨hready,hinflight⟩ := MemoryQueue.nack_inflight hd
    exact ⟨hinflight.trans (settle_head h),hready⟩
  · rw [heq]
    exact ⟨settle_head h,(List.append_nil _).symm⟩

theorem step_tidy (hl : l.Tidy) (h : step rt batchSize l a = some t) : t.Tidy := by
  cases a with
  | publish message | commit ledger | stop =>
    cases h
    exact ⟨hl.inflight,hl.idle,hl.handled⟩
  | check =>
    simp only [step, Option.ite_none_right_eq_some, Bool.and_eq_true, List.isEmpty_iff] at h
    obtain ⟨⟨⟨hpending,_⟩,_⟩,h⟩ := h
    cases h
    exact ⟨hl.inflight,fun _ => hpending,hl.handled⟩
  | receive =>
    simp only [step, Option.ite_none_right_eq_some] at h
    obtain ⟨hwaiting,h⟩ := h
    cases h
    have hpending := hl.idle hwaiting
    refine ⟨?_,fun hw => (by cases hw),?_⟩
    · simp only [MemoryQueue.receive, hl.inflight, hpending, List.nil_append]
    · rw [hl.handled, hpending, List.append_nil]
  | handle now raises drawn =>
    simp only [step] at h
    split at h
    · cases h
    · next d rest hpending =>
      cases h
      refine ⟨(handleDelivery_queue rt (hl.inflight.trans hpending) now raises drawn).1,fun hw => ?_,?_⟩
      · rw [hl.idle hw] at hpending
        cases hpending
      · simp [hl.handled,hpending]

/-- Every step is a step of the rounds, or leaves them as they are. -/
theorem step_rounds (hl : l.Tidy) (h : step rt batchSize l a = some t) :
    Rounds.run batchSize l.rounds (l.roundOp rt a).toList = some t.rounds := by
  cases a with
  | publish message | commit ledger | stop =>
    cases h
    rfl
  | check =>
    simp only [step, Option.ite_none_right_eq_some] at h
    cases h.2
    rfl
  | receive =>
    simp only [step, Option.ite_none_right_eq_some] at h
    obtain ⟨hwaiting,h⟩ := h
    cases h
    have hpending := hl.idle hwaiting
    have hentries : (l.state.queue.receive batchSize).1.map Delivery.entry = l.state.queue.ready.take batchSize :=
      handOut_entry _ _
    simp only [roundOp, Option.toList_some, Rounds.run, Machine.run, Rounds.step, rounds, hpending, List.map_nil,
      List.isEmpty_nil, if_true, Option.bind_some, List.map_append, hentries]
    rfl
  | handle now raises drawn =>
    simp only [step] at h
    split at h
    · cases h
    · next d rest hpending =>
      cases h
      have hready := (handleDelivery_queue rt (hl.inflight.trans hpending) now raises drawn).2
      simp only [roundOp, hpending, List.head?_cons, Option.map_some, Option.toList_some, Rounds.run, Machine.run,
        Rounds.step, rounds, List.map_cons, Option.bind_some]
      rw [hready]

theorem start_tidy (db : Ledger) : (start db).Tidy := ⟨rfl,fun _ => rfl,rfl⟩

theorem step_calls (l : WorkerLoop) (a : LoopAction) :
    (l.roundOp rt a).toList.countP Rounds.Op.isCall = if a.isReceive then 1 else 0 := by
  cases a with
  | handle now raises drawn => cases hp : l.pending <;> simp [roundOp,hp,LoopAction.isReceive,Rounds.Op.isCall]
  | publish | commit | check | receive | stop => rfl

/-- A run of the worker is a run of the rounds, with a call for each `receive`. -/
theorem run_rounds {actions : List LoopAction} (hl : l.Tidy) (h : run rt batchSize l actions = some t) :
    t.Tidy ∧ ∃ ops, Rounds.run batchSize l.rounds ops = some t.rounds ∧
      ops.countP Rounds.Op.isCall = actions.countP LoopAction.isReceive ∧
      ops.flatMap Rounds.Op.joined =
        Machine.outputs (step rt batchSize) (fun l a => (l.roundOp rt a).toList.flatMap Rounds.Op.joined) l actions := by
  induction actions generalizing l with
  | nil =>
    cases h
    exact ⟨hl,[],rfl,rfl,rfl⟩
  | cons a rest ih =>
    obtain ⟨m,hm,hrest⟩ := Machine.run_cons.mp h
    obtain ⟨ht,ops,hops,hcalls,hjoined⟩ := ih (step_tidy hl hm) hrest
    refine ⟨ht,(l.roundOp rt a).toList ++ ops,Machine.run_append.mpr ⟨_,step_rounds hl hm,hops⟩,?_,?_⟩
    · rw [List.countP_append, hcalls, step_calls, List.countP_cons, Nat.add_comm]
    · rw [List.flatMap_append, hjoined, Machine.outputs_cons rest hm]

/-- Only a `receive` that returns adds to what was received; once a stop is asked for, it is
one that was under way before. -/
theorem step_receive (h : step rt batchSize l a = some t) :
    (a.isReceive = false → t.received = l.received) ∧
      (l.stopping = true → t.stopping = true ∧ (if a.isReceive then 1 else 0) + t.waiting.toNat = l.waiting.toNat) := by
  cases a with
  | publish message | commit ledger | stop =>
    cases h
    exact ⟨fun _ => rfl,fun hl => ⟨by simp [hl],Nat.zero_add _⟩⟩
  | check =>
    simp only [step, Option.ite_none_right_eq_some] at h
    obtain ⟨hguard,h⟩ := h
    cases h
    exact ⟨fun _ => rfl,fun hl => by simp [hl] at hguard⟩
  | receive =>
    simp only [step, Option.ite_none_right_eq_some] at h
    obtain ⟨hwaiting,h⟩ := h
    cases h
    exact ⟨fun hno => (by cases hno),fun hl => ⟨hl,by rw [hwaiting]; rfl⟩⟩
  | handle now raises drawn =>
    simp only [step] at h
    split at h
    · cases h
    · cases h
      exact ⟨fun _ => rfl,fun hl => ⟨hl,Nat.zero_add _⟩⟩

/-- Once a stop is asked for, no `receive` is called any more: the one under way, if there
is one, returns at most. -/
theorem run_stopping {actions : List LoopAction} (hl : l.stopping = true) (h : run rt batchSize l actions = some t) :
    actions.countP LoopAction.isReceive + t.waiting.toNat = l.waiting.toNat := by
  induction actions generalizing l with
  | nil =>
    cases h
    exact Nat.zero_add _
  | cons a rest ih =>
    obtain ⟨m,hm,hrest⟩ := Machine.run_cons.mp h
    obtain ⟨hstop,hone⟩ := (step_receive hm).2 hl
    have hlater := ih hstop hrest
    rw [List.countP_cons]
    omega

theorem run_received {actions : List LoopAction} (hno : actions.countP LoopAction.isReceive = 0)
    (h : run rt batchSize l actions = some t) : t.received = l.received := by
  induction actions generalizing l with
  | nil =>
    cases h
    rfl
  | cons a rest ih =>
    obtain ⟨m,hm,hrest⟩ := Machine.run_cons.mp h
    rw [List.countP_cons, Nat.add_eq_zero_iff] at hno
    rw [ih hno.1 hrest]
    exact (step_receive hm).1 (by simpa using hno.2)

/-- In every run of the worker over the in-process queue, beside any publishers and any
transactions of others, and whichever calls fail: what was received and what waits make up
one list that grows at its end, by the messages that are published and those that fail,
one attempt on; who has fewer than `batchSize * n` messages before it is received in one
of the next `n` rounds; what is in flight is what the worker is at; and after a stop at
most the `receive` that is under way returns, and nothing is received but by it. -/
theorem run_serves (rt : Runtime) (batchSize : ℕ) (db : Ledger) (earlier later : List LoopAction) (l t : WorkerLoop)
    (h : run rt batchSize (start db) earlier = some l) (hlater : run rt batchSize l later = some t) :
    t.received.map Delivery.entry ++ t.state.queue.ready =
      l.received.map Delivery.entry ++ l.state.queue.ready ++
        Machine.outputs (step rt batchSize) (fun l a => (l.roundOp rt a).toList.flatMap Rounds.Op.joined) l later ∧
    (∀ p w, l.state.queue.ready[p]? = some w → p < batchSize * later.countP LoopAction.isReceive →
      ∃ d, t.received[l.received.length + p]? = some d ∧ d.entry = w) ∧
    t.state.queue.inflight = t.pending ∧ t.received = t.outcomes.map Prod.fst ++ t.pending ∧
    (l.stopping = true → later.countP LoopAction.isReceive ≤ l.waiting.toNat ∧
      (later.countP LoopAction.isReceive = 0 → t.received = l.received)) := by
  have hl : l.Tidy := (run_rounds (start_tidy db) h).1
  obtain ⟨ht,ops,hops,hcalls,hjoined⟩ := run_rounds hl hlater
  refine ⟨hjoined ▸ Rounds.run_order hops,fun p w hw hp => ?_,ht.inflight,ht.handled,
    fun hs => ⟨?_,fun hno => run_received hno hlater⟩⟩
  · have hturn := Rounds.run_turn hops hw (hcalls ▸ hp)
    simpa [rounds] using hturn
  · have hstop := run_stopping hs hlater
    omega

/-- A message that fails at each attempt, and one behind it; the stop is asked for while
the worker waits for the second. -/
def poisonFirst : List LoopAction :=
  [.publish ⟨"hubspot:1",.blank,0,none⟩, .publish ⟨"hubspot:2",.blank,0,none⟩, .check, .receive, .handle 0 true 0,
    .check, .stop, .receive, .handle 0 false 0]

/-- The theorem at this run, after its two publications and after the stop. -/
theorem run_serves_poisonFirst : ∃ (l m t : WorkerLoop) (d : Delivery),
    run (clickRuntime 0) 1 (start Ledger.empty) (poisonFirst.take 2) = some l ∧
    run (clickRuntime 0) 1 l (poisonFirst.drop 2) = some t ∧
    t.received[1]? = some d ∧ d.entry = (⟨"hubspot:2",.blank,0,none⟩,1) ∧ t.state.queue.inflight = t.pending ∧
    run (clickRuntime 0) 1 (start Ledger.empty) (poisonFirst.take 7) = some m ∧ m.stopping = true ∧
    (poisonFirst.drop 7).countP LoopAction.isReceive ≤ m.waiting.toNat := by
  have h : ((run (clickRuntime 0) 1 (start Ledger.empty) (poisonFirst.take 2)).bind fun l =>
      (run (clickRuntime 0) 1 l (poisonFirst.drop 2)).map fun _ =>
        (l.state.queue.ready,l.received.length)) =
      some ([(⟨"hubspot:1",.blank,0,none⟩,1),(⟨"hubspot:2",.blank,0,none⟩,1)],0) := by decide +kernel
  have hstop : ((run (clickRuntime 0) 1 (start Ledger.empty) (poisonFirst.take 7)).bind fun m =>
      (run (clickRuntime 0) 1 m (poisonFirst.drop 7)).map fun _ => m.stopping) = some true := by decide +kernel
  obtain ⟨l,hl,h⟩ := Option.bind_eq_some_iff.mp h
  obtain ⟨t,ht,h⟩ := Option.map_eq_some_iff.mp h
  obtain ⟨hready,hnone⟩ := Prod.mk.inj h
  obtain ⟨_,hturn,hinflight,_⟩ := run_serves _ 1 _ _ _ l t hl ht
  obtain ⟨d,hd,hentry⟩ := hturn 1 (⟨"hubspot:2",.blank,0,none⟩,1) (by rw [hready]; rfl) (by decide)
  rw [hnone] at hd
  obtain ⟨m,hm,hstop⟩ := Option.bind_eq_some_iff.mp hstop
  obtain ⟨u,hu,hstop⟩ := Option.map_eq_some_iff.mp hstop
  obtain ⟨_,_,_,_,hlast⟩ := run_serves _ 1 _ _ _ m u hm hu
  exact ⟨l,m,t,d,hl,ht,hd,hentry,hinflight,hm,hstop,(hlast hstop).1⟩

end Steps
end WorkerLoop
end ConversionGateway
