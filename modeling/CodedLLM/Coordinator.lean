import CodedLLM.Codec
import CodedLLM.Policy
/-!
# Coordinator — the critical sections of `RecoveryCoordinator`

Each locked section of the source is a function on one `RequestState`; what it asks of foreign code while it holds the
lock (the executor's `StageShard` and `EstimateRecoveryCost`, the wait-cost oracle, the clock) is an argument, so that
every behaviour of that code is covered.  A section that throws keeps the updates it made before the throw.  `step` lets
any number of `OnShardArrived` calls stand between their sections at once: a call is a handler thread and `HandlerPhase`
is what it does next.
-/
namespace CodedLLM

structure RecoveryExecutionMetrics where
  planning : Int
  queueWait : Int
  h2d : Int
  kernel : Int
  d2h : Int
  handoff : Int
  total : Int
  deriving DecidableEq, Repr

def RecoveryExecutionMetrics.zero : RecoveryExecutionMetrics := ⟨0, 0, 0, 0, 0, 0, 0⟩

structure RecoveryTaskResult where
  success : Bool
  shards : ShardSlots
  metrics : RecoveryExecutionMetrics
  error : String
  deriving DecidableEq, Repr

inductive RequestStatus where
  | pending
  | naturalComplete
  | recovered
  | failed
  deriving DecidableEq, Repr

def isTerminal (status : RequestStatus) : Bool := status ≠ .pending

structure RequestSnapshot where
  status : RequestStatus
  recoverySubmitted : Bool
  recoveryRejected : Bool
  lateArrivals : Nat
  metrics : RecoveryExecutionMetrics
  error : String
  deriving DecidableEq, Repr

/-- The wait-cost oracle is not stored: what it answers is part of `ArrivalEnv`. -/
structure RequestState where
  tracker : ShardArrivalTracker
  shards : ShardSlots
  snapshot : RequestSnapshot
  wordCount : Nat
  recoveryClosed : Bool
  deriving DecidableEq, Repr

def RequestState.make (systematicShardCount parityShardCount : Nat) : Except Exn RequestState :=
  match ShardArrivalTracker.make systematicShardCount parityShardCount with
  | .error e => .error e
  | .ok tracker => .ok ⟨tracker, List.replicate (systematicShardCount + parityShardCount) none,
      ⟨.pending, false, false, 0, .zero, ""⟩, 0, false⟩

structure ArrivalEnv where
  /-- the exception `StageShard` ends with, if any -/
  staged : Option Exn
  /-- the measured planning time -/
  planning : Int
  estimate : Option Int
  waitCost : Except Exn Int

inductive NextStep where
  | done
  | cancel
  | submit (plan : DecodePlan) (taskShards : ShardSlots)
  deriving DecidableEq, Repr

/-- The planning branch of the locked section. -/
def decideRecovery (g : BipartiteGraph) (st : RequestState) (env : ArrivalEnv) : RequestState × Except Exn NextStep :=
  match availableParity st.tracker g.parityToSystematic with
  | .error e => (st, .error e)
  | .ok available =>
    match createPlan g st.tracker.getMissingSystematic available with
    | .error e => (st, .error e)
    | .ok plan =>
      let st := { st with snapshot := { st.snapshot with metrics :=
        { st.snapshot.metrics with planning := st.snapshot.metrics.planning + env.planning } } }
      if plan.isRecoverable = false then (st, .ok .done)
      else
        match env.estimate with
        | none =>
          ({ st with snapshot := { st.snapshot with recoveryRejected := true }, recoveryClosed := true }, .ok .done)
        | some estimatedCost =>
          match env.waitCost with
          | .error e => (st, .error e)
          | .ok waitCost =>
            match RecoveryPolicy.evaluate g st.tracker ⟨waitCost, estimatedCost⟩ with
            | .error e => (st, .error e)
            | .ok .recover =>
              ({ st with snapshot := { st.snapshot with recoverySubmitted := true } }, .ok (.submit plan st.shards))
            | .ok _ => (st, .ok .done)

def onShardArrived (g : BipartiteGraph) (st : RequestState) (shardId : Nat) (payload : WordShard) (arrivalTime : Int)
    (env : ArrivalEnv) : RequestState × Except Exn NextStep :=
  if isTerminal st.snapshot.status then
    ({ st with snapshot := { st.snapshot with lateArrivals := st.snapshot.lateArrivals + 1 } }, .ok .done)
  else if st.shards.length ≤ shardId then (st, .error (.invalidArgument "Arrival shard ID is out of bounds"))
  else if payload = [] then (st, .error (.invalidArgument "Arrived shards must not be empty"))
  else if st.wordCount ≠ 0 ∧ st.wordCount ≠ payload.length then
    (st, .error (.invalidArgument "Arrived shards must have equal sizes"))
  else
    let st := { st with wordCount := payload.length }
    if (slotAt st.shards shardId).isSome then (st, .ok .done)
    else
      match env.staged with
      | some e => (st, .error e)
      | none =>
        let st := { st with shards := st.shards.set shardId (some payload) }
        match st.tracker.markArrived shardId arrivalTime with
        | .error e => (st, .error e)
        | .ok tracker =>
          let st := { st with tracker := tracker }
          if st.tracker.isSystematicComplete then
            ({ st with snapshot := { st.snapshot with status := .naturalComplete } }, .ok .cancel)
          else if st.recoveryClosed = false ∧ st.snapshot.recoverySubmitted = false then decideRecovery g st env
          else (st, .ok .done)

/-- The section after a refused `Submit`. -/
def onSubmitRefused (st : RequestState) : RequestState :=
  if isTerminal st.snapshot.status then st
  else { st with
    snapshot := { st.snapshot with recoverySubmitted := false, recoveryRejected := true }, recoveryClosed := true }

def onRecoveryComplete (st : RequestState) (result : RecoveryTaskResult) : RequestState :=
  if isTerminal st.snapshot.status then st
  else
    let metrics : RecoveryExecutionMetrics :=
      { planning := st.snapshot.metrics.planning, queueWait := result.metrics.queueWait, h2d := result.metrics.h2d,
        kernel := result.metrics.kernel, d2h := result.metrics.d2h, handoff := result.metrics.handoff,
        total := st.snapshot.metrics.planning + result.metrics.total }
    if result.success = false then
      { st with snapshot := { st.snapshot with metrics := metrics, status := .failed, error := result.error } }
    else { st with shards := result.shards, snapshot := { st.snapshot with metrics := metrics, status := .recovered } }

/-! ## The system -/

/-- Where one `OnShardArrived` call stands between its sections. -/
inductive HandlerPhase where
  | idle
  | cancelling (request : Nat)
  | submitting (request : Nat) (plan : DecodePlan) (taskShards : ShardSlots)
  | accepted (request : Nat)
  | refused (request : Nat)

inductive SubmitAnswer where
  | accepts
  | refuses
  | throws (exn : Exn)

/-- `submits` records the arguments of every call of `Submit`, the latest first. -/
structure Coordinator where
  transport : Bool
  requests : Nat → Option RequestState
  handlers : Nat → HandlerPhase
  submits : List (Nat × DecodePlan × ShardSlots)

def Coordinator.init : Coordinator := ⟨false, fun _ => none, fun _ => .idle, []⟩

def Coordinator.setRequest (c : Coordinator) (request : Nat) (st : RequestState) : Coordinator :=
  { c with requests := Function.update c.requests request (some st) }

def Coordinator.setHandler (c : Coordinator) (thread : Nat) (phase : HandlerPhase) : Coordinator :=
  { c with handlers := Function.update c.handlers thread phase }

/-- `StartRequest`; `transportAnswer` is what the transport's `StartRequest` throws after the request is in the
table. -/
def Coordinator.startRequest (g : BipartiteGraph) (c : Coordinator) (request : Nat) (oracle : Bool)
    (transportAnswer : Option Exn) : Outcome Coordinator :=
  if oracle = false then .throws c (.invalidArgument "Request requires a wait-cost oracle")
  else if c.transport = false then .throws c (.logicError "No shard transport is attached")
  else
    match RequestState.make g.systematicShardCount g.parityShardCount with
    | .error e => .throws c e
    | .ok st =>
      if (c.requests request).isSome then .throws c (.invalidArgument "Request ID is already active")
      else
        match transportAnswer with
        | some e => .throws (c.setRequest request st) e
        | none => .returns (c.setRequest request st)

/-- The handler's next phase after its locked section; an exception ends the call. -/
def nextPhase (request : Nat) : Except Exn NextStep → HandlerPhase
  | .error _ => .idle
  | .ok .done => .idle
  | .ok .cancel => .cancelling request
  | .ok (.submit plan taskShards) => .submitting request plan taskShards

inductive Action where
  | attachTransport
  | startRequest (request : Nat) (oracle : Bool) (transportAnswer : Option Exn)
  | arrive (thread request shardId : Nat) (payload : WordShard) (arrivalTime : Int) (env : ArrivalEnv)
  | cancel (thread : Nat)
  | submit (thread : Nat) (answer : SubmitAnswer)
  | recheck (thread : Nat)
  | rollback (thread : Nat)
  | complete (request : Nat) (result : RecoveryTaskResult)

/-- One critical section, or one unlocked call of the executor, of one thread. -/
def step (g : BipartiteGraph) (c : Coordinator) : Action → Option Coordinator
  | .attachTransport => some { c with transport := true }
  | .startRequest request oracle transportAnswer => some (c.startRequest g request oracle transportAnswer).state
  | .arrive thread request shardId payload arrivalTime env =>
    match c.handlers thread, c.requests request with
    | .idle, none => some c -- throws "Arrival references an unknown request"
    | .idle, some st =>
      let r := onShardArrived g st shardId payload arrivalTime env
      some ((c.setRequest request r.1).setHandler thread (nextPhase request r.2))
    | _, _ => none
  | .cancel thread =>
    match c.handlers thread with
    | .cancelling _ => some (c.setHandler thread .idle)
    | _ => none
  | .submit thread answer =>
    match c.handlers thread with
    | .submitting request plan taskShards =>
      let c := { c with submits := (request, plan, taskShards) :: c.submits }
      match answer with
      | .accepts => some (c.setHandler thread (.accepted request))
      | .refuses => some (c.setHandler thread (.refused request))
      | .throws _ => some (c.setHandler thread .idle)
    | _ => none
  | .recheck thread =>
    match c.handlers thread with
    | .accepted request =>
      match c.requests request with
      | some st =>
        some (c.setHandler thread (if st.snapshot.status = .naturalComplete then .cancelling request else .idle))
      | none => none
    | _ => none
  | .rollback thread =>
    match c.handlers thread with
    | .refused request =>
      match c.requests request with
      | some st => some ((c.setRequest request (onSubmitRefused st)).setHandler thread .idle)
      | none => none
    | _ => none
  | .complete request result =>
    match c.requests request with
    | some st => some (c.setRequest request (onRecoveryComplete st result))
    | none => some c

def Coordinator.getShard (c : Coordinator) (request shardId : Nat) : Except Exn (Option WordShard) :=
  match c.requests request with
  | none => .error (.invalidArgument "Unknown request or shard ID")
  | some st =>
    if st.shards.length ≤ shardId then .error (.invalidArgument "Unknown request or shard ID")
    else .ok (slotAt st.shards shardId)

end CodedLLM
