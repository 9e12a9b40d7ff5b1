import CodedLLM.RecoveryQueue
import CodedLLM.RequestSimulation
/-!
# ClusterSimulator — many requests, one queue of decoders

`ClusterSimulator::Run` as the source computes it.  The events are sorted by time, request and shard; each instant
advances the queue once, and then every request with arrivals at that instant gets one turn: its shards are marked,
and unless it is complete or has a recovery already, the policy compares the queue's quote with the expected wait.
The queue and the trackers are members of the simulator: a run that throws leaves what it has done to them.
-/
namespace CodedLLM

structure GlobalArrivalEvent where
  arrivalTime : Int
  requestId : Nat
  shardId : Nat
  requestStartTime : Int
  deriving DecidableEq, Repr

structure RequestMetrics where
  latency : Int
  recoveryWon : Bool
  recoveryAdmitted : Bool
  recoveryRejected : Bool
  recoveryWaited : Bool
  recoveryUnrecoverable : Bool
  deriving DecidableEq, Repr

abbrev MetricsMap := List (Nat × RequestMetrics)

/-- The comparison of the sort, on the keys `(arrival_time, request_id, shard_id)`. -/
def GlobalArrivalEvent.Before (a b : GlobalArrivalEvent) : Prop :=
  a.arrivalTime < b.arrivalTime ∨ a.arrivalTime = b.arrivalTime ∧
    (a.requestId < b.requestId ∨ a.requestId = b.requestId ∧ a.shardId ≤ b.shardId)

instance : DecidableRel GlobalArrivalEvent.Before := fun _ _ => inferInstanceAs (Decidable (_ ∨ _))

/-- `std::sort`: the same events, in order; how it orders events with equal keys is its own affair. -/
structure EventSort where
  sort : List GlobalArrivalEvent → List GlobalArrivalEvent
  perm : ∀ events, (sort events).Perm events
  sorted : ∀ events, (sort events).Pairwise GlobalArrivalEvent.Before

/-- `std::map::emplace` and `try_emplace`: a present key keeps its value. -/
def tryEmplace {α : Type} (map : Nat → Option α) (key : Nat) (value : α) : Nat → Option α :=
  if (map key).isSome then map else Function.update map key (some value)

/-- What `std::map::at` throws. -/
def mapAt : Exn := .outOfRange "map::at"

abbrev WaitCostOracle := Nat → Int → Except Exn Int
abbrev RecoveryServiceTimeEstimator := DecodePlan → Except Exn Int

structure ClusterSimulator where
  graph : BipartiteGraph
  recoveryQueue : RecoveryQueue
  trackers : Nat → Option ShardArrivalTracker
  estimateRecoveryServiceTime : RecoveryServiceTimeEstimator

/-- The constructor; that of the policy plans once, and an empty `std::function` is refused. -/
def ClusterSimulator.make (graph : BipartiteGraph) (recoveryQueue : RecoveryQueue)
    (estimator : Option RecoveryServiceTimeEstimator) : Except Exn ClusterSimulator :=
  match createPlanAll graph ∅ with
  | .error e => .error e
  | .ok _ =>
    match estimator with
    | none => .error (.invalidArgument "ClusterSimulator requires a recovery-cost estimator")
    | some estimate => .ok ⟨graph, recoveryQueue, fun _ => none, estimate⟩

structure ClusterRun where
  recoveryQueue : RecoveryQueue
  trackers : Nat → Option ShardArrivalTracker
  naturalCompletionTimes : Nat → Option Int
  recoveryCompletionTimes : Nat → Option Int
  recoveryRejected : Nat → Bool
  recoveryWaited : Nat → Bool
  recoveryUnrecoverable : Nat → Bool

namespace ClusterRun

def setTracker (s : ClusterRun) (request : Nat) (tracker : ShardArrivalTracker) : ClusterRun :=
  { s with trackers := Function.update s.trackers request (some tracker) }

def setNatural (s : ClusterRun) (request : Nat) (now : Int) : ClusterRun :=
  { s with naturalCompletionTimes := tryEmplace s.naturalCompletionTimes request now }

def setRejected (s : ClusterRun) (request : Nat) : ClusterRun :=
  { s with recoveryRejected := Function.update s.recoveryRejected request true }

def setWaited (s : ClusterRun) (request : Nat) : ClusterRun :=
  { s with recoveryWaited := Function.update s.recoveryWaited request true }

def setUnrecoverable (s : ClusterRun) (request : Nat) : ClusterRun :=
  { s with recoveryUnrecoverable := Function.update s.recoveryUnrecoverable request true }

def setRecovery (s : ClusterRun) (queue : RecoveryQueue) (request : Nat) (completion : Int) : ClusterRun :=
  { s with
    recoveryQueue := queue
    recoveryCompletionTimes := tryEmplace s.recoveryCompletionTimes request completion }

end ClusterRun

def collect (metrics : Nat → Except Exn RequestMetrics) : List Nat → Except Exn MetricsMap
  | [] => .ok []
  | request :: rest =>
    match metrics request with
    | .error e => .error e
    | .ok one =>
      match collect metrics rest with
      | .error e => .error e
      | .ok others => .ok ((request, one) :: others)

namespace ClusterSimulator

/-- The first loop: a tracker and a start time for every request. -/
def validateEvent (g : BipartiteGraph) (s : (Nat → Option ShardArrivalTracker) × (Nat → Option Int))
    (event : GlobalArrivalEvent) : Outcome ((Nat → Option ShardArrivalTracker) × (Nat → Option Int)) :=
  match (if (s.1 event.requestId).isSome then .ok s.1 else
      match ShardArrivalTracker.make g.systematicShardCount g.parityShardCount with
      | .error e => .error e
      | .ok tracker => .ok (Function.update s.1 event.requestId (some tracker)) :
      Except Exn (Nat → Option ShardArrivalTracker)) with
  | .error e => .throws s e
  | .ok trackers =>
    let starts := tryEmplace s.2 event.requestId event.requestStartTime
    if starts event.requestId ≠ some event.requestStartTime then
      .throws (trackers, starts) (.invalidArgument "Events for one request must share a request start time")
    else if event.arrivalTime < event.requestStartTime then
      .throws (trackers, starts) (.invalidArgument "Shard arrival must not precede its request start")
    else .returns (trackers, starts)

/-- The rest of a turn, for a request that is incomplete and has no recovery. -/
def considerRecovery (g : BipartiteGraph) (estimate : RecoveryServiceTimeEstimator) (oracle : WaitCostOracle)
    (now : Int) (request : Nat) (tracker : ShardArrivalTracker) (s : ClusterRun) : Outcome ClusterRun :=
  match RecoveryPolicy.createPlan g tracker with
  | .error e => .throws s e
  | .ok plan =>
    if plan.isRecoverable = false then .returns (s.setUnrecoverable request)
    else
      match estimate plan with
      | .error e => .throws s e
      | .ok serviceTime =>
        match s.recoveryQueue.getExpectedRecoveryCost now serviceTime with
        | .error e => .throws s e
        | .ok none => .returns (s.setRejected request)
        | .ok (some recoveryCost) =>
          match oracle request now with
          | .error e => .throws s e
          | .ok waitCost =>
            if waitCost < 0 then .throws s (.invalidArgument "Expected wait cost must not be negative")
            else
              match RecoveryPolicy.evaluatePlan plan ⟨waitCost, recoveryCost⟩ with
              | .recover =>
                match s.recoveryQueue.submitJob now serviceTime with
                | .error e => .throws s e
                | .ok (queue, true) => .returns (s.setRecovery queue request (now + recoveryCost))
                | .ok (queue, false) => .returns ({ s with recoveryQueue := queue }.setRejected request)
              | .wait => .returns (s.setWaited request)
              | .unrecoverable => .returns (s.setUnrecoverable request)

def turn (g : BipartiteGraph) (estimate : RecoveryServiceTimeEstimator) (oracle : WaitCostOracle) (now : Int)
    (s : ClusterRun) (batch : Nat × List GlobalArrivalEvent) : Outcome ClusterRun :=
  match s.trackers batch.1 with
  | none => .throws s mapAt
  | some tracker =>
    match markAll now (batch.2.map GlobalArrivalEvent.shardId) tracker with
    | .throws tracker e => .throws (s.setTracker batch.1 tracker) e
    | .returns tracker =>
      if tracker.isSystematicComplete then .returns ((s.setTracker batch.1 tracker).setNatural batch.1 now)
      else if (s.recoveryCompletionTimes batch.1).isSome then .returns (s.setTracker batch.1 tracker)
      else considerRecovery g estimate oracle now batch.1 tracker (s.setTracker batch.1 tracker)

def instant (g : BipartiteGraph) (estimate : RecoveryServiceTimeEstimator) (oracle : WaitCostOracle) (s : ClusterRun)
    (batch : Int × List GlobalArrivalEvent) : Outcome ClusterRun :=
  if batch.1 < 0 then .throws s (.invalidArgument "Shard arrival times must not be negative")
  else
    match s.recoveryQueue.advanceTime batch.1 with
    | .error e => .throws s e
    | .ok queue =>
      loopInPlace (turn g estimate oracle batch.1) (Batches.group GlobalArrivalEvent.requestId batch.2)
        { s with recoveryQueue := queue }

def requestMetrics (s : ClusterRun) (starts : Nat → Option Int) (request : Nat) : Except Exn RequestMetrics :=
  match s.naturalCompletionTimes request with
  | none => .error (.runtimeError "Simulation requires a natural arrival for every systematic shard")
  | some natural =>
    match starts request with
    | none => .error mapAt
    | some start =>
      let metrics : RequestMetrics := ⟨natural - start, false, (s.recoveryCompletionTimes request).isSome,
        s.recoveryRejected request, s.recoveryWaited request, s.recoveryUnrecoverable request⟩
      match s.recoveryCompletionTimes request with
      | some recovery =>
        if recovery < natural then .ok { metrics with latency := recovery - start, recoveryWon := true }
        else .ok metrics
      | none => .ok metrics

/-- The last loop, over the keys of `trackers_`. -/
def collectMetrics (s : ClusterRun) (starts : Nat → Option Int) : List Nat → Except Exn MetricsMap :=
  collect (requestMetrics s starts)

def requestIds (events : List GlobalArrivalEvent) : List Nat := sortUnique (events.map GlobalArrivalEvent.requestId)

def run (sorter : EventSort) (sim : ClusterSimulator) (events : List GlobalArrivalEvent)
    (oracle : Option WaitCostOracle) : ClusterSimulator × Except Exn MetricsMap :=
  match oracle with
  | none => (sim, .error (.invalidArgument "ClusterSimulator requires a wait-cost oracle"))
  | some oracle =>
    match loopInPlace (validateEvent sim.graph) (sorter.sort events) (fun _ => none, fun _ => none) with
    | .throws s e => ({ sim with trackers := s.1 }, .error e)
    | .returns (trackers, starts) =>
      let s : ClusterRun := ⟨sim.recoveryQueue, trackers, fun _ => none, fun _ => none, fun _ => false, fun _ => false,
        fun _ => false⟩
      match loopInPlace (instant sim.graph sim.estimateRecoveryServiceTime oracle)
          (Batches.group GlobalArrivalEvent.arrivalTime (sorter.sort events)) s with
      | .throws s e => ({ sim with recoveryQueue := s.recoveryQueue, trackers := s.trackers }, .error e)
      | .returns s =>
        ({ sim with recoveryQueue := s.recoveryQueue, trackers := s.trackers },
          collectMetrics s starts (requestIds events))

end ClusterSimulator

end CodedLLM
