import CodedLLM.Coordinator
import CodedLLM.CudaStaging
/-!
# Executor — the critical sections of `CudaRecoveryExecutor`

`StageShard`, `Submit` and `Cancel` are one locked section each.  A worker goes through three of them (it takes a
task, it reads whether the task was cancelled, it takes the task off the books) and does two things between them
without the lock: it executes the plan and it calls the completion handler.  `Executor.step` interleaves all of these.

`tickets` and `history` record what happened, and no decision depends on them: a ticket is the number of an accepted
`Submit`, and the history lists the events in the order in which they happened.
-/
namespace CodedLLM

structure StagedContext where
  shardCount : Nat
  context : DeviceShardStagingContext
  deriving DecidableEq, Repr

/-- A queued task; its completion handler is known by the ticket. -/
structure ExecutorTask where
  requestId : Nat
  plan : DecodePlan
  shards : ShardSlots
  context : DeviceShardStagingContext
  enqueuedAt : Int
  ticket : Nat
  deriving DecidableEq, Repr

/-- **Where a worker stands between its sections.** -/
inductive WorkerPhase where
  | waiting
  | executing (task : ExecutorTask)
  | executed (task : ExecutorTask) (result : RecoveryTaskResult)
  /-- it has read that the task is not cancelled -/
  | delivering (task : ExecutorTask) (result : RecoveryTaskResult)
  /-- it is past the completion handler, which it skipped if it had read that the task is cancelled -/
  | finishing (task : ExecutorTask) (cancelled : Bool)
  | exited
  deriving DecidableEq, Repr

def WorkerPhase.held : WorkerPhase → Option ExecutorTask
  | .waiting => none
  | .executing task => some task
  | .executed task _ => some task
  | .delivering task _ => some task
  | .finishing task _ => some task
  | .exited => none

namespace Executor

inductive Event where
  | accepted (ticket requestId : Nat)
  | cancelCalled (requestId : Nat)
  | started (ticket : Nat)
  | delivered (ticket : Nat)
  | discarded (ticket : Nat)
  deriving DecidableEq, Repr

end Executor

/-- The locked data of `CudaRecoveryExecutor::Impl`, its workers, and the record of what happened. -/
structure Executor where
  concurrency : Nat
  capacity : Nat
  estimatedServiceCost : Int
  queue : List ExecutorTask
  stagedContexts : Nat → Option StagedContext
  runningRequests : Finset Nat
  cancelledRequests : Finset Nat
  workers : List WorkerPhase
  stopping : Bool
  tickets : Nat
  history : List Executor.Event

structure SubmitEnv where
  create : Device
  /-- the device while shard `shardId` is staged -/
  stage : Nat → Device
  /-- in nanoseconds -/
  enqueuedAt : Int

structure ExecuteEnv where
  dev : Device
  executionStart : Int
  executionEnd : Int
  /-- the three timings, as `MillisecondsToMicroseconds` rounds them -/
  h2d : Int
  kernel : Int
  d2h : Int

namespace Executor

/-- `duration_cast<microseconds>` of nanoseconds. -/
def toMicroseconds (nanoseconds : Int) : Int := nanoseconds.tdiv 1000

/-- `std::vector<std::thread>::max_size()`. -/
def workersMaxSize : Nat := 2 ^ 60 - 1

/-- The constructor.  Its first two arguments are 64-bit, and their sum wraps. -/
def make (concurrencyLimit maxQueueDepth : UInt64) (estimatedServiceCost : Int) : Except Exn Executor :=
  let capacity := concurrencyLimit + maxQueueDepth
  if concurrencyLimit = 0 then .error (.invalidArgument "CUDA recovery concurrency must be non-zero")
  else if capacity < concurrencyLimit then
    .error (.invalidArgument "CUDA recovery queue capacity overflows size_t")
  else if estimatedServiceCost ≤ 0 then
    .error (.invalidArgument "CUDA recovery service estimate must be positive")
  else if workersMaxSize < concurrencyLimit.toNat then .error reserveTooLarge
  else
    .ok { concurrency := concurrencyLimit.toNat, capacity := capacity.toNat, estimatedServiceCost, queue := [],
          stagedContexts := fun _ => none, runningRequests := ∅, cancelledRequests := ∅,
          workers := List.replicate concurrencyLimit.toNat .waiting, stopping := false, tickets := 0, history := [] }

def outstanding (s : Executor) : Nat := s.queue.length + s.runningRequests.card

/-- `EstimateRecoveryCost`: the wave in which one more task would complete. -/
def estimateRecoveryCost (s : Executor) : Option Int :=
  if s.stopping = true ∨ s.capacity ≤ s.outstanding then none
  else some (s.estimatedServiceCost * ((s.outstanding / s.concurrency + 1 : Nat) : Int))

def hasQueuedRequest (s : Executor) (requestId : Nat) : Bool := s.queue.any (fun task => task.requestId = requestId)

def setStaged (s : Executor) (requestId : Nat) (staged : Option StagedContext) : Executor :=
  { s with stagedContexts := Function.update s.stagedContexts requestId staged }

/-- The end of `StageShard`; the context is in the table before the shard is staged, so a throw leaves it there. -/
def stageInto (s : Executor) (dev : Device) (requestId : Nat) (staged : StagedContext) (shardId : Nat)
    (payload : WordShard) : Outcome Executor :=
  match stageDecodeShardCuda dev staged.context shardId payload with
  | .throws context e => .throws (s.setStaged requestId (some { staged with context })) e
  | .returns context => .returns (s.setStaged requestId (some { staged with context }))

def stageShard (s : Executor) (dev : Device) (requestId shardCount shardId : Nat) (payload : WordShard) :
    Outcome Executor :=
  if s.stopping = true ∨ requestId ∈ s.runningRequests ∨ s.hasQueuedRequest requestId = true then .returns s
  else
    match s.stagedContexts requestId with
    | none =>
      match createDeviceShardStagingContextCuda dev shardCount with
      | .error e => .throws s e
      | .ok context => s.stageInto dev requestId ⟨shardCount, context⟩ shardId payload
    | some staged =>
      if staged.shardCount ≠ shardCount then
        .throws s (.invalidArgument "Staged shards must use a consistent shard-slot count")
      else s.stageInto dev requestId staged shardId payload

/-- The context `Submit` makes for a request nothing was staged for. -/
def stagePresent (env : SubmitEnv) (shards : ShardSlots) : Except Exn DeviceShardStagingContext :=
  match createDeviceShardStagingContextCuda env.create shards.length with
  | .error e => .error e
  | .ok context =>
    loop (fun context shardId =>
      match slotAt shards shardId with
      | none => .ok context
      | some shard =>
        match stageDecodeShardCuda (env.stage shardId) context (toShardId shardId) shard with
        | .throws _ e => .error e
        | .returns context => .ok context) (List.range shards.length) context

def enqueue (s : Executor) (task : ExecutorTask) : Executor :=
  { s with
    queue := s.queue ++ [task]
    tickets := s.tickets + 1
    history := s.history ++ [.accepted task.ticket task.requestId] }

/-- `Submit`; `completion` says whether a handler was given. -/
def submit (s : Executor) (env : SubmitEnv) (requestId : Nat) (plan : DecodePlan) (shards : ShardSlots)
    (completion : Bool) : Executor × Except Exn Bool :=
  if completion = false then (s, .error (.invalidArgument "CUDA recovery requires a completion handler"))
  else if s.stopping = true ∨ s.capacity ≤ s.outstanding ∨ requestId ∈ s.runningRequests ∨
      s.hasQueuedRequest requestId = true then (s.setStaged requestId none, .ok false)
  else
    match s.stagedContexts requestId with
    | some staged =>
      if staged.shardCount ≠ shards.length then
        (s.setStaged requestId none,
          .error (.invalidArgument "Submitted shards must match the staged shard-slot count"))
      else
        ((s.setStaged requestId none).enqueue ⟨requestId, plan, shards, staged.context, env.enqueuedAt, s.tickets⟩,
          .ok true)
    | none =>
      match stagePresent env shards with
      | .error e => (s, .error e)
      | .ok context => (s.enqueue ⟨requestId, plan, shards, context, env.enqueuedAt, s.tickets⟩, .ok true)

def cancel (s : Executor) (requestId : Nat) : Executor × Bool :=
  let s' := { s.setStaged requestId none with history := s.history ++ [.cancelCalled requestId] }
  match s.queue.find? (fun task => task.requestId = requestId) with
  | some task =>
    ({ s' with
        queue := s.queue.eraseP (fun task => task.requestId = requestId)
        history := s'.history ++ [.discarded task.ticket] }, true)
  | none =>
    if requestId ∈ s.runningRequests then
      ({ s' with cancelledRequests := insert requestId s.cancelledRequests }, true)
    else (s', (s.stagedContexts requestId).isSome)

/-- What a worker does with its task before it looks at `cancelled_requests` again. -/
def executeTask (env : ExecuteEnv) (task : ExecutorTask) : ExecutorTask × RecoveryTaskResult :=
  let queueWait := toMicroseconds (env.executionStart - task.enqueuedAt)
  let total := queueWait + toMicroseconds (env.executionEnd - env.executionStart)
  match runStagedDecodePlanCuda env.dev task.context task.plan task.shards with
  | .returns (context, shards) =>
    ({ task with context, shards := [] },
      ⟨true, shards, { RecoveryExecutionMetrics.zero with
        queueWait, h2d := env.h2d, kernel := env.kernel, d2h := env.d2h, total }, ""⟩)
  | .throws (context, shards) e =>
    ({ task with context, shards }, ⟨false, [], { RecoveryExecutionMetrics.zero with queueWait, total }, e.what⟩)

def setWorker (s : Executor) (worker : Nat) (phase : WorkerPhase) : Executor :=
  { s with workers := s.workers.set worker phase }

def record (s : Executor) (event : Event) : Executor := { s with history := s.history ++ [event] }

inductive Action where
  | stageShard (dev : Device) (requestId shardCount shardId : Nat) (payload : WordShard)
  | submit (env : SubmitEnv) (requestId : Nat) (plan : DecodePlan) (shards : ShardSlots) (completion : Bool)
  | cancel (requestId : Nat)
  | shutdown
  /-- the first section of a worker's round: it takes the front task, or returns -/
  | take (worker : Nat)
  | execute (worker : Nat) (env : ExecuteEnv)
  | check (worker : Nat)
  | deliver (worker : Nat)
  | erase (worker : Nat)

def step (s : Executor) : Action → Option Executor
  | .stageShard dev requestId shardCount shardId payload =>
    some (s.stageShard dev requestId shardCount shardId payload).state
  | .submit env requestId plan shards completion => some (s.submit env requestId plan shards completion).1
  | .cancel requestId => some (s.cancel requestId).1
  | .shutdown => some { s with stopping := true }
  | .take worker =>
    match s.workers[worker]?, s.queue with
    | some .waiting, [] => if s.stopping = true then some (s.setWorker worker .exited) else none
    | some .waiting, task :: rest =>
      some (({ s with queue := rest, runningRequests := insert task.requestId s.runningRequests }.setWorker worker
        (.executing task)).record (.started task.ticket))
    | _, _ => none
  | .execute worker env =>
    match s.workers[worker]? with
    | some (.executing task) =>
      let (task, result) := executeTask env task
      some (s.setWorker worker (.executed task result))
    | _ => none
  | .check worker =>
    match s.workers[worker]? with
    | some (.executed task result) =>
      if task.requestId ∈ s.cancelledRequests then
        some ((s.setWorker worker (.finishing task true)).record (.discarded task.ticket))
      else some (s.setWorker worker (.delivering task result))
    | _ => none
  | .deliver worker =>
    match s.workers[worker]? with
    | some (.delivering task _) =>
      some ((s.setWorker worker (.finishing task false)).record (.delivered task.ticket))
    | _ => none
  | .erase worker =>
    match s.workers[worker]? with
    | some (.finishing task _) =>
      some ({ s with
        runningRequests := s.runningRequests.erase task.requestId
        cancelledRequests := s.cancelledRequests.erase task.requestId }.setWorker worker .waiting)
    | _ => none

end Executor

end CodedLLM
