import CodedLLM.OrderStatistics
import CodedLLM.Replication
import CodedLLM.SweepCommand
/-!
# SweepMain — the parameter sweep, from its command line to its rows

`main` of the sweep: for each seed, rate, probability and parity count it draws a workload and its two replicated
variants, and for each degree, shard size, queue depth and concurrency it runs the coded strategy and prints four
rows.  Doubles are the rationals that they are; `Rounding` says what a conversion or an operation makes of an exact
result.
-/
namespace CodedLLM
namespace Sweep

open TextScan (Text)

/-- **Rounding to a double**, on results in its range: monotone, and exact where the result is a double already. -/
structure Rounding where
  round : ℚ → ℚ
  mono : ∀ x y, x ≤ y → round x ≤ round y
  exact : ∀ (n : Int) (e : Nat), |n| ≤ 2 ^ 53 → e ≤ 1074 → round (n / 2 ^ e) = n / 2 ^ e

/-! ## Summaries -/

structure ExperimentSummary where
  p50Us : Int
  p95Us : Int
  p99Us : Int
  admissionRatePercent : ℚ
  rejectionRatePercent : ℚ
  waitRatePercent : ℚ
  unrecoverableRatePercent : ℚ
  winRatePercent : ℚ
  deriving DecidableEq

def percentileIndex (rounding : Rounding) (size : Nat) (percentile : ℚ) : Nat :=
  max 1 ⌈rounding.round (percentile * rounding.round size)⌉.toNat - 1

def percentile (rounding : Rounding) (values : List Int) (percentile : ℚ) : Except Exn Int :=
  if values = [] then .error (.invalidArgument "Cannot calculate an empty percentile")
  else
    match OrderStatistics.ranked values (percentileIndex rounding values.length percentile) with
    | some value => .ok value
    | none       => .error vectorAt

def ratePercent (rounding : Rounding) (count size : Nat) : ℚ :=
  rounding.round (rounding.round (100 * rounding.round count) / rounding.round size)

def summarize (rounding : Rounding) (metrics : MetricsMap) : Except Exn ExperimentSummary := do
  let latencies := metrics.map (fun entry => entry.2.latency)
  let rate (flag : RequestMetrics → Bool) :=
    ratePercent rounding (metrics.countP (fun entry => flag entry.2)) metrics.length
  let p50 ← percentile rounding latencies (rounding.round (1 / 2))
  let p95 ← percentile rounding latencies (rounding.round (95 / 100))
  let p99 ← percentile rounding latencies (rounding.round (99 / 100))
  .ok ⟨p50, p95, p99, rate RequestMetrics.recoveryAdmitted, rate RequestMetrics.recoveryRejected,
    rate RequestMetrics.recoveryWaited, rate RequestMetrics.recoveryUnrecoverable, rate RequestMetrics.recoveryWon⟩

/-! ## Rows -/

inductive Strategy where
  | wait | replicationCapacityNormalized | replicationFull | codedllm
  deriving DecidableEq, Repr

def Strategy.name : Strategy → String
  | .wait                          => "wait"
  | .replicationCapacityNormalized => "replication_capacity_normalized"
  | .replicationFull               => "replication_full"
  | .codedllm                      => "codedllm"

structure Experiment where
  seed : UInt32
  arrivalRateHz : ℚ
  stragglerProbability : ℚ
  parityCount : Nat
  degree : Nat
  shardSizeMib : Nat
  queueDepth : Nat
  concurrency : Nat
  deriving DecidableEq

/-- The values that `PrintRow` prints; the scenario, the number of requests and `k` are the same in all rows. -/
structure Row where
  experiment : Experiment
  strategy : Strategy
  addedShardCount : Nat
  storageOverheadPercent : ℚ
  summary : ExperimentSummary
  deriving DecidableEq

inductive Line where
  | header
  | row (row : Row)
  deriving DecidableEq

def printRow (rounding : Rounding) (experiment : Experiment) (strategy : Strategy) (addedShardCount : Nat)
    (summary : ExperimentSummary) : Line :=
  .row ⟨experiment, strategy, addedShardCount,
    rounding.round (rounding.round (100 * rounding.round addedShardCount) / rounding.round systematicShards), summary⟩

/-- What the sweep finds outside: the distributions and engines of the standard library, its sort and its number
reader, the rounding of its floating-point types, and the files.  Infinity is `none`. -/
structure Environment where
  rounding : Rounding
  stod : Stod
  sorter : EventSort
  mt19937 : UInt32 → Shuffler
  files : List Char → Option (List Char)
  /-- what a fresh `std::exponential_distribution` draws one after the other, in seconds -/
  exponential : WorkloadConfig → UInt32 → Nat → Option ℚ
  /-- what the distributions of a fresh `DelaySampler` draw one after the other -/
  sampled : WorkloadConfig → UInt32 → Nat → ℚ
  longDouble : ℚ → Option ℚ
  llround : Option ℚ → Int
  exponential_nonneg : ∀ config seed draw seconds, exponential config seed draw = some seconds → 0 ≤ seconds
  longDouble_nonneg : ∀ x y, 0 ≤ x → longDouble x = some y → 0 ≤ y
  /-- outside the range of its type the value of `std::llround` is unspecified -/
  llround_exact : ∀ x : ℚ, 0 ≤ x → x + 1 / 2 < 2 ^ 63 → llround (some x) = ⌊x + 1 / 2⌋

/-! ## Workloads -/

def arrivalSeedSalt : UInt32 := 0x9E3779B9
def fullReplicationSeedSalt : UInt32 := 0xC2B2AE35
def capacityReplicationSeedSalt : UInt32 := 0xA24BAED4
def graphSeedSalt : UInt32 := 0x9E3779B9
def delaySeedSalt : UInt32 := 0x85EBCA6B

/-- `cumulative_microseconds` after the draws of so many requests. -/
def cumulativeMicroseconds (env : Environment) (config : WorkloadConfig) : Nat → Option ℚ
  | 0           => some 0
  | request + 1 => do
    let cumulative ← cumulativeMicroseconds env config request
    let seconds ← env.exponential config (config.seed ^^^ arrivalSeedSalt) request
    let microseconds ← env.longDouble (seconds * 1000000)
    env.longDouble (cumulative + microseconds)

def generateRequestArrivalTimes (env : Environment) (config : WorkloadConfig) : List Int :=
  (List.range config.numRequests).map (fun request => env.llround (cumulativeMicroseconds env config (request + 1)))

def sample (env : Environment) (config : WorkloadConfig) (seed : UInt32) (draw : Nat) : Int :=
  env.llround (some (max 0 (env.sampled config seed draw)))

def Environment.draws (env : Environment) : Draws := ⟨generateRequestArrivalTimes env, sample env⟩

/-- The most elements of a `std::vector<std::chrono::microseconds>`. -/
def arrivalsMaxSize : Nat := 2 ^ 60 - 1

/-- The most elements of a `std::vector<GlobalArrivalEvent>`. -/
def eventsMaxSize : Nat := 2 ^ 58 - 1

/-- **The clock and the delays of a workload are in range**, a quarter of that of 64-bit microseconds. -/
structure DrawsInRange (env : Environment) (config : WorkloadConfig) : Prop where
  clock : ∀ request ≤ config.numRequests, ∃ t, cumulativeMicroseconds env config request = some t ∧ t < 2 ^ 61
  delays : ∀ seed draw, env.sampled config seed draw < 2 ^ 61

def workloadConfig (options : SweepOptions) (seed : UInt32) (arrivalRateHz stragglerProbability : ℚ) : WorkloadConfig :=
  ⟨options.numRequests, some arrivalRateHz, some stragglerProbability, 2000, 400, 20000, 4000, seed⟩

/-- The constructor of `WorkloadGenerator`, and `Generate`. -/
def generateWorkload (env : Environment) (config : WorkloadConfig) (systematicShardCount parityShardCount : Nat) :
    Except Exn (List GlobalArrivalEvent) := do
  validateConfig config
  checkWorkloadShardCounts systematicShardCount parityShardCount
  if arrivalsMaxSize < config.numRequests then .error reserveTooLarge
  else
    if eventsMaxSize < config.numRequests * (systematicShardCount + parityShardCount) % 2 ^ 64 then
      .error reserveTooLarge
    else
      .ok (generate (systematicShardCount + parityShardCount) (sample env config (config.seed ^^^ delaySeedSalt))
        (generateRequestArrivalTimes env config))

def Experiment.config (options : SweepOptions) (e : Experiment) : WorkloadConfig :=
  workloadConfig options e.seed e.arrivalRateHz e.stragglerProbability

/-- **No time of an experiment leaves 64 bits**, not even if its requests are decoded one after the other. -/
structure InRange (env : Environment) (options : SweepOptions) (table : DecodeCostTable) (e : Experiment) :
    Prop extends DrawsInRange env (e.config options) where
  decoding : ∀ cost, table.costs e.degree e.shardSizeMib = some cost →
    options.numRequests * (systematicShards * cost) < 2 ^ 62

/-! ## The sweep -/

structure Prepared where
  baseEvents : List GlobalArrivalEvent
  waitMetrics : MetricsMap
  capacityReplicationMetrics : MetricsMap
  fullReplicationMetrics : MetricsMap

def prepare (env : Environment) (config : WorkloadConfig) (parityCount : Nat) : Except Exn Prepared := do
  let baseEvents ← generateWorkload env config systematicShards parityCount
  let capacityEvents ← applyCapacityNormalizedReplication env.mt19937 env.draws baseEvents config systematicShards
    parityCount (config.seed ^^^ capacityReplicationSeedSalt)
  let fullEvents ← applyReplication env.draws baseEvents config systematicShards
    (config.seed ^^^ fullReplicationSeedSalt)
  let waitMetrics ← runBaseline baseEvents systematicShards
  let capacityMetrics ← runBaseline capacityEvents systematicShards
  let fullMetrics ← runBaseline fullEvents systematicShards
  .ok ⟨baseEvents, waitMetrics, capacityMetrics, fullMetrics⟩

def printSummary (env : Environment) (experiment : Experiment) (strategy : Strategy) (addedShardCount : Nat)
    (metrics : MetricsMap) (out : List Line) : Outcome (List Line) :=
  match summarize env.rounding metrics with
  | .error e    => .throws out e
  | .ok summary => .returns (out ++ [printRow env.rounding experiment strategy addedShardCount summary])

def runExperiment (env : Environment) (prepared : Prepared) (graph : BipartiteGraph) (decodeCosts : DecodeCostTable)
    (experiment : Experiment) (out : List Line) : Outcome (List Line) :=
  match runCodedStrategy env.sorter graph prepared.baseEvents experiment.concurrency experiment.queueDepth
      experiment.shardSizeMib decodeCosts with
  | .error e => .throws out e
  | .ok codedMetrics =>
    loopInPlace (fun out (row : Strategy × Nat × MetricsMap) => printSummary env experiment row.1 row.2.1 row.2.2 out)
      [(.wait, 0, prepared.waitMetrics),
        (.replicationCapacityNormalized, experiment.parityCount, prepared.capacityReplicationMetrics),
        (.replicationFull, systematicShards, prepared.fullReplicationMetrics),
        (.codedllm, experiment.parityCount, codedMetrics)] out

def runGraph (env : Environment) (options : SweepOptions) (decodeCosts : DecodeCostTable) (prepared : Prepared)
    (seed : UInt32) (arrivalRateHz stragglerProbability : ℚ) (parityCount degree shardSizeMib : Nat) (out : List Line) :
    Outcome (List Line) :=
  match decodeCosts.get degree shardSizeMib with
  | .error e => .throws out e
  | .ok _ =>
    match generateRegularGraph systematicShards parityCount degree
        (env.mt19937 (seed ^^^ graphSeedSalt ^^^ UInt32.ofNat parityCount ^^^ UInt32.ofNat degree)) with
    | .error e => .throws out e
    | .ok graph =>
      loopInPlace (fun out queueDepth =>
        loopInPlace (fun out concurrency =>
          runExperiment env prepared graph decodeCosts
            ⟨seed, arrivalRateHz, stragglerProbability, parityCount, degree, shardSizeMib, queueDepth, concurrency⟩ out)
          options.concurrencyLimits out)
        options.queueDepths out

/-- The body of the loops over seeds, rates, probabilities and parity counts. -/
def runWorkload (env : Environment) (options : SweepOptions) (decodeCosts : DecodeCostTable) (seed : UInt32)
    (arrivalRateHz stragglerProbability : ℚ) (parityCount : Nat) (out : List Line) : Outcome (List Line) :=
  match prepare env (workloadConfig options seed arrivalRateHz stragglerProbability) parityCount with
  | .error e => .throws out e
  | .ok prepared =>
    loopInPlace (fun out degree =>
      loopInPlace (fun out shardSizeMib =>
        runGraph env options decodeCosts prepared seed arrivalRateHz stragglerProbability parityCount degree
          shardSizeMib out)
        options.shardSizesMib out)
      options.degrees out

def runSweep (env : Environment) (options : SweepOptions) (decodeCosts : DecodeCostTable) (out : List Line) :
    Outcome (List Line) :=
  loopInPlace (fun out seedOffset =>
    let seed := UInt32.ofNat options.baseSeed + UInt32.ofNat seedOffset
    loopInPlace (fun out arrivalRateHz =>
      loopInPlace (fun out stragglerProbability =>
        loopInPlace (fun out parityCount =>
          runWorkload env options decodeCosts seed arrivalRateHz stragglerProbability parityCount out)
          options.parityCounts out)
        options.stragglerProbabilities out)
      options.arrivalRatesHz out)
    (List.range options.seedCount) out

/-- What a run of the program leaves: its standard output, the line on its standard error and its exit code. -/
structure Exit where
  out : List Line
  err : Option String
  code : Nat
  deriving DecidableEq

def main (env : Environment) (argv : List Text) : Exit :=
  match parseOptions env.stod argv with
  | .error e => ⟨[], some ("phase7_parameter_sweep: " ++ e.what), 1⟩
  | .ok options =>
    match DecodeCostTable.read env.stod (String.ofList options.calibrationCsv) (env.files options.calibrationCsv) with
    | .error e => ⟨[], some ("phase7_parameter_sweep: " ++ e.what), 1⟩
    | .ok decodeCosts =>
      match runSweep env options decodeCosts [.header] with
      | .returns out  => ⟨out, none, 0⟩
      | .throws out e => ⟨out, some ("phase7_parameter_sweep: " ++ e.what), 1⟩

/-! ## One experiment on its own -/

structure Results where
  wait : ExperimentSummary
  capacityReplication : ExperimentSummary
  fullReplication : ExperimentSummary
  coded : ExperimentSummary
  deriving DecidableEq

def Results.lines (rounding : Rounding) (experiment : Experiment) (results : Results) : List Line :=
  [printRow rounding experiment .wait 0 results.wait,
    printRow rounding experiment .replicationCapacityNormalized experiment.parityCount results.capacityReplication,
    printRow rounding experiment .replicationFull systematicShards results.fullReplication,
    printRow rounding experiment .codedllm experiment.parityCount results.coded]

/-- The body of the eight loops, with what the outer ones have made for it, in the order in which it may throw. -/
def measure (env : Environment) (options : SweepOptions) (decodeCosts : DecodeCostTable) (experiment : Experiment) :
    Except Exn Results := do
  let prepared ← prepare env (experiment.config options) experiment.parityCount
  let _ ← decodeCosts.get experiment.degree experiment.shardSizeMib
  let graph ← generateRegularGraph systematicShards experiment.parityCount experiment.degree
    (env.mt19937
    (experiment.seed ^^^ graphSeedSalt ^^^ UInt32.ofNat experiment.parityCount ^^^ UInt32.ofNat experiment.degree))
  let codedMetrics ← runCodedStrategy env.sorter graph prepared.baseEvents experiment.concurrency experiment.queueDepth
    experiment.shardSizeMib decodeCosts
  let wait ← summarize env.rounding prepared.waitMetrics
  let capacityReplication ← summarize env.rounding prepared.capacityReplicationMetrics
  let fullReplication ← summarize env.rounding prepared.fullReplicationMetrics
  let coded ← summarize env.rounding codedMetrics
  .ok ⟨wait, capacityReplication, fullReplication, coded⟩

def experiments (options : SweepOptions) : List Experiment :=
  (List.range options.seedCount).flatMap (fun seedOffset =>
    options.arrivalRatesHz.flatMap (fun rate =>
      options.stragglerProbabilities.flatMap (fun probability =>
        options.parityCounts.flatMap (fun parityCount =>
          options.degrees.flatMap (fun degree =>
            options.shardSizesMib.flatMap (fun size =>
              options.queueDepths.flatMap (fun depth =>
                options.concurrencyLimits.map (fun concurrency =>
                  ⟨UInt32.ofNat options.baseSeed + UInt32.ofNat seedOffset, rate, probability, parityCount, degree,
                    size, depth, concurrency⟩))))))))

end Sweep
end CodedLLM
