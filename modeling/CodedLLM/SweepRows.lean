import CodedLLM.SweepMain
/-!
# SweepRows — the rows of one experiment of the parameter sweep

With a cost for its degree and shard size an experiment of accepted options is measured (`measure_ok`).  In its rows
no percentile of a strategy is above the one of waiting (`Fair`), and inside the loops it prints what it measures on
its own (`runExperiment_eq`).
-/
namespace CodedLLM
namespace Sweep

open ClusterSimulator (Started requestIds)
open TextScan (Text)
open OrderStatistics

/-! ## Percentiles -/

theorem round_nat (rounding : Rounding) {n : Nat} (hn : n ≤ 2 ^ 53) : rounding.round n = n := by
  have h := rounding.exact n 0 (by rw [Nat.abs_cast]; exact_mod_cast hn) (Nat.zero_le _)
  simpa using h

theorem percentileIndex_lt (rounding : Rounding) {n : Nat} (hpos : 0 < n) (hn : n ≤ 2 ^ 53) {p : ℚ} (hp : p ≤ 1) :
    percentileIndex rounding n p < n := by
  have hround : rounding.round (p * rounding.round n) ≤ n := by
    rw [round_nat rounding hn]
    have hle : p * n ≤ n := mul_le_of_le_one_left (Nat.cast_nonneg n) hp
    exact (rounding.mono _ _ hle).trans_eq (round_nat rounding hn)
  have hceil : ⌈rounding.round (p * rounding.round n)⌉ ≤ n := Int.ceil_le.2 (by exact_mod_cast hround)
  rw [percentileIndex]
  omega

theorem percentileIndex_mono (rounding : Rounding) {n : Nat} (hn : n ≤ 2 ^ 53) {p q : ℚ} (h : p ≤ q) :
    percentileIndex rounding n p ≤ percentileIndex rounding n q := by
  have hround : rounding.round (p * rounding.round n) ≤ rounding.round (q * rounding.round n) := by
    rw [round_nat rounding hn]
    exact rounding.mono _ _ (mul_le_mul_of_nonneg_right h (Nat.cast_nonneg n))
  have hceil := Int.ceil_mono hround
  rw [percentileIndex, percentileIndex]
  omega

theorem percentile_ok (rounding : Rounding) {values : List Int} (hne : values ≠ []) (hn : values.length ≤ 2 ^ 53)
    {p : ℚ} (hp : p ≤ 1) : ∃ v, percentile rounding values p = .ok v ∧
      ranked values (percentileIndex rounding values.length p) = some v := by
  have hlt := percentileIndex_lt rounding (List.length_pos_iff.2 hne) hn hp
  obtain ⟨v, hv⟩ := Option.isSome_iff_exists.1 (ranked_isSome.2 hlt)
  refine ⟨v, ?_, hv⟩
  rw [percentile, if_neg hne, hv]

theorem round_le_one (rounding : Rounding) {p : ℚ} (hp : p ≤ 1) : rounding.round p ≤ 1 := by
  have hone : rounding.round ((1 : Nat) : ℚ) = (1 : Nat) := round_nat rounding (by decide)
  rw [Nat.cast_one] at hone
  exact (rounding.mono _ _ hp).trans_eq hone

/-! ## Summaries -/

def latencies (metrics : MetricsMap) : List Int := metrics.map (fun entry => entry.2.latency)

structure Summarizes (rounding : Rounding) (metrics : MetricsMap) (s : ExperimentSummary) : Prop where
  p50 : ranked (latencies metrics) (percentileIndex rounding metrics.length (rounding.round (1 / 2))) = some s.p50Us
  p95 : ranked (latencies metrics) (percentileIndex rounding metrics.length (rounding.round (95 / 100))) = some s.p95Us
  p99 : ranked (latencies metrics) (percentileIndex rounding metrics.length (rounding.round (99 / 100))) = some s.p99Us
  admission : s.admissionRatePercent =
    ratePercent rounding (metrics.countP (fun entry => entry.2.recoveryAdmitted)) metrics.length
  rejection : s.rejectionRatePercent =
    ratePercent rounding (metrics.countP (fun entry => entry.2.recoveryRejected)) metrics.length
  waited : s.waitRatePercent = ratePercent rounding (metrics.countP (fun entry => entry.2.recoveryWaited))
    metrics.length
  unrecoverable : s.unrecoverableRatePercent =
    ratePercent rounding (metrics.countP (fun entry => entry.2.recoveryUnrecoverable)) metrics.length
  win : s.winRatePercent = ratePercent rounding (metrics.countP (fun entry => entry.2.recoveryWon)) metrics.length

theorem summarize_ok (rounding : Rounding) {metrics : MetricsMap} (hne : metrics ≠ []) (hn : metrics.length ≤ 2 ^ 53) :
    ∃ s, summarize rounding metrics = .ok s ∧ Summarizes rounding metrics s := by
  have hne' : latencies metrics ≠ [] := fun h => hne (List.map_eq_nil_iff.1 h)
  have hlen : (latencies metrics).length = metrics.length := List.length_map ..
  have hn' : (latencies metrics).length ≤ 2 ^ 53 := hlen.trans_le hn
  obtain ⟨p50, h50, hr50⟩ := percentile_ok rounding hne' hn' (round_le_one rounding (show (1 / 2 : ℚ) ≤ 1 by norm_num))
  obtain ⟨p95, h95, hr95⟩ :=
    percentile_ok rounding hne' hn' (round_le_one rounding (show (95 / 100 : ℚ) ≤ 1 by norm_num))
  obtain ⟨p99, h99, hr99⟩ :=
    percentile_ok rounding hne' hn' (round_le_one rounding (show (99 / 100 : ℚ) ≤ 1 by norm_num))
  rw [hlen] at hr50 hr95 hr99
  refine ⟨⟨p50, p95, p99, _, _, _, _, _⟩, ?_, ⟨hr50, hr95, hr99, rfl, rfl, rfl, rfl, rfl⟩⟩
  unfold latencies at h50 h95 h99
  simp only [summarize, h50, h95, h99]
  rfl

theorem summarize_keys (rounding : Rounding) {n : Nat} (hpos : 0 < n) (hn : n ≤ 2 ^ 53) {metrics : MetricsMap}
    (hkeys : metrics.map Prod.fst = List.range n) :
    metrics.length ≤ 2 ^ 53 ∧ ∃ s, summarize rounding metrics = .ok s ∧ Summarizes rounding metrics s := by
  have hlen : metrics.length = n := by
    have hlengths := congrArg List.length hkeys
    rwa [List.length_map, List.length_range] at hlengths
  refine ⟨hlen.trans_le hn, summarize_ok rounding ?_ (hlen.trans_le hn)⟩
  rw [← List.length_pos_iff, hlen]
  exact hpos

theorem Summarizes.ascending {rounding : Rounding} {metrics : MetricsMap} {s : ExperimentSummary}
    (h : Summarizes rounding metrics s) (hn : metrics.length ≤ 2 ^ 53) : s.p50Us ≤ s.p95Us ∧ s.p95Us ≤ s.p99Us := by
  have h1 : rounding.round (1 / 2) ≤ rounding.round (95 / 100) := rounding.mono _ _ (by norm_num)
  have h2 : rounding.round (95 / 100) ≤ rounding.round (99 / 100) := rounding.mono _ _ (by norm_num)
  constructor
  · exact ranked_mono (percentileIndex_mono rounding hn h1) h.p50 h.p95
  · exact ranked_mono (percentileIndex_mono rounding hn h2) h.p95 h.p99

def PercentilesLe (s s' : ExperimentSummary) : Prop := s.p50Us ≤ s'.p50Us ∧ s.p95Us ≤ s'.p95Us ∧ s.p99Us ≤ s'.p99Us

theorem forall₂_of_noSlower : ∀ {metrics metrics' : MetricsMap}, metrics'.map Prod.fst = metrics.map Prod.fst →
    (∀ p ∈ metrics, ∀ p' ∈ metrics', p'.1 = p.1 → p'.2.latency ≤ p.2.latency) →
    List.Forall₂ (· ≤ ·) (latencies metrics') (latencies metrics)
  | [], [], _, _ => .nil
  | [], p' :: metrics', hkeys, _ => by cases hkeys
  | p :: metrics, [], hkeys, _ => by cases hkeys
  | p :: metrics, p' :: metrics', hkeys, h => by
    obtain ⟨hkey, hrest⟩ := List.cons.inj hkeys
    refine .cons (h p (by simp) p' (by simp) hkey) (forall₂_of_noSlower hrest ?_)
    exact fun q hq q' hq' => h q (by simp [hq]) q' (by simp [hq'])

theorem percentiles_of_noSlower {rounding : Rounding} {metrics metrics' : MetricsMap} {s s' : ExperimentSummary}
    (hs : Summarizes rounding metrics s) (hs' : Summarizes rounding metrics' s') (h : NoSlower metrics metrics') :
    PercentilesLe s' s := by
  have hall := forall₂_of_noSlower h.1 h.2
  have hlen : metrics'.length = metrics.length := by
    have hkeys := congrArg List.length h.1
    rwa [List.length_map, List.length_map] at hkeys
  have h50 := hs'.p50
  have h95 := hs'.p95
  have h99 := hs'.p99
  rw [hlen] at h50 h95 h99
  exact ⟨ranked_le_of_forall₂ hall hs.p50 h50, ranked_le_of_forall₂ hall hs.p95 h95,
    ranked_le_of_forall₂ hall hs.p99 h99⟩

/-! ## The workloads -/

theorem validateConfig_workload {options : SweepOptions} (hwf : options.WellFormed) {seed : UInt32}
    {rate probability : ℚ}
    (hrate : rate ∈ options.arrivalRatesHz) (hprob : probability ∈ options.stragglerProbabilities) :
    validateConfig (workloadConfig options seed rate probability) = .ok () := by
  obtain ⟨h0, h1⟩ := hwf.probabilities probability hprob
  have hpos := hwf.rates rate hrate
  have hrequests := hwf.counts.2
  unfold validateConfig workloadConfig
  rw [if_neg (Nat.ne_of_gt hrequests), if_neg, if_neg, if_neg]
  · simp
  · simp [not_lt.2 h0, not_lt.2 h1]
  · simp [hpos]

theorem validateReplicationEvents_generate (shardCount : Nat) (delays : Nat → Int) (arrivals : List Int) :
    validateReplicationEvents (generate shardCount delays arrivals) arrivals = .ok () :=
  (forEach_ok _ _).2 (fun _ he => validateReplicationEvent_ok.2 (generate_validated he).1)

theorem length_arrivals (env : Environment) (config : WorkloadConfig) :
    (generateRequestArrivalTimes env config).length = config.numRequests := by
  rw [generateRequestArrivalTimes, List.length_map, List.length_range]

theorem cumulativeMicroseconds_nonneg (env : Environment) (config : WorkloadConfig) : ∀ (request : Nat) (t : ℚ),
    cumulativeMicroseconds env config request = some t → 0 ≤ t
  | 0, t, h => by
    rw [← Option.some.inj h]
  | request + 1, t, h => by
    simp only [cumulativeMicroseconds, bind, Option.bind_eq_some_iff] at h
    obtain ⟨cumulative, hcumulative, seconds, hseconds, microseconds, hmicroseconds, ht⟩ := h
    have hc := cumulativeMicroseconds_nonneg env config request cumulative hcumulative
    have hs := env.exponential_nonneg _ _ _ _ hseconds
    have hm := env.longDouble_nonneg _ _ (mul_nonneg hs (by norm_num)) hmicroseconds
    exact env.longDouble_nonneg _ _ (add_nonneg hc hm) ht

theorem llround_nonneg (env : Environment) {x : ℚ} (h0 : 0 ≤ x) (h : x < 2 ^ 61) : 0 ≤ env.llround (some x) := by
  have hfits : x + 1 / 2 < 2 ^ 63 := by
    have : (2 : ℚ) ^ 61 + 1 / 2 < 2 ^ 63 := by norm_num
    linarith
  rw [env.llround_exact x h0 hfits]
  exact Int.floor_nonneg.2 (by linarith)

theorem DrawsInRange.arrivals_nonneg {env : Environment} {config : WorkloadConfig} (h : DrawsInRange env config) :
    ∀ t ∈ generateRequestArrivalTimes env config, 0 ≤ t := by
  intro t ht
  obtain ⟨request, hrequest, rfl⟩ := List.mem_map.1 ht
  obtain ⟨x, hx, hlt⟩ := h.clock (request + 1) (List.mem_range.1 hrequest)
  rw [hx]
  exact llround_nonneg env (cumulativeMicroseconds_nonneg env config _ x hx) hlt

theorem DrawsInRange.sample_nonneg {env : Environment} {config : WorkloadConfig} (h : DrawsInRange env config)
    (seed : UInt32) (draw : Nat) : 0 ≤ sample env config seed draw :=
  llround_nonneg env (le_max_left ..) (max_lt (by norm_num) (h.delays seed draw))

def Unrecovered (metrics : MetricsMap) : Prop := ∀ p ∈ metrics, p.2 = ⟨p.2.latency, false, false, false, false, false⟩

theorem runBaseline_unrecovered {events : List GlobalArrivalEvent} {k : Nat} {metrics : MetricsMap}
    (h : runBaseline events k = .ok metrics) : Unrecovered metrics := by
  unfold runBaseline at h
  split at h
  · cases h
  · intro p hp
    have hvalue := (ClusterSimulator.collect_ok h).2 p hp
    unfold baselineMetrics at hvalue
    split at hvalue
    · cases hvalue
    · split at hvalue
      · cases hvalue
      · rw [← Except.ok.inj hvalue]

structure Prepares (env : Environment) (config : WorkloadConfig) (parityCount : Nat) (prepared : Prepared) : Prop where
  events : prepared.baseEvents = generate (systematicShards + parityCount)
    (sample env config (config.seed ^^^ delaySeedSalt)) (generateRequestArrivalTimes env config)
  shape : WorkloadShape config.numRequests (systematicShards + parityCount) prepared.baseEvents
  wait : runBaseline prepared.baseEvents systematicShards = .ok prepared.waitMetrics
  keys : prepared.waitMetrics.map Prod.fst = List.range config.numRequests
  capacity : NoSlower prepared.waitMetrics prepared.capacityReplicationMetrics
  full : NoSlower prepared.waitMetrics prepared.fullReplicationMetrics
  unrecovered : Unrecovered prepared.waitMetrics ∧ Unrecovered prepared.capacityReplicationMetrics ∧
    Unrecovered prepared.fullReplicationMetrics

theorem Prepares.work {env : Environment} {config : WorkloadConfig} {m : Nat} {prepared : Prepared}
    (h : Prepares env config m prepared) (hrange : DrawsInRange env config) (hm : m ≤ systematicShards) :
    Workload config.numRequests (systematicShards + m) prepared.baseEvents := by
  rw [h.events, ← length_arrivals env config]
  have h16 : systematicShards = 16 := rfl
  exact generate_workload (by omega) (hrange.sample_nonneg _) hrange.arrivals_nonneg

theorem generateWorkload_ok (env : Environment) {config : WorkloadConfig} (hconfig : validateConfig config = .ok ())
    (hn : config.numRequests < 2 ^ 53) {m : Nat} (hpos : 0 < m) (hm : m ≤ systematicShards) :
    generateWorkload env config systematicShards m = .ok (generate (systematicShards + m)
      (sample env config (config.seed ^^^ delaySeedSalt)) (generateRequestArrivalTimes env config)) := by
  have h16 : systematicShards = 16 := rfl
  have hshards : checkWorkloadShardCounts systematicShards m = .ok () :=
    checkWorkloadShardCounts_accepts (by decide) hpos (by omega)
  have harrivals : ¬ arrivalsMaxSize < config.numRequests := by
    unfold arrivalsMaxSize
    omega
  have hevents : ¬ eventsMaxSize < config.numRequests * (systematicShards + m) % 2 ^ 64 := by
    have hle : config.numRequests * (systematicShards + m) ≤ (2 ^ 53 - 1) * 32 :=
      Nat.mul_le_mul (by omega) (by omega)
    unfold eventsMaxSize
    omega
  rw [generateWorkload, hconfig, hshards]
  simp only [bind, Except.bind, if_neg harrivals, if_neg hevents]

/-- **The workloads of accepted options are drawn and measured without an exception**, whatever the draws. -/
theorem prepare_ok (env : Environment) {config : WorkloadConfig} (hconfig : validateConfig config = .ok ())
    (hn : config.numRequests < 2 ^ 53) {m : Nat} (hpos : 0 < m) (hm : m ≤ systematicShards) :
    ∃ prepared, prepare env config m = .ok prepared ∧ Prepares env config m prepared := by
  have h16 : systematicShards = 16 := rfl
  have hk : validateSystematicShardCount systematicShards = .ok () := by decide
  have hgen := generateWorkload_ok env hconfig hn hpos hm
  obtain ⟨events, hevents⟩ : ∃ events, generate (systematicShards + m)
      (sample env config (config.seed ^^^ delaySeedSalt)) (generateRequestArrivalTimes env config) = events := ⟨_, rfl⟩
  rw [hevents] at hgen
  have hshape : WorkloadShape config.numRequests (systematicShards + m) events := by
    rw [← hevents, ← length_arrivals env config]
    exact generate_shape (by omega) _ _
  have hvalid : validateReplicationEvents events (env.draws.generateRequestArrivalTimes config) = .ok () := by
    rw [← hevents]
    exact validateReplicationEvents_generate _ _ _
  obtain ⟨full, hfull, hracedFull⟩ :=
    replicationRace_ok env.draws hconfig hk hvalid (config.seed ^^^ fullReplicationSeedSalt)
  have hselected := selectCapacityNormalizedReplicas_eq env.mt19937 (show 1 ≤ systematicShards by decide) (by decide) hm
    (config.seed ^^^ capacityReplicationSeedSalt)
  obtain ⟨capped, hcapped, hracedCapped, -⟩ :=
    capacityNormalizedRace_ok env.mt19937 env.draws hconfig hk hm hvalid hselected
  obtain ⟨wait, hwait, hkeys, -⟩ := (runBaseline_spec hshape.start systematicShards).2
    (fun e he => systematicArrival_of_complete (by decide) (hshape.onePerShard.complete he))
  obtain ⟨capacityMetrics, hcapacity, hslowerCapacity⟩ :=
    runBaseline_advanced hshape.start (advanced_of_raced hracedCapped) hwait
  obtain ⟨fullMetrics, hfullMetrics, hslowerFull⟩ :=
    runBaseline_advanced hshape.start (advanced_of_raced hracedFull) hwait
  refine ⟨⟨events, wait, capacityMetrics, fullMetrics⟩, ?_, ⟨hevents.symm, hshape, hwait, ?_, hslowerCapacity,
    hslowerFull, runBaseline_unrecovered hwait, runBaseline_unrecovered hcapacity,
    runBaseline_unrecovered hfullMetrics⟩⟩
  · simp only [prepare, hgen, applyCapacityNormalizedReplication, hcapped, applyReplication, hfull, Except.map, bind,
      Except.bind, hwait, hcapacity, hfullMetrics]
  · rw [hkeys]
    exact hshape.requestIds (by omega)

/-- **The coded strategy on a workload**: if it returns, no request is slower than with waiting, and what it admits
wins. -/
theorem coded_noSlower {sorter : EventSort} {k m degree : Nat} {shuffler : Shuffler} {g : BipartiteGraph}
    (hgraph : generateRegularGraph k m degree shuffler = .ok g) {requests : Nat} {events : List GlobalArrivalEvent}
    (hshape : WorkloadShape requests (k + m) events) {wait : MetricsMap} (hwait : runBaseline events k = .ok wait)
    {concurrency : Nat} (hc : 1 ≤ concurrency) {queueDepth shardSizeMib : Nat} {table : DecodeCostTable} {cost : Int}
    (hcost : table.costs degree shardSizeMib = some cost) {coded : MetricsMap}
    (hcoded : runCodedStrategy sorter g events concurrency queueDepth shardSizeMib table = .ok coded) :
    NoSlower wait coded ∧ ∀ p ∈ coded, p.2.recoveryAdmitted = p.2.recoveryWon := by
  obtain ⟨hg, rfl, rfl, -, hlen⟩ := generateRegularGraph_ok hgraph
  have hcovers : table.Covers g shardSizeMib :=
    DecodeCostTable.covers_of_regular (fun e he => ⟨hlen e he, (hg.equations e he).2.1⟩) hcost
  obtain ⟨hstarted, hnonneg⟩ := started_of_coded hcoded
  obtain ⟨coded', hcoded', hkeys, hwins⟩ := runCodedStrategy_wins sorter hg hshape.onePerShard hstarted hnonneg hc
    (le_slotsMaxSize_of_returns hcoded) queueDepth hcovers
  obtain rfl : coded = coded' := Except.ok.inj (hcoded.symm.trans hcoded')
  obtain ⟨baseline, hbase, hkeys', hlats⟩ := (runBaseline_spec hshape.start g.systematicShardCount).2
    (fun e he => systematicArrival_of_complete hg.systematicPos (hshape.onePerShard.complete he))
  obtain rfl : baseline = wait := Except.ok.inj (hbase.symm.trans hwait)
  -- the requests of both are those of the events
  have hentry : ∀ p ∈ coded, ∃ e ∈ events, e.requestId = p.1 := fun p hp =>
    ClusterSimulator.mem_requestIds.1 (hkeys ▸ List.mem_map_of_mem hp)
  refine ⟨⟨hkeys.trans hkeys'.symm, fun b hb p hp hpb => ?_⟩, fun p hp => ?_⟩
  · obtain ⟨e, he, hreq⟩ := hentry p hp
    obtain ⟨M, hM, hlat⟩ := hlats b hb
    rw [hlat e he (hreq.trans hpb)]
    rw [← hpb] at hM
    rcases hwins p hp e he hreq M hM with ⟨-, -, hlt⟩ | ⟨-, -, heq⟩
    · exact hlt.le
    · exact heq.le
  · obtain ⟨e, he, hreq⟩ := hentry p hp
    have hkey : p.1 ∈ baseline.map Prod.fst := by
      rw [hkeys', ← hkeys]
      exact List.mem_map_of_mem hp
    obtain ⟨b, hb, hpb⟩ := List.mem_map.1 hkey
    obtain ⟨M, hM, -⟩ := hlats b hb
    rw [hpb] at hM
    rcases hwins p hp e he hreq M hM with ⟨hadm, hwon, -⟩ | ⟨hadm, hwon, -⟩
    · rw [hadm, hwon]
    · rw [hadm, hwon]

/-! ## One experiment -/

theorem ratePercent_zero (rounding : Rounding) (n : Nat) : ratePercent rounding 0 n = 0 := by
  have hzero : rounding.round ((0 : Nat) : ℚ) = (0 : Nat) := round_nat rounding (Nat.zero_le _)
  rw [Nat.cast_zero] at hzero
  rw [ratePercent, Nat.cast_zero, hzero, mul_zero, hzero, zero_div, hzero]

def NoRecovery (s : ExperimentSummary) : Prop :=
  s.admissionRatePercent = 0 ∧ s.rejectionRatePercent = 0 ∧ s.waitRatePercent = 0 ∧ s.unrecoverableRatePercent = 0 ∧
    s.winRatePercent = 0

theorem noRecovery_of_unrecovered {rounding : Rounding} {metrics : MetricsMap} {s : ExperimentSummary}
    (hs : Summarizes rounding metrics s) (h : Unrecovered metrics) : NoRecovery s := by
  have hcount : ∀ flag : RequestMetrics → Bool, (∀ l, flag ⟨l, false, false, false, false, false⟩ = false) →
      metrics.countP (fun entry => flag entry.2) = 0 := by
    intro flag hflag
    rw [List.countP_eq_zero]
    intro entry hentry
    rw [h entry hentry, hflag]
    decide
  refine ⟨?_, ?_, ?_, ?_, ?_⟩
  · rw [hs.admission, hcount RequestMetrics.recoveryAdmitted (fun _ => rfl), ratePercent_zero]
  · rw [hs.rejection, hcount RequestMetrics.recoveryRejected (fun _ => rfl), ratePercent_zero]
  · rw [hs.waited, hcount RequestMetrics.recoveryWaited (fun _ => rfl), ratePercent_zero]
  · rw [hs.unrecoverable, hcount RequestMetrics.recoveryUnrecoverable (fun _ => rfl), ratePercent_zero]
  · rw [hs.win, hcount RequestMetrics.recoveryWon (fun _ => rfl), ratePercent_zero]

/-- **What the rows of one experiment show**: percentiles that ascend, no strategy above waiting in any of them,
recoveries only in the coded strategy, and a win for each recovery it admits. -/
structure Fair (r : Results) : Prop where
  ascending : ∀ s ∈ [r.wait, r.capacityReplication, r.fullReplication, r.coded], s.p50Us ≤ s.p95Us ∧ s.p95Us ≤ s.p99Us
  noWorse : ∀ s ∈ [r.capacityReplication, r.fullReplication, r.coded], PercentilesLe s r.wait
  noRecovery : ∀ s ∈ [r.wait, r.capacityReplication, r.fullReplication], NoRecovery s
  wins : r.coded.admissionRatePercent = r.coded.winRatePercent

/-- The values of an experiment that its checks read are in the lists of the options. -/
structure Listed (options : SweepOptions) (e : Experiment) : Prop where
  rate : e.arrivalRateHz ∈ options.arrivalRatesHz
  probability : e.stragglerProbability ∈ options.stragglerProbabilities
  parityCount : e.parityCount ∈ options.parityCounts
  degree : e.degree ∈ options.degrees
  concurrency : e.concurrency ∈ options.concurrencyLimits

def printRows (env : Environment) (options : SweepOptions) (table : DecodeCostTable) (out : List Line)
    (e : Experiment) : Outcome (List Line) :=
  match measure env options table e with
  | .error exn => .throws out exn
  | .ok r      => .returns (out ++ r.lines env.rounding e)

section
variable {env : Environment} {options : SweepOptions} {table : DecodeCostTable} {e : Experiment}

theorem prepared_ok (env : Environment) (hwf : options.WellFormed) (hn : options.numRequests < 2 ^ 53) (seed : UInt32)
    {rate probability : ℚ} (hrate : rate ∈ options.arrivalRatesHz)
    (hprob : probability ∈ options.stragglerProbabilities) {m : Nat} (hm : m ∈ options.parityCounts) :
    ∃ prepared, prepare env (workloadConfig options seed rate probability) m = .ok prepared ∧
      Prepares env (workloadConfig options seed rate probability) m prepared :=
  prepare_ok env (validateConfig_workload hwf hrate hprob) hn (hwf.parityCounts m hm) (hwf.parityCounts_le m hm)

theorem graph_ok (env : Environment) (hwf : options.WellFormed) (seed : UInt32) {m degree : Nat}
    (hm : m ∈ options.parityCounts) (hdegree : degree ∈ options.degrees) :
    ∃ graph, generateRegularGraph systematicShards m degree
      (env.mt19937 (seed ^^^ graphSeedSalt ^^^ UInt32.ofNat m ^^^ UInt32.ofNat degree)) = .ok graph := by
  have hle := hwf.parityCounts_le m hm
  have h16 : systematicShards = 16 := rfl
  exact generateRegularGraph_accepts _ (by decide) (hwf.parityCounts m hm) (by omega) (hwf.degrees degree hdegree)
    (hwf.degrees_le degree hdegree)

/-- **An experiment whose coded run returns is measured**, fairly, and printed. -/
theorem measure_of_coded (hwf : options.WellFormed) (hn : options.numRequests < 2 ^ 53) (he : Listed options e)
    {prepared : Prepared} (hprep : prepare env (e.config options) e.parityCount = .ok prepared)
    (hp : Prepares env (e.config options) e.parityCount prepared) {cost : Int}
    (hcost : table.costs e.degree e.shardSizeMib = some cost) {graph : BipartiteGraph}
    (hgraph : generateRegularGraph systematicShards e.parityCount e.degree
      (env.mt19937 (e.seed ^^^ graphSeedSalt ^^^ UInt32.ofNat e.parityCount ^^^ UInt32.ofNat e.degree)) = .ok graph)
    {coded : MetricsMap} (hcoded : runCodedStrategy env.sorter graph prepared.baseEvents e.concurrency e.queueDepth
      e.shardSizeMib table = .ok coded) :
    ∃ r, measure env options table e = .ok r ∧ Fair r ∧
      ∀ out, runExperiment env prepared graph table e out = .returns (out ++ r.lines env.rounding e) := by
  obtain ⟨hslower, hwins⟩ := coded_noSlower hgraph hp.shape hp.wait (hwf.limits _ he.concurrency) hcost hcoded
  have hpos := hwf.counts.2
  have hkeys : prepared.waitMetrics.map Prod.fst = List.range options.numRequests := hp.keys
  obtain ⟨hn0, wait, hwait, hwaits⟩ := summarize_keys env.rounding hpos hn.le hkeys
  obtain ⟨hn1, capacity, hcapacity, hcapacities⟩ := summarize_keys env.rounding hpos hn.le (hp.capacity.1.trans hkeys)
  obtain ⟨hn2, full, hfull, hfulls⟩ := summarize_keys env.rounding hpos hn.le (hp.full.1.trans hkeys)
  obtain ⟨hn3, codedSummary, hcodedSummary, hcodeds⟩ := summarize_keys env.rounding hpos hn.le (hslower.1.trans hkeys)
  have hget : table.get e.degree e.shardSizeMib = .ok cost := DecodeCostTable.get_eq_ok.2 hcost
  refine ⟨⟨wait, capacity, full, codedSummary⟩, ?_, ⟨?_, ?_, ?_, ?_⟩, fun out => ?_⟩
  · simp only [measure, hprep, hget, hgraph, hcoded, hwait, hcapacity, hfull, hcodedSummary, bind, Except.bind]
  · intro s hs
    simp only [List.mem_cons, List.not_mem_nil, or_false] at hs
    rcases hs with rfl | rfl | rfl | rfl
    · exact hwaits.ascending hn0
    · exact hcapacities.ascending hn1
    · exact hfulls.ascending hn2
    · exact hcodeds.ascending hn3
  · intro s hs
    simp only [List.mem_cons, List.not_mem_nil, or_false] at hs
    rcases hs with rfl | rfl | rfl
    · exact percentiles_of_noSlower hwaits hcapacities hp.capacity
    · exact percentiles_of_noSlower hwaits hfulls hp.full
    · exact percentiles_of_noSlower hwaits hcodeds hslower
  · intro s hs
    simp only [List.mem_cons, List.not_mem_nil, or_false] at hs
    rcases hs with rfl | rfl | rfl
    · exact noRecovery_of_unrecovered hwaits hp.unrecovered.1
    · exact noRecovery_of_unrecovered hcapacities hp.unrecovered.2.1
    · exact noRecovery_of_unrecovered hfulls hp.unrecovered.2.2
  · show codedSummary.admissionRatePercent = codedSummary.winRatePercent
    rw [hcodeds.admission, hcodeds.win]
    congr 1
    apply List.countP_congr
    intro p hmem
    rw [hwins p hmem]
  · simp only [runExperiment, hcoded, loopInPlace, printSummary, hwait, hcapacity, hfull, hcodedSummary, Results.lines,
      List.append_assoc, List.cons_append, List.nil_append]

/-- **Inside the loops an experiment prints what it measures on its own**, or throws what that throws. -/
theorem runExperiment_eq (hwf : options.WellFormed) (hn : options.numRequests < 2 ^ 53) (he : Listed options e)
    {prepared : Prepared} (hprep : prepare env (e.config options) e.parityCount = .ok prepared)
    (hp : Prepares env (e.config options) e.parityCount prepared) {cost : Int}
    (hcost : table.costs e.degree e.shardSizeMib = some cost) {graph : BipartiteGraph}
    (hgraph : generateRegularGraph systematicShards e.parityCount e.degree
      (env.mt19937 (e.seed ^^^ graphSeedSalt ^^^ UInt32.ofNat e.parityCount ^^^ UInt32.ofNat e.degree)) = .ok graph)
    (out : List Line) : runExperiment env prepared graph table e out = printRows env options table out e := by
  cases hcoded :
      runCodedStrategy env.sorter graph prepared.baseEvents e.concurrency e.queueDepth e.shardSizeMib table with
  | error exn =>
    have hget : table.get e.degree e.shardSizeMib = .ok cost := DecodeCostTable.get_eq_ok.2 hcost
    simp only [runExperiment, hcoded, printRows, measure, hprep, hget, hgraph, bind, Except.bind]
  | ok coded =>
    obtain ⟨r, hr, -, hprints⟩ := measure_of_coded hwf hn he hprep hp hcost hgraph hcoded
    rw [hprints, printRows, hr]

/-- **What an experiment measures is fair.** -/
theorem fair_of_measure (hwf : options.WellFormed) (hn : options.numRequests < 2 ^ 53) (he : Listed options e)
    {r : Results} (h : measure env options table e = .ok r) : Fair r := by
  obtain ⟨prepared, hprep, hp⟩ := prepared_ok env hwf hn e.seed he.rate he.probability he.parityCount
  obtain ⟨graph, hgraph⟩ := graph_ok env hwf e.seed he.parityCount he.degree
  have hmeasure := h
  obtain ⟨prepared', hprep', h⟩ := bind_eq_ok.1 h
  obtain rfl : prepared = prepared' := Except.ok.inj (hprep.symm.trans hprep')
  obtain ⟨cost, hget, h⟩ := bind_eq_ok.1 h
  obtain ⟨graph', hgraph', h⟩ := bind_eq_ok.1 h
  obtain rfl : graph = graph' := Except.ok.inj (hgraph.symm.trans hgraph')
  obtain ⟨coded, hcoded, -⟩ := bind_eq_ok.1 h
  obtain ⟨r', hr', hfair, -⟩ :=
    measure_of_coded hwf hn he hprep hp (DecodeCostTable.get_eq_ok.1 hget) hgraph hcoded
  rwa [Except.ok.inj (hmeasure.symm.trans hr')]

/-! ## Which experiments are measured -/

def Uncovered (table : DecodeCostTable) (e : Experiment) : Bool := (table.costs e.degree e.shardSizeMib).isNone

theorem measure_uncovered (hwf : options.WellFormed) (hn : options.numRequests < 2 ^ 53) (he : Listed options e)
    (h : Uncovered table e = true) : measure env options table e = .error (.invalidArgument
      ("No measured decode cost for degree " ++ toString e.degree ++ " at " ++ toString e.shardSizeMib ++ " MiB")) := by
  obtain ⟨prepared, hprep, -⟩ := prepared_ok env hwf hn e.seed he.rate he.probability he.parityCount
  rw [Uncovered, Option.isNone_iff_eq_none] at h
  have hprep' : prepare env (e.config options) e.parityCount = .ok prepared := hprep
  simp only [measure, hprep', DecodeCostTable.get, h, bind, Except.bind]

theorem measure_tooManySlots (hwf : options.WellFormed) (hn : options.numRequests < 2 ^ 53) (he : Listed options e)
    (h : Uncovered table e = false) (hmax : RecoveryQueue.slotsMaxSize < e.concurrency) :
    measure env options table e = .error vectorTooLarge := by
  obtain ⟨prepared, hprep, -⟩ := prepared_ok env hwf hn e.seed he.rate he.probability he.parityCount
  obtain ⟨graph, hgraph⟩ := graph_ok env hwf e.seed he.parityCount he.degree
  rw [Uncovered, Option.isNone_eq_false_iff] at h
  obtain ⟨cost, hcost⟩ := Option.isSome_iff_exists.1 h
  have hget : table.get e.degree e.shardSizeMib = .ok cost := DecodeCostTable.get_eq_ok.2 hcost
  have hprep' : prepare env (e.config options) e.parityCount = .ok prepared := hprep
  have hcoded : runCodedStrategy env.sorter graph prepared.baseEvents e.concurrency e.queueDepth e.shardSizeMib table =
      .error vectorTooLarge := by
    rw [runCodedStrategy, RecoveryQueue.make, if_pos hmax]
  simp only [measure, hprep', hget, hgraph, hcoded, bind, Except.bind]

/-- **An experiment with a cost is measured**, if its slots fit a vector and its times are in range. -/
theorem measure_ok (hwf : options.WellFormed) (hn : options.numRequests < 2 ^ 53) (he : Listed options e)
    (h : Uncovered table e = false) (hmax : e.concurrency ≤ RecoveryQueue.slotsMaxSize)
    (hrange : InRange env options table e) : ∃ r, measure env options table e = .ok r := by
  obtain ⟨prepared, hprep, hp⟩ := prepared_ok env hwf hn e.seed he.rate he.probability he.parityCount
  obtain ⟨graph, hgraph⟩ := graph_ok env hwf e.seed he.parityCount he.degree
  rw [Uncovered, Option.isNone_eq_false_iff] at h
  obtain ⟨cost, hcost⟩ := Option.isSome_iff_exists.1 h
  have hwork := hp.work hrange.toDrawsInRange (hwf.parityCounts_le _ he.parityCount)
  obtain ⟨hg, hk, hm, -, hlen⟩ := generateRegularGraph_ok hgraph
  have hcovers : table.Covers graph e.shardSizeMib :=
    DecodeCostTable.covers_of_regular (fun a ha => ⟨hlen a ha, (hg.equations a ha).2.1⟩) hcost
  obtain ⟨coded, hcoded, -⟩ := runCodedStrategy_wins env.sorter hg (by rw [hk, hm]; exact hwork.onePerShard)
    hwork.started hwork.nonneg (hwf.limits _ he.concurrency) hmax e.queueDepth hcovers
  obtain ⟨r, hr, -⟩ := measure_of_coded hwf hn he hprep hp hcost hgraph hcoded
  exact ⟨r, hr⟩

end

end Sweep
end CodedLLM
