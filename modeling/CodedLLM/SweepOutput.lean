import CodedLLM.SweepRows
/-!
# SweepOutput — what a run of the parameter sweep prints

The eight loops are one loop over the experiments (`runSweep_eq`): it prints the rows that an experiment has on its
own, up to the first one whose measurement throws (`printRows_loop`).
-/
namespace CodedLLM
namespace Sweep

open TextScan (Text)

/-! ## The experiments -/

def experimentOf (options : SweepOptions) (c : Nat × ℚ × ℚ × Nat × Nat × Nat × Nat × Nat) : Experiment :=
  ⟨UInt32.ofNat options.baseSeed + UInt32.ofNat c.1, c.2.1, c.2.2.1, c.2.2.2.1, c.2.2.2.2.1, c.2.2.2.2.2.1,
    c.2.2.2.2.2.2.1, c.2.2.2.2.2.2.2⟩

theorem experiments_eq (options : SweepOptions) :
    experiments options = (List.range options.seedCount ×ˢ options.arrivalRatesHz ×ˢ options.stragglerProbabilities ×ˢ
      options.parityCounts ×ˢ options.degrees ×ˢ options.shardSizesMib ×ˢ options.queueDepths ×ˢ
        options.concurrencyLimits).map (experimentOf options) := by
  simp only [experiments, SProd.sprod, List.product, List.map_flatMap, List.map_map]
  rfl

theorem seed_inj {base count i j : Nat} (h : base + count ≤ 2 ^ 32) (hi : i < count) (hj : j < count)
    (heq : UInt32.ofNat base + UInt32.ofNat i = UInt32.ofNat base + UInt32.ofNat j) : i = j := by
  have hnat := congrArg UInt32.toNat heq
  rw [← UInt32.ofNat_add, ← UInt32.ofNat_add, UInt32.toNat_ofNat_of_lt', UInt32.toNat_ofNat_of_lt'] at hnat
  · omega
  · exact lt_of_lt_of_le (by omega) h
  · exact lt_of_lt_of_le (by omega) h

theorem experiments_nodup {options : SweepOptions} (hwf : options.WellFormed) : (experiments options).Nodup := by
  obtain ⟨hrates, hprobs, hparity, hdegrees, hsizes, hdepths, hlimits⟩ := hwf.distinct
  rw [experiments_eq]
  apply List.Nodup.map_on
  · rintro ⟨i, rate, prob, m, d, s, q, c⟩ hx ⟨i', rate', prob', m', d', s', q', c'⟩ hy heq
    have hi := List.mem_range.1 (List.mem_product.1 hx).1
    have hi' := List.mem_range.1 (List.mem_product.1 hy).1
    injection heq with hseed h1 h2 h3 h4 h5 h6 h7
    obtain rfl := seed_inj hwf.seeds hi hi' hseed
    exact congrArg (Prod.mk i) (by simp only at h1 h2 h3 h4 h5 h6 h7; rw [h1, h2, h3, h4, h5, h6, h7])
  · exact List.nodup_range.product (hrates.product (hprobs.product (hparity.product (hdegrees.product (hsizes.product
      (hdepths.product hlimits))))))

/-! ## One loop over the experiments -/

theorem loopInPlace_congr {σ α : Type} {body body' : σ → α → Outcome σ} : ∀ (as : List α),
    (∀ a ∈ as, ∀ s, body s a = body' s a) → ∀ s, loopInPlace body as s = loopInPlace body' as s
  | [], _, _ => rfl
  | a :: as, h, s => by
    rw [loopInPlace, loopInPlace, h a List.mem_cons_self]
    cases body' s a with
    | throws s' e => rfl
    | returns s' => exact loopInPlace_congr as (fun b hb => h b (List.mem_cons_of_mem a hb)) s'

theorem loopInPlace_nested {σ α β : Type} {body : σ → β → Outcome σ} {outer : σ → α → Outcome σ} {f : α → List β}
    (as : List α) (h : ∀ a ∈ as, ∀ s, outer s a = loopInPlace body (f a) s) (s : σ) :
    loopInPlace outer as s = loopInPlace body (as.flatMap f) s := by
  rw [loopInPlace_congr as h]
  exact loopInPlace_flatMap (fun _ _ => rfl) as s

def rows (env : Environment) (options : SweepOptions) (table : DecodeCostTable) (e : Experiment) : List Line :=
  match measure env options table e with
  | .ok r    => r.lines env.rounding e
  | .error _ => []

section
variable {env : Environment} {options : SweepOptions} {table : DecodeCostTable}

theorem printRows_fails {es : List Experiment} (hne : es ≠ []) {x : Exn}
    (h : ∀ e ∈ es, measure env options table e = .error x) (out : List Line) :
    loopInPlace (printRows env options table) es out = .throws out x := by
  obtain ⟨e, rest, rfl⟩ := List.exists_cons_of_ne_nil hne
  rw [loopInPlace, printRows, h e List.mem_cons_self]

theorem runGraph_eq (hwf : options.WellFormed) (hn : options.numRequests < 2 ^ 53) {seed : UInt32}
    {rate probability : ℚ} (hrate : rate ∈ options.arrivalRatesHz)
    (hprob : probability ∈ options.stragglerProbabilities) {m degree : Nat} (hm : m ∈ options.parityCounts)
    (hdegree : degree ∈ options.degrees) {prepared : Prepared}
    (hprep : prepare env (workloadConfig options seed rate probability) m = .ok prepared)
    (hp : Prepares env (workloadConfig options seed rate probability) m prepared) (size : Nat) (out : List Line) :
    runGraph env options table prepared seed rate probability m degree size out =
      loopInPlace (printRows env options table) (options.queueDepths.flatMap (fun depth => options.concurrencyLimits.map
        (fun concurrency => ⟨seed, rate, probability, m, degree, size, depth, concurrency⟩))) out := by
  obtain ⟨graph, hgraph⟩ := graph_ok env hwf seed hm hdegree
  cases hcost : table.costs degree size with
  | none =>
    -- the lists are not empty, so the one loop looks the cost up as well
    obtain ⟨-, -, -, -, -, hdepths, hlimits⟩ := hwf.filled
    obtain ⟨depth, hdepth⟩ := List.exists_mem_of_ne_nil _ hdepths
    obtain ⟨limit, hlimit⟩ := List.exists_mem_of_ne_nil _ hlimits
    have hfirst : (⟨seed, rate, probability, m, degree, size, depth, limit⟩ : Experiment) ∈
        options.queueDepths.flatMap (fun depth => options.concurrencyLimits.map
          (fun concurrency => ⟨seed, rate, probability, m, degree, size, depth, concurrency⟩)) :=
      List.mem_flatMap.2 ⟨depth, hdepth, List.mem_map_of_mem hlimit⟩
    rw [printRows_fails (List.ne_nil_of_mem hfirst) (x := .invalidArgument ("No measured decode cost for degree " ++
      toString degree ++ " at " ++ toString size ++ " MiB"))]
    · simp only [runGraph, DecodeCostTable.get, hcost]
    · intro e he
      obtain ⟨depth', -, he⟩ := List.mem_flatMap.1 he
      obtain ⟨concurrency, hconc, rfl⟩ := List.mem_map.1 he
      have huncovered : Uncovered table ⟨seed, rate, probability, m, degree, size, depth', concurrency⟩ = true := by
        rw [Uncovered, hcost]
        rfl
      exact measure_uncovered hwf hn ⟨hrate, hprob, hm, hdegree, hconc⟩ huncovered
  | some cost =>
    have hget : table.get degree size = .ok cost := DecodeCostTable.get_eq_ok.2 hcost
    simp only [runGraph, hget, hgraph]
    apply loopInPlace_nested
    intro depth _ out
    rw [loopInPlace_map]
    apply loopInPlace_congr
    intro concurrency hconc out
    exact runExperiment_eq (e := ⟨seed, rate, probability, m, degree, size, depth, concurrency⟩) hwf hn
      ⟨hrate, hprob, hm, hdegree, hconc⟩ hprep hp hcost hgraph out

theorem runWorkload_eq (hwf : options.WellFormed) (hn : options.numRequests < 2 ^ 53) {rate probability : ℚ}
    (hrate : rate ∈ options.arrivalRatesHz) (hprob : probability ∈ options.stragglerProbabilities) {m : Nat}
    (hm : m ∈ options.parityCounts) (seed : UInt32) (out : List Line) :
    runWorkload env options table seed rate probability m out =
      loopInPlace (printRows env options table)
        (options.degrees.flatMap (fun degree => options.shardSizesMib.flatMap (fun size =>
        options.queueDepths.flatMap (fun depth => options.concurrencyLimits.map (fun concurrency =>
          ⟨seed, rate, probability, m, degree, size, depth, concurrency⟩))))) out := by
  obtain ⟨prepared, hprep, hp⟩ := prepared_ok env hwf hn seed hrate hprob hm
  simp only [runWorkload, hprep]
  apply loopInPlace_nested
  intro degree hdegree out
  apply loopInPlace_nested
  intro size _ out
  exact runGraph_eq hwf hn hrate hprob hm hdegree hprep hp size out

/-- **The eight loops are one loop over the experiments.** -/
theorem runSweep_eq (hwf : options.WellFormed) (hn : options.numRequests < 2 ^ 53) (out : List Line) :
    runSweep env options table out = loopInPlace (printRows env options table) (experiments options) out := by
  apply loopInPlace_nested
  intro i _ out
  apply loopInPlace_nested
  intro rate hrate out
  apply loopInPlace_nested
  intro probability hprob out
  apply loopInPlace_nested
  intro m hm out
  exact runWorkload_eq hwf hn hrate hprob hm _ out

/-- **The one loop**: the rows of the experiments before the first one that throws, and what that throws. -/
theorem printRows_loop : ∀ (es : List Experiment) (out : List Line),
    ((∀ e ∈ es, ∃ r, measure env options table e = .ok r) ∧
      loopInPlace (printRows env options table) es out = .returns (out ++ es.flatMap (rows env options table))) ∨
    ∃ before e after exn, es = before ++ e :: after ∧ (∀ e ∈ before, ∃ r, measure env options table e = .ok r) ∧
      measure env options table e = .error exn ∧ loopInPlace (printRows env options table) es out =
        .throws (out ++ before.flatMap (rows env options table)) exn
  | [], out => .inl ⟨by simp, by rw [loopInPlace, List.flatMap_nil, List.append_nil]⟩
  | e :: es, out => by
    cases hmeasure : measure env options table e with
    | error exn =>
      right
      refine ⟨[], e, es, exn, rfl, by simp, hmeasure, ?_⟩
      rw [loopInPlace, printRows, hmeasure, List.flatMap_nil, List.append_nil]
    | ok r =>
      have hrows : rows env options table e = r.lines env.rounding e := by rw [rows, hmeasure]
      have hprint : printRows env options table out e = .returns (out ++ rows env options table e) := by
        rw [printRows, hmeasure, hrows]
      have hmeasured : ∀ before : List Experiment, (∀ a ∈ before, ∃ r, measure env options table a = .ok r) →
          ∀ a ∈ e :: before, ∃ r, measure env options table a = .ok r := by
        intro before hbefore
        rw [List.forall_mem_cons]
        exact ⟨⟨r, hmeasure⟩, hbefore⟩
      rcases printRows_loop es (out ++ rows env options table e) with
        ⟨hall, hloop⟩ | ⟨before, e', after, exn, rfl, hbefore, he', hloop⟩
      · left
        refine ⟨hmeasured es hall, ?_⟩
        rw [loopInPlace, hprint]
        simp only [hloop, List.flatMap_cons, List.append_assoc]
      · right
        refine ⟨e :: before, e', after, exn, rfl, hmeasured before hbefore, he', ?_⟩
        rw [loopInPlace, hprint]
        simp only [hloop, List.flatMap_cons, List.append_assoc]

theorem mem_experiments {e : Experiment} : e ∈ experiments options ↔
    (∃ i < options.seedCount, UInt32.ofNat options.baseSeed + UInt32.ofNat i = e.seed) ∧
      e.arrivalRateHz ∈ options.arrivalRatesHz ∧ e.stragglerProbability ∈ options.stragglerProbabilities ∧
      e.parityCount ∈ options.parityCounts ∧ e.degree ∈ options.degrees ∧ e.shardSizeMib ∈ options.shardSizesMib ∧
      e.queueDepth ∈ options.queueDepths ∧ e.concurrency ∈ options.concurrencyLimits := by
  rw [experiments_eq, List.mem_map]
  simp only [List.mem_product, Prod.exists, List.mem_range, experimentOf]
  constructor
  · rintro ⟨i, rate, prob, m, d, s, q, c, ⟨hi, h⟩, rfl⟩
    exact ⟨⟨i, hi, rfl⟩, h⟩
  · rintro ⟨⟨i, hi, hseed⟩, h⟩
    exact ⟨i, _, _, _, _, _, _, _, ⟨hi, h⟩, by rw [hseed]⟩

theorem exists_experiment (hwf : options.WellFormed) {degree size : Nat} (hdegree : degree ∈ options.degrees)
    (hsize : size ∈ options.shardSizesMib) : ∃ e ∈ experiments options, e.degree = degree ∧ e.shardSizeMib = size := by
  obtain ⟨hrates, hprobs, hparity, -, -, hdepths, hlimits⟩ := hwf.filled
  obtain ⟨rate, hrate⟩ := List.exists_mem_of_ne_nil _ hrates
  obtain ⟨prob, hprob⟩ := List.exists_mem_of_ne_nil _ hprobs
  obtain ⟨m, hm⟩ := List.exists_mem_of_ne_nil _ hparity
  obtain ⟨depth, hdepth⟩ := List.exists_mem_of_ne_nil _ hdepths
  obtain ⟨limit, hlimit⟩ := List.exists_mem_of_ne_nil _ hlimits
  refine ⟨⟨UInt32.ofNat options.baseSeed + UInt32.ofNat 0, rate, prob, m, degree, size, depth, limit⟩, ?_, rfl, rfl⟩
  exact mem_experiments.2 ⟨⟨0, hwf.counts.1, rfl⟩, hrate, hprob, hm, hdegree, hsize, hdepth, hlimit⟩

theorem listed_of_mem {e : Experiment} (he : e ∈ experiments options) : Listed options e := by
  obtain ⟨-, hrate, hprob, hm, hdegree, -, -, hconc⟩ := mem_experiments.1 he
  exact ⟨hrate, hprob, hm, hdegree, hconc⟩

end

/-! ## A whole run -/

/-- A run that has read its options and its calibration, experiment by experiment. -/
theorem main_eq (env : Environment) {argv : List Text} {options : SweepOptions} {table : DecodeCostTable}
    (hoptions : parseOptions env.stod argv = .ok options)
    (htable : DecodeCostTable.read env.stod (String.ofList options.calibrationCsv) (env.files options.calibrationCsv) =
      .ok table)
    (hn : options.numRequests < 2 ^ 53) :
    ((∀ e ∈ experiments options, ∃ r, measure env options table e = .ok r) ∧
      main env argv = ⟨.header :: (experiments options).flatMap (rows env options table), none, 0⟩) ∨
    ∃ before e after exn, experiments options = before ++ e :: after ∧
      (∀ e ∈ before, ∃ r, measure env options table e = .ok r) ∧ measure env options table e = .error exn ∧
      main env argv = ⟨.header :: before.flatMap (rows env options table),
        some ("phase7_parameter_sweep: " ++ exn.what), 1⟩ := by
  have hsweep := @runSweep_eq env options table (parseOptions_wellFormed hoptions) hn [.header]
  rcases @printRows_loop env options table (experiments options) [.header] with
    ⟨hall, hloop⟩ | ⟨before, e, after, exn, hsplit, hbefore, he, hloop⟩
  · left
    refine ⟨hall, ?_⟩
    rw [main, hoptions]
    simp only [htable, hsweep, hloop, List.singleton_append]
  · right
    refine ⟨before, e, after, exn, hsplit, hbefore, he, ?_⟩
    rw [main, hoptions]
    simp only [htable, hsweep, hloop, List.singleton_append]

theorem main_of_measured (env : Environment) {argv : List Text} {options : SweepOptions} {table : DecodeCostTable}
    (hoptions : parseOptions env.stod argv = .ok options)
    (htable : DecodeCostTable.read env.stod (String.ofList options.calibrationCsv) (env.files options.calibrationCsv) =
      .ok table)
    (hn : options.numRequests < 2 ^ 53) (h : ∀ e ∈ experiments options, ∃ r, measure env options table e = .ok r) :
    main env argv = ⟨.header :: (experiments options).flatMap (rows env options table), none, 0⟩ := by
  rcases main_eq env hoptions htable hn with ⟨-, hmain⟩ | ⟨before, e, after, exn, hsplit, -, herror, -⟩
  · exact hmain
  · obtain ⟨r, hr⟩ := h e (by rw [hsplit]; simp)
    rw [herror] at hr
    cases hr

theorem main_out (env : Environment) {argv : List Text}
    (hn : ∀ options, parseOptions env.stod argv = .ok options → options.numRequests < 2 ^ 53) :
    (main env argv).out = [] ∨ ∃ options table, ∃ es : List Experiment,
      (main env argv).out = .header :: es.flatMap (rows env options table) ∧
        ∀ e ∈ es, ∃ r, measure env options table e = .ok r ∧ Fair r := by
  cases hoptions : parseOptions env.stod argv with
  | error exn =>
    left
    rw [main, hoptions]
  | ok options =>
    cases htable :
      DecodeCostTable.read env.stod (String.ofList options.calibrationCsv) (env.files options.calibrationCsv) with
    | error exn =>
      left
      rw [main, hoptions]
      simp only [htable]
    | ok table =>
      right
      have hwf := parseOptions_wellFormed hoptions
      have hfair : ∀ e ∈ experiments options, (∃ r, measure env options table e = .ok r) →
          ∃ r, measure env options table e = .ok r ∧ Fair r := by
        rintro e he ⟨r, hr⟩
        exact ⟨r, hr, fair_of_measure hwf (hn options hoptions) (listed_of_mem he) hr⟩
      rcases main_eq env hoptions htable (hn options hoptions) with
        ⟨hall, hmain⟩ | ⟨before, e, after, exn, hsplit, hbefore, -, hmain⟩
      · refine ⟨options, table, experiments options, by rw [hmain], fun e he => hfair e he (hall e he)⟩
      · refine ⟨options, table, before, by rw [hmain], fun e' he' => hfair e' ?_ (hbefore e' he')⟩
        rw [hsplit]
        exact List.mem_append_left _ he'

/-- **A sweep runs each experiment once and prints what it measures on its own**, up to the first one whose measurement
throws, and it ends with what that throws.  An experiment without a cost throws, and so does one with more slots than a
vector has room for; with a cost, fewer slots and times in range it is measured. -/
theorem sweep_prints_experiments (env : Environment) {argv : List Text} {options : SweepOptions}
    {table : DecodeCostTable} (hoptions : parseOptions env.stod argv = .ok options)
    (htable : DecodeCostTable.read env.stod (String.ofList options.calibrationCsv) (env.files options.calibrationCsv) =
      .ok table)
    (hn : options.numRequests < 2 ^ 53) :
    (experiments options).Nodup ∧
      (∀ e ∈ experiments options,
        (Uncovered table e = true → measure env options table e = .error (.invalidArgument
          ("No measured decode cost for degree " ++ toString e.degree ++ " at " ++ toString e.shardSizeMib ++
            " MiB"))) ∧
        (Uncovered table e = false → RecoveryQueue.slotsMaxSize < e.concurrency →
          measure env options table e = .error vectorTooLarge) ∧
        (Uncovered table e = false → e.concurrency ≤ RecoveryQueue.slotsMaxSize → InRange env options table e →
          ∃ r, measure env options table e = .ok r) ∧
        ∀ r, measure env options table e = .ok r → rows env options table e = r.lines env.rounding e) ∧
      (((∀ e ∈ experiments options, ∃ r, measure env options table e = .ok r) ∧
          main env argv = ⟨.header :: (experiments options).flatMap (rows env options table), none, 0⟩) ∨
        ∃ before e after exn, experiments options = before ++ e :: after ∧
          (∀ e ∈ before, ∃ r, measure env options table e = .ok r) ∧ measure env options table e = .error exn ∧
          main env argv = ⟨.header :: before.flatMap (rows env options table),
            some ("phase7_parameter_sweep: " ++ exn.what), 1⟩) := by
  have hwf := parseOptions_wellFormed hoptions
  refine ⟨experiments_nodup hwf, fun e he => ⟨?_, ?_, ?_, ?_⟩, main_eq env hoptions htable hn⟩
  · exact measure_uncovered hwf hn (listed_of_mem he)
  · exact measure_tooManySlots hwf hn (listed_of_mem he)
  · exact measure_ok hwf hn (listed_of_mem he)
  · intro r hr
    rw [rows, hr]

/-- A request every half millisecond, no straggler and no rounding. -/
def steadyEnvironment : Environment where
  rounding := ⟨id, fun _ _ h => h, fun _ _ _ _ => rfl⟩
  stod := stodDigits
  sorter := .stable
  mt19937 _ := noShuffle
  files _ := some ("degree,shard_size_mib,end_to_end_us".toList ++ '\n' ::
    [(3, 16, 7)].flatMap (fun row => DecodeCostTable.rowLine row ++ ['\n']))
  exponential _ _ _ := some (1 / 2000)
  sampled _ _ _ := 2000
  longDouble := some
  llround x := x.elim 0 (fun x => ⌊x + 1 / 2⌋)
  exponential_nonneg _ _ _ seconds h := by
    rw [← Option.some.inj h]
    norm_num
  longDouble_nonneg _ _ h0 h := Option.some.inj h ▸ h0
  llround_exact _ _ _ := rfl

theorem steady_clock (config : WorkloadConfig) : ∀ (request : Nat),
    cumulativeMicroseconds steadyEnvironment config request = some ((request : ℚ) * 500)
  | 0 => by simp [cumulativeMicroseconds]
  | request + 1 => by
    rw [cumulativeMicroseconds, steady_clock config request]
    show some ((request : ℚ) * 500 + 1 / 2000 * 1000000) = _
    congr 1
    push_cast
    ring

theorem steady_inRange {config : WorkloadConfig} (h : config.numRequests < 2 ^ 51) :
    DrawsInRange steadyEnvironment config := by
  refine ⟨fun request hrequest => ⟨_, steady_clock config request, ?_⟩, fun seed draw => ?_⟩
  · exact_mod_cast (show request * 500 < 2 ^ 61 by omega)
  · show (2000 : ℚ) < 2 ^ 61
    norm_num

/-- A command line that leaves everything but the calibration to the defaults. -/
def defaultSweep : List Text := [⟨"--calibration-csv".toList, by decide⟩, ⟨"decode.csv".toList, by decide⟩]

def defaultOptions : SweepOptions := { calibrationCsv := "decode.csv".toList }

theorem parseOptions_defaultSweep : parseOptions steadyEnvironment.stod defaultSweep = .ok defaultOptions := rfl

theorem read_defaultSweep : ∃ table,
    DecodeCostTable.read steadyEnvironment.stod (String.ofList defaultOptions.calibrationCsv)
      (steadyEnvironment.files defaultOptions.calibrationCsv) = .ok table ∧
      ∀ e ∈ experiments defaultOptions, table.costs e.degree e.shardSizeMib = some 7 := by
  obtain ⟨table, hmake, hget⟩ := @DecodeCostTable.make_ok (fun _ => 7) [(3, 16)] (by decide) (by decide) (by decide)
  refine ⟨table, ?_, fun e he => ?_⟩
  · rw [← hmake]
    apply DecodeCostTable.read_rows stodDigits_exact
    intro row hrow
    rw [List.mem_singleton.1 hrow]
    unfold DecodeCostTable.InRange
    decide
  · obtain ⟨-, -, -, -, hdegree, hsize, -, -⟩ := mem_experiments.1 he
    have hcost := DecodeCostTable.get_eq_ok.1 ((hget 3 16).1 (by decide))
    rw [List.mem_singleton.1 hdegree, List.mem_singleton.1 hsize, hcost]
    rfl

theorem defaultSweep_covered {table : DecodeCostTable} {e : Experiment}
    (h : table.costs e.degree e.shardSizeMib = some 7) : Uncovered table e = false := by
  rw [Uncovered, h]
  rfl

theorem defaultSweep_inRange {table : DecodeCostTable} {e : Experiment}
    (h : table.costs e.degree e.shardSizeMib = some 7) : InRange steadyEnvironment defaultOptions table e := by
  refine ⟨steady_inRange (show defaultOptions.numRequests < 2 ^ 51 by decide), fun cost hcost => ?_⟩
  rw [h] at hcost
  obtain rfl := Option.some.inj hcost
  decide

theorem defaultSweep_slots {e : Experiment} (he : e ∈ experiments defaultOptions) :
    e.concurrency ≤ RecoveryQueue.slotsMaxSize := by
  obtain ⟨-, -, -, -, -, -, -, hconc⟩ := mem_experiments.1 he
  exact (show ∀ c ∈ defaultOptions.concurrencyLimits, c ≤ RecoveryQueue.slotsMaxSize by decide) _ hconc

theorem sweep_prints_experiments_defaultSweep : ∃ options table,
    parseOptions steadyEnvironment.stod defaultSweep = .ok options ∧
      DecodeCostTable.read steadyEnvironment.stod (String.ofList options.calibrationCsv)
        (steadyEnvironment.files options.calibrationCsv) = .ok table ∧
      (experiments options).Nodup ∧
      (∀ e ∈ experiments options, ∃ r, measure steadyEnvironment options table e = .ok r ∧
        rows steadyEnvironment options table e = r.lines steadyEnvironment.rounding e) ∧
      main steadyEnvironment defaultSweep =
        ⟨.header :: (experiments options).flatMap (rows steadyEnvironment options table), none, 0⟩ := by
  obtain ⟨table, htable, hcosts⟩ := read_defaultSweep
  obtain ⟨hnodup, hclass, hmain⟩ :=
    sweep_prints_experiments steadyEnvironment parseOptions_defaultSweep htable (by decide)
  have hmeasured : ∀ e ∈ experiments defaultOptions, ∃ r, measure steadyEnvironment defaultOptions table e = .ok r ∧
      rows steadyEnvironment defaultOptions table e = r.lines steadyEnvironment.rounding e := by
    intro e he
    obtain ⟨-, -, hmeasure, hrows⟩ := hclass e he
    obtain ⟨r, hr⟩ := hmeasure (defaultSweep_covered (hcosts e he)) (defaultSweep_slots he)
      (defaultSweep_inRange (hcosts e he))
    exact ⟨r, hr, hrows r hr⟩
  refine ⟨defaultOptions, table, parseOptions_defaultSweep, htable, hnodup, hmeasured, ?_⟩
  rcases hmain with ⟨-, hmain⟩ | ⟨before, e, after, exn, hsplit, -, herror, -⟩
  · exact hmain
  · obtain ⟨r, hr, -⟩ := hmeasured e (by rw [hsplit]; simp)
    rw [herror] at hr
    cases hr

/-- **Every printed row is fair to waiting**: its percentiles ascend, the same experiment has a row for waiting with
no smaller one, only the coded strategy recovers, and what that admits it wins. -/
theorem printed_rows_fair (env : Environment) {argv : List Text}
    (hn : ∀ options, parseOptions env.stod argv = .ok options → options.numRequests < 2 ^ 53) {row : Row}
    (hrow : .row row ∈ (main env argv).out) :
    (row.summary.p50Us ≤ row.summary.p95Us ∧ row.summary.p95Us ≤ row.summary.p99Us) ∧
      (∃ waiting : Row, .row waiting ∈ (main env argv).out ∧ waiting.experiment = row.experiment ∧
        waiting.strategy = .wait ∧ PercentilesLe row.summary waiting.summary) ∧
      (row.strategy ≠ .codedllm → NoRecovery row.summary) ∧
      (row.strategy = .codedllm → row.summary.admissionRatePercent = row.summary.winRatePercent) := by
  rcases main_out env hn with hout | ⟨options, table, es, hout, hmeasured⟩
  · rw [hout] at hrow
    cases hrow
  rw [hout, List.mem_cons] at hrow
  obtain ⟨e, he, hline⟩ := List.mem_flatMap.1 (hrow.resolve_left (fun h => by cases h))
  obtain ⟨r, hr, hfair⟩ := hmeasured e he
  have hrows : rows env options table e = r.lines env.rounding e := by rw [rows, hr]
  have hwaiting : printRow env.rounding e .wait 0 r.wait ∈ (main env argv).out := by
    rw [hout]
    apply List.mem_cons_of_mem
    apply List.mem_flatMap.2
    exact ⟨e, he, by rw [hrows]; exact List.mem_cons_self⟩
  rw [hrows] at hline
  simp only [Results.lines, printRow, List.mem_cons, List.not_mem_nil, or_false, Line.row.injEq] at hline
  rcases hline with rfl | rfl | rfl | rfl
  · refine ⟨hfair.ascending _ (by simp), ⟨_, hwaiting, rfl, rfl, le_rfl, le_rfl, le_rfl⟩, ?_, fun h => by cases h⟩
    intro _
    exact hfair.noRecovery _ (by simp)
  · refine ⟨hfair.ascending _ (by simp), ⟨_, hwaiting, rfl, rfl, hfair.noWorse _ (by simp)⟩, ?_, fun h => by cases h⟩
    intro _
    exact hfair.noRecovery _ (by simp)
  · refine ⟨hfair.ascending _ (by simp), ⟨_, hwaiting, rfl, rfl, hfair.noWorse _ (by simp)⟩, ?_, fun h => by cases h⟩
    intro _
    exact hfair.noRecovery _ (by simp)
  · refine ⟨hfair.ascending _ (by simp), ⟨_, hwaiting, rfl, rfl, hfair.noWorse _ (by simp)⟩, ?_, ?_⟩
    · intro hcoded
      exact absurd rfl hcoded
    · intro _
      exact hfair.wins

theorem printed_rows_fair_defaultSweep : ∃ row : Row, .row row ∈ (main steadyEnvironment defaultSweep).out ∧
    row.strategy = .replicationFull ∧ (row.summary.p50Us ≤ row.summary.p95Us ∧ row.summary.p95Us ≤ row.summary.p99Us) ∧
      (∃ waiting : Row, .row waiting ∈ (main steadyEnvironment defaultSweep).out ∧ waiting.experiment = row.experiment ∧
        waiting.strategy = .wait ∧ PercentilesLe row.summary waiting.summary) ∧ NoRecovery row.summary := by
  obtain ⟨table, htable, hcosts⟩ := read_defaultSweep
  have hwf := parseOptions_wellFormed parseOptions_defaultSweep
  obtain ⟨e, he⟩ : ∃ e, e ∈ experiments defaultOptions :=
    ⟨⟨20260901, 2000, 1 / 20, 8, 3, 16, 4, 2⟩, mem_experiments.2 ⟨⟨0, by decide, by decide⟩, List.mem_singleton_self _,
      List.mem_singleton_self _, by decide, by decide, by decide, by decide, by decide⟩⟩
  have hmeasured : ∀ e ∈ experiments defaultOptions, ∃ r, measure steadyEnvironment defaultOptions table e = .ok r :=
    fun e he => measure_ok hwf (by decide) (listed_of_mem he) (defaultSweep_covered (hcosts e he))
      (defaultSweep_slots he) (defaultSweep_inRange (hcosts e he))
  have hmain := main_of_measured steadyEnvironment parseOptions_defaultSweep htable (by decide) hmeasured
  obtain ⟨r, hr⟩ := hmeasured e he
  have hrow : printRow steadyEnvironment.rounding e .replicationFull systematicShards r.fullReplication ∈
      (main steadyEnvironment defaultSweep).out := by
    rw [hmain]
    refine List.mem_cons_of_mem _ (List.mem_flatMap.2 ⟨e, he, ?_⟩)
    rw [rows, hr]
    simp [Results.lines]
  obtain ⟨hascending, hwaiting, hnone, -⟩ := printed_rows_fair steadyEnvironment (fun options hoptions => by
    obtain rfl := Except.ok.inj (parseOptions_defaultSweep.symm.trans hoptions)
    decide) hrow
  exact ⟨_, hrow, rfl, hascending, hwaiting, hnone (fun h => by cases h)⟩

end Sweep
end CodedLLM
