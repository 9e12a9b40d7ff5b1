import CodedLLM.Calibration
/-!
# SweepCommand — the command line of the parameter sweep

`ParseOptions` reads pairs of an option and its value into `SweepOptions` and then checks them as a whole.  What it
accepts is `SweepOptions.WellFormed` (`parseOptions_wellFormed`): the later stages of the sweep rely on these bounds
and check most of them again.
-/
namespace CodedLLM

open TextScan

def systematicShards : Nat := 16

def uint32Max : Nat := 2 ^ 32 - 1

structure SweepOptions where
  baseSeed : Nat := 20260901
  seedCount : Nat := 20
  numRequests : Nat := 1000
  scenario : List Char := "custom".toList
  arrivalRatesHz : List ℚ := [2000]
  stragglerProbabilities : List ℚ := [1 / 20]
  parityCounts : List Nat := [8]
  degrees : List Nat := [3]
  shardSizesMib : List Nat := [16]
  queueDepths : List Nat := [4]
  concurrencyLimits : List Nat := [2]
  calibrationCsv : List Char := []

def parseDoubleItem (stod : Stod) (option : String) (allowZero : Bool) (values : List ℚ) (item : List Char) :
    Except Exn (List ℚ) :=
  match stod item with
  | .error e => .error e
  | .ok (parsed, parsedCharacters) =>
    match parsed with
    | none => .error (.invalidArgument ("Invalid value for " ++ option))
    | some parsed =>
      if parsedCharacters ≠ item.length ∨ (if allowZero then parsed < 0 else parsed ≤ 0) then
        .error (.invalidArgument ("Invalid value for " ++ option))
      else .ok (values ++ [parsed])

def parseDoubleList (stod : Stod) (value : Text) (option : String) (allowZero : Bool) : Except Exn (List ℚ) :=
  match splitCsv value option with
  | .error e => .error e
  | .ok items => loop (parseDoubleItem stod option allowZero) items []

def requireNoDuplicates {α : Type} [DecidableEq α] (values : List α) (option : String) : Except Exn Unit :=
  if values.Nodup then .ok () else .error (.invalidArgument ("Duplicate value for " ++ option))

def parseNumber (options : SweepOptions) (option : String) (parsed : Nat) : Except Exn SweepOptions :=
  if option = "--base-seed" then
    if parsed > uint32Max then .error (.invalidArgument "--base-seed exceeds uint32_t")
    else .ok { options with baseSeed := parsed }
  else if option = "--seed-count" then .ok { options with seedCount := parsed }
  else if option = "--num-requests" then .ok { options with numRequests := parsed }
  else .error (.invalidArgument ("Unknown sweep option: " ++ option))

def parseOption (stod : Stod) (options : SweepOptions) (option : String) (value : Text) : Except Exn SweepOptions :=
  if option = "--scenario" then
    if value.chars = [] then .error (.invalidArgument "--scenario must not be empty")
    else .ok { options with scenario := value.chars }
  else if option = "--calibration-csv" then .ok { options with calibrationCsv := value.chars }
  else if option = "--arrival-rates-hz" then do
    let rates ← parseDoubleList stod value option false
    .ok { options with arrivalRatesHz := rates }
  else if option = "--straggler-probabilities" then do
    let probabilities ← parseDoubleList stod value option true
    if probabilities.any (1 < ·) then .error (.invalidArgument "Straggler probability must not exceed one")
    else .ok { options with stragglerProbabilities := probabilities }
  else if option = "--parity-counts" then do
    let counts ← parseSizeList value option false
    .ok { options with parityCounts := counts }
  else if option = "--degrees" then do
    let degrees ← parseSizeList value option false
    .ok { options with degrees := degrees }
  else if option = "--shard-sizes-mib" then do
    let sizes ← parseSizeList value option false
    .ok { options with shardSizesMib := sizes }
  else if option = "--queue-depths" then do
    let depths ← parseSizeList value option true
    .ok { options with queueDepths := depths }
  else if option = "--gpu-concurrencies" then do
    let limits ← parseSizeList value option false
    .ok { options with concurrencyLimits := limits }
  else do
    let parsed ← parseUnsigned value.chars option
    parseNumber options option parsed

def parseArguments (stod : Stod) (options : SweepOptions) : List Text → Except Exn SweepOptions
  | []                     => .ok options
  | [_]                    => .error (.invalidArgument "Every sweep option requires a value")
  | option :: value :: argv => do
    let options ← parseOption stod options (String.ofList option.chars) value
    parseArguments stod options argv

def throwIf (p : Prop) [Decidable p] (text : String) : Except Exn Unit :=
  if p then .error (.invalidArgument text) else .ok ()

def checkOptions (options : SweepOptions) : Except Exn Unit := do
  throwIf (options.seedCount = 0 ∨ options.numRequests = 0) "Seed and request counts must be positive"
  throwIf (options.seedCount - 1 > uint32Max - options.baseSeed) "Requested seed range exceeds uint32_t"
  throwIf (options.calibrationCsv = []) "--calibration-csv is required"
  requireNoDuplicates options.arrivalRatesHz "--arrival-rates-hz"
  requireNoDuplicates options.stragglerProbabilities "--straggler-probabilities"
  requireNoDuplicates options.parityCounts "--parity-counts"
  requireNoDuplicates options.degrees "--degrees"
  requireNoDuplicates options.shardSizesMib "--shard-sizes-mib"
  requireNoDuplicates options.queueDepths "--queue-depths"
  requireNoDuplicates options.concurrencyLimits "--gpu-concurrencies"
  throwIf (∃ m ∈ options.parityCounts, systematicShards < m) "Parity count exceeds systematic shard count"
  throwIf (∃ d ∈ options.degrees, systematicShards < d) "Degree exceeds systematic shard count"

def parseOptions (stod : Stod) (argv : List Text) : Except Exn SweepOptions := do
  let options ← parseArguments stod {} argv
  checkOptions options
  .ok options

/-! ## What is accepted -/

structure SweepOptions.Parsed (options : SweepOptions) : Prop where
  baseSeed : options.baseSeed < 2 ^ 32
  scenario : options.scenario ≠ []
  rates : ∀ rate ∈ options.arrivalRatesHz, 0 < rate
  probabilities : ∀ p ∈ options.stragglerProbabilities, 0 ≤ p ∧ p ≤ 1
  parityCounts : ∀ m ∈ options.parityCounts, 0 < m
  degrees : ∀ d ∈ options.degrees, 0 < d
  sizes : ∀ size ∈ options.shardSizesMib, 0 < size
  limits : ∀ c ∈ options.concurrencyLimits, 0 < c
  filled : options.arrivalRatesHz ≠ [] ∧ options.stragglerProbabilities ≠ [] ∧ options.parityCounts ≠ [] ∧
    options.degrees ≠ [] ∧ options.shardSizesMib ≠ [] ∧ options.queueDepths ≠ [] ∧ options.concurrencyLimits ≠ []

structure SweepOptions.WellFormed (options : SweepOptions) : Prop extends SweepOptions.Parsed options where
  counts : 0 < options.seedCount ∧ 0 < options.numRequests
  seeds : options.baseSeed + options.seedCount ≤ 2 ^ 32
  calibration : options.calibrationCsv ≠ []
  distinct : options.arrivalRatesHz.Nodup ∧ options.stragglerProbabilities.Nodup ∧ options.parityCounts.Nodup ∧
    options.degrees.Nodup ∧ options.shardSizesMib.Nodup ∧ options.queueDepths.Nodup ∧ options.concurrencyLimits.Nodup
  parityCounts_le : ∀ m ∈ options.parityCounts, m ≤ systematicShards
  degrees_le : ∀ d ∈ options.degrees, d ≤ systematicShards

theorem parsed_default : SweepOptions.Parsed {} := by
  refine ⟨by decide, by decide, ?_, ?_, by decide, by decide, by decide, by decide, by decide⟩
  · intro rate hrate
    rw [List.mem_singleton.1 hrate]
    norm_num
  · intro p hp
    rw [List.mem_singleton.1 hp]
    norm_num

theorem parseSizeList_spec {value : Text} {option : String} {allowZero : Bool} {ns : List Nat}
    (h : parseSizeList value option allowZero = .ok ns) : ns ≠ [] ∧ (allowZero = false → ∀ n ∈ ns, 0 < n) := by
  have hall := parseSizeList_ok_iff.1 h
  constructor
  · rintro rfl
    exact List.splitOn_ne_nil ',' value.chars (List.forall₂_nil_right_iff.1 hall)
  · intro hzero n hn
    obtain ⟨item, -, digits, -, -, -, hne⟩ := (exists_forall₂_iff ns).1 ⟨_, hall.flip⟩ n hn
    rcases hne with htrue | hne
    · rw [hzero] at htrue
      cases htrue
    · exact Nat.pos_of_ne_zero hne

theorem parseDoubleItem_ok {stod : Stod} {option : String} {allowZero : Bool} {values values' : List ℚ}
    {item : List Char} (h : parseDoubleItem stod option allowZero values item = .ok values') :
    ∃ parsed, values' = values ++ [parsed] ∧ 0 ≤ parsed ∧ (allowZero = false → 0 < parsed) := by
  unfold parseDoubleItem at h
  rcases hstod : stod item with e | ⟨read, parsedCharacters⟩
  · rw [hstod] at h
    cases h
  · rw [hstod] at h
    cases read with
    | none => cases h
    | some parsed =>
      by_cases hcheck : parsedCharacters ≠ item.length ∨ (if allowZero then parsed < 0 else parsed ≤ 0)
      · simp only [if_pos hcheck] at h
        cases h
      · simp only [if_neg hcheck] at h
        refine ⟨parsed, (Except.ok.inj h).symm, ?_⟩
        have hsign := (not_or.1 hcheck).2
        cases allowZero with
        | true => exact ⟨not_lt.1 hsign, fun hfalse => by cases hfalse⟩
        | false =>
          have hpos : 0 < parsed := not_le.1 hsign
          exact ⟨hpos.le, fun _ => hpos⟩

theorem parseDoubleList_spec {stod : Stod} {value : Text} {option : String} {allowZero : Bool} {values : List ℚ}
    (h : parseDoubleList stod value option allowZero = .ok values) :
    values ≠ [] ∧ ∀ v ∈ values, 0 ≤ v ∧ (allowZero = false → 0 < v) := by
  have hloop : ∀ (items : List (List Char)) (before after : List ℚ),
      loop (parseDoubleItem stod option allowZero) items before = .ok after →
      before.length + items.length = after.length ∧
        ((∀ v ∈ before, 0 ≤ v ∧ (allowZero = false → 0 < v)) → ∀ v ∈ after, 0 ≤ v ∧ (allowZero = false → 0 < v)) := by
    intro items
    induction items with
    | nil =>
      intro before after hafter
      obtain rfl := Except.ok.inj hafter
      exact ⟨rfl, id⟩
    | cons item items ih =>
      intro before after hafter
      rw [loop] at hafter
      split at hafter
      · cases hafter
      case h_2 next hitem =>
        obtain ⟨parsed, rfl, hparsed⟩ := parseDoubleItem_ok hitem
        obtain ⟨hlen, hkeep⟩ := ih _ after hafter
        rw [List.length_append, List.length_singleton] at hlen
        refine ⟨by rw [List.length_cons]; omega, fun hbefore => hkeep (fun v hv => ?_)⟩
        rcases List.mem_append.1 hv with hv | hv
        · exact hbefore v hv
        · rw [List.mem_singleton.1 hv]
          exact hparsed
  unfold parseDoubleList at h
  rw [splitCsv_eq] at h
  by_cases hempty : [] ∈ value.chars.splitOn ','
  · rw [if_pos hempty] at h
    cases h
  · rw [if_neg hempty] at h
    obtain ⟨hlen, hkeep⟩ := hloop _ _ _ h
    refine ⟨?_, hkeep (fun v hv => by cases hv)⟩
    rintro rfl
    have hne := List.length_pos_iff.2 (List.splitOn_ne_nil ',' value.chars)
    simp only [List.length_nil] at hlen
    omega

theorem parseOption_parsed {stod : Stod} {options options' : SweepOptions} {option : String} {value : Text}
    (hp : options.Parsed) (h : parseOption stod options option value = .ok options') : options'.Parsed := by
  obtain ⟨hrate, hprob, hparity, hdegree, hsize, hdepth, hlimit⟩ := hp.filled
  unfold parseOption at h
  split at h
  · split at h
    · cases h
    case isFalse hne =>
      obtain rfl := Except.ok.inj h
      exact { hp with scenario := hne }
  split at h
  · obtain rfl := Except.ok.inj h
    exact { hp with }
  split at h
  · obtain ⟨rates, hlist, heq⟩ := bind_eq_ok.1 h
    obtain rfl := Except.ok.inj heq
    obtain ⟨hne, hall⟩ := parseDoubleList_spec hlist
    exact { hp with
      rates := fun rate hr => (hall rate hr).2 rfl
      filled := ⟨hne, hprob, hparity, hdegree, hsize, hdepth, hlimit⟩ }
  split at h
  · obtain ⟨probabilities, hlist, heq⟩ := bind_eq_ok.1 h
    split at heq
    · cases heq
    case isFalse hle =>
      obtain rfl := Except.ok.inj heq
      obtain ⟨hne, hall⟩ := parseDoubleList_spec hlist
      refine { hp with probabilities := fun p hmem => ⟨(hall p hmem).1, ?_⟩,
                       filled := ⟨hrate, hne, hparity, hdegree, hsize, hdepth, hlimit⟩ }
      by_contra hgt
      exact hle (List.any_eq_true.2 ⟨p, hmem, decide_eq_true (not_le.1 hgt)⟩)
  split at h
  · obtain ⟨counts, hlist, heq⟩ := bind_eq_ok.1 h
    obtain rfl := Except.ok.inj heq
    obtain ⟨hne, hall⟩ := parseSizeList_spec hlist
    exact { hp with parityCounts := hall rfl, filled := ⟨hrate, hprob, hne, hdegree, hsize, hdepth, hlimit⟩ }
  split at h
  · obtain ⟨degrees, hlist, heq⟩ := bind_eq_ok.1 h
    obtain rfl := Except.ok.inj heq
    obtain ⟨hne, hall⟩ := parseSizeList_spec hlist
    exact { hp with degrees := hall rfl, filled := ⟨hrate, hprob, hparity, hne, hsize, hdepth, hlimit⟩ }
  split at h
  · obtain ⟨sizes, hlist, heq⟩ := bind_eq_ok.1 h
    obtain rfl := Except.ok.inj heq
    obtain ⟨hne, hall⟩ := parseSizeList_spec hlist
    exact { hp with sizes := hall rfl, filled := ⟨hrate, hprob, hparity, hdegree, hne, hdepth, hlimit⟩ }
  split at h
  · obtain ⟨depths, hlist, heq⟩ := bind_eq_ok.1 h
    obtain rfl := Except.ok.inj heq
    obtain ⟨hne, -⟩ := parseSizeList_spec hlist
    exact { hp with filled := ⟨hrate, hprob, hparity, hdegree, hsize, hne, hlimit⟩ }
  split at h
  · obtain ⟨limits, hlist, heq⟩ := bind_eq_ok.1 h
    obtain rfl := Except.ok.inj heq
    obtain ⟨hne, hall⟩ := parseSizeList_spec hlist
    exact { hp with limits := hall rfl, filled := ⟨hrate, hprob, hparity, hdegree, hsize, hdepth, hne⟩ }
  obtain ⟨parsed, -, hnumber⟩ := bind_eq_ok.1 h
  unfold parseNumber at hnumber
  split at hnumber
  · split at hnumber
    · cases hnumber
    case isFalse hle =>
      obtain rfl := Except.ok.inj hnumber
      refine { hp with baseSeed := ?_ }
      show parsed < 2 ^ 32
      unfold uint32Max at hle
      omega
  split at hnumber
  · obtain rfl := Except.ok.inj hnumber
    exact { hp with }
  split at hnumber
  · obtain rfl := Except.ok.inj hnumber
    exact { hp with }
  · cases hnumber

theorem parseArguments_parsed {stod : Stod} : ∀ (argv : List Text) (options options' : SweepOptions), options.Parsed →
    parseArguments stod options argv = .ok options' → options'.Parsed
  | [], options, options', hp, h => by
    obtain rfl := Except.ok.inj h
    exact hp
  | [_], options, options', _, h => by cases h
  | option :: value :: argv, options, options', hp, h => by
    obtain ⟨next, hnext, hrest⟩ := bind_eq_ok.1 h
    exact parseArguments_parsed argv next options' (parseOption_parsed hp hnext) hrest

theorem requireNoDuplicates_ok {α : Type} [DecidableEq α] {values : List α} {option : String} :
    requireNoDuplicates values option = .ok () ↔ values.Nodup := by
  unfold requireNoDuplicates
  split
  · exact iff_of_true rfl ‹_›
  · exact iff_of_false (fun h => by cases h) ‹_›

theorem throwIf_ok {p : Prop} [Decidable p] {text : String} : throwIf p text = .ok () ↔ ¬ p := by
  unfold throwIf
  split
  · exact iff_of_false (fun h => by cases h) (not_not.2 ‹_›)
  · exact iff_of_true rfl ‹_›

theorem andThen_ok {x y : Except Exn Unit} : (do x; y) = .ok () ↔ x = .ok () ∧ y = .ok () := by
  rw [bind_eq_ok]
  constructor
  · rintro ⟨⟨⟩, hx, hy⟩
    exact ⟨hx, hy⟩
  · rintro ⟨hx, hy⟩
    exact ⟨(), hx, hy⟩

theorem checkOptions_ok {options : SweepOptions} (hp : options.Parsed) :
    checkOptions options = .ok () ↔ options.WellFormed := by
  have hbase := hp.baseSeed
  have hmax : uint32Max = 2 ^ 32 - 1 := rfl
  simp only [checkOptions, andThen_ok, throwIf_ok, requireNoDuplicates_ok]
  constructor
  · rintro ⟨hcounts, hseeds, hcsv, h1, h2, h3, h4, h5, h6, h7, hparity, hdegree⟩
    obtain ⟨hseed, hrequest⟩ := not_or.1 hcounts
    refine ⟨hp, ⟨Nat.pos_of_ne_zero hseed, Nat.pos_of_ne_zero hrequest⟩, by omega, hcsv, ⟨h1, h2, h3, h4, h5, h6, h7⟩,
      ?_, ?_⟩
    · intro m hm
      by_contra hlt
      exact hparity ⟨m, hm, not_le.1 hlt⟩
    · intro d hd
      by_contra hlt
      exact hdegree ⟨d, hd, not_le.1 hlt⟩
  · intro h
    obtain ⟨h1, h2, h3, h4, h5, h6, h7⟩ := h.distinct
    have hseeds := h.seeds
    refine ⟨?_, by omega, h.calibration, h1, h2, h3, h4, h5, h6, h7, ?_, ?_⟩
    · exact not_or.2 ⟨Nat.ne_of_gt h.counts.1, Nat.ne_of_gt h.counts.2⟩
    · rintro ⟨m, hm, hlt⟩
      exact absurd (h.parityCounts_le m hm) (Nat.not_le.2 hlt)
    · rintro ⟨d, hd, hlt⟩
      exact absurd (h.degrees_le d hd) (Nat.not_le.2 hlt)

/-- **The accepted command lines give well-formed options.** -/
theorem parseOptions_wellFormed {stod : Stod} {argv : List Text} {options : SweepOptions}
    (h : parseOptions stod argv = .ok options) : options.WellFormed := by
  obtain ⟨parsed, hparsed, hrest⟩ := bind_eq_ok.1 h
  obtain ⟨u, hcheck, heq⟩ := bind_eq_ok.1 hrest
  obtain rfl := Except.ok.inj heq
  exact (checkOptions_ok (parseArguments_parsed argv _ _ parsed_default hparsed)).1 hcheck

end CodedLLM
