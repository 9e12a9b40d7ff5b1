import CodedLLM.SweepOutput
/-!
# CostExtraction — from the decoder benchmarks to the sweep

`extract_phase7_decode_costs.py` picks the staged end-to-end times out of the benchmark's JSON document and writes
them as the calibration of the sweep.  It accepts a document exactly if no benchmark failed and each required pair is
measured once (`extractCosts_ok`), and a sweep on what it writes succeeds exactly if it asks for required pairs only.
An exception is its text, and a JSON document is the list of its benchmarks, each of them an object.
-/
namespace CodedLLM
namespace Extractor

open TextScan
open Sweep (Rounding)

/-- What the extractor finds in Python: the value of a decimal digit, which `\d` matches, and `int` of a text, which
takes decimal digits, but by default no more than 4300 of them. -/
structure Python where
  digit : Char → Option Nat
  int : List Char → Except String Int
  ascii : ∀ c : Char, c.toNat < 128 → digit c = if c.isDigit then some (c.toNat - '0'.toNat) else none
  int_digits : ∀ text ≠ [], text.all (fun c => (digit c).isSome) = true →
    int text = .ok (text.foldl (fun n c => 10 * n + (digit c).getD 0) 0) ∨
      4300 < text.length ∧ ∃ e, int text = .error e

/-! ## The required pairs -/

def parseRequiredItem (python : Python) (required : List (Nat × Nat)) (item : List Char) :
    Except String (List (Nat × Nat)) :=
  match item.dropWhile (· ≠ ':') with
  | [] => .error "required pairs must use DEGREE:SIZE_MIB"
  | _ :: sizeText =>
    match python.int (item.takeWhile (· ≠ ':')), python.int sizeText with
    | .ok degree, .ok shardSizeMib =>
      if degree ≤ 0 ∨ shardSizeMib ≤ 0 then .error "required pairs must be positive"
      else .ok (required.insert (degree.toNat, shardSizeMib.toNat))
    | _, _ => .error "required pairs must use DEGREE:SIZE_MIB"

def parseRequired (python : Python) (value : List Char) : Except String (List (Nat × Nat)) :=
  match loop (parseRequiredItem python) (value.splitOn ',') [] with
  | .error e => .error e
  | .ok required => if required = [] then .error "at least one required pair is needed" else .ok required

/-! ## The benchmarks -/

/-- `float` of a time: it may raise what the extractor takes for a missing time, or an `OverflowError` for an integer
that is too large, or be infinite or no number. -/
inductive RealTime where
  | missing | tooLarge | notFinite
  | finite (time : ℚ)
  deriving DecidableEq

/-- What the extractor looks at in a benchmark: whether an error is set, `str` of its name, its unit and its time. -/
structure Benchmark where
  reportedError : Bool
  name : List Char
  timeUnit : Option String
  realTime : RealTime
  deriving DecidableEq

/-- `END_TO_END_NAME` behind its first group. -/
def matchStaged (digit : Char → Bool) (text : List Char) : Option (List Char × List Char) :=
  match text.dropPrefix? "StagedReadyToResultLatency/".toList with
  | none => none
  | some rest =>
    match rest.dropWhile digit with
    | '/' :: rest' =>
      if rest.takeWhile digit = [] ∨ rest'.takeWhile digit = [] then none
      else
        match rest'.dropWhile digit with
        | [] | ['\n'] | '/' :: _ => some (rest.takeWhile digit, rest'.takeWhile digit)
        | _                      => none
    | _ => none

/-- The later positions of a search: behind a slash. -/
def searchStaged (digit : Char → Bool) : List Char → Option (List Char × List Char)
  | []     => none
  | c :: text =>
    if c = '/' then
      match matchStaged digit text with
      | some r => some r
      | none   => searchStaged digit text
    else searchStaged digit text

/-- The two groups of a name that matches. -/
def endToEndName (python : Python) (name : List Char) : Option (List Char × List Char) :=
  match matchStaged (fun c => (python.digit c).isSome) name with
  | some r => some r
  | none   => searchStaged (fun c => (python.digit c).isSome) name

def bytesPerMib : Nat := 1024 * 1024

def Benchmark.key? (python : Python) (required : List (Nat × Nat)) (benchmark : Benchmark) :
    Except String (Option (Nat × Nat)) :=
  match endToEndName python benchmark.name with
  | none => .ok none
  | some (degreeText, sizeText) => do
    let degree ← python.int degreeText
    let shardSizeBytes ← python.int sizeText
    if shardSizeBytes.toNat % bytesPerMib ≠ 0 then .ok none
    else if required.contains (degree.toNat, shardSizeBytes.toNat / bytesPerMib) then
      .ok (some (degree.toNat, shardSizeBytes.toNat / bytesPerMib))
    else .ok none

def timeToMicroseconds (rounding : Rounding) (unit : String) : Option ℚ :=
  if unit = "ns" then some (rounding.round (1 / 1000))
  else if unit = "us" then some 1
  else if unit = "ms" then some 1000
  else if unit = "s" then some 1000000
  else none

/-- The least number that rounds to an infinite `double`. -/
def overflows : ℚ := 2 ^ 1024 - 2 ^ 970

def Benchmark.cost (rounding : Rounding) (benchmark : Benchmark) : Except String Nat :=
  match benchmark.timeUnit.bind (timeToMicroseconds rounding) with
  | none => .error ("unsupported benchmark time unit: " ++ benchmark.timeUnit.getD "None")
  | some factor =>
    match benchmark.realTime with
    | .missing   => .error ("missing real_time for " ++ String.ofList benchmark.name)
    | .tooLarge  => .error "int too large to convert to float"
    | .notFinite => .error ("invalid real_time for " ++ String.ofList benchmark.name)
    | .finite realTime =>
      if realTime ≤ 0 then .error ("invalid real_time for " ++ String.ofList benchmark.name)
      else if overflows ≤ realTime * factor then .error "cannot convert float infinity to integer"
      else .ok ⌈rounding.round (realTime * factor)⌉.toNat

def CostDict.insert (costs : CostDict) (key : Nat × Nat) (cost : Nat) (h : (costs.get? key).isSome = false) :
    CostDict where
  items := costs.items ++ [(key, cost)]
  nodup := by
    rw [List.map_append, List.nodup_append]
    refine ⟨costs.nodup, List.nodup_singleton key, ?_⟩
    intro k hk k' hk' heq
    obtain rfl : k = key := heq.trans (List.mem_singleton.1 hk')
    rw [(costs.get?_isSome_iff k).2 hk] at h
    cases h

def extractCost (python : Python) (rounding : Rounding) (required : List (Nat × Nat)) (costs : CostDict)
    (benchmark : Benchmark) : Except String CostDict :=
  if benchmark.reportedError then .error ("benchmark reported an error: " ++ String.ofList benchmark.name)
  else
    match benchmark.key? python required with
    | .error e => .error e
    | .ok none => .ok costs
    | .ok (some key) =>
      match benchmark.cost rounding with
      | .error e => .error e
      | .ok cost =>
        if h : (costs.get? key).isSome = true then
          .error ("duplicate end-to-end benchmark for " ++ toString key.1 ++ ":" ++ toString key.2)
        else .ok (costs.insert key cost (Bool.not_eq_true _ ▸ h))

/-- `sorted(required.difference(costs))`. -/
def missingPairs (required : List (Nat × Nat)) (costs : CostDict) : List (Nat × Nat) :=
  (required.filter (fun key => !(costs.get? key).isSome)).insertionSort (fun a b => a.1 < b.1 ∨ (a.1 = b.1 ∧ a.2 ≤ b.2))

def extractCosts (python : Python) (rounding : Rounding) (document : Option (List Benchmark))
    (required : List (Nat × Nat)) : Except String CostDict :=
  match document with
  | none => .error "benchmark JSON does not contain benchmarks"
  | some benchmarks =>
    match loop (extractCost python rounding required) benchmarks ⟨[], List.nodup_nil⟩ with
    | .error e => .error e
    | .ok costs =>
      if missingPairs required costs = [] then .ok costs
      else .error ("missing required end-to-end benchmarks: " ++
        ", ".intercalate ((missingPairs required costs).map (fun key => toString key.1 ++ ":" ++ toString key.2)))

/-- `main`, from the options and the document to the file. -/
def extractorMain (python : Python) (rounding : Rounding) (required : List Char) (document : Option (List Benchmark)) :
    Except String (List Char) :=
  match parseRequired python required with
  | .error e => .error e
  | .ok required =>
    match extractCosts python rounding document required with
    | .error e => .error e
    | .ok costs =>
      match writeCosts costs with
      | none => .error "KeyError"
      | some text => .ok text

/-! ## What is accepted -/

/-- **The cost of a benchmark**: it has a known unit and a positive time whose microseconds are a finite number, and
the cost is the next integer. -/
def Benchmark.Timed (rounding : Rounding) (benchmark : Benchmark) (cost : Nat) : Prop :=
  ∃ factor time, benchmark.timeUnit.bind (timeToMicroseconds rounding) = some factor ∧
    benchmark.realTime = .finite time ∧ 0 < time ∧ time * factor < overflows ∧
    cost = ⌈rounding.round (time * factor)⌉.toNat

theorem Benchmark.cost_ok {rounding : Rounding} {b : Benchmark} {cost : Nat} :
    b.cost rounding = .ok cost ↔ b.Timed rounding cost := by
  unfold Benchmark.cost Benchmark.Timed
  cases hunit : b.timeUnit.bind (timeToMicroseconds rounding) with
  | none => simp
  | some factor =>
    cases htime : b.realTime with
    | finite time =>
      simp only [Option.some.injEq, RealTime.finite.injEq]
      constructor
      · intro h
        split at h
        · cases h
        rename_i hpos
        split at h
        · cases h
        rename_i hfits
        exact ⟨factor, time, rfl, rfl, not_le.1 hpos, not_le.1 hfits, (Except.ok.inj h).symm⟩
      · rintro ⟨_, _, rfl, rfl, hpos, hfits, rfl⟩
        rw [if_neg (not_le.2 hpos), if_neg (not_le.2 hfits)]
    | _ => simp

/-- `int` takes the numbers of a name. -/
def Benchmark.Readable (python : Python) (b : Benchmark) : Prop :=
  ∀ degreeText sizeText, endToEndName python b.name = some (degreeText, sizeText) →
    (∃ degree, python.int degreeText = .ok degree) ∧ ∃ size, python.int sizeText = .ok size

/-- A group of a match is a number in the name. -/
def Group (digit : Char → Bool) (name group : List Char) : Prop :=
  group ≠ [] ∧ group.all digit = true ∧ group.length ≤ name.length

theorem Group.mono {digit : Char → Bool} {name name' group : List Char} (h : Group digit name group)
    (hle : name.length ≤ name'.length) : Group digit name' group :=
  ⟨h.1, h.2.1, h.2.2.trans hle⟩

theorem matchStaged_groups {digit : Char → Bool} {text degreeText sizeText : List Char}
    (h : matchStaged digit text = some (degreeText, sizeText)) :
    Group digit text degreeText ∧ Group digit text sizeText := by
  have hgroup : ∀ rest : List Char, rest.length ≤ text.length → rest.takeWhile digit ≠ [] →
      Group digit text (rest.takeWhile digit) := fun rest hle hne =>
    ⟨hne, List.all_takeWhile, (List.takeWhile_prefix digit).length_le.trans hle⟩
  unfold matchStaged at h
  split at h
  · cases h
  rename_i rest hrest
  have hlen : rest.length ≤ text.length := by
    rw [List.dropPrefix?_eq_some_iff] at hrest
    obtain ⟨before, rfl, -⟩ := hrest
    rw [List.length_append]
    omega
  split at h
  · rename_i rest' hrest'
    split at h
    · cases h
    rename_i hne
    have hlen' : rest'.length ≤ text.length := by
      have hdrop := (List.dropWhile_suffix digit (l := rest)).length_le
      rw [hrest', List.length_cons] at hdrop
      omega
    have hgroups := And.intro (hgroup rest hlen (fun h => hne (.inl h))) (hgroup rest' hlen' (fun h => hne (.inr h)))
    split at h
    · cases h
      exact hgroups
    · cases h
      exact hgroups
    · cases h
      exact hgroups
    · cases h
  · cases h

theorem searchStaged_groups {digit : Char → Bool} {degreeText sizeText : List Char} : ∀ (text : List Char),
    searchStaged digit text = some (degreeText, sizeText) →
      Group digit text degreeText ∧ Group digit text sizeText
  | [], h => by cases h
  | c :: text, h => by
    have htail : ∀ group, Group digit text group → Group digit (c :: text) group := fun group hgroup =>
      hgroup.mono (Nat.le_succ _)
    unfold searchStaged at h
    split at h
    · split at h
      · rename_i hmatch
        obtain rfl := Option.some.inj h
        obtain ⟨hdegree, hsize⟩ := matchStaged_groups hmatch
        exact ⟨htail _ hdegree, htail _ hsize⟩
      · obtain ⟨hdegree, hsize⟩ := searchStaged_groups text h
        exact ⟨htail _ hdegree, htail _ hsize⟩
    · obtain ⟨hdegree, hsize⟩ := searchStaged_groups text h
      exact ⟨htail _ hdegree, htail _ hsize⟩

theorem Benchmark.readable_of_length (python : Python) {b : Benchmark} (h : b.name.length ≤ 4300) :
    b.Readable python := by
  intro degreeText sizeText hname
  have hgroups : Group (fun c => (python.digit c).isSome) b.name degreeText ∧
      Group (fun c => (python.digit c).isSome) b.name sizeText := by
    unfold endToEndName at hname
    split at hname
    · rename_i hmatch
      obtain rfl := Option.some.inj hname
      exact matchStaged_groups hmatch
    · exact searchStaged_groups b.name hname
  have hint : ∀ group, Group (fun c => (python.digit c).isSome) b.name group → ∃ n, python.int group = .ok n := by
    rintro group ⟨hne, hall, hlen⟩
    rcases python.int_digits group hne hall with hok | ⟨hlong, -⟩
    · exact ⟨_, hok⟩
    · omega
  exact ⟨hint _ hgroups.1, hint _ hgroups.2⟩

theorem Benchmark.readable_iff {python : Python} (required : List (Nat × Nat)) {b : Benchmark} :
    b.Readable python ↔ ∃ key, b.key? python required = .ok key := by
  unfold Readable Benchmark.key?
  cases endToEndName python b.name with
  | none => simp
  | some texts =>
    obtain ⟨degreeText, sizeText⟩ := texts
    simp only [Option.some.injEq, Prod.mk.injEq]
    cases hdegree : python.int degreeText with
    | error e =>
      constructor
      · intro h
        obtain ⟨⟨degree, h⟩, -⟩ := h degreeText sizeText ⟨rfl, rfl⟩
        rw [hdegree] at h
        cases h
      · rintro ⟨key, h⟩
        cases h
    | ok degree =>
      cases hsize : python.int sizeText with
      | error e =>
        constructor
        · intro h
          obtain ⟨-, size, h⟩ := h degreeText sizeText ⟨rfl, rfl⟩
          rw [hsize] at h
          cases h
        · rintro ⟨key, h⟩
          cases h
      | ok size =>
        constructor
        · intro _
          simp only [bind, Except.bind]
          split_ifs <;> exact ⟨_, rfl⟩
        · rintro - _ _ ⟨rfl, rfl⟩
          exact ⟨⟨degree, hdegree⟩, size, hsize⟩

/-- The required pair that a benchmark measures. -/
def Benchmark.keyOf (python : Python) (required : List (Nat × Nat)) (b : Benchmark) : Option (Nat × Nat) :=
  match b.key? python required with
  | .ok key  => key
  | .error _ => none

theorem Benchmark.keyOf_eq_some {python : Python} {required : List (Nat × Nat)} {b : Benchmark} {key : Nat × Nat} :
    b.keyOf python required = some key ↔ b.key? python required = .ok (some key) := by
  unfold Benchmark.keyOf
  cases b.key? python required with
  | error e => simp
  | ok key' => simp

theorem Benchmark.keyOf_required {python : Python} {required : List (Nat × Nat)} {b : Benchmark} {key : Nat × Nat}
    (h : b.keyOf python required = some key) : key ∈ required := by
  have hkey := Benchmark.keyOf_eq_some.1 h
  unfold Benchmark.key? at hkey
  split at hkey
  · cases hkey
  · obtain ⟨degree, -, hkey⟩ := bind_eq_ok.1 hkey
    obtain ⟨size, -, hkey⟩ := bind_eq_ok.1 hkey
    split at hkey
    · cases hkey
    · split at hkey
      case isTrue hmem =>
        obtain rfl := Option.some.inj (Except.ok.inj hkey)
        exact List.contains_iff_mem.1 hmem
      case isFalse => cases hkey

def Measures (python : Python) (rounding : Rounding) (required : List (Nat × Nat)) (benchmark : Benchmark)
    (entry : (Nat × Nat) × Nat) : Prop :=
  benchmark.keyOf python required = some entry.1 ∧ benchmark.Timed rounding entry.2

theorem CostDict.ext {costs costs' : CostDict} (h : costs.items = costs'.items) : costs = costs' := by
  cases costs
  cases costs'
  simp only at h
  simp only [h]

theorem CostDict.get?_of_mem (costs : CostDict) {key : Nat × Nat} {cost : Nat} (h : (key, cost) ∈ costs.items) :
    costs.get? key = some cost := by
  obtain ⟨cost', hcost'⟩ := Option.isSome_iff_exists.1 ((costs.get?_isSome_iff key).2 (List.mem_map_of_mem h))
  have heq := List.inj_on_of_nodup_map costs.nodup (CostDict.mem_of_get? hcost') h rfl
  rw [hcost', (Prod.mk.inj heq).2]

section Loop
variable {python : Python} {rounding : Rounding} {required : List (Nat × Nat)}

theorem extractCost_ok {costs costs' : CostDict} {benchmark : Benchmark} :
    extractCost python rounding required costs benchmark = .ok costs' ↔
      benchmark.reportedError = false ∧ benchmark.Readable python ∧
        (benchmark.keyOf python required = none ∧ costs'.items = costs.items ∨
          ∃ entry, Measures python rounding required benchmark entry ∧ costs'.items = costs.items ++ [entry]) := by
  rw [Benchmark.readable_iff required]
  unfold extractCost Measures Benchmark.keyOf
  cases herror : benchmark.reportedError with
  | true => simp
  | false =>
    cases hkey : benchmark.key? python required with
    | error e => simp
    | ok found =>
      cases found with
      | none =>
        simp only [Bool.false_eq_true, if_false, Except.ok.injEq, true_and, reduceCtorEq, false_and, exists_false,
          or_false, exists_eq']
        exact ⟨fun h => by rw [h], fun h => (CostDict.ext h).symm⟩
      | some key =>
        simp only [Bool.false_eq_true, if_false, reduceCtorEq, false_and, false_or, true_and, Option.some.injEq,
          Except.ok.injEq, exists_eq', ← Benchmark.cost_ok]
        cases hcost : benchmark.cost rounding with
        | error e => simp
        | ok cost =>
          simp only [Except.ok.injEq]
          constructor
          · intro h
            split at h
            · cases h
            · obtain rfl := Except.ok.inj h
              exact ⟨(key, cost), ⟨rfl, rfl⟩, rfl⟩
          · rintro ⟨⟨_, _⟩, ⟨rfl, rfl⟩, hitems⟩
            -- the keys of a dict differ, so this one was not there
            have hnodup := costs'.nodup
            rw [hitems, List.map_append, List.nodup_append] at hnodup
            have hfresh : ¬ (costs.get? key).isSome = true := by
              rw [costs.get?_isSome_iff]
              intro hmem
              exact hnodup.2.2 key hmem key (List.mem_singleton_self _) rfl
            rw [dif_neg hfresh]
            exact congrArg Except.ok (CostDict.ext hitems.symm)

def Relevant (python : Python) (required : List (Nat × Nat)) (benchmark : Benchmark) : Bool :=
  (benchmark.keyOf python required).isSome

/-- **The loop**: no benchmark failed, and each relevant one has contributed its entry, in order. -/
theorem extractLoop_ok : ∀ (benchmarks : List Benchmark) (costs costs' : CostDict),
    loop (extractCost python rounding required) benchmarks costs = .ok costs' ↔
      (∀ b ∈ benchmarks, b.reportedError = false ∧ b.Readable python) ∧
        ∃ added, List.Forall₂ (Measures python rounding required) (benchmarks.filter (Relevant python required)) added ∧
          costs'.items = costs.items ++ added
  | [], costs, costs' => by
    constructor
    · intro h
      obtain rfl := Except.ok.inj h
      exact ⟨by simp, [], .nil, (List.append_nil _).symm⟩
    · rintro ⟨-, added, hall, hitems⟩
      rw [List.filter_nil] at hall
      rw [List.forall₂_nil_left_iff.1 hall, List.append_nil] at hitems
      exact congrArg Except.ok (CostDict.ext hitems.symm)
  | b :: benchmarks, costs, costs' => by
    rw [loop_cons_ok, List.forall_mem_cons]
    constructor
    · rintro ⟨next, hnext, hrest⟩
      obtain ⟨herror, hread, hstep⟩ := extractCost_ok.1 hnext
      obtain ⟨herrors, added, hall, hitems⟩ := (extractLoop_ok benchmarks next costs').1 hrest
      rcases hstep with ⟨hkey, hsame⟩ | ⟨entry, hentry, hsame⟩
      · refine ⟨⟨⟨herror, hread⟩, herrors⟩, added, ?_, by rw [hitems, hsame]⟩
        rwa [List.filter_cons_of_neg (by rw [Relevant, hkey]; decide)]
      · refine ⟨⟨⟨herror, hread⟩, herrors⟩, entry :: added, ?_,
          by rw [hitems, hsame, List.append_assoc, List.singleton_append]⟩
        rw [List.filter_cons_of_pos (by rw [Relevant, hentry.1]; rfl)]
        exact .cons hentry hall
    · rintro ⟨⟨⟨herror, hread⟩, herrors⟩, added, hall, hitems⟩
      cases hkey : b.keyOf python required with
      | none =>
        rw [List.filter_cons_of_neg (by rw [Relevant, hkey]; decide)] at hall
        exact ⟨costs, extractCost_ok.2 ⟨herror, hread, .inl ⟨hkey, rfl⟩⟩,
          (extractLoop_ok benchmarks costs costs').2 ⟨herrors, added, hall, hitems⟩⟩
      | some key =>
        rw [List.filter_cons_of_pos (by rw [Relevant, hkey]; rfl)] at hall
        obtain ⟨entry, rest, hentry, hrest, rfl⟩ := List.forall₂_cons_left_iff.1 hall
        have hnodup : ((costs.items ++ [entry]).map Prod.fst).Nodup := by
          have hall' := costs'.nodup
          rw [hitems, ← List.singleton_append, ← List.append_assoc, List.map_append] at hall'
          exact hall'.of_append_left
        refine ⟨⟨costs.items ++ [entry], hnodup⟩, extractCost_ok.2 ⟨herror, hread, .inr ⟨entry, hentry, rfl⟩⟩, ?_⟩
        apply (extractLoop_ok benchmarks _ costs').2
        exact ⟨herrors, rest, hrest, by rw [hitems, List.append_assoc, List.singleton_append]⟩

theorem missingPairs_nil {costs : CostDict} :
    missingPairs required costs = [] ↔ ∀ key ∈ required, (costs.get? key).isSome = true := by
  rw [missingPairs, ← List.length_eq_zero_iff, List.length_insertionSort, List.length_eq_zero_iff,
    List.filter_eq_nil_iff]
  simp only [Bool.not_eq_true', Bool.not_eq_false]

theorem extractCosts_ok {benchmarks : List Benchmark} {costs : CostDict} :
    extractCosts python rounding (some benchmarks) required = .ok costs ↔
      (∀ b ∈ benchmarks, b.reportedError = false ∧ b.Readable python) ∧
        List.Forall₂ (Measures python rounding required) (benchmarks.filter (Relevant python required)) costs.items ∧
        ∀ key ∈ required, (costs.get? key).isSome = true := by
  have hloop := @extractLoop_ok python rounding required benchmarks ⟨[], List.nodup_nil⟩
  simp only [List.nil_append, exists_eq_right'] at hloop
  unfold extractCosts
  simp only
  cases h : loop (extractCost python rounding required) benchmarks ⟨[], List.nodup_nil⟩ with
  | error e =>
    simp only [reduceCtorEq, false_iff]
    rintro ⟨herrors, hall, -⟩
    rw [(hloop costs).2 ⟨herrors, hall⟩] at h
    cases h
  | ok costs₁ =>
    simp only
    constructor
    · intro hok
      split at hok
      case isFalse => cases hok
      case isTrue hmissing =>
        obtain rfl := Except.ok.inj hok
        obtain ⟨herrors, hall⟩ := (hloop costs₁).1 h
        exact ⟨herrors, hall, missingPairs_nil.1 hmissing⟩
    · rintro ⟨herrors, hall, hcovered⟩
      obtain rfl := Except.ok.inj (h.symm.trans ((hloop costs).2 ⟨herrors, hall⟩))
      rw [if_pos (missingPairs_nil.2 hcovered)]

theorem keys_of_measures {bs : List Benchmark} {entries : List ((Nat × Nat) × Nat)}
    (h : List.Forall₂ (Measures python rounding required) bs entries) :
    bs.filterMap (Benchmark.keyOf python required) = entries.map Prod.fst := by
  induction h with
  | nil => rfl
  | cons hb _ ih => rw [List.filterMap_cons_some hb.1, List.map_cons, ih]

theorem filterMap_relevant (benchmarks : List Benchmark) :
    (benchmarks.filter (Relevant python required)).filterMap (Benchmark.keyOf python required) =
      benchmarks.filterMap (Benchmark.keyOf python required) := by
  rw [List.filterMap_filter]
  apply List.filterMap_congr
  intro b _
  rw [Relevant]
  cases b.keyOf python required <;> rfl

def measured (python : Python) (required : List (Nat × Nat)) (benchmarks : List Benchmark) (key : Nat × Nat) : Nat :=
  benchmarks.countP (fun b => b.keyOf python required == some key)

theorem measured_eq (benchmarks : List Benchmark) (key : Nat × Nat) :
    measured python required benchmarks key = (benchmarks.filterMap (Benchmark.keyOf python required)).count key :=
  List.count_filterMap.symm

theorem forall₂_mem_left {α β : Type} {R : α → β → Prop} {as : List α} {bs : List β} (h : List.Forall₂ R as bs) {a : α}
    (ha : a ∈ as) : ∃ b ∈ bs, R a b := by
  induction h with
  | nil => cases ha
  | cons hab _ ih =>
    rcases List.mem_cons.1 ha with rfl | ha
    · exact ⟨_, List.mem_cons_self, hab⟩
    · obtain ⟨b, hb, hR⟩ := ih ha
      exact ⟨b, List.mem_cons_of_mem _ hb, hR⟩

theorem Benchmark.Timed.unique {b : Benchmark} {cost cost' : Nat} (h : b.Timed rounding cost)
    (h' : b.Timed rounding cost') : cost = cost' := by
  rw [← Benchmark.cost_ok] at h h'
  exact Except.ok.inj (h.symm.trans h')

theorem get?_of_measures {benchmarks : List Benchmark} {costs : CostDict}
    (h : List.Forall₂ (Measures python rounding required) (benchmarks.filter (Relevant python required)) costs.items)
    (key : Nat × Nat) (cost : Nat) :
    costs.get? key = some cost ↔ ∃ b ∈ benchmarks, Measures python rounding required b (key, cost) := by
  constructor
  · intro hget
    obtain ⟨b, hb, hmeasures⟩ := forall₂_mem_left h.flip (CostDict.mem_of_get? hget)
    exact ⟨b, (List.mem_filter.1 hb).1, hmeasures⟩
  · rintro ⟨b, hb, hkey, hcost⟩
    obtain ⟨entry, hentry, hkey', hcost'⟩ := forall₂_mem_left h (List.mem_filter.2 ⟨hb, by rw [Relevant, hkey]; rfl⟩)
    obtain rfl : entry = (key, cost) :=
      Prod.ext (Option.some.inj (hkey'.symm.trans hkey)) (hcost'.unique hcost)
    exact costs.get?_of_mem hentry

end Loop

/-- **A document is accepted exactly if nothing failed, `int` takes the numbers of the names, and every required pair
is measured once**, by a benchmark whose unit is known and whose time is a positive number of finitely many
microseconds; and then the costs are those of these benchmarks.  `int` takes the numbers of every name of at most 4300
characters. -/
theorem extraction_accepts_iff (python : Python) (rounding : Rounding) (benchmarks : List Benchmark)
    (required : List (Nat × Nat)) :
    ((∃ costs, extractCosts python rounding (some benchmarks) required = .ok costs) ↔
      (∀ b ∈ benchmarks, b.reportedError = false ∧ b.Readable python) ∧
        (∀ key ∈ required, measured python required benchmarks key = 1) ∧
        ∀ b ∈ benchmarks, Relevant python required b = true → ∃ cost, b.Timed rounding cost) ∧
      (∀ costs, extractCosts python rounding (some benchmarks) required = .ok costs → ∀ key cost,
        (costs.get? key = some cost ↔ ∃ b ∈ benchmarks, Measures python rounding required b (key, cost))) ∧
      ∀ b : Benchmark, b.name.length ≤ 4300 → b.Readable python := by
  refine ⟨⟨?_, ?_⟩, fun costs hcosts => get?_of_measures (extractCosts_ok.1 hcosts).2.1,
    fun b => b.readable_of_length python⟩
  · rintro ⟨costs, hcosts⟩
    obtain ⟨herrors, hall, hcovered⟩ := extractCosts_ok.1 hcosts
    have hkeys := keys_of_measures hall
    rw [filterMap_relevant] at hkeys
    refine ⟨herrors, fun key hkey => ?_, fun b hb hrelevant => ?_⟩
    · rw [measured_eq, hkeys]
      exact List.count_eq_one_of_mem costs.nodup ((costs.get?_isSome_iff key).1 (hcovered key hkey))
    · obtain ⟨entry, -, hmeasures⟩ := forall₂_mem_left hall (List.mem_filter.2 ⟨hb, hrelevant⟩)
      exact ⟨entry.2, hmeasures.2⟩
  · rintro ⟨herrors, honce, hcost⟩
    have hmeasures : ∀ b ∈ benchmarks.filter (Relevant python required),
        ∃ entry, Measures python rounding required b entry := by
      intro b hb
      obtain ⟨hb, hrelevant⟩ := List.mem_filter.1 hb
      obtain ⟨key, hkey⟩ := Option.isSome_iff_exists.1 hrelevant
      obtain ⟨cost, hcost⟩ := hcost b hb hrelevant
      exact ⟨(key, cost), hkey, hcost⟩
    obtain ⟨entries, hall⟩ := (exists_forall₂_iff _).2 hmeasures
    have hkeys := keys_of_measures hall
    rw [filterMap_relevant] at hkeys
    have hnodup : (entries.map Prod.fst).Nodup := by
      rw [← hkeys]
      apply List.nodup_iff_count_le_one.2
      intro key
      by_cases hmem : key ∈ benchmarks.filterMap (Benchmark.keyOf python required)
      · obtain ⟨b, -, hkey⟩ := List.mem_filterMap.1 hmem
        rw [← measured_eq, honce key (Benchmark.keyOf_required hkey)]
      · rw [List.count_eq_zero_of_not_mem hmem]
        exact Nat.zero_le 1
    refine ⟨⟨entries, hnodup⟩, extractCosts_ok.2 ⟨herrors, hall, fun key hkey => ?_⟩⟩
    rw [CostDict.get?_isSome_iff, ← hkeys]
    apply List.count_pos_iff.1
    rw [← measured_eq, honce key hkey]
    exact Nat.one_pos

/-! ## A sweep on the extracted costs -/

theorem parseRequiredItem_ok {python : Python} {required required' : List (Nat × Nat)} {item : List Char}
    (h : parseRequiredItem python required item = .ok required') : ∃ key : Nat × Nat, 0 < key.1 ∧ 0 < key.2 ∧
      required' = required.insert key := by
  unfold parseRequiredItem at h
  split at h
  · cases h
  · split at h
    case h_1 degree shardSizeMib _ _ =>
      split at h
      · cases h
      case isFalse hpos =>
        obtain rfl := Except.ok.inj h
        exact ⟨(degree.toNat, shardSizeMib.toNat), by omega, by omega, rfl⟩
    case h_2 => cases h

theorem parseRequired_ok {python : Python} {value : List Char} {required : List (Nat × Nat)}
    (h : parseRequired python value = .ok required) : required ≠ [] ∧ ∀ key ∈ required, 0 < key.1 ∧ 0 < key.2 := by
  unfold parseRequired at h
  split at h
  · cases h
  case h_2 pairs hpairs =>
    split at h
    · cases h
    case isFalse hne =>
      obtain rfl := Except.ok.inj h
      refine ⟨hne, loop_inv (I := fun pairs : List (Nat × Nat) => ∀ key ∈ pairs, 0 < key.1 ∧ 0 < key.2) _ ?_ _ _
        (fun key hkey => by cases hkey) hpairs⟩
      intro before item _ after hbefore hafter k hk
      obtain ⟨key, hdegree, hsize, rfl⟩ := parseRequiredItem_ok hafter
      rcases List.mem_insert_iff.1 hk with rfl | hk
      · exact ⟨hdegree, hsize⟩
      · exact hbefore k hk

theorem extractorMain_ok {python : Python} {rounding : Rounding} {value text : List Char} {benchmarks : List Benchmark}
    {required : List (Nat × Nat)} (hrequired : parseRequired python value = .ok required)
    (h : extractorMain python rounding value (some benchmarks) = .ok text) :
    ∃ costs, extractCosts python rounding (some benchmarks) required = .ok costs ∧ writeCosts costs = some text := by
  unfold extractorMain at h
  rw [hrequired] at h
  simp only at h
  split at h
  · cases h
  case h_2 costs hcosts =>
    split at h
    · cases h
    case h_2 written hwritten =>
      obtain rfl := Except.ok.inj h
      exact ⟨costs, hcosts, hwritten⟩

theorem read_extracted {stod : Stod} (hstod : StodExact stod) {python : Python} {rounding : Rounding}
    {value text : List Char} {benchmarks : List Benchmark} {required : List (Nat × Nat)}
    (hrequired : parseRequired python value = .ok required)
    (hmain : extractorMain python rounding value (some benchmarks) = .ok text)
    (hkeys : ∀ key ∈ required, key.1 < 2 ^ 64 ∧ key.2 < 2 ^ 64)
    (hcosts : ∀ b ∈ benchmarks, ∀ cost, b.Timed rounding cost → 0 < cost ∧ cost < 2 ^ 53) (path : String) :
    ∃ table, DecodeCostTable.read stod path (some text) = .ok table ∧
      (∀ degree size cost, table.costs degree size = some cost ↔
        ∃ b ∈ benchmarks, ∃ c : Nat, cost = c ∧ Measures python rounding required b ((degree, size), c)) ∧
      ∀ e, Sweep.Uncovered table e = false ↔ (e.degree, e.shardSizeMib) ∈ required := by
  obtain ⟨costs, hextract, htext⟩ := extractorMain_ok hrequired hmain
  obtain ⟨-, hall, hcovered⟩ := extractCosts_ok.1 hextract
  obtain ⟨hne, hpos⟩ := parseRequired_ok hrequired
  have hgets := get?_of_measures hall
  have hrange : ∀ key cost, costs.get? key = some cost →
      0 < key.1 ∧ key.1 < 2 ^ 64 ∧ 0 < key.2 ∧ key.2 < 2 ^ 64 ∧ 0 < cost ∧ cost < 2 ^ 53 := by
    intro key cost hget
    obtain ⟨b, hb, hkey, hcost⟩ := (hgets key cost).1 hget
    have hrequired := Benchmark.keyOf_required hkey
    exact ⟨(hpos key hrequired).1, (hkeys key hrequired).1, (hpos key hrequired).2, (hkeys key hrequired).2,
      hcosts b hb cost hcost⟩
  have hitems : costs.items ≠ [] := by
    obtain ⟨key, hkey⟩ := List.exists_mem_of_ne_nil _ hne
    obtain ⟨cost, hget⟩ := Option.isSome_iff_exists.1 (hcovered key hkey)
    exact List.ne_nil_of_mem (CostDict.mem_of_get? hget)
  obtain ⟨text', table, htext', hread, htable⟩ := DecodeCostTable.read_written hstod path hitems hrange
  obtain rfl := Option.some.inj (htext'.symm.trans htext)
  refine ⟨table, hread, fun degree size cost => ?_, fun e => ?_⟩
  · rw [htable, Option.map_eq_some_iff]
    constructor
    · rintro ⟨c, hget, rfl⟩
      obtain ⟨b, hb, hmeasures⟩ := (hgets _ c).1 hget
      exact ⟨b, hb, c, rfl, hmeasures⟩
    · rintro ⟨b, hb, c, rfl, hmeasures⟩
      exact ⟨c, (hgets _ c).2 ⟨b, hb, hmeasures⟩, rfl⟩
  · rw [Sweep.Uncovered, htable, Option.isNone_map, Option.isNone_eq_false_iff]
    constructor
    · intro hsome
      obtain ⟨cost, hget⟩ := Option.isSome_iff_exists.1 hsome
      obtain ⟨b, -, hkey, -⟩ := (hgets _ cost).1 hget
      exact Benchmark.keyOf_required hkey
    · exact hcovered _

/-- **A sweep on extracted costs** decodes with the costs that the benchmarks measured.  It succeeds if each of its
degrees and shard sizes was required of the extractor, its slots fit a vector and its times are in range, and fails if
a pair was not required. -/
theorem sweep_on_extracted_costs (env : Sweep.Environment) (hstod : StodExact env.stod) {python : Python}
    {value text : List Char} {benchmarks : List Benchmark} {required : List (Nat × Nat)} {argv : List Text}
    {options : SweepOptions} (hrequired : parseRequired python value = .ok required)
    (hmain : extractorMain python env.rounding value (some benchmarks) = .ok text)
    (hkeys : ∀ key ∈ required, key.1 < 2 ^ 64 ∧ key.2 < 2 ^ 64)
    (hcosts : ∀ b ∈ benchmarks, ∀ cost, b.Timed env.rounding cost → 0 < cost ∧ cost < 2 ^ 53)
    (hoptions : parseOptions env.stod argv = .ok options) (hfile : env.files options.calibrationCsv = some text)
    (hn : options.numRequests < 2 ^ 53) :
    ∃ table : DecodeCostTable,
      (∀ degree size cost, table.costs degree size = some cost ↔
        ∃ b ∈ benchmarks, ∃ c : Nat, cost = c ∧ Measures python env.rounding required b ((degree, size), c)) ∧
      ((∀ degree ∈ options.degrees, ∀ size ∈ options.shardSizesMib, (degree, size) ∈ required) →
        (∀ concurrency ∈ options.concurrencyLimits, concurrency ≤ RecoveryQueue.slotsMaxSize) →
        (∀ e ∈ Sweep.experiments options, Sweep.InRange env options table e) →
        Sweep.main env argv =
          ⟨.header :: (Sweep.experiments options).flatMap (Sweep.rows env options table), none, 0⟩) ∧
      ((∃ degree ∈ options.degrees, ∃ size ∈ options.shardSizesMib, (degree, size) ∉ required) →
        (Sweep.main env argv).code = 1) := by
  obtain ⟨table, hread, hcost, huncovered⟩ := read_extracted hstod hrequired hmain hkeys hcosts
    (String.ofList options.calibrationCsv)
  rw [← hfile] at hread
  have hwf := parseOptions_wellFormed hoptions
  refine ⟨table, hcost, fun hpairs hslots hrange => ?_, ?_⟩
  · apply Sweep.main_of_measured env hoptions hread hn
    intro e he
    obtain ⟨-, -, -, -, hdegree, hsize, -, hconc⟩ := Sweep.mem_experiments.1 he
    exact Sweep.measure_ok hwf hn (Sweep.listed_of_mem he) ((huncovered e).2 (hpairs _ hdegree _ hsize))
      (hslots _ hconc) (hrange e he)
  · rintro ⟨degree, hdegree, size, hsize, hmissing⟩
    obtain ⟨e, he, rfl, rfl⟩ := Sweep.exists_experiment hwf hdegree hsize
    have hmissed : Sweep.Uncovered table e = true := by
      rw [← Bool.not_eq_false, huncovered]
      exact hmissing
    rcases Sweep.main_eq env hoptions hread hn with ⟨hall, -⟩ | ⟨before, e', after, exn, -, -, -, hout⟩
    · obtain ⟨r, hr⟩ := hall e he
      rw [Sweep.measure_uncovered hwf hn (Sweep.listed_of_mem he) hmissed] at hr
      cases hr
    · rw [hout]

/-- Python as far as the texts below need it. -/
def pythonDigits : Python where
  digit c := if c.isDigit then some (c.toNat - '0'.toNat) else none
  int text :=
    if text = [] ∨ text.all Char.isDigit = false then .error "invalid literal for int() with base 10"
    else .ok (text.foldl (fun n c => 10 * n + (if c.isDigit then some (c.toNat - '0'.toNat) else none).getD 0) 0)
  ascii _ _ := rfl
  int_digits text hne hall := by
    left
    apply if_neg
    have hdigits : text.all Char.isDigit = true := by
      rw [List.all_eq_true] at hall ⊢
      intro c hc
      have hsome := hall c hc
      by_contra hnot
      simp only [hnot, Bool.false_eq_true, if_false, Option.isSome_none] at hsome
    rintro (hnil | hnot)
    · exact hne hnil
    · rw [hdigits] at hnot
      cases hnot

def threeBenchmarks : List Benchmark :=
  [⟨false, "KernelOnlyLatency/3/16777216".toList, some "ns", .finite 900⟩,
    ⟨false, "fixture/StagedReadyToResultLatency/3/16777216".toList, some "us", .finite (13 / 2)⟩,
    ⟨false, "fixture/StagedReadyToResultLatency/3/16777220".toList, some "us", .finite 8⟩]

theorem sweep_on_extracted_costs_threeBenchmarks : ∃ text required table,
    extractorMain pythonDigits Sweep.steadyEnvironment.rounding "3:16".toList (some threeBenchmarks) = .ok text ∧
      (∀ degree size cost, DecodeCostTable.costs table degree size = some cost ↔
        ∃ b ∈ threeBenchmarks, ∃ c : Nat, cost = c ∧
        Measures pythonDigits Sweep.steadyEnvironment.rounding required b ((degree, size), c)) ∧
      Sweep.main Sweep.steadyEnvironment Sweep.defaultSweep = ⟨.header ::
        (Sweep.experiments Sweep.defaultOptions).flatMap
          (Sweep.rows Sweep.steadyEnvironment Sweep.defaultOptions table), none,
        0⟩ := by
  have hrequired : parseRequired pythonDigits "3:16".toList = .ok [(3, 16)] := rfl
  have hmain : extractorMain pythonDigits Sweep.steadyEnvironment.rounding "3:16".toList (some threeBenchmarks) =
      .ok "degree,shard_size_mib,end_to_end_us\n3,16,7\n".toList := by decide +kernel
  have hmeasured : threeBenchmarks.map (Benchmark.cost Sweep.steadyEnvironment.rounding) = [.ok 1, .ok 7, .ok 8] := by
    decide +kernel
  have hcosts : ∀ b ∈ threeBenchmarks, ∀ cost, b.Timed Sweep.steadyEnvironment.rounding cost →
      0 < cost ∧ cost < 2 ^ 53 := by
    intro b hb cost hcost
    have hmem : Except.ok cost ∈ threeBenchmarks.map (Benchmark.cost Sweep.steadyEnvironment.rounding) :=
      List.mem_map.2 ⟨b, hb, Benchmark.cost_ok.2 hcost⟩
    rw [hmeasured] at hmem
    simp only [List.mem_cons, Except.ok.injEq, List.not_mem_nil, or_false] at hmem
    omega
  have hseven : ∀ e ∈ Sweep.experiments Sweep.defaultOptions, ∃ b ∈ threeBenchmarks, ∃ c : Nat, (7 : Int) = c ∧
      Measures pythonDigits Sweep.steadyEnvironment.rounding [(3, 16)] b ((e.degree, e.shardSizeMib), c) := by
    intro e he
    obtain ⟨-, -, -, -, hdegree, hsize, -, -⟩ := Sweep.mem_experiments.1 he
    rw [List.mem_singleton.1 hdegree, List.mem_singleton.1 hsize]
    refine ⟨⟨false, "fixture/StagedReadyToResultLatency/3/16777216".toList, some "us", .finite (13 / 2)⟩,
      List.mem_cons_of_mem _ (List.mem_cons_self ..), 7, rfl, ?_, ?_⟩
    · decide +kernel
    · rw [← Benchmark.cost_ok]
      decide +kernel
  obtain ⟨table, htable, hcovered, -⟩ :=
    sweep_on_extracted_costs Sweep.steadyEnvironment stodDigits_exact hrequired hmain
    (by decide) hcosts Sweep.parseOptions_defaultSweep (by decide +kernel) (by decide)
  refine ⟨_, _, table, hmain, htable, hcovered (by decide) (by decide) fun e he => ?_⟩
  exact Sweep.defaultSweep_inRange ((htable _ _ _).2 (hseven e he))

end Extractor
end CodedLLM
