import CodedLLM.ClusterTurns
/-!
# ParameterSweep — the strategies the parameter sweep compares

`RunBaseline` waits for the latest systematic arrival of each request; `RunCodedStrategy` is a fresh cluster simulator
whose oracle knows that arrival and whose estimator adds up a calibrated cost for each operation of a plan.  The
baseline is the simulator without recovery exactly on the streams `baseline_eq_simulator_iff` names; on the streams of
the workload generator the coded strategy always returns (`coded_run_returns`) and never loses to the baseline
(`coded_never_loses`).
-/
namespace CodedLLM

open Runs
open ClusterSimulator (Started Complete CompleteBy requestIds)

/-! ## The cost table -/

structure DecodeCostTable where
  costs : Nat → Nat → Option Int
  positive : ∀ degree shardSizeMib cost, costs degree shardSizeMib = some cost → 0 < cost

namespace DecodeCostTable

/-- The body of the constructor's loop, on the values parsed from one row. -/
def addRow (table : DecodeCostTable) (row : Nat × Nat × Int) : Except Exn DecodeCostTable :=
  if h : row.1 = 0 ∨ row.2.1 = 0 ∨ row.2.2 ≤ 0 then
    .error (.invalidArgument "Decode calibration values must be positive")
  else if (table.costs row.1 row.2.1).isSome then .error (.invalidArgument "Duplicate decode calibration row")
  else .ok
    { costs := fun degree size => if degree = row.1 ∧ size = row.2.1 then some row.2.2 else table.costs degree size
      positive := by
        intro degree size cost hcost
        split at hcost
        · obtain rfl := Option.some.inj hcost
          omega
        · exact table.positive degree size cost hcost }

/-- The constructor, from the parsed rows on. -/
def make (rows : List (Nat × Nat × Int)) : Except Exn DecodeCostTable :=
  match loop addRow rows ⟨fun _ _ => none, by simp⟩ with
  | .error e => .error e
  | .ok table =>
    if rows = [] then .error (.invalidArgument "Decode calibration CSV contains no measurements") else .ok table

def get (table : DecodeCostTable) (degree shardSizeMib : Nat) : Except Exn Int :=
  match table.costs degree shardSizeMib with
  | none => .error (.invalidArgument ("No measured decode cost for degree " ++ toString degree ++ " at " ++
      toString shardSizeMib ++ " MiB"))
  | some cost => .ok cost

theorem get_eq_ok {table : DecodeCostTable} {degree size : Nat} {cost : Int} :
    table.get degree size = .ok cost ↔ table.costs degree size = some cost := by
  rw [get]
  cases table.costs degree size with
  | none => simp
  | some cost' => simp

theorem get_eq_error {table : DecodeCostTable} {degree size : Nat} :
    (∃ e, table.get degree size = .error e) ↔ table.costs degree size = none := by
  rw [get]
  cases table.costs degree size with
  | none => simp
  | some cost => simp

end DecodeCostTable

/-! ## The strategies -/

def recordCompletion (k : Nat) (times : Nat → Option Int) (event : GlobalArrivalEvent) : Nat → Option Int :=
  if event.shardId < k then
    match times event.requestId with
    | none => Function.update times event.requestId (some event.arrivalTime)
    | some completion => Function.update times event.requestId (some (max completion event.arrivalTime))
  else times

def getNaturalCompletionTimes (events : List GlobalArrivalEvent) (k : Nat) : Nat → Option Int :=
  events.foldl (recordCompletion k) (fun _ => none)

def recordStart (starts : Nat → Option Int) (event : GlobalArrivalEvent) : Except Exn (Nat → Option Int) :=
  if tryEmplace starts event.requestId event.requestStartTime event.requestId ≠ some event.requestStartTime then
    .error (.invalidArgument "Events for one request must share a request start time")
  else .ok (tryEmplace starts event.requestId event.requestStartTime)

def baselineMetrics (completions starts : Nat → Option Int) (request : Nat) : Except Exn RequestMetrics :=
  match starts request with
  | none => .error mapAt
  | some start =>
    match completions request with
    | none => .error (.runtimeError "Baseline requires a natural arrival for every systematic shard")
    | some completion => .ok ⟨completion - start, false, false, false, false, false⟩

def runBaseline (events : List GlobalArrivalEvent) (k : Nat) : Except Exn MetricsMap :=
  match loop recordStart events (fun _ => none) with
  | .error e => .error e
  | .ok starts => collect (baselineMetrics (getNaturalCompletionTimes events k) starts) (requestIds events)

/-- The estimator: the measured costs of the operations, added up. -/
def estimateServiceTime (decodeCosts : DecodeCostTable) (shardSizeMib : Nat) (plan : DecodePlan) : Except Exn Int :=
  match loop (fun total (operation : XorOperation) =>
      match decodeCosts.get operation.sources.length shardSizeMib with
      | .error e => .error e
      | .ok cost => .ok (total + cost)) plan.operations 0 with
  | .error e => .error e
  | .ok total =>
    if total ≤ 0 then .error (.invalidArgument "Recoverable decode plan must contain operations") else .ok total

/-- The oracle: the wait that is really left. -/
def remainingWait (completions : Nat → Option Int) : WaitCostOracle := fun request now =>
  match completions request with
  | none => .error mapAt
  | some completion => .ok (if now < completion then completion - now else 0)

def runCodedStrategy (sorter : EventSort) (graph : BipartiteGraph) (events : List GlobalArrivalEvent)
    (concurrency queueDepth shardSizeMib : Nat) (decodeCosts : DecodeCostTable) : Except Exn MetricsMap :=
  match RecoveryQueue.make concurrency queueDepth with
  | .error e => .error e
  | .ok queue =>
    match ClusterSimulator.make graph queue (some (estimateServiceTime decodeCosts shardSizeMib)) with
    | .error e => .error e
    | .ok simulator =>
      (simulator.run sorter events
        (some (remainingWait (getNaturalCompletionTimes events graph.systematicShardCount)))).2

/-! ## The baseline -/

def SystematicArrival (k : Nat) (events : List GlobalArrivalEvent) (request : Nat) (t : Int) : Prop :=
  ∃ e ∈ events, e.requestId = request ∧ e.shardId < k ∧ e.arrivalTime = t

theorem systematicArrival_of_complete {k : Nat} (hk : 0 < k) {events : List GlobalArrivalEvent} {request : Nat}
    (h : Complete k events request) : ∃ t, SystematicArrival k events request t := by
  obtain ⟨a, ha, hreq, hid⟩ := h 0 hk
  exact ⟨a.arrivalTime, a, ha, hreq, hid ▸ hk, rfl⟩

theorem recordCompletion_of_ne {k : Nat} {times : Nat → Option Int} {event : GlobalArrivalEvent} {r : Nat}
    (h : r ≠ event.requestId ∨ k ≤ event.shardId) : recordCompletion k times event r = times r := by
  unfold recordCompletion
  split
  · rename_i hlt
    have hne : r ≠ event.requestId := h.resolve_right (Nat.not_le.2 hlt)
    cases times event.requestId with
    | none => exact Function.update_of_ne hne ..
    | some completion => exact Function.update_of_ne hne ..
  · rfl

theorem recordCompletion_self {k : Nat} {times : Nat → Option Int} {event : GlobalArrivalEvent}
    (h : event.shardId < k) : recordCompletion k times event event.requestId =
      some ((times event.requestId).elim event.arrivalTime (max · event.arrivalTime)) := by
  unfold recordCompletion
  rw [if_pos h]
  cases times event.requestId with
  | none => exact Function.update_self ..
  | some completion => exact Function.update_self ..

/-- **The completion of a request is its latest systematic arrival**, if it has one. -/
theorem getNaturalCompletionTimes_spec (events : List GlobalArrivalEvent) (k r : Nat) :
    (∀ M, getNaturalCompletionTimes events k r = some M → IsGreatest {t | SystematicArrival k events r t} M) ∧
      (getNaturalCompletionTimes events k r = none → ∀ t, ¬ SystematicArrival k events r t) := by
  unfold getNaturalCompletionTimes
  -- from the right: what the last event adds to the completions before it
  induction events using List.reverseRecOn with
  | nil => exact ⟨fun M h => (by cases h), fun _ t ⟨e, he, _⟩ => (by cases he)⟩
  | append_singleton events event ih =>
    rw [List.foldl_append, List.foldl_cons, List.foldl_nil]
    have hsplit : ∀ t, SystematicArrival k (events ++ [event]) r t ↔
        SystematicArrival k events r t ∨ event.requestId = r ∧ event.shardId < k ∧ event.arrivalTime = t := by
      intro t
      simp only [SystematicArrival, List.mem_append, List.mem_singleton, or_and_right, exists_or, exists_eq_left]
    by_cases hev : r ≠ event.requestId ∨ k ≤ event.shardId
    · rw [recordCompletion_of_ne hev]
      have hsame : ∀ t, SystematicArrival k (events ++ [event]) r t ↔ SystematicArrival k events r t := by
        intro t
        rw [hsplit t]
        refine or_iff_left (fun ⟨hr, hk, _⟩ => ?_)
        rcases hev with hne | hge
        · exact hne hr.symm
        · exact absurd hk (Nat.not_lt.2 hge)
      simpa only [hsame] using ih
    · push Not at hev
      obtain ⟨rfl, hk⟩ := hev
      rw [recordCompletion_self hk]
      refine ⟨fun M hM => ?_, fun hnone => by cases hnone⟩
      obtain rfl := Option.some.inj hM
      cases hold : events.foldl (recordCompletion k) (fun _ => none) event.requestId with
      | none =>
        refine ⟨(hsplit _).2 (.inr ⟨rfl, hk, rfl⟩), fun t ht => ?_⟩
        rcases (hsplit t).1 ht with ht | ⟨-, -, rfl⟩
        · exact absurd ht (ih.2 hold t)
        · exact le_rfl
      | some M₀ =>
        have hM₀ := ih.1 M₀ hold
        refine ⟨(hsplit _).2 ?_, fun t ht => ?_⟩
        · rcases max_choice M₀ event.arrivalTime with hmax | hmax
          · exact .inl (by rw [Option.elim_some, hmax]; exact hM₀.1)
          · exact .inr ⟨rfl, hk, by rw [Option.elim_some, hmax]⟩
        · rcases (hsplit t).1 ht with ht | ⟨-, -, rfl⟩
          · exact (hM₀.2 ht).trans (le_max_left ..)
          · exact le_max_right ..

/-- The events of a request have one start time. -/
def SharedStarts (events : List GlobalArrivalEvent) : Prop :=
  ∀ e ∈ events, ∀ e' ∈ events, e.requestId = e'.requestId → e.requestStartTime = e'.requestStartTime

theorem recordStarts_ok {events : List GlobalArrivalEvent} (h : SharedStarts events) :
    ∃ starts, loop recordStart events (fun _ => none) = .ok starts ∧
      ∀ e ∈ events, starts e.requestId = some e.requestStartTime := by
  suffices hrun : ∃ starts, Runs.run (fun s e => (recordStart s e).toOption) (fun _ => none) events = some starts ∧
      (∀ e ∈ events, starts e.requestId = some e.requestStartTime) ∧
      ∀ r, (∀ e ∈ events, e.requestId ≠ r) → starts r = none by
    obtain ⟨starts, hs, hstarts, -⟩ := hrun
    exact ⟨starts, (loop_eq_run _ _ _).2 hs, hstarts⟩
  refine run_prefix_total
    (I := fun done (starts : Nat → Option Int) => (∀ e ∈ done, starts e.requestId = some e.requestStartTime) ∧
    ∀ r, (∀ e ∈ done, e.requestId ≠ r) → starts r = none) (fun done event rest starts hw ⟨hseen, hunseen⟩ => ?_)
      events []
    _ rfl ⟨by simp, fun _ _ => rfl⟩
  rw [List.nil_append] at hw
  have hself :
      tryEmplace starts event.requestId event.requestStartTime event.requestId = some event.requestStartTime := by
    rw [tryEmplace_self]
    by_cases hknown : ∃ e ∈ done, e.requestId = event.requestId
    · obtain ⟨e, he, hreq⟩ := hknown
      rw [← hreq, hseen e he, Option.getD_some, h e (by rw [hw]; simp [he]) event (by rw [hw]; simp) hreq]
    · push Not at hknown
      rw [hunseen _ hknown, Option.getD_none]
  refine ⟨tryEmplace starts event.requestId event.requestStartTime, ?_, fun e he => ?_, fun r hr => ?_⟩
  · simp only [recordStart, hself, ne_eq, not_true_eq_false, if_false]
    rfl
  · rcases List.mem_append.1 he with he | he
    · by_cases hreq : e.requestId = event.requestId
      · rw [hreq, hself, h event (by rw [hw]; simp) e (by rw [hw]; simp [he]) hreq.symm]
      · rw [tryEmplace_of_ne _ hreq, hseen e he]
    · rw [List.mem_singleton.1 he, hself]
  · rw [tryEmplace_of_ne _ (hr event (by simp)).symm]
    exact hunseen r (fun e he => hr e (by simp [he]))

/-- **What the baseline reports**: the latest systematic arrival of every request, or nothing when a request has
none. -/
theorem runBaseline_spec {events : List GlobalArrivalEvent} (h : SharedStarts events) (k : Nat) :
    ((∃ e ∈ events, ∀ t, ¬ SystematicArrival k events e.requestId t) → ∃ x, runBaseline events k = .error x) ∧
      ((∀ e ∈ events, ∃ t, SystematicArrival k events e.requestId t) → ∃ m, runBaseline events k = .ok m ∧
        m.map Prod.fst = requestIds events ∧ ∀ p ∈ m, ∃ M, IsGreatest {t | SystematicArrival k events p.1 t} M ∧
          ∀ e ∈ events, e.requestId = p.1 → p.2.latency = M - e.requestStartTime) := by
  obtain ⟨starts, hloop, hstarts⟩ := recordStarts_ok h
  unfold runBaseline
  rw [hloop]
  simp only
  refine ⟨fun ⟨e, he, hnone⟩ => ?_, fun hall => ?_⟩
  · have hbad : baselineMetrics (getNaturalCompletionTimes events k) starts e.requestId =
        .error (.runtimeError "Baseline requires a natural arrival for every systematic shard") := by
      unfold baselineMetrics
      rw [hstarts e he]
      cases hM : getNaturalCompletionTimes events k e.requestId with
      | none => rfl
      | some M => exact absurd ((getNaturalCompletionTimes_spec events k e.requestId).1 M hM).1 (hnone M)
    exact ClusterSimulator.collect_error (ClusterSimulator.mem_requestIds.2 ⟨e, he, rfl⟩) hbad
  · obtain ⟨m, hm⟩ := ClusterSimulator.collect_total (requestIds events) (fun r hr => by
      obtain ⟨e, he, rfl⟩ := ClusterSimulator.mem_requestIds.1 hr
      show ∃ x, baselineMetrics (getNaturalCompletionTimes events k) starts e.requestId = .ok x
      unfold baselineMetrics
      rw [hstarts e he]
      cases hM : getNaturalCompletionTimes events k e.requestId with
      | none =>
        obtain ⟨t, ht⟩ := hall e he
        exact absurd ht ((getNaturalCompletionTimes_spec events k e.requestId).2 hM t)
      | some M => exact ⟨_, rfl⟩)
    obtain ⟨hkeys, hvalues⟩ := ClusterSimulator.collect_ok hm
    refine ⟨m, hm, hkeys, fun p hp => ?_⟩
    have hp' := hvalues p hp
    unfold baselineMetrics at hp'
    split at hp'
    · cases hp'
    rename_i start hstart
    split at hp'
    · cases hp'
    rename_i M hM
    refine ⟨M, (getNaturalCompletionTimes_spec events k p.1).1 M hM, fun e he hreq => ?_⟩
    have hse := hstarts e he
    rw [hreq, hstart] at hse
    rw [← Except.ok.inj hp', Option.some.inj hse]

/-! ## The baseline and the simulator without recovery -/

def SameLatencies (x y : Except Exn MetricsMap) : Prop :=
  (∃ e e', x = .error e ∧ y = .error e') ∨
    ∃ m m', x = .ok m ∧ y = .ok m' ∧ m.map (fun p => (p.1, p.2.latency)) = m'.map (fun p => (p.1, p.2.latency))

/-- **Some systematic shard is as late as the whole request**: its arrivals come no earlier than any other. -/
def LastShard (k : Nat) (events : List GlobalArrivalEvent) (request : Nat) : Prop :=
  ∃ i < k, ∀ a ∈ events, a.requestId = request → a.shardId = i →
    ∀ b ∈ events, b.requestId = request → b.shardId < k → b.arrivalTime ≤ a.arrivalTime

/-- **The latest systematic arrival completes the request** exactly when one shard is as late as the whole request. -/
theorem latest_eq_least_iff {k : Nat} {events : List GlobalArrivalEvent} {request : Nat} {M T : Int}
    (hM : IsGreatest {t | SystematicArrival k events request t} M)
    (hT : IsLeast {t | CompleteBy k events request t} T) :
    M = T ↔ LastShard k events request := by
  constructor
  · rintro rfl
    -- a moment earlier the request is incomplete: the shard that is missing then comes last
    have hnot : ¬ CompleteBy k events request (M - 1) := fun h => by
      have := hT.2 h
      omega
    unfold CompleteBy at hnot
    push Not at hnot
    obtain ⟨i, hi, hlate⟩ := hnot
    refine ⟨i, hi, fun a ha hreq hid b hb hreq' hb' => ?_⟩
    have hlast := hlate a ha hreq hid
    have hle := hM.2 ⟨b, hb, hreq', hb', rfl⟩
    omega
  · rintro ⟨i, hi, hlast⟩
    apply le_antisymm
    · obtain ⟨b, hb, hreq, hk, rfl⟩ := hM.1
      obtain ⟨a, ha, hreq', hid, hle⟩ := hT.1 i hi
      exact (hlast a ha hreq' hid b hb hreq hk).trans hle
    · apply hT.2
      intro j hj
      obtain ⟨e, he, hreq, hid⟩ := hT.1.complete j hj
      exact ⟨e, he, hreq, hid, hM.2 ⟨e, he, hreq, hid ▸ hj, rfl⟩⟩

theorem requestIds_nodup (events : List GlobalArrivalEvent) : (requestIds events).Nodup :=
  (sortUnique_sorted _).imp Nat.ne_of_lt

theorem latencies_eq_iff : ∀ {m m' : MetricsMap}, m.map Prod.fst = m'.map Prod.fst → (m.map Prod.fst).Nodup →
    (m.map (fun p => (p.1, p.2.latency)) = m'.map (fun p => (p.1, p.2.latency)) ↔
      ∀ p ∈ m, ∀ p' ∈ m', p.1 = p'.1 → p.2.latency = p'.2.latency)
  | [], m', h, _ => by
    obtain rfl : m' = [] := by simpa using h.symm
    simp
  | q :: m, [], h, _ => by simp at h
  | q :: m, q' :: m', h, hn => by
    obtain ⟨hkey, htail⟩ := List.cons.inj h
    rw [List.map_cons, List.nodup_cons] at hn
    have hfresh : ∀ p' ∈ m', p'.1 ≠ q.1 := fun p' hp' hk => hn.1 (by rw [htail, ← hk]; exact List.mem_map_of_mem hp')
    have hfresh' : ∀ p ∈ m, p.1 ≠ q'.1 := fun p hp hk => hn.1 (by rw [hkey, ← hk]; exact List.mem_map_of_mem hp)
    rw [List.map_cons, List.map_cons, List.cons.injEq, latencies_eq_iff htail hn.2, Prod.mk.injEq]
    constructor
    · rintro ⟨⟨-, hlat⟩, hrest⟩ p hp p' hp' hk
      rcases List.mem_cons.1 hp with rfl | hp <;> rcases List.mem_cons.1 hp' with rfl | hp'
      · exact hlat
      · exact absurd hk.symm (hfresh p' hp')
      · exact absurd hk (hfresh' p hp)
      · exact hrest p hp p' hp' hk
    · intro hall
      exact ⟨⟨hkey, hall q (by simp) q' (by simp) hkey⟩, fun p hp p' hp' => hall p (by simp [hp]) p' (by simp [hp'])⟩

/-- **One request, waited for and simulated without recovery**: the latencies agree exactly when one shard is as late
as the whole request. -/
theorem latency_eq_iff {k : Nat} {events : List GlobalArrivalEvent} {e : GlobalArrivalEvent} (he : e ∈ events)
    {x x' : RequestMetrics} {M T : Int} (hM : IsGreatest {t | SystematicArrival k events e.requestId t} M)
    (hx : x.latency = M - e.requestStartTime) (hx' : ClusterSimulator.Reported k events none e.requestId x' T) :
    x.latency = x'.latency ↔ LastShard k events e.requestId := by
  obtain ⟨C, hC, -⟩ | ⟨-, hlat, -⟩ := hx'.outcome e he rfl
  · cases hC
  · rw [hx, hlat, ← latest_eq_least_iff hM hx'.natural]
    constructor
    · intro h
      omega
    · rintro rfl
      rfl

/-- **When waiting is the simulator without recovery**: `RunBaseline` and a cluster simulator whose queue has no room
agree on a stream exactly when some request has no systematic arrival at all, or every request has all its systematic
shards, one of which is as late as the whole request. -/
theorem baseline_eq_simulator_iff (sorter : EventSort) {g : BipartiteGraph} {concurrency : Nat} {queue : RecoveryQueue}
    (hqueue : RecoveryQueue.make concurrency 0 = .ok queue) {estimate : RecoveryServiceTimeEstimator}
    (hest : ∀ plan, ∃ serviceTime, estimate plan = .ok serviceTime ∧ 0 < serviceTime) {sim : ClusterSimulator}
    (hsim : ClusterSimulator.make g queue (some estimate) = .ok sim) (oracle : WaitCostOracle)
    {events : List GlobalArrivalEvent} (hids : ∀ e ∈ events, e.shardId < g.systematicShardCount + g.parityShardCount)
    (htimes : ∀ e ∈ events, 0 ≤ e.arrivalTime) (hstart : Started events) :
    SameLatencies (runBaseline events g.systematicShardCount) (sim.run sorter events (some oracle)).2 ↔
      (∃ e ∈ events, ∀ e' ∈ events, e'.requestId = e.requestId → g.systematicShardCount ≤ e'.shardId) ∨
        ∀ e ∈ events, Complete g.systematicShardCount events e.requestId ∧
          LastShard g.systematicShardCount events e.requestId := by
  obtain ⟨hg, rfl⟩ := ClusterSimulator.make_ok hsim
  obtain ⟨-, -, hdepth, -, hclock⟩ := RecoveryQueue.make_ok hqueue
  have hserve : ClusterSimulator.Servable g estimate oracle queue events :=
    ⟨hids, htimes, fun e he => hclock ▸ htimes e he, fun _ _ plan _ _ _ => hest plan, fun hpos => by omega⟩
  obtain ⟨trackers, starts, s', -, hloop, hthrows, hreturns⟩ :=
    ClusterSimulator.run_reports sorter ⟨g, queue, fun _ => none, estimate⟩ hg hstart hserve
  have hnever := ClusterSimulator.no_recovery hdepth hloop
  obtain ⟨hbad, hgood⟩ := runBaseline_spec hstart.1 g.systematicShardCount
  have hsys : ∀ e ∈ events, Complete g.systematicShardCount events e.requestId →
      ∃ t, SystematicArrival g.systematicShardCount events e.requestId t := by
    exact fun e _ hc => systematicArrival_of_complete hg.systematicPos hc
  constructor
  · rintro (⟨x, x', hx, hx'⟩ | ⟨m, m', hm, hm', heq⟩)
    · left
      by_contra hall
      push Not at hall
      obtain ⟨m, hm, -⟩ := hgood (fun e he => by
        obtain ⟨a, ha, hreq, hk⟩ := hall e he
        exact ⟨a.arrivalTime, a, ha, hreq, hk, rfl⟩)
      rw [hx] at hm
      cases hm
    · right
      have hall : ∀ e ∈ events, Complete g.systematicShardCount events e.requestId := by
        by_contra hnot
        push Not at hnot
        obtain ⟨x, hx⟩ := hthrows hnot
        rw [hm'] at hx
        cases hx
      intro e he
      refine ⟨hall e he, ?_⟩
      obtain ⟨m₁, hm₁, hkeys, hlats⟩ := hgood (fun e he => hsys e he (hall e he))
      obtain ⟨m₂, hm₂, hkeys', hreps⟩ := hreturns hall
      obtain rfl : m₁ = m := Except.ok.inj (hm₁.symm.trans hm)
      obtain rfl : m₂ = m' := Except.ok.inj (hm₂.symm.trans hm')
      -- the entries of this request in the two maps
      have hr : e.requestId ∈ requestIds events := ClusterSimulator.mem_requestIds.2 ⟨e, he, rfl⟩
      obtain ⟨p, hp, hpr⟩ := List.mem_map.1 (hkeys ▸ hr)
      obtain ⟨p', hp', hpr'⟩ := List.mem_map.1 (hkeys' ▸ hr)
      have hlat := (latencies_eq_iff (hkeys.trans hkeys'.symm) (hkeys ▸ requestIds_nodup events)).1 heq p hp p' hp'
        (hpr.trans hpr'.symm)
      obtain ⟨M, hM, hpl⟩ := hlats p hp
      obtain ⟨T, -, hT⟩ := hreps p' hp'
      rw [hpr] at hM
      rw [hnever, hpr'] at hT
      exact (latency_eq_iff he hM (hpl e he hpr.symm) hT).1 hlat
  · rintro (⟨e, he, hnone⟩ | hall)
    · obtain ⟨x, hx⟩ := hbad ⟨e, he, fun t ⟨a, ha, hreq, hk, _⟩ => Nat.not_le.2 hk (hnone a ha hreq)⟩
      obtain ⟨x', hx'⟩ := hthrows ⟨e, he, fun hc => by
        obtain ⟨t, a, ha, hreq, hk, -⟩ := systematicArrival_of_complete hg.systematicPos hc
        exact Nat.not_le.2 hk (hnone a ha hreq)⟩
      exact .inl ⟨x, x', hx, hx'⟩
    · obtain ⟨m, hm, hkeys, hlats⟩ := hgood (fun e he => hsys e he (hall e he).1)
      obtain ⟨m', hm', hkeys', hreps⟩ := hreturns (fun e he => (hall e he).1)
      refine .inr ⟨m, m', hm, hm', ?_⟩
      rw [latencies_eq_iff (hkeys.trans hkeys'.symm) (hkeys ▸ requestIds_nodup events)]
      intro p hp p' hp' hpp
      have hr : p.1 ∈ requestIds events := by
        rw [← hkeys]
        exact List.mem_map_of_mem hp
      obtain ⟨e, he, hreq⟩ := ClusterSimulator.mem_requestIds.1 hr
      obtain ⟨M, hM, hpl⟩ := hlats p hp
      obtain ⟨T, -, hT⟩ := hreps p' hp'
      rw [← hreq] at hM
      rw [hnever, ← hpp, ← hreq] at hT
      exact (latency_eq_iff he hM (hpl e he hreq) hT).2 (hall e he).2

/-- Shard 0 of a request over `makeGraph` arrives twice, and shard 1 after it. -/
def twiceArrived : List GlobalArrivalEvent := [⟨1, 0, 0, 0⟩, ⟨4, 0, 0, 0⟩, ⟨1, 0, 2, 0⟩, ⟨9, 0, 1, 0⟩]

theorem baseline_eq_simulator_iff_twiceArrived : ∃ queue sim, RecoveryQueue.make 1 0 = .ok queue ∧
    ClusterSimulator.make makeGraph queue (some (fun _ => .ok 2)) = .ok sim ∧
    (SameLatencies (runBaseline twiceArrived 2) (sim.run .stable twiceArrived (some (fun _ _ => .ok 0))).2 ↔
      (∃ e ∈ twiceArrived, ∀ e' ∈ twiceArrived, e'.requestId = e.requestId → 2 ≤ e'.shardId) ∨
        ∀ e ∈ twiceArrived, Complete 2 twiceArrived e.requestId ∧ LastShard 2 twiceArrived e.requestId) := by
  obtain ⟨queue, hqueue⟩ : ∃ queue, RecoveryQueue.make 1 0 = .ok queue := ⟨_, rfl⟩
  obtain ⟨sim, hsim⟩ : ∃ sim, ClusterSimulator.make makeGraph queue (some (fun _ => .ok 2)) = .ok sim := ⟨_, rfl⟩
  exact ⟨queue, sim, hqueue, hsim, baseline_eq_simulator_iff .stable hqueue (fun _ => ⟨2, rfl, by decide⟩) hsim _
    (by decide) (by decide) ⟨by decide, by decide⟩⟩

/-- Shard 1 never arrives: the baseline reports a latency, the simulator throws. -/
theorem baseline_accepts_missing_shard : ∃ queue sim, RecoveryQueue.make 1 0 = .ok queue ∧
    ClusterSimulator.make makeGraph queue (some (fun _ => .ok 2)) = .ok sim ∧
    runBaseline [⟨1, 0, 0, 0⟩] 2 = .ok [(0, ⟨1, false, false, false, false, false⟩)] ∧
    (sim.run .stable [⟨1, 0, 0, 0⟩] (some (fun _ _ => .ok 0))).2 =
      .error (.runtimeError "Simulation requires a natural arrival for every systematic shard") ∧
    ¬ SameLatencies (runBaseline [⟨1, 0, 0, 0⟩] 2) (sim.run .stable [⟨1, 0, 0, 0⟩] (some (fun _ _ => .ok 0))).2 := by
  have hbase : runBaseline [⟨1, 0, 0, 0⟩] 2 = .ok [(0, ⟨1, false, false, false, false, false⟩)] := by decide +kernel
  obtain ⟨queue, hqueue⟩ : ∃ queue, RecoveryQueue.make 1 0 = .ok queue := ⟨_, rfl⟩
  obtain ⟨sim, hsim⟩ : ∃ sim, ClusterSimulator.make makeGraph queue (some (fun _ => .ok 2)) = .ok sim := ⟨_, rfl⟩
  have hrun : (sim.run .stable [⟨1, 0, 0, 0⟩] (some (fun _ _ => .ok 0))).2 =
      .error (.runtimeError "Simulation requires a natural arrival for every systematic shard") := by
    obtain rfl := (Except.ok.inj hsim).symm
    obtain rfl := (Except.ok.inj hqueue).symm
    decide +kernel
  refine ⟨queue, sim, hqueue, hsim, hbase, hrun, ?_⟩
  rw [hbase, hrun]
  rintro (⟨e, e', h, -⟩ | ⟨m, m', -, h, -⟩)
  · cases h
  · cases h

/-! ## The coded strategy -/

/-- **One arrival for each shard of each request.** -/
structure OnePerShard (shardCount : Nat) (events : List GlobalArrivalEvent) : Prop where
  ids : ∀ e ∈ events, e.shardId < shardCount
  one : ∀ e ∈ events, ∀ i < shardCount, (events.filter (fun a => a.requestId = e.requestId ∧ a.shardId = i)).length = 1

theorem OnePerShard.complete {k m : Nat} {events : List GlobalArrivalEvent} (h : OnePerShard (k + m) events)
    {e : GlobalArrivalEvent} (he : e ∈ events) : Complete k events e.requestId := by
  intro i hi
  obtain ⟨a, ha⟩ := List.length_eq_one_iff.1 (h.one e he i (by omega))
  have hmem : a ∈ events.filter (fun a => a.requestId = e.requestId ∧ a.shardId = i) := by
    rw [ha]
    exact List.mem_singleton_self a
  rw [List.mem_filter, decide_eq_true_iff] at hmem
  exact ⟨a, hmem.1, hmem.2⟩

theorem OnePerShard.unique {n : Nat} {events : List GlobalArrivalEvent} (h : OnePerShard n events)
    {a b : GlobalArrivalEvent} (ha : a ∈ events) (hb : b ∈ events) (hreq : a.requestId = b.requestId)
    (hid : a.shardId = b.shardId) : a = b := by
  obtain ⟨c, hc⟩ := List.length_eq_one_iff.1 (h.one a ha a.shardId (h.ids a ha))
  have hmem : ∀ x ∈ events, x.requestId = a.requestId → x.shardId = a.shardId → x = c := by
    intro x hx hr hi
    have hx' : x ∈ events.filter (fun x => x.requestId = a.requestId ∧ x.shardId = a.shardId) := by
      rw [List.mem_filter, decide_eq_true_iff]
      exact ⟨hx, hr, hi⟩
    rw [hc] at hx'
    exact List.mem_singleton.1 hx'
  rw [hmem a ha rfl rfl, hmem b hb hreq.symm hid.symm]

theorem OnePerShard.lastShard {k m : Nat} {events : List GlobalArrivalEvent} (h : OnePerShard (k + m) events) {r : Nat}
    {M : Int} (hM : IsGreatest {t | SystematicArrival k events r t} M) : LastShard k events r := by
  obtain ⟨e, he, hreq, hk, rfl⟩ := hM.1
  refine ⟨e.shardId, hk, fun a ha hr hid b hb hr' hb' => ?_⟩
  rw [h.unique ha he (hr.trans hreq.symm) hid]
  exact hM.2 ⟨b, hb, hr', hb', rfl⟩

theorem loop_costs {table : DecodeCostTable} {size : Nat} : ∀ (ops : List XorOperation) (total : Int),
    (∀ op ∈ ops, ∃ cost, table.costs op.sources.length size = some cost) →
    loop (fun total (operation : XorOperation) =>
      match table.get operation.sources.length size with
      | .error e => .error e
      | .ok cost => .ok (total + cost)) ops total =
      .ok (total + (ops.map (fun op => (table.costs op.sources.length size).getD 0)).sum)
  | [], total, _ => by simp [loop]
  | op :: ops, total, h => by
    obtain ⟨cost, hcost⟩ := h op (by simp)
    rw [loop]
    simp only [DecodeCostTable.get_eq_ok.2 hcost]
    rw [loop_costs ops (total + cost) (fun o ho => h o (by simp [ho])), List.map_cons, List.sum_cons, hcost,
      Option.getD_some, add_assoc]

/-- **The estimate of a plan whose operations are all measured** is positive. -/
theorem estimateServiceTime_ok {table : DecodeCostTable} {size : Nat} {plan : DecodePlan} (hne : plan.operations ≠ [])
    (h : ∀ op ∈ plan.operations, ∃ cost, table.costs op.sources.length size = some cost) :
    estimateServiceTime table size plan =
        .ok (plan.operations.map (fun op => (table.costs op.sources.length size).getD 0)).sum ∧
      0 < (plan.operations.map (fun op => (table.costs op.sources.length size).getD 0)).sum := by
  have hpos : 0 < (plan.operations.map (fun op => (table.costs op.sources.length size).getD 0)).sum := by
    refine List.sum_pos _ (fun x hx => ?_) (by simpa using hne)
    obtain ⟨op, hop, rfl⟩ := List.mem_map.1 hx
    obtain ⟨cost, hcost⟩ := h op hop
    rw [hcost, Option.getD_some]
    exact table.positive _ _ _ hcost
  refine ⟨?_, hpos⟩
  unfold estimateServiceTime
  rw [loop_costs plan.operations 0 h, zero_add]
  simp only [if_neg (not_le.2 hpos)]

/-- **No recovery is admitted that would not win**: under the exact oracle every recovery completes before the latest
systematic arrival. -/
theorem recovery_before_completion {g : BipartiteGraph} {estimate : RecoveryServiceTimeEstimator}
    {completions : Nat → Option Int} {queue : RecoveryQueue} {trackers : Nat → Option ShardArrivalTracker}
    {as : List ClusterSimulator.Step} {s' : ClusterRun}
    (h : loopInPlace (ClusterSimulator.act g estimate (remainingWait completions)) as
      (ClusterSimulator.starting queue trackers) = .returns s') :
    ∀ r C, s'.recoveryCompletionTimes r = some C → ∃ M, completions r = some M ∧ C < M := by
  rw [loopInPlace_eq_run] at h
  refine run_inv (I := fun s : ClusterRun => ∀ r C, s.recoveryCompletionTimes r = some C →
    ∃ M, completions r = some M ∧ C < M) (fun u a u' hu hstep => ?_) as _ s' (fun _ _ h => by cases h) h
  obtain ⟨now, q, -, -, -, rfl⟩ | ⟨now, request, batch, -, hturned⟩ := ClusterSimulator.act_returned hstep
  · exact hu
  obtain ⟨-, hr⟩ | ⟨S, C, W, hpos, -, hquote, hwait, hlt, -, hr⟩ := hturned.recovers
  · rw [hr]
    exact hu
  · rw [hr]
    intro r C' hC'
    by_cases hreq : r = request
    · subst hreq
      rw [Function.update_self] at hC'
      obtain rfl := Option.some.inj hC'
      obtain ⟨-, -, -, rfl⟩ := RecoveryQueue.getExpectedRecoveryCost_some hquote
      have hnow := Slots.now_le_start now u.recoveryQueue.slotAvailableTimes u.recoveryQueue.slots_ne_nil
      unfold remainingWait at hwait
      split at hwait
      · cases hwait
      · rename_i M hM
        refine ⟨M, hM, ?_⟩
        rw [← Except.ok.inj hwait] at hlt
        split at hlt
        · omega
        · omega
    · rw [Function.update_of_ne hreq] at hC'
      exact hu r C' hC'

/-- **The coded strategy returns** on a stream with one arrival for each shard, if every plan can be estimated; each
recovery it admits completes before the latest systematic arrival. -/
theorem runCodedStrategy_reports (sorter : EventSort) {g : BipartiteGraph} (hg : g.Valid)
    {events : List GlobalArrivalEvent}
    (hone : OnePerShard (g.systematicShardCount + g.parityShardCount) events) (hstart : Started events)
    (hnonneg : ∀ e ∈ events, 0 ≤ e.arrivalTime) {concurrency : Nat} (hc : 1 ≤ concurrency)
    (hmax : concurrency ≤ RecoveryQueue.slotsMaxSize) (queueDepth : Nat)
    {shardSizeMib : Nat} {table : DecodeCostTable}
    (hest : ∀ missing available plan, createPlan g missing available = .ok plan → plan.isRecoverable = true →
      missing.Nonempty → ∃ serviceTime, estimateServiceTime table shardSizeMib plan = .ok serviceTime ∧
      0 < serviceTime) :
    ∃ coded, runCodedStrategy sorter g events concurrency queueDepth shardSizeMib table = .ok coded ∧
      coded.map Prod.fst = requestIds events ∧ ∀ p ∈ coded, ∃ recovery T,
        ClusterSimulator.Reported g.systematicShardCount events recovery p.1 p.2 T ∧
        ∀ C, recovery = some C → ∃ M, getNaturalCompletionTimes events g.systematicShardCount p.1 = some M ∧ C < M := by
  have hcomplete : ∀ e ∈ events, Complete g.systematicShardCount events e.requestId := fun e he => hone.complete he
  obtain ⟨queue, hqueue⟩ := RecoveryQueue.make_accepts hc hmax queueDepth
  obtain ⟨-, -, -, -, hclock⟩ := RecoveryQueue.make_ok hqueue
  have hwaits :
      ∀ e ∈ events, ∃ wait, remainingWait (getNaturalCompletionTimes events g.systematicShardCount) e.requestId
      e.arrivalTime = .ok wait ∧ 0 ≤ wait := by
    intro e he
    unfold remainingWait
    cases hM : getNaturalCompletionTimes events g.systematicShardCount e.requestId with
    | none =>
      obtain ⟨t, ht⟩ := systematicArrival_of_complete hg.systematicPos (hcomplete e he)
      exact absurd ht ((getNaturalCompletionTimes_spec events _ e.requestId).2 hM t)
    | some M =>
      refine ⟨_, rfl, ?_⟩
      split
      · omega
      · exact le_rfl
  have hserve : ClusterSimulator.Servable g (estimateServiceTime table shardSizeMib)
      (remainingWait (getNaturalCompletionTimes events g.systematicShardCount)) queue events :=
    ⟨hone.ids, hnonneg, fun e he => hclock ▸ hnonneg e he, hest, fun _ => hwaits⟩
  obtain ⟨trackers, starts, s', -, hloop, -, hreturns⟩ :=
    ClusterSimulator.run_reports sorter ⟨g, queue, fun _ => none, _⟩ hg hstart hserve
  obtain ⟨coded, hcoded, hkeys, hreps⟩ := hreturns hcomplete
  refine ⟨coded, ?_, hkeys, fun p hp => ?_⟩
  · unfold runCodedStrategy
    simp only [hqueue, ClusterSimulator.make_accepts hg]
    exact hcoded
  · obtain ⟨T, -, hT⟩ := hreps p hp
    exact ⟨_, T, hT, recovery_before_completion hloop p.1⟩

/-- The table has an entry for every operation of every recoverable plan over the graph. -/
def DecodeCostTable.Covers (table : DecodeCostTable) (g : BipartiteGraph) (shardSizeMib : Nat) : Prop :=
  ∀ missing available plan, createPlan g missing available = .ok plan → plan.isRecoverable = true →
    ∀ op ∈ plan.operations, ∃ cost, table.costs op.sources.length shardSizeMib = some cost

theorem DecodeCostTable.covers_of_regular {table : DecodeCostTable} {g : BipartiteGraph} {degree shardSizeMib : Nat}
    {cost : Int} (hreg : ∀ e ∈ g.parityToSystematic, e.2.length = degree ∧ e.2.Nodup)
    (hcost : table.costs degree shardSizeMib = some cost) : table.Covers g shardSizeMib := by
  intro missing available plan hplan hrec op hop
  have hspec := (createPlan_spec hplan).2.2.2 hrec
  exact ⟨cost, by rw [hspec.peels.sources_length hreg op hop, hcost]⟩

theorem DecodeCostTable.Covers.estimates {table : DecodeCostTable} {g : BipartiteGraph} {shardSizeMib : Nat}
    (h : table.Covers g shardSizeMib) {missing available : Finset Nat} {plan : DecodePlan}
    (hplan : createPlan g missing available = .ok plan) (hrec : plan.isRecoverable = true) (hne : missing.Nonempty) :
    ∃ serviceTime, estimateServiceTime table shardSizeMib plan = .ok serviceTime ∧ 0 < serviceTime := by
  have hspec := (createPlan_spec hplan).2.2.2 hrec
  exact ⟨_, estimateServiceTime_ok (hspec.operations_ne_nil hne) (h missing available plan hplan hrec)⟩

theorem reported_wins {k : Nat} {events : List GlobalArrivalEvent} {recovery : Option Int} {r : Nat}
    {x : RequestMetrics}
    {T : Int} (h : ClusterSimulator.Reported k events recovery r x T) (hbefore : ∀ C, recovery = some C → C < T)
    {e : GlobalArrivalEvent} (he : e ∈ events) (hreq : e.requestId = r) :
    (x.recoveryAdmitted = true ∧ x.recoveryWon = true ∧ x.latency < T - e.requestStartTime) ∨
      x.recoveryAdmitted = false ∧ x.recoveryWon = false ∧ x.latency = T - e.requestStartTime := by
  rcases h.outcome e he hreq with ⟨C, hC, hlt, hlat, hwon⟩ | ⟨hge, hlat, hwon⟩
  · left
    refine ⟨by rw [h.admitted, hC]; rfl, hwon, by omega⟩
  · right
    refine ⟨?_, hwon, hlat⟩
    rw [h.admitted]
    cases hrec : recovery with
    | none => rfl
    | some C =>
      have hlt := hbefore C hrec
      have hle := hge C hrec
      omega

/-- **The coded strategy against the latest systematic arrivals**: a request is faster if a recovery is admitted, and
else it takes as long. -/
theorem runCodedStrategy_wins (sorter : EventSort) {g : BipartiteGraph} (hg : g.Valid)
    {events : List GlobalArrivalEvent}
    (hone : OnePerShard (g.systematicShardCount + g.parityShardCount) events) (hstart : Started events)
    (hnonneg : ∀ e ∈ events, 0 ≤ e.arrivalTime) {concurrency : Nat} (hc : 1 ≤ concurrency)
    (hmax : concurrency ≤ RecoveryQueue.slotsMaxSize) (queueDepth : Nat)
    {shardSizeMib : Nat} {table : DecodeCostTable} (hcovers : table.Covers g shardSizeMib) :
    ∃ coded, runCodedStrategy sorter g events concurrency queueDepth shardSizeMib table = .ok coded ∧
      coded.map Prod.fst = requestIds events ∧ ∀ p ∈ coded, ∀ e ∈ events, e.requestId = p.1 →
        ∀ M, IsGreatest {t | SystematicArrival g.systematicShardCount events p.1 t} M →
          (p.2.recoveryAdmitted = true ∧ p.2.recoveryWon = true ∧ p.2.latency < M - e.requestStartTime) ∨
            p.2.recoveryAdmitted = false ∧ p.2.recoveryWon = false ∧ p.2.latency = M - e.requestStartTime := by
  obtain ⟨coded, hcoded, hkeys, hreps⟩ := runCodedStrategy_reports sorter hg hone hstart hnonneg hc hmax queueDepth
    (fun _ _ _ hplan hrec hne => hcovers.estimates hplan hrec hne)
  refine ⟨coded, hcoded, hkeys, fun p hp e he hreq M hM => ?_⟩
  obtain ⟨recovery, T, hrep, hbefore⟩ := hreps p hp
  -- the tracker completes with the latest systematic arrival
  obtain rfl : M = T := (latest_eq_least_iff hM hrep.natural).2 (hone.lastShard hM)
  apply reported_wins hrep _ he hreq
  intro C hC
  obtain ⟨M', hM', hlt⟩ := hbefore C hC
  rwa [((getNaturalCompletionTimes_spec events _ p.1).1 M' hM').unique hM] at hlt

/-- More slots than a vector has room for, and the run does not begin. -/
theorem le_slotsMaxSize_of_returns {sorter : EventSort} {g : BipartiteGraph} {events : List GlobalArrivalEvent}
    {concurrency queueDepth shardSizeMib : Nat} {table : DecodeCostTable} {coded : MetricsMap}
    (h : runCodedStrategy sorter g events concurrency queueDepth shardSizeMib table = .ok coded) :
    concurrency ≤ RecoveryQueue.slotsMaxSize := by
  by_contra hlt
  unfold runCodedStrategy RecoveryQueue.make at h
  rw [if_pos (Nat.not_le.1 hlt)] at h
  cases h

/-- A coded run that returns has seen one start for each request, no arrival before it and none at a negative time. -/
theorem started_of_coded {sorter : EventSort} {g : BipartiteGraph} {events : List GlobalArrivalEvent}
    {concurrency queueDepth shardSizeMib : Nat} {table : DecodeCostTable} {coded : MetricsMap}
    (h : runCodedStrategy sorter g events concurrency queueDepth shardSizeMib table = .ok coded) :
    Started events ∧ ∀ e ∈ events, 0 ≤ e.arrivalTime := by
  unfold runCodedStrategy at h
  split at h
  · cases h
  split at h
  · cases h
  exact ClusterSimulator.started_of_returns h

/-- **The coded strategy never loses to waiting**: on a stream with one arrival for each shard, both strategies report
the same requests, and the coded one returns if its slots fit a vector; a recovery is admitted exactly when it wins, and
the latency is the baseline's unless one was admitted, when it is strictly smaller. -/
theorem coded_never_loses (sorter : EventSort) {g : BipartiteGraph} (hg : validateGraph g = .ok ())
    {events : List GlobalArrivalEvent} (hone : OnePerShard (g.systematicShardCount + g.parityShardCount) events)
    (hstart : Started events) (hnn : ∀ e ∈ events, 0 ≤ e.requestStartTime) {concurrency : Nat} (hc : 1 ≤ concurrency)
    (queueDepth : Nat) {shardSizeMib : Nat} {table : DecodeCostTable} (hcovers : table.Covers g shardSizeMib) :
    ∃ baseline, runBaseline events g.systematicShardCount = .ok baseline ∧ baseline.map Prod.fst = requestIds events ∧
      (concurrency ≤ RecoveryQueue.slotsMaxSize →
        ∃ coded, runCodedStrategy sorter g events concurrency queueDepth shardSizeMib table = .ok coded) ∧
      ∀ coded, runCodedStrategy sorter g events concurrency queueDepth shardSizeMib table = .ok coded →
        coded.map Prod.fst = requestIds events ∧
        ∀ p ∈ coded, ∀ b ∈ baseline, p.1 = b.1 →
          (p.2.recoveryAdmitted = true ↔ p.2.recoveryWon = true) ∧ p.2.latency ≤ b.2.latency ∧
          (p.2.latency < b.2.latency ↔ p.2.recoveryAdmitted = true) ∧
          (p.2.recoveryAdmitted = false → p.2.latency = b.2.latency) := by
  have hv := (validateGraph_ok g).1 hg
  have hnonneg : ∀ e ∈ events, 0 ≤ e.arrivalTime := fun e he => (hnn e he).trans (hstart.2 e he)
  have hwins := fun hmax => runCodedStrategy_wins sorter hv hone hstart hnonneg hc hmax queueDepth hcovers
  obtain ⟨baseline, hbase, hkeys', hlats⟩ := (runBaseline_spec hstart.1 g.systematicShardCount).2
    (fun e he => systematicArrival_of_complete hv.systematicPos (hone.complete he))
  refine ⟨baseline, hbase, hkeys', fun hmax => ?_, fun coded hcoded => ?_⟩
  · obtain ⟨coded, hcoded, -⟩ := hwins hmax
    exact ⟨coded, hcoded⟩
  obtain ⟨coded', hcoded', hkeys, hwins⟩ := hwins (le_slotsMaxSize_of_returns hcoded)
  obtain rfl := Except.ok.inj (hcoded'.symm.trans hcoded)
  refine ⟨hkeys, fun p hp b hb hpb => ?_⟩
  obtain ⟨M, hM, hlat⟩ := hlats b hb
  have hr : p.1 ∈ requestIds events := by
    rw [← hkeys]
    exact List.mem_map_of_mem hp
  obtain ⟨e, he, hreq⟩ := ClusterSimulator.mem_requestIds.1 hr
  have hblat := hlat e he (hreq.trans hpb)
  rw [← hpb] at hM
  rcases hwins p hp e he hreq M hM with ⟨hadm, hwon, hlt⟩ | ⟨hadm, hwon, heq⟩
  · rw [hadm, hwon, hblat]
    exact ⟨Iff.rfl, hlt.le, iff_of_true hlt rfl, by simp⟩
  · rw [hadm, hwon, heq, hblat]
    exact ⟨Iff.rfl, le_rfl, iff_of_false (lt_irrefl _) (by simp), fun _ => rfl⟩

/-- Shard 0 and the parity of a request over `makeGraph` arrive, and shard 1 much later. -/
def stragglerArrivals : List GlobalArrivalEvent := [⟨1, 0, 0, 0⟩, ⟨2, 0, 2, 0⟩, ⟨9, 0, 1, 0⟩]

theorem coded_never_loses_straggler : ∃ table, DecodeCostTable.make [(2, 16, 3)] = .ok table ∧
    ∃ coded baseline, runCodedStrategy .stable makeGraph stragglerArrivals 1 1 16 table = .ok coded ∧
      runBaseline stragglerArrivals 2 = .ok baseline ∧ coded.map Prod.fst = requestIds stragglerArrivals ∧
      baseline.map Prod.fst = requestIds stragglerArrivals ∧
      ∀ p ∈ coded, ∀ b ∈ baseline, p.1 = b.1 →
        (p.2.recoveryAdmitted = true ↔ p.2.recoveryWon = true) ∧ p.2.latency ≤ b.2.latency ∧
        (p.2.latency < b.2.latency ↔ p.2.recoveryAdmitted = true) ∧
        (p.2.recoveryAdmitted = false → p.2.latency = b.2.latency) := by
  obtain ⟨table, htable⟩ : ∃ table, DecodeCostTable.make [(2, 16, 3)] = .ok table := ⟨_, rfl⟩
  have hcost : table.costs 2 16 = some 3 := by
    obtain rfl := (Except.ok.inj htable).symm
    decide
  have hreg : ∀ e ∈ makeGraph.parityToSystematic, e.2.length = 2 ∧ e.2.Nodup := by decide
  have hone : OnePerShard 3 stragglerArrivals := ⟨by decide, by decide⟩
  have hstart : Started stragglerArrivals := ⟨by decide, by decide⟩
  have hgraph : validateGraph makeGraph = .ok () := by decide
  obtain ⟨baseline, hbase, hkeys', hreturns, hloses⟩ :=
    coded_never_loses .stable hgraph hone hstart (by decide) le_rfl 1 (DecodeCostTable.covers_of_regular hreg hcost)
  obtain ⟨coded, hcoded⟩ := hreturns (by decide)
  obtain ⟨hkeys, hwins⟩ := hloses coded hcoded
  exact ⟨table, htable, coded, baseline, hcoded, hbase, hkeys, hkeys', hwins⟩

/-! ## Generated workloads -/

/-- `WorkloadGenerator::Generate` on the sampled request arrivals and delays; `delays i` is the `i`-th draw. -/
def generate (shardCount : Nat) (delays : Nat → Int) (requestArrivals : List Int) : List GlobalArrivalEvent :=
  requestArrivals.zipIdx.flatMap (fun arrival => (List.range shardCount).map (fun shard =>
    ⟨arrival.1 + delays (arrival.2 * shardCount + shard), arrival.2, toShardId shard, arrival.1⟩))

/-- The arrivals of a workload of `requests` requests with `shardCount` shards each, at any times. -/
structure WorkloadShape (requests shardCount : Nat) (events : List GlobalArrivalEvent) : Prop where
  bounds : ∀ e ∈ events, e.requestId < requests ∧ e.shardId < shardCount
  one : ∀ r < requests, ∀ i < shardCount, (events.filter (fun a => a.requestId = r ∧ a.shardId = i)).length = 1
  start : ∀ e ∈ events, ∀ e' ∈ events, e.requestId = e'.requestId → e.requestStartTime = e'.requestStartTime

/-- **A workload** of `requests` requests with `shardCount` shards each. -/
structure Workload (requests shardCount : Nat) (events : List GlobalArrivalEvent) : Prop extends
    WorkloadShape requests shardCount events where
  times : ∀ e ∈ events, 0 ≤ e.requestStartTime ∧ e.requestStartTime ≤ e.arrivalTime

theorem WorkloadShape.onePerShard {N n : Nat} {events : List GlobalArrivalEvent} (h : WorkloadShape N n events) :
    OnePerShard n events :=
  ⟨fun e he => (h.bounds e he).2, fun e he i hi => h.one e.requestId (h.bounds e he).1 i hi⟩

theorem Workload.started {N n : Nat} {events : List GlobalArrivalEvent} (h : Workload N n events) : Started events :=
  ⟨h.start, fun e he => (h.times e he).2⟩

theorem Workload.nonneg {N n : Nat} {events : List GlobalArrivalEvent} (h : Workload N n events) :
    ∀ e ∈ events, 0 ≤ e.arrivalTime := fun e he => (h.times e he).1.trans (h.times e he).2

theorem WorkloadShape.requestIds {N n : Nat} {events : List GlobalArrivalEvent} (h : WorkloadShape N n events)
    (hn : 0 < n) :
    requestIds events = List.range N := by
  refine List.Perm.eq_of_pairwise (fun a b _ _ hab hba => absurd hab (Nat.lt_asymm hba)) (sortUnique_sorted _)
    List.pairwise_lt_range ?_
  refine (List.perm_ext_iff_of_nodup (requestIds_nodup events) List.nodup_range).2 (fun r => ?_)
  rw [ClusterSimulator.mem_requestIds, List.mem_range]
  constructor
  · rintro ⟨e, he, rfl⟩
    exact (h.bounds e he).1
  · intro hr
    obtain ⟨a, ha⟩ := List.length_eq_one_iff.1 (h.one r hr 0 hn)
    have hmem : a ∈ events.filter (fun a => a.requestId = r ∧ a.shardId = 0) := by
      rw [ha]
      exact List.mem_singleton_self a
    rw [List.mem_filter, decide_eq_true_iff] at hmem
    exact ⟨a, hmem.1, hmem.2.1⟩

theorem generate_keys {n : Nat} (hn : n ≤ 2 ^ 32) (delays : Nat → Int) (arrivals : List Int) :
    (generate n delays arrivals).map (fun e => (e.requestId, e.shardId)) =
      List.range arrivals.length ×ˢ List.range n := by
  have hinner : ∀ arrival : Int × Nat,
      ((List.range n).map (fun shard => (⟨arrival.1 + delays (arrival.2 * n + shard), arrival.2, toShardId shard,
        arrival.1⟩ : GlobalArrivalEvent))).map (fun e => (e.requestId, e.shardId)) =
        (List.range n).map (fun shard => (arrival.2, shard)) := by
    intro arrival
    rw [List.map_map]
    refine List.map_congr_left (fun shard hshard => ?_)
    have hid : toShardId shard = shard := Nat.mod_eq_of_lt (lt_of_lt_of_le (List.mem_range.1 hshard) hn)
    simp only [Function.comp_apply, hid]
  unfold generate
  rw [List.map_flatMap]
  simp only [hinner]
  have hsnd : arrivals.zipIdx.map Prod.snd = List.range arrivals.length := by
    rw [List.zipIdx_map_snd, List.range_eq_range']
  rw [← hsnd]
  change _ = List.product _ _
  unfold List.product
  rw [List.flatMap_map]

theorem generate_validated {n : Nat} {delays : Nat → Int} {arrivals : List Int} {e : GlobalArrivalEvent}
    (he : e ∈ generate n delays arrivals) :
    arrivals[e.requestId]? = some e.requestStartTime ∧ ∃ draw, e.arrivalTime = e.requestStartTime + delays draw := by
  unfold generate at he
  obtain ⟨⟨t, r⟩, hr, he⟩ := List.mem_flatMap.1 he
  obtain ⟨shard, -, rfl⟩ := List.mem_map.1 he
  exact ⟨List.mem_zipIdx_iff_getElem?.1 hr, _, rfl⟩

/-- **A generated workload has the shape**, whatever was sampled. -/
theorem generate_shape {n : Nat} (hn : n ≤ 2 ^ 32) (delays : Nat → Int) (arrivals : List Int) :
    WorkloadShape arrivals.length n (generate n delays arrivals) := by
  have hkeys := generate_keys hn delays arrivals
  refine ⟨fun e he => ?_, fun r hr i hi => ?_, fun e he e' he' hreq => ?_⟩
  · have hk : (e.requestId, e.shardId) ∈ List.range arrivals.length ×ˢ List.range n := by
      rw [← hkeys]
      exact List.mem_map.2 ⟨e, he, rfl⟩
    rw [List.mem_product, List.mem_range, List.mem_range] at hk
    exact hk
  · have hcount : (List.range arrivals.length ×ˢ List.range n).count (r, i) = 1 := by
      refine List.count_eq_one_of_mem (List.nodup_range.product List.nodup_range) ?_
      rw [List.mem_product, List.mem_range, List.mem_range]
      exact ⟨hr, hi⟩
    rw [← hkeys, List.count, List.countP_map, List.countP_eq_length_filter] at hcount
    rw [← hcount]
    congr 1
    refine List.filter_congr (fun e _ => ?_)
    rw [Function.comp_apply, Bool.eq_iff_iff, decide_eq_true_iff, beq_iff_eq, Prod.mk.injEq]
  · have h1 := (generate_validated he).1
    rw [hreq, (generate_validated he').1] at h1
    exact (Option.some.inj h1).symm

/-- With request arrivals that are not negative, and delays that are rounded from `max(0.0, ·)`, it is a workload. -/
theorem generate_workload {n : Nat} (hn : n ≤ 2 ^ 32) {delays : Nat → Int} (hdelays : ∀ i, 0 ≤ delays i)
    {arrivals : List Int} (harrivals : ∀ t ∈ arrivals, 0 ≤ t) :
    Workload arrivals.length n (generate n delays arrivals) := by
  refine ⟨generate_shape hn delays arrivals, fun e he => ?_⟩
  obtain ⟨hget, draw, hdraw⟩ := generate_validated he
  have hdelay := hdelays draw
  exact ⟨harrivals _ (List.mem_of_getElem? hget), by omega⟩

/-- **The coded run never aborts on a generated workload**: with a regular graph, a cost for its degree that `k`
operations can take without leaving 64 bits, and slots that a vector has room for, `RunCodedStrategy` reports every
request; every operation of every plan has `degree` sources, and the estimate of a recoverable plan is the number of
missing shards times the cost. -/
theorem coded_run_returns (sorter : EventSort) {k m degree : Nat} {shuffler : Shuffler} {g : BipartiteGraph}
    (hgraph : generateRegularGraph k m degree shuffler = .ok g) {requests : Nat} {events : List GlobalArrivalEvent}
    (hwork : Workload requests (k + m) events) {concurrency : Nat} (hc : 1 ≤ concurrency)
    (hmax : concurrency ≤ RecoveryQueue.slotsMaxSize) (queueDepth : Nat) {shardSizeMib : Nat} {table : DecodeCostTable}
    {cost : Int} (hcost : table.costs degree shardSizeMib = some cost) (hfits : (k : Int) * cost < 2 ^ 63) :
    (∃ metrics, runCodedStrategy sorter g events concurrency queueDepth shardSizeMib table = .ok metrics ∧
      metrics.map Prod.fst = List.range requests) ∧
    ∀ missing available plan, createPlan g missing available = .ok plan → plan.isRecoverable = true →
      (∀ op ∈ plan.operations, op.sources.length = degree ∧ table.get op.sources.length shardSizeMib = .ok cost) ∧
      (missing.Nonempty → estimateServiceTime table shardSizeMib plan = .ok (missing.card * cost) ∧
        0 < missing.card * cost ∧ missing.card * cost < 2 ^ 63) := by
  obtain ⟨hg, rfl, rfl, -, hlen⟩ := generateRegularGraph_ok hgraph
  have hplans : ∀ missing available plan, createPlan g missing available = .ok plan → plan.isRecoverable = true →
      (∀ op ∈ plan.operations, op.sources.length = degree) ∧
      (missing.Nonempty → estimateServiceTime table shardSizeMib plan = .ok (missing.card * cost) ∧
        0 < missing.card * cost) := by
    intro missing available plan hplan hrec
    have hspec := (createPlan_spec hplan).2.2.2 hrec
    have hsources := hspec.peels.sources_length (fun e he => ⟨hlen e he, (hg.equations e he).2.1⟩)
    refine ⟨hsources, fun hne => ?_⟩
    have hentry : ∀ op ∈ plan.operations, ∃ cost, table.costs op.sources.length shardSizeMib = some cost :=
      fun op hop => ⟨cost, by rw [hsources op hop, hcost]⟩
    obtain ⟨hsum, hpos⟩ := estimateServiceTime_ok (hspec.operations_ne_nil hne) hentry
    have htotal : (plan.operations.map (fun op => (table.costs op.sources.length shardSizeMib).getD 0)).sum =
        missing.card * cost := by
      have hconst : plan.operations.map (fun op => (table.costs op.sources.length shardSizeMib).getD 0) =
          List.replicate plan.operations.length cost := by
        rw [← List.map_const']
        refine List.map_congr_left (fun op hop => ?_)
        rw [hsources op hop, hcost, Option.getD_some]
      have hcard := hspec.peels.length_add_card
      rw [Finset.card_empty, add_zero] at hcard
      rw [hconst, List.sum_replicate, hcard, nsmul_eq_mul]
    rw [htotal] at hsum hpos
    exact ⟨hsum, hpos⟩
  refine ⟨?_, fun missing available plan hplan hrec => ?_⟩
  · obtain ⟨metrics, hmetrics, hkeys, -⟩ := runCodedStrategy_reports sorter hg hwork.onePerShard hwork.started
      hwork.nonneg hc hmax queueDepth (fun missing available plan hplan hrec hne =>
        ⟨_, (hplans missing available plan hplan hrec).2 hne⟩)
    exact ⟨metrics, hmetrics, hkeys.trans (hwork.requestIds (by have := hg.systematicPos; omega))⟩
  · obtain ⟨hsources, hestimate⟩ := hplans missing available plan hplan hrec
    refine ⟨fun op hop => ⟨hsources op hop, ?_⟩, fun hne => ?_⟩
    · rw [hsources op hop]
      exact DecodeCostTable.get_eq_ok.2 hcost
    · -- only systematic shards are missing
      have hcard : missing.card ≤ g.systematicShardCount := by
        have hsub : missing ⊆ Finset.range g.systematicShardCount :=
          fun x hx => Finset.mem_range.2 ((createPlan_spec hplan).2.1 x hx)
        simpa using Finset.card_le_card hsub
      have hle : (missing.card : Int) * cost ≤ g.systematicShardCount * cost :=
        mul_le_mul_of_nonneg_right (by exact_mod_cast hcard) (table.positive _ _ _ hcost).le
      exact ⟨(hestimate hne).1, (hestimate hne).2, hle.trans_lt hfits⟩

def noShuffle : Shuffler := ⟨fun _ l => l, fun _ l => .refl l⟩

theorem coded_run_returns_twoRequests : ∃ g table, generateRegularGraph 2 1 2 noShuffle = .ok g ∧
    DecodeCostTable.make [(2, 16, 3)] = .ok table ∧
    (∃ metrics, runCodedStrategy .stable g (generate 3 (fun i => i) [0, 4]) 1 1 16 table = .ok metrics ∧
      metrics.map Prod.fst = List.range 2) ∧
    ∀ missing available plan, createPlan g missing available = .ok plan → plan.isRecoverable = true →
      (∀ op ∈ plan.operations, op.sources.length = 2 ∧ table.get op.sources.length 16 = .ok 3) ∧
      (missing.Nonempty → estimateServiceTime table 16 plan = .ok (missing.card * 3) ∧
        0 < (missing.card * 3 : Int) ∧ (missing.card * 3 : Int) < 2 ^ 63) := by
  obtain ⟨g, hg⟩ : ∃ g, generateRegularGraph 2 1 2 noShuffle = .ok g :=
    generateRegularGraph_accepts _ (by decide) (by decide) (by decide) (by decide) (by decide)
  have hwork : Workload ([0, 4] : List Int).length (2 + 1) (generate (2 + 1) (fun i => i) [0, 4]) :=
    generate_workload (by decide) (fun i => Int.natCast_nonneg i) (by decide)
  exact ⟨g, _, hg, rfl, coded_run_returns .stable hg hwork le_rfl (by decide) 1 rfl (by decide)⟩

/-- With more slots than a vector has room for, such a run does not begin. -/
theorem coded_run_throws_tooManySlots : ∃ g table, generateRegularGraph 2 1 2 noShuffle = .ok g ∧
    DecodeCostTable.make [(2, 16, 3)] = .ok table ∧ table.costs 2 16 = some 3 ∧
    Workload 2 3 (generate 3 (fun i => i) [0, 4]) ∧
    runCodedStrategy .stable g (generate 3 (fun i => i) [0, 4]) (2 ^ 64 - 1) 1 16 table = .error vectorTooLarge := by
  obtain ⟨g, hg⟩ : ∃ g, generateRegularGraph 2 1 2 noShuffle = .ok g :=
    generateRegularGraph_accepts _ (by decide) (by decide) (by decide) (by decide) (by decide)
  have hwork : Workload ([0, 4] : List Int).length (2 + 1) (generate (2 + 1) (fun i => i) [0, 4]) :=
    generate_workload (by decide) (fun i => Int.natCast_nonneg i) (by decide)
  exact ⟨g, _, hg, rfl, rfl, hwork, rfl⟩

end CodedLLM
