import CodedLLM.ClusterSimulator
/-!
# ClusterRuns — the cluster simulator as a run of small steps

The nested loops of `Run` are one run over `steps`: an `advance` for each instant and a `turn` for each request in it
(`instants_eq_loop`).  The first loop returns exactly on events that share the start of their request and arrive after
it (`validate_returns`); these have only one sorted order, so what `Run` returns does not depend on the order in which
the events are supplied (`run_perm`).
-/
namespace CodedLLM

open Runs

/-! ## The order of the events -/

theorem GlobalArrivalEvent.before_total (a b : GlobalArrivalEvent) : a.Before b ∨ b.Before a := by
  unfold GlobalArrivalEvent.Before
  omega

theorem GlobalArrivalEvent.Before.trans {a b c : GlobalArrivalEvent} (h : a.Before b) (h' : b.Before c) :
    a.Before c := by
  unfold GlobalArrivalEvent.Before at h h' ⊢
  omega

theorem GlobalArrivalEvent.Before.time {a b : GlobalArrivalEvent} (h : a.Before b) : a.arrivalTime ≤ b.arrivalTime := by
  unfold GlobalArrivalEvent.Before at h
  omega

theorem GlobalArrivalEvent.Before.request {a b : GlobalArrivalEvent} (h : a.Before b)
    (ht : a.arrivalTime = b.arrivalTime) : a.requestId ≤ b.requestId := by
  unfold GlobalArrivalEvent.Before at h
  omega

theorem GlobalArrivalEvent.Before.antisymm {a b : GlobalArrivalEvent} (h : a.Before b) (h' : b.Before a) :
    a.arrivalTime = b.arrivalTime ∧ a.requestId = b.requestId ∧ a.shardId = b.shardId := by
  unfold GlobalArrivalEvent.Before at h h'
  omega

instance : Std.Total GlobalArrivalEvent.Before := ⟨GlobalArrivalEvent.before_total⟩

instance : IsTrans GlobalArrivalEvent GlobalArrivalEvent.Before := ⟨fun _ _ _ => GlobalArrivalEvent.Before.trans⟩

def EventSort.stable : EventSort where
  sort events := events.insertionSort GlobalArrivalEvent.Before
  perm := List.perm_insertionSort _
  sorted := List.pairwise_insertionSort _

theorem EventSort.sorted_time (sorter : EventSort) (events : List GlobalArrivalEvent) :
    (sorter.sort events).Pairwise (fun a b => a.arrivalTime ≤ b.arrivalTime) :=
  (sorter.sorted events).imp GlobalArrivalEvent.Before.time

theorem tryEmplace_of_some {α : Type} {map : Nat → Option α} {key : Nat} {old : α} (h : map key = some old)
    (value : α) : tryEmplace map key value = map := by
  unfold tryEmplace
  rw [if_pos (by rw [h]; rfl)]

theorem tryEmplace_of_none {α : Type} {map : Nat → Option α} {key : Nat} (h : map key = none) (value : α) :
    tryEmplace map key value = Function.update map key (some value) := by
  unfold tryEmplace
  rw [if_neg (by rw [h]; simp)]

theorem tryEmplace_of_ne {α : Type} (map : Nat → Option α) {key other : Nat} (h : other ≠ key) (value : α) :
    tryEmplace map key value other = map other := by
  unfold tryEmplace
  split
  · rfl
  · exact Function.update_of_ne h ..

theorem tryEmplace_self {α : Type} (map : Nat → Option α) (key : Nat) (value : α) :
    tryEmplace map key value key = some ((map key).getD value) := by
  cases h : map key with
  | none => rw [tryEmplace_of_none h, Function.update_self, Option.getD_none]
  | some old => rw [tryEmplace_of_some h, h, Option.getD_some]

namespace ClusterSimulator

/-! ## One loop -/

inductive Step where
  | advance (now : Int)
  | turn (now : Int) (request : Nat) (batch : List GlobalArrivalEvent)

def Step.time : Step → Int
  | .advance now => now
  | .turn now _ _ => now

def Step.events : Step → List GlobalArrivalEvent
  | .advance _ => []
  | .turn _ _ batch => batch

def act (g : BipartiteGraph) (estimate : RecoveryServiceTimeEstimator) (oracle : WaitCostOracle) (s : ClusterRun) :
    Step → Outcome ClusterRun
  | .advance now =>
    if now < 0 then .throws s (.invalidArgument "Shard arrival times must not be negative")
    else
      match s.recoveryQueue.advanceTime now with
      | .error e => .throws s e
      | .ok queue => .returns { s with recoveryQueue := queue }
  | .turn now request batch => turn g estimate oracle now s (request, batch)

def instantSteps (batch : Int × List GlobalArrivalEvent) : List Step :=
  .advance batch.1 :: (Batches.group GlobalArrivalEvent.requestId batch.2).map (fun b => .turn batch.1 b.1 b.2)

def steps (sorted : List GlobalArrivalEvent) : List Step :=
  (Batches.group GlobalArrivalEvent.arrivalTime sorted).flatMap instantSteps

variable {g : BipartiteGraph} {estimate : RecoveryServiceTimeEstimator} {oracle : WaitCostOracle}

theorem instant_eq_loop (s : ClusterRun) (batch : Int × List GlobalArrivalEvent) :
    instant g estimate oracle s batch = loopInPlace (act g estimate oracle) (instantSteps batch) s := by
  unfold instant instantSteps
  rw [loopInPlace]
  simp only [act]
  split
  · rfl
  · cases s.recoveryQueue.advanceTime batch.1 with
    | error e => rfl
    | ok queue =>
      simp only [loopInPlace_map]
      rfl

/-- **The nested loops are a run over the steps.** -/
theorem instants_eq_loop (sorted : List GlobalArrivalEvent) (s : ClusterRun) :
    loopInPlace (instant g estimate oracle) (Batches.group GlobalArrivalEvent.arrivalTime sorted) s =
      loopInPlace (act g estimate oracle) (steps sorted) s :=
  loopInPlace_flatMap instant_eq_loop _ s

theorem instantSteps_events (batch : Int × List GlobalArrivalEvent) :
    (instantSteps batch).flatMap Step.events = batch.2 := by
  unfold instantSteps
  rw [List.flatMap_cons, List.flatMap_map]
  exact Batches.group_flatMap _ batch.2

theorem steps_events (sorted : List GlobalArrivalEvent) : (steps sorted).flatMap Step.events = sorted := by
  unfold steps
  rw [List.flatMap_assoc]
  simp only [instantSteps_events]
  exact Batches.group_flatMap _ sorted

theorem time_of_mem_instantSteps {batch : Int × List GlobalArrivalEvent} {a : Step} (h : a ∈ instantSteps batch) :
    a.time = batch.1 := by
  rcases List.mem_cons.1 h with rfl | h
  · rfl
  · obtain ⟨b, -, rfl⟩ := List.mem_map.1 h
    rfl

theorem turn_mem_steps {sorted : List GlobalArrivalEvent} {now : Int} {request : Nat} {batch : List GlobalArrivalEvent}
    (h : .turn now request batch ∈ steps sorted) :
    batch ≠ [] ∧ ∀ e ∈ batch, e ∈ sorted ∧ e.arrivalTime = now ∧ e.requestId = request := by
  obtain ⟨b, hb, hmem⟩ := List.mem_flatMap.1 h
  have htime := time_of_mem_instantSteps hmem
  rcases List.mem_cons.1 hmem with hne | hmem
  · cases hne
  obtain ⟨x, hx, hturn⟩ := List.mem_map.1 hmem
  obtain ⟨rfl, rfl, rfl⟩ := Step.turn.inj hturn
  have hinst := Batches.group_grouped GlobalArrivalEvent.arrivalTime sorted
  have hreq := Batches.group_grouped GlobalArrivalEvent.requestId b.2
  refine ⟨hreq.inhabited x hx, fun e he => ?_⟩
  have heb : e ∈ b.2 := by
    rw [← Batches.group_flatMap GlobalArrivalEvent.requestId b.2]
    exact List.mem_flatMap.2 ⟨x, hx, he⟩
  refine ⟨?_, hinst.keyed b hb e heb, hreq.keyed x hx e he⟩
  rw [← Batches.group_flatMap GlobalArrivalEvent.arrivalTime sorted]
  exact List.mem_flatMap.2 ⟨b, hb, heb⟩

theorem steps_time {sorted : List GlobalArrivalEvent} (h : sorted.Pairwise (fun a b => a.arrivalTime ≤ b.arrivalTime)) :
    (steps sorted).Pairwise (fun a b => a.time ≤ b.time) := by
  unfold steps
  rw [List.pairwise_flatMap]
  refine ⟨fun b _ => ?_, (List.pairwise_map.1 (Batches.group_sorted h)).imp (fun hlt x hx y hy => ?_)⟩
  · refine List.pairwise_of_forall_mem_list (fun x hx y hy => ?_)
    rw [time_of_mem_instantSteps hx, time_of_mem_instantSteps hy]
  · rw [time_of_mem_instantSteps hx, time_of_mem_instantSteps hy]
    exact hlt.le

/-! ## The first loop -/

def fresh (g : BipartiteGraph) : ShardArrivalTracker :=
  ⟨g.systematicShardCount, g.parityShardCount, List.replicate (g.systematicShardCount + g.parityShardCount) none⟩

/-- **What the first loop has established** for the events it has seen. -/
structure Validated (g : BipartiteGraph) (events : List GlobalArrivalEvent)
    (s : (Nat → Option ShardArrivalTracker) × (Nat → Option Int)) : Prop where
  known : ∀ e ∈ events, s.1 e.requestId = some (fresh g)
  unknown : ∀ r, (∀ e ∈ events, e.requestId ≠ r) → s.1 r = none ∧ s.2 r = none
  started : ∀ e ∈ events, s.2 e.requestId = some e.requestStartTime ∧ e.requestStartTime ≤ e.arrivalTime

theorem Validated.nil (g : BipartiteGraph) : Validated g [] (fun _ => none, fun _ => none) :=
  ⟨by simp, fun _ _ => ⟨rfl, rfl⟩, by simp⟩

theorem validateEvent_returns {s s' : (Nat → Option ShardArrivalTracker) × (Nat → Option Int)}
    {event : GlobalArrivalEvent} (h : validateEvent g s event = .returns s') :
    s'.1 = tryEmplace s.1 event.requestId (fresh g) ∧
      s'.2 = tryEmplace s.2 event.requestId event.requestStartTime ∧
      s'.2 event.requestId = some event.requestStartTime ∧ event.requestStartTime ≤ event.arrivalTime := by
  unfold validateEvent at h
  split at h
  · cases h
  rename_i trackers htrackers
  dsimp only at h
  split at h
  · cases h
  rename_i hstart
  split at h
  · cases h
  rename_i harr
  obtain rfl := Outcome.returns.inj h
  refine ⟨?_, rfl, not_not.1 hstart, not_lt.1 harr⟩
  cases hr : s.1 event.requestId with
  | some t =>
    rw [hr, if_pos (by rfl)] at htrackers
    rw [tryEmplace_of_some hr]
    exact (Except.ok.inj htrackers).symm
  | none =>
    rw [hr, if_neg (by simp)] at htrackers
    cases hmake : ShardArrivalTracker.make g.systematicShardCount g.parityShardCount with
    | error e =>
      rw [hmake] at htrackers
      cases htrackers
    | ok tracker =>
      rw [hmake, ShardArrivalTracker.make_ok hmake] at htrackers
      rw [tryEmplace_of_none hr]
      exact (Except.ok.inj htrackers).symm

theorem Validated.snoc {events : List GlobalArrivalEvent}
    {s s' : (Nat → Option ShardArrivalTracker) × (Nat → Option Int)}
    {event : GlobalArrivalEvent} (hv : Validated g events s) (h : validateEvent g s event = .returns s') :
    Validated g (events ++ [event]) s' := by
  obtain ⟨h1, h2, hself, hle⟩ := validateEvent_returns h
  refine ⟨fun e he => ?_, fun r hr => ?_, fun e he => ?_⟩
  · by_cases hreq : e.requestId = event.requestId
    · rw [hreq, h1, tryEmplace_self]
      by_cases hseen : ∃ e' ∈ events, e'.requestId = event.requestId
      · obtain ⟨e', he', hreq'⟩ := hseen
        rw [← hreq', hv.known e' he', Option.getD_some]
      · push Not at hseen
        rw [(hv.unknown _ hseen).1, Option.getD_none]
    · rw [h1, tryEmplace_of_ne _ hreq]
      rcases List.mem_append.1 he with he | he
      · exact hv.known e he
      · exact absurd (by rw [List.mem_singleton.1 he]) hreq
  · have hne : r ≠ event.requestId := (hr event (by simp)).symm
    have hold := hv.unknown r (fun e he => hr e (by simp [he]))
    rw [h1, h2, tryEmplace_of_ne _ hne, tryEmplace_of_ne _ hne]
    exact hold
  · rcases List.mem_append.1 he with he | he
    · refine ⟨?_, (hv.started e he).2⟩
      have hold := (hv.started e he).1
      by_cases hreq : e.requestId = event.requestId
      · rw [h2, ← hreq, tryEmplace_of_some hold, hold]
      · rw [h2, tryEmplace_of_ne _ hreq, hold]
    · rw [List.mem_singleton.1 he]
      exact ⟨hself, hle⟩

/-- **What the first loop has established when it returns.** -/
theorem validated_of_returns {sorted : List GlobalArrivalEvent}
    {s : (Nat → Option ShardArrivalTracker) × (Nat → Option Int)}
    (h : loopInPlace (validateEvent g) sorted (fun _ => none, fun _ => none) = .returns s) : Validated g sorted s := by
  rw [loopInPlace_eq_run] at h
  refine run_prefix (I := Validated g) (fun done e rest u u' _ hu hstep => ?_) sorted [] _ s rfl (.nil g) h
  cases hb : validateEvent g u e with
  | throws u'' x => simp [hb, Outcome.returned] at hstep
  | returns u'' =>
    obtain rfl : u'' = u' := by simpa [hb, Outcome.returned] using hstep
    exact hu.snoc hb

def Started (events : List GlobalArrivalEvent) : Prop :=
  (∀ e ∈ events, ∀ e' ∈ events, e.requestId = e'.requestId → e.requestStartTime = e'.requestStartTime) ∧
    ∀ e ∈ events, e.requestStartTime ≤ e.arrivalTime

theorem Validated.consistent {events : List GlobalArrivalEvent}
    {s : (Nat → Option ShardArrivalTracker) × (Nat → Option Int)} (hv : Validated g events s) : Started events := by
  refine ⟨fun e he e' he' hreq => ?_, fun e he => (hv.started e he).2⟩
  have h1 := (hv.started e he).1
  rw [hreq, (hv.started e' he').1] at h1
  exact (Option.some.inj h1).symm

theorem validate_returns (hg : g.Valid) {sorted : List GlobalArrivalEvent} (h : Started sorted) :
    ∃ s, loopInPlace (validateEvent g) sorted (fun _ => none, fun _ => none) = .returns s ∧ Validated g sorted s := by
  suffices hrun :
      ∃ s, Runs.run (fun s e => (validateEvent g s e).returned) (fun _ => none, fun _ => none) sorted = some s ∧
      Validated g sorted s by
    obtain ⟨s, hs, hv⟩ := hrun
    exact ⟨s, (loopInPlace_eq_run _ _ _).2 hs, hv⟩
  refine run_prefix_total (I := Validated g) (fun done e rest u hw hu => ?_) sorted [] _ rfl (.nil g)
  have hmem : e ∈ sorted := by rw [hw]; simp
  have hreturns : ∃ u', validateEvent g u e = .returns u' := by
    unfold validateEvent
    have hstart : tryEmplace u.2 e.requestId e.requestStartTime e.requestId = some e.requestStartTime := by
      rw [tryEmplace_self]
      by_cases hseen : ∃ e' ∈ done, e'.requestId = e.requestId
      · obtain ⟨e', he', hreq⟩ := hseen
        rw [← hreq, (hu.started e' he').1, Option.getD_some,
          h.1 e' (by rw [hw]; simp [he']) e hmem hreq]
      · push Not at hseen
        rw [(hu.unknown _ hseen).2, Option.getD_none]
    rw [ShardArrivalTracker.make_accepts hg.systematicPos hg.parityPos hg.total]
    by_cases hr : (u.1 e.requestId).isSome = true
    · simp only [if_pos hr, hstart, ne_eq, not_true_eq_false, if_false, if_neg (not_lt.2 (h.2 e hmem))]
      exact ⟨_, rfl⟩
    · simp only [if_neg hr, hstart, ne_eq, not_true_eq_false, if_false, if_neg (not_lt.2 (h.2 e hmem))]
      exact ⟨_, rfl⟩
  obtain ⟨u', hu'⟩ := hreturns
  exact ⟨u', by simp only [hu']; rfl, hu.snoc hu'⟩

/-! ## The order in which the events are supplied -/

theorem requestIds_perm {events events' : List GlobalArrivalEvent} (h : events.Perm events') :
    requestIds events = requestIds events' := by
  refine List.Perm.eq_of_pairwise (fun a b _ _ hab hba => absurd hab (Nat.lt_asymm hba)) (sortUnique_sorted _)
    (sortUnique_sorted _) ?_
  refine (List.perm_ext_iff_of_nodup ((sortUnique_sorted _).imp Nat.ne_of_lt)
    ((sortUnique_sorted _).imp Nat.ne_of_lt)).2 (fun r => ?_)
  rw [mem_sortUnique, mem_sortUnique]
  exact (h.map _).mem_iff

theorem Started.perm {events events' : List GlobalArrivalEvent} (h : Started events) (hp : events.Perm events') :
    Started events' :=
  ⟨fun e he e' he' => h.1 e (hp.mem_iff.2 he) e' (hp.mem_iff.2 he'), fun e he => h.2 e (hp.mem_iff.2 he)⟩

/-- **Events with one start for each request have only one sorted order**: what the sort cannot tell apart is equal. -/
theorem sort_eq_of_started (sorter sorter' : EventSort) {events events' : List GlobalArrivalEvent} (h : Started events)
    (hp : events.Perm events') : sorter.sort events = sorter'.sort events' := by
  refine List.Perm.eq_of_pairwise (fun a b ha hb hab hba => ?_) (sorter.sorted events) (sorter'.sorted events')
    ((sorter.perm events).trans (hp.trans (sorter'.perm events').symm))
  obtain ⟨htime, hreq, hshard⟩ := hab.antisymm hba
  have hstart := h.1 a ((sorter.perm events).mem_iff.1 ha) b (hp.mem_iff.2 ((sorter'.perm events').mem_iff.1 hb)) hreq
  cases a
  cases b
  simp only [GlobalArrivalEvent.mk.injEq]
  exact ⟨htime, hreq, hshard, hstart⟩

theorem run_of_rejected {sorter : EventSort} {sim : ClusterSimulator} {events : List GlobalArrivalEvent}
    {s : (Nat → Option ShardArrivalTracker) × (Nat → Option Int)} {e : Exn}
    (h : loopInPlace (validateEvent sim.graph) (sorter.sort events) (fun _ => none, fun _ => none) = .throws s e)
    (oracle : WaitCostOracle) : run sorter sim events (some oracle) = ({ sim with trackers := s.1 }, .error e) := by
  unfold run
  simp only [h]

/-- **What a run that returns has seen**: events that share the start of their request, arrive after it and arrive at no
negative time. -/
theorem started_of_returns {sorter : EventSort} {sim : ClusterSimulator} {events : List GlobalArrivalEvent}
    {oracle : WaitCostOracle} {metrics : MetricsMap} (h : (run sorter sim events (some oracle)).2 = .ok metrics) :
    Started events ∧ ∀ e ∈ events, 0 ≤ e.arrivalTime := by
  cases hv : loopInPlace (validateEvent sim.graph) (sorter.sort events) (fun _ => none, fun _ => none) with
  | throws s e =>
    rw [run_of_rejected hv] at h
    cases h
  | returns s =>
    refine ⟨(validated_of_returns hv).consistent.perm (sorter.perm events), fun e he => ?_⟩
    simp only [run, hv] at h
    split at h
    · cases h
    rename_i t hloop
    -- each instant has checked its time
    have hchecked := ((@loopInPlace_guarded _ _ _ (instant sim.graph sim.estimateRecoveryServiceTime oracle)
      (fun batch => 0 ≤ batch.1) (fun s batch t => by
        constructor
        · intro hreturns
          refine ⟨?_, hreturns⟩
          by_contra hneg
          rw [instant, if_pos (not_le.1 hneg)] at hreturns
          cases hreturns
        · exact And.right) _ _ _).1 hloop).1
    have hmem : e ∈ (Batches.group GlobalArrivalEvent.arrivalTime (sorter.sort events)).flatMap Prod.snd := by
      rw [Batches.group_flatMap]
      exact (sorter.perm events).mem_iff.2 he
    obtain ⟨batch, hbatch, hin⟩ := List.mem_flatMap.1 hmem
    rw [(Batches.group_grouped _ _).keyed batch hbatch e hin]
    exact hchecked batch hbatch

/-- **What `Run` returns does not depend on the order of the events**, nor on how the sort orders equal keys. -/
theorem run_perm (sorter sorter' : EventSort) (sim : ClusterSimulator) {events events' : List GlobalArrivalEvent}
    (hp : events.Perm events') (oracle : Option WaitCostOracle) :
    SameOutcome (run sorter sim events oracle).2 (run sorter' sim events' oracle).2 := by
  -- once one of the two orders passes the first loop, the sorted lists are the same list
  have hagree : Started events → SameOutcome (run sorter sim events oracle).2 (run sorter' sim events' oracle).2 := by
    intro hs
    apply SameOutcome.of_eq
    unfold run
    rw [sort_eq_of_started sorter sorter' hs hp, requestIds_perm hp]
  cases oracle with
  | none => exact .of_eq rfl
  | some oracle =>
    cases hv : loopInPlace (validateEvent sim.graph) (sorter.sort events) (fun _ => none, fun _ => none) with
    | returns s => exact hagree ((validated_of_returns hv).consistent.perm (sorter.perm events))
    | throws s e =>
      cases hv' : loopInPlace (validateEvent sim.graph) (sorter'.sort events') (fun _ => none, fun _ => none) with
      | returns s' =>
        exact hagree ((validated_of_returns hv').consistent.perm ((sorter'.perm events').trans hp.symm))
      | throws s' e' =>
        rw [run_of_rejected hv oracle, run_of_rejected hv' oracle]
        exact .inl ⟨e, e', rfl, rfl⟩

/-- **Neither simulator depends on the order in which events are supplied**: on a list and a permutation of it, two
cluster simulators constructed alike both throw or return equal metrics, and so do two simulations of one request. -/
theorem simulations_ignore_order (sorter sorter' : EventSort) {g : BipartiteGraph} {queue : RecoveryQueue}
    {estimator : Option RecoveryServiceTimeEstimator} {sim sim' : ClusterSimulator}
    (hsim : ClusterSimulator.make g queue estimator = .ok sim)
    (hsim' : ClusterSimulator.make g queue estimator = .ok sim')
    {events events' : List GlobalArrivalEvent} (hp : events.Perm events') (oracle : Option WaitCostOracle)
    {arrivals arrivals' : List ShardArrivalEvent} (hp' : arrivals.Perm arrivals')
    (getCosts : Option (Int → Except Exn CostEstimates)) :
    SameOutcome (ClusterSimulator.run sorter sim events oracle).2 (ClusterSimulator.run sorter' sim' events' oracle).2 ∧
      SameOutcome (RequestSimulation.run g arrivals getCosts) (RequestSimulation.run g arrivals' getCosts) := by
  obtain rfl : sim = sim' := Except.ok.inj (hsim.symm.trans hsim')
  exact ⟨run_perm sorter sorter' sim hp oracle, .of_eq (RequestSimulation.run_perm hp' getCosts)⟩

/-- Two requests over `makeGraph` whose shards come at the same instants, supplied in two orders. -/
theorem simulations_ignore_order_tie : ∃ queue sim, RecoveryQueue.make 1 2 = .ok queue ∧
    ClusterSimulator.make makeGraph queue (some (fun _ => .ok 2)) = .ok sim ∧
    SameOutcome
      (ClusterSimulator.run .stable sim [⟨1, 0, 0, 0⟩, ⟨1, 1, 0, 0⟩, ⟨1, 0, 2, 0⟩, ⟨9, 1, 1, 0⟩, ⟨9, 0, 1, 0⟩]
        (some (fun _ now => .ok (9 - now)))).2
      (ClusterSimulator.run .stable sim [⟨9, 0, 1, 0⟩, ⟨9, 1, 1, 0⟩, ⟨1, 0, 2, 0⟩, ⟨1, 1, 0, 0⟩, ⟨1, 0, 0, 0⟩]
        (some (fun _ now => .ok (9 - now)))).2 ∧
      SameOutcome (RequestSimulation.run makeGraph [⟨0, 1⟩, ⟨2, 1⟩, ⟨1, 9⟩] (some (fun now => .ok ⟨9 - now, 2⟩)))
        (RequestSimulation.run makeGraph [⟨1, 9⟩, ⟨2, 1⟩, ⟨0, 1⟩] (some (fun now => .ok ⟨9 - now, 2⟩))) := by
  obtain ⟨queue, hqueue⟩ : ∃ queue, RecoveryQueue.make 1 2 = .ok queue := ⟨_, rfl⟩
  obtain ⟨sim, hsim⟩ : ∃ sim, ClusterSimulator.make makeGraph queue (some (fun _ => .ok 2)) = .ok sim := ⟨_, rfl⟩
  exact ⟨queue, sim, hqueue, hsim, simulations_ignore_order .stable .stable hsim hsim (by decide) _ (by decide) _⟩

end ClusterSimulator

end CodedLLM
