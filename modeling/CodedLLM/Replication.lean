import CodedLLM.ParameterSweep
import CodedLLM.Rotations
/-!
# Replication — the replicated workloads that coding is compared with

`SelectCapacityNormalizedReplicas` reads `replicaCount` shards of a shuffled order from a start that moves on with the
request: the windows of `Rotations`.  `ApplyReplication` and `ApplyCapacityNormalizedReplication` let a second copy of
the systematic (the selected) shards race the first; the two share one loop and differ in the events it draws a delay
for.  What the engines of the standard library return is a parameter: `mt19937 seed` permutes, and the delays are not
negative.
-/
namespace CodedLLM

open Rotations (window)
open ClusterSimulator (Started requestIds)

/-! ## The selection -/

/-- Where the window of a request starts; the product is taken in 64 bits. -/
def replicaStart (requestId systematicShardCount replicaCount : Nat) : Nat :=
  requestId % systematicShardCount * replicaCount % 2 ^ 64 % systematicShardCount

def pushReplica (permutation : List Nat) (systematicShardCount start : Nat) (selected : List Nat) (replica : Nat) :
    Except Exn (List Nat) :=
  match permutation[(start + replica) % 2 ^ 64 % systematicShardCount]? with
  | none => .error vectorAt
  | some shard => .ok (selected ++ [shard])

def replicaOrder (mt19937 : UInt32 → Shuffler) (systematicShardCount : Nat) (replicationSeed : UInt32) : List Nat :=
  (mt19937 replicationSeed).shuffle 0 ((List.range systematicShardCount).map toShardId)

def selectCapacityNormalizedReplicas (mt19937 : UInt32 → Shuffler) (requestId systematicShardCount replicaCount : Nat)
    (replicationSeed : UInt32) : Except Exn (List Nat) :=
  match validateSystematicShardCount systematicShardCount with
  | .error e => .error e
  | .ok () =>
    if systematicShardCount < replicaCount then
      .error (.invalidArgument "Replica count exceeds systematic shard count")
    else
      loop (pushReplica (replicaOrder mt19937 systematicShardCount replicationSeed) systematicShardCount
        (replicaStart requestId systematicShardCount replicaCount)) (List.range replicaCount) []

theorem validateSystematicShardCount_ok {k : Nat} : validateSystematicShardCount k = .ok () ↔
    1 ≤ k ∧ k ≤ shardIdMax := by
  unfold validateSystematicShardCount
  split
  · rename_i h
    exact ⟨fun hk => (by cases hk), fun hk => (by omega)⟩
  · rename_i h
    exact ⟨fun _ => by omega, fun _ => rfl⟩

theorem replicaOrder_perm (mt19937 : UInt32 → Shuffler) {k : Nat} (hk : k ≤ shardIdMax) (seed : UInt32) :
    (replicaOrder mt19937 k seed).Perm (List.range k) := by
  have hids : (List.range k).map toShardId = List.range k := by
    refine (List.map_congr_left (g := fun i => i) (fun i hi => Nat.mod_eq_of_lt ?_)).trans (List.map_id' _)
    have := List.mem_range.1 hi
    unfold shardIdMax at hk
    omega
  unfold replicaOrder
  rw [hids]
  exact (mt19937 seed).perm 0 (List.range k)

/-- **The start does not overflow**: both factors are below `2 ^ 32`. -/
theorem replicaStart_eq {k m : Nat} (hk : 1 ≤ k) (hk' : k ≤ shardIdMax) (hm : m ≤ k) (request : Nat) :
    request % k * m < 2 ^ 64 ∧ replicaStart request k m = request % k * m % k := by
  have hlt : request % k * m < 2 ^ 64 := by
    have hmod : request % k < k := Nat.mod_lt _ hk
    unfold shardIdMax at hk'
    have hle : request % k * m ≤ (2 ^ 32 - 1) * (2 ^ 32 - 1) := Nat.mul_le_mul (by omega) (by omega)
    omega
  refine ⟨hlt, ?_⟩
  unfold replicaStart
  rw [Nat.mod_eq_of_lt hlt]

theorem selectCapacityNormalizedReplicas_eq (mt19937 : UInt32 → Shuffler) {k m : Nat} (hk : 1 ≤ k)
    (hk' : k ≤ shardIdMax) (hm : m ≤ k) (seed : UInt32) (request : Nat) :
    selectCapacityNormalizedReplicas mt19937 request k m seed =
    .ok (window (replicaOrder mt19937 k seed) m request) := by
  have hlen : (replicaOrder mt19937 k seed).length = k := by
    rw [(replicaOrder_perm mt19937 hk' seed).length_eq, List.length_range]
  unfold selectCapacityNormalizedReplicas
  rw [validateSystematicShardCount_ok.2 ⟨hk, hk'⟩]
  simp only
  rw [if_neg (by omega), (replicaStart_eq hk hk' hm request).2]
  generalize replicaOrder mt19937 k seed = order at hlen
  -- the rotation does not see the two reductions modulo the length
  have hrotate : order.rotate (request * m) = order.rotate (request % k * m % k) := by
    subst hlen
    rw [List.rotate_mod, ← List.rotate_mod, ← Nat.mod_mul_mod, List.rotate_mod]
  have hstart : request % k * m % k < k := Nat.mod_lt _ hk
  unfold shardIdMax at hk'
  unfold window
  rw [hrotate]
  refine loop_range (g := fun n => (order.rotate (request % k * m % k)).take n) m (fun n hn => ?_)
  have hget : (order.rotate (request % k * m % k))[n]? = order[(request % k * m % k + n) % k]? := by
    rw [List.getElem?_rotate (by omega), hlen, Nat.add_comm]
  have hin : (request % k * m % k + n) % k < order.length := by
    rw [hlen]
    exact Nat.mod_lt _ hk
  unfold pushReplica
  rw [Nat.mod_eq_of_lt (b := 2 ^ 64) (by omega), List.getElem?_eq_getElem hin]
  simp only
  rw [List.take_add_one, hget, List.getElem?_eq_getElem hin, Option.toList_some]

theorem replicaWindow_spec (mt19937 : UInt32 → Shuffler) {k m : Nat} (hk : k ≤ shardIdMax) (hm : m ≤ k) (seed : UInt32)
    (request : Nat) :
    (window (replicaOrder mt19937 k seed) m request).length = m ∧
      (window (replicaOrder mt19937 k seed) m request).Nodup ∧
      ∀ shard ∈ window (replicaOrder mt19937 k seed) m request, shard < k := by
  have hperm := replicaOrder_perm mt19937 hk seed
  refine ⟨?_, ?_, fun shard hshard => ?_⟩
  · apply Rotations.window_length
    rwa [hperm.length_eq, List.length_range]
  · exact Rotations.window_nodup (hperm.nodup_iff.2 List.nodup_range) m request
  · exact List.mem_range.1 (hperm.mem_iff.1 (Rotations.mem_of_mem_window hshard))

/-- **The selection is exact and balanced**: a request gets `m` different shards, with no overflow on the way, and
over `k` requests with different residues, such as `k` in a row, every shard is selected `m` times. -/
theorem replicaSelection_exact_balanced (mt19937 : UInt32 → Shuffler) {k m : Nat} (hk : 1 ≤ k) (hk' : k ≤ 2 ^ 32 - 1)
    (hm : m ≤ k) (seed : UInt32) :
    ∃ selected : Nat → List Nat,
      (∀ request, selectCapacityNormalizedReplicas mt19937 request k m seed = .ok (selected request) ∧
        (selected request).length = m ∧ (selected request).Nodup ∧ (∀ shard ∈ selected request, shard < k) ∧
        request % k * m < 2 ^ 64 ∧ ∀ replica < m, replicaStart request k m + replica < 2 ^ 64) ∧
      ∀ requests : List Nat, requests.length = k → (requests.map (· % k)).Nodup →
        ∀ shard < k, requests.countP (fun request => shard ∈ selected request) = m := by
  have hperm := replicaOrder_perm mt19937 hk' seed
  have hlen : (replicaOrder mt19937 k seed).length = k := by rw [hperm.length_eq, List.length_range]
  have hnd : (replicaOrder mt19937 k seed).Nodup := hperm.nodup_iff.2 List.nodup_range
  refine ⟨window (replicaOrder mt19937 k seed) m, fun request => ?_, ?_⟩
  · obtain ⟨hcount, hdistinct, hlt⟩ := replicaWindow_spec mt19937 hk' hm seed request
    refine ⟨selectCapacityNormalizedReplicas_eq mt19937 hk hk' hm seed request, hcount, hdistinct, hlt,
      (replicaStart_eq hk hk' hm request).1, fun replica hreplica => ?_⟩
    have hstart : request % k * m % k < k := Nat.mod_lt _ hk
    rw [(replicaStart_eq hk hk' hm request).2]
    omega
  · intro requests hcount hres shard hshard
    refine Rotations.countP_windows_of_residues hnd (by omega) ?_ (by omega) (by rwa [hlen])
    exact hperm.mem_iff.2 (List.mem_range.2 hshard)

/-- What `std::shuffle` of libstdc++ does with two and with six shards and a fresh generator of seed 98765. -/
def shuffler98765 : Shuffler where
  shuffle _ l := if l = [0, 1] then [1, 0] else if l = [0, 1, 2, 3, 4, 5] then [2, 3, 1, 0, 5, 4] else l
  perm := by
    intro _ l
    split
    · rename_i h
      rw [h]
      decide
    · split
      · rename_i h
        rw [h]
        decide
      · exact .refl l

theorem replicaSelection_exact_balanced_sixShards : ∃ selected : Nat → List Nat,
    (∀ request, selectCapacityNormalizedReplicas (fun _ => shuffler98765) request 6 4 98765 = .ok (selected request) ∧
      (selected request).length = 4 ∧ (selected request).Nodup ∧ (∀ shard ∈ selected request, shard < 6) ∧
      request % 6 * 4 < 2 ^ 64 ∧ ∀ replica < 4, replicaStart request 6 4 + replica < 2 ^ 64) ∧
    ∀ shard < 6, [7, 8, 9, 10, 11, 12].countP (fun request => shard ∈ selected request) = 4 := by
  obtain ⟨selected, hexact, hbalanced⟩ :=
    replicaSelection_exact_balanced (fun _ => shuffler98765) (k := 6) (m := 4) (by decide) (by decide) (by decide) 98765
  exact ⟨selected, hexact, hbalanced [7, 8, 9, 10, 11, 12] rfl (by decide)⟩

example : selectCapacityNormalizedReplicas (fun _ => shuffler98765) 8 6 4 98765 = .ok [1, 0, 5, 4] := by decide +kernel

/-! ## The replicated workloads -/

/-- `WorkloadConfig`; a finite `double` is a rational, and `none` is one that is not finite. -/
structure WorkloadConfig where
  numRequests : Nat
  requestArrivalRateHz : Option ℚ
  stragglerProbability : Option ℚ
  normalMean : Int
  normalStddev : Int
  stragglerMean : Int
  stragglerStddev : Int
  seed : UInt32

def validateConfig (config : WorkloadConfig) : Except Exn Unit :=
  if config.numRequests = 0 then .error (.invalidArgument "Workload must contain at least one request")
  else if config.requestArrivalRateHz.all (· ≤ 0) then
    .error (.invalidArgument "Request arrival rate must be positive")
  else if config.stragglerProbability.all (fun p => p < 0 ∨ 1 < p) then
    .error (.invalidArgument "Straggler probability must be between zero and one")
  else if config.normalMean < 0 ∨ config.normalStddev < 0 ∨ config.stragglerMean < 0 ∨ config.stragglerStddev < 0 then
    .error (.invalidArgument "Workload delay parameters must not be negative")
  else .ok ()

/-- What the engines draw for a configuration: the request arrivals, and the delays that a fresh `DelaySampler`
returns one after the other. -/
structure Draws where
  generateRequestArrivalTimes : WorkloadConfig → List Int
  sample : WorkloadConfig → UInt32 → Nat → Int

/-- Draws in the range of their type: a delay is rounded from `max(0.0, ·)`. -/
structure Sampling extends Draws where
  sample_nonneg : ∀ config seed draw, 0 ≤ sample config seed draw

instance : Coe Sampling Draws := ⟨Sampling.toDraws⟩

def validateReplicationEvent (requestArrivals : List Int) (event : GlobalArrivalEvent) : Except Exn Unit :=
  match requestArrivals[event.requestId]? with
  | none => .error (.invalidArgument "Replication event request ID is out of bounds")
  | some requestArrival =>
    if event.requestStartTime ≠ requestArrival then
      .error (.invalidArgument "Replication events do not match the workload request schedule")
    else .ok ()

def validateReplicationEvents (events : List GlobalArrivalEvent) (requestArrivals : List Int) : Except Exn Unit :=
  forEach (validateReplicationEvent requestArrivals) events

def isSelected (shardId : Nat) (selected : List Nat) : Bool := selected.contains shardId

/-- The loop over the events: what it has written, and the request of each event it has drawn a delay for.  The
sampler is at draw `drawnFor.length`. -/
structure ReplicaRace where
  replicated : List GlobalArrivalEvent
  drawnFor : List Nat
  deriving DecidableEq, Repr

def raceReplica (requestArrivals : List Int) (sample : Nat → Int) (protects : GlobalArrivalEvent → Except Exn Bool)
    (race : ReplicaRace) (event : GlobalArrivalEvent) : Except Exn ReplicaRace :=
  match protects event with
  | .error e => .error e
  | .ok false => .ok ⟨race.replicated ++ [event], race.drawnFor⟩
  | .ok true =>
    match requestArrivals[event.requestId]? with
    | none => .error vectorAt
    | some requestArrival =>
      .ok ⟨race.replicated ++
          [{ event with arrivalTime := min event.arrivalTime (requestArrival + sample race.drawnFor.length) }],
        race.drawnFor ++ [event.requestId]⟩

def protectsSystematic (systematicShardCount : Nat) (event : GlobalArrivalEvent) : Except Exn Bool :=
  .ok (event.shardId < systematicShardCount)

def protectsSelected (mt19937 : UInt32 → Shuffler) (systematicShardCount replicaCount : Nat) (replicationSeed : UInt32)
    (event : GlobalArrivalEvent) : Except Exn Bool :=
  if systematicShardCount ≤ event.shardId then .ok false
  else
    match selectCapacityNormalizedReplicas mt19937 event.requestId systematicShardCount replicaCount
      replicationSeed with
    | .error e => .error e
    | .ok selected => .ok (isSelected event.shardId selected)

def replicationRace (draws : Draws) (events : List GlobalArrivalEvent) (config : WorkloadConfig)
    (systematicShardCount : Nat) (replicationSeed : UInt32) : Except Exn ReplicaRace := do
  validateConfig config
  validateSystematicShardCount systematicShardCount
  validateReplicationEvents events (draws.generateRequestArrivalTimes config)
  loop (raceReplica (draws.generateRequestArrivalTimes config) (draws.sample config replicationSeed)
    (protectsSystematic systematicShardCount)) events ⟨[], []⟩

def applyReplication (draws : Draws) (events : List GlobalArrivalEvent) (config : WorkloadConfig)
    (systematicShardCount : Nat) (replicationSeed : UInt32) : Except Exn (List GlobalArrivalEvent) :=
  (replicationRace draws events config systematicShardCount replicationSeed).map ReplicaRace.replicated

def capacityNormalizedRace (mt19937 : UInt32 → Shuffler) (draws : Draws) (events : List GlobalArrivalEvent)
    (config : WorkloadConfig) (systematicShardCount replicaCount : Nat) (replicationSeed : UInt32) :
    Except Exn ReplicaRace := do
  validateConfig config
  validateSystematicShardCount systematicShardCount
  if systematicShardCount < replicaCount then
    .error (.invalidArgument "Replica count exceeds systematic shard count")
  else
    validateReplicationEvents events (draws.generateRequestArrivalTimes config)
    loop (raceReplica (draws.generateRequestArrivalTimes config) (draws.sample config replicationSeed)
      (protectsSelected mt19937 systematicShardCount replicaCount replicationSeed)) events ⟨[], []⟩

def applyCapacityNormalizedReplication (mt19937 : UInt32 → Shuffler) (draws : Draws)
    (events : List GlobalArrivalEvent)
    (config : WorkloadConfig) (systematicShardCount replicaCount : Nat) (replicationSeed : UInt32) :
    Except Exn (List GlobalArrivalEvent) :=
  (capacityNormalizedRace mt19937 draws events config systematicShardCount replicaCount replicationSeed).map
    ReplicaRace.replicated

/-! ## What replication may change -/

/-- What a replica may do to an event: nothing but bring its arrival forward, and only where `P` allows it. -/
structure Advanced (P : GlobalArrivalEvent → Prop) (event event' : GlobalArrivalEvent) : Prop where
  requestId : event'.requestId = event.requestId
  shardId : event'.shardId = event.shardId
  requestStartTime : event'.requestStartTime = event.requestStartTime
  only : event'.arrivalTime ≠ event.arrivalTime → P event
  notLater : event'.arrivalTime ≤ event.arrivalTime

/-- **What a replica with a delay may do to an event**: bring its arrival forward, no further than the start of its
request. -/
structure Accelerated (P : GlobalArrivalEvent → Prop) (event event' : GlobalArrivalEvent) : Prop extends
    Advanced P event event' where
  started : event.requestStartTime ≤ event'.arrivalTime

/-- What the race makes of an event, with any draws, and with delays that are not negative. -/
def Raced (sample : Nat → Int) (P : GlobalArrivalEvent → Prop) (event event' : GlobalArrivalEvent) : Prop :=
  Advanced P event event' ∧
    ((∀ draw, 0 ≤ sample draw) → event.requestStartTime ≤ event.arrivalTime → Accelerated P event event')

theorem advanced_of_raced {sample : Nat → Int} {P : GlobalArrivalEvent → Prop}
    {events events' : List GlobalArrivalEvent} (h : List.Forall₂ (Raced sample P) events events') :
    List.Forall₂ (Advanced P) events events' :=
  h.imp (fun _ _ hraced => hraced.1)

theorem accelerated_of_raced {sample : Nat → Int} (hsample : ∀ draw, 0 ≤ sample draw) {P : GlobalArrivalEvent → Prop}
    {events events' : List GlobalArrivalEvent} (hlate : ∀ e ∈ events, e.requestStartTime ≤ e.arrivalTime)
    (h : List.Forall₂ (Raced sample P) events events') : List.Forall₂ (Accelerated P) events events' := by
  induction h with
  | nil => exact .nil
  | cons hraced _ ih =>
    exact .cons (hraced.2 hsample (hlate _ List.mem_cons_self)) (ih (fun e he => hlate e (List.mem_cons_of_mem _ he)))

theorem validateReplicationEvent_ok {requestArrivals : List Int} {event : GlobalArrivalEvent} :
    validateReplicationEvent requestArrivals event = .ok () ↔
      requestArrivals[event.requestId]? = some event.requestStartTime := by
  unfold validateReplicationEvent
  cases h : requestArrivals[event.requestId]? with
  | none => simp
  | some requestArrival =>
    simp only [Option.some.injEq]
    split
    · rename_i hne
      exact ⟨fun hx => (by cases hx), fun hx => absurd hx.symm hne⟩
    · rename_i heq
      exact ⟨fun _ => (Decidable.not_not.1 heq).symm, fun _ => rfl⟩

section Race

variable {requestArrivals : List Int} (sample : Nat → Int) {protects : GlobalArrivalEvent → Except Exn Bool}
  {P : GlobalArrivalEvent → Prop} [DecidablePred P]

theorem raceReplica_step {event : GlobalArrivalEvent} (hvalid : validateReplicationEvent requestArrivals event = .ok ())
    (hprotects : protects event = .ok (decide (P event))) (race : ReplicaRace) :
    ∃ event', raceReplica requestArrivals sample protects race event = .ok ⟨race.replicated ++ [event'],
      race.drawnFor ++ if P event then [event.requestId] else []⟩ ∧ Raced sample P event event' := by
  unfold raceReplica
  rw [hprotects]
  by_cases hP : P event
  · simp only [hP, decide_true, if_true]
    rw [validateReplicationEvent_ok.1 hvalid]
    have hadvanced : ∀ replica, Advanced P event { event with arrivalTime := min event.arrivalTime replica } :=
      fun replica => ⟨rfl, rfl, rfl, fun _ => hP, min_le_left ..⟩
    refine ⟨_, rfl, hadvanced _, fun hsample hlate => ⟨hadvanced _, le_min hlate ?_⟩⟩
    have hdelay := hsample race.drawnFor.length
    omega
  · simp only [hP, decide_false, if_false, List.append_nil]
    have hadvanced : Advanced P event event := ⟨rfl, rfl, rfl, fun hne => absurd rfl hne, le_rfl⟩
    exact ⟨event, rfl, hadvanced, fun _ hlate => ⟨hadvanced, hlate⟩⟩

/-- **The whole loop** advances the events one by one and draws for the protected ones. -/
theorem raceReplica_loop : ∀ (events : List GlobalArrivalEvent) (race : ReplicaRace),
    validateReplicationEvents events requestArrivals = .ok () →
    (∀ e ∈ events, protects e = .ok (decide (P e))) →
    ∃ replicated, loop (raceReplica requestArrivals sample protects) events race =
      .ok ⟨race.replicated ++ replicated, race.drawnFor ++ (events.filter P).map GlobalArrivalEvent.requestId⟩ ∧
      List.Forall₂ (Raced sample P) events replicated
  | [], race, _, _ => ⟨[], by simp [loop], .nil⟩
  | event :: events, race, hvalid, hprotects => by
    have hall := (forEach_ok _ _).1 hvalid
    obtain ⟨event', hstep, hraced⟩ := raceReplica_step sample (hall event (by simp))
      (hprotects event (by simp)) race
    obtain ⟨replicated, hloop, hrest⟩ := raceReplica_loop events
      ⟨race.replicated ++ [event'], race.drawnFor ++ if P event then [event.requestId] else []⟩
      ((forEach_ok _ _).2 (fun e he => hall e (by simp [he]))) (fun e he => hprotects e (by simp [he]))
    refine ⟨event' :: replicated, ?_, .cons hraced hrest⟩
    unfold loop
    rw [hstep]
    simp only
    rw [hloop, List.append_assoc, List.append_assoc, List.singleton_append, List.filter_cons]
    by_cases hP : P event
    · simp [hP]
    · simp [hP]

end Race

/-! ## The baseline on an advanced stream -/

theorem mem_advanced {P : GlobalArrivalEvent → Prop} {events events' : List GlobalArrivalEvent}
    (h : List.Forall₂ (Advanced P) events events') :
    (∀ e ∈ events, ∃ e' ∈ events', Advanced P e e') ∧ ∀ e' ∈ events', ∃ e ∈ events, Advanced P e e' := by
  induction h with
  | nil => simp
  | @cons e e' events events' hacc _ ih =>
    refine ⟨fun a ha => ?_, fun a ha => ?_⟩
    · rcases List.mem_cons.1 ha with rfl | ha
      · exact ⟨e', by simp, hacc⟩
      · obtain ⟨b, hb, hab⟩ := ih.1 a ha
        exact ⟨b, by simp [hb], hab⟩
    · rcases List.mem_cons.1 ha with rfl | ha
      · exact ⟨e, by simp, hacc⟩
      · obtain ⟨b, hb, hab⟩ := ih.2 a ha
        exact ⟨b, by simp [hb], hab⟩

theorem requestIds_advanced {P : GlobalArrivalEvent → Prop} {events events' : List GlobalArrivalEvent}
    (h : List.Forall₂ (Advanced P) events events') : requestIds events' = requestIds events := by
  have hmap : events'.map GlobalArrivalEvent.requestId = events.map GlobalArrivalEvent.requestId := by
    induction h with
    | nil => rfl
    | cons hacc _ ih => rw [List.map_cons, List.map_cons, hacc.requestId, ih]
  unfold requestIds
  rw [hmap]

theorem SharedStarts.advanced {P : GlobalArrivalEvent → Prop} {events events' : List GlobalArrivalEvent}
    (hs : SharedStarts events) (h : List.Forall₂ (Advanced P) events events') : SharedStarts events' := by
  have hback := (mem_advanced h).2
  intro a ha b hb hab
  obtain ⟨a₀, ha₀, hacca⟩ := hback a ha
  obtain ⟨b₀, hb₀, haccb⟩ := hback b hb
  rw [hacca.requestStartTime, haccb.requestStartTime]
  apply hs a₀ ha₀ b₀ hb₀
  rw [← hacca.requestId, ← haccb.requestId, hab]

def NoSlower (metrics metrics' : MetricsMap) : Prop :=
  metrics'.map Prod.fst = metrics.map Prod.fst ∧
    ∀ p ∈ metrics, ∀ p' ∈ metrics', p'.1 = p.1 → p'.2.latency ≤ p.2.latency

/-- **The baseline is monotone**: it accepts an advanced stream if it accepts the stream, and no request is
slower. -/
theorem runBaseline_advanced {P : GlobalArrivalEvent → Prop} {events events' : List GlobalArrivalEvent}
    (hs : SharedStarts events) (h : List.Forall₂ (Advanced P) events events') {k : Nat} {metrics : MetricsMap}
    (hrun : runBaseline events k = .ok metrics) :
    ∃ metrics', runBaseline events' k = .ok metrics' ∧ NoSlower metrics metrics' := by
  obtain ⟨hto, hback⟩ := mem_advanced h
  obtain ⟨hbad, hgood⟩ := runBaseline_spec hs k
  -- the stream was accepted, so every request has a systematic arrival, and has one after the advance
  have harrival : ∀ e ∈ events, ∃ t, SystematicArrival k events e.requestId t := by
    by_contra hnot
    push Not at hnot
    obtain ⟨x, hx⟩ := hbad hnot
    rw [hrun] at hx
    cases hx
  have harrival' : ∀ e' ∈ events', ∃ t, SystematicArrival k events' e'.requestId t := by
    intro e' he'
    obtain ⟨e, he, hacc⟩ := hback e' he'
    obtain ⟨t, a, ha, hreq, hlt, -⟩ := harrival e he
    obtain ⟨a', ha', hacca⟩ := hto a ha
    refine ⟨a'.arrivalTime, a', ha', ?_, ?_, rfl⟩
    · rw [hacca.requestId, hreq, hacc.requestId]
    · rw [hacca.shardId]
      exact hlt
  obtain ⟨m, hm, hkeys, hlats⟩ := hgood harrival
  obtain rfl : m = metrics := Except.ok.inj (hm.symm.trans hrun)
  obtain ⟨metrics', hrun', hkeys', hlats'⟩ := (runBaseline_spec (hs.advanced h) k).2 harrival'
  refine ⟨metrics', hrun', ?_, fun p hp p' hp' hpp => ?_⟩
  · rw [hkeys', hkeys, requestIds_advanced h]
  · obtain ⟨M, hM, hlat⟩ := hlats p hp
    obtain ⟨M', hM', hlat'⟩ := hlats' p' hp'
    obtain ⟨a', ha', hreq', hlt', rfl⟩ := hM'.1
    obtain ⟨a, ha, hacc⟩ := hback a' ha'
    have hreq : a.requestId = p.1 := by rw [← hacc.requestId, hreq', hpp]
    have hle : a.arrivalTime ≤ M := hM.2 ⟨a, ha, hreq, by rw [← hacc.shardId]; exact hlt', rfl⟩
    rw [hlat' a' ha' hreq', hlat a ha hreq, hacc.requestStartTime]
    have := hacc.notLater
    omega

/-! ## The budget -/

theorem countP_selected {k : Nat} {events : List GlobalArrivalEvent} {request : Nat} {selected : List Nat}
    (hone : ∀ i < k, (events.filter (fun a => a.requestId = request ∧ a.shardId = i)).length = 1)
    (hnd : selected.Nodup) (hlt : ∀ s ∈ selected, s < k) :
    events.countP (fun a => a.requestId = request ∧ a.shardId ∈ selected) = selected.length := by
  induction selected with
  | nil => simp
  | cons s selected ih =>
    have hs := hone s (hlt s (by simp))
    have hrest := ih (List.nodup_cons.1 hnd).2 (fun i hi => hlt i (by simp [hi]))
    have hfresh : s ∉ selected := (List.nodup_cons.1 hnd).1
    rw [← List.countP_eq_length_filter] at hs
    rw [List.length_cons, ← hrest, ← hs]
    -- the two kinds of event do not overlap
    clear hs hrest ih hone
    induction events with
    | nil => simp
    | cons a events ih =>
      rw [List.countP_cons, List.countP_cons, List.countP_cons, ih]
      by_cases hreq : a.requestId = request
      · by_cases has : a.shardId = s
        · simp [hreq, has, hfresh]
          omega
        · simp [hreq, has]
          omega
      · simp [hreq]

/-- **Full replication**: the systematic arrivals race. -/
theorem replicationRace_ok (draws : Draws) {events : List GlobalArrivalEvent} {config : WorkloadConfig} {k : Nat}
    (hconfig : validateConfig config = .ok ()) (hk : validateSystematicShardCount k = .ok ())
    (hevents : validateReplicationEvents events (draws.generateRequestArrivalTimes config) = .ok ())
    (seed : UInt32) :
    ∃ race, replicationRace draws events config k seed = .ok race ∧
      List.Forall₂ (Raced (draws.sample config seed) (fun e => e.shardId < k)) events race.replicated := by
  obtain ⟨replicated, hloop, hacc⟩ := raceReplica_loop (draws.sample config seed)
    (P := fun e => e.shardId < k) events ⟨[], []⟩ hevents (fun _ _ => rfl)
  have hrun : replicationRace draws events config k seed =
      .ok ⟨replicated, (events.filter (fun e => e.shardId < k)).map GlobalArrivalEvent.requestId⟩ := by
    unfold replicationRace
    rw [hconfig, hk, hevents]
    exact hloop
  exact ⟨_, hrun, hacc⟩

/-- **Capacity-normalised replication**: the arrivals of the selected shards race, one draw each. -/
theorem capacityNormalizedRace_ok (mt19937 : UInt32 → Shuffler) (draws : Draws) {events : List GlobalArrivalEvent}
    {config : WorkloadConfig} {k m : Nat} (hconfig : validateConfig config = .ok ())
    (hk : validateSystematicShardCount k = .ok ()) (hm : m ≤ k)
    (hevents : validateReplicationEvents events (draws.generateRequestArrivalTimes config) = .ok ())
    {seed : UInt32} {selected : Nat → List Nat}
    (hselected : ∀ request, selectCapacityNormalizedReplicas mt19937 request k m seed = .ok (selected request)) :
    ∃ race, capacityNormalizedRace mt19937 draws events config k m seed = .ok race ∧
      List.Forall₂ (Raced (draws.sample config seed) (fun e => e.shardId < k ∧ e.shardId ∈ selected e.requestId))
        events race.replicated ∧
      race.drawnFor = (events.filter (fun e => e.shardId < k ∧ e.shardId ∈ selected e.requestId)).map
        GlobalArrivalEvent.requestId := by
  have hprotects : ∀ e ∈ events, protectsSelected mt19937 k m seed e =
      .ok (decide (e.shardId < k ∧ e.shardId ∈ selected e.requestId)) := by
    intro e _
    unfold protectsSelected isSelected
    split
    · rename_i hge
      rw [decide_eq_false (fun h => Nat.not_le.2 h.1 hge)]
    · rename_i hlt
      rw [hselected]
      simp [Nat.lt_of_not_le hlt]
  obtain ⟨replicated, hloop, hacc⟩ :=
    raceReplica_loop (draws.sample config seed) events ⟨[], []⟩ hevents hprotects
  refine ⟨⟨replicated, _⟩, ?_, hacc, rfl⟩
  unfold capacityNormalizedRace
  rw [hconfig, hk, hevents]
  exact Eq.trans (if_neg (by omega)) hloop

theorem started_of_validated {events : List GlobalArrivalEvent} {requestArrivals : List Int}
    (hevents : validateReplicationEvents events requestArrivals = .ok ())
    (hlate : ∀ e ∈ events, e.requestStartTime ≤ e.arrivalTime) : Started events := by
  have hall := (forEach_ok _ _).1 hevents
  refine ⟨fun e he e' he' hreq => ?_, hlate⟩
  have h := validateReplicationEvent_ok.1 (hall e he)
  rw [hreq, validateReplicationEvent_ok.1 (hall e' he')] at h
  exact (Option.some.inj h).symm

/-- **Replication can only help, and only where it is paid for**: on validated events both strategies return the
events with some systematic (selected) arrivals brought forward; the baseline accepts both if it accepts the events,
and no request is slower; and with each systematic shard of each request once, the capacity-normalised strategy draws
`m` delays for a request. -/
theorem replication_only_helps (mt19937 : UInt32 → Shuffler) (sampling : Sampling) {events : List GlobalArrivalEvent}
    {config : WorkloadConfig} {k m : Nat} (hconfig : validateConfig config = .ok ())
    (hk : validateSystematicShardCount k = .ok ()) (hm : m ≤ k)
    (hevents : validateReplicationEvents events (sampling.generateRequestArrivalTimes config) = .ok ())
    (hlate : ∀ e ∈ events, e.requestStartTime ≤ e.arrivalTime) (seed : UInt32) :
    ∃ (full capped : List GlobalArrivalEvent) (selected : Nat → List Nat),
      (∀ request, selectCapacityNormalizedReplicas mt19937 request k m seed = .ok (selected request)) ∧
      applyReplication sampling events config k seed = .ok full ∧
      List.Forall₂ (Accelerated (fun e => e.shardId < k)) events full ∧
      applyCapacityNormalizedReplication mt19937 sampling events config k m seed = .ok capped ∧
      List.Forall₂ (Accelerated (fun e => e.shardId < k ∧ e.shardId ∈ selected e.requestId)) events capped ∧
      (∀ k' metrics, runBaseline events k' = .ok metrics →
        (∃ metrics', runBaseline full k' = .ok metrics' ∧ NoSlower metrics metrics') ∧
        ∃ metrics', runBaseline capped k' = .ok metrics' ∧ NoSlower metrics metrics') ∧
      ((∀ e ∈ events, ∀ i < k, (events.filter (fun a => a.requestId = e.requestId ∧ a.shardId = i)).length = 1) →
        ∃ race, capacityNormalizedRace mt19937 sampling events config k m seed = .ok race ∧
          ∀ e ∈ events, race.drawnFor.count e.requestId = m) := by
  obtain ⟨hpos, hmax⟩ := validateSystematicShardCount_ok.1 hk
  have hselected := selectCapacityNormalizedReplicas_eq mt19937 hpos hmax hm seed
  have hstarted := started_of_validated hevents hlate
  have hsample := sampling.sample_nonneg config seed
  obtain ⟨full, hfull, hracedFull⟩ := replicationRace_ok sampling hconfig hk hevents seed
  obtain ⟨capped, hcapped, hracedCapped, hdrawn⟩ :=
    capacityNormalizedRace_ok mt19937 sampling hconfig hk hm hevents hselected
  refine ⟨full.replicated, capped.replicated, _, hselected, ?_, accelerated_of_raced hsample hlate hracedFull, ?_,
    accelerated_of_raced hsample hlate hracedCapped, ?_, fun hone => ?_⟩
  · unfold applyReplication
    rw [hfull]
    rfl
  · unfold applyCapacityNormalizedReplication
    rw [hcapped]
    rfl
  · intro k' metrics hrun
    exact ⟨runBaseline_advanced hstarted.1 (advanced_of_raced hracedFull) hrun,
      runBaseline_advanced hstarted.1 (advanced_of_raced hracedCapped) hrun⟩
  · refine ⟨capped, hcapped, fun e he => ?_⟩
    obtain ⟨hlen, hnd, hlt⟩ := replicaWindow_spec mt19937 hmax hm seed e.requestId
    have hbudget := countP_selected (hone e he) hnd hlt
    rw [hlen] at hbudget
    rw [hdrawn, List.count, List.countP_map, List.countP_filter]
    refine Eq.trans (List.countP_congr (fun a _ => ?_)) hbudget
    simp only [Function.comp_apply, Bool.and_eq_true, beq_iff_eq, decide_eq_true_eq]
    constructor
    · rintro ⟨hreq, -, hmem⟩
      exact ⟨hreq, hreq ▸ hmem⟩
    · rintro ⟨hreq, hmem⟩
      exact ⟨hreq, hlt _ hmem, hreq ▸ hmem⟩

/-- Two requests, with the delays that libstdc++ draws for it from seed 98765. -/
def twoRequestConfig : WorkloadConfig := ⟨2, some 1000, some (1 / 4), 2000, 250, 20000, 2000, 12345⟩

def twoRequestSampling : Sampling where
  generateRequestArrivalTimes _ := [306, 385]
  sample _ _ draw := if draw = 0 then 20793 else if draw = 1 then 1807 else if draw = 2 then 20527 else 2287
  sample_nonneg := by
    intro _ _ draw
    split_ifs <;> decide

def twoRequestEvents : List GlobalArrivalEvent :=
  [⟨2288, 0, 0, 306⟩, ⟨2738, 0, 1, 306⟩, ⟨2241, 0, 2, 306⟩, ⟨2551, 1, 0, 385⟩, ⟨2438, 1, 1, 385⟩, ⟨2074, 1, 2, 385⟩]

theorem replication_only_helps_twoRequests : ∃ (full capped : List GlobalArrivalEvent) (selected : Nat → List Nat),
    applyReplication twoRequestSampling twoRequestEvents twoRequestConfig 2 98765 = .ok full ∧
    List.Forall₂ (Accelerated (fun e => e.shardId < 2)) twoRequestEvents full ∧
    applyCapacityNormalizedReplication (fun _ => shuffler98765) twoRequestSampling twoRequestEvents twoRequestConfig 2 1
      98765 = .ok capped ∧
    List.Forall₂ (Accelerated (fun e => e.shardId < 2 ∧ e.shardId ∈ selected e.requestId)) twoRequestEvents capped ∧
    (∃ metrics, runBaseline capped 2 = .ok metrics) ∧
    ∃ race, capacityNormalizedRace (fun _ => shuffler98765) twoRequestSampling twoRequestEvents twoRequestConfig 2 1
      98765 = .ok race ∧ ∀ e ∈ twoRequestEvents, race.drawnFor.count e.requestId = 1 := by
  obtain ⟨full, capped, selected, -, hfull, haccFull, hcapped, haccCapped, hbaseline, hbudget⟩ :=
    @replication_only_helps (fun _ => shuffler98765) twoRequestSampling twoRequestEvents twoRequestConfig 2 1
      (by decide +kernel) (by decide) (by decide) (by decide) (by decide) 98765
  obtain ⟨metrics, hrun⟩ : ∃ metrics, runBaseline twoRequestEvents 2 = .ok metrics := ⟨_, rfl⟩
  obtain ⟨metrics', hrun', -⟩ := (hbaseline 2 metrics hrun).2
  exact ⟨full, capped, selected, hfull, haccFull, hcapped, haccCapped, ⟨metrics', hrun'⟩, hbudget (by decide)⟩

example :
    applyCapacityNormalizedReplication (fun _ => shuffler98765) twoRequestSampling twoRequestEvents twoRequestConfig 2 1
    98765 = .ok [⟨2288, 0, 0, 306⟩, ⟨2738, 0, 1, 306⟩, ⟨2241, 0, 2, 306⟩, ⟨2192, 1, 0, 385⟩, ⟨2438, 1, 1, 385⟩,
      ⟨2074, 1, 2, 385⟩] := by decide +kernel

end CodedLLM
