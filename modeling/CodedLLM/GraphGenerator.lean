import CodedLLM.Policy
/-!
# GraphGenerator — regular graphs, and the bounds on `k + m`

`generateRegularGraph` draws one equation of `degree` neighbours per parity from a shuffled list of candidates; every
graph it returns is accepted by the planner.  The second part compares the five places that bound the shard counts:
the planner, the generator, the tracker and the workload allow `2 ^ 32` shards, and the encoder, which keeps the count
itself in a `ShardId`, one less.
-/
namespace CodedLLM

/-- `std::shuffle` and its generator: the `n`-th call permutes its range in some way. -/
structure Shuffler where
  shuffle : Nat → List Nat → List Nat
  perm : ∀ n l, (shuffle n l).Perm l

/-- The loop over the parities; the candidates stay shuffled from one round to the next. -/
def regularEquations (shuffler : Shuffler) (k degree : Nat) : Nat → Nat → List Nat → List (Nat × List Nat)
  | _, 0, _ => []
  | parityIndex, rounds + 1, candidates =>
    (toShardId (k + parityIndex), (shuffler.shuffle parityIndex candidates).take degree) ::
      regularEquations shuffler k degree (parityIndex + 1) rounds (shuffler.shuffle parityIndex candidates)

theorem regularEquations_keys (shuffler : Shuffler) (k degree : Nat) : ∀ (rounds i : Nat) (candidates : List Nat),
    k + i + rounds ≤ 2 ^ 32 →
    (regularEquations shuffler k degree i rounds candidates).map Prod.fst = List.range' (k + i) rounds
  | 0, _, _, _ => rfl
  | rounds + 1, i, candidates, h => by
    have hid : toShardId (k + i) = k + i := Nat.mod_eq_of_lt (by omega)
    rw [regularEquations, List.map_cons, regularEquations_keys shuffler k degree rounds (i + 1) _ (by omega), hid]
    rfl

/-- **Each equation** has `degree` distinct neighbours among the candidates. -/
theorem regularEquations_mem (shuffler : Shuffler) (k degree : Nat) : ∀ (rounds i : Nat) (candidates : List Nat),
    candidates.Perm (List.range k) → degree ≤ k →
    ∀ e ∈ regularEquations shuffler k degree i rounds candidates, e.2.length = degree ∧ e.2.Nodup ∧ ∀ s ∈ e.2, s < k
  | 0, _, _, _, _ => by simp [regularEquations]
  | rounds + 1, i, candidates, hc, hd => by
    have hperm : (shuffler.shuffle i candidates).Perm (List.range k) := (shuffler.perm i candidates).trans hc
    intro e he
    rw [regularEquations, List.mem_cons] at he
    rcases he with rfl | he
    · refine ⟨?_, ?_, fun s hs => ?_⟩
      · rw [List.length_take, hperm.length_eq, List.length_range]
        exact Nat.min_eq_left hd
      · exact (hperm.nodup_iff.2 List.nodup_range).sublist (List.take_sublist ..)
      · exact List.mem_range.1 (hperm.mem_iff.1 (List.mem_of_mem_take hs))
    · exact regularEquations_mem shuffler k degree rounds (i + 1) _ hperm hd e he

def generateRegularGraph (k m degree : Nat) (shuffler : Shuffler) : Except Exn BipartiteGraph :=
  if k = 0 ∨ m = 0 ∨ degree = 0 then
    .error (.invalidArgument "Regular graph dimensions and degree must be non-zero")
  else if k < degree then
    .error (.invalidArgument "Regular graph degree cannot exceed systematic shard count")
  else if h : shardIdMax < k ∨ shardIdMax + 1 - k < m then
    .error (.invalidArgument "Regular graph shard IDs overflow ShardId")
  else
    .ok ⟨k, m, regularEquations shuffler k degree 0 m (List.range k), by
      rw [regularEquations_keys shuffler k degree m 0 _ (by unfold shardIdMax at h; omega)]
      exact List.pairwise_lt_range'⟩

/-- **What it accepts and returns**: positive dimensions within the ids, and then a graph whose equations all have
`degree` neighbours. -/
theorem generateRegularGraph_ok {k m degree : Nat} {shuffler : Shuffler} {g : BipartiteGraph}
    (h : generateRegularGraph k m degree shuffler = .ok g) :
    g.Valid ∧ g.systematicShardCount = k ∧ g.parityShardCount = m ∧ 0 < degree ∧
      ∀ e ∈ g.parityToSystematic, e.2.length = degree := by
  unfold generateRegularGraph at h
  split at h
  · cases h
  rename_i h0
  split at h
  · cases h
  rename_i hd
  split at h
  · cases h
  rename_i hm
  unfold shardIdMax at hm
  obtain rfl := (Except.ok.inj h).symm
  have hmem := regularEquations_mem shuffler k degree m 0 (List.range k) (List.Perm.refl _) (by omega)
  refine ⟨⟨?_, ?_, ?_, ?_, fun e he => ?_⟩, rfl, rfl, by omega, fun e he => (hmem e he).1⟩
  · show 0 < k
    omega
  · show 0 < m
    omega
  · show k + m ≤ 2 ^ 32
    omega
  · exact regularEquations_keys shuffler k degree m 0 _ (by omega)
  · obtain ⟨hlen, hnd, hlt⟩ := hmem e he
    refine ⟨fun hnil => ?_, hnd, hlt⟩
    rw [hnil, List.length_nil] at hlen
    omega

theorem generateRegularGraph_accepts {k m degree : Nat} (shuffler : Shuffler) (hk : 0 < k) (hm : 0 < m)
    (htotal : k + m ≤ 2 ^ 32) (hd : 0 < degree) (hdk : degree ≤ k) :
    ∃ g, generateRegularGraph k m degree shuffler = .ok g := by
  unfold generateRegularGraph
  rw [if_neg (by omega), if_neg (by omega), dif_neg (by unfold shardIdMax; omega)]
  exact ⟨_, rfl⟩

/-! ## Plans over regular graphs -/

/-- **Every operation of a plan over a regular graph has `degree` sources**: the parity, and its equation without the
shard that is rebuilt. -/
theorem Peels.sources_length {g : BipartiteGraph} {A R R' : Finset Nat} {ops : List XorOperation} {degree : Nat}
    (hreg : ∀ e ∈ g.parityToSystematic, e.2.length = degree ∧ e.2.Nodup) (h : Peels g A R ops R') :
    ∀ op ∈ ops, op.sources.length = degree := by
  induction h with
  | nil R => simp
  | cons parity neighbors missing hmem hav hone rest ih =>
    intro op hop
    rcases List.mem_cons.1 hop with rfl | hop
    · obtain ⟨hlen, hnd⟩ := hreg (parity, neighbors) hmem
      have hin : missing ∈ neighbors := (mem_of_filter_eq_singleton hone).1
      have herase : neighbors.filter (· ≠ missing) = neighbors.erase missing := by
        rw [hnd.erase_eq_filter]
        refine List.filter_congr (fun x _ => ?_)
        by_cases hx : x = missing <;> simp [hx]
      have hpos := List.length_pos_of_mem hin
      change (parity :: neighbors.filter (· ≠ missing)).length = degree
      rw [herase, List.length_cons, List.length_erase_of_mem hin]
      change neighbors.length = degree at hlen
      omega
    · exact ih op hop

/-! ## The workload's counts -/

def validateSystematicShardCount (systematicShardCount : Nat) : Except Exn Unit :=
  if systematicShardCount = 0 ∨ shardIdMax < systematicShardCount then
    .error (.invalidArgument "Systematic shard count is out of bounds")
  else .ok ()

/-- The checks on the shard counts in the constructor of `WorkloadGenerator`; the sum is taken in 64 bits. -/
def checkWorkloadShardCounts (systematicShardCount parityShardCount : Nat) : Except Exn Unit :=
  match validateSystematicShardCount systematicShardCount with
  | .error e => .error e
  | .ok () =>
    if shardIdMax + 1 < (systematicShardCount + parityShardCount) % 2 ^ 64 then
      .error (.invalidArgument "Workload shard IDs overflow ShardId")
    else .ok ()

theorem checkWorkloadShardCounts_accepts {k m : Nat} (hk : 0 < k) (hm : 0 < m) (htotal : k + m ≤ 2 ^ 32) :
    checkWorkloadShardCounts k m = .ok () := by
  unfold checkWorkloadShardCounts validateSystematicShardCount shardIdMax
  rw [if_neg (by omega), Nat.mod_eq_of_lt (by omega)]
  exact if_neg (by omega)

theorem ShardArrivalTracker.make_accepts {k m : Nat} (hk : 0 < k) (hm : 0 < m) (htotal : k + m ≤ 2 ^ 32) :
    ShardArrivalTracker.make k m = .ok ⟨k, m, List.replicate (k + m) none⟩ := by
  unfold ShardArrivalTracker.make shardIdMax
  rw [if_neg (by omega), Nat.mod_eq_of_lt (by omega), if_neg (by omega)]

/-! ## One code, two graphs -/

def BipartiteGraph.ofEquations (k m : Nat) (equations : List ParityEquation)
    (h : (equations.map ParityEquation.output).Nodup) : BipartiteGraph where
  systematicShardCount := k
  parityShardCount := m
  parityToSystematic := (equations.map (fun e => (e.output, e.sources))).insertionSort (fun a b => a.1 ≤ b.1)
  sorted := by
    have hperm := List.perm_insertionSort (fun a b : Nat × List Nat => a.1 ≤ b.1)
      (equations.map (fun e => (e.output, e.sources)))
    have hsorted := List.pairwise_insertionSort (fun a b : Nat × List Nat => a.1 ≤ b.1)
      (equations.map (fun e => (e.output, e.sources)))
    have hnd := (hperm.map Prod.fst).nodup_iff.2 (by simpa [List.map_map, Function.comp_def] using h)
    exact ((List.pairwise_map.2 hsorted).and hnd).imp (fun hab => Nat.lt_of_le_of_ne hab.1 hab.2)

theorem BipartiteGraph.ofEquations_perm (k m : Nat) (equations : List ParityEquation)
    (h : (equations.map ParityEquation.output).Nodup) :
    (BipartiteGraph.ofEquations k m equations h).parityToSystematic.Perm
      (equations.map (fun e => (e.output, e.sources))) :=
  List.perm_insertionSort _ _

/-- **An accepted code graph is an accepted bipartite graph with fewer than `2 ^ 32` shards**, when no equation has a
parity among its sources; the order of the equations does not matter. -/
theorem validateCodeGraph_iff_validateGraph {k m : Nat} (hm : m < 2 ^ 32) {equations listed : List ParityEquation}
    (hout : (equations.map ParityEquation.output).Nodup) (hsys : ∀ e ∈ equations, ∀ s ∈ e.sources, s < k)
    (hp : listed.Perm equations) :
    validateCodeGraph k m listed = .ok () ↔
      validateGraph (.ofEquations k m equations hout) = .ok () ∧ k + m < 2 ^ 32 := by
  have hperm := BipartiteGraph.ofEquations_perm k m equations hout
  have hkeys : ((BipartiteGraph.ofEquations k m equations hout).parityToSystematic.map Prod.fst).Perm
      (equations.map ParityEquation.output) := by
    simpa [List.map_map, Function.comp_def] using hperm.map Prod.fst
  rw [validateCodeGraph_ok hm, validateGraph_ok]
  constructor
  · rintro ⟨hk, hmpos, hlt, hlen, heqs, -⟩
    refine ⟨⟨hk, hmpos, Nat.le_of_lt hlt, ?_, fun e he => ?_⟩, hlt⟩
    · -- the outputs are `m` distinct ids below `k + m` and not below `k`
      have hsub : equations.map ParityEquation.output ⊆ List.range' k m := by
        intro x hx
        obtain ⟨e, he, rfl⟩ := List.mem_map.1 hx
        obtain ⟨h1, h2, -⟩ := heqs e (hp.mem_iff.2 he)
        exact List.mem_range'_1.2 ⟨h1, h2⟩
      have hall := (List.subperm_of_subset hout hsub).perm_of_length_le
        (by rw [List.length_range', List.length_map, ← hp.length_eq, hlen])
      exact (hkeys.trans hall).eq_of_pairwise (fun a b _ _ hab hba => absurd hab (Nat.lt_asymm hba))
        (BipartiteGraph.sorted _) List.pairwise_lt_range'
    · obtain ⟨e', he', rfl⟩ := List.mem_map.1 (hperm.mem_iff.1 he)
      obtain ⟨-, -, hne, hnd, -⟩ := heqs e' (hp.mem_iff.2 he')
      exact ⟨hne, hnd, hsys e' he'⟩
  · rintro ⟨hg, hlt⟩
    have hrange : (equations.map ParityEquation.output).Perm (List.range' k m) := hg.keys ▸ hkeys.symm
    refine ⟨hg.systematicPos, hg.parityPos, hlt, ?_, fun e he => ?_, (hp.map _).nodup_iff.2 hout⟩
    · have := hrange.length_eq
      rw [List.length_map, List.length_range'] at this
      rw [hp.length_eq, this]
    · have he' := hp.mem_iff.1 he
      obtain ⟨h1, h2⟩ := List.mem_range'_1.1 (hrange.mem_iff.1 (List.mem_map.2 ⟨e, he', rfl⟩))
      obtain ⟨hne, hnd, -⟩ := hg.equations (e.output, e.sources) (hperm.mem_iff.2 (List.mem_map.2 ⟨e, he', rfl⟩))
      exact ⟨h1, h2, hne, hnd, fun s hs => Nat.lt_add_right m (hsys e he' s hs)⟩

/-- **The validators accept the same codes below `2 ^ 32` shards**: the encoder accepts the equations, in any order,
exactly when the planner accepts their map and the count of shards is itself a `ShardId`; and whatever the planner
accepts, the generator (for any degree up to `k`), the tracker and the workload accept too. -/
theorem codes_agree {k m : Nat} (hm : m < 2 ^ 32) (equations : List ParityEquation)
    (hout : (equations.map ParityEquation.output).Nodup) (hsys : ∀ e ∈ equations, ∀ s ∈ e.sources, s < k) :
    (∀ listed : List ParityEquation, listed.Perm equations →
      (validateCodeGraph k m listed = .ok () ↔
        validateGraph (.ofEquations k m equations hout) = .ok () ∧ k + m ≤ shardIdMax)) ∧
    (validateGraph (.ofEquations k m equations hout) = .ok () →
      (∀ degree shuffler, 0 < degree → degree ≤ k → ∃ g, generateRegularGraph k m degree shuffler = .ok g) ∧
      (∃ tracker, ShardArrivalTracker.make k m = .ok tracker) ∧ checkWorkloadShardCounts k m = .ok ()) := by
  refine ⟨fun listed hp => ?_, fun hv => ?_⟩
  · rw [validateCodeGraph_iff_validateGraph hm hout hsys hp]
    unfold shardIdMax
    exact and_congr_right fun _ => by omega
  · have hg := (validateGraph_ok _).1 hv
    have hk : 0 < k := hg.systematicPos
    have hmpos : 0 < m := hg.parityPos
    have htotal : k + m ≤ 2 ^ 32 := hg.total
    refine ⟨fun degree shuffler hd hdk => ?_, ⟨_, ShardArrivalTracker.make_accepts hk hmpos htotal⟩, ?_⟩
    · exact generateRegularGraph_accepts shuffler hk hmpos htotal hd hdk
    · exact checkWorkloadShardCounts_accepts hk hmpos htotal

theorem codes_agree_threeDataTwoParity :
    (∀ listed : List ParityEquation, listed.Perm [⟨4, [1, 2]⟩, ⟨3, [0, 1]⟩] →
      (validateCodeGraph 3 2 listed = .ok () ↔
        validateGraph (.ofEquations 3 2 [⟨4, [1, 2]⟩, ⟨3, [0, 1]⟩] (by decide)) = .ok () ∧ 3 + 2 ≤ shardIdMax)) ∧
    (validateGraph (.ofEquations 3 2 [⟨4, [1, 2]⟩, ⟨3, [0, 1]⟩] (by decide)) = .ok () →
      (∀ degree shuffler, 0 < degree → degree ≤ 3 → ∃ g, generateRegularGraph 3 2 degree shuffler = .ok g) ∧
      (∃ tracker, ShardArrivalTracker.make 3 2 = .ok tracker) ∧ checkWorkloadShardCounts 3 2 = .ok ()) :=
  codes_agree (by decide) [⟨4, [1, 2]⟩, ⟨3, [0, 1]⟩] (by decide) (by decide)

/-- **With `2 ^ 32` shards the planner plans and the encoder refuses.** -/
theorem full_code_not_encodable :
    validateGraph (.ofEquations (2 ^ 32 - 1) 1 [⟨2 ^ 32 - 1, [0]⟩] (by decide)) = .ok () ∧
      validateCodeGraph (2 ^ 32 - 1) 1 [⟨2 ^ 32 - 1, [0]⟩] ≠ .ok () := by
  decide

end CodedLLM
