import CodedLLM.Core
/-!
# Graph — the planner's bipartite graph, the encoder's code graph, and their validators

`BipartiteGraph` is the sorted map the planner walks; `validateGraph` is the check at the head of `CreatePlan`.
`CodeGraph` is the encoder's equation list, which its constructor validates, so a value of it carries that check.
-/
namespace CodedLLM

/-- `std::map` keeps its keys strictly ascending; iteration follows that order. -/
structure BipartiteGraph where
  systematicShardCount : Nat
  parityShardCount : Nat
  parityToSystematic : List (Nat × List Nat)
  sorted : (parityToSystematic.map Prod.fst).Pairwise (· < ·)

def BipartiteGraph.find (g : BipartiteGraph) (parity : Nat) : Option (List Nat) :=
  (g.parityToSystematic.find? (fun e => e.1 == parity)).map Prod.snd

/-- A loop over ids that must be below `bound` and pairwise distinct, with the ids seen so far. -/
def checkIds (bound : Nat) (outOfBounds duplicate : String) : Finset Nat → List Nat → Except Exn Unit
  | _, [] => .ok ()
  | seen, id :: rest =>
    if bound ≤ id then .error (.invalidArgument outOfBounds)
    else if id ∈ seen then .error (.invalidArgument duplicate)
    else checkIds bound outOfBounds duplicate (insert id seen) rest

/-- The neighbour loop of one equation of a `BipartiteGraph`. -/
def checkNeighbors (systematicShardCount : Nat) : List Nat → Except Exn Unit :=
  checkIds systematicShardCount "BipartiteGraph neighbor is not a systematic shard"
    "BipartiteGraph contains a duplicate parity edge" ∅

def checkParity (g : BipartiteGraph) (parityIndex : Nat) : Except Exn Unit :=
  match g.find (toShardId (g.systematicShardCount + parityIndex)) with
  | none => .error (.invalidArgument "BipartiteGraph parity shard IDs must be contiguous")
  | some neighbors =>
    if neighbors = [] then .error (.invalidArgument "BipartiteGraph parity equations must not be empty")
    else checkNeighbors g.systematicShardCount neighbors

def validateGraph (g : BipartiteGraph) : Except Exn Unit :=
  if g.systematicShardCount = 0 ∨ g.parityShardCount = 0 then
    .error (.invalidArgument "BipartiteGraph requires non-zero k and m")
  else if shardIdMax < g.systematicShardCount ∨ shardIdMax + 1 - g.systematicShardCount < g.parityShardCount then
    .error (.invalidArgument "BipartiteGraph shard IDs overflow ShardId")
  else if g.parityToSystematic.length ≠ g.parityShardCount then
    .error (.invalidArgument "BipartiteGraph requires one equation per parity shard")
  else forEach (checkParity g) (List.range g.parityShardCount)

/-- **What an accepted graph is**: `k` and `m` positive with every id a `ShardId`, and one non-empty, duplicate-free
equation over systematic shards for each parity id `k, …, k + m - 1`. -/
structure BipartiteGraph.Valid (g : BipartiteGraph) : Prop where
  systematicPos : 0 < g.systematicShardCount
  parityPos : 0 < g.parityShardCount
  total : g.systematicShardCount + g.parityShardCount ≤ 2 ^ 32
  keys : g.parityToSystematic.map Prod.fst = List.range' g.systematicShardCount g.parityShardCount
  equations : ∀ e ∈ g.parityToSystematic, e.2 ≠ [] ∧ e.2.Nodup ∧ ∀ s ∈ e.2, s < g.systematicShardCount

theorem checkIds_ok (bound : Nat) (t t' : String) : ∀ (ids : List Nat) (seen : Finset Nat),
    checkIds bound t t' seen ids = .ok () ↔ (∀ s ∈ ids, s < bound ∧ s ∉ seen) ∧ ids.Nodup
  | [], _ => by simp [checkIds]
  | n :: ns, seen => by
    unfold checkIds
    by_cases hk : bound ≤ n
    · simp [hk, Nat.not_lt.2 hk]
    · by_cases hu : n ∈ seen
      · simp [hk, hu]
      · rw [if_neg hk, if_neg hu, checkIds_ok bound t t' ns]
        simp only [Finset.mem_insert, not_or, List.mem_cons, forall_eq_or_imp, List.nodup_cons]
        constructor
        · rintro ⟨h, hnd⟩
          exact ⟨⟨⟨Nat.lt_of_not_le hk, hu⟩, fun s hs => ⟨(h s hs).1, (h s hs).2.2⟩⟩,
            fun hm => (h n hm).2.1 rfl, hnd⟩
        · rintro ⟨⟨-, h⟩, hn, hnd⟩
          exact ⟨fun s hs => ⟨(h s hs).1, fun he => hn (he ▸ hs), (h s hs).2⟩, hnd⟩

theorem BipartiteGraph.keys_nodup (g : BipartiteGraph) : (g.parityToSystematic.map Prod.fst).Nodup :=
  g.sorted.imp (fun h => Nat.ne_of_lt h)

theorem BipartiteGraph.find_eq_some (g : BipartiteGraph) (p : Nat) (ns : List Nat) :
    g.find p = some ns ↔ (p, ns) ∈ g.parityToSystematic := by
  unfold BipartiteGraph.find
  constructor
  · intro h
    obtain ⟨e, he, rfl⟩ := Option.map_eq_some_iff.1 h
    have hp : e.1 = p := by simpa using List.find?_some he
    rw [← hp]
    exact List.mem_of_find?_eq_some he
  · intro h
    cases hf : g.parityToSystematic.find? (fun e => e.1 == p) with
    | none => exact absurd (List.find?_eq_none.1 hf (p, ns) h) (by simp)
    | some e =>
      have hp : e.1 = p := by simpa using List.find?_some hf
      have := List.inj_on_of_nodup_map g.keys_nodup (List.mem_of_find?_eq_some hf) h hp
      simp [this]

theorem checkParity_ok (g : BipartiteGraph) (i : Nat) (h : g.systematicShardCount + i < 2 ^ 32) :
    checkParity g i = .ok () ↔ ∃ ns, (g.systematicShardCount + i, ns) ∈ g.parityToSystematic ∧ ns ≠ [] ∧ ns.Nodup ∧
      ∀ s ∈ ns, s < g.systematicShardCount := by
  unfold checkParity
  rw [toShardId, Nat.mod_eq_of_lt h]
  cases hf : g.find (g.systematicShardCount + i) with
  | none =>
    simp only [reduceCtorEq, false_iff, not_exists, not_and]
    intro ns hm
    rw [← BipartiteGraph.find_eq_some, hf] at hm
    cases hm
  | some ns =>
    have hm := (g.find_eq_some _ _).1 hf
    have huniq : ∀ ns', (g.systematicShardCount + i, ns') ∈ g.parityToSystematic → ns' = ns := by
      intro ns' h'
      have := (g.find_eq_some _ _).2 h'
      rw [hf] at this
      exact (Option.some.inj this).symm
    by_cases hn : ns = []
    · simp only [hn, if_true, reduceCtorEq, false_iff, not_exists]
      rintro ns' ⟨h', hne, -⟩
      exact hne (by rw [huniq ns' h', hn])
    · simp only [hn, if_false, checkNeighbors, checkIds_ok, Finset.notMem_empty, not_false_eq_true, and_true]
      constructor
      · rintro ⟨hs, hnd⟩
        exact ⟨ns, hm, hn, hnd, hs⟩
      · rintro ⟨ns', h', -, hnd, hs⟩
        rw [huniq ns' h'] at hnd hs
        exact ⟨hs, hnd⟩

theorem keys_eq_range' {g : BipartiteGraph} (hlen : g.parityToSystematic.length = g.parityShardCount)
    (h : ∀ i < g.parityShardCount, g.systematicShardCount + i ∈ g.parityToSystematic.map Prod.fst) :
    g.parityToSystematic.map Prod.fst = List.range' g.systematicShardCount g.parityShardCount := by
  have hsub : List.range' g.systematicShardCount g.parityShardCount ⊆ g.parityToSystematic.map Prod.fst := by
    intro p hp
    obtain ⟨h1, h2⟩ := List.mem_range'_1.1 hp
    have := h (p - g.systematicShardCount) (by omega)
    rwa [Nat.add_sub_cancel' h1] at this
  have hperm := (List.subperm_of_subset List.nodup_range' hsub).perm_of_length_le (by simp [hlen])
  exact (hperm.eq_of_pairwise (fun a b _ _ hab hba => absurd hab (Nat.lt_asymm hba))
    List.pairwise_lt_range' g.sorted).symm

theorem validateGraph_ok (g : BipartiteGraph) : validateGraph g = .ok () ↔ g.Valid := by
  unfold validateGraph
  by_cases h0 : g.systematicShardCount = 0 ∨ g.parityShardCount = 0
  · rw [if_pos h0]
    refine ⟨(fun h => by cases h), fun h => ?_⟩
    have := h.systematicPos
    have := h.parityPos
    omega
  rw [if_neg h0]
  by_cases h1 : shardIdMax < g.systematicShardCount ∨ shardIdMax + 1 - g.systematicShardCount < g.parityShardCount
  · rw [if_pos h1]
    refine ⟨(fun h => by cases h), fun h => ?_⟩
    have := h.total
    have := h.parityPos
    unfold shardIdMax at h1
    omega
  rw [if_neg h1]
  unfold shardIdMax at h1
  by_cases h2 : g.parityToSystematic.length ≠ g.parityShardCount
  · rw [if_pos h2]
    refine ⟨(fun h => by cases h), fun h => absurd ?_ h2⟩
    have := congrArg List.length h.keys
    simpa using this
  rw [if_neg h2, forEach_ok]
  simp only [List.mem_range]
  have hlt : ∀ i < g.parityShardCount, g.systematicShardCount + i < 2 ^ 32 := by intro i hi; omega
  constructor
  · intro h
    have hk : g.parityToSystematic.map Prod.fst = List.range' g.systematicShardCount g.parityShardCount := by
      refine keys_eq_range' (by simpa using h2) (fun i hi => ?_)
      obtain ⟨ns, hm, -⟩ := (checkParity_ok g i (hlt i hi)).1 (h i hi)
      exact List.mem_map.2 ⟨_, hm, rfl⟩
    refine ⟨by omega, by omega, by omega, hk, fun e he => ?_⟩
    have hmem : e.1 ∈ List.range' g.systematicShardCount g.parityShardCount := hk ▸ List.mem_map.2 ⟨e, he, rfl⟩
    obtain ⟨h3, h4⟩ := List.mem_range'_1.1 hmem
    have hi : e.1 - g.systematicShardCount < g.parityShardCount := by omega
    obtain ⟨ns, hm, hne, hnd, hs⟩ := (checkParity_ok g _ (hlt _ hi)).1 (h _ hi)
    rw [Nat.add_sub_cancel' h3] at hm
    have := List.inj_on_of_nodup_map g.keys_nodup he hm rfl
    rw [this]
    exact ⟨hne, hnd, hs⟩
  · intro h i hi
    have hmem : g.systematicShardCount + i ∈ g.parityToSystematic.map Prod.fst := by
      rw [h.keys]
      exact List.mem_range'_1.2 ⟨by omega, by omega⟩
    obtain ⟨e, he, hei⟩ := List.mem_map.1 hmem
    obtain ⟨hne, hnd, hs⟩ := h.equations e he
    exact (checkParity_ok g i (hlt i hi)).2 ⟨e.2, by rw [← hei]; exact he, hne, hnd, hs⟩

/-! ## The encoder's graph -/

structure ParityEquation where
  output : Nat
  sources : List Nat
  deriving DecidableEq, Repr

/-- The equation loop of `CodeGraph::Validate`, with the outputs seen so far. -/
def checkEquations (systematicShardCount totalShards : Nat) : Finset Nat → List ParityEquation → Except Exn Unit
  | _, [] => .ok ()
  | outputs, equation :: rest =>
    if equation.output < systematicShardCount ∨ totalShards ≤ equation.output then
      .error (.invalidArgument "CodeGraph parity output is out of bounds")
    else if equation.output ∈ outputs then
      .error (.invalidArgument "CodeGraph contains duplicate parity outputs")
    else if equation.sources = [] then
      .error (.invalidArgument "CodeGraph parity equations must not be empty")
    else
      match checkIds totalShards "CodeGraph source shard is out of bounds" "CodeGraph contains duplicate edges" ∅
          equation.sources with
      | .error e => .error e
      | .ok () => checkEquations systematicShardCount totalShards (insert equation.output outputs) rest

def validateCodeGraph (systematicShardCount parityShardCount : Nat) (equations : List ParityEquation) :
    Except Exn Unit :=
  if systematicShardCount = 0 ∨ parityShardCount = 0 then
    .error (.invalidArgument "CodeGraph requires non-zero k and m")
  else if shardIdMax - parityShardCount < systematicShardCount then
    .error (.invalidArgument "CodeGraph shard count overflows ShardId")
  else if equations.length ≠ parityShardCount then
    .error (.invalidArgument "CodeGraph requires exactly one equation per parity shard")
  else checkEquations systematicShardCount (toShardId (systematicShardCount + parityShardCount)) ∅ equations

theorem checkEquations_ok (k total : Nat) : ∀ (es : List ParityEquation) (seen : Finset Nat),
    checkEquations k total seen es = .ok () ↔
      (∀ e ∈ es, k ≤ e.output ∧ e.output < total ∧ e.output ∉ seen ∧ e.sources ≠ [] ∧ e.sources.Nodup ∧
        ∀ s ∈ e.sources, s < total) ∧ (es.map ParityEquation.output).Nodup
  | [], _ => by simp [checkEquations]
  | e :: es, seen => by
    unfold checkEquations
    rw [List.forall_mem_cons, List.map_cons, List.nodup_cons]
    by_cases hb : e.output < k ∨ total ≤ e.output
    · rw [if_pos hb]
      refine ⟨fun h => (by cases h), fun h => ?_⟩
      have := h.1.1
      omega
    rw [if_neg hb]
    by_cases hseen : e.output ∈ seen
    · rw [if_pos hseen]
      exact ⟨fun h => (by cases h), fun h => absurd hseen h.1.1.2.2.1⟩
    rw [if_neg hseen]
    by_cases hempty : e.sources = []
    · rw [if_pos hempty]
      exact ⟨fun h => (by cases h), fun h => absurd hempty h.1.1.2.2.2.1⟩
    rw [if_neg hempty]
    have hids :=
      checkIds_ok total "CodeGraph source shard is out of bounds" "CodeGraph contains duplicate edges" e.sources ∅
    simp only [Finset.notMem_empty, not_false_eq_true, and_true] at hids
    cases hc :
      checkIds total "CodeGraph source shard is out of bounds" "CodeGraph contains duplicate edges" ∅ e.sources with
    | error x =>
      rw [hc] at hids
      refine ⟨fun h => (by cases h), fun h => ?_⟩
      cases hids.2 ⟨h.1.1.2.2.2.2.2, h.1.1.2.2.2.2.1⟩
    | ok u =>
      rw [hc] at hids
      obtain ⟨hlt, hnd⟩ := hids.1 rfl
      simp only [checkEquations_ok k total es, Finset.mem_insert, not_or, List.mem_map, not_exists, not_and]
      constructor
      · rintro ⟨h, hn⟩
        exact ⟨⟨⟨by omega, by omega, hseen, hempty, hnd, hlt⟩, fun e' he' => ⟨(h e' he').1, (h e' he').2.1,
          (h e' he').2.2.1.2, (h e' he').2.2.2⟩⟩, fun e' he' => (h e' he').2.2.1.1, hn⟩
      · rintro ⟨⟨-, h⟩, hne, hn⟩
        exact ⟨fun e' he' => ⟨(h e' he').1, (h e' he').2.1, ⟨hne e' he', (h e' he').2.2.1⟩, (h e' he').2.2.2⟩, hn⟩

/-- **What the encoder accepts**: its count of shards has to be a `ShardId` itself. -/
theorem validateCodeGraph_ok {k m : Nat} (hm : m < 2 ^ 32) (es : List ParityEquation) :
    validateCodeGraph k m es = .ok () ↔ 0 < k ∧ 0 < m ∧ k + m < 2 ^ 32 ∧ es.length = m ∧
      (∀ e ∈ es, k ≤ e.output ∧ e.output < k + m ∧ e.sources ≠ [] ∧ e.sources.Nodup ∧ ∀ s ∈ e.sources, s < k + m) ∧
      (es.map ParityEquation.output).Nodup := by
  unfold validateCodeGraph shardIdMax
  by_cases h0 : k = 0 ∨ m = 0
  · rw [if_pos h0]
    refine ⟨fun h => (by cases h), fun h => ?_⟩
    omega
  rw [if_neg h0]
  by_cases h1 : 2 ^ 32 - 1 - m < k
  · rw [if_pos h1]
    refine ⟨fun h => (by cases h), fun h => ?_⟩
    omega
  rw [if_neg h1]
  by_cases h2 : es.length ≠ m
  · rw [if_pos h2]
    exact ⟨fun h => (by cases h), fun h => absurd h.2.2.2.1 h2⟩
  rw [if_neg h2, toShardId, Nat.mod_eq_of_lt (by omega), checkEquations_ok]
  simp only [Finset.notMem_empty, not_false_eq_true, true_and]
  exact ⟨fun h => ⟨by omega, by omega, by omega, not_not.1 h2, h⟩, fun h => h.2.2.2.2⟩

/-- The constructor runs `Validate`, so a `CodeGraph` exists only if that passed. -/
structure CodeGraph where
  systematicShardCount : Nat
  parityShardCount : Nat
  parityEquations : List ParityEquation
  validated : validateCodeGraph systematicShardCount parityShardCount parityEquations = .ok ()

/-- **The encoder's graph and the planner's are the same code**: equal counts, and the equations of the map, listed in
any order. -/
structure CodeGraph.Describes (c : CodeGraph) (g : BipartiteGraph) : Prop where
  systematic : c.systematicShardCount = g.systematicShardCount
  parity : c.parityShardCount = g.parityShardCount
  equations : (c.parityEquations.map (fun e => (e.output, e.sources))).Perm g.parityToSystematic

/-- The graph of the coordinator's tests: two systematic shards and their XOR. -/
def makeGraph : BipartiteGraph := ⟨2, 1, [(2, [0, 1])], by decide⟩

def makeThreeDataTwoParityGraph : BipartiteGraph := ⟨3, 2, [(3, [0, 1]), (4, [1, 2])], by decide⟩

def makeCodeGraph : CodeGraph := ⟨2, 1, [⟨2, [0, 1]⟩], by decide⟩

def makeThreeDataTwoParityCodeGraph : CodeGraph := ⟨3, 2, [⟨3, [0, 1]⟩, ⟨4, [1, 2]⟩], by decide⟩

end CodedLLM
