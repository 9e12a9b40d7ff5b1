import CodedLLM.Peeling
import CodedLLM.Planner
/-!
# PeelingPlans — which erasures the planner recovers, and what its plans look like

The scan of `CreatePlan` drops a shard in the middle of a pass and gives up after a pass without progress.  Each
emission is a step of `Peeling`, and a pass without progress leaves a stopping set; so the planner fails exactly on
the erasures that contain one (`createPlan_exact`), in whatever order the equations are scanned.  The plans it returns
have the structure `createPlan_structure` says.
-/
namespace CodedLLM

/-! ## Stopping sets -/

def equationsOf (g : BipartiteGraph) (available : Finset Nat) : Set (Finset Nat) :=
  {e | ∃ parity neighbors, (parity, neighbors) ∈ g.parityToSystematic ∧ parity ∈ available ∧ e = neighbors.toFinset}

/-- **`S` stops the planner**: no available parity has exactly one neighbour in it. -/
def StopsPlanner (g : BipartiteGraph) (available S : Finset Nat) : Prop :=
  ∀ parity neighbors, (parity, neighbors) ∈ g.parityToSystematic → parity ∈ available →
    (neighbors.filter (· ∈ S)).length ≠ 1

theorem toFinset_inter (ns : List Nat) (S : Finset Nat) : ns.toFinset ∩ S = (ns.filter (· ∈ S)).toFinset := by
  ext x
  simp

theorem stopsPlanner_iff {g : BipartiteGraph} (hg : g.Valid) (available S : Finset Nat) :
    StopsPlanner g available S ↔ Peeling.Stopping (equationsOf g available) S := by
  have hcard : ∀ p ns, (p, ns) ∈ g.parityToSystematic → (ns.toFinset ∩ S).card = (ns.filter (· ∈ S)).length := by
    intro p ns hmem
    rw [toFinset_inter, List.toFinset_card_of_nodup ((hg.entry hmem).2.2.1.filter _)]
  constructor
  · rintro h e ⟨p, ns, hmem, hav, rfl⟩
    rw [hcard p ns hmem]
    exact h p ns hmem hav
  · intro h p ns hmem hav
    rw [← hcard p ns hmem]
    exact h _ ⟨p, ns, hmem, hav, rfl⟩

/-! ## A pass -/

theorem Emits.steps {g : BipartiteGraph} {A : Finset Nat} {a b : PeelState} (h : Emits g A a b) :
    Relation.ReflTransGen (Peeling.Step (equationsOf g A)) a.remaining b.remaining := by
  induction h with
  | refl st => exact .refl
  | emit p ns x hmem hav hone _ ih =>
    refine .head (.solve ns.toFinset x ⟨p, ns, hmem, hav, rfl⟩ ?_) ih
    rw [toFinset_inter, hone]
    rfl

theorem Emits.madeProgress {g : BipartiteGraph} {A : Finset Nat} {a b : PeelState} (h : Emits g A a b)
    (ha : a.madeProgress = true) : b.madeProgress = true := by
  induction h with
  | refl => exact ha
  | emit p ns x _ _ _ _ ih => exact ih rfl

theorem missingNeighbor_count (remaining : Finset Nat) (ns : List Nat) :
    (missingNeighbor remaining ns).2 = (ns.filter (· ∈ remaining)).length := by
  unfold missingNeighbor
  rw [missingNeighbor_foldl, Nat.zero_add]

/-- **A pass without progress** has changed nothing, and no equation of it has one missing neighbour. -/
theorem scan_stuck {g : BipartiteGraph} {A : Finset Nat} : ∀ (es : List (Nat × List Nat)) (st : PeelState),
    es ⊆ g.parityToSystematic → (scan A es st).madeProgress = false →
    ∀ p ns, (p, ns) ∈ es → p ∈ A → (ns.filter (· ∈ st.remaining)).length ≠ 1
  | [], _, _, _, _, _, hmem, _ => by cases hmem
  | (q, ms) :: es, st, hsub, hstuck, p, ns, hmem, hav => by
    have hes : es ⊆ g.parityToSystematic := fun e he => hsub (List.mem_cons_of_mem _ he)
    unfold scan at hstuck
    by_cases hq : q ∉ A
    · rw [if_pos hq] at hstuck
      rcases List.mem_cons.1 hmem with heq | hmem
      · obtain ⟨rfl, rfl⟩ := Prod.mk.inj heq
        exact absurd hav hq
      · exact scan_stuck es st hes hstuck p ns hmem hav
    rw [if_neg hq] at hstuck
    by_cases hc : (missingNeighbor st.remaining ms).2 ≠ 1
    · rw [if_pos hc] at hstuck
      rcases List.mem_cons.1 hmem with heq | hmem
      · obtain ⟨rfl, rfl⟩ := Prod.mk.inj heq
        rw [← missingNeighbor_count]
        exact hc
      · exact scan_stuck es st hes hstuck p ns hmem hav
    · -- an emission is progress, and the rest of the pass keeps it
      exfalso
      rw [if_neg hc] at hstuck
      dsimp only at hstuck
      split at hstuck
      · cases hstuck
      · have hemits := scan_emits g A es (emitOperation st q ms (missingNeighbor st.remaining ms).1) hes
        rw [hemits.madeProgress rfl] at hstuck
        cases hstuck

/-! ## The loop, in any order -/

structure ScanOrder (g : BipartiteGraph) where
  equations : Nat → List (Nat × List Nat)
  perm : ∀ pass, (equations pass).Perm g.parityToSystematic

/-- The order of the source: every pass follows the map. -/
def ScanOrder.ofMap (g : BipartiteGraph) : ScanOrder g := ⟨fun _ => g.parityToSystematic, fun _ => .refl _⟩

/-- The loop of `CreatePlan`, if the passes scanned the equations in the given orders. -/
def peelInOrder {g : BipartiteGraph} (order : ScanOrder g) (available : Finset Nat) (pass : Nat) (st : PeelState) :
    DecodePlan :=
  if st.remaining = ∅ then ⟨st.operations, st.dependencies, true⟩
  else if (scan available (order.equations pass) { st with madeProgress := false }).madeProgress then
    peelInOrder order available (pass + 1) (scan available (order.equations pass) { st with madeProgress := false })
  else .unrecoverable
termination_by st.remaining.card
decreasing_by
  rename_i hp
  exact (scan_emits g available _ { st with madeProgress := false } (order.perm pass).subset).card_lt rfl hp

theorem peel_eq_inOrder {g : BipartiteGraph} (A : Finset Nat) (st : PeelState) (pass : Nat) :
    peel g A st = peelInOrder (.ofMap g) A pass st := by
  induction hn : st.remaining.card using Nat.strong_induction_on generalizing st pass with
  | _ n ih =>
    have hem := scan_emits g A g.parityToSystematic { st with madeProgress := false } (List.Subset.refl _)
    rw [peel, peelInOrder]
    by_cases hempty : st.remaining = ∅
    · rw [if_pos hempty, if_pos hempty]
    rw [if_neg hempty, if_neg hempty]
    change _ = if (scan A g.parityToSystematic { st with madeProgress := false }).madeProgress then _ else _
    by_cases hprog : (scan A g.parityToSystematic { st with madeProgress := false }).madeProgress = true
    · rw [if_pos hprog, if_pos hprog]
      exact ih _ (hn ▸ hem.card_lt rfl hprog) _ (pass + 1) rfl
    · rw [if_neg hprog, if_neg hprog]

/-- **The loop gives up exactly on a stopping set**, whatever the orders of its passes. -/
theorem peelInOrder_recoverable {g : BipartiteGraph} (hg : g.Valid) (order : ScanOrder g) (A : Finset Nat) (pass : Nat)
    (st : PeelState) :
    (peelInOrder order A pass st).isRecoverable = true ↔
      ¬ ∃ S ⊆ st.remaining, S.Nonempty ∧ StopsPlanner g A S := by
  induction hn : st.remaining.card using Nat.strong_induction_on generalizing st pass with
  | _ n ih =>
    have hsub : order.equations pass ⊆ g.parityToSystematic := (order.perm pass).subset
    have hem := scan_emits g A (order.equations pass) { st with madeProgress := false } hsub
    rw [peelInOrder]
    by_cases hempty : st.remaining = ∅
    · rw [if_pos hempty]
      refine iff_of_true rfl ?_
      rintro ⟨S, hle, hne, -⟩
      rw [hempty] at hle
      exact hne.ne_empty (Finset.subset_empty.1 hle)
    rw [if_neg hempty]
    by_cases hprog : (scan A (order.equations pass) { st with madeProgress := false }).madeProgress = true
    · -- a pass keeps every stopping set
      rw [if_pos hprog, ih _ (hn ▸ hem.card_lt rfl hprog) (pass + 1) _ rfl]
      simp only [stopsPlanner_iff hg]
      exact not_congr (Peeling.exists_stopping_iff hem.steps)
    · -- what remains is a stopping set
      rw [if_neg hprog, Bool.not_eq_true] at *
      refine iff_of_false (by simp [DecodePlan.unrecoverable]) (not_not.2 ⟨st.remaining, Finset.Subset.refl _, ?_, ?_⟩)
      · exact Finset.nonempty_iff_ne_empty.2 hempty
      · intro p ns hmem hav
        exact scan_stuck _ _ hsub hprog p ns ((order.perm pass).mem_iff.2 hmem) hav

theorem peelInOrder_unrecoverable {g : BipartiteGraph} (order : ScanOrder g) (A : Finset Nat) (pass : Nat)
    (st : PeelState)
    (h : (peelInOrder order A pass st).isRecoverable = false) : peelInOrder order A pass st = .unrecoverable := by
  induction hn : st.remaining.card using Nat.strong_induction_on generalizing st pass with
  | _ n ih =>
    have hem := scan_emits g A (order.equations pass) { st with madeProgress := false } (order.perm pass).subset
    rw [peelInOrder] at h ⊢
    by_cases hempty : st.remaining = ∅
    · rw [if_pos hempty] at h
      cases h
    rw [if_neg hempty] at h ⊢
    by_cases hprog : (scan A (order.equations pass) { st with madeProgress := false }).madeProgress = true
    · rw [if_pos hprog] at h ⊢
      exact ih _ (hn ▸ hem.card_lt rfl hprog) (pass + 1) _ h rfl
    · rw [if_neg hprog]

/-! ## Peelings -/

section Peels

variable {g : BipartiteGraph} {A R R' : Finset Nat} {ops : List XorOperation}

theorem Peels.subset (h : Peels g A R ops R') : R' ⊆ R := by
  induction h with
  | nil R => exact Finset.Subset.refl R
  | cons p ns x _ _ _ _ ih => exact ih.trans (Finset.erase_subset x _)

theorem Peels.outputs (h : Peels g A R ops R') :
    (ops.map XorOperation.output).Nodup ∧ ∀ s, s ∈ ops.map XorOperation.output ↔ s ∈ R ∧ s ∉ R' := by
  induction h with
  | nil R => simp
  | cons p ns x _ _ hone rest ih =>
    have hx := (mem_of_filter_eq_singleton hone).2
    rw [List.map_cons, List.nodup_cons]
    refine ⟨⟨fun hmem => ?_, ih.1⟩, fun s => ?_⟩
    · exact Finset.notMem_erase x _ ((ih.2 x).1 hmem).1
    · rw [List.mem_cons, ih.2, Finset.mem_erase]
      by_cases hs : s = x
      · subst hs
        simp only [true_or, hx, true_and, true_iff]
        exact fun hR' => Finset.notMem_erase s _ (rest.subset hR')
      · simp [hs]

theorem Peels.equation (h : Peels g A R ops R') :
    ∀ op ∈ ops, ∃ p ns, (p, ns) ∈ g.parityToSystematic ∧ p ∈ A ∧ op.output ∈ ns ∧
      op.sources = p :: ns.filter (· ≠ op.output) := by
  induction h with
  | nil => simp
  | cons p ns x hmem hav hone _ ih =>
    intro op hop
    rcases List.mem_cons.1 hop with rfl | hop
    · exact ⟨p, ns, hmem, hav, (mem_of_filter_eq_singleton hone).1, rfl⟩
    · exact ih op hop

/-- **No parity is used twice**: when its equation has been solved, none of its neighbours is missing any more. -/
theorem Peels.parities_nodup (h : Peels g A R ops R') : (ops.map (fun op => op.sources.headD 0)).Nodup := by
  induction h with
  | nil => exact List.nodup_nil
  | @cons R R' ops p ns x hmem _ hone rest ih =>
    rw [List.map_cons, List.nodup_cons]
    refine ⟨fun hused => ?_, ih⟩
    obtain ⟨op, hop, hhead⟩ := List.mem_map.1 hused
    obtain ⟨q, ms, hq, -, hout, hsrc⟩ := rest.equation op hop
    rw [hsrc] at hhead
    obtain rfl : q = p := hhead
    have hms : ms = ns := by
      have hfind := (g.find_eq_some q ms).2 hq
      rw [(g.find_eq_some q ns).2 hmem] at hfind
      exact (Option.some.inj hfind).symm
    rw [hms] at hout
    -- the output of the later operation was missing all along, and a neighbour of the same parity
    have hmissing := rest.outputs_mem op hop
    have hboth : op.output ∈ ns.filter (· ∈ R) := by
      rw [List.mem_filter]
      exact ⟨hout, by simpa using Finset.mem_of_mem_erase hmissing⟩
    rw [hone, List.mem_singleton] at hboth
    exact Finset.ne_of_mem_erase hmissing hboth

/-- **Where the sources come from**: available parities, shards that were not missing, outputs of earlier operations. -/
theorem Peels.sources (hg : g.Valid) (h : Peels g A R ops R') :
    ∀ (i : Nat) (op : XorOperation), ops[i]? = some op → ∀ s ∈ op.sources,
      s ∈ A ∨ (s < g.systematicShardCount ∧ s ∉ R) ∨ ∃ j < i, ∃ o, ops[j]? = some o ∧ o.output = s := by
  induction h with
  | nil => simp
  | @cons R R' ops p ns x hmem hav hone _ ih =>
    intro i op hi s hs
    cases i with
    | zero =>
      obtain rfl := Option.some.inj hi
      rcases List.mem_cons.1 hs with rfl | hs
      · exact .inl hav
      · have hns := List.mem_filter.1 hs
        refine .inr (.inl ⟨(hg.entry hmem).2.2.2 s hns.1, fun hR => ?_⟩)
        have hsx : s ∈ ns.filter (· ∈ R) := List.mem_filter.2 ⟨hns.1, by simpa using hR⟩
        rw [hone, List.mem_singleton] at hsx
        simp [hsx] at hns
    | succ i =>
      rcases ih i op hi s hs with hA | ⟨hk, hR⟩ | ⟨j, hj, o, ho, hout⟩
      · exact .inl hA
      · by_cases hsx : s = x
        · exact .inr (.inr ⟨0, Nat.succ_pos i, _, rfl, hsx.symm⟩)
        · exact .inr (.inl ⟨hk, fun hm => hR (Finset.mem_erase.2 ⟨hsx, hm⟩)⟩)
      · exact .inr (.inr ⟨j + 1, Nat.succ_lt_succ hj, o, ho, hout⟩)

end Peels

/-! ## What `CreatePlan` returns -/

/-- **The planner is exact**: it returns, it gives up on the erasures that contain a non-empty stopping set and on no
others, otherwise its plan rebuilds each missing shard once, and no order of the equations would recover more. -/
theorem createPlan_exact {g : BipartiteGraph} (hg : validateGraph g = .ok ()) {missing available : Finset Nat}
    (hM : ∀ s ∈ missing, s < g.systematicShardCount)
    (hA : ∀ p ∈ available, g.systematicShardCount ≤ p ∧ p < g.systematicShardCount + g.parityShardCount) :
    ∃ plan, createPlan g missing available = .ok plan ∧
      (plan.isRecoverable = false ↔ ∃ S ⊆ missing, S.Nonempty ∧ StopsPlanner g available S) ∧
      (plan.isRecoverable = false → plan.operations = [] ∧ plan.dependencies = []) ∧
      (plan.isRecoverable = true → (plan.operations.map XorOperation.output).Nodup ∧
        ∀ s, s ∈ plan.operations.map XorOperation.output ↔ s ∈ missing) ∧
      ∀ order : ScanOrder g,
        (peelInOrder order available 0 ⟨missing, [], [], fun _ => none, false⟩).isRecoverable = plan.isRecoverable := by
  have hvalid := (validateGraph_ok g).1 hg
  have hplan := createPlan_eq hvalid hM hA
  have horder := fun order : ScanOrder g =>
    peelInOrder_recoverable hvalid order available 0 ⟨missing, [], [], fun _ => none, false⟩
  refine ⟨_, hplan, ?_, ?_, ?_, ?_⟩
  · rw [peel_eq_inOrder available _ 0, Bool.eq_false_iff, ne_eq, horder, not_not]
  · intro hfail
    rw [peel_eq_inOrder available _ 0] at hfail ⊢
    rw [peelInOrder_unrecoverable _ available 0 _ hfail]
    exact ⟨rfl, rfl⟩
  · intro hrec
    obtain ⟨hnodup, hmem⟩ := ((createPlan_spec hplan).2.2.2 hrec).peels.outputs
    refine ⟨hnodup, fun s => ?_⟩
    rw [hmem]
    simp
  · intro order
    rw [Bool.eq_iff_iff, peel_eq_inOrder available _ 0, horder, horder]

theorem createPlan_exact_threeData : ∃ plan, createPlan makeThreeDataTwoParityGraph {0, 2} {3, 4} = .ok plan ∧
    (plan.isRecoverable = false ↔
      ∃ S ⊆ ({0, 2} : Finset Nat), S.Nonempty ∧ StopsPlanner makeThreeDataTwoParityGraph {3, 4} S) ∧
    (plan.isRecoverable = false → plan.operations = [] ∧ plan.dependencies = []) ∧
    (plan.isRecoverable = true → (plan.operations.map XorOperation.output).Nodup ∧
      ∀ s, s ∈ plan.operations.map XorOperation.output ↔ s ∈ ({0, 2} : Finset Nat)) ∧
    ∀ order : ScanOrder makeThreeDataTwoParityGraph,
      (peelInOrder order {3, 4} 0 ⟨{0, 2}, [], [], fun _ => none, false⟩).isRecoverable = plan.isRecoverable :=
  createPlan_exact (by decide) (by decide) (by decide)

structure PlanStructure (g : BipartiteGraph) (missing available : Finset Nat) (plan : DecodePlan) : Prop where
  outputsOnce : (plan.operations.map XorOperation.output).Nodup
  outputs : ∀ s, s ∈ plan.operations.map XorOperation.output ↔ s ∈ missing
  operationCount : plan.operations.length = missing.card
  dependencyCount : plan.dependencies.length = missing.card
  /-- the parity first, then its other neighbours in equation order -/
  sources : ∀ op ∈ plan.operations, op.sources.Nodup ∧ ∃ parity neighbors,
    (parity, neighbors) ∈ g.parityToSystematic ∧ parity ∈ available ∧ op.output ∈ neighbors ∧
      op.sources = parity :: neighbors.filter (· ≠ op.output)
  parityOnce : ∀ (i j : Nat) (op op' : XorOperation) (parity : Nat), plan.operations[i]? = some op →
    plan.operations[j]? = some op' → g.systematicShardCount ≤ parity → parity ∈ op.sources → parity ∈ op'.sources →
    i = j
  enoughParities : missing.card ≤ available.card
  produced : ∀ (i : Nat) (op : XorOperation), plan.operations[i]? = some op → ∀ s ∈ op.sources,
    s ∈ available ∨ (s < g.systematicShardCount ∧ s ∉ missing) ∨
      ∃ j < i, ∃ o, plan.operations[j]? = some o ∧ o.output = s
  dependencies : ∀ (i : Nat) (op : XorOperation), plan.operations[i]? = some op →
    ∃ deps, plan.dependencies[i]? = some deps ∧ deps.Pairwise (· < ·) ∧
    ∀ j, j ∈ deps ↔ j < i ∧ ∃ o, plan.operations[j]? = some o ∧ o.output ∈ op.sources

theorem parity_eq_head {g : BipartiteGraph} (hg : g.Valid) {op : XorOperation} {p q : Nat} {ns : List Nat}
    (hmem : (p, ns) ∈ g.parityToSystematic) (hsrc : op.sources = p :: ns.filter (· ≠ op.output))
    (hq : g.systematicShardCount ≤ q) (hin : q ∈ op.sources) : op.sources.headD 0 = q := by
  rw [hsrc] at hin ⊢
  rcases List.mem_cons.1 hin with rfl | hin
  · rfl
  · have hlt := (hg.entry hmem).2.2.2 q (List.mem_filter.1 hin).1
    omega

theorem createPlan_structure {g : BipartiteGraph} {missing available : Finset Nat} {plan : DecodePlan}
    (h : createPlan g missing available = .ok plan) (hrec : plan.isRecoverable = true) :
    PlanStructure g missing available plan := by
  obtain ⟨hg, -, -, hspec⟩ := createPlan_spec h
  obtain ⟨hpeels, hlength, hdeps⟩ := hspec hrec
  have hcard : plan.operations.length = missing.card := by simpa using hpeels.length_add_card
  have hequation := hpeels.equation
  refine ⟨hpeels.outputs.1, fun s => ?_, hcard, hlength.trans hcard, fun op hop => ?_, ?_, ?_, hpeels.sources hg, ?_⟩
  · rw [hpeels.outputs.2]
    simp
  · obtain ⟨p, ns, hmem, hav, hout, hsrc⟩ := hequation op hop
    refine ⟨?_, p, ns, hmem, hav, hout, hsrc⟩
    obtain ⟨hk, -, hnd, hlt⟩ := hg.entry hmem
    rw [hsrc, List.nodup_cons]
    refine ⟨fun hp => ?_, hnd.filter _⟩
    have := hlt p (List.mem_filter.1 hp).1
    omega
  · intro i j op op' parity hi hj hk hp hp'
    obtain ⟨q, ns, hmem, -, -, hsrc⟩ := hequation op (List.mem_of_getElem? hi)
    obtain ⟨q', ns', hmem', -, -, hsrc'⟩ := hequation op' (List.mem_of_getElem? hj)
    have hsame : (plan.operations.map (fun op => op.sources.headD 0))[i]? =
        (plan.operations.map (fun op => op.sources.headD 0))[j]? := by
      rw [List.getElem?_map, List.getElem?_map, hi, hj, Option.map_some, Option.map_some,
        parity_eq_head hg hmem hsrc hk hp, parity_eq_head hg hmem' hsrc' hk hp']
    refine (List.getElem?_inj ?_ hpeels.parities_nodup).1 hsame
    rw [List.length_map]
    exact (List.getElem?_eq_some_iff.1 hi).1
  · -- the parities of the operations are pairwise different, and all available
    have hsub : (plan.operations.map (fun op => op.sources.headD 0)).toFinset ⊆ available := by
      intro p hp
      obtain ⟨op, hop, rfl⟩ := List.mem_map.1 (List.mem_toFinset.1 hp)
      obtain ⟨q, ns, -, hav, -, hsrc⟩ := hequation op hop
      rw [hsrc]
      exact hav
    have hle := Finset.card_le_card hsub
    rw [List.toFinset_card_of_nodup hpeels.parities_nodup, List.length_map] at hle
    omega
  · intro i op hi
    refine ⟨_, hdeps i op hi, List.Pairwise.filter _ List.pairwise_lt_range, fun j => ?_⟩
    rw [mem_depsOf]
    constructor
    · rintro ⟨o, ho, hs⟩
      rw [List.getElem?_take] at ho
      split at ho
      · exact ⟨‹_›, o, ho, hs⟩
      · cases ho
    · rintro ⟨hj, o, ho, hs⟩
      exact ⟨o, by rw [List.getElem?_take, if_pos hj, ho], hs⟩

theorem createPlan_structure_threeData : ∃ plan, createPlan makeThreeDataTwoParityGraph {0, 2} {3, 4} = .ok plan ∧
    plan.isRecoverable = true ∧ PlanStructure makeThreeDataTwoParityGraph {0, 2} {3, 4} plan := by
  have hplan : (createPlan makeThreeDataTwoParityGraph {0, 2} {3, 4}).toOption.isSome = true := by decide +kernel
  obtain ⟨plan, hp⟩ := Option.isSome_iff_exists.1 hplan
  have hok := toOption_eq_some.1 hp
  have hrec : plan.isRecoverable = true := by
    have hmap :
        (createPlan makeThreeDataTwoParityGraph {0, 2} {3, 4}).toOption.map DecodePlan.isRecoverable = some true := by
      decide +kernel
    rw [hp] at hmap
    exact Option.some.inj hmap
  exact ⟨plan, hok, hrec, createPlan_structure hok hrec⟩

end CodedLLM
