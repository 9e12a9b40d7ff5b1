import CodedLLM.Graph
/-!
# Planner — the peeling loop of `DecodePlanner::CreatePlan`

`createPlan` is the source's loop: scan the equations in map order, emit an operation for each available parity with
exactly one missing neighbour, drop that neighbour at once, and give up after a whole pass without progress.  What the
loop emits is a peeling (`Peels`), and the dependency lists are exactly the earlier producers of the sources (`depsOf`).
-/
namespace CodedLLM

structure PeelState where
  remaining : Finset Nat
  operations : List XorOperation
  dependencies : List (List Nat)
  producingOperation : Nat → Option Nat
  madeProgress : Bool

/-- `missing_neighbor` and `missing_neighbor_count`. -/
def missingNeighbor (remaining : Finset Nat) (neighbors : List Nat) : Nat × Nat :=
  neighbors.foldl (fun acc systematic => if systematic ∈ remaining then (systematic, acc.2 + 1) else acc) (0, 0)

def sortUnique (dependencies : List Nat) : List Nat := (dependencies.insertionSort (· ≤ ·)).destutter (· ≠ ·)

/-- `unordered_map::emplace` leaves a present key alone. -/
def emplace (producers : Nat → Option Nat) (key index : Nat) : Nat → Option Nat :=
  if (producers key).isSome then producers else Function.update producers key (some index)

/-- What the loop body does with an equation whose one missing neighbour is `missing`. -/
def emitOperation (st : PeelState) (parity : Nat) (neighbors : List Nat) (missing : Nat) : PeelState :=
  let others := neighbors.filter (· ≠ missing)
  { remaining := st.remaining.erase missing
    operations := st.operations ++ [⟨missing, parity :: others⟩]
    dependencies := st.dependencies ++ [sortUnique (others.filterMap st.producingOperation)]
    producingOperation := emplace st.producingOperation missing st.operations.length
    madeProgress := true }

/-- One pass over the equations; it stops as soon as nothing remains. -/
def scan (available : Finset Nat) : List (Nat × List Nat) → PeelState → PeelState
  | [], st => st
  | (parity, neighbors) :: rest, st =>
    if parity ∉ available then scan available rest st
    else if (missingNeighbor st.remaining neighbors).2 ≠ 1 then scan available rest st
    else
      let st' := emitOperation st parity neighbors (missingNeighbor st.remaining neighbors).1
      if st'.remaining = ∅ then st' else scan available rest st'

/-! ## One pass, as a sequence of emissions -/

theorem missingNeighbor_foldl (remaining : Finset Nat) : ∀ (ns : List Nat) (acc : Nat × Nat),
    ns.foldl (fun acc systematic => if systematic ∈ remaining then (systematic, acc.2 + 1) else acc) acc =
      (((ns.filter (· ∈ remaining)).getLast?).getD acc.1, acc.2 + (ns.filter (· ∈ remaining)).length)
  | [], acc => by simp
  | n :: ns, acc => by
    rw [List.foldl_cons, missingNeighbor_foldl remaining ns]
    by_cases hn : n ∈ remaining
    · simp only [hn, if_true, decide_true, List.filter_cons_of_pos, List.getLast?_cons, Option.getD_some,
        List.length_cons]
      refine Prod.ext rfl ?_
      simp only
      omega
    · simp [hn]

theorem missingNeighbor_one {remaining : Finset Nat} {ns : List Nat} (h : (missingNeighbor remaining ns).2 = 1) :
    ns.filter (· ∈ remaining) = [(missingNeighbor remaining ns).1] := by
  unfold missingNeighbor at h ⊢
  rw [missingNeighbor_foldl] at h ⊢
  simp only [Nat.zero_add] at h ⊢
  obtain ⟨x, hx⟩ := List.length_eq_one_iff.1 h
  simp [hx]

/-- **The states one pass goes through**: each step emits for an available equation with one missing neighbour. -/
inductive Emits (g : BipartiteGraph) (available : Finset Nat) : PeelState → PeelState → Prop
  | refl (st : PeelState) : Emits g available st st
  | emit {st st' : PeelState} (parity : Nat) (neighbors : List Nat) (missing : Nat)
      (hmem : (parity, neighbors) ∈ g.parityToSystematic) (hav : parity ∈ available)
      (hone : neighbors.filter (· ∈ st.remaining) = [missing])
      (rest : Emits g available (emitOperation st parity neighbors missing) st') : Emits g available st st'

theorem scan_emits (g : BipartiteGraph) (available : Finset Nat) : ∀ (es : List (Nat × List Nat)) (st : PeelState),
    es ⊆ g.parityToSystematic → Emits g available st (scan available es st)
  | [], st, _ => .refl st
  | (p, ns) :: es, st, h => by
    have hes : es ⊆ g.parityToSystematic := fun e he => h (by simp [he])
    unfold scan
    by_cases hp : p ∉ available
    · rw [if_pos hp]
      exact scan_emits g available es st hes
    rw [if_neg hp]
    by_cases hc : (missingNeighbor st.remaining ns).2 ≠ 1
    · rw [if_pos hc]
      exact scan_emits g available es st hes
    rw [if_neg hc]
    have hone := missingNeighbor_one (not_not.1 hc)
    refine .emit p ns _ (h (by simp)) (not_not.1 hp) hone ?_
    dsimp only
    split
    · exact .refl _
    · exact scan_emits g available es _ hes

theorem mem_of_filter_eq_singleton {ns : List Nat} {R : Finset Nat} {x : Nat} (h : ns.filter (· ∈ R) = [x]) :
    x ∈ ns ∧ x ∈ R := by
  have : x ∈ ns.filter (· ∈ R) := by rw [h]; simp
  simpa using this

theorem Emits.card_le {g : BipartiteGraph} {available : Finset Nat} {a b : PeelState} (h : Emits g available a b) :
    b.remaining.card ≤ a.remaining.card := by
  induction h with
  | refl => exact Nat.le_refl _
  | emit p ns x _ _ hone _ ih => exact Nat.le_trans ih (Finset.card_le_card (Finset.erase_subset _ _))

theorem Emits.card_lt {g : BipartiteGraph} {available : Finset Nat} {a b : PeelState} (h : Emits g available a b)
    (ha : a.madeProgress = false) (hb : b.madeProgress = true) : b.remaining.card < a.remaining.card := by
  cases h with
  | refl => rw [ha] at hb; cases hb
  | emit p ns x _ _ hone rest =>
    exact Nat.lt_of_le_of_lt rest.card_le (Finset.card_erase_lt_of_mem (mem_of_filter_eq_singleton hone).2)

/-! ## The loop -/

/-- The `while (!remaining.empty())` loop. -/
def peel (g : BipartiteGraph) (available : Finset Nat) (st : PeelState) : DecodePlan :=
  if st.remaining = ∅ then ⟨st.operations, st.dependencies, true⟩
  else if (scan available g.parityToSystematic { st with madeProgress := false }).madeProgress then
    peel g available (scan available g.parityToSystematic { st with madeProgress := false })
  else .unrecoverable
termination_by st.remaining.card
decreasing_by
  rename_i hp
  exact (scan_emits g available _ { st with madeProgress := false } (List.Subset.refl _)).card_lt rfl hp

def createPlan (g : BipartiteGraph) (missing available : Finset Nat) : Except Exn DecodePlan :=
  match validateGraph g with
  | .error e => .error e
  | .ok () =>
    if ∃ s ∈ missing, g.systematicShardCount ≤ s then
      .error (.invalidArgument "Missing shard set must contain only systematic shards")
    else if ∃ p ∈ available, p < g.systematicShardCount ∨ g.systematicShardCount + g.parityShardCount ≤ p then
      .error (.invalidArgument "Available parity set contains a non-parity shard")
    else .ok (peel g available ⟨missing, [], [], fun _ => none, false⟩)

/-- The overload that takes every parity of the map as available. -/
def createPlanAll (g : BipartiteGraph) (missing : Finset Nat) : Except Exn DecodePlan :=
  createPlan g missing (g.parityToSystematic.map Prod.fst).toFinset

/-! ## What the loop emits -/

/-- **A peeling from `R` to `R'`**: each operation rebuilds the one neighbour its parity still misses, from that parity
and the parity's other neighbours in equation order. -/
inductive Peels (g : BipartiteGraph) (available : Finset Nat) : Finset Nat → List XorOperation → Finset Nat → Prop
  | nil (R : Finset Nat) : Peels g available R [] R
  | cons {R R' : Finset Nat} {ops : List XorOperation} (parity : Nat) (neighbors : List Nat) (missing : Nat)
      (hmem : (parity, neighbors) ∈ g.parityToSystematic) (hav : parity ∈ available)
      (hone : neighbors.filter (· ∈ R) = [missing]) (rest : Peels g available (R.erase missing) ops R') :
      Peels g available R (⟨missing, parity :: neighbors.filter (· ≠ missing)⟩ :: ops) R'

theorem Peels.append {g : BipartiteGraph} {A R S T : Finset Nat} {ops ops' : List XorOperation}
    (h : Peels g A R ops S) (h' : Peels g A S ops' T) : Peels g A R (ops ++ ops') T := by
  induction h with
  | nil => exact h'
  | cons p ns x hmem hav hone _ ih => exact .cons p ns x hmem hav hone (ih h')

theorem Peels.outputs_mem {g : BipartiteGraph} {A R R' : Finset Nat} {ops : List XorOperation}
    (h : Peels g A R ops R') : ∀ o ∈ ops, o.output ∈ R := by
  induction h with
  | nil => simp
  | cons p ns x _ _ hone _ ih =>
    intro o ho
    rcases List.mem_cons.1 ho with rfl | ho
    · exact (mem_of_filter_eq_singleton hone).2
    · exact Finset.mem_of_mem_erase (ih o ho)

theorem Peels.length_add_card {g : BipartiteGraph} {A R R' : Finset Nat} {ops : List XorOperation}
    (h : Peels g A R ops R') : ops.length + R'.card = R.card := by
  induction h with
  | nil R => simp
  | cons parity neighbors missing hmem hav hone rest ih =>
    have hcard := Finset.card_erase_add_one (mem_of_filter_eq_singleton hone).2
    rw [List.length_cons]
    omega

theorem Emits.peels {g : BipartiteGraph} {A : Finset Nat} {a b : PeelState} (h : Emits g A a b) :
    ∃ ops, b.operations = a.operations ++ ops ∧ Peels g A a.remaining ops b.remaining := by
  induction h with
  | refl st => exact ⟨[], by simp, .nil _⟩
  | emit p ns x hmem hav hone _ ih =>
    obtain ⟨ops, hops, hp⟩ := ih
    exact ⟨_ :: ops, by rw [hops]; simp [emitOperation], .cons p ns x hmem hav hone hp⟩

/-- The earlier operations whose output is a source of `op`, in ascending order. -/
def depsOf (earlier : List XorOperation) (op : XorOperation) : List Nat :=
  (List.range earlier.length).filter (fun j => (earlier[j]?).any (fun o => o.output ∈ op.sources))

theorem mem_depsOf {earlier : List XorOperation} {op : XorOperation} {j : Nat} :
    j ∈ depsOf earlier op ↔ ∃ o, earlier[j]? = some o ∧ o.output ∈ op.sources := by
  unfold depsOf
  rw [List.mem_filter, List.mem_range, Option.any_eq_true]
  constructor
  · rintro ⟨-, o, ho, hs⟩
    exact ⟨o, ho, by simpa using hs⟩
  · rintro ⟨o, ho, hs⟩
    exact ⟨(List.getElem?_eq_some_iff.1 ho).1, o, ho, by simpa using hs⟩

theorem mem_destutter'_ne (x : Nat) : ∀ (l : List Nat) (a : Nat), x ∈ l.destutter' (· ≠ ·) a ↔ x = a ∨ x ∈ l
  | [], a => by simp
  | b :: l, a => by
    by_cases hab : a = b
    · subst hab
      rw [List.destutter'_cons_neg l (by simp), mem_destutter'_ne x l a]
      simp
    · rw [List.destutter'_cons_pos l hab, List.mem_cons, mem_destutter'_ne x l b, List.mem_cons]

theorem mem_sortUnique (l : List Nat) (x : Nat) : x ∈ sortUnique l ↔ x ∈ l := by
  unfold sortUnique
  rw [← List.mem_insertionSort (· ≤ ·) (x := x) (l := l)]
  generalize l.insertionSort (· ≤ ·) = m
  cases m with
  | nil => simp
  | cons a m => rw [List.destutter_cons', mem_destutter'_ne, List.mem_cons]

theorem sortUnique_sorted (l : List Nat) : (sortUnique l).Pairwise (· < ·) := by
  have hle : (sortUnique l).Pairwise (· ≤ ·) :=
    (List.pairwise_insertionSort (· ≤ ·) l).sublist (List.destutter_sublist _ _)
  have hne : (sortUnique l).IsChain (· ≠ ·) := List.isChain_destutter _ _
  refine List.isChain_iff_pairwise.1 (List.isChain_iff_getElem.2 (fun i hi => ?_))
  exact Nat.lt_of_le_of_ne (List.isChain_iff_getElem.1 hle.isChain i hi) (List.isChain_iff_getElem.1 hne i hi)

/-- **The dependency list an operation is emitted with** names exactly the earlier producers of its sources. -/
theorem sortUnique_eq_depsOf {earlier : List XorOperation} {op : XorOperation} {producers : List Nat}
    (h : ∀ j, j ∈ producers ↔ ∃ o, earlier[j]? = some o ∧ o.output ∈ op.sources) :
    sortUnique producers = depsOf earlier op := by
  have hsorted : (depsOf earlier op).Pairwise (· < ·) := List.Pairwise.filter _ List.pairwise_lt_range
  refine List.Perm.eq_of_pairwise (fun a b _ _ hab hba => absurd hab (Nat.lt_asymm hba))
    (sortUnique_sorted _) hsorted ?_
  refine (List.perm_ext_iff_of_nodup ((sortUnique_sorted _).imp Nat.ne_of_lt) (hsorted.imp Nat.ne_of_lt)).2
    (fun j => ?_)
  rw [mem_sortUnique, h j, mem_depsOf]

/-- **The loop's bookkeeping**: no output is still missing, `producing_operation` inverts the output column, and each
dependency list is `depsOf` of the operations before it. -/
structure PeelState.Coherent (k : Nat) (st : PeelState) : Prop where
  outputs : ∀ o ∈ st.operations, o.output < k ∧ o.output ∉ st.remaining
  producers : ∀ x j, st.producingOperation x = some j ↔ (st.operations[j]?).map XorOperation.output = some x
  length : st.dependencies.length = st.operations.length
  deps : ∀ i o, st.operations[i]? = some o → st.dependencies[i]? = some (depsOf (st.operations.take i) o)

theorem PeelState.Coherent.start (k : Nat) (missing : Finset Nat) :
    PeelState.Coherent k ⟨missing, [], [], fun _ => none, false⟩ :=
  ⟨by simp, by simp, rfl, by simp⟩

theorem BipartiteGraph.Valid.entry {g : BipartiteGraph} (hg : g.Valid) {p : Nat} {ns : List Nat}
    (h : (p, ns) ∈ g.parityToSystematic) :
    g.systematicShardCount ≤ p ∧ p < g.systematicShardCount + g.parityShardCount ∧ ns.Nodup ∧
      ∀ s ∈ ns, s < g.systematicShardCount := by
  have hp : p ∈ List.range' g.systematicShardCount g.parityShardCount := hg.keys ▸ List.mem_map.2 ⟨_, h, rfl⟩
  obtain ⟨h1, h2⟩ := List.mem_range'_1.1 hp
  obtain ⟨-, hnd, hs⟩ := hg.equations _ h
  exact ⟨h1, h2, hnd, hs⟩

theorem PeelState.Coherent.producer_none {k : Nat} {st : PeelState} (h : st.Coherent k) {x : Nat}
    (hx : x ∈ st.remaining) : st.producingOperation x = none := by
  cases hp : st.producingOperation x with
  | none => rfl
  | some j =>
    obtain ⟨o, ho, hox⟩ := Option.map_eq_some_iff.1 ((h.producers x j).1 hp)
    exact absurd hx (hox ▸ (h.outputs o (List.mem_of_getElem? ho)).2)

theorem emitted_deps {g : BipartiteGraph} (hg : g.Valid) {st : PeelState} (h : st.Coherent g.systematicShardCount)
    {p : Nat} {ns : List Nat} (hmem : (p, ns) ∈ g.parityToSystematic) (x : Nat) :
    sortUnique ((ns.filter (· ≠ x)).filterMap st.producingOperation) =
      depsOf st.operations ⟨x, p :: ns.filter (· ≠ x)⟩ := by
  refine sortUnique_eq_depsOf (fun j => ?_)
  rw [List.mem_filterMap]
  constructor
  · rintro ⟨s, hs, hj⟩
    obtain ⟨o, ho, rfl⟩ := Option.map_eq_some_iff.1 ((h.producers s j).1 hj)
    exact ⟨o, ho, List.mem_cons_of_mem _ hs⟩
  · rintro ⟨o, ho, hs⟩
    have hne : o.output ≠ p := by
      have := (h.outputs o (List.mem_of_getElem? ho)).1
      have := (hg.entry hmem).1
      omega
    exact ⟨o.output, (List.mem_cons.1 hs).resolve_left hne, (h.producers _ j).2 (by rw [ho]; rfl)⟩

theorem PeelState.Coherent.emit {g : BipartiteGraph} (hg : g.Valid) {st : PeelState}
    (h : st.Coherent g.systematicShardCount) {p : Nat} {ns : List Nat} {x : Nat}
    (hmem : (p, ns) ∈ g.parityToSystematic) (hone : ns.filter (· ∈ st.remaining) = [x]) :
    (emitOperation st p ns x).Coherent g.systematicShardCount := by
  obtain ⟨hxn, hxr⟩ := mem_of_filter_eq_singleton hone
  have hfresh := h.producer_none hxr
  refine ⟨?_, ?_, ?_, ?_⟩
  · intro o ho
    rcases List.mem_append.1 ho with ho | ho
    · exact ⟨(h.outputs o ho).1, fun hm => (h.outputs o ho).2 (Finset.mem_of_mem_erase hm)⟩
    · obtain rfl : o = ⟨x, p :: ns.filter (· ≠ x)⟩ := by simpa using ho
      exact ⟨(hg.entry hmem).2.2.2 x hxn, Finset.notMem_erase _ _⟩
  · intro y j
    simp only [emitOperation, emplace, hfresh, Option.isSome_none, Bool.false_eq_true, if_false]
    by_cases hy : y = x
    · subst hy
      rw [Function.update_self, List.getElem?_append]
      have hold := h.producers y j
      rw [hfresh] at hold
      by_cases hj : j < st.operations.length
      · rw [if_pos hj, ← hold]
        simp only [Option.some.injEq, reduceCtorEq, iff_false]
        omega
      · rw [if_neg hj, List.getElem?_singleton]
        by_cases hj' : j = st.operations.length
        · simp [hj']
        · rw [if_neg (by omega)]
          simp only [Option.some.injEq, Option.map_none, reduceCtorEq, iff_false]
          omega
    · rw [Function.update_of_ne hy, h.producers y j, List.getElem?_append]
      split
      · rfl
      · rename_i hj
        rw [List.getElem?_eq_none (by omega), List.getElem?_singleton]
        split <;> simp [Ne.symm hy]
  · simp [emitOperation, h.length]
  · intro i o hio
    simp only [emitOperation] at hio ⊢
    rw [List.getElem?_append] at hio
    rw [List.getElem?_append, h.length]
    by_cases hi : i < st.operations.length
    · rw [if_pos hi] at hio ⊢
      rw [h.deps i o hio, List.take_append_of_le_length (Nat.le_of_lt hi)]
    · rw [if_neg hi, List.getElem?_singleton] at hio
      have hi' : i - st.operations.length = 0 := by
        by_contra hne
        rw [if_neg hne] at hio
        cases hio
      rw [if_pos hi', Option.some.injEq] at hio
      rw [if_neg hi, List.getElem?_singleton, if_pos hi', emitted_deps hg h hmem, ← hio,
        List.take_append_of_le_length (by omega), List.take_of_length_le (by omega)]

theorem Emits.coherent {g : BipartiteGraph} (hg : g.Valid) {A : Finset Nat} {a b : PeelState} (h : Emits g A a b)
    (ha : a.Coherent g.systematicShardCount) : b.Coherent g.systematicShardCount := by
  induction h with
  | refl => exact ha
  | emit p ns x hmem hav hone _ ih => exact ih (ha.emit hg hmem hone)

/-- **What a plan of the loop is**: a peeling of all that was missing, with `depsOf` for dependencies. -/
structure PlanSpec (g : BipartiteGraph) (missing available : Finset Nat) (plan : DecodePlan) : Prop where
  peels : Peels g available missing plan.operations ∅
  length : plan.dependencies.length = plan.operations.length
  deps : ∀ i o, plan.operations[i]? = some o → plan.dependencies[i]? = some (depsOf (plan.operations.take i) o)

theorem peel_spec {g : BipartiteGraph} (hg : g.Valid) (A M : Finset Nat) (st : PeelState)
    (hc : st.Coherent g.systematicShardCount) (hp : Peels g A M st.operations st.remaining)
    (hr : (peel g A st).isRecoverable = true) : PlanSpec g M A (peel g A st) := by
  induction hn : st.remaining.card using Nat.strong_induction_on generalizing st with
  | _ n ih =>
    have hem := scan_emits g A g.parityToSystematic { st with madeProgress := false } (List.Subset.refl _)
    rw [peel] at hr ⊢
    by_cases hempty : st.remaining = ∅
    · rw [if_pos hempty]
      exact ⟨hempty ▸ hp, hc.length, hc.deps⟩
    rw [if_neg hempty] at hr ⊢
    by_cases hprog : (scan A g.parityToSystematic { st with madeProgress := false }).madeProgress = true
    · rw [if_pos hprog] at hr ⊢
      obtain ⟨ops, hops, hpe⟩ := hem.peels
      refine ih _ ?_ _ (hem.coherent hg ⟨hc.outputs, hc.producers, hc.length, hc.deps⟩) ?_ hr rfl
      · rw [← hn]
        exact hem.card_lt rfl hprog
      · rw [hops]
        exact hp.append hpe
    · rw [if_neg hprog] at hr
      cases hr

/-- **`CreatePlan`, unpacked**: it returns a plan for an accepted graph, systematic missing ids and parity ids, and a
recoverable plan peels everything missing. -/
theorem createPlan_spec {g : BipartiteGraph} {missing available : Finset Nat} {plan : DecodePlan}
    (h : createPlan g missing available = .ok plan) :
    g.Valid ∧ (∀ s ∈ missing, s < g.systematicShardCount) ∧
    (∀ p ∈ available, g.systematicShardCount ≤ p ∧ p < g.systematicShardCount + g.parityShardCount) ∧
    (plan.isRecoverable = true → PlanSpec g missing available plan) := by
  unfold createPlan at h
  cases hv : validateGraph g with
  | error e => rw [hv] at h; cases h
  | ok u =>
    have hg := (validateGraph_ok g).1 hv
    rw [hv] at h
    simp only at h
    split at h
    · cases h
    rename_i hm
    split at h
    · cases h
    rename_i ha
    simp only [Except.ok.injEq] at h
    push Not at hm ha
    refine ⟨hg, hm, ha, fun hr => ?_⟩
    rw [← h] at hr ⊢
    exact peel_spec hg available missing _ (.start _ _) (.nil _) hr

theorem createPlan_eq {g : BipartiteGraph} (hg : g.Valid) {missing available : Finset Nat}
    (hM : ∀ s ∈ missing, s < g.systematicShardCount)
    (hA : ∀ p ∈ available, g.systematicShardCount ≤ p ∧ p < g.systematicShardCount + g.parityShardCount) :
    createPlan g missing available = .ok (peel g available ⟨missing, [], [], fun _ => none, false⟩) := by
  unfold createPlan
  rw [(validateGraph_ok g).2 hg]
  simp only
  rw [if_neg (by push Not; exact hM), if_neg (by push Not; exact hA)]

theorem createPlan_accepts {g : BipartiteGraph} (hg : g.Valid) {missing available : Finset Nat}
    (hM : ∀ s ∈ missing, s < g.systematicShardCount)
    (hA : ∀ p ∈ available, g.systematicShardCount ≤ p ∧ p < g.systematicShardCount + g.parityShardCount) :
    ∃ plan, createPlan g missing available = .ok plan :=
  ⟨_, createPlan_eq hg hM hA⟩

theorem createPlanAll_accepts {g : BipartiteGraph} (hg : g.Valid) {missing : Finset Nat}
    (hM : ∀ s ∈ missing, s < g.systematicShardCount) : ∃ plan, createPlanAll g missing = .ok plan := by
  apply createPlan_accepts hg hM
  intro p hp
  rw [List.mem_toFinset, hg.keys, List.mem_range'_1] at hp
  exact hp

theorem PlanSpec.operations_ne_nil {g : BipartiteGraph} {missing available : Finset Nat} {plan : DecodePlan}
    (h : PlanSpec g missing available plan) (hne : missing.Nonempty) : plan.operations ≠ [] := by
  intro hnil
  have hp := h.peels
  rw [hnil] at hp
  cases hp
  exact Finset.not_nonempty_empty hne

end CodedLLM
