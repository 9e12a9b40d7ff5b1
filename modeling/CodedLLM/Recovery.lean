import CodedLLM.Codec
/-!
# Recovery — planning, then executing the plan

A recoverable plan runs on every slot vector that holds the non-missing systematic shards and the available parities
(`Peels.run`): on shards of a codeword it rebuilds the missing ones bit for bit, and its dependency lists are enough to
run it in any order that respects them.
-/
namespace CodedLLM

open Runs Dataflow

/-! ## A peeling runs -/

/-- **What the slots hold before a peeling of `R`**: the systematic shards outside `R` and the available parities, each
with a value `P` admits, and nothing in `R`. -/
structure Holds (g : BipartiteGraph) (available : Finset Nat) (P : Nat → WordShard → Prop) (R : Finset Nat)
    (st : Nat → Option WordShard) : Prop where
  systematic : ∀ i < g.systematicShardCount, i ∉ R → ∃ w, st i = some w ∧ P i w
  parity : ∀ p ∈ available, ∃ w, st p = some w ∧ P p w
  missing : ∀ i ∈ R, st i = none

/-- **Values a peeling step preserves**: they all have `n` words, and rebuilding a neighbour of an available parity from
admitted sources gives an admitted value. -/
structure Admits (g : BipartiteGraph) (available : Finset Nat) (n : Nat) (P : Nat → WordShard → Prop) : Prop where
  pos : 0 < n
  length : ∀ i w, P i w → w.length = n
  step : ∀ p ns x ws, (p, ns) ∈ g.parityToSystematic → p ∈ available → x ∈ ns →
    List.Forall₂ P (p :: ns.filter (· ≠ x)) ws → P x (xorAll n ws)

theorem length_of_forall₂ {P : Nat → WordShard → Prop} {n : Nat} (hP : ∀ i w, P i w → w.length = n) {l : List Nat}
    {ws : List WordShard} (h : List.Forall₂ P l ws) : ∀ w ∈ ws, w.length = n := by
  induction h with
  | nil => simp
  | cons hw _ ih => simpa [hP _ _ hw] using ih

theorem Holds.step {g : BipartiteGraph} (hg : g.Valid) {A R : Finset Nat} {n : Nat} {P : Nat → WordShard → Prop}
    (hP : Admits g A n P) {st : Nat → Option WordShard} (h : Holds g A P R st) {p : Nat} {ns : List Nat} {x : Nat}
    (hmem : (p, ns) ∈ g.parityToSystematic) (hav : p ∈ A) (hone : ns.filter (· ∈ R) = [x]) :
    ∃ v, xorCode.exec st ⟨x, p :: ns.filter (· ≠ x)⟩ = some (Function.update st x (some v)) ∧
      Holds g A P (R.erase x) (Function.update st x (some v)) := by
  obtain ⟨hkp, -, -, hsys⟩ := hg.entry hmem
  obtain ⟨hxn, hxR⟩ := mem_of_filter_eq_singleton hone
  have hsrc : ∀ s ∈ p :: ns.filter (· ≠ x), ∃ w, st s = some w ∧ P s w := by
    intro s hs
    rcases List.mem_cons.1 hs with rfl | hs
    · exact h.parity s hav
    · obtain ⟨hsn, hsx⟩ := List.mem_filter.1 hs
      refine h.systematic s (hsys s hsn) (fun hsR => ?_)
      have : s ∈ ns.filter (· ∈ R) := List.mem_filter.2 ⟨hsn, by simpa using hsR⟩
      rw [hone, List.mem_singleton] at this
      simp [this] at hsx
  obtain ⟨ws, hws, hall⟩ := mapM_forall₂ _ hsrc
  have hne : ws ≠ [] := by
    rintro rfl
    cases hall
  have hval : xorCode.value st ⟨x, p :: ns.filter (· ≠ x)⟩ = some (xorAll n ws) := by
    show ((p :: ns.filter (· ≠ x)).mapM st).bind xorEval = _
    rw [hws, Option.bind_some]
    exact xorEval_eq_some.2 ⟨n, hP.pos, hne, length_of_forall₂ hP.length hall, rfl⟩
  refine ⟨xorAll n ws, Code.exec_eq_some.2 ⟨h.missing x hxR, _, hval, rfl⟩,
    ⟨fun i hi hiR => ?_, fun q hq => ?_, fun i hi => ?_⟩⟩
  · by_cases hix : i = x
    · subst hix
      exact ⟨_, Function.update_self .., hP.step p ns i ws hmem hav hxn hall⟩
    · rw [Function.update_of_ne hix]
      exact h.systematic i hi (fun hm => hiR (Finset.mem_erase.2 ⟨hix, hm⟩))
  · by_cases hqx : q = x
    · subst hqx
      exact ⟨_, Function.update_self .., hP.step p ns q ws hmem hav hxn hall⟩
    · rw [Function.update_of_ne hqx]
      exact h.parity q hq
  · rw [Function.update_of_ne (Finset.ne_of_mem_erase hi)]
    exact h.missing i (Finset.mem_of_mem_erase hi)

/-- **A peeling runs to its end**, and what the slots hold goes from `R` to `R'`. -/
theorem Peels.run {g : BipartiteGraph} (hg : g.Valid) {A R R' : Finset Nat} {ops : List XorOperation}
    (h : Peels g A R ops R') {n : Nat} {P : Nat → WordShard → Prop} (hP : Admits g A n P) :
    ∀ {st : Nat → Option WordShard}, Holds g A P R st →
      ∃ final, Runs.run xorCode.exec st ops = some final ∧ Holds g A P R' final := by
  induction h with
  | nil => exact fun {st} hst => ⟨st, rfl, hst⟩
  | cons p ns x hmem hav hone _ ih =>
    intro st hst
    obtain ⟨v, hex, hst'⟩ := hst.step hg hP hmem hav hone
    obtain ⟨final, hr, hf⟩ := ih hst'
    exact ⟨final, (run_cons st _ _ final).2 ⟨_, hex, hr⟩, hf⟩

theorem PlanSpec.shape {g : BipartiteGraph} {M A : Finset Nat} {plan : DecodePlan} (h : PlanSpec g M A plan)
    (hr : plan.isRecoverable = true) : validatePlanShape plan = .ok () := by
  refine (validatePlanShape_ok plan).2 ⟨hr, h.length, fun i d hd j hj => ?_⟩
  have hi : i < plan.operations.length := by
    rw [← h.length]
    exact (List.getElem?_eq_some_iff.1 hd).1
  rw [h.deps i _ (List.getElem?_eq_getElem hi), Option.some.injEq] at hd
  rw [← hd] at hj
  obtain ⟨o, ho, -⟩ := mem_depsOf.1 hj
  have := (List.getElem?_eq_some_iff.1 ho).1
  rw [List.length_take] at this
  omega

/-- **A recoverable plan executes** on every slot vector that holds what the planner assumed; only missing slots
change. -/
theorem PlanSpec.execute {g : BipartiteGraph} (hg : g.Valid) {M A : Finset Nat} {plan : DecodePlan}
    (h : PlanSpec g M A plan) (hr : plan.isRecoverable = true) {n : Nat} {P : Nat → WordShard → Prop}
    (hP : Admits g A n P) {shards : ShardSlots} (hst : Holds g A P M (slotAt shards))
    (hlen : ∀ i ∈ M, i < shards.length) :
    ∃ shards', executeDecodePlanCpu plan shards = .returns shards' ∧ shards'.length = shards.length ∧
      Runs.run xorCode.exec (slotAt shards) plan.operations = some (slotAt shards') ∧
      Holds g A P ∅ (slotAt shards') ∧ ∀ i ∉ M, slotAt shards' i = slotAt shards i := by
  obtain ⟨final, hrun, hfinal⟩ := h.peels.run hg hP hst
  obtain ⟨shards', hex, hl, rfl⟩ := executeOperations_of_run (fun o ho => hlen _ (h.peels.outputs_mem o ho)) hrun
  refine ⟨shards', ?_, hl, hrun, hfinal, fun i hi => ?_⟩
  · unfold executeDecodePlanCpu
    rw [h.shape hr]
    exact hex
  · refine (solution_of_run _ _ _ hrun).1.frame i (fun hm => ?_)
    obtain ⟨o, ho, rfl⟩ := List.mem_map.1 hm
    exact hi (h.peels.outputs_mem o ho)

/-! ## Recovery is bit-exact -/

theorem eq_map_of_forall₂ {f : Nat → WordShard} {l : List Nat} {ws : List WordShard}
    (h : List.Forall₂ (fun i w => w = f i) l ws) : ws = l.map f := by
  induction h with
  | nil => rfl
  | cons hw _ ih => rw [hw, ih, List.map_cons]

theorem perm_cons_filter_ne {ns : List Nat} (hnd : ns.Nodup) {x : Nat} (hx : x ∈ ns) :
    ns.Perm (x :: ns.filter (· ≠ x)) := by
  have he : ns.erase x = ns.filter (· ≠ x) := by
    rw [hnd.erase_eq_filter]
    exact List.filter_congr (fun a _ => by by_cases h : a = x <;> simp [h])
  rw [← he]
  exact List.perm_cons_erase hx

/-- The systematic shards a coordinator or a test starts from: `k` of them, equally sized and not empty. -/
structure Systematic (g : BipartiteGraph) (n : Nat) (shards : List WordShard) : Prop where
  count : shards.length = g.systematicShardCount
  pos : 0 < n
  words : ∀ w ∈ shards, w.length = n

theorem Systematic.getD {g : BipartiteGraph} {n : Nat} {shards : List WordShard} (h : Systematic g n shards) {i : Nat}
    (hi : i < g.systematicShardCount) : shards[i]? = some (shards.getD i []) ∧ (shards.getD i []).length = n := by
  have hi' : i < shards.length := by rw [h.count]; exact hi
  have hget : shards[i]? = some (shards.getD i []) := by
    rw [List.getD_eq_getElem?_getD, List.getElem?_eq_getElem hi']
    rfl
  exact ⟨hget, h.words _ (List.mem_of_getElem? hget)⟩

theorem Systematic.headD {g : BipartiteGraph} (hg : g.Valid) {n : Nat} {shards : List WordShard}
    (h : Systematic g n shards) : (shards.headD []).length = n := by
  cases shards with
  | nil =>
    have hc := h.count
    have := hg.systematicPos
    simp only [List.length_nil] at hc
    omega
  | cons w ws => exact h.words w (by simp)

theorem codeword_systematic {g : BipartiteGraph} {n : Nat} {shards : List WordShard} (h : Systematic g n shards)
    {i : Nat} (hi : i < g.systematicShardCount) : shards[i]? = some (codeword g shards i) := by
  rw [codeword, if_pos hi]
  exact (h.getD hi).1

theorem codeword_parity {g : BipartiteGraph} (hg : g.Valid) {n : Nat} {shards : List WordShard}
    (h : Systematic g n shards) {p : Nat} {ns : List Nat} (hp : (p, ns) ∈ g.parityToSystematic) :
    codeword g shards p = xorAll n (ns.map (codeword g shards)) := by
  obtain ⟨hkp, -, -, hs⟩ := hg.entry hp
  rw [codeword, if_neg (Nat.not_lt.2 hkp), (g.find_eq_some _ _).2 hp, h.headD hg, Option.getD_some]
  congr 1
  apply List.map_congr_left
  intro s hsn
  rw [codeword, if_pos (hs s hsn)]

theorem length_codeword {g : BipartiteGraph} (hg : g.Valid) {n : Nat} {shards : List WordShard}
    (h : Systematic g n shards) (i : Nat) : (codeword g shards i).length = n := by
  unfold codeword
  split
  · rename_i hi
    exact (h.getD hi).2
  · rw [h.headD hg]
    refine XorWords.length_combineAll _ (fun w hw => ?_)
    obtain ⟨s, hs, rfl⟩ := List.mem_map.1 hw
    cases hf : g.find i with
    | none => rw [hf] at hs; cases hs
    | some ns =>
      rw [hf, Option.getD_some] at hs
      exact (h.getD ((hg.entry ((g.find_eq_some _ _).1 hf)).2.2.2 s hs)).2

/-- **XOR cancellation**: a parity and all its neighbours but one combine to that one. -/
theorem admits_codeword {g : BipartiteGraph} (hg : g.Valid) (A : Finset Nat) {n : Nat} {shards : List WordShard}
    (h : Systematic g n shards) : Admits g A n (fun i w => w = codeword g shards i) where
  pos := h.pos
  length i w hw := by
    rw [hw]
    exact length_codeword hg h i
  step p ns x ws hmem _ hx hall := by
    obtain ⟨-, -, hnd, -⟩ := hg.entry hmem
    have hsplit : codeword g shards p = xorAll n ((x :: ns.filter (· ≠ x)).map (codeword g shards)) := by
      rw [codeword_parity hg h hmem]
      exact XorWords.combineAll_perm xorLaws ((perm_cons_filter_ne hnd hx).map _)
    rw [eq_map_of_forall₂ hall, List.map_cons, hsplit, List.map_cons]
    refine XorWords.combineAll_recover xorLaws _ _ (length_codeword hg h x) (fun w hw => ?_)
    obtain ⟨s, -, rfl⟩ := List.mem_map.1 hw
    exact length_codeword hg h s

/-- **End-to-end erasure recovery**: on the originals and the encoded parities, a recoverable plan executes, leaves
every slot outside the missing set alone, and fills each missing slot with the original shard. -/
theorem executeDecodePlanCpu_recovers (g : BipartiteGraph) (c : CodeGraph) (hc : c.Describes g)
    (systematic : List WordShard) (n : Nat) (hs : Systematic g n systematic) (missing available : Finset Nat)
    (plan : DecodePlan) (hplan : createPlan g missing available = .ok plan) (hrec : plan.isRecoverable = true) :
    ∃ parity, encodeParityCpu c systematic = .ok parity ∧
      ∀ shards : ShardSlots, shards.length = g.systematicShardCount + g.parityShardCount →
        (∀ i < g.systematicShardCount, i ∉ missing → slotAt shards i = systematic[i]?) →
        (∀ p ∈ available, slotAt shards p = parity[p - g.systematicShardCount]?) →
        (∀ i ∈ missing, slotAt shards i = none) →
        ∃ shards', executeDecodePlanCpu plan shards = .returns shards' ∧
          (∀ i, i ∉ missing → shards'[i]? = shards[i]?) ∧ ∀ i ∈ missing, slotAt shards' i = systematic[i]? := by
  obtain ⟨hg, hM, hA, hspec⟩ := createPlan_spec hplan
  obtain ⟨parity, henc, hpar⟩ := encodeParityCpu_ok hg hc hs.count hs.pos hs.words
  refine ⟨parity, henc, fun shards hlen hsys hav hmiss => ?_⟩
  have hholds : Holds g available (fun i w => w = codeword g systematic i) missing (slotAt shards) := by
    refine ⟨fun i hi him => ⟨_, ?_, rfl⟩, fun p hp => ⟨_, ?_, rfl⟩, hmiss⟩
    · rw [hsys i hi him]
      exact codeword_systematic hs hi
    · obtain ⟨hkp, hpm⟩ := hA p hp
      have hkey : p ∈ g.parityToSystematic.map Prod.fst := by
        rw [hg.keys]
        exact List.mem_range'_1.2 ⟨hkp, hpm⟩
      obtain ⟨e, he, rfl⟩ := List.mem_map.1 hkey
      rw [hav _ hp]
      exact hpar _ _ he
  obtain ⟨shards', hex, hl, -, hfinal, hframe⟩ := (hspec hrec).execute hg hrec (admits_codeword hg available hs) hholds
    (fun i hi => by have := hM i hi; omega)
  refine ⟨shards', hex, fun i hi => ?_, fun i hi => ?_⟩
  · have hsi := hframe i hi
    by_cases hlt : i < shards.length
    · rw [List.getElem?_eq_getElem hlt, List.getElem?_eq_getElem (by omega)]
      simpa [slotAt, List.getElem?_eq_getElem hlt, List.getElem?_eq_getElem (show i < shards'.length by omega)]
        using hsi
    · rw [List.getElem?_eq_none (by omega), List.getElem?_eq_none (by omega)]
  · obtain ⟨w, hw, rfl⟩ := hfinal.systematic i (hM i hi) (Finset.notMem_empty i)
    rw [hw]
    exact (codeword_systematic hs (hM i hi)).symm

theorem executeDecodePlanCpu_recovers_makeThreeDataTwoParityGraph :
    ∃ parity, encodeParityCpu makeThreeDataTwoParityCodeGraph [[1, 2], [3, 4], [5, 6]] = .ok parity ∧
      ∀ shards : ShardSlots, shards.length = 3 + 2 →
        (∀ i < 3, i ∉ ({0, 1} : Finset Nat) → slotAt shards i = [[1, 2], [3, 4], [5, 6]][i]?) →
        (∀ p ∈ ({3, 4} : Finset Nat), slotAt shards p = parity[p - 3]?) →
        (∀ i ∈ ({0, 1} : Finset Nat), slotAt shards i = none) →
        ∃ shards', executeDecodePlanCpu ⟨[⟨1, [4, 2]⟩, ⟨0, [3, 1]⟩], [[], [0]], true⟩ shards = .returns shards' ∧
          (∀ i, i ∉ ({0, 1} : Finset Nat) → shards'[i]? = shards[i]?) ∧
          ∀ i ∈ ({0, 1} : Finset Nat), slotAt shards' i = [[1, 2], [3, 4], [5, 6]][i]? :=
  executeDecodePlanCpu_recovers makeThreeDataTwoParityGraph makeThreeDataTwoParityCodeGraph ⟨rfl, rfl, .refl _⟩
    [[1, 2], [3, 4], [5, 6]] 2 ⟨rfl, by decide, by decide⟩ {0, 1} {3, 4}
    ⟨[⟨1, [4, 2]⟩, ⟨0, [3, 1]⟩], [[], [0]], true⟩ (by decide +kernel) rfl

/-! ## Dependencies are enough to reorder -/

theorem admits_words (g : BipartiteGraph) (A : Finset Nat) {n : Nat} (hn : 0 < n) :
    Admits g A n (fun _ w => w.length = n) where
  pos := hn
  length _ _ h := h
  step _ _ _ _ _ _ _ hall := XorWords.length_combineAll _ (length_of_forall₂ (fun _ _ h => h) hall)

theorem filterMap_range_getElem? (ops : List XorOperation) : (List.range ops.length).filterMap (ops[·]?) = ops := by
  induction ops using List.reverseRecOn with
  | nil => rfl
  | append_singleton ops o ih =>
    rw [List.length_append, List.length_singleton, List.range_succ, List.filterMap_append]
    congr 1
    · conv => rhs; rw [← ih]
      refine List.filterMap_congr (fun i hi => ?_)
      rw [List.getElem?_append_left (List.mem_range.1 hi)]
    · simp

theorem filterMap_split {ops : List XorOperation} : ∀ {order : List Nat} {pre : List XorOperation} {o : XorOperation}
    {post : List XorOperation}, order.filterMap (ops[·]?) = pre ++ o :: post →
    ∃ ipre i ipost, order = ipre ++ i :: ipost ∧ ops[i]? = some o ∧ pre = ipre.filterMap (ops[·]?)
  | [], pre, o, post, h => by cases pre <;> cases h
  | j :: order, pre, o, post, h => by
    rw [List.filterMap_cons] at h
    cases hj : ops[j]? with
    | none =>
      rw [hj] at h
      obtain ⟨ipre, i, ipost, rfl, hi, rfl⟩ := filterMap_split h
      exact ⟨j :: ipre, i, ipost, rfl, hi, by rw [List.filterMap_cons, hj]⟩
    | some o' =>
      rw [hj] at h
      cases pre with
      | nil =>
        obtain ⟨rfl, -⟩ := List.cons.inj h
        exact ⟨[], j, order, rfl, hj, rfl⟩
      | cons p pre =>
        simp only [List.cons_append, List.cons.injEq] at h
        obtain ⟨rfl, h⟩ := h
        obtain ⟨ipre, i, ipost, rfl, hi, rfl⟩ := filterMap_split h
        exact ⟨j :: ipre, i, ipost, rfl, hi, by rw [List.filterMap_cons, hj]⟩

/-- **Out-of-order execution**: in every reordering of the operations that puts each one after its dependencies, the
operation body never throws and leaves the slots of the plan order. -/
theorem executeOperations_reordered (g : BipartiteGraph) (missing available : Finset Nat) (plan : DecodePlan)
    (hplan : createPlan g missing available = .ok plan) (hrec : plan.isRecoverable = true) (shards : ShardSlots)
    (n : Nat)
    (hn : 0 < n)
    (hsys : ∀ i < g.systematicShardCount, i ∉ missing → ∃ w, shards[i]? = some (some w) ∧ w.length = n)
    (hav : ∀ p ∈ available, ∃ w, shards[p]? = some (some w) ∧ w.length = n)
    (hmiss : ∀ i ∈ missing, shards[i]? = some none)
    (order : List Nat) (hperm : order.Perm (List.range plan.operations.length))
    (hdep : ∀ pre i post, order = pre ++ i :: post → ∀ d, plan.dependencies[i]? = some d → ∀ j ∈ d, j ∈ pre) :
    ∃ shards', executeOperations (order.filterMap (plan.operations[·]?)) shards = .returns shards' ∧
      executeDecodePlanCpu plan shards = .returns shards' := by
  obtain ⟨hg, hM, hA, hspec⟩ := createPlan_spec hplan
  have hspec := hspec hrec
  have hholds : Holds g available (fun _ w => w.length = n) missing (slotAt shards) := by
    refine ⟨fun i hi him => ?_, fun p hp => ?_, fun i hi => by rw [slotAt, hmiss i hi]; rfl⟩
    · obtain ⟨w, hw, hl⟩ := hsys i hi him
      exact ⟨w, slotAt_eq_some.2 hw, hl⟩
    · obtain ⟨w, hw, hl⟩ := hav p hp
      exact ⟨w, slotAt_eq_some.2 hw, hl⟩
  have hlt : ∀ i ∈ missing, i < shards.length := fun i hi => (List.getElem?_eq_some_iff.1 (hmiss i hi)).1
  obtain ⟨shards', hex, hl, hrun, -, -⟩ := hspec.execute hg hrec (admits_words g available hn) hholds hlt
  have hops : (order.filterMap (plan.operations[·]?)).Perm plan.operations := by
    have := hperm.filterMap (plan.operations[·]?)
    rwa [filterMap_range_getElem?] at this
  obtain ⟨hsol, hready⟩ := solution_of_run _ _ _ hrun
  refine ⟨shards', (executeOperations_returns _ shards shards').2 ⟨fun o ho => ?_, hl, run_exec_perm hrun hops ?_⟩, hex⟩
  · exact hlt _ (hspec.peels.outputs_mem o (hops.mem_iff.1 ho))
  intro pre o post hs x hx
  obtain ⟨ipre, i, ipost, rfl, hi, rfl⟩ := filterMap_split hs
  -- in plan order `x` is there at the start or an earlier operation produces it, and then it is a listed dependency
  have hsplit : plan.operations = plan.operations.take i ++ o :: plan.operations.drop (i + 1) := by
    obtain ⟨hlt', hget⟩ := List.getElem?_eq_some_iff.1 hi
    rw [← hget, List.getElem_cons_drop, List.take_append_drop]
  rcases hready _ o _ hsplit x hx with h1 | h1
  · exact .inl h1
  · obtain ⟨o', ho', rfl⟩ := List.mem_map.1 h1
    obtain ⟨j, hj⟩ := List.mem_iff_getElem?.1 ho'
    have hjd : j ∈ depsOf (plan.operations.take i) o := mem_depsOf.2 ⟨o', hj, hx⟩
    have hjpre := hdep ipre i ipost rfl _ (hspec.deps i o hi) j hjd
    have hjops : plan.operations[j]? = some o' := by
      rw [List.getElem?_take] at hj
      split at hj
      · exact hj
      · cases hj
    exact .inr (List.mem_map.2 ⟨o', List.mem_filterMap.2 ⟨j, hjpre, hjops⟩, rfl⟩)

/-- Shards 0, 1 and 3 are lost; 1 and 3 can be rebuilt at once, and 0 from 1. -/
def fourDataThreeParityGraph : BipartiteGraph := ⟨4, 3, [(4, [0, 1]), (5, [1, 2]), (6, [2, 3])], by decide⟩

theorem executeOperations_reordered_fourDataThreeParityGraph :
    ∃ shards', executeOperations
        ([0, 2, 1].filterMap ([(⟨1, [5, 2]⟩ : XorOperation), ⟨3, [6, 2]⟩, ⟨0, [4, 1]⟩][·]?))
        [none, none, some [3, 4], none, some [2, 6], some [5, 5], some [1, 7]] = .returns shards' ∧
      executeDecodePlanCpu ⟨[⟨1, [5, 2]⟩, ⟨3, [6, 2]⟩, ⟨0, [4, 1]⟩], [[], [], [0]], true⟩
        [none, none, some [3, 4], none, some [2, 6], some [5, 5], some [1, 7]] = .returns shards' := by
  refine executeOperations_reordered fourDataThreeParityGraph {0, 1, 3} {4, 5, 6}
    ⟨[⟨1, [5, 2]⟩, ⟨3, [6, 2]⟩, ⟨0, [4, 1]⟩], [[], [], [0]], true⟩ (by decide +kernel) rfl
    [none, none, some [3, 4], none, some [2, 6], some [5, 5], some [1, 7]] 2 (by decide) ?_ (by simp) (by simp)
    [0, 2, 1] (.cons 0 (.swap ..)) ?_
  · intro i hi him
    have hi4 : i < 4 := hi
    have hne : ¬ i = 0 ∧ ¬ i = 1 ∧ ¬ i = 3 := by simpa using him
    obtain rfl : i = 2 := by omega
    exact ⟨[3, 4], rfl, rfl⟩
  · rintro (_ | ⟨_, _ | ⟨_, _ | ⟨_, pre⟩⟩⟩) i post hs d hd j hj
    · obtain ⟨rfl, -⟩ := List.cons.inj hs
      obtain rfl := Option.some.inj hd
      cases hj
    · obtain ⟨rfl, htail⟩ := List.cons.inj hs
      obtain ⟨rfl, -⟩ := List.cons.inj htail
      obtain rfl := Option.some.inj hd
      exact hj
    · obtain ⟨-, htail⟩ := List.cons.inj hs
      obtain ⟨-, htail⟩ := List.cons.inj htail
      obtain ⟨rfl, -⟩ := List.cons.inj htail
      obtain rfl := Option.some.inj hd
      cases hj
    · simp at hs

end CodedLLM
