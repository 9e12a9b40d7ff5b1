import CodedLLM.Planner
import CodedLLM.XorWords
import CodedLLM.Dataflow
/-!
# Codec — parity encoding and plan execution on the CPU

`encodeParityCpu` and `executeDecodePlanCpu` as the source computes them.  The executor checks each operation against
the live slots and stores its output before the next one; a throw keeps the slots filled so far.  Seen as a store, the
slot vector runs the operations of `xorCode` (`executeOperations_returns`).
-/
namespace CodedLLM

open Runs Dataflow

def xorInto (acc input : WordShard) : WordShard := XorWords.combine (· ^^^ ·) acc input

def xorAll (wordCount : Nat) (inputs : List WordShard) : WordShard := XorWords.combineAll (· ^^^ ·) 0 wordCount inputs

theorem xorLaws : XorWords.Laws (fun a b : ShardWord => a ^^^ b) 0 where
  comm := UInt32.xor_comm
  assoc := UInt32.xor_assoc
  zeroLeft _ := UInt32.zero_xor
  self _ := UInt32.xor_self

/-! ## Encoding -/

def validateShardWords (shards : List WordShard) : Except Exn Nat :=
  match shards with
  | [] => .error (.invalidArgument "Shards must be non-empty")
  | front :: _ =>
    if front = [] then .error (.invalidArgument "Shards must be non-empty")
    else
      match forEach (fun shard => if shard.length ≠ front.length then
          .error (.invalidArgument "All shards must have the same word count") else .ok ()) shards with
      | .error e => .error e
      | .ok () => .ok front.length

def encodeSources (systematicShardCount : Nat) (systematicShards : List WordShard) :
    List Nat → WordShard → Except Exn WordShard
  | [], parity => .ok parity
  | source :: rest, parity =>
    if systematicShardCount ≤ source then
      .error (.invalidArgument "Parity encoding currently supports systematic source shards only")
    else
      match systematicShards[source]? with
      | none => .error vectorAt
      | some input => encodeSources systematicShardCount systematicShards rest (xorInto parity input)

/-- The equation loop; the parity index is a `ShardId` difference. -/
def encodeEquations (systematicShardCount : Nat) (systematicShards : List WordShard) :
    List ParityEquation → List WordShard → Except Exn (List WordShard)
  | [], parityShards => .ok parityShards
  | equation :: rest, parityShards =>
    let parityIndex := toShardId (equation.output + 2 ^ 32 - systematicShardCount)
    match parityShards[parityIndex]? with
    | none => .error vectorAt
    | some parity =>
      match encodeSources systematicShardCount systematicShards equation.sources parity with
      | .error e => .error e
      | .ok parity' => encodeEquations systematicShardCount systematicShards rest (parityShards.set parityIndex parity')

def encodeParityCpu (graph : CodeGraph) (systematicShards : List WordShard) : Except Exn (List WordShard) :=
  if systematicShards.length ≠ graph.systematicShardCount then
    .error (.invalidArgument "Systematic shard count does not match the code graph")
  else
    match validateShardWords systematicShards with
    | .error e => .error e
    | .ok wordCount =>
      encodeEquations graph.systematicShardCount systematicShards graph.parityEquations
        (List.replicate graph.parityShardCount (List.replicate wordCount 0))

/-- Shard `id` of the codeword of `systematicShards`: the systematic shard itself, or what the equation of parity `id`
encodes to. -/
def codeword (g : BipartiteGraph) (systematicShards : List WordShard) (id : Nat) : WordShard :=
  if id < g.systematicShardCount then systematicShards.getD id []
  else xorAll (systematicShards.headD []).length (((g.find id).getD []).map (fun s => systematicShards.getD s []))

theorem validateShardWords_ok {shards : List WordShard} {n : Nat} (hne : shards ≠ []) (hn : 0 < n)
    (h : ∀ w ∈ shards, w.length = n) : validateShardWords shards = .ok n := by
  cases shards with
  | nil => exact absurd rfl hne
  | cons front rest =>
    have hf : front.length = n := h front (by simp)
    have hfn : front ≠ [] := List.length_pos_iff.1 (hf ▸ hn)
    have hall : forEach (fun shard => if shard.length ≠ front.length then
        .error (.invalidArgument "All shards must have the same word count") else .ok ()) (front :: rest) = .ok () := by
      rw [forEach_ok]
      intro w hw
      rw [if_neg (not_not.2 (by rw [h w hw, hf]))]
    simp only [validateShardWords, hfn, if_false, hall]
    rw [hf]

theorem encodeSources_ok {k : Nat} {systematic : List WordShard} (hlen : systematic.length = k) :
    ∀ (srcs : List Nat) (acc : WordShard), (∀ s ∈ srcs, s < k) →
      encodeSources k systematic srcs acc = .ok ((srcs.map (fun s => systematic.getD s [])).foldl xorInto acc)
  | [], _, _ => rfl
  | s :: srcs, acc, h => by
    have hs : s < k := h s (by simp)
    have hget : systematic[s]? = some (systematic.getD s []) := by
      rw [List.getD_eq_getElem?_getD, List.getElem?_eq_getElem (by omega)]
      rfl
    simp only [encodeSources, Nat.not_le.2 hs, if_false, hget]
    rw [encodeSources_ok hlen srcs _ (fun x hx => h x (by simp [hx]))]
    rfl

theorem encodeEquations_ok {k m n : Nat} {systematic : List WordShard} (hlen : systematic.length = k)
    (htotal : k + m ≤ 2 ^ 32) : ∀ (es : List ParityEquation) (parity : List WordShard), parity.length = m →
      (es.map ParityEquation.output).Nodup → (∀ e ∈ es, k ≤ e.output ∧ e.output < k + m ∧ ∀ s ∈ e.sources, s < k) →
      (∀ e ∈ es, parity[e.output - k]? = some (List.replicate n 0)) →
      ∃ parity', encodeEquations k systematic es parity = .ok parity' ∧ parity'.length = m ∧
        (∀ e ∈ es, parity'[e.output - k]? = some (xorAll n (e.sources.map (fun s => systematic.getD s [])))) ∧
        ∀ i, (∀ e ∈ es, e.output - k ≠ i) → parity'[i]? = parity[i]?
  | [], parity, hp, _, _, _ => ⟨parity, rfl, hp, by simp, fun _ _ => rfl⟩
  | e :: es, parity, hp, hnd, hr, hz => by
    obtain ⟨hk, hkm, hs⟩ := hr e (by simp)
    have hidx : toShardId (e.output + 2 ^ 32 - k) = e.output - k := by
      unfold toShardId
      omega
    rw [List.map_cons, List.nodup_cons] at hnd
    have hother : ∀ e' ∈ es, e'.output - k ≠ e.output - k := fun e' he' heq => by
      have := (hr e' (by simp [he'])).1
      exact hnd.1 (List.mem_map.2 ⟨e', he', by omega⟩)
    obtain ⟨parity', hok, hl, hfill, hkeep⟩ := encodeEquations_ok hlen htotal es
      (parity.set (e.output - k) (xorAll n (e.sources.map (fun s => systematic.getD s []))))
      (by simpa using hp) hnd.2 (fun e' he' => hr e' (by simp [he']))
      (fun e' he' => by rw [List.getElem?_set_ne (Ne.symm (hother e' he'))]; exact hz e' (by simp [he']))
    refine ⟨parity', ?_, hl, fun e' he' => ?_, fun i hi => ?_⟩
    · simp only [encodeEquations, hidx, hz e (by simp), encodeSources_ok hlen e.sources _ hs]
      exact hok
    · rcases List.mem_cons.1 he' with rfl | he'
      · rw [hkeep _ hother, List.getElem?_set_self (by omega)]
      · exact hfill e' he'
    · rw [hkeep i (fun e' he' => hi e' (by simp [he'])), List.getElem?_set_ne (hi e (by simp))]

/-- **`encode_parity_cpu` on a code the planner accepts** returns, and its output at index `id - k` is parity `id` of
the codeword. -/
theorem encodeParityCpu_ok {c : CodeGraph} {g : BipartiteGraph} (hg : g.Valid) (hc : c.Describes g)
    {systematic : List WordShard} (hlen : systematic.length = g.systematicShardCount) {n : Nat} (hn : 0 < n)
    (hw : ∀ w ∈ systematic, w.length = n) :
    ∃ parity, encodeParityCpu c systematic = .ok parity ∧ ∀ p ns, (p, ns) ∈ g.parityToSystematic →
      parity[p - g.systematicShardCount]? = some (codeword g systematic p) := by
  have hne : systematic ≠ [] := List.length_pos_iff.1 (hlen ▸ hg.systematicPos)
  have hmem : ∀ e ∈ c.parityEquations, (e.output, e.sources) ∈ g.parityToSystematic := fun e he =>
    hc.equations.mem_iff.1 (List.mem_map.2 ⟨e, he, rfl⟩)
  have hr : ∀ e ∈ c.parityEquations, g.systematicShardCount ≤ e.output ∧
      e.output < g.systematicShardCount + g.parityShardCount ∧ ∀ s ∈ e.sources, s < g.systematicShardCount := by
    intro e he
    obtain ⟨h1, h2, -, h3⟩ := hg.entry (hmem e he)
    exact ⟨h1, h2, h3⟩
  have hnd : (c.parityEquations.map ParityEquation.output).Nodup := by
    have := (hc.equations.map Prod.fst).nodup_iff.2 g.keys_nodup
    simpa [List.map_map, Function.comp_def] using this
  obtain ⟨parity, hok, -, hfill, -⟩ := encodeEquations_ok (n := n) hlen hg.total c.parityEquations
    (List.replicate g.parityShardCount (List.replicate n 0)) (by simp) hnd hr (fun e he => by
      obtain ⟨h1, h2, -⟩ := hr e he
      rw [List.getElem?_replicate, if_pos (by omega)])
  refine ⟨parity, ?_, fun p ns hp => ?_⟩
  · unfold encodeParityCpu
    rw [hc.systematic, hc.parity, if_neg (not_not.2 hlen), validateShardWords_ok hne hn hw]
    exact hok
  · obtain ⟨e, he, heq⟩ := List.mem_map.1 (hc.equations.mem_iff.2 hp)
    obtain ⟨rfl, rfl⟩ := Prod.mk.inj heq
    have hhead : (systematic.headD []).length = n := by
      cases systematic with
      | nil => exact absurd rfl hne
      | cons w ws => exact hw w (by simp)
    rw [hfill e he, codeword, if_neg (Nat.not_lt.2 (hr e he).1), (g.find_eq_some _ _).2 hp, hhead, Option.getD_some]

/-! ## Plan execution -/

/-- The dependency loop of `ValidatePlanShape`, from operation `index` on. -/
def checkDependencies : Nat → List (List Nat) → Except Exn Unit
  | _, [] => .ok ()
  | index, dependencies :: rest =>
    if ∃ d ∈ dependencies, index ≤ d then
      .error (.invalidArgument "DecodePlan dependencies must reference earlier operations")
    else checkDependencies (index + 1) rest

def validatePlanShape (plan : DecodePlan) : Except Exn Unit :=
  if plan.isRecoverable = false then .error (.invalidArgument "Cannot execute an unrecoverable decode plan")
  else if plan.dependencies.length ≠ plan.operations.length then
    .error (.invalidArgument "DecodePlan dependencies must match the operation count")
  else checkDependencies 0 plan.dependencies

def xorSources (shards : ShardSlots) (wordCount : Nat) : List Nat → WordShard → Except Exn WordShard
  | [], output => .ok output
  | source :: rest, output =>
    match slotAt shards source with
    | none => .error (.invalidArgument "DecodePlan sources must be available and equally sized")
    | some input =>
      if input.length ≠ wordCount then
        .error (.invalidArgument "DecodePlan sources must be available and equally sized")
      else xorSources shards wordCount rest (xorInto output input)

def executeOperation (shards : ShardSlots) (operation : XorOperation) : Except Exn ShardSlots :=
  if shards.length ≤ operation.output then .error (.invalidArgument "DecodePlan output shard is out of bounds")
  else
    match operation.sources with
    | [] => .error (.invalidArgument "DecodePlan XOR operation has no sources")
    | firstSource :: _ =>
      if (slotAt shards operation.output).isSome then
        .error (.invalidArgument "DecodePlan output shard is already present")
      else
        match slotAt shards firstSource with
        | none => .error (.invalidArgument "DecodePlan source shard is unavailable")
        | some first =>
          if first.length = 0 then .error (.invalidArgument "DecodePlan source shards must be non-empty")
          else
            match xorSources shards first.length operation.sources (List.replicate first.length 0) with
            | .error e => .error e
            | .ok output => .ok (shards.set operation.output (some output))

def executeOperations : List XorOperation → ShardSlots → Outcome ShardSlots
  | [], shards => .returns shards
  | operation :: rest, shards =>
    match executeOperation shards operation with
    | .error e => .throws shards e
    | .ok shards' => executeOperations rest shards'

def executeDecodePlanCpu (plan : DecodePlan) (shards : ShardSlots) : Outcome ShardSlots :=
  match validatePlanShape plan with
  | .error e => .throws shards e
  | .ok () => executeOperations plan.operations shards

/-! ## The slot vector as a store -/

/-- An operation's value from its sources' shards: there is one, they are non-empty and equally sized. -/
def xorEval : List WordShard → Option WordShard
  | [] => none
  | w :: ws => if w ≠ [] ∧ ∀ x ∈ ws, x.length = w.length then some (xorAll w.length (w :: ws)) else none

def xorCode : Code Nat WordShard XorOperation := ⟨XorOperation.output, XorOperation.sources, xorEval⟩

theorem xorSources_eq (shards : ShardSlots) (n : Nat) : ∀ (srcs : List Nat) (acc r : WordShard),
    xorSources shards n srcs acc = .ok r ↔
      ∃ ws, srcs.mapM (slotAt shards) = some ws ∧ (∀ w ∈ ws, w.length = n) ∧ r = ws.foldl xorInto acc
  | [], acc, r => by
    simp only [xorSources, List.mapM_nil, Except.ok.injEq]
    constructor
    · rintro rfl
      exact ⟨[], rfl, by simp, rfl⟩
    · rintro ⟨ws, hws, -, rfl⟩
      obtain rfl : [] = ws := Option.some.inj hws
      rfl
  | s :: srcs, acc, r => by
    simp only [xorSources]
    cases hs : slotAt shards s with
    | none =>
      simp only [reduceCtorEq, false_iff, not_exists, not_and]
      intro ws h
      obtain ⟨w, -, hw, -⟩ := mapM_cons_eq_some.1 h
      rw [hs] at hw
      cases hw
    | some w =>
      simp only
      by_cases hw : w.length = n
      · rw [if_neg (not_not.2 hw), xorSources_eq shards n srcs]
        constructor
        · rintro ⟨ws, hws, hl, rfl⟩
          exact ⟨w :: ws, mapM_cons_eq_some.2 ⟨w, ws, hs, hws, rfl⟩, by simpa [hw] using hl, rfl⟩
        · rintro ⟨ws', h, hl, rfl⟩
          obtain ⟨w', ws, hw', hws, rfl⟩ := mapM_cons_eq_some.1 h
          obtain rfl : w = w' := Option.some.inj (hs.symm.trans hw')
          exact ⟨ws, hws, fun x hx => hl x (by simp [hx]), rfl⟩
      · rw [if_pos hw]
        simp only [reduceCtorEq, false_iff, not_exists, not_and]
        intro ws' h hl
        obtain ⟨w', ws, hw', -, rfl⟩ := mapM_cons_eq_some.1 h
        obtain rfl : w = w' := Option.some.inj (hs.symm.trans hw')
        exact absurd (hl w (by simp)) hw

theorem xorEval_eq_some {ws : List WordShard} {v : WordShard} :
    xorEval ws = some v ↔ ∃ n, 0 < n ∧ ws ≠ [] ∧ (∀ w ∈ ws, w.length = n) ∧ v = xorAll n ws := by
  cases ws with
  | nil => simp [xorEval]
  | cons w ws =>
    simp only [xorEval]
    constructor
    · intro h
      split at h
      · rename_i hc
        refine ⟨w.length, List.length_pos_iff.2 hc.1, by simp, ?_, (Option.some.inj h).symm⟩
        simpa using hc.2
      · cases h
    · rintro ⟨n, hn, -, hl, rfl⟩
      have hw : w.length = n := hl w (by simp)
      rw [if_pos ⟨List.length_pos_iff.1 (hw ▸ hn), fun x hx => by rw [hw]; exact hl x (by simp [hx])⟩, hw]

/-- **One operation of the executor**: the output slot exists and is empty, the sources have a value, and that value is
stored. -/
theorem executeOperation_ok {shards shards' : ShardSlots} {op : XorOperation} :
    executeOperation shards op = .ok shards' ↔
      op.output < shards.length ∧ slotAt shards op.output = none ∧
        ∃ v, xorCode.value (slotAt shards) op = some v ∧ shards' = shards.set op.output (some v) := by
  unfold executeOperation
  by_cases hlen : shards.length ≤ op.output
  · simp [hlen, Nat.not_lt.2 hlen]
  rw [if_neg hlen]
  have hlt : op.output < shards.length := Nat.lt_of_not_le hlen
  have hval : xorCode.value (slotAt shards) op = (op.sources.mapM (slotAt shards)).bind xorEval := rfl
  rw [hval]
  cases hsrc : op.sources with
  | nil => simp [xorEval]
  | cons f rest =>
    simp only
    cases hout : slotAt shards op.output with
    | some w => simp
    | none =>
      simp only [Option.isSome_none, Bool.false_eq_true, if_false, hlt, true_and]
      cases hf : slotAt shards f with
      | none => simp [List.mapM_cons, hf]
      | some first =>
        have hfirst : ∀ ws, (f :: rest).mapM (slotAt shards) = some ws → first ∈ ws := by
          intro ws hws
          obtain ⟨w, ws', hw, -, rfl⟩ := mapM_cons_eq_some.1 hws
          rw [Option.some.inj (hf.symm.trans hw)]
          simp
        simp only
        by_cases h0 : first.length = 0
        · rw [if_pos h0]
          simp only [reduceCtorEq, false_iff, not_exists, not_and]
          intro v hv
          obtain ⟨ws, hws, hv⟩ := Option.bind_eq_some_iff.1 hv
          obtain ⟨n, hn, -, hl, -⟩ := xorEval_eq_some.1 hv
          have := hl first (hfirst ws hws)
          omega
        rw [if_neg h0]
        cases hx : xorSources shards first.length (f :: rest) (List.replicate first.length 0) with
        | error e =>
          simp only [reduceCtorEq, false_iff, not_exists, not_and]
          intro v hv
          obtain ⟨ws, hws, hv⟩ := Option.bind_eq_some_iff.1 hv
          obtain ⟨n, -, -, hl, -⟩ := xorEval_eq_some.1 hv
          rw [← hl first (hfirst ws hws)] at hl
          rw [(xorSources_eq shards _ _ _ _).2 ⟨ws, hws, hl, rfl⟩] at hx
          cases hx
        | ok r =>
          obtain ⟨ws, hws, hl, rfl⟩ := (xorSources_eq shards _ _ _ _).1 hx
          have hne := List.ne_nil_of_mem (hfirst ws hws)
          rw [hws, Option.bind_some, xorEval_eq_some.2 ⟨first.length, Nat.pos_of_ne_zero h0, hne, hl, rfl⟩]
          simp only [Except.ok.injEq, Option.some.injEq, exists_eq_left']
          exact eq_comm

theorem slotAt_set_update {shards : ShardSlots} {i : Nat} (hi : i < shards.length) (v : Option WordShard) :
    slotAt (shards.set i v) = Function.update (slotAt shards) i v := by
  funext j
  rw [slotAt_set hi, Function.update_apply]

/-- **The executor runs the operations of `xorCode` on the slots**: it returns exactly when every output is a slot and
the run on the store ends, and then the slots are the final store. -/
theorem executeOperations_returns : ∀ (ops : List XorOperation) (shards shards' : ShardSlots),
    executeOperations ops shards = .returns shards' ↔
      (∀ o ∈ ops, o.output < shards.length) ∧ shards'.length = shards.length ∧
        run xorCode.exec (slotAt shards) ops = some (slotAt shards')
  | [], shards, shards' => by
    simp only [executeOperations, Outcome.returns.injEq, run_nil, Option.some.injEq, List.not_mem_nil, false_implies,
      implies_true, true_and]
    constructor
    · rintro rfl
      exact ⟨rfl, rfl⟩
    · rintro ⟨hl, h⟩
      exact slots_ext hl.symm (fun i => congrFun h i)
  | o :: ops, shards, shards' => by
    simp only [executeOperations, run_cons, List.mem_cons, forall_eq_or_imp]
    cases he : executeOperation shards o with
    | error e =>
      simp only [reduceCtorEq, false_iff, not_and, not_exists]
      rintro ⟨ho, -⟩ - st' hst -
      obtain ⟨hnone, v, hv, -⟩ := Code.exec_eq_some.1 hst
      rw [executeOperation_ok.2 ⟨ho, hnone, v, hv, rfl⟩] at he
      cases he
    | ok mid =>
      obtain ⟨ho, hnone, v, hv, rfl⟩ := executeOperation_ok.1 he
      simp only [executeOperations_returns ops, List.length_set, slotAt_set_update ho]
      constructor
      · rintro ⟨hout, hl, hr⟩
        exact ⟨⟨ho, hout⟩, hl, _, Code.exec_eq_some.2 ⟨hnone, v, hv, rfl⟩, hr⟩
      · rintro ⟨⟨-, hout⟩, hl, st', hst, hr⟩
        obtain ⟨-, v', hv', rfl⟩ := Code.exec_eq_some.1 hst
        obtain rfl : v = v' := Option.some.inj (hv.symm.trans hv')
        exact ⟨hout, hl, hr⟩

theorem executeOperations_of_run {ops : List XorOperation} {shards : ShardSlots} {final : Nat → Option WordShard}
    (hout : ∀ o ∈ ops, o.output < shards.length) (hr : run xorCode.exec (slotAt shards) ops = some final) :
    ∃ shards', executeOperations ops shards = .returns shards' ∧ shards'.length = shards.length ∧
      slotAt shards' = final := by
  have hsol := (solution_of_run ops _ final hr).1
  let shards' : ShardSlots := List.ofFn (fun i : Fin shards.length => final i)
  have hlen : shards'.length = shards.length := List.length_ofFn
  have hslot : slotAt shards' = final := by
    funext i
    by_cases hi : i < shards.length
    · simp [slotAt, shards', hi]
    · rw [slotAt_of_length_le (by rw [hlen]; omega), hsol.frame i (fun hm => ?_),
        slotAt_of_length_le (Nat.le_of_not_lt hi)]
      obtain ⟨o, ho, rfl⟩ := List.mem_map.1 hm
      exact hi (hout o ho)
  exact ⟨shards', (executeOperations_returns ops shards shards').2 ⟨hout, hlen, hslot ▸ hr⟩, hlen, hslot⟩

theorem checkDependencies_ok : ∀ (ds : List (List Nat)) (index : Nat),
    checkDependencies index ds = .ok () ↔ ∀ (i : Nat) (d : List Nat), ds[i]? = some d → ∀ j ∈ d, j < index + i
  | [], _ => by simp [checkDependencies]
  | d :: ds, index => by
    unfold checkDependencies
    by_cases h : ∃ j ∈ d, index ≤ j
    · rw [if_pos h]
      simp only [reduceCtorEq, false_iff, not_forall]
      obtain ⟨j, hj, hle⟩ := h
      exact ⟨0, d, rfl, j, hj, by omega⟩
    · rw [if_neg h, checkDependencies_ok ds]
      push Not at h
      constructor
      · intro hrest i e he j hj
        cases i with
        | zero =>
          obtain rfl : d = e := by simpa using he
          exact h j hj
        | succ i =>
          have := hrest i e (by simpa using he) j hj
          omega
      · intro hall i e he j hj
        have := hall (i + 1) e (by simpa using he) j hj
        omega

theorem validatePlanShape_ok (plan : DecodePlan) :
    validatePlanShape plan = .ok () ↔ plan.isRecoverable = true ∧ plan.dependencies.length = plan.operations.length ∧
      ∀ (i : Nat) (d : List Nat), plan.dependencies[i]? = some d → ∀ j ∈ d, j < i := by
  unfold validatePlanShape
  cases hr : plan.isRecoverable with
  | false => simp
  | true =>
    by_cases hl : plan.dependencies.length = plan.operations.length
    · simp [hl, checkDependencies_ok]
    · simp [hl]

end CodedLLM
