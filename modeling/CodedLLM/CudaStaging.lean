import CodedLLM.CudaDecode
/-!
# CudaStaging — decoding from shards staged one by one

`DeviceShardStagingContext` takes shards as they arrive and executes one plan.  With a healthy device a context that has
not run is determined by the slots staged so far (`DeviceShardStagingContext.ofSlots`).  The last theorem of the module
puts the three CUDA executors beside the CPU one.
-/
namespace CodedLLM

open Runs Dataflow

structure DeviceShardStagingContext where
  wordCounts : List (Option Nat)
  stagedShards : ShardSlots
  deviceShards : DeviceMemory
  finalized : Bool
  deriving DecidableEq, Repr

def createDeviceShardStagingContextCuda (dev : Device) (shardCount : Nat) : Except Exn DeviceShardStagingContext :=
  if shardCount = 0 then .error (.invalidArgument "Staged decode context requires shard slots")
  else
    match forEach dev.check [.getDevice, .streamCreate] with
    | .error e => .error e
    | .ok () =>
      .ok ⟨List.replicate shardCount none, List.replicate shardCount none, List.replicate shardCount none, false⟩

/-- `stage_decode_shard_cuda`: the host copy and the count are recorded before the buffer is allocated. -/
def stageDecodeShardCuda (dev : Device) (context : DeviceShardStagingContext) (shardId : Nat) (shard : WordShard) :
    Outcome DeviceShardStagingContext :=
  if context.finalized = true then
    .throws context (.logicError "Cannot stage shards after decode plan finalization")
  else if context.deviceShards.length ≤ shardId then
    .throws context (.invalidArgument "Staged shard ID is out of bounds")
  else if shard = [] then .throws context (.invalidArgument "Staged shards must not be empty")
  else if (slotAt context.deviceShards shardId).isSome then
    .throws context (.invalidArgument "Staged shard is already present")
  else
    match dev.check .setDevice with
    | .error e => .throws context e
    | .ok () =>
      let context := { context with
        stagedShards := context.stagedShards.set shardId (some shard)
        wordCounts := context.wordCounts.set shardId (some shard.length) }
      match dev.check (.malloc shardId) with
      | .error e => .throws context e
      | .ok () =>
        let allocated := { context with
          deviceShards := context.deviceShards.set shardId (some (dev.fresh shardId shard.length)) }
        match forEach dev.check [.eventCreate 0, .eventCreate 1, .eventRecord 0, .upload shardId] with
        | .error e => .throws allocated e
        | .ok () =>
          let context := { context with deviceShards := context.deviceShards.set shardId (some shard) }
          match dev.check (.eventRecord 1) with
          | .error e => .throws context e
          | .ok () => .returns context

def validateStaged (dev : Device) (context : DeviceShardStagingContext) (plan : DecodePlan) (shards : ShardSlots) :
    Except Exn PlanLayout :=
  if context.finalized = true then .error (.logicError "Staged decode context has already executed a plan")
  else if shards.length ≠ context.deviceShards.length then
    .error (.invalidArgument "Destination shard slots must match the staged context")
  else do
    validatePlanShape plan
    dev.check .setDevice
    forEach (fun shardId => if slotAt context.stagedShards shardId ≠ slotAt shards shardId then
      .error (.invalidArgument "Staged shards must match the supplied host shard slots") else .ok ())
      (List.range context.deviceShards.length)
    layoutOperations context.deviceShards.length plan.operations (.initial context.wordCounts)

/-- A required shard without a buffer gets one; every required shard gets its entry in the table. -/
def allocateMissing (dev : Device) (l : PlanLayout) (m : DeviceMemory × List (Option Nat)) (shardId : Nat) :
    Outcome (DeviceMemory × List (Option Nat)) :=
  if l.requiredShards.getD shardId false = false then .returns m
  else if (slotAt m.1 shardId).isSome then .returns (m.1, m.2.set shardId (some shardId))
  else
    match dev.check (.malloc shardId) with
    | .error e => .throws m e
    | .ok () => .returns (m.1.set shardId (some (dev.fresh shardId ((l.count shardId).getD 0))),
        m.2.set shardId (some shardId))

def runStagedDecodePlanCuda (dev : Device) (context : DeviceShardStagingContext) (plan : DecodePlan)
    (shards : ShardSlots) : Outcome (DeviceShardStagingContext × ShardSlots) :=
  match validateStaged dev context plan shards with
  | .error e => .throws (context, shards) e
  | .ok layout =>
    match loopInPlace (allocateMissing dev layout) (List.range context.deviceShards.length)
        (context.deviceShards, List.replicate context.deviceShards.length none) with
    | .throws m e => .throws ({ context with deviceShards := m.1 }, shards) e
    | .returns (mem, table) =>
      match forEach dev.check (if plan.operations = [] then []
          else [.mallocTable, .uploadTable, .mallocSourceIds, .uploadSourceIds]) with
      | .error e => .throws ({ context with deviceShards := mem }, shards) e
      | .ok () =>
        let context := { context with wordCounts := layout.wordCounts, deviceShards := mem, finalized := true }
        let tables : LaunchTables := ⟨layout.wordCounts, layout.sourceOffsets, table, layout.flattenedSources⟩
        match forEach dev.check ((List.range 4).map .eventCreate ++ [.eventRecord 0]) with
        | .error e => .throws (context, shards) e
        | .ok () =>
          match launchOperations dev tables plan.operations mem with
          | .throws mem e => .throws ({ context with deviceShards := mem }, shards) e
          | .returns mem =>
            let context := { context with deviceShards := mem }
            match forEach dev.check [.eventRecord 1, .eventRecord 2] with
            | .error e => .throws (context, shards) e
            | .ok () =>
              match copyOutputs dev tables mem plan.operations.zipIdx with
              | .error e => .throws (context, shards) e
              | .ok outputs =>
                match forEach dev.check (.eventRecord 3 :: .synchronize :: (List.range 3).map .elapsedTime) with
                | .error e => .throws (context, shards) e
                | .ok () => .returns ({ context with stagedShards := [] }, storeOutputs plan.operations outputs shards)

/-- Create a context, stage the listed shards of the host slots, run the plan on the same slots. -/
def stageAndRun (create : Device) (stagings : List (Device × Nat)) (run : Device) (plan : DecodePlan)
    (shards : ShardSlots) : Outcome ShardSlots :=
  match createDeviceShardStagingContextCuda create shards.length with
  | .error e => .throws shards e
  | .ok context =>
    match loopInPlace (fun context (dev, shardId) =>
        stageDecodeShardCuda dev context shardId ((slotAt shards shardId).getD [])) stagings context with
    | .throws _ e => .throws shards e
    | .returns context =>
      match runStagedDecodePlanCuda run context plan shards with
      | .throws s e => .throws s.2 e
      | .returns s => .returns s.2

/-! ## A healthy device -/

/-- **The context of the slots staged so far**, with nothing run. -/
def DeviceShardStagingContext.ofSlots (slots : ShardSlots) : DeviceShardStagingContext :=
  ⟨wordCountsOf slots, slots, slots, false⟩

theorem wordCountsOf_set (slots : ShardSlots) (i : Nat) (w : WordShard) :
    wordCountsOf (slots.set i (some w)) = (wordCountsOf slots).set i (some w.length) := by
  rw [wordCountsOf, List.map_set]
  rfl

theorem createDeviceShardStagingContextCuda_ok {dev : Device} (hdev : dev.Healthy) {n : Nat} (hn : n ≠ 0) :
    createDeviceShardStagingContextCuda dev n = .ok (.ofSlots (List.replicate n none)) := by
  unfold createDeviceShardStagingContextCuda
  rw [if_neg hn, hdev.checks]
  simp [DeviceShardStagingContext.ofSlots, wordCountsOf]

theorem stageDecodeShardCuda_ok {dev : Device} (hdev : dev.Healthy) {slots : ShardSlots} {shardId : Nat}
    {shard : WordShard} (hlt : shardId < slots.length) (hne : shard ≠ []) (hempty : slotAt slots shardId = none) :
    stageDecodeShardCuda dev (.ofSlots slots) shardId shard = .returns (.ofSlots (slots.set shardId (some shard))) := by
  unfold stageDecodeShardCuda DeviceShardStagingContext.ofSlots
  simp only [Bool.false_eq_true, if_false, Nat.not_le.2 hlt, hne, hempty, Option.isSome_none, hdev.check, hdev.checks,
    wordCountsOf_set]

/-- **Staging shards one by one** fills their slots, whatever the order. -/
theorem stageDecodeShardCuda_loop {shards : ShardSlots} (hwords : ∀ i w, slotAt shards i = some w → w ≠ []) :
    ∀ (stagings : List (Device × Nat)) (slots : ShardSlots), (∀ x ∈ stagings, x.1.Healthy) →
      slots.length = shards.length →
      (∀ id ∈ stagings.map Prod.snd, (slotAt shards id).isSome ∧ slotAt slots id = none) →
      (stagings.map Prod.snd).Nodup →
      ∃ slots', loopInPlace (fun context (dev, shardId) =>
          stageDecodeShardCuda dev context shardId ((slotAt shards shardId).getD [])) stagings (.ofSlots slots) =
            .returns (.ofSlots slots') ∧ slots'.length = shards.length ∧
        ∀ i, slotAt slots' i = if i ∈ stagings.map Prod.snd then slotAt shards i else slotAt slots i
  | [], slots, _, hlen, _, _ => ⟨slots, rfl, hlen, by simp⟩
  | (dev, id) :: rest, slots, hdev, hlen, hids, hnd => by
    obtain ⟨hsome, hempty⟩ := hids id (by simp)
    obtain ⟨w, hw⟩ := Option.isSome_iff_exists.1 hsome
    have hlt : id < slots.length := by
      rw [hlen]
      exact lt_length_of_slotAt hw
    have hstage := stageDecodeShardCuda_ok (hdev (dev, id) (by simp)) hlt (hwords id w hw) hempty
    have hnot : id ∉ rest.map Prod.snd := (List.nodup_cons.1 hnd).1
    obtain ⟨slots', hloop, hlen', hslot⟩ := stageDecodeShardCuda_loop hwords rest (slots.set id (some w))
      (fun x hx => hdev x (by simp [hx])) (by rw [List.length_set, hlen]) (fun i hi => by
        have hne : i ≠ id := fun he => hnot (he ▸ hi)
        rw [slotAt_set hlt, if_neg hne]
        exact hids i (by simp only [List.map_cons, List.mem_cons]; exact .inr hi)) (List.nodup_cons.1 hnd).2
    refine ⟨slots', ?_, hlen', fun i => ?_⟩
    · simp only [loopInPlace, hw, Option.getD_some, hstage, hloop]
    · rw [hslot i, slotAt_set hlt]
      by_cases hi : i ∈ rest.map Prod.snd
      · simp [hi]
      · by_cases hid : i = id
        · subst hid
          simp [hw]
        · simp [hi, hid]

section Staged

variable {dev : Device} (hdev : dev.Healthy) (plan : DecodePlan) {shards : ShardSlots}
  (hwords : ∀ i w, slotAt shards i = some w → w ≠ [])

theorem forEach_slotAt_eq (slots shards : ShardSlots) (e : Exn) (n : Nat) :
    forEach (fun shardId => if slotAt slots shardId ≠ slotAt shards shardId then .error e else .ok ()) (List.range n) =
      .ok () ↔ ∀ i < n, slotAt slots i = slotAt shards i := by
  rw [forEach_ok]
  simp only [List.mem_range]
  refine forall₂_congr (fun i _ => ?_)
  by_cases h : slotAt slots i = slotAt shards i <;> simp [h]

include hdev in
theorem validateStaged_ofSlots :
    validateStaged dev (.ofSlots shards) plan shards =
      match validatePlanShape plan with
      | .error e => .error e
      | .ok () => layoutOperations shards.length plan.operations (.initial (wordCountsOf shards)) := by
  unfold validateStaged DeviceShardStagingContext.ofSlots
  rw [if_neg (by simp), if_neg (by simp)]
  cases validatePlanShape plan with
  | error e => rfl
  | ok u =>
    simp only [hdev.check, (forEach_slotAt_eq shards shards _ _).2 (fun _ _ => rfl), bind, Except.bind]

/-- While the missing buffers are made, every buffer has the size of its shard and the staged ones hold their shards. -/
structure Allocating (l : PlanLayout) (shards : ShardSlots) (m : DeviceMemory × List (Option Nat)) : Prop where
  memory : m.1.length = shards.length
  pointers : m.2.length = shards.length
  sized : ∀ s b, slotAt m.1 s = some b → b.length = (l.count s).getD 0
  staged : ∀ s w, slotAt shards s = some w → slotAt m.1 s = some w

theorem Allocating.set {l : PlanLayout} {m : DeviceMemory × List (Option Nat)} (h : Allocating l shards m) {a : Nat}
    (ha : a < shards.length) (hempty : slotAt m.1 a = none) {b : WordShard} (hb : b.length = (l.count a).getD 0) :
    Allocating l shards (m.1.set a (some b), m.2.set a (some a)) := by
  have ha1 : a < m.1.length := by rw [h.memory]; exact ha
  refine ⟨by rw [List.length_set, h.memory], by rw [List.length_set, h.pointers], fun s b' hs => ?_, fun s w hs => ?_⟩
  · rw [slotAt_set ha1] at hs
    split at hs
    · rename_i hsa
      rw [hsa, ← Option.some.inj hs]
      exact hb
    · exact h.sized s b' hs
  · have hsa : s ≠ a := by
      rintro rfl
      rw [h.staged s w hs] at hempty
      cases hempty
    rw [slotAt_set ha1, if_neg hsa]
    exact h.staged s w hs

include hdev in
theorem allocateMissing_round {l : PlanLayout} {a : Nat} (ha : a < shards.length) {m : DeviceMemory × List (Option Nat)}
    (hm : Allocating l shards m) :
    ∃ m', allocateMissing dev l m a = .returns m' ∧ Allocating l shards m' ∧ (∀ s, s = a → Allocated l s m') ∧
      ∀ s, Allocated l s m → Allocated l s m' := by
  have ha1 : a < m.1.length := by rw [hm.memory]; exact ha
  have ha2 : a < m.2.length := by rw [hm.pointers]; exact ha
  unfold allocateMissing
  cases hr : l.requiredShards.getD a false with
  | false =>
    refine ⟨m, if_pos rfl, hm, fun s hs hreq => ?_, fun _ h => h⟩
    rw [hs, hr] at hreq
    cases hreq
  | true =>
    simp only [Bool.true_eq_false, if_false]
    cases hb : slotAt m.1 a with
    | some b =>
      have hnew : Allocated l a (m.1, m.2.set a (some a)) := fun _ =>
        ⟨List.getElem?_set_self ha2, b, hb, hm.sized a b hb⟩
      have hstate : Allocating l shards (m.1, m.2.set a (some a)) :=
        ⟨hm.memory, by rw [List.length_set, hm.pointers], hm.sized, hm.staged⟩
      refine ⟨_, if_pos rfl, hstate, fun s hs => hs ▸ hnew, fun s hs => ?_⟩
      by_cases hsa : s = a
      · exact hsa ▸ hnew
      · exact allocated_congr (m := m) (List.getElem?_set_ne (Ne.symm hsa)) rfl hs
    | none =>
      simp only [Option.isSome_none, Bool.false_eq_true, if_false, hdev.check]
      have hlen : (dev.fresh a ((l.count a).getD 0)).length = (l.count a).getD 0 := by simp [Device.fresh]
      have hnew : Allocated l a (m.1.set a (some (dev.fresh a ((l.count a).getD 0))), m.2.set a (some a)) := fun _ =>
        ⟨List.getElem?_set_self ha2, _, by rw [slotAt_set ha1, if_pos rfl], hlen⟩
      refine ⟨_, rfl, hm.set ha hb hlen, fun s hs => hs ▸ hnew, fun s hs => ?_⟩
      by_cases hsa : s = a
      · exact hsa ▸ hnew
      · exact allocated_congr (m := m) (List.getElem?_set_ne (Ne.symm hsa)) (by rw [slotAt_set ha1, if_neg hsa]) hs

include hdev in
theorem allocateMissing_loop {l : PlanLayout} (hc : ∀ s w, slotAt shards s = some w → l.count s = some w.length) :
    ∃ m, loopInPlace (allocateMissing dev l) (List.range shards.length) (shards, List.replicate shards.length none) =
        .returns m ∧ ∀ s < shards.length, Allocated l s m ∧ Copied l shards s m.1 := by
  have hinit : Allocating l shards (shards, List.replicate shards.length none) :=
    ⟨rfl, List.length_replicate, fun s b hs => by rw [hc s b hs]; rfl, fun _ _ hs => hs⟩
  have hround : ∀ a ∈ List.range shards.length, ∀ u, Allocating l shards u →
      ∃ u', (allocateMissing dev l u a).returned = some u' ∧ Allocating l shards u' ∧
        (∀ s, s = a → Allocated l s u') ∧ ∀ s, Allocated l s u → Allocated l s u' := by
    intro a ha u hu
    obtain ⟨u', hstep, hu'⟩ := allocateMissing_round hdev (List.mem_range.1 ha) hu
    exact ⟨u', Outcome.returned_eq_some.2 hstep, hu'⟩
  obtain ⟨m, hrun, hstate, hall, -⟩ := Runs.run_collect (List.range shards.length) _ hinit hround
  exact ⟨m, (loopInPlace_eq_run _ _ _).2 hrun, fun s hs =>
    ⟨hall s (List.mem_range.2 hs) s rfl, fun _ w hw => hstate.staged s w hw⟩⟩

include hdev hwords in
/-- **A context staged from the host slots runs a plan as the CPU executor does.** -/
theorem runStagedDecodePlanCuda_agrees :
    (∀ shards', executeDecodePlanCpu plan shards = .returns shards' →
      ∃ context, runStagedDecodePlanCuda dev (.ofSlots shards) plan shards = .returns (context, shards')) ∧
    ((∀ shards', executeDecodePlanCpu plan shards ≠ .returns shards') →
      ∃ e, runStagedDecodePlanCuda dev (.ofSlots shards) plan shards = .throws (.ofSlots shards, shards) e) := by
  unfold runStagedDecodePlanCuda
  rw [validateStaged_ofSlots hdev plan]
  constructor
  · intro shards' hcpu
    obtain ⟨hv, hex⟩ := (executeDecodePlanCpu_returns plan shards shards').1 hcpu
    obtain ⟨l, hl, hlays, hcount, hhost⟩ := layout_of_execute hwords hex
    obtain ⟨m, hloop, hres⟩ := allocateMissing_loop hdev hhost
    obtain ⟨hload, hin⟩ := loaded_of_resident hex hlays hcount hres
    obtain ⟨mem, hlaunch, hload', -, hout⟩ := launchOperations_loaded hex hdev hload hin
    have hrange : ∀ o ∈ plan.operations, o ∈ plan.operations ∧ o.output < shards.length := fun o ho =>
      ⟨ho, ((executeOperations_returns _ _ _).1 hex).1 o ho⟩
    obtain ⟨outputs, hcopy, hst⟩ := copyOutputs_ok hdev hload' hout plan.operations 0 shards hrange
    rw [hv]
    simp only [hl, DeviceShardStagingContext.ofSlots, hloop, hdev.checks, hlaunch, hcopy, hst.eq hex]
    exact ⟨_, rfl⟩
  · intro hcpu
    cases hv : validatePlanShape plan with
    | error e => exact ⟨e, rfl⟩
    | ok u =>
      obtain ⟨e, he⟩ := layout_error hwords plan.operations
        (fun shards' h => hcpu shards' ((executeDecodePlanCpu_returns plan shards shards').2 ⟨hv, h⟩))
      simp only [he]
      exact ⟨e, rfl⟩

end Staged

/-! ## All the executors -/

def presentIds (shards : ShardSlots) : List Nat :=
  (List.range shards.length).filter (fun id => (slotAt shards id).isSome)

theorem stagings_ofSlots {shards : ShardSlots} (hwords : ∀ i w, slotAt shards i = some w → w ≠ [])
    {stagings : List (Device × Nat)} (hdev : ∀ x ∈ stagings, x.1.Healthy)
    (hids : (stagings.map Prod.snd).Perm (presentIds shards)) :
    loopInPlace (fun context (dev, shardId) =>
        stageDecodeShardCuda dev context shardId ((slotAt shards shardId).getD [])) stagings
      (.ofSlots (List.replicate shards.length none)) = .returns (.ofSlots shards) := by
  have hmem : ∀ id, id ∈ stagings.map Prod.snd ↔ (slotAt shards id).isSome := by
    intro id
    rw [hids.mem_iff, presentIds, List.mem_filter, List.mem_range]
    refine ⟨fun h => h.2, fun h => ⟨?_, h⟩⟩
    obtain ⟨w, hw⟩ := Option.isSome_iff_exists.1 h
    exact lt_length_of_slotAt hw
  have hnone : ∀ id, slotAt (List.replicate shards.length none) id = none := fun id => by
    simp only [slotAt, List.getElem?_replicate]
    split <;> rfl
  have hnd : (stagings.map Prod.snd).Nodup := hids.nodup_iff.2 (List.nodup_range.filter _)
  obtain ⟨slots', hloop, hlen, hslot⟩ := stageDecodeShardCuda_loop hwords stagings _ hdev (by simp)
    (fun id hid => ⟨(hmem id).1 hid, hnone id⟩) hnd
  have heq : slots' = shards := by
    refine slots_ext hlen (fun i => ?_)
    rw [hslot i, hnone i]
    split
    · rfl
    · rename_i hi
      rw [hmem, Bool.not_eq_true, Option.isSome_eq_false_iff, Option.isNone_iff_eq_none] at hi
      exact hi.symm
  rw [hloop, heq]

/-- **The three CUDA executors agree with the CPU executor** on every plan and all slots whose shards are not empty,
if no CUDA call fails: run directly, prepared and launched any number of times, or staged in any order and run. -/
theorem cuda_executors_agree (plan : DecodePlan) (shards : ShardSlots) (hslots : shards ≠ [])
    (hwords : ∀ i w, slotAt shards i = some w → w ≠ []) :
    (∀ dev : Device, dev.Healthy →
      Agrees (runDecodePlanCuda dev plan shards) (executeDecodePlanCpu plan shards)) ∧
    (∀ (prepare : Device) (launches : List Device) (download : Device), prepare.Healthy → (∀ d ∈ launches, d.Healthy) →
      download.Healthy → launches ≠ [] →
      Agrees (prepareLaunchDownload prepare launches download plan shards) (executeDecodePlanCpu plan shards)) ∧
    ∀ (create : Device) (stagings : List (Device × Nat)) (run : Device), create.Healthy →
      (∀ x ∈ stagings, x.1.Healthy) → run.Healthy → (stagings.map Prod.snd).Perm (presentIds shards) →
      Agrees (stageAndRun create stagings run plan shards) (executeDecodePlanCpu plan shards) := by
  refine ⟨fun dev hdev => runDecodePlanCuda_agrees hdev hwords false,
    fun prepare launches download hp hl hd hne => prepareLaunchDownload_agrees hp hwords hne hl hd,
    fun create stagings run hc hs hr hids => agrees_of_returns (fun r => ?_)⟩
  have hlen : shards.length ≠ 0 := fun h => hslots (List.eq_nil_of_length_eq_zero h)
  unfold stageAndRun
  rw [createDeviceShardStagingContextCuda_ok hc hlen]
  simp only [stagings_ofSlots hwords hs hids]
  obtain ⟨hreturns, hthrows⟩ := runStagedDecodePlanCuda_agrees hr plan hwords
  by_cases hcpu : ∃ shards', executeDecodePlanCpu plan shards = .returns shards'
  · obtain ⟨shards', hcpu⟩ := hcpu
    obtain ⟨context, hrun⟩ := hreturns shards' hcpu
    simp only [hrun, hcpu]
  · push Not at hcpu
    obtain ⟨e, he⟩ := hthrows hcpu
    simp [he, hcpu r]

def serialDevice : Device where
  fails _ := none
  config _ := ⟨32, 2⟩
  order _ blocks threadsPerBlock := GridStride.threads blocks threadsPerBlock
  initial _ _ := 0
  threads _ := by decide
  grid _ _ _ := .refl _

/-- Shards 0 and 1 of `makeThreeDataTwoParityGraph` are lost; 0 is rebuilt from 1. -/
def chainPlan : DecodePlan := ⟨[⟨1, [4, 2]⟩, ⟨0, [3, 1]⟩], [[], [0]], true⟩

theorem cuda_executors_agree_serialDevice :
    Agrees (runDecodePlanCuda serialDevice chainPlan [none, none, some [3, 4], some [2, 6], some [5, 5]])
      (executeDecodePlanCpu chainPlan [none, none, some [3, 4], some [2, 6], some [5, 5]]) ∧
    Agrees (prepareLaunchDownload serialDevice [serialDevice, serialDevice] serialDevice chainPlan
        [none, none, some [3, 4], some [2, 6], some [5, 5]])
      (executeDecodePlanCpu chainPlan [none, none, some [3, 4], some [2, 6], some [5, 5]]) ∧
    Agrees (stageAndRun serialDevice [(serialDevice, 3), (serialDevice, 2), (serialDevice, 4)] serialDevice chainPlan
        [none, none, some [3, 4], some [2, 6], some [5, 5]])
      (executeDecodePlanCpu chainPlan [none, none, some [3, 4], some [2, 6], some [5, 5]]) := by
  have hdev : serialDevice.Healthy := fun _ => rfl
  have hwords : ∀ i w, slotAt [none, none, some [3, 4], some [2, 6], some [5, 5]] i = some w → w ≠ [] := by
    intro i w hw
    have hm := List.mem_of_getElem? (slotAt_eq_some.1 hw)
    simp only [List.mem_cons, reduceCtorEq, Option.some.injEq, List.not_mem_nil, or_false, false_or] at hm
    rcases hm with rfl | rfl | rfl <;> simp
  obtain ⟨h1, h2, h3⟩ := cuda_executors_agree chainPlan [none, none, some [3, 4], some [2, 6], some [5, 5]]
    (by simp) hwords
  refine ⟨h1 serialDevice hdev, h2 _ _ _ hdev (by simp [hdev]) hdev (by simp), h3 _ _ _ hdev (by simp [hdev]) hdev ?_⟩
  exact .swap ..

end CodedLLM
