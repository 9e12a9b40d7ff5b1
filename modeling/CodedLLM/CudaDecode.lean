import CodedLLM.Kernels
import CodedLLM.PlanLayout
/-!
# CudaDecode — decoding on the device

`run_decode_plan_cuda` and the prepared variant (prepare, launch any number of times, download).  A `Device` says how
the CUDA runtime behaves during one call: which runtime calls fail, which launch configuration a kernel gets, in which
order the threads of a launch run and what a fresh buffer holds.  Operations on a stream take effect in the order they
are issued, and an illegal access ends the call with an error.
-/
namespace CodedLLM

open Runs Dataflow

inductive CudaCall where
  | getDevice
  | setDevice
  | streamCreate
  | eventCreate (event : Nat)
  | eventRecord (event : Nat)
  | eventSynchronize (event : Nat)
  | eventDestroy (event : Nat)
  | elapsedTime (event : Nat)
  | malloc (shardId : Nat)
  | upload (shardId : Nat)
  | mallocTable
  | uploadTable
  | mallocSourceIds
  | uploadSourceIds
  | launchConfig (operation : Nat)
  | launch (operation : Nat)
  | synchronize
  | download (operation : Nat)
  deriving DecidableEq, Repr

/-- **How the CUDA runtime behaves during one call.**  The occupancy API returns a multiple of the warp size, and every
thread of a grid runs. -/
structure Device where
  /-- the text of the error a runtime call returns, if it fails -/
  fails : CudaCall → Option String
  config : Kernel → DeviceTuningConfig
  /-- the order in which the threads of a launch run, given the operation and the grid -/
  order : Nat → Nat → Nat → List (Nat × Nat)
  /-- what a fresh buffer holds -/
  initial : Nat → Nat → ShardWord
  threads : ∀ kernel, 3 ≤ (config kernel).threadsPerBlock
  grid : ∀ operation blocks threadsPerBlock,
    (order operation blocks threadsPerBlock).Perm (GridStride.threads blocks threadsPerBlock)

def Device.Healthy (dev : Device) : Prop := ∀ call, dev.fails call = none

def Device.check (dev : Device) (call : CudaCall) : Except Exn Unit :=
  match dev.fails call with
  | some text => .error (.runtimeError text)
  | none => .ok ()

def illegalAddress : Exn := .runtimeError "an illegal memory access was encountered"

structure LaunchTables where
  wordCounts : List (Option Nat)
  sourceOffsets : List Nat
  deviceShardTable : List (Option Nat)
  deviceSourceIds : List Nat

def LaunchTables.wordCount (t : LaunchTables) (shardId : Nat) : Nat := (t.wordCounts[shardId]?.join).getD 0

/-- `LaunchXorOperationCuda`; `RunDecodePlanCuda` has the same switch in line. -/
def launchXorOperationCuda (dev : Device) (index : Nat) (operation : XorOperation) (wordCount : Nat)
    (deviceShardTable : List (Option Nat)) (deviceSourceIds : List Nat) (deviceOutput : Nat) (mem : DeviceMemory) :
    Outcome DeviceMemory :=
  let kernel := selectKernel operation.sources.length
  match dev.check (.launchConfig index) with
  | .error e => .throws mem e
  | .ok () =>
    let config := dev.config kernel
    let gridBlocks := calculateGridBlocks wordCount 4 config
    match dev.check (.launch index) with
    | .error e => .throws mem e
    | .ok () =>
      match launchKernel kernel ⟨deviceShardTable, deviceSourceIds, deviceOutput, wordCount⟩ operation.sources.length
          config.threadsPerBlock gridBlocks (dev.order index gridBlocks config.threadsPerBlock) mem with
      | none => .throws mem illegalAddress
      | some mem' => .returns mem'

def launchOperations (dev : Device) (t : LaunchTables) (operations : List XorOperation) (mem : DeviceMemory) :
    Outcome DeviceMemory :=
  loopInPlace (fun mem (operation, index) =>
    launchXorOperationCuda dev index operation (t.wordCount operation.output) t.deviceShardTable
      (t.deviceSourceIds.drop (t.sourceOffsets.getD index 0)) operation.output mem) operations.zipIdx mem

def copyOutput (dev : Device) (t : LaunchTables) (mem : DeviceMemory) (operation : XorOperation) (index : Nat) :
    Except Exn WordShard :=
  match dev.check (.download index) with
  | .error e => .error e
  | .ok () =>
    match slotAt mem operation.output with
    | none => .error illegalAddress
    | some buffer =>
      if t.wordCount operation.output ≤ buffer.length then .ok (buffer.take (t.wordCount operation.output))
      else .error illegalAddress

def Device.fresh (dev : Device) (shardId n : Nat) : WordShard := (List.range n).map (dev.initial shardId)

/-- `AllocateDeviceBuffer` for a required shard, and its entry in the pointer table. -/
def allocateShard (dev : Device) (l : PlanLayout) (s : DeviceMemory × List (Option Nat)) (shardId : Nat) :
    Except Exn (DeviceMemory × List (Option Nat)) :=
  if l.requiredShards.getD shardId false = false then .ok s
  else
    match dev.check (.malloc shardId) with
    | .error e => .error e
    | .ok () => .ok (s.1.set shardId (some (dev.fresh shardId ((l.count shardId).getD 0))),
        s.2.set shardId (some shardId))

def uploadShard (dev : Device) (l : PlanLayout) (shards : ShardSlots) (mem : DeviceMemory) (shardId : Nat) :
    Except Exn DeviceMemory :=
  if l.requiredShards.getD shardId false = false then .ok mem
  else
    match slotAt shards shardId with
    | none => .ok mem
    | some shard =>
      match dev.check (.upload shardId) with
      | .error e => .error e
      | .ok () =>
        let n := (l.count shardId).getD 0
        .ok (mem.set shardId (some (shard.take n ++ ((slotAt mem shardId).getD []).drop n)))

/-! ## `RunDecodePlanCuda` -/

/-- Everything `RunDecodePlanCuda` does before it changes the first host slot. -/
def decodeOnDevice (dev : Device) (timings : Bool) (plan : DecodePlan) (shards : ShardSlots) :
    Except Exn (LaunchTables × DeviceMemory) := do
  dev.check .getDevice
  forEach dev.check (if timings then (List.range 6).map .eventCreate else [])
  let wordCounts ← measureShards shards
  let layout ← layoutOperations shards.length plan.operations (.initial wordCounts)
  let (mem, table) ← loop (allocateShard dev layout) (List.range shards.length)
    (List.replicate shards.length none, List.replicate shards.length none)
  forEach dev.check (if timings then [.eventRecord 0] else [])
  let mem ← loop (uploadShard dev layout shards) (List.range shards.length) mem
  forEach dev.check [.mallocTable, .uploadTable, .mallocSourceIds, .uploadSourceIds]
  forEach dev.check (if timings then [.eventRecord 1, .eventRecord 2] else [])
  let tables : LaunchTables := ⟨layout.wordCounts, layout.sourceOffsets, table, layout.flattenedSources⟩
  match launchOperations dev tables plan.operations mem with
  | .throws _ e => .error e
  | .returns mem =>
    forEach dev.check (if timings then [.eventRecord 3] else [])
    dev.check .synchronize
    forEach dev.check (if timings then [.eventRecord 4] else [])
    return (tables, mem)

/-- The last loop: each output is stored in its slot as soon as it has been copied. -/
def downloadInPlace (dev : Device) (t : LaunchTables) (mem : DeviceMemory) (operations : List XorOperation)
    (shards : ShardSlots) : Outcome ShardSlots :=
  loopInPlace (fun shards (operation, index) =>
    match copyOutput dev t mem operation index with
    | .error e => .throws shards e
    | .ok output => .returns (shards.set operation.output (some output))) operations.zipIdx shards

def runDecodePlanCudaWith (dev : Device) (timings : Bool) (plan : DecodePlan) (shards : ShardSlots) :
    Outcome ShardSlots :=
  match validatePlanShape plan with
  | .error e => .throws shards e
  | .ok () =>
    if plan.operations = [] then .returns shards
    else
      match decodeOnDevice dev timings plan shards with
      | .error e => .throws shards e
      | .ok (tables, mem) =>
        match downloadInPlace dev tables mem plan.operations shards with
        | .throws shards e => .throws shards e
        | .returns shards =>
          match forEach dev.check (if timings then .eventRecord 5 :: .eventSynchronize 5 ::
              ((List.range 3).map .elapsedTime ++ (List.range 6).map .eventDestroy) else []) with
          | .error e => .throws shards e
          | .ok () => .returns shards

def runDecodePlanCuda (dev : Device) (plan : DecodePlan) (shards : ShardSlots) : Outcome ShardSlots :=
  runDecodePlanCudaWith dev false plan shards

/-! ## The prepared decoder -/

structure DeviceDecodeContext where
  plan : DecodePlan
  tables : LaunchTables
  deviceShards : DeviceMemory

/-- The loop body of `prepare_decode_plan_cuda`: a required shard is allocated and, if the host has it, copied. -/
def prepareShard (dev : Device) (l : PlanLayout) (shards : ShardSlots) (s : DeviceMemory × List (Option Nat))
    (shardId : Nat) : Except Exn (DeviceMemory × List (Option Nat)) :=
  match allocateShard dev l s shardId with
  | .error e => .error e
  | .ok (mem, table) =>
    match uploadShard dev l shards mem shardId with
    | .error e => .error e
    | .ok mem => .ok (mem, table)

def prepareDecodePlanCuda (dev : Device) (plan : DecodePlan) (shards : ShardSlots) : Except Exn DeviceDecodeContext :=
    do
  validatePlanShape plan
  forEach dev.check [.getDevice, .streamCreate, .eventCreate 0, .eventCreate 1]
  let wordCounts ← measureShards shards
  let layout ← layoutOperations shards.length plan.operations (.initial wordCounts)
  let (mem, table) ← loop (prepareShard dev layout shards) (List.range shards.length)
    (List.replicate shards.length none, List.replicate shards.length none)
  forEach dev.check (if plan.operations = [] then []
    else [.mallocTable, .uploadTable, .mallocSourceIds, .uploadSourceIds])
  dev.check .synchronize
  return ⟨plan, ⟨layout.wordCounts, layout.sourceOffsets, table, layout.flattenedSources⟩, mem⟩

def launchDecodePlanCuda (dev : Device) (context : DeviceDecodeContext) : Outcome DeviceDecodeContext :=
  match dev.check .setDevice with
  | .error e => .throws context e
  | .ok () =>
    match launchOperations dev context.tables context.plan.operations context.deviceShards with
    | .throws mem e => .throws { context with deviceShards := mem } e
    | .returns mem => .returns { context with deviceShards := mem }

def copyOutputs (dev : Device) (t : LaunchTables) (mem : DeviceMemory) :
    List (XorOperation × Nat) → Except Exn (List WordShard)
  | [] => .ok []
  | (operation, index) :: rest =>
    match copyOutput dev t mem operation index with
    | .error e => .error e
    | .ok output =>
      match copyOutputs dev t mem rest with
      | .error e => .error e
      | .ok outputs => .ok (output :: outputs)

def storeOutputs : List XorOperation → List WordShard → ShardSlots → ShardSlots
  | operation :: operations, output :: outputs, shards =>
    storeOutputs operations outputs (shards.set operation.output (some output))
  | _, _, shards => shards

def downloadDecodeResultsCuda (dev : Device) (context : DeviceDecodeContext) (shards : ShardSlots) :
    Outcome ShardSlots :=
  if shards.length ≠ context.tables.wordCounts.length then
    .throws shards (.invalidArgument "Destination shard slots must match the prepared context")
  else
    match dev.check .setDevice with
    | .error e => .throws shards e
    | .ok () =>
      match copyOutputs dev context.tables context.deviceShards context.plan.operations.zipIdx with
      | .error e => .throws shards e
      | .ok outputs =>
        match dev.check .synchronize with
        | .error e => .throws shards e
        | .ok () => .returns (storeOutputs context.plan.operations outputs shards)

/-- Prepare, launch once on each device of the list, download into the same slots. -/
def prepareLaunchDownload (prepare : Device) (launches : List Device) (download : Device) (plan : DecodePlan)
    (shards : ShardSlots) : Outcome ShardSlots :=
  match prepareDecodePlanCuda prepare plan shards with
  | .error e => .throws shards e
  | .ok context =>
    match loopInPlace (fun context dev => launchDecodePlanCuda dev context) launches context with
    | .throws _ e => .throws shards e
    | .returns context => downloadDecodeResultsCuda download context shards

/-! ## A healthy device -/

theorem Device.Healthy.check {dev : Device} (h : dev.Healthy) (call : CudaCall) : dev.check call = .ok () := by
  unfold Device.check
  rw [h call]

theorem Device.Healthy.checks {dev : Device} (h : dev.Healthy) (calls : List CudaCall) :
    forEach dev.check calls = .ok () :=
  (forEach_ok dev.check calls).2 (fun call _ => h.check call)

def XorOperation.Touches (o : XorOperation) (s : Nat) : Prop := s = o.output ∨ s ∈ o.sources

/-- **The device is loaded for the operations**: every shard they touch has a pointer and a buffer of the size the final
shard has, and each operation finds its sources at its offset. -/
structure Loaded (t : LaunchTables) (ops : List XorOperation) (final : Nat → Option WordShard) (mem : DeviceMemory) :
    Prop where
  count : ∀ o ∈ ops, ∀ s, o.Touches s → ∃ v, final s = some v ∧ t.wordCount s = v.length
  pointer : ∀ o ∈ ops, ∀ s, o.Touches s → t.deviceShardTable[s]? = some (some s)
  buffer : ∀ o ∈ ops, ∀ s, o.Touches s → ∃ buffer, slotAt mem s = some buffer ∧ buffer.length = t.wordCount s
  sources : ∀ (i : Nat) (o : XorOperation), ops[i]? = some o →
    o.sources <+: t.deviceSourceIds.drop (t.sourceOffsets.getD i 0)

theorem Loaded.set {t : LaunchTables} {ops : List XorOperation} {final : Nat → Option WordShard} {mem : DeviceMemory}
    (h : Loaded t ops final mem) {x : Nat} (hx : x < mem.length) {v : WordShard} (hv : v.length = t.wordCount x) :
    Loaded t ops final (mem.set x (some v)) := by
  refine ⟨h.count, h.pointer, fun o ho s hs => ?_, h.sources⟩
  by_cases hsx : s = x
  · subst hsx
    exact ⟨v, by rw [slotAt_set hx, if_pos rfl], hv⟩
  · rw [slotAt_set hx, if_neg hsx]
    exact h.buffer o ho s hs

/-- **A legal launch on a healthy device** returns the XOR of the sources, whichever kernel the switch selects. -/
theorem launchXorOperationCuda_legal {dev : Device} (hdev : dev.Healthy) (index : Nat) {operation : XorOperation}
    {a : KernelArgs} {inputs : List WordShard} {mem : DeviceMemory} (h : a.Legal inputs mem)
    (hlen : inputs.length = operation.sources.length) :
    launchXorOperationCuda dev index operation a.wordCount a.shardTable a.sourceIds a.output mem =
      .returns (mem.set a.output (some (xorAll a.wordCount inputs))) := by
  unfold launchXorOperationCuda
  simp only [hdev.check]
  rw [← hlen, launchKernel_ok h (selectKernel_degree _) (dev.threads _) (one_le_calculateGridBlocks ..) (dev.grid ..)]

/-- **One launch on a loaded device** stores the operation's value in its output buffer. -/
theorem launchXorOperationCuda_ok {dev : Device} (hdev : dev.Healthy) {t : LaunchTables} {ops : List XorOperation}
    {st final : Nat → Option WordShard} (hsol : xorCode.Solution st final ops) (hready : xorCode.Ready st ops)
    {mem : DeviceMemory} (h : Loaded t ops final mem) {i : Nat} {o : XorOperation} (hi : ops[i]? = some o) :
    ∃ v, launchXorOperationCuda dev i o (t.wordCount o.output) t.deviceShardTable
        (t.deviceSourceIds.drop (t.sourceOffsets.getD i 0)) o.output mem = .returns (mem.set o.output (some v)) ∧
      xorCode.value (slotAt mem) o = some v ∧ v.length = t.wordCount o.output ∧ o.output < mem.length := by
  have ho : o ∈ ops := List.mem_of_getElem? hi
  -- the sizes: all sources have the size of the output
  obtain ⟨v₀, hval, hout⟩ := hsol.value o ho
  obtain ⟨ws₀, hws₀, hev⟩ := Option.bind_eq_some_iff.1 hval
  obtain ⟨n, hn, hne, hlen, rfl⟩ := xorEval_eq_some.1 hev
  have hcount : ∀ s, o.Touches s → t.wordCount s = n := by
    intro s hs
    obtain ⟨v, hv, hc⟩ := h.count o ho s hs
    rw [hc]
    rcases hs with rfl | hs
    · obtain rfl : xorAll n ws₀ = v := Option.some.inj (hout.symm.trans hv)
      exact XorWords.length_combineAll ws₀ hlen
    · obtain ⟨w, hmem, hw⟩ := mem_mapM hws₀ hs
      rw [hv] at hw
      rw [Option.some.inj hw]
      exact hlen w hmem
  -- the buffers the kernel reads
  have hbuf : ∀ s ∈ o.sources, ∃ w, slotAt mem s = some w ∧ w.length = n := by
    intro s hs
    obtain ⟨buffer, hb, hl⟩ := h.buffer o ho s (.inr hs)
    exact ⟨buffer, hb, by rw [hl, hcount s (.inr hs)]⟩
  obtain ⟨ws, hws, -⟩ := mapM_forall₂ (R := fun _ (w : WordShard) => w.length = n) o.sources hbuf
  have hwl : ∀ w ∈ ws, w.length = n := by
    intro w hw
    obtain ⟨s, hs, hsw⟩ := mem_of_mapM hws hw
    obtain ⟨w', hw', hl⟩ := hbuf s hs
    rw [hsw] at hw'
    rw [Option.some.inj hw', hl]
  have hcnt : ws.length = o.sources.length := length_of_mapM _ ws hws
  have hlegal : KernelArgs.Legal ⟨t.deviceShardTable, t.deviceSourceIds.drop (t.sourceOffsets.getD i 0), o.output,
      t.wordCount o.output⟩ ws mem := by
    refine ⟨fun j hj => ?_, fun w hw => ?_, h.buffer o ho o.output (.inl rfl)⟩
    · have hj' : j < o.sources.length := by omega
      have hmem : o.sources[j] ∈ o.sources := List.getElem_mem hj'
      refine ⟨o.sources[j], ?_, fun heq => hsol.out_notMem_srcs hready ho ?_, ?_⟩
      · obtain ⟨post, hpost⟩ := h.sources i o hi
        simp only
        rw [← hpost, List.getElem?_append_left hj', List.getElem?_eq_getElem hj', Option.bind_some,
          h.pointer o ho _ (.inr hmem)]
        rfl
      · rw [show o.sources[j] = o.output from heq] at hmem
        exact hmem
      · rw [getElem?_of_mapM _ ws hws, List.getElem?_eq_getElem hj', Option.bind_some]
    · rw [show t.wordCount o.output = n from hcount _ (.inl rfl)]
      exact hwl w hw
  refine ⟨xorAll n ws, ?_, ?_, ?_, ?_⟩
  · have hlaunch := launchXorOperationCuda_legal hdev i hlegal hcnt
    simp only at hlaunch
    rw [hlaunch, hcount _ (.inl rfl)]
  · show (o.sources.mapM (slotAt mem)).bind xorEval = some (xorAll n ws)
    rw [hws, Option.bind_some]
    refine xorEval_eq_some.2 ⟨n, hn, fun hnil => ?_, hwl, rfl⟩
    rw [hnil] at hcnt
    have hne' : ws₀.length = o.sources.length := length_of_mapM _ ws₀ hws₀
    rw [← hcnt] at hne'
    exact hne (List.eq_nil_of_length_eq_zero hne')
  · rw [hcount _ (.inl rfl)]
    exact XorWords.length_combineAll ws hwl
  · exact hlegal.bound

/-- **The launch loop on a loaded device** is the blind execution of the operations on the buffers. -/
theorem launchOperations_ok {dev : Device} (hdev : dev.Healthy) {t : LaunchTables} {ops : List XorOperation}
    {st final : Nat → Option WordShard} (hsol : xorCode.Solution st final ops) (hready : xorCode.Ready st ops) :
    ∀ (rest pre : List XorOperation) (mem : DeviceMemory), ops = pre ++ rest → Loaded t ops final mem →
      ∃ mem', loopInPlace (fun mem (operation, index) =>
          launchXorOperationCuda dev index operation (t.wordCount operation.output) t.deviceShardTable
            (t.deviceSourceIds.drop (t.sourceOffsets.getD index 0)) operation.output mem) (rest.zipIdx pre.length) mem =
            .returns mem' ∧
        slotAt mem' = rest.foldl xorCode.assign (slotAt mem) ∧ Loaded t ops final mem'
  | [], _, mem, _, h => ⟨mem, rfl, rfl, h⟩
  | o :: rest, pre, mem, hs, h => by
    have hi : ops[pre.length]? = some o := by
      rw [hs, List.getElem?_append_right (Nat.le_refl _), Nat.sub_self]
      rfl
    obtain ⟨v, hlaunch, hval, hlen, hlt⟩ := launchXorOperationCuda_ok hdev hsol hready h hi
    obtain ⟨mem', hloop, hslot, hloaded⟩ := launchOperations_ok hdev hsol hready rest (pre ++ [o])
      (mem.set o.output (some v)) (by rw [hs]; simp) (h.set hlt hlen)
    refine ⟨mem', ?_, ?_, hloaded⟩
    · rw [List.zipIdx_cons]
      simp only [loopInPlace, hlaunch]
      rw [List.length_append, List.length_singleton] at hloop
      exact hloop
    · rw [hslot, List.foldl_cons, slotAt_set_update hlt]
      unfold Code.assign
      rw [hval]
      rfl

/-! ## Loading the device -/

def Allocated (l : PlanLayout) (s : Nat) (m : DeviceMemory × List (Option Nat)) : Prop :=
  l.requiredShards.getD s false = true → m.2[s]? = some (some s) ∧
    ∃ buffer, slotAt m.1 s = some buffer ∧ buffer.length = (l.count s).getD 0

def Copied (l : PlanLayout) (shards : ShardSlots) (s : Nat) (mem : DeviceMemory) : Prop :=
  l.requiredShards.getD s false = true → ∀ w, slotAt shards s = some w → slotAt mem s = some w

theorem allocateShard_ok {dev : Device} (hdev : dev.Healthy) (l : PlanLayout) (m : DeviceMemory × List (Option Nat))
    {a : Nat} (h1 : a < m.1.length) (h2 : a < m.2.length) :
    ∃ m', allocateShard dev l m a = .ok m' ∧ m'.1.length = m.1.length ∧ m'.2.length = m.2.length ∧ Allocated l a m' ∧
      ∀ s, s ≠ a → m'.2[s]? = m.2[s]? ∧ slotAt m'.1 s = slotAt m.1 s := by
  unfold allocateShard
  cases hr : l.requiredShards.getD a false with
  | false =>
    refine ⟨m, if_pos rfl, rfl, rfl, fun h => ?_, fun _ _ => ⟨rfl, rfl⟩⟩
    rw [hr] at h
    cases h
  | true =>
    simp only [Bool.true_eq_false, if_false, hdev.check]
    refine ⟨_, rfl, by simp, by simp, fun _ => ⟨by simp [h2], dev.fresh a ((l.count a).getD 0), ?_, ?_⟩,
      fun s hs => ⟨?_, ?_⟩⟩
    · rw [slotAt_set h1, if_pos rfl]
    · simp [Device.fresh]
    · exact List.getElem?_set_ne (Ne.symm hs)
    · rw [slotAt_set h1, if_neg hs]

theorem uploadShard_ok {dev : Device} (hdev : dev.Healthy) {l : PlanLayout} {shards : ShardSlots} {mem : DeviceMemory}
    {table : List (Option Nat)} {a : Nat} (ha : Allocated l a (mem, table))
    (hc : ∀ w, slotAt shards a = some w → l.count a = some w.length) :
    ∃ mem', uploadShard dev l shards mem a = .ok mem' ∧ mem'.length = mem.length ∧ Allocated l a (mem', table) ∧
      Copied l shards a mem' ∧ ∀ s, s ≠ a → slotAt mem' s = slotAt mem s := by
  unfold uploadShard
  cases hr : l.requiredShards.getD a false with
  | false =>
    refine ⟨mem, if_pos rfl, rfl, ha, fun h => ?_, fun _ _ => rfl⟩
    rw [hr] at h
    cases h
  | true =>
    simp only [Bool.true_eq_false, if_false]
    cases hs : slotAt shards a with
    | none =>
      refine ⟨mem, rfl, rfl, ha, fun _ w hw => ?_, fun _ _ => rfl⟩
      rw [hs] at hw
      cases hw
    | some w =>
      obtain ⟨hp, buffer, hb, hl⟩ := ha hr
      have hlt := lt_length_of_slotAt hb
      have hcopy : w.take ((l.count a).getD 0) ++ ((slotAt mem a).getD []).drop ((l.count a).getD 0) = w := by
        rw [hb, Option.getD_some, hc w hs, Option.getD_some, List.take_length, List.drop_eq_nil_of_le, List.append_nil]
        rw [hl, hc w hs]
        exact Nat.le_refl _
      simp only [hdev.check, hcopy]
      refine ⟨_, rfl, by simp, fun _ => ⟨hp, w, ?_, ?_⟩, fun _ w' hw' => ?_, fun s hs => ?_⟩
      · rw [slotAt_set hlt, if_pos rfl]
      · rw [hc w hs]
        rfl
      · rw [slotAt_set hlt, if_pos rfl, ← hw', hs]
      · rw [slotAt_set hlt, if_neg hs]

theorem allocated_congr {l : PlanLayout} {s : Nat} {m m' : DeviceMemory × List (Option Nat)} (h2 : m'.2[s]? = m.2[s]?)
    (h1 : slotAt m'.1 s = slotAt m.1 s) (h : Allocated l s m) : Allocated l s m' := by
  unfold Allocated
  rw [h1, h2]
  exact h

theorem copied_congr {l : PlanLayout} {shards : ShardSlots} {s : Nat} {mem mem' : DeviceMemory}
    (h1 : slotAt mem' s = slotAt mem s) (h : Copied l shards s mem) : Copied l shards s mem' := by
  unfold Copied
  rw [h1]
  exact h

def unallocated (shardCount : Nat) : DeviceMemory × List (Option Nat) :=
  (List.replicate shardCount none, List.replicate shardCount none)

section Load

variable {dev : Device} (hdev : dev.Healthy) {l : PlanLayout} {shards : ShardSlots}
  (hc : ∀ s w, slotAt shards s = some w → l.count s = some w.length)

include hdev

theorem allocateShards_ok (n : Nat) : ∃ m, loop (allocateShard dev l) (List.range n) (unallocated n) = .ok m ∧
    m.1.length = n ∧ ∀ s < n, Allocated l s m := by
  obtain ⟨m, hloop, hI, hD, -⟩ := loop_collect
    (I := fun m : DeviceMemory × List (Option Nat) => m.1.length = n ∧ m.2.length = n) (D := Allocated l)
    (E := fun a s => s = a) (List.range n) (unallocated n) (by simp [unallocated]) (fun a ha u hu => by
      have hlt := List.mem_range.1 ha
      obtain ⟨u', hstep, h1, h2, hal, hframe⟩ := allocateShard_ok hdev l u (a := a) (by omega) (by omega)
      refine ⟨u', hstep, ⟨h1.trans hu.1, h2.trans hu.2⟩, fun s hs => hs ▸ hal, fun s hs => ?_⟩
      by_cases hsa : s = a
      · exact hsa ▸ hal
      · exact allocated_congr (hframe s hsa).1 (hframe s hsa).2 hs)
  exact ⟨m, hloop, hI.1, fun s hs => hD s (List.mem_range.2 hs) s rfl⟩

include hc

theorem uploadShards_ok {n : Nat} {mem : DeviceMemory} {table : List (Option Nat)}
    (ha : ∀ s < n, Allocated l s (mem, table)) :
    ∃ mem', loop (uploadShard dev l shards) (List.range n) mem = .ok mem' ∧
      ∀ s < n, Allocated l s (mem', table) ∧ Copied l shards s mem' := by
  obtain ⟨mem', hloop, hI, hD, -⟩ := loop_collect (I := fun mem => ∀ s < n, Allocated l s (mem, table))
    (D := fun s mem => Copied l shards s mem) (E := fun a s => s = a) (List.range n) mem ha (fun a hm u hu => by
      obtain ⟨u', hstep, -, hal, hcp, hframe⟩ := uploadShard_ok hdev (hu a (List.mem_range.1 hm)) (hc a)
      refine ⟨u', hstep, fun s hs => ?_, fun s hs => hs ▸ hcp, fun s hs => ?_⟩
      · by_cases hsa : s = a
        · exact hsa ▸ hal
        · exact allocated_congr (m := (u, table)) rfl (hframe s hsa) (hu s hs)
      · by_cases hsa : s = a
        · exact hsa ▸ hcp
        · exact copied_congr (hframe s hsa) hs)
  exact ⟨mem', hloop, fun s hs => ⟨hI s hs, hD s (List.mem_range.2 hs) s rfl⟩⟩

theorem prepareShards_ok (n : Nat) : ∃ m, loop (prepareShard dev l shards) (List.range n) (unallocated n) = .ok m ∧
    ∀ s < n, Allocated l s m ∧ Copied l shards s m.1 := by
  have hround : ∀ a ∈ List.range n, ∀ u : DeviceMemory × List (Option Nat), u.1.length = n ∧ u.2.length = n →
      ∃ u', prepareShard dev l shards u a = .ok u' ∧ (u'.1.length = n ∧ u'.2.length = n) ∧
        (∀ s, s = a → Allocated l s u' ∧ Copied l shards s u'.1) ∧
        ∀ s, Allocated l s u ∧ Copied l shards s u.1 → Allocated l s u' ∧ Copied l shards s u'.1 := by
    intro a ha u hu
    have hlt := List.mem_range.1 ha
    obtain ⟨⟨mem, table⟩, hstep, h1, h2, hal, hframe⟩ := allocateShard_ok hdev l u (a := a) (by omega) (by omega)
    obtain ⟨mem', hstep', h1', hal', hcp, hframe'⟩ := uploadShard_ok hdev hal (hc a)
    refine ⟨(mem', table), ?_, ⟨h1'.trans (h1.trans hu.1), h2.trans hu.2⟩, fun s hs => hs ▸ ⟨hal', hcp⟩, fun s hs => ?_⟩
    · unfold prepareShard
      simp only [hstep, hstep']
    · by_cases hsa : s = a
      · exact hsa ▸ ⟨hal', hcp⟩
      · have hslot : slotAt mem' s = slotAt u.1 s := (hframe' s hsa).trans (hframe s hsa).2
        exact ⟨allocated_congr (hframe s hsa).1 hslot hs.1, copied_congr hslot hs.2⟩
  obtain ⟨m, hloop, -, hD, -⟩ := loop_collect (E := fun a s => s = a) (List.range n) (unallocated n)
    (by simp [unallocated]) hround
  exact ⟨m, hloop, fun s hs => hD s (List.mem_range.2 hs) s rfl⟩

end Load

/-! ## From the CPU executor to the device -/

section Decode

variable {ops : List XorOperation} {shards shards' : ShardSlots} (hex : executeOperations ops shards = .returns shards')

include hex

theorem executeOperations_solution :
    xorCode.Solution (slotAt shards) (slotAt shards') ops ∧ xorCode.Ready (slotAt shards) ops :=
  solution_of_run ops _ _ ((executeOperations_returns ops shards shards').1 hex).2.2

theorem executeOperations_touched {o : XorOperation} (ho : o ∈ ops) {s : Nat} (hs : o.Touches s) :
    ∃ v, slotAt shards' s = some v := by
  obtain ⟨v, hval, hout⟩ := (executeOperations_solution hex).1.value o ho
  rcases hs with rfl | hs
  · exact ⟨v, hout⟩
  · exact Option.isSome_iff_exists.1 (Code.isSome_of_value hval s hs)

theorem executeOperations_kept {s : Nat} {w : WordShard} (hs : slotAt shards s = some w) :
    slotAt shards' s = some w := by
  rw [(executeOperations_solution hex).1.kept (by rw [hs]; rfl), hs]

def Inputs (ops : List XorOperation) (shards : ShardSlots) (mem : DeviceMemory) : Prop :=
  ∀ o ∈ ops, ∀ s ∈ o.sources, s ∉ ops.map XorOperation.output → slotAt mem s = slotAt shards s

theorem loaded_of_resident {l : PlanLayout} (hlays : l.Lays ops)
    (hcount : ∀ i, l.count i = (slotAt shards' i).map List.length) {m : DeviceMemory × List (Option Nat)}
    (hm : ∀ s < shards.length, Allocated l s m ∧ Copied l shards s m.1) :
    Loaded ⟨l.wordCounts, l.sourceOffsets, m.2, l.flattenedSources⟩ ops (slotAt shards') m.1 ∧
    Inputs ops shards m.1 := by
  have hlen := ((executeOperations_returns ops shards shards').1 hex).2.1
  have hreq : ∀ o ∈ ops, ∀ s, o.Touches s → l.requiredShards.getD s false = true ∧ s < shards.length := by
    intro o ho s hs
    obtain ⟨v, hv⟩ := executeOperations_touched hex ho hs
    rw [List.getD_eq_getElem?_getD, hlays.required o ho s hs, ← hlen]
    exact ⟨rfl, lt_length_of_slotAt hv⟩
  refine ⟨⟨fun o ho s hs => ?_, fun o ho s hs => ?_, fun o ho s hs => ?_, fun i o hi => ?_⟩, fun o ho s hs hns => ?_⟩
  · obtain ⟨v, hv⟩ := executeOperations_touched hex ho hs
    refine ⟨v, hv, ?_⟩
    show (l.count s).getD 0 = v.length
    rw [hcount s, hv]
    rfl
  · obtain ⟨hr, hlt⟩ := hreq o ho s hs
    exact ((hm s hlt).1 hr).1
  · obtain ⟨hr, hlt⟩ := hreq o ho s hs
    exact ((hm s hlt).1 hr).2
  · obtain ⟨offset, hoff, -, hpre⟩ := hlays.sources i o hi
    show o.sources <+: l.flattenedSources.drop (l.sourceOffsets.getD i 0)
    rw [List.getD_eq_getElem?_getD, hoff]
    exact hpre
  · obtain ⟨hr, hlt⟩ := hreq o ho s (.inr hs)
    obtain ⟨v, hv⟩ := executeOperations_touched hex ho (.inr hs)
    have hst := (executeOperations_solution hex).1.frame s hns
    rw [hv] at hst
    rw [← hst, (hm s hlt).2 hr v hst.symm]

/-- **One launch of all the operations**, from whatever the output buffers hold, leaves the executor's shards in
them. -/
theorem launchOperations_loaded {dev : Device} (hdev : dev.Healthy) {t : LaunchTables} {mem : DeviceMemory}
    (h : Loaded t ops (slotAt shards') mem) (hin : Inputs ops shards mem) :
    ∃ mem', launchOperations dev t ops mem = .returns mem' ∧ Loaded t ops (slotAt shards') mem' ∧
      Inputs ops shards mem' ∧ ∀ x ∈ ops.map XorOperation.output, slotAt mem' x = slotAt shards' x := by
  obtain ⟨hsol, hready⟩ := executeOperations_solution hex
  obtain ⟨mem', hloop, hslot, hload⟩ := launchOperations_ok hdev hsol hready ops [] mem rfl h
  have hfold : ∀ x, slotAt mem' x =
      if x ∈ ops.map XorOperation.output then slotAt shards' x else slotAt mem x := by
    rw [hslot]
    exact foldl_assign hsol hready ops [] (slotAt mem) rfl (by simp) hin
  refine ⟨mem', hloop, hload, fun o ho s hs hns => ?_, fun x hx => ?_⟩
  · rw [hfold s, if_neg hns, hin o ho s hs hns]
  · rw [hfold x, if_pos hx]

omit hex in
theorem copyOutput_ok {dev : Device} (hdev : dev.Healthy) {t : LaunchTables} {mem : DeviceMemory}
    (h : Loaded t ops (slotAt shards') mem)
    (hout : ∀ x ∈ ops.map XorOperation.output, slotAt mem x = slotAt shards' x) {o : XorOperation} (ho : o ∈ ops)
    (i : Nat) :
    ∃ v, copyOutput dev t mem o i = .ok v ∧ slotAt shards' o.output = some v := by
  obtain ⟨v, hv, hcount⟩ := h.count o ho o.output (.inl rfl)
  refine ⟨v, ?_, hv⟩
  unfold copyOutput
  rw [hdev.check, hout o.output (List.mem_map.2 ⟨o, ho, rfl⟩), hv]
  simp only [hcount, Nat.le_refl, if_true, List.take_length]

/-- Slots whose outputs have been replaced by the executor's, from `rest` on. -/
def Restored (shards shards' : ShardSlots) (rest : List XorOperation) (r : ShardSlots) : Prop :=
  r.length = shards.length ∧
    ∀ i, slotAt r i = if i ∈ rest.map XorOperation.output then slotAt shards' i else slotAt shards i

omit hex in
theorem Restored.cons {shards₁ r : ShardSlots} {o : XorOperation} (ho : o.output < shards₁.length) {v : WordShard}
    (hv : slotAt shards' o.output = some v) {rest : List XorOperation}
    (h : Restored (shards₁.set o.output (some v)) shards' rest r) : Restored shards₁ shards' (o :: rest) r := by
  refine ⟨by rw [h.1, List.length_set], fun i => ?_⟩
  rw [h.2 i, slotAt_set ho]
  by_cases hi : i ∈ rest.map XorOperation.output
  · simp [hi]
  · by_cases hio : i = o.output
    · subst hio
      simp [hv]
    · simp [hi, hio]

theorem Restored.eq {r : ShardSlots} (h : Restored shards shards' ops r) : r = shards' := by
  have hlen := ((executeOperations_returns ops shards shards').1 hex).2.1
  refine slots_ext (h.1.trans hlen.symm) (fun i => ?_)
  rw [h.2 i]
  split
  · rfl
  · rename_i hi
    exact ((executeOperations_solution hex).1.frame i hi).symm

omit hex in
theorem downloadInPlace_ok {dev : Device} (hdev : dev.Healthy) {t : LaunchTables} {mem : DeviceMemory}
    (h : Loaded t ops (slotAt shards') mem)
    (hout : ∀ x ∈ ops.map XorOperation.output, slotAt mem x = slotAt shards' x) :
    ∀ (rest : List XorOperation) (k : Nat) (shards₁ : ShardSlots), (∀ o ∈ rest, o ∈ ops ∧ o.output < shards₁.length) →
      ∃ r, loopInPlace (fun shards (operation, index) =>
        match copyOutput dev t mem operation index with
        | .error e => .throws shards e
        | .ok output => .returns (shards.set operation.output (some output))) (rest.zipIdx k) shards₁ = .returns r ∧
        Restored shards₁ shards' rest r
  | [], _, shards₁, _ => ⟨shards₁, rfl, rfl, by simp⟩
  | o :: rest, k, shards₁, hr => by
    obtain ⟨ho, hlt⟩ := hr o (by simp)
    obtain ⟨v, hcopy, hv⟩ := copyOutput_ok hdev h hout ho k
    obtain ⟨r, hloop, hrest⟩ := downloadInPlace_ok hdev h hout rest (k + 1) (shards₁.set o.output (some v))
      (fun o' ho' => by rw [List.length_set]; exact hr o' (by simp [ho']))
    refine ⟨r, ?_, hrest.cons hlt hv⟩
    rw [List.zipIdx_cons]
    simp only [loopInPlace, hcopy]
    exact hloop

omit hex in
theorem copyOutputs_ok {dev : Device} (hdev : dev.Healthy) {t : LaunchTables} {mem : DeviceMemory}
    (h : Loaded t ops (slotAt shards') mem)
    (hout : ∀ x ∈ ops.map XorOperation.output, slotAt mem x = slotAt shards' x) :
    ∀ (rest : List XorOperation) (k : Nat) (shards₁ : ShardSlots), (∀ o ∈ rest, o ∈ ops ∧ o.output < shards₁.length) →
      ∃ outputs, copyOutputs dev t mem (rest.zipIdx k) = .ok outputs ∧
        Restored shards₁ shards' rest (storeOutputs rest outputs shards₁)
  | [], _, shards₁, _ => ⟨[], rfl, rfl, by simp [storeOutputs]⟩
  | o :: rest, k, shards₁, hr => by
    obtain ⟨ho, hlt⟩ := hr o (by simp)
    obtain ⟨v, hcopy, hv⟩ := copyOutput_ok hdev h hout ho k
    obtain ⟨outputs, hloop, hrest⟩ := copyOutputs_ok hdev h hout rest (k + 1) (shards₁.set o.output (some v))
      (fun o' ho' => by rw [List.length_set]; exact hr o' (by simp [ho']))
    refine ⟨v :: outputs, ?_, hrest.cons hlt hv⟩
    rw [List.zipIdx_cons]
    simp only [copyOutputs, hcopy, hloop]

end Decode

/-! ## The executors agree -/

/-- **Two calls on the same slots agree**: both throw, or both return and leave the same slots. -/
def Agrees (o o' : Outcome ShardSlots) : Prop := o.returned = o'.returned

theorem agrees_of_returns {o o' : Outcome ShardSlots} (h : ∀ shards, o = .returns shards ↔ o' = .returns shards) :
    Agrees o o' :=
  Option.ext (fun shards => Outcome.returned_eq_some.trans ((h shards).trans Outcome.returned_eq_some.symm))

theorem executeDecodePlanCpu_returns (plan : DecodePlan) (shards shards' : ShardSlots) :
    executeDecodePlanCpu plan shards = .returns shards' ↔
      validatePlanShape plan = .ok () ∧ executeOperations plan.operations shards = .returns shards' := by
  unfold executeDecodePlanCpu
  cases validatePlanShape plan with
  | error e => simp
  | ok u => simp

section Agreement

variable {dev : Device} (hdev : dev.Healthy) {plan : DecodePlan} {shards : ShardSlots}
  (hwords : ∀ i w, slotAt shards i = some w → w ≠ [])

include hwords

theorem layout_of_execute {ops : List XorOperation} {shards' : ShardSlots}
    (hex : executeOperations ops shards = .returns shards') :
    ∃ l, layoutOperations shards.length ops (.initial (wordCountsOf shards)) = .ok l ∧ l.Lays ops ∧
      (∀ i, l.count i = (slotAt shards' i).map List.length) ∧
      ∀ s w, slotAt shards s = some w → l.count s = some w.length := by
  obtain ⟨hiff, hend⟩ := layoutOperations_execute hwords ops
  obtain ⟨l, hl⟩ := hiff.2 ⟨shards', hex⟩
  obtain ⟨hlays, hcount⟩ := hend l shards' hl hex
  refine ⟨l, hl, hlays, hcount, fun s w hs => ?_⟩
  rw [hcount s, executeOperations_kept hex hs]
  rfl

theorem layout_error (ops : List XorOperation) (hex : ∀ shards', executeOperations ops shards ≠ .returns shards') :
    ∃ e, layoutOperations shards.length ops (.initial (wordCountsOf shards)) = .error e := by
  cases hl : layoutOperations shards.length ops (.initial (wordCountsOf shards)) with
  | error e => exact ⟨e, rfl⟩
  | ok l =>
    obtain ⟨shards', h⟩ := (layoutOperations_execute hwords ops).1.1 ⟨l, hl⟩
    exact absurd h (hex shards')

include hdev

theorem decodeOnDevice_ok (timings : Bool) {shards' : ShardSlots}
    (hex : executeOperations plan.operations shards = .returns shards') :
    ∃ t mem, decodeOnDevice dev timings plan shards = .ok (t, mem) ∧
      Loaded t plan.operations (slotAt shards') mem ∧
      ∀ x ∈ plan.operations.map XorOperation.output, slotAt mem x = slotAt shards' x := by
  obtain ⟨l, hl, hlays, hcount, hhost⟩ := layout_of_execute hwords hex
  obtain ⟨⟨mem, table⟩, hal, -, halloc⟩ := allocateShards_ok hdev (l := l) shards.length
  obtain ⟨mem', hup, hres⟩ := uploadShards_ok hdev hhost halloc
  obtain ⟨hload, hin⟩ := loaded_of_resident hex hlays hcount (m := (mem', table)) hres
  obtain ⟨mem'', hlaunch, hload', -, hout⟩ := launchOperations_loaded hex hdev hload hin
  refine ⟨_, mem'', ?_, hload', hout⟩
  simp only [unallocated] at hal
  simp only [decodeOnDevice, hdev.check, hdev.checks, measureShards_ok shards hwords, hl, hal, hup, hlaunch, bind,
    Except.bind, pure, Except.pure]

theorem decodeOnDevice_error (timings : Bool)
    (hex : ∀ shards', executeOperations plan.operations shards ≠ .returns shards') :
    ∃ e, decodeOnDevice dev timings plan shards = .error e := by
  obtain ⟨e, he⟩ := layout_error hwords plan.operations hex
  refine ⟨e, ?_⟩
  simp only [decodeOnDevice, hdev.check, hdev.checks, measureShards_ok shards hwords, he, bind, Except.bind]

/-- **`run_decode_plan_cuda` agrees with the CPU executor.** -/
theorem runDecodePlanCuda_agrees (timings : Bool) :
    Agrees (runDecodePlanCudaWith dev timings plan shards) (executeDecodePlanCpu plan shards) := by
  refine agrees_of_returns (fun r => ?_)
  rw [executeDecodePlanCpu_returns]
  unfold runDecodePlanCudaWith
  cases hv : validatePlanShape plan with
  | error e => simp
  | ok u =>
    simp only [true_and]
    by_cases hops : plan.operations = []
    · rw [if_pos hops, hops]
      simp [executeOperations]
    rw [if_neg hops]
    by_cases hex : ∃ shards', executeOperations plan.operations shards = .returns shards'
    · obtain ⟨shards', hex⟩ := hex
      obtain ⟨t, mem, hdec, hload, hout⟩ := decodeOnDevice_ok hdev hwords timings hex
      have hin : ∀ o ∈ plan.operations, o ∈ plan.operations ∧ o.output < shards.length := fun o ho =>
        ⟨ho, ((executeOperations_returns _ _ _).1 hex).1 o ho⟩
      obtain ⟨r', hdown, hr'⟩ := downloadInPlace_ok hdev hload hout plan.operations 0 shards hin
      obtain rfl := hr'.eq hex
      have hdown' : downloadInPlace dev t mem plan.operations shards = .returns r' := hdown
      simp only [hdec, hdown', hdev.checks, hex]
    · push Not at hex
      obtain ⟨e, he⟩ := decodeOnDevice_error hdev hwords timings hex
      simp [he, hex r]

theorem prepareDecodePlanCuda_ok (hv : validatePlanShape plan = .ok ()) {shards' : ShardSlots}
    (hex : executeOperations plan.operations shards = .returns shards') :
    ∃ context, prepareDecodePlanCuda dev plan shards = .ok context ∧ context.plan = plan ∧
      context.tables.wordCounts.length = shards.length ∧
      Loaded context.tables plan.operations (slotAt shards') context.deviceShards ∧
      Inputs plan.operations shards context.deviceShards := by
  obtain ⟨l, hl, hlays, hcount, hhost⟩ := layout_of_execute hwords hex
  obtain ⟨m, hprep, hres⟩ := prepareShards_ok hdev hhost shards.length
  obtain ⟨hload, hin⟩ := loaded_of_resident hex hlays hcount hres
  refine ⟨⟨plan, ⟨l.wordCounts, l.sourceOffsets, m.2, l.flattenedSources⟩, m.1⟩, ?_, rfl, ?_, hload, hin⟩
  · simp only [unallocated] at hprep
    simp only [prepareDecodePlanCuda, hv, hdev.check, hdev.checks, measureShards_ok shards hwords, hl, hprep, bind,
      Except.bind, pure, Except.pure]
  · exact ((layoutOperations_ok plan.operations _ (coherent_initial hwords)).2 l hl).1.counts

theorem prepareDecodePlanCuda_error (hex : ∀ shards', executeDecodePlanCpu plan shards ≠ .returns shards') :
    ∃ e, prepareDecodePlanCuda dev plan shards = .error e := by
  cases hv : validatePlanShape plan with
  | error e => exact ⟨e, by simp only [prepareDecodePlanCuda, hv, bind, Except.bind]⟩
  | ok u =>
    obtain ⟨e, he⟩ := layout_error hwords plan.operations
      (fun shards' h => hex shards' ((executeDecodePlanCpu_returns plan shards shards').2 ⟨hv, h⟩))
    refine ⟨e, ?_⟩
    simp only [prepareDecodePlanCuda, hv, hdev.checks, measureShards_ok shards hwords, he, bind, Except.bind]

omit hdev hwords in
/-- **Launching again changes nothing**: after any number of launches, at least one, the output buffers hold the
executor's shards. -/
theorem launchDecodePlanCuda_loop {shards' : ShardSlots}
    (hex : executeOperations plan.operations shards = .returns shards') :
    ∀ (launches : List Device) (context : DeviceDecodeContext), (∀ d ∈ launches, d.Healthy) → context.plan = plan →
      Loaded context.tables plan.operations (slotAt shards') context.deviceShards →
      Inputs plan.operations shards context.deviceShards →
      ∃ context', loopInPlace (fun context dev => launchDecodePlanCuda dev context) launches context =
        .returns context' ∧ context'.plan = plan ∧ context'.tables = context.tables ∧
        Loaded context.tables plan.operations (slotAt shards') context'.deviceShards ∧
        (launches ≠ [] → ∀ x ∈ plan.operations.map XorOperation.output,
          slotAt context'.deviceShards x = slotAt shards' x)
  | [], context, _, hp, hload, _ => ⟨context, rfl, hp, rfl, hload, fun h => absurd rfl h⟩
  | d :: launches, context, hd, hp, hload, hin => by
    obtain ⟨mem, hlaunch, hload', hin', hout⟩ := launchOperations_loaded hex (hd d (by simp)) hload hin
    obtain ⟨context', hloop, hp', ht, hload'', hout'⟩ := launchDecodePlanCuda_loop hex launches
      { context with deviceShards := mem } (fun e he => hd e (by simp [he])) hp hload' hin'
    have hone : launchDecodePlanCuda d context = .returns { context with deviceShards := mem } := by
      unfold launchDecodePlanCuda
      rw [(hd d (by simp)).check, hp]
      simp only [hlaunch]
    refine ⟨context', ?_, hp', ht, hload'', fun _ => ?_⟩
    · simp only [loopInPlace, hone, hloop]
    · cases launches with
      | nil =>
        obtain rfl : { context with deviceShards := mem } = context' := by simpa [loopInPlace] using hloop
        exact hout
      | cons e rest => exact hout' (by simp)

/-- **The prepared decoder agrees with the CPU executor**, however often it is launched. -/
theorem prepareLaunchDownload_agrees {launches : List Device} (hne : launches ≠ []) (hl : ∀ d ∈ launches, d.Healthy)
    {download : Device} (hdown : download.Healthy) :
    Agrees (prepareLaunchDownload dev launches download plan shards) (executeDecodePlanCpu plan shards) := by
  refine agrees_of_returns (fun r => ?_)
  unfold prepareLaunchDownload
  by_cases hcpu : ∃ shards', executeDecodePlanCpu plan shards = .returns shards'
  · obtain ⟨shards', hcpu⟩ := hcpu
    obtain ⟨hv, hex⟩ := (executeDecodePlanCpu_returns plan shards shards').1 hcpu
    obtain ⟨context, hprep, hp, hlen, hload, hin⟩ := prepareDecodePlanCuda_ok hdev hwords hv hex
    obtain ⟨context', hloop, hp', ht, hload', hout⟩ := launchDecodePlanCuda_loop hex launches context hl hp hload hin
    have hrange : ∀ o ∈ plan.operations, o ∈ plan.operations ∧ o.output < shards.length := fun o ho =>
      ⟨ho, ((executeOperations_returns _ _ _).1 hex).1 o ho⟩
    rw [← ht] at hload' hlen
    obtain ⟨outputs, hcopy, hst⟩ := copyOutputs_ok hdown hload' (hout hne) plan.operations 0 shards hrange
    have hdl : downloadDecodeResultsCuda download context' shards = .returns shards' := by
      unfold downloadDecodeResultsCuda
      rw [if_neg (not_not.2 hlen.symm)]
      simp only [hdown.check, hp', hcopy, hst.eq hex]
    simp only [hprep, hloop, hdl, hcpu]
  · push Not at hcpu
    obtain ⟨e, he⟩ := prepareDecodePlanCuda_error hdev hwords hcpu
    simp [he, hcpu r]

end Agreement

end CodedLLM
