import CodedLLM.CudaStaging
/-!
# AllOrNothing — what a decode executor that throws leaves in the host slots

`execute_decode_plan_cpu` and `run_decode_plan_cuda` store each output as soon as they have it.  The condition under
which they are all-or-nothing is on the plan, on the word counts of the slots (`Fits`) and on the runtime calls that
fail.  The prepared and the staged executors copy every output before they store the first, so a throw leaves the
slots alone.
-/
namespace CodedLLM

open Runs Dataflow

/-- **A call on the slots is all-or-nothing**: if it throws, the slots are what they were. -/
def AllOrNothing (shards : ShardSlots) (outcome : Outcome ShardSlots) : Prop :=
  ∀ shards' e, outcome = .throws shards' e → shards' = shards

@[simp] theorem allOrNothing_returns (shards shards' : ShardSlots) : AllOrNothing shards (.returns shards') :=
  fun _ _ h => by cases h

@[simp] theorem allOrNothing_throws {shards shards' : ShardSlots} {e : Exn} :
    AllOrNothing shards (.throws shards' e) ↔ shards' = shards := by
  refine ⟨fun h => h shards' e rfl, fun h _ _ heq => ?_⟩
  injection heq with heq
  rw [← heq, h]

def slotCounts (shards : ShardSlots) (i : Nat) : Option Nat := (slotAt shards i).map List.length

/-- **The operations fit the slots**, going by the word counts alone: each output is a slot that is still empty at its
turn, and its sources, of which there is one, all have the same positive count by then. -/
def Fits (shardCount : Nat) : (Nat → Option Nat) → List XorOperation → Prop
  | _, [] => True
  | counts, operation :: rest =>
    operation.output < shardCount ∧ counts operation.output = none ∧ operation.sources ≠ [] ∧
      ∃ n, 0 < n ∧ (∀ s ∈ operation.sources, counts s = some n) ∧
        Fits shardCount (Function.update counts operation.output (some n)) rest

/-! ## The CPU executor -/

theorem slotCounts_set {shards : ShardSlots} {i : Nat} (hi : i < shards.length) (v : WordShard) :
    slotCounts (shards.set i (some v)) = Function.update (slotCounts shards) i (some v.length) := by
  funext j
  rw [slotCounts, slotAt_set hi, Function.update_apply]
  split
  · rfl
  · rfl

theorem value_slotAt {shards : ShardSlots} {op : XorOperation} {n : Nat} :
    (∃ v, xorCode.value (slotAt shards) op = some v ∧ v.length = n) ↔
      op.sources ≠ [] ∧ 0 < n ∧ ∀ s ∈ op.sources, slotCounts shards s = some n := by
  have hval : xorCode.value (slotAt shards) op = (op.sources.mapM (slotAt shards)).bind xorEval := rfl
  rw [hval]
  constructor
  · rintro ⟨v, hv, hn⟩
    obtain ⟨ws, hws, hev⟩ := Option.bind_eq_some_iff.1 hv
    obtain ⟨m, hm, hne, hl, rfl⟩ := xorEval_eq_some.1 hev
    rw [xorAll, XorWords.length_combineAll ws hl] at hn
    subst hn
    refine ⟨fun h => hne ?_, hm, fun s hs => ?_⟩
    · have := length_of_mapM _ ws hws
      rw [h] at this
      exact List.eq_nil_of_length_eq_zero this
    · obtain ⟨w, hw, hsw⟩ := mem_mapM hws hs
      rw [slotCounts, hsw, Option.map_some, hl w hw]
  · rintro ⟨hne, hn, hall⟩
    obtain ⟨ws, hws, hl⟩ := mapM_forall₂ (R := fun _ (w : WordShard) => w.length = n) op.sources
      (fun s hs => Option.map_eq_some_iff.1 (hall s hs))
    have hwl : ∀ w ∈ ws, w.length = n := by
      intro w hw
      obtain ⟨s, hs, hsw⟩ := mem_of_mapM hws hw
      have := hall s hs
      rw [slotCounts, hsw] at this
      exact Option.some.inj this
    refine ⟨xorAll n ws, ?_, XorWords.length_combineAll ws hwl⟩
    rw [hws, Option.bind_some]
    refine xorEval_eq_some.2 ⟨n, hn, fun h => hne ?_, hwl, rfl⟩
    have := length_of_mapM _ ws hws
    rw [h] at this
    exact List.eq_nil_of_length_eq_zero this.symm

theorem executeOperations_fits : ∀ (ops : List XorOperation) (shards : ShardSlots),
    (∃ shards', executeOperations ops shards = .returns shards') ↔ Fits shards.length (slotCounts shards) ops
  | [], shards => by simp [executeOperations, Fits]
  | op :: ops, shards => by
    have hnone : slotCounts shards op.output = none ↔ slotAt shards op.output = none := Option.map_eq_none_iff
    rw [executeOperations, Fits, hnone]
    constructor
    · rintro ⟨shards', h⟩
      split at h
      · cases h
      · rename_i mid hop
        obtain ⟨hlt, hempty, v, hv, rfl⟩ := executeOperation_ok.1 hop
        obtain ⟨hne, hpos, hall⟩ := value_slotAt.1 ⟨v, hv, rfl⟩
        have hrest := (executeOperations_fits ops _).1 ⟨shards', h⟩
        rw [List.length_set, slotCounts_set hlt] at hrest
        exact ⟨hlt, hempty, hne, v.length, hpos, hall, hrest⟩
    · rintro ⟨hlt, hempty, hne, n, hpos, hall, hrest⟩
      obtain ⟨v, hv, rfl⟩ := value_slotAt.2 ⟨hne, hpos, hall⟩
      rw [executeOperation_ok.2 ⟨hlt, hempty, v, hv, rfl⟩]
      refine (executeOperations_fits ops _).2 ?_
      rw [List.length_set, slotCounts_set hlt]
      exact hrest

theorem executeOperations_keeps {x : Nat} : ∀ (ops : List XorOperation) (shards : ShardSlots),
    (slotAt shards x).isSome → (slotAt (executeOperations ops shards).state x).isSome
  | [], _, h => h
  | op :: ops, shards, h => by
    rw [executeOperations]
    cases hop : executeOperation shards op with
    | error e => exact h
    | ok mid =>
      obtain ⟨hlt, -, v, -, rfl⟩ := executeOperation_ok.1 hop
      refine executeOperations_keeps ops _ ?_
      rw [slotAt_set hlt]
      split
      · rfl
      · exact h

/-- **The CPU executor is all-or-nothing exactly if the plan fits whenever its first operation does.** -/
theorem executeDecodePlanCpu_allOrNothing (plan : DecodePlan) (shards : ShardSlots) :
    AllOrNothing shards (executeDecodePlanCpu plan shards) ↔
      (validatePlanShape plan = .ok () → Fits shards.length (slotCounts shards) (plan.operations.take 1) →
        Fits shards.length (slotCounts shards) plan.operations) := by
  unfold executeDecodePlanCpu
  cases hv : validatePlanShape plan with
  | error e => simp
  | ok u =>
    simp only [true_implies]
    cases hops : plan.operations with
    | nil => simp [executeOperations, Fits]
    | cons op ops =>
      rw [List.take_succ_cons, List.take_zero, ← executeOperations_fits, ← executeOperations_fits]
      simp only [executeOperations]
      cases hop : executeOperation shards op with
      | error e => simp
      | ok mid =>
        obtain ⟨hlt, hempty, v, -, rfl⟩ := executeOperation_ok.1 hop
        -- the first output is in its slot now, and nothing takes it out again
        have hstored : (slotAt (executeOperations ops (shards.set op.output (some v))).state op.output).isSome := by
          apply executeOperations_keeps ops
          rw [slotAt_set hlt, if_pos rfl]
          rfl
        simp only
        cases hrest : executeOperations ops (shards.set op.output (some v)) with
        | returns shards' => simp
        | throws shards' e =>
          have hne : shards' ≠ shards := by
            intro hsame
            rw [hrest, Outcome.state, hsame, hempty] at hstored
            cases hstored
          simp [hne]

/-! ## The CUDA executor -/

/-- The runtime calls `run_decode_plan_cuda` makes before it copies the first output back. -/
def BeforeDownload (plan : DecodePlan) (shards : ShardSlots) : CudaCall → Prop
  | .getDevice | .mallocTable | .uploadTable | .mallocSourceIds | .uploadSourceIds | .synchronize => True
  | .malloc shardId => ∃ o ∈ plan.operations, o.Touches shardId
  | .upload shardId => (∃ o ∈ plan.operations, o.Touches shardId) ∧ (slotAt shards shardId).isSome
  | .launchConfig operation | .launch operation => operation < plan.operations.length
  | _ => False

def Device.healed (dev : Device) : Device := { dev with fails := fun _ => none }

theorem Device.healed_healthy (dev : Device) : dev.healed.Healthy := fun _ => rfl

theorem Device.check_eq_ok {dev : Device} {call : CudaCall} : dev.check call = .ok () ↔ dev.fails call = none := by
  unfold Device.check
  cases dev.fails call <;> simp

theorem allocateShard_healed {dev : Device} {l : PlanLayout} (s : DeviceMemory × List (Option Nat)) (a : Nat)
    (t : DeviceMemory × List (Option Nat)) :
    allocateShard dev l s a = .ok t ↔
      (l.requiredShards.getD a false = true → dev.fails (.malloc a) = none) ∧
      allocateShard dev.healed l s a = .ok t := by
  unfold allocateShard
  rw [dev.healed_healthy.check]
  cases l.requiredShards.getD a false with
  | false => simp
  | true =>
    rw [← dev.check_eq_ok]
    cases dev.check (.malloc a) <;> simp [Device.fresh, Device.healed]

theorem uploadShard_healed {dev : Device} {l : PlanLayout} {shards : ShardSlots} (s : DeviceMemory) (a : Nat)
    (t : DeviceMemory) :
    uploadShard dev l shards s a = .ok t ↔
      (l.requiredShards.getD a false = true → (slotAt shards a).isSome → dev.fails (.upload a) = none) ∧
        uploadShard dev.healed l shards s a = .ok t := by
  unfold uploadShard
  rw [dev.healed_healthy.check]
  cases l.requiredShards.getD a false with
  | false => simp
  | true =>
    cases slotAt shards a with
    | none => simp
    | some shard =>
      rw [← dev.check_eq_ok]
      cases dev.check (.upload a) <;> simp

theorem launchXorOperationCuda_healed {dev : Device} (i : Nat) (o : XorOperation) (n : Nat) (table : List (Option Nat))
    (ids : List Nat) (out : Nat) (mem mem' : DeviceMemory) :
    launchXorOperationCuda dev i o n table ids out mem = .returns mem' ↔
      (dev.fails (.launchConfig i) = none ∧ dev.fails (.launch i) = none) ∧
        launchXorOperationCuda dev.healed i o n table ids out mem = .returns mem' := by
  unfold launchXorOperationCuda
  simp only [dev.healed_healthy.check]
  rw [← dev.check_eq_ok, ← dev.check_eq_ok]
  cases dev.check (.launchConfig i) with
  | error e => simp
  | ok u =>
    cases dev.check (.launch i) with
    | error e => simp
    | ok u => simp [Device.healed]

theorem copyOutput_healed {dev : Device} (t : LaunchTables) (mem : DeviceMemory) (o : XorOperation) (i : Nat)
    (v : WordShard) :
    copyOutput dev t mem o i = .ok v ↔ dev.fails (.download i) = none ∧ copyOutput dev.healed t mem o i = .ok v := by
  unfold copyOutput
  rw [← dev.check_eq_ok, dev.healed_healthy.check]
  cases dev.check (.download i) <;> simp

theorem mem_zipIdx_iff {α : Type} {l : List α} {P : Nat → Prop} : (∀ x ∈ l.zipIdx, P x.2) ↔ ∀ i < l.length, P i := by
  constructor
  · intro h i hi
    exact h (l[i], i) (List.mk_mem_zipIdx_iff_getElem?.2 (List.getElem?_eq_getElem hi))
  · rintro h ⟨a, i⟩ hx
    exact h i (List.getElem?_eq_some_iff.1 (List.mk_mem_zipIdx_iff_getElem?.1 hx)).1

theorem launchOperations_healed {dev : Device} (t : LaunchTables) (ops : List XorOperation) (mem mem' : DeviceMemory) :
    launchOperations dev t ops mem = .returns mem' ↔
      (∀ i < ops.length, dev.fails (.launchConfig i) = none ∧ dev.fails (.launch i) = none) ∧
        launchOperations dev.healed t ops mem = .returns mem' := by
  rw [← mem_zipIdx_iff]
  exact loopInPlace_guarded (P := fun x : XorOperation × Nat => dev.fails (.launchConfig x.2) = none ∧
    dev.fails (.launch x.2) = none) (fun _ _ _ => launchXorOperationCuda_healed ..) _ _ _

theorem decodeOnDevice_eq_ok {dev : Device} {plan : DecodePlan} {shards : ShardSlots}
    {r : LaunchTables × DeviceMemory} : decodeOnDevice dev false plan shards = .ok r ↔
      ∃ counts l m mem mem', measureShards shards = .ok counts ∧
        layoutOperations shards.length plan.operations (.initial counts) = .ok l ∧
        (dev.fails .getDevice = none ∧ dev.fails .mallocTable = none ∧ dev.fails .uploadTable = none ∧
          dev.fails .mallocSourceIds = none ∧ dev.fails .uploadSourceIds = none ∧ dev.fails .synchronize = none) ∧
        loop (allocateShard dev l) (List.range shards.length) (unallocated shards.length) = .ok m ∧
        loop (uploadShard dev l shards) (List.range shards.length) m.1 = .ok mem ∧
        launchOperations dev ⟨l.wordCounts, l.sourceOffsets, m.2, l.flattenedSources⟩ plan.operations mem =
          .returns mem' ∧
        r = (⟨l.wordCounts, l.sourceOffsets, m.2, l.flattenedSources⟩, mem') := by
  constructor
  · intro h
    unfold decodeOnDevice at h
    obtain ⟨⟨⟩, hdevice, h⟩ := bind_eq_ok.1 h
    obtain ⟨-, -, h⟩ := bind_eq_ok.1 h
    obtain ⟨counts, hcounts, h⟩ := bind_eq_ok.1 h
    obtain ⟨l, hl, h⟩ := bind_eq_ok.1 h
    obtain ⟨m, hm, h⟩ := bind_eq_ok.1 h
    obtain ⟨-, -, h⟩ := bind_eq_ok.1 h
    obtain ⟨mem, hup, h⟩ := bind_eq_ok.1 h
    obtain ⟨⟨⟩, htables, h⟩ := bind_eq_ok.1 h
    obtain ⟨-, -, h⟩ := bind_eq_ok.1 h
    cases hlaunch :
      launchOperations dev ⟨l.wordCounts, l.sourceOffsets, m.2, l.flattenedSources⟩ plan.operations mem with
    | throws mem' e =>
      simp only [hlaunch] at h
      cases h
    | returns mem' =>
      simp only [hlaunch] at h
      obtain ⟨-, -, h⟩ := bind_eq_ok.1 h
      obtain ⟨⟨⟩, hsync, h⟩ := bind_eq_ok.1 h
      obtain ⟨-, -, h⟩ := bind_eq_ok.1 h
      have hcalls := (forEach_ok _ _).1 htables
      simp only [List.forall_mem_cons, Device.check_eq_ok] at hcalls hdevice hsync
      obtain ⟨h1, h2, h3, h4, -⟩ := hcalls
      exact ⟨counts, l, m, mem, mem', hcounts, hl, ⟨hdevice, h1, h2, h3, h4, hsync⟩, hm, hup, hlaunch,
        (Except.ok.inj h).symm⟩
  · rintro ⟨counts, l, m, mem, mem', hcounts, hl, ⟨hdevice, h1, h2, h3, h4, hsync⟩, hm, hup, hlaunch, rfl⟩
    have htables : forEach dev.check [.mallocTable, .uploadTable, .mallocSourceIds, .uploadSourceIds] = .ok () := by
      rw [forEach_ok]
      simp [Device.check_eq_ok, h1, h2, h3, h4]
    rw [← dev.check_eq_ok] at hdevice hsync
    rw [unallocated] at hm
    simp only [decodeOnDevice, hdevice, hcounts, hl, hm, hup, htables, hlaunch, hsync, bind, Except.bind,
      Bool.false_eq_true, if_false, pure, Except.pure]
    rfl

theorem required_iff_touched {shards : ShardSlots} (hwords : ∀ i w, slotAt shards i = some w → w ≠ [])
    {ops : List XorOperation} {l : PlanLayout}
    (hl : layoutOperations shards.length ops (.initial (wordCountsOf shards)) = .ok l) (s : Nat) :
    (s ∈ List.range shards.length ∧ l.requiredShards.getD s false = true) ↔ ∃ o ∈ ops, o.Touches s := by
  have hco := coherent_initial hwords
  have hlen : l.requiredShards.length = shards.length := ((layoutOperations_ok ops _ hco).2 l hl).1.required
  have hgetD : l.requiredShards.getD s false = true ↔ l.requiredShards[s]? = some true := by
    rw [List.getD_eq_getElem?_getD]
    cases l.requiredShards[s]? <;> simp
  rw [hgetD, List.mem_range]
  constructor
  · rintro ⟨-, hs⟩
    rcases layoutOperations_touched ops _ l hco hl s hs with h | h
    · simp [PlanLayout.initial, List.getElem?_replicate] at h
    · exact h
  · rintro ⟨o, ho, hs⟩
    have hs' := (layoutOperations_lays ops [] _ l hco (lays_initial _) hl).required o ho s hs
    exact ⟨hlen ▸ (List.getElem?_eq_some_iff.1 hs').1, hs'⟩

/-- **The part before the copies back** ends as on a device without failures, if none of its calls fails. -/
theorem decodeOnDevice_healed {dev : Device} {plan : DecodePlan} {shards : ShardSlots}
    {r : LaunchTables × DeviceMemory} : decodeOnDevice dev false plan shards = .ok r ↔
      (∀ call, BeforeDownload plan shards call → dev.fails call = none) ∧
        decodeOnDevice dev.healed false plan shards = .ok r := by
  rw [decodeOnDevice_eq_ok, decodeOnDevice_eq_ok]
  constructor
  · rintro ⟨counts, l, m, mem, mem', hcounts, hl, ⟨h1, h2, h3, h4, h5, h6⟩, hm, hup, hlaunch, rfl⟩
    obtain ⟨hmalloc, hm⟩ := (loop_guarded allocateShard_healed _ _ _).1 hm
    obtain ⟨hupload, hup⟩ := (loop_guarded uploadShard_healed _ _ _).1 hup
    obtain ⟨hlaunches, hlaunch⟩ := (launchOperations_healed _ _ _ _).1 hlaunch
    have hwords := measureShards_nonempty shards counts hcounts
    obtain rfl : wordCountsOf shards = counts := Except.ok.inj ((measureShards_ok shards hwords).symm.trans hcounts)
    refine ⟨fun call hcall => ?_, _, l, m, mem, mem', hcounts, hl, by simp [Device.healed], hm, hup, hlaunch, rfl⟩
    cases call with
    | getDevice => exact h1
    | mallocTable => exact h2
    | uploadTable => exact h3
    | mallocSourceIds => exact h4
    | uploadSourceIds => exact h5
    | synchronize => exact h6
    | malloc s =>
      obtain ⟨hs, hreq⟩ := (required_iff_touched hwords hl s).2 hcall
      exact hmalloc s hs hreq
    | upload s =>
      obtain ⟨hs, hreq⟩ := (required_iff_touched hwords hl s).2 hcall.1
      exact hupload s hs hreq hcall.2
    | launchConfig i => exact (hlaunches i hcall).1
    | launch i => exact (hlaunches i hcall).2
    | _ => exact hcall.elim
  · rintro ⟨hcalls, counts, l, m, mem, mem', hcounts, hl, -, hm, hup, hlaunch, rfl⟩
    have hwords := measureShards_nonempty shards counts hcounts
    obtain rfl : wordCountsOf shards = counts := Except.ok.inj ((measureShards_ok shards hwords).symm.trans hcounts)
    have htouched := required_iff_touched hwords hl
    refine ⟨_, l, m, mem, mem', hcounts, hl,
      ⟨hcalls _ trivial, hcalls _ trivial, hcalls _ trivial, hcalls _ trivial, hcalls _ trivial, hcalls _ trivial⟩,
      (loop_guarded allocateShard_healed _ _ _).2 ⟨fun s hs hreq => ?_, hm⟩,
      (loop_guarded uploadShard_healed _ _ _).2 ⟨fun s hs hreq hhost => ?_, hup⟩,
      (launchOperations_healed _ _ _ _).2 ⟨fun i hi => ?_, hlaunch⟩, rfl⟩
    · exact hcalls (.malloc s) ((htouched s).1 ⟨hs, hreq⟩)
    · exact hcalls (.upload s) ⟨(htouched s).1 ⟨hs, hreq⟩, hhost⟩
    · exact ⟨hcalls (.launchConfig i) hi, hcalls (.launch i) hi⟩

theorem isSome_slotAt_set {shards : ShardSlots} {x : Nat} (h : (slotAt shards x).isSome) (i : Nat) (w : WordShard) :
    (slotAt (shards.set i (some w)) x).isSome := by
  by_cases hi : i < shards.length
  · rw [slotAt_set hi]
    split
    · rfl
    · exact h
  · rw [List.set_eq_of_length_le (Nat.le_of_not_lt hi)]
    exact h

def downloadOne (dev : Device) (t : LaunchTables) (mem : DeviceMemory) (shards : ShardSlots) (x : XorOperation × Nat) :
    Outcome ShardSlots :=
  match copyOutput dev t mem x.1 x.2 with
  | .error e => .throws shards e
  | .ok output => .returns (shards.set x.1.output (some output))

theorem downloadInPlace_eq (dev : Device) (t : LaunchTables) (mem : DeviceMemory) (ops : List XorOperation)
    (shards : ShardSlots) :
    downloadInPlace dev t mem ops shards = loopInPlace (downloadOne dev t mem) ops.zipIdx shards :=
  rfl

theorem downloadOne_healed {dev : Device} {t : LaunchTables} {mem : DeviceMemory} (shards : ShardSlots)
    (x : XorOperation × Nat) (shards' : ShardSlots) :
    downloadOne dev t mem shards x = .returns shards' ↔
      dev.fails (.download x.2) = none ∧ downloadOne dev.healed t mem shards x = .returns shards' := by
  have hok : ∀ d : Device, downloadOne d t mem shards x = .returns shards' ↔
      ∃ v, copyOutput d t mem x.1 x.2 = .ok v ∧ shards.set x.1.output (some v) = shards' := by
    intro d
    unfold downloadOne
    cases copyOutput d t mem x.1 x.2 <;> simp
  rw [hok dev, hok dev.healed]
  constructor
  · rintro ⟨v, hv, hset⟩
    obtain ⟨hdown, hv⟩ := (copyOutput_healed t mem x.1 x.2 v).1 hv
    exact ⟨hdown, v, hv, hset⟩
  · rintro ⟨hdown, v, hv, hset⟩
    exact ⟨v, (copyOutput_healed t mem x.1 x.2 v).2 ⟨hdown, hv⟩, hset⟩

theorem downloadOne_keeps {dev : Device} {t : LaunchTables} {mem : DeviceMemory} {x : Nat} (shards : ShardSlots)
    (a : XorOperation × Nat) (h : (slotAt shards x).isSome) :
    (slotAt (downloadOne dev t mem shards a).state x).isSome := by
  unfold downloadOne
  cases copyOutput dev t mem a.1 a.2 with
  | error e => exact h
  | ok output => exact isSome_slotAt_set h a.1.output output

/-- **The copies back** are all-or-nothing exactly if the first one fails or none does. -/
theorem downloadInPlace_allOrNothing (dev : Device) {t : LaunchTables} {mem : DeviceMemory} {ops : List XorOperation}
    {shards shards' : ShardSlots} (hex : executeOperations ops shards = .returns shards')
    (h : Loaded t ops (slotAt shards') mem)
    (hout : ∀ x ∈ ops.map XorOperation.output, slotAt mem x = slotAt shards' x) :
    (∃ r, downloadInPlace dev t mem ops shards = .returns r) ∧ (∀ i < ops.length, dev.fails (.download i) = none) ∨
      ∃ r e, downloadInPlace dev t mem ops shards = .throws r e ∧
        ((dev.fails (.download 0) = none → ∀ i < ops.length, dev.fails (.download i) = none) ↔ r = shards) := by
  have hin : ∀ o ∈ ops, o ∈ ops ∧ o.output < shards.length := fun o ho =>
    ⟨ho, ((executeOperations_returns _ _ _).1 hex).1 o ho⟩
  obtain ⟨r, hhealed, -⟩ := downloadInPlace_ok dev.healed_healthy h hout ops 0 shards hin
  have hreturns : ∀ r', downloadInPlace dev t mem ops shards = .returns r' ↔
      (∀ i < ops.length, dev.fails (.download i) = none) ∧
        downloadInPlace dev.healed t mem ops shards = .returns r' := by
    intro r'
    rw [downloadInPlace_eq, downloadInPlace_eq, ← mem_zipIdx_iff]
    exact loopInPlace_guarded downloadOne_healed _ _ _
  by_cases hall : ∀ i < ops.length, dev.fails (.download i) = none
  · exact .inl ⟨⟨r, (hreturns r).2 ⟨hall, hhealed⟩⟩, hall⟩
  refine .inr ?_
  cases hdown : downloadInPlace dev t mem ops shards with
  | returns r' => exact absurd ((hreturns r').1 hdown).1 hall
  | throws r' e =>
    refine ⟨r', e, rfl, ?_⟩
    cases ops with
    | nil => simp at hall
    | cons o rest =>
      have hempty : slotAt shards o.output = none := by
        have hfits := (executeOperations_fits (o :: rest) shards).1 ⟨shards', hex⟩
        exact Option.map_eq_none_iff.1 hfits.2.1
      obtain ⟨v, hcopy, -⟩ := copyOutput_ok dev.healed_healthy h hout (o := o) (by simp) 0
      rw [downloadInPlace_eq, List.zipIdx_cons, loopInPlace, downloadOne] at hdown
      by_cases h0 : dev.fails (.download 0) = none
      · -- the first output is in its slot when a later copy fails
        rw [(copyOutput_healed t mem o 0 v).2 ⟨h0, hcopy⟩] at hdown
        have hstored : (slotAt (loopInPlace (downloadOne dev t mem) (rest.zipIdx (0 + 1))
            (shards.set o.output (some v))).state o.output).isSome := by
          apply loopInPlace_state (I := fun s => (slotAt s o.output).isSome) downloadOne_keeps
          rw [slotAt_set (hin o (by simp)).2, if_pos rfl]
          rfl
        have hne : r' ≠ shards := by
          intro hsame
          simp only at hdown
          rw [hdown, Outcome.state, hsame, hempty] at hstored
          cases hstored
        simp only [h0, hall, hne, true_implies]
      · have herr : ∃ e, copyOutput dev t mem o 0 = .error e := by
          cases hc : copyOutput dev t mem o 0 with
          | error e => exact ⟨e, rfl⟩
          | ok w => exact absurd ((copyOutput_healed t mem o 0 w).1 hc).1 h0
        obtain ⟨e', he⟩ := herr
        rw [he] at hdown
        injection hdown with hdown
        simp [h0, hdown]

/-- **`run_decode_plan_cuda` is all-or-nothing exactly if**, once the plan is accepted and every call up to the first
copy back has succeeded, every copy back succeeds. -/
theorem runDecodePlanCuda_allOrNothing (dev : Device) (plan : DecodePlan) (shards : ShardSlots) :
    AllOrNothing shards (runDecodePlanCuda dev plan shards) ↔
      (validatePlanShape plan = .ok () → (∀ i w, slotAt shards i = some w → w ≠ []) →
        Fits shards.length (slotCounts shards) plan.operations →
        (∀ call, BeforeDownload plan shards call → dev.fails call = none) → dev.fails (.download 0) = none →
        ∀ i < plan.operations.length, dev.fails (.download i) = none) := by
  unfold runDecodePlanCuda runDecodePlanCudaWith
  cases hv : validatePlanShape plan with
  | error e => simp
  | ok u =>
    by_cases hops : plan.operations = []
    · simp [hops]
    simp only [hops, if_false, true_implies]
    cases hdec : decodeOnDevice dev false plan shards with
    | error e =>
      simp only [allOrNothing_throws, true_iff]
      -- a plan that fits, on shards that are not empty, gets as far as the first copy if no call fails
      intro hwords hfits hcalls
      obtain ⟨shards', hex⟩ := (executeOperations_fits _ _).2 hfits
      obtain ⟨t, mem, hok, -⟩ := decodeOnDevice_ok dev.healed_healthy hwords false hex
      rw [decodeOnDevice_healed.2 ⟨hcalls, hok⟩] at hdec
      cases hdec
    | ok r =>
      obtain ⟨t, mem⟩ := r
      obtain ⟨hcalls, hok⟩ := decodeOnDevice_healed.1 hdec
      obtain ⟨counts, l, m, -, -, hcounts, hl, -⟩ := decodeOnDevice_eq_ok.1 hok
      have hwords := measureShards_nonempty shards counts hcounts
      have hex : ∃ shards', executeOperations plan.operations shards = .returns shards' := by
        by_contra hno
        push Not at hno
        obtain ⟨e, he⟩ := decodeOnDevice_error dev.healed_healthy hwords false hno
        rw [hok] at he
        cases he
      have hfits := (executeOperations_fits _ _).1 hex
      obtain ⟨shards', hex⟩ := hex
      obtain ⟨t', mem', hok', hload, hout⟩ := decodeOnDevice_ok dev.healed_healthy hwords false hex
      obtain ⟨rfl, rfl⟩ := Prod.mk.inj (Except.ok.inj (hok.symm.trans hok'))
      rcases downloadInPlace_allOrNothing dev hex hload hout with ⟨⟨r, hr⟩, hall⟩ | ⟨r, e, hr, hiff⟩
      · simp only [hr, Bool.false_eq_true, if_false, forEach, allOrNothing_returns, true_iff]
        exact fun _ _ _ _ => hall
      · simp only [hr, allOrNothing_throws, ← hiff]
        exact ⟨fun h _ _ _ => h, fun h => h hwords hfits hcalls⟩

/-! ## The executors that buffer -/

theorem downloadDecodeResultsCuda_allOrNothing (dev : Device) (context : DeviceDecodeContext) (shards : ShardSlots) :
    AllOrNothing shards (downloadDecodeResultsCuda dev context shards) := by
  unfold downloadDecodeResultsCuda
  split
  · simp
  cases dev.check .setDevice with
  | error e => simp
  | ok u =>
    cases copyOutputs dev context.tables context.deviceShards context.plan.operations.zipIdx with
    | error e => simp
    | ok outputs =>
      cases dev.check .synchronize with
      | error e => simp
      | ok u => simp

/-- **The prepared executor is all-or-nothing**, whatever fails. -/
theorem prepareLaunchDownload_allOrNothing (prepare : Device) (launches : List Device) (download : Device)
    (plan : DecodePlan) (shards : ShardSlots) :
    AllOrNothing shards (prepareLaunchDownload prepare launches download plan shards) := by
  unfold prepareLaunchDownload
  cases prepareDecodePlanCuda prepare plan shards with
  | error e => simp
  | ok context =>
    simp only
    cases loopInPlace (fun context dev => launchDecodePlanCuda dev context) launches context with
    | throws s e => simp
    | returns context' => exact downloadDecodeResultsCuda_allOrNothing download context' shards

/-- **How the staged executor ends**: it throws with the host slots as they were, or returns with the context
finalized. -/
theorem runStagedDecodePlanCuda_ends (dev : Device) (context : DeviceShardStagingContext) (plan : DecodePlan)
    (shards : ShardSlots) :
    (∃ context' e, runStagedDecodePlanCuda dev context plan shards = .throws (context', shards) e) ∨
      ∃ s, runStagedDecodePlanCuda dev context plan shards = .returns s ∧ s.1.finalized = true := by
  unfold runStagedDecodePlanCuda
  split
  · exact .inl ⟨_, _, rfl⟩
  split
  · exact .inl ⟨_, _, rfl⟩
  split
  · exact .inl ⟨_, _, rfl⟩
  simp only
  split
  · exact .inl ⟨_, _, rfl⟩
  split
  · exact .inl ⟨_, _, rfl⟩
  split
  · exact .inl ⟨_, _, rfl⟩
  split
  · exact .inl ⟨_, _, rfl⟩
  split
  · exact .inl ⟨_, _, rfl⟩
  · exact .inr ⟨_, rfl, rfl⟩

/-- **The staged executor is all-or-nothing in the host slots**, whatever fails. -/
theorem runStagedDecodePlanCuda_allOrNothing (dev : Device) (context : DeviceShardStagingContext) (plan : DecodePlan)
    (shards : ShardSlots) (s : DeviceShardStagingContext × ShardSlots) (e : Exn)
    (h : runStagedDecodePlanCuda dev context plan shards = .throws s e) : s.2 = shards := by
  obtain ⟨context', e', he⟩ | ⟨s', hs', -⟩ := runStagedDecodePlanCuda_ends dev context plan shards
  · rw [he] at h
    cases h
    rfl
  · rw [hs'] at h
    cases h

/-! ## Both executors -/

/-- **When the executors that store as they go are all-or-nothing**: the CPU one if the whole plan fits the slots
whenever its first operation does, the CUDA one if no copy back fails once the first has succeeded. -/
theorem hostSlot_executors_allOrNothing (plan : DecodePlan) (shards : ShardSlots) (dev : Device) :
    (AllOrNothing shards (executeDecodePlanCpu plan shards) ↔
      (validatePlanShape plan = .ok () → Fits shards.length (slotCounts shards) (plan.operations.take 1) →
        Fits shards.length (slotCounts shards) plan.operations)) ∧
    (AllOrNothing shards (runDecodePlanCuda dev plan shards) ↔
      (validatePlanShape plan = .ok () → (∀ i w, slotAt shards i = some w → w ≠ []) →
        Fits shards.length (slotCounts shards) plan.operations →
        (∀ call, BeforeDownload plan shards call → dev.fails call = none) → dev.fails (.download 0) = none →
        ∀ i < plan.operations.length, dev.fails (.download i) = none)) :=
  ⟨executeDecodePlanCpu_allOrNothing plan shards, runDecodePlanCuda_allOrNothing dev plan shards⟩

def secondDownloadFails : Device :=
  { serialDevice with fails := fun call => if call = .download 1 then some "unspecified launch failure" else none }

/-- The second operation's source 4 is missing; on the device, all shards are there and the second copy back fails.
Shard 0 stays in its slot both times. -/
theorem executors_keep_first_output :
    executeDecodePlanCpu ⟨[⟨0, [2, 3]⟩, ⟨1, [2, 4]⟩], [[], []], true⟩ [none, none, some [3], some [5], none] =
        .throws [some [6], none, some [3], some [5], none]
          (.invalidArgument "DecodePlan sources must be available and equally sized") ∧
    ¬ AllOrNothing [none, none, some [3], some [5], none]
        (executeDecodePlanCpu ⟨[⟨0, [2, 3]⟩, ⟨1, [2, 4]⟩], [[], []], true⟩ [none, none, some [3], some [5], none]) ∧
    runDecodePlanCuda secondDownloadFails ⟨[⟨0, [2, 3]⟩, ⟨1, [2, 4]⟩], [[], []], true⟩
        [none, none, some [3], some [5], some [9]] =
      .throws [some [6], none, some [3], some [5], some [9]] (.runtimeError "unspecified launch failure") ∧
    ¬ AllOrNothing [none, none, some [3], some [5], some [9]]
        (runDecodePlanCuda secondDownloadFails ⟨[⟨0, [2, 3]⟩, ⟨1, [2, 4]⟩], [[], []], true⟩
          [none, none, some [3], some [5], some [9]]) := by
  have hcpu : executeDecodePlanCpu ⟨[⟨0, [2, 3]⟩, ⟨1, [2, 4]⟩], [[], []], true⟩ [none, none, some [3], some [5], none] =
      .throws [some [6], none, some [3], some [5], none]
        (.invalidArgument "DecodePlan sources must be available and equally sized") := by decide
  have hcuda : runDecodePlanCuda secondDownloadFails ⟨[⟨0, [2, 3]⟩, ⟨1, [2, 4]⟩], [[], []], true⟩
      [none, none, some [3], some [5], some [9]] =
      .throws [some [6], none, some [3], some [5], some [9]] (.runtimeError "unspecified launch failure") := by
    decide +kernel
  refine ⟨hcpu, ?_, hcuda, ?_⟩
  · rw [hcpu, allOrNothing_throws]
    decide
  · rw [hcuda, allOrNothing_throws]
    decide

end CodedLLM
