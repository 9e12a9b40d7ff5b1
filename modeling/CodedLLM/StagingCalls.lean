import CodedLLM.AllOrNothing
import CodedLLM.Refusals
/-!
# StagingCalls — sequences of calls on one staging context

`stage_decode_shard_cuda` and `run_staged_decode_plan_cuda` in any order, each with its own device, plan and host slots.
While no runtime call fails, a context is either the context of the slots staged so far or has executed its plan, and a
call that is rejected leaves no trace.
-/
namespace CodedLLM

open Refusals

/-- A call on a staging context; `dev` says how the CUDA runtime behaves during it. -/
inductive StagingCall where
  | stage (dev : Device) (shardId : Nat) (shard : WordShard)
  | run (dev : Device) (plan : DecodePlan) (shards : ShardSlots)

def StagingCall.device : StagingCall → Device
  | .stage dev _ _ => dev
  | .run dev _ _   => dev

def StagingCall.hostSlots : StagingCall → ShardSlots
  | .stage _ _ _    => []
  | .run _ _ shards => shards

/-- One call: the context it leaves, and how it ends with the host slots it leaves. -/
def performCall (context : DeviceShardStagingContext) : StagingCall → DeviceShardStagingContext × Outcome ShardSlots
  | .stage dev shardId shard =>
    match stageDecodeShardCuda dev context shardId shard with
    | .throws context e => (context, .throws [] e)
    | .returns context => (context, .returns [])
  | .run dev plan shards =>
    match runStagedDecodePlanCuda dev context plan shards with
    | .throws (context, shards) e => (context, .throws shards e)
    | .returns (context, shards) => (context, .returns shards)

def rejected : Outcome ShardSlots → Bool
  | .throws _ _ => true
  | .returns _  => false

def RunReturned : StagingCall × Outcome ShardSlots → Prop
  | (.run _ _ _, .returns _) => True
  | _ => False

/-- **What a context is while no runtime call fails**: finalized, or the context of the slots staged so far. -/
def DeviceShardStagingContext.Sound (context : DeviceShardStagingContext) : Prop :=
  context.finalized = true ∨ ∃ slots, (∀ i w, slotAt slots i = some w → w ≠ []) ∧ context = .ofSlots slots

theorem sound_created {dev : Device} {n : Nat} {context : DeviceShardStagingContext}
    (h : createDeviceShardStagingContextCuda dev n = .ok context) : context.Sound := by
  unfold createDeviceShardStagingContextCuda at h
  split at h
  · cases h
  split at h
  · cases h
  refine .inr ⟨List.replicate n none, fun i w hw => ?_, ?_⟩
  · simp only [slotAt, List.getElem?_replicate] at hw
    split at hw <;> cases hw
  · rw [← Except.ok.inj h]
    simp [DeviceShardStagingContext.ofSlots, wordCountsOf]

theorem performCall_finalized {context : DeviceShardStagingContext} (h : context.finalized = true) (c : StagingCall) :
    ∃ e, performCall context c = (context, .throws c.hostSlots e) := by
  cases c with
  | stage dev shardId shard =>
    refine ⟨.logicError "Cannot stage shards after decode plan finalization", ?_⟩
    simp only [performCall, stageDecodeShardCuda, h, if_true]
    rfl
  | run dev plan shards =>
    refine ⟨.logicError "Staged decode context has already executed a plan", ?_⟩
    simp only [performCall, runStagedDecodePlanCuda, validateStaged, h, if_true]
    rfl

theorem stageDecodeShardCuda_cases {dev : Device} (hdev : dev.Healthy) {slots : ShardSlots} (shardId : Nat)
    (shard : WordShard) :
    (∃ e, stageDecodeShardCuda dev (.ofSlots slots) shardId shard = .throws (.ofSlots slots) e) ∨
      shardId < slots.length ∧ shard ≠ [] ∧
        stageDecodeShardCuda dev (.ofSlots slots) shardId shard =
          .returns (.ofSlots (slots.set shardId (some shard))) := by
  by_cases hlt : shardId < slots.length
  · by_cases hne : shard = []
    · refine .inl ⟨.invalidArgument "Staged shards must not be empty", ?_⟩
      simp [stageDecodeShardCuda, DeviceShardStagingContext.ofSlots, Nat.not_le.2 hlt, hne]
    · cases hslot : slotAt slots shardId with
      | some w =>
        refine .inl ⟨.invalidArgument "Staged shard is already present", ?_⟩
        simp [stageDecodeShardCuda, DeviceShardStagingContext.ofSlots, Nat.not_le.2 hlt, hne, hslot]
      | none => exact .inr ⟨hlt, hne, stageDecodeShardCuda_ok hdev hlt hne hslot⟩
  · refine .inl ⟨.invalidArgument "Staged shard ID is out of bounds", ?_⟩
    simp [stageDecodeShardCuda, DeviceShardStagingContext.ofSlots, Nat.le_of_not_lt hlt]

theorem validateStaged_match {dev : Device} {slots shards : ShardSlots} {plan : DecodePlan} {l : PlanLayout}
    (h : validateStaged dev (.ofSlots slots) plan shards = .ok l) : slots = shards := by
  unfold validateStaged at h
  split at h
  · cases h
  split at h
  · cases h
  rename_i hlen
  obtain ⟨-, -, h⟩ := bind_eq_ok.1 h
  obtain ⟨-, -, h⟩ := bind_eq_ok.1 h
  obtain ⟨⟨⟩, hmatch, -⟩ := bind_eq_ok.1 h
  have hlen' : slots.length = shards.length := (not_not.1 hlen).symm
  refine slots_ext hlen' (fun i => ?_)
  by_cases hi : i < slots.length
  · exact (forEach_slotAt_eq slots shards _ _).1 hmatch i hi
  · rw [slotAt_of_length_le (Nat.le_of_not_lt hi), slotAt_of_length_le (by omega)]

theorem runStagedDecodePlanCuda_cases {dev : Device} (hdev : dev.Healthy) {slots : ShardSlots}
    (hwords : ∀ i w, slotAt slots i = some w → w ≠ []) (plan : DecodePlan) (shards : ShardSlots) :
    (∃ e, runStagedDecodePlanCuda dev (.ofSlots slots) plan shards = .throws (.ofSlots slots, shards) e) ∨
      ∃ context shards', runStagedDecodePlanCuda dev (.ofSlots slots) plan shards = .returns (context, shards') ∧
        context.finalized = true := by
  cases hv : validateStaged dev (.ofSlots slots) plan shards with
  | error e =>
    refine .inl ⟨e, ?_⟩
    unfold runStagedDecodePlanCuda
    rw [hv]
  | ok l =>
    obtain rfl := validateStaged_match hv
    obtain ⟨hreturns, hthrows⟩ := runStagedDecodePlanCuda_agrees hdev plan hwords
    by_cases hcpu : ∃ shards', executeDecodePlanCpu plan slots = .returns shards'
    · obtain ⟨shards', hcpu⟩ := hcpu
      obtain ⟨context, hrun⟩ := hreturns shards' hcpu
      obtain ⟨_, _, he⟩ | ⟨s, hs, hfin⟩ := runStagedDecodePlanCuda_ends dev (.ofSlots slots) plan slots
      · rw [hrun] at he
        cases he
      · rw [hrun] at hs
        cases hs
        exact .inr ⟨context, shards', hrun, hfin⟩
    · push Not at hcpu
      exact .inl (hthrows hcpu)

/-- **One call on a sound context**: rejected without a trace, a shard staged, or the plan executed. -/
theorem performCall_cases {context : DeviceShardStagingContext} (h : context.Sound) (c : StagingCall)
    (hdev : c.device.Healthy) :
    (∃ e, performCall context c = (context, .throws c.hostSlots e)) ∨
      (∃ context' shards', performCall context c = (context', .returns shards') ∧ context'.Sound ∧
        (RunReturned (c, .returns shards') → context'.finalized = true)) := by
  rcases h with hfin | ⟨slots, hwords, rfl⟩
  · exact .inl (performCall_finalized hfin c)
  cases c with
  | stage dev shardId shard =>
    replace hdev : dev.Healthy := hdev
    rcases @stageDecodeShardCuda_cases dev hdev slots shardId shard with ⟨e, he⟩ | ⟨hlt, hne, hok⟩
    · refine .inl ⟨e, ?_⟩
      simp only [performCall, he]
      rfl
    · refine .inr ⟨.ofSlots (slots.set shardId (some shard)), [], ?_, .inr ⟨_, fun i w hw => ?_, rfl⟩,
        fun hc => hc.elim⟩
      · simp only [performCall, hok]
      · rw [slotAt_set hlt] at hw
        split at hw
        · rw [← Option.some.inj hw]
          exact hne
        · exact hwords i w hw
  | run dev plan shards =>
    replace hdev : dev.Healthy := hdev
    rcases runStagedDecodePlanCuda_cases hdev hwords plan shards with ⟨e, he⟩ | ⟨context, shards', hok, hfin⟩
    · refine .inl ⟨e, ?_⟩
      simp only [performCall, he]
      rfl
    · refine .inr ⟨context, shards', ?_, .inl hfin, fun _ => hfin⟩
      simp only [performCall, hok]

theorem performCall_rejected {context : DeviceShardStagingContext} (h : context.Sound) {c : StagingCall}
    (hdev : c.device.Healthy) (hr : rejected (performCall context c).2 = true) :
    ∃ e, performCall context c = (context, .throws c.hostSlots e) := by
  rcases performCall_cases h c hdev with he | ⟨context', shards', hok, -⟩
  · exact he
  · rw [hok] at hr
    cases hr

theorem performCall_sound {context : DeviceShardStagingContext} (h : context.Sound) {c : StagingCall}
    (hdev : c.device.Healthy) : (performCall context c).1.Sound ∧
      (RunReturned (c, (performCall context c).2) → (performCall context c).1.finalized = true) := by
  rcases performCall_cases h c hdev with ⟨e, he⟩ | ⟨context', shards', hok, hsound, hfin⟩
  · rw [he]
    refine ⟨h, fun hc => ?_⟩
    cases c <;> exact hc.elim
  · rw [hok]
    exact ⟨hsound, hfin⟩

/-- **A rejected call does not poison the context.**  From creation on, with no failing runtime call, in every
sequence of stagings and runs: a rejected call leaves the context and the host slots as they are; without the rejected
calls the others answer the same and lead to the same context; and after a run that returned, every call is
rejected. -/
theorem staging_rejections_leave_no_trace {create : Device} {shardCount : Nat} {context : DeviceShardStagingContext}
    (hcreate : createDeviceShardStagingContextCuda create shardCount = .ok context) (calls : List StagingCall)
    (hdev : ∀ c ∈ calls, c.device.Healthy) :
    (∀ pre c post, calls = pre ++ c :: post → rejected (performCall (after performCall context pre) c).2 = true →
      ∃ e, performCall (after performCall context pre) c = (after performCall context pre, .throws c.hostSlots e)) ∧
    (answers performCall context (accepted performCall rejected context calls) =
        (answers performCall context calls).filter (fun x => !rejected x.2) ∧
      after performCall context (accepted performCall rejected context calls) = after performCall context calls) ∧
    (answers performCall context calls).Pairwise (fun x y => RunReturned x → rejected y.2 = true) := by
  have hsound : context.Sound := sound_created hcreate
  have hstep : ∀ c ∈ calls, ∀ s : DeviceShardStagingContext, s.Sound → (performCall s c).1.Sound :=
    fun c hc s hs => (performCall_sound hs (hdev c hc)).1
  refine ⟨fun pre c post hcalls hr => ?_, ?_, ?_⟩
  · subst hcalls
    have hpre : (after performCall context pre).Sound :=
      inv_after pre context (fun a ha => hstep a (by simp [ha])) hsound
    exact performCall_rejected hpre (hdev c (by simp)) hr
  · refine answers_accepted calls context hstep (fun c hc s hs hr => ?_) hsound
    obtain ⟨e, he⟩ := performCall_rejected hs (hdev c hc) hr
    rw [he]
  · refine pairwise_of_closes (I := DeviceShardStagingContext.Sound) (C := fun s => s.finalized = true) calls context
      (fun c hc s hs => performCall_sound hs (hdev c hc)) (fun c _ s hs => ?_) hsound
    obtain ⟨e, he⟩ := performCall_finalized hs c
    rw [he]
    exact ⟨hs, rfl⟩

/-- A plan whose output is present, the plan that runs, and a shard that comes too late. -/
def stagingCalls : List StagingCall :=
  [.stage serialDevice 1 [3, 4], .stage serialDevice 1 [3, 4], .stage serialDevice 2 [2, 6],
    .run serialDevice ⟨[⟨1, [2]⟩], [[]], true⟩ [none, some [3, 4], some [2, 6]],
    .run serialDevice ⟨[⟨0, [2, 1]⟩], [[]], true⟩ [none, some [3, 4], some [2, 6]], .stage serialDevice 0 [1, 2]]

theorem staging_rejections_leave_no_trace_threeSlots :
    answers performCall (.ofSlots [none, none, none])
        (accepted performCall rejected (.ofSlots [none, none, none]) stagingCalls) =
      (answers performCall (.ofSlots [none, none, none]) stagingCalls).filter (fun x => !rejected x.2) ∧
    (answers performCall (.ofSlots [none, none, none]) stagingCalls).map (fun x => rejected x.2) =
      [false, true, false, true, false, true] := by
  have hdev : ∀ c ∈ stagingCalls, c.device.Healthy := by
    intro c hc
    have : c.device = serialDevice := by
      simp only [stagingCalls, List.mem_cons, List.not_mem_nil, or_false] at hc
      rcases hc with rfl | rfl | rfl | rfl | rfl | rfl <;> rfl
    rw [this]
    exact fun _ => rfl
  have hcreate : createDeviceShardStagingContextCuda serialDevice 3 = .ok (.ofSlots [none, none, none]) := rfl
  obtain ⟨-, ⟨h, -⟩, -⟩ := staging_rejections_leave_no_trace hcreate stagingCalls hdev
  exact ⟨h, by decide +kernel⟩

end CodedLLM
