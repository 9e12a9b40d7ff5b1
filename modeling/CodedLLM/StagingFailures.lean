import CodedLLM.AllOrNothing
import CodedLLM.HealthyExecutor
/-!
# StagingFailures — what a failed upload leaves in the executor

`stage_decode_shard_cuda` records the host copy and the word count before it allocates the buffer, and keeps the
buffer when a later call fails; `StageShard` puts a new context into its table before anything is staged in it.
`Retryable` says what a failed upload should leave: the same shards recorded, a retry that succeeds, and no later task
that is rejected for a mismatch.  It does exactly if the failure leaves the executor as it was.
-/
namespace CodedLLM

open Runs

/-! ## One upload -/

def uploadCalls (shardId : Nat) : List CudaCall :=
  [.eventCreate 0, .eventCreate 1, .eventRecord 0, .upload shardId, .eventRecord 1]

def DeviceShardStagingContext.withHostCopy (context : DeviceShardStagingContext) (shardId : Nat) (shard : WordShard) :
    DeviceShardStagingContext :=
  { context with
    stagedShards := context.stagedShards.set shardId (some shard)
    wordCounts := context.wordCounts.set shardId (some shard.length) }

def DeviceShardStagingContext.Admits (context : DeviceShardStagingContext) (shardId : Nat) (shard : WordShard) : Prop :=
  context.finalized = false ∧ shardId < context.deviceShards.length ∧ shard ≠ [] ∧
    slotAt context.deviceShards shardId = none

/-- The loop of `run_staged_decode_plan_cuda` that compares the staged shards with the host slots passes. -/
def DeviceShardStagingContext.MatchesHost (context : DeviceShardStagingContext) (shards : ShardSlots) : Prop :=
  ∀ i < context.deviceShards.length, slotAt context.stagedShards i = slotAt shards i

theorem forEach_check (dev : Device) : ∀ (calls : List CudaCall),
    (forEach dev.check calls = .ok () ∧ ∀ call ∈ calls, dev.fails call = none) ∨
      ∃ text, forEach dev.check calls = .error (.runtimeError text) ∧ ∃ call ∈ calls, dev.fails call ≠ none
  | [] => .inl ⟨rfl, by simp⟩
  | call :: calls => by
    unfold forEach Device.check
    cases hcall : dev.fails call with
    | some text => exact .inr ⟨text, rfl, call, by simp, by simp [hcall]⟩
    | none =>
      rcases forEach_check dev calls with ⟨hok, hall⟩ | ⟨text, herr, c, hc, hfail⟩
      · exact .inl ⟨hok, by simpa [hcall] using hall⟩
      · exact .inr ⟨text, herr, c, by simp [hc], hfail⟩

theorem stageDecodeShardCuda_refused (dev : Device) {context : DeviceShardStagingContext} {shardId : Nat}
    {shard : WordShard} (h : ¬ context.Admits shardId shard) :
    ∃ e, stageDecodeShardCuda dev context shardId shard = .throws context e ∧ ∀ text, e ≠ .runtimeError text := by
  unfold stageDecodeShardCuda
  by_cases hfin : context.finalized = true
  · rw [if_pos hfin]
    exact ⟨_, rfl, fun _ he => by cases he⟩
  rw [if_neg hfin]
  by_cases hlt : context.deviceShards.length ≤ shardId
  · rw [if_pos hlt]
    exact ⟨_, rfl, fun _ he => by cases he⟩
  rw [if_neg hlt]
  by_cases hne : shard = []
  · rw [if_pos hne]
    exact ⟨_, rfl, fun _ he => by cases he⟩
  rw [if_neg hne]
  by_cases hsome : (slotAt context.deviceShards shardId).isSome = true
  · rw [if_pos hsome]
    exact ⟨_, rfl, fun _ he => by cases he⟩
  · exact absurd ⟨by simpa using hfin, Nat.lt_of_not_le hlt, hne, by simpa using hsome⟩ h

/-- **An upload that is admitted**, by the first runtime call that fails. -/
theorem stageDecodeShardCuda_admitted (dev : Device) {context : DeviceShardStagingContext} {shardId : Nat}
    {shard : WordShard} (h : context.Admits shardId shard) :
    (∃ text, dev.fails .setDevice = some text ∧
      stageDecodeShardCuda dev context shardId shard = .throws context (.runtimeError text)) ∨
    (dev.fails .setDevice = none ∧ ∃ text, dev.fails (.malloc shardId) = some text ∧
      stageDecodeShardCuda dev context shardId shard =
        .throws (context.withHostCopy shardId shard) (.runtimeError text)) ∨
    (dev.fails .setDevice = none ∧ dev.fails (.malloc shardId) = none ∧
      (∃ call ∈ uploadCalls shardId, dev.fails call ≠ none) ∧
      ∃ buffer text, stageDecodeShardCuda dev context shardId shard =
        .throws { context.withHostCopy shardId shard with
          deviceShards := context.deviceShards.set shardId (some buffer) } (.runtimeError text)) ∨
    (dev.fails .setDevice = none ∧ dev.fails (.malloc shardId) = none ∧
      (∀ call ∈ uploadCalls shardId, dev.fails call = none) ∧ stageDecodeShardCuda dev context shardId shard =
        .returns { context.withHostCopy shardId shard with
          deviceShards := context.deviceShards.set shardId (some shard) }) := by
  obtain ⟨hfin, hlt, hne, hempty⟩ := h
  unfold stageDecodeShardCuda
  rw [if_neg (by simp [hfin]), if_neg (Nat.not_le.2 hlt), if_neg hne, if_neg (by simp [hempty])]
  unfold Device.check
  cases hset : dev.fails .setDevice with
  | some text => exact .inl ⟨text, rfl, rfl⟩
  | none =>
    refine .inr ?_
    cases hmalloc : dev.fails (.malloc shardId) with
    | some text => exact .inl ⟨rfl, text, rfl, rfl⟩
    | none =>
      refine .inr ?_
      rcases forEach_check dev [.eventCreate 0, .eventCreate 1, .eventRecord 0, .upload shardId] with
        ⟨hok, hall⟩ | ⟨text, herr, call, hcall, hfail⟩
      · have hok' := hok
        unfold Device.check at hok'
        simp only [hok']
        cases hrec : dev.fails (.eventRecord 1) with
        | some text =>
          exact .inl ⟨trivial, trivial, ⟨.eventRecord 1, by simp [uploadCalls], by simp [hrec]⟩, shard, text, rfl⟩
        | none =>
          refine .inr ⟨trivial, trivial, fun call hcall => ?_, rfl⟩
          simp only [uploadCalls, List.mem_cons, List.not_mem_nil, or_false] at hcall
          rcases hcall with rfl | rfl | rfl | rfl | rfl
          · exact hall _ (by simp)
          · exact hall _ (by simp)
          · exact hall _ (by simp)
          · exact hall _ (by simp)
          · exact hrec
      · have herr' := herr
        unfold Device.check at herr'
        simp only [herr']
        refine .inl ⟨trivial, trivial, ⟨call, ?_, hfail⟩, _, text, rfl⟩
        simp only [uploadCalls, List.mem_cons, List.not_mem_nil, or_false] at hcall ⊢
        rcases hcall with rfl | rfl | rfl | rfl <;> simp

/-! ## The contexts of the executor -/

/-- **What every context in the table is like**, whatever has failed: it has run nothing, one slot and one buffer per
shard, and a word count exactly for the shards that are recorded. -/
structure StagedContext.WellFormed (staged : StagedContext) : Prop where
  opened : staged.context.finalized = false
  slots : staged.context.stagedShards.length = staged.shardCount
  buffers : staged.context.deviceShards.length = staged.shardCount
  counts : staged.context.wordCounts = wordCountsOf staged.context.stagedShards

def StagedContext.fresh (shardCount : Nat) : StagedContext := ⟨shardCount, .ofSlots (List.replicate shardCount none)⟩

theorem StagedContext.wellFormed_fresh (shardCount : Nat) : (fresh shardCount).WellFormed :=
  ⟨rfl, by simp [fresh, DeviceShardStagingContext.ofSlots], by simp [fresh, DeviceShardStagingContext.ofSlots], rfl⟩

theorem createDeviceShardStagingContextCuda_eq_ok {dev : Device} {n : Nat} {context : DeviceShardStagingContext} :
    createDeviceShardStagingContextCuda dev n = .ok context ↔
      n ≠ 0 ∧ dev.fails .getDevice = none ∧ dev.fails .streamCreate = none ∧
      (StagedContext.fresh n).context = context := by
  unfold createDeviceShardStagingContextCuda
  by_cases hn : n = 0
  · simp [hn]
  rw [if_neg hn]
  rcases forEach_check dev [.getDevice, .streamCreate] with ⟨hok, hall⟩ | ⟨text, herr, call, hcall, hfail⟩
  · rw [hok]
    simp only [List.forall_mem_cons] at hall
    simp [hn, hall.1, hall.2.1, StagedContext.fresh, DeviceShardStagingContext.ofSlots, wordCountsOf]
  · rw [herr]
    simp only [List.mem_cons, List.not_mem_nil, or_false] at hcall
    rcases hcall with rfl | rfl <;> simp [hfail]

theorem StagedContext.WellFormed.staged {staged : StagedContext} (h : staged.WellFormed) (shardId : Nat)
    (shard : WordShard) {buffers : DeviceMemory} (hb : buffers.length = staged.context.deviceShards.length) :
    ({ staged with context := { staged.context.withHostCopy shardId shard with deviceShards := buffers } } :
      StagedContext).WellFormed := by
  refine ⟨h.opened, ?_, hb.trans h.buffers, ?_⟩
  · show (staged.context.stagedShards.set shardId (some shard)).length = staged.shardCount
    rw [List.length_set, h.slots]
  · show staged.context.wordCounts.set shardId (some shard.length) =
      wordCountsOf (staged.context.stagedShards.set shardId (some shard))
    rw [wordCountsOf_set, h.counts]

theorem StagedContext.WellFormed.stageDecodeShardCuda {staged : StagedContext} (h : staged.WellFormed) (dev : Device)
    (shardId : Nat) (shard : WordShard) :
    ({ staged with context := (CodedLLM.stageDecodeShardCuda dev staged.context shardId shard).state } :
      StagedContext).WellFormed := by
  by_cases hadm : staged.context.Admits shardId shard
  · rcases stageDecodeShardCuda_admitted dev hadm with
      ⟨text, -, heq⟩ | ⟨-, text, -, heq⟩ | ⟨-, -, -, buffer, text, heq⟩ | ⟨-, -, -, heq⟩
    · rw [heq]
      exact h
    · rw [heq]
      exact h.staged shardId shard rfl
    · rw [heq]
      exact h.staged shardId shard List.length_set
    · rw [heq]
      exact h.staged shardId shard List.length_set
  · obtain ⟨e, heq, -⟩ := stageDecodeShardCuda_refused dev hadm
    rw [heq]
    exact h

namespace Executor

def ContextsWellFormed (s : Executor) : Prop := ∀ r staged, s.stagedContexts r = some staged → staged.WellFormed

theorem ContextsWellFormed.setStaged {s : Executor} (h : s.ContextsWellFormed) {requestId : Nat}
    {context : Option StagedContext} (hc : ∀ staged, context = some staged → staged.WellFormed) :
    (s.setStaged requestId context).ContextsWellFormed := by
  intro r staged hr
  simp only [Executor.setStaged, Function.update_apply] at hr
  split at hr
  · exact hc staged hr
  · exact h r staged hr

theorem stageInto_state (s : Executor) (dev : Device) (requestId : Nat) (staged : StagedContext) (shardId : Nat)
    (payload : WordShard) : (s.stageInto dev requestId staged shardId payload).state =
      s.setStaged requestId
        (some { staged with context := (stageDecodeShardCuda dev staged.context shardId payload).state }) := by
  unfold stageInto
  cases stageDecodeShardCuda dev staged.context shardId payload <;> rfl

theorem stageShard_wellFormed {s : Executor} (h : s.ContextsWellFormed) (dev : Device) (requestId shardCount shardId :
    Nat)
    (payload : WordShard) : (s.stageShard dev requestId shardCount shardId payload).state.ContextsWellFormed := by
  have hinto : ∀ staged : StagedContext, staged.WellFormed →
      (s.stageInto dev requestId staged shardId payload).state.ContextsWellFormed := by
    intro staged hst
    rw [stageInto_state]
    refine h.setStaged (fun staged' heq => ?_)
    rw [← Option.some.inj heq]
    exact hst.stageDecodeShardCuda dev shardId payload
  unfold stageShard
  split
  · exact h
  cases hs : s.stagedContexts requestId with
  | none =>
    cases hc : createDeviceShardStagingContextCuda dev shardCount with
    | error e => exact h
    | ok context =>
      obtain ⟨-, -, -, rfl⟩ := createDeviceShardStagingContextCuda_eq_ok.1 hc
      exact hinto _ (StagedContext.wellFormed_fresh shardCount)
  | some staged =>
    simp only
    split
    · exact h
    · exact hinto staged (h requestId staged hs)

theorem submit_wellFormed {s : Executor} (h : s.ContextsWellFormed) (env : SubmitEnv) (requestId : Nat)
    (plan : DecodePlan)
    (shards : ShardSlots) (completion : Bool) :
    (s.submit env requestId plan shards completion).1.ContextsWellFormed := by
  have hnone : (s.setStaged requestId none).ContextsWellFormed := h.setStaged (fun _ heq => by cases heq)
  unfold submit
  split
  · exact h
  split
  · exact hnone
  split
  · split
    · exact hnone
    · exact hnone
  · split
    · exact h
    · exact h

theorem step_wellFormed (s : Executor) (a : Action) (s' : Executor) (h : s.ContextsWellFormed)
    (hs : step s a = some s') : s'.ContextsWellFormed := by
  have hnone : ∀ r, (s.setStaged r none).ContextsWellFormed := fun r => h.setStaged (fun _ heq => by cases heq)
  cases a with
  | stageShard dev requestId shardCount shardId payload =>
    obtain rfl := Option.some.inj hs
    exact stageShard_wellFormed h dev requestId shardCount shardId payload
  | submit env requestId plan shards completion =>
    obtain rfl := Option.some.inj hs
    exact submit_wellFormed h env requestId plan shards completion
  | cancel requestId =>
    obtain rfl := Option.some.inj hs
    rcases s.cancel_spec requestId with ⟨_, _, _, _, _, heq⟩ | ⟨_, _, heq⟩ | ⟨_, _, heq⟩
    · rw [heq]
      exact hnone requestId
    · rw [heq]
      exact hnone requestId
    · rw [heq]
      exact hnone requestId
  | _ =>
    intro r staged hr
    rw [step_stagedContexts hs (by simp [Action.staging]) (by simp)] at hr
    exact h r staged hr

theorem run_wellFormed {concurrencyLimit maxQueueDepth : UInt64} {cost : Int} {s₀ s : Executor} {as : List Action}
    (hmake : make concurrencyLimit maxQueueDepth cost = .ok s₀) (hrun : run step s₀ as = some s) :
    s.ContextsWellFormed := by
  refine run_inv step_wellFormed as s₀ s (fun r staged hr => ?_) hrun
  obtain ⟨-, -, -, heq⟩ := make_ok hmake
  rw [heq] at hr
  cases hr

/-! ## Retrying -/

def recorded (s : Executor) (requestId shardId : Nat) : Option WordShard :=
  (s.stagedContexts requestId).bind (fun staged => slotAt staged.context.stagedShards shardId)

/-- The context `Submit` gives a task of the request: the staged one, or one it makes from the host slots. -/
def taskContext (s : Executor) (env : SubmitEnv) (requestId : Nat) (shards : ShardSlots) :
    Except Exn DeviceShardStagingContext :=
  match s.stagedContexts requestId with
  | some staged =>
    if staged.shardCount ≠ shards.length then
      .error (.invalidArgument "Submitted shards must match the staged shard-slot count")
    else .ok staged.context
  | none => stagePresent env shards

theorem submit_taskContext {s : Executor} {env : SubmitEnv} {requestId : Nat} {plan : DecodePlan} {shards : ShardSlots}
    (h : (s.submit env requestId plan shards true).2 = .ok true) :
    ∃ context, s.taskContext env requestId shards = .ok context ∧
      (s.submit env requestId plan shards true).1.queue =
        s.queue ++ [⟨requestId, plan, shards, context, env.enqueuedAt, s.tickets⟩] := by
  unfold submit at h ⊢
  unfold taskContext
  rw [if_neg (by simp)] at h ⊢
  split at h
  · cases h
  rename_i hopen
  rw [if_neg hopen]
  cases hs : s.stagedContexts requestId with
  | some staged =>
    simp only [hs] at h ⊢
    split at h
    · cases h
    · rename_i hcount
      rw [if_neg hcount, if_neg hcount]
      exact ⟨_, rfl, rfl⟩
  | none =>
    simp only [hs] at h ⊢
    cases hc : stagePresent env shards with
    | error e =>
      rw [hc] at h
      cases h
    | ok context => exact ⟨context, rfl, rfl⟩

/-- **What a failed upload should leave** of `s`: the same shards recorded, a retry that succeeds, and no task that is
rejected for a mismatch although its host slots would have matched before. -/
structure Retryable (s s' : Executor) (requestId shardCount shardId : Nat) (payload : WordShard) : Prop where
  recorded : ∀ i, s'.recorded requestId i = s.recorded requestId i
  retry : ∀ dev : Device, dev.Healthy → ∃ s'', s'.stageShard dev requestId shardCount shardId payload = .returns s''
  noMismatch : ∀ (env : SubmitEnv) (shards : ShardSlots) (context context' : DeviceShardStagingContext),
    env.create.Healthy → (∀ i, (env.stage i).Healthy) → s.taskContext env requestId shards = .ok context →
    context.MatchesHost shards → s'.taskContext env requestId shards = .ok context' → context'.MatchesHost shards

def stagedOr (s : Executor) (requestId shardCount : Nat) : StagedContext :=
  (s.stagedContexts requestId).getD (.fresh shardCount)

theorem stagedOr_of_some {s : Executor} {requestId : Nat} {staged : StagedContext}
    (hs : s.stagedContexts requestId = some staged) (shardCount : Nat) : s.stagedOr requestId shardCount = staged := by
  rw [stagedOr, hs, Option.getD_some]

theorem stagedOr_of_none {s : Executor} {requestId : Nat} (hs : s.stagedContexts requestId = none) (shardCount : Nat) :
    s.stagedOr requestId shardCount = .fresh shardCount := by
  rw [stagedOr, hs, Option.getD_none]

/-- **The upload begins**: the request has no task, its shards have the slot count of its context, and the context
admits the shard. -/
def UploadBegins (s : Executor) (requestId shardCount shardId : Nat) (payload : WordShard) : Prop :=
  (s.stopping = false ∧ requestId ∉ s.runningRequests ∧ s.hasQueuedRequest requestId = false) ∧
    (∀ staged, s.stagedContexts requestId = some staged → staged.shardCount = shardCount) ∧
    (s.stagedOr requestId shardCount).context.Admits shardId payload

theorem stageShard_staged {s : Executor} {requestId shardCount : Nat} {staged : StagedContext}
    (hfree : s.stopping = false ∧ requestId ∉ s.runningRequests ∧ s.hasQueuedRequest requestId = false)
    (hs : s.stagedContexts requestId = some staged) (hcount : staged.shardCount = shardCount) (dev : Device)
    (shardId : Nat) (payload : WordShard) :
    s.stageShard dev requestId shardCount shardId payload = s.stageInto dev requestId staged shardId payload := by
  obtain ⟨hopen, hrun, hqueue⟩ := hfree
  unfold stageShard
  rw [if_neg (by simp [hopen, hrun, hqueue]), hs]
  simp only [hcount, ne_eq, not_true_eq_false, if_false]

section Retry

variable {s : Executor} {dev : Device} {requestId shardCount shardId : Nat} {payload : WordShard}
  (hcreated : s.stagedContexts requestId = none → dev.fails .getDevice = none ∧ dev.fails .streamCreate = none)

include hcreated

theorem stageShard_begins (h : s.UploadBegins requestId shardCount shardId payload) :
    s.stageShard dev requestId shardCount shardId payload =
      s.stageInto dev requestId (s.stagedOr requestId shardCount) shardId payload := by
  obtain ⟨hfree, hcount, hadm⟩ := h
  cases hs : s.stagedContexts requestId with
  | none =>
    have hor := stagedOr_of_none hs shardCount
    rw [hor] at hadm ⊢
    have hpos : shardCount ≠ 0 := by
      have := hadm.2.1
      rw [(StagedContext.wellFormed_fresh shardCount).buffers, StagedContext.fresh] at this
      simp only at this
      omega
    unfold stageShard
    rw [if_neg (by simp [hfree]), hs,
      createDeviceShardStagingContextCuda_eq_ok.2 ⟨hpos, (hcreated hs).1, (hcreated hs).2, rfl⟩]
    rfl
  | some staged =>
    have hor := stagedOr_of_some hs shardCount
    rw [hor, stageShard_staged hfree hs (hcount staged hs)]

theorem stageShard_not_begins (h : ¬ s.UploadBegins requestId shardCount shardId payload) (s' : Executor)
    (text : String) : s.stageShard dev requestId shardCount shardId payload ≠ .throws s' (.runtimeError text) := by
  have hinto : ∀ staged : StagedContext, ¬ staged.context.Admits shardId payload →
      s.stageInto dev requestId staged shardId payload ≠ .throws s' (.runtimeError text) := by
    intro staged hadm heq
    obtain ⟨e, he, hno⟩ := stageDecodeShardCuda_refused dev hadm
    unfold stageInto at heq
    rw [he] at heq
    injection heq with _ heq
    exact hno text heq
  intro heq
  unfold stageShard at heq
  split at heq
  · cases heq
  rename_i hfree
  simp only [not_or, Bool.not_eq_true] at hfree
  cases hs : s.stagedContexts requestId with
  | none =>
    have hor := stagedOr_of_none hs shardCount
    simp only [hs] at heq
    by_cases hpos : shardCount = 0
    · simp [createDeviceShardStagingContextCuda, hpos] at heq
    · rw [createDeviceShardStagingContextCuda_eq_ok.2 ⟨hpos, (hcreated hs).1, (hcreated hs).2, rfl⟩] at heq
      refine hinto (.fresh shardCount) (fun hadm => h ⟨hfree, fun staged hst => ?_, hor ▸ hadm⟩) heq
      rw [hs] at hst
      cases hst
  | some staged =>
    have hor := stagedOr_of_some hs shardCount
    simp only [hs] at heq
    split at heq
    · cases heq
    · rename_i hcount
      refine hinto staged (fun hadm => h ⟨hfree, fun staged' hst => ?_, hor ▸ hadm⟩) heq
      rw [hs] at hst
      rw [← Option.some.inj hst]
      exact not_not.1 hcount

end Retry

theorem retryable_self {s : Executor} {requestId shardCount shardId : Nat} {payload : WordShard}
    (h : s.UploadBegins requestId shardCount shardId payload) : Retryable s s requestId shardCount shardId payload := by
  refine ⟨fun _ => rfl, fun dev hdev => ?_, fun env shards context context' _ _ hctx hmatch hctx' => ?_⟩
  · rw [stageShard_begins (fun _ => ⟨hdev _, hdev _⟩) h, stageInto]
    rcases stageDecodeShardCuda_admitted dev h.2.2 with
      ⟨text, hfail, -⟩ | ⟨-, text, hfail, -⟩ | ⟨-, -, ⟨call, -, hfail⟩, -⟩ | ⟨-, -, -, heq⟩
    · rw [hdev] at hfail
      cases hfail
    · rw [hdev] at hfail
      cases hfail
    · exact absurd (hdev call) hfail
    · rw [heq]
      exact ⟨_, rfl⟩
  · rw [hctx] at hctx'
    rw [← Except.ok.inj hctx']
    exact hmatch

theorem recorded_setStaged (s : Executor) (requestId : Nat) (staged : StagedContext) (i : Nat) :
    (s.setStaged requestId (some staged)).recorded requestId i = slotAt staged.context.stagedShards i := by
  simp [recorded, setStaged]

/-- **A new context without shards is in the way**: `Submit` would have staged the host slots itself. -/
theorem not_retryable_fresh {s : Executor} {requestId shardCount shardId : Nat} {payload : WordShard}
    (hnone : s.stagedContexts requestId = none) (hpos : shardCount ≠ 0) :
    ¬ Retryable s (s.setStaged requestId (some (.fresh shardCount))) requestId shardCount shardId payload := by
  intro h
  -- host slots with one shard
  let shards : ShardSlots := (List.replicate shardCount none).set 0 (some [0])
  have hlen : shards.length = shardCount := by simp [shards]
  have hslot : ∀ i, slotAt shards i = if i = 0 then some [0] else none := by
    intro i
    rw [slotAt_set (by simp; omega), slotAt, List.getElem?_replicate]
    by_cases hi : i = 0
    · simp [hi]
    · simp only [hi, if_false]
      split <;> rfl
  have hone : ∀ i w, slotAt shards i = some w → i = 0 ∧ w = [0] := by
    intro i w hw
    rw [hslot i] at hw
    split at hw
    · rename_i hi
      exact ⟨hi, (Option.some.inj hw).symm⟩
    · cases hw
  have hctx : stagePresent ⟨serialDevice, fun _ => serialDevice, 0⟩ shards = .ok (.ofSlots shards) := by
    refine stagePresent_ok (fun _ => rfl) (fun _ _ => rfl) ?_ (fun i w hw => ?_) (fun i w hw => ?_)
    · exact List.length_pos_iff.1 (by omega)
    · rw [(hone i w hw).1]
      omega
    · rw [(hone i w hw).2]
      simp
  have hbefore : s.taskContext ⟨serialDevice, fun _ => serialDevice, 0⟩ requestId shards = .ok (.ofSlots shards) := by
    rw [taskContext, hnone]
    exact hctx
  have hafter : (s.setStaged requestId (some (.fresh shardCount))).taskContext ⟨serialDevice, fun _ => serialDevice, 0⟩
      requestId shards = .ok (StagedContext.fresh shardCount).context := by
    simp [taskContext, setStaged, hlen, StagedContext.fresh]
  have hmatch := h.noMismatch _ shards _ _ (fun _ => rfl) (fun _ _ => rfl) hbefore (fun _ _ => rfl) hafter 0
    (by rw [(StagedContext.wellFormed_fresh shardCount).buffers]; exact Nat.pos_of_ne_zero hpos)
  rw [hslot 0, if_pos rfl] at hmatch
  simp [StagedContext.fresh, DeviceShardStagingContext.ofSlots, slotAt, Nat.pos_of_ne_zero hpos] at hmatch

/-- **A buffer that stays is in the way**: the retry is refused. -/
theorem not_retryable_buffer {s : Executor} {requestId shardCount shardId : Nat} {payload : WordShard}
    {staged : StagedContext} (hfree : s.stopping = false ∧ requestId ∉ s.runningRequests ∧
    s.hasQueuedRequest requestId = false)
    (hcount : staged.shardCount = shardCount) (hbuffer : (slotAt staged.context.deviceShards shardId).isSome) :
    ¬ Retryable s (s.setStaged requestId (some staged)) requestId shardCount shardId payload := by
  intro h
  obtain ⟨s'', hret⟩ := h.retry serialDevice (fun _ => rfl)
  have hself : (s.setStaged requestId (some staged)).stagedContexts requestId = some staged := by
    simp [setStaged]
  have hnot : ¬ staged.context.Admits shardId payload := by
    rintro ⟨-, -, -, hempty⟩
    rw [hempty] at hbuffer
    cases hbuffer
  obtain ⟨e, he, -⟩ := stageDecodeShardCuda_refused serialDevice hnot
  have hfree' : (s.setStaged requestId (some staged)).stopping = false ∧
      requestId ∉ (s.setStaged requestId (some staged)).runningRequests ∧
      (s.setStaged requestId (some staged)).hasQueuedRequest requestId = false := hfree
  rw [stageShard_staged hfree' hself hcount, stageInto, he] at hret
  cases hret

theorem withHostCopy_self {staged : StagedContext} (hwf : staged.WellFormed) {shardId : Nat} {payload : WordShard}
    (h : slotAt staged.context.stagedShards shardId = some payload) :
    staged.context.withHostCopy shardId payload = staged.context := by
  have hset : staged.context.stagedShards.set shardId (some payload) = staged.context.stagedShards := by
    have hlt := lt_length_of_slotAt h
    refine slots_ext List.length_set (fun i => ?_)
    rw [slotAt_set hlt]
    split
    · rename_i hi
      rw [hi, h]
    · rfl
  have hcounts : staged.context.wordCounts.set shardId (some payload.length) = staged.context.wordCounts := by
    rw [hwf.counts, ← wordCountsOf_set, hset]
  rw [DeviceShardStagingContext.withHostCopy, hset, hcounts]

section Failures

variable {s : Executor} {requestId shardCount shardId : Nat} {payload : WordShard}

theorem UploadBegins.context (hb : s.UploadBegins requestId shardCount shardId payload) (hwf : s.ContextsWellFormed) :
    (s.stagedOr requestId shardCount).WellFormed ∧ (s.stagedOr requestId shardCount).shardCount = shardCount ∧
      shardId < shardCount := by
  obtain ⟨-, hcount, hadm⟩ := hb
  have hor : (s.stagedOr requestId shardCount).WellFormed ∧
      (s.stagedOr requestId shardCount).shardCount = shardCount := by
    cases hs : s.stagedContexts requestId with
    | none =>
      rw [stagedOr_of_none hs]
      exact ⟨StagedContext.wellFormed_fresh shardCount, rfl⟩
    | some staged =>
      rw [stagedOr_of_some hs]
      exact ⟨hwf requestId staged hs, hcount staged hs⟩
  refine ⟨hor.1, hor.2, ?_⟩
  have hlt := hadm.2.1
  rwa [hor.1.buffers, hor.2] at hlt

/-- **`cudaSetDevice` fails**: nothing is recorded, but the context may be new. -/
theorem retryable_setDevice_iff (hb : s.UploadBegins requestId shardCount shardId payload)
    (hwf : s.ContextsWellFormed) :
    Retryable s (s.setStaged requestId (some (s.stagedOr requestId shardCount))) requestId shardCount shardId payload ↔
      s.stagedContexts requestId ≠ none := by
  obtain ⟨-, -, hlt⟩ := hb.context hwf
  cases hs : s.stagedContexts requestId with
  | some staged =>
    rw [stagedOr_of_some hs, ← hs, setStaged_self]
    exact iff_of_true (retryable_self hb) (by simp [hs])
  | none =>
    rw [stagedOr_of_none hs]
    exact iff_of_false (not_retryable_fresh hs (Nat.ne_zero_of_lt hlt)) (by simp)

/-- **The allocation fails**: the host copy and the count are recorded. -/
theorem retryable_malloc_iff (hb : s.UploadBegins requestId shardCount shardId payload) (hwf : s.ContextsWellFormed) :
    Retryable s (s.setStaged requestId (some { s.stagedOr requestId shardCount with
        context := (s.stagedOr requestId shardCount).context.withHostCopy shardId payload }))
      requestId shardCount shardId payload ↔ s.recorded requestId shardId = some payload := by
  obtain ⟨hstaged, hshards, hlt⟩ := hb.context hwf
  constructor
  · intro h
    rw [← h.recorded shardId, recorded_setStaged]
    show slotAt ((s.stagedOr requestId shardCount).context.stagedShards.set shardId (some payload)) shardId =
        some payload
    rw [slotAt_set (by rw [hstaged.slots, hshards]; exact hlt), if_pos rfl]
  · intro hrec
    cases hs : s.stagedContexts requestId with
    | none =>
      rw [recorded, hs] at hrec
      cases hrec
    | some staged =>
      rw [recorded, hs] at hrec
      rw [stagedOr_of_some hs] at hstaged ⊢
      rw [withHostCopy_self hstaged hrec, ← hs, setStaged_self]
      exact retryable_self hb

end Failures

/-- **When a failed upload can be retried**, in a state whose contexts are well formed. -/
theorem retryable_iff {s : Executor} (hwf : s.ContextsWellFormed) {dev : Device} {requestId shardCount shardId : Nat}
    {payload : WordShard}
    (hcreated : s.stagedContexts requestId = none → dev.fails .getDevice = none ∧ dev.fails .streamCreate = none) :
    (∀ s' text, s.stageShard dev requestId shardCount shardId payload = .throws s' (.runtimeError text) →
      Retryable s s' requestId shardCount shardId payload) ↔
    (s.UploadBegins requestId shardCount shardId payload →
      (dev.fails .setDevice ≠ none ∧ s.stagedContexts requestId ≠ none) ∨
      (dev.fails .setDevice = none ∧ dev.fails (.malloc shardId) ≠ none ∧ s.recorded requestId shardId = some payload) ∨
      ∀ call ∈ .setDevice :: .malloc shardId :: uploadCalls shardId, dev.fails call = none) := by
  by_cases hb : s.UploadBegins requestId shardCount shardId payload
  · rw [stageShard_begins hcreated hb, stageInto]
    simp only [hb, true_implies]
    have hthrow : ∀ (s' : Executor) (text : String),
        (∀ s'' text', (.throws s' (.runtimeError text) : Outcome Executor) = .throws s'' (.runtimeError text') →
          Retryable s s'' requestId shardCount shardId payload) ↔
            Retryable s s' requestId shardCount shardId payload := by
      intro s' text
      refine ⟨fun h => h s' text rfl, fun h s'' text' heq => ?_⟩
      injection heq with heq
      rw [← heq]
      exact h
    rcases stageDecodeShardCuda_admitted dev hb.2.2 with
      ⟨text, hset, heq⟩ | ⟨hset, text, hmalloc, heq⟩ | ⟨hset, hmalloc, ⟨call, hcall, hfail⟩, buffer, text, heq⟩ |
      ⟨hset, hmalloc, hcalls, heq⟩
    · simp only [heq, hthrow, hset, List.forall_mem_cons, ne_eq, reduceCtorEq, not_false_eq_true, true_and, false_and,
        or_false]
      exact retryable_setDevice_iff hb hwf
    · simp only [heq, hthrow, hset, hmalloc, List.forall_mem_cons, ne_eq, reduceCtorEq, not_true_eq_false,
        not_false_eq_true, true_and, false_and, and_false, or_false, false_or]
      exact retryable_malloc_iff hb hwf
    · -- a later call: the buffer stays
      obtain ⟨hstaged, hshards, hlt⟩ := hb.context hwf
      have hnone : ¬ ∀ c ∈ CudaCall.setDevice :: .malloc shardId :: uploadCalls shardId, dev.fails c = none :=
        fun h => hfail (h call (by simp [hcall]))
      simp only [heq, hthrow, hset, hmalloc, hnone, ne_eq, not_true_eq_false, true_and, false_and, or_false, iff_false]
      refine not_retryable_buffer hb.1 hshards ?_
      show (slotAt ((s.stagedOr requestId shardCount).context.deviceShards.set shardId (some buffer)) shardId).isSome
      rw [slotAt_set (by rw [hstaged.buffers, hshards]; exact hlt), if_pos rfl]
      rfl
    · have hall : ∀ c ∈ CudaCall.setDevice :: .malloc shardId :: uploadCalls shardId, dev.fails c = none := by
        simpa [hset, hmalloc] using hcalls
      simp only [heq, reduceCtorEq, false_implies, implies_true, true_iff]
      exact .inr (.inr hall)
  · refine ⟨fun _ h => absurd h hb, fun _ s' text heq => ?_⟩
    exact absurd heq (stageShard_not_begins hcreated hb s' text)

/-- **When a failed upload can be retried**, in every state any interleaving of calls and worker steps leads to,
whatever has failed before: if `cudaSetDevice` fails and the request has a context already, if the allocation fails
and the same payload is recorded already, or if no call fails. -/
theorem failed_upload_retryable_iff (concurrencyLimit maxQueueDepth : UInt64) (cost : Int) (s₀ s : Executor)
    (as : List Action) (hmake : make concurrencyLimit maxQueueDepth cost = .ok s₀) (hrun : run step s₀ as = some s)
    (dev : Device) (requestId shardCount shardId : Nat) (payload : WordShard)
    (hcreated : s.stagedContexts requestId = none → dev.fails .getDevice = none ∧ dev.fails .streamCreate = none) :
    (∀ s' text, s.stageShard dev requestId shardCount shardId payload = .throws s' (.runtimeError text) →
      Retryable s s' requestId shardCount shardId payload) ↔
    (s.UploadBegins requestId shardCount shardId payload →
      (dev.fails .setDevice ≠ none ∧ s.stagedContexts requestId ≠ none) ∨
      (dev.fails .setDevice = none ∧ dev.fails (.malloc shardId) ≠ none ∧ s.recorded requestId shardId = some payload) ∨
      ∀ call ∈ .setDevice :: .malloc shardId :: uploadCalls shardId, dev.fails call = none) :=
  retryable_iff (run_wellFormed hmake hrun) hcreated

def failing (call : CudaCall) : Device :=
  { serialDevice with fails := fun c => if c = call then some "out of memory" else none }

def thrown (requestId shardId : Nat) : Outcome Executor → Option (Exn × Option WordShard)
  | .returns _ => none
  | .throws s e => some (e, s.recorded requestId shardId)

theorem thrown_eq_some {requestId shardId : Nat} {o : Outcome Executor} {e : Exn} {w : Option WordShard}
    (h : thrown requestId shardId o = some (e, w)) : ∃ s', o = .throws s' e ∧ s'.recorded requestId shardId = w := by
  cases o with
  | returns s' => cases h
  | throws s' e' =>
    obtain ⟨rfl, rfl⟩ := Prod.mk.inj (Option.some.inj h)
    exact ⟨s', rfl, rfl⟩

/-- Request 9 has shard 0 staged when `cudaSetDevice` fails for shard 1. -/
theorem failed_upload_retryable_iff_setDevice : ∃ s₀ s, make 1 1 5 = .ok s₀ ∧
    run step s₀ [.stageShard serialDevice 9 3 0 [5]] = some s ∧
    ∃ s', s.stageShard (failing .setDevice) 9 3 1 [6] = .throws s' (.runtimeError "out of memory") ∧
      Retryable s s' 9 3 1 [6] := by
  obtain ⟨s₀, s, hmake, hrun, hP⟩ := exists_run step id 1 1 5 [.stageShard serialDevice 9 3 0 [5]]
    (fun _ s => (s.stagedContexts 9).isSome ∧
      thrown 9 1 (s.stageShard (failing .setDevice) 9 3 1 [6]) = some (.runtimeError "out of memory", none))
    (by decide +kernel)
  obtain ⟨hsome, hthrown⟩ := of_decide_eq_true hP
  obtain ⟨s', hs', -⟩ := thrown_eq_some hthrown
  have hne : s.stagedContexts 9 ≠ none := Option.isSome_iff_ne_none.1 hsome
  have h := failed_upload_retryable_iff 1 1 5 s₀ s _ hmake hrun (failing .setDevice) 9 3 1 [6] (fun hn => absurd hn hne)
  exact ⟨s₀, s, hmake, hrun, s', hs', h.2 (fun _ => .inl ⟨by decide, hne⟩) s' _ hs'⟩

/-- If the allocation fails, shard 1 is recorded although it is not there, so that a task with the host slots of
request 9 is rejected; if the copy fails, the retry is refused too. -/
theorem failed_upload_sticks : ∃ s₀ s, make 1 1 5 = .ok s₀ ∧ run step s₀ [.stageShard serialDevice 9 3 0 [5]] = some s ∧
    (∃ s', s.stageShard (failing (.malloc 1)) 9 3 1 [6] = .throws s' (.runtimeError "out of memory") ∧
      s.recorded 9 1 = none ∧ s'.recorded 9 1 = some [6] ∧ ¬ Retryable s s' 9 3 1 [6]) ∧
    ∃ s' s'', s.stageShard (failing (.upload 1)) 9 3 1 [6] = .throws s' (.runtimeError "out of memory") ∧
      s'.stageShard serialDevice 9 3 1 [6] = .throws s'' (.invalidArgument "Staged shard is already present") := by
  obtain ⟨s₀, s, hmake, hrun, hP⟩ := exists_run step id 1 1 5 [.stageShard serialDevice 9 3 0 [5]]
    (fun _ s => s.recorded 9 1 = none ∧
      thrown 9 1 (s.stageShard (failing (.malloc 1)) 9 3 1 [6]) = some (.runtimeError "out of memory", some [6]) ∧
      thrown 9 1 (s.stageShard (failing (.upload 1)) 9 3 1 [6]) = some (.runtimeError "out of memory", some [6]) ∧
      thrown 9 1 ((s.stageShard (failing (.upload 1)) 9 3 1 [6]).state.stageShard serialDevice 9 3 1 [6]) =
        some (.invalidArgument "Staged shard is already present", some [6]))
    (by decide +kernel)
  obtain ⟨hbefore, hmalloc, hupload, hretry⟩ := of_decide_eq_true hP
  obtain ⟨s', hs', hrec⟩ := thrown_eq_some hmalloc
  obtain ⟨t, ht, -⟩ := thrown_eq_some hupload
  rw [ht, Outcome.state] at hretry
  obtain ⟨t', ht', -⟩ := thrown_eq_some hretry
  refine ⟨s₀, s, hmake, hrun, ⟨s', hs', hbefore, hrec, fun h => ?_⟩, t, t', ht, ht'⟩
  have hsame := h.recorded 1
  rw [hrec, hbefore] at hsame
  cases hsame

end Executor

end CodedLLM
