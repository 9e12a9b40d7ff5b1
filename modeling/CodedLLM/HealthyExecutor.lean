import CodedLLM.ExecutorRuns
import CodedLLM.Serving
/-!
# HealthyExecutor — the executor when no CUDA call fails

Staging then follows the slots of the request: a context that took every shard as it arrived, or that `Submit` made,
is `DeviceShardStagingContext.ofSlots` of those slots.  A task with the context of its own slots and a sound plan runs
to all the originals, and the executor keeps its tasks so.
-/
namespace CodedLLM

open Runs

namespace Executor

/-- **The staged context follows the slots**: empty slots have none, and any other slots have theirs. -/
def StagedFor (slots : ShardSlots) (staged : Option StagedContext) : Prop :=
  (staged = none ∧ ∀ i, slotAt slots i = none) ∨ staged = some ⟨slots.length, .ofSlots slots⟩

theorem stageShard_ok {s : Executor} {dev : Device} (hdev : dev.Healthy) {requestId shardId : Nat} {payload : WordShard}
    {slots : ShardSlots} (hopen : s.stopping = false) (hrun : requestId ∉ s.runningRequests)
    (hqueue : s.hasQueuedRequest requestId = false) (hstaged : StagedFor slots (s.stagedContexts requestId))
    (hlt : shardId < slots.length) (hne : payload ≠ []) (hempty : slotAt slots shardId = none) :
    s.stageShard dev requestId slots.length shardId payload =
      .returns (s.setStaged requestId (some ⟨slots.length, .ofSlots (slots.set shardId (some payload))⟩)) := by
  unfold stageShard
  rw [if_neg (by simp [hopen, hrun, hqueue])]
  have hinto : s.stageInto dev requestId ⟨slots.length, .ofSlots slots⟩ shardId payload =
      .returns (s.setStaged requestId (some ⟨slots.length, .ofSlots (slots.set shardId (some payload))⟩)) := by
    unfold stageInto
    simp only [stageDecodeShardCuda_ok hdev hlt hne hempty]
  rcases hstaged with ⟨hnone, hall⟩ | hsome
  · have hslots : List.replicate slots.length none = slots := by
      refine slots_ext (by simp) (fun i => ?_)
      rw [hall i, slotAt, List.getElem?_replicate]
      split <;> rfl
    rw [hnone]
    simp only [createDeviceShardStagingContextCuda_ok hdev (show slots.length ≠ 0 by omega), hslots]
    exact hinto
  · rw [hsome]
    simp only [ne_eq, not_true_eq_false, if_false]
    exact hinto

def firstSlots (shards : ShardSlots) (m : Nat) : ShardSlots := shards.take m ++ List.replicate (shards.length - m) none

theorem length_firstSlots {shards : ShardSlots} {m : Nat} (hm : m ≤ shards.length) :
    (firstSlots shards m).length = shards.length := by
  rw [firstSlots, List.length_append, List.length_take, List.length_replicate]
  omega

theorem slotAt_firstSlots {shards : ShardSlots} {m : Nat} (hm : m ≤ shards.length) (i : Nat) :
    slotAt (firstSlots shards m) i = if i < m then slotAt shards i else none := by
  unfold slotAt firstSlots
  by_cases hi : i < m
  · rw [List.getElem?_append_left (by rw [List.length_take]; omega), List.getElem?_take_of_lt hi, if_pos hi]
  · rw [List.getElem?_append_right (by rw [List.length_take]; omega), List.getElem?_replicate, if_neg hi]
    split <;> rfl

theorem firstSlots_succ {shards : ShardSlots} {m : Nat} (hm : m < shards.length) :
    firstSlots shards (m + 1) = (firstSlots shards m).set m (slotAt shards m) := by
  have hm' : m ≤ shards.length := Nat.le_of_lt hm
  have hbound : m < (firstSlots shards m).length := by rw [length_firstSlots hm']; exact hm
  refine slots_ext (by rw [List.length_set, length_firstSlots hm, length_firstSlots hm']) (fun i => ?_)
  rw [slotAt_firstSlots hm, slotAt_set hbound, slotAt_firstSlots hm']
  by_cases him : i = m
  · rw [if_pos him, if_pos (by omega), him]
  · simp only [him, if_false, show i < m + 1 ↔ i < m by omega]

theorem stagePresent_round {env : SubmitEnv} (hstage : ∀ shardId, (env.stage shardId).Healthy) {shards : ShardSlots}
    (hids : ∀ i w, slotAt shards i = some w → i < 2 ^ 32) (hwords : ∀ i w, slotAt shards i = some w → w ≠ []) {m : Nat}
    (hm : m < shards.length) :
    (match slotAt shards m with
      | none => .ok (.ofSlots (firstSlots shards m))
      | some shard =>
        match stageDecodeShardCuda (env.stage m) (.ofSlots (firstSlots shards m)) (toShardId m) shard with
        | .throws _ e => .error e
        | .returns context => .ok context : Except Exn DeviceShardStagingContext) =
      .ok (.ofSlots (firstSlots shards (m + 1))) := by
  have hm' : m ≤ shards.length := Nat.le_of_lt hm
  have hbound : m < (firstSlots shards m).length := by rw [length_firstSlots hm']; exact hm
  have hslot : slotAt (firstSlots shards m) m = none := by rw [slotAt_firstSlots hm', if_neg (Nat.lt_irrefl m)]
  rw [firstSlots_succ hm]
  cases hw : slotAt shards m with
  | none =>
    have hsame : (firstSlots shards m).set m none = firstSlots shards m := by
      refine slots_ext List.length_set (fun i => ?_)
      rw [slotAt_set hbound]
      split
      · rename_i him
        rw [him, hslot]
      · rfl
    rw [hsame]
  | some w =>
    have hid : toShardId m = m := Nat.mod_eq_of_lt (hids m w hw)
    simp only [hid, stageDecodeShardCuda_ok (hstage m) hbound (hwords m w hw) hslot]

theorem stagePresent_ok {env : SubmitEnv} (hcreate : env.create.Healthy)
    (hstage : ∀ shardId, (env.stage shardId).Healthy)
    {shards : ShardSlots} (hne : shards ≠ []) (hids : ∀ i w, slotAt shards i = some w → i < 2 ^ 32)
    (hwords : ∀ i w, slotAt shards i = some w → w ≠ []) : stagePresent env shards = .ok (.ofSlots shards) := by
  have hlen : shards.length ≠ 0 := fun h => hne (List.eq_nil_of_length_eq_zero h)
  have hfirst : firstSlots shards 0 = List.replicate shards.length none := by simp [firstSlots]
  have hlast : firstSlots shards shards.length = shards := by simp [firstSlots]
  unfold stagePresent
  rw [createDeviceShardStagingContextCuda_ok hcreate hlen, ← hfirst]
  -- after `m` rounds the first `m` slots are staged
  refine (loop_range (g := fun m => DeviceShardStagingContext.ofSlots (firstSlots shards m)) shards.length
    (fun m hm => stagePresent_round hstage hids hwords hm)).trans ?_
  rw [hlast]

/-- **A task worth running**: its context holds its own slots, and the plan rebuilds the request from them. -/
structure Matched {g : BipartiteGraph} (e : Encoded g) (plan : DecodePlan) (shards : ShardSlots)
    (context : DeviceShardStagingContext) : Prop where
  context : context = .ofSlots shards
  sound : e.Sound plan shards
  words : ∀ i w, slotAt shards i = some w → w ≠ []

theorem length_of_sound {g : BipartiteGraph} {e : Encoded g} {plan : DecodePlan} {shards : ShardSlots}
    (h : e.Sound plan shards) : shards.length = g.systematicShardCount + g.parityShardCount := by
  obtain ⟨shards', hcpu, hfull, -⟩ := h.executes
  have hex := ((executeDecodePlanCpu_returns plan shards shards').1 hcpu).2
  rw [← ((executeOperations_returns _ _ _).1 hex).2.1]
  exact hfull.1

theorem words_of_sound {g : BipartiteGraph} (hg : g.Valid) {e : Encoded g} {plan : DecodePlan} {shards : ShardSlots}
    (h : e.Sound plan shards) : ∀ i w, slotAt shards i = some w → w ≠ [] := by
  intro i w hw hnil
  have hi := lt_length_of_slotAt hw
  rw [length_of_sound h] at hi
  have hp := h.genuine i w hw
  rw [e.payload_codeword hg hi, Option.some.injEq] at hp
  have hlen := length_codeword hg e.systematic i
  rw [hp, hnil, List.length_nil] at hlen
  exact Nat.ne_of_lt e.systematic.pos hlen

theorem matched_of_submit {g : BipartiteGraph} (hg : g.Valid) {e : Encoded g} {plan : DecodePlan} {shards : ShardSlots}
    (h : e.Sound plan shards) {env : SubmitEnv} (hcreate : env.create.Healthy)
    (hstage : ∀ shardId, (env.stage shardId).Healthy) {context : DeviceShardStagingContext}
    (hc : context = .ofSlots shards ∨ stagePresent env shards = .ok context) : Matched e plan shards context := by
  have hwords := words_of_sound hg h
  refine ⟨?_, h, hwords⟩
  rcases hc with hc | hc
  · exact hc
  · have hlen := length_of_sound h
    have hne : shards ≠ [] := by
      intro hnil
      rw [hnil, List.length_nil] at hlen
      have := hg.systematicPos
      omega
    have hids : ∀ i w, slotAt shards i = some w → i < 2 ^ 32 := by
      intro i w hw
      have := lt_length_of_slotAt hw
      have := hg.total
      omega
    rw [stagePresent_ok hcreate hstage hne hids hwords] at hc
    exact (Except.ok.inj hc).symm

theorem Matched.runs {g : BipartiteGraph} {e : Encoded g} {plan : DecodePlan} {shards : ShardSlots}
    {context : DeviceShardStagingContext} (h : Matched e plan shards context) {dev : Device} (hdev : dev.Healthy) :
    ∃ context' shards', runStagedDecodePlanCuda dev context plan shards = .returns (context', shards') ∧
    e.Full shards' := by
  obtain ⟨shards', hcpu, hfull, -⟩ := h.sound.executes
  obtain ⟨context', hrun⟩ := (runStagedDecodePlanCuda_agrees hdev plan h.words).1 shards' hcpu
  rw [h.context]
  exact ⟨context', shards', hrun, hfull⟩

theorem Matched.executeTask {g : BipartiteGraph} {e : Encoded g} {task : ExecutorTask}
    (h : Matched e task.plan task.shards task.context) {env : ExecuteEnv} (hdev : env.dev.Healthy) :
    (executeTask env task).2.success = true ∧ e.Full (executeTask env task).2.shards := by
  obtain ⟨context', shards', hrun, hfull⟩ := h.runs hdev
  unfold Executor.executeTask
  simp only [hrun]
  exact ⟨trivial, hfull⟩

/-- The tasks and results a worker may have: `submitted` are the requests `Submit` was called for. -/
def Sane {g : BipartiteGraph} (data : Nat → Encoded g) (submitted : List Nat) : WorkerPhase → Prop
  | .waiting => True
  | .executing task => Matched (data task.requestId) task.plan task.shards task.context ∧ task.requestId ∈ submitted
  | .executed task result =>
    (result.success = true ∧ (data task.requestId).Full result.shards) ∧ task.requestId ∈ submitted
  | .delivering task result =>
    (result.success = true ∧ (data task.requestId).Full result.shards) ∧ task.requestId ∈ submitted
  | .finishing task _ => task.requestId ∈ submitted
  | .exited => True

theorem Sane.held {g : BipartiteGraph} {data : Nat → Encoded g} {submitted : List Nat} {w : WorkerPhase}
    (h : Sane data submitted w) {task : ExecutorTask} (hw : w.held = some task) : task.requestId ∈ submitted := by
  cases w with
  | waiting => cases hw
  | exited => cases hw
  | finishing x cancelled =>
    obtain rfl := Option.some.inj hw
    exact h
  | executing x =>
    obtain rfl := Option.some.inj hw
    exact h.2
  | executed x result =>
    obtain rfl := Option.some.inj hw
    exact h.2
  | delivering x result =>
    obtain rfl := Option.some.inj hw
    exact h.2

theorem Sane.mono {g : BipartiteGraph} {data : Nat → Encoded g} {submitted submitted' : List Nat}
    (hsub : submitted ⊆ submitted') {w : WorkerPhase} (h : Sane data submitted w) : Sane data submitted' w := by
  cases w with
  | waiting => trivial
  | exited => trivial
  | finishing x cancelled => exact hsub h
  | executing x => exact ⟨h.1, hsub h.2⟩
  | executed x result => exact ⟨h.1, hsub h.2⟩
  | delivering x result => exact ⟨h.1, hsub h.2⟩

/-- **Every task in the executor is worth running** and was submitted. -/
structure Healthy {g : BipartiteGraph} (data : Nat → Encoded g) (submitted : List Nat) (s : Executor) : Prop where
  books : Books s
  serving : s.stopping = false
  queue : ∀ task ∈ s.queue,
    Matched (data task.requestId) task.plan task.shards task.context ∧ task.requestId ∈ submitted
  workers : ∀ w ∈ s.workers, Sane data submitted w

theorem Healthy.mono {g : BipartiteGraph} {data : Nat → Encoded g} {submitted submitted' : List Nat} {s : Executor}
    (h : Healthy data submitted s) (hsub : submitted ⊆ submitted') : Healthy data submitted' s :=
  ⟨h.books, h.serving, fun task hm => ⟨(h.queue task hm).1, hsub (h.queue task hm).2⟩,
    fun w hw => (h.workers w hw).mono hsub⟩

theorem Healthy.free {g : BipartiteGraph} {data : Nat → Encoded g} {submitted : List Nat} {s : Executor}
    (h : Healthy data submitted s) {r : Nat} (hr : r ∉ submitted) :
    r ∉ s.runningRequests ∧ s.hasQueuedRequest r = false := by
  constructor
  · intro hm
    obtain ⟨task, ht, rfl⟩ := List.mem_map.1 ((h.books.running r).1 hm)
    obtain ⟨w, hw, hheld⟩ := List.mem_filterMap.1 ht
    exact hr ((h.workers w hw).held hheld)
  · rw [← Bool.not_eq_true, s.hasQueuedRequest_iff r]
    intro hm
    obtain ⟨task, ht, rfl⟩ := List.mem_map.1 hm
    exact hr (h.queue task ht).2

/-- **The executor keeps its tasks worth running**, if every task it accepts is and no execution meets a CUDA error. -/
theorem step_healthy {g : BipartiteGraph} {data : Nat → Encoded g} {submitted : List Nat} {s s' : Executor} {a : Action}
    (h : Healthy data submitted s) (hs : step s a = some s') (hserving : a ≠ .shutdown)
    (hexec : ∀ worker env, a = .execute worker env → env.dev.Healthy)
    (hsubmit : ∀ env r plan shards, a = .submit env r plan shards true → ∀ context,
      ((∃ staged, s.stagedContexts r = some staged ∧ staged.shardCount = shards.length ∧ context = staged.context) ∨
        (s.stagedContexts r = none ∧ stagePresent env shards = .ok context)) → s.outstanding < s.capacity →
      Matched (data r) plan shards context ∧ r ∈ submitted) : Healthy data submitted s' := by
  have hb := step_books s a s' h.books hs
  have hold : ∀ {pre post : List WorkerPhase} {w w' : WorkerPhase}, s.workers = pre ++ w :: post →
      (Sane data submitted w → Sane data submitted w') → ∀ u ∈ pre ++ w' :: post, Sane data submitted u := by
    intro pre post w w' hw hnext
    have hall : ∀ u ∈ pre ++ w :: post, Sane data submitted u := fun u hu => h.workers u (hw ▸ hu)
    exact forall_mem_replace hall (hnext (hall w (by simp)))
  cases step_cases hs with
  | staged a requestId context ha hctx => exact ⟨hb, h.serving, h.queue, h.workers⟩
  | accepted env requestId plan shards context hopen hroom hrun hqueue hcontext =>
    refine ⟨hb, h.serving, fun task hm => ?_, h.workers⟩
    rcases List.mem_append.1 hm with hm | hm
    · exact h.queue task hm
    · obtain rfl := List.mem_singleton.1 hm
      exact hsubmit env requestId plan shards rfl context hcontext hroom
  | unqueued requestId task pre post hqueue hid =>
    refine ⟨hb, h.serving, fun x hm => h.queue x ?_, h.workers⟩
    rw [hqueue]
    exact (sublist_without pre post task).subset hm
  | flagged requestId hqueue hrun => exact ⟨hb, h.serving, h.queue, h.workers⟩
  | ignored requestId hqueue hrun => exact ⟨hb, h.serving, h.queue, h.workers⟩
  | stopped => exact absurd rfl hserving
  | exited worker pre post hw hstop hqueue =>
    rw [h.serving] at hstop
    cases hstop
  | taken worker pre post hw task rest hqueue =>
    have htask := h.queue task (by rw [hqueue]; exact List.mem_cons_self)
    exact ⟨hb, h.serving, fun x hm => h.queue x (by rw [hqueue]; exact List.mem_cons_of_mem _ hm),
      hold hw (fun _ => htask)⟩
  | executed worker env pre post task hw =>
    refine ⟨hb, h.serving, h.queue, hold hw (fun htask => ⟨?_, ?_⟩)⟩
    · rw [executeTask_requestId]
      exact htask.1.executeTask (hexec worker env rfl)
    · rw [executeTask_requestId]
      exact htask.2
  | foundCancelled worker pre post task result hw hc => exact ⟨hb, h.serving, h.queue, hold hw And.right⟩
  | foundClear worker pre post task result hw hc => exact ⟨hb, h.serving, h.queue, hold hw id⟩
  | delivered worker pre post task result hw => exact ⟨hb, h.serving, h.queue, hold hw And.right⟩
  | erased worker pre post task cancelled hw => exact ⟨hb, h.serving, h.queue, hold hw (fun _ => trivial)⟩

theorem step_stagedContexts {s s' : Executor} {a : Action} (hs : step s a = some s') {r : Nat} (hr : a.staging ≠ some r)
    (hc : a ≠ .cancel r) : s'.stagedContexts r = s.stagedContexts r := by
  cases step_cases hs with
  | staged a requestId context ha hctx => exact Function.update_of_ne (fun h => hr (by rw [ha, h])) _ _
  | accepted env requestId plan shards context hopen hroom hrun hqueue hcontext =>
    exact Function.update_of_ne (fun h => hr (by rw [h]; rfl)) _ _
  | unqueued requestId task pre post hqueue hid => exact Function.update_of_ne (fun h => hc (by rw [h])) _ _
  | flagged requestId hqueue hrun => exact Function.update_of_ne (fun h => hc (by rw [h])) _ _
  | ignored requestId hqueue hrun => exact Function.update_of_ne (fun h => hc (by rw [h])) _ _
  | _ => rfl

end Executor

end CodedLLM
