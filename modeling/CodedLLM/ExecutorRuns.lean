import CodedLLM.Executor
/-!
# ExecutorRuns — what a step of the executor can do, and its books

`Stepped` says once what a step can do.  The books are the four containers of the source: which request ids the queue,
the running set, the cancelled set and the staged contexts may name, in every state a run leads to.
-/
namespace CodedLLM

open Runs

theorem split_getElem? {α : Type} {l : List α} {i : Nat} {a : α} (h : l[i]? = some a) :
    ∃ pre post, l = pre ++ a :: post ∧ pre.length = i ∧ ∀ b, l.set i b = pre ++ b :: post := by
  obtain ⟨hi, rfl⟩ := List.getElem?_eq_some_iff.1 h
  refine ⟨l.take i, l.drop (i + 1), ?_, by rw [List.length_take]; omega, fun b => ?_⟩
  · rw [List.getElem_cons_drop, List.take_append_drop]
  · rw [List.set_eq_take_append_cons_drop, if_pos hi]

theorem forall_mem_replace {α : Type} {P : α → Prop} {pre post : List α} {a b : α} (h : ∀ x ∈ pre ++ a :: post, P x)
    (hb : P b) : ∀ x ∈ pre ++ b :: post, P x := by
  intro x hx
  simp only [List.mem_append, List.mem_cons] at hx h
  rcases hx with hx | rfl | hx
  · exact h x (.inl hx)
  · exact hb
  · exact h x (.inr (.inr hx))

theorem sublist_without {α : Type} (pre post : List α) (a : α) : (pre ++ post).Sublist (pre ++ a :: post) :=
  (List.Sublist.refl pre).append (List.sublist_cons_self a post)

theorem isSome_update_none {α : Type} {f : Nat → Option α} {a r : Nat}
    (h : (Function.update f a none r).isSome = true) : r ≠ a ∧ (f r).isSome = true := by
  by_cases hr : r = a
  · rw [hr, Function.update_self] at h
    cases h
  · rw [Function.update_of_ne hr] at h
    exact ⟨hr, h⟩

namespace Executor

/-- The request whose staged context a call may change without accepting a task. -/
def Action.staging : Action → Option Nat
  | .stageShard _ requestId _ _ _ => some requestId
  | .submit _ requestId _ _ _ => some requestId
  | _ => none

/-- **Everything one step of the executor can do.** -/
inductive Stepped (s : Executor) : Action → Executor → Prop
  | staged (a : Action) (requestId : Nat) (context : Option StagedContext) (ha : a.staging = some requestId)
      (h : context = none ∨ context = s.stagedContexts requestId ∨
        (requestId ∉ s.runningRequests ∧ s.hasQueuedRequest requestId = false)) :
      Stepped s a (s.setStaged requestId context)
  | accepted (env : SubmitEnv) (requestId : Nat) (plan : DecodePlan) (shards : ShardSlots)
      (context : DeviceShardStagingContext) (hopen : s.stopping = false) (hroom : s.outstanding < s.capacity)
      (hrun : requestId ∉ s.runningRequests) (hqueue : s.hasQueuedRequest requestId = false)
      (hcontext : (∃ staged, s.stagedContexts requestId = some staged ∧ staged.shardCount = shards.length ∧
          context = staged.context) ∨
        (s.stagedContexts requestId = none ∧ stagePresent env shards = .ok context)) :
      Stepped s (.submit env requestId plan shards true)
        ((s.setStaged requestId none).enqueue ⟨requestId, plan, shards, context, env.enqueuedAt, s.tickets⟩)
  | unqueued (requestId : Nat) (task : ExecutorTask) (pre post : List ExecutorTask)
      (hqueue : s.queue = pre ++ task :: post) (hid : task.requestId = requestId) :
      Stepped s (.cancel requestId)
        { s.setStaged requestId none with
          queue := pre ++ post, history := s.history ++ [.cancelCalled requestId, .discarded task.ticket] }
  | flagged (requestId : Nat) (hqueue : s.hasQueuedRequest requestId = false) (hrun : requestId ∈ s.runningRequests) :
      Stepped s (.cancel requestId)
        { s.setStaged requestId none with
          cancelledRequests := insert requestId s.cancelledRequests
          history := s.history ++ [.cancelCalled requestId] }
  | ignored (requestId : Nat) (hqueue : s.hasQueuedRequest requestId = false) (hrun : requestId ∉ s.runningRequests) :
      Stepped s (.cancel requestId)
        { s.setStaged requestId none with history := s.history ++ [.cancelCalled requestId] }
  | stopped : Stepped s .shutdown { s with stopping := true }
  | exited (worker : Nat) (pre post : List WorkerPhase) (hw : s.workers = pre ++ .waiting :: post)
      (hstop : s.stopping = true) (hqueue : s.queue = []) :
      Stepped s (.take worker) { s with workers := pre ++ .exited :: post }
  | taken (worker : Nat) (pre post : List WorkerPhase) (hw : s.workers = pre ++ .waiting :: post)
      (task : ExecutorTask) (rest : List ExecutorTask) (hqueue : s.queue = task :: rest) :
      Stepped s (.take worker)
        { s with
          queue := rest, runningRequests := insert task.requestId s.runningRequests
          workers := pre ++ .executing task :: post, history := s.history ++ [.started task.ticket] }
  | executed (worker : Nat) (env : ExecuteEnv) (pre post : List WorkerPhase) (task : ExecutorTask)
      (hw : s.workers = pre ++ .executing task :: post) :
      Stepped s (.execute worker env)
        { s with workers := pre ++ .executed (executeTask env task).1 (executeTask env task).2 :: post }
  | foundCancelled (worker : Nat) (pre post : List WorkerPhase) (task : ExecutorTask) (result : RecoveryTaskResult)
      (hw : s.workers = pre ++ .executed task result :: post) (hc : task.requestId ∈ s.cancelledRequests) :
      Stepped s (.check worker)
        { s with workers := pre ++ .finishing task true :: post, history := s.history ++ [.discarded task.ticket] }
  | foundClear (worker : Nat) (pre post : List WorkerPhase) (task : ExecutorTask) (result : RecoveryTaskResult)
      (hw : s.workers = pre ++ .executed task result :: post) (hc : task.requestId ∉ s.cancelledRequests) :
      Stepped s (.check worker) { s with workers := pre ++ .delivering task result :: post }
  | delivered (worker : Nat) (pre post : List WorkerPhase) (task : ExecutorTask) (result : RecoveryTaskResult)
      (hw : s.workers = pre ++ .delivering task result :: post) :
      Stepped s (.deliver worker)
        { s with workers := pre ++ .finishing task false :: post, history := s.history ++ [.delivered task.ticket] }
  | erased (worker : Nat) (pre post : List WorkerPhase) (task : ExecutorTask) (cancelled : Bool)
      (hw : s.workers = pre ++ .finishing task cancelled :: post) :
      Stepped s (.erase worker)
        { s with
          runningRequests := s.runningRequests.erase task.requestId
          cancelledRequests := s.cancelledRequests.erase task.requestId, workers := pre ++ .waiting :: post }

theorem hasQueuedRequest_iff (s : Executor) (r : Nat) :
    s.hasQueuedRequest r = true ↔ r ∈ s.queue.map ExecutorTask.requestId := by
  simp [hasQueuedRequest]

theorem setStaged_self (s : Executor) (requestId : Nat) : s.setStaged requestId (s.stagedContexts requestId) = s := by
  rw [setStaged, Function.update_eq_self]

theorem stepped_same {s : Executor} {a : Action} {requestId : Nat} (ha : a.staging = some requestId) :
    Stepped s a s := by
  have h := Stepped.staged (s := s) a requestId _ ha (.inr (.inl rfl))
  rw [setStaged_self] at h
  exact h

theorem stageShard_cases (s : Executor) (dev : Device) (requestId shardCount shardId : Nat) (payload : WordShard) :
    Stepped s (.stageShard dev requestId shardCount shardId payload)
      (s.stageShard dev requestId shardCount shardId payload).state := by
  unfold stageShard
  split
  · exact stepped_same rfl
  rename_i hfree
  simp only [not_or, Bool.not_eq_true] at hfree
  have hinto : ∀ staged : StagedContext, Stepped s (.stageShard dev requestId shardCount shardId payload)
      (s.stageInto dev requestId staged shardId payload).state := by
    intro staged
    unfold stageInto
    split <;> exact .staged _ requestId _ rfl (.inr (.inr hfree.2))
  split
  · split
    · exact stepped_same rfl
    · exact hinto _
  · split
    · exact stepped_same rfl
    · exact hinto _

theorem submit_cases (s : Executor) (env : SubmitEnv) (requestId : Nat) (plan : DecodePlan) (shards : ShardSlots)
    (completion : Bool) :
    Stepped s (.submit env requestId plan shards completion) (s.submit env requestId plan shards completion).1 := by
  unfold submit
  cases completion with
  | false => exact stepped_same rfl
  | true =>
    rw [if_neg (by simp)]
    split
    · exact .staged _ requestId none rfl (.inl rfl)
    rename_i hfree
    simp only [not_or, Bool.not_eq_true, Nat.not_le] at hfree
    obtain ⟨hopen, hroom, hrun, hqueue⟩ := hfree
    cases hst : s.stagedContexts requestId with
    | some staged =>
      simp only
      split
      · exact .staged _ requestId none rfl (.inl rfl)
      · rename_i hcount
        exact .accepted env requestId plan shards staged.context hopen hroom hrun hqueue
          (.inl ⟨staged, hst, by simpa using hcount, rfl⟩)
    | none =>
      cases hctx : stagePresent env shards with
      | error e => exact stepped_same rfl
      | ok context =>
        have hacc := Stepped.accepted (s := s) env requestId plan shards context hopen hroom hrun hqueue
          (.inr ⟨hst, hctx⟩)
        rw [← hst, setStaged_self] at hacc
        exact hacc

/-- **What `Cancel` does**: it takes the task off the queue, it flags the running request, or there is no task. -/
theorem cancel_spec (s : Executor) (requestId : Nat) :
    (∃ task pre post, s.queue = pre ++ task :: post ∧ task.requestId = requestId ∧ s.cancel requestId =
      ({ s.setStaged requestId none with
          queue := pre ++ post, history := s.history ++ [.cancelCalled requestId, .discarded task.ticket] }, true)) ∨
    (s.hasQueuedRequest requestId = false ∧ requestId ∈ s.runningRequests ∧ s.cancel requestId =
      ({ s.setStaged requestId none with
          cancelledRequests := insert requestId s.cancelledRequests
          history := s.history ++ [.cancelCalled requestId] }, true)) ∨
    (s.hasQueuedRequest requestId = false ∧ requestId ∉ s.runningRequests ∧ s.cancel requestId =
      ({ s.setStaged requestId none with history := s.history ++ [.cancelCalled requestId] },
        (s.stagedContexts requestId).isSome)) := by
  unfold cancel
  cases hf : s.queue.find? (fun task => task.requestId = requestId) with
  | some task =>
    obtain ⟨hid, pre, post, hq, hpre⟩ := List.find?_eq_some_iff_append.1 hf
    have herase : s.queue.eraseP (fun task => task.requestId = requestId) = pre ++ post := by
      rw [hq, List.eraseP_append_right _ (by simpa using hpre), List.eraseP_cons_of_pos (by simpa using hid)]
    refine .inl ⟨task, pre, post, hq, by simpa using hid, ?_⟩
    simp only [herase, List.append_assoc]
    rfl
  | none =>
    have hqueue : s.hasQueuedRequest requestId = false := by
      rw [List.find?_eq_none] at hf
      simpa [hasQueuedRequest] using hf
    by_cases hrun : requestId ∈ s.runningRequests
    · exact .inr (.inl ⟨hqueue, hrun, if_pos hrun⟩)
    · exact .inr (.inr ⟨hqueue, hrun, if_neg hrun⟩)

theorem cancel_cases (s : Executor) (requestId : Nat) : Stepped s (.cancel requestId) (s.cancel requestId).1 := by
  rcases s.cancel_spec requestId with ⟨task, pre, post, hq, hid, heq⟩ | ⟨hq, hrun, heq⟩ | ⟨hq, hrun, heq⟩
  · rw [heq]
    exact .unqueued requestId task pre post hq hid
  · rw [heq]
    exact .flagged requestId hq hrun
  · rw [heq]
    exact .ignored requestId hq hrun

theorem step_cases {s s' : Executor} {a : Action} (h : step s a = some s') : Stepped s a s' := by
  cases a with
  | stageShard dev requestId shardCount shardId payload =>
    obtain rfl := Option.some.inj h
    exact stageShard_cases s dev requestId shardCount shardId payload
  | submit env requestId plan shards completion =>
    obtain rfl := Option.some.inj h
    exact submit_cases s env requestId plan shards completion
  | cancel requestId =>
    obtain rfl := Option.some.inj h
    exact cancel_cases s requestId
  | shutdown =>
    obtain rfl := Option.some.inj h
    exact .stopped
  | take worker =>
    simp only [step] at h
    split at h
    · rename_i hw hq
      obtain ⟨pre, post, hsplit, -, hset⟩ := split_getElem? hw
      split at h
      · rename_i hstop
        obtain rfl := Option.some.inj h
        rw [setWorker, hset]
        exact .exited worker pre post hsplit hstop hq
      · cases h
    · rename_i task rest hw hq
      obtain ⟨pre, post, hsplit, -, hset⟩ := split_getElem? hw
      obtain rfl := Option.some.inj h
      simp only [setWorker, record, hset]
      exact .taken worker pre post hsplit task rest hq
    · cases h
  | execute worker env =>
    simp only [step] at h
    split at h
    · rename_i task hw
      obtain ⟨pre, post, hsplit, -, hset⟩ := split_getElem? hw
      obtain rfl := Option.some.inj h
      rw [setWorker, hset]
      exact .executed worker env pre post task hsplit
    · cases h
  | check worker =>
    simp only [step] at h
    split at h
    · rename_i task result hw
      obtain ⟨pre, post, hsplit, -, hset⟩ := split_getElem? hw
      split at h
      · rename_i hc
        obtain rfl := Option.some.inj h
        simp only [setWorker, record, hset]
        exact .foundCancelled worker pre post task result hsplit hc
      · rename_i hc
        obtain rfl := Option.some.inj h
        rw [setWorker, hset]
        exact .foundClear worker pre post task result hsplit hc
    · cases h
  | deliver worker =>
    simp only [step] at h
    split at h
    · rename_i task result hw
      obtain ⟨pre, post, hsplit, -, hset⟩ := split_getElem? hw
      obtain rfl := Option.some.inj h
      simp only [setWorker, record, hset]
      exact .delivered worker pre post task result hsplit
    · cases h
  | erase worker =>
    simp only [step] at h
    split at h
    · rename_i task cancelled hw
      obtain ⟨pre, post, hsplit, -, hset⟩ := split_getElem? hw
      obtain rfl := Option.some.inj h
      simp only [setWorker, hset]
      exact .erased worker pre post task cancelled hsplit
    · cases h

/-! ## The books -/

def queuedIds (s : Executor) : List Nat := s.queue.map ExecutorTask.requestId

def heldTasks (s : Executor) : List ExecutorTask := s.workers.filterMap WorkerPhase.held

def heldIds (s : Executor) : List Nat := s.heldTasks.map ExecutorTask.requestId

def taskIds (s : Executor) : List Nat := s.queuedIds ++ s.heldIds

/-- **What the containers of the executor may hold.** -/
structure Books (s : Executor) : Prop where
  nodup : s.taskIds.Nodup
  running : ∀ r, r ∈ s.runningRequests ↔ r ∈ s.heldIds
  staged : ∀ r, (s.stagedContexts r).isSome = true → r ∉ s.taskIds
  cancelled : s.cancelledRequests ⊆ s.runningRequests
  room : s.taskIds.length ≤ s.capacity
  workers : s.workers.length = s.concurrency

theorem make_ok {concurrencyLimit maxQueueDepth : UInt64} {cost : Int} {s : Executor}
    (h : make concurrencyLimit maxQueueDepth cost = .ok s) :
    0 < s.concurrency ∧ s.concurrency = concurrencyLimit.toNat ∧
      s.capacity = concurrencyLimit.toNat + maxQueueDepth.toNat ∧
      s = { concurrency := s.concurrency, capacity := s.capacity, estimatedServiceCost := cost, queue := [],
            stagedContexts := fun _ => none, runningRequests := ∅, cancelledRequests := ∅,
            workers := List.replicate s.concurrency .waiting, stopping := false, tickets := 0, history := [] } := by
  unfold make at h
  simp only at h
  split at h
  · cases h
  rename_i hzero
  split at h
  · cases h
  rename_i hwrap
  split at h
  · cases h
  split at h
  · cases h
  obtain rfl := Except.ok.inj h
  refine ⟨?_, rfl, ?_, rfl⟩
  · exact Nat.pos_of_ne_zero (fun hn => hzero (UInt64.toNat_inj.1 hn))
  · -- a sum that is not below its first part has not wrapped
    simp only [UInt64.lt_iff_toNat_lt, UInt64.toNat_add] at hwrap ⊢
    have h1 := concurrencyLimit.toNat_lt
    have h2 := maxQueueDepth.toNat_lt
    omega

theorem Books.make {concurrencyLimit maxQueueDepth : UInt64} {cost : Int} {s : Executor}
    (h : make concurrencyLimit maxQueueDepth cost = .ok s) : Books s := by
  obtain ⟨-, -, -, heq⟩ := make_ok h
  have hheld : s.heldTasks = [] := by
    rw [heq]
    simp [heldTasks, WorkerPhase.held]
  have hids : s.taskIds = [] := by
    rw [taskIds, heldIds, hheld, queuedIds, heq]
    rfl
  refine ⟨by rw [hids]; exact .nil, fun r => ?_, fun r hr => ?_, ?_, by rw [hids]; exact Nat.zero_le _, ?_⟩
  · rw [heldIds, hheld, heq]
    simp
  · rw [heq] at hr
    cases hr
  · rw [heq]
  · rw [heq, List.length_replicate]

theorem heldTasks_split {s : Executor} {pre post : List WorkerPhase} {w : WorkerPhase}
    (h : s.workers = pre ++ w :: post) :
    s.heldTasks = pre.filterMap WorkerPhase.held ++ (w.held.toList ++ post.filterMap WorkerPhase.held) := by
  rw [heldTasks, h, List.filterMap_append, List.filterMap_cons]
  cases w.held <;> rfl

theorem heldIds_replace {s s' : Executor} {pre post : List WorkerPhase} {w w' : WorkerPhase}
    (h : s.workers = pre ++ w :: post) (h' : s'.workers = pre ++ w' :: post)
    (hw : w'.held.map ExecutorTask.requestId = w.held.map ExecutorTask.requestId) : s'.heldIds = s.heldIds := by
  rw [heldIds, heldIds, heldTasks_split h, heldTasks_split h']
  cases hw1 : w.held <;> cases hw2 : w'.held <;> simp_all

theorem heldIds_add {s s' : Executor} {pre post : List WorkerPhase} {w w' : WorkerPhase} {task : ExecutorTask}
    (h : s.workers = pre ++ w :: post) (h' : s'.workers = pre ++ w' :: post) (hw : w.held = none)
    (hw' : w'.held = some task) : s'.heldIds.Perm (task.requestId :: s.heldIds) := by
  rw [heldIds, heldIds, heldTasks_split h, heldTasks_split h', hw, hw']
  simp only [Option.toList, List.map_append, List.map_cons, List.nil_append, List.cons_append]
  exact List.perm_middle

theorem Books.of_same {s s' : Executor} (h : Books s) (hqueue : s'.queue = s.queue) (hheld : s'.heldIds = s.heldIds)
    (hrun : s'.runningRequests = s.runningRequests) (hcancel : s'.cancelledRequests ⊆ s'.runningRequests)
    (hstaged : ∀ r, (s'.stagedContexts r).isSome = true → (s.stagedContexts r).isSome = true ∨ r ∉ s.taskIds)
    (hcap : s'.capacity = s.capacity) (hworkers : s'.workers.length = s.workers.length)
    (hconc : s'.concurrency = s.concurrency) : Books s' := by
  have hids : s'.taskIds = s.taskIds := by rw [taskIds, taskIds, queuedIds, queuedIds, hqueue, hheld]
  refine ⟨hids ▸ h.nodup, fun r => ?_, fun r hr => ?_, hcancel, by rw [hids, hcap]; exact h.room, ?_⟩
  · rw [hrun, hheld]
    exact h.running r
  · rw [hids]
    rcases hstaged r hr with hr | hr
    · exact h.staged r hr
    · exact hr
  · rw [hworkers, hconc, h.workers]

theorem Books.card {s : Executor} (h : Books s) : s.runningRequests.card = s.heldTasks.length := by
  have hset : s.runningRequests = s.heldIds.toFinset := Finset.ext (fun r => by rw [h.running r, List.mem_toFinset])
  rw [hset, List.toFinset_card_of_nodup (List.nodup_append.1 h.nodup).2.1, heldIds, List.length_map]

theorem Books.outstanding {s : Executor} (h : Books s) : s.outstanding = s.taskIds.length := by
  rw [Executor.outstanding, h.card, taskIds, List.length_append, queuedIds, heldIds, List.length_map, List.length_map]

theorem Books.free {s : Executor} (h : Books s) {requestId : Nat} (hrun : requestId ∉ s.runningRequests)
    (hqueue : s.hasQueuedRequest requestId = false) : requestId ∉ s.taskIds := by
  rw [taskIds, List.mem_append, not_or]
  refine ⟨fun hq => ?_, fun hr => hrun ((h.running requestId).2 hr)⟩
  rw [(s.hasQueuedRequest_iff requestId).2 hq] at hqueue
  cases hqueue

theorem Books.accepted {s : Executor} (h : Books s) {requestId : Nat} {task : ExecutorTask}
    (hid : task.requestId = requestId) (hroom : s.outstanding < s.capacity) (hrun : requestId ∉ s.runningRequests)
    (hqueue : s.hasQueuedRequest requestId = false) : Books ((s.setStaged requestId none).enqueue task) := by
  have hnew := h.free hrun hqueue
  have hids : ((s.setStaged requestId none).enqueue task).taskIds.Perm (requestId :: s.taskIds) := by
    simp only [taskIds, queuedIds, enqueue, setStaged, List.map_append, List.map_cons, List.map_nil, hid,
      List.append_assoc, List.singleton_append]
    exact List.perm_middle
  refine ⟨hids.nodup_iff.2 (List.nodup_cons.2 ⟨hnew, h.nodup⟩), h.running, fun r hr => ?_, h.cancelled, ?_, h.workers⟩
  · obtain ⟨hne, hr⟩ := isSome_update_none hr
    rw [hids.mem_iff, List.mem_cons, not_or]
    exact ⟨hne, h.staged r hr⟩
  · rw [hids.length_eq, List.length_cons]
    rw [h.outstanding] at hroom
    exact hroom

theorem Books.unqueued {s : Executor} (h : Books s) {requestId : Nat} {task : ExecutorTask}
    {pre post : List ExecutorTask} (hqueue : s.queue = pre ++ task :: post) (history : List Event) :
    Books { s.setStaged requestId none with queue := pre ++ post, history := history } := by
  have hsub : List.Sublist ((pre ++ post).map ExecutorTask.requestId ++ s.heldIds) s.taskIds := by
    rw [taskIds, queuedIds, hqueue]
    exact ((sublist_without pre post task).map _).append_right _
  refine ⟨h.nodup.sublist hsub, h.running, fun r hr hm => ?_, h.cancelled, hsub.length_le.trans h.room, h.workers⟩
  exact h.staged r (isSome_update_none hr).2 (hsub.subset hm)

theorem Books.taken {s : Executor} (h : Books s) {pre post : List WorkerPhase}
    (hw : s.workers = pre ++ .waiting :: post)
    {task : ExecutorTask} {rest : List ExecutorTask} (hqueue : s.queue = task :: rest) (history : List Event) :
    Books { s with
      queue := rest, runningRequests := insert task.requestId s.runningRequests
      workers := pre ++ .executing task :: post, history := history } := by
  generalize hs' : ({ s with
      queue := rest, runningRequests := insert task.requestId s.runningRequests
      workers := pre ++ .executing task :: post, history := history } : Executor) = s'
  have hheld : s'.heldIds.Perm (task.requestId :: s.heldIds) := by
    exact heldIds_add hw (by rw [← hs']) rfl rfl
  have hids : s'.taskIds.Perm s.taskIds := by
    rw [taskIds, taskIds, queuedIds, queuedIds, hqueue, show s'.queue = rest by rw [← hs'], List.map_cons]
    exact (hheld.append_left _).trans List.perm_middle
  have hfields : s'.runningRequests = insert task.requestId s.runningRequests ∧
      s'.cancelledRequests = s.cancelledRequests ∧
      s'.capacity = s.capacity ∧ s'.concurrency = s.concurrency ∧ s'.stagedContexts = s.stagedContexts ∧
      s'.workers.length = s.workers.length := by
    rw [← hs', hw]
    simp
  obtain ⟨hrun, hcan, hcap, hconc, hstaged, hlen⟩ := hfields
  refine ⟨hids.nodup_iff.2 h.nodup, fun r => ?_, fun r hr => ?_, ?_, ?_, ?_⟩
  · rw [hrun, Finset.mem_insert, h.running r, hheld.mem_iff, List.mem_cons]
  · rw [hids.mem_iff]
    exact h.staged r (hstaged ▸ hr)
  · rw [hrun, hcan]
    exact h.cancelled.trans (Finset.subset_insert _ _)
  · rw [hids.length_eq, hcap]
    exact h.room
  · rw [hlen, hconc, h.workers]

theorem Books.erased {s : Executor} (h : Books s) {pre post : List WorkerPhase} {task : ExecutorTask} {cancelled : Bool}
    (hw : s.workers = pre ++ .finishing task cancelled :: post) :
    Books { s with
      runningRequests := s.runningRequests.erase task.requestId
      cancelledRequests := s.cancelledRequests.erase task.requestId, workers := pre ++ .waiting :: post } := by
  generalize hs' : ({ s with
      runningRequests := s.runningRequests.erase task.requestId
      cancelledRequests := s.cancelledRequests.erase task.requestId
      workers := pre ++ .waiting :: post } : Executor) = s'
  have hheld : s.heldIds.Perm (task.requestId :: s'.heldIds) := by
    exact heldIds_add (by rw [← hs']) hw rfl rfl
  have hids : s.taskIds.Perm (task.requestId :: s'.taskIds) := by
    rw [taskIds, taskIds, queuedIds, queuedIds, show s'.queue = s.queue by rw [← hs']]
    exact (hheld.append_left _).trans List.perm_middle
  obtain ⟨hnot, hnodup⟩ := List.nodup_cons.1 (hids.nodup_iff.1 h.nodup)
  have hnotheld : task.requestId ∉ s'.heldIds := fun hm => hnot (List.mem_append_right _ hm)
  have hfields : s'.runningRequests = s.runningRequests.erase task.requestId ∧
      s'.cancelledRequests = s.cancelledRequests.erase task.requestId ∧ s'.capacity = s.capacity ∧
      s'.concurrency = s.concurrency ∧ s'.stagedContexts = s.stagedContexts ∧ s'.workers.length = s.workers.length := by
    rw [← hs', hw]
    simp
  obtain ⟨hrun, hcan, hcap, hconc, hstaged, hlen⟩ := hfields
  refine ⟨hnodup, fun r => ?_, fun r hr hm => ?_, ?_, ?_, ?_⟩
  · rw [hrun, Finset.mem_erase, h.running r, hheld.mem_iff, List.mem_cons]
    constructor
    · rintro ⟨hne, hr | hr⟩
      · exact absurd hr hne
      · exact hr
    · intro hr
      exact ⟨fun he => hnotheld (he ▸ hr), .inr hr⟩
  · exact h.staged r (hstaged ▸ hr) (hids.mem_iff.2 (List.mem_cons_of_mem _ hm))
  · rw [hrun, hcan]
    exact Finset.erase_subset_erase _ h.cancelled
  · have hroom := h.room
    rw [hids.length_eq, List.length_cons] at hroom
    rw [hcap]
    omega
  · rw [hlen, hconc, h.workers]

@[simp] theorem executeTask_requestId (env : ExecuteEnv) (task : ExecutorTask) :
    (executeTask env task).1.requestId = task.requestId := by
  unfold executeTask
  dsimp only
  split <;> rfl

@[simp] theorem executeTask_ticket (env : ExecuteEnv) (task : ExecutorTask) :
    (executeTask env task).1.ticket = task.ticket := by
  unfold executeTask
  dsimp only
  split <;> rfl

theorem step_books (s : Executor) (a : Action) (s' : Executor) (h : Books s) (hs : step s a = some s') : Books s' := by
  -- a phase change that keeps the worker's request
  have hphase : ∀ (pre post : List WorkerPhase) (w w' : WorkerPhase) (history : List Event),
      s.workers = pre ++ w :: post → w'.held.map ExecutorTask.requestId = w.held.map ExecutorTask.requestId →
      Books { s with workers := pre ++ w' :: post, history := history } := by
    intro pre post w w' history hw hsame
    exact h.of_same rfl (heldIds_replace hw rfl hsame) rfl h.cancelled (fun _ hr => .inl hr) rfl (by rw [hw]; simp) rfl
  have hclear : ∀ requestId r, (Function.update s.stagedContexts requestId none r).isSome = true →
      (s.stagedContexts r).isSome = true ∨ r ∉ s.taskIds := fun _ _ hr => .inl (isSome_update_none hr).2
  cases step_cases hs with
  | staged a requestId context ha hctx =>
    refine h.of_same rfl rfl rfl h.cancelled (fun r hr => ?_) rfl rfl rfl
    have hr' : (Function.update s.stagedContexts requestId context r).isSome = true := hr
    by_cases hid : r = requestId
    · subst hid
      rw [Function.update_self] at hr'
      rcases hctx with rfl | rfl | ⟨hrun, hqueue⟩
      · cases hr'
      · exact .inl hr'
      · exact .inr (h.free hrun hqueue)
    · rw [Function.update_of_ne hid] at hr'
      exact .inl hr'
  | accepted env requestId plan shards context hopen hroom hrun hqueue hcontext =>
    exact h.accepted rfl hroom hrun hqueue
  | unqueued requestId task pre post hqueue hid => exact h.unqueued hqueue _
  | flagged requestId hqueue hrun =>
    refine h.of_same rfl rfl rfl ?_ (hclear requestId) rfl rfl rfl
    exact Finset.insert_subset hrun h.cancelled
  | ignored requestId hqueue hrun => exact h.of_same rfl rfl rfl h.cancelled (hclear requestId) rfl rfl rfl
  | stopped => exact h.of_same rfl rfl rfl h.cancelled (fun _ hr => .inl hr) rfl rfl rfl
  | exited worker pre post hw hstop hqueue => exact hphase pre post _ _ _ hw rfl
  | taken worker pre post hw task rest hqueue => exact h.taken hw hqueue _
  | executed worker env pre post task hw => exact hphase pre post _ _ _ hw (by simp [WorkerPhase.held])
  | foundCancelled worker pre post task result hw hc => exact hphase pre post _ _ _ hw rfl
  | foundClear worker pre post task result hw hc => exact hphase pre post _ _ _ hw rfl
  | delivered worker pre post task result hw => exact hphase pre post _ _ _ hw rfl
  | erased worker pre post task cancelled hw => exact h.erased hw

theorem run_books {concurrencyLimit maxQueueDepth : UInt64} {cost : Int} {s₀ s : Executor} {as : List Action}
    (hmake : make concurrencyLimit maxQueueDepth cost = .ok s₀) (hrun : run step s₀ as = some s) : Books s :=
  run_inv step_books as s₀ s (.make hmake) hrun

theorem step_limits (s : Executor) (a : Action) (s' : Executor) (hs : step s a = some s') :
    s'.concurrency = s.concurrency ∧ s'.capacity = s.capacity := by
  cases step_cases hs <;> exact ⟨rfl, rfl⟩

theorem run_limits {s₀ s : Executor} {as : List Action} (hrun : run step s₀ as = some s) :
    s.concurrency = s₀.concurrency ∧ s.capacity = s₀.capacity := by
  refine run_inv (I := fun s => s.concurrency = s₀.concurrency ∧ s.capacity = s₀.capacity)
    (fun s a s' h hs => ?_) as s₀ s ⟨rfl, rfl⟩ hrun
  obtain ⟨h1, h2⟩ := step_limits s a s' hs
  exact ⟨h1.trans h.1, h2.trans h.2⟩

/-- **The state invariant of the executor**, in every state any interleaving of calls and worker steps leads to. -/
theorem executor_invariant (concurrencyLimit maxQueueDepth : UInt64) (cost : Int) (s₀ s : Executor) (as : List Action)
    (hmake : make concurrencyLimit maxQueueDepth cost = .ok s₀) (hrun : run step s₀ as = some s) :
    (s.queue.map ExecutorTask.requestId).Nodup ∧
    (∀ r ∈ s.queue.map ExecutorTask.requestId, r ∉ s.runningRequests ∧ s.stagedContexts r = none) ∧
    (∀ r ∈ s.runningRequests, s.stagedContexts r = none) ∧
    s.cancelledRequests ⊆ s.runningRequests ∧
    s.runningRequests.card ≤ s.concurrency ∧
    s.runningRequests.card = s.workers.countP (fun w => w.held.isSome) ∧
    s.workers.length = s.concurrency ∧ s.concurrency = concurrencyLimit.toNat ∧
    s.queue.length + s.runningRequests.card ≤ s.capacity ∧
    s.capacity = concurrencyLimit.toNat + maxQueueDepth.toNat := by
  have h := run_books hmake hrun
  obtain ⟨-, hconc, hcap, -⟩ := make_ok hmake
  obtain ⟨hconc', hcap'⟩ := run_limits hrun
  obtain ⟨hq, -, hdisj⟩ := List.nodup_append.1 h.nodup
  have hstaged : ∀ r ∈ s.taskIds, s.stagedContexts r = none := by
    intro r hr
    cases hst : s.stagedContexts r with
    | none => rfl
    | some staged => exact absurd hr (h.staged r (by rw [hst]; rfl))
  have hcount : s.heldTasks.length = s.workers.countP (fun w => w.held.isSome) := List.length_filterMap_eq_countP
  refine ⟨hq, fun r hr => ⟨fun hrun => ?_, hstaged r (List.mem_append_left _ hr)⟩, fun r hr => ?_, h.cancelled, ?_,
    h.card.trans hcount, h.workers, hconc'.trans hconc, ?_, hcap'.trans hcap⟩
  · exact hdisj r hr r ((h.running r).1 hrun) rfl
  · exact hstaged r (List.mem_append_right _ ((h.running r).1 hr))
  · rw [h.card, ← h.workers]
    exact List.length_filterMap_le _ _
  · have hroom := h.room
    rw [← h.outstanding] at hroom
    exact hroom

/-- A concrete run from a constructed executor, of any system with an executor in its states. -/
theorem exists_run {σ α : Type} (step : σ → α → Option σ) (start : Executor → σ)
    (concurrencyLimit maxQueueDepth : UInt64) (cost : Int) (as : List α) (P : Executor → σ → Bool)
    (h : (make concurrencyLimit maxQueueDepth cost).toOption.any (fun s₀ => (run step (start s₀) as).any (P s₀)) =
      true) :
    ∃ s₀ s, make concurrencyLimit maxQueueDepth cost = .ok s₀ ∧ run step (start s₀) as = some s ∧ P s₀ s = true := by
  cases hmake : make concurrencyLimit maxQueueDepth cost with
  | error e =>
    rw [hmake] at h
    cases h
  | ok s₀ =>
    rw [hmake] at h
    have hany : (run step (start s₀) as).any (P s₀) = true := h
    obtain ⟨s, hs, hP⟩ := (Option.any_eq_true _ _).1 hany
    exact ⟨s₀, s, rfl, hs, hP⟩

/-- Request 7 is running and cancelled, request 8 is queued, request 9 has a shard staged. -/
def busyRun : List Action :=
  [.submit ⟨serialDevice, fun _ => serialDevice, 0⟩ 7 ⟨[⟨1, [2, 0]⟩], [[]], true⟩ [some [1, 2], none, some [2, 6]] true,
    .take 0, .stageShard serialDevice 9 3 0 [5],
    .submit ⟨serialDevice, fun _ => serialDevice, 0⟩ 8 ⟨[⟨1, [2, 0]⟩], [[]], true⟩ [some [3], none, some [4]] true,
      .cancel 7]

theorem executor_invariant_busyRun : ∃ s₀ s, make 1 1 5 = .ok s₀ ∧ run step s₀ busyRun = some s ∧
    (s.queue.map ExecutorTask.requestId).Nodup ∧
    (∀ r ∈ s.queue.map ExecutorTask.requestId, r ∉ s.runningRequests ∧ s.stagedContexts r = none) ∧
    (∀ r ∈ s.runningRequests, s.stagedContexts r = none) ∧
    s.cancelledRequests ⊆ s.runningRequests ∧
    s.runningRequests.card ≤ s.concurrency ∧
    s.runningRequests.card = s.workers.countP (fun w => w.held.isSome) ∧
    s.workers.length = s.concurrency ∧ s.concurrency = 1 ∧
    s.queue.length + s.runningRequests.card ≤ s.capacity ∧ s.capacity = 2 := by
  obtain ⟨s₀, s, hmake, hrun, -⟩ := exists_run step id 1 1 5 busyRun
    (fun _ s => s.queuedIds = [8] ∧ s.cancelledRequests = {7} ∧ (s.stagedContexts 9).isSome) (by decide +kernel)
  exact ⟨s₀, s, hmake, hrun, executor_invariant 1 1 5 s₀ s busyRun hmake hrun⟩

end Executor

end CodedLLM
