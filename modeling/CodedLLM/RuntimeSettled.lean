import CodedLLM.RuntimeProgress
/-!
# RuntimeSettled — what the arrivals set in motion comes to an end

A request whose recovery is submitted is carried by its handler, by the queue or by a worker until its completion has
been called, and `Cancel` takes a task away only once the request is terminal.  So when nobody can move, a pending
request is one whose recovery was not submitted.
-/
namespace CodedLLM

open Runs


namespace Executor

/-- The requests with a task that is queued, or with a worker that has neither delivered nor dropped it. -/
def openIds (s : Executor) : List Nat :=
  s.queuedIds ++ (s.workers.filterMap WorkerPhase.undelivered).map ExecutorTask.requestId

theorem openIds_replace {s s' : Executor} {pre post : List WorkerPhase} {x y : WorkerPhase} (hq : s'.queue = s.queue)
    (hx : s.workers = pre ++ x :: post) (hy : s'.workers = pre ++ y :: post) {r : Nat} (hr : r ∈ s.openIds) :
    r ∈ s'.openIds ∨ ∃ task, x.undelivered = some task ∧ task.requestId = r ∧
      ∀ task', y.undelivered = some task' → task'.requestId ≠ r := by
  rw [openIds, List.mem_append] at hr
  rcases hr with hr | hr
  · refine .inl (List.mem_append_left _ ?_)
    rw [queuedIds, hq]
    exact hr
  · obtain ⟨task, hm, rfl⟩ := List.mem_map.1 hr
    obtain ⟨w, hw, hu⟩ := List.mem_filterMap.1 hm
    rw [hx, List.mem_append, List.mem_cons] at hw
    have hother : w ∈ pre ++ post → task.requestId ∈ s'.openIds := by
      intro hw
      refine List.mem_append_right _ (List.mem_map_of_mem (List.mem_filterMap.2 ⟨w, ?_, hu⟩))
      rw [hy]
      exact (sublist_without pre post y).subset hw
    rcases hw with hw | rfl | hw
    · exact .inl (hother (List.mem_append_left _ hw))
    · by_cases hsame : ∃ task', y.undelivered = some task' ∧ task'.requestId = task.requestId
      · obtain ⟨task', hu', hid⟩ := hsame
        refine .inl (List.mem_append_right _ ?_)
        rw [← hid]
        refine List.mem_map_of_mem (List.mem_filterMap.2 ⟨y, ?_, hu'⟩)
        rw [hy]
        exact List.mem_append_right _ List.mem_cons_self
      · exact .inr ⟨task, hu, rfl, fun task' hu' hid => hsame ⟨task', hu', hid⟩⟩
    · exact .inl (hother (List.mem_append_right _ hw))

/-- **What a task can be lost to**: a `Cancel` of its request, now or before. -/
theorem step_openIds {s s' : Executor} {a : Action} (hs : step s a = some s') (ha : ∀ w, a ≠ .deliver w) {r : Nat}
    (hr : r ∈ s.openIds) : r ∈ s'.openIds ∨ a = .cancel r ∨ r ∈ s.cancelledRequests := by
  have hreplace : ∀ {pre post : List WorkerPhase} {x y : WorkerPhase}, s'.queue = s.queue →
      s.workers = pre ++ x :: post → s'.workers = pre ++ y :: post → r ∈ s'.openIds ∨
        ∃ task, x.undelivered = some task ∧
        task.requestId = r ∧ ∀ task', y.undelivered = some task' → task'.requestId ≠ r :=
    fun hq hx hy => openIds_replace hq hx hy hr
  have hclear : ∀ {pre post : List WorkerPhase} {x y : WorkerPhase}, s'.queue = s.queue →
      s.workers = pre ++ x :: post → s'.workers = pre ++ y :: post →
      (∀ task, x.undelivered = some task → ∃ task', y.undelivered = some task' ∧ task'.requestId = task.requestId) →
      r ∈ s'.openIds := by
    intro pre post x y hq hx hy hsame
    rcases hreplace hq hx hy with h | ⟨task, hu, rfl, hno⟩
    · exact h
    · obtain ⟨task', hu', hid⟩ := hsame task hu
      exact absurd hid (hno task' hu')
  cases step_cases hs with
  | staged a requestId context ha hctx => exact .inl hr
  | accepted env requestId plan shards context hopen hroom hrun hqueue hcontext =>
    refine .inl ?_
    simp only [openIds, queuedIds, enqueue, setStaged, List.map_append, List.mem_append] at hr ⊢
    exact hr.imp_left .inl
  | unqueued requestId task pre post hqueue hid =>
    by_cases h : r = requestId
    · exact .inr (.inl (by rw [h]))
    · refine .inl ?_
      simp only [openIds, queuedIds, hqueue, setStaged, List.map_append, List.map_cons, List.mem_append, List.mem_cons,
        hid] at hr ⊢
      rcases hr with (hr | hr | hr) | hr
      · exact .inl (.inl hr)
      · exact absurd hr h
      · exact .inl (.inr hr)
      · exact .inr hr
  | flagged requestId hqueue hrun => exact .inl hr
  | ignored requestId hqueue hrun => exact .inl hr
  | stopped => exact .inl hr
  | exited worker pre post hw hstop hqueue => exact .inl (hclear rfl hw rfl (fun _ hx => by cases hx))
  | taken worker pre post hw task rest hqueue =>
    refine .inl ?_
    simp only [openIds, queuedIds, hqueue, hw, List.map_cons, List.map_append, List.filterMap_append,
      List.filterMap_cons, WorkerPhase.undelivered, List.mem_append, List.mem_cons] at hr ⊢
    tauto
  | executed worker env pre post task hw =>
    refine .inl (hclear rfl hw rfl (fun x hx => ⟨_, rfl, ?_⟩))
    obtain rfl := Option.some.inj hx
    exact executeTask_requestId env task
  | foundCancelled worker pre post task result hw hc =>
    rcases hreplace rfl hw rfl with h | ⟨x, hx, rfl, -⟩
    · exact .inl h
    · obtain rfl := Option.some.inj hx
      exact .inr (.inr hc)
  | foundClear worker pre post task result hw hc => exact .inl (hclear rfl hw rfl (fun x hx => ⟨x, hx, rfl⟩))
  | delivered worker pre post task result hw => exact absurd rfl (ha worker)
  | erased worker pre post task cancelled hw => exact .inl (hclear rfl hw rfl (fun _ hx => by cases hx))

theorem deliver_openIds {s s' : Executor} {w : Nat} {task : ExecutorTask} {result : RecoveryTaskResult}
    (hw : s.workers[w]? = some (.delivering task result)) (hs : step s (.deliver w) = some s') {r : Nat}
    (hr : r ∈ s.openIds) : r ∈ s'.openIds ∨ r = task.requestId := by
  obtain ⟨pre, post, hsplit, -, hset⟩ := split_getElem? hw
  simp only [step, hw, Option.some.injEq] at hs
  have hq : s'.queue = s.queue := by rw [← hs]; rfl
  have hy : s'.workers = pre ++ .finishing task false :: post := by
    rw [← hs]
    exact hset _
  rcases openIds_replace hq hsplit hy hr with h | ⟨x, hx, rfl, -⟩
  · exact .inl h
  · obtain rfl := Option.some.inj hx
    exact .inr rfl

theorem step_cancelledRequests {s s' : Executor} {a : Action} (hs : step s a = some s') :
    ∀ r ∈ s'.cancelledRequests, r ∈ s.cancelledRequests ∨ a = .cancel r := by
  intro r hr
  cases step_cases hs with
  | flagged requestId hqueue hrun =>
    rcases Finset.mem_insert.1 hr with rfl | hr
    · exact .inr rfl
    · exact .inl hr
  | erased worker pre post task cancelled hw => exact .inl (Finset.mem_of_mem_erase hr)
  | _ => exact .inl hr

theorem submit_openIds {s : Executor} {env : SubmitEnv} {requestId : Nat} {plan : DecodePlan} {shards : ShardSlots}
    {completion : Bool} (h : (s.submit env requestId plan shards completion).2 = .ok true) :
    requestId ∈ (s.submit env requestId plan shards completion).1.openIds := by
  have hnew : ∀ (s : Executor) (task : ExecutorTask), task.requestId ∈ (s.enqueue task).openIds := by
    intro s task
    simp [openIds, queuedIds, enqueue]
  unfold submit at h ⊢
  split at h
  · cases h
  rename_i hcompletion
  rw [if_neg hcompletion]
  split at h
  · cases h
  rename_i hfree
  rw [if_neg hfree]
  cases hst : s.stagedContexts requestId with
  | some staged =>
    simp only [hst] at h ⊢
    split at h
    · cases h
    · rename_i hcount
      rw [if_neg hcount]
      exact hnew _ _
  | none =>
    simp only [hst] at h ⊢
    cases hctx : stagePresent env shards with
    | error e =>
      rw [hctx] at h
      cases h
    | ok context => exact hnew _ _

end Executor

namespace Runtime

/-- The condition on one step: a `Submit` for a request that is still pending does not throw. -/
def submitReturns (s : Runtime) : Action → Bool
  | .submit thread env =>
    match s.coordinator.handlers thread with
    | .submitting r plan shards =>
      match (s.executor.submit env r plan shards true).2 with
      | .error _ => !(s.coordinator.requests r).any (fun st => st.snapshot.status = .pending)
      | .ok _    => true
    | _ => true
  | _ => true

theorem not_pending_of_throws {s : Runtime} {thread r : Nat} {env : SubmitEnv} {plan : DecodePlan} {shards : ShardSlots}
    (h : s.submitReturns (.submit thread env) = true) (hh : s.coordinator.handlers thread = .submitting r plan shards)
    {e : Exn} (he : (s.executor.submit env r plan shards true).2 = .error e) {st : RequestState}
    (hst : s.coordinator.requests r = some st) : st.snapshot.status ≠ .pending := by
  simpa [submitReturns, hh, he, hst] using h

/-- **Every submitted recovery has somebody who carries it.** -/
structure Carried (g : BipartiteGraph) (s : Runtime) : Prop where
  lifecycle : CoordinatorInv g s.coordinator
  unique : ∀ t t' r, (s.coordinator.handlers t).deciding = some r → (s.coordinator.handlers t').deciding = some r →
    t = t'
  decided : ∀ t r, (s.coordinator.handlers t).deciding = some r →
    ∃ st, s.coordinator.requests r = some st ∧ st.snapshot.recoverySubmitted = true
  cancelling : Cancelling s.coordinator
  serving : s.executor.stopping = false
  flagged : ∀ r ∈ s.executor.cancelledRequests, ∃ st, s.coordinator.requests r = some st ∧
    isTerminal st.snapshot.status = true
  awaited : ∀ r, Awaits s.coordinator r →
    (∃ t, (s.coordinator.handlers t).attending = some r) ∨ r ∈ s.executor.openIds

theorem not_awaits_of_terminal {c : Coordinator} {r : Nat} {st : RequestState} (hst : c.requests r = some st)
    (ht : isTerminal st.snapshot.status = true) : ¬ Awaits c r := by
  rintro ⟨st', hst', hp, -⟩
  rw [hst] at hst'
  obtain rfl := Option.some.inj hst'
  rw [hp] at ht
  cases ht

section Carry

variable {g : BipartiteGraph}

theorem terminal_kept {c c' : Coordinator} {a : CodedLLM.Action} (h : CodedLLM.step g c a = some c') {r : Nat}
    (ht : ∃ st, c.requests r = some st ∧ isTerminal st.snapshot.status = true) :
    ∃ st, c'.requests r = some st ∧ isTerminal st.snapshot.status = true := by
  obtain ⟨st, hst, ht⟩ := ht
  obtain ⟨st', hst', n, -, rfl⟩ := step_frozen h r st hst ht
  exact ⟨_, hst', ht⟩

/-- **A step of the coordinator leaves every submitted request carried**, if the executor takes over what was accepted
and loses only tasks of requests that wait no longer. -/
theorem awaited_step {c c' : Coordinator} {a : CodedLLM.Action} {tasks tasks' : List Nat}
    (h : CodedLLM.step g c a = some c') (hi : CoordinatorInv g c)
    (haw : ∀ r, Awaits c r → (∃ t, (c.handlers t).attending = some r) ∨ r ∈ tasks)
    (hsub : ∀ t r plan shards, c.handlers t = .submitting r plan shards →
      (a = .submit t .accepts ∨ ∃ e, a = .submit t (.throws e)) → Awaits c r → r ∈ tasks')
    (hkeep : ∀ r ∈ tasks, Awaits c' r → r ∈ tasks') :
    ∀ r, Awaits c' r → (∃ t, (c'.handlers t).attending = some r) ∨ r ∈ tasks' := by
  intro r hw
  rcases step_awaits h hi hw with hold | hat
  · rcases haw r hold with ⟨t, hat⟩ | hm
    · rcases step_attending h hat with hat' | ⟨plan, shards, hh, hcase⟩ | ⟨rfl, href⟩
      · exact .inl ⟨t, hat'⟩
      · exact .inr (hsub t r plan shards hh hcase hold)
      · exact absurd hw (rollback_not_awaits h href)
    · exact .inr (hkeep r hm hw)
  · exact .inl hat

theorem Carried.section {s : Runtime} (h : Carried g s) {a : CodedLLM.Action} {c : Coordinator} {executor : Executor}
    (hs : CodedLLM.step g s.coordinator a = some c) (hstop : executor.stopping = s.executor.stopping)
    (hflag : ∀ r ∈ executor.cancelledRequests, r ∈ s.executor.cancelledRequests ∨
      ∃ st, c.requests r = some st ∧ isTerminal st.snapshot.status = true)
    (hsub : ∀ t r plan shards, s.coordinator.handlers t = .submitting r plan shards →
      (a = .submit t .accepts ∨ ∃ e, a = .submit t (.throws e)) → Awaits s.coordinator r → r ∈ executor.openIds)
    (hkeep : ∀ r ∈ s.executor.openIds, Awaits c r → r ∈ executor.openIds) : Carried g ⟨c, executor⟩ := by
  obtain ⟨hunique, hdecided⟩ := step_decisions hs h.lifecycle h.unique h.decided
  refine ⟨CodedLLM.step_inv _ _ _ h.lifecycle hs, hunique, hdecided, step_cancelling hs h.lifecycle h.cancelling,
    hstop.trans h.serving, ?_, awaited_step hs h.lifecycle h.awaited hsub hkeep⟩
  intro r hr
  rcases hflag r hr with hr | ht
  · exact terminal_kept hs (h.flagged r hr)
  · exact ht

theorem Carried.quiet {s s' : Runtime} (h : Carried g s) {a : CodedLLM.Action} (hs : s.coordinatorStep g a = some s')
    (hsub : ∀ t answer, a ≠ .submit t answer) : Carried g s' := by
  obtain ⟨c, hc, rfl⟩ := coordinatorStep_eq.1 hs
  apply h.section hc rfl (fun r hr => .inl hr)
  · rintro t r plan shards - (rfl | ⟨e, rfl⟩) -
    · exact absurd rfl (hsub t .accepts)
    · exact absurd rfl (hsub t (.throws e))
  · exact fun r hr _ => hr

theorem Carried.worker {s s' : Runtime} (h : Carried g s) {a : Executor.Action} (hs : s.workerStep a = some s')
    (ha : ∀ w, a ≠ .deliver w) (hc : ∀ r, a ≠ .cancel r) (hstop : a ≠ .shutdown) : Carried g s' := by
  obtain ⟨executor, he, rfl⟩ := workerStep_eq.1 hs
  have hserving : executor.stopping = s.executor.stopping := by
    cases Executor.step_cases he with
    | stopped => exact absurd rfl hstop
    | _ => rfl
  refine ⟨h.lifecycle, h.unique, h.decided, h.cancelling, hserving.trans h.serving, ?_, ?_⟩
  · intro r hr
    rcases Executor.step_cancelledRequests he r hr with hr | rfl
    · exact h.flagged r hr
    · exact absurd rfl (hc r)
  · intro r hw
    rcases h.awaited r hw with hat | hm
    · exact .inl hat
    · rcases Executor.step_openIds he ha hm with hm | rfl | hflag
      · exact .inr hm
      · exact absurd rfl (hc r)
      · obtain ⟨st, hst, ht⟩ := h.flagged r hflag
        exact absurd hw (not_awaits_of_terminal hst ht)

theorem Carried.arrive {s s' : Runtime} (h : Carried g s) {dev : Device} {thread request shardId : Nat}
    {payload : WordShard} {arrivalTime : Int} {env : ArrivalEnv}
    (hs : step g s (.arrive dev thread request shardId payload arrivalTime env) = some s') : Carried g s' := by
  simp only [step] at hs
  obtain ⟨c, hc, rfl⟩ := Option.map_eq_some_iff.1 hs
  have hexec : (s.stageArrival dev request shardId payload).1 = s.executor ∨ ∃ call,
      Executor.step s.executor call = some (s.stageArrival dev request shardId payload).1 ∧
        (∀ w, call ≠ .deliver w) ∧ (∀ r, call ≠ .cancel r) ∧ call ≠ .shutdown := by
    rcases s.stageArrival_executor dev request shardId payload with he | ⟨n, he⟩
    · exact .inl he
    · exact .inr ⟨.stageShard dev request n shardId payload, by rw [he]; rfl, by simp, by simp, by simp⟩
  -- first the executor stages, then the coordinator goes through its section
  have hstaged : Carried g ⟨s.coordinator, (s.stageArrival dev request shardId payload).1⟩ := by
    rcases hexec with he | ⟨call, he, hdeliver, hcancel, hshut⟩
    · rw [he]
      exact h
    · exact h.worker (workerStep_eq.2 ⟨_, he, rfl⟩) hdeliver hcancel hshut
  exact hstaged.quiet (coordinatorStep_eq.2 ⟨c, hc, rfl⟩) (by simp)

theorem Carried.submit {s s' : Runtime} (h : Carried g s) {thread : Nat} {env : SubmitEnv}
    (hreturns : s.submitReturns (.submit thread env) = true) (hs : step g s (.submit thread env) = some s') :
    Carried g s' := by
  simp only [step] at hs
  split at hs
  · rename_i request plan shards hh
    obtain ⟨c, hc, rfl⟩ := Option.map_eq_some_iff.1 hs
    have he : Executor.step s.executor (.submit env request plan shards true) =
        some (s.executor.submit env request plan shards true).1 := rfl
    apply h.section hc (s.executor.submit_spec env request plan shards true).2.1
    · intro r hr
      rcases Executor.step_cancelledRequests he r hr with hr | hr
      · exact .inl hr
      · cases hr
    · intro t r plan' shards' hh' hcase hw
      cases hr : (s.executor.submit env request plan shards true).2 with
      | ok accepted =>
        rw [hr] at hcase
        cases accepted with
        | true =>
          obtain rfl : thread = t := by simpa [submitAnswer] using hcase
          rw [hh] at hh'
          obtain ⟨rfl, -, -⟩ := HandlerPhase.submitting.inj hh'
          exact Executor.submit_openIds hr
        | false => simp [submitAnswer] at hcase
      | error e =>
        rw [hr] at hcase
        obtain rfl : thread = t := by
          rcases hcase with hcase | ⟨e', hcase⟩ <;> simp [submitAnswer] at hcase
          exact hcase.1
        rw [hh] at hh'
        obtain ⟨rfl, -, -⟩ := HandlerPhase.submitting.inj hh'
        obtain ⟨st, hst, hp, -⟩ := hw
        exact absurd hp (not_pending_of_throws hreturns hh hr hst)
    · intro r hm hw
      rcases Executor.step_openIds he (by simp) hm with hm | hcancel | hflag
      · exact hm
      · cases hcancel
      · obtain ⟨st, hst, ht⟩ := terminal_kept hc (h.flagged r hflag)
        exact absurd hw (not_awaits_of_terminal hst ht)
  · cases hs

theorem Carried.cancel {s s' : Runtime} (h : Carried g s) {thread : Nat} (hs : step g s (.cancel thread) = some s') :
    Carried g s' := by
  simp only [step] at hs
  split at hs
  · rename_i request hh
    obtain ⟨c, hc, rfl⟩ := Option.map_eq_some_iff.1 hs
    have he : Executor.step s.executor (.cancel request) = some (s.executor.cancel request).1 := rfl
    have hterm := terminal_kept hc (h.cancelling thread request hh)
    apply h.section hc (s.executor.cancel_keeps request).2.1
    · intro r hr
      rcases Executor.step_cancelledRequests he r hr with hr | hr
      · exact .inl hr
      · obtain rfl := Executor.Action.cancel.inj hr
        exact .inr hterm
    · rintro t r plan shards - (hcase | ⟨e, hcase⟩) - <;> cases hcase
    · intro r hm hw
      rcases Executor.step_openIds he (by simp) hm with hm | hcancel | hflag
      · exact hm
      · obtain rfl := Executor.Action.cancel.inj hcancel
        obtain ⟨st, hst, ht⟩ := hterm
        exact absurd hw (not_awaits_of_terminal hst ht)
      · obtain ⟨st, hst, ht⟩ := terminal_kept hc (h.flagged r hflag)
        exact absurd hw (not_awaits_of_terminal hst ht)
  · cases hs

theorem Carried.deliver {s s' : Runtime} (h : Carried g s) {w : Nat} (hs : step g s (.deliver w) = some s') :
    Carried g s' := by
  obtain ⟨task, result, hw, he, hc⟩ := deliver_spec hs
  have hstop : s'.executor.stopping = s.executor.stopping := (Executor.busy_spec (.inr (.inr rfl)) he).2.1
  apply h.section hc hstop
  · intro r hr
    rcases Executor.step_cancelledRequests he r hr with hr | hr
    · exact .inl hr
    · cases hr
  · rintro t r plan shards - (hcase | ⟨e, hcase⟩) - <;> cases hcase
  · intro r hm haw
    rcases Executor.deliver_openIds hw he hm with hm | rfl
    · exact hm
    · exact absurd haw (complete_not_awaits hc)

theorem step_carried (s : Runtime) (a : Action) (s' : Runtime) (h : Carried g s)
    (hreturns : s.submitReturns a = true) (hs : step g s a = some s') : Carried g s' := by
  cases a with
  | attachTransport => exact h.quiet hs (by simp)
  | startRequest request oracle answer => exact h.quiet hs (by simp)
  | arrive dev thread request shardId payload arrivalTime env => exact h.arrive hs
  | submit thread env => exact h.submit hreturns hs
  | recheck thread => exact h.quiet hs (by simp)
  | rollback thread => exact h.quiet hs (by simp)
  | cancel thread => exact h.cancel hs
  | take w => exact h.worker hs (by simp) (by simp) (by simp)
  | execute w env => exact h.worker hs (by simp) (by simp) (by simp)
  | check w => exact h.worker hs (by simp) (by simp) (by simp)
  | deliver w => exact h.deliver hs
  | erase w => exact h.worker hs (by simp) (by simp) (by simp)

theorem Carried.init {concurrencyLimit maxQueueDepth : UInt64} {cost : Int} {e : Executor}
    (hmake : Executor.make concurrencyLimit maxQueueDepth cost = .ok e) : Carried g ⟨.init, e⟩ := by
  obtain ⟨-, -, -, heq⟩ := Executor.make_ok hmake
  refine ⟨.init g, ?_, ?_, ?_, by rw [heq], ?_, ?_⟩
  · intro t t' r ht
    cases ht
  · intro t r ht
    cases ht
  · intro t r ht
    cases ht
  · rw [heq]
    intro r hr
    cases hr
  · rintro r ⟨st, hst, -⟩
    cases hst

end Carry

section Settle

variable {g : BipartiteGraph} {s s' : Runtime}

theorem step_executor {a : Action} (hs : step g s a = some s') :
    s'.executor = s.executor ∨ ∃ call, Executor.step s.executor call = some s'.executor := by
  have hcoordinator : ∀ {b : CodedLLM.Action}, s.coordinatorStep g b = some s' → s'.executor = s.executor := by
    intro b hb
    obtain ⟨c, -, rfl⟩ := coordinatorStep_eq.1 hb
    rfl
  have hworker : ∀ {call : Executor.Action}, s.workerStep call = some s' →
      ∃ call, Executor.step s.executor call = some s'.executor := by
    intro call hb
    obtain ⟨executor, he, rfl⟩ := workerStep_eq.1 hb
    exact ⟨call, he⟩
  cases a with
  | attachTransport => exact .inl (hcoordinator hs)
  | startRequest request oracle answer => exact .inl (hcoordinator hs)
  | recheck thread => exact .inl (hcoordinator hs)
  | rollback thread => exact .inl (hcoordinator hs)
  | take w => exact .inr (hworker hs)
  | execute w env => exact .inr (hworker hs)
  | check w => exact .inr (hworker hs)
  | erase w => exact .inr (hworker hs)
  | deliver w =>
    obtain ⟨task, result, -, he, -⟩ := deliver_spec hs
    exact .inr ⟨.deliver w, he⟩
  | arrive dev thread request shardId payload arrivalTime env =>
    simp only [step] at hs
    obtain ⟨c, -, rfl⟩ := Option.map_eq_some_iff.1 hs
    rcases s.stageArrival_executor dev request shardId payload with he | ⟨n, he⟩
    · exact .inl he
    · exact .inr ⟨.stageShard dev request n shardId payload, by rw [he]; rfl⟩
  | submit thread env =>
    simp only [step] at hs
    split at hs
    · rename_i request plan shards hh
      obtain ⟨c, -, rfl⟩ := Option.map_eq_some_iff.1 hs
      exact .inr ⟨.submit env request plan shards true, rfl⟩
    · cases hs
  | cancel thread =>
    simp only [step] at hs
    split at hs
    · rename_i request hh
      obtain ⟨c, -, rfl⟩ := Option.map_eq_some_iff.1 hs
      exact .inr ⟨.cancel request, rfl⟩
    · cases hs

theorem step_coordinator {a : Action} (hs : step g s a = some s') :
    s'.coordinator = s.coordinator ∨ ∃ b, CodedLLM.step g s.coordinator b = some s'.coordinator := by
  have hcoordinator : ∀ {b : CodedLLM.Action}, s.coordinatorStep g b = some s' →
      ∃ b, CodedLLM.step g s.coordinator b = some s'.coordinator := by
    intro b hb
    obtain ⟨c, hc, rfl⟩ := coordinatorStep_eq.1 hb
    exact ⟨b, hc⟩
  have hworker : ∀ {call : Executor.Action}, s.workerStep call = some s' → s'.coordinator = s.coordinator := by
    intro call hb
    obtain ⟨executor, -, rfl⟩ := workerStep_eq.1 hb
    rfl
  cases a with
  | attachTransport => exact .inr (hcoordinator hs)
  | startRequest request oracle answer => exact .inr (hcoordinator hs)
  | recheck thread => exact .inr (hcoordinator hs)
  | rollback thread => exact .inr (hcoordinator hs)
  | take w => exact .inl (hworker hs)
  | execute w env => exact .inl (hworker hs)
  | check w => exact .inl (hworker hs)
  | erase w => exact .inl (hworker hs)
  | deliver w =>
    obtain ⟨task, result, -, -, hc⟩ := deliver_spec hs
    exact .inr ⟨_, hc⟩
  | arrive dev thread request shardId payload arrivalTime env =>
    simp only [step] at hs
    obtain ⟨c, hc, rfl⟩ := Option.map_eq_some_iff.1 hs
    exact .inr ⟨_, hc⟩
  | submit thread env =>
    simp only [step] at hs
    split at hs
    · obtain ⟨c, hc, rfl⟩ := Option.map_eq_some_iff.1 hs
      exact .inr ⟨_, hc⟩
    · cases hs
  | cancel thread =>
    simp only [step] at hs
    split at hs
    · obtain ⟨c, hc, rfl⟩ := Option.map_eq_some_iff.1 hs
      exact .inr ⟨_, hc⟩
    · cases hs

/-- **What holds in every run whose `Submit`s return**, of the coordinator and of the executor. -/
structure Running (g : BipartiteGraph) (s : Runtime) : Prop where
  carried : Carried g s
  books : Executor.Books s.executor
  ledger : Executor.Ledger s.executor
  workers : 0 < s.executor.concurrency

theorem Running.init {concurrencyLimit maxQueueDepth : UInt64} {cost : Int} {e : Executor}
    (hmake : Executor.make concurrencyLimit maxQueueDepth cost = .ok e) : Running g ⟨.init, e⟩ :=
  ⟨.init hmake, .make hmake, .make hmake, (Executor.make_ok hmake).1⟩

theorem step_running (s : Runtime) (a : Action) (s' : Runtime) (h : Running g s) (hreturns : s.submitReturns a = true)
    (hs : step g s a = some s') : Running g s' := by
  have hcarried := step_carried s a s' h.carried hreturns hs
  rcases step_executor hs with heq | ⟨call, hcall⟩
  · refine ⟨hcarried, ?_, ?_, ?_⟩ <;> rw [heq]
    · exact h.books
    · exact h.ledger
    · exact h.workers
  · refine ⟨hcarried, Executor.step_books _ _ _ h.books hcall, Executor.step_ledger h.ledger h.books hcall, ?_⟩
    rw [(Executor.step_limits _ _ _ hcall).1]
    exact h.workers

theorem idle_of_settled (h : Carried g s) (hset : Settled (step g) Action.own s) (t : Nat) :
    s.coordinator.handlers t = .idle := by
  cases hh : s.coordinator.handlers t with
  | idle => rfl
  | cancelling r =>
    have hnone := hset (.cancel t) rfl
    simp [step, CodedLLM.step, hh] at hnone
  | submitting r plan shards =>
    have hnone := hset (.submit t ⟨serialDevice, fun _ => serialDevice, 0⟩) rfl
    simp only [step, CodedLLM.step, hh, Option.map_eq_none_iff] at hnone
    split at hnone <;> cases hnone
  | accepted r =>
    obtain ⟨st, hst, -⟩ := h.decided t r (by rw [hh]; rfl)
    have hnone := hset (.recheck t) rfl
    simp [step, coordinatorStep, CodedLLM.step, hh, hst] at hnone
  | refused r =>
    obtain ⟨st, hst, -⟩ := h.decided t r (by rw [hh]; rfl)
    have hnone := hset (.rollback t) rfl
    simp [step, coordinatorStep, CodedLLM.step, hh, hst] at hnone

theorem unheld_of_settled (hset : Settled (step g) Action.own s) : s.executor.heldTasks = [] := by
  apply List.filterMap_eq_nil_iff.2
  intro x hx
  obtain ⟨w, hw⟩ := List.getElem?_of_mem hx
  cases hheld : x.held with
  | none => rfl
  | some task =>
    exfalso
    obtain ⟨a, ha, e, he⟩ := Executor.exists_busy hw (by rw [hheld]; rfl) ⟨serialDevice, 0, 0, 0, 0, 0⟩
    have hstep : s.workerStep a = some ⟨s.coordinator, e⟩ := workerStep_eq.2 ⟨e, he, rfl⟩
    simp only [List.mem_cons, List.not_mem_nil, or_false] at ha
    rcases ha with rfl | rfl | rfl | rfl
    · exact absurd ((hset (.execute w _) rfl).symm.trans hstep) (by simp)
    · exact absurd ((hset (.check w) rfl).symm.trans hstep) (by simp)
    · have hnone := hset (.deliver w) rfl
      simp only [Executor.step] at he
      split at he
      · rename_i task' result hd
        simp only [step, hd, hstep, Option.bind_some, coordinatorStep, CodedLLM.step, Option.map_eq_none_iff] at hnone
        split at hnone <;> cases hnone
      · cases he
    · exact absurd ((hset (.erase w) rfl).symm.trans hstep) (by simp)

theorem queue_of_settled (h : Running g s) (hset : Settled (step g) Action.own s) : s.executor.queue = [] := by
  have hpos := h.workers
  rw [← h.books.workers] at hpos
  obtain ⟨x, hx⟩ := List.exists_mem_of_length_pos hpos
  obtain ⟨w, hw⟩ := List.getElem?_of_mem hx
  have hnone := hset (.take w) rfl
  have hheld := List.filterMap_eq_nil_iff.1 (unheld_of_settled hset) x hx
  have hwait : x = .waiting := by
    cases x with
    | waiting => rfl
    | exited =>
      have hstop := (h.ledger.exits hx).1
      rw [h.carried.serving] at hstop
      cases hstop
    | _ => cases hheld
  subst hwait
  by_contra hne
  obtain ⟨e, he⟩ := Executor.exists_take hw (fun hq => hne hq.2)
  exact absurd (hnone.symm.trans (workerStep_eq.2 ⟨e, he, rfl⟩)) (by simp)

/-- **Where nobody can move, nothing is left to do**: every handler has returned, the executor is empty, and no
request is left pending with its recovery submitted. -/
theorem settled_spec (hr : Running g s) (hset : Settled (step g) Action.own s) :
    (∀ t, s.coordinator.handlers t = .idle) ∧ s.executor.queue = [] ∧ s.executor.runningRequests = ∅ ∧
      (∀ ticket r, .accepted ticket r ∈ s.executor.history →
        s.executor.history.count (.delivered ticket) + s.executor.history.count (.discarded ticket) = 1) ∧
      ∀ r st, s.coordinator.requests r = some st → st.snapshot.status = .pending →
        st.snapshot.recoverySubmitted = false := by
  have hidle := idle_of_settled hr.carried hset
  have hheld := unheld_of_settled hset
  have hqueue := queue_of_settled hr hset
  have hopen : s.executor.workers.filterMap WorkerPhase.undelivered = [] := by
    apply List.filterMap_eq_nil_iff.2
    intro x hx
    cases hu : x.undelivered with
    | none => rfl
    | some task =>
      have hnone := List.filterMap_eq_nil_iff.1 hheld x hx
      rw [x.held_of_undelivered hu] at hnone
      cases hnone
  refine ⟨hidle, hqueue, ?_, ?_, ?_⟩
  · apply Finset.eq_empty_of_forall_notMem
    intro r hm
    rw [hr.books.running, Executor.heldIds, hheld] at hm
    cases hm
  · intro ticket r hacc
    have hfate := hr.ledger.fate_one hacc
    rw [Executor.workerTickets, hopen, Executor.queuedTickets, hqueue] at hfate
    simpa using hfate
  · intro r st hst hp
    by_contra hs
    rcases hr.carried.awaited r ⟨st, hst, hp, by simpa using hs⟩ with ⟨t, hat⟩ | hm
    · rw [hidle t] at hat
      cases hat
    · rw [Executor.openIds, Executor.queuedIds, hqueue, hopen] at hm
      cases hm

/-- **What the arrivals set in motion comes to an end.**  In every run the handlers and the workers make at most eight
steps for each arrival.  And in a run whose `Submit`s do not throw for pending requests, once none of them can move,
every handler has returned, the executor is empty, every task it ever accepted was delivered once or was cancelled and
dropped, and no request is left pending with its recovery submitted. -/
theorem recovery_settles (g : BipartiteGraph) (concurrencyLimit maxQueueDepth : UInt64) (cost : Int) (e₀ : Executor)
    (as : List Action) (s : Runtime) (hmake : Executor.make concurrencyLimit maxQueueDepth cost = .ok e₀)
    (hrun : run (step g) ⟨.init, e₀⟩ as = some s) :
    as.countP Action.own ≤ 8 * as.countP Action.isArrive ∧
    (Along (step g) (fun s a => s.submitReturns a = true) ⟨.init, e₀⟩ as → Settled (step g) Action.own s →
      (∀ t, s.coordinator.handlers t = .idle) ∧ s.executor.queue = [] ∧ s.executor.runningRequests = ∅ ∧
      (∀ ticket r, .accepted ticket r ∈ s.executor.history →
        s.executor.history.count (.delivered ticket) + s.executor.history.count (.discarded ticket) = 1) ∧
      ∀ r st, s.coordinator.requests r = some st → st.snapshot.status = .pending →
        st.snapshot.recoverySubmitted = false) := by
  refine ⟨?_, fun hreturns hset => ?_⟩
  · -- the handlers of the run are a finite set
    have hthreads : ∀ a ∈ as, ∀ t, a.handler = some t → t ∈ (as.filterMap Action.handler).toFinset := by
      intro a ha t ht
      exact List.mem_toFinset.2 (List.mem_filterMap.2 ⟨a, ha, ht⟩)
    have hinit : Carried g ⟨.init, e₀⟩ := .init hmake
    have hcost := run_cost step_serving step_rank as _ s hthreads hinit.serving hrun
    have hzero : rank (as.filterMap Action.handler).toFinset ⟨.init, e₀⟩ = 0 := by
      obtain ⟨-, -, -, heq⟩ := Executor.make_ok hmake
      rw [rank, heq]
      simp [Coordinator.init, HandlerPhase.sections, Executor.sections]
    rw [hzero, sum_indicator, sum_indicator] at hcost
    omega
  · exact settled_spec (run_inv_along step_running as _ s (.init hmake) hreturns hrun) hset

def workedOffRun : List Action := decidedRun ++ [submitBy 1] ++ workerRound ++ [.erase 0, .recheck 1]

theorem recovery_settles_workedOffRun : ∃ e₀ s, Executor.make 1 1 5 = .ok e₀ ∧
    run (step makeThreeDataTwoParityGraph) ⟨.init, e₀⟩ workedOffRun = some s ∧
    (∃ st, s.coordinator.requests 7 = some st ∧ st.snapshot.status = .recovered) ∧
    workedOffRun.countP Action.own ≤ 8 * workedOffRun.countP Action.isArrive ∧
    (Settled (step makeThreeDataTwoParityGraph) Action.own s →
      (∀ t, s.coordinator.handlers t = .idle) ∧ s.executor.queue = [] ∧ s.executor.runningRequests = ∅ ∧
      (∀ ticket r, .accepted ticket r ∈ s.executor.history →
        s.executor.history.count (.delivered ticket) + s.executor.history.count (.discarded ticket) = 1) ∧
      ∀ r st, s.coordinator.requests r = some st → st.snapshot.status = .pending →
        st.snapshot.recoverySubmitted = false) := by
  obtain ⟨e₀, s, hmake, hrun, hs⟩ :=
    Executor.exists_run (step makeThreeDataTwoParityGraph) (fun e₀ => ⟨.init, e₀⟩) 1 1 5 workedOffRun
    (fun e₀ s => (s.coordinator.requests 7).any (fun st => st.snapshot.status = .recovered) &&
      decide (Along (step makeThreeDataTwoParityGraph) (fun s a => s.submitReturns a = true) ⟨.init, e₀⟩
        workedOffRun)) (by decide +kernel)
  rw [Bool.and_eq_true, Option.any_eq_true] at hs
  obtain ⟨⟨st, hst, hrec⟩, hreturns⟩ := hs
  obtain ⟨hcount, hsettled⟩ := recovery_settles makeThreeDataTwoParityGraph 1 1 5 e₀ _ s hmake hrun
  exact ⟨e₀, s, hmake, hrun, ⟨st, hst, of_decide_eq_true hrec⟩, hcount, hsettled (of_decide_eq_true hreturns)⟩

end Settle

end Runtime

end CodedLLM
