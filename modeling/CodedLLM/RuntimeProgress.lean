import CodedLLM.ExecutorWakeups
import CodedLLM.Runtime
import CodedLLM.Submission
/-!
# RuntimeProgress — every arrival is worked off in eight steps

`Moved` says once what a step of the runtime does to the handlers, the queue and the workers.  A handler has at most
three sections before it once it has released the lock, and the task it may submit gives a worker five more.
-/
namespace CodedLLM

open Runs

/-- The steps a handler has before it outside the lock, with those of the worker that gets its task. -/
def HandlerPhase.sections : HandlerPhase → Nat
  | .idle          => 0
  | .cancelling _  => 1
  | .submitting .. => 8
  | .accepted _    => 2
  | .refused _     => 1

namespace Runtime

def Action.handler : Action → Option Nat
  | .arrive _ thread .. => some thread
  | .submit thread _    => some thread
  | .recheck thread     => some thread
  | .rollback thread    => some thread
  | .cancel thread      => some thread
  | _                   => none

def Action.isArrive : Action → Bool
  | .arrive .. => true
  | _          => false

/-- What the handlers and the workers do of their own; the rest comes from outside. -/
def Action.own : Action → Bool
  | .attachTransport | .startRequest .. | .arrive .. => false
  | _                                                => true

/-- **What one step does to the handlers, the queue and the workers.** -/
inductive Moved (s : Runtime) : Action → Runtime → Prop
  | outside (a : Action) (c : Coordinator) (ha : a.own = false) (hc : c.handlers = s.coordinator.handlers) :
      Moved s a ⟨c, s.executor⟩
  | arrived (a : Action) (thread : Nat) (phase : HandlerPhase) (c : Coordinator) (executor : Executor)
      (ha : a.isArrive = true) (hthread : a.handler = some thread) (hidle : s.coordinator.handlers thread = .idle)
      (hc : c.handlers = Function.update s.coordinator.handlers thread phase)
      (hw : executor.workers = s.executor.workers) (hqueue : executor.queue = s.executor.queue)
      (hstop : executor.stopping = s.executor.stopping) : Moved s a ⟨c, executor⟩
  | submitted (thread : Nat) (env : SubmitEnv) (request : Nat) (plan : DecodePlan) (shards : ShardSlots)
      (phase : HandlerPhase) (c : Coordinator) (hh : s.coordinator.handlers thread = .submitting request plan shards)
      (hphase : phase.sections ≤ if (s.executor.submit env request plan shards true).2 = .ok true then 2 else 1)
      (hc : c.handlers = Function.update s.coordinator.handlers thread phase) :
      Moved s (.submit thread env) ⟨c, (s.executor.submit env request plan shards true).1⟩
  | handled (a : Action) (thread : Nat) (phase : HandlerPhase) (c : Coordinator) (executor : Executor)
      (ha : a.own = true) (hthread : a.handler = some thread)
      (hless : phase.sections < (s.coordinator.handlers thread).sections)
      (hc : c.handlers = Function.update s.coordinator.handlers thread phase)
      (hw : executor.workers = s.executor.workers) (hqueue : executor.queue.length ≤ s.executor.queue.length)
      (hstop : executor.stopping = s.executor.stopping) : Moved s a ⟨c, executor⟩
  | took (w : Nat) (executor : Executor) (h : Executor.step s.executor (.take w) = some executor) :
      Moved s (.take w) ⟨s.coordinator, executor⟩
  | worked (a : Action) (w : Nat) (x y : WorkerPhase) (c : Coordinator) (executor : Executor) (ha : a.own = true)
      (hx : s.executor.workers[w]? = some x) (hw : executor.workers = s.executor.workers.set w y)
      (hless : Executor.sections y < Executor.sections x) (hc : c.handlers = s.coordinator.handlers)
      (hqueue : executor.queue = s.executor.queue) (hstop : executor.stopping = s.executor.stopping) :
        Moved s a ⟨c, executor⟩

section

variable {g : BipartiteGraph} {s s' : Runtime}

theorem arrive_moved {dev : Device} {thread request shardId : Nat} {payload : WordShard} {arrivalTime : Int}
    {env : ArrivalEnv} (h : step g s (.arrive dev thread request shardId payload arrivalTime env) = some s') :
    Moved s (.arrive dev thread request shardId payload arrivalTime env) s' := by
  simp only [step] at h
  obtain ⟨c, hc, rfl⟩ := Option.map_eq_some_iff.1 h
  have hexec : (s.stageArrival dev request shardId payload).1.workers = s.executor.workers ∧
      (s.stageArrival dev request shardId payload).1.stopping = s.executor.stopping ∧
      (s.stageArrival dev request shardId payload).1.queue = s.executor.queue := by
    rcases s.stageArrival_executor dev request shardId payload with he | ⟨n, he⟩
    · rw [he]
      exact ⟨rfl, rfl, rfl⟩
    · rw [he]
      exact s.executor.stageShard_spec dev request n shardId payload
  obtain ⟨hw, hstop, hq⟩ := hexec
  simp only [CodedLLM.step] at hc
  split at hc
  · rename_i hidle hnone
    obtain rfl := Option.some.inj hc
    refine .arrived _ thread .idle _ _ rfl rfl hidle ?_ hw hq hstop
    rw [← hidle, Function.update_eq_self]
  · rename_i st hidle hst
    obtain rfl := Option.some.inj hc
    exact .arrived _ thread _ _ _ rfl rfl hidle rfl hw hq hstop
  · cases hc

theorem submit_moved {thread : Nat} {env : SubmitEnv} (h : step g s (.submit thread env) = some s') :
    Moved s (.submit thread env) s' := by
  simp only [step] at h
  split at h
  · rename_i request plan shards hh
    obtain ⟨c, hc, rfl⟩ := Option.map_eq_some_iff.1 h
    simp only [CodedLLM.step, hh] at hc
    cases hanswer : (s.executor.submit env request plan shards true).2 with
    | error e =>
      rw [hanswer] at hc
      obtain rfl := Option.some.inj hc
      exact .submitted thread env request plan shards .idle _ hh (Nat.zero_le _) rfl
    | ok accepted =>
      rw [hanswer] at hc
      cases accepted with
      | true =>
        obtain rfl := Option.some.inj hc
        exact .submitted thread env request plan shards (.accepted request) _ hh (by rw [hanswer]; exact le_rfl) rfl
      | false =>
        obtain rfl := Option.some.inj hc
        exact .submitted thread env request plan shards (.refused request) _ hh (by rw [hanswer]; exact le_rfl) rfl
  · cases h

theorem coordinatorStep_eq {a : CodedLLM.Action} : s.coordinatorStep g a = some s' ↔
    ∃ c, CodedLLM.step g s.coordinator a = some c ∧ ⟨c, s.executor⟩ = s' := by
  rw [coordinatorStep, Option.map_eq_some_iff]

theorem recheck_moved {thread : Nat} (h : step g s (.recheck thread) = some s') : Moved s (.recheck thread) s' := by
  obtain ⟨c, hc, rfl⟩ := coordinatorStep_eq.1 h
  simp only [CodedLLM.step] at hc
  split at hc
  · rename_i request hh
    split at hc
    · obtain rfl := Option.some.inj hc
      refine .handled _ thread _ _ _ rfl rfl ?_ rfl rfl le_rfl rfl
      rw [hh]
      split <;> simp [HandlerPhase.sections]
    · cases hc
  · cases hc

theorem rollback_moved {thread : Nat} (h : step g s (.rollback thread) = some s') : Moved s (.rollback thread) s' := by
  obtain ⟨c, hc, rfl⟩ := coordinatorStep_eq.1 h
  simp only [CodedLLM.step] at hc
  split at hc
  · rename_i request hh
    split at hc
    · obtain rfl := Option.some.inj hc
      refine .handled _ thread _ _ _ rfl rfl ?_ rfl rfl le_rfl rfl
      rw [hh]
      exact Nat.zero_lt_one
    · cases hc
  · cases hc

theorem cancel_moved {thread : Nat} (h : step g s (.cancel thread) = some s') : Moved s (.cancel thread) s' := by
  simp only [step] at h
  split at h
  · rename_i request hh
    obtain ⟨c, hc, rfl⟩ := Option.map_eq_some_iff.1 h
    simp only [CodedLLM.step, hh, Option.some.injEq] at hc
    obtain ⟨hw, hstop, hq⟩ := s.executor.cancel_keeps request
    refine .handled _ thread .idle _ _ rfl rfl ?_ (by rw [← hc]; rfl) hw hq hstop
    rw [hh]
    exact Nat.zero_lt_one
  · cases h

theorem busy_moved {a : Action} {work : Executor.Action} {w : Nat} {c : Coordinator} {executor : Executor}
    (ha : a.own = true) (hwork : (∃ env, work = .execute w env) ∨ work = .check w ∨ work = .deliver w)
    (h : Executor.step s.executor work = some executor) (hc : c.handlers = s.coordinator.handlers) :
    Moved s a ⟨c, executor⟩ := by
  obtain ⟨hq, hstop, x, y, hx, hw, -, -, hlt⟩ := Executor.busy_spec hwork h
  exact .worked a w x y c executor ha hx hw hlt hc hq hstop

theorem workerStep_eq {a : Executor.Action} :
    s.workerStep a = some s' ↔ ∃ executor, Executor.step s.executor a = some executor ∧
    ⟨s.coordinator, executor⟩ = s' := by
  rw [workerStep, Option.map_eq_some_iff]

theorem complete_handlers {c c' : Coordinator} {request : Nat} {result : RecoveryTaskResult}
    (h : CodedLLM.step g c (.complete request result) = some c') : c'.handlers = c.handlers := by
  simp only [CodedLLM.step] at h
  split at h <;> obtain rfl := Option.some.inj h <;> rfl

theorem deliver_spec {w : Nat} (h : step g s (.deliver w) = some s') : ∃ task result,
    s.executor.workers[w]? = some (.delivering task result) ∧
    Executor.step s.executor (.deliver w) = some s'.executor ∧
    CodedLLM.step g s.coordinator (.complete task.requestId result) = some s'.coordinator := by
  simp only [step] at h
  split at h
  · rename_i task result hw
    obtain ⟨s₁, hs₁, hs₂⟩ := Option.bind_eq_some_iff.1 h
    obtain ⟨executor, he, rfl⟩ := workerStep_eq.1 hs₁
    obtain ⟨c, hc, rfl⟩ := coordinatorStep_eq.1 hs₂
    exact ⟨task, result, hw, he, hc⟩
  · cases h

theorem step_moved {a : Action} (h : step g s a = some s') : Moved s a s' := by
  cases a with
  | attachTransport =>
    obtain ⟨c, hc, rfl⟩ := coordinatorStep_eq.1 h
    obtain rfl := Option.some.inj hc
    exact .outside _ _ rfl rfl
  | startRequest request oracle answer =>
    obtain ⟨c, hc, rfl⟩ := coordinatorStep_eq.1 h
    obtain rfl := Option.some.inj hc
    exact .outside _ _ rfl (startRequest_handlers g s.coordinator request oracle answer)
  | arrive dev thread request shardId payload arrivalTime env => exact arrive_moved h
  | submit thread env => exact submit_moved h
  | recheck thread => exact recheck_moved h
  | rollback thread => exact rollback_moved h
  | cancel thread => exact cancel_moved h
  | take w =>
    obtain ⟨executor, he, rfl⟩ := workerStep_eq.1 h
    exact .took w executor he
  | execute w env =>
    obtain ⟨executor, he, rfl⟩ := workerStep_eq.1 h
    exact busy_moved rfl (.inl ⟨env, rfl⟩) he rfl
  | check w =>
    obtain ⟨executor, he, rfl⟩ := workerStep_eq.1 h
    exact busy_moved rfl (.inr (.inl rfl)) he rfl
  | deliver w =>
    obtain ⟨task, result, -, he, hc⟩ := deliver_spec h
    exact busy_moved rfl (.inr (.inr rfl)) he (complete_handlers hc)
  | erase w =>
    obtain ⟨executor, he, rfl⟩ := workerStep_eq.1 h
    obtain ⟨hq, hstop, hw, task, cancelled, hx⟩ := Executor.erase_spec he
    exact .worked _ w _ .waiting _ executor rfl hx hw (by simp [Executor.sections]) rfl hq hstop

end

/-! ## Every arrival is worked off -/

/-- The steps that are left to the handlers `threads`, to the queue and to the workers. -/
def rank (threads : Finset Nat) (s : Runtime) : Nat :=
  5 * s.executor.queue.length + (s.executor.workers.map Executor.sections).sum +
    ∑ t ∈ threads, (s.coordinator.handlers t).sections

theorem step_serving {g : BipartiteGraph} (s : Runtime) (a : Action) (s' : Runtime) (h : s.executor.stopping = false)
    (hs : step g s a = some s') : s'.executor.stopping = false := by
  cases step_moved hs with
  | outside a c ha hc => exact h
  | arrived a thread phase c executor ha hthread hidle hc hw hqueue hstop => exact hstop.trans h
  | submitted thread env request plan shards phase c hh hphase hc =>
    exact (s.executor.submit_spec env request plan shards true).2.1.trans h
  | handled a thread phase c executor ha hthread hless hc hw hqueue hstop => exact hstop.trans h
  | took w executor he => exact (Executor.take_spec he).2.1.trans h
  | worked a w x y c executor ha hx hw hless hc hqueue hstop => exact hstop.trans h

/-- **A step costs one, and an arrival pays eight.** -/
theorem step_rank {g : BipartiteGraph} {threads : Finset Nat} (s : Runtime) (a : Action) (s' : Runtime)
    (hserving : s.executor.stopping = false) (hthreads : ∀ t, a.handler = some t → t ∈ threads)
    (hs : step g s a = some s') :
    rank threads s' + (if a.own = true then 1 else 0) ≤ rank threads s + (if a.isArrive = true then 8 else 0) := by
  have hsum : ∀ (thread : Nat) (phase : HandlerPhase), a.handler = some thread →
      ∑ t ∈ threads, (Function.update s.coordinator.handlers thread phase t).sections +
        (s.coordinator.handlers thread).sections =
      ∑ t ∈ threads, (s.coordinator.handlers t).sections + phase.sections :=
    fun thread phase ht => sum_update_add HandlerPhase.sections _ (hthreads thread ht) phase
  cases step_moved hs with
  | outside a c ha hc =>
    simp only [rank, ha, hc, Bool.false_eq_true, if_false]
    omega
  | arrived a thread phase c executor ha hthread hidle hc hw hqueue hstop =>
    have hs := hsum thread phase hthread
    have hown : a.own = false := by
      cases a <;> first | rfl | cases ha
    have hle : phase.sections ≤ 8 := by cases phase <;> simp [HandlerPhase.sections]
    rw [hidle, show HandlerPhase.idle.sections = 0 from rfl] at hs
    simp only [rank, ha, hown, hc, hw, hqueue, if_true, Bool.false_eq_true, if_false]
    omega
  | submitted thread env request plan shards phase c hh hphase hc =>
    have hs := hsum thread phase rfl
    rw [hh, show (HandlerPhase.submitting request plan shards).sections = 8 from rfl] at hs
    obtain ⟨hw, -, ⟨hok, -, hq⟩ | ⟨hne, hq⟩⟩ := s.executor.submit_spec env request plan shards true
    · rw [if_pos hok] at hphase
      simp only [rank, hc, hw, hq, Action.own, Action.isArrive, if_true, Bool.false_eq_true, if_false]
      omega
    · rw [if_neg hne] at hphase
      simp only [rank, hc, hw, hq, Action.own, Action.isArrive, if_true, Bool.false_eq_true, if_false]
      omega
  | handled a thread phase c executor ha hthread hless hc hw hqueue hstop =>
    have hs := hsum thread phase hthread
    simp only [rank, ha, hc, hw, if_true]
    omega
  | took w executor he =>
    obtain ⟨hx, -, ⟨-, hdown, -⟩ | ⟨task, hq, hw⟩⟩ := Executor.take_spec he
    · rw [hserving] at hdown
      cases hdown
    · have hs := sum_map_set Executor.sections hx (.executing task)
      rw [show Executor.sections .waiting = 0 from rfl, show Executor.sections (.executing task) = 4 from rfl] at hs
      simp only [rank, hq, hw, List.length_cons, Action.own, if_true]
      omega
  | worked a w x y c executor ha hx hw hless hc hqueue hstop =>
    have hs := sum_map_set Executor.sections hx y
    simp only [rank, ha, hc, hw, hqueue, if_true]
    omega

end Runtime

end CodedLLM
