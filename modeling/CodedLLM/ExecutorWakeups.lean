import CodedLLM.ExecutorLedger
import CodedLLM.Progress
import CodedLLM.WaitSets
/-!
# ExecutorWakeups — the condition variable of `CudaRecoveryExecutor` and its destructor

`Executor.step` lets an idle worker take a task whenever there is one.  Here an idle worker is asleep on
`work_available`, or it is awake and will test the predicate of its `wait` under the lock, or it has just ended a
round and is about to call `notify_all`, which it does after it has released the lock.  `Submit` notifies one worker
inside its section.  `~Impl` sets `stopping`, notifies all after its section, and joins the workers one after another.

Sleep changes nothing of what the executor computes (`executor_refined`), and no task waits for a worker that sleeps.
-/
namespace CodedLLM

open Runs WaitSets

namespace Executor

def idle (s : Executor) : Finset Nat := (Finset.range s.workers.length).filter (fun w => s.workers[w]? = some .waiting)

@[simp] theorem mem_idle {s : Executor} {w : Nat} : w ∈ s.idle ↔ s.workers[w]? = some .waiting := by
  simp only [idle, Finset.mem_filter, Finset.mem_range, and_iff_right_iff_imp]
  intro h
  exact (List.getElem?_eq_some_iff.1 h).1

theorem mem_idle_set {s s' : Executor} {w : Nat} {x y : WorkerPhase} (hx : s.workers[w]? = some x)
    (hw : s'.workers = s.workers.set w y) (v : Nat) : v ∈ s'.idle ↔ if v = w then y = .waiting else v ∈ s.idle := by
  have hlt : w < s.workers.length := (List.getElem?_eq_some_iff.1 hx).1
  rw [mem_idle, hw]
  by_cases hv : v = w
  · rw [hv, if_pos rfl, List.getElem?_set_self hlt]
    exact Option.some_inj
  · rw [if_neg hv, List.getElem?_set_ne (Ne.symm hv), mem_idle]

theorem idle_of_workers {s s' : Executor} (hw : s'.workers = s.workers) : s'.idle = s.idle := by
  rw [idle, idle, hw]

def sections : WorkerPhase → Nat
  | .executing _   => 4
  | .executed ..   => 3
  | .delivering .. => 2
  | .finishing ..  => 1
  | .waiting       => 0
  | .exited        => 0

/-! ## The worker's sections, one by one -/

theorem take_spec {s s' : Executor} {w : Nat} (h : step s (.take w) = some s') :
    s.workers[w]? = some .waiting ∧ s'.stopping = s.stopping ∧
    ((s.queue = [] ∧ s.stopping = true ∧ s'.queue = [] ∧ s'.workers = s.workers.set w .exited) ∨
      ∃ task, s.queue = task :: s'.queue ∧ s'.workers = s.workers.set w (.executing task)) := by
  simp only [step] at h
  split at h
  · rename_i hw hq
    split at h
    · rename_i hstop
      obtain rfl := Option.some.inj h
      exact ⟨hw, rfl, .inl ⟨hq, hstop, hq, rfl⟩⟩
    · cases h
  · rename_i task rest hw hq
    obtain rfl := Option.some.inj h
    exact ⟨hw, rfl, .inr ⟨task, hq, rfl⟩⟩
  · cases h

theorem exists_take {s : Executor} {w : Nat} (hw : s.workers[w]? = some .waiting)
    (hpred : ¬ (s.stopping = false ∧ s.queue = [])) : ∃ s', step s (.take w) = some s' := by
  simp only [step, hw]
  cases hq : s.queue with
  | nil =>
    have hstop : s.stopping = true := by
      cases hs : s.stopping with
      | true => rfl
      | false => exact absurd ⟨hs, hq⟩ hpred
    exact ⟨_, if_pos hstop⟩
  | cons task rest => exact ⟨_, rfl⟩

/-- **A worker within its round**: it executes, looks whether its task is cancelled, or calls the handler. -/
theorem busy_spec {s s' : Executor} {w : Nat} {a : Action}
    (ha : (∃ env, a = .execute w env) ∨ a = .check w ∨ a = .deliver w) (h : step s a = some s') :
    s'.queue = s.queue ∧ s'.stopping = s.stopping ∧ ∃ x y, s.workers[w]? = some x ∧ s'.workers = s.workers.set w y ∧
      x.held.isSome = true ∧ y.held.isSome = true ∧ sections y < sections x := by
  rcases ha with ⟨env, rfl⟩ | rfl | rfl
  · simp only [step] at h
    split at h
    · rename_i task hw
      obtain rfl := Option.some.inj h
      exact ⟨rfl, rfl, _, _, hw, rfl, rfl, rfl, by simp [sections]⟩
    · cases h
  · simp only [step] at h
    split at h
    · rename_i task result hw
      split at h <;> obtain rfl := Option.some.inj h <;>
        exact ⟨rfl, rfl, _, _, hw, rfl, rfl, rfl, by simp [sections]⟩
    · cases h
  · simp only [step] at h
    split at h
    · rename_i task result hw
      obtain rfl := Option.some.inj h
      exact ⟨rfl, rfl, _, _, hw, rfl, rfl, rfl, by simp [sections]⟩
    · cases h

theorem erase_spec {s s' : Executor} {w : Nat} (h : step s (.erase w) = some s') :
    s'.queue = s.queue ∧ s'.stopping = s.stopping ∧ s'.workers = s.workers.set w .waiting ∧
      ∃ task cancelled, s.workers[w]? = some (.finishing task cancelled) := by
  simp only [step] at h
  split at h
  · rename_i task cancelled hw
    obtain rfl := Option.some.inj h
    exact ⟨rfl, rfl, rfl, task, cancelled, hw⟩
  · cases h

theorem exists_busy {s : Executor} {w : Nat} {x : WorkerPhase} (hw : s.workers[w]? = some x) (hx : x.held.isSome = true)
    (env : ExecuteEnv) : ∃ a ∈ [Action.execute w env, .check w, .deliver w, .erase w], ∃ s', step s a = some s' := by
  cases x with
  | waiting => cases hx
  | exited => cases hx
  | executing task => exact ⟨.execute w env, by simp, _, by simp only [step, hw]; rfl⟩
  | executed task result =>
    refine ⟨.check w, by simp, ?_⟩
    simp only [step, hw]
    split <;> exact ⟨_, rfl⟩
  | delivering task result => exact ⟨.deliver w, by simp, _, by simp only [step, hw]; rfl⟩
  | finishing task cancelled => exact ⟨.erase w, by simp, _, by simp only [step, hw]; rfl⟩

theorem submit_spec (s : Executor) (env : SubmitEnv) (requestId : Nat) (plan : DecodePlan) (shards : ShardSlots)
    (completion : Bool) :
    (s.submit env requestId plan shards completion).1.workers = s.workers ∧
      (s.submit env requestId plan shards completion).1.stopping = s.stopping ∧
      (((s.submit env requestId plan shards completion).2 = .ok true ∧ s.stopping = false ∧
          (s.submit env requestId plan shards completion).1.queue.length = s.queue.length + 1) ∨
        ((s.submit env requestId plan shards completion).2 ≠ .ok true ∧
          (s.submit env requestId plan shards completion).1.queue = s.queue)) := by
  unfold submit
  split
  · exact ⟨rfl, rfl, .inr ⟨by simp, rfl⟩⟩
  split
  · exact ⟨rfl, rfl, .inr ⟨by simp, rfl⟩⟩
  rename_i hfree
  simp only [not_or, Bool.not_eq_true] at hfree
  cases s.stagedContexts requestId with
  | some staged =>
    simp only
    split
    · exact ⟨rfl, rfl, .inr ⟨by simp, rfl⟩⟩
    · exact ⟨rfl, rfl, .inl ⟨rfl, hfree.1, by simp [enqueue, setStaged]⟩⟩
  | none =>
    cases stagePresent env shards with
    | error e => exact ⟨rfl, rfl, .inr ⟨by simp, rfl⟩⟩
    | ok context => exact ⟨rfl, rfl, .inl ⟨rfl, hfree.1, by simp [enqueue]⟩⟩

theorem stageShard_spec (s : Executor) (dev : Device) (requestId shardCount shardId : Nat) (payload : WordShard) :
    (s.stageShard dev requestId shardCount shardId payload).state.workers = s.workers ∧
      (s.stageShard dev requestId shardCount shardId payload).state.stopping = s.stopping ∧
      (s.stageShard dev requestId shardCount shardId payload).state.queue = s.queue := by
  have h := stageShard_cases s dev requestId shardCount shardId payload
  generalize (s.stageShard dev requestId shardCount shardId payload).state = s' at h ⊢
  cases h
  exact ⟨rfl, rfl, rfl⟩

theorem cancel_keeps (s : Executor) (requestId : Nat) :
    (s.cancel requestId).1.workers = s.workers ∧ (s.cancel requestId).1.stopping = s.stopping ∧
      (s.cancel requestId).1.queue.length ≤ s.queue.length := by
  rcases s.cancel_spec requestId with ⟨task, pre, post, hq, -, heq⟩ | ⟨-, -, heq⟩ | ⟨-, -, heq⟩
  · rw [heq, hq]
    exact ⟨rfl, rfl, (sublist_without pre post task).length_le⟩
  · rw [heq]
    exact ⟨rfl, rfl, le_rfl⟩
  · rw [heq]
    exact ⟨rfl, rfl, le_rfl⟩

end Executor

inductive Teardown where
  | alive
  /-- `stopping` is set, and `notify_all` is to come -/
  | notifying
  /-- the next worker to join -/
  | joining (worker : Nat)
  deriving DecidableEq, Repr

/-- The executor with the workers asleep on `work_available` and those about to call `notify_all`. -/
structure LiveExecutor where
  executor : Executor
  asleep : Finset Nat
  notifying : Finset Nat
  teardown : Teardown

namespace LiveExecutor

inductive Action where
  | stageShard (dev : Device) (requestId shardCount shardId : Nat) (payload : WordShard)
  /-- `woken` is the worker that `notify_one` wakes -/
  | submit (env : SubmitEnv) (requestId : Nat) (plan : DecodePlan) (shards : ShardSlots) (completion : Bool)
      (woken : Option Nat)
  | cancel (requestId : Nat)
  | stop
  | notifyStop
  | join
  /-- an awake worker has the lock and tests the predicate of its `wait` -/
  | wait (worker : Nat)
  /-- a sleeping worker wakes up although nobody notified it -/
  | spurious (worker : Nat)
  | execute (worker : Nat) (env : ExecuteEnv)
  | check (worker : Nat)
  | deliver (worker : Nat)
  | erase (worker : Nat)
  | notify (worker : Nat)

def start (s : Executor) : LiveExecutor := ⟨s, ∅, ∅, .alive⟩

def quietStep (s : LiveExecutor) (a : Executor.Action) : Option LiveExecutor :=
  (Executor.step s.executor a).map (fun executor => { s with executor })

def step (s : LiveExecutor) : Action → Option LiveExecutor
  | .stageShard dev requestId shardCount shardId payload =>
    s.quietStep (.stageShard dev requestId shardCount shardId payload)
  | .submit env requestId plan shards completion woken =>
    match s.executor.submit env requestId plan shards completion with
    | (executor, .ok true) => (notifyOne s.asleep woken).map (fun asleep => { s with executor, asleep })
    | (executor, _) => if woken = none then some { s with executor } else none
  | .cancel requestId => s.quietStep (.cancel requestId)
  | .stop =>
    if s.teardown = .alive then (s.quietStep .shutdown).map (fun s => { s with teardown := .notifying }) else none
  | .notifyStop => if s.teardown = .notifying then some { s with asleep := ∅, teardown := .joining 0 } else none
  | .join =>
    match s.teardown with
    | .joining worker =>
      if s.executor.workers[worker]? = some .exited then some { s with teardown := .joining (worker + 1) } else none
    | _ => none
  | .wait worker =>
    if worker ∈ s.asleep ∨ worker ∈ s.notifying ∨ s.executor.workers[worker]? ≠ some .waiting then none
    else if s.executor.stopping = false ∧ s.executor.queue = [] then some { s with asleep := insert worker s.asleep }
    else s.quietStep (.take worker)
  | .spurious worker => if worker ∈ s.asleep then some { s with asleep := s.asleep.erase worker } else none
  | .execute worker env => s.quietStep (.execute worker env)
  | .check worker => s.quietStep (.check worker)
  | .deliver worker => s.quietStep (.deliver worker)
  | .erase worker => (s.quietStep (.erase worker)).map (fun s => { s with notifying := insert worker s.notifying })
  | .notify worker =>
    if worker ∈ s.notifying then some { s with asleep := ∅, notifying := s.notifying.erase worker } else none

def Action.own : Action → Bool
  | .stageShard .. | .submit .. | .cancel _ | .stop => false
  | _ => true

def Destroyed (s : LiveExecutor) : Prop := s.teardown = .joining s.executor.workers.length

/-- **Everything one step can do**, with the step of `Executor` it stands for. -/
inductive Stepped (s : LiveExecutor) : Action → LiveExecutor → Prop
  | called (a : Action) (call : Executor.Action) (executor : Executor) (ha : a.own = false)
      (h : Executor.step s.executor call = some executor) (hw : executor.workers = s.executor.workers)
      (hstop : executor.stopping = s.executor.stopping) (hqueue : executor.queue.length ≤ s.executor.queue.length) :
      Stepped s a { s with executor }
  | pushed (a : Action) (call : Executor.Action) (executor : Executor) (woken : Option Nat) (asleep : Finset Nat)
      (ha : a.own = false) (h : Executor.step s.executor call = some executor)
      (hw : executor.workers = s.executor.workers) (hopen : s.executor.stopping = false)
      (hstop : executor.stopping = s.executor.stopping) (hqueue : executor.queue.length = s.executor.queue.length + 1)
      (hn : notifyOne s.asleep woken = some asleep) : Stepped s a { s with executor, asleep }
  | stopped (halive : s.teardown = .alive) :
      Stepped s .stop { s with executor := { s.executor with stopping := true }, teardown := .notifying }
  | stopNotified (hdown : s.teardown = .notifying) :
      Stepped s .notifyStop { s with asleep := ∅, teardown := .joining 0 }
  | joined (w : Nat) (hdown : s.teardown = .joining w) (hw : s.executor.workers[w]? = some .exited) :
      Stepped s .join { s with teardown := .joining (w + 1) }
  | slept (w : Nat) (hidle : w ∈ s.executor.idle) (hasleep : w ∉ s.asleep) (hnot : w ∉ s.notifying)
      (hopen : s.executor.stopping = false) (hqueue : s.executor.queue = []) :
      Stepped s (.wait w) { s with asleep := insert w s.asleep }
  | left (w : Nat) (executor : Executor) (h : Executor.step s.executor (.take w) = some executor)
      (hidle : w ∈ s.executor.idle) (hasleep : w ∉ s.asleep) (hnot : w ∉ s.notifying)
      (hw : executor.workers = s.executor.workers.set w .exited) (hdown : s.executor.stopping = true)
      (hstop : executor.stopping = s.executor.stopping) (hqueue : s.executor.queue = [])
        (hqueue' : executor.queue = []) :
      Stepped s (.wait w) { s with executor }
  | took (w : Nat) (executor : Executor) (task : ExecutorTask) (h : Executor.step s.executor (.take w) = some executor)
      (hidle : w ∈ s.executor.idle) (hasleep : w ∉ s.asleep) (hnot : w ∉ s.notifying)
      (hw : executor.workers = s.executor.workers.set w (.executing task))
      (hstop : executor.stopping = s.executor.stopping) (hqueue : s.executor.queue = task :: executor.queue) :
      Stepped s (.wait w) { s with executor }
  | woke (w : Nat) (hasleep : w ∈ s.asleep) : Stepped s (.spurious w) { s with asleep := s.asleep.erase w }
  | worked (a : Action) (work : Executor.Action) (w : Nat) (x y : WorkerPhase) (executor : Executor) (ha : a.own = true)
      (h : Executor.step s.executor work = some executor) (hx : s.executor.workers[w]? = some x)
      (hw : executor.workers = s.executor.workers.set w y) (hxh : x.held.isSome = true) (hyh : y.held.isSome = true)
      (hless : Executor.sections y < Executor.sections x) (hstop : executor.stopping = s.executor.stopping)
      (hqueue : executor.queue = s.executor.queue) : Stepped s a { s with executor }
  | erased (w : Nat) (task : ExecutorTask) (cancelled : Bool) (executor : Executor)
      (h : Executor.step s.executor (.erase w) = some executor)
      (hx : s.executor.workers[w]? = some (.finishing task cancelled))
      (hw : executor.workers = s.executor.workers.set w .waiting) (hstop : executor.stopping = s.executor.stopping)
      (hqueue : executor.queue = s.executor.queue) :
      Stepped s (.erase w) { s with executor, notifying := insert w s.notifying }
  | notified (w : Nat) (hnot : w ∈ s.notifying) :
      Stepped s (.notify w) { s with asleep := ∅, notifying := s.notifying.erase w }

theorem quietStep_eq {s s' : LiveExecutor} {a : Executor.Action} :
    s.quietStep a = some s' ↔ ∃ executor, Executor.step s.executor a = some executor ∧ { s with executor } = s' := by
  rw [quietStep, Option.map_eq_some_iff]

theorem worked_cases {s s' : LiveExecutor} {a : Action} {work : Executor.Action} {w : Nat} (ha : a.own = true)
    (hwork : (∃ env, work = .execute w env) ∨ work = .check w ∨ work = .deliver w) (h : s.quietStep work = some s') :
    Stepped s a s' := by
  obtain ⟨executor, hstep, rfl⟩ := quietStep_eq.1 h
  obtain ⟨hq, hs, x, y, hx, hw, hxh, hyh, hlt⟩ := Executor.busy_spec hwork hstep
  exact .worked a work w x y executor ha hstep hx hw hxh hyh hlt hs hq

theorem wait_cases {s s' : LiveExecutor} {w : Nat} (h : step s (.wait w) = some s') : Stepped s (.wait w) s' := by
  simp only [step] at h
  split at h
  · cases h
  rename_i hfree
  simp only [not_or, not_not] at hfree
  obtain ⟨hasleep, hnot, hw⟩ := hfree
  have hidle : w ∈ s.executor.idle := Executor.mem_idle.2 hw
  split at h
  · rename_i hpred
    obtain rfl := Option.some.inj h
    exact .slept w hidle hasleep hnot hpred.1 hpred.2
  · obtain ⟨executor, hstep, rfl⟩ := quietStep_eq.1 h
    obtain ⟨-, hstop, ⟨hq, hdown, hq', hset⟩ | ⟨task, hq, hset⟩⟩ := Executor.take_spec hstep
    · exact .left w executor hstep hidle hasleep hnot hset hdown hstop hq hq'
    · exact .took w executor task hstep hidle hasleep hnot hset hstop hq

theorem submit_cases {s s' : LiveExecutor} {env : SubmitEnv} {requestId : Nat} {plan : DecodePlan} {shards : ShardSlots}
    {completion : Bool} {woken : Option Nat}
    (h : step s (.submit env requestId plan shards completion woken) = some s') :
    Stepped s (.submit env requestId plan shards completion woken) s' := by
  have hspec := s.executor.submit_spec env requestId plan shards completion
  have hcall : Executor.step s.executor (.submit env requestId plan shards completion) =
      some (s.executor.submit env requestId plan shards completion).1 := rfl
  simp only [step] at h
  generalize s.executor.submit env requestId plan shards completion = r at h hspec hcall
  obtain ⟨executor, answer⟩ := r
  obtain ⟨hw, hstop, ⟨rfl, hopen, hq⟩ | ⟨hne, hq⟩⟩ := hspec
  · obtain ⟨asleep, hn, rfl⟩ := Option.map_eq_some_iff.1 h
    exact .pushed _ _ executor woken asleep rfl hcall hw hopen hstop hq hn
  · split at h
    · rename_i heq
      obtain ⟨rfl, rfl⟩ := Prod.mk.inj heq
      exact absurd rfl hne
    · rename_i heq
      obtain ⟨rfl, rfl⟩ := Prod.mk.inj heq
      split at h
      · obtain rfl := Option.some.inj h
        exact .called _ _ executor rfl hcall hw hstop (by rw [hq])
      · cases h

theorem step_cases {s s' : LiveExecutor} {a : Action} (h : step s a = some s') : Stepped s a s' := by
  cases a with
  | stageShard dev requestId shardCount shardId payload =>
    obtain ⟨executor, hstep, rfl⟩ := quietStep_eq.1 h
    obtain ⟨hw, hstop, hq⟩ := s.executor.stageShard_spec dev requestId shardCount shardId payload
    obtain rfl := Option.some.inj hstep
    exact .called _ _ _ rfl hstep hw hstop (by rw [hq])
  | submit env requestId plan shards completion woken => exact submit_cases h
  | cancel requestId =>
    obtain ⟨executor, hstep, rfl⟩ := quietStep_eq.1 h
    obtain ⟨hw, hstop, hq⟩ := s.executor.cancel_keeps requestId
    obtain rfl := Option.some.inj hstep
    exact .called _ _ _ rfl hstep hw hstop hq
  | stop =>
    simp only [step] at h
    split at h
    · rename_i halive
      obtain rfl := Option.some.inj h
      exact .stopped halive
    · cases h
  | notifyStop =>
    simp only [step] at h
    split at h
    · rename_i hdown
      obtain rfl := Option.some.inj h
      exact .stopNotified hdown
    · cases h
  | join =>
    simp only [step] at h
    split at h
    · rename_i w hdown
      split at h
      · rename_i hw
        obtain rfl := Option.some.inj h
        exact .joined w hdown hw
      · cases h
    · cases h
  | wait w => exact wait_cases h
  | spurious w =>
    simp only [step] at h
    split at h
    · rename_i hasleep
      obtain rfl := Option.some.inj h
      exact .woke w hasleep
    · cases h
  | execute w env => exact worked_cases rfl (.inl ⟨env, rfl⟩) h
  | check w => exact worked_cases rfl (.inr (.inl rfl)) h
  | deliver w => exact worked_cases rfl (.inr (.inr rfl)) h
  | erase w =>
    obtain ⟨s₁, hquiet, rfl⟩ := Option.map_eq_some_iff.1 h
    obtain ⟨executor, hstep, rfl⟩ := quietStep_eq.1 hquiet
    obtain ⟨hq, hstop, hw, task, cancelled, hx⟩ := Executor.erase_spec hstep
    exact .erased w task cancelled executor hstep hx hw hstop hq
  | notify w =>
    simp only [step] at h
    split at h
    · rename_i hnot
      obtain rfl := Option.some.inj h
      exact .notified w hnot
    · cases h

/-! ## No wake-up is lost -/

structure Tended (s : LiveExecutor) : Prop where
  asleep : s.asleep ⊆ s.executor.idle
  notifying : s.notifying ⊆ s.executor.idle
  apart : Disjoint s.asleep s.notifying
  attended : Attended s.executor.idle s.asleep s.executor.queue.length
  stopping : s.executor.stopping = true ↔ s.teardown ≠ .alive
  joining : ∀ w, s.teardown = .joining w → s.asleep = ∅ ∧ w ≤ s.executor.workers.length

theorem Tended.start {concurrencyLimit maxQueueDepth : UInt64} {cost : Int} {s : Executor}
    (hmake : Executor.make concurrencyLimit maxQueueDepth cost = .ok s) : Tended (start s) := by
  obtain ⟨-, -, -, heq⟩ := Executor.make_ok hmake
  refine ⟨Finset.empty_subset _, Finset.empty_subset _, Finset.disjoint_empty_left _, attended_empty _ _, ?_, ?_⟩
  · rw [heq]
    simp [LiveExecutor.start]
  · intro w hw
    cases hw

theorem ne_waiting_of_held {x : WorkerPhase} (h : x.held.isSome = true) : x ≠ .waiting := by
  rintro rfl
  cases h

theorem idle_of_busy {s s' : Executor} {w : Nat} {x y : WorkerPhase} (hx : s.workers[w]? = some x)
    (hw : s'.workers = s.workers.set w y) (hxh : x.held.isSome = true) (hyh : y.held.isSome = true) :
    s'.idle = s.idle := by
  have hxi := ne_waiting_of_held hxh
  have hyi := ne_waiting_of_held hyh
  apply Finset.ext
  intro v
  rw [Executor.mem_idle_set hx hw]
  by_cases hv : v = w
  · rw [if_pos hv, hv, Executor.mem_idle, hx, Option.some.injEq]
    exact iff_of_false hyi hxi
  · rw [if_neg hv]

theorem idle_of_leaving {s s' : Executor} {w : Nat} {y : WorkerPhase} (hx : w ∈ s.idle)
    (hw : s'.workers = s.workers.set w y) (hyi : y ≠ .waiting) : s'.idle = s.idle.erase w := by
  apply Finset.ext
  intro v
  rw [Executor.mem_idle_set (Executor.mem_idle.1 hx) hw, Finset.mem_erase]
  by_cases hv : v = w
  · rw [if_pos hv]
    exact iff_of_false hyi (fun h => h.1 hv)
  · rw [if_neg hv]
    exact ⟨fun h => ⟨hv, h⟩, fun h => h.2⟩

theorem idle_of_coming {s s' : Executor} {w : Nat} {x : WorkerPhase} (hx : s.workers[w]? = some x)
    (hw : s'.workers = s.workers.set w .waiting) : s'.idle = insert w s.idle := by
  apply Finset.ext
  intro v
  rw [Executor.mem_idle_set hx hw, Finset.mem_insert]
  by_cases hv : v = w
  · rw [if_pos hv]
    exact iff_of_true rfl (.inl hv)
  · rw [if_neg hv]
    exact ⟨.inr, fun h => h.resolve_left hv⟩

theorem Tended.update {s : LiveExecutor} (h : Tended s) {executor : Executor} {idle asleep notifying : Finset Nat}
    (hlen : executor.workers.length = s.executor.workers.length) (hstop : executor.stopping = s.executor.stopping)
    (hidle : executor.idle = idle) (hsub : asleep ⊆ s.asleep) (hasleep : asleep ⊆ idle) (hnot : notifying ⊆ idle)
    (hapart : Disjoint asleep notifying) (hatt : Attended idle asleep executor.queue.length) :
    Tended { s with executor, asleep, notifying } := by
  subst hidle
  refine ⟨hasleep, hnot, hapart, hatt, ?_, ?_⟩
  · show executor.stopping = true ↔ _
    rw [hstop]
    exact h.stopping
  · intro w hw
    show asleep = ∅ ∧ w ≤ executor.workers.length
    obtain ⟨hempty, hw⟩ := h.joining w hw
    rw [hlen]
    exact ⟨Finset.subset_empty.1 (hempty ▸ hsub), hw⟩

theorem Tended.of_called {s : LiveExecutor} (h : Tended s) {executor : Executor} {asleep : Finset Nat}
    (hw : executor.workers = s.executor.workers) (hstop : executor.stopping = s.executor.stopping)
    (hsub : asleep ⊆ s.asleep) (hatt : Attended s.executor.idle asleep executor.queue.length) :
    Tended { s with executor, asleep } := by
  apply h.update (by rw [hw]) hstop (Executor.idle_of_workers hw) hsub
  · exact hsub.trans h.asleep
  · exact h.notifying
  · exact h.apart.mono_left hsub
  · exact hatt

theorem Tended.leave {s : LiveExecutor} (h : Tended s) {w : Nat} {y : WorkerPhase} {executor : Executor}
    (hidle : w ∈ s.executor.idle) (hasleep : w ∉ s.asleep) (hnot : w ∉ s.notifying)
    (hw : executor.workers = s.executor.workers.set w y) (hyi : y ≠ .waiting)
    (hstop : executor.stopping = s.executor.stopping)
    (hatt : Attended (s.executor.idle.erase w) s.asleep executor.queue.length) : Tended { s with executor } := by
  apply h.update (by rw [hw, List.length_set]) hstop (idle_of_leaving hidle hw hyi) subset_rfl
  · exact Finset.subset_erase.2 ⟨h.asleep, hasleep⟩
  · exact Finset.subset_erase.2 ⟨h.notifying, hnot⟩
  · exact h.apart
  · exact hatt

theorem step_tended (s : LiveExecutor) (a : Action) (s' : LiveExecutor) (h : Tended s) (hs : step s a = some s') :
    Tended s' := by
  cases step_cases hs with
  | called a call executor ha hcall hw hstop hqueue =>
    exact h.of_called hw hstop subset_rfl (h.attended.fewer hqueue)
  | pushed a call executor woken asleep ha hcall hw hopen hstop hqueue hn =>
    apply h.of_called hw hstop (notifyOne_subset hn)
    rw [hqueue]
    exact h.attended.push h.asleep hn
  | stopped halive =>
    refine ⟨h.asleep, h.notifying, h.apart, h.attended, iff_of_true rfl (by simp), ?_⟩
    intro w hw
    cases hw
  | stopNotified hdown =>
    refine ⟨Finset.empty_subset _, h.notifying, Finset.disjoint_empty_left _, attended_empty _ _, ?_, ?_⟩
    · exact iff_of_true (h.stopping.2 (by rw [hdown]; simp)) (by simp)
    · intro w hw
      obtain rfl := Teardown.joining.inj hw
      exact ⟨rfl, Nat.zero_le _⟩
  | joined w hdown hw =>
    refine ⟨h.asleep, h.notifying, h.apart, h.attended, ?_, ?_⟩
    · exact iff_of_true (h.stopping.2 (by rw [hdown]; simp)) (by simp)
    · intro v hv
      obtain rfl := Teardown.joining.inj hv
      exact ⟨(h.joining w hdown).1, (List.getElem?_eq_some_iff.1 hw).1⟩
  | slept w hidle hasleep hnot hopen hqueue =>
    refine ⟨?_, h.notifying, ?_, ?_, h.stopping, ?_⟩
    · exact Finset.insert_subset hidle h.asleep
    · exact Finset.disjoint_insert_left.2 ⟨hnot, h.apart⟩
    · show Attended _ _ s.executor.queue.length
      rw [hqueue]
      exact attended_zero _ _
    · -- nobody falls asleep once the destructor has begun
      intro v hv
      have hdown : s.executor.stopping = true := h.stopping.2 (by rw [hv]; simp)
      rw [hopen] at hdown
      cases hdown
  | left w executor hstep hidle hasleep hnot hw hdown hstop hqueue hqueue' =>
    apply h.leave hidle hasleep hnot hw (by simp) hstop
    rw [hqueue']
    exact attended_zero _ _
  | took w executor task hstep hidle hasleep hnot hw hstop hqueue =>
    apply h.leave hidle hasleep hnot hw (by simp) hstop
    have hatt := h.attended
    rw [hqueue] at hatt
    exact hatt.pop (Finset.mem_sdiff.2 ⟨hidle, hasleep⟩)
  | woke w hasleep =>
    exact h.of_called rfl rfl (Finset.erase_subset _ _) (h.attended.mono subset_rfl (Finset.erase_subset _ _))
  | worked a work w x y executor ha hstep hx hw hxh hyh hless hstop hqueue =>
    apply h.update (by rw [hw, List.length_set]) hstop (idle_of_busy hx hw hxh hyh) subset_rfl
    · exact h.asleep
    · exact h.notifying
    · exact h.apart
    · rw [hqueue]
      exact h.attended
  | erased w task cancelled executor hstep hx hw hstop hqueue =>
    have hbusy : w ∉ s.asleep := by
      intro hm
      have hidle := Executor.mem_idle.1 (h.asleep hm)
      rw [hx] at hidle
      cases hidle
    apply h.update (by rw [hw, List.length_set]) hstop (idle_of_coming hx hw) subset_rfl
    · exact h.asleep.trans (Finset.subset_insert _ _)
    · exact Finset.insert_subset_insert w h.notifying
    · exact Finset.disjoint_insert_right.2 ⟨hbusy, h.apart⟩
    · rw [hqueue]
      exact h.attended.mono (Finset.subset_insert _ _) subset_rfl
  | notified w hnot =>
    apply h.update rfl rfl rfl (Finset.empty_subset _) (Finset.empty_subset _)
    · exact (Finset.erase_subset _ _).trans h.notifying
    · exact Finset.disjoint_empty_left _
    · exact attended_empty _ _

theorem run_tended {concurrencyLimit maxQueueDepth : UInt64} {cost : Int} {s₀ : Executor} {s : LiveExecutor}
    {as : List Action} (hmake : Executor.make concurrencyLimit maxQueueDepth cost = .ok s₀)
    (hrun : run step (start s₀) as = some s) : Tended s :=
  run_inv step_tended as (start s₀) s (.start hmake) hrun

/-! ## Sleep changes nothing of what the executor computes -/

theorem step_executor {s s' : LiveExecutor} {a : Action} (hs : step s a = some s') :
    s'.executor = s.executor ∨ ∃ call, Executor.step s.executor call = some s'.executor := by
  cases step_cases hs with
  | called a call executor ha hcall => exact .inr ⟨call, hcall⟩
  | pushed a call executor woken asleep ha hcall => exact .inr ⟨call, hcall⟩
  | stopped => exact .inr ⟨.shutdown, rfl⟩
  | left w executor hstep => exact .inr ⟨.take w, hstep⟩
  | took w executor task hstep => exact .inr ⟨.take w, hstep⟩
  | worked a work w x y executor ha hstep => exact .inr ⟨work, hstep⟩
  | erased w task cancelled executor hstep => exact .inr ⟨.erase w, hstep⟩
  | stopNotified => exact .inl rfl
  | joined => exact .inl rfl
  | slept => exact .inl rfl
  | woke => exact .inl rfl
  | notified => exact .inl rfl

theorem run_executor {s t : LiveExecutor} {as : List Action} (hrun : run step s as = some t) :
    ∃ bs, run Executor.step s.executor bs = some t.executor := by
  have hstep : ∀ s a s' u, True → s.executor = u → step s a = some s' →
      ∃ bs u', run Executor.step u bs = some u' ∧ s'.executor = u' := by
    rintro s a s' u - rfl hs
    rcases step_executor hs with heq | ⟨call, hcall⟩
    · exact ⟨[], s.executor, rfl, heq⟩
    · exact ⟨[call], s'.executor, (run_cons _ call [] _).2 ⟨_, hcall, rfl⟩, rfl⟩
  obtain ⟨bs, u, hbs, rfl⟩ := run_refines (fun _ _ _ _ _ => trivial) hstep as s t s.executor trivial rfl hrun
  exact ⟨bs, hbs⟩

theorem exists_awake {s : LiveExecutor} (h : Tended s) (w : Nat) : ∃ bs s', run step s bs = some s' ∧
    s'.executor = s.executor ∧ w ∉ s'.asleep ∧ w ∉ s'.notifying := by
  by_cases hasleep : w ∈ s.asleep
  · have hnot : w ∉ s.notifying := Finset.disjoint_left.1 h.apart hasleep
    exact ⟨[.spurious w], { s with asleep := s.asleep.erase w },
      (run_cons _ _ [] _).2 ⟨_, if_pos hasleep, rfl⟩, rfl, Finset.notMem_erase w _, hnot⟩
  · by_cases hnot : w ∈ s.notifying
    · exact ⟨[.notify w], { s with asleep := ∅, notifying := s.notifying.erase w },
        (run_cons _ _ [] _).2 ⟨_, if_pos hnot, rfl⟩, rfl, Finset.notMem_empty w, Finset.notMem_erase w _⟩
    · exact ⟨[], s, rfl, rfl, hasleep, hnot⟩

theorem exists_single {s : LiveExecutor} (a : Action) (s' : LiveExecutor) {executor : Executor} (h : step s a = some s')
    (he : s'.executor = executor) : ∃ bs s', run step s bs = some s' ∧ s'.executor = executor :=
  ⟨[a], s', (run_cons s a [] s').2 ⟨s', h, rfl⟩, he⟩

theorem exists_quiet {s : LiveExecutor} (a : Action) {call : Executor.Action} {executor : Executor}
    (ha : step s a = s.quietStep call) (h : Executor.step s.executor call = some executor) :
    ∃ bs s', run step s bs = some s' ∧ s'.executor = executor :=
  exists_single a _ (ha.trans (quietStep_eq.2 ⟨executor, h, rfl⟩)) rfl

/-- **Every step of `Executor` can be made here**, once the worker it takes is awake. -/
theorem exists_step {s : LiveExecutor} (h : Tended s) {call : Executor.Action} {executor : Executor}
    (hcall : Executor.step s.executor call = some executor) : ∃ bs s', run step s bs = some s' ∧
    s'.executor = executor := by
  cases call with
  | stageShard dev requestId shardCount shardId payload =>
    exact exists_quiet (.stageShard dev requestId shardCount shardId payload) rfl hcall
  | submit env requestId plan shards completion =>
    obtain ⟨woken, asleep, hn⟩ := exists_notifyOne s.asleep
    obtain rfl := Option.some.inj hcall
    cases hr : s.executor.submit env requestId plan shards completion with
    | mk executor answer =>
      by_cases hanswer : answer = .ok true
      · subst hanswer
        apply exists_single (.submit env requestId plan shards completion woken) { s with executor, asleep }
        · simp only [step, hr, hn, Option.map_some]
        · rfl
      · apply exists_single (.submit env requestId plan shards completion none) { s with executor }
        · rcases answer with e | (_ | _)
          · simp only [step, hr, if_true]
          · simp only [step, hr, if_true]
          · exact absurd rfl hanswer
        · rfl
  | cancel requestId => exact exists_quiet (.cancel requestId) rfl hcall
  | shutdown =>
    obtain rfl := Option.some.inj hcall
    by_cases halive : s.teardown = .alive
    · exact exists_single .stop { s with executor := { s.executor with stopping := true }, teardown := .notifying }
        (by simp only [step, halive]; rfl) rfl
    · refine ⟨[], s, rfl, ?_⟩
      have hdown := h.stopping.2 halive
      rw [← hdown]
  | take w =>
    obtain ⟨bs, s', hbs, hex, hasleep, hnot⟩ := exists_awake h w
    obtain ⟨hw, hspec⟩ := Executor.take_spec hcall
    have hpred : ¬ (s.executor.stopping = false ∧ s.executor.queue = []) := by
      rintro ⟨hopen, hq⟩
      obtain ⟨-, ⟨-, hdown, -⟩ | ⟨task, hq', -⟩⟩ := hspec
      · rw [hopen] at hdown
        cases hdown
      · rw [hq] at hq'
        cases hq'
    have hwait : step s' (.wait w) = some { s' with executor } := by
      simp only [step]
      rw [if_neg (by simp [hasleep, hnot, hex, hw]), if_neg (by rw [hex]; exact hpred)]
      exact quietStep_eq.2 ⟨executor, hex ▸ hcall, rfl⟩
    exact ⟨bs ++ [.wait w], { s' with executor },
      (run_append bs _ _ _).2 ⟨s', hbs, (run_cons _ _ [] _).2 ⟨_, hwait, rfl⟩⟩, rfl⟩
  | execute w env => exact exists_quiet (.execute w env) rfl hcall
  | check w => exact exists_quiet (.check w) rfl hcall
  | deliver w => exact exists_quiet (.deliver w) rfl hcall
  | erase w =>
    apply exists_single (.erase w) { s with executor, notifying := insert w s.notifying }
    · simp only [step, Option.map_eq_some_iff]
      exact ⟨_, quietStep_eq.2 ⟨executor, hcall, rfl⟩, rfl⟩
    · rfl

/-- Two workers fall asleep, two calls of `Submit` wake them, and the second is the first to take a task. -/
def wokenRun : List Action :=
  [.wait 0, .wait 1,
    .submit ⟨serialDevice, fun _ => serialDevice, 0⟩ 7 ⟨[⟨1, [2, 0]⟩], [[]], true⟩
      [some [1, 2], none, some [2, 6]] true (some 1),
    .submit ⟨serialDevice, fun _ => serialDevice, 0⟩ 8 ⟨[⟨1, [2, 0]⟩], [[]], true⟩ [some [3], none, some [4]] true
      (some 0),
    .wait 1]

/-- **Sleep changes nothing of what the executor computes**: the states its workers can reach are the same whether an
idle worker may take a task at any time or only when it is awake. -/
theorem executor_refined (concurrencyLimit maxQueueDepth : UInt64) (cost : Int) (s₀ t : Executor)
    (hmake : Executor.make concurrencyLimit maxQueueDepth cost = .ok s₀) :
    (∃ as, run Executor.step s₀ as = some t) ↔ ∃ bs s, run step (start s₀) bs = some s ∧ s.executor = t := by
  constructor
  · rintro ⟨as, hrun⟩
    have hstep : ∀ e a e' (s : LiveExecutor), True → (Tended s ∧ s.executor = e) → Executor.step e a = some e' →
        ∃ bs s', run step s bs = some s' ∧ Tended s' ∧ s'.executor = e' := by
      rintro e a e' s - ⟨hs, rfl⟩ hcall
      obtain ⟨bs, s', hbs, he⟩ := exists_step hs hcall
      exact ⟨bs, s', hbs, run_inv step_tended bs s s' hs hbs, he⟩
    obtain ⟨bs, s, hbs, -, he⟩ :=
      run_refines (fun _ _ _ _ _ => trivial) hstep as s₀ t (start s₀) trivial ⟨.start hmake, rfl⟩ hrun
    exact ⟨bs, s, hbs, he⟩
  · rintro ⟨bs, s, hbs, rfl⟩
    exact run_executor hbs

theorem executor_refined_wokenRun : ∃ s₀ s, Executor.make 2 1 5 = .ok s₀ ∧ run step (start s₀) wokenRun = some s ∧
    s.executor.queuedIds = [8] ∧ ∃ as, run Executor.step s₀ as = some s.executor := by
  obtain ⟨s₀, s, hmake, hrun, hs⟩ :=
    Executor.exists_run step start 2 1 5 wokenRun (fun _ s => s.executor.queuedIds = [8]) (by decide +kernel)
  exact ⟨s₀, s, hmake, hrun, of_decide_eq_true hs, (executor_refined 2 1 5 s₀ s.executor hmake).2
    ⟨wokenRun, s, hrun, rfl⟩⟩

/-- **No wake-up is lost.**  In every state every interleaving leads to: whoever sleeps is an idle worker; as long as
one sleeps, as many idle workers are awake as there are tasks in the queue, and otherwise all idle workers are; and
once the destructor has notified, nobody sleeps any more. -/
theorem no_wakeup_lost (concurrencyLimit maxQueueDepth : UInt64) (cost : Int) (s₀ : Executor) (s : LiveExecutor)
    (as : List Action) (hmake : Executor.make concurrencyLimit maxQueueDepth cost = .ok s₀)
    (hrun : run step (start s₀) as = some s) :
    (∀ w ∈ s.asleep, s.executor.workers[w]? = some .waiting) ∧
    (s.asleep.Nonempty → s.executor.queue.length ≤ (s.executor.idle \ s.asleep).card) ∧
    min s.executor.queue.length s.executor.idle.card ≤ (s.executor.idle \ s.asleep).card ∧
    (∀ w, s.teardown = .joining w → s.asleep = ∅) := by
  have h := run_tended hmake hrun
  refine ⟨?_, h.attended, h.attended.min_le, ?_⟩
  · intro w hw
    exact Executor.mem_idle.1 (h.asleep hw)
  · intro w hw
    exact (h.joining w hw).1

theorem no_wakeup_lost_wokenRun : ∃ s₀ s, Executor.make 2 1 5 = .ok s₀ ∧ run step (start s₀) wokenRun = some s ∧
    s.executor.queue.length = 1 ∧ s.asleep = ∅ ∧
    (∀ w ∈ s.asleep, s.executor.workers[w]? = some .waiting) ∧
    (s.asleep.Nonempty → s.executor.queue.length ≤ (s.executor.idle \ s.asleep).card) ∧
    min s.executor.queue.length s.executor.idle.card ≤ (s.executor.idle \ s.asleep).card ∧
    (∀ w, s.teardown = .joining w → s.asleep = ∅) := by
  obtain ⟨s₀, s, hmake, hrun, hs⟩ := Executor.exists_run step start 2 1 5 wokenRun
    (fun _ s => s.executor.queue.length = 1 ∧ s.asleep = ∅) (by decide +kernel)
  obtain ⟨hq, ha⟩ := of_decide_eq_true hs
  exact ⟨s₀, s, hmake, hrun, hq, ha, no_wakeup_lost 2 1 5 s₀ s wokenRun hmake hrun⟩

end LiveExecutor

end CodedLLM
