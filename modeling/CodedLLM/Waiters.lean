import CodedLLM.RuntimeSettled
/-!
# Waiters — `WaitForCompletion`

Any number of callers wait on the coordinator's condition variable, each for one request and each with a timeout.
Between two tests of its predicate a caller is asleep; a notification, the timeout or nothing at all wakes it, and
then it needs the lock again.  The two sections that end a request notify all before they release the lock, so nobody
sleeps on a request that is over.
-/
namespace CodedLLM

open Runs

inductive WaiterPhase where
  | idle
  | asleep (request : Nat)
  /-- it has to take the lock again, and its timeout may have passed -/
  | awake (request : Nat) (timedOut : Bool)
  deriving DecidableEq, Repr

def WaiterPhase.notified : WaiterPhase → WaiterPhase
  | .asleep request => .awake request false
  | phase           => phase

/-- The runtime with the callers of `WaitForCompletion` and their answers, the latest first. -/
structure WaitedRuntime where
  runtime : Runtime
  waiters : Nat → WaiterPhase
  answers : List (Nat × Nat × Bool)

namespace WaitedRuntime

inductive Action where
  | runtime (action : Runtime.Action)
  /-- the first test, under the lock the call begins with -/
  | call (waiter request : Nat)
  | spurious (waiter : Nat)
  | expire (waiter : Nat)
  /-- a caller that was woken has the lock again -/
  | resume (waiter : Nat)

/-- Whether a section calls `notify_all`: the natural completion and `OnRecoveryComplete` do. -/
def notifies (g : BipartiteGraph) (s : Runtime) : Runtime.Action → Bool
  | .arrive dev thread request shardId payload arrivalTime env =>
    match s.coordinator.handlers thread, s.coordinator.requests request with
    | .idle, some st =>
      match (onShardArrived g st shardId payload arrivalTime
        { env with staged := (s.stageArrival dev request shardId payload).2 }).2 with
      | .ok .cancel => true
      | _ => false
    | _, _ => false
  | .deliver worker =>
    match s.executor.workers[worker]? with
    | some (.delivering task _) =>
      (s.coordinator.requests task.requestId).any (fun st => !isTerminal st.snapshot.status)
    | _ => false
  | _ => false

def setWaiter (s : WaitedRuntime) (waiter : Nat) (phase : WaiterPhase) : WaitedRuntime :=
  { s with waiters := Function.update s.waiters waiter phase }

def answer (s : WaitedRuntime) (waiter request : Nat) (completed : Bool) : WaitedRuntime :=
  { s.setWaiter waiter .idle with answers := (waiter, request, completed) :: s.answers }

def step (g : BipartiteGraph) (s : WaitedRuntime) : Action → Option WaitedRuntime
  | .runtime a =>
    (Runtime.step g s.runtime a).map (fun runtime =>
      { s with runtime, waiters :=
        if notifies g s.runtime a = true then fun w => (s.waiters w).notified else s.waiters })
  | .call waiter request =>
    match s.waiters waiter, s.runtime.coordinator.requests request with
    | .idle, none => some s -- throws "Unknown request ID"
    | .idle, some st =>
      if isTerminal st.snapshot.status = true then some (s.answer waiter request true)
      else some (s.setWaiter waiter (.asleep request))
    | _, _ => none
  | .spurious waiter =>
    match s.waiters waiter with
    | .asleep request => some (s.setWaiter waiter (.awake request false))
    | _ => none
  | .expire waiter =>
    match s.waiters waiter with
    | .asleep request => some (s.setWaiter waiter (.awake request true))
    | .awake request _ => some (s.setWaiter waiter (.awake request true))
    | .idle => none
  | .resume waiter =>
    match s.waiters waiter with
    | .awake request timedOut =>
      match s.runtime.coordinator.requests request with
      | some st =>
        if isTerminal st.snapshot.status = true then some (s.answer waiter request true)
        else if timedOut = true then some (s.answer waiter request false)
        else some (s.setWaiter waiter (.asleep request))
      | none => none
    | _ => none

def Action.own : Action → Bool
  | .runtime a => a.own
  | .resume _  => true
  | _          => false

def init (e : Executor) : WaitedRuntime := ⟨⟨.init, e⟩, fun _ => .idle, []⟩

/-! ## One step -/

inductive Moved (g : BipartiteGraph) (s : WaitedRuntime) : Action → WaitedRuntime → Prop where
  | runtime (a runtime) (hstep : Runtime.step g s.runtime a = some runtime) :
      Moved g s (.runtime a)
        { s with runtime, waiters :=
          if notifies g s.runtime a = true then fun w => (s.waiters w).notified else s.waiters }
  | unknown (waiter request) : Moved g s (.call waiter request) s
  | answered (a waiter request st completed) (hst : s.runtime.coordinator.requests request = some st)
      (hterm : completed = isTerminal st.snapshot.status)
        (htime : completed = false → s.waiters waiter = .awake request true) :
      Moved g s a (s.answer waiter request completed)
  | slept (a waiter request st) (hst : s.runtime.coordinator.requests request = some st)
      (hpending : st.snapshot.status = .pending) : Moved g s a (s.setWaiter waiter (.asleep request))
  | awoke (a waiter request timedOut)
      (hw : s.waiters waiter = .asleep request ∨ ∃ before, s.waiters waiter = .awake request before) :
      Moved g s a (s.setWaiter waiter (.awake request timedOut))

theorem moved_of_step {g : BipartiteGraph} {s s' : WaitedRuntime} {a : Action} (hs : step g s a = some s') :
    Moved g s a s' := by
  cases a with
  | runtime a =>
    obtain ⟨r', hr', rfl⟩ := Option.map_eq_some_iff.1 hs
    exact .runtime a r' hr'
  | call waiter request =>
    simp only [step] at hs
    split at hs
    · obtain rfl := Option.some.inj hs
      exact .unknown waiter request
    · rename_i st hidle hst
      split at hs
      · rename_i hterm
        obtain rfl := Option.some.inj hs
        exact .answered _ waiter request st true hst hterm.symm (fun hc => by cases hc)
      · rename_i hterm
        obtain rfl := Option.some.inj hs
        exact .slept _ waiter request st hst (pending_of_not_terminal hterm)
    · cases hs
  | spurious waiter =>
    simp only [step] at hs
    split at hs
    · rename_i request hw
      obtain rfl := Option.some.inj hs
      exact .awoke _ waiter request false (.inl hw)
    · cases hs
  | expire waiter =>
    simp only [step] at hs
    split at hs
    · rename_i request hw
      obtain rfl := Option.some.inj hs
      exact .awoke _ waiter request true (.inl hw)
    · rename_i request timedOut hw
      obtain rfl := Option.some.inj hs
      exact .awoke _ waiter request true (.inr ⟨timedOut, hw⟩)
    · cases hs
  | resume waiter =>
    simp only [step] at hs
    split at hs
    · rename_i request timedOut hw
      split at hs
      · rename_i st hst
        split at hs
        · rename_i hterm
          obtain rfl := Option.some.inj hs
          exact .answered _ waiter request st true hst hterm.symm (fun hc => by cases hc)
        · rename_i hterm
          split at hs
          · rename_i htime
            obtain rfl := Option.some.inj hs
            exact .answered _ waiter request st false hst (Bool.eq_false_iff.2 hterm).symm (fun _ => by rw [hw, htime])
          · obtain rfl := Option.some.inj hs
            exact .slept _ waiter request st hst (pending_of_not_terminal hterm)
      · cases hs
    · cases hs

/-! ## Who ends a request -/

theorem pending_of_not_notified {g : BipartiteGraph} {st st' : RequestState} {shardId : Nat} {payload : WordShard}
    {arrivalTime : Int} {env : ArrivalEnv} {r : Except Exn NextStep}
    (ha : Arrival g st shardId payload arrivalTime env st' r) (hr : r ≠ .ok .cancel)
    (hp : st.snapshot.status = .pending) :
    st'.snapshot.status = .pending := by
  cases ha with
  | natural tracker hacc hc => exact absurd rfl hr
  | _ => exact hp

/-- A request's entry in the table behind a section: pending if it was, unless the section notifies. -/
def Keeps (requests : Nat → Option RequestState) (notified : Bool) (r : Nat) (st : RequestState) : Prop :=
  ∃ st', requests r = some st' ∧ (notified = false → st.snapshot.status = .pending → st'.snapshot.status = .pending)

theorem Keeps.same {requests : Nat → Option RequestState} {r : Nat} {st : RequestState} (h : requests r = some st)
    (notified : Bool) : Keeps requests notified r st := ⟨st, h, fun _ hp => hp⟩

theorem Keeps.update {requests : Nat → Option RequestState} {r : Nat} {st : RequestState} (hst : requests r = some st)
    {request : Nat} {new : RequestState} {notified : Bool}
    (hnew : request = r → new.snapshot.status = .pending ∨ notified = true ∨ st.snapshot.status ≠ .pending) :
    Keeps (Function.update requests request (some new)) notified r st := by
  by_cases hr : r = request
  · subst hr
    refine ⟨new, Function.update_self .., fun hno hp => ?_⟩
    rcases hnew rfl with h | h | h
    · exact h
    · rw [hno] at h
      cases h
    · exact absurd hp h
  · exact ⟨st, by rw [Function.update_of_ne hr]; exact hst, fun _ hp => hp⟩

section
variable {g : BipartiteGraph} {s s' : Runtime} {r : Nat} {st : RequestState}

theorem arrive_keeps (hi : CoordinatorInv g s.coordinator) {dev : Device} {thread request shardId : Nat}
    {payload : WordShard} {arrivalTime : Int} {env : ArrivalEnv}
    (hs : Runtime.step g s (.arrive dev thread request shardId payload arrivalTime env) = some s')
    (hst : s.coordinator.requests r = some st) :
    Keeps s'.coordinator.requests (notifies g s (.arrive dev thread request shardId payload arrivalTime env)) r st := by
  simp only [Runtime.step] at hs
  obtain ⟨c, hc, rfl⟩ := Option.map_eq_some_iff.1 hs
  simp only [CodedLLM.step] at hc
  split at hc
  · obtain rfl := Option.some.inj hc
    exact .same hst _
  · rename_i st₀ hidle hst₀
    obtain rfl := Option.some.inj hc
    refine .update hst (fun hr => ?_)
    rw [hr, hst] at hst₀
    obtain rfl := Option.some.inj hst₀
    by_cases hp : st.snapshot.status = .pending
    · have harr := onShardArrived_cases g st shardId payload arrivalTime
        { env with staged := (s.stageArrival dev request shardId payload).2 } (hi.request r st hst).sizes
      by_cases hcancel : (onShardArrived g st shardId payload arrivalTime
          { env with staged := (s.stageArrival dev request shardId payload).2 }).2 = .ok .cancel
      · refine .inr (.inl ?_)
        simp only [notifies, hidle, hr, hst]
        rw [hr] at hcancel
        rw [hcancel]
      · exact .inl (pending_of_not_notified harr hcancel hp)
    · exact .inr (.inr hp)
  · cases hc

theorem rollback_keeps {thread : Nat} (hs : Runtime.step g s (.rollback thread) = some s')
    (hst : s.coordinator.requests r = some st) :
    Keeps s'.coordinator.requests (notifies g s (.rollback thread)) r st := by
  obtain ⟨c, hc, rfl⟩ := Runtime.coordinatorStep_eq.1 hs
  simp only [CodedLLM.step] at hc
  split at hc
  · rename_i request hh
    split at hc
    · rename_i st₀ hst₀
      obtain rfl := Option.some.inj hc
      refine .update hst (fun hr => ?_)
      rw [hr, hst] at hst₀
      obtain rfl := Option.some.inj hst₀
      rw [(Runtime.onSubmitRefused_frame st).2]
      tauto
    · cases hc
  · cases hc

theorem deliver_keeps {w : Nat} (hs : Runtime.step g s (.deliver w) = some s')
    (hst : s.coordinator.requests r = some st) : Keeps s'.coordinator.requests (notifies g s (.deliver w)) r st := by
  obtain ⟨task, result, hw, -, hc⟩ := Runtime.deliver_spec hs
  simp only [CodedLLM.step] at hc
  split at hc
  · rename_i st₀ hst₀
    rw [← Option.some.inj hc]
    refine .update hst (fun hr => ?_)
    by_cases hp : st.snapshot.status = .pending
    · refine .inr (.inl ?_)
      simp only [notifies, hw, hr, hst, Option.any_some, isTerminal, hp]
      rfl
    · exact .inr (.inr hp)
  · rw [← Option.some.inj hc]
    exact .same hst _

/-- **A pending request stays in the table, and it stays pending unless the step notifies.** -/
theorem step_request {a : Runtime.Action} (hi : CoordinatorInv g s.coordinator) (hs : Runtime.step g s a = some s')
    (hst : s.coordinator.requests r = some st) : Keeps s'.coordinator.requests (notifies g s a) r st := by
  cases a with
  | attachTransport =>
    obtain ⟨c, hc, rfl⟩ := Runtime.coordinatorStep_eq.1 hs
    obtain rfl := Option.some.inj hc
    exact .same hst _
  | startRequest request oracle transportAnswer =>
    obtain ⟨c, hc, rfl⟩ := Runtime.coordinatorStep_eq.1 hs
    cases step_cases hc with
    | stays a transport => exact .same hst _
    | started request oracle answer st₀ hst₀ hnew =>
      refine .update hst (fun hr => ?_)
      rw [hr, hst] at hnew
      cases hnew
    | moved a thread phase => exact .same hst _
  | arrive dev thread request shardId payload arrivalTime env => exact arrive_keeps hi hs hst
  | submit thread env =>
    simp only [Runtime.step] at hs
    split at hs
    · rename_i request plan shards hh
      obtain ⟨c, hc, rfl⟩ := Option.map_eq_some_iff.1 hs
      obtain ⟨hreq, -⟩ := Runtime.submit_coordinator hh hc
      exact .same (by rw [← hst]; exact congrFun hreq r) _
    · cases hs
  | recheck thread =>
    obtain ⟨c, hc, rfl⟩ := Runtime.coordinatorStep_eq.1 hs
    simp only [CodedLLM.step] at hc
    split at hc
    · split at hc
      · obtain rfl := Option.some.inj hc
        exact .same hst _
      · cases hc
    · cases hc
  | rollback thread => exact rollback_keeps hs hst
  | cancel thread =>
    simp only [Runtime.step] at hs
    split at hs
    · rename_i request hh
      obtain ⟨c, hc, rfl⟩ := Option.map_eq_some_iff.1 hs
      simp only [CodedLLM.step, hh, Option.some.injEq] at hc
      exact .same (by rw [← hst, ← hc]; rfl) _
    · cases hs
  | deliver w => exact deliver_keeps hs hst
  | take w =>
    obtain ⟨e, -, rfl⟩ := Runtime.workerStep_eq.1 hs
    exact .same hst _
  | execute w env =>
    obtain ⟨e, -, rfl⟩ := Runtime.workerStep_eq.1 hs
    exact .same hst _
  | check w =>
    obtain ⟨e, -, rfl⟩ := Runtime.workerStep_eq.1 hs
    exact .same hst _
  | erase w =>
    obtain ⟨e, -, rfl⟩ := Runtime.workerStep_eq.1 hs
    exact .same hst _

end

/-! ## Nobody sleeps on a request that is over -/

/-- **What holds of the callers**, in every state. -/
structure Wakeful (g : BipartiteGraph) (s : WaitedRuntime) : Prop where
  lifecycle : CoordinatorInv g s.runtime.coordinator
  asleep : ∀ w r, s.waiters w = .asleep r →
    ∃ st, s.runtime.coordinator.requests r = some st ∧ st.snapshot.status = .pending
  awake : ∀ w r timedOut, s.waiters w = .awake r timedOut → ∃ st, s.runtime.coordinator.requests r = some st
  answered : ∀ w r, (w, r, true) ∈ s.answers →
    ∃ st, s.runtime.coordinator.requests r = some st ∧ isTerminal st.snapshot.status = true

section

variable {g : BipartiteGraph} {s s' : WaitedRuntime}

theorem Wakeful.init (g : BipartiteGraph) (e : Executor) : Wakeful g (init e) := by
  refine ⟨.init g, ?_, ?_, ?_⟩
  · intro w r hw
    cases hw
  · intro w r timedOut hw
    cases hw
  · intro w r hm
    cases hm

theorem Wakeful.moved (h : Wakeful g s) (waiter : Nat) {phase : WaiterPhase} {answers : List (Nat × Nat × Bool)}
    (hasleep : ∀ r, phase = .asleep r → ∃ st, s.runtime.coordinator.requests r = some st ∧
    st.snapshot.status = .pending)
    (hawake : ∀ r timedOut, phase = .awake r timedOut → ∃ st, s.runtime.coordinator.requests r = some st)
    (hanswers : ∀ w r, (w, r, true) ∈ answers →
      ∃ st, s.runtime.coordinator.requests r = some st ∧ isTerminal st.snapshot.status = true) :
    Wakeful g { s.setWaiter waiter phase with answers } := by
  refine ⟨h.lifecycle, ?_, ?_, hanswers⟩
  · intro w r hw
    by_cases hww : w = waiter
    · rw [hww] at hw
      exact hasleep r ((Function.update_self ..).symm.trans hw)
    · exact h.asleep w r ((Function.update_of_ne hww ..).symm.trans hw)
  · intro w r timedOut hw
    by_cases hww : w = waiter
    · rw [hww] at hw
      exact hawake r timedOut ((Function.update_self ..).symm.trans hw)
    · exact h.awake w r timedOut ((Function.update_of_ne hww ..).symm.trans hw)

theorem Wakeful.answer (h : Wakeful g s) (waiter : Nat) {request : Nat} {completed : Bool} {st : RequestState}
    (hst : s.runtime.coordinator.requests request = some st)
    (hterm : completed = true → isTerminal st.snapshot.status = true) :
    Wakeful g (s.answer waiter request completed) := by
  apply h.moved waiter (fun r hr => by cases hr) (fun r timedOut hr => by cases hr)
  intro w r hm
  rcases List.mem_cons.1 hm with heq | hm
  · obtain ⟨-, heq⟩ := Prod.mk.inj heq
    obtain ⟨rfl, rfl⟩ := Prod.mk.inj heq
    exact ⟨st, hst, hterm rfl⟩
  · exact h.answered w r hm

theorem notified_ne_asleep (phase : WaiterPhase) (r : Nat) : phase.notified ≠ .asleep r := by
  cases phase with
  | idle => exact fun h => by cases h
  | asleep q => exact fun h => by cases h
  | awake q b => exact fun h => by cases h

theorem known_of_notified {phase : WaiterPhase} {r : Nat} {timedOut : Bool} (h : phase.notified = .awake r timedOut) :
    phase = .asleep r ∨ ∃ before, phase = .awake r before := by
  cases phase with
  | idle => cases h
  | asleep q =>
    cases h
    exact .inl rfl
  | awake q b =>
    cases h
    exact .inr ⟨_, rfl⟩

theorem Wakeful.known (h : Wakeful g s) {w r : Nat}
    (hw : s.waiters w = .asleep r ∨ ∃ before, s.waiters w = .awake r before) :
    ∃ st, s.runtime.coordinator.requests r = some st := by
  rcases hw with hw | ⟨before, hw⟩
  · obtain ⟨st, hst, -⟩ := h.asleep w r hw
    exact ⟨st, hst⟩
  · exact h.awake w r before hw

/-- **A section of the runtime wakes whom it must.** -/
theorem Wakeful.runtime (h : Wakeful g s) {a : Runtime.Action} (hs : step g s (.runtime a) = some s') :
    Wakeful g s' := by
  obtain ⟨r', hr', rfl⟩ := Option.map_eq_some_iff.1 hs
  have hkeep := fun {r : Nat} {st : RequestState} (hst : s.runtime.coordinator.requests r = some st) =>
    step_request h.lifecycle hr' hst
  refine ⟨?_, ?_, ?_, ?_⟩
  · show CoordinatorInv g r'.coordinator
    rcases Runtime.step_coordinator hr' with heq | ⟨b, hb⟩
    · rw [heq]
      exact h.lifecycle
    · exact CodedLLM.step_inv _ _ _ h.lifecycle hb
  · intro w r hw
    by_cases hn : notifies g s.runtime a = true
    · simp only [hn, if_true] at hw
      exact absurd hw (notified_ne_asleep _ r)
    · simp only [hn, Bool.false_eq_true, if_false] at hw
      obtain ⟨st, hst, hp⟩ := h.asleep w r hw
      obtain ⟨st', hst', hpend⟩ := hkeep hst
      exact ⟨st', hst', hpend (by simpa using hn) hp⟩
  · intro w r timedOut hw
    have hold : s.waiters w = .asleep r ∨ ∃ before, s.waiters w = .awake r before := by
      by_cases hn : notifies g s.runtime a = true
      · simp only [hn, if_true] at hw
        exact known_of_notified hw
      · simp only [hn, Bool.false_eq_true, if_false] at hw
        exact .inr ⟨timedOut, hw⟩
    obtain ⟨st, hst⟩ := h.known hold
    obtain ⟨st', hst', -⟩ := hkeep hst
    exact ⟨st', hst'⟩
  · intro w r hm
    have hterm := h.answered w r hm
    rcases Runtime.step_coordinator hr' with heq | ⟨b, hb⟩
    · show ∃ st, r'.coordinator.requests r = some st ∧ _
      rw [heq]
      exact hterm
    · exact Runtime.terminal_kept hb hterm

theorem step_wakeful (s : WaitedRuntime) (a : Action) (s' : WaitedRuntime) (h : Wakeful g s)
    (hs : step g s a = some s') : Wakeful g s' := by
  cases moved_of_step hs with
  | runtime a runtime hstep => exact h.runtime hs
  | unknown waiter request => exact h
  | answered a waiter request st completed hst hterm htime => exact h.answer waiter hst (fun hc => hterm ▸ hc)
  | slept a waiter request st hst hpending =>
    apply h.moved waiter (fun r hr => ?_) (fun r timedOut hr => by cases hr) h.answered
    cases hr
    exact ⟨st, hst, hpending⟩
  | awoke a waiter request timedOut hw =>
    apply h.moved waiter (fun r hr => by cases hr) (fun r timedOut' hr => ?_) h.answered
    cases hr
    exact h.known hw

/-- **How a call returns**: with whether the request is over, and with `false` only once its timeout has passed. -/
theorem step_answers {a : Action} (hs : step g s a = some s') : s'.answers = s.answers ∨
    ∃ w r completed st, s'.answers = (w, r, completed) :: s.answers ∧ s.runtime.coordinator.requests r = some st ∧
      completed = isTerminal st.snapshot.status ∧ (completed = false → s.waiters w = .awake r true) := by
  cases moved_of_step hs with
  | answered a waiter request st completed hst hterm htime =>
    exact .inr ⟨waiter, request, completed, st, rfl, hst, hterm, htime⟩
  | _ => exact .inl rfl

def submitReturns (s : WaitedRuntime) : Action → Bool
  | .runtime a => s.runtime.submitReturns a
  | _          => true

theorem step_runtime {a : Action} (hs : step g s a = some s') :
    (∃ b, a = .runtime b ∧ Runtime.step g s.runtime b = some s'.runtime) ∨ s'.runtime = s.runtime := by
  cases moved_of_step hs with
  | runtime b runtime hstep => exact .inl ⟨b, rfl, hstep⟩
  | _ => exact .inr rfl

theorem step_running (s : WaitedRuntime) (a : Action) (s' : WaitedRuntime) (h : Runtime.Running g s.runtime)
    (hreturns : s.submitReturns a = true) (hs : step g s a = some s') : Runtime.Running g s'.runtime := by
  rcases step_runtime hs with ⟨b, rfl, hb⟩ | heq
  · exact Runtime.step_running s.runtime b s'.runtime h hreturns hb
  · rw [heq]
    exact h

/-- **No caller is forgotten.**  In every state of every run a caller that sleeps waits for a pending request, and one
that was told `true` asked for a request that is over for good; every call returns whether its request is over, and
`false` only after its timeout.  And in a run whose `Submit`s do not throw for pending requests, once no handler, no
worker and no woken caller can move, the callers that are left sleep on pending requests without a submitted
recovery. -/
theorem no_caller_forgotten (g : BipartiteGraph) (concurrencyLimit maxQueueDepth : UInt64) (cost : Int) (e₀ : Executor)
    (as : List Action) (s : WaitedRuntime) (hmake : Executor.make concurrencyLimit maxQueueDepth cost = .ok e₀)
    (hrun : run (step g) (init e₀) as = some s) :
    (∀ w r, s.waiters w = .asleep r →
      ∃ st, s.runtime.coordinator.requests r = some st ∧ st.snapshot.status = .pending) ∧
    (∀ w r, (w, r, true) ∈ s.answers →
      ∃ st, s.runtime.coordinator.requests r = some st ∧ isTerminal st.snapshot.status = true) ∧
    (∀ a s', step g s a = some s' → s'.answers = s.answers ∨ ∃ w r completed st,
      s'.answers = (w, r, completed) :: s.answers ∧ s.runtime.coordinator.requests r = some st ∧
        completed = isTerminal st.snapshot.status ∧ (completed = false → s.waiters w = .awake r true)) ∧
    (Along (step g) (fun s a => s.submitReturns a = true) (init e₀) as → Settled (step g) Action.own s →
      ∀ w, s.waiters w = .idle ∨ ∃ r st, s.waiters w = .asleep r ∧ s.runtime.coordinator.requests r = some st ∧
        st.snapshot.status = .pending ∧ st.snapshot.recoverySubmitted = false) := by
  have h : Wakeful g s := run_inv step_wakeful as (init e₀) s (.init g e₀) hrun
  refine ⟨h.asleep, h.answered, fun a s' hs => step_answers hs, fun hreturns hset w => ?_⟩
  have hrunning : Runtime.Running g s.runtime :=
    run_inv_along step_running as (init e₀) s (.init hmake) hreturns hrun
  have hbelow : Settled (Runtime.step g) Runtime.Action.own s.runtime := by
    intro a ha
    exact Option.map_eq_none_iff.1 (hset (.runtime a) ha)
  obtain ⟨-, -, -, -, hpending⟩ := Runtime.settled_spec hrunning hbelow
  cases hw : s.waiters w with
  | idle => exact .inl rfl
  | asleep r =>
    obtain ⟨st, hst, hp⟩ := h.asleep w r hw
    exact .inr ⟨r, st, rfl, hst, hp, hpending r st hst hp⟩
  | awake r timedOut =>
    obtain ⟨st, hst⟩ := h.awake w r timedOut hw
    have hnone := hset (.resume w) rfl
    simp only [step, hw, hst] at hnone
    split at hnone
    · cases hnone
    · split at hnone <;> cases hnone

end

def waitedRun : List Action :=
  (Runtime.decidedRun.map Action.runtime) ++ [.call 0 7, .runtime (Runtime.submitBy 1)] ++
    (Runtime.workerRound.map Action.runtime) ++ [.resume 0]

theorem no_caller_forgotten_waitedRun : ∃ e₀ s, Executor.make 1 1 5 = .ok e₀ ∧
    run (step makeThreeDataTwoParityGraph) (init e₀) waitedRun = some s ∧ s.answers = [(0, 7, true)] ∧
    (∀ w r, s.waiters w = .asleep r →
      ∃ st, s.runtime.coordinator.requests r = some st ∧ st.snapshot.status = .pending) ∧
    (∀ w r, (w, r, true) ∈ s.answers →
      ∃ st, s.runtime.coordinator.requests r = some st ∧ isTerminal st.snapshot.status = true) ∧
    (∀ a s', step makeThreeDataTwoParityGraph s a = some s' → s'.answers = s.answers ∨ ∃ w r completed st,
      s'.answers = (w, r, completed) :: s.answers ∧ s.runtime.coordinator.requests r = some st ∧
        completed = isTerminal st.snapshot.status ∧ (completed = false → s.waiters w = .awake r true)) ∧
    (Along (step makeThreeDataTwoParityGraph) (fun s a => s.submitReturns a = true) (init e₀) waitedRun →
      Settled (step makeThreeDataTwoParityGraph) Action.own s →
      ∀ w, s.waiters w = .idle ∨ ∃ r st, s.waiters w = .asleep r ∧ s.runtime.coordinator.requests r = some st ∧
        st.snapshot.status = .pending ∧ st.snapshot.recoverySubmitted = false) := by
  have hany : (Executor.make 1 1 5).toOption.any (fun e₀ =>
      (run (step makeThreeDataTwoParityGraph) (init e₀) waitedRun).any (fun s => s.answers = [(0, 7, true)])) =
        true := by
    decide +kernel
  cases hmake : Executor.make 1 1 5 with
  | error e =>
    rw [hmake] at hany
    cases hany
  | ok e₀ =>
    rw [hmake] at hany
    have hreach :
        (run (step makeThreeDataTwoParityGraph) (init e₀) waitedRun).any (fun s => s.answers = [(0, 7, true)]) =
        true := hany
    obtain ⟨s, hrun, hs⟩ := (Option.any_eq_true _ _).1 hreach
    exact ⟨e₀, s, rfl, hrun, of_decide_eq_true hs,
      no_caller_forgotten makeThreeDataTwoParityGraph 1 1 5 e₀ waitedRun s hmake hrun⟩

end WaitedRuntime

end CodedLLM
