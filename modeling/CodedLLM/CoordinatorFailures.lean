import CodedLLM.GraphGenerator
import CodedLLM.Runtime
/-!
# CoordinatorFailures — what a coordinator call that throws leaves behind

`StartRequest` puts the request into the table before it asks the transport, and `OnShardArrived` calls the executor and
the wait-cost oracle between its updates.  The argument checks leave everything as it is; a throw of foreign code leaves
what was done before it (`LeavesTrace`).
-/
namespace CodedLLM

open Runs
open CodedLLM.Runtime (ReachesStageShard onShardArrived_unstaged onShardArrived_reached onShardArrived_stored)

inductive CoordinatorCall where
  | startRequest (request : Nat) (oracle : Bool) (transportAnswer : Option Exn)
  | onShardArrived (request shardId : Nat) (payload : WordShard) (arrivalTime : Int) (env : ArrivalEnv)

def CoordinatorCall.perform (g : BipartiteGraph) (c : Coordinator) : CoordinatorCall → Outcome Coordinator
  | .startRequest request oracle transportAnswer => c.startRequest g request oracle transportAnswer
  | .onShardArrived request shardId payload arrivalTime env =>
    match c.requests request with
    | none => .throws c (.invalidArgument "Arrival references an unknown request")
    | some st =>
      match CodedLLM.onShardArrived g st shardId payload arrivalTime env with
      | (st', .error e) => .throws (c.setRequest request st') e
      | (st', .ok _) => .returns (c.setRequest request st')

theorem perform_arrive {g : BipartiteGraph} {c c' : Coordinator} {thread request shardId : Nat} {payload : WordShard}
    {arrivalTime : Int} {env : ArrivalEnv}
    (h : step g c (.arrive thread request shardId payload arrivalTime env) = some c') :
    c'.requests =
    ((CoordinatorCall.onShardArrived request shardId payload arrivalTime env).perform g c).state.requests := by
  simp only [step] at h
  simp only [CoordinatorCall.perform]
  split at h
  · rename_i hr
    obtain rfl := Option.some.inj h
    rw [hr]
    rfl
  · rename_i st hidle hr
    obtain rfl := Option.some.inj h
    rw [hr]
    simp only
    cases hres : (onShardArrived g st shardId payload arrivalTime env).2 with
    | error e =>
      rw [show onShardArrived g st shardId payload arrivalTime env =
        ((onShardArrived g st shardId payload arrivalTime env).1, .error e) by rw [← hres]]
      rfl
    | ok next =>
      rw [show onShardArrived g st shardId payload arrivalTime env =
        ((onShardArrived g st shardId payload arrivalTime env).1, .ok next) by rw [← hres]]
      rfl
  · cases h

/-- **The oracle is asked**: the shard does not complete the request, no recovery has been decided, what has arrived
by now can be recovered, and the executor gives an estimate. -/
def AsksOracle (g : BipartiteGraph) (st : RequestState) (shardId : Nat) (arrivalTime : Int) (estimate : Option Int) :
    Prop :=
  st.recoveryClosed = false ∧ st.snapshot.recoverySubmitted = false ∧ estimate ≠ none ∧
    ∃ tracker plan, st.tracker.markArrived shardId arrivalTime = .ok tracker ∧ tracker.isSystematicComplete = false ∧
      RecoveryPolicy.createPlan g tracker = .ok plan ∧ plan.isRecoverable = true

/-- **Where a throw comes too late**: the transport's, `StageShard`'s on the first shard of a request, the oracle's. -/
def LeavesTrace (g : BipartiteGraph) (c : Coordinator) : CoordinatorCall → Prop
  | .startRequest request oracle transportAnswer =>
    oracle = true ∧ c.transport = true ∧ c.requests request = none ∧ transportAnswer ≠ none
  | .onShardArrived request shardId payload arrivalTime env =>
    ∃ st, c.requests request = some st ∧ ReachesStageShard st shardId payload ∧
      ((env.staged ≠ none ∧ st.wordCount = 0) ∨
        (env.staged = none ∧ AsksOracle g st shardId arrivalTime env.estimate ∧ ∃ e, env.waitCost = .error e))

/-- **The planning branch throws** exactly if the oracle is asked and throws. -/
theorem decideRecovery_throws {g : BipartiteGraph} (hg : g.Valid) {st : RequestState} (hinv : RequestInv g st)
    (hc : st.tracker.isSystematicComplete = false) (env : ArrivalEnv) :
    (∃ e, (decideRecovery g st env).2 = .error e) ↔
      env.estimate ≠ none ∧ (∃ plan, RecoveryPolicy.createPlan g st.tracker = .ok plan ∧ plan.isRecoverable = true) ∧
        ∃ e, env.waitCost = .error e := by
  obtain ⟨plan, hpolicy⟩ := RecoveryPolicy.createPlan_accepts hg ⟨hinv.systematic, hinv.parity, hinv.arrivals⟩
  obtain ⟨available, hav, hplan⟩ := RecoveryPolicy.createPlan_ok hpolicy
  unfold decideRecovery
  simp only [hav, hplan, hpolicy, Except.ok.injEq, exists_eq_left']
  cases hrec : plan.isRecoverable with
  | false => simp
  | true =>
    cases env.estimate with
    | none => simp
    | some estimate =>
      cases env.waitCost with
      | error e => simp
      | ok wait =>
        simp only [RecoveryPolicy.evaluate_planned hpolicy hc]
        cases RecoveryPolicy.evaluatePlan plan ⟨wait, estimate⟩ <;> simp

/-- **The locked section throws after the shard is stored** exactly if the oracle is asked and throws. -/
theorem onShardArrived_throws {g : BipartiteGraph} (hg : g.Valid) {st : RequestState} (hinv : RequestInv g st)
    {shardId : Nat} {payload : WordShard} {arrivalTime : Int} {env : ArrivalEnv}
    (h : ReachesStageShard st shardId payload) (hstaged : env.staged = none) :
    (∃ e, (onShardArrived g st shardId payload arrivalTime env).2 = .error e) ↔
      AsksOracle g st shardId arrivalTime env.estimate ∧ ∃ e, env.waitCost = .error e := by
  have hlt : shardId < st.tracker.arrivals.length := by
    rw [hinv.sizes h.1]
    exact h.2.1
  obtain ⟨tracker, hmark, -⟩ := ShardArrivalTracker.markArrived_ok hlt arrivalTime
  have hrec : RequestInv g (recordShard st shardId payload tracker) :=
    hinv.record ⟨h.1, h.2.1, h.2.2.2.2, h.2.2.1, hstaged, hmark⟩
  rw [onShardArrived_reached g arrivalTime env h, hstaged]
  simp only [hmark, AsksOracle, Except.ok.injEq]
  cases hc : tracker.isSystematicComplete with
  | true =>
    simp only [if_true, reduceCtorEq, exists_false, false_iff, not_and]
    rintro ⟨-, -, -, tracker', plan, rfl, hc', -⟩
    rw [hc] at hc'
    cases hc'
  | false =>
    simp only [Bool.false_eq_true, if_false]
    by_cases hopen : st.recoveryClosed = false ∧ st.snapshot.recoverySubmitted = false
    · rw [if_pos hopen]
      refine (decideRecovery_throws hg hrec hc env).trans ⟨?_, ?_⟩
      · rintro ⟨hest, ⟨plan, hplan, hok⟩, hwait⟩
        exact ⟨⟨hopen.1, hopen.2, hest, tracker, plan, rfl, hc, hplan, hok⟩, hwait⟩
      · rintro ⟨⟨-, -, hest, tracker', plan, rfl, -, hplan, hok⟩, hwait⟩
        exact ⟨hest, ⟨plan, hplan, hok⟩, hwait⟩
    · simp only [hopen, if_false, reduceCtorEq, exists_false, false_iff, not_and]
      rintro ⟨h1, h2, -⟩
      exact absurd ⟨h1, h2⟩ hopen

/-- **One arrival**: a throw leaves the request as it was, unless it is `StageShard`'s on the first shard or the
oracle's. -/
theorem onShardArrived_unchanged_iff {g : BipartiteGraph} (hg : g.Valid) {st : RequestState} (hinv : RequestInv g st)
    (shardId : Nat) (payload : WordShard) (arrivalTime : Int) (env : ArrivalEnv) :
    (∀ e, (onShardArrived g st shardId payload arrivalTime env).2 = .error e →
      (onShardArrived g st shardId payload arrivalTime env).1 = st) ↔
    ¬ (ReachesStageShard st shardId payload ∧ ((env.staged ≠ none ∧ st.wordCount = 0) ∨
      (env.staged = none ∧ AsksOracle g st shardId arrivalTime env.estimate ∧ ∃ e, env.waitCost = .error e))) := by
  by_cases h : ReachesStageShard st shardId payload
  · simp only [h, true_and]
    cases hstaged : env.staged with
    | some e =>
      rw [onShardArrived_reached g arrivalTime env h, hstaged]
      simp only [Except.error.injEq, forall_eq', ne_eq, reduceCtorEq, not_false_eq_true, true_and, false_and, or_false]
      constructor
      · intro hsame h0
        have hw := congrArg RequestState.wordCount hsame
        exact h.2.2.1 (List.eq_nil_of_length_eq_zero (hw.trans h0))
      · intro h0
        rw [← h.2.2.2.1.resolve_left h0]
    | none =>
      have hstored := (onShardArrived_stored g arrivalTime env h hstaged).1
      have hne : (onShardArrived g st shardId payload arrivalTime env).1 ≠ st := by
        intro hsame
        rw [hsame] at hstored
        have hslot := congrArg (fun shards => slotAt shards shardId) hstored
        simp only [slotAt_set h.2.1, if_true, h.2.2.2.2] at hslot
        cases hslot
      simp only [hne, imp_false, ne_eq, not_true_eq_false, false_and, true_and, false_or,
        ← onShardArrived_throws hg hinv h hstaged, not_exists]
  · simp only [h, false_and, not_false_eq_true, iff_true]
    exact (onShardArrived_unstaged g arrivalTime env h).2.2

theorem startRequest_unchanged_iff {g : BipartiteGraph} (hg : g.Valid) (c : Coordinator) (request : Nat) (oracle : Bool)
    (answer : Option Exn) :
    (∀ c' e, c.startRequest g request oracle answer = .throws c' e → c'.requests = c.requests) ↔
      ¬ (oracle = true ∧ c.transport = true ∧ c.requests request = none ∧ answer ≠ none) := by
  unfold Coordinator.startRequest RequestState.make
  rw [ShardArrivalTracker.make_accepts hg.systematicPos hg.parityPos hg.total]
  cases oracle with
  | false => simp
  | true =>
    cases ht : c.transport with
    | false => simp
    | true =>
      cases hr : c.requests request with
      | some st => simp
      | none =>
        cases answer with
        | none => simp
        | some e =>
          simp only [Bool.true_eq_false, if_false, Option.isSome_none, Bool.false_eq_true, Outcome.throws.injEq, ne_eq,
            reduceCtorEq, not_false_eq_true, and_self, not_true_eq_false, iff_false]
          intro h
          have hat := congrFun (h _ e ⟨rfl, rfl⟩) request
          rw [Coordinator.setRequest_requests, Function.update_self, hr] at hat
          cases hat

/-- **A call that fails changes nothing, unless foreign code throws too late**: in every reachable state, whatever
call it is and whatever the transport, the executor and the oracle do. -/
theorem failed_call_unchanged_iff (g : BipartiteGraph) (hg : g.Valid) (actions : List Action) (c : Coordinator)
    (hrun : run (step g) Coordinator.init actions = some c) (call : CoordinatorCall) :
    (∀ c' e, call.perform g c = .throws c' e → c'.requests = c.requests) ↔ ¬ LeavesTrace g c call := by
  have hinv := run_inv step_inv actions _ c (CoordinatorInv.init g) hrun
  cases call with
  | startRequest request oracle answer => exact startRequest_unchanged_iff hg c request oracle answer
  | onShardArrived request shardId payload arrivalTime env =>
    simp only [CoordinatorCall.perform, LeavesTrace]
    cases hr : c.requests request with
    | none => simp
    | some st =>
      simp only [Option.some.injEq, exists_eq_left']
      rw [← onShardArrived_unchanged_iff hg (hinv.request request st hr) shardId payload arrivalTime env]
      have hset : ∀ st', (c.setRequest request st').requests = c.requests ↔ st' = st := by
        intro st'
        rw [Coordinator.setRequest_requests]
        constructor
        · intro h
          have hat := congrFun h request
          rw [Function.update_self, hr] at hat
          exact Option.some.inj hat
        · rintro rfl
          rw [← hr, Function.update_eq_self]
      cases hres : onShardArrived g st shardId payload arrivalTime env with
      | mk st' result =>
        cases result with
        | ok next => simp
        | error e =>
          simp only [Outcome.throws.injEq, Except.error.injEq, forall_eq', ← hset st']
          exact ⟨fun h => h _ e ⟨rfl, rfl⟩, fun h c' e' heq => heq.1 ▸ h⟩

def thrownRequest (request : Nat) : Outcome Coordinator → Option (Exn × Option RequestState)
  | .returns _ => none
  | .throws c e => some (e, c.requests request)

theorem thrownRequest_eq_some {request : Nat} {o : Outcome Coordinator} {e : Exn} {st : Option RequestState}
    (h : thrownRequest request o = some (e, st)) : ∃ c', o = .throws c' e ∧ c'.requests request = st := by
  cases o with
  | returns c' => cases h
  | throws c' e' =>
    obtain ⟨rfl, rfl⟩ := Prod.mk.inj (Option.some.inj h)
    exact ⟨c', rfl, rfl⟩

def stagingFails : ArrivalEnv := ⟨some (.runtimeError "out of memory"), 1, some 5, .ok 100⟩

/-- `StageShard` throws on the second shard of request 7. -/
theorem failed_call_unchanged_iff_secondShard : ∃ c,
    run (step makeGraph) Coordinator.init [.attachTransport, .startRequest 7 true none,
      .arrive 0 7 0 [1, 2] 10 ⟨none, 1, some 5, .ok 100⟩] = some c ∧
    ∃ c' e, (CoordinatorCall.onShardArrived 7 2 [2, 6] 20 stagingFails).perform makeGraph c = .throws c' e ∧
      c'.requests = c.requests := by
  have heval : (run (step makeGraph) Coordinator.init [.attachTransport, .startRequest 7 true none,
      .arrive 0 7 0 [1, 2] 10 ⟨none, 1, some 5, .ok 100⟩]).any
        (fun c => (c.requests 7).map RequestState.wordCount = some 2 ∧
        ((thrownRequest 7 ((CoordinatorCall.onShardArrived 7 2 [2, 6] 20 stagingFails).perform makeGraph c)).map
          Prod.fst) = some (.runtimeError "out of memory")) = true := by decide +kernel
  obtain ⟨c, hrun, hc⟩ := (Option.any_eq_true _ _).1 heval
  obtain ⟨hwords, hthrown⟩ := of_decide_eq_true hc
  obtain ⟨⟨e, st⟩, hthrown, -⟩ := Option.map_eq_some_iff.1 hthrown
  obtain ⟨c', hc', -⟩ := thrownRequest_eq_some hthrown
  have hiff := failed_call_unchanged_iff makeGraph ((validateGraph_ok makeGraph).1 (by decide)) _ c hrun
    (.onShardArrived 7 2 [2, 6] 20 stagingFails)
  refine ⟨c, hrun, c', e, hc', hiff.2 ?_ c' e hc'⟩
  rintro ⟨st, hst, -, ⟨-, hzero⟩ | ⟨hstaged, -⟩⟩
  · rw [hst, Option.map_some, hzero] at hwords
    cases hwords
  · cases hstaged

/-- The transport throws, `StageShard` throws on the first shard, the oracle throws: the request stays in the table, its
word count stays set, the shard stays in its slot. -/
theorem failed_calls_leave_traces :
    (∃ c c' e, run (step makeGraph) Coordinator.init [.attachTransport] = some c ∧
      (CoordinatorCall.startRequest 7 true (some (.runtimeError "not connected"))).perform makeGraph c = .throws c' e ∧
      c'.requests ≠ c.requests ∧ c.requests 7 = none ∧ (c'.requests 7).isSome) ∧
    (∃ c c' e st st', run (step makeGraph) Coordinator.init [.attachTransport, .startRequest 7 true none] = some c ∧
      (CoordinatorCall.onShardArrived 7 0 [1, 2] 10 stagingFails).perform makeGraph c = .throws c' e ∧
      c.requests 7 = some st ∧ c'.requests 7 = some st' ∧ st.wordCount = 0 ∧ st'.wordCount = 2) ∧
    ∃ c c' e st st', run (step makeGraph) Coordinator.init [.attachTransport, .startRequest 7 true none,
        .arrive 0 7 0 [1, 2] 10 ⟨none, 1, some 5, .ok 100⟩] = some c ∧
      (CoordinatorCall.onShardArrived 7 2 [2, 6] 20 ⟨none, 1, some 5, .error (.runtimeError "no estimate")⟩).perform
        makeGraph c = .throws c' e ∧
      c.requests 7 = some st ∧ c'.requests 7 = some st' ∧ slotAt st.shards 2 = none ∧
      slotAt st'.shards 2 = some [2, 6] := by
  refine ⟨?_, ?_, ?_⟩
  · have heval : (run (step makeGraph) Coordinator.init [.attachTransport]).any (fun c => c.requests 7 = none ∧
        (thrownRequest 7 ((CoordinatorCall.startRequest 7 true (some (.runtimeError "not connected"))).perform makeGraph
          c)).any (fun x => x.2.isSome)) = true := by decide +kernel
    obtain ⟨c, hrun, hc⟩ := (Option.any_eq_true _ _).1 heval
    obtain ⟨hnone, hthrown⟩ := of_decide_eq_true hc
    obtain ⟨⟨e, st⟩, hthrown, hsome⟩ := (Option.any_eq_true _ _).1 hthrown
    obtain ⟨c', hc', hst⟩ := thrownRequest_eq_some hthrown
    refine ⟨c, c', e, hrun, hc', fun hsame => ?_, hnone, hst ▸ hsome⟩
    rw [← hst, hsame, hnone] at hsome
    cases hsome
  · have heval : (run (step makeGraph) Coordinator.init [.attachTransport, .startRequest 7 true none]).any (fun c =>
        (c.requests 7).any (fun st => st.wordCount = 0) ∧
        (thrownRequest 7 ((CoordinatorCall.onShardArrived 7 0 [1, 2] 10 stagingFails).perform makeGraph c)).any
          (fun x => x.2.any (fun st => st.wordCount = 2))) = true := by decide +kernel
    obtain ⟨c, hrun, hc⟩ := (Option.any_eq_true _ _).1 heval
    obtain ⟨hbefore, hthrown⟩ := of_decide_eq_true hc
    obtain ⟨st, hst, hzero⟩ := (Option.any_eq_true _ _).1 hbefore
    obtain ⟨⟨e, after⟩, hthrown, hafter⟩ := (Option.any_eq_true _ _).1 hthrown
    obtain ⟨c', hc', hst'⟩ := thrownRequest_eq_some hthrown
    obtain ⟨st', rfl, htwo⟩ := (Option.any_eq_true _ _).1 hafter
    exact ⟨c, c', e, st, st', hrun, hc', hst, hst', of_decide_eq_true hzero, of_decide_eq_true htwo⟩
  · have heval : (run (step makeGraph) Coordinator.init [.attachTransport, .startRequest 7 true none,
        .arrive 0 7 0 [1, 2] 10 ⟨none, 1, some 5, .ok 100⟩]).any (fun c =>
        (c.requests 7).any (fun st => slotAt st.shards 2 = none) ∧
        (thrownRequest 7 ((CoordinatorCall.onShardArrived 7 2 [2, 6] 20
          ⟨none, 1, some 5, .error (.runtimeError "no estimate")⟩).perform makeGraph c)).any
          (fun x => x.2.any (fun st => slotAt st.shards 2 = some [2, 6]))) = true := by decide +kernel
    obtain ⟨c, hrun, hc⟩ := (Option.any_eq_true _ _).1 heval
    obtain ⟨hbefore, hthrown⟩ := of_decide_eq_true hc
    obtain ⟨st, hst, hnone⟩ := (Option.any_eq_true _ _).1 hbefore
    obtain ⟨⟨e, after⟩, hthrown, hafter⟩ := (Option.any_eq_true _ _).1 hthrown
    obtain ⟨c', hc', hst'⟩ := thrownRequest_eq_some hthrown
    obtain ⟨st', rfl, hslot⟩ := (Option.any_eq_true _ _).1 hafter
    exact ⟨c, c', e, st, st', hrun, hc', hst, hst', of_decide_eq_true hnone, of_decide_eq_true hslot⟩

end CodedLLM
