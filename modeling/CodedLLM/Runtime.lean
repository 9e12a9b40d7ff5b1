import CodedLLM.HealthyExecutor
/-!
# Runtime — the coordinator with the CUDA executor

The two components side by side.  A handler stages its shard inside the coordinator's locked section, but it submits
the slots it copied there only after it has released the lock, and the executor then takes whatever context has been
staged by that time.  As long as every accepted task gets the context of its own slots, the invariant holds and no
request fails (`step_inv`); a shard that is staged between the copy and the `Submit` makes the two differ.

An arrival is one step here; `ArrivalSections` cuts it at its call of `StageShard`.

The executor outlives the coordinator, which shares it, so it is not shut down here.
-/
namespace CodedLLM

open Runs

structure Runtime where
  coordinator : Coordinator
  executor : Executor

namespace Runtime

def ReachesStageShard (st : RequestState) (shardId : Nat) (payload : WordShard) : Prop :=
  st.snapshot.status = .pending ∧ shardId < st.shards.length ∧ payload ≠ [] ∧
    (st.wordCount = 0 ∨ st.wordCount = payload.length) ∧ slotAt st.shards shardId = none

instance (st : RequestState) (shardId : Nat) (payload : WordShard) : Decidable (ReachesStageShard st shardId payload) :=
  inferInstanceAs (Decidable (_ ∧ _))

/-- What the call of `StageShard` in an arrival's locked section leaves, and the exception it ends with. -/
def stageArrival (s : Runtime) (dev : Device) (request shardId : Nat) (payload : WordShard) : Executor × Option Exn :=
  match s.coordinator.requests request with
  | none => (s.executor, none)
  | some st =>
    if ReachesStageShard st shardId payload then
      match s.executor.stageShard dev request st.shards.length shardId payload with
      | .returns executor => (executor, none)
      | .throws executor e => (executor, some e)
    else (s.executor, none)

def submitAnswer : Except Exn Bool → SubmitAnswer
  | .ok true => .accepts
  | .ok false => .refuses
  | .error e => .throws e

inductive Action where
  | attachTransport
  | startRequest (request : Nat) (oracle : Bool) (transportAnswer : Option Exn)
  /-- the locked section of `OnShardArrived`.  What `StageShard` answers is not taken from `env`; the estimate is,
  since the executor may move on between the two calls -/
  | arrive (dev : Device) (thread request shardId : Nat) (payload : WordShard) (arrivalTime : Int) (env : ArrivalEnv)
  | submit (thread : Nat) (env : SubmitEnv)
  | recheck (thread : Nat)
  | rollback (thread : Nat)
  | cancel (thread : Nat)
  | take (worker : Nat)
  | execute (worker : Nat) (env : ExecuteEnv)
  | check (worker : Nat)
  /-- the completion handler, which calls `OnRecoveryComplete` -/
  | deliver (worker : Nat)
  | erase (worker : Nat)

def coordinatorStep (g : BipartiteGraph) (s : Runtime) (a : CodedLLM.Action) : Option Runtime :=
  (CodedLLM.step g s.coordinator a).map (fun c => { s with coordinator := c })

def workerStep (s : Runtime) (a : Executor.Action) : Option Runtime :=
  (Executor.step s.executor a).map (fun e => { s with executor := e })

def step (g : BipartiteGraph) (s : Runtime) : Action → Option Runtime
  | .attachTransport => s.coordinatorStep g .attachTransport
  | .startRequest request oracle transportAnswer => s.coordinatorStep g (.startRequest request oracle transportAnswer)
  | .arrive dev thread request shardId payload arrivalTime env =>
    let r := s.stageArrival dev request shardId payload
    (CodedLLM.step g s.coordinator (.arrive thread request shardId payload arrivalTime { env with staged := r.2 })).map
      (fun c => ⟨c, r.1⟩)
  | .submit thread env =>
    match s.coordinator.handlers thread with
    | .submitting request plan taskShards =>
      let r := s.executor.submit env request plan taskShards true
      (CodedLLM.step g s.coordinator (.submit thread (submitAnswer r.2))).map (fun c => ⟨c, r.1⟩)
    | _ => none
  | .recheck thread => s.coordinatorStep g (.recheck thread)
  | .rollback thread => s.coordinatorStep g (.rollback thread)
  | .cancel thread =>
    match s.coordinator.handlers thread with
    | .cancelling request =>
      (CodedLLM.step g s.coordinator (.cancel thread)).map (fun c => ⟨c, (s.executor.cancel request).1⟩)
    | _ => none
  | .take worker => s.workerStep (.take worker)
  | .execute worker env => s.workerStep (.execute worker env)
  | .check worker => s.workerStep (.check worker)
  | .deliver worker =>
    match s.executor.workers[worker]? with
    | some (.delivering task result) =>
      (s.workerStep (.deliver worker)).bind (fun s => s.coordinatorStep g (.complete task.requestId result))
    | _ => none
  | .erase worker => s.workerStep (.erase worker)

/-- **What the surroundings promise**: every arriving payload is the original shard or its parity, and no CUDA runtime
call fails. -/
def Ordinary {g : BipartiteGraph} (data : Nat → Encoded g) : Action → Prop
  | .arrive dev _ request shardId payload _ _ => (data request).payload shardId = some payload ∧ dev.Healthy
  | .submit _ env => env.create.Healthy ∧ ∀ shardId, (env.stage shardId).Healthy
  | .execute _ env => env.dev.Healthy
  | _ => True

/-- **The submitted copy is current**: at a call of `Submit` the executor has no staged context for the request, or the
request still has the slots that were copied, or the executor is full and refuses. -/
def copyCurrent (s : Runtime) : Action → Bool
  | .submit thread _ =>
    match s.coordinator.handlers thread with
    | .submitting request _ taskShards =>
      (s.executor.stagedContexts request).isNone ||
        (s.coordinator.requests request).any (fun st => st.shards = taskShards) ||
        decide (s.executor.capacity ≤ s.executor.outstanding)
    | _ => true
  | _ => true

theorem copyCurrent_submit {s : Runtime} {thread request : Nat} {plan : DecodePlan} {taskShards : ShardSlots}
    (hh : s.coordinator.handlers thread = .submitting request plan taskShards) (env : SubmitEnv) :
    s.copyCurrent (.submit thread env) = true ↔ s.executor.stagedContexts request = none ∨
      (∃ st, s.coordinator.requests request = some st ∧ st.shards = taskShards) ∨
      s.executor.capacity ≤ s.executor.outstanding := by
  simp only [copyCurrent, hh, Bool.or_eq_true, Option.isNone_iff_eq_none, Option.any_eq_true, decide_eq_true_eq,
    or_assoc]

end Runtime

namespace Runtime

/-! ## One arrival -/

theorem decideRecovery_frame (g : BipartiteGraph) (st : RequestState) (env : ArrivalEnv) :
    (decideRecovery g st env).1.shards = st.shards ∧
      (decideRecovery g st env).1.snapshot.status = st.snapshot.status := by
  unfold decideRecovery
  dsimp only
  repeat' split
  all_goals exact ⟨rfl, rfl⟩

section Arrival

variable (g : BipartiteGraph) {st : RequestState} {shardId : Nat} {payload : WordShard} (arrivalTime : Int)
  (env : ArrivalEnv)

theorem onShardArrived_unstaged (h : ¬ ReachesStageShard st shardId payload) :
    (onShardArrived g st shardId payload arrivalTime env).1.shards = st.shards ∧
      (onShardArrived g st shardId payload arrivalTime env).1.snapshot.status = st.snapshot.status ∧
      ∀ e, (onShardArrived g st shardId payload arrivalTime env).2 = .error e →
        (onShardArrived g st shardId payload arrivalTime env).1 = st := by
  unfold onShardArrived
  by_cases hterm : isTerminal st.snapshot.status = true
  · rw [if_pos hterm]
    exact ⟨rfl, rfl, fun e he => (by cases he)⟩
  rw [if_neg hterm]
  by_cases hb : st.shards.length ≤ shardId
  · rw [if_pos hb]
    exact ⟨rfl, rfl, fun _ _ => rfl⟩
  rw [if_neg hb]
  by_cases hpay : payload = []
  · rw [if_pos hpay]
    exact ⟨rfl, rfl, fun _ _ => rfl⟩
  rw [if_neg hpay]
  by_cases hw : st.wordCount ≠ 0 ∧ st.wordCount ≠ payload.length
  · rw [if_pos hw]
    exact ⟨rfl, rfl, fun _ _ => rfl⟩
  rw [if_neg hw]
  by_cases hslot : (slotAt st.shards shardId).isSome = true
  · simp only [hslot, if_true]
    exact ⟨trivial, trivial, fun e he => (by cases he)⟩
  · exfalso
    refine h ⟨pending_of_not_terminal hterm, Nat.lt_of_not_le hb, hpay, ?_, by simpa using hslot⟩
    by_cases h0 : st.wordCount = 0
    · exact .inl h0
    · exact .inr (not_not.1 (fun hn => hw ⟨h0, hn⟩))

theorem onShardArrived_reached (h : ReachesStageShard st shardId payload) :
    onShardArrived g st shardId payload arrivalTime env =
      match env.staged with
      | some e => ({ st with wordCount := payload.length }, .error e)
      | none =>
        let st := { st with wordCount := payload.length, shards := st.shards.set shardId (some payload) }
        match st.tracker.markArrived shardId arrivalTime with
        | .error e => (st, .error e)
        | .ok tracker =>
          let st := { st with tracker := tracker }
          if st.tracker.isSystematicComplete then
            ({ st with snapshot := { st.snapshot with status := .naturalComplete } }, .ok .cancel)
          else if st.recoveryClosed = false ∧ st.snapshot.recoverySubmitted = false then decideRecovery g st env
          else (st, .ok .done) := by
  obtain ⟨hp, hb, hpay, hw, hslot⟩ := h
  unfold onShardArrived
  have hterm : ¬ isTerminal st.snapshot.status = true := by simp [isTerminal, hp]
  have hw' : ¬ (st.wordCount ≠ 0 ∧ st.wordCount ≠ payload.length) := fun hn => hw.elim hn.1 hn.2
  have hslot' : ¬ (slotAt st.shards shardId).isSome = true := by simp [hslot]
  rw [if_neg hterm, if_neg (Nat.not_le.2 hb), if_neg hpay, if_neg hw']
  refine (if_neg hslot').trans ?_
  cases env.staged <;> rfl

theorem onShardArrived_thrown (h : ReachesStageShard st shardId payload) {e : Exn} (he : env.staged = some e) :
    (onShardArrived g st shardId payload arrivalTime env).1.shards = st.shards ∧
      (onShardArrived g st shardId payload arrivalTime env).1.snapshot.status = st.snapshot.status := by
  rw [onShardArrived_reached g arrivalTime env h, he]
  exact ⟨rfl, rfl⟩

theorem onShardArrived_stored (h : ReachesStageShard st shardId payload) (he : env.staged = none) :
    (onShardArrived g st shardId payload arrivalTime env).1.shards = st.shards.set shardId (some payload) ∧
      ((onShardArrived g st shardId payload arrivalTime env).1.snapshot.status = st.snapshot.status ∨
        (onShardArrived g st shardId payload arrivalTime env).1.snapshot.status = .naturalComplete) := by
  rw [onShardArrived_reached g arrivalTime env h, he]
  dsimp only
  cases st.tracker.markArrived shardId arrivalTime with
  | error e => exact ⟨rfl, .inl rfl⟩
  | ok tracker =>
    dsimp only
    split
    · exact ⟨rfl, .inr rfl⟩
    split
    · obtain ⟨hs, ht⟩ := decideRecovery_frame g { st with
        wordCount := payload.length, shards := st.shards.set shardId (some payload), tracker := tracker } env
      exact ⟨hs, .inl ht⟩
    · exact ⟨rfl, .inl rfl⟩

end Arrival

/-! ## The coordinator's side -/

theorem arrival_planned {g : BipartiteGraph} {st st' : RequestState} {shardId : Nat} {payload : WordShard}
    {arrivalTime : Int} {env : ArrivalEnv} {r : Except Exn NextStep}
    (ha : Arrival g st shardId payload arrivalTime env st' r) {request : Nat} {x : Nat × DecodePlan × ShardSlots}
    (hx : (nextPhase request r).task = some x) : g.Valid := by
  rcases ha.phase request with h | ⟨h, -⟩ | ⟨tracker, available, plan, -, -, hplan, -, -, -, -⟩
  · rw [h] at hx
    cases hx
  · rw [h] at hx
    cases hx
  · exact (createPlan_spec hplan).1

def Cancelling (c : Coordinator) : Prop :=
  ∀ t r, c.handlers t = .cancelling r → ∃ st, c.requests r = some st ∧ isTerminal st.snapshot.status = true

theorem nextPhase_cancelling {g : BipartiteGraph} {st st' : RequestState} {shardId : Nat} {payload : WordShard}
    {arrivalTime : Int} {env : ArrivalEnv} {r : Except Exn NextStep}
    (ha : Arrival g st shardId payload arrivalTime env st' r) {request q : Nat}
    (h : nextPhase request r = .cancelling q) : q = request ∧ isTerminal st'.snapshot.status = true := by
  rcases ha.phase request with hph | ⟨hph, hnat⟩ | ⟨tracker, available, plan, -, -, -, -, -, -, hph⟩
  · rw [hph] at h
    cases h
  · rw [hph] at h
    cases h
    rw [hnat]
    exact ⟨rfl, rfl⟩
  · rw [hph] at h
    cases h

theorem step_cancelling {g : BipartiteGraph} {c c' : Coordinator} {a : CodedLLM.Action}
    (h : CodedLLM.step g c a = some c') (hi : CoordinatorInv g c) (hc : Cancelling c) : Cancelling c' := by
  have hkeep : ∀ r, (∃ st, c.requests r = some st ∧ isTerminal st.snapshot.status = true) →
      ∃ st, c'.requests r = some st ∧ isTerminal st.snapshot.status = true := by
    rintro r ⟨st, hst, ht⟩
    obtain ⟨st', hst', n, -, rfl⟩ := step_frozen h r st hst ht
    exact ⟨_, hst', ht⟩
  -- one handler changes its phase
  have hupdate : ∀ thread phase, c'.handlers = Function.update c.handlers thread phase →
      (∀ r, phase = .cancelling r → ∃ st, c'.requests r = some st ∧ isTerminal st.snapshot.status = true) →
      Cancelling c' := by
    intro thread phase hh hnew t r ht
    rw [hh] at ht
    by_cases htt : t = thread
    · subst htt
      rw [Function.update_self] at ht
      exact hnew r ht
    · rw [Function.update_of_ne htt] at ht
      exact hkeep r (hc t r ht)
  cases step_cases h with
  | stays a transport => exact hc
  | started request oracle answer st hst hnew => exact fun t r ht => hkeep r (hc t r ht)
  | completed request result st hst => exact fun t r ht => hkeep r (hc t r ht)
  | arrived thread request shardId payload arrivalTime env st hidle hst =>
    have harr := onShardArrived_cases g st shardId payload arrivalTime env (hi.request request st hst).sizes
    refine hupdate thread _ rfl (fun r hr => ?_)
    obtain ⟨rfl, ht⟩ := nextPhase_cancelling harr hr
    exact ⟨_, Function.update_self .., ht⟩
  | submitted thread answer request plan taskShards phase htask hphase hcancel =>
    exact hupdate thread phase rfl (fun r hr => absurd hr (hcancel r))
  | moved a thread phase htask hphase hcancel =>
    refine hupdate thread phase rfl (fun r hr => ?_)
    obtain ⟨st, hst, hnat⟩ := hcancel r hr
    exact ⟨st, hst, by rw [hnat]; rfl⟩
  | refused thread request st hst hrefused => exact hupdate thread .idle rfl (fun _ hr => by cases hr)

def Planned (g : BipartiteGraph) (c : Coordinator) : Prop := ∀ t x, (c.handlers t).task = some x → g.Valid

theorem step_planned {g : BipartiteGraph} {c c' : Coordinator} {a : CodedLLM.Action} (h : CodedLLM.step g c a = some c')
    (hi : CoordinatorInv g c) (hp : Planned g c) : Planned g c' := by
  cases step_cases h with
  | stays a transport => exact hp
  | started request oracle answer st hst hnew => exact hp
  | completed request result st hst => exact hp
  | submitted thread answer request plan taskShards phase htask hphase =>
    exact fun t x hx => hp t x (task_update_none hphase hx).2
  | moved a thread phase htask hphase => exact fun t x hx => hp t x (task_update_none hphase hx).2
  | refused thread request st hst hrefused => exact fun t x hx => hp t x (task_update_none rfl hx).2
  | arrived thread request shardId payload arrivalTime env st hidle hst =>
    have harr := onShardArrived_cases g st shardId payload arrivalTime env (hi.request request st hst).sizes
    intro t x hx
    rcases task_update hx with ⟨-, hx⟩ | ⟨-, hx⟩
    · exact arrival_planned harr hx
    · exact hp t x hx

/-! ## The invariant -/

open Executor (StagedFor Matched stagePresent)

/-- **A request and its staged context**, until `Submit` is called for it: the context follows the slots, or the request
completed and the context was discarded. -/
def Linked (c : Coordinator) (e : Executor) (r : Nat) : Prop :=
  match c.requests r with
  | none => e.stagedContexts r = none
  | some st => st.snapshot.status ≠ .failed ∧ (r ∉ c.submits.map Prod.fst →
      StagedFor st.shards (e.stagedContexts r) ∨ (st.snapshot.status ≠ .pending ∧ e.stagedContexts r = none))

theorem linked_none {c : Coordinator} {e : Executor} {r : Nat} (hr : c.requests r = none) :
    Linked c e r ↔ e.stagedContexts r = none := by
  rw [Linked, hr]

theorem linked_some {c : Coordinator} {e : Executor} {r : Nat} {st : RequestState} (hr : c.requests r = some st) :
    Linked c e r ↔ st.snapshot.status ≠ .failed ∧ (r ∉ c.submits.map Prod.fst →
      StagedFor st.shards (e.stagedContexts r) ∨ (st.snapshot.status ≠ .pending ∧ e.stagedContexts r = none)) := by
  rw [Linked, hr]

theorem Linked.frame {c c' : Coordinator} {e e' : Executor} {r : Nat} (h : Linked c e r)
    (hreq : c'.requests r = c.requests r) (hsub : c.submits ⊆ c'.submits)
    (hst : e'.stagedContexts r = e.stagedContexts r) : Linked c' e' r := by
  cases hr : c.requests r with
  | none =>
    rw [linked_none (hreq.trans hr), hst]
    exact (linked_none hr).1 h
  | some st =>
    rw [linked_some (hreq.trans hr), hst]
    obtain ⟨hf, hs⟩ := (linked_some hr).1 h
    exact ⟨hf, fun hn => hs (fun hm => hn (List.map_subset _ hsub hm))⟩

theorem Linked.same {c c' : Coordinator} {e : Executor} {r : Nat} (h : Linked c e r) {st st' : RequestState}
    (hst : c.requests r = some st) (hst' : c'.requests r = some st') (hsub : c.submits ⊆ c'.submits)
    (hshards : st'.shards = st.shards) (hstatus : st'.snapshot.status = st.snapshot.status) : Linked c' e r := by
  obtain ⟨hf, hs⟩ := (linked_some hst).1 h
  rw [linked_some hst', hshards, hstatus]
  exact ⟨hf, fun hn => hs (fun hm => hn (List.map_subset _ hsub hm))⟩

structure Inv {g : BipartiteGraph} (data : Nat → Encoded g) (s : Runtime) : Prop where
  served : ServedInv data s.coordinator
  cancelling : Cancelling s.coordinator
  planned : Planned g s.coordinator
  linked : ∀ r, Linked s.coordinator s.executor r
  executor : Executor.Healthy data (s.coordinator.submits.map Prod.fst) s.executor

theorem Inv.init {g : BipartiteGraph} (data : Nat → Encoded g) {concurrencyLimit maxQueueDepth : UInt64} {cost : Int}
    {e : Executor} (h : Executor.make concurrencyLimit maxQueueDepth cost = .ok e) : Inv data ⟨.init, e⟩ := by
  have hbooks := Executor.Books.make h
  obtain ⟨-, -, -, heq⟩ := Executor.make_ok h
  refine ⟨.init data, fun _ _ ht => ?_, fun _ _ hx => ?_, fun r => ?_, hbooks, ?_, ?_, ?_⟩
  · cases ht
  · cases hx
  · rw [linked_none rfl, heq]
  · rw [heq]
  · rw [heq]
    intro task hm
    cases hm
  · rw [heq]
    intro w hw
    rw [List.eq_of_mem_replicate hw]
    trivial

section Step

variable {g : BipartiteGraph} {data : Nat → Encoded g} {s s' : Runtime}

theorem Inv.coordinator (h : Inv data s) {a : CodedLLM.Action} {c : Coordinator}
    (hs : CodedLLM.step g s.coordinator a = some c) (hf : Faithful data a) :
    ServedInv data c ∧ Cancelling c ∧ Planned g c :=
  ⟨step_servedInv hs h.served hf, step_cancelling hs h.served.lifecycle h.cancelling,
    step_planned hs h.served.lifecycle h.planned⟩

def Quiet : CodedLLM.Action → Prop
  | .arrive .. => False
  | .submit .. => False
  | .complete .. => False
  | _ => True

theorem onSubmitRefused_frame (st : RequestState) :
    (onSubmitRefused st).shards = st.shards ∧ (onSubmitRefused st).snapshot.status = st.snapshot.status := by
  unfold onSubmitRefused
  split
  · exact ⟨rfl, rfl⟩
  · exact ⟨rfl, rfl⟩

theorem quiet_linked {c c' : Coordinator} {a : CodedLLM.Action} (hs : CodedLLM.step g c a = some c') (hq : Quiet a)
    {e : Executor} {r : Nat} (h : Linked c e r) : Linked c' e r ∧ c'.submits = c.submits := by
  cases step_cases hs with
  | stays a transport => exact ⟨h.frame rfl (List.Subset.refl _) rfl, rfl⟩
  | moved a thread phase htask hphase => exact ⟨h.frame rfl (List.Subset.refl _) rfl, rfl⟩
  | started request oracle answer st hst hnew =>
    refine ⟨?_, rfl⟩
    by_cases hr : r = request
    · subst hr
      refine (linked_some (Function.update_self ..)).2 ?_
      have hnone := (linked_none hnew).1 h
      unfold RequestState.make at hst
      split at hst
      · cases hst
      · obtain rfl := Except.ok.inj hst
        refine ⟨by simp, fun _ => .inl (.inl ⟨hnone, fun i => ?_⟩)⟩
        simp only [slotAt, List.getElem?_replicate]
        split <;> rfl
    · exact h.frame (Function.update_of_ne hr ..) (List.Subset.refl _) rfl
  | refused thread request st hst hrefused =>
    refine ⟨?_, rfl⟩
    by_cases hr : r = request
    · subst hr
      obtain ⟨h1, h2⟩ := onSubmitRefused_frame st
      exact h.same hst (Function.update_self ..) (List.Subset.refl _) h1 h2
    · exact h.frame (Function.update_of_ne hr ..) (List.Subset.refl _) rfl
  | arrived thread request shardId payload arrivalTime env st hidle hst => cases hq
  | submitted thread answer request plan taskShards phase htask hphase => cases hq
  | completed request result st hst => cases hq

theorem coordinatorStep_inv (h : Inv data s) {a : CodedLLM.Action} (hs : s.coordinatorStep g a = some s') (hq : Quiet a)
    (hf : Faithful data a) : Inv data s' := by
  obtain ⟨c, hc, rfl⟩ := Option.map_eq_some_iff.1 hs
  obtain ⟨h1, h2, h3⟩ := h.coordinator hc hf
  refine ⟨h1, h2, h3, fun r => (quiet_linked hc hq (h.linked r)).1, ?_⟩
  have hsub : c.submits = s.coordinator.submits := (quiet_linked hc hq (h.linked 0)).2
  show Executor.Healthy data (c.submits.map Prod.fst) s.executor
  rw [hsub]
  exact h.executor

theorem workerStep_inv (h : Inv data s) {a : Executor.Action} (hs : s.workerStep a = some s') (ha : a.staging = none)
    (hserving : a ≠ .shutdown) (hcancel : ∀ r, a ≠ .cancel r)
    (hexec : ∀ worker env, a = .execute worker env → env.dev.Healthy) : Inv data s' := by
  obtain ⟨e, he, rfl⟩ := Option.map_eq_some_iff.1 hs
  refine ⟨h.served, h.cancelling, h.planned, fun r => ?_, ?_⟩
  · refine (h.linked r).frame rfl (List.Subset.refl _) ?_
    exact Executor.step_stagedContexts he (by rw [ha]; simp) (hcancel r)
  · refine Executor.step_healthy h.executor he hserving hexec (fun env r plan shards hsub => ?_)
    rw [hsub] at ha
    cases ha

theorem cancel_inv (h : Inv data s) {thread : Nat} (hs : step g s (.cancel thread) = some s') : Inv data s' := by
  simp only [step] at hs
  split at hs
  · rename_i request hh
    obtain ⟨c, hc, rfl⟩ := Option.map_eq_some_iff.1 hs
    obtain ⟨h1, h2, h3⟩ := h.coordinator hc trivial
    simp only [CodedLLM.step, hh, Option.some.injEq] at hc
    have he : Executor.step s.executor (.cancel request) = some (s.executor.cancel request).1 := rfl
    refine ⟨h1, h2, h3, fun r => ?_, ?_⟩
    · by_cases hr : r = request
      · subst hr
        obtain ⟨st, hst, hterm⟩ := h.cancelling thread r hh
        have hst' : c.requests r = some st := by
          rw [← hc]
          exact hst
        have hnone : (s.executor.cancel r).1.stagedContexts r = none := by
          rcases s.executor.cancel_spec r with ⟨task, pre, post, -, -, heq⟩ | ⟨-, -, heq⟩ | ⟨-, -, heq⟩
          · rw [heq]
            exact Function.update_self ..
          · rw [heq]
            exact Function.update_self ..
          · rw [heq]
            exact Function.update_self ..
        refine (linked_some hst').2 ⟨((linked_some hst).1 (h.linked r)).1, fun _ => .inr ⟨fun hp => ?_, hnone⟩⟩
        rw [hp] at hterm
        cases hterm
      · refine (h.linked r).frame (by rw [← hc]; rfl) (by rw [← hc]; exact List.Subset.refl _) ?_
        exact Executor.step_stagedContexts he (by simp [Executor.Action.staging]) (by simpa using Ne.symm hr)
    · have hsub : c.submits = s.coordinator.submits := by rw [← hc]; rfl
      show Executor.Healthy data (c.submits.map Prod.fst) _
      rw [hsub]
      exact Executor.step_healthy h.executor he (by simp) (fun _ _ hx => by cases hx) (fun _ _ _ _ hx => by cases hx)
  · cases hs

theorem stageArrival_executor (s : Runtime) (dev : Device) (request shardId : Nat) (payload : WordShard) :
    (s.stageArrival dev request shardId payload).1 = s.executor ∨
      ∃ n, (s.stageArrival dev request shardId payload).1 =
        (s.executor.stageShard dev request n shardId payload).state := by
  unfold stageArrival
  split
  · exact .inl rfl
  · rename_i st hst
    split
    · refine .inr ⟨st.shards.length, ?_⟩
      cases s.executor.stageShard dev request st.shards.length shardId payload <;> rfl
    · exact .inl rfl

theorem arrive_linked (h : Inv data s) {dev : Device} (hdev : dev.Healthy) {request shardId : Nat} {payload : WordShard}
    (arrivalTime : Int) (env : ArrivalEnv) {st : RequestState} (hst : s.coordinator.requests request = some st)
    {c : Coordinator} (hsub : c.submits = s.coordinator.submits)
    (hc : c.requests request = some (onShardArrived g st shardId payload arrivalTime
      { env with staged := (s.stageArrival dev request shardId payload).2 }).1) :
    Linked c (s.stageArrival dev request shardId payload).1 request := by
  have hl := (linked_some hst).1 (h.linked request)
  rw [linked_some hc, hsub]
  by_cases hreach : ReachesStageShard st shardId payload
  · by_cases hsubm : request ∈ s.coordinator.submits.map Prod.fst
    · -- past its `Submit` only the status matters
      refine ⟨?_, fun hn => absurd hsubm hn⟩
      cases hx : (s.stageArrival dev request shardId payload).2 with
      | some e =>
        rw [(onShardArrived_thrown g arrivalTime { env with staged := some e } hreach rfl).2]
        exact hl.1
      | none =>
        rcases (onShardArrived_stored g arrivalTime { env with staged := none } hreach rfl).2 with he | he
        · rw [he]
          exact hl.1
        · rw [he]
          decide
    · obtain ⟨hrun, hqueue⟩ := h.executor.free hsubm
      have hstaged : StagedFor st.shards (s.executor.stagedContexts request) := by
        rcases hl.2 hsubm with hl | ⟨hp, -⟩
        · exact hl
        · exact absurd hreach.1 hp
      have hok := Executor.stageShard_ok hdev h.executor.serving hrun hqueue hstaged hreach.2.1 hreach.2.2.1
        hreach.2.2.2.2
      have hr : s.stageArrival dev request shardId payload =
          (s.executor.setStaged request (some ⟨st.shards.length, .ofSlots (st.shards.set shardId (some payload))⟩),
            none) := by
        unfold stageArrival
        simp only [hst, if_pos hreach, hok]
      rw [hr]
      obtain ⟨hshards, hstatus⟩ := onShardArrived_stored g arrivalTime { env with staged := none } hreach rfl
      rw [hshards]
      refine ⟨?_, fun _ => .inl (.inr ?_)⟩
      · rcases hstatus with he | he
        · rw [he]
          exact hl.1
        · rw [he]
          decide
      · rw [List.length_set]
        exact Function.update_self ..
  · have hr : s.stageArrival dev request shardId payload = (s.executor, none) := by
      unfold stageArrival
      simp only [hst, if_neg hreach]
    obtain ⟨hshards, hstatus, -⟩ := onShardArrived_unstaged g arrivalTime
      { env with staged := (s.stageArrival dev request shardId payload).2 } hreach
    rw [hshards, hstatus, hr]
    exact hl

theorem arrive_inv (h : Inv data s) {dev : Device} {thread request shardId : Nat} {payload : WordShard}
    {arrivalTime : Int}
    {env : ArrivalEnv} (hs : step g s (.arrive dev thread request shardId payload arrivalTime env) = some s')
    (hp : (data request).payload shardId = some payload) (hdev : dev.Healthy) : Inv data s' := by
  simp only [step] at hs
  obtain ⟨c, hc, rfl⟩ := Option.map_eq_some_iff.1 hs
  obtain ⟨h1, h2, h3⟩ := h.coordinator hc hp
  -- the executor has moved by at most one `StageShard` of this request
  have hexec : Executor.Healthy data (s.coordinator.submits.map Prod.fst)
        (s.stageArrival dev request shardId payload).1 ∧
      ∀ r, r ≠ request →
        (s.stageArrival dev request shardId payload).1.stagedContexts r = s.executor.stagedContexts r := by
    rcases s.stageArrival_executor dev request shardId payload with he | ⟨n, he⟩
    · rw [he]
      exact ⟨h.executor, fun _ _ => rfl⟩
    · have hstep : Executor.step s.executor (.stageShard dev request n shardId payload) =
          some (s.stageArrival dev request shardId payload).1 := by
        rw [he]
        rfl
      refine ⟨Executor.step_healthy h.executor hstep (by simp) (fun _ _ hx => by cases hx)
        (fun _ _ _ _ hx => by cases hx), fun r hr => Executor.step_stagedContexts hstep ?_ (by simp)⟩
      simpa [Executor.Action.staging] using Ne.symm hr
  simp only [CodedLLM.step] at hc
  split at hc
  · rename_i hidle hnone
    obtain rfl := Option.some.inj hc
    have hr : s.stageArrival dev request shardId payload = (s.executor, none) := by
      unfold stageArrival
      rw [hnone]
    rw [hr]
    exact h
  · rename_i st hidle hst
    obtain rfl := Option.some.inj hc
    refine ⟨h1, h2, h3, fun r => ?_, hexec.1⟩
    by_cases hr : r = request
    · subst hr
      exact arrive_linked h hdev arrivalTime env hst rfl (Function.update_self ..)
    · exact (h.linked r).frame (Function.update_of_ne hr ..) (List.Subset.refl _) (hexec.2 r hr)
  · cases hc

/-- **A current copy gets the context of its slots.** -/
theorem submit_matched (h : Inv data s) {thread request : Nat} {plan : DecodePlan} {taskShards : ShardSlots}
    (hh : s.coordinator.handlers thread = .submitting request plan taskShards) {env : SubmitEnv}
    (henv : env.create.Healthy ∧ ∀ shardId, (env.stage shardId).Healthy)
    (hcur : s.copyCurrent (.submit thread env) = true)
    {context : DeviceShardStagingContext}
    (hcontext : (∃ staged, s.executor.stagedContexts request = some staged ∧ staged.shardCount = taskShards.length ∧
        context = staged.context) ∨
      (s.executor.stagedContexts request = none ∧ stagePresent env taskShards = .ok context))
    (hroom : s.executor.outstanding < s.executor.capacity) : Matched (data request) plan taskShards context := by
  have htask : (s.coordinator.handlers thread).task = some (request, plan, taskShards) := by
    rw [hh]
    rfl
  have hsound := h.served.task thread request plan taskShards htask
  refine Executor.matched_of_submit (h.planned thread _ htask) hsound henv.1 henv.2 ?_
  rcases hcontext with ⟨staged, hst, -, rfl⟩ | ⟨-, hctx⟩
  · refine .inl ?_
    rcases (copyCurrent_submit hh env).1 hcur with hnone | ⟨st, hreq, hshards⟩ | hfull
    · rw [hnone] at hst
      cases hst
    · have hfresh := h.served.lifecycle.submit.fresh thread request _ htask
      rcases ((linked_some hreq).1 (h.linked request)).2 hfresh with (⟨hnone, -⟩ | hsome) | ⟨-, hnone⟩
      · rw [hnone] at hst
        cases hst
      · rw [hsome] at hst
        obtain rfl := Option.some.inj hst
        rw [hshards]
      · rw [hnone] at hst
        cases hst
    · omega
  · exact .inr hctx

theorem submit_coordinator {c c' : Coordinator} {thread request : Nat} {plan : DecodePlan} {taskShards : ShardSlots}
    (hh : c.handlers thread = .submitting request plan taskShards) {answer : SubmitAnswer}
    (hs : CodedLLM.step g c (.submit thread answer) = some c') :
    c'.requests = c.requests ∧ c'.submits = (request, plan, taskShards) :: c.submits := by
  simp only [CodedLLM.step, hh] at hs
  cases answer with
  | accepts =>
    obtain rfl := Option.some.inj hs
    exact ⟨rfl, rfl⟩
  | refuses =>
    obtain rfl := Option.some.inj hs
    exact ⟨rfl, rfl⟩
  | throws e =>
    obtain rfl := Option.some.inj hs
    exact ⟨rfl, rfl⟩

theorem submit_inv (h : Inv data s) {thread : Nat} {env : SubmitEnv} (hs : step g s (.submit thread env) = some s')
    (henv : env.create.Healthy ∧ ∀ shardId, (env.stage shardId).Healthy)
    (hcur : s.copyCurrent (.submit thread env) = true) :
    Inv data s' := by
  simp only [step] at hs
  split at hs
  · rename_i request plan taskShards hh
    obtain ⟨c, hc, rfl⟩ := Option.map_eq_some_iff.1 hs
    obtain ⟨h1, h2, h3⟩ := h.coordinator hc trivial
    obtain ⟨hreq, hsub⟩ := submit_coordinator hh hc
    have he : Executor.step s.executor (.submit env request plan taskShards true) =
        some (s.executor.submit env request plan taskShards true).1 := rfl
    have hmem : request ∈ c.submits.map Prod.fst := by
      rw [hsub]
      exact List.mem_cons_self
    have hmono : s.coordinator.submits ⊆ c.submits := by
      rw [hsub]
      exact List.subset_cons_self _ _
    refine ⟨h1, h2, h3, fun r => ?_, ?_⟩
    · by_cases hr : r = request
      · subst hr
        cases hst : s.coordinator.requests r with
        | none =>
          obtain ⟨st, hst', -⟩ := h.served.lifecycle.submit.announced thread r _ (by rw [hh]; rfl)
          rw [hst] at hst'
          cases hst'
        | some st =>
          have hst' : c.requests r = some st := by rw [hreq]; exact hst
          exact (linked_some hst').2 ⟨((linked_some hst).1 (h.linked r)).1, fun hn => absurd hmem hn⟩
      · refine (h.linked r).frame (by rw [hreq]) hmono ?_
        exact Executor.step_stagedContexts he (by simpa [Executor.Action.staging] using Ne.symm hr) (by simp)
    · refine Executor.step_healthy (h.executor.mono (List.map_subset _ hmono)) he (by simp) (fun _ _ hx => by cases hx)
        (fun env' r plan' shards' hx context hcontext hroom => ?_)
      obtain ⟨rfl, rfl, rfl, rfl⟩ : env = env' ∧ request = r ∧ plan = plan' ∧ taskShards = shards' := by
        simpa using hx
      exact ⟨submit_matched h hh henv hcur hcontext hroom, hmem⟩
  · cases hs

theorem deliver_inv (h : Inv data s) {worker : Nat} (hs : step g s (.deliver worker) = some s') : Inv data s' := by
  simp only [step] at hs
  split at hs
  · rename_i task result hw
    obtain ⟨s₁, hs₁, hs₂⟩ := Option.bind_eq_some_iff.1 hs
    have hsane := h.executor.workers _ (List.mem_of_getElem? hw)
    obtain ⟨⟨hsuccess, hfull⟩, hsub⟩ := hsane
    have h' := workerStep_inv h hs₁ rfl (by simp) (by simp) (fun _ _ hx => by cases hx)
    have hsame : s₁.coordinator = s.coordinator := by
      obtain ⟨e, -, rfl⟩ := Option.map_eq_some_iff.1 hs₁
      rfl
    obtain ⟨c, hc, rfl⟩ := Option.map_eq_some_iff.1 hs₂
    obtain ⟨h1, h2, h3⟩ := h'.coordinator hc (fun _ => hfull)
    rw [← hsame] at hsub
    simp only [CodedLLM.step] at hc
    split at hc
    · rename_i st hst
      obtain rfl := Option.some.inj hc
      refine ⟨h1, h2, h3, fun r => ?_, h'.executor⟩
      by_cases hr : r = task.requestId
      · subst hr
        refine (linked_some (Function.update_self ..)).2 ⟨?_, fun hn => absurd hsub hn⟩
        have hf := ((linked_some hst).1 (h'.linked task.requestId)).1
        unfold onRecoveryComplete
        split
        · exact hf
        · simp [hsuccess]
      · exact (h'.linked r).frame (Function.update_of_ne hr ..) (List.Subset.refl _) rfl
    · obtain rfl := Option.some.inj hc
      exact h'
  · cases hs

/-- **Every ordinary step whose submitted copy is current keeps the invariant.** -/
theorem step_inv (s : Runtime) (a : Action) (s' : Runtime) (h : Inv data s)
    (ha : Ordinary data a ∧ s.copyCurrent a = true) (hs : step g s a = some s') : Inv data s' := by
  cases a with
  | attachTransport => exact coordinatorStep_inv h hs trivial trivial
  | startRequest request oracle transportAnswer => exact coordinatorStep_inv h hs trivial trivial
  | arrive dev thread request shardId payload arrivalTime env => exact arrive_inv h hs ha.1.1 ha.1.2
  | submit thread env => exact submit_inv h hs ha.1 ha.2
  | recheck thread => exact coordinatorStep_inv h hs trivial trivial
  | rollback thread => exact coordinatorStep_inv h hs trivial trivial
  | cancel thread => exact cancel_inv h hs
  | take worker => exact workerStep_inv h hs rfl (by simp) (by simp) (fun _ _ hx => by cases hx)
  | execute worker env =>
    refine workerStep_inv h hs rfl (by simp) (by simp) (fun _ env' hx => ?_)
    cases hx
    exact ha.1
  | check worker => exact workerStep_inv h hs rfl (by simp) (by simp) (fun _ _ hx => by cases hx)
  | deliver worker => exact deliver_inv h hs
  | erase worker => exact workerStep_inv h hs rfl (by simp) (by simp) (fun _ _ hx => by cases hx)

end Step

/-- **A stale copy gets the context of other slots.** -/
theorem submit_stale {g : BipartiteGraph} {data : Nat → Encoded g} {s s' : Runtime} (h : Inv data s) {thread : Nat}
    {env : SubmitEnv} (hs : step g s (.submit thread env) = some s')
    (hcur : ¬ s.copyCurrent (.submit thread env) = true) :
    ∃ task ∈ s'.executor.queue, task.context.stagedShards ≠ task.shards := by
  simp only [step] at hs
  split at hs
  · rename_i request plan taskShards hh
    obtain ⟨c, -, rfl⟩ := Option.map_eq_some_iff.1 hs
    rw [copyCurrent_submit hh, not_or, not_or] at hcur
    obtain ⟨hstaged, hshards, hroom⟩ := hcur
    have htask : (s.coordinator.handlers thread).task = some (request, plan, taskShards) := by
      rw [hh]
      rfl
    have hfresh := h.served.lifecycle.submit.fresh thread request _ htask
    obtain ⟨st, hst, -⟩ := h.served.lifecycle.submit.announced thread request _ htask
    have hsome : s.executor.stagedContexts request = some ⟨st.shards.length, .ofSlots st.shards⟩ := by
      rcases ((linked_some hst).1 (h.linked request)).2 hfresh with (⟨hnone, -⟩ | hsome) | ⟨-, hnone⟩
      · exact absurd hnone hstaged
      · exact hsome
      · exact absurd hnone hstaged
    have hlen : st.shards.length = taskShards.length := by
      rw [Executor.length_of_sound (h.served.task thread request plan taskShards htask)]
      by_cases hrec : st.snapshot.status = .recovered
      · exact ((h.served.served request st hst).full hrec).1
      · exact (h.served.lifecycle.request request st hst).length hrec
    obtain ⟨hrun, hqueue⟩ := h.executor.free hfresh
    have hsub : s.executor.submit env request plan taskShards true =
        ((s.executor.setStaged request none).enqueue
          ⟨request, plan, taskShards, .ofSlots st.shards, env.enqueuedAt, s.executor.tickets⟩, .ok true) := by
      unfold Executor.submit
      rw [if_neg (by simp), if_neg (by simp [h.executor.serving, hroom, hrun, hqueue]), hsome]
      simp only [hlen, ne_eq, not_true_eq_false, if_false]
    rw [hsub]
    refine ⟨_, List.mem_append_right _ (List.mem_singleton.2 rfl), fun heq => hshards ⟨st, hst, heq⟩⟩
  · cases hs

/-- An arrival for request 7 of `makeThreeDataTwoParityGraph`, with the estimate of an idle executor. -/
def arriveSeven (thread shardId : Nat) (payload : WordShard) : Action :=
  .arrive serialDevice thread 7 shardId payload 10 ⟨none, 1, some 5, .ok 100⟩

def submitBy (thread : Nat) : Action := .submit thread ⟨serialDevice, fun _ => serialDevice, 0⟩

/-- Shards 0, 2 and the parity 3 arrive, and the third handler decides to recover. -/
def decidedRun : List Action :=
  [.attachTransport, .startRequest 7 true none, arriveSeven 0 0 [1], arriveSeven 0 2 [4], arriveSeven 1 3 [3]]

def workerRound : List Action :=
  [.take 0, .execute 0 ⟨serialDevice, 4000, 9000, 1, 2, 1⟩, .check 0, .deliver 0]

end Runtime

end CodedLLM
