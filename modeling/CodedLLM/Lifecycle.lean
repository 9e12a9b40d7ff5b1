import CodedLLM.Coordinator
import CodedLLM.Runs
/-!
# Lifecycle — what every run of the coordinator keeps, whatever the executor does

One inversion of the locked section (`onShardArrived_cases`) says all it can do to a request.  From it: the tracker
and the slots agree until a recovery replaces the slots, the recovery flags exclude each other, a terminal request is
frozen, and `Submit` is called at most once per request.  Completions are arbitrary here: any result, at any time, any
number of times.
-/
namespace CodedLLM

open Runs

def recordShard (st : RequestState) (shardId : Nat) (payload : WordShard) (tracker : ShardArrivalTracker) :
    RequestState :=
  { st with wordCount := payload.length, shards := st.shards.set shardId (some payload), tracker := tracker }

def withFlags (st : RequestState) (metrics : RecoveryExecutionMetrics) (submitted rejected closed : Bool) :
    RequestState :=
  { st with
    snapshot := { st.snapshot with metrics := metrics, recoverySubmitted := submitted, recoveryRejected := rejected }
    recoveryClosed := closed }

structure Accepts (st : RequestState) (shardId : Nat) (payload : WordShard) (arrivalTime : Int) (env : ArrivalEnv)
    (tracker : ShardArrivalTracker) : Prop where
  pending : st.snapshot.status = .pending
  bound : shardId < st.shards.length
  empty : slotAt st.shards shardId = none
  payload : payload ≠ []
  staged : env.staged = none
  marked : st.tracker.markArrived shardId arrivalTime = .ok tracker

/-- **Everything the locked section can do**, with the guards under which it does it. -/
inductive Arrival (g : BipartiteGraph) (st : RequestState) (shardId : Nat) (payload : WordShard) (arrivalTime : Int)
    (env : ArrivalEnv) : RequestState → Except Exn NextStep → Prop
  | late (h : isTerminal st.snapshot.status = true) :
      Arrival g st shardId payload arrivalTime env
        { st with snapshot := { st.snapshot with lateArrivals := st.snapshot.lateArrivals + 1 } } (.ok .done)
  | kept (words : Nat) (r : Except Exn NextStep) (hpend : st.snapshot.status = .pending)
      (hr : ∀ request, nextPhase request r = .idle) :
      Arrival g st shardId payload arrivalTime env { st with wordCount := words } r
  | natural (tracker : ShardArrivalTracker) (h : Accepts st shardId payload arrivalTime env tracker)
      (hc : tracker.isSystematicComplete = true) :
      Arrival g st shardId payload arrivalTime env
        { recordShard st shardId payload tracker with snapshot := { st.snapshot with status := .naturalComplete } }
        (.ok .cancel)
  | quiet (tracker : ShardArrivalTracker) (h : Accepts st shardId payload arrivalTime env tracker)
      (hc : tracker.isSystematicComplete = false) (metrics : RecoveryExecutionMetrics) (r : Except Exn NextStep)
      (hr : ∀ request, nextPhase request r = .idle) :
      Arrival g st shardId payload arrivalTime env
        (withFlags (recordShard st shardId payload tracker) metrics st.snapshot.recoverySubmitted
          st.snapshot.recoveryRejected st.recoveryClosed) r
  | noEstimate (tracker : ShardArrivalTracker) (h : Accepts st shardId payload arrivalTime env tracker)
      (hc : tracker.isSystematicComplete = false) (metrics : RecoveryExecutionMetrics)
      (hopen : st.recoveryClosed = false) (hnew : st.snapshot.recoverySubmitted = false) :
      Arrival g st shardId payload arrivalTime env
        (withFlags (recordShard st shardId payload tracker) metrics st.snapshot.recoverySubmitted true true) (.ok .done)
  | decided (tracker : ShardArrivalTracker) (h : Accepts st shardId payload arrivalTime env tracker)
      (hc : tracker.isSystematicComplete = false) (metrics : RecoveryExecutionMetrics)
      (hopen : st.recoveryClosed = false) (hnew : st.snapshot.recoverySubmitted = false) (available : Finset Nat)
      (hav : availableParity tracker g.parityToSystematic = .ok available) (plan : DecodePlan)
      (hplan : createPlan g tracker.getMissingSystematic available = .ok plan) (hrec : plan.isRecoverable = true) :
      Arrival g st shardId payload arrivalTime env
        (withFlags (recordShard st shardId payload tracker) metrics true st.snapshot.recoveryRejected st.recoveryClosed)
        (.ok (.submit plan (st.shards.set shardId (some payload))))

theorem decideRecovery_cases (g : BipartiteGraph) {st : RequestState} {shardId : Nat} {payload : WordShard}
    {arrivalTime : Int} {env : ArrivalEnv} {tracker : ShardArrivalTracker}
    (h : Accepts st shardId payload arrivalTime env tracker) (hc : tracker.isSystematicComplete = false)
    (hopen : st.recoveryClosed = false) (hnew : st.snapshot.recoverySubmitted = false) :
    Arrival g st shardId payload arrivalTime env (decideRecovery g (recordShard st shardId payload tracker) env).1
      (decideRecovery g (recordShard st shardId payload tracker) env).2 := by
  have hquiet := Arrival.quiet (g := g) tracker h hc
  unfold decideRecovery
  cases hav : availableParity tracker g.parityToSystematic with
  | error e =>
    simp only [recordShard, hav]
    exact hquiet st.snapshot.metrics (.error e) (fun _ => rfl)
  | ok available =>
    cases hplan : createPlan g tracker.getMissingSystematic available with
    | error e =>
      simp only [recordShard, hav, hplan]
      exact hquiet st.snapshot.metrics (.error e) (fun _ => rfl)
    | ok plan =>
      cases hrec : plan.isRecoverable with
      | false =>
        simp only [recordShard, hav, hplan, hrec, if_true]
        exact hquiet _ (.ok .done) (fun _ => rfl)
      | true =>
        simp only [recordShard, hav, hplan, hrec, Bool.true_eq_false, if_false]
        cases env.estimate with
        | none => exact .noEstimate tracker h hc _ hopen hnew
        | some estimate =>
          cases env.waitCost with
          | error e => exact hquiet _ (.error e) (fun _ => rfl)
          | ok wait =>
            simp only
            cases RecoveryPolicy.evaluate g tracker ⟨wait, estimate⟩ with
            | error e => exact hquiet _ (.error e) (fun _ => rfl)
            | ok decision =>
              cases decision with
              | recover => exact .decided tracker h hc _ hopen hnew available hav plan hplan hrec
              | wait => exact hquiet _ (.ok .done) (fun _ => rfl)
              | unrecoverable => exact hquiet _ (.ok .done) (fun _ => rfl)

theorem pending_of_not_terminal {status : RequestStatus} (h : ¬ isTerminal status = true) : status = .pending := by
  simpa [isTerminal] using h

/-- **The locked section does one of these things**, on a request whose tracker and slots have the same size. -/
theorem onShardArrived_cases (g : BipartiteGraph) (st : RequestState) (shardId : Nat) (payload : WordShard)
    (arrivalTime : Int) (env : ArrivalEnv)
    (hlen : st.snapshot.status = .pending → st.tracker.arrivals.length = st.shards.length) :
    Arrival g st shardId payload arrivalTime env (onShardArrived g st shardId payload arrivalTime env).1
      (onShardArrived g st shardId payload arrivalTime env).2 := by
  unfold onShardArrived
  by_cases hterm : isTerminal st.snapshot.status = true
  · rw [if_pos hterm]
    exact .late hterm
  rw [if_neg hterm]
  have hpend := pending_of_not_terminal hterm
  by_cases hb : st.shards.length ≤ shardId
  · rw [if_pos hb]
    exact .kept st.wordCount (.error _) hpend (fun _ => rfl)
  rw [if_neg hb]
  by_cases hpay : payload = []
  · rw [if_pos hpay]
    exact .kept st.wordCount (.error _) hpend (fun _ => rfl)
  rw [if_neg hpay]
  by_cases hw : st.wordCount ≠ 0 ∧ st.wordCount ≠ payload.length
  · rw [if_pos hw]
    exact .kept st.wordCount (.error _) hpend (fun _ => rfl)
  rw [if_neg hw]
  cases hslot : slotAt st.shards shardId with
  | some w =>
    simp only [hslot, Option.isSome_some, if_true]
    exact .kept payload.length (.ok .done) hpend (fun _ => rfl)
  | none =>
    simp only [hslot, Option.isSome_none, Bool.false_eq_true, if_false]
    cases hst : env.staged with
    | some e => exact .kept payload.length (.error e) hpend (fun _ => rfl)
    | none =>
      have hlt : shardId < st.tracker.arrivals.length := by
        rw [hlen hpend]
        omega
      obtain ⟨tracker, hmark, -⟩ := ShardArrivalTracker.markArrived_ok hlt arrivalTime
      simp only [hmark]
      have hacc : Accepts st shardId payload arrivalTime env tracker :=
        ⟨hpend, Nat.lt_of_not_le hb, hslot, hpay, hst, hmark⟩
      cases hc : tracker.isSystematicComplete with
      | true =>
        simp only [if_true]
        exact .natural tracker hacc hc
      | false =>
        simp only [Bool.false_eq_true, if_false]
        by_cases hd : st.recoveryClosed = false ∧ st.snapshot.recoverySubmitted = false
        · rw [if_pos hd]
          exact decideRecovery_cases g hacc hc hd.1 hd.2
        · rw [if_neg hd]
          exact .quiet tracker hacc hc st.snapshot.metrics (.ok .done) (fun _ => rfl)

/-! ## One request -/

structure RequestInv (g : BipartiteGraph) (st : RequestState) : Prop where
  systematic : st.tracker.systematicShardCount = g.systematicShardCount
  parity : st.tracker.parityShardCount = g.parityShardCount
  arrivals : st.tracker.arrivals.length = g.systematicShardCount + g.parityShardCount
  length : st.snapshot.status ≠ .recovered → st.shards.length = g.systematicShardCount + g.parityShardCount
  agree : st.snapshot.status ≠ .recovered → ∀ i, st.tracker.arrived i = (slotAt st.shards i).isSome
  exclusive : ¬ (st.snapshot.recoverySubmitted = true ∧ st.snapshot.recoveryRejected = true)
  closed : st.snapshot.recoveryRejected = true → st.recoveryClosed = true
  natural : st.snapshot.status = .naturalComplete → st.tracker.isSystematicComplete = true

/-- **All that can happen to a request in the table.** -/
inductive RequestMove (g : BipartiteGraph) (st : RequestState) : RequestState → Prop
  | arrival (shardId : Nat) (payload : WordShard) (arrivalTime : Int) (env : ArrivalEnv) :
      RequestMove g st (onShardArrived g st shardId payload arrivalTime env).1
  | refused : RequestMove g st (onSubmitRefused st)
  | complete (result : RecoveryTaskResult) : RequestMove g st (onRecoveryComplete st result)

theorem RequestInv.sizes {g : BipartiteGraph} {st : RequestState} (h : RequestInv g st)
    (hp : st.snapshot.status = .pending) : st.tracker.arrivals.length = st.shards.length := by
  rw [h.arrivals, h.length (by rw [hp]; decide)]

theorem RequestInv.make {g : BipartiteGraph} {st : RequestState}
    (h : RequestState.make g.systematicShardCount g.parityShardCount = .ok st) : RequestInv g st := by
  unfold RequestState.make at h
  cases ht : ShardArrivalTracker.make g.systematicShardCount g.parityShardCount with
  | error e =>
    rw [ht] at h
    cases h
  | ok tracker =>
    rw [ht] at h
    obtain rfl := ShardArrivalTracker.make_ok ht
    obtain rfl := (Except.ok.inj h).symm
    refine ⟨rfl, rfl, by simp, fun _ => by simp, fun _ i => ?_, by simp, by simp, by simp⟩
    simp only [ShardArrivalTracker.arrived, slotAt, List.getElem?_replicate]
    split <;> rfl

theorem RequestInv.record {g : BipartiteGraph} {st : RequestState} (h : RequestInv g st) {shardId : Nat}
    {payload : WordShard} {arrivalTime : Int} {env : ArrivalEnv} {tracker : ShardArrivalTracker}
    (ha : Accepts st shardId payload arrivalTime env tracker) :
    RequestInv g (recordShard st shardId payload tracker) := by
  have hrec : st.snapshot.status ≠ .recovered := by
    rw [ha.pending]
    decide
  have hlt : shardId < st.tracker.arrivals.length := by
    rw [h.sizes ha.pending]
    exact ha.bound
  obtain ⟨t', hmark, hk, hm, hl, harr⟩ := ShardArrivalTracker.markArrived_ok hlt arrivalTime
  rw [ha.marked] at hmark
  obtain rfl := Except.ok.inj hmark
  refine ⟨hk.trans h.systematic, hm.trans h.parity, hl.trans h.arrivals, fun _ => ?_, fun _ i => ?_, h.exclusive,
    h.closed, fun hn => ?_⟩
  · rw [recordShard, List.length_set]
    exact h.length hrec
  · show tracker.arrived i = (slotAt (st.shards.set shardId (some payload)) i).isSome
    rw [harr, slotAt_set ha.bound, h.agree hrec]
    by_cases hi : i = shardId <;> simp [hi]
  · rw [show (recordShard st shardId payload tracker).snapshot.status = .pending from ha.pending] at hn
    cases hn

theorem RequestInv.withFlags {g : BipartiteGraph} {st : RequestState} (h : RequestInv g st)
    (metrics : RecoveryExecutionMetrics) {submitted rejected closed : Bool}
    (hex : ¬ (submitted = true ∧ rejected = true)) (hcl : rejected = true → closed = true) :
    RequestInv g (withFlags st metrics submitted rejected closed) :=
  ⟨h.systematic, h.parity, h.arrivals, h.length, h.agree, hex, hcl, h.natural⟩

theorem RequestInv.arrival {g : BipartiteGraph} {st st' : RequestState} (h : RequestInv g st) {shardId : Nat}
    {payload : WordShard} {arrivalTime : Int} {env : ArrivalEnv} {r : Except Exn NextStep}
    (ha : Arrival g st shardId payload arrivalTime env st' r) : RequestInv g st' := by
  cases ha with
  | late _ => exact ⟨h.systematic, h.parity, h.arrivals, h.length, h.agree, h.exclusive, h.closed, h.natural⟩
  | kept words r hpend hr =>
    exact ⟨h.systematic, h.parity, h.arrivals, h.length, h.agree, h.exclusive, h.closed, h.natural⟩
  | natural tracker hacc hc =>
    have hrec := h.record hacc
    have hne : (recordShard st shardId payload tracker).snapshot.status ≠ .recovered := by
      rw [show (recordShard st shardId payload tracker).snapshot.status = .pending from hacc.pending]
      decide
    exact ⟨hrec.systematic, hrec.parity, hrec.arrivals, fun _ => hrec.length hne, fun _ => hrec.agree hne, h.exclusive,
      h.closed, fun _ => hc⟩
  | quiet tracker hacc hc metrics r hr => exact (h.record hacc).withFlags metrics h.exclusive h.closed
  | noEstimate tracker hacc hc metrics hopen hnew =>
    exact (h.record hacc).withFlags metrics (by simp [hnew]) (fun _ => rfl)
  | decided tracker hacc hc metrics hopen hnew available hav plan hplan hrec =>
    refine (h.record hacc).withFlags metrics (fun hb => ?_) h.closed
    -- an earlier rejection would have closed the recovery
    rw [h.closed hb.2] at hopen
    cases hopen

theorem RequestMove.inv {g : BipartiteGraph} {st st' : RequestState} (h : RequestInv g st) (hm : RequestMove g st st') :
    RequestInv g st' := by
  cases hm with
  | arrival shardId payload arrivalTime env =>
    exact h.arrival (onShardArrived_cases g st shardId payload arrivalTime env h.sizes)
  | refused =>
    unfold onSubmitRefused
    split
    · exact h
    · exact h.withFlags st.snapshot.metrics (by simp) (fun _ => rfl)
  | complete result =>
    unfold onRecoveryComplete
    split
    · exact h
    rename_i hterm
    have hp := pending_of_not_terminal hterm
    have hne : st.snapshot.status ≠ .recovered := by
      rw [hp]
      decide
    dsimp only
    split
    · exact ⟨h.systematic, h.parity, h.arrivals, fun _ => h.length hne, fun _ => h.agree hne, h.exclusive, h.closed,
        fun hn => by cases hn⟩
    · exact ⟨h.systematic, h.parity, h.arrivals, fun hn => absurd rfl hn, fun hn => absurd rfl hn, h.exclusive,
        h.closed, fun hn => by cases hn⟩

/-- **Frozen**: the same request but for the count of late arrivals, which has not shrunk. -/
def Frozen (st st' : RequestState) : Prop :=
  ∃ n, st.snapshot.lateArrivals ≤ n ∧ st' = { st with snapshot := { st.snapshot with lateArrivals := n } }

theorem Frozen.refl (st : RequestState) : Frozen st st := ⟨_, Nat.le_refl _, rfl⟩

theorem Frozen.trans {st st' st'' : RequestState} (h : Frozen st st') (h' : Frozen st' st'') : Frozen st st'' := by
  obtain ⟨n, hn, rfl⟩ := h
  obtain ⟨n', hn', rfl⟩ := h'
  exact ⟨n', hn.trans hn', rfl⟩

theorem RequestMove.frozen {g : BipartiteGraph} {st st' : RequestState} (hm : RequestMove g st st')
    (ht : isTerminal st.snapshot.status = true) : Frozen st st' := by
  cases hm with
  | arrival shardId payload arrivalTime env =>
    unfold onShardArrived
    rw [if_pos ht]
    exact ⟨_, Nat.le_succ _, rfl⟩
  | refused =>
    unfold onSubmitRefused
    rw [if_pos ht]
    exact .refl st
  | complete result =>
    unfold onRecoveryComplete
    rw [if_pos ht]
    exact .refl st

def Spoken (st : RequestState) : Prop := st.snapshot.recoverySubmitted = true ∨ st.recoveryClosed = true

theorem Arrival.spoken {g : BipartiteGraph} {st st' : RequestState} {shardId : Nat} {payload : WordShard}
    {arrivalTime : Int} {env : ArrivalEnv} {r : Except Exn NextStep}
    (ha : Arrival g st shardId payload arrivalTime env st' r) (hs : Spoken st) : Spoken st' := by
  cases ha with
  | late _ => exact hs
  | kept _ _ _ _ => exact hs
  | natural _ _ _ => exact hs
  | quiet _ _ _ _ _ _ => exact hs
  | noEstimate _ _ _ _ _ _ => exact .inr rfl
  | decided _ _ _ _ _ _ _ _ _ _ _ => exact .inl rfl

theorem RequestMove.spoken {g : BipartiteGraph} {st st' : RequestState} (h : RequestInv g st)
    (hm : RequestMove g st st') (hs : Spoken st) : Spoken st' := by
  cases hm with
  | arrival shardId payload arrivalTime env =>
    exact (onShardArrived_cases g st shardId payload arrivalTime env h.sizes).spoken hs
  | refused =>
    unfold onSubmitRefused
    split
    · exact hs
    · exact .inr rfl
  | complete result =>
    unfold onRecoveryComplete
    split
    · exact hs
    · dsimp only
      split <;> exact hs

/-! ## One step of the system -/

@[simp] theorem Coordinator.setRequest_handlers (c : Coordinator) (r : Nat) (st : RequestState) :
    (c.setRequest r st).handlers = c.handlers := rfl

@[simp] theorem Coordinator.setRequest_submits (c : Coordinator) (r : Nat) (st : RequestState) :
    (c.setRequest r st).submits = c.submits := rfl

@[simp] theorem Coordinator.setRequest_requests (c : Coordinator) (r : Nat) (st : RequestState) :
    (c.setRequest r st).requests = Function.update c.requests r (some st) := rfl

@[simp] theorem Coordinator.setHandler_requests (c : Coordinator) (t : Nat) (phase : HandlerPhase) :
    (c.setHandler t phase).requests = c.requests := rfl

@[simp] theorem Coordinator.setHandler_submits (c : Coordinator) (t : Nat) (phase : HandlerPhase) :
    (c.setHandler t phase).submits = c.submits := rfl

@[simp] theorem Coordinator.setHandler_handlers (c : Coordinator) (t : Nat) (phase : HandlerPhase) :
    (c.setHandler t phase).handlers = Function.update c.handlers t phase := rfl

def HandlerPhase.task : HandlerPhase → Option (Nat × DecodePlan × ShardSlots)
  | .submitting request plan taskShards => some (request, plan, taskShards)
  | _ => none

inductive Stepped (g : BipartiteGraph) (c : Coordinator) : Action → Coordinator → Prop
  | stays (a : Action) (transport : Bool) : Stepped g c a { c with transport := transport }
  | started (request : Nat) (oracle : Bool) (answer : Option Exn) (st : RequestState)
      (hst : RequestState.make g.systematicShardCount g.parityShardCount = .ok st) (hnew : c.requests request = none) :
      Stepped g c (.startRequest request oracle answer) (c.setRequest request st)
  | arrived (thread request shardId : Nat) (payload : WordShard) (arrivalTime : Int) (env : ArrivalEnv)
      (st : RequestState) (hidle : c.handlers thread = .idle) (hst : c.requests request = some st) :
      Stepped g c (.arrive thread request shardId payload arrivalTime env)
        ((c.setRequest request (onShardArrived g st shardId payload arrivalTime env).1).setHandler thread
          (nextPhase request (onShardArrived g st shardId payload arrivalTime env).2))
  | submitted (thread : Nat) (answer : SubmitAnswer) (request : Nat) (plan : DecodePlan) (taskShards : ShardSlots)
      (phase : HandlerPhase) (htask : c.handlers thread = .submitting request plan taskShards)
      (hphase : phase.task = none) (hcancel : ∀ r, phase ≠ .cancelling r) :
      Stepped g c (.submit thread answer)
        ({ c with submits := (request, plan, taskShards) :: c.submits }.setHandler thread phase)
  | moved (a : Action) (thread : Nat) (phase : HandlerPhase) (htask : (c.handlers thread).task = none)
      (hphase : phase.task = none)
      (hcancel : ∀ r, phase = .cancelling r → ∃ st, c.requests r = some st ∧ st.snapshot.status = .naturalComplete) :
      Stepped g c a (c.setHandler thread phase)
  | refused (thread request : Nat) (st : RequestState) (hst : c.requests request = some st)
      (hrefused : c.handlers thread = .refused request) :
      Stepped g c (.rollback thread) ((c.setRequest request (onSubmitRefused st)).setHandler thread .idle)
  | completed (request : Nat) (result : RecoveryTaskResult) (st : RequestState) (hst : c.requests request = some st) :
      Stepped g c (.complete request result) (c.setRequest request (onRecoveryComplete st result))

theorem startRequest_cases (g : BipartiteGraph) (c : Coordinator) (request : Nat) (oracle : Bool)
    (answer : Option Exn) :
    Stepped g c (.startRequest request oracle answer) (c.startRequest g request oracle answer).state := by
  unfold Coordinator.startRequest
  split
  · exact .stays _ c.transport
  split
  · exact .stays _ c.transport
  cases hst : RequestState.make g.systematicShardCount g.parityShardCount with
  | error e => exact .stays _ c.transport
  | ok st =>
    cases hr : c.requests request with
    | some old => exact .stays _ c.transport
    | none =>
      simp only [Option.isSome_none, Bool.false_eq_true, if_false]
      cases answer with
      | none => exact .started request oracle none st hst hr
      | some e => exact .started request oracle (some e) st hst hr

theorem step_cases {g : BipartiteGraph} {c c' : Coordinator} {a : Action} (h : step g c a = some c') :
    Stepped g c a c' := by
  cases a with
  | attachTransport =>
    obtain rfl := Option.some.inj h
    exact .stays _ true
  | startRequest request oracle answer =>
    obtain rfl := Option.some.inj h
    exact startRequest_cases g c request oracle answer
  | arrive thread request shardId payload arrivalTime env =>
    simp only [step] at h
    split at h
    · obtain rfl := Option.some.inj h
      exact .stays _ c.transport
    · rename_i st hidle hst
      obtain rfl := Option.some.inj h
      exact .arrived thread request shardId payload arrivalTime env st hidle hst
    · cases h
  | cancel thread =>
    simp only [step] at h
    split at h
    · rename_i r hr
      obtain rfl := Option.some.inj h
      exact .moved _ thread .idle (by rw [hr]; rfl) rfl (fun _ h => by cases h)
    · cases h
  | submit thread answer =>
    simp only [step] at h
    split at h
    · rename_i request plan taskShards htask
      cases answer with
      | accepts =>
        obtain rfl := Option.some.inj h
        exact .submitted thread _ request plan taskShards _ htask rfl (fun _ h => by cases h)
      | refuses =>
        obtain rfl := Option.some.inj h
        exact .submitted thread _ request plan taskShards _ htask rfl (fun _ h => by cases h)
      | throws e =>
        obtain rfl := Option.some.inj h
        exact .submitted thread _ request plan taskShards _ htask rfl (fun _ h => by cases h)
    · cases h
  | recheck thread =>
    simp only [step] at h
    split at h
    · rename_i request hacc
      split at h
      · rename_i st hst
        obtain rfl := Option.some.inj h
        refine .moved _ thread _ (by rw [hacc]; rfl) ?_ (fun r hr => ?_)
        · split <;> rfl
        · split at hr
          · rename_i hnat
            cases hr
            exact ⟨st, hst, hnat⟩
          · cases hr
      · cases h
    · cases h
  | rollback thread =>
    simp only [step] at h
    split at h
    · rename_i request href
      split at h
      · rename_i st hst
        obtain rfl := Option.some.inj h
        exact .refused thread request st hst href
      · cases h
    · cases h
  | complete request result =>
    simp only [step] at h
    split at h
    · rename_i st hst
      obtain rfl := Option.some.inj h
      exact .completed request result st hst
    · obtain rfl := Option.some.inj h
      exact .stays _ c.transport

/-- **What a step does to one request**: nothing, it enters the table, or it makes a move. -/
theorem step_request {g : BipartiteGraph} {c c' : Coordinator} {a : Action} (h : step g c a = some c') (r : Nat) :
    c'.requests r = c.requests r ∨
      (c.requests r = none ∧ ∃ st, RequestState.make g.systematicShardCount g.parityShardCount = .ok st ∧
        c'.requests r = some st) ∨
      ∃ st st', c.requests r = some st ∧ c'.requests r = some st' ∧ RequestMove g st st' := by
  have hset : ∀ (request : Nat) (st st' : RequestState), c.requests request = some st → RequestMove g st st' →
      Function.update c.requests request (some st') r = c.requests r ∨
        ∃ st st'', c.requests r = some st ∧ Function.update c.requests request (some st') r = some st'' ∧
          RequestMove g st st'' := by
    intro request st st' hst hm
    by_cases hr : r = request
    · subst hr
      exact .inr ⟨st, st', hst, Function.update_self .., hm⟩
    · exact .inl (Function.update_of_ne hr ..)
  cases step_cases h with
  | stays a transport => exact .inl rfl
  | started request oracle answer st hst hnew =>
    by_cases hr : r = request
    · subst hr
      exact .inr (.inl ⟨hnew, st, hst, by simp⟩)
    · exact .inl (by simp [hr])
  | arrived thread request shardId payload arrivalTime env st hidle hst =>
    exact (hset request st _ hst (.arrival shardId payload arrivalTime env)).imp_right .inr
  | submitted thread answer request plan taskShards phase htask hphase => exact .inl rfl
  | moved a thread phase htask hphase => exact .inl rfl
  | refused thread request st hst hrefused => exact (hset request st _ hst .refused).imp_right .inr
  | completed request result st hst => exact (hset request st _ hst (.complete result)).imp_right .inr

/-! ## Whole runs -/

/-- **Every submission, made or about to be made, is the only one of its request**, whose flags say so. -/
structure SubmitInv (c : Coordinator) : Prop where
  unique : ∀ t t' r x x', (c.handlers t).task = some (r, x) → (c.handlers t').task = some (r, x') → t = t'
  fresh : ∀ t r x, (c.handlers t).task = some (r, x) → r ∉ c.submits.map Prod.fst
  nodup : (c.submits.map Prod.fst).Nodup
  announced : ∀ t r x, (c.handlers t).task = some (r, x) → ∃ st, c.requests r = some st ∧ Spoken st
  made : ∀ r ∈ c.submits.map Prod.fst, ∃ st, c.requests r = some st ∧ Spoken st

structure CoordinatorInv (g : BipartiteGraph) (c : Coordinator) : Prop where
  request : ∀ r st, c.requests r = some st → RequestInv g st
  submit : SubmitInv c

theorem CoordinatorInv.init (g : BipartiteGraph) : CoordinatorInv g Coordinator.init where
  request _ _ h := by cases h
  submit := by
    refine ⟨fun _ _ _ _ _ h => ?_, fun _ _ _ h => ?_, .nil, fun _ _ _ h => ?_, fun _ h => ?_⟩ <;> cases h

theorem step_requestInv {g : BipartiteGraph} {c c' : Coordinator} {a : Action} (h : step g c a = some c')
    (hi : ∀ r st, c.requests r = some st → RequestInv g st) : ∀ r st, c'.requests r = some st → RequestInv g st := by
  intro r st hst
  rcases step_request h r with he | ⟨-, st', hmake, he⟩ | ⟨st₀, st', hst₀, he, hmove⟩
  · exact hi r st (he ▸ hst)
  · rw [he] at hst
    obtain rfl := Option.some.inj hst
    exact .make hmake
  · rw [he] at hst
    obtain rfl := Option.some.inj hst
    exact hmove.inv (hi r st₀ hst₀)

theorem step_spoken {g : BipartiteGraph} {c c' : Coordinator} {a : Action} (h : step g c a = some c')
    (hi : ∀ r st, c.requests r = some st → RequestInv g st) {r : Nat} (hs : ∃ st, c.requests r = some st ∧ Spoken st) :
    ∃ st, c'.requests r = some st ∧ Spoken st := by
  obtain ⟨st, hst, hsp⟩ := hs
  rcases step_request h r with he | ⟨hnone, -⟩ | ⟨st₀, st', hst₀, he, hmove⟩
  · exact ⟨st, he.trans hst, hsp⟩
  · rw [hnone] at hst
    cases hst
  · rw [hst₀] at hst
    obtain rfl := Option.some.inj hst
    exact ⟨st', he, hmove.spoken (hi r st₀ hst₀) hsp⟩

/-- **What a handler does after its locked section**: nothing, the `Cancel` of a request that is now complete, or the
`Submit` of a plan over what the tracker has seen, for which it has just spoken. -/
theorem Arrival.phase {g : BipartiteGraph} {st st' : RequestState} {shardId : Nat} {payload : WordShard}
    {arrivalTime : Int} {env : ArrivalEnv} {r : Except Exn NextStep}
    (ha : Arrival g st shardId payload arrivalTime env st' r) (request : Nat) :
    nextPhase request r = .idle ∨
    (nextPhase request r = .cancelling request ∧ st'.snapshot.status = .naturalComplete) ∨
    ∃ tracker available plan, Accepts st shardId payload arrivalTime env tracker ∧
      availableParity tracker g.parityToSystematic = .ok available ∧
      createPlan g tracker.getMissingSystematic available = .ok plan ∧ plan.isRecoverable = true ∧ ¬ Spoken st ∧
      Spoken st' ∧ nextPhase request r = .submitting request plan (st.shards.set shardId (some payload)) := by
  cases ha with
  | late _ => exact .inl rfl
  | kept _ _ _ hr => exact .inl (hr request)
  | natural _ _ _ => exact .inr (.inl ⟨rfl, rfl⟩)
  | quiet _ _ _ _ _ hr => exact .inl (hr request)
  | noEstimate _ _ _ _ _ _ => exact .inl rfl
  | decided tracker hacc _ _ hopen hnew available hav plan hplan hrec =>
    exact .inr (.inr ⟨tracker, available, plan, hacc, hav, hplan, hrec, by simp [Spoken, hopen, hnew], .inl rfl, rfl⟩)

theorem Arrival.task {g : BipartiteGraph} {st st' : RequestState} {shardId : Nat} {payload : WordShard}
    {arrivalTime : Int} {env : ArrivalEnv} {r : Except Exn NextStep}
    (ha : Arrival g st shardId payload arrivalTime env st' r) {request : Nat} {x : Nat × DecodePlan × ShardSlots}
    (hx : (nextPhase request r).task = some x) : x.1 = request ∧ ¬ Spoken st ∧ Spoken st' := by
  rcases ha.phase request with h | ⟨h, -⟩ | ⟨tracker, available, plan, -, -, -, -, hno, hspoken, h⟩
  · rw [h] at hx
    cases hx
  · rw [h] at hx
    cases hx
  · rw [h] at hx
    obtain rfl := Option.some.inj hx
    exact ⟨rfl, hno, hspoken⟩

theorem SubmitInv.mono {c c' : Coordinator} (h : SubmitInv c)
    (htask : ∀ t x, (c'.handlers t).task = some x → (c.handlers t).task = some x) (hsub : c'.submits = c.submits)
    (hsp : ∀ r, (∃ st, c.requests r = some st ∧ Spoken st) → ∃ st, c'.requests r = some st ∧ Spoken st) :
    SubmitInv c' where
  unique t t' r x x' hx hx' := h.unique t t' r x x' (htask t _ hx) (htask t' _ hx')
  fresh t r x hx := by
    rw [hsub]
    exact h.fresh t r x (htask t _ hx)
  nodup := by
    rw [hsub]
    exact h.nodup
  announced t r x hx := hsp r (h.announced t r x (htask t _ hx))
  made r hr := by
    rw [hsub] at hr
    exact hsp r (h.made r hr)

theorem task_update {handlers : Nat → HandlerPhase} {thread t : Nat} {phase : HandlerPhase}
    {x : Nat × DecodePlan × ShardSlots} (h : (Function.update handlers thread phase t).task = some x) :
    t = thread ∧ phase.task = some x ∨ t ≠ thread ∧ (handlers t).task = some x := by
  by_cases ht : t = thread
  · subst ht
    rw [Function.update_self] at h
    exact .inl ⟨rfl, h⟩
  · rw [Function.update_of_ne ht] at h
    exact .inr ⟨ht, h⟩

theorem task_update_none {handlers : Nat → HandlerPhase} {thread t : Nat} {phase : HandlerPhase}
    {x : Nat × DecodePlan × ShardSlots} (hphase : phase.task = none)
    (h : (Function.update handlers thread phase t).task = some x) : t ≠ thread ∧ (handlers t).task = some x := by
  rcases task_update h with ⟨-, hx⟩ | h
  · rw [hphase] at hx
    cases hx
  · exact h

theorem step_submitInv {g : BipartiteGraph} {c c' : Coordinator} {a : Action} (h : step g c a = some c')
    (hi : CoordinatorInv g c) : SubmitInv c' := by
  have hsp := fun r => step_spoken h hi.request (r := r)
  have hsub := hi.submit
  cases step_cases h with
  | stays a transport => exact hsub.mono (fun _ _ hx => hx) rfl hsp
  | started request oracle answer st hst hnew => exact hsub.mono (fun _ _ hx => hx) rfl hsp
  | completed request result st hst => exact hsub.mono (fun _ _ hx => hx) rfl hsp
  | moved a thread phase htask hphase => exact hsub.mono (fun _ _ hx => (task_update_none hphase hx).2) rfl hsp
  | refused thread request st hst hrefused => exact hsub.mono (fun _ _ hx => (task_update_none rfl hx).2) rfl hsp
  | submitted thread answer request plan taskShards phase htask hphase =>
    have hown : (c.handlers thread).task = some (request, plan, taskShards) := by
      rw [htask]
      rfl
    refine ⟨fun t t' r x x' hx hx' => ?_, fun t r x hx => ?_, ?_, fun t r x hx => ?_, fun r hr => ?_⟩
    · exact hsub.unique t t' r x x' (task_update_none hphase hx).2 (task_update_none hphase hx').2
    · obtain ⟨hne, hx⟩ := task_update_none hphase hx
      show r ∉ request :: c.submits.map Prod.fst
      rw [List.mem_cons, not_or]
      refine ⟨fun hr => hne ?_, hsub.fresh t r x hx⟩
      subst hr
      exact hsub.unique t thread r x _ hx hown
    · exact List.nodup_cons.2 ⟨hsub.fresh thread request _ hown, hsub.nodup⟩
    · exact hsp r (hsub.announced t r x (task_update_none hphase hx).2)
    · rcases List.mem_cons.1 hr with rfl | hr
      · exact hsp r (hsub.announced thread r _ hown)
      · exact hsp r (hsub.made r hr)
  | arrived thread request shardId payload arrivalTime env st hidle hst =>
    have harr := onShardArrived_cases g st shardId payload arrivalTime env (hi.request request st hst).sizes
    -- a fresh task contradicts any earlier task or submission of its request
    have hnot : ∀ r x, (nextPhase request (onShardArrived g st shardId payload arrivalTime env).2).task = some (r, x) →
        ¬ ∃ st, c.requests r = some st ∧ Spoken st := by
      rintro r x hx ⟨st₀, hst₀, hsp₀⟩
      obtain ⟨rfl, hno, -⟩ := harr.task hx
      rw [hst] at hst₀
      obtain rfl := Option.some.inj hst₀
      exact hno hsp₀
    refine ⟨fun t t' r x x' hx hx' => ?_, fun t r x hx => ?_, hsub.nodup, fun t r x hx => ?_, fun r hr => ?_⟩
    · rcases task_update hx with ⟨ht, hx⟩ | ⟨ht, hx⟩ <;> rcases task_update hx' with ⟨ht', hx'⟩ | ⟨ht', hx'⟩
      · rw [ht, ht']
      · exact absurd (hsub.announced t' r x' hx') (hnot r x hx)
      · exact absurd (hsub.announced t r x hx) (hnot r x' hx')
      · exact hsub.unique t t' r x x' hx hx'
    · rcases task_update hx with ⟨-, hx⟩ | ⟨-, hx⟩
      · exact fun hr => hnot r x hx (hsub.made r hr)
      · exact hsub.fresh t r x hx
    · rcases task_update hx with ⟨-, hx⟩ | ⟨-, hx⟩
      · obtain ⟨rfl, -, hs⟩ := harr.task hx
        exact ⟨_, by simp, hs⟩
      · exact hsp r (hsub.announced t r x hx)
    · exact hsp r (hsub.made r hr)

theorem step_inv {g : BipartiteGraph} (c : Coordinator) (a : Action) (c' : Coordinator) (hi : CoordinatorInv g c)
    (h : step g c a = some c') : CoordinatorInv g c' :=
  ⟨step_requestInv h hi.request, step_submitInv h hi⟩

def FrozenAt (c c' : Coordinator) : Prop :=
  ∀ r st, c.requests r = some st → isTerminal st.snapshot.status = true →
    ∃ st', c'.requests r = some st' ∧ Frozen st st'

theorem FrozenAt.trans {c c' c'' : Coordinator} (h : FrozenAt c c') (h' : FrozenAt c' c'') : FrozenAt c c'' := by
  intro r st hst ht
  obtain ⟨st', hst', hf⟩ := h r st hst ht
  have ht' : isTerminal st'.snapshot.status = true := by
    obtain ⟨n, -, rfl⟩ := hf
    exact ht
  obtain ⟨st'', hst'', hf'⟩ := h' r st' hst' ht'
  exact ⟨st'', hst'', hf.trans hf'⟩

theorem step_frozen {g : BipartiteGraph} {c c' : Coordinator} {a : Action} (h : step g c a = some c') :
    FrozenAt c c' := by
  intro r st hst ht
  rcases step_request h r with he | ⟨hnone, -⟩ | ⟨st₀, st', hst₀, he, hmove⟩
  · exact ⟨st, he.trans hst, .refl st⟩
  · rw [hnone] at hst
    cases hst
  · rw [hst₀] at hst
    obtain rfl := Option.some.inj hst
    exact ⟨st', he, hmove.frozen ht⟩

theorem run_frozen {g : BipartiteGraph} (actions : List Action) (c c' : Coordinator)
    (h : run (step g) c actions = some c') : FrozenAt c c' :=
  run_rel (I := fun _ => True) (R := FrozenAt) (fun _ _ st hst _ => ⟨st, hst, .refl st⟩) (fun _ _ _ => FrozenAt.trans)
    (fun _ _ _ _ _ => trivial) (fun _ _ _ _ hs => step_frozen hs) actions c c' trivial h

theorem RequestInv.filled {g : BipartiteGraph} {st : RequestState} (h : RequestInv g st)
    (hn : st.snapshot.status = .naturalComplete) :
    ∀ i < g.systematicShardCount, ∃ w, st.shards[i]? = some (some w) := by
  intro i hi
  have harr := (st.tracker.isSystematicComplete_iff.1 (h.natural hn)) i (by rw [h.systematic]; exact hi)
  rw [h.agree (by rw [hn]; decide)] at harr
  obtain ⟨w, hw⟩ := Option.isSome_iff_exists.1 harr
  exact ⟨w, slotAt_eq_some.1 hw⟩

/-- **Life-cycle of a request**, whatever the executor, the oracle and the threads do: `Submit` is called at most once
for it, it is never both submitted and rejected, once terminal only its late arrivals grow, and it completes naturally
only with all its systematic slots filled. -/
theorem request_lifecycle (g : BipartiteGraph) (actions : List Action) (c : Coordinator)
    (h : run (step g) Coordinator.init actions = some c) (r : Nat) :
    (c.submits.map Prod.fst).count r ≤ 1 ∧
      ∀ st, c.requests r = some st →
        ¬ (st.snapshot.recoverySubmitted = true ∧ st.snapshot.recoveryRejected = true) ∧
        (isTerminal st.snapshot.status = true → ∀ later c', run (step g) c later = some c' →
          ∃ st', c'.requests r = some st' ∧ Frozen st st') ∧
        (st.snapshot.status = .naturalComplete →
          ∀ i < g.systematicShardCount, ∃ w, st.shards[i]? = some (some w)) := by
  have hinv := run_inv step_inv actions _ c (CoordinatorInv.init g) h
  refine ⟨List.nodup_iff_count_le_one.1 hinv.submit.nodup r, fun st hst => ?_⟩
  have hst' := hinv.request r st hst
  exact ⟨hst'.exclusive, fun ht later c' hr => run_frozen later c c' hr r st hst ht, hst'.filled⟩

/-- The run of the integration test `RecoversThroughInjectedExecutor`: shard 0 and the parity of `makeGraph` arrive, the
recovery is submitted and completes. -/
def recoveryRun (env : ArrivalEnv) (result : RecoveryTaskResult) : List Action :=
  [.attachTransport, .startRequest 7 true none, .arrive 0 7 0 [1, 2] 10 env, .arrive 1 7 2 [2, 6] 20 env,
    .submit 1 .accepts, .complete 7 result, .recheck 1]

theorem request_lifecycle_recoveryRun : ∃ c,
    run (step makeGraph) Coordinator.init (recoveryRun ⟨none, 1, some 5, .ok 100⟩
      ⟨true, [some [1, 2], some [3, 4], some [2, 6]], .zero, ""⟩) = some c ∧
    (c.submits.map Prod.fst).count 7 ≤ 1 ∧
      ∀ st, c.requests 7 = some st →
        ¬ (st.snapshot.recoverySubmitted = true ∧ st.snapshot.recoveryRejected = true) ∧
        (isTerminal st.snapshot.status = true → ∀ later c', run (step makeGraph) c later = some c' →
          ∃ st', c'.requests 7 = some st' ∧ Frozen st st') ∧
        (st.snapshot.status = .naturalComplete → ∀ i < 2, ∃ w, st.shards[i]? = some (some w)) := by
  have hrun : (run (step makeGraph) Coordinator.init (recoveryRun ⟨none, 1, some 5, .ok 100⟩
      ⟨true, [some [1, 2], some [3, 4], some [2, 6]], .zero, ""⟩)).isSome = true := by decide +kernel
  obtain ⟨c, hc⟩ := Option.isSome_iff_exists.1 hrun
  exact ⟨c, hc, request_lifecycle makeGraph _ c hc 7⟩

end CodedLLM
