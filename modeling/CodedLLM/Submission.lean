import CodedLLM.Serving
/-!
# Submission — the submitted flag and the executor's tasks

`recovery_submitted` is set under the lock, before the unlocked `Submit`.  Here the executor is any: its `Submit`
accepts, refuses or throws, and it calls the completion of an accepted task at most once, with any result.  A pending
request whose flag is set then has a handler that still attends to it (`submitting`, `refused`) or a task the executor
has not answered, unless a `Submit` has thrown: `OnShardArrived` rolls the flag back after a refusal, and not after an
exception.
-/
namespace CodedLLM

open Runs

/-- `undelivered` are the accepted tasks whose completion has not been called. -/
structure Submission where
  coordinator : Coordinator
  undelivered : List SubmittedTask

def Submission.init : Submission := ⟨.init, []⟩

inductive SubmissionAction where
  /-- any section or executor call of the coordinator but a completion -/
  | coordinator (action : Action)
  /-- the executor calls the completion of an accepted task -/
  | deliver (task : SubmittedTask) (result : RecoveryTaskResult)

def Action.isComplete : Action → Bool
  | .complete _ _ => true
  | _ => false

def Submission.step (g : BipartiteGraph) (s : Submission) : SubmissionAction → Option Submission
  | .coordinator a =>
    if a.isComplete then none
    else (CodedLLM.step g s.coordinator a).map (fun c => ⟨c, acceptedTask s.coordinator a ++ s.undelivered⟩)
  | .deliver task result =>
    if task ∈ s.undelivered then
      (CodedLLM.step g s.coordinator (.complete task.1 result)).map (fun c => ⟨c, s.undelivered.erase task⟩)
    else none

/-- The request whose recovery a handler has decided, from the decision to its return. -/
def HandlerPhase.deciding : HandlerPhase → Option Nat
  | .submitting request _ _ => some request
  | .accepted request => some request
  | .refused request => some request
  | _ => none

/-- **No request is stranded**: a pending request that is marked as submitted, and whose deciding handler has
returned, has a task that the executor accepted and has not answered. -/
def NotStranded (s : Submission) : Prop :=
  ∀ r st, s.coordinator.requests r = some st → st.snapshot.status = .pending → st.snapshot.recoverySubmitted = true →
    (∀ t, (s.coordinator.handlers t).deciding ≠ some r) → ∃ task ∈ s.undelivered, task.1 = r

/-- The condition on one step: a `Submit` that throws does so for a request that is no longer pending. -/
def ThrowsLate (s : Submission) : SubmissionAction → Prop
  | .coordinator (.submit thread (.throws _)) =>
    ∀ r plan shards, s.coordinator.handlers thread = .submitting r plan shards →
      ∀ st, s.coordinator.requests r = some st → st.snapshot.status ≠ .pending
  | _ => True

/-! ## The handlers that decide -/

theorem Arrival.submitted {g : BipartiteGraph} {st st' : RequestState} {shardId : Nat} {payload : WordShard}
    {arrivalTime : Int} {env : ArrivalEnv} {r : Except Exn NextStep}
    (ha : Arrival g st shardId payload arrivalTime env st' r) (hs : st.snapshot.recoverySubmitted = true) :
    st'.snapshot.recoverySubmitted = true := by
  cases ha with
  | late _ => exact hs
  | kept _ _ _ _ => exact hs
  | natural _ _ _ => exact hs
  | quiet _ _ _ _ _ _ => exact hs
  | noEstimate _ _ _ _ _ _ => exact hs
  | decided _ _ _ _ _ _ _ _ _ _ _ => rfl

theorem Arrival.decides {g : BipartiteGraph} {st st' : RequestState} {shardId : Nat} {payload : WordShard}
    {arrivalTime : Int} {env : ArrivalEnv} {r : Except Exn NextStep}
    (ha : Arrival g st shardId payload arrivalTime env st' r) {request x : Nat}
    (hx : (nextPhase request r).deciding = some x) :
    x = request ∧ ¬ Spoken st ∧ st'.snapshot.recoverySubmitted = true := by
  cases ha with
  | late _ => cases hx
  | kept _ _ _ hr =>
    rw [hr request] at hx
    cases hx
  | natural _ _ _ => cases hx
  | quiet _ _ _ _ _ hr =>
    rw [hr request] at hx
    cases hx
  | noEstimate _ _ _ _ _ _ => cases hx
  | decided _ _ _ _ hopen hnew _ _ _ _ _ => exact ⟨(Option.some.inj hx).symm, by simp [Spoken, hopen, hnew], rfl⟩

/-- **A flag set by an arrival comes with a handler that will submit.** -/
theorem Arrival.submits {g : BipartiteGraph} {st st' : RequestState} {shardId : Nat} {payload : WordShard}
    {arrivalTime : Int} {env : ArrivalEnv} {r : Except Exn NextStep}
    (ha : Arrival g st shardId payload arrivalTime env st' r) (hp : st'.snapshot.status = .pending)
    (hs : st'.snapshot.recoverySubmitted = true) (request : Nat) :
    (st.snapshot.status = .pending ∧ st.snapshot.recoverySubmitted = true) ∨
      ∃ plan shards, nextPhase request r = .submitting request plan shards := by
  cases ha with
  | late _ => exact .inl ⟨hp, hs⟩
  | kept _ _ hpend _ => exact .inl ⟨hpend, hs⟩
  | natural _ _ _ => cases hp
  | quiet _ hacc _ _ _ _ => exact .inl ⟨hacc.pending, hs⟩
  | noEstimate _ hacc _ _ _ _ => exact .inl ⟨hacc.pending, hs⟩
  | decided _ _ _ _ _ _ _ _ plan _ _ => exact .inr ⟨plan, _, rfl⟩

theorem onRecoveryComplete_submitted (st : RequestState) (result : RecoveryTaskResult) :
    (onRecoveryComplete st result).snapshot.recoverySubmitted = st.snapshot.recoverySubmitted := by
  unfold onRecoveryComplete
  split
  · rfl
  · dsimp only
    split <;> rfl

theorem onRecoveryComplete_not_pending (st : RequestState) (result : RecoveryTaskResult) :
    (onRecoveryComplete st result).snapshot.status ≠ .pending := by
  unfold onRecoveryComplete
  split
  · rename_i hterm
    simpa [isTerminal] using hterm
  · dsimp only
    split <;> simp

theorem onSubmitRefused_not_submitted (st : RequestState) (hp : (onSubmitRefused st).snapshot.status = .pending) :
    (onSubmitRefused st).snapshot.recoverySubmitted = false := by
  unfold onSubmitRefused at hp ⊢
  split
  · rename_i hterm
    rw [if_pos hterm] at hp
    rw [hp] at hterm
    cases hterm
  · rfl

/-- **The acting thread of one step**, and what its phase becomes. -/
inductive PhaseStep (g : BipartiteGraph) (c : Coordinator) (t : Nat) : Action → HandlerPhase → Prop
  | arrive (request shardId : Nat) (payload : WordShard) (arrivalTime : Int) (env : ArrivalEnv) (st : RequestState)
      (hidle : c.handlers t = .idle) (hst : c.requests request = some st) :
      PhaseStep g c t (.arrive t request shardId payload arrivalTime env)
        (nextPhase request (onShardArrived g st shardId payload arrivalTime env).2)
  | accepts (request : Nat) (plan : DecodePlan) (shards : ShardSlots)
      (h : c.handlers t = .submitting request plan shards) : PhaseStep g c t (.submit t .accepts) (.accepted request)
  | refuses (request : Nat) (plan : DecodePlan) (shards : ShardSlots)
      (h : c.handlers t = .submitting request plan shards) : PhaseStep g c t (.submit t .refuses) (.refused request)
  | throws (e : Exn) (request : Nat) (plan : DecodePlan) (shards : ShardSlots)
      (h : c.handlers t = .submitting request plan shards) : PhaseStep g c t (.submit t (.throws e)) .idle
  | rollback (request : Nat) (h : c.handlers t = .refused request) : PhaseStep g c t (.rollback t) .idle
  | settles (a : Action) (phase : HandlerPhase)
      (hfrom : (∃ r, c.handlers t = .cancelling r) ∨ ∃ r, c.handlers t = .accepted r) (hto : phase.deciding = none) :
      PhaseStep g c t a phase

theorem startRequest_handlers (g : BipartiteGraph) (c : Coordinator) (request : Nat) (oracle : Bool)
    (answer : Option Exn) : (c.startRequest g request oracle answer).state.handlers = c.handlers := by
  unfold Coordinator.startRequest
  split
  · rfl
  split
  · rfl
  cases RequestState.make g.systematicShardCount g.parityShardCount with
  | error e => rfl
  | ok st =>
    dsimp only
    split
    · rfl
    · cases answer <;> rfl

theorem phase_step {g : BipartiteGraph} {c c' : Coordinator} {a : Action} (h : step g c a = some c') (t : Nat) :
    c'.handlers t = c.handlers t ∨ PhaseStep g c t a (c'.handlers t) := by
  have hset : ∀ {thread : Nat} {phase : HandlerPhase}, (t = thread → PhaseStep g c t a phase) →
      Function.update c.handlers thread phase t = c.handlers t ∨
        PhaseStep g c t a (Function.update c.handlers thread phase t) := by
    intro thread phase hp
    by_cases ht : t = thread
    · subst ht
      rw [Function.update_self]
      exact .inr (hp rfl)
    · exact .inl (Function.update_of_ne ht ..)
  cases a with
  | attachTransport =>
    obtain rfl := Option.some.inj h
    exact .inl rfl
  | startRequest request oracle answer =>
    obtain rfl := Option.some.inj h
    exact .inl (by rw [startRequest_handlers])
  | arrive thread request shardId payload arrivalTime env =>
    simp only [step] at h
    split at h
    · obtain rfl := Option.some.inj h
      exact .inl rfl
    · rename_i st hidle hst
      obtain rfl := Option.some.inj h
      refine hset (fun ht => ?_)
      subst ht
      exact .arrive request shardId payload arrivalTime env st hidle hst
    · cases h
  | cancel thread =>
    simp only [step] at h
    split at h
    · rename_i r hr
      obtain rfl := Option.some.inj h
      exact hset (fun ht => .settles _ _ (.inl ⟨r, ht ▸ hr⟩) rfl)
    · cases h
  | submit thread answer =>
    simp only [step] at h
    split at h
    · rename_i request plan taskShards htask
      cases answer with
      | accepts =>
        obtain rfl := Option.some.inj h
        exact hset (fun ht => by subst ht; exact .accepts request plan taskShards htask)
      | refuses =>
        obtain rfl := Option.some.inj h
        exact hset (fun ht => by subst ht; exact .refuses request plan taskShards htask)
      | throws e =>
        obtain rfl := Option.some.inj h
        exact hset (fun ht => by subst ht; exact .throws e request plan taskShards htask)
    · cases h
  | recheck thread =>
    simp only [step] at h
    split at h
    · rename_i request hacc
      split at h
      · obtain rfl := Option.some.inj h
        refine hset (fun ht => .settles _ _ (.inr ⟨request, ht ▸ hacc⟩) ?_)
        split <;> rfl
      · cases h
    · cases h
  | rollback thread =>
    simp only [step] at h
    split at h
    · rename_i request href
      split at h
      · obtain rfl := Option.some.inj h
        exact hset (fun ht => by subst ht; exact .rollback request href)
      · cases h
    · cases h
  | complete request result =>
    simp only [step] at h
    split at h <;> (obtain rfl := Option.some.inj h; exact .inl rfl)

/-- **A handler decides a recovery only at its arrival**, for a request that nobody has spoken for. -/
theorem step_deciding {g : BipartiteGraph} {c c' : Coordinator} {a : Action} (h : step g c a = some c')
    (hi : CoordinatorInv g c) {t r : Nat} (hd : (c'.handlers t).deciding = some r) :
    (c.handlers t).deciding = some r ∨
      ((∃ shardId payload arrivalTime env, a = .arrive t r shardId payload arrivalTime env) ∧
        (∃ st, c.requests r = some st ∧ ¬ Spoken st) ∧
        ∃ st, c'.requests r = some st ∧ st.snapshot.recoverySubmitted = true) := by
  rcases phase_step h t with hsame | hphase
  · exact .inl (hsame ▸ hd)
  · generalize c'.handlers t = phase at hphase hd
    cases hphase with
    | arrive request shardId payload arrivalTime env st hidle hst =>
      have harr := onShardArrived_cases g st shardId payload arrivalTime env (hi.request request st hst).sizes
      obtain ⟨rfl, hno, hs⟩ := harr.decides hd
      simp only [step, hidle, hst, Option.some.injEq] at h
      exact .inr ⟨⟨shardId, payload, arrivalTime, env, rfl⟩, ⟨st, hst, hno⟩, _, by rw [← h]; simp, hs⟩
    | accepts request plan shards hs => exact .inl (by rw [hs]; exact hd)
    | refuses request plan shards hs => exact .inl (by rw [hs]; exact hd)
    | throws e request plan shards hs => cases hd
    | rollback request hs => cases hd
    | settles a phase hfrom hto =>
      rw [hto] at hd
      cases hd

/-- **The submitted flag falls only when the rollback of its own refusal runs.** -/
theorem step_submitted {g : BipartiteGraph} {c c' : Coordinator} {a : Action} (h : step g c a = some c')
    (hi : CoordinatorInv g c) {r : Nat} {st : RequestState} (hst : c.requests r = some st)
    (hs : st.snapshot.recoverySubmitted = true) :
    (∃ st', c'.requests r = some st' ∧ st'.snapshot.recoverySubmitted = true) ∨
      ∃ t, a = .rollback t ∧ c.handlers t = .refused r := by
  have hset : ∀ (request : Nat) (st₀ st' : RequestState), c.requests request = some st₀ →
      (st₀.snapshot.recoverySubmitted = true → st'.snapshot.recoverySubmitted = true) →
      ∃ st'', Function.update c.requests request (some st') r = some st'' ∧ st''.snapshot.recoverySubmitted = true := by
    intro request st₀ st' hst₀ hkeep
    by_cases hr : r = request
    · subst hr
      rw [hst] at hst₀
      obtain rfl := Option.some.inj hst₀
      exact ⟨st', Function.update_self .., hkeep hs⟩
    · exact ⟨st, by rw [Function.update_of_ne hr, hst], hs⟩
  cases step_cases h with
  | stays a transport => exact .inl ⟨st, hst, hs⟩
  | started request oracle answer st₀ hst₀ hnew =>
    have hr : r ≠ request := by
      rintro rfl
      rw [hnew] at hst
      cases hst
    exact .inl ⟨st, by simp [hr, hst], hs⟩
  | arrived thread request shardId payload arrivalTime env st₀ hidle hst₀ =>
    have harr := onShardArrived_cases g st₀ shardId payload arrivalTime env (hi.request request st₀ hst₀).sizes
    exact .inl (hset request st₀ _ hst₀ harr.submitted)
  | submitted thread answer request plan taskShards phase htask hphase => exact .inl ⟨st, hst, hs⟩
  | moved a thread phase htask hphase => exact .inl ⟨st, hst, hs⟩
  | refused thread request st₀ hst₀ hrefused =>
    by_cases hr : r = request
    · exact .inr ⟨thread, rfl, hr ▸ hrefused⟩
    · exact .inl ⟨st, by simp [hr, hst], hs⟩
  | completed request result st₀ hst₀ =>
    exact .inl (hset request st₀ _ hst₀ (fun h => (onRecoveryComplete_submitted st₀ result).trans h))

/-- **What every run keeps**: at most one handler decides for a request, whose flag is then set, and every task that
is still to be answered was submitted. -/
structure SubmissionInv (g : BipartiteGraph) (s : Submission) : Prop where
  lifecycle : CoordinatorInv g s.coordinator
  unique : ∀ t t' r, (s.coordinator.handlers t).deciding = some r → (s.coordinator.handlers t').deciding = some r →
    t = t'
  flagged : ∀ t r, (s.coordinator.handlers t).deciding = some r →
    ∃ st, s.coordinator.requests r = some st ∧ st.snapshot.recoverySubmitted = true
  undelivered : ∀ task ∈ s.undelivered, task ∈ s.coordinator.submits

theorem SubmissionInv.init (g : BipartiteGraph) : SubmissionInv g Submission.init := by
  refine ⟨.init g, fun _ _ _ h => ?_, fun _ _ h => ?_, fun _ h => ?_⟩ <;> cases h

/-- A step of the whole system is one of the coordinator; the tasks to answer grow by the accepted one, or lose the
answered one. -/
inductive Submits (g : BipartiteGraph) (s : Submission) : SubmissionAction → Action → Submission → Prop
  | coordinator (a : Action) (c : Coordinator) (ha : a.isComplete = false)
      (hs : CodedLLM.step g s.coordinator a = some c) :
      Submits g s (.coordinator a) a ⟨c, acceptedTask s.coordinator a ++ s.undelivered⟩
  | deliver (task : SubmittedTask) (result : RecoveryTaskResult) (c : Coordinator) (ht : task ∈ s.undelivered)
      (hs : CodedLLM.step g s.coordinator (.complete task.1 result) = some c) :
      Submits g s (.deliver task result) (.complete task.1 result) ⟨c, s.undelivered.erase task⟩

theorem Submission.step_cases {g : BipartiteGraph} {s s' : Submission} {a : SubmissionAction}
    (h : Submission.step g s a = some s') : ∃ b, Submits g s a b s' := by
  cases a with
  | coordinator a =>
    simp only [Submission.step] at h
    split at h
    · cases h
    · rename_i ha
      obtain ⟨c, hs, rfl⟩ := Option.map_eq_some_iff.1 h
      exact ⟨a, .coordinator a c (by simpa using ha) hs⟩
  | deliver task result =>
    simp only [Submission.step] at h
    split at h
    · rename_i ht
      obtain ⟨c, hs, rfl⟩ := Option.map_eq_some_iff.1 h
      exact ⟨_, .deliver task result c ht hs⟩
    · cases h

theorem Submits.step {g : BipartiteGraph} {s s' : Submission} {a : SubmissionAction} {b : Action}
    (h : Submits g s a b s') : CodedLLM.step g s.coordinator b = some s'.coordinator := by
  cases h with
  | coordinator a c ha hs => exact hs
  | deliver task result c ht hs => exact hs

theorem Submits.undelivered {g : BipartiteGraph} {s s' : Submission} {a : SubmissionAction} {b : Action}
    (h : Submits g s a b s') : ∀ task ∈ s'.undelivered, task ∈ s.undelivered ∨ task ∈ acceptedTask s.coordinator b := by
  intro task ht
  cases h with
  | coordinator a c ha hs => exact (List.mem_append.1 ht).symm
  | deliver task' result c ht' hs => exact .inl (List.mem_of_mem_erase ht)

theorem step_decisions {g : BipartiteGraph} {c c' : Coordinator} {a : Action} (h : CodedLLM.step g c a = some c')
    (hi : CoordinatorInv g c)
    (hu : ∀ t t' r, (c.handlers t).deciding = some r → (c.handlers t').deciding = some r → t = t')
    (hf : ∀ t r, (c.handlers t).deciding = some r →
      ∃ st, c.requests r = some st ∧ st.snapshot.recoverySubmitted = true) :
    (∀ t t' r, (c'.handlers t).deciding = some r → (c'.handlers t').deciding = some r → t = t') ∧
      ∀ t r, (c'.handlers t).deciding = some r →
        ∃ st, c'.requests r = some st ∧ st.snapshot.recoverySubmitted = true := by
  -- a fresh decision is for a request nobody has spoken for, so no other handler decides for it
  have hfresh : ∀ t r st, (c.handlers t).deciding = some r → c.requests r = some st → Spoken st := by
    intro t r st hd hst
    obtain ⟨st', hst', hs⟩ := hf t r hd
    rw [hst] at hst'
    exact .inl (Option.some.inj hst' ▸ hs)
  refine ⟨fun t t' r hd hd' => ?_, fun t r hd => ?_⟩
  · rcases step_deciding h hi hd with hd | ⟨⟨_, _, _, _, ha⟩, ⟨st, hst, hno⟩, -⟩ <;>
      rcases step_deciding h hi hd' with hd' | ⟨⟨_, _, _, _, ha'⟩, ⟨st', hst', hno'⟩, -⟩
    · exact hu t t' r hd hd'
    · exact absurd (hfresh t r st' hd hst') hno'
    · exact absurd (hfresh t' r st hd' hst) hno
    · rw [ha] at ha'
      exact (Action.arrive.inj ha').1
  · rcases step_deciding h hi hd with hold | ⟨-, -, hnew⟩
    · obtain ⟨st, hst, hs⟩ := hf t r hold
      rcases step_submitted h hi hst hs with hk | ⟨t', rfl, href⟩
      · exact hk
      · -- the handler that rolls back is the one that decided, and it has returned
        have ht : t = t' := hu t t' r hold (by rw [href]; rfl)
        subst ht
        simp only [CodedLLM.step, href, hst, Option.some.injEq] at h
        rw [← h] at hd
        simp [HandlerPhase.deciding] at hd
    · exact hnew

theorem Submission.step_inv {g : BipartiteGraph} (s : Submission) (a : SubmissionAction) (s' : Submission)
    (hi : SubmissionInv g s) (h : Submission.step g s a = some s') : SubmissionInv g s' := by
  obtain ⟨b, hb⟩ := Submission.step_cases h
  obtain ⟨hu, hf⟩ := step_decisions hb.step hi.lifecycle hi.unique hi.flagged
  refine ⟨CodedLLM.step_inv _ _ _ hi.lifecycle hb.step, hu, hf, fun task ht => ?_⟩
  rcases hb.undelivered task ht with ht | ht
  · exact submits_mono hb.step (hi.undelivered task ht)
  · exact acceptedTask_subset hb.step ht

/-! ## Attended requests -/

/-- The request a handler has marked and still has to submit, or to roll back. -/
def HandlerPhase.attending : HandlerPhase → Option Nat
  | .submitting request _ _ => some request
  | .refused request => some request
  | _ => none

def Awaits (c : Coordinator) (r : Nat) : Prop :=
  ∃ st, c.requests r = some st ∧ st.snapshot.status = .pending ∧ st.snapshot.recoverySubmitted = true

/-- **Someone takes care of the request**: a handler that attends to it, or a task that is still to be answered. -/
def Held (s : Submission) (r : Nat) : Prop :=
  (∃ t, (s.coordinator.handlers t).attending = some r) ∨ ∃ task ∈ s.undelivered, task.1 = r

theorem step_awaits {g : BipartiteGraph} {c c' : Coordinator} {a : Action} (h : CodedLLM.step g c a = some c')
    (hi : CoordinatorInv g c) {r : Nat} (hw : Awaits c' r) :
    Awaits c r ∨ ∃ t, (c'.handlers t).attending = some r := by
  obtain ⟨st, hst, hp, hs⟩ := hw
  cases step_cases h with
  | stays a transport => exact .inl ⟨st, hst, hp, hs⟩
  | started request oracle answer st₀ hst₀ hnew =>
    by_cases hr : r = request
    · subst hr
      obtain rfl : st₀ = st := by simpa using hst
      have hmake := hst₀
      unfold RequestState.make at hmake
      split at hmake
      · cases hmake
      · obtain rfl := Except.ok.inj hmake
        cases hs
    · exact .inl ⟨st, by simpa [hr] using hst, hp, hs⟩
  | arrived thread request shardId payload arrivalTime env st₀ hidle hst₀ =>
    by_cases hr : r = request
    · subst hr
      obtain rfl : (onShardArrived g st₀ shardId payload arrivalTime env).1 = st := by simpa using hst
      have harr := onShardArrived_cases g st₀ shardId payload arrivalTime env (hi.request r st₀ hst₀).sizes
      rcases harr.submits hp hs r with ⟨hp₀, hs₀⟩ | ⟨plan, shards, hphase⟩
      · exact .inl ⟨st₀, hst₀, hp₀, hs₀⟩
      · exact .inr ⟨thread, by simp [hphase, HandlerPhase.attending]⟩
    · exact .inl ⟨st, by simpa [hr] using hst, hp, hs⟩
  | submitted thread answer request plan taskShards phase htask hphase => exact .inl ⟨st, hst, hp, hs⟩
  | moved a thread phase htask hphase => exact .inl ⟨st, hst, hp, hs⟩
  | refused thread request st₀ hst₀ hrefused =>
    by_cases hr : r = request
    · subst hr
      obtain rfl : onSubmitRefused st₀ = st := by simpa using hst
      rw [onSubmitRefused_not_submitted st₀ hp] at hs
      cases hs
    · exact .inl ⟨st, by simpa [hr] using hst, hp, hs⟩
  | completed request result st₀ hst₀ =>
    by_cases hr : r = request
    · subst hr
      obtain rfl : onRecoveryComplete st₀ result = st := by simpa using hst
      exact absurd hp (onRecoveryComplete_not_pending st₀ result)
    · exact .inl ⟨st, by simpa [hr] using hst, hp, hs⟩

theorem rollback_not_awaits {g : BipartiteGraph} {c c' : Coordinator} {t r : Nat}
    (h : CodedLLM.step g c (.rollback t) = some c') (href : c.handlers t = .refused r) : ¬ Awaits c' r := by
  rintro ⟨st', hst', hp, hs⟩
  simp only [CodedLLM.step, href] at h
  split at h
  · rename_i st hst
    obtain rfl := Option.some.inj h
    obtain rfl : onSubmitRefused st = st' := by simpa using hst'
    rw [onSubmitRefused_not_submitted st hp] at hs
    cases hs
  · cases h

theorem complete_not_awaits {g : BipartiteGraph} {c c' : Coordinator} {r : Nat} {result : RecoveryTaskResult}
    (h : CodedLLM.step g c (.complete r result) = some c') : ¬ Awaits c' r := by
  rintro ⟨st', hst', hp, -⟩
  cases hst : c.requests r with
  | none =>
    simp only [CodedLLM.step, hst, Option.some.injEq] at h
    rw [← h, hst] at hst'
    cases hst'
  | some st =>
    rw [step_complete hst h, Function.update_self] at hst'
    obtain rfl := Option.some.inj hst'
    exact onRecoveryComplete_not_pending st result hp

theorem step_attending {g : BipartiteGraph} {c c' : Coordinator} {a : Action} (h : CodedLLM.step g c a = some c')
    {t r : Nat} (hat : (c.handlers t).attending = some r) :
    (c'.handlers t).attending = some r ∨
      (∃ plan shards, c.handlers t = .submitting r plan shards ∧
      (a = .submit t .accepts ∨ ∃ e, a = .submit t (.throws e))) ∨
      (a = .rollback t ∧ c.handlers t = .refused r) := by
  rcases phase_step h t with hsame | hphase
  · exact .inl (hsame ▸ hat)
  · generalize c'.handlers t = phase at hphase
    cases hphase with
    | arrive request shardId payload arrivalTime env st hidle hst =>
      rw [hidle] at hat
      cases hat
    | accepts request plan shards hs =>
      rw [hs] at hat
      obtain rfl := Option.some.inj hat
      exact .inr (.inl ⟨plan, shards, hs, .inl rfl⟩)
    | refuses request plan shards hs =>
      rw [hs] at hat
      exact .inl hat
    | throws e request plan shards hs =>
      rw [hs] at hat
      obtain rfl := Option.some.inj hat
      exact .inr (.inl ⟨plan, shards, hs, .inr ⟨e, rfl⟩⟩)
    | rollback request hs =>
      rw [hs] at hat
      obtain rfl := Option.some.inj hat
      exact .inr (.inr ⟨rfl, hs⟩)
    | settles a phase hfrom hto =>
      rcases hfrom with ⟨q, hq⟩ | ⟨q, hq⟩ <;> rw [hq] at hat <;> cases hat

/-- **A step that meets the condition leaves no waiting request alone.** -/
theorem step_held {g : BipartiteGraph} {s s' : Submission} {a : SubmissionAction} (hi : SubmissionInv g s)
    (hheld : ∀ r, Awaits s.coordinator r → Held s r) (hlate : ThrowsLate s a) (h : Submission.step g s a = some s') :
    ∀ r, Awaits s'.coordinator r → Held s' r := by
  intro r hw
  obtain ⟨b, hb⟩ := Submission.step_cases h
  rcases step_awaits hb.step hi.lifecycle hw with hold | hat
  swap
  · exact .inl hat
  rcases hheld r hold with ⟨t, hat⟩ | ⟨task, ht, rfl⟩
  · rcases step_attending hb.step hat with hat' | ⟨plan, shards, hsub, rfl | ⟨e, rfl⟩⟩ | ⟨rfl, href⟩
    · exact .inl ⟨t, hat'⟩
    · -- the accepted task is now the executor's
      cases hb with
      | coordinator a c ha hs =>
        refine .inr ⟨(r, plan, shards), List.mem_append_left _ ?_, rfl⟩
        simp [acceptedTask, hsub, HandlerPhase.task]
    · cases hb with
      | coordinator a c ha hs =>
        obtain ⟨st, hst, hp, -⟩ := hold
        exact absurd hp (hlate r plan shards hsub st hst)
    · exact absurd hw (rollback_not_awaits hb.step href)
  · cases hb with
    | coordinator a c ha hs => exact .inr ⟨task, List.mem_append_right _ ht, rfl⟩
    | deliver task' result c ht' hs =>
      by_cases hr : task.1 = task'.1
      · rw [hr] at hw
        exact absurd hw (complete_not_awaits hs)
      · exact .inr ⟨task, (List.mem_erase_of_ne (fun he => hr (by rw [he]))).2 ht, rfl⟩

theorem notStranded_of_held {s : Submission} (h : ∀ r, Awaits s.coordinator r → Held s r) : NotStranded s := by
  intro r st hst hp hs hret
  rcases h r ⟨st, hst, hp, hs⟩ with ⟨t, hat⟩ | htask
  · refine absurd ?_ (hret t)
    cases hphase : s.coordinator.handlers t <;> rw [hphase] at hat
    case submitting => exact hat
    case refused => exact hat
    all_goals cases hat
  · exact htask

/-- **A `Submit` that throws for a pending request strands it.** -/
theorem stranded_of_throw {g : BipartiteGraph} {s s' : Submission} {a : SubmissionAction} (hi : SubmissionInv g s)
    (h : Submission.step g s a = some s') (hn : NotStranded s') : ThrowsLate s a := by
  unfold ThrowsLate
  split
  swap
  · trivial
  rename_i thread e
  intro r plan shards hsub st hst hp
  have hdec : (s.coordinator.handlers thread).deciding = some r := by rw [hsub]; rfl
  obtain ⟨st', hst', hs⟩ := hi.flagged thread r hdec
  rw [hst] at hst'
  obtain rfl := Option.some.inj hst'
  simp only [Submission.step, Action.isComplete, CodedLLM.step, hsub, Bool.false_eq_true, if_false, Option.map_some,
    Option.some.injEq] at h
  subst h
  -- nobody else decides for the request, and it was never submitted before
  obtain ⟨task, ht, rfl⟩ := hn r st hst hp hs (fun t hd => by
    by_cases hth : t = thread
    · subst hth
      simp [HandlerPhase.deciding] at hd
    · simp only [Coordinator.setHandler_handlers, Function.update_of_ne hth] at hd
      exact hth (hi.unique t thread r hd hdec))
  have hfresh := hi.lifecycle.submit.fresh thread task.1 (plan, shards) (by rw [hsub]; rfl)
  exact hfresh (List.mem_map.2 ⟨task, hi.undelivered task ht, rfl⟩)

/-- **Requests are never stranded exactly in the runs whose throwing `Submit`s come too late to matter**: in every
state of the run a pending request marked as submitted, whose handler has returned, has an accepted task that is not
yet answered, if and only if no `Submit` throws while its request is still pending. -/
theorem stranded_iff (g : BipartiteGraph) (actions : List SubmissionAction) (s : Submission)
    (h : run (Submission.step g) Submission.init actions = some s) :
    (∀ pre post, actions = pre ++ post → ∀ u, run (Submission.step g) Submission.init pre = some u → NotStranded u) ↔
      Along (Submission.step g) ThrowsLate Submission.init actions := by
  have hreach := fun as u hu => run_inv Submission.step_inv as _ u (SubmissionInv.init g) hu
  constructor
  · intro hall
    refine (along_iff actions Submission.init).2 (fun pre a post he u hu => ?_)
    rw [he, run_append] at h
    obtain ⟨u₀, hu₀, hr⟩ := h
    rw [hu] at hu₀
    obtain rfl := Option.some.inj hu₀
    obtain ⟨u', hs, -⟩ := (run_cons u a post s).1 hr
    refine stranded_of_throw (hreach pre u hu) hs (hall (pre ++ [a]) post (by rw [he]; simp) u' ?_)
    exact (run_append pre [a] _ u').2 ⟨u, hu, (run_cons u a [] u').2 ⟨u', hs, rfl⟩⟩
  · intro hP pre post he u hu
    have hpre : Along (Submission.step g) ThrowsLate Submission.init pre := by
      refine (along_iff pre _).2 (fun pre' a post' hs v hv => ?_)
      exact (along_iff actions _).1 hP pre' a (post' ++ post) (by rw [he, hs]; simp) v hv
    have hboth : SubmissionInv g u ∧ ∀ r, Awaits u.coordinator r → Held u r := by
      refine run_inv_along (I := fun v => SubmissionInv g v ∧ ∀ r, Awaits v.coordinator r → Held v r) (P := ThrowsLate)
        (fun v a v' hv hPa hs => ?_) pre Submission.init u ⟨.init g, fun _ ⟨_, hst, _⟩ => by cases hst⟩ hpre hu
      exact ⟨Submission.step_inv v a v' hv.1 hs, step_held hv.1 hv.2 hPa hs⟩
    exact notStranded_of_held hboth.2

/-- Shard 0 and the parity of `makeGraph` arrive; the handler of the parity will submit the recovery of shard 1. -/
def decideRun : List SubmissionAction :=
  [.coordinator .attachTransport, .coordinator (.startRequest 7 true none),
    .coordinator (.arrive 0 7 0 [1, 2] 10 ⟨none, 1, some 5, .ok 100⟩),
    .coordinator (.arrive 1 7 2 [2, 6] 20 ⟨none, 1, some 5, .ok 100⟩)]

theorem stranded_iff_decideRun : ∃ s,
    run (Submission.step makeGraph) Submission.init (decideRun ++ [.coordinator (.submit 1 .accepts)]) = some s ∧
    ((∀ pre post, decideRun ++ [.coordinator (.submit 1 .accepts)] = pre ++ post →
        ∀ u, run (Submission.step makeGraph) Submission.init pre = some u → NotStranded u) ↔
      Along (Submission.step makeGraph) ThrowsLate Submission.init
        (decideRun ++ [.coordinator (.submit 1 .accepts)])) := by
  have hrun : (run (Submission.step makeGraph) Submission.init
      (decideRun ++ [.coordinator (.submit 1 .accepts)])).isSome = true := by decide +kernel
  obtain ⟨s, hs⟩ := Option.isSome_iff_exists.1 hrun
  exact ⟨s, hs, stranded_iff makeGraph _ s hs⟩

/-- **A throwing `Submit` strands its request**, which is pending when the handler calls it. -/
theorem submit_throw_strands : ∃ s,
    run (Submission.step makeGraph) Submission.init
      (decideRun ++ [.coordinator (.submit 1 (.throws (.runtimeError "CUDA error")))]) = some s ∧ ¬ NotStranded s := by
  have hrun : (run (Submission.step makeGraph) Submission.init decideRun).any (fun u =>
      (u.coordinator.handlers 1).task = some (7, ⟨[⟨1, [2, 0]⟩], [[]], true⟩, [some [1, 2], none, some [2, 6]]) &&
        (u.coordinator.requests 7).any (fun st => st.snapshot.status = .pending)) = true := by decide +kernel
  obtain ⟨u, hu, hb⟩ := (Option.any_eq_true _ _).1 hrun
  rw [Bool.and_eq_true, decide_eq_true_eq] at hb
  obtain ⟨st, hst, hp⟩ := (Option.any_eq_true _ _).1 hb.2
  have hsub :
      u.coordinator.handlers 1 = .submitting 7 ⟨[⟨1, [2, 0]⟩], [[]], true⟩ [some [1, 2], none, some [2, 6]] := by
    have htask := hb.1
    cases hphase : u.coordinator.handlers 1 <;> rw [hphase] at htask
    case submitting => simpa [HandlerPhase.task] using htask
    all_goals cases htask
  have henabled : (Submission.step makeGraph u
      (.coordinator (.submit 1 (.throws (.runtimeError "CUDA error"))))).isSome = true := by
    simp [Submission.step, Action.isComplete, CodedLLM.step, hsub]
  obtain ⟨s, hstep⟩ := Option.isSome_iff_exists.1 henabled
  refine ⟨s, (run_append decideRun _ _ _).2 ⟨u, hu, (run_cons _ _ [] _).2 ⟨_, hstep, rfl⟩⟩, fun hn => ?_⟩
  have hinv := run_inv Submission.step_inv decideRun _ u (SubmissionInv.init makeGraph) hu
  exact stranded_of_throw hinv hstep hn 7 _ _ hsub st hst (of_decide_eq_true hp)

end CodedLLM
