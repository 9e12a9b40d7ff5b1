import CodedLLM.Runtime
/-!
# ArrivalSections — the locked section of an arrival, cut where it calls the executor

`OnShardArrived` holds the coordinator's lock from its first check to its decision, but `StageShard` takes only the
executor's, so the steps that need no coordinator lock (`Submit`, `Cancel`, the workers) can fall between the staging
of a shard and the store to its slot.  Here the section has two steps, and a healthy recovery still fails only through
a stale copy (`healthy_recovery`).  The store commutes with what can fall in between, so with the lock free both models
are in the same states (`sections_serialise`).
-/
namespace CodedLLM

open Runs

/-- A locked section that has called `StageShard`, or has come past it. -/
structure OpenSection where
  thread : Nat
  request : Nat
  shardId : Nat
  payload : WordShard
  arrivalTime : Int
  staged : Option Exn

/-- The rest of the section, as the coordinator's own step. -/
def OpenSection.arrival (o : OpenSection) (env : ArrivalEnv) : CodedLLM.Action :=
  .arrive o.thread o.request o.shardId o.payload o.arrivalTime { env with staged := o.staged }

structure LockedRuntime extends Runtime where
  openSection : Option OpenSection

/-- The steps that take the coordinator's lock. -/
def Runtime.Action.locks : Runtime.Action → Bool
  | .submit .. | .cancel _ | .take _ | .execute .. | .check _ | .erase _ => false
  | .attachTransport | .startRequest .. | .arrive .. | .recheck _ | .rollback _ | .deliver _ => true

namespace LockedRuntime

inductive Action where
  /-- the locked section of `OnShardArrived` up to the return of `StageShard` -/
  | enter (dev : Device) (thread request shardId : Nat) (payload : WordShard) (arrivalTime : Int)
  /-- the rest of it: the slot, the tracker, the plan and the decision -/
  | leave (env : ArrivalEnv)
  /-- any step but an arrival -/
  | other (a : Runtime.Action)

def step (g : BipartiteGraph) (s : LockedRuntime) : Action → Option LockedRuntime
  | .enter dev thread request shardId payload arrivalTime =>
    match s.openSection, s.coordinator.handlers thread with
    | none, .idle =>
      let r := s.stageArrival dev request shardId payload
      some ⟨⟨s.coordinator, r.1⟩, some ⟨thread, request, shardId, payload, arrivalTime, r.2⟩⟩
    | _, _ => none
  | .leave env =>
    match s.openSection with
    | none   => none
    | some o => (CodedLLM.step g s.coordinator (o.arrival env)).map (fun c => ⟨⟨c, s.executor⟩, none⟩)
  | .other (.arrive ..) => none
  | .other a =>
    if a.locks && s.openSection.isSome then none
    else (Runtime.step g s.toRuntime a).map (fun t => ⟨t, s.openSection⟩)

def Ordinary {g : BipartiteGraph} (data : Nat → Encoded g) : Action → Prop
  | .enter dev _ request shardId payload _ => (data request).payload shardId = some payload ∧ dev.Healthy
  | .leave _ => True
  | .other a => Runtime.Ordinary data a

/-- The slots of a request, with the shard that an open section has staged and not stored yet. -/
def upcomingSlots (s : LockedRuntime) (request : Nat) : Option ShardSlots :=
  (s.coordinator.requests request).map (fun st =>
    match s.openSection with
    | none   => st.shards
    | some o =>
      if o.request = request ∧ o.staged = none ∧ Runtime.ReachesStageShard st o.shardId o.payload then
        st.shards.set o.shardId (some o.payload)
      else st.shards)

/-- **The submitted copy is current**: at a call of `Submit` the executor has no staged context for the request, or the
slots of the request, upcoming ones included, are those that were copied, or the executor is full and refuses. -/
def copyCurrent (s : LockedRuntime) : Action → Bool
  | .other (.submit thread _) =>
    match s.coordinator.handlers thread with
    | .submitting request _ taskShards =>
      (s.executor.stagedContexts request).isNone || decide (s.upcomingSlots request = some taskShards) ||
        decide (s.executor.capacity ≤ s.executor.outstanding)
    | _ => true
  | _ => true

/-! ## The store commutes with the steps in between -/

section Commute

variable {g : BipartiteGraph}

/-- What the rest of a section makes of the coordinator. -/
def stored (g : BipartiteGraph) (o : OpenSection) (env : ArrivalEnv) (c : Coordinator) : Coordinator :=
  match c.requests o.request with
  | none    => c
  | some st =>
    let r := onShardArrived g st o.shardId o.payload o.arrivalTime { env with staged := o.staged }
    (c.setRequest o.request r.1).setHandler o.thread (nextPhase o.request r.2)

theorem arrival_eq_some {o : OpenSection} {env : ArrivalEnv} {c c' : Coordinator} :
    CodedLLM.step g c (o.arrival env) = some c' ↔ c.handlers o.thread = .idle ∧ c' = stored g o env c := by
  simp only [OpenSection.arrival, CodedLLM.step, stored]
  cases hh : c.handlers o.thread with
  | idle =>
    cases c.requests o.request with
    | none => simp [eq_comm]
    | some st => simp [eq_comm]
  | cancelling request => simp
  | submitting request plan taskShards => simp
  | accepted request => simp
  | refused request => simp

@[simp] theorem stored_submits (o : OpenSection) (env : ArrivalEnv) (c : Coordinator) :
    (stored g o env c).submits = c.submits := by
  unfold stored
  split
  · rfl
  · rfl

theorem stored_handlers {o : OpenSection} {thread : Nat} (h : thread ≠ o.thread) (env : ArrivalEnv) (c : Coordinator) :
    (stored g o env c).handlers thread = c.handlers thread := by
  unfold stored
  split
  · rfl
  · exact Function.update_of_ne h ..

/-- What a call of `Submit` or `Cancel` by a handler changes in the coordinator: its phase, and the record of the
submitted tasks. -/
def moved (thread : Nat) (d c : Coordinator) : Coordinator :=
  { c with handlers := Function.update c.handlers thread (d.handlers thread), submits := d.submits }

theorem stored_moved {o : OpenSection} {thread : Nat} (h : thread ≠ o.thread) (env : ArrivalEnv) (c d : Coordinator) :
    stored g o env (moved thread d c) = moved thread d (stored g o env c) := by
  simp only [stored, moved]
  cases c.requests o.request with
  | none => rfl
  | some st =>
    simp only [Coordinator.setRequest, Coordinator.setHandler]
    rw [Function.update_comm h]

theorem step_moved {thread : Nat} {a : CodedLLM.Action} (ha : a = .cancel thread ∨ ∃ answer, a = .submit thread answer)
    {c d : Coordinator} (h : CodedLLM.step g c a = some d) :
    c.handlers thread ≠ .idle ∧ ∀ c₁ : Coordinator, c₁.handlers thread = c.handlers thread → c₁.submits = c.submits →
      CodedLLM.step g c₁ a = some (moved thread d c₁) := by
  rcases ha with rfl | ⟨answer, rfl⟩
  · cases hh : c.handlers thread with
    | cancelling request =>
      simp only [CodedLLM.step, hh] at h
      obtain rfl := Option.some.inj h
      refine ⟨(fun heq => by cases heq), fun c₁ hc₁ hsub => ?_⟩
      simp [CodedLLM.step, hc₁, moved, Coordinator.setHandler, ← hsub]
    | _ => simp [CodedLLM.step, hh] at h
  · cases hh : c.handlers thread with
    | submitting request plan taskShards =>
      refine ⟨(fun heq => by cases heq), fun c₁ hc₁ hsub => ?_⟩
      cases answer with
      | accepts =>
        simp only [CodedLLM.step, hh] at h
        obtain rfl := Option.some.inj h
        simp [CodedLLM.step, hc₁, moved, Coordinator.setHandler, ← hsub]
      | refuses =>
        simp only [CodedLLM.step, hh] at h
        obtain rfl := Option.some.inj h
        simp [CodedLLM.step, hc₁, moved, Coordinator.setHandler, ← hsub]
      | throws e =>
        simp only [CodedLLM.step, hh] at h
        obtain rfl := Option.some.inj h
        simp [CodedLLM.step, hc₁, moved, Coordinator.setHandler, ← hsub]
    | _ => simp [CodedLLM.step, hh] at h

/-- **A step without the coordinator's lock commutes with the store**, whatever the store decides. -/
theorem step_stored {o : OpenSection} {s t : Runtime} {a : Runtime.Action} (ha : a.locks = false)
    (hidle : s.coordinator.handlers o.thread = .idle) (h : Runtime.step g s a = some t) :
    t.coordinator.handlers o.thread = .idle ∧ ∀ env,
      Runtime.step g ⟨stored g o env s.coordinator, s.executor⟩ a =
        some ⟨stored g o env t.coordinator, t.executor⟩ := by
  -- the workers do not touch the coordinator
  have hworker : ∀ b : Executor.Action, s.workerStep b = some t →
      t.coordinator.handlers o.thread = .idle ∧ ∀ env,
        Runtime.workerStep ⟨stored g o env s.coordinator, s.executor⟩ b =
          some ⟨stored g o env t.coordinator, t.executor⟩ := by
    intro b hb
    obtain ⟨e, he, rfl⟩ := Option.map_eq_some_iff.1 hb
    exact ⟨hidle, fun env => by rw [Runtime.workerStep, he]; rfl⟩
  cases a with
  | submit thread env' =>
    simp only [Runtime.step] at h
    split at h
    · rename_i request plan taskShards hh
      obtain ⟨d, hd, rfl⟩ := Option.map_eq_some_iff.1 h
      obtain ⟨hbusy, hmoves⟩ := step_moved (.inr ⟨_, rfl⟩) hd
      have hne : thread ≠ o.thread := fun heq => hbusy (heq ▸ hidle)
      have hself : d = moved thread d s.coordinator := Option.some.inj (hd.symm.trans (hmoves _ rfl rfl))
      have hkept : d.handlers o.thread = .idle := by
        rw [hself]
        exact (Function.update_of_ne hne.symm ..).trans hidle
      refine ⟨hkept, fun env => ?_⟩
      have hstored : stored g o env d = moved thread d (stored g o env s.coordinator) := by
        rw [← stored_moved hne, ← hself]
      have hthread := stored_handlers (g := g) hne env s.coordinator
      simp only [Runtime.step, hthread, hh, hmoves _ hthread (stored_submits o env _), Option.map_some,
        hstored]
    · cases h
  | cancel thread =>
    simp only [Runtime.step] at h
    split at h
    · rename_i request hh
      obtain ⟨d, hd, rfl⟩ := Option.map_eq_some_iff.1 h
      obtain ⟨hbusy, hmoves⟩ := step_moved (.inl rfl) hd
      have hne : thread ≠ o.thread := fun heq => hbusy (heq ▸ hidle)
      have hself : d = moved thread d s.coordinator := Option.some.inj (hd.symm.trans (hmoves _ rfl rfl))
      have hkept : d.handlers o.thread = .idle := by
        rw [hself]
        exact (Function.update_of_ne hne.symm ..).trans hidle
      refine ⟨hkept, fun env => ?_⟩
      have hstored : stored g o env d = moved thread d (stored g o env s.coordinator) := by
        rw [← stored_moved hne, ← hself]
      have hthread := stored_handlers (g := g) hne env s.coordinator
      simp only [Runtime.step, hthread, hh, hmoves _ hthread (stored_submits o env _), Option.map_some,
        hstored]
    · cases h
  | take worker => exact hworker _ h
  | execute worker env' => exact hworker _ h
  | check worker => exact hworker _ h
  | erase worker => exact hworker _ h
  | _ => cases ha

end Commute

/-! ## The two models -/

/-- What a step does: it opens a section, closes the open one, or is a step of the runtime that needs no lock while a
section is open. -/
inductive StepCases (g : BipartiteGraph) (s : LockedRuntime) : Action → LockedRuntime → Prop where
  | entered (dev : Device) (thread request shardId : Nat) (payload : WordShard) (arrivalTime : Int)
      (hopen : s.openSection = none) (hidle : s.coordinator.handlers thread = .idle) :
      StepCases g s (.enter dev thread request shardId payload arrivalTime)
        ⟨⟨s.coordinator, (s.stageArrival dev request shardId payload).1⟩,
          some ⟨thread, request, shardId, payload, arrivalTime, (s.stageArrival dev request shardId payload).2⟩⟩
  | left (env : ArrivalEnv) (o : OpenSection) (hopen : s.openSection = some o)
      (hidle : s.coordinator.handlers o.thread = .idle) :
      StepCases g s (.leave env) ⟨⟨stored g o env s.coordinator, s.executor⟩, none⟩
  | other (a : Runtime.Action) (t : Runtime) (hstep : Runtime.step g s.toRuntime a = some t)
      (hlocks : ∀ o, s.openSection = some o → a.locks = false) : StepCases g s (.other a) ⟨t, s.openSection⟩

theorem step_cases {g : BipartiteGraph} {s s' : LockedRuntime} {a : Action} (h : step g s a = some s') :
    StepCases g s a s' := by
  cases a with
  | enter dev thread request shardId payload arrivalTime =>
    simp only [step] at h
    split at h
    · rename_i hopen hidle
      obtain rfl := Option.some.inj h
      exact .entered dev thread request shardId payload arrivalTime hopen hidle
    · cases h
  | leave env =>
    simp only [step] at h
    split at h
    · cases h
    · rename_i o hopen
      obtain ⟨c, hc, rfl⟩ := Option.map_eq_some_iff.1 h
      obtain ⟨hidle, rfl⟩ := arrival_eq_some.1 hc
      exact .left env o hopen hidle
  | other a =>
    have hother : (if a.locks && s.openSection.isSome then none
        else (Runtime.step g s.toRuntime a).map (fun t => (⟨t, s.openSection⟩ : LockedRuntime))) = some s' := by
      cases a with
      | arrive dev thread request shardId payload arrivalTime env => cases h
      | _ => exact h
    split at hother
    · cases hother
    · rename_i hlocks
      obtain ⟨t, ht, rfl⟩ := Option.map_eq_some_iff.1 hother
      refine .other a t ht (fun o ho => ?_)
      simpa [ho] using hlocks

/-- A step of the runtime with nothing inside its section. -/
def sections : Runtime.Action → List Action
  | .arrive dev thread request shardId payload arrivalTime env =>
    [.enter dev thread request shardId payload arrivalTime, .leave env]
  | a => [.other a]

theorem run_sections {g : BipartiteGraph} {s t : Runtime} {a : Runtime.Action} (h : Runtime.step g s a = some t) :
    run (step g) ⟨s, none⟩ (sections a) = some ⟨t, none⟩ := by
  have hother : step g ⟨s, none⟩ (.other a) = some ⟨t, none⟩ → run (step g) ⟨s, none⟩ [.other a] = some ⟨t, none⟩ :=
    fun ha => (run_cons _ _ _ _).2 ⟨_, ha, rfl⟩
  cases a with
  | arrive dev thread request shardId payload arrivalTime env =>
    simp only [Runtime.step] at h
    obtain ⟨c, hc, rfl⟩ := Option.map_eq_some_iff.1 h
    have hidle : s.coordinator.handlers thread = .idle := (arrival_eq_some
      (o := ⟨thread, request, shardId, payload, arrivalTime, (s.stageArrival dev request shardId payload).2⟩)).1 hc |>.1
    simp only [sections, run, step, hidle, Option.bind_some, OpenSection.arrival, hc, Option.map_some]
  | _ => exact hother (by simp [step, h])

/-- **The sections can be closed at once**: with the lock free, this model is in the states of the one in which an
arrival is a single step. -/
theorem sections_serialise {g : BipartiteGraph} (s t : Runtime) :
    (∃ as, run (step g) ⟨s, none⟩ as = some ⟨t, none⟩) ↔ ∃ as, run (Runtime.step g) s as = some t := by
  constructor
  · rintro ⟨as, h⟩
    -- an open section is closed with what the rest of the run decides
    suffices hall : ∀ (as : List Action) (s : LockedRuntime), run (step g) s as = some ⟨t, none⟩ →
        match s.openSection with
        | none   => ∃ bs, run (Runtime.step g) s.toRuntime bs = some t
        | some o => s.coordinator.handlers o.thread = .idle → ∃ env bs,
            run (Runtime.step g) ⟨stored g o env s.coordinator, s.executor⟩ bs = some t from
      hall as ⟨s, none⟩ h
    intro as
    induction as with
    | nil =>
      intro s h
      obtain rfl := Option.some.inj h
      exact ⟨[], rfl⟩
    | cons a as ih =>
      intro s h
      obtain ⟨s', hs', hrest⟩ := (run_cons s a as _).1 h
      have hnext := ih s' hrest
      cases step_cases hs' with
      | entered dev thread request shardId payload arrivalTime hopen hidle =>
        obtain ⟨env, bs, hbs⟩ := hnext hidle
        rw [hopen]
        refine ⟨.arrive dev thread request shardId payload arrivalTime env :: bs, (run_cons _ _ _ _).2 ⟨_, ?_, hbs⟩⟩
        simp only [Runtime.step]
        rw [Option.map_eq_some_iff]
        exact ⟨_, (arrival_eq_some (o := ⟨thread, request, shardId, payload, arrivalTime, _⟩)).2 ⟨hidle, rfl⟩, rfl⟩
      | left env o hopen hidle =>
        rw [hopen]
        intro _
        exact ⟨env, hnext⟩
      | other a t' hstep hlocks =>
        cases hopen : s.openSection with
        | none =>
          rw [hopen] at hnext
          obtain ⟨bs, hbs⟩ := hnext
          exact ⟨a :: bs, (run_cons _ _ _ _).2 ⟨t', hstep, hbs⟩⟩
        | some o =>
          intro hidle
          rw [hopen] at hnext
          obtain ⟨hidle', hstored⟩ := step_stored (hlocks o hopen) hidle hstep
          obtain ⟨env, bs, hbs⟩ := hnext hidle'
          exact ⟨env, a :: bs, (run_cons _ _ _ _).2 ⟨_, hstored env, hbs⟩⟩
  · rintro ⟨as, h⟩
    induction as generalizing s with
    | nil =>
      obtain rfl := Option.some.inj h
      exact ⟨[], rfl⟩
    | cons a as ih =>
      obtain ⟨s', hs', hrest⟩ := (run_cons s a as _).1 h
      obtain ⟨bs, hbs⟩ := ih s' hrest
      exact ⟨sections a ++ bs, (run_append _ _ _ _).2 ⟨_, run_sections hs', hbs⟩⟩

/-! ## The invariant -/

/-- The invariant of the runtime; inside a section, of the runtime that its store leaves, whatever it decides. -/
def SectionInv {g : BipartiteGraph} (data : Nat → Encoded g) (s : LockedRuntime) : Prop :=
  match s.openSection with
  | none   => Runtime.Inv data s.toRuntime
  | some o => s.coordinator.handlers o.thread = .idle ∧
      ∀ env, Runtime.Inv data ⟨stored g o env s.coordinator, s.executor⟩

section Step

variable {g : BipartiteGraph} {data : Nat → Encoded g} {s s' : LockedRuntime}

theorem sectionInv_none (hopen : s.openSection = none) : SectionInv data s ↔ Runtime.Inv data s.toRuntime := by
  rw [SectionInv, hopen]

theorem sectionInv_some {o : OpenSection} (hopen : s.openSection = some o) :
    SectionInv data s ↔ s.coordinator.handlers o.thread = .idle ∧
      ∀ env, Runtime.Inv data ⟨stored g o env s.coordinator, s.executor⟩ := by
  rw [SectionInv, hopen]

theorem stored_frame {o : OpenSection} {request : Nat} (h : request ≠ o.request) (env : ArrivalEnv) (c : Coordinator) :
    (stored g o env c).requests request = c.requests request := by
  unfold stored
  split
  · rfl
  · exact Function.update_of_ne h ..

/-- **The store makes the upcoming slots the slots.** -/
theorem stored_slots {o : OpenSection} (hopen : s.openSection = some o) (env : ArrivalEnv) (request : Nat) :
    ((stored g o env s.coordinator).requests request).map RequestState.shards = s.upcomingSlots request := by
  by_cases hr : request = o.request
  · subst hr
    cases hst : s.coordinator.requests o.request with
    | none => simp only [stored, upcomingSlots, hst, Option.map_none]
    | some st =>
      have hstored : (stored g o env s.coordinator).requests o.request =
          some (onShardArrived g st o.shardId o.payload o.arrivalTime { env with staged := o.staged }).1 := by
        simp only [stored, hst]
        exact Function.update_self ..
      rw [hstored]
      simp only [upcomingSlots, hst, hopen, Option.map_some, true_and]
      congr 1
      by_cases hreach : Runtime.ReachesStageShard st o.shardId o.payload
      · cases hstaged : o.staged with
        | none =>
          rw [if_pos ⟨rfl, hreach⟩]
          exact (Runtime.onShardArrived_stored g _ _ hreach rfl).1
        | some e =>
          rw [if_neg (fun h => by cases h.1)]
          exact (Runtime.onShardArrived_thrown g _ _ hreach rfl).1
      · rw [if_neg (fun h => hreach h.2)]
        exact (Runtime.onShardArrived_unstaged g _ _ hreach).1
  · rw [stored_frame hr]
    simp only [upcomingSlots, hopen]
    congr 1
    funext st
    rw [if_neg (fun h => hr h.1.symm)]

theorem copyCurrent_closed (hopen : s.openSection = none) (a : Runtime.Action) :
    s.copyCurrent (.other a) = s.toRuntime.copyCurrent a := by
  cases a with
  | submit thread env =>
    simp only [copyCurrent, Runtime.copyCurrent]
    cases s.coordinator.handlers thread with
    | submitting request plan taskShards =>
      simp only [upcomingSlots, hopen]
      cases s.coordinator.requests request with
      | none => rfl
      | some st => simp
    | _ => rfl
  | _ => rfl

theorem copyCurrent_stored {o : OpenSection} (hopen : s.openSection = some o)
    (hidle : s.coordinator.handlers o.thread = .idle) {a : Runtime.Action} {t : Runtime}
    (hs : Runtime.step g s.toRuntime a = some t) (env : ArrivalEnv) :
    s.copyCurrent (.other a) = Runtime.copyCurrent ⟨stored g o env s.coordinator, s.executor⟩ a := by
  cases a with
  | submit thread env' =>
    have hne : thread ≠ o.thread := by
      rintro rfl
      simp only [Runtime.step, hidle] at hs
      cases hs
    simp only [copyCurrent, Runtime.copyCurrent, stored_handlers hne]
    cases s.coordinator.handlers thread with
    | submitting request plan taskShards =>
      simp only [← stored_slots (g := g) hopen env request]
      cases (stored g o env s.coordinator).requests request with
      | none => rfl
      | some st => simp
    | _ => rfl
  | _ => rfl

/-- **Every ordinary step whose submitted copy is current keeps the invariant.** -/
theorem step_inv (s : LockedRuntime) (a : Action) (s' : LockedRuntime) (h : SectionInv data s)
    (ha : Ordinary data a ∧ s.copyCurrent a = true) (hs : step g s a = some s') : SectionInv data s' := by
  cases step_cases hs with
  | entered dev thread request shardId payload arrivalTime hopen hidle =>
    refine (sectionInv_some rfl).2 ⟨hidle, fun env => ?_⟩
    refine Runtime.step_inv s.toRuntime (.arrive dev thread request shardId payload arrivalTime env) _
      ((sectionInv_none hopen).1 h) ⟨ha.1, rfl⟩ ?_
    simp only [Runtime.step]
    rw [Option.map_eq_some_iff]
    exact ⟨_, (arrival_eq_some (o := ⟨thread, request, shardId, payload, arrivalTime, _⟩)).2 ⟨hidle, rfl⟩, rfl⟩
  | left env o hopen hidle => exact (sectionInv_none rfl).2 (((sectionInv_some hopen).1 h).2 env)
  | other a t hstep hlocks =>
    cases hopen : s.openSection with
    | none =>
      rw [copyCurrent_closed hopen] at ha
      exact (sectionInv_none rfl).2 (Runtime.step_inv _ a t ((sectionInv_none hopen).1 h) ha hstep)
    | some o =>
      obtain ⟨hidle, hinv⟩ := (sectionInv_some hopen).1 h
      obtain ⟨hidle', hstored⟩ := step_stored (hlocks o hopen) hidle hstep
      refine (sectionInv_some rfl).2 ⟨hidle', fun env => ?_⟩
      rw [copyCurrent_stored hopen hidle hstep env] at ha
      exact Runtime.step_inv _ a _ (hinv env) ha (hstored env)

/-- An environment of a section, for what does not depend on its decision. -/
def silentEnv : ArrivalEnv := ⟨none, 0, none, .ok 0⟩

theorem sectionInv_executor (h : SectionInv data s) :
    ∃ c, Runtime.Inv data ⟨c, s.executor⟩ ∧ ∀ r st, s.coordinator.requests r = some st →
      st.snapshot.status = .failed → ∃ st', c.requests r = some st' ∧ st'.snapshot.status = .failed := by
  cases hopen : s.openSection with
  | none => exact ⟨s.coordinator, (sectionInv_none hopen).1 h, fun r st hst hf => ⟨st, hst, hf⟩⟩
  | some o =>
    refine ⟨_, ((sectionInv_some hopen).1 h).2 silentEnv, fun r st hst hf => ?_⟩
    by_cases hr : r = o.request
    · subst hr
      -- a failed request has ended, so the section only counts a late arrival
      have hreach : ¬ Runtime.ReachesStageShard st o.shardId o.payload := fun hreach => by
        rw [hreach.1] at hf
        cases hf
      refine ⟨_, by simp only [stored, hst]; exact Function.update_self .., ?_⟩
      rw [(Runtime.onShardArrived_unstaged g _ _ hreach).2.1, hf]
    · exact ⟨st, by rw [stored_frame hr, hst], hf⟩

theorem submit_exact (h : SectionInv data s) {thread : Nat} {env : SubmitEnv}
    (ho : Ordinary data (.other (.submit thread env))) (hs : step g s (.other (.submit thread env)) = some s') :
    (∀ task ∈ s'.executor.queue, task.context.stagedShards = task.shards) ↔
      s.copyCurrent (.other (.submit thread env)) = true := by
  -- the runtime whose invariant is at hand queues the same tasks and sees the same copy
  obtain ⟨s₁, t, hinv, hstep, hqueue, hsame⟩ : ∃ s₁ t, Runtime.Inv data s₁ ∧
      Runtime.step g s₁ (.submit thread env) = some t ∧ t.executor = s'.executor ∧
      s.copyCurrent (.other (.submit thread env)) = s₁.copyCurrent (.submit thread env) := by
    cases step_cases hs with
    | other a t hstep hlocks =>
      cases hopen : s.openSection with
      | none => exact ⟨s.toRuntime, t, (sectionInv_none hopen).1 h, hstep, rfl, copyCurrent_closed hopen _⟩
      | some o =>
        obtain ⟨hidle, hinv⟩ := (sectionInv_some hopen).1 h
        obtain ⟨-, hstored⟩ := step_stored (hlocks o hopen) hidle hstep
        exact ⟨_, _, hinv silentEnv, hstored silentEnv, rfl, copyCurrent_stored hopen hidle hstep silentEnv⟩
  rw [hsame, ← hqueue]
  constructor
  · intro hall
    by_contra hno
    obtain ⟨task, hm, hne⟩ := Runtime.submit_stale hinv hstep hno
    exact hne (hall task hm)
  · intro hc task hm
    have h' := Runtime.submit_inv hinv hstep ho hc
    rw [(h'.executor.queue task hm).1.context]
    rfl

end Step

/-- **A healthy recovery never fails while the submitted copies are current.**  In every such run the context of every
task a worker executes holds the task's own shards, the decode accepts it and no request fails; and a `Submit` leaves
only such tasks in the queue exactly if its copy is current. -/
theorem healthy_recovery {g : BipartiteGraph} (data : Nat → Encoded g) (concurrencyLimit maxQueueDepth : UInt64)
    (cost : Int) (e₀ : Executor) (as : List Action) (s : LockedRuntime)
    (hmake : Executor.make concurrencyLimit maxQueueDepth cost = .ok e₀)
    (hrun : run (step g) ⟨⟨.init, e₀⟩, none⟩ as = some s) (hord : ∀ a ∈ as, Ordinary data a)
    (hcur : Along (step g) (fun s a => s.copyCurrent a = true) ⟨⟨.init, e₀⟩, none⟩ as) :
    (∀ task, .executing task ∈ s.executor.workers → task.context.stagedShards = task.shards ∧
      ∀ dev : Device, dev.Healthy →
        ∃ result, runStagedDecodePlanCuda dev task.context task.plan task.shards = .returns result) ∧
    (∀ r st, s.coordinator.requests r = some st → st.snapshot.status ≠ .failed) ∧
    ∀ thread env s', Ordinary data (.other (.submit thread env)) →
      step g s (.other (.submit thread env)) = some s' →
      ((∀ task ∈ s'.executor.queue, task.context.stagedShards = task.shards) ↔
        s.copyCurrent (.other (.submit thread env)) = true) := by
  have h : SectionInv data s := run_inv_along step_inv as ⟨⟨.init, e₀⟩, none⟩ s
    ((sectionInv_none rfl).2 (.init data hmake)) (hcur.and as _ hord) hrun
  obtain ⟨c, hinv, hfailed⟩ := sectionInv_executor h
  refine ⟨fun task hm => ?_, fun r st hst hf => ?_, fun thread env s' ho hs => submit_exact h ho hs⟩
  · have hmatch := (hinv.executor.workers _ hm).1
    refine ⟨by rw [hmatch.context]; rfl, fun dev hdev => ?_⟩
    obtain ⟨context', shards', hret, -⟩ := hmatch.runs hdev
    exact ⟨_, hret⟩
  · obtain ⟨st', hst', hf'⟩ := hfailed r st hst hf
    exact ((Runtime.linked_some hst').1 (hinv.linked r)).1 hf'

/-- The arrival of the parity 4, which a third handler delivers. -/
def fourthArrival : List Action := sections (Runtime.arriveSeven 2 4 [6])

def decidedRun : List Action := Runtime.decidedRun.flatMap sections

def submitBy (thread : Nat) : Action := .other (Runtime.submitBy thread)

def workerRound : List Action := Runtime.workerRound.map .other

theorem ordinary_seven {as : List Action} (has : as ⊆ decidedRun ++ fourthArrival ++ [submitBy 1] ++ workerRound) :
    ∀ a ∈ as, Ordinary (fun _ => makeThreeEncoded) a := by
  have hdev : serialDevice.Healthy := fun _ => rfl
  intro a ha
  have hm := has ha
  simp only [decidedRun, fourthArrival, workerRound, Runtime.decidedRun, Runtime.workerRound, Runtime.arriveSeven,
    sections, List.flatMap_cons, List.flatMap_nil, List.map_cons, List.map_nil, List.cons_append, List.nil_append,
    List.append_nil, List.mem_cons, List.not_mem_nil, or_false] at hm
  rcases hm with rfl | rfl | rfl | rfl | rfl | rfl | rfl | rfl | rfl | rfl | rfl | rfl | rfl | rfl | rfl
  · trivial
  · trivial
  · exact ⟨by decide, hdev⟩
  · trivial
  · exact ⟨by decide, hdev⟩
  · trivial
  · exact ⟨by decide, hdev⟩
  · trivial
  · exact ⟨by decide, hdev⟩
  · trivial
  · exact ⟨hdev, fun _ => hdev⟩
  · trivial
  · exact hdev
  · trivial
  · trivial

theorem healthy_recovery_decidedRun : ∃ e₀ s, Executor.make 1 1 5 = .ok e₀ ∧
    run (step makeThreeDataTwoParityGraph) ⟨⟨.init, e₀⟩, none⟩ (decidedRun ++ [submitBy 1, .other (.take 0)]) = some s ∧
    (∀ task, .executing task ∈ s.executor.workers → task.context.stagedShards = task.shards ∧
      ∀ dev : Device, dev.Healthy →
        ∃ result, runStagedDecodePlanCuda dev task.context task.plan task.shards = .returns result) ∧
    (∀ r st, s.coordinator.requests r = some st → st.snapshot.status ≠ .failed) ∧
    ∀ thread env s', Ordinary (fun _ => makeThreeEncoded) (.other (.submit thread env)) →
      step makeThreeDataTwoParityGraph s (.other (.submit thread env)) = some s' →
      ((∀ task ∈ s'.executor.queue, task.context.stagedShards = task.shards) ↔
        s.copyCurrent (.other (.submit thread env)) = true) := by
  obtain ⟨e₀, s, hmake, hrun, hcur⟩ := Executor.exists_run (step makeThreeDataTwoParityGraph)
    (fun e₀ => ⟨⟨.init, e₀⟩, none⟩) 1 1 5 (decidedRun ++ [submitBy 1, .other (.take 0)])
    (fun e₀ _ => Along (step makeThreeDataTwoParityGraph) (fun s a => s.copyCurrent a = true) ⟨⟨.init, e₀⟩, none⟩
      (decidedRun ++ [submitBy 1, .other (.take 0)])) (by decide +kernel)
  have hord := ordinary_seven (show decidedRun ++ [submitBy 1, .other (.take 0)] ⊆ _ by
    simp [decidedRun, workerRound, Runtime.workerRound])
  exact ⟨e₀, s, hmake, hrun, healthy_recovery _ 1 1 5 e₀ _ s hmake hrun hord (of_decide_eq_true hcur)⟩

/-- **A stale copy fails**: the parity 4 arrives and is staged between the decision and its `Submit`; the decode rejects
the task and the request fails, although nothing went wrong on the device. -/
theorem stale_copy_fails : ∃ e₀ s, Executor.make 1 1 5 = .ok e₀ ∧
    run (step makeThreeDataTwoParityGraph) ⟨⟨.init, e₀⟩, none⟩
      (decidedRun ++ fourthArrival ++ [submitBy 1] ++ workerRound) = some s ∧
    (∀ a ∈ decidedRun ++ fourthArrival ++ [submitBy 1] ++ workerRound, Ordinary (fun _ => makeThreeEncoded) a) ∧
    ∃ st, s.coordinator.requests 7 = some st ∧ st.snapshot.status = .failed ∧
      st.snapshot.error = "Staged shards must match the supplied host shard slots" := by
  obtain ⟨e₀, s, hmake, hrun, hst⟩ := Executor.exists_run (step makeThreeDataTwoParityGraph)
    (fun e₀ => ⟨⟨.init, e₀⟩, none⟩) 1 1 5 (decidedRun ++ fourthArrival ++ [submitBy 1] ++ workerRound)
    (fun _ s => (s.coordinator.requests 7).any (fun st => st.snapshot.status = .failed ∧
      st.snapshot.error = "Staged shards must match the supplied host shard slots")) (by decide +kernel)
  obtain ⟨st, hst, hfailed⟩ := (Option.any_eq_true _ _).1 hst
  exact ⟨e₀, s, hmake, hrun, ordinary_seven (List.Subset.refl _), st, hst, of_decide_eq_true hfailed⟩

/-- The same happens with the `Submit` between the staging of the parity 4 and its store. -/
example : ((Executor.make 1 1 5).toOption.bind (fun e₀ => run (step makeThreeDataTwoParityGraph) ⟨⟨.init, e₀⟩, none⟩
    (decidedRun ++ fourthArrival.take 1 ++ [submitBy 1] ++ fourthArrival.drop 1 ++ workerRound))).any
      (fun s => (s.coordinator.requests 7).any (fun st => st.snapshot.status = .failed)) = true := by decide +kernel

end LockedRuntime

end CodedLLM
