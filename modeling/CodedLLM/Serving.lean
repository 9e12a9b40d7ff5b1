import CodedLLM.Lifecycle
import CodedLLM.Recovery
/-!
# Serving — the coordinator over genuine shards

Here every arriving payload is a shard of an encoded request and the executor answers an accepted task at most once,
with a failure or with the result of executing the submitted plan on the submitted shards.  Whatever the interleaving,
every submitted task executes to all the systematic shards and a finished request hands out the originals.  What may
be lost is a parity that arrives while a recovery is under way: `onRecoveryComplete` replaces all the slots by those
of the task.
-/
namespace CodedLLM

open Runs

/-- **One encoded request**: `k` systematic shards of `words` words and what the encoder made of them. -/
structure Encoded (g : BipartiteGraph) where
  code : CodeGraph
  describes : code.Describes g
  original : List WordShard
  words : Nat
  systematic : Systematic g words original
  parity : List WordShard
  encoded : encodeParityCpu code original = .ok parity

namespace Encoded

variable {g : BipartiteGraph}

/-- The payload of a shard id: an original, or the encoder's output at index `id - k`. -/
def payload (e : Encoded g) (shardId : Nat) : Option WordShard := (e.original ++ e.parity)[shardId]?

def Genuine (e : Encoded g) (shards : ShardSlots) : Prop := ∀ i w, slotAt shards i = some w → e.payload i = some w

def Full (e : Encoded g) (shards : ShardSlots) : Prop :=
  shards.length = g.systematicShardCount + g.parityShardCount ∧
    ∀ i < g.systematicShardCount, slotAt shards i = e.original[i]?

/-- A task worth submitting: the plan executes on the genuine shards, rebuilds all the originals and leaves the parities
alone. -/
structure Sound (e : Encoded g) (plan : DecodePlan) (shards : ShardSlots) : Prop where
  genuine : e.Genuine shards
  executes : ∃ shards', executeDecodePlanCpu plan shards = .returns shards' ∧ e.Full shards' ∧
    ∀ i, g.systematicShardCount ≤ i → slotAt shards' i = slotAt shards i

theorem payload_systematic (e : Encoded g) {i : Nat} (hi : i < g.systematicShardCount) :
    e.payload i = e.original[i]? := by
  unfold payload
  exact List.getElem?_append_left (by rw [e.systematic.count]; exact hi)

theorem payload_codeword (hg : g.Valid) (e : Encoded g) {i : Nat}
    (hi : i < g.systematicShardCount + g.parityShardCount) : e.payload i = some (codeword g e.original i) := by
  by_cases hk : i < g.systematicShardCount
  · rw [e.payload_systematic hk]
    exact codeword_systematic e.systematic hk
  · obtain ⟨parity, henc, hpar⟩ := encodeParityCpu_ok hg e.describes e.systematic.count e.systematic.pos
      e.systematic.words
    rw [e.encoded] at henc
    obtain rfl := Except.ok.inj henc
    have hkey : i ∈ g.parityToSystematic.map Prod.fst := by
      rw [hg.keys]
      exact List.mem_range'_1.2 ⟨Nat.le_of_not_lt hk, hi⟩
    obtain ⟨⟨p, ns⟩, he, rfl⟩ := List.mem_map.1 hkey
    unfold payload
    rw [List.getElem?_append_right (by rw [e.systematic.count]; omega), e.systematic.count]
    exact hpar p ns he

theorem Genuine.set {e : Encoded g} {shards : ShardSlots} (h : e.Genuine shards) {shardId : Nat} {payload : WordShard}
    (hb : shardId < shards.length) (hp : e.payload shardId = some payload) :
    e.Genuine (shards.set shardId (some payload)) := by
  intro i w hw
  rw [slotAt_set hb] at hw
  split at hw
  · rename_i hi
    rw [hi, hp, ← hw]
  · exact h i w hw

end Encoded

/-! ## What a submitted task computes -/

/-- **A plan over what the tracker has seen executes on the slots the tracker describes.** -/
theorem Encoded.sound_of_plan {g : BipartiteGraph} (e : Encoded g) {st : RequestState} (h : RequestInv g st)
    (hne : st.snapshot.status ≠ .recovered) (hgen : e.Genuine st.shards) {available : Finset Nat}
    (hav : availableParity st.tracker g.parityToSystematic = .ok available) {plan : DecodePlan}
    (hplan : createPlan g st.tracker.getMissingSystematic available = .ok plan) (hrec : plan.isRecoverable = true) :
    e.Sound plan st.shards := by
  obtain ⟨hg, hM, hA, hspec⟩ := createPlan_spec hplan
  have hlen := h.length hne
  have hkeys : ∀ x ∈ g.parityToSystematic, x.1 < st.tracker.arrivals.length := by
    intro x hx
    rw [h.arrivals]
    exact (hg.entry hx).2.1
  obtain ⟨A, hA', hmem⟩ := availableParity_ok st.tracker g.parityToSystematic hkeys
  rw [hav] at hA'
  obtain rfl := Except.ok.inj hA'
  -- a slot the tracker has seen holds its codeword
  have hslot : ∀ i < g.systematicShardCount + g.parityShardCount, st.tracker.arrived i = true →
      ∃ w, slotAt st.shards i = some w ∧ w = codeword g e.original i := by
    intro i hi harr
    rw [h.agree hne] at harr
    obtain ⟨w, hw⟩ := Option.isSome_iff_exists.1 harr
    refine ⟨w, hw, ?_⟩
    have hp := hgen i w hw
    rw [e.payload_codeword hg hi] at hp
    exact (Option.some.inj hp).symm
  have hholds : Holds g available (fun i w => w = codeword g e.original i) st.tracker.getMissingSystematic
      (slotAt st.shards) := by
    refine ⟨fun i hi him => ?_, fun p hp => ?_, fun i hi => ?_⟩
    · refine hslot i (by omega) ?_
      rw [ShardArrivalTracker.mem_getMissingSystematic, h.systematic, not_and] at him
      simpa using him hi
    · exact hslot p (hA p hp).2 ((hmem p).1 hp).2
    · have harr := ((st.tracker.mem_getMissingSystematic i).1 hi).2
      rw [h.agree hne] at harr
      simpa using harr
  obtain ⟨shards', hex, hl, -, hfinal, hframe⟩ :=
    (hspec hrec).execute hg hrec (admits_codeword hg available e.systematic)
    hholds (fun i hi => by have := hM i hi; omega)
  refine ⟨hgen, shards', hex, ⟨hl.trans hlen, fun i hi => ?_⟩, fun i hi => ?_⟩
  · obtain ⟨w, hw, rfl⟩ := hfinal.systematic i hi (Finset.notMem_empty i)
    rw [hw]
    exact (codeword_systematic e.systematic hi).symm
  · exact hframe i (fun hm => by have := hM i hm; omega)

/-- **What a request holds**: genuine shards, and all the originals once it is recovered. -/
structure Served {g : BipartiteGraph} (e : Encoded g) (st : RequestState) : Prop where
  genuine : st.snapshot.status ≠ .recovered → e.Genuine st.shards
  full : st.snapshot.status = .recovered → e.Full st.shards

theorem Served.make {g : BipartiteGraph} (e : Encoded g) {st : RequestState}
    (h : RequestState.make g.systematicShardCount g.parityShardCount = .ok st) : Served e st := by
  unfold RequestState.make at h
  split at h
  · cases h
  · obtain rfl := Except.ok.inj h
    refine ⟨fun _ i w hw => ?_, fun hs => by cases hs⟩
    simp only [slotAt, List.getElem?_replicate] at hw
    split at hw <;> cases hw

theorem Served.record {g : BipartiteGraph} {e : Encoded g} {st : RequestState} (h : Served e st) {shardId : Nat}
    {payload : WordShard} {arrivalTime : Int} {env : ArrivalEnv} {tracker : ShardArrivalTracker}
    (ha : Accepts st shardId payload arrivalTime env tracker) (hp : e.payload shardId = some payload) :
    e.Genuine (st.shards.set shardId (some payload)) :=
  (h.genuine (by rw [ha.pending]; decide)).set ha.bound hp

theorem Served.arrival {g : BipartiteGraph} {e : Encoded g} {st st' : RequestState} (h : Served e st) {shardId : Nat}
    {payload : WordShard} {arrivalTime : Int} {env : ArrivalEnv} {r : Except Exn NextStep}
    (ha : Arrival g st shardId payload arrivalTime env st' r) (hp : e.payload shardId = some payload) :
    Served e st' := by
  have hstored : ∀ tracker, Accepts st shardId payload arrivalTime env tracker → ∀ st' : RequestState,
      st'.shards = st.shards.set shardId (some payload) → st'.snapshot.status ≠ .recovered → Served e st' := by
    intro tracker hacc st' hsh hne
    refine ⟨fun _ => ?_, fun hr => absurd hr hne⟩
    rw [hsh]
    exact h.record hacc hp
  cases ha with
  | late _ => exact ⟨h.genuine, h.full⟩
  | kept _ _ _ _ => exact ⟨h.genuine, h.full⟩
  | natural tracker hacc _ => exact hstored tracker hacc _ rfl (by simp)
  | quiet tracker hacc _ _ _ _ => exact hstored tracker hacc _ rfl (by simp [withFlags, recordShard, hacc.pending])
  | noEstimate tracker hacc _ _ _ _ => exact hstored tracker hacc _ rfl (by simp [withFlags, recordShard, hacc.pending])
  | decided tracker hacc _ _ _ _ _ _ _ _ _ =>
    exact hstored tracker hacc _ rfl (by simp [withFlags, recordShard, hacc.pending])

theorem Served.sound {g : BipartiteGraph} {e : Encoded g} {st st' : RequestState} (h : Served e st)
    (hi : RequestInv g st)
    {shardId : Nat} {payload : WordShard} {arrivalTime : Int} {env : ArrivalEnv} {r : Except Exn NextStep}
    (ha : Arrival g st shardId payload arrivalTime env st' r) (hp : e.payload shardId = some payload) {request : Nat}
    {plan : DecodePlan} {shards : ShardSlots} (hx : (nextPhase request r).task = some (request, plan, shards)) :
    e.Sound plan shards := by
  rcases ha.phase request with hph | ⟨hph, -⟩ | ⟨tracker, available, plan', hacc, hav, hplan, hrec, -, -, hph⟩
  · rw [hph] at hx
    cases hx
  · rw [hph] at hx
    cases hx
  · rw [hph] at hx
    obtain ⟨rfl, rfl⟩ := Prod.mk.inj (Prod.mk.inj (Option.some.inj hx)).2
    have hst := hi.record hacc
    have hne : (recordShard st shardId payload tracker).snapshot.status ≠ .recovered := by
      simp [recordShard, hacc.pending]
    exact e.sound_of_plan hst hne (h.record hacc hp) hav hplan hrec

/-! ## The coordinator -/

/-- What the surroundings of the coordinator promise about one action: payloads are genuine, and a successful completion
brings all the originals. -/
def Faithful {g : BipartiteGraph} (data : Nat → Encoded g) : Action → Prop
  | .arrive _ request shardId payload _ _ => (data request).payload shardId = some payload
  | .complete request result => result.success = true → (data request).Full result.shards
  | _ => True

structure ServedInv {g : BipartiteGraph} (data : Nat → Encoded g) (c : Coordinator) : Prop where
  lifecycle : CoordinatorInv g c
  served : ∀ r st, c.requests r = some st → Served (data r) st
  task : ∀ t r plan shards, (c.handlers t).task = some (r, plan, shards) → (data r).Sound plan shards
  submits : ∀ r plan shards, (r, plan, shards) ∈ c.submits → (data r).Sound plan shards

theorem ServedInv.init {g : BipartiteGraph} (data : Nat → Encoded g) : ServedInv data Coordinator.init := by
  refine ⟨.init g, fun _ _ h => ?_, fun _ _ _ _ h => ?_, fun _ _ _ h => ?_⟩ <;> cases h

theorem Served.refused {g : BipartiteGraph} {e : Encoded g} {st : RequestState} (h : Served e st) :
    Served e (onSubmitRefused st) := by
  unfold onSubmitRefused
  split
  · exact h
  · exact ⟨h.genuine, h.full⟩

theorem Served.complete {g : BipartiteGraph} {e : Encoded g} {st : RequestState} (h : Served e st)
    {result : RecoveryTaskResult} (hr : result.success = true → e.Full result.shards) :
    Served e (onRecoveryComplete st result) := by
  unfold onRecoveryComplete
  split
  · exact h
  rename_i hterm
  have hp := pending_of_not_terminal hterm
  dsimp only
  split
  · exact ⟨fun _ => h.genuine (by rw [hp]; decide), fun hs => by cases hs⟩
  · rename_i hs
    exact ⟨fun hne => absurd rfl hne, fun _ => hr (by simpa using hs)⟩

theorem step_served {g : BipartiteGraph} {data : Nat → Encoded g} {c c' : Coordinator} {a : Action}
    (h : step g c a = some c') (hi : ServedInv data c) (hf : Faithful data a) :
    ∀ r st, c'.requests r = some st → Served (data r) st := by
  have hset : ∀ (request : Nat) (st : RequestState), Served (data request) st →
      ∀ r st', Function.update c.requests request (some st) r = some st' → Served (data r) st' := by
    intro request st hst r st' hst'
    by_cases hr : r = request
    · subst hr
      rw [Function.update_self] at hst'
      exact Option.some.inj hst' ▸ hst
    · rw [Function.update_of_ne hr] at hst'
      exact hi.served r st' hst'
  cases step_cases h with
  | stays a transport => exact hi.served
  | started request oracle answer st hst hnew => exact hset request st (.make _ hst)
  | arrived thread request shardId payload arrivalTime env st hidle hst =>
    have harr := onShardArrived_cases g st shardId payload arrivalTime env (hi.lifecycle.request request st hst).sizes
    exact hset request _ ((hi.served request st hst).arrival harr hf)
  | submitted thread answer request plan taskShards phase htask hphase => exact hi.served
  | moved a thread phase htask hphase => exact hi.served
  | refused thread request st hst hrefused => exact hset request _ (hi.served request st hst).refused
  | completed request result st hst => exact hset request _ ((hi.served request st hst).complete hf)

theorem step_sound {g : BipartiteGraph} {data : Nat → Encoded g} {c c' : Coordinator} {a : Action}
    (h : step g c a = some c') (hi : ServedInv data c) (hf : Faithful data a) :
    (∀ t r plan shards, (c'.handlers t).task = some (r, plan, shards) → (data r).Sound plan shards) ∧
      ∀ r plan shards, (r, plan, shards) ∈ c'.submits → (data r).Sound plan shards := by
  cases step_cases h with
  | stays a transport => exact ⟨hi.task, hi.submits⟩
  | started request oracle answer st hst hnew => exact ⟨hi.task, hi.submits⟩
  | completed request result st hst => exact ⟨hi.task, hi.submits⟩
  | moved a thread phase htask hphase =>
    exact ⟨fun t r plan shards hx => hi.task t r plan shards (task_update_none hphase hx).2, hi.submits⟩
  | refused thread request st hst hrefused =>
    exact ⟨fun t r plan shards hx => hi.task t r plan shards (task_update_none rfl hx).2, hi.submits⟩
  | submitted thread answer request plan taskShards phase htask hphase =>
    refine ⟨fun t r p s hx => hi.task t r p s (task_update_none hphase hx).2, fun r p s hx => ?_⟩
    rcases List.mem_cons.1 hx with hx | hx
    · obtain ⟨rfl, rfl, rfl⟩ : r = request ∧ p = plan ∧ s = taskShards := by simpa using hx
      exact hi.task thread r p s (by rw [htask]; rfl)
    · exact hi.submits r p s hx
  | arrived thread request shardId payload arrivalTime env st hidle hst =>
    have hinv := hi.lifecycle.request request st hst
    have harr := onShardArrived_cases g st shardId payload arrivalTime env hinv.sizes
    refine ⟨fun t r plan shards hx => ?_, hi.submits⟩
    rcases task_update hx with ⟨-, hx⟩ | ⟨-, hx⟩
    · obtain ⟨rfl, -⟩ := harr.task hx
      exact (hi.served _ st hst).sound hinv harr hf hx
    · exact hi.task t r plan shards hx

theorem step_servedInv {g : BipartiteGraph} {data : Nat → Encoded g} {c c' : Coordinator} {a : Action}
    (h : step g c a = some c') (hi : ServedInv data c) (hf : Faithful data a) : ServedInv data c' :=
  ⟨step_inv c a c' hi.lifecycle h, step_served h hi hf, (step_sound h hi hf).1, (step_sound h hi hf).2⟩

theorem ServedInv.getShard {g : BipartiteGraph} {data : Nat → Encoded g} {c : Coordinator} (h : ServedInv data c)
    {r : Nat} {st : RequestState} (hst : c.requests r = some st)
    (hs : st.snapshot.status = .naturalComplete ∨ st.snapshot.status = .recovered) :
    ∀ i < g.systematicShardCount, c.getShard r i = .ok ((data r).original[i]?) := by
  intro i hi
  have hinv := h.lifecycle.request r st hst
  have hserved := h.served r st hst
  unfold Coordinator.getShard
  rw [hst]
  rcases hs with hs | hs
  · obtain ⟨w, hw⟩ := hinv.filled hs i hi
    have hne : st.snapshot.status ≠ .recovered := by
      rw [hs]
      decide
    have hslot := slotAt_eq_some.2 hw
    have hp := hserved.genuine hne i w hslot
    rw [(data r).payload_systematic hi] at hp
    have hlen := hinv.length hne
    dsimp only
    rw [if_neg (by omega), hslot, hp]
  · obtain ⟨hlen, hfull⟩ := hserved.full hs
    dsimp only
    rw [if_neg (by omega), hfull i hi]

/-! ## The coordinator with an executor that executes -/

abbrev SubmittedTask := Nat × DecodePlan × ShardSlots

instance : LawfulBEq SubmittedTask := inferInstance

structure Serving where
  coordinator : Coordinator
  tasks : List SubmittedTask

def Serving.init : Serving := ⟨.init, []⟩

inductive ServingAction where
  /-- any section or executor call of the coordinator but a completion -/
  | coordinator (action : Action)
  /-- the executor calls the completion of an accepted task -/
  | answer (task : SubmittedTask) (result : RecoveryTaskResult)

/-- The executor's answer: a failure, or the submitted plan executed on the submitted shards. -/
def Answers (task : SubmittedTask) (result : RecoveryTaskResult) : Prop :=
  result.success = true → executeDecodePlanCpu task.2.1 task.2.2 = .returns result.shards

instance (task : SubmittedTask) (result : RecoveryTaskResult) : Decidable (Answers task result) :=
  inferInstanceAs (Decidable (_ → _))

/-- The arrivals carry genuine payloads; completions come from `answer` only. -/
def admissible {g : BipartiteGraph} (data : Nat → Encoded g) : Action → Bool
  | .arrive _ request shardId payload _ _ => (data request).payload shardId = some payload
  | .complete _ _ => false
  | _ => true

def acceptedTask (c : Coordinator) : Action → List SubmittedTask
  | .submit thread .accepts => (c.handlers thread).task.toList
  | _ => []

def Serving.step {g : BipartiteGraph} (data : Nat → Encoded g) (s : Serving) : ServingAction → Option Serving
  | .coordinator a =>
    if admissible data a = true then
      (CodedLLM.step g s.coordinator a).map (fun c => ⟨c, acceptedTask s.coordinator a ++ s.tasks⟩)
    else none
  | .answer task result =>
    if task ∈ s.tasks ∧ Answers task result then
      (CodedLLM.step g s.coordinator (.complete task.1 result)).map (fun c => ⟨c, s.tasks.erase task⟩)
    else none

structure ServingInv {g : BipartiteGraph} (data : Nat → Encoded g) (s : Serving) : Prop where
  coordinator : ServedInv data s.coordinator
  tasks : ∀ task ∈ s.tasks, task ∈ s.coordinator.submits

theorem ServingInv.init {g : BipartiteGraph} (data : Nat → Encoded g) : ServingInv data Serving.init :=
  ⟨.init data, fun _ h => by cases h⟩

theorem ServingInv.sound {g : BipartiteGraph} {data : Nat → Encoded g} {s : Serving} (h : ServingInv data s)
    {task : SubmittedTask} (ht : task ∈ s.tasks) : (data task.1).Sound task.2.1 task.2.2 :=
  h.coordinator.submits _ _ _ (h.tasks task ht)

theorem Encoded.Sound.answered {g : BipartiteGraph} {e : Encoded g} {task : SubmittedTask}
    (h : e.Sound task.2.1 task.2.2)
    {result : RecoveryTaskResult} (ha : Answers task result) (hr : result.success = true) :
    e.Full result.shards ∧ ∀ i, g.systematicShardCount ≤ i → slotAt result.shards i = slotAt task.2.2 i := by
  obtain ⟨shards', hex, hfull, hframe⟩ := h.executes
  rw [ha hr] at hex
  obtain rfl : result.shards = shards' := by simpa using hex
  exact ⟨hfull, hframe⟩

/-- **A step of the serving system is a step of the coordinator** that keeps the promises of its surroundings. -/
inductive Serves {g : BipartiteGraph} (data : Nat → Encoded g) (s : Serving) : ServingAction → Serving → Prop
  | coordinator (a : Action) (c : Coordinator) (ha : admissible data a = true)
      (hs : CodedLLM.step g s.coordinator a = some c) :
      Serves data s (.coordinator a) ⟨c, acceptedTask s.coordinator a ++ s.tasks⟩
  | answer (task : SubmittedTask) (result : RecoveryTaskResult) (c : Coordinator) (ht : task ∈ s.tasks)
      (ha : Answers task result) (hs : CodedLLM.step g s.coordinator (.complete task.1 result) = some c) :
      Serves data s (.answer task result) ⟨c, s.tasks.erase task⟩

theorem Serving.step_cases {g : BipartiteGraph} {data : Nat → Encoded g} {s s' : Serving} {a : ServingAction}
    (h : Serving.step data s a = some s') : Serves data s a s' := by
  cases a with
  | coordinator a =>
    simp only [Serving.step] at h
    split at h
    · rename_i ha
      obtain ⟨c, hs, rfl⟩ := Option.map_eq_some_iff.1 h
      exact .coordinator a c ha hs
    · cases h
  | answer task result =>
    simp only [Serving.step] at h
    split at h
    · rename_i ht
      obtain ⟨c, hs, rfl⟩ := Option.map_eq_some_iff.1 h
      exact .answer task result c ht.1 ht.2 hs
    · cases h

theorem faithful_of_admissible {g : BipartiteGraph} {data : Nat → Encoded g} {a : Action}
    (h : admissible data a = true) : Faithful data a := by
  cases a with
  | arrive _ request shardId payload _ _ =>
    show (data request).payload shardId = some payload
    exact of_decide_eq_true h
  | complete _ _ => cases h
  | _ => trivial

theorem submits_mono {g : BipartiteGraph} {c c' : Coordinator} {a : Action} (h : step g c a = some c') :
    c.submits ⊆ c'.submits := by
  cases step_cases h with
  | submitted thread answer request plan taskShards phase htask hphase => exact List.subset_cons_self ..
  | _ => exact List.Subset.refl _

theorem acceptedTask_subset {g : BipartiteGraph} {c c' : Coordinator} {a : Action} (h : step g c a = some c') :
    acceptedTask c a ⊆ c'.submits := by
  intro task ht
  unfold acceptedTask at ht
  split at ht
  · simp only [step] at h
    split at h
    · rename_i htask
      obtain rfl := Option.some.inj h
      rw [htask] at ht
      obtain rfl := List.mem_singleton.1 ht
      exact List.mem_cons_self ..
    · cases h
  · cases ht

theorem Serving.step_inv {g : BipartiteGraph} {data : Nat → Encoded g} (s : Serving) (a : ServingAction) (s' : Serving)
    (hi : ServingInv data s) (h : Serving.step data s a = some s') : ServingInv data s' := by
  cases Serving.step_cases h with
  | coordinator a c ha hs =>
    refine ⟨step_servedInv hs hi.coordinator (faithful_of_admissible ha), fun task ht => ?_⟩
    rcases List.mem_append.1 ht with ht | ht
    · exact acceptedTask_subset hs ht
    · exact submits_mono hs (hi.tasks task ht)
  | answer task result c ht ha hs =>
    have hf : Faithful data (.complete task.1 result) := fun hr => ((hi.sound ht).answered ha hr).1
    exact ⟨step_servedInv hs hi.coordinator hf, fun x hx => submits_mono hs (hi.tasks x (List.mem_of_mem_erase hx))⟩

/-- **The coordinator never hands out wrong data**: every task passed to `Submit` executes and produces all the
systematic shards, and a request that has completed or recovered returns the original payload of each of them. -/
theorem serving_hands_out_originals {g : BipartiteGraph} (data : Nat → Encoded g) (actions : List ServingAction)
    (s : Serving) (h : run (Serving.step data) Serving.init actions = some s) :
    (∀ r plan shards, (r, plan, shards) ∈ s.coordinator.submits →
      ∃ shards', executeDecodePlanCpu plan shards = .returns shards' ∧
        ∀ i < g.systematicShardCount, ∃ w, (data r).original[i]? = some w ∧ shards'[i]? = some (some w)) ∧
    ∀ r st, s.coordinator.requests r = some st →
      st.snapshot.status = .naturalComplete ∨ st.snapshot.status = .recovered →
      ∀ i < g.systematicShardCount, ∃ w, (data r).original[i]? = some w ∧
      s.coordinator.getShard r i = .ok (some w) := by
  have hinv := run_inv Serving.step_inv actions _ s (ServingInv.init data) h
  refine ⟨fun r plan shards hm => ?_, fun r st hst hs i hi => ?_⟩
  · obtain ⟨shards', hex, hfull, -⟩ := (hinv.coordinator.submits r plan shards hm).executes
    refine ⟨shards', hex, fun i hi => ?_⟩
    have hw := ((data r).systematic.getD hi).1
    exact ⟨_, hw, slotAt_eq_some.1 ((hfull.2 i hi).trans hw)⟩
  · have hw := ((data r).systematic.getD hi).1
    refine ⟨_, hw, ?_⟩
    rw [hinv.coordinator.getShard hst hs i hi, hw]

def makeEncoded : Encoded makeGraph :=
  ⟨makeCodeGraph, ⟨rfl, rfl, .refl _⟩, [[1, 2], [3, 4]], 2, ⟨rfl, by decide, by decide⟩, [[2, 6]], by decide⟩

/-- Shard 0 and the parity arrive, the recovery is submitted, accepted and answered. -/
def servedRun : List ServingAction :=
  [.coordinator .attachTransport, .coordinator (.startRequest 7 true none),
    .coordinator (.arrive 0 7 0 [1, 2] 10 ⟨none, 1, some 5, .ok 100⟩),
    .coordinator (.arrive 1 7 2 [2, 6] 20 ⟨none, 1, some 5, .ok 100⟩), .coordinator (.submit 1 .accepts),
    .answer (7, ⟨[⟨1, [2, 0]⟩], [[]], true⟩, [some [1, 2], none, some [2, 6]])
      ⟨true, [some [1, 2], some [3, 4], some [2, 6]], .zero, ""⟩]

theorem serving_hands_out_originals_servedRun : ∃ s,
    run (Serving.step (fun _ => makeEncoded)) Serving.init servedRun = some s ∧
    (∀ r plan shards, (r, plan, shards) ∈ s.coordinator.submits →
      ∃ shards', executeDecodePlanCpu plan shards = .returns shards' ∧
        ∀ i < 2, ∃ w, [[1, 2], [3, 4]][i]? = some w ∧ shards'[i]? = some (some w)) ∧
    ∀ r st, s.coordinator.requests r = some st →
      st.snapshot.status = .naturalComplete ∨ st.snapshot.status = .recovered →
      ∀ i < 2, ∃ w, [[1, 2], [3, 4]][i]? = some w ∧ s.coordinator.getShard r i = .ok (some w) := by
  have hrun : (run (Serving.step (fun _ => makeEncoded)) Serving.init servedRun).isSome = true := by decide +kernel
  obtain ⟨s, hs⟩ := Option.isSome_iff_exists.1 hrun
  exact ⟨s, hs, serving_hands_out_originals (fun _ => makeEncoded) servedRun s hs⟩

/-! ## Accepted shards and late completions -/

/-- **The completion's snapshot is current**: no parity slot is filled now that was empty when the task was
submitted. -/
def SnapshotCurrent (g : BipartiteGraph) (s : Serving) : ServingAction → Prop
  | .answer task result => result.success = true → ∀ st, s.coordinator.requests task.1 = some st →
      st.snapshot.status = .pending → ∀ p, g.systematicShardCount ≤ p → (slotAt st.shards p).isSome →
      (slotAt task.2.2 p).isSome
  | .coordinator _ => True

theorem getShard_some {c : Coordinator} {r i : Nat} {w : WordShard} :
    c.getShard r i = .ok (some w) ↔ ∃ st, c.requests r = some st ∧ slotAt st.shards i = some w := by
  unfold Coordinator.getShard
  cases c.requests r with
  | none => simp
  | some st =>
    simp only [Option.some.injEq, exists_eq_left']
    split
    · rename_i hle
      simp [slotAt_of_length_le hle]
    · simp

def Keeps (st st' : RequestState) : Prop := ∀ i w, slotAt st.shards i = some w → slotAt st'.shards i = some w

theorem Keeps.arrival {g : BipartiteGraph} {st st' : RequestState} {shardId : Nat} {payload : WordShard}
    {arrivalTime : Int} {env : ArrivalEnv} {r : Except Exn NextStep}
    (ha : Arrival g st shardId payload arrivalTime env st' r) : Keeps st st' := by
  have hstored : ∀ tracker, Accepts st shardId payload arrivalTime env tracker → ∀ i w, slotAt st.shards i = some w →
      slotAt (st.shards.set shardId (some payload)) i = some w := by
    intro tracker hacc i w hw
    have hne : i ≠ shardId := by
      rintro rfl
      rw [hacc.empty] at hw
      cases hw
    rw [slotAt_set hacc.bound, if_neg hne, hw]
  cases ha with
  | late _ => exact fun _ _ hw => hw
  | kept _ _ _ _ => exact fun _ _ hw => hw
  | natural tracker hacc _ => exact hstored tracker hacc
  | quiet tracker hacc _ _ _ _ => exact hstored tracker hacc
  | noEstimate tracker hacc _ _ _ _ => exact hstored tracker hacc
  | decided tracker hacc _ _ _ _ _ _ _ _ _ => exact hstored tracker hacc

/-- **A completion keeps every shard exactly if its snapshot is current.** -/
theorem keeps_complete_iff {g : BipartiteGraph} {e : Encoded g} {st : RequestState} (hs : Served e st)
    (hp : st.snapshot.status = .pending) {task : SubmittedTask} (ht : e.Sound task.2.1 task.2.2)
    {result : RecoveryTaskResult} (ha : Answers task result) (hr : result.success = true) :
    Keeps st (onRecoveryComplete st result) ↔
      ∀ p, g.systematicShardCount ≤ p → (slotAt st.shards p).isSome → (slotAt task.2.2 p).isSome := by
  obtain ⟨hfull, hframe⟩ := ht.answered ha hr
  have hgen := hs.genuine (by rw [hp]; decide)
  have hsh : (onRecoveryComplete st result).shards = result.shards := by
    unfold onRecoveryComplete
    simp [hp, isTerminal, hr]
  constructor
  · intro hk p hkp hsome
    obtain ⟨w, hw⟩ := Option.isSome_iff_exists.1 hsome
    have hw' := hk p w hw
    rw [hsh, hframe p hkp] at hw'
    rw [hw']
    rfl
  · intro hcur i w hw
    rw [hsh]
    by_cases hik : i < g.systematicShardCount
    · rw [hfull.2 i hik, ← e.payload_systematic hik]
      exact hgen i w hw
    · have hki := Nat.le_of_not_lt hik
      obtain ⟨w', hw'⟩ := Option.isSome_iff_exists.1 (hcur i hki (by rw [hw]; rfl))
      have heq := ht.genuine i w' hw'
      rw [hgen i w hw] at heq
      rw [hframe i hki, hw', Option.some.inj heq]

/-- Every shard `GetShard` returns in the first state it returns in the second. -/
def ShardsKept (s s' : Serving) : Prop :=
  ∀ r i w, s.coordinator.getShard r i = .ok (some w) → s'.coordinator.getShard r i = .ok (some w)

def ArrivalsHeld (s : Serving) : Prop :=
  ∀ r st i, s.coordinator.requests r = some st → st.tracker.hasArrived i = .ok true → ∃ w, st.shards[i]? = some (some w)

theorem shardsKept_of_requests {s s' : Serving}
    (h : ∀ r st, s.coordinator.requests r = some st → ∃ st', s'.coordinator.requests r = some st' ∧ Keeps st st') :
    ShardsKept s s' := by
  intro r i w hw
  obtain ⟨st, hst, hslot⟩ := getShard_some.1 hw
  obtain ⟨st', hst', hk⟩ := h r st hst
  exact getShard_some.2 ⟨st', hst', hk i w hslot⟩

theorem keeps_of_step {g : BipartiteGraph} {c c' : Coordinator} {a : Action} (h : step g c a = some c')
    (hi : ∀ r st, c.requests r = some st → RequestInv g st) (ha : ∀ r result, a ≠ .complete r result) {r : Nat}
    {st : RequestState} (hst : c.requests r = some st) : ∃ st', c'.requests r = some st' ∧ Keeps st st' := by
  have hset : ∀ (request : Nat) (st₀ st' : RequestState), c.requests request = some st₀ → Keeps st₀ st' →
      ∃ st'', Function.update c.requests request (some st') r = some st'' ∧ Keeps st st'' := by
    intro request st₀ st' hst₀ hk
    by_cases hr : r = request
    · subst hr
      rw [hst₀] at hst
      obtain rfl := Option.some.inj hst
      exact ⟨st', Function.update_self .., hk⟩
    · exact ⟨st, by rw [Function.update_of_ne hr, hst], fun _ _ hw => hw⟩
  cases step_cases h with
  | stays a transport => exact ⟨st, hst, fun _ _ hw => hw⟩
  | started request oracle answer st₀ hmake hnew =>
    refine ⟨st, ?_, fun _ _ hw => hw⟩
    have hne : r ≠ request := by
      rintro rfl
      rw [hnew] at hst
      cases hst
    rw [Coordinator.setRequest_requests, Function.update_of_ne hne, hst]
  | arrived thread request shardId payload arrivalTime env st₀ hidle hst₀ =>
    exact hset request st₀ _ hst₀
      (.arrival (onShardArrived_cases g st₀ shardId payload arrivalTime env (hi request st₀ hst₀).sizes))
  | submitted thread answer request plan taskShards phase htask hphase => exact ⟨st, hst, fun _ _ hw => hw⟩
  | moved a thread phase htask hphase => exact ⟨st, hst, fun _ _ hw => hw⟩
  | refused thread request st₀ hst₀ hrefused =>
    refine hset request st₀ _ hst₀ (fun i w hw => ?_)
    unfold onSubmitRefused
    split <;> exact hw
  | completed request result st₀ hst₀ => exact absurd rfl (ha request result)

theorem step_complete {g : BipartiteGraph} {c c' : Coordinator} {r : Nat} {result : RecoveryTaskResult}
    {st : RequestState} (hst : c.requests r = some st) (h : step g c (.complete r result) = some c') :
    c'.requests = Function.update c.requests r (some (onRecoveryComplete st result)) := by
  simp only [step, hst, Option.some.injEq] at h
  rw [← h]
  rfl

theorem step_complete_of_ne {g : BipartiteGraph} {c c' : Coordinator} {q r : Nat} {result : RecoveryTaskResult}
    (h : step g c (.complete q result) = some c') (hr : r ≠ q) : c'.requests r = c.requests r := by
  simp only [step] at h
  split at h
  · obtain rfl := Option.some.inj h
    exact Function.update_of_ne hr ..
  · rw [Option.some.inj h]

theorem keeps_complete_quiet {st : RequestState} {result : RecoveryTaskResult}
    (h : isTerminal st.snapshot.status = true ∨ result.success = false) : Keeps st (onRecoveryComplete st result) := by
  intro i w hw
  unfold onRecoveryComplete
  split
  · exact hw
  · rename_i hterm
    simp only [h.resolve_left hterm, if_true]
    exact hw

/-- **A step loses no shard exactly if it meets the condition.** -/
theorem Serving.step_kept_iff {g : BipartiteGraph} {data : Nat → Encoded g} {s s' : Serving} {a : ServingAction}
    (hi : ServingInv data s) (h : Serving.step data s a = some s') : SnapshotCurrent g s a ↔ ShardsKept s s' := by
  cases Serving.step_cases h with
  | coordinator a c ha hs =>
    refine iff_of_true trivial (shardsKept_of_requests (fun r st hst => ?_))
    refine keeps_of_step hs hi.coordinator.lifecycle.request (fun r result he => ?_) hst
    rw [he] at ha
    cases ha
  | answer task result c ht ha hs =>
    constructor
    · intro hcur
      refine shardsKept_of_requests (fun r st hst => ?_)
      by_cases hr : r = task.1
      · subst hr
        refine ⟨_, by rw [step_complete hst hs, Function.update_self], ?_⟩
        by_cases hquiet : isTerminal st.snapshot.status = true ∨ result.success = false
        · exact keeps_complete_quiet hquiet
        · rw [not_or] at hquiet
          have hp := pending_of_not_terminal hquiet.1
          have hsucc : result.success = true := by simpa using hquiet.2
          exact (keeps_complete_iff (hi.coordinator.served _ st hst) hp (hi.sound ht) ha hsucc).2
            (hcur hsucc st hst hp)
      · exact ⟨st, (step_complete_of_ne hs hr).trans hst, fun _ _ hw => hw⟩
    · intro hk hsucc st hst hp
      refine (keeps_complete_iff (hi.coordinator.served _ st hst) hp (hi.sound ht) ha hsucc).1 (fun i w hw => ?_)
      obtain ⟨st', hst', hw'⟩ := getShard_some.1 (hk task.1 i w (getShard_some.2 ⟨st, hst, hw⟩))
      rw [step_complete hst hs, Function.update_self] at hst'
      obtain rfl := Option.some.inj hst'
      exact hw'

theorem RequestMove.tracker_of_recovered {g : BipartiteGraph} {st st' : RequestState} (h : RequestInv g st)
    (hm : RequestMove g st st') (hs : st'.snapshot.status = .recovered) : st'.tracker = st.tracker := by
  by_cases ht : isTerminal st.snapshot.status = true
  · obtain ⟨n, -, rfl⟩ := hm.frozen ht
    rfl
  have hp := pending_of_not_terminal ht
  cases hm with
  | arrival shardId payload arrivalTime env =>
    generalize hr : (onShardArrived g st shardId payload arrivalTime env).2 = r
    have harr := onShardArrived_cases g st shardId payload arrivalTime env h.sizes
    rw [hr] at harr
    generalize (onShardArrived g st shardId payload arrivalTime env).1 = st' at hs harr ⊢
    cases harr <;> first | rfl | (simp [withFlags, recordShard, hp] at hs)
  | refused =>
    unfold onSubmitRefused
    split <;> rfl
  | complete result =>
    unfold onRecoveryComplete
    split
    · rfl
    · dsimp only
      split <;> rfl

theorem Serving.step_held {g : BipartiteGraph} {data : Nat → Encoded g} {s s' : Serving} {a : ServingAction}
    (hi : ServingInv data s) (hheld : ArrivalsHeld s) (h : Serving.step data s a = some s') (hk : ShardsKept s s') :
    ArrivalsHeld s' := by
  obtain ⟨b, hs⟩ : ∃ b, CodedLLM.step g s.coordinator b = some s'.coordinator := by
    cases Serving.step_cases h with
    | coordinator a c _ hs => exact ⟨a, hs⟩
    | answer task result c _ _ hs => exact ⟨_, hs⟩
  have hi' := Serving.step_inv s a s' hi h
  intro r st i hst harr
  have hinv := hi'.coordinator.lifecycle.request r st hst
  by_cases hrec : st.snapshot.status = .recovered
  · rcases step_request hs r with he | ⟨-, st', hmake, he⟩ | ⟨st₀, st', hst₀, he, hmove⟩
    · exact hheld r st i (he ▸ hst) harr
    · rw [he] at hst
      obtain rfl := Option.some.inj hst
      unfold RequestState.make at hmake
      split at hmake
      · cases hmake
      · obtain rfl := Except.ok.inj hmake
        cases hrec
    · rw [he] at hst
      obtain rfl := Option.some.inj hst
      rw [hmove.tracker_of_recovered (hi.coordinator.lifecycle.request r st₀ hst₀) hrec] at harr
      obtain ⟨w, hw⟩ := hheld r st₀ i hst₀ harr
      obtain ⟨st'', hst'', hw'⟩ := getShard_some.1 (hk r i w (getShard_some.2 ⟨st₀, hst₀, slotAt_eq_some.2 hw⟩))
      rw [he] at hst''
      obtain rfl := Option.some.inj hst''
      exact ⟨w, slotAt_eq_some.1 hw'⟩
  · unfold ShardArrivalTracker.hasArrived at harr
    split at harr
    · cases harr
    · have harr' := Except.ok.inj harr
      rw [hinv.agree hrec] at harr'
      obtain ⟨w, hw⟩ := Option.isSome_iff_exists.1 harr'
      exact ⟨w, slotAt_eq_some.1 hw⟩

theorem Serving.run_kept {g : BipartiteGraph} {data : Nat → Encoded g} :
    ∀ (actions : List ServingAction) (s s' : Serving),
    ServingInv data s → Along (Serving.step data) (SnapshotCurrent g) s actions →
    run (Serving.step data) s actions = some s' → ShardsKept s s'
  | [], s, s', _, _, h => by
    obtain rfl := Option.some.inj h
    exact fun _ _ _ hw => hw
  | a :: actions, s, s', hi, hP, h => by
    obtain ⟨s₁, hs, hr⟩ := (run_cons s a actions s').1 h
    have hk := (Serving.step_kept_iff hi hs).1 hP.1
    have hk' := Serving.run_kept actions s₁ s' (Serving.step_inv s a s₁ hi hs) (hP.2 s₁ hs) hr
    exact fun r i w hw => hk' r i w (hk r i w hw)

/-- **An accepted shard is never lost exactly in the runs whose completions come with a current snapshot**: between
any two states of the run `GetShard` keeps what it returned, and every shard the tracker has seen is in its slot. -/
theorem shards_kept_iff {g : BipartiteGraph} (data : Nat → Encoded g) (actions : List ServingAction) (s : Serving)
    (h : run (Serving.step data) Serving.init actions = some s) :
    Along (Serving.step data) (SnapshotCurrent g) Serving.init actions ↔
      ∀ pre mid post, actions = pre ++ mid ++ post → ∀ s₁ s₂, run (Serving.step data) Serving.init pre = some s₁ →
        run (Serving.step data) s₁ mid = some s₂ → ShardsKept s₁ s₂ ∧ ArrivalsHeld s₂ := by
  have hreach := fun as u hu => run_inv Serving.step_inv as _ u (ServingInv.init data) hu
  constructor
  · intro hP pre mid post he s₁ s₂ h₁ h₂
    have hstep := (along_iff actions Serving.init).1 hP
    have hmid : Along (Serving.step data) (SnapshotCurrent g) s₁ mid := by
      refine (along_iff mid s₁).2 (fun pre' a post' hs u hu => ?_)
      refine hstep (pre ++ pre') a (post' ++ post) (by rw [he, hs]; simp) u ?_
      exact (run_append pre pre' _ u).2 ⟨s₁, h₁, hu⟩
    refine ⟨Serving.run_kept mid s₁ s₂ (hreach pre s₁ h₁) hmid h₂, ?_⟩
    -- along the run both the invariant and the held arrivals are kept
    have hboth : ServingInv data s₂ ∧ ArrivalsHeld s₂ := by
      refine run_inv_along (I := fun u => ServingInv data u ∧ ArrivalsHeld u) (P := SnapshotCurrent g)
        (fun u a u' hu hPa hs => ?_) (pre ++ mid) Serving.init s₂
        ⟨.init data, fun _ _ _ hst => by cases hst⟩ ?_ ((run_append pre mid _ s₂).2 ⟨s₁, h₁, h₂⟩)
      · exact ⟨Serving.step_inv u a u' hu.1 hs, Serving.step_held hu.1 hu.2 hs ((Serving.step_kept_iff hu.1 hs).1 hPa)⟩
      · refine (along_iff _ _).2 (fun pre' a post' hs u hu => ?_)
        exact hstep pre' a (post' ++ post) (by rw [he, hs]; simp) u hu
    exact hboth.2
  · intro hkept
    refine (along_iff actions Serving.init).2 (fun pre a post he u hu => ?_)
    rw [he, run_append] at h
    obtain ⟨u₀, hu₀, hr⟩ := h
    rw [hu] at hu₀
    obtain rfl := Option.some.inj hu₀
    obtain ⟨u', hs, -⟩ := (run_cons u a post s).1 hr
    refine (Serving.step_kept_iff (hreach pre u hu) hs).2 ?_
    exact (hkept pre [a] post (by rw [he]; simp) u u' hu ((run_cons u a [] u').2 ⟨u', hs, rfl⟩)).1

theorem shards_kept_iff_servedRun : ∃ s, run (Serving.step (fun _ => makeEncoded)) Serving.init servedRun = some s ∧
    (Along (Serving.step (fun _ => makeEncoded)) (SnapshotCurrent makeGraph) Serving.init servedRun ↔
      ∀ pre mid post, servedRun = pre ++ mid ++ post → ∀ s₁ s₂,
        run (Serving.step (fun _ => makeEncoded)) Serving.init pre = some s₁ →
        run (Serving.step (fun _ => makeEncoded)) s₁ mid = some s₂ → ShardsKept s₁ s₂ ∧ ArrivalsHeld s₂) := by
  have hrun : (run (Serving.step (fun _ => makeEncoded)) Serving.init servedRun).isSome = true := by decide +kernel
  obtain ⟨s, hs⟩ := Option.isSome_iff_exists.1 hrun
  exact ⟨s, hs, shards_kept_iff (fun _ => makeEncoded) servedRun s hs⟩

def makeThreeEncoded : Encoded makeThreeDataTwoParityGraph :=
  ⟨makeThreeDataTwoParityCodeGraph, ⟨rfl, rfl, .refl _⟩, [[1], [2], [4]], 1, ⟨rfl, by decide, by decide⟩, [[3], [6]],
    by decide⟩

/-- Shards 0, 2 and the parity 3 arrive, the recovery of shard 1 is accepted, and then the parity 4 arrives. -/
def lateParityRun : List ServingAction :=
  [.coordinator .attachTransport, .coordinator (.startRequest 7 true none),
    .coordinator (.arrive 0 7 0 [1] 10 ⟨none, 1, some 5, .ok 100⟩),
    .coordinator (.arrive 0 7 2 [4] 20 ⟨none, 1, some 5, .ok 100⟩),
    .coordinator (.arrive 1 7 3 [3] 30 ⟨none, 1, some 5, .ok 100⟩), .coordinator (.submit 1 .accepts),
    .coordinator (.arrive 2 7 4 [6] 40 ⟨none, 1, some 5, .ok 100⟩)]

def lateParityAnswer : ServingAction :=
  .answer (7, ⟨[⟨1, [3, 0]⟩], [[]], true⟩, [some [1], none, some [4], some [3], none])
    ⟨true, [some [1], some [2], some [4], some [3], none], .zero, ""⟩

/-- **A parity accepted while a recovery runs is lost** when that recovery completes: the slot is empty again although
the tracker has seen the shard. -/
theorem parity_lost_on_completion :
    (run (Serving.step (fun _ => makeThreeEncoded)) Serving.init lateParityRun).map
        (fun s => s.coordinator.getShard 7 4) = some (.ok (some [6])) ∧
      (run (Serving.step (fun _ => makeThreeEncoded)) Serving.init (lateParityRun ++ [lateParityAnswer])).map
        (fun s => s.coordinator.getShard 7 4) = some (.ok none) ∧
      (run (Serving.step (fun _ => makeThreeEncoded)) Serving.init (lateParityRun ++ [lateParityAnswer])).bind
        (fun s => (s.coordinator.requests 7).map (fun st => st.tracker.hasArrived 4)) = some (.ok true) := by
  decide +kernel

end CodedLLM
