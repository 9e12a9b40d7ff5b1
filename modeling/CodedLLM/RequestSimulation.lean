import CodedLLM.Batches
import CodedLLM.GraphGenerator
/-!
# RequestSimulation — one request, replayed

`RequestSimulation::Run` sorts the arrivals by time, marks all the arrivals of one instant together, and at each
instant stops when the systematic shards are complete, or asks the policy once more.  Nothing it computes depends on
the order of arrivals at one instant (`markAll_perm`), hence nothing on the order in which they are supplied.
-/
namespace CodedLLM

structure ShardArrivalEvent where
  shardId : Nat
  arrivalTime : Int
  deriving DecidableEq, Repr

structure SimulationMetrics where
  naturalCompletionTime : Int
  recoveryStartTime : Option Int
  recoveryCompletionTime : Option Int
  finalLatency : Int
  recoveryWon : Bool
  deriving DecidableEq, Repr

def markAll (now : Int) (ids : List Nat) (tracker : ShardArrivalTracker) : Outcome ShardArrivalTracker :=
  loopInPlace (fun tracker id =>
    match tracker.markArrived id now with
    | .error e => .throws tracker e
    | .ok tracker => .returns tracker) ids tracker

namespace RequestSimulation

structure Progress where
  naturalCompletionTime : Option Int
  recoveryStartTime : Option Int
  recoveryCompletionTime : Option Int
  deriving DecidableEq, Repr

/-- What the policy decides at an instant that leaves the request incomplete, unless a recovery is under way. -/
def considerRecovery (g : BipartiteGraph) (getCosts : Int → Except Exn CostEstimates) (now : Int)
    (tracker : ShardArrivalTracker) (p : Progress) : Except Exn Progress :=
  if p.recoveryStartTime.isSome then .ok p
  else
    match getCosts now with
    | .error e => .error e
    | .ok costs =>
      match RecoveryPolicy.evaluate g tracker costs with
      | .error e => .error e
      | .ok .recover =>
        if costs.expectedRecoveryCost < 0 then
          .error (.invalidArgument "Expected recovery cost must not be negative")
        else .ok
          { p with
            recoveryStartTime := some now
            recoveryCompletionTime := some (now + costs.expectedRecoveryCost) }
      | .ok _ => .ok p

def instants (g : BipartiteGraph) (getCosts : Int → Except Exn CostEstimates) :
    List (Int × List ShardArrivalEvent) → ShardArrivalTracker → Progress → Except Exn Progress
  | [], _, p => .ok p
  | (now, batch) :: rest, tracker, p =>
    if now < 0 then .error (.invalidArgument "Shard arrival times must not be negative")
    else
      match markAll now (batch.map ShardArrivalEvent.shardId) tracker with
      | .throws _ e => .error e
      | .returns tracker =>
        if tracker.isSystematicComplete then .ok { p with naturalCompletionTime := some now }
        else
          match considerRecovery g getCosts now tracker p with
          | .error e => .error e
          | .ok p => instants g getCosts rest tracker p

def metrics (p : Progress) : Except Exn SimulationMetrics :=
  match p.naturalCompletionTime with
  | none => .error (.runtimeError "Simulation requires a natural arrival for every systematic shard")
  | some natural =>
    match p.recoveryCompletionTime with
    | some recovery =>
      if recovery < natural then .ok ⟨natural, p.recoveryStartTime, some recovery, recovery, true⟩
      else .ok ⟨natural, p.recoveryStartTime, some recovery, natural, false⟩
    | none => .ok ⟨natural, p.recoveryStartTime, none, natural, false⟩

/-- `std::stable_sort` by arrival time. -/
def ordered (events : List ShardArrivalEvent) : List ShardArrivalEvent :=
  events.insertionSort (fun a b => a.arrivalTime ≤ b.arrivalTime)

def run (g : BipartiteGraph) (events : List ShardArrivalEvent) (getCosts : Option (Int → Except Exn CostEstimates)) :
    Except Exn SimulationMetrics :=
  match createPlanAll g ∅ with
  | .error e => .error e
  | .ok _ =>
    match getCosts with
    | none => .error (.invalidArgument "RequestSimulation requires a cost oracle")
    | some getCosts =>
      match ShardArrivalTracker.make g.systematicShardCount g.parityShardCount with
      | .error e => .error e
      | .ok tracker =>
        match instants g getCosts (Batches.group ShardArrivalEvent.arrivalTime (ordered events)) tracker
          ⟨none, none, none⟩ with
        | .error e => .error e
        | .ok p => metrics p

end RequestSimulation

/-! ## Marking -/

def stamp (now : Int) : Option Int → Option Int
  | none => some now
  | some recorded => some (min now recorded)

/-- **`MarkArrived` stamps the shard**, or throws when the id is out of bounds. -/
theorem ShardArrivalTracker.markArrived_eq (t : ShardArrivalTracker) (id : Nat) (now : Int) :
    t.markArrived id now =
      if id < t.arrivals.length then .ok { t with arrivals := t.arrivals.modify id (stamp now) }
      else .error (.invalidArgument "Arrived shard ID is out of bounds") := by
  unfold ShardArrivalTracker.markArrived
  by_cases hid : id < t.arrivals.length
  · rw [if_pos hid, List.getElem?_eq_getElem hid]
    have hmod : ∀ v, t.arrivals.get ⟨id, hid⟩ = v →
        t.arrivals.modify id (stamp now) = t.arrivals.set id (stamp now v) := by
      rintro v rfl
      rw [List.modify_eq_set_getElem?, List.getElem?_eq_getElem hid]
      rfl
    cases hv : t.arrivals.get ⟨id, hid⟩ with
    | none =>
      rw [hmod none hv]
      simp only [List.get_eq_getElem] at hv
      rw [hv]
      rfl
    | some recorded =>
      rw [hmod _ hv]
      simp only [List.get_eq_getElem] at hv
      rw [hv]
      simp only [stamp]
      by_cases hlt : now < recorded
      · rw [if_pos hlt, min_eq_left hlt.le]
      · rw [if_neg hlt, min_eq_right (not_lt.1 hlt), ← hv, List.set_getElem_self]
  · rw [if_neg hid, List.getElem?_eq_none (not_lt.1 hid)]

def stampAll (now : Int) (ids : List Nat) (arrivals : List (Option Int)) : List (Option Int) :=
  ids.foldl (fun arrivals id => arrivals.modify id (stamp now)) arrivals

@[simp] theorem length_stampAll (now : Int) : ∀ (ids : List Nat) (arrivals : List (Option Int)),
    (stampAll now ids arrivals).length = arrivals.length
  | [], _ => rfl
  | id :: ids, arrivals => by
    rw [stampAll, List.foldl_cons, ← stampAll, length_stampAll now ids, List.length_modify]

theorem stampAll_perm (now : Int) {ids ids' : List Nat} (h : ids.Perm ids') (arrivals : List (Option Int)) :
    stampAll now ids arrivals = stampAll now ids' arrivals := by
  unfold stampAll
  refine List.Perm.foldl_eq' h (fun a _ b _ l => ?_) arrivals
  by_cases hab : a = b
  · rw [hab]
  · apply List.ext_getElem?
    intro i
    simp only [List.getElem?_modify]
    by_cases ha : a = i <;> by_cases hb : b = i <;> simp [ha, hb]

theorem markAll_cases (now : Int) : ∀ (ids : List Nat) (t : ShardArrivalTracker),
    ((∀ id ∈ ids, id < t.arrivals.length) ∧
      markAll now ids t = .returns { t with arrivals := stampAll now ids t.arrivals }) ∨
    (¬ (∀ id ∈ ids, id < t.arrivals.length) ∧
      ∃ s, markAll now ids t = .throws s (.invalidArgument "Arrived shard ID is out of bounds"))
  | [], t => .inl ⟨by simp, rfl⟩
  | id :: ids, t => by
    by_cases hid : id < t.arrivals.length
    · have hstep :
          markAll now (id :: ids) t = markAll now ids { t with arrivals := t.arrivals.modify id (stamp now) } := by
        unfold markAll
        rw [loopInPlace]
        simp only [ShardArrivalTracker.markArrived_eq t id now, if_pos hid]
      rw [hstep]
      have hrest := markAll_cases now ids { t with arrivals := t.arrivals.modify id (stamp now) }
      simp only [List.length_modify] at hrest
      rw [List.forall_mem_cons]
      rcases hrest with ⟨hall, hret⟩ | ⟨hnot, hthrow⟩
      · exact .inl ⟨⟨hid, hall⟩, hret⟩
      · exact .inr ⟨fun h => hnot h.2, hthrow⟩
    · refine .inr ⟨fun h => hid (h id (by simp)), t, ?_⟩
      unfold markAll
      rw [loopInPlace]
      simp only [ShardArrivalTracker.markArrived_eq t id now, if_neg hid]

theorem markAll_returns {now : Int} {ids : List Nat} {t t' : ShardArrivalTracker}
    (h : markAll now ids t = .returns t') :
    (∀ id ∈ ids, id < t.arrivals.length) ∧ t' = { t with arrivals := stampAll now ids t.arrivals } := by
  rcases markAll_cases now ids t with ⟨hall, hret⟩ | ⟨-, s, hthrow⟩
  · rw [hret] at h
    exact ⟨hall, (Outcome.returns.inj h).symm⟩
  · rw [hthrow] at h
    cases h

/-- **Marking does not depend on the order of the ids.** -/
theorem markAll_perm (now : Int) {ids ids' : List Nat} (h : ids.Perm ids') (t : ShardArrivalTracker) :
    (∃ t', markAll now ids t = .returns t' ∧ markAll now ids' t = .returns t') ∨
      ∃ s s' e, markAll now ids t = .throws s e ∧ markAll now ids' t = .throws s' e := by
  have hiff : (∀ id ∈ ids, id < t.arrivals.length) ↔ ∀ id ∈ ids', id < t.arrivals.length :=
    forall_congr' fun id => by rw [h.mem_iff]
  rcases markAll_cases now ids t with ⟨hall, hret⟩ | ⟨hnot, s, hthrow⟩ <;>
    rcases markAll_cases now ids' t with ⟨hall', hret'⟩ | ⟨hnot', s', hthrow'⟩
  · rw [stampAll_perm now h] at hret
    exact .inl ⟨_, hret, hret'⟩
  · exact absurd (hiff.1 hall) hnot'
  · exact absurd (hiff.2 hall') hnot
  · exact .inr ⟨s, s', _, hthrow, hthrow'⟩

theorem isSome_stamp (now : Int) (v : Option Int) : (stamp now v).isSome = true := by
  cases v <;> rfl

theorem arrived_stampAll {k m : Nat} {now : Int} {j : Nat} : ∀ (ids : List Nat) (arrivals : List (Option Int)),
    (∀ id ∈ ids, id < arrivals.length) →
    (⟨k, m, stampAll now ids arrivals⟩ : ShardArrivalTracker).arrived j =
      (decide (j ∈ ids) || (⟨k, m, arrivals⟩ : ShardArrivalTracker).arrived j)
  | [], arrivals, _ => by simp [stampAll]
  | id :: ids, arrivals, h => by
    have hid : id < arrivals.length := h id (by simp)
    have hone : (⟨k, m, arrivals.modify id (stamp now)⟩ : ShardArrivalTracker).arrived j =
        (decide (j = id) || (⟨k, m, arrivals⟩ : ShardArrivalTracker).arrived j) := by
      unfold ShardArrivalTracker.arrived
      rw [List.getElem?_modify]
      by_cases hj : id = j
      · subst hj
        simp [List.getElem?_eq_getElem hid, isSome_stamp]
      · simp [hj, Ne.symm hj]
    rw [stampAll, List.foldl_cons, ← stampAll,
      arrived_stampAll ids _ (fun x hx => by rw [List.length_modify]; exact h x (by simp [hx])), hone, ← Bool.or_assoc,
      ← Bool.decide_or]
    congr 1
    rw [decide_eq_decide, List.mem_cons, or_comm]

/-! ## Order -/

namespace RequestSimulation

variable {g : BipartiteGraph} {getCosts : Int → Except Exn CostEstimates}

theorem considerRecovery_started {now : Int} {tracker : ShardArrivalTracker} {p : Progress}
    (h : p.recoveryStartTime.isSome = true) : considerRecovery g getCosts now tracker p = .ok p := if_pos h

theorem considerRecovery_planned {now wait cost : Int} {tracker : ShardArrivalTracker} {p : Progress}
    {plan : DecodePlan}
    (hidle : p.recoveryStartTime.isSome = false) (hplan : RecoveryPolicy.createPlan g tracker = .ok plan)
    (hincomplete : tracker.isSystematicComplete = false) (hcosts : getCosts now = .ok ⟨wait, cost⟩) (hcost : 0 ≤ cost) :
    considerRecovery g getCosts now tracker p = .ok
      (if RecoveryPolicy.evaluatePlan plan ⟨wait, cost⟩ = .recover then
        { p with recoveryStartTime := some now, recoveryCompletionTime := some (now + cost) }
      else p) := by
  unfold considerRecovery
  rw [if_neg (by simp [hidle]), hcosts]
  simp only [RecoveryPolicy.evaluate_planned hplan hincomplete]
  cases RecoveryPolicy.evaluatePlan plan ⟨wait, cost⟩ with
  | recover => simp only [if_neg (not_lt.2 hcost), if_true]
  | wait => rfl
  | unrecoverable => rfl

theorem instants_single {e : ShardArrivalEvent} {now : Int} {t t' : ShardArrivalTracker} {p : Progress}
    (hnonneg : 0 ≤ now) (hmark : t.markArrived e.shardId now = .ok t') (rest : List (Int × List ShardArrivalEvent)) :
    instants g getCosts ((now, [e]) :: rest) t p =
      if t'.isSystematicComplete then .ok { p with naturalCompletionTime := some now }
      else
        match considerRecovery g getCosts now t' p with
        | .error e => .error e
        | .ok p => instants g getCosts rest t' p := by
  have hall : markAll now [e.shardId] t = .returns t' := by
    unfold markAll loopInPlace
    rw [hmark]
    rfl
  rw [instants, if_neg (not_lt.2 hnonneg), List.map_singleton, hall]

theorem metrics_of_natural {p : Progress} {natural : Int} (h : p.naturalCompletionTime = some natural) :
    ∃ x, metrics p = .ok x ∧ x.recoveryStartTime = p.recoveryStartTime ∧ x.naturalCompletionTime = natural := by
  unfold metrics
  rw [h]
  cases p.recoveryCompletionTime with
  | none => exact ⟨_, rfl, rfl, rfl⟩
  | some recovery =>
    by_cases hlt : recovery < natural
    · simp only [if_pos hlt]
      exact ⟨_, rfl, rfl, rfl⟩
    · simp only [if_neg hlt]
      exact ⟨_, rfl, rfl, rfl⟩

theorem run_of_instants (hg : g.Valid) {events : List ShardArrivalEvent} {p : Progress}
    (h : instants g getCosts (Batches.group ShardArrivalEvent.arrivalTime (ordered events))
      ⟨g.systematicShardCount, g.parityShardCount, List.replicate (g.systematicShardCount + g.parityShardCount) none⟩
      ⟨none, none, none⟩ = .ok p) : run g events (some getCosts) = metrics p := by
  obtain ⟨plan, hplan⟩ := createPlanAll_accepts hg (by simp : ∀ s ∈ (∅ : Finset Nat), s < g.systematicShardCount)
  unfold run
  rw [hplan, ShardArrivalTracker.make_accepts hg.systematicPos hg.parityPos hg.total]
  simp only
  rw [h]

theorem instants_congr {gs gs' : List (Int × List ShardArrivalEvent)}
    (h : List.Forall₂ (fun b b' => b.1 = b'.1 ∧
      (b.2.map ShardArrivalEvent.shardId).Perm (b'.2.map ShardArrivalEvent.shardId))
      gs gs') (tracker : ShardArrivalTracker) (p : Progress) :
    instants g getCosts gs tracker p = instants g getCosts gs' tracker p := by
  induction h generalizing tracker p with
  | nil => rfl
  | @cons b b' gs gs' hb _ ih =>
    obtain ⟨now, batch⟩ := b
    obtain ⟨now', batch'⟩ := b'
    obtain ⟨rfl, hperm⟩ : now = now' ∧ _ := hb
    unfold instants
    split
    · rfl
    rcases markAll_perm now hperm tracker with ⟨t', h1, h2⟩ | ⟨s, s', e, h1, h2⟩
    · rw [h1, h2]
      simp only
      split
      · rfl
      · cases considerRecovery g getCosts now t' p with
        | error e => rfl
        | ok p => exact ih t' p
    · rw [h1, h2]

theorem ordered_perm (events : List ShardArrivalEvent) : (ordered events).Perm events := List.perm_insertionSort _ _

theorem ordered_sorted (events : List ShardArrivalEvent) :
    (ordered events).Pairwise (fun a b => a.arrivalTime ≤ b.arrivalTime) :=
  List.pairwise_insertionSort (fun a b : ShardArrivalEvent => a.arrivalTime ≤ b.arrivalTime) events

/-- **The order in which the arrivals are supplied does not matter.** -/
theorem run_perm {events events' : List ShardArrivalEvent} (h : events.Perm events')
    (getCosts : Option (Int → Except Exn CostEstimates)) : run g events getCosts = run g events' getCosts := by
  have hgroups := Batches.group_perm (ordered_sorted events) (ordered_sorted events')
    ((ordered_perm events).trans (h.trans (ordered_perm events').symm))
  unfold run
  cases createPlanAll g ∅ with
  | error e => rfl
  | ok plan =>
    cases getCosts with
    | none => rfl
    | some getCosts =>
      cases ShardArrivalTracker.make g.systematicShardCount g.parityShardCount with
      | error e => rfl
      | ok tracker =>
        simp only
        rw [instants_congr (hgroups.imp (fun _ _ hb => ⟨hb.1, hb.2.map _⟩))]

end RequestSimulation

end CodedLLM
