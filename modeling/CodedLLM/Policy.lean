import CodedLLM.Planner
/-!
# Policy — the arrival tracker and the recovery policy

`ShardArrivalTracker` records the earliest arrival of each shard; `RecoveryPolicy` plans over what has arrived and
compares the executor's quote with the expected wait.  Time points and durations are integers (microseconds).
-/
namespace CodedLLM

structure ShardArrivalTracker where
  systematicShardCount : Nat
  parityShardCount : Nat
  arrivals : List (Option Int)
  deriving DecidableEq, Repr

/-- The constructor; the counts are `std::size_t` and their sum is taken in 64 bits. -/
def ShardArrivalTracker.make (systematicShardCount parityShardCount : Nat) : Except Exn ShardArrivalTracker :=
  if systematicShardCount = 0 ∨ parityShardCount = 0 then
    .error (.invalidArgument "ShardArrivalTracker requires non-zero shard counts")
  else if shardIdMax < systematicShardCount ∨ shardIdMax < parityShardCount ∨
      shardIdMax + 1 < (systematicShardCount + parityShardCount) % 2 ^ 64 then
    .error (.invalidArgument "ShardArrivalTracker shard IDs overflow ShardId")
  else .ok ⟨systematicShardCount, parityShardCount,
    List.replicate ((systematicShardCount + parityShardCount) % 2 ^ 64) none⟩

def ShardArrivalTracker.markArrived (t : ShardArrivalTracker) (id : Nat) (now : Int) : Except Exn ShardArrivalTracker :=
  match t.arrivals[id]? with
  | none => .error (.invalidArgument "Arrived shard ID is out of bounds")
  | some none => .ok { t with arrivals := t.arrivals.set id (some now) }
  | some (some recorded) => if now < recorded then .ok { t with arrivals := t.arrivals.set id (some now) } else .ok t

/-- `arrivals_.at(id).has_value()`. -/
def ShardArrivalTracker.arrived (t : ShardArrivalTracker) (id : Nat) : Bool := t.arrivals[id]?.join.isSome

def ShardArrivalTracker.isSystematicComplete (t : ShardArrivalTracker) : Bool :=
  (List.range t.systematicShardCount).all t.arrived

def ShardArrivalTracker.getMissingSystematic (t : ShardArrivalTracker) : Finset Nat :=
  ((List.range t.systematicShardCount).filter (fun id => !t.arrived id)).toFinset

def ShardArrivalTracker.hasArrived (t : ShardArrivalTracker) (id : Nat) : Except Exn Bool :=
  if t.arrivals.length ≤ id then .error (.invalidArgument "Shard ID is out of bounds") else .ok (t.arrived id)

def availableParity (t : ShardArrivalTracker) : List (Nat × List Nat) → Except Exn (Finset Nat)
  | [] => .ok ∅
  | (parity, _) :: rest =>
    match t.hasArrived parity with
    | .error e => .error e
    | .ok here =>
      match availableParity t rest with
      | .error e => .error e
      | .ok available => .ok (if here then insert parity available else available)

inductive PolicyDecision where
  | wait
  | recover
  | unrecoverable
  deriving DecidableEq, Repr

structure CostEstimates where
  expectedWaitRemaining : Int
  expectedRecoveryCost : Int
  deriving DecidableEq, Repr

namespace RecoveryPolicy

def createPlan (g : BipartiteGraph) (tracker : ShardArrivalTracker) : Except Exn DecodePlan :=
  if tracker.systematicShardCount ≠ g.systematicShardCount ∨ tracker.parityShardCount ≠ g.parityShardCount then
    .error (.invalidArgument "ShardArrivalTracker dimensions do not match the recovery graph")
  else
    match availableParity tracker g.parityToSystematic with
    | .error e => .error e
    | .ok available => CodedLLM.createPlan g tracker.getMissingSystematic available

def evaluatePlan (plan : DecodePlan) (costs : CostEstimates) : PolicyDecision :=
  if plan.isRecoverable = false then .unrecoverable
  else if costs.expectedRecoveryCost < costs.expectedWaitRemaining then .recover
  else .wait

def evaluate (g : BipartiteGraph) (tracker : ShardArrivalTracker) (costs : CostEstimates) :
    Except Exn PolicyDecision :=
  if tracker.isSystematicComplete then .ok .wait
  else
    match createPlan g tracker with
    | .error e => .error e
    | .ok plan => .ok (evaluatePlan plan costs)

end RecoveryPolicy

/-! ## The tracker -/

@[simp] theorem ShardArrivalTracker.arrived_replicate (k m n j : Nat) :
    (⟨k, m, List.replicate n none⟩ : ShardArrivalTracker).arrived j = false := by
  unfold ShardArrivalTracker.arrived
  rw [List.getElem?_replicate]
  split <;> rfl

theorem ShardArrivalTracker.make_ok {k m : Nat} {t : ShardArrivalTracker} (h : ShardArrivalTracker.make k m = .ok t) :
    t = ⟨k, m, List.replicate (k + m) none⟩ := by
  unfold ShardArrivalTracker.make at h
  split at h
  · cases h
  · split at h
    · cases h
    · rename_i h1
      unfold shardIdMax at h1
      rw [Nat.mod_eq_of_lt (by omega)] at h
      exact (Except.ok.inj h).symm

/-- **`MarkArrived` on a shard of the tracker** adds that shard to the arrived ones and changes nothing else. -/
theorem ShardArrivalTracker.markArrived_ok {t : ShardArrivalTracker} {id : Nat} (hid : id < t.arrivals.length)
    (now : Int) : ∃ t', t.markArrived id now = .ok t' ∧ t'.systematicShardCount = t.systematicShardCount ∧
      t'.parityShardCount = t.parityShardCount ∧ t'.arrivals.length = t.arrivals.length ∧
      ∀ j, t'.arrived j = (decide (j = id) || t.arrived j) := by
  have hset : ∀ j, (⟨t.systematicShardCount, t.parityShardCount, t.arrivals.set id (some now)⟩ :
      ShardArrivalTracker).arrived j = (decide (j = id) || t.arrived j) := by
    intro j
    unfold ShardArrivalTracker.arrived
    by_cases hj : j = id
    · subst hj
      simp [hid]
    · simp [hj, Ne.symm hj]
  unfold ShardArrivalTracker.markArrived
  cases hr : t.arrivals[id] with
  | none =>
    rw [List.getElem?_eq_getElem hid, hr]
    exact ⟨_, rfl, rfl, rfl, by simp, hset⟩
  | some recorded =>
    rw [List.getElem?_eq_getElem hid, hr]
    by_cases hlt : now < recorded
    · exact ⟨_, if_pos hlt, rfl, rfl, by simp, hset⟩
    · refine ⟨_, if_neg hlt, rfl, rfl, rfl, fun j => ?_⟩
      by_cases hj : j = id
      · subst hj
        simp [ShardArrivalTracker.arrived, List.getElem?_eq_getElem hid, hr]
      · simp [hj]

theorem ShardArrivalTracker.isSystematicComplete_iff (t : ShardArrivalTracker) :
    t.isSystematicComplete = true ↔ ∀ i < t.systematicShardCount, t.arrived i = true := by
  simp [ShardArrivalTracker.isSystematicComplete]

theorem ShardArrivalTracker.mem_getMissingSystematic (t : ShardArrivalTracker) (i : Nat) :
    i ∈ t.getMissingSystematic ↔ i < t.systematicShardCount ∧ t.arrived i = false := by
  simp [ShardArrivalTracker.getMissingSystematic]

/-- **The parities collected** are the keys of the map that have arrived; the loop throws only on a key out of
bounds. -/
theorem availableParity_ok (t : ShardArrivalTracker) : ∀ (es : List (Nat × List Nat)),
    (∀ e ∈ es, e.1 < t.arrivals.length) →
    ∃ A, availableParity t es = .ok A ∧ ∀ p, p ∈ A ↔ p ∈ es.map Prod.fst ∧ t.arrived p = true
  | [], _ => ⟨∅, rfl, by simp⟩
  | (p, ns) :: es, h => by
    obtain ⟨A, hA, hmem⟩ := availableParity_ok t es (fun e he => h e (by simp [he]))
    have hp : p < t.arrivals.length := h (p, ns) (by simp)
    refine ⟨if t.arrived p then insert p A else A, ?_, fun q => ?_⟩
    · simp only [availableParity, ShardArrivalTracker.hasArrived, Nat.not_le.2 hp, if_false, hA]
    · cases hpa : t.arrived p with
      | false =>
        simp only [Bool.false_eq_true, if_false, hmem, List.map_cons, List.mem_cons]
        constructor
        · rintro ⟨hq, ha⟩
          exact ⟨.inr hq, ha⟩
        · rintro ⟨rfl | hq, ha⟩
          · rw [hpa] at ha
            cases ha
          · exact ⟨hq, ha⟩
      | true =>
        simp only [if_true, Finset.mem_insert, hmem, List.map_cons, List.mem_cons]
        constructor
        · rintro (rfl | ⟨hq, ha⟩)
          · exact ⟨.inl rfl, hpa⟩
          · exact ⟨.inr hq, ha⟩
        · rintro ⟨rfl | hq, ha⟩
          · exact .inl rfl
          · exact .inr ⟨hq, ha⟩

structure ShardArrivalTracker.Fits (t : ShardArrivalTracker) (g : BipartiteGraph) : Prop where
  systematic : t.systematicShardCount = g.systematicShardCount
  parity : t.parityShardCount = g.parityShardCount
  length : t.arrivals.length = g.systematicShardCount + g.parityShardCount

theorem RecoveryPolicy.createPlan_ok {g : BipartiteGraph} {t : ShardArrivalTracker} {plan : DecodePlan}
    (h : RecoveryPolicy.createPlan g t = .ok plan) :
    ∃ available, availableParity t g.parityToSystematic = .ok available ∧
      CodedLLM.createPlan g t.getMissingSystematic available = .ok plan := by
  unfold RecoveryPolicy.createPlan at h
  split at h
  · cases h
  split at h
  · cases h
  · rename_i available hav
    exact ⟨available, hav, h⟩

theorem RecoveryPolicy.evaluate_planned {g : BipartiteGraph} {t : ShardArrivalTracker} {plan : DecodePlan}
    (h : RecoveryPolicy.createPlan g t = .ok plan) (hincomplete : t.isSystematicComplete = false)
    (costs : CostEstimates) :
    RecoveryPolicy.evaluate g t costs = .ok (RecoveryPolicy.evaluatePlan plan costs) := by
  unfold RecoveryPolicy.evaluate
  rw [hincomplete, h]
  rfl

theorem RecoveryPolicy.evaluatePlan_eq_recover {plan : DecodePlan} {costs : CostEstimates} :
    RecoveryPolicy.evaluatePlan plan costs = .recover ↔
      plan.isRecoverable = true ∧ costs.expectedRecoveryCost < costs.expectedWaitRemaining := by
  unfold RecoveryPolicy.evaluatePlan
  cases plan.isRecoverable <;> simp

/-- **The policy always has a plan** for a tracker that fits. -/
theorem RecoveryPolicy.createPlan_accepts {g : BipartiteGraph} (hg : g.Valid) {t : ShardArrivalTracker}
    (ht : t.Fits g) : ∃ plan, RecoveryPolicy.createPlan g t = .ok plan := by
  have hkeys : ∀ p ∈ g.parityToSystematic.map Prod.fst,
      g.systematicShardCount ≤ p ∧ p < g.systematicShardCount + g.parityShardCount := by
    intro p hp
    rw [hg.keys, List.mem_range'_1] at hp
    exact hp
  obtain ⟨A, hA, hmem⟩ := availableParity_ok t g.parityToSystematic (fun e he => by
    rw [ht.length]
    exact (hkeys e.1 (List.mem_map_of_mem he)).2)
  unfold RecoveryPolicy.createPlan
  rw [if_neg (by simp [ht.systematic, ht.parity]), hA]
  apply CodedLLM.createPlan_accepts hg
  · intro i hi
    rw [← ht.systematic]
    exact ((t.mem_getMissingSystematic i).1 hi).1
  · exact fun p hp => hkeys p ((hmem p).1 hp).1

theorem ShardArrivalTracker.missing_nonempty {t : ShardArrivalTracker} (h : t.isSystematicComplete = false) :
    t.getMissingSystematic.Nonempty := by
  by_contra hempty
  rw [Finset.not_nonempty_iff_eq_empty] at hempty
  rw [Bool.eq_false_iff, ne_eq, t.isSystematicComplete_iff] at h
  apply h
  intro i hi
  by_contra harr
  have hmem := (t.mem_getMissingSystematic i).2 ⟨hi, by simpa using harr⟩
  simp [hempty] at hmem

end CodedLLM
