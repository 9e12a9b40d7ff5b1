import CodedLLM.Executor
import CodedLLM.Slots
/-!
# RecoveryQueue — the simulated decoders

A bounded queue in front of `concurrency` slots, as the cluster simulator uses it.  Times are microseconds, as
integers: the source's `std::chrono::microseconds` is a signed 64-bit count, and sums that leave 64 bits are undefined
there.  The estimate of the live executor is a bound for this queue (`expected_cost_le_estimate`), and exact after a
burst on an idle one.
-/
namespace CodedLLM

open Slots (assign start free waves)

/-- A queue carries what its operations keep: it has a slot, the depth counts the outstanding jobs, and no outstanding
job completes later than every slot frees. -/
structure RecoveryQueue where
  slotAvailableTimes : List Int
  maxQueueDepth : Nat
  currentQueueDepth : Nat
  jobCompletionTimes : Multiset Int
  currentTime : Int
  slots_ne_nil : slotAvailableTimes ≠ []
  depth_eq_card : currentQueueDepth = jobCompletionTimes.card
  jobs_le_slots : ∀ job ∈ jobCompletionTimes, ∃ slot ∈ slotAvailableTimes, job ≤ slot

namespace RecoveryQueue

/-- `std::vector<std::chrono::microseconds>::max_size()`. -/
def slotsMaxSize : Nat := 2 ^ 60 - 1

/-- The constructor; the vector is made before its size is looked at. -/
def make (concurrencyLimit maxQueueDepth : Nat) : Except Exn RecoveryQueue :=
  if slotsMaxSize < concurrencyLimit then .error vectorTooLarge
  else if h : concurrencyLimit = 0 then
    .error (.invalidArgument "RecoveryQueue concurrency limit must be non-zero")
  else .ok
    { slotAvailableTimes := List.replicate concurrencyLimit 0
      maxQueueDepth := maxQueueDepth
      currentQueueDepth := 0
      jobCompletionTimes := 0
      currentTime := 0
      slots_ne_nil := by simpa using h
      depth_eq_card := rfl
      jobs_le_slots := by simp }

def validateServiceTime (serviceTime : Int) : Except Exn Unit :=
  if serviceTime ≤ 0 then .error (.invalidArgument "RecoveryQueue service time must be positive") else .ok ()

/-- `AdvanceTime`; the jobs up to `now` leave, and the depth drops by their number. -/
def advanceTime (q : RecoveryQueue) (now : Int) : Except Exn RecoveryQueue :=
  if now < q.currentTime then .error (.invalidArgument "RecoveryQueue time must be monotonic")
  else .ok
    { q with
      jobCompletionTimes := q.jobCompletionTimes.filter (now < ·)
      currentQueueDepth := q.currentQueueDepth - q.jobCompletionTimes.countP (· ≤ now)
      currentTime := now
      depth_eq_card := by
        have hcard := Multiset.card_eq_countP_add_countP (· ≤ now) q.jobCompletionTimes
        simp only [not_le] at hcard
        rw [q.depth_eq_card, hcard, Nat.add_sub_cancel_left, Multiset.countP_eq_card_filter]
      jobs_le_slots := fun job hjob => q.jobs_le_slots job (Multiset.mem_of_mem_filter hjob) }

def getExpectedRecoveryCost (q : RecoveryQueue) (now serviceTime : Int) : Except Exn (Option Int) :=
  if now < q.currentTime then .error (.invalidArgument "RecoveryQueue time must be monotonic")
  else
    match validateServiceTime serviceTime with
    | .error e => .error e
    | .ok () =>
      if q.maxQueueDepth ≤ q.currentQueueDepth then .ok none
      else .ok (some (start now q.slotAvailableTimes q.slots_ne_nil - now + serviceTime))

def push (q : RecoveryQueue) (now serviceTime : Int) (hpos : 0 < serviceTime) : RecoveryQueue :=
  { q with
    slotAvailableTimes := assign q.slotAvailableTimes q.slots_ne_nil
      (start now q.slotAvailableTimes q.slots_ne_nil + serviceTime)
    jobCompletionTimes := (start now q.slotAvailableTimes q.slots_ne_nil + serviceTime) ::ₘ q.jobCompletionTimes
    currentQueueDepth := q.currentQueueDepth + 1
    slots_ne_nil := Slots.assign_ne_nil _ _
    depth_eq_card := by rw [Multiset.card_cons, q.depth_eq_card]
    jobs_le_slots := by
      intro job hjob
      have hself := Slots.self_mem_assign q.slots_ne_nil (start now q.slotAvailableTimes q.slots_ne_nil + serviceTime)
      rcases Multiset.mem_cons.1 hjob with rfl | hjob
      · exact ⟨_, hself, le_rfl⟩
      · obtain ⟨slot, hslot, hle⟩ := q.jobs_le_slots job hjob
        rcases Slots.mem_assign_of_mem q.slots_ne_nil hslot with rfl | hkept
        · have hmin := Slots.min_le_start now q.slotAvailableTimes q.slots_ne_nil
          exact ⟨_, hself, by omega⟩
        · exact ⟨slot, hkept, hle⟩ }

@[simp] theorem push_slots (q : RecoveryQueue) (now serviceTime : Int) (hpos : 0 < serviceTime) :
    (q.push now serviceTime hpos).slotAvailableTimes = assign q.slotAvailableTimes q.slots_ne_nil
      (start now q.slotAvailableTimes q.slots_ne_nil + serviceTime) := rfl

@[simp] theorem push_jobs (q : RecoveryQueue) (now serviceTime : Int) (hpos : 0 < serviceTime) :
    (q.push now serviceTime hpos).jobCompletionTimes =
      (start now q.slotAvailableTimes q.slots_ne_nil + serviceTime) ::ₘ q.jobCompletionTimes := rfl

@[simp] theorem push_depth (q : RecoveryQueue) (now serviceTime : Int) (hpos : 0 < serviceTime) :
    (q.push now serviceTime hpos).currentQueueDepth = q.currentQueueDepth + 1 := rfl

@[simp] theorem push_maxDepth (q : RecoveryQueue) (now serviceTime : Int) (hpos : 0 < serviceTime) :
    (q.push now serviceTime hpos).maxQueueDepth = q.maxQueueDepth := rfl

@[simp] theorem push_time (q : RecoveryQueue) (now serviceTime : Int) (hpos : 0 < serviceTime) :
    (q.push now serviceTime hpos).currentTime = q.currentTime := rfl

/-- `SubmitJob`, with its answer; it throws before it changes anything. -/
def submitJob (q : RecoveryQueue) (now serviceTime : Int) : Except Exn (RecoveryQueue × Bool) :=
  if now < q.currentTime then .error (.invalidArgument "RecoveryQueue time must be monotonic")
  else if hpos : serviceTime ≤ 0 then .error (.invalidArgument "RecoveryQueue service time must be positive")
  else if q.maxQueueDepth ≤ q.currentQueueDepth then .ok (q, false)
  else .ok (q.push now serviceTime (Int.not_le.1 hpos), true)

/-! ## The operations, read back -/

theorem make_ok {c d : Nat} {q : RecoveryQueue} (h : make c d = .ok q) :
    0 < c ∧ q.slotAvailableTimes = List.replicate c 0 ∧ q.maxQueueDepth = d ∧ q.jobCompletionTimes = 0 ∧
      q.currentTime = 0 := by
  unfold make at h
  split at h
  · cases h
  split at h
  · cases h
  · rename_i hc
    obtain rfl := (Except.ok.inj h).symm
    exact ⟨Nat.pos_of_ne_zero hc, rfl, rfl, rfl, rfl⟩

theorem make_accepts {c : Nat} (hc : 1 ≤ c) (hmax : c ≤ slotsMaxSize) (d : Nat) : ∃ q, make c d = .ok q := by
  unfold make
  rw [if_neg (Nat.not_lt.2 hmax), dif_neg (by omega)]
  exact ⟨_, rfl⟩

theorem advanceTime_ok {q q' : RecoveryQueue} {now : Int} (h : q.advanceTime now = .ok q') :
    q.currentTime ≤ now ∧ q'.currentTime = now ∧ q'.slotAvailableTimes = q.slotAvailableTimes ∧
      q'.maxQueueDepth = q.maxQueueDepth ∧ q'.jobCompletionTimes = q.jobCompletionTimes.filter (now < ·) := by
  unfold advanceTime at h
  split at h
  · cases h
  · rename_i hlt
    obtain rfl := (Except.ok.inj h).symm
    exact ⟨not_lt.1 hlt, rfl, rfl, rfl, rfl⟩

theorem advanceTime_accepts {q : RecoveryQueue} {now : Int} (h : q.currentTime ≤ now) :
    ∃ q', q.advanceTime now = .ok q' := by
  unfold advanceTime
  rw [if_neg (not_lt.2 h)]
  exact ⟨_, rfl⟩

theorem getExpectedRecoveryCost_eq {q : RecoveryQueue} {now serviceTime : Int} (h : q.currentTime ≤ now)
    (hpos : 0 < serviceTime) :
    q.getExpectedRecoveryCost now serviceTime =
      if q.maxQueueDepth ≤ q.currentQueueDepth then .ok none
      else .ok (some (start now q.slotAvailableTimes q.slots_ne_nil - now + serviceTime)) := by
  unfold getExpectedRecoveryCost validateServiceTime
  rw [if_neg (not_lt.2 h), if_neg (not_le.2 hpos)]

theorem getExpectedRecoveryCost_some {q : RecoveryQueue} {now serviceTime cost : Int}
    (h : q.getExpectedRecoveryCost now serviceTime = .ok (some cost)) :
    q.currentTime ≤ now ∧ 0 < serviceTime ∧ q.currentQueueDepth < q.maxQueueDepth ∧
      cost = start now q.slotAvailableTimes q.slots_ne_nil - now + serviceTime := by
  unfold getExpectedRecoveryCost validateServiceTime at h
  split at h
  · cases h
  rename_i hlt
  split at h
  · cases h
  rename_i hv
  split at hv
  · cases hv
  rename_i hpos
  split at h
  · cases h
  rename_i hdepth
  simp only [Except.ok.injEq, Option.some.injEq] at h
  exact ⟨not_lt.1 hlt, not_le.1 hpos, not_le.1 hdepth, h.symm⟩

theorem submitJob_ok {q q' : RecoveryQueue} {now serviceTime : Int} {accepted : Bool}
    (h : q.submitJob now serviceTime = .ok (q', accepted)) :
    (q' = q ∧ accepted = false ∧ q.maxQueueDepth ≤ q.currentQueueDepth) ∨
      ∃ hpos : 0 < serviceTime, q' = q.push now serviceTime hpos ∧ accepted = true := by
  unfold submitJob at h
  split at h
  · cases h
  split at h
  · cases h
  rename_i hpos
  split at h
  · rename_i hfull
    simp only [Except.ok.injEq, Prod.mk.injEq] at h
    exact .inl ⟨h.1.symm, h.2.symm, hfull⟩
  · simp only [Except.ok.injEq, Prod.mk.injEq] at h
    exact .inr ⟨not_le.1 hpos, h.1.symm, h.2.symm⟩

/-! ## Jobs of one service time -/

def submitAt (serviceTime : Int) (q : RecoveryQueue) (now : Int) : Except Exn RecoveryQueue :=
  match q.advanceTime now with
  | .error e => .error e
  | .ok q =>
    match q.submitJob now serviceTime with
    | .error e => .error e
    | .ok (q, _) => .ok q

theorem submitAt_ok {S : Int} {q q' : RecoveryQueue} {now : Int} (h : submitAt S q now = .ok q') :
    ∃ q₁, q.advanceTime now = .ok q₁ ∧
      ((q' = q₁ ∧ q₁.maxQueueDepth ≤ q₁.currentQueueDepth) ∨ ∃ hpos : 0 < S, q' = q₁.push now S hpos) := by
  unfold submitAt at h
  split at h
  · cases h
  rename_i q₁ hadv
  split at h
  · cases h
  rename_i q₂ accepted hsub
  obtain rfl := Except.ok.inj h
  refine ⟨q₁, hadv, ?_⟩
  rcases submitJob_ok hsub with ⟨rfl, -, hfull⟩ | ⟨hpos, rfl, -⟩
  · exact .inl ⟨rfl, hfull⟩
  · exact .inr ⟨hpos, rfl⟩

/-- **Every slot frees after the jobs it still has**, at every time from the clock on: the outstanding jobs are the
waves of the slots. -/
structure Loaded (S : Int) (c : Nat) (q : RecoveryQueue) : Prop where
  slots : q.slotAvailableTimes.length = c
  jobs : ∀ t, q.currentTime ≤ t →
    (q.jobCompletionTimes.filter (t < ·)).card = (q.slotAvailableTimes.map (waves S t)).sum

variable {S : Int} (hS : 0 < S) {c : Nat} {q q' : RecoveryQueue} {now : Int}

include hS

theorem Loaded.make {d : Nat} (h : RecoveryQueue.make c d = .ok q) : Loaded S c q := by
  obtain ⟨-, hslots, -, hjobs, htime⟩ := make_ok h
  refine ⟨by rw [hslots, List.length_replicate], fun t ht => ?_⟩
  rw [htime] at ht
  rw [hjobs, hslots, List.map_replicate, (Slots.waves_eq_zero_iff hS 0).2 ht]
  simp

omit hS in
theorem Loaded.advance (hl : Loaded S c q) (h : q.advanceTime now = .ok q') : Loaded S c q' := by
  obtain ⟨hle, htime, hslots, -, hjobs⟩ := advanceTime_ok h
  refine ⟨by rw [hslots]; exact hl.slots, fun t ht => ?_⟩
  rw [htime] at ht
  rw [hslots, hjobs, Multiset.filter_filter, ← hl.jobs t (hle.trans ht)]
  congr 1
  refine Multiset.filter_congr (fun x _ => ?_)
  exact ⟨fun h => h.1, fun h => ⟨h, lt_of_le_of_lt ht h⟩⟩

theorem Loaded.push (hl : Loaded S c q) (htime : q.currentTime = now) : Loaded S c (q.push now S hS) := by
  refine ⟨(Slots.length_assign ..).trans hl.slots, fun t ht => ?_⟩
  have hnow : now ≤ t := htime ▸ ht
  have hold := hl.jobs t (htime ▸ hnow)
  refine Eq.trans ?_ (Slots.sum_waves_assign hS q.slots_ne_nil hnow).symm
  rw [← hold]
  by_cases hc : t < start now q.slotAvailableTimes q.slots_ne_nil + S
  · rw [if_pos hc, push_jobs, Multiset.filter_cons_of_pos _ hc, Multiset.card_cons]
  · rw [if_neg hc, push_jobs, Multiset.filter_cons_of_neg _ hc, add_zero]

theorem Loaded.submitAt (hl : Loaded S c q) (h : RecoveryQueue.submitAt S q now = .ok q') : Loaded S c q' := by
  obtain ⟨q₁, hadv, ⟨rfl, -⟩ | ⟨hpos, rfl⟩⟩ := submitAt_ok h
  · exact hl.advance hadv
  · exact (hl.advance hadv).push hS (advanceTime_ok hadv).2.1

omit hS in
theorem Loaded.depth (hl : Loaded S c q) (h : q.advanceTime now = .ok q') :
    q'.currentQueueDepth = (q'.slotAvailableTimes.map (waves S now)).sum := by
  obtain ⟨-, htime, -, -, hjobs⟩ := advanceTime_ok h
  rw [q'.depth_eq_card, ← (hl.advance h).jobs now (le_of_eq htime), hjobs, Multiset.filter_filter]
  congr 1
  exact Multiset.filter_congr (fun x _ => by simp)

theorem loaded_of_run {d : Nat} {q₀ : RecoveryQueue} (hmake : RecoveryQueue.make c d = .ok q₀) {times : List Int}
    (h : loop (RecoveryQueue.submitAt S) times q₀ = .ok q) : Loaded S c q := by
  refine loop_inv times (fun s t _ s' hs hstep => ?_) q₀ q (Loaded.make hS hmake) h
  exact hs.submitAt hS hstep

/-- **The quote is at most one wave more than the earliest slot's share.** -/
theorem Loaded.cost_le (hl : Loaded S c q) (hc : 0 < c) (h : q.advanceTime now = .ok q') {cost : Int}
    (hcost : q'.getExpectedRecoveryCost now S = .ok (some cost)) :
    cost ≤ S * ((q'.currentQueueDepth / c + 1 : Nat) : Int) := by
  obtain ⟨-, -, -, rfl⟩ := getExpectedRecoveryCost_some hcost
  have hshare := @Slots.length_mul_waves_le S now hS q'.slotAvailableTimes q'.slots_ne_nil
  rw [(hl.advance h).slots, ← hl.depth h, mul_comm] at hshare
  have hwaves := (Nat.le_div_iff_mul_le hc).2 hshare
  have hmin := (Slots.waves_le_iff hS _ _).1 hwaves
  have hnn : (0 : Int) ≤ (q'.currentQueueDepth / c : Nat) * S := mul_nonneg (Int.natCast_nonneg _) hS.le
  have hstart : start now q'.slotAvailableTimes q'.slots_ne_nil ≤ now + (q'.currentQueueDepth / c : Nat) * S :=
    max_le (by omega) hmin
  calc start now q'.slotAvailableTimes q'.slots_ne_nil - now + S
      ≤ (q'.currentQueueDepth / c : Nat) * S + S := by omega
    _ = S * ((q'.currentQueueDepth / c + 1 : Nat) : Int) := by push_cast; ring

structure Burst (S : Int) (c : Nat) (now : Int) (q : RecoveryQueue) : Prop where
  time : q.currentTime = now
  pending : ∀ job ∈ q.jobCompletionTimes, now < job
  level : Slots.Level S now c q.currentQueueDepth q.slotAvailableTimes

theorem Loaded.idle (hl : Loaded S c q) (h : q.advanceTime now = .ok q') (hidle : q'.currentQueueDepth = 0) :
    Burst S c now q' := by
  obtain ⟨-, htime, -, -, hjobs⟩ := advanceTime_ok h
  have hsum := hl.depth h
  rw [hidle] at hsum
  have hfree : ∀ v ∈ q'.slotAvailableTimes, v ≤ now := by
    intro v hv
    apply (Slots.waves_eq_zero_iff hS v).1
    exact List.sum_eq_zero_iff.1 hsum.symm _ (List.mem_map.2 ⟨v, hv, rfl⟩)
  refine ⟨htime, fun job hjob => ?_, ?_⟩
  · rw [hjobs] at hjob
    exact Multiset.of_mem_filter hjob
  · rw [hidle]
    simp [Slots.Level, Slots.free_of_idle hfree, (hl.advance h).slots]

theorem Burst.submitAt (hb : Burst S c now q) (hc : 0 < c) (h : RecoveryQueue.submitAt S q now = .ok q') :
    Burst S c now q' := by
  obtain ⟨q₁, hadv, hcases⟩ := submitAt_ok h
  obtain ⟨-, htime, hslots, -, hjobs⟩ := advanceTime_ok hadv
  -- nothing has completed since the burst began
  have hsame : q₁.jobCompletionTimes = q.jobCompletionTimes := by
    rw [hjobs]
    exact Multiset.filter_eq_self.2 hb.pending
  have hlevel : Slots.Level S now c q₁.currentQueueDepth q₁.slotAvailableTimes := by
    rw [q₁.depth_eq_card, hsame, ← q.depth_eq_card, hslots]
    exact hb.level
  rcases hcases with ⟨rfl, -⟩ | ⟨hpos, rfl⟩
  · exact ⟨htime, hsame ▸ hb.pending, hlevel⟩
  · refine ⟨htime, fun job hjob => ?_, hlevel.assign hS hc q₁.slots_ne_nil⟩
    rw [push_jobs, hsame, Multiset.mem_cons] at hjob
    rcases hjob with rfl | hjob
    · have := Slots.now_le_start now q₁.slotAvailableTimes q₁.slots_ne_nil
      omega
    · exact hb.pending job hjob

theorem Burst.cost_eq (hb : Burst S c now q) (hc : 0 < c) {cost : Int}
    (hcost : q.getExpectedRecoveryCost now S = .ok (some cost)) :
    cost = S * ((q.currentQueueDepth / c + 1 : Nat) : Int) := by
  obtain ⟨-, -, -, rfl⟩ := getExpectedRecoveryCost_some hcost
  rw [hb.level.start_eq hS hc q.slots_ne_nil]
  push_cast
  ring

omit hS in
/-- **The live executor's estimate is a safe bound for the simulated queue**: when jobs of one service time have been
submitted at non-decreasing times, each after `AdvanceTime`, `GetExpectedRecoveryCost` quotes at most `S * (n / c + 1)`
for `n` outstanding jobs, and exactly that after a burst on an idle queue.  An executor with as many workers, that
service cost, room for one more task and `n` outstanding ones estimates this value. -/
theorem expected_cost_le_estimate {d : Nat} {q₀ : RecoveryQueue} (hS : 0 < S) (hmake : RecoveryQueue.make c d = .ok q₀)
    (times : List Int) (hrun : loop (RecoveryQueue.submitAt S) times q₀ = .ok q) (hadv : q.advanceTime now = .ok q') :
    (∀ cost, q'.getExpectedRecoveryCost now S = .ok (some cost) →
      cost ≤ S * ((q'.currentQueueDepth / c + 1 : Nat) : Int)) ∧
    (q'.currentQueueDepth = 0 → ∀ jobs q'', loop (RecoveryQueue.submitAt S) (List.replicate jobs now) q' = .ok q'' →
      ∀ cost, q''.getExpectedRecoveryCost now S = .ok (some cost) →
        cost = S * ((q''.currentQueueDepth / c + 1 : Nat) : Int)) ∧
    ∀ e : Executor, e.concurrency = c → e.estimatedServiceCost = S → e.stopping = false → e.outstanding < e.capacity →
      e.estimateRecoveryCost = some (S * ((e.outstanding / c + 1 : Nat) : Int)) := by
  have hc := (make_ok hmake).1
  have hl := loaded_of_run hS hmake hrun
  refine ⟨fun cost hcost => hl.cost_le hS hc hadv hcost, fun hidle jobs q'' hjobs cost hcost => ?_,
    fun e hconc hserv hstop hroom => ?_⟩
  · have hb : Burst S c now q'' := by
      refine loop_inv (List.replicate jobs now) (fun s t ht s' hs hstep => ?_) q' q'' (hl.idle hS hadv hidle) hjobs
      obtain rfl := List.eq_of_mem_replicate ht
      exact hs.submitAt hS hc hstep
    exact hb.cost_eq hS hc hcost
  · unfold Executor.estimateRecoveryCost
    rw [if_neg (by simp [hstop, hroom]), hconc, hserv]

/-- Three tasks, one after the other, to an executor with two workers. -/
def threeSubmits : List Executor.Action :=
  [7, 8, 9].map (fun r => .submit ⟨serialDevice, fun _ => serialDevice, 0⟩ r ⟨[], [], true⟩ [some [3]] true)

omit hS in
theorem expected_cost_le_estimate_twoSlots : ∃ q₀ q busy idle burst e₀ e,
    RecoveryQueue.make 2 4 = .ok q₀ ∧ loop (RecoveryQueue.submitAt 10) [0, 0, 3] q₀ = .ok q ∧
    q.advanceTime 5 = .ok busy ∧ busy.currentQueueDepth = 3 ∧
    busy.getExpectedRecoveryCost 5 10 = .ok (some 15) ∧ (15 : Int) ≤ 10 * ((3 / 2 + 1 : Nat) : Int) ∧
    q.advanceTime 20 = .ok idle ∧ idle.currentQueueDepth = 0 ∧
    loop (RecoveryQueue.submitAt 10) (List.replicate 3 20) idle = .ok burst ∧ burst.currentQueueDepth = 3 ∧
    burst.getExpectedRecoveryCost 20 10 = .ok (some 20) ∧ (20 : Int) = 10 * ((3 / 2 + 1 : Nat) : Int) ∧
    Executor.make 2 4 10 = .ok e₀ ∧ Runs.run Executor.step e₀ threeSubmits = some e ∧ e.outstanding = 3 ∧
    e.estimateRecoveryCost = some (10 * ((3 / 2 + 1 : Nat) : Int)) := by
  obtain ⟨q₀, q, busy, idle, burst, hmake, hrun, hadv, hdepth, hquote, hadv', hidle, hburst, hdepth', hquote'⟩ :
      ∃ q₀ q busy idle burst, make 2 4 = .ok q₀ ∧ loop (submitAt 10) [0, 0, 3] q₀ = .ok q ∧
        q.advanceTime 5 = .ok busy ∧ busy.currentQueueDepth = 3 ∧
        busy.getExpectedRecoveryCost 5 10 = .ok (some 15) ∧ q.advanceTime 20 = .ok idle ∧
        idle.currentQueueDepth = 0 ∧ loop (submitAt 10) (List.replicate 3 20) idle = .ok burst ∧
        burst.currentQueueDepth = 3 ∧ burst.getExpectedRecoveryCost 20 10 = .ok (some 20) :=
    ⟨_, _, _, _, _, rfl, rfl, rfl, rfl, rfl, rfl, rfl, rfl, rfl, rfl⟩
  obtain ⟨e₀, e, hmake', hrun', hconc, hserv, hstop, hout, hcap⟩ : ∃ e₀ e, Executor.make 2 4 10 = .ok e₀ ∧
      Runs.run Executor.step e₀ threeSubmits = some e ∧ e.concurrency = 2 ∧ e.estimatedServiceCost = 10 ∧
      e.stopping = false ∧ e.outstanding = 3 ∧ e.capacity = 6 := ⟨_, _, rfl, rfl, rfl, rfl, rfl, rfl, rfl⟩
  obtain ⟨hle, -, hest⟩ := expected_cost_le_estimate (by decide) hmake [0, 0, 3] hrun hadv
  obtain ⟨-, heq, -⟩ := expected_cost_le_estimate (by decide) hmake [0, 0, 3] hrun hadv'
  have hle := hle 15 hquote
  have heq := heq hidle 3 burst hburst 20 hquote'
  have hest := hest e hconc hserv hstop (by rw [hout, hcap]; decide)
  rw [hdepth] at hle
  rw [hdepth'] at heq
  rw [hout] at hest
  exact ⟨q₀, q, busy, idle, burst, e₀, e, hmake, hrun, hadv, hdepth, hquote, hle, hadv', hidle, hburst, hdepth',
    hquote', heq, hmake', hrun', hout, hest⟩

end RecoveryQueue

end CodedLLM
