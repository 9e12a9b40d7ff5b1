import CodedLLM.RecoveryQueue
import CodedLLM.Refusals
/-!
# QueueDepth — the depth counter of the simulated decoders

`RecoveryQueue` counts its outstanding jobs in an unsigned counter of its own and never compares it with the multiset
that it counts.  Here the queue is as it is stored, with nothing promised of the counter: 64-bit counters that wrap,
the multiset as the sorted sequence that its iterators walk, and calls that may throw, be refused, or come out of
order.  Over every sequence of calls the counter is the number of entries (`depth_counts_jobs`), and so the stored
queue answers as the `RecoveryQueue` whose depth is a number (`answers_eq_abstract`).  Memory is taken to suffice, and
times are integers, as in `RecoveryQueue`.
-/
namespace CodedLLM

open Refusals
open Slots (assign start)

/-- The members of the class; of these only that there is a slot is promised, since the constructor throws otherwise
and the vector is never resized. -/
structure StoredQueue where
  slotAvailableTimes : List Int
  maxQueueDepth : UInt64
  currentQueueDepth : UInt64
  jobCompletionTimes : List Int
  currentTime : Int
  slots_ne_nil : slotAvailableTimes ≠ []
  deriving DecidableEq

/-- `std::multiset::upper_bound`, as its distance from `begin()`. -/
def upperBound (now : Int) (times : List Int) : Nat := times.findIdx (fun time => now < time)

/-- `std::multiset::insert`: behind the entries that are not greater. -/
def multisetInsert (time : Int) (times : List Int) : List Int :=
  times.take (upperBound time times) ++ time :: times.drop (upperBound time times)

/-! ## The multiset -/

theorem upperBound_le (now : Int) (times : List Int) : upperBound now times ≤ times.length := List.findIdx_le_length

/-- **Erasing up to `upper_bound(now)` keeps what is later than `now`**: ties with `now` go as well. -/
theorem drop_upperBound {now : Int} : ∀ {times : List Int}, times.Pairwise (· ≤ ·) →
    times.drop (upperBound now times) = times.filter (fun time => now < time)
  | [], _ => rfl
  | time :: times, h => by
    have hle := (List.pairwise_cons.1 h).1
    unfold upperBound
    rw [List.findIdx_cons]
    by_cases hlt : now < time
    · -- the first later entry: so are all behind it
      have hall : ∀ x ∈ time :: times, decide (now < x) = true := by
        intro x hx
        rcases List.mem_cons.1 hx with rfl | hx
        · exact decide_eq_true hlt
        · exact decide_eq_true (hlt.trans_le (hle x hx))
      rw [List.filter_eq_self.2 hall, decide_eq_true hlt]
      rfl
    · rw [List.filter_cons_of_neg (by simpa using hlt), decide_eq_false hlt]
      exact drop_upperBound h.of_cons

theorem le_of_mem_take_upperBound {now x : Int} {times : List Int} (h : x ∈ times.take (upperBound now times)) :
    x ≤ now := by
  obtain ⟨i, hi, rfl⟩ := List.mem_take_iff_getElem.1 h
  have hlt : i < times.findIdx (fun time => now < time) := (Nat.lt_min.1 hi).1
  simpa using List.not_of_lt_findIdx hlt

theorem multisetInsert_perm (time : Int) (times : List Int) : (multisetInsert time times).Perm (time :: times) := by
  unfold multisetInsert
  refine List.perm_middle.trans ?_
  rw [List.take_append_drop]

theorem mem_multisetInsert {time x : Int} {times : List Int} : x ∈ multisetInsert time times ↔
    x = time ∨ x ∈ times := by
  rw [(multisetInsert_perm time times).mem_iff, List.mem_cons]

theorem sorted_multisetInsert {time : Int} {times : List Int} (h : times.Pairwise (· ≤ ·)) :
    (multisetInsert time times).Pairwise (· ≤ ·) := by
  have hcut := List.take_append_drop (upperBound time times) times
  have hlater : ∀ x ∈ times.drop (upperBound time times), time ≤ x := by
    intro x hx
    rw [drop_upperBound h] at hx
    exact (of_decide_eq_true (List.mem_filter.1 hx).2).le
  rw [← hcut] at h
  obtain ⟨hfront, hback, hcross⟩ := List.pairwise_append.1 h
  unfold multisetInsert
  refine List.pairwise_append.2 ⟨hfront, hback.cons hlater, fun x hx y hy => ?_⟩
  rcases List.mem_cons.1 hy with rfl | hy
  · exact le_of_mem_take_upperBound hx
  · exact hcross x hx y hy

namespace StoredQueue

def make (concurrencyLimit maxQueueDepth : UInt64) : Except Exn StoredQueue :=
  if RecoveryQueue.slotsMaxSize < concurrencyLimit.toNat then .error vectorTooLarge
  else if h : concurrencyLimit.toNat = 0 then
    .error (.invalidArgument "RecoveryQueue concurrency limit must be non-zero")
  else .ok
    { slotAvailableTimes := List.replicate concurrencyLimit.toNat 0
      maxQueueDepth := maxQueueDepth
      currentQueueDepth := 0
      jobCompletionTimes := []
      currentTime := 0
      slots_ne_nil := by simpa using h }

def advanceTime (q : StoredQueue) (now : Int) : StoredQueue × Except Exn Unit :=
  if now < q.currentTime then (q, .error (.invalidArgument "RecoveryQueue time must be monotonic"))
  else
    let firstPending := upperBound now q.jobCompletionTimes
    let completed := UInt64.ofNat firstPending
    ({ q with
        jobCompletionTimes := q.jobCompletionTimes.drop firstPending
        currentQueueDepth := q.currentQueueDepth - completed
        currentTime := now }, .ok ())

def getExpectedRecoveryCost (q : StoredQueue) (now serviceTime : Int) : Except Exn (Option Int) :=
  if now < q.currentTime then .error (.invalidArgument "RecoveryQueue time must be monotonic")
  else
    match RecoveryQueue.validateServiceTime serviceTime with
    | .error e => .error e
    | .ok () =>
      if q.maxQueueDepth ≤ q.currentQueueDepth then .ok none
      else .ok (some (start now q.slotAvailableTimes q.slots_ne_nil - now + serviceTime))

def submitJob (q : StoredQueue) (now serviceTime : Int) : StoredQueue × Except Exn Bool :=
  if now < q.currentTime then (q, .error (.invalidArgument "RecoveryQueue time must be monotonic"))
  else
    match RecoveryQueue.validateServiceTime serviceTime with
    | .error e => (q, .error e)
    | .ok () =>
      if q.maxQueueDepth ≤ q.currentQueueDepth then (q, .ok false)
      else
        let completionTime := start now q.slotAvailableTimes q.slots_ne_nil + serviceTime
        ({ q with
            slotAvailableTimes := assign q.slotAvailableTimes q.slots_ne_nil completionTime
            jobCompletionTimes := multisetInsert completionTime q.jobCompletionTimes
            currentQueueDepth := q.currentQueueDepth + 1
            slots_ne_nil := Slots.assign_ne_nil _ _ }, .ok true)

inductive Call where
  | advanceTime (now : Int)
  | getExpectedRecoveryCost (now serviceTime : Int)
  | submitJob (now serviceTime : Int)
  deriving DecidableEq, Repr

inductive Answer where
  | threw (exn : Exn)
  | advanced
  | cost (quote : Option Int)
  | submitted (accepted : Bool)
  deriving DecidableEq, Repr

def Answer.refused : Answer → Bool
  | .threw _         => true
  | .advanced        => false
  | .cost quote      => quote.isNone
  | .submitted taken => !taken

def call (q : StoredQueue) : Call → StoredQueue × Answer
  | .advanceTime now =>
    match q.advanceTime now with
    | (q', .error e) => (q', .threw e)
    | (q', .ok ())   => (q', .advanced)
  | .getExpectedRecoveryCost now serviceTime =>
    match q.getExpectedRecoveryCost now serviceTime with
    | .error e  => (q, .threw e)
    | .ok quote => (q, .cost quote)
  | .submitJob now serviceTime =>
    match q.submitJob now serviceTime with
    | (q', .error e)     => (q', .threw e)
    | (q', .ok accepted) => (q', .submitted accepted)

/-! ## One call -/

theorem make_ok {c d : UInt64} {q : StoredQueue} (h : make c d = .ok q) :
    q.slotAvailableTimes = List.replicate c.toNat 0 ∧ q.maxQueueDepth = d ∧ q.currentQueueDepth = 0 ∧
      q.jobCompletionTimes = [] ∧ q.currentTime = 0 := by
  unfold make at h
  split at h
  · cases h
  split at h
  · cases h
  · obtain rfl := (Except.ok.inj h).symm
    exact ⟨rfl, rfl, rfl, rfl, rfl⟩

theorem advanceTime_cases (q : StoredQueue) (now : Int) :
    (now < q.currentTime ∧
      q.advanceTime now = (q, .error (.invalidArgument "RecoveryQueue time must be monotonic"))) ∨
    (q.currentTime ≤ now ∧ q.advanceTime now =
      ({ q with
          jobCompletionTimes := q.jobCompletionTimes.drop (upperBound now q.jobCompletionTimes)
          currentQueueDepth := q.currentQueueDepth - UInt64.ofNat (upperBound now q.jobCompletionTimes)
          currentTime := now }, .ok ())) := by
  unfold advanceTime
  by_cases hlt : now < q.currentTime
  · rw [if_pos hlt]
    exact .inl ⟨hlt, rfl⟩
  · rw [if_neg hlt]
    exact .inr ⟨not_lt.1 hlt, rfl⟩

def push (q : StoredQueue) (now serviceTime : Int) : StoredQueue :=
  { q with
    slotAvailableTimes := assign q.slotAvailableTimes q.slots_ne_nil
      (start now q.slotAvailableTimes q.slots_ne_nil + serviceTime)
    jobCompletionTimes :=
      multisetInsert (start now q.slotAvailableTimes q.slots_ne_nil + serviceTime) q.jobCompletionTimes
    currentQueueDepth := q.currentQueueDepth + 1
    slots_ne_nil := Slots.assign_ne_nil _ _ }

theorem submitJob_cases (q : StoredQueue) (now serviceTime : Int) :
    (now < q.currentTime ∧
      q.submitJob now serviceTime = (q, .error (.invalidArgument "RecoveryQueue time must be monotonic"))) ∨
    (q.currentTime ≤ now ∧ serviceTime ≤ 0 ∧
      q.submitJob now serviceTime = (q, .error (.invalidArgument "RecoveryQueue service time must be positive"))) ∨
    (q.currentTime ≤ now ∧ 0 < serviceTime ∧ q.maxQueueDepth ≤ q.currentQueueDepth ∧
      q.submitJob now serviceTime = (q, .ok false)) ∨
    (q.currentTime ≤ now ∧ 0 < serviceTime ∧ q.currentQueueDepth < q.maxQueueDepth ∧
      q.submitJob now serviceTime = (q.push now serviceTime, .ok true)) := by
  unfold submitJob RecoveryQueue.validateServiceTime
  by_cases hlt : now < q.currentTime
  · rw [if_pos hlt]
    exact .inl ⟨hlt, rfl⟩
  rw [if_neg hlt]
  by_cases hpos : serviceTime ≤ 0
  · rw [if_pos hpos]
    exact .inr (.inl ⟨not_lt.1 hlt, hpos, rfl⟩)
  rw [if_neg hpos]
  by_cases hfull : q.maxQueueDepth ≤ q.currentQueueDepth
  · exact .inr (.inr (.inl ⟨not_lt.1 hlt, not_le.1 hpos, hfull, if_pos hfull⟩))
  · exact .inr (.inr (.inr ⟨not_lt.1 hlt, not_le.1 hpos, UInt64.not_le.1 hfull, if_neg hfull⟩))

/-- **What a call can do**: nothing, or move the clock, or push a job. -/
theorem call_cases (q : StoredQueue) (c : Call) :
    (q.call c).1 = q ∨
    (∃ now, (q.call c).2 = .advanced ∧ (q.call c).1 = (q.advanceTime now).1 ∧ (q.advanceTime now).2 = .ok ()) ∨
    (∃ now serviceTime, (q.call c).2 = .submitted true ∧ 0 < serviceTime ∧ q.currentQueueDepth < q.maxQueueDepth ∧
      (q.call c).1 = q.push now serviceTime) := by
  cases c with
  | advanceTime now =>
    rcases advanceTime_cases q now with ⟨-, h⟩ | ⟨-, h⟩
    · exact .inl (by simp [call, h])
    · exact .inr (.inl ⟨now, by simp [call, h], by simp [call, h], by simp [h]⟩)
  | getExpectedRecoveryCost now serviceTime =>
    cases h : q.getExpectedRecoveryCost now serviceTime with
    | error e => exact .inl (by simp [call, h])
    | ok quote => exact .inl (by simp [call, h])
  | submitJob now serviceTime =>
    rcases submitJob_cases q now serviceTime with ⟨-, h⟩ | ⟨-, -, h⟩ | ⟨-, -, -, h⟩ | ⟨-, hpos, hroom, h⟩
    · exact .inl (by simp [call, h])
    · exact .inl (by simp [call, h])
    · exact .inl (by simp [call, h])
    · exact .inr (.inr ⟨now, serviceTime, by simp [call, h], hpos, hroom, by simp [call, h]⟩)

theorem call_eq_of_refused {q : StoredQueue} {c : Call} (h : (q.call c).2.refused = true) : (q.call c).1 = q := by
  rcases call_cases q c with hsame | ⟨now, hans, -⟩ | ⟨now, serviceTime, hans, -⟩
  · exact hsame
  · rw [hans] at h
    cases h
  · rw [hans] at h
    cases h

/-! ## Every sequence of calls -/

/-- **What every call keeps**: the jobs are in order, the counter counts them and stays within its limit, and no job
ends later than every slot. -/
structure Counted (q : StoredQueue) : Prop where
  sorted : q.jobCompletionTimes.Pairwise (· ≤ ·)
  depth : q.currentQueueDepth.toNat = q.jobCompletionTimes.length
  room : q.currentQueueDepth ≤ q.maxQueueDepth
  slots : ∀ job ∈ q.jobCompletionTimes, ∃ slot ∈ q.slotAvailableTimes, job ≤ slot

variable {q : StoredQueue}

theorem Counted.make {c d : UInt64} (h : StoredQueue.make c d = .ok q) : Counted q := by
  obtain ⟨-, -, hdepth, hjobs, -⟩ := make_ok h
  refine ⟨?_, ?_, ?_, ?_⟩
  · rw [hjobs]
    exact .nil
  · rw [hdepth, hjobs]
    rfl
  · rw [hdepth, UInt64.le_iff_toNat_le]
    exact Nat.zero_le _
  · rw [hjobs]
    intro job hjob
    cases hjob

theorem Counted.completed_toNat (h : Counted q) (now : Int) :
    (UInt64.ofNat (upperBound now q.jobCompletionTimes)).toNat = upperBound now q.jobCompletionTimes := by
  apply UInt64.toNat_ofNat_of_lt'
  have hle := upperBound_le now q.jobCompletionTimes
  rw [← h.depth] at hle
  exact hle.trans_lt q.currentQueueDepth.toNat_lt

theorem Counted.completed_le (h : Counted q) (now : Int) :
    UInt64.ofNat (upperBound now q.jobCompletionTimes) ≤ q.currentQueueDepth := by
  rw [UInt64.le_iff_toNat_le, h.completed_toNat now, h.depth]
  exact upperBound_le now q.jobCompletionTimes

theorem Counted.advanceTime (h : Counted q) (now : Int) : Counted (q.advanceTime now).1 := by
  rcases advanceTime_cases q now with ⟨-, heq⟩ | ⟨-, heq⟩
  · rw [heq]
    exact h
  · rw [heq]
    have hle := h.completed_le now
    refine ⟨h.sorted.sublist (List.drop_sublist _ _), ?_, ?_, fun job hjob => h.slots job (List.mem_of_mem_drop hjob)⟩
    · show (q.currentQueueDepth - _).toNat = _
      rw [UInt64.toNat_sub_of_le _ _ hle, h.completed_toNat now, h.depth, List.length_drop]
    · show q.currentQueueDepth - _ ≤ q.maxQueueDepth
      exact UInt64.le_trans (UInt64.sub_le hle) h.room

theorem Counted.push (h : Counted q) (hroom : q.currentQueueDepth < q.maxQueueDepth) {now serviceTime : Int}
    (hpos : 0 < serviceTime) : Counted (q.push now serviceTime) := by
  have hlt := UInt64.lt_iff_toNat_lt.1 hroom
  -- the counter is below the limit, so one more does not wrap
  have hnext : (q.currentQueueDepth + 1).toNat = q.currentQueueDepth.toNat + 1 := by
    rw [UInt64.toNat_add, UInt64.toNat_one]
    exact Nat.mod_eq_of_lt (by have := q.maxQueueDepth.toNat_lt; omega)
  refine ⟨sorted_multisetInsert h.sorted, ?_, ?_, fun job hjob => ?_⟩
  · show (q.currentQueueDepth + 1).toNat = _
    rw [hnext, h.depth]
    exact (multisetInsert_perm _ _).length_eq.symm
  · show q.currentQueueDepth + 1 ≤ q.maxQueueDepth
    rw [UInt64.le_iff_toNat_le, hnext]
    exact hlt
  · have hself := Slots.self_mem_assign q.slots_ne_nil (start now q.slotAvailableTimes q.slots_ne_nil + serviceTime)
    rcases mem_multisetInsert.1 hjob with rfl | hjob
    · exact ⟨_, hself, le_rfl⟩
    · obtain ⟨slot, hslot, hle⟩ := h.slots job hjob
      rcases Slots.mem_assign_of_mem q.slots_ne_nil hslot with rfl | hkept
      · have hmin := Slots.min_le_start now q.slotAvailableTimes q.slots_ne_nil
        exact ⟨_, hself, by omega⟩
      · exact ⟨slot, hkept, hle⟩

theorem Counted.call (h : Counted q) (c : Call) : Counted (q.call c).1 := by
  rcases call_cases q c with hsame | ⟨now, -, hadv, -⟩ | ⟨now, serviceTime, -, hpos, hroom, hpush⟩
  · rw [hsame]
    exact h
  · rw [hadv]
    exact h.advanceTime now
  · rw [hpush]
    exact h.push hroom hpos

theorem Counted.after (h : Counted q) (calls : List Call) : Counted (after StoredQueue.call q calls) :=
  inv_after calls q (fun c _ _ hs => hs.call c) h

theorem Counted.lt_of_advanceTime (h : Counted q) {now : Int} (hret : (q.advanceTime now).2 = .ok ()) {job : Int}
    (hjob : job ∈ (q.advanceTime now).1.jobCompletionTimes) : now < job := by
  rcases advanceTime_cases q now with ⟨-, heq⟩ | ⟨-, heq⟩
  · rw [heq] at hret
    cases hret
  · rw [heq] at hjob
    rw [drop_upperBound h.sorted] at hjob
    exact of_decide_eq_true (List.mem_filter.1 hjob).2

theorem call_maxQueueDepth (q : StoredQueue) (c : Call) : (q.call c).1.maxQueueDepth = q.maxQueueDepth := by
  rcases call_cases q c with hsame | ⟨now, -, hadv, -⟩ | ⟨now, serviceTime, -, -, -, hpush⟩
  · rw [hsame]
  · rw [hadv]
    rcases advanceTime_cases q now with ⟨-, heq⟩ | ⟨-, heq⟩ <;> rw [heq]
  · rw [hpush]
    rfl

/-- **The depth counter never drifts and never wraps.**  After any sequence of calls, those that threw included, it is
the number of outstanding jobs and at most the limit; what the next `AdvanceTime` would subtract is an exact count and
no more than it, and if that call returns every job left is later than its time; no job ends later than the last slot;
and a call that is refused leaves the queue as it was. -/
theorem depth_counts_jobs {concurrencyLimit maxQueueDepth : UInt64} {q₀ : StoredQueue}
    (hmake : make concurrencyLimit maxQueueDepth = .ok q₀) (calls : List Call) {q : StoredQueue}
    (hq : after call q₀ calls = q) :
    q.maxQueueDepth = maxQueueDepth ∧
    q.currentQueueDepth.toNat = q.jobCompletionTimes.length ∧
    q.currentQueueDepth ≤ q.maxQueueDepth ∧
    (∀ now, (UInt64.ofNat (upperBound now q.jobCompletionTimes)).toNat = upperBound now q.jobCompletionTimes ∧
      UInt64.ofNat (upperBound now q.jobCompletionTimes) ≤ q.currentQueueDepth) ∧
    (∀ now, (q.advanceTime now).2 = .ok () → ∀ job ∈ (q.advanceTime now).1.jobCompletionTimes, now < job) ∧
    (∀ job ∈ q.jobCompletionTimes, job ≤ q.slotAvailableTimes.max q.slots_ne_nil) ∧
    (∀ c, (q.call c).2.refused = true → (q.call c).1 = q) := by
  have hcounted : Counted q := hq ▸ (Counted.make hmake).after calls
  have hlimit : q.maxQueueDepth = maxQueueDepth := by
    rw [← hq]
    exact inv_after (I := fun s => s.maxQueueDepth = maxQueueDepth) calls q₀
      (fun c _ s hs => (call_maxQueueDepth s c).trans hs) (make_ok hmake).2.1
  refine ⟨hlimit, hcounted.depth, hcounted.room, fun now => ⟨hcounted.completed_toNat now, hcounted.completed_le now⟩,
    fun now hret job hjob => hcounted.lt_of_advanceTime hret hjob, fun job hjob => ?_, fun c => call_eq_of_refused⟩
  obtain ⟨slot, hslot, hle⟩ := hcounted.slots job hjob
  exact hle.trans (List.le_max_of_mem hslot)

/-- Two slots, three places: jobs that come ahead of the clock and end together, a fourth that is refused, a service
time of zero, and a clock that is set back. -/
theorem depth_counts_jobs_twoSlots : ∃ q₀ q, make 2 3 = .ok q₀ ∧
    after call q₀ [.submitJob 5 10, .submitJob 5 10, .submitJob 0 3, .submitJob 7 1, .submitJob 7 0, .advanceTime 15,
      .advanceTime 3, .getExpectedRecoveryCost 16 2] = q ∧
    q.jobCompletionTimes = [18] ∧ q.currentQueueDepth = 1 ∧
    q.maxQueueDepth = 3 ∧
    q.currentQueueDepth.toNat = q.jobCompletionTimes.length ∧
    q.currentQueueDepth ≤ q.maxQueueDepth ∧
    (∀ now, (UInt64.ofNat (upperBound now q.jobCompletionTimes)).toNat = upperBound now q.jobCompletionTimes ∧
      UInt64.ofNat (upperBound now q.jobCompletionTimes) ≤ q.currentQueueDepth) ∧
    (∀ now, (q.advanceTime now).2 = .ok () → ∀ job ∈ (q.advanceTime now).1.jobCompletionTimes, now < job) ∧
    (∀ job ∈ q.jobCompletionTimes, job ≤ q.slotAvailableTimes.max q.slots_ne_nil) ∧
    (∀ c, (q.call c).2.refused = true → (q.call c).1 = q) :=
  ⟨_, _, rfl, rfl, by decide +kernel, by decide +kernel,
    depth_counts_jobs (rfl : make 2 3 = _) _ rfl⟩

/-! ## The stored queue is a `RecoveryQueue` -/

/-- `r` is the stored queue with its counters as numbers and its jobs as a multiset. -/
structure Abstracts (q : StoredQueue) (r : RecoveryQueue) : Prop where
  slots : r.slotAvailableTimes = q.slotAvailableTimes
  limit : r.maxQueueDepth = q.maxQueueDepth.toNat
  jobs : r.jobCompletionTimes = q.jobCompletionTimes
  time : r.currentTime = q.currentTime

def abstractCall (r : RecoveryQueue) : Call → RecoveryQueue × Answer
  | .advanceTime now =>
    match r.advanceTime now with
    | .error e => (r, .threw e)
    | .ok r'   => (r', .advanced)
  | .getExpectedRecoveryCost now serviceTime =>
    match r.getExpectedRecoveryCost now serviceTime with
    | .error e  => (r, .threw e)
    | .ok quote => (r, .cost quote)
  | .submitJob now serviceTime =>
    match r.submitJob now serviceTime with
    | .error e           => (r, .threw e)
    | .ok (r', accepted) => (r', .submitted accepted)

variable {r : RecoveryQueue}

theorem Abstracts.make {c d : UInt64} (h : StoredQueue.make c d = .ok q) :
    ∃ r, RecoveryQueue.make c.toNat d.toNat = .ok r ∧ Abstracts q r := by
  unfold StoredQueue.make at h
  split at h
  · cases h
  rename_i hmax
  split at h
  · cases h
  · rename_i hc
    obtain rfl := Except.ok.inj h
    exact ⟨_, (if_neg hmax).trans (dif_neg hc), ⟨rfl, rfl, rfl, rfl⟩⟩

theorem Abstracts.depth (ha : Abstracts q r) (h : Counted q) : r.currentQueueDepth = q.currentQueueDepth.toNat := by
  rw [r.depth_eq_card, ha.jobs, h.depth]
  rfl

theorem Abstracts.full_iff (ha : Abstracts q r) (h : Counted q) :
    r.maxQueueDepth ≤ r.currentQueueDepth ↔ q.maxQueueDepth ≤ q.currentQueueDepth := by
  rw [ha.depth h, ha.limit, UInt64.le_iff_toNat_le]

theorem Abstracts.start_eq (ha : Abstracts q r) (now : Int) :
    start now r.slotAvailableTimes r.slots_ne_nil = start now q.slotAvailableTimes q.slots_ne_nil := by
  simp only [ha.slots]

theorem Abstracts.push (ha : Abstracts q r) {now serviceTime : Int} (hpos : 0 < serviceTime) :
    Abstracts (q.push now serviceTime) (r.push now serviceTime hpos) := by
  refine ⟨?_, ha.limit, ?_, ha.time⟩
  · rw [RecoveryQueue.push_slots, ha.start_eq]
    simp only [ha.slots]
    rfl
  · rw [RecoveryQueue.push_jobs, ha.start_eq, ha.jobs, Multiset.cons_coe]
    exact (Multiset.coe_eq_coe.2 (multisetInsert_perm _ _)).symm

theorem Abstracts.call (ha : Abstracts q r) (h : Counted q) (c : Call) :
    (abstractCall r c).2 = (q.call c).2 ∧ Abstracts (q.call c).1 (abstractCall r c).1 := by
  cases c with
  | advanceTime now =>
    rcases advanceTime_cases q now with ⟨hlt, heq⟩ | ⟨hle, heq⟩
    · have hr : r.advanceTime now = .error (.invalidArgument "RecoveryQueue time must be monotonic") :=
        if_pos (ha.time ▸ hlt)
      simp only [StoredQueue.call, abstractCall, heq, hr]
      exact ⟨trivial, ha⟩
    · obtain ⟨r', hr⟩ := RecoveryQueue.advanceTime_accepts (ha.time ▸ hle : r.currentTime ≤ now)
      obtain ⟨-, htime, hslots, hlimit, hjobs⟩ := RecoveryQueue.advanceTime_ok hr
      simp only [StoredQueue.call, abstractCall, heq, hr]
      refine ⟨trivial, ⟨hslots.trans ha.slots, hlimit.trans ha.limit, ?_, htime⟩⟩
      rw [hjobs, ha.jobs, Multiset.filter_coe, drop_upperBound h.sorted]
  | getExpectedRecoveryCost now serviceTime =>
    have hr : r.getExpectedRecoveryCost now serviceTime = q.getExpectedRecoveryCost now serviceTime := by
      unfold RecoveryQueue.getExpectedRecoveryCost StoredQueue.getExpectedRecoveryCost
      rw [ha.time, ha.start_eq]
      apply if_congr Iff.rfl rfl
      cases RecoveryQueue.validateServiceTime serviceTime with
      | error e => rfl
      | ok _ => exact if_congr (ha.full_iff h) rfl rfl
    simp only [StoredQueue.call, abstractCall, hr]
    cases q.getExpectedRecoveryCost now serviceTime with
    | error e => exact ⟨rfl, ha⟩
    | ok quote => exact ⟨rfl, ha⟩
  | submitJob now serviceTime =>
    rcases submitJob_cases q now serviceTime with ⟨hlt, heq⟩ | ⟨hle, hneg, heq⟩ | ⟨hle, hpos, hfull, heq⟩ |
      ⟨hle, hpos, hroom, heq⟩
    · have hr : r.submitJob now serviceTime = .error (.invalidArgument "RecoveryQueue time must be monotonic") :=
        if_pos (ha.time ▸ hlt)
      simp only [StoredQueue.call, abstractCall, heq, hr]
      exact ⟨trivial, ha⟩
    all_goals
      rw [← ha.time] at hle
      unfold abstractCall RecoveryQueue.submitJob
      simp only [StoredQueue.call, heq, if_neg (not_lt.2 hle)]
    · rw [dif_pos hneg]
      exact ⟨rfl, ha⟩
    · rw [dif_neg (not_le.2 hpos), if_pos ((ha.full_iff h).2 hfull)]
      exact ⟨rfl, ha⟩
    · rw [dif_neg (not_le.2 hpos), if_neg (fun hc => UInt64.not_le.2 hroom ((ha.full_iff h).1 hc))]
      exact ⟨rfl, ha.push hpos⟩

theorem Abstracts.answers : ∀ (calls : List Call) {q : StoredQueue} {r : RecoveryQueue}, Abstracts q r → Counted q →
    answers StoredQueue.call q calls = answers abstractCall r calls
  | [], _, _, _, _ => rfl
  | c :: calls, _, _, ha, h => by
    obtain ⟨hans, hnext⟩ := ha.call h c
    rw [Refusals.answers, Refusals.answers, hans, Abstracts.answers calls hnext (h.call c)]

/-- **The stored queue answers every sequence of calls as the abstract queue does.** -/
theorem answers_eq_abstract {c d : UInt64} {q₀ : StoredQueue} (hmake : make c d = .ok q₀) (calls : List Call) :
    ∃ r₀, RecoveryQueue.make c.toNat d.toNat = .ok r₀ ∧ answers call q₀ calls = answers abstractCall r₀ calls := by
  obtain ⟨r₀, hr, ha⟩ := Abstracts.make hmake
  exact ⟨r₀, hr, ha.answers calls (Counted.make hmake)⟩

end StoredQueue

end CodedLLM
