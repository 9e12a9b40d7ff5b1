import CodedLLM.RecoveryQueue
/-!
# QueueService — the simulated decoders are a FIFO queue with `c` servers

The queue keeps one time per slot and overwrites the earliest.  Over a run of accepted jobs the slots that are busy at
a time are as many as the jobs in service then (`Serving.busy`), so that no more than `c` jobs ever run at once, a job
waits only while all the servers work, and jobs start in the order in which they came (`fifo_service`).
-/
namespace CodedLLM

open Runs
open Slots (assign start)

namespace RecoveryQueue

/-- One accepted job: the clock moves to `now`, and `SubmitJob` returns true. -/
def acceptJob (q : RecoveryQueue) (call : Int × Int) : Option RecoveryQueue :=
  match q.advanceTime call.1 with
  | .error _ => none
  | .ok q =>
    match q.submitJob call.1 call.2 with
    | .ok (q, true) => some q
    | _ => none

structure ServedJob where
  now : Int
  serviceTime : Int
  completion : Int
  deriving DecidableEq, Repr

def ServedJob.start (job : ServedJob) : Int := job.completion - job.serviceTime

def inService (t : Int) (jobs : List ServedJob) : Nat := jobs.countP (fun job => job.start ≤ t ∧ t < job.completion)

/-- **The call of job `i`**: in the queue after the calls before it, the quote is the time to its completion, and
`SubmitJob` records that completion. -/
def Recorded (q₀ : RecoveryQueue) (calls : List (Int × Int)) (i : Nat) (job : ServedJob) : Prop :=
  ∃ before q₁ after, run acceptJob q₀ (calls.take i) = some before ∧ before.advanceTime job.now = .ok q₁ ∧
    q₁.getExpectedRecoveryCost job.now job.serviceTime = .ok (some (job.completion - job.now)) ∧
    q₁.submitJob job.now job.serviceTime = .ok (after, true) ∧
    after.jobCompletionTimes = job.completion ::ₘ q₁.jobCompletionTimes

theorem acceptJob_some {q q' : RecoveryQueue} {call : Int × Int} (h : acceptJob q call = some q') :
    ∃ q₁, q.advanceTime call.1 = .ok q₁ ∧ q₁.submitJob call.1 call.2 = .ok (q', true) := by
  unfold acceptJob at h
  split at h
  · cases h
  rename_i q₁ hadv
  split at h
  · rename_i hsub
    obtain rfl := Option.some.inj h
    exact ⟨q₁, hadv, hsub⟩
  · cases h

theorem submitJob_accepted {q q' : RecoveryQueue} {now serviceTime : Int}
    (h : q.submitJob now serviceTime = .ok (q', true)) : ∃ hpos : 0 < serviceTime, q' = q.push now serviceTime hpos ∧
      q.getExpectedRecoveryCost now serviceTime =
        .ok (some (start now q.slotAvailableTimes q.slots_ne_nil - now + serviceTime)) := by
  unfold submitJob at h
  split at h
  · cases h
  rename_i hclock
  split at h
  · cases h
  rename_i hpos
  split at h
  · cases h
  rename_i hdepth
  simp only [Except.ok.injEq, Prod.mk.injEq, and_true] at h
  refine ⟨not_le.1 hpos, h.symm, ?_⟩
  rw [getExpectedRecoveryCost_eq (not_lt.1 hclock) (not_le.1 hpos), if_neg hdepth]

/-- **What the slots say about the jobs**: the busy slots are the jobs in service, from the clock on. -/
structure Serving (c : Nat) (q : RecoveryQueue) (jobs : List ServedJob) : Prop where
  slots : q.slotAvailableTimes.length = c
  busy : ∀ t, q.currentTime ≤ t → inService t jobs = q.slotAvailableTimes.countP (t < ·)
  limit : ∀ t, inService t jobs ≤ c
  ordered : jobs.Pairwise (fun a b => a.start ≤ b.start)
  started : ∀ job ∈ jobs, job.start ≤ start q.currentTime q.slotAvailableTimes q.slots_ne_nil

variable {c : Nat} {q q' : RecoveryQueue} {jobs : List ServedJob} {now serviceTime : Int}

theorem Serving.make {d : Nat} (h : RecoveryQueue.make c d = .ok q) : Serving c q [] := by
  obtain ⟨-, hslots, -, -, htime⟩ := make_ok h
  refine ⟨by rw [hslots, List.length_replicate], fun t ht => ?_, fun t => Nat.zero_le c, .nil, by simp⟩
  rw [htime] at ht
  have hidle : q.slotAvailableTimes.countP (t < ·) = 0 := by
    rw [hslots, List.countP_eq_zero]
    intro x hx
    rw [List.eq_of_mem_replicate hx]
    simpa using ht
  rw [hidle]
  rfl

theorem Serving.advance (h : Serving c q jobs) (hadv : q.advanceTime now = .ok q') : Serving c q' jobs := by
  obtain ⟨hle, htime, hslots, -, -⟩ := advanceTime_ok hadv
  refine ⟨hslots ▸ h.slots, fun t ht => ?_, h.limit, h.ordered, fun job hjob => (h.started job hjob).trans ?_⟩
  · rw [hslots]
    exact h.busy t (hle.trans (htime ▸ ht))
  · simp only [htime, hslots]
    exact max_le_max hle le_rfl

def nextJob (q : RecoveryQueue) (now serviceTime : Int) : ServedJob :=
  ⟨now, serviceTime, start now q.slotAvailableTimes q.slots_ne_nil + serviceTime⟩

@[simp] theorem nextJob_start (q : RecoveryQueue) (now serviceTime : Int) :
    (q.nextJob now serviceTime).start = start now q.slotAvailableTimes q.slots_ne_nil := Int.add_sub_cancel ..

theorem inService_snoc (t : Int) (jobs : List ServedJob) (q : RecoveryQueue) (now serviceTime : Int) :
    inService t (jobs ++ [q.nextJob now serviceTime]) = inService t jobs +
      if start now q.slotAvailableTimes q.slots_ne_nil ≤ t ∧
        t < start now q.slotAvailableTimes q.slots_ne_nil + serviceTime then 1 else 0 := by
  unfold inService
  rw [List.countP_append, List.countP_singleton]
  simp only [nextJob_start, decide_eq_true_eq]
  rfl

theorem Serving.push (h : Serving c q jobs) (htime : q.currentTime = now) (hpos : 0 < serviceTime) :
    Serving c (q.push now serviceTime hpos) (jobs ++ [q.nextJob now serviceTime]) := by
  have hnow := Slots.now_le_start now q.slotAvailableTimes q.slots_ne_nil
  have hbusy : ∀ t, now ≤ t → inService t (jobs ++ [q.nextJob now serviceTime]) =
      (assign q.slotAvailableTimes q.slots_ne_nil (start now q.slotAvailableTimes q.slots_ne_nil + serviceTime)).countP
        (t < ·) := by
    intro t ht
    rw [inService_snoc, h.busy t (htime ▸ ht), Slots.countP_assign q.slots_ne_nil hpos ht]
  refine ⟨(Slots.length_assign ..).trans h.slots, fun t ht => hbusy t (htime ▸ ht), fun t => ?_, ?_, ?_⟩
  · by_cases ht : now ≤ t
    · rw [hbusy t ht, ← h.slots, ← Slots.length_assign q.slotAvailableTimes q.slots_ne_nil
        (start now q.slotAvailableTimes q.slots_ne_nil + serviceTime)]
      exact List.countP_le_length
    · -- before it comes the job is not in service
      rw [inService_snoc, if_neg (by omega)]
      exact h.limit t
  · rw [List.pairwise_append]
    refine ⟨h.ordered, List.pairwise_singleton .., fun a ha b hb => ?_⟩
    rw [List.mem_singleton.1 hb, nextJob_start, ← htime]
    exact h.started a ha
  · have hlater : start now q.slotAvailableTimes q.slots_ne_nil ≤
        start now (q.push now serviceTime hpos).slotAvailableTimes (q.push now serviceTime hpos).slots_ne_nil :=
      Slots.start_le_start_assign q.slots_ne_nil le_rfl (by omega) _
    simp only [push_time, htime]
    intro job hjob
    rcases List.mem_append.1 hjob with hjob | hjob
    · exact (htime ▸ h.started job hjob).trans hlater
    · rw [List.mem_singleton.1 hjob, nextJob_start]
      exact hlater

theorem Serving.waits (h : Serving c q jobs) (htime : q.currentTime = now) {t : Int} (ht : now ≤ t)
    (hlt : t < start now q.slotAvailableTimes q.slots_ne_nil) : inService t jobs = c := by
  rw [h.busy t (htime ▸ ht), Slots.countP_of_lt_start q.slots_ne_nil ht hlt, h.slots]

/-- **`RecoveryQueue` is a work-conserving FIFO queue with `c` servers.**  For every run of accepted jobs there are
the completions the queue records, and each is what was quoted just before; jobs start after they come and in their
order; at most `c` are in service at any time; and while a job waits, `c` earlier ones are. -/
theorem fifo_service {d : Nat} {q₀ : RecoveryQueue} (hmake : RecoveryQueue.make c d = .ok q₀) {calls : List (Int × Int)}
    (hrun : run acceptJob q₀ calls = some q) :
    ∃ jobs : List ServedJob, jobs.map (fun job => (job.now, job.serviceTime)) = calls ∧
      (∀ (i : Nat) (job : ServedJob), jobs[i]? = some job → Recorded q₀ calls i job ∧ job.now ≤ job.start ∧
        ∀ t, job.now ≤ t → t < job.start → inService t (jobs.take i) = c) ∧
      jobs.Pairwise (fun a b => a.start ≤ b.start) ∧ ∀ t, inService t jobs ≤ c := by
  suffices hall : ∃ jobs : List ServedJob, jobs.map (fun job => (job.now, job.serviceTime)) = calls ∧
      (∀ (i : Nat) (job : ServedJob), jobs[i]? = some job → Recorded q₀ calls i job ∧ job.now ≤ job.start ∧
        ∀ t, job.now ≤ t → t < job.start → inService t (jobs.take i) = c) ∧ Serving c q jobs by
    obtain ⟨jobs, hcalls, hjobs, hserving⟩ := hall
    exact ⟨jobs, hcalls, hjobs, hserving.ordered, hserving.limit⟩
  induction calls using List.reverseRecOn generalizing q with
  | nil =>
    obtain rfl := Option.some.inj hrun
    exact ⟨[], rfl, by simp, Serving.make hmake⟩
  | append_singleton calls call ih =>
    obtain ⟨before, hbefore, hlast⟩ := (run_append calls [call] q₀ q).1 hrun
    obtain ⟨after, haccept, hend⟩ := (run_cons before call [] q).1 hlast
    obtain rfl := Option.some.inj hend
    obtain ⟨jobs, hcalls, hjobs, hserving⟩ := ih hbefore
    obtain ⟨q₁, hadv, hsubmit⟩ := acceptJob_some haccept
    obtain ⟨hpos, rfl, hquote⟩ := submitJob_accepted hsubmit
    have htime := (advanceTime_ok hadv).2.1
    have hserving₁ := hserving.advance hadv
    have hlen : jobs.length = calls.length := by rw [← hcalls, List.length_map]
    refine ⟨jobs ++ [q₁.nextJob call.1 call.2], ?_, fun i job hi => ?_, hserving₁.push htime hpos⟩
    · rw [List.map_append, hcalls]
      rfl
    rw [List.getElem?_append] at hi
    split at hi
    · -- an earlier job
      rename_i hlt
      obtain ⟨⟨b, u, v, hb, hrest⟩, hstart, hwait⟩ := hjobs i job hi
      refine ⟨⟨b, u, v, ?_, hrest⟩, hstart, fun t ht hts => ?_⟩
      · rw [List.take_append_of_le_length (by omega)]
        exact hb
      · rw [List.take_append_of_le_length (by omega)]
        exact hwait t ht hts
    · -- the job just taken
      rename_i hge
      rw [List.getElem?_singleton] at hi
      split at hi
      · rename_i hzero
        obtain rfl := Option.some.inj hi
        have hi : i = jobs.length := by omega
        rw [hi, List.take_left']
        · refine ⟨⟨before, q₁, _, ?_, hadv, ?_, hsubmit, rfl⟩, ?_, fun t ht hts => ?_⟩
          · rw [hlen, List.take_left]
            exact hbefore
          · change q₁.getExpectedRecoveryCost call.1 call.2 = .ok (some (start call.1 _ _ + call.2 - call.1))
            rw [hquote, sub_add_eq_add_sub]
          · rw [nextJob_start]
            exact Slots.now_le_start ..
          · rw [nextJob_start] at hts
            exact hserving₁.waits htime ht hts
        · rfl
      · cases hi

/-- Two servers; the third job has to wait for the second. -/
theorem fifo_service_twoServers : ∃ q₀ q, RecoveryQueue.make 2 4 = .ok q₀ ∧
    run acceptJob q₀ [(0, 10), (0, 4), (1, 3), (12, 5)] = some q ∧
    ∃ jobs : List ServedJob, jobs.map (fun job => (job.now, job.serviceTime)) = [(0, 10), (0, 4), (1, 3), (12, 5)] ∧
      (∀ (i : Nat) (job : ServedJob), jobs[i]? = some job →
        Recorded q₀ [(0, 10), (0, 4), (1, 3), (12, 5)] i job ∧ job.now ≤ job.start ∧
        ∀ t, job.now ≤ t → t < job.start → inService t (jobs.take i) = 2) ∧
      jobs.Pairwise (fun a b => a.start ≤ b.start) ∧ ∀ t, inService t jobs ≤ 2 := by
  have hrun :
      ((make 2 4).toOption.bind (fun q₀ => run acceptJob q₀ [(0, 10), (0, 4), (1, 3), (12, 5)])).isSome = true := by
    decide +kernel
  obtain ⟨q, hq⟩ := Option.isSome_iff_exists.1 hrun
  obtain ⟨q₀, hmake, hcalls⟩ := Option.bind_eq_some_iff.1 hq
  rw [toOption_eq_some] at hmake
  exact ⟨q₀, q, hmake, hcalls, fifo_service hmake hcalls⟩

end RecoveryQueue

end CodedLLM
