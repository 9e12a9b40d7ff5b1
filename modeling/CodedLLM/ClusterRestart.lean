import CodedLLM.ClusterTurns
/-!
# ClusterRestart — one simulator, run again

`Run` clears the trackers of the run before it but goes on with its queue.  Two queues that show the same clock,
outstanding jobs and free slots are alike to every operation (`Alike`), so a run whose first arrival finds the queue
as it was constructed ends as on a fresh simulator; a run whose first arrival is behind the clock that earlier runs
have left throws.
-/
namespace CodedLLM

open Slots (start free)

namespace RecoveryQueue

/-! ## Queues that are alike -/

/-- **Two queues that no operation can tell apart.** -/
structure Alike (q q' : RecoveryQueue) : Prop where
  clock : q.currentTime = q'.currentTime
  depth : q.maxQueueDepth = q'.maxQueueDepth
  jobs : q.jobCompletionTimes = q'.jobCompletionTimes
  free : free q.currentTime q.slotAvailableTimes = free q.currentTime q'.slotAvailableTimes

/-- **Two queues that look the same at `t`**: neither clock has passed it, or both have; the same jobs are
outstanding, and the slots are free at the same times. -/
structure AlikeAt (t : Int) (q q' : RecoveryQueue) : Prop where
  clock : q.currentTime ≤ t ↔ q'.currentTime ≤ t
  jobs : q.jobCompletionTimes.filter (t < ·) = q'.jobCompletionTimes.filter (t < ·)
  free : free t q.slotAvailableTimes = free t q'.slotAvailableTimes

variable {q q' : RecoveryQueue} {now : Int}

theorem AlikeAt.advanceTime (h : AlikeAt now q q') (hdepth : q.maxQueueDepth = q'.maxQueueDepth) :
    (∃ e, q.advanceTime now = .error e ∧ q'.advanceTime now = .error e) ∨
      ∃ r r', q.advanceTime now = .ok r ∧ q'.advanceTime now = .ok r' ∧ Alike r r' := by
  by_cases hle : q.currentTime ≤ now
  · obtain ⟨r, hr⟩ := advanceTime_accepts hle
    obtain ⟨r', hr'⟩ := advanceTime_accepts (h.clock.1 hle)
    obtain ⟨-, htime, hslots, hmax, hjobs⟩ := advanceTime_ok hr
    obtain ⟨-, htime', hslots', hmax', hjobs'⟩ := advanceTime_ok hr'
    refine .inr ⟨r, r', hr, hr', htime.trans htime'.symm, ?_, ?_, ?_⟩
    · rw [hmax, hmax', hdepth]
    · rw [hjobs, hjobs', h.jobs]
    · rw [htime, hslots, hslots', h.free]
  · left
    unfold RecoveryQueue.advanceTime
    rw [if_pos (not_le.1 hle), if_pos (not_le.1 (fun h' => hle (h.clock.2 h')))]
    exact ⟨_, rfl, rfl⟩

theorem Alike.at (h : Alike q q') (hle : q.currentTime ≤ now) : AlikeAt now q q' :=
  ⟨by rw [h.clock], by rw [h.jobs], Slots.free_congr_later hle h.free⟩

theorem Alike.advanceTime (h : Alike q q') (now : Int) :
    (∃ e, q.advanceTime now = .error e ∧ q'.advanceTime now = .error e) ∨
      ∃ r r', q.advanceTime now = .ok r ∧ q'.advanceTime now = .ok r' ∧ Alike r r' := by
  by_cases hle : q.currentTime ≤ now
  · exact (h.at hle).advanceTime h.depth
  · left
    unfold RecoveryQueue.advanceTime
    rw [← h.clock, if_pos (not_le.1 hle), if_pos (not_le.1 hle)]
    exact ⟨_, rfl, rfl⟩

theorem Alike.start_eq (h : Alike q q') (hle : q.currentTime ≤ now) :
    start now q.slotAvailableTimes q.slots_ne_nil = start now q'.slotAvailableTimes q'.slots_ne_nil :=
  Slots.start_congr _ _ (Slots.free_congr_later hle h.free)

theorem Alike.quote (h : Alike q q') (now serviceTime : Int) :
    q.getExpectedRecoveryCost now serviceTime = q'.getExpectedRecoveryCost now serviceTime := by
  unfold getExpectedRecoveryCost
  rw [← h.clock, ← h.depth, q.depth_eq_card, q'.depth_eq_card, h.jobs]
  by_cases hlt : now < q.currentTime
  · rw [if_pos hlt, if_pos hlt]
  · rw [if_neg hlt, if_neg hlt, h.start_eq (not_lt.1 hlt)]

theorem Alike.push (h : Alike q q') (hle : q.currentTime ≤ now) {serviceTime : Int} (hpos : 0 < serviceTime) :
    Alike (q.push now serviceTime hpos) (q'.push now serviceTime hpos) := by
  have hstart := h.start_eq hle
  have hnow := Slots.now_le_start now q.slotAvailableTimes q.slots_ne_nil
  have hself := Slots.start_congr q.slots_ne_nil q'.slots_ne_nil h.free
  refine ⟨h.clock, h.depth, ?_, ?_⟩
  · rw [push_jobs, push_jobs, hstart, h.jobs]
  · rw [push_slots, push_slots, push_time, ← hstart, Slots.free_assign _ (by omega), Slots.free_assign _ (by omega),
      h.free, hself]

/-! ## Queues along a history -/

/-- **What the operations do to a queue**: the dimensions stay, and neither the clock nor the slots go back. -/
structure Evolved (q₀ q : RecoveryQueue) : Prop where
  depth : q.maxQueueDepth = q₀.maxQueueDepth
  slots : q.slotAvailableTimes.length = q₀.slotAvailableTimes.length
  clock : q₀.currentTime ≤ q.currentTime
  idle : ∀ t, (∀ slot ∈ q.slotAvailableTimes, slot ≤ t) → ∀ slot ∈ q₀.slotAvailableTimes, slot ≤ t

theorem Evolved.refl (q : RecoveryQueue) : Evolved q q := ⟨rfl, rfl, le_rfl, fun _ h => h⟩

theorem Evolved.advanceTime {q₀ : RecoveryQueue} (h : Evolved q₀ q) (hadv : q.advanceTime now = .ok q') :
    Evolved q₀ q' := by
  obtain ⟨hle, htime, hslots, hmax, -⟩ := advanceTime_ok hadv
  refine ⟨hmax.trans h.depth, ?_, ?_, ?_⟩
  · rw [hslots, h.slots]
  · rw [htime]
    exact h.clock.trans hle
  · rw [hslots]
    exact h.idle

theorem Evolved.push {q₀ : RecoveryQueue} (h : Evolved q₀ q) (now : Int) {serviceTime : Int} (hpos : 0 < serviceTime) :
    Evolved q₀ (q.push now serviceTime hpos) := by
  refine ⟨h.depth, (Slots.length_assign ..).trans h.slots, h.clock, fun t ht => h.idle t (fun slot hslot => ?_)⟩
  rw [push_slots] at ht
  rcases Slots.mem_assign_of_mem q.slots_ne_nil hslot with rfl | hkept
  · have hmin := Slots.min_le_start now q.slotAvailableTimes q.slots_ne_nil
    have hlast := ht _ (Slots.self_mem_assign q.slots_ne_nil _)
    omega
  · exact ht slot hkept

/-- **A queue that is idle again** looks at `t` as it did in the beginning. -/
theorem Evolved.alikeAt_of_idle {q₀ : RecoveryQueue} (h : Evolved q₀ q) {t : Int} (hclock : q.currentTime ≤ t)
    (hidle : ∀ slot ∈ q.slotAvailableTimes, slot ≤ t) : AlikeAt t q q₀ := by
  have hidle₀ := h.idle t hidle
  have hnone : ∀ r : RecoveryQueue, (∀ slot ∈ r.slotAvailableTimes, slot ≤ t) →
      r.jobCompletionTimes.filter (t < ·) = 0 := by
    intro r hr
    refine Multiset.filter_eq_nil.2 (fun job hjob => ?_)
    obtain ⟨slot, hslot, hle⟩ := r.jobs_le_slots job hjob
    have := hr slot hslot
    omega
  refine ⟨iff_of_true hclock (h.clock.trans hclock), ?_, ?_⟩
  · rw [hnone q hidle, hnone q₀ hidle₀]
  · rw [Slots.free_of_idle hidle, Slots.free_of_idle hidle₀, h.slots]

end RecoveryQueue

namespace ClusterSimulator

variable {g : BipartiteGraph} {estimate : RecoveryServiceTimeEstimator} {oracle : WaitCostOracle}

/-! ## Runs in step -/

def RunAlike (s s' : ClusterRun) : Prop := ∃ q', s.recoveryQueue.Alike q' ∧ s' = { s with recoveryQueue := q' }

theorem considerRecovery_alike {s : ClusterRun} {q' : RecoveryQueue} (h : s.recoveryQueue.Alike q') (now : Int)
    (request : Nat) (tracker : ShardArrivalTracker) :
    (considerRecovery g estimate oracle now request tracker s).Alike RunAlike
      (considerRecovery g estimate oracle now request tracker { s with recoveryQueue := q' }) := by
  unfold considerRecovery
  cases RecoveryPolicy.createPlan g tracker with
  | error e => rfl
  | ok plan =>
    simp only
    by_cases hrec : plan.isRecoverable = false
    · rw [if_pos hrec, if_pos hrec]
      exact ⟨q', h, rfl⟩
    rw [if_neg hrec, if_neg hrec]
    cases estimate plan with
    | error e => rfl
    | ok serviceTime =>
      simp only
      cases hquote : s.recoveryQueue.getExpectedRecoveryCost now serviceTime with
      | error e =>
        rw [← h.quote, hquote]
        rfl
      | ok quote =>
        rw [← h.quote, hquote]
        cases quote with
        | none => exact ⟨q', h, rfl⟩
        | some recoveryCost =>
          simp only
          cases oracle request now with
          | error e => rfl
          | ok waitCost =>
            simp only
            by_cases hneg : waitCost < 0
            · rw [if_pos hneg, if_pos hneg]
              rfl
            rw [if_neg hneg, if_neg hneg]
            cases RecoveryPolicy.evaluatePlan plan ⟨waitCost, recoveryCost⟩ with
            | wait => exact ⟨q', h, rfl⟩
            | unrecoverable => exact ⟨q', h, rfl⟩
            | recover =>
              obtain ⟨hpos, hsubmit⟩ := submitJob_of_quote hquote
              obtain ⟨hpos', hsubmit'⟩ := submitJob_of_quote ((h.quote now serviceTime).symm.trans hquote)
              simp only [hsubmit, hsubmit']
              exact ⟨_, h.push (RecoveryQueue.getExpectedRecoveryCost_some hquote).1 hpos, rfl⟩

theorem turn_alike {s s' : ClusterRun} (h : RunAlike s s') (now : Int) (batch : Nat × List GlobalArrivalEvent) :
    (turn g estimate oracle now s batch).Alike RunAlike (turn g estimate oracle now s' batch) := by
  obtain ⟨q', hq, rfl⟩ := h
  unfold turn
  simp only
  cases s.trackers batch.1 with
  | none => rfl
  | some tracker =>
    simp only
    cases markAll now (batch.2.map GlobalArrivalEvent.shardId) tracker with
    | throws tracker' e => rfl
    | returns tracker' =>
      simp only
      by_cases hcomplete : tracker'.isSystematicComplete = true
      · rw [if_pos hcomplete, if_pos hcomplete]
        exact ⟨q', hq, rfl⟩
      rw [if_neg hcomplete, if_neg hcomplete]
      by_cases hsome : (s.recoveryCompletionTimes batch.1).isSome = true
      · rw [if_pos hsome, if_pos hsome]
        exact ⟨q', hq, rfl⟩
      rw [if_neg hsome, if_neg hsome]
      exact considerRecovery_alike (s := s.setTracker batch.1 tracker') hq now batch.1 tracker'

/-- **A step keeps two runs in step.** -/
theorem act_alike (s s' : ClusterRun) (a : Step) (h : RunAlike s s') :
    (act g estimate oracle s a).Alike RunAlike (act g estimate oracle s' a) := by
  cases a with
  | turn now request batch => exact turn_alike h now (request, batch)
  | advance now =>
    obtain ⟨q', hq, rfl⟩ := h
    simp only [act]
    by_cases hneg : now < 0
    · rw [if_pos hneg, if_pos hneg]
      rfl
    rw [if_neg hneg, if_neg hneg]
    obtain ⟨e, he, he'⟩ | ⟨r, r', hr, hr', halike⟩ := hq.advanceTime now
    · simp only [he, he']
      rfl
    · simp only [hr, hr']
      exact ⟨r', halike, rfl⟩

theorem steps_first {sorted : List GlobalArrivalEvent} (hs : sorted.Pairwise (fun a b => a.arrivalTime ≤ b.arrivalTime))
    (hne : sorted ≠ []) :
    ∃ e ∈ sorted, (∀ e' ∈ sorted, e.arrivalTime ≤ e'.arrivalTime) ∧
    ∃ rest, steps sorted = .advance e.arrivalTime :: rest := by
  cases hgroup : Batches.group GlobalArrivalEvent.arrivalTime sorted with
  | nil =>
    have hflat := Batches.group_flatMap GlobalArrivalEvent.arrivalTime sorted
    rw [hgroup] at hflat
    exact absurd hflat.symm hne
  | cons b bs =>
    have hsteps : ∃ rest, steps sorted = .advance b.1 :: rest := by
      unfold steps
      rw [hgroup, List.flatMap_cons]
      exact ⟨_, rfl⟩
    obtain ⟨rest, hrest⟩ := hsteps
    obtain ⟨e, he, htime⟩ := @step_time_mem sorted (.advance b.1) (by rw [hrest]; simp)
    change e.arrivalTime = b.1 at htime
    refine ⟨e, he, fun e' he' => ?_, rest, by rw [hrest, htime]⟩
    rw [← steps_events sorted] at he'
    obtain ⟨a, ha, hmem⟩ := List.mem_flatMap.1 he'
    have hle : b.1 ≤ a.time := by
      have hpair := steps_time hs
      rw [hrest] at ha hpair
      rcases List.mem_cons.1 ha with rfl | ha
      · exact le_rfl
      · exact (List.pairwise_cons.1 hpair).1 a ha
    cases a with
    | advance now => cases hmem
    | turn now request batch =>
      rw [htime, ((turn_mem_steps ha).2 e' hmem).2.1]
      exact hle

/-! ## Histories -/

def replay (sorter : EventSort) (sim : ClusterSimulator)
    (history : List (List GlobalArrivalEvent × Option WaitCostOracle)) : ClusterSimulator :=
  history.foldl (fun sim call => (run sorter sim call.1 call.2).1) sim

theorem considerRecovery_throws {s s' : ClusterRun} {now : Int} {request : Nat} {tracker : ShardArrivalTracker}
    {e : Exn}
    (h : considerRecovery g estimate oracle now request tracker s = .throws s' e) :
    s'.recoveryQueue = s.recoveryQueue := by
  unfold considerRecovery at h
  split at h
  · rw [← (Outcome.throws.inj h).1]
  split at h
  · cases h
  split at h
  · rw [← (Outcome.throws.inj h).1]
  split at h
  · rw [← (Outcome.throws.inj h).1]
  · cases h
  split at h
  · rw [← (Outcome.throws.inj h).1]
  split at h
  · rw [← (Outcome.throws.inj h).1]
  split at h
  · split at h
    · rw [← (Outcome.throws.inj h).1]
    · cases h
    · cases h
  · cases h
  · cases h

theorem act_evolved {q₀ : RecoveryQueue} (s : ClusterRun) (a : Step) (h : q₀.Evolved s.recoveryQueue) :
    q₀.Evolved (act g estimate oracle s a).state.recoveryQueue := by
  cases hb : act g estimate oracle s a with
  | returns s' =>
    obtain ⟨now, queue, -, -, hadv, rfl⟩ | ⟨now, request, batch, -, hturned⟩ := act_returned (by rw [hb]; rfl)
    · exact h.advanceTime hadv
    · obtain ⟨hq, -⟩ | ⟨S, C, W, hpos, -, -, -, -, hq, -⟩ := hturned.recovers
      · simp only [Outcome.state, hq]
        exact h
      · simp only [Outcome.state, hq]
        exact h.push now hpos
  | throws s' e =>
    -- a step that throws leaves the queue as it was
    have hsame : s'.recoveryQueue = s.recoveryQueue := by
      cases a with
      | advance now =>
        simp only [act] at hb
        split at hb
        · rw [← (Outcome.throws.inj hb).1]
        · split at hb
          · rw [← (Outcome.throws.inj hb).1]
          · cases hb
      | turn now request batch =>
        simp only [act, turn] at hb
        split at hb
        · rw [← (Outcome.throws.inj hb).1]
        split at hb
        · rw [← (Outcome.throws.inj hb).1]
          rfl
        split at hb
        · cases hb
        split at hb
        · cases hb
        exact (considerRecovery_throws hb).trans rfl
    simp only [Outcome.state, hsame]
    exact h

theorem run_evolved (sorter : EventSort) {q₀ : RecoveryQueue} (sim : ClusterSimulator)
    (events : List GlobalArrivalEvent) (oracle : Option WaitCostOracle) (h : q₀.Evolved sim.recoveryQueue) :
    (run sorter sim events oracle).1.graph = sim.graph ∧
      (run sorter sim events oracle).1.estimateRecoveryServiceTime = sim.estimateRecoveryServiceTime ∧
      q₀.Evolved (run sorter sim events oracle).1.recoveryQueue := by
  unfold run
  cases oracle with
  | none => exact ⟨rfl, rfl, h⟩
  | some oracle =>
    simp only
    split
    · exact ⟨rfl, rfl, h⟩
    rename_i trackers starts hv
    have hend :
        q₀.Evolved (loopInPlace (act sim.graph sim.estimateRecoveryServiceTime oracle) (steps (sorter.sort events))
        (starting sim.recoveryQueue trackers)).state.recoveryQueue :=
      loopInPlace_state (I := fun s : ClusterRun => q₀.Evolved s.recoveryQueue) (fun s a hs => act_evolved s a hs) _ _ h
    unfold starting at hend
    rw [instants_eq_loop]
    split
    · rename_i s e hloop
      rw [hloop] at hend
      exact ⟨rfl, rfl, hend⟩
    · rename_i s hloop
      rw [hloop] at hend
      exact ⟨rfl, rfl, hend⟩

theorem replay_evolved (sorter : EventSort) (sim : ClusterSimulator) :
    ∀ (history : List (List GlobalArrivalEvent × Option WaitCostOracle)),
    (replay sorter sim history).graph = sim.graph ∧
      (replay sorter sim history).estimateRecoveryServiceTime = sim.estimateRecoveryServiceTime ∧
      sim.recoveryQueue.Evolved (replay sorter sim history).recoveryQueue := by
  intro history
  induction history using List.reverseRecOn with
  | nil => exact ⟨rfl, rfl, .refl _⟩
  | append_singleton history call ih =>
    have hstep : replay sorter sim (history ++ [call]) = (run sorter (replay sorter sim history) call.1 call.2).1 := by
      unfold replay
      rw [List.foldl_append, List.foldl_cons, List.foldl_nil]
    obtain ⟨hgraph, hest, hevolved⟩ := ih
    obtain ⟨hgraph', hest', hevolved'⟩ := run_evolved sorter (replay sorter sim history) call.1 call.2 hevolved
    rw [hstep]
    exact ⟨hgraph'.trans hgraph, hest'.trans hest, hevolved'⟩

/-- **The queue looks to the events as it did when it was constructed**, at their first arrival; events that the first
loop refuses, or that begin before time zero, never get to see it. -/
def Undisturbed (q₀ q : RecoveryQueue) (events : List GlobalArrivalEvent) : Prop :=
  Started events → ∀ e ∈ events, (∀ e' ∈ events, e.arrivalTime ≤ e'.arrivalTime) → 0 ≤ e.arrivalTime →
    q.AlikeAt e.arrivalTime q₀

theorem instants_alike {sorted : List GlobalArrivalEvent}
    (hs : sorted.Pairwise (fun a b => a.arrivalTime ≤ b.arrivalTime)) {q q' : RecoveryQueue}
    (hdepth : q.maxQueueDepth = q'.maxQueueDepth)
    (h : ∀ e ∈ sorted, (∀ e' ∈ sorted, e.arrivalTime ≤ e'.arrivalTime) → 0 ≤ e.arrivalTime → q.AlikeAt e.arrivalTime q')
    (trackers : Nat → Option ShardArrivalTracker) :
    (loopInPlace (act g estimate oracle) (steps sorted) (starting q trackers)).Alike
      (fun s s' => ∃ r', s' = { s with recoveryQueue := r' })
      (loopInPlace (act g estimate oracle) (steps sorted) (starting q' trackers)) := by
  have hweaken : ∀ o o' : Outcome ClusterRun, o.Alike RunAlike o' →
      o.Alike (fun s s' => ∃ r', s' = { s with recoveryQueue := r' }) o' := by
    intro o o' ho
    cases o <;> cases o'
    · obtain ⟨r', -, hr'⟩ := ho
      exact ⟨r', hr'⟩
    · exact ho
    · exact ho
    · exact ho
  by_cases hne : sorted = []
  · subst hne
    exact ⟨q', rfl⟩
  obtain ⟨e, he, hmin, rest, hsteps⟩ := steps_first hs hne
  rw [hsteps, loopInPlace, loopInPlace]
  simp only [act]
  by_cases hneg : e.arrivalTime < 0
  · rw [if_pos hneg, if_pos hneg]
    rfl
  rw [if_neg hneg, if_neg hneg]
  obtain ⟨x, hx, hx'⟩ | ⟨r, r', hr, hr', halike⟩ := (h e he hmin (not_lt.1 hneg)).advanceTime hdepth
  · simp only [starting, hx, hx']
    rfl
  · simp only [starting, hr, hr']
    exact hweaken _ _ (loopInPlace_alike act_alike rest _ _ ⟨r', halike, rfl⟩)

/-- **A queue that looks the same gives the same outcome.** -/
theorem run_undisturbed (sorter : EventSort) {sim sim' : ClusterSimulator} (hgraph : sim.graph = sim'.graph)
    (hest : sim.estimateRecoveryServiceTime = sim'.estimateRecoveryServiceTime)
    (hdepth : sim.recoveryQueue.maxQueueDepth = sim'.recoveryQueue.maxQueueDepth) {events : List GlobalArrivalEvent}
    (h : Undisturbed sim'.recoveryQueue sim.recoveryQueue events) (oracle : Option WaitCostOracle) :
    (run sorter sim events oracle).2 = (run sorter sim' events oracle).2 := by
  unfold run
  cases oracle with
  | none => rfl
  | some oracle =>
    simp only
    rw [← hgraph, ← hest]
    cases hv : loopInPlace (validateEvent sim.graph) (sorter.sort events) (fun _ => none, fun _ => none) with
    | throws s e => rfl
    | returns s =>
      obtain ⟨trackers, starts⟩ := s
      have hp := sorter.perm events
      have hstarted := (validated_of_returns hv).consistent.perm hp
      have halike :=
        @instants_alike sim.graph sim.estimateRecoveryServiceTime oracle _ (sorter.sorted_time events) _ _ hdepth
        (fun e he hmin hpos => h hstarted e (hp.mem_iff.1 he) (fun e' he' => hmin e' (hp.mem_iff.2 he')) hpos) trackers
      simp only [instants_eq_loop]
      unfold starting at halike
      revert halike
      cases loopInPlace (act sim.graph sim.estimateRecoveryServiceTime oracle) (steps (sorter.sort events)) _ <;>
        cases loopInPlace (act sim.graph sim.estimateRecoveryServiceTime oracle) (steps (sorter.sort events)) _
      · rintro ⟨r', rfl⟩
        rfl
      · exact False.elim
      · exact False.elim
      · rintro rfl
        rfl

/-- **An arrival behind the clock of the queue makes a run throw.** -/
theorem run_behind_clock (sorter : EventSort) (sim : ClusterSimulator) {events : List GlobalArrivalEvent}
    {e : GlobalArrivalEvent} (he : e ∈ events) (hlt : e.arrivalTime < sim.recoveryQueue.currentTime)
    (oracle : Option WaitCostOracle) : ∃ x, (run sorter sim events oracle).2 = .error x := by
  unfold run
  cases oracle with
  | none => exact ⟨_, rfl⟩
  | some oracle =>
    simp only
    cases hv : loopInPlace (validateEvent sim.graph) (sorter.sort events) (fun _ => none, fun _ => none) with
    | throws s x => exact ⟨x, rfl⟩
    | returns s =>
      obtain ⟨trackers, starts⟩ := s
      have hmem := (sorter.perm events).mem_iff.2 he
      obtain ⟨first, -, hmin, rest, hsteps⟩ := steps_first (sorter.sorted_time events) (List.ne_nil_of_mem hmem)
      have hbehind : first.arrivalTime < sim.recoveryQueue.currentTime := lt_of_le_of_lt (hmin e hmem) hlt
      simp only [instants_eq_loop, hsteps, loopInPlace, act]
      by_cases hneg : first.arrivalTime < 0
      · rw [if_pos hneg]
        exact ⟨_, rfl⟩
      · rw [if_neg hneg]
        simp only [RecoveryQueue.advanceTime, if_pos hbehind]
        exact ⟨_, rfl⟩

/-- **Running a simulator again**: after any history of calls, however they ended, a run ends as on a simulator just
constructed if it has no oracle, or the queue looks to its first arrival as it did then, as it does when the queue is
idle again; and a run with an arrival behind the clock that the history left throws, so that it ends alike only if the
simulator just constructed throws too. -/
theorem run_after_history (sorter : EventSort) {g : BipartiteGraph} {queue : RecoveryQueue}
    {estimator : Option RecoveryServiceTimeEstimator} {sim : ClusterSimulator}
    (hmake : ClusterSimulator.make g queue estimator = .ok sim)
    (history : List (List GlobalArrivalEvent × Option WaitCostOracle)) (events : List GlobalArrivalEvent)
    (oracle : Option WaitCostOracle) :
    ((oracle.isSome = true → Undisturbed queue (replay sorter sim history).recoveryQueue events) →
      (run sorter (replay sorter sim history) events oracle).2 = (run sorter sim events oracle).2) ∧
    ((∀ e ∈ events, (replay sorter sim history).recoveryQueue.currentTime ≤ e.arrivalTime ∧
        ∀ slot ∈ (replay sorter sim history).recoveryQueue.slotAvailableTimes, slot ≤ e.arrivalTime) →
      Undisturbed queue (replay sorter sim history).recoveryQueue events) ∧
    ((∃ e ∈ events, e.arrivalTime < (replay sorter sim history).recoveryQueue.currentTime) →
      (∃ x, (run sorter (replay sorter sim history) events oracle).2 = .error x) ∧
      (SameOutcome (run sorter (replay sorter sim history) events oracle).2 (run sorter sim events oracle).2 ↔
        ∃ y, (run sorter sim events oracle).2 = .error y)) := by
  have hqueue : sim.recoveryQueue = queue := by
    unfold ClusterSimulator.make at hmake
    split at hmake
    · cases hmake
    split at hmake
    · cases hmake
    · rw [← Except.ok.inj hmake]
  obtain ⟨hgraph, hest, hevolved⟩ := replay_evolved sorter sim history
  refine ⟨fun h => ?_, fun h _ e he _ _ => ?_, fun ⟨e, he, hlt⟩ => ?_⟩
  · cases oracle with
    | none => rfl
    | some oracle => exact run_undisturbed sorter hgraph hest hevolved.depth (hqueue ▸ h rfl) (some oracle)
  · rw [← hqueue]
    exact hevolved.alikeAt_of_idle (h e he).1 (h e he).2
  · obtain ⟨x, hx⟩ := run_behind_clock sorter (replay sorter sim history) he hlt oracle
    rw [hx]
    refine ⟨⟨x, rfl⟩, fun hsame => ?_, fun ⟨y, hy⟩ => .inl ⟨x, y, rfl, hy⟩⟩
    rcases hsame with ⟨_, y, -, hy⟩ | ⟨_, h, -⟩
    · exact ⟨y, hy⟩
    · cases h

/-- A request over `makeGraph` that is recovered, and the same request after that recovery is long complete. -/
def earlierArrivals : List GlobalArrivalEvent := [⟨1, 0, 0, 0⟩, ⟨2, 0, 2, 0⟩, ⟨9, 0, 1, 0⟩]

def laterArrivals : List GlobalArrivalEvent := [⟨11, 0, 0, 10⟩, ⟨12, 0, 2, 10⟩, ⟨19, 0, 1, 10⟩]

theorem run_after_history_later : ∃ queue sim, RecoveryQueue.make 1 1 = .ok queue ∧
    ClusterSimulator.make makeGraph queue (some (fun _ => .ok 2)) = .ok sim ∧
    Undisturbed queue (replay .stable sim [(earlierArrivals, some (fun _ _ => .ok 5))]).recoveryQueue laterArrivals ∧
    (run .stable (replay .stable sim [(earlierArrivals, some (fun _ _ => .ok 5))]) laterArrivals
      (some (fun _ _ => .ok 5))).2 = (run .stable sim laterArrivals (some (fun _ _ => .ok 5))).2 := by
  obtain ⟨queue, hqueue⟩ : ∃ queue, RecoveryQueue.make 1 1 = .ok queue := ⟨_, rfl⟩
  obtain ⟨sim, hsim⟩ : ∃ sim, ClusterSimulator.make makeGraph queue (some (fun _ => .ok 2)) = .ok sim := ⟨_, rfl⟩
  have hidle : ∀ e ∈ laterArrivals,
      (replay .stable sim [(earlierArrivals, some (fun _ _ => .ok 5))]).recoveryQueue.currentTime ≤ e.arrivalTime ∧
      ∀ slot ∈ (replay .stable sim [(earlierArrivals, some (fun _ _ => .ok 5))]).recoveryQueue.slotAvailableTimes,
        slot ≤ e.arrivalTime := by
    obtain rfl := (Except.ok.inj hsim).symm
    obtain rfl := (Except.ok.inj hqueue).symm
    decide +kernel
  obtain ⟨hsame, hundisturbed, -⟩ := run_after_history .stable hsim [(earlierArrivals, some (fun _ _ => .ok 5))]
    laterArrivals (some (fun _ _ => .ok 5))
  exact ⟨queue, sim, hqueue, hsim, hundisturbed hidle, hsame (fun _ => hundisturbed hidle)⟩

/-- Shard 0 and later shard 1 of `makeGraph`, in two runs: the second one throws. -/
theorem run_twice_throws : ∃ queue sim, RecoveryQueue.make 1 1 = .ok queue ∧
    ClusterSimulator.make makeGraph queue (some (fun _ => .ok 2)) = .ok sim ∧
    (run .stable sim [⟨1, 0, 0, 0⟩, ⟨5, 0, 1, 0⟩] (some (fun _ _ => .ok 0))).2 =
      .ok [(0, ⟨5, false, false, false, false, true⟩)] ∧
    (run .stable (replay .stable sim [([⟨1, 0, 0, 0⟩, ⟨5, 0, 1, 0⟩], some (fun _ _ => .ok 0))])
      [⟨1, 0, 0, 0⟩, ⟨5, 0, 1, 0⟩] (some (fun _ _ => .ok 0))).2 =
      .error (.invalidArgument "RecoveryQueue time must be monotonic") ∧
    ¬ SameOutcome
      (run .stable (replay .stable sim [([⟨1, 0, 0, 0⟩, ⟨5, 0, 1, 0⟩], some (fun _ _ => .ok 0))])
        [⟨1, 0, 0, 0⟩, ⟨5, 0, 1, 0⟩] (some (fun _ _ => .ok 0))).2
      (run .stable sim [⟨1, 0, 0, 0⟩, ⟨5, 0, 1, 0⟩] (some (fun _ _ => .ok 0))).2 := by
  obtain ⟨queue, hqueue⟩ : ∃ queue, RecoveryQueue.make 1 1 = .ok queue := ⟨_, rfl⟩
  obtain ⟨sim, hsim⟩ : ∃ sim, ClusterSimulator.make makeGraph queue (some (fun _ => .ok 2)) = .ok sim := ⟨_, rfl⟩
  have hfresh : (run .stable sim [⟨1, 0, 0, 0⟩, ⟨5, 0, 1, 0⟩] (some (fun _ _ => .ok 0))).2 =
      .ok [(0, ⟨5, false, false, false, false, true⟩)] := by
    obtain rfl := (Except.ok.inj hsim).symm
    obtain rfl := (Except.ok.inj hqueue).symm
    decide +kernel
  have hagain : (run .stable (replay .stable sim [([⟨1, 0, 0, 0⟩, ⟨5, 0, 1, 0⟩], some (fun _ _ => .ok 0))])
      [⟨1, 0, 0, 0⟩, ⟨5, 0, 1, 0⟩] (some (fun _ _ => .ok 0))).2 =
      .error (.invalidArgument "RecoveryQueue time must be monotonic") := by
    obtain rfl := (Except.ok.inj hsim).symm
    obtain rfl := (Except.ok.inj hqueue).symm
    decide +kernel
  refine ⟨queue, sim, hqueue, hsim, hfresh, hagain, ?_⟩
  rw [hfresh, hagain]
  rintro (⟨e, e', -, h⟩ | ⟨m, h, -⟩)
  · cases h
  · cases h

end ClusterSimulator

end CodedLLM
