import CodedLLM.ClusterTurns
/-!
# ClusterIsolation — with a decoder for every request, requests do not meet

The turns of one request are the instants of a simulation of its arrivals alone (`turnsOf_eq_group`).  On a fresh
queue with as many slots, and as much room, as there are requests, every quote is the service time itself
(`Ample.start_eq`): each request takes one slot at most.  The two loops then decide alike turn by turn (`follow`), and
report the same.
-/
namespace CodedLLM

open Runs

namespace ClusterSimulator

/-! ## The turns of one request -/

def toArrival (e : GlobalArrivalEvent) : ShardArrivalEvent := ⟨e.shardId, e.arrivalTime⟩

def turnOf (r : Nat) : Step → Option (Int × List ShardArrivalEvent)
  | .advance _ => none
  | .turn now request batch => if request = r then some (now, batch.map toArrival) else none

def turnsOf (r : Nat) (as : List Step) : List (Int × List ShardArrivalEvent) := as.filterMap (turnOf r)

theorem turnOf_eq_some {r : Nat} {a : Step} {b : Int × List ShardArrivalEvent} (h : turnOf r a = some b) :
    ∃ batch, a = .turn b.1 r batch ∧ b.2 = batch.map toArrival := by
  cases a with
  | advance now => cases h
  | turn now request batch =>
    rw [turnOf] at h
    by_cases hreq : request = r
    · rw [if_pos hreq] at h
      obtain rfl := Option.some.inj h
      exact ⟨batch, by rw [hreq], rfl⟩
    · rw [if_neg hreq] at h
      cases h

theorem turnsOf_flatMap (r : Nat) : ∀ (as : List Step),
    (∀ now request batch, .turn now request batch ∈ as → ∀ e ∈ batch, e.requestId = request) →
    (turnsOf r as).flatMap Prod.snd = ((as.flatMap Step.events).filter (fun e => e.requestId = r)).map toArrival
  | [], _ => rfl
  | .advance now :: as, h => by
    rw [List.flatMap_cons, Step.events, List.nil_append]
    exact turnsOf_flatMap r as (fun n q b hb => h n q b (by simp [hb]))
  | .turn now request batch :: as, h => by
    have hbatch := h now request batch (by simp)
    have hrest := turnsOf_flatMap r as (fun n q b hb => h n q b (by simp [hb]))
    rw [List.flatMap_cons, Step.events, List.filter_append, List.map_append, ← hrest]
    unfold turnsOf
    by_cases hreq : request = r
    · have hall : batch.filter (fun e => e.requestId = r) = batch :=
        List.filter_eq_self.2 (fun e he => by simpa [hreq] using hbatch e he)
      rw [List.filterMap_cons_some (b := (now, batch.map toArrival)) (by rw [turnOf, if_pos hreq]), List.flatMap_cons,
        hall]
    · have hnone : batch.filter (fun e => e.requestId = r) = [] :=
        List.filter_eq_nil_iff.2 (fun e he => by simpa [hbatch e he] using hreq)
      rw [List.filterMap_cons_none (by rw [turnOf, if_neg hreq]), hnone]
      rfl

theorem steps_turns {sorted : List GlobalArrivalEvent} (h : sorted.Pairwise GlobalArrivalEvent.Before) :
    (steps sorted).Pairwise (fun a b => ∀ r, (turnOf r a).isSome → (turnOf r b).isSome → a.time < b.time) := by
  have htime := h.imp GlobalArrivalEvent.Before.time
  unfold steps
  rw [List.pairwise_flatMap]
  refine ⟨fun b hb => ?_, (List.pairwise_map.1 (Batches.group_sorted htime)).imp (fun hlt x hx y hy _ _ _ => ?_)⟩
  · -- within an instant the requests are in order
    have hbatch : b.2.Pairwise (fun x y => x.requestId ≤ y.requestId) := by
      have hsub : b.2.Sublist sorted := by
        rw [Batches.eq_filter_of_mem_group htime hb]
        exact List.filter_sublist
      refine (h.sublist hsub).imp_of_mem (fun {x y} hx hy hxy => hxy.request ?_)
      have hkeyed := (Batches.group_grouped GlobalArrivalEvent.arrivalTime sorted).keyed b hb
      rw [hkeyed x hx, hkeyed y hy]
    unfold instantSteps
    rw [List.pairwise_cons, List.pairwise_map]
    refine ⟨fun _ _ _ hx _ => (by cases hx), (List.pairwise_map.1 (Batches.group_sorted hbatch)).imp ?_⟩
    intro x y hlt r hx hy
    simp only [turnOf] at hx hy
    split at hx
    · rename_i hxr
      split at hy
      · rename_i hyr
        rw [hxr, hyr] at hlt
        exact absurd hlt (lt_irrefl r)
      · cases hy
    · cases hx
  · rw [time_of_mem_instantSteps hx, time_of_mem_instantSteps hy]
    exact hlt

/-- **The turns of a request are the instants of its arrivals.** -/
theorem turnsOf_eq_group {sorted : List GlobalArrivalEvent} (h : sorted.Pairwise GlobalArrivalEvent.Before) (r : Nat) :
    turnsOf r (steps sorted) =
      Batches.group ShardArrivalEvent.arrivalTime ((sorted.filter (fun e => e.requestId = r)).map toArrival) := by
  have hturn : ∀ b ∈ turnsOf r (steps sorted), ∃ batch, .turn b.1 r batch ∈ steps sorted ∧
      b.2 = batch.map toArrival := by
    intro b hb
    obtain ⟨a, ha, hab⟩ := List.mem_filterMap.1 hb
    obtain ⟨batch, rfl, hbatch⟩ := turnOf_eq_some hab
    exact ⟨batch, ha, hbatch⟩
  have hgrouped : Batches.Grouped ShardArrivalEvent.arrivalTime (turnsOf r (steps sorted)) := by
    refine ⟨fun b hb => ?_, fun b hb x hx => ?_, ?_⟩
    · obtain ⟨batch, hmem, hbatch⟩ := hturn b hb
      rw [hbatch]
      simpa using (turn_mem_steps hmem).1
    · obtain ⟨batch, hmem, hbatch⟩ := hturn b hb
      rw [hbatch] at hx
      obtain ⟨e, he, rfl⟩ := List.mem_map.1 hx
      exact ((turn_mem_steps hmem).2 e he).2.1
    · apply List.Pairwise.isChain
      rw [List.pairwise_map]
      refine List.Pairwise.filterMap (turnOf r) (fun a a' haa b hb b' hb' => ?_) (steps_turns h)
      obtain ⟨batch, rfl, -⟩ := turnOf_eq_some hb
      obtain ⟨batch', rfl, -⟩ := turnOf_eq_some hb'
      exact ne_of_lt (haa r (by rw [hb]; rfl) (by rw [hb']; rfl))
  have hflat := turnsOf_flatMap r (steps sorted) (fun now request batch hmem e he => ((turn_mem_steps hmem).2 e he).2.2)
  rw [steps_events] at hflat
  rw [← hflat, Batches.group_unique _ hgrouped]

/-! ## A slot for every request -/

def recovered (requests : List Nat) (s : ClusterRun) : Nat :=
  requests.countP (fun r => (s.recoveryCompletionTimes r).isSome)

/-- **A queue with room for every request**: each recovery has taken one slot and one place at most. -/
structure Ample (requests : List Nat) (s : ClusterRun) : Prop where
  slots : requests.length ≤ s.recoveryQueue.slotAvailableTimes.length
  depth : requests.length ≤ s.recoveryQueue.maxQueueDepth
  busy : s.recoveryQueue.slotAvailableTimes.countP (0 < ·) ≤ recovered requests s
  jobs : s.recoveryQueue.jobCompletionTimes.card ≤ recovered requests s

variable {g : BipartiteGraph} {estimate : RecoveryServiceTimeEstimator} {oracle : WaitCostOracle} {now : Int}
    {request : Nat}
  {batch : List GlobalArrivalEvent} {s s' : ClusterRun} {requests : List Nat}

theorem Ample.starting {c d : Nat} {queue : RecoveryQueue} (h : RecoveryQueue.make c d = .ok queue)
    (hc : requests.length ≤ c) (hd : requests.length ≤ d) (trackers : Nat → Option ShardArrivalTracker) :
    Ample requests (starting queue trackers) := by
  obtain ⟨-, hslots, hmax, hjobs, -⟩ := RecoveryQueue.make_ok h
  refine ⟨?_, ?_, ?_, ?_⟩
  · change requests.length ≤ queue.slotAvailableTimes.length
    rw [hslots, List.length_replicate]
    exact hc
  · change requests.length ≤ queue.maxQueueDepth
    rw [hmax]
    exact hd
  · change queue.slotAvailableTimes.countP (0 < ·) ≤ _
    rw [hslots, List.countP_eq_zero.2 (fun x hx => by rw [List.eq_of_mem_replicate hx]; simp)]
    exact Nat.zero_le _
  · change queue.jobCompletionTimes.card ≤ _
    rw [hjobs, Multiset.card_zero]
    exact Nat.zero_le _

theorem recovered_lt (hmem : request ∈ requests) (hnone : s.recoveryCompletionTimes request = none) :
    recovered requests s < requests.length := by
  unfold recovered
  refine lt_of_le_of_ne List.countP_le_length (fun heq => ?_)
  have := List.countP_eq_length.1 heq request hmem
  rw [hnone] at this
  cases this

/-- **Such a queue quotes the service time** to a request that has no recovery yet. -/
theorem Ample.start_eq (h : Ample requests s) (hmem : request ∈ requests)
    (hnone : s.recoveryCompletionTimes request = none) (hnow : 0 ≤ now) :
    Slots.start now s.recoveryQueue.slotAvailableTimes s.recoveryQueue.slots_ne_nil = now ∧
      s.recoveryQueue.currentQueueDepth < s.recoveryQueue.maxQueueDepth := by
  have hlt := recovered_lt hmem hnone
  constructor
  · -- some slot has never been used
    have hfree : ∃ slot ∈ s.recoveryQueue.slotAvailableTimes, ¬ 0 < slot := by
      by_contra hall
      push Not at hall
      have hcount : s.recoveryQueue.slotAvailableTimes.countP (0 < ·) = s.recoveryQueue.slotAvailableTimes.length :=
        List.countP_eq_length.2 (fun slot hslot => by simpa using hall slot hslot)
      have hbusy := h.busy
      have hslots := h.slots
      omega
    obtain ⟨slot, hslot, hle⟩ := hfree
    have hmin := List.min_le_of_mem hslot
    apply max_eq_left
    omega
  · have hjobs := h.jobs
    have hdepth := h.depth
    rw [s.recoveryQueue.depth_eq_card]
    omega

theorem Ample.advance (h : Ample requests s) {queue : RecoveryQueue}
    (hadv : s.recoveryQueue.advanceTime now = .ok queue) : Ample requests { s with recoveryQueue := queue } := by
  obtain ⟨-, -, hslots, hmax, hjobs⟩ := RecoveryQueue.advanceTime_ok hadv
  refine ⟨?_, ?_, ?_, ?_⟩
  · change _ ≤ queue.slotAvailableTimes.length
    rw [hslots]
    exact h.slots
  · change _ ≤ queue.maxQueueDepth
    rw [hmax]
    exact h.depth
  · change queue.slotAvailableTimes.countP (0 < ·) ≤ _
    rw [hslots]
    exact h.busy
  · change queue.jobCompletionTimes.card ≤ _
    rw [hjobs]
    exact (Multiset.card_le_card (Multiset.filter_le ..)).trans h.jobs

theorem recovered_update (hmem : request ∈ requests) (hnone : s.recoveryCompletionTimes request = none) {C : Int}
    (h : s'.recoveryCompletionTimes = Function.update s.recoveryCompletionTimes request (some C)) :
    recovered requests s + 1 ≤ recovered requests s' := by
  obtain ⟨pre, post, rfl⟩ := List.append_of_mem hmem
  have hmono : ∀ l : List Nat, recovered l s ≤ recovered l s' := by
    intro l
    refine List.countP_mono_left (fun r _ hr => ?_)
    rw [h]
    by_cases hreq : r = request
    · rw [hreq, Function.update_self]
      rfl
    · rwa [Function.update_of_ne hreq]
  have hpre := hmono pre
  have hpost := hmono post
  have hself : (s'.recoveryCompletionTimes request).isSome = true := by
    rw [h, Function.update_self]
    rfl
  unfold recovered at hpre hpost ⊢
  rw [List.countP_append, List.countP_append, List.countP_cons_of_neg (by simp [hnone]),
    List.countP_cons_of_pos (by simp [hself])]
  omega

/-- **A turn takes one slot and one place at most, for its own request.** -/
theorem Ample.turn (h : Ample requests s) (hmem : request ∈ requests)
    (ht : Turned g estimate oracle now request batch s s') : Ample requests s' := by
  obtain ⟨hq, hr⟩ | ⟨S, C, W, hpos, hnone, -, -, -, hq, hr⟩ := ht.recovers
  · have hsame : recovered requests s' = recovered requests s := by
      unfold recovered
      rw [hr]
    refine ⟨?_, ?_, ?_, ?_⟩
    · rw [hq]
      exact h.slots
    · rw [hq]
      exact h.depth
    · rw [hq, hsame]
      exact h.busy
    · rw [hq, hsame]
      exact h.jobs
  · have hmore := recovered_update hmem hnone hr
    refine ⟨?_, ?_, ?_, ?_⟩
    · rw [hq, RecoveryQueue.push_slots, Slots.length_assign]
      exact h.slots
    · rw [hq, RecoveryQueue.push_maxDepth]
      exact h.depth
    · rw [hq, RecoveryQueue.push_slots]
      have hassign := Slots.countP_assign_le (fun slot => decide (0 < slot)) s.recoveryQueue.slotAvailableTimes
        s.recoveryQueue.slots_ne_nil
          (Slots.start now s.recoveryQueue.slotAvailableTimes s.recoveryQueue.slots_ne_nil + S)
      have hbusy := h.busy
      omega
    · rw [hq, RecoveryQueue.push_jobs, Multiset.card_cons]
      have hjobs := h.jobs
      omega

/-! ## Two loops in step -/

theorem Turned.frame (h : Turned g estimate oracle now request batch s s') {r : Nat} (hr : r ≠ request) :
    s'.trackers r = s.trackers r ∧ s'.naturalCompletionTimes r = s.naturalCompletionTimes r ∧
      s'.recoveryCompletionTimes r = s.recoveryCompletionTimes r := by
  obtain ⟨t, t', -, -, htrackers, hnatural⟩ := h.marks
  refine ⟨?_, ?_, ?_⟩
  · rw [htrackers, Function.update_of_ne hr]
  · rw [hnatural]
    split
    · exact tryEmplace_of_ne _ hr _
    · rfl
  · obtain ⟨-, hrec⟩ | ⟨S, C, W, hpos, -, -, -, -, -, hrec⟩ := h.recovers
    · rw [hrec]
    · rw [hrec, Function.update_of_ne hr]

theorem markAll_complete {t t' : ShardArrivalTracker} {ids : List Nat} (h : markAll now ids t = .returns t')
    (hc : t.isSystematicComplete = true) : t'.isSystematicComplete = true := by
  obtain ⟨hids, rfl⟩ := markAll_returns h
  rw [ShardArrivalTracker.isSystematicComplete_iff] at hc ⊢
  intro i hi
  rw [arrived_stampAll ids t.arrivals hids, hc i hi, Bool.or_true]

structure Settled (r : Nat) (T : Int) (recovery : Option Int) (s : ClusterRun) : Prop where
  tracker : ∃ t, s.trackers r = some t ∧ t.isSystematicComplete = true
  natural : s.naturalCompletionTimes r = some T
  recovery : s.recoveryCompletionTimes r = recovery

theorem Settled.step {r : Nat} {T : Int} {recovery : Option Int} (h : Settled r T recovery s) {a : Step}
    (hstep : (act g estimate oracle s a).returned = some s') : Settled r T recovery s' := by
  obtain ⟨now, queue, -, -, -, rfl⟩ | ⟨now, request, batch, -, hturned⟩ := act_returned hstep
  · exact ⟨h.tracker, h.natural, h.recovery⟩
  by_cases hr : r = request
  · subst hr
    obtain ⟨u, hu, hcomplete⟩ := h.tracker
    cases hturned with
    | completed t t' hold hmark hcomplete' =>
      refine ⟨⟨t', Function.update_self .., hcomplete'⟩, ?_, h.recovery⟩
      change tryEmplace s.naturalCompletionTimes r now r = some T
      rw [tryEmplace_of_some h.natural, h.natural]
    | recovering t t' completion hold hmark hincomplete hsome =>
      obtain rfl := Option.some.inj (hu.symm.trans hold)
      rw [markAll_complete hmark hcomplete] at hincomplete
      cases hincomplete
    | considered t t' _ hold hmark hincomplete hnone hdone =>
      obtain rfl := Option.some.inj (hu.symm.trans hold)
      rw [markAll_complete hmark hcomplete] at hincomplete
      cases hincomplete
  · obtain ⟨htracker, hnatural, hrecovery⟩ := hturned.frame hr
    exact ⟨by rw [htracker]; exact h.tracker, hnatural.trans h.natural, hrecovery.trans h.recovery⟩

/-- **The simulation relation**: the request as the cluster sees it, and as its own simulation does. -/
structure Follows (r : Nat) (s : ClusterRun) (t : ShardArrivalTracker) (p : RequestSimulation.Progress) : Prop where
  tracker : s.trackers r = some t
  natural : s.naturalCompletionTimes r = none
  pending : p.naturalCompletionTime = none
  completion : p.recoveryCompletionTime = s.recoveryCompletionTimes r
  started : p.recoveryStartTime.isSome = (s.recoveryCompletionTimes r).isSome

variable {r : Nat} {t : ShardArrivalTracker} {p : RequestSimulation.Progress} {serviceTime : Int}
    {wait : Nat → Int → Int}

theorem Follows.considered (h : Follows r s t p) (hample : Ample requests s) (hr : r ∈ requests) (hnow : 0 ≤ now)
    (hpos : 0 < serviceTime) (hincomplete : t.isSystematicComplete = false) (hnone : s.recoveryCompletionTimes r = none)
    (hdone : Considered g (fun _ => .ok serviceTime) (fun q now => .ok (wait q now)) now r t s s') :
    ∃ p', RequestSimulation.considerRecovery g (fun now => .ok ⟨wait r now, serviceTime⟩) now t p = .ok p' ∧
      Follows r s' t p' := by
  obtain ⟨hstart, hdepth⟩ := hample.start_eq hr hnone hnow
  have hidle : p.recoveryStartTime.isSome = false := by
    rw [h.started, hnone]
    rfl
  have hcost : ∀ cost, s.recoveryQueue.getExpectedRecoveryCost now serviceTime = .ok (some cost) →
      cost = serviceTime := by
    intro cost hquote
    obtain ⟨-, -, -, hcost⟩ := RecoveryQueue.getExpectedRecoveryCost_some hquote
    omega
  have hdecide : ∀ plan, RecoveryPolicy.createPlan g t = .ok plan → _ := fun plan hplan =>
    @RequestSimulation.considerRecovery_planned g (fun now => .ok ⟨wait r now, serviceTime⟩) now (wait r now)
      serviceTime t p plan hidle hplan hincomplete rfl hpos.le
  cases hdone with
  | unrecoverable plan hplan hrec =>
    rw [hdecide plan hplan, if_neg (by simp [RecoveryPolicy.evaluatePlan_eq_recover, hrec])]
    exact ⟨p, rfl, h.tracker, h.natural, h.pending, h.completion, h.started⟩
  | rejected plan S hplan hrec hest hquote =>
    obtain rfl := Except.ok.inj hest
    unfold RecoveryQueue.getExpectedRecoveryCost RecoveryQueue.validateServiceTime at hquote
    rw [if_neg (not_le.2 hpos), if_neg (not_le.2 hdepth)] at hquote
    split at hquote
    · cases hquote
    · cases hquote
  | waited plan S C W hplan hrec hest hquote hwait hle =>
    obtain rfl := Except.ok.inj hest
    obtain rfl := Except.ok.inj hwait
    obtain rfl := hcost C hquote
    rw [hdecide plan hplan, if_neg (fun hrecover => hle.not_gt (RecoveryPolicy.evaluatePlan_eq_recover.1 hrecover).2)]
    exact ⟨p, rfl, h.tracker, h.natural, h.pending, h.completion, h.started⟩
  | admitted plan S C W hplan hrec hest hquote hwait hlt hpos' =>
    obtain rfl := Except.ok.inj hest
    obtain rfl := Except.ok.inj hwait
    obtain rfl := hcost C hquote
    rw [hdecide plan hplan, if_pos (RecoveryPolicy.evaluatePlan_eq_recover.2 ⟨hrec, hlt⟩)]
    have hset : tryEmplace s.recoveryCompletionTimes r (now + C) r = some (now + C) := by
      rw [tryEmplace_self, hnone, Option.getD_none]
    refine ⟨_, rfl, h.tracker, h.natural, h.pending, hset.symm, ?_⟩
    change true = (tryEmplace s.recoveryCompletionTimes r (now + C) r).isSome
    rw [hset]
    rfl

/-- **One turn of the request, in both loops**: it completes the request, or the two go on together. -/
theorem Follows.turn (h : Follows r s t p) (hample : Ample requests s) (hr : r ∈ requests) (hnow : 0 ≤ now)
    (hpos : 0 < serviceTime)
    (hturned : Turned g (fun _ => .ok serviceTime) (fun q now => .ok (wait q now)) now r batch s s') :
    ∃ t', markAll now (batch.map GlobalArrivalEvent.shardId) t = .returns t' ∧
      ((t'.isSystematicComplete = true ∧ Settled r now (s.recoveryCompletionTimes r) s') ∨
        t'.isSystematicComplete = false ∧ ∃ p',
          RequestSimulation.considerRecovery g (fun now => .ok ⟨wait r now, serviceTime⟩) now t' p = .ok p' ∧
          Follows r s' t' p') := by
  cases hturned with
  | completed u t' hold hmark hcomplete =>
    obtain rfl := Option.some.inj (h.tracker.symm.trans hold)
    refine ⟨t', hmark, .inl ⟨hcomplete, ⟨t', Function.update_self .., hcomplete⟩, ?_, rfl⟩⟩
    change tryEmplace s.naturalCompletionTimes r now r = some now
    rw [tryEmplace_self, h.natural, Option.getD_none]
  | recovering u t' completion hold hmark hincomplete hsome =>
    obtain rfl := Option.some.inj (h.tracker.symm.trans hold)
    refine ⟨t', hmark,
      .inr ⟨hincomplete, p, ?_, Function.update_self .., h.natural, h.pending, h.completion, h.started⟩⟩
    unfold RequestSimulation.considerRecovery
    rw [if_pos (by rw [h.started, hsome]; rfl)]
  | considered u t' _ hold hmark hincomplete hnone hdone =>
    obtain rfl := Option.some.inj (h.tracker.symm.trans hold)
    have hmarked : Follows r (s.setTracker r t') t' p :=
      ⟨Function.update_self .., h.natural, h.pending, h.completion, h.started⟩
    have hample' : Ample requests (s.setTracker r t') := ⟨hample.slots, hample.depth, hample.busy, hample.jobs⟩
    exact ⟨t', hmark, .inr ⟨hincomplete, hmarked.considered hample' hr hnow hpos hincomplete hnone hdone⟩⟩

theorem Ample.step (h : Ample requests s) {a : Step} (ha : ∀ now q batch, a = .turn now q batch → q ∈ requests)
    (hstep : (act g estimate oracle s a).returned = some s') : Ample requests s' := by
  obtain ⟨now, queue, -, -, hadv, rfl⟩ | ⟨now, request, batch, rfl, hturned⟩ := act_returned hstep
  · exact h.advance hadv
  · exact h.turn (ha now request batch rfl) hturned

/-- **The two loops in step**: the simulation of a request alone ends where the request does in the cluster. -/
theorem follow (hr : r ∈ requests) (hpos : 0 < serviceTime) : ∀ (as : List Step) (s s' : ClusterRun)
    (t : ShardArrivalTracker) (p : RequestSimulation.Progress),
    (∀ now q batch, .turn now q batch ∈ as → q ∈ requests ∧ 0 ≤ now) → Ample requests s → Follows r s t p →
    Runs.run (fun s a => (act g (fun _ => .ok serviceTime) (fun q now => .ok (wait q now)) s a).returned) s as =
    some s' →
    ∃ p', RequestSimulation.instants g (fun now => .ok ⟨wait r now, serviceTime⟩) (turnsOf r as) t p = .ok p' ∧
      p'.naturalCompletionTime = s'.naturalCompletionTimes r ∧
      p'.recoveryCompletionTime = s'.recoveryCompletionTimes r ∧
      p'.recoveryStartTime.isSome = (s'.recoveryCompletionTimes r).isSome
  | [], s, s', t, p, _, _, h, hrun => by
    obtain rfl := Option.some.inj hrun
    exact ⟨p, rfl, h.pending.trans h.natural.symm, h.completion, h.started⟩
  | a :: as, s, s', t, p, has, hample, h, hrun => by
    obtain ⟨u, hstep, hrest⟩ := (run_cons s a as s').1 hrun
    have has' : ∀ now q batch, .turn now q batch ∈ as → q ∈ requests ∧ 0 ≤ now :=
      fun now q batch hmem => has now q batch (by simp [hmem])
    have hample' := hample.step (fun now q batch ha => (has now q batch (by simp [ha])).1) hstep
    obtain ⟨now, queue, rfl, -, -, rfl⟩ | ⟨now, q, batch, rfl, hturned⟩ := act_returned hstep
    · exact follow hr hpos as _ s' t p has' hample' ⟨h.tracker, h.natural, h.pending, h.completion, h.started⟩ hrest
    by_cases hq : r = q
    · subst hq
      have hnow := (has now r batch (by simp)).2
      have hturns : turnsOf r (.turn now r batch :: as) = (now, batch.map toArrival) :: turnsOf r as := by
        unfold turnsOf
        exact List.filterMap_cons_some (by rw [turnOf, if_pos rfl])
      have hids : (batch.map toArrival).map ShardArrivalEvent.shardId = batch.map GlobalArrivalEvent.shardId := by
        rw [List.map_map]
        rfl
      rw [hturns, RequestSimulation.instants, if_neg (not_lt.2 hnow), hids]
      obtain ⟨t', hmark, ⟨hcomplete, hsettled⟩ | ⟨hincomplete, p', hp', hfollows⟩⟩ := h.turn hample hr hnow hpos hturned
      · -- the simulation stops here; nothing changes for the request in the rest of the cluster's run
        have hend :=
          run_inv (I := Settled r now (s.recoveryCompletionTimes r)) (fun _ _ _ hu hst => hu.step hst) as u s'
          hsettled hrest
        simp only [hmark, if_pos hcomplete]
        refine ⟨_, rfl, hend.natural.symm, ?_, ?_⟩
        · rw [hend.recovery]
          exact h.completion
        · rw [hend.recovery]
          exact h.started
      · simp only [hmark, hincomplete, Bool.false_eq_true, if_false, hp']
        exact follow hr hpos as u s' t' p' has' hample' hfollows hrest
    · have hturns : turnsOf r (.turn now q batch :: as) = turnsOf r as := by
        unfold turnsOf
        exact List.filterMap_cons_none (by rw [turnOf, if_neg (Ne.symm hq)])
      obtain ⟨htracker, hnatural, hrecovery⟩ := hturned.frame hq
      rw [hturns]
      refine follow hr hpos as u s' t p has' hample'
        ⟨htracker.trans h.tracker, hnatural.trans h.natural, h.pending, ?_, ?_⟩ hrest
      · rw [hrecovery]
        exact h.completion
      · rw [hrecovery]
        exact h.started

/-! ## Independent requests -/

def arrivalsOf (events : List GlobalArrivalEvent) (r : Nat) : List ShardArrivalEvent :=
  (events.filter (fun e => e.requestId = r)).map toArrival

theorem instants_turnsOf (sorter : EventSort) (events : List GlobalArrivalEvent) (r : Nat)
    (getCosts : Int → Except Exn CostEstimates) (t : ShardArrivalTracker) (p : RequestSimulation.Progress) :
    RequestSimulation.instants g getCosts
        (Batches.group ShardArrivalEvent.arrivalTime (RequestSimulation.ordered (arrivalsOf events r))) t p =
      RequestSimulation.instants g getCosts (turnsOf r (steps (sorter.sort events))) t p := by
  rw [turnsOf_eq_group (sorter.sorted events) r]
  have hperm : (RequestSimulation.ordered (arrivalsOf events r)).Perm
      (((sorter.sort events).filter (fun e => e.requestId = r)).map toArrival) :=
    (RequestSimulation.ordered_perm _).trans (((sorter.perm events).symm.filter _).map _)
  have hsorted : (((sorter.sort events).filter (fun e => e.requestId = r)).map toArrival).Pairwise
      (fun a b => a.arrivalTime ≤ b.arrivalTime) := by
    rw [List.pairwise_map]
    exact (sorter.sorted_time events).sublist List.filter_sublist
  exact RequestSimulation.instants_congr
    ((Batches.group_perm (RequestSimulation.ordered_sorted _) hsorted hperm).imp (fun _ _ hb => ⟨hb.1, hb.2.map _⟩)) t p

/-- **With a slot and a place for every request, requests are simulated independently**: on a stream that has every
systematic shard of every request, `ClusterSimulator::Run` reports for each request what `RequestSimulation::Run`
reports on its arrivals alone, with the same expected waits and the service time for a cost. -/
theorem cluster_isolates (sorter : EventSort) {g : BipartiteGraph} {concurrencyLimit maxQueueDepth : Nat}
    {queue : RecoveryQueue} (hqueue : RecoveryQueue.make concurrencyLimit maxQueueDepth = .ok queue) {serviceTime : Int}
    (hpos : 0 < serviceTime) {wait : Nat → Int → Int} (hwait : ∀ r now, 0 ≤ wait r now) {sim : ClusterSimulator}
    (hsim : ClusterSimulator.make g queue (some (fun _ => .ok serviceTime)) = .ok sim)
    {events : List GlobalArrivalEvent}
    (hids : ∀ e ∈ events, e.shardId < g.systematicShardCount + g.parityShardCount)
    (htimes : ∀ e ∈ events, 0 ≤ e.arrivalTime) (hstart : Started events)
    (hall : ∀ e ∈ events, Complete g.systematicShardCount events e.requestId)
    (hlimit : (requestIds events).length ≤ concurrencyLimit) (hroom : (requestIds events).length ≤ maxQueueDepth) :
    ∃ m, (sim.run sorter events (some (fun r now => .ok (wait r now)))).2 = .ok m ∧ m.map Prod.fst = requestIds events ∧
      ∀ p ∈ m, ∃ x,
        RequestSimulation.run g (arrivalsOf events p.1) (some (fun now => .ok ⟨wait p.1 now, serviceTime⟩)) = .ok x ∧
        (∀ e ∈ events, e.requestId = p.1 → p.2.latency = x.finalLatency - e.requestStartTime) ∧
        p.2.recoveryWon = x.recoveryWon ∧ p.2.recoveryAdmitted = x.recoveryStartTime.isSome := by
  obtain ⟨hg, rfl⟩ := make_ok hsim
  obtain ⟨-, -, -, -, hclock⟩ := RecoveryQueue.make_ok hqueue
  have hserve : Servable g (fun _ => .ok serviceTime) (fun r now => .ok (wait r now)) queue events :=
    ⟨hids, htimes, fun e he => hclock ▸ htimes e he, fun _ _ _ _ _ _ => ⟨serviceTime, rfl, hpos⟩,
      fun _ e _ => ⟨_, rfl, hwait _ _⟩⟩
  obtain ⟨trackers, starts, s', hv, hloop, -, hreturns⟩ :=
    run_reports sorter ⟨g, queue, fun _ => none, fun _ => .ok serviceTime⟩ hg hstart hserve
  obtain ⟨m, hm, hkeys, hreps⟩ := hreturns hall
  refine ⟨m, hm, hkeys, fun p hpm => ?_⟩
  obtain ⟨T, hT, hrep⟩ := hreps p hpm
  have hp := sorter.perm events
  have hr : p.1 ∈ requestIds events := by
    rw [← hkeys]
    exact List.mem_map_of_mem hpm
  obtain ⟨e₀, he₀, hreq₀⟩ := mem_requestIds.1 hr
  -- the simulation of this request alone, turn by turn with the cluster
  have hturns : ∀ now q batch, .turn now q batch ∈ steps (sorter.sort events) → q ∈ requestIds events ∧ 0 ≤ now := by
    intro now q batch hmem
    obtain ⟨hne, hbatch⟩ := turn_mem_steps hmem
    obtain ⟨e, he⟩ := List.exists_mem_of_ne_nil _ hne
    obtain ⟨hes, htime, hreq⟩ := hbatch e he
    exact ⟨mem_requestIds.2 ⟨e, hp.mem_iff.1 hes, hreq⟩, htime ▸ htimes e (hp.mem_iff.1 hes)⟩
  have hfresh : Follows p.1 (starting queue trackers) (fresh g) ⟨none, none, none⟩ :=
    ⟨by rw [← hreq₀]; exact hv.known e₀ (hp.mem_iff.2 he₀), rfl, rfl, rfl, rfl⟩
  obtain ⟨p', hp', hnat, hrec, hstarted⟩ := follow hr hpos (steps (sorter.sort events)) _ s' _ _ hturns
    (Ample.starting hqueue hlimit hroom trackers) hfresh ((loopInPlace_eq_run _ _ _).1 hloop)
  have hsimulated :
      RequestSimulation.run g (arrivalsOf events p.1) (some (fun now => .ok ⟨wait p.1 now, serviceTime⟩)) =
      RequestSimulation.metrics p' := by
    apply RequestSimulation.run_of_instants hg
    rw [instants_turnsOf sorter events p.1]
    exact hp'
  rw [hsimulated, hrep.admitted]
  unfold RequestSimulation.metrics
  rw [hnat, hT, hrec]
  simp only
  have houtcome := hrep.outcome
  cases hC : s'.recoveryCompletionTimes p.1 with
  | none =>
    simp only [hC, reduceCtorEq, false_and, exists_false, false_or] at houtcome
    refine ⟨_, rfl, fun e he hreq => (houtcome e he hreq).2.1, ?_, ?_⟩
    · exact (houtcome e₀ he₀ hreq₀).2.2
    · rw [hstarted, hC]
  | some C =>
    by_cases hlt : C < T
    · simp only [if_pos hlt]
      have hwins : ∀ e ∈ events, e.requestId = p.1 → p.2.latency = C - e.requestStartTime ∧ p.2.recoveryWon = true := by
        intro e he hreq
        obtain ⟨C', hC', -, hwin⟩ | ⟨hge, -⟩ := houtcome e he hreq
        · obtain rfl := Option.some.inj (hC'.symm.trans hC)
          exact hwin
        · exact absurd (hge C hC) (not_le.2 hlt)
      refine ⟨_, rfl, fun e he hreq => (hwins e he hreq).1, (hwins e₀ he₀ hreq₀).2, ?_⟩
      rw [hstarted, hC]
    · simp only [if_neg hlt]
      have hloses : ∀ e ∈ events, e.requestId = p.1 → p.2.latency = T - e.requestStartTime ∧
          p.2.recoveryWon = false := by
        intro e he hreq
        obtain ⟨C', hC', hlt', -⟩ | ⟨-, hlose⟩ := houtcome e he hreq
        · obtain rfl := Option.some.inj (hC'.symm.trans hC)
          exact absurd hlt' hlt
        · exact hlose
      refine ⟨_, rfl, fun e he hreq => (hloses e he hreq).1, (hloses e₀ he₀ hreq₀).2, ?_⟩
      rw [hstarted, hC]

/-- Two requests over `makeGraph`, one with a straggler, on a queue with two slots. -/
theorem cluster_isolates_twoRequests : ∃ queue sim, RecoveryQueue.make 2 2 = .ok queue ∧
    ClusterSimulator.make makeGraph queue (some (fun _ => .ok 2)) = .ok sim ∧
    ∃ m, (sim.run .stable [⟨1, 0, 0, 0⟩, ⟨1, 0, 2, 0⟩, ⟨9, 0, 1, 0⟩, ⟨1, 1, 0, 0⟩, ⟨2, 1, 1, 0⟩]
        (some (fun _ _ => .ok 5))).2 = .ok m ∧
      m.map Prod.fst = requestIds [⟨1, 0, 0, 0⟩, ⟨1, 0, 2, 0⟩, ⟨9, 0, 1, 0⟩, ⟨1, 1, 0, 0⟩, ⟨2, 1, 1, 0⟩] ∧
      ∀ p ∈ m, ∃ x,
        RequestSimulation.run makeGraph
          (arrivalsOf [⟨1, 0, 0, 0⟩, ⟨1, 0, 2, 0⟩, ⟨9, 0, 1, 0⟩, ⟨1, 1, 0, 0⟩, ⟨2, 1, 1, 0⟩] p.1)
          (some (fun _ => .ok ⟨5, 2⟩)) = .ok x ∧
        (∀ e ∈ ([⟨1, 0, 0, 0⟩, ⟨1, 0, 2, 0⟩, ⟨9, 0, 1, 0⟩, ⟨1, 1, 0, 0⟩, ⟨2, 1, 1, 0⟩] : List GlobalArrivalEvent),
          e.requestId = p.1 → p.2.latency = x.finalLatency - e.requestStartTime) ∧
        p.2.recoveryWon = x.recoveryWon ∧ p.2.recoveryAdmitted = x.recoveryStartTime.isSome := by
  obtain ⟨queue, hqueue⟩ : ∃ queue, RecoveryQueue.make 2 2 = .ok queue := ⟨_, rfl⟩
  obtain ⟨sim, hsim⟩ : ∃ sim, ClusterSimulator.make makeGraph queue (some (fun _ => .ok 2)) = .ok sim := ⟨_, rfl⟩
  exact ⟨queue, sim, hqueue, hsim, cluster_isolates .stable hqueue (by decide) (fun _ _ => by decide) hsim
    (by decide) (by decide) ⟨by decide, by decide⟩ (by unfold Complete; decide) (by decide) (by decide)⟩

end ClusterSimulator

end CodedLLM
