import CodedLLM.ClusterRuns
/-!
# ClusterTurns — what the turns of a run do, and when a run returns

One inversion says what a returning turn did (`turn_returns`).  From it: what the trackers and the natural completion
times are after any returning run, in terms of the events alone (`Tracked`); what a turn can do to the queue and to
the recoveries (`Turned.recovers`); and when a run returns at all (`instants_return`).
-/
namespace CodedLLM

open Runs

namespace ClusterSimulator

/-! ## One turn -/

section Turn

variable (g : BipartiteGraph) (estimate : RecoveryServiceTimeEstimator) (oracle : WaitCostOracle)

/-- **What became of a request that is incomplete and has no recovery.**  A quote was given, so a job that is
submitted is accepted. -/
inductive Considered (now : Int) (request : Nat) (tracker : ShardArrivalTracker) (s : ClusterRun) : ClusterRun → Prop
  | unrecoverable (plan : DecodePlan) (hplan : RecoveryPolicy.createPlan g tracker = .ok plan)
      (hrec : plan.isRecoverable = false) : Considered now request tracker s (s.setUnrecoverable request)
  | rejected (plan : DecodePlan) (serviceTime : Int) (hplan : RecoveryPolicy.createPlan g tracker = .ok plan)
      (hrec : plan.isRecoverable = true) (hest : estimate plan = .ok serviceTime)
      (hquote : s.recoveryQueue.getExpectedRecoveryCost now serviceTime = .ok none) :
      Considered now request tracker s (s.setRejected request)
  | waited (plan : DecodePlan) (serviceTime recoveryCost waitCost : Int)
      (hplan : RecoveryPolicy.createPlan g tracker = .ok plan) (hrec : plan.isRecoverable = true)
      (hest : estimate plan = .ok serviceTime)
      (hquote : s.recoveryQueue.getExpectedRecoveryCost now serviceTime = .ok (some recoveryCost))
      (hwait : oracle request now = .ok waitCost) (hle : waitCost ≤ recoveryCost) :
      Considered now request tracker s (s.setWaited request)
  | admitted (plan : DecodePlan) (serviceTime recoveryCost waitCost : Int)
      (hplan : RecoveryPolicy.createPlan g tracker = .ok plan) (hrec : plan.isRecoverable = true)
      (hest : estimate plan = .ok serviceTime)
      (hquote : s.recoveryQueue.getExpectedRecoveryCost now serviceTime = .ok (some recoveryCost))
      (hwait : oracle request now = .ok waitCost) (hlt : recoveryCost < waitCost) (hpos : 0 < serviceTime) :
      Considered now request tracker s
        (s.setRecovery (s.recoveryQueue.push now serviceTime hpos) request (now + recoveryCost))

inductive Turned (now : Int) (request : Nat) (batch : List GlobalArrivalEvent) (s : ClusterRun) : ClusterRun → Prop
  | completed (t t' : ShardArrivalTracker) (hold : s.trackers request = some t)
      (hmark : markAll now (batch.map GlobalArrivalEvent.shardId) t = .returns t')
        (hcomplete : t'.isSystematicComplete = true) :
      Turned now request batch s ((s.setTracker request t').setNatural request now)
  | recovering (t t' : ShardArrivalTracker) (completion : Int) (hold : s.trackers request = some t)
      (hmark : markAll now (batch.map GlobalArrivalEvent.shardId) t = .returns t')
        (hcomplete : t'.isSystematicComplete = false)
      (hsome : s.recoveryCompletionTimes request = some completion) :
        Turned now request batch s (s.setTracker request t')
  | considered (t t' : ShardArrivalTracker) (s' : ClusterRun) (hold : s.trackers request = some t)
      (hmark : markAll now (batch.map GlobalArrivalEvent.shardId) t = .returns t')
        (hcomplete : t'.isSystematicComplete = false)
      (hnone : s.recoveryCompletionTimes request = none)
      (hdone : Considered g estimate oracle now request t' (s.setTracker request t') s') : Turned now request batch s s'

end Turn

variable {g : BipartiteGraph} {estimate : RecoveryServiceTimeEstimator} {oracle : WaitCostOracle} {now : Int}
    {request : Nat}
  {batch : List GlobalArrivalEvent} {s s' : ClusterRun}

theorem submitJob_of_quote {q : RecoveryQueue} {serviceTime cost : Int}
    (h : q.getExpectedRecoveryCost now serviceTime = .ok (some cost)) :
    ∃ hpos : 0 < serviceTime, q.submitJob now serviceTime = .ok (q.push now serviceTime hpos, true) := by
  obtain ⟨htime, hpos, hdepth, -⟩ := RecoveryQueue.getExpectedRecoveryCost_some h
  refine ⟨hpos, ?_⟩
  unfold RecoveryQueue.submitJob
  rw [if_neg (not_lt.2 htime), dif_neg (not_le.2 hpos), if_neg (not_le.2 hdepth)]

theorem considerRecovery_returns {tracker : ShardArrivalTracker}
    (h : considerRecovery g estimate oracle now request tracker s = .returns s') :
    Considered g estimate oracle now request tracker s s' := by
  unfold considerRecovery at h
  split at h
  · cases h
  rename_i plan hplan
  split at h
  · rename_i hrec
    obtain rfl := Outcome.returns.inj h
    exact .unrecoverable plan hplan hrec
  rename_i hrec
  rw [Bool.not_eq_false] at hrec
  split at h
  · cases h
  rename_i serviceTime hest
  split at h
  · cases h
  · rename_i hquote
    obtain rfl := Outcome.returns.inj h
    exact .rejected plan serviceTime hplan hrec hest hquote
  rename_i recoveryCost hquote
  split at h
  · cases h
  rename_i waitCost hwait
  split at h
  · cases h
  unfold RecoveryPolicy.evaluatePlan at h
  rw [if_neg (by simp [hrec])] at h
  by_cases hlt : recoveryCost < waitCost
  · obtain ⟨hpos, hsubmit⟩ := submitJob_of_quote hquote
    rw [if_pos hlt] at h
    simp only [hsubmit] at h
    obtain rfl := Outcome.returns.inj h
    exact .admitted plan serviceTime recoveryCost waitCost hplan hrec hest hquote hwait hlt hpos
  · rw [if_neg hlt] at h
    obtain rfl := Outcome.returns.inj h
    exact .waited plan serviceTime recoveryCost waitCost hplan hrec hest hquote hwait (not_lt.1 hlt)

theorem turn_returns (h : turn g estimate oracle now s (request, batch) = .returns s') :
    Turned g estimate oracle now request batch s s' := by
  unfold turn at h
  split at h
  · cases h
  rename_i t hold
  split at h
  · cases h
  rename_i t' hmark
  split at h
  · rename_i hcomplete
    obtain rfl := Outcome.returns.inj h
    exact .completed t t' hold hmark hcomplete
  rename_i hcomplete
  rw [Bool.not_eq_true] at hcomplete
  split at h
  · rename_i hsome
    obtain ⟨completion, hsome⟩ := Option.isSome_iff_exists.1 hsome
    obtain rfl := Outcome.returns.inj h
    exact .recovering t t' completion hold hmark hcomplete hsome
  · rename_i hnone
    rw [Bool.not_eq_true, Option.isSome_eq_false_iff, Option.isNone_iff_eq_none] at hnone
    exact .considered t t' s' hold hmark hcomplete hnone (considerRecovery_returns h)

theorem act_returned {a : Step} (h : (act g estimate oracle s a).returned = some s') :
    (∃ now queue, a = .advance now ∧ 0 ≤ now ∧ s.recoveryQueue.advanceTime now = .ok queue ∧
      s' = { s with recoveryQueue := queue }) ∨
    ∃ now request batch, a = .turn now request batch ∧ Turned g estimate oracle now request batch s s' := by
  cases a with
  | advance now =>
    simp only [act] at h
    split at h
    · cases h
    rename_i hneg
    split at h
    · cases h
    rename_i queue hadv
    exact .inl ⟨now, queue, rfl, not_lt.1 hneg, hadv, (Option.some.inj h).symm⟩
  | turn now request batch =>
    simp only [act] at h
    cases hturn : turn g estimate oracle now s (request, batch) with
    | throws u e =>
      rw [hturn] at h
      cases h
    | returns u =>
      rw [hturn] at h
      obtain rfl := Option.some.inj h
      exact .inr ⟨now, request, batch, rfl, turn_returns hturn⟩

/-- **What every turn does to the trackers and the natural completions.** -/
theorem Turned.marks (h : Turned g estimate oracle now request batch s s') :
    ∃ t t', s.trackers request = some t ∧ markAll now (batch.map GlobalArrivalEvent.shardId) t = .returns t' ∧
      s'.trackers = Function.update s.trackers request (some t') ∧
      s'.naturalCompletionTimes =
        if t'.isSystematicComplete then tryEmplace s.naturalCompletionTimes request now
        else s.naturalCompletionTimes := by
  cases h with
  | completed t t' hold hmark hcomplete => exact ⟨t, t', hold, hmark, rfl, by rw [if_pos hcomplete]; rfl⟩
  | recovering t t' completion hold hmark hcomplete hsome => exact ⟨t, t', hold, hmark, rfl, by rw [hcomplete]; rfl⟩
  | considered t t' _ hold hmark hcomplete hnone hdone =>
    refine ⟨t, t', hold, hmark, ?_, ?_⟩
    · cases hdone <;> rfl
    · rw [hcomplete]
      cases hdone <;> rfl

/-- **What a turn can do to the queue and the recoveries**: nothing, or one admission at the quoted cost, which is
less than the expected wait. -/
theorem Turned.recovers (h : Turned g estimate oracle now request batch s s') :
    (s'.recoveryQueue = s.recoveryQueue ∧ s'.recoveryCompletionTimes = s.recoveryCompletionTimes) ∨
    ∃ serviceTime recoveryCost waitCost, ∃ hpos : 0 < serviceTime,
      s.recoveryCompletionTimes request = none ∧
      s.recoveryQueue.getExpectedRecoveryCost now serviceTime = .ok (some recoveryCost) ∧
      oracle request now = .ok waitCost ∧ recoveryCost < waitCost ∧
      s'.recoveryQueue = s.recoveryQueue.push now serviceTime hpos ∧
      s'.recoveryCompletionTimes = Function.update s.recoveryCompletionTimes request (some (now + recoveryCost)) := by
  cases h with
  | completed t t' hold hmark hcomplete => exact .inl ⟨rfl, rfl⟩
  | recovering t t' completion hold hmark hcomplete hsome => exact .inl ⟨rfl, rfl⟩
  | considered t t' _ hold hmark hcomplete hnone hdone =>
    cases hdone with
    | unrecoverable plan hplan hrec => exact .inl ⟨rfl, rfl⟩
    | rejected plan serviceTime hplan hrec hest hquote => exact .inl ⟨rfl, rfl⟩
    | waited plan serviceTime recoveryCost waitCost hplan hrec hest hquote hwait hle => exact .inl ⟨rfl, rfl⟩
    | admitted plan serviceTime recoveryCost waitCost hplan hrec hest hquote hwait hlt hpos =>
      exact .inr ⟨serviceTime, recoveryCost, waitCost, hpos, hnone, hquote, hwait, hlt, rfl, tryEmplace_of_none hnone _⟩

/-! ## Natural completion -/

def CompleteBy (k : Nat) (events : List GlobalArrivalEvent) (request : Nat) (t : Int) : Prop :=
  ∀ i < k, ∃ e ∈ events, e.requestId = request ∧ e.shardId = i ∧ e.arrivalTime ≤ t

def Complete (k : Nat) (events : List GlobalArrivalEvent) (request : Nat) : Prop :=
  ∀ i < k, ∃ e ∈ events, e.requestId = request ∧ e.shardId = i

theorem CompleteBy.complete {k : Nat} {events : List GlobalArrivalEvent} {request : Nat} {t : Int}
    (h : CompleteBy k events request t) : Complete k events request := by
  intro i hi
  obtain ⟨e, he, hreq, hid, -⟩ := h i hi
  exact ⟨e, he, hreq, hid⟩

theorem Complete.by {k : Nat} {events : List GlobalArrivalEvent} {request : Nat} {t : Int}
    (h : Complete k events request) (ht : ∀ e ∈ events, e.arrivalTime ≤ t) : CompleteBy k events request t := by
  intro i hi
  obtain ⟨e, he, hreq, hid⟩ := h i hi
  exact ⟨e, he, hreq, hid, ht e he⟩

theorem CompleteBy.append {k : Nat} {seen : List GlobalArrivalEvent} {request : Nat} {t : Int}
    (h : CompleteBy k seen request t) (later : List GlobalArrivalEvent) : CompleteBy k (seen ++ later) request t := by
  intro i hi
  obtain ⟨e, he, h'⟩ := h i hi
  exact ⟨e, List.mem_append_left _ he, h'⟩

theorem CompleteBy.of_append {k : Nat} {seen later : List GlobalArrivalEvent} {request : Nat} {t : Int}
    (h : CompleteBy k (seen ++ later) request t)
    (hlater : ∀ e ∈ later, e.requestId = request → t < e.arrivalTime) : CompleteBy k seen request t := by
  intro i hi
  obtain ⟨e, he, hreq, hid, hle⟩ := h i hi
  rcases List.mem_append.1 he with he | he
  · exact ⟨e, he, hreq, hid, hle⟩
  · exact absurd hle (not_le.2 (hlater e he hreq))

theorem complete_append_of_other {k : Nat} {seen later : List GlobalArrivalEvent} {request : Nat}
    (h : ∀ e ∈ later, e.requestId ≠ request) : Complete k (seen ++ later) request ↔ Complete k seen request := by
  refine forall₂_congr
    (fun i _ => ⟨fun ⟨e, he, hreq, hid⟩ => ?_, fun ⟨e, he, h'⟩ => ⟨e, List.mem_append_left _ he, h'⟩⟩)
  rcases List.mem_append.1 he with he | he
  · exact ⟨e, he, hreq, hid⟩
  · exact absurd hreq (h e he)

/-- **A completion stays the least** when later arrivals come. -/
theorem isLeast_append {k : Nat} {seen later : List GlobalArrivalEvent} {request : Nat} {T : Int}
    (h : IsLeast {t | CompleteBy k seen request t} T)
    (hlater : ∀ e ∈ later, e.requestId = request → T ≤ e.arrivalTime) :
    IsLeast {t | CompleteBy k (seen ++ later) request t} T := by
  refine ⟨h.1.append later, fun t ht => ?_⟩
  by_contra hlt
  rw [not_le] at hlt
  exact not_le.2 hlt (h.2 (ht.of_append (fun e he hreq => lt_of_lt_of_le hlt (hlater e he hreq))))

/-- **What the trackers and the natural completions are** once the events `seen` have been consumed. -/
structure Tracked (g : BipartiteGraph) (known : Nat → Prop) (seen : List GlobalArrivalEvent) (s : ClusterRun) :
    Prop where
  tracker : ∀ r, known r → ∃ t, s.trackers r = some t ∧ t.Fits g ∧
    ∀ i, t.arrived i = true ↔ ∃ e ∈ seen, e.requestId = r ∧ e.shardId = i
  incomplete : ∀ r, s.naturalCompletionTimes r = none → ¬ Complete g.systematicShardCount seen r
  complete : ∀ r T, s.naturalCompletionTimes r = some T → IsLeast {t | CompleteBy g.systematicShardCount seen r t} T

theorem markAll_arrived {tracker tracker' : ShardArrivalTracker} (hfits : tracker.Fits g)
    {seen : List GlobalArrivalEvent}
    (harr : ∀ i, tracker.arrived i = true ↔ ∃ e ∈ seen, e.requestId = request ∧ e.shardId = i)
    (hreq : ∀ e ∈ batch, e.requestId = request)
    (h : markAll now (batch.map GlobalArrivalEvent.shardId) tracker = .returns tracker') :
    tracker'.Fits g ∧ ∀ i, tracker'.arrived i = true ↔ ∃ e ∈ seen ++ batch, e.requestId = request ∧ e.shardId = i := by
  obtain ⟨hids, rfl⟩ := markAll_returns h
  refine ⟨⟨hfits.systematic, hfits.parity, (length_stampAll ..).trans hfits.length⟩, fun i => ?_⟩
  rw [arrived_stampAll _ _ hids, Bool.or_eq_true, decide_eq_true_iff, harr i]
  constructor
  · rintro (hi | ⟨e, he, h'⟩)
    · obtain ⟨e, he, rfl⟩ := List.mem_map.1 hi
      exact ⟨e, List.mem_append_right _ he, hreq e he, rfl⟩
    · exact ⟨e, List.mem_append_left _ he, h'⟩
  · rintro ⟨e, he, hr, rfl⟩
    rcases List.mem_append.1 he with he | he
    · exact .inr ⟨e, he, hr, rfl⟩
    · exact .inl (List.mem_map_of_mem he)

theorem complete_iff_of_arrived {tracker : ShardArrivalTracker} (hfits : tracker.Fits g)
    {seen : List GlobalArrivalEvent}
    (harr : ∀ i, tracker.arrived i = true ↔ ∃ e ∈ seen, e.requestId = request ∧ e.shardId = i) :
    tracker.isSystematicComplete = true ↔ Complete g.systematicShardCount seen request := by
  rw [tracker.isSystematicComplete_iff, hfits.systematic]
  exact forall₂_congr (fun i _ => harr i)

/-- **A turn keeps the books**, if it comes no earlier than what has been seen. -/
theorem Tracked.turn {known : Nat → Prop} {seen : List GlobalArrivalEvent} (h : Tracked g known seen s)
    (ht : Turned g estimate oracle now request batch s s') (hknown : known request)
    (hbatch : ∀ e ∈ batch, e.arrivalTime = now ∧ e.requestId = request) (hle : ∀ e ∈ seen, e.arrivalTime ≤ now) :
    Tracked g known (seen ++ batch) s' := by
  obtain ⟨t, t', hold, hmark, htrackers, hnatural⟩ := ht.marks
  obtain ⟨t₀, ht₀, hfits, harr⟩ := h.tracker request hknown
  obtain rfl : t₀ = t := Option.some.inj (ht₀.symm.trans hold)
  obtain ⟨hfits', harr'⟩ := markAll_arrived hfits harr (fun e he => (hbatch e he).2) hmark
  have hcomplete := complete_iff_of_arrived hfits' harr'
  have hother : ∀ r, r ≠ request → ∀ e ∈ batch, e.requestId ≠ r := fun r hr e he hreq => hr (hreq ▸ (hbatch e he).2)
  have hframe : ∀ r, r ≠ request → s'.naturalCompletionTimes r = s.naturalCompletionTimes r := by
    intro r hr
    rw [hnatural]
    split
    · exact tryEmplace_of_ne _ hr _
    · rfl
  have hall : ∀ e ∈ seen ++ batch, e.arrivalTime ≤ now := by
    intro e he
    rcases List.mem_append.1 he with he | he
    · exact hle e he
    · exact (hbatch e he).1.le
  refine ⟨fun r hr => ?_, fun r hr => ?_, fun r T hT => ?_⟩
  · rw [htrackers]
    by_cases hreq : r = request
    · subst hreq
      exact ⟨t', Function.update_self .., hfits', harr'⟩
    · obtain ⟨u, hu, hufits, huarr⟩ := h.tracker r hr
      refine ⟨u, by rw [Function.update_of_ne hreq, hu], hufits, fun i => (huarr i).trans ?_⟩
      constructor
      · rintro ⟨e, he, h'⟩
        exact ⟨e, List.mem_append_left _ he, h'⟩
      · rintro ⟨e, he, hr', hid⟩
        rcases List.mem_append.1 he with he | he
        · exact ⟨e, he, hr', hid⟩
        · exact absurd hr' (hother r hreq e he)
  · by_cases hreq : r = request
    · subst hreq
      rw [← hcomplete]
      intro hc
      rw [hnatural, if_pos hc, tryEmplace_self] at hr
      cases hr
    · rw [complete_append_of_other (hother r hreq)]
      exact h.incomplete r (by rw [← hframe r hreq]; exact hr)
  · by_cases hreq : r = request
    · subst hreq
      cases hbefore : s.naturalCompletionTimes r with
      | some T₀ =>
        -- complete before this turn: the time recorded then stays
        have hleast := h.complete r T₀ hbefore
        have hT₀ : T₀ ≤ now := hleast.2 (hleast.1.complete.by hle)
        have hkeep : s'.naturalCompletionTimes r = some T₀ := by
          rw [hnatural]
          split
          · rw [tryEmplace_of_some hbefore, hbefore]
          · exact hbefore
        obtain rfl := Option.some.inj (hkeep.symm.trans hT)
        exact isLeast_append hleast (fun e he _ => by rw [(hbatch e he).1]; exact hT₀)
      | none =>
        -- complete with this turn, and not a moment before
        by_cases hc : t'.isSystematicComplete = true
        · rw [hnatural, if_pos hc, tryEmplace_self, hbefore, Option.getD_none] at hT
          obtain rfl := Option.some.inj hT
          refine ⟨(hcomplete.1 hc).by hall, fun t ht => ?_⟩
          by_contra hlt
          rw [not_le] at hlt
          refine h.incomplete r hbefore (CompleteBy.complete (t := t) ?_)
          exact CompleteBy.of_append ht (fun e he _ => by rw [(hbatch e he).1]; exact hlt)
        · rw [hnatural, if_neg hc, hbefore] at hT
          cases hT
    · rw [hframe r hreq] at hT
      exact isLeast_append (h.complete r T hT) (fun e he hr => absurd hr (hother r hreq e he))

theorem Tracked.advance {known : Nat → Prop} {seen : List GlobalArrivalEvent} (h : Tracked g known seen s)
    (queue : RecoveryQueue) : Tracked g known seen { s with recoveryQueue := queue } :=
  ⟨h.tracker, h.incomplete, h.complete⟩

/-! ## Whole runs -/

def starting (queue : RecoveryQueue) (trackers : Nat → Option ShardArrivalTracker) : ClusterRun :=
  ⟨queue, trackers, fun _ => none, fun _ => none, fun _ => false, fun _ => false, fun _ => false⟩

theorem Tracked.starting (hg : g.Valid) {events : List GlobalArrivalEvent}
    {v : (Nat → Option ShardArrivalTracker) × (Nat → Option Int)} (h : Validated g events v) (queue : RecoveryQueue) :
    Tracked g (fun r => ∃ e ∈ events, e.requestId = r) [] (starting queue v.1) := by
  refine ⟨fun r ⟨e, he, hr⟩ => ?_, fun r _ hc => ?_, fun r T hT => by cases hT⟩
  · refine ⟨fresh g, hr ▸ h.known e he, ⟨rfl, rfl, List.length_replicate⟩, fun i => ?_⟩
    simp [fresh]
  · obtain ⟨e, he, -⟩ := hc 0 hg.systematicPos
    cases he

theorem arrival_le_of_done {sorted : List GlobalArrivalEvent}
    (hs : sorted.Pairwise (fun a b => a.arrivalTime ≤ b.arrivalTime)) {done rest : List Step} {a : Step}
    (hw : steps sorted = done ++ a :: rest) : ∀ e ∈ done.flatMap Step.events, e.arrivalTime ≤ a.time := by
  intro e he
  obtain ⟨b, hb, hmem⟩ := List.mem_flatMap.1 he
  have hle : b.time ≤ a.time := by
    have hpair := steps_time hs
    rw [hw, List.pairwise_append] at hpair
    exact hpair.2.2 b hb a (by simp)
  cases b with
  | advance now => cases hmem
  | turn now request batch =>
    have hturn : Step.turn now request batch ∈ steps sorted := by
      rw [hw]
      exact List.mem_append_left _ hb
    rw [((turn_mem_steps hturn).2 e hmem).2.1]
    exact hle

theorem step_time_mem {sorted : List GlobalArrivalEvent} {a : Step} (h : a ∈ steps sorted) :
    ∃ e ∈ sorted, e.arrivalTime = a.time := by
  obtain ⟨b, hb, hmem⟩ := List.mem_flatMap.1 h
  have hgrouped := Batches.group_grouped GlobalArrivalEvent.arrivalTime sorted
  obtain ⟨e, he⟩ := List.exists_mem_of_ne_nil _ (hgrouped.inhabited b hb)
  refine ⟨e, ?_, by rw [time_of_mem_instantSteps hmem]; exact hgrouped.keyed b hb e he⟩
  rw [← Batches.group_flatMap GlobalArrivalEvent.arrivalTime sorted]
  exact List.mem_flatMap.2 ⟨b, hb, he⟩

variable {sorted : List GlobalArrivalEvent} {known : Nat → Prop}

theorem Tracked.step (hs : sorted.Pairwise (fun a b => a.arrivalTime ≤ b.arrivalTime))
    (hknown : ∀ e ∈ sorted, known e.requestId) {done rest : List Step} {a : Step}
    (hw : steps sorted = done ++ a :: rest)
    (h : Tracked g known (done.flatMap Step.events) s) (hstep : (act g estimate oracle s a).returned = some s') :
    Tracked g known ((done ++ [a]).flatMap Step.events) s' := by
  rw [List.flatMap_append, List.flatMap_singleton]
  obtain ⟨now, queue, rfl, -, -, rfl⟩ | ⟨now, request, batch, rfl, hturned⟩ := act_returned hstep
  · rw [Step.events, List.append_nil]
    exact h.advance queue
  · have hmem : Step.turn now request batch ∈ steps sorted := by
      rw [hw]
      simp
    obtain ⟨hne, hbatch⟩ := turn_mem_steps hmem
    obtain ⟨e, he⟩ := List.exists_mem_of_ne_nil _ hne
    refine h.turn hturned ?_ (fun e he => (hbatch e he).2) (arrival_le_of_done hs hw)
    rw [← (hbatch e he).2.2]
    exact hknown e (hbatch e he).1

theorem tracked_of_returns (hs : sorted.Pairwise (fun a b => a.arrivalTime ≤ b.arrivalTime))
    (hknown : ∀ e ∈ sorted, known e.requestId) (h : Tracked g known [] s)
    (hrun : loopInPlace (act g estimate oracle) (steps sorted) s = .returns s') : Tracked g known sorted s' := by
  rw [loopInPlace_eq_run] at hrun
  have hend := run_prefix (I := fun done s => Tracked g known (done.flatMap Step.events) s)
    (fun done a rest u u' hw hu hstep => hu.step hs hknown hw hstep) (steps sorted) [] s s' rfl h hrun
  rwa [steps_events] at hend

/-- **What the queue is** once the steps `done` have been taken. -/
structure Clocked (q₀ : RecoveryQueue) (done : List Step) (q : RecoveryQueue) : Prop where
  time : ∀ t, q₀.currentTime ≤ t → (∀ a ∈ done, a.time ≤ t) → q.currentTime ≤ t
  depth : q.maxQueueDepth = q₀.maxQueueDepth

theorem Clocked.step {q₀ : RecoveryQueue} {done : List Step} {a : Step} (h : Clocked q₀ done s.recoveryQueue)
    (hstep : (act g estimate oracle s a).returned = some s') : Clocked q₀ (done ++ [a]) s'.recoveryQueue := by
  obtain ⟨now, queue, rfl, -, hadv, rfl⟩ | ⟨now, request, batch, rfl, hturned⟩ := act_returned hstep
  · obtain ⟨-, htime, -, hdepth, -⟩ := RecoveryQueue.advanceTime_ok hadv
    refine ⟨fun t _ hdone => ?_, hdepth.trans h.depth⟩
    rw [htime]
    exact hdone (.advance now) (by simp)
  · have hold : ∀ t, q₀.currentTime ≤ t → (∀ b ∈ done ++ [.turn now request batch], b.time ≤ t) →
        s.recoveryQueue.currentTime ≤ t := fun t ht hdone => h.time t ht (fun b hb => hdone b (by simp [hb]))
    obtain ⟨hq, -⟩ | ⟨S, C, W, hpos, -, -, -, -, hq, -⟩ := hturned.recovers
    · rw [hq]
      exact ⟨hold, h.depth⟩
    · rw [hq]
      exact ⟨hold, h.depth⟩

/-! ## Runs that return -/

/-- **What a run needs of its surroundings**: shards the graph has, times the queue accepts, an estimator that answers
with a positive time for every plan it can be asked about, and an oracle that answers, unless the queue is of no use
anyway. -/
structure Servable (g : BipartiteGraph) (estimate : RecoveryServiceTimeEstimator) (oracle : WaitCostOracle)
    (queue : RecoveryQueue) (events : List GlobalArrivalEvent) : Prop where
  ids : ∀ e ∈ events, e.shardId < g.systematicShardCount + g.parityShardCount
  times : ∀ e ∈ events, 0 ≤ e.arrivalTime
  clock : ∀ e ∈ events, queue.currentTime ≤ e.arrivalTime
  estimates : ∀ missing available plan, createPlan g missing available = .ok plan → plan.isRecoverable = true →
    missing.Nonempty → ∃ serviceTime, estimate plan = .ok serviceTime ∧ 0 < serviceTime
  waits : 0 < queue.maxQueueDepth → ∀ e ∈ events, ∃ wait, oracle e.requestId e.arrivalTime = .ok wait ∧ 0 ≤ wait

theorem considerRecovery_total {tracker : ShardArrivalTracker} {plan : DecodePlan}
    (hplan : RecoveryPolicy.createPlan g tracker = .ok plan)
    (hest : plan.isRecoverable = true → ∃ serviceTime, estimate plan = .ok serviceTime ∧ 0 < serviceTime)
    (hclock : s.recoveryQueue.currentTime ≤ now)
    (hwait : 0 < s.recoveryQueue.maxQueueDepth → ∃ wait, oracle request now = .ok wait ∧ 0 ≤ wait) :
    ∃ s', considerRecovery g estimate oracle now request tracker s = .returns s' := by
  unfold considerRecovery
  rw [hplan]
  simp only
  by_cases hrec : plan.isRecoverable = false
  · rw [if_pos hrec]
    exact ⟨_, rfl⟩
  rw [if_neg hrec]
  obtain ⟨serviceTime, hserv, hpos⟩ := hest (by simpa using hrec)
  rw [hserv]
  simp only
  have hquote := RecoveryQueue.getExpectedRecoveryCost_eq hclock hpos
  by_cases hfull : s.recoveryQueue.maxQueueDepth ≤ s.recoveryQueue.currentQueueDepth
  · rw [if_pos hfull] at hquote
    rw [hquote]
    exact ⟨_, rfl⟩
  · rw [if_neg hfull] at hquote
    obtain ⟨wait, horacle, hnn⟩ := hwait (by omega)
    obtain ⟨hpos, hsubmit⟩ := submitJob_of_quote hquote
    rw [hquote, horacle]
    simp only [if_neg (not_lt.2 hnn), hsubmit]
    cases RecoveryPolicy.evaluatePlan plan ⟨wait, _⟩ with
    | wait => exact ⟨_, rfl⟩
    | recover => exact ⟨_, rfl⟩
    | unrecoverable => exact ⟨_, rfl⟩

theorem markAll_total {tracker : ShardArrivalTracker} {ids : List Nat} (h : ∀ id ∈ ids, id < tracker.arrivals.length) :
    ∃ tracker', markAll now ids tracker = .returns tracker' := by
  rcases markAll_cases now ids tracker with ⟨-, hret⟩ | ⟨hnot, -⟩
  · exact ⟨_, hret⟩
  · exact absurd h hnot

/-- **A turn returns** when the surroundings serve it. -/
theorem turn_total (hg : g.Valid) {queue : RecoveryQueue} {events : List GlobalArrivalEvent}
    (hserve : Servable g estimate oracle queue events) {tracker : ShardArrivalTracker}
    (hold : s.trackers request = some tracker)
    (hfits : tracker.Fits g) (hne : batch ≠ [])
    (hbatch : ∀ e ∈ batch, e ∈ events ∧ e.arrivalTime = now ∧ e.requestId = request)
    (hclock : s.recoveryQueue.currentTime ≤ now) (hdepth : s.recoveryQueue.maxQueueDepth = queue.maxQueueDepth) :
    ∃ s', turn g estimate oracle now s (request, batch) = .returns s' := by
  obtain ⟨tracker', hmark⟩ := @markAll_total now tracker (batch.map GlobalArrivalEvent.shardId) (fun id hid => by
    obtain ⟨e, he, rfl⟩ := List.mem_map.1 hid
    rw [hfits.length]
    exact hserve.ids e (hbatch e he).1)
  have hfits' : tracker'.Fits g := by
    obtain ⟨-, rfl⟩ := markAll_returns hmark
    exact ⟨hfits.systematic, hfits.parity, (length_stampAll ..).trans hfits.length⟩
  unfold ClusterSimulator.turn
  rw [hold]
  simp only [hmark]
  by_cases hcomplete : tracker'.isSystematicComplete = true
  · rw [if_pos hcomplete]
    exact ⟨_, rfl⟩
  rw [if_neg hcomplete]
  by_cases hsome : (s.recoveryCompletionTimes request).isSome = true
  · rw [if_pos hsome]
    exact ⟨_, rfl⟩
  rw [if_neg hsome]
  obtain ⟨plan, hplan⟩ := RecoveryPolicy.createPlan_accepts hg hfits'
  obtain ⟨available, -, hplan'⟩ := RecoveryPolicy.createPlan_ok hplan
  refine considerRecovery_total hplan (fun hrec => ?_) hclock (fun hpos => ?_)
  · exact hserve.estimates _ available plan hplan' hrec
      (ShardArrivalTracker.missing_nonempty (by simpa using hcomplete))
  · obtain ⟨e, he⟩ := List.exists_mem_of_ne_nil _ hne
    obtain ⟨hmem, htime, hreq⟩ := hbatch e he
    have := hserve.waits (hdepth ▸ hpos) e hmem
    rwa [htime, hreq] at this

/-- **The instants return** when the surroundings serve the run, and then the books are right. -/
theorem instants_return (hg : g.Valid) (hs : sorted.Pairwise (fun a b => a.arrivalTime ≤ b.arrivalTime))
    (hknown : ∀ e ∈ sorted, known e.requestId) (hserve : Servable g estimate oracle s.recoveryQueue sorted)
    (h : Tracked g known [] s) : ∃ s', loopInPlace (act g estimate oracle) (steps sorted) s = .returns s' := by
  suffices hrun : ∃ s', Runs.run (fun s a => (act g estimate oracle s a).returned) s (steps sorted) = some s' ∧
      Tracked g known ((steps sorted).flatMap Step.events) s' ∧
        Clocked s.recoveryQueue (steps sorted) s'.recoveryQueue by
    obtain ⟨s', hs', -⟩ := hrun
    exact ⟨s', (loopInPlace_eq_run _ _ _).2 hs'⟩
  refine run_prefix_total (I := fun done u => Tracked g known (done.flatMap Step.events) u ∧
    Clocked s.recoveryQueue done u.recoveryQueue) (fun done a rest u hw ⟨htracked, hclocked⟩ => ?_) (steps sorted)
      [] s rfl
    ⟨h, fun t ht _ => ht, rfl⟩
  have hmem : a ∈ steps sorted := by
    rw [hw]
    simp
  obtain ⟨e, he, htime⟩ := step_time_mem hmem
  have hclock : u.recoveryQueue.currentTime ≤ a.time := by
    refine hclocked.time a.time (htime ▸ hserve.clock e he) (fun b hb => ?_)
    have hpair := steps_time hs
    rw [hw, List.pairwise_append] at hpair
    exact hpair.2.2 b hb a (by simp)
  have hreturns : ∃ u', (act g estimate oracle u a).returned = some u' := by
    cases a with
    | advance now =>
      have hpos := hserve.times e he
      rw [htime] at hpos
      obtain ⟨queue, hqueue⟩ := RecoveryQueue.advanceTime_accepts hclock
      have hneg : ¬ now < 0 := not_lt.2 hpos
      simp only [Step.time] at hqueue
      simp only [act, if_neg hneg, hqueue]
      exact ⟨_, rfl⟩
    | turn now request batch =>
      obtain ⟨hne, hbatch⟩ := turn_mem_steps hmem
      obtain ⟨e', he'⟩ := List.exists_mem_of_ne_nil _ hne
      obtain ⟨tracker, hold, hfits, -⟩ := htracked.tracker request (by
        rw [← (hbatch e' he').2.2]
        exact hknown e' (hbatch e' he').1)
      obtain ⟨u', hu'⟩ := turn_total hg hserve hold hfits hne hbatch hclock hclocked.depth
      exact ⟨u', by simp only [act, hu']; rfl⟩
  obtain ⟨u', hu'⟩ := hreturns
  exact ⟨u', hu', htracked.step hs hknown hw hu', hclocked.step hu'⟩

/-! ## Metrics -/

theorem collect_ok {metrics : Nat → Except Exn RequestMetrics} : ∀ {ids : List Nat} {m : MetricsMap},
    collect metrics ids = .ok m → m.map Prod.fst = ids ∧ ∀ p ∈ m, metrics p.1 = .ok p.2
  | [], m, h => by
    obtain rfl := (Except.ok.inj h).symm
    simp
  | r :: ids, m, h => by
    unfold collect at h
    split at h
    · cases h
    rename_i one hone
    split at h
    · cases h
    rename_i others hothers
    obtain rfl := (Except.ok.inj h).symm
    obtain ⟨hkeys, hvalues⟩ := collect_ok hothers
    refine ⟨by rw [List.map_cons, hkeys], fun p hp => ?_⟩
    rcases List.mem_cons.1 hp with rfl | hp
    · exact hone
    · exact hvalues p hp

theorem collect_total {metrics : Nat → Except Exn RequestMetrics} : ∀ (ids : List Nat),
    (∀ r ∈ ids, ∃ x, metrics r = .ok x) → ∃ m, collect metrics ids = .ok m
  | [], _ => ⟨[], rfl⟩
  | r :: ids, h => by
    obtain ⟨one, hone⟩ := h r (by simp)
    obtain ⟨others, hothers⟩ := collect_total ids (fun r hr => h r (by simp [hr]))
    refine ⟨(r, one) :: others, ?_⟩
    rw [collect, hone]
    simp only [hothers]

theorem collect_error {metrics : Nat → Except Exn RequestMetrics} {ids : List Nat} {r : Nat} (hr : r ∈ ids) {e : Exn}
    (he : metrics r = .error e) : ∃ e', collect metrics ids = .error e' := by
  cases h : collect metrics ids with
  | error e' => exact ⟨e', rfl⟩
  | ok m =>
    obtain ⟨hkeys, hvalues⟩ := collect_ok h
    rw [← hkeys] at hr
    obtain ⟨p, hp, rfl⟩ := List.mem_map.1 hr
    rw [hvalues p hp] at he
    cases he

/-- **The metrics of a request**: the recovery wins if it completes before the natural arrivals do. -/
theorem requestMetrics_ok {starts : Nat → Option Int} {r : Nat} {x : RequestMetrics}
    (h : requestMetrics s starts r = .ok x) :
    ∃ T start, s.naturalCompletionTimes r = some T ∧ starts r = some start ∧
      x.recoveryAdmitted = (s.recoveryCompletionTimes r).isSome ∧
      ((∃ C, s.recoveryCompletionTimes r = some C ∧ C < T ∧ x.latency = C - start ∧ x.recoveryWon = true) ∨
        (∀ C, s.recoveryCompletionTimes r = some C → T ≤ C) ∧ x.latency = T - start ∧ x.recoveryWon = false) := by
  unfold requestMetrics at h
  split at h
  · cases h
  rename_i T hT
  split at h
  · cases h
  rename_i start hstart
  refine ⟨T, start, hT, hstart, ?_⟩
  cases hC : s.recoveryCompletionTimes r with
  | none =>
    simp only [hC] at h
    obtain rfl := (Except.ok.inj h).symm
    exact ⟨rfl, .inr ⟨fun C h => by (cases h), rfl, rfl⟩⟩
  | some C =>
    simp only [hC] at h
    split at h
    · rename_i hlt
      obtain rfl := (Except.ok.inj h).symm
      exact ⟨rfl, .inl ⟨C, rfl, hlt, rfl, rfl⟩⟩
    · rename_i hlt
      obtain rfl := (Except.ok.inj h).symm
      refine ⟨rfl, .inr ⟨fun C' h => ?_, rfl, rfl⟩⟩
      obtain rfl := Option.some.inj h
      exact not_lt.1 hlt

theorem requestMetrics_total {starts : Nat → Option Int} {r : Nat} {T start : Int}
    (hT : s.naturalCompletionTimes r = some T) (hstart : starts r = some start) :
    ∃ x, requestMetrics s starts r = .ok x := by
  unfold requestMetrics
  rw [hT]
  simp only [hstart]
  split
  · split
    · exact ⟨_, rfl⟩
    · exact ⟨_, rfl⟩
  · exact ⟨_, rfl⟩

theorem mem_requestIds {events : List GlobalArrivalEvent} {r : Nat} :
    r ∈ requestIds events ↔ ∃ e ∈ events, e.requestId = r := by
  unfold requestIds
  rw [mem_sortUnique, List.mem_map]

theorem Tracked.perm {seen seen' : List GlobalArrivalEvent} (h : Tracked g known seen s) (hp : seen.Perm seen') :
    Tracked g known seen' s := by
  have hby : ∀ r t, CompleteBy g.systematicShardCount seen r t ↔ CompleteBy g.systematicShardCount seen' r t := by
    intro r t
    simp only [CompleteBy, hp.mem_iff]
  refine ⟨fun r hr => ?_, fun r hr hc => ?_, fun r T hT => ?_⟩
  · obtain ⟨t, ht, hfits, harr⟩ := h.tracker r hr
    exact ⟨t, ht, hfits, fun i => by rw [harr i]; simp only [hp.mem_iff]⟩
  · apply h.incomplete r hr
    simpa only [Complete, hp.mem_iff] using hc
  · have := h.complete r T hT
    simpa only [hby] using this

theorem Servable.perm {queue : RecoveryQueue} {events events' : List GlobalArrivalEvent}
    (h : Servable g estimate oracle queue events) (hp : events.Perm events') :
    Servable g estimate oracle queue events' where
  ids e he := h.ids e (hp.mem_iff.2 he)
  times e he := h.times e (hp.mem_iff.2 he)
  clock e he := h.clock e (hp.mem_iff.2 he)
  estimates := h.estimates
  waits hpos e he := h.waits hpos e (hp.mem_iff.2 he)

/-- **A run that is served** goes through all its steps, keeps the books, and ends with the metrics. -/
theorem run_served (sorter : EventSort) (sim : ClusterSimulator) (hg : sim.graph.Valid)
    {events : List GlobalArrivalEvent} (hstart : Started events)
    (hserve : Servable sim.graph sim.estimateRecoveryServiceTime oracle sim.recoveryQueue events) :
    ∃ trackers starts s', Validated sim.graph (sorter.sort events) (trackers, starts) ∧
      loopInPlace (act sim.graph sim.estimateRecoveryServiceTime oracle) (steps (sorter.sort events))
        (starting sim.recoveryQueue trackers) = .returns s' ∧
      Tracked sim.graph (fun r => ∃ e ∈ events, e.requestId = r) events s' ∧
      (run sorter sim events (some oracle)).2 = collectMetrics s' starts (requestIds events) := by
  have hp := sorter.perm events
  obtain ⟨⟨trackers, starts⟩, hvalid, hv⟩ := validate_returns hg (hstart.perm hp.symm)
  have hknown : ∀ e ∈ sorter.sort events, ∃ e' ∈ sorter.sort events, e'.requestId = e.requestId :=
    fun e he => ⟨e, he, rfl⟩
  have hbooks := Tracked.starting hg hv sim.recoveryQueue
  obtain ⟨s', hs'⟩ := instants_return hg (sorter.sorted_time events) hknown (hserve.perm hp.symm) hbooks
  have htracked := (tracked_of_returns (sorter.sorted_time events) hknown hbooks hs').perm hp
  refine ⟨trackers, starts, s', hv, hs', ?_, ?_⟩
  · simpa only [hp.mem_iff] using htracked
  · unfold run
    simp only [hvalid, instants_eq_loop]
    unfold starting at hs'
    rw [hs']

/-- **The metrics `x` of request `r`** when its natural completion is `T` and its recovery completes at `recovery`. -/
structure Reported (k : Nat) (events : List GlobalArrivalEvent) (recovery : Option Int) (r : Nat) (x : RequestMetrics)
    (T : Int) : Prop where
  natural : IsLeast {t | CompleteBy k events r t} T
  admitted : x.recoveryAdmitted = recovery.isSome
  outcome : ∀ e ∈ events, e.requestId = r →
    (∃ C, recovery = some C ∧ C < T ∧ x.latency = C - e.requestStartTime ∧ x.recoveryWon = true) ∨
      (∀ C, recovery = some C → T ≤ C) ∧ x.latency = T - e.requestStartTime ∧ x.recoveryWon = false

/-- **What a served run reports**: nothing when a request is never complete, else metrics for every request. -/
theorem run_reports (sorter : EventSort) (sim : ClusterSimulator) (hg : sim.graph.Valid)
    {events : List GlobalArrivalEvent} (hstart : Started events)
    (hserve : Servable sim.graph sim.estimateRecoveryServiceTime oracle sim.recoveryQueue events) :
    ∃ trackers starts s', Validated sim.graph (sorter.sort events) (trackers, starts) ∧
      loopInPlace (act sim.graph sim.estimateRecoveryServiceTime oracle) (steps (sorter.sort events))
        (starting sim.recoveryQueue trackers) = .returns s' ∧
      ((∃ e ∈ events, ¬ Complete sim.graph.systematicShardCount events e.requestId) →
        ∃ x, (run sorter sim events (some oracle)).2 = .error x) ∧
      ((∀ e ∈ events, Complete sim.graph.systematicShardCount events e.requestId) →
        ∃ m, (run sorter sim events (some oracle)).2 = .ok m ∧ m.map Prod.fst = requestIds events ∧
          ∀ p ∈ m, ∃ T, s'.naturalCompletionTimes p.1 = some T ∧
            Reported sim.graph.systematicShardCount events (s'.recoveryCompletionTimes p.1) p.1 p.2 T) := by
  obtain ⟨trackers, starts, s', hv, hloop, htracked, hrun⟩ := run_served sorter sim hg hstart hserve
  have hstarts : ∀ e ∈ events, starts e.requestId = some e.requestStartTime :=
    fun e he => (hv.started e ((sorter.perm events).mem_iff.2 he)).1
  refine ⟨trackers, starts, s', hv, hloop, fun ⟨e, he, hnot⟩ => ?_, fun hall => ?_⟩
  · rw [hrun]
    have hbad : ∃ x, requestMetrics s' starts e.requestId = .error x := by
      cases hT : s'.naturalCompletionTimes e.requestId with
      | none =>
        unfold requestMetrics
        rw [hT]
        exact ⟨_, rfl⟩
      | some T => exact absurd (htracked.complete _ T hT).1.complete hnot
    obtain ⟨x, hx⟩ := hbad
    exact collect_error (mem_requestIds.2 ⟨e, he, rfl⟩) hx
  · have htotal : ∀ r ∈ requestIds events, ∃ x, requestMetrics s' starts r = .ok x := by
      intro r hr
      obtain ⟨e, he, rfl⟩ := mem_requestIds.1 hr
      cases hT : s'.naturalCompletionTimes e.requestId with
      | none => exact absurd (hall e he) (htracked.incomplete _ hT)
      | some T => exact requestMetrics_total hT (hstarts e he)
    obtain ⟨m, hm⟩ := collect_total _ htotal
    obtain ⟨hkeys, hvalues⟩ := collect_ok hm
    refine ⟨m, hrun.trans hm, hkeys, fun p hp => ?_⟩
    obtain ⟨T, start, hT, hst, hadm, hout⟩ := requestMetrics_ok (hvalues p hp)
    refine ⟨T, hT, htracked.complete p.1 T hT, hadm, fun e he hreq => ?_⟩
    have hse := hstarts e he
    rw [hreq, hst] at hse
    rw [← Option.some.inj hse]
    exact hout

theorem make_ok {queue : RecoveryQueue} {sim : ClusterSimulator} (h : make g queue (some estimate) = .ok sim) :
    g.Valid ∧ sim = ⟨g, queue, fun _ => none, estimate⟩ := by
  unfold make at h
  split at h
  · cases h
  rename_i plan hplan
  exact ⟨(createPlan_spec hplan).1, (Except.ok.inj h).symm⟩

theorem make_accepts (hg : g.Valid) (queue : RecoveryQueue) (estimate : RecoveryServiceTimeEstimator) :
    make g queue (some estimate) = .ok ⟨g, queue, fun _ => none, estimate⟩ := by
  obtain ⟨plan, hplan⟩ := createPlanAll_accepts hg (by simp : ∀ s ∈ (∅ : Finset Nat), s < g.systematicShardCount)
  unfold make
  rw [hplan]

theorem no_recovery {trackers : Nat → Option ShardArrivalTracker} {queue : RecoveryQueue}
    (hdepth : queue.maxQueueDepth = 0)
    {as : List Step} (h : loopInPlace (act g estimate oracle) as (starting queue trackers) = .returns s') (r : Nat) :
    s'.recoveryCompletionTimes r = none := by
  rw [loopInPlace_eq_run] at h
  have hinv :=
    run_inv (I := fun s : ClusterRun => s.recoveryQueue.maxQueueDepth = 0 ∧ ∀ r, s.recoveryCompletionTimes r = none)
    (fun u a u' hu hstep => ?_) as _ s' ⟨hdepth, fun _ => rfl⟩ h
  · exact hinv.2 r
  · obtain ⟨now, q, -, -, hadv, rfl⟩ | ⟨now, request, batch, -, hturned⟩ := act_returned hstep
    · exact ⟨(RecoveryQueue.advanceTime_ok hadv).2.2.2.1.trans hu.1, hu.2⟩
    · obtain ⟨hq, hr⟩ | ⟨S, C, W, hpos, -, hquote, -⟩ := hturned.recovers
      · rw [hq, hr]
        exact hu
      · have := (RecoveryQueue.getExpectedRecoveryCost_some hquote).2.2.1
        omega

end ClusterSimulator

end CodedLLM
