import CodedLLM.Lifecycle
import CodedLLM.RequestSimulation
/-!
# CoordinatorSimulation — the coordinator takes the decisions the simulator predicts

One request, its arrivals handled one after another, with an executor that always gives the same estimate, accepts
every `Submit` and completes nothing meanwhile.  The coordinator plans first and asks the executor behind its flags,
the simulator evaluates the policy at each instant; with the tracker for a simulation relation (`Matches`) the two
decide alike at every arrival (`deliver_matches`), hence over every sequence of arrivals (`deliveries_match`).
-/
namespace CodedLLM

open Runs

/-! ## Handling one arrival to its end -/

structure ShardDelivery where
  shardId : Nat
  payload : WordShard
  arrivalTime : Int
  planning : Int

def ShardDelivery.event (a : ShardDelivery) : ShardArrivalEvent := ⟨a.shardId, a.arrivalTime⟩

def nextAction (thread : Nat) : HandlerPhase → Option Action
  | .idle => none
  | .cancelling _ => some (.cancel thread)
  | .submitting _ _ _ => some (.submit thread .accepts)
  | .accepted _ => some (.recheck thread)
  | .refused _ => some (.rollback thread)

def finish (g : BipartiteGraph) (thread : Nat) : Nat → Coordinator → Option Coordinator
  | 0, c => some c
  | sections + 1, c =>
    match nextAction thread (c.handlers thread) with
    | none => some c
    | some a => (step g c a).bind (finish g thread sections)

/-- **One call of `OnShardArrived`, from beginning to end**: after its locked section a handler has three more at most,
`Submit`, the look at the status, and `Cancel`. -/
def deliver (g : BipartiteGraph) (thread request : Nat) (wait : Int → Int) (cost : Int) (c : Coordinator)
    (a : ShardDelivery) : Option Coordinator :=
  (step g c (.arrive thread request a.shardId a.payload a.arrivalTime
    ⟨none, a.planning, some cost, .ok (wait a.arrivalTime)⟩)).bind (finish g thread 3)

def statusOf (c : Coordinator) (request : Nat) : Option RequestStatus :=
    (c.requests request).map (fun st => st.snapshot.status)

/-! ## The locked section -/

theorem onShardArrived_accepted {g : BipartiteGraph} {st : RequestState} {shardId : Nat} {payload : WordShard}
    {arrivalTime : Int} {env : ArrivalEnv} {tracker : ShardArrivalTracker}
    (h : Accepts st shardId payload arrivalTime env tracker)
    (hwords : st.wordCount = 0 ∨ st.wordCount = payload.length) :
    onShardArrived g st shardId payload arrivalTime env =
      if tracker.isSystematicComplete then
        ({ recordShard st shardId payload tracker with snapshot := { st.snapshot with status := .naturalComplete } },
          .ok .cancel)
      else if st.recoveryClosed = false ∧ st.snapshot.recoverySubmitted = false then
        decideRecovery g (recordShard st shardId payload tracker) env
      else (recordShard st shardId payload tracker, .ok .done) := by
  unfold onShardArrived
  rw [if_neg (by rw [h.pending]; decide), if_neg (Nat.not_le.2 h.bound), if_neg h.payload, if_neg (by tauto)]
  simp only [h.empty, Option.isSome_none, Bool.false_eq_true, if_false, h.staged, h.marked]
  rfl

theorem decideRecovery_planned {g : BipartiteGraph} {st : RequestState} {env : ArrivalEnv} {plan : DecodePlan}
    {wait cost : Int} (hplan : RecoveryPolicy.createPlan g st.tracker = .ok plan)
    (hincomplete : st.tracker.isSystematicComplete = false) (hestimate : env.estimate = some cost)
    (hwait : env.waitCost = .ok wait) :
    ∃ metrics, decideRecovery g st env =
      if RecoveryPolicy.evaluatePlan plan ⟨wait, cost⟩ = .recover then
        (withFlags st metrics true st.snapshot.recoveryRejected st.recoveryClosed, .ok (.submit plan st.shards))
      else (withFlags st metrics st.snapshot.recoverySubmitted st.snapshot.recoveryRejected st.recoveryClosed,
      .ok .done) := by
  obtain ⟨available, hav, hplan'⟩ := RecoveryPolicy.createPlan_ok hplan
  refine ⟨{ st.snapshot.metrics with planning := st.snapshot.metrics.planning + env.planning }, ?_⟩
  unfold decideRecovery
  simp only [hav, hplan']
  by_cases hrec : plan.isRecoverable = false
  · rw [if_pos hrec, if_neg (by rw [RecoveryPolicy.evaluatePlan, if_pos hrec]; decide)]
    rfl
  · rw [if_neg hrec, hestimate, hwait]
    simp only [RecoveryPolicy.evaluate_planned hplan hincomplete]
    cases hdecision : RecoveryPolicy.evaluatePlan plan ⟨wait, cost⟩ with
    | recover => rfl
    | wait => rfl
    | unrecoverable => rfl

/-! ## One arrival -/

variable {g : BipartiteGraph} {thread request : Nat} {wait : Int → Int} {cost : Int} {words : Nat} {c : Coordinator}
  {a : ShardDelivery} {st : RequestState} {t : ShardArrivalTracker} {p : RequestSimulation.Progress}

/-- **What one call leaves**: the request after the locked section, an idle handler, and a call of `Submit` if the
section asked for it. -/
theorem deliver_spec (hidle : c.handlers thread = .idle) (hst : c.requests request = some st) {st' : RequestState}
    {next : NextStep} (h : onShardArrived g st a.shardId a.payload a.arrivalTime
      ⟨none, a.planning, some cost, .ok (wait a.arrivalTime)⟩ = (st', .ok next))
    (hpend : ∀ plan shards, next = .submit plan shards → st'.snapshot.status = .pending) :
    ∃ c', deliver g thread request wait cost c a = some c' ∧ c'.requests request = some st' ∧
      c'.handlers thread = .idle ∧ c'.submits = match next with
        | .submit plan shards => (request, plan, shards) :: c.submits
        | _ => c.submits := by
  unfold deliver
  simp only [step, hidle, hst, h, Option.bind_some]
  cases next with
  | done =>
    simp only [nextPhase, finish, nextAction, Coordinator.setHandler, Function.update_self]
    exact ⟨_, rfl, by simp [Coordinator.setRequest], by simp, rfl⟩
  | cancel =>
    simp only [nextPhase, finish, nextAction, step, Coordinator.setHandler, Function.update_self, Option.bind_some]
    exact ⟨_, rfl, by simp [Coordinator.setRequest], by simp, rfl⟩
  | submit plan shards =>
    have hstatus := hpend plan shards rfl
    simp only [nextPhase, finish, nextAction, step, Coordinator.setHandler, Coordinator.setRequest,
      Function.update_self, Option.bind_some, hstatus, reduceCtorEq, if_false]
    exact ⟨_, rfl, by simp, by simp, rfl⟩

/-- **The simulation relation** while the request is pending. -/
structure Matches (g : BipartiteGraph) (thread request words : Nat) (c : Coordinator) (st : RequestState)
    (t : ShardArrivalTracker) (p : RequestSimulation.Progress) : Prop where
  idle : c.handlers thread = .idle
  found : c.requests request = some st
  inv : RequestInv g st
  pending : st.snapshot.status = .pending
  words : st.wordCount = 0 ∨ st.wordCount = words
  unclosed : st.recoveryClosed = false
  submitted : st.snapshot.recoverySubmitted = p.recoveryStartTime.isSome
  tracker : st.tracker = t
  incomplete : t.isSystematicComplete = false
  natural : p.naturalCompletionTime = none

theorem Matches.fits (h : Matches g thread request words c st t p) : t.Fits g := by
  rw [← h.tracker]
  exact ⟨h.inv.systematic, h.inv.parity, h.inv.arrivals⟩

theorem Matches.status_ne (h : Matches g thread request words c st t p) :
    statusOf c request ≠ some .naturalComplete := by
  unfold statusOf
  rw [h.found, Option.map_some, h.pending]
  decide

structure Over (thread request : Nat) (c : Coordinator) : Prop where
  idle : c.handlers thread = .idle
  complete : statusOf c request = some .naturalComplete

theorem deliver_over (h : Over thread request c) (a : ShardDelivery) :
    ∃ c', deliver g thread request wait cost c a = some c' ∧ Over thread request c' ∧ c'.submits = c.submits := by
  obtain ⟨st, hst, hstatus⟩ := Option.map_eq_some_iff.1 h.complete
  have hlate : onShardArrived g st a.shardId a.payload a.arrivalTime
      ⟨none, a.planning, some cost, .ok (wait a.arrivalTime)⟩ =
      ({ st with snapshot := { st.snapshot with lateArrivals := st.snapshot.lateArrivals + 1 } }, .ok .done) := by
    unfold onShardArrived
    rw [if_pos (by rw [hstatus]; decide)]
  obtain ⟨c', hc', hreq, hidle, hsubmits⟩ := deliver_spec h.idle hst hlate (by simp)
  refine ⟨c', hc', ⟨hidle, ?_⟩, hsubmits⟩
  unfold statusOf
  rw [hreq]
  exact congrArg some hstatus

def startedCount (p : RequestSimulation.Progress) : Nat := if p.recoveryStartTime.isSome then 1 else 0

/-- **One arrival, in the coordinator and in the simulator**: it completes the request in both, or both go on, and
`Submit` is called exactly if the simulator starts a recovery. -/
theorem deliver_matches (h : Matches g thread request words c st t p) (hg : g.Valid) (hcost : 0 ≤ cost)
    (hwords : 0 < words)
    (hid : a.shardId < g.systematicShardCount + g.parityShardCount) (hnew : t.arrived a.shardId = false)
    (hsize : a.payload.length = words) :
    ∃ t' c', t.markArrived a.shardId a.arrivalTime = .ok t' ∧
      (∀ j, t'.arrived j = (decide (j = a.shardId) || t.arrived j)) ∧
      deliver g thread request wait cost c a = some c' ∧ c'.handlers thread = .idle ∧
      ((t'.isSystematicComplete = true ∧ Over thread request c' ∧ c'.submits = c.submits) ∨
        t'.isSystematicComplete = false ∧ ∃ st' p',
          RequestSimulation.considerRecovery g (fun now => .ok ⟨wait now, cost⟩) a.arrivalTime t' p = .ok p' ∧
          Matches g thread request words c' st' t' p' ∧
          ((p' = p ∧ c'.submits = c.submits) ∨
            p.recoveryStartTime = none ∧ p'.recoveryStartTime = some a.arrivalTime ∧
              ∃ plan shards, c'.submits = (request, plan, shards) :: c.submits)) := by
  obtain rfl := h.tracker
  have hlen : a.shardId < st.tracker.arrivals.length := by
    rw [h.inv.arrivals]
    exact hid
  obtain ⟨t', hmark, hk, hm, hl, harr⟩ := ShardArrivalTracker.markArrived_ok hlen a.arrivalTime
  have hbound : a.shardId < st.shards.length := by
    rw [h.inv.length (by rw [h.pending]; decide)]
    exact hid
  have hempty : slotAt st.shards a.shardId = none := by
    have hagree := h.inv.agree (by rw [h.pending]; decide) a.shardId
    rw [hnew] at hagree
    simpa using hagree.symm
  have hpayload : a.payload ≠ [] := by
    intro hnil
    rw [hnil, List.length_nil] at hsize
    omega
  have haccepts : Accepts st a.shardId a.payload a.arrivalTime
      ⟨none, a.planning, some cost, .ok (wait a.arrivalTime)⟩ t' :=
    ⟨h.pending, hbound, hempty, hpayload, rfl, hmark⟩
  have hsection := onShardArrived_accepted (g := g) haccepts (by rw [hsize]; exact h.words)
  have hrecord := h.inv.record haccepts
  have hfits : t'.Fits g := ⟨hk.trans h.inv.systematic, hm.trans h.inv.parity, hl.trans h.inv.arrivals⟩
  cases hcomplete : t'.isSystematicComplete with
  | true =>
    rw [if_pos hcomplete] at hsection
    obtain ⟨c', hc', hreq, hidle, hsubmits⟩ := deliver_spec h.idle h.found hsection (by simp)
    refine ⟨t', c', hmark, harr, hc', hidle, .inl ⟨hcomplete, ⟨hidle, ?_⟩, hsubmits⟩⟩
    unfold statusOf
    rw [hreq]
    rfl
  | false =>
    rw [if_neg (by simp [hcomplete])] at hsection
    by_cases hstarted : p.recoveryStartTime.isSome = true
    · -- a recovery is under way in both
      rw [if_neg (by rw [h.submitted, hstarted]; simp)] at hsection
      obtain ⟨c', hc', hreq, hidle, hsubmits⟩ := deliver_spec h.idle h.found hsection (by simp)
      refine ⟨t', c', hmark, harr, hc', hidle, .inr ⟨hcomplete, recordShard st a.shardId a.payload t', p,
        RequestSimulation.considerRecovery_started hstarted, ?_, .inl ⟨rfl, hsubmits⟩⟩⟩
      exact ⟨hidle, hreq, hrecord, h.pending, .inr hsize, h.unclosed, h.submitted, rfl, hcomplete, h.natural⟩
    · rw [Bool.not_eq_true] at hstarted
      rw [if_pos ⟨h.unclosed, by rw [h.submitted, hstarted]⟩] at hsection
      obtain ⟨plan, hplan⟩ := RecoveryPolicy.createPlan_accepts hg hfits
      have hsimulated := @RequestSimulation.considerRecovery_planned g (fun now => .ok ⟨wait now, cost⟩) a.arrivalTime
        (wait a.arrivalTime) cost t' p plan hstarted hplan hcomplete rfl hcost
      obtain ⟨metrics, hdecide⟩ := @decideRecovery_planned g (recordShard st a.shardId a.payload t')
        ⟨none, a.planning, some cost, .ok (wait a.arrivalTime)⟩ plan (wait a.arrivalTime) cost hplan hcomplete rfl rfl
      rw [hdecide] at hsection
      by_cases hrecover : RecoveryPolicy.evaluatePlan plan ⟨wait a.arrivalTime, cost⟩ = .recover
      · rw [if_pos hrecover] at hsection hsimulated
        obtain ⟨c', hc', hreq, hidle, hsubmits⟩ := deliver_spec h.idle h.found hsection (fun _ _ _ => h.pending)
        refine ⟨t', c', hmark, harr, hc', hidle, .inr ⟨hcomplete,
          withFlags (recordShard st a.shardId a.payload t') metrics true st.snapshot.recoveryRejected st.recoveryClosed,
          _, hsimulated, ?_, .inr ⟨?_, rfl, _, _, hsubmits⟩⟩⟩
        · refine ⟨hidle, hreq, hrecord.withFlags metrics ?_ hrecord.closed, h.pending, .inr hsize, h.unclosed, rfl, rfl,
            hcomplete, h.natural⟩
          rintro ⟨-, hrejected⟩
          have hclosed := h.inv.closed hrejected
          rw [h.unclosed] at hclosed
          cases hclosed
        · simpa using hstarted
      · rw [if_neg hrecover] at hsection hsimulated
        obtain ⟨c', hc', hreq, hidle, hsubmits⟩ := deliver_spec h.idle h.found hsection (by simp)
        refine ⟨t', c', hmark, harr, hc', hidle,
          .inr ⟨hcomplete, withFlags (recordShard st a.shardId a.payload t') metrics
          st.snapshot.recoverySubmitted st.snapshot.recoveryRejected st.recoveryClosed, p, hsimulated, ?_,
          .inl ⟨rfl, hsubmits⟩⟩⟩
        exact ⟨hidle, hreq, hrecord.withFlags metrics hrecord.exclusive hrecord.closed, h.pending, .inr hsize,
          h.unclosed, h.submitted, rfl, hcomplete, h.natural⟩

/-! ## All the arrivals -/

/-- **What the handler of one arrival decides, against the simulator's record**: it calls `Submit` at the arrival that
starts the recovery there, and completes the request at the arrival that completes it there. -/
def Decides (g : BipartiteGraph) (thread request : Nat) (wait : Int → Int) (cost : Int)
    (recoveryStartTime naturalCompletionTime : Option Int) (c : Coordinator) (a : ShardDelivery) : Prop :=
  ∃ c', deliver g thread request wait cost c a = some c' ∧ c'.handlers thread = .idle ∧
    ((recoveryStartTime = some a.arrivalTime ∧ ∃ plan shards, c'.submits = (request, plan, shards) :: c.submits) ∨
      recoveryStartTime ≠ some a.arrivalTime ∧ c'.submits = c.submits) ∧
    ((statusOf c request ≠ some .naturalComplete ∧ statusOf c' request = some .naturalComplete) ↔
      naturalCompletionTime = some a.arrivalTime)

variable {as : List ShardDelivery}

theorem deliveries_over (h : Over thread request c) {start natural : Option Int}
    (hstart : ∀ a ∈ as, start ≠ some a.arrivalTime) (hnatural : ∀ a ∈ as, natural ≠ some a.arrivalTime) :
    ∃ c', run (deliver g thread request wait cost) c as = some c' ∧ Over thread request c' ∧ c'.submits = c.submits ∧
      Along (deliver g thread request wait cost) (Decides g thread request wait cost start natural) c as := by
  induction as generalizing c with
  | nil => exact ⟨c, rfl, h, rfl, trivial⟩
  | cons a as ih =>
    obtain ⟨c₁, hc₁, hover, hsubmits⟩ := @deliver_over g thread request wait cost c h a
    obtain ⟨c', hrun, hover', hsubmits', halong⟩ := ih hover (fun b hb => hstart b (List.mem_cons_of_mem a hb))
      (fun b hb => hnatural b (List.mem_cons_of_mem a hb))
    have hhead : Decides g thread request wait cost start natural c a :=
      ⟨c₁, hc₁, hover.idle, .inr ⟨hstart a List.mem_cons_self, hsubmits⟩,
        iff_of_false (fun hn => hn.1 h.complete) (hnatural a List.mem_cons_self)⟩
    exact ⟨c', (run_cons c a as c').2 ⟨c₁, hc₁, hrun⟩, hover', hsubmits'.trans hsubmits, halong.cons hc₁ hhead⟩

structure Ahead (g : BipartiteGraph) (words : Nat) (t : ShardArrivalTracker) (p : RequestSimulation.Progress)
    (as : List ShardDelivery) : Prop where
  times : as.Pairwise (fun a b => a.arrivalTime < b.arrivalTime)
  nonneg : ∀ a ∈ as, 0 ≤ a.arrivalTime
  bound : ∀ a ∈ as, a.shardId < g.systematicShardCount + g.parityShardCount
  distinct : (as.map ShardDelivery.shardId).Nodup
  sized : ∀ a ∈ as, a.payload.length = words
  fresh : ∀ a ∈ as, t.arrived a.shardId = false
  covers : ∀ i < g.systematicShardCount, t.arrived i = true ∨ i ∈ as.map ShardDelivery.shardId
  later : ∀ T, p.recoveryStartTime = some T → ∀ a ∈ as, T < a.arrivalTime

theorem Ahead.tail (h : Ahead g words t p (a :: as)) {t' : ShardArrivalTracker} {p' : RequestSimulation.Progress}
    (harr : ∀ j, t'.arrived j = (decide (j = a.shardId) || t.arrived j))
    (hp : p'.recoveryStartTime = p.recoveryStartTime ∨ p'.recoveryStartTime = some a.arrivalTime) :
    Ahead g words t' p' as := by
  have hmem : ∀ b ∈ as, b ∈ a :: as := fun b hb => List.mem_cons_of_mem a hb
  obtain ⟨hfirst, hrest⟩ := List.pairwise_cons.1 h.times
  obtain ⟨hother, hdistinct⟩ := List.nodup_cons.1 h.distinct
  refine ⟨hrest, fun b hb => h.nonneg b (hmem b hb), fun b hb => h.bound b (hmem b hb), hdistinct,
    fun b hb => h.sized b (hmem b hb), ?_, ?_, ?_⟩
  · intro b hb
    have hne : b.shardId ≠ a.shardId := fun heq => hother (heq ▸ List.mem_map_of_mem hb)
    rw [harr, h.fresh b (hmem b hb), decide_eq_false hne]
    rfl
  · intro i hi
    rw [harr]
    rcases h.covers i hi with hold | hnew
    · exact .inl (by simp [hold])
    · rcases List.mem_cons.1 hnew with heq | hlater
      · exact .inl (by simp [heq])
      · exact .inr hlater
  · intro T hT b hb
    rcases hp with hsame | hhere
    · exact h.later T (hsame ▸ hT) b (hmem b hb)
    · rw [hhere, Option.some.injEq] at hT
      exact hT ▸ hfirst b hb

/-- What a simulation that goes on from `p` over `as` may have recorded: the recovery of `p`, or one of `as`, and the
completion by one of `as`. -/
structure Recorded (p p' : RequestSimulation.Progress) (as : List ShardDelivery) : Prop where
  start : p'.recoveryStartTime = p.recoveryStartTime ∨
    p.recoveryStartTime = none ∧ ∃ b ∈ as, p'.recoveryStartTime = some b.arrivalTime
  natural : ∃ b ∈ as, p'.naturalCompletionTime = some b.arrivalTime

/-- **The coordinator and the simulator, over all the arrivals.** -/
theorem deliveries_match (hg : g.Valid) (hcost : 0 ≤ cost) (hwords : 0 < words)
    (h : Matches g thread request words c st t p) (hahead : Ahead g words t p as) :
    ∃ p' c', RequestSimulation.instants g (fun now => .ok ⟨wait now, cost⟩)
        (as.map (fun a => (a.arrivalTime, [a.event]))) t p = .ok p' ∧
      run (deliver g thread request wait cost) c as = some c' ∧ Over thread request c' ∧
      Along (deliver g thread request wait cost)
        (Decides g thread request wait cost p'.recoveryStartTime p'.naturalCompletionTime) c as ∧
      Recorded p p' as ∧ c'.submits.length + startedCount p = c.submits.length + startedCount p' := by
  induction as generalizing c st t p with
  | nil =>
    -- every systematic shard would have arrived by now
    have hcomplete : t.isSystematicComplete = true := by
      rw [ShardArrivalTracker.isSystematicComplete_iff, h.fits.systematic]
      intro i hi
      simpa using hahead.covers i hi
    rw [h.incomplete] at hcomplete
    cases hcomplete
  | cons a as ih =>
    have hself : a ∈ a :: as := List.mem_cons_self
    have hlater : ∀ b ∈ as, a.arrivalTime < b.arrivalTime := (List.pairwise_cons.1 hahead.times).1
    obtain ⟨t', c₁, hmark, harr, hc₁, hidle, hcase⟩ :=
      @deliver_matches g thread request wait cost words c a st t p h hg hcost
      hwords (hahead.bound a hself) (hahead.fresh a hself) (hahead.sized a hself)
    have hunstarted : p.recoveryStartTime ≠ some a.arrivalTime := fun hT =>
      lt_irrefl _ (hahead.later a.arrivalTime hT a hself)
    rw [List.map_cons, RequestSimulation.instants_single (e := a.event) (hahead.nonneg a hself) hmark]
    rcases hcase with ⟨hcomplete, hover, hsubmits⟩ | ⟨hincomplete, st', p₁, hconsider, hmatches, hdecided⟩
    · rw [if_pos hcomplete]
      have hstart : ∀ b ∈ as, p.recoveryStartTime ≠ some b.arrivalTime := fun b hb hT =>
        lt_irrefl _ (hahead.later b.arrivalTime hT b (List.mem_cons_of_mem a hb))
      have hnatural : ∀ b ∈ as, some a.arrivalTime ≠ some b.arrivalTime := fun b hb hT =>
        (hlater b hb).ne (Option.some.inj hT)
      obtain ⟨c', hrun, hover', hsubmits', halong⟩ :=
        @deliveries_over g thread request wait cost c₁ as hover _ _ hstart hnatural
      refine ⟨_, c', rfl, (run_cons c a as c').2 ⟨c₁, hc₁, hrun⟩, hover', halong.cons hc₁ ?_,
        ⟨.inl rfl, a, hself, rfl⟩, ?_⟩
      · exact ⟨c₁, hc₁, hidle, .inr ⟨hunstarted, hsubmits⟩, iff_of_true ⟨h.status_ne, hover.complete⟩ rfl⟩
      · rw [hsubmits', hsubmits]
        rfl
    · rw [if_neg (by simp [hincomplete]), hconsider]
      have hp₁ : p₁.recoveryStartTime = p.recoveryStartTime ∨ p₁.recoveryStartTime = some a.arrivalTime := by
        rcases hdecided with ⟨rfl, -⟩ | ⟨-, hstart, -⟩
        · exact .inl rfl
        · exact .inr hstart
      obtain ⟨p', c', hsim, hrun, hover, halong, hrecorded, hcount⟩ := ih hmatches (hahead.tail harr hp₁)
      have hrun' := (run_cons c a as c').2 ⟨c₁, hc₁, hrun⟩
      obtain ⟨b, hb, hnatural⟩ := hrecorded.natural
      have hstatus : (statusOf c request ≠ some .naturalComplete ∧ statusOf c₁ request = some .naturalComplete) ↔
          p'.naturalCompletionTime = some a.arrivalTime := by
        refine iff_of_false (fun hn => hmatches.status_ne hn.2) ?_
        rw [hnatural, Option.some.injEq]
        exact (hlater b hb).ne'
      have hnatural' : ∃ b ∈ a :: as, p'.naturalCompletionTime = some b.arrivalTime :=
        ⟨b, List.mem_cons_of_mem a hb, hnatural⟩
      rcases hdecided with ⟨rfl, hsubmits⟩ | ⟨hnone, hstart, plan, shards, hsubmits⟩
      · -- nothing is decided here
        have helse : p'.recoveryStartTime ≠ some a.arrivalTime := by
          rcases hrecorded.start with hsame | ⟨-, b, hb, hstart⟩
          · rw [hsame]
            exact hunstarted
          · rw [hstart, ne_eq, Option.some.injEq]
            exact (hlater b hb).ne'
        refine ⟨p', c', hsim, hrun', hover, halong.cons hc₁ ⟨c₁, hc₁, hidle, .inr ⟨helse, hsubmits⟩, hstatus⟩,
          ⟨?_, hnatural'⟩, hsubmits ▸ hcount⟩
        rcases hrecorded.start with hsame | ⟨hnone, b, hb, hstart⟩
        · exact .inl hsame
        · exact .inr ⟨hnone, b, List.mem_cons_of_mem a hb, hstart⟩
      · -- the recovery starts here
        have hhere : p'.recoveryStartTime = some a.arrivalTime := by
          rcases hrecorded.start with hsame | ⟨hnone₁, -⟩
          · rw [hsame, hstart]
          · rw [hstart] at hnone₁
            cases hnone₁
        refine ⟨p', c', hsim, hrun', hover,
          halong.cons hc₁ ⟨c₁, hc₁, hidle, .inl ⟨hhere, plan, shards, hsubmits⟩, hstatus⟩,
          ⟨.inr ⟨hnone, a, hself, hhere⟩, hnatural'⟩, ?_⟩
        have hbefore : startedCount p = 0 := by simp [startedCount, hnone]
        have hafter : startedCount p₁ = 1 := by simp [startedCount, hstart]
        rw [hsubmits, List.length_cons, hafter] at hcount
        omega

theorem Matches.start (hg : g.Valid) (hidle : c.handlers thread = .idle) (htransport : c.transport = true)
    (hfree : c.requests request = none) (words : Nat) :
    ∃ c₀ st, step g c (.startRequest request true none) = some c₀ ∧ c₀.submits = c.submits ∧
      Matches g thread request words c₀ st
        ⟨g.systematicShardCount, g.parityShardCount, List.replicate (g.systematicShardCount + g.parityShardCount) none⟩
        ⟨none, none, none⟩ := by
  have hmake : RequestState.make g.systematicShardCount g.parityShardCount = .ok
      ⟨⟨g.systematicShardCount, g.parityShardCount, List.replicate (g.systematicShardCount + g.parityShardCount) none⟩,
        List.replicate (g.systematicShardCount + g.parityShardCount) none, ⟨.pending, false, false, 0, .zero, ""⟩, 0,
          false⟩ := by
    unfold RequestState.make
    rw [ShardArrivalTracker.make_accepts hg.systematicPos hg.parityPos hg.total]
  refine ⟨c.setRequest request _, _, ?_, rfl,
    ⟨hidle, Function.update_self .., RequestInv.make hmake, rfl, .inl rfl, rfl, rfl, rfl, ?_, rfl⟩⟩
  · simp only [step, Coordinator.startRequest, htransport, hmake, hfree]
    rfl
  · rw [Bool.eq_false_iff, ne_eq, ShardArrivalTracker.isSystematicComplete_iff]
    intro hall
    have hzero := hall 0 hg.systematicPos
    simp at hzero

theorem group_ordered (htimes : as.Pairwise (fun a b => a.arrivalTime < b.arrivalTime)) :
    Batches.group ShardArrivalEvent.arrivalTime (RequestSimulation.ordered (as.map ShardDelivery.event)) =
      as.map (fun a => (a.arrivalTime, [a.event])) := by
  have hstrict : (as.map ShardDelivery.event).Pairwise (fun a b => a.arrivalTime < b.arrivalTime) :=
    List.pairwise_map.2 htimes
  unfold RequestSimulation.ordered
  rw [List.Pairwise.insertionSort_eq (hstrict.imp le_of_lt), Batches.group_of_strict _ _ hstrict, List.map_map]
  rfl

/-- **The serving coordinator takes the decisions the request simulator predicts.**  It starts the request in any
state that lets it, and handles the arrivals one after another; `Submit` is called at the arrival where the simulator
starts a recovery and at no other, and the request completes at the simulator's natural completion time. -/
theorem coordinator_follows_simulation (hg : validateGraph g = .ok ()) (hidle : c.handlers thread = .idle)
    (htransport : c.transport = true) (hfree : c.requests request = none) (wait : Int → Int) (hcost : 0 ≤ cost)
    (hnonneg : ∀ a ∈ as, 0 ≤ a.arrivalTime) (htimes : as.Pairwise (fun a b => a.arrivalTime < b.arrivalTime))
    (hids : ∀ a ∈ as, a.shardId < g.systematicShardCount + g.parityShardCount)
    (honce : (as.map ShardDelivery.shardId).Nodup) (hwords : 0 < words) (hsize : ∀ a ∈ as, a.payload.length = words)
    (hall : ∀ i < g.systematicShardCount, i ∈ as.map ShardDelivery.shardId) :
    ∃ x c₀ c', RequestSimulation.run g (as.map ShardDelivery.event) (some (fun now => .ok ⟨wait now, cost⟩)) = .ok x ∧
      step g c (.startRequest request true none) = some c₀ ∧ run (deliver g thread request wait cost) c₀ as = some c' ∧
      Along (deliver g thread request wait cost)
        (Decides g thread request wait cost x.recoveryStartTime (some x.naturalCompletionTime)) c₀ as ∧
      c'.submits.length = c.submits.length + (if x.recoveryStartTime.isSome then 1 else 0) ∧
      statusOf c' request = some .naturalComplete := by
  have hvalid := (validateGraph_ok g).1 hg
  obtain ⟨c₀, st, hstart, hsubmits, hmatches⟩ := Matches.start hvalid hidle htransport hfree words
  have hahead : Ahead g words ⟨g.systematicShardCount, g.parityShardCount,
      List.replicate (g.systematicShardCount + g.parityShardCount) none⟩ ⟨none, none, none⟩ as :=
    ⟨htimes, hnonneg, hids, honce, hsize, by simp, fun i hi => .inr (hall i hi), by simp⟩
  obtain ⟨p', c', hsim, hrun, hover, halong, hrecorded, hcount⟩ :=
    @deliveries_match g thread request wait cost words c₀ st _ _ as hvalid hcost hwords hmatches hahead
  obtain ⟨b, -, hnatural⟩ := hrecorded.natural
  rw [← group_ordered htimes] at hsim
  obtain ⟨x, hx, hxstart, hxnatural⟩ := RequestSimulation.metrics_of_natural hnatural
  refine ⟨x, c₀, c', (RequestSimulation.run_of_instants hvalid hsim).trans hx, hstart, hrun, ?_, ?_, hover.complete⟩
  · rw [hxstart, hxnatural, ← hnatural]
    exact halong
  · rw [hsubmits] at hcount
    rw [hxstart]
    exact hcount

def straggler : List ShardDelivery := [⟨0, [5], 1, 0⟩, ⟨2, [12], 2, 0⟩, ⟨1, [9], 9, 0⟩]

theorem coordinator_follows_simulation_straggler : ∃ x c₀ c',
    RequestSimulation.run makeGraph (straggler.map ShardDelivery.event) (some (fun _ => .ok ⟨5, 2⟩)) = .ok x ∧
      x.recoveryStartTime = some 2 ∧ x.naturalCompletionTime = 9 ∧
      step makeGraph { Coordinator.init with transport := true } (.startRequest 7 true none) = some c₀ ∧
      run (deliver makeGraph 0 7 (fun _ => 5) 2) c₀ straggler = some c' ∧
      Along (deliver makeGraph 0 7 (fun _ => 5) 2)
        (Decides makeGraph 0 7 (fun _ => 5) 2 x.recoveryStartTime (some x.naturalCompletionTime)) c₀ straggler ∧
      c'.submits.length = 0 + (if x.recoveryStartTime.isSome then 1 else 0) ∧
      statusOf c' 7 = some .naturalComplete := by
  obtain ⟨x, c₀, c', hx, hrest⟩ := @coordinator_follows_simulation makeGraph 0 7 2 1
    { Coordinator.init with transport := true } straggler (by decide) rfl rfl rfl (fun _ => 5) (by decide) (by decide)
    (by unfold straggler; decide) (by decide) (by decide) (by decide) (by decide) (by decide)
  have hrun : RequestSimulation.run makeGraph (straggler.map ShardDelivery.event) (some (fun _ => .ok ⟨5, 2⟩)) =
      .ok ⟨9, some 2, some 4, 4, true⟩ := by decide +kernel
  obtain rfl := Except.ok.inj (hx.symm.trans hrun)
  exact ⟨_, c₀, c', hx, rfl, rfl, hrest⟩

end CodedLLM
