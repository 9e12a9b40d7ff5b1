import CodedLLM.ExecutorWakeups
/-!
# ExecutorShutdown — `~Impl` returns

From the moment `stopping` is set nobody falls asleep any more, and every step of a worker or of the destructor lowers
`rank`: a queued task is worth more than all that a worker still has to do for it.  A state where none of them can
move is one where the destructor is past its last `join`.  The queue is drained before that: a worker leaves only an
empty queue.
-/
namespace CodedLLM

open Runs WaitSets

def Teardown.weight (workers : Nat) : Teardown → Nat
  | .alive          => workers + 2
  | .notifying      => workers + 1
  | .joining worker => workers - worker

namespace LiveExecutor

def weight (phase : WorkerPhase) : Nat :=
  Executor.sections phase + match phase with
    | .exited  => 0
    | .waiting => 1
    | _        => 2

theorem weight_of_held {phase : WorkerPhase} (h : phase.held.isSome = true) :
    weight phase = Executor.sections phase + 2 := by
  cases phase <;> first | rfl | cases h

/-- **The steps the workers and the destructor still have before them.** -/
def rank (s : LiveExecutor) : Nat :=
  6 * s.executor.queue.length + (s.executor.workers.map weight).sum + s.asleep.card + s.notifying.card +
    s.teardown.weight s.executor.workers.length

structure Closing (s : LiveExecutor) : Prop where
  tended : Tended s
  stopping : s.executor.stopping = true

theorem Closing.down {s : LiveExecutor} (h : Closing s) : s.teardown ≠ .alive := h.tended.stopping.1 h.stopping

theorem step_closing (s : LiveExecutor) (a : Action) (s' : LiveExecutor) (h : Closing s) (hs : step s a = some s') :
    Closing s' := by
  refine ⟨step_tended s a s' h.tended hs, ?_⟩
  have hstop := h.stopping
  cases step_cases hs with
  | called a call executor ha hcall hw hsame => exact hsame.trans hstop
  | pushed a call executor woken asleep ha hcall hw hopen hsame => exact hsame.trans hstop
  | stopped => rfl
  | left w executor hstep hidle hasleep hnot hw hdown hsame => exact hsame.trans hstop
  | took w executor task hstep hidle hasleep hnot hw hsame => exact hsame.trans hstop
  | worked a work w x y executor ha hstep hx hw hxh hyh hless hsame => exact hsame.trans hstop
  | erased w task cancelled executor hstep hx hw hsame => exact hsame.trans hstop
  | _ => exact hstop

/-- **Every step of a worker or of the destructor lowers the rank**, and no call from outside raises it. -/
theorem step_rank (s : LiveExecutor) (a : Action) (s' : LiveExecutor) (h : Closing s) (_ : True)
    (hs : step s a = some s') : rank s' + (if a.own = true then 1 else 0) ≤ rank s + 0 := by
  cases step_cases hs with
  | called a call executor ha hcall hw hstop hqueue =>
    simp only [rank, ha, hw]
    simp only [Bool.false_eq_true, if_false]
    omega
  | pushed a call executor woken asleep ha hcall hw hopen =>
    rw [h.stopping] at hopen
    cases hopen
  | stopped halive => exact absurd halive h.down
  | stopNotified hdown =>
    simp only [rank, hdown, Teardown.weight, Action.own, Finset.card_empty, if_true]
    omega
  | joined w hdown hw =>
    have hlt := (List.getElem?_eq_some_iff.1 hw).1
    simp only [rank, hdown, Teardown.weight, Action.own, if_true]
    omega
  | slept w hidle hasleep hnot hopen =>
    rw [h.stopping] at hopen
    cases hopen
  | left w executor hstep hidle hasleep hnot hw hdown hstop hqueue hqueue' =>
    have hsum := sum_map_set weight (Executor.mem_idle.1 hidle) WorkerPhase.exited
    simp only [weight, Executor.sections] at hsum
    simp only [rank, hw, List.length_set, hqueue, hqueue', Action.own, if_true]
    omega
  | took w executor task hstep hidle hasleep hnot hw hstop hqueue =>
    have hsum := sum_map_set weight (Executor.mem_idle.1 hidle) (.executing task)
    simp only [weight, Executor.sections] at hsum
    simp only [rank, hw, List.length_set, hqueue, List.length_cons, Action.own, if_true]
    omega
  | woke w hasleep =>
    have hcard := Finset.card_erase_add_one hasleep
    simp only [rank, Action.own, if_true]
    omega
  | worked a work w x y executor ha hstep hx hw hxh hyh hless hstop hqueue =>
    have hsum := sum_map_set weight hx y
    rw [weight_of_held hxh, weight_of_held hyh] at hsum
    simp only [rank, hw, List.length_set, hqueue, ha, if_true]
    omega
  | erased w task cancelled executor hstep hx hw hstop hqueue =>
    have hsum := sum_map_set weight hx .waiting
    have hcard := Finset.card_insert_le w s.notifying
    simp only [weight, Executor.sections] at hsum
    simp only [rank, hw, List.length_set, hqueue, Action.own, if_true]
    omega
  | notified w hnot =>
    have hcard := Finset.card_erase_add_one hnot
    simp only [rank, Action.own, Finset.card_empty, if_true]
    omega

theorem sum_weight_le : ∀ workers : List WorkerPhase,
    (workers.map weight).sum ≤ 6 * (workers.filterMap WorkerPhase.held).length + workers.length
  | [] => le_rfl
  | w :: workers => by
    have ih := sum_weight_le workers
    cases w <;> simp only [List.map_cons, List.sum_cons, List.filterMap_cons, WorkerPhase.held, weight,
      Executor.sections, List.length_cons] <;> omega

/-- **The rank is bounded by the limits of the executor.** -/
theorem rank_le {s : LiveExecutor} (h : Tended s) (hb : Executor.Books s.executor) (hdown : s.teardown ≠ .alive) :
    rank s ≤ 6 * s.executor.capacity + 3 * s.executor.concurrency + 1 := by
  have hsum := sum_weight_le s.executor.workers
  have hsleep : s.asleep.card + s.notifying.card ≤ s.executor.workers.length := by
    have hsub : s.asleep ∪ s.notifying ⊆ Finset.range s.executor.workers.length :=
      (Finset.union_subset h.asleep h.notifying).trans (Finset.filter_subset _ _)
    have hcard := Finset.card_le_card hsub
    rw [Finset.card_union_of_disjoint h.apart, Finset.card_range] at hcard
    exact hcard
  have hteardown : s.teardown.weight s.executor.workers.length ≤ s.executor.workers.length + 1 := by
    cases ht : s.teardown with
    | alive => exact absurd ht hdown
    | notifying => exact le_rfl
    | joining w => exact (Nat.sub_le _ w).trans (Nat.le_succ _)
  have hroom := hb.room
  have hheld : s.executor.taskIds.length = s.executor.queue.length + s.executor.heldTasks.length := by
    simp [Executor.taskIds, Executor.queuedIds, Executor.heldIds]
  have hlen := hb.workers
  unfold Executor.heldTasks at hheld
  unfold rank
  omega

theorem not_held_of_settled {s : LiveExecutor} (hset : Settled step Action.own s) {v : Nat} {x : WorkerPhase}
    (hv : s.executor.workers[v]? = some x) : ¬ x.held.isSome = true := by
  intro hheld
  obtain ⟨a, ha, s', hstep⟩ := Executor.exists_busy hv hheld ⟨serialDevice, 0, 0, 0, 0, 0⟩
  have hquiet : s.quietStep a = some { s with executor := s' } := quietStep_eq.2 ⟨s', hstep, rfl⟩
  simp only [List.mem_cons, List.not_mem_nil, or_false] at ha
  rcases ha with rfl | rfl | rfl | rfl
  · exact absurd ((hset (.execute v _) rfl).symm.trans hquiet) (by simp)
  · exact absurd ((hset (.check v) rfl).symm.trans hquiet) (by simp)
  · exact absurd ((hset (.deliver v) rfl).symm.trans hquiet) (by simp)
  · have hnone := hset (.erase v) rfl
    simp [step, hquiet] at hnone

theorem not_waiting_of_settled {s : LiveExecutor} (hset : Settled step Action.own s)
    (hstop : s.executor.stopping = true)
    (hasleep : s.asleep = ∅) {v : Nat} (hnot : v ∉ s.notifying) : s.executor.workers[v]? ≠ some .waiting := by
  intro hv
  have hpred : ¬ (s.executor.stopping = false ∧ s.executor.queue = []) := by
    rw [hstop]
    simp
  obtain ⟨s', hstep⟩ := Executor.exists_take hv hpred
  have hnone := hset (.wait v) rfl
  simp only [step] at hnone
  rw [if_neg (by simp [hasleep, hnot, hv]), if_neg hpred] at hnone
  exact absurd (hnone.symm.trans (quietStep_eq.2 ⟨s', hstep, rfl⟩)) (by simp)

/-- **Where nobody can move, the destructor is through.** -/
theorem destroyed_of_settled {s : LiveExecutor} (h : Closing s) (hset : Settled step Action.own s) :
    Destroyed s ∧ ∀ w ∈ s.executor.workers, w = .exited := by
  -- the destructor has notified
  have hjoining : ∃ w, s.teardown = .joining w := by
    cases ht : s.teardown with
    | alive => exact absurd ht h.down
    | notifying =>
      have hnone := hset .notifyStop rfl
      simp [step, ht] at hnone
    | joining w => exact ⟨w, rfl⟩
  obtain ⟨w, ht⟩ := hjoining
  obtain ⟨hasleep, hle⟩ := h.tended.joining w ht
  have hnot : ∀ v, v ∉ s.notifying := by
    intro v hv
    have hnone := hset (.notify v) rfl
    simp [step, hv] at hnone
  -- every worker has left
  have hexit : ∀ (v : Nat) (x : WorkerPhase), s.executor.workers[v]? = some x → x = .exited := by
    intro v x hv
    cases x with
    | exited => rfl
    | waiting => exact absurd hv (not_waiting_of_settled hset h.stopping hasleep (hnot v))
    | _ => exact absurd rfl (not_held_of_settled hset hv)
  refine ⟨?_, ?_⟩
  · have hlt : ¬ w < s.executor.workers.length := by
      intro hlt
      have hw := List.getElem?_eq_getElem hlt
      have hnone := hset .join rfl
      simp [step, ht, hw, hexit w _ hw] at hnone
    show s.teardown = .joining s.executor.workers.length
    rw [ht, Nat.le_antisymm hle (Nat.le_of_not_lt hlt)]
  · intro x hx
    obtain ⟨v, hv⟩ := List.getElem?_of_mem hx
    exact hexit v x hv

theorem run_books {concurrencyLimit maxQueueDepth : UInt64} {cost : Int} {s₀ : Executor} {s : LiveExecutor}
    {as : List Action} (hmake : Executor.make concurrencyLimit maxQueueDepth cost = .ok s₀)
    (hrun : run step (start s₀) as = some s) : Executor.Books s.executor ∧ Executor.Ledger s.executor ∧
      s.executor.concurrency = s₀.concurrency ∧ s.executor.capacity = s₀.capacity := by
  obtain ⟨bs, hbs⟩ := run_executor hrun
  obtain ⟨hb, hl⟩ := Executor.run_ledger hmake hbs
  exact ⟨hb, hl, Executor.run_limits hbs⟩

theorem drained {concurrencyLimit maxQueueDepth : UInt64} {cost : Int} {s₀ : Executor} {s : LiveExecutor}
    {as : List Action} (hmake : Executor.make concurrencyLimit maxQueueDepth cost = .ok s₀)
    (hrun : run step (start s₀) as = some s) (hexit : ∀ w ∈ s.executor.workers, w = .exited) :
    s.executor.queue = [] ∧ s.executor.runningRequests = ∅ ∧ ∀ ticket r, .accepted ticket r ∈ s.executor.history →
      (s.executor.history.count (.delivered ticket) = 1 ∧ .discarded ticket ∉ s.executor.history) ∨
      (s.executor.history.count (.discarded ticket) = 1 ∧ .delivered ticket ∉ s.executor.history ∧
        Executor.CancelledAfter s.executor.history ticket) := by
  obtain ⟨hb, hl, hconc, -⟩ := run_books hmake hrun
  have hheld : s.executor.heldTasks = [] := by
    apply List.filterMap_eq_nil_iff.2
    intro w hw
    rw [hexit w hw]
    rfl
  have hopen : s.executor.workerTickets = [] := by
    rw [Executor.workerTickets, List.filterMap_eq_nil_iff.2 (fun w hw => by rw [hexit w hw]; rfl)]
    rfl
  have hqueue : s.executor.queue = [] := by
    have hpos : 0 < s.executor.workers.length := by
      rw [hb.workers, hconc]
      exact (Executor.make_ok hmake).1
    obtain ⟨w, hw⟩ := List.exists_mem_of_length_pos hpos
    exact (hl.exits (hexit w hw ▸ hw)).2
  refine ⟨hqueue, ?_, ?_⟩
  · apply Finset.eq_empty_of_forall_notMem
    intro r hr
    rw [hb.running, Executor.heldIds, hheld] at hr
    cases hr
  · intro ticket r hacc
    have hfate := hl.fate_one hacc
    rw [hopen, Executor.queuedTickets, hqueue] at hfate
    simp only [List.map_nil, List.count_nil, Nat.zero_add] at hfate
    by_cases hd : .discarded ticket ∈ s.executor.history
    · have hpos := List.count_pos_iff.2 hd
      exact .inr ⟨by omega, List.count_eq_zero.1 (by omega), hl.discarded ticket hd⟩
    · have hzero := List.count_eq_zero.2 hd
      exact .inl ⟨by omega, hd⟩

/-- **The destructor returns.**  Once it has set `stopping`, whatever calls come in and however the threads are
scheduled, the workers and the destructor make at most a fixed number of steps; where none of them can move, every
worker has left, the destructor is past its last `join`, the queue is empty, and every task that was ever accepted was
delivered once, or was cancelled and dropped.  Such a state can be reached from every state on the way. -/
theorem destructor_returns (concurrencyLimit maxQueueDepth : UInt64) (cost : Int) (s₀ : Executor) (s : LiveExecutor)
    (as : List Action) (hmake : Executor.make concurrencyLimit maxQueueDepth cost = .ok s₀)
    (hrun : run step (start s₀) as = some s) (hdown : s.teardown ≠ .alive) :
    (∀ bs t, run step s bs = some t → bs.countP Action.own ≤ 6 * s₀.capacity + 3 * s₀.concurrency + 1) ∧
    (∃ bs t, (∀ b ∈ bs, b.own = true) ∧ run step s bs = some t ∧ Settled step Action.own t) ∧
    ∀ bs t, run step s bs = some t → Settled step Action.own t →
      Destroyed t ∧ (∀ w ∈ t.executor.workers, w = .exited) ∧ t.executor.queue = [] ∧ t.executor.runningRequests = ∅ ∧
      ∀ ticket r, .accepted ticket r ∈ t.executor.history →
        (t.executor.history.count (.delivered ticket) = 1 ∧ .discarded ticket ∉ t.executor.history) ∨
        (t.executor.history.count (.discarded ticket) = 1 ∧ .delivered ticket ∉ t.executor.history ∧
          Executor.CancelledAfter t.executor.history ticket) := by
  have ht := run_tended hmake hrun
  have hclosing : Closing s := ⟨ht, ht.stopping.2 hdown⟩
  refine ⟨?_, ?_, ?_⟩
  · intro bs t hbs
    obtain ⟨hb, -, hconc, hcap⟩ := run_books hmake hrun
    have hcost := run_cost step_closing step_rank bs s t (fun _ _ => trivial) hclosing hbs
    have hbound := rank_le ht hb hdown
    rw [sum_indicator, Nat.one_mul] at hcost
    have hzero : (bs.map (fun _ : Action => 0)).sum = 0 := by simp
    rw [hzero] at hcost
    rw [hconc, hcap] at hbound
    omega
  · obtain ⟨bs, t, hown, hbs, -, hset⟩ := exists_settled Action.own step_closing (fun s a s' h ha hs => by
      have hrank := step_rank s a s' h trivial hs
      rw [if_pos ha] at hrank
      exact hrank) (rank s) s rfl hclosing
    exact ⟨bs, t, hown, hbs, hset⟩
  · intro bs t hbs hset
    obtain ⟨hdone, hexit⟩ := destroyed_of_settled (run_inv step_closing bs s t hclosing hbs) hset
    have hwhole : run step (start s₀) (as ++ bs) = some t := (run_append as bs _ t).2 ⟨s, hrun, hbs⟩
    exact ⟨hdone, hexit, drained hmake hwhole hexit⟩

/-- The destructor begins while one worker executes and a second task is queued. -/
theorem destructor_returns_wokenRun : ∃ s₀ s, Executor.make 2 1 5 = .ok s₀ ∧
    run step (start s₀) (wokenRun ++ [.stop]) = some s ∧ s.executor.queuedIds = [8] ∧
    (∀ bs t, run step s bs = some t → bs.countP Action.own ≤ 6 * s₀.capacity + 3 * s₀.concurrency + 1) ∧
    (∃ bs t, (∀ b ∈ bs, b.own = true) ∧ run step s bs = some t ∧ Settled step Action.own t) ∧
    ∀ bs t, run step s bs = some t → Settled step Action.own t →
      Destroyed t ∧ (∀ w ∈ t.executor.workers, w = .exited) ∧ t.executor.queue = [] ∧ t.executor.runningRequests = ∅ ∧
      ∀ ticket r, .accepted ticket r ∈ t.executor.history →
        (t.executor.history.count (.delivered ticket) = 1 ∧ .discarded ticket ∉ t.executor.history) ∨
        (t.executor.history.count (.discarded ticket) = 1 ∧ .delivered ticket ∉ t.executor.history ∧
          Executor.CancelledAfter t.executor.history ticket) := by
  obtain ⟨s₀, s, hmake, hrun, hs⟩ := Executor.exists_run step start 2 1 5 (wokenRun ++ [.stop])
    (fun _ s => s.executor.queuedIds = [8] ∧ s.teardown = .notifying) (by decide +kernel)
  obtain ⟨hq, hdown⟩ := of_decide_eq_true hs
  exact ⟨s₀, s, hmake, hrun, hq,
    destructor_returns 2 1 5 s₀ s (wokenRun ++ [.stop]) hmake hrun (by rw [hdown]; simp)⟩

end LiveExecutor

end CodedLLM
