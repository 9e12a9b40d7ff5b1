import CodedLLM.ExecutorRuns
/-!
# ExecutorLedger — what becomes of accepted tasks

Every accepted task is queued, with one worker, delivered or discarded, and never two of these.  Tasks start in the
order in which they were accepted.  A cancelled task is not delivered, unless its worker had already read that it was
not cancelled: between that read and the end of the round `Cancel` still answers `true`.
-/
namespace CodedLLM

open Runs

def WorkerPhase.undelivered : WorkerPhase → Option ExecutorTask
  | .executing task => some task
  | .executed task _ => some task
  | .delivering task _ => some task
  | _ => none

/-- The task of a worker that has read that it is not cancelled and has not ended its round. -/
def WorkerPhase.passedCheck : WorkerPhase → Option ExecutorTask
  | .delivering task _ => some task
  | .finishing task false => some task
  | _ => none

theorem WorkerPhase.held_of_undelivered {w : WorkerPhase} {task : ExecutorTask} (h : w.undelivered = some task) :
    w.held = some task := by
  cases w <;> first | exact h | cases h

theorem WorkerPhase.held_of_passedCheck {w : WorkerPhase} {task : ExecutorTask} (h : w.passedCheck = some task) :
    w.held = some task := by
  cases w with
  | delivering x result => exact h
  | finishing x cancelled =>
    cases cancelled with
    | false => exact h
    | true => cases h
  | _ => cases h

namespace Executor

def Event.acceptedTicket : Event → Option Nat
  | .accepted ticket _ => some ticket
  | _ => none

def Event.startedTicket : Event → Option Nat
  | .started ticket => some ticket
  | _ => none

def Event.settledTicket : Event → Option Nat
  | .delivered ticket => some ticket
  | .discarded ticket => some ticket
  | _ => none

theorem count_settled (t : Nat) : ∀ (history : List Event),
    (history.filterMap Event.settledTicket).count t = history.count (.delivered t) + history.count (.discarded t)
  | [] => rfl
  | e :: history => by
    have ih := count_settled t history
    cases e <;> simp [Event.settledTicket, List.filterMap_cons, List.count_cons, ih] <;> omega

def CancelledAfter (history : List Event) (ticket : Nat) : Prop :=
  ∃ requestId pre post, history = pre ++ .accepted ticket requestId :: post ∧ .cancelCalled requestId ∈ post

theorem CancelledAfter.append {history : List Event} {ticket : Nat} (h : CancelledAfter history ticket)
    (more : List Event) : CancelledAfter (history ++ more) ticket := by
  obtain ⟨requestId, pre, post, rfl, hc⟩ := h
  exact ⟨requestId, pre, post ++ more, by simp, List.mem_append_left _ hc⟩

theorem cancelledAfter_of_accepted {history : List Event} {ticket requestId : Nat}
    (h : .accepted ticket requestId ∈ history) {more : List Event} (hc : .cancelCalled requestId ∈ more) :
    CancelledAfter (history ++ more) ticket := by
  obtain ⟨pre, post, rfl⟩ := List.append_of_mem h
  exact ⟨requestId, pre, post ++ more, by simp, List.mem_append_right _ hc⟩

def workerTickets (s : Executor) : List Nat :=
  (s.workers.filterMap WorkerPhase.undelivered).map ExecutorTask.ticket

def queuedTickets (s : Executor) : List Nat := s.queue.map ExecutorTask.ticket

/-- **What the history and the containers say of the accepted tasks.** -/
structure Ledger (s : Executor) : Prop where
  accepted : s.history.filterMap Event.acceptedTicket = List.range s.tickets
  fate : ∀ t, s.queuedTickets.count t + s.workerTickets.count t + (s.history.filterMap Event.settledTicket).count t =
    (List.range s.tickets).count t
  named : ∀ task ∈ s.queue ++ s.heldTasks, .accepted task.ticket task.requestId ∈ s.history
  flagged : ∀ w ∈ s.workers, ∀ task, w.undelivered = some task → task.requestId ∈ s.cancelledRequests →
    CancelledAfter s.history task.ticket
  discarded : ∀ t, .discarded t ∈ s.history → CancelledAfter s.history t
  order : (s.history.filterMap Event.startedTicket ++ s.queuedTickets).Sublist (List.range s.tickets)
  exits : .exited ∈ s.workers → s.stopping = true ∧ s.queue = []

theorem Ledger.make {concurrencyLimit maxQueueDepth : UInt64} {cost : Int} {s : Executor}
    (h : make concurrencyLimit maxQueueDepth cost = .ok s) : Ledger s := by
  obtain ⟨-, -, -, heq⟩ := make_ok h
  have hw : ∀ w ∈ s.workers, w = .waiting := by
    rw [heq]
    exact fun w hw => List.eq_of_mem_replicate hw
  have hheld : s.heldTasks = [] := List.filterMap_eq_nil_iff.2 (fun w h => by rw [hw w h]; rfl)
  have hopen : s.workerTickets = [] := by
    rw [workerTickets, List.filterMap_eq_nil_iff.2 (fun w h => by rw [hw w h]; rfl)]
    rfl
  have hfields : s.queue = [] ∧ s.history = [] ∧ s.tickets = 0 := by
    rw [heq]
    exact ⟨rfl, rfl, rfl⟩
  obtain ⟨hq, hh, ht⟩ := hfields
  refine ⟨by rw [hh, ht]; rfl, fun t => ?_, fun task hm => ?_, fun w hm task hu => ?_, fun t hm => ?_, ?_, fun hm => ?_⟩
  · rw [hopen, queuedTickets, hq, hh, ht]
    rfl
  · rw [hheld, hq] at hm
    cases hm
  · rw [hw w hm] at hu
    cases hu
  · rw [hh] at hm
    cases hm
  · rw [queuedTickets, hq, hh]
    exact List.nil_sublist _
  · cases hw _ hm

theorem count_workerTickets {s : Executor} {pre post : List WorkerPhase} {w : WorkerPhase}
    (h : s.workers = pre ++ w :: post) (t : Nat) :
    s.workerTickets.count t = ((pre ++ post).filterMap WorkerPhase.undelivered |>.map ExecutorTask.ticket).count t +
      (w.undelivered.toList.map ExecutorTask.ticket).count t := by
  rw [workerTickets, h, List.filterMap_append, List.filterMap_cons, List.filterMap_append]
  cases w.undelivered <;> simp [List.count_append, List.count_cons]
  omega

theorem Ledger.of_same {s s' : Executor} (h : Ledger s) (htickets : s'.tickets = s.tickets)
    (hqueue : s'.queue = s.queue)
    (hworkers : s'.workers = s.workers) (more : List Event) (hhistory : s'.history = s.history ++ more)
    (hquiet : more.filterMap Event.acceptedTicket = [] ∧ more.filterMap Event.startedTicket = [] ∧
      more.filterMap Event.settledTicket = [])
    (hflag : ∀ r ∈ s'.cancelledRequests, r ∈ s.cancelledRequests ∨ .cancelCalled r ∈ more)
    (hstop : s.stopping = true → s'.stopping = true) : Ledger s' := by
  obtain ⟨hacc, hstart, hset⟩ := hquiet
  have hheld : s'.heldTasks = s.heldTasks := by rw [heldTasks, heldTasks, hworkers]
  refine ⟨?_, fun t => ?_, fun task hm => ?_, fun w hw task hu hc => ?_, fun t hm => ?_, ?_, fun hm => ?_⟩
  · rw [hhistory, List.filterMap_append, hacc, List.append_nil, htickets, h.accepted]
  · rw [queuedTickets, workerTickets, hqueue, hworkers, hhistory, List.filterMap_append, hset, List.append_nil,
      htickets]
    exact h.fate t
  · rw [hqueue, hheld] at hm
    rw [hhistory]
    exact List.mem_append_left _ (h.named task hm)
  · rw [hworkers] at hw
    rw [hhistory]
    rcases hflag _ hc with hc | hc
    · exact (h.flagged w hw task hu hc).append more
    · refine cancelledAfter_of_accepted (h.named task (List.mem_append_right _ ?_)) hc
      exact List.mem_filterMap.2 ⟨w, hw, w.held_of_undelivered hu⟩
  · rw [hhistory] at hm ⊢
    rcases List.mem_append.1 hm with hm | hm
    · exact (h.discarded t hm).append more
    · have := List.mem_filterMap.2 ⟨_, hm, (rfl : Event.settledTicket (.discarded t) = some t)⟩
      rw [hset] at this
      cases this
  · rw [queuedTickets, hqueue, hhistory, List.filterMap_append, hstart, List.append_nil, htickets]
    exact h.order
  · rw [hworkers] at hm
    rw [hqueue]
    exact ⟨hstop (h.exits hm).1, (h.exits hm).2⟩

/-- **One worker moves on** while the queue stays as it is. -/
theorem Ledger.moved {s s' : Executor} (h : Ledger s) {pre post : List WorkerPhase} {w w' : WorkerPhase}
    (hw : s.workers = pre ++ w :: post) (hw' : s'.workers = pre ++ w' :: post) (htickets : s'.tickets = s.tickets)
    (hqueue : s'.queue = s.queue) (hstop : s'.stopping = s.stopping)
    (hcancel : s'.cancelledRequests ⊆ s.cancelledRequests) (more : List Event)
    (hhistory : s'.history = s.history ++ more)
    (hquiet : more.filterMap Event.acceptedTicket = [] ∧ more.filterMap Event.startedTicket = [])
    (hsettle :
      ∀ t, (w'.undelivered.toList.map ExecutorTask.ticket).count t + (more.filterMap Event.settledTicket).count t =
      (w.undelivered.toList.map ExecutorTask.ticket).count t)
    (hheld : ∀ task', w'.held = some task' →
      ∃ task, w.held = some task ∧ task.ticket = task'.ticket ∧ task.requestId = task'.requestId)
    (hopen : ∀ task', w'.undelivered = some task' →
      ∃ task, w.undelivered = some task ∧ task.ticket = task'.ticket ∧ task.requestId = task'.requestId)
    (hdrop : ∀ t, .discarded t ∈ more → CancelledAfter s.history t)
    (hexit : w' = .exited → s.stopping = true ∧ s.queue = []) : Ledger s' := by
  obtain ⟨hacc, hstart⟩ := hquiet
  have hold : ∀ u ∈ pre ++ w :: post, u ∈ s.workers := fun u hu => hw ▸ hu
  have hmem : w ∈ s.workers := hold w (by simp)
  refine ⟨?_, fun t => ?_, fun task hm => ?_, ?_, fun t hm => ?_, ?_, ?_⟩
  · rw [hhistory, List.filterMap_append, hacc, List.append_nil, htickets, h.accepted]
  · have hfate := h.fate t
    rw [count_workerTickets hw] at hfate
    have hnow : (s'.history.filterMap Event.settledTicket).count t =
        (s.history.filterMap Event.settledTicket).count t + (more.filterMap Event.settledTicket).count t := by
      rw [hhistory, List.filterMap_append, List.count_append]
    rw [count_workerTickets hw', queuedTickets, hqueue, htickets, hnow, ← hfate, queuedTickets, ← hsettle t]
    omega
  · rw [hhistory]
    refine List.mem_append_left _ ?_
    rcases List.mem_append.1 hm with hm | hm
    · exact h.named task (List.mem_append_left _ (hqueue ▸ hm))
    obtain ⟨u, hu, hut⟩ := List.mem_filterMap.1 hm
    rw [hw'] at hu
    have hnamed : ∀ u ∈ pre ++ w' :: post, ∀ x, u.held = some x → .accepted x.ticket x.requestId ∈ s.history := by
      refine forall_mem_replace (a := w) (fun u hu x hx => ?_) (fun x hx => ?_)
      · exact h.named x (List.mem_append_right _ (List.mem_filterMap.2 ⟨u, hold u hu, hx⟩))
      · obtain ⟨x', hx', ht, hr⟩ := hheld x hx
        rw [← ht, ← hr]
        exact h.named x' (List.mem_append_right _ (List.mem_filterMap.2 ⟨w, hmem, hx'⟩))
    exact hnamed u hu task hut
  · rw [hw', hhistory]
    refine forall_mem_replace (a := w) (fun u hu x hx hc => ?_) (fun x hx hc => ?_)
    · exact (h.flagged u (hold u hu) x hx (hcancel hc)).append more
    · obtain ⟨x', hx', ht, hr⟩ := hopen x hx
      rw [← ht]
      exact (h.flagged w hmem x' hx' (hcancel (hr ▸ hc))).append more
  · rw [hhistory] at hm ⊢
    rcases List.mem_append.1 hm with hm | hm
    · exact (h.discarded t hm).append more
    · exact (hdrop t hm).append more
  · rw [queuedTickets, hqueue, hhistory, List.filterMap_append, hstart, List.append_nil, htickets]
    exact h.order
  · intro hm
    rw [hqueue, hstop]
    rw [hw', List.mem_append, List.mem_cons] at hm
    rcases hm with hm | hm | hm
    · exact h.exits (hold _ (by simp [hm]))
    · exact hexit hm.symm
    · exact h.exits (hold _ (by simp [hm]))

theorem Ledger.accept {s : Executor} (h : Ledger s) (hopen : s.stopping = false) {requestId : Nat} {task : ExecutorTask}
    (hticket : task.ticket = s.tickets) : Ledger ((s.setStaged requestId none).enqueue task) := by
  refine ⟨?_, fun t => ?_, fun x hm => ?_, fun w hw x hu hc => ?_, fun t hm => ?_, ?_, fun hm => ?_⟩
  · show (s.history ++ [Event.accepted task.ticket task.requestId]).filterMap Event.acceptedTicket = _
    rw [List.filterMap_append, h.accepted, hticket]
    exact List.range_succ.symm
  · have hfate := h.fate t
    show ((s.queue ++ [task]).map ExecutorTask.ticket).count t + s.workerTickets.count t +
      ((s.history ++ [Event.accepted task.ticket task.requestId]).filterMap Event.settledTicket).count t =
        (List.range (s.tickets + 1)).count t
    rw [List.range_succ, List.count_append, ← hfate, List.map_append, List.count_append, List.filterMap_append,
      List.count_append, ← hticket]
    simp only [queuedTickets, List.map_cons, List.map_nil, List.filterMap_cons, Event.settledTicket, List.filterMap_nil,
      List.count_nil]
    omega
  · rcases List.mem_append.1 hm with hm | hm
    · rcases List.mem_append.1 hm with hm | hm
      · exact List.mem_append_left _ (h.named x (List.mem_append_left _ hm))
      · obtain rfl := List.mem_singleton.1 hm
        exact List.mem_append_right _ (List.mem_singleton.2 rfl)
    · exact List.mem_append_left _ (h.named x (List.mem_append_right _ hm))
  · exact (h.flagged w hw x hu hc).append _
  · rcases List.mem_append.1 hm with hm | hm
    · exact (h.discarded t hm).append _
    · cases List.mem_singleton.1 hm
  · show ((s.history ++ [Event.accepted task.ticket task.requestId]).filterMap Event.startedTicket ++
      (s.queue ++ [task]).map ExecutorTask.ticket).Sublist (List.range (s.tickets + 1))
    rw [List.filterMap_append, List.map_append, List.range_succ, ← hticket]
    simp only [List.filterMap_cons, Event.startedTicket, List.filterMap_nil, List.append_nil, ← List.append_assoc]
    exact (hticket ▸ h.order).append (.refl _)
  · rw [(h.exits hm).1] at hopen
    cases hopen

theorem Ledger.unqueue {s : Executor} (h : Ledger s) {requestId : Nat} {task : ExecutorTask}
    {pre post : List ExecutorTask} (hqueue : s.queue = pre ++ task :: post) (hid : task.requestId = requestId) :
    Ledger { s.setStaged requestId none with
      queue := pre ++ post, history := s.history ++ [.cancelCalled requestId, .discarded task.ticket] } := by
  have hsub : (pre ++ post).Sublist s.queue := by
    rw [hqueue]
    exact sublist_without pre post task
  have htask : .accepted task.ticket requestId ∈ s.history :=
    hid ▸ h.named task (List.mem_append_left _ (by rw [hqueue]; simp))
  refine ⟨?_, fun t => ?_, fun x hm => ?_, fun w hw x hu hc => ?_, fun t hm => ?_, ?_, fun hm => ?_⟩
  · simp only [List.filterMap_append, List.filterMap_cons, Event.acceptedTicket, List.filterMap_nil, List.append_nil]
    exact h.accepted
  · have hfate := h.fate t
    rw [queuedTickets, hqueue] at hfate
    show ((pre ++ post).map ExecutorTask.ticket).count t + s.workerTickets.count t + _ = (List.range s.tickets).count t
    rw [← hfate]
    simp only [List.map_append, List.map_cons, List.count_append, List.filterMap_append, List.filterMap_cons,
      Event.settledTicket, List.filterMap_nil, List.count_cons, List.count_nil]
    omega
  · refine List.mem_append_left _ (h.named x ?_)
    rcases List.mem_append.1 hm with hm | hm
    · exact List.mem_append_left _ (hsub.subset hm)
    · exact List.mem_append_right _ hm
  · exact (h.flagged w hw x hu hc).append _
  · rcases List.mem_append.1 hm with hm | hm
    · exact (h.discarded t hm).append _
    · obtain rfl : t = task.ticket := by simpa using hm
      exact cancelledAfter_of_accepted htask (by simp)
  · simp only [List.filterMap_append, List.filterMap_cons, Event.startedTicket, List.filterMap_nil, List.append_nil]
    exact ((List.Sublist.refl _).append (hsub.map _)).trans h.order
  · obtain ⟨hstop, hempty⟩ := h.exits hm
    rw [hqueue] at hempty
    simp at hempty

theorem Ledger.take {s : Executor} (h : Ledger s) (hb : Books s) {pre post : List WorkerPhase}
    (hw : s.workers = pre ++ .waiting :: post) {task : ExecutorTask} {rest : List ExecutorTask}
    (hqueue : s.queue = task :: rest) :
    Ledger { s with
      queue := rest, runningRequests := insert task.requestId s.runningRequests
      workers := pre ++ .executing task :: post, history := s.history ++ [.started task.ticket] } := by
  have hold : ∀ u ∈ pre ++ .waiting :: post, u ∈ s.workers := fun u hu => hw ▸ hu
  have htask : task ∈ s.queue := by
    rw [hqueue]
    exact List.mem_cons_self
  refine ⟨?_, fun t => ?_, fun x hm => ?_, ?_, fun t hm => ?_, ?_, fun hm => ?_⟩
  · simp only [List.filterMap_append, List.filterMap_cons, Event.acceptedTicket, List.filterMap_nil, List.append_nil]
    exact h.accepted
  · have hfate := h.fate t
    rw [count_workerTickets hw, queuedTickets, hqueue] at hfate
    rw [count_workerTickets rfl, queuedTickets, ← hfate]
    simp only [WorkerPhase.undelivered, Option.toList, List.map_cons, List.map_nil, List.count_cons, List.count_nil,
      List.filterMap_append, List.filterMap_cons, Event.settledTicket, List.filterMap_nil, List.append_nil]
    omega
  · refine List.mem_append_left _ ?_
    rcases List.mem_append.1 hm with hm | hm
    · exact h.named x (List.mem_append_left _ (by rw [hqueue]; exact List.mem_cons_of_mem _ hm))
    obtain ⟨u, hu, hut⟩ := List.mem_filterMap.1 hm
    have hnamed : ∀ u ∈ pre ++ .executing task :: post, ∀ x, u.held = some x →
        .accepted x.ticket x.requestId ∈ s.history := by
      refine forall_mem_replace (a := .waiting) (fun u hu x hx => ?_) (fun x hx => ?_)
      · exact h.named x (List.mem_append_right _ (List.mem_filterMap.2 ⟨u, hold u hu, hx⟩))
      · obtain rfl := Option.some.inj hx
        exact h.named task (List.mem_append_left _ htask)
    exact hnamed u hu x hut
  · refine forall_mem_replace (a := .waiting) (fun u hu x hx hc => ?_) (fun x hx hc => ?_)
    · exact (h.flagged u (hold u hu) x hx hc).append _
    · -- a queued request is not running, so it is not flagged
      obtain rfl := Option.some.inj hx
      have hheld := (hb.running _).1 (hb.cancelled hc)
      exact absurd rfl ((List.nodup_append.1 hb.nodup).2.2 _ (List.mem_map_of_mem htask) _ hheld)
  · rcases List.mem_append.1 hm with hm | hm
    · exact (h.discarded t hm).append _
    · cases List.mem_singleton.1 hm
  · have horder := h.order
    rw [queuedTickets, hqueue] at horder
    simp only [List.filterMap_append, List.filterMap_cons, Event.startedTicket, List.filterMap_nil, List.append_assoc]
    exact horder
  · simp only [List.mem_append, List.mem_cons, reduceCtorEq, false_or] at hm
    have hexited : .exited ∈ s.workers := hold _ (by simpa using hm)
    have hempty := (h.exits hexited).2
    rw [hqueue] at hempty
    cases hempty

theorem step_ledger {s s' : Executor} {a : Action} (h : Ledger s) (hb : Books s) (hs : step s a = some s') :
    Ledger s' := by
  cases step_cases hs with
  | staged a requestId context ha hctx =>
    exact h.of_same rfl rfl rfl [] (List.append_nil _).symm ⟨rfl, rfl, rfl⟩ (fun _ hr => .inl hr) id
  | accepted env requestId plan shards context hopen hroom hrun hqueue hcontext => exact h.accept hopen rfl
  | unqueued requestId task pre post hqueue hid => exact h.unqueue hqueue hid
  | flagged requestId hqueue hrun =>
    refine h.of_same rfl rfl rfl [_] rfl ⟨rfl, rfl, rfl⟩ (fun r hr => ?_) id
    rcases Finset.mem_insert.1 hr with rfl | hr
    · exact .inr (List.mem_singleton.2 rfl)
    · exact .inl hr
  | ignored requestId hqueue hrun => exact h.of_same rfl rfl rfl [_] rfl ⟨rfl, rfl, rfl⟩ (fun _ hr => .inl hr) id
  | stopped =>
    exact h.of_same rfl rfl rfl [] (List.append_nil _).symm ⟨rfl, rfl, rfl⟩ (fun _ hr => .inl hr) (fun _ => rfl)
  | exited worker pre post hw hstop hqueue =>
    exact h.moved hw rfl rfl rfl rfl subset_rfl [] (List.append_nil _).symm ⟨rfl, rfl⟩ (fun _ => rfl)
      (fun _ hx => by cases hx) (fun _ hx => by cases hx) (fun _ hm => by cases hm) (fun _ => ⟨hstop, hqueue⟩)
  | taken worker pre post hw task rest hqueue => exact h.take hb hw hqueue
  | executed worker env pre post task hw =>
    have hsame : ∀ task', some (executeTask env task).1 = some task' →
        ∃ x, some task = some x ∧ x.ticket = task'.ticket ∧ x.requestId = task'.requestId := by
      intro task' hx
      rw [← Option.some.inj hx]
      exact ⟨task, rfl, (executeTask_ticket env task).symm, (executeTask_requestId env task).symm⟩
    exact h.moved hw rfl rfl rfl rfl subset_rfl [] (List.append_nil _).symm ⟨rfl, rfl⟩
      (fun t => by simp [WorkerPhase.undelivered]) hsame hsame (fun _ hm => by cases hm) (fun hx => by cases hx)
  | foundCancelled worker pre post task result hw hc =>
    have hafter : CancelledAfter s.history task.ticket :=
      h.flagged (.executed task result) (by rw [hw]; simp) task rfl hc
    refine h.moved hw rfl rfl rfl rfl subset_rfl [_] rfl ⟨rfl, rfl⟩ (fun t => ?_) (fun x hx => ⟨x, hx, rfl, rfl⟩)
      (fun _ hx => by cases hx) (fun t hm => ?_) (fun hx => by cases hx)
    · simp [WorkerPhase.undelivered, Event.settledTicket]
    · cases List.mem_singleton.1 hm
      exact hafter
  | foundClear worker pre post task result hw hc =>
    exact h.moved hw rfl rfl rfl rfl subset_rfl [] (List.append_nil _).symm ⟨rfl, rfl⟩ (fun _ => rfl)
      (fun x hx => ⟨x, hx, rfl, rfl⟩) (fun x hx => ⟨x, hx, rfl, rfl⟩) (fun _ hm => by cases hm) (fun hx => by cases hx)
  | delivered worker pre post task result hw =>
    refine h.moved hw rfl rfl rfl rfl subset_rfl [_] rfl ⟨rfl, rfl⟩ (fun t => ?_) (fun x hx => ⟨x, hx, rfl, rfl⟩)
      (fun _ hx => by cases hx) (fun t hm => ?_) (fun hx => by cases hx)
    · simp [WorkerPhase.undelivered, Event.settledTicket]
    · cases List.mem_singleton.1 hm
  | erased worker pre post task cancelled hw =>
    exact h.moved hw rfl rfl rfl rfl (Finset.erase_subset _ _) [] (List.append_nil _).symm ⟨rfl, rfl⟩
      (fun _ => rfl) (fun _ hx => by cases hx) (fun _ hx => by cases hx) (fun _ hm => by cases hm)
        (fun hx => by cases hx)

theorem run_ledger {concurrencyLimit maxQueueDepth : UInt64} {cost : Int} {s₀ s : Executor} {as : List Action}
    (hmake : make concurrencyLimit maxQueueDepth cost = .ok s₀) (hrun : run step s₀ as = some s) : Books s ∧ Ledger s :=
  run_inv (I := fun s => Books s ∧ Ledger s) (fun s a s' h hs => ⟨step_books s a s' h.1 hs, step_ledger h.2 h.1 hs⟩)
    as s₀ s ⟨.make hmake, .make hmake⟩ hrun

theorem submit_history (s : Executor) (env : SubmitEnv) (requestId : Nat) (plan : DecodePlan) (shards : ShardSlots)
    (completion : Bool) :
    (s.submit env requestId plan shards completion).1.history =
      if (s.submit env requestId plan shards completion).2 = .ok true then s.history ++ [.accepted s.tickets requestId]
      else s.history := by
  unfold submit
  split
  · rfl
  split
  · rfl
  cases s.stagedContexts requestId with
  | some staged =>
    simp only
    split <;> rfl
  | none => cases stagePresent env shards <;> rfl

/-- A ticket belongs to one request. -/
theorem accepted_request {s : Executor} (h : Ledger s) {t r r' : Nat} (hm : .accepted t r ∈ s.history)
    (hm' : .accepted t r' ∈ s.history) : r = r' := by
  have hnodup : (s.history.filterMap Event.acceptedTicket).Nodup := by
    rw [h.accepted]
    exact List.nodup_range
  obtain ⟨pre, post, hsplit⟩ := List.append_of_mem hm
  rw [hsplit, List.filterMap_append, List.filterMap_cons] at hnodup
  obtain ⟨hpost, -⟩ := List.nodup_cons.1 (List.nodup_middle.1 hnodup)
  rw [List.mem_append, not_or] at hpost
  rw [hsplit, List.mem_append, List.mem_cons] at hm'
  rcases hm' with hm' | hm' | hm'
  · exact (hpost.1 (List.mem_filterMap.2 ⟨.accepted t r', hm', rfl⟩)).elim
  · exact (Event.accepted.inj hm').2.symm
  · exact (hpost.2 (List.mem_filterMap.2 ⟨.accepted t r', hm', rfl⟩)).elim

theorem accepted_once {s : Executor} (h : Ledger s) {t r : Nat} (hm : .accepted t r ∈ s.history) :
    (List.range s.tickets).count t = 1 := by
  refine List.count_eq_one_of_mem List.nodup_range ?_
  rw [← h.accepted]
  exact List.mem_filterMap.2 ⟨_, hm, rfl⟩

/-- **No accepted task is lost or delivered twice.**  At every moment of every run each accepted task is in exactly one
place: in the queue, with one worker, delivered once or discarded; the last only after a `Cancel` of its request that
followed its acceptance.  Tasks start in the order in which they were accepted, and workers leave an empty queue. -/
theorem tasks_accounted (concurrencyLimit maxQueueDepth : UInt64) (cost : Int) (s₀ s : Executor) (as : List Action)
    (hmake : make concurrencyLimit maxQueueDepth cost = .ok s₀) (hrun : run step s₀ as = some s) :
    (∀ env requestId plan shards completion, (s.submit env requestId plan shards completion).1.history =
      if (s.submit env requestId plan shards completion).2 = .ok true then s.history ++ [.accepted s.tickets requestId]
      else s.history) ∧
    s.history.filterMap Event.acceptedTicket = List.range s.tickets ∧
    (∀ task ∈ s.queue ++ s.heldTasks, .accepted task.ticket task.requestId ∈ s.history) ∧
    (∀ t r, .accepted t r ∈ s.history →
      s.queue.countP (fun task => task.ticket = t) +
        s.workers.countP (fun w => w.undelivered.any (fun task => task.ticket = t)) +
        s.history.count (.delivered t) + s.history.count (.discarded t) = 1 ∧
      (.discarded t ∈ s.history →
        ∃ pre post, s.history = pre ++ .accepted t r :: post ∧ .cancelCalled r ∈ post)) ∧
    (s.history.filterMap Event.startedTicket).Sublist (s.history.filterMap Event.acceptedTicket) ∧
    ((∀ w ∈ s.workers, w = .exited) → s.queue = []) := by
  obtain ⟨hb, h⟩ := run_ledger hmake hrun
  refine ⟨s.submit_history, h.accepted, h.named, fun t r hm => ⟨?_, fun hd => ?_⟩, ?_, fun hall => ?_⟩
  · have hfate := h.fate t
    rw [accepted_once h hm, count_settled] at hfate
    have hq : s.queue.countP (fun task => task.ticket = t) = s.queuedTickets.count t := by
      rw [queuedTickets, List.count, List.countP_map]
      rfl
    have hw :
        s.workers.countP (fun w => w.undelivered.any (fun task => task.ticket = t)) = s.workerTickets.count t := by
      rw [workerTickets, List.count, List.countP_map, List.countP_filterMap]
      refine List.countP_congr (fun w _ => ?_)
      cases w.undelivered <;> simp
    rw [hq, hw]
    omega
  · obtain ⟨r', pre, post, hsplit, hc⟩ := h.discarded t hd
    obtain rfl := accepted_request h hm (show .accepted t r' ∈ s.history by rw [hsplit]; simp)
    exact ⟨pre, post, hsplit, hc⟩
  · rw [h.accepted]
    exact (List.sublist_append_left _ _).trans h.order
  · have hpos : 0 < s.workers.length := by
      rw [hb.workers, (run_limits hrun).1]
      exact (make_ok hmake).1
    obtain ⟨w, hw⟩ := List.exists_mem_of_length_pos hpos
    exact (h.exits (hall w hw ▸ hw)).2

/-- Request 7 is accepted and delivered, request 8 is accepted after it and cancelled in the queue. -/
def settledRun : List Action :=
  [.submit ⟨serialDevice, fun _ => serialDevice, 0⟩ 7 ⟨[⟨1, [2, 0]⟩], [[]], true⟩ [some [1, 2], none, some [2, 6]] true,
    .take 0, .submit ⟨serialDevice, fun _ => serialDevice, 0⟩ 8 ⟨[], [], true⟩ [some [3]] true, .cancel 8,
    .execute 0 ⟨serialDevice, 4000, 9000, 1, 2, 1⟩, .check 0, .deliver 0, .erase 0, .shutdown, .take 0]

theorem tasks_accounted_settledRun : ∃ s₀ s, make 1 1 5 = .ok s₀ ∧ run step s₀ settledRun = some s ∧
    (∀ env requestId plan shards completion, (s.submit env requestId plan shards completion).1.history =
      if (s.submit env requestId plan shards completion).2 = .ok true then s.history ++ [.accepted s.tickets requestId]
      else s.history) ∧
    s.history.filterMap Event.acceptedTicket = List.range s.tickets ∧
    (∀ task ∈ s.queue ++ s.heldTasks, .accepted task.ticket task.requestId ∈ s.history) ∧
    (∀ t r, .accepted t r ∈ s.history →
      s.queue.countP (fun task => task.ticket = t) +
        s.workers.countP (fun w => w.undelivered.any (fun task => task.ticket = t)) +
        s.history.count (.delivered t) + s.history.count (.discarded t) = 1 ∧
      (.discarded t ∈ s.history →
        ∃ pre post, s.history = pre ++ .accepted t r :: post ∧ .cancelCalled r ∈ post)) ∧
    (s.history.filterMap Event.startedTicket).Sublist (s.history.filterMap Event.acceptedTicket) ∧
    ((∀ w ∈ s.workers, w = .exited) → s.queue = []) := by
  obtain ⟨s₀, s, hmake, hrun, -⟩ := exists_run step id 1 1 5 settledRun
    (fun _ s => s.history = [.accepted 0 7, .started 0, .accepted 1 8, .cancelCalled 8, .discarded 1, .delivered 0])
    (by decide +kernel)
  exact ⟨s₀, s, hmake, hrun, tasks_accounted 1 1 5 s₀ s settledRun hmake hrun⟩

/-! ## Cancelled tasks -/

/-- A worker has read that the task of the request is not cancelled and has not ended its round. -/
def PassedCheck (s : Executor) (requestId : Nat) : Prop :=
  ∃ w ∈ s.workers, ∃ task, w.passedCheck = some task ∧ task.requestId = requestId

/-- The request has a task, queued or held by a worker, and this is its ticket. -/
def HasTask (s : Executor) (requestId ticket : Nat) : Prop :=
  ∃ task ∈ s.queue ++ s.heldTasks, task.requestId = requestId ∧ task.ticket = ticket

theorem Books.task_unique {s : Executor} (h : Books s) {x y : ExecutorTask} (hx : x ∈ s.queue ++ s.heldTasks)
    (hy : y ∈ s.queue ++ s.heldTasks) (hid : x.requestId = y.requestId) : x = y := by
  have hnodup := h.nodup
  rw [taskIds, queuedIds, heldIds, ← List.map_append] at hnodup
  exact List.inj_on_of_nodup_map hnodup hx hy hid

theorem Books.others {s : Executor} (h : Books s) {pre post : List WorkerPhase} {w : WorkerPhase} {task : ExecutorTask}
    (hw : s.workers = pre ++ w :: post) (hheld : w.held = some task) :
    ∀ u ∈ pre ++ post, ∀ x, u.held = some x → x.requestId ≠ task.requestId := by
  intro u hu x hx heq
  have hnodup := (List.nodup_append.1 h.nodup).2.1
  rw [heldIds, heldTasks_split hw, hheld, Option.toList_some, List.singleton_append, List.map_append, List.map_cons]
    at hnodup
  obtain ⟨hnot, -⟩ := List.nodup_cons.1 (List.nodup_middle.1 hnodup)
  rw [← List.map_append, ← List.filterMap_append, ← heq] at hnot
  exact hnot (List.mem_map_of_mem (List.mem_filterMap.2 ⟨u, hu, hx⟩))

def Told (s : Executor) : Prop :=
  ∀ w ∈ s.workers, ∀ task cancelled, w = .finishing task cancelled →
    (if cancelled then Event.discarded task.ticket else Event.delivered task.ticket) ∈ s.history

theorem Told.make {concurrencyLimit maxQueueDepth : UInt64} {cost : Int} {s : Executor}
    (h : make concurrencyLimit maxQueueDepth cost = .ok s) : Told s := by
  obtain ⟨-, -, -, heq⟩ := make_ok h
  intro w hw task cancelled hf
  rw [heq] at hw
  rw [List.eq_of_mem_replicate hw] at hf
  cases hf

theorem step_told {s s' : Executor} {a : Action} (h : Told s) (hs : step s a = some s') : Told s' := by
  have hgrow : ∀ more, ∀ w ∈ s.workers, ∀ task cancelled, w = .finishing task cancelled →
      (if cancelled then Event.discarded task.ticket else Event.delivered task.ticket) ∈ s.history ++ more :=
    fun more w hw task cancelled hf => List.mem_append_left more (h w hw task cancelled hf)
  cases step_cases hs with
  | staged a requestId context ha hctx => exact h
  | accepted env requestId plan shards context hopen hroom hrun hqueue hcontext => exact hgrow _
  | unqueued requestId task pre post hqueue hid => exact hgrow _
  | flagged requestId hqueue hrun => exact hgrow _
  | ignored requestId hqueue hrun => exact hgrow _
  | stopped => exact h
  | exited worker pre post hw hstop hqueue =>
    exact forall_mem_replace (fun u hu => h u (hw ▸ hu)) (fun _ _ hf => by cases hf)
  | taken worker pre post hw task rest hqueue =>
    exact forall_mem_replace (fun u hu => hgrow _ u (hw ▸ hu)) (fun _ _ hf => by cases hf)
  | executed worker env pre post task hw =>
    exact forall_mem_replace (fun u hu => h u (hw ▸ hu)) (fun _ _ hf => by cases hf)
  | foundCancelled worker pre post task result hw hc =>
    refine forall_mem_replace (fun u hu => hgrow _ u (hw ▸ hu)) (fun _ _ hf => ?_)
    cases hf
    exact List.mem_append_right _ (List.mem_singleton.2 rfl)
  | foundClear worker pre post task result hw hc =>
    exact forall_mem_replace (fun u hu => h u (hw ▸ hu)) (fun _ _ hf => by cases hf)
  | delivered worker pre post task result hw =>
    refine forall_mem_replace (fun u hu => hgrow _ u (hw ▸ hu)) (fun _ _ hf => ?_)
    cases hf
    exact List.mem_append_right _ (List.mem_singleton.2 rfl)
  | erased worker pre post task cancelled hw =>
    exact forall_mem_replace (fun u hu => h u (hw ▸ hu)) (fun _ _ hf => by cases hf)

/-- **A task that will never be delivered**: it has left the queue, and if a worker still has it, its request is flagged
and the worker has yet to look. -/
structure Silenced (t : Nat) (s : Executor) : Prop where
  history : .delivered t ∉ s.history
  accepted : t < s.tickets
  queue : ∀ task ∈ s.queue, task.ticket ≠ t
  workers : ∀ w ∈ s.workers, ∀ task, w.undelivered = some task → task.ticket = t →
    task.requestId ∈ s.cancelledRequests ∧ w.passedCheck = none

theorem step_silenced {t : Nat} {s s' : Executor} {a : Action} (h : Silenced t s) (hb : Books s)
    (hs : step s a = some s') : Silenced t s' := by
  have hnot : ∀ more, .delivered t ∉ more → .delivered t ∉ s.history ++ more := by
    intro more hm
    rw [List.mem_append, not_or]
    exact ⟨h.history, hm⟩
  cases step_cases hs with
  | staged a requestId context ha hctx => exact ⟨h.history, h.accepted, h.queue, h.workers⟩
  | accepted env requestId plan shards context hopen hroom hrun hqueue hcontext =>
    refine ⟨hnot _ (by simp), Nat.lt_succ_of_lt h.accepted, fun task hm => ?_, h.workers⟩
    rcases List.mem_append.1 hm with hm | hm
    · exact h.queue task hm
    · rw [List.mem_singleton.1 hm]
      exact Nat.ne_of_gt h.accepted
  | unqueued requestId task pre post hqueue hid =>
    refine ⟨hnot _ (by simp), h.accepted, fun x hm => h.queue x ?_, h.workers⟩
    rw [hqueue]
    exact (sublist_without pre post task).subset hm
  | flagged requestId hqueue hrun =>
    refine ⟨hnot _ (by simp), h.accepted, h.queue, fun w hw x hx ht => ?_⟩
    obtain ⟨hc, hp⟩ := h.workers w hw x hx ht
    exact ⟨Finset.mem_insert_of_mem hc, hp⟩
  | ignored requestId hqueue hrun => exact ⟨hnot _ (by simp), h.accepted, h.queue, h.workers⟩
  | stopped => exact ⟨h.history, h.accepted, h.queue, h.workers⟩
  | exited worker pre post hw hstop hqueue =>
    exact ⟨h.history, h.accepted, h.queue,
      forall_mem_replace (fun u hu => h.workers u (hw ▸ hu)) (fun _ hx => by cases hx)⟩
  | taken worker pre post hw task rest hqueue =>
    refine ⟨hnot _ (by simp), h.accepted, fun x hm => h.queue x (by rw [hqueue]; exact List.mem_cons_of_mem _ hm),
      forall_mem_replace (fun u hu => h.workers u (hw ▸ hu)) (fun x hx ht => ?_)⟩
    rw [← Option.some.inj hx] at ht
    exact absurd ht (h.queue task (by rw [hqueue]; exact List.mem_cons_self))
  | executed worker env pre post task hw =>
    refine ⟨h.history, h.accepted, h.queue,
      forall_mem_replace (fun u hu => h.workers u (hw ▸ hu)) (fun x hx ht => ⟨?_, rfl⟩)⟩
    rw [← Option.some.inj hx] at ht ⊢
    rw [executeTask_ticket] at ht
    rw [executeTask_requestId]
    exact (h.workers (.executing task) (by rw [hw]; simp) task rfl ht).1
  | foundCancelled worker pre post task result hw hc =>
    exact ⟨hnot _ (by simp), h.accepted, h.queue,
      forall_mem_replace (fun u hu => h.workers u (hw ▸ hu)) (fun _ hx => by cases hx)⟩
  | foundClear worker pre post task result hw hc =>
    refine ⟨h.history, h.accepted, h.queue,
      forall_mem_replace (fun u hu => h.workers u (hw ▸ hu)) (fun x hx ht => absurd ?_ hc)⟩
    obtain rfl := Option.some.inj hx
    exact (h.workers (.executed task result) (by rw [hw]; simp) task rfl ht).1
  | delivered worker pre post task result hw =>
    refine ⟨hnot _ (fun hm => ?_), h.accepted, h.queue,
      forall_mem_replace (fun u hu => h.workers u (hw ▸ hu)) (fun _ hx => by cases hx)⟩
    have ht : task.ticket = t := (Event.delivered.inj (List.mem_singleton.1 hm)).symm
    cases (h.workers (.delivering task result) (by rw [hw]; simp) task rfl ht).2
  | erased worker pre post task cancelled hw =>
    refine ⟨h.history, h.accepted, h.queue, fun u hu x hx ht => ?_⟩
    have hmem : u ∈ pre ++ post := by
      rcases List.mem_append.1 hu with hu | hu
      · exact List.mem_append_left _ hu
      · rcases List.mem_cons.1 hu with rfl | hu
        · cases hx
        · exact List.mem_append_right _ hu
    have hold : u ∈ s.workers := by
      rw [hw]
      exact (sublist_without pre post _).subset hmem
    obtain ⟨hc, hp⟩ := h.workers u hold x hx ht
    exact ⟨Finset.mem_erase.2 ⟨hb.others hw rfl u hmem x (u.held_of_undelivered hx), hc⟩, hp⟩

theorem queuedTickets_pos {s : Executor} {task : ExecutorTask} (hm : task ∈ s.queue) :
    0 < s.queuedTickets.count task.ticket := List.count_pos_iff.2 (List.mem_map_of_mem hm)

theorem workerTickets_pos {s : Executor} {w : WorkerPhase} (hw : w ∈ s.workers) {task : ExecutorTask}
    (hu : w.undelivered = some task) : 0 < s.workerTickets.count task.ticket :=
  List.count_pos_iff.2 (List.mem_map_of_mem (List.mem_filterMap.2 ⟨w, hw, hu⟩))

theorem Ledger.fate_one {s : Executor} (h : Ledger s) {t r : Nat} (hacc : .accepted t r ∈ s.history) :
    s.queuedTickets.count t + s.workerTickets.count t +
      (s.history.count (.delivered t) + s.history.count (.discarded t)) = 1 := by
  have hfate := h.fate t
  rw [accepted_once h hacc, count_settled] at hfate
  exact hfate

theorem unqueued_silenced {s : Executor} (h : Ledger s) {requestId : Nat} {task : ExecutorTask}
    {pre post : List ExecutorTask} (hqueue : s.queue = pre ++ task :: post) (hlt : task.ticket < s.tickets) :
    Silenced task.ticket { s.setStaged requestId none with
      queue := pre ++ post, history := s.history ++ [.cancelCalled requestId, .discarded task.ticket] } := by
  have hmem : task ∈ s.queue := by
    rw [hqueue]
    simp
  have hfate := h.fate_one (h.named task (List.mem_append_left _ hmem))
  have hcount : s.queuedTickets.count task.ticket =
      ((pre ++ post).map ExecutorTask.ticket).count task.ticket + 1 := by
    rw [queuedTickets, hqueue]
    simp only [List.map_append, List.map_cons, List.count_append, List.count_cons_self]
    omega
  refine ⟨?_, hlt, fun x hx ht => ?_, fun w hw x hx ht => ?_⟩
  · rw [List.mem_append, not_or]
    refine ⟨fun hm => ?_, by simp⟩
    have := List.count_pos_iff.2 hm
    omega
  · have hpos := List.count_pos_iff.2 (List.mem_map_of_mem (f := ExecutorTask.ticket) (show x ∈ pre ++ post from hx))
    rw [ht] at hpos
    omega
  · have hpos := workerTickets_pos (s := s) hw hx
    rw [ht] at hpos
    omega

theorem flagged_silenced {s : Executor} (h : Ledger s) (htold : Told s) {w : WorkerPhase} (hw : w ∈ s.workers)
    {task : ExecutorTask} (hheld : w.held = some task) (hlt : task.ticket < s.tickets)
    (hcheck : ¬ s.PassedCheck task.requestId) :
    Silenced task.ticket { s.setStaged task.requestId none with
      cancelledRequests := insert task.requestId s.cancelledRequests
      history := s.history ++ [.cancelCalled task.requestId] } := by
  have hacc := h.named task (List.mem_append_right _ (List.mem_filterMap.2 ⟨w, hw, hheld⟩))
  have hfate := h.fate_one hacc
  -- the worker has the task, or it has dropped it
  have hplace : 0 < s.workerTickets.count task.ticket + s.history.count (.discarded task.ticket) := by
    have hopen : w.undelivered = some task → 0 < s.workerTickets.count task.ticket := workerTickets_pos hw
    cases w with
    | waiting => cases hheld
    | exited => cases hheld
    | executing x => exact Nat.add_pos_left (hopen hheld) _
    | executed x result => exact Nat.add_pos_left (hopen hheld) _
    | delivering x result => exact Nat.add_pos_left (hopen hheld) _
    | finishing x cancelled =>
      obtain rfl := Option.some.inj hheld
      cases cancelled with
      | true => exact Nat.add_pos_right _ (List.count_pos_iff.2 (htold _ hw x true rfl))
      | false => exact absurd ⟨_, hw, x, rfl, rfl⟩ hcheck
  refine ⟨?_, hlt, fun x hx ht => ?_, fun u hu x hx ht => ?_⟩
  · rw [List.mem_append, not_or]
    refine ⟨fun hm => ?_, by simp⟩
    have := List.count_pos_iff.2 hm
    omega
  · have hpos := queuedTickets_pos (s := s) hx
    rw [ht] at hpos
    omega
  · have hx' := h.named x (List.mem_append_right _ (List.mem_filterMap.2 ⟨u, hu, u.held_of_undelivered hx⟩))
    rw [ht] at hx'
    have hid : x.requestId = task.requestId := accepted_request h hx' hacc
    rw [hid]
    refine ⟨Finset.mem_insert_self _ _, ?_⟩
    cases hp : u.passedCheck with
    | none => rfl
    | some y =>
      have hheld := u.held_of_undelivered hx
      rw [u.held_of_passedCheck hp] at hheld
      obtain rfl := Option.some.inj hheld
      exact absurd ⟨u, hu, y, hp, hid⟩ hcheck

theorem cancel_returns_true {s : Executor} (hb : Books s) {r t : Nat} (htask : s.HasTask r t) :
    (s.cancel r).2 = true := by
  obtain ⟨x, hx, hxr, -⟩ := htask
  rcases s.cancel_spec r with ⟨task, pre, post, hq, hid, heq⟩ | ⟨hq, hrun, heq⟩ | ⟨hq, hrun, heq⟩
  · rw [heq]
  · rw [heq]
  · rcases List.mem_append.1 hx with hx | hx
    · rw [(s.hasQueuedRequest_iff r).2 (hxr ▸ List.mem_map_of_mem hx)] at hq
      cases hq
    · exact absurd ((hb.running r).2 (hxr ▸ List.mem_map_of_mem hx)) hrun

theorem cancel_silenced {s : Executor} {r t : Nat} (hb : Books s) (h : Ledger s) (htold : Told s)
    (htask : s.HasTask r t) (hcheck : ¬ s.PassedCheck r) : Silenced t (s.cancel r).1 := by
  obtain ⟨x, hx, rfl, rfl⟩ := htask
  have hlt : x.ticket < s.tickets := by
    refine List.mem_range.1 (List.count_pos_iff.1 ?_)
    rw [accepted_once h (h.named x hx)]
    exact Nat.one_pos
  rcases s.cancel_spec x.requestId with ⟨task, pre, post, hq, hid, heq⟩ | ⟨hq, hrun, heq⟩ | ⟨hq, hrun, heq⟩
  · obtain rfl : x = task := hb.task_unique hx (List.mem_append_left _ (by rw [hq]; simp)) hid.symm
    rw [heq]
    exact unqueued_silenced h hq hlt
  · rcases List.mem_append.1 hx with hx | hx
    · rw [(s.hasQueuedRequest_iff _).2 (List.mem_map_of_mem hx)] at hq
      cases hq
    obtain ⟨w, hw, hheld⟩ := List.mem_filterMap.1 hx
    rw [heq]
    exact flagged_silenced h htold hw hheld hlt hcheck
  · rcases List.mem_append.1 hx with hx | hx
    · rw [(s.hasQueuedRequest_iff _).2 (List.mem_map_of_mem hx)] at hq
      cases hq
    · exact absurd ((hb.running _).2 (List.mem_map_of_mem hx)) hrun

theorem cancel_frame (s : Executor) (r : Nat) :
    (s.cancel r).1.workers = s.workers ∧ ∃ more, (s.cancel r).1.history = s.history ++ more := by
  rcases s.cancel_spec r with ⟨task, pre, post, hq, hid, heq⟩ | ⟨hq, hrun, heq⟩ | ⟨hq, hrun, heq⟩
  · rw [heq]
    exact ⟨rfl, _, rfl⟩
  · rw [heq]
    exact ⟨rfl, _, rfl⟩
  · rw [heq]
    exact ⟨rfl, _, rfl⟩

theorem passed_delivered {s : Executor} {r t : Nat} (hb : Books s) (htold : Told s) (htask : s.HasTask r t)
    (hcheck : s.PassedCheck r) : ∃ bs s', run step (s.cancel r).1 bs = some s' ∧ .delivered t ∈ s'.history := by
  obtain ⟨x, hx, hxr, rfl⟩ := htask
  obtain ⟨w, hw, y, hp, hyr⟩ := hcheck
  have hy : y ∈ s.queue ++ s.heldTasks :=
    List.mem_append_right _ (List.mem_filterMap.2 ⟨w, hw, w.held_of_passedCheck hp⟩)
  obtain rfl : x = y := hb.task_unique hx hy (hxr.trans hyr.symm)
  obtain ⟨hworkers, more, hmore⟩ := s.cancel_frame r
  cases w with
  | delivering task result =>
    obtain rfl := Option.some.inj hp
    obtain ⟨i, hi⟩ := List.mem_iff_getElem?.1 hw
    have hstep : step (s.cancel r).1 (.deliver i) = some
        (((s.cancel r).1.setWorker i (.finishing task false)).record (.delivered task.ticket)) := by
      simp only [step, hworkers, hi]
    refine ⟨[.deliver i], _, (run_cons _ _ _ _).2 ⟨_, hstep, rfl⟩, ?_⟩
    exact List.mem_append_right _ (List.mem_singleton.2 rfl)
  | finishing task cancelled =>
    cases cancelled with
    | true => cases hp
    | false =>
      obtain rfl := Option.some.inj hp
      refine ⟨[], _, rfl, ?_⟩
      rw [hmore]
      exact List.mem_append_left _ (htold _ hw task false rfl)
  | _ => cases hp

/-- **When a cancellation is final.**  `Cancel` answers `true` for every request with a task, queued or held by a
worker; the task is then never delivered, before or after, exactly if no worker had passed its check for that
request. -/
theorem cancel_final_iff (concurrencyLimit maxQueueDepth : UInt64) (cost : Int) (s₀ s : Executor) (as : List Action)
    (hmake : make concurrencyLimit maxQueueDepth cost = .ok s₀) (hrun : run step s₀ as = some s) (r t : Nat)
    (htask : s.HasTask r t) :
    (s.cancel r).2 = true ∧
      ((∀ bs s', run step (s.cancel r).1 bs = some s' → .delivered t ∉ s'.history) ↔ ¬ s.PassedCheck r) := by
  obtain ⟨hb, h⟩ := run_ledger hmake hrun
  have htold : Told s := run_inv (fun _ _ _ hI hs => step_told hI hs) as s₀ s (.make hmake) hrun
  refine ⟨cancel_returns_true hb htask, fun hnever hcheck => ?_, fun hcheck bs s' hbs => ?_⟩
  · obtain ⟨bs, s', hbs, hd⟩ := passed_delivered hb htold htask hcheck
    exact hnever bs s' hbs hd
  · have hsil := cancel_silenced hb h htold htask hcheck
    have hbooks : Books (s.cancel r).1 := step_books s (.cancel r) _ hb rfl
    have hend : Books s' ∧ Silenced t s' :=
      run_inv (I := fun s => Books s ∧ Silenced t s)
        (fun s a s' hI hs => ⟨step_books s a s' hI.1 hs, step_silenced hI.2 hI.1 hs⟩) bs _ s' ⟨hbooks, hsil⟩ hbs
    exact hend.2.history

/-- One worker takes the task of request 7, executes it and reads that it is not cancelled. -/
def checkedRun : List Action :=
  [.submit ⟨serialDevice, fun _ => serialDevice, 0⟩ 7 ⟨[⟨1, [2, 0]⟩], [[]], true⟩ [some [1, 2], none, some [2, 6]] true,
    .take 0, .execute 0 ⟨serialDevice, 4000, 9000, 1, 2, 1⟩, .check 0]

instance (s : Executor) (requestId ticket : Nat) : Decidable (s.HasTask requestId ticket) :=
  inferInstanceAs (Decidable (∃ task ∈ s.queue ++ s.heldTasks, task.requestId = requestId ∧ task.ticket = ticket))

theorem cancel_final_iff_checkedRun : ∃ s₀ s, make 1 1 5 = .ok s₀ ∧ run step s₀ checkedRun = some s ∧ s.HasTask 7 0 ∧
    (s.cancel 7).2 = true ∧
      ((∀ bs s', run step (s.cancel 7).1 bs = some s' → .delivered 0 ∉ s'.history) ↔ ¬ s.PassedCheck 7) := by
  obtain ⟨s₀, s, hmake, hrun, htask⟩ :=
    exists_run step id 1 1 5 checkedRun (fun _ s => s.HasTask 7 0) (by decide +kernel)
  have htask := of_decide_eq_true htask
  exact ⟨s₀, s, hmake, hrun, htask, cancel_final_iff 1 1 5 s₀ s checkedRun hmake hrun 7 0 htask⟩

/-- **A task is delivered although `Cancel` answered `true`** while its request was in `running_requests`. -/
theorem delivered_after_cancel : ∃ s₀ s, make 1 1 5 = .ok s₀ ∧ run step s₀ checkedRun = some s ∧
    7 ∈ s.runningRequests ∧ s.HasTask 7 0 ∧ (s.cancel 7).2 = true ∧
      ∃ s', run step (s.cancel 7).1 [.deliver 0] = some s' ∧ .delivered 0 ∈ s'.history := by
  obtain ⟨s₀, s, hmake, hrun, h⟩ := exists_run step id 1 1 5 checkedRun
    (fun _ s => 7 ∈ s.runningRequests ∧ s.HasTask 7 0 ∧ (s.cancel 7).2 = true ∧
      (run step (s.cancel 7).1 [.deliver 0]).any (fun s' => .delivered 0 ∈ s'.history)) (by decide +kernel)
  obtain ⟨hmem, htask, htrue, hlater⟩ := of_decide_eq_true h
  obtain ⟨s', hs', hd⟩ := (Option.any_eq_true _ _).1 hlater
  exact ⟨s₀, s, hmake, hrun, hmem, htask, htrue, s', hs', of_decide_eq_true hd⟩

end Executor

end CodedLLM
