import CodedLLM.SmokeRuns
/-!
# SmokeDelivery — what the transport test shows, in every order of its threads

Three invariants that hold together: the connections to the coordinator are those of the tasks that have been sent and
not yet arrived (`Inbound`), what the coordinator holds and reports follows from the order of the arrivals (`Working`),
and what it has to hand on is with the consumer, on the way or among its chores (`Outbound`).  A run whose joins do not
time out also closes no listener under a server (`Clean`).
-/
namespace CodedLLM
namespace TransportSmoke

open Runs

/-! ## Reading the events -/

def arrived (events : List Event) : List (Nat × Nat) :=
  (events.filter (fun e => e.kind = .shardArrival)).map (fun e => (e.requestId, e.shardId.toNat))

def arrivals (request : Nat) (events : List Event) : List Nat :=
  ((arrived events).filter (fun p => p.1 = request)).map Prod.snd

def coordinatorEvents (request : Nat) (events : List Event) : List Event :=
  events.filter (fun e => e.requestId = request ∧ e.kind ≠ .producerSend)

theorem arrived_append (as bs : List Event) : arrived (as ++ bs) = arrived as ++ arrived bs := by
  rw [arrived, List.filter_append, List.map_append]
  rfl

theorem arrivals_append (request : Nat) (as bs : List Event) :
    arrivals request (as ++ bs) = arrivals request as ++ arrivals request bs := by
  rw [arrivals, arrived_append, List.filter_append, List.map_append]
  rfl

theorem coordinatorEvents_append (request : Nat) (as bs : List Event) :
    coordinatorEvents request (as ++ bs) = coordinatorEvents request as ++ coordinatorEvents request bs :=
  List.filter_append ..

theorem mem_arrivals {request shard : Nat} {events : List Event} :
    shard ∈ arrivals request events ↔ (request, shard) ∈ arrived events := by
  simp [arrivals]

theorem nodup_arrivals {events : List Event} (h : (arrived events).Nodup) (request : Nat) :
    (arrivals request events).Nodup := by
  apply List.Nodup.map_on _ (h.filter _)
  rintro ⟨a, b⟩ ha ⟨c, d⟩ hc heq
  have h1 : a = request := by simpa using (List.mem_filter.1 ha).2
  have h2 : c = request := by simpa using (List.mem_filter.1 hc).2
  rw [h1, h2, show b = d from heq]

theorem arrived_of_ready {events : List Event} (h : ∀ e ∈ events, e.kind = .consumerReady) : arrived events = [] := by
  rw [arrived, List.map_eq_nil_iff, List.filter_eq_nil_iff]
  intro e he
  rw [h e he]
  decide

theorem arrived_reaction (W : Workload) (r : Nat) (before : List Nat) (shard : Nat) :
    arrived (W.reaction r before shard) = [(r, shard)] := by
  unfold Workload.reaction
  cases Workload.recovers (before ++ [shard]) <;> cases Workload.complete (before ++ [shard]) <;> rfl

theorem coordinatorEvents_reaction (W : Workload) (r : Nat) (before : List Nat) (shard request : Nat) :
    coordinatorEvents request (W.reaction r before shard) = if r = request then W.reaction r before shard else [] := by
  unfold Workload.reaction
  cases Workload.recovers (before ++ [shard]) <;> cases Workload.complete (before ++ [shard]) <;>
    by_cases heq : r = request <;> simp [coordinatorEvents, heq]

theorem arrivals_reaction (W : Workload) (r : Nat) (before : List Nat) (shard request : Nat) :
    arrivals request (W.reaction r before shard) = if r = request then [shard] else [] := by
  rw [arrivals, arrived_reaction]
  by_cases heq : r = request <;> simp [heq]

namespace SmokeTest

/-! ## Connections -/

theorem connection_spec {request shard flags : Nat} {payload : List UInt8}
    (hfits : Header.Fits ⟨request, shard, flags, payload.length⟩) (hflags : flags ≠ closeFlags) :
    (connection request shard flags payload).2 = none ∧ ∀ wish wish',
      readFrame wish wish' (connection request shard flags payload).1 = .ok (some ⟨request, shard, payload⟩) := by
  obtain ⟨head, -, hsend⟩ := sendFrame_ok hfits
  rw [connection, hsend]
  refine ⟨rfl, fun wish wish' => ?_⟩
  have hread := readFrame_append wish wish' [] hsend
  rwa [List.append_nil, if_neg hflags] at hread

theorem readFrame_closing (wish wish' : Nat → Nat) :
    readFrame wish wish' (connection 0 0 closeFlags []).1 = .ok none := by
  have hfits : Header.Fits ⟨0, 0, closeFlags, ([] : List UInt8).length⟩ := by decide
  obtain ⟨head, -, hsend⟩ := sendFrame_ok hfits
  rw [connection, hsend]
  have hread := readFrame_append wish wish' [] hsend
  rwa [List.append_nil, if_pos rfl] at hread

def sentBytes (W : Workload) (flags : Nat) (p : Nat × Nat) : List UInt8 :=
  (connection p.1 p.2 flags (W.payload p.1 p.2)).1

theorem payload_fits {W : Workload} (hfit : W.Fits) {p : Nat × Nat} {flags : Nat} (hr : p.1 < W.requests) (hk : p.2 < 3)
    (hflags : flags < 2 ^ 8) : Header.Fits ⟨p.1, p.2, flags, (W.payload p.1 p.2).length⟩ := by
  refine ⟨?_, ?_, hflags, ?_⟩
  · exact lt_of_lt_of_le hr hfit.requests_le
  · exact lt_trans hk (by decide)
  · rw [W.length_payload]
    exact hfit.shardBytes_lt

theorem sentBytes_spec {W : Workload} (hfit : W.Fits) {p : Nat × Nat} {flags : Nat} (hr : p.1 < W.requests)
    (hk : p.2 < 3) (hlt : flags < closeFlags) (wish wish' : Nat → Nat) :
    (connection p.1 p.2 flags (W.payload p.1 p.2)).2 = none ∧
      readFrame wish wish' (sentBytes W flags p) = .ok (some ⟨p.1, p.2, W.payload p.1 p.2⟩) := by
  have hflags : flags < 2 ^ 8 := lt_trans hlt (by decide)
  obtain ⟨hnone, hread⟩ := connection_spec (payload_fits hfit hr hk hflags) (Nat.ne_of_lt hlt)
  exact ⟨hnone, hread wish wish'⟩

def closing (closed left : Bool) : List (List UInt8) :=
  if closed && !left then [(connection 0 0 closeFlags []).1] else []

/-- The connection that a server takes: a frame, or the closing header behind all frames. -/
theorem queue_cases {W : Workload} {flags : Nat} {queue : List (Nat × Nat)} {closed : Bool}
    {inbox rest late : List (List UInt8)} {conn : List UInt8}
    (hinbox : inbox = queue.map (sentBytes W flags) ++ (closing closed false ++ late))
    (hlate : closed = false → late = []) (hcons : inbox = conn :: rest) :
    (∃ p tail, queue = p :: tail ∧ conn = sentBytes W flags p ∧
      rest = tail.map (sentBytes W flags) ++ (closing closed false ++ late)) ∨
    (queue = [] ∧ closed = true ∧ rest = late ∧ conn = (connection 0 0 closeFlags []).1) := by
  rw [hcons] at hinbox
  cases queue with
  | cons p tail =>
    obtain ⟨hhead, htail⟩ := List.cons.inj hinbox
    exact .inl ⟨p, tail, rfl, hhead, htail⟩
  | nil =>
    cases closed with
    | true =>
      obtain ⟨hhead, htail⟩ := List.cons.inj hinbox
      exact .inr ⟨rfl, rfl, htail, hhead⟩
    | false =>
      rw [hlate rfl] at hinbox
      cases hinbox

/-! ## Listeners -/

@[simp] theorem accepted_eq (l : Listener) : l.accepted = .listening ↔ l = .listening := by
  cases l <;> decide

theorem close_ne (accepting : Bool) : Listener.close accepting ≠ .listening := by
  cases accepting <;> decide

/-! ## The invariants -/

def coordinatorClosed : MainPhase → Bool
  | .joiningCoordinator _ | .closingConsumer _ | .joiningConsumer _ | .done _ => true
  | _                                                                       => false

def coordinatorJoined : MainPhase → Bool
  | .closingConsumer _ | .joiningConsumer _ | .done _ => true
  | _                                                 => false

def consumerClosed : MainPhase → Bool
  | .joiningConsumer _ | .done _ => true
  | _                            => false

def consumerJoined : MainPhase → Bool
  | .done _ => true
  | _       => false

theorem joined_of_consumerJoined {m : MainPhase} (h : consumerJoined m = true) : coordinatorJoined m = true := by
  cases m with
  | done verdict => rfl
  | _ => cases h

theorem joined_of_consumerClosed {m : MainPhase} (h : consumerClosed m = true) : coordinatorJoined m = true := by
  cases m with
  | joiningConsumer verdict => rfl
  | done verdict => rfl
  | _ => cases h

def owed : CoordinatorPhase → List Event
  | .working chores => choreEvents chores
  | _               => []

/-- The events of the test together with those that the coordinator is about to append. -/
def reported (s : SmokeTest) : List Event := s.events ++ owed s.coordinator

structure Inbound (W : Workload) (s : SmokeTest) (waiting : List (Nat × Nat)) : Prop where
  started : ∀ p, s.tasks p ≠ .ready → p ∈ W.futures
  intact : ∀ p e, s.tasks p ≠ .failed e
  nodup : (arrived (reported s) ++ waiting).Nodup
  sent : ∀ p, p ∈ arrived (reported s) ++ waiting ↔ s.tasks p = .sent
  inbox : s.inbox = waiting.map (sentBytes W 0) ++
    closing (coordinatorClosed s.main) (decide (s.coordinator = .returned))
  returned : s.coordinator = .returned → coordinatorClosed s.main = true ∧ waiting = []
  pool : s.main ≠ .waitingForPool → ∀ p ∈ W.futures, s.tasks p = .sent

/-- **The chores of a frame**: what they hand on are shards of the workload, and they end when that is done. -/
inductive Genuine (W : Workload) : List Chore → Prop where
  | nil : Genuine W []
  | report (e : Event) {rest : List Chore} (h : Genuine W rest) : Genuine W (.report e :: rest)
  | handOn {r k : Nat} {rest : List Chore} (hr : r < W.requests) (hk : k < 2)
      (hready : ∀ e ∈ choreEvents rest, e.kind = .consumerReady) (h : Genuine W rest) :
      Genuine W (.handOn r k (W.payload r k) :: rest)

theorem genuine_reports {W : Workload} {rest : List Chore} (h : Genuine W rest) : ∀ events : List Event,
    Genuine W (events.map .report ++ rest)
  | []          => h
  | e :: events => .report e (genuine_reports h events)

theorem genuine_chores (W : Workload) {r : Nat} (hr : r < W.requests) (before : List Nat) (shard : Nat) :
    Genuine W (W.chores r before shard) := by
  refine .report _ (genuine_reports ?_ _)
  have hready : ∀ e ∈ [Event.mk r .consumerReady (-1) 0], e.kind = .consumerReady := by simp
  unfold Workload.handOns
  split
  · exact .handOn hr (by decide) hready (.handOn hr (by decide) hready (.report _ .nil))
  · exact .nil

structure Working (W : Workload) (s : SmokeTest) : Prop where
  shards : ∀ r, s.shards r = W.slotsOf r (arrivals r (reported s))
  trace : ∀ r, ∃ lost, coordinatorEvents r (reported s) ++ lost = W.traceFrom r [] (arrivals r (reported s)) ∧
    (lost ≠ [] → ∃ e, s.coordinator = .failed e)
  intact : ∀ e, s.coordinator = .failed e →
    e = .osError ∧ (s.listener ≠ .listening ∨ s.consumerListener ≠ .listening)
  chores : ∀ chores, s.coordinator = .working chores → Genuine W chores
  listening : coordinatorJoined s.main = false → s.listener = .listening

structure Outbound (W : Workload) (s : SmokeTest) (pairs late : List (Nat × Nat)) : Prop where
  genuine : ∀ p ∈ pairs, p.1 < W.requests ∧ p.2 < 2
  inbox : s.consumerInbox = pairs.map (sentBytes W recovered) ++
    (closing (consumerClosed s.main) (decide (s.consumer = .returned)) ++ late.map (sentBytes W recovered))
  onTime : consumerClosed s.main = false → late = []
  intact : ∀ e, s.consumer = .failed e → e = .osError ∧ s.consumerListener ≠ .listening
  returned : s.consumer = .returned → consumerClosed s.main = true ∧ pairs = []
  listening : consumerJoined s.main = false → s.consumerListener = .listening
  payloads : ∀ p b, s.payloads.lookup p = some b → W.expected.lookup p = some b
  delivered : ∀ r k, Workload.complete (arrivals r (reported s)) = true → k < 2 →
    (r, k) ∈ s.payloads ∨ (r, k) ∈ pairs ∨ (r, k) ∈ late ∨
      (∃ chores, s.coordinator = .working chores ∧ .handOn r k (W.payload r k) ∈ chores) ∨
      ∃ e, s.coordinator = .failed e

/-- **No listener was closed under a server**: each join has waited for the end of its thread. -/
structure Clean (s : SmokeTest) (late : List (Nat × Nat)) : Prop where
  coordinator : coordinatorJoined s.main = true → s.coordinator = .returned
  consumer : consumerJoined s.main = true → s.consumer = .returned
  onTime : late = []

def Sound (W : Workload) (patient : Bool) (s : SmokeTest) : Prop :=
  ∃ waiting pairs late, Inbound W s waiting ∧ Working W s ∧ Outbound W s pairs late ∧ (patient = true → Clean s late)

theorem init_sound (W : Workload) (patient : Bool) : Sound W patient init := by
  refine ⟨[], [], [], ⟨?_, ?_, ?_, ?_, ?_, ?_, ?_⟩, ⟨?_, ?_, ?_, ?_, ?_⟩, ⟨?_, ?_, ?_, ?_, ?_, ?_, ?_, ?_⟩,
    fun _ => ⟨?_, ?_, rfl⟩⟩
  · intro p h
    exact absurd rfl h
  · intro p e h
    cases h
  · exact List.nodup_nil
  · intro p
    constructor
    · intro h
      cases h
    · intro h
      cases h
  · rfl
  · intro h
    cases h
  · intro h
    exact absurd rfl h
  · intro r
    funext k
    rw [W.slotsOf_neg (by simp [arrivals, arrived, reported, owed, init])]
    rfl
  · intro r
    exact ⟨[], rfl, fun h => absurd rfl h⟩
  · intro e h
    cases h
  · intro chores h
    cases h
  · intro _
    rfl
  · intro p h
    cases h
  · rfl
  · intro _
    rfl
  · intro e h
    cases h
  · intro h
    cases h
  · intro _
    rfl
  · intro p b h
    rw [init, Finmap.lookup_empty] at h
    cases h
  · intro r k h
    cases h
  · intro h
    cases h
  · intro h
    cases h

/-! ## The senders -/

theorem Inbound.task {W : Workload} {s s' : SmokeTest} {waiting added : List (Nat × Nat)} (h : Inbound W s waiting)
    {task : Nat × Nat} {phase : TaskPhase} (hmem : task ∈ W.futures) (hne : s.tasks task ≠ .sent)
    (hadded : (phase = .announced ∧ added = []) ∨ (phase = .sent ∧ added = [task]))
    (htasks : s'.tasks = Function.update s.tasks task phase) (hmain : s'.main = s.main)
    (hcoordinator : s'.coordinator = s.coordinator) (harrived : arrived (reported s') = arrived (reported s))
    (hinbox : s'.inbox = s.inbox ++ added.map (sentBytes W 0)) : Inbound W s' (waiting ++ added) := by
  -- the pool is still at work, so nothing is closed
  have hpool : s.main = .waitingForPool := by
    by_contra hnot
    exact hne (h.pool hnot task hmem)
  have hnew : task ∉ arrived (reported s) ++ waiting := by
    rw [h.sent]
    exact hne
  have hself : s'.tasks task = phase := by rw [htasks, Function.update_self]
  have hother : ∀ p, p ≠ task → s'.tasks p = s.tasks p := by
    intro p hp
    rw [htasks, Function.update_of_ne hp]
  refine ⟨?_, ?_, ?_, ?_, ?_, ?_, ?_⟩
  · intro p hp
    by_cases heq : p = task
    · rw [heq]
      exact hmem
    · apply h.started p
      rwa [← hother p heq]
  · intro p e
    by_cases heq : p = task
    · rw [heq, hself]
      rcases hadded with ⟨rfl, -⟩ | ⟨rfl, -⟩
      · exact fun hcases => by cases hcases
      · exact fun hcases => by cases hcases
    · rw [hother p heq]
      exact h.intact p e
  · rw [harrived, ← List.append_assoc]
    rcases hadded with ⟨-, rfl⟩ | ⟨-, rfl⟩
    · rw [List.append_nil]
      exact h.nodup
    · rw [List.nodup_append_comm]
      exact List.nodup_cons.2 ⟨hnew, h.nodup⟩
  · intro p
    rw [harrived, ← List.append_assoc, List.mem_append, h.sent]
    by_cases heq : p = task
    · rw [heq, hself]
      rcases hadded with ⟨rfl, rfl⟩ | ⟨rfl, rfl⟩
      · simp [hne]
      · simp
    · rw [hother p heq]
      rcases hadded with ⟨-, rfl⟩ | ⟨-, rfl⟩
      · simp
      · simp [heq]
  · rw [hinbox, h.inbox, hmain, hpool, List.map_append]
    simp [closing, coordinatorClosed]
  · intro hret
    rw [hcoordinator] at hret
    have hclosed := (h.returned hret).1
    rw [hpool] at hclosed
    cases hclosed
  · intro hnot
    rw [hmain] at hnot
    exact absurd hpool hnot

theorem announced_events (as bs : List Event) (r n request : Nat) (k : Int) :
    arrived ((as ++ [⟨r, .producerSend, k, n⟩]) ++ bs) = arrived (as ++ bs) ∧
    coordinatorEvents request ((as ++ [⟨r, .producerSend, k, n⟩]) ++ bs) = coordinatorEvents request (as ++ bs) := by
  rw [arrived_append, arrived_append, arrived_append, coordinatorEvents_append, coordinatorEvents_append,
    coordinatorEvents_append]
  have hnone : coordinatorEvents request [⟨r, .producerSend, k, n⟩] = [] := by simp [coordinatorEvents]
  rw [hnone, List.append_nil]
  exact ⟨congrArg (· ++ arrived bs) (List.append_nil _), rfl⟩

theorem announce_sound {W : Workload} {patient : Bool} {s : SmokeTest} {task : Nat × Nat} (h : Sound W patient s)
    (hmem : task ∈ W.futures) (hready : s.tasks task = .ready) :
    Sound W patient { s with
      tasks := Function.update s.tasks task .announced
      events := s.events ++ [⟨task.1, .producerSend, task.2, (W.payload task.1 task.2).length⟩] } := by
  obtain ⟨waiting, pairs, late, hin, hwork, hout, hclean⟩ := h
  have hevents := fun r =>
    announced_events s.events (owed s.coordinator) task.1 (W.payload task.1 task.2).length r task.2
  have harrivals : ∀ r, arrivals r ((s.events ++ [⟨task.1, .producerSend, task.2, (W.payload task.1 task.2).length⟩]) ++
      owed s.coordinator) = arrivals r (reported s) := by
    intro r
    rw [arrivals, (hevents r).1]
    rfl
  refine ⟨waiting ++ [], pairs, late, ?_, { hwork with shards := ?_, trace := ?_ }, { hout with delivered := ?_ },
    fun hp => { hclean hp with }⟩
  · refine hin.task hmem ?_ (.inl ⟨rfl, rfl⟩) rfl rfl rfl (hevents 0).1 (List.append_nil _).symm
    rw [hready]
    decide
  · intro r
    rw [reported, harrivals]
    exact hwork.shards r
  · intro r
    rw [reported, harrivals, (hevents r).2]
    exact hwork.trace r
  · intro r k
    rw [reported, harrivals]
    exact hout.delivered r k

theorem connect_sound {W : Workload} (hfit : W.Fits) {patient : Bool} {s : SmokeTest} {task : Nat × Nat}
    (h : Sound W patient s) (hphase : s.tasks task = .announced) :
    Sound W patient { s with
      tasks := Function.update s.tasks task
        (match (connection task.1 task.2 0 (W.payload task.1 task.2)).2 with | some e => .failed e | none => .sent)
      inbox := s.inbox ++ [(connection task.1 task.2 0 (W.payload task.1 task.2)).1] } := by
  obtain ⟨waiting, pairs, late, hin, hwork, hout, hclean⟩ := h
  have hmem : task ∈ W.futures := hin.started task (by rw [hphase]; decide)
  obtain ⟨-, hr, hk⟩ := W.mem_futures.1 hmem
  rw [(connection_spec (payload_fits hfit hr hk (by decide)) (by decide)).1]
  refine ⟨waiting ++ [task], pairs, late, ?_, { hwork with }, { hout with }, fun hp => { hclean hp with }⟩
  refine hin.task hmem ?_ (.inr ⟨rfl, rfl⟩) rfl rfl rfl rfl rfl
  rw [hphase]
  decide

/-! ## The coordinator -/

theorem Inbound.bounds {W : Workload} {s : SmokeTest} {waiting : List (Nat × Nat)} (h : Inbound W s waiting)
    {p : Nat × Nat} (hp : p ∈ waiting) : p.1 < W.requests ∧ p.2 < 3 := by
  refine (W.mem_futures.1 (h.started p ?_)).2
  rw [(h.sent p).1 (List.mem_append_right _ hp)]
  decide

theorem Inbound.queue {W : Workload} {s : SmokeTest} {waiting : List (Nat × Nat)} (h : Inbound W s waiting)
    (hphase : s.coordinator = .accepting) {conn : List UInt8} {rest : List (List UInt8)}
    (hinbox : s.inbox = conn :: rest) :
    (∃ p tail, waiting = p :: tail ∧ conn = sentBytes W 0 p ∧
      rest = tail.map (sentBytes W 0) ++ closing (coordinatorClosed s.main) false) ∨
    (waiting = [] ∧ coordinatorClosed s.main = true ∧ rest = [] ∧ conn = (connection 0 0 closeFlags []).1) := by
  have hqueue := h.inbox
  rw [hphase, decide_eq_false (fun hcases => by cases hcases),
    ← List.append_nil (closing (coordinatorClosed s.main) false)] at hqueue
  have hcases := queue_cases hqueue (fun _ => rfl) hinbox
  rwa [List.append_nil] at hcases

section
variable {W : Workload} {patient : Bool} {s s' : SmokeTest} {waiting pairs late pairs' late' : List (Nat × Nat)}

theorem Inbound.afterArrival {r x : Nat} {l : List Nat} (h : Inbound W s ((r, x) :: waiting))
    (hrep : reported s' = reported s ++ W.reaction r l x) (htasks : s'.tasks = s.tasks) (hmain : s'.main = s.main)
    (hne : s'.coordinator ≠ .returned)
    (hinbox : s'.inbox = waiting.map (sentBytes W 0) ++ closing (coordinatorClosed s.main) false) :
    Inbound W s' waiting := by
  have harrived : arrived (reported s') ++ waiting = arrived (reported s) ++ (r, x) :: waiting := by
    rw [hrep, arrived_append, arrived_reaction, List.append_assoc, List.singleton_append]
  refine ⟨?_, ?_, ?_, ?_, ?_, ?_, ?_⟩
  · rw [htasks]
    exact h.started
  · rw [htasks]
    exact h.intact
  · rw [harrived]
    exact h.nodup
  · rw [harrived, htasks]
    exact h.sent
  · rw [hinbox, hmain, decide_eq_false hne]
  · exact fun hret => absurd hret hne
  · rw [htasks, hmain]
    exact h.pool

theorem Working.afterArrival {r x : Nat} (h : Working W s) (hphase : s.coordinator = .accepting) (hr : r < W.requests)
    (hrep : reported s' = reported s ++ W.reaction r (arrivals r (reported s)) x)
    (hshards : s'.shards = Function.update s.shards r (W.slotsOf r (arrivals r (reported s) ++ [x])))
    (hcoord : s'.coordinator = .working (W.chores r (arrivals r (reported s)) x))
    (hlistener : s'.listener = s.listener.accepted) (hmain : s'.main = s.main) : Working W s' := by
  have harrivals : ∀ request, arrivals request (reported s') =
      arrivals request (reported s) ++ if r = request then [x] else [] := by
    intro request
    rw [hrep, arrivals_append, arrivals_reaction]
  refine ⟨?_, ?_, ?_, ?_, ?_⟩
  · intro request
    rw [harrivals, hshards]
    by_cases heq : r = request
    · rw [if_pos heq, ← heq, Function.update_self]
    · rw [if_neg heq, List.append_nil, Function.update_of_ne (Ne.symm heq)]
      exact h.shards request
  · intro request
    obtain ⟨lost, htrace, hlost⟩ := h.trace request
    have hnone : lost = [] := by
      by_contra hne
      obtain ⟨e, he⟩ := hlost hne
      rw [hphase] at he
      cases he
    rw [hnone, List.append_nil] at htrace
    refine ⟨[], ?_, fun hne => absurd rfl hne⟩
    rw [List.append_nil, harrivals, hrep, coordinatorEvents_append, coordinatorEvents_reaction, htrace]
    by_cases heq : r = request
    · rw [if_pos heq, if_pos heq, W.traceFrom_append, List.nil_append, heq]
    · rw [if_neg heq, if_neg heq, List.append_nil, List.append_nil]
  · intro e he
    rw [hcoord] at he
    cases he
  · intro chores hchores
    rw [hcoord] at hchores
    obtain rfl := CoordinatorPhase.working.inj hchores
    exact genuine_chores W hr _ x
  · intro hjoined
    rw [hmain] at hjoined
    rw [hlistener, accepted_eq]
    exact h.listening hjoined

theorem mem_chores {r x k : Nat} {before : List Nat} (hcomplete : Workload.complete (before ++ [x]) = true)
    (hk : k < 2) : .handOn r k (W.payload r k) ∈ W.chores r before x := by
  apply List.mem_cons_of_mem
  apply List.mem_append_right
  rw [Workload.handOns, if_pos hcomplete]
  have hk' : k = 0 ∨ k = 1 := by omega
  rcases hk' with rfl | rfl
  · exact List.mem_cons_self
  · exact List.mem_cons_of_mem _ List.mem_cons_self

/-- **A frame has arrived**: its shard is the head of those that wait. -/
theorem arrive_sound (hfit : W.Fits) {wish wish' : Nat → Nat} {conn : List UInt8} {rest : List (List UInt8)} {f : Frame}
    (h : Sound W patient s) (hphase : s.coordinator = .accepting) (hinbox : s.inbox = conn :: rest)
    (hread : readFrame wish wish' conn = .ok (some f)) :
    Sound W patient (accept { s with listener := s.listener.accepted, inbox := rest } f) := by
  obtain ⟨waiting, pairs, late, hin, hwork, hout, hclean⟩ := h
  rcases hin.queue hphase hinbox with ⟨⟨r, x⟩, tail, rfl, rfl, hrest⟩ | ⟨-, -, -, rfl⟩
  swap
  · rw [readFrame_closing] at hread
    cases hread
  obtain ⟨hr, hx⟩ := hin.bounds List.mem_cons_self
  rw [(sentBytes_spec hfit hr hx (by decide) wish wish').2] at hread
  obtain rfl := Option.some.inj (Except.ok.inj hread)
  have hfresh : x ∉ arrivals r (reported s) := by
    rw [mem_arrivals]
    exact fun hmem => List.disjoint_of_nodup_append hin.nodup hmem List.mem_cons_self
  rw [accept_eq (s := { s with listener := s.listener.accepted, inbox := rest }) (hwork.shards r) hfresh hx]
  have hrep : s.events ++ choreEvents (W.chores r (arrivals r (reported s)) x) =
      reported s ++ W.reaction r (arrivals r (reported s)) x := by
    rw [W.events_chores]
    congr 1
    rw [reported, hphase]
    exact (List.append_nil _).symm
  refine ⟨tail, pairs, late, hin.afterArrival hrep rfl rfl (fun hcases => by cases hcases) hrest,
    hwork.afterArrival hphase hr hrep rfl rfl rfl rfl, { hout with delivered := ?_ },
    fun hp => { hclean hp with coordinator := ?_ }⟩
  · intro request k hcomplete hk
    change Workload.complete (arrivals request (s.events ++ choreEvents _)) = true at hcomplete
    rw [hrep, arrivals_append, arrivals_reaction] at hcomplete
    by_cases heq : r = request
    · subst heq
      rw [if_pos rfl] at hcomplete
      exact .inr (.inr (.inr (.inl ⟨_, rfl, mem_chores hcomplete hk⟩)))
    · rw [if_neg heq, List.append_nil] at hcomplete
      rcases hout.delivered request k hcomplete hk with hd | hd | hd | ⟨chores, hchores, -⟩ | ⟨e, he⟩
      · exact .inl hd
      · exact .inr (.inl hd)
      · exact .inr (.inr (.inl hd))
      · rw [hphase] at hchores
        cases hchores
      · rw [hphase] at he
        cases he
  · intro hjoined
    have hret := (hclean hp).coordinator hjoined
    rw [hphase] at hret
    cases hret

/-! What the coordinator does otherwise reports nothing new: it takes the closing header, does a chore, finds a listener
closed or returns to `accept`. -/

theorem Inbound.moved (h : Inbound W s waiting) (hrep : reported s' = reported s) (htasks : s'.tasks = s.tasks)
    (hmain : s'.main = s.main)
    (hinbox : s'.inbox = waiting.map (sentBytes W 0) ++
      closing (coordinatorClosed s.main) (decide (s'.coordinator = .returned)))
    (hret : s'.coordinator = .returned → coordinatorClosed s.main = true ∧ waiting = []) : Inbound W s' waiting := by
  refine ⟨?_, ?_, ?_, ?_, ?_, ?_, ?_⟩
  · rw [htasks]
    exact h.started
  · rw [htasks]
    exact h.intact
  · rw [hrep]
    exact h.nodup
  · rw [hrep, htasks]
    exact h.sent
  · rw [hinbox, hmain]
  · rw [hmain]
    exact hret
  · rw [htasks, hmain]
    exact h.pool

theorem Inbound.kept (h : Inbound W s waiting) (hrep : reported s' = reported s) (htasks : s'.tasks = s.tasks)
    (hmain : s'.main = s.main) (hinbox : s'.inbox = s.inbox) (hne : s.coordinator ≠ .returned)
    (hne' : s'.coordinator ≠ .returned) : Inbound W s' waiting := by
  apply h.moved hrep htasks hmain
  · rw [hinbox, h.inbox, decide_eq_false hne, decide_eq_false hne']
  · exact fun hret => absurd hret hne'

theorem Working.moved (h : Working W s) (hactive : ∀ e, s.coordinator ≠ .failed e) (hrep : reported s' = reported s)
    (hshards : s'.shards = s.shards) (hmain : s'.main = s.main)
    (hlistener : s.listener = .listening → s'.listener = .listening)
    (hintact : ∀ e, s'.coordinator = .failed e →
      e = .osError ∧ (s'.listener ≠ .listening ∨ s'.consumerListener ≠ .listening))
    (hchores : ∀ chores, s'.coordinator = .working chores → Genuine W chores) : Working W s' := by
  refine ⟨?_, ?_, hintact, hchores, ?_⟩
  · rw [hshards, hrep]
    exact h.shards
  · intro r
    obtain ⟨lost, htrace, hlost⟩ := h.trace r
    rw [hrep]
    refine ⟨lost, htrace, fun hne => ?_⟩
    obtain ⟨e, he⟩ := hlost hne
    exact absurd he (hactive e)
  · rw [hmain]
    exact fun hjoined => hlistener (h.listening hjoined)

theorem Outbound.delivered_moved (h : Outbound W s pairs late) (hactive : ∀ e, s.coordinator ≠ .failed e)
    (hrep : reported s' = reported s) (hpayloads : s'.payloads = s.payloads)
    (hkept : ∀ chores, s.coordinator = .working chores → ∀ r k, .handOn r k (W.payload r k) ∈ chores →
      (r, k) ∈ pairs' ∨ (r, k) ∈ late' ∨
      (∃ chores', s'.coordinator = .working chores' ∧ .handOn r k (W.payload r k) ∈ chores') ∨
      ∃ e, s'.coordinator = .failed e)
    (hpairs : ∀ p ∈ pairs, p ∈ pairs') (hlate : ∀ p ∈ late, p ∈ late') :
    ∀ r k, Workload.complete (arrivals r (reported s')) = true → k < 2 →
      (r, k) ∈ s'.payloads ∨ (r, k) ∈ pairs' ∨ (r, k) ∈ late' ∨
        (∃ chores, s'.coordinator = .working chores ∧ .handOn r k (W.payload r k) ∈ chores) ∨
        ∃ e, s'.coordinator = .failed e := by
  intro r k hcomplete hk
  rw [hrep] at hcomplete
  rw [hpayloads]
  rcases h.delivered r k hcomplete hk with hd | hd | hd | ⟨chores, hchores, hmem⟩ | ⟨e, he⟩
  · exact .inl hd
  · exact .inr (.inl (hpairs _ hd))
  · exact .inr (.inr (.inl (hlate _ hd)))
  · exact .inr (hkept chores hchores r k hmem)
  · exact absurd he (hactive e)

theorem ne_of_working {chores : List Chore} {c : CoordinatorPhase} (h : c = .working chores) :
    c ≠ .returned ∧ ∀ e, c ≠ .failed e := by
  rw [h]
  constructor
  · intro hcases
    cases hcases
  · intro e hcases
    cases hcases

theorem ne_of_accepting {c : CoordinatorPhase} (h : c = .accepting) : c ≠ .returned ∧ ∀ e, c ≠ .failed e := by
  rw [h]
  constructor
  · intro hcases
    cases hcases
  · intro e hcases
    cases hcases

theorem Clean.active (h : Clean s late) (hne : s.coordinator ≠ .returned) : coordinatorJoined s.main = false := by
  apply Bool.eq_false_iff.2
  exact fun hjoined => hne (h.coordinator hjoined)

theorem leave_sound (hfit : W.Fits) {wish wish' : Nat → Nat} {conn : List UInt8} {rest : List (List UInt8)}
    (h : Sound W patient s) (hphase : s.coordinator = .accepting) (hinbox : s.inbox = conn :: rest)
    (hread : readFrame wish wish' conn = .ok none) :
    Sound W patient { s with listener := s.listener.accepted, inbox := rest, coordinator := .returned } := by
  obtain ⟨waiting, pairs, late, hin, hwork, hout, hclean⟩ := h
  rcases hin.queue hphase hinbox with ⟨p, tail, rfl, rfl, -⟩ | ⟨rfl, hclosed, rfl, -⟩
  · obtain ⟨hr, hk⟩ := hin.bounds List.mem_cons_self
    rw [(sentBytes_spec hfit hr hk (by decide) wish wish').2] at hread
    cases hread
  have hactive := (ne_of_accepting hphase).2
  have hrep : s.events ++ [] = reported s := by
    rw [reported, hphase]
    rfl
  refine ⟨[], pairs, late, hin.moved hrep rfl rfl ?_ (fun _ => ⟨hclosed, rfl⟩),
    hwork.moved hactive hrep rfl rfl ?_ ?_ ?_,
    { hout with delivered := hout.delivered_moved hactive hrep rfl ?_ (fun _ => id) (fun _ => id) },
    fun hp => { hclean hp with coordinator := fun _ => rfl }⟩
  · simp [closing]
  · exact (accepted_eq _).2
  · intro e hcases
    cases hcases
  · intro chores hcases
    cases hcases
  · intro chores hchores
    rw [hphase] at hchores
    cases hchores

theorem not_cut (hfit : W.Fits) {wish wish' : Nat → Nat} {conn : List UInt8} {rest : List (List UInt8)} {e : PyExn}
    (h : Sound W patient s) (hphase : s.coordinator = .accepting) (hinbox : s.inbox = conn :: rest) :
    readFrame wish wish' conn ≠ .error e := by
  obtain ⟨waiting, pairs, late, hin, -, -, -⟩ := h
  intro hread
  rcases hin.queue hphase hinbox with ⟨p, tail, rfl, rfl, -⟩ | ⟨-, -, -, rfl⟩
  · obtain ⟨hr, hk⟩ := hin.bounds List.mem_cons_self
    rw [(sentBytes_spec hfit hr hk (by decide) wish wish').2] at hread
    cases hread
  · rw [readFrame_closing] at hread
    cases hread

theorem idle_sound (h : Sound W patient s) (hphase : s.coordinator = .working []) :
    Sound W patient { s with coordinator := .accepting } := by
  obtain ⟨waiting, pairs, late, hin, hwork, hout, hclean⟩ := h
  obtain ⟨hne, hactive⟩ := ne_of_working hphase
  have hrep : s.events ++ [] = reported s := by
    rw [reported, hphase]
    rfl
  refine ⟨waiting, pairs, late, hin.kept hrep rfl rfl rfl hne (fun hcases => by cases hcases),
    hwork.moved hactive hrep rfl rfl id ?_ ?_,
    { hout with delivered := hout.delivered_moved hactive hrep rfl ?_ (fun _ => id) (fun _ => id) },
    fun hp => { hclean hp with coordinator := fun hjoined => absurd ((hclean hp).coordinator hjoined) hne }⟩
  · intro e hcases
    cases hcases
  · intro chores hcases
    cases hcases
  · intro chores hchores r k hmem
    rw [hphase] at hchores
    obtain rfl := CoordinatorPhase.working.inj hchores
    cases hmem

theorem report_sound {e : Event} {rest : List Chore} (h : Sound W patient s)
    (hphase : s.coordinator = .working (.report e :: rest)) :
    Sound W patient { s with events := s.events ++ [e], coordinator := .working rest } := by
  obtain ⟨waiting, pairs, late, hin, hwork, hout, hclean⟩ := h
  obtain ⟨hne, hactive⟩ := ne_of_working hphase
  have hrep : (s.events ++ [e]) ++ choreEvents rest = reported s := by
    rw [reported, hphase, List.append_assoc]
    rfl
  refine ⟨waiting, pairs, late, hin.kept hrep rfl rfl rfl hne (fun hcases => by cases hcases),
    hwork.moved hactive hrep rfl rfl id ?_ ?_,
    { hout with delivered := hout.delivered_moved hactive hrep rfl ?_ (fun _ => id) (fun _ => id) },
    fun hp => { hclean hp with coordinator := fun hjoined => absurd ((hclean hp).coordinator hjoined) hne }⟩
  · intro e hcases
    cases hcases
  · intro chores hchores
    obtain rfl := CoordinatorPhase.working.inj hchores
    cases hwork.chores _ hphase with
    | report _ hrest => exact hrest
  · intro chores hchores r k hmem
    rw [hphase] at hchores
    obtain rfl := CoordinatorPhase.working.inj hchores
    refine .inr (.inr (.inl ⟨rest, rfl, ?_⟩))
    exact (List.mem_cons.1 hmem).resolve_left (fun hcases => by cases hcases)

/-- What is handed on waits for the consumer, behind the closing header if that has been sent. -/
theorem Outbound.handed {p : Nat × Nat} {rest : List Chore} (h : Outbound W s pairs late) (hr : p.1 < W.requests)
    (hk : p.2 < 2) (hphase : s.coordinator = .working (.handOn p.1 p.2 (W.payload p.1 p.2) :: rest))
    (hcoord : s'.coordinator = .working rest) (hrep : reported s' = reported s)
    (hinbox : s'.consumerInbox = s.consumerInbox ++ [sentBytes W recovered p]) (hpayloads : s'.payloads = s.payloads)
    (hmain : s'.main = s.main) (hconsumer : s'.consumer = s.consumer)
    (hlistener : s'.consumerListener = s.consumerListener) :
    ∃ pairs' late', (consumerClosed s.main = false → late' = []) ∧ Outbound W s' pairs' late' := by
  have hactive := (ne_of_working hphase).2
  have hkept : ∀ pairs' late' : List (Nat × Nat), (p ∈ pairs' ∨ p ∈ late') → ∀ chores,
      s.coordinator = .working chores → ∀ r k, .handOn r k (W.payload r k) ∈ chores → (r, k) ∈ pairs' ∨ (r, k) ∈ late' ∨
        (∃ chores', s'.coordinator = .working chores' ∧ .handOn r k (W.payload r k) ∈ chores') ∨
        ∃ e, s'.coordinator = .failed e := by
    intro pairs' late' hp chores hchores r k hmem
    rw [hphase] at hchores
    obtain rfl := CoordinatorPhase.working.inj hchores
    rcases List.mem_cons.1 hmem with heq | hmem
    · obtain ⟨rfl, rfl, -⟩ := Chore.handOn.inj heq
      rcases hp with hp | hp
      · exact .inl hp
      · exact .inr (.inl hp)
    · exact .inr (.inr (.inl ⟨rest, hcoord, hmem⟩))
  cases hclosed : consumerClosed s.main with
  | false =>
    have hlate := h.onTime hclosed
    refine ⟨pairs ++ [p], [], fun _ => rfl, ⟨?_, ?_, fun _ => rfl, ?_, ?_, ?_, ?_, ?_⟩⟩
    · intro q hq
      rcases List.mem_append.1 hq with hq | hq
      · exact h.genuine q hq
      · rw [List.mem_singleton.1 hq]
        exact ⟨hr, hk⟩
    · rw [hinbox, h.inbox, hmain, hclosed, hlate]
      simp [closing]
    · rw [hconsumer, hlistener]
      exact h.intact
    · intro hret
      rw [hconsumer] at hret
      rw [(h.returned hret).1] at hclosed
      cases hclosed
    · rw [hmain, hlistener]
      exact h.listening
    · rw [hpayloads]
      exact h.payloads
    · refine h.delivered_moved hactive hrep hpayloads (hkept _ _ (.inl (by simp))) ?_ ?_
      · exact fun q hq => List.mem_append_left _ hq
      · rw [hlate]
        exact fun _ => id
  | true =>
    refine ⟨pairs, late ++ [p], ?_, ⟨h.genuine, ?_, ?_, ?_, ?_, ?_, ?_, ?_⟩⟩
    · intro hcases
      cases hcases
    · rw [hinbox, h.inbox, hmain, hconsumer, List.map_append]
      simp
    · rw [hmain, hclosed]
      intro hcases
      cases hcases
    · rw [hconsumer, hlistener]
      exact h.intact
    · rw [hconsumer, hmain]
      exact h.returned
    · rw [hmain, hlistener]
      exact h.listening
    · rw [hpayloads]
      exact h.payloads
    · refine h.delivered_moved hactive hrep hpayloads (hkept _ _ (.inr (by simp))) (fun _ => id) ?_
      exact fun q hq => List.mem_append_left _ hq

theorem hand_sound (hfit : W.Fits) {request shard : Nat} {payload : List UInt8} {rest : List Chore}
    (h : Sound W patient s) (hphase : s.coordinator = .working (.handOn request shard payload :: rest)) :
    Sound W patient { s with
      consumerInbox := s.consumerInbox ++ [(connection request shard recovered payload).1]
      coordinator := match (connection request shard recovered payload).2 with
        | some e => .failed e
        | none   => .working rest } := by
  obtain ⟨waiting, pairs, late, hin, hwork, hout, hclean⟩ := h
  obtain ⟨hne, hactive⟩ := ne_of_working hphase
  cases hwork.chores _ hphase with
  | handOn hr hk hready hrest =>
    rw [(sentBytes_spec hfit (p := (request, shard)) hr (lt_trans hk (by decide)) (by decide) id id).1]
    have hrep : s.events ++ choreEvents rest = reported s := by
      rw [reported, hphase]
      rfl
    obtain ⟨pairs', late', hlate, hout'⟩ : ∃ pairs' late', (consumerClosed s.main = false → late' = []) ∧
        Outbound W { s with
          consumerInbox := s.consumerInbox ++ [sentBytes W recovered (request, shard)]
          coordinator := .working rest } pairs' late' :=
      hout.handed (p := (request, shard)) hr hk hphase rfl hrep rfl rfl rfl rfl rfl
    refine ⟨waiting, pairs', late', hin.kept hrep rfl rfl rfl hne (fun hcases => by cases hcases),
      hwork.moved hactive hrep rfl rfl id ?_ ?_, hout', fun hp => ?_⟩
    · intro e hcases
      cases hcases
    · intro chores hchores
      obtain rfl := CoordinatorPhase.working.inj hchores
      exact hrest
    · have hjoined := (hclean hp).active hne
      have hopen : consumerClosed s.main = false := by
        apply Bool.eq_false_iff.2
        intro hclosed
        rw [joined_of_consumerClosed hclosed] at hjoined
        cases hjoined
      exact ⟨fun hcases => absurd ((hclean hp).coordinator hcases) hne, (hclean hp).consumer, hlate hopen⟩

/-- A coordinator that finds a listener closed has at most an event left to report. -/
theorem Working.cut_cases (h : Working W s) (hcut : coordinatorCut s = true) :
    s.coordinator ≠ .returned ∧ (∀ e, s.coordinator ≠ .failed e) ∧
      (s.listener ≠ .listening ∨ s.consumerListener ≠ .listening) ∧
      ∃ lost, reported s = s.events ++ lost ∧ ∀ e ∈ lost, e.kind = .consumerReady := by
  unfold coordinatorCut at hcut
  split at hcut
  case h_1 hphase =>
    obtain ⟨hne, hactive⟩ := ne_of_accepting hphase
    refine ⟨hne, hactive, .inl (of_decide_eq_true hcut), [], by rw [reported, hphase]; rfl, ?_⟩
    intro e he
    cases he
  case h_2 hphase =>
    obtain ⟨hne, hactive⟩ := ne_of_working hphase
    cases h.chores _ hphase with
    | handOn hr hk hready hrest =>
      exact ⟨hne, hactive, .inr (of_decide_eq_true hcut), _, by rw [reported, hphase]; rfl, hready⟩
  case h_3 => cases hcut

theorem failCoordinator_sound (h : Sound W patient s) (hcut : coordinatorCut s = true) :
    Sound W patient { s with coordinator := .failed .osError } := by
  obtain ⟨waiting, pairs, late, hin, hwork, hout, hclean⟩ := h
  obtain ⟨hne, hactive, hclosed, lost, hrep, hready⟩ := hwork.cut_cases hcut
  have harrived : arrived (s.events ++ []) = arrived (reported s) := by
    rw [hrep, arrived_append, arrived_append, arrived_of_ready hready]
    rfl
  have harrivals : ∀ r, arrivals r (s.events ++ []) = arrivals r (reported s) := by
    intro r
    rw [arrivals, harrived]
    rfl
  refine ⟨waiting, pairs, late, { hin with nodup := ?_, sent := ?_, inbox := ?_, returned := ?_ },
    ⟨?_, ?_, ?_, ?_, hwork.listening⟩, { hout with delivered := ?_ }, fun hp => ?_⟩
  · show (arrived (s.events ++ []) ++ waiting).Nodup
    rw [harrived]
    exact hin.nodup
  · show ∀ p, p ∈ arrived (s.events ++ []) ++ waiting ↔ _
    rw [harrived]
    exact hin.sent
  · have hinbox := hin.inbox
    rw [decide_eq_false hne] at hinbox
    exact hinbox
  · intro hcases
    cases hcases
  · intro r
    show s.shards r = W.slotsOf r (arrivals r (s.events ++ []))
    rw [harrivals]
    exact hwork.shards r
  · intro r
    obtain ⟨old, htrace, hold⟩ := hwork.trace r
    have hnone : old = [] := by
      by_contra hsome
      obtain ⟨e, he⟩ := hold hsome
      exact hactive e he
    refine ⟨coordinatorEvents r lost, ?_, fun _ => ⟨_, rfl⟩⟩
    show coordinatorEvents r (s.events ++ []) ++ _ = W.traceFrom r [] (arrivals r (s.events ++ []))
    rw [harrivals, ← htrace, hnone, hrep, List.append_nil, List.append_nil, coordinatorEvents_append]
  · intro e he
    obtain rfl := CoordinatorPhase.failed.inj he
    exact ⟨rfl, hclosed⟩
  · intro chores hchores
    cases hchores
  · exact fun _ _ _ _ => .inr (.inr (.inr (.inr ⟨_, rfl⟩)))
  · have hjoined := (hclean hp).active hne
    have hopen : consumerJoined s.main = false := by
      apply Bool.eq_false_iff.2
      intro hcases
      rw [joined_of_consumerJoined hcases] at hjoined
      cases hjoined
    rcases hclosed with hclosed | hclosed
    · exact absurd (hwork.listening hjoined) hclosed
    · exact absurd (hout.listening hopen) hclosed

/-! ## The consumer -/

theorem Outbound.queue (h : Outbound W s pairs late) (hphase : s.consumer = .accepting) {conn : List UInt8}
    {rest : List (List UInt8)} (hinbox : s.consumerInbox = conn :: rest) :
    (∃ p tail, pairs = p :: tail ∧ conn = sentBytes W recovered p ∧ rest = tail.map (sentBytes W recovered) ++
      (closing (consumerClosed s.main) false ++ late.map (sentBytes W recovered))) ∨
    (pairs = [] ∧ consumerClosed s.main = true ∧ rest = late.map (sentBytes W recovered) ∧
      conn = (connection 0 0 closeFlags []).1) := by
  have hqueue := h.inbox
  rw [hphase, decide_eq_false (fun hcases => by cases hcases)] at hqueue
  refine queue_cases hqueue (fun hopen => ?_) hinbox
  rw [h.onTime hopen]
  rfl

theorem Working.accepted (h : Working W s) (e : PyExn) (he : s.coordinator = .failed e) :
    e = .osError ∧ (s.listener ≠ .listening ∨ s.consumerListener.accepted ≠ .listening) := by
  rw [Ne, Ne, accepted_eq]
  exact h.intact e he

theorem consumed_sound (hfit : W.Fits) {wish wish' : Nat → Nat} {conn : List UInt8} {rest : List (List UInt8)}
    {f : Frame} (h : Sound W patient s) (hphase : s.consumer = .accepting) (hinbox : s.consumerInbox = conn :: rest)
    (hread : readFrame wish wish' conn = .ok (some f)) :
    Sound W patient { s with
      consumerListener := s.consumerListener.accepted
      consumerInbox := rest
      payloads := s.payloads.insert (f.request, f.shard) f.payload } := by
  obtain ⟨waiting, pairs, late, hin, hwork, hout, hclean⟩ := h
  rcases hout.queue hphase hinbox with ⟨⟨r, k⟩, tail, rfl, rfl, hrest⟩ | ⟨-, -, -, rfl⟩
  swap
  · rw [readFrame_closing] at hread
    cases hread
  obtain ⟨hr, hk⟩ : r < W.requests ∧ k < 2 := hout.genuine (r, k) List.mem_cons_self
  rw [(sentBytes_spec hfit (p := (r, k)) hr (lt_trans hk (by decide)) (by decide) wish wish').2] at hread
  obtain rfl := Option.some.inj (Except.ok.inj hread)
  have hne : s.consumer ≠ .returned := by
    rw [hphase]
    decide
  refine ⟨waiting, tail, late, { hin with }, { hwork with intact := hwork.accepted },
    { hout with genuine := ?_, inbox := ?_, intact := ?_, returned := ?_, listening := ?_, payloads := ?_,
                delivered := ?_ }, fun hp => { hclean hp with }⟩
  · exact fun p hp => hout.genuine p (List.mem_cons_of_mem _ hp)
  · rw [decide_eq_false hne]
    exact hrest
  · intro e he
    rw [Ne, accepted_eq]
    exact hout.intact e he
  · exact fun hret => absurd hret hne
  · intro hopen
    rw [accepted_eq]
    exact hout.listening hopen
  · intro p b hlookup
    by_cases heq : p = (r, k)
    · rw [heq] at hlookup ⊢
      rw [Finmap.lookup_insert] at hlookup
      rw [W.lookup_expected, if_pos ⟨hr, hk⟩, ← hlookup]
    · rw [Finmap.lookup_insert_of_ne _ heq] at hlookup
      exact hout.payloads p b hlookup
  · intro r' k' hcomplete hk'
    rcases hout.delivered r' k' hcomplete hk' with hd | hd | hd
    · exact .inl (Finmap.mem_insert.2 (.inr hd))
    · rcases List.mem_cons.1 hd with heq | hd
      · exact .inl (Finmap.mem_insert.2 (.inl heq))
      · exact .inr (.inl hd)
    · exact .inr (.inr hd)

theorem consumeLeave_sound (hfit : W.Fits) {wish wish' : Nat → Nat} {conn : List UInt8} {rest : List (List UInt8)}
    (h : Sound W patient s) (hphase : s.consumer = .accepting) (hinbox : s.consumerInbox = conn :: rest)
    (hread : readFrame wish wish' conn = .ok none) :
    Sound W patient { s with
      consumerListener := s.consumerListener.accepted, consumerInbox := rest, consumer := .returned } := by
  obtain ⟨waiting, pairs, late, hin, hwork, hout, hclean⟩ := h
  rcases hout.queue hphase hinbox with ⟨⟨r, k⟩, tail, rfl, rfl, -⟩ | ⟨rfl, hclosed, rfl, -⟩
  · obtain ⟨hr, hk⟩ : r < W.requests ∧ k < 2 := hout.genuine (r, k) List.mem_cons_self
    rw [(sentBytes_spec hfit (p := (r, k)) hr (lt_trans hk (by decide)) (by decide) wish wish').2] at hread
    cases hread
  refine ⟨waiting, [], late, { hin with }, { hwork with intact := hwork.accepted },
    { hout with inbox := ?_, intact := ?_, returned := ?_, listening := ?_ },
    fun hp => { hclean hp with consumer := fun _ => rfl }⟩
  · simp [closing]
  · intro e hcases
    cases hcases
  · exact fun _ => ⟨hclosed, rfl⟩
  · intro hopen
    rw [accepted_eq]
    exact hout.listening hopen

theorem not_consumeCut (hfit : W.Fits) {wish wish' : Nat → Nat} {conn : List UInt8} {rest : List (List UInt8)}
    {e : PyExn} (h : Sound W patient s) (hphase : s.consumer = .accepting) (hinbox : s.consumerInbox = conn :: rest) :
    readFrame wish wish' conn ≠ .error e := by
  obtain ⟨waiting, pairs, late, -, -, hout, -⟩ := h
  intro hread
  rcases hout.queue hphase hinbox with ⟨⟨r, k⟩, tail, rfl, rfl, -⟩ | ⟨-, -, -, rfl⟩
  · obtain ⟨hr, hk⟩ : r < W.requests ∧ k < 2 := hout.genuine (r, k) List.mem_cons_self
    rw [(sentBytes_spec hfit (p := (r, k)) hr (lt_trans hk (by decide)) (by decide) wish wish').2] at hread
    cases hread
  · rw [readFrame_closing] at hread
    cases hread

theorem failConsumer_sound (h : Sound W patient s) (hphase : s.consumer = .accepting)
    (hclosed : s.consumerListener ≠ .listening) : Sound W patient { s with consumer := .failed .osError } := by
  obtain ⟨waiting, pairs, late, hin, hwork, hout, hclean⟩ := h
  have hne : s.consumer ≠ .returned := by
    rw [hphase]
    decide
  refine ⟨waiting, pairs, late, { hin with }, { hwork with }, { hout with inbox := ?_, intact := ?_, returned := ?_ },
    fun hp => { hclean hp with consumer := ?_ }⟩
  · have hinbox := hout.inbox
    rw [decide_eq_false hne] at hinbox
    exact hinbox
  · intro e he
    obtain rfl := ConsumerPhase.failed.inj he
    exact ⟨rfl, hclosed⟩
  · intro hcases
    cases hcases
  · exact fun hjoined => absurd ((hclean hp).consumer hjoined) hne

/-! ## The main thread -/

/-- **The main thread goes on**, and a join may close a listener. -/
theorem main_sound {main : MainPhase} {listener consumerListener : Listener} (h : Sound W patient s)
    (hclosed : coordinatorClosed main = coordinatorClosed s.main)
    (hconsumer : consumerClosed main = consumerClosed s.main)
    (hlistener : (coordinatorJoined main = coordinatorJoined s.main ∧ listener = s.listener) ∨
      coordinatorJoined main = true ∧ listener ≠ .listening)
    (hconsumerListener : (consumerJoined main = consumerJoined s.main ∧ consumerListener = s.consumerListener) ∨
      consumerJoined main = true ∧ consumerListener ≠ .listening)
    (hjoin : patient = true → coordinatorJoined main = true →
      coordinatorJoined s.main = true ∨ s.coordinator = .returned)
    (hjoin' : patient = true → consumerJoined main = true → consumerJoined s.main = true ∨ s.consumer = .returned)
    (hpool : main ≠ .waitingForPool → ∀ p ∈ W.futures, s.tasks p = .sent) :
    Sound W patient { s with main := main, listener := listener, consumerListener := consumerListener } := by
  obtain ⟨waiting, pairs, late, hin, hwork, hout, hclean⟩ := h
  have hkept : s.listener ≠ .listening → listener ≠ .listening := by
    rcases hlistener with ⟨-, rfl⟩ | ⟨-, hne⟩
    · exact id
    · exact fun _ => hne
  have hkept' : s.consumerListener ≠ .listening → consumerListener ≠ .listening := by
    rcases hconsumerListener with ⟨-, rfl⟩ | ⟨-, hne⟩
    · exact id
    · exact fun _ => hne
  refine ⟨waiting, pairs, late, { hin with inbox := ?_, returned := ?_, pool := hpool },
    { hwork with intact := ?_, listening := ?_ },
    { hout with inbox := ?_, onTime := ?_, intact := ?_, returned := ?_, listening := ?_ },
    fun hp => ⟨?_, ?_, (hclean hp).onTime⟩⟩
  · show s.inbox = _ ++ closing (coordinatorClosed main) _
    rw [hclosed]
    exact hin.inbox
  · show _ → coordinatorClosed main = true ∧ _
    rw [hclosed]
    exact hin.returned
  · intro e he
    obtain ⟨heq, hcut⟩ := hwork.intact e he
    exact ⟨heq, hcut.imp hkept hkept'⟩
  · intro hopen
    rcases hlistener with ⟨heq, rfl⟩ | ⟨hjoined, -⟩
    · exact hwork.listening (heq.symm.trans hopen)
    · exact absurd (hjoined.symm.trans hopen) (by decide)
  · show s.consumerInbox = _ ++ (closing (consumerClosed main) _ ++ _)
    rw [hconsumer]
    exact hout.inbox
  · show consumerClosed main = false → _
    rw [hconsumer]
    exact hout.onTime
  · intro e he
    obtain ⟨heq, hcut⟩ := hout.intact e he
    exact ⟨heq, hkept' hcut⟩
  · show _ → consumerClosed main = true ∧ _
    rw [hconsumer]
    exact hout.returned
  · intro hopen
    rcases hconsumerListener with ⟨heq, rfl⟩ | ⟨hjoined, -⟩
    · exact hout.listening (heq.symm.trans hopen)
    · exact absurd (hjoined.symm.trans hopen) (by decide)
  · intro hjoined
    exact (hjoin hp hjoined).elim (hclean hp).coordinator id
  · intro hjoined
    exact (hjoin' hp hjoined).elim (hclean hp).consumer id

theorem joinPool_spec (hfit : W.Fits) (h : Sound W patient s)
    (hall : W.futures.all (fun p => finished (s.tasks p)) = true) :
    (∀ p ∈ W.futures, s.tasks p = .sent) ∧ poolFailure W s = none := by
  obtain ⟨waiting, pairs, late, hin, -, -, -⟩ := h
  have hsent : ∀ p ∈ W.futures, s.tasks p = .sent := by
    intro p hp
    have hfin := List.all_eq_true.1 hall p hp
    cases hphase : s.tasks p with
    | sent => rfl
    | failed e => exact absurd hphase (hin.intact p e)
    | ready => rw [hphase] at hfin; cases hfin
    | announced => rw [hphase] at hfin; cases hfin
  refine ⟨hsent, ?_⟩
  simp only [poolFailure, hfit.drawn]
  rw [List.findSome?_eq_none_iff]
  intro p hp
  rw [hsent p hp]
  rfl

theorem closeCoordinator_sound {verdict : Verdict} (h : Sound W patient s)
    (hphase : s.main = .closingCoordinator verdict) : Sound W patient { s with
      inbox := s.inbox ++ [(connection 0 0 closeFlags []).1], main := .joiningCoordinator verdict } := by
  obtain ⟨waiting, pairs, late, hin, hwork, hout, hclean⟩ := h
  have hne : s.coordinator ≠ .returned := by
    intro hret
    have hclosed := (hin.returned hret).1
    rw [hphase] at hclosed
    cases hclosed
  have hsame : s.main = .closingCoordinator verdict → consumerClosed s.main = false ∧ consumerJoined s.main = false ∧
      coordinatorJoined s.main = false := by
    intro hmain
    rw [hmain]
    exact ⟨rfl, rfl, rfl⟩
  obtain ⟨hopen, hlistening, hjoined⟩ := hsame hphase
  refine ⟨waiting, pairs, late, { hin with inbox := ?_, returned := ?_, pool := ?_ },
    { hwork with listening := fun _ => hwork.listening hjoined },
    { hout with inbox := ?_, onTime := fun _ => hout.onTime hopen, returned := ?_,
                listening := fun _ => hout.listening hlistening }, fun hp => ⟨?_, ?_, (hclean hp).onTime⟩⟩
  · show s.inbox ++ _ = _ ++ closing true _
    rw [hin.inbox, hphase, decide_eq_false hne]
    simp [closing, coordinatorClosed]
  · exact fun hret => absurd hret hne
  · exact fun _ => hin.pool (by rw [hphase]; intro hcases; cases hcases)
  · have hinbox := hout.inbox
    rw [hphase] at hinbox
    exact hinbox
  · intro hret
    have hclosed := (hout.returned hret).1
    rw [hopen] at hclosed
    cases hclosed
  · intro hcases
    cases hcases
  · intro hcases
    cases hcases

theorem closeConsumer_sound {verdict : Verdict} (h : Sound W patient s) (hphase : s.main = .closingConsumer verdict) :
    Sound W patient { s with
      consumerInbox := s.consumerInbox ++ [(connection 0 0 closeFlags []).1], main := .joiningConsumer verdict } := by
  obtain ⟨waiting, pairs, late, hin, hwork, hout, hclean⟩ := h
  have hopen : consumerClosed s.main = false := by
    rw [hphase]
    rfl
  have hne : s.consumer ≠ .returned := by
    intro hret
    rw [(hout.returned hret).1] at hopen
    cases hopen
  have hlate := hout.onTime hopen
  refine ⟨waiting, pairs, late, { hin with inbox := ?_, returned := ?_, pool := ?_ },
    { hwork with listening := fun hcases => by cases hcases },
    { hout with inbox := ?_, onTime := fun _ => hlate, returned := ?_,
                listening := fun _ => hout.listening (by rw [hphase]; rfl) }, fun hp => ⟨?_, ?_, (hclean hp).onTime⟩⟩
  · have hinbox := hin.inbox
    rw [hphase] at hinbox
    exact hinbox
  · exact fun hret => ⟨rfl, (hin.returned hret).2⟩
  · exact fun _ => hin.pool (by rw [hphase]; intro hcases; cases hcases)
  · show s.consumerInbox ++ _ = _ ++ (closing true _ ++ _)
    rw [hout.inbox, hopen, decide_eq_false hne, hlate]
    simp [closing]
  · exact fun hret => absurd hret hne
  · exact fun _ => (hclean hp).coordinator (by rw [hphase]; rfl)
  · intro hcases
    cases hcases

/-- A server whose listener is open has ended by the closing header. -/
theorem coordinator_returned (h : Sound W patient s) (hjoined : coordinatorJoined s.main = false)
    (hended : coordinatorEnded s.coordinator = true) : s.coordinator = .returned := by
  obtain ⟨waiting, pairs, late, -, hwork, hout, -⟩ := h
  have hopen : consumerJoined s.main = false := by
    apply Bool.eq_false_iff.2
    intro hcases
    rw [joined_of_consumerJoined hcases] at hjoined
    cases hjoined
  cases hphase : s.coordinator with
  | returned => rfl
  | failed e =>
    rcases (hwork.intact e hphase).2 with hclosed | hclosed
    · exact absurd (hwork.listening hjoined) hclosed
    · exact absurd (hout.listening hopen) hclosed
  | _ =>
    rw [hphase] at hended
    cases hended

theorem consumer_returned (h : Sound W patient s) (hjoined : consumerJoined s.main = false)
    (hended : consumerEnded s.consumer = true) : s.consumer = .returned := by
  obtain ⟨waiting, pairs, late, -, -, hout, -⟩ := h
  cases hphase : s.consumer with
  | returned => rfl
  | failed e => exact absurd (hout.listening hjoined) (hout.intact e hphase).2
  | accepting =>
    rw [hphase] at hended
    cases hended

end

/-! ## Whole runs -/

/-- No join times out. -/
def Action.patient : Action → Bool
  | .joinCoordinator true | .joinConsumer true => false
  | _                                          => true

/-- **Every step of every thread keeps everything.** -/
theorem step_sound {W : Workload} (hfit : W.Fits) {patient : Bool} (s : SmokeTest) (a : Action) (s' : SmokeTest)
    (h : Sound W patient s) (ha : patient = true → a.patient = true) (hs : step W s a = some s') :
    Sound W patient s' := by
  have hpool : s.main ≠ .waitingForPool → ∀ p ∈ W.futures, s.tasks p = .sent := by
    obtain ⟨waiting, pairs, late, hin, -, -, -⟩ := h
    exact hin.pool
  cases moved_of_step hs with
  | announce task hmem hready hsleep => exact announce_sound h hmem hready
  | overslept task e hmem hready hsleep =>
    rw [hfit.slept task hmem] at hsleep
    cases hsleep
  | connect task hphase => exact connect_sound hfit h hphase
  | cut wish wish' conn rest e hphase hinbox hread => exact absurd hread (not_cut hfit h hphase hinbox)
  | leave wish wish' conn rest hphase hinbox hread => exact leave_sound hfit h hphase hinbox hread
  | arrive wish wish' conn rest f hphase hinbox hread => exact arrive_sound hfit h hphase hinbox hread
  | idle hphase => exact idle_sound h hphase
  | report e rest hphase => exact report_sound h hphase
  | raise e rest hphase =>
    obtain ⟨waiting, pairs, late, -, hwork, -, -⟩ := h
    cases hwork.chores _ hphase
  | hand request shard payload rest hphase => exact hand_sound hfit h hphase
  | failCoordinator hcut => exact failCoordinator_sound h hcut
  | consumeCut wish wish' conn rest e hphase hinbox hread => exact absurd hread (not_consumeCut hfit h hphase hinbox)
  | consumeLeave wish wish' conn rest hphase hinbox hread => exact consumeLeave_sound hfit h hphase hinbox hread
  | consumed wish wish' conn rest f hphase hinbox hread => exact consumed_sound hfit h hphase hinbox hread
  | failConsumer hphase hclosed => exact failConsumer_sound h hphase hclosed
  | joinPool hphase hall =>
    obtain ⟨hsent, hnone⟩ := joinPool_spec hfit h hall
    rw [hnone]
    apply main_sound h
    · rw [hphase]; rfl
    · rw [hphase]; rfl
    · exact .inl ⟨by rw [hphase]; rfl, rfl⟩
    · exact .inl ⟨by rw [hphase]; rfl, rfl⟩
    · exact fun _ hcases => by cases hcases
    · exact fun _ hcases => by cases hcases
    · exact fun _ => hsent
  | check late hphase hover =>
    apply main_sound h
    · rw [hphase]; rfl
    · rw [hphase]; rfl
    · exact .inl ⟨by rw [hphase]; rfl, rfl⟩
    · exact .inl ⟨by rw [hphase]; rfl, rfl⟩
    · exact fun _ hcases => by cases hcases
    · exact fun _ hcases => by cases hcases
    · exact fun _ => hpool (by rw [hphase]; intro hcases; cases hcases)
  | closeCoordinator verdict hphase => exact closeCoordinator_sound h hphase
  | joinCoordinator late verdict hphase hover =>
    apply main_sound h
    · rw [hphase]; rfl
    · rw [hphase]; rfl
    · exact .inr ⟨rfl, close_ne _⟩
    · exact .inl ⟨by rw [hphase]; rfl, rfl⟩
    · intro hp _
      right
      apply coordinator_returned h (by rw [hphase]; rfl)
      cases late with
      | true  => cases ha hp
      | false => exact hover.resolve_left (by decide)
    · exact fun _ hcases => by cases hcases
    · exact fun _ => hpool (by rw [hphase]; intro hcases; cases hcases)
  | closeConsumer verdict hphase => exact closeConsumer_sound h hphase
  | joinConsumer late verdict hphase hover =>
    apply main_sound h
    · rw [hphase]; rfl
    · rw [hphase]; rfl
    · exact .inl ⟨by rw [hphase]; rfl, rfl⟩
    · exact .inr ⟨rfl, close_ne _⟩
    · exact fun _ _ => .inl (by rw [hphase]; rfl)
    · intro hp _
      right
      apply consumer_returned h (by rw [hphase]; rfl)
      cases late with
      | true  => cases ha hp
      | false => exact hover.resolve_left (by decide)
    · exact fun _ => hpool (by rw [hphase]; intro hcases; cases hcases)

end SmokeTest
end TransportSmoke
end CodedLLM
