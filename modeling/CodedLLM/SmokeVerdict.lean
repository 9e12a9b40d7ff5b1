import CodedLLM.Progress
import CodedLLM.SmokeDelivery
/-!
# SmokeVerdict — how the transport test ends

Every run comes to an end after a bounded number of steps.  Unless the deadline cuts the polling short it ends with a
pass, and unless a join times out both servers have then served every connection.  What the trace says about a request
depends only on the order in which its three shards arrived.
-/
namespace CodedLLM
namespace TransportSmoke

open Runs

namespace SmokeTest

/-- The deadline of the polling loop has not passed. -/
def Action.punctual : Action → Bool
  | .check true => false
  | _           => true

def Action.timely (a : Action) : Bool := a.punctual && a.patient

def verdictOf : MainPhase → Option Verdict
  | .waitingForPool | .polling => none
  | .closingCoordinator v | .joiningCoordinator v | .closingConsumer v | .joiningConsumer v | .done v => some v

theorem payloads_eq {W : Workload} {d : Payloads} (hsound : ∀ p b, d.lookup p = some b → W.expected.lookup p = some b)
    (hmem : ∀ r k, r < W.requests → k < 2 → (r, k) ∈ d) : d = W.expected := by
  apply Finmap.ext_lookup
  rintro ⟨r, k⟩
  by_cases h : r < W.requests ∧ k < 2
  · obtain ⟨b, hb⟩ := Finmap.mem_iff.1 (hmem r k h.1 h.2)
    rw [hb, hsound _ b hb]
  · have hnone := W.lookup_expected r k
    rw [if_neg h] at hnone
    rw [hnone]
    cases hd : d.lookup (r, k) with
    | none => rfl
    | some b =>
      have hb := hsound _ b hd
      rw [hnone] at hb
      cases hb

theorem run_sound_patient {W : Workload} (hfit : W.Fits) {as : List Action} {s : SmokeTest}
    (hrun : run (step W) init as = some s) (hp : ∀ a ∈ as, a.patient = true) : Sound W true s :=
  run_inv_along (step_sound hfit) as init s (init_sound W true) (along_of_forall as init (fun a ha _ => hp a ha)) hrun

theorem step_sound_any {W : Workload} (hfit : W.Fits) (s : SmokeTest) (a : Action) (s' : SmokeTest)
    (h : Sound W false s) (hs : step W s a = some s') : Sound W false s' :=
  step_sound hfit s a s' h (fun hcases => by cases hcases) hs

theorem run_sound_any {W : Workload} (hfit : W.Fits) {as : List Action} {s : SmokeTest}
    (hrun : run (step W) init as = some s) : Sound W false s :=
  run_inv (step_sound_any hfit) as init s (init_sound W false) hrun

theorem step_passed {W : Workload} (hfit : W.Fits) {s s' : SmokeTest} {a : Action} (h : Sound W false s)
    (hpass : verdictOf s.main = some .pass → s.payloads = W.expected) (hs : step W s a = some s') :
    verdictOf s'.main = some .pass → s'.payloads = W.expected := by
  have hsound := step_sound_any hfit s a s' h hs
  cases moved_of_step hs with
  | consumed wish wish' conn rest f hphase hinbox hread =>
    obtain ⟨_, _, _, -, -, hout, -⟩ := hsound
    intro hv
    apply payloads_eq hout.payloads
    intro r k hr hk
    apply Finmap.mem_insert.2
    right
    rw [hpass hv, Finmap.mem_iff]
    exact ⟨W.payload r k, by rw [W.lookup_expected, if_pos ⟨hr, hk⟩]⟩
  | joinPool hphase hall =>
    intro hv
    rw [(joinPool_spec hfit h hall).2] at hv
    cases hv
  | check late hphase hover =>
    intro hv
    by_contra hne
    change verdictOf (.closingCoordinator (if s.payloads ≠ W.expected then _ else _)) = _ at hv
    rw [if_pos hne] at hv
    cases hv
  | closeCoordinator verdict hphase => exact fun hv => hpass (by rw [hphase]; exact hv)
  | joinCoordinator late verdict hphase hover => exact fun hv => hpass (by rw [hphase]; exact hv)
  | closeConsumer verdict hphase => exact fun hv => hpass (by rw [hphase]; exact hv)
  | joinConsumer late verdict hphase hover => exact fun hv => hpass (by rw [hphase]; exact hv)
  | _ => exact hpass

theorem step_punctual {W : Workload} (hfit : W.Fits) {s s' : SmokeTest} {a : Action} (h : Sound W false s)
    (ha : a.punctual = true) (hv : ∀ e, verdictOf s.main ≠ some (.raised e)) (hs : step W s a = some s') :
    ∀ e, verdictOf s'.main ≠ some (.raised e) := by
  cases moved_of_step hs with
  | joinPool hphase hall =>
    intro e hcases
    rw [(joinPool_spec hfit h hall).2] at hcases
    cases hcases
  | check late hphase hover =>
    obtain ⟨_, _, _, -, -, hout, -⟩ := h
    have hcard : 2 * W.requests ≤ s.payloads.keys.card := by
      rcases hover with rfl | hcard
      · cases ha
      · exact hcard
    intro e hcases
    change verdictOf (.closingCoordinator (if s.payloads ≠ W.expected then _ else _)) = _ at hcases
    rw [if_neg (not_not.2 (W.eq_expected hout.payloads hcard))] at hcases
    cases hcases
  | closeCoordinator verdict hphase => exact fun e hcases => hv e (by rw [hphase]; exact hcases)
  | joinCoordinator late verdict hphase hover => exact fun e hcases => hv e (by rw [hphase]; exact hcases)
  | closeConsumer verdict hphase => exact fun e hcases => hv e (by rw [hphase]; exact hcases)
  | joinConsumer late verdict hphase hover => exact fun e hcases => hv e (by rw [hphase]; exact hcases)
  | _ => exact hv

/-! ## Where a run ends -/

theorem arrived_all {W : Workload} (hfit : W.Fits) {s : SmokeTest} {waiting : List (Nat × Nat)}
    (hin : Inbound W s waiting) (hempty : waiting = []) (hsent : ∀ p ∈ W.futures, s.tasks p = .sent) {r : Nat}
    (hr : r < W.requests) : (arrivals r (reported s)).Perm [0, 1, 2] := by
  have hnodup := hin.nodup
  have hiff := hin.sent
  rw [hempty, List.append_nil] at hnodup hiff
  apply (List.perm_ext_iff_of_nodup (nodup_arrivals hnodup r) (by decide)).2
  intro k
  rw [mem_arrivals, hiff]
  have hlist : k ∈ [0, 1, 2] ↔ k < 3 := by
    simp only [List.mem_cons, List.not_mem_nil, or_false]
    omega
  rw [hlist]
  constructor
  · intro hk
    have hmem := hin.started (r, k) (by rw [hk]; decide)
    exact (W.mem_futures.1 hmem).2.2
  · intro hk
    exact hsent (r, k) (W.mem_futures.2 ⟨hfit.drawn, hr, hk⟩)

theorem complete_of_perm {l : List Nat} (h : l.Perm [0, 1, 2]) : Workload.complete l = true := by
  rw [Workload.complete, decide_eq_true_iff, h.mem_iff, h.mem_iff, h.mem_iff]
  decide

theorem payloads_of_idle {W : Workload} (hfit : W.Fits) {s : SmokeTest} {waiting pairs late : List (Nat × Nat)}
    (hin : Inbound W s waiting) (hout : Outbound W s pairs late) (hempty : waiting = []) (hpairs : pairs = [])
    (hlate : late = []) (hsent : ∀ p ∈ W.futures, s.tasks p = .sent)
    (hidle : s.coordinator = .accepting ∨ s.coordinator = .returned) : s.payloads = W.expected := by
  apply payloads_eq hout.payloads
  intro r k hr hk
  rcases hout.delivered r k (complete_of_perm (arrived_all hfit hin hempty hsent hr)) hk with
    hd | hd | hd | ⟨chores, hchores, -⟩ | ⟨e, he⟩
  · exact hd
  · rw [hpairs] at hd
    cases hd
  · rw [hlate] at hd
    cases hd
  · rw [hchores] at hidle
    rcases hidle with hcases | hcases <;> cases hcases
  · rw [he] at hidle
    rcases hidle with hcases | hcases <;> cases hcases

theorem reported_idle {s : SmokeTest} (h : s.coordinator = .accepting ∨ s.coordinator = .returned) :
    reported s = s.events := by
  unfold reported
  rcases h with h | h
  · rw [h]
    exact List.append_nil _
  · rw [h]
    exact List.append_nil _

theorem done_spec {W : Workload} (hfit : W.Fits) {s : SmokeTest} (h : Sound W true s) {verdict : Verdict}
    (hdone : s.main = .done verdict) :
    s.coordinator = .returned ∧ s.consumer = .returned ∧ s.inbox = [] ∧ s.consumerInbox = [] ∧ s.payloads = W.expected ∧
      ∀ r, r < W.requests → (arrivals r s.events).Perm [0, 1, 2] := by
  obtain ⟨waiting, pairs, late, hin, hwork, hout, hclean⟩ := h
  obtain ⟨hcoord, hcons, hlate⟩ := hclean rfl
  have hret : s.coordinator = .returned := hcoord (by rw [hdone]; rfl)
  have hret' : s.consumer = .returned := hcons (by rw [hdone]; rfl)
  obtain ⟨-, hempty⟩ := hin.returned hret
  obtain ⟨-, hpairs⟩ := hout.returned hret'
  have hsent := hin.pool (by rw [hdone]; intro hcases; cases hcases)
  refine ⟨hret, hret', ?_, ?_, payloads_of_idle hfit hin hout hempty hpairs hlate hsent (.inr hret), ?_⟩
  · rw [hin.inbox, hempty, hret, decide_eq_true rfl]
    simp [closing]
  · rw [hout.inbox, hpairs, hlate, hret', decide_eq_true rfl]
    simp [closing]
  · intro r hr
    rw [← reported_idle (.inr hret)]
    exact arrived_all hfit hin hempty hsent hr

theorem not_failed {W : Workload} {s : SmokeTest} (h : Sound W true s) :
    (∀ e, s.coordinator ≠ .failed e) ∧ ∀ e, s.consumer ≠ .failed e := by
  have hret := coordinator_returned h
  have hret' := consumer_returned h
  obtain ⟨_, _, _, -, -, -, hclean⟩ := h
  obtain ⟨hcoord, hcons, -⟩ := hclean rfl
  constructor
  · intro e he
    have hreturned : s.coordinator = .returned := by
      cases hjoined : coordinatorJoined s.main with
      | true  => exact hcoord hjoined
      | false => exact hret hjoined (by rw [he]; rfl)
    rw [he] at hreturned
    cases hreturned
  · intro e he
    have hreturned : s.consumer = .returned := by
      cases hjoined : consumerJoined s.main with
      | true  => exact hcons hjoined
      | false => exact hret' hjoined (by rw [he]; rfl)
    rw [he] at hreturned
    cases hreturned

theorem settled_coordinator {W : Workload} {s : SmokeTest} (hset : Settled (step W) Action.timely s) :
    (s.coordinator = .accepting ∧ s.inbox = []) ∨ coordinatorEnded s.coordinator = true := by
  have hcut := hset .failCoordinator rfl
  cases hphase : s.coordinator with
  | accepting =>
    cases hinbox : s.inbox with
    | nil => exact .inl ⟨rfl, rfl⟩
    | cons conn rest =>
      have hserve := hset (.serve id id) rfl
      by_cases hclosed : s.listener = .closed
      · have hne : coordinatorCut s = true := by
          rw [coordinatorCut, hphase, hclosed]
          rfl
        rw [step, if_pos hne] at hcut
        cases hcut
      · simp only [step, if_neg hclosed, hphase, hinbox] at hserve
        split at hserve <;> cases hserve
  | working chores =>
    have hwork := hset .work rfl
    simp only [step, hphase] at hwork
    cases chores with
    | nil => cases hwork
    | cons chore rest =>
      cases chore with
      | report e => cases hwork
      | raise e => cases hwork
      | handOn request shard payload =>
        by_cases hclosed : s.consumerListener = .closed
        · have hne : coordinatorCut s = true := by
            rw [coordinatorCut, hphase, hclosed]
            rfl
          rw [step, if_pos hne] at hcut
          cases hcut
        · simp only [if_neg hclosed] at hwork
          cases hwork
  | returned => exact .inr rfl
  | failed e => exact .inr rfl

theorem settled_consumer {W : Workload} {s : SmokeTest} (hset : Settled (step W) Action.timely s) :
    (s.consumer = .accepting ∧ s.consumerInbox = []) ∨ consumerEnded s.consumer = true := by
  cases hphase : s.consumer with
  | accepting =>
    cases hinbox : s.consumerInbox with
    | nil => exact .inl ⟨rfl, rfl⟩
    | cons conn rest =>
      have hconsume := hset (.consume id id) rfl
      by_cases hclosed : s.consumerListener = .closed
      · have hfail := hset .failConsumer rfl
        rw [step, if_pos ⟨hphase, by rw [hclosed]; decide⟩] at hfail
        cases hfail
      · simp only [step, if_neg hclosed, hphase, hinbox] at hconsume
        split at hconsume <;> cases hconsume
  | returned => exact .inr rfl
  | failed e => exact .inr rfl

theorem settled_tasks {W : Workload} {s : SmokeTest} (hset : Settled (step W) Action.timely s) {p : Nat × Nat}
    (hp : p ∈ W.futures) : finished (s.tasks p) = true := by
  cases hphase : s.tasks p with
  | ready =>
    have hannounce := hset (.announce p) rfl
    rw [step, if_pos ⟨hp, hphase⟩] at hannounce
    split at hannounce <;> cases hannounce
  | announced =>
    have hconnect := hset (.connect p) rfl
    rw [step, if_pos hphase] at hconnect
    cases hconnect
  | sent => rfl
  | failed e => rfl

theorem not_polling_of_settled {W : Workload} (hfit : W.Fits) {s : SmokeTest} (h : Sound W false s)
    (hset : Settled (step W) Action.timely s) : s.main ≠ .polling := by
  intro hmain
  have hcoord := settled_coordinator hset
  have hcons := settled_consumer hset
  have hret := coordinator_returned h (by rw [hmain]; rfl)
  have hret' := consumer_returned h (by rw [hmain]; rfl)
  obtain ⟨waiting, pairs, late, hin, hwork, hout, -⟩ := h
  have hsent := hin.pool (by rw [hmain]; decide)
  obtain ⟨hphase, hinbox⟩ : s.coordinator = .accepting ∧ s.inbox = [] := by
    apply hcoord.resolve_right
    intro hended
    have hclosed := (hin.returned (hret hended)).1
    rw [hmain] at hclosed
    cases hclosed
  obtain ⟨-, hempty⟩ : s.consumer = .accepting ∧ s.consumerInbox = [] := by
    apply hcons.resolve_right
    intro hended
    have hclosed := (hout.returned (hret' hended)).1
    rw [hmain] at hclosed
    cases hclosed
  rw [hin.inbox] at hinbox
  rw [hout.inbox] at hempty
  have heq : s.payloads = W.expected := by
    apply payloads_of_idle hfit hin hout _ _ (hout.onTime (by rw [hmain]; rfl)) hsent (.inl hphase)
    · exact List.map_eq_nil_iff.1 (List.append_eq_nil_iff.1 hinbox).1
    · exact List.map_eq_nil_iff.1 (List.append_eq_nil_iff.1 hempty).1
  have hcard : 2 * W.requests ≤ s.payloads.keys.card := by
    rw [heq, W.keys_expected, Finset.card_product, Finset.card_range, Finset.card_range, Nat.mul_comm]
  have hcheck := hset (.check false) rfl
  rw [step, if_pos ⟨hmain, .inr hcard⟩] at hcheck
  cases hcheck

/-- **Where no thread can move the test is over.** -/
theorem settled_done {W : Workload} (hfit : W.Fits) {s : SmokeTest} (h : Sound W false s)
    (hset : Settled (step W) Action.timely s) : ∃ verdict, s.main = .done verdict := by
  have hpolling := not_polling_of_settled hfit h hset
  have hcoord := settled_coordinator hset
  have hcons := settled_consumer hset
  obtain ⟨waiting, pairs, late, hin, hwork, hout, -⟩ := h
  cases hmain : s.main with
  | waitingForPool =>
    have hall : W.futures.all (fun p => finished (s.tasks p)) = true :=
      List.all_eq_true.2 (fun p hp => settled_tasks hset hp)
    have hjoin := hset .joinPool rfl
    rw [step, if_pos ⟨hmain, hall⟩] at hjoin
    cases hjoin
  | polling => exact absurd hmain hpolling
  | closingCoordinator verdict =>
    have hclose := hset .closeCoordinator rfl
    rw [step, hmain] at hclose
    cases hclose
  | joiningCoordinator verdict =>
    have hjoin := hset (.joinCoordinator false) rfl
    rcases hcoord with ⟨hphase, hinbox⟩ | hended
    · rw [hin.inbox, hmain, hphase] at hinbox
      have hclosing := (List.append_eq_nil_iff.1 hinbox).2
      cases hclosing
    · simp only [step, hmain, if_pos (Or.inr hended)] at hjoin
      cases hjoin
  | closingConsumer verdict =>
    have hclose := hset .closeConsumer rfl
    rw [step, hmain] at hclose
    cases hclose
  | joiningConsumer verdict =>
    have hjoin := hset (.joinConsumer false) rfl
    rcases hcons with ⟨hphase, hinbox⟩ | hended
    · rw [hout.inbox, hmain, hphase] at hinbox
      have hclosing := (List.append_eq_nil_iff.1 (List.append_eq_nil_iff.1 hinbox).2).1
      cases hclosing
    · simp only [step, hmain, if_pos (Or.inr hended)] at hjoin
      cases hjoin
  | done verdict => exact ⟨verdict, rfl⟩

/-! ## The results -/

/-- Two requests of one byte a shard; the shards of the first arrive as 2, 0, 1 and those of the second as 1, 2, 0. -/
def twoRequests : Workload where
  requests := 2
  shardBytes := 1
  left := fun r => [UInt8.ofNat (5 + r)]
  right := fun _ => [3]
  randbytes := none
  sleep := fun _ => none
  positive := by decide
  length_left := fun _ => rfl
  length_right := fun _ => rfl
  randbytes_small := fun _ => rfl

theorem twoRequests_fits : twoRequests.Fits := ⟨by decide, by decide, rfl, fun _ _ => rfl⟩

def passingRun : List Action :=
  let send (task : Nat × Nat) : List Action := [.announce task, .connect task]
  let serve (chores : Nat) : List Action := .serve (fun _ => 1) (fun _ => 5) :: List.replicate (chores + 1) .work
  let consume : Action := .consume (fun _ => 2) (fun _ => 0)
  [.announce (1, 0)] ++ send (0, 2) ++ send (1, 1) ++ send (0, 0) ++ serve 1 ++ serve 1 ++ serve 6 ++ [consume] ++
    send (0, 1) ++ send (1, 2) ++ [.connect (1, 0), .joinPool] ++ serve 4 ++ [consume] ++ serve 1 ++ serve 4 ++
    [consume, consume, consume, consume, .check false, .closeCoordinator, .serve id id, .joinCoordinator false,
      .closeConsumer, consume, .joinConsumer false]

theorem exists_run {W : Workload} (as : List Action) (P : SmokeTest → Bool) (h : (run (step W) init as).any P = true) :
    ∃ s, run (step W) init as = some s ∧ P s = true := by
  cases hrun : run (step W) init as with
  | none => rw [hrun] at h; cases h
  | some s =>
    rw [hrun] at h
    exact ⟨s, rfl, h⟩

/-- **Nothing wrong reaches the consumer.**  In every order of the threads, also when the deadline cuts the polling
short and joins time out: no task fails, a server fails only where a join has timed out, every payload at the consumer
is the one that was drawn for its request and shard, and a test that is about to pass has all of them.  A test that is
over with no join timed out has served every connection and delivered everything. -/
theorem nothing_wrong_delivered (W : Workload) (hfit : W.Fits) (as : List Action) (s : SmokeTest)
    (hrun : run (step W) init as = some s) :
    (∀ p e, s.tasks p ≠ .failed e) ∧
    (∀ e, s.coordinator = .failed e ∨ s.consumer = .failed e → e = .osError ∧ ∃ a ∈ as, a.patient = false) ∧
    (∀ p b, s.payloads.lookup p = some b → W.expected.lookup p = some b) ∧
    (verdictOf s.main = some .pass → s.payloads = W.expected) ∧
    ((∀ a ∈ as, a.patient = true) → ∀ verdict, s.main = .done verdict →
      s.coordinator = .returned ∧ s.consumer = .returned ∧ s.inbox = [] ∧ s.consumerInbox = [] ∧
        s.payloads = W.expected) := by
  have h := run_sound_any hfit hrun
  have hpass : Sound W false s ∧ (verdictOf s.main = some .pass → s.payloads = W.expected) :=
    run_inv (I := fun s => Sound W false s ∧ (verdictOf s.main = some .pass → s.payloads = W.expected))
      (fun s a s' hs hstep => ⟨step_sound_any hfit s a s' hs.1 hstep, step_passed hfit hs.1 hs.2 hstep⟩) as init s
      ⟨init_sound W false, fun hv => by cases hv⟩ hrun
  obtain ⟨_, _, _, hin, hwork, hout, -⟩ := h
  refine ⟨hin.intact, fun e he => ⟨?_, ?_⟩, hout.payloads, hpass.2, ?_⟩
  · exact he.elim (fun he => (hwork.intact e he).1) (fun he => (hout.intact e he).1)
  · by_contra hnone
    have hp : ∀ a ∈ as, a.patient = true := by
      intro a ha
      rw [← Bool.not_eq_false]
      exact fun hnot => hnone ⟨a, ha, hnot⟩
    obtain ⟨hcoord, hcons⟩ := not_failed (run_sound_patient hfit hrun hp)
    exact he.elim (hcoord e) (hcons e)
  · intro hp verdict hdone
    obtain ⟨hret, hret', hinbox, hinbox', heq, -⟩ := done_spec hfit (run_sound_patient hfit hrun hp) hdone
    exact ⟨hret, hret', hinbox, hinbox', heq⟩

theorem nothing_wrong_delivered_passingRun : ∃ s, run (step twoRequests) init passingRun = some s ∧
    s.main = .done .pass ∧ s.payloads = twoRequests.expected ∧ s.inbox = [] := by
  obtain ⟨s, hrun, hdone⟩ := exists_run (W := twoRequests) passingRun (fun s => decide (s.main = .done .pass))
      (by decide +kernel)
  have hmain : s.main = .done .pass := of_decide_eq_true hdone
  obtain ⟨-, -, -, -, hover⟩ := nothing_wrong_delivered twoRequests twoRequests_fits passingRun s hrun
  obtain ⟨-, -, hinbox, -, heq⟩ := hover (by decide) .pass hmain
  exact ⟨s, hrun, hmain, heq, hinbox⟩

/-- A deadline and a join that pass too early leave connections behind, and the coordinator fails. -/
example : (run (step twoRequests) init ([(0, 0), (0, 1), (0, 2), (1, 0), (1, 1), (1, 2)].flatMap
    (fun task => [Action.announce task, .connect task]) ++ [.joinPool, .check true, .closeCoordinator,
      .joinCoordinator true, .serve id id, .work, .work, .failCoordinator])).any
    (fun s => s.coordinator = .failed .osError && s.inbox.length = 6) = true := by
  decide +kernel

/-- What a task that has come so far, or a main thread that is about to pass, says about the workload. -/
structure Sendable (W : Workload) (s : SmokeTest) : Prop where
  started : ∀ p, s.tasks p ≠ .ready → p ∈ W.futures
  slept : ∀ p, s.tasks p = .announced ∨ s.tasks p = .sent → W.sleep p = none
  fits : ∀ p, s.tasks p = .sent → Header.Fits ⟨p.1, p.2, 0, (W.payload p.1 p.2).length⟩
  pool : s.main = .polling ∨ verdictOf s.main = some .pass →
    W.randbytes = none ∧ ∀ p ∈ W.futures, s.tasks p = .sent

theorem connection_none {request shard flags : Nat} {payload : List UInt8}
    (h : (connection request shard flags payload).2 = none) : Header.Fits ⟨request, shard, flags, payload.length⟩ := by
  by_contra hnot
  rw [connection, sendFrame_error hnot] at h
  cases h

theorem Sendable.task {W : Workload} {s s' : SmokeTest} (h : Sendable W s) {task : Nat × Nat} {phase : TaskPhase}
    (hmem : task ∈ W.futures) (hne : s.tasks task ≠ .sent) (htasks : s'.tasks = Function.update s.tasks task phase)
    (hmain : s'.main = s.main) (hslept : phase = .announced ∨ phase = .sent → W.sleep task = none)
    (hfits : phase = .sent → Header.Fits ⟨task.1, task.2, 0, (W.payload task.1 task.2).length⟩) : Sendable W s' := by
  have hself : s'.tasks task = phase := by rw [htasks, Function.update_self]
  have hother : ∀ p, p ≠ task → s'.tasks p = s.tasks p := by
    intro p hp
    rw [htasks, Function.update_of_ne hp]
  refine ⟨?_, ?_, ?_, ?_⟩
  · intro p hp
    by_cases heq : p = task
    · rw [heq]
      exact hmem
    · rw [hother p heq] at hp
      exact h.started p hp
  · intro p hp
    by_cases heq : p = task
    · rw [heq, hself] at hp
      rw [heq]
      exact hslept hp
    · rw [hother p heq] at hp
      exact h.slept p hp
  · intro p hp
    by_cases heq : p = task
    · rw [heq, hself] at hp
      rw [heq]
      exact hfits hp
    · rw [hother p heq] at hp
      exact h.fits p hp
  · -- where everything is sent no task moves
    intro hpool
    rw [hmain] at hpool
    exact absurd ((h.pool hpool).2 task hmem) hne

theorem Sendable.verdict {W : Workload} {s s' : SmokeTest} (h : Sendable W s) (htasks : s'.tasks = s.tasks)
    (hne : s'.main ≠ .polling) (hmain : verdictOf s'.main = verdictOf s.main) : Sendable W s' := by
  refine ⟨?_, ?_, ?_, fun hpool => ?_⟩
  · rw [htasks]
    exact h.started
  · rw [htasks]
    exact h.slept
  · rw [htasks]
    exact h.fits
  · rw [htasks]
    apply h.pool
    rw [← hmain]
    exact .inr (hpool.resolve_left hne)

theorem sent_of_pool {W : Workload} {s : SmokeTest} (hall : W.futures.all (fun p => finished (s.tasks p)) = true)
    (hpool : poolFailure W s = none) : W.randbytes = none ∧ ∀ p ∈ W.futures, s.tasks p = .sent := by
  unfold poolFailure at hpool
  split at hpool
  · cases hpool
  rename_i hdrawn
  refine ⟨hdrawn, fun p hp => ?_⟩
  have hfin := List.all_eq_true.1 hall p hp
  have hnone := List.findSome?_eq_none_iff.1 hpool p hp
  cases htask : s.tasks p with
  | sent => rfl
  | ready =>
    rw [htask] at hfin
    cases hfin
  | announced =>
    rw [htask] at hfin
    cases hfin
  | failed e =>
    rw [htask] at hnone
    cases hnone

theorem step_sendable {W : Workload} (s : SmokeTest) (a : Action) (s' : SmokeTest) (h : Sendable W s)
    (hs : step W s a = some s') : Sendable W s' := by
  cases moved_of_step hs with
  | announce task hmem hready hsleep =>
    refine h.task hmem ?_ rfl rfl (fun _ => hsleep) ?_
    · rw [hready]
      decide
    · intro hsent
      cases hsent
  | overslept task e hmem hready hsleep =>
    refine h.task hmem ?_ rfl rfl ?_ ?_
    · rw [hready]
      decide
    · rintro (hcases | hcases) <;> cases hcases
    · intro hsent
      cases hsent
  | connect task hphase =>
    have hmem : task ∈ W.futures := h.started task (by rw [hphase]; decide)
    refine h.task hmem ?_ rfl rfl (fun _ => h.slept task (.inl hphase)) ?_
    · rw [hphase]
      decide
    · intro hsent
      apply connection_none
      cases hnone : (connection task.1 task.2 0 (W.payload task.1 task.2)).2 with
      | none => rfl
      | some e =>
        rw [hnone] at hsent
        cases hsent
  | joinPool hphase hall =>
    refine { h with pool := ?_ }
    intro hmain
    cases hpool : poolFailure W s with
    | some e =>
      rw [hpool] at hmain
      rcases hmain with hmain | hmain <;> cases hmain
    | none => exact sent_of_pool hall hpool
  | check late hphase hover => exact { h with pool := fun _ => h.pool (.inl hphase) }
  | closeCoordinator verdict hphase => exact h.verdict rfl (fun hcases => by cases hcases) (by rw [hphase]; rfl)
  | joinCoordinator late verdict hphase hover =>
    exact h.verdict rfl (fun hcases => by cases hcases) (by rw [hphase]; rfl)
  | closeConsumer verdict hphase => exact h.verdict rfl (fun hcases => by cases hcases) (by rw [hphase]; rfl)
  | joinConsumer late verdict hphase hover =>
    exact h.verdict rfl (fun hcases => by cases hcases) (by rw [hphase]; rfl)
  | _ => exact { h with }

theorem run_sendable {W : Workload} {as : List Action} {s : SmokeTest} (hrun : run (step W) init as = some s) :
    Sendable W s := by
  apply run_inv step_sendable as init s _ hrun
  refine ⟨fun p h => absurd rfl h, fun p h => ?_, fun p h => ?_, fun h => ?_⟩
  · rcases h with h | h <;> cases h
  · cases h
  · rcases h with h | h <;> cases h

theorem fits_of_passed {W : Workload} {s : SmokeTest} (h : Sendable W s) (hdone : s.main = .done .pass) : W.Fits := by
  have hpos := W.positive.1
  obtain ⟨hdrawn, hsent⟩ := h.pool (.inr (by rw [hdone]; rfl))
  have hmem : (W.requests - 1, 0) ∈ W.futures :=
    W.mem_futures.2 ⟨hdrawn, Nat.sub_lt hpos Nat.one_pos, Nat.zero_lt_succ 2⟩
  obtain ⟨hrequest, -, -, hsize⟩ := h.fits _ (hsent _ hmem)
  rw [W.length_payload] at hsize
  refine ⟨?_, hsize, hdrawn, fun task htask => h.slept task (.inr (hsent task htask))⟩
  simp only at hrequest
  omega

theorem run_length {W : Workload} {as : List Action} {s : SmokeTest} (hrun : run (step W) init as = some s) :
    as.length ≤ 36 * W.requests + 19 := by
  have hcost : rank W s + (as.map (fun _ => 1)).sum ≤ rank W init + (as.map (fun _ => 0)).sum := by
    refine run_cost step_sendable (fun s a s' h (_ : True) hs => ?_) as init s (fun _ _ => trivial)
      (run_sendable (run_nil _)) hrun
    exact step_rank h.started hs
  have hinit := rank_init W
  simp only [List.map_const', List.sum_replicate, smul_eq_mul, mul_one, mul_zero] at hcost
  omega

theorem settles {W : Workload} {s : SmokeTest} (h : Sendable W s) :
    ∃ bs t, (∀ b ∈ bs, b.timely = true) ∧ run (step W) s bs = some t ∧ Settled (step W) Action.timely t := by
  obtain ⟨bs, t, hbs, hrun, -, hset⟩ :=
    exists_settled Action.timely step_sendable (fun s a s' hs _ hstep => step_rank hs.started hstep) _ s rfl h
  exact ⟨bs, t, hbs, hrun, hset⟩

theorem settled_passed {W : Workload} (hfit : W.Fits) {as : List Action} {s : SmokeTest}
    (hrun : run (step W) init as = some s) (hset : Settled (step W) Action.timely s) :
    ∃ verdict, s.main = .done verdict ∧ ((∀ a ∈ as, a.punctual = true) → verdict = .pass) := by
  obtain ⟨verdict, hdone⟩ := settled_done hfit (run_sound_any hfit hrun) hset
  refine ⟨verdict, hdone, fun hpunctual => ?_⟩
  have hnever : Sound W false s ∧ ∀ e, verdictOf s.main ≠ some (.raised e) :=
    run_inv_along (I := fun s => Sound W false s ∧ ∀ e, verdictOf s.main ≠ some (.raised e))
      (P := fun _ a => a.punctual = true)
      (fun s a s' hs ha hstep => ⟨step_sound_any hfit s a s' hs.1 hstep, step_punctual hfit hs.1 ha hs.2 hstep⟩) as
      init s ⟨init_sound W false, fun e hcases => by cases hcases⟩ (along_of_forall as init hpunctual) hrun
  cases verdict with
  | pass => rfl
  | raised e => exact absurd (by rw [hdone]; rfl) (hnever.2 e)

/-- **The transport test ends, and it passes if nothing is out of range.**  A run of any workload takes at most
`36 * requests + 19` steps.  Every run can go on, with no deadline and no join timing out, until no thread can move;
there `main` has come to its end, and it has passed unless the deadline has cut the polling short.  A run that passes
exists exactly if the workload fits. -/
theorem smoke_test_passes (W : Workload) :
    (∀ as s, run (step W) init as = some s → as.length ≤ 36 * W.requests + 19 ∧
      ∃ bs t, (∀ b ∈ bs, b.timely = true) ∧ run (step W) s bs = some t ∧ Settled (step W) Action.timely t) ∧
    (W.Fits → ∀ as s, run (step W) init as = some s → Settled (step W) Action.timely s →
      ∃ verdict, s.main = .done verdict ∧ ((∀ a ∈ as, a.punctual = true) → verdict = .pass)) ∧
    ((∃ as s, run (step W) init as = some s ∧ s.main = .done .pass) ↔ W.Fits) := by
  refine ⟨fun as s hrun => ⟨run_length hrun, settles (run_sendable hrun)⟩,
    fun hfit as s hrun hset => settled_passed hfit hrun hset, ?_, ?_⟩
  · rintro ⟨as, s, hrun, hdone⟩
    exact fits_of_passed (run_sendable hrun) hdone
  · intro hfit
    obtain ⟨as, s, htimely, hrun, hset⟩ := settles (@run_sendable W [] init rfl)
    obtain ⟨verdict, hdone, hpass⟩ := settled_passed hfit hrun hset
    rw [hpass (fun a ha => (Bool.and_eq_true_iff.1 (htimely a ha)).1)] at hdone
    exact ⟨as, s, hrun, hdone⟩

theorem smoke_test_passes_twoRequests :
    (∃ as s, run (step twoRequests) init as = some s ∧ s.main = .done .pass) ∧
    ∃ s, run (step twoRequests) init passingRun = some s ∧ passingRun.length ≤ 36 * 2 + 19 := by
  obtain ⟨hruns, -, hfits⟩ := smoke_test_passes twoRequests
  obtain ⟨s, hrun, -⟩ := exists_run (W := twoRequests) passingRun (fun _ => true) (by decide +kernel)
  exact ⟨hfits.2 twoRequests_fits, s, hrun, (hruns passingRun s hrun).1⟩

theorem count_traceFrom (W : Workload) (r : Nat) {l : List Nat} (h : l.Perm [0, 1, 2]) :
    (W.traceFrom r [] l).countP (fun e => e.kind = .recoveryComplete) = (if l.getLast? = some 1 then 1 else 0) ∧
    (W.traceFrom r [] l).countP (fun e => e.kind = .consumerReady) = (if l.getLast? = some 0 then 1 else 2) := by
  have horders : l ∈ [[0, 1, 2], [1, 0, 2], [1, 2, 0], [0, 2, 1], [2, 0, 1], [2, 1, 0]] := List.mem_permutations'.2 h
  simp only [List.mem_cons, List.not_mem_nil, or_false] at horders
  rcases horders with rfl | rfl | rfl | rfl | rfl | rfl <;> exact ⟨rfl, rfl⟩

theorem Working.trace_idle {W : Workload} {s : SmokeTest} (h : Working W s)
    (hidle : s.coordinator = .accepting ∨ s.coordinator = .returned) (r : Nat) :
    coordinatorEvents r s.events = W.traceFrom r [] (arrivals r s.events) := by
  obtain ⟨lost, htrace, hlost⟩ := h.trace r
  have hnone : lost = [] := by
    by_contra hne
    obtain ⟨e, he⟩ := hlost hne
    rw [he] at hidle
    rcases hidle with hcases | hcases <;> cases hcases
  rwa [hnone, List.append_nil, reported_idle hidle] at htrace

/-- **The order of arrival decides the trace.**  Whatever the other requests do meanwhile, what the coordinator
reports about a request is a beginning of what it reports about the shards of that request alone, in the order in
which they arrive, and all of it where the coordinator waits for a connection.  Once the test is over with no join
timed out all three shards have arrived; shard 1 was recovered exactly if it came last, and the request was reported
ready once if shard 0 came last and twice otherwise. -/
theorem arrival_order_decides (W : Workload) (hfit : W.Fits) (as : List Action) (s : SmokeTest)
    (hrun : run (step W) init as = some s) (r : Nat) (hr : r < W.requests) :
    (∃ order, order.Nodup ∧ arrivals r s.events <+: order ∧ coordinatorEvents r s.events <+: W.traceFrom r [] order) ∧
    (s.coordinator = .accepting ∨ s.coordinator = .returned →
      coordinatorEvents r s.events = W.traceFrom r [] (arrivals r s.events)) ∧
    ((∀ a ∈ as, a.patient = true) → ∀ verdict, s.main = .done verdict →
      (arrivals r s.events).Perm [0, 1, 2] ∧
      (coordinatorEvents r s.events).countP (fun e => e.kind = .recoveryComplete) =
        (if (arrivals r s.events).getLast? = some 1 then 1 else 0) ∧
      (coordinatorEvents r s.events).countP (fun e => e.kind = .consumerReady) =
        (if (arrivals r s.events).getLast? = some 0 then 1 else 2)) := by
  obtain ⟨_, _, _, hin, hwork, -, -⟩ := run_sound_any hfit hrun
  refine ⟨⟨arrivals r (reported s), ?_, ?_, ?_⟩, fun hidle => hwork.trace_idle hidle r, ?_⟩
  · exact nodup_arrivals (List.nodup_append.1 hin.nodup).1 r
  · rw [reported, arrivals_append]
    exact List.prefix_append ..
  · obtain ⟨lost, htrace, -⟩ := hwork.trace r
    rw [← htrace, reported, coordinatorEvents_append, List.append_assoc]
    exact List.prefix_append ..
  · intro hp verdict hdone
    obtain ⟨hret, -, -, -, -, hperm⟩ := done_spec hfit (run_sound_patient hfit hrun hp) hdone
    rw [hwork.trace_idle (.inr hret)]
    exact ⟨hperm r hr, count_traceFrom W r (hperm r hr)⟩

theorem arrival_order_decides_passingRun : ∃ s, run (step twoRequests) init passingRun = some s ∧
    arrivals 0 s.events = [2, 0, 1] ∧ (coordinatorEvents 0 s.events).countP (fun e => e.kind = .recoveryComplete) = 1 ∧
    (coordinatorEvents 0 s.events).countP (fun e => e.kind = .consumerReady) = 2 := by
  obtain ⟨s, hrun, hs⟩ := exists_run (W := twoRequests) passingRun
    (fun s => decide (s.main = .done .pass ∧ arrivals 0 s.events = [2, 0, 1])) (by decide +kernel)
  obtain ⟨hmain, horder⟩ := of_decide_eq_true hs
  obtain ⟨-, -, hover⟩ := arrival_order_decides twoRequests twoRequests_fits passingRun s hrun 0 (by decide)
  obtain ⟨-, hrecovered, hready⟩ := hover (by decide) .pass hmain
  rw [horder] at hrecovered hready
  exact ⟨s, hrun, horder, hrecovered, hready⟩

end SmokeTest
end TransportSmoke
end CodedLLM
