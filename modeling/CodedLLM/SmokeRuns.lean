import CodedLLM.Progress
import CodedLLM.SmokeTest
/-!
# SmokeRuns — every order of the threads of the transport test

What one step of one thread does (`Moved`), a rank that every step lowers, and what the coordinator owes a request whose
shards have arrived in a certain order: its slots (`slotsOf`) and the events it leaves (`traceFrom`).
-/
namespace CodedLLM
namespace TransportSmoke

open Runs

/-! ## Workloads -/

namespace Workload

variable (W : Workload)

theorem futures_eq (h : W.randbytes = none) :
    W.futures = (List.range W.requests).flatMap (fun r => [(r, 0), (r, 2), (r, 1)]) := by
  rw [futures, h]
  rfl

theorem mem_futures {p : Nat × Nat} : p ∈ W.futures ↔ W.randbytes = none ∧ p.1 < W.requests ∧ p.2 < 3 := by
  obtain ⟨r, k⟩ := p
  cases hdrawn : W.randbytes with
  | some e =>
    rw [futures, hdrawn]
    simp
  | none =>
    rw [W.futures_eq hdrawn]
    simp only [List.mem_flatMap, List.mem_range, List.mem_cons, Prod.mk.injEq, List.not_mem_nil, or_false, true_and]
    constructor
    · rintro ⟨a, ha, ⟨rfl, rfl⟩ | ⟨rfl, rfl⟩ | ⟨rfl, rfl⟩⟩ <;> exact ⟨ha, by decide⟩
    · rintro ⟨hr, hk⟩
      refine ⟨r, hr, ?_⟩
      omega

theorem length_futures : W.futures.length ≤ 3 * W.requests := by
  cases hdrawn : W.randbytes with
  | some e =>
    rw [futures, hdrawn]
    exact Nat.zero_le _
  | none =>
    rw [W.futures_eq hdrawn, List.length_flatMap]
    simp [Nat.mul_comm]

theorem length_payload (r k : Nat) : (W.payload r k).length = W.shardBytes := by
  match k with
  | 0     => exact W.length_left r
  | 1     => exact W.length_right r
  | _ + 2 => exact XorWords.length_combine (W.length_left r) (W.length_right r)

/-- **Nothing that a test is asked for is out of range**: the request numbers and the byte count fit their fields of
the header, the shards can be drawn, and every task can sleep for its delay. -/
structure Fits : Prop where
  requests_le : W.requests ≤ 2 ^ 32
  shardBytes_lt : W.shardBytes < 2 ^ 32
  drawn : W.randbytes = none
  slept : ∀ task ∈ W.futures, W.sleep task = none

theorem lookup_expected (r k : Nat) :
    W.expected.lookup (r, k) = if r < W.requests ∧ k < 2 then some (W.payload r k) else none := by
  have hfold :
      ∀ n, ((List.range n).foldl (fun (d : Payloads) r => (d.insert (r, 0) (W.left r)).insert (r, 1) (W.right r))
      ∅).lookup (r, k) = if r < n ∧ k < 2 then some (W.payload r k) else none := by
    intro n
    induction n with
    | zero => rw [if_neg (by omega)]; rfl
    | succ n ih =>
      rw [List.range_succ, List.foldl_append, List.foldl_cons, List.foldl_nil]
      by_cases h1 : (r, k) = (n, 1)
      · obtain ⟨rfl, rfl⟩ := Prod.mk.inj h1
        rw [Finmap.lookup_insert, if_pos (by omega)]
        rfl
      · rw [Finmap.lookup_insert_of_ne _ h1]
        by_cases h0 : (r, k) = (n, 0)
        · obtain ⟨rfl, rfl⟩ := Prod.mk.inj h0
          rw [Finmap.lookup_insert, if_pos (by omega)]
          rfl
        · rw [Finmap.lookup_insert_of_ne _ h0, ih]
          rw [Prod.mk.injEq] at h0 h1
          have hiff : (r < n ∧ k < 2) ↔ (r < n + 1 ∧ k < 2) := by omega
          simp only [hiff]
  exact hfold W.requests

theorem keys_expected : W.expected.keys = Finset.range W.requests ×ˢ Finset.range 2 := by
  ext ⟨r, k⟩
  rw [Finmap.mem_keys, Finmap.mem_iff, Finset.mem_product, Finset.mem_range, Finset.mem_range]
  simp only [lookup_expected]
  by_cases h : r < W.requests ∧ k < 2
  · simp only [h, and_self, if_true, Option.some.injEq, exists_eq']
  · simp only [h, if_false, reduceCtorEq, exists_false]

theorem eq_expected {d : Payloads} (hsound : ∀ p b, d.lookup p = some b → W.expected.lookup p = some b)
    (hcard : 2 * W.requests ≤ d.keys.card) : d = W.expected := by
  have hsub : d.keys ⊆ W.expected.keys := by
    intro p hp
    rw [Finmap.mem_keys, Finmap.mem_iff] at hp ⊢
    obtain ⟨b, hb⟩ := hp
    exact ⟨b, hsound p b hb⟩
  have heq : d.keys = W.expected.keys := by
    apply Finset.eq_of_subset_of_card_le hsub
    rw [keys_expected, Finset.card_product, Finset.card_range, Finset.card_range]
    omega
  apply Finmap.ext_lookup
  intro p
  cases hp : d.lookup p with
  | some b => exact (hsound p b hp).symm
  | none =>
    rw [Finmap.lookup_eq_none, ← Finmap.mem_keys, heq, Finmap.mem_keys, ← Finmap.lookup_eq_none] at hp
    exact hp.symm

/-! ## What the arrivals of one request determine -/

def slotsOf (r : Nat) (l : List Nat) : Slots :=
  fun k => if k ∈ l ∨ (k = 1 ∧ 0 ∈ l ∧ 2 ∈ l) then some (W.payload r k) else none

def recovers (l : List Nat) : Bool := decide (0 ∈ l ∧ 2 ∈ l ∧ 1 ∉ l)

def complete (l : List Nat) : Bool := decide (0 ∈ l ∧ (1 ∈ l ∨ 2 ∈ l))

/-- What the arrival of one shard leaves in the events, after the shards `before`. -/
def reaction (r : Nat) (before : List Nat) (shard : Nat) : List Event :=
  ⟨r, .shardArrival, shard, W.shardBytes⟩ ::
    ((if recovers (before ++ [shard]) then [⟨r, .planningStart, -1, 0⟩, ⟨r, .recoveryComplete, 1, W.shardBytes⟩]
      else []) ++ (if complete (before ++ [shard]) then [⟨r, .consumerReady, -1, 0⟩] else []))

def traceFrom (r : Nat) : List Nat → List Nat → List Event
  | _, []          => []
  | before, x :: l => W.reaction r before x ++ traceFrom r (before ++ [x]) l

theorem traceFrom_append (r x : Nat) : ∀ l before : List Nat,
    W.traceFrom r before (l ++ [x]) = W.traceFrom r before l ++ W.reaction r (before ++ l) x
  | [], before     => by simp [traceFrom]
  | y :: l, before => by
    rw [List.cons_append, traceFrom, traceFrom_append r x l, traceFrom, List.append_assoc, List.append_assoc,
      List.singleton_append]

theorem xorLaws : XorWords.Laws (fun a b : UInt8 => a ^^^ b) 0 where
  comm := UInt8.xor_comm
  assoc := UInt8.xor_assoc
  zeroLeft := fun _ => UInt8.zero_xor
  self := fun _ => UInt8.xor_self

theorem xorBytes_parity (r : Nat) : xorBytes (W.payload r 0) (W.payload r 2) = .ok (W.payload r 1) := by
  rw [xorBytes, if_neg (by rw [length_payload, length_payload]; exact not_not.2 rfl)]
  congr 1
  show XorWords.combine _ (W.left r) (XorWords.combine _ (W.left r) (W.right r)) = W.right r
  rw [XorWords.combine_comm xorLaws (W.left r) (W.right r), XorWords.combine_comm xorLaws (W.left r)]
  apply XorWords.combine_cancel xorLaws
  rw [W.length_left, W.length_right]

theorem slotsOf_pos {r k : Nat} {l : List Nat} (h : k ∈ l ∨ (k = 1 ∧ 0 ∈ l ∧ 2 ∈ l)) :
    W.slotsOf r l k = some (W.payload r k) :=
  if_pos h

theorem slotsOf_neg {r k : Nat} {l : List Nat} (h : ¬ (k ∈ l ∨ (k = 1 ∧ 0 ∈ l ∧ 2 ∈ l))) : W.slotsOf r l k = none :=
  if_neg h

theorem setDefault_slotsOf (r : Nat) {l : List Nat} {x : Nat} (hx : x ∉ l) (k : Nat) :
    setDefault (W.slotsOf r l) x (W.payload r x) k =
      if k ∈ l ++ [x] ∨ (k = 1 ∧ 0 ∈ l ∧ 2 ∈ l) then some (W.payload r k) else none := by
  by_cases hrec : x = 1 ∧ 0 ∈ l ∧ 2 ∈ l
  · have hiff : (k ∈ l ++ [x] ∨ (k = 1 ∧ 0 ∈ l ∧ 2 ∈ l)) ↔ (k ∈ l ∨ (k = 1 ∧ 0 ∈ l ∧ 2 ∈ l)) := by
      rw [List.mem_append, List.mem_singleton, hrec.1]
      have h2 := hrec.2
      tauto
    rw [setDefault, W.slotsOf_pos (.inr hrec)]
    simp only [hiff]
    rfl
  · rw [setDefault, W.slotsOf_neg (not_or.2 ⟨hx, hrec⟩)]
    by_cases hk : k = x
    · rw [hk, if_pos (.inl (by simp))]
      exact Function.update_self ..
    · refine (Function.update_of_ne hk _ _).trans ?_
      have hmem : k ∈ l ++ [x] ↔ k ∈ l := by simp [hk]
      simp only [hmem]
      rfl

theorem recover_unchanged (r : Nat) {slots : Slots} (h : slots 1 = none → slots 0 = none ∨ slots 2 = none) :
    recover r slots = (slots, [], none) := by
  rw [recover]
  split
  case h_1 h1 h0 h2 =>
    rcases h h1 with hnone | hnone
    · rw [h0] at hnone
      cases hnone
    · rw [h2] at hnone
      cases hnone
  case h_2 => rfl

theorem recover_decodes (r : Nat) {slots : Slots} (h1 : slots 1 = none) (h0 : slots 0 = some (W.payload r 0))
    (h2 : slots 2 = some (W.payload r 2)) : recover r slots = (Function.update slots 1 (some (W.payload r 1)),
      [⟨r, .planningStart, -1, 0⟩, ⟨r, .recoveryComplete, 1, W.shardBytes⟩], none) := by
  simp only [recover, h1, h0, h2, W.xorBytes_parity, length_payload]

theorem recover_slotsOf (r : Nat) {l : List Nat} {x : Nat} (hx : x ∉ l) (hlt : x < 3) :
    recover r (setDefault (W.slotsOf r l) x (W.payload r x)) = (W.slotsOf r (l ++ [x]),
      if recovers (l ++ [x]) then [⟨r, .planningStart, -1, 0⟩, ⟨r, .recoveryComplete, 1, W.shardBytes⟩]
      else [], none) := by
  have hget := setDefault_slotsOf W r hx
  generalize setDefault (W.slotsOf r l) x (W.payload r x) = slots at hget ⊢
  by_cases hrec : 0 ∈ l ++ [x] ∧ 2 ∈ l ++ [x] ∧ 1 ∉ l ++ [x]
  · -- one of the two others is new, so shard 1 was not recovered before
    obtain ⟨h0, h2, h1⟩ := hrec
    have hold : ¬ (0 ∈ l ∧ 2 ∈ l) := by
      rintro ⟨hl0, hl2⟩
      have hne0 : x ≠ 0 := fun h => hx (h ▸ hl0)
      have hne2 : x ≠ 2 := fun h => hx (h ▸ hl2)
      have hne1 : x ≠ 1 := fun h => h1 (by simp [h])
      omega
    have hsimple : ∀ k, slots k = if k ∈ l ++ [x] then some (W.payload r k) else none := by
      intro k
      rw [hget]
      simp only [hold, and_false, or_false]
    have hslots : Function.update slots 1 (some (W.payload r 1)) = W.slotsOf r (l ++ [x]) := by
      funext k
      by_cases hk : k = 1
      · rw [hk, Function.update_self, W.slotsOf_pos (.inr ⟨rfl, h0, h2⟩)]
      · rw [Function.update_of_ne hk, hsimple, slotsOf]
        simp only [hk, false_and, or_false]
    rw [W.recover_decodes r (by rw [hsimple, if_neg h1]) (by rw [hsimple, if_pos h0]) (by rw [hsimple, if_pos h2]),
      hslots, recovers, decide_eq_true ⟨h0, h2, h1⟩, if_pos rfl]
  · have hslots : slots = W.slotsOf r (l ++ [x]) := by
      funext k
      have hiff : (k ∈ l ++ [x] ∨ (k = 1 ∧ 0 ∈ l ∧ 2 ∈ l)) ↔
          (k ∈ l ++ [x] ∨ (k = 1 ∧ 0 ∈ l ++ [x] ∧ 2 ∈ l ++ [x])) := by
        constructor
        · rintro (h | ⟨hk, h0, h2⟩)
          · exact .inl h
          · exact .inr ⟨hk, List.mem_append_left _ h0, List.mem_append_left _ h2⟩
        · rintro (h | ⟨rfl, h0, h2⟩)
          · exact .inl h
          · exact .inl (by_contra fun h1 => hrec ⟨h0, h2, h1⟩)
      rw [hget, slotsOf]
      simp only [hiff]
    rw [recovers, decide_eq_false hrec, ← hslots]
    apply recover_unchanged
    intro h1
    by_contra hboth
    obtain ⟨h0, h2⟩ := not_or.1 hboth
    have hmem : ∀ k, k ≠ 1 → slots k ≠ none → k ∈ l ++ [x] := by
      intro k hk hsome
      by_contra hnot
      apply hsome
      rw [hslots, W.slotsOf_neg (not_or.2 ⟨hnot, fun h => hk h.1⟩)]
    rw [hslots, W.slotsOf_pos (.inr ⟨rfl, hmem 0 (by decide) h0, hmem 2 (by decide) h2⟩)] at h1
    cases h1

/-- What the coordinator hands on of a request with these arrivals. -/
def handOns (r : Nat) (l : List Nat) : List Chore :=
  if complete l then
    [.handOn r 0 (W.payload r 0), .handOn r 1 (W.payload r 1), .report ⟨r, .consumerReady, -1, 0⟩]
  else []

theorem handoff_slotsOf (r : Nat) (l : List Nat) : handoff r (W.slotsOf r l) = W.handOns r l := by
  unfold handOns complete
  by_cases h0 : 0 ∈ l
  · by_cases h1 : 1 ∈ l ∨ 2 ∈ l
    · rw [decide_eq_true ⟨h0, h1⟩, handoff, W.slotsOf_pos (.inl h0), W.slotsOf_pos (by tauto)]
      rfl
    · rw [decide_eq_false (fun h => h1 h.2), handoff, W.slotsOf_pos (.inl h0), W.slotsOf_neg (by tauto)]
      rfl
  · rw [decide_eq_false (fun h => h0 h.1), handoff, W.slotsOf_neg (by simp [h0])]
    rfl

end Workload

/-! ## Chores -/

def Chore.event : Chore → Option Event
  | .report e => some e
  | _         => none

def choreEvents (chores : List Chore) : List Event := chores.filterMap Chore.event

theorem choreEvents_reports (events : List Event) (chores : List Chore) :
    choreEvents (events.map .report ++ chores) = events ++ choreEvents chores := by
  rw [choreEvents, List.filterMap_append, List.filterMap_map]
  congr 1
  exact List.filterMap_some

/-- The chores of a shard that arrives after the shards `before`. -/
def Workload.chores (W : Workload) (r : Nat) (before : List Nat) (shard : Nat) : List Chore :=
  .report ⟨r, .shardArrival, shard, W.shardBytes⟩ ::
    ((if Workload.recovers (before ++ [shard]) then
      [⟨r, .planningStart, -1, 0⟩, ⟨r, .recoveryComplete, 1, W.shardBytes⟩] else []).map Chore.report ++
      W.handOns r (before ++ [shard]))

theorem Workload.events_chores (W : Workload) (r : Nat) (before : List Nat) (shard : Nat) :
    choreEvents (W.chores r before shard) = W.reaction r before shard := by
  unfold Workload.chores Workload.reaction
  have hreport : ∀ e chores, choreEvents (.report e :: chores) = e :: choreEvents chores := fun e chores => rfl
  rw [hreport, choreEvents_reports, Workload.handOns]
  cases Workload.complete (before ++ [shard]) with
  | true  => rfl
  | false => rfl

namespace SmokeTest

theorem accept_eq {W : Workload} {s : SmokeTest} {r x : Nat} {l : List Nat} (hshards : s.shards r = W.slotsOf r l)
    (hx : x ∉ l) (hlt : x < 3) :
    accept s ⟨r, x, W.payload r x⟩ = { s with
      shards := Function.update s.shards r (W.slotsOf r (l ++ [x]))
      coordinator := .working (W.chores r l x) } := by
  simp only [accept, hshards, W.recover_slotsOf r hx hlt, W.handoff_slotsOf, W.length_payload, Workload.chores]

/-! ## One step -/

inductive Moved (W : Workload) (s : SmokeTest) : Action → SmokeTest → Prop where
  | announce (task) (hmem : task ∈ W.futures) (hready : s.tasks task = .ready) (hsleep : W.sleep task = none) :
      Moved W s (.announce task) { s with
        tasks := Function.update s.tasks task .announced
        events := s.events ++ [⟨task.1, .producerSend, task.2, (W.payload task.1 task.2).length⟩] }
  | overslept (task e) (hmem : task ∈ W.futures) (hready : s.tasks task = .ready) (hsleep : W.sleep task = some e) :
      Moved W s (.announce task) { s with tasks := Function.update s.tasks task (.failed e) }
  | connect (task) (hphase : s.tasks task = .announced) :
      Moved W s (.connect task) { s with
        tasks := Function.update s.tasks task
          (match (connection task.1 task.2 0 (W.payload task.1 task.2)).2 with | some e => .failed e | none => .sent)
        inbox := s.inbox ++ [(connection task.1 task.2 0 (W.payload task.1 task.2)).1] }
  | cut (wish wish' conn rest e) (hphase : s.coordinator = .accepting) (hinbox : s.inbox = conn :: rest)
      (hread : readFrame wish wish' conn = .error e) :
      Moved W s (.serve wish wish')
        { s with listener := s.listener.accepted, inbox := rest, coordinator := .failed e }
  | leave (wish wish' conn rest) (hphase : s.coordinator = .accepting) (hinbox : s.inbox = conn :: rest)
      (hread : readFrame wish wish' conn = .ok none) :
      Moved W s (.serve wish wish')
        { s with listener := s.listener.accepted, inbox := rest, coordinator := .returned }
  | arrive (wish wish' conn rest f) (hphase : s.coordinator = .accepting) (hinbox : s.inbox = conn :: rest)
      (hread : readFrame wish wish' conn = .ok (some f)) :
      Moved W s (.serve wish wish') (accept { s with listener := s.listener.accepted, inbox := rest } f)
  | idle (hphase : s.coordinator = .working []) : Moved W s .work { s with coordinator := .accepting }
  | report (e rest) (hphase : s.coordinator = .working (.report e :: rest)) :
      Moved W s .work { s with events := s.events ++ [e], coordinator := .working rest }
  | raise (e rest) (hphase : s.coordinator = .working (.raise e :: rest)) :
      Moved W s .work { s with coordinator := .failed e }
  | hand (request shard payload rest) (hphase : s.coordinator = .working (.handOn request shard payload :: rest)) :
      Moved W s .work { s with
        consumerInbox := s.consumerInbox ++ [(connection request shard recovered payload).1]
        coordinator := match (connection request shard recovered payload).2 with
          | some e => .failed e
          | none   => .working rest }
  | failCoordinator (hcut : coordinatorCut s = true) :
      Moved W s .failCoordinator { s with coordinator := .failed .osError }
  | consumeCut (wish wish' conn rest e) (hphase : s.consumer = .accepting) (hinbox : s.consumerInbox = conn :: rest)
      (hread : readFrame wish wish' conn = .error e) :
      Moved W s (.consume wish wish')
        { s with consumerListener := s.consumerListener.accepted, consumerInbox := rest, consumer := .failed e }
  | consumeLeave (wish wish' conn rest) (hphase : s.consumer = .accepting) (hinbox : s.consumerInbox = conn :: rest)
      (hread : readFrame wish wish' conn = .ok none) :
      Moved W s (.consume wish wish')
        { s with consumerListener := s.consumerListener.accepted, consumerInbox := rest, consumer := .returned }
  | consumed (wish wish' conn rest f) (hphase : s.consumer = .accepting) (hinbox : s.consumerInbox = conn :: rest)
      (hread : readFrame wish wish' conn = .ok (some f)) :
      Moved W s (.consume wish wish') { s with
        consumerListener := s.consumerListener.accepted
        consumerInbox := rest
        payloads := s.payloads.insert (f.request, f.shard) f.payload }
  | failConsumer (hphase : s.consumer = .accepting) (hclosed : s.consumerListener ≠ .listening) :
      Moved W s .failConsumer { s with consumer := .failed .osError }
  | joinPool (hphase : s.main = .waitingForPool) (hall : W.futures.all (fun p => finished (s.tasks p)) = true) :
      Moved W s .joinPool
        { s with main := match poolFailure W s with | some e => .closingCoordinator (.raised e) | none => .polling }
  | check (late) (hphase : s.main = .polling) (hover : late = true ∨ 2 * W.requests ≤ s.payloads.keys.card) :
      Moved W s (.check late) { s with
        main := .closingCoordinator
          (if s.payloads ≠ W.expected then .raised
           (.runtimeError "consumer payload differs from original systematic bytes") else .pass) }
  | closeCoordinator (verdict) (hphase : s.main = .closingCoordinator verdict) :
      Moved W s .closeCoordinator
        { s with inbox := s.inbox ++ [(connection 0 0 closeFlags []).1], main := .joiningCoordinator verdict }
  | joinCoordinator (late verdict) (hphase : s.main = .joiningCoordinator verdict)
      (hover : late = true ∨ coordinatorEnded s.coordinator = true) :
      Moved W s (.joinCoordinator late)
        { s with listener := .close (s.coordinator = .accepting), main := .closingConsumer verdict }
  | closeConsumer (verdict) (hphase : s.main = .closingConsumer verdict) :
      Moved W s .closeConsumer { s with
        consumerInbox := s.consumerInbox ++ [(connection 0 0 closeFlags []).1]
        main := .joiningConsumer verdict }
  | joinConsumer (late verdict) (hphase : s.main = .joiningConsumer verdict)
      (hover : late = true ∨ consumerEnded s.consumer = true) :
      Moved W s (.joinConsumer late)
        { s with consumerListener := .close (s.consumer = .accepting), main := .done verdict }

theorem moved_of_step {W : Workload} {s s' : SmokeTest} {a : Action} (h : step W s a = some s') : Moved W s a s' := by
  cases a with
  | announce task =>
    simp only [step, Option.ite_none_right_eq_some] at h
    obtain ⟨⟨hmem, hready⟩, heq⟩ := h
    split at heq
    case h_1 e hsleep =>
      obtain rfl := Option.some.inj heq
      exact .overslept task e hmem hready hsleep
    case h_2 hsleep =>
      obtain rfl := Option.some.inj heq
      exact .announce task hmem hready hsleep
  | connect task =>
    simp only [step, Option.ite_none_right_eq_some] at h
    obtain ⟨hphase, heq⟩ := h
    obtain rfl := Option.some.inj heq
    exact .connect task hphase
  | serve wish wish' =>
    simp only [step, Option.ite_none_left_eq_some] at h
    obtain ⟨-, h⟩ := h
    split at h
    case h_1 conn rest hphase hinbox =>
      split at h <;> obtain rfl := Option.some.inj h
      case h_1 e hread => exact .cut wish wish' conn rest e hphase hinbox hread
      case h_2 hread => exact .leave wish wish' conn rest hphase hinbox hread
      case h_3 f hread => exact .arrive wish wish' conn rest f hphase hinbox hread
    case h_2 => cases h
  | work =>
    simp only [step] at h
    split at h
    case h_1 hphase =>
      obtain rfl := Option.some.inj h
      exact .idle hphase
    case h_2 e rest hphase =>
      obtain rfl := Option.some.inj h
      exact .report e rest hphase
    case h_3 e rest hphase =>
      obtain rfl := Option.some.inj h
      exact .raise e rest hphase
    case h_4 request shard payload rest hphase =>
      rw [Option.ite_none_left_eq_some] at h
      obtain rfl := Option.some.inj h.2
      exact .hand request shard payload rest hphase
    case h_5 => cases h
  | failCoordinator =>
    simp only [step, Option.ite_none_right_eq_some] at h
    obtain ⟨hcut, heq⟩ := h
    obtain rfl := Option.some.inj heq
    exact .failCoordinator hcut
  | consume wish wish' =>
    simp only [step, Option.ite_none_left_eq_some] at h
    obtain ⟨-, h⟩ := h
    split at h
    case h_1 conn rest hphase hinbox =>
      split at h <;> obtain rfl := Option.some.inj h
      case h_1 e hread => exact .consumeCut wish wish' conn rest e hphase hinbox hread
      case h_2 hread => exact .consumeLeave wish wish' conn rest hphase hinbox hread
      case h_3 f hread => exact .consumed wish wish' conn rest f hphase hinbox hread
    case h_2 => cases h
  | failConsumer =>
    simp only [step, Option.ite_none_right_eq_some] at h
    obtain ⟨⟨hphase, hclosed⟩, heq⟩ := h
    obtain rfl := Option.some.inj heq
    exact .failConsumer hphase hclosed
  | joinPool =>
    simp only [step, Option.ite_none_right_eq_some] at h
    obtain ⟨⟨hphase, hall⟩, heq⟩ := h
    obtain rfl := Option.some.inj heq
    exact .joinPool hphase hall
  | check late =>
    simp only [step, Option.ite_none_right_eq_some] at h
    obtain ⟨⟨hphase, hover⟩, heq⟩ := h
    obtain rfl := Option.some.inj heq
    exact .check late hphase hover
  | closeCoordinator =>
    simp only [step] at h
    split at h
    case h_1 verdict hphase =>
      obtain rfl := Option.some.inj h
      exact .closeCoordinator verdict hphase
    case h_2 => cases h
  | joinCoordinator late =>
    simp only [step] at h
    split at h
    case h_1 verdict hphase =>
      rw [Option.ite_none_right_eq_some] at h
      obtain rfl := Option.some.inj h.2
      exact .joinCoordinator late verdict hphase h.1
    case h_2 => cases h
  | closeConsumer =>
    simp only [step] at h
    split at h
    case h_1 verdict hphase =>
      obtain rfl := Option.some.inj h
      exact .closeConsumer verdict hphase
    case h_2 => cases h
  | joinConsumer late =>
    simp only [step] at h
    split at h
    case h_1 verdict hphase =>
      rw [Option.ite_none_right_eq_some] at h
      obtain rfl := Option.some.inj h.2
      exact .joinConsumer late verdict hphase h.1
    case h_2 => cases h

/-! ## Every run ends -/

def taskRank : TaskPhase → Nat
  | .ready     => 12
  | .announced => 11
  | _          => 0

def choreRank : Chore → Nat
  | .handOn .. => 2
  | _          => 1

def coordinatorRank : CoordinatorPhase → Nat
  | .accepting      => 1
  | .working chores => (chores.map choreRank).sum + 2
  | _               => 0

def consumerRank : ConsumerPhase → Nat
  | .accepting => 1
  | _          => 0

def mainRank : MainPhase → Nat
  | .waitingForPool       => 17
  | .polling              => 16
  | .closingCoordinator _ => 15
  | .joiningCoordinator _ => 4
  | .closingConsumer _    => 3
  | .joiningConsumer _    => 1
  | .done _               => 0

def rank (W : Workload) (s : SmokeTest) : Nat :=
  ∑ p ∈ W.futures.toFinset, taskRank (s.tasks p) + 10 * s.inbox.length + coordinatorRank s.coordinator
    + s.consumerInbox.length + consumerRank s.consumer + mainRank s.main

theorem rank_init (W : Workload) : rank W init ≤ 36 * W.requests + 19 := by
  have hcard := List.toFinset_card_le W.futures
  have hlen := W.length_futures
  have hsum : ∑ p ∈ W.futures.toFinset, taskRank (init.tasks p) = 12 * W.futures.toFinset.card :=
    (Finset.sum_const_nat (fun _ _ => rfl)).trans (Nat.mul_comm _ _)
  rw [rank, hsum]
  show 12 * W.futures.toFinset.card + 0 + 1 + 0 + 1 + 17 ≤ _
  omega

theorem handoff_rank (request : Nat) (slots : Slots) : ((handoff request slots).map choreRank).sum ≤ 5 := by
  unfold handoff
  split
  · exact le_rfl
  · exact Nat.zero_le 5

theorem coordinatorRank_accept (s : SmokeTest) (f : Frame) : coordinatorRank (accept s f).coordinator ≤ 10 := by
  simp only [accept, coordinatorRank, List.map_cons, List.sum_cons, List.map_append, List.sum_append, choreRank]
  generalize setDefault (s.shards f.request) f.shard f.payload = slots
  unfold recover
  split
  · split
    · rename_i b _
      have hle := handoff_rank f.request (Function.update slots 1 (some b))
      simp only [List.map_cons, List.map_nil, List.sum_cons, List.sum_nil, choreRank]
      omega
    · simp [choreRank]
  · have hle := handoff_rank f.request slots
    simp only [List.map_nil, List.sum_nil]
    omega

theorem coordinatorRank_pos {s : SmokeTest} (h : coordinatorCut s = true) : 0 < coordinatorRank s.coordinator := by
  unfold coordinatorCut at h
  split at h
  case h_1 hphase => rw [hphase]; exact Nat.one_pos
  case h_2 hphase => rw [hphase]; exact Nat.succ_pos _
  case h_3 => cases h

theorem step_rank {W : Workload} {s s' : SmokeTest} {a : Action}
    (hmem : ∀ p, s.tasks p ≠ .ready → p ∈ W.futures) (h : step W s a = some s') : rank W s' < rank W s := by
  have htask : ∀ (p : Nat × Nat) (phase : TaskPhase), p ∈ W.futures →
      ∑ q ∈ W.futures.toFinset, taskRank (Function.update s.tasks p phase q) + taskRank (s.tasks p) =
        ∑ q ∈ W.futures.toFinset, taskRank (s.tasks q) + taskRank phase :=
    fun p phase hp => sum_update_add taskRank s.tasks (List.mem_toFinset.2 hp) phase
  cases moved_of_step h with
  | announce task hp hready hsleep =>
    have hsum := htask task .announced hp
    rw [hready] at hsum
    simp only [rank, taskRank] at hsum ⊢
    omega
  | overslept task e hp hready hsleep =>
    have hsum := htask task (.failed e) hp
    rw [hready] at hsum
    simp only [rank, taskRank] at hsum ⊢
    omega
  | connect task hphase =>
    have hp : task ∈ W.futures := hmem task (by rw [hphase]; decide)
    have hrest : ∀ o : Option PyExn, taskRank (match o with | some e => TaskPhase.failed e | none => .sent) = 0 := by
      intro o
      cases o <;> rfl
    have hsum := htask task (match (connection task.1 task.2 0 (W.payload task.1 task.2)).2 with
      | some e => TaskPhase.failed e
      | none => .sent) hp
    rw [hphase, hrest] at hsum
    simp only [rank, taskRank, List.length_append, List.length_singleton] at hsum ⊢
    omega
  | cut wish wish' conn rest e hphase hinbox hread =>
    simp only [rank, hphase, hinbox, coordinatorRank, List.length_cons]
    omega
  | leave wish wish' conn rest hphase hinbox hread =>
    simp only [rank, hphase, hinbox, coordinatorRank, List.length_cons]
    omega
  | arrive wish wish' conn rest f hphase hinbox hread =>
    have hle := coordinatorRank_accept { s with listener := s.listener.accepted, inbox := rest } f
    have hold : coordinatorRank s.coordinator = 1 := by rw [hphase]; rfl
    have hlen : s.inbox.length = rest.length + 1 := by rw [hinbox, List.length_cons]
    rw [rank, rank, hold, hlen]
    show ∑ p ∈ W.futures.toFinset, taskRank (s.tasks p) + 10 * rest.length + coordinatorRank (accept _ f).coordinator +
      s.consumerInbox.length + consumerRank s.consumer + mainRank s.main < _
    omega
  | idle hphase =>
    simp only [rank, hphase, coordinatorRank, List.map_nil, List.sum_nil]
    omega
  | report e rest hphase =>
    simp only [rank, hphase, coordinatorRank, List.map_cons, List.sum_cons, choreRank]
    omega
  | raise e rest hphase =>
    simp only [rank, hphase, coordinatorRank, List.map_cons, List.sum_cons, choreRank]
    omega
  | hand request shard payload rest hphase =>
    have hle : ∀ o : Option PyExn,
        coordinatorRank (match o with | some e => CoordinatorPhase.failed e | none => .working rest) ≤
          (rest.map choreRank).sum + 2 := by
      intro o
      cases o
      · exact le_rfl
      · exact Nat.zero_le _
    have hnew := hle (connection request shard recovered payload).2
    have hold : coordinatorRank s.coordinator = 2 + (rest.map choreRank).sum + 2 := by rw [hphase]; rfl
    simp only [rank, hold, List.length_append, List.length_singleton] at hnew ⊢
    omega
  | failCoordinator hcut =>
    have hpos := coordinatorRank_pos hcut
    simp only [rank]
    rw [show coordinatorRank (.failed .osError) = 0 from rfl]
    omega
  | consumeCut wish wish' conn rest e hphase hinbox hread =>
    simp only [rank, hphase, hinbox, consumerRank, List.length_cons]
    omega
  | consumeLeave wish wish' conn rest hphase hinbox hread =>
    simp only [rank, hphase, hinbox, consumerRank, List.length_cons]
    omega
  | consumed wish wish' conn rest f hphase hinbox hread =>
    simp only [rank, hinbox, List.length_cons]
    omega
  | failConsumer hphase hclosed =>
    simp only [rank, hphase, consumerRank]
    omega
  | joinPool hphase hall =>
    simp only [rank, hphase]
    cases poolFailure W s with
    | none => simp only [mainRank]; omega
    | some e => simp only [mainRank]; omega
  | check late hphase hover =>
    simp only [rank, hphase, mainRank]
    omega
  | closeCoordinator verdict hphase =>
    simp only [rank, hphase, mainRank, List.length_append, List.length_singleton]
    omega
  | joinCoordinator late verdict hphase hover =>
    simp only [rank, hphase, mainRank]
    omega
  | closeConsumer verdict hphase =>
    simp only [rank, hphase, mainRank, List.length_append, List.length_singleton]
    omega
  | joinConsumer late verdict hphase hover =>
    simp only [rank, hphase, mainRank]
    omega

end SmokeTest
end TransportSmoke
end CodedLLM
