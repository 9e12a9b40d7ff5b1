import CodedLLM.TransportSmoke
import CodedLLM.XorWords
/-!
# SmokeTest — the threads of the transport test

`main` of `scripts/transport_smoke.py` draws the shards of its requests and sends three frames a request to a
coordinator, which hands two shards on to a consumer as soon as it has them or can recover them.  The senders, the two
servers and the main thread are one step function; every order of their steps is a run.  A connection is opened, and
all bytes on it are sent, in one step; it waits until the server accepts it.
-/
namespace CodedLLM
namespace TransportSmoke

def recovered : Nat := 1

def xorBytes (left right : List UInt8) : Except PyExn (List UInt8) :=
  if left.length ≠ right.length then .error (.valueError "XOR inputs must have equal lengths")
  else .ok (XorWords.combine (· ^^^ ·) left right)

/-! ## The coordinator -/

inductive EventKind where
  | producerSend | shardArrival | planningStart | recoveryComplete | consumerReady
  deriving DecidableEq, Repr

/-- `Event` without its timestamp; the shard and the byte count have the defaults of the source. -/
structure Event where
  requestId : Nat
  kind : EventKind
  shardId : Int := -1
  byteCount : Nat := 0
  deriving DecidableEq, Repr

abbrev Slots := Nat → Option (List UInt8)

def setDefault (slots : Slots) (shard : Nat) (payload : List UInt8) : Slots :=
  match slots shard with
  | some _ => slots
  | none   => Function.update slots shard (some payload)

/-- The recovery in `_accept`: shard 1 from shard 0 and the parity; the events it leaves, and what it raises. -/
def recover (request : Nat) (slots : Slots) : Slots × List Event × Option PyExn :=
  match slots 1, slots 0, slots 2 with
  | none, some a, some parity =>
    match xorBytes a parity with
    | .ok b =>
      (Function.update slots 1 (some b),
        [⟨request, .planningStart, -1, 0⟩, ⟨request, .recoveryComplete, 1, b.length⟩], none)
    | .error e => (slots, [⟨request, .planningStart, -1, 0⟩], some e)
  | _, _, _ => (slots, [], none)

/-- What the coordinator still has to do for a connection, one after the other. -/
inductive Chore where
  | report (event : Event)
  /-- a connection to the consumer -/
  | handOn (request shard : Nat) (payload : List UInt8)
  | raise (e : PyExn)
  deriving DecidableEq, Repr

def handoff (request : Nat) (slots : Slots) : List Chore :=
  match slots 0, slots 1 with
  | some a, some b => [.handOn request 0 a, .handOn request 1 b, .report ⟨request, .consumerReady, -1, 0⟩]
  | _, _           => []

/-! ## The test -/

/-- What the options and the generator make of a test. -/
structure Workload where
  requests : Nat
  shardBytes : Nat
  left : Nat → List UInt8
  right : Nat → List UInt8
  /-- what `randbytes` raises for so many bytes -/
  randbytes : Option PyExn
  /-- what `time.sleep` raises for the delay of a task: the straggler's delay is not checked -/
  sleep : Nat × Nat → Option PyExn
  /-- "requests and shard-bytes must be positive" -/
  positive : 0 < requests ∧ 0 < shardBytes
  length_left : ∀ r, (left r).length = shardBytes
  length_right : ∀ r, (right r).length = shardBytes
  /-- `getrandbits` counts bits with an `int` in some versions of Python -/
  randbytes_small : shardBytes < 2 ^ 28 → randbytes = none

namespace Workload

variable (W : Workload)

def payload (request : Nat) : Nat → List UInt8
  | 0 => W.left request
  | 1 => W.right request
  | _ => XorWords.combine (· ^^^ ·) (W.left request) (W.right request)

def futures : List (Nat × Nat) :=
  if W.randbytes.isSome then [] else (List.range W.requests).flatMap (fun r => [(r, 0), (r, 2), (r, 1)])

end Workload

abbrev Payloads := Finmap (fun _ : Nat × Nat => List UInt8)

def Workload.expected (W : Workload) : Payloads :=
  (List.range W.requests).foldl (fun d r => (d.insert (r, 0) (W.left r)).insert (r, 1) (W.right r)) ∅

inductive TaskPhase where
  | ready
  /-- the event is appended, the connection not yet opened -/
  | announced
  | sent
  | failed (e : PyExn)
  deriving DecidableEq, Repr

inductive CoordinatorPhase where
  | accepting
  | working (chores : List Chore)
  | returned
  | failed (e : PyExn)
  deriving DecidableEq, Repr

inductive ConsumerPhase where
  | accepting
  | returned
  | failed (e : PyExn)
  deriving DecidableEq, Repr

inductive Listener where
  | listening
  /-- closed, but an `accept` that has begun may still return a connection -/
  | closing
  | closed
  deriving DecidableEq, Repr

def Listener.close (accepting : Bool) : Listener := if accepting then .closing else .closed

/-- The listener once `accept` has returned a connection. -/
def Listener.accepted : Listener → Listener
  | .listening => .listening
  | _          => .closed

inductive Verdict where
  | pass
  | raised (e : PyExn)
  deriving DecidableEq, Repr

inductive MainPhase where
  | waitingForPool
  | polling
  /-- the `finally` block, statement by statement -/
  | closingCoordinator (verdict : Verdict)
  | joiningCoordinator (verdict : Verdict)
  | closingConsumer (verdict : Verdict)
  | joiningConsumer (verdict : Verdict)
  | done (verdict : Verdict)
  deriving DecidableEq, Repr

structure SmokeTest where
  tasks : Nat × Nat → TaskPhase
  listener : Listener
  inbox : List (List UInt8)
  shards : Nat → Slots
  coordinator : CoordinatorPhase
  consumerListener : Listener
  consumerInbox : List (List UInt8)
  payloads : Payloads
  consumer : ConsumerPhase
  main : MainPhase
  events : List Event

namespace SmokeTest

def init : SmokeTest where
  tasks := fun _ => .ready
  listener := .listening
  inbox := []
  shards := fun _ _ => none
  coordinator := .accepting
  consumerListener := .listening
  consumerInbox := []
  payloads := ∅
  consumer := .accepting
  main := .waitingForPool
  events := []

inductive Action where
  /-- `send_shard` sleeps and appends its event -/
  | announce (task : Nat × Nat)
  | connect (task : Nat × Nat)
  | serve (wish wish' : Nat → Nat)
  | work
  /-- a socket call of the coordinator finds a listener closed -/
  | failCoordinator
  | consume (wish wish' : Nat → Nat)
  | failConsumer
  | joinPool
  /-- the polling loop is over: because of the count, or because of the deadline -/
  | check (late : Bool)
  | closeCoordinator
  /-- `join(timeout=2)` and `_listener.close()`: the thread has ended, or the join has timed out -/
  | joinCoordinator (late : Bool)
  | closeConsumer
  | joinConsumer (late : Bool)

/-- The connection that a sender opens; it is empty if the header cannot be packed. -/
def connection (request shard flags : Nat) (payload : List UInt8) : List UInt8 × Option PyExn :=
  match sendFrame request shard flags payload with
  | .ok bytes => (bytes, none)
  | .error e  => ([], some e)

/-- `_serve` behind a frame, and `_accept`; `shards` belongs to this one thread. -/
def accept (s : SmokeTest) (f : Frame) : SmokeTest :=
  let r := recover f.request (setDefault (s.shards f.request) f.shard f.payload)
  { s with
    shards := Function.update s.shards f.request r.1
    coordinator := .working (.report ⟨f.request, .shardArrival, f.shard, f.payload.length⟩ :: (r.2.1.map .report ++
      match r.2.2 with
      | some e => [.raise e]
      | none   => handoff f.request r.1)) }

def taskFailure (phase : TaskPhase) : Option PyExn :=
  match phase with
  | .failed e => some e
  | _         => none

/-- What the body of the pool's `with` raises: drawing the bytes, or the first future that failed. -/
def poolFailure (W : Workload) (s : SmokeTest) : Option PyExn :=
  match W.randbytes with
  | some e => some e
  | none   => W.futures.findSome? (fun p => taskFailure (s.tasks p))

def finished : TaskPhase → Bool
  | .sent | .failed _ => true
  | _                 => false

def coordinatorEnded : CoordinatorPhase → Bool
  | .returned | .failed _ => true
  | _                     => false

def consumerEnded : ConsumerPhase → Bool
  | .returned | .failed _ => true
  | .accepting            => false

/-- Where the coordinator calls `accept` or connects to the consumer on a listener that has been closed. -/
def coordinatorCut (s : SmokeTest) : Bool :=
  match s.coordinator with
  | .accepting                 => s.listener ≠ .listening
  | .working (.handOn .. :: _) => s.consumerListener ≠ .listening
  | _                          => false

def step (W : Workload) (s : SmokeTest) : Action → Option SmokeTest
  | .announce task =>
    if task ∈ W.futures ∧ s.tasks task = .ready then
      match W.sleep task with
      | some e => some { s with tasks := Function.update s.tasks task (.failed e) }
      | none   =>
        some { s with
          tasks := Function.update s.tasks task .announced
          events := s.events ++ [⟨task.1, .producerSend, task.2, (W.payload task.1 task.2).length⟩] }
    else none
  | .connect task =>
    if s.tasks task = .announced then
      let c := connection task.1 task.2 0 (W.payload task.1 task.2)
      some { s with
        tasks := Function.update s.tasks task (match c.2 with | some e => .failed e | none => .sent)
        inbox := s.inbox ++ [c.1] }
    else none
  | .serve wish wish' =>
    if s.listener = .closed then none
    else
      match s.coordinator, s.inbox with
      | .accepting, conn :: rest =>
        match readFrame wish wish' conn with
        | .error e     => some { s with listener := s.listener.accepted, inbox := rest, coordinator := .failed e }
        | .ok none     => some { s with listener := s.listener.accepted, inbox := rest, coordinator := .returned }
        | .ok (some f) => some (accept { s with listener := s.listener.accepted, inbox := rest } f)
      | _, _ => none
  | .work =>
    match s.coordinator with
    | .working []                   => some { s with coordinator := .accepting }
    | .working (.report e :: rest)  => some { s with events := s.events ++ [e], coordinator := .working rest }
    | .working (.raise e :: _)      => some { s with coordinator := .failed e }
    | .working (.handOn request shard payload :: rest) =>
      if s.consumerListener = .closed then none
      else
        let c := connection request shard recovered payload
        some { s with
          consumerInbox := s.consumerInbox ++ [c.1]
          coordinator := match c.2 with | some e => .failed e | none => .working rest }
    | _ => none
  | .failCoordinator => if coordinatorCut s = true then some { s with coordinator := .failed .osError } else none
  | .consume wish wish' =>
    if s.consumerListener = .closed then none
    else
      match s.consumer, s.consumerInbox with
      | .accepting, conn :: rest =>
        match readFrame wish wish' conn with
        | .error e =>
          some { s with consumerListener := s.consumerListener.accepted, consumerInbox := rest, consumer := .failed e }
        | .ok none =>
          some { s with consumerListener := s.consumerListener.accepted, consumerInbox := rest, consumer := .returned }
        | .ok (some f) =>
          some { s with
            consumerListener := s.consumerListener.accepted
            consumerInbox := rest
            payloads := s.payloads.insert (f.request, f.shard) f.payload }
      | _, _ => none
  | .failConsumer =>
    if s.consumer = .accepting ∧ s.consumerListener ≠ .listening then some { s with consumer := .failed .osError }
    else none
  | .joinPool =>
    if s.main = .waitingForPool ∧ W.futures.all (fun p => finished (s.tasks p)) = true then
      some { s with main := match poolFailure W s with | some e => .closingCoordinator (.raised e) | none => .polling }
    else none
  | .check late =>
    if s.main = .polling ∧ (late = true ∨ 2 * W.requests ≤ s.payloads.keys.card) then
      some { s with
        main := .closingCoordinator
          (if s.payloads ≠ W.expected then .raised
           (.runtimeError "consumer payload differs from original systematic bytes") else .pass) }
    else none
  | .closeCoordinator =>
    match s.main with
    | .closingCoordinator verdict =>
      some { s with
        inbox := s.inbox ++ [(connection 0 0 closeFlags []).1]
        main := .joiningCoordinator verdict }
    | _ => none
  | .joinCoordinator late =>
    match s.main with
    | .joiningCoordinator verdict =>
      if late = true ∨ coordinatorEnded s.coordinator = true then
        some { s with listener := .close (s.coordinator = .accepting), main := .closingConsumer verdict }
      else none
    | _ => none
  | .closeConsumer =>
    match s.main with
    | .closingConsumer verdict =>
      some { s with
        consumerInbox := s.consumerInbox ++ [(connection 0 0 closeFlags []).1]
        main := .joiningConsumer verdict }
    | _ => none
  | .joinConsumer late =>
    match s.main with
    | .joiningConsumer verdict =>
      if late = true ∨ consumerEnded s.consumer = true then
        some { s with consumerListener := .close (s.consumer = .accepting), main := .done verdict }
      else none
    | _ => none

end SmokeTest
end TransportSmoke
end CodedLLM
