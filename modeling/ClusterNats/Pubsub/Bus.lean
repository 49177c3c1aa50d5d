import ClusterNats.Pubsub.Topic

/-!
# The message bus

Nodes publish; forwarders hand what their subscriptions get to the host, and the
host cancels them.  A message that was published is under way: later the server
hands it to subscriptions whose pattern matches its subject, to one at most of
each queue group, and maybe to none.  It keeps the order of the messages of one
connection, and no order between connections.

* `Publication` — an accepted message.
* `Forwarder`, `subscribe`, `Forwarder.step` — a subscription of the host: its task,
  and the `StreamState` the host drops to cancel it.
* `Bus`, `BusChoice`, `Bus.step`, `Bus.run` — the bus.
-/

namespace ClusterNats

/-! ## Messages -/

/-- What a node publishes. -/
structure Publication where
  /-- The connection of the node's client that the message goes out on. -/
  connection : Nat
  node : String
  topic : String
  routingKey : Option String
  payload : Bytes
  deriving DecidableEq, Repr

/-- The message on the wire. -/
def Publication.message (p : Publication) : NatsMessage :=
  ⟨renderSubject p.topic p.routingKey, [(fromNodeHeader, bytes p.node)], p.payload⟩

/-! ## Forwarders -/

/-- Where the task of a forwarder stands. -/
inductive Phase
  /-- At the `await` of `subscribe` or `queue_subscribe`. -/
  | subscribing
  /-- At the `await` of the next message. -/
  | listening
  /-- In `emit_event`. -/
  | emitting
  /-- Its future was dropped, and `ForwarderDoneSignal` with it. -/
  | dropped
  deriving DecidableEq, Repr

/-- Where the drop of `StreamState` stands. -/
inductive Cancel
  /-- The host holds the stream. -/
  | held
  /-- The task is aborted and its signal awaited. -/
  | waiting
  /-- It returned: on the signal, or at the end of its time. -/
  | returned (signalled : Bool)
  deriving DecidableEq, Repr

structure Forwarder where
  topic : String
  group : Option String
  routingKey : Option String
  phase : Phase := .subscribing
  /-- The messages the server handed to the subscription, the oldest first. -/
  handed : List Nat := []
  /-- What the client holds for the subscription, the oldest first. -/
  inbox : List (Nat × NatsMessage) := []
  /-- The events given to `emit_event`, the oldest first. -/
  emitted : List (Nat × PublishedMessage) := []
  cancel : Cancel := .held
  deriving DecidableEq, Repr

/-- Spawn a subscription forwarder. -/
def subscribe (topic : String) (group routingKey : Option String) : Except ClusterError Forwarder := do
  if isBlank topic then .error (.invalidReference "subscribe topic must not be empty")
  rejectReservedRoutingKey routingKey
  return { topic := topic, group := group, routingKey := routingKey }

/-- The steps of a forwarder. -/
inductive ForwarderStep
  /-- The server took the subscription, or refused it. -/
  | subscribed (ok : Bool)
  /-- The next message is read, and its event serialises or not. -/
  | next (serialises : Bool)
  /-- The subscription ended. -/
  | ended
  /-- `emit_event` returns. -/
  | emitted
  /-- The host drops the stream. -/
  | cancel
  /-- The runtime drops an aborted task at an `await`. -/
  | aborted
  /-- The drop of the stream returns. -/
  | cancelled (signalled : Bool)

def Forwarder.step (f : Forwarder) : ForwarderStep → Option Forwarder
  | .subscribed ok =>
    if f.phase = .subscribing then some { f with phase := if ok then .listening else .dropped } else none
  | .next serialises =>
    if f.phase = .listening then
      match f.inbox with
      | [] => none
      | (n, msg) :: rest =>
        if serialises then
          some { f with
            phase := .emitting, inbox := rest, emitted := f.emitted ++ [(n, forward f.topic msg)] }
        else some { f with inbox := rest }
    else none
  | .ended => if f.phase = .listening then some { f with phase := .dropped } else none
  | .emitted => if f.phase = .emitting then some { f with phase := .listening } else none
  | .cancel => if f.cancel = .held then some { f with cancel := .waiting } else none
  | .aborted =>
    if f.cancel ≠ .held ∧ (f.phase = .subscribing ∨ f.phase = .listening) then
      some { f with phase := .dropped }
    else none
  | .cancelled signalled =>
    if f.cancel = .waiting ∧ (signalled = true → f.phase = .dropped) then
      some { f with cancel := .returned signalled }
    else none

/-! ## The bus -/

structure Bus where
  /-- What was published, the oldest first. -/
  sent : List Publication
  forwarders : List Forwarder
  deriving DecidableEq, Repr

def Bus.empty : Bus := ⟨[], []⟩

/-- The subscription is open and its pattern matches. -/
def Forwarder.takes (f : Forwarder) (subject : String) : Bool :=
  (f.phase = .listening || f.phase = .emitting) &&
    subjectMatches (bytes (renderSubjectPattern f.topic f.routingKey)) (bytes subject)

/-- Two subscriptions of one queue group: the server tells groups apart by name. -/
def Forwarder.rivals (f g : Forwarder) : Bool := f.group.isSome && f.group = g.group

/-- The server may hand message `n` to a subscription: it takes the subject, was
handed no message of the connection from `n` on, and no rival was handed `n`. -/
def Bus.MayDeliver (bus : Bus) (n : Nat) (p : Publication) (f : Forwarder) : Prop :=
  f.takes p.message.subject = true ∧
    (∀ m ∈ f.handed, ∀ q ∈ bus.sent[m]?, q.connection = p.connection → m < n) ∧
    ∀ g ∈ bus.forwarders, f.rivals g = true → n ∉ g.handed

instance (bus : Bus) (n : Nat) (p : Publication) (f : Forwarder) : Decidable (bus.MayDeliver n p f) :=
  inferInstanceAs (Decidable (_ ∧ _ ∧ _))

/-- The client of a subscription gets a message. -/
def Forwarder.receive (f : Forwarder) (n : Nat) (msg : NatsMessage) : Forwarder :=
  { f with handed := f.handed ++ [n], inbox := f.inbox ++ [(n, msg)] }

inductive BusChoice
  /-- A node publishes: its client takes the message. -/
  | publish (p : Publication)
  /-- The server hands message `n` to subscription `i`. -/
  | deliver (n i : Nat)
  | subscribe (topic : String) (group routingKey : Option String)
  | forwarder (i : Nat) (s : ForwarderStep)

/-- One step; a call that is refused leaves the bus. -/
def Bus.step (bus : Bus) : BusChoice → Option Bus
  | .publish p =>
    match publishAsync (fun _ => .ok ()) p.node p.topic p.routingKey p.payload with
    | .ok _ => some { bus with sent := bus.sent ++ [p] }
    | .error _ => some bus
  | .deliver n i =>
    bus.sent[n]?.bind fun p => bus.forwarders[i]?.bind fun f =>
      if bus.MayDeliver n p f then
        some { bus with forwarders := bus.forwarders.set i (f.receive n p.message) }
      else none
  | .subscribe topic group routingKey =>
    match subscribe topic group routingKey with
    | .ok f => some { bus with forwarders := bus.forwarders ++ [f] }
    | .error _ => some bus
  | .forwarder i s =>
    bus.forwarders[i]?.bind fun f => (f.step s).map fun f' =>
      { bus with forwarders := bus.forwarders.set i f' }

/-- The run of a list of choices; `none` as soon as one is not enabled. -/
def Bus.run (bus : Bus) : List BusChoice → Option Bus
  | [] => some bus
  | c :: cs => (bus.step c).bind fun bus' => bus'.run cs

end ClusterNats
