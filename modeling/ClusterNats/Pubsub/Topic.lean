import ClusterNats.Codec.Index
import ClusterNats.Nats.Bucket

/-!
# Publish and subscribe

A message goes out on a subject made of its topic and its routing key; a
subscriber listens on a pattern made of its own.  The server delivers where the
pattern matches the subject (`subjectMatches`).

* `renderSubject`, `renderSubjectPattern` — the two subjects.
* `publishAsync`, `subscribeAsync` — what is accepted, and what goes on the wire.
* `recoverRoutingKey`, `forward` — what the subscriber makes of a message.
-/

namespace ClusterNats

/-- `NOTIFY_SUBJECT_PREFIX`. -/
def notifySubjectPrefix : String := "mcpg.notify"

/-- `DEFAULT_ROUTING_KEY`, the token of a message without a routing key. -/
def defaultRoutingKey : String := "_default_"

/-- A routing key that was given; an empty one was not. -/
def givenKey (routingKey : Option String) : Option String := routingKey.filter fun k => k ≠ ""

/-- The subject a message is published on. -/
def renderSubject (topic : String) (routingKey : Option String) : String :=
  notifySubjectPrefix ++ "." ++ topic ++ "." ++ (givenKey routingKey).getD defaultRoutingKey

/-- The subject pattern a subscriber listens on. -/
def renderSubjectPattern (topic : String) (routingKey : Option String) : String :=
  match givenKey routingKey with
  | some k => notifySubjectPrefix ++ "." ++ topic ++ "." ++ k
  | none => notifySubjectPrefix ++ "." ++ topic ++ ".*"

/-- Refuse the token of a message without a routing key. -/
def rejectReservedRoutingKey (rk : Option String) : Except ClusterError Unit :=
  if rk = some defaultRoutingKey then
    .error (.invalidReference s!"routing_key `{defaultRoutingKey}` is reserved by the nats-jetstream coordinator (used as the no-routing-key sentinel); pick a different value")
  else .ok ()

/-- A message on the wire. -/
structure NatsMessage where
  subject : String
  headers : HeaderMap
  payload : Bytes
  deriving DecidableEq, Repr

/-- The header with the publisher's node id. -/
def fromNodeHeader : String := "X-Mcpg-From-Node"

/-- Publish a message; `send` is the client's `publish_with_headers`. -/
def publishAsync (send : NatsMessage → Except String Unit) (selfNodeId topic : String)
    (routingKey : Option String) (payload : Bytes) : Except ClusterError Unit := do
  if isBlank topic then .error (.invalidReference "publish topic must not be empty")
  rejectReservedRoutingKey routingKey
  let subject := renderSubject topic routingKey
  (send ⟨subject, [(fromNodeHeader, bytes selfNodeId)], payload⟩).mapError fun e =>
    .backendUnavailable s!"nats publish {subject}: {e}"

/-- `recover_routing_key`: what follows the topic, if it is a routing key. -/
def recoverRoutingKey (topic subject : String) : Option String :=
  ((stripPrefix (bytes (notifySubjectPrefix ++ "." ++ topic ++ ".")) (bytes subject)).bind
    fromUtf8).filter fun stripped => stripped ≠ "" ∧ stripped ≠ defaultRoutingKey

/-- A message as a subscriber gets it. -/
structure PublishedMessage where
  topic : String
  routingKey : Option String
  payload : Bytes
  fromNode : String
  deriving DecidableEq, Repr

/-- What the subscriber to a topic makes of a message. -/
def forward (topic : String) (msg : NatsMessage) : PublishedMessage where
  topic := topic
  routingKey := recoverRoutingKey topic msg.subject
  payload := msg.payload
  fromNode := ((msg.headers.get fromNodeHeader).bind fromUtf8).getD ""

/-- Subscribe to a topic; `listen` is the client's `subscribe`, or its
`queue_subscribe` with a group. -/
def subscribeAsync (listen : String → Option String → Except String Unit) (topic : String)
    (group routingKey : Option String) : Except ClusterError (NatsMessage → PublishedMessage) := do
  if isBlank topic then .error (.invalidReference "subscribe topic must not be empty")
  rejectReservedRoutingKey routingKey
  let pattern := renderSubjectPattern topic routingKey
  (listen pattern group).mapError fun e => .backendUnavailable s!"nats subscribe {pattern}: {e}"
  return forward topic

end ClusterNats
