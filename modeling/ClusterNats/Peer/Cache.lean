import ClusterNats.Pubsub.Topic
import ClusterNats.Codec.Calendar
import ClusterNats.Config.Validate
import Mathlib.Data.List.AList

/-!
# Peers by their heartbeats

Every node publishes a heartbeat on a subject that ends in its id.  A subscriber
folds what it hears into a cache, a sweeper that runs beside it demotes and
drops who is no longer heard, and both tell the listeners what changed.

* `subjectNodeId` — the node a heartbeat is from: its subject's last token, not
  what the payload claims.
* `onMessage`, `onTick` — the two arms of the subscriber's loop.
* `Step` — one processed item; the cache may be walked in any order.
* `subjectNodeId_heartbeatSubject` — an accepted node is heard under its own id.
-/

namespace ClusterNats.Peer

/-- `HEARTBEAT_SUBJECT_PREFIX`. -/
def heartbeatSubjectPrefix : String := "mcpg.peers.heartbeat"

/-- The subject a node's heartbeats are published on. -/
def heartbeatSubject (nodeId : String) : String := heartbeatSubjectPrefix ++ "." ++ nodeId

/-- The node id of a heartbeat: the trailing token of its subject. -/
def subjectNodeId (subject : String) : Option String :=
  ((stripPrefix (bytes (heartbeatSubjectPrefix ++ ".")) (bytes subject)).bind fromUtf8).filter
    fun token => token ≠ "" ∧ '.' ∉ token.toList

/-- What a heartbeat carries. -/
structure HeartbeatPayload where
  nodeId : String
  address : String
  startedAt : String
  /-- The node stops. -/
  leaving : Bool := false
  /-- The node writes the key index. -/
  kvIndex : Bool := false
  deriving DecidableEq, Repr

inductive PeerHealth
  | healthy
  | degraded
  deriving DecidableEq, Repr

/-- What the cache knows of a peer; `lastSeen` is read from the monotonic clock,
in nanoseconds. -/
structure PeerEntry where
  nodeId : String
  address : String
  lastSeen : Nat
  lastSeenRfc3339 : String
  health : PeerHealth
  kvIndex : Bool
  deriving DecidableEq, Repr

/-- A peer as `list_peers` and the events show it. -/
structure ClusterPeer where
  nodeId : String
  address : String
  lastSeen : String
  health : PeerHealth
  roles : List String := []
  deriving DecidableEq, Repr

inductive PeerEvent
  | joined (peer : ClusterPeer)
  | left (nodeId : String)
  | healthChanged (nodeId : String) (health : PeerHealth)
  deriving DecidableEq, Repr

/-- The entries by node id. -/
abbrev PeerCache := AList fun _ : String => PeerEntry

/-- True while a peer that does not write the key index is alive. -/
def unindexedPeerPresent (cache : PeerCache) : Bool := cache.entries.any fun s => !s.2.kvIndex

def PeerEntry.peer (e : PeerEntry) : ClusterPeer where
  nodeId := e.nodeId
  address := e.address
  lastSeen := e.lastSeenRfc3339
  health := e.health

/-- `snapshot_async`. -/
def snapshot (cache : PeerCache) : List ClusterPeer := cache.entries.map fun s => s.2.peer

/-! ## The subscriber -/

/-- `Duration::from_secs`, in nanoseconds. -/
def fromSecs (secs : UInt64) : Nat := secs.toNat * 1000000000

/-- What the subscriber is started with; `decode` is the JSON library's reader
of a payload. -/
structure Subscriber where
  selfNodeId : String
  degradedAfter : Nat
  expiryAfter : Nat
  decode : Bytes → Except String HeartbeatPayload

/-- The subscriber `PeerWorkers::start` spawns. -/
def Subscriber.start (cfg : Config.ClusterNatsConfig) (decode : Bytes → Except String HeartbeatPayload) :
    Subscriber where
  selfNodeId := cfg.node.id
  degradedAfter := fromSecs (cfg.node.heartbeatIntervalSec * 2)
  expiryAfter := fromSecs cfg.node.peerExpirySec
  decode := decode

/-- The heartbeat a node publishes, and with `leaving` its last one. -/
def heartbeat (cfg : Config.ClusterNatsConfig) (startedAt : String) (leaving : Bool) :
    HeartbeatPayload where
  nodeId := cfg.node.id
  address := cfg.node.address.getD ""
  startedAt := startedAt
  leaving := leaving
  kvIndex := true

/-- One heartbeat of a peer folded into the cache: `now` is the monotonic clock
and `secs` the wall clock. -/
def fold (cache : PeerCache) (nodeId : String) (payload : HeartbeatPayload) (now : Nat)
    (secs : Int64) : PeerCache × List PeerEvent :=
  let entry : PeerEntry := {
    nodeId := nodeId
    address := payload.address
    lastSeen := now
    lastSeenRfc3339 := rfc3339 secs
    health := .healthy
    kvIndex := payload.kvIndex }
  let priorHealth := (cache.lookup nodeId).map PeerEntry.health
  let cache' := cache.insert nodeId entry
  match priorHealth with
  | none => (cache', [.joined entry.peer])
  | some .degraded => (cache', [.healthChanged nodeId .healthy])
  | some .healthy => (cache', [])

/-- The arm that receives a heartbeat. -/
def Subscriber.onMessage (sub : Subscriber) (cache : PeerCache) (now : Nat) (secs : Int64)
    (msg : NatsMessage) : PeerCache × List PeerEvent :=
  match subjectNodeId msg.subject with
  | none => (cache, [])
  | some nodeId =>
    if nodeId = sub.selfNodeId then (cache, [])
    else
      match sub.decode msg.payload with
      | .error _ => (cache, [])
      | .ok payload =>
        if payload.leaving then
          (cache.erase nodeId, if nodeId ∈ cache then [.left nodeId] else [])
        else fold cache nodeId payload now secs

/-- What the sweeper makes of one entry: what is kept of it, and what is told. -/
def Subscriber.reclassify (sub : Subscriber) (now : Nat) (nodeId : String) (entry : PeerEntry) :
    Option PeerEntry × Option PeerEvent :=
  let age := now - entry.lastSeen
  if age > sub.expiryAfter then (none, some (.left nodeId))
  else
    let newHealth := if age > sub.degradedAfter then PeerHealth.degraded else .healthy
    if entry.health ≠ newHealth then
      (some { entry with health := newHealth }, some (.healthChanged nodeId newHealth))
    else (some entry, none)

/-- `HashMap::retain`: what is kept of the entries. -/
def Subscriber.retained (sub : Subscriber) (now : Nat) (entries : List (Sigma fun _ : String => PeerEntry)) :
    List (Sigma fun _ : String => PeerEntry) :=
  entries.filterMap fun s => (sub.reclassify now s.1 s.2).1.map fun entry => ⟨s.1, entry⟩

/-- The events of a sweep, in the order the entries are walked in. -/
def Subscriber.deltas (sub : Subscriber) (now : Nat) (entries : List (Sigma fun _ : String => PeerEntry)) :
    List PeerEvent :=
  entries.filterMap fun s => (sub.reclassify now s.1 s.2).2

theorem Subscriber.keys_retained (sub : Subscriber) (now : Nat)
    (entries : List (Sigma fun _ : String => PeerEntry)) :
    (sub.retained now entries).keys.Sublist entries.keys := by
  induction entries with
  | nil => exact .slnil
  | cons s entries ih =>
    cases hkept : (sub.reclassify now s.1 s.2).1 with
    | none => simpa [retained, hkept] using ih.cons s.1
    | some entry => simpa [retained, hkept] using ih.cons_cons s.1

/-- The arm of the sweeper's tick. -/
def Subscriber.onTick (sub : Subscriber) (cache : PeerCache) (now : Nat) :
    PeerCache × List PeerEvent :=
  (⟨sub.retained now cache.entries,
    (sub.keys_retained now cache.entries).nodup cache.nodupKeys⟩, sub.deltas now cache.entries)

/-- What the loop of `subscriber_loop` is woken by. -/
inductive Item
  | message (now : Nat) (secs : Int64) (msg : NatsMessage)
  | tick (now : Nat)
  deriving DecidableEq, Repr

/-- One processed item and the events it sends.  A hash map is walked in no
particular order: the sweeper may meet the entries in any. -/
inductive Step (sub : Subscriber) : PeerCache → Item → List PeerEvent → PeerCache → Prop
  | message (cache : PeerCache) (now : Nat) (secs : Int64) (msg : NatsMessage) :
      Step sub cache (.message now secs msg) (sub.onMessage cache now secs msg).2
        (sub.onMessage cache now secs msg).1
  | tick (cache listing : PeerCache) (now : Nat) (order : listing.entries.Perm cache.entries) :
      Step sub cache (.tick now) (sub.onTick listing now).2 (sub.onTick listing now).1

/-- The loop from its start: the items it processed, the events it sent and the
cache it has. -/
inductive Run (sub : Subscriber) : List Item → List PeerEvent → PeerCache → Prop
  | start : Run sub [] [] ∅
  | item {items : List Item} {events sent : List PeerEvent} {cache cache' : PeerCache} {item : Item}
      (run : Run sub items events cache) (step : Step sub cache item sent cache') :
      Run sub (items ++ [item]) (events ++ sent) cache'

/-! ## Subjects -/

theorem stripPrefix_eq_some {p s rest : Bytes} : stripPrefix p s = some rest ↔ s = p ++ rest := by
  unfold stripPrefix
  constructor
  · intro h
    split at h
    case isFalse => cases h
    case isTrue hpre =>
      obtain ⟨t, rfl⟩ := hpre
      rw [List.drop_left] at h
      rw [Option.some.inj h]
  · rintro rfl
    rw [if_pos (List.prefix_append _ _), List.drop_left]

theorem subjectNodeId_eq_some {subject nodeId : String} : subjectNodeId subject = some nodeId ↔
    subject = heartbeatSubject nodeId ∧ nodeId ≠ "" ∧ '.' ∉ nodeId.toList := by
  have hsubject : bytes (heartbeatSubject nodeId) =
      bytes (heartbeatSubjectPrefix ++ ".") ++ bytes nodeId := bytes_append _ _
  unfold subjectNodeId
  generalize heartbeatSubjectPrefix ++ "." = pre at hsubject ⊢
  rw [Option.filter_eq_some_iff, decide_eq_true_eq]
  refine and_congr_left fun _ => ?_
  constructor
  · intro h
    obtain ⟨rest, hrest, hnode⟩ := Option.bind_eq_some_iff.1 h
    have hpre : bytes subject = bytes pre ++ rest := stripPrefix_eq_some.1 hrest
    refine bytes_injective ?_
    rw [hsubject, hpre, bytes_of_fromUtf8 hnode]
  · rintro rfl
    exact Option.bind_eq_some_iff.2 ⟨bytes nodeId, stripPrefix_eq_some.2 hsubject, fromUtf8_bytes nodeId⟩

/-- **An accepted node is heard under its own id.** -/
theorem subjectNodeId_heartbeatSubject {cfg : Config.ClusterNatsConfig} (h : Config.Accepted cfg) :
    subjectNodeId (heartbeatSubject cfg.node.id) = some cfg.node.id := by
  refine subjectNodeId_eq_some.2 ⟨rfl, h.nodeId.1, fun hdot => ?_⟩
  exact absurd (h.nodeId.2.2 '.' hdot) (by decide)

end ClusterNats.Peer
