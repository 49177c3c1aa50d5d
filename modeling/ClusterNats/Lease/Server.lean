import ClusterNats.Codec.Calendar
import ClusterNats.Codec.Subjects
import ClusterNats.Conc.Rely
import ClusterNats.Kv.Server

/-!
# The server of the lease buckets

Leases live in one bucket and their fencing counters in another.  Every write
of either is conditional on the key's last revision, and made only under a key
that a bucket takes; reads are of any key.

* `LeaseRecord`, `LeaseJson` — a lease, and how it is stored.
* `Req`, `Resp`, `Server`, `serve`, `tick` — the requests and their answers.
-/

namespace ClusterNats.Lease

open Conc

/-- A lease as it is stored. -/
structure LeaseRecord where
  nodeId : String
  fencingToken : UInt64
  acquiredAt : String
  expiresAt : String
  /-- In Unix seconds; `0` for a record that predates the field. -/
  expiresAtUnix : UInt64
  deriving DecidableEq, Repr

/-- The JSON of a lease record, which a library writes and reads. -/
structure LeaseJson where
  /-- `serde_json::to_vec`. -/
  toVec : LeaseRecord → Bytes
  /-- `serde_json::from_slice`. -/
  fromSlice : Bytes → Except String LeaseRecord
  /-- What was written is read back. -/
  fromSlice_toVec : ∀ r, fromSlice (toVec r) = .ok r

/-- The two buckets. -/
inductive KvStore
  | leases
  | fencing
  deriving DecidableEq, Repr

/-- The requests of the lease functions. -/
inductive Req
  /-- `SystemTime::now`. -/
  | systemTime
  /-- `Instant::now`. -/
  | instant
  | sleep (millis : Nat)
  /-- `get_last_raw_message_by_subject`. -/
  | getLast (store : KvStore) (key : String)
  /-- `Store::update`, conditional on the key's last revision. -/
  | update (store : KvStore) (key : String) (value : Bytes) (revision : Nat)
  /-- `Store::delete_expect_revision`. -/
  | deleteExpectRevision (store : KvStore) (key : String) (revision : Nat)
  deriving DecidableEq, Repr

/-- What a request is answered with. -/
def Resp : Req → Type
  | .systemTime => Instant
  | .instant => Instant
  | .sleep _ => Unit
  | .getLast .. => Except String (Option StoredMessage)
  | .update .. => Except PublishError Nat
  | .deleteExpectRevision .. => Except PublishError Unit

/-- What all nodes share. -/
structure Server where
  leases : Bucket
  fencing : Bucket
  clock : Instant
  /-- The server is of release 2.14 or later. -/
  since214 : Bool

namespace Server

def bucket (s : Server) : KvStore → Bucket
  | .leases => s.leases
  | .fencing => s.fencing

def setBucket (s : Server) (store : KvStore) (b : Bucket) : Server :=
  match store with
  | .leases => { s with leases := b }
  | .fencing => { s with fencing := b }

/-- The clock in whole Unix seconds. -/
def now (s : Server) : UInt64 := unixSecs s.clock

/-- The last record of a key. -/
def last (s : Server) (store : KvStore) (key : String) : Option StoredMessage :=
  (s.bucket store).last (bytes key)

/-- Store a record when the key's last revision is the one expected.  The client
sends nothing for a key that is no key of a bucket. -/
def publish (s : Server) (store : KvStore) (key : String) (headers : HeaderMap) (payload : Bytes)
    (revision : Nat) : Except PublishError Nat × Server :=
  if isValidKey (bytes key) then
    match (s.bucket store).storeIf (bytes key) ⟨headers, payload, s.clock⟩ (some revision) with
    | some bucket => (.ok bucket.lastSeq, s.setBucket store bucket)
    | none => (.error ⟨some (lostCasCode s.since214), "wrong last sequence"⟩, s)
  else (.error ⟨none, "key cannot be empty or start/end with `.`"⟩, s)

end Server

/-- The headers of a delete marker. -/
def deleteMarker : HeaderMap := [(kvOperationHeader, bytes "DEL")]

/-- A conditional write in one mode of the backend. -/
def servePublish (m : Mode) (s : Server) (store : KvStore) (key : String) (headers : HeaderMap)
    (payload : Bytes) (revision : Nat) : Option (Except PublishError Nat × Server) :=
  match m with
  | .ok => some (s.publish store key headers payload revision)
  | .fail reason => some (.error ⟨none, reason⟩, s)
  | .lost reason => some (.error ⟨none, reason⟩, (s.publish store key headers payload revision).2)
  | _ => none

/-- How a request is answered in one mode of the backend. -/
def serve (m : Mode) (s : Server) (c : Unit) : (r : Req) → Option (Resp r × Server × Unit)
  | .systemTime => some (s.clock, s, c)
  | .instant => some (s.clock, s, c)
  | .sleep _ => some ((), s, c)
  | .getLast store key => (readOnly m (s.last store key)).map fun x => (x, s, c)
  | .update store key value revision =>
    (servePublish m s store key [] value revision).map fun x => (x.1, x.2, c)
  | .deleteExpectRevision store key revision =>
    (servePublish m s store key deleteMarker [] revision).map fun x =>
      (x.1.map fun _ => (), x.2, c)

/-- Time passes.  The clock never goes back. -/
def tick (t : Instant) (s : Server) : Option Server :=
  if s.clock ≤ t ∧ Representable t then some { s with clock := t } else none

end ClusterNats.Lease
