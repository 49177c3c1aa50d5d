import ClusterNats.Config.Buckets
import ClusterNats.Kv.Server

/-!
# The buckets a node ensures

A node that connects ensures its buckets: it creates what does not exist and
raises a byte cap below its own.  It reads a bucket's configuration and writes
it back in two requests, beside the other nodes that connect.

* `StreamConfig`, `JetStream`, `BucketReq` — the streams of the buckets.
* `growBucket`, `ensureKvBucket` — one bucket.
* `BootOp`, `bootSystem` — the nodes that connect and open buckets by name.
-/

namespace ClusterNats.Config

open Conc

/-- `KvStorage`. -/
inductive KvStorage
  | file
  | memory
  deriving DecidableEq, Repr

/-- The configuration of a bucket's stream. -/
structure StreamConfig where
  bucket : String
  /-- The byte cap; below zero for none. -/
  maxBytes : Int
  numReplicas : Nat
  storage : KvStorage
  deriving DecidableEq, Repr

/-- The buckets that exist, by name. -/
abbrev JetStream := String → Option StreamConfig

inductive BucketReq
  | getKeyValue (name : String)
  | createKeyValue (config : StreamConfig)
  | updateStream (config : StreamConfig)

def BucketResp : BucketReq → Type
  | .getKeyValue _ => Except String StreamConfig
  | .createKeyValue _ => Except String Unit
  | .updateStream _ => Except String Unit

abbrev bucketSig : Sig where
  Req := BucketReq
  Resp := BucketResp
  Job := Empty
  Done := Empty
  Err := ClusterError

/-- The programs of a node that connects. -/
abbrev Boot := Prog bucketSig

/-! ## One bucket -/

/-- Raise the byte cap of an existing bucket; a refusal leaves the cap. -/
def growBucket (store : StreamConfig) (maxBytes : Int) : Boot Unit :=
  if store.maxBytes < 0 ∨ maxBytes ≤ store.maxBytes then .ret ()
  else .req (.updateStream { store with maxBytes := maxBytes }) fun (_ : Except String Unit) => .ret ()

/-- The message of a cluster with too few peers for the replicas. -/
def looksLikeInsufficientPeers (msg : String) : Bool :=
  let m := msg.map Char.toLower
  contains m "insufficient replicas" || contains m "no suitable peers" || contains m "not enough peers" ||
    contains m "replicas" && (contains m "not" || contains m "insufficient")

/-- The arm of `ensure_kv_bucket` that creates the bucket. -/
def createKvBucket (name : String) (replicas : UInt32) (maxBytes : Int) (storage : KvStorage) : Boot Unit :=
  .req (.createKeyValue ⟨name, maxBytes, replicas.toNat, storage⟩) fun (x : Except String Unit) =>
    match x with
    | .ok _ => .ret ()
    | .error e =>
      if 1 < replicas ∧ looksLikeInsufficientPeers e = true then
        .req (.createKeyValue ⟨name, maxBytes, 1, storage⟩) fun (y : Except String Unit) =>
          Prog.ofExcept (fun e => ClusterError.backendUnavailable
            s!"nats kv ensure_bucket {name} (after replica fallback): {e}") y
      else .fail (.backendUnavailable s!"nats kv ensure_bucket {name}: {e}")

/-- The bucket, created or with its cap raised. -/
def ensureKvBucket (name : String) (replicas : UInt32) (maxBytes : Int) (storage : KvStorage) : Boot Unit :=
  .req (.getKeyValue name) fun (x : Except String StreamConfig) =>
    match x with
    | .ok store => growBucket store maxBytes
    | .error _ => createKvBucket name replicas maxBytes storage

/-! ## The nodes -/

/-- `i64::try_from(bytes).unwrap_or(i64::MAX)`. -/
def capOf (bytes : UInt64) : Int :=
  if bytes.toNat ≤ 9223372036854775807 then Int.ofNat bytes.toNat else 9223372036854775807

/-- The buckets of `NatsClientHandle::connect`. -/
def connectBuckets (js : JetStreamConfig) (storage : KvStorage) : Boot Unit := do
  ensureKvBucket js.leasesBucket js.replicas (1024 * 1024) storage
  ensureKvBucket js.fencingBucket js.replicas (64 * 1024) storage
  ensureKvBucket js.stateBucket js.replicas (capOf js.stateBucketMaxBytes) storage

inductive BootOp
  /-- A node connects. -/
  | connect (js : JetStreamConfig) (storage : KvStorage)
  /-- `named_bucket`. -/
  | namedBucket (js : JetStreamConfig) (storage : KvStorage) (name : String)

def BootOp.program : BootOp → Boot Unit
  | .connect js storage => connectBuckets js storage
  | .namedBucket js storage name =>
    ensureKvBucket (Config.namedBucket js.stateBucket name) js.replicas (capOf js.namedBucketMaxBytes) storage

/-- The buckets an operation ensures, with the caps it asks for. -/
def BootOp.asks : BootOp → List (String × Int)
  | .connect js _ => [(js.leasesBucket, 1024 * 1024), (js.fencingBucket, 64 * 1024),
      (js.stateBucket, capOf js.stateBucketMaxBytes)]
  | .namedBucket js _ name => [(Config.namedBucket js.stateBucket name, capOf js.namedBucketMaxBytes)]

/-! ## The system -/

/-- A request that is carried out, lost on the way, or answered and lost. -/
def carryOut (m : Mode) (s s' : JetStream) (x : Except String Unit) :
    Option (Except String Unit × JetStream × Unit) :=
  match m with
  | .ok => some (x, s', ())
  | .fail reason => some (.error reason, s, ())
  | .lost reason => some (.error reason, s', ())
  | _ => none

/-- The server's answer. -/
def JetStream.serve (m : Mode) (s : JetStream) (_ : Unit) :
    (r : BucketReq) → Option (BucketResp r × JetStream × Unit)
  | .getKeyValue name =>
    (readOnly m (s name)).map fun x => (x.bind fun o => o.elim (.error "stream not found") .ok, s, ())
  | .createKeyValue config =>
    match s config.bucket with
    | none => carryOut m s (Function.update s config.bucket (some config)) (.ok ())
    | some config' => carryOut m s s
        (if config' = config then .ok () else .error "stream name already in use with a different configuration")
  | .updateStream config =>
    match s config.bucket with
    | none => carryOut m s s (.error "stream not found")
    | some _ => carryOut m s (Function.update s config.bucket (some config)) (.ok ())

/-- The nodes that connect and open buckets by name. -/
def bootSystem : System bucketSig JetStream Unit Mode Empty BootOp Unit where
  serve := JetStream.serve
  env v := v.elim
  deliver _ _ := none
  loc₀ := ()
  job := fun j => j.elim
  call _ op := some op.program

abbrev BootWorld := World bucketSig JetStream Unit BootOp Unit

abbrev BootChoice := Choice Mode Empty BootOp

/-- Nobody has connected yet. -/
def BootWorld.start (s : JetStream) : BootWorld := ⟨s, [], []⟩

end ClusterNats.Config
