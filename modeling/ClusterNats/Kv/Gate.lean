import ClusterNats.Kv.Calls
import ClusterNats.Peer.Cache

/-!
# The gate of the key index

Listings of a node read the index of a bucket while a flag of that node is up.
The sweep task of every node raises and lowers its flags: by a record in the
bucket that says the index is complete, and by the peers it sees.  The holder of
the sweep lease completes the index, with a backfill.

* `markIndexComplete`, `indexCompletedAt`, `deleteIndexState` — the record of
  the index state.
* `Fleet`, `GatedBucket` — the buckets with the calls that run on them, the flags
  and the peer caches.  The record of the index state shares no subject with any
  key, so it is kept beside its bucket.
* `gateIndex`, `completeIndex`, `gateTick`, `sweepTick`, `runSweeper` — the sweep
  task.
* `completeKeyIndex`, `openNamed`, `sweepStateBuckets` — what a node does beside it.
* `gateSystem` — the nodes of a fleet, as a `Conc.System` over its buckets.
-/

namespace ClusterNats

open Conc

/-! ## The record of the index state -/

/-- The clock in Unix milliseconds. -/
def unixMillis (t : Instant) : UInt64 := UInt64.ofNat (min (t / 1000000) (UInt64.size - 1))

def nowUnixMillis : Kv UInt64 := .req .systemTime fun (t : Instant) => .ret (unixMillis t)

/-- Record that the index holds every live key, from a backfill that started at
`startedAtMs`. -/
def markIndexComplete (startedAtMs : UInt64) : Kv Unit := do
  match ← write indexStateKey (renderU64 startedAtMs) none .anything with
  | .ok _ => return ()
  | .error (.failed e) => .fail e
  | .error .conflict =>
    .fail (.internal "nats kv index state: an unconditional write reported a conflict")

/-- When the index was last made complete; `none` when it is not complete. -/
def indexCompletedAt : Kv (Option UInt64) := do
  match ← slot indexStateKey "index state" with
  | .live value _ _ => return (fromUtf8 value).bind fun s => parseU64 (bytes s)
  | _ => return none

/-- `Store::delete` of the index state. -/
def deleteIndexState : Kv Unit :=
  .req (.publish indexStateKey [(kvOperationHeader, bytes "DEL")] [] none)
    fun (x : Except String PendingWrite) =>
      match x with
      | .ok (.ok _) => .ret ()
      | .ok (.error e) => .fail (.backendUnavailable s!"nats kv index invalidate: {e.text}")
      | .error e => .fail (.backendUnavailable s!"nats kv index invalidate: {e}")

/-! ## Fleets -/

/-- A state bucket and the calls that run on it. -/
structure GatedBucket where
  calls : KvWorld
  /-- The record under `INDEX_STATE_KEY`. -/
  state : Bucket

/-- The nodes of a fleet and their buckets, by number. -/
structure Fleet where
  buckets : Nat → GatedBucket
  /-- `index_ready` of a node's handle of a bucket. -/
  ready : Nat → Nat → Bool
  /-- The buckets a node opened by name. -/
  named : Nat → List Nat
  peers : Nat → Peer.PeerCache
  /-- `Instant::now`, in nanoseconds. -/
  now : Nat

namespace Fleet

/-- The calls on bucket `b` go on to `w`. -/
def setCalls (f : Fleet) (b : Nat) (w : KvWorld) : Fleet :=
  { f with buckets := Function.update f.buckets b { f.buckets b with calls := w } }

def setState (f : Fleet) (b : Nat) (state : Bucket) : Fleet :=
  { f with buckets := Function.update f.buckets b { f.buckets b with state := state } }

def setReady (f : Fleet) (node b : Nat) (ready : Bool) : Fleet :=
  { f with ready := Function.update f.ready node (Function.update (f.ready node) b ready) }

/-- The server as a request on the index state of bucket `b` meets it. -/
def stateServer (f : Fleet) (b : Nat) : Server :=
  { (f.buckets b).calls.srv with bucket := (f.buckets b).state }

end Fleet

/-- What a node asks for. -/
inductive GateReq
  /-- The timer that fired first: the sweep's, or the gate's. -/
  | select
  | named (node : Nat)
  | insertNamed (node b : Nat)
  | indexReady (node b : Nat)
  | setIndexReady (node b : Nat) (ready : Bool)
  | unindexedPeerPresent (node : Nat)
  | instantNow
  /-- A call of the store starts. -/
  | start (b : Nat) (op : Op)
  /-- A call that started returns. -/
  | await (b thread : Nat)
  /-- A request on the record of the index state. -/
  | state (b : Nat) (r : Req)
  /-- `usage`: the number of records. -/
  | usage (b : Nat)
  /-- `renew` of the sweep lease. -/
  | renewLease (node : Nat)
  /-- `try_acquire_async` of the sweep lease. -/
  | tryAcquireLease (node : Nat)

/-- What a node is answered. -/
def GateResp : GateReq → Type
  | .select => Bool
  | .named _ => List Nat
  | .insertNamed .. => Unit
  | .indexReady .. => Bool
  | .setIndexReady .. => Unit
  | .unindexedPeerPresent _ => Bool
  | .instantNow => Nat
  | .start .. => Nat
  | .await .. => Except ClusterError Reply
  | .state _ r => Resp r
  | .usage _ => Except String Nat
  | .renewLease _ => Except ClusterError Unit
  | .tryAcquireLease _ => Except ClusterError Bool

/-- The programs of a node start no job of their own. -/
abbrev gateSig : Sig where
  Req := GateReq
  Resp := GateResp
  Job := Empty
  Done := Empty
  Err := ClusterError

/-- The programs of a node. -/
abbrev Gate := Prog gateSig

/-- A program of the store on the record of the index state. -/
def onState {α : Type} (b : Nat) : Kv α → Gate α
  | .ret a => .ret a
  | .fail e => .fail e
  | .req r k => .req (.state b r) fun (x : Resp r) => onState b (k x)
  | _ => .stuck

/-- A call of the store, awaited. -/
def callKv (b : Nat) (op : Op) : Gate Reply :=
  .req (.start b op) fun (thread : Nat) =>
    .req (.await b thread) fun (x : Except ClusterError Reply) => Prog.ofExcept id x

/-- The keys a backfill reports. -/
def Reply.indexedKeys : Reply → Nat
  | .indexed n => n
  | _ => 0

/-- `backfill_index`. -/
def backfillKv (b fuel : Nat) : Gate Nat := Reply.indexedKeys <$> callKv b (.backfillIndex fuel)

def indexReady (node b : Nat) : Gate Bool := .req (.indexReady node b) fun (ready : Bool) => .ret ready

def setIndexReady (node b : Nat) (ready : Bool) : Gate Unit :=
  .req (.setIndexReady node b ready) fun (_ : Unit) => .ret ()

def unindexedPeerPresent (node : Nat) : Gate Bool :=
  .req (.unindexedPeerPresent node) fun (present : Bool) => .ret present

def instantNow : Gate Nat := .req .instantNow fun (now : Nat) => .ret now

/-- Mark the index incomplete: a writer without it is alive. -/
def invalidateIndex (node b : Nat) : Gate Unit := do
  setIndexReady node b false
  match ← onState b indexCompletedAt with
  | some _ => onState b deleteIndexState
  | none => return ()

/-- Mark the index of a bucket that holds no record complete. -/
def completeIndexIfEmpty (b : Nat) : Gate Unit :=
  .req (.usage b) fun (x : Except String Nat) => do
    let messages ← Prog.ofExcept (fun e => ClusterError.backendUnavailable s!"nats kv usage: {e}") x
    if messages = 0 then onState b (nowUnixMillis >>= markIndexComplete) else return ()

/-! ## The sweep task -/

/-- What the task is started with. -/
structure SweepParams where
  node : Nat
  /-- The bucket of the `KeyValueStore` primitive. -/
  state : Nat
  kv : NatsKv
  /-- Remove expired records and old markers. -/
  sweep : Bool
  peerExpiry : Nat

/-- `MARKER_GRACE`. -/
def markerGrace : Duration := .fromSecs 60

/-- What the task keeps between its ticks. -/
structure Sweeper where
  /-- The sweep lease is held. -/
  lease : Bool := false
  /-- When this node last saw a peer that does not write the index. -/
  unindexedSeen : Option Nat := none

/-- Let listings of a bucket read its index, or not, as this node sees the fleet. -/
def gateIndex (node b : Nat) (unindexedPeer : Bool) : Gate Unit :=
  if unindexedPeer then discard (invalidateIndex node b).attempt
  else do
    match ← (onState b indexCompletedAt).attempt with
    | .ok completed => setIndexReady node b completed.isSome
    | .error _ => return ()

/-- Index every live key, and mark the index complete when no peer without the
index appeared meanwhile. -/
def completeIndex (node b fuel : Nat) : Gate Unit := do
  let startedAtMs ← onState b nowUnixMillis
  match ← (backfillKv b fuel).attempt with
  | .ok _ =>
    if ← unindexedPeerPresent node then return ()
    match ← (onState b (markIndexComplete startedAtMs)).attempt with
    | .ok _ => setIndexReady node b true
    | .error _ => return ()
  | .error _ => return ()

/-- The state bucket and the buckets opened by name. -/
def openBuckets (node state : Nat) : Gate (List Nat) :=
  .req (.named node) fun (named : List Nat) => .ret (state :: named)

/-- `all(|kv| kv.index_ready())`. -/
def allReady (node : Nat) : List Nat → Gate Bool
  | [] => return true
  | b :: bs => do
    if ← indexReady node b then allReady node bs else return false

/-- A tick of the gate. -/
def gateTick (p : SweepParams) (buckets : List Nat) (task : Sweeper) : Gate Sweeper := do
  if ← allReady p.node buckets then return task
  if ← unindexedPeerPresent p.node then return { task with unindexedSeen := some (← instantNow) }
  buckets.forM fun b => do
    if ← indexReady p.node b then return ()
    gateIndex p.node b false
  return task

/-- What a sweep tick does with one bucket once the lease is held. -/
def sweepBucket (p : SweepParams) (task : Sweeper) (unindexed : Bool) (fuel b : Nat) : Gate Unit := do
  if p.sweep then discard (callKv b (.sweep p.kv markerGrace fuel)).attempt
  let settled ← match task.unindexedSeen with
    | none => pure true
    | some seen => (fun now => decide (p.peerExpiry ≤ now - seen)) <$> instantNow
  if !unindexed && settled then
    if ← indexReady p.node b then return ()
    completeIndex p.node b fuel

/-- The sweep lease, kept or taken: `none` when another node holds it. -/
def holdLease (p : SweepParams) (task : Sweeper) : Gate (Sweeper × Bool) := do
  let kept ← if task.lease then
      .req (.renewLease p.node) fun (x : Except ClusterError Unit) => .ret x.toBool
    else pure false
  if kept then return (task, true)
  .req (.tryAcquireLease p.node) fun (x : Except ClusterError Bool) =>
    match x with
    | .ok true => .ret ({ task with lease := true }, true)
    | _ => .ret ({ task with lease := false }, false)

/-- A tick of the sweep. -/
def sweepTick (p : SweepParams) (fuel : Nat) (buckets : List Nat) (task : Sweeper) : Gate Sweeper := do
  buckets.forM fun b => .req (.usage b) fun (_ : Except String Nat) => .ret ()
  let unindexed ← unindexedPeerPresent p.node
  let seen ← if unindexed then some <$> instantNow else pure task.unindexedSeen
  let task := { task with unindexedSeen := seen }
  buckets.forM fun b => gateIndex p.node b unindexed
  let (task, held) ← holdLease p task
  if held then buckets.forM fun b => sweepBucket p task unindexed fuel b
  return task

/-- `run`, for `ticks` ticks. -/
def runSweeper (p : SweepParams) (fuel : Nat) : (ticks : Nat) → Sweeper → Gate Unit
  | 0, _ => .stuck
  | ticks + 1, task =>
    .req .select fun (sweep : Bool) => do
      let buckets ← openBuckets p.node p.state
      let task ← if sweep then sweepTick p fuel buckets task else gateTick p buckets task
      runSweeper p fuel ticks task

/-! ## Beside the task -/

/-- Index every live key of the buckets and let listings read the index. -/
def completeKeyIndex (node state fuel : Nat) : Gate (List (Nat × Nat)) := do
  if ← unindexedPeerPresent node then
    .fail (.precondition "a peer that does not write the key index is alive")
  let buckets ← openBuckets node state
  buckets.mapM fun b => do
    let startedAtMs ← onState b nowUnixMillis
    let count ← backfillKv b fuel
    onState b (markIndexComplete startedAtMs)
    setIndexReady node b true
    return (b, count)

/-- A bucket is opened by name, once. -/
def openNamed (node b : Nat) : Gate Unit :=
  .req (.named node) fun (named : List Nat) =>
    if b ∈ named then return ()
    else do
      discard (completeIndexIfEmpty b).attempt
      .req (.insertNamed node b) fun (_ : Unit) => .ret ()

/-- Sweep every bucket now, whether or not the lease is held. -/
def sweepStateBuckets (node state : Nat) (kv : NatsKv) (grace : Duration) (fuel : Nat) :
    Gate (List (Nat × Reply)) := do
  let buckets ← openBuckets node state
  buckets.mapM fun b => do
    return (b, ← callKv b (.sweep kv grace fuel))

/-- What runs on a node. -/
inductive NodeOp
  /-- The sweep task. -/
  | sweeper (p : SweepParams) (fuel ticks : Nat)
  | completeKeyIndex (node state fuel : Nat)
  /-- The state bucket is opened. -/
  | openState (state : Nat)
  | openNamed (node b : Nat)
  | sweepStateBuckets (node state : Nat) (kv : NatsKv) (grace : Duration) (fuel : Nat)

/-- The program of a node. -/
def NodeOp.program : NodeOp → Gate Unit
  | .sweeper p fuel ticks => runSweeper p fuel ticks {}
  | .completeKeyIndex node state fuel => discard (ClusterNats.completeKeyIndex node state fuel)
  | .openState state => discard (completeIndexIfEmpty state).attempt
  | .openNamed node b => ClusterNats.openNamed node b
  | .sweepStateBuckets node state kv grace fuel =>
    discard (ClusterNats.sweepStateBuckets node state kv grace fuel)

/-! ## The system -/

/-- How a request of a node is answered. -/
inductive GateMode
  | backend (m : Mode)
  /-- The sweep's timer fired, or the gate's. -/
  | fired (sweep : Bool)
  /-- What became of the sweep lease. -/
  | lease (x : Except ClusterError Bool)

/-- What happens beside the nodes' own programs. -/
inductive FleetEnv
  /-- The calls on bucket `b` take a step. -/
  | kv (b : Nat) (c : KvChoice)
  /-- The next listings of bucket `b` are of `node`. -/
  | lists (node b : Nat)
  /-- The subscriber of a node folds what it heard into its cache. -/
  | peers (node : Nat) (cache : Peer.PeerCache)
  /-- A sweep of bucket `b` removes the marker of its index state. -/
  | purgeState (b : Nat)
  | elapse (now : Nat)

/-- The server's answer to a request of a node. -/
def Fleet.serve (api : CounterApi) (m : GateMode) (f : Fleet) (_ : Unit) :
    (r : GateReq) → Option (GateResp r × Fleet × Unit)
  | .select =>
    match m with
    | .fired sweep => some (sweep, f, ())
    | _ => none
  | .named node => some (f.named node, f, ())
  | .insertNamed node b =>
    some ((), { f with named := Function.update f.named node (f.named node ++ [b]) }, ())
  | .indexReady node b => some (f.ready node b, f, ())
  | .setIndexReady node b ready => some ((), f.setReady node b ready, ())
  | .unindexedPeerPresent node => some (Peer.unindexedPeerPresent (f.peers node), f, ())
  | .instantNow => some (f.now, f, ())
  | .start b op =>
    (World.step (kvSystem api) (f.buckets b).calls (.start op)).map fun w =>
      ((f.buckets b).calls.threads.length, f.setCalls b w, ())
  | .await b thread =>
    ((f.buckets b).calls.threads[thread]?.bind fun th => th.main.result?).map fun x => (x, f, ())
  | .state b r =>
    match m with
    | .backend m =>
      (ClusterNats.serve m (f.stateServer b) none r).map fun x => (x.1, f.setState b x.2.1.bucket, ())
    | _ => none
  | .usage b =>
    match m with
    | .backend m =>
      (readOnly m ((f.buckets b).calls.srv.bucket.records.length + (f.buckets b).state.records.length)).map
        fun x => (x, f, ())
    | _ => none
  | .renewLease _ =>
    match m with
    | .lease x => some (x.map fun _ => (), f, ())
    | _ => none
  | .tryAcquireLease _ =>
    match m with
    | .lease x => some (x, f, ())
    | _ => none

/-- A move of the flag that listings read. -/
def setsIndexReady : KvChoice → Bool
  | .env (.setIndexReady _) => true
  | _ => false

/-- A move beside the nodes' own programs.  The flag a listing reads is that of
its node. -/
def FleetEnv.apply (api : CounterApi) (v : FleetEnv) (f : Fleet) : Option Fleet :=
  match v with
  | .kv b c =>
    if setsIndexReady c then none
    else (World.step (kvSystem api) (f.buckets b).calls c).map (f.setCalls b)
  | .lists node b =>
    (World.step (kvSystem api) (f.buckets b).calls (.env (.setIndexReady (f.ready node b)))).map
      (f.setCalls b)
  | .peers node cache => some { f with peers := Function.update f.peers node cache }
  | .purgeState b =>
    let state := (f.buckets b).state
    (state.last indexStateKey).bind fun m =>
      if recordOperation m.body.headers = .put then none
      else some (f.setState b (state.purge indexStateKey none))
  | .elapse now => if f.now ≤ now then some { f with now := now } else none

/-- The nodes of a fleet. -/
def gateSystem (api : CounterApi) : System gateSig Fleet Unit GateMode FleetEnv NodeOp Unit where
  serve := Fleet.serve api
  env := FleetEnv.apply api
  deliver _ _ := none
  loc₀ := ()
  job := fun j => j.elim
  call _ op := some op.program

/-- A state of the fleet and its nodes. -/
abbrev FleetWorld := World gateSig Fleet Unit NodeOp Unit

/-- A choice of the fleet's scheduler. -/
abbrev FleetChoice := Choice GateMode FleetEnv NodeOp

/-- A fleet that starts on the buckets as the servers `s` hold them, with what was
recorded of their indexes before. -/
def Fleet.start (s : Nat → Server) (state : Nat → Bucket) : Fleet where
  buckets b := ⟨.start { s b with indexReady := false }, state b⟩
  ready _ _ := false
  named _ := []
  peers _ := ∅
  now := 0

/-- No program runs yet. -/
def FleetWorld.start (f : Fleet) : FleetWorld := ⟨f, [], []⟩

end ClusterNats
