import ClusterNats.Lease.Server

/-!
# Leases

The lease functions as request programs: every read of a bucket or the clock
and every write is one request, in the order the code makes them.

* `bumpFencingToken` — mint a token.
* `tryCreate`, `reclaimIfExpired` — take the slot of a lease.
* `acquireAsync`, `tryAcquireAsync` — the acquisitions.
* `readHeld`, `renewInner`, `renewalLoop`, `releaseAsync` — a lease that is held.
-/

namespace ClusterNats.Lease

open Conc

/-- The signature of the lease programs; none of them starts a job. -/
abbrev leaseSig : Sig where
  Req := Req
  Resp := Resp
  Job := Empty
  Done := Empty
  Err := ClusterError

/-- A program of the lease functions. -/
abbrev LeaseProg := Prog leaseSig

/-- An early return for a request that failed. -/
def orUnavailable {α ε : Type} (describe : ε → String) (x : Except ε α) : LeaseProg α :=
  Prog.ofExcept (fun e => .backendUnavailable (describe e)) x

/-! ## Times -/

/-- `Duration::from_millis`. -/
def fromMillis (millis : UInt64) : Duration where
  secs := millis / 1000
  subsecNanos := millis.toNat % 1000 * 1000000
  subsec_lt := by omega

/-- A duration in nanoseconds. -/
def Duration.nanos (d : Duration) : Nat := d.secs.toNat * 1000000000 + d.subsecNanos

/-- `u64::saturating_add`. -/
def saturatingAdd (a b : UInt64) : UInt64 :=
  if a.toNat + b.toNat < UInt64.size then a + b else UInt64.ofNat (UInt64.size - 1)

/-- `SystemTime::now`, in whole Unix seconds. -/
def nowUnixSecs : LeaseProg UInt64 := .req .systemTime fun (t : Instant) => .ret (unixSecs t)

/-- The text of the time `offset` from now. -/
def rfc3339After (offset : Duration) : LeaseProg String :=
  .req .systemTime fun (t : Instant) =>
    .ret (rfc3339 (Int64.ofNat ((t + Duration.nanos offset) / 1000000000)))

def nowRfc3339 : LeaseProg String := rfc3339After (.fromSecs 0)

/-- The expiry pair of a lease: the clock is read once for either half. -/
def expiryFor (ttl : Duration) : LeaseProg (String × UInt64) := do
  let expiresAt ← rfc3339After ttl
  return (expiresAt, saturatingAdd (← nowUnixSecs) ttl.secs)

/-- A record without a date is not expired, and the clock is not read for it. -/
def leaseIsExpired (record : LeaseRecord) : LeaseProg Bool :=
  if record.expiresAtUnix ≠ 0 then do return record.expiresAtUnix ≤ (← nowUnixSecs)
  else return false

/-! ## Records -/

/-- `last_record`: the last record of a key, read from the stream's leader. -/
def lastRecord (store : KvStore) (key : String) : LeaseProg (Except String (Option Record)) :=
  .req (.getLast store key) fun (x : Except String (Option StoredMessage)) =>
    .ret (x.map fun m => m.map Record.ofMessage)

/-- `Store::update`. -/
def update (store : KvStore) (key : String) (value : Bytes) (revision : Nat) :
    LeaseProg (Except PublishError Nat) :=
  .req (.update store key value revision) fun (x : Except PublishError Nat) => .ret x

/-- A KV update that lost its compare-and-set, under either server code. -/
def lostCas (e : PublishError) : Bool := e.kind = .wrongLastSequence || isWrongLastSequence e

/-! ## Fencing tokens -/

/-- `FENCING_KEY_PREFIX`, before the key of the lease. -/
def fencingPath (key : String) : String := "fencing." ++ key

/-- The counter in a fencing record; an unreadable one counts as `0`. -/
def parseToken (payload : Bytes) : UInt64 := (parseU64 payload).getD 0

/-- The token after the one a fencing record holds. -/
def nextToken : Option Record → UInt64
  | some e => saturatingAdd (parseToken e.payload) 1
  | none => 1

/-- The revision of a record, `0` for none. -/
def revisionOf (entry : Option Record) : Nat := entry.elim 0 Record.revision

/-- The rounds of `bump_fencing_token` that are left. -/
def bumpRounds (path : String) : Nat → LeaseProg UInt64
  | 0 => .fail (.backendUnavailable "fencing CAS exhausted retries")
  | rounds + 1 => do
    let entry ← orUnavailable (fun e => s!"fencing read: {e}") (← lastRecord .fencing path)
    let next := nextToken entry
    match ← update .fencing path (renderU64 next) (revisionOf entry) with
    | .ok _ => return next
    | .error e =>
      let text := e.text
      if lostCas e then bumpRounds path rounds
      else .fail (.backendUnavailable s!"fencing CAS: {text}")

def bumpFencingToken (key : String) : LeaseProg UInt64 := bumpRounds (fencingPath key) 16

/-! ## Taking the slot -/

/-- What an attempt at the slot came to. -/
inductive AcquireOutcome
  | acquired (record : LeaseRecord) (revision : Nat)
  | held
  | backendError (reason : String)
  deriving DecidableEq, Repr

/-- Replace the record read at `revision` with ours; every failure counts as
held. -/
def reclaim (json : LeaseJson) (key : String) (record : LeaseRecord) (revision : Nat) :
    LeaseProg AcquireOutcome := do
  match ← update .leases key (json.toVec record) revision with
  | .ok rev => return .acquired record rev
  | .error _ => return .held

/-- Take over a released or lapsed lease. -/
def reclaimIfExpired (json : LeaseJson) (key : String) (record : LeaseRecord) :
    LeaseProg AcquireOutcome := do
  match ← lastRecord .leases key with
  | .error e => return .backendError s!"lease reclaim read: {e}"
  -- the key vanished between the failed create and this read
  | .ok none => return .held
  | .ok (some entry) =>
    if entry.operation ≠ .put then reclaim json key record entry.revision
    else
      match json.fromSlice entry.payload with
      | .error _ => return .held
      | .ok incumbent =>
        if ← leaseIsExpired incumbent then reclaim json key record entry.revision
        else return .held

/-- Take the slot when it is empty, released or lapsed. -/
def tryCreate (json : LeaseJson) (key : String) (record : LeaseRecord) :
    LeaseProg AcquireOutcome := do
  match ← update .leases key (json.toVec record) 0 with
  | .ok rev => return .acquired record rev
  | .error e =>
    let text := e.text
    if lostCas e then reclaimIfExpired json key record
    else return .backendError s!"kv create: {text}"

/-! ## Acquisitions -/

/-- The inputs of an acquisition. -/
structure AcquireParams where
  key : String
  nodeId : String
  ttlMs : UInt64
  /-- Wait until the slot is free. -/
  wait : Bool
  renewBeforeExpiryPercent : UInt32
  deriving DecidableEq, Repr

/-- A lease that is held: what its holder and its renewal task know. -/
structure LeaseHandle where
  key : String
  nodeId : String
  fencingToken : UInt64
  ttl : Duration
  renewBeforeExpiryPercent : UInt32
  deriving DecidableEq, Repr

/-- The TTL of an acquisition. -/
def AcquireParams.ttl (p : AcquireParams) : Duration := fromMillis (max p.ttlMs 1)

/-- Mint a token and try the slot with it. -/
def attempt (json : LeaseJson) (p : AcquireParams) : LeaseProg AcquireOutcome := do
  let fencingToken ← bumpFencingToken p.key
  let (expiresAt, expiresAtUnix) ← expiryFor p.ttl
  let record : LeaseRecord := {
    nodeId := p.nodeId, fencingToken, acquiredAt := ← nowRfc3339, expiresAt, expiresAtUnix }
  tryCreate json p.key record

/-- `spawn_lease_handle`; its renewal task is a call of its own. -/
def spawnLeaseHandle (p : AcquireParams) (record : LeaseRecord) : LeaseHandle where
  key := p.key
  nodeId := record.nodeId
  fencingToken := record.fencingToken
  ttl := p.ttl
  renewBeforeExpiryPercent := p.renewBeforeExpiryPercent

/-- The refusal of a blank key. -/
def blankKey : ClusterError := .invalidReference "lease key must not be empty"

/-- `ACQUIRE_LEADERSHIP_RETRY_MS`. -/
def acquireLeadershipRetryMs : Nat := 500

/-- `max_wait`, in nanoseconds. -/
def AcquireParams.maxWait (p : AcquireParams) : Nat :=
  max (min (p.ttlMs.toNat * 3) (UInt64.size - 1)) 1000 * 1000000

/-- What a waiting acquisition does at a held slot: it sleeps and goes on with
`again`, until it has waited longer than `limit`. -/
def waitForSlot (p : AcquireParams) (started : Instant) (limit : Nat)
    (again : LeaseProg LeaseHandle) : LeaseProg LeaseHandle :=
  if p.wait then
    .req .instant fun (t : Instant) =>
      if limit < t - started then .fail .timeout
      else .req (.sleep acquireLeadershipRetryMs) fun _ => again
  else
    let key := p.key
    .fail (.backendUnavailable s!"lease key `{key}` is held by another node")

/-- The loop of an acquisition; it has no bound of its own. -/
def acquireLoop (json : LeaseJson) (p : AcquireParams) (started : Instant) :
    (fuel : Nat) → LeaseProg LeaseHandle
  | 0 => .stuck
  | fuel + 1 => do
    match ← attempt json p with
    | .acquired record _ => return spawnLeaseHandle p record
    | .held => waitForSlot p started (p.maxWait * 10) (acquireLoop json p started fuel)
    | .backendError reason => .fail (.backendUnavailable reason)

def acquireAsync (json : LeaseJson) (p : AcquireParams) (fuel : Nat) : LeaseProg LeaseHandle :=
  if isBlank p.key then .fail blankKey
  else .req .instant fun (started : Instant) => acquireLoop json p started fuel

def tryAcquireAsync (json : LeaseJson) (p : AcquireParams) : LeaseProg (Option LeaseHandle) := do
  if isBlank p.key then .fail blankKey
  else
    match ← attempt json p with
    | .acquired record _ => return some (spawnLeaseHandle p record)
    | .held => return none
    | .backendError reason => .fail (.backendUnavailable reason)

/-! ## A lease that is held -/

/-- Does the record belong to the lease? -/
def LeaseHandle.owns (h : LeaseHandle) (record : LeaseRecord) : Bool :=
  record.nodeId = h.nodeId && record.fencingToken = h.fencingToken

/-- The lease's current record and its revision. -/
def readHeld (json : LeaseJson) (h : LeaseHandle) : LeaseProg (LeaseRecord × Nat) := do
  let entry ← orUnavailable (fun e => s!"lease renew read: {e}") (← lastRecord .leases h.key)
  match entry.filter fun e => e.operation = .put with
  | none => .fail .leaseExpired
  | some entry =>
    match json.fromSlice entry.payload with
    | .error e => .fail (.internal s!"nats lease_renew: KV value decode: {e}")
    | .ok record =>
      if h.owns record then return (record, entry.revision) else .fail .leaseExpired

/-- Give the lease a new expiry; the new expiry's text. -/
def renewInner (json : LeaseJson) (h : LeaseHandle) : LeaseProg String := do
  let (record, revision) ← readHeld json h
  let (expiresAt, expiresAtUnix) ← expiryFor h.ttl
  let newRecord := { record with expiresAt, expiresAtUnix }
  match ← update .leases h.key (json.toVec newRecord) revision with
  | .ok _ => return newRecord.expiresAt
  | .error e =>
    let text := e.text
    -- another renewal of this lease may have won the race
    if lostCas e then return (← readHeld json h).1.expiresAt
    else .fail (.backendUnavailable s!"lease renew update: {text}")

/-- How long the renewal task sleeps, in milliseconds: a share of the TTL, at
least 50. -/
def LeaseHandle.sleepFor (h : LeaseHandle) : Nat :=
  let pct := min (max h.renewBeforeExpiryPercent 1) 99
  let ttlMs := UInt64.ofNat (Duration.nanos h.ttl / 1000000)
  max (ttlMs * (100 - pct).toUInt64 / 100).toNat 50

/-- The background renewals of a lease; they end when the lease is lost. -/
def renewalLoop (json : LeaseJson) (h : LeaseHandle) : (fuel : Nat) → LeaseProg Unit
  | 0 => .stuck
  | fuel + 1 =>
    .req (.sleep h.sleepFor) fun _ => do
      match ← (renewInner json h).attempt with
      | .error .leaseExpired => return ()
      | _ => renewalLoop json h fuel

/-- Give the lease up. -/
def releaseAsync (json : LeaseJson) (h : LeaseHandle) : LeaseProg Unit := do
  let entry ← orUnavailable (fun e => s!"lease release read: {e}") (← lastRecord .leases h.key)
  match entry with
  | none => return ()
  | some entry =>
    match json.fromSlice entry.payload with
    | .error _ => return ()
    | .ok record =>
      if h.owns record then
        .req (.deleteExpectRevision .leases h.key entry.revision) fun (x : Except PublishError Unit) =>
          match x with
          | .ok _ => .ret ()
          | .error e =>
            let text := e.text
            if e.kind = .wrongLastSequence then .ret ()
            else .fail (.backendUnavailable s!"lease release delete: {text}")
      else return ()

/-! ## The calls of a fleet -/

/-- The calls on leases. -/
inductive Op
  | acquire (p : AcquireParams) (fuel : Nat)
  | tryAcquire (p : AcquireParams)
  | renew (h : LeaseHandle)
  | release (h : LeaseHandle)
  /-- The renewal task of a lease. -/
  | renewalLoop (h : LeaseHandle) (fuel : Nat)
  deriving DecidableEq, Repr

/-- What a call returns. -/
inductive Reply
  | lease (h : Option LeaseHandle)
  | renewed (expiresAt : String)
  | done
  deriving DecidableEq, Repr

/-- The program of a call. -/
def Op.program (json : LeaseJson) : Op → LeaseProg Reply
  | .acquire p fuel => (fun h => Reply.lease (some h)) <$> acquireAsync json p fuel
  | .tryAcquire p => Reply.lease <$> tryAcquireAsync json p
  | .renew h => Reply.renewed <$> renewInner json h
  | .release h => (fun _ => Reply.done) <$> releaseAsync json h
  | .renewalLoop h fuel => (fun _ => Reply.done) <$> Lease.renewalLoop json h fuel

/-- The lease a call is about, for a call on one. -/
def Op.handle : Op → Option LeaseHandle
  | .renew h => some h
  | .release h => some h
  | .renewalLoop h _ => some h
  | _ => none

/-- The acquisition a call makes. -/
def Op.params : Op → Option AcquireParams
  | .acquire p _ => some p
  | .tryAcquire p => some p
  | _ => none

/-- A thread returned the lease. -/
def Returned (th : Thread leaseSig Unit Op Reply) (h : LeaseHandle) : Bool :=
  th.main.value? = some (.lease (some h))

/-- The lease calls of a fleet.  A lease is used only after an acquisition
returned it. -/
def leaseSystem (json : LeaseJson) : System leaseSig Server Unit Mode Instant Op Reply where
  serve := serve
  env := tick
  deliver _ _ := none
  loc₀ := ()
  job j := nomatch j
  call threads op :=
    match op.handle with
    | none => some (op.program json)
    | some h => if threads.any (Returned · h) then some (op.program json) else none

/-- A state of the fleet. -/
abbrev LeaseWorld := World leaseSig Server Unit Op Reply

/-- A choice of the scheduler. -/
abbrev LeaseChoice := Choice Mode Instant Op

/-- A request that was served. -/
abbrev LeaseEvent := Event leaseSig Server

/-- A call of the fleet. -/
abbrev LeaseThread := Thread leaseSig Unit Op Reply

/-- Buckets nobody works on yet. -/
def LeaseWorld.start (s : Server) : LeaseWorld := ⟨s, [], []⟩

end ClusterNats.Lease
