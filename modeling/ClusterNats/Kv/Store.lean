import ClusterNats.Kv.Server

/-!
# The key-value store

The calls of the store on one key, as request programs: every read of the
bucket or the clock, every publish and every purge is one request, in the order
the code makes them.

* `slot` — what a key holds, as a write sees it.
* `publish`, `PendingWrite.done`, `publishIndex`, `indexDone` — writes in flight
  and their acknowledgements.
* `purgeThrough`, `writeIndex`, `purgeIndex`, `reindexIfLive`, `unindex` — the
  upkeep of the index.
* `get`, `put`, `putIfAbsent`, `delete`, `expire`, `updateCounter` — the calls.
-/

namespace ClusterNats

open Conc

/-! ## The signature -/

/-- A value with its expiry, in Unix seconds. -/
structure Entry where
  bytes : Bytes
  expiresAt : Option UInt64
  deriving DecidableEq, Repr

/-- What a sweep did with an older build's record. -/
inductive LegacyOutcome
  | expired
  | upgraded
  /-- Rewritten or removed since the sweep read it. -/
  | moved
  deriving DecidableEq, Repr

/-- The jobs a sweep or a listing runs beside each other. -/
inductive Job
  | removeDead (subject : Bytes) (sequence : Nat)
  | settleLegacy (encoded : Bytes) (sequence : Nat)
  | liveEntry (key : String)
  deriving DecidableEq, Repr

/-- What a job returns. -/
inductive Done
  | removed
  | settled (outcome : LegacyOutcome)
  | entry (entry : Option (String × Entry))
  deriving DecidableEq, Repr

/-- The signature of the store's programs. -/
abbrev kvSig : Sig where
  Req := Req
  Resp := Resp
  Job := Job
  Done := Done
  Err := ClusterError

/-- A program of the store. -/
abbrev Kv := Prog kvSig

/-- `SystemTime::now`, in whole Unix seconds. -/
def nowUnixSecs : Kv UInt64 := .req .systemTime fun (t : Instant) => .ret (unixSecs t)

/-- An early return for a request that failed. -/
def orUnavailable {α : Type} (describe : String → String) (x : Except String α) : Kv α :=
  Prog.ofExcept (fun e => .backendUnavailable (describe e)) x

/-! ## Reads -/

/-- `EXPIRES_HEADER`. -/
def expiresHeader : String := "Mcpg-Expires"

/-- What a key holds, as a write sees it. -/
inductive Slot
  /-- No record. -/
  | empty
  /-- A delete marker or an expired value. -/
  | dead (revision : Nat)
  /-- A live value. -/
  | live (value : Bytes) (expiresAtSecs : Option UInt64) (revision : Nat)
  deriving DecidableEq, Repr

/-- What a write expects the key to hold. -/
inductive Expect
  | anything
  | nothing
  | revision (revision : Nat)
  deriving DecidableEq, Repr

/-- A failed write. -/
inductive WriteError
  /-- The key did not hold what the write expected. -/
  | conflict
  | failed (e : ClusterError)
  deriving DecidableEq, Repr

/-- `last_record`: the last record of a key, read from the stream's leader. -/
def lastRecord (key : Bytes) : Kv (Except String (Option Record)) :=
  .req (.getLast key) fun (x : Except String (Option StoredMessage)) =>
    .ret (x.map fun m => m.map Record.ofMessage)

/-- `is_expired`: it reads the clock only when there is an expiry. -/
def isExpired (expiresAtSecs : Option UInt64) : Kv Bool :=
  match expiresAtSecs with
  | some s => do return s ≤ (← nowUnixSecs)
  | none => return false

/-- `expires_at_from`: the sum of the release build. -/
def expiresAtFrom (ttl : Option Duration) : Kv (Option UInt64) :=
  match ttl with
  | some d => do return some ((← nowUnixSecs) + max d.secs 1)
  | none => return none

/-- What a key holds, by its record. -/
def slotOf : Option Record → Kv Slot
  | none => return .empty
  | some r =>
    if r.operation ≠ .put then return .dead r.revision
    else do
      let (value, expiresAtSecs) := decodeValue r.payload
      if ← isExpired expiresAtSecs then return .dead r.revision
      else return .live value expiresAtSecs r.revision

/-- What a key holds. -/
def slot (encoded : Bytes) (key : String) : Kv Slot := do
  let record ← orUnavailable (fun e => s!"nats kv entry `{key}`: {e}") (← lastRecord encoded)
  slotOf record

/-! ## Writes -/

/-- The record's revision once the server stored it. -/
def PendingWrite.done (pending : PendingWrite) : Except WriteError Nat :=
  match pending with
  | .ok sequence => .ok sequence
  | .error e =>
    if e.kind = .wrongLastSequence ∨ isWrongLastSequence e then .error .conflict
    else .error (.failed (.backendUnavailable s!"nats kv write: {e.text}"))

/-- The sequence an expectation names; `0` is an empty subject. -/
def Expect.lastSequence : Expect → Option Nat
  | .anything => none
  | .nothing => some 0
  | .revision n => some n

def publishRecord (encoded : Bytes) (headers : HeaderMap) (payload : Bytes)
    (expected : Option Nat) : Kv PendingWrite :=
  .req (.publish encoded headers payload expected) fun (x : Except String PendingWrite) =>
    orUnavailable (fun e => s!"nats kv write: {e}") x

/-- Publish a value as the record of a key, its expiry in the envelope and in
the header, without waiting for the acknowledgement. -/
def publish (encoded value : Bytes) (expiresAtSecs : Option UInt64) (expect : Expect) :
    Kv PendingWrite :=
  publishRecord encoded [(expiresHeader, renderU64 (expiresAtSecs.getD 0))]
    (encodeValue value expiresAtSecs) expect.lastSequence

/-- `publish`, and wait for the acknowledgement. -/
def write (encoded value : Bytes) (expiresAtSecs : Option UInt64) (expect : Expect) :
    Kv (Except WriteError Nat) := do
  match ← (publish encoded value expiresAtSecs expect).attempt with
  | .ok pending => return pending.done
  | .error e => return .error (.failed e)

/-- Publish a delete marker. -/
def publishMarker (encoded : Bytes) : Kv PendingWrite :=
  publishRecord encoded [(kvOperationHeader, bytes "DEL")] [] none

/-- Publish the index record of a key, create-only. -/
def publishIndex (key : String) : Kv PendingWrite := publish (indexKey key) [] none .nothing

/-- The acknowledgement of an index record: its revision, or `none` when the key
had an index record already. -/
def indexDone (pending : PendingWrite) : Except ClusterError (Option Nat) :=
  match pending.done with
  | .ok revision => .ok (some revision)
  | .error .conflict => .ok none
  | .error (.failed e) => .error e

/-- Remove the records of a subject up to and including a revision. -/
def purgeThrough (subject : Bytes) (revision : Nat) : Kv Unit :=
  .req (.purge subject (some (revision + 1))) fun (x : Except String Unit) =>
    orUnavailable (fun e => s!"nats kv purge: {e}") x

/-- Write the index record of a key. -/
def writeIndex (key : String) : Kv Unit := do
  let pending ← publishIndex key
  discard (Prog.ofExcept id (indexDone pending))

/-- Remove the index record of a key. -/
def purgeIndex (key : String) : Kv Unit :=
  .req (.purge (indexKey key) none) fun (x : Except String Unit) =>
    orUnavailable (fun e => s!"nats kv index purge `{key}`: {e}") x

/-- Write the index record of a key when its data record is live. -/
def reindexIfLive (key : String) : Kv Unit := do
  match ← slot (encodeKey key) key with
  | .live .. => writeIndex key
  | _ => return ()

/-- Remove the index record of a key whose data record the bucket refused, then
index the key again when it is live. -/
def unindex (key : String) : Kv Unit := do
  purgeIndex key
  reindexIfLive key

/-- The recovery of a write whose data record failed with `e`: an index record
stored behind it must not stay. -/
def refused {α : Type} (key : String) (indexed : Except ClusterError (Option Nat))
    (e : ClusterError) : Kv α := do
  match indexed with
  | .ok (some _) => discard (unindex key).attempt
  | _ => pure ()
  .fail e

/-! ## The calls -/

/-- `2^63`: a `SystemTime` counts signed 64-bit seconds from the Unix epoch. -/
def systemTimeEnd : Nat := 9223372036854775808

/-- Is there a `SystemTime` so many seconds after the Unix epoch? -/
def fitsSystemTime (secs : UInt64) : Bool := secs.toNat < systemTimeEnd

/-- The entry of a live value.  `UNIX_EPOCH + Duration::from_secs(s)` panics where
no `SystemTime` is that late. -/
def entryOf (value : Bytes) (expiresAtSecs : Option UInt64) : Kv Entry :=
  if expiresAtSecs.all fitsSystemTime then return ⟨value, expiresAtSecs⟩ else .stuck

def get (key : String) : Kv (Option Entry) := do
  match ← slot (encodeKey key) key with
  | .live value expiresAtSecs _ => return some (← entryOf value expiresAtSecs)
  | _ => return none

def put (key : String) (value : Bytes) (ttl : Option Duration) : Kv Unit := do
  let data ← publish (encodeKey key) value (← expiresAtFrom ttl) .anything
  let index ← publishIndex key
  match data.done with
  | .ok _ => discard (Prog.ofExcept id (indexDone index))
  | .error (.failed e) => refused key (indexDone index) e
  | .error .conflict =>
    .fail (.casConflict key "nats kv put: an unconditional write reported a conflict")

/-- `CAS_WRITE_ATTEMPTS`. -/
def casWriteAttempts : Nat := 8

/-- The rounds of `put_if_absent` that are left. -/
def putIfAbsentRounds (key : String) (value : Bytes) (expiresAtSecs : Option UInt64) :
    Nat → Expect → Kv Bool
  | 0, _ =>
    .fail (.casConflict key
      s!"nats kv put_if_absent: revision CAS lost {casWriteAttempts} rounds")
  | rounds + 1, expect => do
    let claim ← publish (encodeKey key) value expiresAtSecs expect
    let index ← publishIndex key
    match claim.done with
    | .ok _ => do
      discard (Prog.ofExcept id (indexDone index))
      return true
    | .error (.failed e) => refused key (indexDone index) e
    | .error .conflict =>
      match ← slot (encodeKey key) key with
      | .live .. => return false
      | .dead revision => putIfAbsentRounds key value expiresAtSecs rounds (.revision revision)
      | .empty => putIfAbsentRounds key value expiresAtSecs rounds .nothing

def putIfAbsent (key : String) (value : Bytes) (ttl : Option Duration) : Kv Bool := do
  putIfAbsentRounds key value (← expiresAtFrom ttl) casWriteAttempts .nothing

def delete (key : String) : Kv Bool := do
  let existed := match ← slot (encodeKey key) key with
    | .live .. => true
    | _ => false
  let marker ← publishMarker (encodeKey key)
  match marker.done with
  | .error (.failed e) => .fail e
  | _ => return existed

/-- The rounds of `expire` that are left. -/
def expireRounds (key : String) (ttl : Option Duration) : Nat → Kv Bool
  | 0 =>
    .fail (.casConflict key s!"nats kv expire: revision CAS lost {casWriteAttempts} rounds")
  | rounds + 1 => do
    match ← slot (encodeKey key) key with
    | .live value _ revision =>
      match ← write (encodeKey key) value (← expiresAtFrom ttl) (.revision revision) with
      | .ok _ => return true
      | .error .conflict => expireRounds key ttl rounds
      | .error (.failed e) => .fail e
    | _ => return false

def expire (key : String) (ttl : Option Duration) : Kv Bool := expireRounds key ttl casWriteAttempts

/-! ## Counters -/

/-- An `i64` in decimal. -/
def renderI64 (n : Int64) : Bytes :=
  if n.toInt < 0 then 45 :: renderNat n.toInt.natAbs else renderNat n.toInt.natAbs

/-- The counter functions of the cluster API, which is not part of this
repository. -/
structure CounterApi where
  parseCounter : Bytes → Except ClusterError Int64
  floorAdd : (current floor delta : Int64) → Except ClusterError Int64
  counterOverflow : ClusterError
  /-- A counter that was written parses. -/
  parseCounter_renderI64 : ∀ n, parseCounter (renderI64 n) = .ok n

/-- `i64::checked_add`. -/
def checkedAdd (a b : Int64) : Option Int64 :=
  let sum := a.toInt + b.toInt
  if Int64.minValue.toInt ≤ sum ∧ sum ≤ Int64.maxValue.toInt then some (Int64.ofInt sum) else none

/-- `CAS_ATTEMPTS` of a counter. -/
def casAttempts : Nat := 64

/-- A live counter that the step leaves as it is needs no write. -/
def leavesCounter (next current : Int64) (creates : Bool) (ttl : Option Duration) : Bool :=
  next = current && !creates && ttl.isNone

/-- The expiry a counter call writes over a live counter: without a TTL it
keeps its own. -/
def counterExpiry (ttl : Option Duration) (expiresAtSecs : Option UInt64) : Kv (Option UInt64) :=
  if ttl.isSome then expiresAtFrom ttl else return expiresAtSecs

/-- The index record of a counter that comes into being, in flight behind it. -/
def indexCreated (key : String) (creates : Bool) : Kv (Except ClusterError (Option Nat)) :=
  if creates then indexDone <$> publishIndex key else return .ok none

/-- What a counter call reads: the count, the expiry and the expectation of its
write, and whether the counter comes into being (again). -/
def readCounter (api : CounterApi) (key : String) (ttl : Option Duration) :
    Kv (Int64 × Option UInt64 × Expect × Bool) := do
  match ← slot (encodeKey key) key with
  | .empty => return (0, ← expiresAtFrom ttl, .nothing, true)
  | .dead revision => return (0, ← expiresAtFrom ttl, .revision revision, true)
  | .live value expiresAtSecs revision =>
    let expires ← counterExpiry ttl expiresAtSecs
    return (← Prog.ofExcept id (api.parseCounter value), expires, .revision revision, false)

/-- The rounds of `update_counter` that are left. -/
def updateCounterRounds (api : CounterApi) (op key : String) (ttl : Option Duration)
    (step : Int64 → Except ClusterError Int64) : Nat → Kv Int64
  | 0 => .fail (.casConflict key s!"nats kv {op}: revision CAS lost {casAttempts} rounds")
  | rounds + 1 => do
    let (current, expiresAtSecs, expect, creates) ← readCounter api key ttl
    let next ← Prog.ofExcept id (step current)
    if leavesCounter next current creates ttl then return next
    else
      let pending ← publish (encodeKey key) (renderI64 next) expiresAtSecs expect
      let indexed ← indexCreated key creates
      match pending.done with
      | .ok _ => do
        discard (Prog.ofExcept id indexed)
        return next
      | .error .conflict => updateCounterRounds api op key ttl step rounds
      | .error (.failed e) => refused key indexed e

/-- Store `step current` as the counter under a key and return it. -/
def updateCounter (api : CounterApi) (op key : String) (ttl : Option Duration)
    (step : Int64 → Except ClusterError Int64) : Kv Int64 :=
  updateCounterRounds api op key ttl step casAttempts

/-- The step of `incr`. -/
def incrStep (api : CounterApi) (delta current : Int64) : Except ClusterError Int64 :=
  match checkedAdd current delta with
  | some next => .ok next
  | none => .error api.counterOverflow

def incr (api : CounterApi) (key : String) (delta : Int64) (ttl : Option Duration) : Kv Int64 :=
  updateCounter api "incr" key ttl (incrStep api delta)

def incrFloor (api : CounterApi) (key : String) (delta floor : Int64) (ttl : Option Duration) :
    Kv Int64 :=
  updateCounter api "incr_floor" key ttl fun current => api.floorAdd current floor delta

end ClusterNats
