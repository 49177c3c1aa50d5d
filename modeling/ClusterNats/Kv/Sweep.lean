import ClusterNats.Kv.Store

/-!
# The sweep and the backfill

The maintenance of a bucket: a scan of every record through a consumer, then
one removal or rewrite per record found.

* `recordConsumer` — open a headers-only consumer.
* `sweepRecord`, `sweepScan`, `sweep` — what a sweep does with one record, the
  scan, and the whole call.
* `removeDead`, `settleLegacy` — the jobs of a sweep.
* `backfillIndex` — write the index record of every live key.
-/

namespace ClusterNats

open Conc

/-- The operation of a record, as the scans of this store read it. -/
def recordOperation (headers : HeaderMap) : Operation :=
  match headers.get kvOperationHeader with
  | some operation =>
    if operation = bytes "DEL" then .delete
    else if operation = bytes "PURGE" then .purge
    else .put
  | none =>
    match headers.get natsMarkerReason with
    | some reason => if reason = bytes "Remove" then .delete else .purge
    | none => .put

/-- The expiry in a record's headers. -/
def headerExpiry (headers : HeaderMap) : Option UInt64 :=
  (headers.get expiresHeader).bind parseU64

/-- The filter of every record, `>`. -/
def everything : Bytes := [62]

/-- `record_consumer`: `none` when it has nothing to deliver, else it is open. -/
def recordConsumer (description : String) (filter : Bytes) (start : Nat) : Kv Bool :=
  .req (.createConsumer filter start) fun (x : Except String Nat) => do
    let pending ← orUnavailable (fun e => s!"nats kv {description} consumer: {e}") x
    if pending = 0 then return false
    else
      .req (.messages filter start) fun (y : Except String Unit) => do
        orUnavailable (fun e => s!"nats kv {description} messages: {e}") y
        return true

/-! ## The scan of a sweep -/

/-- What one sweep did. -/
structure SweepReport where
  scanned : Nat := 0
  expired : Nat := 0
  markers : Nat := 0
  upgraded : Nat := 0
  deriving DecidableEq, Repr

/-- What the scan of a sweep collected. -/
structure SweepScan where
  report : SweepReport := {}
  legacy : List (Bytes × Nat) := []
  dead : List (Bytes × Nat) := []
  deriving DecidableEq, Repr

/-- `u64::saturating_sub`. -/
def saturatingSub (a b : UInt64) : UInt64 := if b ≤ a then a - b else 0

/-- What the scan does with one record. -/
def sweepRecord (markerGrace : Duration) (now : UInt64) (scan : SweepScan) (r : Delivered) :
    SweepScan :=
  let report := { scan.report with scanned := scan.report.scanned + 1 }
  match recordOperation r.headers with
  | .put =>
    match headerExpiry r.headers with
    | some at_ =>
      if at_ ≠ 0 ∧ at_ ≤ now then
        { scan with
          dead := scan.dead ++ [(r.subject, r.streamSequence)]
          report := { report with expired := report.expired + 1 } }
      else { scan with report }
    | none => { scan with legacy := scan.legacy ++ [(r.subject, r.streamSequence)], report }
  | _ =>
    if markerGrace.secs ≤ saturatingSub now (unixSecs r.published) then
      { scan with
        dead := scan.dead ++ [(r.subject, r.streamSequence)]
        report := { report with markers := report.markers + 1 } }
    else { scan with report }

/-- The loop of the scan; it has no bound of its own. -/
def sweepScan (markerGrace : Duration) (now : UInt64) : (fuel : Nat) → SweepScan → Kv SweepScan
  | 0, _ => .stuck
  | fuel + 1, scan =>
    .req .nextRecord fun (x : NextRecord) =>
      match x with
      | .record r =>
        let scan := sweepRecord markerGrace now scan r
        if r.pending = 0 then .ret scan else sweepScan markerGrace now fuel scan
      | .unreadable e => .fail (.backendUnavailable s!"nats kv sweep record metadata: {e}")
      | .failed e => .fail (.backendUnavailable s!"nats kv sweep record: {e}")
      -- the rest waits for the next sweep
      | .ended => .ret scan
      | .idle => .ret scan

/-! ## Removals -/

/-- Remove the dead record at a sequence of a subject with the index record of
its key. -/
def removeDead (subject : Bytes) (sequence : Nat) : Kv Unit := do
  if isIndexKey subject then
    purgeThrough subject sequence
    match dataKey subject with
    | some key => reindexIfLive key
    | none => return ()
  else
    match decodeKey subject with
    | none => purgeThrough subject sequence
    | some key =>
      purgeIndex key
      purgeThrough subject sequence
      reindexIfLive key

/-- Remove an older build's record when it is expired, or rewrite it with the
expiry header. -/
def settleLegacy (encoded : Bytes) (sequence : Nat) : Kv LegacyOutcome := do
  let record ← orUnavailable (fun e => s!"nats kv sweep entry: {e}") (← lastRecord encoded)
  match record.filter fun r => r.revision = sequence ∧ r.operation = .put with
  | none => return .moved
  | some record =>
    let (value, expiresAtSecs) := decodeValue record.payload
    if ← isExpired expiresAtSecs then
      removeDead encoded sequence
      return .expired
    else
      match ← write encoded value expiresAtSecs (.revision sequence) with
      | .ok _ =>
        match decodeKey encoded with
        | some key => do
          -- an older build wrote no index record
          writeIndex key
          return .upgraded
        | none => return .upgraded
      | .error .conflict => return .moved
      | .error (.failed e) => .fail e

/-- What this instance learned of its server when it connected. -/
structure NatsKv where
  /-- The server purges one subject by reading every block of the stream. -/
  purgeReadsEveryBlock : Bool
  deriving DecidableEq, Repr

/-- `LIST_FETCH_PARALLELISM`. -/
def listFetchParallelism : Nat := 32

/-- Start the jobs, `cap` at once, then go on. -/
def spawnAll {α : Type} (cap : Nat) (jobs : List Job) (k : Kv α) : Kv α :=
  jobs.foldr (fun j p => .spawn cap j p) k

/-- Remove the dead records a sweep read. -/
def removeAllDead (kv : NatsKv) (dead : List (Bytes × Nat)) : Kv Unit :=
  if kv.purgeReadsEveryBlock then dead.forM fun d => removeDead d.1 d.2
  else
    spawnAll listFetchParallelism (dead.map fun d => .removeDead d.1 d.2) <|
      .tryJoin fun
        | .ok _ => .ret ()
        | .error e => .fail e

/-- What a finished job says about an older build's record. -/
def Done.outcome : Done → LegacyOutcome
  | .settled outcome => outcome
  | _ => .moved

/-- Count one outcome. -/
def SweepReport.count (report : SweepReport) (outcome : LegacyOutcome) : SweepReport :=
  match outcome with
  | .expired => { report with expired := report.expired + 1 }
  | .upgraded => { report with upgraded := report.upgraded + 1 }
  | .moved => report

/-- Count the outcomes; the first failure is the sweep's. -/
def countOutcomes : SweepReport → List (Except ClusterError Done) → Kv SweepReport
  | report, [] => .ret report
  | _, .error e :: _ => .fail e
  | report, .ok d :: outcomes => countOutcomes (report.count d.outcome) outcomes

/-- Remove what the bucket keeps after it is gone. -/
def sweep (kv : NatsKv) (markerGrace : Duration) (fuel : Nat) : Kv SweepReport := do
  if ← recordConsumer "mcpg kv sweep" everything 1 then
    let now ← nowUnixSecs
    let scan ← sweepScan markerGrace now fuel {}
    removeAllDead kv scan.dead
    spawnAll listFetchParallelism (scan.legacy.map fun l => .settleLegacy l.1 l.2) <|
      .join (countOutcomes scan.report)
  else return {}

/-! ## The backfill -/

/-- `BACKFILL_IN_FLIGHT`. -/
def backfillInFlight : Nat := 256

/-- The key a backfill indexes for one record. -/
def backfillKey (now : UInt64) (r : Delivered) : Option String :=
  if recordOperation r.headers = .put ∧
      ¬ (headerExpiry r.headers).any (fun at_ => at_ ≠ 0 && at_ ≤ now) ∧ ¬ isIndexKey r.subject then
    decodeKey r.subject
  else none

/-- Wait for the acknowledgements of index records. -/
def indexAllDone : List PendingWrite → Kv Unit
  | [] => .ret ()
  | pending :: rest => do
    discard (Prog.ofExcept id (indexDone pending))
    indexAllDone rest

/-- What a backfill has indexed and what it has in flight. -/
abbrev Backfill := Nat × List PendingWrite

/-- Index the key of one record; a full batch is waited for. -/
def backfillRecord (now : UInt64) (b : Backfill) (r : Delivered) : Kv Backfill := do
  match backfillKey now r with
  | none => return b
  | some key =>
    let inFlight := b.2 ++ [← publishIndex key]
    if inFlight.length = backfillInFlight then
      indexAllDone inFlight
      return (b.1 + 1, [])
    else return (b.1 + 1, inFlight)

/-- The loop of the backfill. -/
def backfillScan (now : UInt64) : (fuel : Nat) → Backfill → Kv Backfill
  | 0, _ => .stuck
  | fuel + 1, b =>
    .req .nextRecord fun (x : NextRecord) =>
      match x with
      | .record r => do
        let b ← backfillRecord now b r
        if r.pending = 0 then return b else backfillScan now fuel b
      | .unreadable e => .fail (.backendUnavailable s!"nats kv backfill record metadata: {e}")
      | .failed e => .fail (.backendUnavailable s!"nats kv backfill record: {e}")
      | .ended => .ret b
      | .idle => .fail (.backendUnavailable "nats kv backfill: no record arrived")

/-- Write the index record of every live key; the number of keys indexed. -/
def backfillIndex (fuel : Nat) : Kv Nat := do
  if ← recordConsumer "mcpg kv backfill" everything 1 then
    let now ← nowUnixSecs
    let b ← backfillScan now fuel (0, [])
    indexAllDone b.2
    return b.1
  else return 0

end ClusterNats
