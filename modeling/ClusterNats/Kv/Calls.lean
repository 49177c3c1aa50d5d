import ClusterNats.Kv.Listing

/-!
# The calls of a fleet

Any number of nodes call the store on one bucket.  `kvSystem` puts their calls
into a `Conc.System`, so a run of it is one interleaving of their requests.

* `Op`, `Reply` — the calls and what they return.
* `Op.program`, `Job.program` — their programs.
* `kvSystem`, `KvWorld` — the system and its states.
* `KvWorld.start` — a bucket nobody works on yet.
-/

namespace ClusterNats

open Conc

/-- The calls of the store. -/
inductive Op
  | get (key : String)
  | put (key : String) (value : Bytes) (ttl : Option Duration)
  | putIfAbsent (key : String) (value : Bytes) (ttl : Option Duration)
  | delete (key : String)
  | expire (key : String) (ttl : Option Duration)
  /-- `incr` and `incr_floor`, by their name and their step. -/
  | updateCounter (op key : String) (ttl : Option Duration)
      (step : Int64 → Except ClusterError Int64)
  | sweep (kv : NatsKv) (markerGrace : Duration) (fuel : Nat)
  | backfillIndex (fuel : Nat)
  | listPage (pre : String) (cursor : Option Bytes) (limit fuel : Nat)
  /-- `list_page`, followed through `next` until there is none. -/
  | listPass (pre : String) (limit scanFuel fuel : Nat)

/-- The call `incr`. -/
def Op.incr (api : CounterApi) (key : String) (delta : Int64) (ttl : Option Duration) : Op :=
  .updateCounter "incr" key ttl (incrStep api delta)

/-- The call `incr_floor`. -/
def Op.incrFloor (api : CounterApi) (key : String) (delta floor : Int64) (ttl : Option Duration) :
    Op :=
  .updateCounter "incr_floor" key ttl fun current => api.floorAdd current floor delta

/-- What a call returns. -/
inductive Reply
  | entry (e : Option Entry)
  | done
  | flag (b : Bool)
  | count (n : Int64)
  | report (r : SweepReport)
  | indexed (n : Nat)
  | page (p : KvPage)
  | pages (ps : List KvPage)
  deriving DecidableEq, Repr

/-- The program of a call. -/
def Op.program (api : CounterApi) : Op → Kv Reply
  | .get key => Reply.entry <$> ClusterNats.get key
  | .put key value ttl => (fun _ => Reply.done) <$> ClusterNats.put key value ttl
  | .putIfAbsent key value ttl => Reply.flag <$> ClusterNats.putIfAbsent key value ttl
  | .delete key => Reply.flag <$> ClusterNats.delete key
  | .expire key ttl => Reply.flag <$> ClusterNats.expire key ttl
  | .updateCounter op key ttl step => Reply.count <$> ClusterNats.updateCounter api op key ttl step
  | .sweep kv markerGrace fuel => Reply.report <$> ClusterNats.sweep kv markerGrace fuel
  | .backfillIndex fuel => Reply.indexed <$> ClusterNats.backfillIndex fuel
  | .listPage pre cursor limit fuel => Reply.page <$> ClusterNats.listPage pre cursor limit fuel
  | .listPass pre limit scanFuel fuel =>
    Reply.pages <$> ClusterNats.listPass pre limit scanFuel fuel none

/-- The program of a job. -/
def Job.program : Job → Kv Done
  | .removeDead subject sequence => (fun _ => Done.removed) <$> ClusterNats.removeDead subject sequence
  | .settleLegacy encoded sequence => Done.settled <$> ClusterNats.settleLegacy encoded sequence
  | .liveEntry key => Done.entry <$> ClusterNats.liveEntry key

/-- The calls of a fleet on one bucket. -/
def kvSystem (api : CounterApi) :
    System kvSig Server (Option Consumer) Mode Env Op Reply where
  serve := serve
  env := Env.apply
  deliver := Consumer.deliver
  loc₀ := none
  job := Job.program
  call _ op := some (op.program api)

/-- A state of the fleet. -/
abbrev KvWorld := World kvSig Server (Option Consumer) Op Reply

/-- A choice of the scheduler. -/
abbrev KvChoice := Choice Mode Env Op

/-- A request that was served. -/
abbrev KvEvent := Event kvSig Server

/-- A call of the fleet. -/
abbrev KvThread := Thread kvSig (Option Consumer) Op Reply

/-- A server nobody works on yet. -/
def KvWorld.start (s : Server) : KvWorld := ⟨s, [], []⟩

/-- A server with an empty bucket. -/
def emptyServer : Server := ⟨.empty, 0, true, true⟩

/-! ## What `slot` reads at one instant -/

/-- What `slot` makes of a record when the clock reads `now`. -/
def Slot.ofRecord (now : UInt64) : Option Record → Slot
  | none => .empty
  | some r =>
    if r.operation ≠ .put then .dead r.revision
    else if isExpiredAt now (decodeValue r.payload).2 then .dead r.revision
    else .live (decodeValue r.payload).1 (decodeValue r.payload).2 r.revision

/-- What `slot` reads of a key when nothing happens between its requests. -/
def Server.slot (s : Server) (key : String) : Slot :=
  .ofRecord s.now ((s.bucket.last (encodeKey key)).map Record.ofMessage)

/-- The value and the expiry `get` answers with. -/
def Slot.found : Slot → Option Entry
  | .live value expiresAtSecs _ => some ⟨value, expiresAtSecs⟩
  | _ => none

/-- A key is live: `slot` reads a value. -/
def Server.Live (s : Server) (key : String) : Prop := (s.slot key).found.isSome

instance (s : Server) (key : String) : Decidable (s.Live key) :=
  inferInstanceAs (Decidable (_ = true))

/-- A key has an index record. -/
def Server.Indexed (s : Server) (key : String) : Prop := (s.bucket.last (indexKey key)).isSome

instance (s : Server) (key : String) : Decidable (s.Indexed key) :=
  inferInstanceAs (Decidable (_ = true))

end ClusterNats
