import ClusterNats.Conc.Rely
import ClusterNats.Codec.Index
import ClusterNats.Nats.Bucket

/-!
# The server of a state bucket

The requests a state store makes and how the server answers them, with every
way in which a request can fail.

* `Req`, `Resp`, `Mode` — the requests, the answers, and whether the backend
  works, fails, or loses the acknowledgement of what it did.
* `Server` — the bucket and the one clock all nodes read.
* `Consumer` — a reader of the bucket: the server pushes records to it in
  sequence order, each with the number of records still to come.
* `serve`, `Env.apply`, `Consumer.deliver` — the steps.
* `serve_state` — a request changes nothing but the bucket, and the bucket only
  by its own write.
-/

namespace ClusterNats

/-- The requests of a state store. -/
inductive Req
  /-- `SystemTime::now`. -/
  | systemTime
  /-- `get_last_raw_message_by_subject`. -/
  | getLast (subject : Bytes)
  /-- `publish_with_headers`; `expected` is the
  `Nats-Expected-Last-Subject-Sequence` header. -/
  | publish (subject : Bytes) (headers : HeaderMap) (payload : Bytes) (expected : Option Nat)
  /-- `purge().filter(subject)`, with `.sequence(keep)` or without. -/
  | purge (subject : Bytes) (keep : Option Nat)
  /-- `create_consumer`, headers only, from a sequence on. -/
  | createConsumer (filter : Bytes) (start : Nat)
  /-- `messages` of the consumer created. -/
  | messages (filter : Bytes) (start : Nat)
  /-- `records.next`, within the idle timeout. -/
  | nextRecord
  /-- `info_with_subjects`. -/
  | infoWithSubjects (filter : Bytes)
  /-- The flag that lets listings read the index. -/
  | indexReady
  deriving DecidableEq, Repr

/-- A record as a headers-only consumer hands it out. -/
structure Delivered where
  subject : Bytes
  headers : HeaderMap
  streamSequence : Nat
  /-- How many records of the consumer's filter follow it. -/
  pending : Nat
  published : Instant
  deriving DecidableEq, Repr

/-- What waiting for the next record gave. -/
inductive NextRecord
  | record (r : Delivered)
  /-- A record whose metadata could not be read. -/
  | unreadable (reason : String)
  /-- The stream of records failed. -/
  | failed (reason : String)
  /-- The stream of records ended. -/
  | ended
  /-- No record arrived within the idle timeout. -/
  | idle
  deriving DecidableEq, Repr

/-- A record on its way: what its acknowledgement will say. -/
abbrev PendingWrite := Except PublishError Nat

/-- What a request is answered with. -/
def Resp : Req → Type
  | .systemTime => Instant
  | .getLast _ => Except String (Option StoredMessage)
  | .publish .. => Except String PendingWrite
  | .purge .. => Except String Unit
  | .createConsumer .. => Except String Nat
  | .messages .. => Except String Unit
  | .nextRecord => NextRecord
  | .infoWithSubjects _ => Except String (List Bytes)
  | .indexReady => Bool

/-- How the backend behaves at one request. -/
inductive Mode
  | ok
  /-- The request is not carried out. -/
  | fail (reason : String)
  /-- The request is carried out, but its answer is lost. -/
  | lost (reason : String)
  /-- A publish does not leave the client. -/
  | unsent (reason : String)
  /-- The record stream stalls. -/
  | idle
  /-- The record stream ends. -/
  | ended
  /-- The metadata of the next record cannot be read. -/
  | garbled (reason : String)
  deriving DecidableEq, Repr

/-- What all nodes share. -/
structure Server where
  bucket : Bucket
  clock : Instant
  /-- The server is of release 2.14 or later. -/
  since214 : Bool
  /-- The flag that lets listings read the index. -/
  indexReady : Bool

namespace Server

/-- The clock in whole Unix seconds. -/
def now (s : Server) : UInt64 := unixSecs s.clock

/-- Publish a message: it is stored when the subject's last sequence is the
expected one. -/
def publish (s : Server) (subject : Bytes) (headers : HeaderMap) (payload : Bytes)
    (expected : Option Nat) : PendingWrite × Server :=
  match s.bucket.storeIf subject ⟨headers, payload, s.clock⟩ expected with
  | some bucket => (.ok bucket.lastSeq, { s with bucket })
  | none => (.error ⟨some (lostCasCode s.since214), "wrong last sequence"⟩, s)

/-- Remove the records of a subject, below `keep` or all. -/
def purge (s : Server) (subject : Bytes) (keep : Option Nat) : Server :=
  { s with bucket := s.bucket.purge subject keep }

end Server

/-- A reader of the bucket. -/
structure Consumer where
  filter : Bytes
  /-- The first sequence it has not been handed yet. -/
  next : Nat
  /-- The records handed to it and not read yet. -/
  buffer : List Delivered
  deriving DecidableEq, Repr

/-- The server hands a consumer the next record of its filter. -/
def Consumer.deliver (s : Server) : Option Consumer → Option (Option Consumer)
  | none => none
  | some c =>
    (s.bucket.first (subjectMatches c.filter) c.next).map fun m =>
      some { c with
        next := m.seq + 1
        buffer := c.buffer ++ [{
          subject := m.subject
          headers := m.body.headers
          streamSequence := m.seq
          pending := s.bucket.pending (subjectMatches c.filter) (m.seq + 1)
          published := m.body.published }] }

/-- The next record of a consumer; an empty buffer is waited on. -/
def nextRecord (m : Mode) (c : Option Consumer) : Option (NextRecord × Option Consumer) :=
  match m, c with
  | .ok, some { filter, next, buffer := r :: buffer } => some (.record r, some { filter, next, buffer })
  | .garbled reason, some { filter, next, buffer := _ :: buffer } =>
    some (.unreadable reason, some { filter, next, buffer })
  | .fail reason, c => some (.failed reason, c)
  | .idle, c => if c.all fun c => c.buffer.isEmpty then some (.idle, c) else none
  | .ended, c => if c.all fun c => c.buffer.isEmpty then some (.ended, c) else none
  | _, _ => none

/-- An answer to a request that changes nothing. -/
def readOnly {α : Type} (m : Mode) (a : α) : Option (Except String α) :=
  match m with
  | .ok => some (.ok a)
  | .fail reason => some (.error reason)
  | .lost reason => some (.error reason)
  | _ => none

/-- How a request is answered in one mode of the backend. -/
def serve (m : Mode) (s : Server) (c : Option Consumer) :
    (r : Req) → Option (Resp r × Server × Option Consumer)
  | .systemTime => some (s.clock, s, c)
  | .getLast subject => (readOnly m (s.bucket.last subject)).map fun x => (x, s, c)
  | .publish subject headers payload expected =>
    match m with
    | .ok =>
      let published := s.publish subject headers payload expected
      some (.ok published.1, published.2, c)
    | .fail reason => some (.ok (.error ⟨none, reason⟩), s, c)
    | .lost reason =>
      some (.ok (.error ⟨none, reason⟩), (s.publish subject headers payload expected).2, c)
    | .unsent reason => some (.error reason, s, c)
    | _ => none
  | .purge subject keep =>
    match m with
    | .ok => some (.ok (), s.purge subject keep, c)
    | .fail reason => some (.error reason, s, c)
    | .lost reason => some (.error reason, s.purge subject keep, c)
    | _ => none
  | .createConsumer filter start =>
    (readOnly m (s.bucket.pending (subjectMatches filter) start)).map fun x => (x, s, c)
  | .messages filter start =>
    match m with
    | .ok => some (.ok (), s, some ⟨filter, start, []⟩)
    | .fail reason => some (.error reason, s, c)
    | _ => none
  | .nextRecord => (nextRecord m c).map fun x => (x.1, s, x.2)
  | .infoWithSubjects filter =>
    (readOnly m ((s.bucket.scan (subjectMatches filter) 0).map LogRecord.subject)).map
      fun x => (x, s, c)
  | .indexReady => some (s.indexReady, s, c)

/-- What happens beside the calls. -/
inductive Env
  /-- Time passes. -/
  | tick (t : Instant)
  /-- The sweep task opens or closes the index for listings. -/
  | setIndexReady (ready : Bool)
  deriving DecidableEq, Repr

/-- A move of the environment.  The clock never goes back. -/
def Env.apply (v : Env) (s : Server) : Option Server :=
  match v with
  | .tick t => if s.clock ≤ t ∧ Representable t then some { s with clock := t } else none
  | .setIndexReady ready => some { s with indexReady := ready }

/-! ## What a request can change -/

/-- What a request does to the server when it is carried out. -/
def Req.effect (s : Server) : Req → Server
  | .publish subject headers payload expected => (s.publish subject headers payload expected).2
  | .purge subject keep => s.purge subject keep
  | _ => s

/-- A request leaves the server as it is, or has its effect. -/
theorem serve_state {m : Mode} {s s' : Server} {c c' : Option Consumer} {r : Req} {x : Resp r}
    (h : serve m s c r = some (x, s', c')) : s' = s ∨ s' = r.effect s := by
  cases r with
  | systemTime =>
    cases Option.some.inj h
    exact .inl rfl
  | indexReady =>
    cases Option.some.inj h
    exact .inl rfl
  | getLast subject =>
    obtain ⟨y, -, hy⟩ := Option.map_eq_some_iff.1 h
    cases hy
    exact .inl rfl
  | createConsumer filter start =>
    obtain ⟨y, -, hy⟩ := Option.map_eq_some_iff.1 h
    cases hy
    exact .inl rfl
  | infoWithSubjects filter =>
    obtain ⟨y, -, hy⟩ := Option.map_eq_some_iff.1 h
    cases hy
    exact .inl rfl
  | nextRecord =>
    obtain ⟨y, -, hy⟩ := Option.map_eq_some_iff.1 h
    cases hy
    exact .inl rfl
  | messages filter start =>
    cases m with
    | ok => cases Option.some.inj h; exact .inl rfl
    | fail reason => cases Option.some.inj h; exact .inl rfl
    | _ => cases h
  | publish subject headers payload expected =>
    cases m with
    | ok => cases Option.some.inj h; exact .inr rfl
    | fail reason => cases Option.some.inj h; exact .inl rfl
    | lost reason => cases Option.some.inj h; exact .inr rfl
    | unsent reason => cases Option.some.inj h; exact .inl rfl
    | _ => cases h
  | purge subject keep =>
    cases m with
    | ok => cases Option.some.inj h; exact .inr rfl
    | fail reason => cases Option.some.inj h; exact .inl rfl
    | lost reason => cases Option.some.inj h; exact .inr rfl
    | _ => cases h

end ClusterNats
