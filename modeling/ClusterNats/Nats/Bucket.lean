import ClusterNats.Codec.Value
import ClusterNats.Log.SubjectLog

/-!
# A bucket's records

A KV bucket is a stream that keeps one record per subject.  A subject here is
what follows the bucket's subject prefix, which every record of the stream has.

* `Message`, `Bucket` — a record's headers and payload, and the bucket.
* `Operation`, `Record.recordOperation` — what a record says about its key, as
  a read of the key sees it.
* `ClusterError` — what a call fails with.
* `ErrorCode`, `isWrongLastSequence` — how a write learns that it lost a
  compare-and-set.
-/

namespace ClusterNats

/-- The headers of a message, by name. -/
abbrev HeaderMap := List (String × Bytes)

/-- The value of a header. -/
def HeaderMap.get (headers : HeaderMap) (name : String) : Option Bytes :=
  (headers.find? fun h => h.1 = name).map Prod.snd

/-- What the stream keeps of a published message. -/
structure Message where
  headers : HeaderMap
  payload : Bytes
  /-- When the server stored it. -/
  published : Instant
  deriving DecidableEq, Repr

/-- A KV bucket, history 1. -/
abbrev Bucket := SubjectLog Bytes Message

/-- A stored message with its subject and its sequence. -/
abbrev StoredMessage := LogRecord Bytes Message

/-- The operation a record carries. -/
inductive Operation
  | put
  | delete
  | purge
  deriving DecidableEq, Repr

/-- `async_nats`' reading of a `KV-Operation` value. -/
def Operation.parse (value : Bytes) : Option Operation :=
  if value = bytes "DEL" then some .delete
  else if value = bytes "PURGE" then some .purge
  else if value = bytes "PUT" then some .put
  else none

/-- The header of a KV delete or purge marker. -/
def kvOperationHeader : String := "KV-Operation"

/-- The header of a marker the server placed. -/
def natsMarkerReason : String := "Nats-Marker-Reason"

/-- The last record of a key, as `last_record` gives it. -/
structure Record where
  revision : Nat
  operation : Operation
  payload : Bytes
  deriving DecidableEq, Repr

/-- A record's operation, read as the KV client reads it. -/
def Record.recordOperation (headers : HeaderMap) : Operation :=
  match headers.get kvOperationHeader with
  | some operation => (Operation.parse operation).getD .put
  | none =>
    match headers.get natsMarkerReason with
    | some reason =>
      if reason = bytes "MaxAge" ∨ reason = bytes "Purge" then .purge
      else if reason = bytes "Remove" then .delete
      else .put
    | none => .put

/-- The record a stored message is. -/
def Record.ofMessage (m : StoredMessage) : Record where
  revision := m.seq
  operation := recordOperation m.body.headers
  payload := m.body.payload

/-! ## Errors -/

/-- What a call fails with. -/
inductive ClusterError
  | backendUnavailable (reason : String)
  | casConflict (key reason : String)
  | precondition (reason : String)
  | invalidReference (message : String)
  | internal (reason : String)
  | leaseExpired
  | timeout
  deriving DecidableEq, Repr

/-- The error code of a JetStream error. -/
inductive ErrorCode
  /-- 10071, a lost compare-and-set before 2.14. -/
  | streamWrongLastSequence
  /-- 10164, a lost compare-and-set from 2.14 on. -/
  | streamWrongLastSequenceConstant
  | other (code : Nat)
  deriving DecidableEq, Repr

/-- How the client sorts the error of a write. -/
inductive ErrorKind
  | wrongLastSequence
  | other
  deriving DecidableEq, Repr

/-- The error of a write; the code is there when the server answered. -/
structure PublishError where
  code : Option ErrorCode
  text : String
  deriving DecidableEq, Repr

/-- The client knows only the code before 2.14. -/
def PublishError.kind (e : PublishError) : ErrorKind :=
  if e.code = some .streamWrongLastSequence then .wrongLastSequence else .other

/-- A failed write lost a compare-and-set, under either code. -/
def isWrongLastSequence (e : PublishError) : Bool :=
  match e.code with
  | some code => code = .streamWrongLastSequence || code = .streamWrongLastSequenceConstant
  | none => false

/-- The code of a lost compare-and-set, from 2.14 on or before. -/
def lostCasCode (since214 : Bool) : ErrorCode :=
  if since214 then .streamWrongLastSequenceConstant else .streamWrongLastSequence

end ClusterNats
