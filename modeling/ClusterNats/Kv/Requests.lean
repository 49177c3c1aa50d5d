import ClusterNats.Kv.Primitives

/-!
# What a call asks for

A call writes in few ways: it publishes a value with its expiry, publishes a
marker, or purges.  What holds of those holds of every request of every call
that starts no job.

* `Asks`, `AsksOf`, `AsksIndex` — a property of requests that reads, values, markers and
  purges have.
* `requests_job` — the jobs of a sweep or a listing.
* `Op.key?`, `requests_keyed` — the calls on one key.
* `Job.Reads`, `makes_listPage`, `makes_listPass` — the listings, which read.
* `Op.Simple`, `requests_op` — the calls that start no job.
-/

namespace ClusterNats

open Conc

/-- `P` holds of every kind of request the calls make. -/
structure Asks (P : Req → Prop) : Prop where
  read : ∀ r, r.isWrite = false → P r
  value : ∀ encoded value exp expected,
    P (.publish encoded [(expiresHeader, renderU64 (exp.getD 0))] (encodeValue value exp) expected)
  marker : ∀ encoded, P (.publish encoded [(kvOperationHeader, bytes "DEL")] [] none)
  purge : ∀ subject keep, P (.purge subject keep)

/-- `P` holds of every kind of request that the calls on `key` make. -/
structure AsksOf (key : String) (P : Req → Prop) : Prop where
  read : ∀ r, r.isWrite = false → P r
  value : ∀ value exp expected, P (.publish (encodeKey key) [(expiresHeader, renderU64 (exp.getD 0))]
    (encodeValue value exp) expected)
  index : ∀ value exp expected, P (.publish (indexKey key) [(expiresHeader, renderU64 (exp.getD 0))]
    (encodeValue value exp) expected)
  marker : P (.publish (encodeKey key) [(kvOperationHeader, bytes "DEL")] [] none)
  purge : ∀ keep, P (.purge (indexKey key) keep)

theorem Asks.of {P : Req → Prop} (h : Asks P) (key : String) : AsksOf key P :=
  ⟨h.read, h.value _, h.value _, h.marker _, h.purge _⟩

/-- `P` holds of every kind of request that the upkeep of the index of `key` makes. -/
structure AsksIndex (key : String) (P : Req → Prop) : Prop where
  read : ∀ r, r.isWrite = false → P r
  index : ∀ value exp expected, P (.publish (indexKey key) [(expiresHeader, renderU64 (exp.getD 0))]
    (encodeValue value exp) expected)
  purge : ∀ keep, P (.purge (indexKey key) keep)

theorem AsksOf.upkeep {P : Req → Prop} {key : String} (h : AsksOf key P) : AsksIndex key P :=
  ⟨h.read, h.index, h.purge⟩

theorem Asks.upkeep {P : Req → Prop} (h : Asks P) (key : String) : AsksIndex key P :=
  (h.of key).upkeep

/-- The calls of other keys leave the records of `key` alone. -/
theorem asksOf_other {k key : String} (h : k ≠ key) :
    AsksOf k fun r => r.touches (encodeKey key) = false where
  read r hr := by cases r <;> simp_all [Req.touches, Req.isWrite]
  value value exp expected := by simp [Req.touches, h]
  index value exp expected := by simp [Req.touches, (encodeKey_ne_indexKey key k).symm]
  marker := by simp [Req.touches, h]
  purge keep := by simp [Req.touches, (encodeKey_ne_indexKey key k).symm]

/-- The calls of a key write no other key's record. -/
theorem asksOf_own (k : String) : AsksOf k fun r => ∀ key, r.touches (encodeKey key) = true → key = k := by
  have hother : ∀ {r : Req}, (∀ key, k ≠ key → r.touches (encodeKey key) = false) →
      ∀ key, r.touches (encodeKey key) = true → key = k := by
    intro r hr key ht
    by_contra hne
    rw [hr key (Ne.symm hne)] at ht
    cases ht
  exact ⟨fun r hr => hother fun _ h => (asksOf_other h).read r hr,
    fun value exp expected => hother fun _ h => (asksOf_other h).value value exp expected,
    fun value exp expected => hother fun _ h => (asksOf_other h).index value exp expected,
    hother fun _ h => (asksOf_other h).marker,
    fun keep => hother fun _ h => (asksOf_other h).purge keep⟩

theorem asks_true : Asks fun _ => True := ⟨fun _ _ => trivial, fun _ _ _ _ => trivial,
  fun _ => trivial, fun _ _ => trivial⟩

section Programs

variable {P : Req → Prop}

/-! ## Reads -/

theorem requests_isExpired (hP : ∀ r, r.isWrite = false → P r) (exp : Option UInt64) :
    (isExpired exp).Requests P := by
  cases exp with
  | none => trivial
  | some s => exact ⟨hP _ rfl, fun _ => trivial⟩

theorem requests_expiresAtFrom (hP : ∀ r, r.isWrite = false → P r) (ttl : Option Duration) :
    (expiresAtFrom ttl).Requests P := by
  cases ttl with
  | none => trivial
  | some d => exact ⟨hP _ rfl, fun _ => trivial⟩

theorem requests_slot (hP : ∀ r, r.isWrite = false → P r) (encoded : Bytes) (key : String) :
    (slot encoded key).Requests P := by
  refine Prog.Requests.bind (p := lastRecord encoded) ⟨hP _ rfl, fun _ => trivial⟩ fun x => ?_
  refine Prog.Requests.bind Prog.Requests.ofExcept fun o => ?_
  cases o with
  | none => trivial
  | some r =>
    rw [slotOf_some]
    split
    · trivial
    · refine (requests_isExpired hP _).bind fun expired => ?_
      split <;> trivial

theorem requests_entryOf (value : Bytes) (exp : Option UInt64) : (entryOf value exp).Requests P := by
  unfold entryOf
  split <;> trivial

theorem requests_get (hP : ∀ r, r.isWrite = false → P r) (key : String) :
    (get key).Requests P := by
  refine (requests_slot hP _ key).bind fun x => ?_
  cases x with
  | live value exp revision => exact (requests_entryOf value exp).bind fun _ => trivial
  | _ => trivial

theorem requests_liveEntry (hP : ∀ r, r.isWrite = false → P r) (key : String) :
    (liveEntry key).Requests P := by
  refine (requests_slot hP _ key).bind fun x => ?_
  cases x with
  | live value exp revision => exact (requests_entryOf value exp).bind fun _ => trivial
  | _ => trivial

/-! ## Writes -/

theorem requests_publish {encoded value : Bytes} {exp : Option UInt64} {expect : Expect}
    (h : P (.publish encoded [(expiresHeader, renderU64 (exp.getD 0))] (encodeValue value exp)
      expect.lastSequence)) : (publish encoded value exp expect).Requests P :=
  ⟨h, fun _ => Prog.Requests.ofExcept⟩

theorem requests_write {encoded value : Bytes} {exp : Option UInt64} {expect : Expect}
    (h : P (.publish encoded [(expiresHeader, renderU64 (exp.getD 0))] (encodeValue value exp)
      expect.lastSequence)) : (write encoded value exp expect).Requests P := by
  refine (requests_publish h).attempt.bind fun x => ?_
  cases x <;> trivial

theorem requests_purgeThrough (h : Asks P) (subject : Bytes) (n : Nat) :
    (purgeThrough subject n).Requests P := ⟨h.purge _ _, fun _ => Prog.Requests.ofExcept⟩

theorem requests_purgeIndex {key : String} (h : AsksIndex key P) :
    (purgeIndex key).Requests P := ⟨h.purge _, fun _ => Prog.Requests.ofExcept⟩

theorem requests_publishIndex {key : String} (h : AsksIndex key P) :
    (publishIndex key).Requests P := requests_publish (h.index _ _ _)

theorem requests_writeIndex {key : String} (h : AsksIndex key P) :
    (writeIndex key).Requests P :=
  (requests_publishIndex h).bind fun _ => Prog.Requests.ofExcept.map

theorem requests_reindexIfLive {key : String} (h : AsksIndex key P) :
    (reindexIfLive key).Requests P := by
  refine (requests_slot h.read _ key).bind fun x => ?_
  cases x with
  | live value exp revision => exact requests_writeIndex h
  | _ => trivial

theorem requests_unindex {key : String} (h : AsksIndex key P) : (unindex key).Requests P :=
  (requests_purgeIndex h).bind fun _ => requests_reindexIfLive h

theorem requests_refused {α : Type} {key : String} (h : AsksIndex key P)
    (indexed : Except ClusterError (Option Nat)) (e : ClusterError) :
    (refused key indexed e : Kv α).Requests P := by
  unfold refused
  split
  · exact Prog.Requests.bind (requests_unindex h).attempt.map fun _ => trivial
  · trivial

/-! ## Jobs -/

theorem requests_removeDead (h : Asks P) (subject : Bytes) (n : Nat) :
    (removeDead subject n).Requests P := by
  unfold removeDead
  split
  · refine (requests_purgeThrough h subject n).bind fun _ => ?_
    split
    · exact requests_reindexIfLive (h.upkeep _)
    · trivial
  · split
    · exact requests_purgeThrough h subject n
    · refine (requests_purgeIndex (h.upkeep _)).bind fun _ => ?_
      exact (requests_purgeThrough h subject n).bind fun _ =>
        requests_reindexIfLive (h.upkeep _)

theorem requests_settleLegacy (h : Asks P) (encoded : Bytes) (n : Nat) :
    (settleLegacy encoded n).Requests P := by
  refine Prog.Requests.bind (p := lastRecord encoded) ⟨h.read _ rfl, fun _ => trivial⟩ fun x => ?_
  refine Prog.Requests.bind Prog.Requests.ofExcept fun o => ?_
  split
  · trivial
  · refine Prog.Requests.bind (requests_isExpired h.read _) fun expired => ?_
    split
    · exact (requests_removeDead h encoded n).bind fun _ => trivial
    · refine (requests_write (h.value _ _ _ _)).bind fun written => ?_
      split
      · split
        · exact (requests_writeIndex (h.upkeep _)).bind fun _ => trivial
        · trivial
      · trivial
      · trivial

/-- A job starts no job. -/
theorem requests_job (h : Asks P) (j : Job) : j.program.Requests P := by
  cases j with
  | removeDead subject n => exact (requests_removeDead h subject n).map
  | settleLegacy encoded n => exact (requests_settleLegacy h encoded n).map
  | liveEntry key => exact (requests_liveEntry h.read key).map

/-! ## Calls -/

section Calls

variable {key : String} (h : AsksOf key P)
include h

theorem requests_put (value : Bytes) (ttl : Option Duration) :
    (put key value ttl).Requests P := by
  refine (requests_expiresAtFrom h.read ttl).bind fun exp => ?_
  refine (requests_publish (h.value _ _ _)).bind fun data => ?_
  refine (requests_publishIndex h.upkeep).bind fun index => ?_
  split
  · exact Prog.Requests.ofExcept.map
  · exact requests_refused h.upkeep _ _
  · trivial

theorem requests_putIfAbsent (value : Bytes) (ttl : Option Duration) :
    (putIfAbsent key value ttl).Requests P := by
  refine (requests_expiresAtFrom h.read ttl).bind fun exp => ?_
  have hrounds : ∀ rounds expect, (putIfAbsentRounds key value exp rounds expect).Requests P := by
    intro rounds
    induction rounds with
    | zero => exact fun _ => trivial
    | succ rounds ih =>
      intro expect
      refine (requests_publish (h.value _ _ _)).bind fun claim => ?_
      refine (requests_publishIndex h.upkeep).bind fun index => ?_
      split
      · exact Prog.Requests.bind (Prog.Requests.map Prog.Requests.ofExcept) fun _ => trivial
      · exact requests_refused h.upkeep _ _
      · refine (requests_slot h.read _ key).bind fun x => ?_
        cases x with
        | live value' exp' revision => trivial
        | dead revision => exact ih _
        | empty => exact ih _
  exact hrounds _ _

theorem requests_delete : (delete key).Requests P := by
  refine (requests_slot h.read _ key).bind fun x => ?_
  refine Prog.Requests.bind (p := publishMarker (encodeKey key))
    ⟨h.marker, fun _ => Prog.Requests.ofExcept⟩ fun marker => ?_
  split <;> trivial

theorem requests_expire (ttl : Option Duration) :
    (expire key ttl).Requests P := by
  have hrounds : ∀ rounds, (expireRounds key ttl rounds).Requests P := by
    intro rounds
    induction rounds with
    | zero => trivial
    | succ rounds ih =>
      refine (requests_slot h.read _ key).bind fun x => ?_
      cases x with
      | live value exp revision =>
        refine (requests_expiresAtFrom h.read ttl).bind fun exp => ?_
        refine (requests_write (h.value _ _ _)).bind fun written => ?_
        split
        · trivial
        · exact ih
        · trivial
      | _ => trivial
  exact hrounds _

omit h in
theorem requests_readCounter (hP : ∀ r, r.isWrite = false → P r) (api : CounterApi) (key : String)
    (ttl : Option Duration) : (readCounter api key ttl).Requests P := by
  refine (requests_slot hP _ key).bind fun x => ?_
  cases x with
  | empty => exact (requests_expiresAtFrom hP ttl).bind fun _ => trivial
  | dead revision => exact (requests_expiresAtFrom hP ttl).bind fun _ => trivial
  | live value exp revision =>
    refine Prog.Requests.bind (p := counterExpiry ttl exp) ?_ fun expires =>
      Prog.Requests.bind Prog.Requests.ofExcept fun _ => trivial
    unfold counterExpiry
    split
    · exact requests_expiresAtFrom hP ttl
    · trivial

theorem requests_updateCounter (api : CounterApi) (op : String)
    (ttl : Option Duration) (step : Int64 → Except ClusterError Int64) :
    (updateCounter api op key ttl step).Requests P := by
  have hrounds : ∀ rounds, (updateCounterRounds api op key ttl step rounds).Requests P := by
    intro rounds
    induction rounds with
    | zero => trivial
    | succ rounds ih =>
      refine (requests_readCounter h.read api key ttl).bind fun read => ?_
      refine Prog.Requests.bind Prog.Requests.ofExcept fun next => ?_
      split
      · trivial
      · refine (requests_publish (h.value _ _ _)).bind fun pending => ?_
        refine Prog.Requests.bind (p := indexCreated key read.2.2.2) ?_ fun indexed => ?_
        · unfold indexCreated
          split
          · exact (requests_publishIndex h.upkeep).map
          · trivial
        · split
          · exact Prog.Requests.bind (Prog.Requests.map Prog.Requests.ofExcept) fun _ => trivial
          · exact ih
          · exact requests_refused h.upkeep _ _
  exact hrounds _

end Calls

theorem requests_recordConsumer (hP : ∀ r, r.isWrite = false → P r) (description : String)
    (filter : Bytes) (start : Nat) : (recordConsumer description filter start).Requests P := by
  refine ⟨hP _ rfl, fun x => Prog.Requests.bind Prog.Requests.ofExcept fun pending => ?_⟩
  split
  · trivial
  · exact ⟨hP _ rfl, fun y => Prog.Requests.bind Prog.Requests.ofExcept fun _ => trivial⟩

theorem requests_indexAllDone (pendings : List PendingWrite) :
    (indexAllDone pendings).Requests P := by
  induction pendings with
  | nil => trivial
  | cons pending pendings ih =>
    exact Prog.Requests.bind (Prog.Requests.map Prog.Requests.ofExcept) fun _ => ih

theorem requests_backfillRecord (hindex : ∀ key, (publishIndex key).Requests P) (now : UInt64)
    (b : Backfill) (r : Delivered) : (backfillRecord now b r).Requests P := by
  unfold backfillRecord
  split
  · trivial
  · refine (hindex _).bind fun pending => ?_
    dsimp only
    split
    · exact (requests_indexAllDone _).bind fun _ => trivial
    · trivial

/-- A backfill reads, and writes index records. -/
theorem requests_backfillIndex (hP : ∀ r, r.isWrite = false → P r)
    (hindex : ∀ key, (publishIndex key).Requests P) (fuel : Nat) :
    (backfillIndex fuel).Requests P := by
  have hscan : ∀ now fuel b, (backfillScan now fuel b).Requests P := by
    intro now fuel
    induction fuel with
    | zero => exact fun _ => trivial
    | succ fuel ih =>
      intro b
      refine ⟨hP _ rfl, fun x => ?_⟩
      dsimp only
      split
      · refine (requests_backfillRecord hindex _ _ _).bind fun b' => ?_
        split
        · trivial
        · exact ih _
      all_goals trivial
  refine (requests_recordConsumer hP _ _ _).bind fun opened => ?_
  split
  · refine Prog.Requests.bind (p := nowUnixSecs) ⟨hP _ rfl, fun _ => trivial⟩ fun now => ?_
    refine (hscan _ _ _).bind fun b => ?_
    exact (requests_indexAllDone _).bind fun _ => trivial
  · trivial

end Programs

/-! ## Listings -/

/-- A job that reads the entry of a key. -/
def Job.Reads (j : Job) : Prop := ∃ key, j = .liveEntry key

section Listings

variable {P : Req → Prop}

theorem makes_liveEntries (keys : List String) : (liveEntries keys).Makes P Job.Reads := by
  refine Prog.Makes.spawns (fun j hj => ?_) fun _ => Prog.Requests.ofExcept.makes
  obtain ⟨key, -, rfl⟩ := List.mem_map.1 hj
  exact ⟨key, rfl⟩

variable (hP : ∀ r, r.isWrite = false → P r)
include hP

theorem makes_pageScan (pre : String) (indexed : Bool) (limit fuel : Nat) (scan : PageScan) :
    (pageScan pre indexed limit fuel scan).Makes P Job.Reads := by
  induction fuel generalizing scan with
  | zero => trivial
  | succ fuel ih =>
    unfold pageScan
    split
    · refine ⟨hP _ rfl, fun x => ?_⟩
      dsimp only
      split
      · split
        · exact ih _
        · trivial
      · trivial
      · trivial
      · trivial
      · split <;> trivial
    · trivial

theorem makes_recordsPage (pre : String) (indexed : Bool) (after limit fuel : Nat) :
    (recordsPage pre indexed after limit fuel).Makes P Job.Reads := by
  refine Prog.Makes.bind (requests_recordConsumer hP _ _ _).makes fun opened => ?_
  split
  · refine (makes_pageScan hP pre indexed limit fuel {}).bind fun scan => ?_
    exact (makes_liveEntries scan.matched).bind fun _ => trivial
  · trivial

theorem makes_indexedKeys (pre : String) (max : Option Nat) :
    (indexedKeys pre max).Makes P Job.Reads :=
  ⟨hP _ rfl, fun _ => Prog.Makes.bind Prog.Requests.ofExcept.makes fun _ => trivial⟩

omit hP in
theorem makes_subjectsPage (keys : List String) (after : Option Bytes) (limit : Nat) :
    (subjectsPage keys after limit).Makes P Job.Reads :=
  (makes_liveEntries _).bind fun _ => trivial

theorem makes_listPage (pre : String) (cursor : Option Bytes) (limit fuel : Nat) :
    (listPage pre cursor limit fuel).Makes P Job.Reads := by
  unfold listPage
  split
  · exact (makes_indexedKeys hP pre none).bind fun _ => makes_subjectsPage _ _ _
  · split
    · exact makes_recordsPage hP pre _ _ _ fuel
    · trivial
  · have hready : (Prog.req (S := kvSig) Req.indexReady fun (ready : Bool) => Prog.ret ready).Makes P
        Job.Reads := ⟨hP _ rfl, fun _ => trivial⟩
    have hrecords : ∀ indexed, (recordsPage pre indexed 0 (max limit 1) fuel).Makes P Job.Reads :=
      fun indexed => makes_recordsPage hP pre indexed 0 _ fuel
    refine hready.bind fun ready => ?_
    split
    · refine (makes_indexedKeys hP pre _).bind fun keys => ?_
      split
      · exact makes_subjectsPage _ _ _
      · exact hready.bind hrecords
    · exact hready.bind hrecords

theorem makes_listPass (pre : String) (limit scanFuel fuel : Nat) (cursor : Option Bytes) :
    (listPass pre limit scanFuel fuel cursor).Makes P Job.Reads := by
  induction fuel generalizing cursor with
  | zero => trivial
  | succ fuel ih =>
    refine (makes_listPage hP pre cursor limit scanFuel).bind fun page => ?_
    split
    · trivial
    · exact (ih _).bind fun _ => trivial

end Listings

/-- A call that starts no job. -/
def Op.Simple : Op → Prop
  | .sweep .. => False
  | .listPage .. => False
  | .listPass .. => False
  | _ => True

/-- The key of a call on one key. -/
def Op.key? : Op → Option String
  | .get key => some key
  | .put key _ _ => some key
  | .putIfAbsent key _ _ => some key
  | .delete key => some key
  | .expire key _ => some key
  | .updateCounter _ key _ _ => some key
  | _ => none

/-- What every kind of request on a key meets, every request of a call on the
key meets. -/
theorem requests_keyed {P : Req → Prop} {key : String} (h : AsksOf key P) (api : CounterApi)
    {op : Op} (hop : op.key? = some key) : (op.program api).Requests P := by
  cases op with
  | get k =>
    cases Option.some.inj hop
    exact (requests_get h.read key).map
  | put k value ttl =>
    cases Option.some.inj hop
    exact (requests_put h value ttl).map
  | putIfAbsent k value ttl =>
    cases Option.some.inj hop
    exact (requests_putIfAbsent h value ttl).map
  | delete k =>
    cases Option.some.inj hop
    exact (requests_delete h).map
  | expire k ttl =>
    cases Option.some.inj hop
    exact (requests_expire h ttl).map
  | updateCounter name k ttl step =>
    cases Option.some.inj hop
    exact (requests_updateCounter h api name ttl step).map
  | _ => exact absurd hop (by simp [Op.key?])

/-- What every kind of request meets, every request of such a call meets. -/
theorem requests_op {P : Req → Prop} (h : Asks P) (api : CounterApi) {op : Op} (hop : op.Simple) :
    (op.program api).Requests P := by
  cases hkey : op.key? with
  | some key => exact requests_keyed (h.of key) api hkey
  | none =>
    cases op with
    | backfillIndex fuel =>
      exact (requests_backfillIndex h.read (fun key => requests_publish (h.value _ _ _ _)) fuel).map
    | sweep => exact absurd hop id
    | listPage => exact absurd hop id
    | listPass => exact absurd hop id
    | _ => exact absurd hkey (by simp [Op.key?])

end ClusterNats
