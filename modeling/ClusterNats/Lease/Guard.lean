import ClusterNats.Conc.Own
import ClusterNats.Lease.Store

/-!
# What the lease calls do

Every write of a lease call is told by what the call itself did before: a mint
stores the successor of what it read, an acquisition stores its last token and
stores it once, and only over a slot it saw free, and a renewal or a release
writes over a record of its own lease that it read.

* `storedBy`, `Mints`, `readEvent` — the events that matter.
* `Guard` — what a write owes.
* `Returns` — what a finished call tells.
* `program_abides` — every call keeps its guard.
-/

namespace ClusterNats.Lease

open Conc

/-! ## Events -/

/-- The record an event stored, when it did. -/
def storedBy (e : LeaseEvent) : Option (KvStore × String × Bytes) :=
  match e with
  | ⟨_, .update store key value _, x, _⟩ =>
    match (x : Except PublishError Nat) with
    | .ok _ => some (store, key, value)
    | .error _ => none
  | _ => none

/-- An event stored a token of the key. -/
def Mints (key : String) (token : UInt64) (e : LeaseEvent) : Prop :=
  storedBy e = some (.fencing, fencingPath key, renderU64 token)

/-- An event stored a record in a bucket. -/
def StoresIn (store : KvStore) (e : LeaseEvent) : Prop := ∃ key value, storedBy e = some (store, key, value)

/-- The read of a key by `who` in the state `s`. -/
def readEvent (who : Actor) (store : KvStore) (key : String) (s : Server) : LeaseEvent :=
  ⟨who, .getLast store key, Except.ok (s.last store key), s⟩

/-- The reading of the clock by `who` in the state `s`. -/
def clockEvent (who : Actor) (s : Server) : LeaseEvent := ⟨who, .systemTime, s.clock, s⟩

/-- What a read found. -/
def recordIn (s : Server) (store : KvStore) (key : String) : Option Record :=
  (s.last store key).map Record.ofMessage

/-- An event is one the server answered, in some mode of the backend. -/
def Known (e : LeaseEvent) : Prop := ∃ m s', serve m e.pre () e.req = some (e.resp, s', ())

/-- An answered read is one of the state, or an error. -/
theorem Known.getLast {who : Actor} {store : KvStore} {key : String} {x : Resp (.getLast store key)}
    {s : Server} (h : Known ⟨who, .getLast store key, x, s⟩) :
    x = Except.ok (s.last store key) ∨ ∃ e, x = Except.error e := by
  obtain ⟨m, s', h⟩ := h
  obtain ⟨y, hy, heq⟩ := Option.map_eq_some_iff.1 h
  cases heq
  cases m with
  | ok => exact .inl (Option.some.inj hy).symm
  | fail reason => exact .inr ⟨reason, (Option.some.inj hy).symm⟩
  | lost reason => exact .inr ⟨reason, (Option.some.inj hy).symm⟩
  | _ => cases hy

/-- An answered clock reading is one of the state. -/
theorem Known.systemTime {who : Actor} {x : Resp .systemTime} {s : Server}
    (h : Known ⟨who, .systemTime, x, s⟩) : x = s.clock := by
  obtain ⟨m, s', h⟩ := h
  exact (Prod.mk.inj (Option.some.inj h)).1.symm

/-! ## Guards -/

/-- Our last token is unused: since it was minted, nothing was minted and no
lease was stored. -/
def FreshMint (key : String) (token : UInt64) (tr : List LeaseEvent) : Prop :=
  ∃ since m before, tr = since ++ m :: before ∧ Mints key token m ∧
    ∀ e ∈ since, ¬ StoresIn .fencing e ∧ ¬ StoresIn .leases e

/-- A slot that may be taken: it is empty, a marker, or a dated record that has
lapsed. -/
def Takeable (json : LeaseJson) (s : Server) (key : String) : Prop :=
  ∀ r, recordIn s .leases key = some r → r.operation = .put →
    ∃ incumbent, json.fromSlice r.payload = .ok incumbent ∧ incumbent.expiresAtUnix ≠ 0 ∧
      incumbent.expiresAtUnix ≤ s.now

/-- The slot was seen free at this revision. -/
inductive SeenFree (json : LeaseJson) (who : Actor) (key : String) :
    Nat → List LeaseEvent → Prop
  | empty (tr : List LeaseEvent) : SeenFree json who key 0 tr
  | marker {tr : List LeaseEvent} {s : Server} {r : Record}
      (read : readEvent who .leases key s ∈ tr) (found : recordIn s .leases key = some r)
      (marker : r.operation ≠ .put) : SeenFree json who key r.revision tr
  | lapsed {tr : List LeaseEvent} {s s' : Server} {r : Record} {incumbent : LeaseRecord}
      (read : readEvent who .leases key s ∈ tr) (found : recordIn s .leases key = some r)
      (parsed : json.fromSlice r.payload = .ok incumbent) (dated : incumbent.expiresAtUnix ≠ 0)
      (clock : clockEvent who s' ∈ tr) (lapsed : incumbent.expiresAtUnix ≤ s'.now) :
      SeenFree json who key r.revision tr

/-- The slot was seen holding a record of the lease at this revision. -/
def SeenHeld (json : LeaseJson) (who : Actor) (h : LeaseHandle) (record : LeaseRecord)
    (revision : Nat) (tr : List LeaseEvent) : Prop :=
  ∃ s r, readEvent who .leases h.key s ∈ tr ∧ recordIn s .leases h.key = some r ∧
    r.revision = revision ∧ json.fromSlice r.payload = .ok record ∧ h.owns record = true

/-- The record of a lease that a slot holds. -/
def Server.holding (json : LeaseJson) (s : Server) (key : String) : Option LeaseRecord :=
  (recordIn s .leases key).bind fun r =>
    if r.operation = .put then (json.fromSlice r.payload).toOption else none

/-- The slot holds a record of the lease. -/
def Server.Holds (json : LeaseJson) (s : Server) (h : LeaseHandle) : Prop :=
  ∃ record, s.holding json h.key = some record ∧ h.owns record = true

theorem holding_eq_some {json : LeaseJson} {s : Server} {key : String} {record : LeaseRecord} :
    s.holding json key = some record ↔ ∃ r, recordIn s .leases key = some r ∧ r.operation = .put ∧
      json.fromSlice r.payload = .ok record := by
  unfold Server.holding
  rw [Option.bind_eq_some_iff]
  constructor
  · rintro ⟨r, hr, heq⟩
    split at heq
    · rename_i hput
      refine ⟨r, hr, hput, ?_⟩
      cases hparsed : json.fromSlice r.payload with
      | error e => rw [hparsed] at heq; cases heq
      | ok record' => rw [hparsed] at heq; cases heq; rfl
    · cases heq
  · rintro ⟨r, hr, hput, hparsed⟩
    exact ⟨r, hr, by rw [if_pos hput, hparsed]; rfl⟩

/-- What a write of a mint owes. -/
def MintGuard (key : String) (who : Actor) (tr : List LeaseEvent) : Req → Prop
  | .update .fencing path value revision => path = fencingPath key ∧
      ∃ s, readEvent who .fencing path s ∈ tr ∧
        value = renderU64 (nextToken (recordIn s .fencing path)) ∧
        revision = revisionOf (recordIn s .fencing path)
  | .update .leases .. => False
  | .deleteExpectRevision .. => False
  | _ => True

/-- What a write of an acquisition owes. -/
def AcquireGuard (json : LeaseJson) (p : AcquireParams) (who : Actor) (tr : List LeaseEvent) :
    Req → Prop
  | .update .fencing path value revision => path = fencingPath p.key ∧
      ∃ s, readEvent who .fencing path s ∈ tr ∧
        value = renderU64 (nextToken (recordIn s .fencing path)) ∧
        revision = revisionOf (recordIn s .fencing path)
  | .update .leases key value revision => key = p.key ∧ ∃ record, value = json.toVec record ∧
      record.nodeId = p.nodeId ∧ FreshMint key record.fencingToken tr ∧
      SeenFree json who key revision tr
  | .deleteExpectRevision .. => False
  | _ => True

/-- What a write of a renewal owes. -/
def RenewGuard (json : LeaseJson) (h : LeaseHandle) (who : Actor) (tr : List LeaseEvent) :
    Req → Prop
  | .update .leases key value revision => key = h.key ∧ ∃ record expiresAt expiresAtUnix,
      value = json.toVec { record with expiresAt, expiresAtUnix } ∧
      SeenHeld json who h record revision tr
  | .update .fencing .. => False
  | .deleteExpectRevision .. => False
  | _ => True

/-- What a write of a renewal replaces: a record of its lease that it read, of
which it changes the expiry. -/
def KeepGuard (json : LeaseJson) (h : LeaseHandle) (who : Actor) (tr : List LeaseEvent) :
    Req → Prop
  | .update .leases key value revision => key = h.key ∧ ∃ s record expiresAt expiresAtUnix,
      readEvent who .leases h.key s ∈ tr ∧ s.holding json h.key = some record ∧
      h.owns record = true ∧ revision = revisionOf (recordIn s .leases h.key) ∧
      value = json.toVec { record with expiresAt, expiresAtUnix }
  | .update .fencing .. => False
  | .deleteExpectRevision .. => False
  | _ => True

/-- What the delete of a release owes. -/
def ReleaseGuard (json : LeaseJson) (h : LeaseHandle) (who : Actor) (tr : List LeaseEvent) :
    Req → Prop
  | .deleteExpectRevision store key revision => store = .leases ∧ key = h.key ∧
      ∃ record, SeenHeld json who h record revision tr
  | .update .. => False
  | _ => True

/-- What a request of a call owes. -/
def Guard (json : LeaseJson) (op : Op) (who : Actor) (tr : List LeaseEvent) (r : Req) : Prop :=
  match op with
  | .acquire p _ => AcquireGuard json p who tr r
  | .tryAcquire p => AcquireGuard json p who tr r
  | .renew h => RenewGuard json h who tr r
  | .renewalLoop h _ => RenewGuard json h who tr r
  | .release h => ReleaseGuard json h who tr r

/-- Does the request write? -/
def Req.isWrite : Req → Bool
  | .update .. => true
  | .deleteExpectRevision .. => true
  | _ => false

/-! ## The rules of the check -/

section Rules

variable {who : Actor} {G : List LeaseEvent → Req → Prop} {α : Type}
  {Q : List LeaseEvent → Except ClusterError α → Prop} {tr : List LeaseEvent}

/-- A guard that lets every read through. -/
def FreeReads (G : List LeaseEvent → Req → Prop) : Prop :=
  ∀ tr (r : Req), r.isWrite = false → G tr r

theorem abides_lastRecord {store : KvStore} {key : String} (hG : G tr (.getLast store key))
    {f : Except String (Option Record) → LeaseProg α}
    (hok : ∀ s, (f (.ok (recordIn s store key))).Abides who Known G Q
      (readEvent who store key s :: tr))
    (herr : ∀ e s, (f (.error e)).Abides who Known G Q
      (⟨who, .getLast store key, Except.error e, s⟩ :: tr)) :
    (lastRecord store key >>= f).Abides who Known G Q tr := by
  refine ⟨hG, fun x s hx => ?_⟩
  rcases hx.getLast with rfl | ⟨e, rfl⟩
  · exact hok s
  · exact herr e s

theorem abides_now (hG : G tr .systemTime) {f : UInt64 → LeaseProg α}
    (h : ∀ s, (f s.now).Abides who Known G Q (clockEvent who s :: tr)) :
    (nowUnixSecs >>= f).Abides who Known G Q tr := by
  refine ⟨hG, fun x s hx => ?_⟩
  obtain rfl := hx.systemTime
  exact h s

theorem abides_rfc3339After (hG : G tr .systemTime) {offset : Duration} {f : String → LeaseProg α}
    (h : ∀ text s, (f text).Abides who Known G Q (clockEvent who s :: tr)) :
    (rfc3339After offset >>= f).Abides who Known G Q tr := by
  refine ⟨hG, fun x s hx => ?_⟩
  obtain rfl := hx.systemTime
  exact h _ s

/-- The expiry pair costs two readings of the clock. -/
theorem abides_expiryFor (hG : G tr .systemTime) (hG' : ∀ s, G (clockEvent who s :: tr) .systemTime)
    {ttl : Duration} {f : String × UInt64 → LeaseProg α}
    (h : ∀ expiry s s', (f expiry).Abides who Known G Q (clockEvent who s' :: clockEvent who s :: tr)) :
    (expiryFor ttl >>= f).Abides who Known G Q tr := by
  rw [expiryFor, bind_assoc]
  refine abides_rfc3339After hG fun text s => ?_
  rw [bind_assoc]
  exact abides_now (hG' s) fun s' => h _ s s'

end Rules

/-! ## The programs -/

section Programs

variable {json : LeaseJson} {who : Actor} {tr : List LeaseEvent}

theorem freeReads_acquire (p : AcquireParams) : FreeReads (AcquireGuard json p who) := by
  intro tr r hr
  cases r <;> trivial

theorem freeReads_keep (h : LeaseHandle) : FreeReads (KeepGuard json h who) := by
  intro tr r hr
  cases r <;> trivial

/-- What was read of a record that is held. -/
theorem seenHeld_of_holding {h : LeaseHandle} {s : Server} {record : LeaseRecord}
    (hread : readEvent who .leases h.key s ∈ tr) (hheld : s.holding json h.key = some record)
    (howns : h.owns record = true) :
    SeenHeld json who h record (revisionOf (recordIn s .leases h.key)) tr := by
  obtain ⟨r, hr, -, hparsed⟩ := holding_eq_some.1 hheld
  exact ⟨s, r, hread, hr, by rw [hr]; rfl, hparsed, howns⟩

theorem renewGuard_of_keep {h : LeaseHandle} {r : Req} (hr : KeepGuard json h who tr r) :
    RenewGuard json h who tr r := by
  cases r with
  | update store key value revision =>
    cases store with
    | leases =>
      obtain ⟨rfl, s, record, expiresAt, expiresAtUnix, hread, hheld, howns, rfl, rfl⟩ := hr
      exact ⟨rfl, record, expiresAt, expiresAtUnix, rfl, seenHeld_of_holding hread hheld howns⟩
    | fencing => exact absurd hr id
  | deleteExpectRevision store key revision => exact absurd hr id
  | _ => trivial

theorem freeReads_release (h : LeaseHandle) : FreeReads (ReleaseGuard json h who) := by
  intro tr r hr
  cases r <;> trivial

/-- What was minted stays fresh while nothing is stored. -/
theorem FreshMint.cons {key : String} {token : UInt64} (h : FreshMint key token tr)
    {e : LeaseEvent} (he : storedBy e = none) : FreshMint key token (e :: tr) := by
  obtain ⟨since, m, before, rfl, hm, hsince⟩ := h
  refine ⟨e :: since, m, before, rfl, hm, fun e' he' => ?_⟩
  rcases List.mem_cons.1 he' with rfl | he'
  · simp [StoresIn, he]
  · exact hsince e' he'

theorem SeenFree.mono {key : String} {revision : Nat} {tr' : List LeaseEvent}
    (h : SeenFree json who key revision tr) (htr : tr ⊆ tr') :
    SeenFree json who key revision tr' := by
  cases h with
  | empty => exact .empty _
  | marker read found marker => exact .marker (htr read) found marker
  | lapsed read found parsed dated clock lapsed =>
    exact .lapsed (htr read) found parsed dated (htr clock) lapsed

theorem freeReads_mint (key : String) : FreeReads (MintGuard key who) := by
  intro tr r hr
  cases r <;> trivial

/-- A token is returned right after it was stored. -/
theorem bumpRounds_mints {key : String} (rounds : Nat) :
    (bumpRounds (fencingPath key) rounds).Abides who Known (MintGuard key who)
      (fun tr x => ∀ token, x = .ok token → ∃ m before, tr = m :: before ∧ Mints key token m) tr := by
  induction rounds generalizing tr with
  | zero => exact fun token h => by cases h
  | succ rounds ih =>
    refine abides_lastRecord (freeReads_mint key _ _ rfl) (fun s => ?_) fun e s token h => by cases h
    refine ⟨⟨rfl, s, List.mem_cons_self .., rfl, rfl⟩, fun x s' _ => ?_⟩
    cases (x : Except PublishError Nat) with
    | ok seq =>
      rintro token ⟨⟩
      exact ⟨_, _, rfl, rfl⟩
    | error e =>
      dsimp only [bind, Prog.bind]
      cases lostCas e with
      | true => exact ih
      | false => exact fun token h => by cases h

/-- A mint leaves its token fresh. -/
theorem bumpRounds_abides {p : AcquireParams} (rounds : Nat) :
    (bumpRounds (fencingPath p.key) rounds).Abides who Known (AcquireGuard json p who)
      (fun tr x => ∀ token, x = .ok token → FreshMint p.key token tr) tr := by
  refine ((bumpRounds_mints rounds).guard fun tr r hr => ?_).conseq fun tr x hx token htoken => ?_
  · cases r with
    | update store path value revision =>
      cases store with
      | leases => exact absurd hr id
      | fencing => exact hr
    | deleteExpectRevision store key revision => exact absurd hr id
    | _ => trivial
  · obtain ⟨m, before, rfl, hm⟩ := hx token htoken
    exact ⟨[], m, before, rfl, hm, by simp⟩

/-- The latest event stored the record. -/
def JustStored (json : LeaseJson) (key : String) (record : LeaseRecord) (tr : List LeaseEvent) :
    Prop :=
  ∃ e before, tr = e :: before ∧ storedBy e = some (.leases, key, json.toVec record)

/-- What an attempt at the slot tells. -/
def AttemptTells (json : LeaseJson) (p : AcquireParams) (tr : List LeaseEvent)
    (x : Except ClusterError AcquireOutcome) : Prop :=
  ∀ record revision, x = .ok (.acquired record revision) →
    record.nodeId = p.nodeId ∧ JustStored json p.key record tr

section Slot

variable {p : AcquireParams} {record : LeaseRecord}

theorem reclaim_abides (hnode : record.nodeId = p.nodeId)
    (hfresh : FreshMint p.key record.fencingToken tr) {revision : Nat}
    (hfree : SeenFree json who p.key revision tr) :
    (reclaim json p.key record revision).Abides who Known (AcquireGuard json p who)
      (AttemptTells json p) tr := by
  refine ⟨⟨rfl, record, rfl, hnode, hfresh, hfree⟩, fun x s _ => ?_⟩
  cases (x : Except PublishError Nat) with
  | ok seq =>
    rintro record' revision' heq
    obtain ⟨rfl, rfl⟩ := AcquireOutcome.acquired.inj (Except.ok.inj heq)
    exact ⟨hnode, _, _, rfl, rfl⟩
  | error e => exact fun record' revision' h => by cases h

theorem reclaimIfExpired_abides (hnode : record.nodeId = p.nodeId)
    (hfresh : FreshMint p.key record.fencingToken tr) :
    (reclaimIfExpired json p.key record).Abides who Known (AcquireGuard json p who)
      (AttemptTells json p) tr := by
  refine abides_lastRecord (freeReads_acquire p _ _ rfl) (fun s => ?_)
    fun e s record' revision' h => by cases h
  have hfresh' := hfresh.cons (e := readEvent who .leases p.key s) rfl
  cases hfound : recordIn s .leases p.key with
  | none => exact fun record' revision' h => by cases h
  | some entry =>
    dsimp only
    split
    · rename_i hmarker
      exact reclaim_abides hnode hfresh' (.marker (List.mem_cons_self ..) hfound hmarker)
    · split
      · exact fun record' revision' h => by cases h
      · rename_i incumbent hparsed
        unfold leaseIsExpired
        split
        · rename_i hdated
          rw [bind_assoc]
          refine abides_now (freeReads_acquire p _ _ rfl) fun s' => ?_
          cases hlapsed : decide (incumbent.expiresAtUnix ≤ s'.now) with
          | false =>
            simp only [Prog.pure_def, Prog.ret_bind]
            exact fun record' revision' h => by cases h
          | true =>
            simp only [Prog.pure_def, Prog.ret_bind, if_true]
            exact reclaim_abides hnode (hfresh'.cons rfl) (.lapsed
              (List.mem_cons_of_mem _ (List.mem_cons_self ..)) hfound hparsed hdated
              (List.mem_cons_self ..) (of_decide_eq_true hlapsed))
        · exact fun record' revision' h => by cases h

theorem tryCreate_abides (hnode : record.nodeId = p.nodeId)
    (hfresh : FreshMint p.key record.fencingToken tr) :
    (tryCreate json p.key record).Abides who Known (AcquireGuard json p who)
      (AttemptTells json p) tr := by
  refine ⟨⟨rfl, record, rfl, hnode, hfresh, .empty _⟩, fun x s _ => ?_⟩
  cases (x : Except PublishError Nat) with
  | ok seq =>
    rintro record' revision' heq
    obtain ⟨rfl, rfl⟩ := AcquireOutcome.acquired.inj (Except.ok.inj heq)
    exact ⟨hnode, _, _, rfl, rfl⟩
  | error e =>
    dsimp only [bind, Prog.bind]
    cases lostCas e with
    | true => exact reclaimIfExpired_abides hnode (hfresh.cons rfl)
    | false => exact fun record' revision' h => by cases h

theorem attempt_abides : (attempt json p).Abides who Known (AcquireGuard json p who)
    (AttemptTells json p) tr := by
  refine (bumpRounds_abides 16).bind (fun tr token hfresh => ?_) fun tr e _ record revision h => by
    cases h
  refine abides_expiryFor (freeReads_acquire p _ _ rfl) (fun _ => freeReads_acquire p _ _ rfl) fun expiry s s' => ?_
  refine abides_rfc3339After (freeReads_acquire p _ _ rfl) fun acquiredAt s'' => ?_
  exact tryCreate_abides rfl ((((hfresh token rfl).cons rfl).cons rfl).cons rfl)

end Slot

/-! ## The calls -/

/-- The lease of an acquisition is the record it stored last. -/
def LeaseTells (json : LeaseJson) (p : AcquireParams) (tr : List LeaseEvent) (h : LeaseHandle) :
    Prop :=
  ∃ record, h = spawnLeaseHandle p record ∧ record.nodeId = p.nodeId ∧
    JustStored json p.key record tr

/-- The slot was seen without a record of the lease, or the delete reached the
server. -/
def ReleaseTells (json : LeaseJson) (h : LeaseHandle) (who : Actor) (tr : List LeaseEvent) : Prop :=
  (∃ s, readEvent who .leases h.key s ∈ tr ∧ ∀ r record, recordIn s .leases h.key = some r →
    json.fromSlice r.payload = .ok record → h.owns record = false) ∨
  ∃ revision x s, (⟨who, .deleteExpectRevision .leases h.key revision, x, s⟩ : LeaseEvent) ∈ tr

/-- What the result of a call tells. -/
def Tells (json : LeaseJson) (op : Op) (who : Actor) (tr : List LeaseEvent)
    (x : Except ClusterError Reply) : Prop :=
  match op with
  | .acquire p _ => ∀ h, x = .ok (.lease (some h)) → LeaseTells json p tr h
  | .tryAcquire p => ∀ h, x = .ok (.lease (some h)) → LeaseTells json p tr h
  | .renew h => ∀ y, x = .ok y → ∃ record revision, SeenHeld json who h record revision tr
  | .renewalLoop .. => True
  | .release h => ∀ y, x = .ok y → ReleaseTells json h who tr

theorem waitForSlot_abides {p : AcquireParams} {started : Instant} {limit : Nat}
    {again : LeaseProg LeaseHandle} {Q : List LeaseEvent → Except ClusterError LeaseHandle → Prop}
    (hagain : ∀ tr, again.Abides who Known (AcquireGuard json p who) Q tr)
    (herr : ∀ tr e, Q tr (.error e)) :
    (waitForSlot p started limit again).Abides who Known (AcquireGuard json p who) Q tr := by
  unfold waitForSlot
  split
  · refine ⟨trivial, fun t s _ => ?_⟩
    dsimp only
    split
    · exact herr _ _
    · exact ⟨trivial, fun _ s' _ => hagain _⟩
  · exact herr _ _

theorem acquireLoop_abides {p : AcquireParams} (started : Instant) (fuel : Nat) :
    (acquireLoop json p started fuel).Abides who Known (AcquireGuard json p who)
      (fun tr x => ∀ h, x = .ok h → LeaseTells json p tr h) tr := by
  induction fuel generalizing tr with
  | zero => trivial
  | succ fuel ih =>
    refine attempt_abides.bind (fun tr outcome htells => ?_) fun tr e _ h heq => by cases heq
    cases outcome with
    | acquired record revision =>
      rintro h ⟨⟩
      obtain ⟨hnode, hstored⟩ := htells record revision rfl
      exact ⟨record, rfl, hnode, hstored⟩
    | held => exact waitForSlot_abides (fun _ => ih) fun tr e h heq => by cases heq
    | backendError reason => exact fun h heq => by cases heq

/-- The slot was seen without a record of the lease. -/
def SeenLost (json : LeaseJson) (h : LeaseHandle) (who : Actor) (tr : List LeaseEvent) : Prop :=
  ∃ s, readEvent who .leases h.key s ∈ tr ∧ ¬ s.Holds json h

/-- What a read of the lease tells. -/
def HeldTells (json : LeaseJson) (h : LeaseHandle) (who : Actor) (tr : List LeaseEvent)
    (x : Except ClusterError (LeaseRecord × Nat)) : Prop :=
  (∀ y, x = .ok y → h.owns y.1 = true ∧ ∃ s, readEvent who .leases h.key s ∈ tr ∧
    s.holding json h.key = some y.1 ∧ y.2 = revisionOf (recordIn s .leases h.key)) ∧
  (x = .error .leaseExpired → SeenLost json h who tr)

/-- What a renewal tells: it saw a record of its lease, and its expiry is that of
the one it stored or saw, or it saw the slot without one. -/
def RenewTells (json : LeaseJson) (h : LeaseHandle) (who : Actor) (tr : List LeaseEvent)
    (x : Except ClusterError String) : Prop :=
  (∀ e, x = .ok e → (∃ s, readEvent who .leases h.key s ∈ tr ∧ s.Holds json h) ∧
    ∃ record : LeaseRecord, record.expiresAt = e ∧ h.owns record = true ∧
      (JustStored json h.key record tr ∨
        ∃ s, readEvent who .leases h.key s ∈ tr ∧ s.holding json h.key = some record)) ∧
  (x = .error .leaseExpired → SeenLost json h who tr)

theorem readHeld_keeps {h : LeaseHandle} : (readHeld json h).Abides who Known
    (KeepGuard json h who) (HeldTells json h who) tr := by
  refine abides_lastRecord (freeReads_keep h _ _ rfl) (fun s => ?_)
    fun e s => ⟨fun y heq => (nomatch heq), fun heq => (nomatch heq)⟩
  have hread : readEvent who .leases h.key s ∈ readEvent who .leases h.key s :: tr :=
    List.mem_cons_self ..
  have hlost : ∀ {x : Except ClusterError (LeaseRecord × Nat)}, ¬ s.Holds json h →
      x = .error .leaseExpired → HeldTells json h who (readEvent who .leases h.key s :: tr) x := by
    rintro x hnot rfl
    exact ⟨fun y heq => (nomatch heq), fun _ => ⟨s, hread, hnot⟩⟩
  cases hfound : recordIn s .leases h.key with
  | none =>
    refine hlost ?_ rfl
    rintro ⟨record, hheld, -⟩
    obtain ⟨r, hr, -⟩ := holding_eq_some.1 hheld
    rw [hfound] at hr
    cases hr
  | some entry =>
    simp only [orUnavailable, Prog.ofExcept_ok, Prog.ret_bind]
    split
    · rename_i hmarker
      refine hlost ?_ rfl
      rintro ⟨record, hheld, -⟩
      obtain ⟨r, hr, hput, -⟩ := holding_eq_some.1 hheld
      rw [hfound] at hr
      cases hr
      simp [Option.filter, hput] at hmarker
    · rename_i entry' hput
      obtain ⟨heq, hoperation⟩ := Option.filter_eq_some_iff.1 hput
      cases heq
      split
      · exact ⟨fun y heq => (nomatch heq), fun heq => (nomatch heq)⟩
      · rename_i record hparsed
        have hheld : s.holding json h.key = some record :=
          holding_eq_some.2 ⟨entry, hfound, of_decide_eq_true hoperation, hparsed⟩
        split
        · rename_i howns
          refine ⟨?_, fun heq => (nomatch heq)⟩
          rintro y ⟨⟩
          exact ⟨howns, s, hread, hheld, by rw [hfound]; rfl⟩
        · rename_i hother
          refine hlost ?_ rfl
          rintro ⟨record', hheld', howns⟩
          rw [hheld] at hheld'
          cases hheld'
          exact hother howns

theorem renewInner_keeps {h : LeaseHandle} : (renewInner json h).Abides who Known
    (KeepGuard json h who) (RenewTells json h who) tr := by
  refine readHeld_keeps.bind (fun tr held hheld => ?_)
    fun tr e he => ⟨fun _ heq => (nomatch heq), fun heq => he.2 (by cases heq; rfl)⟩
  obtain ⟨record, revision⟩ := held
  obtain ⟨howns, s, hread, hholds, hrevision⟩ := hheld.1 _ rfl
  refine abides_expiryFor (freeReads_keep h _ _ rfl) (fun _ => freeReads_keep h _ _ rfl)
    fun expiry s₁ s₂ => ?_
  refine ⟨⟨rfl, s, record, _, _, by simp [hread], hholds, howns, hrevision, rfl⟩, fun x s₃ _ => ?_⟩
  cases (x : Except PublishError Nat) with
  | ok seq =>
    refine ⟨?_, fun heq => (nomatch heq)⟩
    rintro e ⟨⟩
    exact ⟨⟨s, by simp [hread], record, hholds, howns⟩, _, rfl, howns, .inl ⟨_, _, rfl, rfl⟩⟩
  | error e =>
    dsimp only [bind, Prog.bind]
    cases lostCas e with
    | true =>
      -- the race may have been with another renewal of the lease: the slot is read again
      refine readHeld_keeps.bind (fun tr held hheld => ⟨?_, fun heq => (nomatch heq)⟩)
        fun tr e he => ⟨fun _ heq => (nomatch heq), fun heq => he.2 (by cases heq; rfl)⟩
      rintro e ⟨⟩
      obtain ⟨howns, s, hread, hholds, -⟩ := hheld.1 held rfl
      exact ⟨⟨s, hread, held.1, hholds, howns⟩, held.1, rfl, howns, .inr ⟨s, hread, hholds⟩⟩
    | false => exact ⟨fun _ heq => (nomatch heq), fun heq => (nomatch heq)⟩

/-- A renewal task ends when it saw its lease lost. -/
theorem renewalLoop_keeps {h : LeaseHandle} (fuel : Nat) : (renewalLoop json h fuel).Abides who
    Known (KeepGuard json h who) (fun tr x => x = .ok () ∧ SeenLost json h who tr) tr := by
  induction fuel generalizing tr with
  | zero => trivial
  | succ fuel ih =>
    refine ⟨trivial, fun _ s _ => ?_⟩
    refine renewInner_keeps.attempt.bind (fun tr x hx => ?_) fun _ _ hx => ?_
    · obtain ⟨y, hy, htells⟩ := hx
      cases hy
      split
      · exact ⟨rfl, htells.2 rfl⟩
      · exact ih
    · obtain ⟨y, heq, -⟩ := hx
      cases heq

theorem renewInner_abides {h : LeaseHandle} : (renewInner json h).Abides who Known
    (RenewGuard json h who)
    (fun tr x => ∀ y, x = .ok y → ∃ record revision, SeenHeld json who h record revision tr) tr := by
  refine (renewInner_keeps.guard fun _ _ => renewGuard_of_keep).conseq fun tr x htells y heq => ?_
  obtain ⟨⟨s, hread, record, hheld, howns⟩, -⟩ := htells.1 y heq
  exact ⟨record, _, seenHeld_of_holding hread hheld howns⟩

theorem renewalLoop_abides {h : LeaseHandle} (fuel : Nat) : (renewalLoop json h fuel).Abides who
    Known (RenewGuard json h who) (fun _ _ => True) tr :=
  ((renewalLoop_keeps fuel).guard fun _ _ => renewGuard_of_keep).conseq fun _ _ _ => trivial

theorem releaseAsync_abides {h : LeaseHandle} : (releaseAsync json h).Abides who Known
    (ReleaseGuard json h who) (fun tr x => ∀ y, x = .ok y → ReleaseTells json h who tr) tr := by
  refine abides_lastRecord (freeReads_release h _ _ rfl) (fun s => ?_) fun e s y heq => by cases heq
  have hread : readEvent who .leases h.key s ∈ readEvent who .leases h.key s :: tr :=
    List.mem_cons_self ..
  cases hfound : recordIn s .leases h.key with
  | none =>
    exact fun y _ => .inl ⟨s, hread, fun r record hr => by rw [hfound] at hr; cases hr⟩
  | some entry =>
    simp only [orUnavailable, Prog.ofExcept_ok, Prog.ret_bind]
    split
    · rename_i e hgarbled
      refine fun y _ => .inl ⟨s, hread, fun r record hr hparsed => ?_⟩
      rw [hfound] at hr
      cases hr
      rw [hgarbled] at hparsed
      cases hparsed
    · rename_i record hparsed
      split
      · rename_i howns
        refine ⟨⟨rfl, rfl, record, s, entry, hread, hfound, rfl, hparsed, howns⟩, fun x s' _ => ?_⟩
        have htells : ReleaseTells json h who (⟨who, .deleteExpectRevision .leases h.key
            entry.revision, x, s'⟩ :: readEvent who .leases h.key s :: tr) :=
          .inr ⟨entry.revision, x, s', List.mem_cons_self ..⟩
        cases (x : Except PublishError Unit) with
        | ok _ => exact fun y _ => htells
        | error e =>
          dsimp only
          split
          · exact fun y _ => htells
          · exact fun y heq => by cases heq
      · rename_i howns
        refine fun y _ => .inl ⟨s, hread, fun r record' hr hparsed' => ?_⟩
        rw [hfound] at hr
        cases hr
        rw [hparsed] at hparsed'
        cases hparsed'
        simpa using howns

/-- **Every call keeps its guard, and its result tells what it says.** -/
theorem program_abides (op : Op) : (op.program json).Abides who Known (Guard json op who)
    (Tells json op who) tr := by
  cases op with
  | acquire p fuel =>
    show ((fun h => Reply.lease (some h)) <$> acquireAsync json p fuel).Abides who Known
      (AcquireGuard json p who) _ tr
    unfold acquireAsync
    split
    · exact fun h heq => by cases heq
    · refine Prog.Abides.map (Q := fun tr x => ∀ h, x = .ok h → LeaseTells json p tr h)
        ⟨trivial, fun t s _ => acquireLoop_abides t fuel⟩ fun tr x hx h heq => ?_
      cases x with
      | error e => cases heq
      | ok h' =>
        cases heq
        exact hx h rfl
  | tryAcquire p =>
    show (Reply.lease <$> tryAcquireAsync json p).Abides who Known (AcquireGuard json p who) _ tr
    unfold tryAcquireAsync
    split
    · exact fun h heq => by cases heq
    · refine Prog.Abides.map (Q := fun tr x => ∀ h, x = .ok (some h) → LeaseTells json p tr h)
        (attempt_abides.bind (fun tr outcome htells => ?_) fun tr e _ h heq => by cases heq)
        fun tr x hx h heq => ?_
      · cases outcome with
        | acquired record revision =>
          rintro h ⟨⟩
          obtain ⟨hnode, hstored⟩ := htells record revision rfl
          exact ⟨record, rfl, hnode, hstored⟩
        | held => exact fun h heq => by cases heq
        | backendError reason => exact fun h heq => by cases heq
      · cases x with
        | error e => cases heq
        | ok h' =>
          cases heq
          exact hx h rfl
  | renew h =>
    refine renewInner_abides.map fun tr x hx y heq => ?_
    cases x with
    | error e => cases heq
    | ok y' => exact hx y' rfl
  | renewalLoop h fuel => exact (renewalLoop_abides fuel).map fun _ _ _ => trivial
  | release h =>
    refine releaseAsync_abides.map fun tr x hx y heq => ?_
    cases x with
    | error e => cases heq
    | ok y' => exact hx y' rfl

end Programs

end ClusterNats.Lease
