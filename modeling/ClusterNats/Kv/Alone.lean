import ClusterNats.Kv.Primitives

/-!
# Calls that run alone

What the store's programs do when nobody else takes a step and the backend
works.

* `answer`, `Server.getNow` — the server with one caller.
* `exec_slot`, `exec_get` — a read of a key gives what `Server.slot` says.
* `SameData`, `Wrote` — what a call did to the data records.
* `exec_put`, `exec_putIfAbsent`, `exec_delete`, `exec_expire`,
  `exec_updateCounter` — one lemma for each call.
-/

namespace ClusterNats

open Conc

/-- The answer of a working backend to a caller that reads no stream. -/
def answer (s : Server) (r : Req) : Option (Resp r × Server) :=
  (serve .ok s none r).map fun x => (x.1, x.2.1)

/-- The expiry of the entry, if it has one, is a `SystemTime`. -/
def Entry.dated (e : Entry) : Bool := e.expiresAt.all fitsSystemTime

/-- What `get` answers at one instant; a read that panics answers nothing. -/
def Server.getNow (s : Server) (key : String) : Option (Except ClusterError (Option Entry)) :=
  ((get key).exec answer s).map Prod.fst

section Reads

variable {s : Server}

theorem exec_lastRecord (encoded : Bytes) : (lastRecord encoded).exec answer s =
    some (.ok (.ok ((s.bucket.last encoded).map Record.ofMessage)), s) := rfl

theorem exec_isExpired (exp : Option UInt64) :
    (isExpired exp).exec answer s = some (.ok (isExpiredAt s.now exp), s) := by
  cases exp <;> rfl

theorem exec_expiresAtFrom (ttl : Option Duration) : (expiresAtFrom ttl).exec answer s =
    some (.ok (ttl.map fun d => s.now + max d.secs 1), s) := by
  cases ttl <;> rfl

theorem exec_slotOf (o : Option Record) :
    (slotOf o).exec answer s = some (.ok (.ofRecord s.now o), s) := by
  cases o with
  | none => rfl
  | some r =>
    rw [slotOf_some, Slot.ofRecord]
    split
    · rfl
    · rw [Prog.exec_bind_ok (exec_isExpired _)]
      split <;> rfl

theorem exec_slot (encoded : Bytes) (key : String) : (slot encoded key).exec answer s =
    some (.ok (.ofRecord s.now ((s.bucket.last encoded).map Record.ofMessage)), s) :=
  (Prog.exec_bind_ok (exec_lastRecord encoded)).trans (exec_slotOf _)

/-- A read of a key gives its slot and changes nothing; it does not return where
the expiry it finds is no `SystemTime`. -/
theorem exec_get (key : String) : (get key).exec answer s =
    if (s.slot key).found.all Entry.dated then some (.ok (s.slot key).found, s) else none := by
  refine (Prog.exec_bind_ok (exec_slot (encodeKey key) key)).trans ?_
  rw [← Server.slot]
  cases s.slot key with
  | live value exp revision =>
    rw [Slot.found, Option.all_some, Entry.dated]
    dsimp only [entryOf]
    split <;> rfl
  | _ => rfl

theorem exec_get_dated {key : String} (h : (s.slot key).found.all Entry.dated = true) :
    (get key).exec answer s = some (.ok (s.slot key).found, s) := by
  rw [exec_get, if_pos h]

theorem Server.getNow_eq (key : String) : s.getNow key =
    if (s.slot key).found.all Entry.dated then some (.ok (s.slot key).found) else none := by
  rw [Server.getNow, exec_get]
  split <;> rfl

/-- A read answers with the entry it finds, if that is dated. -/
theorem Server.getNow_eq_some {key : String} {x : Option Entry} :
    s.getNow key = some (.ok x) ↔ (s.slot key).found = x ∧ x.all Entry.dated = true := by
  rw [Server.getNow_eq]
  constructor
  · intro h
    split at h
    · rename_i hdated
      cases Except.ok.inj (Option.some.inj h)
      exact ⟨rfl, hdated⟩
    · cases h
  · rintro ⟨rfl, hdated⟩
    rw [if_pos hdated]

end Reads

/-! ## Writes -/

/-- Two servers hold the same under every data key, at the same time. -/
structure SameData (s s' : Server) : Prop where
  clock : s'.clock = s.clock
  last : ∀ key, s'.bucket.last (encodeKey key) = s.bucket.last (encodeKey key)

/-- `s'` holds a new record under `key`, and what `s` holds under the others. -/
structure Wrote (key : String) (headers : HeaderMap) (payload : Bytes) (s s' : Server) : Prop where
  clock : s'.clock = s.clock
  last : ∃ seq, s'.bucket.last (encodeKey key) = some ⟨encodeKey key, seq, ⟨headers, payload, s.clock⟩⟩
  others : ∀ k, k ≠ key → s'.bucket.last (encodeKey k) = s.bucket.last (encodeKey k)

theorem SameData.refl (s : Server) : SameData s s := ⟨rfl, fun _ => rfl⟩

theorem SameData.trans {s s' s'' : Server} (h : SameData s s') (h' : SameData s' s'') :
    SameData s s'' := ⟨h'.clock.trans h.clock, fun k => (h'.last k).trans (h.last k)⟩

theorem Wrote.trans_same {key : String} {headers : HeaderMap} {payload : Bytes} {s s' s'' : Server}
    (h : Wrote key headers payload s s') (h' : SameData s' s'') : Wrote key headers payload s s'' where
  clock := h'.clock.trans h.clock
  last := by
    obtain ⟨seq, hlast⟩ := h.last
    exact ⟨seq, (h'.last key).trans hlast⟩
  others k hk := (h'.last k).trans (h.others k hk)

theorem SameData.trans_wrote {key : String} {headers : HeaderMap} {payload : Bytes}
    {s s' s'' : Server} (h : SameData s s') (h' : Wrote key headers payload s' s'') :
    Wrote key headers payload s s'' where
  clock := h'.clock.trans h.clock
  last := by
    obtain ⟨seq, hlast⟩ := h'.last
    exact ⟨seq, by rw [hlast, h.clock]⟩
  others k hk := (h'.others k hk).trans (h.last k)

section Writes

variable {s : Server}

theorem exec_publishRecord (subject : Bytes) (headers : HeaderMap) (payload : Bytes)
    (expected : Option Nat) : (publishRecord subject headers payload expected).exec answer s =
      some (.ok (s.publish subject headers payload expected).1,
        (s.publish subject headers payload expected).2) := rfl

/-- A data record whose expectation is met is stored. -/
theorem exec_publishRecord_stored (key : String) (headers : HeaderMap) (payload : Bytes)
    {expected : Option Nat} (h : ∀ n ∈ expected, s.bucket.lastSeqOf (encodeKey key) = n) :
    ∃ seq s', (publishRecord (encodeKey key) headers payload expected).exec answer s =
      some (.ok (.ok seq), s') ∧ Wrote key headers payload s s' := by
  rcases publish_cases s (encodeKey key) headers payload expected with ⟨-, heq⟩ | ⟨⟨n, hn, hne⟩, -⟩
  · rw [exec_publishRecord, heq]
    refine ⟨_, _, rfl, rfl, ⟨_, SubjectLog.last_store_self⟩, fun k hk => ?_⟩
    exact SubjectLog.last_store_ne fun heq => hk (encodeKey_injective heq)
  · exact absurd (h n hn) hne

/-- A data record whose expectation is not met is not stored. -/
theorem exec_publishRecord_conflict {key : String} (headers : HeaderMap) (payload : Bytes) {n : Nat}
    (h : s.bucket.lastSeqOf (encodeKey key) ≠ n) :
    (publishRecord (encodeKey key) headers payload (some n)).exec answer s =
      some (.ok (.error ⟨some (lostCasCode s.since214), "wrong last sequence"⟩), s) := by
  rcases publish_cases s (encodeKey key) headers payload (some n) with ⟨hall, -⟩ | ⟨-, heq⟩
  · exact absurd (hall n rfl) h
  · rw [exec_publishRecord, heq]

/-- The index record of a key is there afterwards, and no data record changed. -/
theorem exec_publishIndex (key : String) : ∃ ack revision s',
    (publishIndex key).exec answer s = some (.ok ack, s') ∧ indexDone ack = .ok revision ∧
      SameData s s' := by
  rw [publishIndex, publish, exec_publishRecord]
  rcases publish_cases s (indexKey key) [(expiresHeader, renderU64 (none.getD 0))]
    (encodeValue [] none) Expect.nothing.lastSequence with ⟨-, heq⟩ | ⟨-, heq⟩
  · rw [heq]
    exact ⟨_, _, _, rfl, rfl, rfl, fun k => SubjectLog.last_store_ne (encodeKey_ne_indexKey k key)⟩
  · rw [heq]
    exact ⟨_, none, s, rfl, by rw [indexDone, done_of_server], .refl s⟩

end Writes

/-! ## The calls -/

/-- `s'` holds a new value under `key`. -/
abbrev WroteValue (key : String) (value : Bytes) (exp : Option UInt64) (s s' : Server) : Prop :=
  Wrote key [(expiresHeader, renderU64 (exp.getD 0))] (encodeValue value exp) s s'

/-- `s'` holds a delete marker under `key`. -/
abbrev WroteMarker (key : String) (s s' : Server) : Prop :=
  Wrote key [(kvOperationHeader, bytes "DEL")] [] s s'

/-- The expiry a write of this moment stores. -/
def Server.deadline (s : Server) (ttl : Option Duration) : Option UInt64 :=
  ttl.map fun d => s.now + max d.secs 1

theorem toNat_max_one (n : UInt64) : (max n 1).toNat = max n.toNat 1 := by
  have hone : (1 : UInt64).toNat = 1 := rfl
  by_cases h : n ≤ 1
  · have hle := UInt64.le_iff_toNat_le.1 h
    have hmax : max n 1 = 1 := if_pos h
    rw [hmax]
    omega
  · have hmax : max n 1 = n := if_neg h
    have hlt : ¬ n.toNat ≤ 1 := fun hle => h (UInt64.le_iff_toNat_le.2 hle)
    rw [hmax]
    omega

/-- A sum that fits is the expiry. -/
theorem toNat_expiry {now secs : UInt64} (h : now.toNat + max secs.toNat 1 < UInt64.size) :
    (now + max secs 1).toNat = now.toNat + max secs.toNat 1 := by
  rw [UInt64.toNat_add, toNat_max_one, Nat.mod_eq_of_lt h]

theorem SameData.now {s s' : Server} (h : SameData s s') : s'.now = s.now :=
  congrArg unixSecs h.clock

theorem SameData.slot {s s' : Server} (h : SameData s s') (key : String) :
    s'.slot key = s.slot key := by
  rw [Server.slot, Server.slot, h.now, h.last key]

theorem Wrote.now {key : String} {headers : HeaderMap} {payload : Bytes} {s s' : Server}
    (h : Wrote key headers payload s s') : s'.now = s.now :=
  congrArg unixSecs h.clock

section Calls

variable {s : Server} {key : String}

/-- A write that expects what a slot says is stored. -/
theorem lastSeqOf_slot {n : Nat} (h : n ∈ (s.slot key).expect.lastSequence) :
    s.bucket.lastSeqOf (encodeKey key) = n := by
  rw [Server.slot] at h
  cases hl : s.bucket.last (encodeKey key) with
  | none =>
    rw [hl] at h
    rw [SubjectLog.lastSeqOf_eq_zero.2 hl]
    exact Option.some.inj h
  | some m =>
    rw [hl, Option.map_some, ofRecord_some] at h
    rw [SubjectLog.lastSeqOf_of_last hl]
    split at h <;> exact Option.some.inj h

/-- The claim of an empty subject is refused beside a record. -/
theorem lastSeqOf_ne_zero (h : s.slot key ≠ .empty) : s.bucket.lastSeqOf (encodeKey key) ≠ 0 := by
  intro h0
  refine h ?_
  rw [Server.slot, SubjectLog.lastSeqOf_eq_zero.1 h0]
  rfl

variable (key) in
/-- A data record whose expectation is met, with the index record behind it. -/
theorem exec_publish_indexed {α : Type} (value : Bytes) (exp : Option UInt64) {expect : Expect}
    (hexpect : ∀ n ∈ expect.lastSequence, s.bucket.lastSeqOf (encodeKey key) = n) :
    ∃ seq ack revision s', WroteValue key value exp s s' ∧ indexDone ack = .ok revision ∧
      ∀ f : PendingWrite → PendingWrite → Kv α,
        (publish (encodeKey key) value exp expect >>= fun data =>
          publishIndex key >>= fun index => f data index).exec answer s =
            (f (.ok seq) ack).exec answer s' := by
  obtain ⟨seq, s₁, hdata, hw⟩ := exec_publishRecord_stored key
    [(expiresHeader, renderU64 (exp.getD 0))] (encodeValue value exp) hexpect
  obtain ⟨ack, revision, s₂, hindex, hdone, hsame⟩ := exec_publishIndex (s := s₁) key
  refine ⟨seq, ack, revision, s₂, hw.trans_same hsame, hdone, fun f => ?_⟩
  rw [publish, Prog.exec_bind_ok hdata, Prog.exec_bind_ok hindex]

variable (s key) in
theorem exec_put (value : Bytes) (ttl : Option Duration) : ∃ s',
    (put key value ttl).exec answer s = some (.ok (), s') ∧
      WroteValue key value (s.deadline ttl) s s' := by
  rw [put, Prog.exec_bind_ok (exec_expiresAtFrom ttl)]
  obtain ⟨seq, ack, revision, s', hw, hdone, hexec⟩ := exec_publish_indexed key value (s.deadline ttl)
    (show ∀ n ∈ Expect.anything.lastSequence, s.bucket.lastSeqOf (encodeKey key) = n by
      simp [Expect.lastSequence])
  refine ⟨s', (hexec _).trans ?_, hw⟩
  rw [hdone]
  rfl

variable (s key) in
theorem exec_delete : ∃ s', (delete key).exec answer s =
    some (.ok (s.slot key).found.isSome, s') ∧ WroteMarker key s s' := by
  obtain ⟨seq, s', hmarker, hw⟩ := exec_publishRecord_stored key
    [(kvOperationHeader, bytes "DEL")] []
    (show ∀ n ∈ (none : Option Nat), s.bucket.lastSeqOf (encodeKey key) = n by simp)
  refine ⟨s', ?_, hw⟩
  rw [delete, Prog.exec_bind_ok (exec_slot (encodeKey key) key), ← Server.slot]
  dsimp only
  rw [publishMarker, Prog.exec_bind_ok hmarker]
  cases s.slot key <;> rfl

variable (key) in
theorem exec_write (value : Bytes) (exp : Option UInt64) {expect : Expect}
    (hexpect : ∀ n ∈ expect.lastSequence, s.bucket.lastSeqOf (encodeKey key) = n) : ∃ seq s',
    (write (encodeKey key) value exp expect).exec answer s = some (.ok (.ok seq), s') ∧
      WroteValue key value exp s s' := by
  obtain ⟨seq, s', hdata, hw⟩ := exec_publishRecord_stored key
    [(expiresHeader, renderU64 (exp.getD 0))] (encodeValue value exp) hexpect
  refine ⟨seq, s', ?_, hw⟩
  rw [write, Prog.exec_bind_ok (Prog.exec_attempt (p := publish _ _ _ _) hdata)]
  rfl

/-- `expire` of a live key. -/
theorem exec_expire_live {value : Bytes} {exp : Option UInt64} {revision : Nat}
    (h : s.slot key = .live value exp revision) (ttl : Option Duration) : ∃ s',
    (expire key ttl).exec answer s = some (.ok true, s') ∧
      WroteValue key value (s.deadline ttl) s s' := by
  obtain ⟨seq, s', hwrite, hw⟩ := exec_write key value (s.deadline ttl)
    (show ∀ n ∈ (Expect.revision revision).lastSequence, s.bucket.lastSeqOf (encodeKey key) = n from
      fun n hn => lastSeqOf_slot (by rw [h]; exact hn))
  refine ⟨s', ?_, hw⟩
  rw [expire, casWriteAttempts, expireRounds, Prog.exec_bind_ok (exec_slot (encodeKey key) key),
    ← Server.slot, h]
  dsimp only
  rw [Prog.exec_bind_ok (exec_expiresAtFrom ttl)]
  exact Prog.exec_bind_ok hwrite

theorem exec_expire_absent (h : (s.slot key).found = none) (ttl : Option Duration) :
    (expire key ttl).exec answer s = some (.ok false, s) := by
  rw [expire, casWriteAttempts, expireRounds, Prog.exec_bind_ok (exec_slot (encodeKey key) key),
    ← Server.slot]
  cases hx : s.slot key with
  | live value exp revision => rw [hx] at h; cases h
  | empty => rfl
  | dead revision => rfl

/-- A round of `put_if_absent` whose expectation is met. -/
theorem exec_putIfAbsentRounds_won (value : Bytes) (exp : Option UInt64) {expect : Expect}
    (hexpect : ∀ n ∈ expect.lastSequence, s.bucket.lastSeqOf (encodeKey key) = n) (rounds : Nat) :
    ∃ s', (putIfAbsentRounds key value exp (rounds + 1) expect).exec answer s = some (.ok true, s') ∧
      WroteValue key value exp s s' := by
  obtain ⟨seq, ack, revision, s', hw, hdone, hexec⟩ := exec_publish_indexed key value exp hexpect
  refine ⟨s', (hexec _).trans ?_, hw⟩
  dsimp only [PendingWrite.done]
  rw [hdone]
  rfl

/-- The first round of `put_if_absent` beside a record goes on with what the
key holds. -/
theorem exec_putIfAbsentRounds_lost (value : Bytes) (exp : Option UInt64)
    (h : s.slot key ≠ .empty) (rounds : Nat) : ∃ s', SameData s s' ∧
    (putIfAbsentRounds key value exp (rounds + 1) .nothing).exec answer s =
      (match s.slot key with
        | .live .. => Prog.ret false
        | .dead revision => putIfAbsentRounds key value exp rounds (.revision revision)
        | .empty => putIfAbsentRounds key value exp rounds .nothing : Kv Bool).exec answer s' := by
  have hconflict := exec_publishRecord_conflict [(expiresHeader, renderU64 (exp.getD 0))]
    (encodeValue value exp) (lastSeqOf_ne_zero h)
  obtain ⟨ack, revision, s', hindex, hdone, hsame⟩ := exec_publishIndex (s := s) key
  refine ⟨s', hsame, ?_⟩
  have hread := exec_slot (s := s') (encodeKey key) key
  rw [← Server.slot, hsame.slot] at hread
  rw [putIfAbsentRounds, publish, Expect.lastSequence, Prog.exec_bind_ok hconflict,
    Prog.exec_bind_ok hindex]
  dsimp only
  rw [done_of_server]
  exact Prog.exec_bind_ok hread

/-- `put_if_absent` of a key that is not live. -/
theorem exec_putIfAbsent_absent (h : (s.slot key).found = none) (value : Bytes)
    (ttl : Option Duration) : ∃ s',
    (putIfAbsent key value ttl).exec answer s = some (.ok true, s') ∧
      WroteValue key value (s.deadline ttl) s s' := by
  rw [putIfAbsent, Prog.exec_bind_ok (exec_expiresAtFrom ttl), casWriteAttempts]
  cases hx : s.slot key with
  | live value exp revision => rw [hx] at h; cases h
  | empty => exact exec_putIfAbsentRounds_won value _ (fun n hn => lastSeqOf_slot (by rw [hx]; exact hn)) 7
  | dead revision =>
    obtain ⟨s₁, hsame, hexec⟩ := exec_putIfAbsentRounds_lost value (s.deadline ttl)
      (show s.slot key ≠ .empty by rw [hx]; simp) 7
    rw [hx] at hexec
    obtain ⟨s', hwon, hw⟩ := exec_putIfAbsentRounds_won value (s.deadline ttl)
      (show ∀ n ∈ (Expect.revision revision).lastSequence,
          s₁.bucket.lastSeqOf (encodeKey key) = n from
        fun n hn => lastSeqOf_slot (by rw [hsame.slot, hx]; exact hn)) 6
    exact ⟨s', hexec.trans hwon, hsame.trans_wrote hw⟩

/-- `put_if_absent` of a live key. -/
theorem exec_putIfAbsent_live {v : Bytes} {exp : Option UInt64} {revision : Nat}
    (h : s.slot key = .live v exp revision) (value : Bytes) (ttl : Option Duration) : ∃ s',
    (putIfAbsent key value ttl).exec answer s = some (.ok false, s') ∧ SameData s s' := by
  rw [putIfAbsent, Prog.exec_bind_ok (exec_expiresAtFrom ttl), casWriteAttempts]
  obtain ⟨s', hsame, hexec⟩ := exec_putIfAbsentRounds_lost value (s.deadline ttl)
    (show s.slot key ≠ .empty by rw [h]; simp) 7
  rw [h] at hexec
  exact ⟨s', hexec, hsame⟩

end Calls

/-! ## Counters -/

section Counters

variable {s : Server} {key : String} {api : CounterApi} {ttl : Option Duration}

theorem exec_counterExpiry (exp : Option UInt64) : (counterExpiry ttl exp).exec answer s =
    some (.ok (if ttl.isSome then s.deadline ttl else exp), s) := by
  cases ttl <;> rfl

variable (api ttl) in
theorem exec_readCounter_absent (h : (s.slot key).found = none) :
    (readCounter api key ttl).exec answer s =
      some (.ok (0, s.deadline ttl, (s.slot key).expect, true), s) := by
  rw [readCounter, Prog.exec_bind_ok (exec_slot (encodeKey key) key), ← Server.slot]
  cases hx : s.slot key with
  | live value exp revision => rw [hx] at h; cases h
  | empty => exact Prog.exec_bind_ok (exec_expiresAtFrom ttl)
  | dead revision => exact Prog.exec_bind_ok (exec_expiresAtFrom ttl)

variable (api ttl) in
theorem exec_readCounter_live {value : Bytes} {exp : Option UInt64} {revision : Nat}
    (h : s.slot key = .live value exp revision) : (readCounter api key ttl).exec answer s =
      some ((api.parseCounter value).map fun n =>
        (n, if ttl.isSome then s.deadline ttl else exp, .revision revision, false), s) := by
  rw [readCounter, Prog.exec_bind_ok (exec_slot (encodeKey key) key), ← Server.slot, h]
  dsimp only
  rw [Prog.exec_bind_ok (exec_counterExpiry exp)]
  cases api.parseCounter value <;> rfl

end Counters

end ClusterNats
