import ClusterNats.Kv.Alone
import ClusterNats.Kv.Counter
import ClusterNats.Num.Checked

/-!
# Sums of the key-value calls

The calls add what a caller gives, what a record holds and what the clock shows:
a TTL to the clock, a stored expiry to the Unix epoch, and one to the sequence
of a cursor.  Here each sum is the exact one, as far as its type has it.

* `expiresAtFromExact`, `entryExact`, `startSequenceExact` — the three sums.
* `exec_expiresAtFrom_exact`, `exec_get_exact`, `listPage_exact` — where a sum
  stays in its type, the calls go on with it.
* `exec_put_get` — the expiry that a put stores and the read of it.
* `sums_in_range` — when all of them stay in their types.
-/

namespace ClusterNats

open Conc Checked

/-- `expires_at_from` at one reading of the clock. -/
def expiresAtFromExact (now : UInt64) : Option Duration → Option (Option Int)
  | none => some none
  | some d => (u64.fit (now.toNat + max d.secs.toNat 1)).map some

/-- `UNIX_EPOCH + Duration::from_secs(secs)`, in signed seconds. -/
def systemTimeExact (secs : UInt64) : Option Int := i64.fit secs.toNat

/-- The entry that `get` and `live_entries` make of a stored value. -/
def entryExact (now : UInt64) (stored : Bytes) : Option (Option (Bytes × Option Int)) :=
  let (value, expiresAtSecs) := decodeValue stored
  if isExpiredAt now expiresAtSecs then some none
  else
    match expiresAtSecs with
    | none => some (some (value, none))
    | some secs => (systemTimeExact secs).map fun t => some (value, some t)

/-- `start_sequence` of the consumer a page reads; a page of the subject list
and a refused cursor have none. -/
def startSequenceExact : Option Bytes → Option (Option Int)
  | none => (u64.fit (0 + 1)).map some
  | some (115 :: _) => some none
  | some c =>
    match parseCursor c with
    | some (_, after) => (u64.fit (after + 1)).map some
    | none => some none

/-- No sum of a call leaves its type. -/
def SumsInRange (now : UInt64) (ttl : Option Duration) (cursor : Option Bytes) (stored : Bytes) : Prop :=
  (expiresAtFromExact now ttl).isSome = true ∧ (entryExact now stored).isSome = true ∧
    (startSequenceExact cursor).isSome = true

/-! ## What the calls go on with -/

theorem u64_has {n : Nat} : u64.Has n ↔ n < UInt64.size := by
  have hsize : UInt64.size = 18446744073709551616 := rfl
  unfold Range.Has u64
  dsimp only
  omega

theorem i64_has {n : Nat} : i64.Has n ↔ n < 2 ^ 63 := by
  unfold Range.Has i64
  dsimp only
  omega

/-- An expiry whose sum stays in its type is what the call writes. -/
theorem exec_expiresAtFrom_exact {s : Server} {ttl : Option Duration} {exp : Option Int}
    (h : expiresAtFromExact s.now ttl = some exp) : ∃ secs : Option UInt64,
      (expiresAtFrom ttl).exec answer s = some (.ok secs, s) ∧ exp = secs.map fun n => (n.toNat : Int) := by
  refine ⟨_, exec_expiresAtFrom ttl, ?_⟩
  cases ttl with
  | none =>
    cases h
    rfl
  | some d =>
    obtain ⟨x, hx, rfl⟩ := Option.map_eq_some_iff.1 h
    obtain ⟨hhas, rfl⟩ := fit_eq_some.1 hx
    have hlt : s.now.toNat + max d.secs.toNat 1 < UInt64.size := by
      have hcast : (s.now.toNat : Int) + max d.secs.toNat 1 = (s.now.toNat + max d.secs.toNat 1 : Nat) := by
        omega
      rw [hcast, u64_has] at hhas
      exact hhas
    rw [Option.map_some, Option.map_some, toNat_expiry hlt]
    rfl

/-- An entry with its expiry in signed seconds. -/
def Entry.seconds (e : Entry) : Bytes × Option Int :=
  (e.bytes, e.expiresAt.map fun n => (n.toNat : Int))

theorem isSome_systemTimeExact {secs : UInt64} :
    (systemTimeExact secs).isSome = true ↔ secs.toNat < 2 ^ 63 := by
  rw [systemTimeExact, isSome_fit, i64_has]

/-- **A read returns the entry with its exact expiry**, and panics where no
`SystemTime` is that late. -/
theorem exec_get_exact {s : Server} {key : String} {m : StoredMessage}
    (hm : s.bucket.last (encodeKey key) = some m)
    (hput : Record.recordOperation m.body.headers = .put) :
    ((get key).exec answer s).map (fun x => x.1.map (Option.map Entry.seconds)) =
      (entryExact s.now m.body.payload).map Except.ok := by
  have hfound : (s.slot key).found = if isExpiredAt s.now (decodeValue m.body.payload).2 then none
      else some ⟨(decodeValue m.body.payload).1, (decodeValue m.body.payload).2⟩ := by
    rw [Server.slot, hm, Option.map_some, ofRecord_some]
    have hoperation : (Record.ofMessage m).operation = .put := hput
    have hpayload : (Record.ofMessage m).payload = m.body.payload := rfl
    rw [hoperation, hpayload]
    cases isExpiredAt s.now (decodeValue m.body.payload).2 <;> rfl
  unfold entryExact
  dsimp only
  rw [exec_get, hfound]
  by_cases hexpired : isExpiredAt s.now (decodeValue m.body.payload).2 = true
  · rw [if_pos hexpired, if_pos hexpired]
    rfl
  · rw [if_neg hexpired, if_neg hexpired]
    cases (decodeValue m.body.payload).2 with
    | none => rfl
    | some secs =>
      have hdated : (some (Entry.mk (decodeValue m.body.payload).1 (some secs))).all Entry.dated = true ↔
          (systemTimeExact secs).isSome = true := by
        rw [isSome_systemTimeExact]
        exact decide_eq_true_iff
      dsimp only
      cases hfit : systemTimeExact secs with
      | none =>
        rw [if_neg (by rw [hdated, hfit]; simp)]
        rfl
      | some x =>
        obtain ⟨-, rfl⟩ := fit_eq_some.1 hfit
        rw [if_pos (by rw [hdated, hfit]; rfl)]
        rfl

/-- **A put and a read of it.**  The put stores the sum of the clock and the TTL as
the expiry, and a read before the second `2^40` returns exactly when the sum is
below `2^63`. -/
theorem exec_put_get {s : Server} {d : Duration}
    (hsum : s.now.toNat + max d.secs.toNat 1 < UInt64.size) (key : String) (value : Bytes) :
    ∃ s', (put key value (some d)).exec answer s = some (.ok (), s') ∧
      ∀ t : Instant, (unixSecs t).toNat < 2 ^ 40 →
        (((get key).exec answer { s' with clock := t }).isSome = true ↔
          s.now.toNat + max d.secs.toNat 1 < 2 ^ 63) := by
  obtain ⟨s', hput, hwrote⟩ := exec_put s key value (some d)
  refine ⟨s', hput, fun t ht => ?_⟩
  obtain ⟨seq, hlast⟩ := hwrote.last
  have hread := exec_get_exact (s := { s' with clock := t }) hlast rfl
  have hisSome := congrArg Option.isSome hread
  rw [Option.isSome_map, Option.isSome_map] at hisSome
  rw [hisSome, ← toNat_expiry hsum, ← isSome_systemTimeExact]
  show (entryExact (unixSecs t) (encodeValue value (s.deadline (some d)))).isSome = true ↔ _
  rw [Server.deadline, Option.map_some, entryExact, decodeValue_envelope]
  dsimp only
  by_cases hexpired : isExpiredAt (unixSecs t) (some (s.now + max d.secs 1)) = true
  · -- an expiry that has passed is before the clock
    have hle : s.now + max d.secs 1 ≤ unixSecs t := by simpa [isExpiredAt] using hexpired
    have hnat := UInt64.le_iff_toNat_le.1 hle
    rw [if_pos hexpired, isSome_systemTimeExact]
    simp only [Option.isSome_some, true_iff]
    omega
  · rw [if_neg hexpired, Option.isSome_map]

/-- A cursor of the subject list names no sequence. -/
theorem parseCursor_subject (rest : Bytes) : parseCursor (115 :: rest) = none := by
  have hnone : parseU64 (115 :: rest) = none := by simp [parseU64, parseDigits]
  simp [parseCursor, hnone]

theorem startSequenceExact_cursor {c : Bytes} {indexed : Bool} {after : Nat}
    (h : parseCursor c = some (indexed, after)) :
    startSequenceExact (some c) = (u64.fit (after + 1)).map some := by
  unfold startSequenceExact
  split
  · rename_i heq
    cases heq
  · rename_i rest heq
    cases heq
    rw [parseCursor_subject] at h
    cases h
  · rename_i heq
    cases heq
    rw [h]

/-- A page after a cursor reads from the sum on, as the release build computes
it: where the sum stays in its type, from the next sequence on. -/
theorem listPage_exact {c : Bytes} {indexed : Bool} {after : Nat}
    (h : parseCursor c = some (indexed, after)) (pre : String) (limit fuel : Nat) :
    ∃ filter k, listPage pre (some c) limit fuel =
        .req (.createConsumer filter ((after + 1) % UInt64.size)) k ∧
      ∀ start, startSequenceExact (some c) = some (some start) →
        start = ((after + 1) % UInt64.size : Nat) := by
  have hpage : ∃ k, listPage pre (some c) limit fuel =
      .req (.createConsumer (if indexed then prefixFilter pre else everything)
        ((after + 1) % UInt64.size)) k := by
    unfold listPage
    split
    · rename_i rest heq
      cases heq
      rw [parseCursor_subject] at h
      cases h
    · rename_i heq
      cases heq
      rw [h]
      exact ⟨_, rfl⟩
    · rename_i heq
      cases heq
  obtain ⟨k, hk⟩ := hpage
  refine ⟨_, k, hk, fun start hstart => ?_⟩
  rw [startSequenceExact_cursor h] at hstart
  obtain ⟨x, hx, hsome⟩ := Option.map_eq_some_iff.1 hstart
  cases hsome
  obtain ⟨hhas, rfl⟩ := fit_eq_some.1 hx
  have hlt : after + 1 < UInt64.size := u64_has.1 hhas
  rw [Nat.mod_eq_of_lt hlt]
  rfl

/-! ## When every sum stays in its type -/

theorem isSome_expiresAtFromExact {now : UInt64} (hnow : now.toNat < 2 ^ 40) {ttl : Option Duration} :
    (expiresAtFromExact now ttl).isSome = true ↔ ∀ d ∈ ttl, now.toNat + d.secs.toNat < UInt64.size := by
  cases ttl with
  | none => simp [expiresAtFromExact]
  | some d =>
    have hsize : UInt64.size = 18446744073709551616 := rfl
    have hsum : (u64.fit (now.toNat + max d.secs.toNat 1)).isSome = true ↔
        now.toNat + max d.secs.toNat 1 < UInt64.size := by
      rw [isSome_fit, ← u64_has]
      rfl
    simp only [expiresAtFromExact, Option.isSome_map, hsum, Option.mem_def, Option.some.injEq,
      forall_eq']
    omega

theorem isSome_entryExact {now : UInt64} (hnow : now.toNat < 2 ^ 40) {stored : Bytes} :
    (entryExact now stored).isSome = true ↔ ∀ secs ∈ (decodeValue stored).2, secs.toNat < 2 ^ 63 := by
  unfold entryExact
  dsimp only
  generalize (decodeValue stored).2 = exp
  cases exp with
  | none =>
    have hlasts : isExpiredAt now none = false := rfl
    simp [hlasts]
  | some secs =>
    by_cases hexpired : isExpiredAt now (some secs) = true
    · -- an expired value is no entry, and its expiry is before the clock
      have hle : secs ≤ now := by simpa [isExpiredAt] using hexpired
      have hnat := UInt64.le_iff_toNat_le.1 hle
      rw [if_pos hexpired]
      simp only [Option.isSome_some, Option.mem_def, Option.some.injEq, forall_eq', true_iff]
      omega
    · rw [if_neg hexpired]
      simp [isSome_systemTimeExact]

theorem isSome_startSequenceExact {cursor : Option Bytes} :
    (startSequenceExact cursor).isSome = true ↔
      ∀ c ∈ cursor, ∀ indexed after, parseCursor c = some (indexed, after) → after + 1 < UInt64.size := by
  cases cursor with
  | none => simp [startSequenceExact, Range.fit, Range.Has, u64]
  | some c =>
    simp only [Option.mem_def, Option.some.injEq, forall_eq']
    cases hc : parseCursor c with
    | some x =>
      obtain ⟨indexed, after⟩ := x
      rw [startSequenceExact_cursor hc, Option.isSome_map, isSome_fit]
      have hhas : u64.Has (after + 1) ↔ after + 1 < UInt64.size := u64_has
      rw [hhas]
      simp
    | none =>
      simp only [reduceCtorEq, false_implies, implies_true, iff_true]
      unfold startSequenceExact
      split
      · rename_i heq
        cases heq
      · rfl
      · rename_i heq
        cases heq
        rw [hc]
        rfl

/-- Where a sum stays in its type, the calls go on with it: an expiry is what is
stored, a stored expiry is what is returned, a page reads on from the next
sequence. -/
structure GoesOn (now : UInt64) (ttl : Option Duration) (cursor : Option Bytes) (stored : Bytes) :
    Prop where
  expiry : ∀ exp, expiresAtFromExact now ttl = some exp → ∀ s : Server, s.now = now →
    ∃ secs : Option UInt64, (expiresAtFrom ttl).exec answer s = some (.ok secs, s) ∧
      exp = secs.map fun n => (n.toNat : Int)
  entry : ∀ (s : Server) key m, s.now = now → s.bucket.last (encodeKey key) = some m →
    Record.recordOperation m.body.headers = .put → m.body.payload = stored →
      ((get key).exec answer s).map (fun x => x.1.map (Option.map Entry.seconds)) =
        (entryExact now stored).map Except.ok
  start : ∀ c ∈ cursor, ∀ indexed after, parseCursor c = some (indexed, after) →
    ∀ pre limit fuel, ∃ filter k,
      listPage pre (some c) limit fuel = .req (.createConsumer filter ((after + 1) % UInt64.size)) k ∧
      ∀ start, startSequenceExact cursor = some (some start) → start = ((after + 1) % UInt64.size : Nat)

/-- **When every sum of the key-value calls stays in its type.**  The TTL ends
before `2^64` seconds, a stored expiry lies before `2^63` seconds, and the cursor
is not of the last sequence there is.  The calls go on with the exact sums, and
the expiry that a put of the TTL stores is one a later read returns exactly when
it lies before `2^63` seconds. -/
theorem sums_in_range {now : UInt64} (hnow : now.toNat < 2 ^ 40) (ttl : Option Duration)
    (cursor : Option Bytes) (stored : Bytes) :
    (SumsInRange now ttl cursor stored ↔
      (∀ d ∈ ttl, now.toNat + d.secs.toNat < UInt64.size) ∧
      (∀ secs ∈ (decodeValue stored).2, secs.toNat < 2 ^ 63) ∧
      ∀ c ∈ cursor, ∀ indexed after, parseCursor c = some (indexed, after) →
        after + 1 < UInt64.size) ∧
    GoesOn now ttl cursor stored ∧
    ∀ d ∈ ttl, now.toNat + d.secs.toNat < UInt64.size → ∀ (s : Server) key value, s.now = now →
      ∃ s', (put key value ttl).exec answer s = some (.ok (), s') ∧
        ∀ t : Instant, (unixSecs t).toNat < 2 ^ 40 →
          (((get key).exec answer { s' with clock := t }).isSome = true ↔
            now.toNat + d.secs.toNat < 2 ^ 63) := by
  refine ⟨?_, ⟨?_, ?_, ?_⟩, ?_⟩
  · unfold SumsInRange
    rw [isSome_expiresAtFromExact hnow, isSome_entryExact hnow, isSome_startSequenceExact]
  · rintro exp hexp s rfl
    exact exec_expiresAtFrom_exact hexp
  · rintro s key m rfl hm hput rfl
    exact exec_get_exact hm hput
  · rintro c hc indexed after hparse pre limit fuel
    cases hc
    exact listPage_exact hparse pre limit fuel
  · rintro d hd hsum s key value rfl
    cases hd
    have hsize : UInt64.size = 18446744073709551616 := rfl
    obtain ⟨s', hput, hget⟩ := exec_put_get (s := s) (d := d) (by omega) key value
    refine ⟨s', hput, fun t ht => (hget t ht).trans ?_⟩
    omega

/-- A TTL of a minute, a cursor and a stored expiry of this century. -/
theorem sums_in_range_usual : SumsInRange 1700000000 (some (.fromSecs 60)) (some (bytes "d41"))
    (encodeValue [1] (some 1700000060)) := by
  refine (sums_in_range (by decide) _ _ _).1.2 ⟨?_, ?_, ?_⟩
  · rintro d ⟨⟩
    decide
  · rw [decodeValue_envelope]
    rintro secs ⟨⟩
    decide
  · rintro c ⟨⟩ indexed after hc
    have hparse : parseCursor (bytes "d41") = some (false, 41) := by decide
    rw [hparse] at hc
    cases hc
    decide

/-- A put with the longest TTL is answered with success and leaves nothing to
read; a value with an envelope of its own, put without a TTL, has no time as its
expiry, and the read of it panics; and the cursor of the last sequence begins the
listing again. -/
theorem sums_in_range_wrapped :
    (expiresAtFromExact 5 (some (.fromSecs 18446744073709551615)) = none ∧
      ∃ x ∈ (put "k" [1] (some (.fromSecs 18446744073709551615))).exec answer
          ⟨.empty, 5000000000, true, true⟩, x.1 = .ok () ∧
        ∃ y ∈ (get "k").exec answer x.2, y.1 = .ok none) ∧
    (entryExact 5 (encodeValue (encodeValue [1] (some 9223372036854775808)) none) = none ∧
      ∃ x ∈ (put "k" (encodeValue [1] (some 9223372036854775808)) none).exec answer
          ⟨.empty, 5000000000, true, true⟩, x.1 = .ok () ∧ (get "k").exec answer x.2 = none) ∧
    (startSequenceExact (some (bytes "d18446744073709551615")) = none ∧
      parseCursor (bytes "d18446744073709551615") = some (false, 18446744073709551615) ∧
      (18446744073709551615 + 1) % UInt64.size = 0) := by
  decide +kernel

end ClusterNats
