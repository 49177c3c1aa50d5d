import ClusterNats.Kv.Calls

/-!
# A map whose entries expire

What the store is for, without records, markers or revisions: a map from keys to
values with an optional expiry second.  An entry counts as absent once its
expiry is reached.  Seconds are plain numbers here: the second of a TTL is the
clock and the TTL, added.

* `TtlEntry`, `TtlMap`, `lookup`, `set`, `remove` — the map.
* `TtlReply`, `TtlMap.call` — what each call of the store does to it and returns.
* `TtlMap.InRange` — the seconds of a call are ones the store can hold and
  return.
-/

namespace ClusterNats

/-- A value and the second at which it expires. -/
structure TtlEntry where
  bytes : Bytes
  expiresAt : Option Nat
  deriving DecidableEq, Repr

/-- Has the entry expired when the clock reads `now`? -/
def TtlEntry.expired (now : Nat) (e : TtlEntry) : Bool := e.expiresAt.any fun secs => secs ≤ now

theorem TtlEntry.expired_mono {now now' : Nat} (h : now ≤ now') {e : TtlEntry}
    (hexp : e.expired now = true) : e.expired now' = true := by
  obtain ⟨bytes, expiresAt⟩ := e
  cases expiresAt with
  | none => exact absurd hexp (by simp [expired])
  | some secs =>
    simp only [expired, Option.any_some, decide_eq_true_eq] at hexp ⊢
    exact hexp.trans h

/-- A map from keys to entries. -/
def TtlMap (κ : Type) : Type := κ → Option TtlEntry

/-- What a call on a map returns. -/
inductive TtlReply
  | entry (e : Option TtlEntry)
  | done
  | flag (b : Bool)
  | count (n : Int64)
  deriving DecidableEq, Repr

namespace TtlMap

variable {κ : Type}

/-- The entry of a key, when the clock reads `now`. -/
def lookup (m : TtlMap κ) (now : Nat) (key : κ) : Option TtlEntry :=
  (m key).filter fun e => !e.expired now

/-- What is looked up later was there before. -/
theorem lookup_mono {m : TtlMap κ} {now now' : Nat} (h : now ≤ now') (key : κ) :
    m.lookup now' key = (m.lookup now key).filter fun e => !e.expired now' := by
  unfold lookup
  cases m key with
  | none => rfl
  | some e =>
    cases hnow : e.expired now with
    | false => simp [Option.filter, hnow]
    | true => simp [Option.filter, hnow, TtlEntry.expired_mono h hnow]

variable [DecidableEq κ]

def set (m : TtlMap κ) (key : κ) (e : TtlEntry) : TtlMap κ :=
  fun k => if k = key then some e else m k

def remove (m : TtlMap κ) (key : κ) : TtlMap κ := fun k => if k = key then none else m k

@[simp] theorem lookup_set_self (m : TtlMap κ) (now : Nat) (key : κ) (e : TtlEntry) :
    (m.set key e).lookup now key = if e.expired now then none else some e := by
  cases h : e.expired now <;> simp [lookup, set, Option.filter, h]

theorem lookup_set_ne (m : TtlMap κ) (now : Nat) {key k : κ} (e : TtlEntry) (h : k ≠ key) :
    (m.set key e).lookup now k = m.lookup now k := by
  simp [lookup, set, h]

@[simp] theorem lookup_remove_self (m : TtlMap κ) (now : Nat) (key : κ) :
    (m.remove key).lookup now key = none := by
  simp [lookup, remove]

theorem lookup_remove_ne (m : TtlMap κ) (now : Nat) {key k : κ} (h : k ≠ key) :
    (m.remove key).lookup now k = m.lookup now k := by
  simp [lookup, remove, h]

/-- The expiry second of a TTL that starts now, at least a second away. -/
def deadline (now : Nat) (ttl : Option Duration) : Option Nat :=
  ttl.map fun d => now + max d.secs.toNat 1

/-- A counter call on the entry that is looked up: the new entry, or the error
of the parse or of the step. -/
def count (api : CounterApi) (now : Nat) (ttl : Option Duration)
    (step : Int64 → Except ClusterError Int64) :
    Option TtlEntry → Except ClusterError (Int64 × TtlEntry)
  | none => do
    let next ← step 0
    return (next, ⟨renderI64 next, deadline now ttl⟩)
  | some e => do
    let current ← api.parseCounter e.bytes
    let next ← step current
    -- a live counter keeps its expiry without a TTL, and its text without a change
    let expiresAt := if ttl.isSome then deadline now ttl else e.expiresAt
    return (next, if next = current ∧ ttl = none then e else ⟨renderI64 next, expiresAt⟩)

/-- What a call returns at the clock `now`, and the map after it. -/
def call (api : CounterApi) (m : TtlMap String) (now : Nat) :
    Op → Except ClusterError TtlReply × TtlMap String
  | .get key => (.ok (.entry (m.lookup now key)), m)
  | .put key value ttl => (.ok .done, m.set key ⟨value, deadline now ttl⟩)
  | .putIfAbsent key value ttl =>
    match m.lookup now key with
    | some _ => (.ok (.flag false), m)
    | none => (.ok (.flag true), m.set key ⟨value, deadline now ttl⟩)
  | .delete key => (.ok (.flag (m.lookup now key).isSome), m.remove key)
  | .expire key ttl =>
    match m.lookup now key with
    | some e => (.ok (.flag true), m.set key ⟨e.bytes, deadline now ttl⟩)
    | none => (.ok (.flag false), m)
  | .updateCounter _ key ttl step =>
    match count api now ttl step (m.lookup now key) with
    | .ok (next, e) => (.ok (.count next), m.set key e)
    | .error e => (.error e, m)
  | _ => (.ok .done, m)

/-- The TTL that a call adds to the clock: an `expire` of an absent key adds none. -/
def adds (m : TtlMap String) (now : Nat) : Op → Option Duration
  | .put _ _ ttl => ttl
  | .putIfAbsent _ _ ttl => ttl
  | .expire key ttl => if (m.lookup now key).isSome then ttl else none
  | .updateCounter _ _ ttl _ => ttl
  | _ => none

/-- The seconds of a call are in range: the sum of the clock and a TTL is below
`2^64`, and the expiry of an entry that is returned below `2^63`. -/
structure InRange (m : TtlMap String) (now : Nat) (op : Op) : Prop where
  sum : ∀ d ∈ m.adds now op, now + max d.secs.toNat 1 < UInt64.size
  time : ∀ key, op = .get key → ∀ e ∈ m.lookup now key, ∀ secs ∈ e.expiresAt, secs < systemTimeEnd

end TtlMap
end ClusterNats
