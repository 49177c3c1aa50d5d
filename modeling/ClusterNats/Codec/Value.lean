import ClusterNats.Codec.Text

/-!
# The value envelope

A value with a TTL is stored behind a magic marker and its expiry; a value
without one is stored as it is.

* `encodeValue`, `decodeValue` — the envelope.
* `decodeValue_encodeValue` — a value comes back with its expiry, unless it was
  stored without one and begins with the marker itself.
* `encodeValue_decodeValue` — storing a decoded record again gives the same
  bytes, whatever the record held.
* `Instant`, `unixSecs`, `isExpiredAt` — the clock in whole seconds.
-/

namespace ClusterNats

/-- `TTL_ENVELOPE_MAGIC`. -/
def ttlEnvelopeMagic : Bytes := 0 :: bytes "mcpg-kv-ttl" ++ [1]

/-- Wrap a value with an optional inline expiry. -/
def encodeValue (value : Bytes) (expiresAtSecs : Option UInt64) : Bytes :=
  match expiresAtSecs with
  | some secs => ttlEnvelopeMagic ++ toBeBytes secs ++ value
  | none => value

/-- The value of a stored record and its expiry. -/
def decodeValue (stored : Bytes) : Bytes × Option UInt64 :=
  let header := ttlEnvelopeMagic.length + 8
  if header ≤ stored.length ∧ ttlEnvelopeMagic <+: stored then
    let off := ttlEnvelopeMagic.length
    (stored.drop header, some (fromBeBytes ((stored.drop off).take 8)))
  else (stored, none)

@[simp] theorem decodeValue_envelope (value : Bytes) (secs : UInt64) :
    decodeValue (encodeValue value (some secs)) = (value, some secs) := by
  have hlen : ttlEnvelopeMagic.length + 8 ≤ (ttlEnvelopeMagic ++ toBeBytes secs ++ value).length := by
    simp only [List.length_append, length_toBeBytes]
    omega
  have hpre : ttlEnvelopeMagic <+: ttlEnvelopeMagic ++ toBeBytes secs ++ value :=
    ⟨toBeBytes secs ++ value, by simp⟩
  have hdrop : (ttlEnvelopeMagic ++ toBeBytes secs ++ value).drop (ttlEnvelopeMagic.length + 8) =
      value := List.drop_left' (by simp)
  have htake : ((ttlEnvelopeMagic ++ toBeBytes secs ++ value).drop ttlEnvelopeMagic.length).take 8 =
      toBeBytes secs := by
    rw [List.append_assoc, List.drop_left, List.take_left' (length_toBeBytes secs)]
  simp only [decodeValue, encodeValue, if_pos (And.intro hlen hpre), hdrop, htake,
    fromBeBytes_toBeBytes]

/-- **A value comes back with its expiry.**  Without an expiry it is stored as
it is, so it must not look like an envelope. -/
theorem decodeValue_encodeValue {value : Bytes} {exp : Option UInt64}
    (h : exp = none → ¬ ttlEnvelopeMagic <+: value) :
    decodeValue (encodeValue value exp) = (value, exp) := by
  cases exp with
  | some secs => exact decodeValue_envelope value secs
  | none =>
    have hraw : ¬(ttlEnvelopeMagic.length + 8 ≤ value.length ∧ ttlEnvelopeMagic <+: value) :=
      fun hv => h rfl hv.2
    exact if_neg hraw

/-- **Storing a decoded record again gives the same bytes.** -/
@[simp] theorem encodeValue_decodeValue (stored : Bytes) :
    encodeValue (decodeValue stored).1 (decodeValue stored).2 = stored := by
  unfold decodeValue
  simp only
  split
  · rename_i h
    obtain ⟨hlen, rest, hrest⟩ := h
    subst hrest
    have hlen8 : (rest.take 8).length = 8 := by
      rw [List.length_append] at hlen
      rw [List.length_take]
      omega
    have hdrop : (ttlEnvelopeMagic ++ rest).drop (ttlEnvelopeMagic.length + 8) = rest.drop 8 := by
      rw [← List.drop_drop, List.drop_left]
    rw [encodeValue, List.drop_left, toBeBytes_fromBeBytes hlen8, hdrop, List.append_assoc,
      List.take_append_drop]
  · rfl

/-! ## The clock -/

/-- An instant, in nanoseconds since the Unix epoch. -/
abbrev Instant := Nat

/-- The whole Unix seconds of an instant (`Duration::as_secs`). -/
def unixSecs (t : Instant) : UInt64 := UInt64.ofNat (t / 1000000000)

/-- Does `unixSecs` hold the seconds of this instant?  A `Duration` since the
epoch does not reach further. -/
def Representable (t : Instant) : Prop := t / 1000000000 < UInt64.size

instance (t : Instant) : Decidable (Representable t) := inferInstanceAs (Decidable (_ < _))

theorem toNat_unixSecs {t : Instant} (h : Representable t) :
    (unixSecs t).toNat = t / 1000000000 := UInt64.toNat_ofNat_of_lt' h

theorem unixSecs_mono {t t' : Instant} (h : t ≤ t') (ht' : Representable t') :
    unixSecs t ≤ unixSecs t' := by
  have hdiv : t / 1000000000 ≤ t' / 1000000000 := Nat.div_le_div_right h
  have ht : Representable t := lt_of_le_of_lt hdiv ht'
  rw [UInt64.le_iff_toNat_le, toNat_unixSecs ht, toNat_unixSecs ht']
  exact hdiv

/-- `is_expired` at a clock reading. -/
def isExpiredAt (now : UInt64) (expiresAtSecs : Option UInt64) : Bool :=
  expiresAtSecs.any fun s => s ≤ now

/-- What has expired stays expired. -/
theorem isExpiredAt_mono {now now' : UInt64} (h : now ≤ now') {exp : Option UInt64}
    (hexp : isExpiredAt now exp = true) : isExpiredAt now' exp = true := by
  cases exp with
  | none => exact absurd hexp (by simp [isExpiredAt])
  | some s =>
    simp only [isExpiredAt, Option.any_some, decide_eq_true_eq] at hexp ⊢
    exact UInt64.le_trans hexp h

/-- A `std::time::Duration`, whole seconds and the nanoseconds beyond them. -/
structure Duration where
  secs : UInt64
  subsecNanos : Nat
  subsec_lt : subsecNanos < 1000000000 := by decide
  deriving DecidableEq, Repr

/-- `Duration::from_secs`. -/
def Duration.fromSecs (secs : UInt64) : Duration := ⟨secs, 0, Nat.zero_lt_succ _⟩

end ClusterNats
