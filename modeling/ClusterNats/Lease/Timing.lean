import ClusterNats.Codec.Civil
import ClusterNats.Lease.Expiry
import ClusterNats.Peer.Cache

/-!
# Sums and products of the timers

A lease is renewed, waited for and dated by its TTL, and a peer is judged by the
heartbeat interval.  Here every sum and product on the way is the exact one, as
far as its type has it.

* `RequestedTtl`, `acquireParams` — the TTL of a caller and what an acquisition
  makes of it.
* `sleepForExact`, `degradedAfterExact`, `expiresAtExact`, `expiresAtUnixExact`,
  `waitBoundExact` — the five computations.
* `sleepFor_exact`, `degradedAfter_exact` — where the two products stay in their
  types, the code goes on with them.
* `timing_in_range` — when all of them do.
-/

namespace ClusterNats.Lease

open Conc Checked

/-! ## The TTL of an acquisition -/

/-- The TTL a caller asks for. -/
inductive RequestedTtl
  /-- In process. -/
  | duration (d : Duration)
  /-- Over FFI. -/
  | millis (ttlMs : UInt64)
  deriving DecidableEq, Repr

/-- `duration_to_ttl_ms`. -/
def durationToTtlMs (d : Duration) : UInt64 :=
  UInt64.ofNat (min (Duration.nanos d / 1000000) (UInt64.size - 1))

def RequestedTtl.ttlMs : RequestedTtl → UInt64
  | .duration d => durationToTtlMs d
  | .millis ttlMs => ttlMs

/-- The inputs of an acquisition under a configuration. -/
def acquireParams (cfg : Config.ClusterNatsConfig) (key : String) (wait : Bool)
    (request : RequestedTtl) : AcquireParams where
  key := key
  nodeId := cfg.node.id
  ttlMs := normaliseTtlMs request.ttlMs cfg
  wait := wait
  renewBeforeExpiryPercent := cfg.lease.renewBeforeExpiryPercent

/-! ## The computations -/

/-- `sleep_for` of the renewal task, in milliseconds. -/
def sleepForExact (ttl : Duration) (renewBeforeExpiryPercent : UInt32) : Option Int := do
  let pct := min (max renewBeforeExpiryPercent.toNat 1) 99
  let sleepRatio ← u32.fit (100 - pct)
  let ttlMs ← u64.fit (Duration.nanos ttl / 1000000 : Nat)
  let product ← u64.fit (ttlMs * sleepRatio)
  return max (product / 100) 50

/-- The seconds of `degraded_after`. -/
def degradedAfterExact (cfg : Config.ClusterNatsConfig) : Option Int :=
  u64.fit (cfg.node.heartbeatIntervalSec.toNat * 2)

/-- The date of `rfc3339_after`: the sum of two durations, its seconds as `i64`,
and the calendar. -/
def expiresAtExact (t : Instant) (offset : Duration) :
    Option (Int × Int × Int × Int × Int × Int) := do
  let secs ← u64.fit ((t / 1000000000 : Nat) + offset.secs.toNat)
  let secs ← u64.fit (secs + ((t % 1000000000 + offset.subsecNanos) / 1000000000 : Nat))
  ymdhmsExact (← i64.fit secs)

/-- The seconds of `expiry_for`, without saturation. -/
def expiresAtUnixExact (t : Instant) (ttl : Duration) : Option Int :=
  u64.fit ((t / 1000000000 : Nat) + ttl.secs.toNat)

/-- The seconds of `max_wait * 10`: those of the whole seconds, and those of the
rest. -/
def waitBoundExact (p : AcquireParams) : Option Int := do
  let maxWait := max (min (p.ttlMs.toNat * 3) (UInt64.size - 1)) 1000
  let secs ← u64.fit ((maxWait / 1000 : Nat) * 10)
  u64.fit (secs + (maxWait % 1000 * 1000000 * 10 / 1000000000 : Nat))

/-- No computation leaves its type. -/
def TimingInRange (cfg : Config.ClusterNatsConfig) (p : AcquireParams) (t : Instant) : Prop :=
  (sleepForExact p.ttl p.renewBeforeExpiryPercent).isSome = true ∧
    (degradedAfterExact cfg).isSome = true ∧ (expiresAtExact t p.ttl).isSome = true ∧
    (expiresAtUnixExact t p.ttl).isSome = true ∧ (waitBoundExact p).isSome = true

/-! ## The TTL in milliseconds -/

/-- The TTL of an acquisition in milliseconds: the one asked for, or the
configured one for `0`. -/
def effectiveMs (cfg : Config.ClusterNatsConfig) (request : RequestedTtl) : Nat :=
  let asked := match request with
    | .duration d => min (Duration.nanos d / 1000000) (UInt64.size - 1)
    | .millis ttlMs => ttlMs.toNat
  if asked = 0 then min (cfg.lease.defaultTtlSec.toNat * 1000) (UInt64.size - 1) else asked

theorem toNat_saturatingMul (a b : UInt64) :
    (saturatingMul a b).toNat = min (a.toNat * b.toNat) (UInt64.size - 1) := by
  unfold saturatingMul
  split
  · rename_i h
    rw [UInt64.toNat_mul, Nat.mod_eq_of_lt h]
    omega
  · have hmax : (UInt64.ofNat (UInt64.size - 1)).toNat = UInt64.size - 1 := by decide
    rw [hmax]
    omega

theorem toNat_ttlMs (cfg : Config.ClusterNatsConfig) (key : String) (wait : Bool)
    (request : RequestedTtl) : (acquireParams cfg key wait request).ttlMs.toNat =
      effectiveMs cfg request := by
  have hasked : request.ttlMs.toNat = match request with
      | .duration d => min (Duration.nanos d / 1000000) (UInt64.size - 1)
      | .millis ttlMs => ttlMs.toNat := by
    cases request with
    | duration d =>
      have hpos : 0 < UInt64.size := by decide
      exact UInt64.toNat_ofNat_of_lt' (by omega)
    | millis ttlMs => rfl
  have hzero : request.ttlMs = 0 ↔ request.ttlMs.toNat = 0 := UInt64.toNat_inj.symm
  show (normaliseTtlMs request.ttlMs cfg).toNat = _
  unfold normaliseTtlMs effectiveMs
  rw [← hasked]
  by_cases h : request.ttlMs = 0
  · rw [if_pos h, if_pos (hzero.1 h), toNat_saturatingMul]
    rfl
  · rw [if_neg h, if_neg (mt hzero.2 h)]

theorem effectiveMs_pos {cfg : Config.ClusterNatsConfig} (h : Config.Accepted cfg)
    (request : RequestedTtl) : 1 ≤ effectiveMs cfg request := by
  rw [← toNat_ttlMs cfg "" false]
  exact normaliseTtlMs_pos h _

/-! ## When each computation stays in its type -/

theorem has_u64 {x : Int} {n : Nat} (h : x = n) : u64.Has x ↔ n < UInt64.size := by
  have hsize : UInt64.size = 18446744073709551616 := rfl
  subst h
  unfold Range.Has u64
  dsimp only
  omega

theorem isSome_sleepForExact {ttlMs : UInt64} {percent : UInt32}
    (hpct : 1 ≤ percent ∧ percent ≤ 99) :
    (sleepForExact (fromMillis ttlMs) percent).isSome = true ↔
      ttlMs.toNat * (100 - percent.toNat) < UInt64.size := by
  have hlow : 1 ≤ percent.toNat := hpct.1
  have hhigh : percent.toNat ≤ 99 := hpct.2
  have hclamp : min (max percent.toNat 1) 99 = percent.toNat := by omega
  have hms : Duration.nanos (fromMillis ttlMs) / 1000000 = ttlMs.toNat := by
    rw [nanos_fromMillis, Nat.mul_div_cancel _ (by decide)]
  have hratio : (100 : Int) - percent.toNat = (100 - percent.toNat : Nat) := by omega
  have hproduct : (ttlMs.toNat : Int) * (100 - percent.toNat : Nat) =
      (ttlMs.toNat * (100 - percent.toNat) : Nat) := by
    rw [Nat.cast_mul]
  have hu32 : u32.Has (100 - (percent.toNat : Int)) := by
    rw [hratio]
    exact has_u32 (by omega) (by omega)
  have hu64 : u64.Has (ttlMs.toNat : Int) := (has_u64 rfl).2 ttlMs.toNat_lt_size
  unfold sleepForExact
  dsimp only
  rw [hclamp, hms, fit_bind hu32, fit_bind hu64, isSome_fit_bind, hratio, has_u64 hproduct]
  simp

theorem isSome_degradedAfterExact {cfg : Config.ClusterNatsConfig} :
    (degradedAfterExact cfg).isSome = true ↔ cfg.node.heartbeatIntervalSec.toNat < 2 ^ 63 := by
  have hsize : UInt64.size = 18446744073709551616 := rfl
  have hcast : (cfg.node.heartbeatIntervalSec.toNat : Int) * 2 =
      (cfg.node.heartbeatIntervalSec.toNat * 2 : Nat) := by omega
  rw [degradedAfterExact, isSome_fit, has_u64 hcast]
  omega

/-- The date of an expiry: under a clock below `2^40` seconds the sum ends below
`2^55`. -/
theorem isSome_expiresAtExact {t : Nat} (ht : t / 1000000000 < 2 ^ 40) (ttlMs : UInt64) :
    (expiresAtExact t (fromMillis ttlMs)).isSome = true := by
  have hlt := ttlMs.toNat_lt_size
  have hsize : UInt64.size = 18446744073709551616 := rfl
  have hnanos := (fromMillis ttlMs).subsec_lt
  unfold expiresAtExact
  rw [secs_fromMillis]
  generalize (fromMillis ttlMs).subsecNanos = nanos at *
  obtain ⟨n, hn⟩ : ∃ n, n = t / 1000000000 + ttlMs.toNat / 1000 +
    (t % 1000000000 + nanos) / 1000000000 := ⟨_, rfl⟩
  have hsum : ((t / 1000000000 : Nat) : Int) + (ttlMs.toNat / 1000 : Nat) =
      (t / 1000000000 + ttlMs.toNat / 1000 : Nat) := by omega
  have hall : ((t / 1000000000 + ttlMs.toNat / 1000 : Nat) : Int) +
      ((t % 1000000000 + nanos) / 1000000000 : Nat) = n := by omega
  rw [hsum, fit_bind ((has_u64 rfl).2 (by omega)), hall, fit_bind ((has_u64 rfl).2 (by omega)),
    fit_bind (has_i64 (by omega) (by omega)), ymdhmsExact_eq (by omega)]
  rfl

theorem isSome_expiresAtUnixExact {t : Nat} (ht : t / 1000000000 < 2 ^ 40) (ttlMs : UInt64) :
    (expiresAtUnixExact t (fromMillis ttlMs)).isSome = true := by
  have hlt := ttlMs.toNat_lt_size
  have hsize : UInt64.size = 18446744073709551616 := rfl
  have hsum : ((t / 1000000000 : Nat) : Int) + (ttlMs.toNat / 1000 : Nat) =
      (t / 1000000000 + ttlMs.toNat / 1000 : Nat) := by omega
  rw [expiresAtUnixExact, secs_fromMillis, isSome_fit, has_u64 hsum]
  omega

theorem isSome_waitBoundExact (p : AcquireParams) : (waitBoundExact p).isSome = true := by
  have hlt := p.ttlMs.toNat_lt_size
  have hsize : UInt64.size = 18446744073709551616 := rfl
  unfold waitBoundExact
  dsimp only
  generalize hwait : max (min (p.ttlMs.toNat * 3) (UInt64.size - 1)) 1000 = maxWait
  have hbound : maxWait < UInt64.size := by omega
  have hsecs : ((maxWait / 1000 : Nat) : Int) * 10 = (maxWait / 1000 * 10 : Nat) := by omega
  have hsum : ((maxWait / 1000 * 10 : Nat) : Int) + (maxWait % 1000 * 1000000 * 10 / 1000000000 : Nat) =
      (maxWait / 1000 * 10 + maxWait % 1000 * 1000000 * 10 / 1000000000 : Nat) := by omega
  rw [hsecs, fit_bind ((has_u64 rfl).2 (by omega)), isSome_fit, has_u64 hsum]
  omega

/-! ## What the code goes on with -/

/-- A renewal interval that stays in its type is what the task sleeps. -/
theorem sleepFor_exact {h : LeaseHandle} {ttlMs : UInt64} (httl : h.ttl = fromMillis ttlMs)
    (hpct : 1 ≤ h.renewBeforeExpiryPercent ∧ h.renewBeforeExpiryPercent ≤ 99)
    (hfits : (sleepForExact h.ttl h.renewBeforeExpiryPercent).isSome = true) :
    h.sleepFor = max (ttlMs.toNat * (100 - h.renewBeforeExpiryPercent.toNat) / 100) 50 := by
  rw [httl, isSome_sleepForExact hpct] at hfits
  rw [sleepFor_eq httl hpct, Nat.mod_eq_of_lt hfits]

/-- A bound that stays in its type is the one peers are judged by. -/
theorem degradedAfter_exact {cfg : Config.ClusterNatsConfig}
    (hfits : (degradedAfterExact cfg).isSome = true)
    (decode : Bytes → Except String Peer.HeartbeatPayload) :
    (Peer.Subscriber.start cfg decode).degradedAfter =
      cfg.node.heartbeatIntervalSec.toNat * 2 * 1000000000 := by
  have hlt := isSome_degradedAfterExact.1 hfits
  have hsize : UInt64.size = 18446744073709551616 := rfl
  have htwo : (cfg.node.heartbeatIntervalSec * 2).toNat = cfg.node.heartbeatIntervalSec.toNat * 2 := by
    rw [UInt64.toNat_mul]
    exact Nat.mod_eq_of_lt (by show cfg.node.heartbeatIntervalSec.toNat * 2 < UInt64.size; omega)
  show (cfg.node.heartbeatIntervalSec * 2).toNat * 1000000000 = _
  rw [htwo]

/-- **When every sum and product of the timers stays in its type.**  The dates
and the wait bound always do; the renewal interval and the bound for peers do
where their products are below `2^64`. -/
theorem timing_in_range {cfg : Config.ClusterNatsConfig} (hcfg : cfg.validate = .ok ())
    (key : String) (wait : Bool) (request : RequestedTtl) {t : Instant}
    (ht : t / 1000000000 < 2 ^ 40) :
    TimingInRange cfg (acquireParams cfg key wait request) t ↔
      effectiveMs cfg request * (100 - cfg.lease.renewBeforeExpiryPercent.toNat) < UInt64.size ∧
        cfg.node.heartbeatIntervalSec.toNat < 2 ^ 63 := by
  have haccepted := Config.validate_iff.1 hcfg
  have hms := toNat_ttlMs cfg key wait request
  have hpos : 1 ≤ (acquireParams cfg key wait request).ttlMs.toNat := by
    rw [hms]
    exact effectiveMs_pos haccepted request
  have hsleep := @isSome_sleepForExact (acquireParams cfg key wait request).ttlMs _ haccepted.percent
  unfold TimingInRange
  rw [AcquireParams.ttl_eq hpos, isSome_degradedAfterExact, ← hms]
  constructor
  · rintro ⟨hrenew, hpeers, -⟩
    exact ⟨hsleep.1 hrenew, hpeers⟩
  · rintro ⟨hrenew, hpeers⟩
    exact ⟨hsleep.2 hrenew, hpeers, isSome_expiresAtExact ht _, isSome_expiresAtUnixExact ht _,
      isSome_waitBoundExact _⟩

/-- The default configuration and a TTL of a minute. -/
theorem timing_in_range_default : TimingInRange (shortLease 30)
    (acquireParams (shortLease 30) "lock.a" true (.millis 60000)) 1700000000000000000 :=
  (timing_in_range (validate_shortLease (by decide)) "lock.a" true (.millis 60000) (by decide)).2
    (by decide)

/-- A configuration with the heartbeat interval given. -/
def slowHeartbeat (heartbeatIntervalSec peerExpirySec : UInt64) : Config.ClusterNatsConfig :=
  { Config.minimal "nats://a" "n" with
    node := { id := "n", heartbeatIntervalSec, peerExpirySec } }

/-- A TTL whose product passes `2^64` is renewed every 50 ms; and a heartbeat
interval of `2^63` seconds is accepted and judges every peer degraded at once. -/
theorem timing_in_range_wrapped :
    ((shortLease 30).validate = .ok () ∧
      (sleepForExact (fromMillis 368934881474191033) 50).isSome = false ∧
      ∀ record, (spawnLeaseHandle (acquireParams (shortLease 30) "lock.a" true
        (.millis 368934881474191033)) record).sleepFor = 50) ∧
    (slowHeartbeat 9223372036854775808 9223372036854775809).validate = .ok () ∧
      (degradedAfterExact (slowHeartbeat 9223372036854775808 9223372036854775809)).isSome = false ∧
      ∀ decode, (Peer.Subscriber.start (slowHeartbeat 9223372036854775808 9223372036854775809)
        decode).degradedAfter = 0 := by
  have hserver : Config.validateServer "nats://a" = .ok () := by decide
  have hid : Config.validateNodeId "n" = .ok () := by decide
  have hminimal := Config.validate_iff.1 (Config.validate_minimal hserver hid)
  refine ⟨⟨validate_shortLease (by decide), by decide +kernel, fun record => ?_⟩, ?_, by decide,
    fun decode => ?_⟩
  · have hshare : (spawnLeaseHandle (acquireParams (shortLease 30) "lock.a" true
        (.millis 368934881474191033)) record).renewBeforeExpiryPercent = 50 := rfl
    rw [sleepFor_eq rfl (by rw [hshare]; decide), hshare]
    decide +kernel
  · exact Config.validate_iff.2 { hminimal with heartbeat := by decide, expiry := by decide }
  · exact Nat.zero_mul _

end ClusterNats.Lease
