import ClusterNats.Codec.Dates
import ClusterNats.Config.Validate
import ClusterNats.Lease.Json
import ClusterNats.Lease.Store

/-!
# The expiry of a lease

An expiry is a pair: the text its holder is told and the seconds another node
compares with its clock.  Either half has a clock reading of its own, and the
two round differently.

* `readClock` — a clock that only the program reads.
* `expiredAt`, `exec_leaseIsExpired`, `exec_expiryFor` — the two programs at
  given readings.
* `held_until_expiry` — when nobody reclaims a lease before the expiry its holder
  was told.
* `renewed_before_expiry` — when the first renewal comes before the lease can be
  reclaimed.
-/

namespace ClusterNats.Lease

open Conc

/-! ## Programs that only read the clock -/

/-- The readings that are left, the next one first. -/
def readClock : List Instant → (r : Req) → Option (Resp r × List Instant)
  | t :: readings, .systemTime => some (t, readings)
  | _, _ => none

/-- Has the record lapsed at the instant? -/
def expiredAt (record : LeaseRecord) (t : Instant) : Bool :=
  record.expiresAtUnix ≠ 0 && record.expiresAtUnix ≤ unixSecs t

/-- What `lease_is_expired` answers at a clock reading. -/
theorem exec_leaseIsExpired (record : LeaseRecord) (t : Instant) :
    ((leaseIsExpired record).exec readClock [t]).map Prod.fst = some (.ok (expiredAt record t)) := by
  unfold leaseIsExpired expiredAt
  by_cases h : record.expiresAtUnix = 0
  · simp [h]
  · simp only [ne_eq, h, not_false_eq_true, if_true, decide_true, Bool.true_and]
    rfl

theorem leaseIsExpired_iff {record : LeaseRecord} {t : Instant} {b : Bool} :
    ((leaseIsExpired record).exec readClock [t]).map Prod.fst = some (.ok b) ↔
      expiredAt record t = b := by
  rw [exec_leaseIsExpired, Option.some.injEq, Except.ok.injEq]

/-- The pair that `expiry_for` makes of its two readings. -/
theorem exec_expiryFor (ttl : Duration) (t₁ t₂ : Instant) :
    (expiryFor ttl).exec readClock [t₁, t₂] =
      some (.ok (rfc3339 (Int64.ofNat ((t₁ + Duration.nanos ttl) / 1000000000)),
        saturatingAdd (unixSecs t₂) ttl.secs), []) := rfl

/-! ## Seconds -/

theorem toNat_saturatingAdd (a b : UInt64) :
    (saturatingAdd a b).toNat = min (a.toNat + b.toNat) (UInt64.size - 1) := by
  unfold saturatingAdd
  split
  · rename_i h
    rw [UInt64.toNat_add, Nat.mod_eq_of_lt h]
    omega
  · rename_i h
    rw [UInt64.toNat_ofNat_of_lt' (by decide)]
    omega

theorem nanos_fromMillis (ttlMs : UInt64) : Duration.nanos (fromMillis ttlMs) = ttlMs.toNat * 1000000 := by
  have hsecs : (ttlMs / 1000).toNat = ttlMs.toNat / 1000 := UInt64.toNat_div ..
  show (ttlMs / 1000).toNat * 1000000000 + ttlMs.toNat % 1000 * 1000000 = _
  omega

theorem secs_fromMillis (ttlMs : UInt64) : (fromMillis ttlMs).secs.toNat = ttlMs.toNat / 1000 :=
  UInt64.toNat_div ..

/-- When a record with the expiry of a clock reading has lapsed. -/
theorem expiredAt_iff {record : LeaseRecord} {t t' : Nat} {ttlMs : UInt64}
    (ht : Representable t) (ht' : Representable t')
    (hrecord : record.expiresAtUnix = saturatingAdd (unixSecs t) (fromMillis ttlMs).secs) :
    expiredAt record t' = true ↔ t / 1000000000 + ttlMs.toNat / 1000 ≠ 0 ∧
      min (t / 1000000000 + ttlMs.toNat / 1000) (UInt64.size - 1) ≤ t' / 1000000000 := by
  have hunix : record.expiresAtUnix.toNat =
      min (t / 1000000000 + ttlMs.toNat / 1000) (UInt64.size - 1) := by
    rw [hrecord, toNat_saturatingAdd, toNat_unixSecs ht, secs_fromMillis]
  have hsize : UInt64.size - 1 ≠ 0 := by decide
  rw [expiredAt, Bool.and_eq_true, decide_eq_true_iff, decide_eq_true_iff, ne_eq, ← UInt64.toNat_inj,
    UInt64.le_iff_toNat_le, hunix, toNat_unixSecs ht', UInt64.toNat_zero]
  omega

/-! ## Reclaiming -/

/-- From `since` on, a record with these seconds is not expired before the second
that the text denotes. -/
def HeldUntil (since : Instant) (expiresAt : String) (expiresAtUnix : UInt64) : Prop :=
  ∀ record : LeaseRecord, record.expiresAtUnix = expiresAtUnix →
    ∀ t, since ≤ t → ∀ secs : Int, Denotes expiresAt secs → (t / 1000000000 : Nat) < secs →
      ((leaseIsExpired record).exec readClock [t]).map Prod.fst = some (.ok false)

theorem heldUntil_iff {ttlMs : UInt64} {t₁ t₂ : Nat} (h : t₁ ≤ t₂) :
    HeldUntil t₂ (rfc3339 (Int64.ofNat ((t₁ + ttlMs.toNat * 1000000) / 1000000000)))
        (saturatingAdd (unixSecs t₂) (fromMillis ttlMs).secs) ↔
      t₁ % 1000000000 + ttlMs.toNat % 1000 * 1000000 < 1000000000 ∨
      t₁ / 1000000000 < t₂ / 1000000000 ∨
      t₂ / 1000000000 + ttlMs.toNat / 1000 = 0 ∨
      undatable ≤ (t₁ + ttlMs.toNat * 1000000) / 1000000000 := by
  have hms := UInt64.toNat_lt ttlMs
  have hsize : UInt64.size = 18446744073709551616 := rfl
  constructor
  · intro hheld
    by_contra hcond
    simp only [not_or, Nat.not_lt, Nat.not_le] at hcond
    obtain ⟨hcarry, hsame, hdated, hyear⟩ := hcond
    -- the last second before the one the text denotes
    obtain ⟨t, hle, ht⟩ : ∃ t, t₂ ≤ t ∧ t / 1000000000 = t₂ / 1000000000 + ttlMs.toNat / 1000 :=
      ⟨t₂ + ttlMs.toNat / 1000 * 1000000000, by omega, by omega⟩
    have hbefore : t / 1000000000 < (t₁ + ttlMs.toNat * 1000000) / 1000000000 := by omega
    have hyear₂ : t₂ / 1000000000 < undatable := by omega
    have hrep : ∀ {t : Nat}, t / 1000000000 < undatable → Representable t :=
      fun hlt => Nat.lt_trans hlt (by decide)
    obtain ⟨record, hrecord⟩ : ∃ record : LeaseRecord, record.expiresAtUnix =
        saturatingAdd (unixSecs t₂) (fromMillis ttlMs).secs := ⟨⟨"", 0, "", "", _⟩, rfl⟩
    have hnot := leaseIsExpired_iff.1 (hheld record hrecord t hle _ ((denotes_rfc3339 hyear).2 rfl)
      (Int.ofNat_lt.2 hbefore))
    have hreached : min (t₂ / 1000000000 + ttlMs.toNat / 1000) (UInt64.size - 1) ≤ t / 1000000000 := by
      omega
    have hlapsed := (expiredAt_iff (hrep hyear₂) (hrep (Nat.lt_trans hbefore hyear)) hrecord).2
      ⟨hdated, hreached⟩
    rw [hlapsed] at hnot
    exact Bool.noConfusion hnot
  · intro hcond record hrecord t hle secs hdenotes hlt
    unfold Instant at t hle
    by_cases hyear : undatable ≤ (t₁ + ttlMs.toNat * 1000000) / 1000000000
    · have hpast := denotes_undatable hyear hdenotes
      unfold undatable at *
      omega
    · have hsecs := (denotes_rfc3339 (Nat.not_le.1 hyear)).1 hdenotes
      have hrep : t / 1000000000 < UInt64.size := by
        unfold undatable at hyear
        omega
      have hrep₂ : t₂ / 1000000000 < UInt64.size := Nat.lt_of_le_of_lt (Nat.div_le_div_right hle) hrep
      refine leaseIsExpired_iff.2 (Bool.eq_false_iff.2 fun hlapsed => ?_)
      obtain ⟨hdated, hreached⟩ := (expiredAt_iff hrep₂ hrep hrecord).1 hlapsed
      unfold undatable at *
      omega

/-- **When a lease is held until the expiry its holder was told.**  The text
rounds the sum of the clock and the TTL, the seconds are the sum of what either
rounds to: they are one second behind when the two fractions carry, unless the
clock reached the next second by its second reading.  A text whose year does not
fit denotes no second to wait for, and an expiry of `0` is none. -/
theorem held_until_expiry (ttlMs : UInt64) {t₁ t₂ : Instant} (h : t₁ ≤ t₂) :
    ∃ expiresAt expiresAtUnix,
      (expiryFor (fromMillis ttlMs)).exec readClock [t₁, t₂] =
        some (.ok (expiresAt, expiresAtUnix), []) ∧
      (HeldUntil t₂ expiresAt expiresAtUnix ↔
        t₁ % 1000000000 + ttlMs.toNat % 1000 * 1000000 < 1000000000 ∨
        t₁ / 1000000000 < t₂ / 1000000000 ∨
        t₂ / 1000000000 + ttlMs.toNat / 1000 = 0 ∨
        undatable ≤ (t₁ + ttlMs.toNat * 1000000) / 1000000000) := by
  refine ⟨_, _, exec_expiryFor _ t₁ t₂, ?_⟩
  rw [nanos_fromMillis]
  exact heldUntil_iff h

/-- A TTL of whole seconds. -/
theorem held_until_expiry_whole : ∃ expiresAt expiresAtUnix,
    (expiryFor (fromMillis 30000)).exec readClock [1700000000600000000, 1700000000600000400] =
      some (.ok (expiresAt, expiresAtUnix), []) ∧
    HeldUntil 1700000000600000400 expiresAt expiresAtUnix := by
  have hle : 1700000000600000000 ≤ 1700000000600000400 := by decide
  obtain ⟨expiresAt, expiresAtUnix, hexec, hheld⟩ := held_until_expiry 30000 hle
  exact ⟨expiresAt, expiresAtUnix, hexec, hheld.2 (.inl (by decide))⟩

/-- A TTL of a second and a half that begins past the middle of a second: another
node may take the lease a second before it expires. -/
theorem held_until_expiry_carry : ∃ expiresAt expiresAtUnix,
    (expiryFor (fromMillis 1500)).exec readClock [1700000000600000000, 1700000000600000000] =
      some (.ok (expiresAt, expiresAtUnix), []) ∧
    ¬HeldUntil 1700000000600000000 expiresAt expiresAtUnix := by
  refine ⟨_, _, exec_expiryFor _ _ _, fun hheld => ?_⟩
  rw [nanos_fromMillis, heldUntil_iff Nat.le.refl] at hheld
  revert hheld
  decide

/-! ## Renewing -/

/-- `u64::saturating_mul`. -/
def saturatingMul (a b : UInt64) : UInt64 :=
  if a.toNat * b.toNat < UInt64.size then a * b else UInt64.ofNat (UInt64.size - 1)

/-- A TTL of `0` stands for the configured one. -/
def normaliseTtlMs (ttlMs : UInt64) (cfg : Config.ClusterNatsConfig) : UInt64 :=
  if ttlMs = 0 then saturatingMul cfg.lease.defaultTtlSec 1000 else ttlMs

/-- An accepted configuration yields no TTL of `0`. -/
theorem normaliseTtlMs_pos {cfg : Config.ClusterNatsConfig} (h : Config.Accepted cfg)
    (ttlMs : UInt64) : 1 ≤ (normaliseTtlMs ttlMs cfg).toNat := by
  have hdefault : cfg.lease.defaultTtlSec.toNat ≠ 0 := fun h0 => h.ttl (UInt64.toNat_inj.1 h0)
  unfold normaliseTtlMs saturatingMul
  by_cases hzero : ttlMs = 0
  · rw [if_pos hzero]
    split
    · rename_i hlt
      rw [UInt64.toNat_mul, Nat.mod_eq_of_lt hlt]
      show 1 ≤ cfg.lease.defaultTtlSec.toNat * 1000
      omega
    · decide
  · rw [if_neg hzero]
    have hne : ttlMs.toNat ≠ 0 := fun h0 => hzero (UInt64.toNat_inj.1 h0)
    omega

/-- How long the renewals of a lease are apart.  The product wraps. -/
theorem sleepFor_eq {h : LeaseHandle} {ttlMs : UInt64} (httl : h.ttl = fromMillis ttlMs)
    (hpct : 1 ≤ h.renewBeforeExpiryPercent ∧ h.renewBeforeExpiryPercent ≤ 99) :
    h.sleepFor = max (ttlMs.toNat * (100 - h.renewBeforeExpiryPercent.toNat) % UInt64.size / 100) 50 := by
  have hclamp : min (max h.renewBeforeExpiryPercent 1) 99 = h.renewBeforeExpiryPercent := by
    have hmax : max h.renewBeforeExpiryPercent 1 = h.renewBeforeExpiryPercent := by
      show (if h.renewBeforeExpiryPercent ≤ 1 then 1 else h.renewBeforeExpiryPercent) = _
      split
      · rename_i hle
        exact UInt32.le_antisymm hpct.1 hle
      · rfl
    rw [hmax]
    exact if_pos hpct.2
  have hle : h.renewBeforeExpiryPercent.toNat ≤ 99 := hpct.2
  have hms : Duration.nanos h.ttl / 1000000 = ttlMs.toNat := by
    rw [httl, nanos_fromMillis, Nat.mul_div_cancel _ (by decide)]
  have hshare : (100 - h.renewBeforeExpiryPercent).toUInt64.toNat =
      100 - h.renewBeforeExpiryPercent.toNat := by
    rw [UInt32.toNat_toUInt64, UInt32.toNat_sub_of_le _ _ (Nat.le_trans hle (by decide))]
    rfl
  unfold LeaseHandle.sleepFor
  simp only [hclamp, hms, UInt64.ofNat_toNat]
  rw [UInt64.toNat_div, UInt64.toNat_mul, hshare]
  rfl

/-- A TTL of at least a millisecond is taken as it is. -/
theorem AcquireParams.ttl_eq {p : AcquireParams} (httl : 1 ≤ p.ttlMs.toNat) :
    p.ttl = fromMillis p.ttlMs := by
  show fromMillis (if p.ttlMs ≤ 1 then 1 else p.ttlMs) = _
  split
  · rename_i hle
    rw [UInt64.le_antisymm httl hle]
  · rfl

/-- The first renewal of a lease acquired at `t` comes before any instant at which
its record has expired. -/
def RenewsFirst (json : LeaseJson) (p : AcquireParams) (t : Instant) : Prop :=
  ∀ (record : LeaseRecord) (expiresAt : String),
    (expiryFor p.ttl).exec readClock [t, t] = some (.ok (expiresAt, record.expiresAtUnix), []) →
    ∀ fuel millis next, Lease.renewalLoop json (spawnLeaseHandle p record) fuel =
        .req (.sleep millis) next →
      ∀ t', Representable t' →
        ((leaseIsExpired record).exec readClock [t']).map Prod.fst = some (.ok true) →
          t + millis * 1000000 < t'

theorem renewsFirst_iff {json : LeaseJson} {p : AcquireParams} {t : Nat} (ht : Representable t)
    (httl : 1 ≤ p.ttlMs.toNat)
    (hpct : 1 ≤ p.renewBeforeExpiryPercent ∧ p.renewBeforeExpiryPercent ≤ 99) :
    RenewsFirst json p t ↔
      t + max (p.ttlMs.toNat * (100 - p.renewBeforeExpiryPercent.toNat) % UInt64.size / 100) 50 *
          1000000 <
        min (t / 1000000000 + p.ttlMs.toNat / 1000) (UInt64.size - 1) * 1000000000 ∨
      t / 1000000000 + p.ttlMs.toNat / 1000 = 0 := by
  have hmax := AcquireParams.ttl_eq httl
  have hsleep : ∀ record, (spawnLeaseHandle p record).sleepFor =
      max (p.ttlMs.toNat * (100 - p.renewBeforeExpiryPercent.toNat) % UInt64.size / 100) 50 :=
    fun record => sleepFor_eq hmax hpct
  generalize max (p.ttlMs.toNat * (100 - p.renewBeforeExpiryPercent.toNat) % UInt64.size / 100) 50 =
    sleep at *
  constructor
  · intro hfirst
    by_cases hdated : t / 1000000000 + p.ttlMs.toNat / 1000 = 0
    · exact .inr hdated
    · refine .inl ?_
      -- the first instant of the second in which the record expires
      let record : LeaseRecord := ⟨"", 0, "", "", saturatingAdd (unixSecs t) p.ttl.secs⟩
      have hexec : (expiryFor p.ttl).exec readClock [t, t] = some (.ok (_, record.expiresAtUnix), []) :=
        exec_expiryFor p.ttl t t
      generalize hlapse : min (t / 1000000000 + p.ttlMs.toNat / 1000) (UInt64.size - 1) = lapse
      have hdiv : lapse * 1000000000 / 1000000000 = lapse := Nat.mul_div_cancel _ (by decide)
      have hrep : Representable (lapse * 1000000000) := by
        have hsize : 0 < UInt64.size := by decide
        show lapse * 1000000000 / 1000000000 < UInt64.size
        rw [hdiv]
        omega
      have hreached : expiredAt record (lapse * 1000000000) = true :=
        (expiredAt_iff ht hrep (congrArg (saturatingAdd _) (congrArg Duration.secs hmax))).2
          ⟨hdated, (hlapse.trans hdiv.symm).le⟩
      have hwake := hfirst record _ hexec 1 _ _ rfl _ hrep (leaseIsExpired_iff.2 hreached)
      rwa [hsleep] at hwake
  · intro hcond record expiresAt hexec fuel millis next hloop t' ht' hlapsed
    unfold Instant at t'
    have hunix : record.expiresAtUnix = saturatingAdd (unixSecs t) (fromMillis p.ttlMs).secs := by
      rw [exec_expiryFor, Option.some.injEq, Prod.mk.injEq, Except.ok.injEq, Prod.mk.injEq] at hexec
      rw [← hexec.1.2, hmax]
    have hmillis : millis = sleep := by
      cases fuel with
      | zero => exact nomatch hloop
      | succ fuel =>
        rw [← hsleep record]
        exact (Req.sleep.inj (Prog.req.inj hloop).1).symm
    obtain ⟨hdated, hreached⟩ := (expiredAt_iff ht ht' hunix).1 (leaseIsExpired_iff.1 hlapsed)
    show t + millis * 1000000 < t'
    rw [hmillis]
    omega

/-- **When the first renewal of a lease comes before the lease can be reclaimed.**
The record expires at the end of the TTL's whole seconds, counted from the
beginning of the second of the acquisition; the renewal task sleeps a share of the
TTL, at least 50 ms, from the acquisition on. -/
theorem renewed_before_expiry {json : LeaseJson} {cfg : Config.ClusterNatsConfig}
    (hcfg : cfg.validate = .ok ()) (ttlMs : UInt64) {p : AcquireParams}
    (hp : p.ttlMs = normaliseTtlMs ttlMs cfg)
    (hpct : p.renewBeforeExpiryPercent = cfg.lease.renewBeforeExpiryPercent)
    {t : Instant} (ht : Representable t) :
    RenewsFirst json p t ↔
      t + max (p.ttlMs.toNat * (100 - p.renewBeforeExpiryPercent.toNat) % UInt64.size / 100) 50 *
          1000000 <
        min (t / 1000000000 + p.ttlMs.toNat / 1000) (UInt64.size - 1) * 1000000000 ∨
      t / 1000000000 + p.ttlMs.toNat / 1000 = 0 := by
  have haccepted := Config.validate_iff.1 hcfg
  refine renewsFirst_iff ht ?_ ?_
  · rw [hp]
    exact normaliseTtlMs_pos haccepted ttlMs
  · rw [hpct]
    exact haccepted.percent

/-- The configuration of a node that leaves everything else to the defaults. -/
def shortLease (defaultTtlSec : UInt64) : Config.ClusterNatsConfig :=
  { Config.minimal "nats://a" "n" with lease := { defaultTtlSec } }

theorem validate_shortLease {defaultTtlSec : UInt64} (h : defaultTtlSec ≠ 0) :
    (shortLease defaultTtlSec).validate = .ok () := by
  have hserver : Config.validateServer "nats://a" = .ok () := by decide
  have hid : Config.validateNodeId "n" = .ok () := by decide
  have hminimal := Config.validate_iff.1 (Config.validate_minimal hserver hid)
  exact Config.validate_iff.2 { hminimal with ttl := h, percent := hminimal.percent }

/-- A waiting acquisition of `n` with the TTL and the share of the configuration. -/
def acquisition (cfg : Config.ClusterNatsConfig) (ttlMs : UInt64) : AcquireParams where
  key := "leader"
  nodeId := "n"
  ttlMs := normaliseTtlMs ttlMs cfg
  wait := true
  renewBeforeExpiryPercent := cfg.lease.renewBeforeExpiryPercent

/-- The default TTL of thirty seconds, renewed half-way. -/
theorem renewed_before_expiry_defaults :
    RenewsFirst plainJson (acquisition (shortLease 30) 0) 1700000000999999999 := by
  have hcfg : (shortLease 30).validate = .ok () := validate_shortLease (by decide)
  exact (renewed_before_expiry hcfg 0 (p := acquisition (shortLease 30) 0) rfl rfl (by decide)).2
    (.inl (by decide))

/-- A default TTL of one second, renewed half-way: a lease acquired past the
middle of a second has expired before it is renewed. -/
theorem renewed_before_expiry_late : (shortLease 1).validate = .ok () ∧
    ¬RenewsFirst plainJson (acquisition (shortLease 1) 0) 1700000000600000000 := by
  refine ⟨validate_shortLease (by decide), fun hfirst => ?_⟩
  rw [renewsFirst_iff (by decide) (by decide) (by decide)] at hfirst
  revert hfirst
  decide

end ClusterNats.Lease
