import ClusterNats.Kv.Refine

/-!
# The readers of a record

What was written is read back from the payload; whether it is dead is read from
the payload by `get` and from the headers by the sweep.  Both share one byte
space with whatever a capability stores.

* `Enveloped` — a payload that reads as an envelope.
* `decodeValue_encodeValue_iff` — when a value comes back with its expiry.
* `put_read_back` — a value put without a TTL and read again.
* `headerVerdict`, `slotVerdict`, `verdicts_agree` — the two readers, and the
  records they agree on.
-/

namespace ClusterNats

open Conc

/-! ## The envelope -/

/-- A payload that is long enough for an envelope and begins with its marker. -/
def Enveloped (stored : Bytes) : Prop :=
  ttlEnvelopeMagic.length + 8 ≤ stored.length ∧ ttlEnvelopeMagic <+: stored

instance (stored : Bytes) : Decidable (Enveloped stored) := inferInstanceAs (Decidable (_ ∧ _))

theorem decodeValue_of_not_enveloped {stored : Bytes} (h : ¬ Enveloped stored) :
    decodeValue stored = (stored, none) := if_neg h

theorem decodeValue_of_enveloped {stored : Bytes} (h : Enveloped stored) :
    ∃ secs, (decodeValue stored).2 = some secs := ⟨_, congrArg Prod.snd (if_pos h)⟩

/-- Without an envelope nothing is set apart. -/
theorem decodeValue_eq_self_iff {stored : Bytes} :
    decodeValue stored = (stored, none) ↔ ¬ Enveloped stored := by
  refine ⟨fun h henv => ?_, decodeValue_of_not_enveloped⟩
  obtain ⟨secs, hsecs⟩ := decodeValue_of_enveloped henv
  rw [h] at hsecs
  cases hsecs

/-- A value comes back with its expiry exactly when it has one or does not read
as an envelope itself. -/
theorem decodeValue_encodeValue_iff (value : Bytes) (exp : Option UInt64) :
    decodeValue (encodeValue value exp) = (value, exp) ↔ (exp = none → ¬ Enveloped value) := by
  cases exp with
  | some secs => simp
  | none =>
    rw [encodeValue, decodeValue_eq_self_iff]
    simp

/-- A value put without a TTL is what a later read decodes. -/
theorem WroteValue.getNow {key : String} {value : Bytes} {s s' : Server}
    (h : WroteValue key value none s s') (t : Instant) :
    Server.getNow { s' with clock := t } key = some (.ok (some ⟨value, none⟩)) ↔ ¬ Enveloped value := by
  obtain ⟨seq, hlast⟩ := h.last
  have hlast' : Server.slot { s' with clock := t } key = .ofRecord (unixSecs t) (some
      ⟨seq, Record.recordOperation [(expiresHeader, renderU64 0)], value⟩) := by
    rw [Server.slot, hlast]
    rfl
  have hdated : (some (Entry.mk value none)).all Entry.dated = true := rfl
  rw [Server.getNow_eq_some, and_iff_left hdated, hlast', ofRecord_some, ← decodeValue_eq_self_iff]
  have hput : Record.recordOperation [(expiresHeader, renderU64 0)] = .put := rfl
  simp only [hput]
  constructor
  · intro hread
    split at hread
    · simp [Slot.found] at hread
    · simpa [Slot.found, Prod.ext_iff] using hread
  · intro hdec
    rw [hdec]
    simp [isExpiredAt, Slot.found]

/-- **A value comes back with its expiry** exactly when it has one or does not
read as an envelope itself; and a value put without a TTL, whatever the bucket
holds, is read at every later instant as it is and without an expiry exactly
when it does not. -/
theorem put_read_back :
    (∀ value exp, decodeValue (encodeValue value exp) = (value, exp) ↔
      (exp = none → ¬ Enveloped value)) ∧
    ∀ s key value, ∃ s', (put key value none).exec answer s = some (.ok (), s') ∧
      ∀ t, Server.getNow { s' with clock := t } key = some (.ok (some ⟨value, none⟩)) ↔
        ¬ Enveloped value := by
  refine ⟨decodeValue_encodeValue_iff, fun s key value => ?_⟩
  have hwrite : ∃ s', (put key value none).exec answer s = some (.ok (), s') ∧
      WroteValue key value (s.deadline none) s s' := exec_put s key value none
  obtain ⟨s', hput, hwrote⟩ := hwrite
  exact ⟨s', hput, fun t => hwrote.getNow t⟩

/-- A value of its own that begins like an envelope. -/
def lookalike : Bytes := ttlEnvelopeMagic ++ toBeBytes 7

/-- It is cut where an envelope would end. -/
theorem put_read_back_lookalike : decodeValue (encodeValue lookalike none) ≠ (lookalike, none) := by
  decide +kernel

/-! ## Two readers -/

/-- What a reader takes a record for. -/
inductive Verdict
  | live
  | expired
  | marker
  deriving DecidableEq, Repr

/-- The sweep's verdict, from the headers alone. -/
def headerVerdict (now : UInt64) (headers : HeaderMap) : Verdict :=
  match recordOperation headers with
  | .put => if (headerExpiry headers).any fun at_ => at_ ≠ 0 ∧ at_ ≤ now then .expired else .live
  | _ => .marker

/-- The verdict of `slot`, from the operation as the KV client reads it and from
the payload. -/
def slotVerdict (now : UInt64) (m : Message) : Verdict :=
  match Record.recordOperation m.headers with
  | .put => if isExpiredAt now (decodeValue m.payload).2 then .expired else .live
  | _ => .marker

/-- `slot` reads a value exactly where its verdict is `live`. -/
theorem ofRecord_found (now : UInt64) (m : StoredMessage) :
    (Slot.ofRecord now (some (Record.ofMessage m))).found ≠ none ↔ slotVerdict now m.body = .live := by
  rw [ofRecord_some, slotVerdict, Record.ofMessage]
  dsimp only
  cases Record.recordOperation m.body.headers <;>
    cases isExpiredAt now (decodeValue m.body.payload).2 <;> simp [Slot.found]

/-- The scan of a sweep takes a record for dead exactly where its verdict is
`expired`, or `marker` after the grace. -/
theorem sweepRecord_dead (markerGrace : Duration) (now : UInt64) (scan : SweepScan) (r : Delivered) :
    (sweepRecord markerGrace now scan r).dead = if headerVerdict now r.headers = .expired ∨
        headerVerdict now r.headers = .marker ∧
          markerGrace.secs ≤ saturatingSub now (unixSecs r.published) then
      scan.dead ++ [(r.subject, r.streamSequence)] else scan.dead := by
  unfold sweepRecord headerVerdict
  cases recordOperation r.headers with
  | put =>
    cases headerExpiry r.headers with
    | none => simp
    | some at_ => by_cases h : at_ ≠ 0 ∧ at_ ≤ now <;> simp [h]
  | delete => by_cases h : markerGrace.secs ≤ saturatingSub now (unixSecs r.published) <;> simp [h]
  | purge => by_cases h : markerGrace.secs ≤ saturatingSub now (unixSecs r.published) <;> simp [h]

/-- Whenever it is read, the two readers take the record for the same. -/
def Undisputed (m : Message) : Prop := ∀ now, headerVerdict now m.headers = slotVerdict now m

/-- What `publish` stores. -/
def published (value : Bytes) (exp : Option UInt64) (t : Instant) : Message where
  headers := [(expiresHeader, renderU64 (exp.getD 0))]
  payload := encodeValue value exp
  published := t

/-- The expiry `expires_at_from` gives at a clock reading. -/
def expiryFrom (clock : UInt64) (ttl : Option Duration) : Option UInt64 :=
  ttl.map fun d => clock + max d.secs 1

theorem headerVerdict_published (now : UInt64) (value : Bytes) (exp : Option UInt64) (t : Instant) :
    headerVerdict now (published value exp t).headers =
      if exp.getD 0 ≠ 0 ∧ exp.getD 0 ≤ now then .expired else .live := by
  have hput : recordOperation (published value exp t).headers = .put := rfl
  have hexp : headerExpiry (published value exp t).headers = some (exp.getD 0) :=
    parseU64_renderU64 _
  rw [headerVerdict, hput, hexp]
  simp

theorem slotVerdict_published (now : UInt64) (value : Bytes) (exp : Option UInt64) (t : Instant) :
    slotVerdict now (published value exp t) =
      if isExpiredAt now (decodeValue (encodeValue value exp)).2 then .expired else .live := rfl

/-- A published record is undisputed unless its expiry is the header's `0`, or
it has none and its value reads as an envelope. -/
theorem undisputed_published {value : Bytes} {exp : Option UInt64} {t : Instant} :
    Undisputed (published value exp t) ↔ exp ≠ some 0 ∧ (exp = none → ¬ Enveloped value) := by
  unfold Undisputed
  simp only [headerVerdict_published, slotVerdict_published]
  cases exp with
  | none =>
    simp only [Option.getD_none, ne_eq, not_true_eq_false, false_and, if_false, reduceCtorEq,
      not_false_eq_true, true_and, forall_const]
    constructor
    · intro h henv
      obtain ⟨secs, hsecs⟩ := decodeValue_of_enveloped henv
      have hread := h secs
      rw [encodeValue, hsecs] at hread
      simp [isExpiredAt] at hread
    · intro h now
      rw [encodeValue, decodeValue_of_not_enveloped h]
      rfl
  | some secs =>
    simp only [Option.getD_some, decodeValue_envelope, reduceCtorEq, false_imp_iff, and_true]
    constructor
    · intro h hzero
      obtain rfl : secs = 0 := Option.some.inj hzero
      exact absurd (h 0) (by decide)
    · intro h now
      have hne : secs ≠ 0 := fun hzero => h (congrArg some hzero)
      simp [isExpiredAt, hne]

/-- The reasons of the markers the server places. -/
def markerReasons : List Bytes := [bytes "MaxAge", bytes "Purge", bytes "Remove"]

/-- What a marker must say for both readers to take it for the same: `DEL` or
`PURGE`, or any other operation over a payload without an envelope, or without
an operation one of the server's reasons. -/
def PlainMarker (m : Message) : Prop :=
  (∃ operation, m.headers.get kvOperationHeader = some operation ∧
    (operation = bytes "DEL" ∨ operation = bytes "PURGE" ∨ ¬ Enveloped m.payload)) ∨
  (m.headers.get kvOperationHeader = none ∧
    ∃ reason ∈ markerReasons, m.headers.get natsMarkerReason = some reason)

theorem headerVerdict_of_no_expiry {now : UInt64} {headers : HeaderMap}
    (h : headers.get expiresHeader = none) :
    headerVerdict now headers = if recordOperation headers = .put then .live else .marker := by
  have hexp : headerExpiry headers = none := by rw [headerExpiry, h, Option.bind_none]
  rw [headerVerdict, hexp]
  cases recordOperation headers <;> simp

theorem slotVerdict_eq (now : UInt64) (m : Message) : slotVerdict now m =
    if Record.recordOperation m.headers ≠ .put then .marker
    else if isExpiredAt now (decodeValue m.payload).2 then .expired else .live := by
  rw [slotVerdict]
  cases Record.recordOperation m.headers <;> simp

/-- Without an expiry header, a record both readers take for a put must not hold
an envelope. -/
theorem undisputed_of_put {m : Message} (hexp : m.headers.get expiresHeader = none)
    (hput : recordOperation m.headers = .put) (hput' : Record.recordOperation m.headers = .put) :
    Undisputed m ↔ ¬ Enveloped m.payload := by
  unfold Undisputed
  simp only [headerVerdict_of_no_expiry hexp, slotVerdict_eq, hput, hput', ne_eq,
    not_true_eq_false, if_true, if_false]
  constructor
  · intro h henv
    obtain ⟨secs, hsecs⟩ := decodeValue_of_enveloped henv
    have hread := h secs
    rw [hsecs] at hread
    simp [isExpiredAt] at hread
  · intro h now
    rw [decodeValue_of_not_enveloped h]
    rfl

theorem undisputed_marker {m : Message} (hexp : m.headers.get expiresHeader = none)
    (hmarker : m.headers.get kvOperationHeader ≠ none ∨ m.headers.get natsMarkerReason ≠ none) :
    Undisputed m ↔ PlainMarker m := by
  unfold PlainMarker
  cases hop : m.headers.get kvOperationHeader with
  | some operation =>
    simp only [Option.some.injEq, exists_eq_left', reduceCtorEq, false_and, or_false]
    by_cases hdel : operation = bytes "DEL" ∨ operation = bytes "PURGE"
    · have hne : recordOperation m.headers ≠ .put ∧ Record.recordOperation m.headers ≠ .put := by
        unfold recordOperation Record.recordOperation
        rw [hop]
        dsimp only
        rcases hdel with rfl | rfl
        all_goals decide +kernel
      have hagree : Undisputed m := by
        intro now
        rw [headerVerdict_of_no_expiry hexp, slotVerdict_eq, if_neg hne.1, if_pos hne.2]
      simp only [hagree, true_iff]
      exact hdel.elim .inl fun h => .inr (.inl h)
    · obtain ⟨hnd, hnp⟩ := not_or.1 hdel
      have hput : recordOperation m.headers = .put := by
        simp [recordOperation, hop, hnd, hnp]
      have hput' : Record.recordOperation m.headers = .put := by
        simp only [Record.recordOperation, hop, Operation.parse, if_neg hnd, if_neg hnp]
        split <;> rfl
      rw [undisputed_of_put hexp hput hput']
      simp [hnd, hnp]
  | none =>
    obtain ⟨reason, hreason⟩ : ∃ reason, m.headers.get natsMarkerReason = some reason := by
      rcases hmarker with h | h
      · exact absurd hop h
      · exact Option.ne_none_iff_exists'.1 h
    simp only [reduceCtorEq, false_and, exists_false, false_or, true_and, hreason,
      Option.some.injEq]
    have hheader : ∀ now, headerVerdict now m.headers = .marker := by
      intro now
      have hne : recordOperation m.headers ≠ .put := by
        simp only [recordOperation, hop, hreason]
        split <;> simp
      rw [headerVerdict_of_no_expiry hexp, if_neg hne]
    have hslot : Record.recordOperation m.headers ≠ .put ↔ reason ∈ markerReasons := by
      simp only [Record.recordOperation, hop, hreason, markerReasons, List.mem_cons,
        List.not_mem_nil, or_false]
      rw [← or_assoc]
      by_cases h1 : reason = bytes "MaxAge" ∨ reason = bytes "Purge"
      · rw [if_pos h1]
        exact iff_of_true (by decide) (.inl h1)
      rw [if_neg h1, or_iff_right h1]
      by_cases h2 : reason = bytes "Remove"
      · rw [if_pos h2]
        exact iff_of_true (by decide) h2
      · rw [if_neg h2]
        exact iff_of_false (by decide) h2
    unfold Undisputed
    constructor
    · intro h
      refine ⟨reason, hslot.1 fun hput => ?_, rfl⟩
      have hread := h 0
      rw [hheader, slotVerdict_eq, hput] at hread
      simp only [ne_eq, not_true_eq_false, if_false] at hread
      split at hread <;> cases hread
    · rintro ⟨r, hr, rfl⟩ now
      rw [hheader, slotVerdict_eq, if_pos (hslot.2 hr)]

/-- **The records both readers agree on.**  A record this store published is
undisputed, at every clock reading, exactly when its expiry did not wrap to `0`
and its value, if it has no TTL, does not read as an envelope; a marker without
an expiry header exactly when it is plain. -/
theorem verdicts_agree :
    (∀ value clock ttl t, Undisputed (published value (expiryFrom clock ttl) t) ↔
      expiryFrom clock ttl ≠ some 0 ∧ (ttl = none → ¬ Enveloped value)) ∧
    ∀ m : Message, m.headers.get expiresHeader = none →
      (m.headers.get kvOperationHeader ≠ none ∨ m.headers.get natsMarkerReason ≠ none) →
      (Undisputed m ↔ PlainMarker m) := by
  refine ⟨fun value clock ttl t => ?_, fun m hexp hmarker => undisputed_marker hexp hmarker⟩
  rw [undisputed_published]
  simp [expiryFrom]

/-- A delete marker is undisputed. -/
theorem verdicts_agree_delete : Undisputed ⟨[(kvOperationHeader, bytes "DEL")], [], 0⟩ :=
  (verdicts_agree.2 ⟨[(kvOperationHeader, bytes "DEL")], [], 0⟩ (by decide) (by decide)).2
    (.inl ⟨bytes "DEL", rfl, .inl rfl⟩)

/-- A marker with a reason the server does not give is purged by the sweep and
read as a value by `slot`; and a value that begins like an envelope expires for
the one and not for the other. -/
theorem verdicts_agree_disputed :
    headerVerdict 0 [(natsMarkerReason, bytes "Other")] ≠
        slotVerdict 0 ⟨[(natsMarkerReason, bytes "Other")], [], 0⟩ ∧
      headerVerdict 7 (published lookalike (expiryFrom 0 none) 0).headers ≠
        slotVerdict 7 (published lookalike (expiryFrom 0 none) 0) := by
  decide +kernel

end ClusterNats
