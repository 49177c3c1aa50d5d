import ClusterNats.Kv.Agreement

/-!
# What reads and writes establish

One rule for each primitive of the store: what a caller knows after it while
the others go on.

* `Slot.ofRecord` lemmas — a slot is live, dead or empty by its record.
* `SlotRead`, `safe_slot` — a read of a key.
* `PublishStep`, `safe_publishRecord`, `safe_write` — a write.
* `safe_purge` — a removal.
-/

namespace ClusterNats

open Conc

/-! ## Slots -/

theorem ofRecord_some (now : UInt64) (r : Record) : Slot.ofRecord now (some r) =
    if r.operation ≠ .put ∨ isExpiredAt now (decodeValue r.payload).2 = true then
      .dead r.revision
    else .live (decodeValue r.payload).1 (decodeValue r.payload).2 r.revision := by
  by_cases hop : r.operation = .put
  · cases hexp : isExpiredAt now (decodeValue r.payload).2 <;> simp [Slot.ofRecord, hop, hexp]
  · simp [Slot.ofRecord, hop]

theorem Slot.ofRecord_eq_live {now : UInt64} {o : Option Record} {value : Bytes}
    {exp : Option UInt64} {revision : Nat} :
    Slot.ofRecord now o = .live value exp revision ↔ ∃ r, o = some r ∧ r.operation = .put ∧
      decodeValue r.payload = (value, exp) ∧ isExpiredAt now exp = false ∧
      r.revision = revision := by
  cases o with
  | none => simp [Slot.ofRecord]
  | some r =>
    simp only [Slot.ofRecord, Option.some.injEq, exists_eq_left']
    split
    · rename_i hop
      simp [hop]
    · rename_i hop
      split
      · rename_i hexp
        simp only [reduceCtorEq, false_iff]
        rintro ⟨-, hdec, hlive, -⟩
        rw [hdec] at hexp
        simp [hexp] at hlive
      · rename_i hexp
        simp only [Slot.live.injEq, Prod.ext_iff, ne_eq, not_not] at hop ⊢
        constructor
        · rintro ⟨rfl, rfl, rfl⟩
          exact ⟨hop, ⟨rfl, rfl⟩, by simpa using hexp, rfl⟩
        · rintro ⟨-, ⟨rfl, rfl⟩, -, rfl⟩
          exact ⟨rfl, rfl, rfl⟩

theorem Slot.ofRecord_eq_dead {now : UInt64} {o : Option Record} {revision : Nat} :
    Slot.ofRecord now o = .dead revision ↔ ∃ r, o = some r ∧ r.revision = revision ∧
      (r.operation ≠ .put ∨ isExpiredAt now (decodeValue r.payload).2 = true) := by
  cases o with
  | none => simp [Slot.ofRecord]
  | some r =>
    simp only [Slot.ofRecord, Option.some.injEq, exists_eq_left']
    split
    · rename_i hop
      simp [hop]
    · rename_i hop
      split
      · rename_i hexp
        simp [hexp]
      · rename_i hexp
        simp [hop, hexp]

/-- A record that is dead stays dead. -/
theorem Slot.ofRecord_dead_mono {now now' : UInt64} (h : now ≤ now') {o : Option Record}
    {revision : Nat} (hdead : Slot.ofRecord now o = .dead revision) :
    Slot.ofRecord now' o = .dead revision := by
  obtain ⟨r, ho, hrev, hor⟩ := Slot.ofRecord_eq_dead.1 hdead
  refine Slot.ofRecord_eq_dead.2 ⟨r, ho, hrev, ?_⟩
  exact hor.imp_right fun hexp => isExpiredAt_mono h hexp

/-- A record that is live was live before. -/
theorem Slot.ofRecord_live_mono {now now' : UInt64} (h : now ≤ now') {o : Option Record}
    {value : Bytes} {exp : Option UInt64} {revision : Nat}
    (hlive : Slot.ofRecord now' o = .live value exp revision) :
    Slot.ofRecord now o = .live value exp revision := by
  obtain ⟨r, ho, hop, hdec, hexp, hrev⟩ := Slot.ofRecord_eq_live.1 hlive
  refine Slot.ofRecord_eq_live.2 ⟨r, ho, hop, hdec, ?_, hrev⟩
  cases hnow : isExpiredAt now exp with
  | false => rfl
  | true => rw [isExpiredAt_mono h hnow] at hexp; exact absurd hexp (by simp)

/-- What `slot` reads is told by the last record and the clock. -/
theorem Server.slot_congr {s s' : Server} {key : String}
    (hlast : s'.bucket.last (encodeKey key) = s.bucket.last (encodeKey key))
    (hnow : s'.now = s.now) : s'.slot key = s.slot key := by
  rw [Server.slot, Server.slot, hlast, hnow]

theorem Server.live_iff {s : Server} {key : String} :
    s.Live key ↔ ∃ value exp revision, s.slot key = .live value exp revision := by
  unfold Server.Live
  cases s.slot key <;> simp [Slot.found]

theorem Server.not_live_of_empty {s : Server} {key : String}
    (h : s.bucket.last (encodeKey key) = none) : ¬ s.Live key := by
  rw [Server.live_iff, Server.slot, h]
  rintro ⟨value, exp, revision, hlive⟩
  exact absurd hlive (by simp [Slot.ofRecord])

theorem Server.not_live_of_dead {s : Server} {key : String} {revision : Nat}
    (h : s.slot key = .dead revision) : ¬ s.Live key := by
  rw [Server.live_iff, h]
  rintro ⟨value, exp, revision, hlive⟩
  exact absurd hlive (by simp)

/-! ## A read of a key -/

/-- The event of a read of `encoded` at the server state `s`. -/
def readEvent (who : Actor) (encoded : Bytes) (s : Server) : KvEvent :=
  ⟨who, .getLast encoded, .ok (s.bucket.last encoded), s⟩

/-- Between `v₀` and `v`, `who` read `x` of `encoded`: the record at one moment,
the clock at that moment or later. -/
def SlotRead (who : Actor) (encoded : Bytes) (x : Slot) (v₀ v : KvView) : Prop :=
  ∃ s log now, (readEvent who encoded s :: log) <:+ v.log ∧ v₀.log <:+ log ∧
    s.bucket.Evolves v.srv.bucket ∧ s.now ≤ now ∧ now ≤ v.srv.now ∧
    x = .ofRecord now ((s.bucket.last encoded).map Record.ofMessage)

/-- What a write over a slot expects: exactly what was read. -/
def Slot.expect : Slot → Expect
  | .empty => .nothing
  | .dead revision => .revision revision
  | .live _ _ revision => .revision revision

/-- A subject that meets what a read of it expects still holds what was read. -/
theorem last_of_expected {s s' : Server} {encoded : Bytes} {now : UInt64} {x : Slot}
    (hbucket : s.bucket.Evolves s'.bucket)
    (hx : x = .ofRecord now ((s.bucket.last encoded).map Record.ofMessage))
    (hexp : ∀ n ∈ x.expect.lastSequence, s'.bucket.lastSeqOf encoded = n) :
    s'.bucket.last encoded = s.bucket.last encoded := by
  cases hlast : s.bucket.last encoded with
  | none =>
    rw [hlast] at hx
    subst hx
    exact SubjectLog.lastSeqOf_eq_zero.1 (hexp 0 rfl)
  | some m =>
    -- the slot names the record's revision, so the record at it is the one read
    have hrev : x.expect.lastSequence = some m.seq := by
      rw [hx, hlast, Option.map_some, ofRecord_some]
      split <;> rfl
    have hne := Nat.pos_iff_ne_zero.1 (SubjectLog.seq_pos_of_last hlast)
    obtain ⟨m', hm', hseq⟩ := SubjectLog.last_of_lastSeqOf (hexp m.seq hrev) hne
    rw [hm', hbucket.eq_of_seq hlast hm' hseq]

namespace SlotRead

variable {who : Actor} {encoded : Bytes} {x : Slot} {v₀ v v' : KvView}

theorem mono (h : SlotRead who encoded x v₀ v) (hv : Later v v') :
    SlotRead who encoded x v₀ v' := by
  obtain ⟨s, log, now, hlog, hlog₀, hbucket, hnow, hnow', hx⟩ := h
  exact ⟨s, log, now, hlog.trans hv.log, hlog₀, hbucket.trans hv.bucket, hnow,
    UInt64.le_trans hnow' hv.clock, hx⟩

/-- A value that was read was live when its record was read. -/
theorem live_event {key : String} {value : Bytes} {exp : Option UInt64} {revision : Nat}
    (h : SlotRead who (encodeKey key) (.live value exp revision) v₀ v) :
    ∃ s log, (readEvent who (encodeKey key) s :: log) <:+ v.log ∧ v₀.log <:+ log ∧
      s.slot key = .live value exp revision := by
  obtain ⟨s, log, now, hlog, hlog₀, -, hnow, -, hx⟩ := h
  exact ⟨s, log, hlog, hlog₀, Slot.ofRecord_live_mono hnow hx.symm⟩

/-- **A write that meets its expectation replaces what was read.** -/
theorem same_last (h : SlotRead who encoded x v₀ v)
    (hexp : ∀ n ∈ x.expect.lastSequence, v.srv.bucket.lastSeqOf encoded = n) :
    ∃ s log now, (readEvent who encoded s :: log) <:+ v.log ∧ s.now ≤ now ∧
      v.srv.bucket.last encoded = s.bucket.last encoded ∧
      x = .ofRecord now ((s.bucket.last encoded).map Record.ofMessage) := by
  obtain ⟨s, log, now, hlog, -, hbucket, hnow, -, hx⟩ := h
  exact ⟨s, log, now, hlog, hnow, last_of_expected hbucket hx hexp, hx⟩

/-- The record at a revision that was read dead is dead. -/
theorem dead_at {revision : Nat} (h : SlotRead who encoded (.dead revision) v₀ v)
    {m : StoredMessage} (hm : v.srv.bucket.last encoded = some m) (hseq : m.seq = revision) :
    Slot.ofRecord v.srv.now (some (.ofMessage m)) = .dead revision := by
  obtain ⟨s, log, now, -, -, hbucket, -, hnow', hx⟩ := h
  cases hlast : s.bucket.last encoded with
  | none => rw [hlast] at hx; exact absurd hx (by simp [Slot.ofRecord])
  | some m₀ =>
    rw [hlast, Option.map_some] at hx
    obtain ⟨r, hr, hrev, -⟩ := Slot.ofRecord_eq_dead.1 hx.symm
    cases Option.some.inj hr
    have hsame : m = m₀ := hbucket.eq_of_seq hlast hm (hseq.trans hrev.symm)
    rw [hsame]
    exact Slot.ofRecord_dead_mono hnow' hx.symm

/-- A revision that was read is not the empty subject's. -/
theorem revision_pos {revision : Nat} (h : SlotRead who encoded (.dead revision) v₀ v) :
    revision ≠ 0 := by
  obtain ⟨s, log, now, -, -, -, -, -, hx⟩ := h
  obtain ⟨r, hr, hrev, -⟩ := Slot.ofRecord_eq_dead.1 hx.symm
  obtain ⟨m, hm, rfl⟩ := Option.map_eq_some_iff.1 hr
  have := SubjectLog.seq_pos_of_last hm
  rw [← hrev]
  exact Nat.pos_iff_ne_zero.1 this

end SlotRead

section Rules

variable {D : Duty} {api : CounterApi} {op : Op} {who : Actor} {α : Type}
  {Q : List Job → Except ClusterError α → KvView → Prop} {js : List Job} {v : KvView}

/-- An early return is checked where its error is accepted. -/
theorem safe_fail {e : ClusterError} (h : ∀ v', D.rules.rely v v' → Q js (.error e) v') :
    D.rules.Safe (kvSystem api) op who Q (.fail e) js v := h

/-- The answer to a read of the last record of a subject. -/
theorem step_getLast {encoded : Bytes} {x : Resp (.getLast encoded)} {v₁ v₂ : KvView}
    (h : Step D who (.getLast encoded) v₁ x v₂) :
    (x = Except.ok (v₁.srv.bucket.last encoded) ∧
        v₂.log = readEvent who encoded v₁.srv :: v₁.log) ∨ ∃ e, x = Except.error e := by
  obtain ⟨m, -, hx, hlog⟩ := h
  obtain ⟨y, hy, hxy⟩ := Option.map_eq_some_iff.1 hx
  have hyx : y = x := (Prod.mk.inj hxy).1
  unfold readOnly at hy
  split at hy
  · cases Option.some.inj hy
    subst hyx
    exact .inl ⟨rfl, hlog⟩
  · exact .inr ⟨_, hyx ▸ (Option.some.inj hy).symm⟩
  · exact .inr ⟨_, hyx ▸ (Option.some.inj hy).symm⟩
  · exact absurd hy (by simp)

/-- `last_record`. -/
theorem safe_lastRecord (hD : D.Steady) {encoded : Bytes}
    {f : Except String (Option Record) → Kv α}
    (hok : ∀ v₁ v₂, D.rules.rely v v₁ → v₂.srv = v₁.srv → D.rules.rely v₁ v₂ →
      v₂.log = readEvent who encoded v₁.srv :: v₁.log →
      D.rules.Safe (kvSystem api) op who Q
        (f (.ok ((v₁.srv.bucket.last encoded).map Record.ofMessage))) js v₂)
    (herr : ∀ e v', D.rules.rely v v' →
      D.rules.Safe (kvSystem api) op who Q (f (.error e)) js v') :
    D.rules.Safe (kvSystem api) op who Q (lastRecord encoded >>= f) js v := by
  refine safe_read (r := .getLast encoded) hD rfl fun v₁ x v₂ hv hstep hsrv hv₂ => ?_
  rcases step_getLast hstep with ⟨rfl, hlog⟩ | ⟨e, rfl⟩
  · exact hok v₁ v₂ hv hsrv hv₂ hlog
  · exact herr e v₂ (Duty.rely_trans hv hv₂)

/-- `is_expired`: the clock is read only when there is an expiry. -/
theorem safe_isExpired (hD : D.Steady) {exp : Option UInt64} {f : Bool → Kv α}
    (h : ∀ now v', D.rules.rely v v' → v.srv.now ≤ now → now ≤ v'.srv.now →
      D.rules.Safe (kvSystem api) op who Q (f (isExpiredAt now exp)) js v') :
    D.rules.Safe (kvSystem api) op who Q (isExpired exp >>= f) js v := by
  cases exp with
  | none => exact h v.srv.now v (Duty.rely_refl v) (UInt64.le_refl _) (UInt64.le_refl _)
  | some s =>
    rw [isExpired, bind_assoc]
    exact safe_now hD fun v' hv => h v'.srv.now v' hv hv.1.clock (UInt64.le_refl _)

theorem slotOf_some (r : Record) : slotOf (some r) =
    if r.operation ≠ .put then Prog.ret (.dead r.revision)
    else isExpired (decodeValue r.payload).2 >>= fun expired =>
      if expired then Prog.ret (.dead r.revision)
      else Prog.ret (.live (decodeValue r.payload).1 (decodeValue r.payload).2 r.revision) := rfl

/-- A record, judged by the clock. -/
theorem safe_slotOf (hD : D.Steady) {o : Option Record} {f : Slot → Kv α}
    (h : ∀ now v', D.rules.rely v v' → v.srv.now ≤ now → now ≤ v'.srv.now →
      D.rules.Safe (kvSystem api) op who Q (f (.ofRecord now o)) js v') :
    D.rules.Safe (kvSystem api) op who Q (slotOf o >>= f) js v := by
  have hnow := h v.srv.now v (Duty.rely_refl v) (UInt64.le_refl _) (UInt64.le_refl _)
  cases o with
  | none => exact hnow
  | some r =>
    rw [slotOf_some]
    simp only [Slot.ofRecord] at h hnow
    split
    · rename_i hop
      rw [if_pos hop] at hnow
      exact hnow
    · rename_i hop
      simp only [if_neg hop] at h
      rw [bind_assoc]
      refine safe_isExpired hD fun now v' hv' hnow hnow' => ?_
      have hsafe := h now v' hv' hnow hnow'
      by_cases hexp : isExpiredAt now (decodeValue r.payload).2 = true
      · rw [if_pos hexp] at hsafe ⊢
        exact hsafe
      · rw [if_neg hexp] at hsafe ⊢
        exact hsafe

/-- A read of a key. -/
theorem safe_slot (hD : D.Steady) {encoded : Bytes} {key : String} {f : Slot → Kv α}
    (hok : ∀ x v', D.rules.rely v v' → SlotRead who encoded x v v' →
      D.rules.Safe (kvSystem api) op who Q (f x) js v')
    (herr : ∀ e v', D.rules.rely v v' → Q js (.error e) v') :
    D.rules.Safe (kvSystem api) op who Q (slot encoded key >>= f) js v := by
  rw [slot, bind_assoc]
  refine safe_lastRecord hD (fun v₁ v₂ hv hsrv hv₂ hlog => ?_) fun e v' hv v'' hv' => ?_
  · refine safe_slotOf hD fun now v' hv' hnow hnow' => ?_
    refine hok _ v' (Duty.rely_trans hv (Duty.rely_trans hv₂ hv')) ?_
    refine ⟨v₁.srv, v₁.log, now, ?_, hv.1.log, ?_, hsrv ▸ hnow, hnow', rfl⟩
    · rw [← hlog]
      exact hv'.1.log
    · exact hsrv ▸ hv'.1.bucket
  · exact herr _ v'' (Duty.rely_trans hv hv')

/-! ## A write -/

/-- The event of a value stored under a key. -/
def storedEvent (who : Actor) (key : String) (value : Bytes) (exp : Option UInt64)
    (expected : Option Nat) (seq : Nat) (s : Server) : KvEvent :=
  ⟨who, .publish (encodeKey key) [(expiresHeader, renderU64 (exp.getD 0))] (encodeValue value exp)
    expected, .ok (.ok seq), s⟩

/-- A publish was served between two views, and its acknowledgement says `ack`. -/
structure PublishStep (who : Actor) (subject : Bytes) (headers : HeaderMap) (payload : Bytes)
    (expected : Option Nat) (v : KvView) (ack : PendingWrite) (v' : KvView) : Prop where
  log : v'.log = ⟨who, .publish subject headers payload expected, .ok ack, v.srv⟩ :: v.log
  loc : v'.loc = v.loc
  /-- A stored record met its expectation. -/
  stored : ∀ seq, ack = .ok seq →
    (∀ n ∈ expected, v.srv.bucket.lastSeqOf subject = n) ∧
      v'.srv = { v.srv with bucket := v.srv.bucket.store subject ⟨headers, payload, v.srv.clock⟩ }
  /-- A conflict changed nothing. -/
  conflict : ack.done = .error .conflict →
    v'.srv = v.srv ∧ ∃ n ∈ expected, v.srv.bucket.lastSeqOf subject ≠ n

@[simp] theorem done_eq_ok {ack : PendingWrite} {seq : Nat} : ack.done = .ok seq ↔ ack = .ok seq := by
  cases ack with
  | ok n => simp [PendingWrite.done]
  | error e =>
    rw [PendingWrite.done]
    split <;> simp

theorem done_of_server (since214 : Bool) (text : String) :
    PendingWrite.done (.error ⟨some (lostCasCode since214), text⟩) = .error .conflict := by
  cases since214 <;> rfl

theorem done_of_failure (text : String) : PendingWrite.done (.error ⟨none, text⟩) =
    .error (.failed (.backendUnavailable s!"nats kv write: {text}")) := rfl

/-- What the server's publish does, stored or not. -/
theorem publish_cases (s : Server) (subject : Bytes) (headers : HeaderMap) (payload : Bytes)
    (expected : Option Nat) :
    ((∀ n ∈ expected, s.bucket.lastSeqOf subject = n) ∧
      s.publish subject headers payload expected = (.ok (s.bucket.lastSeq + 1),
        { s with bucket := s.bucket.store subject ⟨headers, payload, s.clock⟩ })) ∨
    ((∃ n ∈ expected, s.bucket.lastSeqOf subject ≠ n) ∧
      s.publish subject headers payload expected =
        (.error ⟨some (lostCasCode s.since214), "wrong last sequence"⟩, s)) := by
  by_cases h : ∀ n ∈ expected, s.bucket.lastSeqOf subject = n
  · refine .inl ⟨h, ?_⟩
    rw [Server.publish, SubjectLog.storeIf, if_pos h]
    rfl
  · refine .inr ⟨by simpa using h, ?_⟩
    rw [Server.publish, SubjectLog.storeIf, if_neg h]

/-- An index record that was published is there, new or old. -/
theorem indexed_publish {s : Server} {key : String} (headers : HeaderMap) (payload : Bytes) :
    (s.publish (indexKey key) headers payload (some 0)).2.Indexed key := by
  rcases publish_cases s (indexKey key) headers payload (some 0) with ⟨-, heq⟩ | ⟨⟨n, hn, hne⟩, heq⟩
  · rw [heq, Server.Indexed, SubjectLog.last_store_self]
    rfl
  · rw [heq, Server.Indexed, Option.isSome_iff_ne_none]
    cases Option.some.inj hn
    exact fun hnone => hne (SubjectLog.lastSeqOf_eq_zero.2 hnone)

/-- Does the request write or remove records of a subject? -/
def Req.touches (subject : Bytes) : Req → Bool
  | .publish s _ _ _ => s = subject
  | .purge s _ => s = subject
  | _ => false

/-- A request that does not touch a subject leaves its last record. -/
theorem effect_last_of_not_touches {s : Server} {r : Req} {subject : Bytes}
    (h : r.touches subject = false) :
    (r.effect s).bucket.last subject = s.bucket.last subject := by
  cases r with
  | publish subject' headers payload expected =>
    have hne : subject ≠ subject' := fun heq => by simp [Req.touches, heq] at h
    rcases publish_cases s subject' headers payload expected with ⟨-, heq⟩ | ⟨-, heq⟩
    · rw [Req.effect, heq]
      exact SubjectLog.last_store_ne hne
    · rw [Req.effect, heq]
  | purge subject' keep =>
    have hne : subject ≠ subject' := fun heq => by simp [Req.touches, heq] at h
    exact SubjectLog.last_purge_ne hne
  | _ => rfl

/-- A key whose record is a value is live until the value's expiry. -/
theorem Server.expired_of_not_live {s : Server} {key : String} {m : StoredMessage}
    (hm : s.bucket.last (encodeKey key) = some m)
    (hput : Record.recordOperation m.body.headers = .put) (h : ¬ s.Live key) :
    isExpiredAt s.now (decodeValue m.body.payload).2 = true := by
  by_contra hexp
  apply h
  refine Server.live_iff.2 ⟨_, _, _, Slot.ofRecord_eq_live.2 ⟨.ofMessage m, ?_, hput, rfl, ?_, rfl⟩⟩
  · rw [hm]
    rfl
  · exact Bool.eq_false_iff.2 hexp

/-- What `publish` stores reads as a value. -/
@[simp] theorem recordOperation_published (exp : Bytes) :
    Record.recordOperation [(expiresHeader, exp)] = .put := rfl

/-- The server stored what it acknowledged. -/
theorem serve_stored {m : Mode} {s s' : Server} {c c' : Option Consumer} {subject : Bytes}
    {headers : HeaderMap} {payload : Bytes} {expected : Option Nat} {seq : Nat}
    (h : serve m s c (.publish subject headers payload expected) =
      some (Except.ok (Except.ok seq), s', c')) :
    (∀ n ∈ expected, s.bucket.lastSeqOf subject = n) ∧ seq = s.bucket.lastSeq + 1 ∧
      s' = { s with bucket := s.bucket.store subject ⟨headers, payload, s.clock⟩ } := by
  cases m with
  | ok =>
    obtain ⟨hx, hrest⟩ := Prod.mk.inj (Option.some.inj h)
    have hsrv := (Prod.mk.inj hrest).1
    rcases publish_cases s subject headers payload expected with ⟨hexp, heq⟩ | ⟨-, heq⟩
    · rw [heq] at hx hsrv
      exact ⟨hexp, (Except.ok.inj (Except.ok.inj hx)).symm, hsrv.symm⟩
    · rw [heq] at hx
      exact absurd (Except.ok.inj hx) (by simp)
  | fail reason => exact absurd (Except.ok.inj (Prod.mk.inj (Option.some.inj h)).1) (by simp)
  | lost reason => exact absurd (Except.ok.inj (Prod.mk.inj (Option.some.inj h)).1) (by simp)
  | unsent reason => exact absurd (Prod.mk.inj (Option.some.inj h)).1 (by simp)
  | _ => exact absurd h (by simp [serve])

/-- The answer to a publish. -/
theorem step_publish {subject : Bytes} {headers : HeaderMap} {payload : Bytes}
    {expected : Option Nat} {x : Resp (.publish subject headers payload expected)} {v₁ v₂ : KvView}
    (h : Step D who (.publish subject headers payload expected) v₁ x v₂) :
    (∃ ack, x = Except.ok ack ∧ PublishStep who subject headers payload expected v₁ ack v₂) ∨
      ∃ e, x = Except.error e := by
  obtain ⟨m, -, hx, hlog⟩ := h
  cases m with
  | ok =>
    obtain ⟨hx, hrest⟩ := Prod.mk.inj (Option.some.inj hx)
    obtain ⟨hsrv, hloc⟩ := Prod.mk.inj hrest
    subst hx
    refine .inl ⟨_, rfl, hlog, hloc.symm, ?_, ?_⟩
    · intro seq hack
      rcases publish_cases v₁.srv subject headers payload expected with ⟨hexp, heq⟩ | ⟨-, heq⟩
      · exact ⟨hexp, by rw [← hsrv, heq]⟩
      · rw [heq] at hack
        exact absurd hack (by simp)
    · intro hack
      rcases publish_cases v₁.srv subject headers payload expected with ⟨-, heq⟩ | ⟨hexp, heq⟩
      · rw [heq] at hack
        exact absurd hack (by simp [PendingWrite.done])
      · exact ⟨by rw [← hsrv, heq], hexp⟩
  | fail reason =>
    obtain ⟨hx, hrest⟩ := Prod.mk.inj (Option.some.inj hx)
    subst hx
    refine .inl ⟨_, rfl, hlog, (Prod.mk.inj hrest).2.symm, ?_, ?_⟩
    · exact fun seq hack => absurd hack (by simp)
    · exact fun hack => absurd hack (by simp [done_of_failure])
  | lost reason =>
    obtain ⟨hx, hrest⟩ := Prod.mk.inj (Option.some.inj hx)
    subst hx
    refine .inl ⟨_, rfl, hlog, (Prod.mk.inj hrest).2.symm, ?_, ?_⟩
    · exact fun seq hack => absurd hack (by simp)
    · exact fun hack => absurd hack (by simp [done_of_failure])
  | unsent reason => exact .inr ⟨reason, (Prod.mk.inj (Option.some.inj hx)).1.symm⟩
  | _ => exact absurd hx (by simp [serve])

/-- A write, up to its acknowledgement. -/
theorem safe_publishRecord (hD : D.Steady) {subject : Bytes} {headers : HeaderMap}
    {payload : Bytes} {expected : Option Nat} {f : PendingWrite → Kv α}
    (hwrite : ∀ v₁, D.rules.rely v v₁ →
      D.write op who v₁.srv v₁.log (.publish subject headers payload expected))
    (hok : ∀ v₁ ack v₂, D.rules.rely v v₁ → D.rules.rely v₁ v₂ →
      PublishStep who subject headers payload expected v₁ ack v₂ →
      D.rules.Safe (kvSystem api) op who Q (f ack) js v₂)
    (herr : ∀ e v', D.rules.rely v v' → Q js (.error e) v') :
    D.rules.Safe (kvSystem api) op who Q (publishRecord subject headers payload expected >>= f)
      js v := by
  refine safe_req (r := .publish subject headers payload expected) hD (fun v₁ hv _ => hwrite v₁ hv)
    fun v₁ x v₂ hv hstep hv₂ => ?_
  rcases step_publish hstep with ⟨ack, rfl, hpub⟩ | ⟨e, rfl⟩
  · exact hok v₁ ack v₂ hv hv₂ hpub
  · exact fun v' hv' => herr _ v' (Duty.rely_trans hv (Duty.rely_trans hv₂ hv'))

/-- A write and its acknowledgement. -/
theorem safe_write (hD : D.Steady) {encoded value : Bytes} {exp : Option UInt64}
    {expect : Expect} {f : Except WriteError Nat → Kv α}
    (hwrite : ∀ v₁, D.rules.rely v v₁ → D.write op who v₁.srv v₁.log
      (.publish encoded [(expiresHeader, renderU64 (exp.getD 0))] (encodeValue value exp)
        expect.lastSequence))
    (hok : ∀ v₁ ack v₂, D.rules.rely v v₁ → D.rules.rely v₁ v₂ →
      PublishStep who encoded [(expiresHeader, renderU64 (exp.getD 0))] (encodeValue value exp)
        expect.lastSequence v₁ ack v₂ →
      D.rules.Safe (kvSystem api) op who Q (f ack.done) js v₂)
    (herr : ∀ e v', D.rules.rely v v' →
      D.rules.Safe (kvSystem api) op who Q (f (.error (.failed e))) js v') :
    D.rules.Safe (kvSystem api) op who Q (write encoded value exp expect >>= f) js v := by
  refine safe_req (r := .publish encoded [(expiresHeader, renderU64 (exp.getD 0))]
    (encodeValue value exp) expect.lastSequence) hD (fun v₁ hv _ => hwrite v₁ hv)
    fun v₁ x v₂ hv hstep hv₂ => ?_
  rcases step_publish hstep with ⟨ack, rfl, hpub⟩ | ⟨e, rfl⟩
  · exact hok v₁ ack v₂ hv hv₂ hpub
  · exact herr _ v₂ (Duty.rely_trans hv hv₂)

/-- A removal. -/
theorem safe_purge (hD : D.Steady) {subject : Bytes} {keep : Option Nat}
    {describe : String → String} {f : Unit → Kv α}
    (hwrite : ∀ v₁, D.rules.rely v v₁ → D.write op who v₁.srv v₁.log (.purge subject keep))
    (hok : ∀ v', D.rules.rely v v' → D.rules.Safe (kvSystem api) op who Q (f ()) js v')
    (herr : ∀ e v', D.rules.rely v v' → Q js (.error e) v') :
    D.rules.Safe (kvSystem api) op who Q
      ((Prog.req (.purge subject keep) fun (x : Except String Unit) =>
        orUnavailable describe x) >>= f) js v := by
  refine safe_req (r := .purge subject keep) hD (fun v₁ hv _ => hwrite v₁ hv)
    fun v₁ x v₂ hv hstep hv₂ => ?_
  have hrely := Duty.rely_trans hv hv₂
  have hx : x = Except.ok () ∨ ∃ e, x = Except.error e := by
    cases (show Except String Unit from x) with
    | ok u => exact .inl rfl
    | error e => exact .inr ⟨e, rfl⟩
  rcases hx with rfl | ⟨e, rfl⟩
  · exact hok v₂ hrely
  · exact fun v' hv' => herr _ v' (Duty.rely_trans hrely hv')

end Rules

end ClusterNats
