import ClusterNats.Kv.Alone
import ClusterNats.Kv.Counter
import ClusterNats.Kv.Index

/-!
# A sweep is invisible to reads

A sweep decides by the headers it scanned, minutes before it removes anything;
`get` decides by the payload.  While a sweep runs beside any other calls, none
of its steps changes what `get` answers.

* `RecordKind`, `Server.WellFormed` — the records a bucket holds.
* `DeadThrough`, `Scanned` — what a sweep knows about a record it removes.
* `Invisible`, `sweepDuty` — what a request of a sweep owes.
* `removeDead_safe`, `settleLegacy_safe`, `sweepScan_safe`, `sweep_safe` — the
  programs of a sweep keep it.
* `sweep_run` — every run does.
* `sweep_invisible` — no step of a sweep changes what `get` answers.
-/

namespace ClusterNats

open Conc

/-! ## The records of a bucket -/

/-- The kinds of records a bucket holds under a data key. -/
inductive RecordKind (m : Message) : Prop
  /-- This build wrote it. -/
  | current (value : Bytes) (exp : Option UInt64)
      (headers : m.headers = [(expiresHeader, renderU64 (exp.getD 0))])
      (payload : m.payload = encodeValue value exp)
  /-- An older build wrote it: the expiry is in the envelope only. -/
  | older (expires : m.headers.get expiresHeader = none)
      (operation : m.headers.get kvOperationHeader = none)
      (reason : m.headers.get natsMarkerReason = none)
  /-- A client's delete or purge marker. -/
  | clientMarker (operation : m.headers.get kvOperationHeader = some (bytes "DEL") ∨
      m.headers.get kvOperationHeader = some (bytes "PURGE"))
  /-- A marker the server placed. -/
  | serverMarker (operation : m.headers.get kvOperationHeader = none)
      (reason : ∃ r ∈ ["MaxAge", "Purge", "Remove"], m.headers.get natsMarkerReason = some (bytes r))

/-- Every record under a data key is of a kind that this store knows. -/
def Server.WellFormed (s : Server) : Prop :=
  ∀ key m, s.bucket.last (encodeKey key) = some m → RecordKind m.body

theorem emptyServer_wellFormed : emptyServer.WellFormed := by
  intro key m hm
  cases hm

/-- The headers of a message say about it what its payload says. -/
structure Message.Agrees (m : Message) : Prop where
  marker : recordOperation m.headers ≠ .put → Record.recordOperation m.headers ≠ .put
  expiry : ∀ at_, recordOperation m.headers = .put → headerExpiry m.headers = some at_ → at_ ≠ 0 →
    (decodeValue m.payload).2 = some at_

/-- **Every kind of record has headers that agree with its payload.** -/
theorem RecordKind.agrees {m : Message} (h : RecordKind m) : m.Agrees := by
  cases h with
  | current value exp headers payload =>
    refine ⟨fun hop => absurd (by rw [headers]; rfl) hop, fun at_ _ hexp hne => ?_⟩
    have hparse : headerExpiry m.headers = some (exp.getD 0) := by
      rw [headers]
      exact parseU64_renderU64 _
    rw [hparse] at hexp
    cases exp with
    | none => exact absurd (Option.some.inj hexp).symm hne
    | some secs =>
      rw [payload, decodeValue_envelope]
      exact hexp
  | older expires operation reason =>
    refine ⟨fun hop => absurd ?_ hop, fun at_ _ hexp => ?_⟩
    · rw [recordOperation, operation, reason]
    · rw [headerExpiry, expires] at hexp
      exact absurd hexp (by simp)
  | clientMarker operation =>
    have hne : recordOperation m.headers ≠ .put ∧ Record.recordOperation m.headers ≠ .put := by
      unfold recordOperation Record.recordOperation
      rcases operation with h | h
      all_goals
        rw [h]
        dsimp only
        decide +kernel
    exact ⟨fun _ => hne.2, fun at_ hop => absurd hop hne.1⟩
  | serverMarker operation reason =>
    obtain ⟨r, hr, hreason⟩ := reason
    have hne : recordOperation m.headers ≠ .put ∧ Record.recordOperation m.headers ≠ .put := by
      unfold recordOperation Record.recordOperation
      rw [operation, hreason]
      simp only [List.mem_cons, List.not_mem_nil, or_false] at hr
      dsimp only
      rcases hr with rfl | rfl | rfl
      all_goals decide +kernel
    exact ⟨fun _ => hne.2, fun at_ hop => absurd hop hne.1⟩

/-- A message published by this build. -/
theorem agrees_published (value : Bytes) (exp : Option UInt64) (t : Instant) :
    Message.Agrees ⟨[(expiresHeader, renderU64 (exp.getD 0))], encodeValue value exp, t⟩ :=
  RecordKind.agrees (.current value exp rfl rfl)

/-- The headers of every record under a data key agree with its payload. -/
def Server.Agrees (s : Server) : Prop :=
  ∀ key m, s.bucket.last (encodeKey key) = some m → m.body.Agrees

theorem Server.WellFormed.agrees {s : Server} (h : s.WellFormed) : s.Agrees :=
  fun key m hm => (h key m hm).agrees

/-- A request that keeps headers and payloads in agreement. -/
def Req.Agrees : Req → Prop
  | .publish subject headers payload _ => ∀ key, subject = encodeKey key →
      ∀ t, Message.Agrees ⟨headers, payload, t⟩
  | _ => True

/-- The calls keep headers and payloads in agreement. -/
theorem asks_agrees : Asks Req.Agrees where
  read r hr := by cases r <;> trivial
  value _ value exp _ _ _ t := agrees_published value exp t
  marker _ _ _ _ := RecordKind.agrees (.clientMarker (.inl rfl))
  purge _ _ := trivial

theorem Server.Agrees.effect {s : Server} (h : s.Agrees) {r : Req} (hr : r.Agrees) :
    (r.effect s).Agrees := by
  intro key m hm
  cases r with
  | publish subject headers payload expected =>
    rcases publish_cases s subject headers payload expected with ⟨-, heq⟩ | ⟨-, heq⟩
    · rw [Req.effect, heq] at hm
      by_cases hsub : encodeKey key = subject
      · subst hsub
        rw [SubjectLog.last_store_self] at hm
        cases Option.some.inj hm
        exact hr key rfl s.clock
      · exact h key m ((SubjectLog.last_store_ne hsub).symm.trans hm)
    · rw [Req.effect, heq] at hm
      exact h key m hm
  | purge subject keep => exact h key m (SubjectLog.last_of_last_purge hm)
  | _ => exact h key m hm

/-! ## What a sweep knows -/

/-- What `get` makes of a record. -/
def StoredMessage.entryAt (now : UInt64) (m : StoredMessage) : Option Entry :=
  (Slot.ofRecord now (some (.ofMessage m))).found

theorem entryAt_eq (now : UInt64) (m : StoredMessage) : StoredMessage.entryAt now m =
    if Record.recordOperation m.body.headers = .put ∧
        isExpiredAt now (decodeValue m.body.payload).2 = false then
      some ⟨(decodeValue m.body.payload).1, (decodeValue m.body.payload).2⟩
    else none := by
  by_cases hop : Record.recordOperation m.body.headers = .put
  · cases hexp : isExpiredAt now (decodeValue m.body.payload).2 <;>
      simp [StoredMessage.entryAt, Slot.ofRecord, Record.ofMessage, hop, hexp, Slot.found]
  · simp [StoredMessage.entryAt, Slot.ofRecord, Record.ofMessage, hop, Slot.found]

theorem entryAt_eq_none {now : UInt64} {m : StoredMessage} : StoredMessage.entryAt now m = none ↔
    Record.recordOperation m.body.headers ≠ .put ∨
      isExpiredAt now (decodeValue m.body.payload).2 = true := by
  rw [entryAt_eq]
  split
  · rename_i h
    simp [h.1, h.2]
  · rename_i h
    rw [not_and_or, Bool.not_eq_false] at h
    simpa using h

theorem entryAt_none_mono {now now' : UInt64} (h : now ≤ now') {m : StoredMessage}
    (hm : StoredMessage.entryAt now m = none) : StoredMessage.entryAt now' m = none :=
  entryAt_eq_none.2 ((entryAt_eq_none.1 hm).imp_right (isExpiredAt_mono h))

/-- What `get` answers is what it makes of the last record. -/
theorem found_slot (s : Server) (key : String) : (s.slot key).found =
    (s.bucket.last (encodeKey key)).bind (StoredMessage.entryAt s.now) := by
  rw [Server.slot]
  cases s.bucket.last (encodeKey key) <;> rfl

/-- A key is live by its record. -/
theorem Server.live_iff_last {s : Server} {key : String} {m : StoredMessage}
    (h : s.bucket.last (encodeKey key) = some m) :
    s.Live key ↔ Record.recordOperation m.body.headers = .put ∧
      isExpiredAt s.now (decodeValue m.body.payload).2 = false := by
  rw [Server.Live, found_slot, h, Option.bind_some, entryAt_eq]
  split <;> simp_all

/-- What a data subject holds up to a sequence is the record at it, and no
value. -/
def DeadThrough (s : Server) (subject : Bytes) (seq : Nat) : Prop :=
  seq ≤ s.bucket.lastSeq ∧ ∀ key, subject = encodeKey key → ∀ m,
    s.bucket.last subject = some m → m.seq ≤ seq →
      m.seq = seq ∧ StoredMessage.entryAt s.now m = none

/-- Thread `t` was handed the record at a sequence of a subject by its stream,
which was in the bucket then. -/
def Scanned (t : Nat) (subject : Bytes) (seq : Nat) (log : List KvEvent) : Prop :=
  ∃ d s, (⟨.main t, .nextRecord, NextRecord.record d, s⟩ : KvEvent) ∈ log ∧ d.subject = subject ∧
    d.streamSequence = seq ∧ seq ≤ s.bucket.lastSeq

section Known

variable {v v' : KvView} {subject : Bytes} {seq : Nat}

theorem DeadThrough.mono (h : DeadThrough v.srv subject seq) (hv : Later v v') :
    DeadThrough v'.srv subject seq := by
  refine ⟨h.1.trans hv.bucket.1, fun key hkey m hm hle => ?_⟩
  obtain ⟨hseq, hdead⟩ := h.2 key hkey m (hv.bucket.2 _ m hm (hle.trans h.1)) hle
  exact ⟨hseq, entryAt_none_mono hv.clock hdead⟩

theorem Scanned.mono {t : Nat} (h : Scanned t subject seq v.log) (hv : Later v v') :
    Scanned t subject seq v'.log := by
  obtain ⟨d, s, hmem, hd⟩ := h
  exact ⟨d, s, hv.log.subset hmem, hd⟩

/-- **The headers decide as the payload does.**  A record that a scan finds
dead, by a clock reading from before, reads as no value. -/
theorem deadThrough_of_seen {s : Server} {d : Delivered} (hs : s.Agrees) (hd : Seen s d)
    {now : UInt64} (hnow : now ≤ s.now)
    (hdead : recordOperation d.headers ≠ .put ∨
      ∃ at_, recordOperation d.headers = .put ∧ headerExpiry d.headers = some at_ ∧ at_ ≠ 0 ∧
        at_ ≤ now) :
    DeadThrough s d.subject d.streamSequence := by
  refine ⟨hd.1, fun key hkey m hm hle => ?_⟩
  obtain ⟨hseq, hheaders⟩ := hd.2 m hm hle
  have hagrees := hs key m (hkey ▸ hm)
  refine ⟨hseq, entryAt_eq_none.2 ?_⟩
  rw [← hheaders] at hdead
  rcases hdead with hop | ⟨at_, hop, hexp, hne, hle⟩
  · exact .inl (hagrees.marker hop)
  · refine .inr ?_
    rw [hagrees.expiry at_ hop hexp hne]
    simpa [isExpiredAt] using UInt64.le_trans hle hnow

end Known

/-! ## The duty of a sweep -/

/-- A request that changes no answer of `get`, and removes or overwrites only
what thread `t` scanned. -/
structure Invisible (t : Nat) (s : Server) (log : List KvEvent) (r : Req) : Prop where
  entry : ∀ key, ((r.effect s).slot key).found = (s.slot key).found
  scanned : ∀ key m, s.bucket.last (encodeKey key) = some m →
    (r.effect s).bucket.last (encodeKey key) = some m ∨ Scanned t (encodeKey key) m.seq log

/-- A request that touches the record of no data key. -/
theorem invisible_of_not_touches {t : Nat} {s : Server} {log : List KvEvent} {r : Req}
    (h : ∀ key, r.touches (encodeKey key) = false) : Invisible t s log r where
  entry key := by
    rw [found_slot, found_slot, effect_last_of_not_touches (h key), Server.now, Server.now,
      effect_clock]
  scanned key m hm := .inl ((effect_last_of_not_touches (h key)).trans hm)

theorem invisible_of_indexOnly {t : Nat} {s : Server} {log : List KvEvent} {r : Req} {key : String}
    (h : IndexOnly key r) : Invisible t s log r := by
  refine invisible_of_not_touches fun key' => ?_
  cases r with
  | publish subject headers payload expected =>
    have hsub : subject = indexKey key := h
    simpa [Req.touches, hsub] using (encodeKey_ne_indexKey key' key).symm
  | purge subject keep =>
    have hsub : subject = indexKey key := h
    simpa [Req.touches, hsub] using (encodeKey_ne_indexKey key' key).symm
  | _ => rfl

theorem agrees_of_indexOnly {r : Req} {key : String} (h : IndexOnly key r) : r.Agrees := by
  cases r with
  | publish subject headers payload expected =>
    intro key' hkey'
    have hsub : subject = indexKey key := h
    exact absurd (hkey'.symm.trans hsub) (encodeKey_ne_indexKey key' key)
  | _ => trivial

/-- Removing the records of a subject that are dead. -/
theorem invisible_purgeThrough {t : Nat} {s : Server} {log : List KvEvent} {subject : Bytes}
    {seq : Nat} (hdead : DeadThrough s subject seq) (hscan : Scanned t subject seq log) :
    Invisible t s log (.purge subject (some (seq + 1))) := by
  have hkept : ∀ key m, subject = encodeKey key → s.bucket.last (encodeKey key) = some m →
      (s.bucket.purge subject (some (seq + 1))).last (encodeKey key) =
        if seq + 1 ≤ m.seq then some m else none := by
    rintro key m rfl hm
    rw [SubjectLog.last_purge_self, hm]
    simp [Option.filter]
  constructor
  · intro key
    rw [found_slot, found_slot]
    show ((s.bucket.purge subject (some (seq + 1))).last (encodeKey key)).bind _ = _
    by_cases hsub : encodeKey key = subject
    · cases hm : s.bucket.last (encodeKey key) with
      | none =>
        subst hsub
        rw [SubjectLog.last_purge_self, hm]
        rfl
      | some m =>
        rw [hkept key m hsub.symm hm]
        split
        · rfl
        · rename_i hlt
          exact (hdead.2 key hsub.symm m (hsub ▸ hm) (by omega)).2.symm
    · rw [SubjectLog.last_purge_ne hsub]
      rfl
  · intro key m hm
    show (s.bucket.purge subject (some (seq + 1))).last (encodeKey key) = some m ∨ _
    by_cases hsub : encodeKey key = subject
    · rw [hkept key m hsub.symm hm]
      by_cases hle : seq + 1 ≤ m.seq
      · exact .inl (if_pos hle)
      · have hseq := (hdead.2 key hsub.symm m (hsub ▸ hm) (by omega)).1
        exact .inr (by rw [hsub, hseq]; exact hscan)
    · exact .inl ((SubjectLog.last_purge_ne hsub).trans hm)

/-- Rewriting the record at a sequence with what it holds. -/
theorem invisible_rewrite {t : Nat} {s : Server} {log : List KvEvent} {subject value : Bytes}
    {exp : Option UInt64} {seq : Nat} (hseq : seq ≠ 0)
    (hsame : ∀ m, s.bucket.last subject = some m → m.seq = seq →
      Record.recordOperation m.body.headers = .put ∧ m.body.payload = encodeValue value exp)
    (hscan : Scanned t subject seq log) :
    Invisible t s log (.publish subject [(expiresHeader, renderU64 (exp.getD 0))]
      (encodeValue value exp) (some seq)) := by
  rcases publish_cases s subject [(expiresHeader, renderU64 (exp.getD 0))] (encodeValue value exp)
    (some seq) with ⟨hexp, heq⟩ | ⟨-, heq⟩
  · obtain ⟨m, hm, hmseq⟩ := SubjectLog.last_of_lastSeqOf (hexp seq rfl) hseq
    obtain ⟨hop, hpayload⟩ := hsame m hm hmseq
    constructor
    · intro key
      rw [found_slot, found_slot, Req.effect, heq]
      by_cases hsub : encodeKey key = subject
      · subst hsub
        rw [SubjectLog.last_store_self, hm]
        simp only [Option.bind_some, entryAt_eq, recordOperation_published, hop, hpayload, Server.now]
      · rw [SubjectLog.last_store_ne hsub]
        rfl
    · intro key m' hm'
      rw [Req.effect, heq]
      by_cases hsub : encodeKey key = subject
      · subst hsub
        rw [hm] at hm'
        cases Option.some.inj hm'
        exact .inr (hmseq ▸ hscan)
      · exact .inl ((SubjectLog.last_store_ne hsub).trans hm')
  · constructor
    · intro key
      rw [Req.effect, heq]
    · intro key m' hm'
      rw [Req.effect, heq]
      exact .inl hm'

/-- Is the call a sweep or a backfill of the index? -/
def Op.maintains : Op → Bool
  | .sweep .. => true
  | .backfillIndex _ => true
  | _ => false

/-- Every request keeps headers and payloads in agreement, and one of the
bucket's maintenance changes no answer of `get`. -/
def sweepDuty : Duty where
  inv s := s.Agrees
  allowed _ := True
  write op who s log r := r.Agrees ∧ (op.maintains = true → Invisible who.thread s log r)
  jobPre _ t j s log := match j with
    | .removeDead subject seq => DeadThrough s subject seq ∧ Scanned t subject seq log
    | .settleLegacy encoded seq => Scanned t encoded seq log
    | .liveEntry _ => True
  jobPost _ _ _ _ _ _ := True

theorem sweepDuty_steady : sweepDuty.Steady where
  write hw _ h := Server.Agrees.effect h hw.1
  env henv h key m hm := h key m ((env_later henv).1 ▸ hm)

theorem sweepDuty_indexOnly {op : Op} {who : Actor} {key : String} (s : Server)
    (log : List KvEvent) (r : Req) (h : IndexOnly key r) : sweepDuty.write op who s log r :=
  ⟨agrees_of_indexOnly h, fun _ => invisible_of_indexOnly h⟩

/-! ## The programs of a sweep -/

section Programs

variable {api : CounterApi} {op : Op} {who : Actor} {js : List Job} {v : KvView}

/-- Checked, and the jobs started so far stay the same. -/
abbrev SweepSafe (api : CounterApi) (op : Op) (who : Actor) {α : Type} (p : Kv α)
    (js : List Job) (v : KvView) : Prop :=
  sweepDuty.rules.Safe (kvSystem api) op who (fun js' _ _ => js' = js) p js v

theorem purgeThrough_safe {subject : Bytes} {seq : Nat}
    (hdead : DeadThrough v.srv subject seq) (hscan : Scanned who.thread subject seq v.log) :
    SweepSafe api op who (purgeThrough subject seq) js v := by
  rw [← bind_pure (purgeThrough subject seq)]
  refine safe_purge sweepDuty_steady (fun v₁ hv => ?_) (fun v₁ _ v₂ _ => rfl) (fun _ _ _ => rfl)
  exact ⟨trivial, fun _ => invisible_purgeThrough (hdead.mono hv.1) (hscan.mono hv.1)⟩

/-- The removal of a record scanned dead. -/
theorem removeDead_safe {subject : Bytes} {seq : Nat}
    (hdead : DeadThrough v.srv subject seq) (hscan : Scanned who.thread subject seq v.log) :
    SweepSafe api op who (removeDead subject seq) js v := by
  have hindex : ∀ {p : Kv Unit} {key : String} {v' : KvView}, p.Requests (IndexOnly key) →
      SweepSafe api op who p js v' := fun h => safe_indexOnly sweepDuty_indexOnly h
  unfold removeDead
  split
  · refine Rules.Safe.bind Duty.ordered (purgeThrough_safe hdead hscan) ?_ fun _ _ _ h => h
    rintro - js' v' rfl
    split
    · exact hindex (requests_reindexIfLive (asks_indexOnly _))
    · exact fun _ _ => rfl
  · split
    · exact purgeThrough_safe hdead hscan
    · rename_i key hkey
      -- the index record goes first; what is known of the data record stays
      have hpurge : IndexOnly key (.purge (indexKey key) none) := rfl
      refine safe_purge sweepDuty_steady (fun v₁ _ => sweepDuty_indexOnly _ _ _ hpurge)
        (fun v₁ hv => ?_) fun _ _ _ => rfl
      refine Rules.Safe.bind Duty.ordered
        (purgeThrough_safe (hdead.mono hv.1) (hscan.mono hv.1)) ?_ fun _ _ _ h => h
      rintro - js' v' rfl
      exact hindex (requests_reindexIfLive (asks_indexOnly key))

/-- The removal or the rewrite of an older build's record. -/
theorem settleLegacy_safe {encoded : Bytes} {seq : Nat}
    (hscan : Scanned who.thread encoded seq v.log) :
    SweepSafe api op who (settleLegacy encoded seq) js v := by
  refine safe_lastRecord sweepDuty_steady (fun v₁ v₂ hv hsrv hv₂ _ => ?_) fun e v' _ => safe_fail fun _ _ => rfl
  simp only [orUnavailable, Prog.ofExcept_ok, Prog.ret_bind]
  have hscan₂ := hscan.mono (hv.1.trans hv₂.1)
  split
  · exact fun _ _ => rfl
  · rename_i o record hrecord
    obtain ⟨hlast, hseq⟩ := Option.filter_eq_some_iff.1 hrecord
    obtain ⟨m, hm, rfl⟩ := Option.map_eq_some_iff.1 hlast
    obtain ⟨hmseq, hop⟩ : m.seq = seq ∧ Record.recordOperation m.body.headers = .put :=
      of_decide_eq_true hseq
    have hle : seq ≤ v₂.srv.bucket.lastSeq := hmseq ▸ hsrv ▸ SubjectLog.seq_le_of_last hm
    -- what the subject holds up to the sequence stays the record read
    have hsame : ∀ {v' : KvView} {m' : StoredMessage}, Later v₂ v' →
        v'.srv.bucket.last encoded = some m' → m'.seq ≤ seq → m' = m := by
      intro v' m' hv' hm' hle'
      have hback := hv'.bucket.2 _ m' hm' (hle'.trans hle)
      rw [hsrv, hm] at hback
      exact (Option.some.inj hback).symm
    refine safe_isExpired sweepDuty_steady fun now v₃ hv₃ _ hnow => ?_
    split
    · rename_i hexp
      have hdead : DeadThrough v₃.srv encoded seq := by
        refine ⟨hle.trans hv₃.1.bucket.1, fun key _ m' hm' hle' => ?_⟩
        rw [hsame hv₃.1 hm' hle']
        exact ⟨hmseq, entryAt_eq_none.2 (.inr (isExpiredAt_mono hnow hexp))⟩
      refine Rules.Safe.bind Duty.ordered (removeDead_safe hdead (hscan₂.mono hv₃.1)) ?_
        fun _ _ _ h => h
      rintro - js' v' rfl
      exact fun _ _ => rfl
    · refine safe_write sweepDuty_steady (fun v₄ hv₄ => ?_) (fun v₄ ack v₅ hv₄ hv₅ hpub => ?_) fun e v' _ => ?_
      · refine ⟨fun _ _ _ => agrees_published _ _ _, fun _ => invisible_rewrite ?_ ?_ ?_⟩
        · exact hmseq ▸ Nat.pos_iff_ne_zero.1 (SubjectLog.seq_pos_of_last hm)
        · intro m' hm' hseq'
          rw [hsame (hv₃.1.trans hv₄.1) hm' hseq'.le]
          exact ⟨hop, (encodeValue_decodeValue m.body.payload).symm⟩
        · exact hscan₂.mono (hv₃.1.trans hv₄.1)
      · split
        · split
          · refine Rules.Safe.bind (Q := fun js' _ _ => js' = js) Duty.ordered
              (safe_indexOnly sweepDuty_indexOnly (requests_writeIndex (asks_indexOnly _))) ?_ fun _ _ _ h => h
            rintro - js' v' rfl
            exact fun _ _ => rfl
          · exact fun _ _ => rfl
        · exact fun _ _ => rfl
        · exact safe_fail fun _ _ => rfl
      · exact safe_fail fun _ _ => rfl

/-- The jobs of a sweep keep its duty. -/
theorem sweepDuty_kept (api : CounterApi) : sweepDuty.Kept api where
  toSteady := sweepDuty_steady
  job := by
    intro op t i j s log _ hpre
    have hends : ∀ {α : Type} {p : Kv α} {f : α → Done},
        SweepSafe api op (.job t i) p [] ⟨s, log, none⟩ →
        sweepDuty.rules.Safe (kvSystem api) op (.job t i)
          (Ends fun r v => sweepDuty.jobPost op t j r v.srv v.log) (f <$> p) [] ⟨s, log, none⟩ :=
      fun h => h.map fun _ _ _ hjs => ⟨hjs, trivial⟩
    cases j with
    | removeDead subject seq => exact hends (removeDead_safe hpre.1 hpre.2)
    | settleLegacy encoded seq => exact hends (settleLegacy_safe hpre)
    | liveEntry key =>
      refine hends (Rules.safe_of_requests (requests_liveEntry (P := fun r : Req => r.isWrite = false)
        (fun _ h => h) key) ?_ [] _)
      exact fun _ _ r hr hw => absurd hw (by simp [hr])

/-! ## The scan -/

/-- What a sweep knows about the records its scan collected. -/
structure ScanOk (t : Nat) (scan : SweepScan) (v : KvView) : Prop where
  dead : ∀ d ∈ scan.dead, DeadThrough v.srv d.1 d.2 ∧ Scanned t d.1 d.2 v.log
  legacy : ∀ l ∈ scan.legacy, Scanned t l.1 l.2 v.log

theorem ScanOk.mono {t : Nat} {scan : SweepScan} {v' : KvView} (h : ScanOk t scan v)
    (hv : Later v v') : ScanOk t scan v' where
  dead d hd := ⟨(h.dead d hd).1.mono hv, (h.dead d hd).2.mono hv⟩
  legacy l hl := (h.legacy l hl).mono hv

/-- One record is scanned. -/
theorem ScanOk.record {t : Nat} {scan : SweepScan} {grace : Duration} {now : UInt64} {d : Delivered}
    (h : ScanOk t scan v) (hs : v.srv.Agrees) (hnow : now ≤ v.srv.now) (hd : Seen v.srv d)
    (hscan : Scanned t d.subject d.streamSequence v.log) :
    ScanOk t (sweepRecord grace now scan d) v := by
  have hadd : ∀ {P : Bytes × Nat → Prop} {l : List (Bytes × Nat)}, (∀ x ∈ l, P x) →
      P (d.subject, d.streamSequence) → ∀ x ∈ l ++ [(d.subject, d.streamSequence)], P x := by
    intro P l hl hP x hx
    rcases List.mem_append.1 hx with hx | hx
    · exact hl x hx
    · exact List.mem_singleton.1 hx ▸ hP
  have hmarker : recordOperation d.headers ≠ .put → ScanOk t
      (if grace.secs ≤ saturatingSub now (unixSecs d.published) then
        { scan with
          dead := scan.dead ++ [(d.subject, d.streamSequence)]
          report := { scan.report with
            scanned := scan.report.scanned + 1, markers := scan.report.markers + 1 } }
      else { scan with report := { scan.report with scanned := scan.report.scanned + 1 } }) v := by
    intro hop
    split
    · exact ⟨hadd h.dead ⟨deadThrough_of_seen hs hd hnow (.inl hop), hscan⟩, h.legacy⟩
    · exact ⟨h.dead, h.legacy⟩
  unfold sweepRecord
  cases hop : recordOperation d.headers with
  | put =>
    dsimp only
    cases hexp : headerExpiry d.headers with
    | none => exact ⟨h.dead, hadd h.legacy hscan⟩
    | some at_ =>
      dsimp only
      split
      · rename_i hat
        have hdead := deadThrough_of_seen hs hd hnow (.inr ⟨at_, hop, hexp, hat.1, hat.2⟩)
        exact ⟨hadd h.dead ⟨hdead, hscan⟩, h.legacy⟩
      · exact ⟨h.dead, h.legacy⟩
  | delete => exact hmarker (by simp [hop])
  | purge => exact hmarker (by simp [hop])

/-- **The scan knows what it collected.** -/
theorem sweepScan_safe {t : Nat} {grace : Duration} {now : UInt64} (fuel : Nat) {scan : SweepScan}
    (hv : sweepDuty.Good v) (hnow : now ≤ v.srv.now) (h : ScanOk t scan v) :
    sweepDuty.rules.Safe (kvSystem api) op (.main t)
      (fun js' x v => js' = js ∧ ∀ scan, x = .ok scan → ScanOk t scan v)
      (sweepScan grace now fuel scan) js v := by
  induction fuel generalizing scan v with
  | zero => trivial
  | succ fuel ih =>
    refine safe_read (r := .nextRecord) sweepDuty_steady rfl fun v₁ x v₂ hv₁ hstep hsrv hv₂ => ?_
    have hgood := hv₂.2 (hv₁.2 hv)
    have hlater := hv₁.1.trans hv₂.1
    have hret : ∀ scan', ScanOk t scan' v₂ → sweepDuty.rules.Safe (kvSystem api) op (.main t)
        (fun js' x v => js' = js ∧ ∀ scan, x = .ok scan → ScanOk t scan v) (.ret scan') js v₂ := by
      intro scan' hscan' v' hv'
      refine ⟨rfl, fun scan'' heq => ?_⟩
      cases Except.ok.inj heq
      exact hscan'.mono hv'.1
    obtain ⟨m, -, hx, hlog⟩ := hstep
    obtain ⟨y, hy, hxy⟩ := Option.map_eq_some_iff.1 hx
    have hyx : y.1 = x := (Prod.mk.inj hxy).1
    cases hrec : (show NextRecord from x) with
    | record d =>
      have hxd : x = NextRecord.record d := hrec
      subst hxd
      have hseen : Seen v₁.srv d := ((hv₁.2 hv).2.nextRecord hy).2 d hyx
      have hscanned : Scanned t d.subject d.streamSequence v₂.log := by
        refine ⟨d, v₁.srv, ?_, rfl, rfl, hseen.1⟩
        rw [hlog]
        exact List.mem_cons_self
      have hok : ScanOk t (sweepRecord grace now scan d) v₂ :=
        (h.mono hlater).record hgood.1 (UInt64.le_trans hnow hlater.clock) (hsrv ▸ hseen) hscanned
      dsimp only
      split
      · exact hret _ hok
      · exact ih hgood (UInt64.le_trans hnow hlater.clock) hok
    | unreadable e =>
      have hxd : x = NextRecord.unreadable e := hrec
      subst hxd
      exact safe_fail fun _ _ => ⟨rfl, fun _ heq => absurd heq (by simp)⟩
    | failed e =>
      have hxd : x = NextRecord.failed e := hrec
      subst hxd
      exact safe_fail fun _ _ => ⟨rfl, fun _ heq => absurd heq (by simp)⟩
    | ended =>
      have hxd : x = NextRecord.ended := hrec
      subst hxd
      exact hret scan (h.mono hlater)
    | idle =>
      have hxd : x = NextRecord.idle := hrec
      subst hxd
      exact hret scan (h.mono hlater)

/-! ## The whole sweep -/

/-- Starting jobs, each as agreed. -/
theorem safe_spawnAll {D : Duty} {α : Type} {cap : Nat} {jobs : List Job} {k : Kv α}
    {Q : List Job → Except ClusterError α → KvView → Prop}
    (hjobs : ∀ j ∈ jobs, ∀ v', D.rules.rely v v' → D.inv v'.srv ∧
      D.jobPre op who.thread j v'.srv v'.log)
    (hk : ∀ v', D.rules.rely v v' → D.rules.Safe (kvSystem api) op who Q k (js ++ jobs) v') :
    D.rules.Safe (kvSystem api) op who Q (spawnAll cap jobs k) js v := by
  induction jobs generalizing js v with
  | nil => simpa [spawnAll] using hk v (Duty.rely_refl v)
  | cons j jobs ih =>
    intro v₁ hv₁
    refine ⟨hjobs j (by simp) v₁ hv₁, ih ?_ ?_⟩
    · exact fun j' hj' v' hv' => hjobs j' (by simp [hj']) v' (Duty.rely_trans hv₁ hv')
    · intro v' hv'
      rw [List.append_assoc]
      exact hk v' (Duty.rely_trans hv₁ hv')

theorem requests_countOutcomes {P : Req → Prop} (report : SweepReport)
    (outcomes : List (Except ClusterError Done)) : (countOutcomes report outcomes).Requests P := by
  induction outcomes generalizing report with
  | nil => trivial
  | cons outcome outcomes ih =>
    cases outcome with
    | error e => trivial
    | ok d => exact ih _

/-- The removals of a sweep. -/
theorem removeAllDead_safe {t : Nat} (kv : NatsKv) {dead : List (Bytes × Nat)}
    (hv : sweepDuty.Good v)
    (h : ∀ d ∈ dead, DeadThrough v.srv d.1 d.2 ∧ Scanned t d.1 d.2 v.log) :
    SweepSafe api op (.main t) (removeAllDead kv dead) [] v := by
  unfold removeAllDead
  split
  · induction dead generalizing v with
    | nil => exact fun _ _ => rfl
    | cons d dead ih =>
      obtain ⟨hdead, hscan⟩ := h d (by simp)
      refine Rules.Safe.bind (p := removeDead d.1 d.2) Duty.ordered (safe_since sweepDuty_steady
        (removeDead_safe hdead hscan)) ?_ fun _ _ _ h => h.1
      rintro - js' v' ⟨rfl, hv'⟩
      refine ih (hv'.2 hv) fun d' hd' => ?_
      obtain ⟨hdead', hscan'⟩ := h d' (by simp [hd'])
      exact ⟨hdead'.mono hv'.1, hscan'.mono hv'.1⟩
  · refine safe_spawnAll (fun j hj v' hv' => ?_) fun v' _ v'' _ => ⟨fun _ _ _ _ => rfl, fun e => ?_⟩
    · obtain ⟨d, hd, rfl⟩ := List.mem_map.1 hj
      obtain ⟨hdead, hscan⟩ := h d hd
      exact ⟨(hv'.2 hv).1, hdead.mono hv'.1, hscan.mono hv'.1⟩
    · exact safe_fail fun _ _ => rfl

/-- **A sweep keeps its duty.** -/
theorem sweep_safe {t : Nat} (kv : NatsKv) (grace : Duration) (fuel : Nat)
    (hv : sweepDuty.Good v) :
    sweepDuty.rules.Safe (kvSystem api) op (.main t) (fun _ _ _ => True) (sweep kv grace fuel) [] v := by
  have hread : ∀ r : Req, r.isWrite = false → ∀ s log,
      sweepDuty.rules.guar op (.main t) s log r := fun r hr _ _ hw => absurd hw (by simp [hr])
  have hconsumer : SweepSafe api op (.main t) (recordConsumer "mcpg kv sweep" everything 1) [] v :=
    Rules.safe_of_requests (P := fun r : Req => r.isWrite = false)
      (requests_recordConsumer (fun _ h => h) _ _ _) (fun s log r hr => hread r hr s log) [] v
  refine Rules.Safe.bind Duty.ordered (safe_since sweepDuty_steady hconsumer) ?_ fun _ _ _ _ => trivial
  rintro opened js v₁ ⟨rfl, hv₁⟩
  split
  · refine safe_now sweepDuty_steady fun v₂ hv₂ => ?_
    have hgood := hv₂.2 (hv₁.2 hv)
    refine Rules.Safe.bind Duty.ordered (safe_since sweepDuty_steady (sweepScan_safe fuel hgood
      (UInt64.le_refl _) ⟨by simp, by simp⟩)) ?_ fun _ _ _ _ => trivial
    rintro scan js v₃ ⟨⟨rfl, hscan⟩, hv₃⟩
    have hok := hscan scan rfl
    refine Rules.Safe.bind Duty.ordered (safe_since sweepDuty_steady
      (removeAllDead_safe kv (hv₃.2 hgood) hok.dead)) ?_ fun _ _ _ _ => trivial
    rintro - js v₄ ⟨rfl, hv₄⟩
    refine safe_spawnAll (fun j hj v' hv' => ?_) fun v' _ v'' _ outcomes _ => ?_
    · obtain ⟨l, hl, rfl⟩ := List.mem_map.1 hj
      exact ⟨(hv'.2 (hv₄.2 (hv₃.2 hgood))).1, (hok.legacy l hl).mono (hv₄.1.trans hv'.1)⟩
    · exact (Rules.safe_of_requests (P := fun r : Req => r.isWrite = false)
        (requests_countOutcomes _ _) (fun s log r hr => hread r hr s log) [] v'').conseq
          fun _ _ _ _ => trivial
  · exact fun _ _ => trivial

end Programs

/-! ## Every run -/

/-- Every call keeps the duty. -/
theorem sweepDuty_call {api : CounterApi} (op : Op) {t : Nat} {s : Server} {log : List KvEvent}
    (hinv : sweepDuty.inv s) :
    sweepDuty.rules.Safe (kvSystem api) op (.main t) (fun _ _ _ => True) (op.program api) []
      ⟨s, log, none⟩ := by
  have hgood : sweepDuty.Good ⟨s, log, none⟩ := ⟨hinv, bufferSeen_none _⟩
  -- a call on single keys keeps headers and payloads in agreement
  have hsimple : op.maintains = false → op.Simple → sweepDuty.rules.Safe (kvSystem api) op (.main t)
      (fun _ _ _ => True) (op.program api) [] ⟨s, log, none⟩ := fun hm hop =>
    (Rules.safe_of_requests (requests_op asks_agrees api hop)
      (fun s log r hr _ => ⟨hr, fun h => absurd h (by simp [hm])⟩) [] _).conseq fun _ _ _ _ => trivial
  -- a listing writes nothing
  have hreads : (op.program api).Makes (fun r : Req => r.isWrite = false) Job.Reads →
      sweepDuty.rules.Safe (kvSystem api) op (.main t) (fun _ _ _ => True) (op.program api) []
        ⟨s, log, none⟩ := by
    refine fun h => safe_makes sweepDuty_steady (fun _ _ r hr hw => absurd hw (by simp [hr])) ?_ h hgood
    rintro j s log ⟨key, rfl⟩
    trivial
  cases op with
  | sweep kv grace fuel => exact (sweep_safe kv grace fuel hgood).map fun _ _ _ h => h
  | backfillIndex fuel =>
    have hreq : (backfillIndex fuel).Requests fun r => ∃ key, IndexOnly key r :=
      requests_backfillIndex (fun r hr => ⟨"", indexOnly_of_read r hr⟩)
        (fun key => requests_publish ⟨key, rfl⟩) fuel
    exact (Rules.safe_of_requests hreq
      (fun s log r ⟨key, hr⟩ _ => sweepDuty_indexOnly s log r hr) [] _).map fun _ _ _ _ => trivial
  | listPage pre cursor limit fuel => exact hreads (makes_listPage (fun _ h => h) _ _ _ _).map
  | listPass pre limit scanFuel fuel => exact hreads (makes_listPass (fun _ h => h) _ _ _ _ _).map
  | _ => exact hsimple rfl trivial

/-- **Every run keeps the duty of its maintenance**, whatever its calls are. -/
theorem sweep_run {api : CounterApi} {s₀ : Server} (h₀ : s₀.Agrees) {cs : List KvChoice}
    {w : KvWorld} (hrun : World.run (kvSystem api) (KvWorld.start s₀) cs = some w) :
    sweepDuty.rules.PoolSafe (kvSystem api) (fun _ _ _ _ => True) w ∧ w.srv.Agrees ∧
      sweepDuty.rules.Guarded w := by
  have hcs : ∀ c ∈ cs, Admits sweepDuty.allowed (fun _ => True) c := fun c _ => by cases c <;> trivial
  obtain ⟨hpool, hwithin, hguarded, -⟩ := Duty.run (Q := fun _ _ _ _ => True) (sweepDuty_kept api)
    (fun _ op _ _ _ hinv => sweepDuty_call op hinv) h₀ hcs hrun
  exact ⟨hpool, ((hwithin none).2 ⟨h₀, bufferSeen_none _⟩).1, hguarded⟩

/-- A sweep, a backfill, or a call on single keys. -/
def Op.SweepOrSimple (op : Op) : Prop := op.maintains = true ∨ op.Simple

/-- What a step between two servers leaves: the entry of every key and every
answer of `get`, and every record that thread `t` did not scan. -/
def LeavesReads (t : Nat) (log : List KvEvent) (s s' : Server) : Prop :=
  (∀ key, (s'.slot key).found = (s.slot key).found ∧ s'.getNow key = s.getNow key) ∧
    ∀ key m, s.bucket.last (encodeKey key) = some m →
      s'.bucket.last (encodeKey key) = some m ∨ Scanned t (encodeKey key) m.seq log

theorem LeavesReads.refl (t : Nat) (log : List KvEvent) (s : Server) : LeavesReads t log s s :=
  ⟨fun _ => ⟨rfl, rfl⟩, fun _ _ hm => .inl hm⟩

/-- A served request of the maintenance leaves what is read. -/
theorem leavesReads_of_serve {op : Op} {who : Actor} {m : Mode} {s s' : Server}
    {c c' : Option Consumer} {r : Req} {x : Resp r} {log : List KvEvent}
    (hop : op.maintains = true) (hg : sweepDuty.rules.guar op who s log r)
    (hx : serve m s c r = some (x, s', c')) : LeavesReads who.thread log s s' := by
  rcases serve_state hx with rfl | rfl
  · exact .refl _ _ _
  · cases hw : r.isWrite with
    | false =>
      rw [effect_of_not_write hw]
      exact .refl _ _ _
    | true =>
      have hinv := (hg hw).2 hop
      refine ⟨fun key => ⟨hinv.entry key, ?_⟩, hinv.scanned⟩
      rw [Server.getNow_eq, Server.getNow_eq, hinv.entry]

/-- **A sweep is invisible to reads.**  From any bucket of records that this
build or an older one wrote, whatever runs beside it and however the backend
behaves, no step of a sweep or a backfill changes what `get` answers for any
key, and a step removes or overwrites only a record that the call's own scan was
handed. -/
theorem sweep_invisible (api : CounterApi) (s₀ : Server) (h₀ : s₀.WellFormed)
    (cs : List KvChoice) (w : KvWorld)
    (hrun : World.run (kvSystem api) (KvWorld.start s₀) cs = some w) (t : Nat) (th : KvThread)
    (hth : w.threads[t]? = some th) (hmaintains : th.op.maintains = true) (c : KvChoice)
    (hc : StepOf t c) (w' : KvWorld) (hstep : World.step (kvSystem api) w c = some w') :
    LeavesReads t w.log w.srv w'.srv := by
  have hpool := (sweep_run h₀.agrees hrun).1
  have hR := (sweepDuty_kept api).sound
  cases hc with
  | deliver =>
    obtain ⟨th', l, -, -, rfl⟩ := World.step_deliver hstep
    exact .refl _ _ _
  | act who m hwho =>
    subst hwho
    rcases hpool.guar_step hR hstep with hsame | ⟨th', r, x, l, l', hth', hguar, hserve⟩
    · rw [hsame]
      exact .refl _ _ _
    · cases Option.some.inj (hth.symm.trans hth')
      exact leavesReads_of_serve hmaintains hguar hserve

/-- A bucket with one expired record, and a sweep up to the removal of it. -/
def expiredServer : Server :=
  ⟨SubjectLog.empty.store (encodeKey "k")
    ⟨[(expiresHeader, renderU64 5)], encodeValue [1] (some 5), 0⟩, 9000000000, true, true⟩

theorem expiredServer_wellFormed : expiredServer.WellFormed := by
  intro key m hm
  obtain rfl := List.mem_singleton.1 (SubjectLog.mem_of_last hm)
  exact .current [1] (some 5) rfl rfl

theorem expiredServer_not_live (key : String) : ¬ expiredServer.Live key := by
  intro hlive
  obtain ⟨value, exp, revision, hslot⟩ := Server.live_iff.1 hlive
  obtain ⟨r, hr, -⟩ := Slot.ofRecord_eq_live.1 hslot
  obtain ⟨m, hm, -⟩ := Option.map_eq_some_iff.1 hr
  obtain rfl := List.mem_singleton.1 (SubjectLog.mem_of_last hm)
  obtain rfl : key = "k" := encodeKey_injective (SubjectLog.subject_of_last hm).symm
  exact absurd hlive (by decide +kernel)

def sweepToRemoval : List KvChoice :=
  [.start (.sweep ⟨false⟩ (.fromSecs 60) 2), .act (.main 0) .ok, .act (.main 0) .ok,
    .act (.main 0) .ok, .deliver 0, .act (.main 0) .ok, .act (.main 0) .ok, .act (.job 0 0) .ok]

/-- The step that removes the record changes no answer. -/
theorem sweep_invisible_removal :
    ∃ w ∈ World.run (kvSystem decimalCounters) (KvWorld.start expiredServer) sweepToRemoval,
      ∃ w' ∈ World.step (kvSystem decimalCounters) w (.act (.job 0 0) .ok),
        w.srv.bucket.last (encodeKey "k") ≠ w'.srv.bucket.last (encodeKey "k") ∧
          LeavesReads 0 w.log w.srv w'.srv := by
  have hrun : ∃ w ∈ World.run (kvSystem decimalCounters) (KvWorld.start expiredServer) sweepToRemoval,
      ∃ w' ∈ World.step (kvSystem decimalCounters) w (.act (.job 0 0) .ok),
        w.srv.bucket.last (encodeKey "k") ≠ w'.srv.bucket.last (encodeKey "k") ∧
          ∃ th ∈ w.threads[0]?, th.op.maintains = true := by decide +kernel
  obtain ⟨w, hw, w', hw', hne, th, hth, hmaintains⟩ := hrun
  refine ⟨w, hw, w', hw', hne, ?_⟩
  exact sweep_invisible decimalCounters expiredServer expiredServer_wellFormed sweepToRemoval w hw 0
    th hth hmaintains (.act (.job 0 0) .ok) (.act _ _ rfl) w' hw'

end ClusterNats
