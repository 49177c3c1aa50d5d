import ClusterNats.Kv.Alone
import ClusterNats.Kv.Counter
import ClusterNats.Kv.Invisible
import ClusterNats.Kv.TtlMap
import Mathlib.Data.List.Induction

/-!
# The store refines a map whose entries expire

Calls that run one after the other give what `TtlMap.call` gives, while their
seconds are in range.  A bucket stands for a map when every key reads as its
entry (`Rep`); markers, expired records, index records and revisions are
invisible in that.  Time, sweeps and backfills come between the calls.

* `Entry.exact`, `Reply.exact` — what the store returns, in the map's terms.
* `Rep`, `Plain` — the bucket stands for a map; no value looks like an envelope.
* `Server.toMap` — the map a bucket stands for.
* `Rep.call`, `Rep.env`, `Rep.maintenance` — the steps keep it.
* `Session` — calls one after the other, with what happens between them.
* `store_refines_ttlMap` — what a session returns whose calls are in range.
* `store_refines_ttlMap_wrapped` — what one returns whose calls are not.
-/

namespace ClusterNats

open Conc

/-- An entry with its expiry as a number. -/
def Entry.exact (e : Entry) : TtlEntry := ⟨e.bytes, e.expiresAt.map UInt64.toNat⟩

theorem expired_exact (now : UInt64) (e : Entry) :
    e.exact.expired now.toNat = isExpiredAt now e.expiresAt := by
  obtain ⟨bytes, expiresAt⟩ := e
  cases expiresAt with
  | none => rfl
  | some secs => simp [Entry.exact, TtlEntry.expired, isExpiredAt, UInt64.le_iff_toNat_le]

/-- What a call on single keys returned, in the terms of the map. -/
def Reply.exact : Reply → TtlReply
  | .entry e => .entry (e.map Entry.exact)
  | .flag b => .flag b
  | .count n => .count n
  | _ => .done

/-- The bucket reads as the map. -/
def Rep (s : Server) (m : TtlMap String) : Prop :=
  ∀ key, (s.slot key).found.map Entry.exact = m.lookup s.now.toNat key

/-- The map a bucket stands for. -/
def Server.toMap (s : Server) : TtlMap String := fun key => (s.slot key).found.map Entry.exact

/-- What is found has not expired. -/
theorem not_expired_of_found {s : Server} {key : String} {e : Entry}
    (h : (s.slot key).found = some e) : isExpiredAt s.now e.expiresAt = false := by
  cases hx : s.slot key with
  | live value exp revision =>
    obtain ⟨r, -, -, -, hexp, -⟩ := Slot.ofRecord_eq_live.1 hx
    rw [hx] at h
    cases h
    exact hexp
  | _ =>
    rw [hx] at h
    cases h

/-- Every bucket stands for a map. -/
theorem rep_toMap (s : Server) : Rep s s.toMap := by
  intro key
  rw [TtlMap.lookup, Server.toMap]
  cases hx : (s.slot key).found with
  | none => rfl
  | some e => simp [Option.filter, expired_exact, not_expired_of_found hx]

/-- Nothing that is read looks like an envelope itself. -/
def Plain (s : Server) : Prop :=
  ∀ key e, (s.slot key).found = some e → ¬ ttlEnvelopeMagic <+: e.bytes

/-! ## What a write leaves to read -/

section Reads

variable {s s' : Server} {key : String} {m : TtlMap String}

/-- What a record just written reads as. -/
theorem WroteValue.found {value : Bytes} {exp : Option UInt64} (h : WroteValue key value exp s s')
    (hvalue : ¬ ttlEnvelopeMagic <+: value) : (s'.slot key).found =
      if isExpiredAt s'.now exp then none else some ⟨value, exp⟩ := by
  obtain ⟨seq, hlast⟩ := h.last
  rw [found_slot, hlast, Option.bind_some, entryAt_eq, decodeValue_encodeValue fun _ => hvalue]
  cases isExpiredAt s'.now exp <;> simp

theorem WroteMarker.found (h : WroteMarker key s s') : (s'.slot key).found = none := by
  obtain ⟨seq, hlast⟩ := h.last
  rw [found_slot, hlast, Option.bind_some, entryAt_eq_none]
  show Record.recordOperation [(kvOperationHeader, bytes "DEL")] ≠ .put ∨ _
  exact .inl (by decide)

theorem Wrote.found_ne {headers : HeaderMap} {payload : Bytes} {k : String}
    (h : Wrote key headers payload s s') (hk : k ≠ key) :
    (s'.slot k).found = (s.slot k).found := by
  rw [found_slot, found_slot, h.others k hk, h.now]

/-! ## The steps -/

theorem Rep.same (h : Rep s m) (hs : SameData s s') : Rep s' m := by
  intro key
  rw [hs.slot, hs.now]
  exact h key

theorem Plain.same (h : Plain s) (hs : SameData s s') : Plain s' := by
  intro key e he
  rw [hs.slot] at he
  exact h key e he

theorem Rep.set {value : Bytes} {exp : Option UInt64} (h : Rep s m)
    (hw : WroteValue key value exp s s') (hvalue : ¬ ttlEnvelopeMagic <+: value) :
    Rep s' (m.set key (Entry.exact ⟨value, exp⟩)) := by
  intro k
  by_cases hk : k = key
  · subst hk
    rw [hw.found hvalue, TtlMap.lookup_set_self, expired_exact]
    split <;> rfl
  · rw [hw.found_ne hk, TtlMap.lookup_set_ne _ _ _ hk, hw.now]
    exact h k

theorem Plain.set {value : Bytes} {exp : Option UInt64} (h : Plain s)
    (hw : WroteValue key value exp s s') (hvalue : ¬ ttlEnvelopeMagic <+: value) : Plain s' := by
  intro k e he
  by_cases hk : k = key
  · subst hk
    rw [hw.found hvalue] at he
    split at he
    · cases he
    · cases he
      exact hvalue
  · rw [hw.found_ne hk] at he
    exact h k e he

theorem Rep.remove (h : Rep s m) (hw : WroteMarker key s s') : Rep s' (m.remove key) := by
  intro k
  by_cases hk : k = key
  · subst hk
    rw [hw.found, TtlMap.lookup_remove_self]
    rfl
  · rw [hw.found_ne hk, TtlMap.lookup_remove_ne _ _ hk, hw.now]
    exact h k

theorem Plain.remove (h : Plain s) (hw : WroteMarker key s s') : Plain s' := by
  intro k e he
  by_cases hk : k = key
  · subst hk
    rw [hw.found] at he
    cases he
  · rw [hw.found_ne hk] at he
    exact h k e he

/-- What reads differently after an expiry only lost entries: the clock moved,
and nothing else. -/
theorem found_tick {t : Instant} (ht : s.now ≤ unixSecs t) (key : String) :
    (Server.slot { s with clock := t } key).found =
      ((s.slot key).found).filter fun e => !isExpiredAt (unixSecs t) e.expiresAt := by
  rw [found_slot, found_slot]
  show (s.bucket.last (encodeKey key)).bind (StoredMessage.entryAt (unixSecs t)) = _
  cases s.bucket.last (encodeKey key) with
  | none => rfl
  | some r =>
    rw [Option.bind_some, Option.bind_some, entryAt_eq, entryAt_eq]
    by_cases hput : Record.recordOperation r.body.headers = .put
    · cases hnow : isExpiredAt s.now (decodeValue r.body.payload).2 with
      | true => simp [hput, isExpiredAt_mono ht hnow]
      | false => cases hlater : isExpiredAt (unixSecs t) (decodeValue r.body.payload).2 <;>
          simp [hput, hlater, Option.filter]
    · simp [hput]

/-- An entry that is found is read live. -/
theorem slot_of_found {e : Entry} (h : (s.slot key).found = some e) :
    ∃ revision, s.slot key = .live e.bytes e.expiresAt revision := by
  have hlive : s.Live key := by
    rw [Server.Live, h]
    rfl
  obtain ⟨value, exp, revision, hslot⟩ := Server.live_iff.1 hlive
  rw [hslot] at h
  cases h
  exact ⟨revision, hslot⟩

end Reads

/-! ## Counters -/

section Counters

variable {s : Server} {key : String} {api : CounterApi} {ttl : Option Duration}

/-- One round that stores its count. -/
theorem exec_updateCounterRounds_stored (op : String) {step : Int64 → Except ClusterError Int64}
    {current next : Int64} {exp : Option UInt64} {creates : Bool}
    (hread : (readCounter api key ttl).exec answer s =
      some (.ok (current, exp, (s.slot key).expect, creates), s))
    (hstep : step current = .ok next) (hleaves : leavesCounter next current creates ttl = false)
    (rounds : Nat) : ∃ s',
    (updateCounterRounds api op key ttl step (rounds + 1)).exec answer s = some (.ok next, s') ∧
      WroteValue key (renderI64 next) exp s s' := by
  obtain ⟨seq, s₁, hdata, hw⟩ := exec_publishRecord_stored key
    [(expiresHeader, renderU64 (exp.getD 0))] (encodeValue (renderI64 next) exp)
    (fun n (hn : n ∈ (s.slot key).expect.lastSequence) => lastSeqOf_slot hn)
  obtain ⟨revision, s₂, hindexed, hsame⟩ : ∃ revision s₂,
      (indexCreated key creates).exec answer s₁ = some (.ok (.ok revision), s₂) ∧
        SameData s₁ s₂ := by
    cases creates with
    | false => exact ⟨none, s₁, rfl, .refl s₁⟩
    | true =>
      obtain ⟨ack, revision, s₂, hindex, hdone, hsame⟩ := exec_publishIndex (s := s₁) key
      refine ⟨revision, s₂, ?_, hsame⟩
      show (publishIndex key >>= fun ack => Prog.ret (indexDone ack)).exec answer s₁ = _
      rw [Prog.exec_bind_ok hindex, hdone]
      rfl
  refine ⟨s₂, ?_, hw.trans_same hsame⟩
  rw [updateCounterRounds, Prog.exec_bind_ok hread]
  dsimp only
  rw [hstep, Prog.ofExcept_ok, Prog.ret_bind, hleaves, publish]
  simp only [Bool.false_eq_true, if_false]
  rw [Prog.exec_bind_ok hdata, Prog.exec_bind_ok hindexed]
  rfl

/-- A deadline whose sum is in range is the map's. -/
theorem deadline_exact (hsum : ∀ d ∈ ttl, s.now.toNat + max d.secs.toNat 1 < UInt64.size) (value : Bytes) :
    Entry.exact ⟨value, s.deadline ttl⟩ = ⟨value, TtlMap.deadline s.now.toNat ttl⟩ := by
  cases ttl with
  | none => rfl
  | some d =>
    have hexpiry := toNat_expiry (hsum d rfl)
    simp only [Entry.exact, Server.deadline, TtlMap.deadline, Option.map_some, hexpiry]

/-- The map counts on from a counter that is there. -/
theorem count_found (hsum : ∀ d ∈ ttl, s.now.toNat + max d.secs.toNat 1 < UInt64.size)
    {step : Int64 → Except ClusterError Int64} {value : Bytes} {current next : Int64}
    (hparse : api.parseCounter value = .ok current) (exp : Option UInt64) (hstep : step current = .ok next) :
    TtlMap.count api s.now.toNat ttl step (some (Entry.exact ⟨value, exp⟩)) =
      .ok (next, Entry.exact (if next = current ∧ ttl = none then ⟨value, exp⟩
        else ⟨renderI64 next, if ttl.isSome then s.deadline ttl else exp⟩)) := by
  have hexact : Entry.exact ⟨renderI64 next, if ttl.isSome then s.deadline ttl else exp⟩ =
      ⟨renderI64 next, if ttl.isSome then TtlMap.deadline s.now.toNat ttl
        else exp.map UInt64.toNat⟩ := by
    cases httl : ttl.isSome with
    | true => exact deadline_exact hsum _
    | false => rfl
  rw [apply_ite Entry.exact, hexact, TtlMap.count]
  dsimp only [Entry.exact]
  rw [hparse]
  show ((step current).bind fun next => _) = _
  rw [hstep]
  rfl

variable (key api) in
/-- **A counter call alone.**  It returns what `TtlMap.count` says, and stores
the entry that it says, unless the counter stays as it is. -/
theorem exec_updateCounter (hsum : ∀ d ∈ ttl, s.now.toNat + max d.secs.toNat 1 < UInt64.size)
    (op : String) (step : Int64 → Except ClusterError Int64) :
    (∃ e, TtlMap.count api s.now.toNat ttl step ((s.slot key).found.map Entry.exact) = .error e ∧
      (updateCounter api op key ttl step).exec answer s = some (.error e, s)) ∨
    ∃ next e s', TtlMap.count api s.now.toNat ttl step ((s.slot key).found.map Entry.exact) =
        .ok (next, e.exact) ∧
      (updateCounter api op key ttl step).exec answer s = some (.ok next, s') ∧
      ((s' = s ∧ (s.slot key).found = some e) ∨
        e.bytes = renderI64 next ∧ WroteValue key e.bytes e.expiresAt s s') := by
  rw [updateCounter, casAttempts]
  cases hx : (s.slot key).found with
  | none =>
    have hread := exec_readCounter_absent api ttl hx
    cases hstep : step 0 with
    | error e =>
      refine .inl ⟨e, by simp [TtlMap.count, hstep, bind, Except.bind], ?_⟩
      rw [updateCounterRounds, Prog.exec_bind_ok hread]
      dsimp only
      rw [hstep]
      rfl
    | ok next =>
      obtain ⟨s', hexec, hw⟩ := exec_updateCounterRounds_stored op hread hstep
        (by simp [leavesCounter]) 63
      refine .inr ⟨next, ⟨renderI64 next, s.deadline ttl⟩, s', ?_, hexec, .inr ⟨rfl, hw⟩⟩
      rw [deadline_exact hsum, Option.map_none, TtlMap.count, hstep]
      rfl
  | some e =>
    obtain ⟨value, exp⟩ := e
    obtain ⟨revision, hslot⟩ := slot_of_found hx
    have hread := exec_readCounter_live api ttl hslot
    rw [Option.map_some]
    cases hparse : api.parseCounter value with
    | error err =>
      refine .inl ⟨err, by simp [TtlMap.count, Entry.exact, hparse, bind, Except.bind], ?_⟩
      rw [hparse] at hread
      rw [updateCounterRounds]
      exact Prog.exec_bind_error hread
    | ok current =>
      rw [hparse] at hread
      cases hstep : step current with
      | error err =>
        refine .inl ⟨err, by simp [TtlMap.count, Entry.exact, hparse, hstep, bind, Except.bind], ?_⟩
        rw [updateCounterRounds, Prog.exec_bind_ok hread]
        dsimp only
        rw [hstep]
        rfl
      | ok next =>
        have hcount := count_found hsum hparse exp hstep
        by_cases hleaves : next = current ∧ ttl = none
        · refine .inr ⟨next, ⟨value, exp⟩, s, by rw [hcount, if_pos hleaves], ?_, .inl ⟨rfl, rfl⟩⟩
          obtain ⟨rfl, rfl⟩ := hleaves
          rw [updateCounterRounds, Prog.exec_bind_ok hread]
          dsimp only
          rw [hstep, Prog.ofExcept_ok, Prog.ret_bind, if_pos (by simp [leavesCounter])]
          rfl
        · obtain ⟨s', hexec, hw⟩ := exec_updateCounterRounds_stored op
            (show (readCounter api key ttl).exec answer s = some (.ok (current,
              if ttl.isSome then s.deadline ttl else exp, (s.slot key).expect, false), s) by
                rw [hread, hslot]; rfl) hstep
            (by cases ttl <;> simp_all [leavesCounter]) 63
          exact .inr ⟨next, _, s', by rw [hcount, if_neg hleaves], hexec, .inr ⟨rfl, hw⟩⟩

end Counters

/-! ## One call -/

/-- A call of a client on one key, whose values do not look like envelopes. -/
def Op.PlainClient : Op → Prop
  | .get _ => True
  | .put _ value _ => ¬ ttlEnvelopeMagic <+: value
  | .putIfAbsent _ value _ => ¬ ttlEnvelopeMagic <+: value
  | .delete _ => True
  | .expire .. => True
  | .updateCounter .. => True
  | _ => False

/-- A call that leaves the data records as they are. -/
theorem rep_same {s s' : Server} {m : TtlMap String} (h : Rep s m ∧ Plain s) (hs : SameData s s') :
    Rep s' m ∧ Plain s' := ⟨h.1.same hs, h.2.same hs⟩

/-- A call that stores a value. -/
theorem rep_set {s s' : Server} {m : TtlMap String} {key : String} {value : Bytes}
    {exp : Option UInt64} (h : Rep s m ∧ Plain s) (hw : WroteValue key value exp s s')
    (hvalue : ¬ ttlEnvelopeMagic <+: value) :
    Rep s' (m.set key (Entry.exact ⟨value, exp⟩)) ∧ Plain s' :=
  ⟨h.1.set hw hvalue, h.2.set hw hvalue⟩

/-- A call that stores a value with a TTL. -/
theorem rep_ttl {s s' : Server} {m : TtlMap String} {key : String} {value : Bytes}
    {ttl : Option Duration} (h : Rep s m ∧ Plain s) (hw : WroteValue key value (s.deadline ttl) s s')
    (hsum : ∀ d ∈ ttl, s.now.toNat + max d.secs.toNat 1 < UInt64.size)
    (hvalue : ¬ ttlEnvelopeMagic <+: value) :
    Rep s' (m.set key ⟨value, TtlMap.deadline s.now.toNat ttl⟩) ∧ Plain s' := by
  rw [← deadline_exact hsum]
  exact rep_set h hw hvalue

/-- An entry of the map that expires early enough is one whose expiry a
`SystemTime` holds. -/
theorem Rep.dated {s : Server} {m : TtlMap String} {key : String} (h : Rep s m)
    (htime : ∀ e ∈ m.lookup s.now.toNat key, ∀ secs ∈ e.expiresAt, secs < systemTimeEnd) :
    (s.slot key).found.all Entry.dated = true := by
  cases hx : (s.slot key).found with
  | none => rfl
  | some e =>
    have hlookup : m.lookup s.now.toNat key = some e.exact := by rw [← h key, hx, Option.map_some]
    simp only [Option.all_some, Entry.dated, Option.all_eq_true, fitsSystemTime, decide_eq_true_eq]
    intro secs hsecs
    exact htime _ hlookup _ (Option.mem_map_of_mem _ hsecs)

/-- **One call.**  With its seconds in range it returns what the map returns, and
the bucket stands for the map after it. -/
theorem Rep.call (api : CounterApi) {s : Server} {m : TtlMap String} (h : Rep s m ∧ Plain s)
    {op : Op} (hop : op.PlainClient) (hrange : m.InRange s.now.toNat op) :
    ∃ x s', (op.program api).exec answer s = some (x, s') ∧
      x.map Reply.exact = (m.call api s.now.toNat op).1 ∧
      Rep s' (m.call api s.now.toNat op).2 ∧ Plain s' := by
  cases op with
  | get key =>
    refine ⟨_, s, Prog.exec_bind_ok (exec_get_dated (h.1.dated (hrange.time key rfl))), ?_, h⟩
    rw [TtlMap.call, ← h.1 key]
    rfl
  | put key value ttl =>
    obtain ⟨s', hexec, hw⟩ := exec_put s key value ttl
    exact ⟨_, s', Prog.exec_bind_ok hexec, rfl, rep_ttl h hw hrange.sum hop⟩
  | putIfAbsent key value ttl =>
    rw [TtlMap.call, ← h.1 key]
    cases hx : (s.slot key).found with
    | none =>
      obtain ⟨s', hexec, hw⟩ := exec_putIfAbsent_absent hx value ttl
      exact ⟨_, s', Prog.exec_bind_ok hexec, rfl, rep_ttl h hw hrange.sum hop⟩
    | some e =>
      obtain ⟨revision, hslot⟩ := slot_of_found hx
      obtain ⟨s', hexec, hsame⟩ := exec_putIfAbsent_live hslot value ttl
      exact ⟨_, s', Prog.exec_bind_ok hexec, rfl, rep_same h hsame⟩
  | delete key =>
    obtain ⟨s', hexec, hw⟩ := exec_delete s key
    refine ⟨_, s', Prog.exec_bind_ok hexec, ?_, h.1.remove hw, h.2.remove hw⟩
    rw [TtlMap.call, ← h.1 key, Option.isSome_map]
    rfl
  | expire key ttl =>
    have hsum := hrange.sum
    rw [TtlMap.adds, ← h.1 key] at hsum
    rw [TtlMap.call, ← h.1 key]
    cases hx : (s.slot key).found with
    | none => exact ⟨_, s, Prog.exec_bind_ok (exec_expire_absent hx ttl), rfl, h⟩
    | some e =>
      obtain ⟨revision, hslot⟩ := slot_of_found hx
      obtain ⟨s', hexec, hw⟩ := exec_expire_live hslot ttl
      have hplain := h.2 key e hx
      rw [hx] at hsum
      exact ⟨_, s', Prog.exec_bind_ok hexec, rfl, rep_ttl h hw hsum hplain⟩
  | updateCounter op key ttl step =>
    rw [TtlMap.call, ← h.1 key]
    have hsum : ∀ d ∈ ttl, s.now.toNat + max d.secs.toNat 1 < UInt64.size := hrange.sum
    rcases exec_updateCounter key api hsum op step with ⟨e, hcount, hexec⟩ |
      ⟨next, e, s', hcount, hexec, hstored⟩
    · rw [hcount]
      exact ⟨_, s, Prog.exec_bind_error hexec, rfl, h⟩
    · rw [hcount]
      refine ⟨_, s', Prog.exec_bind_ok hexec, rfl, ?_⟩
      rcases hstored with ⟨rfl, hfound⟩ | ⟨hbytes, hw⟩
      · -- the counter stays as it is
        refine ⟨fun k => ?_, h.2⟩
        by_cases hk : k = key
        · subst hk
          rw [hfound, TtlMap.lookup_set_self, expired_exact, not_expired_of_found hfound]
          rfl
        · rw [TtlMap.lookup_set_ne _ _ _ hk]
          exact h.1 k
      · exact rep_set h hw (hbytes ▸ magic_not_prefix_renderI64 next)
  | _ => exact absurd hop id

/-! ## Between the calls -/

/-- Time passes. -/
theorem Rep.env {s s' : Server} {m : TtlMap String} (h : Rep s m ∧ Plain s) {v : Env}
    (hv : v.apply s = some s') : Rep s' m ∧ Plain s' := by
  cases v with
  | setIndexReady ready =>
    cases Option.some.inj hv
    exact h
  | tick t =>
    have hnow := (env_later hv).2
    simp only [Env.apply] at hv
    split at hv
    · cases Option.some.inj hv
      refine ⟨fun key => ?_, fun key e he => ?_⟩
      · show _ = m.lookup (unixSecs t).toNat key
        have hle : s.now.toNat ≤ (unixSecs t).toNat := UInt64.le_iff_toNat_le.1 hnow
        rw [TtlMap.lookup_mono hle key, ← h.1 key, found_tick hnow]
        cases (s.slot key).found with
        | none => rfl
        | some e =>
          cases hexp : isExpiredAt (unixSecs t) e.expiresAt <;>
            simp [Option.filter, hexp, expired_exact]
      · rw [found_tick hnow] at he
        exact h.2 key e (Option.filter_eq_some_iff.1 he).1
    · cases hv

/-- A step of a sweep or a backfill. -/
theorem Rep.leavesReads {s s' : Server} {m : TtlMap String} (h : Rep s m ∧ Plain s) {t : Nat}
    {log : List KvEvent} (hs : LeavesReads t log s s') (hnow : s'.now = s.now) :
    Rep s' m ∧ Plain s' := by
  have hfound : ∀ key, (s'.slot key).found = (s.slot key).found := fun key => (hs.1 key).1
  refine ⟨fun key => ?_, fun key e he => ?_⟩
  · rw [hfound, hnow]
    exact h.1 key
  · rw [hfound] at he
    exact h.2 key e he

/-- Sweeps and backfills and nothing else run from `s` to `s'`, beside each
other and with time passing. -/
def Maintained (api : CounterApi) (s s' : Server) : Prop :=
  ∃ cs w, (∀ op, .start op ∈ cs → op.maintains = true) ∧
    World.run (kvSystem api) (KvWorld.start s) cs = some w ∧ w.srv = s'

/-- **Maintenance is invisible.** -/
theorem Rep.maintenance {api : CounterApi} {s s' : Server} {m : TtlMap String} (hs : s.Agrees)
    (h : Rep s m ∧ Plain s) (hrun : Maintained api s s') :
    s'.Agrees ∧ Rep s' m ∧ Plain s' := by
  obtain ⟨cs, w, hcs, hrun, rfl⟩ := hrun
  induction cs using List.reverseRecOn generalizing w with
  | nil =>
    cases Option.some.inj hrun
    exact ⟨hs, h⟩
  | append_singleton cs c ih =>
    refine ⟨(sweep_run hs hrun).2.1, ?_⟩
    rw [World.run_concat] at hrun
    obtain ⟨w₁, hrun₁, hstep⟩ := Option.bind_eq_some_iff.1 hrun
    have hcs₁ : ∀ op, .start op ∈ cs → op.maintains = true :=
      fun op hop => hcs op (List.mem_append_left _ hop)
    have h₁ := (ih w₁ hcs₁ hrun₁).2
    have hpool := (sweep_run hs hrun₁).1
    cases c with
    | start op =>
      obtain ⟨p, -, rfl⟩ := World.step_start hstep
      exact h₁
    | env v =>
      obtain ⟨s', hv, rfl⟩ := World.step_env hstep
      exact h₁.elim fun hrep hplain => Rep.env ⟨hrep, hplain⟩ hv
    | deliver t =>
      obtain ⟨th, l, -, -, rfl⟩ := World.step_deliver hstep
      exact h₁
    | act who mode =>
      rcases hpool.guar_step (sweepDuty_kept api).sound hstep with
        hsame | ⟨th, r, x, l, l', hth, hguar, hserve⟩
      · rw [hsame]
        exact h₁
      · have hmaintains := World.run_ops hcs₁ hrun₁ hth
        have hclock : w.srv.clock = w₁.srv.clock := by
          rcases serve_state hserve with heq | heq
          · rw [heq]
          · rw [heq, effect_clock]
        exact Rep.leavesReads h₁ (leavesReads_of_serve hmaintains hguar hserve)
          (congrArg unixSecs hclock)

/-! ## Sessions -/

/-- One call of a session: when it ran, what was called, and what it returned. -/
structure Call where
  now : UInt64
  op : Op
  result : Except ClusterError Reply

/-- A session: calls one after the other, with time, sweeps and backfills
between them. -/
inductive Session (api : CounterApi) : Server → List Call → Server → Prop
  | nil (s : Server) : Session api s [] s
  | call {s s₁ s₂ : Server} {op : Op} {x : Except ClusterError Reply} {calls : List Call}
      (hexec : (op.program api).exec answer s = some (x, s₁)) (rest : Session api s₁ calls s₂) :
      Session api s (⟨s.now, op, x⟩ :: calls) s₂
  | env {s s₁ s₂ : Server} {v : Env} {calls : List Call} (hv : v.apply s = some s₁)
      (rest : Session api s₁ calls s₂) : Session api s calls s₂
  | maintenance {s s₁ s₂ : Server} {calls : List Call} (hm : Maintained api s s₁)
      (rest : Session api s₁ calls s₂) : Session api s calls s₂

/-- What the map returns for the calls of a session, and the map after it. -/
def TtlMap.session (api : CounterApi) : TtlMap String → List Call →
    List (Except ClusterError TtlReply) × TtlMap String
  | m, [] => ([], m)
  | m, c :: calls =>
    let step := m.call api c.now.toNat c.op
    let rest := TtlMap.session api step.2 calls
    (step.1 :: rest.1, rest.2)

/-- The seconds of every call of a session are in range, on the map before it. -/
def TtlMap.SessionInRange (api : CounterApi) : TtlMap String → List Call → Prop
  | _, [] => True
  | m, c :: calls => m.InRange c.now.toNat c.op ∧
    TtlMap.SessionInRange api (m.call api c.now.toNat c.op).2 calls

/-- **The store refines a map whose entries expire**, while its seconds are in
range.  From any bucket of records that this build or an older one wrote, a
session of calls in range, whose values do not look like envelopes, returns what
the map returns that the bucket stood for at the start; the bucket stands for
the map after it, and the next call in range returns. -/
theorem store_refines_ttlMap (api : CounterApi) {s s' : Server} {m : TtlMap String}
    {calls : List Call} (hwf : s.WellFormed) (hplain : Plain s) (hrep : Rep s m)
    (hops : ∀ c ∈ calls, c.op.PlainClient) (hrange : m.SessionInRange api calls)
    (hsession : Session api s calls s') :
    calls.map (fun c => c.result.map Reply.exact) = (m.session api calls).1 ∧
      Rep s' (m.session api calls).2 ∧
      ∀ op : Op, op.PlainClient → (m.session api calls).2.InRange s'.now.toNat op →
        ∃ x s'', (op.program api).exec answer s' = some (x, s'') := by
  have hagrees := hwf.agrees
  have h : Rep s m ∧ Plain s := ⟨hrep, hplain⟩
  clear hrep hplain hwf
  induction hsession generalizing m with
  | nil s =>
    refine ⟨rfl, h.1, fun op hop hnext => ?_⟩
    obtain ⟨x, s'', hexec, -⟩ := Rep.call api h hop hnext
    exact ⟨x, s'', hexec⟩
  | @call s s₁ s₂ op x calls hexec rest ih =>
    have hop := hops _ (List.mem_cons_self ..)
    obtain ⟨x', s₁', hcall, hresult, h₁⟩ := Rep.call api h hop hrange.1
    obtain ⟨rfl, rfl⟩ : x = x' ∧ s₁ = s₁' := by
      simpa using hexec.symm.trans hcall
    have hsimple : op.Simple := by
      cases op <;> trivial
    have hagrees₁ : s₁.Agrees := Prog.exec_keeps (I := Server.Agrees) (P := Req.Agrees)
      (fun hP hserve hs => by
        obtain ⟨y, hy, heq⟩ := Option.map_eq_some_iff.1 hserve
        cases heq
        rcases serve_state hy with hsame | heff
        · exact hsame ▸ hs
        · exact heff ▸ Server.Agrees.effect hs hP) (requests_op asks_agrees api hsimple) hexec hagrees
    obtain ⟨hresults, hrest⟩ :=
      ih (fun c hc => hops c (List.mem_cons_of_mem _ hc)) hrange.2 hagrees₁ h₁
    refine ⟨?_, hrest⟩
    rw [List.map_cons, hresults, hresult]
    rfl
  | env hv rest ih =>
    refine ih hops hrange ?_ (Rep.env h hv)
    intro key r hr
    rw [(env_later hv).1] at hr
    exact hagrees key r hr
  | maintenance hm rest ih =>
    obtain ⟨hagrees₁, h₁⟩ := Rep.maintenance hagrees h hm
    exact ih hops hrange hagrees₁ h₁

/-- A whole sweep that removes the expired record. -/
def sweepToEnd : List KvChoice :=
  sweepToRemoval ++ [.act (.job 0 0) .ok, .act (.job 0 0) .ok, .act (.main 0) .ok,
    .act (.main 0) .ok]

/-- An expired record is swept; the key is then put for a minute and read, and
read again after it. -/
theorem store_refines_ttlMap_session : ∃ calls s',
    Session decimalCounters expiredServer calls s' ∧
      calls.map (fun c => c.result.map Reply.exact) =
        [.ok .done, .ok (.entry (some ⟨[1], some 69⟩)), .ok (.entry none)] := by
  have hswept : ∃ w ∈ World.run (kvSystem decimalCounters) (KvWorld.start expiredServer) sweepToEnd,
      w.srv.clock = 9000000000 := by decide +kernel
  obtain ⟨w, hrun, hclock⟩ := hswept
  have hmaintained : Maintained decimalCounters expiredServer w.srv :=
    ⟨sweepToEnd, w, by simp [sweepToEnd, sweepToRemoval, Op.maintains], hrun, rfl⟩
  obtain ⟨s₁, hput, hwrote⟩ := exec_put w.srv "k" [1] (some (.fromSecs 60))
  have hnow : w.srv.now = 9 := by rw [Server.now, hclock]; rfl
  have hnow₁ : s₁.now = 9 := hwrote.now.trans hnow
  -- the value is found until its minute is over
  have hfound : (s₁.slot "k").found = some ⟨[1], some 69⟩ := by
    have hexpiry : w.srv.deadline (some (.fromSecs 60)) = some 69 := by
      rw [Server.deadline, hnow]
      rfl
    rw [hwrote.found (by decide), hexpiry, hnow₁]
    rfl
  let s₂ : Server := { s₁ with clock := 70000000000 }
  have htick : Env.apply (.tick 70000000000) s₁ = some s₂ := by
    rw [Env.apply, hwrote.clock, hclock]
    rfl
  have hlapsed : (s₂.slot "k").found = none := by
    rw [found_tick (by rw [hnow₁]; decide), hfound]
    rfl
  have hsession : Session decimalCounters expiredServer
      [⟨w.srv.now, .put "k" [1] (some (.fromSecs 60)), .ok .done⟩,
        ⟨s₁.now, .get "k", .ok (.entry (s₁.slot "k").found)⟩,
        ⟨s₂.now, .get "k", .ok (.entry (s₂.slot "k").found)⟩] s₂ :=
    .maintenance hmaintained <| .call (Prog.exec_bind_ok hput) <|
      .call (Prog.exec_bind_ok (exec_get_dated (by rw [hfound]; rfl))) <| .env htick <|
      .call (Prog.exec_bind_ok (exec_get_dated (by rw [hlapsed]; rfl))) (.nil s₂)
  have hnow₂ : s₂.now = 70 := by
    show unixSecs 70000000000 = 70
    rfl
  have hplain : Plain expiredServer := by
    intro key e he
    have hlive : expiredServer.Live key := by rw [Server.Live, he]; rfl
    exact absurd hlive (expiredServer_not_live key)
  refine ⟨_, s₂, hsession, ?_⟩
  refine (store_refines_ttlMap decimalCounters expiredServer_wellFormed hplain (rep_toMap _) ?_ ?_
    hsession).1.trans ?_
  · simp [Op.PlainClient, ttlEnvelopeMagic]
  · rw [hnow, hnow₁, hnow₂]
    refine ⟨⟨?_, ?_⟩, ⟨?_, ?_⟩, ⟨?_, ?_⟩, trivial⟩
    · rintro d ⟨⟩
      decide
    · rintro key ⟨⟩
    · rintro d ⟨⟩
    · rintro key ⟨⟩ e he secs hsecs
      have hlookup : e = ⟨[1], some 69⟩ := (Option.some.inj he).symm
      rw [hlookup] at hsecs
      cases hsecs
      decide
    · rintro d ⟨⟩
    · rintro key ⟨⟩ e he
      cases he
  · rw [hnow, hnow₁, hnow₂]
    rfl

/-- Five seconds after the epoch, with nothing stored. -/
def earlyServer : Server := { emptyServer with clock := 5000000000 }

/-- With the longest TTL the sum wraps: the put returns, and the key is absent
while the map has its entry.  With a TTL of `2^63` seconds the put returns, and
the next read does not. -/
theorem store_refines_ttlMap_wrapped : earlyServer.WellFormed ∧ Plain earlyServer ∧
    (∃ calls s', Session decimalCounters earlyServer calls s' ∧
      (∀ c ∈ calls, c.op.PlainClient) ∧ calls.map (fun c => c.result.map Reply.exact) ≠
        (earlyServer.toMap.session decimalCounters calls).1) ∧
    ∃ calls s', Session decimalCounters earlyServer calls s' ∧
      (∀ c ∈ calls, c.op.PlainClient) ∧
      ((Op.get "k").program decimalCounters).exec answer s' = none := by
  have habsent : ∀ key, (earlyServer.slot key).found = none := fun key => rfl
  refine ⟨emptyServer_wellFormed, ?_, ?_, ?_⟩
  · intro key e he
    rw [habsent] at he
    cases he
  · obtain ⟨s₁, hput, hwrote⟩ := exec_put earlyServer "k" [1] (some (.fromSecs 18446744073709551615))
    have hfound : (s₁.slot "k").found = none := by
      rw [hwrote.found (by decide), hwrote.now]
      rfl
    have hsession : Session decimalCounters earlyServer
        [⟨earlyServer.now, .put "k" [1] (some (.fromSecs 18446744073709551615)), .ok .done⟩,
          ⟨s₁.now, .get "k", .ok (.entry (s₁.slot "k").found)⟩] s₁ :=
      .call (Prog.exec_bind_ok hput) <|
        .call (Prog.exec_bind_ok (exec_get_dated (by rw [hfound]; rfl))) (.nil s₁)
    refine ⟨_, s₁, hsession, ?_, ?_⟩
    · simp [Op.PlainClient, ttlEnvelopeMagic]
    · rw [hfound, hwrote.now]
      decide
  · obtain ⟨s₁, hput, hwrote⟩ := exec_put earlyServer "k" [1] (some (.fromSecs 9223372036854775808))
    have hfound : (s₁.slot "k").found = some ⟨[1], some 9223372036854775813⟩ := by
      rw [hwrote.found (by decide), hwrote.now]
      rfl
    have hsession : Session decimalCounters earlyServer
        [⟨earlyServer.now, .put "k" [1] (some (.fromSecs 9223372036854775808)), .ok .done⟩] s₁ :=
      .call (Prog.exec_bind_ok hput) (.nil s₁)
    have hstuck : (get "k").exec answer s₁ = none := by
      rw [exec_get, hfound]
      rfl
    refine ⟨_, s₁, hsession, ?_, ?_⟩
    · simp [Op.PlainClient, ttlEnvelopeMagic]
    · exact Prog.exec_bind_none hstuck

end ClusterNats
