import ClusterNats.Kv.Alone
import ClusterNats.Kv.Counter
import ClusterNats.Kv.Own
import ClusterNats.Kv.Requests
import ClusterNats.Lease.Store

/-!
# How long a key lives

A write with a TTL reads the clock and stores, in whole seconds, when its value
expires.  Every reader compares that with its own clock in whole seconds.

* `Op.ttlWrite?` — the calls that write with a TTL.
* `Dates`, `run_dates` — the expiry they store is that of a clock reading of their
  own.
* `LivesUntil`, `livesUntil_iff` — when a stored value is live up to an instant.
* `lives_for_ttl` — when a value lives for its TTL.
-/

namespace ClusterNats

open Conc

/-! ## What a call with a TTL stores -/

/-- The key and the TTL of a call that writes with a TTL. -/
def Op.ttlWrite? : Op → Option (String × Duration)
  | .put key _ (some d) => some (key, d)
  | .putIfAbsent key _ (some d) => some (key, d)
  | .expire key (some d) => some (key, d)
  | .updateCounter _ key (some d) _ => some (key, d)
  | _ => none

/-- One of the events is a clock reading after which `exp` is the expiry. -/
def Dated (d : Duration) (exp : Option UInt64) (tr : List KvEvent) : Prop :=
  ∃ reading ∈ tr, reading.req = .systemTime ∧ exp = reading.pre.deadline (some d)

/-- A data record of `key` has an expiry that a clock reading gave. -/
def Dates (key : String) (d : Duration) (tr : List KvEvent) (r : Req) : Prop :=
  ∀ headers payload expected, r = .publish (encodeKey key) headers payload expected →
    ∃ value exp, headers = [(expiresHeader, renderU64 (exp.getD 0))] ∧
      payload = encodeValue value exp ∧ Dated d exp tr

theorem Dated.mono {d : Duration} {exp : Option UInt64} {tr tr' : List KvEvent}
    (h : Dated d exp tr) (htr : tr <:+ tr') : Dated d exp tr' := by
  obtain ⟨reading, hmem, hreq, hexp⟩ := h
  exact ⟨reading, htr.subset hmem, hreq, hexp⟩

/-- A request that writes no data record of `key`, or one with the expiry `exp`. -/
def WritesWith (key : String) (exp : Option UInt64) (r : Req) : Prop :=
  ∀ headers payload expected, r = .publish (encodeKey key) headers payload expected →
    ∃ value, headers = [(expiresHeader, renderU64 (exp.getD 0))] ∧ payload = encodeValue value exp

theorem WritesWith.dates {key : String} {d : Duration} {exp : Option UInt64} {tr : List KvEvent}
    {r : Req} (h : WritesWith key exp r) (hexp : Dated d exp tr) : Dates key d tr r := by
  intro headers payload expected hr
  obtain ⟨value, hheaders, hpayload⟩ := h headers payload expected hr
  exact ⟨value, exp, hheaders, hpayload, hexp⟩

/-- A request that writes no data record of `key`. -/
def NoData (key : String) (r : Req) : Prop :=
  ∀ headers payload expected, r ≠ .publish (encodeKey key) headers payload expected

theorem NoData.dates {key : String} {d : Duration} {tr : List KvEvent} {r : Req}
    (h : NoData key r) : Dates key d tr r :=
  fun headers payload expected hr => absurd hr (h headers payload expected)

theorem noData_of_read {key : String} (r : Req) (h : r.isWrite = false) : NoData key r := by
  rintro headers payload expected rfl
  exact absurd h (by simp [Req.isWrite])

/-- The upkeep of the index writes no data record. -/
theorem asks_noData (key : String) : AsksIndex key (NoData key) where
  read := noData_of_read
  index _ _ _ _ _ _ hr := (encodeKey_ne_indexKey key key).symm (Req.publish.inj hr).1
  purge _ _ _ _ hr := nomatch hr

theorem writesWith_publish {key : String} {value : Bytes} {exp : Option UInt64}
    {expected : Option Nat} : WritesWith key exp (.publish (encodeKey key)
      [(expiresHeader, renderU64 (exp.getD 0))] (encodeValue value exp) expected) := by
  rintro headers payload expected' hr
  cases hr
  exact ⟨value, rfl, rfl⟩

section Programs

variable {api : CounterApi} {who : Actor} {key : String} {d : Duration} {α β : Type}
  {tr : List KvEvent}

/-- The check that a program dates its data records. -/
abbrev DatesAll (api : CounterApi) (who : Actor) (key : String) (d : Duration) (p : Kv α)
    (tr : List KvEvent) : Prop :=
  p.Abides who (World.Served (kvSystem api) fun _ => True) (Dates key d) (fun _ _ => True) tr

/-- A first part that writes no data record. -/
theorem datesAll_bind {p : Kv α} {f : α → Kv β} (h : p.Requests (NoData key))
    (hf : ∀ a tr', tr <:+ tr' → DatesAll api who key d (f a) tr') : DatesAll api who key d (p >>= f) tr :=
  Prog.abides_bind_requests h (fun _ _ _ hr => hr.dates) hf fun _ _ _ => trivial

/-- A first part that writes data records with one expiry. -/
theorem datesAll_bind_write {p : Kv α} {f : α → Kv β} {exp : Option UInt64}
    (hexp : Dated d exp tr) (h : p.Requests (WritesWith key exp))
    (hf : ∀ a tr', tr <:+ tr' → DatesAll api who key d (f a) tr') : DatesAll api who key d (p >>= f) tr :=
  Prog.abides_bind_requests h (fun _ _ htr hr => hr.dates (hexp.mono htr)) hf fun _ _ _ => trivial

/-- A program that writes no data record. -/
theorem datesAll_of_requests {p : Kv α} (h : p.Requests (NoData key)) : DatesAll api who key d p tr := by
  have hbind : DatesAll api who key d (p >>= fun a => Prog.ret a) tr :=
    datesAll_bind h fun _ _ _ => trivial
  rwa [Prog.bind_ret_right] at hbind

/-- The expiry of a TTL is that of the clock reading it makes. -/
theorem datesAll_expiresAtFrom {f : Option UInt64 → Kv α}
    (h : ∀ exp tr', tr <:+ tr' → Dated d exp tr' → DatesAll api who key d (f exp) tr') :
    DatesAll api who key d (expiresAtFrom (some d) >>= f) tr := by
  refine ⟨(noData_of_read _ rfl).dates, fun t s ht => h _ _ (List.suffix_cons _ _) ?_⟩
  obtain ⟨m, l, s', l', -, hserve⟩ := ht
  have hclock : s.clock = t := (Prod.mk.inj (Option.some.inj hserve)).1
  refine ⟨_, List.mem_cons_self, rfl, ?_⟩
  rw [← hclock]
  rfl

/-! ## The calls -/

theorem datesAll_put (value : Bytes) : DatesAll api who key d (put key value (some d)) tr := by
  refine datesAll_expiresAtFrom fun exp tr₁ _ hexp => ?_
  refine datesAll_bind_write hexp (requests_publish writesWith_publish) fun data tr₂ _ => ?_
  refine datesAll_bind (requests_publishIndex (asks_noData key)) fun index tr₃ _ => ?_
  refine datesAll_of_requests ?_
  split
  · exact Prog.Requests.ofExcept.map
  · exact requests_refused (asks_noData key) _ _
  · trivial

theorem datesAll_putIfAbsent (value : Bytes) :
    DatesAll api who key d (putIfAbsent key value (some d)) tr := by
  refine datesAll_expiresAtFrom fun exp tr₁ _ hexp => ?_
  have hrounds : ∀ rounds expect tr', tr₁ <:+ tr' →
      DatesAll api who key d (putIfAbsentRounds key value exp rounds expect) tr' := by
    intro rounds
    induction rounds with
    | zero => exact fun _ _ _ => trivial
    | succ rounds ih =>
      intro expect tr₂ htr₂
      refine datesAll_bind_write (hexp.mono htr₂) (requests_publish writesWith_publish)
        fun claim tr₃ htr₃ => ?_
      refine datesAll_bind (requests_publishIndex (asks_noData key)) fun index tr₄ htr₄ => ?_
      split
      · exact datesAll_of_requests (Prog.Requests.bind Prog.Requests.ofExcept.map fun _ => trivial)
      · exact datesAll_of_requests (requests_refused (asks_noData key) _ _)
      · refine datesAll_bind (requests_slot noData_of_read _ key) fun x tr₅ htr₅ => ?_
        have htr := htr₂.trans (htr₃.trans (htr₄.trans htr₅))
        cases x with
        | live value' exp' revision => trivial
        | dead revision => exact ih _ tr₅ htr
        | empty => exact ih _ tr₅ htr
  exact hrounds _ _ _ List.suffix_rfl

theorem datesAll_expire : DatesAll api who key d (expire key (some d)) tr := by
  have hrounds : ∀ rounds tr, DatesAll api who key d (expireRounds key (some d) rounds) tr := by
    intro rounds
    induction rounds with
    | zero => exact fun _ => trivial
    | succ rounds ih =>
      intro tr₁
      refine datesAll_bind (requests_slot noData_of_read _ key) fun x tr₂ _ => ?_
      cases x with
      | live value exp revision =>
        refine datesAll_expiresAtFrom fun exp' tr₃ _ hexp => ?_
        refine datesAll_bind_write hexp (requests_write writesWith_publish) fun written tr₄ _ => ?_
        split
        · trivial
        · exact ih tr₄
        · trivial
      | _ => trivial
  exact hrounds _ _

/-- Whatever a counter call reads, its write has the expiry of the TTL. -/
theorem datesAll_readCounter (counters : CounterApi)
    {f : Int64 × Option UInt64 × Expect × Bool → Kv α}
    (h : ∀ read tr', tr <:+ tr' → Dated d read.2.1 tr' → DatesAll api who key d (f read) tr') :
    DatesAll api who key d (readCounter counters key (some d) >>= f) tr := by
  unfold readCounter
  rw [LawfulMonad.bind_assoc]
  refine datesAll_bind (requests_slot noData_of_read _ key) fun x tr₁ htr₁ => ?_
  cases x with
  | empty =>
    dsimp only
    rw [LawfulMonad.bind_assoc]
    refine datesAll_expiresAtFrom fun exp tr₂ htr₂ hexp => ?_
    exact h (0, exp, .nothing, true) tr₂ (htr₁.trans htr₂) hexp
  | dead revision =>
    dsimp only
    rw [LawfulMonad.bind_assoc]
    refine datesAll_expiresAtFrom fun exp tr₂ htr₂ hexp => ?_
    exact h (0, exp, .revision revision, true) tr₂ (htr₁.trans htr₂) hexp
  | live value exp revision =>
    dsimp only
    rw [LawfulMonad.bind_assoc]
    refine datesAll_expiresAtFrom fun exp' tr₂ htr₂ hexp => ?_
    rw [LawfulMonad.bind_assoc]
    refine datesAll_bind Prog.Requests.ofExcept fun current tr₃ htr₃ => ?_
    exact h (current, exp', .revision revision, false) tr₃ (htr₁.trans (htr₂.trans htr₃))
      (hexp.mono htr₃)

theorem datesAll_updateCounter (counters : CounterApi) (op : String)
    (step : Int64 → Except ClusterError Int64) :
    DatesAll api who key d (updateCounter counters op key (some d) step) tr := by
  have hrounds : ∀ rounds tr,
      DatesAll api who key d (updateCounterRounds counters op key (some d) step rounds) tr := by
    intro rounds
    induction rounds with
    | zero => exact fun _ => trivial
    | succ rounds ih =>
      intro tr₁
      refine datesAll_readCounter counters fun read tr₂ _ hexp => ?_
      refine datesAll_bind Prog.Requests.ofExcept fun next tr₃ htr₃ => ?_
      split
      · trivial
      · refine datesAll_bind_write (hexp.mono htr₃) (requests_publish writesWith_publish)
          fun pending tr₄ _ => ?_
        refine datesAll_bind (p := indexCreated key read.2.2.2) ?_ fun indexed tr₅ _ => ?_
        · unfold indexCreated
          split
          · exact (requests_publishIndex (asks_noData key)).map
          · trivial
        · split
          · exact datesAll_of_requests (Prog.Requests.bind Prog.Requests.ofExcept.map fun _ => trivial)
          · exact ih tr₅
          · exact datesAll_of_requests (requests_refused (asks_noData key) _ _)
  exact hrounds _ _

/-- Every call that writes with a TTL dates its data records. -/
theorem datesAll_program (counters : CounterApi) {op : Op} (hop : op.ttlWrite? = some (key, d)) :
    DatesAll api who key d (op.program counters) tr := by
  cases op with
  | put k value ttl =>
    cases ttl with
    | none => exact nomatch hop
    | some d' =>
      obtain ⟨rfl, rfl⟩ := Prod.mk.inj (Option.some.inj hop)
      exact (datesAll_put value).map fun _ _ _ => trivial
  | putIfAbsent k value ttl =>
    cases ttl with
    | none => exact nomatch hop
    | some d' =>
      obtain ⟨rfl, rfl⟩ := Prod.mk.inj (Option.some.inj hop)
      exact (datesAll_putIfAbsent value).map fun _ _ _ => trivial
  | expire k ttl =>
    cases ttl with
    | none => exact nomatch hop
    | some d' =>
      obtain ⟨rfl, rfl⟩ := Prod.mk.inj (Option.some.inj hop)
      exact datesAll_expire.map fun _ _ _ => trivial
  | updateCounter name k ttl step =>
    cases ttl with
    | none => exact nomatch hop
    | some d' =>
      obtain ⟨rfl, rfl⟩ := Prod.mk.inj (Option.some.inj hop)
      exact (datesAll_updateCounter counters name step).map fun _ _ _ => trivial
  | _ => exact nomatch hop

end Programs

/-- What a call owes at a request: to date its data records, when it has a TTL. -/
def DatesOwn (op : Op) (_ : Actor) (tr : List KvEvent) (r : Req) : Prop :=
  op.ttlWrite?.elim True fun x => Dates x.1 x.2 tr r

/-- **A data record of a call with a TTL has the expiry of a clock reading the
call made before.** -/
theorem run_dates {api : CounterApi} {s₀ : Server} {cs : List KvChoice} {w : KvWorld}
    (hrun : World.run (kvSystem api) (KvWorld.start s₀) cs = some w) {t : Nat} {th : KvThread}
    (hth : w.threads[t]? = some th) {key : String} {d : Duration}
    (hop : th.op.ttlWrite? = some (key, d)) {e : KvEvent} {older : List KvEvent}
    (he : (e :: older) <:+ w.log) (hwho : e.who = .main t) :
    Dates key d (ownEvents (.main t) older) e.req := by
  have habiding : World.Abiding (World.Served (kvSystem api) fun _ => True) DatesOwn
      (fun _ _ _ _ => True) w := by
    refine World.run_abiding (fun _ => True) (fun _ h => h) (fun _ op p hcall t => ?_)
      (fun c _ => by cases c <;> trivial) hrun
    cases Option.some.inj hcall
    cases hwrite : op.ttlWrite? with
    | none =>
      refine Prog.abides_of_free (fun tr r => ?_) fun _ _ => trivial
      rw [DatesOwn, hwrite]
      trivial
    | some x =>
      have hguard : DatesOwn op (.main t) = Dates x.1 x.2 := by
        funext tr r
        rw [DatesOwn, hwrite, Option.elim]
      rw [hguard]
      exact datesAll_program api hwrite
  have hguard := habiding.guarded t th hth e older he hwho
  rwa [DatesOwn, hop] at hguard

/-! ## The clock of a run -/

/-- The clock went on, and shows what it can show. -/
def ClockLater (s s' : Server) : Prop :=
  s.clock ≤ s'.clock ∧ (Representable s.clock → Representable s'.clock)

theorem ClockLater.trans {s s' s'' : Server} (h : ClockLater s s') (h' : ClockLater s' s'') :
    ClockLater s s'' := ⟨Nat.le_trans h.1 h'.1, fun hrep => h'.2 (h.2 hrep)⟩

theorem serve_clockLater {m : Mode} {s s' : Server} {c c' : Option Consumer} {r : Req} {x : Resp r}
    (h : serve m s c r = some (x, s', c')) : ClockLater s s' := by
  have hclock : s'.clock = s.clock := by
    rcases serve_state h with rfl | rfl
    · rfl
    · exact effect_clock s r
  rw [ClockLater, hclock]
  exact ⟨Nat.le_refl _, id⟩

/-- Time only goes on from an event to a later one. -/
theorem history_clockLater {api : CounterApi} {ok : Mode → Prop} {s₀ s : Server}
    {log : List KvEvent} (h : History (kvSystem api) ok s₀ log s) :
    (∀ e ∈ log, ClockLater e.pre s) ∧ log.Pairwise fun e d => ClockLater d.pre e.pre := by
  refine h.induction (P := fun l s => (∀ e ∈ l, ClockLater e.pre s) ∧
    l.Pairwise fun e d => ClockLater d.pre e.pre) ⟨by simp, .nil⟩ ?_ ?_
  · rintro l v s₁ s₂ ⟨hlater, hpairs⟩ hs
    have hstep : ClockLater s₁ s₂ := by
      cases v with
      | tick t =>
        obtain ⟨⟨hle, hrep⟩, hs⟩ := Option.ite_none_right_eq_some.1 hs
        cases Option.some.inj hs
        exact ⟨hle, fun _ => hrep⟩
      | setIndexReady ready =>
        cases Option.some.inj hs
        exact ⟨Nat.le_refl _, id⟩
    exact ⟨fun e he => (hlater e he).trans hstep, hpairs⟩
  · rintro l e m c s' c' - ⟨hlater, hpairs⟩ - hserve
    have hstep := serve_clockLater hserve
    refine ⟨fun e' he' => ?_, List.pairwise_cons.2 ⟨hlater, hpairs⟩⟩
    rcases List.mem_cons.1 he' with rfl | he'
    · exact hstep
    · exact (hlater e' he').trans hstep

/-! ## Living -/

/-- While the record is the key's last, `slot` reads its value as live before
`limit`. -/
def LivesUntil (key : String) (m : StoredMessage) (value : Bytes) (exp : Option UInt64)
    (limit : Instant) : Prop :=
  ∀ s : Server, s.bucket.last (encodeKey key) = some m → Representable s.clock →
    m.body.published ≤ s.clock → s.clock < limit →
      (slot (encodeKey key) key).exec answer s = some (.ok (.live value exp m.seq), s)

/-- What `slot` reads of a value with an expiry. -/
theorem exec_slot_dated {key : String} {m : StoredMessage} {value : Bytes} {secs : UInt64}
    {s : Server} (hput : Record.recordOperation m.body.headers = .put)
    (hpayload : m.body.payload = encodeValue value (some secs))
    (hlast : s.bucket.last (encodeKey key) = some m) :
    (slot (encodeKey key) key).exec answer s = some (.ok (if secs ≤ s.now then .dead m.seq
      else .live value (some secs) m.seq), s) := by
  have hdecode : decodeValue m.body.payload = (value, some secs) := by
    rw [hpayload]
    exact decodeValue_encodeValue nofun
  have hop : (Record.ofMessage m).operation = .put := hput
  rw [exec_slot, hlast, Option.map_some, ofRecord_some]
  show some (Except.ok (if (Record.ofMessage m).operation ≠ .put ∨
    isExpiredAt s.now (decodeValue m.body.payload).2 = true then Slot.dead m.seq
      else .live (decodeValue m.body.payload).1 (decodeValue m.body.payload).2 m.seq), s) = _
  simp only [hop, hdecode, isExpiredAt, Option.any_some, decide_eq_true_eq, ne_eq, not_true,
    false_or]

/-- **When a stored value is live up to an instant.** -/
theorem livesUntil_iff {key : String} {m : StoredMessage} {value : Bytes} {secs : UInt64}
    {limit : Nat} (hput : Record.recordOperation m.body.headers = .put)
    (hpayload : m.body.payload = encodeValue value (some secs))
    (hrep : Representable m.body.published)
    (hstored : ∃ b : Bucket, b.last (encodeKey key) = some m) :
    LivesUntil key m value (some secs) limit ↔
      limit ≤ m.body.published ∨ (limit - 1) / 1000000000 < secs.toNat := by
  constructor
  · intro hlives
    by_contra hcond
    rw [not_or, Nat.not_le, Nat.not_lt] at hcond
    obtain ⟨b, hb⟩ := hstored
    -- the first instant at which the value has expired
    have hsecs : secs.toNat < UInt64.size := UInt64.toNat_lt secs
    have hfirst : ∀ p : Nat, p / 1000000000 < UInt64.size → p < limit →
        ∃ t : Nat, t / 1000000000 < UInt64.size ∧ p ≤ t ∧ t < limit ∧ secs.toNat ≤ t / 1000000000 := by
      intro p hp hlimit
      have hsize : UInt64.size = 18446744073709551616 := rfl
      exact ⟨max p (secs.toNat * 1000000000), by omega, by omega, by omega, by omega⟩
    obtain ⟨t, hrep', hafter, hbefore, hreached⟩ := hfirst m.body.published hrep hcond.1
    have hread := hlives ⟨b, t, true, true⟩ hb hrep' hafter hbefore
    have hexpired : secs ≤ unixSecs t := by
      rw [UInt64.le_iff_toNat_le, toNat_unixSecs hrep']
      exact hreached
    rw [exec_slot_dated hput hpayload hb, Server.now, if_pos hexpired] at hread
    simp at hread
  · intro hcond s hlast hrep' hafter hbefore
    have hfew : ∀ t p : Nat, p ≤ t → t < limit → (limit ≤ p ∨ (limit - 1) / 1000000000 < secs.toNat) →
        t / 1000000000 < secs.toNat := by
      intro t p hle hlt hcond
      omega
    have hlive : ¬ secs ≤ s.now := by
      rw [UInt64.le_iff_toNat_le, Server.now, toNat_unixSecs hrep', Nat.not_le]
      exact hfew s.clock m.body.published hafter hbefore hcond
    rw [exec_slot_dated hput hpayload hlast, if_neg hlive]

/-- The expiry of a TTL, while the sum does not overflow. -/
theorem toNat_deadline {t : Instant} {d : Duration}
    (h : t / 1000000000 + max d.secs.toNat 1 < UInt64.size) :
    (unixSecs t + max d.secs 1).toNat = t / 1000000000 + max d.secs.toNat 1 := by
  have hrep : Representable t := Nat.lt_of_le_of_lt (Nat.le_add_right _ _) h
  have hmax : (max d.secs 1).toNat = max d.secs.toNat 1 := by
    show (if d.secs ≤ 1 then (1 : UInt64) else d.secs).toNat = _
    split
    · rename_i hle
      exact (Nat.max_eq_right hle).symm
    · rename_i hlt
      exact (Nat.max_eq_left (Nat.le_of_not_le hlt)).symm
  rw [UInt64.toNat_add, toNat_unixSecs hrep, hmax, Nat.mod_eq_of_lt h]

/-- **When a key lives for its TTL.**  In every run, a call that writes with a TTL
stores the expiry of one of its own clock readings.  The value lives up to the end
of the TTL exactly when the last instant before it is of a second before that of
the reading and the TTL's whole seconds, at least one, together.  Any instant
between the reading and the store may count as the write. -/
theorem lives_for_ttl {api : CounterApi} {s₀ : Server} {cs : List KvChoice} {w : KvWorld}
    (hrun : World.run (kvSystem api) (KvWorld.start s₀) cs = some w) {t : Nat} {th : KvThread}
    (hth : w.threads[t]? = some th) {key : String} {d : Duration}
    (hop : th.op.ttlWrite? = some (key, d)) {headers : HeaderMap} {payload : Bytes}
    {expected : Option Nat} {seq : Nat} {s : Server} {older : List KvEvent}
    (he : (⟨.main t, .publish (encodeKey key) headers payload expected, Except.ok (.ok seq), s⟩ ::
      older : List KvEvent) <:+ w.log) :
    ∃ reading ∈ older, reading.who = .main t ∧ reading.req = .systemTime ∧
      reading.pre.clock ≤ s.clock ∧
      ∃ value, payload = encodeValue value (reading.pre.deadline (some d)) ∧
        (reading.pre.clock / 1000000000 + max d.secs.toNat 1 < UInt64.size →
          ∀ written, reading.pre.clock ≤ written → written ≤ s.clock →
            (LivesUntil key ⟨encodeKey key, seq, ⟨headers, payload, s.clock⟩⟩ value
                (reading.pre.deadline (some d)) (written + Lease.Duration.nanos d) ↔
              written + Lease.Duration.nanos d ≤ s.clock ∨
              (written + Lease.Duration.nanos d - 1) / 1000000000 <
                reading.pre.clock / 1000000000 + max d.secs.toNat 1)) := by
  obtain ⟨value, exp, rfl, rfl, reading, hmem, hreq, rfl⟩ :=
    run_dates hrun hth hop he rfl _ _ _ rfl
  have hhistory : History (kvSystem api) (fun _ => True) s₀ w.log w.srv :=
    World.start_history (fun c _ => by cases c <;> trivial) hrun
  obtain ⟨hown, hwho⟩ := mem_ownEvents.1 hmem
  have hbefore := history_before hhistory he
  obtain ⟨hle, hrep⟩ := (history_clockLater hbefore).1 reading hown
  refine ⟨reading, hown, hwho, hreq, hle, value, rfl, fun hsum written _ _ => ?_⟩
  have hstored : ∃ b : Bucket, b.last (encodeKey key) = some ⟨encodeKey key, seq, ⟨[(expiresHeader,
      renderU64 ((reading.pre.deadline (some d)).getD 0))],
      encodeValue value (reading.pre.deadline (some d)), s.clock⟩⟩ := by
    obtain ⟨post, hpost⟩ := he
    rw [← hpost] at hhistory
    obtain ⟨-, m, l, s', l', -, hserve, -⟩ := hhistory.split
    have hseq : seq = s.bucket.lastSeq + 1 := (serve_stored hserve).2.1
    rw [hseq]
    exact ⟨_, SubjectLog.last_store_self⟩
  have hreading : Representable reading.pre.clock := Nat.lt_of_le_of_lt (Nat.le_add_right _ _) hsum
  rw [← toNat_deadline hsum]
  exact livesUntil_iff rfl rfl (hrep hreading) hstored

/-- A put with a TTL, started at an instant and run to its end. -/
def putAt (t : Instant) (ttlMs : UInt64) : List KvChoice :=
  [.env (.tick t), .start (.put "k" (bytes "v") (some (Lease.fromMillis ttlMs))), .act (.main 0) .ok,
    .act (.main 0) .ok, .act (.main 0) .ok]

/-- At the beginning of a second, with a TTL of five seconds. -/
theorem lives_for_ttl_whole : ∃ w, World.run (kvSystem decimalCounters) (KvWorld.start emptyServer)
      (putAt 2000000000 5000) = some w ∧
    ∃ m, w.srv.bucket.last (encodeKey "k") = some m ∧ m.body.published = 2000000000 ∧
      ∃ value exp, LivesUntil "k" m value exp 7000000000 := by
  have hrun : World.run (kvSystem decimalCounters) (KvWorld.start emptyServer)
      (putAt 2000000000 5000) = some _ := rfl
  have hop : (Op.put "k" (bytes "v") (some (Lease.fromMillis 5000))).ttlWrite? =
      some ("k", Lease.fromMillis 5000) := rfl
  refine ⟨_, rfl, _, rfl, rfl, ?_⟩
  obtain ⟨reading, hmem, -, -, -, value, -, hlives⟩ := lives_for_ttl hrun (t := 0) rfl hop ⟨[_], rfl⟩
  obtain rfl := List.mem_singleton.1 hmem
  exact ⟨value, _, (hlives (by decide) 2000000000 (by decide) (by decide)).2 (.inr (by decide))⟩

/-- In the middle of a second, with a TTL of one second: the key is dead 700 ms
after the write. -/
theorem lives_for_ttl_cut : ∃ w, World.run (kvSystem decimalCounters) (KvWorld.start emptyServer)
      (putAt 500000000 1000 ++ [.env (.tick 1200000000)]) = some w ∧
    w.threads.map (fun th => th.main.value?) = [some .done] ∧
    (∃ m, w.srv.bucket.last (encodeKey "k") = some m ∧ m.body.published = 500000000 ∧ m.seq = 1) ∧
    w.srv.clock = 1200000000 ∧
    (slot (encodeKey "k") "k").exec answer w.srv = some (.ok (.dead 1), w.srv) := by
  refine ⟨_, rfl, rfl, ⟨_, rfl, rfl, rfl⟩, rfl, ?_⟩
  rw [exec_slot_dated (m := ⟨encodeKey "k", 1, _⟩) rfl rfl rfl]
  rfl

end ClusterNats
