import ClusterNats.Conc.Linear
import ClusterNats.Kv.Claim
import ClusterNats.Kv.Own
import ClusterNats.Kv.Refine

/-!
# Puts, claims and deletes of a key, one at a time

A put takes effect where its record is stored, a claim where its record is
stored or where it reads the key live, a delete where its marker is stored.
What a delete returns it read before that, so a run is one of calls one at a
time when no delete's answer is out of date by then.

* `Op.alters`, `Op.WithoutTtl` — the calls.
* `takesPlace`, `AltersOnce`, `Altered` — where a call takes effect, once, and
  what it returns.
* `put_abides`, `putIfAbsentRounds_abides`, `delete_abides` — the calls.
* `deletes_linearize` — a run is explained by an order of its calls.
* `deletes_linearize_twice` — two deletes of one value both report it.
-/

namespace ClusterNats

open Conc

/-! ## The calls -/

/-- The call puts, claims or deletes `key`. -/
def Op.alters (key : String) : Op → Bool
  | .put k _ _ => k = key
  | .putIfAbsent k _ _ => k = key
  | .delete k => k = key
  | _ => false

/-- A put, a claim or a delete that gives no TTL, neither as such nor in the
bytes of the value. -/
def Op.WithoutTtl : Op → Prop
  | .put _ value ttl => ttl = none ∧ (decodeValue value).2 = none
  | .putIfAbsent _ value ttl => ttl = none ∧ (decodeValue value).2 = none
  | .delete _ => True
  | _ => False

/-- A publish whose expectation the bucket meets. -/
def Meets (s : Server) (subject : Bytes) (expected : Option Nat) : Bool :=
  expected.all fun n => s.bucket.lastSeqOf subject = n

/-- Does a call that alters `key` take effect at this event of it? -/
def takesPlace (key : String) (op : Op) (e : KvEvent) : Bool :=
  op.alters key && match e.req with
    | .publish subject _ _ expected => subject = encodeKey key && Meets e.pre subject expected
    | .getLast subject => op.claims.isSome && subject = encodeKey key && e.pre.Live key
    | _ => false

/-- A claim whose record the bucket refused. -/
def lostClaim (key : String) (e : KvEvent) : Bool :=
  match e.req with
  | .publish subject _ _ expected => subject = encodeKey key && !Meets e.pre subject expected
  | _ => false

/-- What a call stores under its key: a delete its marker, another a value that
never expires. -/
def Op.Stores (headers : HeaderMap) (payload : Bytes) : Op → Prop
  | .delete _ => Record.recordOperation headers ≠ .put
  | _ => Record.recordOperation headers = .put ∧ (decodeValue payload).2 = none

/-- A call on `key` reads and writes nothing but the key and its index record,
and takes effect once. -/
def AltersOnce (key : String) (op : Op) (tr : List KvEvent) : Req → Prop
  | .publish subject headers payload _ => subject = indexKey key ∨
      subject = encodeKey key ∧ op.Stores headers payload ∧ ∀ d ∈ tr, takesPlace key op d = false
  | .getLast subject => subject = encodeKey key ∧ ∀ d ∈ tr, takesPlace key op d = false
  | .purge _ _ => False
  | _ => True

/-- What a call that takes effect on a key returns. -/
def Op.reply (live : Bool) : Op → Reply
  | .putIfAbsent .. => .flag (!live)
  | .delete _ => .flag live
  | _ => .done

/-- What a finished call on `key` did and returned. -/
def Altered (key : String) (op : Op) (tr : List KvEvent) (x : Except ClusterError Reply) : Prop :=
  match op with
  | .putIfAbsent .. =>
    ((∃ e, x = .error e) ∧ casWriteAttempts ≤ tr.countP (lostClaim key) ∧
        ∀ d ∈ tr, takesPlace key op d = false) ∨
      ∃ d ∈ tr, takesPlace key op d ∧ x = .ok (.flag d.req.isWrite)
  | .delete _ => ∃ d ∈ tr, takesPlace key op d ∧
      ∃ r ∈ tr, r.req = .getLast (encodeKey key) ∧ x = .ok (.flag (r.pre.Live key))
  | _ => ∃ d ∈ tr, takesPlace key op d ∧ x = .ok .done

section Programs

variable {api : CounterApi} {who : Actor} {key : String} {op : Op} {tr : List KvEvent}

theorem takesPlace_of_index {e : KvEvent} {headers : HeaderMap} {payload : Bytes}
    {expected : Option Nat} (h : e.req = .publish (indexKey key) headers payload expected) :
    takesPlace key op e = false ∧ lostClaim key e = false := by
  have hne : ¬ indexKey key = encodeKey key := (encodeKey_ne_indexKey key key).symm
  simp [takesPlace, lostClaim, h, hne]

theorem takesPlace_of_clock {e : KvEvent} (h : e.req = .systemTime) :
    takesPlace key op e = false ∧ lostClaim key e = false := by
  simp [takesPlace, lostClaim, h]

theorem lostClaim_of_refused {e : KvEvent} {headers : HeaderMap} {payload : Bytes}
    {expected : Option Nat} (h : e.req = .publish (encodeKey key) headers payload expected)
    (hrefused : Meets e.pre (encodeKey key) expected = false) : lostClaim key e = true := by
  simp [lostClaim, h, hrefused]

theorem meets_iff {s : Server} {subject : Bytes} {expected : Option Nat} :
    Meets s subject expected = true ↔ ∀ n ∈ expected, s.bucket.lastSeqOf subject = n := by
  cases expected with
  | none => simp [Meets]
  | some n => simp [Meets]

/-- Of the requests of a read, only one that finds the key live is where a call
takes effect, and only a claim. -/
theorem takesPlace_of_slot {s : Server} {tr' : List KvEvent}
    (h : tr' = readEvent who (encodeKey key) s :: tr ∨ ∃ t s',
      tr' = ⟨who, .systemTime, t, s'⟩ :: readEvent who (encodeKey key) s :: tr)
    (hread : takesPlace key op (readEvent who (encodeKey key) s) = false)
    (htr : ∀ d ∈ tr, takesPlace key op d = false) : ∀ d ∈ tr', takesPlace key op d = false := by
  have hreads : ∀ d ∈ readEvent who (encodeKey key) s :: tr, takesPlace key op d = false := by
    intro d hd
    rcases List.mem_cons.1 hd with rfl | hd
    · exact hread
    · exact htr d hd
  rcases h with rfl | ⟨t, s', rfl⟩
  · exact hreads
  · intro d hd
    rcases List.mem_cons.1 hd with rfl | hd
    · exact (takesPlace_of_clock rfl).1
    · exact hreads d hd

/-- A slot is live where the key is. -/
theorem live_slot (s : Server) : (match s.slot key with
    | .live .. => true
    | _ => false) = decide (s.Live key) := by
  cases h : s.slot key with
  | live value exp revision => simp [Server.Live, h, Slot.found]
  | dead revision => simp [Server.Live, h, Slot.found]
  | empty => simp [Server.Live, h, Slot.found]

/-- **A put.** -/
theorem put_abides {value : Bytes} (hvalue : (decodeValue value).2 = none) :
    ((Op.put key value none).program api).Abides who (Works api)
      (fun tr r => Calm key tr → AltersOnce key (.put key value none) tr r)
      (fun tr x => Calm key tr → Altered key (.put key value none) tr x) [] := by
  refine Prog.Abides.map (Q := fun tr x => Calm key tr →
    Altered key (.put key value none) tr (x.map fun _ => Reply.done)) ?_ fun _ _ h => h
  show (publish (encodeKey key) value none .anything >>= _).Abides _ _ _ _ _
  refine abides_publishRecord (fun _ => .inr ⟨rfl, ⟨rfl, hvalue⟩, by simp⟩) fun s => ?_
  refine abides_publishIndex (fun _ _ _ _ => .inl rfl) fun ack revision e hack he => ?_
  rw [hack]
  refine fun _ => ⟨_, List.mem_cons_of_mem _ List.mem_cons_self, ?_, rfl⟩
  simp [takesPlace, Op.alters, Meets, Expect.lastSequence]

theorem stores_marker :
    (Op.delete key).Stores [(kvOperationHeader, bytes "DEL")] [] := by
  show Record.recordOperation [(kvOperationHeader, bytes "DEL")] ≠ .put
  decide

/-- **A delete.** -/
theorem delete_abides :
    ((Op.delete key).program api).Abides who (Works api)
      (fun tr r => Calm key tr → AltersOnce key (.delete key) tr r)
      (fun tr x => Calm key tr → Altered key (.delete key) tr x) [] := by
  refine Prog.Abides.map (Q := fun tr x => Calm key tr →
    Altered key (.delete key) tr (x.map Reply.flag)) ?_ fun _ _ h => h
  refine abides_slot (fun _ => ⟨rfl, by simp⟩) (fun _ _ => trivial) fun s tr' htr => ?_
  have hread : readEvent who (encodeKey key) s ∈ tr' := by
    rcases htr with rfl | ⟨t, s', rfl⟩
    · exact List.mem_cons_self
    · exact List.mem_cons_of_mem _ List.mem_cons_self
  have hno : ∀ d ∈ tr', takesPlace key (.delete key) d = false :=
    takesPlace_of_slot htr (by simp [takesPlace, readEvent, Op.claims]) (by simp)
  refine abides_publishRecord (fun _ => .inr ⟨rfl, stores_marker, hno⟩) fun s' hcalm => ?_
  refine ⟨_, List.mem_cons_self, ?_, _, List.mem_cons_of_mem _ hread, rfl, ?_⟩
  · simp [takesPlace, Op.alters, Meets]
  · exact congrArg (fun b => Except.ok (Reply.flag b)) (live_slot s)

/-- The rounds of a claim that are left. -/
theorem putIfAbsentRounds_abides {value : Bytes} (hvalue : (decodeValue value).2 = none)
    (rounds : Nat) {expect : Expect}
    (hno : Calm key tr → ∀ d ∈ tr, takesPlace key (.putIfAbsent key value none) d = false)
    (hlost : Calm key tr → casWriteAttempts ≤ tr.countP (lostClaim key) + rounds) :
    (putIfAbsentRounds key value none rounds expect).Abides who (Works api)
      (fun tr r => Calm key tr → AltersOnce key (.putIfAbsent key value none) tr r)
      (fun tr x => Calm key tr → Altered key (.putIfAbsent key value none) tr (x.map Reply.flag))
      tr := by
  induction rounds generalizing tr expect with
  | zero => exact fun hcalm => .inl ⟨⟨_, rfl⟩, hlost hcalm, hno hcalm⟩
  | succ rounds ih =>
    refine abides_publishRecord (fun hcalm => .inr ⟨rfl, ⟨rfl, hvalue⟩, hno hcalm⟩) fun s => ?_
    refine abides_publishIndex (fun _ _ _ _ => .inl rfl) fun ack revision e hack he => ?_
    obtain ⟨headers, payload, expected, hindex⟩ := he
    rcases publish_cases s (encodeKey key) [(expiresHeader, renderU64 ((none : Option UInt64).getD 0))]
      (encodeValue value none) expect.lastSequence with ⟨hmeets, heq⟩ | ⟨hnot, heq⟩
    · -- the claim is stored
      rw [heq, hack]
      refine fun _ => .inr ⟨_, List.mem_cons_of_mem _ List.mem_cons_self, ?_, rfl⟩
      simp [takesPlace, Op.alters, meets_iff.2 hmeets]
    · rw [heq, done_of_server]
      have hrefused : Meets s (encodeKey key) expect.lastSequence = false := by
        obtain ⟨n, hn, hne⟩ := hnot
        exact Bool.eq_false_iff.2 fun h => hne (meets_iff.1 h n hn)
      refine abides_slot (fun hcalm => ⟨rfl, fun d hd => ?_⟩) (fun _ _ => trivial)
        fun s' tr' htr => ?_
      · rcases List.mem_cons.1 hd with rfl | hd
        · exact (takesPlace_of_index hindex).1
        rcases List.mem_cons.1 hd with rfl | hd
        · simp [takesPlace, hrefused]
        · exact hno hcalm.tail.tail d hd
      have hsuf : tr <:+ tr' := by
        rcases htr with rfl | ⟨t, s₁, rfl⟩
        · exact ⟨[_, _, _], rfl⟩
        · exact ⟨[_, _, _, _], rfl⟩
      have hread : readEvent who (encodeKey key) s' ∈ tr' := by
        rcases htr with rfl | ⟨t, s₁, rfl⟩
        · exact List.mem_cons_self
        · exact List.mem_cons_of_mem _ List.mem_cons_self
      have hcount : tr.countP (lostClaim key) + 1 ≤ tr'.countP (lostClaim key) := by
        rcases htr with rfl | ⟨t, s₁, rfl⟩
        · rw [List.countP_cons, List.countP_cons, List.countP_cons_of_pos
            (lostClaim_of_refused rfl hrefused)]
          omega
        · rw [List.countP_cons, List.countP_cons, List.countP_cons, List.countP_cons_of_pos
            (lostClaim_of_refused rfl hrefused)]
          omega
      have hdead : ¬ s'.Live key → Calm key tr' →
          ∀ d ∈ tr', takesPlace key (.putIfAbsent key value none) d = false := by
        intro hlive hcalm
        refine takesPlace_of_slot htr (by simp [takesPlace, readEvent, hlive]) fun d hd => ?_
        rcases List.mem_cons.1 hd with rfl | hd
        · exact (takesPlace_of_index hindex).1
        rcases List.mem_cons.1 hd with rfl | hd
        · simp [takesPlace, hrefused]
        · exact hno (hcalm.suffix hsuf) d hd
      have hleft : Calm key tr' → casWriteAttempts ≤ tr'.countP (lostClaim key) + rounds := by
        intro hcalm
        have := hlost (hcalm.suffix hsuf)
        omega
      cases hslot : s'.slot key with
      | live v exp revision =>
        refine fun _ => .inr ⟨_, hread, ?_, rfl⟩
        have hlive : s'.Live key := by simp [Server.Live, hslot, Slot.found]
        simp [takesPlace, readEvent, Op.alters, Op.claims, hlive]
      | dead revision => exact ih (hdead (Server.not_live_of_dead hslot)) hleft
      | empty =>
        exact ih (hdead (by simp [Server.Live, hslot, Slot.found])) hleft

/-- **A claim.** -/
theorem putIfAbsent_abides {value : Bytes} (hvalue : (decodeValue value).2 = none) :
    ((Op.putIfAbsent key value none).program api).Abides who (Works api)
      (fun tr r => Calm key tr → AltersOnce key (.putIfAbsent key value none) tr r)
      (fun tr x => Calm key tr → Altered key (.putIfAbsent key value none) tr x) [] := by
  refine Prog.Abides.map (Q := fun tr x => Calm key tr →
    Altered key (.putIfAbsent key value none) tr (x.map Reply.flag)) ?_ fun _ _ h => h
  exact putIfAbsentRounds_abides hvalue casWriteAttempts (by simp) (by simp)

end Programs

/-! ## What the records hold -/

section Records

variable {s s' : Server} {key : String} {op : Op} {tr : List KvEvent} {r : Req}

variable (op) in
/-- A key whose call just stored its record is live, unless it was a delete. -/
theorem stored_by {headers : HeaderMap} {payload : Bytes} {seq : Nat} {t : Instant}
    (h : s.bucket.last (encodeKey key) = some ⟨encodeKey key, seq, ⟨headers, payload, t⟩⟩)
    (hop : op.Stores headers payload) :
    s.Timeless key ∧ (s.Live key ↔ ∀ k, op ≠ .delete k) := by
  have hlive := Server.live_iff_last h
  have hcases : (∃ k, op = .delete k) ∧ Record.recordOperation headers ≠ .put ∨
      (∀ k, op ≠ .delete k) ∧ Record.recordOperation headers = .put ∧
        (decodeValue payload).2 = none := by
    cases op with
    | delete k => exact .inl ⟨⟨k, rfl⟩, hop⟩
    | _ => exact .inr ⟨by simp, hop⟩
  rcases hcases with ⟨⟨k, rfl⟩, hmarker⟩ | ⟨hne, hput, hexp⟩
  · have hdead : ¬ s.Live key := fun hl => hmarker (hlive.1 hl).1
    refine ⟨fun value exp revision hslot => ?_, iff_of_false hdead fun h => h k rfl⟩
    exact absurd (Server.live_iff.2 ⟨value, exp, revision, hslot⟩) hdead
  · refine ⟨fun value exp revision hslot => ?_, iff_of_true ?_ hne⟩
    · rw [Server.slot, h] at hslot
      obtain ⟨r, hr, -, hdec, -, -⟩ := Slot.ofRecord_eq_live.1 hslot
      obtain rfl := Option.some.inj hr
      rw [Record.ofMessage] at hdec
      rw [hdec] at hexp
      exact hexp
    · exact hlive.2 ⟨hput, by rw [hexp]; rfl⟩

/-- A publish whose expectation is met leaves its record. -/
theorem effect_last_of_meets {headers : HeaderMap} {payload : Bytes} {expected : Option Nat}
    (h : Meets s (encodeKey key) expected = true) :
    (Req.effect s (.publish (encodeKey key) headers payload expected)).bucket.last (encodeKey key) =
      some ⟨encodeKey key, s.bucket.lastSeq + 1, ⟨headers, payload, s.clock⟩⟩ := by
  rcases publish_cases s (encodeKey key) headers payload expected with ⟨-, heq⟩ | ⟨⟨n, hn, hne⟩, -⟩
  · rw [Req.effect, heq]
    exact SubjectLog.last_store_self
  · exact absurd (meets_iff.1 h n hn) hne

/-- **What a request of a call on `key` does to the key**: nothing, or it stores
what the call stores. -/
theorem effect_cases (h : AltersOnce key op tr r) :
    (r.effect s).slot key = s.slot key ∨
      ∃ headers payload expected seq, r = .publish (encodeKey key) headers payload expected ∧
        Meets s (encodeKey key) expected = true ∧ op.Stores headers payload ∧
        (r.effect s).bucket.last (encodeKey key) =
          some ⟨encodeKey key, seq, ⟨headers, payload, s.clock⟩⟩ := by
  have hnow : (r.effect s).now = s.now := congrArg unixSecs (effect_clock s r)
  cases htouch : r.touches (encodeKey key) with
  | false => exact .inl (Server.slot_congr (effect_last_of_not_touches htouch) hnow)
  | true =>
    cases r with
    | publish subject headers payload expected =>
      obtain rfl : subject = encodeKey key := by simpa [Req.touches] using htouch
      rcases h with hindex | ⟨-, hstores, -⟩
      · exact absurd hindex (encodeKey_ne_indexKey key key)
      · rcases publish_cases s (encodeKey key) headers payload expected with ⟨hmeets, -⟩ | ⟨-, heq⟩
        · have hmeets := meets_iff.2 hmeets
          exact .inr ⟨headers, payload, expected, _, rfl, hmeets, hstores,
            effect_last_of_meets hmeets⟩
        · refine .inl ?_
          rw [Req.effect, heq]
    | purge subject keep => exact h.elim
    | _ => simp [Req.touches] at htouch

end Records

/-! ## Runs -/

section Runs

variable {api : CounterApi} {s₀ : Server} {cs : List KvChoice} {w : KvWorld} {key : String}

theorem alters_abides {op : Op} (hop : op.WithoutTtl) (h : op.alters key = true) (who : Actor) :
    (op.program api).Abides who (Works api) (fun tr r => Calm key tr → AltersOnce key op tr r)
      (fun tr x => Calm key tr → Altered key op tr x) [] := by
  cases op with
  | put k value ttl =>
    obtain rfl : k = key := by simpa [Op.alters] using h
    obtain ⟨rfl, hvalue⟩ := hop
    exact put_abides hvalue
  | putIfAbsent k value ttl =>
    obtain rfl : k = key := by simpa [Op.alters] using h
    obtain ⟨rfl, hvalue⟩ := hop
    exact putIfAbsent_abides hvalue
  | delete k =>
    obtain rfl : k = key := by simpa [Op.alters] using h
    exact delete_abides
  | _ => exact absurd hop id

theorem other_requests {op : Op} (hop : op.WithoutTtl) (h : op.alters key = false) :
    (op.program api).Requests fun r : Req => r.touches (encodeKey key) = false := by
  cases op with
  | put k value ttl => exact requests_keyed (asksOf_other (by simpa [Op.alters] using h)) api rfl
  | putIfAbsent k value ttl =>
    exact requests_keyed (asksOf_other (by simpa [Op.alters] using h)) api rfl
  | delete k => exact requests_keyed (asksOf_other (by simpa [Op.alters] using h)) api rfl
  | _ => exact absurd hop id

theorem alters_run (hcs : ∀ c ∈ cs, Admits (· = .ok) Op.WithoutTtl c)
    (hrun : World.run (kvSystem api) (KvWorld.start s₀) cs = some w) (key : String) :
    World.Abiding (Works api)
      (fun op _ tr r => op.WithoutTtl → op.alters key = true → Calm key tr → AltersOnce key op tr r)
      (fun op _ tr x => op.WithoutTtl → op.alters key = true → Calm key tr → Altered key op tr x)
      w := by
  refine World.run_abiding (· = .ok) (fun _ h => h) (fun ths op p hp t => ?_)
    (fun c hc => (hcs c hc).modeOk) hrun
  obtain rfl := Option.some.inj hp
  by_cases hop : op.WithoutTtl ∧ op.alters key = true
  · simp only [hop.1, hop.2, true_implies]
    exact alters_abides hop.1 hop.2 _
  · exact Prog.abides_of_free (fun _ _ h₁ h₂ => absurd ⟨h₁, h₂⟩ hop)
      fun _ _ h₁ h₂ => absurd ⟨h₁, h₂⟩ hop

theorem others_run (hcs : ∀ c ∈ cs, Admits (· = .ok) Op.WithoutTtl c)
    (hrun : World.run (kvSystem api) (KvWorld.start s₀) cs = some w) (key : String) :
    World.Abiding (Works api)
      (fun op _ _ r => op.WithoutTtl → op.alters key = false → r.touches (encodeKey key) = false)
      (fun _ _ _ _ => True) w := by
  refine World.run_abiding (· = .ok) (fun _ h => h) (fun ths op p hp t => ?_)
    (fun c hc => (hcs c hc).modeOk) hrun
  obtain rfl := Option.some.inj hp
  by_cases hop : op.WithoutTtl ∧ op.alters key = false
  · simp only [hop.1, hop.2, true_implies]
    exact Prog.abides_of_requests (other_requests hop.1 hop.2)
  · exact Prog.abides_of_free (fun _ _ h₁ h₂ => absurd ⟨h₁, h₂⟩ hop) fun _ _ => trivial

/-- Every event is one of a call that gives no TTL. -/
theorem main_of_mem (hcs : ∀ c ∈ cs, Admits (· = .ok) Op.WithoutTtl c)
    (hrun : World.run (kvSystem api) (KvWorld.start s₀) cs = some w) {e : KvEvent}
    (he : e ∈ w.log) : ∃ t th, e.who = .main t ∧ w.threads[t]? = some th ∧ th.op.WithoutTtl := by
  have hstarts : ∀ op, Choice.start op ∈ cs → op.WithoutTtl := fun op hop => hcs _ hop
  obtain ⟨th, hth, hmain⟩ := World.run_main_of_noSpawn (C := Op.WithoutTtl) (fun ths op p hop hp => by
    obtain rfl := Option.some.inj hp
    cases op with
    | put k value ttl => exact (requests_keyed (asks_true.of k) api rfl).noSpawn
    | putIfAbsent k value ttl => exact (requests_keyed (asks_true.of k) api rfl).noSpawn
    | delete k => exact (requests_keyed (asks_true.of k) api rfl).noSpawn
    | _ => exact absurd hop id) hrun e he
  have hop := World.run_ops hstarts hrun hth
  obtain ⟨t, ht⟩ := hmain hop
  rw [ht] at hth
  exact ⟨t, th, ht, hth, hop⟩

theorem history_run (hcs : ∀ c ∈ cs, Admits (· = .ok) Op.WithoutTtl c)
    (hrun : World.run (kvSystem api) (KvWorld.start s₀) cs = some w) :
    History (kvSystem api) (· = .ok) s₀ w.log w.srv :=
  World.start_history (fun c hc => (hcs c hc).modeOk) hrun

/-- What the event of a run does to `key`, the value being one that never
expires. -/
theorem event_cases (hcs : ∀ c ∈ cs, Admits (· = .ok) Op.WithoutTtl c)
    (hrun : World.run (kvSystem api) (KvWorld.start s₀) cs = some w) {e : KvEvent} {l : List KvEvent}
    (hsuf : (e :: l) <:+ w.log) (htimeless : ∀ d ∈ l, d.pre.Timeless key) :
    ∃ t th, e.who = .main t ∧ w.threads[t]? = some th ∧ th.op.WithoutTtl ∧
      (th.op.alters key = false ∧ (e.req.effect e.pre).slot key = e.pre.slot key ∨
        th.op.alters key = true ∧ AltersOnce key th.op (ownEvents (.main t) l) e.req) := by
  obtain ⟨t, th, hwho, hth, hop⟩ := main_of_mem hcs hrun (hsuf.subset List.mem_cons_self)
  refine ⟨t, th, hwho, hth, hop, ?_⟩
  cases halters : th.op.alters key with
  | false =>
    refine .inl ⟨rfl, ?_⟩
    have htouch := (others_run hcs hrun key).guarded t th hth e l hsuf hwho hop halters
    exact Server.slot_congr (effect_last_of_not_touches htouch) (congrArg unixSecs (effect_clock e.pre e.req))
  | true =>
    refine .inr ⟨rfl, (alters_run hcs hrun key).guarded t th hth e l hsuf hwho hop halters ?_⟩
    exact calm_own (history_before (history_run hcs hrun) hsuf) htimeless _

/-- No value of `key` ever expires. -/
theorem timeless_run (hcs : ∀ c ∈ cs, Admits (· = .ok) Op.WithoutTtl c)
    (hrun : World.run (kvSystem api) (KvWorld.start s₀) cs = some w) (h₀ : s₀.Timeless key) :
    ∀ e ∈ w.log, e.pre.Timeless key := by
  have h := (history_run hcs hrun).induction
    (P := fun l s => l <:+ w.log → s.Timeless key ∧ ∀ e ∈ l, e.pre.Timeless key)
    (fun _ => ⟨h₀, by simp⟩)
    (fun l v s s₁ ih hv hl => by
      obtain ⟨hs, hlog⟩ := ih hl
      obtain ⟨hbucket, hnow⟩ := env_later hv
      refine ⟨fun value exp revision hslot => hs value exp revision ?_, hlog⟩
      rw [Server.slot, hbucket] at hslot
      exact Slot.ofRecord_live_mono hnow hslot)
    (fun l e m c s₁ c' hl ih hm hserve _ => by
      obtain ⟨hs, hlog⟩ := ih ((List.suffix_cons _ _).trans hl)
      have hall : ∀ d ∈ e :: l, d.pre.Timeless key := by
        intro d hd
        rcases List.mem_cons.1 hd with rfl | hd
        · exact hs
        · exact hlog d hd
      refine ⟨?_, hall⟩
      subst hm
      obtain rfl := serve_ok_state hserve
      obtain ⟨t, th, -, -, -, ⟨-, hsame⟩ | ⟨-, honce⟩⟩ := event_cases hcs hrun hl hlog
      · rw [Server.Timeless, hsame]
        exact hs
      · rcases effect_cases honce with hsame | ⟨headers, payload, expected, seq, -, -, hstores, hlast⟩
        · rw [Server.Timeless, hsame]
          exact hs
        · exact (stored_by _ hlast hstores).1)
  exact (h (List.suffix_refl _)).2

/-- A call takes effect once. -/
theorem takesPlace_once (hcs : ∀ c ∈ cs, Admits (· = .ok) Op.WithoutTtl c)
    (hrun : World.run (kvSystem api) (KvWorld.start s₀) cs = some w) (h₀ : s₀.Timeless key)
    {e : KvEvent} {l : List KvEvent} (hsuf : (e :: l) <:+ w.log)
    (he : takesEffect w.ops (takesPlace key) e = true) {d : KvEvent} (hd : d ∈ l)
    (hwho : d.who.thread = e.who.thread) : takesEffect w.ops (takesPlace key) d = false := by
  have htimeless := timeless_run hcs hrun h₀
  have hl : ∀ d ∈ l, d ∈ w.log := fun d hd => hsuf.subset (List.mem_cons_of_mem _ hd)
  obtain ⟨t, th, ht, hth, hop, hcase⟩ := event_cases hcs hrun hsuf fun d hd => htimeless d (hl d hd)
  obtain ⟨u, -, hu, -, -⟩ := main_of_mem hcs hrun (hl d hd)
  rw [ht, hu] at hwho
  obtain rfl : u = t := hwho
  have hthread : w.ops e.who.thread = some th.op := by
    rw [ht]
    show w.threads[u]?.map Thread.op = _
    rw [hth]
    rfl
  obtain ⟨op, hop', hpoint⟩ := takesEffect_iff.1 he
  obtain rfl := Option.some.inj (hop'.symm.trans hthread)
  have hno : takesPlace key th.op d = false := by
    rcases hcase with ⟨hother, -⟩ | ⟨-, honce⟩
    · simp [takesPlace, hother] at hpoint
    · have hown : d ∈ ownEvents (.main u) l := mem_ownEvents.2 ⟨hd, hu⟩
      cases hreq : e.req with
      | publish subject headers payload expected =>
        rw [hreq] at honce
        rcases honce with hindex | ⟨-, -, hno⟩
        · have hindexed : takesPlace key th.op e = false :=
            (takesPlace_of_index (hindex ▸ hreq)).1
          rw [hindexed] at hpoint
          exact absurd hpoint (by simp)
        · exact hno d hown
      | getLast subject =>
        rw [hreq] at honce
        exact honce.2 d hown
      | _ => simp [takesPlace, hreq] at hpoint
  rw [takesEffect, hu, ← ht, hthread]
  exact hno

variable (key) in
/-- The calls that run one at a time are told the same of `key`. -/
structure SameLive (s' s : Server) : Prop where
  live : s'.Live key ↔ s.Live key
  timeless : s.Timeless key

theorem SameLive.env {s' s s₁ : Server} {v : Env} (h : SameLive key s' s) (hv : v.apply s = some s₁) :
    SameLive key s' s₁ := by
  obtain ⟨hbucket, hnow⟩ := env_later hv
  have hback : ∀ value exp revision, s₁.slot key = .live value exp revision →
      s.slot key = .live value exp revision := by
    intro value exp revision hslot
    rw [Server.slot, hbucket] at hslot
    exact Slot.ofRecord_live_mono hnow hslot
  refine ⟨h.live.trans ⟨fun hlive => ?_, fun hlive => ?_⟩, fun value exp revision hslot =>
    h.timeless value exp revision (hback _ _ _ hslot)⟩
  · -- it never expires, so it is live for good
    obtain ⟨value, exp, revision, hslot⟩ := Server.live_iff.1 hlive
    obtain rfl := h.timeless value exp revision hslot
    obtain ⟨r, hr, hput, hdec, -, hseq⟩ := Slot.ofRecord_eq_live.1 hslot
    refine Server.live_iff.2 ⟨value, none, revision, ?_⟩
    rw [Server.slot, hbucket]
    exact Slot.ofRecord_eq_live.2 ⟨r, hr, hput, hdec, rfl, hseq⟩
  · obtain ⟨value, exp, revision, hslot⟩ := Server.live_iff.1 hlive
    exact Server.live_iff.2 ⟨value, exp, revision, hback _ _ _ hslot⟩

theorem SameLive.of_slot {s' s s₁ : Server} (h : SameLive key s' s) (hslot : s₁.slot key = s.slot key) :
    SameLive key s' s₁ := by
  refine ⟨h.live.trans ?_, ?_⟩
  · rw [Server.Live, Server.Live, hslot]
  · rw [Server.Timeless, hslot]
    exact h.timeless

/-- A call that takes effect, run alone where it does. -/
abbrev Alone (api : CounterApi) (op : Op) (s : Server) (x : Except ClusterError Reply) (s' : Server) :
    Prop := (op.program api).exec answer s = some (x, s')

variable (api) in
/-- **The calls alone.**  A put leaves the key live, a claim too, a delete not;
what they return tells whether it was live. -/
theorem alone_alters {op : Op} (hop : op.WithoutTtl) (halters : op.alters key = true) (s : Server) :
    ∃ x s', Alone api op s x s' ∧ (s'.Live key ↔ ∀ k, op ≠ .delete k) ∧
      x = .ok (op.reply (s.Live key)) := by
  cases op with
  | put k value ttl =>
    obtain rfl : k = key := by simpa [Op.alters] using halters
    obtain ⟨rfl, hvalue⟩ := hop
    obtain ⟨s', hexec, hw⟩ := exec_put s k value none
    obtain ⟨seq, hlast⟩ := hw.last
    exact ⟨_, s', Prog.exec_bind_ok hexec,
      (stored_by (.put k value none) hlast ⟨rfl, hvalue⟩).2, rfl⟩
  | putIfAbsent k value ttl =>
    obtain rfl : k = key := by simpa [Op.alters] using halters
    obtain ⟨rfl, hvalue⟩ := hop
    cases hfound : (s.slot k).found with
    | none =>
      obtain ⟨s', hexec, hw⟩ := exec_putIfAbsent_absent hfound value none
      obtain ⟨seq, hlast⟩ := hw.last
      refine ⟨_, s', Prog.exec_bind_ok hexec,
        (stored_by (.putIfAbsent k value none) hlast ⟨rfl, hvalue⟩).2, ?_⟩
      simp [Op.reply, Server.Live, hfound]
    | some e =>
      have hlive : s.Live k := by simp [Server.Live, hfound]
      obtain ⟨v, exp, revision, hslot⟩ := Server.live_iff.1 hlive
      obtain ⟨s', hexec, hsame⟩ := exec_putIfAbsent_live hslot value none
      refine ⟨_, s', Prog.exec_bind_ok hexec, iff_of_true ?_ (by simp), ?_⟩
      · rw [Server.Live, hsame.slot]
        exact hlive
      · simp [Op.reply, hlive]
  | delete k =>
    obtain rfl : k = key := by simpa [Op.alters] using halters
    obtain ⟨s', hexec, hw⟩ := exec_delete s k
    obtain ⟨seq, hlast⟩ := hw.last
    refine ⟨_, s', Prog.exec_bind_ok hexec, (stored_by (.delete k) hlast stores_marker).2, ?_⟩
    exact congrArg (fun b => Except.ok (Reply.flag b)) (Bool.decide_coe _).symm
  | _ => exact absurd hop id

/-- No delete of `key` stored its marker where the key was live although it had
read that it was not, or the other way round. -/
def DeletesCurrent (w : KvWorld) (key : String) : Prop :=
  ∀ t th, w.threads[t]? = some th → th.op = .delete key → ∀ e ∈ ownEvents (.main t) w.log,
    ∀ r ∈ ownEvents (.main t) w.log, takesPlace key th.op e = true →
      r.req = .getLast (encodeKey key) → (r.pre.Live key ↔ e.pre.Live key)

theorem altered_run (hcs : ∀ c ∈ cs, Admits (· = .ok) Op.WithoutTtl c)
    (hrun : World.run (kvSystem api) (KvWorld.start s₀) cs = some w) (h₀ : s₀.Timeless key) {t : Nat}
    {th : KvThread} (hth : w.threads[t]? = some th) (halters : th.op.alters key = true)
    {x : Except ClusterError Reply} (hx : th.main.result? = some x) :
    Altered key th.op (ownEvents (.main t) w.log) x :=
  (alters_run hcs hrun key).result hth hx (World.run_ops (fun _ hop => hcs _ hop) hrun hth) halters
    (calm_own (history_run hcs hrun) (timeless_run hcs hrun h₀) _)

/-- A claim stores its record over a key that is not live. -/
theorem claim_over_dead
    (hrun : World.run (kvSystem api) (KvWorld.start s₀) cs = some w) {e : KvEvent} {l : List KvEvent}
    (hsuf : (e :: l) <:+ w.log) {th : KvThread} (hth : w.threads[e.who.thread]? = some th)
    (hclaim : th.op.claims = some key) {headers : HeaderMap} {payload : Bytes}
    {expected : Option Nat} (hreq : e.req = .publish (encodeKey key) headers payload expected)
    (hmeets : Meets e.pre (encodeKey key) expected = true) : ¬ e.pre.Live key := by
  obtain ⟨-, hguarded, -⟩ := claim_run hrun
  obtain ⟨th', hth', hguar⟩ := hguarded e l hsuf
  obtain rfl := Option.some.inj (hth.symm.trans hth')
  have hok := hguar (by rw [hreq]; rfl) key hclaim
  rw [hreq] at hok
  exact hok rfl (meets_iff.1 hmeets)

theorem alters_of_takesPlace {op : Op} {e : KvEvent} (h : takesPlace key op e = true) :
    op.alters key = true := by
  rw [takesPlace, Bool.and_eq_true] at h
  exact h.1

/-- **A call returns what the key held where it took effect.** -/
theorem result_of_point (hcs : ∀ c ∈ cs, Admits (· = .ok) Op.WithoutTtl c)
    (hrun : World.run (kvSystem api) (KvWorld.start s₀) cs = some w) (h₀ : s₀.Timeless key)
    (hcurrent : DeletesCurrent w key) {e : KvEvent} {l : List KvEvent} (hsuf : (e :: l) <:+ w.log)
    {t : Nat} {th : KvThread} (hwho : e.who = .main t) (hth : w.threads[t]? = some th)
    (hpoint : takesPlace key th.op e = true) {x : Except ClusterError Reply}
    (hx : th.main.result? = some x) : x = .ok (th.op.reply (e.pre.Live key)) := by
  have halters := alters_of_takesPlace hpoint
  have hown : e ∈ ownEvents (.main t) w.log := mem_ownEvents.2 ⟨hsuf.subset List.mem_cons_self, hwho⟩
  have haltered := altered_run hcs hrun h₀ hth halters hx
  have hop : th.op.WithoutTtl := World.run_ops (fun _ hop => hcs _ hop) hrun hth
  have hops : w.ops t = some th.op := by rw [World.ops, hth]; rfl
  -- a call takes effect once, so this is where it did
  have honly : ∀ d ∈ ownEvents (.main t) w.log, takesPlace key th.op d = true → d = e := by
    intro d hd hdpoint
    obtain ⟨hdlog, hdwho⟩ := mem_ownEvents.1 hd
    have heffect : ∀ f : KvEvent, f.who = .main t → takesPlace key th.op f = true →
        takesEffect w.ops (takesPlace key) f = true :=
      fun f hf hp => takesEffect_iff.2 ⟨_, by rw [hf]; exact hops, hp⟩
    by_contra hne
    have hthread : ∀ f g : KvEvent, f.who = .main t → g.who = .main t → g.who.thread = f.who.thread :=
      fun f g hf hg => by rw [hf, hg]
    rcases order_of_mem (hsuf.subset List.mem_cons_self) hdlog (Ne.symm hne) with
      ⟨post, mid, pre, hlog⟩ | ⟨post, mid, pre, hlog⟩
    · have := takesPlace_once hcs hrun h₀ ⟨post, hlog.symm⟩ (heffect d hdwho hdpoint)
        (List.mem_append_right mid List.mem_cons_self) (hthread d e hdwho hwho)
      rw [heffect e hwho hpoint] at this
      exact absurd this (by simp)
    · have := takesPlace_once hcs hrun h₀ ⟨post, hlog.symm⟩ (heffect e hwho hpoint)
        (List.mem_append_right mid List.mem_cons_self) (hthread e d hwho hdwho)
      rw [heffect d hdwho hdpoint] at this
      exact absurd this (by simp)
  cases hthop : th.op with
  | put k value ttl =>
    rw [hthop] at haltered
    obtain ⟨-, -, -, rfl⟩ := haltered
    rfl
  | putIfAbsent k value ttl =>
    rw [hthop] at haltered hpoint honly
    obtain rfl : k = key := by simpa [Op.alters] using alters_of_takesPlace hpoint
    rcases haltered with ⟨-, -, hno⟩ | ⟨d, hd, hdpoint, rfl⟩
    · rw [hno e hown] at hpoint
      exact absurd hpoint (by simp)
    obtain rfl := honly d hd hdpoint
    cases hreq : d.req with
    | publish subject headers payload expected =>
      simp only [takesPlace, hreq, Bool.and_eq_true, decide_eq_true_eq] at hpoint
      obtain ⟨-, rfl, hmeets⟩ := hpoint
      have hdead := claim_over_dead hrun hsuf (by rw [hwho]; exact hth)
        (by rw [hthop]; rfl) hreq hmeets
      simp [Op.reply, hdead, Req.isWrite]
    | getLast subject =>
      simp only [takesPlace, hreq, Bool.and_eq_true, decide_eq_true_eq] at hpoint
      simp [Op.reply, hpoint.2.2, Req.isWrite]
    | _ => simp [takesPlace, hreq] at hpoint
  | delete k =>
    have hkey : k = key := by
      have := alters_of_takesPlace hpoint
      rw [hthop] at this
      simpa [Op.alters] using this
    subst hkey
    obtain ⟨-, -, -, r, hr, hread, rfl⟩ : Altered k (.delete k) (ownEvents (.main t) w.log) x := by
      rw [hthop] at haltered
      exact haltered
    have hsame := hcurrent t th hth hthop e hown r hr hpoint hread
    simp [Op.reply, hsame]
  | _ =>
    rw [hthop] at hop
    exact absurd hop id

theorem SameLive.other {s' : Server} (hcs : ∀ c ∈ cs, Admits (· = .ok) Op.WithoutTtl c)
    (hrun : World.run (kvSystem api) (KvWorld.start s₀) cs = some w) (h₀ : s₀.Timeless key)
    {e : KvEvent} {l : List KvEvent} (hsuf : (e :: l) <:+ w.log)
    (hnot : takesEffect w.ops (takesPlace key) e = false) (h : SameLive key s' e.pre) :
    SameLive key s' (e.req.effect e.pre) := by
  have htimeless : ∀ d ∈ l, d.pre.Timeless key := fun d hd =>
    timeless_run hcs hrun h₀ d (hsuf.subset (List.mem_cons_of_mem _ hd))
  obtain ⟨t, th, hwho, hth, hop, ⟨-, hslot⟩ | ⟨halters, honce⟩⟩ :=
    event_cases hcs hrun hsuf htimeless
  · exact h.of_slot hslot
  · rcases effect_cases (s := e.pre) honce with hslot | ⟨headers, payload, expected, seq, hreq, hmeets, -⟩
    · exact h.of_slot hslot
    · -- a stored record is where the call takes effect
      have hpoint : takesPlace key th.op e = true := by
        simp [takesPlace, halters, hreq, hmeets]
      have heffect : takesEffect w.ops (takesPlace key) e = true :=
        takesEffect_iff.2 ⟨_, by rw [hwho, World.ops]; exact congrArg (Option.map Thread.op) hth, hpoint⟩
      rw [heffect] at hnot
      exact absurd hnot (by simp)

theorem SameLive.point {s' : Server} (hcs : ∀ c ∈ cs, Admits (· = .ok) Op.WithoutTtl c)
    (hrun : World.run (kvSystem api) (KvWorld.start s₀) cs = some w) (h₀ : s₀.Timeless key)
    (hcurrent : DeletesCurrent w key) {e : KvEvent} {l : List KvEvent} (hsuf : (e :: l) <:+ w.log)
    {th : KvThread} (hth : w.threads[e.who.thread]? = some th)
    (hpoint : takesPlace key th.op e = true) (h : SameLive key s' e.pre) :
    ∃ x s'', Alone api th.op s' x s'' ∧ SameLive key s'' (e.req.effect e.pre) ∧
      ∀ y, th.main.result? = some y → x = y := by
  have htimeless : ∀ d ∈ l, d.pre.Timeless key := fun d hd =>
    timeless_run hcs hrun h₀ d (hsuf.subset (List.mem_cons_of_mem _ hd))
  have halters := alters_of_takesPlace hpoint
  obtain ⟨t, th', hwho, hth', hop, hcase⟩ := event_cases hcs hrun hsuf htimeless
  obtain rfl : th = th' := by
    rw [hwho] at hth
    exact Option.some.inj (hth.symm.trans hth')
  obtain ⟨x, s'', halone, hlive, rfl⟩ := alone_alters api hop halters s'
  refine ⟨_, s'', halone, ?_, fun y hy => ?_⟩
  · obtain ⟨hother, -⟩ | ⟨-, honce⟩ := hcase
    · rw [hother] at halters
      exact absurd halters (by simp)
    cases hreq : e.req with
    | publish subject headers payload expected =>
      rw [hreq] at honce
      simp only [takesPlace, hreq, Bool.and_eq_true, decide_eq_true_eq] at hpoint
      obtain ⟨-, rfl, hmeets⟩ := hpoint
      rcases honce with hindex | ⟨-, hstores, -⟩
      · exact absurd hindex (encodeKey_ne_indexKey key key)
      obtain ⟨hstored, hlive'⟩ := stored_by th.op (effect_last_of_meets hmeets) hstores
      exact ⟨hlive.trans hlive'.symm, hstored⟩
    | getLast subject =>
      simp only [takesPlace, hreq, Bool.and_eq_true, decide_eq_true_eq] at hpoint
      refine ⟨iff_of_true (hlive.2 fun k hk => ?_) hpoint.2.2, h.timeless⟩
      rw [hk] at hpoint
      simp [Op.claims] at hpoint
    | _ => simp [takesPlace, hreq] at hpoint
  · have hresult := result_of_point hcs hrun h₀ hcurrent hsuf hwho hth' hpoint hy
    rw [hresult]
    congr 2
    simp [h.live]

/-- What a call that returned did: it took effect, or it lost all its rounds. -/
theorem returned_cases (hcs : ∀ c ∈ cs, Admits (· = .ok) Op.WithoutTtl c)
    (hrun : World.run (kvSystem api) (KvWorld.start s₀) cs = some w) (h₀ : s₀.Timeless key) {t : Nat}
    {th : KvThread} (hth : w.threads[t]? = some th) (halters : th.op.alters key = true)
    {x : Except ClusterError Reply} (hx : th.main.result? = some x) :
    ((∃ a, x = .ok a) ∧ ∃ d ∈ ownEvents (.main t) w.log, takesPlace key th.op d = true) ∨
      (∃ e, x = .error e) ∧ th.op.claims = some key ∧
        casWriteAttempts ≤ (ownEvents (.main t) w.log).countP (lostClaim key) ∧
        ∀ d ∈ ownEvents (.main t) w.log, takesPlace key th.op d = false := by
  have haltered := altered_run hcs hrun h₀ hth halters hx
  have hop : th.op.WithoutTtl := World.run_ops (fun _ hop => hcs _ hop) hrun hth
  cases hthop : th.op with
  | put k value ttl =>
    rw [hthop] at haltered
    obtain ⟨d, hd, hpoint, rfl⟩ := haltered
    exact .inl ⟨⟨_, rfl⟩, d, hd, hpoint⟩
  | putIfAbsent k value ttl =>
    rw [hthop] at haltered halters
    obtain rfl : k = key := by simpa [Op.alters] using halters
    rcases haltered with ⟨herr, hlost, hno⟩ | ⟨d, hd, hpoint, rfl⟩
    · exact .inr ⟨herr, rfl, hlost, hno⟩
    · exact .inl ⟨⟨_, rfl⟩, d, hd, hpoint⟩
  | delete k =>
    rw [hthop] at haltered
    obtain ⟨d, hd, hpoint, r, -, -, rfl⟩ := haltered
    exact .inl ⟨⟨_, rfl⟩, d, hd, hpoint⟩
  | _ =>
    rw [hthop] at hop
    exact absurd hop id

/-- **Puts, claims and deletes of a key, one at a time.**  Where every delete of
the key stores its marker over what it read, the calls that returned a value
did so as in some order of them, one at a time, in which a call that returned
before another started comes first.  A call that returned an error is a claim
that lost all its rounds: it stored nothing. -/
theorem deletes_linearize (api : CounterApi) (s₀ : Server) (cs : List KvChoice) (w : KvWorld)
    (hcs : ∀ c ∈ cs, Admits (· = .ok) Op.WithoutTtl c)
    (hrun : World.run (kvSystem api) (KvWorld.start s₀) cs = some w) (key : String)
    (h₀ : s₀.Timeless key) (hcurrent : DeletesCurrent w key) :
    (∃ order, World.Linearizes (kvSystem api) (Alone api) (fun op => op.alters key = true) s₀ cs w
        order) ∧
      ∀ t th e, w.threads[t]? = some th → th.op.alters key = true →
        th.main.result? = some (.error e) → th.op.claims = some key ∧
          casWriteAttempts ≤ (ownEvents (.main t) w.log).countP (lostClaim key) ∧
          ∀ d ∈ ownEvents (.main t) w.log, takesPlace key th.op d = false := by
  refine ⟨⟨_, World.linearizes_points hrun (fun c hc => (hcs c hc).modeOk) (SameLive key)
    ⟨Iff.rfl, h₀⟩ (fun op e => alters_of_takesPlace) (fun cs₁ w₁ hpre hrun₁ => ?_)
    (fun s' v s s₁ h hv => h.env hv) (fun e l m c s₁ c' s' hsuf hm hserve hnot h => ?_)
    (fun e l m c s₁ c' s' th hsuf hm hserve hth hpoint h => ?_)
    (fun e l hsuf he d hd hwho => takesPlace_once hcs hrun h₀ hsuf he hd hwho)
    fun cs₁ w₁ hpre hrun₁ t th hth halters x hx => ?_⟩, fun t th e hth halters hx => ?_⟩
  · exact (alters_run (fun c hc => hcs c (hpre.subset hc)) hrun₁ key).known
  · subst hm
    obtain rfl := serve_ok_state hserve
    exact h.other hcs hrun h₀ hsuf hnot
  · subst hm
    obtain rfl := serve_ok_state hserve
    exact h.point hcs hrun h₀ hcurrent hsuf hth hpoint
  · rcases returned_cases (fun c hc => hcs c (hpre.subset hc)) hrun₁ h₀ hth halters hx with
      ⟨-, d, hd, hpoint⟩ | ⟨herr, -, -, hno⟩
    · obtain ⟨hdlog, hdwho⟩ := mem_ownEvents.1 hd
      exact .inl ⟨d, hdlog, by rw [hdwho]; rfl, hpoint⟩
    · refine .inr ⟨herr, fun d hd hdwho => hno d ?_⟩
      -- it makes no request any more
      obtain ⟨cs₂, rfl⟩ := hpre
      have hlater : World.run (kvSystem api) w₁ cs₂ = some w := by
        rw [World.run_append] at hrun
        rwa [show World.run (kvSystem api) (KvWorld.start s₀) cs₁ = some w₁ from hrun₁] at hrun
      obtain ⟨-, hown⟩ := World.run_finished hlater hth hx
      obtain ⟨u, -, hu, -⟩ := main_of_mem hcs hrun hd
      obtain rfl : u = t := by
        rw [hu] at hdwho
        exact hdwho
      rw [← hown]
      exact mem_ownEvents.2 ⟨hd, hu⟩
  · rcases returned_cases hcs hrun h₀ hth halters hx with ⟨⟨a, ha⟩, -⟩ | ⟨-, h⟩
    · exact absurd ha (by simp)
    · exact h

end Runs

/-- A put and a delete of it at once. -/
def putAndDelete : List KvChoice :=
  [.start (.put "k" [1] none), .start (.delete "k"), .act (.main 0) .ok, .act (.main 1) .ok,
    .act (.main 1) .ok, .act (.main 0) .ok]

/-- The delete is reported as in some order of the two calls. -/
theorem deletes_linearize_put : ∃ w,
    World.run (kvSystem decimalCounters) (KvWorld.start emptyServer) putAndDelete = some w ∧
      ∃ order, World.Linearizes (kvSystem decimalCounters) (Alone decimalCounters)
        (fun op => op.alters "k" = true) emptyServer putAndDelete w order := by
  obtain ⟨w, hrun, hcurrent⟩ : ∃ w ∈ World.run (kvSystem decimalCounters)
      (KvWorld.start emptyServer) putAndDelete, ∀ e ∈ w.log, ∀ r ∈ w.log, e.who = r.who →
        takesPlace "k" (.delete "k") e = true → r.req = .getLast (encodeKey "k") →
          (r.pre.Live "k" ↔ e.pre.Live "k") := by decide +kernel
  have h₀ : emptyServer.Timeless "k" := by
    intro value exp revision hslot
    have hempty : emptyServer.slot "k" = .empty := by decide
    rw [hempty] at hslot
    exact absurd hslot (by simp)
  refine ⟨w, hrun, (deletes_linearize decimalCounters emptyServer putAndDelete w
    (by simp [putAndDelete, Admits, Op.WithoutTtl]; decide) hrun "k" h₀
    fun t th hth hop e he r hr hpoint hread => ?_).1⟩
  obtain ⟨he, hwho⟩ := mem_ownEvents.1 he
  obtain ⟨hr, hwho'⟩ := mem_ownEvents.1 hr
  rw [hop] at hpoint
  exact hcurrent e he r hr (hwho.trans hwho'.symm) hpoint hread

/-! ## Two deletes of one value -/

/-- A key with a value. -/
def valueServer : Server :=
  ⟨SubjectLog.empty.store (encodeKey "k") ⟨[(expiresHeader, renderU64 0)], [1], 0⟩, 0, true, true⟩

/-- Both deletes read the value before either removes it. -/
def twoDeletes : List KvChoice :=
  [.start (.delete "k"), .start (.delete "k"), .act (.main 0) .ok, .act (.main 1) .ok,
    .act (.main 0) .ok, .act (.main 1) .ok]

theorem alone_delete {api : CounterApi} {key : String} {s s' : Server}
    {x : Except ClusterError Reply} (h : Alone api (.delete key) s x s') :
    x = .ok (.flag (s.slot key).found.isSome) ∧ ¬ s'.Live key := by
  obtain ⟨s'', hexec, hw⟩ := exec_delete s key
  obtain ⟨rfl, rfl⟩ := Prod.mk.inj (Option.some.inj ((Prog.exec_bind_ok hexec).symm.trans h))
  refine ⟨rfl, ?_⟩
  rw [Server.Live, hw.found]
  simp

/-- **Both deletes report the one value**, so no order of them explains what
they return. -/
theorem deletes_linearize_twice : ¬ ∀ (api : CounterApi) (s₀ : Server) (cs : List KvChoice)
    (w : KvWorld), (∀ c ∈ cs, Admits (· = .ok) Op.WithoutTtl c) →
    World.run (kvSystem api) (KvWorld.start s₀) cs = some w → ∀ key, s₀.Timeless key →
    ∃ order, World.Linearizes (kvSystem api) (Alone api) (fun op => op.alters key = true) s₀ cs w
      order := by
  intro h
  obtain ⟨w, hrun, hlen, hresults⟩ : ∃ w ∈ World.run (kvSystem decimalCounters)
      (KvWorld.start valueServer) twoDeletes, w.threads.length = 2 ∧
        ∀ th ∈ w.threads, th.main.result? = some (.ok (.flag true)) := by decide +kernel
  have hops : ∀ (t : Nat) (th : KvThread), w.threads[t]? = some th → th.op = .delete "k" :=
    fun t th hth => World.run_ops (P := (· = .delete "k")) (by simp [twoDeletes]) hrun hth
  have h₀ : valueServer.Timeless "k" := by
    intro value exp revision hslot
    have hvalue : valueServer.slot "k" = .live [1] none 1 := by decide
    rw [hvalue] at hslot
    exact (Slot.live.inj hslot).2.1.symm
  obtain ⟨order, hlin⟩ := h decimalCounters valueServer twoDeletes w
    (by simp [twoDeletes, Admits, Op.WithoutTtl]) hrun "k" h₀
  have hmem : ∀ t, t ∈ order ↔ t ∈ [0, 1] := by
    intro t
    constructor
    · intro ht
      obtain ⟨th, hth, -⟩ := hlin.started t ht
      have hlt := (List.getElem?_eq_some_iff.1 hth).1
      have : t = 0 ∨ t = 1 := by omega
      simpa using this
    · intro ht
      have hlt : t < w.threads.length := by
        have : t = 0 ∨ t = 1 := by simpa using ht
        omega
      have hth := List.getElem?_eq_getElem hlt
      refine hlin.returned t _ (.flag true) hth ?_ (hresults _ (List.getElem_mem hlt))
      rw [hops t _ hth]
      simp [Op.alters]
  have hperm : order.Perm [0, 1] := (List.perm_ext_iff_of_nodup hlin.unique (by simp)).2 hmem
  obtain ⟨calls, s, hcalls, hforall⟩ := hlin.results
  have hboth : ∀ (t : Nat) (c : Op × Except ClusterError Reply), (∃ th : KvThread,
      w.threads[t]? = some th ∧ c.1 = th.op ∧ ∀ x, th.main.result? = some x → c.2 = x) →
      c = (Op.delete "k", .ok (.flag true)) := by
    rintro t ⟨op, x⟩ ⟨th, hth, hop, hx⟩
    obtain rfl : op = .delete "k" := hop.trans (hops t th hth)
    obtain rfl : x = .ok (.flag true) := hx _ (hresults th (List.mem_of_getElem? hth))
    rfl
  have hlength : order.length = 2 := hperm.length_eq
  obtain ⟨a, b, rfl⟩ := List.length_eq_two.1 hlength
  cases hforall with
  | cons ha hrest =>
    cases hrest with
    | cons hb hnil =>
      cases hnil
      rw [hboth _ _ ha, hboth _ _ hb] at hcalls
      cases hcalls with
      | cons first rest =>
        cases rest with
        | cons second _ =>
          have hgone := (alone_delete first).2
          have hfound := Reply.flag.inj (Except.ok.inj (alone_delete second).1)
          exact hgone hfound.symm

end ClusterNats
