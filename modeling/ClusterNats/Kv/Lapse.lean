import ClusterNats.Kv.Cas
import ClusterNats.Kv.Invisible
import ClusterNats.Kv.Own
import ClusterNats.Kv.Requests

/-!
# What lapsed stays absent

A call that writes over a value judges it by its own clock reading and then
expects the revision it read.  An expiry changes no revision, so the write is
stored however late it comes.

* `Server.asOf`, `Judged` — what a call found under a key, and by which clock
  reading.
* `LapseGuard`, `lapseAll_keyed` — every write of a data record is over what
  the call found.
* `InTime` — a write over a value comes before its expiry.
* `Begins`, `lapsed_stays_absent` — then only a call that brings its own value,
  or counts from 0, makes an absent key present.
-/

namespace ClusterNats

open Conc

/-! ## What a call found -/

/-- The server with its clock at another instant. -/
def Server.asOf (s : Server) (t : Instant) : Server := { s with clock := t }

@[simp] theorem Server.asOf_bucket (s : Server) (t : Instant) : (s.asOf t).bucket = s.bucket := rfl

@[simp] theorem Server.asOf_now (s : Server) (t : Instant) : (s.asOf t).now = unixSecs t := rfl

/-- The event of a clock reading at the server state `s`. -/
def clockEvent (who : Actor) (s : Server) : KvEvent := ⟨who, .systemTime, s.clock, s⟩

/-- What a call found under `key` when it read it: a record without an expiry at
once, another one by the clock reading that follows. -/
inductive Judged (who : Actor) (key : String) (tr : List KvEvent) : Slot → Prop
  | undated (s : Server) (before : List KvEvent) (x : Slot)
      (hread : (readEvent who (encodeKey key) s :: before) <:+ tr)
      (hslot : ∀ t, (s.asOf t).slot key = x) : Judged who key tr x
  | dated (s s' : Server) (before : List KvEvent)
      (hread : (clockEvent who s' :: readEvent who (encodeKey key) s :: before) <:+ tr) :
      Judged who key tr ((s.asOf s'.clock).slot key)

theorem Judged.mono {who : Actor} {key : String} {tr tr' : List KvEvent} {x : Slot}
    (h : Judged who key tr x) (htr : tr <:+ tr') : Judged who key tr' x := by
  cases h with
  | undated s before x hread hslot => exact .undated s before x (hread.trans htr) hslot
  | dated s s' before hread => exact .dated s s' before (hread.trans htr)

/-- A call judged the record it read at some instant. -/
theorem Judged.read {who : Actor} {key : String} {tr : List KvEvent} {x : Slot}
    (h : Judged who key tr x) :
    ∃ s t, readEvent who (encodeKey key) s ∈ tr ∧ x = (s.asOf t).slot key := by
  cases h with
  | undated s before x hread hslot =>
    exact ⟨s, s.clock, hread.subset List.mem_cons_self, (hslot s.clock).symm⟩
  | dated s s' before hread =>
    exact ⟨s, s'.clock, hread.subset (List.mem_cons_of_mem _ List.mem_cons_self), rfl⟩

/-- The event is one the server answered, whatever the backend does. -/
abbrev Answers (api : CounterApi) : KvEvent → Prop := World.Served (kvSystem api) fun _ => True

/-! ## What a call writes over it -/

/-- What may be written over a slot: over a value anything, over none a counter
that starts from 0. -/
def Op.Revises (op : Op) (value : Bytes) : Slot → Prop
  | .live .. => True
  | _ =>
    match op with
    | .updateCounter _ _ _ step => ∃ next, step 0 = .ok next ∧ value = renderI64 next
    | _ => False

/-- A request that stores a value under `key` over what the call found. -/
def RevisesFound (op : Op) (who : Actor) (key : String) (tr : List KvEvent) (r : Req) : Prop :=
  ∃ x value exp, Judged who key tr x ∧ op.Revises value x ∧
    r = .publish (encodeKey key) [(expiresHeader, renderU64 (exp.getD 0))] (encodeValue value exp)
      x.expect.lastSequence

/-- What a call owes when it changes the data record of `key`. -/
def LapseGuard (op : Op) (who : Actor) (key : String) (tr : List KvEvent) (r : Req) : Prop :=
  r.touches (encodeKey key) = true → op.key? = some key ∧
    match op with
    | .put .. => True
    | .putIfAbsent .. => True
    | .delete _ => r = .publish (encodeKey key) [(kvOperationHeader, bytes "DEL")] [] none
    | .expire .. => RevisesFound op who key tr r
    | .updateCounter .. => RevisesFound op who key tr r
    | _ => False

section Programs

variable {api : CounterApi} {op : Op} {who : Actor} {key : String} {α β : Type}
  {tr : List KvEvent}

/-- The check that a program writes over what it found. -/
abbrev LapseAll (api : CounterApi) (op : Op) (who : Actor) (key : String) (p : Kv α)
    (tr : List KvEvent) : Prop :=
  p.Abides who (Answers api) (LapseGuard op who key) (fun _ _ => True) tr

/-- A request that leaves the data record alone. -/
abbrev Untouched (key : String) (r : Req) : Prop := r.touches (encodeKey key) = false

theorem Untouched.guard {r : Req} (h : Untouched key r) : LapseGuard op who key tr r :=
  fun ht => absurd ht (by simp [h])

theorem untouched_of_read (r : Req) (h : r.isWrite = false) : Untouched key r := by
  cases r <;> simp_all [Untouched, Req.touches, Req.isWrite]

/-- The upkeep of the index leaves the data record alone. -/
theorem asks_untouched (key : String) : AsksIndex key (Untouched key) where
  read := untouched_of_read
  index _ _ _ := by simp [Untouched, Req.touches, (encodeKey_ne_indexKey key key).symm]
  purge _ := by simp [Untouched, Req.touches, (encodeKey_ne_indexKey key key).symm]

/-- A first part that leaves the data record alone. -/
theorem lapseAll_bind {p : Kv α} {f : α → Kv β} (h : p.Requests (Untouched key))
    (hf : ∀ a tr', tr <:+ tr' → LapseAll api op who key (f a) tr') :
    LapseAll api op who key (p >>= f) tr :=
  Prog.abides_bind_requests h (fun _ _ _ hr => hr.guard) hf fun _ _ _ => trivial

/-- A program that leaves the data record alone. -/
theorem lapseAll_of_requests {p : Kv α} (h : p.Requests (Untouched key)) :
    LapseAll api op who key p tr := by
  have hbind : LapseAll api op who key (p >>= fun a => Prog.ret a) tr :=
    lapseAll_bind h fun _ _ _ => trivial
  rwa [Prog.bind_ret_right] at hbind

/-- A first part that writes over what was found. -/
theorem lapseAll_bind_write {p : Kv α} {f : α → Kv β} {x : Slot} {value : Bytes}
    {exp : Option UInt64} (hx : Judged who key tr x)
    (hrevises : op.Revises value x)
    (hguard : ∀ tr r, RevisesFound op who key tr r → LapseGuard op who key tr r)
    (h : p.Requests fun r : Req => r = .publish (encodeKey key)
      [(expiresHeader, renderU64 (exp.getD 0))] (encodeValue value exp) x.expect.lastSequence)
    (hf : ∀ a tr', tr <:+ tr' → LapseAll api op who key (f a) tr') :
    LapseAll api op who key (p >>= f) tr := by
  refine Prog.abides_bind_requests h (fun tr' r htr hr => ?_) hf fun _ _ _ => trivial
  exact hguard tr' r ⟨x, value, exp, hx.mono htr, hrevises, hr⟩

theorem served_getLast {subject : Bytes} {x : Resp (.getLast subject)} {s : Server}
    (h : Answers api ⟨who, .getLast subject, x, s⟩) :
    x = Except.ok (s.bucket.last subject) ∨ ∃ e, x = Except.error e := by
  obtain ⟨m, l, s', l', -, hserve⟩ := h
  obtain ⟨y, hy, hxy⟩ := Option.map_eq_some_iff.1 hserve
  obtain rfl : y = x := (Prod.mk.inj hxy).1
  unfold readOnly at hy
  split at hy
  · exact .inl (Option.some.inj hy).symm
  · exact .inr ⟨_, (Option.some.inj hy).symm⟩
  · exact .inr ⟨_, (Option.some.inj hy).symm⟩
  · exact absurd hy (by simp)

theorem served_systemTime {x : Resp .systemTime} {s : Server}
    (h : Answers api ⟨who, .systemTime, x, s⟩) : x = s.clock := by
  obtain ⟨m, l, s', l', -, hserve⟩ := h
  exact (Prod.mk.inj (Option.some.inj hserve)).1.symm

/-- **A read of a key finds what it judges.** -/
theorem slot_judged : (slot (encodeKey key) key).Abides who (Answers api)
    (fun _ r => r.isWrite = false)
    (fun tr' y => tr <:+ tr' ∧ ∀ x, y = .ok x → Judged who key tr' x) tr := by
  rw [slot]
  refine ⟨rfl, fun answered s hs => ?_⟩
  rcases served_getLast hs with rfl | ⟨e, rfl⟩
  · show (slotOf ((s.bucket.last (encodeKey key)).map Record.ofMessage)).Abides who (Answers api) _ _
      (readEvent who (encodeKey key) s :: tr)
    have hundated : ∀ x, (∀ t, (s.asOf t).slot key = x) →
        (Prog.ret x : Kv Slot).Abides who (Answers api) (fun _ r => r.isWrite = false)
          (fun tr' y => tr <:+ tr' ∧ ∀ x, y = .ok x → Judged who key tr' x)
          (readEvent who (encodeKey key) s :: tr) := by
      intro x hx
      refine ⟨List.suffix_cons _ _, fun x' hx' => ?_⟩
      cases Except.ok.inj hx'
      exact .undated s tr x List.suffix_rfl hx
    cases hlast : s.bucket.last (encodeKey key) with
    | none => exact hundated .empty fun t => by simp [Server.slot, hlast, Slot.ofRecord]
    | some m =>
      rw [Option.map_some, slotOf_some]
      by_cases hop : (Record.ofMessage m).operation = .put
      · rw [if_neg (fun hne => hne hop)]
        cases hexp : (decodeValue (Record.ofMessage m).payload).2 with
        | none =>
          refine hundated _ fun t => ?_
          simp [Server.slot, hlast, Slot.ofRecord, hop, hexp, isExpiredAt]
        | some secs =>
          simp only [isExpired, LawfulMonad.bind_assoc]
          refine ⟨rfl, fun time s' htime => ?_⟩
          obtain rfl := served_systemTime htime
          have hdated : ∀ x, (s.asOf s'.clock).slot key = x →
              (Prog.ret x : Kv Slot).Abides who (Answers api) (fun _ r => r.isWrite = false)
                (fun tr' y => tr <:+ tr' ∧ ∀ x, y = .ok x → Judged who key tr' x)
                (clockEvent who s' :: readEvent who (encodeKey key) s :: tr) := by
            rintro x rfl
            refine ⟨List.suffix_append [_, _] tr, fun x' hx' => ?_⟩
            cases Except.ok.inj hx'
            exact .dated s s' tr List.suffix_rfl
          show (if decide (secs ≤ unixSecs s'.clock) = true
            then Prog.ret (Slot.dead (Record.ofMessage m).revision)
            else Prog.ret (.live (decodeValue (Record.ofMessage m).payload).1 (some secs)
              (Record.ofMessage m).revision)).Abides who (Answers api) _ _ _
          by_cases hle : secs ≤ unixSecs s'.clock
          · rw [if_pos (decide_eq_true hle)]
            refine hdated _ ?_
            simp [Server.slot, hlast, Slot.ofRecord, hexp, isExpiredAt, hle]
          · rw [if_neg (by simpa using hle)]
            refine hdated _ ?_
            simp [Server.slot, hlast, Slot.ofRecord, hop, hexp, isExpiredAt, hle]
      · rw [if_pos hop]
        refine hundated _ fun t => ?_
        simp [Server.slot, hlast, Slot.ofRecord, hop]
  · exact ⟨List.suffix_cons _ _, fun x hx => absurd hx (by simp)⟩

/-- What follows a read of a key knows what it found. -/
theorem lapseAll_slot {f : Slot → Kv α}
    (h : ∀ x tr', tr <:+ tr' → Judged who key tr' x → LapseAll api op who key (f x) tr') :
    LapseAll api op who key (slot (encodeKey key) key >>= f) tr := by
  refine (slot_judged.guard fun _ r hr => (untouched_of_read r hr).guard).bind ?_ fun _ _ _ => trivial
  rintro tr' x ⟨htr, hx⟩
  exact h x tr' htr (hx x rfl)

/-! ## The calls -/

/-- The expiry of a TTL leaves the data record alone. -/
theorem untouched_expiresAtFrom (ttl : Option Duration) :
    (expiresAtFrom ttl).Requests (Untouched key) := requests_expiresAtFrom untouched_of_read ttl

theorem lapseAll_delete : LapseAll api (.delete key) who key (delete key) tr := by
  refine lapseAll_bind (requests_slot untouched_of_read _ key) fun x tr₁ _ => ?_
  refine Prog.abides_bind_requests (p := publishMarker (encodeKey key))
    (P := fun r => r = .publish (encodeKey key) [(kvOperationHeader, bytes "DEL")] [] none)
    ⟨rfl, fun _ => Prog.Requests.ofExcept⟩ (fun _ r _ hr _ => ⟨rfl, hr⟩) (fun marker tr₂ _ => ?_)
    fun _ _ _ => trivial
  split <;> trivial

theorem lapseAll_expire (ttl : Option Duration) :
    LapseAll api (.expire key ttl) who key (expire key ttl) tr := by
  have hrounds : ∀ rounds tr,
      LapseAll api (.expire key ttl) who key (expireRounds key ttl rounds) tr := by
    intro rounds
    induction rounds with
    | zero => exact fun _ => trivial
    | succ rounds ih =>
      intro tr₁
      refine lapseAll_slot fun x tr₂ _ hx => ?_
      cases x with
      | live value exp revision =>
        refine lapseAll_bind (untouched_expiresAtFrom ttl) fun exp' tr₃ htr₃ => ?_
        have hwrite : (write (encodeKey key) value exp' (.revision revision)).Requests fun r : Req =>
            r = .publish (encodeKey key) [(expiresHeader, renderU64 (exp'.getD 0))]
              (encodeValue value exp') (some revision) := requests_write rfl
        refine lapseAll_bind_write (hx.mono htr₃) trivial (fun _ _ hr _ => ⟨rfl, hr⟩) hwrite
          fun written tr₄ _ => ?_
        split
        · trivial
        · exact ih tr₄
        · trivial
      | _ => trivial
  exact hrounds _ _

/-- A counter call goes on with what it found: the count of a value, or `0`. -/
theorem lapseAll_readCounter (counters : CounterApi) (ttl : Option Duration)
    {f : Int64 × Option UInt64 × Expect × Bool → Kv α}
    (h : ∀ x read tr', tr <:+ tr' → Judged who key tr' x → read.2.2.1 = x.expect →
      ((∃ value exp revision, x = .live value exp revision) ∨ read.1 = 0) →
      LapseAll api op who key (f read) tr') :
    LapseAll api op who key (readCounter counters key ttl >>= f) tr := by
  unfold readCounter
  rw [LawfulMonad.bind_assoc]
  refine lapseAll_slot fun x tr₁ htr₁ hx => ?_
  cases x with
  | empty =>
    dsimp only
    rw [LawfulMonad.bind_assoc]
    refine lapseAll_bind (untouched_expiresAtFrom ttl) fun exp tr₂ htr₂ => ?_
    exact h _ (0, exp, .nothing, true) tr₂ (htr₁.trans htr₂) (hx.mono htr₂) rfl (.inr rfl)
  | dead revision =>
    dsimp only
    rw [LawfulMonad.bind_assoc]
    refine lapseAll_bind (untouched_expiresAtFrom ttl) fun exp tr₂ htr₂ => ?_
    exact h _ (0, exp, .revision revision, true) tr₂ (htr₁.trans htr₂) (hx.mono htr₂) rfl (.inr rfl)
  | live value exp revision =>
    dsimp only
    rw [LawfulMonad.bind_assoc]
    have hexpiry : (counterExpiry ttl exp).Requests (Untouched key) := by
      unfold counterExpiry
      split
      · exact untouched_expiresAtFrom ttl
      · trivial
    refine lapseAll_bind hexpiry fun exp' tr₂ htr₂ => ?_
    rw [LawfulMonad.bind_assoc]
    refine lapseAll_bind Prog.Requests.ofExcept fun current tr₃ htr₃ => ?_
    exact h _ (current, exp', .revision revision, false) tr₃ (htr₁.trans (htr₂.trans htr₃))
      (hx.mono (htr₂.trans htr₃)) rfl (.inl ⟨_, _, _, rfl⟩)

theorem lapseAll_updateCounter (counters : CounterApi) (name : String) (ttl : Option Duration)
    (step : Int64 → Except ClusterError Int64) :
    LapseAll api (.updateCounter name key ttl step) who key
      (updateCounter counters name key ttl step) tr := by
  have hrounds : ∀ rounds tr, LapseAll api (.updateCounter name key ttl step) who key
      (updateCounterRounds counters name key ttl step rounds) tr := by
    intro rounds
    induction rounds with
    | zero => exact fun _ => trivial
    | succ rounds ih =>
      intro tr₁
      refine lapseAll_readCounter counters ttl fun x read tr₂ _ hx hexpect hcount => ?_
      obtain ⟨current, exp, expect, creates⟩ := read
      dsimp only at hexpect hcount ⊢
      subst hexpect
      cases hnext : step current with
      | error e => trivial
      | ok next =>
        simp only [Prog.ofExcept_ok, Prog.ret_bind]
        split
        · trivial
        · have hrevises : (Op.updateCounter name key ttl step).Revises (renderI64 next) x := by
            rcases hcount with ⟨value, exp', revision, rfl⟩ | rfl
            · trivial
            · cases x with
              | live value exp' revision => trivial
              | _ => exact ⟨next, hnext, rfl⟩
          refine lapseAll_bind_write hx hrevises (fun _ _ hr _ => ⟨rfl, hr⟩) (requests_publish rfl)
            fun pending tr₃ _ => ?_
          refine lapseAll_bind (p := indexCreated key creates) ?_ fun indexed tr₄ _ => ?_
          · unfold indexCreated
            split
            · exact (requests_publishIndex (asks_untouched key)).map
            · trivial
          · split
            · exact lapseAll_of_requests
                (Prog.Requests.bind (Prog.Requests.map Prog.Requests.ofExcept) fun _ => trivial)
            · exact ih tr₄
            · exact lapseAll_of_requests (requests_refused (asks_untouched key) _ _)
  exact hrounds _ _

/-- **Every call on a key writes over what it found.** -/
theorem lapseAll_keyed {k : String} (counters : CounterApi) (hop : op.key? = some k) :
    LapseAll api op who key (op.program counters) tr := by
  by_cases hk : k = key
  · subst hk
    cases op with
    | get k' =>
      cases Option.some.inj hop
      exact lapseAll_of_requests (requests_get untouched_of_read k).map
    | put k' value ttl =>
      cases Option.some.inj hop
      exact Prog.abides_of_free (fun _ _ _ => ⟨rfl, trivial⟩) fun _ _ => trivial
    | putIfAbsent k' value ttl =>
      cases Option.some.inj hop
      exact Prog.abides_of_free (fun _ _ _ => ⟨rfl, trivial⟩) fun _ _ => trivial
    | delete k' =>
      cases Option.some.inj hop
      exact lapseAll_delete.map fun _ _ _ => trivial
    | expire k' ttl =>
      cases Option.some.inj hop
      exact (lapseAll_expire ttl).map fun _ _ _ => trivial
    | updateCounter name k' ttl step =>
      cases Option.some.inj hop
      exact (lapseAll_updateCounter counters name ttl step).map fun _ _ _ => trivial
    | _ => exact nomatch hop
  · exact lapseAll_of_requests (requests_keyed (asksOf_other hk) counters hop)

end Programs

/-! ## Every run -/

/-- A write over a value that its call found live comes before the value's
expiry: where the key still holds what was found, it is live. -/
def InTime (key : String) (op : Op) (e : KvEvent) (older : List KvEvent) : Prop :=
  op.revises = some key → e.req.touches (encodeKey key) = true → ∀ s s' before,
    (clockEvent e.who s' :: readEvent e.who (encodeKey key) s :: before) <:+
      ownEvents e.who older → (s.asOf s'.clock).Live key →
    e.pre.bucket.last (encodeKey key) = s.bucket.last (encodeKey key) → e.pre.Live key

/-- The calls that make a key present by what they bring: a put, a claim, or a
counter that starts from 0. -/
def Op.Begins (key : String) (r : Req) : Op → Prop
  | .put k _ _ => k = key
  | .putIfAbsent k _ _ => k = key
  | .updateCounter _ k _ step => k = key ∧ ∃ next exp expected, step 0 = .ok next ∧
      r = .publish (encodeKey key) [(expiresHeader, renderU64 (exp.getD 0))]
        (encodeValue (renderI64 next) exp) expected
  | _ => False

section Runs

variable {api : CounterApi} {s₀ s : Server} {log : List KvEvent} {cs : List KvChoice} {w : KvWorld}
  {key : String}

/-- A key that is live at a reading of its record and at an instant is live where
its record and the clock are the same. -/
theorem Server.live_congr {s s' : Server} {t : Instant}
    (hlast : s'.bucket.last (encodeKey key) = s.bucket.last (encodeKey key)) (ht : s'.clock = t)
    (h : (s.asOf t).Live key) : s'.Live key := by
  have hslot : s'.slot key = (s.asOf t).slot key :=
    Server.slot_congr hlast (congrArg unixSecs ht)
  rwa [Server.Live, hslot]

/-- **A write in time is over a live value.**  Where a write over a value that
was found live meets its expectation, the key is live. -/
theorem live_of_found {op : Op} {e : KvEvent} {older : List KvEvent}
    (h : History (kvSystem api) (fun _ => True) s₀ log s) (hsuf : (e :: older) <:+ log)
    {value : Bytes} {exp : Option UInt64} {revision : Nat}
    (hx : Judged e.who key (ownEvents e.who older) (.live value exp revision))
    (hexp : e.pre.bucket.lastSeqOf (encodeKey key) = revision) (hop : op.revises = some key)
    (htouches : e.req.touches (encodeKey key) = true) (htime : InTime key op e older) :
    e.pre.Live key := by
  have hsame : ∀ (s' : Server) (t : Instant), readEvent e.who (encodeKey key) s' ∈
      ownEvents e.who older → .live value exp revision = (s'.asOf t).slot key →
      e.pre.bucket.last (encodeKey key) = s'.bucket.last (encodeKey key) := by
    intro s' t hmem hslot
    obtain ⟨post, pre, hsplit⟩ := List.append_of_mem (mem_ownEvents.1 hmem).1
    have hread : (readEvent e.who (encodeKey key) s' :: pre) <:+ older := hsplit ▸ List.suffix_append _ _
    have hevolves := (history_since (history_before h hsuf) hread).1
    refine last_of_expected hevolves hslot fun n hn => ?_
    cases Option.some.inj hn
    exact hexp
  generalize hslot : Slot.live value exp revision = x at hx
  cases hx with
  | undated s' before x hread hundated =>
    have hlast := hsame s' e.pre.clock (hread.subset List.mem_cons_self)
      (hslot.trans (hundated e.pre.clock).symm)
    refine Server.live_congr hlast rfl ?_
    rw [Server.Live, hundated, ← hslot]
    rfl
  | dated s' s'' before hread =>
    have hlast := hsame s' s''.clock (hread.subset (List.mem_cons_of_mem _ List.mem_cons_self)) hslot
    refine htime hop htouches s' s'' before hread ?_ hlast
    rw [Server.Live, ← hslot]
    rfl

/-- A key with a marker is absent. -/
theorem not_live_marker : ¬ (Req.effect s (.publish (encodeKey key)
    [(kvOperationHeader, bytes "DEL")] [] none)).Live key := by
  have hmarker : Record.recordOperation [(kvOperationHeader, bytes "DEL")] ≠ .put := by decide
  rcases publish_cases s (encodeKey key) [(kvOperationHeader, bytes "DEL")] [] none with
    ⟨-, heq⟩ | ⟨⟨n, hn, -⟩, -⟩
  · have hdead : (Req.effect s (.publish (encodeKey key)
        [(kvOperationHeader, bytes "DEL")] [] none)).slot key = .dead (s.bucket.lastSeq + 1) := by
      rw [Req.effect, heq, Server.slot, SubjectLog.last_store_self]
      exact Slot.ofRecord_eq_dead.2 ⟨_, rfl, rfl, .inl hmarker⟩
    exact Server.not_live_of_dead hdead
  · exact absurd hn (by simp)

/-- Every call writes the data record of a key over what it found of it. -/
theorem lapse_run (hcs : ∀ c ∈ cs, Admits (fun _ => True) Op.SweepOrSimple c)
    (hrun : World.run (kvSystem api) (KvWorld.start s₀) cs = some w) {e : KvEvent}
    {older : List KvEvent} (hsuf : (e :: older) <:+ w.log) {th : KvThread}
    (hth : w.threads[e.who.thread]? = some th) (hmaintains : th.op.maintains = false) :
    LapseGuard th.op e.who key (ownEvents e.who older) e.req := by
  have hkeyed : ∀ op : Op, op.SweepOrSimple → op.maintains = false → ∃ k, op.key? = some k := by
    intro op hop hm
    have hsimple : op.Simple := hop.resolve_left (by simp [hm])
    cases op <;> simp_all [Op.key?, Op.maintains, Op.Simple]
  have hop : th.op.SweepOrSimple := World.run_ops (fun _ hc => hcs _ hc) hrun hth
  obtain ⟨k, hk⟩ := hkeyed th.op hop hmaintains
  have habiding : World.Abiding (Answers api)
      (fun op who tr r => op.key? ≠ none → LapseGuard op who key tr r) (fun _ _ _ _ => True) w := by
    refine World.run_abiding (fun _ => True) (fun _ h => h) (fun _ op p hcall t => ?_)
      (fun c _ => by cases c <;> trivial) hrun
    cases Option.some.inj hcall
    cases hkey : op.key? with
    | none => exact Prog.abides_of_free (fun _ _ h => absurd rfl h) fun _ _ => trivial
    | some k => exact (lapseAll_keyed api hkey).guard fun _ _ hr _ => hr
  have hnoSpawn : ∀ (ths : List KvThread) (op : Op) (p : Kv Reply), op.key? ≠ none →
      (kvSystem api).call ths op = some p → p.NoSpawn := by
    intro ths op p hop hcall
    cases Option.some.inj hcall
    obtain ⟨k, hk⟩ := Option.ne_none_iff_exists'.1 hop
    exact (requests_keyed (asks_true.of k) api hk).noSpawn
  obtain ⟨th', hth', hmain⟩ := World.run_main_of_noSpawn (C := fun op => op.key? ≠ none) hnoSpawn
    hrun e (hsuf.subset List.mem_cons_self)
  cases Option.some.inj (hth.symm.trans hth')
  have hne : th.op.key? ≠ none := by simp [hk]
  obtain ⟨t, hwho⟩ := hmain hne
  rw [hwho] at hth ⊢
  exact habiding.guarded t th hth e older hsuf hwho hne

/-- **What makes an absent key present.**  An event that does, by a call whose
write is in time, is of a call that brings a value of its own. -/
theorem begins_of_event (h₀ : s₀.Agrees)
    (hcs : ∀ c ∈ cs, Admits (fun _ => True) Op.SweepOrSimple c)
    (hrun : World.run (kvSystem api) (KvWorld.start s₀) cs = some w) {e : KvEvent}
    {older : List KvEvent} (hsuf : (e :: older) <:+ w.log) {th : KvThread}
    (hth : w.threads[e.who.thread]? = some th) (htime : InTime key th.op e older)
    (hdead : ¬ e.pre.Live key) {m : Mode} {c c' : Option Consumer} {s' : Server}
    (hserve : serve m e.pre c e.req = some (e.resp, s', c')) (hlive : s'.Live key) :
    th.op.Begins key e.req := by
  obtain ⟨hpool, -, hguarded⟩ := sweep_run h₀ hrun
  have hhistory : History (kvSystem api) (fun _ => True) s₀ w.log w.srv :=
    World.start_history (fun c hc => (hcs c hc).modeOk) hrun
  have heffect : s' = e.req.effect e.pre := by
    rcases serve_state hserve with rfl | h
    · exact absurd hlive hdead
    · exact h
  subst heffect
  cases hm : th.op.maintains with
  | true =>
    obtain ⟨th', hth', hguar⟩ := hguarded e older hsuf
    cases Option.some.inj (hth.symm.trans hth')
    -- the maintenance changes no answer of `get`
    obtain ⟨hfound, -⟩ := (leavesReads_of_serve hm hguar hserve).1 key
    rw [Server.Live, hfound] at hlive
    exact absurd hlive hdead
  | false =>
    have htouches : e.req.touches (encodeKey key) = true := by
      by_contra hnot
      have hlast := effect_last_of_not_touches (s := e.pre) (Bool.not_eq_true _ ▸ hnot)
      rw [Server.Live, Server.slot_congr hlast (congrArg unixSecs (effect_clock _ _))] at hlive
      exact hdead hlive
    obtain ⟨hkey, hwrite⟩ := lapse_run hcs hrun hsuf hth hm htouches
    have hrevised : th.op.revises = some key → RevisesFound th.op e.who key (ownEvents e.who older) e.req →
        ∃ x value exp, (∀ v e r, x ≠ .live v e r) ∧ th.op.Revises value x ∧
          e.req = .publish (encodeKey key) [(expiresHeader, renderU64 (exp.getD 0))]
            (encodeValue value exp) x.expect.lastSequence := by
      rintro hop ⟨x, value, exp, hx, hrevises, hreq⟩
      refine ⟨x, value, exp, ?_, hrevises, hreq⟩
      rintro v ex revision rfl
      refine hdead (live_of_found hhistory hsuf hx ?_ hop htouches htime)
      -- the write was stored, so it met its expectation
      rw [hreq] at hlive
      rcases publish_cases e.pre (encodeKey key) [(expiresHeader, renderU64 (exp.getD 0))]
        (encodeValue value exp) (some revision) with ⟨hexp, -⟩ | ⟨-, heq⟩
      · exact hexp revision rfl
      · exact absurd (show e.pre.Live key by rwa [Req.effect, Slot.expect, Expect.lastSequence, heq] at hlive)
          hdead
    cases hop : th.op with
    | put k value ttl =>
      rw [hop] at hkey
      exact Option.some.inj hkey
    | putIfAbsent k value ttl =>
      rw [hop] at hkey
      exact Option.some.inj hkey
    | delete k =>
      rw [hop] at hwrite
      rw [hwrite] at hlive
      exact absurd hlive not_live_marker
    | expire k ttl =>
      rw [hop] at hwrite hrevised hkey
      obtain ⟨x, value, exp, hnot, hrevises, -⟩ := hrevised hkey hwrite
      cases x with
      | live v ex r => exact absurd rfl (hnot v ex r)
      | _ => exact absurd hrevises id
    | updateCounter name k ttl step =>
      rw [hop] at hwrite hrevised hkey
      obtain ⟨x, value, exp, hnot, hrevises, hreq⟩ := hrevised hkey hwrite
      refine ⟨Option.some.inj hkey, ?_⟩
      cases x with
      | live v ex r => exact absurd rfl (hnot v ex r)
      | _ =>
        obtain ⟨next, hstep, rfl⟩ := hrevises
        exact ⟨next, exp, _, hstep, hreq⟩
    | _ =>
      rw [hop] at hwrite
      exact absurd hwrite id

/-- A history from a state in which a key is absent to one in which it is present
has an event that makes it so. -/
theorem history_begins {ok : Mode → Prop} (h : History (kvSystem api) ok s₀ log s)
    (hdead : ¬ s₀.Live key) (hlive : s.Live key) :
    ∃ e older m c s' c', (e :: older) <:+ log ∧ ¬ e.pre.Live key ∧
      serve m e.pre c e.req = some (e.resp, s', c') ∧ s'.Live key := by
  revert hlive
  refine h.induction (P := fun log s => s.Live key → ∃ e older m c s' c', (e :: older) <:+ log ∧
    ¬ e.pre.Live key ∧ serve m e.pre c e.req = some (e.resp, s', c') ∧ s'.Live key)
    (fun hlive => absurd hlive hdead) ?_ ?_
  · intro l v s₁ s₂ ih hs hlive
    -- time makes nothing live
    obtain ⟨hbucket, hclock⟩ := env_later hs
    obtain ⟨value, exp, revision, hslot⟩ := Server.live_iff.1 hlive
    rw [Server.slot, hbucket] at hslot
    exact ih (Server.live_iff.2 ⟨value, exp, revision, Slot.ofRecord_live_mono hclock hslot⟩)
  · rintro l e m c s' c' - ih - hserve hlive
    by_cases hpre : e.pre.Live key
    · obtain ⟨e', older, m', c₁, s'', c₂, hsuf, hrest⟩ := ih hpre
      exact ⟨e', older, m', c₁, s'', c₂, hsuf.trans (List.suffix_cons _ _), hrest⟩
    · exact ⟨e, l, m, c, s', c', List.suffix_rfl, hpre, hserve, hlive⟩

end Runs

/-- Since `w₁`, a call that brings a value of its own made `key` present. -/
def BegunSince (key : String) (w₁ w : KvWorld) : Prop :=
  ∃ e older th, (e :: (older ++ w₁.log)) <:+ w.log ∧ w.threads[e.who.thread]? = some th ∧
    ¬ e.pre.Live key ∧ (e.req.effect e.pre).Live key ∧ th.op.Begins key e.req

/-- **What lapsed stays absent.**  In a run of any calls on single keys, of sweeps
and of backfills, whose writes over values come before the values' expiry, a key
that is absent becomes present only by a put, by a claim that is stored, or by a
counter that starts from 0. -/
theorem lapsed_stays_absent (api : CounterApi) (s₀ : Server) (h₀ : s₀.WellFormed)
    (cs₁ cs₂ : List KvChoice)
    (hcs : ∀ c ∈ cs₁ ++ cs₂, Admits (fun _ => True) Op.SweepOrSimple c) (w₁ w : KvWorld)
    (hrun₁ : World.run (kvSystem api) (KvWorld.start s₀) cs₁ = some w₁)
    (hrun₂ : World.run (kvSystem api) w₁ cs₂ = some w) (key : String)
    (htime : ∀ e older th, (e :: older) <:+ w.log → w.threads[e.who.thread]? = some th →
      InTime key th.op e older)
    (hlapsed : ¬ w₁.srv.Live key) (hlive : w.srv.Live key) : BegunSince key w₁ w := by
  have hrun : World.run (kvSystem api) (KvWorld.start s₀) (cs₁ ++ cs₂) = some w := by
    rw [World.run_append, hrun₁]
    exact hrun₂
  have hmodes : ∀ c ∈ cs₂, World.ModeOk (fun _ => True) c := fun c _ => by cases c <;> trivial
  obtain ⟨new, hlog, hhistory⟩ := World.run_since hmodes hrun₂
  obtain ⟨e, older, m, c, s', c', hnew, hdead, hserve, hbegan⟩ :=
    history_begins hhistory hlapsed hlive
  have hsuf : (e :: (older ++ w₁.log)) <:+ w.log := by
    rw [hlog, ← List.cons_append]
    obtain ⟨post, rfl⟩ := hnew
    exact ⟨post, by simp⟩
  obtain ⟨-, -, hguarded⟩ := sweep_run h₀.agrees hrun
  obtain ⟨th, hth, -⟩ := hguarded e _ hsuf
  have heffect : s' = e.req.effect e.pre := by
    rcases serve_state hserve with rfl | h
    · exact absurd hbegan hdead
    · exact h
  refine ⟨e, older, th, hsuf, hth, hdead, heffect ▸ hbegan, ?_⟩
  exact begins_of_event h₀.agrees hcs hrun hsuf hth (htime e _ th hsuf hth) hdead hserve hbegan

/-- A value that expires at 5 s, at 4 s. -/
def expiringServer : Server := expiredServer.asOf 4000000000

theorem expiringServer_wellFormed : expiringServer.WellFormed := by
  intro key m hm
  obtain rfl := List.mem_singleton.1 (SubjectLog.mem_of_last hm)
  exact .current [1] (some 5) rfl rfl

/-- An expire that stores a new expiry, which passes. -/
def expireThenLapse : List KvChoice :=
  [.start (.expire "k" (some (.fromSecs 2))), .act (.main 0) .ok, .act (.main 0) .ok,
    .act (.main 0) .ok, .act (.main 0) .ok, .env (.tick 7000000000)]

def putAgain : List KvChoice := [.start (.put "k" [2] none), .act (.main 1) .ok]

/-- An expire in time, an expiry, and a put. -/
theorem lapsed_stays_absent_put :
    ∃ w₁ ∈ World.run (kvSystem decimalCounters) (KvWorld.start expiringServer) expireThenLapse,
      ∃ w ∈ World.run (kvSystem decimalCounters) w₁ putAgain, BegunSince "k" w₁ w := by
  have hrun : ∃ w₁ ∈ World.run (kvSystem decimalCounters) (KvWorld.start expiringServer)
      expireThenLapse, ∃ w ∈ World.run (kvSystem decimalCounters) w₁ putAgain,
        ¬ w₁.srv.Live "k" ∧ w.srv.Live "k" ∧ (∃ th ∈ w.threads[1]?, th.op.revises = none) ∧
          (w.log.all fun e => e.who = .main 1 || !e.req.touches (encodeKey "k") ||
            decide (e.pre.Live "k")) = true := by decide +kernel
  obtain ⟨w₁, hw₁, w, hw, hlapsed, hlive, ⟨put, hput, hrevises⟩, hlog⟩ := hrun
  refine ⟨w₁, hw₁, w, hw, ?_⟩
  refine lapsed_stays_absent decimalCounters _ expiringServer_wellFormed _ _ ?_ w₁ w hw₁ hw "k" ?_
    hlapsed hlive
  · intro c hc
    simp only [expireThenLapse, putAgain, List.mem_append, List.mem_cons, List.not_mem_nil,
      or_false] at hc
    rcases hc with (rfl | rfl | rfl | rfl | rfl | rfl) | rfl | rfl
    all_goals first | trivial | exact .inr trivial
  · intro e older th hsuf hth hop htouches s s' before _ _ _
    have hall := List.all_eq_true.1 hlog e (hsuf.subset List.mem_cons_self)
    simp only [htouches, Bool.not_true, Bool.or_false, Bool.or_eq_true, decide_eq_true_eq] at hall
    rcases hall with hwho | hlive'
    · rw [hwho] at hth
      cases Option.some.inj (hput.symm.trans hth)
      exact absurd (hrevises.symm.trans hop) (by simp)
    · exact hlive'

/-- An expire that found the value before its expiry. -/
def expireBefore : List KvChoice :=
  [.start (.expire "k" none), .act (.main 0) .ok, .act (.main 0) .ok, .env (.tick 6000000000)]

/-- An expire that finds the value at 4 s and writes it at 6 s brings it back. -/
theorem lapsed_stays_absent_revived : ¬ ∀ (api : CounterApi) (s₀ : Server), s₀.WellFormed →
    ∀ cs₁ cs₂ : List KvChoice, (∀ c ∈ cs₁ ++ cs₂, Admits (fun _ => True) Op.SweepOrSimple c) →
    ∀ w₁ w : KvWorld, World.run (kvSystem api) (KvWorld.start s₀) cs₁ = some w₁ →
    World.run (kvSystem api) w₁ cs₂ = some w → ∀ key, ¬ w₁.srv.Live key → w.srv.Live key →
    BegunSince key w₁ w := by
  intro h
  have hrun : ∃ w₁ ∈ World.run (kvSystem decimalCounters) (KvWorld.start expiringServer) expireBefore,
      ∃ w ∈ World.run (kvSystem decimalCounters) w₁ [.act (.main 0) .ok],
        ¬ w₁.srv.Live "k" ∧ w.srv.Live "k" := by decide +kernel
  obtain ⟨w₁, hw₁, w, hw, hlapsed, hlive⟩ := hrun
  have hcs : ∀ c ∈ expireBefore ++ [.act (.main 0) .ok],
      Admits (fun _ => True) (· = Op.expire "k" none) c := by
    intro c hc
    simp only [expireBefore, List.mem_append, List.mem_cons, List.not_mem_nil, or_false] at hc
    rcases hc with (rfl | rfl | rfl | rfl) | rfl
    all_goals trivial
  have hadmits : ∀ c ∈ expireBefore ++ [.act (.main 0) .ok],
      Admits (fun _ => True) Op.SweepOrSimple c := by
    intro c hc
    have hadmit := hcs c hc
    cases c with
    | start op => exact .inr (by rw [show op = _ from hadmit]; trivial)
    | _ => trivial
  obtain ⟨e, older, th, -, hth, -, -, hbegins⟩ := h decimalCounters expiringServer
    expiringServer_wellFormed expireBefore [.act (.main 0) .ok] hadmits w₁ w hw₁ hw "k" hlapsed hlive
  have hboth : World.run (kvSystem decimalCounters) (KvWorld.start expiringServer)
      (expireBefore ++ [.act (.main 0) .ok]) = some w := by
    rw [World.run_append, hw₁]
    exact hw
  -- the one call of the run is the expire
  have hop : th.op = .expire "k" none := World.run_ops (fun _ hc => hcs _ hc) hboth hth
  rw [hop] at hbegins
  exact hbegins

end ClusterNats
