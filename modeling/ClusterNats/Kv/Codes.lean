import ClusterNats.Conc.Lockstep
import ClusterNats.Kv.Requests
import ClusterNats.Nats.LostCas

/-!
# The store does not tell the two codes apart

A server answers a lost compare-and-set with one code before 2.14 and with
another from then on.  The store reads both (`PendingWrite.done`), so its calls
make the same requests and return the same under either.

* `SameAnswer` — an answer under either code.
* `Blind` — a program that does not tell the codes apart, and its rules.
* `blind_op` — no call does.
* `kv_recoded` — every run has the same results and records under either code.
-/

namespace ClusterNats

open Conc

/-- The answer to a request under either code. -/
def SameAnswer : (r : Req) → Resp r → Resp r → Prop
  | .publish .., x, x' => SameBy (ε := String) (Recoded (α := Nat)) x x'
  | .systemTime, x, x' => x = x'
  | .getLast _, x, x' => x = x'
  | .purge .., x, x' => x = x'
  | .createConsumer .., x, x' => x = x'
  | .messages .., x, x' => x = x'
  | .nextRecord, x, x' => x = x'
  | .infoWithSubjects _, x, x' => x = x'
  | .indexReady, x, x' => x = x'

/-- A write's acknowledgement reads the same under either code. -/
theorem Recoded.done_eq {pending pending' : PendingWrite} (h : Recoded pending pending') :
    pending.done = pending'.done := by
  rcases h with ⟨rfl, -⟩ | ⟨text, rfl, rfl⟩
  · rfl
  · simp [PendingWrite.done, PublishError.kind, isWrongLastSequence]

theorem Recoded.indexDone_eq {pending pending' : PendingWrite} (h : Recoded pending pending') :
    indexDone pending = indexDone pending' := by
  rw [indexDone, indexDone, h.done_eq]

/-- Two programs that go the same way under either code. -/
def Blind {α : Type} (V : α → α → Prop) (p p' : Kv α) : Prop :=
  ∀ tr, p.Lockstep SameAnswer (fun _ => SameBy V) p' tr

section Rules

variable {α β : Type} {V : α → α → Prop} {V' : β → β → Prop} {p p' : Kv α}

theorem blind_ret {a a' : α} (h : V a a') : Blind V (.ret a) (.ret a') :=
  fun _ => Prog.lockstep_ret h

theorem blind_fail (e : ClusterError) : Blind V (.fail e : Kv α) (.fail e) :=
  fun _ => ⟨_, rfl, rfl⟩

theorem Blind.bind {f f' : α → Kv β} (h : Blind V p p') (hf : ∀ a a', V a a' → Blind V' (f a) (f' a')) :
    Blind V' (p >>= f) (p' >>= f') :=
  fun tr => (h tr).bind (fun tr a a' ha => hf a a' ha tr) fun _ _ => rfl

/-- The second part goes on from the value the first one returned. -/
theorem Blind.andThen {f f' : α → Kv β} (h : Blind Eq p p') (hf : ∀ a, Blind V' (f a) (f' a)) :
    Blind V' (p >>= f) (p' >>= f') := h.bind fun a _ ha => ha ▸ hf a

theorem Blind.map {f : α → β} (h : Blind Eq p p') : Blind Eq (f <$> p) (f <$> p') :=
  fun tr => (h tr).map fun _ _ ha => ha ▸ rfl

theorem Blind.attempt (h : Blind Eq p p') : Blind Eq p.attempt p'.attempt := by
  refine fun tr => (h tr).attempt.conseq fun tr x x' hx => hx.mono fun y y' hy => ?_
  exact sameBy_eq.1 hy

/-- A program without publishes is blind to the codes. -/
theorem blind_of_requests (h : p.Requests fun r => ∀ x x', SameAnswer r x x' → x = x') :
    Blind Eq p p := fun _ => Prog.lockstep_of_requests h

theorem exact_read (r : Req) (h : r.isWrite = false) (x x' : Resp r) (hx : SameAnswer r x x') :
    x = x' := by
  cases r <;> first | exact hx | cases h

theorem blind_ofExcept {ε : Type} (f : ε → ClusterError) (x : Except ε α) :
    Blind Eq (Prog.ofExcept f x : Kv α) (Prog.ofExcept f x) :=
  fun _ => Prog.lockstep_ofExcept (sameBy_eq.2 rfl)

theorem blind_spawnAll (cap : Nat) (jobs : List Job) {k k' : Kv α} (h : Blind V k k') :
    Blind V (spawnAll cap jobs k) (spawnAll cap jobs k') := by
  induction jobs with
  | nil => exact h
  | cons j jobs ih => exact fun tr => ⟨_, rfl, ih tr⟩

end Rules

/-! ## Writes -/

section Programs

theorem blind_slot (encoded : Bytes) (key : String) : Blind Eq (slot encoded key) (slot encoded key) :=
  blind_of_requests (requests_slot exact_read encoded key)

theorem blind_isExpired (exp : Option UInt64) : Blind Eq (isExpired exp) (isExpired exp) :=
  blind_of_requests (requests_isExpired exact_read exp)

theorem blind_expiresAtFrom (ttl : Option Duration) :
    Blind Eq (expiresAtFrom ttl) (expiresAtFrom ttl) :=
  blind_of_requests (requests_expiresAtFrom exact_read ttl)

theorem blind_purgeIndex (key : String) : Blind Eq (purgeIndex key) (purgeIndex key) :=
  blind_of_requests ⟨fun _ _ h => h, fun _ => Prog.Requests.ofExcept⟩

theorem blind_purgeThrough (subject : Bytes) (revision : Nat) :
    Blind Eq (purgeThrough subject revision) (purgeThrough subject revision) :=
  blind_of_requests ⟨fun _ _ h => h, fun _ => Prog.Requests.ofExcept⟩

/-- A record in flight is acknowledged under either code. -/
theorem blind_publishRecord (encoded : Bytes) (headers : HeaderMap) (payload : Bytes)
    (expected : Option Nat) : Blind Recoded (publishRecord encoded headers payload expected)
      (publishRecord encoded headers payload expected) :=
  fun _ => ⟨_, rfl, fun _ _ hx => Prog.lockstep_ofExcept hx⟩

theorem blind_publish (encoded value : Bytes) (exp : Option UInt64) (expect : Expect) :
    Blind Recoded (publish encoded value exp expect) (publish encoded value exp expect) :=
  blind_publishRecord _ _ _ _

theorem blind_publishIndex (key : String) : Blind Recoded (publishIndex key) (publishIndex key) :=
  blind_publish _ _ _ _

theorem blind_write (encoded value : Bytes) (exp : Option UInt64) (expect : Expect) :
    Blind Eq (write encoded value exp expect) (write encoded value exp expect) := by
  refine fun tr => ((blind_publish encoded value exp expect tr).attempt).bind
    (fun tr x x' hx => ?_) fun _ _ => rfl
  cases x <;> cases x'
  · obtain rfl : _ = _ := hx
    exact Prog.lockstep_ret rfl
  · exact absurd hx id
  · exact absurd hx id
  · exact Prog.lockstep_ret (Recoded.done_eq hx)

theorem blind_writeIndex (key : String) : Blind Eq (writeIndex key) (writeIndex key) := by
  refine (blind_publishIndex key).bind fun pending pending' h => ?_
  rw [h.indexDone_eq]
  exact (blind_ofExcept id _).map

theorem blind_reindexIfLive (key : String) : Blind Eq (reindexIfLive key) (reindexIfLive key) := by
  refine (blind_slot _ key).andThen fun s => ?_
  split
  · exact blind_writeIndex key
  · exact blind_ret rfl

theorem blind_unindex (key : String) : Blind Eq (unindex key) (unindex key) :=
  (blind_purgeIndex key).andThen fun _ => blind_reindexIfLive key

theorem blind_refused {α : Type} (key : String) (indexed : Except ClusterError (Option Nat))
    (e : ClusterError) : Blind Eq (refused key indexed e : Kv α) (refused key indexed e) := by
  unfold refused
  dsimp only
  split
  · exact ((blind_unindex key).attempt.map).andThen fun _ => blind_fail e
  · exact blind_fail e

/-! ## The calls -/

theorem blind_get (key : String) : Blind Eq (get key) (get key) :=
  blind_of_requests (requests_get exact_read key)

theorem blind_put (key : String) (value : Bytes) (ttl : Option Duration) :
    Blind Eq (put key value ttl) (put key value ttl) := by
  refine (blind_expiresAtFrom ttl).andThen fun exp => ?_
  refine (blind_publish _ _ _ _).bind fun data data' hdata => ?_
  refine (blind_publishIndex key).bind fun index index' hindex => ?_
  rw [hdata.done_eq, hindex.indexDone_eq]
  split
  · exact (blind_ofExcept id _).map
  · exact blind_refused _ _ _
  · exact blind_fail _

theorem blind_putIfAbsentRounds (key : String) (value : Bytes) (exp : Option UInt64) (rounds : Nat)
    (expect : Expect) : Blind Eq (putIfAbsentRounds key value exp rounds expect)
      (putIfAbsentRounds key value exp rounds expect) := by
  induction rounds generalizing expect with
  | zero => exact blind_fail _
  | succ rounds ih =>
    refine (blind_publish _ _ _ _).bind fun claim claim' hclaim => ?_
    refine (blind_publishIndex key).bind fun index index' hindex => ?_
    rw [hclaim.done_eq, hindex.indexDone_eq]
    split
    · exact ((blind_ofExcept id _).map).andThen fun _ => blind_ret rfl
    · exact blind_refused _ _ _
    · refine (blind_slot _ key).andThen fun s => ?_
      split
      · exact blind_ret rfl
      · exact ih _
      · exact ih _

theorem blind_delete (key : String) : Blind Eq (delete key) (delete key) := by
  refine (blind_slot _ key).andThen fun s => ?_
  refine (blind_publishRecord _ _ _ _).bind fun marker marker' hmarker => ?_
  rw [hmarker.done_eq]
  split
  · exact blind_fail _
  · exact blind_ret rfl

theorem blind_expireRounds (key : String) (ttl : Option Duration) (rounds : Nat) :
    Blind Eq (expireRounds key ttl rounds) (expireRounds key ttl rounds) := by
  induction rounds with
  | zero => exact blind_fail _
  | succ rounds ih =>
    refine (blind_slot _ key).andThen fun s => ?_
    split
    · refine (blind_expiresAtFrom ttl).andThen fun exp => ?_
      refine (blind_write _ _ _ _).andThen fun x => ?_
      split
      · exact blind_ret rfl
      · exact ih
      · exact blind_fail _
    · exact blind_ret rfl

theorem blind_indexCreated (key : String) (creates : Bool) :
    Blind Eq (indexCreated key creates) (indexCreated key creates) := by
  unfold indexCreated
  split
  · exact fun tr => (blind_publishIndex key tr).map fun _ _ h => h.indexDone_eq
  · exact blind_ret rfl

theorem blind_updateCounterRounds (api : CounterApi) (op key : String) (ttl : Option Duration)
    (step : Int64 → Except ClusterError Int64) (rounds : Nat) :
    Blind Eq (updateCounterRounds api op key ttl step rounds)
      (updateCounterRounds api op key ttl step rounds) := by
  induction rounds with
  | zero => exact blind_fail _
  | succ rounds ih =>
    refine (blind_of_requests (requests_readCounter exact_read api key ttl)).andThen fun read => ?_
    obtain ⟨current, exp, expect, creates⟩ := read
    refine (blind_ofExcept id _).andThen fun next => ?_
    dsimp only
    split
    · exact blind_ret rfl
    · refine (blind_publish _ _ _ _).bind fun pending pending' hpending => ?_
      refine (blind_indexCreated key creates).andThen fun indexed => ?_
      rw [hpending.done_eq]
      split
      · exact ((blind_ofExcept id _).map).andThen fun _ => blind_ret rfl
      · exact ih
      · exact blind_refused _ _ _

/-! ## The maintenance -/

theorem blind_removeDead (subject : Bytes) (sequence : Nat) :
    Blind Eq (removeDead subject sequence) (removeDead subject sequence) := by
  unfold removeDead
  split
  · refine (blind_purgeThrough _ _).andThen fun _ => ?_
    split
    · exact blind_reindexIfLive _
    · exact blind_ret rfl
  · split
    · exact blind_purgeThrough _ _
    · exact (blind_purgeIndex _).andThen fun _ => (blind_purgeThrough _ _).andThen fun _ =>
        blind_reindexIfLive _

theorem blind_settleLegacy (encoded : Bytes) (sequence : Nat) :
    Blind Eq (settleLegacy encoded sequence) (settleLegacy encoded sequence) := by
  refine (blind_of_requests (p := lastRecord encoded) ⟨exact_read _ rfl, fun _ => trivial⟩).andThen
    fun x => ?_
  refine (blind_ofExcept _ x).andThen fun record => ?_
  split
  · exact blind_ret rfl
  · refine (blind_isExpired _).andThen fun expired => ?_
    split
    · exact (blind_removeDead _ _).andThen fun _ => blind_ret rfl
    · refine (blind_write _ _ _ _).andThen fun y => ?_
      split
      · split
        · exact (blind_writeIndex _).andThen fun _ => blind_ret rfl
        · exact blind_ret rfl
      · exact blind_ret rfl
      · exact blind_fail _

theorem blind_job (j : Job) : Blind Eq j.program j.program := by
  cases j with
  | removeDead subject sequence => exact (blind_removeDead _ _).map
  | settleLegacy encoded sequence => exact (blind_settleLegacy _ _).map
  | liveEntry key => exact (blind_of_requests (requests_liveEntry exact_read key)).map

theorem blind_recordConsumer (description : String) (filter : Bytes) (start : Nat) :
    Blind Eq (recordConsumer description filter start) (recordConsumer description filter start) :=
  blind_of_requests (requests_recordConsumer exact_read description filter start)

theorem blind_sweepScan (markerGrace : Duration) (now : UInt64) (fuel : Nat) (scan : SweepScan) :
    Blind Eq (sweepScan markerGrace now fuel scan) (sweepScan markerGrace now fuel scan) := by
  induction fuel generalizing scan with
  | zero => exact fun _ => rfl
  | succ fuel ih =>
    refine fun tr => ⟨_, rfl, fun x x' hx => ?_⟩
    obtain rfl := exact_read .nextRecord rfl x x' hx
    cases x with
    | record r =>
      dsimp only
      split
      · exact blind_ret rfl _
      · exact ih _ _
    | unreadable e => exact blind_fail _ _
    | failed e => exact blind_fail _ _
    | ended => exact blind_ret rfl _
    | idle => exact blind_ret rfl _

theorem blind_countOutcomes (report : SweepReport) (outcomes : List (Except ClusterError Done)) :
    Blind Eq (countOutcomes report outcomes) (countOutcomes report outcomes) := by
  induction outcomes generalizing report with
  | nil => exact blind_ret rfl
  | cons outcome outcomes ih =>
    cases outcome with
    | error e => exact blind_fail e
    | ok d => exact ih _

theorem blind_removeAllDead (kv : NatsKv) (dead : List (Bytes × Nat)) :
    Blind Eq (removeAllDead kv dead) (removeAllDead kv dead) := by
  unfold removeAllDead
  split
  · induction dead with
    | nil => exact blind_ret rfl
    | cons d dead ih => exact (blind_removeDead _ _).andThen fun _ => ih
  · refine blind_spawnAll _ _ fun tr => ⟨_, rfl, fun rs => ?_⟩
    cases rs with
    | ok ds => exact blind_ret rfl _
    | error e => exact blind_fail e _

theorem blind_sweep (kv : NatsKv) (markerGrace : Duration) (fuel : Nat) :
    Blind Eq (sweep kv markerGrace fuel) (sweep kv markerGrace fuel) := by
  refine (blind_recordConsumer _ _ _).andThen fun opened => ?_
  split
  · refine (blind_of_requests (p := nowUnixSecs) ⟨exact_read _ rfl, fun _ => trivial⟩).andThen
      fun now => ?_
    refine (blind_sweepScan _ _ _ _).andThen fun scan => ?_
    refine (blind_removeAllDead _ _).andThen fun _ => ?_
    exact blind_spawnAll _ _ fun tr => ⟨_, rfl, fun rs => blind_countOutcomes _ _ _⟩
  · exact blind_ret rfl

/-- What a backfill has in flight, under either code. -/
def BackfillAlike (b b' : Backfill) : Prop := b.1 = b'.1 ∧ List.Forall₂ Recoded b.2 b'.2

theorem blind_indexAllDone {inFlight inFlight' : List PendingWrite}
    (h : List.Forall₂ Recoded inFlight inFlight') :
    Blind Eq (indexAllDone inFlight) (indexAllDone inFlight') := by
  induction h with
  | nil => exact blind_ret rfl
  | cons hpending _ ih =>
    rw [indexAllDone, indexAllDone, hpending.indexDone_eq]
    exact ((blind_ofExcept id _).map).andThen fun _ => ih

theorem blind_backfillRecord (now : UInt64) {b b' : Backfill} (h : BackfillAlike b b')
    (r : Delivered) : Blind BackfillAlike (backfillRecord now b r) (backfillRecord now b' r) := by
  unfold backfillRecord
  cases backfillKey now r with
  | none => exact blind_ret h
  | some key =>
    refine (blind_publishIndex key).bind fun pending pending' hpending => ?_
    have hall : List.Forall₂ Recoded (b.2 ++ [pending]) (b'.2 ++ [pending']) :=
      List.rel_append h.2 (.cons hpending .nil)
    dsimp only
    rw [hall.length_eq, h.1]
    split
    · exact (blind_indexAllDone hall).andThen fun _ => blind_ret ⟨rfl, .nil⟩
    · exact blind_ret ⟨rfl, hall⟩

theorem blind_backfillScan (now : UInt64) (fuel : Nat) {b b' : Backfill} (h : BackfillAlike b b') :
    Blind BackfillAlike (backfillScan now fuel b) (backfillScan now fuel b') := by
  induction fuel generalizing b b' with
  | zero => exact fun _ => rfl
  | succ fuel ih =>
    refine fun tr => ⟨_, rfl, fun x x' hx => ?_⟩
    obtain rfl := exact_read .nextRecord rfl x x' hx
    cases x with
    | record r =>
      refine (blind_backfillRecord now h r).bind (fun c c' hc => ?_) _
      split
      · exact blind_ret hc
      · exact ih hc
    | unreadable e => exact blind_fail _ _
    | failed e => exact blind_fail _ _
    | ended => exact blind_ret h _
    | idle => exact blind_fail _ _

theorem blind_backfillIndex (fuel : Nat) : Blind Eq (backfillIndex fuel) (backfillIndex fuel) := by
  refine (blind_recordConsumer _ _ _).andThen fun opened => ?_
  split
  · refine (blind_of_requests (p := nowUnixSecs) ⟨exact_read _ rfl, fun _ => trivial⟩).andThen
      fun now => ?_
    refine (blind_backfillScan now fuel ⟨rfl, .nil⟩).bind fun b b' hb => ?_
    rw [hb.1]
    exact (blind_indexAllDone hb.2).andThen fun _ => blind_ret rfl
  · exact blind_ret rfl

/-! ## The listings -/

theorem blind_indexedKeys (pre : String) (max : Option Nat) :
    Blind Eq (indexedKeys pre max) (indexedKeys pre max) := by
  refine fun tr => ⟨_, rfl, fun x x' hx => ?_⟩
  obtain rfl := exact_read (.infoWithSubjects (prefixFilter pre)) rfl x x' hx
  exact ((blind_ofExcept _ x).andThen fun _ => blind_ret rfl) _

theorem blind_liveEntries (keys : List String) : Blind Eq (liveEntries keys) (liveEntries keys) :=
  blind_spawnAll _ _ fun _ => ⟨_, rfl, fun _ => blind_ofExcept id _ _⟩

theorem blind_subjectsPage (keys : List String) (after : Option Bytes) (limit : Nat) :
    Blind Eq (subjectsPage keys after limit) (subjectsPage keys after limit) :=
  (blind_liveEntries _).andThen fun _ => blind_ret rfl

theorem blind_pageScan (pre : String) (indexed : Bool) (limit fuel : Nat) (scan : PageScan) :
    Blind Eq (pageScan pre indexed limit fuel scan) (pageScan pre indexed limit fuel scan) := by
  induction fuel generalizing scan with
  | zero => exact fun _ => rfl
  | succ fuel ih =>
    unfold pageScan
    split
    · refine fun tr => ⟨_, rfl, fun x x' hx => ?_⟩
      obtain rfl := exact_read .nextRecord rfl x x' hx
      cases x with
      | record r =>
        dsimp only
        split
        · exact ih _ _
        · exact blind_ret rfl _
      | unreadable e => exact blind_fail _ _
      | failed e => exact blind_fail _ _
      | ended => exact blind_ret rfl _
      | idle =>
        dsimp only
        split
        · exact blind_ret rfl _
        · exact blind_fail _ _
    · exact blind_ret rfl

theorem blind_recordsPage (pre : String) (indexed : Bool) (after limit fuel : Nat) :
    Blind Eq (recordsPage pre indexed after limit fuel) (recordsPage pre indexed after limit fuel) := by
  refine (blind_recordConsumer _ _ _).andThen fun opened => ?_
  split
  · exact (blind_pageScan _ _ _ _ _).andThen fun scan =>
      (blind_liveEntries _).andThen fun _ => blind_ret rfl
  · exact blind_ret rfl

theorem blind_indexReady : Blind Eq (.req .indexReady fun (ready : Bool) => .ret ready : Kv Bool)
    (.req .indexReady fun (ready : Bool) => .ret ready) :=
  blind_of_requests ⟨exact_read _ rfl, fun _ => trivial⟩

theorem blind_listPage (pre : String) (cursor : Option Bytes) (limit fuel : Nat) :
    Blind Eq (listPage pre cursor limit fuel) (listPage pre cursor limit fuel) := by
  unfold listPage
  split
  · exact (blind_indexedKeys _ _).andThen fun _ => blind_subjectsPage _ _ _
  · split
    · exact blind_recordsPage _ _ _ _ _
    · exact blind_fail _
  · refine blind_indexReady.andThen fun ready => ?_
    split
    · refine (blind_indexedKeys _ _).andThen fun keys => ?_
      split
      · exact blind_subjectsPage _ _ _
      · exact blind_indexReady.andThen fun _ => blind_recordsPage _ _ _ _ _
    · exact blind_indexReady.andThen fun _ => blind_recordsPage _ _ _ _ _

theorem blind_listPass (pre : String) (limit scanFuel fuel : Nat) (cursor : Option Bytes) :
    Blind Eq (listPass pre limit scanFuel fuel cursor) (listPass pre limit scanFuel fuel cursor) := by
  induction fuel generalizing cursor with
  | zero => exact fun _ => rfl
  | succ fuel ih =>
    refine (blind_listPage _ _ _ _).andThen fun page => ?_
    split
    · exact blind_ret rfl
    · exact (ih _).andThen fun _ => blind_ret rfl

/-- **No call tells the codes apart.** -/
theorem blind_op (api : CounterApi) (op : Op) : Blind Eq (op.program api) (op.program api) := by
  cases op with
  | get key => exact (blind_get key).map
  | put key value ttl => exact (blind_put key value ttl).map
  | putIfAbsent key value ttl =>
    exact ((blind_expiresAtFrom ttl).andThen fun _ => blind_putIfAbsentRounds _ _ _ _ _).map
  | delete key => exact (blind_delete key).map
  | expire key ttl => exact (blind_expireRounds _ _ _).map
  | updateCounter op key ttl step => exact (blind_updateCounterRounds _ _ _ _ _ _).map
  | sweep kv markerGrace fuel => exact (blind_sweep _ _ _).map
  | backfillIndex fuel => exact (blind_backfillIndex fuel).map
  | listPage pre cursor limit fuel => exact (blind_listPage _ _ _ _).map
  | listPass pre limit scanFuel fuel => exact (blind_listPass _ _ _ _ _).map

end Programs

/-! ## Every run -/

/-- The server of the other release: it answers with the other code. -/
def Server.recoded (s : Server) : Server := { s with since214 := true }

/-- A server before 2.14, and the same one from 2.14 on. -/
def BothReleases (s s' : Server) : Prop := s.since214 = false ∧ s' = s.recoded

/-- A publish stores the same under either code. -/
theorem publish_recoded {s : Server} (hold : s.since214 = false) (subject : Bytes)
    (headers : HeaderMap) (payload : Bytes) (expected : Option Nat) :
    Recoded (s.publish subject headers payload expected).1
        (s.recoded.publish subject headers payload expected).1 ∧
      BothReleases (s.publish subject headers payload expected).2
        (s.recoded.publish subject headers payload expected).2 := by
  unfold Server.publish Server.recoded
  dsimp only
  cases s.bucket.storeIf subject ⟨headers, payload, s.clock⟩ expected with
  | some bucket => exact ⟨recoded_ok _, hold, rfl⟩
  | none =>
    dsimp only
    rw [hold]
    exact ⟨recoded_lostCas _, hold, rfl⟩

/-- Every request is answered the same but for the code. -/
theorem serve_recoded {m : Mode} {s s' t : Server} {c c' : Option Consumer} {r : Req} {x : Resp r}
    (hboth : BothReleases s s') (h : serve m s c r = some (x, t, c')) :
    ∃ x' t', serve m s' c r = some (x', t', c') ∧ SameAnswer r x x' ∧ BothReleases t t' := by
  obtain ⟨hold, rfl⟩ := hboth
  cases r with
  | publish subject headers payload expected =>
    obtain ⟨hanswer, hstate⟩ := publish_recoded hold subject headers payload expected
    cases m with
    | ok =>
      cases Option.some.inj h
      exact ⟨_, _, rfl, hanswer, hstate⟩
    | fail reason =>
      cases Option.some.inj h
      exact ⟨_, _, rfl, recoded_unanswered reason, hold, rfl⟩
    | lost reason =>
      cases Option.some.inj h
      exact ⟨_, _, rfl, recoded_unanswered reason, hstate⟩
    | unsent reason =>
      cases Option.some.inj h
      exact ⟨_, _, rfl, rfl, hold, rfl⟩
    | _ => cases h
  | purge subject keep =>
    cases m with
    | ok => cases Option.some.inj h; exact ⟨_, _, rfl, rfl, hold, rfl⟩
    | fail reason => cases Option.some.inj h; exact ⟨_, _, rfl, rfl, hold, rfl⟩
    | lost reason => cases Option.some.inj h; exact ⟨_, _, rfl, rfl, hold, rfl⟩
    | _ => cases h
  | messages filter start =>
    cases m with
    | ok => cases Option.some.inj h; exact ⟨_, _, rfl, rfl, hold, rfl⟩
    | fail reason => cases Option.some.inj h; exact ⟨_, _, rfl, rfl, hold, rfl⟩
    | _ => cases h
  | systemTime => cases Option.some.inj h; exact ⟨_, _, rfl, rfl, hold, rfl⟩
  | indexReady => cases Option.some.inj h; exact ⟨_, _, rfl, rfl, hold, rfl⟩
  | _ =>
    obtain ⟨y, hy, heq⟩ := Option.map_eq_some_iff.1 h
    cases heq
    exact ⟨_, _, Option.map_eq_some_iff.2 ⟨_, hy, rfl⟩, rfl, hold, rfl⟩

/-- The fleets of the two releases answer alike. -/
theorem kv_twin (api : CounterApi) : World.Twin (kvSystem api) (kvSystem api) BothReleases SameAnswer
    (fun _ _ => SameBy Eq) where
  serve := serve_recoded
  env := by
    rintro v s s' t ⟨hold, rfl⟩ hv
    cases v with
    | tick time =>
      simp only [kvSystem, Env.apply] at hv ⊢
      split at hv
      · rename_i htime
        cases Option.some.inj hv
        exact ⟨_, if_pos htime, hold, rfl⟩
      · cases hv
    | setIndexReady ready =>
      cases Option.some.inj hv
      exact ⟨_, rfl, hold, rfl⟩
  deliver := by
    rintro s s' l l' ⟨hold, rfl⟩ hl
    exact hl
  loc₀ := rfl
  job j := blind_job j []
  call _ hp := by
    cases Option.some.inj hp
    exact ⟨_, rfl, blind_op api _ []⟩

/-- The results of the calls, and what the server stores, are the same. -/
def SameOutcome (w w' : KvWorld) : Prop :=
  w.threads.map (fun th => th.main.result?) = w'.threads.map (fun th => th.main.result?) ∧
    w'.srv = w.srv.recoded

/-- **Every run of the store has the same results and the same records under
either code.** -/
theorem kv_recoded (api : CounterApi) {s : Server} (hold : s.since214 = false)
    {cs : List KvChoice} {w : KvWorld}
    (hrun : World.run (kvSystem api) (KvWorld.start s) cs = some w) :
    ∃ w', World.run (kvSystem api) (KvWorld.start s.recoded) cs = some w' ∧ SameOutcome w w' := by
  obtain ⟨w', hrun', hlocked⟩ := World.run_lockstep (kv_twin api) ⟨hold, rfl⟩ hrun
  refine ⟨w', hrun', ?_, hlocked.srv.2⟩
  refine List.ext_getElem? fun t => ?_
  rw [List.getElem?_map, List.getElem?_map]
  cases hth : w.threads[t]? with
  | none =>
    have hlen : w.threads.length ≤ t := List.getElem?_eq_none_iff.1 hth
    rw [List.getElem?_eq_none_iff.2 (hlocked.length ▸ hlen)]
  | some th =>
    obtain ⟨th', hth', hthread⟩ := hlocked.thread t th hth
    rw [hth', Option.map_some, Option.map_some, hthread.main.result_eq]

end ClusterNats
