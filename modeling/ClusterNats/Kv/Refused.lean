import ClusterNats.Kv.Invisible
import ClusterNats.Kv.Requests

/-!
# Records the bucket refuses

A bucket near its byte cap refuses one record and takes the next.  A call
publishes two records before it waits for either, so each can be refused on its
own.

* `Refusal`, `Cramped` — what the bucket says to the records a call publishes.
* `exec_cramped`, `exec_cramped_reads` — what the bucket does not refuse runs as
  ever.
* `DataOutcome`, `IndexOutcome`, `exec_pair` — what becomes of the two records.
* `exec_unindex`, `exec_refused` — the recovery.
* `Atomic`, `Torn` — a failed call changed nothing, and the cases in which it
  did.
* `writes_atomic_iff` — a call is atomic exactly when it is not torn.
-/

namespace ClusterNats

open Conc

/-! ## A bucket that refuses -/

/-- The error of a record that the server refuses: it is not that of a lost
compare-and-set. -/
structure Refusal where
  error : PublishError
  refused : isWrongLastSequence error = false

/-- A server, and what it says to the records published next: `some` refuses.
Records past the list are taken. -/
structure Cramped where
  srv : Server
  verdicts : List (Option Refusal)

/-- The answer to a call that runs alone.  A removal is the first request of a
recovery, and what follows it succeeds. -/
def Cramped.answer (c : Cramped) (r : Req) : Option (Resp r × Cramped) :=
  match r with
  | .publish subject headers payload expected =>
    match c.verdicts with
    | some refusal :: verdicts => some (Except.ok (Except.error refusal.error), ⟨c.srv, verdicts⟩)
    | verdicts =>
      let published := c.srv.publish subject headers payload expected
      some (Except.ok published.1, ⟨published.2, verdicts.tail⟩)
  | .purge subject keep => some (Except.ok (), ⟨c.srv.purge subject keep, []⟩)
  | r => (ClusterNats.answer c.srv r).map fun x => (x.1, ⟨x.2, c.verdicts⟩)

/-- Is the record number `n` refused? -/
def refusedAt (verdicts : List (Option Refusal)) (n : Nat) : Bool := (verdicts[n]?.join).isSome

@[simp] theorem refusedAt_tail (verdicts : List (Option Refusal)) (n : Nat) :
    refusedAt verdicts.tail n = refusedAt verdicts (n + 1) := by
  cases verdicts <;> rfl

theorem Refusal.done (refusal : Refusal) : ∃ e,
    PendingWrite.done (.error refusal.error) = .error (.failed e) := by
  have hkind : refusal.error.kind ≠ .wrongLastSequence := by
    intro hkind
    have hcode : refusal.error.code = some .streamWrongLastSequence := by
      unfold PublishError.kind at hkind
      split at hkind
      · assumption
      · exact absurd hkind (by simp)
    exact absurd refusal.refused (by simp [isWrongLastSequence, hcode])
  exact ⟨_, by rw [PendingWrite.done, if_neg (by simp [hkind, refusal.refused])]⟩

section Exec

variable {s s' : Server} {α β : Type}

/-- Where nothing is refused any more, a program runs as it does otherwise. -/
theorem exec_cramped {p : Kv α} {x : Except ClusterError α}
    (h : p.exec answer s = some (x, s')) : p.exec Cramped.answer ⟨s, []⟩ = some (x, ⟨s', []⟩) := by
  induction p generalizing s with
  | ret a =>
    obtain ⟨rfl, rfl⟩ := Prod.mk.inj (Option.some.inj h)
    rfl
  | fail e =>
    obtain ⟨rfl, rfl⟩ := Prod.mk.inj (Option.some.inj h)
    rfl
  | req r k ih =>
    rw [Prog.exec_req] at h
    obtain ⟨⟨y, s₁⟩, hy, hk⟩ := Option.bind_eq_some_iff.1 h
    have hanswer : Cramped.answer ⟨s, []⟩ r = some (y, ⟨s₁, []⟩) := by
      cases r with
      | publish subject headers payload expected =>
        obtain ⟨rfl, rfl⟩ := Prod.mk.inj (Option.some.inj hy)
        rfl
      | purge subject keep =>
        obtain ⟨rfl, rfl⟩ := Prod.mk.inj (Option.some.inj hy)
        rfl
      | _ => simp only [Cramped.answer, hy, Option.map_some]
    rw [Prog.exec_req, hanswer]
    exact ih y hk
  | _ => exact absurd h (by simp [Prog.exec])

/-- Reads are answered as ever. -/
theorem exec_cramped_reads {p : Kv α} {x : Except ClusterError α}
    (hp : p.Requests fun r : Req => r.isWrite = false) (h : p.exec answer s = some (x, s'))
    (verdicts : List (Option Refusal)) :
    p.exec Cramped.answer ⟨s, verdicts⟩ = some (x, ⟨s', verdicts⟩) := by
  induction p generalizing s with
  | ret a =>
    obtain ⟨rfl, rfl⟩ := Prod.mk.inj (Option.some.inj h)
    rfl
  | fail e =>
    obtain ⟨rfl, rfl⟩ := Prod.mk.inj (Option.some.inj h)
    rfl
  | req r k ih =>
    rw [Prog.exec_req] at h
    obtain ⟨⟨y, s₁⟩, hy, hk⟩ := Option.bind_eq_some_iff.1 h
    have hread : r.isWrite = false := hp.1
    have hanswer : Cramped.answer ⟨s, verdicts⟩ r = some (y, ⟨s₁, verdicts⟩) := by
      cases r with
      | publish subject headers payload expected => exact absurd hread (by simp [Req.isWrite])
      | purge subject keep => exact absurd hread (by simp [Req.isWrite])
      | _ => simp only [Cramped.answer, hy, Option.map_some]
    rw [Prog.exec_req, hanswer]
    exact ih y (hp.2 y) hk
  | _ => exact absurd h (by simp [Prog.exec])

/-! ## The two records of a write -/

variable {key : String}

/-- What becomes of a data record: stored over what was expected, in conflict with
it, or refused. -/
inductive DataOutcome (key : String) (value : Bytes) (exp : Option UInt64) (expect : Expect)
    (s s' : Server) : Bool → PendingWrite → Prop
  | stored {seq : Nat} (hw : WroteValue key value exp s s')
      (hmet : ∀ n ∈ expect.lastSequence, s.bucket.lastSeqOf (encodeKey key) = n)
      (hnew : s'.bucket.last (encodeKey key) ≠ s.bucket.last (encodeKey key)) :
      DataOutcome key value exp expect s s' false (.ok seq)
  | conflict {data : PendingWrite} (hdone : data.done = .error .conflict) (hsame : SameData s s')
      (hnot : ∃ n ∈ expect.lastSequence, s.bucket.lastSeqOf (encodeKey key) ≠ n) :
      DataOutcome key value exp expect s s' false data
  | refused {data : PendingWrite} {e : ClusterError} (hdone : data.done = .error (.failed e))
      (hsame : SameData s s') : DataOutcome key value exp expect s s' true data

/-- What becomes of an index record: there was one, it is new, or it is refused. -/
inductive IndexOutcome (key : String) (s s' : Server) : Bool → Except ClusterError (Option Nat) → Prop
  | old (h : s.Indexed key) (h' : s'.Indexed key) : IndexOutcome key s s' false (.ok none)
  | new {n : Nat} (h : ¬ s.Indexed key) (h' : s'.Indexed key) :
      IndexOutcome key s s' false (.ok (some n))
  | refused {e : ClusterError} (h : s'.Indexed key ↔ s.Indexed key) :
      IndexOutcome key s s' true (.error e)

theorem exec_publishRecord_cramped (subject : Bytes) (headers : HeaderMap) (payload : Bytes)
    (expected : Option Nat) (verdicts : List (Option Refusal)) :
    (refusedAt verdicts 0 = true ∧ ∃ refusal : Refusal,
      (publishRecord subject headers payload expected).exec Cramped.answer ⟨s, verdicts⟩ =
        some (.ok (.error refusal.error), ⟨s, verdicts.tail⟩)) ∨
    (refusedAt verdicts 0 = false ∧
      (publishRecord subject headers payload expected).exec Cramped.answer ⟨s, verdicts⟩ =
        some (.ok (s.publish subject headers payload expected).1,
          ⟨(s.publish subject headers payload expected).2, verdicts.tail⟩)) := by
  rcases verdicts with - | ⟨- | refusal, verdicts⟩
  · exact .inr ⟨rfl, rfl⟩
  · exact .inr ⟨rfl, rfl⟩
  · exact .inl ⟨rfl, refusal, rfl⟩

/-- The record just stored is not the one before. -/
theorem last_store_ne_last (headers : HeaderMap) (payload : Bytes) (t : Instant) (subject : Bytes) :
    (s.bucket.store subject ⟨headers, payload, t⟩).last subject ≠ s.bucket.last subject := by
  intro heq
  rw [SubjectLog.last_store_self] at heq
  have hle := SubjectLog.seq_le_of_last heq.symm
  exact absurd hle (Nat.not_succ_le_self _)

theorem exec_data (key : String) (value : Bytes) (exp : Option UInt64) (expect : Expect)
    (verdicts : List (Option Refusal)) : ∃ data s',
    DataOutcome key value exp expect s s' (refusedAt verdicts 0) data ∧
      (s'.Indexed key ↔ s.Indexed key) ∧
      (publish (encodeKey key) value exp expect).exec Cramped.answer ⟨s, verdicts⟩ =
        some (.ok data, ⟨s', verdicts.tail⟩) := by
  rcases exec_publishRecord_cramped (s := s) (encodeKey key) [(expiresHeader, renderU64 (exp.getD 0))]
    (encodeValue value exp) expect.lastSequence verdicts with ⟨hrefused, refusal, hexec⟩ | ⟨htaken, hexec⟩
  · obtain ⟨e, hdone⟩ := refusal.done
    exact ⟨_, s, by rw [hrefused]; exact .refused hdone (.refl s), Iff.rfl, hexec⟩
  · rcases publish_cases s (encodeKey key) [(expiresHeader, renderU64 (exp.getD 0))]
      (encodeValue value exp) expect.lastSequence with ⟨hmet, heq⟩ | ⟨hnot, heq⟩
    · rw [heq] at hexec
      refine ⟨_, _, ?_, ?_, hexec⟩
      · rw [htaken]
        refine .stored ⟨rfl, ⟨_, SubjectLog.last_store_self⟩, fun k hk => ?_⟩ hmet
          (last_store_ne_last _ _ _ _)
        exact SubjectLog.last_store_ne fun heq => hk (encodeKey_injective heq)
      · rw [Server.Indexed, SubjectLog.last_store_ne (encodeKey_ne_indexKey key key).symm]
        rfl
    · rw [heq] at hexec
      refine ⟨_, s, ?_, Iff.rfl, hexec⟩
      rw [htaken]
      exact .conflict (done_of_server _ _) (.refl s) hnot

theorem exec_index (key : String) (verdicts : List (Option Refusal)) : ∃ index s',
    IndexOutcome key s s' (refusedAt verdicts 0) (indexDone index) ∧ SameData s s' ∧
      (publishIndex key).exec Cramped.answer ⟨s, verdicts⟩ =
        some (.ok index, ⟨s', verdicts.tail⟩) := by
  rcases exec_publishRecord_cramped (s := s) (indexKey key)
    [(expiresHeader, renderU64 ((none : Option UInt64).getD 0))] (encodeValue [] none)
    Expect.nothing.lastSequence verdicts with ⟨hrefused, refusal, hexec⟩ | ⟨htaken, hexec⟩
  · obtain ⟨e, hdone⟩ := refusal.done
    refine ⟨_, s, ?_, .refl s, hexec⟩
    rw [hrefused, indexDone, hdone]
    exact .refused Iff.rfl
  · have hindexed : (s.publish (indexKey key) [(expiresHeader, renderU64 ((none : Option UInt64).getD 0))]
        (encodeValue [] none) (some 0)).2.Indexed key := indexed_publish _ _
    rw [htaken]
    rcases publish_cases s (indexKey key) [(expiresHeader, renderU64 ((none : Option UInt64).getD 0))]
      (encodeValue [] none) (some 0) with ⟨hmet, heq⟩ | ⟨⟨n, hn, hne⟩, heq⟩
    all_goals
      rw [Expect.lastSequence, heq] at hexec
      rw [heq] at hindexed
    · have hnot : ¬ s.Indexed key := by
        rw [Server.Indexed, SubjectLog.lastSeqOf_eq_zero.1 (hmet 0 rfl)]
        exact Bool.false_ne_true
      refine ⟨_, _, ?_, ?_, hexec⟩
      · exact .new hnot hindexed
      · exact ⟨rfl, fun k => SubjectLog.last_store_ne (encodeKey_ne_indexKey k key)⟩
    · refine ⟨_, s, ?_, .refl s, hexec⟩
      rw [indexDone, done_of_server]
      exact .old hindexed hindexed

/-- **A write and the index record behind it.** -/
theorem exec_pair (key : String) (value : Bytes) (exp : Option UInt64) (expect : Expect)
    (verdicts : List (Option Refusal)) : ∃ data index s',
    DataOutcome key value exp expect s s' (refusedAt verdicts 0) data ∧
      IndexOutcome key s s' (refusedAt verdicts 1) (indexDone index) ∧
      ∀ f : PendingWrite → PendingWrite → Kv α,
        (publish (encodeKey key) value exp expect >>= fun data =>
          publishIndex key >>= fun index => f data index).exec Cramped.answer ⟨s, verdicts⟩ =
            (f data index).exec Cramped.answer ⟨s', verdicts.tail.tail⟩ := by
  obtain ⟨data, s₁, hdata, hindexed, hexec⟩ := exec_data (s := s) key value exp expect verdicts
  obtain ⟨index, s', hindex, hsame, hexec'⟩ := exec_index (s := s₁) key verdicts.tail
  rw [refusedAt_tail] at hindex
  refine ⟨data, index, s', ?_, ?_, fun f => ?_⟩
  · generalize refusedAt verdicts 0 = b at hdata
    cases hdata with
    | stored hw hmet hnew => exact .stored (hw.trans_same hsame) hmet (by rwa [hsame.last])
    | conflict hdone hsame' hnot => exact .conflict hdone (hsame'.trans hsame) hnot
    | refused hdone hsame' => exact .refused hdone (hsame'.trans hsame)
  · generalize refusedAt verdicts 1 = b at hindex
    generalize indexDone index = outcome at hindex
    cases hindex with
    | old h h' => exact .old (hindexed.1 h) h'
    | new h h' => exact .new (fun hs => h (hindexed.2 hs)) h'
    | refused h => exact .refused (h.trans hindexed)
  · rw [Prog.exec_bind_ok hexec, Prog.exec_bind_ok hexec']

/-! ## The recovery -/

/-- A key is indexed again when it is live. -/
theorem exec_reindexIfLive (key : String) : ∃ s', (reindexIfLive key).exec answer s = some (.ok (), s') ∧
    SameData s s' ∧ (s'.Indexed key ↔ s.Live key ∨ s.Indexed key) := by
  rw [reindexIfLive, Prog.exec_bind_ok (exec_slot (encodeKey key) key), ← Server.slot]
  have hdead : ∀ x, s.slot key = x → x.found = none → SameData s s ∧
      (s.Indexed key ↔ s.Live key ∨ s.Indexed key) := by
    rintro x rfl hx
    exact ⟨.refl s, by simp [Server.Live, hx]⟩
  cases hslot : s.slot key with
  | empty => exact ⟨s, rfl, hdead _ hslot rfl⟩
  | dead revision => exact ⟨s, rfl, hdead _ hslot rfl⟩
  | live value exp revision =>
    obtain ⟨ack, revision', s', hexec, hdone, hsame⟩ := exec_publishIndex (s := s) key
    refine ⟨s', ?_, hsame, ?_⟩
    · dsimp only
      rw [writeIndex, Prog.exec_bind_ok hexec, hdone]
      rfl
    · have hpublished : (publishIndex key).exec answer s = _ := exec_publishRecord (s := s) _ _ _ _
      rw [hexec] at hpublished
      have hsrv := (Prod.mk.inj (Option.some.inj hpublished)).2
      refine ⟨fun _ => .inl ?_, fun _ => ?_⟩
      · rw [Server.Live, hslot]
        rfl
      · rw [hsrv]
        exact indexed_publish _ _

/-- The index record is gone, unless the key is live. -/
theorem exec_unindex (key : String) : ∃ s', (unindex key).exec answer s = some (.ok (), s') ∧
    SameData s s' ∧ (s'.Indexed key ↔ s.Live key) := by
  have hpurge : SameData s (s.purge (indexKey key) none) :=
    ⟨rfl, fun k => SubjectLog.last_purge_ne (encodeKey_ne_indexKey k key)⟩
  have hgone : ¬ (s.purge (indexKey key) none).Indexed key := by
    rw [Server.Indexed, Server.purge, SubjectLog.last_purge_self]
    simp
  obtain ⟨s', hexec, hsame, hindexed⟩ := exec_reindexIfLive (s := s.purge (indexKey key) none) key
  refine ⟨s', hexec, hpurge.trans hsame, hindexed.trans ?_⟩
  rw [or_iff_left hgone, Server.Live, hpurge.slot, Server.Live]

/-- **A refused write ends with its error**, and leaves the records as they were
before it. -/
theorem exec_refused {s₁ : Server} {b : Bool} {indexed : Except ClusterError (Option Nat)}
    (hlive : s.Live key → s.Indexed key) (hsame : SameData s s₁) (h : IndexOutcome key s s₁ b indexed)
    (e : ClusterError) (verdicts : List (Option Refusal)) : ∃ s' verdicts',
    (refused key indexed e : Kv α).exec Cramped.answer ⟨s₁, verdicts⟩ =
      some (.error e, ⟨s', verdicts'⟩) ∧ SameData s s' ∧ (s'.Indexed key ↔ s.Indexed key) := by
  cases h with
  | old h h' => exact ⟨s₁, verdicts, rfl, hsame, iff_of_true h' h⟩
  | refused h => exact ⟨s₁, verdicts, rfl, hsame, h⟩
  | new h h' =>
    obtain ⟨s', hexec, hsame', hindexed⟩ := exec_unindex (s := s₁) key
    have hunindex : (unindex key).exec Cramped.answer ⟨s₁, verdicts⟩ = some (.ok (), ⟨s', []⟩) :=
      exec_cramped hexec
    refine ⟨s', [], ?_, hsame.trans hsame', iff_of_false (fun hnew => h ?_) h⟩
    · rw [refused]
      have hdiscard : (discard (unindex key).attempt : Kv Unit).exec Cramped.answer ⟨s₁, verdicts⟩ =
          some (.ok (), ⟨s', []⟩) := Prog.exec_bind_ok (Prog.exec_attempt hunindex)
      exact Prog.exec_bind_ok hdiscard
    · have hlive₁ := hindexed.1 hnew
      rw [Server.Live, hsame.slot] at hlive₁
      exact hlive hlive₁

end Exec

/-! ## Atomicity -/

/-- A call that failed left the data record and the index as they were, and
every live key is indexed. -/
structure Atomic {α : Type} (key : String) (s : Server) (x : Except ClusterError α) (s' : Server) :
    Prop where
  unchanged : ∀ e, x = .error e → s'.bucket.last (encodeKey key) = s.bucket.last (encodeKey key) ∧
    ∀ k, s'.Indexed k → s.Indexed k
  indexed : ∀ k, s'.Live k → s'.Indexed k

/-- The bucket takes a data record and refuses the index record behind it; or it
refuses the record of a claim over a dead key, whose index record it took in the
round before. -/
def Torn (s : Server) (verdicts : List (Option Refusal)) : Op → Prop
  | .put .. => refusedAt verdicts 0 = false ∧ refusedAt verdicts 1 = true
  | .putIfAbsent key _ _ =>
    match s.slot key with
    | .empty => refusedAt verdicts 0 = false ∧ refusedAt verdicts 1 = true
    | .dead _ => refusedAt verdicts 0 = false ∧
      (refusedAt verdicts 2 = false ∧ refusedAt verdicts 3 = true ∨
        refusedAt verdicts 2 = true ∧ refusedAt verdicts 1 = false ∧ ¬ s.Indexed key)
    | .live .. => False
  | .updateCounter _ key _ step => ¬ s.Live key ∧ (∃ next, step 0 = .ok next) ∧
    refusedAt verdicts 0 = false ∧ refusedAt verdicts 1 = true
  | _ => False

/-- The calls that store a value under `key`. -/
def Op.Puts (key : String) : Op → Prop
  | .put k _ _ => k = key
  | .putIfAbsent k _ _ => k = key
  | .updateCounter _ k _ _ => k = key
  | _ => False

/-- The records of the other keys are the same. -/
structure Elsewhere (key : String) (s s' : Server) : Prop where
  clock : s'.clock = s.clock
  data : ∀ k, k ≠ key → s'.bucket.last (encodeKey k) = s.bucket.last (encodeKey k)
  index : ∀ k, k ≠ key → s'.bucket.last (indexKey k) = s.bucket.last (indexKey k)

section Calls

variable {api : CounterApi} {s s' : Server} {key : String} {α β : Type}

/-- A request that leaves the records of the other keys. -/
def Aside (key : String) (r : Req) : Prop :=
  ∀ k, k ≠ key → r.touches (encodeKey k) = false ∧ r.touches (indexKey k) = false

theorem asksOf_aside (key : String) : AsksOf key (Aside key) where
  read r hr k hk := by cases r <;> simp_all [Req.touches, Req.isWrite]
  value value exp expected k hk := by
    have hne : key ≠ k := Ne.symm hk
    simp [Req.touches, hne, encodeKey_ne_indexKey key k]
  index value exp expected k hk := by
    have hne : indexKey key ≠ indexKey k := fun heq => hk (indexKey_injective heq).symm
    simp [Req.touches, hne, (encodeKey_ne_indexKey k key).symm]
  marker k hk := by
    have hne : key ≠ k := Ne.symm hk
    simp [Req.touches, hne, encodeKey_ne_indexKey key k]
  purge keep k hk := by
    have hne : indexKey key ≠ indexKey k := fun heq => hk (indexKey_injective heq).symm
    simp [Req.touches, hne, (encodeKey_ne_indexKey k key).symm]

/-- What an answer leaves of the server. -/
theorem cramped_effect {c c' : Cramped} {r : Req} {x : Resp r} (h : c.answer r = some (x, c')) :
    c'.srv = c.srv ∨ c'.srv = r.effect c.srv := by
  cases r with
  | publish subject headers payload expected =>
    unfold Cramped.answer at h
    dsimp only at h
    split at h
    · obtain ⟨-, rfl⟩ := Prod.mk.inj (Option.some.inj h)
      exact .inl rfl
    · obtain ⟨-, rfl⟩ := Prod.mk.inj (Option.some.inj h)
      exact .inr rfl
  | purge subject keep =>
    obtain ⟨-, rfl⟩ := Prod.mk.inj (Option.some.inj h)
    exact .inr rfl
  | _ =>
    have hread : (ClusterNats.answer c.srv _).map (fun x => (x.1, (⟨x.2, c.verdicts⟩ : Cramped))) =
      some (x, c') := h
    obtain ⟨⟨y, s₁⟩, hy, hrest⟩ := Option.map_eq_some_iff.1 hread
    obtain ⟨-, rfl⟩ := Prod.mk.inj hrest
    obtain ⟨⟨z, s₂, l⟩, hz, hrest'⟩ := Option.map_eq_some_iff.1 hy
    obtain ⟨-, rfl⟩ := Prod.mk.inj hrest'
    exact serve_state hz

/-- A call on a key leaves the other keys. -/
theorem exec_elsewhere {p : Kv α} (hp : p.Requests (Aside key)) {x : Except ClusterError α}
    {verdicts verdicts' : List (Option Refusal)}
    (h : p.exec Cramped.answer ⟨s, verdicts⟩ = some (x, ⟨s', verdicts'⟩)) : Elsewhere key s s' := by
  refine Prog.exec_keeps (I := fun c : Cramped => Elsewhere key s c.srv) ?_ hp h
    ⟨rfl, fun _ _ => rfl, fun _ _ => rfl⟩
  intro c r x c' hr hanswer hc
  rcases cramped_effect hanswer with heq | heq
  · rwa [heq]
  · rw [heq]
    refine ⟨(effect_clock _ _).trans hc.clock, fun k hk => ?_, fun k hk => ?_⟩
    · rw [effect_last_of_not_touches (hr k hk).1, hc.data k hk]
    · rw [effect_last_of_not_touches (hr k hk).2, hc.index k hk]

/-- What is asked of a call is asked of its own key. -/
theorem Elsewhere.atomic_iff {x : Except ClusterError α} (h : Elsewhere key s s')
    (hlive : ∀ k, s.Live k → s.Indexed k) : Atomic key s x s' ↔
      (∀ e, x = .error e → s'.bucket.last (encodeKey key) = s.bucket.last (encodeKey key) ∧
        (s'.Indexed key → s.Indexed key)) ∧ (s'.Live key → s'.Indexed key) := by
  have hindexed : ∀ k, k ≠ key → (s'.Indexed k ↔ s.Indexed k) := fun k hk => by
    rw [Server.Indexed, Server.Indexed, h.index k hk]
  have hother : ∀ k, k ≠ key → s'.Live k → s'.Indexed k := by
    intro k hk hlive'
    rw [Server.Live, Server.slot_congr (h.data k hk) (congrArg unixSecs h.clock)] at hlive'
    exact (hindexed k hk).2 (hlive k hlive')
  constructor
  · exact fun hatomic => ⟨fun e he => ⟨(hatomic.unchanged e he).1, (hatomic.unchanged e he).2 key⟩,
      hatomic.indexed key⟩
  · rintro ⟨hunchanged, hkey⟩
    refine ⟨fun e he => ⟨(hunchanged e he).1, fun k hk' => ?_⟩, fun k hk' => ?_⟩
    · by_cases hk : k = key
      · exact hk ▸ (hunchanged e he).2 (hk ▸ hk')
      · exact (hindexed k hk).1 hk'
    · by_cases hk : k = key
      · exact hk ▸ hkey (hk ▸ hk')
      · exact hother k hk hk'

/-! ## The calls -/

/-- What is asked of a call at its own key. -/
def AtomicAt {γ : Type} (key : String) (s : Server) (x : Except ClusterError γ) (s' : Server) : Prop :=
  (∀ e, x = .error e → s'.bucket.last (encodeKey key) = s.bucket.last (encodeKey key) ∧
    (s'.Indexed key → s.Indexed key)) ∧ (s'.Live key → s'.Indexed key)

/-- A call that returned normally, and left the key indexed. -/
theorem atomicAt_ok {a : α} (h : s'.Indexed key) : AtomicAt key s (.ok a) s' :=
  ⟨fun _ he => absurd he (by simp), fun _ => h⟩

/-- A call that left the records as they were. -/
theorem atomicAt_same {x : Except ClusterError α} (hlive : s.Live key → s.Indexed key)
    (hsame : SameData s s') (h : s'.Indexed key ↔ s.Indexed key) : AtomicAt key s x s' := by
  refine ⟨fun _ _ => ⟨hsame.last key, h.1⟩, fun hlive' => h.2 (hlive ?_)⟩
  rwa [Server.Live, hsame.slot] at hlive'

theorem not_atomicAt {e : ClusterError}
    (h : s'.bucket.last (encodeKey key) ≠ s.bucket.last (encodeKey key)) :
    ¬ AtomicAt key s (.error e : Except ClusterError α) s' := fun hatomic => h (hatomic.1 e rfl).1

/-- A failed call that left an absent key absent. -/
theorem atomicAt_error_iff {e : ClusterError} (hsame : SameData s s') (hdead : ¬ s.Live key) :
    AtomicAt key s (.error e : Except ClusterError α) s' ↔ (s'.Indexed key → s.Indexed key) := by
  refine ⟨fun hatomic => (hatomic.1 e rfl).2, fun hadded => ⟨fun _ _ => ⟨hsame.last key, hadded⟩, ?_⟩⟩
  intro hlive
  rw [Server.Live, hsame.slot] at hlive
  exact absurd hlive hdead

/-- How a write from `s` ended: both records are there, only the data record is, or
neither is. -/
inductive Ended (key : String) (s : Server) : Bool → Bool → Except ClusterError α → Server → Prop
  | both {a : α} {s' : Server} (h : s'.Indexed key) : Ended key s false false (.ok a) s'
  | half {e : ClusterError} {s' : Server}
      (h : s'.bucket.last (encodeKey key) ≠ s.bucket.last (encodeKey key)) :
      Ended key s false true (.error e) s'
  | neither {b : Bool} {e : ClusterError} {s' : Server} (hsame : SameData s s')
      (h : s'.Indexed key ↔ s.Indexed key) : Ended key s true b (.error e) s'

/-- A write from `s` is atomic unless the bucket took only its data record. -/
theorem Ended.atomicAt_iff {b₀ b₁ : Bool} {x : Except ClusterError α} (h : Ended key s b₀ b₁ x s')
    (hlive : s.Live key → s.Indexed key) :
    AtomicAt key s x s' ↔ ¬ (b₀ = false ∧ b₁ = true) := by
  cases h with
  | both h => exact iff_of_true (atomicAt_ok h) (by simp)
  | half h => exact iff_of_false (not_atomicAt h) (by simp)
  | neither hsame h => exact iff_of_true (atomicAt_same hlive hsame h) (by simp)

/-- What a write does once its two records are answered for. -/
theorem exec_ended {value : Bytes} {exp : Option UInt64} {expect : Expect} {s₁ : Server} {b₀ b₁ : Bool}
    {data : PendingWrite} {indexed : Except ClusterError (Option Nat)}
    (hdata : DataOutcome key value exp expect s s₁ b₀ data)
    (hindex : IndexOutcome key s s₁ b₁ indexed) (hlive : s.Live key → s.Indexed key)
    (hnot : data.done ≠ .error .conflict) {p : Kv α} {a : α}
    (hok : ∀ seq, data = .ok seq → p = discard (Prog.ofExcept id indexed) >>= fun _ => Prog.ret a)
    (hfailed : ∀ e, data.done = .error (.failed e) → p = refused key indexed e)
    (verdicts : List (Option Refusal)) : ∃ x s' verdicts',
    p.exec Cramped.answer ⟨s₁, verdicts⟩ = some (x, ⟨s', verdicts'⟩) ∧ Ended key s b₀ b₁ x s' := by
  cases hdata with
  | conflict hdone => exact absurd hdone hnot
  | refused hdone hsame =>
    obtain ⟨s', verdicts', hexec, hsame', hindexed⟩ := exec_refused (α := α) hlive hsame hindex _ verdicts
    rw [← hfailed _ hdone] at hexec
    exact ⟨_, s', verdicts', hexec, .neither hsame' hindexed⟩
  | @stored seq hw hmet hnew =>
    rw [hok seq rfl]
    cases hindex with
    | old h h' => exact ⟨_, s₁, verdicts, rfl, .both h'⟩
    | new h h' => exact ⟨_, s₁, verdicts, rfl, .both h'⟩
    | refused h => exact ⟨_, s₁, verdicts, rfl, .half hnew⟩

/-- A put. -/
theorem put_ended (hlive : s.Live key → s.Indexed key) (value : Bytes) (ttl : Option Duration)
    (verdicts : List (Option Refusal)) : ∃ x s' verdicts',
    (put key value ttl).exec Cramped.answer ⟨s, verdicts⟩ = some (x, ⟨s', verdicts'⟩) ∧
      Ended key s (refusedAt verdicts 0) (refusedAt verdicts 1) x s' := by
  rw [put, Prog.exec_bind_ok (exec_cramped_reads (requests_expiresAtFrom (fun _ h => h) ttl)
    (exec_expiresAtFrom ttl) verdicts)]
  obtain ⟨data, index, s₁, hdata, hindex, hexec⟩ := exec_pair (α := Unit) (s := s) key value
    (s.deadline ttl) .anything verdicts
  have hnot : data.done ≠ .error .conflict := by
    generalize refusedAt verdicts 0 = b at hdata
    cases hdata with
    | stored => simp [PendingWrite.done]
    | conflict hdone hsame hnot =>
      obtain ⟨n, hn, -⟩ := hnot
      exact absurd hn (by simp [Expect.lastSequence])
    | refused hdone => simp [hdone]
  rw [Server.deadline] at hexec
  rw [hexec]
  refine exec_ended hdata hindex hlive hnot (a := ()) ?_ ?_ verdicts.tail.tail
  · rintro seq rfl
    exact (Prog.bind_ret_right _).symm
  · rintro e he
    rw [he]

/-- A round of `put_if_absent` whose expectation is met. -/
theorem putIfAbsentRounds_ended (hlive : s.Live key → s.Indexed key) (value : Bytes)
    (exp : Option UInt64) (expect : Expect)
    (hmet : ∀ n ∈ expect.lastSequence, s.bucket.lastSeqOf (encodeKey key) = n) (rounds : Nat)
    (verdicts : List (Option Refusal)) : ∃ x s' verdicts',
    (putIfAbsentRounds key value exp (rounds + 1) expect).exec Cramped.answer ⟨s, verdicts⟩ =
      some (x, ⟨s', verdicts'⟩) ∧
      Ended key s (refusedAt verdicts 0) (refusedAt verdicts 1) x s' := by
  obtain ⟨data, index, s₁, hdata, hindex, hexec⟩ := exec_pair (α := Bool) (s := s) key value
    exp expect verdicts
  have hnot : data.done ≠ .error .conflict := by
    generalize refusedAt verdicts 0 = b at hdata
    cases hdata with
    | stored => simp [PendingWrite.done]
    | conflict hdone hsame hnot =>
      obtain ⟨n, hn, hne⟩ := hnot
      exact absurd (hmet n hn) hne
    | refused hdone => simp [hdone]
  rw [putIfAbsentRounds, hexec]
  refine exec_ended hdata hindex hlive hnot (a := true) ?_ ?_ verdicts.tail.tail
  · rintro seq rfl
    rfl
  · rintro e he
    rw [he]

/-- A `put_if_absent`. -/
theorem putIfAbsent_atomic (hlive : s.Live key → s.Indexed key) (value : Bytes)
    (ttl : Option Duration) (verdicts : List (Option Refusal)) : ∃ x s' verdicts',
    (putIfAbsent key value ttl).exec Cramped.answer ⟨s, verdicts⟩ = some (x, ⟨s', verdicts'⟩) ∧
      (AtomicAt key s x s' ↔ ¬ Torn s verdicts (.putIfAbsent key value ttl)) := by
  rw [putIfAbsent, Prog.exec_bind_ok (exec_cramped_reads (requests_expiresAtFrom (fun _ h => h) ttl)
    (exec_expiresAtFrom ttl) verdicts), casWriteAttempts]
  generalize (ttl.map fun d => s.now + max d.secs 1) = exp
  cases hslot : s.slot key with
  | empty =>
    obtain ⟨x, s', verdicts', hexec, hended⟩ := putIfAbsentRounds_ended hlive value exp .nothing
      (fun n hn => lastSeqOf_slot (by rw [hslot]; exact hn)) 7 verdicts
    refine ⟨x, s', verdicts', hexec, (hended.atomicAt_iff hlive).trans ?_⟩
    simp only [Torn, hslot]
  | live v e revision =>
    obtain ⟨data, index, s₁, hdata, hindex, hexec⟩ := exec_pair (α := Bool) (s := s) key value
      exp .nothing verdicts
    have htorn : ¬ Torn s verdicts (.putIfAbsent key value ttl) := by simp [Torn, hslot]
    have hindexed : s.Indexed key := hlive (Server.live_iff.2 ⟨v, e, revision, hslot⟩)
    rw [putIfAbsentRounds, hexec]
    generalize refusedAt verdicts 0 = b at hdata
    cases hdata with
    | stored hw hmet =>
      exact absurd (hmet 0 rfl) (lastSeqOf_ne_zero (by simp [hslot]))
    | refused hdone hsame =>
      obtain ⟨s', verdicts', hend, hsame', hindexed'⟩ :=
        exec_refused (α := Bool) hlive hsame hindex _ verdicts.tail.tail
      rw [hdone]
      exact ⟨_, s', verdicts', hend, iff_of_true (atomicAt_same hlive hsame' hindexed') htorn⟩
    | conflict hdone hsame =>
      have hread := exec_cramped_reads (requests_slot (fun _ h => h) (encodeKey key) key)
        (exec_slot (s := s₁) (encodeKey key) key) verdicts.tail.tail
      rw [← Server.slot, hsame.slot, hslot] at hread
      rw [hdone]
      refine ⟨_, s₁, _, Prog.exec_bind_ok hread, iff_of_true (atomicAt_same hlive hsame ?_) htorn⟩
      generalize refusedAt verdicts 1 = b₁ at hindex
      generalize indexDone index = outcome at hindex
      cases hindex with
      | old h h' => exact iff_of_true h' h
      | new h h' => exact absurd hindexed h
      | refused h => exact h
  | dead revision =>
    obtain ⟨data, index, s₁, hdata, hindex, hexec⟩ := exec_pair (α := Bool) (s := s) key value
      exp .nothing verdicts
    rw [putIfAbsentRounds, hexec]
    generalize h0 : refusedAt verdicts 0 = b at hdata
    cases hdata with
    | stored hw hmet =>
      exact absurd (hmet 0 rfl) (lastSeqOf_ne_zero (by simp [hslot]))
    | refused hdone hsame =>
      obtain ⟨s', verdicts', hend, hsame', hindexed'⟩ :=
        exec_refused (α := Bool) hlive hsame hindex _ verdicts.tail.tail
      rw [hdone]
      refine ⟨_, s', verdicts', hend, iff_of_true (atomicAt_same hlive hsame' hindexed') ?_⟩
      simp [Torn, hslot, h0]
    | conflict hdone hsame =>
      have hread := exec_cramped_reads (requests_slot (fun _ h => h) (encodeKey key) key)
        (exec_slot (s := s₁) (encodeKey key) key) verdicts.tail.tail
      rw [← Server.slot, hsame.slot, hslot] at hread
      have hdead : ¬ s.Live key := Server.not_live_of_dead hslot
      have hdead₁ : ¬ s₁.Live key := by rwa [Server.Live, hsame.slot]
      obtain ⟨x, s', verdicts', hend, hended⟩ := putIfAbsentRounds_ended (s := s₁)
        (fun h => absurd h hdead₁) value exp (.revision revision)
        (fun n hn => lastSeqOf_slot (by rw [hsame.slot, hslot]; exact hn)) 6 verdicts.tail.tail
      simp only [refusedAt_tail] at hended
      rw [hdone]
      refine ⟨x, s', verdicts', (Prog.exec_bind_ok hread).trans hend, ?_⟩
      simp only [Torn, hslot, h0, true_and]
      generalize h2 : refusedAt verdicts 2 = b₂ at hended
      generalize h3 : refusedAt verdicts 3 = b₃ at hended
      cases hended with
      | both h => exact iff_of_true (atomicAt_ok h) (by simp)
      | half h =>
        rw [hsame.last] at h
        exact iff_of_false (not_atomicAt h) (by simp)
      | neither hsame' h' =>
        -- what the first round added is there still
        have hsame'' := hsame.trans hsame'
        rw [atomicAt_error_iff hsame'' hdead, h']
        generalize refusedAt verdicts 1 = b₁ at hindex
        generalize indexDone index = outcome at hindex
        cases hindex with
        | old h h' => simp [h]
        | new h h' => simp [h, h']
        | refused h => simp [h]

/-- A counter that comes into being. -/
theorem updateCounterRounds_ended (hlive : s.Live key → s.Indexed key) (name : String)
    (ttl : Option Duration) {step : Int64 → Except ClusterError Int64} {next : Int64}
    (habsent : (s.slot key).found = none) (hstep : step 0 = .ok next) (rounds : Nat)
    (verdicts : List (Option Refusal)) : ∃ x s' verdicts',
    (updateCounterRounds api name key ttl step (rounds + 1)).exec Cramped.answer ⟨s, verdicts⟩ =
      some (x, ⟨s', verdicts'⟩) ∧
      Ended key s (refusedAt verdicts 0) (refusedAt verdicts 1) x s' := by
  have hread := exec_cramped_reads (requests_readCounter (fun _ h => h) api key ttl)
    (exec_readCounter_absent api ttl habsent) verdicts
  obtain ⟨data, index, s₁, hdata, hindex, hexec⟩ := exec_pair (α := Int64) (s := s) key
    (renderI64 next) (s.deadline ttl) (s.slot key).expect verdicts
  have hnot : data.done ≠ .error .conflict := by
    generalize refusedAt verdicts 0 = b at hdata
    cases hdata with
    | stored => simp [PendingWrite.done]
    | conflict hdone hsame hnot =>
      obtain ⟨n, hn, hne⟩ := hnot
      exact absurd (lastSeqOf_slot hn) hne
    | refused hdone => simp [hdone]
  rw [updateCounterRounds, Prog.exec_bind_ok hread]
  simp only [hstep, Prog.ofExcept_ok, Prog.ret_bind, leavesCounter, Bool.not_true, Bool.and_false,
    Bool.false_and, Bool.false_eq_true, if_false, indexCreated, if_true, bind_map_left]
  rw [hexec]
  refine exec_ended hdata hindex hlive hnot (a := next) ?_ ?_ verdicts.tail.tail
  · rintro seq rfl
    rfl
  · rintro e he
    rw [he]

/-- A live counter: its one record is stored, refused or not written. -/
theorem updateCounterRounds_live (hlive : s.Live key → s.Indexed key) (name : String)
    (ttl : Option Duration) (step : Int64 → Except ClusterError Int64) {value : Bytes}
    {exp : Option UInt64} {revision : Nat} (hslot : s.slot key = .live value exp revision)
    (rounds : Nat) (verdicts : List (Option Refusal)) : ∃ x s' verdicts',
    (updateCounterRounds api name key ttl step (rounds + 1)).exec Cramped.answer ⟨s, verdicts⟩ =
      some (x, ⟨s', verdicts'⟩) ∧ AtomicAt key s x s' := by
  have hindexed : s.Indexed key := hlive (Server.live_iff.2 ⟨value, exp, revision, hslot⟩)
  have hsame : ∀ x : Except ClusterError Int64, AtomicAt key s x s := fun x =>
    atomicAt_same hlive (.refl s) Iff.rfl
  have hread := exec_cramped_reads (requests_readCounter (fun _ h => h) api key ttl)
    (exec_readCounter_live api ttl hslot) verdicts
  rw [updateCounterRounds]
  cases hparse : api.parseCounter value with
  | error e =>
    rw [hparse] at hread
    exact ⟨_, s, verdicts, Prog.exec_bind_error hread, hsame _⟩
  | ok current =>
    rw [hparse] at hread
    rw [Prog.exec_bind_ok hread]
    dsimp only
    cases hstep : step current with
    | error e => exact ⟨_, s, verdicts, rfl, hsame _⟩
    | ok next =>
      rw [Prog.ofExcept_ok, Prog.ret_bind]
      split
      · exact ⟨_, s, verdicts, rfl, hsame _⟩
      · obtain ⟨data, s₁, hdata, hindexed₁, hexec⟩ := exec_data (s := s) key (renderI64 next)
          (if ttl.isSome then s.deadline ttl else exp) (.revision revision) verdicts
        rw [Prog.exec_bind_ok hexec]
        generalize refusedAt verdicts 0 = b at hdata
        cases hdata with
        | stored hw hmet hnew =>
          exact ⟨_, s₁, _, rfl, atomicAt_ok (hindexed₁.2 hindexed)⟩
        | conflict hdone hsame₁ hnot =>
          obtain ⟨n, hn, hne⟩ := hnot
          exact absurd (lastSeqOf_slot (by rw [hslot]; exact hn)) hne
        | @refused data e hdone hsame₁ =>
          refine ⟨.error e, s₁, verdicts.tail, ?_, atomicAt_same hlive hsame₁ hindexed₁⟩
          rw [hdone]
          rfl

theorem AtomicAt.map {x : Except ClusterError α} (f : α → β) :
    AtomicAt key s (x.map f) s' ↔ AtomicAt key s x s' := by
  cases x <;> simp [AtomicAt, Except.map]

/-- The reply of a call, made of what its program returned. -/
theorem exec_map {p : Kv α} {c c' : Cramped} {x : Except ClusterError α} (f : α → β)
    (h : p.exec Cramped.answer c = some (x, c')) :
    (f <$> p).exec Cramped.answer c = some (x.map f, c') := by
  cases x with
  | ok a => exact Prog.exec_bind_ok h
  | error e => exact Prog.exec_bind_error h

end Calls

/-- **A write is atomic exactly when it is not torn.**  In a bucket whose live
keys are indexed, whichever records of a call the server refuses: a call that
failed left the data record and the index as they were, and every live key is
indexed, unless the bucket took a data record and refused the index record behind
it, or refused the record of a claim over a dead key whose index record it took
in the round before. -/
theorem writes_atomic_iff (api : CounterApi) (s : Server) (h : ∀ k, s.Live k → s.Indexed k)
    (key : String) (op : Op) (hop : op.Puts key) (verdicts : List (Option Refusal)) :
    ∃ x s' verdicts', (op.program api).exec Cramped.answer ⟨s, verdicts⟩ =
      some (x, ⟨s', verdicts'⟩) ∧ (Atomic key s x s' ↔ ¬ Torn s verdicts op) := by
  have hkey : op.key? = some key := by
    cases op <;> first | exact congrArg some hop | exact absurd hop id
  suffices hat : ∃ x s' verdicts', (op.program api).exec Cramped.answer ⟨s, verdicts⟩ =
      some (x, ⟨s', verdicts'⟩) ∧ (AtomicAt key s x s' ↔ ¬ Torn s verdicts op) by
    obtain ⟨x, s', verdicts', hexec, hiff⟩ := hat
    have helsewhere := exec_elsewhere (requests_keyed (asksOf_aside key) api hkey) hexec
    exact ⟨x, s', verdicts', hexec, (helsewhere.atomic_iff h).trans hiff⟩
  cases op with
  | put k value ttl =>
    obtain rfl : k = key := hop
    obtain ⟨x, s', verdicts', hexec, hended⟩ := put_ended (h k) value ttl verdicts
    refine ⟨_, s', verdicts', exec_map _ hexec, (AtomicAt.map _).trans ?_⟩
    exact hended.atomicAt_iff (h k)
  | putIfAbsent k value ttl =>
    obtain rfl : k = key := hop
    obtain ⟨x, s', verdicts', hexec, hiff⟩ := putIfAbsent_atomic (h k) value ttl verdicts
    exact ⟨_, s', verdicts', exec_map _ hexec, (AtomicAt.map _).trans hiff⟩
  | updateCounter name k ttl step =>
    obtain rfl : k = key := hop
    cases hfound : (s.slot k).found with
    | none =>
      have hdead : ¬ s.Live k := by simp [Server.Live, hfound]
      cases hstep : step 0 with
      | error e =>
        refine ⟨.error e, s, verdicts, ?_, iff_of_true (atomicAt_same (h k) (.refl s) Iff.rfl) ?_⟩
        · refine exec_map (x := .error e) _ ?_
          rw [updateCounter, casAttempts, updateCounterRounds, Prog.exec_bind_ok (exec_cramped_reads
            (requests_readCounter (fun _ h => h) api k ttl) (exec_readCounter_absent api ttl hfound) verdicts)]
          dsimp only
          rw [hstep]
          rfl
        · simp [Torn, hstep]
      | ok next =>
        obtain ⟨x, s', verdicts', hexec, hended⟩ :=
          updateCounterRounds_ended (h k) name ttl hfound hstep 63 verdicts
        refine ⟨_, s', verdicts', exec_map _ hexec, (AtomicAt.map _).trans ?_⟩
        refine (hended.atomicAt_iff (h k)).trans ?_
        simp [Torn, hstep, hdead]
    | some entry =>
      have hlive : s.Live k := by simp [Server.Live, hfound]
      obtain ⟨value, exp, revision, hslot⟩ := Server.live_iff.1 hlive
      obtain ⟨x, s', verdicts', hexec, hatomic⟩ :=
        updateCounterRounds_live (h k) name ttl step hslot 63 verdicts
      refine ⟨_, s', verdicts', exec_map _ hexec, (AtomicAt.map _).trans ?_⟩
      exact iff_of_true hatomic (by simp [Torn, hlive])
  | _ => exact absurd hop id

/-- The error of a bucket at its byte cap. -/
def bucketFull : Refusal := ⟨⟨some (.other 10077), "maximum bytes exceeded"⟩, rfl⟩

/-- A put whose two records are both refused leaves the bucket as it was. -/
theorem writes_atomic_iff_full : ∃ x s' verdicts',
    ((Op.put "k" [2] none).program decimalCounters).exec Cramped.answer
      ⟨expiredServer, [some bucketFull, some bucketFull]⟩ = some (x, ⟨s', verdicts'⟩) ∧
      Atomic "k" expiredServer x s' := by
  obtain ⟨x, s', verdicts', hexec, hiff⟩ := writes_atomic_iff decimalCounters expiredServer
    (fun k hlive => absurd hlive (expiredServer_not_live k)) "k" (.put "k" [2] none) rfl
    [some bucketFull, some bucketFull]
  exact ⟨x, s', verdicts', hexec, hiff.2 fun htorn => absurd htorn.1 (by decide)⟩

/-- A claim over an expired value whose record the bucket refuses leaves the index
record of its first round. -/
theorem writes_atomic_iff_claim : ¬ ∀ (api : CounterApi) (s : Server),
    (∀ k, s.Live k → s.Indexed k) → ∀ (key : String) (op : Op), op.Puts key →
    ∀ (verdicts : List (Option Refusal)) (x : Except ClusterError Reply) (c : Cramped),
    (op.program api).exec Cramped.answer ⟨s, verdicts⟩ = some (x, c) → Atomic key s x c.srv := by
  intro hall
  have hexec : ∃ c ∈ ((Op.putIfAbsent "k" [2] none).program decimalCounters).exec Cramped.answer
      ⟨expiredServer, [none, none, some bucketFull, none]⟩,
        c.1.isOk = false ∧ c.2.srv.Indexed "k" ∧ ¬ expiredServer.Indexed "k" := by decide +kernel
  obtain ⟨⟨x, c⟩, hexec, hfailed, hindexed, hunindexed⟩ := hexec
  have hatomic := hall decimalCounters expiredServer
    (fun k hlive => absurd hlive (expiredServer_not_live k)) "k" (.putIfAbsent "k" [2] none) rfl
    [none, none, some bucketFull, none] x c hexec
  cases x with
  | ok reply => exact absurd hfailed (by simp [Except.isOk, Except.toBool])
  | error e => exact hunindexed ((hatomic.unchanged e rfl).2 "k" hindexed)

end ClusterNats
