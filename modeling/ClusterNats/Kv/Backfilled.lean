import ClusterNats.Kv.Awaited
import ClusterNats.Kv.Indexed

/-!
# The backfill completes the index

A backfill reads the records of the bucket and writes the index record of every
key that it finds live, beside calls that write and remove records.  A live key
that misses its index record is one that the backfill has still to come to, or
one that a call owes the record.

* `Coming` — the backfill still comes to a record of the key, or fails.
* `Unbroken` — its stream does not end early, and no record that it was handed
  expires before it reads the clock.
* `coming_serve`, `coming_step`, `run_coming` — what a request of it, a step and
  a run keep.
* `backfill_completes` — once a backfill returned, a call owes every live key
  that misses its index record.
-/

namespace ClusterNats

open Conc

/-! ## Where a backfill stands -/

/-- What is left of a backfill at its last `fuel` records. -/
def backfillFrom (now : UInt64) (fuel : Nat) (b : Backfill) : Kv Reply := do
  let b ← backfillScan now fuel b
  indexAllDone b.2
  return .indexed b.1

/-- What is left of a backfill whose stream is open. -/
def backfillOpened (fuel : Nat) : Kv Reply := do
  let now ← nowUnixSecs
  backfillFrom now fuel (0, [])

/-- What is left of a backfill after a record. -/
def backfillAfter (now : UInt64) (fuel : Nat) (d : Delivered) (b : Backfill) : Kv Reply :=
  if d.pending = 0 then do
    indexAllDone b.2
    return .indexed b.1
  else backfillFrom now fuel b

/-- A backfill with the stream `c` still comes to a record of `key` that it
indexes, or fails. -/
inductive Coming (api : CounterApi) (key : String) (s : Server) : Kv Reply → Option Consumer → Prop
  | start {fuel : Nat} {c : Option Consumer} :
      Coming api key s ((Op.backfillIndex fuel).program api) c
  | opening {fuel : Nat} {c : Option Consumer} {k : Except String Unit → Kv Reply}
      (hok : k (.ok ()) = backfillOpened fuel) (hfail : ∀ e, ∃ e', k (.error e) = .fail e') :
      Coming api key s (.req (.messages everything 1) k) c
  | opened {fuel : Nat} {c : Option Consumer}
      (h : Awaited (encodeKey key) (fun d => d.subject = encodeKey key) s c) :
      Coming api key s (backfillOpened fuel) c
  | scanning {now : UInt64} {fuel : Nat} {b : Backfill} {c : Option Consumer} (hnow : now ≤ s.now)
      (h : Awaited (encodeKey key) (fun d => backfillKey now d = some key) s c) :
      Coming api key s (backfillFrom now fuel b) c
  | indexing {now : UInt64} (fuel : Nat) {c : Option Consumer} {key' : String} {headers : HeaderMap}
      {payload : Bytes} {k : Except String PendingWrite → Kv Reply} (hnow : now ≤ s.now)
      (hk : ∀ x, (∃ e, k x = .fail e) ∨ ∃ b, k x = backfillFrom now fuel b)
      (h : Awaited (encodeKey key) (fun d => backfillKey now d = some key) s c) :
      Coming api key s (.req (.publish (indexKey key') headers payload (some 0)) k) c
  | found {c : Option Consumer} {headers : HeaderMap} {payload : Bytes}
      {k : Except String PendingWrite → Kv Reply} :
      Coming api key s (.req (.publish (indexKey key) headers payload (some 0)) k) c
  | failed {c : Option Consumer} (e : ClusterError) : Coming api key s (.fail e) c

/-! ## Its programs -/

section Programs

variable {api : CounterApi} {now : UInt64} {fuel : Nat} {b : Backfill}

theorem indexAllDone_cases (l : List PendingWrite) :
    indexAllDone l = .ret () ∨ ∃ e, indexAllDone l = .fail e := by
  induction l with
  | nil => exact .inl rfl
  | cons pending rest ih =>
    rw [indexAllDone]
    cases indexDone pending with
    | error e => exact .inr ⟨e, rfl⟩
    | ok rev => exact ih

variable (api fuel) in
theorem program_backfillIndex : (Op.backfillIndex fuel).program api =
    recordConsumer "mcpg kv backfill" everything 1 >>= fun opened =>
      if opened then backfillOpened fuel else .ret (.indexed 0) := by
  show Reply.indexed <$> backfillIndex fuel = _
  rw [backfillIndex, map_bind]
  congr
  funext opened
  cases opened with
  | false => rfl
  | true =>
    simp only [if_true, map_bind]
    rfl

theorem backfillOpened_eq : backfillOpened fuel =
    .req .systemTime fun (t : Instant) => backfillFrom (unixSecs t) fuel (0, []) := rfl

variable (now fuel b) in
theorem backfillFrom_succ : ∃ k : NextRecord → Kv Reply,
    backfillFrom now (fuel + 1) b = .req .nextRecord k ∧
      (∀ d, k (.record d) = backfillRecord now b d >>= fun b => backfillAfter now fuel d b) ∧
      (∀ e, ∃ e', k (.unreadable e) = .fail e') ∧ (∀ e, ∃ e', k (.failed e) = .fail e') ∧
      ∃ e', k .idle = .fail e' := by
  refine ⟨_, rfl, fun d => ?_, fun e => ⟨_, rfl⟩, fun e => ⟨_, rfl⟩, ⟨_, rfl⟩⟩
  show (backfillRecord now b d >>= fun b => if d.pending = 0 then Prog.ret b else
    backfillScan now fuel b) >>= _ = _
  rw [bind_assoc]
  congr
  funext b'
  by_cases hpending : d.pending = 0
  · simp [backfillAfter, hpending]
  · simp [backfillAfter, hpending, backfillFrom]

/-- A batch of index records is waited for at once. -/
theorem batch_cases (n : Nat) (l : List PendingWrite) (f : Backfill → Kv Reply) {q : Kv Backfill}
    (hq : q = if l.length = backfillInFlight then (do indexAllDone l; return (n, [])) else
      return (n, l)) : (∃ e, q >>= f = .fail e) ∨ ∃ b, q >>= f = f b := by
  subst hq
  split
  · rcases indexAllDone_cases l with h | ⟨e, h⟩
    · exact .inr ⟨(n, []), by simp [h]⟩
    · exact .inl ⟨e, by simp [h]⟩
  · exact .inr ⟨(n, l), rfl⟩

variable (now b) in
/-- What a backfill does with one record. -/
theorem backfillRecord_cases (d : Delivered) (f : Backfill → Kv Reply) :
    (backfillKey now d = none ∧ backfillRecord now b d >>= f = f b) ∨
    ∃ key headers payload k, backfillKey now d = some key ∧ backfillRecord now b d >>= f =
        .req (.publish (indexKey key) headers payload (some 0)) k ∧
      ∀ x, (∃ e, k x = .fail e) ∨ ∃ b', k x = f b' := by
  cases hkey : backfillKey now d with
  | none =>
    refine .inl ⟨rfl, ?_⟩
    simp [backfillRecord, hkey]
  | some key =>
    refine .inr ⟨key, [(expiresHeader, renderU64 0)], encodeValue [] none, ?_⟩
    simp only [backfillRecord, hkey]
    refine ⟨_, trivial, rfl, fun x => ?_⟩
    cases x with
    | error e => exact .inl ⟨_, rfl⟩
    | ok pending =>
      exact batch_cases (b.1 + 1) (b.2 ++ [pending]) f rfl

end Programs

/-! ## One request -/

section Serve

variable {api : CounterApi} {key : String} {s s' : Server} {c c' : Option Consumer} {m : Mode}

/-- A live key has a record. -/
theorem Server.Live.last (h : s.Live key) : ∃ r, s.bucket.last (encodeKey key) = some r := by
  obtain ⟨value, exp, revision, hslot⟩ := Server.live_iff.1 h
  obtain ⟨record, hrecord, -⟩ := Slot.ofRecord_eq_live.1 hslot
  obtain ⟨r, hr, -⟩ := Option.map_eq_some_iff.1 hrecord
  exact ⟨r, hr⟩

/-- **A request of the backfill.**  It goes on coming to the key, or has indexed
it. -/
theorem coming_serve {p : Kv Reply} {r : Req} {k : Resp r → Kv Reply} {x : Resp r}
    (h : Coming api key s p c) (hp : p = .req r k) (hm : m.Works)
    (hended : r = .nextRecord → m ≠ .ended) (hlive : s.Live key)
    (hprompt : r = .systemTime → ∀ c₁ ∈ c, ∀ d ∈ c₁.buffer, d.subject = encodeKey key →
      backfillKey s.now d = some key)
    (hserve : serve m s c r = some (x, s', c')) :
    s'.Indexed key ∨ Coming api key s' (k x) c' := by
  obtain ⟨last, hlast⟩ := hlive.last
  cases h with
  | @start fuel =>
    obtain ⟨k₁, hk₁, hfail, -, hmessages⟩ := recordConsumer_cases "mcpg kv backfill" everything 1
      fun opened => if opened then backfillOpened fuel else .ret (.indexed 0)
    rw [program_backfillIndex, hk₁] at hp
    cases hp
    have hok := hm.serve (by simp) hserve
    obtain ⟨rfl, hrest⟩ := Prod.mk.inj (Option.some.inj hok)
    obtain ⟨rfl, rfl⟩ := Prod.mk.inj hrest
    -- the record of the key is pending
    have hpending : s.bucket.pending (subjectMatches everything) 1 ≠ 0 := by
      intro hzero
      have hbefore := SubjectLog.pending_eq_zero.1 hzero last (SubjectLog.mem_of_last hlast)
        (subjectMatches_everything _)
      have hpos := SubjectLog.seq_pos_of_last hlast
      omega
    obtain ⟨k₂, hk₂, hopened, hfail₂⟩ := hmessages _ hpending
    right
    rw [hk₂]
    exact .opening hopened hfail₂
  | opening hok hfail =>
    cases hp
    have hserve' := hm.serve (by simp) hserve
    obtain ⟨rfl, hrest⟩ := Prod.mk.inj (Option.some.inj hserve')
    obtain ⟨rfl, rfl⟩ := Prod.mk.inj hrest
    right
    rw [hok]
    exact .opened (Awaited.opened (subjectMatches_everything _) hlast
      (SubjectLog.seq_pos_of_last hlast))
  | @opened fuel _ hawaited =>
    rw [backfillOpened_eq] at hp
    cases hp
    obtain ⟨rfl, hrest⟩ := Prod.mk.inj (Option.some.inj hserve)
    obtain ⟨rfl, rfl⟩ := Prod.mk.inj hrest
    exact .inr (.scanning (UInt64.le_refl _) (hawaited.mono (hprompt rfl)))
  | @scanning now fuel b _ hnow hawaited =>
    cases fuel with
    | zero => exact absurd hp (by simp [backfillFrom, backfillScan])
    | succ fuel =>
      obtain ⟨k₁, hk₁, hrecord, hunreadable, hfailed, hidle⟩ := backfillFrom_succ now fuel b
      rw [hk₁] at hp
      cases hp
      obtain ⟨y, hy, heq⟩ := Option.map_eq_some_iff.1 hserve
      cases heq
      right
      rcases hawaited.next hy with ⟨d, hd, hcase⟩ | ⟨reason, hx⟩ | ⟨reason, hx⟩ | ⟨hx, -⟩ | ⟨-, hx⟩
      · rw [hd, hrecord]
        rcases backfillRecord_cases now b d fun b => backfillAfter now fuel d b with ⟨hnone, heq⟩ |
          ⟨key', headers, payload, k', hkey, heq, hk'⟩
        · rcases hcase with hgood | ⟨hpending, hrest⟩
          · exact absurd (hnone.symm.trans hgood) (by simp)
          · rw [heq, backfillAfter, if_neg hpending]
            exact .scanning hnow hrest
        · rw [heq]
          rcases hcase with hgood | ⟨hpending, hrest⟩
          · cases Option.some.inj (hkey.symm.trans hgood)
            exact .found
          · refine .indexing fuel hnow ?_ hrest
            intro x
            rcases hk' x with hfail | ⟨b', hb'⟩
            · exact .inl hfail
            · exact .inr ⟨b', hb'.trans (if_neg hpending)⟩
      · rw [hx]
        obtain ⟨e, he⟩ := hunreadable reason
        exact he ▸ .failed e
      · rw [hx]
        obtain ⟨e, he⟩ := hfailed reason
        exact he ▸ .failed e
      · rw [hx]
        obtain ⟨e, he⟩ := hidle
        exact he ▸ .failed e
      · exact absurd hx (hended rfl)
  | @indexing now fuel _ key' headers payload k₁ hnow hk hawaited =>
    cases hp
    have hok := hm.serve (by simp) hserve
    obtain ⟨rfl, hrest⟩ := Prod.mk.inj (Option.some.inj hok)
    obtain ⟨rfl, rfl⟩ := Prod.mk.inj hrest
    right
    rcases hk (Except.ok (s.publish (indexKey key') headers payload (some 0)).1) with ⟨e, he⟩ | ⟨b, hb⟩
    · exact he ▸ .failed e
    · rw [hb]
      have hsame : (s.publish (indexKey key') headers payload (some 0)).2.bucket.last (encodeKey key) =
          s.bucket.last (encodeKey key) :=
        effect_last_of_not_touches (r := .publish (indexKey key') headers payload (some 0))
          (by simp [Req.touches, (encodeKey_ne_indexKey key key').symm])
      refine .scanning ?_ (hawaited.evolve ?_ (hsame.trans hlast))
      · have hclock := effect_clock s (.publish (indexKey key') headers payload (some 0))
        rw [Server.now, show (s.publish (indexKey key') headers payload (some 0)).2.clock = s.clock
          from hclock]
        exact hnow
      · exact effect_evolves s (.publish (indexKey key') headers payload (some 0))
  | @found _ headers payload k₁ =>
    cases hp
    have hok := hm.serve (by simp) hserve
    obtain ⟨-, hrest⟩ := Prod.mk.inj (Option.some.inj hok)
    obtain ⟨rfl, rfl⟩ := Prod.mk.inj hrest
    exact .inl (indexed_publish headers payload)
  | failed e => cases hp

end Serve

/-! ## One step -/

section Steps

variable {api : CounterApi} {key : String} {s s' : Server} {c c' : Option Consumer} {p : Kv Reply}

/-- What is handed out of a live record is a record to index. -/
theorem backfillKey_of_live (hs : s.Agrees) (hlive : s.Live key) {now : UInt64} (hnow : now ≤ s.now)
    {m : StoredMessage} (hm : s.bucket.last (encodeKey key) = some m) (filter : Bytes) :
    backfillKey now (delivered s filter m) = some key := by
  have hsubject : (delivered s filter m).subject = encodeKey key := SubjectLog.subject_of_last hm
  have hagrees := hs key m hm
  obtain ⟨hput, hexpiry⟩ := (Server.live_iff_last hm).1 hlive
  have hop : recordOperation m.body.headers = .put := by
    by_contra hnot
    exact hagrees.marker hnot hput
  have hunexpired : ¬ (headerExpiry m.body.headers).any (fun at_ => at_ ≠ 0 && at_ ≤ now) := by
    intro hany
    cases hexp : headerExpiry m.body.headers with
    | none => simp [hexp] at hany
    | some at_ =>
      simp only [hexp, Option.any_some, Bool.and_eq_true, decide_eq_true_eq] at hany
      rw [hagrees.expiry at_ hop hexp hany.1] at hexpiry
      have hdue : isExpiredAt s.now (some at_) = true := by
        simpa [isExpiredAt] using UInt64.le_trans hany.2 hnow
      exact absurd (hexpiry.symm.trans hdue) (by simp)
  rw [backfillKey, hsubject, isIndexKey_encodeKey, decodeKey_encodeKey]
  exact if_pos ⟨hop, hunexpired, by simp⟩

/-- The backfill goes on coming to a key that stays live. -/
theorem Coming.evolve (h : Coming api key s p c) (hs : s.bucket.Evolves s'.bucket)
    (hnow : s.now ≤ s'.now) (hlive : s'.Live key) : Coming api key s' p c := by
  obtain ⟨m, hm⟩ := hlive.last
  cases h with
  | start => exact .start
  | opening hok hfail => exact .opening hok hfail
  | opened hawaited => exact .opened (hawaited.evolve hs hm)
  | scanning hle hawaited => exact .scanning (UInt64.le_trans hle hnow) (hawaited.evolve hs hm)
  | indexing fuel hle hk hawaited =>
    exact .indexing fuel (UInt64.le_trans hle hnow) hk (hawaited.evolve hs hm)
  | found => exact .found
  | failed e => exact .failed e

/-- The backfill is handed one more record. -/
theorem Coming.deliver (h : Coming api key s p c) (hs : s.Agrees) (hlive : s.Live key)
    (hc : Consumer.deliver s c = some c') : Coming api key s p c' := by
  have hindexes : ∀ {now : UInt64}, now ≤ s.now → ∀ m filter,
      s.bucket.last (encodeKey key) = some m → backfillKey now (delivered s filter m) = some key :=
    fun hnow m filter hm => backfillKey_of_live hs hlive hnow hm filter
  cases h with
  | start => exact .start
  | opening hok hfail => exact .opening hok hfail
  | opened hawaited =>
    exact .opened (hawaited.deliver hc fun m filter hm => SubjectLog.subject_of_last hm)
  | scanning hle hawaited => exact .scanning hle (hawaited.deliver hc (hindexes hle))
  | indexing fuel hle hk hawaited => exact .indexing fuel hle hk (hawaited.deliver hc (hindexes hle))
  | found => exact .found
  | failed e => exact .failed e

/-- A backfill starts no job and waits for none. -/
theorem Coming.cases (h : Coming api key s p c) :
    (∃ r k, p = .req r k) ∨ (∃ e, p = .fail e) ∨ p = .stuck := by
  cases h with
  | start => exact .inl ⟨_, _, program_backfillIndex api _⟩
  | opened => exact .inl ⟨_, _, backfillOpened_eq⟩
  | @scanning now fuel b =>
    cases fuel with
    | zero => exact .inr (.inr rfl)
    | succ fuel =>
      obtain ⟨k, hk, -⟩ := backfillFrom_succ now fuel b
      exact .inl ⟨_, _, hk⟩
  | failed e => exact .inr (.inl ⟨e, rfl⟩)
  | _ => exact .inl ⟨_, _, rfl⟩

variable {t : Nat} {w w' : KvWorld} {ch : KvChoice}

/-- The stream of thread `t` does not end early, and the thread reads the clock
before a record of the key that it was handed expires, while the key misses its
index record and no call owes it. -/
structure Unbroken (key : String) (t : Nat) (w : KvWorld) (c : KvChoice) : Prop where
  flows : c ≠ .act (.main t) .ended
  prompt : ∀ th m k, c = .act (.main t) m → w.threads[t]? = some th → th.main = .req .systemTime k →
    Missing key w → (∀ who, ¬ Owing key w who) → ∀ stream ∈ th.loc, ∀ d ∈ stream.buffer,
      d.subject = encodeKey key → backfillKey w.srv.now d = some key

/-- Thread `t`, if it is a backfill, still comes to the key. -/
def Backfilling (api : CounterApi) (key : String) (t : Nat) (w : KvWorld) : Prop :=
  ∀ th fuel, w.threads[t]? = some th → th.op = .backfillIndex fuel → Coming api key w.srv th.main th.loc

/-- **What a step keeps of a backfill.**  While a live key misses its index
record, the backfill still comes to it. -/
theorem coming_step (hs : World.step (kvSystem api) w ch = some w')
    (hc : Admits Mode.Works Op.SweepOrSimple ch) (hunbroken : Unbroken key t w ch)
    (hagrees : w.srv.Agrees) (hmissing : Missing key w) (hnone : ∀ who, ¬ Owing key w who)
    (hmissing' : Missing key w') (h : Backfilling api key t w) : Backfilling api key t w' := by
  have hmode : World.ModeOk (fun _ => True) ch := by cases ch <;> trivial
  obtain ⟨new, -, hnew⟩ := World.step_since hmode hs
  obtain ⟨hevolves, hnow⟩ := history_later hnew
  -- a thread that did not move
  have hstays : ∀ th fuel, w.threads[t]? = some th → th.op = .backfillIndex fuel →
      Coming api key w'.srv th.main th.loc := fun th fuel hth hop =>
    (h th fuel hth hop).evolve hevolves hnow hmissing'.live
  intro th' fuel hth' hop'
  cases ch with
  | start op =>
    obtain ⟨p, hp, rfl⟩ := World.step_start hs
    rcases Nat.lt_or_ge t w.threads.length with ht | ht
    · rw [List.getElem?_append_left ht] at hth'
      exact hstays th' fuel hth' hop'
    · rw [List.getElem?_append_right ht, List.getElem?_singleton] at hth'
      split at hth'
      · cases Option.some.inj hth'
        cases hop'
        cases Option.some.inj hp
        exact .start
      · exact absurd hth' (by simp)
  | env v =>
    obtain ⟨s, -, rfl⟩ := World.step_env hs
    exact hstays th' fuel hth' hop'
  | deliver u =>
    obtain ⟨th, l, hth, hl, rfl⟩ := World.step_deliver hs
    rcases World.getElem?_set_cases hth' with ⟨rfl, rfl⟩ | ⟨-, hu⟩
    · exact (h th fuel hth hop').deliver hagrees hmissing.live hl
    · exact hstays th' fuel hu hop'
  | act who m =>
    cases who with
    | job u i =>
      obtain ⟨th, b, r, k, x, s, l, hth, hb, -, -, rfl⟩ := World.step_job hs
      rcases World.getElem?_set_cases hth' with ⟨rfl, rfl⟩ | ⟨-, hu⟩
      · exact hstays th fuel hth hop'
      · exact hstays th' fuel hu hop'
    | main u =>
      obtain ⟨th, hth, hcase⟩ := World.step_main hs
      by_cases hut : u = t
      · subst hut
        have hop : th.op = .backfillIndex fuel := by
          rcases hcase with ⟨r, k, x, s, l, -, -, rfl⟩ | ⟨cap, j, k, -, rfl⟩ | ⟨k, rs, -, -, rfl⟩ |
            ⟨k, rs, -, -, rfl⟩
          all_goals
            cases Option.some.inj ((World.getElem?_set_at hth).symm.trans hth')
            exact hop'
        have hcoming := h th fuel hth hop
        rcases hcase with ⟨r, k, x, s, l, hr, hx, rfl⟩ | ⟨cap, j, k, hr, rfl⟩ | ⟨k, rs, hr, -, rfl⟩ |
          ⟨k, rs, hr, -, rfl⟩
        · cases Option.some.inj ((World.getElem?_set_at hth).symm.trans hth')
          rcases coming_serve hcoming hr hc (fun _ hm => hunbroken.flows (hm ▸ rfl)) hmissing.live
            (fun hr' => by subst hr'; exact hunbroken.prompt th m k rfl hth hr hmissing hnone) hx with hindexed | hcoming'
          · exact absurd hindexed hmissing'.unindexed
          · exact hcoming'
        all_goals
          rcases hcoming.cases with ⟨r', k', hr'⟩ | ⟨e, he⟩ | hstuck
          · exact absurd (hr.symm.trans hr') (by simp)
          · exact absurd (hr.symm.trans he) (by simp)
          · exact absurd (hr.symm.trans hstuck) (by simp)
      · have hu : w.threads[t]? = some th' := by
          rcases hcase with ⟨r, k, x, s, l, -, -, rfl⟩ | ⟨cap, j, k, -, rfl⟩ | ⟨k, rs, -, -, rfl⟩ |
            ⟨k, rs, -, -, rfl⟩
          all_goals
            rcases World.getElem?_set_cases hth' with ⟨heq, -⟩ | ⟨-, hu⟩
            · exact absurd heq.symm hut
            · exact hu
        exact hstays th' fuel hu hop'

end Steps

/-! ## Every run -/

section Runs

variable {api : CounterApi} {key : String} {t : Nat} {s₀ : Server} {cs : List KvChoice}
  {w w' : KvWorld} {c : KvChoice}

theorem admits_any {c : KvChoice} (hc : Admits Mode.Works Op.SweepOrSimple c) :
    Admits (fun _ => True) Op.SweepOrSimple c := by
  cases c with
  | start op => exact hc
  | _ => trivial

/-- **What every run keeps.**  While a live key misses its index record, a call
owes it the record or the backfill still comes to it. -/
theorem run_coming (h₀ : s₀.Agrees) (hcs : ∀ c ∈ cs, Admits Mode.Works Op.SweepOrSimple c)
    (hrun : World.run (kvSystem api) (KvWorld.start s₀) cs = some w)
    (heach : World.Each (kvSystem api) (fun w c => Timely key w c ∧ Unbroken key t w c)
      (KvWorld.start s₀) cs) (hmissing : Missing key w) :
    (∃ who, Owing key w who) ∨ Backfilling api key t w := by
  have hinv : (∃ ds, (∀ c ∈ ds, Admits Mode.Works Op.SweepOrSimple c) ∧
      World.run (kvSystem api) (KvWorld.start s₀) ds = some w) ∧
        (Missing key w → (∃ who, Owing key w who) ∨ Backfilling api key t w) := by
    refine World.run_each (I := fun w => (∃ ds, (∀ c ∈ ds, Admits Mode.Works Op.SweepOrSimple c) ∧
      World.run (kvSystem api) (KvWorld.start s₀) ds = some w) ∧
        (Missing key w → (∃ who, Owing key w who) ∨ Backfilling api key t w)) ?_ hrun heach ?_
    · refine ⟨⟨[], by simp, rfl⟩, fun _ => .inr fun th fuel hth => ?_⟩
      exact absurd hth (by simp [KvWorld.start])
    · rintro w₁ c w₂ hc ⟨htimely, hunbroken⟩ ⟨⟨ds, hds, hrun₁⟩, hcoming⟩ hs
      have hds' : ∀ c ∈ ds, Admits (fun _ => True) Op.SweepOrSimple c := fun c hc => admits_any (hds c hc)
      refine ⟨⟨ds ++ [c], ?_, ?_⟩, fun hmissing' => ?_⟩
      · intro d hd
        rcases List.mem_append.1 hd with hd | hd
        · exact hds d hd
        · exact List.mem_singleton.1 hd ▸ hcs c hc
      · rw [World.run_concat, hrun₁]
        exact hs
      · have huncut : Uncut api key w₁ c := uncut_of_works hds hrun₁ (hcs c hc)
        have howed := owing_step hds' hrun₁ hs htimely huncut
        by_cases hbefore : Missing key w₁
        · by_cases howing : ∃ who, Owing key w₁ who
          · exact .inl (howed (fun _ => howing) hmissing')
          · have hagrees := (sweep_run h₀ hrun₁).2.1
            have hback := (hcoming hbefore).resolve_left howing
            exact .inr (coming_step hs (hcs c hc) hunbroken hagrees hbefore (not_exists.1 howing)
              hmissing' hback)
        · exact .inl (howed (fun hm => absurd hm hbefore) hmissing')
  exact hinv.2 hmissing

end Runs

/-- **A backfill that returns has completed the index.**  Beside any calls on
single keys, sweeps and other backfills, from a bucket in which any live keys
miss their index records: in every state after the backfill of thread `t`
returned, a call in flight owes the key its index record if it is live and has
none; so it is indexed once no call is in flight. -/
theorem backfill_completes (api : CounterApi) (s₀ : Server) (h₀ : s₀.WellFormed)
    (cs : List KvChoice) (hcs : ∀ c ∈ cs, Admits Mode.Works Op.SweepOrSimple c) (w : KvWorld)
    (hrun : World.run (kvSystem api) (KvWorld.start s₀) cs = some w) (key : String) (t : Nat)
    (heach : World.Each (kvSystem api) (fun w c => Timely key w c ∧ Unbroken key t w c)
      (KvWorld.start s₀) cs) (th : KvThread) (hth : w.threads[t]? = some th) (fuel n : Nat)
    (hop : th.op = .backfillIndex fuel) (hret : th.main = .ret (.indexed n))
    (hlive : w.srv.Live key) :
    (w.srv.Indexed key ∨ ∃ who, Owing key w who) ∧ (w.Quiet → w.srv.Indexed key) := by
  have howed : w.srv.Indexed key ∨ ∃ who, Owing key w who := by
    by_contra hnot
    obtain ⟨hunindexed, hnone⟩ := not_or.1 hnot
    rcases run_coming h₀.agrees hcs hrun heach ⟨hlive, hunindexed⟩ with howing | hback
    · exact hnone howing
    · have hcoming := hback th fuel hth hop
      rcases hcoming.cases with ⟨r, k, hr⟩ | ⟨e, he⟩ | hstuck
      · exact absurd (hret.symm.trans hr) (by simp)
      · exact absurd (hret.symm.trans he) (by simp)
      · exact absurd (hret.symm.trans hstuck) (by simp)
  refine ⟨howed, fun hquiet => howed.resolve_right ?_⟩
  rintro ⟨who, howing⟩
  exact not_owing_of_quiet hquiet who howing

/-! ## A backfill that reads the clock first -/

/-- Is the program about to read the clock? -/
def readsClock : Kv Reply → Bool
  | .req .systemTime _ => true
  | _ => false

/-- The stream of thread `t` is handed nothing before the thread reads the
clock. -/
def ClockFirst (t : Nat) (w : KvWorld) : Prop :=
  (w.threads[t]?.all fun th => !readsClock th.main ||
    th.loc.all fun stream => stream.buffer.isEmpty) = true

instance (t : Nat) (w : KvWorld) : Decidable (ClockFirst t w) :=
  inferInstanceAs (Decidable (_ = _))

theorem ClockFirst.unbroken {key : String} {t : Nat} {w : KvWorld} {c : KvChoice} (h : ClockFirst t w)
    (hc : c ≠ .act (.main t) .ended) : Unbroken key t w c where
  flows := hc
  prompt := by
    rintro th m k - hth hmain - - stream hstream d hd
    have hempty : (w.threads[t]?.all fun th => !readsClock th.main ||
      th.loc.all fun stream => stream.buffer.isEmpty) = true := h
    rw [hth, Option.all_some, hmain, Option.mem_def.1 hstream] at hempty
    have hnil : stream.buffer = [] := by simpa [readsClock] using hempty
    exact absurd (hnil ▸ hd) (by simp)

theorem each_unbroken {api : CounterApi} {key : String} {t : Nat} {cs : List KvChoice} {w : KvWorld}
    (hflows : ∀ c ∈ cs, c ≠ .act (.main t) .ended)
    (hfirst : World.Each (kvSystem api) (fun w _ => ClockFirst t w) w cs) :
    World.Each (kvSystem api) (Unbroken key t) w cs := by
  induction cs generalizing w with
  | nil => trivial
  | cons c cs ih =>
    refine ⟨hfirst.1.unbroken (hflows c List.mem_cons_self), fun w' hs => ih (fun d hd => ?_) (hfirst.2 w' hs)⟩
    exact hflows d (List.mem_cons_of_mem _ hd)

/-- The record count of a backfill call. -/
def Op.backfill? : Op → Option Nat
  | .backfillIndex fuel => some fuel
  | _ => none

theorem Op.backfill?_eq_some {op : Op} {fuel : Nat} :
    op.backfill? = some fuel ↔ op = .backfillIndex fuel := by
  cases op <;> simp [Op.backfill?]

/-- A backfill of a bucket with one value and no index, and a put beside it. -/
def backfillBesidePut : List KvChoice :=
  [.start (.backfillIndex 4), .act (.main 0) .ok, .act (.main 0) .ok, .act (.main 0) .ok,
    .start (.put "j" [2] none), .act (.main 1) .ok, .deliver 0, .act (.main 0) .ok,
    .act (.main 1) .ok, .act (.main 0) .ok, .deliver 0, .deliver 0, .deliver 0, .act (.main 0) .ok,
    .act (.main 0) .ok, .act (.main 0) .ok, .act (.main 0) .ok]

theorem backfillBesidePut_works : ∀ c ∈ backfillBesidePut, Admits Mode.Works Op.SweepOrSimple c ∧
    (∀ t, c ≠ .act (.main t) .ended) ∧ ∀ t, c ≠ .env (.tick t) := by
  intro c hc
  simp only [backfillBesidePut, List.mem_cons, List.not_mem_nil, or_false] at hc
  rcases hc with rfl | rfl | rfl | rfl | rfl | rfl | rfl | rfl | rfl | rfl | rfl | rfl | rfl | rfl |
    rfl | rfl | rfl
  all_goals refine ⟨?_, by simp, by simp⟩
  all_goals first | exact Mode.Works.ok | exact .inl rfl | exact .inr trivial | trivial

theorem backfill_completes_beside_put :
    ∃ w ∈ World.run (kvSystem decimalCounters) (KvWorld.start expiringServer) backfillBesidePut,
      w.srv.Live "k" ∧ w.srv.Indexed "k" := by
  have hrun : ∃ w ∈ World.run (kvSystem decimalCounters) (KvWorld.start expiringServer) backfillBesidePut,
      w.Quiet ∧ w.srv.Live "k" ∧ ∃ th, w.threads[0]? = some th ∧ th.op.backfill? = some 4 ∧
        th.main.result? = some (.ok (.indexed 2)) := by
    decide +kernel
  obtain ⟨w, hw, hquiet, hlive, th, hth, hop, hret⟩ := hrun
  have hcs := backfillBesidePut_works
  have htimely : World.Each (kvSystem decimalCounters) (Timely "k") (KvWorld.start expiringServer)
      backfillBesidePut := each_timely fun c hc => (hcs c hc).2.2
  have hfirst : World.Each (kvSystem decimalCounters) (fun w _ => ClockFirst 0 w)
      (KvWorld.start expiringServer) backfillBesidePut := by
    decide +kernel
  have hunbroken : World.Each (kvSystem decimalCounters) (Unbroken "k" 0) (KvWorld.start expiringServer)
      backfillBesidePut := each_unbroken (fun c hc => (hcs c hc).2.1 0) hfirst
  refine ⟨w, hw, hlive, ?_⟩
  refine (backfill_completes decimalCounters expiringServer expiringServer_wellFormed backfillBesidePut
    (fun c hc => (hcs c hc).1) w hw "k" 0 (htimely.and hunbroken) th hth 4 2 (Op.backfill?_eq_some.1 hop)
    ?_ hlive).2 hquiet
  rcases Prog.result?_eq_some.1 hret with ⟨a, ha, heq⟩ | ⟨e, he, heq⟩
  · cases Except.ok.inj heq
    exact ha
  · cases heq

end ClusterNats
