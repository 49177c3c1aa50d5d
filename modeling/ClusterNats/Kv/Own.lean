import ClusterNats.Conc.Own
import ClusterNats.Kv.Primitives

/-!
# What a call's own requests say, while the backend works

`Prog.Abides` checks a program along its own requests.  This file has its rules
for the reads and writes of the store when no request fails, and no record of
the key carries an expiry: then `slot` reads what the key holds at the moment
of its first request.

* `Works` — an event that a working backend answered.
* `Server.Timeless`, `Calm` — no live value of a key expires; a call saw nothing else.
* `abides_slot`, `abides_publishRecord`, `abides_publishIndex` — the rules.
-/

namespace ClusterNats

open Conc

/-- The event is one a working backend answered. -/
abbrev Works (api : CounterApi) : KvEvent → Prop := World.Served (kvSystem api) (· = .ok)

/-- A choice that is admitted has an allowed mode. -/
theorem Admits.modeOk {allowed : Mode → Prop} {admitted : Op → Prop} {c : KvChoice}
    (h : Admits allowed admitted c) : World.ModeOk allowed c := by
  cases c with
  | act who m => exact h
  | _ => trivial

/-- The value of a key, if it is live, never expires. -/
def Server.Timeless (s : Server) (key : String) : Prop :=
  ∀ value exp revision, s.slot key = .live value exp revision → exp = none

/-- The events are in order, and at each of them the value of `key` never expires. -/
structure Calm (key : String) (tr : List KvEvent) : Prop where
  timeless : ∀ e ∈ tr, e.pre.Timeless key
  ordered : tr.Pairwise fun e d => d.pre.now ≤ e.pre.now

theorem Calm.tail {key : String} {e : KvEvent} {tr : List KvEvent} (h : Calm key (e :: tr)) :
    Calm key tr :=
  ⟨fun d hd => h.timeless d (List.mem_cons_of_mem _ hd), (List.pairwise_cons.1 h.ordered).2⟩

theorem Calm.suffix {key : String} {tr tr' : List KvEvent} (h : Calm key tr') (hs : tr <:+ tr') :
    Calm key tr :=
  ⟨fun d hd => h.timeless d (hs.subset hd), h.ordered.sublist hs.sublist⟩

/-- The clock does not go back along a history. -/
theorem history_ordered {api : CounterApi} {ok : Mode → Prop} {s₀ s : Server} {log : List KvEvent}
    (h : History (kvSystem api) ok s₀ log s) : log.Pairwise fun e d => d.pre.now ≤ e.pre.now := by
  induction log generalizing s with
  | nil => exact .nil
  | cons e log ih =>
    refine List.pairwise_cons.2 ⟨fun d hd => ?_, ih h.1⟩
    obtain ⟨post, pre, rfl⟩ := List.append_of_mem hd
    exact (history_since h.1 (List.suffix_append post _)).2

/-- The events of one actor are calm where all are. -/
theorem calm_own {api : CounterApi} {ok : Mode → Prop} {s₀ s : Server} {log : List KvEvent}
    {key : String} (h : History (kvSystem api) ok s₀ log s)
    (htimeless : ∀ e ∈ log, e.pre.Timeless key) (who : Actor) : Calm key (ownEvents who log) :=
  ⟨fun e he => htimeless e (List.mem_of_mem_filter he),
    (history_ordered h).sublist List.filter_sublist⟩

/-- What a working backend leaves of a request. -/
theorem serve_ok_state {s s' : Server} {c c' : Option Consumer} {r : Req} {x : Resp r}
    (h : serve .ok s c r = some (x, s', c')) : s' = r.effect s := by
  cases r with
  | publish subject headers payload expected => exact (Prod.mk.inj (Prod.mk.inj (Option.some.inj h)).2).1.symm
  | purge subject keep => exact (Prod.mk.inj (Prod.mk.inj (Option.some.inj h)).2).1.symm
  | _ => exact (serve_state h).elim id id

section Rules

variable {api : CounterApi} {who : Actor} {key : String} {α : Type}
  {G : List KvEvent → Req → Prop} {Q : List KvEvent → Except ClusterError α → Prop}
  {tr : List KvEvent}

theorem works_getLast {subject : Bytes} {x : Resp (.getLast subject)} {s : Server}
    (h : Works api ⟨who, .getLast subject, x, s⟩) : x = Except.ok (s.bucket.last subject) := by
  obtain ⟨m, l, s', l', rfl, hserve⟩ := h
  exact (Prod.mk.inj (Option.some.inj hserve)).1.symm

theorem works_publish {subject : Bytes} {headers : HeaderMap} {payload : Bytes}
    {expected : Option Nat} {x : Resp (.publish subject headers payload expected)} {s : Server}
    (h : Works api ⟨who, .publish subject headers payload expected, x, s⟩) :
    x = Except.ok (s.publish subject headers payload expected).1 := by
  obtain ⟨m, l, s', l', rfl, hserve⟩ := h
  exact (Prod.mk.inj (Option.some.inj hserve)).1.symm

theorem works_systemTime {x : Resp .systemTime} {s : Server}
    (h : Works api ⟨who, .systemTime, x, s⟩) : x = s.clock := by
  obtain ⟨m, l, s', l', rfl, hserve⟩ := h
  exact (Prod.mk.inj (Option.some.inj hserve)).1.symm

/-- What is owed while the own events are calm is not owed any more once they
are not. -/
theorem abides_of_not_calm {p : Kv α} (h : ¬ Calm key tr) :
    p.Abides who (Works api) (fun tr r => Calm key tr → G tr r) (fun tr x => Calm key tr → Q tr x)
      tr := by
  induction p generalizing tr with
  | ret a => exact fun hc => absurd hc h
  | fail e => exact fun hc => absurd hc h
  | req r k ih => exact ⟨fun hc => absurd hc h, fun x s _ => ih x fun hc => h hc.tail⟩
  | spawn cap j k ih => exact ih h
  | join k ih => exact fun rs => ih rs h
  | tryJoin k ih => exact fun rs => ih rs h
  | stuck => trivial

/-- A publish of a record. -/
theorem abides_publishRecord {subject : Bytes} {headers : HeaderMap} {payload : Bytes}
    {expected : Option Nat} {f : PendingWrite → Kv α}
    (hG : G tr (.publish subject headers payload expected))
    (h : ∀ s : Server, (f (s.publish subject headers payload expected).1).Abides who (Works api) G Q
      (⟨who, .publish subject headers payload expected,
        Except.ok (s.publish subject headers payload expected).1, s⟩ :: tr)) :
    (publishRecord subject headers payload expected >>= f).Abides who (Works api) G Q tr := by
  refine ⟨hG, fun x s hx => ?_⟩
  obtain rfl := works_publish hx
  exact h s

/-- The index record behind a data record: it is stored, or there was one. -/
theorem abides_publishIndex {f : PendingWrite → Kv α}
    (hG : ∀ headers payload expected, G tr (.publish (indexKey key) headers payload expected))
    (h : ∀ ack revision e, indexDone ack = .ok revision →
      (∃ headers payload expected, e.req = .publish (indexKey key) headers payload expected) →
      (f ack).Abides who (Works api) G Q (e :: tr)) :
    (publishIndex key >>= f).Abides who (Works api) G Q tr := by
  refine abides_publishRecord (hG _ _ _) fun s => ?_
  rcases publish_cases s (indexKey key) [(expiresHeader, renderU64 ((none : Option UInt64).getD 0))]
    (encodeValue [] none) Expect.nothing.lastSequence with ⟨-, heq⟩ | ⟨-, heq⟩
  · rw [heq]
    exact h _ _ _ rfl ⟨_, _, _, rfl⟩
  · rw [heq]
    refine h _ none _ ?_ ⟨_, _, _, rfl⟩
    rw [indexDone, done_of_server]

/-- A read of a key whose value never expires tells what the key held when its
record was read. -/
theorem abides_slot {f : Slot → Kv α} (hG : Calm key tr → G tr (.getLast (encodeKey key)))
    (hclock : ∀ tr, Calm key tr → G tr .systemTime)
    (h : ∀ s tr', (tr' = readEvent who (encodeKey key) s :: tr ∨ ∃ t s',
        tr' = ⟨who, .systemTime, t, s'⟩ :: readEvent who (encodeKey key) s :: tr) →
      (f (s.slot key)).Abides who (Works api) (fun tr r => Calm key tr → G tr r)
        (fun tr x => Calm key tr → Q tr x) tr') :
    (slot (encodeKey key) key >>= f).Abides who (Works api) (fun tr r => Calm key tr → G tr r)
      (fun tr x => Calm key tr → Q tr x) tr := by
  rw [slot, bind_assoc]
  refine ⟨hG, fun x s hx => ?_⟩
  obtain rfl := works_getLast hx
  have hread := h s _ (.inl rfl)
  show (slotOf ((s.bucket.last (encodeKey key)).map Record.ofMessage) >>= f).Abides _ _ _ _
    (readEvent who (encodeKey key) s :: tr)
  cases hlast : s.bucket.last (encodeKey key) with
  | none =>
    have hslot : s.slot key = .empty := by
      rw [Server.slot, hlast]
      rfl
    rw [hslot] at hread
    exact hread
  | some m =>
    by_cases hop : Record.recordOperation m.body.headers = .put
    · rw [Option.map_some, slotOf_some, if_neg (fun h => h hop)]
      cases hexp : (decodeValue m.body.payload).2 with
      | none =>
        have hslot : s.slot key = .live (decodeValue m.body.payload).1 none m.seq := by
          rw [Server.slot, hlast, Option.map_some, ofRecord_some]
          simp [Record.ofMessage, hop, hexp, isExpiredAt]
        rw [hslot] at hread
        simpa [isExpired, Record.ofMessage, hexp] using hread
      | some secs =>
        by_cases hcalm : Calm key (readEvent who (encodeKey key) s :: tr)
        · -- the value never expires, so it is not live, and stays so
          have hdead : isExpiredAt s.now (some secs) = true := by
            by_contra hlive
            have hslot : s.slot key = .live (decodeValue m.body.payload).1 (some secs) m.seq := by
              rw [Server.slot, hlast, Option.map_some, ofRecord_some]
              simp [Record.ofMessage, hop, hexp, hlive]
            have := hcalm.timeless _ List.mem_cons_self _ _ _ hslot
            exact absurd this (by simp)
          have hslot : s.slot key = .dead m.seq := by
            rw [Server.slot, hlast, Option.map_some, ofRecord_some]
            simp [Record.ofMessage, hexp, hdead]
          simp only [Record.ofMessage, hexp, isExpired, bind_assoc]
          refine ⟨hclock _, fun t s' ht => ?_⟩
          obtain rfl := works_systemTime ht
          have hread' := h s _ (.inr ⟨s'.clock, s', rfl⟩)
          rw [hslot] at hread'
          by_cases hcalm' : Calm key (⟨who, .systemTime, s'.clock, s'⟩ ::
              readEvent who (encodeKey key) s :: tr)
          · have hle : s.now ≤ s'.now := (List.pairwise_cons.1 hcalm'.ordered).1 _ List.mem_cons_self
            have hdead' : isExpiredAt s'.now (some secs) = true := isExpiredAt_mono hle hdead
            show ((if isExpiredAt s'.now (some secs) = true then Prog.ret (Slot.dead m.seq)
              else Prog.ret (.live (decodeValue m.body.payload).1 (some secs) m.seq)) >>=
                f).Abides _ _ _ _ _
            rw [if_pos hdead']
            exact hread'
          · exact abides_of_not_calm hcalm'
        · exact abides_of_not_calm hcalm
    · have hslot : s.slot key = .dead m.seq := by
        rw [Server.slot, hlast, Option.map_some, ofRecord_some]
        simp [Record.ofMessage, hop]
      rw [hslot] at hread
      rw [Option.map_some, slotOf_some,
        if_pos (show (Record.ofMessage m).operation ≠ .put from hop)]
      exact hread

end Rules

end ClusterNats
