import ClusterNats.Kv.Owed

/-!
# Every live key is indexed

A listing reads the index, so a live key without an index record is one that no
listing shows.  A key is live and not indexed only while some call owes it the
record; what can go wrong is an expiry that passes inside a call, and a call
that is cut off while it owes.

* `Owing`, `Missing` — an actor owes a key its index record; a live key has none.
* `Timely` — no expiry passes unseen inside the call that takes the step.
* `Uncut` — the step cuts off no call that owes.
* `owing_step`, `run_owing` — what a step keeps, and what every run keeps.
* `live_indexed` — while the backend works, every live key is indexed once the
  calls are over.
* `live_indexed_after_failures` — and when it fails, if nothing that owes is cut
  off.
-/

namespace ClusterNats

open Conc

/-- What is left of `who`'s program owes `key` its index record. -/
def Owing (key : String) (w : KvWorld) (who : Actor) : Prop :=
  ∃ op α p, w.Runs op who α p ∧ Owes key who p (ownEvents who w.log)

/-- A live key misses its index record. -/
structure Missing (key : String) (w : KvWorld) : Prop where
  live : w.srv.Live key
  unindexed : ¬ w.srv.Indexed key

/-- No expiry passes unseen inside a call: where the key has no index record, no
call writes over a value that expired since it found it, and where a live key
misses its record, no call that owes it judges the record it read by a clock
that passed the record's expiry meanwhile. -/
structure Timely (key : String) (w : KvWorld) (c : KvChoice) : Prop where
  write : ∀ who m op α r k x, c = .act who m → w.Runs op who α (.req r k) → ¬ w.srv.Indexed key →
    InTime key op ⟨who, r, x, w.srv⟩ w.log
  read : ∀ who m s before, c = .act who m → Owing key w who → Missing key w →
    ownEvents who w.log = readEvent who (encodeKey key) s :: before → s.Live key →
    (s.asOf w.srv.clock).Live key

/-- The backend works; a stream of records may be idle or end. -/
inductive Mode.Works : Mode → Prop
  | ok : Works .ok
  | idle : Works .idle
  | ended : Works .ended

/-- The step cuts off no call that owes a live key its missing index record, and
loses no answer to the removal of a live key's index record. -/
structure Uncut (api : CounterApi) (key : String) (w : KvWorld) (c : KvChoice) : Prop where
  works : ∀ who m, c = .act who m → Owing key w who → Missing key w → m.Works
  answered : ∀ who reason op α keep k, c = .act who (.lost reason) → w.srv.Live key →
    ¬ w.Runs op who α (.req (.purge (indexKey key) keep) k)
  stays : ∀ who w', Owing key w who → Missing key w → World.step (kvSystem api) w c = some w' →
    ∃ op α p, w'.Runs op who α p

section Requests

variable {api : CounterApi} {key : String} {who : Actor} {m : Mode} {s s' : Server}
  {c c' : Option Consumer} {r : Req} {x : Resp r}

/-- A request of a backend that works, other than for the next record of a
stream, is answered in the one mode. -/
theorem Mode.Works.serve (hm : m.Works) (hr : r ≠ .nextRecord)
    (h : ClusterNats.serve m s c r = some (x, s', c')) :
    ClusterNats.serve .ok s c r = some (x, s', c') := by
  cases hm with
  | ok => exact h
  | _ => cases r <;> first | exact h | exact absurd rfl hr | exact nomatch h

/-- **A call that owes goes on owing**, or has paid, or found the key absent. -/
theorem owes_serve {α : Type} {k : Resp r → Kv α} {tr : List KvEvent}
    (h : Owes key who (.req r k) tr) (hm : m.Works)
    (hserve : serve m s c r = some (x, s', c'))
    (hread : ∀ s₁ before, tr = readEvent who (encodeKey key) s₁ :: before → s₁.Live key →
      (s₁.asOf s.clock).Live key) :
    s'.Indexed key ∨ ¬ s'.Live key ∨ Owes key who (k x) (⟨who, r, x, s⟩ :: tr) := by
  have hnext : r ≠ .nextRecord := by
    rintro rfl
    exact h
  have hok := hm.serve hnext hserve
  cases r with
  | publish subject headers payload expected =>
    obtain ⟨rfl, rfl⟩ := h
    obtain ⟨-, hrest⟩ := Prod.mk.inj (Option.some.inj hok)
    rw [← (Prod.mk.inj hrest).1]
    exact .inl (indexed_publish headers payload)
  | purge subject keep =>
    obtain rfl := (Prod.mk.inj (Option.some.inj hok)).1
    exact .inr (.inr (h s))
  | getLast subject =>
    obtain ⟨rfl, howes⟩ := h
    obtain ⟨hx, hrest⟩ := Prod.mk.inj (Option.some.inj hok)
    obtain rfl := (Prod.mk.inj hrest).1
    subst hx
    by_cases hlive : s.Live key
    · exact .inr (.inr (howes s hlive))
    · exact .inr (.inl hlive)
  | systemTime =>
    obtain ⟨s₁, before, rfl, hlive, howes⟩ := h
    obtain rfl := (Prod.mk.inj (Option.some.inj hok)).1
    exact .inr (.inr (howes s (hread s₁ before rfl hlive)))
  | _ => exact absurd h id

end Requests

section Steps

variable {api : CounterApi} {key : String} {w w' : KvWorld} {c : KvChoice} {who : Actor}

/-- A step that changes the bucket carries out a request. -/
theorem step_effect (hs : World.step (kvSystem api) w c = some w')
    (hne : w'.srv.bucket ≠ w.srv.bucket) :
    ∃ who m op α r k x l l', c = .act who m ∧ w.Runs op who α (.req r k) ∧
      serve m w.srv l r = some (x, r.effect w.srv, l') ∧ w'.srv = r.effect w.srv ∧
      w'.log = ⟨who, r, x, w.srv⟩ :: w.log ∧ w'.Runs op who α (k x) := by
  by_cases hc : ∃ who m, c = .act who m
  · obtain ⟨who, m, rfl⟩ := hc
    obtain ⟨op, α, p, hp⟩ := World.runs_of_act hs
    rcases hp.act hs with ⟨r, k, x, s, l, l', rfl, hserve, hsrv, hlog, hk⟩ | ⟨hsrv, -, -⟩
    · rcases serve_state hserve with rfl | rfl
      · exact absurd (congrArg Server.bucket hsrv) hne
      · exact ⟨who, m, op, α, r, k, x, l, l', rfl, hp, hserve, hsrv, hlog, hk⟩
    · exact absurd (congrArg Server.bucket hsrv) hne
  · obtain ⟨-, hsrv | ⟨v, hv⟩⟩ := World.step_idle (fun who m h => hc ⟨who, m, h⟩) hs
    · exact absurd (congrArg Server.bucket hsrv) hne
    · exact absurd (env_later hv).1 hne

/-- A call that owes goes on owing through a step that is not its own. -/
theorem Owing.forward (h : Owing key w who) (hs : World.step (kvSystem api) w c = some w')
    (hown : ∀ m, c ≠ .act who m) (hstays : ∃ op α p, w'.Runs op who α p) : Owing key w' who := by
  obtain ⟨op, α, p, hp, howes⟩ := h
  rcases hp.forward hs with ⟨hp', hevents⟩ | ⟨m, hc⟩ | hdone | hdropped
  · exact ⟨op, α, p, hp', by rwa [hevents]⟩
  · exact absurd hc (hown m)
  · cases p with
    | ret a => exact absurd howes id
    | fail e => exact absurd howes id
    | _ => exact absurd hdone (by simp [Prog.result?])
  · obtain ⟨op', β, q, hq⟩ := hstays
    exact absurd hq (hdropped.2 op' β q)

/-- A call that owes takes a step of its own. -/
theorem Owing.act {m : Mode} (h : Owing key w who)
    (hs : World.step (kvSystem api) w (.act who m) = some w') (hm : m.Works)
    (hread : ∀ s₁ before, ownEvents who w.log = readEvent who (encodeKey key) s₁ :: before →
      s₁.Live key → (s₁.asOf w.srv.clock).Live key) :
    w'.srv.Indexed key ∨ ¬ w'.srv.Live key ∨ Owing key w' who := by
  obtain ⟨op, α, p, hp, howes⟩ := h
  rcases hp.act hs with ⟨r, k, x, s, l, l', rfl, hserve, hsrv, hlog, hk⟩ | ⟨-, -, hreq⟩
  · rw [hsrv]
    refine (owes_serve howes hm hserve hread).imp_right (Or.imp_right fun howes' => ?_)
    refine ⟨op, α, k x, hk, ?_⟩
    rw [hlog, ownEvents_cons_self (e := (⟨who, r, x, w.srv⟩ : KvEvent)) rfl]
    exact howes'
  · cases p with
    | req r k => exact absurd rfl (hreq r k)
    | _ => exact absurd howes id

/-- What takes a key's index record is its removal. -/
theorem purge_of_unindexed {s : Server} {r : Req} (h : s.Indexed key)
    (h' : ¬ (r.effect s).Indexed key) : ∃ keep, r = .purge (indexKey key) keep := by
  have htouches : r.touches (indexKey key) = true := by
    by_contra hnot
    rw [Server.Indexed, effect_last_of_not_touches (Bool.not_eq_true _ ▸ hnot)] at h'
    exact h' h
  cases r with
  | publish subject headers payload expected =>
    obtain rfl : subject = indexKey key := by simpa [Req.touches] using htouches
    rcases publish_cases s (indexKey key) headers payload expected with ⟨-, heq⟩ | ⟨-, heq⟩
    · rw [Req.effect, heq, Server.Indexed, SubjectLog.last_store_self] at h'
      exact absurd rfl h'
    · rw [Req.effect, heq] at h'
      exact absurd h h'
  | purge subject keep =>
    obtain rfl : subject = indexKey key := by simpa [Req.touches] using htouches
    exact ⟨keep, rfl⟩
  | _ => exact absurd htouches (by simp [Req.touches])

/-- What makes an absent key present is a record of it. -/
theorem publish_of_begun {s : Server} {r : Req} (h : ¬ s.Live key) (h' : (r.effect s).Live key) :
    ∃ headers payload expected, r = .publish (encodeKey key) headers payload expected := by
  have hclock : (r.effect s).now = s.now := congrArg unixSecs (effect_clock _ _)
  have htouches : r.touches (encodeKey key) = true := by
    by_contra hnot
    have hlast := effect_last_of_not_touches (s := s) (Bool.not_eq_true _ ▸ hnot)
    rw [Server.Live, Server.slot_congr hlast hclock] at h'
    exact h h'
  cases r with
  | publish subject headers payload expected =>
    obtain rfl : subject = encodeKey key := by simpa [Req.touches] using htouches
    exact ⟨headers, payload, expected, rfl⟩
  | purge subject keep =>
    obtain rfl : subject = encodeKey key := by simpa [Req.touches] using htouches
    -- a removal leaves the record or none
    obtain ⟨value, exp, revision, hslot⟩ := Server.live_iff.1 h'
    obtain ⟨record, hrecord, hrest⟩ := Slot.ofRecord_eq_live.1 hslot
    obtain ⟨m, hm, rfl⟩ := Option.map_eq_some_iff.1 hrecord
    have hlast : s.bucket.last (encodeKey key) = some m := SubjectLog.last_of_last_purge hm
    rw [Server.live_iff_last hm, hclock, ← Server.live_iff_last hlast] at h'
    exact absurd h' h
  | _ => exact absurd htouches (by simp [Req.touches])

/-- **What is excused makes no absent key present**, when it is in time. -/
theorem dead_of_excused {s₀ s : Server} {log older : List KvEvent} {e : KvEvent} {op : Op}
    (h : History (kvSystem api) (fun _ => True) s₀ log s) (hsuf : (e :: older) <:+ log)
    (hexc : Excused key op e.who (ownEvents e.who older) e.req) (hdead : ¬ e.pre.Live key)
    (htime : InTime key op e older) : ¬ (e.req.effect e.pre).Live key := by
  intro hlive
  generalize hr : e.req = r at hexc hlive
  cases hexc with
  | marker => exact not_live_marker hlive
  | @found value exp revision headers payload hop hx =>
    rcases publish_cases e.pre (encodeKey key) headers payload (some revision) with
      ⟨hexp, -⟩ | ⟨-, heq⟩
    · refine hdead (live_of_found h hsuf hx (hexp revision rfl) hop ?_ htime)
      simp [hr, Req.touches]
    · exact hdead (by rwa [Req.effect, heq] at hlive)
  | @same s₁ m headers payload hread hm hput hpayload =>
    rcases publish_cases e.pre (encodeKey key) headers payload (some m.seq) with
      ⟨hexp, heq⟩ | ⟨-, heq⟩
    · -- the record is the one read, and it has expired
      obtain ⟨post, pre, hsplit⟩ := List.append_of_mem (mem_ownEvents.1 hread).1
      have hevolves := (history_since (history_before h hsuf)
        (show (readEvent e.who (encodeKey key) s₁ :: pre) <:+ older from hsplit ▸ List.suffix_append _ _)).1
      obtain ⟨m', hm', hseq⟩ := SubjectLog.last_of_lastSeqOf (hexp m.seq rfl)
        (Nat.pos_iff_ne_zero.1 (SubjectLog.seq_pos_of_last hm))
      obtain rfl : m' = m := hevolves.eq_of_seq hm hm' hseq
      have hexpired := Server.expired_of_not_live hm' hput hdead
      rw [Req.effect, heq] at hlive
      rw [Server.live_iff_last SubjectLog.last_store_self, hpayload] at hlive
      exact absurd (hlive.2.symm.trans hexpired) (by simp)
    · exact hdead (by rwa [Req.effect, heq] at hlive)

end Steps

/-! ## Every run -/

section Runs

variable {api : CounterApi} {key : String} {s₀ : Server} {cs : List KvChoice} {w w' : KvWorld}
  {c : KvChoice}

variable (key) in
/-- **Every strand of every run pays.** -/
theorem run_pays (hcs : ∀ c ∈ cs, Admits (fun _ => True) Op.SweepOrSimple c)
    (hrun : World.run (kvSystem api) (KvWorld.start s₀) cs = some w) {op : Op} {who : Actor}
    {α : Type} {p : Kv α} (hp : w.Runs op who α p) :
    Pays api key op who p (ownEvents who w.log) := by
  have hcarried : World.Carried (kvSystem api) (Answers api)
      fun op who _ p tr => op.SweepOrSimple → Pays api key op who p tr :=
    { req := fun h hok hop => (h hop _ _ hok).2
      spawn := fun h hop => h hop
      join := fun h rs hop => h hop rs
      tryJoin := fun h rs hop => h hop rs
      call := fun hcall t tr hop => by
        cases Option.some.inj hcall
        exact pays_op api hop
      job := fun op t i j tr _ => pays_job j }
  obtain ⟨th, hth, rfl⟩ := hp.thread
  have hop : th.op.SweepOrSimple := World.run_ops (fun _ hc => hcs _ hc) hrun hth
  exact World.run_carried (fun _ => True) hcarried (fun _ h => h) (fun c hc => (hcs c hc).modeOk)
    hrun hp hop

/-- **What a step keeps.**  While a live key misses its index record, a call owes
it. -/
theorem owing_step (hcs : ∀ c ∈ cs, Admits (fun _ => True) Op.SweepOrSimple c)
    (hrun : World.run (kvSystem api) (KvWorld.start s₀) cs = some w)
    (hs : World.step (kvSystem api) w c = some w') (htimely : Timely key w c)
    (huncut : Uncut api key w c) (h : Missing key w → ∃ who, Owing key w who)
    (hmissing : Missing key w') : ∃ who, Owing key w' who := by
  by_cases hbefore : Missing key w
  · obtain ⟨who, howing⟩ := h hbefore
    by_cases hown : ∃ m, c = .act who m
    · obtain ⟨m, rfl⟩ := hown
      rcases howing.act hs (huncut.works who m rfl howing hbefore) fun s₁ before htr =>
        htimely.read who m s₁ before rfl howing hbefore htr with hindexed | hdead | howing'
      · exact absurd hindexed hmissing.unindexed
      · exact absurd hmissing.live hdead
      · exact ⟨who, howing'⟩
    · refine ⟨who, howing.forward hs (fun m hc => hown ⟨m, hc⟩) ?_⟩
      exact huncut.stays who w' howing hbefore hs
  · have hmode : ∀ c : KvChoice, World.ModeOk (fun _ => True) c := fun c => by cases c <;> trivial
    obtain ⟨new, -, hnew⟩ := World.step_since (hmode c) hs
    have hne : w'.srv.bucket ≠ w.srv.bucket := by
      intro heq
      -- time makes nothing live
      obtain ⟨value, exp, revision, hslot⟩ := Server.live_iff.1 hmissing.live
      rw [Server.slot, heq] at hslot
      refine hbefore ⟨Server.live_iff.2 ⟨value, exp, revision, ?_⟩, ?_⟩
      · exact Slot.ofRecord_live_mono (history_later hnew).2 hslot
      · have hunindexed := hmissing.unindexed
        rwa [Server.Indexed, heq] at hunindexed
    obtain ⟨who, m, op, α, r, k, x, l, l', rfl, hp, hserve, hsrv, hlog, hk⟩ := step_effect hs hne
    have hcharge := (run_pays key hcs hrun hp x w.srv ⟨m, l, _, l', trivial, hserve⟩).1
    suffices howes : Owes key who (k x) (⟨who, r, x, w.srv⟩ :: ownEvents who w.log) by
      refine ⟨who, op, α, k x, hk, ?_⟩
      rw [hlog, ownEvents_cons_self (e := (⟨who, r, x, w.srv⟩ : KvEvent)) rfl]
      exact howes
    have hlive' := hsrv ▸ hmissing.live
    have hunindexed' := hsrv ▸ hmissing.unindexed
    by_cases hlive : w.srv.Live key
    · -- the step took the index record of a live key
      have hindexed : w.srv.Indexed key := by_contra fun hnot => hbefore ⟨hlive, hnot⟩
      obtain ⟨keep, rfl⟩ := purge_of_unindexed hindexed hunindexed'
      have hx : x = Except.ok () := by
        cases m with
        | ok => exact (Prod.mk.inj (Option.some.inj hserve)).1.symm
        | lost reason => exact absurd hp (huncut.answered who reason op α keep k rfl hlive)
        | fail reason =>
          have hsame := (Prod.mk.inj (Prod.mk.inj (Option.some.inj hserve)).2).1
          exact absurd (hsame ▸ hindexed) hunindexed'
        | _ => exact absurd hserve (by simp [serve])
      rcases hcharge ⟨rfl, hx⟩ with hexc | howes
      · cases hexc
      · exact howes
    · -- the step made the key present
      obtain ⟨headers, payload, expected, rfl⟩ := publish_of_begun hlive hlive'
      have hx : ∃ ack, x = Except.ok ack := by
        cases m with
        | ok => exact ⟨_, (Prod.mk.inj (Option.some.inj hserve)).1.symm⟩
        | lost reason => exact ⟨_, (Prod.mk.inj (Option.some.inj hserve)).1.symm⟩
        | fail reason => exact ⟨_, (Prod.mk.inj (Option.some.inj hserve)).1.symm⟩
        | unsent reason =>
          have hsame := (Prod.mk.inj (Prod.mk.inj (Option.some.inj hserve)).2).1
          exact absurd (hsame ▸ hlive') hlive
        | _ => exact absurd hserve (by simp [serve])
      rcases hcharge ⟨rfl, hx⟩ with hexc | howes
      · have hunindexed : ¬ w.srv.Indexed key := by
          rw [Server.Indexed, effect_last_of_not_touches (by simp [Req.touches, encodeKey_ne_indexKey])]
            at hunindexed'
          exact hunindexed'
        have htime := htimely.write who m op α _ k x rfl hp hunindexed
        have hrun' : World.run (kvSystem api) (KvWorld.start s₀) (cs ++ [.act who m]) = some w' := by
          rw [World.run_concat, hrun]
          exact hs
        have hhistory : History (kvSystem api) (fun _ => True) s₀ w'.log w'.srv :=
          World.start_history (fun c _ => hmode c) hrun'
        have hsuf : (⟨who, .publish (encodeKey key) headers payload expected, x, w.srv⟩ :: w.log :
            List KvEvent) <:+ w'.log := by simp [hlog]
        exact absurd hlive' (dead_of_excused hhistory hsuf hexc hlive htime)
      · exact howes

/-- **What every run keeps.**  In a run in which no expiry passes unseen inside a
call, and which cuts off no call that owes, a call owes every live key that
misses its index record. -/
theorem run_owing (hcs : ∀ c ∈ cs, Admits (fun _ => True) Op.SweepOrSimple c)
    (hrun : World.run (kvSystem api) (KvWorld.start s₀) cs = some w)
    (h₀ : s₀.Live key → s₀.Indexed key)
    (heach : World.Each (kvSystem api) (fun w c => Timely key w c ∧ Uncut api key w c)
      (KvWorld.start s₀) cs) (hmissing : Missing key w) : ∃ who, Owing key w who := by
  have hinv : (∃ ds, (∀ c ∈ ds, Admits (fun _ => True) Op.SweepOrSimple c) ∧
      World.run (kvSystem api) (KvWorld.start s₀) ds = some w) ∧
        (Missing key w → ∃ who, Owing key w who) := by
    refine World.run_each (I := fun w => (∃ ds, (∀ c ∈ ds, Admits (fun _ => True) Op.SweepOrSimple c) ∧
      World.run (kvSystem api) (KvWorld.start s₀) ds = some w) ∧
        (Missing key w → ∃ who, Owing key w who)) ?_ hrun heach ?_
    · exact ⟨⟨[], by simp, rfl⟩, fun hm => absurd (h₀ hm.live) hm.unindexed⟩
    · rintro w₁ c w₂ hc ⟨htimely, huncut⟩ ⟨⟨ds, hds, hrun₁⟩, howing⟩ hs
      refine ⟨⟨ds ++ [c], ?_, ?_⟩, owing_step hds hrun₁ hs htimely huncut howing⟩
      · intro d hd
        rcases List.mem_append.1 hd with hd | hd
        · exact hds d hd
        · exact List.mem_singleton.1 hd ▸ hcs c hc
      · rw [World.run_concat, hrun₁]
        exact hs
  exact hinv.2 hmissing

end Runs

/-! ## While the backend works -/

section Returns

variable {api : CounterApi} {who : Actor} {α β : Type} {tr : List KvEvent}

/-- A program that returns while the backend works, and reads no stream. -/
abbrev Returns (api : CounterApi) (who : Actor) (p : Kv α) (tr : List KvEvent) : Prop :=
  p.Abides who (Works api) (fun _ r => r ≠ .nextRecord) (fun _ x => ∃ a, x = .ok a) tr

theorem Returns.bind {p : Kv α} {f : α → Kv β} (h : Returns api who p tr)
    (hf : ∀ a tr, Returns api who (f a) tr) : Returns api who (p >>= f) tr := by
  refine Prog.Abides.bind h (fun tr a _ => hf a tr) ?_
  rintro tr e ⟨a, ha⟩
  exact absurd ha (by simp)

theorem Returns.map {p : Kv α} {f : α → β} (h : Returns api who p tr) :
    Returns api who (f <$> p) tr := h.bind fun a _ => ⟨f a, rfl⟩

theorem returns_purge {subject : Bytes} {keep : Option Nat} {describe : String → String} :
    Returns api who (Prog.req (.purge subject keep) fun (x : Except String Unit) =>
      orUnavailable describe x) tr := by
  refine ⟨by simp, fun x s hx => ?_⟩
  obtain ⟨m, l, s', l', rfl, hserve⟩ := hx
  obtain rfl := (Prod.mk.inj (Option.some.inj hserve)).1
  exact ⟨(), rfl⟩

theorem returns_lastRecord {encoded : Bytes} {f : Except String (Option Record) → Kv α}
    (h : ∀ o tr, Returns api who (f (.ok o)) tr) : Returns api who (lastRecord encoded >>= f) tr := by
  refine ⟨by simp, fun x s hx => ?_⟩
  obtain rfl := works_getLast hx
  exact h _ _

theorem returns_isExpired (exp : Option UInt64) : Returns api who (isExpired exp) tr := by
  cases exp with
  | none => exact ⟨_, rfl⟩
  | some secs => exact ⟨by simp, fun x s _ => ⟨_, rfl⟩⟩

theorem returns_slot (encoded : Bytes) (key : String) : Returns api who (slot encoded key) tr := by
  refine returns_lastRecord fun o tr' => ?_
  cases o with
  | none => exact ⟨_, rfl⟩
  | some record =>
    show Returns api who (slotOf (some record)) tr'
    rw [slotOf_some]
    split
    · exact ⟨_, rfl⟩
    · refine (returns_isExpired _).bind fun expired tr₂ => ?_
      split <;> exact ⟨_, rfl⟩

theorem returns_writeIndex (key : String) : Returns api who (writeIndex key) tr := by
  refine abides_publishIndex (fun _ _ _ => by simp) fun ack revision e hdone _ => ?_
  rw [hdone]
  exact ⟨_, rfl⟩

theorem returns_reindexIfLive (key : String) : Returns api who (reindexIfLive key) tr := by
  refine (returns_slot _ key).bind fun x tr' => ?_
  cases x with
  | live value exp revision => exact returns_writeIndex key
  | _ => exact ⟨_, rfl⟩

theorem returns_removeDead (subject : Bytes) (n : Nat) :
    Returns api who (removeDead subject n) tr := by
  unfold removeDead
  split
  · refine Returns.bind returns_purge fun _ tr' => ?_
    split
    · exact returns_reindexIfLive _
    · exact ⟨_, rfl⟩
  · split
    · exact returns_purge
    · refine Returns.bind returns_purge fun _ tr' => ?_
      exact Returns.bind returns_purge fun _ tr'' => returns_reindexIfLive _

/-- A write returns, or reports a conflict. -/
theorem returns_write {encoded value : Bytes} {exp : Option UInt64} {expect : Expect}
    {f : Except WriteError Nat → Kv α} (hok : ∀ n tr, Returns api who (f (.ok n)) tr)
    (hconflict : ∀ tr, Returns api who (f (.error .conflict)) tr) :
    Returns api who (write encoded value exp expect >>= f) tr := by
  refine ⟨by simp, fun x s hx => ?_⟩
  obtain rfl := works_publish hx
  rcases publish_cases s encoded [(expiresHeader, renderU64 (exp.getD 0))] (encodeValue value exp)
    expect.lastSequence with ⟨-, heq⟩ | ⟨-, heq⟩
  · rw [heq]
    exact hok _ _
  · rw [heq]
    show Returns api who (f (PendingWrite.done _)) _
    rw [done_of_server]
    exact hconflict _

theorem returns_settleLegacy (encoded : Bytes) (n : Nat) :
    Returns api who (settleLegacy encoded n) tr := by
  refine returns_lastRecord fun o tr' => ?_
  simp only [orUnavailable, Prog.ofExcept_ok, Prog.ret_bind]
  split
  · exact ⟨_, rfl⟩
  · refine (returns_isExpired _).bind fun expired tr₂ => ?_
    split
    · exact (returns_removeDead encoded n).bind fun _ _ => ⟨_, rfl⟩
    · refine returns_write (fun _ tr₃ => ?_) fun tr₃ => ⟨_, rfl⟩
      dsimp only
      split
      · exact (returns_writeIndex _).bind fun _ _ => ⟨_, rfl⟩
      · exact ⟨_, rfl⟩

/-- **While the backend works, a job that ends has returned.** -/
theorem returns_job (j : Job) : Returns api who j.program tr := by
  cases j with
  | removeDead subject n => exact (returns_removeDead subject n).map
  | settleLegacy encoded n => exact (returns_settleLegacy encoded n).map
  | liveEntry key =>
    refine Returns.map ((returns_slot _ key).bind fun x tr' => ?_)
    cases x with
    | live value exp revision =>
      dsimp only [entryOf]
      split
      · exact ⟨_, rfl⟩
      · trivial
    | _ => exact ⟨_, rfl⟩

end Returns

section Working

variable {api : CounterApi} {key : String} {s₀ : Server} {cs : List KvChoice} {w w' : KvWorld}
  {c : KvChoice}

/-- While the backend works, no job fails. -/
theorem run_returns (hcs : ∀ c ∈ cs, Admits Mode.Works Op.SweepOrSimple c)
    (hrun : World.run (kvSystem api) (KvWorld.start s₀) cs = some w) {op : Op} {t i : Nat}
    {p : Kv Done} (hp : w.Runs op (.job t i) Done p) (e : ClusterError) : p.error? ≠ some e := by
  have hcarried : World.Carried (kvSystem api) (fun e : KvEvent => e.req ≠ .nextRecord → Works api e)
      fun _ who _ p tr => (∃ t i, who = .job t i) → Returns api who p tr :=
    { req := fun h hok hjob => (h hjob).2 _ _ (hok (h hjob).1)
      spawn := fun h hjob => h hjob
      join := fun h rs hjob => h hjob rs
      tryJoin := fun h rs hjob => h hjob rs
      call := fun _ t tr ⟨t', i, hjob⟩ => absurd hjob (by simp)
      job := fun op t i j tr _ => returns_job j }
  have hreturns := World.run_carried Mode.Works hcarried ?_ (fun c hc => (hcs c hc).modeOk) hrun hp
    ⟨t, i, rfl⟩
  · cases p with
    | fail e' =>
      obtain ⟨a, ha⟩ := hreturns
      exact absurd ha (by simp)
    | _ => simp [Prog.error?]
  · rintro e ⟨m, l, s', l', hm, hserve⟩ hreq
    exact ⟨.ok, l, s', l', rfl, hm.serve hreq hserve⟩

/-- Where no job has failed, a step cuts off no call that owes, if the backend works
for it or fails a call that does not owe. -/
theorem uncut_of_unfailed
    (hjobs : ∀ (op : Op) (t i : Nat) (p : Kv Done), w.Runs op (.job t i) Done p → ∀ e, p.error? ≠ some e)
    (hmode : ∀ who m, c = .act who m → m.Works ∨ ¬ Owing key w who ∧ ∀ reason, m ≠ .lost reason) :
    Uncut api key w c where
  works := by
    rintro who m rfl howing -
    exact (hmode who m rfl).resolve_right fun h => h.1 howing
  answered := by
    rintro who reason op α keep k rfl
    rcases hmode who _ rfl with hworks | ⟨-, hlost⟩
    · exact nomatch hworks
    · exact absurd rfl (hlost reason)
  stays := by
    rintro who w' ⟨op, α, p, hp, howes⟩ - hs
    rcases hp.forward hs with ⟨hp', -⟩ | ⟨m, rfl⟩ | hdone | ⟨⟨i, q, e, hq, he⟩, -⟩
    · exact ⟨op, α, p, hp'⟩
    · rcases hp.act hs with ⟨r, k, x, s, l, l', -, -, -, -, hk⟩ | ⟨-, -, hreq⟩
      · exact ⟨op, α, k x, hk⟩
      · cases p with
        | req r k => exact absurd rfl (hreq r k)
        | _ => exact absurd howes id
    · cases p with
      | ret a => exact absurd howes id
      | fail e => exact absurd howes id
      | _ => exact absurd hdone (by simp [Prog.result?])
    · exact absurd he (hjobs _ _ _ q hq e)

/-- While the backend works, no step cuts off a call that owes. -/
theorem uncut_of_works (hcs : ∀ c ∈ cs, Admits Mode.Works Op.SweepOrSimple c)
    (hrun : World.run (kvSystem api) (KvWorld.start s₀) cs = some w)
    (hc : Admits Mode.Works Op.SweepOrSimple c) : Uncut api key w c := by
  refine uncut_of_unfailed (fun op t i p hp e => run_returns hcs hrun hp e) ?_
  rintro who m rfl
  exact .inl hc

/-- A quiet world owes nothing. -/
theorem not_owing_of_quiet (h : w.Quiet) (who : Actor) : ¬ Owing key w who := by
  rintro ⟨op, α, p, hp, howes⟩
  have hdone := h.done hp
  cases p with
  | ret a => exact howes
  | fail e => exact howes
  | _ => exact absurd hdone (by simp [Prog.result?])

end Working

/-- **Every live key is indexed.**  From a bucket in which the key is indexed if
it is live, any calls on single keys, sweeps and backfills run to completion
while the backend works, and no expiry passes unseen inside one of them: then the
key is indexed if it is live. -/
theorem live_indexed (api : CounterApi) (s₀ : Server) (cs : List KvChoice)
    (hcs : ∀ c ∈ cs, Admits Mode.Works Op.SweepOrSimple c) (w : KvWorld)
    (hrun : World.run (kvSystem api) (KvWorld.start s₀) cs = some w) (key : String)
    (h₀ : s₀.Live key → s₀.Indexed key)
    (htimely : World.Each (kvSystem api) (Timely key) (KvWorld.start s₀) cs) (hquiet : w.Quiet)
    (hlive : w.srv.Live key) : w.srv.Indexed key := by
  have hany : ∀ c ∈ cs, Admits (fun _ => True) Op.SweepOrSimple c := by
    intro c hc
    have hadmits := hcs c hc
    cases c with
    | start op => exact hadmits
    | _ => trivial
  have huncut : World.Each (kvSystem api) (Uncut api key) (KvWorld.start s₀) cs := by
    refine World.each_of_invariant (I := fun w => ∃ ds, (∀ c ∈ ds, Admits Mode.Works Op.SweepOrSimple c) ∧
      World.run (kvSystem api) (KvWorld.start s₀) ds = some w) ⟨[], by simp, rfl⟩ ?_ ?_
    · rintro w₁ c hc ⟨ds, hds, hrun₁⟩
      exact uncut_of_works hds hrun₁ (hcs c hc)
    · rintro w₁ c w₂ hc ⟨ds, hds, hrun₁⟩ hs
      refine ⟨ds ++ [c], fun d hd => ?_, ?_⟩
      · rcases List.mem_append.1 hd with hd | hd
        · exact hds d hd
        · exact List.mem_singleton.1 hd ▸ hcs c hc
      · rw [World.run_concat, hrun₁]
        exact hs
  by_contra hunindexed
  obtain ⟨who, howing⟩ := run_owing hany hrun h₀ (htimely.and huncut) ⟨hlive, hunindexed⟩
  exact not_owing_of_quiet hquiet who howing

/-! ## While no time passes -/

section Still

variable {api : CounterApi} {key : String} {s₀ : Server} {cs : List KvChoice} {w w' : KvWorld}
  {c : KvChoice}

/-- The clock is where it was at every request. -/
def Still (w : KvWorld) : Prop := ∀ e ∈ w.log, e.pre.clock = w.srv.clock

/-- Where the clock stood still, no expiry passed. -/
theorem Still.timely (h : Still w) (c : KvChoice) : Timely key w c where
  write := by
    rintro who m op α r k x rfl hp - hop htouches s s' before hevents hlive hlast
    have hclock' : s'.clock = w.srv.clock :=
      h _ (List.mem_of_mem_filter (hevents.subset List.mem_cons_self))
    exact Server.live_congr hlast hclock'.symm hlive
  read := by
    rintro who m s before rfl - - hevents hlive
    have hclock : s.clock = w.srv.clock :=
      h (readEvent who (encodeKey key) s) (List.mem_of_mem_filter (hevents ▸ List.mem_cons_self))
    rwa [← hclock]

/-- A step that is no tick leaves the clock. -/
theorem Still.step (h : Still w) (hc : ∀ t, c ≠ .env (.tick t))
    (hs : World.step (kvSystem api) w c = some w') : Still w' := by
  by_cases hact : ∃ who m, c = .act who m
  · obtain ⟨who, m, rfl⟩ := hact
    obtain ⟨op, α, p, hp⟩ := World.runs_of_act hs
    rcases hp.act hs with ⟨r, k, x, s, l, l', -, hserve, hsrv, hlog, -⟩ | ⟨hsrv, hlog, -⟩
    · have hclock : w'.srv.clock = w.srv.clock := by
        rw [hsrv]
        rcases serve_state hserve with rfl | rfl
        · rfl
        · exact effect_clock _ _
      intro e he
      rw [hclock]
      rw [hlog] at he
      rcases List.mem_cons.1 he with rfl | he
      · rfl
      · exact h e he
    · rwa [Still, hsrv, hlog]
  · obtain ⟨hlog, hsrv⟩ := World.step_idle (fun who m heq => hact ⟨who, m, heq⟩) hs
    rcases hsrv with hsrv | ⟨v, hv⟩
    · rwa [Still, hsrv, hlog]
    · cases c with
      | env v' =>
        obtain ⟨s, hv', rfl⟩ := World.step_env hs
        cases v' with
        | tick t => exact absurd rfl (hc t)
        | setIndexReady ready =>
          obtain rfl := Option.some.inj hv'
          exact h
      | start op =>
        obtain ⟨p, -, rfl⟩ := World.step_start hs
        exact h
      | deliver t =>
        obtain ⟨th, l, -, -, rfl⟩ := World.step_deliver hs
        exact h
      | act who m => exact absurd ⟨who, m, rfl⟩ hact

/-- While no time passes, no expiry does. -/
theorem each_timely (hcs : ∀ c ∈ cs, ∀ t, c ≠ .env (.tick t)) :
    World.Each (kvSystem api) (Timely key) (KvWorld.start s₀) cs := by
  have h₀ : Still (KvWorld.start s₀) := fun e he => absurd he (by simp [KvWorld.start])
  exact World.each_of_invariant h₀ (fun w c _ hw => hw.timely c)
    fun w c w' hc hw hs => hw.step (hcs c hc) hs

end Still

/-- The calls that write, and the sweep. -/
def Op.Writes : Op → Prop
  | .put .. => True
  | .putIfAbsent .. => True
  | .delete _ => True
  | .expire .. => True
  | .updateCounter .. => True
  | .sweep .. => True
  | _ => False

/-- A put overtakes the removal of the record it replaces; the removal takes the
key's index record and reads the key again. -/
def putDuringRemoval : List KvChoice :=
  [.start (.sweep ⟨false⟩ (.fromSecs 60) 2), .act (.main 0) .ok, .act (.main 0) .ok,
    .act (.main 0) .ok, .deliver 0, .act (.main 0) .ok, .act (.main 0) .ok,
    .start (.put "k" [2] (some (.fromSecs 3))), .act (.main 1) .ok, .act (.main 1) .ok,
    .act (.main 1) .ok, .act (.job 0 0) .ok, .act (.job 0 0) .ok, .act (.job 0 0) .ok]

/-- The removal restores the index record. -/
def thenRestored : List KvChoice :=
  putDuringRemoval ++
    [.act (.job 0 0) .ok, .act (.job 0 0) .ok, .act (.main 0) .ok, .act (.main 0) .ok]

theorem live_indexed_restored :
    ∃ w ∈ World.run (kvSystem decimalCounters) (KvWorld.start expiredServer) thenRestored,
      w.srv.Live "k" ∧ w.srv.Indexed "k" := by
  have hrun : ∃ w ∈ World.run (kvSystem decimalCounters) (KvWorld.start expiredServer) thenRestored,
      w.Quiet ∧ w.srv.Live "k" := by decide +kernel
  obtain ⟨w, hw, hquiet, hlive⟩ := hrun
  refine ⟨w, hw, hlive, live_indexed decimalCounters expiredServer thenRestored ?_ w hw "k" ?_ ?_
    hquiet hlive⟩
  · intro c hc
    simp only [thenRestored, putDuringRemoval, List.mem_append, List.mem_cons, List.not_mem_nil,
      or_false] at hc
    rcases hc with (rfl | rfl | rfl | rfl | rfl | rfl | rfl | rfl | rfl | rfl | rfl | rfl | rfl | rfl) |
      rfl | rfl | rfl | rfl
    all_goals first | exact Mode.Works.ok | exact .inl rfl | exact .inr trivial | trivial
  · exact fun hlive => absurd hlive (expiredServer_not_live "k")
  · refine each_timely fun c hc t heq => ?_
    subst heq
    simp [thenRestored, putDuringRemoval] at hc

/-- An expire stores the value without an expiry after the removal read it, and
the clock passes the expiry read. -/
def thenMisjudged : List KvChoice :=
  putDuringRemoval ++
    [.start (.expire "k" none), .act (.main 2) .ok, .act (.main 2) .ok, .act (.main 2) .ok,
      .env (.tick 13000000000), .act (.job 0 0) .ok, .act (.main 0) .ok, .act (.main 0) .ok]

/-- A removal that judges the record it read by a later clock leaves a live key
without an index record. -/
theorem live_indexed_misjudged : ¬ ∀ (api : CounterApi) (s₀ : Server),
    (∀ key, s₀.Live key → s₀.Indexed key) → ∀ cs : List KvChoice,
    (∀ c ∈ cs, Admits (· = .ok) Op.Writes c) → ∀ w : KvWorld,
    World.run (kvSystem api) (KvWorld.start s₀) cs = some w → w.Quiet →
    ∀ key, w.srv.Live key → w.srv.Indexed key := by
  intro h
  have hrun : ∃ w ∈ World.run (kvSystem decimalCounters) (KvWorld.start expiredServer) thenMisjudged,
      w.Quiet ∧ w.srv.Live "k" ∧ ¬ w.srv.Indexed "k" := by decide +kernel
  obtain ⟨w, hw, hquiet, hlive, hunindexed⟩ := hrun
  refine hunindexed (h decimalCounters expiredServer ?_ thenMisjudged ?_ w hw hquiet "k" hlive)
  · exact fun key hlive => absurd hlive (expiredServer_not_live key)
  · intro c hc
    simp only [thenMisjudged, putDuringRemoval, List.mem_append, List.mem_cons, List.not_mem_nil,
      or_false] at hc
    rcases hc with (rfl | rfl | rfl | rfl | rfl | rfl | rfl | rfl | rfl | rfl | rfl | rfl | rfl | rfl) |
      rfl | rfl | rfl | rfl | rfl | rfl | rfl | rfl
    all_goals first | rfl | trivial

/-! ## When the backend fails -/

/-- **A failed sweep leaves every live key indexed**, unless a call is cut off
while it owes the key its index record.  Whatever the backend does, and whichever
calls take no more steps: when none that is left owes the key its record, the key
is indexed if it is live. -/
theorem live_indexed_after_failures (api : CounterApi) (s₀ : Server) (cs : List KvChoice)
    (hcs : ∀ c ∈ cs, Admits (fun _ => True) Op.SweepOrSimple c) (w : KvWorld)
    (hrun : World.run (kvSystem api) (KvWorld.start s₀) cs = some w) (key : String)
    (h₀ : s₀.Live key → s₀.Indexed key)
    (hkept : World.Each (kvSystem api) (fun w c => Timely key w c ∧ Uncut api key w c)
      (KvWorld.start s₀) cs) (hleft : ∀ who, ¬ Owing key w who) (hlive : w.srv.Live key) :
    w.srv.Indexed key := by
  by_contra hunindexed
  obtain ⟨who, howing⟩ := run_owing hcs hrun h₀ hkept ⟨hlive, hunindexed⟩
  exact hleft who howing

/-- A sweep whose removal fails at once; a later one, whose removal takes the index
record that a put wrote meanwhile, and restores it after a third sweep failed. -/
def failedThenRestored : List KvChoice :=
  [.start (.sweep ⟨false⟩ (.fromSecs 60) 2), .act (.main 0) .ok, .act (.main 0) .ok,
    .act (.main 0) .ok, .deliver 0, .act (.main 0) .ok, .act (.main 0) .ok,
    .act (.job 0 0) (.fail "timeout"), .act (.main 0) .ok,
    .start (.sweep ⟨false⟩ (.fromSecs 60) 2), .act (.main 1) .ok, .act (.main 1) .ok,
    .act (.main 1) .ok, .deliver 1, .act (.main 1) .ok, .act (.main 1) .ok,
    .start (.put "k" [2] none), .act (.main 2) .ok, .act (.main 2) .ok, .act (.job 1 0) .ok,
    .start (.sweep ⟨false⟩ (.fromSecs 60) 2), .act (.main 3) (.fail "timeout"),
    .act (.job 1 0) .ok, .act (.job 1 0) .ok, .act (.job 1 0) .ok,
    .act (.main 1) .ok, .act (.main 1) .ok]

/-- The program is about to open a consumer. -/
def Opens {α : Type} : Kv α → Bool
  | .req (.createConsumer ..) _ => true
  | _ => false

/-- A failure meets no call but one that is about to open its consumer. -/
def Spares (w : KvWorld) : KvChoice → Bool
  | .act _ .ok => true
  | .act (.main t) (.fail _) => w.threads[t]?.all fun th => Opens th.main
  | .act .. => false
  | _ => true

theorem Spares.mode {w : KvWorld} {c : KvChoice} {key : String} (h : Spares w c = true) (who : Actor)
    (m : Mode) (heq : c = .act who m) :
    m.Works ∨ ¬ Owing key w who ∧ ∀ reason, m ≠ .lost reason := by
  subst heq
  cases m with
  | ok => exact .inl .ok
  | fail e =>
    cases who with
    | main t =>
      refine .inr ⟨?_, by simp⟩
      rintro ⟨op, α, p, hp, howes⟩
      cases hp with
      | main hth =>
        simp only [Spares, hth, Option.all_some] at h
        unfold Opens at h
        split at h
        · rename_i heq
          rw [heq] at howes
          exact howes
        · exact absurd h (by simp)
    | job t i => exact absurd h (by simp [Spares])
  | _ => exact absurd h (by simp [Spares])

theorem live_indexed_after_failures_put :
    (∃ w ∈ World.run (kvSystem decimalCounters) (KvWorld.start expiredServer)
      (failedThenRestored.take 22), Missing "k" w) ∧
    ∃ w ∈ World.run (kvSystem decimalCounters) (KvWorld.start expiredServer) failedThenRestored,
      w.srv.Live "k" ∧ w.srv.Indexed "k" := by
  have hbefore : ∃ w ∈ World.run (kvSystem decimalCounters) (KvWorld.start expiredServer)
      (failedThenRestored.take 22), w.srv.Live "k" ∧ ¬ w.srv.Indexed "k" := by decide +kernel
  obtain ⟨w₁, hw₁, hlive₁, hunindexed₁⟩ := hbefore
  refine ⟨⟨w₁, hw₁, hlive₁, hunindexed₁⟩, ?_⟩
  have hrun : ∃ w ∈ World.run (kvSystem decimalCounters) (KvWorld.start expiredServer)
      failedThenRestored, w.Quiet ∧ w.srv.Live "k" := by decide +kernel
  obtain ⟨w, hw, hquiet, hlive⟩ := hrun
  refine ⟨w, hw, hlive, live_indexed_after_failures decimalCounters expiredServer failedThenRestored ?_
    w hw "k" (fun hlive => absurd hlive (expiredServer_not_live "k")) ?_ (not_owing_of_quiet hquiet) hlive⟩
  · intro c hc
    simp only [failedThenRestored, List.mem_cons, List.not_mem_nil, or_false] at hc
    rcases hc with rfl | rfl | rfl | rfl | rfl | rfl | rfl | rfl | rfl | rfl | rfl | rfl | rfl | rfl |
      rfl | rfl | rfl | rfl | rfl | rfl | rfl | rfl | rfl | rfl | rfl | rfl | rfl
    all_goals first | exact .inl rfl | exact .inr trivial | trivial
  · have htimely : World.Each (kvSystem decimalCounters) (Timely "k") (KvWorld.start expiredServer)
        failedThenRestored := by
      refine each_timely fun c hc t heq => ?_
      subst heq
      simp [failedThenRestored] at hc
    have hspared : World.Each (kvSystem decimalCounters) (fun w c => (w.srv.Live "k" → ¬ w.srv.Indexed "k" →
        (∀ th ∈ w.threads, ∀ b ∈ th.jobs, b.prog.error? = none) ∧ Spares w c = true))
        (KvWorld.start expiredServer) failedThenRestored := by
      decide +kernel
    have hanswered : World.Each (kvSystem decimalCounters)
        (fun _ c => ∀ who reason, c ≠ .act who (.lost reason)) (KvWorld.start expiredServer)
        failedThenRestored := by
      refine World.each_of_invariant (I := fun _ => True) trivial ?_ fun _ _ _ _ _ _ => trivial
      rintro - c hc - who reason rfl
      simp [failedThenRestored] at hc
    refine (htimely.and (hspared.and hanswered)).mono ?_
    rintro w₁ c ⟨htime, hspared, hanswered⟩
    refine ⟨htime, ?_⟩
    by_cases hmissing : Missing "k" w₁
    · obtain ⟨hjobs, hspares⟩ := hspared hmissing.live hmissing.unindexed
      refine uncut_of_unfailed (fun op t i p hp e he => ?_) (Spares.mode hspares)
      cases hp with
      | job hth hb =>
        have hnone := hjobs _ (List.mem_of_getElem? hth) _ (List.mem_of_getElem? hb)
        exact absurd (hnone.symm.trans he) (by simp)
    · exact ⟨fun _ _ _ _ hm => absurd hm hmissing,
        fun who reason _ _ _ _ hc => absurd hc (hanswered who reason),
        fun _ _ _ hm => absurd hm hmissing⟩

/-- The backend fails in the removals of a sweep only. -/
def RemovalsFail : KvChoice → Prop
  | .start op => op.Writes
  | .act (.main _) m => m = .ok
  | _ => True

/-- The calls are sweeps. -/
def Op.Sweeps (op : Op) : Prop := ∃ kv grace fuel, op = .sweep kv grace fuel

/-- A put overtakes a removal, which fails after it took the key's index record. -/
def failedRemoval : List KvChoice :=
  [.start (.sweep ⟨false⟩ (.fromSecs 60) 2), .act (.main 0) .ok, .act (.main 0) .ok,
    .act (.main 0) .ok, .deliver 0, .act (.main 0) .ok, .act (.main 0) .ok,
    .start (.put "k" [2] none), .act (.main 1) .ok, .act (.main 1) .ok,
    .act (.job 0 0) .ok, .act (.job 0 0) (.fail "timeout"), .act (.main 0) .ok]

def laterSweep : List KvChoice :=
  [.start (.sweep ⟨false⟩ (.fromSecs 60) 2), .act (.main 2) .ok, .act (.main 2) .ok,
    .act (.main 2) .ok, .deliver 2, .act (.main 2) .ok, .act (.main 2) .ok, .act (.main 2) .ok]

/-- No later sweep restores the index record that a failed one took. -/
theorem live_indexed_after_failures_lost : ¬ ∀ (api : CounterApi) (s₀ : Server),
    (∀ key, s₀.Live key → s₀.Indexed key) → ∀ cs₁ cs₂ : List KvChoice,
    (∀ c ∈ cs₁, RemovalsFail c) → (∀ c ∈ cs₂, Admits (· = .ok) Op.Sweeps c) → ∀ w₁ w : KvWorld,
    World.run (kvSystem api) (KvWorld.start s₀) cs₁ = some w₁ → w₁.Quiet →
    World.run (kvSystem api) w₁ cs₂ = some w → w.Quiet →
    ∀ key, w.srv.Live key → w.srv.Indexed key := by
  intro h
  have hrun : ∃ w₁ ∈ World.run (kvSystem decimalCounters) (KvWorld.start expiredServer) failedRemoval,
      ∃ w ∈ World.run (kvSystem decimalCounters) w₁ laterSweep,
        w₁.Quiet ∧ w.Quiet ∧ w.srv.Live "k" ∧ ¬ w.srv.Indexed "k" := by decide +kernel
  obtain ⟨w₁, hw₁, w, hw, hquiet₁, hquiet, hlive, hunindexed⟩ := hrun
  refine hunindexed (h decimalCounters expiredServer ?_ failedRemoval laterSweep ?_ ?_ w₁ w hw₁ hquiet₁
    hw hquiet "k" hlive)
  · exact fun key hlive => absurd hlive (expiredServer_not_live key)
  · intro c hc
    simp only [failedRemoval, List.mem_cons, List.not_mem_nil, or_false] at hc
    rcases hc with rfl | rfl | rfl | rfl | rfl | rfl | rfl | rfl | rfl | rfl | rfl | rfl | rfl
    all_goals first | rfl | trivial
  · intro c hc
    simp only [laterSweep, List.mem_cons, List.not_mem_nil, or_false] at hc
    rcases hc with rfl | rfl | rfl | rfl | rfl | rfl | rfl | rfl
    all_goals first | rfl | exact ⟨_, _, _, rfl⟩ | trivial

end ClusterNats
