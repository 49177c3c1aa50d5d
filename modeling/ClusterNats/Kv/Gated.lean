import ClusterNats.Conc.Linear
import ClusterNats.Conc.Single
import ClusterNats.Kv.Backfilled
import ClusterNats.Kv.Gate
import ClusterNats.Kv.Requests

/-!
# The gate opens to a complete index

Three things vouch for the index of a bucket: it was complete at first, a
backfill of it returned, or the bucket was empty.  The nodes of a fleet raise a
flag, and record an index as complete, only where one of them does.

* `Emptied`, `Vouched` — what vouches for an index, and that it goes on to.
* `Marked`, `Fleet.Sound`, `GateReq.Owed` — a sound gate, and what a request of a
  node owes to it.
* `serve_cases`, `serve_sound`, `env_sound` — what a request and a move beside the
  nodes' programs can do.
* `gateRules`, `GateSafe`, `Fine` — the agreement of the nodes, and a program that
  keeps it.
* `indexCompletedAt_vouched`, `backfillKv_vouched` — what a node learns.
* `fine_program`, `sound_run` — **the gate is sound along every run**.
* `calls_step`, `run_calls` — the calls on one bucket, along a run of the fleet.
* `run_owing_since`, `gate_opens_complete` — **where the gate is open, every live key is
  indexed or owed its index record**.
-/

namespace ClusterNats

open Conc

/-! ## What vouches for an index -/

/-- The bucket holds no record, or held none at a request of the log. -/
def Emptied (w : KvWorld) : Prop :=
  w.srv.bucket.records = [] ∨ ∃ ev ∈ w.log, ev.pre.bucket.records = []

/-- Its index was complete at first, a backfill of the bucket returned, or it
was empty at some moment. -/
inductive Vouched (complete : Prop) (w : KvWorld) : Prop
  | before (h : complete)
  | backfilled {t fuel : Nat} {th : KvThread} {a : Reply} (hth : w.threads[t]? = some th)
      (hop : th.op = .backfillIndex fuel) (hret : th.main = .ret a)
  | emptied (h : Emptied w)

/-- A bucket without a record holds no live key. -/
theorem not_live_of_empty {s : Server} {key : String} (h : s.bucket.records = []) : ¬ s.Live key := by
  intro hlive
  obtain ⟨r, hr⟩ := hlive.last
  simp [SubjectLog.last, h] at hr

section Steps

variable {api : CounterApi} {complete : Prop} {w w' : KvWorld} {c : KvChoice} {cs : List KvChoice}

theorem Emptied.step (h : Emptied w) (hs : World.step (kvSystem api) w c = some w') : Emptied w' := by
  obtain ⟨hlog, -⟩ := World.step_grows hs
  rcases h with hempty | ⟨ev, hev, hempty⟩
  · by_cases hact : ∃ who m, c = .act who m
    · obtain ⟨who, m, rfl⟩ := hact
      obtain ⟨op, α, p, hp⟩ := World.runs_of_act hs
      rcases hp.act hs with ⟨r, k, x, s, l, l', -, -, -, heq, -⟩ | ⟨hsrv, -, -⟩
      · refine .inr ⟨⟨who, r, x, w.srv⟩, ?_, hempty⟩
        rw [heq]
        exact List.mem_cons_self
      · left
        rwa [hsrv]
    · obtain ⟨-, hsrv⟩ := World.step_idle (fun who m heq => hact ⟨who, m, heq⟩) hs
      left
      rcases hsrv with hsrv | ⟨v, hv⟩
      · rwa [hsrv]
      · rwa [(env_later hv).1]
  · exact .inr ⟨ev, hlog.subset hev, hempty⟩

/-- A bucket that is emptied and holds a live key again was emptied before. -/
theorem Emptied.before {key : String} (h : Emptied w') (hs : World.step (kvSystem api) w c = some w')
    (hlive : w'.srv.Live key) : Emptied w := by
  rcases h with hempty | ⟨ev, hev, hempty⟩
  · exact absurd hlive (not_live_of_empty hempty)
  · by_cases hact : ∃ who m, c = .act who m
    · obtain ⟨who, m, rfl⟩ := hact
      obtain ⟨op, α, p, hp⟩ := World.runs_of_act hs
      rcases hp.act hs with ⟨r, k, x, s, l, l', -, -, -, heq, -⟩ | ⟨-, hlog, -⟩
      · rw [heq] at hev
        rcases List.mem_cons.1 hev with rfl | hold
        · exact .inl hempty
        · exact .inr ⟨ev, hold, hempty⟩
      · exact .inr ⟨ev, hlog ▸ hev, hempty⟩
    · obtain ⟨hlog, -⟩ := World.step_idle (fun who m heq => hact ⟨who, m, heq⟩) hs
      exact .inr ⟨ev, hlog ▸ hev, hempty⟩

theorem Vouched.step (h : Vouched complete w) (hs : World.step (kvSystem api) w c = some w') :
    Vouched complete w' := by
  cases h with
  | before h => exact .before h
  | emptied h => exact .emptied (h.step hs)
  | backfilled hth hop hret =>
    obtain ⟨⟨th', hth', hret'⟩, -⟩ := World.step_finished hs hth (by rw [hret]; rfl)
    obtain ⟨th'', hth'', hop'⟩ := World.step_op hs hth
    cases Option.some.inj (hth'.symm.trans hth'')
    rcases Prog.result?_eq_some.1 hret' with ⟨a, ha, -⟩ | ⟨e, -, he⟩
    · exact .backfilled hth' (hop'.trans hop) ha
    · exact absurd he (by simp)

theorem Vouched.run (h : Vouched complete w) (hrun : World.run (kvSystem api) w cs = some w') :
    Vouched complete w' :=
  World.run_induction (P := Vouched complete) h hrun fun _ _ _ _ h hs => h.step hs

end Steps

/-! ## A sound gate -/

/-- The index state says that the index is complete. -/
def Marked (state : Bucket) : Prop :=
  ∃ m, state.last indexStateKey = some m ∧ Record.recordOperation m.body.headers = .put

theorem not_marked_empty : ¬ Marked .empty := by
  rintro ⟨m, hm, -⟩
  exact absurd hm (by simp [SubjectLog.last, SubjectLog.empty])

/-- A request that may declare an index complete. -/
def Req.Declares : Req → Prop
  | .publish _ headers _ _ => Record.recordOperation headers = .put
  | _ => False

section Fleets

variable (complete : Nat → Prop) (api : CounterApi)

/-- Where a flag is up, where a listing is told so, and where the index state says
that the index is complete, something vouches for it. -/
def Fleet.Sound (f : Fleet) : Prop :=
  ∀ b, ((∃ node, f.ready node b = true) ∨ (f.buckets b).calls.srv.indexReady = true ∨
    Marked (f.buckets b).state) → Vouched (complete b) (f.buckets b).calls

/-- The calls on every bucket went on. -/
def Fleet.Goes (f f' : Fleet) : Prop :=
  ∀ b, ∃ cs, World.run (kvSystem api) (f.buckets b).calls cs = some (f'.buckets b).calls

/-- What a node owes at a request: what it declares complete is vouched for, and
the calls it starts are sweeps and backfills. -/
def GateReq.Owed (f : Fleet) : GateReq → Prop
  | .setIndexReady _ b ready => ready = true → Vouched (complete b) (f.buckets b).calls
  | .state b r => r.Declares → Vouched (complete b) (f.buckets b).calls
  | .start _ op => op.maintains = true
  | _ => True

end Fleets

section Serves

variable {complete : Nat → Prop} {api : CounterApi} {f f' f'' : Fleet} {m : GateMode} {r : GateReq}
  {x : GateResp r} {b : Nat} {l l' : Unit}

theorem Fleet.Goes.refl (f : Fleet) : f.Goes api f := fun _ => ⟨[], rfl⟩

theorem Fleet.Goes.trans (h : f.Goes api f') (h' : f'.Goes api f'') : f.Goes api f'' := by
  intro b
  obtain ⟨cs, hcs⟩ := h b
  obtain ⟨ds, hds⟩ := h' b
  refine ⟨cs ++ ds, ?_⟩
  rw [World.run_append, hcs]
  exact hds

theorem Fleet.Goes.vouched (h : f.Goes api f') (hv : Vouched (complete b) (f.buckets b).calls) :
    Vouched (complete b) (f'.buckets b).calls := by
  obtain ⟨cs, hcs⟩ := h b
  exact hv.run hcs

/-- One step of the calls on a bucket. -/
theorem goes_setCalls {c : KvChoice} {w : KvWorld}
    (hs : World.step (kvSystem api) (f.buckets b).calls c = some w) : f.Goes api (f.setCalls b w) := by
  intro b'
  by_cases hb : b' = b
  · subst hb
    refine ⟨[c], ?_⟩
    rw [World.run_cons, hs]
    simp [Fleet.setCalls]
  · exact ⟨[], by simp [Fleet.setCalls, hb]⟩

theorem sound_setCalls {w : KvWorld} (hf : f.Sound complete) (hgoes : f.Goes api (f.setCalls b w))
    (hready : w.srv.indexReady = true → (f.buckets b).calls.srv.indexReady = true ∨
      ∃ node, f.ready node b = true) : (f.setCalls b w).Sound complete := by
  intro b' hopen
  refine hgoes.vouched (hf b' ?_)
  by_cases hb : b' = b
  · subst hb
    have hcalls : ((f.setCalls b' w).buckets b').calls = w := by simp [Fleet.setCalls]
    have hstate : ((f.setCalls b' w).buckets b').state = (f.buckets b').state := by
      simp [Fleet.setCalls]
    rw [hcalls, hstate] at hopen
    rcases hopen with hnode | htold | hmarked
    · exact .inl hnode
    · rcases hready htold with h | h
      · exact .inr (.inl h)
      · exact .inl h
    · exact .inr (.inr hmarked)
  · simpa [Fleet.setCalls, Fleet.Sound, hb] using hopen

/-- A step of the calls leaves the flag that listings read. -/
theorem step_indexReady {w w' : KvWorld} {c : KvChoice} (hc : setsIndexReady c = false)
    (hs : World.step (kvSystem api) w c = some w') : w'.srv.indexReady = w.srv.indexReady := by
  by_cases hact : ∃ who m, c = .act who m
  · obtain ⟨who, m, rfl⟩ := hact
    obtain ⟨op, α, p, hp⟩ := World.runs_of_act hs
    rcases hp.act hs with ⟨r, k, x, s, l, l', -, hserve, hsrv, -, -⟩ | ⟨hsrv, -, -⟩
    · rw [hsrv]
      rcases serve_state hserve with rfl | rfl
      · rfl
      · cases r with
        | publish subject headers payload expected =>
          rcases publish_cases w.srv subject headers payload expected with ⟨-, heq⟩ | ⟨-, heq⟩
          all_goals rw [Req.effect, heq]
        | _ => rfl
    · rw [hsrv]
  · obtain ⟨-, hsrv⟩ := World.step_idle (fun who m heq => hact ⟨who, m, heq⟩) hs
    rcases hsrv with hsrv | ⟨v, hv⟩
    · rw [hsrv]
    · cases c with
      | env v' =>
        obtain ⟨s, hs', rfl⟩ := World.step_env hs
        cases v' with
        | tick t =>
          simp only [kvSystem, Env.apply] at hs'
          split at hs'
          · cases Option.some.inj hs'
            rfl
          · exact absurd hs' (by simp)
        | setIndexReady ready => exact absurd hc (by simp [setsIndexReady])
      | start op =>
        obtain ⟨p, -, rfl⟩ := World.step_start hs
        rfl
      | deliver t =>
        obtain ⟨th, l, -, -, rfl⟩ := World.step_deliver hs
        rfl
      | act who m => exact absurd ⟨who, m, rfl⟩ hact

/-- Only what declares an index complete marks its state so. -/
theorem marked_serve {m : Mode} {s s' : Server} {c c' : Option Consumer} {r : Req} {x : Resp r}
    (h : ClusterNats.serve m s c r = some (x, s', c')) (hmarked : Marked s'.bucket) :
    Marked s.bucket ∨ r.Declares := by
  rcases serve_state h with rfl | rfl
  · exact .inl hmarked
  · obtain ⟨msg, hmsg, hput⟩ := hmarked
    cases r with
    | publish subject headers payload expected =>
      rcases publish_cases s subject headers payload expected with ⟨-, heq⟩ | ⟨-, heq⟩
      · rw [Req.effect, heq] at hmsg
        by_cases hsubject : indexStateKey = subject
        · subst hsubject
          rw [SubjectLog.last_store_self] at hmsg
          cases Option.some.inj hmsg
          exact .inr hput
        · rw [SubjectLog.last_store_ne hsubject] at hmsg
          exact .inl ⟨msg, hmsg, hput⟩
      · rw [Req.effect, heq] at hmsg
        exact .inl ⟨msg, hmsg, hput⟩
    | purge subject keep => exact .inl ⟨msg, SubjectLog.last_of_last_purge hmsg, hput⟩
    | _ => exact .inl ⟨msg, hmsg, hput⟩

/-- Where neither a flag nor an index state nor the calls changed, the gate is as
it was. -/
theorem sound_of_same (hf : f.Sound complete) (hbuckets : f'.buckets = f.buckets)
    (hready : f'.ready = f.ready) : f.Goes api f' ∧ f'.Sound complete := by
  refine ⟨fun b => ⟨[], by rw [hbuckets]; rfl⟩, fun b hopen => ?_⟩
  rw [hbuckets, hready] at hopen
  rw [hbuckets]
  exact hf b hopen

theorem sound_setReady {node : Nat} {ready : Bool} (hf : f.Sound complete)
    (howed : ready = true → Vouched (complete b) (f.buckets b).calls) :
    (f.setReady node b ready).Sound complete := by
  rintro b' (⟨node', hnode⟩ | hrest)
  · by_cases hset : node' = node ∧ b' = b
    · obtain ⟨rfl, rfl⟩ := hset
      exact howed (by simpa [Fleet.setReady] using hnode)
    · refine hf b' (.inl ⟨node', ?_⟩)
      by_cases hn : node' = node
      · subst hn
        have hb : b' ≠ b := fun h => hset ⟨rfl, h⟩
        simpa [Fleet.setReady, hb] using hnode
      · simpa [Fleet.setReady, hn] using hnode
  · exact hf b' (.inr hrest)

theorem calls_setState {state : Bucket} (b' : Nat) :
    ((f.setState b state).buckets b').calls = (f.buckets b').calls := by
  by_cases hb : b' = b
  · subst hb
    simp [Fleet.setState]
  · simp [Fleet.setState, hb]

theorem sound_setState {state : Bucket} (hf : f.Sound complete)
    (howed : Marked state → Marked (f.buckets b).state ∨ Vouched (complete b) (f.buckets b).calls) :
    f.Goes api (f.setState b state) ∧ (f.setState b state).Sound complete := by
  refine ⟨fun b' => ⟨[], by rw [calls_setState]; rfl⟩, fun b' hopen => ?_⟩
  rw [calls_setState] at hopen ⊢
  rcases hopen with hnode | htold | hmarked
  · exact hf b' (.inl hnode)
  · exact hf b' (.inr (.inl htold))
  · by_cases hb : b' = b
    · subst hb
      rcases howed (by simpa [Fleet.setState] using hmarked) with h | h
      · exact hf b' (.inr (.inr h))
      · exact h
    · exact hf b' (.inr (.inr (by simpa [Fleet.setState, hb] using hmarked)))

/-- What a request of a node does: it moves a flag, starts a call, or is one on an
index state; any other leaves the buckets and the flags. -/
theorem serve_cases (h : Fleet.serve api m f l r = some (x, f', l')) :
    (f'.buckets = f.buckets ∧ f'.ready = f.ready) ∨
    (∃ node b ready, r = .setIndexReady node b ready ∧ f' = f.setReady node b ready) ∨
    (∃ b op w, r = .start b op ∧ World.step (kvSystem api) (f.buckets b).calls (.start op) = some w ∧
      f' = f.setCalls b w) ∨
    ∃ b r' m' y s c, r = .state b r' ∧
      ClusterNats.serve m' (f.stateServer b) none r' = some (y, s, c) ∧ f' = f.setState b s.bucket := by
  cases r with
  | setIndexReady node b ready =>
    cases Option.some.inj h
    exact .inr (.inl ⟨node, b, ready, rfl, rfl⟩)
  | start b op =>
    have hstart : (World.step (kvSystem api) (f.buckets b).calls (.start op)).map (fun w =>
        (((f.buckets b).calls.threads.length : GateResp (.start b op)), f.setCalls b w, ())) =
          some (x, f', l') := h
    obtain ⟨w, hs, heq⟩ := Option.map_eq_some_iff.1 hstart
    cases heq
    exact .inr (.inr (.inl ⟨b, op, w, rfl, hs, rfl⟩))
  | state b r =>
    cases m with
    | backend m =>
      obtain ⟨⟨y, s, c⟩, hserve, heq⟩ := Option.map_eq_some_iff.1 h
      cases heq
      exact .inr (.inr (.inr ⟨b, r, m, y, s, c, rfl, hserve, rfl⟩))
    | _ => exact absurd h (by simp [Fleet.serve])
  | select =>
    cases m with
    | fired sweep =>
      cases Option.some.inj h
      exact .inl ⟨rfl, rfl⟩
    | _ => exact absurd h (by simp [Fleet.serve])
  | await b thread =>
    obtain ⟨y, -, heq⟩ := Option.map_eq_some_iff.1 h
    cases heq
    exact .inl ⟨rfl, rfl⟩
  | usage b =>
    cases m with
    | backend m =>
      obtain ⟨y, -, heq⟩ := Option.map_eq_some_iff.1 h
      cases heq
      exact .inl ⟨rfl, rfl⟩
    | _ => exact absurd h (by simp [Fleet.serve])
  | renewLease node =>
    cases m with
    | lease y =>
      cases Option.some.inj h
      exact .inl ⟨rfl, rfl⟩
    | _ => exact absurd h (by simp [Fleet.serve])
  | tryAcquireLease node =>
    cases m with
    | lease y =>
      cases Option.some.inj h
      exact .inl ⟨rfl, rfl⟩
    | _ => exact absurd h (by simp [Fleet.serve])
  | _ =>
    cases Option.some.inj h
    exact .inl ⟨rfl, rfl⟩

/-- **A request of a node keeps the gate sound.** -/
theorem serve_sound (hf : f.Sound complete) (howed : r.Owed complete f)
    (h : Fleet.serve api m f l r = some (x, f', l')) : f.Goes api f' ∧ f'.Sound complete := by
  rcases serve_cases h with ⟨hbuckets, hready⟩ | ⟨node, b, ready, rfl, rfl⟩ |
    ⟨b, op, w, rfl, hs, rfl⟩ | ⟨b, r', m', y, s, c, rfl, hserve, rfl⟩
  · exact sound_of_same hf hbuckets hready
  · exact ⟨fun b' => ⟨[], rfl⟩, sound_setReady hf howed⟩
  · refine ⟨goes_setCalls hs, sound_setCalls hf (goes_setCalls hs) fun htold => .inl ?_⟩
    rwa [step_indexReady rfl hs] at htold
  · exact sound_setState hf fun hmarked => (marked_serve hserve hmarked).imp_right howed

/-- A move beside the nodes' programs keeps the gate sound. -/
theorem env_sound {v : FleetEnv} (hf : f.Sound complete) (h : v.apply api f = some f') :
    f.Goes api f' ∧ f'.Sound complete := by
  cases v with
  | kv b c =>
    simp only [FleetEnv.apply] at h
    split at h
    · exact absurd h (by simp)
    · rename_i hc
      obtain ⟨w, hs, rfl⟩ := Option.map_eq_some_iff.1 h
      refine ⟨goes_setCalls hs, sound_setCalls hf (goes_setCalls hs) fun htold => .inl ?_⟩
      rwa [step_indexReady (by simpa using hc) hs] at htold
  | lists node b =>
    simp only [FleetEnv.apply] at h
    obtain ⟨w, hs, rfl⟩ := Option.map_eq_some_iff.1 h
    refine ⟨goes_setCalls hs, sound_setCalls hf (goes_setCalls hs) fun htold => .inr ⟨node, ?_⟩⟩
    obtain ⟨s, hv, rfl⟩ := World.step_env hs
    cases Option.some.inj hv
    exact htold
  | peers node cache =>
    cases Option.some.inj h
    exact sound_of_same hf rfl rfl
  | purgeState b =>
    obtain ⟨m, -, h⟩ := Option.bind_eq_some_iff.1 h
    obtain ⟨-, heq⟩ := Option.ite_none_left_eq_some.1 h
    cases Option.some.inj heq
    refine sound_setState hf ?_
    rintro ⟨msg, hmsg, -⟩
    exact absurd hmsg (by simp)
  | elapse now =>
    simp only [FleetEnv.apply] at h
    split at h
    · cases Option.some.inj h
      exact sound_of_same hf rfl rfl
    · exact absurd h (by simp)

end Serves

/-! ## The programs of the nodes -/

/-- The agreement of the nodes. -/
def gateRules (api : CounterApi) (complete : Nat → Prop) : Rules gateSig Fleet Unit GateMode NodeOp where
  rely v v' := v.srv.Sound complete → v.srv.Goes api v'.srv ∧ v'.srv.Sound complete
  allowed _ := True
  guar _ _ f _ r := f.Sound complete → r.Owed complete f
  jobPre _ _ _ _ _ := True
  jobPost _ _ _ _ _ _ := True

/-- What a node sees. -/
abbrev GateView := View gateSig Fleet Unit

section Programs

variable {api : CounterApi} {complete : Nat → Prop} {op : NodeOp} {who : Actor} {α β : Type} {b : Nat}
  {v : GateView} {js : List Empty}

theorem gateRules_ordered : (gateRules api complete).Ordered where
  refl v hv := ⟨.refl v.srv, hv⟩
  trans h h' hv := ⟨(h hv).1.trans (h' (h hv).2).1, (h' (h hv).2).2⟩

/-- Checked from a sound gate on. -/
abbrev GateSafe (api : CounterApi) (complete : Nat → Prop) (op : NodeOp) (who : Actor) {α : Type}
    (Q : Except ClusterError α → Fleet → Prop) (p : Gate α) (js : List Empty) (v : GateView) : Prop :=
  (gateRules api complete).Safe (gateSystem api) op who (fun _ x v' => Q x v'.srv) p js v

/-- Where a program of a node ends, the gate is sound and the calls went on. -/
theorem gate_since {Q : List Empty → Except ClusterError α → GateView → Prop} {p : Gate α}
    (h : (gateRules api complete).Safe (gateSystem api) op who Q p js v) (hv : v.srv.Sound complete) :
    (gateRules api complete).Safe (gateSystem api) op who
      (fun js' x v' => Q js' x v' ∧ v'.srv.Sound complete ∧ v.srv.Goes api v'.srv) p js v := by
  refine Rules.Safe.keeps (I := fun v' => v'.srv.Sound complete ∧ v.srv.Goes api v'.srv) ?_ ?_ h
    ⟨hv, .refl v.srv⟩
  · exact fun v₁ v₂ hrely h₁ => ⟨(hrely h₁.1).2, h₁.2.trans (hrely h₁.1).1⟩
  · intro v₁ m r x f l h₁ _ howed hx
    have hserve : Fleet.serve api m v₁.srv () r = some (x, f, ()) := hx
    obtain ⟨hgoes, hsound⟩ := serve_sound h₁.1 (howed h₁.1) hserve
    exact ⟨hsound, h₁.2.trans hgoes⟩

/-- Programs one after another. -/
theorem GateSafe.bind {Q : Except ClusterError α → Fleet → Prop}
    {Q' : Except ClusterError β → Fleet → Prop} {p : Gate α} {g : α → Gate β}
    (hp : GateSafe api complete op who Q p js v) (hv : v.srv.Sound complete)
    (hok : ∀ a js v', v'.srv.Sound complete → v.srv.Goes api v'.srv → Q (.ok a) v'.srv →
      GateSafe api complete op who Q' (g a) js v')
    (herr : ∀ e f, Q (.error e) f → Q' (.error e) f) :
    GateSafe api complete op who Q' (p >>= g) js v := by
  refine Rules.Safe.bind gateRules_ordered (gate_since hp hv) ?_ ?_
  · exact fun a js v' h => hok a js v' h.2.1 h.2.2 h.1
  · exact fun e js v' h => herr e v'.srv h.1

theorem GateSafe.attempt {Q : Except ClusterError α → Fleet → Prop} {p : Gate α}
    (h : GateSafe api complete op who Q p js v) :
    GateSafe api complete op who (fun x f => ∃ y, x = .ok y ∧ Q y f) p.attempt js v :=
  Rules.Safe.attempt h

/-- One request of a node. -/
theorem GateSafe.req {Q : Except ClusterError α → Fleet → Prop} {r : GateReq} {k : GateResp r → Gate α}
    (hv : v.srv.Sound complete)
    (howed : ∀ f, v.srv.Goes api f → f.Sound complete → r.Owed complete f)
    (hk : ∀ v₁ m x f' v', v.srv.Goes api v₁ → v₁.Sound complete →
      Fleet.serve api m v₁ () r = some (x, f', ()) → f' = v'.srv → v₁.Goes api v'.srv →
      v'.srv.Sound complete → GateSafe api complete op who Q (k x) js v') :
    GateSafe api complete op who Q (.req r k) js v := by
  intro v₁ hv₁
  obtain ⟨hgoes, hsound⟩ := hv₁ hv
  refine ⟨fun _ => howed _ hgoes hsound, fun m x f' l _ hx => ?_⟩
  have hserve : Fleet.serve api m v₁.srv () r = some (x, f', ()) := hx
  obtain ⟨hgoes', hsound'⟩ := serve_sound hsound (howed _ hgoes hsound) hserve
  exact hk v₁.srv m x f' ⟨f', _, l⟩ hgoes hsound hserve rfl hgoes' hsound'

/-- A program that keeps the gate sound, wherever it starts. -/
def Fine (api : CounterApi) (complete : Nat → Prop) (p : Gate α) : Prop :=
  ∀ op who js v, v.srv.Sound complete → GateSafe api complete op who (fun _ _ => True) p js v

theorem fine_ret (a : α) : Fine api complete (.ret a) := fun _ _ _ _ _ _ _ => trivial

theorem fine_fail (e : ClusterError) : Fine api complete (.fail e : Gate α) := fun _ _ _ _ _ _ _ => trivial

theorem Fine.bind {p : Gate α} {g : α → Gate β} (hp : Fine api complete p)
    (hg : ∀ a, Fine api complete (g a)) : Fine api complete (p >>= g) :=
  fun op who js v hv => (hp op who js v hv).bind hv (fun a js v' hv' _ _ => hg a op who js v' hv')
    fun _ _ _ => trivial

theorem Fine.map {p : Gate α} {g : α → β} (hp : Fine api complete p) : Fine api complete (g <$> p) :=
  hp.bind fun a => fine_ret (g a)

theorem Fine.attempt {p : Gate α} (hp : Fine api complete p) : Fine api complete p.attempt :=
  fun op who js v hv => (Rules.Safe.attempt (hp op who js v hv)).conseq fun _ _ _ _ => trivial

theorem fine_req {r : GateReq} {k : GateResp r → Gate α} (howed : ∀ f, r.Owed complete f)
    (hk : ∀ x, Fine api complete (k x)) : Fine api complete (.req r k) :=
  fun op who js _ hv => GateSafe.req hv (fun f _ _ => howed f) fun _ _ x _ v' _ _ _ _ _ hv' =>
    hk x op who js v' hv'

theorem fine_ofExcept {ε : Type} {g : ε → ClusterError} (x : Except ε α) :
    Fine api complete (Prog.ofExcept g x) := by
  cases x with
  | ok a => exact fine_ret a
  | error e => exact fine_fail (g e)

theorem fine_forM {g : Nat → Gate Unit} (hg : ∀ b, Fine api complete (g b)) (bs : List Nat) :
    Fine api complete (bs.forM g) := by
  induction bs with
  | nil => exact fine_ret ()
  | cons b bs ih => exact (hg b).bind fun _ => ih

theorem fine_mapM {g : Nat → Gate β} (hg : ∀ b, Fine api complete (g b)) (bs : List Nat) :
    Fine api complete (bs.mapM g) := by
  induction bs with
  | nil => exact fine_ret []
  | cons b bs ih =>
    rw [List.mapM_cons]
    exact (hg b).bind fun _ => ih.bind fun _ => fine_ret _

/-- A program of the store that declares nothing. -/
theorem fine_onState {p : Kv α} (hp : p.Requests fun (r : Req) => ¬ r.Declares) :
    Fine api complete (onState b p) := by
  induction p with
  | ret a => exact fine_ret a
  | fail e => exact fine_fail e
  | req r k ih => exact fine_req (fun _ hdeclares => absurd hdeclares hp.1) fun x => ih x (hp.2 x)
  | stuck => exact fun _ _ _ _ _ => trivial
  | _ => exact absurd hp id

/-- What is vouched for stays so. -/
theorem Fine.vouched {p : Gate α} (hp : Fine api complete p) (hv : v.srv.Sound complete)
    (h : Vouched (complete b) (v.srv.buckets b).calls) :
    GateSafe api complete op who (fun _ f => Vouched (complete b) (f.buckets b).calls) p js v :=
  (gate_since (hp op who js v hv) hv).conseq fun _ _ _ hend => hend.2.2.vouched h

/-! ### What vouches -/

theorem readOnly_ok {m : Mode} {a a' : α} (h : readOnly m a = some (.ok a')) : a' = a := by
  cases m with
  | ok => exact (Except.ok.inj (Option.some.inj h)).symm
  | _ => simp [readOnly] at h

/-- What `indexCompletedAt` does with the record it read. -/
def afterStateRead (x : Except String (Option StoredMessage)) : Kv (Option UInt64) := do
  let key := "index state"
  let slot ← orUnavailable (fun e => s!"nats kv entry `{key}`: {e}")
    (x.map fun m => m.map Record.ofMessage) >>= slotOf
  match slot with
  | .live value _ _ => return (fromUtf8 value).bind fun s => parseU64 (bytes s)
  | _ => return none

theorem indexCompletedAt_eq : indexCompletedAt =
    .req (.getLast indexStateKey) fun (x : Except String (Option StoredMessage)) => afterStateRead x := rfl

theorem requests_indexCompletedAt : indexCompletedAt.Requests fun (r : Req) => ¬ r.Declares := by
  have hread : ∀ r : Req, r.isWrite = false → ¬ r.Declares := by
    intro r hr
    cases r <;> simp_all [Req.isWrite, Req.Declares]
  refine (requests_slot hread indexStateKey "index state").bind fun slot => ?_
  cases slot <;> trivial

theorem requests_afterStateRead (x : Except String (Option StoredMessage)) :
    (afterStateRead x).Requests fun (r : Req) => ¬ r.Declares := requests_indexCompletedAt.2 x

theorem afterStateRead_marker {msg : StoredMessage}
    (h : ¬ Record.recordOperation msg.body.headers = .put) :
    afterStateRead (.ok (some msg)) = .ret none := by
  have hslot : slotOf (some (Record.ofMessage msg)) = Prog.ret (.dead (Record.ofMessage msg).revision) := by
    rw [slotOf_some]
    exact if_pos h
  show (slotOf (some (Record.ofMessage msg)) >>= _) = _
  rw [hslot]
  rfl

/-- An index state that says complete is vouched for. -/
theorem indexCompletedAt_vouched (hv : v.srv.Sound complete) :
    GateSafe api complete op who (fun x f => ∀ ms, x = .ok (some ms) →
      Vouched (complete b) (f.buckets b).calls) (onState b indexCompletedAt) js v := by
  rw [indexCompletedAt_eq]
  refine GateSafe.req hv (fun f _ _ hdeclares => absurd hdeclares id) ?_
  intro f m x f' v' hgoes hf hserve heq hgoes' hv'
  cases m with
  | backend m =>
    obtain ⟨⟨y, s, c⟩, hread, heq'⟩ := Option.map_eq_some_iff.1 hserve
    cases heq'
    obtain ⟨y, hy, heq''⟩ := Option.map_eq_some_iff.1 hread
    cases heq''
    have hcont : ∀ o : Except String (Option StoredMessage),
        readOnly m ((f.buckets b).state.last indexStateKey) = some o →
        GateSafe api complete op who (fun x f => ∀ ms, x = .ok (some ms) →
          Vouched (complete b) (f.buckets b).calls) (onState b (afterStateRead o)) js v' := by
      intro o ho
      cases o with
      | error e => exact fun _ _ _ h => absurd h (by simp)
      | ok o =>
        have hlast : o = (f.buckets b).state.last indexStateKey := readOnly_ok ho
        cases o with
        | none => exact fun _ _ _ h => absurd h (by simp)
        | some msg =>
          by_cases hput : Record.recordOperation msg.body.headers = .put
          · have hvouched := hgoes'.vouched (hf b (.inr (.inr ⟨msg, hlast.symm, hput⟩)))
            have hfine : Fine api complete (onState b (afterStateRead (.ok (some msg)))) :=
              fine_onState (requests_afterStateRead _)
            exact Rules.Safe.conseq (hfine.vouched hv' hvouched) fun _ _ _ h _ _ => h
          · rw [afterStateRead_marker hput]
            exact fun _ _ _ h => absurd h (by simp)
    exact hcont y hy
  | _ => exact absurd hserve (by simp [Fleet.serve])

theorem requests_markIndexComplete (startedAtMs : UInt64) :
    (markIndexComplete startedAtMs).Requests fun _ => True := by
  refine (requests_write trivial).bind fun x => ?_
  rcases x with (e | _) | n <;> trivial

theorem requests_nowUnixMillis {P : Req → Prop} (h : P .systemTime) : nowUnixMillis.Requests P :=
  ⟨h, fun _ => trivial⟩

/-- Once it is vouched for, an index may be declared complete. -/
theorem onState_vouched {p : Kv α} (hp : p.Requests fun _ => True) (hv : v.srv.Sound complete)
    (h : Vouched (complete b) (v.srv.buckets b).calls) :
    GateSafe api complete op who (fun _ _ => True) (onState b p) js v := by
  induction p generalizing v with
  | ret a => exact fun _ _ => trivial
  | fail e => exact fun _ _ => trivial
  | req r k ih =>
    refine GateSafe.req hv (fun f hgoes _ _ => hgoes.vouched h) ?_
    intro f m x f' v' hgoes _ _ _ hgoes' hv'
    exact ih x (hp.2 x) hv' (hgoes'.vouched (hgoes.vouched h))
  | stuck => trivial
  | _ => exact absurd hp id

theorem setIndexReady_vouched {node : Nat} (hv : v.srv.Sound complete)
    (h : Vouched (complete b) (v.srv.buckets b).calls) :
    GateSafe api complete op who (fun _ _ => True) (setIndexReady node b true) js v := by
  refine GateSafe.req hv (fun f hgoes _ _ => hgoes.vouched h) ?_
  intro f m x f' v' _ _ _ _ _ hv'
  exact fine_ret () op who js v' hv'

/-- A backfill that returned vouches for the index. -/
theorem backfillKv_vouched (fuel : Nat) (hv : v.srv.Sound complete) :
    GateSafe api complete op who (fun x f => ∀ n, x = .ok n → Vouched (complete b) (f.buckets b).calls)
      (backfillKv b fuel) js v := by
  refine GateSafe.req hv (fun _ _ _ => rfl) ?_
  intro f m x f' v' _ _ hserve heq _ hv'
  have hstart : (World.step (kvSystem api) (f.buckets b).calls (.start (.backfillIndex fuel))).map (fun w =>
      (((f.buckets b).calls.threads.length : GateResp (.start b (.backfillIndex fuel))), f.setCalls b w, ())) =
        some (x, f', ()) := hserve
  obtain ⟨w, hs, heq'⟩ := Option.map_eq_some_iff.1 hstart
  cases heq'
  obtain ⟨p, -, rfl⟩ := World.step_start hs
  refine GateSafe.req hv' (fun _ _ _ => trivial) ?_
  intro f₂ m₂ y f₂' v₂ hgoes₂ _ hserve₂ heq₂ hgoes₂' hv₂
  obtain ⟨y', hy, heq₃⟩ := Option.map_eq_some_iff.1 hserve₂
  cases heq₃
  obtain ⟨th, hth, hresult⟩ := Option.bind_eq_some_iff.1 hy
  have hop : th.op = .backfillIndex fuel := by
    obtain ⟨cs, hcs⟩ := hgoes₂ b
    have hops := (World.run_grows hcs).2 (f.buckets b).calls.threads.length (.backfillIndex fuel)
      (by simp [World.ops, ← heq, Fleet.setCalls])
    simpa [World.ops, hth] using hops
  rcases Prog.result?_eq_some.1 hresult with ⟨a, ha, rfl⟩ | ⟨e, -, rfl⟩
  · exact fun v₃ hv₃ _ _ => (hgoes₂'.trans (hv₃ hv₂).1).vouched (.backfilled hth hop ha)
  · exact fun _ _ _ h => absurd h (by simp)

/-! ### The programs -/

theorem Fine.discard {p : Gate α} (hp : Fine api complete p) : Fine api complete (discard p) := hp.map

theorem fine_instantNow : Fine api complete instantNow := fine_req (fun _ => trivial) fun _ => fine_ret _

theorem fine_indexReady (node b : Nat) : Fine api complete (indexReady node b) :=
  fine_req (fun _ => trivial) fun _ => fine_ret _

theorem fine_unindexedPeerPresent (node : Nat) : Fine api complete (unindexedPeerPresent node) :=
  fine_req (fun _ => trivial) fun _ => fine_ret _

theorem fine_openBuckets (node state : Nat) : Fine api complete (openBuckets node state) :=
  fine_req (fun _ => trivial) fun _ => fine_ret _

/-- Calls that keep a bucket up. -/
theorem fine_callKv {kvOp : Op} (hop : kvOp.maintains = true) : Fine api complete (callKv b kvOp) :=
  fine_req (fun _ => hop) fun _ => fine_req (fun _ => trivial) fun _ => fine_ofExcept _

theorem fine_lowerFlag (node b : Nat) : Fine api complete (setIndexReady node b false) :=
  fine_req (fun _ (h : false = true) => absurd h (by simp)) fun _ => fine_ret ()

theorem fine_invalidateIndex (node b : Nat) : Fine api complete (invalidateIndex node b) := by
  refine (fine_lowerFlag node b).bind fun _ => ?_
  refine (fine_onState requests_indexCompletedAt).bind fun completed => ?_
  cases completed with
  | none => exact fine_ret ()
  | some ms =>
    refine fine_onState ⟨?_, fun x => ?_⟩
    · show ¬ Record.recordOperation [(kvOperationHeader, bytes "DEL")] = .put
      decide
    · rcases x with e | (e | n) <;> trivial

/-- The gate of a bucket raises the flag on what its index state says. -/
theorem fine_gateIndex (node b : Nat) (unindexedPeer : Bool) :
    Fine api complete (gateIndex node b unindexedPeer) := by
  cases unindexedPeer with
  | true => exact (fine_invalidateIndex node b).attempt.discard
  | false =>
    intro op who js v hv
    refine GateSafe.bind (indexCompletedAt_vouched (b := b) hv).attempt hv ?_ fun _ _ _ => trivial
    rintro x js' v' hv' - ⟨y, hy, hend⟩
    cases Except.ok.inj hy
    cases x with
    | error e => exact fine_ret () op who js' v' hv'
    | ok completed =>
      cases completed with
      | none => exact fine_lowerFlag node b op who js' v' hv'
      | some ms => exact setIndexReady_vouched hv' (hend ms rfl)

/-- What `completeIndexIfEmpty` does with the number of records. -/
def markIfEmpty (b messages : Nat) : Gate Unit :=
  if messages = 0 then onState b (nowUnixMillis >>= markIndexComplete) else return ()

/-- An index is complete where no record is. -/
theorem fine_completeIndexIfEmpty (b : Nat) : Fine api complete (completeIndexIfEmpty b) := by
  intro op who js v hv
  refine GateSafe.req hv (fun _ _ _ => trivial) ?_
  intro f m x f' v' _ _ hserve heq _ hv'
  cases m with
  | backend m =>
    obtain ⟨y, hy, heq'⟩ := Option.map_eq_some_iff.1 hserve
    cases heq'
    have hcont : ∀ y : Except String Nat,
        readOnly m ((f.buckets b).calls.srv.bucket.records.length + (f.buckets b).state.records.length) = some y →
        GateSafe api complete op who (fun _ _ => True) (Prog.ofExcept (fun e =>
          ClusterError.backendUnavailable s!"nats kv usage: {e}") y >>= markIfEmpty b) js v' := by
      intro y hy
      cases y with
      | error e => exact fun _ _ => trivial
      | ok n =>
        have hn := readOnly_ok hy
        show GateSafe api complete op who (fun _ _ => True) (markIfEmpty b n) js v'
        unfold markIfEmpty
        split
        · rename_i hzero
          have hempty : (f.buckets b).calls.srv.bucket.records = [] := by
            apply List.eq_nil_of_length_eq_zero
            omega
          have hvouched : Vouched (complete b) (v'.srv.buckets b).calls := by
            rw [← heq]
            exact .emptied (.inl hempty)
          exact onState_vouched ((requests_nowUnixMillis trivial).bind requests_markIndexComplete) hv' hvouched
        · exact fine_ret () op who js v' hv'
    exact hcont x hy
  | _ => exact absurd hserve (by simp [Fleet.serve])

/-- The index is complete once the backfill returned. -/
theorem fine_completeIndex (node b fuel : Nat) : Fine api complete (completeIndex node b fuel) := by
  refine (fine_onState (requests_nowUnixMillis id)).bind fun startedAtMs => ?_
  intro op who js v hv
  refine GateSafe.bind (backfillKv_vouched (b := b) fuel hv).attempt hv ?_ fun _ _ _ => trivial
  rintro x js₁ v₁ hv₁ - ⟨y, hy, hbackfilled⟩
  cases Except.ok.inj hy
  cases x with
  | error e => exact fine_ret () op who js₁ v₁ hv₁
  | ok n =>
    refine GateSafe.bind ((fine_unindexedPeerPresent node).vouched hv₁ (hbackfilled n rfl)) hv₁ ?_
      fun _ _ _ => trivial
    intro present js₂ v₂ hv₂ _ hvouched
    cases present with
    | true => exact fine_ret () op who js₂ v₂ hv₂
    | false =>
      refine GateSafe.bind (onState_vouched (requests_markIndexComplete startedAtMs) hv₂ hvouched).attempt hv₂ ?_
        fun _ _ _ => trivial
      rintro x js₃ v₃ hv₃ hgoes ⟨y, hy, -⟩
      cases x with
      | error e => exact fine_ret () op who js₃ v₃ hv₃
      | ok u => exact setIndexReady_vouched hv₃ (hgoes.vouched hvouched)

theorem fine_allReady (node : Nat) (bs : List Nat) : Fine api complete (allReady node bs) := by
  induction bs with
  | nil => exact fine_ret true
  | cons b bs ih =>
    refine (fine_indexReady node b).bind fun ready => ?_
    cases ready with
    | true => exact ih
    | false => exact fine_ret false

theorem fine_gateTick (p : SweepParams) (buckets : List Nat) (task : Sweeper) :
    Fine api complete (gateTick p buckets task) := by
  refine (fine_allReady p.node buckets).bind fun ready => ?_
  cases ready with
  | true => exact fine_ret task
  | false =>
    refine (fine_unindexedPeerPresent p.node).bind fun present => ?_
    cases present with
    | true => exact fine_instantNow.bind fun _ => fine_ret _
    | false =>
      refine Fine.bind (fine_forM (fun b => ?_) buckets) fun _ => fine_ret task
      refine (fine_indexReady p.node b).bind fun ready => ?_
      cases ready with
      | true => exact fine_ret ()
      | false => exact fine_gateIndex p.node b false

theorem fine_sweepBucket (p : SweepParams) (task : Sweeper) (unindexed : Bool) (fuel b : Nat) :
    Fine api complete (sweepBucket p task unindexed fuel b) := by
  have hcomplete : Fine api complete (do
      if ← indexReady p.node b then return ()
      completeIndex p.node b fuel) := by
    refine (fine_indexReady p.node b).bind fun ready => ?_
    cases ready with
    | true => exact fine_ret ()
    | false => exact fine_completeIndex p.node b fuel
  have hrest : ∀ settled : Bool, Fine api complete (if (!unindexed && settled) = true then do
      if ← indexReady p.node b then return ()
      completeIndex p.node b fuel else pure ()) := by
    intro settled
    split
    · exact hcomplete
    · exact fine_ret ()
  have hsweep : Fine api complete (discard (callKv b (.sweep p.kv markerGrace fuel)).attempt) :=
    (fine_callKv rfl).attempt.discard
  unfold sweepBucket
  cases p.sweep <;> cases task.unindexedSeen
  · exact (fine_ret true).bind hrest
  · exact fine_instantNow.map.bind hrest
  · exact hsweep.bind fun _ => (fine_ret true).bind hrest
  · exact hsweep.bind fun _ => fine_instantNow.map.bind hrest

theorem fine_holdLease (p : SweepParams) (task : Sweeper) : Fine api complete (holdLease p task) := by
  unfold holdLease
  cases task.lease
  all_goals refine Fine.bind ?_ fun kept => ?_
  case false.refine_1 => exact fine_ret false
  case true.refine_1 => exact fine_req (fun _ => trivial) fun _ => fine_ret _
  all_goals cases kept
  case false.refine_2.true => exact fine_ret _
  case true.refine_2.true => exact fine_ret _
  -- not kept: the lease is asked for
  all_goals
    refine fine_req (fun _ => trivial) fun x => ?_
    rcases x with e | (_ | _) <;> exact fine_ret _

theorem fine_sweepTick (p : SweepParams) (fuel : Nat) (buckets : List Nat) (task : Sweeper) :
    Fine api complete (sweepTick p fuel buckets task) := by
  have husage : ∀ b, Fine api complete (.req (.usage b) fun (_ : Except String Nat) => .ret ()) :=
    fun b => fine_req (r := .usage b) (fun _ => trivial) fun _ => fine_ret ()
  refine (fine_forM husage buckets).bind fun _ => ?_
  refine (fine_unindexedPeerPresent p.node).bind fun unindexed => ?_
  cases unindexed
  all_goals refine Fine.bind ?_ fun seen => ?_
  case false.refine_1 => exact fine_ret task.unindexedSeen
  case true.refine_1 => exact fine_instantNow.map
  -- whatever was seen, the gates are set and the holder of the lease sweeps
  all_goals
    refine (fine_forM (fun b => fine_gateIndex p.node b _) buckets).bind fun _ => ?_
    refine (fine_holdLease p _).bind fun held => ?_
    obtain ⟨task, held⟩ := held
    cases held with
    | true => exact (fine_forM (fun b => fine_sweepBucket p task _ fuel b) buckets).bind fun _ => fine_ret task
    | false => exact fine_ret task

theorem fine_runSweeper (p : SweepParams) (fuel ticks : Nat) (task : Sweeper) :
    Fine api complete (runSweeper p fuel ticks task) := by
  induction ticks generalizing task with
  | zero => exact fun _ _ _ _ _ => trivial
  | succ ticks ih =>
    refine fine_req (fun _ => trivial) fun (sweep : Bool) => ?_
    refine (fine_openBuckets p.node p.state).bind fun buckets => ?_
    cases sweep with
    | true => exact (fine_sweepTick p fuel buckets task).bind ih
    | false => exact (fine_gateTick p buckets task).bind ih

theorem fine_completeKeyIndex (node state fuel : Nat) :
    Fine api complete (completeKeyIndex node state fuel) := by
  have hbuckets : Fine api complete (do
      let buckets ← openBuckets node state
      buckets.mapM fun b => do
        let startedAtMs ← onState b nowUnixMillis
        let count ← backfillKv b fuel
        onState b (markIndexComplete startedAtMs)
        setIndexReady node b true
        return (b, count)) := by
    refine (fine_openBuckets node state).bind fun buckets => fine_mapM (fun b => ?_) buckets
    refine (fine_onState (requests_nowUnixMillis id)).bind fun startedAtMs => ?_
    intro op who js v hv
    refine GateSafe.bind (backfillKv_vouched (b := b) fuel hv) hv ?_ fun _ _ _ => trivial
    intro count js₁ v₁ hv₁ _ hbackfilled
    have hvouched := hbackfilled count rfl
    refine GateSafe.bind (onState_vouched (requests_markIndexComplete startedAtMs) hv₁ hvouched) hv₁ ?_
      fun _ _ _ => trivial
    intro _ js₂ v₂ hv₂ hgoes _
    refine GateSafe.bind (setIndexReady_vouched hv₂ (hgoes.vouched hvouched)) hv₂ ?_ fun _ _ _ => trivial
    intro _ js₃ v₃ hv₃ _ _
    exact fine_ret (b, count) op who js₃ v₃ hv₃
  refine (fine_unindexedPeerPresent node).bind fun present => ?_
  cases present with
  | true => exact (fine_fail _).bind fun _ => hbuckets
  | false => exact hbuckets

theorem fine_openNamed (node b : Nat) : Fine api complete (openNamed node b) := by
  refine fine_req (r := .named node) (fun _ => trivial) fun (named : List Nat) => ?_
  by_cases hmem : b ∈ named
  all_goals simp only [hmem, if_true, if_false]
  · exact fine_ret ()
  · exact (fine_completeIndexIfEmpty b).attempt.discard.bind fun _ =>
      fine_req (fun _ => trivial) fun _ => fine_ret ()

theorem fine_sweepStateBuckets (node state : Nat) (kv : NatsKv) (grace : Duration) (fuel : Nat) :
    Fine api complete (sweepStateBuckets node state kv grace fuel) := by
  refine (fine_openBuckets node state).bind fun buckets => fine_mapM (fun b => ?_) buckets
  exact (fine_callKv rfl).bind fun report => fine_ret (b, report)

/-- **Whatever runs on a node keeps the gate sound.** -/
theorem fine_program (op : NodeOp) : Fine api complete op.program := by
  cases op with
  | sweeper p fuel ticks => exact fine_runSweeper p fuel ticks {}
  | completeKeyIndex node state fuel => exact (fine_completeKeyIndex node state fuel).discard
  | openState state => exact (fine_completeIndexIfEmpty state).attempt.discard
  | openNamed node b => exact fine_openNamed node b
  | sweepStateBuckets node state kv grace fuel => exact (fine_sweepStateBuckets node state kv grace fuel).discard

end Programs

/-! ## The fleet -/

section System

variable {api : CounterApi} {complete : Nat → Prop} {W W' : FleetWorld} {c : FleetChoice}
  {cs : List FleetChoice} {s₀ : Nat → Server} {state₀ : Nat → Bucket} {b : Nat} {key : String}

theorem gateRules_sound : (gateRules api complete).Sound (gateSystem api) where
  toOrdered := gateRules_ordered
  other := fun {op who m f l log r x f' l'} _ hguar hserve _ hf =>
    serve_sound (l := l) hf (hguar hf) hserve
  env := fun {v f f' log l} henv hf => env_sound hf henv
  deliver := fun {f log l l'} hdeliver => absurd hdeliver (by simp [gateSystem])
  job := fun {op t i j f log} _ => j.elim

theorem sound_start (s₀ : Nat → Server) (h : ∀ b, Marked (state₀ b) → complete b) :
    (Fleet.start s₀ state₀).Sound complete := by
  rintro b (⟨node, hnode⟩ | htold | hmarked)
  · exact absurd hnode (by simp [Fleet.start])
  · exact absurd htold (by simp [Fleet.start, KvWorld.start])
  · exact .before (h b hmarked)

/-- **A step keeps the gate sound**, and its nodes checked. -/
theorem sound_step (h : (gateRules api complete).PoolSafe (gateSystem api) (fun _ _ _ _ => True) W ∧
      W.srv.Sound complete) (hs : World.step (gateSystem api) W c = some W') :
    (gateRules api complete).PoolSafe (gateSystem api) (fun _ _ _ _ => True) W' ∧
      W'.srv.Sound complete := by
  have hok : (gateRules api complete).ChoiceOk (gateSystem api) (fun _ _ _ _ => True) W c := by
    cases c with
    | start op =>
      intro p hp
      cases Option.some.inj hp
      exact fine_program op op _ [] _ h.2
    | _ => trivial
  obtain ⟨hpool, hwithin⟩ := h.1.step gateRules_sound hok hs
  exact ⟨hpool, (hwithin () h.2).2⟩

/-- **The gate is sound along every run.** -/
theorem sound_run (h : ∀ b, Marked (state₀ b) → complete b)
    (hrun : World.run (gateSystem api) (FleetWorld.start (.start s₀ state₀)) cs = some W) :
    (gateRules api complete).PoolSafe (gateSystem api) (fun _ _ _ _ => True) W ∧
      W.srv.Sound complete :=
  World.run_induction (P := fun W => (gateRules api complete).PoolSafe (gateSystem api)
    (fun _ _ _ _ => True) W ∧ W.srv.Sound complete) ⟨.nil rfl, sound_start s₀ h⟩ hrun
    fun _ _ _ _ hgate hs => sound_step hgate hs

/-! ## The calls on one bucket -/

/-- A step of the calls on a bucket finds a backend that works, no expiry of `key`
passes unseen inside a call, and no stream of a backfill ends early. -/
structure Orderly (key : String) (w : KvWorld) (c : KvChoice) : Prop where
  admits : Admits Mode.Works Op.SweepOrSimple c
  timely : Timely key w c
  unbroken : ∀ t, Unbroken key t w c

/-- The calls that run on bucket `b` beside the nodes' programs take orderly steps. -/
def Undisturbed (b : Nat) (key : String) (W : FleetWorld) (c : FleetChoice) : Prop :=
  ∀ c', c = .env (.kv b c') → Orderly key (W.srv.buckets b).calls c'

/-- A step that no call takes, and that no time passes at. -/
structure Idle (c : KvChoice) : Prop where
  admits : Admits Mode.Works Op.SweepOrSimple c
  idle : ∀ who m, c ≠ .act who m
  still : ∀ t, c ≠ .env (.tick t)

theorem Idle.orderly {w : KvWorld} {c : KvChoice} (h : Idle c) : Orderly key w c where
  admits := h.admits
  timely := ⟨fun who m _ _ _ _ _ heq => absurd heq (h.idle who m),
    fun who m _ _ heq => absurd heq (h.idle who m)⟩
  unbroken t := ⟨h.idle (.main t) .ended, fun _ m _ heq => absurd heq (h.idle (.main t) m)⟩

/-- One step of the fleet is at most one step of the calls on a bucket: of the calls
themselves, the start of one, or a move of the flag they read. -/
theorem calls_step (hpool : (gateRules api complete).PoolSafe (gateSystem api) (fun _ _ _ _ => True) W)
    (hsound : W.srv.Sound complete) (hs : World.step (gateSystem api) W c = some W') :
    (W'.srv.buckets b).calls = (W.srv.buckets b).calls ∨
      ∃ c', (c = .env (.kv b c') ∨ Idle c') ∧
        World.step (kvSystem api) (W.srv.buckets b).calls c' = some (W'.srv.buckets b).calls := by
  cases c with
  | act who m =>
    rcases hpool.guar_step gateRules_sound hs with hsame | ⟨th, r, x, l, l', -, hguar, hserve⟩
    · left
      rw [hsame]
    · rcases serve_cases (l := l) hserve with ⟨hbuckets, -⟩ | ⟨node, b', ready, -, heq⟩ |
        ⟨b', op, w, rfl, hstart, heq⟩ | ⟨b', r', m', y, s, c, -, -, heq⟩
      · left
        rw [hbuckets]
      · left
        rw [heq]
        rfl
      · rw [heq]
        by_cases hb : b = b'
        · subst hb
          have hop : op.maintains = true := hguar hsound
          refine .inr ⟨.start op, .inr ⟨.inl hop, fun _ _ => by simp, fun _ => by simp⟩, ?_⟩
          simpa [Fleet.setCalls] using hstart
        · left
          simp [Fleet.setCalls, hb]
      · left
        rw [heq]
        exact calls_setState b
  | start op =>
    obtain ⟨p, -, rfl⟩ := World.step_start hs
    exact .inl rfl
  | deliver t =>
    obtain ⟨th, l, -, -, rfl⟩ := World.step_deliver hs
    exact .inl rfl
  | env v =>
    obtain ⟨f, hv, rfl⟩ := World.step_env hs
    cases v with
    | kv b' c' =>
      simp only [gateSystem, FleetEnv.apply] at hv
      split at hv
      · exact absurd hv (by simp)
      · obtain ⟨w, hs', rfl⟩ := Option.map_eq_some_iff.1 hv
        by_cases hb : b = b'
        · subst hb
          exact .inr ⟨c', .inl rfl, by simpa [Fleet.setCalls] using hs'⟩
        · left
          simp [Fleet.setCalls, hb]
    | lists node b' =>
      simp only [gateSystem, FleetEnv.apply] at hv
      obtain ⟨w, hs', rfl⟩ := Option.map_eq_some_iff.1 hv
      by_cases hb : b = b'
      · subst hb
        have hidle : Idle (.env (.setIndexReady (W.srv.ready node b))) :=
          ⟨trivial, fun _ _ => by simp, fun _ => by simp⟩
        exact .inr ⟨.env (.setIndexReady (W.srv.ready node b)), .inr hidle,
          by simpa [Fleet.setCalls] using hs'⟩
      · left
        simp [Fleet.setCalls, hb]
    | peers node cache =>
      cases Option.some.inj hv
      exact .inl rfl
    | purgeState b' =>
      obtain ⟨m, -, hv⟩ := Option.bind_eq_some_iff.1 hv
      obtain ⟨-, heq⟩ := Option.ite_none_left_eq_some.1 hv
      cases Option.some.inj heq
      left
      exact calls_setState b
    | elapse now =>
      simp only [gateSystem, FleetEnv.apply] at hv
      split at hv
      · cases Option.some.inj hv
        exact .inl rfl
      · exact absurd hv (by simp)

/-- **The calls on a bucket, along a run of the fleet**, are a run of the calls. -/
theorem run_calls (h : ∀ b, Marked (state₀ b) → complete b)
    (hrun : World.run (gateSystem api) (FleetWorld.start (.start s₀ state₀)) cs = some W)
    (heach : World.Each (gateSystem api) (Undisturbed b key) (FleetWorld.start (.start s₀ state₀)) cs) :
    ∃ ds, (∀ c ∈ ds, Admits Mode.Works Op.SweepOrSimple c) ∧
      World.run (kvSystem api) (KvWorld.start { s₀ b with indexReady := false }) ds =
        some (W.srv.buckets b).calls ∧
      World.Each (kvSystem api) (Orderly key) (KvWorld.start { s₀ b with indexReady := false }) ds := by
  have hinv : ((gateRules api complete).PoolSafe (gateSystem api) (fun _ _ _ _ => True) W ∧
      W.srv.Sound complete) ∧ ∃ ds, (∀ c ∈ ds, Admits Mode.Works Op.SweepOrSimple c) ∧
        World.run (kvSystem api) (KvWorld.start { s₀ b with indexReady := false }) ds =
          some (W.srv.buckets b).calls ∧
        World.Each (kvSystem api) (Orderly key) (KvWorld.start { s₀ b with indexReady := false }) ds := by
    refine World.run_each (I := fun W => ((gateRules api complete).PoolSafe (gateSystem api)
      (fun _ _ _ _ => True) W ∧ W.srv.Sound complete) ∧ ∃ ds,
        (∀ c ∈ ds, Admits Mode.Works Op.SweepOrSimple c) ∧
        World.run (kvSystem api) (KvWorld.start { s₀ b with indexReady := false }) ds =
          some (W.srv.buckets b).calls ∧
        World.Each (kvSystem api) (Orderly key) (KvWorld.start { s₀ b with indexReady := false }) ds)
      ?_ hrun heach ?_
    · exact ⟨⟨.nil rfl, sound_start s₀ h⟩, [], by simp, rfl, trivial⟩
    · rintro W₁ c W₂ - hc ⟨hgate, ds, hds, hcalls, horderly⟩ hs
      refine ⟨sound_step hgate hs, ?_⟩
      rcases calls_step hgate.1 hgate.2 hs with hsame | ⟨c', hkind, hs'⟩
      · rw [hsame]
        exact ⟨ds, hds, hcalls, horderly⟩
      · have hc' : Orderly key (W₁.srv.buckets b).calls c' := by
          rcases hkind with heq | hidle
          · exact hc c' heq
          · exact hidle.orderly
        refine ⟨ds ++ [c'], ?_, ?_, ?_⟩
        · intro d hd
          rcases List.mem_append.1 hd with hd | hd
          · exact hds d hd
          · exact List.mem_singleton.1 hd ▸ hc'.admits
        · rw [World.run_concat, hcalls]
          exact hs'
        · refine World.each_concat horderly fun w hw => ?_
          cases Option.some.inj (hw.symm.trans hcalls)
          exact hc'
  exact hinv.2

/-- **A live key that misses its index record is owed**, where the index was complete
at first or the bucket empty since: the key's value was written later. -/
theorem run_owing_since {s : Server} {w : KvWorld} {ds : List KvChoice}
    (hrun : World.run (kvSystem api) (KvWorld.start s) ds = some w)
    (heach : World.Each (kvSystem api) (Orderly key) (KvWorld.start s) ds)
    (hsince : (s.Live key → s.Indexed key) ∨ Emptied w) (hmissing : Missing key w) :
    ∃ who, Owing key w who := by
  have hinv : (∃ ds, (∀ c ∈ ds, Admits Mode.Works Op.SweepOrSimple c) ∧
      World.run (kvSystem api) (KvWorld.start s) ds = some w) ∧
        ((s.Live key → s.Indexed key) ∨ Emptied w → Missing key w → ∃ who, Owing key w who) := by
    refine World.run_each (I := fun w => (∃ ds, (∀ c ∈ ds, Admits Mode.Works Op.SweepOrSimple c) ∧
      World.run (kvSystem api) (KvWorld.start s) ds = some w) ∧
        ((s.Live key → s.Indexed key) ∨ Emptied w → Missing key w → ∃ who, Owing key w who)) ?_ hrun
      heach ?_
    · refine ⟨⟨[], by simp, rfl⟩, ?_⟩
      rintro (hcomplete | hempty | ⟨ev, hev, -⟩) hmissing
      · exact absurd (hcomplete hmissing.live) hmissing.unindexed
      · exact absurd hmissing.live (not_live_of_empty hempty)
      · exact absurd hev (by simp [KvWorld.start])
    · rintro w₁ c w₂ - hc ⟨⟨ds, hds, hrun₁⟩, howing⟩ hs
      have hany : ∀ c ∈ ds, Admits (fun _ => True) Op.SweepOrSimple c := fun c hc => admits_any (hds c hc)
      refine ⟨⟨ds ++ [c], ?_, ?_⟩, fun hsince hmissing => ?_⟩
      · intro d hd
        rcases List.mem_append.1 hd with hd | hd
        · exact hds d hd
        · exact List.mem_singleton.1 hd ▸ hc.admits
      · rw [World.run_concat, hrun₁]
        exact hs
      · refine owing_step hany hrun₁ hs hc.timely (uncut_of_works hds hrun₁ hc.admits) ?_ hmissing
        exact howing (hsince.imp_right fun hempty => hempty.before hs hmissing.live)
  exact hinv.2 hsince hmissing

/-- **The gate opens to a complete index.**  Nodes run their sweep tasks, complete
indexes by hand and open buckets in any interleaving, beside calls on single
keys, sweeps and backfills, and what was recorded of the indexes before is so.
In every state such a run reaches, where the flag of a node is up, where
listings are told to read the index, and where the bucket's record says the
index is complete, every live key of the bucket has its index record or a call
owes it one; once no call is in flight it has it. -/
theorem gate_opens_complete (api : CounterApi) (s₀ : Nat → Server) (state₀ : Nat → Bucket)
    (h₀ : ∀ b, (s₀ b).WellFormed)
    (hstate : ∀ b, Marked (state₀ b) → ∀ key, (s₀ b).Live key → (s₀ b).Indexed key)
    (cs : List FleetChoice) (W : FleetWorld)
    (hrun : World.run (gateSystem api) (FleetWorld.start (.start s₀ state₀)) cs = some W)
    (b : Nat) (key : String)
    (heach : World.Each (gateSystem api) (Undisturbed b key) (FleetWorld.start (.start s₀ state₀)) cs)
    (hopen : (∃ node, W.srv.ready node b = true) ∨ (W.srv.buckets b).calls.srv.indexReady = true ∨
      Marked (W.srv.buckets b).state)
    (hlive : (W.srv.buckets b).calls.srv.Live key) :
    ((W.srv.buckets b).calls.srv.Indexed key ∨ ∃ who, Owing key (W.srv.buckets b).calls who) ∧
      ((W.srv.buckets b).calls.Quiet → (W.srv.buckets b).calls.srv.Indexed key) := by
  obtain ⟨ds, hds, hcalls, horderly⟩ := run_calls hstate hrun heach
  have howed : (W.srv.buckets b).calls.srv.Indexed key ∨ ∃ who, Owing key (W.srv.buckets b).calls who := by
    refine or_iff_not_imp_left.2 fun hunindexed => ?_
    have hmissing : Missing key (W.srv.buckets b).calls := ⟨hlive, hunindexed⟩
    cases (sound_run hstate hrun).2 b hopen with
    | before hcomplete => exact run_owing_since hcalls horderly (.inl (hcomplete key)) hmissing
    | emptied hempty => exact run_owing_since hcalls horderly (.inr hempty) hmissing
    | @backfilled t fuel th a hth hop hret =>
      have heach' := horderly.mono fun w c hc => And.intro hc.timely (hc.unbroken t)
      have hagrees : Server.Agrees { s₀ b with indexReady := false } := (h₀ b).agrees
      rcases run_coming hagrees hds hcalls heach' hmissing with howing | hback
      · exact howing
      · rcases (hback th fuel hth hop).cases with ⟨r, k, hr⟩ | ⟨e, he⟩ | hstuck
        · exact absurd (hret.symm.trans hr) (by simp)
        · exact absurd (hret.symm.trans he) (by simp)
        · exact absurd (hret.symm.trans hstuck) (by simp)
  refine ⟨howed, fun hquiet => howed.resolve_right ?_⟩
  rintro ⟨who, howing⟩
  exact not_owing_of_quiet hquiet who howing

/-! ## A fleet that completes an index -/

/-- While no time passes and every backfill reads the clock before it is handed a
record, nothing disturbs the calls. -/
theorem each_undisturbed
    (hworks : ∀ c ∈ cs, ∀ c', c = .env (.kv b c') → Admits Mode.Works Op.SweepOrSimple c' ∧
      (∀ t, c' ≠ .act (.main t) .ended) ∧ ∀ t, c' ≠ .env (.tick t))
    (hfirst : World.Each (gateSystem api) (fun W _ => ∀ t < (W.srv.buckets b).calls.threads.length,
      ClockFirst t (W.srv.buckets b).calls) (FleetWorld.start (.start s₀ state₀)) cs) :
    World.Each (gateSystem api) (Undisturbed b key) (FleetWorld.start (.start s₀ state₀)) cs := by
  have hstill : World.Each (gateSystem api) (fun W _ => Still (W.srv.buckets b).calls)
      (FleetWorld.start (.start s₀ state₀)) cs := by
    refine World.each_of_invariant (I := fun W => ((gateRules api fun _ => True).PoolSafe (gateSystem api)
      (fun _ _ _ _ => True) W ∧ W.srv.Sound fun _ => True) ∧ Still (W.srv.buckets b).calls) ?_
      (fun W c hc h => h.2) ?_
    · refine ⟨⟨.nil rfl, sound_start s₀ fun _ _ => trivial⟩, ?_⟩
      exact fun e he => absurd he (by simp [FleetWorld.start, Fleet.start, KvWorld.start])
    · rintro W c W' hc ⟨hgate, hstill⟩ hs
      refine ⟨sound_step hgate hs, ?_⟩
      rcases calls_step hgate.1 hgate.2 hs with hsame | ⟨c', hkind, hs'⟩
      · rwa [hsame]
      · refine hstill.step (fun t => ?_) hs'
        rcases hkind with heq | hidle
        · exact (hworks c hc c' heq).2.2 t
        · exact hidle.still t
  refine ((hstill.and hfirst).and (World.each_mem hworks)).mono ?_
  rintro W c ⟨⟨hstill, hfirst⟩, hworks⟩ c' heq
  obtain ⟨hadmits, hflows, -⟩ := hworks c' heq
  refine ⟨hadmits, hstill.timely c', fun t => ClockFirst.unbroken ?_ (hflows t)⟩
  by_cases ht : t < (W.srv.buckets b).calls.threads.length
  · exact hfirst t ht
  · simp [ClockFirst, List.getElem?_eq_none (Nat.not_lt.1 ht)]

/-- Node 0 sweeps a bucket with one value and no index while a put runs beside it,
and node 1 looks at the index afterwards. -/
def gateBesidePut : List FleetChoice :=
  let act (t : Nat) (m : GateMode) : FleetChoice := .act (.main t) m
  let sweeper (node : Nat) : FleetChoice := .start (.sweeper ⟨node, 0, ⟨false⟩, false, 0⟩ 4 1)
  sweeper 0 :: act 0 (.fired true) :: List.replicate 5 (act 0 (.backend .ok)) ++
    act 0 (.lease (.ok true)) :: List.replicate 3 (act 0 (.backend .ok)) ++
    backfillBesidePut.tail.map (fun c => .env (.kv 0 c)) ++
    List.replicate 4 (act 0 (.backend .ok)) ++
    sweeper 1 :: act 1 (.fired false) :: List.replicate 6 (act 1 (.backend .ok))

theorem gate_opens_complete_beside_put :
    ∃ W ∈ World.run (gateSystem decimalCounters)
        (FleetWorld.start (.start (fun _ => expiringServer) fun _ => .empty)) gateBesidePut,
      W.srv.ready 1 0 = true ∧ (W.srv.buckets 0).calls.srv.Live "k" ∧
        (W.srv.buckets 0).calls.srv.Indexed "k" := by
  have hrun : ∃ W ∈ World.run (gateSystem decimalCounters)
      (FleetWorld.start (.start (fun _ => expiringServer) fun _ => .empty)) gateBesidePut,
        W.srv.ready 1 0 = true ∧ (W.srv.buckets 0).calls.srv.Live "k" ∧ (W.srv.buckets 0).calls.Quiet := by
    decide +kernel
  obtain ⟨W, hW, hready, hlive, hquiet⟩ := hrun
  have hfirst : World.Each (gateSystem decimalCounters) (fun W _ =>
      ∀ t < (W.srv.buckets 0).calls.threads.length, ClockFirst t (W.srv.buckets 0).calls)
      (FleetWorld.start (.start (fun _ => expiringServer) fun _ => .empty)) gateBesidePut := by
    decide +kernel
  have hworks : ∀ c ∈ gateBesidePut, ∀ c', c = .env (.kv 0 c') →
      Admits Mode.Works Op.SweepOrSimple c' ∧ (∀ t, c' ≠ .act (.main t) .ended) ∧
        ∀ t, c' ≠ .env (.tick t) := by
    rintro c hc c' rfl
    refine backfillBesidePut_works c' (List.mem_of_mem_tail ?_)
    simpa [gateBesidePut, -List.map_tail] using hc
  exact ⟨W, hW, hready, hlive, (gate_opens_complete decimalCounters (fun _ => expiringServer)
    (fun _ => .empty) (fun _ => expiringServer_wellFormed)
    (fun _ hmarked => absurd hmarked not_marked_empty) gateBesidePut W hW 0 "k"
    (each_undisturbed hworks hfirst) (.inl ⟨1, hready⟩) hlive).2 hquiet⟩

end System

end ClusterNats
