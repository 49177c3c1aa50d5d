import ClusterNats.Conc.History
import ClusterNats.Conc.Single
import ClusterNats.Kv.Calls

/-!
# The agreement of the store's calls

What every call of the store may rely on while others run: the bucket only
grows old, the clock does not go back, the log grows, and what a consumer has
buffered was in the bucket.  A `Duty` adds what one verification asks of the
writes; its `rules` are the rely-guarantee agreement of that verification.

* `Later`, `Seen` — what is stable.
* `Duty`, `Duty.rules`, `Duty.Steady`, `Duty.Kept`, `Duty.sound` — a verification and its
  agreement.
* `Duty.run` — every run of checked calls.
* `safe_req` — one request of a call.
* `SlotRead`, `safe_slot` — what a read of a key establishes.
* `PublishStep`, `safe_publish` — what a write establishes.
-/

namespace ClusterNats

open Conc

/-- What one call sees of the fleet. -/
abbrev KvView := View kvSig Server (Option Consumer)

/-- An agreement of the store's calls. -/
abbrev KvRules := Rules kvSig Server (Option Consumer) Mode Op

/-! ## What is stable -/

/-- Time has passed between two views. -/
structure Later (v v' : KvView) : Prop where
  bucket : v.srv.bucket.Evolves v'.srv.bucket
  clock : v.srv.now ≤ v'.srv.now
  log : v.log <:+ v'.log

theorem Later.refl (v : KvView) : Later v v := ⟨.refl _, UInt64.le_refl _, List.suffix_refl _⟩

theorem Later.trans {u v w : KvView} (h : Later u v) (h' : Later v w) : Later u w :=
  ⟨h.bucket.trans h'.bucket, UInt64.le_trans h.clock h'.clock, h.log.trans h'.log⟩

/-- The record was in the bucket: what the subject holds up to its sequence is
that record. -/
def Seen (s : Server) (d : Delivered) : Prop :=
  d.streamSequence ≤ s.bucket.lastSeq ∧ ∀ m, s.bucket.last d.subject = some m →
    m.seq ≤ d.streamSequence → m.seq = d.streamSequence ∧ m.body.headers = d.headers

theorem Seen.mono {s s' : Server} {d : Delivered} (h : Seen s d)
    (hs : s.bucket.Evolves s'.bucket) : Seen s' d :=
  ⟨h.1.trans hs.1, fun m hm hle => h.2 m (hs.2 _ m hm (hle.trans h.1)) hle⟩

/-- Everything a consumer has buffered was in the bucket. -/
def BufferSeen (s : Server) (c : Option Consumer) : Prop :=
  ∀ c' ∈ c, ∀ d ∈ c'.buffer, Seen s d

theorem BufferSeen.mono {s s' : Server} {c : Option Consumer} (h : BufferSeen s c)
    (hs : s.bucket.Evolves s'.bucket) : BufferSeen s' c :=
  fun c' hc d hd => (h c' hc d hd).mono hs

theorem bufferSeen_none (s : Server) : BufferSeen s none := fun _ hc => absurd hc (by simp)

/-- What the server hands out is in the bucket. -/
theorem BufferSeen.deliver {s : Server} {c c' : Option Consumer} (h : BufferSeen s c)
    (hc : Consumer.deliver s c = some c') : BufferSeen s c' := by
  cases c with
  | none => exact absurd hc (by simp [Consumer.deliver])
  | some c =>
    obtain ⟨m, hm, rfl⟩ := Option.map_eq_some_iff.1 hc
    have hmem := (SubjectLog.mem_of_first hm).1
    have hlast := SubjectLog.last_of_mem hmem
    intro c' hc' d hd
    cases Option.some.inj hc'
    rcases List.mem_append.1 hd with hd | hd
    · exact h c (by simp) d hd
    · rw [List.mem_singleton.1 hd]
      refine ⟨(s.bucket.bounded m hmem).2, fun m' hm' _ => ?_⟩
      rw [hlast] at hm'
      cases Option.some.inj hm'
      exact ⟨rfl, rfl⟩

/-- What is left of a buffer after a read was in it. -/
theorem BufferSeen.nextRecord {s : Server} {m : Mode} {c c' : Option Consumer} {x : NextRecord}
    (h : BufferSeen s c) (hx : nextRecord m c = some (x, c')) :
    BufferSeen s c' ∧ ∀ d, x = .record d → Seen s d := by
  unfold ClusterNats.nextRecord at hx
  split at hx
  · rename_i filter next r buffer
    cases Option.some.inj hx
    have hall := h ⟨filter, next, r :: buffer⟩ (by simp)
    refine ⟨fun c' hc' d hd => ?_, fun d hd => ?_⟩
    · cases Option.some.inj hc'
      exact hall d (List.mem_cons_of_mem _ hd)
    · cases hd
      exact hall r (by simp)
  · rename_i reason filter next r buffer
    cases Option.some.inj hx
    have hall := h ⟨filter, next, r :: buffer⟩ (by simp)
    refine ⟨fun c' hc' d hd => ?_, fun d hd => by cases hd⟩
    cases Option.some.inj hc'
    exact hall d (List.mem_cons_of_mem _ hd)
  · cases Option.some.inj hx
    exact ⟨h, fun d hd => by cases hd⟩
  · split at hx
    · cases Option.some.inj hx
      exact ⟨h, fun d hd => by cases hd⟩
    · exact absurd hx (by simp)
  · split at hx
    · cases Option.some.inj hx
      exact ⟨h, fun d hd => by cases hd⟩
    · exact absurd hx (by simp)
  · exact absurd hx (by simp)

/-! ## The server's own steps -/

/-- A request's effect only makes the bucket older. -/
theorem effect_evolves (s : Server) (r : Req) : s.bucket.Evolves (r.effect s).bucket := by
  cases r with
  | publish subject headers payload expected =>
    simp only [Req.effect, Server.publish]
    split
    · rename_i bucket hstore
      rw [(SubjectLog.storeIf_eq_some.1 hstore).2]
      exact SubjectLog.evolves_store
    · exact .refl _
  | purge subject keep => exact SubjectLog.evolves_purge
  | _ => exact .refl _

theorem effect_clock (s : Server) (r : Req) : (r.effect s).clock = s.clock := by
  cases r with
  | publish subject headers payload expected =>
    simp only [Req.effect, Server.publish]
    split <;> rfl
  | _ => rfl

/-- The environment leaves the bucket and does not turn the clock back. -/
theorem env_later {v : Env} {s s' : Server} (h : v.apply s = some s') :
    s'.bucket = s.bucket ∧ s.now ≤ s'.now := by
  cases v with
  | tick t =>
    simp only [Env.apply] at h
    split at h
    · rename_i ht
      cases Option.some.inj h
      exact ⟨rfl, unixSecs_mono ht.1 ht.2⟩
    · exact absurd h (by simp)
  | setIndexReady ready =>
    cases Option.some.inj h
    exact ⟨rfl, UInt64.le_refl _⟩

/-- A served request only makes the bucket older. -/
theorem serve_later {m : Mode} {s s' : Server} {c c' : Option Consumer} {r : Req} {x : Resp r}
    (h : serve m s c r = some (x, s', c')) : s.bucket.Evolves s'.bucket ∧ s.now ≤ s'.now := by
  rcases serve_state h with rfl | rfl
  · exact ⟨.refl _, UInt64.le_refl _⟩
  · exact ⟨effect_evolves s r, by rw [Server.now, Server.now, effect_clock]; exact UInt64.le_refl _⟩

/-- A served request leaves its caller a buffer of records that were there. -/
theorem serve_bufferSeen {m : Mode} {s s' : Server} {c c' : Option Consumer} {r : Req} {x : Resp r}
    (h : serve m s c r = some (x, s', c')) (hc : BufferSeen s c) : BufferSeen s' c' := by
  have hs := (serve_later h).1
  cases r with
  | systemTime => cases Option.some.inj h; exact hc
  | indexReady => cases Option.some.inj h; exact hc
  | getLast subject =>
    obtain ⟨y, -, hy⟩ := Option.map_eq_some_iff.1 h
    cases hy
    exact hc
  | createConsumer filter start =>
    obtain ⟨y, -, hy⟩ := Option.map_eq_some_iff.1 h
    cases hy
    exact hc
  | infoWithSubjects filter =>
    obtain ⟨y, -, hy⟩ := Option.map_eq_some_iff.1 h
    cases hy
    exact hc
  | nextRecord =>
    obtain ⟨y, hy, hxy⟩ := Option.map_eq_some_iff.1 h
    cases hxy
    exact (hc.nextRecord hy).1
  | messages filter start =>
    cases m with
    | ok =>
      cases Option.some.inj h
      intro c' hc' d hd
      cases Option.some.inj hc'
      exact absurd hd (by simp)
    | fail reason => cases Option.some.inj h; exact hc
    | _ => cases h
  | publish subject headers payload expected =>
    cases m with
    | ok => cases Option.some.inj h; exact hc.mono hs
    | fail reason => cases Option.some.inj h; exact hc
    | lost reason => cases Option.some.inj h; exact hc.mono hs
    | unsent reason => cases Option.some.inj h; exact hc
    | _ => cases h
  | purge subject keep =>
    cases m with
    | ok => cases Option.some.inj h; exact hc.mono hs
    | fail reason => cases Option.some.inj h; exact hc
    | lost reason => cases Option.some.inj h; exact hc.mono hs
    | _ => cases h

/-! ## Histories -/

section Histories

variable {api : CounterApi} {ok : Mode → Prop} {s₀ s : Server} {log : List KvEvent}

/-- The environment leaves the bucket as it is. -/
theorem envReach_later (h : EnvReach (kvSystem api) s₀ s) :
    s.bucket = s₀.bucket ∧ s₀.now ≤ s.now := by
  induction h with
  | refl => exact ⟨rfl, UInt64.le_refl _⟩
  | tail _ hstep ih =>
    obtain ⟨v, hv⟩ := hstep
    obtain ⟨hbucket, hclock⟩ := env_later hv
    exact ⟨hbucket.trans ih.1, UInt64.le_trans ih.2 hclock⟩

/-- Along a history the bucket grows old and the clock does not go back. -/
theorem history_later (h : History (kvSystem api) ok s₀ log s) :
    s₀.bucket.Evolves s.bucket ∧ s₀.now ≤ s.now := by
  refine h.induction (P := fun _ s => s₀.bucket.Evolves s.bucket ∧ s₀.now ≤ s.now)
    ⟨.refl _, UInt64.le_refl _⟩ ?_ ?_
  · rintro - v s₁ s₂ ⟨hbucket, hclock⟩ hs
    obtain ⟨heq, hle⟩ := env_later hs
    exact ⟨heq ▸ hbucket, UInt64.le_trans hclock hle⟩
  · rintro l e m c s' c' - ⟨hbucket, hclock⟩ - hserve
    obtain ⟨hevolves, hle⟩ := serve_later hserve
    exact ⟨hbucket.trans hevolves, UInt64.le_trans hclock hle⟩

/-- The history up to an event. -/
theorem history_before {e : KvEvent} {l : List KvEvent} (h : History (kvSystem api) ok s₀ log s)
    (hsuf : (e :: l) <:+ log) : History (kvSystem api) ok s₀ l e.pre := by
  obtain ⟨post, rfl⟩ := hsuf
  exact h.split.1

/-- From an event on. -/
theorem history_since {e : KvEvent} {l : List KvEvent} (h : History (kvSystem api) ok s₀ log s)
    (hsuf : (e :: l) <:+ log) : e.pre.bucket.Evolves s.bucket ∧ e.pre.now ≤ s.now := by
  obtain ⟨post, rfl⟩ := hsuf
  obtain ⟨-, m, c, s', c', -, hserve, hpost⟩ := h.split
  obtain ⟨hbucket, hclock⟩ := serve_later hserve
  obtain ⟨hbucket', hclock'⟩ := history_later hpost
  exact ⟨hbucket.trans hbucket', UInt64.le_trans hclock hclock'⟩

end Histories

/-! ## Duties -/

/-- Does the request change the bucket? -/
def Req.isWrite : Req → Bool
  | .publish .. => true
  | .purge .. => true
  | _ => false

theorem effect_of_not_write {s : Server} {r : Req} (h : r.isWrite = false) : r.effect s = s := by
  cases r <;> first | rfl | exact absurd h (by simp [Req.isWrite])

/-- What one verification asks of the calls. -/
structure Duty where
  /-- What holds of the server throughout. -/
  inv : Server → Prop
  /-- The backend modes that occur. -/
  allowed : Mode → Prop
  /-- What a write owes. -/
  write : Op → Actor → Server → List KvEvent → Req → Prop
  /-- What a job is started with. -/
  jobPre : Op → Nat → Job → Server → List KvEvent → Prop
  /-- What a finished job established. -/
  jobPost : Op → Nat → Job → Except ClusterError Done → Server → List KvEvent → Prop

namespace Duty

variable (D : Duty)

/-- The invariant and what the caller's consumer has buffered. -/
def Good (v : KvView) : Prop := D.inv v.srv ∧ BufferSeen v.srv v.loc

/-- The agreement of a verification. -/
def rules : KvRules where
  rely v v' := Later v v' ∧ (D.Good v → D.Good v')
  allowed := D.allowed
  guar op who s log r := r.isWrite = true → D.write op who s log r
  jobPre op t j s log := D.inv s ∧ D.jobPre op t j s log
  jobPost := D.jobPost

variable {D} in
theorem rely_refl (v : KvView) : D.rules.rely v v := ⟨.refl v, id⟩

variable {D} in
theorem rely_trans {u v w : KvView} (h : D.rules.rely u v) (h' : D.rules.rely v w) :
    D.rules.rely u w := ⟨h.1.trans h'.1, h'.2 ∘ h.2⟩

variable {D} in
theorem ordered : D.rules.Ordered := ⟨rely_refl, rely_trans⟩

/-- Writes and the environment keep the invariant. -/
structure Steady : Prop where
  write : ∀ {op who s log r}, D.write op who s log r → r.isWrite = true → D.inv s →
    D.inv (r.effect s)
  env : ∀ {v s s'}, Env.apply v s = some s' → D.inv s → D.inv s'

/-- The calls keep the duty: it is steady, and every job started keeps it. -/
structure Kept (api : CounterApi) : Prop extends D.Steady where
  job : ∀ {op t i j s log}, D.inv s → D.jobPre op t j s log →
    D.rules.Safe (kvSystem api) op (.job t i)
      (Ends fun r v => D.jobPost op t j r v.srv v.log) j.program [] ⟨s, log, none⟩

variable {D} {api : CounterApi}

/-- A served request within the duty is within what the others rely on. -/
theorem Steady.other (h : D.Steady) {op : Op} {who : Actor} {m : Mode} {s s' : Server}
    {l l' : Option Consumer} {log : List KvEvent} {r : Req} {x : Resp r}
    (hg : r.isWrite = true → D.write op who s log r) (hx : serve m s l r = some (x, s', l')) :
    (D.inv s → D.inv s') ∧ s.bucket.Evolves s'.bucket ∧ s.now ≤ s'.now := by
  refine ⟨fun hinv => ?_, serve_later hx⟩
  rcases serve_state hx with rfl | rfl
  · exact hinv
  · cases hw : r.isWrite with
    | true => exact h.write (hg hw) hw hinv
    | false => rwa [effect_of_not_write hw]

theorem Kept.sound (h : D.Kept api) : D.rules.Sound (kvSystem api) where
  toOrdered := ordered
  other := by
    intro op who m s l log r x s' l' _ hg hx l''
    obtain ⟨hinv, hbucket, hclock⟩ := h.toSteady.other hg hx
    exact ⟨⟨hbucket, hclock, List.suffix_cons _ _⟩, fun hv => ⟨hinv hv.1, hv.2.mono hbucket⟩⟩
  env := by
    intro v s s' log l hs
    obtain ⟨hbucket, hclock⟩ := env_later hs
    have hev : s.bucket.Evolves s'.bucket := hbucket ▸ .refl _
    exact ⟨⟨hev, hclock, List.suffix_refl _⟩, fun hv => ⟨h.env hs hv.1, hv.2.mono hev⟩⟩
  deliver := by
    intro s log l l' hl
    exact ⟨⟨.refl _, UInt64.le_refl _, List.suffix_refl _⟩, fun hv => ⟨hv.1, hv.2.deliver hl⟩⟩
  job := fun hj => h.job hj.1 hj.2

end Duty

/-! ## Runs -/

/-- A choice that starts an admitted call or meets an allowed backend mode. -/
def Admits (allowed : Mode → Prop) (admitted : Op → Prop) : KvChoice → Prop
  | .start op => admitted op
  | .act _ m => allowed m
  | _ => True

/-- A step of thread `t`: of its main program, of one of its jobs, or a record
handed to it. -/
inductive StepOf (t : Nat) : KvChoice → Prop
  | act (who : Actor) (m : Mode) (h : who.thread = t) : StepOf t (.act who m)
  | deliver : StepOf t (.deliver t)

/-- **Every run is checked.**  From a server that meets the invariant, a run of
checked calls stays checked, its log is guarded and tells its history. -/
theorem Duty.run {D : Duty} {api : CounterApi} (hD : D.Kept api) {admitted : Op → Prop}
    {Q : Nat → Op → Except ClusterError Reply → KvView → Prop}
    (hcall : ∀ t op s log, admitted op → D.inv s →
      D.rules.Safe (kvSystem api) op (.main t) (fun _ => Q t op) (op.program api) [] ⟨s, log, none⟩)
    {s₀ : Server} (h₀ : D.inv s₀) {cs : List KvChoice} {w : KvWorld}
    (hcs : ∀ c ∈ cs, Admits D.allowed admitted c)
    (hrun : World.run (kvSystem api) (KvWorld.start s₀) cs = some w) :
    D.rules.PoolSafe (kvSystem api) Q w ∧ D.rules.Within (KvWorld.start s₀) w ∧
      D.rules.Guarded w ∧ History (kvSystem api) D.allowed s₀ w.log w.srv := by
  have hR := hD.sound
  have hnil : D.rules.PoolSafe (kvSystem api) Q (KvWorld.start s₀) := Rules.PoolSafe.nil rfl
  have hchoice : ∀ w₁ c, c ∈ cs → D.rules.PoolSafe (kvSystem api) Q w₁ →
      D.rules.Within (KvWorld.start s₀) w₁ → D.rules.ChoiceOk (kvSystem api) Q w₁ c := by
    intro w₁ c hc _ hw
    have hadmit := hcs c hc
    cases c with
    | start op =>
      intro p hp
      cases Option.some.inj hp
      exact hcall _ op _ _ hadmit ((hw none).2 ⟨h₀, bufferSeen_none _⟩).1
    | act who m => exact hadmit
    | env v => trivial
    | deliver t => trivial
  have hboth := hnil.run hR hrun hchoice
  refine ⟨hboth.1, hboth.2, ?_, ?_⟩
  · refine hnil.run_guarded hR ?_ hrun hchoice
    intro e log hlog
    exact absurd hlog (by simp [KvWorld.start])
  · refine World.run_history (w := KvWorld.start s₀) Relation.ReflTransGen.refl (fun c hc => ?_) hrun
    have hadmit := hcs c hc
    cases c with
    | act who m => exact hadmit
    | _ => trivial

/-! ## One request -/

section Requests

variable {D : Duty} {api : CounterApi} {op : Op} {who : Actor} {α : Type}
  {Q : List Job → Except ClusterError α → KvView → Prop} {js : List Job} {v : KvView}

/-- One request was served between two views. -/
def Step (D : Duty) (who : Actor) (r : Req) (v : KvView) (x : Resp r) (v' : KvView) : Prop :=
  ∃ m, D.allowed m ∧ serve m v.srv v.loc r = some (x, v'.srv, v'.loc) ∧
    v'.log = ⟨who, r, x, v.srv⟩ :: v.log

/-- A served request within the duty is within what its caller relies on. -/
theorem rely_step (hD : D.Steady) {r : Req} {m : Mode} {x : Resp r} {s : Server}
    {l : Option Consumer} (hg : r.isWrite = true → D.write op who v.srv v.log r)
    (hx : serve m v.srv v.loc r = some (x, s, l)) :
    D.rules.rely v ⟨s, ⟨who, r, x, v.srv⟩ :: v.log, l⟩ := by
  obtain ⟨hinv, hbucket, hclock⟩ := hD.other hg hx
  exact ⟨⟨hbucket, hclock, List.suffix_cons _ _⟩,
    fun hv => ⟨hinv hv.1, serve_bufferSeen hx hv.2⟩⟩

/-- A program whose writes and jobs are all within the duty keeps it. -/
theorem safe_makes (hD : D.Steady) {P : Req → Prop} {J : Job → Prop}
    (hP : ∀ s log r, P r → D.rules.guar op who s log r)
    (hJ : ∀ j s log, J j → D.jobPre op who.thread j s log) {p : Kv α} (h : p.Makes P J)
    (hv : D.Good v) : D.rules.Safe (kvSystem api) op who (fun _ _ _ => True) p js v := by
  refine Rules.safe_of_makes (I := D.Good) (fun v v' (hv : D.rules.rely v v') => hv.2) ?_ hP
    (fun j v hj hv => ⟨hv.1, hJ j _ _ hj⟩) h hv
  intro v m r x s l hv _ hg hx
  exact (rely_step hD hg hx).2 hv

/-- Where a program ends, what it relies on has happened since its start. -/
theorem safe_since (hD : D.Steady) {p : Kv α} (h : D.rules.Safe (kvSystem api) op who Q p js v) :
    D.rules.Safe (kvSystem api) op who (fun js' x v' => Q js' x v' ∧ D.rules.rely v v') p js v := by
  induction p generalizing js v with
  | ret a => exact fun v' hv => ⟨h v' hv, hv⟩
  | fail e => exact fun v' hv => ⟨h v' hv, hv⟩
  | req r k ih =>
    intro v' hv
    obtain ⟨hg, hk⟩ := h v' hv
    refine ⟨hg, fun m x s l hm hx => (ih x (hk m x s l hm hx)).conseq ?_⟩
    exact fun _ _ _ hend => ⟨hend.1, Duty.rely_trans hv (Duty.rely_trans (rely_step hD hg hx) hend.2)⟩
  | spawn cap j k ih =>
    intro v' hv
    obtain ⟨hj, hk⟩ := h v' hv
    exact ⟨hj, (ih hk).conseq fun _ _ _ hend => ⟨hend.1, Duty.rely_trans hv hend.2⟩⟩
  | join k ih =>
    intro v' hv rs hrs
    exact (ih rs (h v' hv rs hrs)).conseq fun _ _ _ hend => ⟨hend.1, Duty.rely_trans hv hend.2⟩
  | tryJoin k ih =>
    intro v' hv
    obtain ⟨hok, herr⟩ := h v' hv
    refine ⟨fun ds hds => (ih _ (hok ds hds)).conseq ?_, fun e => (ih _ (herr e)).conseq ?_⟩
    all_goals exact fun _ _ _ hend => ⟨hend.1, Duty.rely_trans hv hend.2⟩
  | stuck => trivial

/-- A request of a call, checked against its duty. -/
theorem safe_req (hD : D.Steady) {r : Req} {k : Resp r → Kv α}
    (hwrite : ∀ v₁, D.rules.rely v v₁ → r.isWrite = true → D.write op who v₁.srv v₁.log r)
    (h : ∀ v₁ x v₂, D.rules.rely v v₁ → Step D who r v₁ x v₂ → D.rules.rely v₁ v₂ →
      D.rules.Safe (kvSystem api) op who Q (k x) js v₂) :
    D.rules.Safe (kvSystem api) op who Q (.req r k) js v := by
  intro v₁ hv
  refine ⟨hwrite v₁ hv, fun m x s l hm hx => ?_⟩
  exact h v₁ x ⟨s, _, l⟩ hv ⟨m, hm, hx, rfl⟩ (rely_step hD (hwrite v₁ hv) hx)

/-- A request that reads. -/
theorem safe_read (hD : D.Steady) {r : Req} {k : Resp r → Kv α} (hr : r.isWrite = false)
    (h : ∀ v₁ x v₂, D.rules.rely v v₁ → Step D who r v₁ x v₂ → v₂.srv = v₁.srv →
      D.rules.rely v₁ v₂ → D.rules.Safe (kvSystem api) op who Q (k x) js v₂) :
    D.rules.Safe (kvSystem api) op who Q (.req r k) js v := by
  refine safe_req hD (fun _ _ hw => absurd hw (by simp [hr])) fun v₁ x v₂ hv hstep hv₂ => ?_
  have hsrv : v₂.srv = v₁.srv := by
    obtain ⟨m, -, hx, -⟩ := hstep
    rcases serve_state hx with h | h
    · exact h
    · rw [h, effect_of_not_write hr]
  exact h v₁ x v₂ hv hstep hsrv hv₂

/-- Reading the clock. -/
theorem safe_now (hD : D.Steady) {f : UInt64 → Kv α}
    (h : ∀ v', D.rules.rely v v' → D.rules.Safe (kvSystem api) op who Q (f v'.srv.now) js v') :
    D.rules.Safe (kvSystem api) op who Q (nowUnixSecs >>= f) js v := by
  refine safe_read (r := .systemTime) (k := fun (t : Instant) => f (unixSecs t)) hD rfl
    fun v₁ x v₂ hv hstep hsrv hv₂ => ?_
  obtain ⟨m, -, hx, -⟩ := hstep
  have hclock : x = v₂.srv.clock := by
    rw [hsrv]
    exact (Prod.mk.inj (Option.some.inj hx)).1.symm
  rw [hclock]
  exact h v₂ (Duty.rely_trans hv hv₂)

/-- An expiry is computed from the clock. -/
theorem safe_expiresAtFrom (hD : D.Steady) (ttl : Option Duration) {f : Option UInt64 → Kv α}
    (h : ∀ e v', D.rules.rely v v' → (e = none ↔ ttl = none) →
      D.rules.Safe (kvSystem api) op who Q (f e) js v') :
    D.rules.Safe (kvSystem api) op who Q (expiresAtFrom ttl >>= f) js v := by
  cases ttl with
  | none => exact h none v (Duty.rely_refl v) (by simp)
  | some d =>
    rw [expiresAtFrom, bind_assoc]
    exact safe_now hD fun v' hv => h _ v' hv (by simp)

end Requests

end ClusterNats
