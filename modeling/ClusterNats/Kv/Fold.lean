import ClusterNats.Conc.Trace
import ClusterNats.Kv.Cas

/-!
# No lost update

A call that revises a key replaces exactly the record it read.  Where only
counter calls run, the counter is the fold of their steps in the order in which
they stored their counts.

* `ReplacesRead`, `replaces_read` — what a step of a revising call replaces.
* `storedPayload`, `storers` — who stored counts, in storage order.
* `CountIs`, `fold_run` — after every event of a run the count is the fold.
* `updateCounter_outcomes` — a call stores at most one count, and returns it.
* `cas_no_lost_update` — both, over every run.
-/

namespace ClusterNats

open Conc

/-! ## One step -/

/-- The step from `w` to `w'` stored a value under `key` that replaced what the
call had read, and nothing was stored or removed in between: where a record was
read, the key held that very record ever since. -/
def ReplacesRead (api : CounterApi) (op : Op) (who : Actor) (key : String) (w w' : KvWorld) : Prop :=
  ∃ value exp post pre s₁ now,
    w'.srv.bucket.last (encodeKey key) = some ⟨encodeKey key, w.srv.bucket.lastSeq + 1,
      ⟨[(expiresHeader, renderU64 (exp.getD 0))], encodeValue value exp, w.srv.clock⟩⟩ ∧
    w.log = post ++ readEvent who (encodeKey key) s₁ :: pre ∧
    w.srv.bucket.last (encodeKey key) = s₁.bucket.last (encodeKey key) ∧
    (∀ m, s₁.bucket.last (encodeKey key) = some m →
      ∀ d ∈ post, d.pre.bucket.last (encodeKey key) = some m) ∧
    s₁.now ≤ now ∧
    Revises api op (.ofRecord now ((s₁.bucket.last (encodeKey key)).map Record.ofMessage)) value exp

/-- A request within the duty that changed the record of the key stored a value
over what was read. -/
theorem casOk_changes {api : CounterApi} {op : Op} {who : Actor} {key : String} {m : Mode}
    {s s' : Server} {c c' : Option Consumer} {log : List KvEvent} {r : Req} {x : Resp r}
    (hok : CasOk api op who key s log r) (hserve : serve m s c r = some (x, s', c'))
    (hne : s'.bucket.last (encodeKey key) ≠ s.bucket.last (encodeKey key)) :
    ∃ value exp, s'.bucket.last (encodeKey key) = some ⟨encodeKey key, s.bucket.lastSeq + 1,
        ⟨[(expiresHeader, renderU64 (exp.getD 0))], encodeValue value exp, s.clock⟩⟩ ∧
      Replaces api op who key s log value exp := by
  rcases serve_state hserve with rfl | rfl
  · exact absurd rfl hne
  · cases htouch : r.touches (encodeKey key) with
    | false => exact absurd (effect_last_of_not_touches htouch) hne
    | true =>
      cases r with
      | publish subject headers payload expected =>
        have hsub : subject = encodeKey key := by simpa [Req.touches] using htouch
        rcases hok with hindex | ⟨-, hstored⟩
        · exact absurd (hsub.symm.trans hindex) (encodeKey_ne_indexKey key key)
        · rcases publish_cases s subject headers payload expected with ⟨hcas, heq⟩ | ⟨-, heq⟩
          · obtain ⟨value, exp, rfl, rfl, hrep⟩ := hstored hcas
            refine ⟨value, exp, ?_, hrep⟩
            rw [Req.effect, heq, hsub]
            exact SubjectLog.last_store_self
          · rw [Req.effect, heq] at hne
            exact absurd rfl hne
      | purge subject keep =>
        have hsub : subject = encodeKey key := by simpa [Req.touches] using htouch
        have hindex : subject = indexKey key := hok
        exact absurd (hsub.symm.trans hindex) (encodeKey_ne_indexKey key key)
      | _ => exact absurd htouch (by simp [Req.touches])

/-- **A step of a revising call replaces exactly what the call read.** -/
theorem replaces_read {api : CounterApi} {s₀ : Server} {cs : List KvChoice} {w w' : KvWorld}
    (hrun : World.run (kvSystem api) (KvWorld.start s₀) cs = some w) {who : Actor} {m : Mode}
    (hstep : World.step (kvSystem api) w (.act who m) = some w') {th : KvThread}
    (hth : w.threads[who.thread]? = some th) {key : String} (hop : th.op.revises = some key)
    (hne : w'.srv.bucket.last (encodeKey key) ≠ w.srv.bucket.last (encodeKey key)) :
    ReplacesRead api th.op who key w w' := by
  obtain ⟨hpool, -, hhist⟩ := cas_run hrun
  rcases hpool.guar_step (casDuty_kept api).sound hstep with hsame | ⟨th', r, x, l, l', hth', hg, hx⟩
  · rw [hsame] at hne
    exact absurd rfl hne
  cases Option.some.inj (hth.symm.trans hth')
  cases hw : r.isWrite with
  | false =>
    rcases serve_state hx with h | h
    · rw [h] at hne
      exact absurd rfl hne
    · rw [h, effect_of_not_write hw] at hne
      exact absurd rfl hne
  | true =>
    have hok := (hg hw key hop).2
    obtain ⟨value, exp, hlast, s₁, log₁, now, hlog, hnow, hsame, hrev⟩ := casOk_changes hok hx hne
    obtain ⟨post, hpost⟩ := hlog
    refine ⟨value, exp, post, log₁, s₁, now, hlast, hpost.symm, hsame, ?_, hnow, hrev⟩
    -- the record that was read lies in every state in between
    intro rec hrec d hd
    obtain ⟨later, earlier, rfl⟩ := List.append_of_mem hd
    have hd' : (d :: (earlier ++ readEvent who (encodeKey key) s₁ :: log₁)) <:+ w.log :=
      ⟨later, by rw [← hpost]; simp⟩
    have hsince := history_since hhist hd'
    have hread := history_since (history_before hhist hd') (List.suffix_append _ _)
    refine hsince.1.2 _ rec (hsame.trans hrec) ?_
    exact (SubjectLog.seq_le_of_last hrec).trans hread.1.1

/-! ## Who stored counts -/

/-- The sequence of an acknowledged record. -/
def storedAck : Except String PendingWrite → Option Nat
  | .ok (.ok seq) => some seq
  | _ => none

theorem storedAck_eq_some {x : Except String PendingWrite} {seq : Nat} :
    storedAck x = some seq ↔ x = .ok (.ok seq) := by
  unfold storedAck
  split <;> simp_all

/-- The payload that an answered request stored under a key. -/
def storedPayload (key : String) : Answered kvSig → Option Bytes
  | ⟨.publish subject _ payload _, x⟩ =>
    if subject = encodeKey key then (storedAck x).map fun _ => payload else none
  | _ => none

theorem storedPayload_of_read {key : String} {r : Req} {x : Resp r} (h : r.isWrite = false) :
    storedPayload key ⟨r, x⟩ = none := by
  cases r <;> first | rfl | exact absurd h (by simp [Req.isWrite])

theorem storedPayload_of_indexOnly {key : String} {r : Req} {x : Resp r} (h : IndexOnly key r) :
    storedPayload key ⟨r, x⟩ = none := by
  cases r with
  | publish subject headers payload expected =>
    have hsub : subject = indexKey key := h
    exact if_neg (hsub ▸ (encodeKey_ne_indexKey key key).symm)
  | _ => rfl

theorem storedPayload_eq_some {key : String} {r : Req} {x : Resp r} {payload : Bytes}
    (h : storedPayload key ⟨r, x⟩ = some payload) : ∃ headers expected seq,
      (⟨r, x⟩ : Answered kvSig) =
        ⟨.publish (encodeKey key) headers payload expected, Except.ok (Except.ok seq)⟩ := by
  cases r with
  | publish subject headers payload' expected =>
    by_cases hsub : subject = encodeKey key
    · subst hsub
      obtain ⟨seq, hack, rfl⟩ := Option.map_eq_some_iff.1 ((if_pos rfl).symm.trans h)
      have hx : x = Except.ok (Except.ok seq) := storedAck_eq_some.1 hack
      exact ⟨headers, expected, seq, by rw [hx]⟩
    · exact absurd ((if_neg hsub).symm.trans h) (by simp)
  | _ => exact absurd h (by simp [storedPayload])

@[simp] theorem storedPayload_stored (key : String) (headers : HeaderMap) (payload : Bytes)
    (expected : Option Nat) (seq : Nat) :
    storedPayload key ⟨.publish (encodeKey key) headers payload expected,
      Except.ok (Except.ok seq)⟩ = some payload := if_pos rfl

/-- The threads that stored a value under a key, in storage order. -/
def storers (key : String) (log : List KvEvent) : List Nat :=
  log.reverse.filterMap fun e => (storedPayload key ⟨e.req, e.resp⟩).map fun _ => e.who.thread

theorem storers_cons (key : String) (e : KvEvent) (log : List KvEvent) : storers key (e :: log) =
    storers key log ++
      ((storedPayload key ⟨e.req, e.resp⟩).map fun _ => e.who.thread).toList := by
  rw [storers, List.reverse_cons, List.filterMap_append]
  cases h : storedPayload key ⟨e.req, e.resp⟩ <;> simp [storers, h]

theorem storers_suffix (key : String) {l log : List KvEvent} (h : l <:+ log) :
    storers key l <+: storers key log := by
  obtain ⟨post, rfl⟩ := h
  induction post with
  | nil => exact List.prefix_rfl
  | cons e post ih =>
    rw [List.cons_append, storers_cons]
    exact ih.trans (List.prefix_append _ _)

/-- How often a thread stored a value is how often its own trace says so, when
only main programs store. -/
theorem count_storers (key : String) {log : List KvEvent} {t : Nat}
    (hmain : ∀ e ∈ log, storedPayload key ⟨e.req, e.resp⟩ ≠ none → IsMain e.who) :
    (storers key log).count t =
      ((ownTrace (.main t) log).filterMap (storedPayload key)).length := by
  induction log with
  | nil => rfl
  | cons e log ih =>
    have ih' := ih fun d hd => hmain d (List.mem_cons_of_mem _ hd)
    rw [storers_cons, List.count_append, ih']
    cases h : storedPayload key ⟨e.req, e.resp⟩ with
    | none =>
      by_cases hwho : e.who = .main t
      · rw [ownTrace_cons_self hwho, List.filterMap_cons, h]
        rfl
      · rw [ownTrace_cons_ne hwho]
        rfl
    | some payload =>
      have hm : IsMain e.who := hmain e (by simp) (by simp [h])
      by_cases hwho : e.who = .main t
      · rw [ownTrace_cons_self hwho, List.filterMap_cons, h]
        simp [hwho]
      · have hne : e.who.thread ≠ t := fun ht => hwho (by rw [hm, ht])
        have hzero : [e.who.thread].count t = 0 :=
          List.count_eq_zero.2 fun ht => hne (List.mem_singleton.1 ht).symm
        rw [ownTrace_cons_ne hwho]
        exact congrArg (_ + ·) hzero

/-! ## The fold -/

/-- The step of a thread's counter call. -/
def KvWorld.stepOf (w : KvWorld) (t : Nat) (n : Int64) : Except ClusterError Int64 :=
  match w.threads[t]?.map Thread.op with
  | some (.updateCounter _ _ _ step) => step n
  | _ => .ok n

/-- The fold of the steps of threads, from 0. -/
def KvWorld.foldSteps (w : KvWorld) (ts : List Nat) : Except ClusterError Int64 :=
  ts.foldlM (fun n t => w.stepOf t n) 0

theorem foldSteps_concat (w : KvWorld) (ts : List Nat) (t : Nat) :
    w.foldSteps (ts ++ [t]) = w.foldSteps ts >>= w.stepOf t := by
  rw [KvWorld.foldSteps, List.foldlM_append]
  simp [KvWorld.foldSteps]

/-- A counter call without a TTL. -/
def Op.CountsWithoutTtl : Op → Prop
  | .updateCounter _ _ ttl _ => ttl = none
  | _ => False

/-- A stored count tells the count. -/
theorem encodeValue_renderI64_inj (api : CounterApi) {n n' : Int64} {exp exp' : Option UInt64}
    (h : encodeValue (renderI64 n) exp = encodeValue (renderI64 n') exp') : n = n' := by
  have hdec := congrArg decodeValue h
  rw [decodeValue_renderI64, decodeValue_renderI64] at hdec
  have hparse := congrArg api.parseCounter (Prod.mk.inj hdec).1
  rw [api.parseCounter_renderI64, api.parseCounter_renderI64] at hparse
  exact Except.ok.inj hparse

/-- After the events of `log` the key holds the fold `n` of the steps of those
who stored; before the first one it holds what it held at first. -/
structure CountIs (w : KvWorld) (key : String) (s₀ : Server) (n : Int64) (log : List KvEvent)
    (s : Server) : Prop where
  fold : w.foldSteps (storers key log) = .ok n
  first : storers key log = [] → s.bucket.last (encodeKey key) = s₀.bucket.last (encodeKey key)
  later : storers key log ≠ [] → ∃ m, s.bucket.last (encodeKey key) = some m ∧
    Record.recordOperation m.body.headers = .put ∧ m.body.payload = encodeValue (renderI64 n) none

section Runs

variable {api : CounterApi} {s₀ s : Server} {cs : List KvChoice} {w : KvWorld} {key : String}
  {log : List KvEvent}

/-- **What a counter call counts from is the fold so far.** -/
theorem CountIs.read {n : Int64} (h : CountIs w key s₀ n log s) (h₀ : ¬ s₀.Live key)
    {now : UInt64} (hnow : s₀.now ≤ now) {current : Int64} {exp : Option UInt64}
    (hread : CounterRead api none
      (.ofRecord now ((s.bucket.last (encodeKey key)).map Record.ofMessage)) current exp) :
    current = n ∧ exp = none := by
  by_cases hempty : storers key log = []
  · have hzero : n = 0 := by
      have hfold := h.fold
      rw [hempty] at hfold
      exact (Except.ok.inj hfold).symm
    rw [h.first hempty] at hread
    cases hx : Slot.ofRecord now ((s₀.bucket.last (encodeKey key)).map Record.ofMessage) with
    | live value stored revision =>
      exact absurd (Server.live_iff.2 ⟨_, _, _, Slot.ofRecord_live_mono hnow hx⟩) h₀
    | empty =>
      rw [hx] at hread
      exact ⟨hread.1.trans hzero.symm, hread.2 rfl⟩
    | dead revision =>
      rw [hx] at hread
      exact ⟨hread.1.trans hzero.symm, hread.2 rfl⟩
  · obtain ⟨m, hm, hop, hpayload⟩ := h.later hempty
    have hlive : Slot.ofRecord now ((s.bucket.last (encodeKey key)).map Record.ofMessage) =
        .live (renderI64 n) none m.seq := by
      refine Slot.ofRecord_eq_live.2 ⟨.ofMessage m, by rw [hm]; rfl, hop, ?_, rfl, rfl⟩
      rw [Record.ofMessage, hpayload, decodeValue_renderI64]
    rw [hlive] at hread
    have hcount := hread.1
    rw [api.parseCounter_renderI64] at hcount
    exact ⟨(Except.ok.inj hcount).symm, hread.2 rfl⟩

/-- A served request that stored nothing under the key left its record. -/
theorem last_of_not_stored {op : Op} {who : Actor} {s' : Server} {c c' : Option Consumer}
    {r : Req} {x : Resp r} {key' : String} (hguar : CasOk api op who key' s log r)
    (hserve : serve .ok s c r = some (x, s', c')) (h : storedPayload key ⟨r, x⟩ = none) :
    s'.bucket.last (encodeKey key) = s.bucket.last (encodeKey key) := by
  rcases serve_state hserve with rfl | rfl
  · rfl
  cases htouch : r.touches (encodeKey key) with
  | false => exact effect_last_of_not_touches htouch
  | true =>
    cases r with
    | publish subject headers payload expected =>
      have hsub : subject = encodeKey key := by simpa [Req.touches] using htouch
      subst hsub
      rcases publish_cases s (encodeKey key) headers payload expected with ⟨-, heq⟩ | ⟨-, heq⟩
      · have hx := (Prod.mk.inj (Option.some.inj hserve)).1
        rw [heq] at hx
        rw [← hx, storedPayload_stored] at h
        exact absurd h (by simp)
      · rw [Req.effect, heq]
    | purge subject keep =>
      have hsub : subject = encodeKey key := by simpa [Req.touches] using htouch
      have hindex : subject = indexKey key' := hguar
      exact absurd (hsub.symm.trans hindex) (encodeKey_ne_indexKey key key')
    | _ => exact absurd htouch (by simp [Req.touches])

/-- What a counter call stores is the next count of the fold. -/
theorem CountIs.stored {n : Int64} (h : CountIs w key s₀ n log s) (h₀ : ¬ s₀.Live key) {who : Actor}
    {th : KvThread} (hth : w.threads[who.thread]? = some th) {name : String}
    {step : Int64 → Except ClusterError Int64} (hop : th.op = .updateCounter name key none step)
    {value : Bytes} {exp : Option UInt64} (hrep : Replaces api th.op who key s log value exp)
    (hclock : ∀ s₁ l, (readEvent who (encodeKey key) s₁ :: l) <:+ log → s₀.now ≤ s₁.now) :
    ∃ next, value = renderI64 next ∧ exp = none ∧
      w.foldSteps (storers key log ++ [who.thread]) = .ok next := by
  obtain ⟨s₁, l, now, hlog, hnow, hsame, hrev⟩ := hrep
  rw [hop] at hrev
  obtain ⟨current, next, hread, hnext, hvalue⟩ := hrev
  rw [← hsame] at hread
  obtain ⟨rfl, rfl⟩ := h.read h₀ (UInt64.le_trans (hclock s₁ l hlog) hnow) hread
  refine ⟨next, hvalue, rfl, ?_⟩
  rw [foldSteps_concat, h.fold]
  show w.stepOf who.thread current = .ok next
  rw [KvWorld.stepOf, hth, Option.map_some, hop]
  exact hnext

/-- **After every event the count is the fold.** -/
theorem fold_run (hcs : ∀ c ∈ cs, Admits (· = .ok) Op.CountsWithoutTtl c)
    (hrun : World.run (kvSystem api) (KvWorld.start s₀) cs = some w) (h₀ : ¬ s₀.Live key)
    (hlog : log <:+ w.log) (hhist : History (kvSystem api) (· = .ok) s₀ log s) :
    ∃ n, CountIs w key s₀ n log s := by
  obtain ⟨-, hguarded, hall⟩ := cas_run hrun
  have hops : ∀ {t : Nat} {th : KvThread}, w.threads[t]? = some th → th.op.CountsWithoutTtl :=
    World.run_ops (fun op hop => hcs _ hop) hrun
  refine hhist.induction (P := fun log s => ∃ n, CountIs w key s₀ n log s)
    ⟨0, rfl, fun _ => rfl, fun h => absurd rfl h⟩ ?_ ?_
  · rintro l v s₁ s₂ ⟨n, h⟩ hs
    have hbucket := (env_later hs).1
    exact ⟨n, h.fold, hbucket ▸ h.first, hbucket ▸ h.later⟩
  · rintro l e m c s' c' hsuf ⟨n, h⟩ rfl hserve
    obtain ⟨th, hth, hguar⟩ := hguarded e l (hsuf.trans hlog)
    have hkeep : storedPayload key ⟨e.req, e.resp⟩ = none →
        s'.bucket.last (encodeKey key) = e.pre.bucket.last (encodeKey key) →
        ∃ n, CountIs w key s₀ n (e :: l) s' := by
      intro hnone hlast
      have hst : storers key (e :: l) = storers key l := by
        rw [storers_cons, hnone]
        exact List.append_nil _
      exact ⟨n, hst ▸ h.fold, fun hnil => hlast.trans (h.first (hst ▸ hnil)),
        fun hne => by rw [hlast]; exact h.later (hst ▸ hne)⟩
    cases hw : e.req.isWrite with
    | false =>
      refine hkeep (storedPayload_of_read hw) ?_
      rcases serve_state hserve with h | h
      · rw [h]
      · rw [h, effect_of_not_write hw]
    | true =>
      obtain ⟨name, key', step, hop⟩ : ∃ name key' step, th.op = .updateCounter name key' none step := by
        have hcounts := hops hth
        cases hop : th.op with
        | updateCounter name key' ttl step =>
          rw [hop] at hcounts
          obtain rfl : ttl = none := hcounts
          exact ⟨name, key', step, rfl⟩
        | _ => rw [hop] at hcounts; exact absurd hcounts id
      have hok := (hguar hw key' (by rw [hop]; rfl)).2
      cases hst : storedPayload key ⟨e.req, e.resp⟩ with
      | none => exact hkeep hst (last_of_not_stored hok hserve hst)
      | some payload =>
        obtain ⟨who, req, resp, pre⟩ := e
        obtain ⟨headers, expected, seq, heq⟩ := storedPayload_eq_some hst
        cases heq
        have hserve' : serve .ok pre c (.publish (encodeKey key) headers payload expected) =
            some (Except.ok (Except.ok seq), s', c') := hserve
        obtain ⟨hcas, -, hs'⟩ := serve_stored hserve'
        rcases hok with hindex | ⟨hkey, hrep⟩
        · exact absurd hindex (encodeKey_ne_indexKey key key')
        obtain rfl := encodeKey_injective hkey
        obtain ⟨value, exp, rfl, rfl, hrep⟩ := hrep hcas
        have hclock : ∀ s₁ l₁, (readEvent who (encodeKey key) s₁ :: l₁) <:+ l → s₀.now ≤ s₁.now :=
          fun s₁ l₁ hl₁ => (history_later (history_before hhist
            (hl₁.trans ((List.suffix_cons _ _).trans hsuf)))).2
        obtain ⟨next, rfl, rfl, hfold⟩ := h.stored h₀ hth hop hrep hclock
        have hst' : ∀ x, storers key (x :: l) = storers key l ++ _ := fun x => storers_cons key x l
        refine ⟨next, ?_, fun hnil => ?_, fun _ => ⟨⟨encodeKey key, pre.bucket.lastSeq + 1,
          ⟨[(expiresHeader, renderU64 0)], encodeValue (renderI64 next) none, pre.clock⟩⟩, ?_, rfl, rfl⟩⟩
        · rw [hst', hst]
          exact hfold
        · rw [hst', hst] at hnil
          exact absurd hnil (by simp)
        · rw [hs']
          exact SubjectLog.last_store_self

end Runs

/-! ## What a call stored -/

/-- An answer of a working backend. -/
def OkAnswer (r : Req) (x : Resp r) : Prop :=
  ∃ s c s' c', serve .ok s c r = some (x, s', c')

theorem okAnswer_publish {subject : Bytes} {headers : HeaderMap} {payload : Bytes}
    {expected : Option Nat} {x : Resp (.publish subject headers payload expected)}
    (h : OkAnswer _ x) : (∃ seq, x = Except.ok (Except.ok seq)) ∨
      ∃ since214 text, x = Except.ok (Except.error ⟨some (lostCasCode since214), text⟩) := by
  obtain ⟨s, c, s', c', hserve⟩ := h
  have hx := (Prod.mk.inj (Option.some.inj hserve)).1
  rcases publish_cases s subject headers payload expected with ⟨-, heq⟩ | ⟨-, heq⟩
  · rw [heq] at hx
    exact .inl ⟨_, hx.symm⟩
  · rw [heq] at hx
    exact .inr ⟨_, _, hx.symm⟩

/-- What a counter call may have stored when it returns: nothing, or the one
count it returns. -/
def StoredAtMost (key : String) (tr : List (Answered kvSig)) (x : Except ClusterError Int64) : Prop :=
  tr.filterMap (storedPayload key) = [] ∨
    ∃ n exp, x = .ok n ∧ tr.filterMap (storedPayload key) = [encodeValue (renderI64 n) exp]

section Outcomes

variable {api : CounterApi} {key : String}

/-- The index record of a new counter: it is there afterwards. -/
theorem indexCreated_outcomes (creates : Bool) (tr : List (Answered kvSig)) :
    (indexCreated key creates).Outcomes OkAnswer
      (fun tr' x => tr'.filterMap (storedPayload key) = tr.filterMap (storedPayload key) ∧
        ∃ revision, x = .ok (.ok revision)) tr := by
  unfold indexCreated
  split
  · intro x hx
    have hnone : storedPayload key ⟨_, x⟩ = none := storedPayload_of_indexOnly (show IndexOnly key _ from rfl)
    rcases okAnswer_publish hx with ⟨seq, rfl⟩ | ⟨since214, text, rfl⟩
    · exact ⟨List.filterMap_cons_none hnone, some seq, rfl⟩
    · refine ⟨List.filterMap_cons_none hnone, none, ?_⟩
      rw [indexDone, done_of_server]
  · exact ⟨rfl, none, rfl⟩

/-- **A counter call stores at most one count, and returns it.** -/
theorem updateCounter_outcomes (name : String) (ttl : Option Duration)
    (step : Int64 → Except ClusterError Int64) :
    (updateCounter api name key ttl step).Outcomes OkAnswer (StoredAtMost key) [] := by
  have hrounds : ∀ rounds tr, tr.filterMap (storedPayload key) = [] →
      (updateCounterRounds api name key ttl step rounds).Outcomes OkAnswer (StoredAtMost key) tr := by
    intro rounds
    induction rounds with
    | zero => exact fun tr htr => .inl htr
    | succ rounds ih =>
      intro tr htr
      have hread : (readCounter api key ttl).Outcomes OkAnswer
          (fun tr' _ => tr'.filterMap (storedPayload key) = []) tr :=
        (Prog.outcomes_of_requests (P := fun r : Req => r.isWrite = false)
          (fun r x => storedPayload_of_read) (requests_readCounter (fun _ h => h) api key ttl)
          tr).conseq fun tr' _ h => h.trans htr
      refine hread.bind (fun tr₁ read htr₁ => ?_) fun tr₁ e htr₁ => .inl htr₁
      obtain ⟨current, exp, expect, creates⟩ := read
      dsimp only
      cases step current with
      | error e => exact .inl htr₁
      | ok next =>
        simp only [Prog.ofExcept_ok, Prog.ret_bind]
        split
        · exact .inl htr₁
        · intro x hx
          have hstored : ∀ tr₂ (indexed : Except ClusterError (Option Nat)),
              (∃ revision, indexed = .ok revision) → StoredAtMost key tr₂ (.ok next) →
              (discard (Prog.ofExcept id indexed) >>= fun _ => pure next : Kv Int64).Outcomes
                OkAnswer (StoredAtMost key) tr₂ := by
            rintro tr₂ - ⟨revision, rfl⟩ h
            exact h
          have hbad : ∀ {tr₂ : List (Answered kvSig)} {e : ClusterError} {P : Prop},
              (P ∧ ∃ revision, (Except.error e : Except ClusterError
                (Except ClusterError (Option Nat))) = .ok (.ok revision)) →
              StoredAtMost key tr₂ (.error e) := by
            rintro tr₂ e P ⟨-, revision, hok⟩
            exact absurd hok (by simp)
          rcases okAnswer_publish hx with ⟨seq, rfl⟩ | ⟨since214, text, rfl⟩
          · refine (indexCreated_outcomes creates _).bind ?_ fun _ _ => hbad
            rintro tr₂ indexed ⟨htr₂, revision, hok⟩
            refine hstored tr₂ indexed ⟨revision, Except.ok.inj hok⟩ (.inr ⟨next, exp, rfl, ?_⟩)
            rw [htr₂, List.filterMap_cons_some (storedPayload_stored _ _ _ _ _), htr₁]
          · refine (indexCreated_outcomes creates _).bind ?_ fun _ _ => hbad
            rintro tr₂ indexed ⟨htr₂, revision, hok⟩
            simp only [done_of_server]
            exact ih tr₂ (htr₂.trans ((List.filterMap_cons_none (by simp [storedPayload, storedAck])).trans htr₁))
  exact hrounds casAttempts [] rfl

end Outcomes

/-! ## Every run of counter calls -/

/-- What a finished counter call of thread `t` did: a call that failed stored
nothing; a call that stored returned the count right after its own step; one
that did not store read a count that its step leaves. -/
def CallCounted (w : KvWorld) (key : String) (t : Nat) (step : Int64 → Except ClusterError Int64)
    (x : Except ClusterError Reply) : Prop :=
  (∃ e, x = .error e ∧ t ∉ storers key w.log) ∨
    ∃ n, x = .ok (.count n) ∧
      ((∃ before after, storers key w.log = before ++ t :: after ∧ t ∉ before ∧ t ∉ after ∧
          w.foldSteps (before ++ [t]) = .ok n) ∨
        (t ∉ storers key w.log ∧ step n = .ok n ∧
          ∃ before, before <+: storers key w.log ∧ w.foldSteps before = .ok n))

/-- The count under a key is the fold of the steps of those who stored, and
every finished call on the key counted. -/
def Counted (w : KvWorld) (key : String) : Prop :=
  (∃ n, w.foldSteps (storers key w.log) = .ok n ∧
    (storers key w.log = [] ∧ ¬ w.srv.Live key ∨
      ∃ revision, w.srv.slot key = .live (renderI64 n) none revision)) ∧
  ∀ t th name step x, w.threads[t]? = some th → th.op = .updateCounter name key none step →
    th.main.result? = some x → CallCounted w key t step x

section Counting

variable {api : CounterApi} {s₀ : Server} {cs : List KvChoice} {w : KvWorld} {key : String}

/-- The requests of a finished counter call, read off its own trace. -/
theorem storedAtMost_run (hcs : ∀ c ∈ cs, Admits (· = .ok) Op.CountsWithoutTtl c)
    (hrun : World.run (kvSystem api) (KvWorld.start s₀) cs = some w) {t : Nat} {th : KvThread}
    (hth : w.threads[t]? = some th) {name : String} {ttl : Option Duration}
    {step : Int64 → Except ClusterError Int64} (hop : th.op = .updateCounter name key ttl step)
    {x : Except ClusterError Reply} (hx : th.main.result? = some x) :
    ∃ y, x = Except.map Reply.count y ∧ StoredAtMost key (ownTrace (.main t) w.log) y := by
  have hout := World.run_outcomes OkAnswer (· = .ok)
    (Q := fun op tr x => match op with
      | .updateCounter _ key _ _ => ∃ y, x = Except.map Reply.count y ∧ StoredAtMost key tr y
      | _ => True)
    ?_ ?_ (fun c hc => ?_) hrun hth hx
  · rw [hop] at hout
    exact hout
  · rintro m s l r x s' l' rfl hserve
    exact ⟨s, l, s', l', hserve⟩
  · intro ths op p hp
    cases Option.some.inj hp
    cases op with
    | updateCounter name key ttl step =>
      exact (updateCounter_outcomes name ttl step).map fun tr y h => ⟨y, rfl, h⟩
    | _ => exact Prog.outcomes_of_forall (fun _ _ => trivial) _ _
  · have hadmit := hcs c hc
    cases c with
    | act who m => exact hadmit
    | _ => trivial

/-- Only main programs of revising calls store under a key here. -/
theorem isMain_of_stored (hcs : ∀ c ∈ cs, Admits (· = .ok) Op.CountsWithoutTtl c)
    (hrun : World.run (kvSystem api) (KvWorld.start s₀) cs = some w) {e : KvEvent}
    (he : e ∈ w.log) (hst : storedPayload key ⟨e.req, e.resp⟩ ≠ none) : IsMain e.who := by
  obtain ⟨-, hguarded, -⟩ := cas_run hrun
  obtain ⟨post, pre, hlog⟩ := List.append_of_mem he
  obtain ⟨th, hth, hguar⟩ := hguarded e pre ⟨post, hlog.symm⟩
  have hcounts : th.op.CountsWithoutTtl :=
    World.run_ops (P := Op.CountsWithoutTtl) (fun op hop => hcs _ hop) hrun hth
  have hw : e.req.isWrite = true := by
    cases hw : e.req.isWrite with
    | true => rfl
    | false => exact absurd (storedPayload_of_read hw) hst
  cases hop : th.op with
  | updateCounter name key' ttl step => exact (hguar hw key' (by rw [hop]; rfl)).1
  | _ => rw [hop] at hcounts; exact absurd hcounts id

/-- The history of a run on a working backend. -/
theorem history_ok (hcs : ∀ c ∈ cs, Admits (· = .ok) Op.CountsWithoutTtl c)
    (hrun : World.run (kvSystem api) (KvWorld.start s₀) cs = some w) :
    History (kvSystem api) (· = .ok) s₀ w.log w.srv := by
  refine World.run_history (w := KvWorld.start s₀) Relation.ReflTransGen.refl (fun c hc => ?_) hrun
  have hadmit := hcs c hc
  cases c with
  | act who m => exact hadmit
  | _ => trivial

/-- The count at the end of a run. -/
theorem count_run (hcs : ∀ c ∈ cs, Admits (· = .ok) Op.CountsWithoutTtl c)
    (hrun : World.run (kvSystem api) (KvWorld.start s₀) cs = some w) (h₀ : ¬ s₀.Live key) :
    ∃ n, w.foldSteps (storers key w.log) = .ok n ∧
      (storers key w.log = [] ∧ ¬ w.srv.Live key ∨
        ∃ revision, w.srv.slot key = .live (renderI64 n) none revision) := by
  have hhist := history_ok hcs hrun
  obtain ⟨n, h⟩ := fold_run hcs hrun h₀ (List.suffix_refl _) hhist
  refine ⟨n, h.fold, ?_⟩
  by_cases hnil : storers key w.log = []
  · refine .inl ⟨hnil, fun hlive => h₀ ?_⟩
    obtain ⟨value, exp, revision, hslot⟩ := Server.live_iff.1 hlive
    rw [Server.slot, h.first hnil] at hslot
    exact Server.live_iff.2 ⟨_, _, _, Slot.ofRecord_live_mono (history_later hhist).2 hslot⟩
  · obtain ⟨m, hm, hput, hpayload⟩ := h.later hnil
    refine .inr ⟨m.seq, Slot.ofRecord_eq_live.2 ⟨.ofMessage m, by rw [hm]; rfl, hput, ?_, rfl, rfl⟩⟩
    rw [Record.ofMessage, hpayload, decodeValue_renderI64]

/-- A count that a call read live is the fold so far. -/
theorem fold_of_read (hcs : ∀ c ∈ cs, Admits (· = .ok) Op.CountsWithoutTtl c)
    (hrun : World.run (kvSystem api) (KvWorld.start s₀) cs = some w) (h₀ : ¬ s₀.Live key)
    {who : Actor} {value : Bytes} {exp : Option UInt64} {revision : Nat} {v₀ : KvView}
    {l : Option Consumer}
    (hread : SlotRead who (encodeKey key) (.live value exp revision) v₀ ⟨w.srv, w.log, l⟩)
    {n : Int64} (hparse : api.parseCounter value = .ok n) :
    ∃ before, before <+: storers key w.log ∧ w.foldSteps before = .ok n := by
  obtain ⟨s₁, log₁, now, hsuf, -, -, hnow, -, hslot⟩ := hread
  have hsuf' : log₁ <:+ w.log := (List.suffix_cons _ _).trans hsuf
  have hhist := history_before (history_ok hcs hrun) hsuf
  obtain ⟨n', h⟩ := fold_run hcs hrun h₀ hsuf' hhist
  have hcount : CounterRead api none (.ofRecord now
      ((s₁.bucket.last (encodeKey key)).map Record.ofMessage)) n exp := by
    rw [← hslot]
    exact ⟨hparse, fun _ => rfl⟩
  have hsame := (h.read h₀ (UInt64.le_trans (history_later hhist).2 hnow) hcount).1
  exact ⟨storers key log₁, storers_suffix key hsuf', hsame ▸ h.fold⟩

/-- A count that a call stored is the fold up to its own step. -/
theorem fold_of_stored (hcs : ∀ c ∈ cs, Admits (· = .ok) Op.CountsWithoutTtl c)
    (hrun : World.run (kvSystem api) (KvWorld.start s₀) cs = some w) (h₀ : ¬ s₀.Live key)
    {e : KvEvent} {pre : List KvEvent} (hsuf : (e :: pre) <:+ w.log) {n : Int64}
    {exp : Option UInt64}
    (hst : storedPayload key ⟨e.req, e.resp⟩ = some (encodeValue (renderI64 n) exp)) :
    w.foldSteps (storers key pre ++ [e.who.thread]) = .ok n := by
  have hhist := history_ok hcs hrun
  obtain ⟨post, hpost⟩ := hsuf
  rw [← hpost] at hhist
  obtain ⟨hpre, m, c, s', c', rfl, hserve, -⟩ := hhist.split
  obtain ⟨n', h⟩ := fold_run (s := s') hcs hrun h₀ ⟨post, hpost⟩
    ⟨hpre, .ok, c, s', c', rfl, hserve, .refl⟩
  obtain ⟨hfold, -, hlater⟩ := h
  rw [storers_cons, hst] at hfold hlater
  obtain ⟨m, hm, -, hpayload⟩ := hlater (by simp)
  -- the record that was stored carries the count of the fold
  obtain ⟨who, req, resp, s⟩ := e
  obtain ⟨headers, expected, seq, heq⟩ := storedPayload_eq_some hst
  cases heq
  have hserve' : serve .ok s c (.publish (encodeKey key) headers (encodeValue (renderI64 n) exp)
      expected) = some (Except.ok (Except.ok seq), s', c') := hserve
  rw [(serve_stored hserve').2.2] at hm
  have hlast := (SubjectLog.last_store_self (k := encodeKey key)).symm.trans hm
  rw [← Option.some.inj hlast] at hpayload
  rw [encodeValue_renderI64_inj api hpayload]
  exact hfold

/-- **Every run of counter calls counts.** -/
theorem counted_run (hcs : ∀ c ∈ cs, Admits (· = .ok) Op.CountsWithoutTtl c)
    (hrun : World.run (kvSystem api) (KvWorld.start s₀) cs = some w) (h₀ : ¬ s₀.Live key) :
    Counted w key := by
  obtain ⟨hpool, -, -⟩ := cas_run hrun
  refine ⟨count_run hcs hrun h₀, fun t th name step x hth hop hx => ?_⟩
  obtain ⟨y, rfl, hstored⟩ := storedAtMost_run hcs hrun hth hop hx
  have hcount := count_storers key (t := t) fun e he => isMain_of_stored hcs hrun he
  rcases hstored with hnil | ⟨n, exp, rfl, hone⟩
  · have hnot : t ∉ storers key w.log := by
      rw [← List.count_eq_zero, hcount, hnil]
      rfl
    cases y with
    | error e => exact .inl ⟨e, rfl, hnot⟩
    | ok n =>
      obtain ⟨y', hy', hfound⟩ := hpool.post (casDuty_kept api).sound hth hx name key none step hop
      cases y' with
      | error e => exact absurd hy' (by simp [Except.map])
      | ok n' =>
        obtain rfl : n = n' := by simpa [Except.map] using hy'
        refine .inr ⟨n, rfl, .inr ⟨hnot, ?_⟩⟩
        rcases hfound n rfl with ⟨exp, expected, seq, s, hmem⟩ |
          ⟨-, hstep, value, exp, revision, v₀, hread, hparse⟩
        · -- a stored count would be in the call's own trace
          have hown : (⟨_, _⟩ : Answered kvSig) ∈ ownTrace (.main t) w.log :=
            mem_ownTrace.2 ⟨_, hmem, rfl, rfl⟩
          have hpayload := List.mem_filterMap.2 ⟨_, hown, storedPayload_stored key _ _ _ _⟩
          rw [hnil] at hpayload
          exact absurd hpayload (by simp)
        · exact ⟨hstep, fold_of_read hcs hrun h₀ hread hparse⟩
  · refine .inr ⟨n, rfl, .inl ?_⟩
    have hmem : encodeValue (renderI64 n) exp ∈
        (ownTrace (.main t) w.log).filterMap (storedPayload key) := by rw [hone]; simp
    obtain ⟨a, ha, hpayload⟩ := List.mem_filterMap.1 hmem
    obtain ⟨e, he, hwho, rfl⟩ := mem_ownTrace.1 ha
    obtain ⟨post, pre, hlog⟩ := List.append_of_mem he
    have hsuf : (e :: pre) <:+ w.log := ⟨post, hlog.symm⟩
    have hthread : e.who.thread = t := by rw [hwho]; rfl
    have hfold := fold_of_stored hcs hrun h₀ hsuf hpayload
    obtain ⟨after, hafter⟩ := storers_suffix key hsuf
    rw [storers_cons, hpayload] at hafter
    have hlist : storers key w.log = storers key pre ++ t :: after := by
      rw [← hafter, hthread]
      simp
    rw [hlist, hone, List.count_append, List.count_cons_self, List.length_singleton] at hcount
    refine ⟨storers key pre, after, hlist, ?_, ?_, hthread ▸ hfold⟩
    · rw [← List.count_eq_zero]
      omega
    · rw [← List.count_eq_zero]
      omega

end Counting

/-- **No update is lost.**  In every run of any calls with any backend
behaviour, a step of `expire`, `incr` or `incr_floor` that changes the record of
its key replaces what the call read.  In a run of counter calls without TTLs on
a working backend, from a key that is not live, the count is the fold of the
steps of those who stored, in storage order, and every finished call returned
the count right after its own step, or stored nothing. -/
theorem cas_no_lost_update (api : CounterApi) (s₀ : Server) (cs : List KvChoice) (w : KvWorld)
    (hrun : World.run (kvSystem api) (KvWorld.start s₀) cs = some w) (key : String) :
    (∀ who m w' th, World.step (kvSystem api) w (.act who m) = some w' →
        w.threads[who.thread]? = some th → th.op.revises = some key →
        w'.srv.bucket.last (encodeKey key) ≠ w.srv.bucket.last (encodeKey key) →
        ReplacesRead api th.op who key w w') ∧
      ((∀ c ∈ cs, Admits (· = .ok) Op.CountsWithoutTtl c) → ¬ s₀.Live key → Counted w key) :=
  ⟨fun _ _ _ _ hstep hth hop hne => replaces_read hrun hstep hth hop hne,
    fun hcs h₀ => counted_run hcs hrun h₀⟩

/-- Two counter calls race on a new key: call 0 reads nothing, call 1 stores 5,
call 0 loses its write and reads 5. -/
def twoCounters : List KvChoice :=
  [.start (.incr decimalCounters "k" 2 none), .start (.incr decimalCounters "k" 5 none),
    .act (.main 0) .ok, .act (.main 1) .ok, .act (.main 1) .ok, .act (.main 1) .ok,
    .act (.main 0) .ok, .act (.main 0) .ok, .act (.main 0) .ok]

/-- Call 0 of the race then stores 7 over the 5 that it read, and both calls
counted. -/
theorem cas_no_lost_update_race :
    ∃ w ∈ World.run (kvSystem decimalCounters) (KvWorld.start emptyServer) twoCounters,
      ∃ w' ∈ World.step (kvSystem decimalCounters) w (.act (.main 0) .ok),
        (∃ th ∈ w.threads[0]?, ReplacesRead decimalCounters th.op (.main 0) "k" w w') ∧
          Counted w' "k" := by
  have hrun : ∃ w ∈ World.run (kvSystem decimalCounters) (KvWorld.start emptyServer) twoCounters,
      ∃ w' ∈ World.step (kvSystem decimalCounters) w (.act (.main 0) .ok),
        (∃ th ∈ w.threads[0]?, th.op.revises = some "k") ∧
          w'.srv.bucket.last (encodeKey "k") ≠ w.srv.bucket.last (encodeKey "k") := by
    decide +kernel
  obtain ⟨w, hw, w', hw', ⟨th, hth, hop⟩, hne⟩ := hrun
  have hw₂ : World.run (kvSystem decimalCounters) (KvWorld.start emptyServer)
      (twoCounters ++ [.act (.main 0) .ok]) = some w' := by
    rw [World.run_concat, hw, Option.bind_some, hw']
  refine ⟨w, hw, w', hw', ⟨th, hth, ?_⟩, ?_⟩
  · exact (cas_no_lost_update decimalCounters emptyServer twoCounters w hw "k").1 (.main 0) .ok w' th
      hw' hth hop hne
  · refine (cas_no_lost_update decimalCounters emptyServer _ w' hw₂ "k").2 ?_ (by decide +kernel)
    intro c hc
    simp only [twoCounters, List.cons_append, List.nil_append, List.mem_cons, List.not_mem_nil,
      or_false] at hc
    rcases hc with rfl | rfl | rfl | rfl | rfl | rfl | rfl | rfl | rfl | rfl <;> rfl

/-- The events since `who` last read a key. -/
def sinceRead (who : Actor) (key : String) (log : List KvEvent) : List KvEvent :=
  log.takeWhile fun e => ¬ (e.who = who ∧ e.req = .getLast (encodeKey key))

/-- A counter call reads nothing; a put, a delete and a sweep come and go; the
counter call stores its count over nothing. -/
def emptiedBetween : List KvChoice :=
  [.start (.incr decimalCounters "k" 1 none), .act (.main 0) .ok,
    .start (.put "k" [1] none), .act (.main 1) .ok, .act (.main 1) .ok,
    .start (.delete "k"), .act (.main 2) .ok, .act (.main 2) .ok,
    .start (.sweep ⟨false⟩ (.fromSecs 0) 3), .act (.main 3) .ok, .act (.main 3) .ok,
    .act (.main 3) .ok, .deliver 3, .deliver 3, .act (.main 3) .ok, .act (.main 3) .ok,
    .act (.main 3) .ok, .act (.job 3 0) .ok, .act (.job 3 0) .ok, .act (.job 3 0) .ok]

/-- **Emptiness comes back.**  A call that read nothing may store over an
emptiness that another write and its removal left. -/
theorem cas_write_between : ¬ ∀ (cs : List KvChoice) (w : KvWorld),
    World.run (kvSystem decimalCounters) (KvWorld.start emptyServer) cs = some w →
    ∀ who m w' th key, World.step (kvSystem decimalCounters) w (.act who m) = some w' →
      w.threads[who.thread]? = some th → th.op.revises = some key →
      w'.srv.bucket.last (encodeKey key) ≠ w.srv.bucket.last (encodeKey key) →
      ∀ e ∈ sinceRead who key w.log, storedPayload key ⟨e.req, e.resp⟩ = none := by
  intro h
  have hrun : ∃ w ∈ World.run (kvSystem decimalCounters) (KvWorld.start emptyServer) emptiedBetween,
      ∃ w' ∈ World.step (kvSystem decimalCounters) w (.act (.main 0) .ok),
        (∃ th ∈ w.threads[0]?, th.op.revises = some "k") ∧
          w'.srv.bucket.last (encodeKey "k") ≠ w.srv.bucket.last (encodeKey "k") ∧
          ∃ e ∈ sinceRead (.main 0) "k" w.log, storedPayload "k" ⟨e.req, e.resp⟩ ≠ none := by
    decide +kernel
  obtain ⟨w, hw, w', hw', ⟨th, hth, hop⟩, hne, e, he, hst⟩ := hrun
  exact hst (h emptiedBetween w hw (.main 0) .ok w' th "k" hw' hth hop hne e he)

end ClusterNats
