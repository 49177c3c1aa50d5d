import ClusterNats.Kv.Invisible

/-!
# An exclusive claim

`put_if_absent` writes over nothing, over a marker or over an expired value,
whoever else works on the key.

* `claimDuty` — what a claim owes: it stores a record only over a key that is
  not live.
* `putIfAbsent_safe` — a claim keeps it, round by round.
* `claim_world` — in every run: the log is guarded and every finished claim
  found what it reports.
* `Op.overwrites`, `reachDuty` — which calls write the record of a key.
* `Stands`, `stands_between` — what a claim stored stands until it expires or a
  call overwrites it; a sweep does not.
* `putIfAbsent_exclusive` — **a claim is exclusive**.
-/

namespace ClusterNats

open Conc

/-! ## The duty of a claim -/

/-- The key a call claims. -/
def Op.claims : Op → Option String
  | .putIfAbsent key _ _ => some key
  | _ => none

/-- What a request of a claim on `key` owes at the server state `s`. -/
def ClaimOk (key : String) (s : Server) : Req → Prop
  | .publish subject _ _ expected => subject = encodeKey key →
      (∀ n ∈ expected, s.bucket.lastSeqOf subject = n) → ¬ s.Live key
  | .purge subject _ => subject ≠ encodeKey key
  | _ => True

theorem claimOk_of_indexOnly {key : String} {s : Server} {r : Req} (h : IndexOnly key r) :
    ClaimOk key s r := by
  cases r with
  | publish subject headers payload expected =>
    intro hsub
    have hindex : subject = indexKey key := h
    exact absurd (hsub.symm.trans hindex) (encodeKey_ne_indexKey key key)
  | purge subject keep =>
    intro hsub
    have hindex : subject = indexKey key := h
    exact absurd (hsub.symm.trans hindex) (encodeKey_ne_indexKey key key)
  | _ => trivial

/-- A claim stores its record only over a key that is not live; the other calls
owe nothing. -/
def claimDuty : Duty where
  inv _ := True
  allowed _ := True
  write op _ s _ r := ∀ key ∈ op.claims, ClaimOk key s r
  jobPre op _ _ _ _ := op.claims = none
  jobPost _ _ _ _ _ _ := True

theorem claimDuty_free {op : Op} (h : op.claims = none) {who : Actor} {s : Server}
    {log : List KvEvent} {r : Req} : claimDuty.rules.guar op who s log r := by
  intro _ key hkey
  rw [h] at hkey
  exact absurd hkey (by simp)

theorem claimDuty_kept (api : CounterApi) : claimDuty.Kept api where
  write _ _ h := h
  env _ h := h
  job := by
    intro op t i j s log _ hpre
    have hsafe : claimDuty.rules.Safe (kvSystem api) op (.job t i) (fun js _ _ => js = [])
        j.program [] ⟨s, log, none⟩ :=
      Rules.safe_of_requests (requests_job asks_true j)
        (fun _ _ _ _ => claimDuty_free hpre) [] _
    exact hsafe.conseq fun js x v hjs => ⟨hjs, trivial⟩

/-! ## The rounds of a claim -/

/-- What a claim's answer says about the log. -/
structure ClaimFound (who : Actor) (key : String) (value : Bytes) (x : Except ClusterError Bool)
    (v : KvView) : Prop where
  /-- A claim that won stored its record. -/
  won : x = .ok true → ∃ exp expected seq s, storedEvent who key value exp expected seq s ∈ v.log
  /-- A claim that lost saw the key live. -/
  lost : x = .ok false → ∃ s, readEvent who (encodeKey key) s ∈ v.log ∧ s.Live key

theorem claimFound_error {who : Actor} {key : String} {value : Bytes} {e : ClusterError}
    {v : KvView} : ClaimFound who key value (.error e) v :=
  ⟨fun h => absurd h (by simp), fun h => absurd h (by simp)⟩

/-- The expectation of a claim names nothing, or a record read dead. -/
def ClaimExpect (who : Actor) (key : String) (expect : Expect) (v : KvView) : Prop :=
  match expect with
  | .anything => False
  | .nothing => True
  | .revision revision => ∃ v₀, SlotRead who (encodeKey key) (.dead revision) v₀ v

section Rounds

variable {api : CounterApi} {op : Op} {who : Actor} {key : String} {value : Bytes}
  {expect : Expect} {v v' : KvView}

theorem ClaimExpect.mono (h : ClaimExpect who key expect v) (hv : Later v v') :
    ClaimExpect who key expect v' := by
  cases expect with
  | anything => exact h
  | nothing => trivial
  | revision revision =>
    obtain ⟨v₀, hread⟩ := h
    exact ⟨v₀, hread.mono hv⟩

/-- A key that meets the expectation of a claim is not live. -/
theorem ClaimExpect.not_live (h : ClaimExpect who key expect v)
    (hexp : ∀ n ∈ expect.lastSequence, v.srv.bucket.lastSeqOf (encodeKey key) = n) :
    ¬ v.srv.Live key := by
  cases expect with
  | anything => exact absurd h id
  | nothing =>
    have hzero := hexp 0 rfl
    exact Server.not_live_of_empty (SubjectLog.lastSeqOf_eq_zero.1 hzero)
  | revision revision =>
    obtain ⟨v₀, hread⟩ := h
    obtain ⟨m, hm, hseq⟩ := SubjectLog.last_of_lastSeqOf (hexp revision rfl) hread.revision_pos
    have hdead := hread.dead_at hm hseq
    have hslot : v.srv.slot key = .dead revision := by
      rw [Server.slot, hm]
      exact hdead
    exact Server.not_live_of_dead hslot

/-- **Every round of a claim keeps its duty**, and the answer is what was found. -/
theorem putIfAbsentRounds_safe (hop : op.claims = some key) (exp : Option UInt64) (rounds : Nat)
    (h : ClaimExpect who key expect v) :
    claimDuty.rules.Safe (kvSystem api) op who (fun _ x v => ClaimFound who key value x v)
      (putIfAbsentRounds key value exp rounds expect) [] v := by
  have hD := (claimDuty_kept api).toSteady
  have hindex : ∀ s log r, IndexOnly key r → claimDuty.write op who s log r := by
    intro s log r hr key' hkey'
    rw [hop] at hkey'
    cases Option.some.inj hkey'
    exact claimOk_of_indexOnly hr
  induction rounds generalizing expect v with
  | zero => exact safe_fail fun _ _ => claimFound_error
  | succ rounds ih =>
    refine safe_publishRecord hD ?_ ?_ fun _ _ _ => claimFound_error
    · -- the claim is stored over a key that is not live
      intro v₁ hv key' hkey'
      rw [hop] at hkey'
      cases Option.some.inj hkey'
      exact fun _ hexp => (h.mono hv.1).not_live hexp
    intro v₁ ack v₂ hv hv₂ hpub
    refine safe_publishIndex hD hindex (fun index v₃ hv₃ => ?_) fun _ _ _ => claimFound_error
    have hrely := Duty.rely_trans hv (Duty.rely_trans hv₂ hv₃)
    cases hdone : PendingWrite.done ack with
    | ok seq =>
      have hack := done_eq_ok.1 hdone
      have hevent : storedEvent who key value exp expect.lastSequence seq v₁.srv ∈ v₂.log := by
        rw [hpub.log, hack]
        exact List.mem_cons_self
      simp only
      cases hindexed : indexDone index with
      | error e => exact safe_fail fun _ _ => claimFound_error
      | ok revision =>
        intro v₄ hv₄
        have hmem := (Duty.rely_trans hv₃ hv₄).1.log.subset hevent
        exact ⟨fun _ => ⟨_, _, _, _, hmem⟩, fun hfalse => absurd hfalse (by simp)⟩
    | error e =>
      cases e with
      | failed e => exact safe_refused hindex fun _ _ => claimFound_error
      | conflict =>
        refine safe_slot hD (fun x v₄ hv₄ hread => ?_) fun _ _ _ => claimFound_error
        cases x with
        | live value' exp' revision =>
          obtain ⟨s, log, hlog, -, hslot⟩ := hread.live_event
          intro v₅ hv₅
          refine ⟨fun htrue => absurd htrue (by simp), fun _ => ⟨s, ?_, ?_⟩⟩
          · exact (hlog.trans hv₅.1.log).subset List.mem_cons_self
          · exact Server.live_iff.2 ⟨_, _, _, hslot⟩
        | dead revision => exact ih ⟨_, hread⟩
        | empty => exact ih trivial

/-- **A claim keeps its duty.** -/
theorem putIfAbsent_safe (hop : op.claims = some key) (ttl : Option Duration) :
    claimDuty.rules.Safe (kvSystem api) op who (fun _ x v => ClaimFound who key value x v)
      (putIfAbsent key value ttl) [] v :=
  safe_expiresAtFrom (claimDuty_kept api).toSteady _ fun exp _ _ _ =>
    putIfAbsentRounds_safe hop exp casWriteAttempts trivial

end Rounds

/-! ## Every run -/

/-- What a finished call says about the log, if it is a claim. -/
def ClaimReply (t : Nat) (op : Op) (x : Except ClusterError Reply) (v : KvView) : Prop :=
  ∀ key value ttl, op = .putIfAbsent key value ttl →
    ∃ y, x = Except.map Reply.flag y ∧ ClaimFound (.main t) key value y v

/-- **Every run keeps the duty of its claims**, whatever else runs and whatever
the backend does. -/
theorem claim_run {api : CounterApi} {s₀ : Server} {cs : List KvChoice} {w : KvWorld}
    (hrun : World.run (kvSystem api) (KvWorld.start s₀) cs = some w) :
    claimDuty.rules.PoolSafe (kvSystem api) ClaimReply w ∧ claimDuty.rules.Guarded w ∧
      History (kvSystem api) (fun _ => True) s₀ w.log w.srv := by
  have hcall : ∀ t op s log, True → claimDuty.inv s →
      claimDuty.rules.Safe (kvSystem api) op (.main t) (fun _ => ClaimReply t op) (op.program api) []
        ⟨s, log, none⟩ := by
    intro t op s log _ _
    cases hop : op.claims with
    | some key =>
      cases op with
      | putIfAbsent key' value ttl =>
        refine Rules.Safe.map (putIfAbsent_safe (Option.some.inj hop ▸ hop) ttl) ?_
        rintro js x v hfound _ _ _ ⟨⟩
        exact ⟨x, rfl, hfound⟩
      | _ => exact absurd hop (by simp [Op.claims])
    | none =>
      refine Rules.safe_of_free (fun _ _ _ => ?_) (fun _ _ _ => claimDuty_free hop)
        (fun _ _ _ => ⟨trivial, hop⟩) _ _ _
      rintro key value ttl rfl
      exact absurd hop (by simp [Op.claims])
  obtain ⟨hpool, -, hguarded, hhist⟩ :=
    Duty.run (claimDuty_kept api) hcall trivial (fun c _ => by
      cases c <;> trivial) hrun
  exact ⟨hpool, hguarded, hhist⟩

/-! ## Who writes a record -/

/-- A call that sets or removes the value of `key` and is no claim on it. -/
def Op.overwrites (key : String) : Op → Prop
  | .put k _ _ => k = key
  | .delete k => k = key
  | .expire k _ => k = key
  | .updateCounter _ k _ _ => k = key
  | _ => False

/-- Apart from the bucket's maintenance, only the claims on a key and the calls
that overwrite it write its record. -/
def reachDuty : Duty where
  inv _ := True
  allowed _ := True
  write op _ _ _ r := op.maintains = true ∨ ∀ key, r.touches (encodeKey key) = true →
    op.claims = some key ∨ op.overwrites key
  jobPre op _ j _ _ := op.maintains = true ∨ j.Reads
  jobPost _ _ _ _ _ _ := True

theorem reachDuty_read {op : Op} {who : Actor} (s : Server) (log : List KvEvent) (r : Req)
    (h : r.isWrite = false) : reachDuty.rules.guar op who s log r :=
  fun hw => absurd hw (by simp [h])

theorem reachDuty_kept (api : CounterApi) : reachDuty.Kept api where
  write _ _ h := h
  env _ h := h
  job := by
    intro op t i j s log _ hpre
    have hsafe : reachDuty.rules.Safe (kvSystem api) op (.job t i) (fun js _ _ => js = [])
        j.program [] ⟨s, log, none⟩ := by
      rcases hpre with hm | ⟨key, rfl⟩
      · exact Rules.safe_of_requests (requests_job asks_true j) (fun _ _ _ _ _ => .inl hm) [] _
      · exact Rules.safe_of_requests ((requests_liveEntry (fun _ h => h) key).map) reachDuty_read [] _
    exact hsafe.conseq fun js x v hjs => ⟨hjs, trivial⟩

/-- Every call writes within its reach. -/
theorem reachDuty_call {api : CounterApi} (op : Op) {t : Nat} {s : Server} {log : List KvEvent} :
    reachDuty.rules.Safe (kvSystem api) op (.main t) (fun _ _ _ => True) (op.program api) []
      ⟨s, log, none⟩ := by
  cases hm : op.maintains with
  | true =>
    refine Rules.safe_of_free (fun _ _ _ => trivial) (fun s log r => ?_) (fun j s log => ?_) _ _ _
    · exact fun _ => .inl hm
    · exact ⟨trivial, .inl hm⟩
  | false =>
    have hkeyed : ∀ k, op.key? = some k → (op.claims = some k ∨ op.overwrites k) →
        (op.program api).Makes (fun r => ∀ s log, reachDuty.rules.guar op (.main t) s log r)
          Job.Reads := by
      intro k hkey hreach
      refine (requests_keyed (asksOf_own k) api hkey).makes.conseq ?_ fun _ h => h
      exact fun r hr _ _ _ => .inr fun key ht => hr key ht ▸ hreach
    have hread : ∀ r : Req, r.isWrite = false → ∀ s log, reachDuty.rules.guar op (.main t) s log r :=
      fun r hr s log => reachDuty_read s log r hr
    have hmakes : (op.program api).Makes
        (fun r => ∀ s log, reachDuty.rules.guar op (.main t) s log r) Job.Reads := by
      cases op with
      | get k => exact (requests_get hread k).map.makes
      | put k value ttl => exact hkeyed k rfl (.inr rfl)
      | putIfAbsent k value ttl => exact hkeyed k rfl (.inl rfl)
      | delete k => exact hkeyed k rfl (.inr rfl)
      | expire k ttl => exact hkeyed k rfl (.inr rfl)
      | updateCounter name k ttl step => exact hkeyed k rfl (.inr rfl)
      | listPage pre cursor limit fuel => exact (makes_listPage hread _ _ _ _).map
      | listPass pre limit scanFuel fuel => exact (makes_listPass hread _ _ _ _ _).map
      | _ => exact absurd hm (by simp [Op.maintains])
    exact safe_makes (reachDuty_kept api).toSteady (fun s log r h => h s log) (fun _ _ _ h => .inr h)
      hmakes ⟨trivial, bufferSeen_none _⟩

/-- **Every run keeps the reach of its calls.** -/
theorem reach_run {api : CounterApi} {s₀ : Server} {cs : List KvChoice} {w : KvWorld}
    (hrun : World.run (kvSystem api) (KvWorld.start s₀) cs = some w) : reachDuty.rules.Guarded w := by
  have hcs : ∀ c ∈ cs, Admits reachDuty.allowed (fun _ => True) c := fun c _ => by cases c <;> trivial
  exact (Duty.run (Q := fun _ _ _ _ => True) (reachDuty_kept api)
    (fun _ op _ _ _ _ => reachDuty_call op) trivial hcs hrun).2.2.1

/-! ## Between two claims -/

/-- An entry of a key stands: it is found, or its expiry has passed. -/
def Stands (key : String) (entry : Entry) (s : Server) : Prop :=
  (s.slot key).found = some entry ∨ isExpiredAt s.now entry.expiresAt = true

/-- While the record stays, its entry stands. -/
theorem Stands.later {key : String} {entry : Entry} {s s' : Server} (h : Stands key entry s)
    (hlast : s'.bucket.last (encodeKey key) = s.bucket.last (encodeKey key))
    (hclock : s.now ≤ s'.now) : Stands key entry s' := by
  rcases h with hfound | hexp
  · rw [found_slot] at hfound
    obtain ⟨m, hm, hentry⟩ := Option.bind_eq_some_iff.1 hfound
    rw [entryAt_eq] at hentry
    split at hentry
    · rename_i hput
      cases Option.some.inj hentry
      cases hexp : isExpiredAt s'.now (decodeValue m.body.payload).2 with
      | true => exact .inr hexp
      | false =>
        left
        rw [found_slot, hlast, hm, Option.bind_some, entryAt_eq, if_pos ⟨hput.1, hexp⟩]
    · cases hentry
  · exact .inr (isExpiredAt_mono hclock hexp)

/-- **One request.**  The entry of a key stands after it, or it is one of a call
that overwrites the key. -/
theorem stands_step {op : Op} {key : String} {entry : Entry} {m : Mode} {s s' : Server}
    {c c' : Option Consumer} {r : Req} {x : Resp r} (h : Stands key entry s)
    (hserve : serve m s c r = some (x, s', c'))
    (hclaim : r.isWrite = true → ∀ k ∈ op.claims, ClaimOk k s r)
    (hsweep : r.isWrite = true → op.maintains = true →
      ((r.effect s).slot key).found = (s.slot key).found)
    (hreach : r.isWrite = true → op.maintains = true ∨ ∀ k, r.touches (encodeKey k) = true →
      op.claims = some k ∨ op.overwrites k) : Stands key entry s' ∨ op.overwrites key := by
  have hclock := (serve_later hserve).2
  rcases h with hfound | hexp
  · rcases serve_state hserve with rfl | rfl
    · exact .inl (.inl hfound)
    have hsame : (r.effect s).bucket.last (encodeKey key) = s.bucket.last (encodeKey key) →
        Stands key entry (r.effect s) ∨ op.overwrites key :=
      fun hlast => .inl (Stands.later (.inl hfound) hlast hclock)
    cases htouch : r.touches (encodeKey key) with
    | false => exact hsame (effect_last_of_not_touches htouch)
    | true =>
      have hwrite : r.isWrite = true := by
        cases r <;> first | rfl | cases htouch
      rcases hreach hwrite with hm | hkeyed
      · exact .inl (.inl ((hsweep hwrite hm).trans hfound))
      rcases hkeyed key htouch with hclaims | hover
      · -- a claim on the key stores nothing while the entry is found
        have hok := hclaim hwrite key hclaims
        cases r with
        | publish subject headers payload expected =>
          have hsub : subject = encodeKey key := by simpa [Req.touches] using htouch
          rcases publish_cases s subject headers payload expected with ⟨hcas, -⟩ | ⟨-, heq⟩
          · refine absurd ?_ (hok hsub hcas)
            rw [Server.Live, hfound]
            rfl
          · exact hsame (by rw [Req.effect, heq])
        | purge subject keep => exact absurd (by simpa [Req.touches] using htouch) hok
        | _ => cases htouch
      · exact .inr hover
  · exact .inl (.inr (isExpiredAt_mono hclock hexp))

/-- Among the events, the latest first, is a request of a call that overwrites
the key, and the record of the key changed by it: the next event found another
one. -/
def Disturbed (w : KvWorld) (key : String) (events : List KvEvent) : Prop :=
  ∃ e' e, [e', e] <:+: events ∧
    e'.pre.bucket.last (encodeKey key) ≠ e.pre.bucket.last (encodeKey key) ∧
    ∃ th, w.threads[e.who.thread]? = some th ∧ th.op.overwrites key

/-- **Between two claims.**  Until a call overwrites the key, what a claim
stored stands, whatever claims, sweeps, backfills, reads and calls on other keys
do. -/
theorem stands_between {api : CounterApi} {ok : Mode → Prop} {key : String} {entry : Entry}
    {w : KvWorld} {s : Server} {x : KvEvent} {events : List KvEvent}
    (hhist : History (kvSystem api) ok s events x.pre) (hcalm : ¬ Disturbed w key (x :: events))
    (hclaim : ∀ e ∈ events, claimDuty.rules.OwedBy w e)
    (hsweep : ∀ e ∈ events, sweepDuty.rules.OwedBy w e)
    (hreach : ∀ e ∈ events, reachDuty.rules.OwedBy w e) (h : Stands key entry s) :
    Stands key entry x.pre := by
  induction events generalizing x with
  | nil =>
    obtain ⟨hbucket, hclock⟩ := envReach_later hhist
    exact h.later (by rw [hbucket]) hclock
  | cons e events ih =>
    obtain ⟨hlog, m, c, s', c', -, hserve, hreached⟩ := hhist
    obtain ⟨hbucket, hclock⟩ := envReach_later hreached
    have hcalm' : ¬ Disturbed w key (e :: events) := by
      rintro ⟨d', d, hinfix, hrest⟩
      exact hcalm ⟨d', d, hinfix.trans (List.infix_cons (List.infix_refl _)), hrest⟩
    have hpre := ih hlog hcalm' (fun d hd => hclaim d (List.mem_cons_of_mem _ hd))
      (fun d hd => hsweep d (List.mem_cons_of_mem _ hd))
      fun d hd => hreach d (List.mem_cons_of_mem _ hd)
    obtain ⟨th, log, hth, howes⟩ := hclaim e List.mem_cons_self
    obtain ⟨th₂, log₂, hth₂, hinvisible⟩ := hsweep e List.mem_cons_self
    obtain ⟨th₃, log₃, hth₃, hreaches⟩ := hreach e List.mem_cons_self
    cases Option.some.inj (hth.symm.trans hth₂)
    cases Option.some.inj (hth.symm.trans hth₃)
    rcases stands_step hpre hserve howes (fun hw hm => ((hinvisible hw).2 hm).entry key) hreaches with
      hstands | hover
    · exact hstands.later (by rw [hbucket]) hclock
    · -- the record of the key did not change by it
      have hlast : x.pre.bucket.last (encodeKey key) = e.pre.bucket.last (encodeKey key) := by
        by_contra hne
        exact hcalm ⟨x, e, (List.prefix_append [x, e] events).isInfix, hne, th, hth, hover⟩
      exact hpre.later hlast (UInt64.le_trans (serve_later hserve).2 hclock)

/-- Call `t` is a claim on `key` and returned `b`. -/
def Claimed (w : KvWorld) (key : String) (t : Nat) (b : Bool) : Prop :=
  ∃ th ∈ w.threads[t]?, th.op.claims = some key ∧ th.main.result? = some (.ok (.flag b))

instance (w : KvWorld) (key : String) (t : Nat) (b : Bool) : Decidable (Claimed w key t b) :=
  inferInstanceAs (Decidable (∃ th ∈ w.threads[t]?, _))

/-- Two events of a log in their order. -/
theorem order_of_mem {α : Type} {l : List α} {a b : α} (ha : a ∈ l) (hb : b ∈ l) (hne : a ≠ b) :
    (∃ post mid pre, l = post ++ b :: (mid ++ a :: pre)) ∨
      ∃ post mid pre, l = post ++ a :: (mid ++ b :: pre) := by
  obtain ⟨x, y, rfl⟩ := List.append_of_mem ha
  rcases List.mem_append.1 hb with h | h
  · obtain ⟨z, u, rfl⟩ := List.append_of_mem h
    exact .inl ⟨z, u, y, by simp⟩
  · rcases List.mem_cons.1 h with h | h
    · exact absurd h.symm hne
    · obtain ⟨z, u, rfl⟩ := List.append_of_mem h
      exact .inr ⟨x, z, u, rfl⟩

section Ordered

variable {api : CounterApi} {s₀ : Server} {w : KvWorld} {key : String}

/-- What a claim returned is what it found. -/
theorem Claimed.found {t : Nat} {b : Bool} (h : Claimed w key t b)
    (hpool : claimDuty.rules.PoolSafe (kvSystem api) ClaimReply w) :
    ∃ th value, w.threads[t]? = some th ∧ th.op.claims = some key ∧
      ClaimFound (.main t) key value (.ok b) ⟨w.srv, w.log, th.loc⟩ := by
  obtain ⟨th, hth, hop, hres⟩ := h
  have hpost := hpool.post (claimDuty_kept api).sound hth hres
  cases hcall : th.op with
  | putIfAbsent key' value ttl =>
    rw [hcall] at hop hpost
    obtain ⟨y, hy, hfound⟩ := hpost key' value ttl rfl
    cases y with
    | error e => exact absurd hy (by simp [Except.map])
    | ok c =>
      have hc : b = c := by simpa [Except.map] using hy
      subst hc
      cases Option.some.inj hop
      exact ⟨th, value, hth, by rw [hcall]; rfl, hfound⟩
  | _ =>
    rw [hcall] at hop
    exact absurd hop (by simp [Op.claims])

/-- A claim that won stored its record. -/
theorem Claimed.won {t : Nat} (h : Claimed w key t true)
    (hpool : claimDuty.rules.PoolSafe (kvSystem api) ClaimReply w) :
    ∃ th value exp expected seq s, w.threads[t]? = some th ∧ th.op.claims = some key ∧
      storedEvent (.main t) key value exp expected seq s ∈ w.log := by
  obtain ⟨th, value, hth, hop, hfound⟩ := h.found hpool
  obtain ⟨exp, expected, seq, s, hmem⟩ := hfound.won rfl
  exact ⟨th, value, exp, expected, seq, s, hth, hop, hmem⟩

/-- A record that a claim stored was stored over a key that was not live. -/
theorem stored_not_live (hguarded : claimDuty.rules.Guarded w) {t : Nat} {th : KvThread}
    (hth : w.threads[t]? = some th) (hop : th.op.claims = some key) {value : Bytes}
    {exp : Option UInt64} {expected : Option Nat} {seq : Nat} {s : Server} {log : List KvEvent}
    (hhist : History (kvSystem api) (fun _ => True) s₀ w.log w.srv)
    (hlog : (storedEvent (.main t) key value exp expected seq s :: log) <:+ w.log) :
    ¬ s.Live key := by
  obtain ⟨th', hth', hguar⟩ := hguarded _ log hlog
  cases Option.some.inj (hth.symm.trans hth')
  obtain ⟨post, hpost⟩ := hlog
  rw [← hpost] at hhist
  obtain ⟨-, m, l, s', l', -, hserve, -⟩ := hhist.split
  exact hguar rfl key hop rfl (serve_stored hserve).1

/-- Between two records that claims stored, a call overwrote the key or the first
record expired. -/
theorem disturbed_or_expired (hclaims : claimDuty.rules.Guarded w)
    (hsweeps : sweepDuty.rules.Guarded w) (hreach : reachDuty.rules.Guarded w)
    (hhist : History (kvSystem api) (fun _ => True) s₀ w.log w.srv)
    {t t' : Nat} {th' : KvThread} (hth' : w.threads[t']? = some th') (hop' : th'.op.claims = some key)
    {value value' : Bytes} {exp exp' : Option UInt64} {expected expected' : Option Nat}
    {seq seq' : Nat} {s s' : Server} {post mid pre : List KvEvent}
    (hlog : w.log = post ++ storedEvent (.main t') key value' exp' expected' seq' s' ::
      (mid ++ storedEvent (.main t) key value exp expected seq s :: pre)) :
    Disturbed w key (storedEvent (.main t') key value' exp' expected' seq' s' :: mid) ∨
      isExpiredAt s'.now (decodeValue (encodeValue value exp)).2 = true := by
  have hnot : ¬ s'.Live key :=
    stored_not_live hclaims hth' hop' hhist ⟨post, hlog.symm⟩
  have hmem : ∀ e ∈ mid, e ∈ w.log := fun e he => by
    rw [hlog]
    exact List.mem_append_right _ (List.mem_cons_of_mem _ (List.mem_append_left _ he))
  rw [hlog] at hhist
  obtain ⟨hbefore, -⟩ := hhist.split
  obtain ⟨-, m, l, s₁, l', -, hserve, hmid⟩ := History.split hbefore
  by_cases hdis : Disturbed w key (storedEvent (.main t') key value' exp' expected' seq' s' :: mid)
  · exact .inl hdis
  refine .inr ?_
  -- when the first record was stored, its entry was found or had expired
  have hfirst : Stands key ⟨(decodeValue (encodeValue value exp)).1,
      (decodeValue (encodeValue value exp)).2⟩ s₁ := by
    rw [(serve_stored hserve).2.2]
    by_cases hexp : isExpiredAt s.now (decodeValue (encodeValue value exp)).2 = true
    · exact .inr hexp
    · left
      rw [found_slot, SubjectLog.last_store_self, Option.bind_some, entryAt_eq, if_pos]
      exact ⟨rfl, Bool.eq_false_iff.2 hexp⟩
  have hstands : Stands key _ s' := stands_between (x := storedEvent (.main t') key value' exp'
    expected' seq' s') hmid hdis (fun e he => hclaims.owed (hmem e he))
    (fun e he => hsweeps.owed (hmem e he)) (fun e he => hreach.owed (hmem e he)) hfirst
  refine hstands.resolve_left fun hfound => hnot ?_
  rw [Server.Live, hfound]
  rfl

end Ordered

/-- Claim `t'` stored its record after claim `t`, when a call had overwritten the
key in between or the value of claim `t` had expired. -/
def Superseded (w : KvWorld) (key : String) (t t' : Nat) : Prop :=
  ∃ value exp expected seq s value' exp' expected' seq' s' post mid pre,
    w.log = post ++ storedEvent (.main t') key value' exp' expected' seq' s' ::
      (mid ++ storedEvent (.main t) key value exp expected seq s :: pre) ∧
    (Disturbed w key (storedEvent (.main t') key value' exp' expected' seq' s' :: mid) ∨
      isExpiredAt s'.now (decodeValue (encodeValue value exp)).2 = true)

/-- **A claim is exclusive.**  For every run of any calls, with any backend
behaviour: a claim that won stored its record over a key that was not live, a
claim that lost saw the key live, and of two claims that won, on records that
this build or an older one wrote, the earlier one's value was overwritten by a
put, a delete, an expire or a counter call, or had expired, before the later one
stored its own. -/
theorem putIfAbsent_exclusive (api : CounterApi) (s₀ : Server) (cs : List KvChoice) (w : KvWorld)
    (hrun : World.run (kvSystem api) (KvWorld.start s₀) cs = some w) (key : String) :
    (∀ t, Claimed w key t true → ∃ value exp expected seq s,
        storedEvent (.main t) key value exp expected seq s ∈ w.log ∧ ¬ s.Live key) ∧
      (∀ t, Claimed w key t false → ∃ s, readEvent (.main t) (encodeKey key) s ∈ w.log ∧ s.Live key) ∧
      (s₀.WellFormed → ∀ t₁ t₂, t₁ ≠ t₂ → Claimed w key t₁ true → Claimed w key t₂ true →
        Superseded w key t₁ t₂ ∨ Superseded w key t₂ t₁) := by
  obtain ⟨hpool, hguarded, hhist⟩ := claim_run hrun
  refine ⟨?_, ?_, ?_⟩
  · intro t ht
    obtain ⟨th, value, exp, expected, seq, s, hth, hop, hmem⟩ := ht.won hpool
    obtain ⟨post, pre, hlog⟩ := List.append_of_mem hmem
    exact ⟨value, exp, expected, seq, s, hmem,
      stored_not_live hguarded hth hop hhist ⟨post, hlog.symm⟩⟩
  · intro t ht
    obtain ⟨th, value, -, -, hfound⟩ := ht.found hpool
    exact hfound.lost rfl
  · intro h₀ t₁ t₂ hne h₁ h₂
    obtain ⟨-, -, hsweeps⟩ := sweep_run h₀.agrees hrun
    have hreach := reach_run hrun
    obtain ⟨th₁, value₁, exp₁, expected₁, seq₁, u₁, hth₁, hop₁, hmem₁⟩ := h₁.won hpool
    obtain ⟨th₂, value₂, exp₂, expected₂, seq₂, u₂, hth₂, hop₂, hmem₂⟩ := h₂.won hpool
    have hevents : storedEvent (.main t₁) key value₁ exp₁ expected₁ seq₁ u₁ ≠
        storedEvent (.main t₂) key value₂ exp₂ expected₂ seq₂ u₂ := by
      intro heq
      have hwho := congrArg Event.who heq
      exact hne (Actor.main.inj hwho)
    rcases order_of_mem hmem₁ hmem₂ hevents with ⟨post, mid, pre, hlog⟩ | ⟨post, mid, pre, hlog⟩
    · exact .inl ⟨_, _, _, _, _, _, _, _, _, _, _, _, _, hlog,
        disturbed_or_expired hguarded hsweeps hreach hhist hth₂ hop₂ hlog⟩
    · exact .inr ⟨_, _, _, _, _, _, _, _, _, _, _, _, _, hlog,
        disturbed_or_expired hguarded hsweeps hreach hhist hth₁ hop₁ hlog⟩

/-- Two claims of one key: the first one stores, the second one loses.  Then the
key is deleted and claimed again. -/
def threeClaims : List KvChoice :=
  [.start (.putIfAbsent "k" [1] none), .start (.putIfAbsent "k" [2] none),
    .act (.main 1) .ok, .act (.main 0) .ok, .act (.main 1) .ok, .act (.main 0) .ok,
    .act (.main 0) .ok, .start (.delete "k"), .act (.main 2) .ok, .act (.main 2) .ok,
    .start (.putIfAbsent "k" [3] none)] ++ List.replicate 5 (.act (.main 3) .ok)

/-- The claims race to the end: call 1 wins and call 0 loses; after the delete
call 3 wins as well. -/
theorem putIfAbsent_exclusive_race :
    ∃ w, World.run (kvSystem decimalCounters) (KvWorld.start emptyServer) threeClaims = some w ∧
      (∃ value exp expected seq s,
        storedEvent (.main 1) "k" value exp expected seq s ∈ w.log ∧ ¬ s.Live "k") ∧
      (∃ s, readEvent (.main 0) (encodeKey "k") s ∈ w.log ∧ s.Live "k") ∧
      (Superseded w "k" 1 3 ∨ Superseded w "k" 3 1) := by
  have hrun : ∃ w ∈ World.run (kvSystem decimalCounters) (KvWorld.start emptyServer) threeClaims,
      Claimed w "k" 1 true ∧ Claimed w "k" 0 false ∧ Claimed w "k" 3 true := by decide +kernel
  obtain ⟨w, hw, hwon, hlost, hagain⟩ := hrun
  obtain ⟨h₁, h₂, h₃⟩ := putIfAbsent_exclusive decimalCounters emptyServer threeClaims w hw "k"
  exact ⟨w, hw, h₁ 1 hwon, h₂ 0 hlost, h₃ emptyServer_wellFormed 1 3 (by decide) hwon hagain⟩

end ClusterNats
