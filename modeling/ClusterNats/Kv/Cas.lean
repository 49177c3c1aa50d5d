import ClusterNats.Kv.Counter
import ClusterNats.Kv.Index

/-!
# Writes over what was read

`expire`, `incr` and `incr_floor` write at the revision they read, or over the
emptiness they read.

* `Revises` — what such a call may store over what it read.
* `Replaces` — a write replaces what its call read.
* `casDuty` — what such a call owes; every other call owes nothing.
* `expire_safe`, `updateCounter_safe` — the calls keep it.
* `cas_run` — every run does.
-/

namespace ClusterNats

open Conc

/-! ## The duty -/

/-- The key that a call revises. -/
def Op.revises : Op → Option String
  | .expire key _ => some key
  | .updateCounter _ key _ _ => some key
  | _ => none

/-- What a counter call counts from, and the expiry it writes. -/
def CounterRead (api : CounterApi) (ttl : Option Duration) (x : Slot) (current : Int64)
    (exp : Option UInt64) : Prop :=
  match x with
  | .live value stored _ => api.parseCounter value = .ok current ∧ (ttl = none → exp = stored)
  | _ => current = 0 ∧ (ttl = none → exp = none)

/-- What a call may store over a slot: `expire` the value it read, a counter
call the rendered count after its step. -/
def Revises (api : CounterApi) (op : Op) (x : Slot) (value : Bytes) (exp : Option UInt64) : Prop :=
  match op with
  | .expire _ _ => ∃ stored revision, x = .live value stored revision
  | .updateCounter _ _ ttl step => ∃ current next, CounterRead api ttl x current exp ∧
      step current = .ok next ∧ value = renderI64 next
  | _ => False

/-- At the server state `s` the key holds what `who` read of it, and `value` may
be stored over that. -/
def Replaces (api : CounterApi) (op : Op) (who : Actor) (key : String) (s : Server)
    (log : List KvEvent) (value : Bytes) (exp : Option UInt64) : Prop :=
  ∃ s₁ log₁ now, (readEvent who (encodeKey key) s₁ :: log₁) <:+ log ∧ s₁.now ≤ now ∧
    s.bucket.last (encodeKey key) = s₁.bucket.last (encodeKey key) ∧
    Revises api op (.ofRecord now ((s₁.bucket.last (encodeKey key)).map Record.ofMessage)) value exp

/-- What a request of a call that revises `key` owes. -/
def CasOk (api : CounterApi) (op : Op) (who : Actor) (key : String) (s : Server)
    (log : List KvEvent) : Req → Prop
  | .publish subject headers payload expected => subject = indexKey key ∨
      subject = encodeKey key ∧ ((∀ n ∈ expected, s.bucket.lastSeqOf subject = n) →
        ∃ value exp, headers = [(expiresHeader, renderU64 (exp.getD 0))] ∧
          payload = encodeValue value exp ∧ Replaces api op who key s log value exp)
  | .purge subject _ => subject = indexKey key
  | _ => True

theorem casOk_of_indexOnly {api : CounterApi} {op : Op} {who : Actor} {key : String} {s : Server}
    {log : List KvEvent} {r : Req} (h : IndexOnly key r) : CasOk api op who key s log r := by
  cases r with
  | publish subject headers payload expected => exact .inl h
  | purge subject keep => exact h
  | _ => trivial

/-- Is the actor the main program of its thread? -/
def IsMain (who : Actor) : Prop := who = .main who.thread

/-- A call that revises a key stores over what it read, and starts no job. -/
def casDuty (api : CounterApi) : Duty where
  inv _ := True
  allowed _ := True
  write op who s log r := ∀ key ∈ op.revises, IsMain who ∧ CasOk api op who key s log r
  jobPre op _ _ _ _ := op.revises = none
  jobPost _ _ _ _ _ _ := True

theorem casDuty_free {api : CounterApi} {op : Op} (h : op.revises = none) {who : Actor}
    {s : Server} {log : List KvEvent} {r : Req} : (casDuty api).rules.guar op who s log r := by
  intro _ key hkey
  rw [h] at hkey
  exact absurd hkey (by simp)

theorem casDuty_kept (api : CounterApi) : (casDuty api).Kept api where
  write _ _ h := h
  env _ h := h
  job := by
    intro op t i j s log _ hpre
    have hsafe : (casDuty api).rules.Safe (kvSystem api) op (.job t i) (fun js _ _ => js = [])
        j.program [] ⟨s, log, none⟩ :=
      Rules.safe_of_requests (requests_job asks_true j) (fun _ _ _ _ => casDuty_free hpre) [] _
    exact hsafe.conseq fun js x v hjs => ⟨hjs, trivial⟩

section Calls

variable {api : CounterApi} {op : Op} {who : Actor} {t : Nat} {key : String} {v v' : KvView}

theorem casDuty_indexOnly (hop : op.revises = some key) (s : Server) (log : List KvEvent) (r : Req)
    (h : IndexOnly key r) : (casDuty api).write op (.main t) s log r := by
  intro key' hkey'
  rw [hop] at hkey'
  cases Option.some.inj hkey'
  exact ⟨rfl, casOk_of_indexOnly h⟩

/-- A write at the slot that was read keeps the duty. -/
theorem casOk_write (hop : op.revises = some key) {x : Slot} {v₀ : KvView} {value : Bytes}
    {exp : Option UInt64} (hread : SlotRead (.main t) (encodeKey key) x v₀ v)
    (hrev : Revises api op x value exp) :
    (casDuty api).write op (.main t) v.srv v.log
      (.publish (encodeKey key) [(expiresHeader, renderU64 (exp.getD 0))] (encodeValue value exp)
        x.expect.lastSequence) := by
  intro key' hkey'
  rw [hop] at hkey'
  cases Option.some.inj hkey'
  refine ⟨rfl, .inr ⟨rfl, fun hexp => ?_⟩⟩
  obtain ⟨s, log, now, hlog, hnow, hlast, hx⟩ := hread.same_last hexp
  exact ⟨value, exp, rfl, rfl, s, log, now, hlog, hnow, hlast, hx ▸ hrev⟩

/-! ## `expire` -/

/-- **`expire` keeps the duty.** -/
theorem expire_safe (ttl : Option Duration) :
    (casDuty api).rules.Safe (kvSystem api) (.expire key ttl) (.main t) (fun _ _ _ => True)
      (expire key ttl) [] v := by
  have hD := (casDuty_kept api).toSteady
  have hrounds : ∀ rounds v, (casDuty api).rules.Safe (kvSystem api) (.expire key ttl) (.main t)
      (fun _ _ _ => True) (expireRounds key ttl rounds) [] v := by
    intro rounds
    induction rounds with
    | zero => exact fun v => safe_fail fun _ _ => trivial
    | succ rounds ih =>
      intro v
      refine safe_slot hD (fun x v₁ _ hread => ?_) fun _ _ _ => trivial
      cases x with
      | live value stored revision =>
        refine safe_expiresAtFrom hD ttl fun exp v₂ hv₂ _ => ?_
        refine safe_write hD (fun v₃ hv₃ => ?_) (fun v₃ ack v₄ _ _ _ => ?_) fun _ _ _ =>
          safe_fail fun _ _ => trivial
        · exact casOk_write (x := .live value stored revision) rfl
            (hread.mono (hv₂.1.trans hv₃.1)) ⟨stored, revision, rfl⟩
        · split
          · exact fun _ _ => trivial
          · exact ih v₄
          · exact safe_fail fun _ _ => trivial
      | _ => exact fun _ _ => trivial
  exact hrounds casWriteAttempts v

/-! ## Counters -/

/-- Does a counter come into being over the slot? -/
def Slot.creates : Slot → Bool
  | .live .. => false
  | _ => true

variable {D : Duty} {α : Type} {Q : List Job → Except ClusterError α → KvView → Prop}
  {js : List Job}

/-- What a counter call reads. -/
theorem safe_readCounter (hD : D.Steady) {ttl : Option Duration}
    {f : Int64 × Option UInt64 × Expect × Bool → Kv α}
    (hok : ∀ current exp x v', D.rules.rely v v' → SlotRead who (encodeKey key) x v v' →
      CounterRead api ttl x current exp →
      D.rules.Safe (kvSystem api) op who Q (f (current, exp, x.expect, x.creates)) js v')
    (herr : ∀ e v', D.rules.rely v v' → Q js (.error e) v') :
    D.rules.Safe (kvSystem api) op who Q (readCounter api key ttl >>= f) js v := by
  rw [readCounter, bind_assoc]
  refine safe_slot hD (fun x v₁ hv₁ hread => ?_) herr
  cases x with
  | empty =>
    dsimp only
    rw [bind_assoc]
    refine safe_expiresAtFrom hD ttl fun exp v₂ hv₂ hexp => ?_
    exact hok 0 exp .empty v₂ (Duty.rely_trans hv₁ hv₂) (hread.mono hv₂.1) ⟨rfl, hexp.2⟩
  | dead revision =>
    dsimp only
    rw [bind_assoc]
    refine safe_expiresAtFrom hD ttl fun exp v₂ hv₂ hexp => ?_
    exact hok 0 exp (.dead revision) v₂ (Duty.rely_trans hv₁ hv₂) (hread.mono hv₂.1) ⟨rfl, hexp.2⟩
  | live value stored revision =>
    have hparse : ∀ exp v₂, D.rules.rely v₁ v₂ → (ttl = none → exp = stored) →
        D.rules.Safe (kvSystem api) op who Q
          (Prog.ofExcept id (api.parseCounter value) >>= fun current =>
            f (current, exp, .revision revision, false)) js v₂ := by
      intro exp v₂ hv₂ hexp
      have hrely := Duty.rely_trans hv₁ hv₂
      cases hcount : api.parseCounter value with
      | error e => exact safe_fail fun v₃ hv₃ => herr e v₃ (Duty.rely_trans hrely hv₃)
      | ok current =>
        exact hok current exp (.live value stored revision) v₂ hrely (hread.mono hv₂.1)
          ⟨hcount, hexp⟩
    dsimp only
    rw [bind_assoc]
    simp only [bind_assoc, pure_bind]
    cases ttl with
    | none => exact hparse stored v₁ (Duty.rely_refl v₁) fun _ => rfl
    | some d =>
      refine safe_expiresAtFrom hD (some d) fun exp v₂ hv₂ _ => ?_
      exact hparse exp v₂ hv₂ fun h => absurd h (by simp)

/-- What a counter call's answer says about the log: it stored the count it
returned, or read it and its step leaves it. -/
def CounterFound (api : CounterApi) (ttl : Option Duration)
    (step : Int64 → Except ClusterError Int64) (who : Actor) (key : String)
    (x : Except ClusterError Int64) (v : KvView) : Prop :=
  ∀ n, x = .ok n →
    (∃ exp expected seq s, storedEvent who key (renderI64 n) exp expected seq s ∈ v.log) ∨
      (ttl = none ∧ step n = .ok n ∧ ∃ value exp revision v₀,
        SlotRead who (encodeKey key) (.live value exp revision) v₀ v ∧
          api.parseCounter value = .ok n)

theorem counterFound_error {ttl : Option Duration} {step : Int64 → Except ClusterError Int64}
    {e : ClusterError} : CounterFound api ttl step who key (.error e) v :=
  fun _ h => absurd h (by simp)

/-- **Every round of a counter call keeps the duty**, and the answer is what was
stored or read. -/
theorem updateCounter_safe (name : String) (ttl : Option Duration)
    (step : Int64 → Except ClusterError Int64) :
    (casDuty api).rules.Safe (kvSystem api) (.updateCounter name key ttl step) (.main t)
      (fun _ => CounterFound api ttl step (.main t) key) (updateCounter api name key ttl step) [] v := by
  have hD := (casDuty_kept api).toSteady
  have hindex : ∀ s log r, IndexOnly key r →
      (casDuty api).write (.updateCounter name key ttl step) (.main t) s log r :=
    casDuty_indexOnly rfl
  have hrounds : ∀ rounds v, (casDuty api).rules.Safe (kvSystem api)
      (.updateCounter name key ttl step) (.main t) (fun _ => CounterFound api ttl step (.main t) key)
      (updateCounterRounds api name key ttl step rounds) [] v := by
    intro rounds
    induction rounds with
    | zero => exact fun v => safe_fail fun _ _ => counterFound_error
    | succ rounds ih =>
      intro v
      refine safe_readCounter hD (fun current exp x v₁ hv₁ hread hcount => ?_)
        fun _ _ _ => counterFound_error
      dsimp only
      cases hnext : step current with
      | error e => exact safe_fail fun _ _ => counterFound_error
      | ok next =>
        simp only [Prog.ofExcept_ok, Prog.ret_bind]
        split
        · -- the step leaves a live counter as it is
          rename_i hleaves
          simp only [leavesCounter, Bool.and_eq_true, decide_eq_true_eq, Bool.not_eq_true',
            Option.isNone_iff_eq_none] at hleaves
          obtain ⟨⟨rfl, hcreates⟩, rfl⟩ := hleaves
          intro v₂ hv₂ n hn
          cases Except.ok.inj hn
          cases x with
          | live value stored revision =>
            exact .inr ⟨rfl, hnext, value, stored, revision, v, hread.mono hv₂.1, hcount.1⟩
          | _ => exact absurd hcreates (by simp [Slot.creates])
        · refine safe_publishRecord hD (fun v₂ hv₂ => ?_) (fun v₂ ack v₃ hv₂ hv₃ hpub => ?_)
            fun _ _ _ => counterFound_error
          · exact casOk_write rfl (hread.mono hv₂.1) ⟨current, next, hcount, hnext, rfl⟩
          have hcreated : (casDuty api).rules.Safe (kvSystem api)
              (.updateCounter name key ttl step) (.main t) (fun js' _ _ => js' = [])
              (indexCreated key x.creates) [] v₃ := by
            refine safe_indexOnly hindex ?_
            unfold indexCreated
            split
            · exact (requests_publishIndex (asks_indexOnly key)).map
            · trivial
          refine Rules.Safe.bind Duty.ordered (safe_since hD hcreated) ?_
            fun _ _ _ _ => counterFound_error
          rintro indexed js v₄ ⟨rfl, hv₄⟩
          cases hdone : PendingWrite.done ack with
          | ok seq =>
            have hack := done_eq_ok.1 hdone
            have hevent : storedEvent (.main t) key (renderI64 next) exp x.expect.lastSequence seq v₂.srv ∈
                v₃.log := by
              rw [hpub.log, hack]
              exact List.mem_cons_self
            dsimp only
            cases hindexed : indexed with
            | error e => exact safe_fail fun _ _ => counterFound_error
            | ok revision =>
              intro v₅ hv₅ n hn
              cases Except.ok.inj hn
              exact .inl ⟨_, _, _, _, (Duty.rely_trans hv₄ hv₅).1.log.subset hevent⟩
          | error e =>
            cases e with
            | conflict => exact ih v₄
            | failed e => exact safe_refused hindex fun _ _ => counterFound_error
  exact hrounds casAttempts v

end Calls

/-! ## Every run -/

/-- What a finished call says about the log, if it is a counter call. -/
def CounterReply (api : CounterApi) (t : Nat) (op : Op) (x : Except ClusterError Reply)
    (v : KvView) : Prop :=
  ∀ name key ttl step, op = .updateCounter name key ttl step →
    ∃ y, x = Except.map Reply.count y ∧ CounterFound api ttl step (.main t) key y v

/-- **Every run keeps the duty of its revising calls**, whatever else runs and
whatever the backend does. -/
theorem cas_run {api : CounterApi} {s₀ : Server} {cs : List KvChoice} {w : KvWorld}
    (hrun : World.run (kvSystem api) (KvWorld.start s₀) cs = some w) :
    (casDuty api).rules.PoolSafe (kvSystem api) (CounterReply api) w ∧
      (casDuty api).rules.Guarded w ∧ History (kvSystem api) (fun _ => True) s₀ w.log w.srv := by
  have hcall : ∀ t op s log, True → (casDuty api).inv s →
      (casDuty api).rules.Safe (kvSystem api) op (.main t) (fun _ => CounterReply api t op)
        (op.program api) [] ⟨s, log, none⟩ := by
    intro t op s log _ _
    cases hop : op.revises with
    | some key =>
      cases op with
      | expire key' ttl =>
        refine Rules.Safe.map (expire_safe ttl) ?_
        rintro js x v - name key ttl step ⟨⟩
      | updateCounter name key' ttl step =>
        refine Rules.Safe.map (updateCounter_safe name ttl step) ?_
        rintro js x v hfound _ _ _ _ ⟨⟩
        exact ⟨x, rfl, hfound⟩
      | _ => exact absurd hop (by simp [Op.revises])
    | none =>
      refine Rules.safe_of_free (fun _ _ _ => ?_) (fun _ _ _ => casDuty_free hop)
        (fun _ _ _ => ⟨trivial, hop⟩) _ _ _
      rintro name key ttl step rfl
      exact absurd hop (by simp [Op.revises])
  obtain ⟨hpool, -, hguarded, hhist⟩ :=
    Duty.run (casDuty_kept api) hcall trivial (fun c _ => by
      cases c <;> trivial) hrun
  exact ⟨hpool, hguarded, hhist⟩

end ClusterNats
