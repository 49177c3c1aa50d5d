import ClusterNats.Kv.Codes
import ClusterNats.Kv.Counter
import ClusterNats.Lease.Fencing

/-!
# The lease calls and the two codes

The mints, the acquisitions and the renewals read both codes of a lost
compare-and-set; a release reads only the one of the servers before 2.14.

* `Blind` — a program that does not tell the codes apart.
* `release_lockstep` — what a release makes of a delete that lost its
  compare-and-set.
* `lost_cas_codes` — when the two codes come to the same.
-/

namespace ClusterNats.Lease

open Conc

/-- The answer to a request under either code. -/
def SameAnswer : (r : Req) → Resp r → Resp r → Prop
  | .update .., x, x' => Recoded (α := Nat) x x'
  | .deleteExpectRevision .., x, x' => Recoded (α := Unit) x x'
  | .systemTime, x, x' => x = x'
  | .instant, x, x' => x = x'
  | .sleep _, x, x' => x = x'
  | .getLast .., x, x' => x = x'

/-- Two programs that go the same way under either code. -/
def Blind {α : Type} (p p' : LeaseProg α) : Prop :=
  ∀ tr, p.Lockstep SameAnswer (fun _ => SameBy Eq) p' tr

section Rules

variable {α β : Type} {p p' : LeaseProg α}

theorem blind_ret (a : α) : Blind (.ret a) (.ret a) := fun _ => Prog.lockstep_ret rfl

theorem blind_fail (e : ClusterError) : Blind (.fail e : LeaseProg α) (.fail e) :=
  fun _ => ⟨_, rfl, rfl⟩

theorem Blind.bind {f f' : α → LeaseProg β} (h : Blind p p') (hf : ∀ a, Blind (f a) (f' a)) :
    Blind (p >>= f) (p' >>= f') :=
  fun tr => (h tr).bind (fun tr a _ ha => ha ▸ hf a tr) fun _ _ => rfl

theorem Blind.map {f : α → β} (h : Blind p p') : Blind (f <$> p) (f <$> p') :=
  fun tr => (h tr).map fun _ _ ha => ha ▸ rfl

theorem Blind.attempt (h : Blind p p') : Blind p.attempt p'.attempt := by
  refine fun tr => (h tr).attempt.conseq fun tr x x' hx => hx.mono fun y y' hy => ?_
  exact sameBy_eq.1 hy

theorem exact_read (r : Req) (h : r.isWrite = false) (x x' : Resp r) (hx : SameAnswer r x x') :
    x = x' := by
  cases r <;> first | exact hx | cases h

/-- A read is answered the same. -/
theorem blind_read {r : Req} (hr : r.isWrite = false) {k : Resp r → LeaseProg α}
    (h : ∀ x, Blind (k x) (k x)) : Blind (.req r k) (.req r k) := by
  refine fun tr => ⟨_, rfl, fun x x' hx => ?_⟩
  obtain rfl := exact_read r hr x x' hx
  exact h x _

theorem blind_lastRecord (store : KvStore) (key : String) :
    Blind (lastRecord store key) (lastRecord store key) :=
  blind_read (by rfl) fun _ => blind_ret _

theorem blind_nowUnixSecs : Blind nowUnixSecs nowUnixSecs :=
  blind_read (by rfl) fun _ => blind_ret _

theorem blind_rfc3339After (offset : Duration) :
    Blind (rfc3339After offset) (rfc3339After offset) :=
  blind_read (by rfl) fun _ => blind_ret _

theorem blind_expiryFor (ttl : Duration) : Blind (expiryFor ttl) (expiryFor ttl) :=
  (blind_rfc3339After ttl).bind fun _ => blind_nowUnixSecs.bind fun _ => blind_ret _

theorem blind_orUnavailable {ε : Type} (describe : ε → String) (x : Except ε α) :
    Blind (orUnavailable describe x) (orUnavailable describe x) := by
  cases x with
  | ok a => exact blind_ret a
  | error e => exact blind_fail _

/-- A write whose caller does the same at either code. -/
theorem blind_update {store : KvStore} {key : String} {value : Bytes} {revision : Nat}
    {f : Except PublishError Nat → LeaseProg α} (hf : ∀ x, Blind (f x) (f x))
    (hlost : ∀ e e', lostCas e = true → lostCas e' = true → f (.error e) = f (.error e')) :
    Blind (update store key value revision >>= f) (update store key value revision >>= f) := by
  refine fun tr => ⟨_, rfl, fun x x' hx => ?_⟩
  rcases (hx : Recoded (α := Nat) x x') with ⟨rfl, -⟩ | ⟨text, rfl, rfl⟩
  · exact hf x _
  · have hsame := hlost ⟨some .streamWrongLastSequence, text⟩
      ⟨some .streamWrongLastSequenceConstant, text⟩ (by simp [lostCas, PublishError.kind])
      (by simp [lostCas, isWrongLastSequence])
    show (f (.error ⟨some .streamWrongLastSequence, text⟩)).Lockstep SameAnswer _
      (f (.error ⟨some .streamWrongLastSequenceConstant, text⟩)) _
    rw [hsame]
    exact hf _ _

end Rules

/-! ## The calls that read both codes -/

section Programs

variable {json : LeaseJson}

theorem blind_bumpRounds (path : String) (rounds : Nat) :
    Blind (bumpRounds path rounds) (bumpRounds path rounds) := by
  induction rounds with
  | zero => exact blind_fail _
  | succ rounds ih =>
    refine (blind_lastRecord _ _).bind fun x => (blind_orUnavailable _ x).bind fun entry => ?_
    refine blind_update (fun y => ?_) fun e e' he he' => by simp [he, he']
    split
    · exact blind_ret _
    · dsimp only
      split
      · exact ih
      · exact blind_fail _

theorem blind_reclaim (key : String) (record : LeaseRecord) (revision : Nat) :
    Blind (reclaim json key record revision) (reclaim json key record revision) := by
  refine blind_update (fun x => ?_) fun _ _ _ _ => rfl
  split <;> exact blind_ret _

theorem blind_leaseIsExpired (record : LeaseRecord) :
    Blind (leaseIsExpired record) (leaseIsExpired record) := by
  unfold leaseIsExpired
  split
  · exact blind_nowUnixSecs.bind fun _ => blind_ret _
  · exact blind_ret _

theorem blind_reclaimIfExpired (key : String) (record : LeaseRecord) :
    Blind (reclaimIfExpired json key record) (reclaimIfExpired json key record) := by
  refine (blind_lastRecord _ _).bind fun x => ?_
  split
  · exact blind_ret _
  · exact blind_ret _
  · split
    · exact blind_reclaim _ _ _
    · split
      · exact blind_ret _
      · refine (blind_leaseIsExpired _).bind fun lapsed => ?_
        split
        · exact blind_reclaim _ _ _
        · exact blind_ret _

theorem blind_tryCreate (key : String) (record : LeaseRecord) :
    Blind (tryCreate json key record) (tryCreate json key record) := by
  refine blind_update (fun x => ?_) fun e e' he he' => by simp [he, he']
  split
  · exact blind_ret _
  · dsimp only
    split
    · exact blind_reclaimIfExpired _ _
    · exact blind_ret _

theorem blind_attempt (p : AcquireParams) : Blind (attempt json p) (attempt json p) := by
  refine (blind_bumpRounds _ _).bind fun token => (blind_expiryFor _).bind fun expiry => ?_
  exact (blind_rfc3339After _).bind fun acquiredAt => blind_tryCreate _ _

theorem blind_waitForSlot (p : AcquireParams) (started : Instant) (limit : Nat)
    {again : LeaseProg LeaseHandle} (h : Blind again again) :
    Blind (waitForSlot p started limit again) (waitForSlot p started limit again) := by
  unfold waitForSlot
  split
  · refine blind_read (by rfl) fun t => ?_
    dsimp only
    split
    · exact blind_fail _
    · exact blind_read (by rfl) fun _ => h
  · exact blind_fail _

theorem blind_acquireLoop (p : AcquireParams) (started : Instant) (fuel : Nat) :
    Blind (acquireLoop json p started fuel) (acquireLoop json p started fuel) := by
  induction fuel with
  | zero => exact fun _ => rfl
  | succ fuel ih =>
    refine (blind_attempt p).bind fun outcome => ?_
    split
    · exact blind_ret _
    · exact blind_waitForSlot _ _ _ ih
    · exact blind_fail _

theorem blind_acquireAsync (p : AcquireParams) (fuel : Nat) :
    Blind (acquireAsync json p fuel) (acquireAsync json p fuel) := by
  unfold acquireAsync
  split
  · exact blind_fail _
  · exact blind_read (by rfl) fun started => blind_acquireLoop _ _ _

theorem blind_tryAcquireAsync (p : AcquireParams) :
    Blind (tryAcquireAsync json p) (tryAcquireAsync json p) := by
  unfold tryAcquireAsync
  split
  · exact blind_fail _
  · refine (blind_attempt p).bind fun outcome => ?_
    split
    · exact blind_ret _
    · exact blind_ret _
    · exact blind_fail _

theorem blind_readHeld (h : LeaseHandle) : Blind (readHeld json h) (readHeld json h) := by
  refine (blind_lastRecord _ _).bind fun x => (blind_orUnavailable _ x).bind fun entry => ?_
  split
  · exact blind_fail _
  · split
    · exact blind_fail _
    · split
      · exact blind_ret _
      · exact blind_fail _

theorem blind_renewInner (h : LeaseHandle) : Blind (renewInner json h) (renewInner json h) := by
  refine (blind_readHeld h).bind fun held => (blind_expiryFor _).bind fun expiry => ?_
  refine blind_update (fun x => ?_) fun e e' he he' => by simp [he, he']
  split
  · exact blind_ret _
  · dsimp only
    split
    · exact (blind_readHeld h).bind fun _ => blind_ret _
    · exact blind_fail _

theorem blind_renewalLoop (h : LeaseHandle) (fuel : Nat) :
    Blind (renewalLoop json h fuel) (renewalLoop json h fuel) := by
  induction fuel with
  | zero => exact fun _ => rfl
  | succ fuel ih =>
    refine blind_read (by rfl) fun _ => (blind_renewInner h).attempt.bind fun x => ?_
    split
    · exact blind_ret _
    · exact ih

/-! ## The release -/

/-- A delete of the trace lost its compare-and-set, before 2.14. -/
def LostDelete (tr : List (Answered leaseSig)) : Prop :=
  ∃ store key revision text, (⟨.deleteExpectRevision store key revision,
    Except.error ⟨some .streamWrongLastSequence, text⟩⟩ : Answered leaseSig) ∈ tr

/-- How a call ends under either code. -/
def EndsAlike (op : Op) (tr : List (Answered leaseSig)) (x x' : Except ClusterError Reply) : Prop :=
  match op with
  | .release _ =>
    (LostDelete tr → x = .ok .done ∧ ∃ err, x' = .error err) ∧ (¬ LostDelete tr → x = x')
  | _ => SameBy Eq x x'

theorem endsAlike_of_eq {op : Op} {tr : List (Answered leaseSig)} (h : ¬ LostDelete tr)
    (x : Except ClusterError Reply) : EndsAlike op tr x x := by
  cases op with
  | release _ => exact ⟨fun hlost => absurd hlost h, fun _ => rfl⟩
  | _ => exact sameBy_eq.2 rfl

theorem not_lostDelete_cons {tr : List (Answered leaseSig)} (h : ¬ LostDelete tr)
    {a : Answered leaseSig} (ha : ∀ store key revision text,
      a ≠ ⟨.deleteExpectRevision store key revision,
        Except.error ⟨some .streamWrongLastSequence, text⟩⟩) : ¬ LostDelete (a :: tr) := by
  rintro ⟨store, key, revision, text, hmem⟩
  rcases List.mem_cons.1 hmem with heq | hmem
  · exact ha store key revision text heq.symm
  · exact h ⟨store, key, revision, text, hmem⟩

variable (json) in
/-- What a release does with the record it read. -/
def releaseRecord (h : LeaseHandle) (entry : Record) : LeaseProg Unit :=
  match json.fromSlice entry.payload with
  | .error _ => return ()
  | .ok record =>
    if h.owns record then
      .req (.deleteExpectRevision .leases h.key entry.revision) fun (x : Except PublishError Unit) =>
        match x with
        | .ok _ => .ret ()
        | .error e =>
          let text := e.text
          if e.kind = .wrongLastSequence then .ret ()
          else .fail (.backendUnavailable s!"lease release delete: {text}")
    else return ()

/-- **A release whose delete lost its compare-and-set** returns under the one
code and fails under the other. -/
theorem release_lockstep (h : LeaseHandle) :
    ((Op.release h).program json).Lockstep SameAnswer (EndsAlike (.release h))
      ((Op.release h).program json) [] := by
  have hnil : ¬ LostDelete [] := by
    rintro ⟨store, key, revision, text, hmem⟩
    cases hmem
  refine ⟨_, rfl, fun x x' hx => ?_⟩
  obtain rfl : x = x' := hx
  have hread : ¬ LostDelete [(⟨.getLast .leases h.key, x⟩ : Answered leaseSig)] :=
    not_lostDelete_cons hnil fun _ _ _ _ heq => by cases heq
  have hfail : ∀ e : ClusterError, (Prog.fail e : LeaseProg Reply).Lockstep SameAnswer
      (EndsAlike (.release h)) (.fail e) [⟨.getLast .leases h.key, x⟩] :=
    fun e => ⟨_, rfl, endsAlike_of_eq hread _⟩
  have hret : (Prog.ret Reply.done : LeaseProg Reply).Lockstep SameAnswer
      (EndsAlike (.release h)) (.ret .done) [⟨.getLast .leases h.key, x⟩] :=
    ⟨_, rfl, endsAlike_of_eq hread _⟩
  cases (x : Except String (Option StoredMessage)) with
  | error e => exact hfail _
  | ok m =>
    cases m with
    | none => exact hret
    | some m =>
      have hafter : ((fun _ => Reply.done) <$> releaseRecord json h (Record.ofMessage m)).Lockstep
          SameAnswer (EndsAlike (.release h))
          ((fun _ => Reply.done) <$> releaseRecord json h (Record.ofMessage m))
          [⟨.getLast .leases h.key, Except.ok (some m)⟩] := by
        unfold releaseRecord
        split
        · exact hret
        · split
          · refine ⟨_, rfl, fun y y' hy => ?_⟩
            rcases (hy : Recoded (α := Unit) y y') with ⟨rfl, hkept⟩ | ⟨text, rfl, rfl⟩
            · have hdelete := not_lostDelete_cons hread
                (a := ⟨.deleteExpectRevision .leases h.key (Record.ofMessage m).revision, y⟩)
                fun store key revision text heq => by
                  cases heq
                  exact hkept text rfl
              cases (y : Except PublishError Unit) with
              | ok _ => exact ⟨_, rfl, endsAlike_of_eq hdelete _⟩
              | error e =>
                dsimp only
                split
                · exact ⟨_, rfl, endsAlike_of_eq hdelete _⟩
                · exact ⟨_, rfl, endsAlike_of_eq hdelete _⟩
            · refine ⟨_, rfl, fun _ => ⟨rfl, _, rfl⟩, fun hlost => absurd ?_ hlost⟩
              exact ⟨_, _, _, text, List.mem_cons_self ..⟩
          · exact hret
      exact hafter

/-- Every call ends alike. -/
theorem op_lockstep (op : Op) : (op.program json).Lockstep SameAnswer (EndsAlike op)
    (op.program json) [] := by
  cases op with
  | acquire p fuel => exact (blind_acquireAsync p fuel).map []
  | tryAcquire p => exact (blind_tryAcquireAsync p).map []
  | renew h => exact (blind_renewInner h).map []
  | renewalLoop h fuel => exact (blind_renewalLoop h fuel).map []
  | release h => exact release_lockstep h

end Programs

/-! ## Every run -/

/-- The servers of the other release: they answer with the other code. -/
def Server.recoded (s : Server) : Server := { s with since214 := true }

/-- Servers before 2.14, and the same ones from 2.14 on. -/
def BothReleases (s s' : Server) : Prop := s.since214 = false ∧ s' = s.recoded

theorem bothReleases_setBucket {s : Server} (hold : s.since214 = false) (store : KvStore)
    (b : Bucket) : BothReleases (s.setBucket store b) (s.recoded.setBucket store b) := by
  cases store <;> exact ⟨hold, rfl⟩

/-- A conditional write stores the same under either code. -/
theorem publish_recoded {s : Server} (hold : s.since214 = false) (store : KvStore) (key : String)
    (headers : HeaderMap) (payload : Bytes) (revision : Nat) :
    Recoded (s.publish store key headers payload revision).1
        (s.recoded.publish store key headers payload revision).1 ∧
      BothReleases (s.publish store key headers payload revision).2
        (s.recoded.publish store key headers payload revision).2 := by
  have hbucket : s.recoded.bucket store = s.bucket store := by cases store <;> rfl
  unfold Server.publish
  rw [hbucket]
  cases isValidKey (bytes key) with
  | false => exact ⟨recoded_unanswered _, hold, rfl⟩
  | true =>
  simp only [if_true]
  cases hstore : (s.bucket store).storeIf (bytes key) ⟨headers, payload, s.clock⟩ (some revision) with
  | some bucket =>
    have hstore' : (s.bucket store).storeIf (bytes key) ⟨headers, payload, s.recoded.clock⟩
        (some revision) = some bucket := hstore
    simp only [hstore']
    exact ⟨recoded_ok _, bothReleases_setBucket hold store bucket⟩
  | none =>
    have hstore' : (s.bucket store).storeIf (bytes key) ⟨headers, payload, s.recoded.clock⟩
        (some revision) = none := hstore
    simp only [hstore', hold]
    exact ⟨recoded_lostCas _, hold, rfl⟩

theorem servePublish_recoded {m : Mode} {s : Server} (hold : s.since214 = false) {store : KvStore}
    {key : String} {headers : HeaderMap} {payload : Bytes} {revision : Nat}
    {y : Except PublishError Nat × Server}
    (h : servePublish m s store key headers payload revision = some y) :
    ∃ y', servePublish m s.recoded store key headers payload revision = some y' ∧
      Recoded y.1 y'.1 ∧ BothReleases y.2 y'.2 := by
  obtain ⟨hanswer, hstate⟩ := publish_recoded hold store key headers payload revision
  cases m with
  | ok =>
    cases h
    exact ⟨_, rfl, hanswer, hstate⟩
  | fail reason =>
    cases h
    exact ⟨_, rfl, recoded_unanswered reason, hold, rfl⟩
  | lost reason =>
    cases h
    exact ⟨_, rfl, recoded_unanswered reason, hstate⟩
  | _ => cases h

/-- Every request is answered the same but for the code. -/
theorem serve_recoded {m : Mode} {s s' t : Server} {c c' : Unit} {r : Req} {x : Resp r}
    (hboth : BothReleases s s') (h : serve m s c r = some (x, t, c')) :
    ∃ x' t', serve m s' c r = some (x', t', c') ∧ SameAnswer r x x' ∧ BothReleases t t' := by
  obtain ⟨hold, rfl⟩ := hboth
  cases r with
  | systemTime => cases Option.some.inj h; exact ⟨_, _, rfl, rfl, hold, rfl⟩
  | instant => cases Option.some.inj h; exact ⟨_, _, rfl, rfl, hold, rfl⟩
  | sleep millis => cases Option.some.inj h; exact ⟨_, _, rfl, rfl, hold, rfl⟩
  | getLast store key =>
    have hlast : s.recoded.last store key = s.last store key := by cases store <;> rfl
    obtain ⟨y, hy, heq⟩ := Option.map_eq_some_iff.1 h
    cases heq
    exact ⟨_, _, Option.map_eq_some_iff.2 ⟨_, by rw [hlast]; exact hy, rfl⟩, rfl, hold, rfl⟩
  | update store key value revision =>
    obtain ⟨y, hy, heq⟩ := Option.map_eq_some_iff.1 h
    obtain ⟨y', hy', hanswer, hstate⟩ := servePublish_recoded hold hy
    cases heq
    exact ⟨_, _, Option.map_eq_some_iff.2 ⟨_, hy', rfl⟩, hanswer, hstate⟩
  | deleteExpectRevision store key revision =>
    obtain ⟨y, hy, heq⟩ := Option.map_eq_some_iff.1 h
    obtain ⟨y', hy', hanswer, hstate⟩ := servePublish_recoded hold hy
    cases heq
    refine ⟨_, _, Option.map_eq_some_iff.2 ⟨_, hy', rfl⟩, ?_, hstate⟩
    rcases hanswer with ⟨heq, hkept⟩ | ⟨text, hold, hnew⟩
    · refine .inl ⟨by rw [heq], fun text htext => ?_⟩
      cases hy1 : y.1 with
      | ok seq => rw [hy1] at htext; cases htext
      | error e =>
        rw [hy1] at htext
        cases htext
        exact hkept text hy1
    · exact .inr ⟨text, by rw [hold]; rfl, by rw [hnew]; rfl⟩

/-- A lease that was returned is returned under either code. -/
theorem returned_of_locked {tr : List (Answered leaseSig)} {th th' : LeaseThread}
    (h : World.ThreadLocked SameAnswer EndsAlike tr th th') {lease : LeaseHandle}
    (hreturned : Returned th lease = true) : Returned th' lease = true := by
  have hvalue : th.main.value? = some (.lease (some lease)) := by simpa [Returned] using hreturned
  have hends := h.main.result
  rw [Prog.result?_of_value? hvalue] at hends
  cases hresult : th'.main.result? with
  | none => rw [hresult] at hends; cases hends
  | some x' =>
    rw [hresult] at hends
    have hlease : x' = .ok (.lease (some lease)) := by
      cases hends with
      | some hends =>
        unfold EndsAlike at hends
        split at hends
        · by_cases hlost : LostDelete tr
          · obtain ⟨hdone, -⟩ := hends.1 hlost
            cases hdone
          · exact (hends.2 hlost).symm
        · exact (sameBy_eq.1 hends).symm
    rw [hlease] at hresult
    rcases Prog.result?_eq_some.1 hresult with ⟨a, ha, heq⟩ | ⟨e, -, heq⟩
    · cases heq
      simp [Returned, ha, Prog.value?]
    · cases heq

/-- The fleets of the two releases answer alike. -/
theorem lease_twin (json : LeaseJson) : World.Twin (leaseSystem json) (leaseSystem json)
    BothReleases SameAnswer EndsAlike where
  serve := serve_recoded
  env := by
    rintro v s s' t ⟨hold, rfl⟩ hv
    simp only [leaseSystem, tick] at hv ⊢
    split at hv
    · rename_i htime
      cases Option.some.inj hv
      exact ⟨_, if_pos htime, hold, rfl⟩
    · cases hv
  deliver _ hl := by cases hl
  loc₀ := rfl
  job j := nomatch j
  call := by
    intro ths ths' op p hths hp
    simp only [leaseSystem] at hp ⊢
    cases hhandle : op.handle with
    | none =>
      rw [hhandle] at hp
      cases Option.some.inj hp
      exact ⟨_, rfl, op_lockstep op⟩
    | some lease =>
      rw [hhandle] at hp
      dsimp only at hp ⊢
      split at hp
      · rename_i hany
        cases Option.some.inj hp
        obtain ⟨th, hth, hreturned⟩ := List.any_eq_true.1 hany
        obtain ⟨t, hth⟩ := List.mem_iff_getElem?.1 hth
        obtain ⟨th', tr, hth', hlocked⟩ := hths t th hth
        refine ⟨_, if_pos ?_, op_lockstep op⟩
        exact List.any_eq_true.2 ⟨th', List.mem_of_getElem? hth', returned_of_locked hlocked hreturned⟩
      · cases hp

/-- The results of the calls, and what the servers store, are the same. -/
def SameOutcome (w w' : LeaseWorld) : Prop :=
  w.threads.map (fun th => th.main.result?) = w'.threads.map (fun th => th.main.result?) ∧
    w'.srv = w.srv.recoded

/-- The delete of no finished release lost its compare-and-set. -/
def NoLostDelete (w : LeaseWorld) : Prop :=
  ∀ (t : Nat) (th : LeaseThread) (h : LeaseHandle), w.threads[t]? = some th → th.op = .release h →
    th.main.result?.isSome → ¬ LostDelete (ownTrace (.main t) w.log)

/-- **When the two codes come to the same.**  Every run of the store has the same
results and records under either; a run of lease calls has exactly where no
delete of a release lost its compare-and-set. -/
theorem lost_cas_codes (api : CounterApi) (json : LeaseJson) :
    (∀ (s : ClusterNats.Server) (cs : List KvChoice) (w : KvWorld),
      s.since214 = false → World.run (kvSystem api) (KvWorld.start s) cs = some w →
      ∃ w', World.run (kvSystem api) (KvWorld.start s.recoded) cs = some w' ∧
        ClusterNats.SameOutcome w w') ∧
    ∀ (s : Server) (cs : List LeaseChoice) (w : LeaseWorld),
      s.since214 = false → World.run (leaseSystem json) (LeaseWorld.start s) cs = some w →
      ∃ w', World.run (leaseSystem json) (LeaseWorld.start s.recoded) cs = some w' ∧
        (SameOutcome w w' ↔ NoLostDelete w) := by
  refine ⟨fun s cs w hold hrun => kv_recoded api hold hrun, fun s cs w hold hrun => ?_⟩
  obtain ⟨w', hrun', hlocked⟩ := World.run_lockstep (lease_twin json) ⟨hold, rfl⟩ hrun
  refine ⟨w', hrun', fun hsame t th h hth hop hfinished hlost => ?_, fun hkept =>
    ⟨List.ext_getElem? fun t => ?_, hlocked.srv.2⟩⟩
  · obtain ⟨th', hth', hthread⟩ := hlocked.thread t th hth
    have heq : th.main.result? = th'.main.result? := by
      have hget := congrArg (fun l => l[t]?) hsame.1
      simpa [hth, hth'] using hget
    have hends := hthread.main.result
    rw [← heq] at hends
    obtain ⟨x, hx⟩ := Option.isSome_iff_exists.1 hfinished
    rw [hx, hop] at hends
    cases hends with
    | some hends =>
      obtain ⟨hdone, err, herr⟩ := hends.1 hlost
      rw [hdone] at herr
      cases herr
  · rw [List.getElem?_map, List.getElem?_map]
    cases hth : w.threads[t]? with
    | none =>
      have hlen : w.threads.length ≤ t := List.getElem?_eq_none_iff.1 hth
      rw [List.getElem?_eq_none_iff.2 (hlocked.length ▸ hlen)]
    | some th =>
      obtain ⟨th', hth', hthread⟩ := hlocked.thread t th hth
      rw [hth', Option.map_some, Option.map_some]
      have hends := hthread.main.result
      cases hresult : th.main.result? with
      | none =>
        rw [hresult] at hends
        cases hresult' : th'.main.result? with
        | none => rfl
        | some x' => rw [hresult'] at hends; cases hends
      | some x =>
        rw [hresult] at hends
        cases hresult' : th'.main.result? with
        | none => rw [hresult'] at hends; cases hends
        | some x' =>
          rw [hresult'] at hends
          cases hends with
          | some hends =>
            unfold EndsAlike at hends
            split at hends
            · rename_i h hop
              rw [hends.2 (hkept t th h hth hop (by rw [hresult]; rfl))]
            · rw [sameBy_eq.1 hends]

/-- The lease of `lock.x` that a node was given with a token. -/
def leaseOf (node : String) (token : UInt64) : LeaseHandle :=
  spawnLeaseHandle (lockBy node) ⟨node, token, "", "", 0⟩

/-- The answered request is a delete that lost its compare-and-set, before 2.14. -/
def losesDelete : Answered leaseSig → Bool
  | ⟨.deleteExpectRevision .., x⟩ =>
    match (x : Except PublishError Unit) with
    | .ok _ => false
    | .error e => e.code = some .streamWrongLastSequence
  | _ => false

theorem LostDelete.exists {tr : List (Answered leaseSig)} (h : LostDelete tr) :
    ∃ a ∈ tr, losesDelete a = true := by
  obtain ⟨store, key, revision, text, hmem⟩ := h
  exact ⟨_, hmem, rfl⟩

/-- Node `b` takes the slot over from node `a` and releases it. -/
def handoverReleased : List LeaseChoice :=
  handover ++ [.start (.release (leaseOf "b" 2))] ++ steps 2 2

theorem lost_cas_codes_handover : ∃ w ∈ World.run (leaseSystem plainJson)
      (LeaseWorld.start emptyServer) handoverReleased, ∃ w' ∈ World.run (leaseSystem plainJson)
      (LeaseWorld.start emptyServer.recoded) handoverReleased,
      (∃ th ∈ w.threads[2]?, th.main.result? = some (.ok .done)) ∧ SameOutcome w w' := by
  have hrun : ∃ w ∈ World.run (leaseSystem plainJson) (LeaseWorld.start emptyServer) handoverReleased,
      (∃ th ∈ w.threads[2]?, th.main.result? = some (.ok .done)) ∧
        ∀ t < w.threads.length, ∀ a ∈ ownTrace (.main t) w.log, losesDelete a = false := by
    decide +kernel
  obtain ⟨w, hw, hdone, hkept⟩ := hrun
  obtain ⟨w', hw', hiff⟩ :=
    (lost_cas_codes decimalCounters plainJson).2 emptyServer handoverReleased w rfl hw
  refine ⟨w, hw, w', hw', hdone, hiff.2 fun t th h hth _ _ hlost => ?_⟩
  obtain ⟨a, ha, hloses⟩ := hlost.exists
  have hkeeps := hkept t (List.getElem?_eq_some_iff.1 hth).1 a ha
  exact absurd (hkeeps.symm.trans hloses) (by decide)

/-- Node `a` takes the slot and releases it; its lease lapses and node `b` takes
it over between the read and the delete of the release. -/
def releaseOvertaken : List LeaseChoice :=
  [.start (.tryAcquire (lockBy "a"))] ++ steps 0 6 ++ [.start (.release (leaseOf "a" 1))] ++
    steps 1 1 ++ [.env 3000000000, .start (.tryAcquire (lockBy "b"))] ++ steps 2 9 ++ steps 1 1

/-- The release returns before 2.14 and fails from 2.14 on. -/
theorem lost_cas_codes_release : ∃ w ∈ World.run (leaseSystem plainJson)
      (LeaseWorld.start emptyServer) releaseOvertaken, ∃ w' ∈ World.run (leaseSystem plainJson)
      (LeaseWorld.start emptyServer.recoded) releaseOvertaken, ¬ SameOutcome w w' := by
  have hold : ∃ w ∈ World.run (leaseSystem plainJson) (LeaseWorld.start emptyServer)
      releaseOvertaken, ∃ th ∈ w.threads[1]?, th.main.result? = some (.ok .done) := by
    decide +kernel
  have hnew : ∃ w' ∈ World.run (leaseSystem plainJson) (LeaseWorld.start emptyServer.recoded)
      releaseOvertaken, ∃ th ∈ w'.threads[1]?, th.main.result? ≠ some (.ok .done) := by
    decide +kernel
  obtain ⟨w, hw, th, hth, hresult⟩ := hold
  obtain ⟨w', hw', th', hth', hresult'⟩ := hnew
  refine ⟨w, hw, w', hw', fun hsame => hresult' ?_⟩
  rw [Option.mem_def] at hth hth'
  have hget := congrArg (fun l => l[1]?) hsame.1
  simp only [List.getElem?_map, hth, hth', Option.map_some, Option.some.injEq] at hget
  rw [← hget, hresult]

end ClusterNats.Lease
