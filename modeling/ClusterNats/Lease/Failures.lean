import ClusterNats.Lease.Fencing

/-!
# What an acquisition reports

An acquisition tries the slot once.  `None` says that the slot is another
node's; a request that failed is an error, but for the write that takes over a
slot, whose every failure counts as a slot lost to another node.

* `Failed`, `ReclaimCas` — a request that failed, and the write that takes over.
* `Contended` — why a slot is not taken.
* `tryAcquire_abides` — what the call did when it returns, and that it makes no
  request after one that failed.
* `failures_reported` — when failures are told from contention.
-/

namespace ClusterNats.Lease

open Conc

/-- The request failed, and not because a compare-and-set was lost. -/
def Failed (e : LeaseEvent) : Prop :=
  match e with
  | ⟨_, .getLast .., x, _⟩ => ∃ err, x = Except.error err
  | ⟨_, .update .., x, _⟩ => ∃ err, x = Except.error err ∧ lostCas err = false
  | ⟨_, .deleteExpectRevision .., x, _⟩ => ∃ err, x = Except.error err ∧ lostCas err = false
  | _ => False

instance : DecidablePred Failed := fun e =>
  match e with
  | ⟨_, .getLast .., x, _⟩ =>
    match (x : Except String (Option StoredMessage)) with
    | .ok _ => isFalse fun h => nomatch h
    | .error err => isTrue ⟨err, rfl⟩
  | ⟨_, .update .., x, _⟩ =>
    match (x : Except PublishError Nat) with
    | .ok _ => isFalse fun h => nomatch h
    | .error err => decidable_of_iff (lostCas err = false)
        ⟨fun h => ⟨err, rfl, h⟩, fun ⟨_, heq, h⟩ => by cases heq; exact h⟩
  | ⟨_, .deleteExpectRevision .., x, _⟩ =>
    match (x : Except PublishError Unit) with
    | .ok _ => isFalse fun h => nomatch h
    | .error err => decidable_of_iff (lostCas err = false)
        ⟨fun h => ⟨err, rfl, h⟩, fun ⟨_, heq, h⟩ => by cases heq; exact h⟩
  | ⟨_, .systemTime, _, _⟩ => isFalse id
  | ⟨_, .instant, _, _⟩ => isFalse id
  | ⟨_, .sleep _, _, _⟩ => isFalse id

/-- The write that takes over the slot, at the revision of the record read. -/
def ReclaimCas (key : String) (e : LeaseEvent) : Prop :=
  ∃ value revision, e.req = .update .leases key value revision ∧ revision ≠ 0

/-- Why a slot is not taken. -/
inductive Contended (json : LeaseJson) (who : Actor) (key : String) (tr : List LeaseEvent) : Prop
  /-- The record cannot be read. -/
  | garbled (s : Server) (r : Record) (read : readEvent who .leases key s ∈ tr)
      (found : recordIn s .leases key = some r) (put : r.operation = .put) (err : String)
      (parsed : json.fromSlice r.payload = .error err)
  /-- The record has no date. -/
  | undated (s : Server) (r : Record) (incumbent : LeaseRecord)
      (read : readEvent who .leases key s ∈ tr) (found : recordIn s .leases key = some r)
      (put : r.operation = .put) (parsed : json.fromSlice r.payload = .ok incumbent)
      (undated : incumbent.expiresAtUnix = 0)
  /-- The record has not lapsed. -/
  | live (s s' : Server) (r : Record) (incumbent : LeaseRecord)
      (read : readEvent who .leases key s ∈ tr) (found : recordIn s .leases key = some r)
      (put : r.operation = .put) (parsed : json.fromSlice r.payload = .ok incumbent)
      (clock : clockEvent who s' ∈ tr) (live : s'.now < incumbent.expiresAtUnix)
  /-- The record vanished. -/
  | vanished (s : Server) (read : readEvent who .leases key s ∈ tr)
      (found : recordIn s .leases key = none)
  /-- The record was replaced before it was taken over. -/
  | lost (e : LeaseEvent) (mem : e ∈ tr) (value : Bytes) (revision : Nat)
      (req : e.req = .update .leases key value revision) (read : revision ≠ 0)
      (moved : revisionOf (recordIn e.pre .leases key) ≠ revision)

/-! ## One event -/

theorem not_failed_read (who : Actor) (store : KvStore) (key : String) (s : Server) :
    ¬ Failed (readEvent who store key s) := by
  rintro ⟨err, h⟩
  cases h

/-- Only a write at another revision loses its compare-and-set. -/
theorem Known.update_lost {who : Actor} {store : KvStore} {key : String} {value : Bytes}
    {revision : Nat} {err : PublishError} {s : Server}
    (h : Known ⟨who, .update store key value revision, Except.error err, s⟩)
    (hlost : lostCas err = true) : revisionOf (recordIn s store key) ≠ revision := by
  obtain ⟨m, s', h⟩ := h
  obtain ⟨y, hy, heq⟩ := Option.map_eq_some_iff.1 h
  have hy1 : y.1 = Except.error err := (Prod.mk.inj heq).1
  cases m with
  | ok =>
    cases hy
    rcases publish_cases s store key [] value revision with ⟨-, -, hpub⟩ | ⟨-, hne, -⟩ | ⟨-, hpub⟩
    · rw [hpub] at hy1
      cases hy1
    · exact hne
    · rw [hpub] at hy1
      cases hy1
      simp [lostCas, PublishError.kind, isWrongLastSequence] at hlost
  | fail reason =>
    cases hy
    cases hy1
    simp [lostCas, PublishError.kind, isWrongLastSequence] at hlost
  | lost reason =>
    cases hy
    cases hy1
    simp [lostCas, PublishError.kind, isWrongLastSequence] at hlost
  | _ => cases hy

/-! ## The programs -/

/-- No request failed. -/
def Clean (tr : List LeaseEvent) : Prop := ∀ e ∈ tr, ¬ Failed e

theorem Clean.cons {tr : List LeaseEvent} (h : Clean tr) {e : LeaseEvent} (he : ¬ Failed e) :
    Clean (e :: tr) := List.forall_mem_cons.2 ⟨he, h⟩

/-- Every request that failed is one of another kind than a take-over. -/
def FailedElsewhere (key : String) (tr : List LeaseEvent) : Prop :=
  ∀ e ∈ tr, Failed e → ¬ ReclaimCas key e

theorem Clean.elsewhere {tr : List LeaseEvent} {key : String} (h : Clean tr) :
    FailedElsewhere key tr := fun e he hfailed => absurd hfailed (h e he)

theorem FailedElsewhere.cons {tr : List LeaseEvent} {key : String} (h : Clean tr) {e : LeaseEvent}
    (he : ¬ ReclaimCas key e) : FailedElsewhere key (e :: tr) :=
  List.forall_mem_cons.2 ⟨fun _ => he, h.elsewhere⟩

/-- A take-over failed, and nothing else did. -/
def FailedReclaim (key : String) (tr : List LeaseEvent) : Prop :=
  (∃ e ∈ tr, ReclaimCas key e ∧ Failed e) ∧ ∀ e ∈ tr, Failed e → ReclaimCas key e

section Programs

variable {json : LeaseJson} {who : Actor} {tr : List LeaseEvent} {p : AcquireParams}

/-- The guard of the check: no request after one that failed. -/
def NoneAfterFailure (tr : List LeaseEvent) (_ : Req) : Prop := Clean tr

theorem bumpRounds_clean {key : String} (rounds : Nat) (h : Clean tr) :
    (bumpRounds (fencingPath key) rounds).Abides who Known NoneAfterFailure
      (fun tr x => match x with
        | .ok _ => Clean tr
        | .error _ => FailedElsewhere key tr) tr := by
  induction rounds generalizing tr with
  | zero => exact h.elsewhere
  | succ rounds ih =>
    refine abides_lastRecord h (fun s => ?_) fun e s => ?_
    · have hread := h.cons (not_failed_read who .fencing (fencingPath key) s)
      refine ⟨hread, fun x s' _ => ?_⟩
      cases (x : Except PublishError Nat) with
      | ok seq => exact hread.cons fun hf => by obtain ⟨err, herr, -⟩ := hf; cases herr
      | error e =>
        dsimp only [bind, Prog.bind]
        cases hlost : lostCas e with
        | true =>
          refine ih (hread.cons fun hf => ?_)
          obtain ⟨err, herr, hne⟩ := hf
          cases herr
          rw [hlost] at hne
          cases hne
        | false => exact FailedElsewhere.cons hread fun ⟨_, _, hreq, _⟩ => by cases hreq
    · exact FailedElsewhere.cons h fun ⟨_, _, hreq, _⟩ => by cases hreq

/-- What an attempt at the slot says about its requests. -/
def AttemptReports (json : LeaseJson) (who : Actor) (key : String) (tr : List LeaseEvent) :
    Except ClusterError AcquireOutcome → Prop
  | .ok (.acquired ..) => Clean tr
  | .ok .held => Clean tr ∧ Contended json who key tr ∨ FailedReclaim key tr
  | .ok (.backendError _) => FailedElsewhere key tr
  | .error _ => FailedElsewhere key tr

section Slot

variable {record : LeaseRecord}

theorem reclaim_reports (h : Clean tr) {revision : Nat} (hrev : revision ≠ 0) :
    (reclaim json p.key record revision).Abides who Known NoneAfterFailure
      (AttemptReports json who p.key) tr := by
  refine ⟨h, fun x s hknown => ?_⟩
  cases hx : (x : Except PublishError Nat) with
  | ok seq =>
    refine Clean.cons h fun hf => ?_
    obtain ⟨err, herr, -⟩ := hf
    cases herr
  | error err =>
    cases hlost : lostCas err with
    | true =>
      have hmoved := Known.update_lost (hx ▸ hknown) hlost
      refine .inl ⟨h.cons fun hf => ?_, .lost _ (List.mem_cons_self ..) _ revision rfl hrev hmoved⟩
      obtain ⟨err', herr, hne⟩ := hf
      cases herr
      rw [hlost] at hne
      cases hne
    | false =>
      refine .inr ⟨⟨_, List.mem_cons_self .., ⟨_, revision, rfl, hrev⟩, err, rfl, hlost⟩,
        List.forall_mem_cons.2 ⟨fun _ => ⟨_, revision, rfl, hrev⟩, fun e he hf => ?_⟩⟩
      exact absurd hf (h e he)

theorem reclaimIfExpired_reports (h : Clean tr) :
    (reclaimIfExpired json p.key record).Abides who Known NoneAfterFailure
      (AttemptReports json who p.key) tr := by
  refine abides_lastRecord h (fun s => ?_) fun e s =>
    FailedElsewhere.cons h fun ⟨_, _, hreq, _⟩ => by cases hreq
  have hread := h.cons (not_failed_read who .leases p.key s)
  have hmem : readEvent who .leases p.key s ∈ readEvent who .leases p.key s :: tr :=
    List.mem_cons_self ..
  cases hfound : recordIn s .leases p.key with
  | none => exact .inl ⟨hread, .vanished s hmem hfound⟩
  | some entry =>
    dsimp only
    split
    · exact reclaim_reports hread (revision_ne_zero hfound)
    · rename_i hput
      have hput : entry.operation = .put := by simpa using hput
      split
      · rename_i err hparsed
        exact .inl ⟨hread, .garbled s entry hmem hfound hput err hparsed⟩
      · rename_i incumbent hparsed
        unfold leaseIsExpired
        split
        · rw [bind_assoc]
          refine abides_now hread fun s' => ?_
          have hclock := hread.cons (e := clockEvent who s') id
          cases hlapsed : decide (incumbent.expiresAtUnix ≤ s'.now) with
          | false =>
            simp only [Prog.pure_def, Prog.ret_bind]
            exact .inl ⟨hclock, .live s s' entry incumbent (List.mem_cons_of_mem _ hmem) hfound hput
              hparsed (List.mem_cons_self ..) (by simpa using hlapsed)⟩
          | true =>
            simp only [Prog.pure_def, Prog.ret_bind, if_true]
            exact reclaim_reports hclock (revision_ne_zero hfound)
        · rename_i hundated
          exact .inl ⟨hread, .undated s entry incumbent hmem hfound hput hparsed
            (by simpa using hundated)⟩

theorem tryCreate_reports (h : Clean tr) :
    (tryCreate json p.key record).Abides who Known NoneAfterFailure
      (AttemptReports json who p.key) tr := by
  refine ⟨h, fun x s _ => ?_⟩
  cases (x : Except PublishError Nat) with
  | ok seq => exact Clean.cons h fun hf => by obtain ⟨err, herr, -⟩ := hf; cases herr
  | error err =>
    dsimp only [bind, Prog.bind]
    cases hlost : lostCas err with
    | true =>
      refine reclaimIfExpired_reports (h.cons fun hf => ?_)
      obtain ⟨err', herr, hne⟩ := hf
      cases herr
      rw [hlost] at hne
      cases hne
    | false =>
      refine FailedElsewhere.cons h ?_
      rintro ⟨value, revision, hreq, hne⟩
      cases hreq
      exact hne rfl

theorem attempt_reports (h : Clean tr) : (attempt json p).Abides who Known NoneAfterFailure
    (AttemptReports json who p.key) tr := by
  refine (bumpRounds_clean 16 h).bind (fun tr token hclean => ?_) fun tr e helse => helse
  refine abides_expiryFor hclean (fun s => hclean.cons id) fun expiry s s' => ?_
  have hclean' : Clean (clockEvent who s' :: clockEvent who s :: tr) := (hclean.cons id).cons id
  refine abides_rfc3339After hclean' fun acquiredAt s'' => ?_
  exact tryCreate_reports (hclean'.cons id)

end Slot

/-- What the call reports. -/
def Reports (json : LeaseJson) (who : Actor) (key : String) (tr : List LeaseEvent)
    (x : Except ClusterError Reply) : Prop :=
  (∃ err, x = .error err) ∧ FailedElsewhere key tr ∨
    x = .ok (.lease none) ∧ (Clean tr ∧ Contended json who key tr ∨ FailedReclaim key tr) ∨
    (∃ h, x = .ok (.lease (some h))) ∧ Clean tr

/-- **The call makes no request after one that failed, and reports what its
requests came to.** -/
theorem tryAcquire_abides (h : Clean tr) : ((Op.tryAcquire p).program json).Abides who Known
    NoneAfterFailure (Reports json who p.key) tr := by
  show (Reply.lease <$> tryAcquireAsync json p).Abides who Known NoneAfterFailure _ tr
  unfold tryAcquireAsync
  split
  · exact .inl ⟨⟨_, rfl⟩, h.elsewhere⟩
  · rw [map_bind]
    refine (attempt_reports h).bind (fun tr outcome hreports => ?_) fun tr e helse =>
      .inl ⟨⟨e, rfl⟩, helse⟩
    cases outcome with
    | acquired record revision => exact .inr (.inr ⟨⟨_, rfl⟩, hreports⟩)
    | held => exact .inr (.inl ⟨rfl, hreports⟩)
    | backendError reason => exact .inl ⟨⟨_, rfl⟩, hreports⟩

/-! ## The call returns -/

theorem lastRecord_sequential {store : KvStore} {key : String} :
    (lastRecord store key).Sequential := fun _ => trivial

theorem update_sequential {store : KvStore} {key : String} {value : Bytes} {revision : Nat} :
    (update store key value revision).Sequential := fun _ => trivial

theorem nowUnixSecs_sequential : nowUnixSecs.Sequential := fun _ => trivial

theorem rfc3339After_sequential {offset : Duration} : (rfc3339After offset).Sequential :=
  fun _ => trivial

theorem expiryFor_sequential {ttl : Duration} : (expiryFor ttl).Sequential :=
  rfc3339After_sequential.bind fun _ => nowUnixSecs_sequential.bind fun _ => trivial

theorem bumpRounds_sequential {path : String} {rounds : Nat} :
    (bumpRounds path rounds).Sequential := by
  induction rounds with
  | zero => trivial
  | succ rounds ih =>
    refine lastRecord_sequential.bind fun x => ?_
    cases x with
    | error e => trivial
    | ok entry =>
      refine update_sequential.bind fun y => ?_
      cases y with
      | ok seq => trivial
      | error e =>
        dsimp only
        split
        · exact ih
        · trivial

theorem reclaim_sequential {key : String} {record : LeaseRecord} {revision : Nat} :
    (reclaim json key record revision).Sequential := by
  refine update_sequential.bind fun x => ?_
  split <;> trivial

theorem reclaimIfExpired_sequential {key : String} {record : LeaseRecord} :
    (reclaimIfExpired json key record).Sequential := by
  refine lastRecord_sequential.bind fun x => ?_
  split
  · trivial
  · trivial
  · split
    · exact reclaim_sequential
    · split
      · trivial
      · refine Prog.Sequential.bind ?_ fun lapsed => ?_
        · unfold leaseIsExpired
          split
          · exact nowUnixSecs_sequential.bind fun _ => trivial
          · trivial
        · split
          · exact reclaim_sequential
          · trivial

theorem tryCreate_sequential {key : String} {record : LeaseRecord} :
    (tryCreate json key record).Sequential := by
  refine update_sequential.bind fun x => ?_
  split
  · trivial
  · split
    · exact reclaimIfExpired_sequential
    · trivial

theorem attempt_sequential : (attempt json p).Sequential := by
  refine bumpRounds_sequential.bind fun token => ?_
  refine expiryFor_sequential.bind fun expiry => ?_
  exact rfc3339After_sequential.bind fun acquiredAt => tryCreate_sequential

theorem tryAcquire_sequential :
    ((Op.tryAcquire p).program json).Sequential := by
  refine Prog.Sequential.map ?_
  unfold tryAcquireAsync
  split
  · trivial
  · refine attempt_sequential.bind fun outcome => ?_
    split <;> trivial

end Programs

/-! ## What is reported -/

/-- What is checked of a request of each call. -/
def TryGuard (op : Op) (tr : List LeaseEvent) (r : Req) : Prop :=
  match op with
  | .tryAcquire _ => NoneAfterFailure tr r
  | _ => True

/-- What is checked of the result of each call. -/
def TryReports (json : LeaseJson) (op : Op) (who : Actor) (tr : List LeaseEvent)
    (x : Except ClusterError Reply) : Prop :=
  match op with
  | .tryAcquire p => Reports json who p.key tr x
  | _ => True

section Runs

variable {json : LeaseJson} {s₀ : Server} {cs : List LeaseChoice} {w : LeaseWorld} {t : Nat}
  {th : LeaseThread} {p : AcquireParams}

/-- In every run of lease calls, in any mode of the backend, a call of
`tryAcquire` made no request after one that failed, and reports what it did. -/
theorem run_reports (hrun : World.run (leaseSystem json) (LeaseWorld.start s₀) cs = some w)
    (hth : w.threads[t]? = some th) (hop : th.op = .tryAcquire p) :
    (th.main.result? = none ∧ Clean (ownEvents (.main t) w.log)) ∨
      ∃ x, th.main.result? = some x ∧
        Reports json (.main t) p.key (ownEvents (.main t) w.log) x := by
  have habiding : World.Abiding Known (fun op _ => TryGuard op) (TryReports json) w := by
    refine World.run_abiding (fun _ => True) ?_ ?_ (fun c _ => by cases c <;> trivial) hrun
    · rintro e ⟨m, l, s', l', -, h⟩
      exact ⟨m, s', h⟩
    · intro ths op q hq t
      rw [call_program hq]
      cases op with
      | tryAcquire p => exact tryAcquire_abides fun e he => absurd he (by simp)
      | _ => exact Prog.abides_of_free (fun _ _ => trivial) fun _ _ => trivial
  have hmain := habiding.main t th hth
  have hsequential : th.main.Sequential :=
    World.run_sequential (C := fun op => ∃ p, op = Op.tryAcquire p)
      (by
        rintro ths op q ⟨p, hp⟩ hq
        rw [call_program hq, hp]
        exact tryAcquire_sequential) hrun hth ⟨p, hop⟩
  rw [hop] at hmain
  cases hth' : th.main with
  | ret a =>
    rw [hth'] at hmain
    exact .inr ⟨_, rfl, hmain⟩
  | fail e =>
    rw [hth'] at hmain
    exact .inr ⟨_, rfl, hmain⟩
  | req r k =>
    rw [hth'] at hmain
    exact .inl ⟨rfl, hmain.1⟩
  | _ =>
    rw [hth'] at hsequential
    exact absurd hsequential id

/-- A request that failed is the error of the call, at once, and `None` is told
only of a slot that is another node's. -/
def FailuresReported (json : LeaseJson) (t : Nat) (th : LeaseThread) (key : String)
    (tr : List LeaseEvent) : Prop :=
  ((∃ e ∈ tr, Failed e) → ∃ err, th.main.result? = some (.error err)) ∧
    (th.main.result? = some (.ok (.lease none)) → Contended json (.main t) key tr)

end Runs

/-- **When failures are told from contention.**  In every run of lease calls, in
any mode of the backend, the failures of a call of `tryAcquire` are reported
exactly when its write that takes over the slot does not fail. -/
theorem failures_reported (json : LeaseJson) (s₀ : Server) (cs : List LeaseChoice) (w : LeaseWorld)
    (hrun : World.run (leaseSystem json) (LeaseWorld.start s₀) cs = some w) (t : Nat)
    (th : LeaseThread) (hth : w.threads[t]? = some th) (p : AcquireParams)
    (hop : th.op = .tryAcquire p) :
    FailuresReported json t th p.key (ownEvents (.main t) w.log) ↔
      ∀ e ∈ ownEvents (.main t) w.log, ReclaimCas p.key e → ¬ Failed e := by
  constructor
  · rintro ⟨hfailures, -⟩ e he hreclaim hfailed
    obtain ⟨err, herr⟩ := hfailures ⟨e, he, hfailed⟩
    rcases run_reports hrun hth hop with ⟨hnone, -⟩ | ⟨x, hx, hreports⟩
    · rw [hnone] at herr
      cases herr
    · obtain rfl := Option.some.inj (hx.symm.trans herr)
      rcases hreports with ⟨-, helse⟩ | ⟨heq, -⟩ | ⟨⟨h, heq⟩, -⟩
      · exact helse e he hfailed hreclaim
      · cases heq
      · cases heq
  · intro hcondition
    have hno : ¬ FailedReclaim p.key (ownEvents (.main t) w.log) := by
      rintro ⟨⟨e, he, hreclaim, hfailed⟩, -⟩
      exact hcondition e he hreclaim hfailed
    rcases run_reports hrun hth hop with ⟨hnone, hclean⟩ | ⟨x, hx, hreports⟩
    · refine ⟨fun ⟨e, he, hfailed⟩ => absurd hfailed (hclean e he), fun h => ?_⟩
      rw [hnone] at h
      cases h
    · rw [FailuresReported, hx]
      rcases hreports with ⟨⟨err, rfl⟩, -⟩ | ⟨rfl, ⟨hclean, hcontended⟩ | hreclaim⟩ |
        ⟨⟨h, rfl⟩, hclean⟩
      · exact ⟨fun _ => ⟨err, rfl⟩, fun h => by cases h⟩
      · exact ⟨fun ⟨e, he, hfailed⟩ => absurd hfailed (hclean e he), fun _ => hcontended⟩
      · exact absurd hreclaim hno
      · exact ⟨fun ⟨e, he, hfailed⟩ => absurd hfailed (hclean e he), fun h => by cases h⟩

/-- A lapsed lease of node `b`, and node `a` tries the slot; the write that takes
it over is answered in mode `m`. -/
def takeOver (m : Mode) : List LeaseChoice :=
  [.start (.tryAcquire (lockBy "b"))] ++ steps 0 6 ++
    [.env 3000000000, .start (.tryAcquire (lockBy "a"))] ++ steps 1 8 ++ [.act (.main 1) m]

theorem failures_reported_takeOver : ∃ w ∈ World.run (leaseSystem plainJson)
      (LeaseWorld.start emptyServer) (takeOver .ok), ∃ th ∈ w.threads[1]?,
    FailuresReported plainJson 1 th "lock.x" (ownEvents (.main 1) w.log) := by
  have hend : ∃ w ∈ World.run (leaseSystem plainJson) (LeaseWorld.start emptyServer) (takeOver .ok),
      (∃ th ∈ w.threads[1]?, th.op = .tryAcquire (lockBy "a")) ∧
        ∀ e ∈ ownEvents (.main 1) w.log, ¬ Failed e := by decide +kernel
  obtain ⟨w, hrun, ⟨th, hth, hop⟩, hclean⟩ := hend
  exact ⟨w, hrun, th, hth, (failures_reported plainJson emptyServer (takeOver .ok) w hrun 1 th hth
    (lockBy "a") hop).2 fun e he _ => hclean e he⟩

/-- A server that does not answer the take-over reads as another node's lease. -/
theorem failures_reported_unanswered : ∃ w ∈ World.run (leaseSystem plainJson)
      (LeaseWorld.start emptyServer) (takeOver (.fail "no responders")), ∃ th ∈ w.threads[1]?,
    th.op = .tryAcquire (lockBy "a") ∧
      ¬ FailuresReported plainJson 1 th "lock.x" (ownEvents (.main 1) w.log) := by
  have hend : ∃ w ∈ World.run (leaseSystem plainJson) (LeaseWorld.start emptyServer)
        (takeOver (.fail "no responders")),
      (∃ th ∈ w.threads[1]?, th.op = .tryAcquire (lockBy "a") ∧
        th.main.result? = some (.ok (.lease none))) ∧
      ∃ e ∈ w.log[0]?, e.who = .main 1 ∧ Failed e := by decide +kernel
  obtain ⟨w, hrun, ⟨th, hth, hop, hresult⟩, e, he, hwho, hfailed⟩ := hend
  refine ⟨w, hrun, th, hth, hop, ?_⟩
  rintro ⟨hfailures, -⟩
  obtain ⟨err, herr⟩ := hfailures ⟨e, mem_ownEvents.2 ⟨List.mem_of_getElem? he, hwho⟩, hfailed⟩
  rw [hresult] at herr
  cases herr

end ClusterNats.Lease
