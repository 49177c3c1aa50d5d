import ClusterNats.Lease.Fencing

/-!
# Renewals of one lease

A lease is renewed by a task of its own and by the host.  The two race on the
revision of the record, and the loser reads the slot again to tell a race with
itself from a lost lease.  What a renewal answers was so at some moment of the
call, whatever the other renewals and acquisitions did meanwhile.

* `Moment` — a state of the buckets during a call.
* `Renews`, `Expired`, `Ends` — the renewals, their bad news, and what ends a
  lease.
* `Fleet.holds_since` — a lease that nobody ends is held by every later state.
* `renewals_exact` — **the answers of renewals are exact**.
-/

namespace ClusterNats.Lease

open Conc

/-! ## Calls and events -/

/-- A state of the buckets during the call of a thread: before or after one of
its requests. -/
def Moment (w : LeaseWorld) (t : Nat) (s : Server) : Prop :=
  ∃ e ∈ ownEvents (.main t) w.log, s = e.pre ∨ serve .ok e.pre () e.req = some (e.resp, s, ())

/-- The call renews the lease. -/
inductive Renews : Op → LeaseHandle → Prop
  | renew (h : LeaseHandle) : Renews (.renew h) h
  | renewalLoop (h : LeaseHandle) (fuel : Nat) : Renews (.renewalLoop h fuel) h

/-- The call took its lease for lost: a renewal answered `LeaseExpired`, or a
renewal task ended. -/
def Expired (th : LeaseThread) : Prop :=
  th.main.result? = some (.error .leaseExpired) ∨ th.main.result? = some (.ok .done)

/-- A release deleted the record of a key. -/
def DeletesAt (key : String) (e : LeaseEvent) : Prop :=
  ∃ revision, e.req = .deleteExpectRevision .leases key revision ∧
    revisionOf (recordIn e.pre .leases key) = revision

/-- An acquisition replaced the record of a key, or a release deleted it. -/
def Ends (json : LeaseJson) (w : LeaseWorld) (key : String) (e : LeaseEvent) : Prop :=
  (∃ record, AcquiresAt json w key record e) ∨ DeletesAt key e

/-! ## The check of the renewals -/

/-- What a request of a renewal owes; the other calls owe nothing here. -/
def RenewalGuard (json : LeaseJson) (op : Op) (who : Actor) (tr : List LeaseEvent) (r : Req) : Prop :=
  ∀ h, Renews op h → KeepGuard json h who tr r

/-- What a finished renewal tells. -/
def RenewalTells (json : LeaseJson) (op : Op) (who : Actor) (tr : List LeaseEvent)
    (x : Except ClusterError Reply) : Prop :=
  ∀ h, Renews op h →
    (x = .error .leaseExpired ∨ x = .ok .done → SeenLost json h who tr) ∧
    ∀ e, x = .ok (.renewed e) → ∃ record : LeaseRecord, record.expiresAt = e ∧ h.owns record = true ∧
      (JustStored json h.key record tr ∨
        ∃ s, readEvent who .leases h.key s ∈ tr ∧ s.holding json h.key = some record)

/-- A call that renews nothing owes nothing. -/
theorem renewal_free {json : LeaseJson} {op : Op} (hop : ∀ h, ¬ Renews op h) {who : Actor}
    {p : LeaseProg Reply} {tr : List LeaseEvent} :
    p.Abides who Known (RenewalGuard json op who) (RenewalTells json op who) tr :=
  Prog.abides_of_free (fun _ _ h hh => absurd hh (hop h)) fun _ _ h hh => absurd hh (hop h)

/-- **Every renewal keeps its guard, and its result tells what it says.** -/
theorem program_keeps {json : LeaseJson} {who : Actor} {tr : List LeaseEvent} (op : Op) :
    (op.program json).Abides who Known (RenewalGuard json op who) (RenewalTells json op who) tr := by
  cases op with
  | acquire p fuel => exact renewal_free (by rintro h ⟨⟩)
  | tryAcquire p => exact renewal_free (by rintro h ⟨⟩)
  | release h => exact renewal_free (by rintro h ⟨⟩)
  | renew h =>
    refine ((renewInner_keeps (h := h)).guard fun tr r hr => ?_).map fun tr x hx => ?_
    · rintro h' ⟨⟩
      exact hr
    · rintro h' ⟨⟩
      cases x with
      | error e =>
        refine ⟨fun hlost => ?_, fun e heq => (nomatch heq)⟩
        rcases hlost with hlost | hlost
        · cases hlost
          exact hx.2 rfl
        · cases hlost
      | ok e =>
        refine ⟨fun hlost => ?_, ?_⟩
        · rcases hlost with hlost | hlost <;> cases hlost
        · rintro e' ⟨⟩
          exact (hx.1 _ rfl).2
  | renewalLoop h fuel =>
    refine ((renewalLoop_keeps (h := h) fuel).guard fun tr r hr => ?_).map fun tr x hx => ?_
    · rintro h' ⟨⟩
      exact hr
    · rintro h' ⟨⟩
      obtain ⟨rfl, hlost⟩ := hx
      exact ⟨fun _ => hlost, fun e heq => (nomatch heq)⟩

/-! ## Every run -/

/-- What a run of lease calls gives about its renewals. -/
abbrev RenewalsKept (json : LeaseJson) (w : LeaseWorld) : Prop :=
  World.Abiding Known (RenewalGuard json) (RenewalTells json) w

/-- **Every run of lease calls keeps the guard of the renewals.** -/
theorem run_renewals {json : LeaseJson} {s₀ : Server} {cs : List LeaseChoice} {w : LeaseWorld}
    (hcs : ∀ c ∈ cs, World.ModeOk (· = .ok) c)
    (hrun : World.run (leaseSystem json) (LeaseWorld.start s₀) cs = some w) :
    RenewalsKept json w := by
  refine World.run_abiding (· = .ok) ?_ ?_ hcs hrun
  · rintro e ⟨m, l, s', l', -, h⟩
    exact ⟨m, s', h⟩
  · intro ths op p hp t
    rw [call_program hp]
    exact program_keeps op

section Runs

variable {json : LeaseJson} {s₀ : Server} {w : LeaseWorld} (hw : Fleet json s₀ w)
  (hkept : RenewalsKept json w)
include hw hkept

/-- **What a renewal stores.**  It replaces a record of its lease that the slot
holds, and changes nothing but the expiry. -/
theorem renewal_stores {e : LeaseEvent} {l : List LeaseEvent} (hsuf : (e :: l) <:+ w.log) {t : Nat}
    {th : LeaseThread} (hwho : e.who = .main t) (hth : w.threads[t]? = some th) {h : LeaseHandle}
    (hrenews : Renews th.op h) {key : String} {value : Bytes}
    (hby : storedBy e = some (.leases, key, value)) :
    key = h.key ∧ ∃ record expiresAt expiresAtUnix, e.pre.holding json key = some record ∧
      h.owns record = true ∧ value = json.toVec { record with expiresAt, expiresAtUnix } := by
  obtain ⟨s', hserve⟩ := hw.served (hsuf.subset (List.mem_cons_self ..))
  obtain ⟨revision, hreq, hrev, -⟩ := serve_stored hserve hby
  have hguard := hkept.guarded t th hth e l hsuf hwho h hrenews
  rw [hreq] at hguard
  obtain ⟨rfl, s, record, expiresAt, expiresAtUnix, hread, hheld, howns, hrevision, hvalue⟩ := hguard
  have hlater : s.Later e.pre := history_since (leaseSystem_serves json) (hw.before hsuf)
    (mem_ownEvents.1 hread).1
  have hsame := last_eq_of_revision hlater rfl (hrev.trans hrevision)
  refine ⟨rfl, record, expiresAt, expiresAtUnix, ?_, howns, hvalue⟩
  rwa [Server.holding, recordIn, hsame]

end Runs

/-! ## A lease that nobody ends -/

/-- A slot holds what was stored in it. -/
theorem holding_stored (json : LeaseJson) (s : Server) (key : String) (record : LeaseRecord) :
    (s.stored .leases key [] (json.toVec record)).holding json key = some record := by
  refine holding_eq_some.2 ⟨_, by rw [recordIn, last_stored_self]; rfl, rfl, ?_⟩
  exact json.fromSlice_toVec record

/-- A slot that was deleted holds nothing. -/
theorem holding_deleted (json : LeaseJson) (s : Server) (key : String) :
    (s.stored .leases key deleteMarker []).holding json key = none := by
  rw [Server.holding, recordIn, last_stored_self]
  rfl

theorem Server.Holds.of_last {json : LeaseJson} {s s' : Server} {h : LeaseHandle}
    (hholds : s.Holds json h) (hlast : s'.last .leases h.key = s.last .leases h.key) :
    s'.Holds json h := by
  obtain ⟨record, hheld, howns⟩ := hholds
  refine ⟨record, ?_, howns⟩
  rwa [Server.holding, recordIn, hlast]

section Runs

variable {json : LeaseJson} {s₀ : Server} {w : LeaseWorld} (hw : Fleet json s₀ w)
  (hkept : RenewalsKept json w)
include hw hkept

/-- **What one event makes of a slot.**  Nothing, the record of an acquisition,
the record it held with another expiry, or a delete marker. -/
theorem slot_cases {e : LeaseEvent} {l : List LeaseEvent} (hsuf : (e :: l) <:+ w.log) {s' : Server}
    (hserve : serve .ok e.pre () e.req = some (e.resp, s', ())) (key : String) :
    s'.last .leases key = e.pre.last .leases key ∨
    (∃ record, AcquiresAt json w key record e ∧
      s' = e.pre.stored .leases key [] (json.toVec record)) ∨
    (∃ old expiresAt expiresAtUnix, e.pre.holding json key = some old ∧
      s' = e.pre.stored .leases key [] (json.toVec { old with expiresAt, expiresAtUnix })) ∨
    DeletesAt key e ∧ s' = e.pre.stored .leases key deleteMarker [] := by
  rcases serve_effect hserve with rfl | ⟨store, key', value, revision, hreq, hby, hrev, rfl⟩ |
    ⟨store, key', revision, hreq, hrev, rfl⟩
  · exact .inl rfl
  · by_cases hslot : store = .leases ∧ key' = key
    · obtain ⟨rfl, rfl⟩ := hslot
      right
      obtain ⟨t, th, hwho, hth, hguard⟩ := hw.guard hsuf
      have hrenewal : ∀ h, Renews th.op h → ∃ old expiresAt expiresAtUnix,
          e.pre.holding json key' = some old ∧ e.pre.stored .leases key' [] value =
            e.pre.stored .leases key' [] (json.toVec { old with expiresAt, expiresAtUnix }) := by
        intro h hrenews
        obtain ⟨-, record, expiresAt, expiresAtUnix, hheld, -, rfl⟩ :=
          renewal_stores hw hkept hsuf hwho hth hrenews hby
        exact ⟨record, expiresAt, expiresAtUnix, hheld, rfl⟩
      have hacquire : ∀ p, th.op.params = some p → AcquireGuard json p (.main t)
          (ownEvents (.main t) l) (.update .leases key' value revision) →
            ∃ record, AcquiresAt json w key' record e ∧
              e.pre.stored .leases key' [] value =
                e.pre.stored .leases key' [] (json.toVec record) := by
        rintro p hp ⟨-, record, rfl, -⟩
        exact ⟨record, ⟨hby, t, th, hwho, hth, by rw [hp]; rfl⟩, rfl⟩
      rw [hreq] at hguard
      cases hop : th.op with
      | acquire p fuel => rw [hop] at hguard; exact .inl (hacquire p (by rw [hop]; rfl) hguard)
      | tryAcquire p => rw [hop] at hguard; exact .inl (hacquire p (by rw [hop]; rfl) hguard)
      | renew h => exact .inr (.inl (hrenewal h (hop ▸ .renew h)))
      | renewalLoop h fuel => exact .inr (.inl (hrenewal h (hop ▸ .renewalLoop h fuel)))
      | release h => rw [hop] at hguard; exact absurd hguard id
    · refine .inl (last_stored_ne ?_)
      by_contra hsame
      push Not at hsame
      exact hslot ⟨hsame.1.symm, hsame.2.symm⟩
  · by_cases hslot : store = .leases ∧ key' = key
    · obtain ⟨rfl, rfl⟩ := hslot
      exact .inr (.inr (.inr ⟨⟨revision, hreq, hrev⟩, rfl⟩))
    · refine .inl (last_stored_ne ?_)
      by_contra hsame
      push Not at hsame
      exact hslot ⟨hsame.1.symm, hsame.2.symm⟩

/-- One event ends a lease, or leaves it held. -/
theorem event_holds {e : LeaseEvent} {l : List LeaseEvent} (hsuf : (e :: l) <:+ w.log)
    {h : LeaseHandle} (hholds : e.pre.Holds json h) (hends : ¬ Ends json w h.key e) {s' : Server}
    (hserve : serve .ok e.pre () e.req = some (e.resp, s', ())) : s'.Holds json h := by
  rcases slot_cases hw hkept hsuf hserve h.key with hlast | ⟨record, hacquires, -⟩ |
    ⟨old, expiresAt, expiresAtUnix, hheld, rfl⟩ | ⟨hdeletes, -⟩
  · exact hholds.of_last hlast
  · exact absurd (.inl ⟨record, hacquires⟩) hends
  · obtain ⟨record, hheld', howns⟩ := hholds
    cases Option.some.inj (hheld.symm.trans hheld')
    exact ⟨_, holding_stored json e.pre h.key _, howns⟩
  · exact absurd (.inr hdeletes) hends

/-- **A lease that nobody ends stays held.** -/
theorem holds_since {s s' : Server} {new l : List LeaseEvent} (hsuf : (new ++ l) <:+ w.log)
    (hnew : History (leaseSystem json) (· = .ok) s new s') {h : LeaseHandle}
    (hholds : s.Holds json h) (hends : ∀ e ∈ new, ¬ Ends json w h.key e) : s'.Holds json h := by
  refine hnew.induction (P := fun _ s' => s'.Holds json h) hholds ?_ ?_
  · intro _ t s₁ s₂ hholds htick
    exact hholds.of_last (tick_last htick _ _)
  · rintro l' e m c s'' c' hl' hholds rfl hserve
    have hevent : (e :: (l' ++ l)) <:+ w.log := (List.suffix_append_self_iff.2 hl').trans hsuf
    exact event_holds hw hkept hevent hholds (hends e (hl'.subset List.mem_cons_self)) hserve

end Runs

/-! ## The answers -/

section Answers

variable {json : LeaseJson} {s₀ : Server} {w : LeaseWorld} {t : Nat} {th : LeaseThread}
  {h : LeaseHandle}

/-- A renewal that took its lease for lost saw the slot without it. -/
theorem seenLost_of_expired (hkept : RenewalsKept json w) (hth : w.threads[t]? = some th)
    (hrenews : Renews th.op h) (hexpired : Expired th) :
    SeenLost json h (.main t) (ownEvents (.main t) w.log) := by
  rcases hexpired with hresult | hresult
  · exact (hkept.result hth hresult h hrenews).1 (.inl rfl)
  · exact (hkept.result hth hresult h hrenews).1 (.inr rfl)

/-- What a renewal answers is the expiry of a record that the slot held. -/
theorem held_of_renewed (hw : Fleet json s₀ w) (hkept : RenewalsKept json w)
    (hth : w.threads[t]? = some th) (hrenews : Renews th.op h) {e : String}
    (hvalue : th.main.value? = some (.renewed e)) :
    ∃ s record, Moment w t s ∧ s.holding json h.key = some record ∧ h.owns record = true ∧
      record.expiresAt = e := by
  obtain ⟨-, htells⟩ := hkept.result hth (Prog.result?_of_value? hvalue) h hrenews
  obtain ⟨record, hexpiry, howns, hstored | ⟨s, hread, hheld⟩⟩ := htells e rfl
  · obtain ⟨d, before, hown, hby⟩ := hstored
    have hmem : d ∈ ownEvents (.main t) w.log := by
      rw [hown]
      exact List.mem_cons_self
    obtain ⟨s', hserve⟩ := hw.served (mem_ownEvents.1 hmem).1
    obtain ⟨revision, -, -, rfl⟩ := serve_stored hserve hby
    exact ⟨_, record, ⟨d, hmem, .inr hserve⟩, holding_stored json d.pre h.key record, howns, hexpiry⟩
  · exact ⟨s, record, ⟨_, hread, .inl rfl⟩, hheld, howns, hexpiry⟩

end Answers

/-- **The answers of renewals are exact.**  In every run of lease calls by any
nodes, the backend working: what a renewal answers is the expiry of a record of
its lease that the slot held at a moment of the call; a renewal takes its lease
for lost only if at a moment of the call the slot held no record of it, so not
while the slot holds one that nobody replaces or deletes; and what a renewal
stores differs from the record it replaces in the expiry alone. -/
theorem renewals_exact {json : LeaseJson} {s₀ : Server} {cs₁ cs₂ : List LeaseChoice}
    {w₁ w : LeaseWorld} (hok₁ : ∀ c ∈ cs₁, World.ModeOk (· = .ok) c)
    (hok₂ : ∀ c ∈ cs₂, World.ModeOk (· = .ok) c)
    (h₁ : World.run (leaseSystem json) (LeaseWorld.start s₀) cs₁ = some w₁)
    (h₂ : World.run (leaseSystem json) w₁ cs₂ = some w) (h : LeaseHandle) :
    (∀ t th e, w.threads[t]? = some th → Renews th.op h → th.main.value? = some (.renewed e) →
      ∃ s record, Moment w t s ∧ s.holding json h.key = some record ∧ h.owns record = true ∧
        record.expiresAt = e) ∧
    (∀ t th, w.threads[t]? = some th → Renews th.op h → Expired th →
      ∃ s, Moment w t s ∧ ¬ s.Holds json h) ∧
    (w₁.srv.Holds json h → (∀ e l, (e :: l) <:+ w.log → w₁.log <:+ l → ¬ Ends json w h.key e) →
      ∀ t th, w.threads[t]? = some th → Renews th.op h → (∀ e ∈ w₁.log, e.who ≠ .main t) →
        ¬ Expired th) ∧
    (∀ e l t th key value, (e :: l) <:+ w.log → e.who = .main t → w.threads[t]? = some th →
      Renews th.op h → storedBy e = some (.leases, key, value) →
      ∃ old new, e.pre.holding json key = some old ∧ value = json.toVec new ∧
        new.nodeId = old.nodeId ∧ new.fencingToken = old.fencingToken ∧
        new.acquiredAt = old.acquiredAt) := by
  have hrun : World.run (leaseSystem json) (LeaseWorld.start s₀) (cs₁ ++ cs₂) = some w := by
    rw [World.run_append, h₁]
    exact h₂
  have hok : ∀ c ∈ cs₁ ++ cs₂, World.ModeOk (· = .ok) c := by
    intro c hc
    rcases List.mem_append.1 hc with hc | hc
    · exact hok₁ c hc
    · exact hok₂ c hc
  have hw := run_fleet hok hrun
  have hkept := run_renewals hok hrun
  refine ⟨fun t th e hth hrenews => held_of_renewed hw hkept hth hrenews, ?_, ?_, ?_⟩
  · intro t th hth hrenews hexpired
    obtain ⟨s, hread, hlost⟩ := seenLost_of_expired hkept hth hrenews hexpired
    exact ⟨s, ⟨_, hread, .inl rfl⟩, hlost⟩
  · -- every state since the moment of `w₁` holds a record of the lease
    intro hholds hends t th hth hrenews hnew hexpired
    obtain ⟨s, hread, hlost⟩ := seenLost_of_expired hkept hth hrenews hexpired
    obtain ⟨new, hlog, hsince⟩ := World.run_since hok₂ h₂
    obtain ⟨hmem, hwho⟩ := mem_ownEvents.1 hread
    rw [hlog] at hmem
    rcases List.mem_append.1 hmem with hmem | hmem
    · obtain ⟨post, pre, rfl⟩ := List.append_of_mem hmem
      obtain ⟨hbefore, -⟩ := hsince.split
      have hsuf : (pre ++ w₁.log) <:+ w.log := by
        rw [hlog, List.append_assoc, List.cons_append]
        exact (List.suffix_cons _ _).trans (List.suffix_append _ _)
      refine hlost (holds_since hw hkept hsuf hbefore hholds fun e he => ?_)
      obtain ⟨later, earlier, rfl⟩ := List.append_of_mem he
      refine hends e (earlier ++ w₁.log) ?_ (List.suffix_append _ _)
      rw [List.append_assoc] at hsuf
      exact (List.suffix_append later _).trans hsuf
    · exact hnew _ hmem hwho
  · intro e l t th key value hsuf hwho hth hrenews hby
    obtain ⟨-, record, expiresAt, expiresAtUnix, hheld, -, hvalue⟩ :=
      renewal_stores hw hkept hsuf hwho hth hrenews hby
    exact ⟨record, _, hheld, hvalue, rfl, rfl, rfl⟩

/-- The lease of node `a` on `lock.x`. -/
def leaseOfA : LeaseHandle := ⟨"lock.x", "a", 1, fromMillis 1000, 50⟩

/-- Two renewals read one record; the second one's clock is older, and it loses
the race. -/
def renewalRace : List LeaseChoice :=
  [.start (.renew leaseOfA), .start (.renew leaseOfA)] ++ steps 1 1 ++ steps 2 1 ++
    [.env 2000000000] ++ steps 2 2 ++ [.env 3000000000] ++ steps 1 3 ++ steps 2 2

/-- Is the event one of a renewal of the race? -/
def inRace (e : LeaseEvent) : Bool :=
  (e.who = .main 1 || e.who = .main 2) && !e.req matches .deleteExpectRevision ..

/-- The loser of the race answers the winner's expiry; neither takes the lease for
lost. -/
theorem renewals_exact_race : ∃ w₁ ∈ World.run (leaseSystem plainJson)
      (LeaseWorld.start emptyServer) ([.start (.tryAcquire (lockBy "a"))] ++ steps 0 6),
    ∃ w ∈ World.run (leaseSystem plainJson) w₁ renewalRace,
      (∀ (t : Nat) th, w.threads[t]? = some th → Renews th.op leaseOfA → ¬ Expired th) ∧
      w.threads.map (·.main.value?) = [some (.lease (some leaseOfA)),
        some (.renewed "1970-01-01T00:00:04Z"), some (.renewed "1970-01-01T00:00:04Z")] := by
  have hruns : ∃ w₁ ∈ World.run (leaseSystem plainJson) (LeaseWorld.start emptyServer)
        ([.start (.tryAcquire (lockBy "a"))] ++ steps 0 6),
      ∃ w ∈ World.run (leaseSystem plainJson) w₁ renewalRace,
        (∀ e ∈ w₁.log, e.who = .main 0) ∧
        (w₁.srv.holding plainJson "lock.x").any (leaseOfA.owns ·) ∧
        (∀ e ∈ w.log.take (w.log.length - w₁.log.length), inRace e) ∧
        w.threads.map (·.op) = [.tryAcquire (lockBy "a"), .renew leaseOfA, .renew leaseOfA] ∧
        w.threads.map (·.main.value?) = [some (.lease (some leaseOfA)),
          some (.renewed "1970-01-01T00:00:04Z"), some (.renewed "1970-01-01T00:00:04Z")] := by
    decide +kernel
  obtain ⟨w₁, h₁, w, h₂, hfirst, hheld, hrace, hops, hvalues⟩ := hruns
  have hop : ∀ (t : Nat) th, w.threads[t]? = some th →
      [.tryAcquire (lockBy "a"), .renew leaseOfA, .renew leaseOfA][t]? = some th.op := by
    intro t th hth
    rw [← hops, List.getElem?_map, hth]
    rfl
  have hholds : w₁.srv.Holds plainJson leaseOfA := by
    obtain ⟨record, hrecord, howns⟩ := (Option.any_eq_true _ _).1 hheld
    exact ⟨record, hrecord, howns⟩
  obtain ⟨-, -, hkept, -⟩ := renewals_exact (by simp [steps, World.ModeOk])
    (by simp [renewalRace, steps, World.ModeOk]) h₁ h₂ leaseOfA
  refine ⟨w₁, h₁, w, h₂, fun t th hth hrenews => ?_, hvalues⟩
  refine hkept hholds (fun e l hsuf hold hend => ?_) t th hth hrenews fun e he hwho => ?_
  · -- the race has no acquisition and no release
    have hmem : e ∈ w.log.take (w.log.length - w₁.log.length) := by
      obtain ⟨post, hpost⟩ := hsuf
      have hlen := hold.length_le
      refine List.mem_take_iff_getElem.2 ⟨post.length, ?_, ?_⟩ <;> simp only [← hpost]
      · simp only [List.length_append, List.length_cons]
        omega
      · simp
    obtain ⟨hwho, hreq⟩ := Bool.and_eq_true_iff.1 (hrace e hmem)
    rcases hend with ⟨record, -, t', th', hwho', hth', hparams⟩ | ⟨revision, hdelete, -⟩
    · have hop' := hop t' th' hth'
      rw [hwho'] at hwho
      simp only [Bool.or_eq_true, decide_eq_true_eq, Actor.main.injEq] at hwho
      have hrenew : th'.op = .renew leaseOfA := by
        rcases hwho with rfl | rfl <;> exact (Option.some.inj hop').symm
      rw [hrenew] at hparams
      cases hparams
    · rw [hdelete] at hreq
      cases hreq
  · obtain rfl : 0 = t := Actor.main.inj ((hfirst e he).symm.trans hwho)
    rw [← Option.some.inj (hop 0 th hth)] at hrenews
    cases hrenews

end ClusterNats.Lease
