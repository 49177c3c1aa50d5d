import ClusterNats.Lease.Ownership

/-!
# What a release leaves

A release reads the slot and deletes it at the revision it read.  A delete that
finds another revision leaves the slot as it is, and the release takes the lease
for gone.  It is, unless one of the lease's own renewals stored its record in
between.

* `DeletesUnmoved` — the delete finds what the release read, or no record of the
  lease.
* `deletes_iff` — when the slot is without the lease after a delete.
* `release_final` — **what holds once a release returned**, and when.
-/

namespace ClusterNats.Lease

open Conc

/-- A delete of the slot finds the revision the release read, or no record of the
lease. -/
def DeletesUnmoved (json : LeaseJson) (h : LeaseHandle) (e : LeaseEvent) : Prop :=
  ∀ revision, e.req = .deleteExpectRevision .leases h.key revision → e.pre.Holds json h →
    revisionOf (recordIn e.pre .leases h.key) = revision

/-- **A delete leaves the slot without the lease exactly when** it finds what the
release read, or no record of the lease. -/
theorem deletes_iff {json : LeaseJson} {h : LeaseHandle} (hkey : isValidKey (bytes h.key) = true)
    {e : LeaseEvent} {s' : Server} {revision : Nat}
    (hreq : e.req = .deleteExpectRevision .leases h.key revision)
    (hserve : serve .ok e.pre () e.req = some (e.resp, s', ())) :
    ¬ s'.Holds json h ↔ DeletesUnmoved json h e := by
  obtain ⟨who, r, x, s⟩ := e
  dsimp only at hreq hserve
  subst hreq
  have hstate : s' = (s.publish .leases h.key deleteMarker [] revision).2 :=
    (Prod.mk.inj (Prod.mk.inj (Option.some.inj hserve)).2).1.symm
  rcases publish_cases s .leases h.key deleteMarker [] revision with ⟨-, hrev, hpublish⟩ |
    ⟨-, hmoved, hpublish⟩ | ⟨hnot, -⟩
  · have hgone : ¬ s'.Holds json h := by
      rw [hstate, hpublish]
      rintro ⟨record, hheld, -⟩
      rw [holding_deleted] at hheld
      cases hheld
    refine iff_of_true hgone fun revision' hreq' _ => ?_
    cases hreq'
    exact hrev
  · rw [hpublish] at hstate
    subst hstate
    refine ⟨fun hlost revision' _ hholds => absurd hholds hlost, fun hunmoved hholds => ?_⟩
    exact hmoved (hunmoved revision rfl hholds)
  · rw [hkey] at hnot
    cases hnot

section Run

variable {json : LeaseJson} {s₀ : Server} {cs : List LeaseChoice} {w : LeaseWorld}
  (hcs : ∀ c ∈ cs, World.ModeOk (· = .ok) c)
  (hrun : World.run (leaseSystem json) (LeaseWorld.start s₀) cs = some w)
include hcs hrun

/-- An event of a call on a lease comes after the acquisition of the lease. -/
theorem acquired_at {t : Nat} {th : LeaseThread} (hth : w.threads[t]? = some th) {h : LeaseHandle}
    (hhandle : th.op.handle = some h) {e : LeaseEvent} {l : List LeaseEvent}
    (hsuf : (e :: l) <:+ w.log) (hwho : e.who = .main t) : AcquiredIn json w h l := by
  obtain ⟨l₀, hl₀, hother, hacq⟩ := acquired_before hcs hrun hth hhandle
  refine hacq.mono ?_
  rcases Nat.lt_or_ge l₀.length (e :: l).length with hlt | hge
  · exact suffix_of_length_lt hsuf hl₀ hlt
  · have hsub := List.suffix_of_suffix_length_le hsuf hl₀ hge
    exact absurd hwho (hother e (hsub.subset List.mem_cons_self))

/-- A bucket takes the key of a lease that a call is about. -/
theorem validKey_of_handle {t : Nat} {th : LeaseThread} (hth : w.threads[t]? = some th)
    {h : LeaseHandle} (hhandle : th.op.handle = some h) : isValidKey (bytes h.key) = true := by
  obtain ⟨l, hl, -, hacq⟩ := acquired_before hcs hrun hth hhandle
  exact hacq.validKey (run_fleet hcs hrun) hl

/-- A release that returned has an event after which the slot is without the
lease. -/
theorem lost_of_released {t : Nat} {th : LeaseThread} (hth : w.threads[t]? = some th)
    {h : LeaseHandle} (hop : th.op = .release h) (hdone : th.main.value? = some .done)
    (hunmoved : ∀ e ∈ ownEvents (.main t) w.log, DeletesUnmoved json h e) :
    ∃ e ∈ ownEvents (.main t) w.log, ∃ s', serve .ok e.pre () e.req = some (e.resp, s', ()) ∧
      ¬ s'.Holds json h := by
  have hw := run_fleet hcs hrun
  have htells := hw.abiding.result hth (Prog.result?_of_value? hdone)
  rw [hop] at htells
  rcases htells .done rfl with ⟨s, hread, hother⟩ | ⟨revision, x, s, hdelete⟩
  · refine ⟨_, hread, s, rfl, ?_⟩
    rintro ⟨record, hheld, howns⟩
    obtain ⟨r, hr, -, hparsed⟩ := holding_eq_some.1 hheld
    rw [hother r record hr hparsed] at howns
    cases howns
  · obtain ⟨s', hserve⟩ := hw.served (mem_ownEvents.1 hdelete).1
    have hkey : isValidKey (bytes h.key) = true := by
      refine validKey_of_handle hcs hrun hth ?_
      rw [hop]
      rfl
    exact ⟨_, hdelete, s', hserve, (deletes_iff hkey rfl hserve).2 (hunmoved _ hdelete)⟩

end Run

/-- **What holds once a release returned.**  In every run of lease calls by any
nodes, the backend working, a delete of a release leaves the slot without the
lease exactly when it finds the revision the release read, or no record of the
lease.  When every delete of the release does, and the token is not the greatest
one, then once the release returned no later state of the slot holds the lease,
and no renewal stores a record of it. -/
theorem release_final {json : LeaseJson} {s₀ : Server} {cs₁ cs₂ : List LeaseChoice}
    {w₁ w : LeaseWorld} (hok₁ : ∀ c ∈ cs₁, World.ModeOk (· = .ok) c)
    (hok₂ : ∀ c ∈ cs₂, World.ModeOk (· = .ok) c)
    (h₁ : World.run (leaseSystem json) (LeaseWorld.start s₀) cs₁ = some w₁)
    (h₂ : World.run (leaseSystem json) w₁ cs₂ = some w) {t : Nat} {th : LeaseThread}
    (hth : w₁.threads[t]? = some th) {h : LeaseHandle} (hop : th.op = .release h)
    (hdone : th.main.value? = some .done) :
    (∀ e ∈ ownEvents (.main t) w₁.log, ∀ revision s',
      e.req = .deleteExpectRevision .leases h.key revision →
      serve .ok e.pre () e.req = some (e.resp, s', ()) →
      (¬ s'.Holds json h ↔ DeletesUnmoved json h e)) ∧
    (h.fencingToken.toNat < UInt64.size - 1 →
      (∀ e ∈ ownEvents (.main t) w₁.log, DeletesUnmoved json h e) →
      ¬ w₁.srv.Holds json h ∧ ¬ w.srv.Holds json h ∧
      ∀ e l record, (e :: l) <:+ w.log → w₁.log <:+ l →
        storedBy e = some (.leases, h.key, json.toVec record) → h.owns record = false) := by
  have hkey : isValidKey (bytes h.key) = true := by
    refine validKey_of_handle hok₁ h₁ hth ?_
    rw [hop]
    rfl
  refine ⟨fun e _ revision s' hreq hserve => deletes_iff hkey hreq hserve, fun hfull hunmoved => ?_⟩
  have hok : ∀ c ∈ cs₁ ++ cs₂, World.ModeOk (· = .ok) c := by
    intro c hc
    rcases List.mem_append.1 hc with hc | hc
    · exact hok₁ c hc
    · exact hok₂ c hc
  have hrun : World.run (leaseSystem json) (LeaseWorld.start s₀) (cs₁ ++ cs₂) = some w := by
    rw [World.run_append, h₁]
    exact h₂
  have hw := run_fleet hok hrun
  have hkept := run_renewals hok hrun
  obtain ⟨hgrows, hops⟩ := World.run_grows h₂
  obtain ⟨e, hown, s', hserve, hlost⟩ := lost_of_released hok₁ h₁ hth hop hdone hunmoved
  obtain ⟨hmem, hwho⟩ := mem_ownEvents.1 hown
  obtain ⟨post, pre, hsplit⟩ := List.append_of_mem hmem
  have hsuf₁ : (e :: pre) <:+ w₁.log := ⟨post, hsplit.symm⟩
  have hthread : w.ops t = some th.op := hops t _ (by rw [World.ops, hth]; rfl)
  obtain ⟨th', hth', hop'⟩ := Option.map_eq_some_iff.1 hthread
  have hacq : AcquiredIn json w h pre := by
    refine acquired_at hok hrun hth' ?_ (hsuf₁.trans hgrows) hwho
    rw [hop', hop]
    rfl
  have hgone : ∀ l s, w₁.log <:+ l → l <:+ w.log →
      History (leaseSystem json) (· = .ok) s₀ l s → ¬ s.Holds json h := by
    intro l s hold hl hs
    exact lost_after hw hkept hfull hacq hserve hlost (hsuf₁.trans hold) hl hs
  refine ⟨hgone _ _ List.suffix_rfl hgrows (run_fleet hok₁ h₁).history,
    hgone _ _ hgrows List.suffix_rfl hw.history, ?_⟩
  intro d l record hd hold hby
  by_contra howns
  obtain ⟨s'', hserve'⟩ := hw.served (hd.subset List.mem_cons_self)
  obtain ⟨revision, -, -, rfl⟩ := serve_stored hserve' hby
  -- after the store the slot would hold the lease
  have hafter : History (leaseSystem json) (· = .ok) s₀ (d :: l)
      (d.pre.stored .leases h.key [] (json.toVec record)) :=
    ⟨hw.before hd, .ok, (), _, (), rfl, hserve', .refl⟩
  exact hgone _ _ (hold.trans (List.suffix_cons d l)) hd hafter
    ⟨record, holding_stored json d.pre h.key record, by simpa using howns⟩

/-- Node `a` takes `lock.x`, and starts a release and a renewal of its lease. -/
def leaseInUse : List LeaseChoice :=
  [.start (.tryAcquire (lockBy "a"))] ++ steps 0 6 ++
    [.start (.release leaseOfA), .start (.renew leaseOfA)]

/-- The delete of an event finds the revision it expects. -/
def findsRevision (e : LeaseEvent) : Bool :=
  match e.req with
  | .deleteExpectRevision store key revision => revisionOf (recordIn e.pre store key) = revision
  | _ => true

theorem DeletesUnmoved.of_findsRevision {json : LeaseJson} {h : LeaseHandle} {e : LeaseEvent}
    (he : findsRevision e = true) : DeletesUnmoved json h e := by
  intro revision hreq _
  simpa [findsRevision, hreq] using he

/-- A renewal that read the record before the release deleted it loses. -/
theorem release_final_first : ∃ w₁ ∈ World.run (leaseSystem plainJson)
      (LeaseWorld.start emptyServer) (leaseInUse ++ steps 2 1 ++ steps 1 2),
    ∃ w ∈ World.run (leaseSystem plainJson) w₁ (steps 2 4),
      ¬ w₁.srv.Holds plainJson leaseOfA ∧ ¬ w.srv.Holds plainJson leaseOfA := by
  have hruns : ∃ w₁ ∈ World.run (leaseSystem plainJson) (LeaseWorld.start emptyServer)
        (leaseInUse ++ steps 2 1 ++ steps 1 2),
      ∃ w ∈ World.run (leaseSystem plainJson) w₁ (steps 2 4),
        ∃ th ∈ w₁.threads[1]?, th.op = .release leaseOfA ∧ th.main.value? = some .done ∧
          ∀ e ∈ ownEvents (.main 1) w₁.log, findsRevision e := by
    decide +kernel
  obtain ⟨w₁, h₁, w, h₂, th, hth, hop, hdone, hfinds⟩ := hruns
  obtain ⟨-, hfinal⟩ := release_final (by simp [leaseInUse, steps, World.ModeOk])
    (by simp [steps, World.ModeOk]) h₁ h₂ hth hop hdone
  obtain ⟨hgone₁, hgone, -⟩ := hfinal (by decide) fun e he => .of_findsRevision (hfinds e he)
  exact ⟨w₁, h₁, w, h₂, hgone₁, hgone⟩

/-- A renewal that stores its record between the release's read and its delete
keeps the lease, and the release returned. -/
theorem release_final_renewed : ∃ w ∈ World.run (leaseSystem plainJson)
      (LeaseWorld.start emptyServer) (leaseInUse ++ steps 1 1 ++ steps 2 4 ++ steps 1 1),
    (∃ th ∈ w.threads[1]?, th.op = .release leaseOfA ∧ th.main.value? = some .done) ∧
      w.srv.Holds plainJson leaseOfA := by
  have hrun : ∃ w ∈ World.run (leaseSystem plainJson) (LeaseWorld.start emptyServer)
        (leaseInUse ++ steps 1 1 ++ steps 2 4 ++ steps 1 1),
      (∃ th ∈ w.threads[1]?, th.op = .release leaseOfA ∧ th.main.value? = some .done) ∧
        (w.srv.holding plainJson "lock.x").any (leaseOfA.owns ·) = true := by
    decide +kernel
  obtain ⟨w, hrun, hdone, hany⟩ := hrun
  obtain ⟨record, hheld, howns⟩ := (Option.any_eq_true _ _).1 hany
  exact ⟨w, hrun, hdone, record, hheld, howns⟩

end ClusterNats.Lease
