import ClusterNats.Lease.Names
import ClusterNats.Lease.Release

/-!
# Mutual exclusion

An acquisition writes over a slot only at the revision at which it saw it free,
so what it replaces is free when the server stores it.  A lease whose record was
replaced is lost for good.  An acquisition that nobody interrupts takes every
free slot.

* `takeable_of_acquires` — what an acquisition replaces.
* `Server.Shows`, `unseen_since` — a lease that the slot does not show.
* `exec_attempt_takes` — an acquisition that runs alone.
* `exclusion` — **the slot of a lease has one holder**.
-/

namespace ClusterNats.Lease

open Conc

/-! ## What an acquisition replaces -/

section Replaced

variable {json : LeaseJson} {s₀ : Server} {w : LeaseWorld}

/-- **An acquisition replaces nothing but a free slot.** -/
theorem takeable_of_acquires (hw : Fleet json s₀ w) {e : LeaseEvent} {l : List LeaseEvent}
    (hsuf : (e :: l) <:+ w.log) {key : String} {record : LeaseRecord}
    (he : AcquiresAt json w key record e) : Takeable json e.pre key := by
  obtain ⟨-, -, -, revision, -, -, -, -, -, -, hfree, hrev⟩ := hw.acquires hsuf he
  have hlater : ∀ {d}, d ∈ ownEvents e.who l → d.pre.Later e.pre := fun hd =>
    history_since (leaseSystem_serves json) (hw.before hsuf) (mem_ownEvents.1 hd).1
  intro r hr hput
  cases hfree with
  | empty =>
    rw [revisionOf_eq_zero] at hrev
    rw [recordIn, hrev] at hr
    cases hr
  | @marker _ s r' hread hfound hmarker =>
    have hsame : recordIn e.pre .leases key = some r' := by
      rw [recordIn, last_eq_of_revision (hlater hread) hfound hrev]
      exact hfound
    cases Option.some.inj (hr.symm.trans hsame)
    exact absurd hput hmarker
  | @lapsed _ s s' r' incumbent hread hfound hparsed hdated hclock hlapsed =>
    have hsame : recordIn e.pre .leases key = some r' := by
      rw [recordIn, last_eq_of_revision (hlater hread) hfound hrev]
      exact hfound
    cases Option.some.inj (hr.symm.trans hsame)
    exact ⟨incumbent, hparsed, hdated, UInt64.le_trans hlapsed (hlater hclock).clock⟩

end Replaced

/-! ## A lease that the slot does not show -/

/-- The last record of the slot reads as one of the lease, marker or not. -/
def Server.Shows (json : LeaseJson) (s : Server) (h : LeaseHandle) : Prop :=
  ∃ r record, recordIn s .leases h.key = some r ∧ json.fromSlice r.payload = .ok record ∧
    h.owns record = true

theorem Server.Holds.shows {json : LeaseJson} {s : Server} {h : LeaseHandle} (hh : s.Holds json h) :
    s.Shows json h := by
  obtain ⟨record, hheld, howns⟩ := hh
  obtain ⟨r, hr, -, hparsed⟩ := holding_eq_some.1 hheld
  exact ⟨r, record, hr, hparsed, howns⟩

theorem shows_stored {json : LeaseJson} {s : Server} {h : LeaseHandle} {record : LeaseRecord} :
    (s.stored .leases h.key [] (json.toVec record)).Shows json h ↔ h.owns record = true := by
  constructor
  · rintro ⟨r, record', hr, hparsed, howns⟩
    rw [recordIn, last_stored_self] at hr
    cases hr
    have hparsed' : json.fromSlice (json.toVec record) = .ok record' := hparsed
    rw [json.fromSlice_toVec] at hparsed'
    cases hparsed'
    exact howns
  · intro howns
    exact ⟨_, record, by rw [recordIn, last_stored_self]; rfl, json.fromSlice_toVec record, howns⟩

section Unseen

variable {json : LeaseJson} (hempty : ∀ record, json.fromSlice [] ≠ .ok record) {s₀ : Server}
  {w : LeaseWorld} (hw : Fleet json s₀ w) (hkept : RenewalsKept json w) {h : LeaseHandle}
  (hfull : h.fencingToken.toNat < UInt64.size - 1)
include hempty hw hkept hfull

/-- A lease that the slot does not show is not shown again. -/
theorem unseen_since {s s' : Server} {new l : List LeaseEvent} (hacq : AcquiredIn json w h l)
    (hsuf : (new ++ l) <:+ w.log) (hnew : History (leaseSystem json) (· = .ok) s new s')
    (hunseen : ¬ s.Shows json h) : ¬ s'.Shows json h := by
  refine slot_induction hw hkept hfull (P := fun s => ¬ s.Shows json h) ?_ ?_ ?_ hacq hsuf hnew
    hunseen
  · rintro s s' hunseen hlast ⟨r, record, hr, hrest⟩
    rw [recordIn, hlast] at hr
    exact hunseen ⟨r, record, hr, hrest⟩
  · intro s record hunseen howns hshows
    exact hunseen (howns (shows_stored.1 hshows)).shows
  · rintro s - ⟨r, record, hr, hparsed, -⟩
    rw [recordIn, last_stored_self] at hr
    cases hr
    exact hempty record hparsed

/-- **Once another acquisition stored its record, the slot does not show the
lease.** -/
theorem unseen_after {e : LeaseEvent} {pre : List LeaseEvent} (hacq : AcquiredIn json w h pre)
    {record : LeaseRecord} (he : AcquiresAt json w h.key record e) {l : List LeaseEvent}
    (hel : (e :: pre) <:+ l) (hl : l <:+ w.log) {s : Server}
    (hs : History (leaseSystem json) (· = .ok) s₀ l s) : ¬ s.Shows json h := by
  obtain ⟨s', hserve⟩ := hw.served ((hel.trans hl).subset List.mem_cons_self)
  obtain ⟨revision, -, -, rfl⟩ := serve_stored hserve he.1
  obtain ⟨post, rfl, hpost⟩ := history_after hserve hel hs
  refine unseen_since hempty hw hkept hfull (hacq.mono (List.suffix_cons e pre)) hl hpost ?_
  rw [shows_stored, other_of_acquires hw hfull hacq (hel.trans hl) he]
  simp

omit hempty hfull in
/-- A call on a lease that the slot does not show leaves the slot as it is. -/
theorem slot_kept {d : LeaseEvent} {l : List LeaseEvent} (hsuf : (d :: l) <:+ w.log)
    (hunseen : ¬ d.pre.Shows json h) {t : Nat} {th : LeaseThread} (hwho : d.who = .main t)
    (hth : w.threads[t]? = some th) (hhandle : th.op.handle = some h) {s' : Server}
    (hserve : serve .ok d.pre () d.req = some (d.resp, s', ())) :
    s'.last .leases h.key = d.pre.last .leases h.key := by
  rcases serve_effect hserve with rfl | ⟨store, key, value, revision, hreq, hby, -, rfl⟩ |
    ⟨store, key, revision, hreq, hrev, rfl⟩
  · rfl
  · cases store with
    | fencing => exact last_stored_ne (.inl (by decide))
    | leases =>
      have hrenewal : Renews th.op h → False := by
        intro hrenews
        obtain ⟨rfl, record, -, -, hheld, howns, -⟩ :=
          renewal_stores hw hkept hsuf hwho hth hrenews hby
        exact hunseen (Server.Holds.shows ⟨record, hheld, howns⟩)
      obtain ⟨t', th', hwho', hth', hguard⟩ := hw.guard hsuf
      obtain rfl : t' = t := Actor.main.inj (hwho'.symm.trans hwho)
      cases Option.some.inj (hth'.symm.trans hth)
      rw [hreq] at hguard
      cases hop : th.op with
      | renew h' =>
        rw [hop] at hhandle
        cases hhandle
        exact absurd (hop ▸ Renews.renew h) hrenewal
      | renewalLoop h' fuel =>
        rw [hop] at hhandle
        cases hhandle
        exact absurd (hop ▸ Renews.renewalLoop h fuel) hrenewal
      | release h' => rw [hop] at hguard; exact absurd hguard id
      | _ => rw [hop] at hhandle; cases hhandle
  · obtain ⟨rfl, t', th', h', record, hwho', hth', hop, rfl, s, r, hread, hfound, hrevision, hparsed,
      howns⟩ := hw.delete_leases hsuf hreq
    obtain rfl : t' = t := Actor.main.inj (hwho'.symm.trans hwho)
    cases Option.some.inj (hth'.symm.trans hth)
    rw [hop] at hhandle
    cases hhandle
    have hlater : s.Later d.pre := history_since (leaseSystem_serves json) (hw.before hsuf)
      (mem_ownEvents.1 hread).1
    have hsame := last_eq_of_revision hlater hfound (hrev.trans hrevision.symm)
    refine absurd ⟨r, record, ?_, hparsed, howns⟩ hunseen
    rw [recordIn, hsame]
    exact hfound

end Unseen

/-! ## An acquisition that runs alone -/

section Alone

variable (json : LeaseJson) {α : Type} {s : Server}

/-- The answers of the server, the backend working. -/
abbrev alone (json : LeaseJson) : Server × Unit → (r : Req) → Option (Resp r × Server × Unit) :=
  World.serveIn (leaseSystem json) .ok

theorem exec_lastRecord {store : KvStore} {key : String}
    {f : Except String (Option Record) → LeaseProg α} :
    (lastRecord store key >>= f).exec (alone json) (s, ()) =
      (f (.ok (recordIn s store key))).exec (alone json) (s, ()) := rfl

theorem exec_now {f : UInt64 → LeaseProg α} :
    (nowUnixSecs >>= f).exec (alone json) (s, ()) = (f s.now).exec (alone json) (s, ()) := rfl

/-- The text of the time `offset` after `t`. -/
def textAfter (t : Instant) (offset : Duration) : String :=
  rfc3339 (Int64.ofNat ((t + Duration.nanos offset) / 1000000000))

theorem exec_rfc3339After {offset : Duration} {f : String → LeaseProg α} :
    (rfc3339After offset >>= f).exec (alone json) (s, ()) =
      (f (textAfter s.clock offset)).exec (alone json) (s, ()) := rfl

theorem exec_expiry {ttl : Duration} {f : String × UInt64 → LeaseProg α} :
    (expiryFor ttl >>= f).exec (alone json) (s, ()) =
      (f (textAfter s.clock ttl, saturatingAdd s.now ttl.secs)).exec (alone json) (s, ()) := rfl

/-- A write at the revision of the slot is stored. -/
theorem exec_update {store : KvStore} {key : String} {value : Bytes} {revision : Nat}
    (hkey : isValidKey (bytes key) = true) (h : revisionOf (recordIn s store key) = revision) {f : Except PublishError Nat → LeaseProg α} :
    (update store key value revision >>= f).exec (alone json) (s, ()) =
      (f (.ok ((s.bucket store).lastSeq + 1))).exec (alone json)
        (s.stored store key [] value, ()) := by
  rcases publish_cases s store key [] value revision with ⟨-, -, hpublish⟩ | ⟨-, hne, -⟩ | ⟨hnot, -⟩
  · show (f (s.publish store key [] value revision).1).exec (alone json)
      ((s.publish store key [] value revision).2, ()) = _
    rw [hpublish]
  · exact absurd h hne
  · rw [hkey] at hnot
    cases hnot

/-- A write at another revision loses its compare-and-set. -/
theorem exec_update_lost {store : KvStore} {key : String} {value : Bytes} {revision : Nat}
    (hkey : isValidKey (bytes key) = true) (h : revisionOf (recordIn s store key) ≠ revision) {f : Except PublishError Nat → LeaseProg α} :
    ∃ e, lostCas e = true ∧ (update store key value revision >>= f).exec (alone json) (s, ()) =
      (f (.error e)).exec (alone json) (s, ()) := by
  rcases publish_cases s store key [] value revision with ⟨-, heq, -⟩ | ⟨-, -, hpublish⟩ | ⟨hnot, -⟩
  · exact absurd heq h
  · refine ⟨⟨some (lostCasCode s.since214), "wrong last sequence"⟩, ?_, ?_⟩
    · cases s.since214 <;> decide
    · show (f (s.publish store key [] value revision).1).exec (alone json)
        ((s.publish store key [] value revision).2, ()) = _
      rw [hpublish]
  · rw [hkey] at hnot
    cases hnot

variable {json}

/-- A mint that nobody interrupts stores its token. -/
theorem exec_bump (json : LeaseJson) (s : Server) {key : String}
    (hkey : isValidKey (bytes key) = true) : ∃ token,
    (bumpFencingToken key).exec (alone json) (s, ()) =
      some (.ok token, s.stored .fencing (fencingPath key) [] (renderU64 token), ()) := by
  refine ⟨nextToken (recordIn s .fencing (fencingPath key)), ?_⟩
  rw [bumpFencingToken, bumpRounds, exec_lastRecord]
  simp only [orUnavailable, Prog.ofExcept_ok, Prog.ret_bind]
  rw [exec_update json (isValidKey_fencingPath hkey) rfl]
  rfl

/-- A write over the record read takes the slot. -/
theorem exec_reclaim {key : String} (hkey : isValidKey (bytes key) = true) {record : LeaseRecord}
    {r : Record} (hr : recordIn s .leases key = some r) : ∃ revision,
    (reclaim json key record r.revision).exec (alone json) (s, ()) =
      some (.ok (.acquired record revision), s.stored .leases key [] (json.toVec record), ()) := by
  refine ⟨(s.bucket .leases).lastSeq + 1, ?_⟩
  rw [reclaim, exec_update json hkey (by rw [hr]; rfl)]
  rfl

/-- An attempt that nobody interrupts takes a free slot. -/
theorem exec_tryCreate {key : String} (hkey : isValidKey (bytes key) = true)
    (hfree : Takeable json s key) (record : LeaseRecord) :
    ∃ revision, (tryCreate json key record).exec (alone json) (s, ()) =
      some (.ok (.acquired record revision), s.stored .leases key [] (json.toVec record), ()) := by
  cases hr : recordIn s .leases key with
  | none =>
    refine ⟨(s.bucket .leases).lastSeq + 1, ?_⟩
    rw [tryCreate, exec_update json hkey (by rw [hr]; rfl)]
    rfl
  | some r =>
    have hne : revisionOf (recordIn s .leases key) ≠ 0 := by
      rw [hr]
      exact revision_ne_zero hr
    obtain ⟨e, hlost, hexec⟩ := exec_update_lost json hkey hne
    rw [tryCreate, hexec]
    simp only [hlost, if_true]
    rw [reclaimIfExpired, exec_lastRecord, hr]
    dsimp only
    split
    · exact exec_reclaim hkey hr
    · rename_i hput
      obtain ⟨incumbent, hparsed, hdated, hlapsed⟩ := hfree r hr (not_not.1 hput)
      rw [hparsed]
      dsimp only
      rw [leaseIsExpired, if_pos hdated, bind_assoc, exec_now]
      simp only [Prog.pure_def, Prog.ret_bind, decide_eq_true hlapsed, if_true]
      exact exec_reclaim hkey hr

/-- The record of an attempt is made before the slot is tried. -/
theorem exec_attempt (json : LeaseJson) (s : Server) {p : AcquireParams}
    (hkey : isValidKey (bytes p.key) = true) : ∃ record token, record.nodeId = p.nodeId ∧
    (attempt json p).exec (alone json) (s, ()) = (tryCreate json p.key record).exec (alone json)
      (s.stored .fencing (fencingPath p.key) [] (renderU64 token), ()) := by
  obtain ⟨token, hbump⟩ := exec_bump json s hkey
  let s₁ := s.stored .fencing (fencingPath p.key) [] (renderU64 token)
  refine ⟨⟨p.nodeId, token, textAfter s₁.clock (.fromSecs 0), textAfter s₁.clock p.ttl,
    saturatingAdd s₁.now p.ttl.secs⟩, token, rfl, ?_⟩
  rw [attempt, Prog.exec_bind_ok hbump, exec_expiry]
  dsimp only
  rw [nowRfc3339, exec_rfc3339After]

/-- **An attempt that nobody interrupts takes a free slot.** -/
theorem exec_attempt_takes {p : AcquireParams} (hkey : isValidKey (bytes p.key) = true)
    (hfree : Takeable json s p.key) :
    ∃ record revision s', record.nodeId = p.nodeId ∧
      (attempt json p).exec (alone json) (s, ()) =
        some (.ok (.acquired record revision), s', ()) ∧
      s'.holding json p.key = some record := by
  obtain ⟨record, token, hnode, hexec⟩ := exec_attempt json s hkey
  have hfree' : Takeable json (s.stored .fencing (fencingPath p.key) [] (renderU64 token)) p.key := by
    intro r hr hput
    rw [recordIn, last_stored_ne (.inl (by decide))] at hr
    rw [Server.stored, now_setBucket]
    exact hfree r hr hput
  obtain ⟨revision, htakes⟩ := exec_tryCreate hkey hfree' record
  exact ⟨record, revision, _, hnode, hexec.trans htakes, holding_stored json _ p.key record⟩

/-- An acquisition of the slot of `p`; one that waits tries the slot at least once. -/
inductive Acquires (p : AcquireParams) : Op → Prop
  | acquire (fuel : Nat) : Acquires p (.acquire p (fuel + 1))
  | tryAcquire : Acquires p (.tryAcquire p)

/-- **An acquisition that nobody interrupts takes a free slot** and returns its
lease, where a bucket takes the key. -/
theorem exec_takes {p : AcquireParams} (hkey : isValidKey (bytes p.key) = true)
    (hfree : Takeable json s p.key) {op : Op} (hop : Acquires p op) :
    ∃ h s', (op.program json).exec (alone json) (s, ()) = some (.ok (.lease (some h)), s', ()) ∧
      h.key = p.key ∧ h.nodeId = p.nodeId ∧ s'.Holds json h := by
  obtain ⟨record, revision, s', hnode, hexec, hheld⟩ := exec_attempt_takes hkey hfree
  have hblank : isBlank p.key = false := isBlank_of_isValidKey hkey
  refine ⟨spawnLeaseHandle p record, s', ?_, rfl, hnode, record, hheld,
    by simp [LeaseHandle.owns, spawnLeaseHandle]⟩
  cases hop with
  | acquire fuel =>
    have hloop : (acquireLoop json p s.clock (fuel + 1)).exec (alone json) (s, ()) =
        some (.ok (spawnLeaseHandle p record), s', ()) := by
      rw [acquireLoop, Prog.exec_bind_ok hexec]
      rfl
    have hacquire : (acquireAsync json p (fuel + 1)).exec (alone json) (s, ()) =
        some (.ok (spawnLeaseHandle p record), s', ()) := by
      rw [acquireAsync, if_neg (by simp [hblank])]
      exact hloop
    exact Prog.exec_bind_ok hacquire
  | tryAcquire =>
    have htry : (tryAcquireAsync json p).exec (alone json) (s, ()) =
        some (.ok (some (spawnLeaseHandle p record)), s', ()) := by
      rw [tryAcquireAsync, if_neg (by simp [hblank]), Prog.exec_bind_ok hexec]
      rfl
    exact Prog.exec_bind_ok htry

/-- The same as a run in which only the call takes steps. -/
theorem run_takes {w : LeaseWorld} {p : AcquireParams} (hkey : isValidKey (bytes p.key) = true)
    (hfree : Takeable json w.srv p.key) {op : Op} (hop : Acquires p op) :
    ∃ n w' th h, World.run (leaseSystem json) w
        (.start op :: List.replicate n (.act (.main w.threads.length) .ok)) = some w' ∧
      w'.threads[w.threads.length]? = some th ∧ th.main.value? = some (.lease (some h)) ∧
      h.key = p.key ∧ h.nodeId = p.nodeId ∧ w'.srv.Holds json h := by
  obtain ⟨h, s', hexec, hhkey, hnode, hholds⟩ := exec_takes hkey hfree hop
  let started : LeaseThread := ⟨op, op.program json, (), []⟩
  have hstart : World.step (leaseSystem json) w (.start op) =
      some { w with threads := w.threads ++ [started] } := by
    cases hop <;> rfl
  have hthread : (w.threads ++ [started])[w.threads.length]? = some started := by simp
  obtain ⟨n, w', th, hrun, rfl, hth, -, hresult⟩ := World.run_exec
    (w := { w with threads := w.threads ++ [started] }) hexec rfl hthread rfl rfl
  refine ⟨n, w', th, h, ?_, hth, ?_, hhkey, hnode, hholds⟩
  · rw [World.run_cons, hstart]
    exact hrun
  · rcases Prog.result?_eq_some.1 hresult with ⟨a, ha, heq⟩ | ⟨e, he, heq⟩
    · cases heq
      rw [ha]
      rfl
    · cases heq

end Alone

/-! ## One holder -/

/-- **The slot of a lease has one holder.**  In every run of lease calls by any
nodes, the backend working: an acquisition that returned a lease stored its record
over a free slot, and no acquisition stores one over another slot; once another
acquisition stored its record, no later renewal of a lease returns, and no call on
it changes the slot, unless its token is the greatest one; and an acquisition that
nobody interrupts takes a free slot of a key that a bucket takes. -/
theorem exclusion {json : LeaseJson} (hempty : ∀ record, json.fromSlice [] ≠ .ok record)
    {s₀ : Server} {cs : List LeaseChoice} {w : LeaseWorld}
    (hcs : ∀ c ∈ cs, World.ModeOk (· = .ok) c)
    (hrun : World.run (leaseSystem json) (LeaseWorld.start s₀) cs = some w) :
    (∀ t th h, w.threads[t]? = some th → th.main.value? = some (.lease (some h)) →
      ∃ e l record, (e :: l) <:+ w.log ∧ e.who = .main t ∧ AcquiresAt json w h.key record e ∧
        h.owns record = true) ∧
    (∀ e l key record, (e :: l) <:+ w.log → AcquiresAt json w key record e →
      Takeable json e.pre key) ∧
    (∀ h : LeaseHandle, h.fencingToken.toNat < UInt64.size - 1 → ∀ e l record,
      (e :: l) <:+ w.log → AcquiredIn json w h l → AcquiresAt json w h.key record e →
      (∀ t th, w.threads[t]? = some th → th.op = .renew h → (∀ d ∈ e :: l, d.who ≠ .main t) →
        th.main.value? = none) ∧
      ∀ d l' t th s', (d :: l') <:+ w.log → (e :: l) <:+ l' → d.who = .main t →
        w.threads[t]? = some th → th.op.handle = some h →
        serve .ok d.pre () d.req = some (d.resp, s', ()) →
        s'.last .leases h.key = d.pre.last .leases h.key) ∧
    (∀ p op, isValidKey (bytes p.key) = true → Takeable json w.srv p.key → Acquires p op →
      ∃ n w' th h, World.run (leaseSystem json) w
          (.start op :: List.replicate n (.act (.main w.threads.length) .ok)) = some w' ∧
        w'.threads[w.threads.length]? = some th ∧ th.main.value? = some (.lease (some h)) ∧
        h.key = p.key ∧ h.nodeId = p.nodeId ∧ w'.srv.Holds json h) := by
  have hw := run_fleet hcs hrun
  have hkept := run_renewals hcs hrun
  refine ⟨?_, fun e l key record hsuf he => takeable_of_acquires hw hsuf he, ?_,
    fun p op hkey hfree hop => run_takes hkey hfree hop⟩
  · intro t th h hth hvalue
    obtain ⟨hparams, e, hmem, hwho, record, hby, howns⟩ := acquired_of_returned hcs hrun hth hvalue
    obtain ⟨post, l, hsplit⟩ := List.append_of_mem hmem
    exact ⟨e, l, record, ⟨post, hsplit.symm⟩, hwho, ⟨hby, t, th, hwho, hth, hparams⟩, howns⟩
  · intro h hfull e l record hsuf hacq he
    have hunseen : ∀ {l' s}, (e :: l) <:+ l' → l' <:+ w.log →
        History (leaseSystem json) (· = .ok) s₀ l' s → ¬ s.Shows json h :=
      fun hel hl hs => unseen_after hempty hw hkept hfull hacq he hel hl hs
    refine ⟨fun t th hth hop hlater => ?_, ?_⟩
    · by_contra hvalue
      obtain ⟨y, hy⟩ := Option.ne_none_iff_exists'.1 hvalue
      have hanswers := run_answers hcs hrun hth hy
      rw [hop] at hanswers
      have hrenews : Renews th.op h := by
        rw [hop]
        exact .renew h
      cases hanswers with
      | renew _ expiry =>
        obtain ⟨s, record', ⟨d, hown, hmoment⟩, hheld, howns, -⟩ :=
          held_of_renewed hw hkept hth hrenews hy
        have hshows : s.Shows json h := Server.Holds.shows ⟨record', hheld, howns⟩
        obtain ⟨hmem, hwho⟩ := mem_ownEvents.1 hown
        obtain ⟨post, l', hsplit⟩ := List.append_of_mem hmem
        have hd : (d :: l') <:+ w.log := ⟨post, hsplit.symm⟩
        -- the renewal's events come after the acquisition
        have hel : (e :: l) <:+ l' := by
          rcases Nat.lt_or_ge (e :: l).length (d :: l').length with hlt | hge
          · exact suffix_of_length_lt hd hsuf hlt
          · have hsub := List.suffix_of_suffix_length_le hd hsuf hge
            exact absurd hwho (hlater d (hsub.subset List.mem_cons_self))
        rcases hmoment with rfl | hserve
        · exact hunseen hel ((List.suffix_cons d l').trans hd) (hw.before hd) hshows
        · exact hunseen (hel.trans (List.suffix_cons d l')) hd
            ⟨hw.before hd, .ok, (), s, (), rfl, hserve, .refl⟩ hshows
    · intro d l' t th s' hd hel hwho hth hhandle hserve
      exact slot_kept hw hkept hd (hunseen hel ((List.suffix_cons d l').trans hd) (hw.before hd))
        hwho hth hhandle hserve

theorem acquiredIn_drop {json : LeaseJson} {w : LeaseWorld} {h : LeaseHandle} {record : LeaseRecord}
    {i j t : Nat} (hacquired : acquiredAt json w h.key record j t = true)
    (howns : h.owns record = true) (hij : i ≤ j) : AcquiredIn json w h (w.log.drop i) := by
  obtain ⟨hj, hacquires⟩ := acquiresAt_of_acquiredAt hacquired
  refine ⟨w.log[j], w.log.drop (j + 1), record, ?_, hacquires, howns⟩
  rw [← List.drop_eq_getElem_cons]
  exact List.drop_suffix_drop_left _ hij

theorem plainJson_empty (record : LeaseRecord) : plainJson.fromSlice [] ≠ .ok record := by
  have herror : (plainJson.fromSlice []).toOption = none := by decide
  intro hok
  rw [hok] at herror
  cases herror

/-- Node `b` took the slot over, and node `a`'s renewal returns nothing. -/
theorem exclusion_handover : ∃ w ∈ World.run (leaseSystem plainJson)
      (LeaseWorld.start emptyServer) (handover ++ [.start (.renew leaseOfA)] ++ steps 2 1),
    ∃ th ∈ w.threads[2]?, th.op = .renew leaseOfA ∧ th.main.value? = none := by
  have hrun : ∃ w ∈ World.run (leaseSystem plainJson)
        (LeaseWorld.start emptyServer) (handover ++ [.start (.renew leaseOfA)] ++ steps 2 1),
      acquiredAt plainJson w "lock.x"
          ⟨"b", 2, "1970-01-01T00:00:03Z", "1970-01-01T00:00:04Z", 4⟩ 1 1 ∧
        acquiredAt plainJson w "lock.x"
          ⟨"a", 1, "1970-01-01T00:00:01Z", "1970-01-01T00:00:02Z", 2⟩ 10 0 ∧
        (∀ d ∈ w.log.drop 1, d.who ≠ .main 2) ∧
        ∃ th ∈ w.threads[2]?, th.op = .renew leaseOfA := by
    decide +kernel
  obtain ⟨w, hrun, hlast, hfirst, hnew, th, hth, hop⟩ := hrun
  refine ⟨w, hrun, th, hth, hop, ?_⟩
  obtain ⟨-, -, hlost, -⟩ := exclusion plainJson_empty
    (by simp [handover, steps, World.ModeOk]) hrun
  obtain ⟨hi, hacquires⟩ := acquiresAt_of_acquiredAt hlast
  have hcons : w.log[1] :: w.log.drop 2 = w.log.drop 1 := (List.drop_eq_getElem_cons hi).symm
  have hsuf : (w.log[1] :: w.log.drop 2) <:+ w.log := hcons ▸ List.drop_suffix 1 w.log
  obtain ⟨hrenew, -⟩ := hlost leaseOfA (by decide) _ _ _ hsuf
    (acquiredIn_drop hfirst (by decide) (by decide)) hacquires
  exact hrenew 2 th hth hop (hcons ▸ hnew)

/-- Buckets whose counter of `lock.x` is full. -/
def fullServer : Server :=
  emptyServer.stored .fencing (fencingPath "lock.x") [] (renderU64 (UInt64.ofNat (UInt64.size - 1)))

/-- The lease of node `a` on `lock.x` with the greatest token. -/
def fullLease : LeaseHandle := { leaseOfA with fencingToken := UInt64.ofNat (UInt64.size - 1) }

/-- Node `a` takes the slot, its lease lapses, and it takes the slot again. -/
def takenAgain : List LeaseChoice :=
  [.start (.tryAcquire (lockBy "a"))] ++ steps 0 6 ++
    [.env 3000000000, .start (.tryAcquire (lockBy "a"))] ++ steps 1 9

/-- An attempt of node `a` on a key that is not blank and that no bucket takes. -/
def oddLock : AcquireParams := { lockBy "a" with key := "lock.a b" }

/-- At a full counter a renewal of the first lease returns after another
acquisition replaced its record.  An attempt of a key that no bucket takes, run
alone over the empty slot, is refused. -/
theorem exclusion_full : (∃ w ∈ World.run (leaseSystem plainJson)
      (LeaseWorld.start fullServer) (takenAgain ++ [.start (.renew fullLease)] ++ steps 2 4),
    ∃ e l record, (e :: l) <:+ w.log ∧ AcquiredIn plainJson w fullLease l ∧
      AcquiresAt plainJson w "lock.x" record e ∧
      ∃ th ∈ w.threads[2]?, th.op = .renew fullLease ∧ (∀ d ∈ e :: l, d.who ≠ .main 2) ∧
        th.main.value? = some (.renewed "1970-01-01T00:00:04Z")) ∧
    Takeable plainJson emptyServer "lock.a b" ∧
    ∃ w ∈ World.run (leaseSystem plainJson) (LeaseWorld.start emptyServer)
        (.start (.tryAcquire oddLock) :: steps 0 2),
      ∃ th ∈ w.threads[0]?, th.main.result? = some (.error
        (.backendUnavailable "fencing CAS: key cannot be empty or start/end with `.`")) := by
  have hrun : ∃ w ∈ World.run (leaseSystem plainJson)
        (LeaseWorld.start fullServer) (takenAgain ++ [.start (.renew fullLease)] ++ steps 2 4),
      acquiredAt plainJson w "lock.x" ⟨"a", UInt64.ofNat (UInt64.size - 1),
          "1970-01-01T00:00:03Z", "1970-01-01T00:00:04Z", 4⟩ 4 1 ∧
        acquiredAt plainJson w "lock.x" ⟨"a", UInt64.ofNat (UInt64.size - 1),
          "1970-01-01T00:00:01Z", "1970-01-01T00:00:02Z", 2⟩ 13 0 ∧
        (∀ d ∈ w.log.drop 4, d.who ≠ .main 2) ∧
        ∃ th ∈ w.threads[2]?, th.op = .renew fullLease ∧
          th.main.value? = some (.renewed "1970-01-01T00:00:04Z") := by
    decide +kernel
  have hfree : Takeable plainJson emptyServer "lock.a b" := by
    intro r hr
    cases hr
  refine ⟨?_, hfree, by decide +kernel⟩
  obtain ⟨w, hrun, hlast, hfirst, hnew, th, hth, hop, hvalue⟩ := hrun
  obtain ⟨hi, hacquires⟩ := acquiresAt_of_acquiredAt hlast
  have hcons : w.log[4] :: w.log.drop 5 = w.log.drop 4 := (List.drop_eq_getElem_cons hi).symm
  exact ⟨w, hrun, _, _, _, hcons ▸ List.drop_suffix 4 w.log,
    acquiredIn_drop hfirst (by decide) (by decide), hacquires, th, hth, hop, hcons ▸ hnew, hvalue⟩

end ClusterNats.Lease
