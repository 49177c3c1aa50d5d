import ClusterNats.Lease.Guard

/-!
# Fencing tokens

The counter of a key only grows: a mint stores the successor of the record it
replaces, so a token minted later is greater, until the counter is full.

* `Server.Later`, `Server.stored`, `serve_update` — what a conditional write can
  do.
* `Fleet` — what every run of lease calls gives: guards, results, history.
* `mints_next`, `minted_le` — a mint is the successor of the counter, which
  never falls below a token minted.
* `mints_lt` — **a later token is greater**.
-/

namespace ClusterNats.Lease

open Conc

/-! ## The buckets -/

/-- `s'` is a later state of the buckets. -/
structure Server.Later (s s' : Server) : Prop where
  evolves : ∀ store, (s.bucket store).Evolves (s'.bucket store)
  clock : s.now ≤ s'.now

theorem Server.Later.refl (s : Server) : s.Later s := ⟨fun _ => .refl _, UInt64.le_refl _⟩

theorem Server.Later.trans {s s' s'' : Server} (h : s.Later s') (h' : s'.Later s'') :
    s.Later s'' :=
  ⟨fun store => (h.evolves store).trans (h'.evolves store), UInt64.le_trans h.clock h'.clock⟩

/-- The state after a record was stored. -/
def Server.stored (s : Server) (store : KvStore) (key : String) (headers : HeaderMap)
    (payload : Bytes) : Server :=
  s.setBucket store ((s.bucket store).store (bytes key) ⟨headers, payload, s.clock⟩)

section Buckets

variable {s s' : Server} {store store' : KvStore} {key key' : String} {headers : HeaderMap}
  {payload : Bytes}

@[simp] theorem bucket_setBucket_self (b : Bucket) : (s.setBucket store b).bucket store = b := by
  cases store <;> rfl

theorem bucket_setBucket_ne (b : Bucket) (h : store' ≠ store) :
    (s.setBucket store b).bucket store' = s.bucket store' := by
  cases store <;> cases store' <;> first | rfl | exact absurd rfl h

@[simp] theorem now_setBucket (b : Bucket) : (s.setBucket store b).now = s.now := by
  cases store <;> rfl

theorem later_stored : s.Later (s.stored store key headers payload) := by
  refine ⟨fun store' => ?_, by simp [Server.stored]⟩
  by_cases h : store' = store
  · subst h
    rw [Server.stored, bucket_setBucket_self]
    exact SubjectLog.evolves_store
  · rw [Server.stored, bucket_setBucket_ne _ h]
    exact .refl _

theorem last_stored_self : (s.stored store key headers payload).last store key =
    some ⟨bytes key, (s.bucket store).lastSeq + 1, ⟨headers, payload, s.clock⟩⟩ := by
  rw [Server.last, Server.stored, bucket_setBucket_self, SubjectLog.last_store_self]

theorem last_stored_ne (h : store' ≠ store ∨ key' ≠ key) :
    (s.stored store key headers payload).last store' key' = s.last store' key' := by
  rw [Server.last, Server.stored]
  by_cases hstore : store' = store
  · subst hstore
    rw [bucket_setBucket_self, SubjectLog.last_store_ne, Server.last]
    exact fun heq => h.resolve_left (by simp) (bytes_injective heq)
  · rw [bucket_setBucket_ne _ hstore, Server.last]

/-- The revision of a key is `0` only without a record. -/
theorem revisionOf_eq_zero : revisionOf (recordIn s store key) = 0 ↔ s.last store key = none := by
  rw [recordIn]
  cases h : s.last store key with
  | none => simp [revisionOf]
  | some m =>
    have hpos := SubjectLog.seq_pos_of_last h
    simp only [Option.map_some, revisionOf, Option.elim, Record.ofMessage, reduceCtorEq, iff_false]
    omega

/-- The record read has a revision. -/
theorem revision_ne_zero {r : Record} (h : recordIn s store key = some r) : r.revision ≠ 0 := by
  intro h0
  have hnone := revisionOf_eq_zero.1 (show revisionOf (recordIn s store key) = 0 by rw [h]; exact h0)
  rw [recordIn, hnone] at h
  cases h

theorem revisionOf_eq_lastSeqOf :
    revisionOf (recordIn s store key) = (s.bucket store).lastSeqOf (bytes key) := by
  rw [recordIn, SubjectLog.lastSeqOf, Server.last]
  cases (s.bucket store).last (bytes key) <;> rfl

/-- **A key at the revision it had holds the record it held.** -/
theorem last_eq_of_revision (h : s.Later s') {r : Option Record} (hr : recordIn s store key = r)
    (hrev : revisionOf (recordIn s' store key) = revisionOf r) :
    s'.last store key = s.last store key := by
  subst hr
  cases hm : s.last store key with
  | none =>
    rw [revisionOf_eq_zero.2 hm] at hrev
    exact revisionOf_eq_zero.1 hrev
  | some m =>
    have hne : revisionOf (recordIn s' store key) ≠ 0 := by
      rw [hrev]
      exact fun h0 => by rw [revisionOf_eq_zero, hm] at h0; cases h0
    obtain ⟨m', hm'⟩ : ∃ m', s'.last store key = some m' := by
      rw [← Option.ne_none_iff_exists']
      exact fun hnone => hne (revisionOf_eq_zero.2 hnone)
    rw [recordIn, recordIn, hm, hm'] at hrev
    rw [hm', (h.evolves store).eq_of_seq hm hm' hrev]

/-- A conditional write is stored, or lost, or not made. -/
theorem publish_cases (s : Server) (store : KvStore) (key : String) (headers : HeaderMap)
    (payload : Bytes) (revision : Nat) :
    (isValidKey (bytes key) = true ∧ revisionOf (recordIn s store key) = revision ∧
        s.publish store key headers payload revision =
          (.ok ((s.bucket store).lastSeq + 1), s.stored store key headers payload)) ∨
      (isValidKey (bytes key) = true ∧ revisionOf (recordIn s store key) ≠ revision ∧
        s.publish store key headers payload revision =
          (.error ⟨some (lostCasCode s.since214), "wrong last sequence"⟩, s)) ∨
      (isValidKey (bytes key) = false ∧ s.publish store key headers payload revision =
          (.error ⟨none, "key cannot be empty or start/end with `.`"⟩, s)) := by
  rw [revisionOf_eq_lastSeqOf, Server.publish]
  cases hkey : isValidKey (bytes key) with
  | false => exact .inr (.inr ⟨rfl, rfl⟩)
  | true =>
    by_cases h : (s.bucket store).lastSeqOf (bytes key) = revision
    · refine .inl ⟨rfl, h, ?_⟩
      rw [if_pos rfl, SubjectLog.storeIf, if_pos (by simpa using h)]
      rfl
    · refine .inr (.inl ⟨rfl, h, ?_⟩)
      rw [if_pos rfl, SubjectLog.storeIf, if_neg (by simpa using h)]

end Buckets

/-! ## One request -/

/-- The write a request makes: where, and the headers and payload stored. -/
def Req.write : Req → Option (KvStore × String × HeaderMap × Bytes × Nat)
  | .update store key value revision => some (store, key, [], value, revision)
  | .deleteExpectRevision store key revision => some (store, key, deleteMarker, [], revision)
  | _ => none

/-- **What a request changes.**  Nothing, or its record is stored over the
revision it expected, under a key that a bucket takes. -/
theorem serve_state {m : Mode} {s s' : Server} {r : Req} {x : Resp r} {c c' : Unit}
    (h : serve m s c r = some (x, s', c')) :
    s' = s ∨ ∃ store key headers payload revision,
      r.write = some (store, key, headers, payload, revision) ∧ isValidKey (bytes key) = true ∧
      revisionOf (recordIn s store key) = revision ∧ s' = s.stored store key headers payload := by
  have hpublish : ∀ {store key headers payload revision y},
      servePublish m s store key headers payload revision = some y →
      y.2 = s ∨ (isValidKey (bytes key) = true ∧ revisionOf (recordIn s store key) = revision ∧
        y.2 = s.stored store key headers payload) := by
    intro store key headers payload revision y hy
    have hstate : (s.publish store key headers payload revision).2 = s ∨
        (isValidKey (bytes key) = true ∧ revisionOf (recordIn s store key) = revision ∧
          (s.publish store key headers payload revision).2 = s.stored store key headers payload) := by
      rcases publish_cases s store key headers payload revision with ⟨hkey, hrev, heq⟩ |
        ⟨-, -, heq⟩ | ⟨-, heq⟩
      · exact .inr ⟨hkey, hrev, by rw [heq]⟩
      all_goals exact .inl (by rw [heq])
    cases m with
    | ok => cases hy; exact hstate
    | fail reason => cases hy; exact .inl rfl
    | lost reason => cases hy; exact hstate
    | _ => cases hy
  cases r with
  | systemTime => cases Option.some.inj h; exact .inl rfl
  | instant => cases Option.some.inj h; exact .inl rfl
  | sleep millis => cases Option.some.inj h; exact .inl rfl
  | getLast store key =>
    obtain ⟨y, -, hy⟩ := Option.map_eq_some_iff.1 h
    cases hy
    exact .inl rfl
  | update store key value revision =>
    obtain ⟨y, hy, heq⟩ := Option.map_eq_some_iff.1 h
    cases heq
    rcases hpublish hy with hsame | ⟨hkey, hrev, hstored⟩
    · exact .inl hsame
    · exact .inr ⟨_, _, _, _, _, rfl, hkey, hrev, hstored⟩
  | deleteExpectRevision store key revision =>
    obtain ⟨y, hy, heq⟩ := Option.map_eq_some_iff.1 h
    cases heq
    rcases hpublish hy with hsame | ⟨hkey, hrev, hstored⟩
    · exact .inl hsame
    · exact .inr ⟨_, _, _, _, _, rfl, hkey, hrev, hstored⟩

theorem serve_later {m : Mode} {s s' : Server} {r : Req} {x : Resp r} {c c' : Unit}
    (h : serve m s c r = some (x, s', c')) : s.Later s' := by
  rcases serve_state h with rfl | ⟨store, key, headers, payload, revision, -, -, -, rfl⟩
  · exact .refl _
  · exact later_stored

theorem tick_later {t : Instant} {s s' : Server} (h : tick t s = some s') : s.Later s' := by
  unfold tick at h
  split at h
  · rename_i ht
    cases Option.some.inj h
    exact ⟨fun store => by cases store <;> exact .refl _, unixSecs_mono ht.1 ht.2⟩
  · cases h

/-- An event that stored a record, as the server answered it: the client took its
key. -/
theorem serve_stored_valid {m : Mode} {e : LeaseEvent} {s' : Server} {c c' : Unit} {store : KvStore}
    {key : String} {value : Bytes} (h : serve m e.pre c e.req = some (e.resp, s', c'))
    (he : storedBy e = some (store, key, value)) : isValidKey (bytes key) = true ∧ ∃ revision,
    e.req = .update store key value revision ∧ revisionOf (recordIn e.pre store key) = revision ∧
      s' = e.pre.stored store key [] value := by
  obtain ⟨who, r, x, s⟩ := e
  cases r with
  | update store₀ key₀ value₀ revision =>
    cases x' : (x : Except PublishError Nat) with
    | error e => simp [storedBy, x'] at he
    | ok seq =>
      simp only [storedBy, x', Option.some.injEq, Prod.mk.injEq] at he
      obtain ⟨rfl, rfl, rfl⟩ := he
      obtain ⟨y, hy, heq⟩ := Option.map_eq_some_iff.1 h
      obtain ⟨hx, hrest⟩ := Prod.mk.inj heq
      obtain ⟨rfl, -⟩ := Prod.mk.inj hrest
      rw [x'] at hx
      cases m with
      | ok =>
        cases hy
        rcases publish_cases s store₀ key₀ [] value₀ revision with ⟨hkey, hrev, hpub⟩ |
          ⟨-, -, hpub⟩ | ⟨-, hpub⟩
        · exact ⟨hkey, revision, rfl, hrev, by rw [hpub]⟩
        all_goals
          rw [hpub] at hx
          cases hx
      | fail reason => cases hy; cases hx
      | lost reason => cases hy; cases hx
      | _ => cases hy
  | _ => cases he

theorem serve_stored {m : Mode} {e : LeaseEvent} {s' : Server} {c c' : Unit} {store : KvStore}
    {key : String} {value : Bytes} (h : serve m e.pre c e.req = some (e.resp, s', c'))
    (he : storedBy e = some (store, key, value)) : ∃ revision,
    e.req = .update store key value revision ∧ revisionOf (recordIn e.pre store key) = revision ∧
      s' = e.pre.stored store key [] value := (serve_stored_valid h he).2

/-- **What one event changes, the backend working.**  Nothing, or the record of
an update, or the marker of a delete. -/
theorem serve_effect {e : LeaseEvent} {s' : Server} {c c' : Unit}
    (h : serve .ok e.pre c e.req = some (e.resp, s', c')) :
    s' = e.pre ∨
      (∃ store key value revision, e.req = .update store key value revision ∧
        storedBy e = some (store, key, value) ∧
        revisionOf (recordIn e.pre store key) = revision ∧
        s' = e.pre.stored store key [] value) ∨
      ∃ store key revision, e.req = .deleteExpectRevision store key revision ∧
        revisionOf (recordIn e.pre store key) = revision ∧
        s' = e.pre.stored store key deleteMarker [] := by
  rcases serve_state h with hsame | ⟨store, key, headers, payload, revision, hwrite, hkey, hrev, rfl⟩
  · exact .inl hsame
  obtain ⟨who, r, x, s⟩ := e
  cases r with
  | update store₀ key₀ value₀ revision₀ =>
    cases hwrite
    refine .inr (.inl ⟨_, _, _, _, rfl, ?_, hrev, rfl⟩)
    have hx : (s.publish store key [] payload revision).1 = x :=
      (Prod.mk.inj (Option.some.inj h)).1
    rcases publish_cases s store key [] payload revision with ⟨-, -, hpub⟩ | ⟨-, hne, -⟩ | ⟨hnot, -⟩
    · rw [hpub] at hx
      have hx' : x = (Except.ok ((s.bucket store).lastSeq + 1) : Except PublishError Nat) := hx.symm
      rw [hx']
      rfl
    · exact absurd hrev hne
    · rw [hkey] at hnot
      cases hnot
  | deleteExpectRevision store₀ key₀ revision₀ =>
    cases hwrite
    exact .inr (.inr ⟨_, _, _, rfl, hrev, rfl⟩)
  | _ => cases hwrite

/-! ## Every run -/

/-- What a run of lease calls gives, the backend working. -/
structure Fleet (json : LeaseJson) (s₀ : Server) (w : LeaseWorld) : Prop where
  main : ∀ e ∈ w.log, ∃ t, e.who = .main t
  abiding : World.Abiding Known (Guard json) (Tells json) w
  history : History (leaseSystem json) (· = .ok) s₀ w.log w.srv

/-- A call of the fleet runs its program. -/
theorem call_program {json : LeaseJson} {ths : List LeaseThread} {op : Op} {p : LeaseProg Reply}
    (hp : (leaseSystem json).call ths op = some p) : p = op.program json := by
  simp only [leaseSystem] at hp
  split at hp
  · exact (Option.some.inj hp).symm
  · split at hp
    · exact (Option.some.inj hp).symm
    · cases hp

/-- **Every run of lease calls keeps the guards.** -/
theorem run_fleet {json : LeaseJson} {s₀ : Server} {cs : List LeaseChoice} {w : LeaseWorld}
    (hcs : ∀ c ∈ cs, World.ModeOk (· = .ok) c)
    (hrun : World.run (leaseSystem json) (LeaseWorld.start s₀) cs = some w) : Fleet json s₀ w where
  main := World.run_main hrun
  abiding := by
    refine World.run_abiding (· = .ok) ?_ ?_ hcs hrun
    · rintro e ⟨m, l, s', l', -, h⟩
      exact ⟨m, s', h⟩
    · intro ths op p hp t
      rw [call_program hp]
      exact program_abides op
  history := World.run_history (w := LeaseWorld.start s₀) Relation.ReflTransGen.refl hcs hrun

namespace Fleet

variable {json : LeaseJson} {s₀ : Server} {w : LeaseWorld} (hw : Fleet json s₀ w)
include hw

/-- Every event kept the guard of its call. -/
theorem guard {e : LeaseEvent} {l : List LeaseEvent} (hsuf : (e :: l) <:+ w.log) :
    ∃ t th, e.who = .main t ∧ w.threads[t]? = some th ∧
      Guard json th.op (.main t) (ownEvents (.main t) l) e.req := by
  have he : e ∈ w.log := hsuf.subset (List.mem_cons_self ..)
  obtain ⟨t, ht⟩ := hw.main e he
  have hlt := hw.abiding.known e he
  rw [ht, Actor.thread] at hlt
  exact ⟨t, w.threads[t], ht, by simp [hlt], hw.abiding.guarded t _ (by simp [hlt]) e l hsuf ht⟩

/-- The history before an event. -/
theorem before {e : LeaseEvent} {l : List LeaseEvent} (hsuf : (e :: l) <:+ w.log) :
    History (leaseSystem json) (· = .ok) s₀ l e.pre := by
  obtain ⟨post, hpost⟩ := hsuf
  exact (hpost ▸ hw.history).split.1

/-- How an event was served. -/
theorem served {e : LeaseEvent} (he : e ∈ w.log) :
    ∃ s', serve .ok e.pre () e.req = some (e.resp, s', ()) := by
  obtain ⟨post, pre, hsplit⟩ := List.append_of_mem he
  obtain ⟨-, m, l, s', l', rfl, hserve, -⟩ := (hsplit ▸ hw.history).split
  exact ⟨s', hserve⟩

end Fleet

/-- Calls on the lease buckets, whatever they are. -/
structure Serves {Op A : Type} (sys : System leaseSig Server Unit Mode Instant Op A) : Prop where
  serve : sys.serve = Lease.serve
  env : sys.env = tick

theorem leaseSystem_serves (json : LeaseJson) : Serves (leaseSystem json) := ⟨rfl, rfl⟩

section Histories

variable {Op A : Type} {sys : System leaseSig Server Unit Mode Instant Op A} {ok : Mode → Prop}
  {s₀ s : Server} {log : List LeaseEvent}

/-- Along a history the buckets grow old and the clock does not go back. -/
theorem history_later (hsys : Serves sys) (h : History sys ok s₀ log s) : s₀.Later s := by
  refine h.induction (P := fun _ s => s₀.Later s) (.refl _) ?_ ?_
  · rintro - v s₁ s₂ hlater hs
    rw [hsys.env] at hs
    exact hlater.trans (tick_later hs)
  · rintro l e m c s' c' - hlater - hserve
    rw [hsys.serve] at hserve
    exact hlater.trans (serve_later hserve)

/-- From an event on. -/
theorem history_since (hsys : Serves sys) {e : LeaseEvent} (h : History sys ok s₀ log s)
    (he : e ∈ log) : e.pre.Later s := by
  obtain ⟨post, pre, rfl⟩ := List.append_of_mem he
  obtain ⟨-, m, l, s', l', -, hserve, hpost⟩ := h.split
  rw [hsys.serve] at hserve
  exact (serve_later hserve).trans (history_later hsys hpost)

/-- The environment changes no record. -/
theorem tick_last {t : Instant} {s s' : Server} (h : tick t s = some s') (store : KvStore)
    (key : String) : s'.last store key = s.last store key := by
  unfold tick at h
  split at h
  · cases Option.some.inj h
    cases store <;> rfl
  · cases h

end Histories

/-! ## The order of the tokens -/

theorem parseToken_renderU64 (n : UInt64) : parseToken (renderU64 n) = n := by
  rw [parseToken, parseU64_renderU64]
  rfl

theorem renderU64_injective {n n' : UInt64} (h : renderU64 n = renderU64 n') : n = n' := by
  rw [← parseToken_renderU64 n, h, parseToken_renderU64]

theorem fencingPath_injective {key key' : String} (h : fencingPath key = fencingPath key') :
    key = key' := String.append_right_inj _ |>.1 h

/-- A saturating sum is no less than its parts. -/
theorem le_saturatingAdd (a b : UInt64) : a.toNat ≤ (saturatingAdd a b).toNat := by
  unfold saturatingAdd
  split
  · rename_i h
    rw [UInt64.toNat_add, Nat.mod_eq_of_lt h]
    omega
  · have hlt : a.toNat < UInt64.size := a.toNat_lt
    have hfull : (UInt64.ofNat (UInt64.size - 1)).toNat = UInt64.size - 1 := rfl
    omega

/-- The successor of a token is greater until the counter is full. -/
theorem lt_saturatingAdd_one {a b : UInt64} (hab : a.toNat ≤ b.toNat)
    (ha : a.toNat < UInt64.size - 1) : a.toNat < (saturatingAdd b 1).toNat := by
  unfold saturatingAdd
  split
  · rename_i h
    rw [UInt64.toNat_add, Nat.mod_eq_of_lt h]
    have : (1 : UInt64).toNat = 1 := rfl
    omega
  · have hfull : (UInt64.ofNat (UInt64.size - 1)).toNat = UInt64.size - 1 := rfl
    omega

section Tokens

variable {json : LeaseJson} {s₀ : Server} {w : LeaseWorld} {key : String}

/-- A mint reads the counter and stores its successor over what it read. -/
theorem Fleet.mints_next (hw : Fleet json s₀ w) {e : LeaseEvent} {l : List LeaseEvent}
    (hsuf : (e :: l) <:+ w.log) {value : Bytes}
    (he : storedBy e = some (.fencing, fencingPath key, value)) :
    value = renderU64 (nextToken (recordIn e.pre .fencing (fencingPath key))) ∧
      ∃ t th p, e.who = .main t ∧ w.threads[t]? = some th ∧ th.op.params = some p ∧ p.key = key := by
  obtain ⟨t, th, hwho, hth, hguard⟩ := hw.guard hsuf
  obtain ⟨s', hserve⟩ := hw.served (hsuf.subset (List.mem_cons_self ..))
  obtain ⟨revision, hreq, hrev, -⟩ := serve_stored hserve he
  rw [hreq] at hguard
  have hacquire : ∀ p, th.op.params = some p →
      AcquireGuard json p (.main t) (ownEvents (.main t) l)
        (.update .fencing (fencingPath key) value revision) →
      value = renderU64 (nextToken (recordIn e.pre .fencing (fencingPath key))) ∧ p.key = key := by
    rintro p - ⟨hpath, s, hread, hvalue, hrevision⟩
    have hlater : s.Later e.pre := history_since (leaseSystem_serves json) (hw.before hsuf)
      (mem_ownEvents.1 hread).1
    have hsame := last_eq_of_revision hlater rfl (hrev.trans hrevision)
    rw [recordIn, hsame]
    exact ⟨hvalue, (fencingPath_injective hpath).symm⟩
  cases hop : th.op with
  | acquire p fuel =>
    rw [hop] at hguard
    obtain ⟨hvalue, hkey⟩ := hacquire p (by rw [hop]; rfl) hguard
    exact ⟨hvalue, t, th, p, hwho, hth, by rw [hop]; rfl, hkey⟩
  | tryAcquire p =>
    rw [hop] at hguard
    obtain ⟨hvalue, hkey⟩ := hacquire p (by rw [hop]; rfl) hguard
    exact ⟨hvalue, t, th, p, hwho, hth, by rw [hop]; rfl, hkey⟩
  | renew h => rw [hop] at hguard; exact absurd hguard id
  | release h => rw [hop] at hguard; exact absurd hguard id
  | renewalLoop h fuel => rw [hop] at hguard; exact absurd hguard id

/-- Only a release deletes, and only in the lease bucket. -/
theorem Fleet.delete_leases (hw : Fleet json s₀ w) {e : LeaseEvent} {l : List LeaseEvent}
    (hsuf : (e :: l) <:+ w.log) {store : KvStore} {key : String} {revision : Nat}
    (hreq : e.req = .deleteExpectRevision store key revision) :
    store = .leases ∧ ∃ t th h record, e.who = .main t ∧ w.threads[t]? = some th ∧
      th.op = .release h ∧ key = h.key ∧
      SeenHeld json (.main t) h record revision (ownEvents (.main t) l) := by
  obtain ⟨t, th, hwho, hth, hguard⟩ := hw.guard hsuf
  rw [hreq] at hguard
  cases hop : th.op with
  | release h =>
    rw [hop] at hguard
    obtain ⟨hstore, hkey, record, hseen⟩ := hguard
    exact ⟨hstore, t, th, h, record, hwho, hth, hop, hkey, hseen⟩
  | _ => rw [hop] at hguard; exact absurd hguard id

/-- The counter never falls below a token that was minted. -/
theorem Fleet.minted_le (hw : Fleet json s₀ w) {l : List LeaseEvent} {s : Server}
    (hl : l <:+ w.log) (hs : History (leaseSystem json) (· = .ok) s₀ l s) {e : LeaseEvent}
    (he : e ∈ l) {token : UInt64} (hmint : Mints key token e) :
    ∃ r, recordIn s .fencing (fencingPath key) = some r ∧
      token.toNat ≤ (parseToken r.payload).toNat := by
  refine hs.induction (P := fun l s => ∀ e ∈ l, ∀ token, Mints key token e →
    ∃ r, recordIn s .fencing (fencingPath key) = some r ∧
      token.toNat ≤ (parseToken r.payload).toNat) (by simp) ?_ ?_ e he token hmint
  · intro l v s s' h hv e he token hmint
    rw [recordIn, tick_last hv]
    exact h e he token hmint
  · intro l' e' m c s' c' hsuf h hm hserve e he token hmint
    by_cases hstored : ∃ value, storedBy e' = some (.fencing, fencingPath key, value)
    · -- the counter was replaced by its successor
      obtain ⟨value, hstored⟩ := hstored
      obtain ⟨hvalue, -⟩ := hw.mints_next (hsuf.trans hl) hstored
      obtain ⟨revision, -, -, rfl⟩ := serve_stored hserve hstored
      refine ⟨_, by rw [recordIn, last_stored_self]; rfl, ?_⟩
      show token.toNat ≤ (parseToken value).toNat
      rw [hvalue, parseToken_renderU64]
      rcases List.mem_cons.1 he with rfl | he
      · rw [Mints, hstored] at hmint
        have hrender := (Prod.mk.inj (Prod.mk.inj (Option.some.inj hmint)).2).2
        rw [hvalue] at hrender
        rw [renderU64_injective hrender]
      · obtain ⟨r, hr, hle⟩ := h e he token hmint
        rw [hr]
        exact hle.trans (le_saturatingAdd _ _)
    · -- another record was stored, or none
      have hne : e ≠ e' := fun heq => hstored ⟨_, heq ▸ hmint⟩
      obtain ⟨r, hr, hle⟩ := h e ((List.mem_cons.1 he).resolve_left hne) token hmint
      refine ⟨r, ?_, hle⟩
      rw [← hr]
      subst hm
      rcases serve_effect hserve with rfl | ⟨store, key', value, revision, -, hby, -, rfl⟩ |
        ⟨store, key', revision, hreq, -, rfl⟩
      · rfl
      · rw [recordIn, recordIn, last_stored_ne]
        by_contra hsame
        push Not at hsame
        obtain ⟨rfl, rfl⟩ := hsame
        exact hstored ⟨value, hby⟩
      · obtain ⟨rfl, -⟩ := hw.delete_leases (hsuf.trans hl) hreq
        rw [recordIn, recordIn, last_stored_ne (.inl (by decide))]

/-- **A later token is no less, and greater until the counter is full.** -/
theorem Fleet.mints_lt (hw : Fleet json s₀ w) {e e' : LeaseEvent} {l : List LeaseEvent}
    (hsuf : (e :: l) <:+ w.log) (he' : e' ∈ l) {token token' : UInt64} (hmint : Mints key token e)
    (hmint' : Mints key token' e') :
    token'.toNat ≤ token.toNat ∧ (token'.toNat < UInt64.size - 1 → token'.toNat < token.toNat) := by
  obtain ⟨r, hr, hle⟩ := hw.minted_le ((List.suffix_cons _ _).trans hsuf) (hw.before hsuf) he' hmint'
  obtain ⟨hvalue, -⟩ := hw.mints_next hsuf hmint
  rw [hr] at hvalue
  rw [renderU64_injective hvalue]
  exact ⟨hle.trans (le_saturatingAdd _ _), lt_saturatingAdd_one hle⟩

end Tokens

end ClusterNats.Lease
