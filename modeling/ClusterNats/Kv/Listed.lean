import ClusterNats.Kv.Keyspace
import ClusterNats.Kv.Watch

/-!
# A listing over the records

A pass over the data records reads the bucket page by page, each page from the
record after its cursor on, while other calls move and remove records.  A key
whose record stands still is on exactly one page.

* `ReadTo`, `Reading` — where the stream of a page stands, and what it owes a
  record that stands still.
* `Holds` — a record that stands still and reads as a value.
* `listedRules` — the agreement, over the buckets whose records are known.
* `liveEntry_reads`, `liveEntries_reads`, `pageScan_reads`, `recordsPage_reads`,
  `listPass_reads` — what the programs of a pass establish.
* `record_listing_complete` — a pass lists each key that stands still once, and
  nothing that was never there.
-/

namespace ClusterNats

open Conc

/-! ## Where a stream stands -/

/-- A reader of every record has read up to sequence `a`: what it was handed
since lies beyond, in order. -/
def ReadTo (a : Nat) (c : Option Consumer) : Prop :=
  ∃ c' ∈ c, c'.filter = everything ∧ a < c'.next ∧
    (c'.buffer.map Delivered.streamSequence).Pairwise (· < ·) ∧
    ∀ d ∈ c'.buffer, a < d.streamSequence ∧ d.streamSequence < c'.next

section ReadTo

variable {a : Nat} {s : Server} {c c' : Option Consumer}

theorem readTo_opened (a : Nat) : ReadTo a (some ⟨everything, a + 1, []⟩) :=
  ⟨_, rfl, rfl, Nat.lt_succ_self a, by simp, by simp⟩

/-- What is handed out comes from the bucket. -/
theorem mem_of_deliver (hc : Consumer.deliver s c = some c') :
    ∃ c₁ m, c = some c₁ ∧ m ∈ s.bucket.records ∧ c₁.next ≤ m.seq ∧
      c' = some { c₁ with next := m.seq + 1, buffer := c₁.buffer ++ [delivered s c₁.filter m] } := by
  cases c with
  | none => exact absurd hc (by simp [Consumer.deliver])
  | some c₁ =>
    obtain ⟨m, hm, rfl⟩ := Option.map_eq_some_iff.1 hc
    obtain ⟨hmem, -, hnext⟩ := SubjectLog.mem_of_first hm
    exact ⟨c₁, m, rfl, hmem, hnext, rfl⟩

theorem ReadTo.deliver (h : ReadTo a c) (hc : Consumer.deliver s c = some c') : ReadTo a c' := by
  obtain ⟨c₁, hc₁, hfilter, hnext, hsorted, hbeyond⟩ := h
  obtain ⟨c₂, m, hc₂, -, hle, rfl⟩ := mem_of_deliver hc
  cases Option.some.inj ((Option.mem_def.1 hc₁).symm.trans hc₂)
  have hseq : (delivered s c₁.filter m).streamSequence = m.seq := rfl
  refine ⟨_, rfl, hfilter, by simp only; omega, ?_, fun d hd => ?_⟩
  · rw [List.map_append, List.pairwise_append]
    refine ⟨hsorted, by simp, fun n hn n' hn' => ?_⟩
    obtain ⟨d, hd, rfl⟩ := List.mem_map.1 hn
    simp only [List.map_cons, List.map_nil, List.mem_singleton] at hn'
    have hlt := (hbeyond d hd).2
    omega
  · rcases List.mem_append.1 hd with hd | hd
    · have hboth := hbeyond d hd
      simp only
      omega
    · rw [List.mem_singleton.1 hd, hseq]
      simp only
      omega

/-- A read takes the next record of what was handed. -/
theorem nextRecord_record {mode : Mode} {d : Delivered}
    (hx : nextRecord mode c = some (.record d, c')) : ∃ filter next buffer,
      c = some ⟨filter, next, d :: buffer⟩ ∧ c' = some ⟨filter, next, buffer⟩ := by
  unfold nextRecord at hx
  split at hx
  · rename_i filter next d' buffer
    cases Option.some.inj hx
    exact ⟨filter, next, buffer, rfl, rfl⟩
  · cases Option.some.inj hx
  · cases Option.some.inj hx
  · split at hx
    · cases Option.some.inj hx
    · exact absurd hx (by simp)
  · split at hx
    · cases Option.some.inj hx
    · exact absurd hx (by simp)
  · exact absurd hx (by simp)

theorem ReadTo.next {mode : Mode} {d : Delivered} (h : ReadTo a c)
    (hx : nextRecord mode c = some (.record d, c')) : a < d.streamSequence ∧ ReadTo d.streamSequence c' := by
  obtain ⟨filter, next, buffer, rfl, rfl⟩ := nextRecord_record hx
  obtain ⟨c₂, hc₂, hfilter, hnext, hsorted, hbeyond⟩ := h
  cases Option.some.inj hc₂
  have hd := hbeyond d List.mem_cons_self
  have hrest := List.pairwise_cons.1 hsorted
  refine ⟨hd.1, _, rfl, hfilter, hd.2, hrest.2, fun d' hd' => ⟨?_, ?_⟩⟩
  · exact hrest.1 _ (List.mem_map.2 ⟨d', hd', rfl⟩)
  · exact (hbeyond d' (List.mem_cons_of_mem _ hd')).2

/-- A record that is awaited lies beyond what was read. -/
theorem ReadTo.lt_of_awaited {m : StoredMessage} (h : ReadTo a c)
    (hm : s.bucket.last m.subject = some m) (hawaited : Awaited m.subject (Delivered.Is · m) s c) :
    a < m.seq := by
  obtain ⟨c₁, hc₁, -, hnext, -, hbeyond⟩ := h
  obtain ⟨c₂, hc₂, -, hreaches⟩ := hawaited
  cases Option.some.inj ((Option.mem_def.1 hc₁).symm.trans hc₂)
  rcases hreaches.exists with ⟨d, hd, his⟩ | ⟨m', hm', hle⟩
  · exact his.sequence ▸ (hbeyond d hd).1
  · cases Option.some.inj (hm'.symm.trans hm)
    exact hnext.trans_le hle

end ReadTo

/-! ## A record that stands still -/

/-- The record is there, and the sequences stay in their type. -/
def Standing (m : StoredMessage) (s : Server) : Prop :=
  s.bucket.last m.subject = some m ∧ s.bucket.lastSeq + 1 < UInt64.size

/-- The record stands still, and reads as the entry `e`. -/
def Holds (m : StoredMessage) (e : Entry) (s : Server) : Prop :=
  Standing m s ∧ StoredMessage.entryAt s.now m = some e

/-- The record of `key` stands still, under a prefix, and every reader takes it
for a value. -/
structure Stays (m : StoredMessage) (e : Entry) (pre key : String) (s : Server) : Prop where
  holds : Holds m e s
  subject : m.subject = encodeKey key
  put : recordOperation m.body.headers = .put
  under : bytes pre <+: bytes key

/-- Where the stream of a page that has read up to sequence `a` stands: its
records are the store's, and it still brings `m`, and nothing else under the
subject of `m`, if that stands still. -/
structure Reading (m : StoredMessage) (a : Nat) (v : KvView) : Prop where
  seen : BufferSeen v.srv v.loc
  named : ∀ c ∈ v.loc, ∀ d ∈ c.buffer, ∀ key, decodeKey d.subject = some key →
    d.subject = encodeKey key
  stream : Standing m v.srv → ReadTo a v.loc
  own : Standing m v.srv → ∀ c ∈ v.loc, ∀ d ∈ c.buffer, d.subject = m.subject → d.Is m
  ahead : Standing m v.srv → a < m.seq → Awaited m.subject (Delivered.Is · m) v.srv v.loc

section Reading

variable {m : StoredMessage} {e : Entry} {a : Nat} {v v' : KvView}

theorem Standing.before (h : Standing m v'.srv) (hv : Later v v')
    (hseq : m.seq ≤ v.srv.bucket.lastSeq) : Standing m v.srv :=
  ⟨hv.bucket.2 _ _ h.1 hseq, (Nat.succ_le_succ hv.bucket.1).trans_lt h.2⟩

/-- What reads as a value read as it before. -/
theorem entryAt_some_mono {now now' : UInt64} (hnow : now ≤ now')
    (h : StoredMessage.entryAt now' m = some e) : StoredMessage.entryAt now m = some e := by
  rw [entryAt_eq] at h ⊢
  split at h
  · rename_i hput
    have hlive : isExpiredAt now (decodeValue m.body.payload).2 = false := by
      rw [Bool.eq_false_iff]
      intro hexpired
      rw [isExpiredAt_mono hnow hexpired] at hput
      exact absurd hput.2 (by simp)
    rw [if_pos ⟨hput.1, hlive⟩]
    exact h
  · exact absurd h (by simp)

theorem Holds.before (h : Holds m e v'.srv) (hv : Later v v') (hseq : m.seq ≤ v.srv.bucket.lastSeq) :
    Holds m e v.srv :=
  ⟨h.1.before hv hseq, entryAt_some_mono hv.clock h.2⟩

theorem Stays.before {pre key : String} (h : Stays m e pre key v'.srv) (hv : Later v v')
    (hseq : m.seq ≤ v.srv.bucket.lastSeq) : Stays m e pre key v.srv :=
  ⟨h.holds.before hv hseq, h.subject, h.put, h.under⟩

theorem found_ofRecord (now : UInt64) (o : Option StoredMessage) :
    (Slot.ofRecord now (o.map Record.ofMessage)).found = o.bind (StoredMessage.entryAt now) := by
  cases o <;> rfl

theorem Reading.evolve (h : Reading m a v) (hv : Later v v') (hloc : v'.loc = v.loc)
    (hseq : m.seq ≤ v.srv.bucket.lastSeq) : Reading m a v' := by
  refine ⟨hloc ▸ h.seen.mono hv.bucket, hloc ▸ h.named, fun hm => hloc ▸ h.stream (hm.before hv hseq),
    fun hm => hloc ▸ h.own (hm.before hv hseq), fun hm ha => ?_⟩
  rw [hloc]
  exact (h.ahead (hm.before hv hseq) ha).evolve hv.bucket hm.1

/-- The stream is handed one more record of a bucket that is known. -/
theorem Reading.deliver {s : Server} {log : List KvEvent} {l l' : Option Consumer} (hs : s.Known)
    (h : Reading m a ⟨s, log, l⟩) (hl : Consumer.deliver s l = some l') : Reading m a ⟨s, log, l'⟩ := by
  have hseen := h.seen.deliver hl
  have hstream : Standing m s → ReadTo a l' := fun hm => (h.stream hm).deliver hl
  have hahead : Standing m s → a < m.seq → Awaited m.subject (Delivered.Is · m) s l' := by
    refine fun hm ha => (h.ahead hm ha).deliver hl fun m' filter hm' => ?_
    cases Option.some.inj (hm'.symm.trans hm.1)
    exact ⟨SubjectLog.subject_of_last hm.1, rfl, rfl, rfl⟩
  obtain ⟨c, m', rfl, hmem, hnext, rfl⟩ := mem_of_deliver hl
  refine ⟨hseen, ?_, hstream, fun hm => ?_, hahead⟩
  · intro c' hc' d hd key hkey
    cases Option.some.inj hc'
    rcases List.mem_append.1 hd with hd | hd
    · exact h.named c rfl d hd key hkey
    · rw [List.mem_singleton.1 hd] at hkey ⊢
      exact (hs m' hmem).decodeKey hkey
  · intro c' hc' d hd hsubject
    cases Option.some.inj hc'
    rcases List.mem_append.1 hd with hd | hd
    · exact h.own hm c rfl d hd hsubject
    · rw [List.mem_singleton.1 hd] at hsubject ⊢
      have hsub : m'.subject = m.subject := hsubject
      have hlast := SubjectLog.last_of_mem hmem
      rw [hsub] at hlast
      cases Option.some.inj (hlast.symm.trans hm.1)
      exact ⟨rfl, rfl, rfl, rfl⟩

/-- The stream is read: the record read is `m`, or it leaves `m` where it was. -/
theorem Reading.next {mode : Mode} {d : Delivered} (h : Reading m a v) (hsrv : v'.srv = v.srv)
    (hx : nextRecord mode v.loc = some (.record d, v'.loc)) :
    Reading m d.streamSequence v' ∧ d.streamSequence ≤ v'.srv.bucket.lastSeq ∧
      (∀ key, decodeKey d.subject = some key → d.subject = encodeKey key) ∧
      (Standing m v'.srv → a < d.streamSequence ∧
        ((d.subject = m.subject ∧ d.Is m) ∨
          d.subject ≠ m.subject ∧ (a < m.seq → d.pending ≠ 0 ∧ d.streamSequence < m.seq))) := by
  have hseen := h.seen.nextRecord hx
  obtain ⟨filter, next, buffer, hloc, hloc'⟩ := nextRecord_record hx
  have hmem : ∀ c ∈ v'.loc, ∀ d' ∈ c.buffer, ∃ c₁ ∈ v.loc, d' ∈ c₁.buffer := by
    intro c hc d' hd'
    cases Option.some.inj (hloc'.symm.trans hc)
    exact ⟨_, hloc, List.mem_cons_of_mem _ hd'⟩
  -- what the stream owes `m` once it is read
  have hawaited : Standing m v.srv → a < m.seq →
      d.Is m ∨ d.pending ≠ 0 ∧ Awaited m.subject (Delivered.Is · m) v.srv v'.loc := by
    intro hm ha
    rcases (h.ahead hm ha).next hx with ⟨d', hd', hcase⟩ | ⟨r, hr⟩ | ⟨r, hr⟩ | ⟨hr, -⟩ | ⟨hr, -⟩
    · cases hd'
      exact hcase
    all_goals exact absurd hr (by simp)
  rw [← hsrv] at hseen hawaited
  refine ⟨⟨hseen.1, ?_, fun hm => ?_, fun hm => ?_, fun hm ha => ?_⟩, (hseen.2 d rfl).1, ?_, fun hm => ?_⟩
  · intro c hc d' hd'
    obtain ⟨c₁, hc₁, hd₁⟩ := hmem c hc d' hd'
    exact h.named c₁ hc₁ d' hd₁
  · exact ((h.stream (hsrv ▸ hm)).next hx).2
  · intro c hc d' hd'
    obtain ⟨c₁, hc₁, hd₁⟩ := hmem c hc d' hd'
    exact h.own (hsrv ▸ hm) c₁ hc₁ d' hd₁
  · have hlt := ((h.stream (hsrv ▸ hm)).next hx).1
    rcases hawaited hm (hlt.trans ha) with his | ⟨-, hawaited⟩
    · have hseq := his.sequence
      omega
    · exact hawaited
  · exact h.named _ hloc d List.mem_cons_self
  · obtain ⟨hlt, hstream⟩ := (h.stream (hsrv ▸ hm)).next hx
    refine ⟨hlt, ?_⟩
    by_cases hsubject : d.subject = m.subject
    · exact .inl ⟨hsubject, h.own (hsrv ▸ hm) _ hloc d List.mem_cons_self hsubject⟩
    · refine .inr ⟨hsubject, fun ha => ?_⟩
      rcases hawaited hm ha with his | ⟨hpending, hawaited⟩
      · exact absurd his.subject hsubject
      · exact ⟨hpending, hstream.lt_of_awaited hm.1 hawaited⟩

end Reading

/-! ## The agreement -/

/-- Thread `t` read the key of an entry when that was what the key held. -/
def WasLive (t : Nat) (x : String × Entry) (log : List KvEvent) : Prop :=
  ∃ ev ∈ log, ev.who.thread = t ∧ (ev.pre.slot x.1).found = some x.2

theorem WasLive.mono {t : Nat} {x : String × Entry} {v v' : KvView} (h : WasLive t x v.log)
    (hv : Later v v') : WasLive t x v'.log := by
  obtain ⟨ev, hev, hlive⟩ := h
  exact ⟨ev, hv.log.subset hev, hlive⟩

/-- What thread `t` found under a key: what was there, and the entry of a record
that stands still. -/
structure EntryRead (t : Nat) (m : StoredMessage) (e : Entry) (key : String)
    (found : Option (String × Entry)) (s : Server) (log : List KvEvent) : Prop where
  read : ∀ x ∈ found, x.1 = key ∧ WasLive t x log
  stands : m.subject = encodeKey key → Holds m e s → found = some (key, e)

/-- The agreement of a pass by thread `t`: every stream goes on owing what it
owes, and the jobs of the thread read their keys. -/
def listedRules (t : Nat) (m : StoredMessage) (e : Entry) : KvRules where
  rely v v' := Later v v' ∧
    (m.seq ≤ v.srv.bucket.lastSeq → ∀ a, Reading m a v → Reading m a v')
  allowed _ := True
  guar _ _ _ _ _ := True
  jobPre _ u _ s _ := u = t → m.seq ≤ s.bucket.lastSeq
  jobPost _ u j r s log := u = t → ∀ d, r = .ok d → ∀ key, j = .liveEntry key →
    EntryRead t m e key d.found s log

/-- The store, on buckets whose records are known. -/
noncomputable abbrev knownSystem (api : CounterApi) : KvSystem := (kvSystem api).within Server.Known

section Programs

variable {api : CounterApi} {op : Op} {who : Actor} {js : List Job} {v : KvView} {t : Nat}
  {m : StoredMessage} {e : Entry}

theorem listedRules_ordered : (listedRules t m e).Ordered where
  refl v := ⟨.refl v, fun _ _ h => h⟩
  trans h h' := ⟨h.1.trans h'.1, fun hseq a hreading =>
    h'.2 (hseq.trans h.1.bucket.1) a (h.2 hseq a hreading)⟩

theorem listedRules_watches (api : CounterApi) : Watches (listedRules t m e) (knownSystem api) where
  toOrdered := listedRules_ordered
  free _ _ _ _ _ := trivial
  later _ _ hv := hv.1
  serve hx := (System.serve_within.1 hx).2

/-- **A job of a listing reads what its key holds.** -/
theorem liveEntry_reads {key : String} (hseq : m.seq ≤ v.srv.bucket.lastSeq) :
    (listedRules t m e).Safe (knownSystem api) op who
      (fun js' x v => js' = js ∧ ∀ found, x = .ok found →
        EntryRead who.thread m e key found v.srv v.log) (liveEntry key) js v := by
  refine watch_slot (listedRules_watches api) (fun v₁ now v₂ hv hv₁ hread hnow hnow' => ?_)
    fun e' v' => ⟨rfl, fun _ h => absurd h (by simp)⟩
  have hseq₁ := hseq.trans hv.1.bucket.1
  have hret : ∀ found : Option (String × Entry),
      found = ((v₁.srv.bucket.last (encodeKey key)).bind (StoredMessage.entryAt now)).map (key, ·) →
      (listedRules t m e).Safe (knownSystem api) op who
        (fun js' x v => js' = js ∧ ∀ found, x = .ok found →
          EntryRead who.thread m e key found v.srv v.log) (.ret found) js v₂ := by
    rintro found rfl v₃ hv₃
    refine ⟨rfl, fun found' heq => ?_⟩
    cases Except.ok.inj heq
    refine ⟨fun x hx => ?_, fun hsubject hholds => ?_⟩
    · obtain ⟨entry, hentry, rfl⟩ := Option.map_eq_some_iff.1 hx
      obtain ⟨m', hm', hentry⟩ := Option.bind_eq_some_iff.1 hentry
      refine ⟨rfl, _, hv₃.1.log.subset hread, rfl, ?_⟩
      show (v₁.srv.slot key).found = some entry
      rw [found_slot, hm', Option.bind_some]
      exact entryAt_some_mono hnow hentry
    · have hholds₁ := hholds.before (hv₁.trans hv₃.1) hseq₁
      have hholds₂ := hholds.before hv₃.1 (hseq₁.trans hv₁.bucket.1)
      rw [← hsubject, hholds₁.1.1, Option.bind_some, entryAt_some_mono hnow' hholds₂.2]
      rfl
  have hfound := found_ofRecord now (v₁.srv.bucket.last (encodeKey key))
  split
  · rename_i value exp revision hslot
    unfold entryOf
    split
    · refine hret _ ?_
      rw [← hfound, hslot]
      rfl
    · trivial
  · rename_i x hslot
    refine hret _ ?_
    rw [← hfound]
    cases hx : Slot.ofRecord now ((v₁.srv.bucket.last (encodeKey key)).map Record.ofMessage) with
    | live value exp revision => exact absurd hx (hslot value exp revision)
    | dead revision => rfl
    | empty => rfl

/-- The agreement is closed. -/
theorem listedRules_sound (api : CounterApi) (t : Nat) (m : StoredMessage) (e : Entry) :
    (listedRules t m e).Sound (knownSystem api) where
  toOrdered := listedRules_ordered
  other := by
    intro op who mode s l log r x s' l' _ _ hx l''
    obtain ⟨hbucket, hclock⟩ := serve_later (System.serve_within.1 hx).2
    have hlater : ∀ l, Later ⟨s, log, l⟩ ⟨s', ⟨who, r, x, s⟩ :: log, l⟩ :=
      fun _ => ⟨hbucket, hclock, List.suffix_cons _ _⟩
    exact ⟨hlater l'', fun hseq a h => h.evolve (hlater l'') rfl hseq⟩
  env := by
    intro v s s' log l hs
    obtain ⟨hbucket, hclock⟩ := env_later (System.env_within.1 hs).2
    have hlater : Later (⟨s, log, l⟩ : KvView) ⟨s', log, l⟩ :=
      ⟨hbucket ▸ .refl _, hclock, List.suffix_refl _⟩
    exact ⟨hlater, fun hseq a h => h.evolve hlater rfl hseq⟩
  deliver := by
    intro s log l l' hl
    obtain ⟨hknown, hl⟩ := System.deliver_within.1 hl
    exact ⟨⟨.refl _, UInt64.le_refl _, List.suffix_refl _⟩, fun _ a h => h.deliver hknown hl⟩
  job := by
    intro op u i j s log hpre
    by_cases hours : u = t ∧ ∃ key, j = .liveEntry key
    · obtain ⟨rfl, key, rfl⟩ := hours
      refine (liveEntry_reads (hpre rfl)).map fun js x v hend => ⟨hend.1, fun _ d hd key' hkey' => ?_⟩
      cases hkey'
      cases x with
      | error e' => exact absurd hd (by simp [Except.map])
      | ok found =>
        cases Except.ok.inj hd
        exact hend.2 found rfl
    · refine (Rules.safe_of_requests (requests_job asks_true j) (fun _ _ _ _ => trivial) [] _).conseq ?_
      exact fun js x v hjs => ⟨hjs, fun hu _ _ key hkey => absurd ⟨hu, key, hkey⟩ hours⟩

/-! ## The entries of a page -/

/-- What thread `t` found under keys: entries that were there, and that of a
record that stands still as often as its key is asked for. -/
structure EntriesRead (t : Nat) (m : StoredMessage) (e : Entry) (key : String) (keys : List String)
    (entries : List (String × Entry)) (s : Server) (log : List KvEvent) : Prop where
  read : ∀ x ∈ entries, x.1 ∈ keys ∧ WasLive t x log
  stands : m.subject = encodeKey key → Holds m e s →
    entries.filter (fun x => x.1 = key) = (keys.filter fun k => k = key).map fun k => (k, e)

theorem collectEntries_reads (key : String) {keys : List String} {rs : List (Except ClusterError Done)}
    {entries : List (String × Entry)}
    (hposts : List.Forall₂ (fun j r => (listedRules t m e).jobPost op t j r v.srv v.log)
      (keys.map Job.liveEntry) rs)
    (hcollect : collectEntries rs = .ok entries) :
    EntriesRead t m e key keys entries v.srv v.log := by
  induction keys generalizing rs entries with
  | nil =>
    cases hposts
    cases hcollect
    exact ⟨by simp, by simp⟩
  | cons k keys ih =>
    obtain ⟨r, rs, hpost, hrest, rfl⟩ := List.forall₂_cons_left_iff.1 hposts
    cases r with
    | error e' => exact absurd hcollect (by simp [collectEntries])
    | ok d =>
      rw [collectEntries] at hcollect
      cases hcollected : collectEntries rs with
      | error e' => exact absurd hcollect (by simp [hcollected, Except.map])
      | ok rest =>
        rw [hcollected] at hcollect
        cases Except.ok.inj hcollect
        have hone := hpost rfl d rfl k rfl
        obtain ⟨hread, hstands⟩ := ih hrest hcollected
        refine ⟨fun x hx => ?_, fun hsubject hholds => ?_⟩
        · rcases List.mem_append.1 hx with hx | hx
          · obtain ⟨rfl, hlive⟩ := hone.read x (Option.mem_toList.1 hx)
            exact ⟨List.mem_cons_self, hlive⟩
          · exact ⟨List.mem_cons_of_mem _ (hread x hx).1, (hread x hx).2⟩
        · rw [List.filter_append, hstands hsubject hholds]
          by_cases hk : k = key
          · subst hk
            rw [hone.stands hsubject hholds]
            simp
          · have hnone : d.found.toList.filter (fun x => decide (x.1 = key)) = [] := by
              rw [List.filter_eq_nil_iff]
              intro x hx
              rw [(hone.read x (Option.mem_toList.1 hx)).1]
              simpa using hk
            rw [hnone]
            simp [hk]

/-- The entries of a page are read one beside the other. -/
theorem liveEntries_reads (key : String) {keys : List String} (hseq : m.seq ≤ v.srv.bucket.lastSeq) :
    (listedRules t m e).Safe (knownSystem api) op (.main t)
      (fun js' x v => js' = [] ∧ ∀ entries, x = .ok entries →
        EntriesRead t m e key keys entries v.srv v.log) (liveEntries keys) [] v := by
  refine Rules.Safe.spawns listedRules_ordered (fun j _ v' hv' _ => hseq.trans hv'.1.bucket.1) ?_
  intro v₁ hv₁ v₂ hv₂ rs hrs
  have hseq₂ := (hseq.trans hv₁.1.bucket.1).trans hv₂.1.bucket.1
  show (listedRules t m e).Safe _ _ _ _ (Prog.ofExcept id (collectEntries rs)) _ _
  cases hcollect : collectEntries rs with
  | error e' => exact fun v₃ _ => ⟨rfl, fun _ h => absurd h (by simp)⟩
  | ok entries =>
    intro v₃ hv₃
    refine ⟨rfl, fun entries' heq => ?_⟩
    cases Except.ok.inj heq
    obtain ⟨hread, hstands⟩ := collectEntries_reads key hrs hcollect
    refine ⟨fun x hx => ⟨(hread x hx).1, ?_⟩, fun hsubject hholds => ?_⟩
    · obtain ⟨ev, hev, hlive⟩ := (hread x hx).2
      exact ⟨ev, hv₃.1.log.subset hev, hlive⟩
    · exact hstands hsubject (hholds.before hv₃.1 hseq₂)

/-! ## The records of a page -/

/-- Thread `t` left the records: a stream of it ended, or it was told that the
index is ready. -/
def strays (t : Nat) : KvEvent → Bool
  | ⟨who, .nextRecord, (x : NextRecord), _⟩ => who = .main t && x = .ended
  | ⟨who, .indexReady, (ready : Bool), _⟩ => who = .main t && ready
  | _ => false

def Strayed (t : Nat) (log : List KvEvent) : Prop := ∃ ev ∈ log, strays t ev = true

theorem Strayed.mono {v' : KvView} (h : Strayed t v.log) (hv : Later v v') : Strayed t v'.log := by
  obtain ⟨ev, hev, hstrays⟩ := h
  exact ⟨ev, hv.log.subset hev, hstrays⟩

/-- The sequence a page has read up to. -/
def PageScan.position (scan : PageScan) (after : Nat) : Nat := scan.lastSequence.getD after

/-- What a page from the sequence `after` on has read: keys under the prefix,
and the one that stays once its record was read. -/
structure PageReading (m : StoredMessage) (e : Entry) (pre key : String) (after : Nat) (scan : PageScan)
    (s : Server) : Prop where
  under : ∀ k ∈ scan.matched, bytes pre <+: bytes k
  bounded : ∀ n ∈ scan.lastSequence, n ≤ s.bucket.lastSeq
  listed : Stays m e pre key s → after ≤ scan.position after ∧
    scan.matched.filter (fun k => k = key) =
      if after < m.seq ∧ m.seq ≤ scan.position after then [key] else []

section PageReading

variable {pre key : String} {after : Nat} {scan : PageScan} {v' : KvView}

theorem PageReading.mono (h : PageReading m e pre key after scan v.srv) (hv : Later v v')
    (hseq : m.seq ≤ v.srv.bucket.lastSeq) : PageReading m e pre key after scan v'.srv :=
  ⟨h.under, fun n hn => (h.bounded n hn).trans hv.bucket.1, fun hstays => h.listed (hstays.before hv hseq)⟩

theorem pageKey_eq_some {d : Delivered} {k : String} : pageKey pre false d = some k ↔
    recordOperation d.headers = .put ∧ encodeKey pre <+: d.subject ∧ decodeKey d.subject = some k := by
  simp only [pageKey, Bool.false_eq_true, if_false]
  split
  · rename_i h
    simp [h.1, h.2]
  · rename_i h
    simp only [reduceCtorEq, false_iff]
    exact fun hall => h ⟨hall.1, hall.2.1⟩

/-- One more record is read. -/
theorem PageReading.record {d : Delivered} {s : Server} (h : PageReading m e pre key after scan s)
    (hbounded : d.streamSequence ≤ s.bucket.lastSeq)
    (hnamed : ∀ k, decodeKey d.subject = some k → d.subject = encodeKey k)
    (hread : Standing m s → scan.position after < d.streamSequence ∧
      ((d.subject = m.subject ∧ d.Is m) ∨ d.subject ≠ m.subject ∧
        (scan.position after < m.seq → d.pending ≠ 0 ∧ d.streamSequence < m.seq))) :
    PageReading m e pre key after ⟨scan.matched ++ (pageKey pre false d).toList, some d.streamSequence,
      decide (0 < d.pending)⟩ s := by
  refine ⟨fun k hk => ?_, fun n hn => ?_, fun hstays => ?_⟩
  · rcases List.mem_append.1 hk with hk | hk
    · exact h.under k hk
    · obtain ⟨-, hprefix, hkey⟩ := pageKey_eq_some.1 (Option.mem_toList.1 hk)
      rw [hnamed k hkey, encodeKey_prefix] at hprefix
      exact hprefix
  · cases Option.some.inj hn
    exact hbounded
  · obtain ⟨hle, hlisted⟩ := h.listed hstays
    obtain ⟨hlt, hcase⟩ := hread hstays.holds.1
    have hposition : PageScan.position ⟨scan.matched ++ (pageKey pre false d).toList,
        some d.streamSequence, decide (0 < d.pending)⟩ after = d.streamSequence := rfl
    rw [hposition]
    refine ⟨hle.trans hlt.le, ?_⟩
    rw [List.filter_append, hlisted]
    rcases hcase with ⟨-, his⟩ | ⟨hother, hbefore⟩
    · -- the record itself
      have hkey : pageKey pre false d = some key := by
        refine pageKey_eq_some.2 ⟨his.headers ▸ hstays.put, ?_, ?_⟩
        · rw [his.subject, hstays.subject, encodeKey_prefix]
          exact hstays.under
        · rw [his.subject, hstays.subject, decodeKey_encodeKey]
      have hseq := his.sequence
      rw [hkey, if_neg (by omega), if_pos (by omega)]
      simp
    · have hnone : (pageKey pre false d).toList.filter (fun k => decide (k = key)) = [] := by
        rw [List.filter_eq_nil_iff]
        intro k hk
        obtain ⟨-, -, hdecode⟩ := pageKey_eq_some.1 (Option.mem_toList.1 hk)
        have hne : k ≠ key := by
          rintro rfl
          exact hother ((hnamed k hdecode).trans hstays.subject.symm)
        simpa using hne
      rw [hnone, List.append_nil]
      by_cases hm : scan.position after < m.seq
      · have hafter := (hbefore hm).2
        rw [if_neg (by omega), if_neg (by omega)]
      · congr 1
        simp only [eq_iff_iff, and_congr_right_iff]
        omega

end PageReading

/-- What the loop of a page ends with. -/
def ScanEnds (t : Nat) (m : StoredMessage) (e : Entry) (pre key : String) (after : Nat)
    (scan : PageScan) (v : KvView) : Prop :=
  Strayed t v.log ∨
    PageReading m e pre key after scan v.srv ∧ scan.lastSequence ≠ none ∧
      (scan.more = false → Stays m e pre key v.srv → m.seq ≤ scan.position after)

theorem ScanEnds.mono {pre key : String} {after : Nat} {scan : PageScan} {v' : KvView}
    (h : ScanEnds t m e pre key after scan v) (hv : Later v v') (hseq : m.seq ≤ v.srv.bucket.lastSeq) :
    ScanEnds t m e pre key after scan v' := by
  refine h.imp (fun hstrayed => hstrayed.mono hv) ?_
  rintro ⟨hread, hsome, hmore⟩
  exact ⟨hread.mono hv hseq, hsome, fun hfalse hstays => hmore hfalse (hstays.before hv hseq)⟩

/-- **The loop of a page reads the records in order.** -/
theorem pageScan_reads {pre key : String} {after limit : Nat} (hlimit : 0 < limit) (fuel : Nat)
    {scan : PageScan} (hseq : m.seq ≤ v.srv.bucket.lastSeq) (hreading : Reading m (scan.position after) v)
    (hscan : PageReading m e pre key after scan v.srv) (hmore : scan.more = true)
    (hfirst : scan.lastSequence = none → scan.matched = []) :
    (listedRules t m e).Safe (knownSystem api) op (.main t)
      (fun js' x v => js' = js ∧ ∀ scan, x = .ok scan → ScanEnds t m e pre key after scan v)
      (pageScan pre false limit fuel scan) js v := by
  induction fuel generalizing scan v with
  | zero => trivial
  | succ fuel ih =>
    have hret : ∀ {scan' : PageScan} {v' : KvView}, m.seq ≤ v'.srv.bucket.lastSeq →
        ScanEnds t m e pre key after scan' v' → (listedRules t m e).Safe (knownSystem api) op (.main t)
          (fun js' x v => js' = js ∧ ∀ scan, x = .ok scan → ScanEnds t m e pre key after scan v)
          (.ret scan') js v' := by
      intro scan' v' hseq' hends v'' hv''
      refine ⟨rfl, fun scan'' heq => ?_⟩
      cases Except.ok.inj heq
      exact hends.mono hv''.1 hseq'
    unfold pageScan
    split
    · refine watch_req (listedRules_watches api) (r := .nextRecord) fun v₁ mode x v₂ hv hx hlog hlater => ?_
      have hseq₁ := hseq.trans hv.1.bucket.1
      have hseq₂ := hseq₁.trans hlater.bucket.1
      have hscan₂ := hscan.mono (hv.1.trans hlater) hseq
      have hreading₁ := hv.2 hseq _ hreading
      obtain ⟨⟨y, l⟩, hy, hxy⟩ := Option.map_eq_some_iff.1 hx
      obtain ⟨hyx, hrest⟩ := Prod.mk.inj hxy
      obtain ⟨hsrv, hloc⟩ := Prod.mk.inj hrest
      have hnext : nextRecord mode v₁.loc = some (x, v₂.loc) := hyx ▸ hloc ▸ hy
      cases hrec : (show NextRecord from x) with
      | record d =>
        have hxd : x = NextRecord.record d := hrec
        subst hxd
        obtain ⟨hreading₂, hbounded, hnamed, hread⟩ := hreading₁.next hsrv.symm hnext
        have hscan' := hscan₂.record hbounded hnamed hread
        dsimp only
        split
        · rename_i hpending
          exact ih hseq₂ hreading₂ hscan' hpending fun hnone => absurd hnone (by simp)
        · rename_i hpending
          refine hret hseq₂ (.inr ⟨hscan', by simp, fun _ hstays => ?_⟩)
          obtain ⟨hlt, hcase⟩ := hread hstays.holds.1
          show m.seq ≤ d.streamSequence
          rcases hcase with ⟨-, his⟩ | ⟨-, hbefore⟩
          · exact his.sequence.ge
          · by_contra hbeyond
            have hgoes := hbefore (by omega)
            exact hpending (decide_eq_true (Nat.pos_of_ne_zero hgoes.1))
      | unreadable r =>
        have hxd : x = NextRecord.unreadable r := hrec
        subst hxd
        exact fun _ _ => ⟨rfl, fun _ heq => absurd heq (by simp)⟩
      | failed r =>
        have hxd : x = NextRecord.failed r := hrec
        subst hxd
        exact fun _ _ => ⟨rfl, fun _ heq => absurd heq (by simp)⟩
      | ended =>
        have hxd : x = NextRecord.ended := hrec
        subst hxd
        refine hret hseq₂ (.inl ⟨_, hlog ▸ List.mem_cons_self, ?_⟩)
        simp [strays]
      | idle =>
        have hxd : x = NextRecord.idle := hrec
        subst hxd
        dsimp only
        split
        · rename_i hsome
          refine hret hseq₂ (.inr ⟨hscan₂, Option.isSome_iff_ne_none.1 hsome, fun hfalse => ?_⟩)
          exact absurd (hmore.symm.trans hfalse) (by simp)
        · exact fun _ _ => ⟨rfl, fun _ heq => absurd heq (by simp)⟩
    · rename_i hfull
      refine hret hseq (.inr ⟨hscan, fun hnone => hfull ?_, fun hfalse => ?_⟩)
      · rw [hfirst hnone]
        exact hlimit
      · exact absurd (hmore.symm.trans hfalse) (by simp)

/-! ## A page -/

/-- What a page from the sequence `after` on establishes: entries under the
prefix that were there, and that of the key that stays, if its record is one of
those read. -/
structure PageEnds (t : Nat) (m : StoredMessage) (e : Entry) (pre key : String) (after : Nat)
    (page : KvPage) (v : KvView) : Prop where
  read : ∀ x ∈ page.entries, bytes pre <+: bytes x.1 ∧ WasLive t x v.log
  last : page.next = none → Stays m e pre key v.srv →
    page.entries.filter (fun x => x.1 = key) = if after < m.seq then [(key, e)] else []
  next : ∀ c ∈ page.next, ∃ n, c = renderCursor false n ∧ n ≤ v.srv.bucket.lastSeq ∧
    (Stays m e pre key v.srv → after ≤ n ∧
      page.entries.filter (fun x => x.1 = key) = if after < m.seq ∧ m.seq ≤ n then [(key, e)] else [])

section Pages

variable {pre key : String} {after limit fuel : Nat} {α : Type}

/-- Nothing more is asked of a call that left the records. -/
theorem strayed_safe {p : Kv α} {Q : List Job → Except ClusterError α → KvView → Prop}
    (hp : p.Makes (fun _ => True) Job.Reads) (hstrayed : Strayed t v.log)
    (hseq : m.seq ≤ v.srv.bucket.lastSeq) (hQ : ∀ js x v', Strayed t v'.log → Q js x v') :
    (listedRules t m e).Safe (knownSystem api) op who Q p js v := by
  have hR := listedRules_watches (t := t) (m := m) (e := e) api
  refine (watch_since hR (Rules.safe_of_makes (I := fun v => m.seq ≤ v.srv.bucket.lastSeq)
    (fun v v' (hv : (listedRules t m e).rely v v') hseq => hseq.trans hv.1.bucket.1) ?_
    (fun _ _ _ _ => trivial) (fun j v _ hseq _ => hseq) hp hseq)).conseq ?_
  · intro v mode r x s l hseq _ _ hx
    exact hseq.trans (serve_later (System.serve_within.1 hx).2).1.1
  · exact fun js x v' hend => hQ js x v' (hstrayed.mono hend.2)

/-- **A page reads the records from its cursor on.** -/
theorem recordsPage_reads (hlimit : 0 < limit) (hseq : m.seq ≤ v.srv.bucket.lastSeq)
    (hafter : after ≤ v.srv.bucket.lastSeq) :
    (listedRules t m e).Safe (knownSystem api) op (.main t)
      (fun js' x v => Strayed t v.log ∨ (js' = [] ∧ ∀ page, x = .ok page →
        PageEnds t m e pre key after page v)) (recordsPage pre false after limit fuel) [] v := by
  have hR := listedRules_watches (t := t) (m := m) (e := e) api
  have hstart : ∀ {s : Server}, after ≤ s.bucket.lastSeq → Standing m s →
      (after + 1) % UInt64.size = after + 1 := fun hle hm =>
    Nat.mod_eq_of_lt ((Nat.succ_le_succ hle).trans_lt hm.2)
  have hmatches : subjectMatches everything m.subject = true := subjectMatches_everything m.subject
  refine watch_recordConsumer hR (fun v₁ hv₁ hpending v₂ hv₂ => ?_) (fun v₁ hv₁ hloc => ?_)
    fun e' v' => .inr ⟨rfl, fun _ h => absurd h (by simp)⟩
  · -- nothing is left from the cursor on
    refine .inr ⟨rfl, fun page heq => ?_⟩
    cases Except.ok.inj heq
    refine ⟨by simp, fun _ hstays => ?_, fun c hc => absurd hc (by simp)⟩
    have hstanding := (hstays.before hv₂.1 (hseq.trans hv₁.bucket.1)).holds.1
    have hbefore := SubjectLog.pending_eq_zero.1 hpending m (SubjectLog.mem_of_last hstanding.1) hmatches
    rw [hstart (hafter.trans hv₁.bucket.1) hstanding] at hbefore
    rw [if_neg (by omega)]
    rfl
  · have hseq₁ := hseq.trans hv₁.bucket.1
    have hreading : Reading m after v₁ := by
      have hstarted : Standing m v₁.srv → v₁.loc = some ⟨everything, after + 1, []⟩ := by
        intro hm
        rw [hloc, hstart (hafter.trans hv₁.bucket.1) hm]
        rfl
      refine ⟨?_, ?_, fun hm => ?_, fun _ => ?_, fun hm ha => ?_⟩
      · intro c hc d hd
        cases Option.some.inj (hloc.symm.trans hc)
        exact absurd hd (by simp)
      · intro c hc d hd
        cases Option.some.inj (hloc.symm.trans hc)
        exact absurd hd (by simp)
      · rw [hstarted hm]
        exact readTo_opened after
      · intro c hc d hd
        cases Option.some.inj (hloc.symm.trans hc)
        exact absurd hd (by simp)
      · rw [hstarted hm]
        exact .opened hmatches hm.1 ha
    have hscan : PageReading m e pre key after {} v₁.srv := by
      refine ⟨by simp, by simp, fun _ => ⟨le_refl _, ?_⟩⟩
      have hnone : ¬ (after < m.seq ∧ m.seq ≤ PageScan.position {} after) := fun h => absurd h.2 (not_le.2 h.1)
      rw [if_neg hnone]
      rfl
    refine Rules.Safe.bind listedRules_ordered (watch_since hR (pageScan_reads hlimit fuel hseq₁ hreading
      hscan rfl fun _ => rfl)) ?_ ?_
    · rintro scan js' v₂ ⟨⟨rfl, hends⟩, hv₂⟩
      have hseq₂ := hseq₁.trans hv₂.bucket.1
      rcases hends scan rfl with hstrayed | ⟨hread, hsome, hmore⟩
      · exact strayed_safe ((makes_liveEntries scan.matched).bind fun _ => trivial) hstrayed hseq₂
          fun _ _ _ h => .inl h
      · refine Rules.Safe.bind listedRules_ordered (watch_since hR (liveEntries_reads key hseq₂))
          ?_ ?_
        · rintro entries js' v₃ ⟨⟨rfl, hentries⟩, hv₃⟩ v₄ hv₄
          refine .inr ⟨rfl, fun page heq => ?_⟩
          cases Except.ok.inj heq
          have hv₄' := hv₃.trans hv₄.1
          obtain ⟨hfound, hstands⟩ := hentries entries rfl
          have hlisted : Stays m e pre key v₄.srv → after ≤ scan.position after ∧
              entries.filter (fun x => x.1 = key) =
                if after < m.seq ∧ m.seq ≤ scan.position after then [(key, e)] else [] := by
            intro hstays
            obtain ⟨hle, hmatched⟩ := hread.listed (hstays.before hv₄' hseq₂)
            have hholds := hstays.holds.before hv₄.1 (hseq₂.trans hv₃.bucket.1)
            refine ⟨hle, ?_⟩
            rw [hstands hstays.subject hholds, hmatched]
            split <;> rfl
          refine ⟨fun x hx => ?_, fun hnext hstays => ?_, fun c hc => ?_⟩
          · obtain ⟨ev, hev, hlive⟩ := (hfound x hx).2
            exact ⟨hread.under _ (hfound x hx).1, ev, hv₄.1.log.subset hev, hlive⟩
          · have hdone : scan.more = false := by
              by_contra hgoes
              rw [Bool.not_eq_false] at hgoes
              simp only [hgoes, if_true, Option.map_eq_none_iff] at hnext
              exact hsome hnext
            have hle := hmore hdone (hstays.before hv₄' hseq₂)
            rw [(hlisted hstays).2]
            simp [hle]
          · dsimp only at hc
            split at hc
            · obtain ⟨n, hn, rfl⟩ := Option.map_eq_some_iff.1 hc
              have hposition : scan.position after = n := by rw [PageScan.position, hn]; rfl
              refine ⟨n, rfl, (hread.bounded n hn).trans hv₄'.bucket.1, fun hstays => ?_⟩
              rw [← hposition]
              exact hlisted hstays
            · exact absurd hc (by simp)
        · rintro e' js' v₃ ⟨⟨rfl, -⟩, -⟩
          exact .inr ⟨rfl, fun _ h => absurd h (by simp)⟩
    · rintro e' js' v₂ ⟨⟨rfl, -⟩, -⟩
      exact .inr ⟨rfl, fun _ h => absurd h (by simp)⟩

/-! ## The pass -/

/-- The cursor of a record page is read as it was written, or refused. -/
theorem listPage_cursor (pre : String) (n limit fuel : Nat) :
    listPage pre (some (renderCursor false n)) limit fuel = recordsPage pre false n (max limit 1) fuel ∨
      ∃ e, listPage pre (some (renderCursor false n)) limit fuel = .fail e := by
  have hdigits : parseU64 (renderNat n) = if n < UInt64.size then some (UInt64.ofNat n) else none := by
    unfold parseU64
    rw [if_neg (head_renderNat n), parseDigits_renderNat, Option.bind_some]
  have hparse : parseCursor (renderCursor false n) =
      (parseU64 (renderNat n)).map fun after => (false, after.toNat) := rfl
  unfold listPage
  split
  · rename_i rest heq
    exact absurd (List.cons.inj (Option.some.inj heq)).1 (by decide)
  · rename_i heq
    rw [← Option.some.inj heq, hparse, hdigits]
    by_cases hn : n < UInt64.size
    · rw [if_pos hn, Option.map_some, UInt64.toNat_ofNat_of_lt' hn]
      exact .inl rfl
    · rw [if_neg hn]
      exact .inr ⟨_, rfl⟩
  · rename_i heq
    exact absurd heq (by simp)

/-- The flag is read. -/
theorem indexReady_reads : (listedRules t m e).Safe (knownSystem api) op (.main t)
    (fun js' x v' => (js' = js ∧ ∀ ready, x = .ok ready → ready = true → Strayed t v'.log) ∧ Later v v')
    (Prog.req Req.indexReady fun (ready : Bool) => Prog.ret ready) js v := by
  have hR := listedRules_watches (t := t) (m := m) (e := e) api
  refine watch_since hR (watch_req hR fun v₁ mode x v₂ hv hx hlog _ v₃ hv₃ => ⟨rfl, fun ready heq htrue => ?_⟩)
  cases Except.ok.inj heq
  refine ⟨_, hv₃.1.log.subset (hlog ▸ List.mem_cons_self), ?_⟩
  have hready : x = true := htrue
  rw [hready]
  simp [strays]

/-- A page of a pass that reads the records. -/
theorem listPage_reads (pre key : String) (limit fuel : Nat) {cursor : Option Bytes}
    (hseq : m.seq ≤ v.srv.bucket.lastSeq) (hafter : after ≤ v.srv.bucket.lastSeq)
    (hcursor : cursor = none ∧ after = 0 ∨ cursor = some (renderCursor false after)) :
    (listedRules t m e).Safe (knownSystem api) op (.main t)
      (fun js' x v => Strayed t v.log ∨ (js' = [] ∧ ∀ page, x = .ok page →
        PageEnds t m e pre key after page v)) (listPage pre cursor limit fuel) [] v := by
  have hlimit : 0 < max limit 1 := Nat.lt_of_lt_of_le Nat.zero_lt_one (Nat.le_max_right _ _)
  have hmakes : ∀ indexed, (recordsPage pre indexed 0 (max limit 1) fuel).Makes (fun _ => True)
      Job.Reads := fun indexed => makes_recordsPage (fun _ _ => trivial) pre indexed 0 _ fuel
  rcases hcursor with ⟨rfl, rfl⟩ | rfl
  · -- the flag is read twice
    unfold listPage
    refine Rules.Safe.bind listedRules_ordered indexReady_reads ?_ ?_
    · rintro ready js₁ v₁ ⟨⟨rfl, hflag⟩, hv₁⟩
      have hseq₁ := hseq.trans hv₁.bucket.1
      split
      · rename_i htrue
        refine strayed_safe ?_ (hflag ready rfl htrue) hseq₁ fun _ _ _ h => .inl h
        refine (makes_indexedKeys (fun _ _ => trivial) pre _).bind fun keys => ?_
        split
        · exact makes_subjectsPage _ _ _
        · exact Prog.Makes.bind (p := Prog.req (S := kvSig) Req.indexReady fun (ready : Bool) =>
            Prog.ret ready) ⟨trivial, fun _ => trivial⟩ hmakes
      · refine Rules.Safe.bind listedRules_ordered indexReady_reads ?_ ?_
        · rintro indexed js₂ v₂ ⟨⟨rfl, hflag₂⟩, hv₂⟩
          have hseq₂ := hseq₁.trans hv₂.bucket.1
          cases indexed with
          | true => exact strayed_safe (hmakes true) (hflag₂ true rfl rfl) hseq₂ fun _ _ _ h => .inl h
          | false => exact recordsPage_reads hlimit hseq₂ (Nat.zero_le _)
        · rintro e' js₂ v₂ ⟨⟨hjs, -⟩, -⟩
          exact .inr ⟨hjs, fun _ heq => absurd heq (by simp)⟩
    · rintro e' js₁ v₁ ⟨⟨hjs, -⟩, -⟩
      exact .inr ⟨hjs, fun _ heq => absurd heq (by simp)⟩
  · rcases listPage_cursor pre after limit fuel with heq | ⟨e', heq⟩
    · rw [heq]
      exact recordsPage_reads hlimit hseq hafter
    · rw [heq]
      exact fun _ _ => .inr ⟨rfl, fun _ h => absurd h (by simp)⟩

/-- What a pass from the sequence `after` on establishes. -/
structure PassEnds (t : Nat) (m : StoredMessage) (e : Entry) (pre key : String) (after : Nat)
    (pages : List KvPage) (v : KvView) : Prop where
  read : ∀ x ∈ pages.flatMap KvPage.entries, bytes pre <+: bytes x.1 ∧ WasLive t x v.log
  listed : Stays m e pre key v.srv →
    (pages.flatMap KvPage.entries).filter (fun x => x.1 = key) = if after < m.seq then [(key, e)] else []

/-- **A pass reads every record once.** -/
theorem listPass_reads (key : String) {scanFuel : Nat} {cursor : Option Bytes} (hseq : m.seq ≤ v.srv.bucket.lastSeq)
    (hafter : after ≤ v.srv.bucket.lastSeq)
    (hcursor : cursor = none ∧ after = 0 ∨ cursor = some (renderCursor false after)) :
    (listedRules t m e).Safe (knownSystem api) op (.main t)
      (fun js' x v => Strayed t v.log ∨ (js' = [] ∧ ∀ pages, x = .ok pages →
        PassEnds t m e pre key after pages v)) (listPass pre limit scanFuel fuel cursor) [] v := by
  have hR := listedRules_watches (t := t) (m := m) (e := e) api
  induction fuel generalizing cursor after v with
  | zero => trivial
  | succ fuel ih =>
    refine Rules.Safe.bind listedRules_ordered (watch_since hR (listPage_reads pre key limit
      scanFuel hseq hafter hcursor)) ?_ ?_
    · rintro page js' v₁ ⟨hstrayed | ⟨rfl, hends⟩, hv₁⟩
      · refine strayed_safe ?_ hstrayed (hseq.trans hv₁.bucket.1) fun _ _ _ h => .inl h
        split
        · trivial
        · exact (makes_listPass (fun _ _ => trivial) pre limit scanFuel fuel _).bind fun _ => trivial
      · have hpage := hends page rfl
        have hseq₁ := hseq.trans hv₁.bucket.1
        cases hnext : page.next with
        | none =>
          intro v₂ hv₂
          refine .inr ⟨rfl, fun pages heq => ?_⟩
          cases Except.ok.inj heq
          refine ⟨fun x hx => ?_, fun hstays => ?_⟩
          · rw [List.flatMap_singleton] at hx
            exact ⟨(hpage.read x hx).1, (hpage.read x hx).2.mono hv₂.1⟩
          · rw [List.flatMap_singleton]
            exact hpage.last hnext (hstays.before hv₂.1 hseq₁)
        | some c =>
          obtain ⟨n, rfl, hn, hlisted⟩ := hpage.next c hnext
          refine Rules.Safe.bind listedRules_ordered (watch_since hR (ih hseq₁ hn (.inr rfl))) ?_ ?_
          · rintro pages js' v₂ ⟨hrest, hv₂⟩ v₃ hv₃
            rcases hrest with hstrayed | ⟨rfl, hrest⟩
            · exact .inl (hstrayed.mono hv₃.1)
            · have hv₃' := hv₂.trans hv₃.1
              obtain ⟨hread, hlater⟩ := hrest pages rfl
              refine .inr ⟨rfl, fun pages' heq => ?_⟩
              cases Except.ok.inj heq
              refine ⟨fun x hx => ?_, fun hstays => ?_⟩
              · rw [List.flatMap_cons] at hx
                rcases List.mem_append.1 hx with hx | hx
                · exact ⟨(hpage.read x hx).1, (hpage.read x hx).2.mono hv₃'⟩
                · exact ⟨(hread x hx).1, (hread x hx).2.mono hv₃.1⟩
              · obtain ⟨hle, hfirst⟩ := hlisted (hstays.before hv₃' hseq₁)
                have hsecond := hlater (hstays.before hv₃.1 (hseq₁.trans hv₂.bucket.1))
                rw [List.flatMap_cons, List.filter_append, hfirst, hsecond]
                by_cases hm : after < m.seq
                · by_cases hmn : m.seq ≤ n
                  · rw [if_pos ⟨hm, hmn⟩, if_neg (by omega), if_pos hm]
                    rfl
                  · rw [if_neg (fun h => hmn h.2), if_pos (by omega), if_pos hm]
                    rfl
                · rw [if_neg (fun h => hm h.1), if_neg (by omega), if_neg hm]
                  rfl
          · rintro e' js' v₂ ⟨hstrayed | ⟨rfl, -⟩, -⟩
            · exact .inl hstrayed
            · exact .inr ⟨rfl, fun _ h => absurd h (by simp)⟩
    · rintro e' js' v₁ ⟨hstrayed | ⟨rfl, -⟩, -⟩
      · exact .inl hstrayed
      · exact .inr ⟨rfl, fun _ h => absurd h (by simp)⟩

end Pages
end Programs

/-! ## Every run -/

/-- What the pass of thread `t` ends with. -/
def ListedBy (t : Nat) (m : StoredMessage) (e : Entry) (pre key : String) (u : Nat) (_ : Op)
    (x : Except ClusterError Reply) (v : KvView) : Prop :=
  u = t → ∀ pages, x = .ok (.pages pages) → Strayed t v.log ∨ PassEnds t m e pre key 0 pages v

section Runs

variable {api : CounterApi} {s₀ : Server} {before after : List KvChoice} {pre : String}
  {limit scanFuel fuel : Nat} {w₀ w : KvWorld}

/-- A pass that returned, in a run. -/
theorem pass_ends (h₀ : s₀.Known) (hbefore : World.run (kvSystem api) (KvWorld.start s₀) before = some w₀)
    (hrun : World.run (kvSystem api) w₀ (.start (.listPass pre limit scanFuel fuel) :: after) = some w)
    {th : KvThread} (hth : w.threads[w₀.threads.length]? = some th) {pages : List KvPage}
    (hret : th.main = .ret (.pages pages))
    (hscan : ∀ ev ∈ w.log, strays w₀.threads.length ev = false) (m : StoredMessage) (e : Entry)
    (key : String) (hseq : m.seq ≤ w₀.srv.bucket.lastSeq) :
    PassEnds w₀.threads.length m e pre key 0 pages ⟨w.srv, w.log, th.loc⟩ := by
  -- the records are known along the run
  have hbefore' : World.run (knownSystem api) (KvWorld.start s₀) before = some w₀ :=
    World.run_within hbefore fun ds w₁ _ hds => (records_stay_known api s₀ h₀ ds w₁ hds).1
  have hrun' : World.run (knownSystem api) w₀ (.start (.listPass pre limit scanFuel fuel) :: after) =
      some w := by
    refine World.run_within hrun fun ds w₁ _ hds => (records_stay_known api s₀ h₀ (before ++ ds) w₁ ?_).1
    rw [World.run_append, hbefore]
    exact hds
  have hfree : ∀ u op (p : Kv Reply) v, u ≠ w₀.threads.length →
      (listedRules w₀.threads.length m e).Safe (knownSystem api) op (.main u)
        (fun _ => ListedBy w₀.threads.length m e pre key u op) p [] v := by
    intro u op p v hu
    refine Rules.safe_of_free (fun _ _ _ h => absurd h hu) (fun _ _ _ => trivial) ?_ p [] v
    exact fun j s log h => absurd h hu
  have hcall : ∀ p, (knownSystem api).call w₀.threads (.listPass pre limit scanFuel fuel) = some p →
      (listedRules w₀.threads.length m e).Safe (knownSystem api) (.listPass pre limit scanFuel fuel)
        (.main w₀.threads.length) (fun _ => ListedBy w₀.threads.length m e pre key w₀.threads.length
          (.listPass pre limit scanFuel fuel)) p [] ⟨w₀.srv, w₀.log, none⟩ := by
    intro p hp
    cases Option.some.inj hp
    refine (listPass_reads key hseq (Nat.zero_le _) (.inl ⟨rfl, rfl⟩)).map ?_
    intro js x v hend _ pages ha
    cases x with
    | error e' => exact absurd ha (by simp [Except.map])
    | ok pages' =>
      cases Except.ok.inj ha
      exact hend.imp_right fun hend => hend.2 _ rfl
  have hpool := Rules.PoolSafe.single (listedRules_sound api w₀.threads.length m e) (fun _ => trivial)
    hfree hbefore' hcall hrun'
  have hend := hpool.post (listedRules_sound api _ m e) hth (x := .ok (.pages pages))
    (by rw [hret]; rfl) rfl pages rfl
  refine hend.resolve_left ?_
  rintro ⟨ev, hev, hstrays⟩
  rw [hscan ev hev] at hstrays
  exact absurd hstrays (by simp)

end Runs

/-- **A listing over the records misses and repeats nothing that stands still.**
From a bucket of known records, beside any calls and however the backend
behaves: when a pass returned that was never told the index is ready, and no
stream of it ended, every entry of its pages is under the prefix and was what its
key held at some moment of the pass, and a key under the prefix whose record is
there from the start of the pass to the end, and live, is on its pages exactly
once, with its value and expiry. -/
theorem record_listing_complete (api : CounterApi) (s₀ : Server) (h₀ : s₀.Known)
    (before after : List KvChoice) (pre : String) (limit scanFuel fuel : Nat) (w₀ w : KvWorld)
    (hbefore : World.run (kvSystem api) (KvWorld.start s₀) before = some w₀)
    (hrun : World.run (kvSystem api) w₀ (.start (.listPass pre limit scanFuel fuel) :: after) = some w)
    (th : KvThread) (hth : w.threads[w₀.threads.length]? = some th) (pages : List KvPage)
    (hret : th.main = .ret (.pages pages))
    (hscan : ∀ ev ∈ w.log, strays w₀.threads.length ev = false)
    (hsize : w.srv.bucket.lastSeq + 1 < UInt64.size) :
    (∀ x ∈ pages.flatMap KvPage.entries,
      bytes pre <+: bytes x.1 ∧ WasLive w₀.threads.length x w.log) ∧
    ∀ key m entry, w₀.srv.bucket.last (encodeKey key) = some m →
      w.srv.bucket.last (encodeKey key) = some m → bytes pre <+: bytes key →
      (w.srv.slot key).found = some entry →
      (pages.flatMap KvPage.entries).filter (fun x => x.1 = key) = [(key, entry)] := by
  have hends := pass_ends h₀ hbefore hrun hth hret hscan
  refine ⟨?_, fun key m entry hm₀ hm hunder hfound => ?_⟩
  · exact (hends ⟨[], 0, [], [], 0⟩ ⟨[], none⟩ "" (Nat.zero_le _)).read
  · have hsubject : m.subject = encodeKey key := SubjectLog.subject_of_last hm
    have hentry : StoredMessage.entryAt w.srv.now m = some entry := by
      rw [found_slot, hm, Option.bind_some] at hfound
      exact hfound
    have hput : recordOperation m.body.headers = .put := by
      have hknown : w.srv.Known := by
        refine (records_stay_known api s₀ h₀ (before ++ .start (.listPass pre limit scanFuel fuel) :: after)
          w ?_).1
        rw [World.run_append, hbefore]
        exact hrun
      by_contra hmarker
      have hdead := ((hknown.wellFormed key m hm).agrees).marker hmarker
      rw [entryAt_eq_none.2 (.inl hdead)] at hentry
      exact absurd hentry (by simp)
    have hstays : Stays m entry pre key w.srv := ⟨⟨⟨hsubject ▸ hm, hsize⟩, hentry⟩, hsubject, hput, hunder⟩
    have hlisted := (hends m entry key (SubjectLog.seq_le_of_last hm₀)).listed hstays
    rwa [if_pos (SubjectLog.seq_pos_of_last hm)] at hlisted

/-- A bucket with one value, and a listing of it whose index is not ready. -/
def listedServer : Server :=
  ⟨SubjectLog.empty.store (encodeKey "k") ⟨[(expiresHeader, renderU64 0)], encodeValue [1] none, 0⟩,
    9000000000, true, false⟩

/-- A pass of single-key pages; another key is put once its first page is open. -/
def listBesidePut : List KvChoice :=
  [.act (.main 0) .ok, .act (.main 0) .ok, .act (.main 0) .ok, .act (.main 0) .ok,
    .start (.put "j" [2] none), .act (.main 1) .ok, .act (.main 1) .ok,
    .deliver 0, .act (.main 0) .ok, .act (.main 0) .ok, .act (.job 0 0) .ok, .act (.main 0) .ok,
    .act (.main 0) .ok, .act (.main 0) .ok, .deliver 0, .act (.main 0) .ok, .act (.main 0) .ok,
    .act (.job 0 0) .ok, .act (.main 0) .ok,
    .act (.main 0) .ok, .act (.main 0) .ok, .deliver 0, .act (.main 0) .ok, .act (.main 0) .ok]

theorem listedServer_known : listedServer.Known := by
  intro m hm
  have hrecord : m = ⟨encodeKey "k", 1, [(expiresHeader, renderU64 0)], encodeValue [1] none, 0⟩ := by
    simpa [listedServer, SubjectLog.store, SubjectLog.empty] using hm
  rw [hrecord]
  exact .data "k" rfl (.current [1] none rfl rfl)

/-- The pages of that pass. -/
def listedPages : List KvPage :=
  [⟨[("k", ⟨[1], none⟩)], some (bytes "d1")⟩, ⟨[("j", ⟨[2], none⟩)], some (bytes "d2")⟩, ⟨[], none⟩]

theorem record_listing_complete_beside_put :
    ∃ w ∈ World.run (kvSystem decimalCounters) (KvWorld.start listedServer)
        (.start (.listPass "" 1 4 4) :: listBesidePut),
      (w.srv.slot "k").found = some ⟨[1], none⟩ ∧ WasLive 0 ("j", ⟨[2], none⟩) w.log ∧
        (listedPages.flatMap KvPage.entries).filter (fun x => x.1 = "k") = [("k", ⟨[1], none⟩)] := by
  have hrun : ∃ w ∈ World.run (kvSystem decimalCounters) (KvWorld.start listedServer)
        (.start (.listPass "" 1 4 4) :: listBesidePut),
      (∀ ev ∈ w.log, strays 0 ev = false) ∧ w.srv.bucket.lastSeq + 1 < UInt64.size ∧
        (w.srv.slot "k").found = some ⟨[1], none⟩ ∧
        w.srv.bucket.last (encodeKey "k") = listedServer.bucket.last (encodeKey "k") ∧
        ∃ th, w.threads[0]? = some th ∧ th.main.result? = some (.ok (.pages listedPages)) := by
    decide +kernel
  obtain ⟨w, hw, hscan, hsize, hfound, hlast, th, hth, hret⟩ := hrun
  obtain ⟨m, hm⟩ : ∃ m, listedServer.bucket.last (encodeKey "k") = some m := ⟨_, rfl⟩
  rcases Prog.result?_eq_some.1 hret with ⟨a, ha, heq⟩ | ⟨e, he, heq⟩
  · cases Except.ok.inj heq
    obtain ⟨hread, hlisted⟩ := record_listing_complete decimalCounters listedServer listedServer_known []
      listBesidePut "" 1 4 4 (KvWorld.start listedServer) w rfl hw th hth _ ha hscan hsize
    refine ⟨w, hw, hfound, (hread ("j", ⟨[2], none⟩) (by decide)).2, ?_⟩
    exact hlisted "k" m _ hm (hlast.trans hm) (by simp [bytes]) hfound
  · cases heq

end ClusterNats
