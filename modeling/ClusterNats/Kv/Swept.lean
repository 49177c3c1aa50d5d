import ClusterNats.Kv.Counter
import ClusterNats.Kv.Requests
import ClusterNats.Kv.Watch

/-!
# A sweep leaves nothing that was due

A sweep scans the records of a bucket and removes, or rewrites, the ones that
its clock reading and their headers call for.  Whatever runs beside it, a record
that the bucket held when the sweep started and that was due then is gone once
the sweep returned, unless its stream was cut short.

* `Due` — the headers call for the record to be removed or rewritten.
* `Gone`, `PutAt` — what a removal establishes and what a rewrite starts from.
* `Upcoming` — the stream of the sweep still brings the record.
* `sweptRules` — the agreement: the stream of any caller goes on bringing it.
* `removeDead_gone`, `settleLegacy_gone`, `sweepScan_collects`, `sweep_removes`
  — what the programs of a sweep establish.
* `sweep_completes` — no due record outlives a sweep.
-/

namespace ClusterNats

open Conc

/-! ## What is due -/

/-- A scan at the clock reading `now` collects a record with these headers. -/
def Due (grace : Duration) (now : UInt64) (headers : HeaderMap) (published : Instant) : Prop :=
  match recordOperation headers with
  | .put => ∀ at_ ∈ headerExpiry headers, at_ ≠ 0 ∧ at_ ≤ now
  | _ => grace.secs ≤ saturatingSub now (unixSecs published)

instance (grace : Duration) (now : UInt64) (headers : HeaderMap) (published : Instant) :
    Decidable (Due grace now headers published) := by
  unfold Due
  split
  · exact Option.decidableForallMem _
  · infer_instance

theorem toNat_saturatingSub (a b : UInt64) : (saturatingSub a b).toNat = a.toNat - b.toNat := by
  unfold saturatingSub
  split
  · rename_i h
    exact UInt64.toNat_sub_of_le _ _ h
  · rename_i h
    rw [UInt64.le_iff_toNat_le] at h
    show 0 = _
    omega

/-- What is due stays due. -/
theorem Due.mono {grace : Duration} {now now' : UInt64} {headers : HeaderMap} {published : Instant}
    (h : Due grace now headers published) (hnow : now ≤ now') :
    Due grace now' headers published := by
  have hmarker : grace.secs ≤ saturatingSub now (unixSecs published) →
      grace.secs ≤ saturatingSub now' (unixSecs published) := by
    simp only [UInt64.le_iff_toNat_le, toNat_saturatingSub] at hnow ⊢
    omega
  unfold Due at h ⊢
  cases hop : recordOperation headers with
  | put =>
    rw [hop] at h
    intro at_ hat
    exact ⟨(h at_ hat).1, UInt64.le_trans (h at_ hat).2 hnow⟩
  | delete =>
    rw [hop] at h
    exact hmarker h
  | purge =>
    rw [hop] at h
    exact hmarker h

section Record

variable (grace : Duration) (now : UInt64) (scan : SweepScan) (d : Delivered)

/-- What the scan collects: a due record, a value without an expiry header
apart from the others, and nothing else. -/
theorem sweepRecord_cases :
    (Due grace now d.headers d.published ∧
      (((sweepRecord grace now scan d).dead = scan.dead ++ [(d.subject, d.streamSequence)] ∧
          (sweepRecord grace now scan d).legacy = scan.legacy) ∨
        (recordOperation d.headers = .put ∧ (sweepRecord grace now scan d).dead = scan.dead ∧
          (sweepRecord grace now scan d).legacy = scan.legacy ++ [(d.subject, d.streamSequence)]))) ∨
    (¬ Due grace now d.headers d.published ∧ (sweepRecord grace now scan d).dead = scan.dead ∧
      (sweepRecord grace now scan d).legacy = scan.legacy) := by
  unfold sweepRecord Due
  cases hop : recordOperation d.headers with
  | put =>
    cases hexp : headerExpiry d.headers with
    | none => simp
    | some at_ =>
      by_cases hat : at_ ≠ 0 ∧ at_ ≤ now
      · simp [hat]
      · simp [hat]
  | delete => by_cases hold : grace.secs ≤ saturatingSub now (unixSecs d.published) <;> simp [hold]
  | purge => by_cases hold : grace.secs ≤ saturatingSub now (unixSecs d.published) <;> simp [hold]

/-- A scan takes no marker for a value. -/
theorem Record.recordOperation_of_scan {headers : HeaderMap}
    (h : ClusterNats.recordOperation headers = .put) : Record.recordOperation headers = .put := by
  unfold ClusterNats.recordOperation at h
  unfold Record.recordOperation
  cases hop : headers.get kvOperationHeader with
  | some operation =>
    rw [hop] at h
    dsimp only at h ⊢
    split at h
    · exact absurd h (by simp)
    · rename_i hdel
      split at h
      · exact absurd h (by simp)
      · rename_i hpurge
        rw [Operation.parse, if_neg hdel, if_neg hpurge]
        split <;> rfl
  | none =>
    rw [hop] at h
    cases hreason : headers.get natsMarkerReason with
    | none => rfl
    | some reason =>
      rw [hreason] at h
      dsimp only at h
      split at h <;> exact absurd h (by simp)

end Record

/-! ## What a removal establishes -/

/-- The record at a sequence of a subject is not there any more. -/
def Gone (s : Server) (subject : Bytes) (seq : Nat) : Prop :=
  seq ≤ s.bucket.lastSeq ∧ ∀ m, s.bucket.last subject = some m → m.seq ≠ seq

/-- The record at a sequence of a subject is a value, if it is there. -/
def PutAt (s : Server) (subject : Bytes) (seq : Nat) : Prop :=
  seq ≤ s.bucket.lastSeq ∧ ∀ m, s.bucket.last subject = some m → m.seq = seq →
    Record.recordOperation m.body.headers = .put

section Stable

variable {s s' : Server} {subject : Bytes} {seq : Nat}

theorem Gone.mono (h : Gone s subject seq) (hs : s.bucket.Evolves s'.bucket) :
    Gone s' subject seq := by
  refine ⟨h.1.trans hs.1, fun m hm heq => ?_⟩
  exact h.2 m (hs.2 subject m hm (heq ▸ h.1)) heq

theorem PutAt.mono (h : PutAt s subject seq) (hs : s.bucket.Evolves s'.bucket) :
    PutAt s' subject seq := by
  refine ⟨h.1.trans hs.1, fun m hm heq => ?_⟩
  exact h.2 m (hs.2 subject m hm (heq ▸ h.1)) heq

/-- A purge up to a sequence removes the record at it. -/
theorem gone_purge (hseq : seq ≤ s.bucket.lastSeq) :
    Gone (s.purge subject (some (seq + 1))) subject seq := by
  refine ⟨hseq, fun m hm heq => ?_⟩
  have hm' : (s.bucket.purge subject (some (seq + 1))).last subject = some m := hm
  rw [SubjectLog.last_purge_self] at hm'
  have hle := (Option.filter_eq_some_iff.1 hm').2
  simp only [Option.mem_def, Option.some.injEq, exists_eq_left', decide_eq_true_eq] at hle
  omega

/-- A purge that was acknowledged was carried out. -/
theorem serve_purged {m : Mode} {c c' : Option Consumer} {keep : Option Nat}
    (h : serve m s c (.purge subject keep) = some (Except.ok (), s', c')) :
    s' = s.purge subject keep := by
  cases m with
  | ok => exact (Prod.mk.inj (Prod.mk.inj (Option.some.inj h)).2).1.symm
  | fail reason => exact absurd (Prod.mk.inj (Option.some.inj h)).1 (by simp)
  | lost reason => exact absurd (Prod.mk.inj (Option.some.inj h)).1 (by simp)
  | _ => exact absurd h (by simp [serve])

/-- A rewrite at a sequence that was settled, stored or refused, leaves no record at it. -/
theorem gone_rewrite {m : Mode} {c c' : Option Consumer} {headers : HeaderMap} {payload : Bytes}
    {ack : PendingWrite} (hseq : seq ≤ s.bucket.lastSeq)
    (h : serve m s c (.publish subject headers payload (some seq)) = some (Except.ok ack, s', c'))
    (hack : ∀ e, ack.done ≠ .error (.failed e)) : Gone s' subject seq := by
  cases hdone : ack.done with
  | ok n =>
    rw [done_eq_ok.1 hdone] at h
    rw [(serve_stored h).2.2]
    refine ⟨hseq.trans (Nat.le_succ _), fun m hm heq => ?_⟩
    rw [SubjectLog.last_store_self] at hm
    cases Option.some.inj hm
    simp only at heq
    omega
  | error e =>
    cases e with
    | failed e => exact absurd hdone (hack e)
    | conflict =>
      cases m with
      | ok =>
        obtain ⟨hx, hrest⟩ := Prod.mk.inj (Option.some.inj h)
        have hsrv := (Prod.mk.inj hrest).1
        rcases publish_cases s subject headers payload (some seq) with ⟨-, heq⟩ | ⟨⟨n, hn, hne⟩, heq⟩
        · rw [heq] at hx
          rw [← Except.ok.inj hx] at hdone
          exact absurd hdone (by simp [PendingWrite.done])
        · rw [heq] at hsrv
          cases Option.some.inj hn
          rw [← hsrv]
          refine ⟨hseq, fun m hm heq => hne ?_⟩
          rw [SubjectLog.lastSeqOf_of_last hm, heq]
      | fail reason =>
        rw [← Except.ok.inj (Prod.mk.inj (Option.some.inj h)).1, done_of_failure] at hdone
        exact absurd hdone (by simp)
      | lost reason =>
        rw [← Except.ok.inj (Prod.mk.inj (Option.some.inj h)).1, done_of_failure] at hdone
        exact absurd hdone (by simp)
      | unsent reason => exact absurd (Prod.mk.inj (Option.some.inj h)).1 (by simp)
      | _ => exact absurd h (by simp [serve])

end Stable

/-! ## The agreement -/

/-- The record is gone, or the stream still brings it. -/
def Upcoming (m : StoredMessage) (v : KvView) : Prop :=
  v.srv.bucket.last m.subject = some m → Awaited m.subject (Delivered.Is · m) v.srv v.loc

/-- What a job removes. -/
def Job.target : Job → Option (Bytes × Nat)
  | .removeDead subject sequence => some (subject, sequence)
  | .settleLegacy encoded sequence => some (encoded, sequence)
  | .liveEntry _ => none

/-- The agreement of a sweep by thread `t` that is to remove `m`: nothing is
owed by the others, the buffers hold records that were there, and every stream
goes on bringing the record; the jobs of the thread remove what they are for. -/
def sweptRules (t : Nat) (m : StoredMessage) : KvRules where
  rely v v' := Later v v' ∧ (BufferSeen v.srv v.loc → BufferSeen v'.srv v'.loc) ∧
    (m.seq ≤ v.srv.bucket.lastSeq → Upcoming m v → Upcoming m v')
  allowed _ := True
  guar _ _ _ _ _ := True
  jobPre _ u j s _ := u = t → match j with
    | .removeDead _ sequence => sequence ≤ s.bucket.lastSeq
    | .settleLegacy encoded sequence => PutAt s encoded sequence
    | .liveEntry _ => True
  jobPost _ u j r s _ := u = t → ∀ d, r = .ok d → ∀ x ∈ j.target, Gone s x.1 x.2

section Agreement

variable {t : Nat} {m : StoredMessage} {v v' v'' : KvView}

theorem Upcoming.evolve (h : Upcoming m v) (hseq : m.seq ≤ v.srv.bucket.lastSeq)
    (hs : v.srv.bucket.Evolves v'.srv.bucket) (hloc : v'.loc = v.loc) : Upcoming m v' := by
  intro hm
  rw [hloc]
  exact (h (hs.2 _ _ hm hseq)).evolve hs hm

theorem sweptRules_refl (v : KvView) : (sweptRules t m).rely v v := ⟨.refl v, id, fun _ => id⟩

theorem sweptRules_trans (h : (sweptRules t m).rely v v') (h' : (sweptRules t m).rely v' v'') :
    (sweptRules t m).rely v v'' :=
  ⟨h.1.trans h'.1, h'.2.1 ∘ h.2.1, fun hseq hup =>
    h'.2.2 (hseq.trans h.1.bucket.1) (h.2.2 hseq hup)⟩

theorem sweptRules_ordered : (sweptRules t m).Ordered := ⟨sweptRules_refl, sweptRules_trans⟩

/-- Where the caller's own stream is left alone, time has passed. -/
theorem sweptRules_later (h : Later v v') (hloc : v'.loc = v.loc) : (sweptRules t m).rely v v' :=
  ⟨h, fun hseen => hloc ▸ hseen.mono h.bucket, fun hseq hup => hup.evolve hseq h.bucket hloc⟩

theorem sweptRules_watches (api : CounterApi) : Watches (sweptRules t m) (kvSystem api) where
  toOrdered := sweptRules_ordered
  free _ _ _ _ _ := trivial
  later _ _ hv := hv.1
  serve hx := hx

end Agreement

/-! ## The jobs -/

section Programs

variable {api : CounterApi} {op : Op} {who : Actor} {js : List Job} {v : KvView} {t : Nat}
  {m : StoredMessage} {α : Type} {Q : List Job → Except ClusterError α → KvView → Prop}

/-- What the others cannot undo, a program that starts no job keeps. -/
theorem swept_keeps {P : Server → Prop} (hP : ∀ s s', s.bucket.Evolves s'.bucket → P s → P s')
    {p : Kv α} (hp : p.Requests fun _ => True) (h : P v.srv) :
    (sweptRules t m).Safe (kvSystem api) op who (fun js' _ v => js' = js ∧ P v.srv) p js v := by
  induction p generalizing v with
  | ret a => exact fun v' hv => ⟨rfl, hP _ _ hv.1.bucket h⟩
  | fail e => exact fun v' hv => ⟨rfl, hP _ _ hv.1.bucket h⟩
  | req r k ih =>
    refine watch_req (sweptRules_watches api) fun v₁ mode x v₂ hv _ _ hlater => ih x (hp.2 x) ?_
    exact hP _ _ hlater.bucket (hP _ _ hv.1.bucket h)
  | stuck => trivial
  | _ => exact absurd hp id

/-- Ends with the record at a sequence of a subject gone, unless it fails. -/
abbrev Removes {α : Type} (subject : Bytes) (seq : Nat) (js : List Job) :
    List Job → Except ClusterError α → KvView → Prop := fun js' x v =>
  js' = js ∧ ∀ a, x = .ok a → Gone v.srv subject seq

variable {subject : Bytes} {seq : Nat}

/-- A program that starts when the record is gone. -/
theorem swept_gone {p : Kv α} (hp : p.Requests fun _ => True) (h : Gone v.srv subject seq) :
    (sweptRules t m).Safe (kvSystem api) op who (Removes subject seq js) p js v :=
  (swept_keeps (fun _ _ hs hgone => Gone.mono hgone hs) hp h).conseq
    fun _ _ _ hend => ⟨hend.1, fun _ _ => hend.2⟩

theorem swept_fail {e : ClusterError} :
    (sweptRules t m).Safe (kvSystem api) op who (Removes subject seq js) (.fail e : Kv α) js v :=
  fun _ _ => ⟨rfl, fun _ h => absurd h (by simp)⟩

theorem purgeThrough_gone {f : Unit → Kv α} (hseq : seq ≤ v.srv.bucket.lastSeq)
    (hf : (f ()).Requests fun _ => True) :
    (sweptRules t m).Safe (kvSystem api) op who (Removes subject seq js)
      (purgeThrough subject seq >>= f) js v := by
  refine watch_req (sweptRules_watches api) (r := .purge subject (some (seq + 1))) fun v₁ mode x v₂ hv hx _ _ => ?_
  cases hok : (show Except String Unit from x) with
  | error e =>
    have hxe : x = Except.error e := hok
    subst hxe
    exact swept_fail
  | ok u =>
    have hxe : x = Except.ok () := hok
    subst hxe
    refine swept_gone hf ?_
    rw [serve_purged hx]
    exact gone_purge (hseq.trans hv.1.bucket.1)

/-- **A removal that returns removed its record.** -/
theorem removeDead_gone {f : Unit → Kv α} (hseq : seq ≤ v.srv.bucket.lastSeq)
    (hf : (f ()).Requests fun _ => True) :
    (sweptRules t m).Safe (kvSystem api) op who (Removes subject seq js)
      (removeDead subject seq >>= f) js v := by
  have hreindex : ∀ key, (reindexIfLive key >>= f).Requests fun _ => True := fun key =>
    (requests_reindexIfLive (asks_true.upkeep key)).bind fun _ => hf
  unfold removeDead
  split
  · rw [bind_assoc]
    refine purgeThrough_gone hseq ?_
    split
    · exact hreindex _
    · exact hf
  · split
    · exact purgeThrough_gone hseq hf
    · -- the index record of the key goes first
      rename_i key hkey
      rw [bind_assoc]
      refine watch_req (sweptRules_watches api) (r := .purge (indexKey key) none) fun v₁ mode x v₂ hv hx _ hlater => ?_
      cases hok : (show Except String Unit from x) with
      | error e =>
        have hxe : x = Except.error e := hok
        subst hxe
        exact swept_fail
      | ok u =>
        have hxe : x = Except.ok () := hok
        subst hxe
        show (sweptRules t m).Safe _ _ _ _ ((purgeThrough subject seq >>= fun _ => reindexIfLive key) >>= f) _ _
        rw [bind_assoc]
        exact purgeThrough_gone ((hseq.trans hv.1.bucket.1).trans hlater.bucket.1) (hreindex key)

/-- A rewrite at a sequence, stored or refused. -/
theorem swept_rewrite {value : Bytes} {exp : Option UInt64} {f : Except WriteError Nat → Kv α}
    (hseq : seq ≤ v.srv.bucket.lastSeq)
    (hok : ∀ n v', Gone v'.srv subject seq →
      (sweptRules t m).Safe (kvSystem api) op who Q (f (.ok n)) js v')
    (hconflict : ∀ v', Gone v'.srv subject seq →
      (sweptRules t m).Safe (kvSystem api) op who Q (f (.error .conflict)) js v')
    (hfail : ∀ e v', (sweptRules t m).Safe (kvSystem api) op who Q (f (.error (.failed e))) js v') :
    (sweptRules t m).Safe (kvSystem api) op who Q
      (write subject value exp (.revision seq) >>= f) js v := by
  refine watch_req (sweptRules_watches api) (r := .publish subject _ _ (some seq)) fun v₁ mode x v₂ hv hx _ _ => ?_
  cases hsent : (show Except String PendingWrite from x) with
  | error e =>
    have hxe : x = Except.error e := hsent
    subst hxe
    exact hfail _ v₂
  | ok ack =>
    have hxe : x = Except.ok ack := hsent
    subst hxe
    have hgone := gone_rewrite (hseq.trans hv.1.bucket.1) hx
    have hnext : (sweptRules t m).Safe (kvSystem api) op who Q (f ack.done) js v₂ := by
      cases hdone : ack.done with
      | ok n => exact hok n v₂ (hgone fun e => by simp [hdone])
      | error e =>
        cases e with
        | conflict => exact hconflict v₂ (hgone fun e => by simp [hdone])
        | failed e => exact hfail e v₂
    exact hnext

/-- **An older build's record that was settled is gone.** -/
theorem settleLegacy_gone (h : PutAt v.srv subject seq) :
    (sweptRules t m).Safe (kvSystem api) op who (Removes subject seq js)
      (settleLegacy subject seq) js v := by
  refine watch_lastRecord (sweptRules_watches api) (fun v₁ v₂ hv hsrv _ => ?_) fun e v' => swept_fail
  have hput : PutAt v₂.srv subject seq := hsrv ▸ h.mono hv.1.bucket
  rw [← hsrv]
  simp only [orUnavailable, Prog.ofExcept_ok, Prog.ret_bind]
  cases hread : ((v₂.srv.bucket.last subject).map Record.ofMessage).filter
    fun r => r.revision = seq ∧ r.operation = .put with
  | none =>
    -- moved: what is there now is not the record that was scanned
    have hgone : Gone v₂.srv subject seq := by
      refine ⟨hput.1, fun m' hm' heq => ?_⟩
      rw [hm', Option.map_some, Option.filter_eq_none_iff] at hread
      exact hread _ rfl (decide_eq_true ⟨heq, hput.2 m' hm' heq⟩)
    exact swept_gone (p := .ret LegacyOutcome.moved) trivial hgone
  | some record =>
    refine watch_isExpired (sweptRules_watches api) fun now v₃ hv₃ _ _ => ?_
    have hseq : seq ≤ v₃.srv.bucket.lastSeq := hput.1.trans hv₃.bucket.1
    split
    · exact removeDead_gone hseq trivial
    · -- rewritten at its sequence, or refused because it moved
      refine swept_rewrite hseq (fun n v₄ hgone => swept_gone ?_ hgone) (fun v₄ hgone => ?_)
        fun e v₄ => swept_fail
      · dsimp only
        split
        · exact (requests_writeIndex (asks_true.upkeep _)).bind fun _ => trivial
        · trivial
      · exact swept_gone (p := .ret LegacyOutcome.moved) trivial hgone

/-- The agreement is closed. -/
theorem sweptRules_sound (api : CounterApi) (t : Nat) (m : StoredMessage) :
    (sweptRules t m).Sound (kvSystem api) where
  toOrdered := sweptRules_ordered
  other := by
    intro op who mode s l log r x s' l' _ _ hx l''
    obtain ⟨hbucket, hclock⟩ := serve_later hx
    exact sweptRules_later ⟨hbucket, hclock, List.suffix_cons _ _⟩ rfl
  env := by
    intro v s s' log l hs
    obtain ⟨hbucket, hclock⟩ := env_later hs
    have hev : s.bucket.Evolves s'.bucket := hbucket ▸ .refl _
    exact sweptRules_later ⟨hev, hclock, List.suffix_refl _⟩ rfl
  deliver := by
    intro s log l l' hl
    refine ⟨⟨.refl _, UInt64.le_refl _, List.suffix_refl _⟩, fun hseen => hseen.deliver hl, ?_⟩
    intro _ hup hm
    refine (hup hm).deliver hl fun m' filter hm' => ?_
    have hsame : m' = m := Option.some.inj (hm'.symm.trans hm)
    subst hsame
    exact ⟨SubjectLog.subject_of_last hm, rfl, rfl, rfl⟩
  job := by
    intro op u i j s log hpre
    by_cases hu : u = t
    · have hends : ∀ {α : Type} {p : Kv α} {f : α → Done} {subject : Bytes} {seq : Nat},
          j.target = some (subject, seq) →
          (sweptRules t m).Safe (kvSystem api) op (.job u i) (Removes subject seq []) p []
            ⟨s, log, none⟩ →
          (sweptRules t m).Safe (kvSystem api) op (.job u i)
            (Ends fun r v => (sweptRules t m).jobPost op u j r v.srv v.log) (f <$> p) []
            ⟨s, log, none⟩ := by
        intro α p f subject seq htarget h
        refine h.map fun js x v hend => ⟨hend.1, fun _ d hd y hy => ?_⟩
        cases x with
        | error e => exact absurd hd (by simp [Except.map])
        | ok a =>
          rw [htarget] at hy
          cases Option.some.inj hy
          exact hend.2 a rfl
      have hpre := hpre hu
      cases j with
      | removeDead subject seq =>
        refine hends rfl ?_
        rw [← bind_pure (removeDead subject seq)]
        exact removeDead_gone hpre trivial
      | settleLegacy encoded seq => exact hends rfl (settleLegacy_gone hpre)
      | liveEntry key =>
        refine (Rules.safe_of_requests (requests_liveEntry (P := fun _ => True)
          (fun _ _ => trivial) key) (fun _ _ _ _ => trivial) [] _).map fun js x v hjs => ⟨hjs, ?_⟩
        exact fun _ _ _ y hy => absurd hy (by simp [Job.target])
    · refine (Rules.safe_of_requests (requests_job asks_true j) (fun _ _ _ _ => trivial) [] _).conseq ?_
      exact fun js x v hjs => ⟨hjs, fun hut => absurd hut hu⟩

/-! ## The scan -/

/-- The bucket held the record once, and does not hold it any more. -/
def Absent (m : StoredMessage) (s : Server) : Prop :=
  m.seq ≤ s.bucket.lastSeq ∧ s.bucket.last m.subject ≠ some m

theorem Absent.mono {s s' : Server} (h : Absent m s) (hs : s.bucket.Evolves s'.bucket) :
    Absent m s' :=
  ⟨h.1.trans hs.1, fun hm => h.2 (hs.2 _ _ hm h.1)⟩

theorem Gone.absent {s : Server} (h : Gone s m.subject m.seq) : Absent m s :=
  ⟨h.1, fun hm => h.2 m hm rfl⟩

/-- The record is to be removed or rewritten. -/
def Collected (m : StoredMessage) (scan : SweepScan) : Prop :=
  (m.subject, m.seq) ∈ scan.dead ∨ (m.subject, m.seq) ∈ scan.legacy

/-- The stream of thread `t` was cut short: it ended or stalled. -/
def cuts (t : Nat) : KvEvent → Bool
  | ⟨who, .nextRecord, (x : NextRecord), _⟩ => who = .main t && (x = .ended || x = .idle)
  | _ => false

/-- What a sweep knows about the records its scan collected. -/
structure ScanKnown (scan : SweepScan) (v : KvView) : Prop where
  dead : ∀ x ∈ scan.dead, x.2 ≤ v.srv.bucket.lastSeq
  legacy : ∀ x ∈ scan.legacy, PutAt v.srv x.1 x.2

theorem scanKnown_nil (v : KvView) : ScanKnown {} v :=
  ⟨fun _ h => absurd h (by simp), fun _ h => absurd h (by simp)⟩

theorem ScanKnown.mono {scan : SweepScan} {v v' : KvView} (h : ScanKnown scan v)
    (hv : Later v v') : ScanKnown scan v' where
  dead x hx := (h.dead x hx).trans hv.bucket.1
  legacy x hx := (h.legacy x hx).mono hv.bucket

/-- One record is scanned. -/
theorem ScanKnown.record {grace : Duration} {now : UInt64} {scan : SweepScan} {v : KvView}
    {d : Delivered} (h : ScanKnown scan v) (hd : Seen v.srv d) :
    ScanKnown (sweepRecord grace now scan d) v := by
  have hput : recordOperation d.headers = .put → PutAt v.srv d.subject d.streamSequence := by
    refine fun hop => ⟨hd.1, fun m hm hseq => ?_⟩
    rw [(hd.2 m hm hseq.le).2]
    exact Record.recordOperation_of_scan hop
  rcases sweepRecord_cases grace now scan d with ⟨-, ⟨hdead, hlegacy⟩ | ⟨hop, hdead, hlegacy⟩⟩ |
    ⟨-, hdead, hlegacy⟩
  · refine ⟨fun x hx => ?_, hlegacy ▸ h.legacy⟩
    rw [hdead] at hx
    rcases List.mem_append.1 hx with hx | hx
    · exact h.dead x hx
    · exact List.mem_singleton.1 hx ▸ hd.1
  · refine ⟨hdead ▸ h.dead, fun x hx => ?_⟩
    rw [hlegacy] at hx
    rcases List.mem_append.1 hx with hx | hx
    · exact h.legacy x hx
    · exact List.mem_singleton.1 hx ▸ hput hop
  · exact ⟨hdead ▸ h.dead, hlegacy ▸ h.legacy⟩

theorem Collected.record {grace : Duration} {now : UInt64} {scan : SweepScan} (d : Delivered)
    (h : Collected m scan) : Collected m (sweepRecord grace now scan d) := by
  rcases sweepRecord_cases grace now scan d with ⟨-, ⟨hdead, hlegacy⟩ | ⟨-, hdead, hlegacy⟩⟩ |
    ⟨-, hdead, hlegacy⟩
  all_goals
    rw [Collected, hdead, hlegacy]
    exact h.imp (by simp +contextual) (by simp +contextual)

/-- A due record that is read is collected. -/
theorem collected_of_is {grace : Duration} {now : UInt64} {scan : SweepScan} {d : Delivered}
    (hd : d.Is m) (hdue : Due grace now m.body.headers m.body.published) :
    Collected m (sweepRecord grace now scan d) := by
  rw [← hd.headers, ← hd.published] at hdue
  rcases sweepRecord_cases grace now scan d with ⟨-, ⟨hdead, hlegacy⟩ | ⟨-, hdead, hlegacy⟩⟩ | ⟨hnot, -⟩
  · left
    simp [hdead, hd.subject, hd.sequence]
  · right
    simp [hlegacy, hd.subject, hd.sequence]
  · exact absurd hdue hnot

/-- **A scan that is not cut short collects what is due.** -/
theorem sweepScan_collects {grace : Duration} {now : UInt64} (fuel : Nat) {scan : SweepScan}
    (hseen : BufferSeen v.srv v.loc) (hseq : m.seq ≤ v.srv.bucket.lastSeq)
    (hdue : Due grace now m.body.headers m.body.published) (hknown : ScanKnown scan v)
    (h : Collected m scan ∨ Upcoming m v) :
    (sweptRules t m).Safe (kvSystem api) op (.main t)
      (fun js' x v => js' = js ∧ ∀ scan, x = .ok scan → ScanKnown scan v ∧
        (Collected m scan ∨ Absent m v.srv ∨ ∃ e ∈ v.log, cuts t e = true))
      (sweepScan grace now fuel scan) js v := by
  induction fuel generalizing scan v with
  | zero => trivial
  | succ fuel ih =>
    refine watch_req (sweptRules_watches api) (r := .nextRecord) fun v₁ mode x v₂ hv hx hlog hlater => ?_
    have hseen₁ := hv.2.1 hseen
    have hseq₁ := hseq.trans hv.1.bucket.1
    have h₁ : Collected m scan ∨ Upcoming m v₁ := h.imp_right (hv.2.2 hseq)
    have hknown₂ := hknown.mono (hv.1.trans hlater)
    have hret : ∀ scan', ScanKnown scan' v₂ →
        (Collected m scan' ∨ Absent m v₂.srv ∨ ∃ e ∈ v₂.log, cuts t e = true) →
        (sweptRules t m).Safe (kvSystem api) op (.main t)
          (fun js' x v => js' = js ∧ ∀ scan, x = .ok scan → ScanKnown scan v ∧
            (Collected m scan ∨ Absent m v.srv ∨ ∃ e ∈ v.log, cuts t e = true))
          (.ret scan') js v₂ := by
      intro scan' hscan' hor v' hv'
      refine ⟨rfl, fun scan'' heq => ?_⟩
      cases Except.ok.inj heq
      refine ⟨hscan'.mono hv'.1, hor.imp_right (Or.imp ?_ ?_)⟩
      · exact fun habsent => habsent.mono hv'.1.bucket
      · exact fun ⟨e, he, hcut⟩ => ⟨e, hv'.1.log.subset he, hcut⟩
    obtain ⟨⟨y, l⟩, hy, hxy⟩ := Option.map_eq_some_iff.1 hx
    obtain ⟨hyx, hrest⟩ := Prod.mk.inj hxy
    obtain ⟨hsrv, hloc⟩ := Prod.mk.inj hrest
    have hnext : nextRecord mode v₁.loc = some (x, v₂.loc) := hyx ▸ hloc ▸ hy
    have hseen₂ := hseen₁.nextRecord hnext
    rw [hsrv] at hseen₂
    have hcut : ∀ z : NextRecord, x = z → (z = .ended ∨ z = .idle) →
        ∃ e ∈ v₂.log, cuts t e = true := by
      intro z hz hor
      refine ⟨_, hlog ▸ List.mem_cons_self, ?_⟩
      rw [hz]
      rcases hor with rfl | rfl <;> simp [cuts]
    cases hrec : (show NextRecord from x) with
    | record d =>
      have hxd : x = NextRecord.record d := hrec
      have hd : Seen v₂.srv d := hseen₂.2 d hxd
      have hknown' : ScanKnown (sweepRecord grace now scan d) v₂ := hknown₂.record hd
      -- the record was this one, or the stream goes on to it
      have hgoes : Collected m (sweepRecord grace now scan d) ∨
          (v₂.srv.bucket.last m.subject = some m → d.pending ≠ 0 ∧
            Awaited m.subject (Delivered.Is · m) v₂.srv v₂.loc) := by
        rcases h₁ with hcollected | hup
        · exact .inl (hcollected.record d)
        · by_cases hlast : v₁.srv.bucket.last m.subject = some m
          · rcases (hup hlast).next hnext with ⟨d', hd', hcase⟩ | ⟨r, hr⟩ | ⟨r, hr⟩ | ⟨hr, -⟩ | ⟨hr, -⟩
            · cases hxd.symm.trans hd'
              rcases hcase with his | hgoes
              · exact .inl (collected_of_is his hdue)
              · exact .inr fun _ => hsrv ▸ hgoes
            all_goals exact absurd (hxd.symm.trans hr) (by simp)
          · exact .inr fun hlast' => absurd (hsrv ▸ hlast') hlast
      subst hxd
      dsimp only
      split
      · rename_i hpending
        refine hret _ hknown' (hgoes.imp_right fun hgoes => .inl ⟨?_, fun hlast => ?_⟩)
        · exact hseq₁.trans hlater.bucket.1
        · exact absurd hpending (hgoes hlast).1
      · refine ih hseen₂.1 (hseq₁.trans hlater.bucket.1) hknown' (hgoes.imp_right ?_)
        exact fun hgoes hlast => (hgoes hlast).2
    | unreadable e =>
      have hxd : x = NextRecord.unreadable e := hrec
      subst hxd
      exact fun _ _ => ⟨rfl, fun _ heq => absurd heq (by simp)⟩
    | failed e =>
      have hxd : x = NextRecord.failed e := hrec
      subst hxd
      exact fun _ _ => ⟨rfl, fun _ heq => absurd heq (by simp)⟩
    | ended =>
      have hxd : x = NextRecord.ended := hrec
      have hcutting := hcut _ hxd (.inl rfl)
      subst hxd
      exact hret scan hknown₂ (.inr (.inr hcutting))
    | idle =>
      have hxd : x = NextRecord.idle := hrec
      have hcutting := hcut _ hxd (.inr rfl)
      subst hxd
      exact hret scan hknown₂ (.inr (.inr hcutting))

/-! ## The removals -/

/-- Every job that returned removed its record. -/
theorem gone_of_posts {ι : Type} {f : ι → Except ClusterError Done} {jobs : List Job} {rs : List ι}
    (hposts : List.Forall₂ (fun j r => (sweptRules t m).jobPost op t j (f r) v.srv v.log) jobs rs)
    (hok : ∀ r ∈ rs, ∃ d, f r = .ok d) {j : Job} (hj : j ∈ jobs) {x : Bytes × Nat}
    (hx : j.target = some x) : Gone v.srv x.1 x.2 := by
  induction hposts with
  | nil => exact absurd hj (by simp)
  | cons hpost hposts ih =>
    rcases List.mem_cons.1 hj with rfl | hj
    · obtain ⟨d, hd⟩ := hok _ List.mem_cons_self
      exact hpost rfl d hd x hx
    · exact ih (fun r hr => hok r (List.mem_cons_of_mem _ hr)) hj

/-- The removals of a sweep. -/
theorem removeAllDead_gone (kv : NatsKv) {dead : List (Bytes × Nat)}
    (h : ∀ x ∈ dead, x.2 ≤ v.srv.bucket.lastSeq) :
    (sweptRules t m).Safe (kvSystem api) op (.main t)
      (fun js' x v => js' = [] ∧ ∀ a, x = .ok a → ∀ y ∈ dead, Gone v.srv y.1 y.2)
      (removeAllDead kv dead) [] v := by
  unfold removeAllDead
  split
  · induction dead generalizing v with
    | nil => exact fun _ _ => ⟨rfl, by simp⟩
    | cons d dead ih =>
      have hfirst : (sweptRules t m).Safe (kvSystem api) op (.main t) (Removes d.1 d.2 [])
          (removeDead d.1 d.2) [] v := by
        rw [← bind_pure (removeDead d.1 d.2)]
        exact removeDead_gone (h d List.mem_cons_self) trivial
      refine Rules.Safe.bind (p := removeDead d.1 d.2) sweptRules_ordered (watch_since (sweptRules_watches api) hfirst) ?_ ?_
      · rintro u js' v' ⟨⟨rfl, hgone⟩, hv'⟩
        have hrest := ih (v := v') fun x hx =>
          (h x (List.mem_cons_of_mem _ hx)).trans hv'.bucket.1
        refine (watch_since (sweptRules_watches api) hrest).conseq ?_
        rintro js'' x v'' ⟨⟨hjs, hdead⟩, hv''⟩
        refine ⟨hjs, fun a ha y hy => ?_⟩
        rcases List.mem_cons.1 hy with rfl | hy
        · exact (hgone u rfl).mono hv''.bucket
        · exact hdead a ha y hy
      · rintro e js' v' ⟨⟨hjs, -⟩, -⟩
        exact ⟨hjs, fun a ha => absurd ha (by simp)⟩
  · refine Rules.Safe.spawns sweptRules_ordered (fun j hj v' hv' _ => ?_) fun v₁ hv₁ v₂ hv₂ => ?_
    · obtain ⟨d, hd, rfl⟩ := List.mem_map.1 hj
      exact (h d hd).trans hv'.1.bucket.1
    · refine ⟨fun ds hds v₃ hv₃ => ⟨rfl, fun a _ y hy => ?_⟩, fun e _ _ => ?_⟩
      · have hj : Job.removeDead y.1 y.2 ∈ dead.map fun d => Job.removeDead d.1 d.2 :=
          List.mem_map.2 ⟨y, hy, rfl⟩
        exact (gone_of_posts hds (fun d _ => ⟨d, rfl⟩) hj rfl).mono hv₃.1.bucket
      · exact ⟨rfl, fun a ha => absurd ha (by simp)⟩

/-- The first failure of a job is the sweep's. -/
theorem countOutcomes_cases (report : SweepReport) (outcomes : List (Except ClusterError Done)) :
    (∃ e, countOutcomes report outcomes = .fail e) ∨
      ∃ report', countOutcomes report outcomes = .ret report' ∧ ∀ r ∈ outcomes, ∃ d, r = .ok d := by
  induction outcomes generalizing report with
  | nil => exact .inr ⟨report, rfl, by simp⟩
  | cons outcome outcomes ih =>
    cases outcome with
    | error e => exact .inl ⟨e, rfl⟩
    | ok d =>
      rw [countOutcomes]
      refine (ih (report.count d.outcome)).imp_right ?_
      rintro ⟨report', hret, hall⟩
      refine ⟨report', hret, fun r hr => ?_⟩
      rcases List.mem_cons.1 hr with rfl | hr
      · exact ⟨d, rfl⟩
      · exact hall r hr

/-! ## The whole sweep -/

/-- **A sweep removes a record that is due**, unless its stream is cut short. -/
theorem sweep_removes (kv : NatsKv) {grace : Duration} (fuel : Nat)
    (hseq : m.seq ≤ v.srv.bucket.lastSeq)
    (hdue : Due grace v.srv.now m.body.headers m.body.published) :
    (sweptRules t m).Safe (kvSystem api) op (.main t)
      (fun _ x v => ∀ a, x = .ok a → Absent m v.srv ∨ ∃ e ∈ v.log, cuts t e = true)
      (sweep kv grace fuel) [] v := by
  have hmatches : subjectMatches everything m.subject = true := subjectMatches_everything m.subject
  refine watch_recordConsumer (sweptRules_watches api) (fun v₁ hv₁ hpending v₂ hv₂ _ _ => ?_) (fun v₁ hv₁ hloc => ?_)
    fun e v' _ h => absurd h (by simp)
  · -- the bucket was empty
    have habsent : Absent m v₁.srv := by
      refine ⟨hseq.trans hv₁.bucket.1, fun hlast => ?_⟩
      have hlt := SubjectLog.pending_eq_zero.1 hpending m (SubjectLog.mem_of_last hlast) hmatches
      have hpos := SubjectLog.seq_pos_of_last hlast
      omega
    exact .inl (habsent.mono hv₂.1.bucket)
  · refine watch_req (sweptRules_watches api) (r := .systemTime) fun v₂ mode time v₃ hv₂ hx _ hlater => ?_
    obtain ⟨htime, hrest⟩ := Prod.mk.inj (Option.some.inj hx)
    obtain ⟨hsrv, hloc₃⟩ := Prod.mk.inj hrest
    have hclock : v.srv.now ≤ unixSecs time := by
      rw [← htime]
      exact UInt64.le_trans hv₁.clock hv₂.1.clock
    have hseq₃ : m.seq ≤ v₃.srv.bucket.lastSeq :=
      (hseq.trans (hv₁.trans hv₂.1).bucket.1).trans hlater.bucket.1
    have hseen : BufferSeen v₃.srv v₃.loc := by
      rw [← hsrv, ← hloc₃]
      refine hv₂.2.1 fun c hc d hd => ?_
      cases Option.some.inj (hloc.symm.trans hc)
      exact absurd hd (by simp)
    have hup : Upcoming m v₃ := by
      have hup₁ : Upcoming m v₁ := by
        intro hlast
        rw [hloc]
        exact .opened hmatches hlast (SubjectLog.seq_pos_of_last hlast)
      have hup₂ := hv₂.2.2 (hseq.trans hv₁.bucket.1) hup₁
      unfold Upcoming at hup₂ ⊢
      rwa [hsrv, hloc₃] at hup₂
    refine Rules.Safe.bind (p := sweepScan grace (unixSecs time) fuel {}) sweptRules_ordered
      (watch_since (sweptRules_watches api) (sweepScan_collects fuel hseen hseq₃
      (hdue.mono hclock) (scanKnown_nil v₃) (.inr hup))) ?_ ?_
    · rintro scan js' v₄ ⟨⟨rfl, hend⟩, hv₄⟩
      obtain ⟨hknown, hor⟩ := hend scan rfl
      refine Rules.Safe.bind sweptRules_ordered (watch_since (sweptRules_watches api) (removeAllDead_gone kv hknown.dead)) ?_ ?_
      · rintro u js' v₅ ⟨⟨rfl, hdead⟩, hv₅⟩
        refine Rules.Safe.spawns sweptRules_ordered (fun j hj v' hv' _ => ?_) fun v₆ hv₆ v₇ hv₇ rs hrs => ?_
        · obtain ⟨l, hl, rfl⟩ := List.mem_map.1 hj
          exact (hknown.legacy l hl).mono (hv₅.trans hv'.1).bucket
        · have hv₇' := hv₆.1.trans hv₇.1
          rcases countOutcomes_cases scan.report rs with ⟨e, he⟩ | ⟨report, hret, hall⟩
          · rw [he]
            exact fun _ _ _ h => absurd h (by simp)
          · rw [hret]
            intro v₈ hv₈ _ _
            rcases hor with (hcollected | hcollected) | habsent | ⟨e, he, hcut⟩
            · have hgone := hdead u rfl _ hcollected
              exact .inl (hgone.absent.mono (hv₇'.trans hv₈.1).bucket)
            · have hj : Job.settleLegacy m.subject m.seq ∈
                  scan.legacy.map fun l => Job.settleLegacy l.1 l.2 := List.mem_map.2 ⟨_, hcollected, rfl⟩
              have hgone := gone_of_posts hrs hall hj rfl
              exact .inl (hgone.absent.mono hv₈.1.bucket)
            · exact .inl (habsent.mono ((hv₅.trans hv₇').trans hv₈.1).bucket)
            · exact .inr ⟨e, ((hv₅.trans hv₇').trans hv₈.1).log.subset he, hcut⟩
      · rintro e js' v' - _ h
        exact absurd h (by simp)
    · rintro e js' v' - _ h
      exact absurd h (by simp)

end Programs

/-! ## Every run -/

/-- What the sweep of thread `t` ends with. -/
def SweptBy (t : Nat) (m : StoredMessage) (u : Nat) (_ : Op) (x : Except ClusterError Reply)
    (v : KvView) : Prop :=
  u = t → ∀ a, x = .ok a → Absent m v.srv ∨ ∃ e ∈ v.log, cuts t e = true

/-- **No due record outlives a sweep.**  Whatever ran before a sweep and runs
beside it, and however the backend behaves: once the sweep returned a report,
the bucket holds no record that it held when the sweep started and that was due
then, unless the sweep's stream was cut short. -/
theorem sweep_completes (api : CounterApi) (s₀ : Server) (before after : List KvChoice) (kv : NatsKv)
    (grace : Duration) (fuel : Nat) (w₀ w : KvWorld)
    (hbefore : World.run (kvSystem api) (KvWorld.start s₀) before = some w₀)
    (hrun : World.run (kvSystem api) w₀ (.start (.sweep kv grace fuel) :: after) = some w)
    (th : KvThread) (hth : w.threads[w₀.threads.length]? = some th) (report : SweepReport)
    (hret : th.main = .ret (.report report))
    (hwhole : ∀ e ∈ w.log, cuts w₀.threads.length e = false) (m : StoredMessage)
    (hm : m ∈ w₀.srv.bucket.records)
    (hdue : Due grace w₀.srv.now m.body.headers m.body.published) : m ∉ w.srv.bucket.records := by
  have hfree : ∀ u op (p : Kv Reply) v, u ≠ w₀.threads.length →
      (sweptRules w₀.threads.length m).Safe (kvSystem api) op (.main u)
        (fun _ => SweptBy w₀.threads.length m u op) p [] v := by
    intro u op p v hu
    refine Rules.safe_of_free (fun _ _ _ h => absurd h hu) (fun _ _ _ => trivial) ?_ p [] v
    exact fun j s log h => absurd h hu
  have hcall : ∀ p, (kvSystem api).call w₀.threads (.sweep kv grace fuel) = some p →
      (sweptRules w₀.threads.length m).Safe (kvSystem api) (.sweep kv grace fuel) (.main w₀.threads.length)
        (fun _ => SweptBy w₀.threads.length m w₀.threads.length (.sweep kv grace fuel)) p []
        ⟨w₀.srv, w₀.log, none⟩ := by
    intro p hp
    cases Option.some.inj hp
    refine (sweep_removes kv fuel (w₀.srv.bucket.bounded m hm).2 hdue).map ?_
    intro js x v hend _ a ha
    cases x with
    | error e => exact absurd ha (by simp [Except.map])
    | ok report => exact hend report rfl
  have hpool := Rules.PoolSafe.single (sweptRules_sound api w₀.threads.length m) (fun _ => trivial) hfree
    hbefore hcall hrun
  have hend := hpool.post (sweptRules_sound api _ m) hth (x := .ok (.report report))
    (by rw [hret]; rfl) rfl _ rfl
  rcases hend with habsent | ⟨e, he, hcut⟩
  · exact fun hmem => habsent.2 (SubjectLog.last_of_mem hmem)
  · rw [hwhole e he] at hcut
    exact absurd hcut (by simp)

/-- A record that expired, and a bucket that holds it. -/
def staleRecord : StoredMessage :=
  ⟨encodeKey "k", 1, [(expiresHeader, renderU64 5)], encodeValue [1] (some 5), 0⟩

def dueServer : Server :=
  ⟨SubjectLog.empty.store staleRecord.subject staleRecord.body, 9000000000, true, true⟩

/-- A sweep of it; the key is put again once the scan found the record. -/
def sweepBesidePut : List KvChoice :=
  [.act (.main 0) .ok, .act (.main 0) .ok, .act (.main 0) .ok, .deliver 0, .act (.main 0) .ok,
    .start (.put "k" [2] none), .act (.main 1) .ok, .act (.main 1) .ok, .act (.main 0) .ok,
    .act (.job 0 0) .ok, .act (.job 0 0) .ok, .act (.job 0 0) .ok, .act (.job 0 0) .ok,
    .act (.main 0) .ok, .act (.main 0) .ok]

theorem sweep_completes_beside_put :
    ∃ w ∈ World.run (kvSystem decimalCounters) (KvWorld.start dueServer)
        (.start (.sweep ⟨false⟩ (.fromSecs 60) 2) :: sweepBesidePut),
      staleRecord ∉ w.srv.bucket.records ∧ w.srv.Live "k" := by
  have hrun : ∃ w ∈ World.run (kvSystem decimalCounters) (KvWorld.start dueServer)
        (.start (.sweep ⟨false⟩ (.fromSecs 60) 2) :: sweepBesidePut),
      (∀ e ∈ w.log, cuts 0 e = false) ∧ w.srv.Live "k" ∧ ∃ th, w.threads[0]? = some th ∧
        th.main.result? = some (.ok (.report ⟨1, 1, 0, 0⟩)) := by
    decide +kernel
  obtain ⟨w, hw, hwhole, hlive, th, hth, hret⟩ := hrun
  refine ⟨w, hw, ?_, hlive⟩
  rcases Prog.result?_eq_some.1 hret with ⟨a, ha, heq⟩ | ⟨e, he, heq⟩
  · cases Except.ok.inj heq
    exact sweep_completes decimalCounters dueServer [] sweepBesidePut ⟨false⟩ (.fromSecs 60) 2
      (KvWorld.start dueServer) w rfl hw th hth _ ha hwhole staleRecord
      (by decide +kernel) (by decide +kernel)
  · cases heq

end ClusterNats
