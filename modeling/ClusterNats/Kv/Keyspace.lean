import ClusterNats.Kv.Invisible
import ClusterNats.Kv.Subjects

/-!
# The records of a bucket stay what they are

A bucket holds the data record of a key, the index record of a key, or the index
state, each under the subject that its key is escaped to.  The escapes of other
builds or hands would decode as well, so what a reader of subjects takes from
them rests on no call ever writing another subject.

* `Stored`, `Server.Known` — the records a store writes.
* `Req.Stores`, `makes_op` — what every call asks for.
* `keyspaceDuty`, `settleLegacy_stores` — the agreement, and the one job that
  writes a subject it was handed.
* `Stored.decodeKey`, `Stored.dataKey` — a known subject that decodes is the
  escape of its key.
* `records_stay_known` — every run keeps the records known.
-/

namespace ClusterNats

open Conc

/-! ## Known records -/

/-- A record of the store: of the data of a key, of its index, or the index state. -/
inductive Stored (subject : Bytes) (m : Message) : Prop
  | data (key : String) (hsubject : subject = encodeKey key) (kind : RecordKind m)
  | upkeep (hsubject : IsIndexSubject subject)

/-- Every record of the bucket is one the store knows. -/
def Server.Known (s : Server) : Prop := ∀ m ∈ s.bucket.records, Stored m.subject m.body

theorem Stored.kind {key : String} {m : Message} (h : Stored (encodeKey key) m) : RecordKind m := by
  cases h with
  | data key' hsubject kind => exact kind
  | upkeep hsubject =>
    rcases hsubject with hstate | ⟨key', hindex⟩
    · exact absurd hstate (encodeKey_ne_indexStateKey key)
    · exact absurd hindex (encodeKey_ne_indexKey key key')

theorem Server.Known.wellFormed {s : Server} (h : s.Known) : s.WellFormed := by
  intro key m hm
  have hstored := h m (SubjectLog.mem_of_last hm)
  rw [SubjectLog.subject_of_last hm] at hstored
  exact hstored.kind

/-- A subject that decodes is the escape of its key. -/
theorem Stored.decodeKey {subject : Bytes} {m : Message} (h : Stored subject m) {key : String}
    (hkey : ClusterNats.decodeKey subject = some key) : subject = encodeKey key := by
  cases h with
  | data key' hsubject kind =>
    rw [hsubject, decodeKey_encodeKey] at hkey
    rw [hsubject, Option.some.inj hkey]
  | upkeep hsubject =>
    rw [hsubject.decodeKey] at hkey
    exact absurd hkey (by simp)

theorem Stored.dataKey {subject : Bytes} {m : Message} (h : Stored subject m) {key : String}
    (hkey : ClusterNats.dataKey subject = some key) : subject = indexKey key := by
  cases h with
  | data key' hsubject kind =>
    rw [hsubject, dataKey_encodeKey] at hkey
    exact absurd hkey (by simp)
  | upkeep hsubject => exact hsubject.dataKey hkey

/-! ## What a call writes -/

/-- A request that stores known records only. -/
def Req.Stores : Req → Prop
  | .publish subject headers payload _ => ∀ t, Stored subject ⟨headers, payload, t⟩
  | _ => True

theorem stores_of_read (r : Req) (h : r.isWrite = false) : r.Stores := by
  cases r <;> trivial

/-- The calls on a key store known records. -/
theorem asksOf_stores (key : String) : AsksOf key Req.Stores where
  read := stores_of_read
  value value exp _ _ := .data key rfl (.current value exp rfl rfl)
  index _ _ _ _ := .upkeep (.inr ⟨key, rfl⟩)
  marker _ := .data key rfl (.clientMarker (.inl rfl))
  purge _ := trivial

/-- A request that stores known records keeps the bucket known. -/
theorem Server.Known.effect {s : Server} (h : s.Known) {r : Req} (hr : r.Stores) :
    (r.effect s).Known := by
  intro m hm
  cases r with
  | publish subject headers payload expected =>
    rcases publish_cases s subject headers payload expected with ⟨-, heq⟩ | ⟨-, heq⟩
    · rw [Req.effect, heq] at hm
      rcases List.mem_append.1 hm with hm | hm
      · exact h m (List.mem_of_mem_filter hm)
      · rw [List.mem_singleton.1 hm]
        exact hr s.clock
    · rw [Req.effect, heq] at hm
      exact h m hm
  | purge subject keep => exact h m (List.mem_of_mem_filter hm)
  | _ => exact h m hm

theorem makes_spawnAll {α : Type} {P : Req → Prop} {cap : Nat} {jobs : List Job} {k : Kv α}
    (hk : k.Makes P fun _ => True) : (spawnAll cap jobs k).Makes P fun _ => True :=
  .spawns (fun _ _ => trivial) hk

theorem makes_sweepScan {P : Req → Prop} (hP : ∀ r, r.isWrite = false → P r) (grace : Duration)
    (now : UInt64) (fuel : Nat) (scan : SweepScan) : (sweepScan grace now fuel scan).Requests P := by
  induction fuel generalizing scan with
  | zero => trivial
  | succ fuel ih =>
    refine ⟨hP _ rfl, fun x => ?_⟩
    dsimp only
    split
    · split
      · trivial
      · exact ih _
    all_goals trivial

/-! ## The agreement -/

/-- What every call keeps: the records of the bucket are known. -/
def keyspaceDuty : Duty where
  inv := Server.Known
  allowed _ := True
  write _ _ _ _ r := r.Stores
  jobPre _ _ _ _ _ := True
  jobPost _ _ _ _ _ _ := True

theorem keyspaceDuty_steady : keyspaceDuty.Steady where
  write hw _ h := Server.Known.effect h hw
  env henv h m hm := h m ((env_later henv).1 ▸ hm)

section Programs

variable {api : CounterApi} {op : Op} {who : Actor} {js : List Job} {v : KvView}

/-- Checked, and the jobs started so far stay the same. -/
abbrev KnownSafe (api : CounterApi) (op : Op) (who : Actor) {α : Type} (p : Kv α) (js : List Job)
    (v : KvView) : Prop :=
  keyspaceDuty.rules.Safe (kvSystem api) op who (fun js' _ _ => js' = js) p js v

theorem stores_guar (s : Server) (log : List KvEvent) (r : Req) (h : r.Stores) :
    keyspaceDuty.rules.guar op who s log r := fun _ => h

theorem removeDead_stores (subject : Bytes) (sequence : Nat) :
    (removeDead subject sequence).Requests Req.Stores := by
  have hindex : ∀ key, AsksIndex key Req.Stores := fun key => (asksOf_stores key).upkeep
  have hpurge : (purgeThrough subject sequence).Requests Req.Stores :=
    ⟨trivial, fun _ => Prog.Requests.ofExcept⟩
  unfold removeDead
  split
  · refine hpurge.bind fun _ => ?_
    split
    · exact requests_reindexIfLive (hindex _)
    · trivial
  · split
    · exact hpurge
    · refine (requests_purgeIndex (hindex _)).bind fun _ => hpurge.bind fun _ => ?_
      exact requests_reindexIfLive (hindex _)

theorem makes_removeAllDead (kv : NatsKv) (dead : List (Bytes × Nat)) :
    (removeAllDead kv dead).Makes Req.Stores fun _ => True := by
  unfold removeAllDead
  split
  · induction dead with
    | nil => trivial
    | cons d dead ih =>
      exact Prog.Makes.bind (p := removeDead d.1 d.2) (removeDead_stores d.1 d.2).makes fun _ => ih
  · refine makes_spawnAll fun r => ?_
    cases r <;> trivial

/-- An older build's record is rewritten under its own subject. -/
theorem settleLegacy_stores {encoded : Bytes} {seq : Nat} (hv : keyspaceDuty.Good v) :
    KnownSafe api op who (settleLegacy encoded seq) js v := by
  refine safe_lastRecord keyspaceDuty_steady (fun v₁ v₂ hv₁ hsrv hv₂ _ => ?_)
    fun e v' _ => safe_fail fun _ _ => rfl
  simp only [orUnavailable, Prog.ofExcept_ok, Prog.ret_bind]
  cases hread : ((v₁.srv.bucket.last encoded).map Record.ofMessage).filter
    fun r => r.revision = seq ∧ r.operation = .put with
  | none => exact fun _ _ => rfl
  | some record =>
    obtain ⟨hlast, -⟩ := Option.filter_eq_some_iff.1 hread
    obtain ⟨m, hm, rfl⟩ := Option.map_eq_some_iff.1 hlast
    -- the subject was one of the store's, so the rewrite is a record of it
    have hstored : Stored encoded m.body := by
      have hknown := (hv₁.2 hv).1 m (SubjectLog.mem_of_last hm)
      rwa [SubjectLog.subject_of_last hm] at hknown
    have hrewrite : ∀ value exp expected, Req.Stores (.publish encoded
        [(expiresHeader, renderU64 (exp.getD 0))] (encodeValue value exp) expected) := by
      intro value exp expected t
      cases hstored with
      | data key hsubject kind => exact .data key hsubject (.current value exp rfl rfl)
      | upkeep hsubject => exact .upkeep hsubject
    have hrest : ∀ (p : Kv LegacyOutcome) (v' : KvView), p.Requests Req.Stores →
        KnownSafe api op who p js v' := fun p v' hp => Rules.safe_of_requests hp stores_guar js v'
    refine hrest _ v₂ ((requests_isExpired stores_of_read _).bind fun expired => ?_)
    split
    · exact (removeDead_stores encoded seq).bind fun _ => trivial
    · refine (requests_write (hrewrite _ _ _)).bind fun written => ?_
      split
      · split
        · exact (requests_writeIndex (asksOf_stores _).upkeep).bind fun _ => trivial
        · trivial
      · trivial
      · trivial

/-- The jobs keep the records known. -/
theorem keyspaceDuty_kept (api : CounterApi) : keyspaceDuty.Kept api where
  toSteady := keyspaceDuty_steady
  job := by
    intro op t i j s log hinv _
    have hends : ∀ {α : Type} {p : Kv α} {f : α → Done},
        KnownSafe api op (.job t i) p [] ⟨s, log, none⟩ →
        keyspaceDuty.rules.Safe (kvSystem api) op (.job t i)
          (Ends fun r v => keyspaceDuty.jobPost op t j r v.srv v.log) (f <$> p) [] ⟨s, log, none⟩ :=
      fun h => h.map fun _ _ _ hjs => ⟨hjs, trivial⟩
    cases j with
    | removeDead subject seq =>
      exact hends (Rules.safe_of_requests (removeDead_stores subject seq) stores_guar [] _)
    | settleLegacy encoded seq => exact hends (settleLegacy_stores ⟨hinv, bufferSeen_none _⟩)
    | liveEntry key =>
      exact hends (Rules.safe_of_requests (requests_liveEntry stores_of_read key) stores_guar [] _)

/-- Every call asks for known records only. -/
theorem makes_op (api : CounterApi) (op : Op) :
    (op.program api).Makes Req.Stores fun _ => True := by
  cases hkey : op.key? with
  | some key => exact (requests_keyed (asksOf_stores key) api hkey).makes
  | none =>
    cases op with
    | backfillIndex fuel =>
      exact (requests_backfillIndex stores_of_read
        (fun key => requests_publishIndex (asksOf_stores key).upkeep) fuel).map.makes
    | listPage pre cursor limit fuel =>
      exact (makes_listPage stores_of_read pre cursor limit fuel).map.conseq (fun _ h => h)
        fun _ _ => trivial
    | listPass pre limit scanFuel fuel =>
      exact (makes_listPass stores_of_read pre limit scanFuel fuel none).map.conseq (fun _ h => h)
        fun _ _ => trivial
    | sweep kv grace fuel =>
      refine Prog.Makes.map (p := sweep kv grace fuel) ?_
      refine Prog.Makes.bind (requests_recordConsumer stores_of_read _ _ _).makes fun opened => ?_
      split
      · refine Prog.Makes.bind (p := nowUnixSecs) ⟨trivial, fun _ => trivial⟩ fun now => ?_
        refine Prog.Makes.bind (makes_sweepScan stores_of_read grace now fuel {}).makes fun scan => ?_
        exact (makes_removeAllDead kv scan.dead).bind fun _ => makes_spawnAll fun rs =>
          (requests_countOutcomes scan.report rs).makes
      · trivial
    | _ => exact absurd hkey (by simp [Op.key?])

end Programs

/-! ## Every run -/

/-- **The records of a bucket stay what they are.**  From a bucket of known
records, whatever calls run and however the backend behaves, every record in
every reachable state is one the store knows; so a subject that decodes as a
data key, or as an index key, is the one escape of that key, and no two records
decode to one key. -/
theorem records_stay_known (api : CounterApi) (s₀ : Server) (h₀ : s₀.Known) (cs : List KvChoice)
    (w : KvWorld) (hrun : World.run (kvSystem api) (KvWorld.start s₀) cs = some w) :
    w.srv.Known ∧ ∀ m ∈ w.srv.bucket.records, ∀ m' ∈ w.srv.bucket.records, ∀ key,
      (decodeKey m.subject = some key → decodeKey m'.subject = some key → m = m') ∧
      (dataKey m.subject = some key → dataKey m'.subject = some key → m = m') := by
  have hknown : w.srv.Known := by
    have hcall : ∀ t op s log, True → keyspaceDuty.inv s →
        keyspaceDuty.rules.Safe (kvSystem api) op (.main t) (fun _ _ _ => True) (op.program api) []
          ⟨s, log, none⟩ := by
      intro t op s log _ hinv
      exact safe_makes keyspaceDuty_steady stores_guar (fun _ _ _ _ => trivial) (makes_op api op)
        ⟨hinv, bufferSeen_none _⟩
    have hcs : ∀ c ∈ cs, Admits keyspaceDuty.allowed (fun _ => True) c := by
      intro c _
      cases c <;> trivial
    obtain ⟨-, hwithin, -⟩ := Duty.run (Q := fun _ _ _ _ => True) (keyspaceDuty_kept api) hcall h₀ hcs hrun
    exact ((hwithin none).2 ⟨h₀, bufferSeen_none _⟩).1
  refine ⟨hknown, fun m hm m' hm' key => ⟨fun hkey hkey' => ?_, fun hkey hkey' => ?_⟩⟩
  · have hsame : m.subject = m'.subject :=
      ((hknown m hm).decodeKey hkey).trans ((hknown m' hm').decodeKey hkey').symm
    exact List.inj_on_of_nodup_map w.srv.bucket.distinct hm hm' hsame
  · have hsame : m.subject = m'.subject :=
      ((hknown m hm).dataKey hkey).trans ((hknown m' hm').dataKey hkey').symm
    exact List.inj_on_of_nodup_map w.srv.bucket.distinct hm hm' hsame

/-- A counter that is put and deleted, beside a sweep. -/
def countBesideSweep : List KvChoice :=
  [.start (.incr decimalCounters "k" 1 none), .act (.main 0) .ok, .act (.main 0) .ok,
    .start (.sweep ⟨false⟩ (.fromSecs 60) 2), .act (.main 1) .ok, .act (.main 0) .ok,
    .start (.delete "k"), .act (.main 2) .ok, .act (.main 2) (.lost "timed out")]

theorem records_stay_known_beside_sweep :
    ∃ w ∈ World.run (kvSystem decimalCounters) (KvWorld.start emptyServer) countBesideSweep,
      w.srv.bucket.records.length = 2 ∧ w.srv.Known := by
  have hrun : ∃ w ∈ World.run (kvSystem decimalCounters) (KvWorld.start emptyServer) countBesideSweep,
      w.srv.bucket.records.length = 2 := by decide +kernel
  obtain ⟨w, hw, hlength⟩ := hrun
  refine ⟨w, hw, hlength, ?_⟩
  refine (records_stay_known decimalCounters emptyServer (fun m hm => ?_) countBesideSweep w hw).1
  exact absurd hm (by simp [emptyServer, SubjectLog.empty])

end ClusterNats
