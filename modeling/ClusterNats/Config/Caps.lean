import ClusterNats.Conc.Single
import ClusterNats.Config.Ensure

/-!
# Byte caps only grow

Two nodes that raise one cap read it and write it back beside each other, so the
smaller of two raises can come last.  But no node writes a cap that is not above
one the bucket had, so no cap falls below the cap the bucket had at first.

* `Grown`, `Allowed`, `Caps` — what may become of a bucket's configuration.
* `bootRules`, `Cautious` — the agreement of the nodes, and a program that keeps it.
* `cautious_ensureKvBucket`, `cautious_program` — the nodes keep it.
* `caps_never_shrink` — **no cap falls below where it was**.
-/

namespace ClusterNats.Config

open Conc

/-- What may have become of a bucket's configuration, where `asked` says which caps
the nodes ask for. -/
structure Grown (asked : String → Int → Prop) (config config' : StreamConfig) : Prop where
  bucket : config'.bucket = config.bucket
  replicas : config'.numReplicas = config.numReplicas
  storage : config'.storage = config.storage
  cap : config'.maxBytes = config.maxBytes ∨
    0 ≤ config.maxBytes ∧ config.maxBytes < config'.maxBytes ∧ asked config.bucket config'.maxBytes

section Caps

variable (asked : String → Int → Prop) (s₀ : JetStream)

/-- A configuration of bucket `name`: grown from the one it had at first, or of a
bucket that was created since. -/
structure Allowed (name : String) (config : StreamConfig) : Prop where
  bucket : config.bucket = name
  since : (∃ config₀, s₀ name = some config₀ ∧ Grown asked config₀ config) ∨
    s₀ name = none ∧ asked name config.maxBytes

/-- Every bucket is as it may be, and none went away. -/
structure Caps (s : JetStream) : Prop where
  allowed : ∀ name config, s name = some config → Allowed asked s₀ name config
  stays : ∀ name, s₀ name ≠ none → s name ≠ none

/-- What a node owes at a request. -/
def BucketReq.Owed : BucketReq → Prop
  | .getKeyValue _ => True
  | .createKeyValue config => asked config.bucket config.maxBytes
  | .updateStream config => Allowed asked s₀ config.bucket config

/-- The agreement of the nodes. -/
def bootRules : Rules bucketSig JetStream Unit Mode BootOp where
  rely v v' := Caps asked s₀ v.srv → Caps asked s₀ v'.srv
  allowed _ := True
  guar _ _ _ _ r := r.Owed asked s₀
  jobPre _ _ _ _ _ := True
  jobPost _ _ _ _ _ _ := True

end Caps

section Nodes

variable {asked : String → Int → Prop} {s₀ s s' : JetStream} {m : Mode} {l l' : Unit} {name : String}
  {config : StreamConfig} {α β : Type}

/-! ## Requests -/

/-- A bucket that was read exists so. -/
theorem serve_getKeyValue {store : StreamConfig}
    (h : JetStream.serve m s l (.getKeyValue name) = some (Except.ok store, s', l')) :
    s name = some store := by
  have hread : (readOnly m (s name)).map (fun x =>
      (x.bind fun o => o.elim (.error "stream not found") .ok, s, ())) = some (Except.ok store, s', l') := h
  obtain ⟨y, hy, heq⟩ := Option.map_eq_some_iff.1 hread
  have hfound : (y.bind fun o => o.elim (.error "stream not found") .ok) = .ok store :=
    congrArg (fun z => z.1) heq
  cases m with
  | ok =>
    obtain rfl := Option.some.inj hy
    cases hget : s name with
    | none => simp [hget, Except.bind] at hfound
    | some config => simpa [hget, Except.bind] using hfound
  | fail reason =>
    obtain rfl := Option.some.inj hy
    simp [Except.bind] at hfound
  | lost reason =>
    obtain rfl := Option.some.inj hy
    simp [Except.bind] at hfound
  | _ => exact absurd hy (by simp [readOnly])

theorem Caps.update (h : Caps asked s₀ s) (hconfig : Allowed asked s₀ config.bucket config) :
    Caps asked s₀ (Function.update s config.bucket (some config)) where
  allowed name' config' hget := by
    by_cases hname : name' = config.bucket
    · subst hname
      rw [Function.update_self] at hget
      exact Option.some.inj hget ▸ hconfig
    · rw [Function.update_of_ne hname] at hget
      exact h.allowed name' config' hget
  stays name' hname' := by
    by_cases hname : name' = config.bucket
    · subst hname
      simp
    · rw [Function.update_of_ne hname]
      exact h.stays name' hname'

theorem carryOut_state {x y : Except String Unit} {t : JetStream}
    (h : carryOut m s s' x = some (y, t, l)) : t = s ∨ t = s' := by
  cases m with
  | ok => exact .inr (congrArg (fun z => z.2.1) (Option.some.inj h)).symm
  | fail reason => exact .inl (congrArg (fun z => z.2.1) (Option.some.inj h)).symm
  | lost reason => exact .inr (congrArg (fun z => z.2.1) (Option.some.inj h)).symm
  | _ => exact absurd h (by simp [carryOut])

/-- **A request that was owed keeps the caps.** -/
theorem Caps.serve {r : BucketReq} {x : BucketResp r} (h : Caps asked s₀ s) (howed : r.Owed asked s₀)
    (hserve : JetStream.serve m s l r = some (x, s', l')) : Caps asked s₀ s' := by
  cases r with
  | getKeyValue name =>
    obtain ⟨y, -, heq⟩ := Option.map_eq_some_iff.1 hserve
    cases heq
    exact h
  | createKeyValue config =>
    simp only [JetStream.serve] at hserve
    cases hget : s config.bucket with
    | none =>
      rw [hget] at hserve
      rcases carryOut_state hserve with rfl | rfl
      · exact h
      · have hfirst : s₀ config.bucket = none := by
          by_contra hne
          exact h.stays _ hne hget
        exact h.update ⟨rfl, .inr ⟨hfirst, howed⟩⟩
    | some config' =>
      rw [hget] at hserve
      rcases carryOut_state hserve with rfl | rfl <;> exact h
  | updateStream config =>
    simp only [JetStream.serve] at hserve
    cases hget : s config.bucket with
    | none =>
      rw [hget] at hserve
      rcases carryOut_state hserve with rfl | rfl <;> exact h
    | some config' =>
      rw [hget] at hserve
      rcases carryOut_state hserve with rfl | rfl
      · exact h
      · exact h.update howed

theorem bootRules_sound : (bootRules asked s₀).Sound bootSystem where
  refl _ := id
  trans h h' hv := h' (h hv)
  other := fun {op who m s l log r x s' l'} _ howed hserve _ h => h.serve (l := l) howed hserve
  env := fun {v} => v.elim
  deliver := fun h => absurd h (by simp [bootSystem])
  job := fun {op t i j s log} _ => j.elim

/-! ## Programs -/

/-- A program that keeps the caps, wherever it starts. -/
def Cautious (asked : String → Int → Prop) (s₀ : JetStream) (p : Boot α) : Prop :=
  ∀ op who js v, Caps asked s₀ v.srv →
    (bootRules asked s₀).Safe bootSystem op who (fun _ _ v' => Caps asked s₀ v'.srv) p js v

theorem cautious_ret (a : α) : Cautious asked s₀ (.ret a) := fun _ _ _ _ hv _ hrely => hrely hv

theorem cautious_fail (e : ClusterError) : Cautious asked s₀ (.fail e : Boot α) :=
  fun _ _ _ _ hv _ hrely => hrely hv

theorem Cautious.bind {p : Boot α} {f : α → Boot β} (hp : Cautious asked s₀ p)
    (hf : ∀ a, Cautious asked s₀ (f a)) : Cautious asked s₀ (p >>= f) :=
  fun op who js v hv => Rules.Safe.bind bootRules_sound.toOrdered (hp op who js v hv)
    (fun a js' v' hv' => hf a op who js' v' hv') fun _ _ _ hv' => hv'

/-- One request: what a node makes of the answer may depend on what it says of the
caps. -/
theorem cautious_req {r : BucketReq} {k : BucketResp r → Boot α} (howed : r.Owed asked s₀)
    (hk : ∀ m s s' x, Caps asked s₀ s → JetStream.serve m s () r = some (x, s', ()) →
      Cautious asked s₀ (k x)) : Cautious asked s₀ (.req r k) := by
  intro op who js v hv v₁ hrely
  have hcaps := hrely hv
  refine ⟨howed, fun m x s' l' _ hserve => ?_⟩
  exact hk m v₁.srv s' x hcaps hserve op who js _ (hcaps.serve (l := v₁.loc) howed hserve)

/-- A node grows a cap it read. -/
theorem cautious_growBucket {store : StreamConfig} {maxBytes : Int} (hasked : asked name maxBytes)
    (hstore : Allowed asked s₀ name store) : Cautious asked s₀ (growBucket store maxBytes) := by
  unfold growBucket
  split
  · exact cautious_ret ()
  · rename_i hgrows
    have hcap : 0 ≤ store.maxBytes ∧ store.maxBytes < maxBytes := by omega
    refine cautious_req ?_ fun _ _ _ _ _ _ => cautious_ret ()
    obtain rfl := hstore.bucket
    refine ⟨rfl, hstore.since.imp ?_ fun h => ⟨h.1, hasked⟩⟩
    rintro ⟨config₀, hfirst, hgrown⟩
    refine ⟨config₀, hfirst, hgrown.bucket, hgrown.replicas, hgrown.storage, .inr ?_⟩
    have hasked' : asked config₀.bucket maxBytes := hgrown.bucket ▸ hasked
    rcases hgrown.cap with hsame | ⟨hfinite, hless, -⟩
    · exact ⟨by omega, by simpa [← hsame] using hcap.2, hasked'⟩
    · exact ⟨hfinite, Int.lt_trans hless hcap.2, hasked'⟩

theorem cautious_createKvBucket {replicas : UInt32} {maxBytes : Int} {storage : KvStorage}
    (hasked : asked name maxBytes) : Cautious asked s₀ (createKvBucket name replicas maxBytes storage) := by
  have hdone : ∀ (f : String → ClusterError) (y : Except String Unit),
      Cautious asked s₀ (Prog.ofExcept f y : Boot Unit) := by
    intro f y
    cases y with
    | ok u => exact cautious_ret u
    | error e => exact cautious_fail (f e)
  refine cautious_req hasked fun m s s' (x : Except String Unit) _ _ => ?_
  cases x with
  | ok u => exact cautious_ret ()
  | error e =>
    dsimp only
    split
    · exact cautious_req hasked fun _ _ _ y _ _ => hdone _ y
    · exact cautious_fail _

/-- **A node that ensures a bucket keeps the caps.** -/
theorem cautious_ensureKvBucket {replicas : UInt32} {maxBytes : Int} {storage : KvStorage}
    (hasked : asked name maxBytes) : Cautious asked s₀ (ensureKvBucket name replicas maxBytes storage) := by
  refine cautious_req trivial fun m s s' (x : Except String StreamConfig) hcaps hserve => ?_
  cases x with
  | error e => exact cautious_createKvBucket hasked
  | ok store =>
    refine cautious_growBucket hasked (hcaps.allowed name store ?_)
    exact serve_getKeyValue hserve

theorem cautious_program {op : BootOp} (hasked : ∀ p ∈ op.asks, asked p.1 p.2) :
    Cautious asked s₀ op.program := by
  cases op with
  | connect js storage =>
    have hleases := hasked (js.leasesBucket, 1024 * 1024) (by simp [BootOp.asks])
    have hfencing := hasked (js.fencingBucket, 64 * 1024) (by simp [BootOp.asks])
    have hstate := hasked (js.stateBucket, capOf js.stateBucketMaxBytes) (by simp [BootOp.asks])
    refine (cautious_ensureKvBucket hleases).bind fun _ => ?_
    exact (cautious_ensureKvBucket hfencing).bind fun _ => cautious_ensureKvBucket hstate
  | namedBucket js storage name =>
    exact cautious_ensureKvBucket (hasked _ List.mem_cons_self)

/-! ## Runs -/

/-- **No cap falls below where it was.**  Whatever nodes connect and open buckets by
name, in whatever interleaving and however the server answers: a bucket that
existed keeps its replicas and its storage, an unlimited one stays so, and its
cap is what it was or one above it that some node asks for; a bucket created
since has a cap that some node asks for. -/
theorem caps_never_shrink (s₀ : JetStream)
    (h₀ : ∀ name config, s₀ name = some config → config.bucket = name)
    (asked : String → Int → Prop) (cs : List BootChoice)
    (hasked : ∀ op, .start op ∈ cs → ∀ p ∈ op.asks, asked p.1 p.2) (w : BootWorld)
    (hrun : World.run bootSystem (BootWorld.start s₀) cs = some w) (name : String) :
    (∀ config₀, s₀ name = some config₀ →
      ∃ config, w.srv name = some config ∧ Grown asked config₀ config) ∧
    (s₀ name = none → ∀ config, w.srv name = some config →
      config.bucket = name ∧ asked name config.maxBytes) := by
  have hstart : Caps asked s₀ s₀ :=
    ⟨fun name config hget => ⟨h₀ name config hget, .inl ⟨config, hget, rfl, rfl, rfl, .inl rfl⟩⟩,
      fun _ h => h⟩
  have hinv : (bootRules asked s₀).PoolSafe bootSystem (fun _ _ _ _ => True) w ∧ Caps asked s₀ w.srv := by
    refine World.run_induction (P := fun w => (bootRules asked s₀).PoolSafe bootSystem
      (fun _ _ _ _ => True) w ∧ Caps asked s₀ w.srv) ⟨.nil rfl, hstart⟩ hrun ?_
    rintro w₁ c w₂ hc ⟨hpool, hcaps⟩ hs
    have hok : (bootRules asked s₀).ChoiceOk bootSystem (fun _ _ _ _ => True) w₁ c := by
      cases c with
      | start op =>
        intro p hp
        cases Option.some.inj hp
        exact (cautious_program (hasked op hc) op _ [] _ hcaps).conseq fun _ _ _ _ => trivial
      | _ => trivial
    obtain ⟨hpool', hwithin⟩ := hpool.step bootRules_sound hok hs
    exact ⟨hpool', hwithin () hcaps⟩
  refine ⟨fun config₀ hfirst => ?_, fun hfirst config hget => ?_⟩
  · obtain ⟨config, hget⟩ := Option.ne_none_iff_exists'.1 (hinv.2.stays name (by simp [hfirst]))
    refine ⟨config, hget, ?_⟩
    rcases (hinv.2.allowed name config hget).since with ⟨config₁, hfirst', hgrown⟩ | ⟨hnone, -⟩
    · cases Option.some.inj (hfirst.symm.trans hfirst')
      exact hgrown
    · exact absurd (hfirst.symm.trans hnone) (by simp)
  · obtain ⟨hbucket, hsince⟩ := hinv.2.allowed name config hget
    rcases hsince with ⟨config₁, hfirst', -⟩ | ⟨-, hcap⟩
    · exact absurd (hfirst.symm.trans hfirst') (by simp)
    · exact ⟨hbucket, hcap⟩

/-- Two nodes raise the cap of one bucket, and the smaller raise comes last. -/
def twoRaises : List BootChoice :=
  let node (bytes : UInt64) : BootOp := .namedBucket { namedBucketMaxBytes := bytes } .file "jobs"
  [.start (node 20), .start (node 30), .act (.main 0) .ok, .act (.main 1) .ok, .act (.main 1) .ok,
    .act (.main 0) .ok]

theorem caps_never_shrink_raises :
    ∃ w ∈ World.run bootSystem (BootWorld.start fun name =>
        if name = "mcpg-state-jobs" then some ⟨name, 10, 1, .file⟩ else none) twoRaises,
      (w.srv "mcpg-state-jobs").map StreamConfig.maxBytes = some 20 ∧
        ∃ config, w.srv "mcpg-state-jobs" = some config ∧
          Grown (fun _ cap => cap = 20 ∨ cap = 30) ⟨"mcpg-state-jobs", 10, 1, .file⟩ config := by
  have hrun : ∃ w ∈ World.run bootSystem (BootWorld.start fun name =>
      if name = "mcpg-state-jobs" then some ⟨name, 10, 1, .file⟩ else none) twoRaises,
        (w.srv "mcpg-state-jobs").map StreamConfig.maxBytes = some 20 := by
    decide +kernel
  obtain ⟨w, hw, hcap⟩ := hrun
  have hnames : ∀ (name : String) (config : StreamConfig), (if name = "mcpg-state-jobs" then
      some ⟨name, 10, 1, .file⟩ else none) = some config → config.bucket = name := by
    intro name config h
    split at h
    · cases h
      rfl
    · cases h
  have hasked : ∀ op, Choice.start op ∈ twoRaises → ∀ p ∈ op.asks, p.2 = 20 ∨ p.2 = 30 := by
    intro op hop p hp
    simp only [twoRaises, List.mem_cons, Choice.start.injEq, reduceCtorEq, List.not_mem_nil, or_false] at hop
    rcases hop with rfl | rfl
    · cases List.mem_singleton.1 hp
      exact .inl (by decide)
    · cases List.mem_singleton.1 hp
      exact .inr (by decide)
  exact ⟨w, hw, hcap, (caps_never_shrink _ hnames (fun _ cap => cap = 20 ∨ cap = 30) twoRaises hasked w hw
    "mcpg-state-jobs").1 _ rfl⟩

end Nodes

end ClusterNats.Config
