import ClusterNats.Config.Validate
import Mathlib.Data.List.Forall2

/-!
# The buckets of a deployment

Leases, fencing counters and capability state live in buckets of their own; a
capability may ask for one more by name.

* `bucketSuffix`, `namedBucket` — the bucket of a capability's name.
* `kv`, `kvs_eq` — what the accessor hands out, call after call.
* `Isolated` — no two of the buckets are one, and no record's subject is in two.
* `Separate`, `buckets_isolated` — when an accepted configuration isolates two
  capabilities from each other and from the coordinator's records.
-/

namespace ClusterNats.Config

/-! ## Names -/

/-- The characters a bucket's name keeps. -/
def keptInName (c : Char) : Bool := c.isAlphanum || c = '-' || c = '_'

/-- A capability's name as it stands in its bucket's. -/
def bucketSuffix (name : String) : String :=
  String.ofList (name.toList.map fun c => if keptInName c then c else '_')

/-- The bucket `named_bucket` opens. -/
def namedBucket (stateBucket name : String) : String := stateBucket ++ "-" ++ bucketSuffix name

/-- The buckets capabilities asked for by name, opened on first use. -/
abbrev NamedBuckets := List (String × String)

/-- The bucket behind `Connected::kv`, and the buckets open after the call. -/
def kv (stateBucket : String) (named : NamedBuckets) : Option String → String × NamedBuckets
  | none => (stateBucket, named)
  | some name =>
    match named.lookup name with
    | some opened => (opened, named)
    | none =>
      let opened := namedBucket stateBucket name
      (opened, (name, opened) :: named)

/-- The buckets of one call after another. -/
def kvs (stateBucket : String) : NamedBuckets → List (Option String) → List String
  | _, [] => []
  | named, bucket :: rest =>
    let (opened, named') := kv stateBucket named bucket
    opened :: kvs stateBucket named' rest

/-- The bucket a call should be handed. -/
def bucketOf (stateBucket : String) : Option String → String
  | none => stateBucket
  | some name => namedBucket stateBucket name

/-- Every bucket that is open is the one its name stands for. -/
def Opened (stateBucket : String) (named : NamedBuckets) : Prop :=
  ∀ name opened, named.lookup name = some opened → opened = namedBucket stateBucket name

theorem kv_fst {stateBucket : String} {named : NamedBuckets} (h : Opened stateBucket named)
    (bucket : Option String) : (kv stateBucket named bucket).1 = bucketOf stateBucket bucket := by
  cases bucket with
  | none => rfl
  | some name =>
    cases hname : named.lookup name with
    | some opened =>
      simp only [kv, hname, bucketOf]
      exact h name opened hname
    | none => simp only [kv, hname, bucketOf]

theorem Opened.kv {stateBucket : String} {named : NamedBuckets} (h : Opened stateBucket named)
    (bucket : Option String) : Opened stateBucket (kv stateBucket named bucket).2 := by
  cases bucket with
  | none => exact h
  | some name =>
    cases hname : named.lookup name with
    | some opened =>
      simp only [Config.kv, hname]
      exact h
    | none =>
      simp only [Config.kv, hname]
      intro other opened hother
      by_cases heq : other = name
      · subst heq
        simpa using hother.symm
      · rw [List.lookup_cons, beq_eq_false_iff_ne.2 heq] at hother
        exact h other opened hother

/-- Whatever was asked before, a name is handed its own bucket. -/
theorem kvs_eq {stateBucket : String} {named : NamedBuckets} (h : Opened stateBucket named)
    (buckets : List (Option String)) :
    kvs stateBucket named buckets = buckets.map (bucketOf stateBucket) := by
  induction buckets generalizing named with
  | nil => rfl
  | cons bucket rest ih =>
    simp only [kvs, List.map_cons]
    rw [kv_fst h, ih (h.kv bucket)]

/-! ## Isolation -/

/-- The subject a bucket's record of one key is stored under. -/
def subject (bucket key : String) : String := "$KV." ++ bucket ++ "." ++ key

/-- A name JetStream takes for a bucket. -/
def ValidName (bucket : String) : Prop := bucket ≠ "" ∧ ∀ c ∈ bucket.toList, keptInName c = true

/-- The buckets of the coordinator, and those handed to the callers without a name and
to two capabilities. -/
def bucketNames (cfg : ClusterNatsConfig) (n₁ n₂ : String) : List String :=
  [cfg.jetstream.leasesBucket, cfg.jetstream.fencingBucket] ++
    kvs cfg.jetstream.stateBucket [] [none, some n₁, some n₂]

theorem bucketNames_eq (cfg : ClusterNatsConfig) (n₁ n₂ : String) : bucketNames cfg n₁ n₂ =
    [cfg.jetstream.leasesBucket, cfg.jetstream.fencingBucket, cfg.jetstream.stateBucket,
      namedBucket cfg.jetstream.stateBucket n₁, namedBucket cfg.jetstream.stateBucket n₂] := by
  have hopened : Opened cfg.jetstream.stateBucket [] := fun name opened h => by cases h
  rw [bucketNames, kvs_eq hopened]
  rfl

/-- No two of the buckets are one, and no two of them share a subject. -/
structure Isolated (cfg : ClusterNatsConfig) (n₁ n₂ : String) : Prop where
  nonempty : ∀ b ∈ bucketNames cfg n₁ n₂, b ≠ ""
  different : (bucketNames cfg n₁ n₂).Nodup
  subjects : (bucketNames cfg n₁ n₂).Pairwise fun b c =>
    ValidName b → ValidName c → ∀ k l, subject b k ≠ subject c l

theorem ValidName.not_dot {bucket : String} (h : ValidName bucket) : '.' ∉ bucket.toList :=
  fun hdot => absurd (h.2 '.' hdot) (by decide)

/-- Two buckets have no subject in common. -/
theorem bucket_of_subject {b c k l : String} (hb : ValidName b) (hc : ValidName c)
    (h : subject b k = subject c l) : b = c := by
  have hlist := congrArg String.toList h
  simp only [subject, String.toList_append, List.append_assoc, List.append_cancel_left_eq] at hlist
  exact String.toList_inj.1 (eq_of_append_cons hb.not_dot hc.not_dot hlist)

/-! ## When buckets are isolated -/

/-- Two characters that become one in a bucket's name. -/
def Confused (c d : Char) : Prop :=
  c = d ∨ (keptInName c = false ∨ c = '_') ∧ (keptInName d = false ∨ d = '_')

/-- A character of a bucket's name, and the one of the capability's name it is
written for. -/
def WrittenFor (c d : Char) : Prop := (c = d ∧ keptInName d = true) ∨ (c = '_' ∧ keptInName d = false)

/-- A bucket's name is that of a state bucket's capability. -/
def NamesCapability (stateBucket name bucket : String) : Prop :=
  ∃ rest, List.Forall₂ WrittenFor rest name.toList ∧
    bucket.toList = stateBucket.toList ++ '-' :: rest

/-- What an operator's names have to satisfy for two capabilities' buckets to
be their own. -/
structure Separate (js : JetStreamConfig) (n₁ n₂ : String) : Prop where
  state_nonempty : js.stateBucket ≠ ""
  coordinator : js.leasesBucket ≠ js.fencingBucket
  state : js.stateBucket ≠ js.leasesBucket ∧ js.stateBucket ≠ js.fencingBucket
  leases : ∀ n ∈ [n₁, n₂], ¬ NamesCapability js.stateBucket n js.leasesBucket
  fencing : ∀ n ∈ [n₁, n₂], ¬ NamesCapability js.stateBucket n js.fencingBucket
  capabilities : ¬ List.Forall₂ Confused n₁.toList n₂.toList

theorem writtenFor_iff {c d : Char} : WrittenFor c d ↔ c = if keptInName d then d else '_' := by
  unfold WrittenFor
  cases keptInName d <;> simp

theorem confused_iff {c d : Char} : Confused c d ↔
    (if keptInName c then c else '_') = if keptInName d then d else '_' := by
  unfold Confused
  by_cases hc : keptInName c = true <;> by_cases hd : keptInName d = true <;> simp [hc, hd]
  · intro h h'
    rw [h, h']
  · rintro rfl
    exact absurd hc hd
  · constructor
    · rintro (rfl | h)
      · exact absurd hd hc
      · exact h.symm
    · exact fun h => Or.inr h.symm

/-- What one map makes of two lists is equal when it is, member by member. -/
theorem map_eq_map_iff_forall₂ {α β : Type} {f : α → β} {l m : List α} :
    l.map f = m.map f ↔ List.Forall₂ (fun a b => f a = f b) l m := by
  rw [← List.forall₂_eq_eq_eq, List.forall₂_map_left_iff, List.forall₂_map_right_iff]

theorem bucketSuffix_eq_iff {n₁ n₂ : String} :
    bucketSuffix n₁ = bucketSuffix n₂ ↔ List.Forall₂ Confused n₁.toList n₂.toList := by
  have hrel : Confused = fun c d => (if keptInName c then c else '_') = if keptInName d then d else '_' := by
    funext c d
    exact propext confused_iff
  rw [hrel, ← map_eq_map_iff_forall₂, bucketSuffix, bucketSuffix, String.ofList_inj]

theorem namedBucket_toList (stateBucket name : String) : (namedBucket stateBucket name).toList =
    stateBucket.toList ++ '-' :: name.toList.map fun c => if keptInName c then c else '_' := by
  simp [namedBucket, bucketSuffix]

theorem namedBucket_inj {stateBucket n₁ n₂ : String} :
    namedBucket stateBucket n₁ = namedBucket stateBucket n₂ ↔
      List.Forall₂ Confused n₁.toList n₂.toList := by
  rw [← bucketSuffix_eq_iff, namedBucket, namedBucket]
  exact ⟨fun h => by simpa using h, fun h => by rw [h]⟩

theorem eq_namedBucket_iff {stateBucket name bucket : String} :
    bucket = namedBucket stateBucket name ↔ NamesCapability stateBucket name bucket := by
  have hrel : WrittenFor = fun c d => c = if keptInName d then d else '_' := by
    funext c d
    exact propext writtenFor_iff
  rw [← String.toList_inj, namedBucket_toList, NamesCapability, hrel]
  constructor
  · intro h
    refine ⟨_, ?_, h⟩
    rw [List.forall₂_map_left_iff]
    exact List.forall₂_same.2 fun _ _ => rfl
  · rintro ⟨rest, hrest, h⟩
    rw [h]
    congr 2
    rwa [← List.forall₂_eq_eq_eq, List.forall₂_map_right_iff]

/-- A capability's bucket is never the shared one. -/
theorem ne_namedBucket (stateBucket name : String) : stateBucket ≠ namedBucket stateBucket name := by
  intro h
  have := congrArg (fun s => s.toList.length) h
  simp [namedBucket_toList] at this

theorem namedBucket_nonempty (stateBucket name : String) : namedBucket stateBucket name ≠ "" := by
  intro h
  have := congrArg String.toList h
  simp [namedBucket_toList] at this

theorem nonempty_of_not_blank {s : String} (h : isBlank s = false) : s ≠ "" := by
  rintro rfl
  exact absurd h (by decide)

/-- Different names of buckets are enough for different subjects. -/
theorem isolated_iff {cfg : ClusterNatsConfig} {n₁ n₂ : String} : Isolated cfg n₁ n₂ ↔
    (∀ b ∈ bucketNames cfg n₁ n₂, b ≠ "") ∧ (bucketNames cfg n₁ n₂).Nodup := by
  constructor
  · exact fun h => ⟨h.nonempty, h.different⟩
  · rintro ⟨hne, hnodup⟩
    refine ⟨hne, hnodup, hnodup.imp fun {b c} hbc hb hc k l heq => ?_⟩
    exact hbc (bucket_of_subject hb hc heq)

/-- **When buckets are isolated.**  Under a configuration that is accepted,
the buckets of leases, of fencing counters, of the shared state and of two
capabilities are five, with names and subjects of their own, exactly when the
operator's names are apart and the two capabilities' names differ in a character
that a bucket's name keeps. -/
theorem buckets_isolated (fromStr : String → Except String ClusterNatsConfig) (configJson : String)
    (cfg : ClusterNatsConfig) (hparse : parse fromStr configJson = .ok cfg) (n₁ n₂ : String)
    (_hne : n₁ ≠ n₂) : Isolated cfg n₁ n₂ ↔ Separate cfg.jetstream n₁ n₂ := by
  have haccepted := accepted_of_parse hparse
  have hleases := nonempty_of_not_blank haccepted.leasesBucket
  have hfencing := nonempty_of_not_blank haccepted.fencingBucket
  rw [isolated_iff, bucketNames_eq]
  simp only [List.forall_mem_cons, List.nodup_cons]
  simp only [List.mem_cons, List.not_mem_nil, or_false, not_or, not_false_eq_true, and_true,
    List.nodup_nil, false_imp_iff, implies_true]
  constructor
  · rintro ⟨⟨-, -, hstate, -, -⟩, ⟨hlf, hls, hl1, hl2⟩, ⟨hfs, hf1, hf2⟩, ⟨-, -⟩, h12⟩
    refine ⟨hstate, hlf, ⟨Ne.symm hls, Ne.symm hfs⟩, ?_, ?_, fun h => h12 (namedBucket_inj.2 h)⟩
    · simp only [List.forall_mem_cons, ← eq_namedBucket_iff]
      exact ⟨hl1, hl2, by simp⟩
    · simp only [List.forall_mem_cons, ← eq_namedBucket_iff]
      exact ⟨hf1, hf2, by simp⟩
  · intro h
    obtain ⟨hl1, hl2, -⟩ := List.forall_mem_cons.1 h.leases |>.imp_right List.forall_mem_cons.1
    obtain ⟨hf1, hf2, -⟩ := List.forall_mem_cons.1 h.fencing |>.imp_right List.forall_mem_cons.1
    rw [← eq_namedBucket_iff] at hl1 hl2 hf1 hf2
    refine ⟨⟨hleases, hfencing, h.state_nonempty, namedBucket_nonempty _ _,
      namedBucket_nonempty _ _⟩, ⟨h.coordinator, Ne.symm h.state.1, hl1, hl2⟩,
      ⟨Ne.symm h.state.2, hf1, hf2⟩, ⟨ne_namedBucket _ _, ne_namedBucket _ _⟩, ?_⟩
    exact fun heq => h.capabilities (namedBucket_inj.1 heq)

/-- A JSON library that knows one text. -/
def reads (json : String) (cfg : ClusterNatsConfig) (s : String) : Except String ClusterNatsConfig :=
  if s = json then .ok cfg else .error "another text"

/-- A state bucket under the name of the default leases bucket. -/
def sharingLeases : ClusterNatsConfig :=
  { minimal "nats://localhost:4222" "gw-1" with jetstream := { stateBucket := "mcpg-leases" } }

def sharingLeasesJson : String :=
  "\x7b\"servers\":[\"nats://localhost:4222\"],\"node\":\x7b\"id\":\"gw-1\"\x7d,\"jetstream\":\x7b\"state_bucket\":\"mcpg-leases\"\x7d\x7d"

/-- Capability state among the lease records: `state_bucket` is checked neither
against the coordinator's buckets nor for being there. -/
theorem buckets_isolated_shared :
    parse (reads sharingLeasesJson sharingLeases) sharingLeasesJson = .ok sharingLeases ∧
      "events" ≠ "tasks" ∧ ¬ Isolated sharingLeases "events" "tasks" := by
  refine ⟨by decide +kernel, by decide, fun h => ?_⟩
  exact absurd h.different (by decide +kernel)

def minimalJson : String :=
  "\x7b\"servers\":[\"nats://localhost:4222\"],\"node\":\x7b\"id\":\"gw-1\"\x7d\x7d"

/-- The defaults, with two capabilities whose names differ in a letter. -/
theorem buckets_isolated_defaults :
    let cfg := minimal "nats://localhost:4222" "gw-1"
    parse (reads minimalJson cfg) minimalJson = .ok cfg ∧ Isolated cfg "events" "tasks" := by
  have hparse : parse (reads minimalJson (minimal "nats://localhost:4222" "gw-1")) minimalJson =
      .ok (minimal "nats://localhost:4222" "gw-1") := by decide +kernel
  refine ⟨hparse, (buckets_isolated _ _ _ hparse "events" "tasks" (by decide)).2 ?_⟩
  refine ⟨by decide, by decide, by decide, ?_, ?_, ?_⟩
  · simp only [← eq_namedBucket_iff]
    decide +kernel
  · simp only [← eq_namedBucket_iff]
    decide +kernel
  · rw [← @namedBucket_inj ""]
    decide +kernel

end ClusterNats.Config
