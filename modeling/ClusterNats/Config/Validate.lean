import ClusterNats.Codec.Text

/-!
# The operator's configuration

What an operator writes, as the JSON library hands it over, and the checks it
must pass before anything connects.

* `ClusterNatsConfig` — the fields and their defaults.
* `validate`, `parse` — the checks, in the code's order, with their texts.
* `Accepted`, `validate_iff` — what an accepted configuration satisfies, and no
  other.
* `validate_minimal` — every default passes its own check.
-/

namespace ClusterNats.Config

/-! ## The fields -/

/-- How the client authenticates. -/
inductive AuthConfig
  | token (token : String)
  | userPassword (user password : String)
  | credentialsFile (path : String)
  /-- The content of a credentials file. -/
  | credentials (creds : String)
  deriving DecidableEq, Repr

structure JetStreamConfig where
  leasesBucket : String := "mcpg-leases"
  fencingBucket : String := "mcpg-fencing"
  notificationsStream : String := "mcpg-notifications"
  stateBucket : String := "mcpg-state"
  replicas : UInt32 := 1
  namedBucketMaxBytes : UInt64 := 256 * 1024 * 1024
  stateBucketMaxBytes : UInt64 := 256 * 1024 * 1024
  /-- `0` turns sweeping off. -/
  sweepIntervalSec : UInt64 := 60
  deriving DecidableEq, Repr

structure NodeConfig where
  id : String
  address : Option String := none
  heartbeatIntervalSec : UInt64 := 10
  peerExpirySec : UInt64 := 30
  deriving DecidableEq, Repr

structure LeaseConfig where
  /-- The TTL of a caller that gives `0`. -/
  defaultTtlSec : UInt64 := 30
  /-- The share of the TTL that is left when a lease is renewed. -/
  renewBeforeExpiryPercent : UInt32 := 50
  deriving DecidableEq, Repr

structure ConnectionConfig where
  connectTimeoutMs : UInt64 := 5000
  operationTimeoutMs : UInt64 := 10000
  deriving DecidableEq, Repr

structure ClusterNatsConfig where
  servers : List String
  auth : Option AuthConfig := none
  jetstream : JetStreamConfig := {}
  node : NodeConfig
  lease : LeaseConfig := {}
  connection : ConnectionConfig := {}
  deriving DecidableEq, Repr

inductive ConfigError
  | parseError (reason : String)
  | invalid (reason : String)
  deriving DecidableEq, Repr

/-! ## Strings -/

/-- `str::trim`. -/
def trim (s : String) : String :=
  String.ofList ((s.toList.dropWhile isWhitespace).reverse.dropWhile isWhitespace).reverse

/-- `str::starts_with`. -/
def startsWith (s pre : String) : Bool := pre.toList.isPrefixOf s.toList

/-- `str::contains`. -/
def contains (s part : String) : Bool := s.toList.tails.any fun rest => part.toList.isPrefixOf rest

/-- `char::is_control`. -/
def isControl (c : Char) : Bool := c.toNat < 32 || (127 ≤ c.toNat && c.toNat < 160)

/-- The `Debug` form of a character that no subject token may hold: only a
wildcard, the dot and the space are printed as they are. -/
def charDebug (c : Char) : String :=
  if c.toNat = 0 then "'\\0'"
  else if c = '\t' then "'\\t'"
  else if c = '\n' then "'\\n'"
  else if c = '\r' then "'\\r'"
  else if c = ' ' ∨ ¬ (isWhitespace c ∨ isControl c) then String.ofList ['\'', c, '\'']
  else "'\\u\x7b" ++ String.ofList (Nat.toDigits 16 c.toNat) ++ "\x7d'"

/-! ## The checks -/

/-- An early return when `bad`. -/
def reject (bad : Bool) (reason : String) : Except ConfigError Unit :=
  if bad then .error (.invalid reason) else .ok ()

def credsJwtMarker : String := "-----BEGIN NATS USER JWT-----"
def credsSeedMarker : String := "-----BEGIN USER NKEY SEED-----"

/-- `MIN_STATE_BUCKET_MAX_BYTES`. -/
def minStateBucketMaxBytes : UInt64 := 1024 * 1024

/-- The schemes of a server URL. -/
def serverSchemes : List String := ["nats://", "tls://", "nats+tls://", "ws://", "wss://"]

/-- The check of one server. -/
def validateServer (s : String) : Except ConfigError Unit := do
  let trimmed := trim s
  reject (trimmed = "") "`servers` entries must be non-empty"
  reject (!serverSchemes.any (startsWith trimmed))
    s!"`servers` URL must use scheme nats:// / tls:// / nats+tls:// / ws:// / wss:// — got `{trimmed}`"

/-- The check of one section of inline credentials. -/
def validateMarker (creds marker : String) : Except ConfigError Unit :=
  reject (!contains creds marker)
    s!"`auth.creds` must be the full NATS credentials-file content, but its `{marker}` section is missing (value not echoed — check the env var / secret it was substituted from)"

def validateAuth : Option AuthConfig → Except ConfigError Unit
  | some (.credentials creds) => [credsJwtMarker, credsSeedMarker].forM (validateMarker creds)
  | _ => .ok ()

/-- A character that ends a subject token, or matches more than itself. -/
def badInToken (c : Char) : Bool :=
  c = '.' || c = '*' || c = '>' || isWhitespace c || isControl c

def validateNodeId (id : String) : Except ConfigError Unit := do
  let nodeId := trim id
  reject (nodeId = "") "`node.id` must not be empty (use the gateway pod / hostname)"
  reject (id ≠ nodeId) "`node.id` must not have leading or trailing whitespace"
  match nodeId.toList.find? badInToken with
  | some bad =>
    let shown := charDebug bad
    .error (.invalid s!"`node.id` must be a single NATS subject token — it is the trailing token of the heartbeat subject `mcpg.peers.heartbeat.<id>`. Remove the {shown} character (no `.`, `*`, `>`, whitespace, or control chars).")
  | none => .ok ()

/-- The check of a name that is never empty. -/
def validateName (field : String × String) : Except ConfigError Unit :=
  let label := field.1
  reject (isBlank field.2) s!"`{label}` must not be empty"

def ClusterNatsConfig.validate (cfg : ClusterNatsConfig) : Except ConfigError Unit := do
  reject cfg.servers.isEmpty "`servers` must contain at least one URL"
  cfg.servers.forM validateServer
  validateAuth cfg.auth
  validateNodeId cfg.node.id
  reject (cfg.node.heartbeatIntervalSec = 0) "`node.heartbeat_interval_sec` must be > 0"
  reject (cfg.node.peerExpirySec ≤ cfg.node.heartbeatIntervalSec)
    "`node.peer_expiry_sec` must be > `heartbeat_interval_sec` so peers don't flicker on a single missed beat"
  reject (cfg.lease.defaultTtlSec = 0) "`lease.default_ttl_sec` must be > 0"
  reject (!(1 ≤ cfg.lease.renewBeforeExpiryPercent && cfg.lease.renewBeforeExpiryPercent ≤ 99))
    "`lease.renew_before_expiry_percent` must be in 1..=99"
  reject (cfg.jetstream.replicas = 0)
    "`jetstream.replicas` must be > 0 (use 1 for single-node dev, 3 for prod)"
  [("jetstream.leases_bucket", cfg.jetstream.leasesBucket),
    ("jetstream.fencing_bucket", cfg.jetstream.fencingBucket),
    ("jetstream.notifications_stream", cfg.jetstream.notificationsStream)].forM validateName
  let least := minStateBucketMaxBytes.toNat
  reject (cfg.jetstream.stateBucketMaxBytes < minStateBucketMaxBytes)
    s!"`jetstream.state_bucket_max_bytes` must be at least {least} (1 MiB)"
  reject (cfg.connection.connectTimeoutMs = 0 || cfg.connection.operationTimeoutMs = 0)
    "`connection.*_timeout_ms` must be > 0"

/-- Read a configuration; `fromStr` is the JSON library's `from_str`. -/
def parse (fromStr : String → Except String ClusterNatsConfig) (configJson : String) :
    Except ConfigError ClusterNatsConfig := do
  let cfg ← (fromStr configJson).mapError .parseError
  cfg.validate
  return cfg

/-! ## What is accepted -/

/-- What an accepted configuration satisfies. -/
structure Accepted (cfg : ClusterNatsConfig) : Prop where
  servers : cfg.servers ≠ []
  urls : ∀ s ∈ cfg.servers, ∃ scheme ∈ serverSchemes, startsWith (trim s) scheme = true
  auth : ∀ creds, cfg.auth = some (.credentials creds) →
    contains creds credsJwtMarker = true ∧ contains creds credsSeedMarker = true
  nodeId : cfg.node.id ≠ "" ∧ trim cfg.node.id = cfg.node.id ∧
    ∀ c ∈ cfg.node.id.toList, badInToken c = false
  heartbeat : cfg.node.heartbeatIntervalSec ≠ 0
  expiry : cfg.node.heartbeatIntervalSec < cfg.node.peerExpirySec
  ttl : cfg.lease.defaultTtlSec ≠ 0
  percent : 1 ≤ cfg.lease.renewBeforeExpiryPercent ∧ cfg.lease.renewBeforeExpiryPercent ≤ 99
  replicas : cfg.jetstream.replicas ≠ 0
  leasesBucket : isBlank cfg.jetstream.leasesBucket = false
  fencingBucket : isBlank cfg.jetstream.fencingBucket = false
  notificationsStream : isBlank cfg.jetstream.notificationsStream = false
  stateBytes : minStateBucketMaxBytes ≤ cfg.jetstream.stateBucketMaxBytes
  timeouts : cfg.connection.connectTimeoutMs ≠ 0 ∧ cfg.connection.operationTimeoutMs ≠ 0

@[simp] theorem reject_eq_ok {bad : Bool} {reason : String} :
    reject bad reason = .ok () ↔ bad = false := by
  cases bad <;> simp [reject]

/-- A check passes when its first part and the rest do. -/
theorem bind_eq_ok {x : Except ConfigError Unit} {f : Unit → Except ConfigError Unit} :
    (x >>= f) = .ok () ↔ x = .ok () ∧ f () = .ok () := by
  cases x with
  | error e => simp [bind, Except.bind]
  | ok u => simp [bind, Except.bind]

theorem forM_eq_ok {α : Type} {check : α → Except ConfigError Unit} {l : List α} :
    l.forM check = .ok () ↔ ∀ a ∈ l, check a = .ok () := by
  induction l with
  | nil => simp [List.forM, pure, Except.pure]
  | cons a l ih =>
    show (check a >>= fun _ => l.forM check) = .ok () ↔ _
    rw [bind_eq_ok, List.forall_mem_cons]
    exact and_congr_right fun _ => ih

theorem startsWith_empty {scheme : String} (h : scheme ∈ serverSchemes) :
    startsWith "" scheme = false := by
  revert scheme
  decide

theorem validateServer_iff {s : String} : validateServer s = .ok () ↔
    ∃ scheme ∈ serverSchemes, startsWith (trim s) scheme = true := by
  simp only [validateServer, bind_eq_ok, reject_eq_ok, decide_eq_false_iff_not,
    Bool.not_eq_false', List.any_eq_true]
  constructor
  · exact fun h => h.2
  · rintro ⟨scheme, hscheme, h⟩
    refine ⟨fun hempty => ?_, scheme, hscheme, h⟩
    rw [hempty, startsWith_empty hscheme] at h
    exact absurd h (by simp)

theorem validateAuth_iff {auth : Option AuthConfig} : validateAuth auth = .ok () ↔
    ∀ creds, auth = some (.credentials creds) →
      contains creds credsJwtMarker = true ∧ contains creds credsSeedMarker = true := by
  match auth with
  | some (.credentials creds) =>
    rw [validateAuth, forM_eq_ok]
    simp [validateMarker]
  | some (.token _) => simp [validateAuth]
  | some (.userPassword ..) => simp [validateAuth]
  | some (.credentialsFile _) => simp [validateAuth]
  | none => simp [validateAuth]

theorem validateNodeId_iff {id : String} : validateNodeId id = .ok () ↔
    id ≠ "" ∧ trim id = id ∧ ∀ c ∈ id.toList, badInToken c = false := by
  simp only [validateNodeId, bind_eq_ok, reject_eq_ok, decide_eq_false_iff_not, ne_eq, not_not]
  by_cases hid : id = trim id
  · rw [← hid]
    cases hbad : id.toList.find? badInToken with
    | some bad =>
      have hmem := List.mem_of_find?_eq_some hbad
      have := List.find?_some hbad
      simp only [reduceCtorEq, and_false, true_and, false_iff, not_and, not_forall]
      intro _
      exact ⟨bad, hmem, by simp [this]⟩
    | none =>
      have := List.find?_eq_none.1 hbad
      simp only [true_and, and_true]
      refine ⟨fun h => ⟨h, fun c hc => by simpa using this c hc⟩, fun h => h.1⟩
  · constructor
    · exact fun h => absurd h.2.1 hid
    · exact fun h => absurd h.2.1.symm hid

/-- **The checks accept what they say, and nothing else.** -/
theorem validate_iff {cfg : ClusterNatsConfig} : cfg.validate = .ok () ↔ Accepted cfg := by
  simp only [ClusterNatsConfig.validate, bind_eq_ok, reject_eq_ok, forM_eq_ok, validateServer_iff,
    validateAuth_iff, validateNodeId_iff, validateName, List.forall_mem_cons, List.not_mem_nil,
    false_imp_iff, implies_true, and_true, decide_eq_false_iff_not, Bool.not_eq_false',
    Bool.and_eq_true, Bool.or_eq_false_iff, decide_eq_true_eq, UInt64.not_le, UInt64.not_lt,
    List.isEmpty_eq_false_iff]
  constructor
  · rintro ⟨hservers, hurls, hauth, hid, hheart, hexp, httl, hpct, hrep, ⟨hl, hf, hn⟩, hbytes, hconn⟩
    exact ⟨hservers, hurls, hauth, hid, hheart, hexp, httl, hpct, hrep, hl, hf, hn, hbytes, hconn⟩
  · intro h
    exact ⟨h.servers, h.urls, h.auth, h.nodeId, h.heartbeat, h.expiry, h.ttl, h.percent, h.replicas,
      ⟨h.leasesBucket, h.fencingBucket, h.notificationsStream⟩, h.stateBytes, h.timeouts⟩

theorem accepted_of_parse {fromStr : String → Except String ClusterNatsConfig} {configJson : String}
    {cfg : ClusterNatsConfig} (h : parse fromStr configJson = .ok cfg) : Accepted cfg := by
  unfold parse at h
  cases hread : fromStr configJson with
  | error e =>
    rw [hread] at h
    cases h
  | ok cfg' =>
    rw [hread] at h
    cases hvalid : cfg'.validate with
    | error e =>
      have : (cfg'.validate >>= fun _ => Except.ok cfg') = .ok cfg := h
      rw [hvalid] at this
      cases this
    | ok u =>
      have : (cfg'.validate >>= fun _ => Except.ok cfg') = .ok cfg := h
      rw [hvalid] at this
      obtain rfl : cfg' = cfg := Except.ok.inj this
      exact validate_iff.1 hvalid

/-- A configuration that leaves everything to the defaults. -/
def minimal (server id : String) : ClusterNatsConfig := { servers := [server], node := { id } }

/-- **Every default passes its own check**: with a server and a node that are
accepted, nothing else has to be given. -/
theorem validate_minimal {server id : String} (hserver : validateServer server = .ok ())
    (hid : validateNodeId id = .ok ()) : (minimal server id).validate = .ok () := by
  refine validate_iff.2 {
    servers := by simp [minimal]
    urls := fun s hs => ?_
    auth := by simp [minimal]
    nodeId := validateNodeId_iff.1 hid
    heartbeat := by simp [minimal]
    expiry := by simp [minimal]
    ttl := by simp [minimal]
    percent := by simp [minimal]
    replicas := by simp [minimal]
    leasesBucket := by show isBlank "mcpg-leases" = false; decide
    fencingBucket := by show isBlank "mcpg-fencing" = false; decide
    notificationsStream := by show isBlank "mcpg-notifications" = false; decide
    stateBytes := by simp [minimal, minStateBucketMaxBytes]
    timeouts := by simp [minimal] }
  obtain rfl : s = server := by simpa [minimal] using hs
  exact validateServer_iff.1 hserver

end ClusterNats.Config
