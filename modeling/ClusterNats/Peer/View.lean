import ClusterNats.Peer.Cache
import ClusterNats.Log.Events

/-!
# What the events tell of the peers

A listener that folds the events of `watch_peers` from nothing holds, item after
item, the node ids and the healths of the cache.

* `applyEvent`, `InOrder` — the listener's fold, and when an event fits it.
* `explains_onMessage`, `explains_onTick` — what each arm of the loop sends
  leads from the cache it found to the cache it leaves.
* `peers_reconstructed` — the run.
-/

namespace ClusterNats.Peer

open Events

/-! ## The listener -/

/-- The peers a listener knows, with their healths. -/
abbrev PeerView := String → Option PeerHealth

def noPeers : PeerView := fun _ => none

/-- What a listener makes of an event. -/
def applyEvent (v : PeerView) : PeerEvent → PeerView
  | .joined peer => Function.update v peer.nodeId (some .healthy)
  | .left nodeId => Function.update v nodeId none
  | .healthChanged nodeId health => Function.update v nodeId ((v nodeId).map fun _ => health)

/-- An event that fits what the listener knows: only an absent node joins, and
healthy; only a present one leaves or changes; and a change is one. -/
def InOrder (v : PeerView) : PeerEvent → Prop
  | .joined peer => v peer.nodeId = none ∧ peer.health = .healthy
  | .left nodeId => v nodeId ≠ none
  | .healthChanged nodeId health => ∃ old, v nodeId = some old ∧ old ≠ health

/-- The node ids and healths of the cache. -/
def view (cache : PeerCache) : PeerView := fun nodeId => (cache.lookup nodeId).map PeerEntry.health

@[simp] theorem view_empty : view ∅ = noPeers := rfl

theorem view_insert (cache : PeerCache) (nodeId : String) (entry : PeerEntry) :
    view (cache.insert nodeId entry) = Function.update (view cache) nodeId (some entry.health) := by
  funext id
  by_cases h : id = nodeId
  · subst h
    simp [view]
  · simp [view, h, AList.lookup_insert_ne h]

theorem view_erase (cache : PeerCache) (nodeId : String) :
    view (cache.erase nodeId) = Function.update (view cache) nodeId none := by
  funext id
  by_cases h : id = nodeId
  · subst h
    simp [view]
  · simp [view, h, AList.lookup_erase_ne h]

theorem view_perm {cache listing : PeerCache} (h : listing.entries.Perm cache.entries) :
    view listing = view cache := by
  funext id
  exact congrArg (Option.map PeerEntry.health) (AList.perm_lookup h)

theorem view_eq_none {cache : PeerCache} {nodeId : String} : view cache nodeId = none ↔ nodeId ∉ cache := by
  rw [view, Option.map_eq_none_iff, AList.lookup_eq_none]

/-! ## A heartbeat -/

theorem explains_fold (cache : PeerCache) (nodeId : String) (payload : HeartbeatPayload) (now : Nat)
    (secs : Int64) : Explains InOrder applyEvent (view cache) (fold cache nodeId payload now secs).2
      (view (fold cache nodeId payload now secs).1) := by
  unfold fold
  cases hprior : (cache.lookup nodeId).map PeerEntry.health with
  | none =>
    have hjoined : InOrder (view cache) (.joined ⟨nodeId, payload.address, rfc3339 secs, .healthy, []⟩) :=
      ⟨hprior, rfl⟩
    simp only [view_insert]
    exact .single hjoined
  | some health =>
    cases health with
    | healthy =>
      simp only [view_insert]
      have hsame : Function.update (view cache) nodeId (some PeerHealth.healthy) = view cache :=
        Function.update_eq_self_iff.2 hprior.symm
      rw [hsame]
      exact .nil _
    | degraded =>
      have hchange : InOrder (view cache) (.healthChanged nodeId .healthy) :=
        ⟨.degraded, hprior, by decide⟩
      have happly : applyEvent (view cache) (.healthChanged nodeId .healthy) =
          Function.update (view cache) nodeId (some .healthy) := by
        simp only [applyEvent, view, hprior, Option.map_some]
      simp only [view_insert, ← happly]
      exact .single hchange

theorem explains_onMessage (sub : Subscriber) (cache : PeerCache) (now : Nat) (secs : Int64)
    (msg : NatsMessage) :
    Explains InOrder applyEvent (view cache) (sub.onMessage cache now secs msg).2
      (view (sub.onMessage cache now secs msg).1) := by
  unfold Subscriber.onMessage
  cases subjectNodeId msg.subject with
  | none => exact .nil _
  | some nodeId =>
    dsimp only
    split
    · exact .nil _
    cases sub.decode msg.payload with
    | error e => exact .nil _
    | ok payload =>
      dsimp only
      split
      · by_cases hmem : nodeId ∈ cache
        · have hleft : InOrder (view cache) (.left nodeId) := fun h => view_eq_none.1 h hmem
          rw [if_pos hmem, view_erase]
          exact .single hleft
        · have hsame : Function.update (view cache) nodeId none = view cache :=
            Function.update_eq_self_iff.2 (view_eq_none.2 hmem).symm
          rw [if_neg hmem, view_erase, hsame]
          exact .nil _
      · exact explains_fold cache nodeId payload now secs

/-- A message leaves every entry but the one of its subject's token. -/
theorem onMessage_lookup (sub : Subscriber) (cache : PeerCache) (now : Nat) (secs : Int64)
    (msg : NatsMessage) {id : String} (h : subjectNodeId msg.subject ≠ some id) :
    (sub.onMessage cache now secs msg).1.lookup id = cache.lookup id := by
  unfold Subscriber.onMessage
  cases hid : subjectNodeId msg.subject with
  | none => rfl
  | some nodeId =>
    have hne : id ≠ nodeId := fun heq => h (by rw [hid, heq])
    dsimp only
    split
    · rfl
    cases sub.decode msg.payload with
    | error e => rfl
    | ok payload =>
      dsimp only
      split
      · exact AList.lookup_erase_ne hne
      · have hfold : (fold cache nodeId payload now secs).1.lookup id = cache.lookup id := by
          unfold fold
          dsimp only
          split <;> exact AList.lookup_insert_ne hne
        exact hfold

/-- A node does not hear itself. -/
theorem onMessage_self (sub : Subscriber) (cache : PeerCache) (now : Nat) (secs : Int64)
    (msg : NatsMessage) (h : cache.lookup sub.selfNodeId = none) :
    (sub.onMessage cache now secs msg).1.lookup sub.selfNodeId = none := by
  by_cases hself : subjectNodeId msg.subject = some sub.selfNodeId
  · have hsame : (sub.onMessage cache now secs msg).1 = cache := by
      simp [Subscriber.onMessage, hself]
    rwa [hsame]
  · rwa [onMessage_lookup sub cache now secs msg hself]

/-! ## A sweep -/

/-- What is told of one entry leads from its old health to what is kept. -/
theorem explains_reclassify (sub : Subscriber) (now : Nat) {v : PeerView} {nodeId : String}
    {entry : PeerEntry} (h : v nodeId = some entry.health) :
    Explains InOrder applyEvent v (sub.reclassify now nodeId entry).2.toList
      (Function.update v nodeId ((sub.reclassify now nodeId entry).1.map PeerEntry.health)) := by
  unfold Subscriber.reclassify
  dsimp only
  split
  · have hleft : InOrder v (.left nodeId) := by
      intro hnone
      rw [h] at hnone
      cases hnone
    exact .single hleft
  generalize (if now - entry.lastSeen > sub.degradedAfter then PeerHealth.degraded else .healthy) = health
  split
  · rename_i hne
    have hchange : InOrder v (.healthChanged nodeId health) := ⟨entry.health, h, hne⟩
    have happly : applyEvent v (.healthChanged nodeId health) = Function.update v nodeId (some health) := by
      simp only [applyEvent, h, Option.map_some]
    simp only [Option.map_some, ← happly, Option.toList_some]
    exact .single hchange
  · have hsame : Function.update v nodeId (some entry.health) = v :=
      Function.update_eq_self_iff.2 h.symm
    simp only [Option.map_some, hsame, Option.toList_none]
    exact .nil v

theorem retained_cons (sub : Subscriber) (now : Nat) (s : Sigma fun _ : String => PeerEntry)
    (entries : List (Sigma fun _ : String => PeerEntry)) :
    sub.retained now (s :: entries) =
      ((sub.reclassify now s.1 s.2).1.map fun entry => ⟨s.1, entry⟩).toList ++ sub.retained now entries := by
  cases h : (sub.reclassify now s.1 s.2).1 <;> simp [Subscriber.retained, h]

theorem deltas_cons (sub : Subscriber) (now : Nat) (s : Sigma fun _ : String => PeerEntry)
    (entries : List (Sigma fun _ : String => PeerEntry)) :
    sub.deltas now (s :: entries) = (sub.reclassify now s.1 s.2).2.toList ++ sub.deltas now entries := by
  cases h : (sub.reclassify now s.1 s.2).2 <;> simp [Subscriber.deltas, h]

/-- What is kept of a node is what its own entry was made into. -/
theorem dlookup_retained (sub : Subscriber) (now : Nat)
    {entries : List (Sigma fun _ : String => PeerEntry)} (hnodup : entries.NodupKeys) (id : String) :
    (sub.retained now entries).dlookup id =
      (entries.dlookup id).bind fun entry => (sub.reclassify now id entry).1 := by
  induction entries with
  | nil => rfl
  | cons s entries ih =>
    obtain ⟨nodeId, entry⟩ := s
    obtain ⟨hnew, hnodup⟩ := List.nodupKeys_cons.1 hnodup
    rw [retained_cons]
    by_cases h : id = nodeId
    · subst h
      rw [List.dlookup_cons_eq]
      cases hkept : (sub.reclassify now id entry).1 with
      | none =>
        have hgone : (sub.retained now entries).dlookup id = none :=
          List.dlookup_eq_none.2 fun hmem => hnew ((sub.keys_retained now entries).subset hmem)
        simpa [hkept] using hgone
      | some kept => simp [hkept]
    · rw [List.dlookup_cons_ne _ _ h, ← ih hnodup]
      cases (sub.reclassify now nodeId entry).1 with
      | none => rfl
      | some kept => exact List.dlookup_cons_ne _ _ h

/-- The events of a walk, one entry after the other: the nodes walked over end
as they are kept, the others as they were. -/
theorem explains_deltas (sub : Subscriber) (now : Nat)
    {entries : List (Sigma fun _ : String => PeerEntry)} (hnodup : entries.NodupKeys) {v v' : PeerView}
    (hv : ∀ id entry, entries.dlookup id = some entry →
      v id = some entry.health ∧ v' id = (sub.reclassify now id entry).1.map PeerEntry.health)
    (hrest : ∀ id, entries.dlookup id = none → v' id = v id) :
    Explains InOrder applyEvent v (sub.deltas now entries) v' := by
  induction entries generalizing v with
  | nil =>
    have : v' = v := funext fun id => hrest id rfl
    rw [this]
    exact .nil v
  | cons s entries ih =>
    obtain ⟨nodeId, entry⟩ := s
    obtain ⟨hnew, hnodup⟩ := List.nodupKeys_cons.1 hnodup
    obtain ⟨hnow, hthen⟩ := hv nodeId entry (List.dlookup_cons_eq _ _ _)
    rw [deltas_cons]
    refine (explains_reclassify sub now hnow).append (ih hnodup ?_ ?_)
    · intro id other hother
      have hne : id ≠ nodeId := by
        rintro rfl
        exact hnew (List.dlookup_isSome.1 (by rw [hother]; rfl))
      rw [Function.update_of_ne hne]
      exact hv id other (by rwa [List.dlookup_cons_ne _ _ hne])
    · intro id hnone
      by_cases hid : id = nodeId
      · subst hid
        rw [Function.update_self, hthen]
      · rw [Function.update_of_ne hid]
        exact hrest id (by rwa [List.dlookup_cons_ne _ _ hid])

theorem onTick_lookup (sub : Subscriber) (cache : PeerCache) (now : Nat) (id : String) :
    (sub.onTick cache now).1.lookup id =
      (cache.lookup id).bind fun entry => (sub.reclassify now id entry).1 :=
  dlookup_retained sub now cache.nodupKeys id

theorem explains_onTick (sub : Subscriber) (cache : PeerCache) (now : Nat) :
    Explains InOrder applyEvent (view cache) (sub.onTick cache now).2 (view (sub.onTick cache now).1) := by
  refine explains_deltas sub now cache.nodupKeys (fun id entry hentry => ⟨?_, ?_⟩) fun id hnone => ?_
  · exact congrArg (Option.map PeerEntry.health) hentry
  · have hlookup : cache.lookup id = some entry := hentry
    rw [view, onTick_lookup, hlookup, Option.bind_some]
  · have hlookup : cache.lookup id = none := hnone
    rw [view, view, onTick_lookup, hlookup, Option.bind_none]

/-! ## Runs -/

/-- One processed item is explained by what it sends. -/
theorem Step.explains {sub : Subscriber} {cache cache' : PeerCache} {item : Item}
    {sent : List PeerEvent} (h : Step sub cache item sent cache') :
    Explains InOrder applyEvent (view cache) sent (view cache') := by
  cases h with
  | message now secs msg => exact explains_onMessage sub cache now secs msg
  | tick listing now order =>
    rw [← view_perm order]
    exact explains_onTick sub listing now

/-- A message is told of in one event at most. -/
theorem onMessage_events (sub : Subscriber) (cache : PeerCache) (now : Nat) (secs : Int64)
    (msg : NatsMessage) : (sub.onMessage cache now secs msg).2.length ≤ 1 := by
  unfold Subscriber.onMessage
  repeat' (first | split | dsimp only)
  all_goals first
    | exact Nat.le_refl 1
    | exact Nat.zero_le 1
    | (unfold fold; dsimp only; split <;> simp)

/-- Every event was in order for the cache its item found. -/
theorem Step.inOrder {sub : Subscriber} {cache cache' : PeerCache} {item : Item}
    {sent : List PeerEvent} (h : Step sub cache item sent cache') :
    ∀ e ∈ sent, InOrder (view cache) e := by
  cases h with
  | message now secs msg =>
    intro e he
    have hexplains := explains_onMessage sub cache now secs msg
    have hlength := onMessage_events sub cache now secs msg
    cases hsent : (sub.onMessage cache now secs msg).2 with
    | nil =>
      rw [hsent] at he
      cases he
    | cons told rest =>
      rw [hsent] at he hlength hexplains
      obtain rfl : rest = [] := List.length_eq_zero_iff.1 (by simpa using hlength)
      rw [List.mem_singleton.1 he]
      exact hexplains.head
  | tick listing now order =>
    intro e he
    obtain ⟨⟨nodeId, entry⟩, hmem, htold⟩ := List.mem_filterMap.1 he
    have hview : view cache nodeId = some entry.health := by
      rw [← view_perm order]
      exact congrArg (Option.map PeerEntry.health) (List.mem_dlookup listing.nodupKeys hmem)
    have hexplains := explains_reclassify sub now hview
    rw [htold] at hexplains
    exact hexplains.head

theorem Step.self {sub : Subscriber} {cache cache' : PeerCache} {item : Item} {sent : List PeerEvent}
    (h : Step sub cache item sent cache') (hself : cache.lookup sub.selfNodeId = none) :
    cache'.lookup sub.selfNodeId = none := by
  cases h with
  | message now secs msg => exact onMessage_self sub cache now secs msg hself
  | tick listing now order =>
    rw [onTick_lookup, AList.perm_lookup order, hself, Option.bind_none]

theorem Run.explains {sub : Subscriber} {items : List Item} {events : List PeerEvent}
    {cache : PeerCache} (run : Run sub items events cache) :
    Explains InOrder applyEvent noPeers events (view cache) := by
  induction run with
  | start => exact .nil _
  | item _ step ih => exact ih.append step.explains

theorem Run.self {sub : Subscriber} {items : List Item} {events : List PeerEvent}
    {cache : PeerCache} (run : Run sub items events cache) : cache.lookup sub.selfNodeId = none := by
  induction run with
  | start => rfl
  | item _ step ih => exact step.self ih

/-- **The events reconstruct the peers.**  Whatever heartbeats and ticks the
loop has processed, and in whatever order the sweeper met the entries: who folds
the events it sent holds exactly the node ids and healths of the cache, every
event was in order when it came, the node itself is not in the cache, and a
message has changed no entry but the one of its subject's token. -/
theorem peers_reconstructed (sub : Subscriber) (items : List Item) (events : List PeerEvent)
    (cache : PeerCache) (run : Run sub items events cache) :
    events.foldl applyEvent noPeers = view cache ∧
      (∀ before e after, events = before ++ e :: after →
        InOrder (before.foldl applyEvent noPeers) e) ∧
      cache.lookup sub.selfNodeId = none ∧
      (∀ item sent cache', Step sub cache item sent cache' → ∀ e ∈ sent, InOrder (view cache) e) ∧
      ∀ now secs msg sent cache', Step sub cache (.message now secs msg) sent cache' →
        ∀ id, subjectNodeId msg.subject ≠ some id → cache'.lookup id = cache.lookup id := by
  refine ⟨run.explains.foldl_eq, fun _ _ _ hsplit => run.explains.legal_at hsplit, run.self,
    fun _ _ _ hstep => hstep.inOrder, ?_⟩
  intro now secs msg sent cache' hstep id hid
  cases hstep with
  | message => exact onMessage_lookup sub cache now secs msg hid

/-- What `gw-2` says of itself, and with `leaving` at last. -/
def gw2 (leaving : Bool) : HeartbeatPayload := ⟨"gw-2", "10.0.0.2:7600", "2026-01-01T00:00:00Z", leaving, true⟩

/-- The text of it. -/
def gw2Text (leaving : Bool) : String :=
  "\x7b\"node_id\":\"gw-2\",\"address\":\"10.0.0.2:7600\",\"started_at\":\"2026-01-01T00:00:00Z\"" ++
    (if leaving then ",\"leaving\":true" else "") ++ ",\"kv_index\":true\x7d"

/-- A subscriber that knows the two texts of `gw-2`. -/
def gw1 : Subscriber where
  selfNodeId := "gw-1"
  degradedAfter := 20
  expiryAfter := 30
  decode := fun payload =>
    if payload = bytes (gw2Text false) then .ok (gw2 false)
    else if payload = bytes (gw2Text true) then .ok (gw2 true)
    else .error "not a heartbeat"

/-- A heartbeat of `gw-2`, and with `leaving` its last one. -/
def ofGw2 (leaving : Bool) : NatsMessage :=
  ⟨"mcpg.peers.heartbeat.gw-2", [], bytes (gw2Text leaving)⟩

/-- A node is heard, falls silent, is heard again and leaves. -/
theorem peers_reconstructed_leaving : ∃ events cache,
    Run gw1 [.message 0 0 (ofGw2 false), .tick 25, .message 40 0 (ofGw2 false),
      .message 41 0 (ofGw2 true)] events cache ∧
    events.length = 4 ∧ events.foldl applyEvent noPeers = view cache := by
  have heard : Run gw1 [.message 0 0 (ofGw2 false)] _ _ := .item .start (.message ∅ 0 0 (ofGw2 false))
  have silent := heard.item (.tick _ _ 25 (.refl _))
  have again := silent.item (.message _ 40 0 (ofGw2 false))
  have gone := again.item (.message _ 41 0 (ofGw2 true))
  exact ⟨_, _, gone, by decide +kernel, (peers_reconstructed gw1 _ _ _ gone).1⟩

end ClusterNats.Peer
