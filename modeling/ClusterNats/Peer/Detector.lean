import ClusterNats.Peer.View

/-!
# Who is thought alive

The subscriber is a failure detector.  What it holds of a node is decided by the
last message it heard from the node and the ticks since.

* `Hears` — a message the subscriber heard from a node.
* `Told`, `Told.step` — what one message and the ticks after it make of an entry.
* `lookup_of_silent` — nothing is held of a node that was not heard from.
* `detector_exact` — **what the cache holds of a node, after any run**.
-/

namespace ClusterNats.Peer

/-- The clock at an item. -/
def Item.now : Item → Nat
  | .message now _ _ => now
  | .tick now => now

/-- The subscriber heard `payload` from another node `id`. -/
structure Hears (sub : Subscriber) (id : String) (msg : NatsMessage) (payload : HeartbeatPayload) :
    Prop where
  subject : subjectNodeId msg.subject = some id
  other : id ≠ sub.selfNodeId
  decoded : sub.decode msg.payload = .ok payload

/-- The item is no message the subscriber heard from `id`. -/
def Silent (sub : Subscriber) (id : String) (item : Item) : Prop :=
  ∀ now secs msg payload, item = .message now secs msg → ¬ Hears sub id msg payload

section Detector

variable {sub : Subscriber} {id : String} {cache cache' : PeerCache} {now : Nat} {secs : Int64}
  {msg : NatsMessage} {payload : HeartbeatPayload} {items after : List Item} {item : Item}
  {events sent : List PeerEvent}

/-! ## One item -/

/-- A message that was not heard from the node leaves its entry. -/
theorem lookup_of_unheard (h : ∀ payload, ¬ Hears sub id msg payload) :
    (sub.onMessage cache now secs msg).1.lookup id = cache.lookup id := by
  by_cases hsubject : subjectNodeId msg.subject = some id
  · have hcases : id = sub.selfNodeId ∨ ∃ e, sub.decode msg.payload = .error e := by
      by_cases hself : id = sub.selfNodeId
      · exact .inl hself
      · cases hdecode : sub.decode msg.payload with
        | error e => exact .inr ⟨e, rfl⟩
        | ok payload => exact absurd ⟨hsubject, hself, hdecode⟩ (h payload)
    rcases hcases with hself | ⟨e, he⟩
    · simp [Subscriber.onMessage, hsubject, hself]
    · simp only [Subscriber.onMessage, hsubject, he]
      split <;> rfl
  · exact onMessage_lookup sub cache now secs msg hsubject

/-- The last message of a node that leaves removes it. -/
theorem lookup_of_leaving (h : Hears sub id msg payload) (hleaving : payload.leaving = true) :
    (sub.onMessage cache now secs msg).1.lookup id = none := by
  simp [Subscriber.onMessage, h.subject, h.other, h.decoded, hleaving]

/-- A heartbeat makes a healthy entry. -/
theorem lookup_of_heartbeat (cache : PeerCache) (now : Nat) (secs : Int64)
    (h : Hears sub id msg payload) (hleaving : payload.leaving = false) :
    ∃ entry, (sub.onMessage cache now secs msg).1.lookup id = some entry ∧ entry.lastSeen = now ∧
      entry.address = payload.address ∧ entry.kvIndex = payload.kvIndex ∧ entry.health = .healthy := by
  refine ⟨⟨id, payload.address, now, rfc3339 secs, .healthy, payload.kvIndex⟩, ?_, rfl, rfl, rfl, rfl⟩
  have hfold : (sub.onMessage cache now secs msg).1 = (fold cache id payload now secs).1 := by
    simp [Subscriber.onMessage, h.subject, h.other, h.decoded, hleaving]
  rw [hfold]
  unfold fold
  dsimp only
  split <;> exact AList.lookup_insert _

/-- A tick evicts an entry that is too old. -/
theorem reclassify_evicted {entry : PeerEntry} (h : sub.expiryAfter < now - entry.lastSeen) :
    (sub.reclassify now id entry).1 = none := by
  unfold Subscriber.reclassify
  dsimp only
  rw [if_pos h]

/-- A tick that does not evict an entry sets its health by its age. -/
theorem reclassify_kept {entry : PeerEntry} (h : ¬ now - entry.lastSeen > sub.expiryAfter) :
    (sub.reclassify now id entry).1 = some { entry with
      health := if now - entry.lastSeen > sub.degradedAfter then .degraded else .healthy } := by
  unfold Subscriber.reclassify
  dsimp only
  rw [if_neg h]
  generalize (if now - entry.lastSeen > sub.degradedAfter then PeerHealth.degraded else .healthy) = health
  split
  · rfl
  · rename_i hsame
    rw [← not_ne_iff.1 hsame]

/-! ## The items since -/

/-- What the message `payload`, heard at `heard`, and the items after it make of an
entry. -/
structure Told (sub : Subscriber) (payload : HeartbeatPayload) (heard : Nat) (after : List Item)
    (entry : Option PeerEntry) : Prop where
  left : payload.leaving = true → entry = none
  expired : ∀ now, .tick now ∈ after → sub.expiryAfter < now - heard → entry = none
  kept : payload.leaving = false → (∀ now, .tick now ∈ after → now - heard ≤ sub.expiryAfter) →
    ∃ e, entry = some e ∧ e.lastSeen = heard ∧ e.address = payload.address ∧
      e.kvIndex = payload.kvIndex ∧
      (e.health = .degraded ↔ ∃ now, .tick now ∈ after ∧ sub.degradedAfter < now - heard)

theorem told_of_heard (h : Hears sub id msg payload) :
    Told sub payload now [] ((sub.onMessage cache now secs msg).1.lookup id) where
  left := lookup_of_leaving h
  expired _ hmem := absurd hmem (by simp)
  kept hleaving _ := by
    obtain ⟨e, he, hseen, haddress, hindex, hhealth⟩ := lookup_of_heartbeat cache now secs h hleaving
    exact ⟨e, he, hseen, haddress, hindex, by simp [hhealth]⟩

theorem Told.unheard (h : Told sub payload now after (cache.lookup id)) {at_ : Nat}
    (hmsg : ∀ payload, ¬ Hears sub id msg payload) :
    Told sub payload now (after ++ [.message at_ secs msg])
      ((sub.onMessage cache at_ secs msg).1.lookup id) := by
  have hticks : ∀ t, .tick t ∈ after ++ [.message at_ secs msg] ↔ .tick t ∈ after := fun t => by simp
  rw [lookup_of_unheard hmsg]
  refine ⟨h.left, fun t ht => h.expired t ((hticks t).1 ht), fun hleaving hall => ?_⟩
  obtain ⟨e, he, hseen, haddress, hindex, hhealth⟩ :=
    h.kept hleaving fun t ht => hall t ((hticks t).2 ht)
  simp only [hticks]
  exact ⟨e, he, hseen, haddress, hindex, hhealth⟩

/-- An entry too old at this tick or at an earlier one is out after it. -/
theorem Told.evicted {entry : Option PeerEntry} (h : Told sub payload now after entry) {at_ : Nat}
    (hold : (∃ t, .tick t ∈ after ∧ sub.expiryAfter < t - now) ∨ sub.expiryAfter < at_ - now) :
    (entry.bind fun e => (sub.reclassify at_ id e).1) = none := by
  by_cases hbefore : ∃ t, .tick t ∈ after ∧ sub.expiryAfter < t - now
  · obtain ⟨t, ht, hlt⟩ := hbefore
    rw [h.expired t ht hlt]
    rfl
  · have hnow := hold.resolve_left hbefore
    cases hleaving : payload.leaving with
    | true =>
      rw [h.left hleaving]
      rfl
    | false =>
      obtain ⟨e, he, hseen, -⟩ := h.kept hleaving fun t ht =>
        Nat.not_lt.1 fun hlt => hbefore ⟨t, ht, hlt⟩
      rw [he, Option.bind_some]
      exact reclassify_evicted (by rw [hseen]; exact hnow)

/-- A tick evicts an entry that is too old, and otherwise says how old it is. -/
theorem Told.ticked (h : Told sub payload now after (cache.lookup id)) {at_ : Nat}
    (hclock : ∀ item ∈ after, item.now ≤ at_) :
    Told sub payload now (after ++ [.tick at_]) ((sub.onTick cache at_).1.lookup id) := by
  have hticks : ∀ t, .tick t ∈ after ++ [.tick at_] ↔ .tick t ∈ after ∨ t = at_ := fun t => by simp
  rw [onTick_lookup]
  refine ⟨fun hleaving => by rw [h.left hleaving]; rfl, fun t ht hold => ?_, fun hleaving hall => ?_⟩
  · refine h.evicted ?_
    rcases (hticks t).1 ht with ht | rfl
    · exact .inl ⟨t, ht, hold⟩
    · exact .inr hold
  · obtain ⟨e, he, hseen, haddress, hindex, hhealth⟩ :=
      h.kept hleaving fun t ht => hall t ((hticks t).2 (.inl ht))
    have hage : ¬ at_ - e.lastSeen > sub.expiryAfter := by
      rw [hseen]
      exact Nat.not_lt.2 (hall at_ ((hticks at_).2 (.inr rfl)))
    rw [he, Option.bind_some, reclassify_kept hage]
    refine ⟨_, rfl, hseen, haddress, hindex, ?_⟩
    have hdegraded : (if at_ - e.lastSeen > sub.degradedAfter then PeerHealth.degraded else .healthy) =
        .degraded ↔ sub.degradedAfter < at_ - now := by
      rw [hseen]
      split <;> simp_all
    rw [hdegraded]
    -- the clock only rose: a tick that found it old enough leaves it so
    constructor
    · exact fun hlt => ⟨at_, (hticks at_).2 (.inr rfl), hlt⟩
    · rintro ⟨t, ht, hlt⟩
      have hle : t ≤ at_ := by
        rcases (hticks t).1 ht with ht | rfl
        · exact hclock _ ht
        · exact Nat.le_refl t
      omega

/-- One more item, not heard from the node. -/
theorem Told.step (h : Told sub payload now after (cache.lookup id))
    (hstep : Step sub cache item sent cache') (hsilent : Silent sub id item)
    (hclock : ∀ i ∈ after, i.now ≤ item.now) :
    Told sub payload now (after ++ [item]) (cache'.lookup id) := by
  cases hstep with
  | message at_ secs msg => exact h.unheard fun payload => hsilent at_ secs msg payload rfl
  | tick listing at_ order =>
    rw [← AList.perm_lookup order] at h
    exact h.ticked hclock

/-- A node that was not heard from is not added. -/
theorem lookup_of_silent (h : cache.lookup id = none) (hstep : Step sub cache item sent cache')
    (hsilent : Silent sub id item) : cache'.lookup id = none := by
  cases hstep with
  | message at_ secs msg =>
    rw [lookup_of_unheard fun payload => hsilent at_ secs msg payload rfl]
    exact h
  | tick listing at_ order => rw [onTick_lookup, AList.perm_lookup order, h, Option.bind_none]

/-! ## Runs -/

/-- **What the cache holds of a node, after any run**, the clock never going back.
Nothing of a node the subscriber never heard from.  Else the last message heard
from it decides: after its leaving message the node is out; after a heartbeat it
is out from the first tick that finds the heartbeat older than the expiry, and
until then in, with what the heartbeat said, and degraded exactly if a tick found
it older than two intervals. -/
theorem detector_exact (sub : Subscriber) (items : List Item) (events : List PeerEvent) (cache : PeerCache)
    (run : Run sub items events cache) (hclock : (items.map Item.now).Pairwise (· ≤ ·)) (id : String) :
    ((∀ item ∈ items, Silent sub id item) → cache.lookup id = none) ∧
    ∀ before now secs msg payload after, items = before ++ .message now secs msg :: after →
      Hears sub id msg payload → (∀ item ∈ after, Silent sub id item) →
        Told sub payload now after (cache.lookup id) := by
  induction run with
  | start => exact ⟨fun _ => rfl, fun before now secs msg payload after h => by simp at h⟩
  | @item items events sent cache cache' item run hstep ih =>
    rw [List.map_append, List.pairwise_append] at hclock
    obtain ⟨hclock, -, hlast⟩ := hclock
    obtain ⟨hnever, hlater⟩ := ih hclock
    refine ⟨fun hsilent => ?_, fun before now secs msg payload after hitems hheard hsilent => ?_⟩
    · refine lookup_of_silent (hnever fun i hi => hsilent i (List.mem_append_left _ hi)) hstep ?_
      exact hsilent item (by simp)
    · rcases List.eq_nil_or_concat after with rfl | ⟨after', last, rfl⟩
      · -- the message is the item
        obtain ⟨rfl, hitem⟩ := List.append_inj' hitems rfl
        cases List.singleton_inj.1 hitem
        cases hstep
        exact told_of_heard hheard
      · rw [List.concat_eq_append, ← List.cons_append, ← List.append_assoc] at hitems
        obtain ⟨rfl, hitem⟩ := List.append_inj' hitems rfl
        cases List.singleton_inj.1 hitem
        rw [List.concat_eq_append] at hsilent ⊢
        have htold := hlater before now secs msg payload after' rfl hheard fun i hi =>
          hsilent i (List.mem_append_left _ hi)
        refine htold.step hstep (hsilent item (by simp)) fun i hi => ?_
        refine hlast _ (List.mem_map_of_mem ?_) _ (by simp)
        exact List.mem_append_right _ (List.mem_cons_of_mem _ hi)

/-- A node heard once is degraded by the second tick after. -/
theorem detector_exact_degraded : ∃ events cache,
    Run gw1 [.message 0 0 (ofGw2 false), .tick 10, .tick 25] events cache ∧
      ∃ e, cache.lookup "gw-2" = some e ∧ e.lastSeen = 0 ∧ e.health = .degraded := by
  have heard : Run gw1 [.message 0 0 (ofGw2 false)] _ _ := .item .start (.message ∅ 0 0 (ofGw2 false))
  have ticked := heard.item (.tick _ _ 10 (.refl _))
  have degraded := ticked.item (.tick _ _ 25 (.refl _))
  have hhears : Hears gw1 "gw-2" (ofGw2 false) (gw2 false) :=
    ⟨by decide +kernel, by decide, rfl⟩
  have hsilent : ∀ item ∈ [Item.tick 10, .tick 25], Silent gw1 "gw-2" item := by
    intro item hitem now secs msg payload heq
    subst heq
    simp at hitem
  have htold := (detector_exact gw1 _ _ _ degraded (by decide) "gw-2").2 [] 0 0 (ofGw2 false) _
    [.tick 10, .tick 25] rfl hhears hsilent
  have hyoung : ∀ now, .tick now ∈ [Item.tick 10, .tick 25] → now - 0 ≤ gw1.expiryAfter := by
    intro now hmem
    have hnow : now = 10 ∨ now = 25 := by simpa using hmem
    rcases hnow with rfl | rfl <;> decide
  obtain ⟨e, he, hseen, -, -, hhealth⟩ := htold.kept rfl hyoung
  exact ⟨_, _, degraded, e, he, hseen, hhealth.2 ⟨25, by decide, by decide⟩⟩

end Detector

end ClusterNats.Peer
