import ClusterNats.Pubsub.Bus
import ClusterNats.Pubsub.Delivery
import Mathlib.Data.List.Pairwise

/-!
# What forwarders emit

Every message has a number, its place among the messages published.  What the
server handed to a forwarder keeps the order of each connection; the forwarder
reads it in the order it came, and its events are what it makes of it.

* `InOrder` — the order of the messages of one connection.
* `Forwarder.Sound`, `Forwarder.Moves` — what a forwarder was handed and emitted, and
  what a step of it does.
* `Bus.step_cases` — what a step of the bus does.
* `Bus.Sound`, `Bus.Sound.step`, `Bus.Sound.run` — the invariant of the bus.
* `events_published` — **every event is a published message, once in a queue group, in
  the order of its connection**.
* `cancelled_quiet` — **after the drop of a stream returned on the signal nothing is
  emitted**.
-/

namespace ClusterNats

/-! ## One forwarder -/

theorem getElem?_append_some {α : Type} {l l' : List α} {n : Nat} {a : α} (h : l[n]? = some a) :
    (l ++ l')[n]? = some a := by
  rw [List.getElem?_append_left (List.getElem?_eq_some_iff.1 h).1]
  exact h

/-- Message `m` was published before message `n`, if one connection carried both. -/
def InOrder (sent : List Publication) (m n : Nat) : Prop :=
  ∀ p q, sent[m]? = some p → sent[n]? = some q → p.connection = q.connection → m < n

/-- The order of two messages is settled when they are published. -/
theorem InOrder.publish {sent : List Publication} {m n : Nat} (p : Publication) (h : InOrder sent m n)
    (hm : m < sent.length) (hn : n < sent.length) : InOrder (sent ++ [p]) m n := by
  intro p' q' hp' hq'
  rw [List.getElem?_append_left hm] at hp'
  rw [List.getElem?_append_left hn] at hq'
  exact h p' q' hp' hq'

/-- The numbers of the messages a forwarder emitted or still holds, as they came. -/
def Forwarder.numbers (f : Forwarder) : List Nat := f.emitted.map Prod.fst ++ f.inbox.map Prod.fst

/-- The subscription asked for the publication. -/
def Forwarder.asked (f : Forwarder) (p : Publication) : Prop :=
  Delivers p.topic p.routingKey f.topic f.routingKey

/-- What a forwarder was handed was published and came in order, and it emitted or
holds no other message, in no other order. -/
structure Forwarder.Sound (sent : List Publication) (f : Forwarder) : Prop where
  bounded : ∀ n ∈ f.handed, n < sent.length
  ordered : f.handed.Pairwise (InOrder sent)
  numbers : f.numbers.Sublist f.handed
  inbox : ∀ n msg, (n, msg) ∈ f.inbox → ∃ p, sent[n]? = some p ∧ msg = p.message ∧ f.asked p
  events : ∀ n e, (n, e) ∈ f.emitted →
    ∃ p, sent[n]? = some p ∧ e = forward f.topic p.message ∧ f.asked p
  quiet : f.cancel = .returned true → f.phase = .dropped

section Forwarders

variable {f f' : Forwarder} {s : ForwarderStep} {sent : List Publication}

/-- What a step does: the subscription stays; at most the next message is read, and
its event emitted or not; a dropped task does nothing, and the drop of the
stream returns on the signal only where the task was dropped. -/
structure Forwarder.Moves (f f' : Forwarder) : Prop where
  topic : f'.topic = f.topic
  group : f'.group = f.group
  routingKey : f'.routingKey = f.routingKey
  handed : f'.handed = f.handed
  reads : (f'.inbox = f.inbox ∧ f'.emitted = f.emitted) ∨
    ∃ n msg, f.inbox = (n, msg) :: f'.inbox ∧
      (f'.emitted = f.emitted ∨ f'.emitted = f.emitted ++ [(n, forward f.topic msg)])
  settled : f.phase = .dropped → f'.phase = .dropped ∧ f'.emitted = f.emitted
  quiet : f'.cancel = .returned true → f.phase = .dropped ∨ f.cancel = .returned true

theorem Forwarder.step_moves (h : f.step s = some f') : f.Moves f' := by
  cases s with
  | subscribed ok =>
    obtain ⟨hphase, heq⟩ := Option.ite_none_right_eq_some.1 h
    cases heq
    exact ⟨rfl, rfl, rfl, rfl, .inl ⟨rfl, rfl⟩, fun hd => by simp [hphase] at hd, .inr⟩
  | next serialises =>
    obtain ⟨hphase, h⟩ := Option.ite_none_right_eq_some.1 h
    have hsettled : ∀ {p : Prop}, f.phase = .dropped → p := fun hd => by simp [hphase] at hd
    cases hinbox : f.inbox with
    | nil => simp [hinbox] at h
    | cons d rest =>
      obtain ⟨n, msg⟩ := d
      simp only [hinbox] at h
      cases serialises with
      | true =>
        cases h
        exact ⟨rfl, rfl, rfl, rfl, .inr ⟨n, msg, hinbox, .inr rfl⟩, hsettled, .inr⟩
      | false =>
        cases h
        exact ⟨rfl, rfl, rfl, rfl, .inr ⟨n, msg, hinbox, .inl rfl⟩, hsettled, .inr⟩
  | ended =>
    obtain ⟨hphase, heq⟩ := Option.ite_none_right_eq_some.1 h
    cases heq
    exact ⟨rfl, rfl, rfl, rfl, .inl ⟨rfl, rfl⟩, fun _ => ⟨rfl, rfl⟩, .inr⟩
  | emitted =>
    obtain ⟨hphase, heq⟩ := Option.ite_none_right_eq_some.1 h
    cases heq
    exact ⟨rfl, rfl, rfl, rfl, .inl ⟨rfl, rfl⟩, fun hd => by simp [hphase] at hd, .inr⟩
  | cancel =>
    obtain ⟨hheld, heq⟩ := Option.ite_none_right_eq_some.1 h
    cases heq
    exact ⟨rfl, rfl, rfl, rfl, .inl ⟨rfl, rfl⟩, fun hd => ⟨hd, rfl⟩, fun hq => by simp at hq⟩
  | aborted =>
    obtain ⟨-, heq⟩ := Option.ite_none_right_eq_some.1 h
    cases heq
    exact ⟨rfl, rfl, rfl, rfl, .inl ⟨rfl, rfl⟩, fun _ => ⟨rfl, rfl⟩, .inr⟩
  | cancelled signalled =>
    obtain ⟨⟨-, hdropped⟩, heq⟩ := Option.ite_none_right_eq_some.1 h
    cases heq
    exact ⟨rfl, rfl, rfl, rfl, .inl ⟨rfl, rfl⟩, fun hd => ⟨hd, rfl⟩,
      fun hq => .inl (hdropped (by simpa using hq))⟩

/-- A step drops messages of the forwarder and moves none past another. -/
theorem Forwarder.Moves.numbers (h : f.Moves f') : f'.numbers.Sublist f.numbers := by
  unfold Forwarder.numbers
  rcases h.reads with ⟨hinbox, hemitted⟩ | ⟨n, msg, hinbox, hemitted | hemitted⟩
  · rw [hinbox, hemitted]
  · rw [hinbox, hemitted]
    exact (List.Sublist.refl _).append (List.sublist_cons_self _ _)
  · rw [hinbox, hemitted]
    simp

theorem Forwarder.Moves.sound (h : f.Moves f') (hf : f.Sound sent) : f'.Sound sent where
  bounded := by rw [h.handed]; exact hf.bounded
  ordered := by rw [h.handed]; exact hf.ordered
  numbers := by rw [h.handed]; exact h.numbers.trans hf.numbers
  inbox n msg hmem := by
    have hold : (n, msg) ∈ f.inbox := by
      rcases h.reads with ⟨hinbox, -⟩ | ⟨n', msg', hinbox, -⟩
      · rwa [← hinbox]
      · rw [hinbox]
        exact List.mem_cons_of_mem _ hmem
    obtain ⟨p, hp, hmsg, hasked⟩ := hf.inbox n msg hold
    refine ⟨p, hp, hmsg, ?_⟩
    rwa [Forwarder.asked, h.topic, h.routingKey]
  events n e hmem := by
    have hcase : (n, e) ∈ f.emitted ∨ ∃ msg, (n, msg) ∈ f.inbox ∧ e = forward f.topic msg := by
      rcases h.reads with ⟨-, hemitted⟩ | ⟨n', msg', hinbox, hemitted | hemitted⟩
      · exact .inl (hemitted ▸ hmem)
      · exact .inl (hemitted ▸ hmem)
      · rw [hemitted] at hmem
        rcases List.mem_append.1 hmem with hold | hnew
        · exact .inl hold
        · cases List.mem_singleton.1 hnew
          exact .inr ⟨msg', by rw [hinbox]; exact List.mem_cons_self, rfl⟩
    have hasks : ∀ p, f.asked p → f'.asked p := by
      intro p hasked
      rwa [Forwarder.asked, h.topic, h.routingKey]
    rw [h.topic]
    rcases hcase with hold | ⟨msg, hinbox, heq⟩
    · obtain ⟨p, hp, heq, hasked⟩ := hf.events n e hold
      exact ⟨p, hp, heq, hasks p hasked⟩
    · obtain ⟨p, hp, hmsg, hasked⟩ := hf.inbox n msg hinbox
      exact ⟨p, hp, by rw [heq, hmsg], hasks p hasked⟩
  quiet hq := by
    rcases h.quiet hq with hdropped | hbefore
    · exact (h.settled hdropped).1
    · exact (h.settled (hf.quiet hbefore)).1

/-- No message is handed to a forwarder twice. -/
theorem Forwarder.Sound.nodup (hf : f.Sound sent) : f.handed.Nodup := by
  refine hf.ordered.imp_of_mem ?_
  rintro m n hm - hinOrder rfl
  have hp := List.getElem?_eq_getElem (hf.bounded m hm)
  exact Nat.lt_irrefl m (hinOrder _ _ hp hp rfl)

/-- A forwarder is handed a message it asked for, later than those of its connection
that it was handed before. -/
theorem Forwarder.Sound.receive {n : Nat} {p : Publication} (hf : f.Sound sent) (hp : sent[n]? = some p)
    (hasked : f.asked p) (hlater : ∀ m ∈ f.handed, ∀ q ∈ sent[m]?, q.connection = p.connection → m < n) :
    (f.receive n p.message).Sound sent where
  bounded m hm := by
    rcases List.mem_append.1 hm with hold | hnew
    · exact hf.bounded m hold
    · rw [List.mem_singleton.1 hnew]
      exact (List.getElem?_eq_some_iff.1 hp).1
  ordered := by
    refine List.pairwise_append.2 ⟨hf.ordered, List.pairwise_singleton _ _, fun m hm k hk => ?_⟩
    obtain rfl := List.mem_singleton.1 hk
    intro q p' hq hp' hconnection
    cases Option.some.inj (hp.symm.trans hp')
    exact hlater m hm q hq hconnection
  numbers := by
    have hnumbers : (f.receive n p.message).numbers = f.numbers ++ [n] := by
      simp [Forwarder.numbers, Forwarder.receive]
    rw [hnumbers]
    exact hf.numbers.append (List.Sublist.refl _)
  inbox m msg hmem := by
    rcases List.mem_append.1 hmem with hold | hnew
    · exact hf.inbox m msg hold
    · cases List.mem_singleton.1 hnew
      exact ⟨p, hp, rfl, hasked⟩
  events := hf.events
  quiet := hf.quiet

/-- What a forwarder was handed does not change with later publications. -/
theorem Forwarder.Sound.publish (hf : f.Sound sent) (p : Publication) : f.Sound (sent ++ [p]) where
  bounded n hn := by
    rw [List.length_append]
    exact Nat.lt_of_lt_of_le (hf.bounded n hn) (Nat.le_add_right _ _)
  ordered := hf.ordered.imp_of_mem fun hm hn h => h.publish p (hf.bounded _ hm) (hf.bounded _ hn)
  numbers := hf.numbers
  inbox n msg hmem := by
    obtain ⟨q, hq, hmsg, hq'⟩ := hf.inbox n msg hmem
    exact ⟨q, getElem?_append_some hq, hmsg, hq'⟩
  events n e hmem := by
    obtain ⟨q, hq, heq, hq'⟩ := hf.events n e hmem
    exact ⟨q, getElem?_append_some hq, heq, hq'⟩
  quiet := hf.quiet

end Forwarders

/-! ## The bus -/

section Buses

variable {bus bus' : Bus} {c : BusChoice} {cs : List BusChoice} {sent : List Publication}

/-- Every forwarder is sound, and no message went to two of one queue group. -/
structure Bus.Sound (bus : Bus) : Prop where
  accepted : ∀ p ∈ bus.sent, Accepted p.topic p.routingKey
  forwarders : ∀ (i : Nat) (f : Forwarder), bus.forwarders[i]? = some f → f.Sound bus.sent
  apart : ∀ (i j : Nat) (f g : Forwarder), bus.forwarders[i]? = some f → bus.forwarders[j]? = some g →
    i ≠ j → f.rivals g = true → f.handed.Disjoint g.handed

/-- A forwarder that starts was handed nothing. -/
theorem subscribe_ok {topic : String} {group routingKey : Option String} {f : Forwarder}
    (h : subscribe topic group routingKey = .ok f) :
    f = { topic := topic, group := group, routingKey := routingKey } := by
  unfold subscribe at h
  split at h
  · cases h
  · cases hrk : rejectReservedRoutingKey routingKey with
    | error e => rw [hrk] at h; cases h
    | ok u =>
      rw [hrk] at h
      exact (Except.ok.inj h).symm

/-- What a step of the bus does. -/
theorem Bus.step_cases (h : bus.step c = some bus') :
    bus' = bus ∨
    (∃ p, Accepted p.topic p.routingKey ∧ bus' = { bus with sent := bus.sent ++ [p] }) ∨
    (∃ n i p f, bus.sent[n]? = some p ∧ bus.forwarders[i]? = some f ∧ bus.MayDeliver n p f ∧
      bus' = { bus with forwarders := bus.forwarders.set i (f.receive n p.message) }) ∨
    (∃ topic group routingKey, bus' = { bus with
      forwarders := bus.forwarders ++ [{ topic := topic, group := group, routingKey := routingKey }] }) ∨
    ∃ i f s f', bus.forwarders[i]? = some f ∧ f.step s = some f' ∧
      bus' = { bus with forwarders := bus.forwarders.set i f' } := by
  cases c with
  | publish p =>
    simp only [Bus.step] at h
    cases hpub : publishAsync (fun _ => .ok ()) p.node p.topic p.routingKey p.payload with
    | error e =>
      rw [hpub] at h
      exact .inl (Option.some.inj h).symm
    | ok u =>
      rw [hpub] at h
      exact .inr (.inl ⟨p, (publishAsync_ok hpub).1, (Option.some.inj h).symm⟩)
  | deliver n i =>
    obtain ⟨p, hp, h⟩ := Option.bind_eq_some_iff.1 h
    obtain ⟨f, hf, h⟩ := Option.bind_eq_some_iff.1 h
    obtain ⟨hmay, heq⟩ := Option.ite_none_right_eq_some.1 h
    exact .inr (.inr (.inl ⟨n, i, p, f, hp, hf, hmay, (Option.some.inj heq).symm⟩))
  | subscribe topic group routingKey =>
    simp only [Bus.step] at h
    cases hsub : subscribe topic group routingKey with
    | error e =>
      rw [hsub] at h
      exact .inl (Option.some.inj h).symm
    | ok f =>
      rw [hsub] at h
      obtain rfl := subscribe_ok hsub
      exact .inr (.inr (.inr (.inl ⟨topic, group, routingKey, (Option.some.inj h).symm⟩)))
  | forwarder i s =>
    obtain ⟨f, hf, h⟩ := Option.bind_eq_some_iff.1 h
    obtain ⟨f', hs, rfl⟩ := Option.map_eq_some_iff.1 h
    exact .inr (.inr (.inr (.inr ⟨i, f, s, f', hf, hs, rfl⟩)))

theorem Forwarder.Moves.rivals {f f' g g' : Forwarder} (hf : f.Moves f') (hg : g.Moves g') :
    f'.rivals g' = f.rivals g := by
  unfold Forwarder.rivals
  rw [hf.group, hg.group]

theorem Forwarder.Moves.refl (f : Forwarder) : f.Moves f :=
  ⟨rfl, rfl, rfl, rfl, .inl ⟨rfl, rfl⟩, fun h => ⟨h, rfl⟩, .inr⟩

theorem Bus.Sound.published (h : bus.Sound) {p : Publication} (haccepted : Accepted p.topic p.routingKey) :
    Bus.Sound { bus with sent := bus.sent ++ [p] } where
  accepted q hq := by
    rcases List.mem_append.1 hq with hold | hnew
    · exact h.accepted q hold
    · rw [List.mem_singleton.1 hnew]
      exact haccepted
  forwarders i f hf := (h.forwarders i f hf).publish p
  apart := h.apart

/-- A forwarder of the bus once one of them is replaced. -/
theorem getElem?_set_cases {fs : List Forwarder} {k i : Nat} {f₀ f₁ f : Forwarder} (hf₀ : fs[k]? = some f₀)
    (hf : (fs.set k f₁)[i]? = some f) : (k = i ∧ f = f₁) ∨ (k ≠ i ∧ fs[i]? = some f) := by
  by_cases hk : k = i
  · subst hk
    have hlt : k < fs.length := (List.getElem?_eq_some_iff.1 hf₀).1
    rw [List.getElem?_set_self hlt] at hf
    exact .inl ⟨rfl, (Option.some.inj hf).symm⟩
  · rw [List.getElem?_set_ne hk] at hf
    exact .inr ⟨hk, hf⟩

theorem Forwarder.rivals_comm (f g : Forwarder) : f.rivals g = g.rivals f := by
  unfold Forwarder.rivals
  by_cases hgroup : f.group = g.group
  · rw [hgroup]
  · simp [hgroup, Ne.symm hgroup]

/-- A message is handed to one forwarder: it is new to it and to its rivals. -/
theorem Bus.Sound.delivered {n k : Nat} {p : Publication} {f₀ : Forwarder} (h : bus.Sound)
    (hp : bus.sent[n]? = some p) (hf₀ : bus.forwarders[k]? = some f₀) (hmay : bus.MayDeliver n p f₀) :
    Bus.Sound { bus with forwarders := bus.forwarders.set k (f₀.receive n p.message) } := by
  obtain ⟨htakes, hlater, hrivals⟩ := hmay
  have hasked : f₀.asked p := ((Bool.and_eq_true _ _).mp htakes).2
  have hnew : ∀ (j : Nat) (g : Forwarder), bus.forwarders[j]? = some g → k ≠ j → f₀.rivals g = true →
      (f₀.receive n p.message).handed.Disjoint g.handed := by
    intro j g hg hkj hrival
    refine List.disjoint_append_left.2 ⟨h.apart k j f₀ g hf₀ hg hkj hrival, ?_⟩
    exact List.singleton_disjoint.2 (hrivals g (List.mem_of_getElem? hg) hrival)
  refine ⟨h.accepted, fun i f hf => ?_, fun i j f g hf hg hij hrival => ?_⟩
  · rcases getElem?_set_cases hf₀ hf with ⟨-, rfl⟩ | ⟨-, hf⟩
    · exact (h.forwarders k f₀ hf₀).receive hp hasked hlater
    · exact h.forwarders i f hf
  · rcases getElem?_set_cases hf₀ hf with ⟨rfl, rfl⟩ | ⟨-, hf⟩
    · rcases getElem?_set_cases hf₀ hg with ⟨rfl, -⟩ | ⟨hkj, hg⟩
      · exact absurd rfl hij
      · exact hnew j g hg hkj hrival
    · rcases getElem?_set_cases hf₀ hg with ⟨rfl, rfl⟩ | ⟨-, hg⟩
      · rw [Forwarder.rivals_comm] at hrival
        exact fun m hm hm' => hnew i f hf (Ne.symm hij) hrival hm' hm
      · exact h.apart i j f g hf hg hij hrival

/-- A forwarder that starts is sound: it was handed nothing. -/
theorem Forwarder.sound_fresh (topic : String) (group routingKey : Option String) :
    Forwarder.Sound sent { topic := topic, group := group, routingKey := routingKey } := by
  refine ⟨by simp, .nil, by simp [Forwarder.numbers], by simp, by simp, fun hreturned => ?_⟩
  cases hreturned

theorem Bus.Sound.subscribed (h : bus.Sound) (topic : String) (group routingKey : Option String) :
    Bus.Sound { bus with
      forwarders := bus.forwarders ++ [{ topic := topic, group := group, routingKey := routingKey }] } := by
  have hcases : ∀ (i : Nat) (f : Forwarder), (bus.forwarders ++
      [{ topic := topic, group := group, routingKey := routingKey }])[i]? = some f →
      bus.forwarders[i]? = some f ∨ f = { topic := topic, group := group, routingKey := routingKey } := by
    intro i f hf
    rcases Nat.lt_or_ge i bus.forwarders.length with hi | hi
    · rw [List.getElem?_append_left hi] at hf
      exact .inl hf
    · rw [List.getElem?_append_right hi] at hf
      exact .inr (List.mem_singleton.1 (List.mem_of_getElem? hf))
  refine ⟨h.accepted, fun i f hf => ?_, fun i j f g hf hg hij hrivals => ?_⟩
  · rcases hcases i f hf with hf | rfl
    · exact h.forwarders i f hf
    · exact Forwarder.sound_fresh topic group routingKey
  · rcases hcases i f hf with hf | rfl
    · rcases hcases j g hg with hg | rfl
      · exact h.apart i j f g hf hg hij hrivals
      · simp
    · simp

theorem Bus.Sound.moved {k : Nat} {f₀ f₁ : Forwarder} (h : bus.Sound)
    (hf₀ : bus.forwarders[k]? = some f₀) (hmoves : f₀.Moves f₁) :
    Bus.Sound { bus with forwarders := bus.forwarders.set k f₁ } := by
  have hcases : ∀ (i : Nat) (f : Forwarder), (bus.forwarders.set k f₁)[i]? = some f →
      ∃ e, bus.forwarders[i]? = some e ∧ e.Moves f := by
    intro i f hf
    rcases getElem?_set_cases hf₀ hf with ⟨rfl, rfl⟩ | ⟨-, hf⟩
    · exact ⟨f₀, hf₀, hmoves⟩
    · exact ⟨f, hf, .refl f⟩
  refine ⟨h.accepted, fun i f hf => ?_, fun i j f g hf hg hij hrivals => ?_⟩
  · obtain ⟨e, he, hmoves⟩ := hcases i f hf
    exact hmoves.sound (h.forwarders i e he)
  · obtain ⟨f', hf', hmf⟩ := hcases i f hf
    obtain ⟨g', hg', hmg⟩ := hcases j g hg
    rw [hmf.rivals hmg] at hrivals
    rw [hmf.handed, hmg.handed]
    exact h.apart i j f' g' hf' hg' hij hrivals

/-- **A step keeps the bus sound.** -/
theorem Bus.Sound.step (h : bus.Sound) (hs : bus.step c = some bus') : bus'.Sound := by
  rcases Bus.step_cases hs with rfl | ⟨p, haccepted, rfl⟩ | ⟨n, k, p, f₀, hp, hf₀, hmay, rfl⟩ |
    ⟨topic, group, routingKey, rfl⟩ | ⟨k, f₀, s, f₁, hf₀, hstep, rfl⟩
  · exact h
  · exact h.published haccepted
  · exact h.delivered hp hf₀ hmay
  · exact h.subscribed topic group routingKey
  · exact h.moved hf₀ (Forwarder.step_moves hstep)

/-- **A run keeps the bus sound.** -/
theorem Bus.Sound.run (h : bus.Sound) (hrun : bus.run cs = some bus') : bus'.Sound := by
  induction cs generalizing bus with
  | nil => exact Option.some.inj hrun ▸ h
  | cons c cs ih =>
    obtain ⟨bus₁, hs, hrun⟩ := Option.bind_eq_some_iff.1 hrun
    exact ih (h.step hs) hrun

theorem Bus.sound_empty : Bus.empty.Sound where
  accepted p hp := absurd hp (by simp [Bus.empty])
  forwarders i f hf := absurd hf (by simp [Bus.empty])
  apart i j f g hf := absurd hf (by simp [Bus.empty])

/-- **Every event is a published message.**  In any run of the bus the events of a
forwarder are of messages handed to it, none twice, and those of one connection
in the order they were published; each was published, on a topic and routing key
the subscription's pattern matches, and carries its payload, its node, and for
the subscription's own topic its routing key; and no message makes an event at
two forwarders of one queue group. -/
theorem events_published (cs : List BusChoice) (bus : Bus) (hrun : Bus.empty.run cs = some bus) (i : Nat)
    (f : Forwarder) (hf : bus.forwarders[i]? = some f) :
    (f.emitted.map Prod.fst).Nodup ∧ (f.emitted.map Prod.fst).Pairwise (InOrder bus.sent) ∧
    (∀ n e, (n, e) ∈ f.emitted → ∃ p, bus.sent[n]? = some p ∧ Accepted p.topic p.routingKey ∧
      Delivers p.topic p.routingKey f.topic f.routingKey ∧ e.topic = f.topic ∧ e.payload = p.payload ∧
      e.fromNode = p.node ∧ (p.topic = f.topic → e.routingKey = givenKey p.routingKey)) ∧
    ∀ j g, bus.forwarders[j]? = some g → i ≠ j → f.rivals g = true →
      (f.emitted.map Prod.fst).Disjoint (g.emitted.map Prod.fst) := by
  have hsound := Bus.sound_empty.run hrun
  have hemitted : ∀ (k : Nat) (e : Forwarder), bus.forwarders[k]? = some e →
      (e.emitted.map Prod.fst).Sublist e.handed := fun k e he =>
    (List.sublist_append_left _ _).trans (hsound.forwarders k e he).numbers
  have hmine := hsound.forwarders i f hf
  refine ⟨hmine.nodup.sublist (hemitted i f hf), hmine.ordered.sublist (hemitted i f hf),
    fun n e hmem => ?_, fun j g hg hij hrivals n hn hn' => ?_⟩
  · obtain ⟨p, hp, rfl, hasked⟩ := hmine.events n e hmem
    have haccepted := hsound.accepted p (List.mem_of_getElem? hp)
    refine ⟨p, hp, haccepted, hasked, rfl, rfl, ?_, fun htopic => ?_⟩
    · simp [forward, Publication.message, HeaderMap.get, fromUtf8_bytes]
    · show recoverRoutingKey f.topic (renderSubject p.topic p.routingKey) = givenKey p.routingKey
      rw [← htopic]
      exact recoverRoutingKey_renderSubject haccepted
  · exact hsound.apart i j f g hf hg hij hrivals ((hemitted i f hf).subset hn)
      ((hemitted j g hg).subset hn')

/-- Two workers of one queue group, one of them on the key `placed` only.  The message
of node `b` comes after a later one of node `a`. -/
def twoWorkers : List BusChoice :=
  [.subscribe "orders" (some "workers") none, .subscribe "orders" (some "workers") (some "placed"),
    .forwarder 0 (.subscribed true), .forwarder 1 (.subscribed true),
    .publish ⟨0, "a", "orders", some "placed", [1]⟩, .publish ⟨1, "b", "orders", none, [2]⟩,
    .publish ⟨0, "a", "orders", none, [3]⟩, .deliver 0 1, .deliver 2 0, .deliver 1 0,
    .forwarder 0 (.next true), .forwarder 1 (.next true), .forwarder 0 .emitted,
    .forwarder 0 (.next true)]

theorem events_published_workers : ∃ bus ∈ Bus.empty.run twoWorkers, ∃ f g,
    bus.forwarders[0]? = some f ∧ bus.forwarders[1]? = some g ∧
      f.emitted = [(2, ⟨"orders", none, [3], "a"⟩), (1, ⟨"orders", none, [2], "b"⟩)] ∧
      (f.emitted.map Prod.fst).Pairwise (InOrder bus.sent) ∧
      (f.emitted.map Prod.fst).Disjoint (g.emitted.map Prod.fst) := by
  have hrun : ∃ bus ∈ Bus.empty.run twoWorkers, ∃ f, bus.forwarders[0]? = some f ∧ ∃ g,
      bus.forwarders[1]? = some g ∧
        f.emitted = [(2, ⟨"orders", none, [3], "a"⟩), (1, ⟨"orders", none, [2], "b"⟩)] ∧
        f.rivals g = true := by
    decide +kernel
  obtain ⟨bus, hbus, f, hf, g, hg, hemitted, hrivals⟩ := hrun
  obtain ⟨-, hordered, -, hdisjoint⟩ := events_published twoWorkers bus hbus 0 f hf
  exact ⟨bus, hbus, f, g, hf, hg, hemitted, hordered, hdisjoint 1 g hg (by decide) hrivals⟩

/-! ## Cancelled streams -/

/-- No forwarder goes away, and one whose task was dropped emits nothing. -/
theorem Bus.step_forwarder {i : Nat} {f : Forwarder} (hs : bus.step c = some bus')
    (hf : bus.forwarders[i]? = some f) : ∃ f', bus'.forwarders[i]? = some f' ∧
      (f.phase = .dropped → f'.phase = .dropped ∧ f'.emitted = f.emitted) := by
  -- a step puts a forwarder in place of another, or leaves it
  have hset : ∀ (k : Nat) (f₀ f₁ : Forwarder), bus.forwarders[k]? = some f₀ →
      (f₀.phase = .dropped → f₁.phase = .dropped ∧ f₁.emitted = f₀.emitted) →
      ∃ f', (bus.forwarders.set k f₁)[i]? = some f' ∧
        (f.phase = .dropped → f'.phase = .dropped ∧ f'.emitted = f.emitted) := by
    intro k f₀ f₁ hf₀ hkeeps
    by_cases hk : k = i
    · subst hk
      cases Option.some.inj (hf₀.symm.trans hf)
      exact ⟨f₁, List.getElem?_set_self (List.getElem?_eq_some_iff.1 hf).1, hkeeps⟩
    · exact ⟨f, by rw [List.getElem?_set_ne hk]; exact hf, fun h => ⟨h, rfl⟩⟩
  rcases Bus.step_cases hs with rfl | ⟨p, -, rfl⟩ | ⟨n, k, p, f₀, -, hf₀, -, rfl⟩ |
    ⟨topic, group, routingKey, rfl⟩ | ⟨k, f₀, s, f₁, hf₀, hstep, rfl⟩
  · exact ⟨f, hf, fun h => ⟨h, rfl⟩⟩
  · exact ⟨f, hf, fun h => ⟨h, rfl⟩⟩
  · exact hset k f₀ _ hf₀ fun h => ⟨h, rfl⟩
  · exact ⟨f, getElem?_append_some hf, fun h => ⟨h, rfl⟩⟩
  · exact hset k f₀ f₁ hf₀ (Forwarder.step_moves hstep).settled

theorem Bus.run_dropped {i : Nat} {f : Forwarder} (hrun : bus.run cs = some bus')
    (hf : bus.forwarders[i]? = some f) (hdropped : f.phase = .dropped) :
    ∃ f', bus'.forwarders[i]? = some f' ∧ f'.phase = .dropped ∧ f'.emitted = f.emitted := by
  induction cs generalizing bus f with
  | nil => exact ⟨f, Option.some.inj hrun ▸ hf, hdropped, rfl⟩
  | cons c cs ih =>
    obtain ⟨bus₁, hs, hrun⟩ := Option.bind_eq_some_iff.1 hrun
    obtain ⟨f₁, hf₁, hkeeps⟩ := Bus.step_forwarder hs hf
    obtain ⟨hdropped₁, hemitted₁⟩ := hkeeps hdropped
    obtain ⟨f', hf', hdropped', hemitted'⟩ := ih hrun hf₁ hdropped₁
    exact ⟨f', hf', hdropped', hemitted'.trans hemitted₁⟩

/-- **A cancelled stream is quiet.**  Once the drop of a stream returned on the
signal of its task, no call of `emit_event` runs and none begins, in any state
that any further run reaches. -/
theorem cancelled_quiet (cs : List BusChoice) (bus : Bus) (hrun : Bus.empty.run cs = some bus) (i : Nat)
    (f : Forwarder) (hf : bus.forwarders[i]? = some f) (hreturned : f.cancel = .returned true)
    (ds : List BusChoice) (bus' : Bus) (hrun' : bus.run ds = some bus') :
    ∃ f', bus'.forwarders[i]? = some f' ∧ f'.phase = .dropped ∧ f'.emitted = f.emitted :=
  Bus.run_dropped hrun' hf (((Bus.sound_empty.run hrun).forwarders i f hf).quiet hreturned)

/-- A stream is dropped while its event is emitted, with a message to come. -/
def droppedWhileEmitting : List BusChoice :=
  [.subscribe "orders" none none, .forwarder 0 (.subscribed true),
    .publish ⟨0, "a", "orders", none, [1]⟩, .deliver 0 0, .publish ⟨0, "a", "orders", none, [2]⟩,
    .deliver 1 0, .forwarder 0 (.next true), .forwarder 0 .cancel, .forwarder 0 .emitted,
    .forwarder 0 .aborted, .forwarder 0 (.cancelled true)]

theorem cancelled_quiet_while_emitting : ∃ bus ∈ Bus.empty.run droppedWhileEmitting, ∃ f,
    bus.forwarders[0]? = some f ∧ f.inbox ≠ [] ∧
      ∀ ds bus', bus.run ds = some bus' → ∃ f', bus'.forwarders[0]? = some f' ∧ f'.phase = .dropped ∧
        f'.emitted = f.emitted := by
  have hrun : ∃ bus ∈ Bus.empty.run droppedWhileEmitting, ∃ f, bus.forwarders[0]? = some f ∧
      f.inbox ≠ [] ∧ f.cancel = .returned true := by
    decide +kernel
  obtain ⟨bus, hbus, f, hf, hinbox, hreturned⟩ := hrun
  exact ⟨bus, hbus, f, hf, hinbox,
    cancelled_quiet droppedWhileEmitting bus hbus 0 f hf hreturned⟩

end Buses

end ClusterNats
