import ClusterNats.Conc.Strands
import ClusterNats.Kv.Lapse

/-!
# Who owes a key its index record

A call that makes a key present writes the key's index record next, and a call
that removes an index record reads the key again afterwards and restores the
record of a live one.  Between its two steps the call owes the key the record.

* `Owes` — what is left of a program ends in the index record, or finds the key
  absent.
* `Charges`, `Excused`, `Pays` — after which request a program owes, and after
  which it need not.
* `pays_op`, `pays_job` — every program pays.
-/

namespace ClusterNats

open Conc

/-- What is left of a program writes the index record of `key`, or finds the key
absent first: it removes what it likes, reads the key, judges what it read, and
publishes.  `tr` is what `who` did before. -/
def Owes (key : String) (who : Actor) {α : Type} : Kv α → List KvEvent → Prop
  | .req (.publish subject _ _ expected) _, _ => subject = indexKey key ∧ expected = some 0
  | .req (.purge subject keep) k, tr => ∀ s,
    Owes key who (k (Except.ok ())) (⟨who, .purge subject keep, Except.ok (), s⟩ :: tr)
  | .req (.getLast subject) k, tr => subject = encodeKey key ∧ ∀ s : Server, s.Live key →
    Owes key who (k (Except.ok (s.bucket.last subject))) (readEvent who subject s :: tr)
  | .req .systemTime k, tr => ∃ s before, tr = readEvent who (encodeKey key) s :: before ∧
    s.Live key ∧ ∀ s' : Server, (s.asOf s'.clock).Live key →
      Owes key who (k s'.clock) (clockEvent who s' :: tr)
  | _, _ => False

/-- A request that takes the index record of `key`, or may make the key present,
and was answered. -/
def Charges (key : String) : (r : Req) → Resp r → Prop
  | .publish subject _ _ _, x => subject = encodeKey key ∧ ∃ ack, x = Except.ok ack
  | .purge subject _, x => subject = indexKey key ∧ x = Except.ok ()
  | _, _ => False

/-- A write of the data record of `key` that makes no absent key present: a
marker, a write over a value that was found live, or the record read before with
other headers. -/
inductive Excused (key : String) (op : Op) (who : Actor) (tr : List KvEvent) : Req → Prop
  | marker : Excused key op who tr (.publish (encodeKey key)
      [(kvOperationHeader, bytes "DEL")] [] none)
  | found {value : Bytes} {exp : Option UInt64} {revision : Nat} {headers : HeaderMap}
      {payload : Bytes} (hop : op.revises = some key)
      (h : Judged who key tr (.live value exp revision)) :
      Excused key op who tr (.publish (encodeKey key) headers payload (some revision))
  | same {s : Server} {m : StoredMessage} {headers : HeaderMap} {payload : Bytes}
      (hread : readEvent who (encodeKey key) s ∈ tr)
      (hm : s.bucket.last (encodeKey key) = some m)
      (hput : Record.recordOperation m.body.headers = .put) (hpayload : payload = m.body.payload) :
      Excused key op who tr (.publish (encodeKey key) headers payload (some m.seq))

/-- A program that owes after every request that charges it, but for those it is
excused. -/
def Pays (api : CounterApi) (key : String) (op : Op) (who : Actor) {α : Type} :
    Kv α → List KvEvent → Prop
  | .req r k, tr => ∀ x s, Answers api ⟨who, r, x, s⟩ →
    (Charges key r x → Excused key op who tr r ∨ Owes key who (k x) (⟨who, r, x, s⟩ :: tr)) ∧
      Pays api key op who (k x) (⟨who, r, x, s⟩ :: tr)
  | .spawn _ _ k, tr => Pays api key op who k tr
  | .join k, tr => ∀ rs, Pays api key op who (k rs) tr
  | .tryJoin k, tr => ∀ rs, Pays api key op who (k rs) tr
  | _, _ => True

section Rules

variable {api : CounterApi} {key : String} {op : Op} {who : Actor} {α β : Type}
  {tr : List KvEvent}

/-! ## Rules -/

theorem Owes.bind {p : Kv α} (f : α → Kv β) (h : Owes key who p tr) :
    Owes key who (p >>= f) tr := by
  induction p generalizing tr with
  | req r k ih =>
    cases r with
    | publish subject headers payload expected => exact h
    | purge subject keep => exact fun s => ih _ (h s)
    | getLast subject => exact ⟨h.1, fun s hs => ih _ (h.2 s hs)⟩
    | systemTime =>
      obtain ⟨s, before, htr, hlive, hk⟩ := h
      exact ⟨s, before, htr, hlive, fun s' hs' => ih _ (hk s' hs')⟩
    | _ => exact absurd h id
  | _ => exact absurd h id

theorem Owes.attempt {p : Kv α} (h : Owes key who p tr) : Owes key who p.attempt tr := by
  induction p generalizing tr with
  | req r k ih =>
    cases r with
    | publish subject headers payload expected => exact h
    | purge subject keep => exact fun s => ih _ (h s)
    | getLast subject => exact ⟨h.1, fun s hs => ih _ (h.2 s hs)⟩
    | systemTime =>
      obtain ⟨s, before, htr, hlive, hk⟩ := h
      exact ⟨s, before, htr, hlive, fun s' hs' => ih _ (hk s' hs')⟩
    | _ => exact absurd h id
  | _ => exact absurd h id

theorem Pays.bind {p : Kv α} {f : α → Kv β} (h : Pays api key op who p tr)
    (hf : ∀ a tr', tr <:+ tr' → Pays api key op who (f a) tr') :
    Pays api key op who (p >>= f) tr := by
  induction p generalizing tr with
  | ret a => exact hf a tr List.suffix_rfl
  | req r k ih =>
    intro x s hx
    obtain ⟨hcharge, hk⟩ := h x s hx
    refine ⟨fun hc => (hcharge hc).imp_right fun ho => ho.bind f, ?_⟩
    exact ih x hk fun a tr' htr => hf a tr' ((List.suffix_cons _ _).trans htr)
  | spawn cap j k ih => exact ih h hf
  | join k ih => exact fun rs => ih rs (h rs) hf
  | tryJoin k ih => exact fun rs => ih rs (h rs) hf
  | fail e => trivial
  | stuck => trivial

/-- What follows a first part knows how that ended. -/
theorem Pays.bind_abides {p : Kv α} {f : α → Kv β} {G : List KvEvent → Req → Prop}
    {Q : List KvEvent → Except ClusterError α → Prop} (h : Pays api key op who p tr)
    (hp : p.Abides who (Answers api) G Q tr)
    (hf : ∀ a tr', Q tr' (.ok a) → Pays api key op who (f a) tr') :
    Pays api key op who (p >>= f) tr := by
  induction p generalizing tr with
  | ret a => exact hf a tr hp
  | req r k ih =>
    intro x s hx
    obtain ⟨hcharge, hk⟩ := h x s hx
    exact ⟨fun hc => (hcharge hc).imp_right fun ho => ho.bind f, ih x hk (hp.2 x s hx)⟩
  | spawn cap j k ih => exact ih h hp
  | join k ih => exact fun rs => ih rs (h rs) (hp rs)
  | tryJoin k ih => exact fun rs => ih rs (h rs) (hp rs)
  | fail e => trivial
  | stuck => trivial

theorem Pays.map {p : Kv α} (f : α → β) (h : Pays api key op who p tr) :
    Pays api key op who (f <$> p) tr := h.bind fun _ _ _ => trivial

theorem Pays.attempt {p : Kv α} (h : Pays api key op who p tr) :
    Pays api key op who p.attempt tr := by
  induction p generalizing tr with
  | req r k ih =>
    intro x s hx
    obtain ⟨hcharge, hk⟩ := h x s hx
    exact ⟨fun hc => (hcharge hc).imp_right Owes.attempt, ih x hk⟩
  | spawn cap j k ih => exact ih h
  | join k ih => exact fun rs => ih rs (h rs)
  | tryJoin k ih => exact fun rs => ih rs (h rs)
  | _ => trivial

theorem pays_ofExcept {ε : Type} (f : ε → ClusterError) (x : Except ε α) :
    Pays api key op who (Prog.ofExcept f x : Kv α) tr := by
  cases x <;> trivial

/-- A request that charges nothing. -/
def Free (key : String) (r : Req) : Prop := ∀ x, ¬ Charges key r x

/-- A program whose requests charge nothing. -/
theorem pays_of_requests {p : Kv α} (h : p.Requests (Free key)) : Pays api key op who p tr := by
  induction p generalizing tr with
  | req r k ih => exact fun x s _ => ⟨fun hc => absurd hc (h.1 x), ih x (h.2 x)⟩
  | ret a => trivial
  | fail e => trivial
  | stuck => trivial
  | _ => exact absurd h id

/-- A first part whose requests charge nothing. -/
theorem pays_bind_free {p : Kv α} {f : α → Kv β} (h : p.Requests (Free key))
    (hf : ∀ a tr', tr <:+ tr' → Pays api key op who (f a) tr') :
    Pays api key op who (p >>= f) tr := (pays_of_requests h).bind hf

theorem free_of_read (r : Req) (h : r.isWrite = false) : Free key r := by
  intro x
  cases r <;> simp_all [Charges, Req.isWrite]

theorem free_purge {subject : Bytes} {keep : Option Nat} (h : subject ≠ indexKey key) :
    Free key (.purge subject keep) := fun _ hc => h hc.1

theorem free_publish {subject : Bytes} {headers : HeaderMap} {payload : Bytes}
    {expected : Option Nat} (h : subject ≠ encodeKey key) :
    Free key (.publish subject headers payload expected) := fun _ hc => h hc.1

/-- The index records of any key charge nothing. -/
theorem free_publishIndex (k : String) : (publishIndex k).Requests (Free key) :=
  requests_publish (free_publish (encodeKey_ne_indexKey key k).symm)

theorem free_writeIndex (k : String) : (writeIndex k).Requests (Free key) :=
  (free_publishIndex k).bind fun _ => Prog.Requests.ofExcept.map

theorem free_slot (encoded : Bytes) (k : String) : (slot encoded k).Requests (Free key) :=
  requests_slot free_of_read encoded k

theorem free_expiresAtFrom (ttl : Option Duration) : (expiresAtFrom ttl).Requests (Free key) :=
  requests_expiresAtFrom free_of_read ttl

theorem free_reindexIfLive (k : String) : (reindexIfLive k).Requests (Free key) := by
  refine (free_slot _ k).bind fun x => ?_
  cases x with
  | live value exp revision => exact free_writeIndex k
  | _ => trivial

/-- The calls of another key charge nothing. -/
theorem asksOf_free {k : String} (h : k ≠ key) : AsksOf k (Free key) where
  read := free_of_read
  value _ _ _ := free_publish fun heq => h (encodeKey_injective heq)
  index _ _ _ := free_publish (encodeKey_ne_indexKey key k).symm
  marker := free_publish fun heq => h (encodeKey_injective heq)
  purge _ := free_purge fun heq => h (indexKey_injective heq)

/-! ## The upkeep of the index -/

theorem owes_publishIndex (f : PendingWrite → Kv α) : Owes key who (publishIndex key >>= f) tr :=
  ⟨rfl, rfl⟩

/-- A read of a key that goes on to index it owes the index record. -/
theorem owes_reindexIfLive : Owes key who (reindexIfLive key) tr := by
  rw [reindexIfLive, slot, LawfulMonad.bind_assoc]
  refine ⟨rfl, fun s hlive => ?_⟩
  obtain ⟨value, exp, revision, hslot⟩ := Server.live_iff.1 hlive
  obtain ⟨r, hr, hput, hdecode, -, -⟩ := Slot.ofRecord_eq_live.1 hslot
  obtain ⟨m, hm, rfl⟩ := Option.map_eq_some_iff.1 hr
  show Owes key who (slotOf ((s.bucket.last (encodeKey key)).map Record.ofMessage) >>= _)
    (readEvent who (encodeKey key) s :: tr)
  rw [hm, Option.map_some, slotOf_some, if_neg (fun hne => hne hput)]
  cases exp with
  | none =>
    rw [hdecode]
    exact owes_publishIndex _
  | some secs =>
    rw [hdecode]
    simp only [isExpired, LawfulMonad.bind_assoc]
    refine ⟨s, tr, rfl, hlive, fun s' hs' => ?_⟩
    have hle : ¬ secs ≤ unixSecs s'.clock := by
      intro hle
      have hdead : (s.asOf s'.clock).slot key = .dead (Record.ofMessage m).revision := by
        simp [Server.slot, hm, Slot.ofRecord, hdecode, isExpiredAt, hle]
      exact Server.not_live_of_dead hdead hs'
    show Owes key who ((if decide (secs ≤ unixSecs s'.clock) = true then Prog.ret (Slot.dead _)
      else Prog.ret (.live value (some secs) _)) >>= _) _
    rw [if_neg (by simpa using hle)]
    exact owes_publishIndex _

/-- The removal of an index record is paid for by a new read of the key. -/
theorem pays_purge {subject : Bytes} {keep : Option Nat} {describe : String → String}
    {f : Unit → Kv α} (howes : subject = indexKey key → ∀ tr, Owes key who (f ()) tr)
    (hf : ∀ a tr', Pays api key op who (f a) tr') :
    Pays api key op who ((Prog.req (.purge subject keep) fun (x : Except String Unit) =>
      orUnavailable describe x) >>= f) tr := by
  intro x s hx
  have hk : Pays api key op who ((orUnavailable describe (show Except String Unit from x)) >>= f)
      (⟨who, .purge subject keep, x, s⟩ :: tr) :=
    (pays_ofExcept _ _).bind fun a tr' _ => hf a tr'
  refine ⟨fun ⟨hsubject, hok⟩ => .inr ?_, hk⟩
  subst hok
  exact howes hsubject _

theorem pays_purgeIndex {f : Unit → Kv α} (k : String)
    (howes : ∀ tr, Owes k who (f ()) tr) (hf : ∀ a tr', Pays api key op who (f a) tr') :
    Pays api key op who (purgeIndex k >>= f) tr := by
  refine pays_purge (fun hsubject => ?_) hf
  obtain rfl := indexKey_injective hsubject
  exact howes

theorem pays_unindex (k : String) : Pays api key op who (unindex k) tr :=
  pays_purgeIndex k (fun _ => owes_reindexIfLive) fun _ _ => pays_of_requests (free_reindexIfLive k)

theorem pays_refused (k : String) (indexed : Except ClusterError (Option Nat)) (e : ClusterError) :
    Pays api key op who (refused k indexed e : Kv α) tr := by
  unfold refused
  split
  · exact ((pays_unindex k).attempt.map _).bind fun _ _ _ => trivial
  · trivial

/-! ## The calls -/

/-- A record that is excused, or has the index record right behind it. -/
theorem pays_publishRecord {subject : Bytes} {headers : HeaderMap} {payload : Bytes}
    {expected : Option Nat} {f : PendingWrite → Kv α}
    (hcharge : Excused key op who tr (.publish subject headers payload expected) ∨
      ∀ a tr', Owes key who (f a) tr')
    (hf : ∀ a tr', tr <:+ tr' → Pays api key op who (f a) tr') :
    Pays api key op who (publishRecord subject headers payload expected >>= f) tr := by
  intro x s hx
  have hk : Pays api key op who ((orUnavailable (fun e => s!"nats kv write: {e}")
      (show Except String PendingWrite from x)) >>= f)
      (⟨who, .publish subject headers payload expected, x, s⟩ :: tr) :=
    (pays_ofExcept _ _).bind fun a tr' htr => hf a tr' ((List.suffix_cons _ _).trans htr)
  refine ⟨fun hc => ?_, hk⟩
  obtain ⟨ack, rfl⟩ := hc.2
  exact hcharge.imp_right fun howes => howes ack _

/-- A record that is excused, and a wait for it. -/
theorem pays_write {subject value : Bytes} {exp : Option UInt64} {expect : Expect}
    (h : Excused key op who tr (.publish subject [(expiresHeader, renderU64 (exp.getD 0))]
      (encodeValue value exp) expect.lastSequence)) :
    Pays api key op who (write subject value exp expect) tr := by
  have hpublish : Pays api key op who (publish subject value exp expect >>= fun a => Prog.ret a) tr :=
    pays_publishRecord (.inl h) fun _ _ _ => trivial
  rw [Prog.bind_ret_right] at hpublish
  refine hpublish.attempt.bind fun written _ _ => ?_
  cases written <;> trivial

theorem pays_put (value : Bytes) (ttl : Option Duration) :
    Pays api key op who (put key value ttl) tr := by
  refine pays_bind_free (free_expiresAtFrom ttl) fun exp tr₁ _ => ?_
  refine pays_publishRecord (.inr fun _ _ => owes_publishIndex _) fun data tr₂ _ => ?_
  refine pays_bind_free (free_publishIndex key) fun index tr₃ _ => ?_
  split
  · exact (pays_ofExcept _ _).map _
  · exact pays_refused _ _ _
  · trivial

theorem pays_putIfAbsent (value : Bytes) (ttl : Option Duration) :
    Pays api key op who (putIfAbsent key value ttl) tr := by
  refine pays_bind_free (free_expiresAtFrom ttl) fun exp tr₁ _ => ?_
  have hrounds : ∀ rounds expect tr,
      Pays api key op who (putIfAbsentRounds key value exp rounds expect) tr := by
    intro rounds
    induction rounds with
    | zero => exact fun _ _ => trivial
    | succ rounds ih =>
      intro expect tr₂
      refine pays_publishRecord (.inr fun _ _ => owes_publishIndex _) fun claim tr₃ _ => ?_
      refine pays_bind_free (free_publishIndex key) fun index tr₄ _ => ?_
      split
      · exact ((pays_ofExcept _ _).map _).bind fun _ _ _ => trivial
      · exact pays_refused _ _ _
      · refine pays_bind_free (free_slot _ key) fun x tr₅ _ => ?_
        cases x with
        | live value' exp' revision => trivial
        | dead revision => exact ih _ tr₅
        | empty => exact ih _ tr₅
  exact hrounds _ _ _

theorem pays_delete : Pays api key op who (delete key) tr := by
  refine pays_bind_free (free_slot _ key) fun x tr₁ _ => ?_
  refine pays_publishRecord (.inl .marker) fun marker tr₂ _ => ?_
  split <;> trivial

/-- What follows a read of a key knows what it found. -/
theorem pays_slot {f : Slot → Kv α}
    (h : ∀ x tr', tr <:+ tr' → Judged who key tr' x → Pays api key op who (f x) tr') :
    Pays api key op who (slot (encodeKey key) key >>= f) tr := by
  refine (pays_of_requests (free_slot _ key)).bind_abides slot_judged ?_
  rintro x tr' ⟨htr, hx⟩
  exact h x tr' htr (hx x rfl)

theorem pays_expire (ttl : Option Duration) (hop : op.revises = some key) :
    Pays api key op who (expire key ttl) tr := by
  have hrounds : ∀ rounds tr, Pays api key op who (expireRounds key ttl rounds) tr := by
    intro rounds
    induction rounds with
    | zero => exact fun _ => trivial
    | succ rounds ih =>
      intro tr₁
      refine pays_slot fun x tr₂ _ hx => ?_
      cases x with
      | live value exp revision =>
        refine pays_bind_free (free_expiresAtFrom ttl) fun exp' tr₃ htr₃ => ?_
        refine (pays_write (.found hop (hx.mono htr₃))).bind fun written tr₄ _ => ?_
        split
        · trivial
        · exact ih tr₄
        · trivial
      | _ => trivial
  exact hrounds _ _

/-- A counter call goes on with what it found, and knows whether that was a
value. -/
theorem pays_readCounter (counters : CounterApi) (ttl : Option Duration)
    {f : Int64 × Option UInt64 × Expect × Bool → Kv α}
    (h : ∀ read tr', tr <:+ tr' → (read.2.2.2 = true ∨ ∃ value exp revision,
      Judged who key tr' (.live value exp revision) ∧ read.2.2.1 = .revision revision) →
      Pays api key op who (f read) tr') :
    Pays api key op who (readCounter counters key ttl >>= f) tr := by
  unfold readCounter
  rw [LawfulMonad.bind_assoc]
  refine pays_slot fun x tr₁ htr₁ hx => ?_
  cases x with
  | empty =>
    dsimp only
    rw [LawfulMonad.bind_assoc]
    refine pays_bind_free (free_expiresAtFrom ttl) fun exp tr₂ htr₂ => ?_
    exact h (0, exp, .nothing, true) tr₂ (htr₁.trans htr₂) (.inl rfl)
  | dead revision =>
    dsimp only
    rw [LawfulMonad.bind_assoc]
    refine pays_bind_free (free_expiresAtFrom ttl) fun exp tr₂ htr₂ => ?_
    exact h (0, exp, .revision revision, true) tr₂ (htr₁.trans htr₂) (.inl rfl)
  | live value exp revision =>
    dsimp only
    rw [LawfulMonad.bind_assoc]
    have hexpiry : (counterExpiry ttl exp).Requests (Free key) := by
      unfold counterExpiry
      split
      · exact free_expiresAtFrom ttl
      · trivial
    refine pays_bind_free hexpiry fun exp' tr₂ htr₂ => ?_
    rw [LawfulMonad.bind_assoc]
    refine pays_bind_free Prog.Requests.ofExcept fun current tr₃ htr₃ => ?_
    exact h (current, exp', .revision revision, false) tr₃ (htr₁.trans (htr₂.trans htr₃))
      (.inr ⟨_, _, _, hx.mono (htr₂.trans htr₃), rfl⟩)

theorem pays_updateCounter (counters : CounterApi) (name : String) (ttl : Option Duration)
    (step : Int64 → Except ClusterError Int64) (hop : op.revises = some key) :
    Pays api key op who (updateCounter counters name key ttl step) tr := by
  have hrounds : ∀ rounds tr,
      Pays api key op who (updateCounterRounds counters name key ttl step rounds) tr := by
    intro rounds
    induction rounds with
    | zero => exact fun _ => trivial
    | succ rounds ih =>
      intro tr₁
      refine pays_readCounter counters ttl fun read tr₂ _ hread => ?_
      obtain ⟨current, exp, expect, creates⟩ := read
      dsimp only at hread ⊢
      refine pays_bind_free Prog.Requests.ofExcept fun next tr₃ htr₃ => ?_
      split
      · trivial
      · have hindex : (indexCreated key creates).Requests (Free key) := by
          unfold indexCreated
          split
          · exact (free_publishIndex key).map
          · trivial
        refine pays_publishRecord ?_ fun pending tr₄ _ => ?_
        · rcases hread with rfl | ⟨value, exp', revision, hx, rfl⟩
          · refine .inr fun a tr' => ?_
            show Owes key who ((indexDone <$> publishIndex key) >>= _) tr'
            exact ((owes_publishIndex _).bind _)
          · exact .inl (.found hop (hx.mono htr₃))
        · refine pays_bind_free hindex fun indexed tr₅ _ => ?_
          split
          · exact ((pays_ofExcept _ _).map _).bind fun _ _ _ => trivial
          · exact ih tr₅
          · exact pays_refused _ _ _
  exact hrounds _ _

/-! ## The jobs -/

theorem free_purgeThrough {subject : Bytes} {n : Nat} (h : subject ≠ indexKey key) :
    (purgeThrough subject n).Requests (Free key) :=
  ⟨free_purge h, fun _ => Prog.Requests.ofExcept⟩

/-- A removal reads the key again after the index record. -/
theorem pays_removeDead (subject : Bytes) (n : Nat) :
    Pays api key op who (removeDead subject n) tr := by
  unfold removeDead
  split
  · -- a record of the index itself
    refine pays_purge (fun hsubject tr' => ?_) fun a tr' => ?_
    · rw [hsubject, dataKey_indexKey]
      exact owes_reindexIfLive
    · split
      · exact pays_of_requests (free_reindexIfLive _)
      · trivial
  · rename_i hindex
    have hne : subject ≠ indexKey key := fun heq => hindex (by rw [heq, isIndexKey_indexKey])
    split
    · exact pays_of_requests (free_purgeThrough hne)
    · rename_i k _
      refine pays_purgeIndex k (fun tr s => owes_reindexIfLive) fun _ tr' => ?_
      exact pays_bind_free (free_purgeThrough hne) fun _ _ _ => pays_of_requests (free_reindexIfLive k)

/-- `last_record`. -/
theorem pays_lastRecord {encoded : Bytes} {f : Except String (Option Record) → Kv α}
    (hok : ∀ s, Pays api key op who (f (.ok ((s.bucket.last encoded).map Record.ofMessage)))
      (readEvent who encoded s :: tr))
    (herr : ∀ e tr', Pays api key op who (f (.error e)) tr') :
    Pays api key op who (lastRecord encoded >>= f) tr := by
  have hread : Free key (.getLast encoded) := free_of_read _ rfl
  refine fun x s hx => ⟨fun hc => absurd hc (hread x), ?_⟩
  rcases served_getLast hx with rfl | ⟨e, rfl⟩
  · exact hok s
  · exact herr e _

/-- The rewrite of an older build's record keeps what it holds. -/
theorem pays_settleLegacy (encoded : Bytes) (n : Nat) :
    Pays api key op who (settleLegacy encoded n) tr := by
  refine pays_lastRecord (fun s => ?_) fun e tr' => ?_
  · simp only [orUnavailable, Prog.ofExcept_ok, Prog.ret_bind]
    split
    · trivial
    · rename_i record hrecord
      obtain ⟨hlast, hkept⟩ := Option.filter_eq_some_iff.1 hrecord
      obtain ⟨m, hm, rfl⟩ := Option.map_eq_some_iff.1 hlast
      obtain ⟨hseq, hput⟩ : m.seq = n ∧ Record.recordOperation m.body.headers = .put :=
        of_decide_eq_true hkept
      refine pays_bind_free (requests_isExpired free_of_read _) fun expired tr₁ htr₁ => ?_
      split
      · exact (pays_removeDead encoded n).bind fun _ _ _ => trivial
      · have hwrite : Pays api key op who (write encoded (decodeValue m.body.payload).1
            (decodeValue m.body.payload).2 (.revision n)) tr₁ := by
          by_cases hkey : encoded = encodeKey key
          · subst hkey
            rw [← hseq]
            refine pays_write (.same (htr₁.subset List.mem_cons_self) hm hput ?_)
            exact encodeValue_decodeValue m.body.payload
          · exact pays_of_requests (requests_write (free_publish hkey))
        refine hwrite.bind fun written tr₂ _ => ?_
        split
        · split
          · exact (pays_of_requests (free_writeIndex _)).bind fun _ _ _ => trivial
          · trivial
        · trivial
        · trivial
  · trivial

/-- **Every job pays.** -/
theorem pays_job (j : Job) : Pays api key op who j.program tr := by
  cases j with
  | removeDead subject n => exact (pays_removeDead subject n).map _
  | settleLegacy encoded n => exact (pays_settleLegacy encoded n).map _
  | liveEntry k => exact (pays_of_requests (requests_liveEntry free_of_read k)).map _

/-! ## A sweep and a backfill -/

theorem pays_spawnAll {cap : Nat} {jobs : List Job} {k : Kv α} (h : Pays api key op who k tr) :
    Pays api key op who (spawnAll cap jobs k) tr := by
  induction jobs with
  | nil => exact h
  | cons j jobs ih => exact ih

theorem free_sweepScan (grace : Duration) (now : UInt64) (fuel : Nat) (scan : SweepScan) :
    (sweepScan grace now fuel scan).Requests (Free key) := by
  induction fuel generalizing scan with
  | zero => trivial
  | succ fuel ih =>
    refine ⟨free_of_read _ rfl, fun x => ?_⟩
    dsimp only
    split
    · split
      · trivial
      · exact ih _
    all_goals trivial

theorem pays_removeAllDead (kv : NatsKv) (dead : List (Bytes × Nat)) :
    Pays api key op who (removeAllDead kv dead) tr := by
  unfold removeAllDead
  split
  · induction dead generalizing tr with
    | nil => trivial
    | cons d dead ih => exact (pays_removeDead d.1 d.2).bind fun _ _ _ => ih
  · refine pays_spawnAll fun rs => ?_
    cases rs <;> trivial

theorem pays_sweep (kv : NatsKv) (grace : Duration) (fuel : Nat) :
    Pays api key op who (sweep kv grace fuel) tr := by
  refine pays_bind_free (requests_recordConsumer free_of_read _ _ _) fun opened tr₁ _ => ?_
  split
  · refine pays_bind_free (p := nowUnixSecs) ⟨free_of_read _ rfl, fun _ => trivial⟩ fun now tr₂ _ => ?_
    refine pays_bind_free (free_sweepScan _ _ _ _) fun scan tr₃ _ => ?_
    refine (pays_removeAllDead kv scan.dead).bind fun _ tr₄ _ => ?_
    exact pays_spawnAll fun rs => pays_of_requests (requests_countOutcomes _ _)
  · trivial

/-! ## Every call -/

/-- The calls whose runs are told of: on single keys, sweeps and backfills. -/
theorem pays_op (counters : CounterApi) (hop : op.SweepOrSimple) :
    Pays api key op who (op.program counters) tr := by
  have hkeyed : ∀ k, op.key? = some k → k ≠ key → Pays api key op who (op.program counters) tr :=
    fun k hk hne => pays_of_requests (requests_keyed (asksOf_free hne) counters hk)
  cases op with
  | get k => exact (pays_of_requests (requests_get free_of_read k)).map _
  | put k value ttl =>
    by_cases hk : k = key
    · subst hk
      exact (pays_put value ttl).map _
    · exact hkeyed k rfl hk
  | putIfAbsent k value ttl =>
    by_cases hk : k = key
    · subst hk
      exact (pays_putIfAbsent value ttl).map _
    · exact hkeyed k rfl hk
  | delete k =>
    by_cases hk : k = key
    · subst hk
      exact pays_delete.map _
    · exact hkeyed k rfl hk
  | expire k ttl =>
    by_cases hk : k = key
    · subst hk
      exact (pays_expire ttl rfl).map _
    · exact hkeyed k rfl hk
  | updateCounter name k ttl step =>
    by_cases hk : k = key
    · subst hk
      exact (pays_updateCounter counters name ttl step rfl).map _
    · exact hkeyed k rfl hk
  | sweep kv grace fuel => exact (pays_sweep kv grace fuel).map _
  | backfillIndex fuel =>
    exact (pays_of_requests (requests_backfillIndex free_of_read free_publishIndex fuel)).map _
  | listPage => exact absurd hop (by simp [Op.SweepOrSimple, Op.maintains, Op.Simple])
  | listPass => exact absurd hop (by simp [Op.SweepOrSimple, Op.maintains, Op.Simple])

end Rules

end ClusterNats
