import ClusterNats.Lease.Json
import ClusterNats.Lease.Tokens

/-!
# The order of the holders' tokens

An acquisition mints its token in one bucket and takes the slot in another.
Tokens are ordered as they were minted, so the holders' tokens are ordered
exactly where the slot is taken in the order of the mints and the counter is not
full.

* `mintTime` — when an actor minted its last token.
* `mintState`, `Server.counter` — the counter it found.
* `AcquiresAt` — an acquisition stored its record.
* `fresh_mintTime` — the mint behind an unused token.
* `fencing_order` — the order of the tokens, and when it holds.
-/

namespace ClusterNats.Lease

open Conc

/-- The event is a mint of `who`. -/
def isMintOf (who : Actor) (e : LeaseEvent) : Bool :=
  e.who = who && (storedBy e).any fun x => x.1 = .fencing

/-- When `who` minted its last token: the length of the log with it. -/
def mintTime (who : Actor) (l : List LeaseEvent) : Nat :=
  (l.dropWhile fun e => !isMintOf who e).length

/-- The state in which `who` minted its last token. -/
def mintState (who : Actor) (l : List LeaseEvent) : Option Server :=
  (l.find? (isMintOf who)).map Event.pre

/-- The counter of a key. -/
def Server.counter (s : Server) (key : String) : UInt64 :=
  (recordIn s .fencing (fencingPath key)).elim 0 fun r => parseToken r.payload

/-- A thread is an acquisition. -/
def Acquisition (w : LeaseWorld) (who : Actor) : Prop :=
  ∃ t th, who = .main t ∧ w.threads[t]? = some th ∧ th.op.params.isSome

/-- An acquisition stored its record in the slot. -/
def AcquiresAt (json : LeaseJson) (w : LeaseWorld) (key : String) (record : LeaseRecord)
    (e : LeaseEvent) : Prop :=
  storedBy e = some (.leases, key, json.toVec record) ∧ Acquisition w e.who

theorem isMintOf_iff {who : Actor} {e : LeaseEvent} :
    isMintOf who e = true ↔ e.who = who ∧ StoresIn .fencing e := by
  rw [isMintOf, Bool.and_eq_true, decide_eq_true_eq, StoresIn, Option.any_eq_true]
  constructor
  · rintro ⟨hwho, ⟨store, key, value⟩, hby, hstore⟩
    have hfencing : store = .fencing := by simpa using hstore
    exact ⟨hwho, key, value, hfencing ▸ hby⟩
  · rintro ⟨hwho, key, value, hby⟩
    exact ⟨hwho, _, hby, by simp⟩

/-- **The mint behind an unused token.**  It is where `mintTime` says, and the
actor stored nothing since. -/
theorem fresh_mintTime {who : Actor} {l since before : List LeaseEvent} {m : LeaseEvent}
    (hown : ownEvents who l = since ++ m :: before) (hm : StoresIn .fencing m)
    (hsince : ∀ e ∈ since, ¬ StoresIn .fencing e) :
    ∃ pre, (m :: pre) <:+ l ∧ m.who = who ∧ (m :: pre).length = mintTime who l ∧
      mintState who l = some m.pre ∧ ownEvents who pre = before := by
  induction l generalizing since with
  | nil => exact absurd hown (by simp [ownEvents])
  | cons e l ih =>
    by_cases hwho : e.who = who
    · rw [ownEvents_cons_self hwho] at hown
      cases since with
      | nil =>
        obtain ⟨rfl, hbefore⟩ := List.cons.inj hown
        have hmint : isMintOf who e = true := isMintOf_iff.2 ⟨hwho, hm⟩
        exact ⟨l, List.suffix_refl _, hwho, by simp [mintTime, hmint], by simp [mintState, hmint],
          hbefore⟩
      | cons d since =>
        obtain ⟨rfl, hrest⟩ := List.cons.inj hown
        obtain ⟨pre, hsuf, hmwho, hlen, hstate, hbefore⟩ := ih hrest fun e' he' =>
          hsince e' (List.mem_cons_of_mem _ he')
        have hmint : isMintOf who e = false := by
          rw [← Bool.not_eq_true, isMintOf_iff]
          exact fun h => hsince e (List.mem_cons_self ..) h.2
        exact ⟨pre, hsuf.trans (List.suffix_cons _ _), hmwho, by
          rw [hlen, mintTime, mintTime, List.dropWhile_cons_of_pos (by simp [hmint])], by
          rw [← hstate, mintState, mintState, List.find?_cons_of_neg (by simp [hmint])], hbefore⟩
    · rw [ownEvents_cons_ne hwho] at hown
      obtain ⟨pre, hsuf, hmwho, hlen, hstate, hbefore⟩ := ih hown hsince
      have hmint : isMintOf who e = false := by
        rw [← Bool.not_eq_true, isMintOf_iff]
        exact fun h => hwho h.1
      exact ⟨pre, hsuf.trans (List.suffix_cons _ _), hmwho, by
        rw [hlen, mintTime, mintTime, List.dropWhile_cons_of_pos (by simp [hmint])], by
        rw [← hstate, mintState, mintState, List.find?_cons_of_neg (by simp [hmint])], hbefore⟩

section Acquisitions

variable {json : LeaseJson} {s₀ : Server} {w : LeaseWorld} {key : String}

theorem toVec_injective {r r' : LeaseRecord} (h : json.toVec r = json.toVec r') : r = r' := by
  have hparsed := congrArg json.fromSlice h
  rw [json.fromSlice_toVec, json.fromSlice_toVec] at hparsed
  exact Except.ok.inj hparsed

/-- What an acquisition stores: its node, its unused token, over a slot it saw
free. -/
theorem Fleet.acquires (hw : Fleet json s₀ w) {e : LeaseEvent} {l : List LeaseEvent}
    (hsuf : (e :: l) <:+ w.log) {record : LeaseRecord} (he : AcquiresAt json w key record e) :
    ∃ t th p revision, e.who = .main t ∧ w.threads[t]? = some th ∧ th.op.params = some p ∧
      p.key = key ∧ record.nodeId = p.nodeId ∧
      FreshMint key record.fencingToken (ownEvents e.who l) ∧
      SeenFree json e.who key revision (ownEvents e.who l) ∧
      revisionOf (recordIn e.pre .leases key) = revision := by
  obtain ⟨hby, t₀, th₀, hwho₀, hth₀, hparams⟩ := he
  obtain ⟨t, th, hwho, hth, hguard⟩ := hw.guard hsuf
  obtain ⟨s', hserve⟩ := hw.served (hsuf.subset (List.mem_cons_self ..))
  obtain ⟨revision, hreq, hrev, -⟩ := serve_stored hserve hby
  obtain rfl : t₀ = t := Actor.main.inj (hwho₀.symm.trans hwho)
  cases Option.some.inj (hth₀.symm.trans hth)
  rw [hreq] at hguard
  have hacquire : ∀ p, AcquireGuard json p (.main t₀) (ownEvents (.main t₀) l)
      (.update .leases key (json.toVec record) revision) → p.key = key ∧
        record.nodeId = p.nodeId ∧ FreshMint key record.fencingToken (ownEvents (.main t₀) l) ∧
        SeenFree json (.main t₀) key revision (ownEvents (.main t₀) l) := by
    rintro p ⟨hkey, record', hvalue, hnode, hfresh, hfree⟩
    obtain rfl := toVec_injective hvalue
    exact ⟨hkey.symm, hnode, hkey ▸ hfresh, hfree⟩
  cases hop : th₀.op with
  | acquire p fuel =>
    rw [hop] at hguard
    rw [hwho]
    exact ⟨t₀, th₀, p, revision, rfl, hth, by rw [hop]; rfl, (hacquire p hguard).1,
      (hacquire p hguard).2.1, (hacquire p hguard).2.2.1, (hacquire p hguard).2.2.2, hrev⟩
  | tryAcquire p =>
    rw [hop] at hguard
    rw [hwho]
    exact ⟨t₀, th₀, p, revision, rfl, hth, by rw [hop]; rfl, (hacquire p hguard).1,
      (hacquire p hguard).2.1, (hacquire p hguard).2.2.1, (hacquire p hguard).2.2.2, hrev⟩
  | _ => rw [hop] at hparams; cases hparams

/-- Two suffixes of one list: the shorter one ends the longer one. -/
theorem suffix_of_length_lt {α : Type} {a : α} {l l' log : List α} (h : (a :: l) <:+ log)
    (h' : l' <:+ log) (hlt : l'.length < (a :: l).length) : l' <:+ l := by
  have hsuf := List.suffix_of_suffix_length_le h' h hlt.le
  rcases List.suffix_cons_iff.1 hsuf with rfl | hsuf
  · exact absurd hlt (lt_irrefl _)
  · exact hsuf

/-- What lies before a suffix of the second part lies in the first part. -/
theorem mem_of_suffix_append {α : Type} {a : α} {x y since : List α}
    (h : (a :: x) <:+ since ++ y) (hle : y.length ≤ x.length) : a ∈ since := by
  obtain ⟨pre, hpre⟩ := h
  rcases List.append_eq_append_iff.1 hpre with ⟨as, hsince, hy⟩ | ⟨bs, -, hy⟩
  · cases as with
    | nil =>
      have hlen := congrArg List.length hy
      simp only [List.nil_append, List.length_cons] at hlen
      omega
    | cons b as =>
      obtain ⟨rfl, -⟩ := List.cons.inj hy
      rw [hsince]
      simp
  · have hlen := congrArg List.length hy
    simp only [List.length_append, List.length_cons] at hlen
    omega

/-- **The tokens of two acquisitions are ordered as their mints.**  `e'` stored
before `e`. -/
theorem Fleet.token_order (hw : Fleet json s₀ w) {e e' : LeaseEvent} {l l' : List LeaseEvent}
    (hsuf : (e :: l) <:+ w.log) (hsuf' : (e' :: l') <:+ l) {record record' : LeaseRecord}
    (he : AcquiresAt json w key record e) (he' : AcquiresAt json w key record' e') :
    (mintTime e'.who l' < mintTime e.who l ∧
      (record'.fencingToken.toNat < UInt64.size - 1 →
        record'.fencingToken.toNat < record.fencingToken.toNat)) ∨
    (mintTime e.who l < mintTime e'.who l' ∧
      record.fencingToken.toNat ≤ record'.fencingToken.toNat ∧
      (record.fencingToken.toNat < UInt64.size - 1 →
        record.fencingToken.toNat < record'.fencingToken.toNat)) := by
  have hl : l <:+ w.log := (List.suffix_cons _ _).trans hsuf
  have hl' : l' <:+ w.log := ((List.suffix_cons _ _).trans hsuf').trans hl
  obtain ⟨-, -, -, -, -, -, -, -, -, ⟨since, m, before, hown, hmint, hsince⟩, -⟩ :=
    hw.acquires hsuf he
  obtain ⟨-, -, -, -, -, -, -, -, -, ⟨since', m', before', hown', hmint', hsince'⟩, -⟩ :=
    hw.acquires (hsuf'.trans hl) he'
  obtain ⟨pre, hm, hmwho, hlen, -, hbefore⟩ := fresh_mintTime hown ⟨_, _, hmint⟩
    fun d hd => (hsince d hd).1
  obtain ⟨pre', hm', hmwho', hlen', -, hbefore'⟩ := fresh_mintTime hown' ⟨_, _, hmint'⟩
    fun d hd => (hsince' d hd).1
  rw [← hlen, ← hlen']
  rcases lt_trichotomy (m' :: pre').length (m :: pre).length with hlt | heq | hgt
  · have hmem : m' ∈ pre := (suffix_of_length_lt (hm.trans hl) (hm'.trans hl') hlt).subset
      (List.mem_cons_self ..)
    exact .inl ⟨hlt, (hw.mints_lt (hm.trans hl) hmem hmint hmint').2⟩
  · -- one mint: the second record would be stored with a token that was used
    exfalso
    have hsame : m' :: pre' = m :: pre :=
      (List.suffix_of_suffix_length_le (hm'.trans hl') (hm.trans hl) heq.le).eq_of_length heq
    obtain ⟨rfl, rfl⟩ := List.cons.inj hsame
    have hwho : e'.who = e.who := hmwho'.symm.trans hmwho
    have hmine : m' :: before <:+ ownEvents e.who l' := by
      rw [← hbefore, ← ownEvents_cons_self hmwho]
      exact ownEvents_suffix hm'
    have hstored : e' :: ownEvents e.who l' <:+ since ++ m' :: before := by
      rw [← hown, ← ownEvents_cons_self hwho]
      exact ownEvents_suffix hsuf'
    have hmem := mem_of_suffix_append hstored hmine.length_le
    exact (hsince e' hmem).2 ⟨_, _, he'.1⟩
  · have hmem : m ∈ pre' := (suffix_of_length_lt (hm'.trans hl') (hm.trans hl) hgt).subset
      (List.mem_cons_self ..)
    exact .inr ⟨hgt, hw.mints_lt (hm'.trans hl') hmem hmint' hmint⟩

/-- **Two acquisitions have different tokens**, below a full counter. -/
theorem Fleet.token_ne (hw : Fleet json s₀ w) {e e' : LeaseEvent} {l l' : List LeaseEvent}
    (hsuf : (e :: l) <:+ w.log) (hsuf' : (e' :: l') <:+ l) {record record' : LeaseRecord}
    (he : AcquiresAt json w key record e) (he' : AcquiresAt json w key record' e')
    (hfull : record.fencingToken.toNat < UInt64.size - 1) :
    record'.fencingToken ≠ record.fencingToken := by
  intro heq
  rcases hw.token_order hsuf hsuf' he he' with ⟨-, hlt⟩ | ⟨-, -, hlt⟩
  · rw [heq] at hlt
    exact lt_irrefl _ (hlt hfull)
  · rw [heq] at hlt
    exact lt_irrefl _ (hlt hfull)

/-- A successor is not the greatest token exactly when the counter is two below
it. -/
theorem nextToken_lt {s : Server} : (nextToken (recordIn s .fencing (fencingPath key))).toNat <
    UInt64.size - 1 ↔ (s.counter key).toNat + 1 < UInt64.size - 1 := by
  have hone : (1 : UInt64).toNat = 1 := rfl
  unfold Server.counter
  cases recordIn s .fencing (fencingPath key) with
  | none =>
    have hzero : (0 : UInt64).toNat = 0 := rfl
    simp only [nextToken, Option.elim, hone, hzero]
  | some r =>
    simp only [nextToken, Option.elim, saturatingAdd, hone]
    split
    · rename_i h
      rw [UInt64.toNat_add, hone, Nat.mod_eq_of_lt h]
    · have hfull : (UInt64.ofNat (UInt64.size - 1)).toNat = UInt64.size - 1 := rfl
      omega

/-- The token of an acquisition succeeds the counter at its mint. -/
theorem Fleet.token_of_mint (hw : Fleet json s₀ w) {e : LeaseEvent} {l : List LeaseEvent}
    (hsuf : (e :: l) <:+ w.log) {record : LeaseRecord} (he : AcquiresAt json w key record e) :
    ∃ s, mintState e.who l = some s ∧
      record.fencingToken = nextToken (recordIn s .fencing (fencingPath key)) := by
  obtain ⟨-, -, -, -, -, -, -, -, -, ⟨since, m, before, hown, hmint, hsince⟩, -⟩ :=
    hw.acquires hsuf he
  obtain ⟨pre, hm, -, -, hstate, -⟩ := fresh_mintTime hown ⟨_, _, hmint⟩ fun d hd => (hsince d hd).1
  obtain ⟨hvalue, -⟩ := hw.mints_next (hm.trans ((List.suffix_cons _ _).trans hsuf)) hmint
  exact ⟨m.pre, hstate, renderU64_injective hvalue⟩

end Acquisitions

/-! ## The order of the holders -/

/-- An acquisition that stored its record after another one carries a greater
token. -/
def TokensOrdered (json : LeaseJson) (w : LeaseWorld) (key : String) : Prop :=
  ∀ e l e' l' record record', (e :: l) <:+ w.log → (e' :: l') <:+ l →
    AcquiresAt json w key record e → AcquiresAt json w key record' e' →
    record'.fencingToken.toNat < record.fencingToken.toNat

/-- The slot is taken in the order of the mints, and the counter was not full
when the earlier of two acquisitions minted. -/
def TakenInMintOrder (json : LeaseJson) (w : LeaseWorld) (key : String) : Prop :=
  ∀ e l e' l' record record', (e :: l) <:+ w.log → (e' :: l') <:+ l →
    AcquiresAt json w key record e → AcquiresAt json w key record' e' →
    mintTime e'.who l' < mintTime e.who l ∧
      ∀ s ∈ mintState e'.who l', (s.counter key).toNat + 1 < UInt64.size - 1

/-- **When the tokens are ordered.**  In every run of lease calls by any nodes,
the holders' tokens of a key are ordered exactly when the acquisitions took the
slot in the order in which they minted, below a full counter. -/
theorem fencing_order (json : LeaseJson) (s₀ : Server) (cs : List LeaseChoice)
    (hcs : ∀ c ∈ cs, World.ModeOk (· = .ok) c) (w : LeaseWorld)
    (hrun : World.run (leaseSystem json) (LeaseWorld.start s₀) cs = some w) (key : String) :
    TokensOrdered json w key ↔ TakenInMintOrder json w key := by
  have hw := run_fleet hcs hrun
  constructor
  · intro hordered e l e' l' record record' hsuf hsuf' he he'
    have hlt := hordered e l e' l' record record' hsuf hsuf' he he'
    have hmax : record.fencingToken.toNat < UInt64.size := record.fencingToken.toNat_lt
    have hl : l <:+ w.log := (List.suffix_cons _ _).trans hsuf
    rcases hw.token_order hsuf hsuf' he he' with ⟨hmint, -⟩ | ⟨-, hle, -⟩
    · refine ⟨hmint, fun s hs => nextToken_lt.1 ?_⟩
      obtain ⟨s', hs', htoken⟩ := hw.token_of_mint (hsuf'.trans hl) he'
      obtain rfl := Option.some.inj (hs.symm.trans hs')
      rw [← htoken]
      omega
    · omega
  · intro horder e l e' l' record record' hsuf hsuf' he he'
    obtain ⟨hmint, hfull⟩ := horder e l e' l' record record' hsuf hsuf' he he'
    have hl : l <:+ w.log := (List.suffix_cons _ _).trans hsuf
    obtain ⟨s', hs', htoken⟩ := hw.token_of_mint (hsuf'.trans hl) he'
    rcases hw.token_order hsuf hsuf' he he' with ⟨-, hlt⟩ | ⟨hmint', -⟩
    · exact hlt (htoken ▸ nextToken_lt.2 (hfull s' hs'))
    · omega

/-- Empty buckets. -/
def emptyServer : Server := ⟨.empty, .empty, 1000000000, false⟩

/-- The lock `lock.x` for a second, by a node. -/
def lockBy (node : String) : AcquireParams := ⟨"lock.x", node, 1000, false, 50⟩

/-- Steps of one thread. -/
def steps (t n : Nat) : List LeaseChoice := List.replicate n (.act (.main t) .ok)

/-- Node `a` takes the slot, its lease lapses, and node `b` takes it over. -/
def handover : List LeaseChoice :=
  [.start (.tryAcquire (lockBy "a"))] ++ steps 0 6 ++
    [.env 3000000000, .start (.tryAcquire (lockBy "b"))] ++ steps 1 9

/-- Event `i` of the log, the latest first, stored in the slot. -/
def storedAt (w : LeaseWorld) (key : String) (i : Nat) : Bool :=
  (w.log[i]?.bind storedBy).any fun x => x.1 = .leases && x.2.1 = key

/-- The mints behind two events of the log are in their order. -/
def MintsInOrder (w : LeaseWorld) (key : String) (i j : Nat) : Prop :=
  ∀ e ∈ w.log[i]?, ∀ e' ∈ w.log[j]?,
    mintTime e'.who (w.log.drop (j + 1)) < mintTime e.who (w.log.drop (i + 1)) ∧
      ∀ s ∈ mintState e'.who (w.log.drop (j + 1)), (s.counter key).toNat + 1 < UInt64.size - 1

instance (w : LeaseWorld) (key : String) (i j : Nat) : Decidable (MintsInOrder w key i j) :=
  inferInstanceAs (Decidable (∀ _ ∈ _, ∀ _ ∈ _, _))

theorem takenInMintOrder_of_indices {json : LeaseJson} {w : LeaseWorld} {key : String}
    (h : ∀ j < w.log.length, ∀ i < j, storedAt w key i = true → storedAt w key j = true →
      MintsInOrder w key i j) : TakenInMintOrder json w key := by
  have hplace : ∀ {e : LeaseEvent} {l log : List LeaseEvent}, (e :: l) <:+ log →
      ∃ i, log[i]? = some e ∧ l = log.drop (i + 1) := by
    rintro e l log ⟨before, rfl⟩
    exact ⟨before.length, by simp, by simp⟩
  have hstored : ∀ {e : LeaseEvent} {i : Nat} {record : LeaseRecord}, w.log[i]? = some e →
      AcquiresAt json w key record e → storedAt w key i = true := by
    rintro e i record hi ⟨hby, -⟩
    simp [storedAt, hi, hby]
  intro e l e' l' record record' hsuf hsuf' he he'
  obtain ⟨i, hi, rfl⟩ := hplace hsuf
  obtain ⟨j, hj, rfl⟩ := hplace hsuf'
  rw [List.getElem?_drop] at hj
  have hlt : i + 1 + j < w.log.length := (List.getElem?_eq_some_iff.1 hj).1
  have horder := h (i + 1 + j) hlt i (by omega) (hstored hi he) (hstored hj he') e hi e' hj
  rwa [List.drop_drop, ← Nat.add_assoc]

/-- Event `i` of the log, the latest first, is an acquisition of the record. -/
def acquiredAt (json : LeaseJson) (w : LeaseWorld) (key : String) (record : LeaseRecord)
    (i t : Nat) : Bool :=
  (w.log[i]?).any (fun e => e.who = .main t && storedBy e = some (.leases, key, json.toVec record)) &&
    (w.threads[t]?).any fun th => th.op.params.isSome

theorem acquiresAt_of_acquiredAt {json : LeaseJson} {w : LeaseWorld} {key : String}
    {record : LeaseRecord} {i t : Nat} (h : acquiredAt json w key record i t = true) :
    ∃ hi : i < w.log.length, AcquiresAt json w key record w.log[i] := by
  obtain ⟨hlog, hthread⟩ := Bool.and_eq_true_iff.1 h
  obtain ⟨e, he, hstore⟩ := (Option.any_eq_true _ _).1 hlog
  obtain ⟨th, hth, hparams⟩ := (Option.any_eq_true _ _).1 hthread
  obtain ⟨hi, rfl⟩ := List.getElem?_eq_some_iff.1 he
  rw [Bool.and_eq_true, decide_eq_true_eq, decide_eq_true_eq] at hstore
  exact ⟨hi, hstore.2, t, th, hstore.1, hth, hparams⟩

theorem fencing_order_handover : ∃ w ∈ World.run (leaseSystem plainJson)
      (LeaseWorld.start emptyServer) handover,
    acquiredAt plainJson w "lock.x"
      ⟨"a", 1, "1970-01-01T00:00:01Z", "1970-01-01T00:00:02Z", 2⟩ 9 0 ∧
    acquiredAt plainJson w "lock.x"
      ⟨"b", 2, "1970-01-01T00:00:03Z", "1970-01-01T00:00:04Z", 4⟩ 0 1 ∧
    TokensOrdered plainJson w "lock.x" := by
  have hend : ∃ w ∈ World.run (leaseSystem plainJson) (LeaseWorld.start emptyServer) handover,
      (acquiredAt plainJson w "lock.x"
        ⟨"a", 1, "1970-01-01T00:00:01Z", "1970-01-01T00:00:02Z", 2⟩ 9 0 ∧
      acquiredAt plainJson w "lock.x"
        ⟨"b", 2, "1970-01-01T00:00:03Z", "1970-01-01T00:00:04Z", 4⟩ 0 1) ∧
      ∀ j < w.log.length, ∀ i < j, storedAt w "lock.x" i = true → storedAt w "lock.x" j = true →
        MintsInOrder w "lock.x" i j := by
    decide +kernel
  obtain ⟨w, hw, ⟨hfirst, hlast⟩, horder⟩ := hend
  exact ⟨w, hw, hfirst, hlast, (fencing_order plainJson emptyServer handover
    (by simp [handover, steps, World.ModeOk]) w hw "lock.x").2 (takenInMintOrder_of_indices horder)⟩

/-- Node `a` mints, node `b` mints and takes the slot, its lease lapses, and `a`
takes it over. -/
def delayedHolder : List LeaseChoice :=
  [.start (.tryAcquire (lockBy "a")), .start (.tryAcquire (lockBy "b"))] ++ steps 0 2 ++
    steps 1 6 ++ [.env 3000000000] ++ steps 0 7

/-- The later holder has the lower token. -/
theorem fencing_order_delayed : ∃ w ∈ World.run (leaseSystem plainJson)
      (LeaseWorld.start emptyServer) delayedHolder, ¬ TokensOrdered plainJson w "lock.x" := by
  have hend : ∃ w ∈ World.run (leaseSystem plainJson) (LeaseWorld.start emptyServer) delayedHolder,
      acquiredAt plainJson w "lock.x"
        ⟨"a", 1, "1970-01-01T00:00:03Z", "1970-01-01T00:00:04Z", 4⟩ 0 0 ∧
      acquiredAt plainJson w "lock.x"
        ⟨"b", 2, "1970-01-01T00:00:01Z", "1970-01-01T00:00:02Z", 2⟩ 7 1 := by
    decide +kernel
  obtain ⟨w, hrun, hlast, hfirst⟩ := hend
  refine ⟨w, hrun, fun hordered => ?_⟩
  obtain ⟨hi, hacquires⟩ := acquiresAt_of_acquiredAt hlast
  obtain ⟨hj, hacquires'⟩ := acquiresAt_of_acquiredAt hfirst
  have hsuf : (w.log[0] :: w.log.drop 1) <:+ w.log := by
    rw [← List.drop_eq_getElem_cons]
    exact List.drop_suffix _ _
  have hsuf' : (w.log[7] :: w.log.drop 8) <:+ w.log.drop 1 := by
    rw [← List.drop_eq_getElem_cons]
    exact List.drop_suffix_drop_left _ (by decide)
  exact absurd (hordered _ _ _ _ _ _ hsuf hsuf' hacquires hacquires') (by decide)

end ClusterNats.Lease
