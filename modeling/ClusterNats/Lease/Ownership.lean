import ClusterNats.Conc.Linear
import ClusterNats.Lease.Renewals

/-!
# Whose the slot is

A lease is used only after an acquisition returned it, so the record that made it
is stored before every call on it.  Tokens are distinct below a full counter, and
a renewal stores a record of its lease only over one: a slot that lost the lease
never gets it back.

* `Answers` — what a call returns.
* `Fleet.acquired_before` — the acquisition behind a call on a lease.
* `slot_since` — what an event after it makes of the slot.
* `lost_since`, `lost_after` — **a lease that was lost stays lost**.
-/

namespace ClusterNats.Lease

open Conc

/-! ## What a call returns -/

/-- The replies of a call. -/
inductive Answers : Op → Reply → Prop
  | acquire (p : AcquireParams) (fuel : Nat) (h : Option LeaseHandle) :
    Answers (.acquire p fuel) (.lease h)
  | tryAcquire (p : AcquireParams) (h : Option LeaseHandle) : Answers (.tryAcquire p) (.lease h)
  | renew (h : LeaseHandle) (e : String) : Answers (.renew h) (.renewed e)
  | release (h : LeaseHandle) : Answers (.release h) .done
  | renewalLoop (h : LeaseHandle) (fuel : Nat) : Answers (.renewalLoop h fuel) .done

/-- A reply that a call wraps is one of its own. -/
theorem answers_map {op : Op} {α : Type} {p : LeaseProg α} {f : α → Reply}
    (hf : ∀ a, Answers op (f a)) {who : Actor} {tr : List LeaseEvent} :
    (f <$> p).Abides who Known (fun _ _ => True) (fun _ x => ∀ y, x = .ok y → Answers op y) tr := by
  refine (Prog.abides_of_free (Q := fun _ _ => True) (fun _ _ => trivial)
    fun _ _ => trivial).map fun tr x _ y heq => ?_
  cases x with
  | error e => cases heq
  | ok a =>
    cases heq
    exact hf a

theorem program_answers {json : LeaseJson} {who : Actor} {tr : List LeaseEvent} (op : Op) :
    (op.program json).Abides who Known (fun _ _ => True)
      (fun _ x => ∀ y, x = .ok y → Answers op y) tr := by
  cases op with
  | acquire p fuel => exact answers_map fun h => .acquire p fuel (some h)
  | tryAcquire p => exact answers_map fun h => .tryAcquire p h
  | renew h => exact answers_map fun e => .renew h e
  | release h => exact answers_map fun _ => .release h
  | renewalLoop h fuel => exact answers_map fun _ => .renewalLoop h fuel

theorem run_answers {json : LeaseJson} {s₀ : Server} {cs : List LeaseChoice} {w : LeaseWorld}
    (hcs : ∀ c ∈ cs, World.ModeOk (· = .ok) c)
    (hrun : World.run (leaseSystem json) (LeaseWorld.start s₀) cs = some w) {t : Nat}
    {th : LeaseThread} (hth : w.threads[t]? = some th) {y : Reply}
    (hvalue : th.main.value? = some y) : Answers th.op y := by
  have habiding : World.Abiding Known (fun _ _ _ _ => True)
      (fun op _ _ x => ∀ y, x = .ok y → Answers op y) w := by
    refine World.run_abiding (· = .ok) ?_ ?_ hcs hrun
    · rintro e ⟨m, l, s', l', -, h⟩
      exact ⟨m, s', h⟩
    · intro ths op p hp t
      rw [call_program hp]
      exact program_answers op
  exact habiding.result hth (Prog.result?_of_value? hvalue) y rfl

/-! ## The acquisition behind a lease -/

/-- The log has an acquisition of the lease. -/
def AcquiredIn (json : LeaseJson) (w : LeaseWorld) (h : LeaseHandle) (l : List LeaseEvent) : Prop :=
  ∃ e before record, (e :: before) <:+ l ∧ AcquiresAt json w h.key record e ∧ h.owns record = true

theorem AcquiredIn.mono {json : LeaseJson} {w : LeaseWorld} {h : LeaseHandle}
    {l l' : List LeaseEvent} (hacq : AcquiredIn json w h l) (hl : l <:+ l') :
    AcquiredIn json w h l' := by
  obtain ⟨e, before, record, hsuf, hrest⟩ := hacq
  exact ⟨e, before, record, hsuf.trans hl, hrest⟩

/-- A bucket takes the key of a lease that was acquired. -/
theorem AcquiredIn.validKey {json : LeaseJson} {s₀ : Server} {w : LeaseWorld} (hw : Fleet json s₀ w)
    {h : LeaseHandle} {l : List LeaseEvent} (hacq : AcquiredIn json w h l) (hl : l <:+ w.log) :
    isValidKey (bytes h.key) = true := by
  obtain ⟨e, before, record, hsuf, he, -⟩ := hacq
  obtain ⟨s', hserve⟩ := hw.served ((hsuf.trans hl).subset List.mem_cons_self)
  exact (serve_stored_valid hserve he.1).1

/-- An acquisition that returned a lease stored its record. -/
theorem acquired_of_returned {json : LeaseJson} {s₀ : Server} {cs : List LeaseChoice}
    {w : LeaseWorld} (hcs : ∀ c ∈ cs, World.ModeOk (· = .ok) c)
    (hrun : World.run (leaseSystem json) (LeaseWorld.start s₀) cs = some w) {t : Nat}
    {th : LeaseThread} (hth : w.threads[t]? = some th) {h : LeaseHandle}
    (hvalue : th.main.value? = some (.lease (some h))) :
    th.op.params.isSome ∧ ∃ e ∈ w.log, e.who = .main t ∧ ∃ record,
      storedBy e = some (.leases, h.key, json.toVec record) ∧ h.owns record = true := by
  have hw := run_fleet hcs hrun
  have hanswers := run_answers hcs hrun hth hvalue
  have htells := hw.abiding.result hth (Prog.result?_of_value? hvalue)
  have hstored : ∀ p, LeaseTells json p (ownEvents (.main t) w.log) h →
      ∃ e ∈ w.log, e.who = .main t ∧ ∃ record,
        storedBy e = some (.leases, h.key, json.toVec record) ∧ h.owns record = true := by
    rintro p ⟨record, rfl, -, e, before, hown, hby⟩
    have hmem : e ∈ ownEvents (.main t) w.log := by
      rw [hown]
      exact List.mem_cons_self
    obtain ⟨hlog, hwho⟩ := mem_ownEvents.1 hmem
    exact ⟨e, hlog, hwho, record, hby, by simp [LeaseHandle.owns, spawnLeaseHandle]⟩
  cases hop : th.op with
  | acquire p fuel =>
    rw [hop] at htells
    exact ⟨rfl, hstored p (htells h rfl)⟩
  | tryAcquire p =>
    rw [hop] at htells
    exact ⟨rfl, hstored p (htells h rfl)⟩
  | _ =>
    rw [hop] at hanswers
    cases hanswers

/-- **The acquisition behind a call on a lease** is in the log before the call's
first request. -/
theorem acquired_before {json : LeaseJson} {s₀ : Server} {cs : List LeaseChoice} {w : LeaseWorld}
    (hcs : ∀ c ∈ cs, World.ModeOk (· = .ok) c)
    (hrun : World.run (leaseSystem json) (LeaseWorld.start s₀) cs = some w) {t : Nat}
    {th : LeaseThread} (hth : w.threads[t]? = some th) {h : LeaseHandle}
    (hhandle : th.op.handle = some h) :
    ∃ l, l <:+ w.log ∧ (∀ e ∈ l, e.who ≠ .main t) ∧ AcquiredIn json w h l := by
  obtain ⟨ca, cb, w₁, p, rfl, h₁, hlen, hp⟩ := World.run_started hrun hth
  have hok : ∀ c ∈ ca, World.ModeOk (· = .ok) c := fun c hc => hcs c (List.mem_append_left _ hc)
  have hw₁ := run_fleet hok h₁
  rw [World.run_append] at hrun
  obtain ⟨w', hw', hrest⟩ := Option.bind_eq_some_iff.1 hrun
  cases Option.some.inj (h₁.symm.trans hw')
  obtain ⟨hgrows, hops⟩ := World.run_grows hrest
  refine ⟨w₁.log, hgrows, fun e he hwho => ?_, ?_⟩
  · have hlt := hw₁.abiding.known e he
    rw [hwho, Actor.thread] at hlt
    omega
  · have hany : w₁.threads.any (Returned · h) = true := by
      simp only [leaseSystem, hhandle] at hp
      by_contra hnone
      rw [if_neg hnone] at hp
      cases hp
    obtain ⟨th₀, hmem, hreturned⟩ := List.any_eq_true.1 hany
    obtain ⟨t₀, hth₀⟩ := List.mem_iff_getElem?.1 hmem
    obtain ⟨hparams, e, he, hwho, record, hby, howns⟩ :=
      acquired_of_returned hok h₁ hth₀ (of_decide_eq_true hreturned)
    obtain ⟨post, before, hsplit⟩ := List.append_of_mem he
    refine ⟨e, before, record, ⟨post, hsplit.symm⟩, ⟨hby, t₀, ?_⟩, howns⟩
    have hop : w.ops t₀ = some th₀.op := hops t₀ _ (by rw [World.ops, hth₀]; rfl)
    obtain ⟨th', hth', hop'⟩ := Option.map_eq_some_iff.1 hop
    exact ⟨th', hwho, hth', by rw [hop']; exact hparams⟩

/-! ## A lease that was lost -/

section Lost

variable {json : LeaseJson} {s₀ : Server} {w : LeaseWorld} (hw : Fleet json s₀ w)
  (hkept : RenewalsKept json w) {h : LeaseHandle}
  (hfull : h.fencingToken.toNat < UInt64.size - 1)
include hw hkept hfull

omit hkept in
/-- A second acquisition stores no record of the lease: it has another token. -/
theorem other_of_acquires {e : LeaseEvent} {l : List LeaseEvent} (hacq : AcquiredIn json w h l)
    (hsuf : (e :: l) <:+ w.log) {record : LeaseRecord} (he : AcquiresAt json w h.key record e) :
    h.owns record = false := by
  rw [← Bool.not_eq_true]
  intro howns
  obtain ⟨e₀, before, record₀, hsuf₀, he₀, howns₀⟩ := hacq
  simp only [LeaseHandle.owns, Bool.and_eq_true, decide_eq_true_eq] at howns howns₀
  refine absurd (howns₀.2.trans howns.2.symm) ?_
  exact hw.token_ne hsuf hsuf₀ he he₀ (howns.2 ▸ hfull)

/-- **What an event makes of the slot of a lease that was acquired before it.**
Nothing, a delete marker, or a record, which is one of the lease only where the
slot held one. -/
theorem slot_since {e : LeaseEvent} {l : List LeaseEvent} (hacq : AcquiredIn json w h l)
    (hsuf : (e :: l) <:+ w.log) {s' : Server}
    (hserve : serve .ok e.pre () e.req = some (e.resp, s', ())) :
    s'.last .leases h.key = e.pre.last .leases h.key ∨
    (∃ record, s' = e.pre.stored .leases h.key [] (json.toVec record) ∧
      (h.owns record = true → e.pre.Holds json h)) ∨
    s' = e.pre.stored .leases h.key deleteMarker [] := by
  rcases slot_cases hw hkept hsuf hserve h.key with hlast | ⟨record, hacquires, rfl⟩ |
    ⟨old, expiresAt, expiresAtUnix, hheld, rfl⟩ | ⟨-, rfl⟩
  · exact .inl hlast
  · refine .inr (.inl ⟨record, rfl, fun howns => ?_⟩)
    rw [other_of_acquires hw hfull hacq hsuf hacquires] at howns
    cases howns
  · exact .inr (.inl ⟨_, rfl, fun howns => ⟨old, hheld, howns⟩⟩)
  · exact .inr (.inr rfl)

/-- What such events keep, a history keeps. -/
theorem slot_induction {P : Server → Prop}
    (hlast : ∀ s s' : Server, P s → s'.last .leases h.key = s.last .leases h.key → P s')
    (hstored : ∀ (s : Server) record, P s → (h.owns record = true → s.Holds json h) →
      P (s.stored .leases h.key [] (json.toVec record)))
    (hmarker : ∀ s : Server, P s → P (s.stored .leases h.key deleteMarker []))
    {s s' : Server} {new l : List LeaseEvent} (hacq : AcquiredIn json w h l)
    (hsuf : (new ++ l) <:+ w.log) (hnew : History (leaseSystem json) (· = .ok) s new s')
    (h₀ : P s) : P s' := by
  refine hnew.induction (P := fun _ s' => P s') h₀ ?_ ?_
  · intro _ t s₁ s₂ h₁ htick
    exact hlast s₁ s₂ h₁ (tick_last htick _ _)
  · rintro l' e m c s'' c' hl' hpre rfl hserve
    have hevent : (e :: (l' ++ l)) <:+ w.log := (List.suffix_append_self_iff.2 hl').trans hsuf
    rcases slot_since hw hkept hfull (hacq.mono (List.suffix_append l' l)) hevent hserve with
      hsame | ⟨record, rfl, howns⟩ | rfl
    · exact hlast e.pre s'' hpre hsame
    · exact hstored e.pre record hpre howns
    · exact hmarker e.pre hpre

/-- **A lease that was lost stays lost.** -/
theorem lost_since {s s' : Server} {new l : List LeaseEvent} (hacq : AcquiredIn json w h l)
    (hsuf : (new ++ l) <:+ w.log) (hnew : History (leaseSystem json) (· = .ok) s new s')
    (hlost : ¬ s.Holds json h) : ¬ s'.Holds json h := by
  refine slot_induction hw hkept hfull (P := fun s => ¬ s.Holds json h) ?_ ?_ ?_ hacq hsuf hnew hlost
  · intro s s' hlost hlast hholds
    exact hlost (hholds.of_last hlast.symm)
  · rintro s record hlost howns ⟨record', hheld, howns'⟩
    rw [holding_stored] at hheld
    cases hheld
    exact hlost (howns howns')
  · rintro s - ⟨record, hheld, -⟩
    rw [holding_deleted] at hheld
    cases hheld

omit hw hkept hfull in
/-- The history since an event, from the state it left. -/
theorem history_after {e : LeaseEvent} {pre l : List LeaseEvent} {s s' : Server}
    (hserve : serve .ok e.pre () e.req = some (e.resp, s', ())) (hel : (e :: pre) <:+ l)
    (hs : History (leaseSystem json) (· = .ok) s₀ l s) :
    ∃ post, l = post ++ e :: pre ∧ History (leaseSystem json) (· = .ok) s' post s := by
  obtain ⟨post, rfl⟩ := hel
  obtain ⟨-, m, c, s₁, c', rfl, hserve₁, hpost⟩ := hs.split
  have hsame : some (e.resp, s', ()) = some (e.resp, s₁, c') := hserve.symm.trans hserve₁
  cases hsame
  exact ⟨post, rfl, hpost⟩

/-- A lease that an event left lost is lost in every later state. -/
theorem lost_after {e : LeaseEvent} {pre : List LeaseEvent} (hacq : AcquiredIn json w h pre)
    {s' : Server} (hserve : serve .ok e.pre () e.req = some (e.resp, s', ()))
    (hlost : ¬ s'.Holds json h) {l : List LeaseEvent} (hel : (e :: pre) <:+ l) (hl : l <:+ w.log)
    {s : Server} (hs : History (leaseSystem json) (· = .ok) s₀ l s) : ¬ s.Holds json h := by
  obtain ⟨post, rfl, hpost⟩ := history_after hserve hel hs
  exact lost_since hw hkept hfull (hacq.mono (List.suffix_cons e pre)) hl hpost hlost

end Lost

end ClusterNats.Lease
