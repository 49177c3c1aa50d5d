import ClusterNats.Lease.Fencing

/-!
# Mints beside each other

Any number of nodes mint tokens of any keys.  Every request of a mint may fail,
and a record may be stored although its acknowledgement is lost.  The counter of
a key then still only grows, and a token that is returned was stored by the call
that returns it.

* `bumpSystem`, `Bumped` — the mints of a fleet and what they returned.
* `BumpFleet`, `run_bumpFleet` — what every run of them gives.
* `counter_le` — the counter never decreases.
* `tokens_increase` — **tokens are distinct, and ordered as they were stored**.
-/

namespace ClusterNats.Lease

open Conc

/-- The mints of a fleet; a call is the key of its counter. -/
def bumpSystem : System leaseSig Server Unit Mode Instant String UInt64 where
  serve := serve
  env := tick
  deliver _ _ := none
  loc₀ := ()
  job j := nomatch j
  call _ key := some (bumpFencingToken key)

/-- A state of the mints. -/
abbrev BumpWorld := World leaseSig Server Unit String UInt64

/-- A choice of the scheduler. -/
abbrev BumpChoice := Choice Mode Instant String

/-- A server nobody mints on yet. -/
def BumpWorld.start (s : Server) : BumpWorld := ⟨s, [], []⟩

/-- Thread `t` returned the token of the key. -/
def Bumped (w : BumpWorld) (key : String) (t : Nat) (token : UInt64) : Prop :=
  ∃ th, w.threads[t]? = some th ∧ th.op = key ∧ th.main.value? = some token

theorem bumped_iff {w : BumpWorld} {key : String} {t : Nat} {token : UInt64} : Bumped w key t token ↔
    (w.threads[t]?.any fun th => th.op = key && th.main.value? = some token) = true := by
  simp [Bumped, Option.any_eq_true]

instance (w : BumpWorld) (key : String) (t : Nat) (token : UInt64) :
    Decidable (Bumped w key t token) := decidable_of_iff _ bumped_iff.symm

theorem bumpSystem_serves : Serves bumpSystem := ⟨rfl, rfl⟩

/-! ## One request -/

/-- What a mint stores: the successor of the counter. -/
theorem nextToken_recordIn (s : Server) (key : String) :
    nextToken (recordIn s .fencing (fencingPath key)) = saturatingAdd (s.counter key) 1 := by
  unfold Server.counter
  cases recordIn s .fencing (fencingPath key) with
  | none => rfl
  | some r => rfl

@[simp] theorem counter_stored (s : Server) (key : String) (headers : HeaderMap) (payload : Bytes) :
    (s.stored .fencing (fencingPath key) headers payload).counter key = parseToken payload := by
  rw [Server.counter, recordIn, last_stored_self]
  rfl

theorem counter_stored_ne {s : Server} {key path : String} {headers : HeaderMap} {payload : Bytes}
    (h : fencingPath key ≠ path) :
    (s.stored .fencing path headers payload).counter key = s.counter key := by
  rw [Server.counter, Server.counter, recordIn, recordIn, last_stored_ne (.inr h)]

theorem counter_tick {t : Instant} {s s' : Server} (h : tick t s = some s') (key : String) :
    s'.counter key = s.counter key := by
  rw [Server.counter, Server.counter, recordIn, recordIn, tick_last h]

/-- **What a request of a mint does to a counter**: nothing, or it stores its
successor. -/
theorem serve_counter {m : Mode} {e : LeaseEvent} {s' : Server} {c c' : Unit} {key key' : String}
    {own : List LeaseEvent} (h : serve m e.pre c e.req = some (e.resp, s', c'))
    (hguard : MintGuard key' e.who own e.req) (hown : ∀ d ∈ own, d.pre.Later e.pre) :
    s'.counter key = e.pre.counter key ∨ s'.counter key = saturatingAdd (e.pre.counter key) 1 := by
  rcases serve_state h with rfl | ⟨store, path, headers, payload, revision, hwrite, -, hrev, rfl⟩
  · exact .inl rfl
  cases hreq : e.req with
  | update store₀ path₀ value revision₀ =>
    rw [hreq] at hwrite hguard
    cases hwrite
    cases store with
    | leases => exact absurd hguard id
    | fencing =>
      obtain ⟨-, s, hread, hvalue, hrevision⟩ := hguard
      by_cases hpath : fencingPath key = path
      · subst hpath
        have hsame := last_eq_of_revision (hown _ hread) rfl (hrev.trans hrevision)
        right
        rw [counter_stored, hvalue, parseToken_renderU64, ← nextToken_recordIn, recordIn, recordIn,
          hsame]
        rfl
      · exact .inl (counter_stored_ne hpath)
  | deleteExpectRevision store₀ key₀ revision₀ =>
    rw [hreq] at hguard
    exact absurd hguard id
  | _ =>
    rw [hreq] at hwrite
    cases hwrite

/-! ## Every run -/

/-- A call returns a token right after it stored it. -/
def Minted (key : String) (_ : Actor) (tr : List LeaseEvent) (x : Except ClusterError UInt64) : Prop :=
  ∀ token, x = .ok token → ∃ m before, tr = m :: before ∧ Mints key token m

/-- What a run of mints gives. -/
structure BumpFleet (s₀ : Server) (w : BumpWorld) : Prop where
  main : ∀ e ∈ w.log, ∃ t, e.who = .main t
  abiding : World.Abiding Known MintGuard Minted w
  history : History bumpSystem (fun _ => True) s₀ w.log w.srv

/-- **Every run of mints keeps the guard.** -/
theorem run_bumpFleet {s₀ : Server} {cs : List BumpChoice} {w : BumpWorld}
    (hrun : World.run bumpSystem (BumpWorld.start s₀) cs = some w) : BumpFleet s₀ w where
  main := World.run_main hrun
  abiding := by
    refine World.run_abiding (fun _ => True) ?_ ?_ (fun c _ => by cases c <;> trivial) hrun
    · rintro e ⟨m, l, s', l', -, h⟩
      exact ⟨m, s', h⟩
    · intro ths key p hp t
      cases Option.some.inj hp
      exact bumpRounds_mints 16
  history := World.start_history (fun c _ => by cases c <;> trivial) hrun

namespace BumpFleet

variable {s₀ : Server} {w : BumpWorld} (hw : BumpFleet s₀ w)
include hw

/-- Every event kept the guard of its call. -/
theorem guard {e : LeaseEvent} {l : List LeaseEvent} (hsuf : (e :: l) <:+ w.log) :
    ∃ key, MintGuard key e.who (ownEvents e.who l) e.req := by
  have he : e ∈ w.log := hsuf.subset List.mem_cons_self
  obtain ⟨t, ht⟩ := hw.main e he
  have hlt := hw.abiding.known e he
  rw [ht, Actor.thread] at hlt
  rw [ht]
  exact ⟨_, hw.abiding.guarded t w.threads[t] (by simp [hlt]) e l hsuf ht⟩

/-- What an actor did before an event is of earlier states. -/
theorem own_later {e : LeaseEvent} {l : List LeaseEvent} (hsuf : (e :: l) <:+ w.log) :
    ∀ d ∈ ownEvents e.who l, d.pre.Later e.pre := by
  intro d hd
  obtain ⟨post, hpost⟩ := hsuf
  have hbefore := (hpost ▸ hw.history).split.1
  exact history_since bumpSystem_serves hbefore (mem_ownEvents.1 hd).1

/-- **The counter never decreases.** -/
theorem counter_le {s s' : Server} {new l : List LeaseEvent} (hsuf : (new ++ l) <:+ w.log)
    (h : History bumpSystem (fun _ => True) s new s') (key : String) :
    (s.counter key).toNat ≤ (s'.counter key).toNat := by
  refine h.induction (P := fun _ s' => (s.counter key).toNat ≤ (s'.counter key).toNat)
    (Nat.le_refl _) ?_ ?_
  · intro _ t s₁ s₂ hle htick
    rwa [counter_tick htick]
  · intro l' e m c s'' c' hl' hle _ hserve
    have hevent : (e :: (l' ++ l)) <:+ w.log := (List.suffix_append_self_iff.2 hl').trans hsuf
    obtain ⟨key', hguard⟩ := hw.guard hevent
    have hcounter : s''.counter key = e.pre.counter key ∨
        s''.counter key = saturatingAdd (e.pre.counter key) 1 :=
      serve_counter hserve hguard (hw.own_later hevent)
    rcases hcounter with heq | heq
    · rwa [heq]
    · rw [heq]
      exact hle.trans (le_saturatingAdd _ _)

/-- A token stored is the successor of the counter, and the counter after it. -/
theorem mints {e : LeaseEvent} {l : List LeaseEvent} (hsuf : (e :: l) <:+ w.log) {key : String}
    {token : UInt64} (hmint : Mints key token e) {m : Mode} {s' : Server} {c c' : Unit}
    (hserve : serve m e.pre c e.req = some (e.resp, s', c')) :
    token = saturatingAdd (e.pre.counter key) 1 ∧ s'.counter key = token := by
  obtain ⟨revision, hreq, hrev, rfl⟩ := serve_stored hserve hmint
  obtain ⟨key', hguard⟩ := hw.guard hsuf
  rw [hreq] at hguard
  obtain ⟨-, s, hread, hvalue, hrevision⟩ := hguard
  have hsame := last_eq_of_revision (hw.own_later hsuf _ hread) rfl (hrev.trans hrevision)
  have htoken : token = nextToken (recordIn e.pre .fencing (fencingPath key)) := by
    rw [recordIn, hsame]
    exact renderU64_injective hvalue
  rw [counter_stored, parseToken_renderU64]
  exact ⟨htoken.trans (nextToken_recordIn _ _), rfl⟩

/-- **A token stored later is greater**, while the counter is not full. -/
theorem mints_lt {e e' : LeaseEvent} {l : List LeaseEvent} (hsuf : (e :: l) <:+ w.log) (he' : e' ∈ l)
    {key : String} {token token' : UInt64} (hmint : Mints key token e) (hmint' : Mints key token' e')
    (hfull : (e.pre.counter key).toNat < UInt64.size - 1) : token'.toNat < token.toNat := by
  obtain ⟨post, hpost⟩ := hsuf
  obtain ⟨mid, pre, rfl⟩ := List.append_of_mem he'
  obtain ⟨hbefore, m, c, s', c', -, hserve, -⟩ := (hpost ▸ hw.history).split
  obtain ⟨-, m', c₁, s₁, c₁', -, hserve', hmid⟩ := hbefore.split
  have hevent : (e' :: pre) <:+ w.log :=
    (List.suffix_append mid _).trans ((List.suffix_cons e _).trans ⟨post, hpost⟩)
  have hafter : (mid ++ e' :: pre) <:+ w.log := (List.suffix_cons e _).trans ⟨post, hpost⟩
  obtain ⟨-, hstored⟩ := hw.mints hevent hmint' hserve'
  obtain ⟨hnext, -⟩ := hw.mints ⟨post, hpost⟩ hmint hserve
  have hle := hw.counter_le hafter hmid key
  rw [hstored] at hle
  rw [hnext]
  exact Nat.lt_of_le_of_lt hle (lt_saturatingAdd_one (Nat.le_refl _) hfull)

/-- A token that was returned was stored by the call that returned it. -/
theorem stored_of_bumped {key : String} {t : Nat} {token : UInt64} (h : Bumped w key t token) :
    ∃ e l, (e :: l) <:+ w.log ∧ e.who = .main t ∧ Mints key token e := by
  obtain ⟨th, hth, rfl, hvalue⟩ := h
  obtain ⟨m, before, hown, hmint⟩ := hw.abiding.result hth (Prog.result?_of_value? hvalue) token rfl
  have hmem : m ∈ ownEvents (.main t) w.log := by
    rw [hown]
    exact List.mem_cons_self
  obtain ⟨hlog, hwho⟩ := mem_ownEvents.1 hmem
  obtain ⟨post, pre, hsplit⟩ := List.append_of_mem hlog
  exact ⟨m, pre, ⟨post, hsplit.symm⟩, hwho, hmint⟩

end BumpFleet

/-! ## The order of the tokens -/

theorem run_prolongs {cs : List BumpChoice} {w w' : BumpWorld}
    (hrun : World.run bumpSystem w cs = some w') :
    ∃ new, w'.log = new ++ w.log ∧ History bumpSystem (fun _ => True) w.srv new w'.srv :=
  World.run_since (fun c _ => by cases c <;> trivial) hrun

/-- **Tokens are distinct and increase.**  In every run, while the counter of a key
is not full: the tokens that calls returned are distinct, each was stored by the
call that returned it, tokens are ordered as they were stored, a call that starts
after another returned gets a greater one, and the counter never decreases. -/
theorem tokens_increase {s₀ : Server} {cs₁ cs₂ : List BumpChoice} {w₁ w : BumpWorld}
    (h₁ : World.run bumpSystem (BumpWorld.start s₀) cs₁ = some w₁)
    (h₂ : World.run bumpSystem w₁ cs₂ = some w) {key : String}
    (hfull : ∀ e ∈ w.log, (e.pre.counter key).toNat < UInt64.size - 1) :
    (∀ t t' a b, t ≠ t' → Bumped w key t a → Bumped w key t' b → a ≠ b) ∧
    (∀ t a, Bumped w key t a → ∃ e l, (e :: l) <:+ w.log ∧ e.who = .main t ∧ Mints key a e) ∧
    (∀ e l e' l' a b, (e :: l) <:+ w.log → (e' :: l') <:+ w.log → Mints key a e → Mints key b e' →
      (a.toNat < b.toNat ↔ l.length < l'.length)) ∧
    (∀ t t' a b, Bumped w₁ key t a → w₁.threads.length ≤ t' → Bumped w key t' b →
      a.toNat < b.toNat) ∧
    (w₁.srv.counter key).toNat ≤ (w.srv.counter key).toNat := by
  have hrun : World.run bumpSystem (BumpWorld.start s₀) (cs₁ ++ cs₂) = some w := by
    rw [World.run_append, h₁]
    exact h₂
  have hw₁ := run_bumpFleet h₁
  have hw := run_bumpFleet hrun
  have horder : ∀ {e l e' l' a b}, (e :: l) <:+ w.log → (e' :: l') <:+ w.log → Mints key a e →
      Mints key b e' → l.length < l'.length → a.toNat < b.toNat := by
    intro e l e' l' a b hsuf hsuf' hmint hmint' hlt
    have hmem : e ∈ l' :=
      (suffix_of_length_lt hsuf' hsuf (Nat.succ_lt_succ hlt)).subset List.mem_cons_self
    exact hw.mints_lt hsuf' hmem hmint' hmint (hfull e' (hsuf'.subset List.mem_cons_self))
  have hplace : ∀ {e l e' l'}, (e :: l) <:+ w.log → (e' :: l') <:+ w.log → l.length = l'.length →
      e = e' := by
    intro e l e' l' hsuf hsuf' hlen
    have heq := List.suffix_of_suffix_length_le hsuf hsuf' (by simp [hlen])
    exact (List.cons.inj (heq.eq_of_length (by simp [hlen]))).1
  refine ⟨?_, fun t a ha => hw.stored_of_bumped ha, ?_, ?_, ?_⟩
  · rintro t t' a b hne ha hb rfl
    obtain ⟨e, l, hsuf, hwho, hmint⟩ := hw.stored_of_bumped ha
    obtain ⟨e', l', hsuf', hwho', hmint'⟩ := hw.stored_of_bumped hb
    rcases Nat.lt_trichotomy l.length l'.length with hlt | hlen | hgt
    · exact lt_irrefl _ (horder hsuf hsuf' hmint hmint' hlt)
    · have hsame := hplace hsuf hsuf' hlen
      rw [hsame, hwho'] at hwho
      exact hne (Actor.main.inj hwho).symm
    · exact lt_irrefl _ (horder hsuf' hsuf hmint' hmint hgt)
  · intro e l e' l' a b hsuf hsuf' hmint hmint'
    refine ⟨fun hlt => ?_, horder hsuf hsuf' hmint hmint'⟩
    rcases Nat.lt_trichotomy l.length l'.length with hlen | hlen | hgt
    · exact hlen
    · have hsame := hplace hsuf hsuf' hlen
      subst hsame
      have hrender := (Prod.mk.inj (Prod.mk.inj (Option.some.inj (hmint.symm.trans hmint'))).2).2
      rw [renderU64_injective hrender] at hlt
      exact absurd hlt (lt_irrefl _)
    · exact absurd hlt (horder hsuf' hsuf hmint' hmint hgt).asymm
  · -- the later call stored its token after everything the first one did
    intro t t' a b ha hstart hb
    obtain ⟨e, l, hsuf, -, hmint⟩ := hw₁.stored_of_bumped ha
    obtain ⟨e', l', hsuf', hwho', hmint'⟩ := hw.stored_of_bumped hb
    obtain ⟨new, hlog, -⟩ := run_prolongs h₂
    have hold : (e :: l) <:+ w.log := hsuf.trans (hlog ▸ List.suffix_append new _)
    refine horder hold hsuf' hmint hmint' ?_
    by_contra hle
    have hknown : e' ∈ w₁.log := by
      have hsub := List.suffix_of_suffix_length_le hsuf' hold (by simp; omega)
      exact hsuf.subset (hsub.subset List.mem_cons_self)
    have hlt := hw₁.abiding.known e' hknown
    rw [hwho', Actor.thread] at hlt
    omega
  · obtain ⟨new, hlog, hnew⟩ := run_prolongs h₂
    have hall : (new ++ w₁.log) <:+ w.log := hlog ▸ List.suffix_refl w.log
    exact hw.counter_le hall hnew key

/-- Two mints; the first one's acknowledgement is lost. -/
def lostMint : List BumpChoice :=
  [.start "k", .act (.main 0) .ok, .act (.main 0) (.lost "timeout"), .start "k", .act (.main 1) .ok,
    .act (.main 1) .ok]

/-- A token that was stored and not returned is not given again. -/
theorem tokens_increase_lost : ∃ w₁ ∈ World.run bumpSystem (BumpWorld.start emptyServer) lostMint,
    ∃ w ∈ World.run bumpSystem w₁ [.start "k", .act (.main 2) .ok, .act (.main 2) .ok],
      Bumped w₁ "k" 1 2 ∧ Bumped w "k" 2 3 ∧ ∀ t b, 2 ≤ t → Bumped w "k" t b → 2 < b.toNat := by
  have hruns : ∃ w₁ ∈ World.run bumpSystem (BumpWorld.start emptyServer) lostMint,
      ∃ w ∈ World.run bumpSystem w₁ [.start "k", .act (.main 2) .ok, .act (.main 2) .ok],
        w₁.threads.length = 2 ∧ Bumped w₁ "k" 1 2 ∧ Bumped w "k" 2 3 ∧
          ∀ e ∈ w.log, (e.pre.counter "k").toNat < UInt64.size - 1 := by
    decide +kernel
  obtain ⟨w₁, h₁, w, h₂, hlen, hfirst, hlast, hfull⟩ := hruns
  obtain ⟨-, -, -, hlater, -⟩ := tokens_increase h₁ h₂ hfull
  exact ⟨w₁, h₁, w, h₂, hfirst, hlast, fun t b ht hb => hlater 1 t 2 b hfirst (hlen ▸ ht) hb⟩

end ClusterNats.Lease
