import ClusterNats.Conc.Single
import ClusterNats.Kv.Awaited
import ClusterNats.Kv.Primitives

/-!
# Calls that owe nothing

A verification that is about one call asks nothing of the others, and nothing of
the call's requests either: it only follows what the call reads.

* `Watches` — an agreement that asks nothing, and lets no time go back.
* `watch_req`, `watch_since` — one request, and what happened since.
* `watch_lastRecord`, `watch_isExpired`, `watch_slot`, `watch_recordConsumer` — what a call
  learns from its reads.
-/

namespace ClusterNats

open Conc

/-- A system of the store's calls. -/
abbrev KvSystem := System kvSig Server (Option Consumer) Mode Env Op Reply

/-- The agreement asks nothing of a request, relies on time going on at least,
and is about the store's server. -/
structure Watches (R : KvRules) (sys : KvSystem) : Prop extends R.Ordered where
  free : ∀ op who s log r, R.guar op who s log r
  later : ∀ v v', R.rely v v' → Later v v'
  serve : ∀ {m s l r x}, sys.serve m s l r = some x → ClusterNats.serve m s l r = some x

section Rules

variable {R : KvRules} {sys : KvSystem} {op : Op} {who : Actor} {js : List Job} {v : KvView}
  {α : Type} {Q : List Job → Except ClusterError α → KvView → Prop}

/-- One request. -/
theorem watch_req (hR : Watches R sys) {r : Req} {k : Resp r → Kv α}
    (h : ∀ v₁ mode x v₂, R.rely v v₁ → serve mode v₁.srv v₁.loc r = some (x, v₂.srv, v₂.loc) →
      v₂.log = ⟨who, r, x, v₁.srv⟩ :: v₁.log → Later v₁ v₂ → R.Safe sys op who Q (k x) js v₂) :
    R.Safe sys op who Q (.req r k) js v := by
  intro v₁ hv
  refine ⟨hR.free _ _ _ _ _, fun mode x s l _ hx => ?_⟩
  have hx := hR.serve hx
  obtain ⟨hbucket, hclock⟩ := serve_later hx
  exact h v₁ mode x ⟨s, _, l⟩ hv hx rfl ⟨hbucket, hclock, List.suffix_cons _ _⟩

/-- Where a program ends, time has passed since its start. -/
theorem watch_since (hR : Watches R sys) {p : Kv α} (h : R.Safe sys op who Q p js v) :
    R.Safe sys op who (fun js' x v' => Q js' x v' ∧ Later v v') p js v := by
  refine h.since (T := Later) (fun _ _ _ => Later.trans) hR.later ?_
  intro v mode r x s l _ hx
  obtain ⟨hbucket, hclock⟩ := serve_later (hR.serve hx)
  exact ⟨hbucket, hclock, List.suffix_cons _ _⟩

/-- `last_record`. -/
theorem watch_lastRecord (hR : Watches R sys) {encoded : Bytes}
    {f : Except String (Option Record) → Kv α}
    (hok : ∀ v₁ v₂, R.rely v v₁ → v₂.srv = v₁.srv → v₂.log = readEvent who encoded v₁.srv :: v₁.log →
      R.Safe sys op who Q (f (.ok ((v₁.srv.bucket.last encoded).map Record.ofMessage))) js v₂)
    (herr : ∀ e v', R.Safe sys op who Q (f (.error e)) js v') :
    R.Safe sys op who Q (lastRecord encoded >>= f) js v := by
  refine watch_req hR (r := .getLast encoded) fun v₁ mode x v₂ hv hx hlog _ => ?_
  have hsrv : v₂.srv = v₁.srv := (serve_state hx).elim id id
  obtain ⟨y, hy, hxy⟩ := Option.map_eq_some_iff.1 hx
  have hyx : y = x := (Prod.mk.inj hxy).1
  subst hyx
  unfold readOnly at hy
  split at hy
  · cases Option.some.inj hy
    exact hok v₁ v₂ hv hsrv hlog
  · cases Option.some.inj hy
    exact herr _ v₂
  · cases Option.some.inj hy
    exact herr _ v₂
  · exact absurd hy (by simp)

/-- `is_expired`, by a clock reading from now on. -/
theorem watch_isExpired (hR : Watches R sys) {exp : Option UInt64} {f : Bool → Kv α}
    (h : ∀ now v', Later v v' → v.srv.now ≤ now → now ≤ v'.srv.now →
      R.Safe sys op who Q (f (isExpiredAt now exp)) js v') :
    R.Safe sys op who Q (isExpired exp >>= f) js v := by
  cases exp with
  | none => exact h v.srv.now v (.refl v) (UInt64.le_refl _) (UInt64.le_refl _)
  | some secs =>
    rw [isExpired, bind_assoc]
    refine watch_req hR (r := .systemTime) fun v₁ mode x v₂ hv hx _ hlater => ?_
    have hlater₁ := hR.later _ _ hv
    obtain ⟨htime, -⟩ := Prod.mk.inj (Option.some.inj hx)
    subst htime
    exact h v₁.srv.now v₂ (hlater₁.trans hlater) hlater₁.clock hlater.clock

/-- What a key holds: the record at one moment, the clock from then on. -/
theorem watch_slot (hR : Watches R sys) {encoded : Bytes} {key : String} {f : Slot → Kv α}
    (hok : ∀ v₁ now v', R.rely v v₁ → Later v₁ v' → readEvent who encoded v₁.srv ∈ v'.log →
      v₁.srv.now ≤ now → now ≤ v'.srv.now →
      R.Safe sys op who Q (f (.ofRecord now ((v₁.srv.bucket.last encoded).map Record.ofMessage))) js v')
    (herr : ∀ e v', Q js (.error e) v') :
    R.Safe sys op who Q (slot encoded key >>= f) js v := by
  rw [slot, bind_assoc]
  refine watch_lastRecord hR (fun v₁ v₂ hv hsrv hlog => ?_) fun e v' v'' _ => herr _ v''
  have hv₂ : Later v₁ v₂ := by
    refine ⟨hsrv ▸ .refl _, hsrv ▸ UInt64.le_refl _, ?_⟩
    rw [hlog]
    exact List.suffix_cons _ _
  have hread : readEvent who encoded v₁.srv ∈ v₂.log := hlog ▸ List.mem_cons_self
  have hclock : v₁.srv.now ≤ v₂.srv.now := hv₂.clock
  simp only [orUnavailable, Prog.ofExcept_ok, Prog.ret_bind]
  cases hlast : v₁.srv.bucket.last encoded with
  | none =>
    have hnow := hok v₁ v₂.srv.now v₂ hv hv₂ hread hclock (UInt64.le_refl _)
    rw [hlast] at hnow
    exact hnow
  | some m =>
    rw [Option.map_some, slotOf_some]
    by_cases hop : (Record.ofMessage m).operation = .put
    · rw [if_neg (not_not.2 hop), bind_assoc]
      refine watch_isExpired hR fun now v₃ hv₃ hnow hnow' => ?_
      have hnext := hok v₁ now v₃ hv (hv₂.trans hv₃) (hv₃.log.subset hread)
        (UInt64.le_trans hclock hnow) hnow'
      rw [hlast, Option.map_some, ofRecord_some] at hnext
      cases hexpired : isExpiredAt now (decodeValue (Record.ofMessage m).payload).2 with
      | true =>
        rw [if_pos (.inr hexpired)] at hnext
        exact hnext
      | false =>
        rw [if_neg (by simp [hop, hexpired])] at hnext
        exact hnext
    · have hnext := hok v₁ v₂.srv.now v₂ hv hv₂ hread hclock (UInt64.le_refl _)
      rw [hlast, Option.map_some, ofRecord_some, if_pos (.inl hop)] at hnext
      rw [if_pos hop]
      exact hnext

/-- How a stream is opened: there is nothing for it, or it starts. -/
theorem watch_recordConsumer (hR : Watches R sys) {description : String} {filter : Bytes}
    {start : Nat} {f : Bool → Kv α}
    (hnone : ∀ v', Later v v' → v'.srv.bucket.pending (subjectMatches filter) start = 0 →
      R.Safe sys op who Q (f false) js v')
    (hopen : ∀ v', Later v v' → v'.loc = some ⟨filter, start, []⟩ → R.Safe sys op who Q (f true) js v')
    (hfail : ∀ e v', Q js (.error e) v') :
    R.Safe sys op who Q (recordConsumer description filter start >>= f) js v := by
  have hend : ∀ {p : Kv α} {v' : KvView}, (∃ e, p = .fail e) → R.Safe sys op who Q p js v' := by
    rintro p v' ⟨e, rfl⟩
    exact fun v'' _ => hfail e v''
  obtain ⟨k, hk, herr, hzero, hsome⟩ := recordConsumer_cases description filter start f
  rw [hk]
  refine watch_req hR (r := .createConsumer filter start) fun v₁ mode x v₂ hv hx _ hlater => ?_
  have hv₂ := (hR.later _ _ hv).trans hlater
  obtain ⟨y, hy, hxy⟩ := Option.map_eq_some_iff.1 hx
  obtain ⟨hyx, hrest⟩ := Prod.mk.inj hxy
  have hsrv := (Prod.mk.inj hrest).1
  subst hyx
  unfold readOnly at hy
  split at hy
  · cases Option.some.inj hy
    by_cases hpending : v₁.srv.bucket.pending (subjectMatches filter) start = 0
    · rw [hpending, hzero]
      exact hnone v₂ hv₂ (hsrv ▸ hpending)
    · obtain ⟨k', hk', htrue, herr'⟩ := hsome _ hpending
      rw [hk']
      refine watch_req hR (r := .messages filter start) fun v₃ mode y v₄ hv₃ hy _ hlater₃ => ?_
      cases mode with
      | ok =>
        obtain ⟨hyok, hrest⟩ := Prod.mk.inj (Option.some.inj hy)
        subst hyok
        rw [htrue]
        exact hopen v₄ ((hv₂.trans (hR.later _ _ hv₃)).trans hlater₃) (Prod.mk.inj hrest).2.symm
      | fail reason =>
        obtain ⟨hyerr, -⟩ := Prod.mk.inj (Option.some.inj hy)
        subst hyerr
        exact hend (herr' reason)
      | _ => exact absurd hy (by simp [serve])
  · cases Option.some.inj hy
    exact hend (herr _)
  · cases Option.some.inj hy
    exact hend (herr _)
  · exact absurd hy (by simp)

end Rules

end ClusterNats
