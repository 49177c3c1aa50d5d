import ClusterNats.Conc.Rely
import Mathlib.Data.List.Induction
import Mathlib.Logic.Relation

/-!
# Histories

The log of a run tells the run: every event was served in the state it records,
and between two events only the environment moved.  A statement about what
happened between two requests is a statement about this chain.

* `EnvReach` — the environment alone leads from one state to another.
* `History` — the chain of a log, from a first state to a last one.
* `run_since`, `run_history` — every run leaves a history.
* `run_started` — every call was started by the run.
* `run_exec` — a program that runs alone is a run.
* `History.split` — what a history says about one of its events.
* `History.induction` — what holds at first, and is kept by the environment and
  by every event, holds at last.
* `PoolSafe.guarded` — in a checked run every event was within `guar`.
-/

namespace Conc

variable {S : Sig} {σ L Mode Env Op A : Type}

/-- The environment alone leads from `s` to `s'`. -/
def EnvReach (sys : System S σ L Mode Env Op A) : σ → σ → Prop :=
  Relation.ReflTransGen fun s s' => ∃ v, sys.env v s = some s'

/-- The log leads from `s₀` to `s`, the latest event first.  `ok` holds of every
backend mode. -/
def History (sys : System S σ L Mode Env Op A) (ok : Mode → Prop) (s₀ : σ) :
    List (Event S σ) → σ → Prop
  | [], s => EnvReach sys s₀ s
  | e :: log, s => History sys ok s₀ log e.pre ∧
      ∃ m l s' l', ok m ∧ sys.serve m e.pre l e.req = some (e.resp, s', l') ∧ EnvReach sys s' s

namespace History

variable {sys : System S σ L Mode Env Op A} {ok : Mode → Prop} {s₀ s s' : σ}
  {log : List (Event S σ)}

theorem trans (h : History sys ok s₀ log s) (hs : EnvReach sys s s') :
    History sys ok s₀ log s' := by
  cases log with
  | nil => exact Relation.ReflTransGen.trans h hs
  | cons e log =>
    obtain ⟨hlog, m, l, s₁, l', hm, hserve, hreach⟩ := h
    exact ⟨hlog, m, l, s₁, l', hm, hserve, hreach.trans hs⟩

/-- One history after another. -/
theorem append {new : List (Event S σ)} (h : History sys ok s₀ log s)
    (hnew : History sys ok s new s') : History sys ok s₀ (new ++ log) s' := by
  induction new generalizing s' with
  | nil => exact h.trans hnew
  | cons e new ih => exact ⟨ih hnew.1, hnew.2⟩

/-- What a history says about one of its events. -/
theorem split {pre post : List (Event S σ)} {e : Event S σ}
    (h : History sys ok s₀ (post ++ e :: pre) s) :
    History sys ok s₀ pre e.pre ∧
      ∃ m l s' l', ok m ∧ sys.serve m e.pre l e.req = some (e.resp, s', l') ∧
        History sys ok s' post s := by
  induction post generalizing s with
  | nil =>
    obtain ⟨hlog, m, l, s', l', hm, hserve, hreach⟩ := h
    exact ⟨hlog, m, l, s', l', hm, hserve, hreach⟩
  | cons d post ih =>
    obtain ⟨hlog, hd⟩ := h
    obtain ⟨hpre, m, l, s', l', hm, hserve, hpost⟩ := ih hlog
    exact ⟨hpre, m, l, s', l', hm, hserve, hpost, hd⟩

/-- **Induction over a history.**  `P` may speak about the log so far. -/
theorem induction {P : List (Event S σ) → σ → Prop} (h : History sys ok s₀ log s) (h₀ : P [] s₀)
    (henv : ∀ l v s s', P l s → sys.env v s = some s' → P l s')
    (hevent : ∀ l e m c s' c', (e :: l) <:+ log → P l e.pre → ok m →
      sys.serve m e.pre c e.req = some (e.resp, s', c') → P (e :: l) s') : P log s := by
  have hreach : ∀ l s s', P l s → EnvReach sys s s' → P l s' := by
    intro l s s' hs hss
    induction hss with
    | refl => exact hs
    | tail _ hstep ih =>
      obtain ⟨v, hv⟩ := hstep
      exact henv l v _ _ ih hv
  induction log generalizing s with
  | nil => exact hreach [] s₀ s h₀ h
  | cons e log ih =>
    obtain ⟨hlog, m, l, s', l', hm, hserve, hss⟩ := h
    have hpre := ih hlog fun k d m c s' c' hk => hevent k d m c s' c' (hk.trans (List.suffix_cons _ _))
    exact hreach _ s' s (hevent log e m l s' l' (List.suffix_refl _) hpre hm hserve) hss

end History

namespace World

variable {sys : System S σ L Mode Env Op A} {ok : Mode → Prop} {s₀ : σ}
  {w w' : World S σ L Op A}

/-- Is the backend mode of a choice one of those allowed? -/
def ModeOk (ok : Mode → Prop) : Choice Mode Env Op → Prop
  | .act _ m => ok m
  | _ => True

/-- One step adds a history of its own. -/
theorem step_since {c : Choice Mode Env Op} (hc : ModeOk ok c) (hs : step sys w c = some w') :
    ∃ new, w'.log = new ++ w.log ∧ History sys ok w.srv new w'.srv := by
  have hstay : EnvReach sys w.srv w.srv := .refl
  cases c with
  | start op =>
    obtain ⟨p, -, rfl⟩ := step_start hs
    exact ⟨[], rfl, hstay⟩
  | env v =>
    obtain ⟨s, hv, rfl⟩ := step_env hs
    exact ⟨[], rfl, .single ⟨v, hv⟩⟩
  | deliver t =>
    obtain ⟨th, l, -, -, rfl⟩ := step_deliver hs
    exact ⟨[], rfl, hstay⟩
  | act who m =>
    cases who with
    | main t =>
      obtain ⟨th, -, hcase⟩ := step_main hs
      rcases hcase with ⟨r, k, x, s, l, -, hx, rfl⟩ | ⟨cap, j, k, -, rfl⟩ | ⟨k, rs, -, -, rfl⟩ |
        ⟨k, rs, -, -, rfl⟩
      · exact ⟨[_], rfl, hstay, m, th.loc, s, l, hc, hx, .refl⟩
      · exact ⟨[], rfl, hstay⟩
      · exact ⟨[], rfl, hstay⟩
      · exact ⟨[], rfl, hstay⟩
    | job t i =>
      obtain ⟨th, b, r, k, x, s, l, -, -, -, hx, rfl⟩ := step_job hs
      exact ⟨[_], rfl, hstay, m, b.loc, s, l, hc, hx, .refl⟩

/-- **A run adds a history of its own.** -/
theorem run_since {cs : List (Choice Mode Env Op)} (hcs : ∀ c ∈ cs, ModeOk ok c)
    (hrun : run sys w cs = some w') :
    ∃ new, w'.log = new ++ w.log ∧ History sys ok w.srv new w'.srv := by
  refine run_induction (P := fun w₁ => ∃ new, w₁.log = new ++ w.log ∧ History sys ok w.srv new w₁.srv)
    ⟨[], rfl, Relation.ReflTransGen.refl⟩ hrun fun w₁ c w₂ hc h₁ hs => ?_
  obtain ⟨new, hlog, h⟩ := h₁
  obtain ⟨new', hlog', h'⟩ := step_since (hcs c hc) hs
  exact ⟨new' ++ new, by rw [hlog', hlog, List.append_assoc], h.append h'⟩

/-- **Every run leaves a history.** -/
theorem run_history {cs : List (Choice Mode Env Op)} (h : History sys ok s₀ w.log w.srv)
    (hcs : ∀ c ∈ cs, ModeOk ok c) (hrun : run sys w cs = some w') :
    History sys ok s₀ w'.log w'.srv := by
  obtain ⟨new, hlog, hnew⟩ := run_since hcs hrun
  rw [hlog]
  exact h.append hnew

/-- What a run does from the start. -/
theorem start_history {cs : List (Choice Mode Env Op)} (hcs : ∀ c ∈ cs, ModeOk ok c)
    (hrun : run sys ⟨s₀, [], []⟩ cs = some w) : History sys ok s₀ w.log w.srv :=
  run_history (by exact Relation.ReflTransGen.refl) hcs hrun

/-- The calls of a world keep their place, and what they are. -/
theorem step_op {c : Choice Mode Env Op} (hs : step sys w c = some w') {t : Nat}
    {th : Thread S L Op A} (hth : w.threads[t]? = some th) :
    ∃ th', w'.threads[t]? = some th' ∧ th'.op = th.op := by
  have ht : t < w.threads.length := (List.getElem?_eq_some_iff.1 hth).1
  have hset : ∀ u th', (∀ thu, w.threads[u]? = some thu → th'.op = thu.op) →
      ∃ th'', (w.threads.set u th')[t]? = some th'' ∧ th''.op = th.op := by
    intro u th' hu
    rcases eq_or_ne u t with rfl | hne
    · exact ⟨th', List.getElem?_set_self ht, hu th hth⟩
    · exact ⟨th, by rw [List.getElem?_set_ne hne, hth], rfl⟩
  cases c with
  | start op =>
    obtain ⟨p, -, rfl⟩ := step_start hs
    exact ⟨th, by rw [List.getElem?_append_left ht, hth], rfl⟩
  | env v =>
    obtain ⟨s, -, rfl⟩ := step_env hs
    exact ⟨th, hth, rfl⟩
  | deliver u =>
    obtain ⟨thu, l, hu, -, rfl⟩ := step_deliver hs
    exact hset u _ fun thu' h => by rw [hu] at h; rw [← Option.some.inj h]
  | act who m =>
    cases who with
    | main u =>
      obtain ⟨thu, hu, hcase⟩ := step_main hs
      have hop : ∀ thu', w.threads[u]? = some thu' → thu.op = thu'.op :=
        fun thu' h => by rw [hu] at h; rw [← Option.some.inj h]
      rcases hcase with ⟨r, k, x, s, l, -, -, rfl⟩ | ⟨cap, j, k, -, rfl⟩ | ⟨k, rs, -, -, rfl⟩ |
        ⟨k, rs, -, -, rfl⟩
      all_goals exact hset u _ hop
    | job u i =>
      obtain ⟨thu, b, r, k, x, s, l, hu, -, -, -, rfl⟩ := step_job hs
      exact hset u _ fun thu' h => by rw [hu] at h; rw [← Option.some.inj h]

/-- A call of a world was there before the step, or the step started it. -/
theorem step_op_inv {c : Choice Mode Env Op} (hs : step sys w c = some w') {t : Nat}
    {th' : Thread S L Op A} (hth' : w'.threads[t]? = some th') :
    (∃ th, w.threads[t]? = some th ∧ th'.op = th.op) ∨
      (c = .start th'.op ∧ t = w.threads.length) := by
  rcases Nat.lt_or_ge t w.threads.length with ht | ht
  · obtain ⟨th'', hth'', hop⟩ := step_op hs (List.getElem?_eq_getElem ht)
    rw [hth'] at hth''
    exact .inl ⟨_, List.getElem?_eq_getElem ht, by rw [Option.some.inj hth'', hop]⟩
  · have hlt : t < w'.threads.length := (List.getElem?_eq_some_iff.1 hth').1
    cases c with
    | start op =>
      obtain ⟨p, -, rfl⟩ := step_start hs
      rw [List.getElem?_append_right ht, List.getElem?_singleton] at hth'
      split at hth'
      · rename_i h0
        cases Option.some.inj hth'
        exact .inr ⟨rfl, by omega⟩
      · exact absurd hth' (by simp)
    | env v =>
      obtain ⟨s, -, rfl⟩ := step_env hs
      exact absurd hlt (Nat.not_lt.2 ht)
    | deliver u =>
      obtain ⟨thu, l, -, -, rfl⟩ := step_deliver hs
      exact absurd (by simpa using hlt) (Nat.not_lt.2 ht)
    | act who m =>
      cases who with
      | main u =>
        obtain ⟨thu, -, hcase⟩ := step_main hs
        rcases hcase with ⟨r, k, x, s, l, -, -, rfl⟩ | ⟨cap, j, k, -, rfl⟩ | ⟨k, rs, -, -, rfl⟩ |
          ⟨k, rs, -, -, rfl⟩
        all_goals exact absurd (by simpa using hlt) (Nat.not_lt.2 ht)
      | job u i =>
        obtain ⟨thu, b, r, k, x, s, l, -, -, -, -, rfl⟩ := step_job hs
        exact absurd (by simpa using hlt) (Nat.not_lt.2 ht)

/-- The calls of a run are those that its choices start. -/
theorem run_ops {P : Op → Prop} {cs : List (Choice Mode Env Op)}
    (hcs : ∀ op, .start op ∈ cs → P op) (hrun : run sys ⟨s₀, [], []⟩ cs = some w) {t : Nat}
    {th : Thread S L Op A} (hth : w.threads[t]? = some th) : P th.op := by
  have hall : ∀ (t : Nat) (th : Thread S L Op A), w.threads[t]? = some th → P th.op := by
    refine run_induction
      (P := fun w : World S σ L Op A => ∀ (t : Nat) (th : Thread S L Op A),
        w.threads[t]? = some th → P th.op) (by simp) hrun fun w₁ c w₂ hc h₁ hs t th hth => ?_
    rcases step_op_inv hs hth with ⟨th₁, hth₁, hop⟩ | ⟨rfl, -⟩
    · exact hop ▸ h₁ t th₁ hth₁
    · exact hcs _ hc
  exact hall t th hth

/-- **A call of a run was started by it**, after a first part of the run. -/
theorem run_started {cs : List (Choice Mode Env Op)} (hrun : run sys ⟨s₀, [], []⟩ cs = some w)
    {t : Nat} {th : Thread S L Op A} (hth : w.threads[t]? = some th) :
    ∃ ca cb w₁ p, cs = ca ++ .start th.op :: cb ∧ run sys ⟨s₀, [], []⟩ ca = some w₁ ∧
      w₁.threads.length = t ∧ sys.call w₁.threads th.op = some p := by
  induction cs using List.reverseRecOn generalizing w th with
  | nil =>
    cases Option.some.inj hrun
    exact absurd hth (by simp)
  | append_singleton cs c ih =>
    rw [run_concat] at hrun
    obtain ⟨w', hw', hs⟩ := Option.bind_eq_some_iff.1 hrun
    rcases step_op_inv hs hth with ⟨th₀, hth₀, hop⟩ | ⟨rfl, ht⟩
    · obtain ⟨ca, cb, w₁, p, rfl, h₁, hlen, hp⟩ := ih hw' hth₀
      rw [hop]
      exact ⟨ca, cb ++ [c], w₁, p, by simp, h₁, hlen, hp⟩
    · obtain ⟨p, hp, -⟩ := step_start hs
      exact ⟨cs, [], w', p, rfl, hw', ht.symm, hp⟩

/-- One request after another of a program, as the server answers them in mode
`m`. -/
def serveIn (sys : System S σ L Mode Env Op A) (m : Mode) (sl : σ × L) (r : S.Req) :
    Option (S.Resp r × σ × L) := sys.serve m sl.1 sl.2 r

/-- **A program that runs alone is a run** in which only its call takes steps. -/
theorem run_exec {m : Mode} {p : Prog S A} {s s' : σ} {l l' : L} {x : Except S.Err A}
    (hexec : p.exec (serveIn sys m) (s, l) = some (x, s', l')) (hsrv : w.srv = s) {t : Nat}
    {th : Thread S L Op A} (hth : w.threads[t]? = some th) (hmain : th.main = p) (hloc : th.loc = l) :
    ∃ n w' th', run sys w (List.replicate n (.act (.main t) m)) = some w' ∧ w'.srv = s' ∧
      w'.threads[t]? = some th' ∧ th'.op = th.op ∧ th'.main.result? = some x := by
  induction p generalizing s l w th with
  | ret a =>
    cases hexec
    exact ⟨0, w, th, rfl, hsrv, hth, rfl, by rw [hmain]; rfl⟩
  | fail e =>
    cases hexec
    exact ⟨0, w, th, rfl, hsrv, hth, rfl, by rw [hmain]; rfl⟩
  | req r k ih =>
    obtain ⟨⟨y, s₁, l₁⟩, hserve, hrest⟩ := Option.bind_eq_some_iff.1 hexec
    have ht : t < w.threads.length := (List.getElem?_eq_some_iff.1 hth).1
    have hstep : step sys w (.act (.main t) m) = some ⟨s₁,
        w.threads.set t { th with main := k y, loc := l₁ }, ⟨.main t, r, y, w.srv⟩ :: w.log⟩ := by
      have hserve' : sys.serve m w.srv th.loc r = some (y, s₁, l₁) := by
        rw [hsrv, hloc]
        exact hserve
      simp only [step, hth, Option.bind_some, stepMain, hmain, hserve', Option.map_some]
    have hset : (w.threads.set t { th with main := k y, loc := l₁ })[t]? =
        some { th with main := k y, loc := l₁ } := List.getElem?_set_self ht
    obtain ⟨n, w', th', hrun, hsrv', hth', hop, hresult⟩ :=
      ih y (w := ⟨s₁, _, ⟨.main t, r, y, w.srv⟩ :: w.log⟩) hrest rfl hset rfl rfl
    refine ⟨n + 1, w', th', ?_, hsrv', hth', hop, hresult⟩
    rw [List.replicate_succ, run_cons, hstep]
    exact hrun
  | _ => cases hexec

end World

namespace Rules

variable {R : Rules S σ L Mode Op} {sys : System S σ L Mode Env Op A}
  {Q : Nat → Op → Except S.Err A → View S σ L → Prop} {w w' : World S σ L Op A}

variable (R) in
/-- Every event of the log was within `guar` for the call that made it. -/
def Guarded (w : World S σ L Op A) : Prop :=
  ∀ e log, (e :: log) <:+ w.log →
    ∃ th, w.threads[e.who.thread]? = some th ∧ R.guar th.op e.who e.pre log e.req

variable (R) in
/-- The event was within `guar` for the call that made it. -/
def OwedBy (w : World S σ L Op A) (e : Event S σ) : Prop :=
  ∃ th log, w.threads[e.who.thread]? = some th ∧ R.guar th.op e.who e.pre log e.req

theorem Guarded.owed (h : R.Guarded w) {e : Event S σ} (he : e ∈ w.log) : R.OwedBy w e := by
  obtain ⟨post, pre, hsplit⟩ := List.append_of_mem he
  obtain ⟨th, hth, hguar⟩ := h e pre ⟨post, hsplit.symm⟩
  exact ⟨th, pre, hth, hguar⟩

/-- One step of a checked world keeps the log guarded. -/
theorem PoolSafe.step_guarded (hR : R.Sound sys) (h : R.PoolSafe sys Q w) (hg : R.Guarded w)
    {c : Choice Mode Env Op} (hs : World.step sys w c = some w') : R.Guarded w' := by
  have hold : ∀ e log, (e :: log) <:+ w.log →
      ∃ th, w'.threads[e.who.thread]? = some th ∧ R.guar th.op e.who e.pre log e.req := by
    intro e log hlog
    obtain ⟨th, hth, hguar⟩ := hg e log hlog
    obtain ⟨th', hth', hop⟩ := World.step_op hs hth
    exact ⟨th', hth', hop ▸ hguar⟩
  cases c with
  | start op =>
    obtain ⟨p, -, rfl⟩ := World.step_start hs
    exact hold
  | env v =>
    obtain ⟨s, -, rfl⟩ := World.step_env hs
    exact hold
  | deliver t =>
    obtain ⟨th, l, -, -, rfl⟩ := World.step_deliver hs
    exact hold
  | act who m =>
    cases who with
    | main t =>
      obtain ⟨th, hth, hcase⟩ := World.step_main hs
      have hthread := World.step_op hs hth
      rcases hcase with ⟨r, k, x, s, l, hr, hx, rfl⟩ | ⟨cap, j, k, -, rfl⟩ | ⟨k, rs, -, -, rfl⟩ |
        ⟨k, rs, -, -, rfl⟩
      · intro e log hlog
        rcases List.suffix_cons_iff.1 hlog with heq | hsuf
        · cases heq
          obtain ⟨th', hth', hop⟩ := hthread
          exact ⟨th', hth', hop ▸ h.guar_main hR hth hr⟩
        · exact hold e log hsuf
      all_goals exact hold
    | job t i =>
      have hthread : ∀ th, w.threads[t]? = some th → _ := fun th => World.step_op hs
      obtain ⟨th, b, r, k, x, s, l, hth, hb, hr, hx, rfl⟩ := World.step_job hs
      intro e log hlog
      rcases List.suffix_cons_iff.1 hlog with heq | hsuf
      · cases heq
        obtain ⟨th', hth', hop⟩ := hthread th hth
        exact ⟨th', hth', hop ▸ h.guar_job hR hth hb hr⟩
      · exact hold e log hsuf

/-- **In a checked run every event was within `guar`.** -/
theorem PoolSafe.run_guarded (hR : R.Sound sys) (h : R.PoolSafe sys Q w) (hg : R.Guarded w)
    {cs : List (Choice Mode Env Op)} (hrun : World.run sys w cs = some w')
    (hcs : ∀ w₁ c, c ∈ cs → R.PoolSafe sys Q w₁ → R.Within w w₁ → R.ChoiceOk sys Q w₁ c) :
    R.Guarded w' := by
  have hall : (R.PoolSafe sys Q w' ∧ R.Within w w') ∧ R.Guarded w' := by
    refine World.run_induction (P := fun w₁ => (R.PoolSafe sys Q w₁ ∧ R.Within w w₁) ∧ R.Guarded w₁)
      ⟨⟨h, fun l => hR.refl _⟩, hg⟩ hrun fun w₁ c w₂ hc h₁ hs => ?_
    obtain ⟨⟨hsafe, hwithin⟩, hguarded⟩ := h₁
    obtain ⟨hsafe', hw⟩ := hsafe.step hR (hcs w₁ c hc hsafe hwithin) hs
    exact ⟨⟨hsafe', fun l => hR.trans (hwithin l) (hw l)⟩, hsafe.step_guarded hR hguarded hs⟩
  exact hall.2

end Rules
end Conc
