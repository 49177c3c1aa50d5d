import ClusterNats.Conc.Own

/-!
# Calls in some order, one at a time

A run of calls is *linearizable* when its calls could have run one after the
other, with the same results, in an order that respects which call returned
before which other one started.  The usual way to find such an order is to name
one request of each call as the moment at which the call takes effect.

* `OneAtATime` — calls that run one after the other.
* `World.Precedes` — a call returned before another one started.
* `World.Linearizes` — an order of the calls explains a run.
* `points` — the calls in the order of the moments at which they take effect.
* `linearizes_points` — what is to be shown of those moments.
-/

namespace Conc

variable {S : Sig} {σ L Mode Env Op A : Type}

/-- The calls run one at a time, each ending with the result beside it. -/
inductive OneAtATime (alone : Op → σ → Except S.Err A → σ → Prop) :
    σ → List (Op × Except S.Err A) → σ → Prop
  | nil (s : σ) : OneAtATime alone s [] s
  | cons {s s₁ s₂ : σ} {op : Op} {x : Except S.Err A} {calls : List (Op × Except S.Err A)}
      (call : alone op s x s₁) (rest : OneAtATime alone s₁ calls s₂) :
      OneAtATime alone s ((op, x) :: calls) s₂

/-- One more call at the end. -/
theorem OneAtATime.concat {alone : Op → σ → Except S.Err A → σ → Prop} {s s₁ s₂ : σ} {op : Op}
    {x : Except S.Err A} {calls : List (Op × Except S.Err A)} (h : OneAtATime alone s calls s₁)
    (call : alone op s₁ x s₂) : OneAtATime alone s (calls ++ [(op, x)]) s₂ := by
  induction h with
  | nil s => exact .cons call (.nil _)
  | cons first rest ih => exact .cons first (ih call)

namespace World

variable (sys : System S σ L Mode Env Op A)

/-- In the run of `cs`, call `t` returned before call `t'` started. -/
def Precedes (w₀ : World S σ L Op A) (cs : List (Choice Mode Env Op)) (t t' : Nat) : Prop :=
  ∃ cs₁ w₁ th, cs₁ <+: cs ∧ run sys w₀ cs₁ = some w₁ ∧ w₁.threads[t]? = some th ∧
    th.main.result?.isSome ∧ w₁.threads.length ≤ t'

/-- The run of `cs` to `w` is explained by running the calls of `order` one at a
time.  They are the calls of the kind `mine` that returned a value, and some of
those that did not. -/
structure Linearizes (alone : Op → σ → Except S.Err A → σ → Prop) (mine : Op → Prop) (s₀ : σ)
    (cs : List (Choice Mode Env Op)) (w : World S σ L Op A) (order : List Nat) : Prop where
  unique : order.Nodup
  started : ∀ t ∈ order, ∃ th, w.threads[t]? = some th ∧ mine th.op
  returned : ∀ t th a, w.threads[t]? = some th → mine th.op → th.main.result? = some (.ok a) →
    t ∈ order
  /-- Run alone in this order, the calls end with the results they ended with. -/
  results : ∃ calls s, OneAtATime alone s₀ calls s ∧
    List.Forall₂ (fun t c => ∃ th, w.threads[t]? = some th ∧ c.1 = th.op ∧
      ∀ x, th.main.result? = some x → c.2 = x) order calls
  realTime : ∀ t t', t ∈ order → t' ∈ order → Precedes sys ⟨s₀, [], []⟩ cs t t' →
    order.idxOf t < order.idxOf t'

end World

/-! ## The moments at which calls take effect -/

section Points

variable (ops : Nat → Option Op) (isPoint : Op → Event S σ → Bool)

/-- Does a call take effect at the event? -/
def takesEffect (e : Event S σ) : Bool := (ops e.who.thread).any fun op => isPoint op e

/-- The calls in the order in which they take effect. -/
def points : List (Event S σ) → List Nat
  | [] => []
  | e :: log =>
    if takesEffect ops isPoint e then points log ++ [e.who.thread] else points log

variable {ops isPoint}

theorem takesEffect_iff {e : Event S σ} : takesEffect ops isPoint e = true ↔
    ∃ op, ops e.who.thread = some op ∧ isPoint op e = true := by
  rw [takesEffect]
  cases ops e.who.thread with
  | none => simp
  | some op => simp

theorem points_cons_of_point {e : Event S σ} {log : List (Event S σ)}
    (h : takesEffect ops isPoint e = true) :
    points ops isPoint (e :: log) = points ops isPoint log ++ [e.who.thread] := if_pos h

theorem points_cons_of_not {e : Event S σ} {log : List (Event S σ)}
    (h : takesEffect ops isPoint e = false) :
    points ops isPoint (e :: log) = points ops isPoint log := by
  simp [points, h]

theorem mem_points {t : Nat} {log : List (Event S σ)} : t ∈ points ops isPoint log ↔
    ∃ e ∈ log, e.who.thread = t ∧ takesEffect ops isPoint e = true := by
  induction log with
  | nil => simp [points]
  | cons e log ih =>
    cases he : takesEffect ops isPoint e with
    | true =>
      rw [points_cons_of_point he, List.mem_append, ih, List.mem_singleton]
      constructor
      · rintro (⟨d, hd, hwho, hpoint⟩ | rfl)
        · exact ⟨d, List.mem_cons_of_mem _ hd, hwho, hpoint⟩
        · exact ⟨e, List.mem_cons_self, rfl, he⟩
      · rintro ⟨d, hd, hwho, hpoint⟩
        rcases List.mem_cons.1 hd with rfl | hd
        · exact .inr hwho.symm
        · exact .inl ⟨d, hd, hwho, hpoint⟩
    | false =>
      rw [points_cons_of_not he, ih]
      constructor
      · rintro ⟨d, hd, hwho, hpoint⟩
        exact ⟨d, List.mem_cons_of_mem _ hd, hwho, hpoint⟩
      · rintro ⟨d, hd, hwho, hpoint⟩
        rcases List.mem_cons.1 hd with rfl | hd
        · rw [he] at hpoint
          exact absurd hpoint (by simp)
        · exact ⟨d, hd, hwho, hpoint⟩

variable (ops isPoint) in
/-- What took effect first stays in front. -/
theorem points_prefix {l log : List (Event S σ)} (h : l <:+ log) :
    points ops isPoint l <+: points ops isPoint log := by
  obtain ⟨post, rfl⟩ := h
  induction post with
  | nil => exact List.prefix_rfl
  | cons e post ih =>
    rw [List.cons_append]
    cases he : takesEffect ops isPoint e with
    | true =>
      rw [points_cons_of_point he]
      exact ih.trans (List.prefix_append _ _)
    | false =>
      rw [points_cons_of_not he]
      exact ih

/-- A call that takes effect once is there once. -/
theorem nodup_points {log : List (Event S σ)}
    (h : ∀ e l, (e :: l) <:+ log → takesEffect ops isPoint e = true →
      ∀ d ∈ l, d.who.thread = e.who.thread → takesEffect ops isPoint d = false) :
    (points ops isPoint log).Nodup := by
  induction log with
  | nil => exact List.nodup_nil
  | cons e log ih =>
    have hlog := ih fun d l hl => h d l (hl.trans (List.suffix_cons _ _))
    cases he : takesEffect ops isPoint e with
    | true =>
      rw [points_cons_of_point he, List.nodup_append]
      refine ⟨hlog, List.nodup_cons.2 ⟨by simp, .nil⟩, fun t ht t' ht' heq => ?_⟩
      obtain ⟨d, hd, hwho, hpoint⟩ := mem_points.1 ht
      rw [List.mem_singleton.1 ht'] at heq
      rw [h e log (List.suffix_refl _) he d hd (hwho.trans heq)] at hpoint
      exact absurd hpoint (by simp)
    | false =>
      rw [points_cons_of_not he]
      exact hlog

end Points

namespace World

variable {sys : System S σ L Mode Env Op A} {w w' : World S σ L Op A}

/-- What each thread of a world runs. -/
def ops (w : World S σ L Op A) (t : Nat) : Option Op := w.threads[t]?.map Thread.op

/-- A step keeps what was logged and what each thread runs. -/
theorem step_grows {c : Choice Mode Env Op} (hs : step sys w c = some w') :
    w.log <:+ w'.log ∧ ∀ t op, w.ops t = some op → w'.ops t = some op := by
  refine ⟨?_, fun t op hop => ?_⟩
  · cases c with
    | start op =>
      obtain ⟨p, -, rfl⟩ := step_start hs
      exact List.suffix_refl _
    | env v =>
      obtain ⟨s, -, rfl⟩ := step_env hs
      exact List.suffix_refl _
    | deliver t =>
      obtain ⟨th, l, -, -, rfl⟩ := step_deliver hs
      exact List.suffix_refl _
    | act who m =>
      cases who with
      | main t =>
        obtain ⟨th, -, hcase⟩ := step_main hs
        rcases hcase with ⟨r, k, x, s, l, -, -, rfl⟩ | ⟨cap, j, k, -, rfl⟩ | ⟨k, rs, -, -, rfl⟩ |
          ⟨k, rs, -, -, rfl⟩
        · exact List.suffix_cons _ _
        all_goals exact List.suffix_refl _
      | job t i =>
        obtain ⟨th, b, r, k, x, s, l, -, -, -, -, rfl⟩ := step_job hs
        exact List.suffix_cons _ _
  · obtain ⟨th, hth, rfl⟩ := Option.map_eq_some_iff.1 hop
    obtain ⟨th', hth', heq⟩ := step_op hs hth
    rw [ops, hth', Option.map_some, heq]

theorem run_grows {cs : List (Choice Mode Env Op)} (hrun : run sys w cs = some w') :
    w.log <:+ w'.log ∧ ∀ t op, w.ops t = some op → w'.ops t = some op := by
  refine run_induction (P := fun w₁ => w.log <:+ w₁.log ∧
    ∀ t op, w.ops t = some op → w₁.ops t = some op)
    ⟨List.suffix_refl _, fun _ _ h => h⟩ hrun fun w₁ c w₂ _ h₁ hs => ?_
  obtain ⟨hlog, hops⟩ := step_grows hs
  exact ⟨h₁.1.trans hlog, fun t op h => hops t op (h₁.2 t op h)⟩

/-- A call that returned makes no further request. -/
theorem step_finished {c : Choice Mode Env Op} (hs : step sys w c = some w') {t : Nat}
    {th : Thread S L Op A} {x : Except S.Err A} (hth : w.threads[t]? = some th)
    (hx : th.main.result? = some x) :
    (∃ th', w'.threads[t]? = some th' ∧ th'.main.result? = some x) ∧
      ownEvents (.main t) w'.log = ownEvents (.main t) w.log := by
  cases c with
  | start op =>
    obtain ⟨p, -, rfl⟩ := step_start hs
    refine ⟨⟨th, ?_, hx⟩, rfl⟩
    rw [List.getElem?_append_left (List.getElem?_eq_some_iff.1 hth).1]
    exact hth
  | env v =>
    obtain ⟨s, -, rfl⟩ := step_env hs
    exact ⟨⟨th, hth, hx⟩, rfl⟩
  | deliver u =>
    obtain ⟨thu, l, hthu, -, rfl⟩ := step_deliver hs
    refine ⟨?_, rfl⟩
    rw [List.getElem?_set]
    split
    · subst u
      obtain rfl := Option.some.inj (hth.symm.trans hthu)
      rw [if_pos (List.getElem?_eq_some_iff.1 hth).1]
      exact ⟨_, rfl, hx⟩
    · exact ⟨th, hth, hx⟩
  | act who m =>
    cases who with
    | main u =>
      obtain ⟨thu, hthu, hcase⟩ := step_main hs
      have hne : u ≠ t := by
        rintro rfl
        obtain rfl := Option.some.inj (hth.symm.trans hthu)
        rcases hcase with ⟨r, k, _, s, l, hr, -, -⟩ | ⟨cap, j, k, hr, -⟩ | ⟨k, rs, hr, -, -⟩ |
          ⟨k, rs, hr, -, -⟩
        all_goals
          rw [hr] at hx
          simp at hx
      rcases hcase with ⟨r, k, _, s, l, -, -, rfl⟩ | ⟨cap, j, k, -, rfl⟩ | ⟨k, rs, -, -, rfl⟩ |
        ⟨k, rs, -, -, rfl⟩
      · exact ⟨⟨th, by rw [List.getElem?_set_ne hne, hth], hx⟩,
          ownEvents_cons_ne fun h => hne (Actor.main.inj h)⟩
      all_goals exact ⟨⟨th, by rw [List.getElem?_set_ne hne, hth], hx⟩, rfl⟩
    | job u i =>
      obtain ⟨thu, b, r, k, _, s, l, hthu, -, -, -, rfl⟩ := step_job hs
      refine ⟨?_, ownEvents_cons_ne (by simp)⟩
      rw [List.getElem?_set]
      split
      · subst u
        obtain rfl := Option.some.inj (hth.symm.trans hthu)
        rw [if_pos (List.getElem?_eq_some_iff.1 hth).1]
        exact ⟨_, rfl, hx⟩
      · exact ⟨th, hth, hx⟩

theorem run_finished {cs : List (Choice Mode Env Op)} (hrun : run sys w cs = some w') {t : Nat}
    {th : Thread S L Op A} {x : Except S.Err A} (hth : w.threads[t]? = some th)
    (hx : th.main.result? = some x) :
    (∃ th', w'.threads[t]? = some th' ∧ th'.main.result? = some x) ∧
      ownEvents (.main t) w'.log = ownEvents (.main t) w.log := by
  refine run_induction (P := fun w₁ => (∃ th', w₁.threads[t]? = some th' ∧
      th'.main.result? = some x) ∧ ownEvents (.main t) w₁.log = ownEvents (.main t) w.log)
    ⟨⟨th, hth, hx⟩, rfl⟩ hrun fun w₁ c w₂ _ h₁ hs => ?_
  obtain ⟨⟨th₁, hth₁, hx₁⟩, hlog⟩ := h₁
  obtain ⟨h₂, hlog₂⟩ := step_finished hs hth₁ hx₁
  exact ⟨h₂, hlog₂.trans hlog⟩

/-- **The order in which calls take effect explains the run.**  `Sim` relates
the state of the calls run one at a time to the state of the run: it holds at
first, no move of the environment and no other event breaks it, and where a call
takes effect it can run alone, to the result it has in the run.  A call that
returned took effect, or it failed and never does. -/
theorem linearizes_points {alone : Op → σ → Except S.Err A → σ → Prop} {mine : Op → Prop}
    {isPoint : Op → Event S σ → Bool} {okMode : Mode → Prop} {s₀ : σ}
    {cs : List (Choice Mode Env Op)} (hrun : run sys ⟨s₀, [], []⟩ cs = some w)
    (hcs : ∀ c ∈ cs, ModeOk okMode c) (Sim : σ → σ → Prop) (h₀ : Sim s₀ s₀)
    (hmine : ∀ op e, isPoint op e = true → mine op)
    (hknown : ∀ cs₁ w₁, cs₁ <+: cs → run sys ⟨s₀, [], []⟩ cs₁ = some w₁ → ∀ e ∈ w₁.log,
      e.who.thread < w₁.threads.length)
    (henv : ∀ s' v s s₁, Sim s' s → sys.env v s = some s₁ → Sim s' s₁)
    (hother : ∀ e l m c s₁ c' s', (e :: l) <:+ w.log → okMode m →
      sys.serve m e.pre c e.req = some (e.resp, s₁, c') →
      takesEffect w.ops isPoint e = false → Sim s' e.pre → Sim s' s₁)
    (hpoint : ∀ e l m c s₁ c' s' th, (e :: l) <:+ w.log → okMode m →
      sys.serve m e.pre c e.req = some (e.resp, s₁, c') →
      w.threads[e.who.thread]? = some th → isPoint th.op e = true → Sim s' e.pre →
      ∃ x s'', alone th.op s' x s'' ∧ Sim s'' s₁ ∧ ∀ y, th.main.result? = some y → x = y)
    (honce : ∀ e l, (e :: l) <:+ w.log → takesEffect w.ops isPoint e = true →
      ∀ d ∈ l, d.who.thread = e.who.thread → takesEffect w.ops isPoint d = false)
    (hreturned : ∀ cs₁ w₁, cs₁ <+: cs → run sys ⟨s₀, [], []⟩ cs₁ = some w₁ → ∀ t th,
      w₁.threads[t]? = some th → mine th.op → ∀ x, th.main.result? = some x →
      (∃ e ∈ w₁.log, e.who.thread = t ∧ isPoint th.op e = true) ∨
        (∃ err, x = .error err) ∧ ∀ e ∈ w.log, e.who.thread = t → isPoint th.op e = false) :
    Linearizes sys alone mine s₀ cs w (points w.ops isPoint w.log) := by
  have hmem : ∀ cs₁ w₁, cs₁ <+: cs → run sys ⟨s₀, [], []⟩ cs₁ = some w₁ → ∀ t th x,
      w₁.threads[t]? = some th → mine th.op → th.main.result? = some x →
      w₁.log <:+ w.log ∧ (t ∈ points w.ops isPoint w₁.log ∨
        (∃ err, x = .error err) ∧ t ∉ points w.ops isPoint w.log) := by
    intro cs₁ w₁ hpre hrun₁ t th x hth hm hres
    obtain ⟨cs₂, rfl⟩ := hpre
    rw [run_append, hrun₁] at hrun
    obtain ⟨hlog, hops⟩ := run_grows hrun
    have hop : w.ops t = some th.op := hops _ _ (by rw [ops, hth]; rfl)
    refine ⟨hlog, ?_⟩
    rcases hreturned cs₁ w₁ (List.prefix_append _ _) hrun₁ t th hth hm x hres with
      ⟨e, he, rfl, hp⟩ | ⟨herr, hnone⟩
    · exact .inl (mem_points.2 ⟨e, he, rfl, takesEffect_iff.2 ⟨_, hop, hp⟩⟩)
    · refine .inr ⟨herr, fun h => ?_⟩
      obtain ⟨e, he, rfl, hp⟩ := mem_points.1 h
      obtain ⟨op, hop', hp⟩ := takesEffect_iff.1 hp
      obtain rfl := Option.some.inj (hop.symm.trans hop')
      rw [hnone e he rfl] at hp
      exact absurd hp (by simp)
  have hhist : History sys okMode s₀ w.log w.srv :=
    start_history hcs hrun
  refine ⟨nodup_points honce, fun t ht => ?_, fun t th a hth hm hres => ?_, ?_, ?_⟩
  · obtain ⟨e, he, rfl, hp⟩ := mem_points.1 ht
    obtain ⟨op, hop, hp⟩ := takesEffect_iff.1 hp
    obtain ⟨th, hth, rfl⟩ := Option.map_eq_some_iff.1 hop
    exact ⟨th, hth, hmine _ e hp⟩
  · rcases (hmem cs w List.prefix_rfl hrun t th _ hth hm hres).2 with h | ⟨⟨err, herr⟩, -⟩
    · exact h
    · exact absurd herr (by simp)
  · -- the calls run alone, one more at every event at which one takes effect
    obtain ⟨calls, s', hcalls, hforall, -⟩ := hhist.induction
      (P := fun l s => l <:+ w.log → ∃ calls s', OneAtATime alone s₀ calls s' ∧
        List.Forall₂ (fun t c => ∃ th, w.threads[t]? = some th ∧ c.1 = th.op ∧
          ∀ x, th.main.result? = some x → c.2 = x) (points w.ops isPoint l) calls ∧ Sim s' s)
      (fun _ => ⟨[], s₀, .nil _, .nil, h₀⟩)
      (fun l v s s₁ ih hv hl => by
        obtain ⟨calls, s', hcalls, hforall, hsim⟩ := ih hl
        exact ⟨calls, s', hcalls, hforall, henv s' v s s₁ hsim hv⟩)
      (fun l e m c s₁ c' hl ih hm hserve _ => by
        obtain ⟨calls, s', hcalls, hforall, hsim⟩ := ih ((List.suffix_cons _ _).trans hl)
        cases hp : takesEffect w.ops isPoint e with
        | false =>
          rw [points_cons_of_not hp]
          exact ⟨calls, s', hcalls, hforall, hother e l m c s₁ c' s' hl hm hserve hp hsim⟩
        | true =>
          rw [points_cons_of_point hp]
          obtain ⟨op, hop, hp'⟩ := takesEffect_iff.1 hp
          obtain ⟨th, hth, rfl⟩ := Option.map_eq_some_iff.1 hop
          obtain ⟨x, s'', halone, hsim', hx⟩ :=
            hpoint e l m c s₁ c' s' th hl hm hserve hth hp' hsim
          exact ⟨calls ++ [(th.op, x)], s'', hcalls.concat halone,
            List.rel_append hforall (.cons ⟨th, hth, rfl, hx⟩ .nil), hsim'⟩)
      (List.suffix_refl _)
    exact ⟨calls, s', hcalls, hforall⟩
  · intro t t' ht ht' hprec
    obtain ⟨cs₁, w₁, th, hpre, hrun₁, hth, hres, hlen⟩ := hprec
    have hth_op : w.ops t = some th.op := by
      obtain ⟨cs₂, rfl⟩ := hpre
      rw [run_append, hrun₁] at hrun
      exact (run_grows hrun).2 t th.op (by rw [ops, hth]; rfl)
    have hm : mine th.op := by
      obtain ⟨e, -, rfl, hp⟩ := mem_points.1 ht
      rw [takesEffect, hth_op] at hp
      exact hmine _ e hp
    obtain ⟨x, hx⟩ := Option.isSome_iff_exists.1 hres
    obtain ⟨hlog, hin⟩ := hmem cs₁ w₁ hpre hrun₁ t th x hth hm hx
    have hin : t ∈ points w.ops isPoint w₁.log := hin.resolve_right fun h => h.2 ht
    have hout : t' ∉ points w.ops isPoint w₁.log := by
      intro h
      obtain ⟨e, he, hwho, -⟩ := mem_points.1 h
      have hlt := hknown cs₁ w₁ hpre hrun₁ e he
      omega
    obtain ⟨later, hlater⟩ := points_prefix w.ops isPoint hlog
    rw [← hlater, List.idxOf_append_of_mem hin, List.idxOf_append_of_notMem hout]
    have hlt := List.idxOf_lt_length_of_mem hin
    omega

end World
end Conc
