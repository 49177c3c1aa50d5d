import ClusterNats.Conc.Own

/-!
# The strands of a run

A main program and each job it started are the strands of a call: programs that
take one step at a time.  What holds of every strand as it starts, and of the
rest of a strand after each of its steps, holds of every strand of every run.

* `World.Runs` — an actor has a program left to do.
* `Runs.act`, `Runs.forward` — what one step does to a strand.
* `Carried`, `run_carried` — the induction over the steps of all strands.
-/

namespace Conc

variable {S : Sig} {σ L Mode Env Op A : Type}

namespace World

variable {sys : System S σ L Mode Env Op A} {w w' : World S σ L Op A}

/-- The actor `who`, of the call `op`, has the program left to do. -/
inductive Runs (w : World S σ L Op A) : Op → Actor → (α : Type) → Prog S α → Prop
  | main {t : Nat} {th : Thread S L Op A} (hth : w.threads[t]? = some th) :
      Runs w th.op (.main t) A th.main
  | job {t i : Nat} {th : Thread S L Op A} {b : Strand S L} (hth : w.threads[t]? = some th)
      (hb : th.jobs[i]? = some b) : Runs w th.op (.job t i) S.Done b.prog

section Steps

variable {op : Op} {who : Actor} {α : Type} {p : Prog S α} {c : Choice Mode Env Op} {m : Mode}

/-- A strand is one of a call there is. -/
theorem Runs.thread (h : w.Runs op who α p) :
    ∃ th, w.threads[who.thread]? = some th ∧ th.op = op := by
  cases h with
  | main hth => exact ⟨_, hth, rfl⟩
  | job hth hb => exact ⟨_, hth, rfl⟩

/-- A thread of a list with one thread set is that one, or as it was. -/
theorem getElem?_set_cases {ths : List (Thread S L Op A)} {t u : Nat} {th' thu : Thread S L Op A}
    (hu : (ths.set t th')[u]? = some thu) : (u = t ∧ thu = th') ∨ (u ≠ t ∧ ths[u]? = some thu) := by
  rw [List.getElem?_set] at hu
  split at hu
  · rename_i htu
    split at hu
    · exact .inl ⟨htu.symm, (Option.some.inj hu).symm⟩
    · exact absurd hu (by simp)
  · rename_i hne
    exact .inr ⟨Ne.symm hne, hu⟩

theorem getElem?_set_at {ths : List (Thread S L Op A)} {t : Nat} {th th' : Thread S L Op A}
    (hth : ths[t]? = some th) : (ths.set t th')[t]? = some th' := by
  rw [List.getElem?_set, if_pos rfl, if_pos (List.getElem?_eq_some_iff.1 hth).1]

/-- The strands of a thread that was set. -/
theorem runs_main_set {s : σ} {log : List (Event S σ)} {t : Nat} {th th' : Thread S L Op A}
    (hth : w.threads[t]? = some th) :
    Runs ⟨s, w.threads.set t th', log⟩ th'.op (.main t) A th'.main := .main (getElem?_set_at hth)

theorem runs_job_set {s : σ} {log : List (Event S σ)} {t i : Nat} {th th' : Thread S L Op A}
    {b : Strand S L} (hth : w.threads[t]? = some th) (hb : th'.jobs[i]? = some b) :
    Runs ⟨s, w.threads.set t th', log⟩ th'.op (.job t i) S.Done b.prog :=
  .job (getElem?_set_at hth) hb

/-- The strands of the other threads are as they were. -/
theorem Runs.of_set {s : σ} {log : List (Event S σ)} {t : Nat} {th' : Thread S L Op A}
    (h : w.Runs op who α p) (hne : who.thread ≠ t) :
    Runs ⟨s, w.threads.set t th', log⟩ op who α p := by
  have hset : ∀ {u : Nat} {thu : Thread S L Op A}, u ≠ t → w.threads[u]? = some thu →
      (w.threads.set t th')[u]? = some thu := by
    intro u thu hut hu
    rw [List.getElem?_set, if_neg (Ne.symm hut), hu]
  cases h with
  | main hth => exact .main (hset hne hth)
  | job hth hb => exact .job (hset hne hth) hb

/-- An actor that takes a step has a program left to do. -/
theorem runs_of_act (hs : step sys w (.act who m) = some w') : ∃ op α p, w.Runs op who α p := by
  cases who with
  | main t =>
    obtain ⟨th, hth, -⟩ := step_main hs
    exact ⟨_, _, _, .main hth⟩
  | job t i =>
    obtain ⟨th, b, -, -, -, -, -, hth, hb, -⟩ := step_job hs
    exact ⟨_, _, _, .job hth hb⟩

/-- **The step of a strand.**  Its request is served, or it changes nothing of
the server. -/
theorem Runs.act (h : w.Runs op who α p) (hs : step sys w (.act who m) = some w') :
    (∃ r k x s l l', p = .req r k ∧ sys.serve m w.srv l r = some (x, s, l') ∧ w'.srv = s ∧
      w'.log = ⟨who, r, x, w.srv⟩ :: w.log ∧ w'.Runs op who α (k x)) ∨
    (w'.srv = w.srv ∧ w'.log = w.log ∧ ∀ r k, p ≠ .req r k) := by
  cases h with
  | @main t th hth =>
    obtain ⟨th', hth', hcase⟩ := step_main hs
    cases Option.some.inj (hth.symm.trans hth')
    rcases hcase with ⟨r, k, x, s, l, hr, hx, rfl⟩ | ⟨cap, j, k, hr, rfl⟩ | ⟨k, rs, hr, -, rfl⟩ |
      ⟨k, rs, hr, -, rfl⟩
    · exact .inl ⟨r, k, x, s, _, l, hr, hx, rfl, rfl, runs_main_set hth⟩
    all_goals exact .inr ⟨rfl, rfl, fun _ _ heq => by simp [hr] at heq⟩
  | @job t i th b hth hb =>
    obtain ⟨th', b', r, k, x, s, l, hth', hb', hr, hx, rfl⟩ := step_job hs
    cases Option.some.inj (hth.symm.trans hth')
    cases Option.some.inj (hb.symm.trans hb')
    have hset : (th.jobs.set i ⟨k x, l⟩)[i]? = some ⟨k x, l⟩ := by
      rw [List.getElem?_set, if_pos rfl, if_pos (List.getElem?_eq_some_iff.1 hb).1]
    have hjob : ∀ log : List (Event S σ), Runs ⟨s, w.threads.set t { th with jobs := th.jobs.set i ⟨k x, l⟩ },
        log⟩ th.op (.job t i) S.Done (⟨k x, l⟩ : Strand S L).prog := fun _ => runs_job_set hth hset
    exact .inl ⟨r, k, x, s, _, l, hr, hx, rfl, rfl, hjob _⟩

/-- A step that no actor takes changes the server as the environment does. -/
theorem step_idle (hc : ∀ who m, c ≠ .act who m) (hs : step sys w c = some w') :
    w'.log = w.log ∧ (w'.srv = w.srv ∨ ∃ v, sys.env v w.srv = some w'.srv) := by
  cases c with
  | start op =>
    obtain ⟨p, -, rfl⟩ := step_start hs
    exact ⟨rfl, .inl rfl⟩
  | env v =>
    obtain ⟨s, hv, rfl⟩ := step_env hs
    exact ⟨rfl, .inr ⟨v, hv⟩⟩
  | deliver t =>
    obtain ⟨th, l, -, -, rfl⟩ := step_deliver hs
    exact ⟨rfl, .inl rfl⟩
  | act who m => exact absurd rfl (hc who m)

theorem exists_of_forall₂ {γ δ : Type} {R : γ → δ → Prop} {l : List γ} {l' : List δ}
    (h : List.Forall₂ R l l') {x : γ} (hx : x ∈ l) : ∃ y, R x y := by
  induction h with
  | nil => exact absurd hx (by simp)
  | cons hab _ ih =>
    rcases List.mem_cons.1 hx with rfl | hx
    · exact ⟨_, hab⟩
    · exact ih hx

/-- A job that its thread waits for no more is finished, or a job of the thread
failed. -/
theorem finished_or_failed {jobs : List (Strand S L)} {b : Strand S L} (hb : b ∈ jobs)
    (h : (∃ rs, allDone jobs = some rs) ∨ ∃ rs, tryDone jobs = some rs) :
    b.prog.result?.isSome = true ∨ ∃ b' ∈ jobs, ∃ e, b'.prog.error? = some e := by
  rcases h with ⟨rs, hrs⟩ | ⟨rs, hrs⟩
  · obtain ⟨r, hr⟩ := exists_of_forall₂ (forall₂_of_allDone hrs) hb
    exact .inl (by rw [hr]; rfl)
  · cases rs with
    | ok ds =>
      obtain ⟨d, hd⟩ := exists_of_forall₂ (forall₂_of_tryDone hrs) hb
      exact .inl (by rw [hd]; rfl)
    | error e =>
      unfold tryDone at hrs
      split at hrs
      · rename_i e' hfailed
        obtain ⟨b', hmem, he⟩ := List.exists_of_findSome?_eq_some hfailed
        exact .inr ⟨b', hmem, e', he⟩
      · obtain ⟨ds, -, hds⟩ := Option.map_eq_some_iff.1 hrs
        exact absurd hds (by simp)

/-- A job is gone, and one of the jobs of its thread had failed. -/
def Dropped (w w' : World S σ L Op A) (op : Op) (who : Actor) : Prop :=
  (∃ i q e, w.Runs op (.job who.thread i) S.Done q ∧ q.error? = some e) ∧
    ∀ op' β q, ¬ w'.Runs op' who β q

/-- **A strand stays as it is** through a step that is not its own, unless it is
a job that its thread waits for no more: then it is finished, or dropped. -/
theorem Runs.forward (h : w.Runs op who α p) (hs : step sys w c = some w') :
    (w'.Runs op who α p ∧ ownEvents who w'.log = ownEvents who w.log) ∨ (∃ m, c = .act who m) ∨
      p.result?.isSome = true ∨ Dropped w w' op who := by
  cases c with
  | start op' =>
    obtain ⟨p', -, rfl⟩ := step_start hs
    refine .inl ⟨?_, rfl⟩
    have happ : ∀ {u : Nat} {thu thn : Thread S L Op A}, w.threads[u]? = some thu →
        (w.threads ++ [thn])[u]? = some thu := by
      intro u thu thn hu
      rw [List.getElem?_append_left (List.getElem?_eq_some_iff.1 hu).1, hu]
    cases h with
    | main hth => exact .main (happ hth)
    | job hth hb => exact .job (happ hth) hb
  | env v =>
    obtain ⟨s, -, rfl⟩ := step_env hs
    refine .inl ⟨?_, rfl⟩
    cases h with
    | main hth => exact .main hth
    | job hth hb => exact .job hth hb
  | deliver t =>
    obtain ⟨th, l, hth, -, rfl⟩ := step_deliver hs
    refine .inl ⟨?_, rfl⟩
    by_cases ht : who.thread = t
    · subst ht
      cases h with
      | main hth' =>
        cases Option.some.inj (hth.symm.trans hth')
        exact runs_main_set hth
      | job hth' hb =>
        cases Option.some.inj (hth.symm.trans hth')
        exact runs_job_set hth hb
    · exact h.of_set ht
  | act who' m =>
    by_cases hwho : who' = who
    · exact .inr (.inl ⟨m, by rw [hwho]⟩)
    · cases who' with
      | main t =>
        obtain ⟨th, hth, hcase⟩ := step_main hs
        by_cases ht : who.thread = t
        · -- the strand is a job of the thread
          cases h with
          | main hth' => exact absurd (congrArg Actor.main ht).symm hwho
          | @job u i th' b hth' hb =>
            obtain rfl : u = t := ht
            cases Option.some.inj (hth.symm.trans hth')
            rcases hcase with ⟨r, k, x, s, l, hr, hx, rfl⟩ | ⟨cap, j, k, hr, rfl⟩ |
              ⟨k, rs, hr, hrs, rfl⟩ | ⟨k, rs, hr, hrs, rfl⟩
            · exact .inl ⟨runs_job_set hth hb, ownEvents_cons_ne hwho⟩
            · refine .inl ⟨runs_job_set hth ?_, rfl⟩
              rw [List.getElem?_append_left (List.getElem?_eq_some_iff.1 hb).1, hb]
            all_goals
              refine .inr (.inr ?_)
              have hdone := finished_or_failed (List.mem_of_getElem? hb)
                (by first | exact .inl ⟨rs, hrs⟩ | exact .inr ⟨rs, hrs⟩)
              refine hdone.imp_right fun ⟨b', hmem, e, he⟩ => ?_
              obtain ⟨i', hb'⟩ := List.mem_iff_getElem?.1 hmem
              refine ⟨⟨i', b'.prog, e, .job hth hb', he⟩, fun op' β q hq => ?_⟩
              cases hq with
              | job hu hgone =>
                cases Option.some.inj ((getElem?_set_at hth).symm.trans hu)
                exact absurd hgone (by simp)
        · refine .inl ⟨?_, ?_⟩
          all_goals rcases hcase with ⟨r, k, x, s, l, hr, hx, rfl⟩ | ⟨cap, j, k, hr, rfl⟩ |
            ⟨k, rs, hr, hrs, rfl⟩ | ⟨k, rs, hr, hrs, rfl⟩
          all_goals first | exact h.of_set ht | exact ownEvents_cons_ne hwho | rfl
      | job t i =>
        obtain ⟨th, b, r, k, x, s, l, hth, hb, hr, hx, rfl⟩ := step_job hs
        refine .inl ⟨?_, ownEvents_cons_ne hwho⟩
        by_cases ht : who.thread = t
        · cases h with
          | @main u th' hth' =>
            obtain rfl : u = t := ht
            cases Option.some.inj (hth.symm.trans hth')
            exact runs_main_set hth
          | @job u i' th' b' hth' hb' =>
            obtain rfl : u = t := ht
            cases Option.some.inj (hth.symm.trans hth')
            have hne : i ≠ i' := fun heq => hwho (by rw [heq])
            refine runs_job_set hth ?_
            rw [List.getElem?_set, if_neg hne, hb']
        · exact h.of_set ht

end Steps

/-- No strand of a quiet world has anything left to do. -/
theorem Quiet.done {op : Op} {who : Actor} {α : Type} {p : Prog S α} (h : w.Quiet)
    (hp : w.Runs op who α p) : p.result?.isSome = true := by
  cases hp with
  | main hth => exact (h _ (List.mem_of_getElem? hth)).1
  | job hth hb =>
    rw [(h _ (List.mem_of_getElem? hth)).2] at hb
    exact absurd hb (by simp)

/-- Every step of a run meets `P` in the state it is taken in. -/
def Each (sys : System S σ L Mode Env Op A) (P : World S σ L Op A → Choice Mode Env Op → Prop) :
    World S σ L Op A → List (Choice Mode Env Op) → Prop
  | _, [] => True
  | w, c :: cs => P w c ∧ ∀ w', step sys w c = some w' → Each sys P w' cs

/-- **Induction over a run whose steps meet `P`.** -/
theorem run_each {P : World S σ L Op A → Choice Mode Env Op → Prop} {I : World S σ L Op A → Prop}
    {cs : List (Choice Mode Env Op)} (h₀ : I w) (hrun : run sys w cs = some w')
    (heach : Each sys P w cs)
    (hstep : ∀ w₁ c w₂, c ∈ cs → P w₁ c → I w₁ → step sys w₁ c = some w₂ → I w₂) : I w' := by
  induction cs generalizing w with
  | nil => exact Option.some.inj hrun ▸ h₀
  | cons c cs ih =>
    rw [run_cons] at hrun
    obtain ⟨w₁, hc, hrun⟩ := Option.bind_eq_some_iff.1 hrun
    refine ih (hstep w c w₁ List.mem_cons_self heach.1 h₀ hc) hrun (heach.2 w₁ hc) ?_
    exact fun w₁ d w₂ hd => hstep w₁ d w₂ (List.mem_cons_of_mem _ hd)

instance Each.decidable {P : World S σ L Op A → Choice Mode Env Op → Prop}
    [∀ w c, Decidable (P w c)] : ∀ w cs, Decidable (Each sys P w cs)
  | _, [] => isTrue trivial
  | w, c :: cs =>
    match h : step sys w c with
    | none => decidable_of_iff (P w c) ⟨fun hP => ⟨hP, fun w' hs => by simp [h] at hs⟩, And.left⟩
    | some w' =>
      have := Each.decidable (P := P) w' cs
      decidable_of_iff (P w c ∧ Each sys P w' cs)
        (and_congr_right fun _ => ⟨fun hE _ hs => Option.some.inj (h.symm.trans hs) ▸ hE,
          fun hE => hE w' h⟩)

theorem Each.mono {P Q : World S σ L Op A → Choice Mode Env Op → Prop}
    {cs : List (Choice Mode Env Op)} (h : Each sys P w cs) (hPQ : ∀ w c, P w c → Q w c) :
    Each sys Q w cs := by
  induction cs generalizing w with
  | nil => trivial
  | cons c cs ih => exact ⟨hPQ w c h.1, fun w' hs => ih (h.2 w' hs)⟩

theorem Each.and {P Q : World S σ L Op A → Choice Mode Env Op → Prop}
    {cs : List (Choice Mode Env Op)} (hP : Each sys P w cs) (hQ : Each sys Q w cs) :
    Each sys (fun w c => P w c ∧ Q w c) w cs := by
  induction cs generalizing w with
  | nil => trivial
  | cons c cs ih => exact ⟨⟨hP.1, hQ.1⟩, fun w' hs => ih (hP.2 w' hs) (hQ.2 w' hs)⟩

/-- What holds of every step that can be taken in a state with `I` holds of each
step of a run that keeps `I`. -/
theorem each_of_invariant {P : World S σ L Op A → Choice Mode Env Op → Prop}
    {I : World S σ L Op A → Prop} {cs : List (Choice Mode Env Op)} (h₀ : I w)
    (hP : ∀ w₁ c, c ∈ cs → I w₁ → P w₁ c)
    (hstep : ∀ w₁ c w₂, c ∈ cs → I w₁ → step sys w₁ c = some w₂ → I w₂) : Each sys P w cs := by
  induction cs generalizing w with
  | nil => trivial
  | cons c cs ih =>
    refine ⟨hP w c List.mem_cons_self h₀, fun w' hs => ?_⟩
    refine ih (hstep w c w' List.mem_cons_self h₀ hs) ?_ ?_
    · exact fun w₁ d hd => hP w₁ d (List.mem_cons_of_mem _ hd)
    · exact fun w₁ d w₂ hd => hstep w₁ d w₂ (List.mem_cons_of_mem _ hd)

/-! ## Properties of all strands -/

/-- A property of an actor of a call, of what is left of its program and of what
it did, that its steps keep.  `ok` is what is known of an event. -/
structure Carried (sys : System S σ L Mode Env Op A) (ok : Event S σ → Prop)
    (Φ : Op → Actor → (α : Type) → Prog S α → List (Event S σ) → Prop) : Prop where
  req : ∀ {op who α r k tr x s}, Φ op who α (.req r k) tr → ok ⟨who, r, x, s⟩ →
    Φ op who α (k x) (⟨who, r, x, s⟩ :: tr)
  spawn : ∀ {op who α cap j k tr}, Φ op who α (.spawn cap j k) tr → Φ op who α k tr
  join : ∀ {op who α k tr}, Φ op who α (.join k) tr → ∀ rs, Φ op who α (k rs) tr
  tryJoin : ∀ {op who α k tr}, Φ op who α (.tryJoin k) tr → ∀ rs, Φ op who α (k rs) tr
  call : ∀ {ths op p}, sys.call ths op = some p → ∀ t tr, Φ op (.main t) A p tr
  job : ∀ op t i j tr, Φ op (.job t i) S.Done (sys.job j) tr

section Runs

variable {ok : Event S σ → Prop} {allowed : Mode → Prop}
  {Φ : Op → Actor → (α : Type) → Prog S α → List (Event S σ) → Prop}

/-- One step keeps what every strand carries. -/
theorem Carried.step (hΦ : Carried sys ok Φ) (hok : ∀ e, Served sys allowed e → ok e)
    (h : ∀ op who α p, w.Runs op who α p → Φ op who α p (ownEvents who w.log))
    {c : Choice Mode Env Op} (hc : ModeOk allowed c) (hs : step sys w c = some w') :
    ∀ op who α p, w'.Runs op who α p → Φ op who α p (ownEvents who w'.log) := by
  -- a thread was set, and `log` says the same of the strands that stayed
  have hset : ∀ {t : Nat} {th th' : Thread S L Op A} {s : σ} {log : List (Event S σ)},
      w.threads[t]? = some th → (∀ who : Actor, who.thread ≠ t → ownEvents who log = ownEvents who w.log) →
      Φ th'.op (.main t) A th'.main (ownEvents (.main t) log) →
      (∀ i b, th'.jobs[i]? = some b → Φ th'.op (.job t i) S.Done b.prog (ownEvents (.job t i) log)) →
      ∀ op who α p, Runs ⟨s, w.threads.set t th', log⟩ op who α p → Φ op who α p (ownEvents who log) := by
    intro t th th' s log hth hlog hmain hjobs op who α p hp
    cases hp with
    | @main u thu hu =>
      rcases getElem?_set_cases hu with ⟨rfl, rfl⟩ | ⟨hne, hu⟩
      · exact hmain
      · rw [hlog (.main u) hne]
        exact h _ _ _ _ (.main hu)
    | @job u i thu b hu hb =>
      rcases getElem?_set_cases hu with ⟨rfl, rfl⟩ | ⟨hne, hu⟩
      · exact hjobs i b hb
      · rw [hlog (.job u i) hne]
        exact h _ _ _ _ (.job hu hb)
  cases c with
  | start op =>
    obtain ⟨p, hp, rfl⟩ := step_start hs
    have hnew : ∀ {u : Nat} {thu : Thread S L Op A},
        (w.threads ++ [⟨op, p, sys.loc₀, []⟩])[u]? = some thu →
        w.threads[u]? = some thu ∨ thu = ⟨op, p, sys.loc₀, []⟩ := by
      intro u thu hu
      rcases Nat.lt_or_ge u w.threads.length with hlt | hge
      · rw [List.getElem?_append_left hlt] at hu
        exact .inl hu
      · rw [List.getElem?_append_right hge] at hu
        exact .inr (List.mem_singleton.1 (List.mem_of_getElem? hu))
    intro op' who α q hq
    cases hq with
    | main hu =>
      rcases hnew hu with hu | rfl
      · exact h _ _ _ _ (.main hu)
      · exact hΦ.call hp _ _
    | job hu hb =>
      rcases hnew hu with hu | rfl
      · exact h _ _ _ _ (.job hu hb)
      · exact absurd hb (by simp)
  | env v =>
    obtain ⟨s, -, rfl⟩ := step_env hs
    intro op who α p hp
    cases hp with
    | main hu => exact h _ _ _ _ (.main hu)
    | job hu hb => exact h _ _ _ _ (.job hu hb)
  | deliver t =>
    obtain ⟨th, l, hth, -, rfl⟩ := step_deliver hs
    have hmain := h _ _ _ _ (Runs.main hth)
    refine hset hth (fun _ _ => rfl) hmain fun i b hb => ?_
    have hjob := h _ _ _ _ (Runs.job hth hb)
    exact hjob
  | act who m =>
    cases who with
    | main t =>
      obtain ⟨th, hth, hcase⟩ := step_main hs
      have hmain := h _ _ _ _ (Runs.main hth)
      rcases hcase with ⟨r, k, x, s, l, hr, hx, rfl⟩ | ⟨cap, j, k, hr, rfl⟩ | ⟨k, rs, hr, -, rfl⟩ |
        ⟨k, rs, hr, -, rfl⟩
      all_goals rw [hr] at hmain
      · refine hset hth (fun who hne => ownEvents_cons_ne fun heq => hne (by rw [← heq]; rfl)) ?_ ?_
        · have hown : ownEvents (.main t) (⟨.main t, r, x, w.srv⟩ :: w.log) =
              ⟨.main t, r, x, w.srv⟩ :: ownEvents (.main t) w.log := ownEvents_cons_self rfl
          rw [hown]
          exact hΦ.req hmain (hok _ ⟨m, th.loc, s, l, hc, hx⟩)
        · intro i b hb
          have hown : ownEvents (.job t i) (⟨.main t, r, x, w.srv⟩ :: w.log) =
              ownEvents (.job t i) w.log := ownEvents_cons_ne (by simp)
          have hjob := h _ _ _ _ (Runs.job hth hb)
          rw [hown]
          exact hjob
      · refine hset hth (fun _ _ => rfl) (hΦ.spawn hmain) fun i b hb => ?_
        rcases Nat.lt_or_ge i th.jobs.length with hlt | hge
        · rw [List.getElem?_append_left hlt] at hb
          have hjob := h _ _ _ _ (Runs.job hth hb)
          exact hjob
        · rw [List.getElem?_append_right hge] at hb
          obtain rfl := List.mem_singleton.1 (List.mem_of_getElem? hb)
          exact hΦ.job _ _ _ _ _
      · exact hset hth (fun _ _ => rfl) (hΦ.join hmain rs) fun i b hb => absurd hb (by simp)
      · exact hset hth (fun _ _ => rfl) (hΦ.tryJoin hmain rs) fun i b hb => absurd hb (by simp)
    | job t i =>
      obtain ⟨th, b, r, k, x, s, l, hth, hb, hr, hx, rfl⟩ := step_job hs
      refine hset hth (fun who hne => ownEvents_cons_ne fun heq => hne (by rw [← heq]; rfl)) ?_ ?_
      · have hown : ownEvents (.main t) (⟨.job t i, r, x, w.srv⟩ :: w.log) =
            ownEvents (.main t) w.log := ownEvents_cons_ne (by simp)
        have hmain := h _ _ _ _ (Runs.main hth)
        rw [hown]
        exact hmain
      · intro i' b' hb'
        have hjob := h _ _ _ _ (Runs.job hth hb)
        rw [hr] at hjob
        rw [List.getElem?_set] at hb'
        split at hb'
        · rename_i heq
          subst heq
          split at hb'
          · cases Option.some.inj hb'
            have hown : ownEvents (.job t i) (⟨.job t i, r, x, w.srv⟩ :: w.log) =
                ⟨.job t i, r, x, w.srv⟩ :: ownEvents (.job t i) w.log := ownEvents_cons_self rfl
            rw [hown]
            exact hΦ.req hjob (hok _ ⟨m, b.loc, s, l, hc, hx⟩)
          · exact absurd hb' (by simp)
        · rename_i hne
          have hown : ownEvents (.job t i') (⟨.job t i, r, x, w.srv⟩ :: w.log) =
              ownEvents (.job t i') w.log := ownEvents_cons_ne fun heq => hne (Actor.job.inj heq).2
          have hother := h _ _ _ _ (Runs.job hth hb')
          rw [hown]
          exact hother

variable (allowed) in
/-- **What every strand carries holds of every strand of a run.** -/
theorem run_carried (hΦ : Carried sys ok Φ) (hok : ∀ e, Served sys allowed e → ok e) {s₀ : σ}
    {cs : List (Choice Mode Env Op)} (hcs : ∀ c ∈ cs, ModeOk allowed c)
    (hrun : run sys ⟨s₀, [], []⟩ cs = some w) {op : Op} {who : Actor} {α : Type} {p : Prog S α}
    (hp : w.Runs op who α p) : Φ op who α p (ownEvents who w.log) := by
  have hall : ∀ op who α p, w.Runs op who α p → Φ op who α p (ownEvents who w.log) := by
    refine run_induction (P := fun w : World S σ L Op A => ∀ op who α p, w.Runs op who α p →
      Φ op who α p (ownEvents who w.log)) ?_ hrun fun w₁ c w₂ hc h₁ hs =>
        hΦ.step hok h₁ (hcs c hc) hs
    intro op who α p hp
    cases hp with
    | main hth => exact absurd hth (by simp)
    | job hth hb => exact absurd hth (by simp)
  exact hall op who α p hp

end Runs

end World
end Conc
