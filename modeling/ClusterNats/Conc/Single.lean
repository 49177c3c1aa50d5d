import ClusterNats.Conc.Rely
import ClusterNats.Conc.Strands
import Mathlib.Data.List.Induction
import Mathlib.Order.Nat

/-!
# One call among others

A verification may be about one call of a run: the others take whatever steps
they take, and only the call's own program and its jobs are checked.

* `Prog.Makes` — what holds of every request a program can make and of every job it starts.
* `Safe.since`, `Safe.keeps` — what holds at the end of a program, and what happened since
  its start.
* `Safe.spawns` — jobs started one after another.
* `World.Lasts`, `World.step_lasts` — no thread goes away.
* `System.within`, `run_within` — a system that steps only where an invariant of the server holds,
  and the runs along which it does.
* `PoolSafe.single` — **the call is checked when it starts, so it meets its
  postcondition**, whatever ran before it and beside it.
-/

namespace Conc

variable {S : Sig} {σ L Mode Env Op A α : Type}

namespace Prog

variable {β : Type} {P : S.Req → Prop} {J : S.Job → Prop}

/-- Every request the program can make meets `P`, and every job it starts meets
`J`, whatever is answered. -/
def Makes (P : S.Req → Prop) (J : S.Job → Prop) : Prog S α → Prop
  | .ret _ => True
  | .fail _ => True
  | .req r k => P r ∧ ∀ x, (k x).Makes P J
  | .spawn _ j k => J j ∧ k.Makes P J
  | .join k => ∀ rs, (k rs).Makes P J
  | .tryJoin k => ∀ rs, (k rs).Makes P J
  | .stuck => True

theorem Requests.makes {p : Prog S α} (h : p.Requests P) : p.Makes P J := by
  induction p with
  | req r k ih => exact ⟨h.1, fun x => ih x (h.2 x)⟩
  | ret a => trivial
  | fail e => trivial
  | stuck => trivial
  | _ => exact absurd h id

theorem Makes.bind {p : Prog S α} {f : α → Prog S β} (h : p.Makes P J)
    (hf : ∀ a, (f a).Makes P J) : (p >>= f).Makes P J := by
  induction p with
  | ret a => exact hf a
  | fail e => trivial
  | req r k ih => exact ⟨h.1, fun x => ih x (h.2 x)⟩
  | spawn cap j k ih => exact ⟨h.1, ih h.2⟩
  | join k ih => exact fun rs => ih rs (h rs)
  | tryJoin k ih => exact fun rs => ih rs (h rs)
  | stuck => trivial

theorem Makes.map {p : Prog S α} {f : α → β} (h : p.Makes P J) : (f <$> p).Makes P J :=
  h.bind fun _ => trivial

theorem Makes.conseq {P' : S.Req → Prop} {J' : S.Job → Prop} {p : Prog S α} (h : p.Makes P J)
    (hP : ∀ r, P r → P' r) (hJ : ∀ j, J j → J' j) : p.Makes P' J' := by
  induction p with
  | req r k ih => exact ⟨hP r h.1, fun x => ih x (h.2 x)⟩
  | spawn cap j k ih => exact ⟨hJ j h.1, ih h.2⟩
  | join k ih => exact fun rs => ih rs (h rs)
  | tryJoin k ih => exact fun rs => ih rs (h rs)
  | _ => trivial

theorem Makes.spawns {cap : Nat} {jobs : List S.Job} {k : Prog S α} (hjobs : ∀ j ∈ jobs, J j)
    (hk : k.Makes P J) : (jobs.foldr (fun j p => .spawn cap j p) k).Makes P J := by
  induction jobs with
  | nil => exact hk
  | cons j jobs ih =>
    exact ⟨hjobs j List.mem_cons_self, ih fun j' hj' => hjobs j' (List.mem_cons_of_mem _ hj')⟩

end Prog

namespace Rules

variable {R : Rules S σ L Mode Op} {sys : System S σ L Mode Env Op A} {op : Op} {who : Actor}
  {Q : List S.Job → Except S.Err α → View S σ L → Prop} {js : List S.Job} {v : View S σ L}

/-- A program whose requests and jobs are all within the agreement is checked
for nothing, where the agreement is kept by whatever happens. -/
theorem safe_of_makes {P : S.Req → Prop} {J : S.Job → Prop} {I : View S σ L → Prop}
    (hrely : ∀ v v', R.rely v v' → I v → I v')
    (hown : ∀ v m r x s l, I v → R.allowed m → R.guar op who v.srv v.log r →
      sys.serve m v.srv v.loc r = some (x, s, l) → I ⟨s, ⟨who, r, x, v.srv⟩ :: v.log, l⟩)
    (hP : ∀ s log r, P r → R.guar op who s log r)
    (hJ : ∀ j v, J j → I v → R.jobPre op who.thread j v.srv v.log) {p : Prog S α}
    (h : p.Makes P J) (hv : I v) : R.Safe sys op who (fun _ _ _ => True) p js v := by
  induction p generalizing js v with
  | ret a => exact fun _ _ => trivial
  | fail e => exact fun _ _ => trivial
  | req r k ih =>
    intro v' hv'
    have hguar := hP v'.srv v'.log r h.1
    exact ⟨hguar, fun m x s l hm hx => ih x (h.2 x) (hown v' m r x s l (hrely _ _ hv' hv) hm hguar hx)⟩
  | spawn cap j k ih =>
    exact fun v' hv' => ⟨hJ j v' h.1 (hrely _ _ hv' hv), ih h.2 (hrely _ _ hv' hv)⟩
  | join k ih => exact fun v' hv' rs _ => ih rs (h rs) (hrely _ _ hv' hv)
  | tryJoin k ih =>
    exact fun v' hv' => ⟨fun ds _ => ih _ (h _) (hrely _ _ hv' hv),
      fun e => ih _ (h _) (hrely _ _ hv' hv)⟩
  | stuck => trivial

/-- Where a program ends, what its own steps and the others did has happened. -/
theorem Safe.since {T : View S σ L → View S σ L → Prop}
    (htrans : ∀ u v w, T u v → T v w → T u w) (hrely : ∀ v v', R.rely v v' → T v v')
    (hown : ∀ v m r x s l, R.allowed m → sys.serve m v.srv v.loc r = some (x, s, l) →
      T v ⟨s, ⟨who, r, x, v.srv⟩ :: v.log, l⟩) {p : Prog S α} (h : R.Safe sys op who Q p js v) :
    R.Safe sys op who (fun js' x v' => Q js' x v' ∧ T v v') p js v := by
  induction p generalizing js v with
  | ret a => exact fun v' hv => ⟨h v' hv, hrely _ _ hv⟩
  | fail e => exact fun v' hv => ⟨h v' hv, hrely _ _ hv⟩
  | req r k ih =>
    intro v' hv
    obtain ⟨hg, hk⟩ := h v' hv
    refine ⟨hg, fun m x s l hm hx => (ih x (hk m x s l hm hx)).conseq ?_⟩
    rintro js' y v'' ⟨hq, ht⟩
    exact ⟨hq, htrans _ _ _ (hrely _ _ hv) (htrans _ _ _ (hown v' m r x s l hm hx) ht)⟩
  | spawn cap j k ih =>
    intro v' hv
    obtain ⟨hj, hk⟩ := h v' hv
    exact ⟨hj, (ih hk).conseq fun _ _ _ hend => ⟨hend.1, htrans _ _ _ (hrely _ _ hv) hend.2⟩⟩
  | join k ih =>
    intro v' hv rs hrs
    exact (ih rs (h v' hv rs hrs)).conseq
      fun _ _ _ hend => ⟨hend.1, htrans _ _ _ (hrely _ _ hv) hend.2⟩
  | tryJoin k ih =>
    intro v' hv
    obtain ⟨hok, herr⟩ := h v' hv
    refine ⟨fun ds hds => (ih _ (hok ds hds)).conseq ?_, fun e => (ih _ (herr e)).conseq ?_⟩
    all_goals exact fun _ _ _ hend => ⟨hend.1, htrans _ _ _ (hrely _ _ hv) hend.2⟩
  | stuck => trivial

/-- What whatever happens keeps holds where a program ends. -/
theorem Safe.keeps {I : View S σ L → Prop} (hrely : ∀ v v', R.rely v v' → I v → I v')
    (hown : ∀ v m r x s l, I v → R.allowed m → R.guar op who v.srv v.log r →
      sys.serve m v.srv v.loc r = some (x, s, l) → I ⟨s, ⟨who, r, x, v.srv⟩ :: v.log, l⟩)
    {p : Prog S α} (h : R.Safe sys op who Q p js v) (hv : I v) :
    R.Safe sys op who (fun js' x v' => Q js' x v' ∧ I v') p js v := by
  induction p generalizing js v with
  | ret a => exact fun v' hv' => ⟨h v' hv', hrely _ _ hv' hv⟩
  | fail e => exact fun v' hv' => ⟨h v' hv', hrely _ _ hv' hv⟩
  | req r k ih =>
    intro v' hv'
    obtain ⟨hg, hk⟩ := h v' hv'
    refine ⟨hg, fun m x s l hm hx => ih x (hk m x s l hm hx) ?_⟩
    exact hown v' m r x s l (hrely _ _ hv' hv) hm hg hx
  | spawn cap j k ih =>
    intro v' hv'
    obtain ⟨hj, hk⟩ := h v' hv'
    exact ⟨hj, ih hk (hrely _ _ hv' hv)⟩
  | join k ih => exact fun v' hv' rs hrs => ih rs (h v' hv' rs hrs) (hrely _ _ hv' hv)
  | tryJoin k ih =>
    intro v' hv'
    obtain ⟨hok, herr⟩ := h v' hv'
    exact ⟨fun ds hds => ih _ (hok ds hds) (hrely _ _ hv' hv), fun e => ih _ (herr e) (hrely _ _ hv' hv)⟩
  | stuck => trivial

/-- Jobs started one after another, each as agreed. -/
theorem Safe.spawns (hR : R.Ordered) {cap : Nat} {jobs : List S.Job} {k : Prog S α}
    (hjobs : ∀ j ∈ jobs, ∀ v', R.rely v v' → R.jobPre op who.thread j v'.srv v'.log)
    (hk : ∀ v', R.rely v v' → R.Safe sys op who Q k (js ++ jobs) v') :
    R.Safe sys op who Q (jobs.foldr (fun j p => .spawn cap j p) k) js v := by
  induction jobs generalizing js v with
  | nil => simpa using hk v (hR.refl v)
  | cons j jobs ih =>
    intro v₁ hv₁
    refine ⟨hjobs j (by simp) v₁ hv₁, ih ?_ ?_⟩
    · exact fun j' hj' v' hv' => hjobs j' (by simp [hj']) v' (hR.trans hv₁ hv')
    · intro v' hv'
      rw [List.append_assoc]
      exact hk v' (hR.trans hv₁ hv')

end Rules

namespace World

variable {sys : System S σ L Mode Env Op A} {w w' : World S σ L Op A} {c : Choice Mode Env Op}

/-- No thread goes away, and a call that starts is a new one. -/
def Lasts (w : World S σ L Op A) (c : Choice Mode Env Op) (w' : World S σ L Op A) : Prop :=
  w.threads.length ≤ w'.threads.length ∧
    ∀ op, c = .start op → w.threads.length < w'.threads.length

theorem step_lasts (h : step sys w c = some w') : Lasts w c w' := by
  cases c with
  | start op =>
    obtain ⟨p, -, rfl⟩ := step_start h
    simp [Lasts]
  | env v =>
    obtain ⟨s, -, rfl⟩ := step_env h
    simp [Lasts]
  | deliver t =>
    obtain ⟨th, l, -, -, rfl⟩ := step_deliver h
    simp [Lasts]
  | act who m =>
    cases who with
    | main t =>
      obtain ⟨th, -, hcase⟩ := step_main h
      rcases hcase with ⟨r, k, x, s, l, -, -, rfl⟩ | ⟨cap, j, k, -, rfl⟩ | ⟨k, rs, -, -, rfl⟩ |
        ⟨k, rs, -, -, rfl⟩
      all_goals simp [Lasts]
    | job t i =>
      obtain ⟨th, b, r, k, x, s, l, -, -, -, -, rfl⟩ := step_job h
      simp [Lasts]

/-- What holds of every choice holds of each step. -/
theorem each_mem {P : Choice Mode Env Op → Prop} {cs : List (Choice Mode Env Op)} (h : ∀ c ∈ cs, P c) :
    Each sys (fun _ c => P c) w cs :=
  each_of_invariant (I := fun _ => True) trivial (fun _ c hc _ => h c hc) fun _ _ _ _ _ _ => trivial

/-- A run whose steps meet `P` goes on with a step that does. -/
theorem each_concat {P : World S σ L Op A → Choice Mode Env Op → Prop} {cs : List (Choice Mode Env Op)}
    {c : Choice Mode Env Op} (h : Each sys P w cs) (hc : ∀ w', run sys w cs = some w' → P w' c) :
    Each sys P w (cs ++ [c]) := by
  induction cs generalizing w with
  | nil => exact ⟨hc w rfl, fun _ _ => trivial⟩
  | cons d cs ih =>
    refine ⟨h.1, fun w₁ hs => ih (h.2 w₁ hs) fun w' hrun => hc w' ?_⟩
    rw [run_cons, hs]
    exact hrun

end World

section Within

variable (sys : System S σ L Mode Env Op A) (I : σ → Prop)

open Classical in
/-- The system, where it takes a step only from a server that meets `I`. -/
noncomputable def System.within : System S σ L Mode Env Op A where
  serve m s l r := if I s then sys.serve m s l r else none
  env v s := if I s then sys.env v s else none
  deliver s l := if I s then sys.deliver s l else none
  loc₀ := sys.loc₀
  job := sys.job
  call := sys.call

variable {sys I} {s s' : σ} {l l' : L}

theorem System.serve_within {m : Mode} {r : S.Req} {x : S.Resp r × σ × L} :
    (sys.within I).serve m s l r = some x ↔ I s ∧ sys.serve m s l r = some x := by
  simp [System.within]

theorem System.env_within {v : Env} : (sys.within I).env v s = some s' ↔ I s ∧ sys.env v s = some s' := by
  simp [System.within]

theorem System.deliver_within :
    (sys.within I).deliver s l = some l' ↔ I s ∧ sys.deliver s l = some l' := by
  simp [System.within]

namespace World

variable {w w' : World S σ L Op A}

theorem step_within (h : I w.srv) (c : Choice Mode Env Op) : step (sys.within I) w c = step sys w c := by
  have hserve : ∀ m l r, (sys.within I).serve m w.srv l r = sys.serve m w.srv l r :=
    fun m l r => if_pos h
  cases c with
  | start op => rfl
  | env v => simp only [step, System.within, if_pos h]
  | deliver t => simp only [step, System.within, if_pos h]
  | act who m =>
    cases who with
    | main t =>
      simp only [step]
      congr 1
      funext th
      unfold stepMain
      simp only [hserve]
      rfl
    | job t i =>
      simp only [step]
      congr 1
      funext th
      congr 1
      funext b
      unfold stepJob
      simp only [hserve]

/-- A run along which the invariant holds is a run of the restricted system. -/
theorem run_within {cs : List (Choice Mode Env Op)} (hrun : run sys w cs = some w')
    (hI : ∀ ds w₁, ds <+: cs → run sys w ds = some w₁ → I w₁.srv) :
    run (sys.within I) w cs = some w' := by
  induction cs generalizing w with
  | nil => exact hrun
  | cons c cs ih =>
    rw [run_cons] at hrun ⊢
    rw [step_within (hI [] w (List.nil_prefix) rfl)]
    obtain ⟨w₁, hs, hrest⟩ := Option.bind_eq_some_iff.1 hrun
    rw [hs]
    refine ih hrest fun ds w₂ hds hw₂ => hI (c :: ds) w₂ (List.cons_prefix_cons.2 ⟨rfl, hds⟩) ?_
    rw [run_cons, hs]
    exact hw₂

end World
end Within

namespace Rules

variable {R : Rules S σ L Mode Op} {sys : System S σ L Mode Env Op A} {w₀ w w' : World S σ L Op A}
  {t : Nat} {Q : Nat → Op → Except S.Err A → View S σ L → Prop}

/-- A step that does not start thread `t` keeps the world checked, where the
other calls are checked for whatever they do. -/
theorem PoolSafe.step_others (hR : R.Sound sys) (hmodes : ∀ m, R.allowed m)
    (hfree : ∀ u op p v, u ≠ t → R.Safe sys op (.main u) (fun _ => Q u op) p [] v)
    (h : R.PoolSafe sys Q w) {c : Choice Mode Env Op} (hs : World.step sys w c = some w')
    (hstart : ∀ op, c = .start op → w.threads.length ≠ t) : R.PoolSafe sys Q w' := by
  refine (h.step hR ?_ hs).1
  cases c with
  | start op => exact fun p _ => hfree _ op p _ (hstart op rfl)
  | act who m => exact hmodes m
  | env v => trivial
  | deliver u => trivial

/-- **One call of a run is checked.**  The others are checked for whatever they
do; the call is checked for `Q` from the moment it starts. -/
theorem PoolSafe.single (hR : R.Sound sys) (hmodes : ∀ m, R.allowed m)
    (hfree : ∀ u op p v, u ≠ w₀.threads.length → R.Safe sys op (.main u) (fun _ => Q u op) p [] v)
    {s₀ : σ} {before after : List (Choice Mode Env Op)}
    (hbefore : World.run sys ⟨s₀, [], []⟩ before = some w₀) {op : Op}
    (hcall : ∀ p, sys.call w₀.threads op = some p →
      R.Safe sys op (.main w₀.threads.length) (fun _ => Q w₀.threads.length op) p []
        ⟨w₀.srv, w₀.log, sys.loc₀⟩)
    (hrun : World.run sys w₀ (.start op :: after) = some w) : R.PoolSafe sys Q w := by
  have hcalm : ∀ cs w₁, World.run sys ⟨s₀, [], []⟩ cs = some w₁ →
      w₁.threads.length ≤ w₀.threads.length → R.PoolSafe sys Q w₁ := by
    intro cs
    induction cs using List.reverseRecOn with
    | nil =>
      intro w₁ hw₁ _
      cases Option.some.inj hw₁
      exact .nil rfl
    | append_singleton cs c ih =>
      intro w₁ hw₁ hle
      rw [World.run_concat] at hw₁
      obtain ⟨w₂, hw₂, hs⟩ := Option.bind_eq_some_iff.1 hw₁
      have hlasts := World.step_lasts hs
      refine (ih w₂ hw₂ (hlasts.1.trans hle)).step_others hR hmodes hfree hs fun op' hop' => ?_
      exact ((hlasts.2 op' hop').trans_le hle).ne
  rw [World.run_cons] at hrun
  obtain ⟨w₁, hs, hafter⟩ := Option.bind_eq_some_iff.1 hrun
  have hstarted : R.PoolSafe sys Q w₁ := ((hcalm before w₀ hbefore (le_refl _)).step hR (c := .start op)
    hcall hs).1
  have hlater := (World.step_lasts hs).2 op rfl
  refine (World.run_induction (P := fun w₂ => R.PoolSafe sys Q w₂ ∧
    w₀.threads.length < w₂.threads.length) ⟨hstarted, hlater⟩ hafter ?_).1
  rintro w₂ c w₃ - ⟨hsafe, hlt⟩ hs₂
  refine ⟨hsafe.step_others hR hmodes hfree hs₂ fun op' _ => hlt.ne', ?_⟩
  exact hlt.trans_le (World.step_lasts hs₂).1

end Rules
end Conc
