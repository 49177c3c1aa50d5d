import ClusterNats.Conc.Trace

/-!
# Two runs in lockstep

Two servers that answer alike, up to a relation, drive the same calls through
the same steps where the programs do not tell related answers apart.  The two
runs then make the same requests in the same order, and the results are related
as the programs were checked for.

* `Prog.Lockstep` — two programs make the same requests on related answers, and
  end with related results.
* `SameBy`, `Lockstep.bind`, `Lockstep.map`, `Lockstep.attempt`,
  `lockstep_of_requests` — its rules.
* `World.Twin` — the two systems answer alike.
* `World.Locked`, `Locked.step`, `run_lockstep` — the two runs.
-/

namespace Conc

variable {S : Sig} {σ L Mode Env Op A α β : Type}

/-- Values related by `V`, or the same error. -/
def SameBy {ε : Type} (V : α → α → Prop) : Except ε α → Except ε α → Prop
  | .ok a, .ok a' => V a a'
  | .error e, .error e' => e = e'
  | _, _ => False

@[simp] theorem sameBy_eq {ε : Type} {x x' : Except ε α} : SameBy Eq x x' ↔ x = x' := by
  cases x <;> cases x' <;> simp [SameBy]

theorem SameBy.mono {ε : Type} {V V' : α → α → Prop} (hV : ∀ a a', V a a' → V' a a')
    {x x' : Except ε α} (h : SameBy V x x') : SameBy V' x x' := by
  cases x <;> cases x'
  · exact h
  · exact absurd h id
  · exact absurd h id
  · exact hV _ _ h

namespace Prog

/-- Two programs make the same requests as long as their answers are related by
`R`, and end with results related by `Q` of the trace of the first. -/
def Lockstep (R : (r : S.Req) → S.Resp r → S.Resp r → Prop)
    (Q : List (Answered S) → Except S.Err α → Except S.Err α → Prop) :
    Prog S α → Prog S α → List (Answered S) → Prop
  | .ret a, p', tr => ∃ y, p'.result? = some y ∧ Q tr (.ok a) y
  | .fail e, p', tr => ∃ y, p'.result? = some y ∧ Q tr (.error e) y
  | .req r k, p', tr => ∃ k', p' = .req r k' ∧
      ∀ x x', R r x x' → (k x).Lockstep R Q (k' x') (⟨r, x⟩ :: tr)
  | .spawn cap j k, p', tr => ∃ k', p' = .spawn cap j k' ∧ k.Lockstep R Q k' tr
  | .join k, p', tr => ∃ k', p' = .join k' ∧ ∀ rs, (k rs).Lockstep R Q (k' rs) tr
  | .tryJoin k, p', tr => ∃ k', p' = .tryJoin k' ∧ ∀ rs, (k rs).Lockstep R Q (k' rs) tr
  | .stuck, p', _ => p' = .stuck

variable {R : (r : S.Req) → S.Resp r → S.Resp r → Prop}
  {Q Q₁ : List (Answered S) → Except S.Err α → Except S.Err α → Prop}
  {Q' : List (Answered S) → Except S.Err β → Except S.Err β → Prop} {V : α → α → Prop}
  {p p' : Prog S α} {tr : List (Answered S)}

theorem Lockstep.conseq (h : p.Lockstep R Q p' tr) (hQ : ∀ tr x x', Q tr x x' → Q₁ tr x x') :
    p.Lockstep R Q₁ p' tr := by
  induction p generalizing p' tr with
  | ret a =>
    obtain ⟨y, hy, h⟩ := h
    exact ⟨y, hy, hQ _ _ _ h⟩
  | fail e =>
    obtain ⟨y, hy, h⟩ := h
    exact ⟨y, hy, hQ _ _ _ h⟩
  | req r k ih =>
    obtain ⟨k', rfl, h⟩ := h
    exact ⟨k', rfl, fun x x' hx => ih x (h x x' hx)⟩
  | spawn cap j k ih =>
    obtain ⟨k', rfl, h⟩ := h
    exact ⟨k', rfl, ih h⟩
  | join k ih =>
    obtain ⟨k', rfl, h⟩ := h
    exact ⟨k', rfl, fun rs => ih rs (h rs)⟩
  | tryJoin k ih =>
    obtain ⟨k', rfl, h⟩ := h
    exact ⟨k', rfl, fun rs => ih rs (h rs)⟩
  | stuck => exact h

/-- **Sequencing.**  The second parts go on from related values. -/
theorem Lockstep.bind {f f' : α → Prog S β} (h : p.Lockstep R (fun _ => SameBy V) p' tr)
    (hok : ∀ tr a a', V a a' → (f a).Lockstep R Q' (f' a') tr)
    (herr : ∀ tr e, Q' tr (.error e) (.error e)) : (p >>= f).Lockstep R Q' (p' >>= f') tr := by
  induction p generalizing p' tr with
  | ret a =>
    obtain ⟨y, hy, hV⟩ := h
    rcases result?_eq_some.1 hy with ⟨a', rfl, rfl⟩ | ⟨e, rfl, rfl⟩
    · exact hok tr a a' hV
    · exact absurd hV id
  | fail e =>
    obtain ⟨y, hy, hV⟩ := h
    rcases result?_eq_some.1 hy with ⟨a', rfl, rfl⟩ | ⟨e', rfl, rfl⟩
    · exact absurd hV id
    · obtain rfl : e = e' := hV
      exact ⟨_, rfl, herr tr e⟩
  | req r k ih =>
    obtain ⟨k', rfl, h⟩ := h
    exact ⟨_, rfl, fun x x' hx => ih x (h x x' hx)⟩
  | spawn cap j k ih =>
    obtain ⟨k', rfl, h⟩ := h
    exact ⟨_, rfl, ih h⟩
  | join k ih =>
    obtain ⟨k', rfl, h⟩ := h
    exact ⟨_, rfl, fun rs => ih rs (h rs)⟩
  | tryJoin k ih =>
    obtain ⟨k', rfl, h⟩ := h
    exact ⟨_, rfl, fun rs => ih rs (h rs)⟩
  | stuck =>
    obtain rfl := h
    rfl

theorem Lockstep.map {f : α → β} {V' : β → β → Prop} (h : p.Lockstep R (fun _ => SameBy V) p' tr)
    (hV : ∀ a a', V a a' → V' (f a) (f a')) :
    (f <$> p).Lockstep R (fun _ => SameBy V') (f <$> p') tr :=
  h.bind (fun _ a a' ha => ⟨_, rfl, hV a a' ha⟩) fun _ _ => rfl

theorem Lockstep.attempt (h : p.Lockstep R (fun _ => SameBy V) p' tr) :
    p.attempt.Lockstep R (fun _ => SameBy (SameBy V)) p'.attempt tr := by
  induction p generalizing p' tr with
  | ret a =>
    obtain ⟨y, hy, hV⟩ := h
    rcases result?_eq_some.1 hy with ⟨a', rfl, rfl⟩ | ⟨e, rfl, rfl⟩
    · exact ⟨_, rfl, hV⟩
    · exact absurd hV id
  | fail e =>
    obtain ⟨y, hy, hV⟩ := h
    rcases result?_eq_some.1 hy with ⟨a', rfl, rfl⟩ | ⟨e', rfl, rfl⟩
    · exact absurd hV id
    · exact ⟨_, rfl, hV⟩
  | req r k ih =>
    obtain ⟨k', rfl, h⟩ := h
    exact ⟨_, rfl, fun x x' hx => ih x (h x x' hx)⟩
  | spawn cap j k ih =>
    obtain ⟨k', rfl, h⟩ := h
    exact ⟨_, rfl, ih h⟩
  | join k ih =>
    obtain ⟨k', rfl, h⟩ := h
    exact ⟨_, rfl, fun rs => ih rs (h rs)⟩
  | tryJoin k ih =>
    obtain ⟨k', rfl, h⟩ := h
    exact ⟨_, rfl, fun rs => ih rs (h rs)⟩
  | stuck =>
    obtain rfl := h
    rfl

theorem lockstep_ret {a a' : α} (h : V a a') :
    (Prog.ret a : Prog S α).Lockstep R (fun _ => SameBy V) (.ret a') tr := ⟨_, rfl, h⟩

theorem lockstep_fail (e : S.Err) :
    (Prog.fail e : Prog S α).Lockstep R (fun _ => SameBy V) (.fail e) tr := ⟨_, rfl, rfl⟩

theorem lockstep_ofExcept {ε : Type} {f : ε → S.Err} {x x' : Except ε α} (h : SameBy V x x') :
    (ofExcept f x).Lockstep R (fun _ => SameBy V) (ofExcept f x') tr := by
  cases x <;> cases x'
  · obtain rfl : _ = _ := h
    exact lockstep_fail _
  · exact absurd h id
  · exact absurd h id
  · exact lockstep_ret h

/-- A program whose requests are answered the same is in lockstep with itself. -/
theorem lockstep_of_requests (h : p.Requests fun r => ∀ x x', R r x x' → x = x') :
    p.Lockstep R (fun _ => SameBy Eq) p tr := by
  induction p generalizing tr with
  | ret a => exact lockstep_ret rfl
  | fail e => exact lockstep_fail e
  | req r k ih =>
    refine ⟨k, rfl, fun x x' hx => ?_⟩
    obtain rfl := h.1 x x' hx
    exact ih x (h.2 x)
  | stuck => rfl
  | _ => exact absurd h id

/-- Two programs in lockstep have both returned, or neither. -/
theorem Lockstep.result (h : p.Lockstep R Q p' tr) :
    Option.Rel (Q tr) p.result? p'.result? := by
  cases p with
  | ret a =>
    obtain ⟨y, hy, hQ⟩ := h
    rw [hy]
    exact .some hQ
  | fail e =>
    obtain ⟨y, hy, hQ⟩ := h
    rw [hy]
    exact .some hQ
  | stuck =>
    obtain rfl := h
    exact .none
  | _ =>
    obtain ⟨k', rfl, -⟩ := h
    exact .none

/-- The results of two programs that end alike are the same. -/
theorem Lockstep.result_eq (h : p.Lockstep R (fun _ => SameBy Eq) p' tr) :
    p.result? = p'.result? := by
  have hrel := h.result
  generalize p.result? = x at hrel ⊢
  generalize p'.result? = x' at hrel ⊢
  cases hrel with
  | some hxx => rw [sameBy_eq.1 hxx]
  | none => rfl

end Prog

namespace World

variable {sys sys' : System S σ L Mode Env Op A} {T : σ → σ → Prop}
  {R : (r : S.Req) → S.Resp r → S.Resp r → Prop}
  {Q : Op → List (Answered S) → Except S.Err A → Except S.Err A → Prop}

/-- Two jobs in lockstep. -/
def JobLocked (R : (r : S.Req) → S.Resp r → S.Resp r → Prop) (b b' : Strand S L) : Prop :=
  b.loc = b'.loc ∧ ∃ tr, b.prog.Lockstep R (fun _ => SameBy Eq) b'.prog tr

/-- Two calls in lockstep. -/
structure ThreadLocked (R : (r : S.Req) → S.Resp r → S.Resp r → Prop)
    (Q : Op → List (Answered S) → Except S.Err A → Except S.Err A → Prop)
    (tr : List (Answered S)) (th th' : Thread S L Op A) : Prop where
  op : th.op = th'.op
  loc : th.loc = th'.loc
  main : th.main.Lockstep R (Q th.op) th'.main tr
  jobs : List.Forall₂ (JobLocked R) th.jobs th'.jobs

/-- The two systems answer alike. -/
structure Twin (sys sys' : System S σ L Mode Env Op A) (T : σ → σ → Prop)
    (R : (r : S.Req) → S.Resp r → S.Resp r → Prop)
    (Q : Op → List (Answered S) → Except S.Err A → Except S.Err A → Prop) : Prop where
  serve : ∀ {m s s' l r x t l'}, T s s' → sys.serve m s l r = some (x, t, l') →
    ∃ x' t', sys'.serve m s' l r = some (x', t', l') ∧ R r x x' ∧ T t t'
  env : ∀ {v s s' t}, T s s' → sys.env v s = some t → ∃ t', sys'.env v s' = some t' ∧ T t t'
  deliver : ∀ {s s' l l'}, T s s' → sys.deliver s l = some l' → sys'.deliver s' l = some l'
  loc₀ : sys.loc₀ = sys'.loc₀
  job : ∀ j, (sys.job j).Lockstep R (fun _ => SameBy Eq) (sys'.job j) []
  call : ∀ {ths ths' : List (Thread S L Op A)} {op p},
    (∀ (t : Nat) (th : Thread S L Op A), ths[t]? = some th →
      ∃ th' tr, ths'[t]? = some th' ∧ ThreadLocked R Q tr th th') →
    sys.call ths op = some p → ∃ p', sys'.call ths' op = some p' ∧ p.Lockstep R (Q op) p' []

/-- Two states in lockstep. -/
structure Locked (T : σ → σ → Prop) (R : (r : S.Req) → S.Resp r → S.Resp r → Prop)
    (Q : Op → List (Answered S) → Except S.Err A → Except S.Err A → Prop)
    (w w' : World S σ L Op A) : Prop where
  srv : T w.srv w'.srv
  length : w.threads.length = w'.threads.length
  known : ∀ e ∈ w.log, e.who.thread < w.threads.length
  thread : ∀ t (th : Thread S L Op A), w.threads[t]? = some th →
    ∃ th', w'.threads[t]? = some th' ∧ ThreadLocked R Q (ownTrace (.main t) w.log) th th'

variable {w w' w₁ : World S σ L Op A}

/-- The call of one thread changed on both sides. -/
theorem Locked.set (h : Locked T R Q w w') {t : Nat} {th th' : Thread S L Op A} {s s' : σ}
    {log log' : List (Event S σ)} (hs : T s s')
    (hlog : ∀ e ∈ log, e ∈ w.log ∨ e.who.thread < w.threads.length)
    (hown : ∀ u, u ≠ t → ownTrace (.main u) log = ownTrace (.main u) w.log)
    (hth : ThreadLocked R Q (ownTrace (.main t) log) th th') :
    Locked T R Q ⟨s, w.threads.set t th, log⟩ ⟨s', w'.threads.set t th', log'⟩ where
  srv := hs
  length := by simp [h.length]
  known e he := by
    rw [List.length_set]
    exact (hlog e he).elim (h.known e) id
  thread u thu hu := by
    rw [List.getElem?_set] at hu
    split at hu
    · rename_i htu
      subst htu
      split at hu
      · rename_i hlt
        cases Option.some.inj hu
        exact ⟨th', List.getElem?_set_self (h.length ▸ hlt), hth⟩
      · exact absurd hu (by simp)
    · rename_i hne
      obtain ⟨thu', hu', hlocked⟩ := h.thread u thu hu
      exact ⟨thu', by rw [List.getElem?_set_ne hne, hu'], hown u (Ne.symm hne) ▸ hlocked⟩

/-- As many jobs run on both sides. -/
theorem length_running {jobs jobs' : List (Strand S L)} (h : List.Forall₂ (JobLocked R) jobs jobs') :
    (jobs.filter Running).length = (jobs'.filter Running).length := by
  induction h with
  | nil => rfl
  | @cons b b' _ _ hb _ ih =>
    obtain ⟨-, tr, hb⟩ := hb
    have hrunning : Running b = Running b' := congrArg Option.isNone hb.result_eq
    cases hrun : Running b' with
    | true =>
      rw [List.filter_cons_of_pos (hrunning.trans hrun), List.filter_cons_of_pos hrun,
        List.length_cons, List.length_cons, ih]
    | false =>
      rw [List.filter_cons_of_neg (by simp [hrunning, hrun]), List.filter_cons_of_neg (by simp [hrun]),
        ih]

/-- What is read off the results of the jobs is the same on both sides. -/
theorem mapM_eq {γ : Type} {f : Strand S L → Option γ}
    (hf : ∀ b b' : Strand S L, b.prog.result? = b'.prog.result? → f b = f b')
    {jobs jobs' : List (Strand S L)} (h : List.Forall₂ (JobLocked R) jobs jobs') :
    jobs.mapM f = jobs'.mapM f := by
  induction h with
  | nil => rfl
  | cons hb _ ih =>
    obtain ⟨-, tr, hb⟩ := hb
    rw [List.mapM_cons, List.mapM_cons, hf _ _ hb.result_eq, ih]

theorem findSome?_eq {γ : Type} {f : Strand S L → Option γ}
    (hf : ∀ b b' : Strand S L, b.prog.result? = b'.prog.result? → f b = f b')
    {jobs jobs' : List (Strand S L)} (h : List.Forall₂ (JobLocked R) jobs jobs') :
    jobs.findSome? f = jobs'.findSome? f := by
  induction h with
  | nil => rfl
  | cons hb _ ih =>
    obtain ⟨-, tr, hb⟩ := hb
    rw [List.findSome?_cons, List.findSome?_cons, hf _ _ hb.result_eq, ih]

theorem error?_congr {p p' : Prog S α} (h : p.result? = p'.result?) : p.error? = p'.error? := by
  have hread : ∀ q : Prog S α, q.error? = q.result?.bind fun x =>
      match x with
      | .ok _ => none
      | .error e => some e := fun q => by cases q <;> rfl
  rw [hread, hread, h]

theorem value?_congr {p p' : Prog S α} (h : p.result? = p'.result?) : p.value? = p'.value? := by
  have hread : ∀ q : Prog S α, q.value? = q.result?.bind fun x =>
      match x with
      | .ok a => some a
      | .error _ => none := fun q => by cases q <;> rfl
  rw [hread, hread, h]

theorem allDone_eq {jobs jobs' : List (Strand S L)} (h : List.Forall₂ (JobLocked R) jobs jobs') :
    allDone jobs = allDone jobs' := mapM_eq (fun _ _ h => h) h

theorem tryDone_eq {jobs jobs' : List (Strand S L)} (h : List.Forall₂ (JobLocked R) jobs jobs') :
    tryDone jobs = tryDone jobs' := by
  rw [tryDone, tryDone, findSome?_eq (fun _ _ h => error?_congr h) h,
    mapM_eq (fun _ _ h => value?_congr h) h]

/-- The jobs at one place are in lockstep. -/
theorem getElem?_jobs {jobs jobs' : List (Strand S L)} (h : List.Forall₂ (JobLocked R) jobs jobs')
    {i : Nat} {b : Strand S L} (hb : jobs[i]? = some b) :
    ∃ b', jobs'[i]? = some b' ∧ JobLocked R b b' := by
  induction h generalizing i with
  | nil => exact absurd hb (by simp)
  | cons hab _ ih =>
    cases i with
    | zero =>
      cases Option.some.inj hb
      exact ⟨_, rfl, hab⟩
    | succ i => exact ih hb

theorem set_jobs {jobs jobs' : List (Strand S L)} (h : List.Forall₂ (JobLocked R) jobs jobs')
    {i : Nat} {b b' : Strand S L} (hb : JobLocked R b b') :
    List.Forall₂ (JobLocked R) (jobs.set i b) (jobs'.set i b') := by
  induction h generalizing i with
  | nil => exact .nil
  | cons hab hrest ih =>
    cases i with
    | zero => exact .cons hb hrest
    | succ i => exact .cons hab ih

/-- A job is started below the cap. -/
theorem running_lt_of_spawn {t : Nat} {m : Mode} (hs : step sys w (.act (.main t) m) = some w₁)
    {th : Thread S L Op A} (hth : w.threads[t]? = some th) {cap : Nat} {j : S.Job} {k : Prog S A}
    (hr : th.main = .spawn cap j k) : (th.jobs.filter Running).length < cap := by
  rw [World.step, hth, Option.bind_some, stepMain, hr] at hs
  by_contra hfull
  simp only [if_neg hfull] at hs
  cases hs

/-- One step of the first run is one of the second. -/
theorem Locked.step (htwin : Twin sys sys' T R Q) (h : Locked T R Q w w')
    {c : Choice Mode Env Op} (hs : World.step sys w c = some w₁) :
    ∃ w₁', World.step sys' w' c = some w₁' ∧ Locked T R Q w₁ w₁' := by
  cases c with
  | start op =>
    obtain ⟨p, hp, rfl⟩ := step_start hs
    obtain ⟨p', hp', hlock⟩ := htwin.call (fun t th hth => by
      obtain ⟨th', hth', hlocked⟩ := h.thread t th hth
      exact ⟨th', _, hth', hlocked⟩) hp
    refine ⟨⟨w'.srv, w'.threads ++ [⟨op, p', sys'.loc₀, []⟩], w'.log⟩,
      by rw [World.step, hp']; rfl, h.srv, by simp [h.length], fun e he => ?_, ?_⟩
    · rw [List.length_append]
      exact Nat.lt_add_right _ (h.known e he)
    · intro t th hth
      rcases Nat.lt_or_ge t w.threads.length with ht | ht
      · rw [List.getElem?_append_left ht] at hth
        obtain ⟨th', hth', hlocked⟩ := h.thread t th hth
        exact ⟨th', by rw [List.getElem?_append_left (h.length ▸ ht), hth'], hlocked⟩
      · rw [List.getElem?_append_right ht, List.getElem?_singleton] at hth
        split at hth
        · rename_i h0
          obtain rfl : t = w.threads.length := by omega
          cases Option.some.inj hth
          have hnil : ownTrace (.main w.threads.length) w.log = [] := by
            refine ownTrace_eq_nil fun e he heq => ?_
            have hlt := h.known e he
            rw [heq, Actor.thread] at hlt
            omega
          refine ⟨⟨op, p', sys'.loc₀, []⟩, by rw [h.length, List.getElem?_concat_length], ?_⟩
          rw [hnil]
          exact ⟨rfl, htwin.loc₀, hlock, .nil⟩
        · exact absurd hth (by simp)
  | env v =>
    obtain ⟨s, hv, rfl⟩ := step_env hs
    obtain ⟨t', hv', hT⟩ := htwin.env h.srv hv
    exact ⟨{ w' with srv := t' }, by rw [World.step, hv']; rfl, hT, h.length, h.known, h.thread⟩
  | deliver t =>
    obtain ⟨th, l, hth, hl, rfl⟩ := step_deliver hs
    obtain ⟨th', hth', hlocked⟩ := h.thread t th hth
    have hl' := htwin.deliver h.srv hl
    refine ⟨{ w' with threads := w'.threads.set t { th' with loc := l } }, ?_, ?_⟩
    · rw [World.step, hth', Option.bind_some, ← hlocked.loc, hl']
      rfl
    · exact h.set h.srv (fun e he => .inl he) (fun _ _ => rfl)
        ⟨hlocked.op, rfl, hlocked.main, hlocked.jobs⟩
  | act who m =>
    cases who with
    | main t =>
      obtain ⟨th, hth, hcase⟩ := step_main hs
      obtain ⟨th', hth', hlocked⟩ := h.thread t th hth
      have ht : t < w.threads.length := (List.getElem?_eq_some_iff.1 hth).1
      have hmain := hlocked.main
      have hstep : ∀ w₁', stepMain sys' w' t th' m = some w₁' →
          World.step sys' w' (.act (.main t) m) = some w₁' := by
        intro w₁' hw
        rw [World.step, hth', Option.bind_some, hw]
      rcases hcase with ⟨r, k, x, s, l, hr, hx, rfl⟩ | ⟨cap, j, k, hr, rfl⟩ |
        ⟨k, rs, hr, hrs, rfl⟩ | ⟨k, rs, hr, hrs, rfl⟩
      · rw [hr] at hmain
        obtain ⟨k', hr', hk⟩ := hmain
        obtain ⟨x', s', hx', hR, hT⟩ := htwin.serve h.srv hx
        refine ⟨⟨s', w'.threads.set t { th' with main := k' x', loc := l },
          ⟨.main t, r, x', w'.srv⟩ :: w'.log⟩, hstep _ ?_, ?_⟩
        · rw [stepMain, hr', ← hlocked.loc]
          simp only [hx', Option.map_some]
        refine h.set hT (fun e he => ?_) (fun u hu => ?_) ⟨hlocked.op, rfl, ?_, hlocked.jobs⟩
        · rcases List.mem_cons.1 he with rfl | he
          · exact .inr ht
          · exact .inl he
        · exact ownTrace_cons_ne fun heq => hu (Actor.main.inj heq).symm
        · have hown : ownTrace (.main t) (⟨.main t, r, x, w.srv⟩ :: w.log) =
              ⟨r, x⟩ :: ownTrace (.main t) w.log := ownTrace_cons_self rfl
          rw [hown]
          exact hk x x' hR
      · rw [hr] at hmain
        obtain ⟨k', hr', hk⟩ := hmain
        have hfree : (th.jobs.filter Running).length < cap := running_lt_of_spawn hs hth hr
        refine ⟨{ w' with
          threads := w'.threads.set t
            { th' with main := k', jobs := th'.jobs ++ [⟨sys'.job j, sys'.loc₀⟩] } }, hstep _ ?_, ?_⟩
        · rw [stepMain, hr']
          simp only [← length_running hlocked.jobs, if_pos hfree]
        · exact h.set h.srv (fun e he => .inl he) (fun _ _ => rfl) ⟨hlocked.op, hlocked.loc, hk,
            List.rel_append hlocked.jobs (.cons ⟨htwin.loc₀, [], htwin.job j⟩ .nil)⟩
      · rw [hr] at hmain
        obtain ⟨k', hr', hk⟩ := hmain
        refine ⟨{ w' with threads := w'.threads.set t { th' with main := k' rs, jobs := [] } },
          hstep _ ?_, ?_⟩
        · rw [stepMain, hr']
          simp only [← allDone_eq hlocked.jobs, hrs, Option.map_some]
        · exact h.set h.srv (fun e he => .inl he) (fun _ _ => rfl) ⟨hlocked.op, hlocked.loc, hk rs, .nil⟩
      · rw [hr] at hmain
        obtain ⟨k', hr', hk⟩ := hmain
        refine ⟨{ w' with threads := w'.threads.set t { th' with main := k' rs, jobs := [] } },
          hstep _ ?_, ?_⟩
        · rw [stepMain, hr']
          simp only [← tryDone_eq hlocked.jobs, hrs, Option.map_some]
        · exact h.set h.srv (fun e he => .inl he) (fun _ _ => rfl) ⟨hlocked.op, hlocked.loc, hk rs, .nil⟩
    | job t i =>
      obtain ⟨th, b, r, k, x, s, l, hth, hb, hr, hx, rfl⟩ := step_job hs
      obtain ⟨th', hth', hlocked⟩ := h.thread t th hth
      have ht : t < w.threads.length := (List.getElem?_eq_some_iff.1 hth).1
      obtain ⟨b', hb', hloc, tr, hprog⟩ := getElem?_jobs hlocked.jobs hb
      rw [hr] at hprog
      obtain ⟨k', hr', hk⟩ := hprog
      obtain ⟨x', s', hx', hR, hT⟩ := htwin.serve h.srv hx
      refine ⟨⟨s', w'.threads.set t { th' with jobs := th'.jobs.set i ⟨k' x', l⟩ },
        ⟨.job t i, r, x', w'.srv⟩ :: w'.log⟩, ?_, ?_⟩
      · rw [World.step, hth', Option.bind_some, hb', Option.bind_some, stepJob, hr', ← hloc]
        simp only [hx', Option.map_some]
      · have hown : ∀ u, ownTrace (.main u) (⟨.job t i, r, x, w.srv⟩ :: w.log) =
            ownTrace (.main u) w.log := fun u => ownTrace_cons_ne (by simp)
        refine h.set hT (fun e he => ?_) (fun u _ => hown u)
          ⟨hlocked.op, hlocked.loc, hown t ▸ hlocked.main,
            set_jobs hlocked.jobs ⟨rfl, _, hk x x' hR⟩⟩
        rcases List.mem_cons.1 he with rfl | he
        · exact .inr ht
        · exact .inl he

/-- **The run of the first system is one of the second**, and the two end in
lockstep. -/
theorem run_lockstep (htwin : Twin sys sys' T R Q) {s₀ s₀' : σ} (hs : T s₀ s₀')
    {cs : List (Choice Mode Env Op)} (hrun : run sys ⟨s₀, [], []⟩ cs = some w) :
    ∃ w', run sys' ⟨s₀', [], []⟩ cs = some w' ∧ Locked T R Q w w' := by
  have hall : ∀ (cs : List (Choice Mode Env Op)) (w₁ w₁' : World S σ L Op A),
      Locked T R Q w₁ w₁' → run sys w₁ cs = some w →
      ∃ w', run sys' w₁' cs = some w' ∧ Locked T R Q w w' := by
    intro cs
    induction cs with
    | nil =>
      intro w₁ w₁' hlocked hrun
      obtain rfl := Option.some.inj hrun
      exact ⟨w₁', rfl, hlocked⟩
    | cons c cs ih =>
      intro w₁ w₁' hlocked hrun
      obtain ⟨w₂, hc, hrest⟩ := Option.bind_eq_some_iff.1 (run_cons c cs ▸ hrun)
      obtain ⟨w₂', hc', hlocked'⟩ := hlocked.step htwin hc
      obtain ⟨w', hw', hend⟩ := ih w₂ w₂' hlocked' hrest
      exact ⟨w', by rw [run_cons, hc']; exact hw', hend⟩
  exact hall cs ⟨s₀, [], []⟩ ⟨s₀', [], []⟩ ⟨hs, rfl, by simp, by simp⟩ hrun

end World
end Conc
