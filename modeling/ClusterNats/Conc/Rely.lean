import ClusterNats.Conc.World
import Mathlib.Data.List.Forall2

/-!
# Rely-guarantee reasoning about request programs

What a call may conclude depends on what the others may do between its
requests.  `Rules` collects the agreement of one verification: `rely` bounds
what happens between two steps of an actor, `guar` is what an actor owes when
it makes a request, and jobs have a precondition and a postcondition.
`Rules.Safe` checks one program against the agreement, structurally along the
program tree; `Rules.PoolSafe` says that every actor of a world is checked.

* `Safe.mono`, `Safe.conseq`, `Safe.bind`, `Safe.map`, `Safe.attempt`, `safe_of_requests`
  — the rules of the program logic.
* `Rules.Ordered`, `Rules.Sound` — the agreement is closed: what one actor owes is within what
  the others rely on.
* `PoolSafe.step`, `PoolSafe.run` — **soundness**: a checked world stays
  checked along every run, every step is within `rely`, and every request
  served was within `guar`.
* `PoolSafe.post` — a finished call meets its postcondition.
-/

namespace Conc

/-- What an actor can see: the server, the log, and what it keeps itself. -/
structure View (S : Sig) (σ L : Type) where
  srv : σ
  log : List (Event S σ)
  loc : L

/-- The agreement of one verification. -/
structure Rules (S : Sig) (σ L Mode Op : Type) where
  /-- What may have happened between two steps of an actor. -/
  rely : View S σ L → View S σ L → Prop
  /-- The backend modes that occur. -/
  allowed : Mode → Prop
  /-- What an actor of a call owes when a request of it is served. -/
  guar : Op → Actor → σ → List (Event S σ) → S.Req → Prop
  /-- What thread `t` owes when it starts a job. -/
  jobPre : Op → (t : Nat) → S.Job → σ → List (Event S σ) → Prop
  /-- What a finished job of thread `t` established. -/
  jobPost : Op → (t : Nat) → S.Job → Except S.Err S.Done → σ → List (Event S σ) → Prop

variable {S : Sig} {σ L Mode Env Op A α β : Type}

/-- The postcondition `Q`, with no job left. -/
def Ends (Q : Except S.Err α → View S σ L → Prop) (js : List S.Job) (x : Except S.Err α)
    (v : View S σ L) : Prop := js = [] ∧ Q x v

namespace Rules

variable (R : Rules S σ L Mode Op) (sys : System S σ L Mode Env Op A) (op : Op) (who : Actor)

/-- `p`, run by `who` from a view within `rely` of `v`, keeps its side of the
agreement and ends with `Q`.  `js` are the jobs it has started and not waited
for. -/
def Safe (Q : List S.Job → Except S.Err α → View S σ L → Prop) :
    Prog S α → List S.Job → View S σ L → Prop
  | .ret a, js, v => ∀ v', R.rely v v' → Q js (.ok a) v'
  | .fail e, js, v => ∀ v', R.rely v v' → Q js (.error e) v'
  | .req r k, js, v => ∀ v', R.rely v v' → R.guar op who v'.srv v'.log r ∧
      ∀ m x s l, R.allowed m → sys.serve m v'.srv v'.loc r = some (x, s, l) →
        Safe Q (k x) js ⟨s, ⟨who, r, x, v'.srv⟩ :: v'.log, l⟩
  | .spawn _ j k, js, v => ∀ v', R.rely v v' →
      R.jobPre op who.thread j v'.srv v'.log ∧ Safe Q k (js ++ [j]) v'
  | .join k, js, v => ∀ v', R.rely v v' → ∀ rs,
      List.Forall₂ (fun j r => R.jobPost op who.thread j r v'.srv v'.log) js rs → Safe Q (k rs) [] v'
  | .tryJoin k, js, v => ∀ v', R.rely v v' →
      (∀ ds, List.Forall₂ (fun j d => R.jobPost op who.thread j (.ok d) v'.srv v'.log) js ds →
        Safe Q (k (.ok ds)) [] v') ∧
      ∀ e, Safe Q (k (.error e)) [] v'
  | .stuck, _, _ => True

/-- What may happen between two steps is an order. -/
structure Ordered : Prop where
  refl : ∀ v, R.rely v v
  trans : ∀ {u v w}, R.rely u v → R.rely v w → R.rely u w

/-- The agreement is closed. -/
structure Sound : Prop extends R.Ordered where
  /-- A served request of one actor is within what the others rely on. -/
  other : ∀ {op who m s l log r x s' l'}, R.allowed m → R.guar op who s log r →
    sys.serve m s l r = some (x, s', l') →
    ∀ l'', R.rely ⟨s, log, l''⟩ ⟨s', ⟨who, r, x, s⟩ :: log, l''⟩
  env : ∀ {v s s' log l}, sys.env v s = some s' → R.rely ⟨s, log, l⟩ ⟨s', log, l⟩
  deliver : ∀ {s log l l'}, sys.deliver s l = some l' → R.rely ⟨s, log, l⟩ ⟨s, log, l'⟩
  /-- A job started as agreed ends as agreed. -/
  job : ∀ {op t i j s log}, R.jobPre op t j s log →
    R.Safe sys op (.job t i) (Ends fun r v => R.jobPost op t j r v.srv v.log) (sys.job j) []
      ⟨s, log, sys.loc₀⟩

variable {R sys op who}

/-! ## The rules of the program logic -/

/-- What a program is checked for from one view it is checked for from every
later one. -/
theorem Safe.mono (hR : R.Ordered) {Q : List S.Job → Except S.Err α → View S σ L → Prop}
    {p : Prog S α} {js : List S.Job} {v v' : View S σ L} (h : R.Safe sys op who Q p js v)
    (hv : R.rely v v') : R.Safe sys op who Q p js v' := by
  cases p with
  | stuck => trivial
  | _ => exact fun v'' hv' => h v'' (hR.trans hv hv')

theorem Safe.conseq {Q Q' : List S.Job → Except S.Err α → View S σ L → Prop} {p : Prog S α}
    {js : List S.Job} {v : View S σ L} (h : R.Safe sys op who Q p js v)
    (hQ : ∀ js x v, Q js x v → Q' js x v) : R.Safe sys op who Q' p js v := by
  induction p generalizing js v with
  | ret a => exact fun v' hv => hQ _ _ _ (h v' hv)
  | fail e => exact fun v' hv => hQ _ _ _ (h v' hv)
  | req r k ih =>
    intro v' hv
    obtain ⟨hg, hk⟩ := h v' hv
    exact ⟨hg, fun m x s l hm hx => ih x (hk m x s l hm hx)⟩
  | spawn cap j k ih =>
    intro v' hv
    obtain ⟨hj, hk⟩ := h v' hv
    exact ⟨hj, ih hk⟩
  | join k ih => exact fun v' hv rs hrs => ih rs (h v' hv rs hrs)
  | tryJoin k ih =>
    intro v' hv
    obtain ⟨hok, herr⟩ := h v' hv
    exact ⟨fun ds hds => ih _ (hok ds hds), fun e => ih _ (herr e)⟩
  | stuck => trivial

/-- **Sequencing.**  The second part is checked from wherever the first one
may end; an early return of the first part is one of the whole. -/
theorem Safe.bind (hR : R.Ordered) {Q : List S.Job → Except S.Err α → View S σ L → Prop}
    {Q' : List S.Job → Except S.Err β → View S σ L → Prop} {p : Prog S α} {f : α → Prog S β}
    {js : List S.Job} {v : View S σ L} (h : R.Safe sys op who Q p js v)
    (hok : ∀ a js v', Q js (.ok a) v' → R.Safe sys op who Q' (f a) js v')
    (herr : ∀ e js v', Q js (.error e) v' → Q' js (.error e) v') :
    R.Safe sys op who Q' (p >>= f) js v := by
  induction p generalizing js v with
  | ret a => exact hok a js v (h v (hR.refl v))
  | fail e => exact fun v' hv => herr _ _ _ (h v' hv)
  | req r k ih =>
    intro v' hv
    obtain ⟨hg, hk⟩ := h v' hv
    exact ⟨hg, fun m x s l hm hx => ih x (hk m x s l hm hx)⟩
  | spawn cap j k ih =>
    intro v' hv
    obtain ⟨hj, hk⟩ := h v' hv
    exact ⟨hj, ih hk⟩
  | join k ih => exact fun v' hv rs hrs => ih rs (h v' hv rs hrs)
  | tryJoin k ih =>
    intro v' hv
    obtain ⟨hok', herr'⟩ := h v' hv
    exact ⟨fun ds hds => ih _ (hok' ds hds), fun e => ih _ (herr' e)⟩
  | stuck => trivial

/-- What is done with the value at the end changes no step. -/
theorem Safe.map {Q : List S.Job → Except S.Err α → View S σ L → Prop}
    {Q' : List S.Job → Except S.Err β → View S σ L → Prop} {p : Prog S α} {f : α → β}
    {js : List S.Job} {v : View S σ L} (h : R.Safe sys op who Q p js v)
    (hQ : ∀ js x v, Q js x v → Q' js (x.map f) v) : R.Safe sys op who Q' (f <$> p) js v := by
  induction p generalizing js v with
  | ret a => exact fun v' hv => hQ _ _ _ (h v' hv)
  | fail e => exact fun v' hv => hQ _ _ _ (h v' hv)
  | req r k ih =>
    intro v' hv
    obtain ⟨hg, hk⟩ := h v' hv
    exact ⟨hg, fun m x s l hm hx => ih x (hk m x s l hm hx)⟩
  | spawn cap j k ih =>
    intro v' hv
    obtain ⟨hj, hk⟩ := h v' hv
    exact ⟨hj, ih hk⟩
  | join k ih => exact fun v' hv rs hrs => ih rs (h v' hv rs hrs)
  | tryJoin k ih =>
    intro v' hv
    obtain ⟨hok', herr'⟩ := h v' hv
    exact ⟨fun ds hds => ih _ (hok' ds hds), fun e => ih _ (herr' e)⟩
  | stuck => trivial

/-- `attempt` turns either way to return into a value. -/
theorem Safe.attempt {Q : List S.Job → Except S.Err α → View S σ L → Prop} {p : Prog S α}
    {js : List S.Job} {v : View S σ L} (h : R.Safe sys op who Q p js v) :
    R.Safe sys op who (fun js x v => ∃ y, x = .ok y ∧ Q js y v) p.attempt js v := by
  induction p generalizing js v with
  | ret a => exact fun v' hv => ⟨_, rfl, h v' hv⟩
  | fail e => exact fun v' hv => ⟨_, rfl, h v' hv⟩
  | req r k ih =>
    intro v' hv
    obtain ⟨hg, hk⟩ := h v' hv
    exact ⟨hg, fun m x s l hm hx => ih x (hk m x s l hm hx)⟩
  | spawn cap j k ih =>
    intro v' hv
    obtain ⟨hj, hk⟩ := h v' hv
    exact ⟨hj, ih hk⟩
  | join k ih => exact fun v' hv rs hrs => ih rs (h v' hv rs hrs)
  | tryJoin k ih =>
    intro v' hv
    obtain ⟨hok, herr⟩ := h v' hv
    exact ⟨fun ds hds => ih _ (hok ds hds), fun e => ih _ (herr e)⟩
  | stuck => trivial

/-- Where nothing is owed, every program is checked for nothing. -/
theorem safe_of_free {Q : List S.Job → Except S.Err α → View S σ L → Prop}
    (hQ : ∀ js x v, Q js x v) (hg : ∀ s log r, R.guar op who s log r)
    (hj : ∀ j s log, R.jobPre op who.thread j s log) (p : Prog S α) (js : List S.Job)
    (v : View S σ L) : R.Safe sys op who Q p js v := by
  induction p generalizing js v with
  | ret a => exact fun _ _ => hQ _ _ _
  | fail e => exact fun _ _ => hQ _ _ _
  | req r k ih => exact fun v' _ => ⟨hg _ _ _, fun _ x _ _ _ _ => ih x _ _⟩
  | spawn cap j k ih => exact fun v' _ => ⟨hj _ _ _, ih _ _⟩
  | join k ih => exact fun v' _ rs _ => ih rs _ _
  | tryJoin k ih => exact fun v' _ => ⟨fun ds _ => ih _ _ _, fun e => ih _ _ _⟩
  | stuck => trivial

/-- A program whose requests are all within `guar` is checked for nothing. -/
theorem safe_of_requests {P : S.Req → Prop} {p : Prog S α} (h : p.Requests P)
    (hP : ∀ s log r, P r → R.guar op who s log r) (js : List S.Job) (v : View S σ L) :
    R.Safe sys op who (fun js' _ _ => js' = js) p js v := by
  induction p generalizing v with
  | ret a => exact fun _ _ => rfl
  | fail e => exact fun _ _ => rfl
  | req r k ih => exact fun v' _ => ⟨hP _ _ _ h.1, fun _ x _ _ _ _ => ih x (h.2 x) _⟩
  | stuck => trivial
  | _ => exact absurd h id

/-! ## Soundness -/

variable (R sys op) in
/-- Job number `i` of thread `t`, started as `j`, is checked. -/
def JobSafe (w : World S σ L Op A) (t i : Nat) (j : S.Job) (b : Strand S L) : Prop :=
  R.Safe sys op (.job t i) (Ends fun r v => R.jobPost op t j r v.srv v.log) b.prog []
    ⟨w.srv, w.log, b.loc⟩

variable (R sys) in
/-- Thread `t` and its jobs are checked, the call for `Q t`. -/
def ThreadSafe (Q : Nat → Op → Except S.Err A → View S σ L → Prop) (w : World S σ L Op A) (t : Nat)
    (th : Thread S L Op A) : Prop :=
  ∃ js : List S.Job, js.length = th.jobs.length ∧
    (∀ i j b, js[i]? = some j → th.jobs[i]? = some b → R.JobSafe sys th.op w t i j b) ∧
    R.Safe sys th.op (.main t) (fun _ => Q t th.op) th.main js ⟨w.srv, w.log, th.loc⟩

variable (R sys) in
/-- Every actor of `w` is checked. -/
def PoolSafe (Q : Nat → Op → Except S.Err A → View S σ L → Prop) (w : World S σ L Op A) : Prop :=
  ∀ t th, w.threads[t]? = some th → R.ThreadSafe sys Q w t th

variable {Q : Nat → Op → Except S.Err A → View S σ L → Prop} {w w' : World S σ L Op A}

variable (R sys) in
/-- The world moved from `w` to `w'` within what every actor relies on. -/
def Within (w w' : World S σ L Op A) : Prop :=
  ∀ l, R.rely ⟨w.srv, w.log, l⟩ ⟨w'.srv, w'.log, l⟩

theorem JobSafe.mono (hR : R.Sound sys) {t i : Nat} {j : S.Job} {b : Strand S L}
    (h : R.JobSafe sys op w t i j b) (hw : R.Within w w') : R.JobSafe sys op w' t i j b :=
  Safe.mono hR.toOrdered h (hw _)

theorem ThreadSafe.mono (hR : R.Sound sys) {t : Nat} {th : Thread S L Op A}
    (h : R.ThreadSafe sys Q w t th) (hw : R.Within w w') : R.ThreadSafe sys Q w' t th := by
  obtain ⟨js, hlen, hjobs, hmain⟩ := h
  exact ⟨js, hlen, fun i j b hj hb => (hjobs i j b hj hb).mono hR hw, hmain.mono hR.toOrdered (hw _)⟩

/-- Where one thread changed and the rest of the world stayed within `rely`,
only that thread is to be checked again. -/
theorem PoolSafe.set (hR : R.Sound sys) (h : R.PoolSafe sys Q w) (hw : R.Within w w') {t : Nat}
    {th : Thread S L Op A} (hthreads : w'.threads = w.threads.set t th)
    (hth : R.ThreadSafe sys Q w' t th) : R.PoolSafe sys Q w' := by
  intro u thu hu
  rw [hthreads, List.getElem?_set] at hu
  split at hu
  · rename_i htu
    subst htu
    split at hu
    · cases Option.some.inj hu
      exact hth
    · exact absurd hu (by simp)
  · exact (h u thu hu).mono hR hw

/-- The results `rs` of finished jobs meet what the jobs were started for. -/
theorem jobPosts (hR : R.Sound sys) {t : Nat} {jobs : List (Strand S L)} {js : List S.Job}
    (hlen : js.length = jobs.length)
    (hjobs : ∀ i j b, js[i]? = some j → jobs[i]? = some b → R.JobSafe sys op w t i j b)
    {δ : Type} (f : δ → Except S.Err S.Done) {rs : List δ}
    (hrs : List.Forall₂ (fun b r => b.prog.result? = some (f r)) jobs rs) :
    List.Forall₂ (fun j r => R.jobPost op t j (f r) w.srv w.log) js rs := by
  have hlen' : jobs.length = rs.length := hrs.length_eq
  rw [List.forall₂_iff_get] at hrs ⊢
  refine ⟨by omega, fun i hi hi' => ?_⟩
  have hib : i < jobs.length := by omega
  have hb := hrs.2 i hib hi'
  have hsafe := hjobs i (js.get ⟨i, hi⟩) (jobs.get ⟨i, hib⟩) (by simp [hi]) (by simp [hib])
  rcases Prog.result?_eq_some.1 hb with ⟨d, hd, hr⟩ | ⟨e, he, hr⟩
  · rw [JobSafe, hd] at hsafe
    rw [hr]
    exact (hsafe _ (hR.refl _)).2
  · rw [JobSafe, he] at hsafe
    rw [hr]
    exact (hsafe _ (hR.refl _)).2

variable (R sys Q) in
/-- The choice `c` is one the agreement speaks about: an allowed backend mode,
or a call whose program is checked. -/
def ChoiceOk (w : World S σ L Op A) : Choice Mode Env Op → Prop
  | .start op => ∀ p, sys.call w.threads op = some p →
      R.Safe sys op (.main w.threads.length) (fun _ => Q w.threads.length op) p []
        ⟨w.srv, w.log, sys.loc₀⟩
  | .act _ m => R.allowed m
  | .env _ => True
  | .deliver _ => True

/-- A main program that took a step stays checked. -/
theorem PoolSafe.step_main (hR : R.Sound sys) (h : R.PoolSafe sys Q w) {t : Nat} {m : Mode}
    (hm : R.allowed m) (hs : World.step sys w (.act (.main t) m) = some w') :
    R.PoolSafe sys Q w' ∧ R.Within w w' := by
  obtain ⟨th, hth, hcase⟩ := World.step_main hs
  obtain ⟨js, hlen, hjobs, hmain⟩ := h t th hth
  rcases hcase with ⟨r, k, x, s, l, hr, hx, rfl⟩ | ⟨cap, j, k, hr, rfl⟩ | ⟨k, rs, hr, hrs, rfl⟩ |
    ⟨k, rs, hr, hrs, rfl⟩
  · -- a served request
    rw [hr] at hmain
    obtain ⟨hg, hk⟩ := hmain _ (hR.refl _)
    have hw : R.Within w ⟨s, w.threads.set t ⟨th.op, k x, l, th.jobs⟩,
        ⟨.main t, r, x, w.srv⟩ :: w.log⟩ := hR.other hm hg hx
    refine ⟨h.set hR hw rfl ⟨js, hlen, ?_, hk m x s l hm hx⟩, hw⟩
    exact fun i j b hj hb => (hjobs i j b hj hb).mono hR hw
  · -- a job starts
    rw [hr] at hmain
    obtain ⟨hj, hk⟩ := hmain _ (hR.refl _)
    have hw : R.Within w ⟨w.srv, w.threads.set t ⟨th.op, k, th.loc,
        th.jobs ++ [⟨sys.job j, sys.loc₀⟩]⟩, w.log⟩ := fun l => hR.refl _
    refine ⟨h.set hR hw rfl ⟨js ++ [j], by simp [hlen], ?_, hk⟩, hw⟩
    intro i j' b hj' hb
    rcases Nat.lt_or_ge i js.length with hi | hi
    · rw [List.getElem?_append_left hi] at hj'
      rw [List.getElem?_append_left (by omega)] at hb
      exact hjobs i j' b hj' hb
    · rw [List.getElem?_append_right hi, List.getElem?_singleton] at hj'
      rw [List.getElem?_append_right (by omega), ← hlen, List.getElem?_singleton] at hb
      split at hj'
      · rename_i h0
        rw [if_pos h0] at hb
        cases Option.some.inj hj'
        cases Option.some.inj hb
        exact hR.job hj
      · exact absurd hj' (by simp)
  · -- the jobs are finished
    rw [hr] at hmain
    have hw : R.Within w ⟨w.srv, w.threads.set t ⟨th.op, k rs, th.loc, []⟩, w.log⟩ :=
      fun l => hR.refl _
    have hposts := jobPosts hR hlen hjobs id (World.forall₂_of_allDone hrs)
    exact ⟨h.set hR hw rfl ⟨[], rfl, by simp, hmain _ (hR.refl _) rs hposts⟩, hw⟩
  · rw [hr] at hmain
    have hw : R.Within w ⟨w.srv, w.threads.set t ⟨th.op, k rs, th.loc, []⟩, w.log⟩ :=
      fun l => hR.refl _
    obtain ⟨hok, herr⟩ := hmain _ (hR.refl _)
    refine ⟨h.set hR hw rfl ⟨[], rfl, by simp, ?_⟩, hw⟩
    cases rs with
    | error e => exact herr e
    | ok ds => exact hok ds (jobPosts hR hlen hjobs .ok (World.forall₂_of_tryDone hrs))

/-- A job that took a step stays checked. -/
theorem PoolSafe.step_job (hR : R.Sound sys) (h : R.PoolSafe sys Q w) {t i : Nat} {m : Mode}
    (hm : R.allowed m) (hs : World.step sys w (.act (.job t i) m) = some w') :
    R.PoolSafe sys Q w' ∧ R.Within w w' := by
  obtain ⟨th, b, r, k, x, s, l, hth, hb, hr, hx, rfl⟩ := World.step_job hs
  obtain ⟨js, hlen, hjobs, hmain⟩ := h t th hth
  have hi : i < th.jobs.length := (List.getElem?_eq_some_iff.1 hb).1
  have hjs : js[i]? = some js[i] := by simp
  have hsafe := hjobs i _ _ hjs hb
  rw [JobSafe, hr] at hsafe
  obtain ⟨hg, hk⟩ := hsafe _ (hR.refl _)
  have hw : R.Within w ⟨s, w.threads.set t ⟨th.op, th.main, th.loc, th.jobs.set i ⟨k x, l⟩⟩,
      ⟨.job t i, r, x, w.srv⟩ :: w.log⟩ := hR.other hm hg hx
  refine ⟨h.set hR hw rfl ⟨js, by simpa using hlen, ?_, hmain.mono hR.toOrdered (hw _)⟩, hw⟩
  intro i' j' b' hj' hb'
  rcases eq_or_ne i i' with rfl | hne
  · rw [List.getElem?_set_self hi] at hb'
    cases Option.some.inj hb'
    rw [hjs] at hj'
    cases Option.some.inj hj'
    exact hk m x s l hm hx
  · rw [List.getElem?_set_ne hne] at hb'
    exact (hjobs i' j' b' hj' hb').mono hR hw

/-- **One step.**  A checked world stays checked, and moved within `rely`. -/
theorem PoolSafe.step (hR : R.Sound sys) (h : R.PoolSafe sys Q w) {c : Choice Mode Env Op}
    (hc : R.ChoiceOk sys Q w c) (hs : World.step sys w c = some w') :
    R.PoolSafe sys Q w' ∧ R.Within w w' := by
  cases c with
  | start op =>
    obtain ⟨p, hp, rfl⟩ := World.step_start hs
    have hw : R.Within w ⟨w.srv, w.threads ++ [⟨op, p, sys.loc₀, []⟩], w.log⟩ :=
      fun l => hR.refl _
    refine ⟨fun t th hth => ?_, hw⟩
    rcases Nat.lt_or_ge t w.threads.length with ht | ht
    · rw [List.getElem?_append_left ht] at hth
      exact (h t th hth).mono hR hw
    · rw [List.getElem?_append_right ht, List.getElem?_singleton] at hth
      split at hth
      · rename_i h0
        obtain rfl : t = w.threads.length := by omega
        cases Option.some.inj hth
        exact ⟨[], rfl, by simp, hc p hp⟩
      · exact absurd hth (by simp)
  | act who m =>
    cases who with
    | main t => exact h.step_main hR hc hs
    | job t i => exact h.step_job hR hc hs
  | env v =>
    obtain ⟨s, hv, rfl⟩ := World.step_env hs
    have hw : R.Within w ⟨s, w.threads, w.log⟩ := fun l => hR.env hv
    exact ⟨fun t th hth => (h t th hth).mono hR hw, hw⟩
  | deliver t =>
    obtain ⟨th, l, hth, hl, rfl⟩ := World.step_deliver hs
    have hw : R.Within w ⟨w.srv, w.threads.set t ⟨th.op, th.main, l, th.jobs⟩, w.log⟩ :=
      fun l => hR.refl _
    obtain ⟨js, hlen, hjobs, hmain⟩ := h t th hth
    exact ⟨h.set hR hw rfl ⟨js, hlen, hjobs, hmain.mono hR.toOrdered (hR.deliver hl)⟩, hw⟩

/-- **Soundness.**  A checked world stays checked along every run, and the run
stays within `rely`. -/
theorem PoolSafe.run (hR : R.Sound sys) {cs : List (Choice Mode Env Op)}
    (h : R.PoolSafe sys Q w) (hrun : World.run sys w cs = some w')
    (hcs : ∀ w₁ c, c ∈ cs → R.PoolSafe sys Q w₁ → R.Within w w₁ → R.ChoiceOk sys Q w₁ c) :
    R.PoolSafe sys Q w' ∧ R.Within w w' := by
  refine World.run_induction (P := fun w₁ => R.PoolSafe sys Q w₁ ∧ R.Within w w₁)
    ⟨h, fun l => hR.refl _⟩ hrun fun w₁ c w₂ hc h₁ hs => ?_
  obtain ⟨hsafe, hw⟩ := h₁.1.step hR (hcs w₁ c hc h₁.1 h₁.2) hs
  exact ⟨hsafe, fun l => hR.trans (h₁.2 l) (hw l)⟩

/-- A world without a call is checked. -/
theorem PoolSafe.nil (hw : w.threads = []) : R.PoolSafe sys Q w := by
  intro t th hth
  rw [hw] at hth
  exact absurd hth (by simp)

/-- **A finished call meets its postcondition.** -/
theorem PoolSafe.post (hR : R.Sound sys) (h : R.PoolSafe sys Q w) {t : Nat} {th : Thread S L Op A}
    (hth : w.threads[t]? = some th) {x : Except S.Err A} (hx : th.main.result? = some x) :
    Q t th.op x ⟨w.srv, w.log, th.loc⟩ := by
  obtain ⟨js, -, -, hmain⟩ := h t th hth
  rcases Prog.result?_eq_some.1 hx with ⟨a, ha, rfl⟩ | ⟨e, he, rfl⟩
  · rw [ha] at hmain
    exact hmain _ (hR.refl _)
  · rw [he] at hmain
    exact hmain _ (hR.refl _)

/-- **A served request was owed.**  In a checked world the request an actor is
about to make is within `guar`. -/
theorem PoolSafe.guar_main (hR : R.Sound sys) (h : R.PoolSafe sys Q w) {t : Nat}
    {th : Thread S L Op A} (hth : w.threads[t]? = some th) {r : S.Req}
    {k : S.Resp r → Prog S A} (hr : th.main = .req r k) : R.guar th.op (.main t) w.srv w.log r := by
  obtain ⟨js, -, -, hmain⟩ := h t th hth
  rw [hr] at hmain
  exact (hmain _ (hR.refl _)).1

theorem PoolSafe.guar_job (hR : R.Sound sys) (h : R.PoolSafe sys Q w) {t i : Nat}
    {th : Thread S L Op A} (hth : w.threads[t]? = some th) {b : Strand S L}
    (hb : th.jobs[i]? = some b) {r : S.Req} {k : S.Resp r → Prog S S.Done}
    (hr : b.prog = .req r k) : R.guar th.op (.job t i) w.srv w.log r := by
  obtain ⟨js, hlen, hjobs, -⟩ := h t th hth
  have hi : i < th.jobs.length := (List.getElem?_eq_some_iff.1 hb).1
  have hsafe := hjobs i js[i] b (by simp) hb
  rw [JobSafe, hr] at hsafe
  exact (hsafe _ (hR.refl _)).1

/-- A step of thread `t` that served a request was owed: the request is within
`guar`, whichever actor of the thread made it. -/
theorem PoolSafe.guar_step (hR : R.Sound sys) (h : R.PoolSafe sys Q w) {who : Actor} {m : Mode}
    (hs : World.step sys w (.act who m) = some w') :
    w'.srv = w.srv ∨ ∃ (th : Thread S L Op A) (r : S.Req) (x : S.Resp r) (l l' : L),
      w.threads[who.thread]? = some th ∧ R.guar th.op who w.srv w.log r ∧
        sys.serve m w.srv l r = some (x, w'.srv, l') := by
  cases who with
  | main t =>
    obtain ⟨th, hth, hcase⟩ := World.step_main hs
    rcases hcase with ⟨r, k, x, s, l, hr, hx, rfl⟩ | ⟨cap, j, k, -, rfl⟩ | ⟨k, rs, -, -, rfl⟩ |
      ⟨k, rs, -, -, rfl⟩
    · exact .inr ⟨th, r, x, th.loc, l, hth, h.guar_main hR hth hr, hx⟩
    all_goals exact .inl rfl
  | job t i =>
    obtain ⟨th, b, r, k, x, s, l, hth, hb, hr, hx, rfl⟩ := World.step_job hs
    exact .inr ⟨th, r, x, b.loc, l, hth, h.guar_job hR hth hb hr, hx⟩

end Rules
end Conc
