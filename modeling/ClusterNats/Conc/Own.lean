import ClusterNats.Conc.History
import Mathlib.Logic.IsEmpty.Basic

/-!
# What a call's own past says

Some of what a call owes at a request is told by its own earlier requests and
their answers, whatever the others did meanwhile: that it writes what it read,
that it uses a ticket once.  `Prog.Abides` checks a program against such a
guard along its tree.  What the answers say about the server at the time of a
write is then read off the history.

* `ownEvents` — the events of one actor.
* `Prog.Abides`, with `Abides.bind`, `Abides.map`, `Abides.attempt` — the check.
* `run_abiding` — in every run every call keeps its guard and ends as checked.
* `Prog.Sequential`, `run_sequential` — a call without jobs and endless loops.
* `Prog.NoSpawn`, `run_main` — without jobs, every event is one of a main program.
-/

namespace Conc

variable {S : Sig} {σ L Mode Env Op A α β : Type}

/-- The events of an actor, the latest first. -/
def ownEvents (who : Actor) (log : List (Event S σ)) : List (Event S σ) :=
  log.filter fun e => e.who = who

theorem ownEvents_cons_self {who : Actor} {e : Event S σ} {log : List (Event S σ)}
    (h : e.who = who) : ownEvents who (e :: log) = e :: ownEvents who log := by
  simp [ownEvents, h]

theorem ownEvents_cons_ne {who : Actor} {e : Event S σ} {log : List (Event S σ)}
    (h : e.who ≠ who) : ownEvents who (e :: log) = ownEvents who log := by
  simp [ownEvents, h]

theorem mem_ownEvents {who : Actor} {e : Event S σ} {log : List (Event S σ)} :
    e ∈ ownEvents who log ↔ e ∈ log ∧ e.who = who := by
  simp [ownEvents]

theorem ownEvents_eq_nil {who : Actor} {log : List (Event S σ)} (h : ∀ e ∈ log, e.who ≠ who) :
    ownEvents who log = [] := by
  simpa [ownEvents] using h

/-- What an actor did first is what it did before a later event. -/
theorem ownEvents_suffix {who : Actor} {l log : List (Event S σ)} (h : l <:+ log) :
    ownEvents who l <:+ ownEvents who log := h.filter _

namespace Prog

/-- Every request that `who` makes meets the guard `G` of what it did before,
and its result meets `Q`.  `tr` are the events so far, and `ok` is what is known
of an event. -/
def Abides (who : Actor) (ok : Event S σ → Prop) (G : List (Event S σ) → S.Req → Prop)
    (Q : List (Event S σ) → Except S.Err α → Prop) : Prog S α → List (Event S σ) → Prop
  | .ret a, tr => Q tr (.ok a)
  | .fail e, tr => Q tr (.error e)
  | .req r k, tr =>
    G tr r ∧ ∀ x s, ok ⟨who, r, x, s⟩ → (k x).Abides who ok G Q (⟨who, r, x, s⟩ :: tr)
  | .spawn _ _ k, tr => k.Abides who ok G Q tr
  | .join k, tr => ∀ rs, (k rs).Abides who ok G Q tr
  | .tryJoin k, tr => ∀ rs, (k rs).Abides who ok G Q tr
  | .stuck, _ => True

variable {who : Actor} {ok : Event S σ → Prop} {G : List (Event S σ) → S.Req → Prop}
  {Q : List (Event S σ) → Except S.Err α → Prop} {Q' : List (Event S σ) → Except S.Err β → Prop}
  {p : Prog S α} {tr : List (Event S σ)}

theorem Abides.conseq {Q₁ : List (Event S σ) → Except S.Err α → Prop}
    (h : p.Abides who ok G Q tr) (hQ : ∀ tr x, Q tr x → Q₁ tr x) : p.Abides who ok G Q₁ tr := by
  induction p generalizing tr with
  | ret a => exact hQ _ _ h
  | fail e => exact hQ _ _ h
  | req r k ih => exact ⟨h.1, fun x s hx => ih x (h.2 x s hx)⟩
  | spawn cap j k ih => exact ih h
  | join k ih => exact fun rs => ih rs (h rs)
  | tryJoin k ih => exact fun rs => ih rs (h rs)
  | stuck => trivial

theorem Abides.bind {f : α → Prog S β} (h : p.Abides who ok G Q tr)
    (hok : ∀ tr a, Q tr (.ok a) → (f a).Abides who ok G Q' tr)
    (herr : ∀ tr e, Q tr (.error e) → Q' tr (.error e)) : (p >>= f).Abides who ok G Q' tr := by
  induction p generalizing tr with
  | ret a => exact hok tr a h
  | fail e => exact herr tr e h
  | req r k ih => exact ⟨h.1, fun x s hx => ih x (h.2 x s hx)⟩
  | spawn cap j k ih => exact ih h
  | join k ih => exact fun rs => ih rs (h rs)
  | tryJoin k ih => exact fun rs => ih rs (h rs)
  | stuck => trivial

theorem Abides.map {f : α → β} (h : p.Abides who ok G Q tr)
    (hQ : ∀ tr x, Q tr x → Q' tr (x.map f)) : (f <$> p).Abides who ok G Q' tr :=
  h.bind (fun tr a ha => hQ tr (.ok a) ha) fun tr e he => hQ tr (.error e) he

theorem Abides.attempt (h : p.Abides who ok G Q tr) :
    p.attempt.Abides who ok G (fun tr x => ∃ y, x = .ok y ∧ Q tr y) tr := by
  induction p generalizing tr with
  | ret a => exact ⟨_, rfl, h⟩
  | fail e => exact ⟨_, rfl, h⟩
  | req r k ih => exact ⟨h.1, fun x s hx => ih x (h.2 x s hx)⟩
  | spawn cap j k ih => exact ih h
  | join k ih => exact fun rs => ih rs (h rs)
  | tryJoin k ih => exact fun rs => ih rs (h rs)
  | stuck => trivial

/-- A check with a strong guard is one with a weaker guard. -/
theorem Abides.guard {G' : List (Event S σ) → S.Req → Prop} (h : p.Abides who ok G Q tr)
    (hG : ∀ tr r, G tr r → G' tr r) : p.Abides who ok G' Q tr := by
  induction p generalizing tr with
  | ret a => exact h
  | fail e => exact h
  | req r k ih => exact ⟨hG tr r h.1, fun x s hx => ih x (h.2 x s hx)⟩
  | spawn cap j k ih => exact ih h
  | join k ih => exact fun rs => ih rs (h rs)
  | tryJoin k ih => exact fun rs => ih rs (h rs)
  | stuck => trivial

/-- Where nothing is owed and nothing is asked of the result, every program
passes the check. -/
theorem abides_of_free (hG : ∀ tr r, G tr r) (hQ : ∀ tr x, Q tr x) : p.Abides who ok G Q tr := by
  induction p generalizing tr with
  | ret a => exact hQ _ _
  | fail e => exact hQ _ _
  | req r k ih => exact ⟨hG _ _, fun x s _ => ih x⟩
  | spawn cap j k ih => exact ih
  | join k ih => exact fun rs => ih rs
  | tryJoin k ih => exact fun rs => ih rs
  | stuck => trivial

/-- What every request of a program meets, whatever is answered, is kept. -/
theorem abides_of_requests {P : S.Req → Prop} (h : p.Requests P) :
    p.Abides who ok (fun _ r => P r) (fun _ _ => True) tr := by
  induction p generalizing tr with
  | ret a => trivial
  | fail e => trivial
  | req r k ih => exact ⟨h.1, fun x s _ => ih x (h.2 x)⟩
  | stuck => trivial
  | _ => exact absurd h id

/-- A first part that keeps the guard, whatever is answered: what follows is
checked after whatever it did. -/
theorem abides_bind_requests {P : S.Req → Prop} {f : α → Prog S β} (h : p.Requests P)
    (hG : ∀ tr' r, tr <:+ tr' → P r → G tr' r)
    (hok : ∀ a tr', tr <:+ tr' → (f a).Abides who ok G Q' tr')
    (herr : ∀ e tr', tr <:+ tr' → Q' tr' (.error e)) : (p >>= f).Abides who ok G Q' tr := by
  induction p generalizing tr with
  | ret a => exact hok a tr List.suffix_rfl
  | fail e => exact herr e tr List.suffix_rfl
  | req r k ih =>
    refine ⟨hG tr r List.suffix_rfl h.1, fun x s _ => ?_⟩
    have hlater : ∀ {tr'}, (⟨who, r, x, s⟩ :: tr) <:+ tr' → tr <:+ tr' :=
      (List.suffix_cons _ _).trans
    exact ih x (h.2 x) (fun tr' r' htr => hG tr' r' (hlater htr))
      (fun a tr' htr => hok a tr' (hlater htr)) fun e tr' htr => herr e tr' (hlater htr)
  | stuck => trivial
  | _ => exact absurd h id

/-- A program that makes requests and returns: no jobs, and no loop without a
bound. -/
def Sequential : Prog S α → Prop
  | .ret _ => True
  | .fail _ => True
  | .req _ k => ∀ x, (k x).Sequential
  | _ => False

theorem Sequential.bind {f : α → Prog S β} (h : p.Sequential) (hf : ∀ a, (f a).Sequential) :
    (p >>= f).Sequential := by
  induction p with
  | ret a => exact hf a
  | fail e => trivial
  | req r k ih => exact fun x => ih x (h x)
  | _ => exact absurd h id

theorem Sequential.map {f : α → β} (h : p.Sequential) : (f <$> p).Sequential :=
  h.bind fun _ => trivial

/-- A program that starts no job. -/
def NoSpawn : Prog S α → Prop
  | .req _ k => ∀ x, (k x).NoSpawn
  | .spawn .. => False
  | .join k => ∀ rs, (k rs).NoSpawn
  | .tryJoin k => ∀ rs, (k rs).NoSpawn
  | _ => True

theorem noSpawn_of_isEmpty [IsEmpty S.Job] (p : Prog S α) : p.NoSpawn := by
  induction p with
  | req r k ih => exact ih
  | spawn cap j k ih => exact isEmptyElim j
  | join k ih => exact ih
  | tryJoin k ih => exact ih
  | _ => trivial

theorem Requests.noSpawn {P : S.Req → Prop} {p : Prog S α} (h : p.Requests P) : p.NoSpawn := by
  induction p with
  | req r k ih => exact fun x => ih x (h.2 x)
  | ret a => trivial
  | fail e => trivial
  | stuck => trivial
  | _ => exact absurd h id

end Prog

namespace World

variable {sys : System S σ L Mode Env Op A} {w w' : World S σ L Op A} {allowed : Mode → Prop}
  {ok : Event S σ → Prop} {G : Op → Actor → List (Event S σ) → S.Req → Prop}
  {Q : Op → Actor → List (Event S σ) → Except S.Err A → Prop}

variable (sys allowed) in
/-- An event is one the server answered, in an allowed mode of the backend. -/
def Served (e : Event S σ) : Prop :=
  ∃ m l s' l', allowed m ∧ sys.serve m e.pre l e.req = some (e.resp, s', l')

/-- Every call of `w` is checked from where it got to, and kept its guard. -/
structure Abiding (ok : Event S σ → Prop) (G : Op → Actor → List (Event S σ) → S.Req → Prop)
    (Q : Op → Actor → List (Event S σ) → Except S.Err A → Prop) (w : World S σ L Op A) :
    Prop where
  known : ∀ e ∈ w.log, e.who.thread < w.threads.length
  main : ∀ t (th : Thread S L Op A), w.threads[t]? = some th →
    th.main.Abides (.main t) ok (G th.op (.main t)) (Q th.op (.main t)) (ownEvents (.main t) w.log)
  guarded : ∀ t (th : Thread S L Op A), w.threads[t]? = some th → ∀ e l, (e :: l) <:+ w.log →
    e.who = .main t → G th.op (.main t) (ownEvents (.main t) l) e.req

/-- A thread changed and made no request of its own. -/
theorem Abiding.set (h : Abiding ok G Q w) {t : Nat} {th th' : Thread S L Op A} {s : σ}
    (hth : w.threads[t]? = some th) (hop : th'.op = th.op)
    (hmain : th'.main.Abides (.main t) ok (G th'.op (.main t)) (Q th'.op (.main t))
      (ownEvents (.main t) w.log)) :
    Abiding ok G Q ⟨s, w.threads.set t th', w.log⟩ where
  known e he := by
    rw [List.length_set]
    exact h.known e he
  main u thu hu := by
    rw [List.getElem?_set] at hu
    split at hu
    · rename_i htu
      subst htu
      split at hu
      · cases Option.some.inj hu
        exact hmain
      · exact absurd hu (by simp)
    · exact h.main u thu hu
  guarded u thu hu := by
    rw [List.getElem?_set] at hu
    split at hu
    · rename_i htu
      subst htu
      split at hu
      · cases Option.some.inj hu
        exact hop ▸ h.guarded t th hth
      · exact absurd hu (by simp)
    · exact h.guarded u thu hu

/-- An event was added to the log. -/
theorem Abiding.event (h : Abiding ok G Q w) {e : Event S σ} {s : σ}
    {ths : List (Thread S L Op A)} (hlen : ths.length = w.threads.length)
    (hop : ∀ t (th : Thread S L Op A), ths[t]? = some th →
      ∃ th₀, w.threads[t]? = some th₀ ∧ th.op = th₀.op ∧ (e.who ≠ .main t → th.main = th₀.main))
    (hknown : e.who.thread < w.threads.length)
    (hown : ∀ t th, ths[t]? = some th → e.who = .main t →
      G th.op (.main t) (ownEvents (.main t) w.log) e.req ∧
        th.main.Abides (.main t) ok (G th.op (.main t)) (Q th.op (.main t))
          (e :: ownEvents (.main t) w.log)) :
    Abiding ok G Q ⟨s, ths, e :: w.log⟩ where
  known e' he' := by
    rw [hlen]
    rcases List.mem_cons.1 he' with rfl | he'
    · exact hknown
    · exact h.known e' he'
  main t th hth := by
    by_cases hwho : e.who = .main t
    · rw [ownEvents_cons_self hwho]
      exact (hown t th hth hwho).2
    · obtain ⟨th₀, hth₀, heq, hmain⟩ := hop t th hth
      rw [ownEvents_cons_ne hwho, heq, hmain hwho]
      exact h.main t th₀ hth₀
  guarded t th hth e' l hsuf hwho := by
    rcases List.suffix_cons_iff.1 hsuf with heq | hsuf
    · obtain ⟨rfl, rfl⟩ := List.cons.inj heq
      exact (hown t th hth hwho).1
    · obtain ⟨th₀, hth₀, heq, -⟩ := hop t th hth
      rw [heq]
      exact h.guarded t th₀ hth₀ e' l hsuf hwho

/-- A thread that is set keeps its call; the others stay as they are. -/
theorem getElem?_set_op {t u : Nat} {th th' thu : Thread S L Op A} (hth : w.threads[t]? = some th)
    (hop : th'.op = th.op) (hu : (w.threads.set t th')[u]? = some thu) :
    ∃ th₀, w.threads[u]? = some th₀ ∧ thu.op = th₀.op ∧ (u ≠ t → thu.main = th₀.main) ∧
      (u = t → thu = th') := by
  rw [List.getElem?_set] at hu
  split at hu
  · rename_i htu
    subst htu
    split at hu
    · cases Option.some.inj hu
      exact ⟨th, hth, hop, fun h => absurd rfl h, fun _ => rfl⟩
    · exact absurd hu (by simp)
  · rename_i hne
    exact ⟨thu, hu, rfl, fun _ => rfl, fun h => absurd h.symm hne⟩

/-- One step leaves every call where its own events say it is. -/
theorem Abiding.step (hok : ∀ e, Served sys allowed e → ok e)
    (hcall : ∀ ths op p, sys.call ths op = some p → ∀ t,
      p.Abides (.main t) ok (G op (.main t)) (Q op (.main t)) [])
    (h : Abiding ok G Q w) {c : Choice Mode Env Op} (hc : ModeOk allowed c)
    (hs : step sys w c = some w') : Abiding ok G Q w' := by
  cases c with
  | start op =>
    obtain ⟨p, hp, rfl⟩ := step_start hs
    have hnew : ∀ e ∈ w.log, e.who ≠ .main w.threads.length := by
      intro e he heq
      have hlt := h.known e he
      rw [heq, Actor.thread] at hlt
      omega
    refine ⟨fun e he => ?_, fun t th hth => ?_, fun t th hth e l hsuf hwho => ?_⟩
    · rw [List.length_append]
      exact Nat.lt_add_right _ (h.known e he)
    all_goals
      rcases Nat.lt_or_ge t w.threads.length with ht | ht
      · rw [List.getElem?_append_left ht] at hth
        first
          | exact h.main t th hth
          | exact h.guarded t th hth e l hsuf hwho
      · rw [List.getElem?_append_right ht, List.getElem?_singleton] at hth
        split at hth
        · rename_i h0
          obtain rfl : t = w.threads.length := by omega
          cases Option.some.inj hth
          first
            | exact absurd hwho (hnew e (hsuf.subset (List.mem_cons_self ..)))
            | rw [ownEvents_eq_nil hnew]
              exact hcall _ op p hp _
        · exact absurd hth (by simp)
  | env v =>
    obtain ⟨s, -, rfl⟩ := step_env hs
    exact ⟨h.known, h.main, h.guarded⟩
  | deliver t =>
    obtain ⟨th, l, hth, -, rfl⟩ := step_deliver hs
    exact h.set hth rfl (h.main t th hth)
  | act who m =>
    cases who with
    | main t =>
      obtain ⟨th, hth, hcase⟩ := step_main hs
      have ht : t < w.threads.length := (List.getElem?_eq_some_iff.1 hth).1
      have hmain := h.main t th hth
      rcases hcase with ⟨r, k, x, s, l, hr, hx, rfl⟩ | ⟨cap, j, k, hr, rfl⟩ |
        ⟨k, rs, hr, -, rfl⟩ | ⟨k, rs, hr, -, rfl⟩
      · rw [hr] at hmain
        refine h.event (by simp) (fun u thu hu => ?_) ht fun u thu hu hwho => ?_
        · obtain ⟨th₀, hth₀, hop, hne, -⟩ := getElem?_set_op hth (by rfl) hu
          exact ⟨th₀, hth₀, hop, fun hwho => hne fun hut => hwho (hut ▸ rfl)⟩
        · obtain rfl : t = u := Actor.main.inj hwho
          obtain ⟨-, -, -, -, hself⟩ := getElem?_set_op hth (by rfl) hu
          rw [hself rfl]
          exact ⟨hmain.1, hmain.2 x w.srv (hok _ ⟨m, th.loc, s, l, hc, hx⟩)⟩
      all_goals
        rw [hr] at hmain
        refine h.set hth (by rfl) ?_
        first | exact hmain | exact hmain rs
    | job t i =>
      obtain ⟨th, b, r, k, x, s, l, hth, -, -, hx, rfl⟩ := step_job hs
      have ht : t < w.threads.length := (List.getElem?_eq_some_iff.1 hth).1
      refine h.event (by simp) (fun u thu hu => ?_) ht fun u thu hu hwho => by cases hwho
      obtain ⟨th₀, hth₀, hop, hne, hself⟩ := getElem?_set_op hth (by rfl) hu
      refine ⟨th₀, hth₀, hop, fun _ => ?_⟩
      by_cases hut : u = t
      · subst hut
        rw [hself rfl]
        rw [hth] at hth₀
        cases Option.some.inj hth₀
        rfl
      · exact hne hut

variable (allowed) in
/-- **Every call keeps its guard and ends as checked.** -/
theorem run_abiding (hok : ∀ e, Served sys allowed e → ok e)
    (hcall : ∀ ths op p, sys.call ths op = some p → ∀ t,
      p.Abides (.main t) ok (G op (.main t)) (Q op (.main t)) [])
    {s₀ : σ} {cs : List (Choice Mode Env Op)} (hcs : ∀ c ∈ cs, ModeOk allowed c)
    (hrun : run sys ⟨s₀, [], []⟩ cs = some w) : Abiding ok G Q w := by
  refine run_induction (P := Abiding ok G Q) ⟨by simp, by simp, by simp⟩ hrun
    fun w₁ c w₂ hc h₁ hs => ?_
  exact h₁.step hok hcall (hcs c hc) hs

/-- A finished call ended as checked. -/
theorem Abiding.result (h : Abiding ok G Q w) {t : Nat} {th : Thread S L Op A}
    (hth : w.threads[t]? = some th) {x : Except S.Err A} (hx : th.main.result? = some x) :
    Q th.op (.main t) (ownEvents (.main t) w.log) x := by
  have hmain := h.main t th hth
  rcases Prog.result?_eq_some.1 hx with ⟨a, ha, rfl⟩ | ⟨e, he, rfl⟩
  · rwa [ha] at hmain
  · rwa [he] at hmain

/-- A call that makes requests and returns is in the middle of a request, or it
returned. -/
theorem run_sequential {C : Op → Prop}
    (hcall : ∀ ths op p, C op → sys.call ths op = some p → p.Sequential) {s₀ : σ}
    {cs : List (Choice Mode Env Op)} (hrun : run sys ⟨s₀, [], []⟩ cs = some w) {t : Nat}
    {th : Thread S L Op A} (hth : w.threads[t]? = some th) (hop : C th.op) :
    th.main.Sequential := by
  have hall : ∀ (t : Nat) (th : Thread S L Op A), w.threads[t]? = some th → C th.op →
      th.main.Sequential := by
    refine run_induction (P := fun w : World S σ L Op A => ∀ (t : Nat) (th : Thread S L Op A),
      w.threads[t]? = some th → C th.op → th.main.Sequential) (by simp) hrun
      fun w₁ c w₂ _ h₁ hs => ?_
    have hset : ∀ {t : Nat} {th th' : Thread S L Op A}, w₁.threads[t]? = some th →
        th'.op = th.op → (C th.op → th.main.Sequential → th'.main.Sequential) →
        ∀ (u : Nat) (thu : Thread S L Op A), (w₁.threads.set t th')[u]? = some thu → C thu.op →
          thu.main.Sequential := by
      intro t th th' hth hop hmain u thu hu hC
      obtain ⟨th₀, hth₀, hop₀, hne, heq⟩ := getElem?_set_op hth hop hu
      rcases eq_or_ne u t with rfl | hut
      · rw [heq rfl] at hC ⊢
        exact hmain (hop ▸ hC) (h₁ u th hth (hop ▸ hC))
      · rw [hne hut]
        exact h₁ u th₀ hth₀ (hop₀ ▸ hC)
    cases c with
    | start op =>
      obtain ⟨p, hp, rfl⟩ := step_start hs
      intro t th hth hC
      rcases Nat.lt_or_ge t w₁.threads.length with ht | ht
      · rw [List.getElem?_append_left ht] at hth
        exact h₁ t th hth hC
      · rw [List.getElem?_append_right ht, List.getElem?_singleton] at hth
        split at hth
        · cases Option.some.inj hth
          exact hcall _ op p hC hp
        · exact absurd hth (by simp)
    | env v =>
      obtain ⟨s, -, rfl⟩ := step_env hs
      exact h₁
    | deliver t =>
      obtain ⟨th, l, hth, -, rfl⟩ := step_deliver hs
      exact hset hth rfl fun _ h => h
    | act who m =>
      cases who with
      | main t =>
        obtain ⟨th, hth, hcase⟩ := step_main hs
        rcases hcase with ⟨r, k, x, s, l, hr, -, rfl⟩ | ⟨cap, j, k, hr, rfl⟩ |
          ⟨k, rs, hr, -, rfl⟩ | ⟨k, rs, hr, -, rfl⟩
        all_goals
          refine hset hth rfl fun _ h => ?_
          rw [hr] at h
        · exact h x
        all_goals exact absurd h id
      | job t i =>
        obtain ⟨th, b, r, k, x, s, l, hth, -, -, -, rfl⟩ := step_job hs
        exact hset hth rfl fun _ h => h
  exact hall t th hth hop

/-- The events of a call that starts no job are those of its main program. -/
theorem run_main_of_noSpawn {C : Op → Prop}
    (hcall : ∀ ths op p, C op → sys.call ths op = some p → p.NoSpawn) {s₀ : σ}
    {cs : List (Choice Mode Env Op)} (hrun : run sys ⟨s₀, [], []⟩ cs = some w) :
    ∀ e ∈ w.log, ∃ th, w.threads[e.who.thread]? = some th ∧ (C th.op → ∃ t, e.who = .main t) := by
  have hinv : (∀ (t : Nat) (th : Thread S L Op A), w.threads[t]? = some th → C th.op →
      th.jobs = [] ∧ th.main.NoSpawn) ∧ ∀ e ∈ w.log, ∃ th, w.threads[e.who.thread]? = some th ∧
        (C th.op → ∃ t, e.who = .main t) := by
    refine run_induction (P := fun w : World S σ L Op A =>
      (∀ (t : Nat) (th : Thread S L Op A), w.threads[t]? = some th → C th.op →
        th.jobs = [] ∧ th.main.NoSpawn) ∧
        ∀ e ∈ w.log, ∃ th, w.threads[e.who.thread]? = some th ∧ (C th.op → ∃ t, e.who = .main t))
      (by simp) hrun fun w₁ c w₂ hc h₁ hs => ?_
    have hset : ∀ {t : Nat} {th : Thread S L Op A}, (C th.op → th.jobs = [] ∧ th.main.NoSpawn) →
        ∀ (u : Nat) (thu : Thread S L Op A), (w₁.threads.set t th)[u]? = some thu → C thu.op →
          thu.jobs = [] ∧ thu.main.NoSpawn := by
      intro t th hth u thu hu hC
      rw [List.getElem?_set] at hu
      split at hu
      · split at hu
        · cases Option.some.inj hu
          exact hth hC
        · exact absurd hu (by simp)
      · exact h₁.1 u thu hu hC
    have hop : ∀ {t : Nat} {th : Thread S L Op A}, w₁.threads[t]? = some th →
        ∃ th', w₂.threads[t]? = some th' ∧ th'.op = th.op := step_op hs
    have hold : ∀ e ∈ w₁.log, ∃ th, w₂.threads[e.who.thread]? = some th ∧
        (C th.op → ∃ t, e.who = .main t) := by
      intro e he
      obtain ⟨th, hth, hmain⟩ := h₁.2 e he
      obtain ⟨th', hth', heq⟩ := hop hth
      exact ⟨th', hth', heq ▸ hmain⟩
    cases c with
    | start op =>
      obtain ⟨p, hp, rfl⟩ := step_start hs
      refine ⟨fun t th hth hC => ?_, hold⟩
      rcases Nat.lt_or_ge t w₁.threads.length with ht | ht
      · rw [List.getElem?_append_left ht] at hth
        exact h₁.1 t th hth hC
      · rw [List.getElem?_append_right ht, List.getElem?_singleton] at hth
        split at hth
        · cases Option.some.inj hth
          exact ⟨rfl, hcall _ op p hC hp⟩
        · exact absurd hth (by simp)
    | env v =>
      obtain ⟨s, -, rfl⟩ := step_env hs
      exact ⟨h₁.1, hold⟩
    | deliver t =>
      obtain ⟨th, l, hth, -, rfl⟩ := step_deliver hs
      exact ⟨hset (h₁.1 t th hth), hold⟩
    | act who m =>
      cases who with
      | main t =>
        obtain ⟨th, hth, hcase⟩ := step_main hs
        have hthread := hop hth
        have hkeeps := h₁.1 t th hth
        rcases hcase with ⟨r, k, x, s, l, hr, -, rfl⟩ | ⟨cap, j, k, hr, rfl⟩ |
          ⟨k, rs, hr, -, rfl⟩ | ⟨k, rs, hr, -, rfl⟩
        all_goals rw [hr] at hkeeps
        · refine ⟨hset fun hC => ⟨(hkeeps hC).1, (hkeeps hC).2 x⟩, fun e he => ?_⟩
          rcases List.mem_cons.1 he with rfl | he
          · obtain ⟨th', hth', -⟩ := hthread
            exact ⟨th', hth', fun _ => ⟨t, rfl⟩⟩
          · exact hold e he
        · exact ⟨hset fun hC => absurd (hkeeps hC).2 id, hold⟩
        · exact ⟨hset fun hC => ⟨rfl, (hkeeps hC).2 rs⟩, hold⟩
        · exact ⟨hset fun hC => ⟨rfl, (hkeeps hC).2 rs⟩, hold⟩
      | job t i =>
        obtain ⟨th, b, r, k, x, s, l, hth, hb, -, -, rfl⟩ := step_job hs
        -- a call that starts no job has none
        have hnone : ¬ C th.op := by
          intro hC
          rw [(h₁.1 t th hth hC).1] at hb
          exact absurd hb (by simp)
        refine ⟨hset fun hC => absurd hC hnone, fun e he => ?_⟩
        rcases List.mem_cons.1 he with rfl | he
        · obtain ⟨th', hth', heq⟩ := hop hth
          exact ⟨th', hth', fun hC => absurd (heq ▸ hC) hnone⟩
        · exact hold e he
  exact hinv.2

/-- Where there are no jobs to start, every event is one of a main program. -/
theorem run_main [IsEmpty S.Job] {s₀ : σ} {cs : List (Choice Mode Env Op)}
    (hrun : run sys ⟨s₀, [], []⟩ cs = some w) : ∀ e ∈ w.log, ∃ t, e.who = .main t :=
  fun e he => by
    obtain ⟨th, -, hmain⟩ := run_main_of_noSpawn (C := fun _ => True)
      (fun _ _ p _ _ => p.noSpawn_of_isEmpty) hrun e he
    exact hmain trivial

end World
end Conc
