import ClusterNats.Conc.History

/-!
# What a call did itself

A rely-guarantee postcondition says what is in the log when a call returns; it
cannot say what the call did not do.  The requests of one actor with their
answers decide how far its program got, so that is read off the program alone.

* `ownTrace` — the requests of one actor, with their answers.
* `Prog.Outcomes` — along every way a program can go, its trace and its result
  meet `Q`.
* `Outcomes.bind`, `Outcomes.map`, `Outcomes.attempt`, `outcomes_of_requests` —
  its rules.
* `run_outcomes` — every finished call of a run meets what its program was
  checked for.
-/

namespace Conc

/-- A request with its answer. -/
abbrev Answered (S : Sig) := (r : S.Req) × S.Resp r

variable {S : Sig} {σ L Mode Env Op A α β : Type}

/-- The requests of an actor with their answers, the latest first. -/
def ownTrace (who : Actor) (log : List (Event S σ)) : List (Answered S) :=
  (log.filter fun e => e.who = who).map fun e => ⟨e.req, e.resp⟩

theorem ownTrace_cons_self {who : Actor} {e : Event S σ} {log : List (Event S σ)}
    (h : e.who = who) : ownTrace who (e :: log) = ⟨e.req, e.resp⟩ :: ownTrace who log := by
  simp [ownTrace, h]

theorem ownTrace_cons_ne {who : Actor} {e : Event S σ} {log : List (Event S σ)}
    (h : e.who ≠ who) : ownTrace who (e :: log) = ownTrace who log := by
  simp [ownTrace, h]

theorem mem_ownTrace {who : Actor} {log : List (Event S σ)} {a : Answered S} :
    a ∈ ownTrace who log ↔ ∃ e ∈ log, e.who = who ∧ (⟨e.req, e.resp⟩ : Answered S) = a := by
  simp [ownTrace, and_assoc]

/-- An actor that took no step has no trace. -/
theorem ownTrace_eq_nil {who : Actor} {log : List (Event S σ)} (h : ∀ e ∈ log, e.who ≠ who) :
    ownTrace who log = [] := by
  rw [ownTrace, List.map_eq_nil_iff, List.filter_eq_nil_iff]
  simpa using h

namespace Prog

/-- Where every answer meets `ok`, whichever way the program goes, it ends with
`Q` of its trace.  `tr` is the trace so far, the latest request first. -/
def Outcomes (ok : (r : S.Req) → S.Resp r → Prop) (Q : List (Answered S) → Except S.Err α → Prop) :
    Prog S α → List (Answered S) → Prop
  | .ret a, tr => Q tr (.ok a)
  | .fail e, tr => Q tr (.error e)
  | .req r k, tr => ∀ x, ok r x → (k x).Outcomes ok Q (⟨r, x⟩ :: tr)
  | .spawn _ _ k, tr => k.Outcomes ok Q tr
  | .join k, tr => ∀ rs, (k rs).Outcomes ok Q tr
  | .tryJoin k, tr => ∀ rs, (k rs).Outcomes ok Q tr
  | .stuck, _ => True

variable {ok : (r : S.Req) → S.Resp r → Prop} {Q : List (Answered S) → Except S.Err α → Prop}
  {Q' : List (Answered S) → Except S.Err β → Prop} {p : Prog S α} {tr : List (Answered S)}

theorem Outcomes.conseq {Q₁ : List (Answered S) → Except S.Err α → Prop} (h : p.Outcomes ok Q tr)
    (hQ : ∀ tr x, Q tr x → Q₁ tr x) : p.Outcomes ok Q₁ tr := by
  induction p generalizing tr with
  | ret a => exact hQ _ _ h
  | fail e => exact hQ _ _ h
  | req r k ih => exact fun x hx => ih x (h x hx)
  | spawn cap j k ih => exact ih h
  | join k ih => exact fun rs => ih rs (h rs)
  | tryJoin k ih => exact fun rs => ih rs (h rs)
  | stuck => trivial

theorem Outcomes.bind {f : α → Prog S β} (h : p.Outcomes ok Q tr)
    (hok : ∀ tr a, Q tr (.ok a) → (f a).Outcomes ok Q' tr)
    (herr : ∀ tr e, Q tr (.error e) → Q' tr (.error e)) : (p >>= f).Outcomes ok Q' tr := by
  induction p generalizing tr with
  | ret a => exact hok tr a h
  | fail e => exact herr tr e h
  | req r k ih => exact fun x hx => ih x (h x hx)
  | spawn cap j k ih => exact ih h
  | join k ih => exact fun rs => ih rs (h rs)
  | tryJoin k ih => exact fun rs => ih rs (h rs)
  | stuck => trivial

theorem Outcomes.map {f : α → β} (h : p.Outcomes ok Q tr)
    (hQ : ∀ tr x, Q tr x → Q' tr (x.map f)) : (f <$> p).Outcomes ok Q' tr :=
  h.bind (fun tr a ha => hQ tr (.ok a) ha) fun tr e he => hQ tr (.error e) he

theorem Outcomes.attempt (h : p.Outcomes ok Q tr) :
    p.attempt.Outcomes ok (fun tr x => ∃ y, x = .ok y ∧ Q tr y) tr := by
  induction p generalizing tr with
  | ret a => exact ⟨_, rfl, h⟩
  | fail e => exact ⟨_, rfl, h⟩
  | req r k ih => exact fun x hx => ih x (h x hx)
  | spawn cap j k ih => exact ih h
  | join k ih => exact fun rs => ih rs (h rs)
  | tryJoin k ih => exact fun rs => ih rs (h rs)
  | stuck => trivial

/-- Where nothing is asked of the end, nothing is asked. -/
theorem outcomes_of_forall (hQ : ∀ tr x, Q tr x) (p : Prog S α) (tr : List (Answered S)) :
    p.Outcomes ok Q tr := by
  induction p generalizing tr with
  | ret a => exact hQ _ _
  | fail e => exact hQ _ _
  | req r k ih => exact fun x _ => ih x _
  | spawn cap j k ih => exact ih _
  | join k ih => exact fun rs => ih rs _
  | tryJoin k ih => exact fun rs => ih rs _
  | stuck => trivial

/-- A program whose requests are all without an `f` keeps the `f`-part of its
trace. -/
theorem outcomes_of_requests {γ : Type} {f : Answered S → Option γ} {P : S.Req → Prop}
    (hf : ∀ r x, P r → f ⟨r, x⟩ = none) (h : p.Requests P) (tr : List (Answered S)) :
    p.Outcomes ok (fun tr' _ => tr'.filterMap f = tr.filterMap f) tr := by
  induction p generalizing tr with
  | ret a => exact rfl
  | fail e => exact rfl
  | req r k ih =>
    intro x _
    refine (ih x (h.2 x) _).conseq fun tr' _ htr' => ?_
    rw [htr', List.filterMap_cons, hf r x h.1]
  | stuck => trivial
  | _ => exact absurd h id

end Prog

namespace World

variable {sys : System S σ L Mode Env Op A} {w w' : World S σ L Op A}
  {ok : (r : S.Req) → S.Resp r → Prop} {okMode : Mode → Prop}
  {Q : Op → List (Answered S) → Except S.Err A → Prop}

/-- How far every call got is told by its own trace. -/
structure Traced (ok : (r : S.Req) → S.Resp r → Prop)
    (Q : Op → List (Answered S) → Except S.Err A → Prop) (w : World S σ L Op A) : Prop where
  known : ∀ e ∈ w.log, e.who.thread < w.threads.length
  main : ∀ t (th : Thread S L Op A), w.threads[t]? = some th →
    th.main.Outcomes ok (Q th.op) (ownTrace (.main t) w.log)

/-- A thread changed and made no request of its own. -/
theorem Traced.set (h : Traced ok Q w) {t : Nat} {th : Thread S L Op A} {s : σ}
    {log : List (Event S σ)} (hlog : ∀ e ∈ log, e ∈ w.log ∨ e.who.thread < w.threads.length)
    (hown : ∀ u, u ≠ t → ownTrace (.main u) log = ownTrace (.main u) w.log)
    (hth : th.main.Outcomes ok (Q th.op) (ownTrace (.main t) log)) :
    Traced ok Q ⟨s, w.threads.set t th, log⟩ where
  known e he := by
    rw [List.length_set]
    exact (hlog e he).elim (h.known e) id
  main u thu hu := by
    rw [List.getElem?_set] at hu
    split at hu
    · rename_i htu
      subst htu
      split at hu
      · cases Option.some.inj hu
        exact hth
      · exact absurd hu (by simp)
    · rename_i hne
      rw [hown u (Ne.symm hne)]
      exact h.main u thu hu

/-- One step leaves every call at where its trace says it is. -/
theorem Traced.step (hok : ∀ {m s l r x s' l'}, okMode m → sys.serve m s l r = some (x, s', l') →
      ok r x) (hcall : ∀ ths op p, sys.call ths op = some p → p.Outcomes ok (Q op) [])
    (h : Traced ok Q w) {c : Choice Mode Env Op} (hc : ModeOk okMode c)
    (hs : step sys w c = some w') : Traced ok Q w' := by
  cases c with
  | start op =>
    obtain ⟨p, hp, rfl⟩ := step_start hs
    refine ⟨fun e he => ?_, fun t th hth => ?_⟩
    · rw [List.length_append]
      exact Nat.lt_add_right _ (h.known e he)
    · rcases Nat.lt_or_ge t w.threads.length with ht | ht
      · rw [List.getElem?_append_left ht] at hth
        exact h.main t th hth
      · rw [List.getElem?_append_right ht, List.getElem?_singleton] at hth
        split at hth
        · cases Option.some.inj hth
          have hnil : ownTrace (.main t) w.log = [] := by
            refine ownTrace_eq_nil fun e he heq => ?_
            have hlt := h.known e he
            rw [heq, Actor.thread] at hlt
            omega
          simpa [hnil] using hcall w.threads op p hp
        · exact absurd hth (by simp)
  | env v =>
    obtain ⟨s, -, rfl⟩ := step_env hs
    exact ⟨h.known, h.main⟩
  | deliver t =>
    obtain ⟨th, l, hth, -, rfl⟩ := step_deliver hs
    exact h.set (fun e he => .inl he) (fun _ _ => rfl) (h.main t th hth)
  | act who m =>
    cases who with
    | main t =>
      obtain ⟨th, hth, hcase⟩ := step_main hs
      have ht : t < w.threads.length := (List.getElem?_eq_some_iff.1 hth).1
      have hmain := h.main t th hth
      rcases hcase with ⟨r, k, x, s, l, hr, hx, rfl⟩ | ⟨cap, j, k, hr, rfl⟩ |
        ⟨k, rs, hr, -, rfl⟩ | ⟨k, rs, hr, -, rfl⟩
      · rw [hr] at hmain
        refine h.set (fun e he => ?_) (fun u hu => ?_) ?_
        · rcases List.mem_cons.1 he with rfl | he
          · exact .inr ht
          · exact .inl he
        · exact ownTrace_cons_ne fun heq => hu (Actor.main.inj heq).symm
        · have hown : ownTrace (.main t) (⟨.main t, r, x, w.srv⟩ :: w.log) =
              ⟨r, x⟩ :: ownTrace (.main t) w.log := ownTrace_cons_self rfl
          rw [hown]
          exact hmain x (hok hc hx)
      all_goals
        rw [hr] at hmain
        refine h.set (fun e he => .inl he) (fun _ _ => rfl) ?_
        first | exact hmain | exact hmain rs
    | job t i =>
      obtain ⟨th, b, r, k, x, s, l, hth, -, -, hx, rfl⟩ := step_job hs
      have ht : t < w.threads.length := (List.getElem?_eq_some_iff.1 hth).1
      have hown : ∀ u, ownTrace (.main u) (⟨.job t i, r, x, w.srv⟩ :: w.log) =
          ownTrace (.main u) w.log := fun u => ownTrace_cons_ne (by simp)
      refine h.set (fun e he => ?_) (fun u _ => hown u) ?_
      · rcases List.mem_cons.1 he with rfl | he
        · exact .inr ht
        · exact .inl he
      · rw [hown t]
        exact h.main t th hth

variable (ok okMode) in
/-- **Every call is where its own trace says it is**, so a finished call meets
what its program was checked for. -/
theorem run_outcomes (hok : ∀ {m s l r x s' l'}, okMode m →
      sys.serve m s l r = some (x, s', l') → ok r x)
    (hcall : ∀ ths op p, sys.call ths op = some p → p.Outcomes ok (Q op) []) {s₀ : σ}
    {cs : List (Choice Mode Env Op)} (hcs : ∀ c ∈ cs, ModeOk okMode c)
    (hrun : run sys ⟨s₀, [], []⟩ cs = some w) {t : Nat} {th : Thread S L Op A}
    (hth : w.threads[t]? = some th) {x : Except S.Err A} (hx : th.main.result? = some x) :
    Q th.op (ownTrace (.main t) w.log) x := by
  have htraced : Traced ok Q w := by
    refine run_induction (P := Traced ok Q) ⟨by simp, by simp⟩ hrun fun w₁ c w₂ hc h₁ hs => ?_
    exact h₁.step hok hcall (hcs c hc) hs
  have hmain := htraced.main t th hth
  rcases Prog.result?_eq_some.1 hx with ⟨a, ha, rfl⟩ | ⟨e, he, rfl⟩
  · rwa [ha] at hmain
  · rwa [he] at hmain

end World
end Conc
