import Mathlib.Tactic.Common

/-!
# Request programs

A call of a client against a shared server is a tree: it makes a request, gets
an answer, and goes on depending on the answer.  A node may also start a job
(a smaller program that runs beside it) or wait for the jobs it started.  The
tree is data, so the same program can be run alone (`Prog.exec`), run among
others in every order (`ClusterNats/Conc/World.lean`), or checked against a
rely-guarantee specification (`ClusterNats/Conc/Rely.lean`).

* `Sig` — the requests, their answers, the jobs and the errors of a family of
  programs.
* `Prog` — the programs; `Prog.bind` and the `Monad` instance make `do` blocks
  of them, `Prog.attempt` turns an early return into a value.
* `Prog.result?` — what a finished program returned.
* `Prog.Requests` — what holds of every request a program can make.
* `Prog.exec` — run a program with nobody else taking a step.
-/

namespace Conc

/-- The signature of a family of programs. -/
structure Sig where
  /-- The requests a program makes. -/
  Req : Type
  /-- What a request is answered with. -/
  Resp : Req → Type
  /-- The jobs a program may start. -/
  Job : Type
  /-- What a job returns. -/
  Done : Type
  /-- What a program or a job fails with. -/
  Err : Type

/-- A program over the signature `S` that returns an `α`. -/
inductive Prog (S : Sig) (α : Type) : Type where
  /-- The program returned. -/
  | ret (a : α)
  /-- The program returned early with an error. -/
  | fail (e : S.Err)
  /-- Make a request and go on with its answer. -/
  | req (r : S.Req) (k : S.Resp r → Prog S α)
  /-- Start a job as soon as fewer than `cap` jobs of this program run. -/
  | spawn (cap : Nat) (j : S.Job) (k : Prog S α)
  /-- Wait for every job started; the results in the order of the starts. -/
  | join (k : List (Except S.Err S.Done) → Prog S α)
  /-- Wait until every job returned or one failed; the others are dropped. -/
  | tryJoin (k : Except S.Err (List S.Done) → Prog S α)
  /-- No further step: an operation panicked, or the fuel of a loop ran out.
  Every finite run of the unbounded loop is a run of the bounded one with enough
  fuel. -/
  | stuck

namespace Prog

variable {S : Sig} {α β γ : Type}

/-- Run `p`, then `f` on what it returned. -/
def bind : Prog S α → (α → Prog S β) → Prog S β
  | .ret a, f => f a
  | .fail e, _ => .fail e
  | .req r k, f => .req r fun x => (k x).bind f
  | .spawn cap j k, f => .spawn cap j (k.bind f)
  | .join k, f => .join fun rs => (k rs).bind f
  | .tryJoin k, f => .tryJoin fun rs => (k rs).bind f
  | .stuck, _ => .stuck

instance : Monad (Prog S) where
  pure := .ret
  bind := bind

@[simp] theorem pure_def (a : α) : (pure a : Prog S α) = .ret a := rfl

@[simp] theorem ret_bind (a : α) (f : α → Prog S β) : (Prog.ret a >>= f) = f a := rfl

@[simp] theorem fail_bind (e : S.Err) (f : α → Prog S β) :
    ((Prog.fail e : Prog S α) >>= f) = .fail e := rfl

@[simp] theorem req_bind (r : S.Req) (k : S.Resp r → Prog S α) (f : α → Prog S β) :
    (Prog.req r k >>= f) = .req r fun x => k x >>= f := rfl

@[simp] theorem spawn_bind (cap : Nat) (j : S.Job) (k : Prog S α) (f : α → Prog S β) :
    (Prog.spawn cap j k >>= f) = .spawn cap j (k >>= f) := rfl

@[simp] theorem join_bind (k : List (Except S.Err S.Done) → Prog S α) (f : α → Prog S β) :
    (Prog.join k >>= f) = .join fun rs => k rs >>= f := rfl

@[simp] theorem tryJoin_bind (k : Except S.Err (List S.Done) → Prog S α) (f : α → Prog S β) :
    (Prog.tryJoin k >>= f) = .tryJoin fun rs => k rs >>= f := rfl

@[simp] theorem stuck_bind (f : α → Prog S β) : ((Prog.stuck : Prog S α) >>= f) = .stuck := rfl

theorem bind_ret_right (p : Prog S α) : (p >>= fun a => Prog.ret a) = p := by
  induction p with
  | ret a => rfl
  | fail e => rfl
  | req r k ih => simp [ih]
  | spawn cap j k ih => simp [ih]
  | join k ih => simp [ih]
  | tryJoin k ih => simp [ih]
  | stuck => rfl

theorem bind_bind (p : Prog S α) (f : α → Prog S β) (g : β → Prog S γ) :
    (p >>= f) >>= g = p >>= fun a => f a >>= g := by
  induction p with
  | ret a => rfl
  | fail e => rfl
  | req r k ih => simp [ih]
  | spawn cap j k ih => simp [ih]
  | join k ih => simp [ih]
  | tryJoin k ih => simp [ih]
  | stuck => rfl

instance : LawfulMonad (Prog S) :=
  LawfulMonad.mk' (Prog S) (fun p => bind_ret_right p) (fun _ _ => rfl) bind_bind

/-- One request, returning its answer. -/
def ask (r : S.Req) : Prog S (S.Resp r) := .req r .ret

@[simp] theorem ask_bind (r : S.Req) (f : S.Resp r → Prog S α) : (ask r >>= f) = .req r f := rfl

/-- Run `p` and return its result, an early return included. -/
def attempt : Prog S α → Prog S (Except S.Err α)
  | .ret a => .ret (.ok a)
  | .fail e => .ret (.error e)
  | .req r k => .req r fun x => (k x).attempt
  | .spawn cap j k => .spawn cap j k.attempt
  | .join k => .join fun rs => (k rs).attempt
  | .tryJoin k => .tryJoin fun rs => (k rs).attempt
  | .stuck => .stuck

/-- The value of `x`, or an early return with its error. -/
def ofExcept {ε : Type} (f : ε → S.Err) : Except ε α → Prog S α
  | .ok a => .ret a
  | .error e => .fail (f e)

@[simp] theorem ofExcept_ok {ε : Type} (f : ε → S.Err) (a : α) :
    ofExcept f (.ok a) = Prog.ret a := rfl

@[simp] theorem ofExcept_error {ε : Type} (f : ε → S.Err) (e : ε) :
    (ofExcept f (.error e) : Prog S α) = .fail (f e) := rfl

/-- What a finished program returned. -/
def result? : Prog S α → Option (Except S.Err α)
  | .ret a => some (.ok a)
  | .fail e => some (.error e)
  | _ => none

@[simp] theorem result?_ret (a : α) : (Prog.ret a : Prog S α).result? = some (.ok a) := rfl
@[simp] theorem result?_fail (e : S.Err) :
    (Prog.fail e : Prog S α).result? = some (.error e) := rfl
@[simp] theorem result?_req (r : S.Req) (k : S.Resp r → Prog S α) :
    (Prog.req r k).result? = none := rfl
@[simp] theorem result?_spawn (cap : Nat) (j : S.Job) (k : Prog S α) :
    (Prog.spawn cap j k).result? = none := rfl
@[simp] theorem result?_join (k : List (Except S.Err S.Done) → Prog S α) :
    (Prog.join k).result? = none := rfl
@[simp] theorem result?_tryJoin (k : Except S.Err (List S.Done) → Prog S α) :
    (Prog.tryJoin k).result? = none := rfl
@[simp] theorem result?_stuck : (Prog.stuck : Prog S α).result? = none := rfl

/-- What a finished program returned is one of the two ways to return. -/
theorem result?_eq_some {p : Prog S α} {x : Except S.Err α} :
    p.result? = some x ↔ (∃ a, p = .ret a ∧ x = .ok a) ∨ (∃ e, p = .fail e ∧ x = .error e) := by
  cases p <;> simp [eq_comm]

/-- What a program that returned in the normal way returned. -/
def value? : Prog S α → Option α
  | .ret a => some a
  | _ => none

/-- What a program that returned early failed with. -/
def error? : Prog S α → Option S.Err
  | .fail e => some e
  | _ => none

theorem result?_of_value? {p : Prog S α} {a : α} (h : p.value? = some a) :
    p.result? = some (.ok a) := by
  cases p <;> simp_all [value?]

/-! ## The requests of a program -/

/-- Every request the program can make meets `P`, whatever is answered, and it
starts no job. -/
def Requests (P : S.Req → Prop) : Prog S α → Prop
  | .ret _ => True
  | .fail _ => True
  | .req r k => P r ∧ ∀ x, (k x).Requests P
  | .spawn _ _ _ => False
  | .join _ => False
  | .tryJoin _ => False
  | .stuck => True

theorem Requests.bind {P : S.Req → Prop} {p : Prog S α} {f : α → Prog S β} (h : p.Requests P)
    (hf : ∀ a, (f a).Requests P) : (p >>= f).Requests P := by
  induction p with
  | ret a => exact hf a
  | req r k ih => exact ⟨h.1, fun x => ih x (h.2 x)⟩
  | fail e => trivial
  | stuck => trivial
  | _ => exact absurd h id

theorem Requests.map {P : S.Req → Prop} {p : Prog S α} {f : α → β} (h : p.Requests P) :
    (f <$> p).Requests P := h.bind fun _ => trivial

theorem Requests.attempt {P : S.Req → Prop} {p : Prog S α} (h : p.Requests P) :
    p.attempt.Requests P := by
  induction p with
  | ret a => trivial
  | req r k ih => exact ⟨h.1, fun x => ih x (h.2 x)⟩
  | fail e => trivial
  | stuck => trivial
  | _ => exact absurd h id

theorem Requests.ofExcept {P : S.Req → Prop} {ε : Type} {f : ε → S.Err} {x : Except ε α} :
    (Prog.ofExcept f x).Requests P := by
  cases x <;> trivial

theorem Requests.mono {P P' : S.Req → Prop} (hP : ∀ r, P r → P' r) {p : Prog S α}
    (h : p.Requests P) : p.Requests P' := by
  induction p with
  | ret a => trivial
  | req r k ih => exact ⟨hP r h.1, fun x => ih x (h.2 x)⟩
  | fail e => trivial
  | stuck => trivial
  | _ => exact absurd h id

/-! ## A program that runs alone -/

variable {σ : Type}

/-- Run a program from `s` with nobody else taking a step; `none` where it
blocks, starts a job, panics or runs out of fuel. -/
def exec (serve : σ → (r : S.Req) → Option (S.Resp r × σ)) :
    Prog S α → σ → Option (Except S.Err α × σ)
  | .ret a, s => some (.ok a, s)
  | .fail e, s => some (.error e, s)
  | .req r k, s => (serve s r).bind fun x => (k x.1).exec serve x.2
  | _, _ => none

variable {serve : σ → (r : S.Req) → Option (S.Resp r × σ)}

@[simp] theorem exec_ret (a : α) (s : σ) : (Prog.ret a : Prog S α).exec serve s = some (.ok a, s) :=
  rfl

@[simp] theorem exec_fail (e : S.Err) (s : σ) :
    (Prog.fail e : Prog S α).exec serve s = some (.error e, s) := rfl

theorem exec_req (r : S.Req) (k : S.Resp r → Prog S α) (s : σ) :
    (Prog.req r k).exec serve s = (serve s r).bind fun x => (k x.1).exec serve x.2 := rfl

/-- **A program runs through its first part.**  What follows starts where it
ended. -/
theorem exec_bind_ok {p : Prog S α} {f : α → Prog S β} {s s' : σ} {a : α}
    (h : p.exec serve s = some (.ok a, s')) : (p >>= f).exec serve s = (f a).exec serve s' := by
  induction p generalizing s with
  | ret b => simp at h; obtain ⟨rfl, rfl⟩ := h; rfl
  | req r k ih =>
    rw [exec_req] at h
    rw [req_bind, exec_req]
    obtain ⟨⟨x, s₁⟩, hx, hk⟩ := Option.bind_eq_some_iff.1 h
    rw [hx]
    exact ih x hk
  | fail e => simp at h
  | _ => simp [exec] at h

/-- An early return of the first part is the early return of the whole. -/
theorem exec_bind_error {p : Prog S α} {f : α → Prog S β} {s s' : σ} {e : S.Err}
    (h : p.exec serve s = some (.error e, s')) : (p >>= f).exec serve s = some (.error e, s') := by
  induction p generalizing s with
  | ret b => simp at h
  | req r k ih =>
    rw [exec_req] at h
    rw [req_bind, exec_req]
    obtain ⟨⟨x, s₁⟩, hx, hk⟩ := Option.bind_eq_some_iff.1 h
    rw [hx]
    exact ih x hk
  | fail e => simpa using h
  | _ => simp [exec] at h

/-- Where the first part does not end, the whole does not. -/
theorem exec_bind_none {p : Prog S α} {f : α → Prog S β} {s : σ} (h : p.exec serve s = none) :
    (p >>= f).exec serve s = none := by
  induction p generalizing s with
  | ret a => simp at h
  | fail e => simp at h
  | req r k ih =>
    rw [exec_req] at h
    rw [req_bind, exec_req]
    cases hx : serve s r with
    | none => rfl
    | some x =>
      rw [hx] at h
      exact ih x.1 h
  | _ => rfl

/-- `attempt` runs the same way and returns what `p` returned. -/
theorem exec_attempt {p : Prog S α} {s s' : σ} {x : Except S.Err α}
    (h : p.exec serve s = some (x, s')) : p.attempt.exec serve s = some (.ok x, s') := by
  induction p generalizing s with
  | ret b => simp at h; obtain ⟨rfl, rfl⟩ := h; rfl
  | req r k ih =>
    rw [exec_req] at h
    obtain ⟨⟨y, s₁⟩, hy, hk⟩ := Option.bind_eq_some_iff.1 h
    show (Prog.req r fun x => (k x).attempt).exec serve s = _
    rw [exec_req, hy]
    exact ih y hk
  | fail e => simp at h; obtain ⟨rfl, rfl⟩ := h; rfl
  | _ => simp [exec] at h

/-- What every request of a program keeps, the program keeps. -/
theorem exec_keeps {P : S.Req → Prop} {I : σ → Prop}
    (hI : ∀ {s r x s'}, P r → serve s r = some (x, s') → I s → I s') {p : Prog S α}
    (hp : p.Requests P) {s s' : σ} {x : Except S.Err α} (h : p.exec serve s = some (x, s'))
    (hs : I s) : I s' := by
  induction p generalizing s with
  | ret b => simp at h; exact h.2 ▸ hs
  | fail e => simp at h; exact h.2 ▸ hs
  | req r k ih =>
    rw [exec_req] at h
    obtain ⟨⟨y, s₁⟩, hy, hk⟩ := Option.bind_eq_some_iff.1 h
    exact ih y (hp.2 y) hk (hI hp.1 hy hs)
  | _ => simp [exec] at h

end Prog
end Conc
