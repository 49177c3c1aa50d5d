import Mathlib.Tactic.Common

/-!
# A view kept by events

A component changes a state of its own and tells its listeners what changed.  A
listener folds the events into a view; the events *explain* a change of the view
when each of them was in order at the moment it is applied, and together they
lead from the one view to the other.

* `Explains` — the events between two views.
* `Explains.append`, `Explains.foldl_eq`, `Explains.legal_at` — how explanations
  compose, and what they say of the fold and of each event.
-/

namespace Events

variable {V E : Type} {legal : V → E → Prop} {apply : V → E → V}

/-- The events lead from the first view to the second, each of them in order
where it stands. -/
inductive Explains (legal : V → E → Prop) (apply : V → E → V) : V → List E → V → Prop
  | nil (v : V) : Explains legal apply v [] v
  | cons {v v' : V} {e : E} {es : List E} (head : legal v e) (tail : Explains legal apply (apply v e) es v') :
      Explains legal apply v (e :: es) v'

theorem Explains.single {v : V} {e : E} (h : legal v e) : Explains legal apply v [e] (apply v e) :=
  .cons h (.nil _)

theorem Explains.head {v v' : V} {e : E} {es : List E} (h : Explains legal apply v (e :: es) v') :
    legal v e := by
  cases h with
  | cons head _ => exact head

theorem Explains.append {v v' v'' : V} {es es' : List E} (h : Explains legal apply v es v')
    (h' : Explains legal apply v' es' v'') : Explains legal apply v (es ++ es') v'' := by
  induction h with
  | nil v => exact h'
  | cons head _ ih => exact .cons head (ih h')

/-- A listener that folds the events arrives at the second view. -/
theorem Explains.foldl_eq {v v' : V} {es : List E} (h : Explains legal apply v es v') :
    es.foldl apply v = v' := by
  induction h with
  | nil v => rfl
  | cons _ _ ih => exact ih

/-- Every event is in order for a listener that folded those before it. -/
theorem Explains.legal_at {v v' : V} {es before after : List E} {e : E}
    (h : Explains legal apply v es v') (hsplit : es = before ++ e :: after) :
    legal (before.foldl apply v) e := by
  induction h generalizing before with
  | nil v => simp at hsplit
  | cons head _ ih =>
    cases before with
    | nil =>
      obtain ⟨rfl, -⟩ := List.cons.inj hsplit
      exact head
    | cons b before =>
      obtain ⟨rfl, rest⟩ := List.cons.inj hsplit
      exact ih rest

end Events
