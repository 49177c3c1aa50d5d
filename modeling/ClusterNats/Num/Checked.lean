import Mathlib.Tactic.Common
import Mathlib.Tactic.NormNum.Pow

/-!
# Arithmetic within a type

An integer type is the range of its values.  The result of an operation is the
exact one where the type has it; elsewhere a build with overflow checks stops,
and a cast changes the value.

* `Range` — the values of an integer type.
* `Range.fit` — the exact result of an operation, when the type has it.
* `fit_eq_some`, `isSome_fit`, `fit_bind` — when it has it.
-/

namespace Checked

/-- The values of an integer type. -/
structure Range where
  min : Int
  max : Int
  deriving DecidableEq, Repr

def u32 : Range := ⟨0, 4294967295⟩

def u64 : Range := ⟨0, 18446744073709551615⟩

def i32 : Range := ⟨-2147483648, 2147483647⟩

def i64 : Range := ⟨-9223372036854775808, 9223372036854775807⟩

/-- Is a number a value of the type? -/
def Range.Has (r : Range) (x : Int) : Prop := r.min ≤ x ∧ x ≤ r.max

instance (r : Range) (x : Int) : Decidable (r.Has x) := inferInstanceAs (Decidable (_ ∧ _))

/-- The exact result of an operation or a cast, when the type has it. -/
def Range.fit (r : Range) (x : Int) : Option Int := if r.Has x then some x else none

variable {r : Range} {x y : Int} {α β : Type}

theorem some_bind (a : α) (f : α → Option β) : (some a >>= f) = f a := rfl

theorem fit_eq_some : r.fit x = some y ↔ r.Has x ∧ x = y := by
  unfold Range.fit
  split <;> simp_all

theorem isSome_fit : (r.fit x).isSome = true ↔ r.Has x := by
  unfold Range.fit
  split <;> simp_all

theorem fit_of_has (h : r.Has x) : r.fit x = some x := if_pos h

/-- A result that the type has is gone on with. -/
theorem fit_bind (h : r.Has x) (f : Int → Option α) : (r.fit x >>= f) = f x := by
  rw [fit_of_has h]
  rfl

theorem isSome_fit_bind {f : Int → Option α} :
    (r.fit x >>= f).isSome = true ↔ r.Has x ∧ (f x).isSome = true := by
  by_cases h : r.Has x
  · simp [fit_bind h, h]
  · simp [Range.fit, h]

end Checked
