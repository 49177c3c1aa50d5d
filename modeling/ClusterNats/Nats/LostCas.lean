import ClusterNats.Nats.Bucket

/-!
# The two codes of a lost compare-and-set

* `Recoded` — the answer to one write under either code.
* `recoded_ok`, `recoded_unanswered`, `recoded_lostCas` — the answers a server
  gives.
-/

namespace ClusterNats

/-- The answer to a write by a server before 2.14, and by one from 2.14 on. -/
def Recoded {α : Type} (x x' : Except PublishError α) : Prop :=
  (x = x' ∧ ∀ text, x ≠ .error ⟨some .streamWrongLastSequence, text⟩) ∨
    ∃ text, x = .error ⟨some .streamWrongLastSequence, text⟩ ∧
      x' = .error ⟨some .streamWrongLastSequenceConstant, text⟩

theorem recoded_ok {α : Type} (a : α) : Recoded (.ok a) (.ok a) := .inl ⟨rfl, fun _ h => by cases h⟩

/-- A write that was not answered. -/
theorem recoded_unanswered {α : Type} (reason : String) :
    Recoded (.error ⟨none, reason⟩ : Except PublishError α) (.error ⟨none, reason⟩) :=
  .inl ⟨rfl, fun _ h => by cases h⟩

/-- The error of a lost compare-and-set before 2.14, and from 2.14 on. -/
theorem recoded_lostCas {α : Type} (text : String) :
    Recoded (.error ⟨some (lostCasCode false), text⟩ : Except PublishError α)
      (.error ⟨some (lostCasCode true), text⟩) := .inr ⟨text, rfl, rfl⟩

end ClusterNats
