import ClusterNats.Log.SubjectLog

/-!
# Reading a log that changes

A reader is handed the records of a log in sequence order, each with the count
of those that were still to come, and reads them later, up to the first one that
nothing was to come after.  Meanwhile the log changes.  What the reader can rely
on is that it does not stop before a record that stays.

* `SubjectLog.first_cases` — what is handed next, beside a record that is still to come.
* `Reaches` — a reader of what it was handed comes to a good record, or to the
  end of it with the rest still to come.
* `Reaches.mono`, `Reaches.concat`, `Reaches.exists` — how a reader goes on.
-/

/-- What is handed next is the record itself, or the record is one of those
still to come after it. -/
theorem SubjectLog.first_cases {κ β : Type} [DecidableEq κ] {s : SubjectLog κ β} {p : κ → Bool}
    {k : κ} {n : Nat} {m m' : LogRecord κ β} (h : s.first p n = some m') (hm : s.last k = some m)
    (hp : p k = true) (hn : n ≤ m.seq) :
    m' = m ∨ s.pending p (m'.seq + 1) ≠ 0 ∧ m'.seq + 1 ≤ m.seq := by
  have hmem := mem_of_last hm
  have hsel : p m.subject = true := by rwa [subject_of_last hm]
  have hle := first_le h hmem hsel hn
  rcases Nat.lt_or_eq_of_le hle with hlt | heq
  · refine .inr ⟨fun hzero => ?_, hlt⟩
    have hbefore := pending_eq_zero.1 hzero m hmem hsel
    omega
  · exact .inl (eq_of_seq_eq (mem_of_first h).1 hmem heq)

section Reaches

variable {δ : Type} {good good' : δ → Prop} {pending : δ → Nat} {rest rest' : Prop} {d : δ}
  {buffer : List δ}

/-- A reader of `buffer` comes to a good record, or to the end of the buffer with
`rest` still to come: nothing that it reads before is the last. -/
def Reaches (good : δ → Prop) (pending : δ → Nat) (rest : Prop) : List δ → Prop
  | [] => rest
  | d :: buffer => good d ∨ pending d ≠ 0 ∧ Reaches good pending rest buffer

theorem Reaches.mono (h : Reaches good pending rest buffer)
    (hgood : ∀ d ∈ buffer, good d → good' d) (hrest : rest → rest') :
    Reaches good' pending rest' buffer := by
  induction buffer with
  | nil => exact hrest h
  | cons d buffer ih =>
    refine h.imp (hgood d List.mem_cons_self) (And.imp_right fun h => ih h ?_)
    exact fun d' hd' => hgood d' (List.mem_cons_of_mem _ hd')

/-- One more record is handed to the reader. -/
theorem Reaches.concat (h : Reaches good pending rest buffer)
    (hd : rest → good d ∨ pending d ≠ 0 ∧ rest') : Reaches good pending rest' (buffer ++ [d]) := by
  induction buffer with
  | nil => exact hd h
  | cons d' buffer ih => exact h.imp_right (And.imp_right ih)

/-- What a reader comes to. -/
theorem Reaches.exists (h : Reaches good pending rest buffer) :
    (∃ d ∈ buffer, good d) ∨ rest := by
  induction buffer with
  | nil => exact .inr h
  | cons d buffer ih =>
    rcases h with hgood | ⟨-, h⟩
    · exact .inl ⟨d, List.mem_cons_self, hgood⟩
    · exact (ih h).imp_left fun ⟨d', hd', hgood⟩ => ⟨d', List.mem_cons_of_mem _ hd', hgood⟩

end Reaches
