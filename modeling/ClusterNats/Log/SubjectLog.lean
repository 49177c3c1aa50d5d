import Mathlib.Tactic.Common
import Mathlib.Data.List.Nodup
import Mathlib.Data.List.Pairwise
import Mathlib.Order.Nat

/-!
# A log that keeps one record per subject

A stream with a history of one: every record has a global sequence number, a
new record of a subject replaces the old one, and sequence numbers are never
used again.  A write may be conditional on the subject's last sequence, a purge
removes the records of a subject up to a bound, and a reader walks the records
in sequence order.

* `SubjectLog` — the records with their invariant (ascending sequences, one
  record per subject, no sequence beyond the last one given out).
* `last`, `store`, `storeIf`, `purge`, `first`, `pending` — the operations.
* `last_store_self`, `last_store_ne`, `last_purge_self`, `last_purge_ne` — what
  each operation does to the last record of a subject.
* `Evolves` — the order in which a log grows old: what is read at a sequence
  stays what was stored at it.
-/

/-- A record of the log. -/
@[ext] structure LogRecord (κ β : Type) where
  subject : κ
  seq : Nat
  body : β
  deriving DecidableEq, Repr

/-- A log with one record per subject. -/
structure SubjectLog (κ β : Type) where
  /-- The records, in sequence order. -/
  records : List (LogRecord κ β)
  /-- The last sequence given out. -/
  lastSeq : Nat
  sorted : records.Pairwise fun a b => a.seq < b.seq
  distinct : (records.map LogRecord.subject).Nodup
  bounded : ∀ m ∈ records, 0 < m.seq ∧ m.seq ≤ lastSeq

namespace SubjectLog

variable {κ β : Type}

/-- The log without a record. -/
def empty : SubjectLog κ β where
  records := []
  lastSeq := 0
  sorted := .nil
  distinct := .nil
  bounded := by simp

/-! ## Reading in sequence order -/

/-- The records from sequence `n` on whose subject `p` selects. -/
def scan (s : SubjectLog κ β) (p : κ → Bool) (n : Nat) : List (LogRecord κ β) :=
  s.records.filter fun m => p m.subject && n ≤ m.seq

/-- The first record from sequence `n` on whose subject `p` selects. -/
def first (s : SubjectLog κ β) (p : κ → Bool) (n : Nat) : Option (LogRecord κ β) :=
  (s.scan p n).head?

/-- How many records from sequence `n` on `p` selects. -/
def pending (s : SubjectLog κ β) (p : κ → Bool) (n : Nat) : Nat := (s.scan p n).length

variable {s t u : SubjectLog κ β} {k k' : κ} {m m' : LogRecord κ β} {b : β}

/-- Records at one sequence are one record. -/
theorem eq_of_seq_eq (h : m ∈ s.records) (h' : m' ∈ s.records) (hseq : m.seq = m'.seq) :
    m = m' := by
  have hsorted : s.records.Pairwise fun a c => a.seq ≠ c.seq :=
    s.sorted.imp fun hac => Nat.ne_of_lt hac
  have hnodup : (s.records.map LogRecord.seq).Nodup := List.pairwise_map.2 hsorted
  exact List.inj_on_of_nodup_map hnodup h h' hseq

theorem mem_scan {p : κ → Bool} {n : Nat} :
    m ∈ s.scan p n ↔ m ∈ s.records ∧ p m.subject = true ∧ n ≤ m.seq := by
  simp [scan]

theorem mem_of_first {p : κ → Bool} {n : Nat} (h : s.first p n = some m) :
    m ∈ s.records ∧ p m.subject = true ∧ n ≤ m.seq :=
  mem_scan.1 (List.mem_of_mem_head? h)

/-- Nothing that `p` selects lies before the first record it selects. -/
theorem first_le {p : κ → Bool} {n : Nat} (h : s.first p n = some m) (hm' : m' ∈ s.records)
    (hp : p m'.subject = true) (hn : n ≤ m'.seq) : m.seq ≤ m'.seq := by
  have hmem : m' ∈ s.scan p n := mem_scan.2 ⟨hm', hp, hn⟩
  have hsorted : (s.scan p n).Pairwise fun a c => a.seq < c.seq := s.sorted.filter _
  unfold first at h
  cases hscan : s.scan p n with
  | nil => rw [hscan] at h; exact absurd h (by simp)
  | cons a l =>
    rw [hscan] at h hmem hsorted
    cases Option.some.inj h
    rcases List.mem_cons.1 hmem with rfl | hl
    · exact le_refl _
    · exact (List.rel_of_pairwise_cons hsorted hl).le

theorem pending_eq_zero {p : κ → Bool} {n : Nat} :
    s.pending p n = 0 ↔ ∀ m ∈ s.records, p m.subject = true → m.seq < n := by
  rw [pending, List.length_eq_zero_iff, List.eq_nil_iff_forall_not_mem]
  simp only [mem_scan, not_and, not_le]

/-! ## Reading and writing by subject -/

variable [DecidableEq κ]

/-- The last record of a subject. -/
def last (s : SubjectLog κ β) (k : κ) : Option (LogRecord κ β) :=
  s.records.find? fun m => m.subject = k

/-- The last sequence of a subject, `0` when it holds nothing. -/
def lastSeqOf (s : SubjectLog κ β) (k : κ) : Nat := (s.last k).elim 0 LogRecord.seq

/-- Store a record: it gets the next sequence and replaces the subject's old
record. -/
def store (s : SubjectLog κ β) (k : κ) (b : β) : SubjectLog κ β where
  records := (s.records.filter fun m => m.subject ≠ k) ++ [⟨k, s.lastSeq + 1, b⟩]
  lastSeq := s.lastSeq + 1
  sorted := by
    refine List.pairwise_append.2 ⟨s.sorted.filter _, List.pairwise_singleton _ _, ?_⟩
    intro a ha c hc
    have hle := (s.bounded a (List.mem_of_mem_filter ha)).2
    rw [List.mem_singleton.1 hc]
    show a.seq < s.lastSeq + 1
    omega
  distinct := by
    rw [List.map_append, List.nodup_append]
    refine ⟨s.distinct.sublist (List.filter_sublist.map _), by simp, ?_⟩
    intro a ha c hc
    obtain ⟨m, hm, rfl⟩ := List.mem_map.1 ha
    rw [List.mem_singleton.1 hc]
    simpa using (List.mem_filter.1 hm).2
  bounded := by
    intro m hm
    rcases List.mem_append.1 hm with hm | hm
    · have hb := s.bounded m (List.mem_of_mem_filter hm)
      exact ⟨hb.1, by omega⟩
    · rw [List.mem_singleton.1 hm]
      exact ⟨Nat.succ_pos _, le_refl _⟩

/-- Store a record if the subject's last sequence is the expected one; `none`
expects nothing in particular. -/
def storeIf (s : SubjectLog κ β) (k : κ) (b : β) (expected : Option Nat) :
    Option (SubjectLog κ β) :=
  if ∀ n ∈ expected, s.lastSeqOf k = n then some (s.store k b) else none

/-- Remove the records of a subject: those below `keep`, or all of them. -/
def purge (s : SubjectLog κ β) (k : κ) (keep : Option Nat) : SubjectLog κ β where
  records := s.records.filter fun m => m.subject ≠ k ∨ ∃ n ∈ keep, n ≤ m.seq
  lastSeq := s.lastSeq
  sorted := s.sorted.filter _
  distinct := s.distinct.sublist (List.filter_sublist.map _)
  bounded := fun m hm => s.bounded m (List.mem_of_mem_filter hm)

/-! ## The last record of a subject -/

theorem mem_of_last (h : s.last k = some m) : m ∈ s.records := List.mem_of_find?_eq_some h

theorem subject_of_last (h : s.last k = some m) : m.subject = k := by
  simpa using List.find?_some h

theorem seq_pos_of_last (h : s.last k = some m) : 0 < m.seq := (s.bounded m (mem_of_last h)).1

theorem seq_le_of_last (h : s.last k = some m) : m.seq ≤ s.lastSeq :=
  (s.bounded m (mem_of_last h)).2

/-- A record of the log is the last one of its subject. -/
theorem last_of_mem (h : m ∈ s.records) : s.last m.subject = some m := by
  obtain ⟨m', hm'⟩ : ∃ m', s.last m.subject = some m' := by
    rw [← Option.isSome_iff_exists, last, List.find?_isSome]
    exact ⟨m, h, by simp⟩
  have hinj := List.inj_on_of_nodup_map s.distinct
  rw [hm', hinj (mem_of_last hm') h (subject_of_last hm')]

@[simp] theorem lastSeq_store : (s.store k b).lastSeq = s.lastSeq + 1 := rfl

@[simp] theorem lastSeq_purge {keep : Option Nat} : (s.purge k keep).lastSeq = s.lastSeq := rfl

@[simp] theorem last_store_self : (s.store k b).last k = some ⟨k, s.lastSeq + 1, b⟩ := by
  refine last_of_mem (m := ⟨k, s.lastSeq + 1, b⟩) (s := s.store k b) ?_
  simp [store]

theorem last_store_ne (h : k' ≠ k) : (s.store k b).last k' = s.last k' := by
  unfold last store
  rw [List.find?_append, List.find?_filter]
  have hnil : ([⟨k, s.lastSeq + 1, b⟩] : List (LogRecord κ β)).find?
      (fun m => decide (m.subject = k')) = none := by
    simpa using Ne.symm h
  rw [hnil, Option.or_none]
  congr 1
  funext m
  by_cases hm : m.subject = k'
  · simp [hm, h]
  · simp [hm]

theorem last_purge_ne {keep : Option Nat} (h : k' ≠ k) : (s.purge k keep).last k' = s.last k' := by
  unfold last purge
  rw [List.find?_filter]
  congr 1
  funext m
  by_cases hm : m.subject = k'
  · simp [hm, h]
  · simp [hm]

/-- A purge keeps the last record of its subject only from `keep` on. -/
theorem last_purge_self {keep : Option Nat} :
    (s.purge k keep).last k = (s.last k).filter fun m => ∃ n ∈ keep, n ≤ m.seq := by
  cases hl : s.last k with
  | none =>
    rw [last, List.find?_eq_none] at hl
    rw [Option.filter_none, last, List.find?_eq_none]
    exact fun m hm => hl m (List.mem_of_mem_filter hm)
  | some m =>
    have hm := mem_of_last hl
    have hk := subject_of_last hl
    by_cases hkeep : ∃ n ∈ keep, n ≤ m.seq
    · have hmem : m ∈ (s.purge k keep).records := List.mem_filter.2 ⟨hm, by simpa using .inr hkeep⟩
      have hlast := last_of_mem hmem
      rw [hk] at hlast
      rw [hlast, Option.filter_some, if_pos (by simpa using hkeep)]
    · rw [Option.filter_some, if_neg (by simpa using hkeep), last, List.find?_eq_none]
      intro m' hm' hk'
      have hk'' : m'.subject = k := by simpa using hk'
      obtain ⟨hmem, hor⟩ := List.mem_filter.1 hm'
      have hmm : m' = m := by
        have hlast := last_of_mem hmem
        rw [hk'', hl] at hlast
        exact (Option.some.inj hlast).symm
      subst hmm
      simp [hk''] at hor
      exact hkeep (by simpa using hor)

@[simp] theorem last_purge_all : (s.purge k none).last k = none := by
  rw [last_purge_self]
  cases s.last k <;> simp

/-- What a purge leaves was there. -/
theorem last_of_last_purge {keep : Option Nat} (h : (s.purge k keep).last k' = some m) :
    s.last k' = some m := by
  by_cases hk : k' = k
  · subst hk
    rw [last_purge_self] at h
    exact (Option.filter_eq_some_iff.1 h).1
  · rwa [last_purge_ne hk] at h

theorem lastSeqOf_eq_zero : s.lastSeqOf k = 0 ↔ s.last k = none := by
  unfold lastSeqOf
  cases h : s.last k with
  | none => simp
  | some m => simpa using Nat.pos_iff_ne_zero.1 (seq_pos_of_last h)

theorem lastSeqOf_of_last (h : s.last k = some m) : s.lastSeqOf k = m.seq := by
  rw [lastSeqOf, h]; rfl

theorem last_of_lastSeqOf {n : Nat} (h : s.lastSeqOf k = n) (hn : n ≠ 0) :
    ∃ m, s.last k = some m ∧ m.seq = n := by
  cases hl : s.last k with
  | none => exact absurd (h.symm.trans (lastSeqOf_eq_zero.2 hl)) hn
  | some m => exact ⟨m, rfl, by rw [← h, lastSeqOf_of_last hl]⟩

theorem storeIf_eq_some {expected : Option Nat} :
    s.storeIf k b expected = some t ↔ (∀ n ∈ expected, s.lastSeqOf k = n) ∧ t = s.store k b := by
  unfold storeIf
  split
  · rename_i h
    rw [Option.some.injEq, eq_comm]
    exact ⟨fun ht => ⟨h, ht⟩, And.right⟩
  · rename_i h
    exact ⟨fun ht => absurd ht (by simp), fun ht => absurd ht.1 h⟩

/-! ## How a log grows old -/

/-- `t` is a later state of the log `s`: sequences only grow, and a record at a
sequence given out before is the record it was. -/
def Evolves (s t : SubjectLog κ β) : Prop :=
  s.lastSeq ≤ t.lastSeq ∧ ∀ k m, t.last k = some m → m.seq ≤ s.lastSeq → s.last k = some m

theorem Evolves.refl (s : SubjectLog κ β) : Evolves s s := ⟨le_refl _, fun _ _ h _ => h⟩

theorem Evolves.trans (h : Evolves s t) (h' : Evolves t u) : Evolves s u :=
  ⟨h.1.trans h'.1, fun k m hm hle => h.2 k m (h'.2 k m hm (hle.trans h.1)) hle⟩

theorem evolves_store : Evolves s (s.store k b) := by
  refine ⟨Nat.le_succ _, fun k' m hm hle => ?_⟩
  by_cases hk : k' = k
  · subst hk
    rw [last_store_self] at hm
    cases Option.some.inj hm
    exact absurd hle (by simp)
  · rwa [last_store_ne hk] at hm

theorem evolves_purge {keep : Option Nat} : Evolves s (s.purge k keep) :=
  ⟨le_refl _, fun _ _ hm _ => last_of_last_purge hm⟩

/-- A record seen at its sequence is still the one at that sequence later on. -/
theorem Evolves.eq_of_seq (h : Evolves s t) (hm : s.last k = some m) (hm' : t.last k = some m')
    (hseq : m'.seq = m.seq) : m' = m := by
  have hle : m'.seq ≤ s.lastSeq := hseq ▸ seq_le_of_last hm
  exact Option.some.inj ((h.2 k m' hm' hle).symm.trans hm)

end SubjectLog
