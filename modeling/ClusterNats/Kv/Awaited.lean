import ClusterNats.Kv.Agreement
import ClusterNats.Log.Reader

/-!
# What a record stream still brings

A scan reads the records of its filter one by one and stops at the first one
that reported nothing pending.  A subject that holds a record which the scan was
not handed is awaited: the scan does not stop before it.

* `Awaited` — the stream still brings a good record of the subject.
* `Awaited.opened`, `Awaited.deliver`, `Awaited.evolve`, `Awaited.next` — a
  stream that is opened, is handed a record, sees the bucket change, and is read.
* `recordConsumer_cases` — how a call opens its stream.
-/

namespace ClusterNats

open Conc

/-- How a consumer hands a record out. -/
def delivered (s : Server) (filter : Bytes) (m : StoredMessage) : Delivered where
  subject := m.subject
  headers := m.body.headers
  streamSequence := m.seq
  pending := s.bucket.pending (subjectMatches filter) (m.seq + 1)
  published := m.body.published

/-- A delivered record is the stored one. -/
structure Delivered.Is (d : Delivered) (m : StoredMessage) : Prop where
  subject : d.subject = m.subject
  sequence : d.streamSequence = m.seq
  headers : d.headers = m.body.headers
  published : d.published = m.body.published

/-- Whoever reads the stream up to a record that nothing was pending after comes
to a good record, if the subject holds one. -/
def Awaited (subject : Bytes) (good : Delivered → Prop) (s : Server) (c : Option Consumer) : Prop :=
  ∃ c' ∈ c, subjectMatches c'.filter subject = true ∧ Reaches good Delivered.pending
    (∃ m, s.bucket.last subject = some m ∧ c'.next ≤ m.seq) c'.buffer

section Awaited

variable {subject filter : Bytes} {good good' : Delivered → Prop} {s s' : Server}
  {c c' : Option Consumer} {m : StoredMessage} {n : Nat}

/-- A stream that starts before the record awaits it. -/
theorem Awaited.opened (hmatches : subjectMatches filter subject = true)
    (hm : s.bucket.last subject = some m) (hn : n ≤ m.seq) :
    Awaited subject good s (some ⟨filter, n, []⟩) :=
  ⟨_, rfl, hmatches, m, hm, hn⟩

theorem Awaited.mono (h : Awaited subject good s c)
    (hgood : ∀ c' ∈ c, ∀ d ∈ c'.buffer, good d → good' d) : Awaited subject good' s c := by
  obtain ⟨c', hc, hmatches, hreaches⟩ := h
  exact ⟨c', hc, hmatches, hreaches.mono (hgood c' hc) id⟩

/-- The stream is handed one more record. -/
theorem Awaited.deliver (h : Awaited subject good s c) (hc : Consumer.deliver s c = some c')
    (hgood : ∀ m filter, s.bucket.last subject = some m → good (delivered s filter m)) :
    Awaited subject good s c' := by
  obtain ⟨c₁, hc₁, hmatches, hreaches⟩ := h
  obtain rfl := Option.mem_def.1 hc₁
  obtain ⟨m', hm', rfl⟩ := Option.map_eq_some_iff.1 hc
  refine ⟨_, rfl, hmatches, hreaches.concat ?_⟩
  rintro ⟨m, hm, hnext⟩
  rcases SubjectLog.first_cases hm' hm hmatches hnext with rfl | ⟨hpending, hle⟩
  · exact .inl (hgood m' c₁.filter hm)
  · exact .inr ⟨hpending, m, hm, hle⟩

/-- The bucket changes, and the subject still holds a record. -/
theorem Awaited.evolve (h : Awaited subject good s c) (hs : s.bucket.Evolves s'.bucket)
    (hm' : s'.bucket.last subject = some m) : Awaited subject good s' c := by
  obtain ⟨c₁, hc₁, hmatches, hreaches⟩ := h
  refine ⟨c₁, hc₁, hmatches, hreaches.mono (fun _ _ => id) ?_⟩
  rintro ⟨m₁, hm₁, hnext⟩
  refine ⟨m, hm', ?_⟩
  rcases Nat.lt_or_ge s.bucket.lastSeq m.seq with hnew | hold
  · have hle := SubjectLog.seq_le_of_last hm₁
    omega
  · have heq := hs.2 subject m hm' hold
    rw [hm₁] at heq
    cases Option.some.inj heq
    exact hnext

/-- The stream is read. -/
theorem Awaited.next {mode : Mode} {x : NextRecord} (h : Awaited subject good s c)
    (hx : nextRecord mode c = some (x, c')) :
    (∃ d, x = .record d ∧ (good d ∨ d.pending ≠ 0 ∧ Awaited subject good s c')) ∨
      (∃ reason, x = .unreadable reason) ∨ (∃ reason, x = .failed reason) ∨
      (x = .idle ∧ mode = .idle) ∨ (x = .ended ∧ mode = .ended) := by
  obtain ⟨c₁, hc₁, hmatches, hreaches⟩ := h
  obtain rfl := Option.mem_def.1 hc₁
  unfold ClusterNats.nextRecord at hx
  split at hx
  · rename_i filter next d buffer heq
    cases Option.some.inj heq
    cases Option.some.inj hx
    refine .inl ⟨d, rfl, hreaches.imp_right fun ⟨hpending, hrest⟩ => ⟨hpending, ?_⟩⟩
    exact ⟨_, rfl, hmatches, hrest⟩
  · cases Option.some.inj hx
    exact .inr (.inl ⟨_, rfl⟩)
  · cases Option.some.inj hx
    exact .inr (.inr (.inl ⟨_, rfl⟩))
  · split at hx
    · cases Option.some.inj hx
      exact .inr (.inr (.inr (.inl ⟨rfl, rfl⟩)))
    · exact absurd hx (by simp)
  · split at hx
    · cases Option.some.inj hx
      exact .inr (.inr (.inr (.inr ⟨rfl, rfl⟩)))
    · exact absurd hx (by simp)
  · exact absurd hx (by simp)

end Awaited

/-- How a consumer is opened. -/
theorem recordConsumer_cases {α : Type} (description : String) (filter : Bytes) (start : Nat)
    (f : Bool → Kv α) : ∃ k : Except String Nat → Kv α,
    recordConsumer description filter start >>= f = .req (.createConsumer filter start) k ∧
      (∀ e, ∃ e', k (.error e) = .fail e') ∧ k (.ok 0) = f false ∧
      ∀ n, n ≠ 0 → ∃ k', k (.ok n) = .req (.messages filter start) k' ∧
        k' (.ok ()) = f true ∧ ∀ e, ∃ e', k' (.error e) = .fail e' := by
  refine ⟨_, rfl, fun e => ⟨_, rfl⟩, rfl, fun n hn => ?_⟩
  simp only [orUnavailable, Prog.ofExcept_ok, Prog.ret_bind, if_neg hn]
  exact ⟨_, rfl, rfl, fun e => ⟨_, rfl⟩⟩

/-- The filter `>` selects every subject. -/
theorem subjectMatches_everything (subject : Bytes) : subjectMatches everything subject = true := by
  have hsplit : everything.splitOn dot = [[62]] := by decide
  rw [subjectMatches, hsplit]
  cases htokens : subject.splitOn dot with
  | nil => exact absurd htokens (List.splitOn_ne_nil dot subject)
  | cons t ts => simp [tokensMatch]

end ClusterNats
