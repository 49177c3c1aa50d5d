import ClusterNats.Codec.Subjects
import ClusterNats.Kv.Counter
import ClusterNats.Kv.Requests

/-!
# Subjects never mix

A bucket holds data records, index records and the index state.  A reader of
subjects tells them apart, and a call writes the subjects of its own key only.

* `IsIndexSubject` — an index record or the index state.
* `Only` — a request writes no subject but some.
* `removeDead_only`, `settleLegacy_only` — a sweep's work on an index subject.
* `subjects_apart` — the subjects never mix.
-/

namespace ClusterNats

open Conc

/-- The subject of an index record or of the index state. -/
def IsIndexSubject (subject : Bytes) : Prop :=
  subject = indexStateKey ∨ ∃ key, subject = indexKey key

theorem indexKey_ne_indexStateKey (k : String) : indexKey k ≠ indexStateKey := by
  rw [indexKey_cons]
  intro h
  have hbyte := congrArg (fun l : Bytes => l[1]?) h
  exact absurd hbyte (by simp [indexToken]; decide)

/-! ## What reads a subject -/

theorem IsIndexSubject.isIndexKey {s : Bytes} (h : IsIndexSubject s) : isIndexKey s = true := by
  rcases h with rfl | ⟨k, rfl⟩
  · rfl
  · exact isIndexKey_indexKey k

theorem IsIndexSubject.decodeKey {s : Bytes} (h : IsIndexSubject s) : decodeKey s = none := by
  rcases h with rfl | ⟨k, rfl⟩
  · decide
  · exact decodeKey_indexKey k

/-- The key of an index subject is the one the subject was made from. -/
theorem IsIndexSubject.dataKey {s : Bytes} (h : IsIndexSubject s) {k : String}
    (hk : dataKey s = some k) : s = indexKey k := by
  rcases h with rfl | ⟨k', rfl⟩
  · have hnone : ClusterNats.dataKey indexStateKey = none := by decide
    exact absurd (hnone.symm.trans hk) (by simp)
  · rw [dataKey_indexKey] at hk
    rw [Option.some.inj hk]

/-- A record scan takes no key from an index subject. -/
theorem IsIndexSubject.pageKey {d : Delivered} (h : IsIndexSubject d.subject) (pre : String) :
    pageKey pre false d = none := by
  simp [ClusterNats.pageKey, h.decodeKey]

/-- A backfill takes no key from an index subject. -/
theorem IsIndexSubject.backfillKey {d : Delivered} (h : IsIndexSubject d.subject) (now : UInt64) :
    backfillKey now d = none := by
  simp [ClusterNats.backfillKey, h.isIndexKey]

/-! ## What writes a subject -/

/-- A request writes no subject but those of `P`. -/
def Only (P : Bytes → Prop) (r : Req) : Prop := ∀ s, ¬ P s → r.touches s = false

theorem only_publish {P : Bytes → Prop} {subject : Bytes} (h : P subject) (headers : HeaderMap)
    (payload : Bytes) (expected : Option Nat) : Only P (.publish subject headers payload expected) := by
  intro s hs
  simp only [Req.touches, decide_eq_false_iff_not]
  rintro rfl
  exact hs h

theorem only_purge {P : Bytes → Prop} {subject : Bytes} (h : P subject) (keep : Option Nat) :
    Only P (.purge subject keep) := by
  intro s hs
  simp only [Req.touches, decide_eq_false_iff_not]
  rintro rfl
  exact hs h

theorem only_read {P : Bytes → Prop} (r : Req) (h : r.isWrite = false) : Only P r := by
  intro s _
  cases r <;> simp_all [Req.touches, Req.isWrite]

/-- The calls on a key write its two subjects. -/
theorem asksOf_only (key : String) : AsksOf key (Only fun s => s = encodeKey key ∨ s = indexKey key) where
  read := only_read
  value _ _ _ := only_publish (.inl rfl) _ _ _
  index _ _ _ := only_publish (.inr rfl) _ _ _
  marker := only_publish (.inl rfl) _ _ _
  purge := only_purge (.inr rfl)

/-- The upkeep of a key's index record writes that record. -/
theorem asksIndex_only (key : String) : AsksIndex key (Only (· = indexKey key)) where
  read := only_read
  index _ _ _ := only_publish (P := (· = indexKey key)) rfl _ _ _
  purge := only_purge (P := (· = indexKey key)) rfl

/-- **A sweep removes an index record as what it is**: the removal writes that
subject only. -/
theorem removeDead_only {s : Bytes} (h : IsIndexSubject s) (sequence : Nat) :
    (removeDead s sequence).Requests (Only (· = s)) := by
  rw [removeDead, if_pos h.isIndexKey]
  refine Prog.Requests.bind ⟨only_purge (P := (· = s)) rfl _, fun _ => Prog.Requests.ofExcept⟩ fun _ => ?_
  cases hk : dataKey s with
  | none => trivial
  | some k =>
    have hs := h.dataKey hk
    subst hs
    exact requests_reindexIfLive (asksIndex_only k)

/-- A sweep settles an index record of an older build as what it is. -/
theorem settleLegacy_only {s : Bytes} (h : IsIndexSubject s) (sequence : Nat) :
    (settleLegacy s sequence).Requests (Only (· = s)) := by
  refine Prog.Requests.bind (p := lastRecord s) ⟨only_read _ rfl, fun _ => trivial⟩ fun x => ?_
  refine Prog.Requests.bind Prog.Requests.ofExcept fun record => ?_
  split
  · trivial
  · refine (requests_isExpired only_read _).bind fun expired => ?_
    split
    · exact (removeDead_only h sequence).bind fun _ => trivial
    · refine (requests_write (only_publish (P := (· = s)) rfl _ _ _)).bind fun written => ?_
      rw [h.decodeKey]
      split <;> trivial

/-- **Data, index and index-state subjects never mix.**  The decoders tell them
apart; a record scan returns no index record as a key; a sweep's work on one
writes no other subject; and a call writes its own key's subjects only. -/
theorem subjects_apart :
    (∀ k k', encodeKey k ≠ indexKey k' ∧ encodeKey k ≠ indexStateKey ∧
      isIndexKey (encodeKey k) = false ∧ dataKey (encodeKey k) = none) ∧
    (∀ s, IsIndexSubject s → decodeKey s = none ∧ isIndexKey s = true ∧
      (∀ d : Delivered, d.subject = s →
        (∀ pre, pageKey pre false d = none) ∧ ∀ now, backfillKey now d = none) ∧
      ∀ sequence, (removeDead s sequence).Requests (Only (· = s)) ∧
        (settleLegacy s sequence).Requests (Only (· = s))) ∧
    ∀ (api : CounterApi) (op : Op) k, op.key? = some k → (op.program api).Requests fun r : Req =>
      r.touches indexStateKey = false ∧
        ∀ k', k' ≠ k → r.touches (indexKey k') = false ∧ r.touches (encodeKey k') = false := by
  refine ⟨fun k k' => ⟨encodeKey_ne_indexKey k k', encodeKey_ne_indexStateKey k,
    isIndexKey_encodeKey k, dataKey_encodeKey k⟩, fun s hs => ⟨hs.decodeKey, hs.isIndexKey, ?_,
    fun sequence => ⟨removeDead_only hs sequence, settleLegacy_only hs sequence⟩⟩, ?_⟩
  · rintro d rfl
    exact ⟨hs.pageKey, hs.backfillKey⟩
  · intro api op k hop
    refine Prog.Requests.mono (fun r hr => ⟨hr _ ?_, fun k' hk' => ⟨hr _ ?_, hr _ ?_⟩⟩)
      (requests_keyed (asksOf_only k) api hop)
    · rintro (h | h)
      · exact encodeKey_ne_indexStateKey k h.symm
      · exact indexKey_ne_indexStateKey k h.symm
    · rintro (h | h)
      · exact encodeKey_ne_indexKey k k' h.symm
      · exact hk' (indexKey_injective h)
    · rintro (h | h)
      · exact hk' (encodeKey_injective h)
      · exact encodeKey_ne_indexKey k' k h

/-- The index record of `a:b`, and a put of `a`. -/
theorem subjects_apart_put : decodeKey (indexKey "a:b") = none ∧
    ((Op.put "a" [1] none).program decimalCounters).Requests fun r : Req =>
      r.touches indexStateKey = false ∧
        ∀ k', k' ≠ "a" → r.touches (indexKey k') = false ∧ r.touches (encodeKey k') = false :=
  ⟨(subjects_apart.2.1 (indexKey "a:b") (.inr ⟨"a:b", rfl⟩)).1,
    subjects_apart.2.2 decimalCounters (.put "a" [1] none) "a" rfl⟩

end ClusterNats
