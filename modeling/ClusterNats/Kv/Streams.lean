import ClusterNats.Kv.Calls
import ClusterNats.Kv.Requests
import ClusterNats.Kv.Counter
import ClusterNats.Conc.Trace

/-!
# Record streams that stop

A page of a listing and a backfill read a stream of records, which may stall,
fail or end at any point.  Their caller takes a page without a `next`, or a
backfill that returned, for the end of the bucket.

* `StreamLog`, `streamLog` — what a call has read of its stream.
* `pageScan_outcomes`, `backfillScan_outcomes` — what the loops know when they
  stop.
* `ReachesLastKey`, `StreamLog.Exhausted` — the bucket was read to its end.
* `streams_exhausted` — in every run, when a call that says so has read to the
  end.
-/

namespace ClusterNats

open Conc

/-! ## What a call has read -/

/-- What the answers to a call say of its streams. -/
structure StreamLog where
  /-- The last record read. -/
  last : Option Delivered := none
  /-- The records pending at each consumer it opened. -/
  opened : List Nat := []
  /-- The subject lists it read. -/
  subjects : List (List Bytes) := []
  /-- A stream ended. -/
  ended : Bool := false
  deriving DecidableEq, Repr

/-- One more answer. -/
def StreamLog.add : Answered kvSig → StreamLog → StreamLog
  | ⟨.nextRecord, x⟩, s =>
    match (x : NextRecord) with
    | .record r => { s with last := some r }
    | .ended => { s with ended := true }
    | _ => s
  | ⟨.createConsumer _ _, x⟩, s =>
    match (x : Except String Nat) with
    | .ok pending => { s with opened := pending :: s.opened }
    | .error _ => s
  | ⟨.infoWithSubjects _, x⟩, s =>
    match (x : Except String (List Bytes)) with
    | .ok subjects => { s with subjects := subjects :: s.subjects }
    | .error _ => s
  | _, s => s

/-- What a call has read, from its answers, the latest first. -/
def streamLog (tr : List (Answered kvSig)) : StreamLog := tr.foldr StreamLog.add {}

theorem streamLog_cons (a : Answered kvSig) (tr : List (Answered kvSig)) :
    streamLog (a :: tr) = (streamLog tr).add a := rfl

/-- A request that has nothing to do with streams. -/
def Req.Aside : Req → Prop
  | .nextRecord => False
  | .createConsumer .. => False
  | .infoWithSubjects _ => False
  | _ => True

theorem streamLog_aside {r : Req} (h : r.Aside) (x : Resp r) (tr : List (Answered kvSig)) :
    streamLog (⟨r, x⟩ :: tr) = streamLog tr := by
  cases r with
  | nextRecord => exact absurd h id
  | createConsumer filter start => exact absurd h id
  | infoWithSubjects filter => exact absurd h id
  | _ => rfl

/-- The bucket was read to its end: nothing was pending when the consumer was
opened, or nothing after the last record. -/
def StreamLog.Exhausted (s : StreamLog) : Prop := 0 ∈ s.opened ∨ ∃ r, s.last = some r ∧ r.pending = 0

/-! ## The programs -/

section Programs

variable {α : Type}

/-- What a check of answers asks of a program: from what was read before to what
was read when it stopped. -/
abbrev Kv.Logs (p : Kv α) (tr : List (Answered kvSig))
    (Q : StreamLog → Except ClusterError α → Prop) : Prop :=
  p.Outcomes (fun _ _ => True) (fun tr' x => Q (streamLog tr') x) tr

/-- Requests beside the streams leave what was read. -/
theorem logs_aside {p : Kv α} (h : p.Requests Req.Aside) (tr : List (Answered kvSig)) :
    Kv.Logs p tr fun s _ => s = streamLog tr := by
  have hkeep : ∀ (p : Kv α), p.Requests Req.Aside → ∀ tr', streamLog tr' = streamLog tr →
      Kv.Logs p tr' fun s _ => s = streamLog tr := by
    intro p
    induction p with
    | ret a => exact fun _ tr' htr => htr
    | fail e => exact fun _ tr' htr => htr
    | req r k ih => exact fun hp tr' htr x _ => ih x (hp.2 x) _ ((streamLog_aside hp.1 x tr').trans htr)
    | spawn cap j k ih => exact fun hp => absurd hp id
    | join k ih => exact fun hp => absurd hp id
    | tryJoin k ih => exact fun hp => absurd hp id
    | stuck => exact fun _ _ _ => trivial
  exact hkeep p h tr rfl

/-- Jobs ask for themselves. -/
theorem logs_spawnAll (cap : Nat) (jobs : List Job) {k : Kv α} {tr : List (Answered kvSig)}
    {Q : StreamLog → Except ClusterError α → Prop} (h : Kv.Logs k tr Q) :
    Kv.Logs (spawnAll cap jobs k) tr Q := by
  induction jobs with
  | nil => exact h
  | cons j jobs ih => exact ih

theorem logs_liveEntries (keys : List String) (tr : List (Answered kvSig)) :
    Kv.Logs (liveEntries keys) tr fun s _ => s = streamLog tr := by
  refine logs_spawnAll _ _ fun rs => ?_
  show Kv.Logs (Prog.ofExcept id (collectEntries rs)) tr fun s _ => s = streamLog tr
  cases collectEntries rs with
  | ok entries => exact rfl
  | error e => exact rfl

/-- An opened consumer has something pending. -/
theorem logs_recordConsumer (description : String) (filter : Bytes) (start : Nat)
    (tr : List (Answered kvSig)) : Kv.Logs (recordConsumer description filter start) tr fun s x =>
      (x = .ok true → ∃ pending, pending ≠ 0 ∧
        s = { streamLog tr with opened := pending :: (streamLog tr).opened }) ∧
      (x = .ok false → s = { streamLog tr with opened := 0 :: (streamLog tr).opened }) := by
  intro x _
  match x with
  | .error e => exact ⟨nofun, nofun⟩
  | .ok pending =>
    by_cases hpending : pending = 0
    · subst hpending
      exact ⟨nofun, fun _ => rfl⟩
    · have hseen : streamLog (⟨.createConsumer filter start, Except.ok pending⟩ :: tr) =
          { streamLog tr with opened := pending :: (streamLog tr).opened } := rfl
      simp only [orUnavailable, Prog.ofExcept_ok, Prog.ret_bind, if_neg hpending]
      intro y _
      match y with
      | .error e => exact ⟨nofun, nofun⟩
      | .ok () => exact ⟨fun _ => ⟨pending, hpending, hseen⟩, nofun⟩

/-- Where the loop of a page stands. -/
structure ScanRead (s₀ s : StreamLog) (scan : PageScan) : Prop where
  opened : s.opened = s₀.opened
  subjects : s.subjects = s₀.subjects
  last : scan.lastSequence = s.last.map Delivered.streamSequence
  more : scan.more = s.last.all fun r => decide (0 < r.pending)

/-- The loop of a page stops at a record, or at the end of the stream; an ended
stream leaves the pass open unless no record was read at all. -/
theorem logs_pageScan (pre : String) (indexed : Bool) (limit : Nat) (s₀ : StreamLog) (fuel : Nat) :
    ∀ (scan : PageScan) (tr : List (Answered kvSig)), ScanRead s₀ (streamLog tr) scan →
      (streamLog tr).ended = false → scan.more = true →
      (scan.matched.length < limit ∨ (streamLog tr).last ≠ none) →
      Kv.Logs (pageScan pre indexed limit fuel scan) tr fun s x => ∀ scan', x = .ok scan' →
        ScanRead s₀ s scan' ∧ (s.ended = true → scan'.more = true) ∧
          (s.last = none → s.ended = true) := by
  induction fuel with
  | zero => exact fun _ _ _ _ _ _ => trivial
  | succ fuel ih =>
    intro scan tr hscan hopen hmore hroom
    unfold pageScan
    split
    case isFalse hfull =>
      rintro _ ⟨⟩
      refine ⟨hscan, fun _ => hmore, fun hnone => ?_⟩
      exact absurd hnone (hroom.resolve_left hfull)
    case isTrue =>
      intro x _
      cases x with
      | unreadable e => rintro _ ⟨⟩
      | failed e => rintro _ ⟨⟩
      | record r =>
        have hscan' : ScanRead s₀ (streamLog (⟨.nextRecord, NextRecord.record r⟩ :: tr))
            { matched := scan.matched ++ (pageKey pre indexed r).toList
              lastSequence := some r.streamSequence
              more := decide (0 < r.pending) } := ⟨hscan.opened, hscan.subjects, rfl, rfl⟩
        dsimp only
        split
        case isTrue hmore' => exact ih _ _ hscan' hopen hmore' (.inr (by simp [streamLog_cons, StreamLog.add]))
        case isFalse hdone =>
          rintro _ ⟨⟩
          refine ⟨hscan', fun hended => ?_, fun hnone => absurd hnone (Option.some_ne_none _)⟩
          have hopen' : (streamLog tr).ended = true := hended
          rw [hopen] at hopen'
          cases hopen'
      | ended =>
        rintro _ ⟨⟩
        exact ⟨⟨hscan.opened, hscan.subjects, hscan.last, hscan.more⟩, fun _ => hmore, fun _ => rfl⟩
      | idle =>
        dsimp only
        split
        case isFalse => rintro _ ⟨⟩
        case isTrue hsome =>
          rintro _ ⟨⟩
          refine ⟨hscan, fun _ => hmore, fun hnone => ?_⟩
          have hlast : (streamLog tr).last = none := hnone
          rw [hscan.last, hlast] at hsome
          cases hsome

/-- What the loop of a page returned is the end exactly as its stream says. -/
theorem ScanRead.next_eq_none {s₀ s : StreamLog} {scan : PageScan} (h : ScanRead s₀ s scan)
    {f : Nat → Bytes} : (if scan.more then scan.lastSequence.map f else none) = none ↔
      s.last = none ∨ ∃ r, s.last = some r ∧ r.pending = 0 := by
  rw [h.more, h.last]
  cases s.last with
  | none => simp
  | some r =>
    simp only [Option.all_some, decide_eq_true_eq, Option.map_some, ite_eq_right_iff, reduceCtorEq,
      imp_false, not_lt, Nat.le_zero, false_or, Option.some.injEq, exists_eq_left']

/-- A page over a consumer, by what it has read when it returns. -/
def PageRead (s₀ s : StreamLog) (page : KvPage) : Prop :=
  s.subjects = s₀.subjects ∧
    (page.next = none ↔ s.Exhausted ∨ s.ended = true ∧ s.last = none) ∧
    (s.ended = true → ¬ s.Exhausted)

theorem logs_recordsPage (pre : String) (indexed : Bool) (after limit fuel : Nat) (hlimit : 0 < limit)
    {tr : List (Answered kvSig)} (hfresh : (streamLog tr).opened = [] ∧ (streamLog tr).last = none ∧
      (streamLog tr).ended = false) :
    Kv.Logs (recordsPage pre indexed after limit fuel) tr fun s x => ∀ page, x = .ok page →
      PageRead (streamLog tr) s page := by
  obtain ⟨hopened, hlast, hended⟩ := hfresh
  refine Prog.Outcomes.bind (logs_recordConsumer _ _ _ _) (fun tr₁ opened h₁ => ?_)
    fun _ _ _ _ h => nomatch h
  cases opened with
  | false =>
    have hseen := h₁.2 rfl
    rintro _ ⟨⟩
    refine ⟨by rw [hseen], ?_, ?_⟩
    · simp [hseen, StreamLog.Exhausted]
    · intro h
      rw [hseen, hended] at h
      cases h
  | true =>
    obtain ⟨pending, hpending, hseen⟩ := h₁.1 rfl
    have hstart : ScanRead (streamLog tr₁) (streamLog tr₁) {} := by
      refine ⟨rfl, rfl, ?_, ?_⟩ <;> rw [hseen, hlast] <;> rfl
    have hopen₁ : (streamLog tr₁).ended = false := by rw [hseen, hended]
    have hnopend : 0 ∉ (streamLog tr₁).opened := by
      rw [hseen, hopened]
      simpa using Ne.symm hpending
    refine Prog.Outcomes.bind (logs_pageScan pre indexed limit (streamLog tr₁) fuel {} tr₁ hstart hopen₁ rfl
      (.inl hlimit)) (fun tr₂ scan h₂ => ?_) fun _ _ _ _ h => nomatch h
    obtain ⟨hscan, hmore, hread⟩ := h₂ scan rfl
    refine Prog.Outcomes.bind (logs_liveEntries _ _) (fun tr₃ entries h₃ => ?_)
      fun _ _ _ _ h => nomatch h
    have hsame : streamLog tr₃ = streamLog tr₂ := h₃
    rintro _ ⟨⟩
    rw [hsame]
    have hzero : 0 ∉ (streamLog tr₂).opened := by rwa [hscan.opened]
    refine ⟨by rw [hscan.subjects, hseen], ?_, fun hend hexh => ?_⟩
    · rw [hscan.next_eq_none, StreamLog.Exhausted, or_iff_right hzero]
      constructor
      · rintro (hnone | hend)
        · exact .inr ⟨hread hnone, hnone⟩
        · exact .inl hend
      · rintro (hend | ⟨-, hnone⟩)
        · exact .inr hend
        · exact .inl hnone
    · obtain ⟨r, hr, hpend⟩ := hexh.resolve_left hzero
      have := hmore hend
      rw [hscan.more, hr] at this
      simp [hpend] at this

/-! ## Subject lists -/

/-- The keys a page over the sorted keys still has. -/
def keysAfter (after : Option Bytes) (keys : List String) : List String :=
  match after with
  | some after => keys.dropWhile fun k => ¬ after < bytes k
  | none => keys

/-- A page over a subject list reaches the last key: the cursor stands for a
subject list, and no more keys are left after it than the page may have. -/
def ReachesLastKey (pre : String) (cursor : Option Bytes) (limit : Nat) (s : StreamLog) : Prop :=
  ∃ after max, (cursor = none ∧ after = none ∧ max = some subjectListingMax ∨
      ∃ a, cursor = some (115 :: a) ∧ after = some a ∧ max = none) ∧
    ∃ subjects ∈ s.subjects, ∃ keys, collectKeys pre max [] subjects = some keys ∧
      (keysAfter after (keys.mergeSort keyLe)).length ≤ Nat.max limit 1

theorem collectKeys_unbounded (pre : String) (subjects : List Bytes) :
    ∀ keys, ∃ keys', collectKeys pre none keys subjects = some keys' := by
  induction subjects with
  | nil => exact fun keys => ⟨keys, rfl⟩
  | cons subject subjects ih =>
    intro keys
    unfold collectKeys
    split
    · rw [if_neg (by simp)]
      exact ih _
    · exact ih _

theorem logs_indexedKeys (pre : String) (max : Option Nat) (tr : List (Answered kvSig)) :
    Kv.Logs (indexedKeys pre max) tr fun s x => ∀ found, x = .ok found → ∃ subjects,
      s = { streamLog tr with subjects := subjects :: (streamLog tr).subjects } ∧
      found = (collectKeys pre max [] subjects).map fun keys => keys.mergeSort keyLe := by
  intro x _
  match x with
  | .error e => exact fun _ h => nomatch h
  | .ok subjects =>
    rintro _ ⟨⟩
    exact ⟨subjects, rfl, rfl⟩

theorem logs_subjectsPage (keys : List String) (after : Option Bytes) {limit : Nat} (hlimit : 0 < limit)
    (tr : List (Answered kvSig)) : Kv.Logs (subjectsPage keys after limit) tr fun s x =>
      s = streamLog tr ∧
        ∀ page, x = .ok page → (page.next = none ↔ (keysAfter after keys).length ≤ limit) := by
  refine Prog.Outcomes.bind (logs_liveEntries _ _) (fun tr₁ entries h₁ => ?_) fun tr₁ e h₁ => ⟨h₁, nofun⟩
  refine ⟨h₁, ?_⟩
  rintro _ ⟨⟩
  show (if ((keysAfter after keys).take limit).length < (keysAfter after keys).length then
    ((keysAfter after keys).take limit).getLast?.map fun k => 115 :: bytes k else none) = none ↔ _
  rw [List.length_take]
  split
  case isTrue hless =>
    have hne : (keysAfter after keys).take limit ≠ [] := by
      intro hnil
      have hlen := congrArg List.length hnil
      rw [List.length_take, List.length_nil] at hlen
      omega
    rw [List.getLast?_eq_some_getLast hne]
    simp only [Option.map_some, reduceCtorEq, false_iff]
    omega
  case isFalse hall =>
    simp only [true_iff]
    omega

/-! ## Pages -/

/-- A page that ends a pass was read to the end exactly when its stream did not
end before the first record. -/
def EndsRightly (pre : String) (cursor : Option Bytes) (limit : Nat) (s : StreamLog) (page : KvPage) :
    Prop :=
  (page.next = none → s.Exhausted ∨ ReachesLastKey pre cursor limit s) ↔
    ¬ (s.ended = true ∧ s.last = none)

theorem PageRead.endsRightly {s₀ s : StreamLog} {page : KvPage} (h : PageRead s₀ s page) {pre : String}
    {cursor : Option Bytes} {limit : Nat} (hno : ¬ ReachesLastKey pre cursor limit s) :
    EndsRightly pre cursor limit s page := by
  obtain ⟨-, hnext, hended⟩ := h
  constructor
  · intro hright hend
    rcases hright (hnext.2 (.inr hend)) with hexh | hlast
    · exact hended hend.1 hexh
    · exact hno hlast
  · intro hno' hnone
    exact .inl ((hnext.1 hnone).resolve_right hno')

/-- A page over a subject list opens no stream. -/
theorem logs_subjectsList {pre : String} {cursor after : Option Bytes} {max : Option Nat} {limit : Nat}
    (hcursor : cursor = none ∧ after = none ∧ max = some subjectListingMax ∨
      ∃ a, cursor = some (115 :: a) ∧ after = some a ∧ max = none)
    {subjects : List Bytes} {keys : List String} (hkeys : collectKeys pre max [] subjects = some keys)
    {tr : List (Answered kvSig)} (htr : streamLog tr = { subjects := [subjects] }) :
    Kv.Logs (subjectsPage (keys.mergeSort keyLe) after (Nat.max limit 1)) tr fun s x =>
      ∀ page, x = .ok page → EndsRightly pre cursor limit s page := by
  refine (logs_subjectsPage _ after (Nat.lt_of_lt_of_le Nat.zero_lt_one (Nat.le_max_right _ _)) tr).conseq ?_
  rintro tr₁ x ⟨h₁, hpage⟩ page hx
  rw [h₁, htr]
  refine iff_of_true (fun hnone => .inr ?_) (by simp)
  exact ⟨after, max, hcursor, subjects, by simp, keys, hkeys, (hpage page hx).1 hnone⟩

theorem logs_listPage (pre : String) (cursor : Option Bytes) (limit fuel : Nat) :
    Kv.Logs (listPage pre cursor limit fuel) [] fun s x => ∀ page, x = .ok page →
      EndsRightly pre cursor limit s page := by
  have hlimit : 0 < Nat.max limit 1 := Nat.lt_of_lt_of_le Nat.zero_lt_one (Nat.le_max_right _ _)
  have hrecords : ∀ (indexed : Bool) (after : Nat) (tr : List (Answered kvSig)), streamLog tr = {} →
      Kv.Logs (recordsPage pre indexed after (Nat.max limit 1) fuel) tr fun s x =>
        ∀ page, x = .ok page → EndsRightly pre cursor limit s page := by
    intro indexed after tr htr
    refine (logs_recordsPage pre indexed after _ fuel hlimit (by simp [htr])).conseq ?_
    intro tr₁ x h₁ page hx
    refine (h₁ page hx).endsRightly ?_
    rintro ⟨-, -, -, subjects, hmem, -⟩
    rw [(h₁ page hx).1, htr] at hmem
    cases hmem
  unfold listPage
  split
  · rename_i after
    refine Prog.Outcomes.bind (logs_indexedKeys pre none []) (fun tr₁ found h₁ => ?_)
      fun _ _ _ _ h => nomatch h
    obtain ⟨subjects, hlog, hfound⟩ := h₁ found rfl
    obtain ⟨keys, hkeys⟩ := collectKeys_unbounded pre subjects []
    rw [hkeys] at hfound
    rw [hfound]
    exact logs_subjectsList (.inr ⟨after, rfl, rfl, rfl⟩) hkeys hlog
  · split
    · exact hrecords _ _ [] rfl
    · exact fun _ h => nomatch h
  · intro ready _
    simp only [Prog.bind]
    split
    · refine Prog.Outcomes.bind (logs_indexedKeys pre (some subjectListingMax) _) (fun tr₁ found h₁ => ?_)
        fun _ _ _ _ h => nomatch h
      obtain ⟨subjects, hlog, hfound⟩ := h₁ found rfl
      cases hkeys : collectKeys pre (some subjectListingMax) [] subjects with
      | some keys =>
        rw [hkeys] at hfound
        subst hfound
        exact logs_subjectsList (.inl ⟨rfl, rfl, rfl⟩) hkeys hlog
      | none =>
        rw [hkeys] at hfound
        subst hfound
        intro indexed _
        have htr : streamLog (⟨Req.indexReady, indexed⟩ :: tr₁) = { subjects := [subjects] } := hlog
        refine (logs_recordsPage pre indexed 0 _ fuel hlimit (by simp [htr])).conseq ?_
        intro tr₂ x h₂ page hx
        refine (h₂ page hx).endsRightly ?_
        rintro ⟨after, max, hcursor, subjects', hmem, keys, hkeys', -⟩
        rw [(h₂ page hx).1, htr, List.mem_singleton] at hmem
        obtain ⟨-, -, rfl⟩ | ⟨a, ha, -⟩ := hcursor
        · rw [hmem, hkeys] at hkeys'
          cases hkeys'
        · cases ha
    · intro indexed _
      exact hrecords _ _ _ rfl

/-! ## Backfills -/

/-- The loop of a backfill stops at the last record, or at the end of the
stream. -/
theorem logs_backfillScan (now : UInt64) (opened : List Nat) (fuel : Nat) :
    ∀ (b : Backfill) (tr : List (Answered kvSig)), (streamLog tr).opened = opened →
      (streamLog tr).ended = false → (∀ r, (streamLog tr).last = some r → r.pending ≠ 0) →
      Kv.Logs (backfillScan now fuel b) tr fun s x => ∀ b', x = .ok b' →
        s.opened = opened ∧ ((∃ r, s.last = some r ∧ r.pending = 0) ↔ s.ended = false) := by
  induction fuel with
  | zero => exact fun _ _ _ _ _ => trivial
  | succ fuel ih =>
    intro b tr hopened hopen hmore x _
    match x with
    | .unreadable e => exact fun _ h => nomatch h
    | .failed e => exact fun _ h => nomatch h
    | .idle => exact fun _ h => nomatch h
    | .ended =>
      rintro _ ⟨⟩
      refine ⟨hopened, iff_of_false ?_ (by simp [streamLog_cons, StreamLog.add])⟩
      rintro ⟨r, hr, hpending⟩
      exact hmore r hr hpending
    | .record r =>
      have haside : (backfillRecord now b r).Requests Req.Aside :=
        requests_backfillRecord (fun key => ⟨trivial, fun _ => Prog.Requests.ofExcept⟩) now b r
      refine Prog.Outcomes.bind (logs_aside haside _) (fun tr₁ b₁ h₁ => ?_) fun _ _ _ _ h => nomatch h
      have hlog : streamLog tr₁ = { streamLog tr with last := some r } := h₁
      split
      case isTrue hdone =>
        rintro _ ⟨⟩
        rw [hlog]
        exact ⟨hopened, iff_of_true ⟨r, rfl, hdone⟩ hopen⟩
      case isFalse hmore₁ =>
        refine ih _ _ (by rw [hlog]; exact hopened) (by rw [hlog]; exact hopen) fun r' hr' => ?_
        rw [hlog] at hr'
        rwa [← Option.some.inj hr']

theorem logs_backfillIndex (fuel : Nat) : Kv.Logs (backfillIndex fuel) [] fun s x => ∀ n, x = .ok n →
    (s.Exhausted ↔ s.ended = false) := by
  refine Prog.Outcomes.bind (logs_recordConsumer _ _ _ _) (fun tr₁ opened h₁ => ?_)
    fun _ _ _ _ h => nomatch h
  cases opened with
  | false =>
    have hlog := h₁.2 rfl
    rintro _ ⟨⟩
    rw [hlog]
    exact iff_of_true (.inl (by simp)) rfl
  | true =>
    obtain ⟨pending, hpending, hlog⟩ := h₁.1 rfl
    refine Prog.Outcomes.bind (logs_aside (p := nowUnixSecs) ⟨trivial, fun _ => trivial⟩ tr₁)
      (fun tr' now h' => ?_) fun _ _ _ _ h => nomatch h
    have hlog' : streamLog tr' = { opened := [pending] } := h'.trans hlog
    refine Prog.Outcomes.bind (logs_backfillScan now [pending] fuel (0, []) _ (by rw [hlog'])
      (by rw [hlog']) (by rw [hlog']; exact nofun)) (fun tr₂ b h₂ => ?_) fun _ _ _ _ h => nomatch h
    obtain ⟨hopened, hiff⟩ := h₂ b rfl
    refine Prog.Outcomes.bind (logs_aside (requests_indexAllDone b.2) _) (fun tr₃ _ h₃ => ?_)
      fun _ _ _ _ h => nomatch h
    have hsame : streamLog tr₃ = streamLog tr₂ := h₃
    rintro _ ⟨⟩
    rw [hsame, ← hiff, StreamLog.Exhausted, hopened]
    simp [Ne.symm hpending]

end Programs

/-! ## Runs -/

/-- What a finished page or backfill owes, by what it read. -/
def StreamsRight (op : Op) (tr : List (Answered kvSig)) (x : Except ClusterError Reply) : Prop :=
  match op with
  | .listPage pre cursor limit _ => ∀ page, x = .ok (.page page) →
      EndsRightly pre cursor limit (streamLog tr) page
  | .backfillIndex _ => ∀ n, x = .ok (.indexed n) →
      ((streamLog tr).Exhausted ↔ (streamLog tr).ended = false)
  | _ => True

theorem streamsRight_op (api : CounterApi) (op : Op) :
    (op.program api).Outcomes (fun _ _ => True) (StreamsRight op) [] := by
  cases op with
  | listPage pre cursor limit fuel =>
    refine (logs_listPage pre cursor limit fuel).map fun tr x h page hx => ?_
    cases x with
    | error e => cases hx
    | ok page' =>
      obtain rfl : page' = page := Reply.page.inj (Except.ok.inj hx)
      exact h page' rfl
  | backfillIndex fuel =>
    refine (logs_backfillIndex fuel).map fun tr x h n hx => ?_
    cases x with
    | error e => cases hx
    | ok n' => exact h n' rfl
  | _ => exact Prog.outcomes_of_forall (fun _ _ => trivial) _ _

/-- **When a call that says so has read to the end.**  In any run, whatever
stalls, fails or ends: a page without a `next` was read to the end of its
records or its subject list, and a backfill that returned to the end of the
records, exactly when the stream of the page did not end before its first
record, and the stream of the backfill did not end at all. -/
theorem streams_exhausted (api : CounterApi) (s₀ : Server) (cs : List KvChoice) (w : KvWorld)
    (hrun : World.run (kvSystem api) (KvWorld.start s₀) cs = some w) (t : Nat) (th : KvThread)
    (hth : w.threads[t]? = some th) :
    (∀ pre cursor limit fuel page, th.op = .listPage pre cursor limit fuel →
      th.main.result? = some (.ok (.page page)) →
      ((page.next = none → (streamLog (ownTrace (.main t) w.log)).Exhausted ∨
          ReachesLastKey pre cursor limit (streamLog (ownTrace (.main t) w.log))) ↔
        ¬ ((streamLog (ownTrace (.main t) w.log)).ended = true ∧
          (streamLog (ownTrace (.main t) w.log)).last = none))) ∧
    ∀ fuel n, th.op = .backfillIndex fuel → th.main.result? = some (.ok (.indexed n)) →
      ((streamLog (ownTrace (.main t) w.log)).Exhausted ↔
        (streamLog (ownTrace (.main t) w.log)).ended = false) := by
  have hout : ∀ x, th.main.result? = some x → StreamsRight th.op (ownTrace (.main t) w.log) x :=
    fun x hx => World.run_outcomes (fun _ _ => True) (fun _ => True) (fun _ _ => trivial)
      (fun ths op p hp => by cases Option.some.inj hp; exact streamsRight_op api op)
      (fun c _ => by cases c <;> trivial) hrun hth hx
  constructor
  · intro pre cursor limit fuel page hop hx
    have h := hout _ hx
    rw [hop] at h
    exact h page rfl
  · intro fuel n hop hx
    have h := hout _ hx
    rw [hop] at h
    exact h n rfl

/-- A bucket with one value and no complete index. -/
def oneValue : Server :=
  ⟨SubjectLog.empty.store (encodeKey "k") ⟨[(expiresHeader, renderU64 0)], [1], 0⟩, 0, true, false⟩

/-- A page whose stream is read to the end. -/
def pageRead : List KvChoice :=
  [.start (.listPage "" none 10 5), .act (.main 0) .ok, .act (.main 0) .ok, .act (.main 0) .ok,
    .act (.main 0) .ok, .deliver 0, .act (.main 0) .ok, .act (.main 0) .ok, .act (.job 0 0) .ok,
    .act (.main 0) .ok]

/-- A page read to its end. -/
theorem streams_exhausted_page : ∃ w th,
    World.run (kvSystem decimalCounters) (KvWorld.start oneValue) pageRead = some w ∧
      w.threads[0]? = some th ∧ th.main.result? = some (.ok (.page ⟨[("k", ⟨[1], none⟩)], none⟩)) ∧
      (streamLog (ownTrace (.main 0) w.log)).Exhausted := by
  obtain ⟨w, hrun, th, hth, hx, hended⟩ : ∃ w ∈ World.run (kvSystem decimalCounters)
      (KvWorld.start oneValue) pageRead, ∃ th ∈ w.threads[0]?,
        th.main.result? = some (.ok (.page ⟨[("k", ⟨[1], none⟩)], none⟩)) ∧
          (streamLog (ownTrace (.main 0) w.log)).ended = false ∧
            (streamLog (ownTrace (.main 0) w.log)).subjects = [] := by decide +kernel
  have hop : th.op = .listPage "" none 10 5 :=
    World.run_ops (P := (· = .listPage "" none 10 5)) (by simp [pageRead]) hrun hth
  refine ⟨w, th, hrun, hth, hx, ?_⟩
  rcases ((streams_exhausted decimalCounters oneValue pageRead w hrun 0 th hth).1 _ _ _ _ _ hop hx).2
    (by simp [hended.1]) rfl with h | ⟨-, -, -, subjects, hmem, -⟩
  · exact h
  · rw [hended.2] at hmem
    cases hmem

/-- The streams of a page and of a backfill end before their first record. -/
def endedEarly (op : Op) (before : Nat) : List KvChoice :=
  .start op :: List.replicate before (.act (.main 0) .ok) ++ [.act (.main 0) .ended, .act (.main 0) .ok]

/-- **A bucket with a value is listed as empty**, and its index is called
complete. -/
theorem streams_exhausted_ended :
    (∃ w th, World.run (kvSystem decimalCounters) (KvWorld.start oneValue)
        (endedEarly (.listPage "" none 10 5) 4) = some w ∧ w.threads[0]? = some th ∧
      th.op = .listPage "" none 10 5 ∧ th.main.result? = some (.ok (.page ⟨[], none⟩)) ∧
      ¬ ((streamLog (ownTrace (.main 0) w.log)).Exhausted ∨
        ReachesLastKey "" none 10 (streamLog (ownTrace (.main 0) w.log)))) ∧
    ∃ w th, World.run (kvSystem decimalCounters) (KvWorld.start oneValue)
        ((endedEarly (.backfillIndex 5) 3).dropLast) = some w ∧ w.threads[0]? = some th ∧
      th.op = .backfillIndex 5 ∧ th.main.result? = some (.ok (.indexed 0)) ∧
      ¬ (streamLog (ownTrace (.main 0) w.log)).Exhausted := by
  constructor
  · obtain ⟨w, hrun, th, hth, hx, hlog⟩ : ∃ w ∈ World.run (kvSystem decimalCounters)
        (KvWorld.start oneValue) (endedEarly (.listPage "" none 10 5) 4), ∃ th ∈ w.threads[0]?,
          th.main.result? = some (.ok (.page ⟨[], none⟩)) ∧
            streamLog (ownTrace (.main 0) w.log) = { opened := [1], ended := true } := by
      decide +kernel
    have hop : th.op = .listPage "" none 10 5 :=
      World.run_ops (P := (· = .listPage "" none 10 5)) (by simp [endedEarly]) hrun hth
    refine ⟨w, th, hrun, hth, hop, hx, ?_⟩
    rw [hlog]
    rintro (h | ⟨-, -, -, subjects, hmem, -⟩)
    · simp [StreamLog.Exhausted] at h
    · cases hmem
  · obtain ⟨w, hrun, th, hth, hx, hlog⟩ : ∃ w ∈ World.run (kvSystem decimalCounters)
        (KvWorld.start oneValue) (endedEarly (.backfillIndex 5) 3).dropLast, ∃ th ∈ w.threads[0]?,
          th.main.result? = some (.ok (.indexed 0)) ∧
            streamLog (ownTrace (.main 0) w.log) = { opened := [1], ended := true } := by
      decide +kernel
    have hop : th.op = .backfillIndex 5 :=
      World.run_ops (P := (· = .backfillIndex 5)) (by simp [endedEarly]) hrun hth
    refine ⟨w, th, hrun, hth, hop, hx, ?_⟩
    rw [hlog]
    simp [StreamLog.Exhausted]

end ClusterNats
