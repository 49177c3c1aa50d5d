import ClusterNats.Codec.Index
import Mathlib.Data.List.Infix

/-!
# The subjects of a key

A key stands under two subjects of a bucket: its data subject, one token, and
its index subject, a token for each part of the key.  Both are keys the server
takes, and a subject tells which of the two it is.

* `isValidKey` — the rule for a key of a JetStream bucket.
* `encodeKey_exact` — a data subject stands for one key, is valid and keeps
  prefixes both ways.
* `prefix_of_tokensMatch`, `prefix_of_matches` — what the filter of a prefix
  selects.
* `indexKey_exact` — an index subject stands for one key, and the filter of a
  prefix that ends at a separator selects the keys under it and no others.
-/

namespace ClusterNats

/-! ## Valid keys -/

/-- The bytes of a JetStream key: `A-Za-z0-9`, `-`, `/`, `_`, `=` and `.`. -/
def isKeyByte (b : UInt8) : Bool :=
  isAlphanumeric b || b == 45 || b == 47 || b == 95 || b == 61 || b == 46

/-- `is_valid_key`: not empty, no `.` at either end, and only those bytes. -/
def isValidKey (key : Bytes) : Bool :=
  if key.isEmpty || key.head? == some dot || key.getLast? == some dot then false
  else key.all isKeyByte

theorem isValidKey_iff {key : Bytes} : isValidKey key = true ↔ key ≠ [] ∧ key.head? ≠ some dot ∧
    key.getLast? ≠ some dot ∧ ∀ b ∈ key, isKeyByte b = true := by
  unfold isValidKey
  split
  · rename_i h
    simp only [Bool.or_eq_true, List.isEmpty_iff, beq_iff_eq] at h
    refine iff_of_false (by simp) fun hvalid => ?_
    rcases h with (h | h) | h
    · exact hvalid.1 h
    · exact hvalid.2.1 h
    · exact hvalid.2.2.1 h
  · rename_i h
    simp only [Bool.or_eq_true, List.isEmpty_iff, beq_iff_eq, not_or] at h
    rw [List.all_eq_true]
    exact ⟨fun hall => ⟨h.1.1, h.1.2, h.2, hall⟩, fun hvalid => hvalid.2.2.2⟩

/-! ## Data subjects -/

theorem bytes_eq_nil {k : String} : bytes k = [] ↔ k = "" := by
  constructor
  · intro h
    exact bytes_injective (h.trans rfl)
  · rintro rfl
    rfl

theorem encodeKey_eq_nil {k : String} : encodeKey k = [] ↔ k = "" := by
  rw [encodeKey, List.flatMap_eq_nil_iff, ← bytes_eq_nil]
  constructor
  · intro h
    by_contra hne
    obtain ⟨b, rest, hb⟩ := List.exists_cons_of_ne_nil hne
    exact escapeByte_ne_nil b (h b (by simp [hb]))
  · intro h b hb
    simp [h] at hb

/-- The escaped text of a key that is not empty is a valid key. -/
theorem isValidKey_encodeKey {k : String} (h : k ≠ "") : isValidKey (encodeKey k) = true := by
  have hdot := dot_not_mem_encodeKey k
  refine isValidKey_iff.2 ⟨mt encodeKey_eq_nil.1 h, ?_, ?_, ?_⟩
  · intro hhead
    exact hdot (List.mem_of_mem_head? hhead)
  · intro hlast
    exact hdot (List.mem_of_mem_getLast? hlast)
  · intro b hb
    rcases encodeKey_alphabet k b hb with hpass | rfl
    · simp only [isPassthrough, Bool.or_eq_true, beq_iff_eq] at hpass
      rcases hpass with ((halpha | rfl) | rfl) | rfl
      · simp [isKeyByte, halpha]
      all_goals decide
    · decide

/-- **Data keys encode exactly.**  Decoding gives the key back, the subject of a
key that is not empty is one valid token, and one subject starts with another
as the keys do. -/
theorem encodeKey_exact :
    (∀ k, decodeKey (encodeKey k) = some k) ∧
    (∀ k, k ≠ "" → isValidKey (encodeKey k) = true ∧ dot ∉ encodeKey k) ∧
    ∀ k p, encodeKey p <+: encodeKey k ↔ bytes p <+: bytes k :=
  ⟨decodeKey_encodeKey, fun k hk => ⟨isValidKey_encodeKey hk, dot_not_mem_encodeKey k⟩,
    fun _ _ => encodeKey_prefix⟩

/-- A key with a separator and a space. -/
theorem encodeKey_exact_separator :
    isValidKey (encodeKey "a:b c") = true ∧ dot ∉ encodeKey "a:b c" :=
  encodeKey_exact.2.1 "a:b c" (by decide)

/-! ## Index subjects -/

/-- What `pushEscaped` writes is of the alphabet without separators. -/
theorem pushEscaped_alphabet (b : UInt8) :
    ∀ c ∈ pushEscaped b, isAlphanumeric c || c == 45 || c == 95 || c == 61 := by
  intro c hc
  unfold pushEscaped at hc
  split at hc
  · rename_i hpass
    rw [List.mem_singleton.1 hc, hpass]
    rfl
  · rcases List.mem_cons.1 hc with rfl | hc
    · decide
    · simp [(hexByte_alphanumeric b c hc).1]

theorem keyTokens_alphabet {k token : Bytes} (h : token ∈ keyTokens k) :
    ∀ c ∈ token, isAlphanumeric c || c == 45 || c == 95 || c == 61 := by
  intro c hc
  rcases List.mem_append.1 h with h | h
  · obtain ⟨g, -, rfl⟩ := List.mem_map.1 h
    obtain ⟨b, -, hb⟩ := List.mem_flatMap.1 hc
    exact pushEscaped_alphabet b c hb
  · split at h
    · rw [List.mem_singleton.1 h] at hc
      simp only [endToken, List.mem_cons, List.not_mem_nil, or_false] at hc
      rcases hc with rfl | rfl <;> decide
    · exact absurd h (by simp)

theorem ne_nil_of_mem_groups {k g : Bytes} (h : g ∈ groups k) : g ≠ [] := by
  induction k generalizing g with
  | nil => exact absurd h (by simp [groups])
  | cons b rest ih =>
    rw [groups] at h
    split at h
    · rcases List.mem_cons.1 h with rfl | h
      · simp
      · exact ih h
    · split at h
      · rw [List.mem_singleton.1 h]
        simp
      · rename_i g' gs hgs
        rcases List.mem_cons.1 h with rfl | h
        · simp
        · exact ih (by simp [hgs, h])

theorem flatMap_pushEscaped_ne_nil {g : Bytes} (h : g ≠ []) : g.flatMap pushEscaped ≠ [] := by
  obtain ⟨b, rest, rfl⟩ := List.exists_cons_of_ne_nil h
  simp [pushEscaped_ne_nil]

/-- No token of an index key is empty. -/
theorem nil_not_mem_keyTokens (k : Bytes) : [] ∉ keyTokens k := by
  intro h
  rcases List.mem_append.1 h with h | h
  · obtain ⟨g, hg, hnil⟩ := List.mem_map.1 h
    exact flatMap_pushEscaped_ne_nil (ne_nil_of_mem_groups hg) hnil
  · split at h
    · exact absurd (List.mem_singleton.1 h) (by decide)
    · exact absurd h (by simp)

/-- What stands in a joined text stands in one of its tokens, or joins two. -/
theorem mem_of_mem_intercalate {ts : List Bytes} {b : UInt8} (h : b ∈ [dot].intercalate ts) :
    b = dot ∨ ∃ token ∈ ts, b ∈ token := by
  induction ts with
  | nil => exact absurd h (by simp)
  | cons t ts ih =>
    cases ts with
    | nil => exact .inr ⟨t, by simp, by simpa using h⟩
    | cons t' ts =>
      rw [List.intercalate_cons_cons] at h
      simp only [List.mem_append, List.mem_singleton] at h
      rcases h with (h | h) | h
      · exact .inr ⟨t, by simp, h⟩
      · exact .inl h
      · rcases ih h with hdot | ⟨token, htoken, hb⟩
        · exact .inl hdot
        · exact .inr ⟨token, List.mem_cons_of_mem _ htoken, hb⟩

/-- A text that ends with a separator has an empty last token. -/
theorem getLast?_ne_dot {l : Bytes} (h : [] ∉ l.splitOn dot) : l.getLast? ≠ some dot := by
  intro hlast
  obtain ⟨init, hinit⟩ := List.getLast?_eq_some_iff.1 hlast
  rw [hinit, List.splitOn_append_cons_self, List.splitOn_nil] at h
  exact h (by simp)

theorem nil_not_mem_splitOn_indexKey (k : String) : [] ∉ (indexKey k).splitOn dot := by
  rw [splitOn_indexKey]
  intro h
  rcases List.mem_cons.1 h with h | h
  · exact absurd h (by decide)
  · exact nil_not_mem_keyTokens _ h

theorem indexKey_alphabet (k : String) :
    ∀ c ∈ indexKey k, isAlphanumeric c || c == 45 || c == 95 || c == 61 || c == dot := by
  intro c hc
  rw [indexKey_eq] at hc
  rcases mem_of_mem_intercalate hc with rfl | ⟨token, htoken, hmem⟩
  · rfl
  · rcases List.mem_cons.1 htoken with rfl | htoken
    · simp only [indexToken, List.mem_cons, List.not_mem_nil, or_false] at hmem
      rcases hmem with rfl | rfl <;> decide
    · simp [keyTokens_alphabet htoken c hmem]

/-! ## What a filter selects -/

/-- A filter of whole tokens and a `>` selects only what starts with them. -/
theorem prefix_of_tokensMatch {ts us : List Bytes} (h : ∀ t ∈ ts, t ≠ [62] ∧ t ≠ [42])
    (hmatch : tokensMatch (ts ++ [[62]]) us = true) : ts <+: us := by
  induction ts generalizing us with
  | nil => exact List.nil_prefix
  | cons t ts ih =>
    obtain ⟨hgt, hstar⟩ := h t (by simp)
    cases us with
    | nil => simp [tokensMatch] at hmatch
    | cons u us =>
      have hboth : t = u ∧ tokensMatch (ts ++ [[62]]) us = true := by
        simpa [tokensMatch, hgt, hstar] using hmatch
      obtain ⟨rfl, hrest⟩ := hboth
      exact List.cons_prefix_cons.2 ⟨rfl, ih (fun t ht => h t (List.mem_cons_of_mem _ ht)) hrest⟩

/-- A prefix that ends at a separator is its own whole tokens. -/
theorem wholeTokens_of_closed {p : Bytes} (h : ∀ b ∈ p.getLast?, isSeparator b = true) :
    wholeTokens p = p := by
  rw [wholeTokens, List.reverse_eq_iff]
  cases hp : p.reverse with
  | nil => rfl
  | cons b rest =>
    have hb : isSeparator b = true := by
      refine h b ?_
      rw [← List.head?_reverse, hp]
      rfl
    simp [hb]

theorem flatMap_pushEscaped_injective : Function.Injective (List.flatMap pushEscaped) := by
  intro g g' h
  have hg := tokenBytes_flatMap g
  rw [h, tokenBytes_flatMap] at hg
  exact (Option.some.inj hg).symm

/-- Escaped groups that open the tokens of a key open its groups. -/
theorem groups_prefix_of_keyTokens {gs : List Bytes} {k : Bytes}
    (h : gs.map (List.flatMap pushEscaped) <+: keyTokens k) : gs <+: groups k := by
  rw [← List.prefix_map_iff_of_injective flatMap_pushEscaped_injective]
  unfold keyTokens at h
  split at h
  · rcases List.prefix_concat_iff.1 h with hall | hprefix
    · have hend : endToken ∈ gs.map (List.flatMap pushEscaped) := by simp [hall]
      obtain ⟨g, -, hg⟩ := List.mem_map.1 hend
      exact absurd hg (flatMap_ne_endToken g)
    · exact hprefix
  · simpa using h

/-- **The filter of a prefix that ends at a separator selects only the keys
under it.** -/
theorem prefix_of_matches {p k : String} (hp : ∀ b ∈ (bytes p).getLast?, isSeparator b = true)
    (h : subjectMatches (prefixFilter p) (indexKey k) = true) : bytes p <+: bytes k := by
  have htokens : ∀ t ∈ indexToken :: (groups (bytes p)).map (List.flatMap pushEscaped),
      t ≠ [62] ∧ t ≠ [42] := by
    intro t ht
    rcases List.mem_cons.1 ht with rfl | ht
    · decide
    · have halpha := keyTokens_alphabet (k := bytes p) (List.mem_append_left _ ht)
      refine ⟨?_, ?_⟩
      · rintro rfl
        exact absurd (halpha 62 (by simp)) (by decide)
      · rintro rfl
        exact absurd (halpha 42 (by simp)) (by decide)
  rw [subjectMatches, splitOn_prefixFilter, splitOn_indexKey, wholeTokens_of_closed hp] at h
  have hprefix := prefix_of_tokensMatch htokens h
  have hgroups := groups_prefix_of_keyTokens (List.cons_prefix_cons.1 hprefix).2
  have hflat := hgroups.flatten
  rwa [flatten_groups, flatten_groups] at hflat

/-- **Index keys encode every key and the filter of a prefix selects them.** -/
theorem indexKey_exact :
    (∀ k, dataKey (indexKey k) = some k ∧ indexToken ++ [dot] <+: indexKey k ∧
      [] ∉ (indexKey k).splitOn dot ∧ (indexKey k).getLast? ≠ some dot ∧
      ∀ c ∈ indexKey k, isAlphanumeric c || c == 45 || c == 95 || c == 61 || c == dot) ∧
    ∀ p k, (bytes p <+: bytes k → subjectMatches (prefixFilter p) (indexKey k) = true) ∧
      ((∀ b ∈ (bytes p).getLast?, isSeparator b = true) →
        subjectMatches (prefixFilter p) (indexKey k) = true → bytes p <+: bytes k) := by
  refine ⟨fun k => ⟨dataKey_indexKey k, ?_, nil_not_mem_splitOn_indexKey k,
    getLast?_ne_dot (nil_not_mem_splitOn_indexKey k), indexKey_alphabet k⟩,
    fun p k => ⟨prefixFilter_matches, prefix_of_matches⟩⟩
  rw [indexKey_cons]
  exact List.prefix_append _ _

/-- The prefix `a:` and a key under it. -/
theorem indexKey_exact_under : subjectMatches (prefixFilter "a:") (indexKey "a:b") = true ∧
    bytes "a:" <+: bytes "a:b" :=
  have hmatch := (indexKey_exact.2 "a:" "a:b").1 (by decide)
  have hlast : (bytes "a:").getLast? = some 58 := by decide
  ⟨hmatch, (indexKey_exact.2 "a:" "a:b").2 (fun b hb => by
    rw [hlast] at hb
    cases hb
    decide) hmatch⟩

end ClusterNats
