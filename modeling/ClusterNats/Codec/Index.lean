import ClusterNats.Codec.Key

/-!
# Index keys

Next to a data record a bucket holds an index record, whose subject splits the
key into tokens after each separator, so that the server can filter a listing
by prefix.

* `indexKey`, `dataKey`, `isIndexKey`, `indexStateKey`, `prefixFilter` — the
  functions of the index.
* `subjectMatches` — the server's subject filter.
* `indexKey_eq` — an index key is the join of the tokens of its data key.
* `dataKey_indexKey`, `indexKey_injective` — the round trip.
* `prefixFilter_matches` — the filter of a prefix selects its keys.
* `encodeKey_ne_indexKey`, `isIndexKey_encodeKey`, `decodeKey_indexKey` — data
  subjects and index subjects are apart.
-/

namespace ClusterNats

/-- The first token of every index key, `=I`. -/
def indexToken : Bytes := [61, 73]

/-- The last token of an index key whose data key ends with a separator, `=Z`. -/
def endToken : Bytes := [61, 90]

/-- The key that records when the index was last made complete. -/
def indexStateKey : Bytes := bytes "=M.index-complete"

/-- A separator a token ends at: `:`, `/` or `.`. -/
def isSeparator (b : UInt8) : Bool := b == 58 || b == 47 || b == 46

/-- Escape one byte of a token. -/
def pushEscaped (b : UInt8) : Bytes :=
  if isAlphanumeric b || b == 45 || b == 95 then [b] else escapeChar :: hexByte b

/-- The loop of `tokens`: what is written so far, and whether a token is open. -/
def tokensLoop : Bytes → Bytes → Bool → Bytes × Bool
  | [], out, opened => (out, !opened)
  | b :: rest, out, opened =>
    let out := if !opened && !out.isEmpty then out ++ [dot] else out
    tokensLoop rest (out ++ pushEscaped b) (!isSeparator b)

/-- The index tokens of a key as joined text, and whether the key ended with a
separator. -/
def tokens (key : Bytes) : Bytes × Bool := tokensLoop key [] false

/-- The index key of a data key. -/
def indexKey (key : String) : Bytes :=
  match tokens (bytes key) with
  | ([], _) => indexToken ++ dot :: endToken
  | (text, true) => indexToken ++ dot :: text ++ dot :: endToken
  | (text, false) => indexToken ++ dot :: text

/-- `u8::from_str_radix(hex, 16)` of two characters: digits after an optional
`+`. -/
def fromStrRadix16 (hi lo : UInt8) : Option UInt8 :=
  if hi = 43 then hexValue lo
  else do return (← hexValue hi) * 16 + (← hexValue lo)

/-- The bytes one token stands for. -/
def tokenBytes : Bytes → Option Bytes
  | [] => some []
  | b :: rest =>
    if b = escapeChar then
      match rest with
      | hi :: lo :: rest => do return (← fromStrRadix16 hi lo) :: (← tokenBytes rest)
      | _ => none
    else do return b :: (← tokenBytes rest)

/-- The loop of `data_key` over the tokens. -/
def tokensBytes : List Bytes → Option Bytes
  | [] => some []
  | token :: rest =>
    if token = endToken ∧ rest = [] then some []
    else do return (← tokenBytes token) ++ (← tokensBytes rest)

/-- `str::strip_prefix`. -/
def stripPrefix (p s : Bytes) : Option Bytes := if p <+: s then some (s.drop p.length) else none

/-- The data key an index key stands for. -/
def dataKey (key : Bytes) : Option String := do
  let rest ← stripPrefix (indexToken ++ [dot]) key
  fromUtf8 (← tokensBytes (rest.splitOn dot))

/-- A key of the index: an index record or the index state. -/
def isIndexKey (key : Bytes) : Bool :=
  [61, 73, 46].isPrefixOf key || [61, 77, 46].isPrefixOf key

/-- The part of a prefix up to its last separator. -/
def wholeTokens (p : Bytes) : Bytes := (p.reverse.dropWhile fun b => !isSeparator b).reverse

/-- The server-side filter that holds every key under a prefix. -/
def prefixFilter (p : String) : Bytes :=
  let text := (tokens (wholeTokens (bytes p))).1
  if text = [] then indexToken ++ [dot, 62] else indexToken ++ dot :: text ++ [dot, 62]

/-- Do the tokens of a subject match those of a filter?  `*` stands for one
token, a `>` at the end for one or more. -/
def tokensMatch : List Bytes → List Bytes → Bool
  | [], [] => true
  | f :: fs, t :: ts => (f == [62] && fs.isEmpty) || ((f == [42] || f == t) && tokensMatch fs ts)
  | _, _ => false

/-- The subject filter of a consumer, a subject list or a purge. -/
def subjectMatches (filter subject : Bytes) : Bool :=
  tokensMatch (filter.splitOn dot) (subject.splitOn dot)

/-! ## The tokens of a key -/

/-- A key's bytes, split after each separator. -/
def groups : Bytes → List Bytes
  | [] => []
  | b :: rest =>
    if isSeparator b then [b] :: groups rest
    else
      match groups rest with
      | [] => [[b]]
      | g :: gs => (b :: g) :: gs

/-- Does a key end with a separator (or hold nothing)? -/
def endsClosed (k : Bytes) : Bool := k.getLast?.all isSeparator

/-- The tokens of a key, escaped. -/
def keyTokens (k : Bytes) : List Bytes :=
  (groups k).map (List.flatMap pushEscaped) ++ if endsClosed k then [endToken] else []

/-- The joined text of escaped groups. -/
def joined (gs : List Bytes) : Bytes := [dot].intercalate (gs.map (List.flatMap pushEscaped))

theorem joined_singleton (g : Bytes) : joined [g] = g.flatMap pushEscaped := by
  simp [joined]

theorem joined_cons (g h : Bytes) (gs : List Bytes) :
    joined (g :: h :: gs) = g.flatMap pushEscaped ++ dot :: joined (h :: gs) := by
  simp [joined, List.intercalate_cons_cons]

theorem intercalate_concat {xs : List Bytes} (h : xs ≠ []) (y : Bytes) :
    [dot].intercalate (xs ++ [y]) = [dot].intercalate xs ++ dot :: y := by
  induction xs with
  | nil => exact absurd rfl h
  | cons x xs ih =>
    cases xs with
    | nil => simp [List.intercalate_cons_cons]
    | cons x' xs =>
      have h' := ih (by simp)
      simp only [List.cons_append, List.intercalate_cons_cons] at h' ⊢
      rw [h', ← List.append_assoc]

theorem groups_eq_nil {k : Bytes} : groups k = [] ↔ k = [] := by
  cases k with
  | nil => simp [groups]
  | cons b rest =>
    rw [groups]
    split
    · simp
    · split <;> simp

/-- A byte that ends no token joins the group that follows. -/
theorem groups_open {b : UInt8} {rest : Bytes} (h : isSeparator b = false) (hrest : rest ≠ []) :
    groups (b :: rest) = (b :: (groups rest).head (mt groups_eq_nil.1 hrest)) ::
      (groups rest).tail := by
  rw [groups, if_neg (by simp [h])]
  split
  · rename_i hnil
    exact absurd (groups_eq_nil.1 hnil) hrest
  · rename_i g gs hgs
    simp [hgs]

theorem flatten_groups (k : Bytes) : (groups k).flatten = k := by
  induction k with
  | nil => rfl
  | cons b rest ih =>
    rw [groups]
    split
    · simp [ih]
    · split
      · rename_i hnil
        rw [groups_eq_nil.1 hnil]
        rfl
      · rename_i g gs hgs
        rw [hgs] at ih
        simpa using ih

theorem pushEscaped_ne_nil (b : UInt8) : pushEscaped b ≠ [] := by
  unfold pushEscaped
  split <;> simp

/-- The group of a byte that ends no token continues. -/
theorem joined_open {b : UInt8} {rest : Bytes} (h : isSeparator b = false) :
    joined (groups (b :: rest)) = pushEscaped b ++ joined (groups rest) := by
  rw [groups, if_neg (by simp [h])]
  cases hgs : groups rest with
  | nil => simp [joined]
  | cons g gs =>
    cases gs with
    | nil => simp [joined_singleton]
    | cons g' gs => simp [joined_cons]

/-- The group of a separator is closed. -/
theorem joined_closed {b : UInt8} {rest : Bytes} (h : isSeparator b = true) :
    joined (groups (b :: rest)) =
      pushEscaped b ++ if rest = [] then [] else dot :: joined (groups rest) := by
  rw [groups, if_pos h]
  cases hgs : groups rest with
  | nil => simp [groups_eq_nil.1 hgs, joined_singleton]
  | cons g gs =>
    have hne : rest ≠ [] := fun hnil => by simp [hnil, groups] at hgs
    simp [hne, joined_cons]

/-- What the loop of `tokens` writes. -/
theorem tokensLoop_eq (k out : Bytes) (opened : Bool) (hout : opened = true → out ≠ []) :
    tokensLoop k out opened =
      (out ++ (if k ≠ [] ∧ opened = false ∧ out ≠ [] then [dot] else []) ++ joined (groups k),
        if k = [] then !opened else endsClosed k) := by
  induction k generalizing out opened with
  | nil => simp [tokensLoop, groups, joined]
  | cons b rest ih =>
    have hne : ∀ x : Bytes, x ++ pushEscaped b ≠ [] := by simp [pushEscaped_ne_nil]
    rw [tokensLoop, ih _ _ fun _ => hne _]
    have hlast : (if rest = [] then !!isSeparator b else endsClosed rest) =
        endsClosed (b :: rest) := by
      cases rest with
      | nil => simp [endsClosed]
      | cons c rest => simp [endsClosed, List.getLast?_cons_cons]
    rw [hlast]
    have hdot : (if (!opened && !out.isEmpty) = true then out ++ [dot] else out) =
        out ++ if opened = false ∧ out ≠ [] then [dot] else [] := by
      cases opened <;> cases out <;> simp
    rw [hdot]
    cases hsep : isSeparator b with
    | true =>
      rw [joined_closed hsep]
      by_cases hrest : rest = []
      · simp [hrest, groups, joined]
      · simp [hrest, pushEscaped_ne_nil]
    | false =>
      rw [joined_open hsep]
      simp

theorem tokens_eq (k : Bytes) : tokens k = (joined (groups k), endsClosed k) := by
  rw [tokens, tokensLoop_eq k [] false (by simp)]
  cases k <;> simp [endsClosed]

theorem joined_eq_nil {k : Bytes} : joined (groups k) = [] ↔ k = [] := by
  cases k with
  | nil => simp [joined, groups]
  | cons b rest =>
    cases hsep : isSeparator b with
    | true => simp [joined_closed hsep, pushEscaped_ne_nil]
    | false => simp [joined_open hsep, pushEscaped_ne_nil]

/-- **An index key is the join of the tokens of its data key.** -/
theorem indexKey_eq (key : String) :
    indexKey key = [dot].intercalate (indexToken :: keyTokens (bytes key)) := by
  rw [indexKey, tokens_eq, keyTokens]
  cases hk : bytes key with
  | nil => rfl
  | cons b rest =>
    rw [← hk]
    have hne : joined (groups (bytes key)) ≠ [] := fun h => by simp [joined_eq_nil.1 h] at hk
    have hgs : groups (bytes key) ≠ [] := fun h => by simp [groups_eq_nil.1 h] at hk
    obtain ⟨g, gs, hg⟩ := List.exists_cons_of_ne_nil hgs
    cases hclosed : endsClosed (bytes key) with
    | false =>
      split
      · rename_i h
        exact absurd (congrArg Prod.fst h) hne
      · rename_i h
        exact absurd (congrArg Prod.snd h) (by simp)
      · rename_i text h
        cases h
        simp [hg, joined, List.intercalate_cons_cons]
    | true =>
      split
      · rename_i h
        exact absurd (congrArg Prod.fst h) hne
      · rename_i text _ h
        cases h
        rw [if_pos rfl, hg, ← List.cons_append, intercalate_concat (by simp)]
        simp [joined, List.intercalate_cons_cons]
      · rename_i h
        exact absurd (congrArg Prod.snd h) (by simp)

/-! ## Round trip -/

/-- What `pushEscaped` writes is no separator, and an `=` in it is followed by a
digit or a letter up to `F`. -/
theorem dot_not_mem_pushEscaped (b : UInt8) : dot ∉ pushEscaped b := by
  unfold pushEscaped
  split
  · rename_i hpass
    rintro hmem
    rw [← List.mem_singleton.1 hmem] at hpass
    exact absurd hpass (by decide)
  · intro hmem
    rcases List.mem_cons.1 hmem with h | h
    · exact absurd h (by decide)
    · exact absurd (hexByte_alphanumeric b dot h).1 (by decide)

theorem tokenBytes_cons {b : UInt8} (h : b ≠ escapeChar) (rest : Bytes) :
    tokenBytes (b :: rest) = (tokenBytes rest).map (b :: ·) := by
  rw [tokenBytes.eq_def]
  simp only [if_neg h]
  cases tokenBytes rest <;> rfl

theorem tokenBytes_pushEscaped (b : UInt8) (rest : Bytes) :
    tokenBytes (pushEscaped b ++ rest) = (tokenBytes rest).map (b :: ·) := by
  obtain ⟨hhi, hlo, hb⟩ := hexValue_hexByte b
  unfold pushEscaped
  split
  · rename_i hpass
    have hne : b ≠ escapeChar := by
      rintro rfl
      exact absurd hpass (by decide)
    exact tokenBytes_cons hne rest
  · have hplus : upperHex (b / 16) ≠ 43 := by
      intro h
      have halpha := (hexByte_alphanumeric b (upperHex (b / 16)) (by simp [hexByte])).1
      rw [h] at halpha
      exact absurd halpha (by decide)
    have hradix : fromStrRadix16 (upperHex (b / 16)) (upperHex (b % 16)) = some b := by
      simp [fromStrRadix16, hplus, hhi, hlo, hb]
    rw [hexByte, List.cons_append, List.cons_append, List.cons_append, List.nil_append,
      tokenBytes.eq_def]
    simp only [if_true, hradix]
    cases tokenBytes rest <;> rfl

theorem tokenBytes_flatMap (g : Bytes) : tokenBytes (g.flatMap pushEscaped) = some g := by
  induction g with
  | nil => rfl
  | cons b g ih => rw [List.flatMap_cons, tokenBytes_pushEscaped, ih]; rfl

theorem flatMap_ne_endToken (g : Bytes) : g.flatMap pushEscaped ≠ endToken := by
  intro h
  have hbytes := tokenBytes_flatMap g
  have hend : tokenBytes endToken = none := by decide
  rw [h, hend] at hbytes
  exact absurd hbytes (by simp)

theorem tokensBytes_groups (gs : List Bytes) (closed : Bool) :
    tokensBytes (gs.map (List.flatMap pushEscaped) ++ if closed then [endToken] else []) =
      some gs.flatten := by
  induction gs with
  | nil => cases closed <;> rfl
  | cons g gs ih =>
    rw [List.map_cons, List.cons_append, tokensBytes,
      if_neg fun h => flatMap_ne_endToken g h.1, tokenBytes_flatMap, ih]
    rfl

theorem dot_not_mem_keyTokens {k token : Bytes} (h : token ∈ keyTokens k) : dot ∉ token := by
  rcases List.mem_append.1 h with h | h
  · obtain ⟨g, -, rfl⟩ := List.mem_map.1 h
    intro hmem
    obtain ⟨b, -, hb⟩ := List.mem_flatMap.1 hmem
    exact dot_not_mem_pushEscaped b hb
  · split at h
    · rw [List.mem_singleton.1 h]
      decide
    · exact absurd h (by simp)

theorem keyTokens_ne_nil (k : Bytes) : keyTokens k ≠ [] := by
  cases k with
  | nil => simp [keyTokens, endsClosed]
  | cons b rest => simp [keyTokens, groups_eq_nil]

/-- The tokens of an index key, as the server splits them. -/
theorem splitOn_indexKey (key : String) :
    (indexKey key).splitOn dot = indexToken :: keyTokens (bytes key) := by
  rw [indexKey_eq, List.splitOn_intercalate dot _ (by simp)]
  intro token htoken
  rcases List.mem_cons.1 htoken with rfl | htoken
  · decide
  · exact dot_not_mem_keyTokens htoken

theorem indexKey_cons (key : String) :
    indexKey key = (indexToken ++ [dot]) ++ [dot].intercalate (keyTokens (bytes key)) := by
  obtain ⟨token, rest, h⟩ := List.exists_cons_of_ne_nil (keyTokens_ne_nil (bytes key))
  rw [indexKey_eq, h, List.intercalate_cons_cons]

/-- **The data key of an index key is the key it was made from.** -/
@[simp] theorem dataKey_indexKey (key : String) : dataKey (indexKey key) = some key := by
  have hsplit : ([dot].intercalate (keyTokens (bytes key))).splitOn dot = keyTokens (bytes key) :=
    List.splitOn_intercalate dot (fun _ => dot_not_mem_keyTokens) (keyTokens_ne_nil _)
  rw [dataKey, indexKey_cons, stripPrefix, if_pos (List.prefix_append _ _),
    List.drop_left]
  have hbytes : tokensBytes (keyTokens (bytes key)) = some (bytes key) := by
    rw [keyTokens, tokensBytes_groups, flatten_groups]
  simp [hsplit, hbytes]

theorem indexKey_injective {k k' : String} (h : indexKey k = indexKey k') : k = k' := by
  have hk := dataKey_indexKey k
  rw [h, dataKey_indexKey] at hk
  exact (Option.some.inj hk).symm

/-! ## Data subjects and index subjects are apart -/

@[simp] theorem isIndexKey_indexKey (key : String) : isIndexKey (indexKey key) = true := by
  rw [indexKey_cons]
  rfl

/-- An escaped key never starts with `=` and a letter past `F`. -/
theorem encodeKey_not_prefix {key : String} {x : UInt8} (hx : 70 < x) (rest : Bytes) :
    encodeKey key ≠ escapeChar :: x :: rest := by
  intro h
  have hle := escape_follow h
  exact UInt8.not_lt.2 hle hx

@[simp] theorem isIndexKey_encodeKey (key : String) : isIndexKey (encodeKey key) = false := by
  rw [isIndexKey, Bool.or_eq_false_iff]
  constructor
  · rw [Bool.eq_false_iff]
    intro h
    obtain ⟨rest, hrest⟩ := List.isPrefixOf_iff_prefix.1 h
    exact encodeKey_not_prefix (x := 73) (by decide) (46 :: rest) hrest.symm
  · rw [Bool.eq_false_iff]
    intro h
    obtain ⟨rest, hrest⟩ := List.isPrefixOf_iff_prefix.1 h
    exact encodeKey_not_prefix (x := 77) (by decide) (46 :: rest) hrest.symm

/-- **No write to a key touches another key's index record.** -/
theorem encodeKey_ne_indexKey (k k' : String) : encodeKey k ≠ indexKey k' := by
  intro h
  have hindex := isIndexKey_indexKey k'
  rw [← h, isIndexKey_encodeKey] at hindex
  exact absurd hindex (by simp)

@[simp] theorem decodeKey_indexKey (key : String) : decodeKey (indexKey key) = none := by
  rw [indexKey_cons]
  rfl

theorem encodeKey_ne_indexStateKey (k : String) : encodeKey k ≠ indexStateKey := by
  intro h
  have hstate := isIndexKey_encodeKey k
  rw [h] at hstate
  exact absurd hstate (by decide)

theorem dataKey_encodeKey (key : String) : dataKey (encodeKey key) = none := by
  rw [dataKey, stripPrefix, if_neg]
  · rfl
  · rintro ⟨rest, hrest⟩
    exact encodeKey_not_prefix (x := 73) (by decide) (46 :: rest) hrest.symm

/-! ## The filter of a prefix -/

/-- A prefix that ends after a separator keeps its groups in every longer key. -/
theorem groups_append {p : Bytes} (hp : endsClosed p = true) (rest : Bytes) :
    groups (p ++ rest) = groups p ++ groups rest := by
  induction p with
  | nil => rfl
  | cons b p ih =>
    cases hsep : isSeparator b with
    | true =>
      have hp' : endsClosed p = true := by
        cases p with
        | nil => rfl
        | cons c p => simpa [endsClosed, List.getLast?_cons_cons] using hp
      rw [List.cons_append, groups, if_pos hsep, ih hp', groups, if_pos hsep, List.cons_append]
    | false =>
      cases p with
      | nil => simp [endsClosed, hsep] at hp
      | cons c p =>
        have hp' : endsClosed (c :: p) = true := by
          simpa [endsClosed, List.getLast?_cons_cons] using hp
        have hgs : groups (c :: p) ≠ [] := fun h => by simp [groups_eq_nil] at h
        obtain ⟨g, gs, hg⟩ := List.exists_cons_of_ne_nil hgs
        have hih : groups (c :: (p ++ rest)) = g :: (gs ++ groups rest) := by
          rw [← List.cons_append, ih hp', hg, List.cons_append]
        rw [List.cons_append, groups_open hsep (by simp), groups_open hsep (by simp)]
        simp [hih, hg]

theorem endsClosed_wholeTokens (p : Bytes) : endsClosed (wholeTokens p) = true := by
  unfold endsClosed wholeTokens
  rw [List.getLast?_reverse]
  cases h : p.reverse.dropWhile fun b => !isSeparator b with
  | nil => rfl
  | cons b rest =>
    have hb := List.head_dropWhile_not (p := fun b => !isSeparator b) (l := p.reverse) (by simp [h])
    simpa [h] using hb

theorem prefix_of_wholeTokens (p : Bytes) : wholeTokens p <+: p := by
  have h : (p.reverse.dropWhile fun b => !isSeparator b) <:+ p.reverse := List.dropWhile_suffix _
  rw [wholeTokens, ← List.reverse_suffix, List.reverse_reverse]
  exact h

theorem prefixFilter_eq (p : String) :
    prefixFilter p = [dot].intercalate
      (indexToken :: (groups (wholeTokens (bytes p))).map (List.flatMap pushEscaped) ++ [[62]]) := by
  rw [prefixFilter, tokens_eq, intercalate_concat (by simp)]
  by_cases h : wholeTokens (bytes p) = []
  · simp [h, joined, groups]
  · have hgs : groups (wholeTokens (bytes p)) ≠ [] := fun hnil => h (groups_eq_nil.1 hnil)
    obtain ⟨g, gs, hg⟩ := List.exists_cons_of_ne_nil hgs
    have hne : joined (groups (wholeTokens (bytes p))) ≠ [] := fun hnil => h (joined_eq_nil.1 hnil)
    simp only [if_neg hne]
    simp [hg, joined, List.intercalate_cons_cons]

theorem splitOn_prefixFilter (p : String) :
    (prefixFilter p).splitOn dot = indexToken ::
      (groups (wholeTokens (bytes p))).map (List.flatMap pushEscaped) ++ [[62]] := by
  rw [prefixFilter_eq, List.splitOn_intercalate dot _ (by simp)]
  intro token htoken
  rcases List.mem_append.1 htoken with h | h
  · rcases List.mem_cons.1 h with rfl | h
    · decide
    · exact dot_not_mem_keyTokens (List.mem_append_left _ h)
  · rw [List.mem_singleton.1 h]
    decide

/-- Whole tokens followed by `>` match everything that goes on. -/
theorem tokensMatch_append (ts rest : List Bytes) (h : rest ≠ []) :
    tokensMatch (ts ++ [[62]]) (ts ++ rest) = true := by
  induction ts with
  | nil =>
    cases rest with
    | nil => exact absurd rfl h
    | cons t rest => simp [tokensMatch]
  | cons t ts ih => simp [tokensMatch, ih]

/-- **The filter of a prefix selects every key under it.** -/
theorem prefixFilter_matches {p k : String} (h : bytes p <+: bytes k) :
    subjectMatches (prefixFilter p) (indexKey k) = true := by
  obtain ⟨rest, hrest⟩ := (prefix_of_wholeTokens (bytes p)).trans h
  have hclosed := endsClosed_wholeTokens (bytes p)
  rw [subjectMatches, splitOn_prefixFilter, splitOn_indexKey, keyTokens, ← hrest,
    groups_append hclosed, List.map_append, List.append_assoc, ← List.cons_append]
  refine tokensMatch_append _ _ ?_
  by_cases hnil : rest = []
  · rw [hnil, List.append_nil, hclosed]
    simp
  · simp [groups_eq_nil, hnil]

end ClusterNats
