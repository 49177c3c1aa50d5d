import ClusterNats.Codec.Text

/-!
# Data keys

Every key crosses the store as one subject token of a restricted alphabet.

* `encodeKey`, `decodeKey` — the escape and its inverse.
* `decodeKey_encodeKey` — decoding gives the key back.
* `encodeKey_injective` — two keys never share a subject.
* `encodeKey_prefix` — the escape keeps prefixes, in both directions.
* `encodeKey_alphabet` — its output has no separator, and no `=` before a
  letter past `F`.
-/

namespace ClusterNats

/-- The bytes `encode_key` passes through. -/
def isPassthrough (b : UInt8) : Bool := isAlphanumeric b || b == 45 || b == 95 || b == 47

/-- What `encode_key` writes for one byte. -/
def escapeByte (b : UInt8) : Bytes := if isPassthrough b then [b] else escapeChar :: hexByte b

/-- The subject of a data key. -/
def encodeKey (key : String) : Bytes := (bytes key).flatMap escapeByte

/-- The loop of `decode_key`. -/
def decodeBytes : Bytes → Option Bytes
  | [] => some []
  | b :: rest =>
    if b = escapeChar then
      match rest with
      | hi :: lo :: rest => do
        let hi ← hexValue hi
        let lo ← hexValue lo
        return (hi * 16 + lo) :: (← decodeBytes rest)
      | _ => none
    else do return b :: (← decodeBytes rest)

/-- The key of a subject, `none` when the subject is no escaped key. -/
def decodeKey (encoded : Bytes) : Option String := (decodeBytes encoded).bind fromUtf8

/-! ## Round trip -/

theorem passthrough_ne_escape {b : UInt8} (h : isPassthrough b = true) : b ≠ escapeChar := by
  rintro rfl
  exact absurd h (by decide)

theorem decodeBytes_cons {b : UInt8} (h : b ≠ escapeChar) (rest : Bytes) :
    decodeBytes (b :: rest) = (decodeBytes rest).map (b :: ·) := by
  rw [decodeBytes.eq_def]
  simp only [if_neg h]
  cases decodeBytes rest <;> rfl

theorem decodeBytes_escape (hi lo : UInt8) (rest : Bytes) :
    decodeBytes (escapeChar :: hi :: lo :: rest) = (hexValue hi).bind fun hi =>
      (hexValue lo).bind fun lo => (decodeBytes rest).map ((hi * 16 + lo) :: ·) := by
  rw [decodeBytes.eq_def]
  simp only [if_true]
  cases decodeBytes rest <;> rfl

theorem decodeBytes_escapeByte (b : UInt8) (rest : Bytes) :
    decodeBytes (escapeByte b ++ rest) = (decodeBytes rest).map (b :: ·) := by
  obtain ⟨hhi, hlo, hb⟩ := hexValue_hexByte b
  unfold escapeByte
  split
  · rename_i hpass
    exact decodeBytes_cons (passthrough_ne_escape hpass) rest
  · rw [hexByte, List.cons_append, List.cons_append, List.cons_append, List.nil_append,
      decodeBytes_escape, hhi, hlo, Option.bind_some, Option.bind_some, hb]

theorem decodeBytes_flatMap (k : Bytes) (rest : Bytes) :
    decodeBytes (k.flatMap escapeByte ++ rest) = (decodeBytes rest).map (k ++ ·) := by
  induction k with
  | nil => simp
  | cons b k ih =>
    rw [List.flatMap_cons, List.append_assoc, decodeBytes_escapeByte, ih, Option.map_map]
    rfl

/-- **Decoding gives the key back.** -/
@[simp] theorem decodeKey_encodeKey (key : String) : decodeKey (encodeKey key) = some key := by
  have h := decodeBytes_flatMap (bytes key) []
  simp only [List.append_nil, decodeBytes, Option.map_some] at h
  rw [decodeKey, encodeKey, h, Option.bind_some, fromUtf8_bytes]

/-- **Two keys never share a subject.** -/
theorem encodeKey_injective {k k' : String} (h : encodeKey k = encodeKey k') : k = k' := by
  have hk := decodeKey_encodeKey k
  rw [h, decodeKey_encodeKey] at hk
  exact (Option.some.inj hk).symm

@[simp] theorem encodeKey_inj {k k' : String} : encodeKey k = encodeKey k' ↔ k = k' :=
  ⟨encodeKey_injective, fun h => h ▸ rfl⟩

/-! ## Prefixes -/

theorem escapeByte_ne_nil (b : UInt8) : escapeByte b ≠ [] := by
  unfold escapeByte
  split <;> simp

/-- One escaped byte in front decides the byte. -/
theorem escapeByte_append_inj {b c : UInt8} {x y : Bytes}
    (h : escapeByte b ++ x = escapeByte c ++ y) : b = c ∧ x = y := by
  obtain ⟨hbhi, hblo, hb⟩ := hexValue_hexByte b
  obtain ⟨hchi, hclo, hc⟩ := hexValue_hexByte c
  unfold escapeByte at h
  split at h <;> split at h
  · simpa using h
  · rename_i hpass _
    exact absurd (List.cons.inj h).1 (passthrough_ne_escape hpass)
  · rename_i _ hpass
    exact absurd (List.cons.inj h).1.symm (passthrough_ne_escape hpass)
  · simp only [hexByte, List.cons_append, List.nil_append, List.cons.injEq, true_and] at h
    obtain ⟨h₁, h₂, rfl⟩ := h
    have hhi : b / 16 = c / 16 := Option.some.inj (hbhi.symm.trans (h₁ ▸ hchi))
    have hlo : b % 16 = c % 16 := Option.some.inj (hblo.symm.trans (h₂ ▸ hclo))
    exact ⟨by rw [← hb, ← hc, hhi, hlo], rfl⟩

theorem flatMap_prefix (p k : Bytes) :
    p.flatMap escapeByte <+: k.flatMap escapeByte ↔ p <+: k := by
  induction p generalizing k with
  | nil => simp
  | cons b p ih =>
    cases k with
    | nil => simp [escapeByte_ne_nil]
    | cons c k =>
      rw [List.flatMap_cons, List.flatMap_cons, List.cons_prefix_cons, ← ih]
      constructor
      · rintro ⟨rest, hrest⟩
        rw [List.append_assoc] at hrest
        have hboth := escapeByte_append_inj hrest
        exact ⟨hboth.1, rest, hboth.2⟩
      · rintro ⟨rfl, rest, hrest⟩
        exact ⟨rest, by rw [List.append_assoc, hrest]⟩

/-- **The escape keeps prefixes both ways.** -/
theorem encodeKey_prefix {p k : String} :
    encodeKey p <+: encodeKey k ↔ bytes p <+: bytes k := flatMap_prefix _ _

/-! ## The alphabet -/

/-- What follows an `=` in an escaped key is a digit or a letter up to `F`. -/
theorem escape_follow {k : Bytes} {x : UInt8} {rest : Bytes}
    (h : k.flatMap escapeByte = escapeChar :: x :: rest) : x ≤ 70 := by
  cases k with
  | nil => exact absurd h (by simp)
  | cons b k =>
    rw [List.flatMap_cons] at h
    unfold escapeByte at h
    split at h
    · rename_i hpass
      exact absurd (List.cons.inj h).1 (passthrough_ne_escape hpass)
    · simp only [List.cons_append, hexByte, List.nil_append, List.cons.injEq, true_and] at h
      have hx := (hexByte_alphanumeric b (upperHex (b / 16)) (by simp [hexByte])).2
      rwa [h.1] at hx

/-- An escaped key is one token of letters, digits, `-`, `_`, `/` and `=`. -/
theorem encodeKey_alphabet (key : String) :
    ∀ c ∈ encodeKey key, isPassthrough c = true ∨ c = escapeChar := by
  intro c hc
  obtain ⟨b, -, hb⟩ := List.mem_flatMap.1 hc
  unfold escapeByte at hb
  split at hb
  · rename_i hpass
    exact .inl (List.mem_singleton.1 hb ▸ hpass)
  · rcases List.mem_cons.1 hb with rfl | hb
    · exact .inr rfl
    · have halpha := (hexByte_alphanumeric b c hb).1
      exact .inl (by simp [isPassthrough, halpha])

theorem dot_not_mem_encodeKey (key : String) : dot ∉ encodeKey key := by
  intro h
  rcases encodeKey_alphabet key dot h with h | h
  · exact absurd h (by decide)
  · exact absurd h (by decide)

end ClusterNats
