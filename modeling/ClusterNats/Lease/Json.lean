import ClusterNats.Lease.Server

/-!
# A JSON interface

The JSON of lease records comes from a library and is a parameter of the model.
This file has one interface that meets its law, so that runs can be evaluated.
It writes the library's text and reads what it writes, and records without
their last field.

* `jsonString`, `readString` — strings with escapes.
* `readNumber` — decimal numbers.
* `plainJson` — the interface.
-/

namespace ClusterNats.Lease

/-! ## Strings -/

/-- A hexadecimal digit in lower case. -/
def lowerHex (d : UInt8) : UInt8 := if d < 10 then 48 + d else 87 + d

/-- A byte inside a string. -/
def escapeJson (b : UInt8) : Bytes :=
  if b = 34 then [92, 34]
  else if b = 92 then [92, 92]
  else if b = 8 then [92, 98]
  else if b = 9 then [92, 116]
  else if b = 10 then [92, 110]
  else if b = 12 then [92, 102]
  else if b = 13 then [92, 114]
  else if b < 32 then [92, 117, 48, 48, lowerHex (b / 16), lowerHex (b % 16)]
  else [b]

def jsonString (s : String) : Bytes := 34 :: ((bytes s).flatMap escapeJson ++ [34])

/-- The byte of a short escape. -/
def unescape (c : UInt8) : Option UInt8 :=
  if c = 34 ∨ c = 92 ∨ c = 47 then some c
  else if c = 98 then some 8
  else if c = 116 then some 9
  else if c = 110 then some 10
  else if c = 102 then some 12
  else if c = 114 then some 13
  else none

/-- The bytes up to the closing quote, and the rest. -/
def readBody : Bytes → Option (Bytes × Bytes)
  | [] => none
  | b :: rest =>
    if b = 34 then some ([], rest)
    else if b = 92 then
      match rest with
      | 117 :: 48 :: 48 :: hi :: lo :: rest => do
        let hi ← hexValue hi
        let lo ← hexValue lo
        let (body, rest) ← readBody rest
        return ((hi * 16 + lo) :: body, rest)
      | c :: rest => do
        let c ← unescape c
        let (body, rest) ← readBody rest
        return (c :: body, rest)
      | [] => none
    else if b < 32 then none
    else do
      let (body, rest) ← readBody rest
      return (b :: body, rest)

/-- What a literal is followed by. -/
def readLiteral (literal s : Bytes) : Option Bytes :=
  if literal <+: s then some (s.drop literal.length) else none

def readString (s : Bytes) : Option (String × Bytes) := do
  let s ← readLiteral [34] s
  let (body, rest) ← readBody s
  return (← fromUtf8 body, rest)

theorem readLiteral_append (literal rest : Bytes) :
    readLiteral literal (literal ++ rest) = some rest := by
  simp [readLiteral]

theorem readBody_quote (rest : Bytes) : readBody (34 :: rest) = some ([], rest) := by
  rw [readBody.eq_def]
  rfl

theorem readBody_plain {b : UInt8} (hquote : b ≠ 34) (hescape : b ≠ 92) (hcontrol : ¬ b < 32)
    (rest : Bytes) : readBody (b :: rest) = (readBody rest).map fun x => (b :: x.1, x.2) := by
  rw [readBody.eq_def]
  dsimp only
  rw [if_neg hquote, if_neg hescape, if_neg hcontrol]
  cases readBody rest <;> rfl

/-- An escaped byte is read back. -/
theorem readBody_escapeJson (b : UInt8) (rest : Bytes) :
    readBody (escapeJson b ++ rest) = (readBody rest).map fun x => (b :: x.1, x.2) := by
  have hhex : b < 32 → hexValue (lowerHex (b / 16)) = some (b / 16) ∧
      hexValue (lowerHex (b % 16)) = some (b % 16) ∧ b / 16 * 16 + b % 16 = b :=
    forall_byte (P := fun b => b < 32 → hexValue (lowerHex (b / 16)) = some (b / 16) ∧
      hexValue (lowerHex (b % 16)) = some (b % 16) ∧ b / 16 * 16 + b % 16 = b)
      (by decide +kernel) b
  unfold escapeJson
  split
  · rename_i h; subst h; cases h : readBody rest <;> simp [readBody, unescape, h]
  split
  · rename_i h; subst h; cases h : readBody rest <;> simp [readBody, unescape, h]
  split
  · rename_i h; subst h; cases h : readBody rest <;> simp [readBody, unescape, h]
  split
  · rename_i h; subst h; cases h : readBody rest <;> simp [readBody, unescape, h]
  split
  · rename_i h; subst h; cases h : readBody rest <;> simp [readBody, unescape, h]
  split
  · rename_i h; subst h; cases h : readBody rest <;> simp [readBody, unescape, h]
  split
  · rename_i h; subst h; cases h : readBody rest <;> simp [readBody, unescape, h]
  split
  · rename_i h
    obtain ⟨hhi, hlo, hsum⟩ := hhex h
    cases h : readBody rest <;> simp [readBody, hhi, hlo, hsum, h]
  · rename_i hquote hescape _ _ _ _ _ hcontrol
    exact readBody_plain hquote hescape hcontrol rest

theorem readString_jsonString (s : String) (rest : Bytes) :
    readString (jsonString s ++ rest) = some (s, rest) := by
  have hbody : ∀ bs : Bytes, readBody (bs.flatMap escapeJson ++ 34 :: rest) = some (bs, rest) := by
    intro bs
    induction bs with
    | nil => exact readBody_quote rest
    | cons b bs ih => rw [List.flatMap_cons, List.append_assoc, readBody_escapeJson, ih]; rfl
  have hliteral : readLiteral [34] (jsonString s ++ rest) =
      some ((bytes s).flatMap escapeJson ++ 34 :: rest) := by
    rw [jsonString, List.cons_append, List.append_assoc]
    exact readLiteral_append [34] _
  rw [readString, hliteral]
  show (readBody _).bind _ = _
  rw [hbody]
  show (fromUtf8 (bytes s)).bind _ = _
  rw [fromUtf8_bytes]
  rfl

/-! ## Numbers -/

def isDigit (b : UInt8) : Bool := 48 ≤ b && b ≤ 57

def readNumber (s : Bytes) : Option (UInt64 × Bytes) :=
  (parseU64 (s.takeWhile isDigit)).map fun n => (n, s.dropWhile isDigit)

theorem isDigit_of_mem_renderU64 {n : UInt64} {b : UInt8} (h : b ∈ renderU64 n) :
    isDigit b = true := by
  obtain ⟨c, hc, rfl⟩ := List.mem_map.1 h
  have hdigit := isDigit_of_mem_toDigits hc
  have hnat := toNat_ofChar hc
  simp only [isDigit, Bool.and_eq_true, decide_eq_true_eq, UInt8.le_iff_toNat_le, hnat]
  exact hdigit

theorem readNumber_renderU64 (n : UInt64) {c : UInt8} (hc : isDigit c = false) (rest : Bytes) :
    readNumber (renderU64 n ++ c :: rest) = some (n, c :: rest) := by
  have hall : ∀ b ∈ renderU64 n, isDigit b = true := fun b hb => isDigit_of_mem_renderU64 hb
  rw [readNumber, List.takeWhile_append_of_pos hall, List.dropWhile_append_of_pos hall,
    List.takeWhile_cons_of_neg (by simp [hc]), List.dropWhile_cons_of_neg (by simp [hc]),
    List.append_nil, parseU64_renderU64]
  rfl

/-! ## Records -/

def nodeIdField : Bytes := bytes "\x7b\"node_id\":"
def fencingTokenField : Bytes := bytes ",\"fencing_token\":"
def acquiredAtField : Bytes := bytes ",\"acquired_at\":"
def expiresAtField : Bytes := bytes ",\"expires_at\":"
def expiresAtUnixField : Bytes := bytes ",\"expires_at_unix\":"

/-- The text of a record. -/
def writeRecord (r : LeaseRecord) : Bytes :=
  nodeIdField ++ (jsonString r.nodeId ++ (fencingTokenField ++ (renderU64 r.fencingToken ++
    (acquiredAtField ++ (jsonString r.acquiredAt ++ (expiresAtField ++ (jsonString r.expiresAt ++
      (expiresAtUnixField ++ (renderU64 r.expiresAtUnix ++ [125])))))))))

/-- The expiry of a record, `0` where the field is missing. -/
def readExpiresAtUnix (s : Bytes) : Option (UInt64 × Bytes) :=
  match readLiteral expiresAtUnixField s with
  | some s => readNumber s
  | none => some (0, s)

def readRecord (s : Bytes) : Option LeaseRecord := do
  let s ← readLiteral nodeIdField s
  let (nodeId, s) ← readString s
  let s ← readLiteral fencingTokenField s
  let (fencingToken, s) ← readNumber s
  let s ← readLiteral acquiredAtField s
  let (acquiredAt, s) ← readString s
  let s ← readLiteral expiresAtField s
  let (expiresAt, s) ← readString s
  let (expiresAtUnix, s) ← readExpiresAtUnix s
  if s = [125] then some ⟨nodeId, fencingToken, acquiredAt, expiresAt, expiresAtUnix⟩ else none

/-- **A record is read back.** -/
theorem readRecord_writeRecord (r : LeaseRecord) : readRecord (writeRecord r) = some r := by
  have hfield : ∀ rest : Bytes, ∃ c tail, acquiredAtField ++ rest = c :: tail ∧ isDigit c = false :=
    fun rest => ⟨44, _, rfl, rfl⟩
  have htoken : ∀ rest : Bytes, readNumber (renderU64 r.fencingToken ++ (acquiredAtField ++ rest)) =
      some (r.fencingToken, acquiredAtField ++ rest) := by
    intro rest
    obtain ⟨c, tail, heq, hc⟩ := hfield rest
    rw [heq]
    exact readNumber_renderU64 _ hc _
  have hexpiry : readExpiresAtUnix (expiresAtUnixField ++ (renderU64 r.expiresAtUnix ++ [125])) =
      some (r.expiresAtUnix, [125]) := by
    rw [readExpiresAtUnix, readLiteral_append]
    exact readNumber_renderU64 _ rfl []
  simp only [readRecord, writeRecord, readLiteral_append, readString_jsonString, htoken, hexpiry,
    Option.bind_eq_bind, Option.bind_some, if_true]

/-- The interface. -/
def plainJson : LeaseJson where
  toVec := writeRecord
  fromSlice s := match readRecord s with
    | some r => .ok r
    | none => .error "not a lease record"
  fromSlice_toVec r := by rw [readRecord_writeRecord]

/-- A record that predates the last field has no date. -/
example : (plainJson.fromSlice (bytes ("\x7b\"node_id\":\"a\",\"fencing_token\":7," ++
    "\"acquired_at\":\"x\",\"expires_at\":\"y\"\x7d"))).toOption =
      some ⟨"a", 7, "x", "y", 0⟩ := by decide +kernel

end ClusterNats.Lease
