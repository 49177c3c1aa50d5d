import Mathlib.Tactic.Common
import Mathlib.Order.Nat

/-!
# Text as bytes

Subjects, header values and payloads cross the wire as bytes; a key is a
string, that is a byte sequence in UTF-8.  This file has the two directions of
that (`bytes`, `fromUtf8`), the hex digits of an escape, and the decimal and
big-endian forms of a `u64`.

* `fromUtf8_bytes`, `bytes_of_fromUtf8`, `bytes_injective` — strings and bytes.
* `hexValue_hexByte` — an escape's digits read back as what was written.
* `parseU64_renderU64` — a rendered number parses to itself.
* `fromBeBytes_toBeBytes`, `toBeBytes_fromBeBytes` — the envelope's expiry.
-/

namespace ClusterNats

/-- A byte sequence: a payload, a subject or a header value. -/
abbrev Bytes := List UInt8

/-- `str::as_bytes`. -/
def bytes (s : String) : Bytes := s.toByteArray.data.toList

/-- `String::from_utf8(..).ok()`. -/
def fromUtf8 (b : Bytes) : Option String := String.fromUTF8? ⟨b.toArray⟩

/-! ## Strings -/

@[simp] theorem fromUtf8_bytes (s : String) : fromUtf8 (bytes s) = some s := by
  have h : s.toByteArray.IsValidUTF8 := s.isValidUTF8
  unfold fromUtf8 bytes String.fromUTF8?
  rw [Array.toArray_toList, dif_pos h]
  rfl

theorem bytes_of_fromUtf8 {b : Bytes} {s : String} (h : fromUtf8 b = some s) : bytes s = b := by
  unfold fromUtf8 String.fromUTF8? at h
  split at h
  · cases Option.some.inj h
    simp [bytes, String.fromUTF8]
  · exact absurd h (by simp)

theorem bytes_injective {s t : String} (h : bytes s = bytes t) : s = t := by
  have hs := fromUtf8_bytes s
  rw [h, fromUtf8_bytes] at hs
  exact (Option.some.inj hs).symm

@[simp] theorem bytes_append (s t : String) : bytes (s ++ t) = bytes s ++ bytes t := by
  simp [bytes]

/-- What stands before the first of a mark is known. -/
theorem eq_of_append_cons {α : Type} {a : α} {l l' m m' : List α} (hl : a ∉ l) (hl' : a ∉ l')
    (h : l ++ a :: m = l' ++ a :: m') : l = l' := by
  induction l generalizing l' with
  | nil =>
    cases l' with
    | nil => rfl
    | cons b l' => simp_all
  | cons b l ih =>
    cases l' with
    | nil => simp_all
    | cons b' l' =>
      simp only [List.cons_append, List.cons.injEq, List.mem_cons, not_or] at h hl hl'
      rw [h.1, ih hl.2 hl'.2 h.2]

/-- `char::is_whitespace`. -/
def isWhitespace (c : Char) : Bool :=
  (9 ≤ c.toNat && c.toNat ≤ 13) || c.toNat = 32 || c.toNat = 133 || c.toNat = 160 ||
    c.toNat = 5760 || (8192 ≤ c.toNat && c.toNat ≤ 8202) || c.toNat = 8232 || c.toNat = 8233 ||
    c.toNat = 8239 || c.toNat = 8287 || c.toNat = 12288

/-- `str::trim(..).is_empty()`. -/
def isBlank (s : String) : Bool := s.toList.all isWhitespace

/-! ## Characters of the wire alphabet -/

/-- `u8::is_ascii_alphanumeric`. -/
def isAlphanumeric (b : UInt8) : Bool :=
  (48 ≤ b && b ≤ 57) || (65 ≤ b && b ≤ 90) || (97 ≤ b && b ≤ 122)

/-- The escape character `=`. -/
abbrev escapeChar : UInt8 := 61

/-- The token separator `.`. -/
abbrev dot : UInt8 := 46

/-! ## Hex digits -/

/-- One digit of `{:02X}`. -/
def upperHex (d : UInt8) : UInt8 := if d < 10 then 48 + d else 55 + d

/-- The two digits of `{b:02X}`. -/
def hexByte (b : UInt8) : Bytes := [upperHex (b / 16), upperHex (b % 16)]

/-- `char::to_digit(16)`. -/
def hexValue (c : UInt8) : Option UInt8 :=
  if 48 ≤ c ∧ c ≤ 57 then some (c - 48)
  else if 65 ≤ c ∧ c ≤ 70 then some (c - 55)
  else if 97 ≤ c ∧ c ≤ 102 then some (c - 87)
  else none

/-- What holds of the 256 bytes one by one holds of every byte. -/
theorem forall_byte {P : UInt8 → Prop} (h : ∀ n < 256, P (UInt8.ofNat n)) (b : UInt8) : P b := by
  have hb := h b.toNat (UInt8.toNat_lt b)
  rwa [UInt8.ofNat_toNat] at hb

/-- The digits of an escape read back as the byte. -/
theorem hexValue_hexByte (b : UInt8) :
    hexValue (upperHex (b / 16)) = some (b / 16) ∧
      hexValue (upperHex (b % 16)) = some (b % 16) ∧ b / 16 * 16 + b % 16 = b :=
  forall_byte (P := fun b => hexValue (upperHex (b / 16)) = some (b / 16) ∧
    hexValue (upperHex (b % 16)) = some (b % 16) ∧ b / 16 * 16 + b % 16 = b) (by decide +kernel) b

/-- The digits of an escape are letters or digits, none past `F`. -/
theorem hexByte_alphanumeric (b : UInt8) :
    ∀ c ∈ hexByte b, isAlphanumeric c = true ∧ c ≤ 70 := by
  have hall : (hexByte b).all (fun c => isAlphanumeric c && c ≤ 70) = true :=
    forall_byte (P := fun b => (hexByte b).all (fun c => isAlphanumeric c && c ≤ 70) = true)
      (by decide +kernel) b
  intro c hc
  simpa using List.all_eq_true.1 hall c hc

/-! ## Decimal numbers -/

/-- A number in decimal. -/
def renderNat (n : Nat) : Bytes := (Nat.toDigits 10 n).map fun c => UInt8.ofNat c.toNat

/-- A `u64` in decimal (`HeaderValue::from`, `u64::to_string`). -/
def renderU64 (n : UInt64) : Bytes := renderNat n.toNat

/-- The digits of `str::parse::<u64>`, after an optional sign. -/
def parseDigits (s : Bytes) : Option Nat :=
  if s ≠ [] ∧ s.all (fun b => 48 ≤ b && b ≤ 57) then
    some (s.foldl (fun n b => 10 * n + (b.toNat - 48)) 0)
  else none

/-- `str::parse::<u64>`: decimal digits after an optional `+`, in range. -/
def parseU64 (s : Bytes) : Option UInt64 :=
  (parseDigits (if s.head? = some 43 then s.tail else s)).bind fun n =>
    if n < UInt64.size then some (UInt64.ofNat n) else none

theorem isDigit_of_mem_toDigits {c : Char} {n : Nat} (h : c ∈ Nat.toDigits 10 n) :
    48 ≤ c.toNat ∧ c.toNat ≤ 57 := by
  have hd := Nat.isDigit_of_mem_toDigits (by omega) (by omega) h
  have hle : (48 ≤ c.val ∧ c.val ≤ 57) := by simpa [Char.isDigit] using hd
  simpa [UInt32.le_iff_toNat_le] using hle

theorem toNat_ofChar {c : Char} {n : Nat} (h : c ∈ Nat.toDigits 10 n) :
    (UInt8.ofNat c.toNat).toNat = c.toNat := by
  have := isDigit_of_mem_toDigits h
  exact UInt8.toNat_ofNat_of_lt' (show _ < 256 by omega)

theorem foldl_digits (cs : List Char) (hcs : ∀ c ∈ cs, c.toNat < 256) (a : Nat) :
    (cs.map fun c => UInt8.ofNat c.toNat).foldl (fun n b => 10 * n + (b.toNat - 48)) a =
      Nat.ofDigitChars 10 cs a := by
  induction cs generalizing a with
  | nil => rfl
  | cons c cs ih =>
    have hc : (UInt8.ofNat c.toNat).toNat = c.toNat :=
      UInt8.toNat_ofNat_of_lt' (hcs c (by simp))
    rw [List.map_cons, List.foldl_cons, hc, ih fun d hd => hcs d (by simp [hd])]
    rfl

theorem renderNat_ne_nil (n : Nat) : renderNat n ≠ [] := by
  simp [renderNat]

theorem parseDigits_renderNat (n : Nat) : parseDigits (renderNat n) = some n := by
  have hall : (renderNat n).all (fun b => 48 ≤ b && b ≤ 57) = true := by
    rw [List.all_eq_true]
    intro b hb
    obtain ⟨c, hc, rfl⟩ := List.mem_map.1 hb
    have hd := isDigit_of_mem_toDigits hc
    simp only [Bool.and_eq_true, decide_eq_true_eq, UInt8.le_iff_toNat_le, toNat_ofChar hc]
    exact hd
  unfold parseDigits
  rw [if_pos ⟨renderNat_ne_nil n, hall⟩, renderNat, foldl_digits _ (fun c hc => ?_)]
  · rw [Nat.ofDigitChars_toDigits (by omega) (by omega)]
  · have := isDigit_of_mem_toDigits hc
    omega

theorem head_renderNat (n : Nat) : (renderNat n).head? ≠ some 43 := by
  intro h
  have hmem : (43 : UInt8) ∈ renderNat n := List.mem_of_mem_head? h
  obtain ⟨c, hc, h43⟩ := List.mem_map.1 hmem
  have hnat := congrArg UInt8.toNat h43
  rw [toNat_ofChar hc] at hnat
  have := isDigit_of_mem_toDigits hc
  have : (43 : UInt8).toNat = 43 := rfl
  omega

/-- **A rendered number parses to itself.** -/
@[simp] theorem parseU64_renderU64 (n : UInt64) : parseU64 (renderU64 n) = some n := by
  unfold parseU64 renderU64
  rw [if_neg (head_renderNat _), parseDigits_renderNat, Option.bind_some,
    if_pos (UInt64.toNat_lt n), UInt64.ofNat_toNat]

/-! ## Big-endian numbers -/

/-- `u64::to_be_bytes`. -/
def toBeBytes (n : UInt64) : Bytes :=
  [(n >>> 56).toUInt8, (n >>> 48).toUInt8, (n >>> 40).toUInt8, (n >>> 32).toUInt8,
    (n >>> 24).toUInt8, (n >>> 16).toUInt8, (n >>> 8).toUInt8, n.toUInt8]

/-- `u64::from_be_bytes`. -/
def fromBeBytes (b : Bytes) : UInt64 :=
  UInt64.ofNat (b.foldl (fun n d => n * 256 + d.toNat) 0)

@[simp] theorem length_toBeBytes (n : UInt64) : (toBeBytes n).length = 8 := rfl

theorem toBeBytes_eq (n : UInt64) : toBeBytes n =
    [UInt8.ofNat (n.toNat / 72057594037927936), UInt8.ofNat (n.toNat / 281474976710656),
      UInt8.ofNat (n.toNat / 1099511627776), UInt8.ofNat (n.toNat / 4294967296),
      UInt8.ofNat (n.toNat / 16777216), UInt8.ofNat (n.toNat / 65536), UInt8.ofNat (n.toNat / 256),
      UInt8.ofNat n.toNat] := by
  simp [toBeBytes, ← UInt8.toNat_inj, Nat.shiftRight_eq_div_pow]

@[simp] theorem fromBeBytes_toBeBytes (n : UInt64) : fromBeBytes (toBeBytes n) = n := by
  have hn := UInt64.toNat_lt n
  apply UInt64.toNat_inj.1
  simp only [fromBeBytes, toBeBytes_eq, List.foldl_cons, List.foldl_nil, UInt8.toNat_ofNat',
    UInt64.toNat_ofNat']
  omega

theorem toBeBytes_fromBeBytes {b : Bytes} (h : b.length = 8) : toBeBytes (fromBeBytes b) = b := by
  match b, h with
  | [b₀, b₁, b₂, b₃, b₄, b₅, b₆, b₇], _ =>
    have h₀ := UInt8.toNat_lt b₀
    have h₁ := UInt8.toNat_lt b₁
    have h₂ := UInt8.toNat_lt b₂
    have h₃ := UInt8.toNat_lt b₃
    have h₄ := UInt8.toNat_lt b₄
    have h₅ := UInt8.toNat_lt b₅
    have h₆ := UInt8.toNat_lt b₆
    have h₇ := UInt8.toNat_lt b₇
    simp only [fromBeBytes, toBeBytes_eq, List.foldl_cons, List.foldl_nil, UInt64.toNat_ofNat',
      List.cons.injEq, and_true, ← UInt8.toNat_inj, UInt8.toNat_ofNat']
    refine ⟨?_, ?_, ?_, ?_, ?_, ?_, ?_, ?_⟩ <;> omega

end ClusterNats
