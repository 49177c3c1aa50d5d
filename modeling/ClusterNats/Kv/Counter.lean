import ClusterNats.Kv.Calls

/-!
# A counter interface

The counter functions of the cluster API are a parameter of the model.  This
file has one interface that meets its law, with decimal counters, so that runs
can be evaluated.

* `parseI64` — decimal digits after an optional sign, in range.
* `parseI64_renderI64` — a rendered count parses to itself.
* `decimalCounters` — the interface.
* `decodeValue_renderI64` — a stored count reads as it was written.
-/

namespace ClusterNats

/-- `str::parse::<i64>`. -/
def parseI64 (s : Bytes) : Option Int64 :=
  let magnitude := parseDigits (if s.head? = some 43 ∨ s.head? = some 45 then s.tail else s)
  let signed (n : Nat) : Int := if s.head? = some 45 then -n else n
  (magnitude.map signed).bind fun n =>
    if Int64.minValue.toInt ≤ n ∧ n ≤ Int64.maxValue.toInt then some (Int64.ofInt n) else none

theorem head_renderNat_digit (n : Nat) : (renderNat n).head? ≠ some 45 := by
  intro h
  have hmem : (45 : UInt8) ∈ renderNat n := List.mem_of_mem_head? h
  obtain ⟨c, hc, h45⟩ := List.mem_map.1 hmem
  have hnat := congrArg UInt8.toNat h45
  rw [toNat_ofChar hc] at hnat
  have := isDigit_of_mem_toDigits hc
  have : (45 : UInt8).toNat = 45 := rfl
  omega

/-- **A rendered count parses to itself.** -/
theorem parseI64_renderI64 (n : Int64) : parseI64 (renderI64 n) = some n := by
  have hlo : Int64.minValue.toInt ≤ n.toInt := Int64.le_toInt n
  have hhi : n.toInt ≤ Int64.maxValue.toInt := Int.le_of_lt_add_one (Int64.toInt_lt n)
  have hrange : Int64.minValue.toInt ≤ n.toInt ∧ n.toInt ≤ Int64.maxValue.toInt := ⟨hlo, hhi⟩
  unfold parseI64 renderI64
  by_cases hneg : n.toInt < 0
  · have habs : -((n.toInt.natAbs : Nat) : Int) = n.toInt := by omega
    simp only [if_pos hneg, List.head?_cons, List.tail_cons, or_true, if_true,
      parseDigits_renderNat, Option.map_some, Option.bind_some, habs, if_pos hrange,
      Int64.ofInt_toInt]
  · have habs : ((n.toInt.natAbs : Nat) : Int) = n.toInt := by omega
    have hsign : ¬((renderNat n.toInt.natAbs).head? = some 43 ∨
        (renderNat n.toInt.natAbs).head? = some 45) := by
      rintro (h | h)
      · exact head_renderNat _ h
      · exact head_renderNat_digit _ h
    simp only [if_neg hneg, if_neg hsign, if_neg (head_renderNat_digit _), parseDigits_renderNat,
      Option.map_some, Option.bind_some, habs, if_pos hrange, Int64.ofInt_toInt]

/-- Decimal counters. -/
def decimalCounters : CounterApi where
  parseCounter value := match parseI64 value with
    | some n => .ok n
    | none => .error (.internal "counter value is not a number")
  floorAdd current floor delta := match checkedAdd current delta with
    | some next => .ok (max next floor)
    | none => .error (.internal "counter overflow")
  counterOverflow := .internal "counter overflow"
  parseCounter_renderI64 n := by rw [parseI64_renderI64]

/-! ## Stored counts -/

/-- A rendered count does not look like an envelope. -/
theorem magic_not_prefix_renderI64 (n : Int64) : ¬ ttlEnvelopeMagic <+: renderI64 n := by
  rintro ⟨rest, hrest⟩
  have hhead : (renderI64 n).head? = some 0 := by rw [← hrest]; rfl
  have hdigit : ∀ k : Nat, (renderNat k).head? ≠ some 0 := by
    intro k h
    obtain ⟨c, hc, h0⟩ := List.mem_map.1 (List.mem_of_mem_head? h)
    have hnat := congrArg UInt8.toNat h0
    rw [toNat_ofChar hc] at hnat
    have := isDigit_of_mem_toDigits hc
    have : (0 : UInt8).toNat = 0 := rfl
    omega
  unfold renderI64 at hhead
  split at hhead
  · exact absurd hhead (by simp)
  · exact hdigit _ hhead

@[simp] theorem decodeValue_renderI64 (n : Int64) (exp : Option UInt64) :
    decodeValue (encodeValue (renderI64 n) exp) = (renderI64 n, exp) :=
  decodeValue_encodeValue fun _ => magic_not_prefix_renderI64 n

end ClusterNats
