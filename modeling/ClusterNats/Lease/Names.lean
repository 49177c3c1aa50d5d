import ClusterNats.Codec.Subjects
import ClusterNats.Lease.Store

/-!
# Lease names

A lease name becomes the key of a lease and, with `fencing.` in front, of its
counter.  It is checked before either is built.

* `validateLeaseKey` — the check.
* `utf8EncodeChar_cases`, `isKeyByte_all` — which characters a valid key holds.
* `isValidKey_append` — the keys built from a name are valid as the name is.
* `validateLeaseKey_exact` — for which names the check says whether the keys
  are valid.
-/

namespace ClusterNats.Lease

/-- `LEADERSHIP_PREFIX`. -/
def leadershipPrefix : String := "leadership"

/-- `LOCK_PREFIX`. -/
def lockPrefix : String := "lock"

/-- The key of a role's lease. -/
def leadershipKey (role : String) : String := leadershipPrefix ++ "." ++ role

/-- The key of a lock's lease. -/
def lockKey (key : String) : String := lockPrefix ++ "." ++ key

/-- `validate_lease_key`. -/
def validateLeaseKey (label key : String) : Except ClusterError Unit :=
  if isBlank key then .error (.invalidReference s!"lease {label} must not be empty")
  else if key.toList.head? = some '.' ∨ key.toList.getLast? = some '.' then
    .error (.invalidReference
      s!"lease {label} `{key}` must not start or end with `.` (JS KV constraint)")
  else if '*' ∈ key.toList ∨ '>' ∈ key.toList then
    .error (.invalidReference
      s!"lease {label} `{key}` must not contain NATS subject wildcards (`*` / `>`)")
  else .ok ()

theorem validateLeaseKey_eq_ok {label key : String} : validateLeaseKey label key = .ok () ↔
    isBlank key = false ∧ key.toList.head? ≠ some '.' ∧ key.toList.getLast? ≠ some '.' ∧
      '*' ∉ key.toList ∧ '>' ∉ key.toList := by
  unfold validateLeaseKey
  split
  · simp_all
  · split
    · rename_i h
      simp only [reduceCtorEq, false_iff]
      rintro ⟨-, hhead, hlast, -⟩
      rcases h with h | h
      · exact hhead h
      · exact hlast h
    · split
      · rename_i h
        simp only [reduceCtorEq, false_iff]
        rintro ⟨-, -, -, hstar, hgt⟩
        rcases h with h | h
        · exact hstar h
        · exact hgt h
      · simp_all

/-! ## Characters and bytes -/

theorem bytes_eq_flatMap (s : String) : bytes s = s.toList.flatMap String.utf8EncodeChar := by
  rw [bytes, ← String.utf8Encode_toList]
  simp [List.utf8Encode]

/-- A character is one byte, or several that are no ASCII. -/
theorem utf8EncodeChar_cases (c : Char) :
    (c.toNat < 128 ∧ String.utf8EncodeChar c = [UInt8.ofNat c.toNat]) ∨
      (128 ≤ c.toNat ∧ ∀ b ∈ String.utf8EncodeChar c, 128 ≤ b.toNat) := by
  have hbyte : ∀ n, 128 ≤ n → n < 256 → 128 ≤ (UInt8.ofNat n).toNat := by
    intro n hn hn'
    rw [UInt8.toNat_ofNat_of_lt' hn']
    exact hn
  have hval : c.toNat = c.val.toNat := rfl
  fun_cases String.utf8EncodeChar c with
  | case1 v h => exact .inl ⟨by omega, rfl⟩
  | case2 v h h' =>
    refine .inr ⟨by omega, fun b hb => ?_⟩
    simp only [List.mem_cons, List.not_mem_nil, or_false] at hb
    rcases hb with rfl | rfl
    all_goals exact hbyte _ (by omega) (by omega)
  | case3 v h h' h'' =>
    refine .inr ⟨by omega, fun b hb => ?_⟩
    simp only [List.mem_cons, List.not_mem_nil, or_false] at hb
    rcases hb with rfl | rfl | rfl
    all_goals exact hbyte _ (by omega) (by omega)
  | case4 v h h' h'' =>
    refine .inr ⟨by omega, fun b hb => ?_⟩
    simp only [List.mem_cons, List.not_mem_nil, or_false] at hb
    rcases hb with rfl | rfl | rfl | rfl
    all_goals exact hbyte _ (by omega) (by omega)

theorem utf8EncodeChar_ne_nil (c : Char) : String.utf8EncodeChar c ≠ [] := by
  rcases utf8EncodeChar_cases c with ⟨-, h⟩ | ⟨-, -⟩
  · simp [h]
  · fun_cases String.utf8EncodeChar c <;> simp

/-- A byte of an ASCII character is that character. -/
theorem char_of_mem {c : Char} {b : UInt8} (hb : b ∈ String.utf8EncodeChar c) (h : b.toNat < 128) :
    String.utf8EncodeChar c = [b] ∧ b = UInt8.ofNat c.toNat ∧ c.toNat = b.toNat := by
  rcases utf8EncodeChar_cases c with ⟨hc, heq⟩ | ⟨-, hall⟩
  · rw [heq] at hb
    obtain rfl := List.mem_singleton.1 hb
    refine ⟨heq, rfl, ?_⟩
    rw [UInt8.toNat_ofNat_of_lt' (Nat.lt_trans hc (by decide))]
  · have hbig := hall b hb
    omega

theorem char_ext {c d : Char} (h : c.toNat = d.toNat) : c = d :=
  Char.ext (UInt32.toNat_inj.1 h)

/-- An ASCII character of a text is a byte of it. -/
theorem mem_bytes_of_mem {s : String} {c : Char} (h : c ∈ s.toList) (hc : c.toNat < 128) :
    UInt8.ofNat c.toNat ∈ bytes s := by
  rw [bytes_eq_flatMap]
  refine List.mem_flatMap.2 ⟨c, h, ?_⟩
  rcases utf8EncodeChar_cases c with ⟨-, heq⟩ | ⟨hbig, -⟩
  · simp [heq]
  · omega

/-- The last byte of a text is `.` when its last character is. -/
theorem getLast?_bytes_eq_dot {s : String} :
    (bytes s).getLast? = some dot ↔ s.toList.getLast? = some '.' := by
  rw [bytes_eq_flatMap]
  rcases List.eq_nil_or_concat s.toList with hs | ⟨cs, c, hs⟩
  · simp [hs]
  · have hne := utf8EncodeChar_ne_nil c
    rw [hs, List.concat_eq_append, List.flatMap_append]
    simp only [List.flatMap_cons, List.flatMap_nil, List.append_nil, List.getLast?_append,
      List.getLast?_singleton, Option.some_or, Option.some.injEq]
    constructor
    · intro h
      have hmem : dot ∈ String.utf8EncodeChar c := by
        cases hlast : (String.utf8EncodeChar c).getLast? with
        | none => exact absurd (List.getLast?_eq_none_iff.1 hlast) hne
        | some b =>
          rw [hlast, Option.some_or, Option.some.injEq] at h
          exact h ▸ List.mem_of_mem_getLast? hlast
      exact char_ext (char_of_mem hmem (by decide)).2.2
    · rintro rfl
      rfl

/-! ## Names and keys -/

/-- The bytes of a key are printable, and no wildcards. -/
theorem isKeyByte_range {b : UInt8} (h : isKeyByte b = true) :
    33 ≤ b.toNat ∧ b.toNat < 127 ∧ b.toNat ≠ 42 ∧ b.toNat ≠ 62 :=
  forall_byte (P := fun b => isKeyByte b = true →
    33 ≤ b.toNat ∧ b.toNat < 127 ∧ b.toNat ≠ 42 ∧ b.toNat ≠ 62) (by decide +kernel) b h

theorem isBlank_eq_false_of_key {s : String} (h : ∀ b ∈ bytes s, isKeyByte b = true) (hs : s ≠ "") :
    isBlank s = false := by
  rw [isBlank, Bool.eq_false_iff]
  intro hall
  cases hlist : s.toList with
  | nil =>
    refine hs (bytes_eq_nil.1 ?_)
    rw [bytes_eq_flatMap, hlist]
    rfl
  | cons c cs =>
    obtain ⟨b, bs, hb⟩ := List.exists_cons_of_ne_nil (utf8EncodeChar_ne_nil c)
    have hmem : b ∈ bytes s := by simp [bytes_eq_flatMap, hlist, hb]
    obtain ⟨hlow, hhigh, -, -⟩ := isKeyByte_range (h b hmem)
    have hchar := (char_of_mem (c := c) (b := b) (by simp [hb]) (by omega)).2.2
    have hwhite : isWhitespace c = true := List.all_eq_true.1 hall c (by simp [hlist])
    simp only [isWhitespace, Bool.or_eq_true, Bool.and_eq_true, decide_eq_true_eq] at hwhite
    omega

/-- A key holds no wildcard. -/
theorem not_mem_of_key {s : String} (h : ∀ b ∈ bytes s, isKeyByte b = true) {c : Char}
    (hc : c = '*' ∨ c = '>') : c ∉ s.toList := by
  intro hmem
  rcases hc with rfl | rfl
  · exact absurd (h _ (mem_bytes_of_mem hmem (by decide))) (by decide)
  · exact absurd (h _ (mem_bytes_of_mem hmem (by decide))) (by decide)

/-- A key built from a name is valid as the name is. -/
theorem isValidKey_append {pre name : String} (hhead : (bytes pre).head? ≠ some dot)
    (hlast : (bytes pre).getLast? = some dot) (hpre : ∀ b ∈ bytes pre, isKeyByte b = true) :
    isValidKey (bytes (pre ++ name)) = true ↔
      name ≠ "" ∧ name.toList.getLast? ≠ some '.' ∧ ∀ b ∈ bytes name, isKeyByte b = true := by
  have hne : bytes pre ≠ [] := by
    intro hnil
    simp [hnil] at hlast
  obtain ⟨b, bs, hb⟩ := List.exists_cons_of_ne_nil hne
  have hdots : name.toList.getLast? ≠ some '.' ↔ (bytes name).getLast? ≠ some dot :=
    not_congr getLast?_bytes_eq_dot.symm
  rw [isValidKey_iff, bytes_append, hdots]
  have hfirst : (bytes pre ++ bytes name).head? ≠ some dot := by
    simpa [hb] using hhead
  have hall : (∀ c ∈ bytes pre ++ bytes name, isKeyByte c = true) ↔
      ∀ c ∈ bytes name, isKeyByte c = true :=
    ⟨fun h c hc => h c (List.mem_append_right _ hc), fun h c hc =>
      (List.mem_append.1 hc).elim (hpre c) (h c)⟩
  rw [hall]
  by_cases hname : name = ""
  · subst hname
    have hempty : bytes "" = [] := rfl
    refine iff_of_false (fun h => h.2.2.1 ?_) (fun h => h.1 rfl)
    rw [hempty, List.append_nil]
    exact hlast
  · have hnil : bytes name ≠ [] := mt bytes_eq_nil.1 hname
    have hend : (bytes pre ++ bytes name).getLast? = (bytes name).getLast? := by
      rw [List.getLast?_append]
      cases hcase : (bytes name).getLast? with
      | none => exact absurd (List.getLast?_eq_none_iff.1 hcase) hnil
      | some c => rfl
    rw [hend]
    exact ⟨fun h => ⟨hname, h.2.2.1, h.2.2.2⟩, fun h => ⟨by simp [hne], hfirst, h.2.1, h.2.2⟩⟩

/-- A bucket takes the counter's key of a key it takes. -/
theorem isValidKey_fencingPath {key : String} (h : isValidKey (bytes key) = true) :
    isValidKey (bytes (fencingPath key)) = true := by
  obtain ⟨hne, -, hlast, hbytes⟩ := isValidKey_iff.1 h
  have hprefix : ∀ b ∈ bytes "fencing.", isKeyByte b = true := List.all_eq_true.1 (by decide)
  refine (isValidKey_append (by decide) (by decide) hprefix).2 ⟨?_, ?_, hbytes⟩
  · rintro rfl
    exact hne rfl
  · exact fun hdot => hlast (getLast?_bytes_eq_dot.2 hdot)

/-- A key that a bucket takes is not blank. -/
theorem isBlank_of_isValidKey {key : String} (h : isValidKey (bytes key) = true) :
    isBlank key = false := by
  obtain ⟨hne, -, -, hbytes⟩ := isValidKey_iff.1 h
  refine isBlank_eq_false_of_key hbytes ?_
  rintro rfl
  exact hne rfl

/-- The keys that a name becomes are valid, and the name is one. -/
def ValidName (name : String) : Prop :=
  (∀ key ∈ [leadershipKey name, lockKey name, fencingPath (leadershipKey name),
      fencingPath (lockKey name)], isValidKey (bytes key) = true) ∧
    name ≠ "" ∧ name.toList.head? ≠ some '.' ∧ name.toList.getLast? ≠ some '.'

theorem validName_iff {name : String} : ValidName name ↔ name ≠ "" ∧
    name.toList.head? ≠ some '.' ∧ name.toList.getLast? ≠ some '.' ∧
      ∀ b ∈ bytes name, isKeyByte b = true := by
  have hkey : ∀ pre ∈ ["leadership.", "lock.", "fencing.leadership.", "fencing.lock."],
      (isValidKey (bytes (pre ++ name)) = true ↔
        name ≠ "" ∧ name.toList.getLast? ≠ some '.' ∧ ∀ b ∈ bytes name, isKeyByte b = true) := by
    intro pre hpre
    simp only [List.mem_cons, List.not_mem_nil, or_false] at hpre
    rcases hpre with rfl | rfl | rfl | rfl
    all_goals exact isValidKey_append (by decide) (by decide) (List.all_eq_true.1 (by decide))
  have hfencing : fencingPath (leadershipKey name) = "fencing.leadership." ++ name ∧
      fencingPath (lockKey name) = "fencing.lock." ++ name := by
    simp only [fencingPath, leadershipKey, lockKey, leadershipPrefix, lockPrefix, ← String.append_assoc]
    exact ⟨rfl, rfl⟩
  unfold ValidName
  constructor
  · rintro ⟨hall, hne, hhead, hlast⟩
    have hlead := hall (leadershipKey name) (by simp)
    exact ⟨hne, hhead, hlast, ((hkey "leadership." (by simp)).1 hlead).2.2⟩
  · rintro ⟨hne, hhead, hlast, hbytes⟩
    refine ⟨fun key hmem => ?_, hne, hhead, hlast⟩
    rw [hfencing.1, hfencing.2] at hmem
    simp only [List.mem_cons, List.not_mem_nil, or_false] at hmem
    rcases hmem with rfl | rfl | rfl | rfl
    · exact (hkey "leadership." (by simp)).2 ⟨hne, hlast, hbytes⟩
    · exact (hkey "lock." (by simp)).2 ⟨hne, hlast, hbytes⟩
    · exact (hkey "fencing.leadership." (by simp)).2 ⟨hne, hlast, hbytes⟩
    · exact (hkey "fencing.lock." (by simp)).2 ⟨hne, hlast, hbytes⟩

/-- **The check tells the valid names** among those that hold the bytes of a key
only and those that it refuses for a blank, a `.` at an end or a wildcard; of
every other name it says nothing about the keys. -/
theorem validateLeaseKey_exact (label key : String) :
    (validateLeaseKey label key = .ok () ↔ ValidName key) ↔
      (∀ b ∈ bytes key, isKeyByte b = true) ∨ isBlank key = true ∨ key.toList.head? = some '.' ∨
        key.toList.getLast? = some '.' ∨ '*' ∈ key.toList ∨ '>' ∈ key.toList := by
  have hvalid : ValidName key → validateLeaseKey label key = .ok () := by
    intro h
    obtain ⟨hne, hhead, hlast, hbytes⟩ := validName_iff.1 h
    exact validateLeaseKey_eq_ok.2 ⟨isBlank_eq_false_of_key hbytes hne, hhead, hlast,
      not_mem_of_key hbytes (.inl rfl), not_mem_of_key hbytes (.inr rfl)⟩
  constructor
  · intro hiff
    by_contra hnot
    simp only [not_or, Bool.not_eq_true] at hnot
    obtain ⟨hbytes, hblank, hhead, hlast, hstar, hgt⟩ := hnot
    have haccept : validateLeaseKey label key = .ok () :=
      validateLeaseKey_eq_ok.2 ⟨hblank, hhead, hlast, hstar, hgt⟩
    exact hbytes (validName_iff.1 (hiff.1 haccept)).2.2.2
  · intro hcond
    refine ⟨fun haccept => ?_, hvalid⟩
    obtain ⟨hblank, hhead, hlast, hstar, hgt⟩ := validateLeaseKey_eq_ok.1 haccept
    have hne : key ≠ "" := by
      rintro rfl
      exact absurd hblank (by decide)
    rcases hcond with hbytes | h | h | h | h | h
    · exact validName_iff.2 ⟨hne, hhead, hlast, hbytes⟩
    · exact absurd (h.symm.trans hblank) (by simp)
    · exact absurd h hhead
    · exact absurd h hlast
    · exact absurd h hstar
    · exact absurd h hgt

/-- A name with a space is accepted, and none of its keys is valid. -/
theorem validateLeaseKey_exact_space : validateLeaseKey "role" "a b" = .ok () ∧ ¬ ValidName "a b" ∧
    ∀ key ∈ [leadershipKey "a b", lockKey "a b", fencingPath (leadershipKey "a b"),
      fencingPath (lockKey "a b")], isValidKey (bytes key) = false := by
  have hkeys : ∀ key ∈ [leadershipKey "a b", lockKey "a b", fencingPath (leadershipKey "a b"),
      fencingPath (lockKey "a b")], isValidKey (bytes key) = false := by decide +kernel
  refine ⟨by decide +kernel, fun hvalid => ?_, hkeys⟩
  have hmem : leadershipKey "a b" ∈ [leadershipKey "a b", lockKey "a b",
      fencingPath (leadershipKey "a b"), fencingPath (lockKey "a b")] := by simp
  exact absurd ((hvalid.1 _ hmem).symm.trans (hkeys _ hmem)) (by simp)

end ClusterNats.Lease
