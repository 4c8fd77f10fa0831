import Attestation.Base.Bytes

/-! Two's complement integers as byte strings, most significant byte first: the
value is the unsigned number minus `256 ^ n` when the top bit is set. A string of
the fewest octets is written for every integer, and reading it gives the integer
back; copies of the sign in front change nothing. -/

namespace Attestation

/-- The integer a byte string writes in two's complement; nothing writes zero. -/
def intValue (bs : Bytes) : ℤ :=
  if 2 * ofBe bs < 256 ^ bs.length then ofBe bs else ofBe bs - 256 ^ bs.length

@[simp] theorem intValue_nil : intValue [] = 0 := rfl

/-! ### Sign and range -/

theorem top_iff (b : UInt8) (bs : Bytes) :
    2 * ofBe (b :: bs) < 256 ^ (b :: bs).length ↔ b.toNat < 128 := by
  have hlt := ofBe_lt bs
  rw [ofBe_cons, List.length_cons, pow_succ]
  generalize 256 ^ bs.length = m at hlt ⊢
  constructor
  · intro h
    by_contra hb
    nlinarith [Nat.mul_le_mul_right m (Nat.not_lt.mp hb)]
  · intro hb
    nlinarith [Nat.mul_le_mul_right m (Nat.le_of_lt_succ hb : b.toNat ≤ 127)]

theorem intValue_cons (b : UInt8) (bs : Bytes) :
    intValue (b :: bs) =
      if b.toNat < 128 then (ofBe (b :: bs) : ℤ) else ofBe (b :: bs) - 256 ^ (bs.length + 1) := by
  simp only [intValue, top_iff]
  rfl

/-- The top bit is the sign. -/
theorem intValue_nonneg_iff (b : UInt8) (bs : Bytes) : 0 ≤ intValue (b :: bs) ↔ b.toNat < 128 := by
  have hlt := ofBe_lt (b :: bs)
  rw [intValue_cons]
  split_ifs with hb
  · simp [hb]
  · rw [List.length_cons] at hlt
    have hcast : (ofBe (b :: bs) : ℤ) < 256 ^ (bs.length + 1) := by exact_mod_cast hlt
    simp only [hb, iff_false, not_le]
    linarith

theorem intValue_of_nonneg {bs : Bytes} (h : 0 ≤ intValue bs) : intValue bs = ofBe bs := by
  have hlt : (ofBe bs : ℤ) < 256 ^ bs.length := by exact_mod_cast ofBe_lt bs
  unfold intValue at h ⊢
  split_ifs at h ⊢
  · rfl
  · linarith

theorem intValue_bounds (bs : Bytes) :
    -(256 ^ bs.length : ℤ) ≤ 2 * intValue bs ∧ 2 * intValue bs < 256 ^ bs.length := by
  have hlt : (ofBe bs : ℤ) < 256 ^ bs.length := by exact_mod_cast ofBe_lt bs
  have hnonneg : (0 : ℤ) ≤ ofBe bs := by positivity
  unfold intValue
  split_ifs with h
  · have hcast : (2 * ofBe bs : ℤ) < 256 ^ bs.length := by exact_mod_cast h
    exact ⟨by linarith, hcast⟩
  · have hcast : (256 ^ bs.length : ℤ) ≤ 2 * ofBe bs := by exact_mod_cast Nat.not_lt.mp h
    exact ⟨by linarith, by linarith⟩

theorem intValue_emod (bs : Bytes) : intValue bs % 256 ^ bs.length = ofBe bs := by
  have hlt : (ofBe bs : ℤ) < 256 ^ bs.length := by exact_mod_cast ofBe_lt bs
  unfold intValue
  split_ifs
  · exact Int.emod_eq_of_lt (Int.natCast_nonneg _) hlt
  · rw [Int.sub_emod_right, Int.emod_eq_of_lt (Int.natCast_nonneg _) hlt]

/-- Eight copies of the sign. -/
def signOctet (bs : Bytes) : UInt8 := if 0 ≤ intValue bs then 0x00 else 0xFF

/-- A copy of the sign in front does not change the value. -/
theorem intValue_signOctet_cons (bs : Bytes) : intValue (signOctet bs :: bs) = intValue bs := by
  unfold signOctet
  split_ifs with h
  · rw [intValue_cons, if_pos (by decide), ofBe_cons, intValue_of_nonneg h]
    simp
  · have hbs : ¬ 2 * ofBe bs < 256 ^ bs.length := by
      intro htop
      rw [intValue, if_pos htop] at h
      exact h (by positivity)
    rw [intValue_cons, if_neg (by decide), ofBe_cons, intValue, if_neg hbs, pow_succ]
    push_cast
    ring

theorem intValue_replicate_append (n : ℕ) (bs : Bytes) :
    intValue (List.replicate n (signOctet bs) ++ bs) = intValue bs := by
  induction n with
  | zero => rfl
  | succ n ih =>
    have hsign := intValue_signOctet_cons (List.replicate n (signOctet bs) ++ bs)
    rw [signOctet, ih, ← signOctet] at hsign
    exact hsign

theorem intValue_beBytes {k : ℕ} {n : ℤ} (hlo : -(256 ^ k : ℤ) ≤ 2 * n) (hhi : 2 * n < 256 ^ k) :
    intValue (beBytes k (n % 256 ^ k).toNat) = n := by
  have hpos : (0 : ℤ) < 256 ^ k := by positivity
  have hcast : ((n % 256 ^ k).toNat : ℤ) = n % 256 ^ k :=
    Int.toNat_of_nonneg (Int.emod_nonneg _ hpos.ne')
  have hlt : (n % 256 ^ k).toNat < 256 ^ k := by
    have hmod := Int.emod_lt_of_pos n hpos
    rw [← hcast] at hmod
    exact_mod_cast hmod
  rw [intValue, ofBe_beBytes, length_beBytes, Nat.mod_eq_of_lt hlt, hcast]
  by_cases hn : 0 ≤ n
  · have hmod : n % 256 ^ k = n := Int.emod_eq_of_lt hn (by linarith)
    rw [hmod, if_pos]
    rw [hmod] at hcast
    exact_mod_cast hcast ▸ hhi
  · have hmod : n % 256 ^ k = n + 256 ^ k := by
      rw [← Int.add_emod_right, Int.emod_eq_of_lt (by linarith) (by linarith)]
    rw [hmod, if_neg]
    · ring
    · rw [hmod] at hcast
      intro h
      have : (2 * (n + 256 ^ k) : ℤ) < 256 ^ k := by
        rw [← hcast]
        exact_mod_cast h
      linarith

/-! ### The shortest form -/

/-- `n`, or its bitwise complement where it is negative. -/
def magnitude : ℤ → ℕ
  | .ofNat m => m
  | .negSucc m => m

/-- The number of octets of the shortest form of an integer. -/
def intOctets (n : ℤ) : ℕ := max 1 (Nat.digits 256 (2 * magnitude n)).length

/-- An integer in the fewest octets. -/
def encodeInt (n : ℤ) : Bytes := beBytes (intOctets n) (n % 256 ^ intOctets n).toNat

theorem magnitude_lt_iff {n : ℤ} {m : ℕ} :
    2 * magnitude n < 2 * m ↔ -(2 * m : ℤ) ≤ 2 * n ∧ 2 * n < 2 * m := by
  cases n with
  | ofNat k => simp only [magnitude, Int.ofNat_eq_natCast]; omega
  | negSucc k => simp only [magnitude, Int.negSucc_eq]; omega

/-- An integer fits into `k` octets when it is in range. -/
theorem intOctets_le_iff {n : ℤ} {k : ℕ} (hk : 1 ≤ k) :
    intOctets n ≤ k ↔ -(256 ^ k : ℤ) ≤ 2 * n ∧ 2 * n < 256 ^ k := by
  obtain ⟨m, hm⟩ : ∃ m, 256 ^ k = 2 * m :=
    (dvd_pow (by norm_num : 2 ∣ 256) (by omega) : 2 ∣ 256 ^ k)
  have hcast : (256 ^ k : ℤ) = 2 * m := by exact_mod_cast hm
  rw [intOctets, max_le_iff, Nat.digits_length_le_iff (by norm_num), hm, magnitude_lt_iff, hcast]
  exact ⟨fun h => h.2, fun h => ⟨hk, h⟩⟩

theorem one_le_intOctets (n : ℤ) : 1 ≤ intOctets n := le_max_left _ _

@[simp] theorem length_encodeInt (n : ℤ) : (encodeInt n).length = intOctets n := length_beBytes _ _

theorem length_encodeInt_le_iff {n : ℤ} {k : ℕ} (hk : 1 ≤ k) :
    (encodeInt n).length ≤ k ↔ -(256 ^ k : ℤ) ≤ 2 * n ∧ 2 * n < 256 ^ k := by
  rw [length_encodeInt, intOctets_le_iff hk]

@[simp] theorem intValue_encodeInt (n : ℤ) : intValue (encodeInt n) = n := by
  obtain ⟨hlo, hhi⟩ := (intOctets_le_iff (one_le_intOctets n)).mp le_rfl
  exact intValue_beBytes hlo hhi

/-- No shorter nonempty string has the value of the shortest form. -/
theorem intOctets_intValue_le {bs : Bytes} (h : bs ≠ []) : intOctets (intValue bs) ≤ bs.length :=
  (intOctets_le_iff (List.length_pos_of_ne_nil h)).mpr (intValue_bounds bs)

/-- A string as long as the shortest form of its value is that form. -/
theorem eq_encodeInt {bs : Bytes} (h : bs.length = intOctets (intValue bs)) :
    bs = encodeInt (intValue bs) := by
  rw [encodeInt, ← h, intValue_emod, Int.toNat_natCast, beBytes_ofBe]

/-- A first octet can be left out when it repeats the sign of what follows. -/
theorem intOctets_cons_le_iff (b c : UInt8) (bs : Bytes) :
    intOctets (intValue (b :: c :: bs)) ≤ bs.length + 1 ↔
      b.toNat = 0 ∧ c.toNat < 128 ∨ b.toNat = 255 ∧ ¬ c.toNat < 128 := by
  have hb := b.toNat_lt
  have hlt : (ofBe (c :: bs) : ℤ) < 256 ^ (bs.length + 1) := by exact_mod_cast ofBe_lt (c :: bs)
  have hnonneg : (0 : ℤ) ≤ ofBe (c :: bs) := by positivity
  have htop : (2 * ofBe (c :: bs) : ℤ) < 256 ^ (bs.length + 1) ↔ c.toNat < 128 := by
    rw [← top_iff c bs]
    exact_mod_cast Iff.rfl
  rw [intOctets_le_iff (Nat.le_add_left 1 bs.length), intValue_cons, ofBe_cons, ← htop]
  push_cast [List.length_cons, pow_succ (256 : ℤ) (bs.length + 1)]
  generalize (ofBe (c :: bs) : ℤ) = n at hlt hnonneg ⊢
  generalize (256 ^ (bs.length + 1) : ℤ) = m at hlt ⊢
  obtain hzero | hlow | hhigh | htop : b.toNat = 0 ∨ 1 ≤ b.toNat ∧ b.toNat < 128 ∨
      128 ≤ b.toNat ∧ b.toNat ≤ 254 ∨ b.toNat = 255 := by omega
  · simp only [hzero]
    norm_num
    omega
  · have hm : (1 : ℤ) * m ≤ b.toNat * m :=
      mul_le_mul_of_nonneg_right (by exact_mod_cast hlow.1) (by linarith)
    rw [if_pos hlow.2]
    constructor
    · rintro ⟨-, h⟩
      linarith
    · omega
  · have hm : (b.toNat : ℤ) * m ≤ 254 * m :=
      mul_le_mul_of_nonneg_right (by exact_mod_cast hhigh.2) (by linarith)
    rw [if_neg (by omega)]
    constructor
    · rintro ⟨h, -⟩
      linarith
    · omega
  · simp only [htop]
    norm_num
    omega

/-- The signed value of the machine word a byte string is. -/
theorem toInt_ofBe (bs : Bytes) :
    (BitVec.ofNat (8 * bs.length) (ofBe bs)).toInt = intValue bs := by
  have hpow : 2 ^ (8 * bs.length) = 256 ^ bs.length := by rw [pow_mul]; norm_num
  have hlt : ofBe bs < 2 ^ (8 * bs.length) := hpow ▸ ofBe_lt bs
  rw [BitVec.toInt_eq_toNat_cond, BitVec.toNat_ofNat, Nat.mod_eq_of_lt hlt, intValue, hpow]
  split_ifs
  · rfl
  · push_cast
    rfl

end Attestation
