import Attestation.Base.Bcs
import Attestation.Base.Utf8

/-! BCS as the `bcs` crate reads and writes it, field by field. A reader is the list of
bytes it has left. Each parser accepts what the serializer writes and nothing else: a
length has to be minimal and within the limit, a string has to be UTF-8. -/

namespace Attestation.Bcs

open Result

/-! ### Writing -/

/-- `serialize_bytes`, `serialize_str` and a sequence of bytes. -/
def serializeBytes (bs : Bytes) : Except Error Bytes :=
  if maxSequenceLength < bs.length then .error (.exceededMaxLen bs.length) else .ok (bytes bs)

theorem serializeBytes_eq_ok {bs out : Bytes} :
    serializeBytes bs = .ok out ↔ bs.length < 2 ^ 31 ∧ out = bytes bs := by
  unfold serializeBytes maxSequenceLength
  split_ifs with h
  · exact iff_of_false (fun h => nomatch h) (fun ⟨hlen, _⟩ => by omega)
  · rw [Except.ok.injEq, eq_comm]
    exact (and_iff_right (by omega)).symm

/-! ### Reading -/

inductive ReadError where
  | eof
  | exceededMaxLen (len : ℕ)
  | integerOverflowDuringUleb128Decoding
  | nonCanonicalUleb128Encoding
  | remainingInput
  | utf8
  deriving DecidableEq, Repr

/-- The loop of `parse_u32_from_uleb128`, with the rounds it has left. -/
def ulebLoop : ℕ → ℕ → ℕ → Bytes → Except ReadError (ℕ × Bytes)
  | 0, _, _, _ => .error .integerOverflowDuringUleb128Decoding
  | _ + 1, _, _, [] => .error .eof
  | rounds + 1, shift, value, byte :: r =>
    let digit := byte &&& 0x7F
    let value := value ||| digit.toNat <<< shift
    if digit = byte then
      -- the last digit of several is not zero
      if shift > 0 ∧ digit = 0 then .error .nonCanonicalUleb128Encoding
      else if value < 2 ^ 32 then .ok (value, r)
      else .error .integerOverflowDuringUleb128Decoding
    else ulebLoop rounds (shift + 7) value r

def parseU32FromUleb128 (r : Bytes) : Except ReadError (ℕ × Bytes) := ulebLoop 5 0 0 r

def parseLength (r : Bytes) : Except ReadError (ℕ × Bytes) := do
  let (len, r) ← parseU32FromUleb128 r
  if len > maxSequenceLength then .error (.exceededMaxLen len) else .ok (len, r)

/-- `parse_bytes`, and a sequence of bytes read one by one. -/
def parseBytes (r : Bytes) : Except ReadError (Bytes × Bytes) := do
  let (len, r) ← parseLength r
  if len ≤ r.length then .ok (r.take len, r.drop len) else .error .eof

def parseString (r : Bytes) : Except ReadError (String × Bytes) := do
  let (bs, r) ← parseBytes r
  match String.fromUTF8? ⟨bs.toArray⟩ with
  | some s => .ok (s, r)
  | none => .error .utf8

def parseU64 (r : Bytes) : Except ReadError (UInt64 × Bytes) :=
  if 8 ≤ r.length then .ok (UInt64.ofNat (ofLe (r.take 8)), r.drop 8) else .error .eof

/-- `end`: nothing is left. -/
def endOfInput (r : Bytes) : Except ReadError Unit :=
  if r = [] then .ok () else .error .remainingInput

/-! ### What the parsers accept -/

/-- With `k` digits read, the loop reads the digits that are left of the number. It has
rounds for any number below `2 ^ 32`. -/
theorem ulebLoop_eq_ok {rounds k value m : ℕ} {bs r : Bytes} (hrounds : rounds + k = 5)
    (hvalue : value < 2 ^ (7 * k)) :
    ulebLoop rounds (7 * k) value bs = .ok (m, r) ↔
      ∃ n, bs = uleb128 n ++ r ∧ m = value + 2 ^ (7 * k) * n ∧ m < 2 ^ 32 ∧ (0 < k → n ≠ 0) := by
  induction rounds generalizing k value bs with
  | zero =>
    refine iff_of_false (fun h => nomatch h) ?_
    rintro ⟨n, -, rfl, hlt, hn⟩
    obtain rfl : k = 5 := by omega
    have hpos := Nat.pos_of_ne_zero (hn (by norm_num))
    omega
  | succ rounds ih =>
    rcases bs with _ | ⟨byte, bs⟩
    · refine iff_of_false (fun h => nomatch h) ?_
      rintro ⟨n, hbs, -⟩
      exact uleb128_selfDelimiting.ne_nil n (List.append_eq_nil_iff.mp hbs.symm).1
    have hdigit : (byte &&& 0x7F).toNat = byte.toNat % 128 := toNat_and_0x7F byte
    have hor : value ||| (byte &&& 0x7F).toNat <<< (7 * k) =
        value + 2 ^ (7 * k) * (byte.toNat % 128) := by
      rw [hdigit, Nat.or_comm, ← Nat.shiftLeft_add_eq_or_of_lt hvalue, Nat.shiftLeft_eq,
        Nat.mul_comm, Nat.add_comm]
    have hlast : (byte &&& 0x7F) = byte ↔ byte.toNat < 128 := by
      rw [← UInt8.toNat_inj, hdigit]
      omega
    simp only [ulebLoop, hor, hlast, eq_comm (a := byte :: bs), uleb128_append_eq_cons]
    by_cases hbyte : byte.toNat < 128
    · have hzero : (byte &&& 0x7F) = 0 ↔ byte.toNat = 0 := by
        rw [hlast.mpr hbyte, ← UInt8.toNat_inj]
        rfl
      simp only [if_pos hbyte, hzero, Nat.mod_eq_of_lt hbyte]
      constructor
      · intro h
        split_ifs at h with hcanonical hlt
        obtain ⟨rfl, rfl⟩ := Prod.mk.inj (Except.ok.inj h)
        exact ⟨_, ⟨rfl, rfl⟩, rfl, hlt, fun hk hn => hcanonical ⟨by omega, hn⟩⟩
      · rintro ⟨_, ⟨rfl, rfl⟩, rfl, hlt, hn⟩
        rw [if_neg fun h => hn (by omega) h.2, if_pos hlt]
    · have hnext : value + 2 ^ (7 * k) * (byte.toNat % 128) < 2 ^ (7 * (k + 1)) := by
        have hmod : byte.toNat % 128 ≤ 127 := by omega
        have hmul := Nat.mul_le_mul_left (2 ^ (7 * k)) hmod
        rw [Nat.mul_add, pow_add]
        omega
      have hmod : byte.toNat % 128 = byte.toNat - 128 := by
        have := byte.toNat_lt
        omega
      have hvalues : ∀ n, value + 2 ^ (7 * k) * (byte.toNat % 128) + 2 ^ (7 * (k + 1)) * n =
          value + 2 ^ (7 * k) * (byte.toNat - 128 + 128 * n) := by
        intro n
        rw [hmod, Nat.mul_add 7 k 1, pow_add]
        ring
      simp only [if_neg hbyte]
      rw [show 7 * k + 7 = 7 * (k + 1) from rfl, ih (by omega) hnext]
      constructor
      · rintro ⟨n, rfl, rfl, hlt, hn⟩
        have hpos : n ≠ 0 := hn (by omega)
        exact ⟨_, ⟨n, hpos, rfl, rfl⟩, hvalues n, hlt, fun _ => by omega⟩
      · rintro ⟨_, ⟨n, hn, rfl, rfl⟩, rfl, hlt, -⟩
        exact ⟨n, rfl, (hvalues n).symm, hlt, fun _ => hn⟩

theorem parseU32FromUleb128_eq_ok {n : ℕ} {bs r : Bytes} :
    parseU32FromUleb128 bs = .ok (n, r) ↔ n < 2 ^ 32 ∧ bs = uleb128 n ++ r := by
  have hloop := @ulebLoop_eq_ok 5 0 0 n bs r rfl (by norm_num)
  rw [parseU32FromUleb128, hloop]
  simp only [mul_zero, pow_zero, one_mul, zero_add, lt_irrefl, false_imp_iff, and_true]
  constructor
  · rintro ⟨_, rfl, rfl, hlt⟩
    exact ⟨hlt, rfl⟩
  · rintro ⟨hlt, rfl⟩
    exact ⟨n, rfl, rfl, hlt⟩

theorem parseLength_eq_ok {len : ℕ} {bs r : Bytes} :
    parseLength bs = .ok (len, r) ↔ len < 2 ^ 31 ∧ bs = uleb128 len ++ r := by
  have hmax : len ≤ maxSequenceLength ↔ len < 2 ^ 31 := by
    unfold maxSequenceLength
    omega
  simp only [parseLength, bind_eq_ok, Prod.exists, parseU32FromUleb128_eq_ok]
  constructor
  · rintro ⟨n, r', ⟨-, rfl⟩, h⟩
    split_ifs at h with hlen
    obtain ⟨rfl, rfl⟩ := Prod.mk.inj (Except.ok.inj h)
    exact ⟨hmax.mp (not_lt.mp hlen), rfl⟩
  · rintro ⟨hlen, rfl⟩
    exact ⟨len, r, ⟨by omega, rfl⟩, if_neg (not_lt.mpr (hmax.mpr hlen))⟩

theorem parseBytes_eq_ok {xs bs r : Bytes} :
    parseBytes bs = .ok (xs, r) ↔ xs.length < 2 ^ 31 ∧ bs = bytes xs ++ r := by
  simp only [parseBytes, bind_eq_ok, Prod.exists, parseLength_eq_ok, bytes]
  constructor
  · rintro ⟨len, r, ⟨hlen, rfl⟩, h⟩
    split_ifs at h with hle
    obtain ⟨rfl, rfl⟩ := Prod.mk.inj (Except.ok.inj h)
    rw [List.length_take_of_le hle, List.append_assoc, List.take_append_drop]
    exact ⟨hlen, rfl⟩
  · rintro ⟨hlen, rfl⟩
    refine ⟨xs.length, xs ++ r, ⟨hlen, List.append_assoc _ _ _⟩, ?_⟩
    rw [if_pos (by simp), List.take_left, List.drop_left]

theorem parseString_eq_ok {s : String} {bs r : Bytes} :
    parseString bs = .ok (s, r) ↔ (asBytes s).length < 2 ^ 31 ∧ bs = bytes (asBytes s) ++ r := by
  simp only [parseString, bind_eq_ok, Prod.exists, parseBytes_eq_ok]
  constructor
  · rintro ⟨raw, r, ⟨hlen, rfl⟩, h⟩
    split at h
    · rename_i s hs
      obtain ⟨rfl, rfl⟩ := Prod.mk.inj (Except.ok.inj h)
      rw [fromUTF8?_eq_some] at hs
      exact ⟨hs ▸ hlen, by rw [hs]⟩
    · cases h
  · rintro ⟨hlen, rfl⟩
    refine ⟨asBytes s, r, ⟨hlen, rfl⟩, ?_⟩
    rw [fromUTF8?_eq_some.mpr rfl]

theorem parseU64_eq_ok {x : UInt64} {bs r : Bytes} :
    parseU64 bs = .ok (x, r) ↔ bs = u64 x ++ r := by
  unfold parseU64 u64
  constructor
  · intro h
    split_ifs at h with hlen
    obtain ⟨rfl, rfl⟩ := Prod.mk.inj (Except.ok.inj h)
    have htake : (bs.take 8).length = 8 := List.length_take_of_le hlen
    have hbytes := leBytes_ofLe (bs.take 8)
    rw [htake] at hbytes
    have hlt : ofLe (bs.take 8) < 2 ^ 64 := by
      have := congrArg ofLe hbytes
      rw [ofLe_leBytes] at this
      omega
    rw [UInt64.toNat_ofNat_of_lt' hlt, hbytes, List.take_append_drop]
  · rintro rfl
    have hlen : (leBytes 8 x.toNat).length = 8 := length_leBytes _ _
    have hvalue : ofLe (leBytes 8 x.toNat) = x.toNat := by
      rw [ofLe_leBytes]
      exact Nat.mod_eq_of_lt x.toNat_lt
    rw [if_pos (by simp), List.take_left' hlen, List.drop_left' hlen, hvalue, UInt64.ofNat_toNat]

theorem endOfInput_eq_ok {r : Bytes} {u : Unit} : endOfInput r = .ok u ↔ r = [] := by
  unfold endOfInput
  split_ifs with h <;> simp [h]

end Attestation.Bcs
