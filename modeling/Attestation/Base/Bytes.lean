import Attestation.Base.Fault
import Mathlib.Algebra.Order.Ring.Nat
import Mathlib.Data.Nat.Digits.Lemmas

/-! Byte strings, the UTF-8 bytes of a string, big- and little-endian integers,
and the slices and fixed-size arrays of Rust code, whose bounds checks panic. -/

namespace Attestation

abbrev Bytes := List UInt8

/-- `s.as_bytes()`. -/
def asBytes (s : String) : Bytes := s.toUTF8.data.toList

theorem asBytes_injective : Function.Injective asBytes := by
  intro s t h
  apply String.toByteArray_inj.mp
  exact ByteArray.ext (Array.toList_inj.mp h)

theorem asBytes_ofList (cs : List Char) :
    asBytes (String.ofList cs) = cs.flatMap String.utf8EncodeChar := by
  rw [asBytes, String.toUTF8_eq_toByteArray, String.toByteArray_ofList, List.utf8Encode,
    List.toList_data_toByteArray]

/-! ### Integers -/

/-- The low `n` bytes of `x`, most significant first. -/
def beBytes : ℕ → ℕ → Bytes
  | 0, _ => []
  | n + 1, x => UInt8.ofNat (x / 256 ^ n) :: beBytes n x

/-- The low `n` bytes of `x`, least significant first. -/
def leBytes : ℕ → ℕ → Bytes
  | 0, _ => []
  | n + 1, x => UInt8.ofNat x :: leBytes n (x / 256)

/-- The number a byte string writes most significant byte first. -/
def ofBe (bs : Bytes) : ℕ := bs.foldl (fun acc b => 256 * acc + b.toNat) 0

/-- The number a byte string writes least significant byte first. -/
def ofLe (bs : Bytes) : ℕ := bs.foldr (fun b acc => b.toNat + 256 * acc) 0

@[simp] theorem length_leBytes (n x : ℕ) : (leBytes n x).length = n := by
  induction n generalizing x with
  | zero => rfl
  | succ n ih => simp [leBytes, ih]

@[simp] theorem length_beBytes (n x : ℕ) : (beBytes n x).length = n := by
  induction n with
  | zero => rfl
  | succ n ih => simp [beBytes, ih]

/-- The last of the big-endian bytes is the low one. -/
theorem beBytes_succ (n x : ℕ) : beBytes (n + 1) x = beBytes n (x / 256) ++ [UInt8.ofNat x] := by
  induction n with
  | zero => simp [beBytes]
  | succ n ih =>
    rw [beBytes, ih, beBytes, Nat.div_div_eq_div_mul, ← pow_succ']
    rfl

theorem leBytes_inj {n x y : ℕ} (hx : x < 256 ^ n) (hy : y < 256 ^ n)
    (h : leBytes n x = leBytes n y) : x = y := by
  induction n generalizing x y with
  | zero => simp at hx hy; omega
  | succ n ih =>
    simp only [leBytes, List.cons.injEq] at h
    have hlow : x % 256 = y % 256 := by simpa using congrArg UInt8.toNat h.1
    rw [pow_succ] at hx hy
    have hhigh : x / 256 = y / 256 := ih (by omega) (by omega) h.2
    omega

theorem ofLe_leBytes {n x : ℕ} : ofLe (leBytes n x) = x % 256 ^ n := by
  induction n generalizing x with
  | zero => simp [leBytes, ofLe, Nat.mod_one]
  | succ n ih =>
    have htail : ofLe (leBytes (n + 1) x) = (UInt8.ofNat x).toNat + 256 * ofLe (leBytes n (x / 256)) :=
      rfl
    have hlow : (UInt8.ofNat x).toNat = x % 256 := UInt8.toNat_ofNat'
    rw [htail, ih, hlow, pow_succ', Nat.mod_mul]

/-- A byte string is the little-endian form of its number. -/
theorem leBytes_ofLe (bs : Bytes) : leBytes bs.length (ofLe bs) = bs := by
  induction bs with
  | nil => rfl
  | cons b bs ih =>
    have hvalue : ofLe (b :: bs) = b.toNat + 256 * ofLe bs := rfl
    have hhigh : (b.toNat + 256 * ofLe bs) / 256 = ofLe bs := by
      have hb := b.toNat_lt
      omega
    have hlow : UInt8.ofNat (b.toNat + 256 * ofLe bs) = b := by
      rw [← UInt8.toNat_inj, UInt8.toNat_ofNat', Nat.add_mul_mod_self_left]
      exact Nat.mod_eq_of_lt b.toNat_lt
    rw [List.length_cons, leBytes, hvalue, hhigh, hlow, ih]

theorem leBytes_u64_injective : Function.Injective (fun x : UInt64 => leBytes 8 x.toNat) := by
  intro x y h
  exact UInt64.toNat_inj.mp (leBytes_inj (by simpa using x.toNat_lt) (by simpa using y.toNat_lt) h)

theorem ofBe_cons (b : UInt8) (bs : Bytes) : ofBe (b :: bs) = b.toNat * 256 ^ bs.length + ofBe bs := by
  have hfold : ∀ (bs : Bytes) (acc : ℕ), bs.foldl (fun acc b => 256 * acc + b.toNat) acc =
      acc * 256 ^ bs.length + ofBe bs := by
    intro bs
    induction bs with
    | nil => simp [ofBe]
    | cons b bs ih =>
      intro acc
      rw [ofBe, List.foldl_cons, List.foldl_cons, ih, ih, List.length_cons, pow_succ]
      ring
  rw [ofBe, List.foldl_cons, hfold]
  simp

theorem ofBe_eq_ofDigits (bs : Bytes) :
    ofBe bs = Nat.ofDigits 256 (bs.map UInt8.toNat).reverse := by
  induction bs with
  | nil => rfl
  | cons b bs ih =>
    rw [ofBe_cons, ih, List.map_cons, List.reverse_cons, Nat.ofDigits_append, Nat.ofDigits_singleton,
      List.length_reverse, List.length_map]
    ring

theorem ofBe_beBytes {n x : ℕ} : ofBe (beBytes n x) = x % 256 ^ n := by
  induction n with
  | zero => simp [beBytes, ofBe, Nat.mod_one]
  | succ n ih =>
    have hbyte : (UInt8.ofNat (x / 256 ^ n)).toNat = x / 256 ^ n % 256 := UInt8.toNat_ofNat'
    rw [beBytes, ofBe_cons, length_beBytes, ih, hbyte, pow_succ, Nat.mod_mul]
    ring

theorem beBytes_inj {n x y : ℕ} (hx : x < 256 ^ n) (hy : y < 256 ^ n)
    (h : beBytes n x = beBytes n y) : x = y := by
  have hvalue := congrArg ofBe h
  rwa [ofBe_beBytes, ofBe_beBytes, Nat.mod_eq_of_lt hx, Nat.mod_eq_of_lt hy] at hvalue

theorem ofBe_lt (bs : Bytes) : ofBe bs < 256 ^ bs.length := by
  induction bs with
  | nil => simp [ofBe]
  | cons b bs ih =>
    have hb := b.toNat_lt
    rw [ofBe_cons, List.length_cons, pow_succ]
    nlinarith

theorem ofNat_add_mul (b : UInt8) (k : ℕ) : UInt8.ofNat (b.toNat + k * 256) = b := by
  rw [← UInt8.toNat_inj, UInt8.toNat_ofNat', Nat.add_mul_mod_self_right]
  exact Nat.mod_eq_of_lt b.toNat_lt

/-- A byte string is the big-endian form of its number. -/
theorem beBytes_ofBe (bs : Bytes) : beBytes bs.length (ofBe bs) = bs := by
  induction bs using List.reverseRecOn with
  | nil => rfl
  | append_singleton bs b ih =>
    have hvalue : ofBe (bs ++ [b]) = b.toNat + ofBe bs * 256 := by
      rw [ofBe, List.foldl_append, ← ofBe]
      simp only [List.foldl_cons, List.foldl_nil]
      ring
    have hhigh : (b.toNat + ofBe bs * 256) / 256 = ofBe bs := by
      have hb := b.toNat_lt
      omega
    rw [List.length_append, List.length_singleton, beBytes_succ, hvalue, hhigh, ih, ofNat_add_mul]

theorem beBytes_ofBe_of_length {n : ℕ} {bs : Bytes} (h : bs.length = n) :
    beBytes n (ofBe bs) = bs := by
  rw [← h, beBytes_ofBe]

/-- Leading zero bytes do not change the number. -/
theorem ofBe_dropWhile (bs : Bytes) : ofBe (bs.dropWhile (· == 0)) = ofBe bs := by
  induction bs with
  | nil => rfl
  | cons b bs ih =>
    rw [List.dropWhile_cons]
    split_ifs with hb
    · rw [ih, beq_iff_eq.mp hb]
      rfl
    · rfl

/-- Without leading zero bytes, a number is written in one way. -/
theorem dropWhile_eq_of_ofBe_eq {as bs : Bytes} (h : ofBe as = ofBe bs) :
    as.dropWhile (· == 0) = bs.dropWhile (· == 0) := by
  have digits : ∀ cs : Bytes, Nat.digits 256 (ofBe cs) =
      ((cs.dropWhile (· == 0)).map UInt8.toNat).reverse := by
    intro cs
    rw [← ofBe_dropWhile, ofBe_eq_ofDigits]
    refine Nat.digits_ofDigits 256 (by norm_num) _ ?_ ?_
    · intro d hd
      obtain ⟨b, -, rfl⟩ := List.mem_map.mp (List.mem_reverse.mp hd)
      exact b.toNat_lt
    · intro hne
      rw [List.getLast_reverse, List.head_map]
      have hnil : cs.dropWhile (· == 0) ≠ [] := by simpa using hne
      have := List.head_dropWhile_not (· == 0) hnil
      simpa [← UInt8.toNat_inj] using this
  have := (digits as).symm.trans ((congrArg _ h).trans (digits bs))
  exact List.map_injective_iff.mpr (fun _ _ => UInt8.toNat_inj.mp) (List.reverse_injective this)

/-! ### Bits of a byte -/

theorem toNat_and_0x7F (b : UInt8) : (b &&& 0x7F).toNat = b.toNat % 128 := by
  rw [UInt8.toNat_and]
  exact Nat.and_two_pow_sub_one_eq_mod b.toNat 7

theorem toNat_and_0x1F (b : UInt8) : (b &&& 0x1F).toNat = b.toNat % 32 := by
  rw [UInt8.toNat_and]
  exact Nat.and_two_pow_sub_one_eq_mod b.toNat 5

theorem and_0x80_eq_zero (b : UInt8) : b &&& 0x80 = 0 ↔ b.toNat < 128 := by
  have h : ∀ n < 256, n &&& 128 = 0 ↔ n < 128 := by decide +kernel
  rw [← UInt8.toNat_inj, UInt8.toNat_and]
  exact h b.toNat b.toNat_lt

/-! ### Positions -/

theorem drop_eq_cons_iff {bytes rest : Bytes} {pos : ℕ} {b : UInt8} :
    bytes.drop pos = b :: rest ↔ bytes[pos]? = some b ∧ bytes.drop (pos + 1) = rest := by
  have hhead : bytes[pos]? = (bytes.drop pos).head? := by rw [List.head?_drop]
  rw [hhead, ← List.tail_drop]
  cases bytes.drop pos <;> simp

theorem length_lt_of_drop_eq_cons {bytes rest : Bytes} {pos : ℕ} {b : UInt8}
    (h : bytes.drop pos = b :: rest) : pos < bytes.length := by
  by_contra hge
  rw [List.drop_eq_nil_of_le (Nat.not_lt.mp hge)] at h
  cases h

theorem drop_of_append {bytes xs rest : Bytes} {pos : ℕ} (h : bytes.drop pos = xs ++ rest) :
    bytes.drop (pos + xs.length) = rest := by
  rw [← List.drop_drop, h, List.drop_left]

/-! ### Slices and arrays -/

section Slices
variable {ε : Type}

/-- `bytes[i]`. -/
def index (bytes : Bytes) (i : ℕ) : Result ε UInt8 := Result.expect bytes[i]?

/-- `&bytes[lo..hi]`. -/
def slice (bytes : Bytes) (lo hi : ℕ) : Result ε Bytes :=
  if lo ≤ hi ∧ hi ≤ bytes.length then .ok ((bytes.drop lo).take (hi - lo)) else .error .panic

/-- `copy_from_slice` into, or `try_into().expect(..)` for, an array of `n` bytes. -/
def toArray (n : ℕ) (bytes : Bytes) : Result ε (Vector UInt8 n) :=
  if h : bytes.length = n then .ok ⟨bytes.toArray, by simpa using h⟩ else .error .panic

/-- `a + b` on `usize`. -/
def usizeAdd (a b : ℕ) : Result ε ℕ := if a + b < 2 ^ 64 then .ok (a + b) else .error .panic

theorem toArray_eq_ok {n : ℕ} {bytes : Bytes} {v : Vector UInt8 n} :
    (toArray n bytes : Result ε (Vector UInt8 n)) = .ok v ↔ bytes = v.toList := by
  unfold toArray
  split_ifs with h
  · simp only [Except.ok.injEq]
    constructor
    · rintro rfl; simp
    · rintro rfl
      apply Vector.toList_inj.mp
      simp
  · simp only [false_iff]
    rintro rfl
    simp at h

theorem index_eq_ok {bytes : Bytes} {pos : ℕ} {b : UInt8} :
    (index bytes pos : Result ε UInt8) = .ok b ↔ bytes[pos]? = some b := Result.expect_eq_ok

/-- A slice is what stands between its two positions. -/
theorem slice_eq_ok {bytes s : Bytes} {lo hi : ℕ} :
    (slice bytes lo hi : Result ε Bytes) = .ok s ↔
      lo ≤ hi ∧ hi ≤ bytes.length ∧ s.length = hi - lo ∧ bytes.drop lo = s ++ bytes.drop hi := by
  have hlen : ((bytes.drop lo).take (hi - lo)).length = min (hi - lo) (bytes.length - lo) := by
    rw [List.length_take, List.length_drop]
  unfold slice
  split_ifs with h
  · obtain ⟨hle, hhi⟩ := h
    have hdrop : bytes.drop hi = (bytes.drop lo).drop (hi - lo) := by
      rw [List.drop_drop, Nat.add_sub_cancel' hle]
    rw [Except.ok.injEq, hdrop]
    constructor
    · rintro rfl
      exact ⟨hle, hhi, by omega, (List.take_append_drop _ _).symm⟩
    · rintro ⟨-, -, hs, heq⟩
      rw [heq, ← hs, List.take_left]
  · simp only [false_iff]
    rintro ⟨hle, hhi, -⟩
    exact h ⟨hle, hhi⟩

theorem index_returns {bytes : Bytes} {pos : ℕ} (h : pos < bytes.length) :
    Result.Returns (index bytes pos : Result ε UInt8) := by
  rw [index, List.getElem?_eq_getElem h]
  exact .ok _

theorem slice_returns {bytes : Bytes} {lo hi : ℕ} (h : lo ≤ hi) (hhi : hi ≤ bytes.length) :
    Result.Returns (slice bytes lo hi : Result ε Bytes) := by
  rw [slice, if_pos ⟨h, hhi⟩]
  exact .ok _

theorem toArray_returns {n : ℕ} {bytes : Bytes} (h : bytes.length = n) :
    Result.Returns (toArray n bytes : Result ε (Vector UInt8 n)) := by
  rw [toArray, dif_pos h]
  exact .ok _

end Slices

end Attestation
