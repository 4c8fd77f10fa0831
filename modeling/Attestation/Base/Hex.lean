import Attestation.Base.Bytes

/-! Hexadecimal text: two lowercase digits a byte on the way out, either case on
the way in, and the base-16 value of a lowercase numeral of any length. -/

namespace Attestation.Hex

inductive FromHexError where
  | invalidHexCharacter (c : Char) (index : ℕ)
  | oddLength
  deriving DecidableEq, Repr

/-- The characters below U+0100 that `{:?}` prints as they are. -/
def isPrintable (n : ℕ) : Bool := 32 ≤ n ∧ n < 127 ∨ 160 < n ∧ n ≠ 173

/-- A character below U+0100 as `{:?}` prints it. -/
def debugChar (c : Char) : String :=
  let escaped :=
    match c.toNat with
    | 0 => "\\0"
    | 9 => "\\t"
    | 10 => "\\n"
    | 13 => "\\r"
    | 39 => "\\'"
    | 92 => "\\\\"
    | n => if isPrintable n then c.toString
        else "\\u\x7b" ++ String.ofList (Nat.toDigits 16 n) ++ "\x7d"
  "'" ++ escaped ++ "'"

def FromHexError.message : FromHexError → String
  | .invalidHexCharacter c index =>
    "Invalid character " ++ debugChar c ++ " at position " ++ toString index
  | .oddLength => "Odd number of digits"

/-- `format!("{b:02x}")`. -/
def byteDigits (b : UInt8) : List Char :=
  [Nat.digitChar (b.toNat / 16), Nat.digitChar (b.toNat % 16)]

/-- `hex::encode`. -/
def encode (bs : Bytes) : String := String.ofList (bs.flatMap byteDigits)

/-- The value of an ASCII hex digit of either case. -/
def val (c : UInt8) (index : ℕ) : Except FromHexError UInt8 :=
  if 65 ≤ c ∧ c ≤ 70 then .ok (c - 65 + 10)
  else if 97 ≤ c ∧ c ≤ 102 then .ok (c - 97 + 10)
  else if 48 ≤ c ∧ c ≤ 57 then .ok (c - 48)
  else .error (.invalidHexCharacter (Char.ofNat c.toNat) index)

def decodePairs : ℕ → Bytes → Except FromHexError Bytes
  | i, a :: b :: rest => do
    let hi ← val a i
    let lo ← val b (i + 1)
    let bs ← decodePairs (i + 2) rest
    pure ((hi <<< 4 ||| lo) :: bs)
  | _, _ => .ok []

/-- `hex::decode`. -/
def decode (s : String) : Except FromHexError Bytes :=
  if (asBytes s).length % 2 ≠ 0 then .error .oddLength else decodePairs 0 (asBytes s)

/-! ### Decoding what was encoded -/

theorem val_digit {n : ℕ} (hn : n < 16) (i : ℕ) :
    ∃ c, String.utf8EncodeChar (Nat.digitChar n) = [c] ∧ val c i = .ok (UInt8.ofNat n) := by
  interval_cases n <;> exact ⟨_, rfl, rfl⟩

theorem nibbles (b : UInt8) : UInt8.ofNat (b.toNat / 16) <<< 4 ||| UInt8.ofNat (b.toNat % 16) = b := by
  have h : ∀ n < 256, UInt8.ofNat (n / 16) <<< 4 ||| UInt8.ofNat (n % 16) = UInt8.ofNat n := by
    decide +kernel
  rw [h b.toNat b.toNat_lt, UInt8.ofNat_toNat]

theorem decodePairs_encode (bs : Bytes) (i : ℕ) :
    decodePairs i ((bs.flatMap byteDigits).flatMap String.utf8EncodeChar) = .ok bs := by
  induction bs generalizing i with
  | nil => rfl
  | cons b bs ih =>
    have hb := b.toNat_lt
    obtain ⟨hi, hhi, vhi⟩ := val_digit (n := b.toNat / 16) (by omega) i
    obtain ⟨lo, hlo, vlo⟩ := val_digit (n := b.toNat % 16) (by omega) (i + 1)
    simp only [List.flatMap_cons, byteDigits, List.cons_append, List.nil_append, hhi, hlo,
      decodePairs, vhi, vlo, ih, bind, Except.bind, pure, Except.pure, nibbles]

theorem length_encode_even (bs : Bytes) :
    ((bs.flatMap byteDigits).flatMap String.utf8EncodeChar).length % 2 = 0 := by
  induction bs with
  | nil => rfl
  | cons b bs ih =>
    have hb := b.toNat_lt
    obtain ⟨hi, hhi, -⟩ := val_digit (n := b.toNat / 16) (by omega) 0
    obtain ⟨lo, hlo, -⟩ := val_digit (n := b.toNat % 16) (by omega) 0
    simp only [List.flatMap_cons, byteDigits, List.cons_append, List.nil_append, hhi, hlo,
      List.length_cons]
    omega

@[simp] theorem decode_encode (bs : Bytes) : decode (encode bs) = .ok bs := by
  rw [decode, encode, asBytes_ofList, if_neg (by rw [length_encode_even]; simp)]
  exact decodePairs_encode bs 0

/-! ### Base-16 numerals -/

/-- The value of a lowercase hex digit. -/
def digitVal? (c : Char) : Option ℕ := (List.range 16).find? fun n => Nat.digitChar n == c

/-- Horner's rule over hex digits, most significant first. -/
def natOfDigits? : ℕ → List Char → Option ℕ
  | acc, [] => some acc
  | acc, c :: cs => (digitVal? c).bind fun d => natOfDigits? (16 * acc + d) cs

/-- The value of a nonempty lowercase hex numeral of any length. -/
def nat? (s : String) : Option ℕ := if s.toList = [] then none else natOfDigits? 0 s.toList

/-- A numeral written in whole octets: `0`, or an even number of digits of which
the first two are not both zero. -/
def WholeOctets (s : String) : Prop :=
  s = "0" ∨ s.toList.length % 2 = 0 ∧ s.toList.take 2 ≠ ['0', '0']

instance (s : String) : Decidable (WholeOctets s) := inferInstanceAs (Decidable (_ ∨ _))

/-- The whole-octet numeral of a big-endian byte string. -/
def octetNumeral (bs : Bytes) : String :=
  if bs.dropWhile (· == 0) = [] then "0" else encode (bs.dropWhile (· == 0))

theorem digitVal?_digitChar {n : ℕ} (hn : n < 16) : digitVal? (Nat.digitChar n) = some n := by
  interval_cases n <;> rfl

theorem digitVal?_eq_some {c : Char} {d : ℕ} (h : digitVal? c = some d) :
    d < 16 ∧ c = Nat.digitChar d := by
  have hmem := List.mem_of_find?_eq_some h
  have heq := List.find?_some h
  simp only [List.mem_range] at hmem
  exact ⟨hmem, (beq_iff_eq.mp heq).symm⟩

/-- Two digits read one byte. -/
theorem natOfDigits?_byteDigits (acc : ℕ) (b : UInt8) (cs : List Char) :
    natOfDigits? acc (byteDigits b ++ cs) = natOfDigits? (256 * acc + b.toNat) cs := by
  have hb := b.toNat_lt
  simp only [byteDigits, List.cons_append, List.nil_append, natOfDigits?,
    digitVal?_digitChar (n := b.toNat / 16) (by omega),
    digitVal?_digitChar (n := b.toNat % 16) (by omega), Option.bind_some]
  congr 1
  omega

theorem natOfDigits?_flatMap (acc : ℕ) (bs : Bytes) :
    natOfDigits? acc (bs.flatMap byteDigits) =
      some (bs.foldl (fun acc b => 256 * acc + b.toNat) acc) := by
  induction bs generalizing acc with
  | nil => rfl
  | cons b bs ih => rw [List.flatMap_cons, natOfDigits?_byteDigits, ih, List.foldl_cons]

/-- An even number of digits is the digits of some bytes. -/
theorem eq_flatMap_of_even : ∀ (cs : List Char) (acc : ℕ) {n : ℕ}, cs.length % 2 = 0 →
    natOfDigits? acc cs = some n → ∃ bs : Bytes, cs = bs.flatMap byteDigits
  | [], _, _, _, _ => ⟨[], rfl⟩
  | [_], _, _, hlen, _ => by simp at hlen
  | c :: d :: cs, acc, n, hlen, h => by
    simp only [natOfDigits?, Option.bind_eq_some_iff] at h
    obtain ⟨x, hx, y, hy, htail⟩ := h
    obtain ⟨bs, hbs⟩ := eq_flatMap_of_even cs _ (by simp at hlen; omega) htail
    obtain ⟨hx16, rfl⟩ := digitVal?_eq_some hx
    obtain ⟨hy16, rfl⟩ := digitVal?_eq_some hy
    refine ⟨UInt8.ofNat (16 * x + y) :: bs, ?_⟩
    have hb : (UInt8.ofNat (16 * x + y)).toNat = 16 * x + y := by
      rw [UInt8.toNat_ofNat']
      omega
    rw [List.flatMap_cons, byteDigits, hb, ← hbs]
    simp [show (16 * x + y) / 16 = x by omega, show (16 * x + y) % 16 = y by omega]

theorem byteDigits_eq_zeros {b : UInt8} (h : byteDigits b = ['0', '0']) : b = 0 := by
  have hb := b.toNat_lt
  have hdigit : ∀ n < 16, Nat.digitChar n = '0' → n = 0 := by decide
  simp only [byteDigits, List.cons.injEq, and_true] at h
  have h1 := hdigit _ (by omega) h.1
  have h2 := hdigit _ (by omega) h.2
  exact UInt8.toNat_inj.mp (by simp; omega)

theorem length_flatMap_byteDigits (bs : Bytes) :
    (bs.flatMap byteDigits).length = 2 * bs.length := by
  induction bs with
  | nil => rfl
  | cons b bs ih =>
    rw [List.flatMap_cons, List.length_append, ih, List.length_cons]
    simp [byteDigits]
    omega

/-- The whole-octet numeral of a byte string is the one numeral written in whole
octets that has its value. -/
theorem eq_octetNumeral_iff {s : String} {bs : Bytes} :
    s = octetNumeral bs ↔ WholeOctets s ∧ nat? s = some (ofBe bs) := by
  have hzero : nat? "0" = some 0 := by decide
  constructor
  · rintro rfl
    unfold octetNumeral
    split_ifs with hnil
    · refine ⟨.inl rfl, ?_⟩
      rw [hzero, ← ofBe_dropWhile, hnil]
      rfl
    · obtain ⟨b, cs, hcs⟩ := List.exists_cons_of_ne_nil hnil
      have hb : b ≠ 0 := by simpa [hcs] using List.head_dropWhile_not (· == 0) hnil
      constructor
      · refine .inr ⟨?_, fun h => hb ?_⟩
        · rw [encode, String.toList_ofList, length_flatMap_byteDigits]
          omega
        · apply byteDigits_eq_zeros
          simpa [hcs, encode, byteDigits] using h
      · rw [← ofBe_dropWhile, nat?, encode, String.toList_ofList,
          if_neg (by simp [hcs, byteDigits]), natOfDigits?_flatMap, ofBe]
  · rintro ⟨rfl | ⟨heven, hlead⟩, hval⟩
    · -- the numeral `0` has no digits of a nonzero byte string
      have h0 : ofBe bs = ofBe [] := by simpa [hzero, ofBe] using hval.symm
      rw [octetNumeral, if_pos]
      simpa using dropWhile_eq_of_ofBe_eq h0
    · unfold nat? at hval
      split_ifs at hval with hne
      obtain ⟨cs, hcs⟩ := eq_flatMap_of_even _ _ heven hval
      rw [hcs, natOfDigits?_flatMap, Option.some.injEq] at hval
      obtain ⟨b, ds, rfl⟩ := List.exists_cons_of_ne_nil (l := cs) (by rintro rfl; exact hne hcs)
      have hb : b ≠ 0 := by
        rintro rfl
        exact hlead (by rw [hcs]; rfl)
      have hdrop : (b :: ds).dropWhile (· == 0) = bs.dropWhile (· == 0) :=
        dropWhile_eq_of_ofBe_eq hval
      rw [List.dropWhile_cons_of_neg (by simpa using hb)] at hdrop
      rw [octetNumeral, ← hdrop, if_neg (by simp), encode, ← hcs, String.ofList_toList]

end Attestation.Hex
