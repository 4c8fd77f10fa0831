import Attestation.Base.TwosComplement
import Attestation.Base.Uleb128

/-! DER as the `der` crate reads and writes it. A reader is the list of bytes it
has left; each decoder returns a value and what follows it. Identifiers are
single octets, lengths are minimal and below `2 ^ 28`, integers are minimal
two's complement. Errors keep their kind and their tags, not byte counts and
positions. -/

namespace Attestation.Der

/-- An identifier octet. -/
abbrev Tag := UInt8

namespace Tag

def boolean : Tag := 0x01
def integer : Tag := 0x02
def bitString : Tag := 0x03
def octetString : Tag := 0x04
def objectIdentifier : Tag := 0x06
def enumerated : Tag := 0x0A
def sequence : Tag := 0x30
def set : Tag := 0x31

/-- The identifier octet of `[n]` with a constructed encoding. -/
def contextSpecific (n : ℕ) : Tag := UInt8.ofNat (0xA0 + n)

def universal : List (Tag × String) :=
  [(0x01, "BOOLEAN"), (0x02, "INTEGER"), (0x03, "BIT STRING"), (0x04, "OCTET STRING"),
    (0x05, "NULL"), (0x06, "OBJECT IDENTIFIER"), (0x09, "REAL"), (0x0A, "ENUMERATED"),
    (0x0C, "UTF8String"), (0x12, "NumericString"), (0x13, "PrintableString"),
    (0x14, "TeletexString"), (0x15, "VideotexString"), (0x16, "IA5String"), (0x17, "UTCTime"),
    (0x18, "GeneralizedTime"), (0x1A, "VisibleString"), (0x1E, "BMPString"),
    (0x30, "SEQUENCE"), (0x31, "SET")]

/-- The universal tags the crate has a name for, and every tag of another class. -/
def Known (t : Tag) : Prop := (universal.lookup t).isSome ∨ 0x40 ≤ t

instance (t : Tag) : Decidable (Known t) := inferInstanceAs (Decidable (_ ∨ _))

def className (t : Tag) : String :=
  if t < 0x80 then "APPLICATION" else if t < 0xC0 then "CONTEXT-SPECIFIC" else "PRIVATE"

def fieldType (t : Tag) : String := if t &&& 0x20 = 0 then "primitive" else "constructed"

def name (t : Tag) : String :=
  (universal.lookup t).getD
    (className t ++ " [" ++ toString (t &&& 0x1F).toNat ++ "] (" ++ fieldType t ++ ")")

/-- The octet as `0x{:02x}` prints it. -/
def hexOctet (t : Tag) : String :=
  "0x" ++ String.ofList [Nat.digitChar (t.toNat / 16), Nat.digitChar (t.toNat % 16)]

/-- The tag as `{:?}` prints it. -/
def debug (t : Tag) : String := "Tag(" ++ hexOctet t ++ ": " ++ name t ++ ")"

end Tag

inductive Error where
  | incomplete
  | indefiniteLength
  | length (tag : Tag)
  | noncanonical (tag : Tag)
  | overflow
  | overlength
  | tagNumberInvalid
  | tagUnexpected (expected actual : Tag)
  | tagUnknown (byte : UInt8)
  | trailingData
  | value (tag : Tag)
  deriving DecidableEq, Repr

/-- The text of the error's kind, less the byte counts and the position behind it. -/
def Error.message : Error → String
  | .incomplete => "ASN.1 DER message is incomplete"
  | .indefiniteLength => "indefinite length disallowed"
  | .length tag => "incorrect length for " ++ tag.name
  | .noncanonical tag => "ASN.1 " ++ tag.name ++ " not canonically encoded as DER"
  | .overflow => "integer overflow"
  | .overlength => "ASN.1 DER message is too long"
  | .tagNumberInvalid => "invalid tag number"
  | .tagUnexpected expected actual =>
    "unexpected ASN.1 DER tag: expected " ++ expected.name ++ ", got " ++ actual.name
  | .tagUnknown byte => "unknown/unsupported ASN.1 DER tag: " ++ Tag.hexOctet byte
  | .trailingData => "trailing data at end of DER message"
  | .value tag => "malformed ASN.1 DER value for " ++ tag.name

/-- `Length::MAX`. -/
def maxLength : ℕ := 2 ^ 28 - 1

/-! ### Reading -/

open Result

/-- `SliceReader::new`. -/
def sliceReader (bytes : Bytes) : Result Error Bytes := do
  ensure (bytes.length ≤ maxLength) .overlength
  pure bytes

/-- `Reader::read_slice`. -/
def readSlice (n : ℕ) (r : Bytes) : Result Error (Bytes × Bytes) := do
  ensure (n ≤ r.length) .incomplete
  pure (r.take n, r.drop n)

def readTag : Bytes → Result Error (Tag × Bytes)
  | [] => fail .incomplete
  | b :: r => do
    ensure (b &&& 0x1F ≠ 0x1F) .tagNumberInvalid
    ensure (Tag.Known b) (.tagUnknown b)
    pure (b, r)

/-- The number of octets after the first in a long-form length. -/
def lengthOctets (n : ℕ) : ℕ :=
  if n < 2 ^ 8 then 1 else if n < 2 ^ 16 then 2 else if n < 2 ^ 24 then 3 else 4

def readLength : Bytes → Result Error (ℕ × Bytes)
  | [] => fail .incomplete
  | b :: r =>
    if b < 0x80 then .ok (b.toNat, r)
    else if b = 0x80 then fail .indefiniteLength
    else if b ≤ 0x84 then do
      let (octets, r) ← readSlice (b.toNat - 0x80) r
      let n := ofBe octets
      ensure (n ≤ maxLength) .overflow
      -- a length that fits fewer octets, or the short form, is rejected
      ensure (0x80 ≤ n ∧ lengthOctets n = b.toNat - 0x80) .overlength
      pure (n, r)
    else fail .overlength

structure Header where
  tag : Tag
  length : ℕ
  deriving DecidableEq, Repr

/-- `Header::decode`. -/
def readHeader (r : Bytes) : Result Error (Header × Bytes) := do
  let (tag, r) ← readTag r
  let (length, r) ← mapErr (fun e => if e = .overlength then .length tag else e) (readLength r)
  pure (⟨tag, length⟩, r)

/-- The contents of a value with the given tag. -/
def readValue (tag : Tag) (r : Bytes) : Result Error (Bytes × Bytes) := do
  let (header, r) ← readHeader r
  ensure (header.tag = tag) (.tagUnexpected tag header.tag)
  readSlice header.length r

/-- `OctetString::decode`. -/
def octetString (r : Bytes) : Result Error (Bytes × Bytes) := readValue .octetString r

/-- The first nine bits of an integer are neither all zeros nor all ones. -/
def MinimalInt : Bytes → Prop
  | [] => False
  | [_] => True
  | b :: c :: _ => ¬ (b = 0x00 ∧ c < 0x80) ∧ ¬ (b = 0xFF ∧ 0x80 ≤ c)

instance : DecidablePred MinimalInt := fun
  | [] => inferInstanceAs (Decidable False)
  | [_] => inferInstanceAs (Decidable True)
  | _ :: _ :: _ => inferInstanceAs (Decidable (_ ∧ _))

/-- `Int::decode` and `as_bytes`. -/
def int (r : Bytes) : Result Error (Bytes × Bytes) := do
  let (bytes, r) ← readValue .integer r
  ensure (MinimalInt bytes) (.noncanonical .integer)
  pure (bytes, r)

/-- `bool::decode`. -/
def bool (r : Bytes) : Result Error (Bool × Bytes) := do
  let (header, r) ← readHeader r
  ensure (header.tag = .boolean) (.tagUnexpected .boolean header.tag)
  ensure (header.length = 1) (.length .boolean)
  match r with
  | [] => fail .incomplete
  | b :: r => do
    ensure (b = 0x00 ∨ b = 0xFF) (.noncanonical .boolean)
    pure (b = 0xFF, r)

/-- `from_der`: the value is the whole input. -/
def fromDer {α : Type} (decode : Bytes → Result Error (α × Bytes)) (bytes : Bytes) :
    Result Error α := do
  let r ← sliceReader bytes
  let (a, r) ← decode r
  ensure (r = []) .trailingData
  pure a

/-- `while !reader.is_finished()`: values are decoded to the end and pushed. -/
def readAll {ε α : Type} (decode : Bytes → Result ε (α × Bytes)) :
    ℕ → Bytes → List α → Result ε (List α)
  | 0, _, _ => .error .panic
  | fuel + 1, r, xs =>
    if r = [] then pure xs
    else do
      let (x, r) ← decode r
      readAll decode fuel r (xs ++ [x])

/-! ### Writing -/

/-- A length in the fewest octets. -/
def encodeLength (n : ℕ) : Bytes :=
  if n < 0x80 then [UInt8.ofNat n]
  else UInt8.ofNat (0x80 + lengthOctets n) :: beBytes (lengthOctets n) n

def tlv (tag : Tag) (body : Bytes) : Bytes := tag :: encodeLength body.length ++ body

/-- An arc of an object identifier: base-128 digits, most significant first. -/
def arc (n : ℕ) : Bytes :=
  match ulebDigits n with
  | [] => []
  | d :: ds => (ds.reverse.map fun e => UInt8.ofNat (e + 128)) ++ [UInt8.ofNat d]

/-- The contents of an OBJECT IDENTIFIER. -/
def oidBody : List ℕ → Bytes
  | a :: b :: arcs => arc (40 * a + b) ++ arcs.flatMap arc
  | _ => []

/-! ### What the readers accept -/

/-- The identifier octets the crate reads. -/
def Tag.Readable (t : Tag) : Prop := t &&& 0x1F ≠ 0x1F ∧ Tag.Known t

instance (t : Tag) : Decidable (Tag.Readable t) := inferInstanceAs (Decidable (_ ∧ _))

theorem readSlice_eq_ok {n : ℕ} {r body r' : Bytes} :
    readSlice n r = .ok (body, r') ↔ body.length = n ∧ r = body ++ r' := by
  simp only [readSlice, bind_eq_ok, ensure_eq_ok, pure_eq_ok, exists_const, Prod.mk.injEq]
  constructor
  · rintro ⟨hn, rfl, rfl⟩
    exact ⟨List.length_take_of_le hn, (List.take_append_drop n r).symm⟩
  · rintro ⟨rfl, rfl⟩
    simp

theorem readTag_eq_ok {r r' : Bytes} {t : Tag} :
    readTag r = .ok (t, r') ↔ t.Readable ∧ r = t :: r' := by
  cases r with
  | nil => simp [readTag]
  | cons b r =>
    simp only [readTag, bind_eq_ok, ensure_eq_ok, pure_eq_ok, exists_const, Prod.mk.injEq,
      List.cons.injEq, Tag.Readable]
    constructor
    · rintro ⟨h1, h2, rfl, rfl⟩
      exact ⟨⟨h1, h2⟩, rfl, rfl⟩
    · rintro ⟨⟨h1, h2⟩, rfl, rfl⟩
      exact ⟨h1, h2, rfl, rfl⟩

theorem lengthOctets_bounds (n : ℕ) : 1 ≤ lengthOctets n ∧ lengthOctets n ≤ 4 := by
  unfold lengthOctets
  split_ifs <;> omega

theorem lt_pow_lengthOctets {n : ℕ} (h : n ≤ maxLength) : n < 256 ^ lengthOctets n := by
  unfold maxLength at h
  unfold lengthOctets
  split_ifs <;> omega

theorem readLength_encodeLength {n : ℕ} (h : n ≤ maxLength) (r : Bytes) :
    readLength (encodeLength n ++ r) = .ok (n, r) := by
  unfold encodeLength
  split_ifs with hn
  · have hb : (UInt8.ofNat n).toNat = n := by
      rw [UInt8.toNat_ofNat', Nat.mod_eq_of_lt (by omega)]
    have hlt : UInt8.ofNat n < 0x80 := by
      rw [UInt8.lt_iff_toNat_lt, hb]
      exact hn
    rw [List.singleton_append, readLength, if_pos hlt, hb]
  · obtain ⟨hk1, hk4⟩ := lengthOctets_bounds n
    have hb : (UInt8.ofNat (0x80 + lengthOctets n)).toNat = 0x80 + lengthOctets n := by
      rw [UInt8.toNat_ofNat', Nat.mod_eq_of_lt (by omega)]
    have h1 : ¬ UInt8.ofNat (0x80 + lengthOctets n) < 0x80 := by
      rw [UInt8.lt_iff_toNat_lt, hb]
      exact Nat.not_lt.mpr (Nat.le_add_right _ _)
    have h2 : ¬ UInt8.ofNat (0x80 + lengthOctets n) = 0x80 := by
      rw [← UInt8.toNat_inj, hb]
      change ¬ 128 + _ = 128
      omega
    have h3 : UInt8.ofNat (0x80 + lengthOctets n) ≤ 0x84 := by
      rw [UInt8.le_iff_toNat_le, hb]
      change 128 + _ ≤ 132
      omega
    rw [List.cons_append, readLength, if_neg h1, if_neg h2, if_pos h3, bind_eq_ok]
    refine ⟨(beBytes (lengthOctets n) n, r), readSlice_eq_ok.mpr ⟨?_, rfl⟩, ?_⟩
    · rw [length_beBytes, hb, Nat.add_sub_cancel_left]
    · have hvalue : ofBe (beBytes (lengthOctets n) n) = n := by
        rw [ofBe_beBytes, Nat.mod_eq_of_lt (lt_pow_lengthOctets h)]
      simp only [bind_eq_ok, ensure_eq_ok, pure_eq_ok, exists_const, hvalue, hb,
        Nat.add_sub_cancel_left, and_true]
      exact ⟨h, Nat.not_lt.mp hn⟩

/-- A length is read from its encoding in the fewest octets only. -/
theorem readLength_eq_ok {n : ℕ} {r r' : Bytes} :
    readLength r = .ok (n, r') ↔ n ≤ maxLength ∧ r = encodeLength n ++ r' := by
  refine ⟨fun h => ?_, by rintro ⟨h, rfl⟩; exact readLength_encodeLength h r'⟩
  cases r with
  | nil => simp [readLength] at h
  | cons b r =>
    rw [readLength] at h
    split_ifs at h with h1 h2 h3
    · obtain ⟨rfl, rfl⟩ := Prod.mk.inj (Except.ok.inj h)
      have hb : b.toNat < 0x80 := UInt8.lt_iff_toNat_lt.mp h1
      refine ⟨by unfold maxLength; omega, ?_⟩
      rw [encodeLength, if_pos hb, UInt8.ofNat_toNat, List.singleton_append]
    · exact absurd h fail_ne_ok
    · simp only [bind_eq_ok, ensure_eq_ok, pure_eq_ok, exists_const, Prod.exists, Prod.mk.injEq,
        readSlice_eq_ok] at h
      obtain ⟨octets, _, ⟨hlen, rfl⟩, hmax, ⟨hshort, hoctets⟩, rfl, rfl⟩ := h
      have hb : 0x80 ≤ b.toNat := Nat.not_lt.mp fun hlt => h1 (UInt8.lt_iff_toNat_lt.mpr hlt)
      refine ⟨hmax, ?_⟩
      rw [encodeLength, if_neg (Nat.not_lt.mpr hshort), hoctets, Nat.add_sub_cancel' hb,
        UInt8.ofNat_toNat, ← hlen, beBytes_ofBe, List.cons_append]
    · exact absurd h fail_ne_ok

theorem readHeader_eq_ok {r r' : Bytes} {t : Tag} {n : ℕ} :
    readHeader r = .ok (⟨t, n⟩, r') ↔
      t.Readable ∧ n ≤ maxLength ∧ r = t :: (encodeLength n ++ r') := by
  simp only [readHeader, bind_eq_ok, mapErr_eq_ok, pure_eq_ok, Prod.exists, readTag_eq_ok,
    readLength_eq_ok, Prod.mk.injEq, Header.mk.injEq]
  constructor
  · rintro ⟨_, _, ⟨ht, rfl⟩, _, _, ⟨hn, rfl⟩, ⟨rfl, rfl⟩, rfl⟩
    exact ⟨ht, hn, rfl⟩
  · rintro ⟨ht, hn, rfl⟩
    exact ⟨t, _, ⟨ht, rfl⟩, n, r', ⟨hn, rfl⟩, ⟨rfl, rfl⟩, rfl⟩

theorem tlv_append (t : Tag) (body r : Bytes) :
    tlv t body ++ r = t :: (encodeLength body.length ++ (body ++ r)) := by
  simp [tlv]

theorem readHeader_tlv {t : Tag} {body : Bytes} (ht : t.Readable) (hlen : body.length ≤ maxLength)
    (r : Bytes) : readHeader (tlv t body ++ r) = .ok (⟨t, body.length⟩, body ++ r) :=
  readHeader_eq_ok.mpr ⟨ht, hlen, tlv_append t body r⟩

theorem readSlice_append (body r : Bytes) : readSlice body.length (body ++ r) = .ok (body, r) :=
  readSlice_eq_ok.mpr ⟨rfl, rfl⟩

/-- A value is read from its encoding only. -/
theorem readValue_eq_ok {t : Tag} {r body r' : Bytes} :
    readValue t r = .ok (body, r') ↔
      t.Readable ∧ body.length ≤ maxLength ∧ r = tlv t body ++ r' := by
  simp only [readValue, bind_eq_ok, ensure_eq_ok, exists_const, Prod.exists, readSlice_eq_ok]
  constructor
  · rintro ⟨⟨_, _⟩, _, hheader, rfl, rfl, rfl⟩
    obtain ⟨ht, hn, rfl⟩ := readHeader_eq_ok.mp hheader
    exact ⟨ht, hn, (tlv_append _ body r').symm⟩
  · rintro ⟨ht, hn, rfl⟩
    exact ⟨⟨t, body.length⟩, body ++ r', readHeader_eq_ok.mpr ⟨ht, hn, tlv_append t body r'⟩, rfl,
      rfl, rfl⟩

/-- A value is self-delimiting. -/
theorem tlv_inj {t t' : Tag} {body body' r r' : Bytes} (hbody : body.length ≤ maxLength)
    (hbody' : body'.length ≤ maxLength) (h : tlv t body ++ r = tlv t' body' ++ r') :
    t = t' ∧ body = body' ∧ r = r' := by
  rw [tlv_append, tlv_append, List.cons.injEq] at h
  obtain ⟨ht, htail⟩ := h
  have hread := readLength_encodeLength hbody (body ++ r)
  rw [htail, readLength_encodeLength hbody', Except.ok.injEq, Prod.mk.injEq] at hread
  obtain ⟨rfl, rfl⟩ := List.append_inj hread.2.symm hread.1.symm
  exact ⟨ht, rfl, rfl⟩

theorem sliceReader_eq_ok {bytes r : Bytes} :
    sliceReader bytes = .ok r ↔ bytes.length ≤ maxLength ∧ r = bytes := by
  simp only [sliceReader, bind_eq_ok, ensure_eq_ok, pure_eq_ok, exists_const, eq_comm (a := r)]

theorem octetString_eq_ok {r body r' : Bytes} :
    octetString r = .ok (body, r') ↔
      body.length ≤ maxLength ∧ r = tlv .octetString body ++ r' := by
  have hreadable : Tag.octetString.Readable := by decide
  simp only [octetString, readValue_eq_ok, hreadable, true_and]

theorem int_eq_ok {r body r' : Bytes} :
    int r = .ok (body, r') ↔
      MinimalInt body ∧ body.length ≤ maxLength ∧ r = tlv .integer body ++ r' := by
  have hreadable : Tag.integer.Readable := by decide
  simp only [int, bind_eq_ok, ensure_eq_ok, pure_eq_ok, exists_const, Prod.exists, Prod.mk.injEq,
    readValue_eq_ok, hreadable, true_and]
  constructor
  · rintro ⟨_, _, ⟨hlen, rfl⟩, hmin, rfl, rfl⟩
    exact ⟨hmin, hlen, rfl⟩
  · rintro ⟨hmin, hlen, rfl⟩
    exact ⟨body, r', ⟨hlen, rfl⟩, hmin, rfl, rfl⟩

/-- The contents of a BOOLEAN. -/
def boolByte (b : Bool) : UInt8 := if b then 0xFF else 0x00

theorem bool_eq_ok {r r' : Bytes} {b : Bool} :
    bool r = .ok (b, r') ↔ r = tlv .boolean [boolByte b] ++ r' := by
  have hreadable : Tag.boolean.Readable := by decide
  simp only [bool, bind_eq_ok, ensure_eq_ok, exists_const, Prod.exists]
  constructor
  · rintro ⟨⟨_, _⟩, s, hheader, rfl, rfl, h⟩
    obtain ⟨-, -, rfl⟩ := readHeader_eq_ok.mp hheader
    cases s with
    | nil => exact absurd h fail_ne_ok
    | cons c s =>
      simp only [bind_eq_ok, ensure_eq_ok, pure_eq_ok, exists_const, Prod.mk.injEq] at h
      obtain ⟨rfl | rfl, rfl, rfl⟩ := h <;> rfl
  · rintro rfl
    refine ⟨⟨.boolean, 1⟩, boolByte b :: r',
      readHeader_eq_ok.mpr ⟨hreadable, by decide, rfl⟩, rfl, rfl, ?_⟩
    cases b <;> rfl

/-- An integer is minimal when it is in its shortest form. -/
theorem minimalInt_iff {bs : Bytes} : MinimalInt bs ↔ bs = encodeInt (intValue bs) := by
  have hlength (h : bs = encodeInt (intValue bs)) : bs.length = intOctets (intValue bs) :=
    (congrArg List.length h).trans (length_encodeInt _)
  match bs with
  | [] =>
    refine iff_of_false id fun h => ?_
    exact absurd ((one_le_intOctets _).trans (hlength h).ge) (by simp)
  | [b] =>
    refine iff_of_true trivial (eq_encodeInt ?_)
    exact le_antisymm (one_le_intOctets _) (intOctets_intValue_le (List.cons_ne_nil b []))
  | b :: c :: rest =>
    have hminimal : MinimalInt (b :: c :: rest) ↔
        rest.length + 1 < intOctets (intValue (b :: c :: rest)) := by
      rw [← not_le, intOctets_cons_le_iff]
      simp only [MinimalInt, ← UInt8.toNat_inj, UInt8.lt_iff_toNat_lt, UInt8.le_iff_toNat_le,
        UInt8.reduceToNat]
      omega
    rw [hminimal]
    constructor
    · exact fun h => eq_encodeInt (le_antisymm h (intOctets_intValue_le (List.cons_ne_nil _ _)))
    · exact fun h => (hlength h).le

theorem minimalInt_encodeInt (n : ℤ) : MinimalInt (encodeInt n) := by
  rw [minimalInt_iff, intValue_encodeInt]

/-! ### Values to the end -/

section ReadAll
variable {ε α β : Type} {decode : Bytes → Result ε (α × Bytes)}

/-- When every value takes a byte at least, the loop comes to the end. -/
theorem readAll_returns (hdecode : ∀ r, Returns (decode r))
    (hlt : ∀ {r x r'}, decode r = .ok (x, r') → r'.length < r.length) {fuel : ℕ} {r : Bytes}
    (hfuel : r.length < fuel) (xs : List α) : Returns (readAll decode fuel r xs) := by
  induction fuel generalizing r xs with
  | zero => omega
  | succ fuel ih =>
    rw [readAll]
    split_ifs
    · exact .ok xs
    · refine .bind (hdecode r) ?_
      rintro ⟨x, r'⟩ hx
      have hx := hlt hx
      exact ih (by omega) _

/-- Values written one after another are read in turn, each with its own check. -/
theorem readAll_flatMap (write : β → Bytes) (check : β → Result ε α) {ys : List β}
    (hne : ∀ y ∈ ys, write y ≠ [])
    (hdecode : ∀ y ∈ ys, ∀ r, decode (write y ++ r) = (check y).map fun x => (x, r)) {fuel : ℕ}
    (hfuel : (ys.flatMap write).length < fuel) (xs : List α) :
    readAll decode fuel (ys.flatMap write) xs = (ys.mapM check).map fun zs => xs ++ zs := by
  induction ys generalizing fuel xs with
  | nil =>
    obtain ⟨fuel, rfl⟩ := Nat.exists_eq_succ_of_ne_zero (Nat.ne_zero_of_lt hfuel)
    rw [List.flatMap_nil, readAll, if_pos rfl, List.mapM_nil]
    exact congrArg Except.ok (List.append_nil xs).symm
  | cons y ys ih =>
    obtain ⟨fuel, rfl⟩ := Nat.exists_eq_succ_of_ne_zero (Nat.ne_zero_of_lt hfuel)
    obtain ⟨hy, hys⟩ := List.forall_mem_cons.mp hne
    obtain ⟨hdy, hdys⟩ := List.forall_mem_cons.mp hdecode
    have hpos := List.length_pos_of_ne_nil hy
    rw [List.flatMap_cons, List.length_append] at hfuel
    rw [List.flatMap_cons, readAll, if_neg (by simp [hy]), hdy, List.mapM_cons]
    cases check y with
    | error e => rfl
    | ok x =>
      change readAll decode fuel (ys.flatMap write) (xs ++ [x]) =
        (ys.mapM check >>= fun zs => pure (x :: zs)).map fun zs => xs ++ zs
      rw [ih hys hdys (by omega) (xs ++ [x])]
      cases ys.mapM check with
      | error e => rfl
      | ok zs => exact congrArg Except.ok (List.append_assoc xs [x] zs)

end ReadAll

/-! ### The readers return -/

theorem sliceReader_returns (bytes : Bytes) : Returns (sliceReader bytes) :=
  .bind (.ensure _ _) fun _ _ => .ok _

theorem readSlice_returns (n : ℕ) (r : Bytes) : Returns (readSlice n r) :=
  .bind (.ensure _ _) fun _ _ => .ok _

theorem readTag_returns (r : Bytes) : Returns (readTag r) := by
  cases r with
  | nil => exact .fail _
  | cons b r => exact .bind (.ensure _ _) fun _ _ => .bind (.ensure _ _) fun _ _ => .ok _

theorem readLength_returns (r : Bytes) : Returns (readLength r) := by
  cases r with
  | nil => exact .fail _
  | cons b r =>
    rw [readLength]
    split_ifs
    · exact .ok _
    · exact .fail _
    · refine .bind (readSlice_returns _ r) fun _ _ => ?_
      exact .bind (.ensure _ _) fun _ _ => .bind (.ensure _ _) fun _ _ => .ok _
    · exact .fail _

theorem readHeader_returns (r : Bytes) : Returns (readHeader r) := by
  refine .bind (readTag_returns r) fun _ _ => ?_
  exact .bind (.mapErr (readLength_returns _)) fun _ _ => .ok _

theorem readValue_returns (tag : Tag) (r : Bytes) : Returns (readValue tag r) := by
  refine .bind (readHeader_returns r) fun _ _ => ?_
  exact .bind (.ensure _ _) fun _ _ => readSlice_returns _ _

theorem int_returns (r : Bytes) : Returns (int r) := by
  refine .bind (readValue_returns _ r) fun _ _ => ?_
  exact .bind (.ensure _ _) fun _ _ => .ok _

theorem bool_returns (r : Bytes) : Returns (bool r) := by
  refine .bind (readHeader_returns r) ?_
  rintro ⟨header, r'⟩ -
  refine .bind (.ensure _ _) fun _ _ => .bind (.ensure _ _) fun _ _ => ?_
  cases r' with
  | nil => exact .fail _
  | cons b r' => exact .bind (.ensure _ _) fun _ _ => .ok _

/-- A header is two octets at least. -/
theorem length_lt_of_readHeader {r r' : Bytes} {header : Header}
    (h : readHeader r = .ok (header, r')) : r'.length < r.length := by
  obtain ⟨-, -, rfl⟩ := readHeader_eq_ok.mp h
  simp only [List.length_cons, List.length_append]
  omega

theorem length_le_of_readSlice {n : ℕ} {r body r' : Bytes} (h : readSlice n r = .ok (body, r')) :
    r'.length ≤ r.length := by
  obtain ⟨-, rfl⟩ := readSlice_eq_ok.mp h
  simp

example : oidBody [1, 2, 840, 10045, 3, 1, 7] =
    [0x2A, 0x86, 0x48, 0xCE, 0x3D, 0x03, 0x01, 0x07] := by
  decide +kernel

end Attestation.Der
