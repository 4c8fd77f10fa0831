import Attestation.Android.KeyDescription
import Attestation.Base.Ber

/-! What the walk over an AuthorizationList reads. The TLV header parser accepts any
BER identifier and any definite length of at most four octets; the length is exact,
the tag number is the identifier's reduced to 32 bits. A body is accepted when it is
a sequence of such elements, each of them stored in turn. -/

namespace Attestation.Android.KeyDescription

open Result Ber

/-! ### Tag numbers -/

theorem pushTagByte_eq (n : UInt32) (b : UInt8) :
    pushTagByte n b = some (UInt32.ofNat (128 * n.toNat + b.toNat % 128)) := by
  have hshift : (n <<< 7).toNat = 128 * n.toNat % 2 ^ 32 := by
    rw [UInt32.toNat_shiftLeft, Nat.shiftLeft_eq]
    simp [Nat.mul_comm]
  have hlow := toNat_and_0x7F b
  rw [pushTagByte]
  simp only [hshift, hlow]
  -- the shifted value is a multiple of 128, so adding seven bits cannot overflow
  rw [if_pos (by omega), Option.some.injEq, ← UInt32.toNat_inj, UInt32.toNat_ofNat',
    UInt32.toNat_ofNat']
  omega

theorem longTag_eq_ok {bytes : Bytes} {fuel cur : ℕ} {n m : UInt32} {cur' : ℕ}
    (hfuel : bytes.length < fuel + cur) :
    longTag bytes fuel cur n = .ok (m, cur') ↔
      ∃ bs rest, bytes.drop cur = bs ++ rest ∧ Continued bs ∧ cur' = cur + bs.length ∧
        m = UInt32.ofNat (base128 n.toNat bs) := by
  induction fuel generalizing cur n with
  | zero =>
    rw [List.drop_eq_nil_of_le (by omega)]
    simp only [longTag, reduceCtorEq, false_iff]
    rintro ⟨bs, rest, hbs, hc, -⟩
    rw [(List.append_eq_nil_iff.mp hbs.symm).1] at hc
    cases hc
  | succ fuel ih =>
    simp only [longTag, bind_eq_ok, ensure_eq_ok, exists_const, index_eq_ok, okOr_eq_ok,
      pushTagByte_eq, and_0x80_eq_zero]
    have hbase (b : UInt8) (bs : Bytes) :
        UInt32.ofNat (base128 (UInt32.ofNat (128 * n.toNat + b.toNat % 128)).toNat bs) =
          UInt32.ofNat (base128 n.toNat (b :: bs)) := by
      rw [base128_cons, ← UInt32.toNat_inj, UInt32.toNat_ofNat', UInt32.toNat_ofNat',
        UInt32.toNat_ofNat', base128_mod]
    constructor
    · rintro ⟨hcur, b, hb, _, ⟨⟩, h⟩
      obtain ⟨tail, htail⟩ : ∃ tail, bytes.drop cur = b :: tail :=
        ⟨_, drop_eq_cons_iff.mpr ⟨hb, rfl⟩⟩
      split_ifs at h with hlast
      · obtain ⟨rfl, rfl⟩ := Prod.mk.inj (pure_eq_ok.mp h)
        exact ⟨[b], tail, htail, .last hlast, rfl, rfl⟩
      · obtain ⟨bs, rest, hdrop, hc, rfl, rfl⟩ := (ih (by omega)).mp h
        rw [(drop_eq_cons_iff.mp htail).2] at hdrop
        refine ⟨b :: bs, rest, by rw [htail, hdrop, List.cons_append],
          .more (Nat.not_lt.mp hlast) hc, by rw [List.length_cons]; omega, hbase b bs⟩
    · rintro ⟨bs, rest, hdrop, hc, rfl, rfl⟩
      cases hc with
      | last hb =>
        refine ⟨Nat.not_le.mpr (length_lt_of_drop_eq_cons hdrop), _,
          (drop_eq_cons_iff.mp hdrop).1, _, rfl, ?_⟩
        rw [if_pos hb]
        rfl
      | more hb hbs =>
        refine ⟨Nat.not_le.mpr (length_lt_of_drop_eq_cons hdrop), _,
          (drop_eq_cons_iff.mp hdrop).1, _, rfl, ?_⟩
        rw [if_neg (Nat.not_lt.mpr hb), ih (by omega)]
        exact ⟨_, rest, (drop_eq_cons_iff.mp hdrop).2, hbs, by rw [List.length_cons]; omega,
          (hbase _ _).symm⟩

/-! ### Lengths -/

theorem longLength_eq_ok {bytes : Bytes} {count cur cur' : ℕ} {v w : UInt64}
    (hv : (v.toNat + 1) * 256 ^ count ≤ 2 ^ 64) :
    longLength bytes count cur v = .ok (w, cur') ↔
      ∃ octets rest, bytes.drop cur = octets ++ rest ∧ octets.length = count ∧
        cur' = cur + count ∧ w.toNat = v.toNat * 256 ^ count + ofBe octets := by
  induction count generalizing cur v with
  | zero =>
    simp only [longLength, pure_eq_ok, Prod.mk.injEq, List.length_eq_zero_iff, pow_zero]
    constructor
    · rintro ⟨rfl, rfl⟩
      exact ⟨[], _, rfl, rfl, rfl, by simp [ofBe]⟩
    · rintro ⟨_, _, -, rfl, rfl, hw⟩
      exact ⟨UInt64.toNat_inj.mp (by simpa [ofBe] using hw.symm), rfl⟩
  | succ count ih =>
    rw [pow_succ] at hv
    have hpow : 1 ≤ 256 ^ count := Nat.one_le_pow _ _ (by norm_num)
    have hsmall : (v.toNat + 1) * 256 ≤ 2 ^ 64 := by nlinarith
    have hshift : (v <<< 8).toNat = v.toNat * 256 := by
      rw [UInt64.toNat_shiftLeft, Nat.shiftLeft_eq]
      exact Nat.mod_eq_of_lt (by simp only [UInt64.reduceToNat, Nat.reduceMod]; omega)
    have hpush (b : UInt8) : (UInt64.ofNat ((v <<< 8).toNat + b.toNat)).toNat =
        v.toNat * 256 + b.toNat := by
      have hb := b.toNat_lt
      rw [UInt64.toNat_ofNat', hshift, Nat.mod_eq_of_lt (by omega)]
    have hroom (b : UInt8) : (v <<< 8).toNat + b.toNat < 2 ^ 64 := by
      have hb := b.toNat_lt
      rw [hshift]
      omega
    have hnext (b : UInt8) :
        ((UInt64.ofNat ((v <<< 8).toNat + b.toNat)).toNat + 1) * 256 ^ count ≤ 2 ^ 64 := by
      have hb := b.toNat_lt
      rw [hpush]
      nlinarith
    simp only [longLength, bind_eq_ok, ensure_eq_ok, exists_const, index_eq_ok, hroom, true_and]
    constructor
    · rintro ⟨-, b, hb, h⟩
      obtain ⟨octets, rest, hdrop, rfl, rfl, hw⟩ := (ih (hnext b)).mp h
      refine ⟨b :: octets, rest, drop_eq_cons_iff.mpr ⟨hb, hdrop⟩, rfl, by omega, ?_⟩
      rw [hw, hpush, ofBe_cons, pow_succ]
      ring
    · rintro ⟨octets, rest, hdrop, hlen, rfl, hw⟩
      obtain ⟨b, octets, rfl⟩ := List.exists_cons_of_length_eq_add_one hlen
      obtain ⟨hb, htail⟩ := drop_eq_cons_iff.mp hdrop
      refine ⟨Nat.not_le.mpr (length_lt_of_drop_eq_cons hdrop), b, hb, (ih (hnext b)).mpr ?_⟩
      obtain rfl : octets.length = count := Nat.succ.inj hlen
      refine ⟨octets, rest, htail, rfl, by omega, ?_⟩
      rw [hw, hpush, ofBe_cons, pow_succ]
      ring

/-! ### Headers -/

/-- A header as it stands in the bytes: the first octet, the tag number that the
identifier writes, the length of the contents and the number of octets of each part. -/
structure RawHeader where
  first : UInt8
  tag : ℕ
  length : ℕ
  identifierOctets : ℕ
  lengthOctets : ℕ

/-- The bytes start with a header of at most four length octets behind the count. -/
def StartsWith (bytes : Bytes) (raw : RawHeader) (rest : Bytes) : Prop :=
  ∃ ident len, bytes = ident ++ (len ++ rest) ∧ Identifier ident raw.first raw.tag ∧
    LengthOctets len raw.length ∧ len.length ≤ 5 ∧ ident.length = raw.identifierOctets ∧
    len.length = raw.lengthOctets

/-- What the parser makes of a header. -/
def RawHeader.parsed (raw : RawHeader) : TlvHeader where
  tagClass := raw.first >>> 6 &&& 0b11
  constructed := raw.first &&& 0b00100000 != 0
  tagNumber := UInt32.ofNat raw.tag
  headerLength := raw.identifierOctets + raw.lengthOctets
  bodyLength := raw.length

theorem StartsWith.unique {bytes rest rest' : Bytes} {raw raw' : RawHeader}
    (h : StartsWith bytes raw rest) (h' : StartsWith bytes raw' rest') :
    raw = raw' ∧ rest = rest' := by
  obtain ⟨ident, len, rfl, hid, hlen, -, hi, hl⟩ := h
  obtain ⟨ident', len', heq, hid', hlen', -, hi', hl'⟩ := h'
  obtain ⟨rfl, hfirst, htag, htail⟩ := hid.unique hid' heq
  obtain ⟨rfl, hlength, rfl⟩ := hlen.unique hlen' htail
  obtain ⟨f, t, n, i, l⟩ := raw
  obtain ⟨f', t', n', i', l'⟩ := raw'
  simp only at hfirst htag hlength hi hl hi' hl'
  subst hfirst htag hlength hi hl hi' hl'
  exact ⟨rfl, rfl⟩

/-! ### The header parser -/

/-- The identifier part of the parser. -/
def tagNumberAt (bytes : Bytes) (pos : ℕ) (first : UInt8) : Result Unit (UInt32 × ℕ) :=
  if first &&& 0x1F < 0x1F then pure ((first &&& 0x1F).toUInt32, pos + 1)
  else longTag bytes (bytes.length + 1) (pos + 1) 0

/-- The length part of the parser. -/
def bodyLengthAt (bytes : Bytes) (cur : ℕ) (lenFirst : UInt8) : Result Unit (UInt64 × ℕ) :=
  if lenFirst &&& 0x80 = 0 then pure (lenFirst.toUInt64, cur + 1)
  else do
    ensure (¬ ((lenFirst &&& 0x7F).toNat = 0 ∨ (lenFirst &&& 0x7F).toNat > 4)) ()
    longLength bytes (lenFirst &&& 0x7F).toNat (cur + 1) 0

theorem parseTlvHeader_eq (bytes : Bytes) (pos : ℕ) :
    parseTlvHeader bytes pos = (do
      ensure (¬ pos ≥ bytes.length) ()
      let first ← index bytes pos
      let (tagNumber, cur) ← tagNumberAt bytes pos first
      ensure (¬ cur ≥ bytes.length) ()
      let lenFirst ← index bytes cur
      let (bodyLength, cur) ← bodyLengthAt bytes cur lenFirst
      pure {
        tagClass := first >>> 6 &&& 0b11
        constructed := first &&& 0b00100000 != 0
        tagNumber := tagNumber
        headerLength := cur - pos
        bodyLength := bodyLength.toNat }) := by
  have hlength (cur : ℕ) (lenFirst : UInt8) (k : UInt64 × ℕ → Result Unit TlvHeader) :
      (if lenFirst &&& 0x80 = 0 then pure (lenFirst.toUInt64, cur + 1) >>= k
        else do
          ensure (¬ ((lenFirst &&& 0x7F).toNat = 0 ∨ (lenFirst &&& 0x7F).toNat > 4)) ()
          let x ← longLength bytes (lenFirst &&& 0x7F).toNat (cur + 1) 0
          k x) = bodyLengthAt bytes cur lenFirst >>= k := by
    unfold bodyLengthAt
    split_ifs
    · rfl
    · rw [bind_assoc]
  unfold parseTlvHeader
  refine bind_congr fun _ => bind_congr fun first => ?_
  simp only [tagNumberAt]
  split_ifs
  · simp only [hlength]
  · simp only [hlength]

theorem tagNumberAt_eq_ok {bytes : Bytes} {pos : ℕ} {first : UInt8} {m : UInt32} {cur : ℕ}
    (hfirst : bytes[pos]? = some first) :
    tagNumberAt bytes pos first = .ok (m, cur) ↔
      ∃ ident tag rest, bytes.drop pos = ident ++ rest ∧ Identifier ident first tag ∧
        cur = pos + ident.length ∧ m = UInt32.ofNat tag := by
  have hlow := toNat_and_0x1F first
  have hiff : first &&& 0x1F < 0x1F ↔ first.toNat % 32 < 31 := by
    rw [UInt8.lt_iff_toNat_lt, hlow]
    rfl
  have hshort : (first &&& 0x1F).toUInt32 = UInt32.ofNat (first.toNat % 32) := by
    rw [← UInt32.toNat_inj, UInt8.toNat_toUInt32, hlow, UInt32.toNat_ofNat']
    omega
  obtain ⟨tail, htail⟩ : ∃ tail, bytes.drop pos = first :: tail :=
    ⟨_, drop_eq_cons_iff.mpr ⟨hfirst, rfl⟩⟩
  simp only [tagNumberAt, hiff]
  split_ifs with h
  · rw [pure_eq_ok, Prod.mk.injEq]
    constructor
    · rintro ⟨rfl, rfl⟩
      exact ⟨[first], _, tail, htail, .short h, rfl, hshort⟩
    · rintro ⟨ident, tag, rest, -, hid, rfl, rfl⟩
      cases hid with
      | short => exact ⟨hshort, rfl⟩
      | long hlong => omega
  · rw [longTag_eq_ok (by omega), (drop_eq_cons_iff.mp htail).2]
    constructor
    · rintro ⟨bs, rest, rfl, hbs, rfl, rfl⟩
      exact ⟨first :: bs, _, rest, htail, .long (by omega) hbs, by rw [List.length_cons]; omega, rfl⟩
    · rintro ⟨ident, tag, rest, hdrop, hid, rfl, rfl⟩
      cases hid with
      | short hshort => exact absurd hshort h
      | @long _ bs _ hbs =>
        rw [htail] at hdrop
        exact ⟨bs, rest, (List.cons.inj hdrop).2, hbs, by rw [List.length_cons]; omega, rfl⟩

theorem bodyLengthAt_eq_ok {bytes : Bytes} {cur cur' : ℕ} {lenFirst : UInt8} {w : UInt64}
    (hfirst : bytes[cur]? = some lenFirst) :
    bodyLengthAt bytes cur lenFirst = .ok (w, cur') ↔
      ∃ len rest, bytes.drop cur = len ++ rest ∧ LengthOctets len w.toNat ∧ len.length ≤ 5 ∧
        cur' = cur + len.length := by
  have hlow := toNat_and_0x7F lenFirst
  have hb := lenFirst.toNat_lt
  obtain ⟨tail, htail⟩ : ∃ tail, bytes.drop cur = lenFirst :: tail :=
    ⟨_, drop_eq_cons_iff.mpr ⟨hfirst, rfl⟩⟩
  simp only [bodyLengthAt, and_0x80_eq_zero, hlow]
  split_ifs with h
  · rw [pure_eq_ok, Prod.mk.injEq]
    constructor
    · rintro ⟨rfl, rfl⟩
      refine ⟨[lenFirst], tail, htail, ?_, by simp, rfl⟩
      rw [UInt8.toNat_toUInt64]
      exact .short h
    · rintro ⟨len, rest, hdrop, hlen, -, rfl⟩
      generalize hw : w.toNat = n at hlen
      rw [htail] at hdrop
      cases hlen with
      | short =>
        obtain ⟨rfl, -⟩ := List.cons.inj hdrop
        exact ⟨UInt64.toNat_inj.mp (by rw [UInt8.toNat_toUInt64, hw]), rfl⟩
      | long hcount =>
        obtain ⟨rfl, -⟩ := List.cons.inj hdrop
        omega
  · simp only [bind_eq_ok, ensure_eq_ok, exists_const]
    constructor
    · rintro ⟨hn, hlong⟩
      have hroom : ((0 : UInt64).toNat + 1) * 256 ^ (lenFirst.toNat % 128) ≤ 2 ^ 64 := by
        have hpow : 256 ^ (lenFirst.toNat % 128) ≤ 256 ^ 4 :=
          Nat.pow_le_pow_right (by norm_num) (by omega)
        exact le_trans (by simpa using hpow) (by norm_num)
      obtain ⟨octets, rest, hdrop, hcount, rfl, hw⟩ := (longLength_eq_ok hroom).mp hlong
      rw [(drop_eq_cons_iff.mp htail).2] at hdrop
      refine ⟨lenFirst :: octets, rest, by rw [htail, hdrop, List.cons_append], ?_,
        by rw [List.length_cons]; omega, by rw [List.length_cons]; omega⟩
      have hvalue : w.toNat = ofBe octets := by simpa using hw
      rw [hvalue]
      exact .long (by omega) (by omega)
    · rintro ⟨len, rest, hdrop, hlen, hfive, rfl⟩
      generalize hw : w.toNat = n at hlen
      rw [htail] at hdrop
      cases hlen with
      | short hshort =>
        obtain ⟨rfl, -⟩ := List.cons.inj hdrop
        exact absurd hshort h
      | @long _ octets hcount hpos =>
        obtain ⟨rfl, hrest⟩ := List.cons.inj hdrop
        rw [List.length_cons] at hfive
        have hmod : lenFirst.toNat % 128 = octets.length := by omega
        have hroom : ((0 : UInt64).toNat + 1) * 256 ^ octets.length ≤ 2 ^ 64 := by
          have hpow : 256 ^ octets.length ≤ 256 ^ 4 :=
            Nat.pow_le_pow_right (by norm_num) (by omega)
          exact le_trans (by simpa using hpow) (by norm_num)
        rw [hmod, longLength_eq_ok hroom, (drop_eq_cons_iff.mp htail).2]
        refine ⟨by omega, octets, rest, hrest, rfl, by rw [List.length_cons]; omega, ?_⟩
        rw [hw]
        simp

/-- The parser succeeds exactly on a header, and loses of it only the high bits of
the tag number. -/
theorem parseTlvHeader_eq_ok {bytes : Bytes} {pos : ℕ} {header : TlvHeader} :
    parseTlvHeader bytes pos = .ok header ↔
      ∃ raw rest, StartsWith (bytes.drop pos) raw rest ∧ header = raw.parsed := by
  simp only [parseTlvHeader_eq, bind_eq_ok, ensure_eq_ok, exists_const, index_eq_ok, pure_eq_ok,
    Prod.exists]
  constructor
  · rintro ⟨-, first, hfirst, m, cur, htag, -, lenFirst, hlenFirst, w, cur', hlength, rfl⟩
    obtain ⟨ident, tag, rest, hdrop, hid, rfl, rfl⟩ := (tagNumberAt_eq_ok hfirst).mp htag
    obtain ⟨len, rest', hdrop', hlen, hfive, rfl⟩ := (bodyLengthAt_eq_ok hlenFirst).mp hlength
    rw [drop_of_append hdrop] at hdrop'
    refine ⟨⟨first, tag, w.toNat, ident.length, len.length⟩, rest',
      ⟨ident, len, by rw [hdrop, hdrop'], hid, hlen, hfive, rfl, rfl⟩, ?_⟩
    rw [RawHeader.parsed, Nat.add_assoc, Nat.add_sub_cancel_left]
  · rintro ⟨⟨first, tag, length, _, _⟩, rest, ⟨ident, len, hdrop, hid, hlen, hfive, rfl, rfl⟩, rfl⟩
    change Identifier ident first tag at hid
    change LengthOctets len length at hlen
    obtain ⟨ident', rfl⟩ := hid.exists_cons
    have hpos := length_lt_of_drop_eq_cons hdrop
    have hfirst := (drop_eq_cons_iff.mp hdrop).1
    have hrest := drop_of_append hdrop
    obtain ⟨lenFirst, len', rfl⟩ := hlen.exists_cons
    have hcur := length_lt_of_drop_eq_cons hrest
    have hlenFirst := (drop_eq_cons_iff.mp hrest).1
    have hw : (UInt64.ofNat length).toNat = length := by
      rw [UInt64.toNat_ofNat', Nat.mod_eq_of_lt]
      exact lt_trans (hlen.lt_of_length_le hfive) (by norm_num)
    refine ⟨Nat.not_le.mpr hpos, first, hfirst, _, _,
      (tagNumberAt_eq_ok hfirst).mpr ⟨_, tag, _, hdrop, hid, rfl, rfl⟩, Nat.not_le.mpr hcur,
      lenFirst, hlenFirst, UInt64.ofNat length, _,
      (bodyLengthAt_eq_ok hlenFirst).mpr ⟨_, rest, hrest, ?_, hfive, rfl⟩, ?_⟩
    · rwa [hw]
    · rw [RawHeader.parsed, hw, Nat.add_assoc, Nat.add_sub_cancel_left]

/-! ### Elements -/

/-- An element of a list: its class, whether it is constructed, the tag number its
identifier writes, and its contents. -/
structure Element where
  tagClass : ℕ
  constructed : Bool
  tag : ℕ
  inner : Bytes
  deriving DecidableEq, Repr

/-- The bytes are these elements one after another. -/
inductive Elements : Bytes → List Element → Prop
  | nil : Elements [] []
  | cons {body inner rest : Bytes} {raw : RawHeader} {els : List Element}
      (hheader : StartsWith body raw (inner ++ rest)) (hlen : inner.length = raw.length)
      (hrest : Elements rest els) :
      Elements body (⟨tagClass raw.first, isConstructed raw.first, raw.tag, inner⟩ :: els)

theorem StartsWith.ne_nil {bytes rest : Bytes} {raw : RawHeader} (h : StartsWith bytes raw rest) :
    bytes ≠ [] := by
  obtain ⟨ident, len, rfl, hid, -⟩ := h
  obtain ⟨ident', rfl⟩ := hid.exists_cons
  simp

theorem Elements.unique {body : Bytes} {els els' : List Element} (h : Elements body els)
    (h' : Elements body els') : els = els' := by
  induction h generalizing els' with
  | nil =>
    cases h' with
    | nil => rfl
    | cons hheader => exact absurd rfl hheader.ne_nil
  | cons hheader hlen _ ih =>
    cases h' with
    | nil => exact absurd rfl hheader.ne_nil
    | cons hheader' hlen' hrest' =>
      obtain ⟨rfl, htail⟩ := hheader.unique hheader'
      obtain ⟨rfl, rfl⟩ := List.append_inj htail (hlen.trans hlen'.symm)
      rw [ih hrest']

/-- Store an element: one of the context-specific class under the low 32 bits of its
tag number, any other not at all. -/
def Element.store (out : AuthorizationList) (e : Element) : Result Der.Error AuthorizationList :=
  if e.tagClass = 2 then storeElement out (UInt32.ofNat e.tag) e.inner else pure out

theorem tagClass_eq_two_iff (first : UInt8) : first >>> 6 &&& 0b11 = 2 ↔ tagClass first = 2 := by
  have h : ∀ n < 256, UInt8.ofNat n >>> 6 &&& 0b11 = 2 ↔ n / 64 = 2 := by decide +kernel
  have hfirst := h first.toNat first.toNat_lt
  rwa [UInt8.ofNat_toNat] at hfirst

theorem store_bind {out : AuthorizationList} {raw : RawHeader} {inner : Bytes}
    (k : AuthorizationList → Result Der.Error AuthorizationList) :
    (if raw.parsed.tagClass = 2 then storeElement out raw.parsed.tagNumber inner >>= k else k out) =
      Element.store out ⟨tagClass raw.first, isConstructed raw.first, raw.tag, inner⟩ >>= k := by
  simp only [RawHeader.parsed, tagClass_eq_two_iff, Element.store]
  split_ifs <;> rfl

/-- One round of the loop reads one element and stores it. -/
theorem decodeElements_cons {body inner rest : Bytes} {pos : ℕ} {raw : RawHeader} (fuel : ℕ)
    (out : AuthorizationList) (hbody : body.length < 2 ^ 32)
    (hheader : StartsWith (body.drop pos) raw (inner ++ rest)) (hlen : inner.length = raw.length) :
    ∃ next, body.drop next = rest ∧ pos < next ∧ next ≤ body.length ∧
      decodeElements body (fuel + 1) pos out =
        Element.store out ⟨tagClass raw.first, isConstructed raw.first, raw.tag, inner⟩ >>=
          decodeElements body fuel next := by
  have hparse := parseTlvHeader_eq_ok.mpr ⟨raw, _, hheader, rfl⟩
  obtain ⟨ident, len, hdrop, hid, -, -, hi, hl⟩ := hheader
  obtain ⟨ident', rfl⟩ := hid.exists_cons
  have hpos : pos < body.length := length_lt_of_drop_eq_cons hdrop
  have hvalue := drop_of_append (drop_of_append hdrop)
  have htotal := congrArg List.length hdrop
  simp only [List.length_drop, List.length_append, hi, hl, hlen] at htotal
  have hone : 1 ≤ raw.identifierOctets := by simp [← hi]
  have hheaderLength : raw.parsed.headerLength = raw.identifierOctets + raw.lengthOctets := rfl
  have hbodyLength : raw.parsed.bodyLength = raw.length := rfl
  rw [hi, hl, Nat.add_assoc, ← hheaderLength] at hvalue
  have hnext := drop_of_append hvalue
  rw [hlen, ← hbodyLength] at hnext
  have hend : pos + raw.parsed.headerLength + raw.parsed.bodyLength ≤ body.length := by
    rw [hheaderLength, hbodyLength]
    omega
  have hstart : usizeAdd pos raw.parsed.headerLength =
      (.ok (pos + raw.parsed.headerLength) : Result Der.Error ℕ) := if_pos (by omega)
  have hvalueEnd : usizeAdd (pos + raw.parsed.headerLength) raw.parsed.bodyLength =
      (.ok (pos + raw.parsed.headerLength + raw.parsed.bodyLength) : Result Der.Error ℕ) :=
    if_pos (by omega)
  have hslice : slice body (pos + raw.parsed.headerLength)
      (pos + raw.parsed.headerLength + raw.parsed.bodyLength) =
      (.ok inner : Result Der.Error Bytes) := by
    rw [slice, if_pos ⟨by omega, hend⟩, Nat.add_sub_cancel_left, hvalue, hbodyLength, ← hlen,
      List.take_left]
  refine ⟨_, hnext, by rw [hheaderLength]; omega, hend, ?_⟩
  rw [decodeElements, if_pos hpos, hparse]
  simp only [mapErr, hstart, hvalueEnd, hslice, ensure, if_pos (Nat.not_lt.mpr hend), gt_iff_lt,
    Except.bind, bind]
  exact store_bind (decodeElements body fuel _)

/-- A loop that goes on has found an element. -/
theorem exists_header_of_decodeElements {body : Bytes} {fuel pos : ℕ} {out al : AuthorizationList}
    (hpos : pos < body.length) (h : decodeElements body (fuel + 1) pos out = .ok al) :
    ∃ raw inner rest, StartsWith (body.drop pos) raw (inner ++ rest) ∧
      inner.length = raw.length := by
  rw [decodeElements, if_pos hpos, bind_eq_ok] at h
  obtain ⟨header, hparse, h⟩ := h
  obtain ⟨raw, rest, hheader, rfl⟩ := parseTlvHeader_eq_ok.mp (mapErr_eq_ok.mp hparse)
  simp only [bind_eq_ok, ensure_eq_ok, exists_const, usizeAdd] at h
  obtain ⟨valueStart, hstart, valueEnd, hend, hle, -⟩ := h
  split_ifs at hstart hend
  obtain rfl := Except.ok.inj hstart
  obtain rfl := Except.ok.inj hend
  obtain ⟨ident, len, hdrop, -, -, -, hi, hl⟩ := id hheader
  have htotal := congrArg List.length hdrop
  simp only [List.length_drop, List.length_append, hi, hl] at htotal
  have hlen : raw.length ≤ rest.length := by
    simp only [RawHeader.parsed, gt_iff_lt, not_lt] at hle
    omega
  refine ⟨raw, rest.take raw.length, rest.drop raw.length, ?_, List.length_take_of_le hlen⟩
  rwa [List.take_append_drop]

/-- The loop accepts what is a sequence of elements that can all be stored. -/
theorem decodeElements_eq_ok {body : Bytes} {fuel pos : ℕ} {out al : AuthorizationList}
    (hbody : body.length < 2 ^ 32) (hpos : pos ≤ body.length) (hfuel : body.length < fuel + pos) :
    decodeElements body fuel pos out = .ok al ↔
      ∃ els, Elements (body.drop pos) els ∧ els.foldlM Element.store out = .ok al := by
  induction fuel generalizing pos out with
  | zero => omega
  | succ fuel ih =>
    constructor
    · intro h
      by_cases hlt : pos < body.length
      · obtain ⟨raw, inner, rest, hheader, hlen⟩ := exists_header_of_decodeElements hlt h
        obtain ⟨next, hnext, hgt, hle, heq⟩ :=
          decodeElements_cons fuel out hbody hheader hlen
        rw [heq, bind_eq_ok] at h
        obtain ⟨out', hstore, hrest⟩ := h
        obtain ⟨els, hels, hfold⟩ := (ih hle (by omega)).mp hrest
        rw [hnext] at hels
        refine ⟨_, .cons hheader hlen hels, ?_⟩
        rw [List.foldlM_cons, bind_eq_ok]
        exact ⟨out', hstore, hfold⟩
      · rw [decodeElements, if_neg hlt] at h
        rw [List.drop_eq_nil_of_le (Nat.not_lt.mp hlt)]
        exact ⟨[], .nil, h⟩
    · rintro ⟨els, hels, hfold⟩
      generalize hdrop : body.drop pos = bytes at hels
      cases hels with
      | nil =>
        rw [decodeElements, if_neg (Nat.not_lt.mpr (List.drop_eq_nil_iff.mp hdrop))]
        exact hfold
      | cons hheader hlen hrest =>
        subst hdrop
        obtain ⟨next, hnext, hgt, hle, heq⟩ :=
          decodeElements_cons fuel out hbody hheader hlen
        rw [List.foldlM_cons, bind_eq_ok] at hfold
        obtain ⟨out', hstore, hfold⟩ := hfold
        rw [heq, bind_eq_ok]
        exact ⟨out', hstore, (ih hle (by omega)).mpr ⟨_, hnext ▸ hrest, hfold⟩⟩

theorem sequence_readable : Der.Tag.sequence.Readable := by decide

/-- An AuthorizationList is a SEQUENCE of elements that can all be stored. -/
theorem decodeAuthorizationList_eq_ok {r r' : Bytes} {al : AuthorizationList} :
    decodeAuthorizationList r = .ok (al, r') ↔
      ∃ body els, body.length ≤ Der.maxLength ∧ r = Der.tlv .sequence body ++ r' ∧
        Elements body els ∧ els.foldlM Element.store {} = .ok al := by
  have hmax : Der.maxLength < 2 ^ 32 := by decide
  simp only [decodeAuthorizationList, bind_eq_ok, pure_eq_ok, Prod.exists, Der.readValue_eq_ok,
    sequence_readable, true_and, Prod.mk.injEq]
  constructor
  · rintro ⟨body, _, ⟨hlen, rfl⟩, _, hdecode, rfl, rfl⟩
    obtain ⟨els, hels, hfold⟩ :=
      (decodeElements_eq_ok (by omega) (Nat.zero_le _) (by omega)).mp hdecode
    exact ⟨body, els, hlen, rfl, hels, hfold⟩
  · rintro ⟨body, els, hlen, rfl, hels, hfold⟩
    exact ⟨body, r', ⟨hlen, rfl⟩, al,
      (decodeElements_eq_ok (by omega) (Nat.zero_le _) (by omega)).mpr ⟨els, hels, hfold⟩, rfl, rfl⟩

/-! ### Writing -/

/-- An element in DER: the shortest identifier and length octets. -/
def Element.encode (e : Element) : Bytes :=
  identifier e.tagClass e.constructed e.tag ++ (Der.encodeLength e.inner.length ++ e.inner)

theorem Element.startsWith_encode {e : Element} (hclass : e.tagClass < 4)
    (hlen : e.inner.length ≤ Der.maxLength) (r : Bytes) :
    ∃ raw, StartsWith (e.encode ++ r) raw (e.inner ++ r) ∧ Ber.tagClass raw.first = e.tagClass ∧
      isConstructed raw.first = e.constructed ∧ raw.tag = e.tag ∧
      raw.length = e.inner.length := by
  obtain ⟨first, hid, hcls, hcon⟩ := identifier_spec hclass e.constructed e.tag
  refine ⟨⟨first, e.tag, e.inner.length, _, _⟩, ⟨_, Der.encodeLength e.inner.length, ?_, hid,
    lengthOctets_encodeLength hlen, length_encodeLength_le _, rfl, rfl⟩, hcls, hcon, rfl, rfl⟩
  simp [Element.encode]

/-- Elements written one after another are read back. -/
theorem Elements.encode {els : List Element}
    (h : ∀ e ∈ els, e.tagClass < 4 ∧ e.inner.length ≤ Der.maxLength) :
    Elements (els.flatMap Element.encode) els := by
  induction els with
  | nil => exact .nil
  | cons e els ih =>
    obtain ⟨he, hels⟩ := List.forall_mem_cons.mp h
    obtain ⟨raw, hstart, hcls, hcon, htag, hlen⟩ :=
      e.startsWith_encode he.1 he.2 (els.flatMap Element.encode)
    have hcons := Elements.cons hstart hlen.symm (ih hels)
    rw [hcls, hcon, htag] at hcons
    exact hcons

end Attestation.Android.KeyDescription
