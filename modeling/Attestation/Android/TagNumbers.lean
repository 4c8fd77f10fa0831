import Attestation.Android.Fields

/-! The tag numbers of an AuthorizationList. The parser shifts the identifier's groups
into 32 bits; a shift loses the high bits without notice, so identifiers of different
tag numbers are read as one. Headers are exact as long as no tag number reaches
`2 ^ 32`, and fields come from elements of their own tag numbers as long as none of an
element that is read as a field does. -/

namespace Attestation.Android.KeyDescription

open Result Ber

/-- The header is the one at the position: the class, the constructed bit, the tag
number as an unbounded integer, the number of header octets and the length. -/
def HeaderExact (bytes : Bytes) (pos : ℕ) (header : TlvHeader) : Prop :=
  ∃ raw rest, StartsWith (bytes.drop pos) raw rest ∧
    header.tagClass.toNat = tagClass raw.first ∧
    header.constructed = isConstructed raw.first ∧ header.tagNumber.toNat = raw.tag ∧
    header.headerLength = raw.identifierOctets + raw.lengthOctets ∧
    header.bodyLength = raw.length

/-- The field comes from an element of the body that has its tag number. -/
def FromTrueTag {α : Type} (f : Field α) (body : Bytes) (al : AuthorizationList) : Prop :=
  ∀ v, f.get al = some v → ∃ els e rest, Elements body els ∧ e ∈ els ∧ e.tagClass = 2 ∧
    e.tag = f.tag ∧ f.decode e.inner = .ok (v, rest)

/-- Every field comes from an element that has its tag number. -/
structure FromTrueTags (body : Bytes) (al : AuthorizationList) : Prop where
  creationDateTime : FromTrueTag .creationDateTime body al
  rootOfTrust : FromTrueTag .rootOfTrust body al
  osVersion : FromTrueTag .osVersion body al
  osPatchLevel : FromTrueTag .osPatchLevel body al
  attestationApplicationId : FromTrueTag .attestationApplicationId body al

/-- Headers parsed anywhere in the bytes are exact. -/
def HeadersExact (bytes : Bytes) : Prop :=
  ∀ pos header, parseTlvHeader bytes pos = .ok header → HeaderExact bytes pos header

/-- A list decoded at the start of the bytes takes its fields from elements of its body
that have their tag numbers. -/
def FieldsExact (bytes : Bytes) : Prop :=
  ∀ al r, decodeAuthorizationList bytes = .ok (al, r) →
    ∃ body, body.length ≤ Der.maxLength ∧ bytes = Der.tlv .sequence body ++ r ∧
      FromTrueTags body al

/-- No header in the bytes has a tag number of more than 32 bits. -/
def TagsBelow (bytes : Bytes) : Prop :=
  ∀ pos raw rest, StartsWith (bytes.drop pos) raw rest → raw.tag < 2 ^ 32

theorem toNat_tagClass (first : UInt8) : (first >>> 6 &&& 0b11).toNat = tagClass first := by
  have h : ∀ n < 256, (UInt8.ofNat n >>> 6 &&& 0b11).toNat = n / 64 := by decide +kernel
  have hfirst := h first.toNat first.toNat_lt
  rwa [UInt8.ofNat_toNat] at hfirst

theorem constructed_eq (first : UInt8) : (first &&& 0b00100000 != 0) = isConstructed first := by
  have h : ∀ n < 256, (UInt8.ofNat n &&& 0b00100000 != 0) = decide (n / 32 % 2 = 1) := by
    decide +kernel
  have hfirst := h first.toNat first.toNat_lt
  rwa [UInt8.ofNat_toNat] at hfirst

theorem headersExact_iff {bytes : Bytes} : HeadersExact bytes ↔ TagsBelow bytes := by
  constructor
  · intro h pos raw rest hstart
    obtain ⟨raw', rest', hstart', -, -, htag, -⟩ :=
      h pos _ (parseTlvHeader_eq_ok.mpr ⟨raw, rest, hstart, rfl⟩)
    obtain ⟨rfl, -⟩ := hstart.unique hstart'
    rw [← htag]
    exact UInt32.toNat_lt _
  · intro h pos header hparse
    obtain ⟨raw, rest, hstart, rfl⟩ := parseTlvHeader_eq_ok.mp hparse
    refine ⟨raw, rest, hstart, toNat_tagClass _, constructed_eq _, ?_, rfl, rfl⟩
    rw [RawHeader.parsed, UInt32.toNat_ofNat', Nat.mod_eq_of_lt (h pos raw rest hstart)]

theorem StartsWith.append {bytes rest : Bytes} {raw : RawHeader} (h : StartsWith bytes raw rest)
    (r : Bytes) : StartsWith (bytes ++ r) raw (rest ++ r) := by
  obtain ⟨ident, len, rfl, h⟩ := h
  exact ⟨ident, len, by simp, h⟩

/-- What has no long tag number has none in any part. -/
theorem TagsBelow.part {body : Bytes} (before after : Bytes)
    (h : TagsBelow (before ++ (body ++ after))) : TagsBelow body := by
  intro pos raw rest hstart
  by_cases hpos : pos ≤ body.length
  · refine h (before.length + pos) raw (rest ++ after) ?_
    rw [← List.drop_drop, List.drop_left, List.drop_append_of_le_length hpos]
    exact hstart.append after
  · rw [List.drop_eq_nil_of_le (by omega)] at hstart
    exact absurd rfl hstart.ne_nil

/-- The elements of a body have headers in it. -/
theorem TagsBelow.elements {body : Bytes} {els : List Element} (h : TagsBelow body)
    (hels : Elements body els) : ∀ e ∈ els, e.tag < 2 ^ 32 := by
  induction hels with
  | nil => simp
  | @cons _ inner rest _ _ hheader hlen _ ih =>
    refine List.forall_mem_cons.mpr ⟨h 0 _ _ hheader, ih ?_⟩
    obtain ⟨ident, len, rfl, -⟩ := hheader
    refine TagsBelow.part (ident ++ (len ++ inner)) [] ?_
    simpa using h

/-- The element a field is taken from has a tag number of at most 32 bits, or another with
the field's own tag number carries the same value. -/
def TakenBelow {α : Type} (f : Field α) (els : List Element) : Prop :=
  ∀ e, lastRead f.tag els = some e → e.tag < 2 ^ 32 ∨ ∃ e' ∈ els, e'.tagClass = 2 ∧
    e'.tag = f.tag ∧ (f.decode e'.inner).map Prod.fst = (f.decode e.inner).map Prod.fst

/-- The elements the fields are taken from are as described. -/
structure AllTakenBelow (els : List Element) : Prop where
  creationDateTime : TakenBelow .creationDateTime els
  rootOfTrust : TakenBelow .rootOfTrust els
  osVersion : TakenBelow .osVersion els
  osPatchLevel : TakenBelow .osPatchLevel els
  attestationApplicationId : TakenBelow .attestationApplicationId els

/-- The tag numbers at the starts of a list's elements, where the list decodes. -/
def ElementTagsBelow (bytes : Bytes) : Prop :=
  ∀ al r body els, decodeAuthorizationList bytes = .ok (al, r) → body.length ≤ Der.maxLength →
    bytes = Der.tlv .sequence body ++ r → Elements body els → AllTakenBelow els

theorem fromTrueTag_iff {α : Type} (f : Field α) {body : Bytes} {els : List Element}
    {al : AuthorizationList} (hbody : body.length ≤ Der.maxLength) (hels : Elements body els)
    (hfold : els.foldlM Element.store {} = .ok al) : FromTrueTag f body al ↔ TakenBelow f els := by
  have hlen : ∀ e ∈ els, e.inner.length ≤ Der.maxLength :=
    fun e he => (hels.inner_length_le e he).trans hbody
  constructor
  · intro h e hlast
    rcases f.get_of_foldlM hlen hfold with ⟨hnone, -⟩ | ⟨_, v, rest, hlast', hdecode, hget⟩
    · cases hlast.symm.trans hnone
    obtain rfl := Option.some.inj (hlast.symm.trans hlast')
    obtain ⟨els', e', rest', hels', hmem, hclass, htag, hdecode'⟩ := h v hget
    obtain rfl := hels.unique hels'
    refine .inr ⟨e', hmem, hclass, htag, ?_⟩
    rw [hdecode, hdecode']
    rfl
  · intro h v hv
    rcases f.get_of_foldlM hlen hfold with ⟨-, hnone⟩ | ⟨e, v', rest, hlast, hdecode, hget⟩
    · cases hv.symm.trans hnone
    obtain rfl := Option.some.inj (hget.symm.trans hv)
    rcases h e hlast with hbelow | ⟨e', hmem, hclass, htag, hvalue⟩
    · obtain ⟨hmem, hclass, htag⟩ := readAs_of_lastRead hlast
      rw [Nat.mod_eq_of_lt hbelow] at htag
      exact ⟨els, e, rest, hels, hmem, hclass, htag, hdecode⟩
    · rw [hdecode] at hvalue
      obtain ⟨⟨_, rest'⟩, hdecode', rfl⟩ := map_eq_ok.mp hvalue
      exact ⟨els, e', rest', hels, hmem, hclass, htag, hdecode'⟩

theorem fromTrueTags_iff {body : Bytes} {els : List Element} {al : AuthorizationList}
    (hbody : body.length ≤ Der.maxLength) (hels : Elements body els)
    (hfold : els.foldlM Element.store {} = .ok al) : FromTrueTags body al ↔ AllTakenBelow els := by
  have hfield {α : Type} (f : Field α) : FromTrueTag f body al ↔ TakenBelow f els :=
    fromTrueTag_iff f hbody hels hfold
  constructor
  · rintro ⟨h701, h704, h705, h706, h709⟩
    exact ⟨(hfield _).mp h701, (hfield _).mp h704, (hfield _).mp h705, (hfield _).mp h706,
      (hfield _).mp h709⟩
  · rintro ⟨h701, h704, h705, h706, h709⟩
    exact ⟨(hfield _).mpr h701, (hfield _).mpr h704, (hfield _).mpr h705, (hfield _).mpr h706,
      (hfield _).mpr h709⟩

/-- The decoder of lists by itself is exact where the tag numbers of the elements it takes
its fields from are, whatever headers the contents could be read as. -/
theorem fieldsExact_iff {bytes : Bytes} : FieldsExact bytes ↔ ElementTagsBelow bytes := by
  constructor
  · intro h al r body els hdecode hbody heq hels
    obtain ⟨body', hbody', heq', htrue⟩ := h al r hdecode
    obtain ⟨-, rfl, -⟩ := Der.tlv_inj hbody hbody' (heq.symm.trans heq')
    obtain ⟨body'', els', hbody'', heq'', hels', hfold⟩ := decodeAuthorizationList_eq_ok.mp hdecode
    obtain ⟨-, rfl, -⟩ := Der.tlv_inj hbody hbody'' (heq.symm.trans heq'')
    obtain rfl := hels.unique hels'
    exact (fromTrueTags_iff hbody hels hfold).mp htrue
  · intro h al r hdecode
    obtain ⟨body, els, hbody, heq, hels, hfold⟩ := decodeAuthorizationList_eq_ok.mp hdecode
    exact ⟨body, hbody, heq, (fromTrueTags_iff hbody hels hfold).mpr
      (h al r body els hdecode hbody heq hels)⟩

theorem TagsBelow.elementTagsBelow {bytes : Bytes} (h : TagsBelow bytes) :
    ElementTagsBelow bytes := by
  rintro al r body els - - rfl hels
  rw [Der.tlv_append] at h
  have hbody : TagsBelow body := .part (Der.Tag.sequence :: Der.encodeLength body.length) r h
  have htaken {α : Type} (f : Field α) : TakenBelow f els := fun e hlast =>
    .inl (hbody.elements hels e (readAs_of_lastRead hlast).1)
  exact ⟨htaken _, htaken _, htaken _, htaken _, htaken _⟩

/-- Headers and fields are exact in the bytes without a tag number of more than 32
bits, and in no others. -/
theorem tagNumbers_exact_iff (bytes : Bytes) :
    HeadersExact bytes ∧ FieldsExact bytes ↔ TagsBelow bytes := by
  constructor
  · rintro ⟨h, -⟩
    exact headersExact_iff.mp h
  · intro h
    exact ⟨headersExact_iff.mpr h, fieldsExact_iff.mpr h.elementTagsBelow⟩

/-! ### A tag number that is read as another -/

namespace AliasedTag

/-- A RootOfTrust with boot key `[9]`, locked and verified. -/
def rot : Bytes :=
  Der.tlv .sequence (Der.tlv .octetString [9] ++ Der.tlv .boolean [0xFF] ++ Der.tlv .enumerated [0])

/-- The RootOfTrust under the tag number `2 ^ 32 + 704`. -/
def element : Element := ⟨2, true, 2 ^ 32 + 704, rot⟩

def list : Bytes := Der.tlv .sequence element.encode

end AliasedTag

open AliasedTag in
/-- A tag number of 33 bits is read as `[704]`, and a list without a `[704]` has a
RootOfTrust. -/
theorem aliasedTag_misread : ¬ HeadersExact list ∧ ¬ FieldsExact list := by
  have hlen : element.inner.length ≤ Der.maxLength := by decide +kernel
  constructor
  · intro h
    obtain ⟨raw, hstart, -, -, htag, -⟩ := element.startsWith_encode (by decide) hlen []
    have hdrop : list.drop 2 = element.encode ++ [] := by decide +kernel
    have hlt := headersExact_iff.mp h 2 raw _ (hdrop ▸ hstart)
    rw [htag] at hlt
    exact absurd hlt (by decide)
  · intro h
    have hdecode : (decodeAuthorizationList list).map (fun p => p.1.rootOfTrust) =
        .ok (some ⟨[9], true, .verified, none⟩) := by
      decide +kernel
    obtain ⟨⟨al, r⟩, hal, hrot⟩ := map_eq_ok.mp hdecode
    obtain ⟨body, hbody, heq, htrue⟩ := h al r hal
    obtain ⟨els, e, -, hels, hmem, -, he, -⟩ := htrue.rootOfTrust _ hrot
    have hlist : Der.tlv .sequence ([element].flatMap Element.encode) ++ [] =
        Der.tlv .sequence body ++ r := by
      rw [List.append_nil, List.flatMap_singleton]
      exact heq
    obtain ⟨-, rfl, -⟩ := Der.tlv_inj (by decide +kernel) hbody hlist
    obtain rfl := hels.unique (.encode (by simpa using ⟨by decide, hlen⟩))
    obtain rfl := List.mem_singleton.mp hmem
    exact absurd he (by decide)

end Attestation.Android.KeyDescription
