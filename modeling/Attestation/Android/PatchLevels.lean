import Attestation.Android.Layout

/-! The numbers of an AuthorizationList. A version and a patch level are decoded as 32-bit
signed integers and cast to unsigned ones, so a negative INTEGER is stored as a number of
at least `2 ^ 31`; a date is decoded without a cast. A number is the INTEGER of the last
element with its tag as long as that one is not negative and no longer tag number is read
as the tag. -/

namespace Attestation.Android.KeyDescription

open Result Der

/-- The element carries the INTEGER `n`. -/
def Element.Carries (e : Element) (n : ℤ) : Prop :=
  ∃ rest, e.inner = tlv .integer (encodeInt n) ++ rest

/-- The last of the elements with a tag number. -/
def lastTagged (t : ℕ) (els : List Element) : Option Element :=
  els.reverse.find? fun e => e.tagClass = 2 ∧ e.tag = t

/-- A number that is stored is the INTEGER of the last element with its tag. -/
def NumberKept (t : ℕ) (body : Bytes) (number : Option ℕ) : Prop :=
  ∀ v, number = some v → ∃ els e, Elements body els ∧ lastTagged t els = some e ∧ e.Carries v

structure NumbersKept (body : Bytes) (al : AuthorizationList) : Prop where
  creationDateTime : NumberKept 701 body (al.creationDateTime.map UInt64.toNat)
  osVersion : NumberKept 705 body (al.osVersion.map UInt32.toNat)
  osPatchLevel : NumberKept 706 body (al.osPatchLevel.map UInt32.toNat)

/-- A list decoded at the start of the bytes keeps the numbers of its body. -/
def DecodesNumbers (bytes : Bytes) : Prop :=
  ∀ al r, decodeAuthorizationList bytes = .ok (al, r) →
    ∃ body, body.length ≤ maxLength ∧ bytes = tlv .sequence body ++ r ∧ NumbersKept body al

/-- If an element is read under the tag number, its INTEGER is not negative, and the last
element that has this very tag number carries the same. -/
def IntegerKept (t : ℕ) (body : Bytes) : Prop :=
  ∀ els e, Elements body els → lastRead t els = some e →
    ∃ e' n, lastTagged t els = some e' ∧ e.Carries n ∧ e'.Carries n ∧ 0 ≤ n

/-- The numbers in the body of a list that can be decoded can be kept. -/
def IntegersKept (bytes : Bytes) : Prop :=
  ∀ body r al, body.length ≤ maxLength → bytes = tlv .sequence body ++ r → DecodesList body al →
    IntegerKept 701 body ∧ IntegerKept 705 body ∧ IntegerKept 706 body

/-! ### Elements -/

theorem Element.Carries.unique {e : Element} {m n : ℤ} (hlen : e.inner.length ≤ maxLength)
    (hm : e.Carries m) (hn : e.Carries n) : m = n := by
  obtain ⟨r, hr⟩ := hm
  obtain ⟨s, hs⟩ := hn
  obtain ⟨heq, -⟩ := tlv_append_inj (hr ▸ hlen) (hr.symm.trans hs)
  rw [← intValue_encodeInt m, heq, intValue_encodeInt]

theorem lastTagged_spec {t : ℕ} {els : List Element} {e : Element} (ht : t < 2 ^ 32)
    (h : lastTagged t els = some e) : e ∈ els ∧ e.ReadAs t := by
  have hfound := List.find?_some h
  obtain ⟨hclass, htag⟩ := of_decide_eq_true hfound
  exact ⟨List.mem_reverse.mp (List.mem_of_find?_eq_some h), hclass, by
    rw [htag, Nat.mod_eq_of_lt ht]⟩

/-- A field whose numbers are decoded from an INTEGER below a bound and stored as `toNat`
gives; a negative one is stored as a number from the bound on. -/
structure NumberField {α : Type} (f : Field α) (toNat : α → ℕ) (bound : ℤ) : Prop where
  tag_lt : f.tag < 2 ^ 32
  decode : ∀ r v r', f.decode r = .ok (v, r') → ∃ n : ℤ, r = tlv .integer (encodeInt n) ++ r' ∧
    n < bound ∧ (0 ≤ n → (toNat v : ℤ) = n) ∧ (n < 0 → bound ≤ toNat v)

theorem numberField_decodeU32 {v : UInt32} {r r' : Bytes} (h : decodeU32 r = .ok (v, r')) :
    ∃ n : ℤ, r = tlv .integer (encodeInt n) ++ r' ∧ n < 2 ^ 31 ∧ (0 ≤ n → (v.toNat : ℤ) = n) ∧
      (n < 0 → (2 ^ 31 : ℤ) ≤ v.toNat) := by
  obtain ⟨n, hn, rfl⟩ := decodeU32_eq_ok.mp h
  obtain ⟨hlo, hhi, rfl⟩ := decodeI32_iff.mp hn
  rw [toNat_ofInt]
  exact ⟨n, rfl, hhi, by omega, by omega⟩

theorem numberField_osVersion : NumberField .osVersion UInt32.toNat (2 ^ 31) :=
  ⟨by decide, fun _ _ _ h => numberField_decodeU32 h⟩

theorem numberField_osPatchLevel : NumberField .osPatchLevel UInt32.toNat (2 ^ 31) :=
  ⟨by decide, fun _ _ _ h => numberField_decodeU32 h⟩

theorem numberField_creationDateTime : NumberField .creationDateTime UInt64.toNat (2 ^ 63) := by
  refine ⟨by decide, fun r v r' h => ?_⟩
  obtain ⟨hv, rfl⟩ := decodeU64_iff.mp h
  exact ⟨v.toNat, rfl, by omega, fun _ => rfl, by omega⟩

/-! ### Lists -/

theorem numberKept_iff {α : Type} {f : Field α} {toNat : α → ℕ} {bound : ℤ}
    (hf : NumberField f toNat bound) {body : Bytes} {al : AuthorizationList}
    (h : DecodesList body al) (hbody : body.length ≤ maxLength) :
    NumberKept f.tag body ((f.get al).map toNat) ↔ IntegerKept f.tag body := by
  obtain ⟨els, hels, hfold⟩ := h
  have hlen : ∀ e ∈ els, e.inner.length ≤ maxLength :=
    fun e he => (hels.inner_length_le e he).trans hbody
  constructor
  · intro hkept els' e hels' hlast
    obtain rfl := hels.unique hels'
    rcases f.get_of_foldlM hlen hfold with ⟨hnone, -⟩ | ⟨e', v, rest, hlast', hdecode, hget⟩
    · rw [hnone] at hlast
      cases hlast
    obtain rfl := Option.some.inj (hlast'.symm.trans hlast)
    obtain ⟨n, hn, -, hnonneg, hneg⟩ := hf.decode _ _ _ hdecode
    obtain ⟨els', e', hels', htagged, hcarries⟩ := hkept (toNat v) (by rw [hget, Option.map_some])
    obtain rfl := hels.unique hels'
    -- the last element with the tag is decoded too, so what it carries is below the bound
    obtain ⟨he', hread'⟩ := lastTagged_spec hf.tag_lt htagged
    obtain ⟨v', rest', hdecode'⟩ := f.decode_of_foldlM hlen hfold e' he' hread'
    obtain ⟨n', hn', hbound, -⟩ := hf.decode _ _ _ hdecode'
    obtain rfl := Element.Carries.unique (hlen e' he') ⟨rest', hn'⟩ hcarries
    have hsign : 0 ≤ n := by
      by_contra hlt
      exact absurd (hneg (not_le.mp hlt)) (not_le.mpr hbound)
    rw [hnonneg hsign] at hcarries
    exact ⟨e', n, htagged, ⟨rest, hn⟩, hcarries, hsign⟩
  · intro hkept v hv
    obtain ⟨a, ha, rfl⟩ := Option.map_eq_some_iff.mp hv
    rcases f.get_of_foldlM hlen hfold with ⟨-, hget⟩ | ⟨e, v, rest, hlast, hdecode, hget⟩
    · rw [hget] at ha
      cases ha
    obtain rfl := Option.some.inj (hget.symm.trans ha)
    obtain ⟨n, hn, -, hnonneg, -⟩ := hf.decode _ _ _ hdecode
    obtain ⟨e', n', htagged, hcarries, hcarries', hsign⟩ := hkept els e hels hlast
    have he := (readAs_of_lastRead hlast).1
    obtain rfl := Element.Carries.unique (hlen e he) ⟨rest, hn⟩ hcarries
    rw [← hnonneg hsign] at hcarries'
    exact ⟨els, e', hels, htagged, hcarries'⟩

theorem numbersKept_iff {body : Bytes} {al : AuthorizationList} (h : DecodesList body al)
    (hbody : body.length ≤ maxLength) :
    NumbersKept body al ↔ IntegerKept 701 body ∧ IntegerKept 705 body ∧ IntegerKept 706 body := by
  have hdate := numberKept_iff numberField_creationDateTime h hbody
  have hversion := numberKept_iff numberField_osVersion h hbody
  have hpatch := numberKept_iff numberField_osPatchLevel h hbody
  constructor
  · rintro ⟨h1, h2, h3⟩
    exact ⟨hdate.mp h1, hversion.mp h2, hpatch.mp h3⟩
  · rintro ⟨h1, h2, h3⟩
    exact ⟨hdate.mpr h1, hversion.mpr h2, hpatch.mpr h3⟩

/-- The numbers are kept exactly in the lists whose last elements read as a date, a version
or a patch level carry no negative INTEGER and have no other tag number. -/
theorem decodesNumbers_iff (bytes : Bytes) : DecodesNumbers bytes ↔ IntegersKept bytes := by
  constructor
  · rintro h body r al hbody rfl hdecodes
    obtain ⟨body', hbody', heq, hkept⟩ :=
      h al r (decodeAuthorizationList_iff.mpr ⟨body, hbody, rfl, hdecodes⟩)
    obtain ⟨-, rfl, -⟩ := tlv_inj hbody hbody' heq
    exact (numbersKept_iff hdecodes hbody).mp hkept
  · intro h al r hdecode
    obtain ⟨body, hbody, rfl, hdecodes⟩ := decodeAuthorizationList_iff.mp hdecode
    exact ⟨body, hbody, rfl, (numbersKept_iff hdecodes hbody).mpr (h body r al hbody rfl hdecodes)⟩

namespace NegativeSample

/-- A patch level of `-1`. -/
def element : Element := ⟨2, true, 706, tlv .integer [0xFF]⟩

def list : Bytes := tlv .sequence element.encode

end NegativeSample

open NegativeSample in
/-- A patch level of `-1` is stored as the largest number. -/
theorem negativePatchLevel_wraps :
    decodeAuthorizationList list = .ok ({ osPatchLevel := some 4294967295 }, []) ∧
      ¬ DecodesNumbers list := by
  have hdecode : decodeAuthorizationList list =
      .ok ({ osPatchLevel := some 4294967295 }, []) := by
    decide +kernel
  refine ⟨hdecode, fun h => ?_⟩
  have hels : Elements element.encode [element] := by
    have hencode : Elements ([element].flatMap Element.encode) [element] :=
      .encode (by decide +kernel)
    rwa [List.flatMap_singleton] at hencode
  have hlen : element.inner.length ≤ maxLength := by decide +kernel
  obtain ⟨body, hbody, hlist, hkept⟩ := h _ _ hdecode
  rw [list, ← List.append_nil (tlv .sequence _)] at hlist
  obtain ⟨-, rfl, -⟩ := tlv_inj (by decide +kernel) hbody hlist
  obtain ⟨els, e, hels', htagged, hcarries⟩ := hkept.osPatchLevel 4294967295 rfl
  obtain rfl := hels.unique hels'
  obtain rfl : element = e := Option.some.inj htagged
  have hminus : element.Carries (-1) := ⟨[], by decide +kernel⟩
  exact absurd (hminus.unique hlen hcarries) (by decide)

end Attestation.Android.KeyDescription
