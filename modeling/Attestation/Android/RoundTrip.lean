import Attestation.Android.Layout
import Attestation.Base.LastMatch

/-! A KeyDescription written in DER and read back. Each list holds the fields that are
present in any order, and between them elements that the decoder ignores. -/

namespace Attestation.Android

open Result Der

/-! ### Writing -/

/-- The value an ENUMERATED gives to a level. -/
def SecurityLevel.toI32 : SecurityLevel → ℤ
  | .software => 0
  | .trustedEnvironment => 1
  | .strongBox => 2

/-- The value an ENUMERATED gives to a boot state. -/
def VerifiedBootState.toI32 : VerifiedBootState → ℤ
  | .verified => 0
  | .selfSigned => 1
  | .unverified => 2
  | .failed => 3

theorem SecurityLevel.fromI32_toI32 (level : SecurityLevel) :
    fromI32 level.toI32 = some level := by cases level <;> rfl

theorem VerifiedBootState.fromI32_toI32 (state : VerifiedBootState) :
    fromI32 state.toI32 = some state := by cases state <;> rfl

def RootOfTrust.toDer (rot : RootOfTrust) : Bytes :=
  tlv .sequence (tlv .octetString rot.verifiedBootKey ++ tlv .boolean [boolByte rot.deviceLocked] ++
    tlv .enumerated (encodeInt rot.verifiedBootState.toI32) ++
      (rot.verifiedBootHash.map (tlv .octetString)).getD [])

namespace KeyDescription

/-- An EXPLICIT element. -/
def Element.explicit (tag : ℕ) (value : Bytes) : Element := ⟨2, true, tag, value⟩

/-- The element of a field that is present. -/
def present (tag : ℕ) (value : Option Bytes) : List Element :=
  (value.map (Element.explicit tag)).toList

/-- The elements of the fields of a list that are present. -/
def fieldElements (al : AuthorizationList) : List Element :=
  present 701 (al.creationDateTime.map fun n => tlv .integer (encodeInt n.toNat)) ++
    present 704 (al.rootOfTrust.map RootOfTrust.toDer) ++
    present 705 (al.osVersion.map fun v => tlv .integer (encodeInt v.toNat)) ++
    present 706 (al.osPatchLevel.map fun v => tlv .integer (encodeInt v.toNat)) ++
    present 709 (al.attestationApplicationId.map (tlv .octetString))

/-- The elements are those of the fields that are present, in any order, and between them
any of another class or of another tag number. -/
structure Lists (al : AuthorizationList) (els : List Element) : Prop where
  fields : (els.filter fun e => e.tagClass = 2 ∧ e.tag ∈ decodedTags).Perm (fieldElements al)
  others : ∀ e ∈ els, e.tagClass < 4 ∧ (e.tagClass = 2 → e.tag < 2 ^ 32)

/-- An extension with the given elements in its lists. -/
def encode (kd : KeyDescription) (software hardware : List Element) : Bytes :=
  tlv .sequence (tlv .integer (encodeInt kd.attestationVersion) ++
    tlv .enumerated (encodeInt kd.attestationSecurityLevel.toI32) ++
    tlv .integer (encodeInt kd.keymintVersion) ++
    tlv .enumerated (encodeInt kd.keymintSecurityLevel.toI32) ++
    tlv .octetString kd.attestationChallenge ++ tlv .octetString kd.uniqueId ++
    tlv .sequence (software.flatMap Element.encode) ++
    tlv .sequence (hardware.flatMap Element.encode))

/-- The numbers of a list are in the ranges of the fields they are decoded through. -/
structure ListFits (al : AuthorizationList) : Prop where
  creationDateTime : ∀ n, al.creationDateTime = some n → n.toNat < 2 ^ 63
  osVersion : ∀ v, al.osVersion = some v → v.toNat < 2 ^ 31
  osPatchLevel : ∀ v, al.osPatchLevel = some v → v.toNat < 2 ^ 31

/-- The versions are 32-bit integers and the lists' numbers are in range. -/
structure Fits (kd : KeyDescription) : Prop where
  attestationVersion : -2 ^ 31 ≤ kd.attestationVersion ∧ kd.attestationVersion < 2 ^ 31
  keymintVersion : -2 ^ 31 ≤ kd.keymintVersion ∧ kd.keymintVersion < 2 ^ 31
  softwareEnforced : ListFits kd.softwareEnforced
  hardwareEnforced : ListFits kd.hardwareEnforced

/-! ### Values -/

theorem decodeU64_tlv {n : UInt64} (h : n.toNat < 2 ^ 63) :
    decodeU64 (tlv .integer (encodeInt n.toNat)) = .ok (n, []) :=
  decodeU64_iff.mpr ⟨h, (List.append_nil _).symm⟩

theorem decodeU32_tlv {v : UInt32} (h : v.toNat < 2 ^ 31) :
    decodeU32 (tlv .integer (encodeInt v.toNat)) = .ok (v, []) := by
  have hcast : v = UInt32.ofInt v.toNat := by
    have hresidue := toNat_ofInt v.toNat
    rw [← UInt32.toNat_inj]
    omega
  refine decodeU32_eq_ok.mpr ⟨v.toNat, decodeI32_iff.mpr ⟨?_, ?_, (List.append_nil _).symm⟩, hcast⟩
  · omega
  · omega

theorem decodeRootOfTrust_toDer {rot : RootOfTrust} (h : rot.toDer.length ≤ maxLength) :
    decodeRootOfTrust rot.toDer = .ok (rot, []) := by
  let ℓ : RootOfTrustLayout := ⟨rot.verifiedBootKey, rot.deviceLocked,
    encodeInt rot.verifiedBootState.toI32, rot.verifiedBootHash, []⟩
  have heq : rot.toDer = tlv .sequence ℓ.body ++ [] := by
    simp [RootOfTrust.toDer, RootOfTrustLayout.body, ℓ]
  refine decodeRootOfTrust_eq_ok.mpr ⟨ℓ, ?_, heq, rfl, rfl, ?_, ?_, rfl, fun _ => rfl⟩
  · exact (length_le_tlv_append _ _ _).trans (heq ▸ h)
  · have hlen : ∀ state : VerifiedBootState, (encodeInt state.toI32).length ≤ 4 := by
      rintro (_ | _ | _ | _) <;> decide +kernel
    exact hlen rot.verifiedBootState
  · rw [intValue_encodeInt, VerifiedBootState.fromI32_toI32]

/-! ### Lists -/

theorem mem_present {tag : ℕ} {α : Type} {x : Option α} {write : α → Bytes} {e : Element} :
    e ∈ present tag (x.map write) ↔ ∃ a, x = some a ∧ e = .explicit tag (write a) := by
  cases x <;> simp [present]

/-- A field is written with `write`. -/
structure Written {α : Type} (f : Field α) (write : α → Bytes) (al : AuthorizationList) : Prop where
  decoded : f.tag ∈ decodedTags
  mem_iff : ∀ e, e ∈ fieldElements al ∧ e.tag = f.tag ↔
    ∃ a, f.get al = some a ∧ e = .explicit f.tag (write a)
  decode_write : ∀ a, f.get al = some a → (write a).length ≤ maxLength →
    f.decode (write a) = .ok (a, [])

theorem written_creationDateTime {al : AuthorizationList} (h : ListFits al) :
    Written .creationDateTime (fun n => tlv .integer (encodeInt n.toNat)) al where
  decoded := by decide
  mem_iff e := by
    simp only [fieldElements, List.mem_append, mem_present, Field.creationDateTime]
    grind [Element.explicit]
  decode_write n hn _ := decodeU64_tlv (h.creationDateTime n hn)

theorem written_rootOfTrust (al : AuthorizationList) :
    Written .rootOfTrust RootOfTrust.toDer al where
  decoded := by decide
  mem_iff e := by
    simp only [fieldElements, List.mem_append, mem_present, Field.rootOfTrust]
    grind [Element.explicit]
  decode_write _ _ hlen := decodeRootOfTrust_toDer hlen

theorem written_osVersion {al : AuthorizationList} (h : ListFits al) :
    Written .osVersion (fun v => tlv .integer (encodeInt v.toNat)) al where
  decoded := by decide
  mem_iff e := by
    simp only [fieldElements, List.mem_append, mem_present, Field.osVersion]
    grind [Element.explicit]
  decode_write v hv _ := decodeU32_tlv (h.osVersion v hv)

theorem written_osPatchLevel {al : AuthorizationList} (h : ListFits al) :
    Written .osPatchLevel (fun v => tlv .integer (encodeInt v.toNat)) al where
  decoded := by decide
  mem_iff e := by
    simp only [fieldElements, List.mem_append, mem_present, Field.osPatchLevel]
    grind [Element.explicit]
  decode_write v hv _ := decodeU32_tlv (h.osPatchLevel v hv)

theorem written_attestationApplicationId (al : AuthorizationList) :
    Written .attestationApplicationId (tlv .octetString) al where
  decoded := by decide
  mem_iff e := by
    simp only [fieldElements, List.mem_append, mem_present, Field.attestationApplicationId]
    grind [Element.explicit]
  decode_write v _ hlen := by
    have hv : v.length ≤ maxLength := (length_le_tlv_append _ v []).trans (by simpa using hlen)
    exact octetString_eq_ok.mpr ⟨hv, (List.append_nil _).symm⟩

/-- What is read under a tag number that is decoded is the element of a field. -/
theorem Lists.readAs_iff {al : AuthorizationList} {els : List Element} (h : Lists al els) {t : ℕ}
    (ht : t ∈ decodedTags) (e : Element) :
    e ∈ els ∧ e.ReadAs t ↔ e ∈ fieldElements al ∧ e.tag = t := by
  have hsmall : ∀ t ∈ decodedTags, t < 2 ^ 32 := by decide
  rw [← h.fields.mem_iff, List.mem_filter, decide_eq_true_iff]
  constructor
  · rintro ⟨he, hclass, htag⟩
    rw [Nat.mod_eq_of_lt ((h.others e he).2 hclass)] at htag
    exact ⟨⟨he, hclass, htag ▸ ht⟩, htag⟩
  · rintro ⟨⟨he, hclass, -⟩, rfl⟩
    exact ⟨he, hclass, Nat.mod_eq_of_lt (hsmall _ ht)⟩

section

variable {al : AuthorizationList} {els : List Element} (h : Lists al els)
  (hlen : ∀ e ∈ els, e.inner.length ≤ maxLength)

include h hlen

theorem Written.decode_eq_ok {α : Type} {f : Field α} {write : α → Bytes}
    (hf : Written f write al) {e : Element} (he : e ∈ els) (hread : e.ReadAs f.tag) :
    ∃ a, f.get al = some a ∧ f.decode e.inner = .ok (a, []) := by
  obtain ⟨a, hget, rfl⟩ := (hf.mem_iff e).mp ((h.readAs_iff hf.decoded e).mp ⟨he, hread⟩)
  exact ⟨a, hget, hf.decode_write a hget (hlen _ he)⟩

/-- A field is read back from any order of the elements. -/
theorem Written.get_eq {α : Type} {f : Field α} {write : α → Bytes} (hf : Written f write al)
    {al' : AuthorizationList} (hfold : els.foldlM Element.store {} = .ok al') :
    f.get al' = f.get al := by
  rcases f.get_of_foldlM hlen hfold with ⟨hnone, hget⟩ | ⟨e, a, rest, hlast, hdecode, hget⟩
  · rw [hget]
    by_contra hne
    obtain ⟨a, ha⟩ := Option.ne_none_iff_exists'.mp fun hnone => hne hnone.symm
    obtain ⟨he, hread⟩ := (h.readAs_iff hf.decoded _).mpr ((hf.mem_iff _).mpr ⟨a, ha, rfl⟩)
    exact not_readAs_of_lastRead hnone _ he hread
  · obtain ⟨he, hread⟩ := readAs_of_lastRead hlast
    obtain ⟨a', ha', hdecode'⟩ := hf.decode_eq_ok h hlen he hread
    obtain ⟨rfl, -⟩ := Prod.mk.inj (Except.ok.inj (hdecode.symm.trans hdecode'))
    rw [hget, ha']

/-- Every element is ignored or decodes. -/
theorem exists_stores (hfits : ListFits al) {e : Element} (he : e ∈ els)
    (out : AuthorizationList) : ∃ out', Stores out e out' := by
  by_cases hignored : ∀ t ∈ decodedTags, ¬ e.ReadAs t
  · exact ⟨out, .ignored hignored⟩
  · push Not at hignored
    obtain ⟨t, ht, hread⟩ := hignored
    simp only [decodedTags, List.mem_cons, List.not_mem_nil, or_false] at ht
    obtain rfl | rfl | rfl | rfl | rfl := ht
    · obtain ⟨_, -, hn⟩ := (written_creationDateTime hfits).decode_eq_ok h hlen he hread
      exact ⟨_, .creationDateTime hread hn⟩
    · obtain ⟨_, -, hrot⟩ := (written_rootOfTrust al).decode_eq_ok h hlen he hread
      exact ⟨_, .rootOfTrust hread hrot⟩
    · obtain ⟨_, -, hv⟩ := (written_osVersion hfits).decode_eq_ok h hlen he hread
      obtain ⟨n, hn, -⟩ := decodeU32_eq_ok.mp hv
      exact ⟨_, .osVersion hread hn⟩
    · obtain ⟨_, -, hv⟩ := (written_osPatchLevel hfits).decode_eq_ok h hlen he hread
      obtain ⟨n, hn, -⟩ := decodeU32_eq_ok.mp hv
      exact ⟨_, .osPatchLevel hread hn⟩
    · obtain ⟨_, -, hv⟩ := (written_attestationApplicationId al).decode_eq_ok h hlen he hread
      exact ⟨_, .attestationApplicationId hread hv⟩

theorem foldlM_store (hfits : ListFits al) : els.foldlM Element.store {} = .ok al := by
  have hstore : ∀ e ∈ els, ∀ out, (∃ out', Element.store out e = .ok out') ↔ True := by
    intro e he out
    obtain ⟨out', hout⟩ := exists_stores h hlen hfits he out
    exact iff_of_true ⟨out', (Element.store_eq_ok (hlen e he)).mpr hout⟩ trivial
  obtain ⟨al', hal⟩ := (exists_foldlM_eq_ok_iff hstore {}).mpr fun _ _ => trivial
  have h1 := (written_creationDateTime hfits).get_eq h hlen hal
  have h2 := (written_rootOfTrust al).get_eq h hlen hal
  have h3 := (written_osVersion hfits).get_eq h hlen hal
  have h4 := (written_osPatchLevel hfits).get_eq h hlen hal
  have h5 := (written_attestationApplicationId al).get_eq h hlen hal
  rw [hal]
  cases al
  cases al'
  simp only [Field.creationDateTime, Field.rootOfTrust, Field.osVersion, Field.osPatchLevel,
    Field.attestationApplicationId] at h1 h2 h3 h4 h5
  subst h1 h2 h3 h4 h5
  rfl

end

theorem decodesList_flatMap {al : AuthorizationList} {els : List Element} (h : Lists al els)
    (hfits : ListFits al) (hlen : (els.flatMap Element.encode).length ≤ maxLength) :
    DecodesList (els.flatMap Element.encode) al := by
  have hinner : ∀ e ∈ els, e.inner.length ≤ maxLength := by
    intro e he
    obtain ⟨before, after, rfl⟩ := List.append_of_mem he
    simp only [List.flatMap_append, List.flatMap_cons, List.length_append, Element.encode] at hlen
    omega
  exact ⟨els, .encode fun e he => ⟨(h.others e he).1, hinner e he⟩, foldlM_store h hinner hfits⟩

/-! ### The extension -/

/-- What is written in DER, with the elements of each list in any order and others
between them, is read back. -/
theorem fromDer_encode {kd : KeyDescription} {software hardware : List Element} (hfits : Fits kd)
    (hsoftware : Lists kd.softwareEnforced software)
    (hhardware : Lists kd.hardwareEnforced hardware)
    (hlen : (encode kd software hardware).length < 2 ^ 28) :
    fromDer (encode kd software hardware) = .ok kd := by
  let ℓ : Layout := ⟨encodeInt kd.attestationVersion, encodeInt kd.attestationSecurityLevel.toI32,
    encodeInt kd.keymintVersion, encodeInt kd.keymintSecurityLevel.toI32, kd.attestationChallenge,
    kd.uniqueId, software.flatMap Element.encode, hardware.flatMap Element.encode, [], []⟩
  have heq : encode kd software hardware = ℓ.toDer := by
    simp [encode, Layout.toDer, Layout.body, ℓ]
  have hmax : ℓ.toDer.length ≤ maxLength := Nat.le_sub_one_of_lt (heq ▸ hlen)
  obtain ⟨-, -, -, hsw, hhw⟩ := Layout.length_le hmax
  have hversion {n : ℤ} (hn : -2 ^ 31 ≤ n ∧ n < 2 ^ 31) : (encodeInt n).length ≤ 4 :=
    (length_encodeInt_le_iff (by norm_num)).mpr (by omega)
  have hlevel : ∀ level : SecurityLevel, (encodeInt level.toI32).length ≤ 4 := by
    rintro (_ | _ | _) <;> decide +kernel
  rw [heq]
  refine fromDer_eq_ok.mpr ⟨hmax, ℓ, rfl, ?_⟩
  exact {
    attestationVersion_minimal := minimalInt_encodeInt _
    attestationVersion_length := hversion hfits.attestationVersion
    attestationVersion := (intValue_encodeInt _).symm
    attestationSecurityLevel_length := hlevel _
    attestationSecurityLevel := by
      rw [intValue_encodeInt, SecurityLevel.fromI32_toI32]
    keymintVersion_minimal := minimalInt_encodeInt _
    keymintVersion_length := hversion hfits.keymintVersion
    keymintVersion := (intValue_encodeInt _).symm
    keymintSecurityLevel_length := hlevel _
    keymintSecurityLevel := by
      rw [intValue_encodeInt, SecurityLevel.fromI32_toI32]
    attestationChallenge := rfl
    uniqueId := rfl
    softwareEnforced := decodesList_flatMap hsoftware hfits.softwareEnforced hsw
    hardwareEnforced := decodesList_flatMap hhardware hfits.hardwareEnforced hhw }

namespace RoundTripSample

def description : KeyDescription where
  attestationVersion := -1
  attestationSecurityLevel := .trustedEnvironment
  keymintVersion := 300
  keymintSecurityLevel := .strongBox
  attestationChallenge := [7]
  uniqueId := []
  softwareEnforced := { creationDateTime := some 128, attestationApplicationId := some [1, 2] }
  hardwareEnforced := {
    rootOfTrust := some ⟨[9], true, .verified, some [8]⟩
    osPatchLevel := some 202501 }

/-- An element of another tag number between two fields that are not in order. -/
def software : List Element :=
  [.explicit 709 (tlv .octetString [1, 2]), .explicit 30 [0xFF],
    .explicit 701 (tlv .integer (encodeInt 128))]

/-- An element of another class with the tag number of a field. -/
def hardware : List Element :=
  [⟨3, false, 704, []⟩, .explicit 706 (tlv .integer (encodeInt 202501)),
    .explicit 704 (RootOfTrust.toDer ⟨[9], true, .verified, some [8]⟩)]

end RoundTripSample

open RoundTripSample in
theorem fromDer_encode_sample :
    fromDer (encode description software hardware) = .ok description := by
  have hsoftware : ListFits description.softwareEnforced :=
    ⟨by rintro n ⟨⟩; decide, by rintro v ⟨⟩, by rintro v ⟨⟩⟩
  have hhardware : ListFits description.hardwareEnforced :=
    ⟨by rintro n ⟨⟩, by rintro v ⟨⟩, by rintro v ⟨⟩; decide⟩
  exact fromDer_encode ⟨by decide, by decide, hsoftware, hhardware⟩
    ⟨by decide +kernel, by decide +kernel⟩ ⟨by decide +kernel, by decide +kernel⟩
    (by decide +kernel)

end KeyDescription

end Attestation.Android
