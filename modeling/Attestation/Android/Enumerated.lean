import Attestation.Android.Layout

/-! The enumerated values of an extension: the two security levels and the boot
states. The decoder reads an ENUMERATED by hand and takes contents that are empty or
longer than they need be, where the library takes an INTEGER in its shortest form
only; nothing at all reads as zero, which is the most trusted boot state. -/

namespace Attestation.Android.KeyDescription

open Result Der

/-! ### One value -/

/-- What is decoded is a well-formed ENUMERATED of the value returned. -/
def EnumeratedRead (r : Bytes) : Prop :=
  ∀ n r', decodeEnumerated r = .ok (n, r') → r = tlv .enumerated (encodeInt n) ++ r'

/-- An ENUMERATED of at most four octets at the front has minimal contents. -/
def FrontMinimal (r : Bytes) : Prop :=
  ∀ contents r', contents.length ≤ 4 → r = tlv .enumerated contents ++ r' → MinimalInt contents

theorem enumeratedRead_iff {r : Bytes} : EnumeratedRead r ↔ FrontMinimal r := by
  constructor
  · intro h contents r' hlen hr
    have hread := h _ r' (decodeEnumerated_eq_ok.mpr ⟨contents, hlen, hr, rfl⟩)
    have hshort : (encodeInt (intValue contents)).length ≤ maxLength := by
      rw [length_encodeInt]
      by_cases hne : contents = []
      · rw [hne]
        decide +kernel
      · exact (intOctets_intValue_le hne).trans (hlen.trans (by decide))
    obtain ⟨-, hcontents, -⟩ := tlv_inj (hlen.trans (by decide)) hshort (hr.symm.trans hread)
    exact minimalInt_iff.mpr hcontents
  · intro h n r' hdecode
    obtain ⟨contents, hlen, hr, rfl⟩ := decodeEnumerated_eq_ok.mp hdecode
    rw [← minimalInt_iff.mp (h contents r' hlen hr)]
    exact hr

/-- The contents are those of a well-formed ENUMERATED with the value `a`. -/
def EnumeratedValue {α : Type} (fromI32 : ℤ → Option α) (contents : Bytes) (a : α) : Prop :=
  ∃ n, contents = encodeInt n ∧ fromI32 n = some a

/-- A value that has a name takes one octet. -/
theorem enumeratedValue_iff {α : Type} {fromI32 : ℤ → Option α} {contents : Bytes} {a : α}
    (hnamed : ∀ n a, fromI32 n = some a → 0 ≤ n ∧ n ≤ 3)
    (h : fromI32 (intValue contents) = some a) :
    EnumeratedValue fromI32 contents a ↔ contents.length = 1 := by
  constructor
  · rintro ⟨n, rfl, hn⟩
    obtain ⟨hlo, hhi⟩ := hnamed n a hn
    have hle : intOctets n ≤ 1 := (intOctets_le_iff le_rfl).mpr (by omega)
    rw [length_encodeInt]
    exact le_antisymm hle (one_le_intOctets n)
  · intro hlen
    obtain ⟨b, rfl⟩ := List.length_eq_one_iff.mp hlen
    exact ⟨_, minimalInt_iff.mp trivial, h⟩

/-! ### A whole extension -/

/-- The boot state of a list is the value of a well-formed ENUMERATED in its RootOfTrust,
and a verified one is written `00`. -/
def BootStateFaithful (body : Bytes) (al : AuthorizationList) : Prop :=
  ∀ rot, al.rootOfTrust = some rot → ∃ rl, RootOfTrustIn body rl ∧
    EnumeratedValue VerifiedBootState.fromI32 rl.state rot.verifiedBootState ∧
      (rot.verifiedBootState = .verified → rl.state = [0x00])

/-- The levels and boot states of a description are those laid out in the extension. -/
structure EnumeratedsFaithful (ℓ : Layout) (kd : KeyDescription) : Prop where
  attestationSecurityLevel :
    EnumeratedValue SecurityLevel.fromI32 ℓ.attestationSecurityLevel kd.attestationSecurityLevel
  keymintSecurityLevel :
    EnumeratedValue SecurityLevel.fromI32 ℓ.keymintSecurityLevel kd.keymintSecurityLevel
  softwareEnforced : BootStateFaithful ℓ.softwareEnforced kd.softwareEnforced
  hardwareEnforced : BootStateFaithful ℓ.hardwareEnforced kd.hardwareEnforced

/-- The boot state in the body of a list has one octet of contents. -/
def OneOctetState (body : Bytes) : Prop := ∀ rl, RootOfTrustIn body rl → rl.state.length = 1

/-- The levels and boot states have one octet of contents each. -/
structure OneOctetEach (ℓ : Layout) : Prop where
  attestationSecurityLevel : ℓ.attestationSecurityLevel.length = 1
  keymintSecurityLevel : ℓ.keymintSecurityLevel.length = 1
  softwareEnforced : OneOctetState ℓ.softwareEnforced
  hardwareEnforced : OneOctetState ℓ.hardwareEnforced

theorem bootStateFaithful_iff {body : Bytes} {al : AuthorizationList} (h : DecodesList body al)
    (hbody : body.length ≤ maxLength) : BootStateFaithful body al ↔ OneOctetState body := by
  rcases h.rootOfTrust hbody with ⟨hnone, hnot⟩ | ⟨rot, rl, hsome, hrl, hrot⟩
  · refine iff_of_true (fun rot hrot => ?_) fun rl hrl => absurd hrl (hnot rl)
    rw [hnone] at hrot
    cases hrot
  · have hone := enumeratedValue_iff VerifiedBootState.fromI32_bounds hrot.state
    constructor
    · intro h rl' hrl'
      obtain ⟨rl'', hrl'', hvalue, -⟩ := h rot hsome
      rw [← hrl.state_eq hrl''] at hvalue
      rw [← hrl.state_eq hrl']
      exact hone.mp hvalue
    · intro h rot' hrot'
      obtain rfl := Option.some.inj (hsome.symm.trans hrot')
      have hvalue := hone.mpr (h rl hrl)
      refine ⟨rl, hrl, hvalue, fun hverified => ?_⟩
      obtain ⟨n, hn, hnamed⟩ := hvalue
      rw [hverified] at hnamed
      rw [hn, VerifiedBootState.eq_zero_of_verified hnamed]
      decide +kernel

theorem enumeratedsFaithful_iff {ℓ : Layout} {kd : KeyDescription} (h : ℓ.Decodes kd)
    (hlen : ℓ.toDer.length ≤ maxLength) : EnumeratedsFaithful ℓ kd ↔ OneOctetEach ℓ := by
  obtain ⟨-, -, -, hsoftware, hhardware⟩ := Layout.length_le hlen
  have hattestation := enumeratedValue_iff SecurityLevel.fromI32_bounds h.attestationSecurityLevel
  have hkeymint := enumeratedValue_iff SecurityLevel.fromI32_bounds h.keymintSecurityLevel
  have hsw := bootStateFaithful_iff h.softwareEnforced hsoftware
  have hhw := bootStateFaithful_iff h.hardwareEnforced hhardware
  constructor
  · rintro ⟨h1, h2, h3, h4⟩
    exact ⟨hattestation.mp h1, hkeymint.mp h2, hsw.mp h3, hhw.mp h4⟩
  · rintro ⟨h1, h2, h3, h4⟩
    exact ⟨hattestation.mpr h1, hkeymint.mpr h2, hsw.mpr h3, hhw.mpr h4⟩

/-- Every enumerated value is read faithfully from minimal contents, and from no others:
for the named values these are the contents of one octet. -/
theorem enumerateds_faithful_iff (r bytes : Bytes) :
    (EnumeratedRead r ↔ FrontMinimal r) ∧
      ∀ kd, fromDer bytes = .ok kd →
        ((∃ ℓ : Layout, bytes = ℓ.toDer ∧ EnumeratedsFaithful ℓ kd) ↔
          ∃ ℓ : Layout, bytes = ℓ.toDer ∧ OneOctetEach ℓ) := by
  refine ⟨enumeratedRead_iff, fun kd h => ?_⟩
  obtain ⟨hlen, ℓ, rfl, hdecodes⟩ := fromDer_eq_ok.mp h
  have hiff := enumeratedsFaithful_iff hdecodes hlen
  constructor
  · rintro ⟨ℓ', heq, hfaithful⟩
    obtain rfl := Layout.toDer_inj hlen heq
    exact ⟨ℓ, rfl, hiff.mp hfaithful⟩
  · rintro ⟨ℓ', heq, hone⟩
    obtain rfl := Layout.toDer_inj hlen heq
    exact ⟨ℓ, rfl, hiff.mpr hone⟩

/-! ### A boot state of no octets -/

namespace BootStateSample

/-- A RootOfTrust with boot key `[9]`, locked, whose state has the given contents. -/
def rot (state : Bytes) : RootOfTrustLayout := ⟨[9], true, state, none, []⟩

def element (state : Bytes) : Element := ⟨2, true, 704, tlv .sequence (rot state).body⟩

def layout (state : Bytes) : Layout :=
  ⟨[3], [1], [4], [1], [7], [], [], (element state).encode, [], []⟩

def description : KeyDescription where
  attestationVersion := 3
  attestationSecurityLevel := .trustedEnvironment
  keymintVersion := 4
  keymintSecurityLevel := .trustedEnvironment
  attestationChallenge := [7]
  uniqueId := []
  softwareEnforced := {}
  hardwareEnforced := { rootOfTrust := some ⟨[9], true, .verified, none⟩ }

theorem rootOfTrustIn {state : Bytes} (hlen : (element state).inner.length ≤ maxLength) :
    RootOfTrustIn (layout state).hardwareEnforced (rot state) := by
  have hbody : (rot state).body.length ≤ maxLength :=
    (length_le_tlv_append .sequence _ []).trans (by simpa [element] using hlen)
  have hels : Elements ([element state].flatMap Element.encode) [element state] :=
    .encode (by simpa [element] using hlen)
  rw [List.flatMap_singleton] at hels
  exact ⟨_, element state, [], hels, rfl, hbody, (List.append_nil _).symm⟩

end BootStateSample

open BootStateSample in
theorem enumerateds_faithful_sample :
    ∃ ℓ : Layout, (layout [0x00]).toDer = ℓ.toDer ∧ EnumeratedsFaithful ℓ description := by
  refine ((enumerateds_faithful_iff [] _).2 _ (by decide +kernel)).mpr
    ⟨layout [0x00], rfl, rfl, rfl, ?_, ?_⟩
  · rintro rl ⟨els, e, r, hels, hlast, -⟩
    obtain rfl := hels.unique .nil
    cases hlast
  · intro rl hrl
    rw [← (rootOfTrustIn (by decide +kernel)).state_eq hrl]
    rfl

open BootStateSample in
/-- No octets are read as zero, and a boot state of no octets as verified. -/
theorem emptyEnumerated_read :
    ¬ EnumeratedRead [0x0A, 0x00] ∧ fromDer (layout []).toDer = .ok description ∧
      ¬ ∃ ℓ : Layout, (layout []).toDer = ℓ.toDer ∧ EnumeratedsFaithful ℓ description := by
  have hdecode : fromDer (layout []).toDer = .ok description := by decide +kernel
  refine ⟨fun h => ?_, hdecode, ?_⟩
  · exact enumeratedRead_iff.mp h [] [] (by decide) rfl
  · rintro ⟨ℓ, heq, hfaithful⟩
    obtain ⟨hlen, ℓ', heq', hdecodes⟩ := fromDer_eq_ok.mp hdecode
    obtain rfl := Layout.toDer_inj hlen heq
    obtain rfl := Layout.toDer_inj hlen heq'
    have hone := ((enumeratedsFaithful_iff hdecodes hlen).mp hfaithful).hardwareEnforced
    exact absurd (hone _ (rootOfTrustIn (by decide +kernel))) (by decide)

end Attestation.Android.KeyDescription
