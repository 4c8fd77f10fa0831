import Attestation.Android.Verify

/-! Which chains the Android validator accepts, and what that says about their
issuers. The validator acts on every check it makes but the CA check, whose
result it drops; so an accepted chain has CA issuers exactly when its issuers
happen to be CAs. -/

namespace Attestation.Android

open Result

variable {cr : Crates} {pinnedRootsDer chain : List Bytes} {clockMs : UInt64}

/-- Every certificate above the leaf that is not a pinned root is a CA. -/
def IssuersAreCas (cr : Crates) (pinnedRootsDer chain : List Bytes) : Prop :=
  ∀ i der cert, 1 ≤ i → chain[i]? = some der → der ∉ pinnedRootsDer →
    cr.certificateFromDer der = .ok cert → X509.IsCa cr cert

/-- The chain passes every check the validator acts on. -/
def PassesOtherChecks (cr : Crates) (pinnedRootsDer chain : List Bytes) (clockMs : UInt64) :
    Prop :=
  ∃ certs, Checked cr pinnedRootsDer chain clockMs certs

theorem passesOtherChecks_iff :
    PassesOtherChecks cr pinnedRootsDer chain clockMs ↔
      ∃ leaf, validateChain cr pinnedRootsDer chain clockMs = .ok leaf := by
  simp only [validateChain_eq_ok]
  constructor
  · rintro ⟨certs, h⟩
    obtain ⟨der, ders, rfl⟩ := List.exists_cons_of_ne_nil h.nonempty
    obtain ⟨leaf, rest, -, -, rfl⟩ := List.forall₂_cons_left_iff.mp h.parsed
    exact ⟨leaf, leaf :: rest, h, rfl⟩
  · rintro ⟨leaf, certs, h, -⟩
    exact ⟨certs, h⟩

/-- The chain-of-trust guarantee at one chain and one time: an accepted chain has
CA issuers, and no leaf is attested whose issuer is not a CA. -/
def ChainOfTrust (cr : Crates) (pinnedRootsDer chain : List Bytes) (clockMs : UInt64) : Prop :=
  (∀ leaf, validateChain cr pinnedRootsDer chain clockMs = .ok leaf →
    IssuersAreCas cr pinnedRootsDer chain) ∧
  ∀ challenge policy outcome,
    verifyAttestation cr pinnedRootsDer chain challenge policy clockMs = .ok outcome →
      ∀ der cert, chain[1]? = some der → der ∉ pinnedRootsDer →
        cr.certificateFromDer der = .ok cert → X509.IsCa cr cert

/-- The guarantee holds of a chain exactly when the chain fails one of the checks
the validator acts on, or all its issuers are CAs as they come. -/
theorem chainOfTrust_iff :
    ChainOfTrust cr pinnedRootsDer chain clockMs ↔
      ¬ PassesOtherChecks cr pinnedRootsDer chain clockMs ∨
        IssuersAreCas cr pinnedRootsDer chain := by
  rw [← imp_iff_not_or, passesOtherChecks_iff]
  constructor
  · rintro ⟨hvalidate, -⟩ ⟨leaf, hleaf⟩
    exact hvalidate leaf hleaf
  · intro h
    refine ⟨fun leaf hleaf => h ⟨leaf, hleaf⟩, fun challenge policy outcome hok der cert => ?_⟩
    obtain ⟨leaf, _, _, hchecks, -⟩ := verifyAttestation_eq_ok.mp hok
    exact h ⟨leaf, hchecks.chainValid⟩ 1 der cert le_rfl

/-! ### A device key that issues certificates -/

/-- A root, a device certificate it issued without a CA flag, and a certificate
the device key issued. -/
def rogueChain : List Certificate :=
  let attested := KeyDescription.extension 1 [7] (KeyDescription.rootOfTrustElement [9] 0xFF 0)
  [Crates.issue [1] [1] [0x0C] [0x0B] [attested], Crates.issue [2] [2] [0x0B] [0x0A] [attested],
    Crates.issue [3] [3] [0x0A] [0x0A] [Crates.caExtension]]

/-- The leaf the device key issued is attested. -/
theorem rogueChain_attested :
    (verifyAttestation (.ofTables rogueChain []) [[3]] [[1], [2], [3]] [7] {} 0).isOk = true ∧
      ¬ ChainOfTrust (.ofTables rogueChain []) [[3]] [[1], [2], [3]] 0 := by
  refine ⟨by decide +kernel, ?_⟩
  rintro ⟨hvalidate, -⟩
  have hca := hvalidate (rogueChain[0]) (by decide +kernel) 1 [2] rogueChain[1] le_rfl rfl
    (by decide) (by decide +kernel)
  obtain ⟨ext, hext, -⟩ := hca
  have hnone : rogueChain[1].tbsCertificate.findExtension .basicConstraints = none := by
    decide +kernel
  rw [hnone] at hext
  cases hext

end Attestation.Android
