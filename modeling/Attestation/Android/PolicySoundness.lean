import Attestation.Android.Verify

/-! What an accepted call says about the policy it was made under. A present root
of trust is held against every knob of the policy; a missing one is refused only
under `requireVerifiedBoot`, so without it the lock requirement and the list of
allowed boot keys are not enforced on a device that reports no root of trust. -/

namespace Attestation.Android

open Result

variable {cr : Crates} {pinnedRootsDer chain : List Bytes} {challenge : Bytes} {policy : Policy}
  {clockMs : UInt64}

/-- The requirements a policy puts on the root of trust of a device. -/
structure MeetsBootPolicy (policy : Policy) (rot : Option RootOfTrust) : Prop where
  locked : policy.requireDeviceLocked = true → ∃ r, rot = some r ∧ r.deviceLocked = true
  verified : policy.requireVerifiedBoot = true →
    ∃ r, rot = some r ∧ r.verifiedBootState = .verified
  allowed : policy.requireVerifiedBoot = false → policy.allowedSelfSignedKeys ≠ [] →
    ∃ r, rot = some r ∧ (r.verifiedBootState = .verified ∨
      r.verifiedBootState = .selfSigned ∧ r.verifiedBootKey ∈ policy.allowedSelfSignedKeys)

/-- The policy asks something of the root of trust. -/
def AsksForRootOfTrust (policy : Policy) : Prop :=
  policy.requireDeviceLocked = true ∨ policy.requireVerifiedBoot = true ∨
    policy.allowedSelfSignedKeys ≠ []

/-- A missing root of trust meets only a policy that asks nothing of one. -/
theorem meetsBootPolicy_none : MeetsBootPolicy policy none ↔ ¬ AsksForRootOfTrust policy := by
  constructor
  · rintro ⟨hlocked, hverified, hallowed⟩ (h | h | h)
    · obtain ⟨_, ⟨⟩, -⟩ := hlocked h
    · obtain ⟨_, ⟨⟩, -⟩ := hverified h
    · rcases hboot : policy.requireVerifiedBoot
      · obtain ⟨_, ⟨⟩, -⟩ := hallowed hboot h
      · obtain ⟨_, ⟨⟩, -⟩ := hverified hboot
  · intro h
    simp only [AsksForRootOfTrust, not_or] at h
    exact ⟨fun hl => absurd hl h.1, fun hv => absurd hv h.2.1, fun _ ha => absurd ha h.2.2⟩

/-- The boot-state match accepts a verified boot, any boot state when the caller
asks for none, and a self-signed one under an allowed key. -/
theorem checkBootState_eq_ok {rot : RootOfTrust} :
    checkBootState policy rot = .ok () ↔
      rot.verifiedBootState = .verified ∨
        policy.requireVerifiedBoot = false ∧ (policy.allowedSelfSignedKeys = [] ∨
          rot.verifiedBootState = .selfSigned ∧
            rot.verifiedBootKey ∈ policy.allowedSelfSignedKeys) := by
  unfold checkBootState
  split
  · simp [*, pure, Except.pure]
  · rename_i hstate
    split_ifs with hnone hself
    · simp [hnone, pure, Except.pure]
    · simp [hself, pure, Except.pure]
    · simp only [fail_ne_ok, false_iff]
      rintro (h | ⟨hboot, h | ⟨h, hkey⟩⟩)
      · exact hstate h
      · exact hnone ⟨hboot, h⟩
      · exact hself ⟨h, hboot, hkey⟩

/-- A root of trust that is present and accepted meets the policy. -/
theorem meetsBootPolicy_of_checkRootOfTrust {rot : RootOfTrust}
    (h : checkRootOfTrust policy (some rot) = .ok ()) : MeetsBootPolicy policy (some rot) := by
  simp only [checkRootOfTrust, bind_eq_ok, ensure_eq_ok, exists_const, checkBootState_eq_ok,
    not_and, Bool.not_eq_false] at h
  obtain ⟨hlocked, hboot⟩ := h
  refine ⟨fun hl => ⟨rot, rfl, hlocked hl⟩, fun hv => ⟨rot, rfl, ?_⟩, fun _ hne => ⟨rot, rfl, ?_⟩⟩
  · rcases hboot with hboot | ⟨hno, -⟩
    · exact hboot
    · rw [hv] at hno
      cases hno
  · rcases hboot with hboot | ⟨-, hempty | hself⟩
    · exact .inl hboot
    · exact absurd hempty hne
    · exact .inr hself

theorem checkRootOfTrust_none : checkRootOfTrust policy none = .ok () ↔
    policy.requireVerifiedBoot = false := ensure_eq_ok

/-- The leaf of the chain carries the key description. -/
def LeafDescribes (cr : Crates) (chain : List Bytes) (kd : KeyDescription) : Prop :=
  ∃ der leaf, chain.head? = some der ∧ cr.certificateFromDer der = .ok leaf ∧ Describes leaf kd

/-- Policy soundness at one call: what it accepts meets its policy. -/
def PolicySound (cr : Crates) (pinnedRootsDer chain : List Bytes) (challenge : Bytes)
    (policy : Policy) (clockMs : UInt64) : Prop :=
  ∀ outcome kd, verifyAttestation cr pinnedRootsDer chain challenge policy clockMs = .ok outcome →
    LeafDescribes cr chain kd →
      kd.attestationChallenge = challenge ∧
      kd.attestationSecurityLevel.meets policy.minSecurityLevel = true ∧
      kd.keymintSecurityLevel.meets policy.minSecurityLevel = true ∧
      MeetsBootPolicy policy kd.hardwareEnforced.rootOfTrust

/-- A call is sound unless it passes every other check on a device that reports
no root of trust, under a policy that does not require a verified boot but does
require a locked device or list allowed boot keys. -/
theorem policySound_iff :
    PolicySound cr pinnedRootsDer chain challenge policy clockMs ↔
      ¬ ((∃ leaf kd spkiDer,
          Checks cr pinnedRootsDer chain challenge policy clockMs leaf kd spkiDer ∧
            kd.hardwareEnforced.rootOfTrust = none) ∧
        policy.requireVerifiedBoot = false ∧
        (policy.requireDeviceLocked = true ∨ policy.allowedSelfSignedKeys ≠ [])) := by
  constructor
  · rintro hsound ⟨⟨leaf, kd, spkiDer, hchecks, hnone⟩, hboot, hasks⟩
    obtain ⟨der, hder, hleaf⟩ := leaf_of_validateChain hchecks.chainValid
    have haccept := verifyAttestation_eq_ok.mpr
      ⟨leaf, kd, spkiDer, hchecks, by rw [hnone, checkRootOfTrust_none]; exact hboot, rfl⟩
    obtain ⟨-, -, -, hmeets⟩ := hsound _ kd haccept ⟨der, leaf, hder, hleaf, hchecks.described⟩
    rw [hnone, meetsBootPolicy_none] at hmeets
    exact hmeets (hasks.imp_right .inr)
  · rintro hcond outcome kd' hok ⟨der', leaf', hder', hleaf', hdescribed'⟩
    obtain ⟨leaf, kd, spkiDer, hchecks, hrot, -⟩ := verifyAttestation_eq_ok.mp hok
    obtain ⟨der, hder, hleaf⟩ := leaf_of_validateChain hchecks.chainValid
    obtain rfl := Option.some.inj (hder.symm.trans hder')
    obtain rfl := Except.ok.inj (hleaf.symm.trans hleaf')
    obtain rfl := hchecks.described.unique hdescribed'
    refine ⟨hchecks.challenge_eq, hchecks.attestationLevel, hchecks.keymintLevel, ?_⟩
    rcases hr : kd.hardwareEnforced.rootOfTrust with _ | rot
    · rw [hr, checkRootOfTrust_none] at hrot
      rw [meetsBootPolicy_none]
      rintro (h | h | h)
      · exact hcond ⟨⟨leaf, kd, spkiDer, hchecks, hr⟩, hrot, .inl h⟩
      · rw [hrot] at h
        cases h
      · exact hcond ⟨⟨leaf, kd, spkiDer, hchecks, hr⟩, hrot, .inr h⟩
    · exact meetsBootPolicy_of_checkRootOfTrust (hr ▸ hrot)

/-! ### A device without a root of trust -/

/-- A two-certificate chain whose leaf reports no root of trust. -/
def bareChain : List Certificate :=
  [Crates.issue [1] [1] [0x0B] [0x0A] [KeyDescription.extension 1 [7] []],
    Crates.issue [2] [2] [0x0A] [0x0A] [Crates.caExtension]]

/-- A locked device and one boot key are required, and neither is shown. -/
theorem bareChain_accepted :
    ¬ PolicySound (.ofTables bareChain []) [[2]] [[1], [2]] [7]
      { requireVerifiedBoot := false, allowedSelfSignedKeys := [[9]] } 0 := by
  intro hsound
  obtain ⟨outcome, hok⟩ := exists_eq_ok (x := verifyAttestation (.ofTables bareChain [])
    [[2]] [[1], [2]] [7] { requireVerifiedBoot := false, allowedSelfSignedKeys := [[9]] } 0)
    (by decide +kernel)
  obtain ⟨kd, hkd⟩ := exists_eq_ok (x := KeyDescription.fromDer
    (KeyDescription.extension 1 [7] []).extnValue) (by decide +kernel)
  have hleaf : LeafDescribes (.ofTables bareChain []) [[1], [2]] kd :=
    ⟨[1], bareChain[0], rfl, by decide +kernel, KeyDescription.extension 1 [7] [],
      by decide +kernel, hkd⟩
  obtain ⟨-, -, -, hmeets⟩ := hsound outcome kd hok hleaf
  have hnone : kd.hardwareEnforced.rootOfTrust = none := by
    have hmap : (KeyDescription.fromDer (KeyDescription.extension 1 [7] []).extnValue).map
        (fun kd => kd.hardwareEnforced.rootOfTrust) = .ok none := by decide +kernel
    rw [hkd] at hmap
    exact Except.ok.inj hmap
  obtain ⟨r, hr, -⟩ := hmeets.locked rfl
  rw [hnone] at hr
  cases hr

end Attestation.Android
