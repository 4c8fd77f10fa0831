import Attestation.Android.PolicySoundness
import Attestation.Android.Revocation

/-! The order of policies by strictness. An empty list of boot keys admits every
key, so a policy that lists keys is stricter than one that lists none, and one
that lists fewer, but some, is stricter still. A stricter policy accepts fewer
chains, and those with the same outcome. -/

namespace Attestation.Android

open Result

variable {cr : Crates} {pinnedRootsDer chain : List Bytes} {challenge : Bytes} {p q r : Policy}
  {clockMs : UInt64} {outcome : Outcome}

namespace Policy

/-- The serial is found in the policy's status list; an absent list has none. -/
def Finds (policy : Policy) (serial : String) : Prop :=
  ∃ list, policy.statusList = some list ∧ (list.lookupSerial serial).isSome = true

/-- `q` is at least as strict as `p`, knob by knob. -/
structure AtLeastAsStrict (q p : Policy) : Prop where
  level : p.minSecurityLevel.rank ≤ q.minSecurityLevel.rank
  verifiedBoot : p.requireVerifiedBoot = true → q.requireVerifiedBoot = true
  deviceLocked : p.requireDeviceLocked = true → q.requireDeviceLocked = true
  finds : ∀ serial, p.Finds serial → q.Finds serial
  bootKeys : q.requireVerifiedBoot = true ∨ p.allowedSelfSignedKeys = [] ∨
    q.allowedSelfSignedKeys ≠ [] ∧ q.allowedSelfSignedKeys ⊆ p.allowedSelfSignedKeys

namespace AtLeastAsStrict

theorem refl (p : Policy) : p.AtLeastAsStrict p where
  level := le_rfl
  verifiedBoot := id
  deviceLocked := id
  finds _ := id
  bootKeys := .inr (or_iff_not_imp_left.mpr fun h => ⟨h, List.Subset.refl _⟩)

theorem trans (hrq : r.AtLeastAsStrict q) (hqp : q.AtLeastAsStrict p) : r.AtLeastAsStrict p where
  level := hqp.level.trans hrq.level
  verifiedBoot := hrq.verifiedBoot ∘ hqp.verifiedBoot
  deviceLocked := hrq.deviceLocked ∘ hqp.deviceLocked
  finds serial := hrq.finds serial ∘ hqp.finds serial
  bootKeys := by
    rcases hqp.bootKeys with hq | hp | ⟨hne, hsub⟩
    · exact .inl (hrq.verifiedBoot hq)
    · exact .inr (.inl hp)
    · rcases hrq.bootKeys with hr | hq | ⟨hr, hsub'⟩
      · exact .inl hr
      · exact absurd hq hne
      · exact .inr (.inr ⟨hr, List.Subset.trans hsub' hsub⟩)

end AtLeastAsStrict

end Policy

open Policy (AtLeastAsStrict)

/-! ### Each check -/

theorem meets_of_le {got a b : SecurityLevel} (hle : a.rank ≤ b.rank) (h : got.meets b = true) :
    got.meets a = true :=
  SecurityLevel.meets_iff.mpr (hle.trans (SecurityLevel.meets_iff.mp h))

/-- The guarded arms of the boot-state match: an arm of the looser policy covers
each one the stricter policy takes. -/
theorem checkBootState_of_stricter (h : q.AtLeastAsStrict p) {rot : RootOfTrust}
    (hq : checkBootState q rot = .ok ()) : checkBootState p rot = .ok () := by
  rw [checkBootState_eq_ok] at hq ⊢
  rcases hq with hverified | ⟨hboot, harm⟩
  · exact .inl hverified
  have hpboot : p.requireVerifiedBoot = false := by
    rw [← Bool.not_eq_true]
    intro hp
    rw [h.verifiedBoot hp] at hboot
    cases hboot
  refine .inr ⟨hpboot, ?_⟩
  rcases h.bootKeys with hq | hp | ⟨hne, hsub⟩
  · rw [hboot] at hq
    cases hq
  · exact .inl hp
  · rcases harm with hempty | ⟨hself, hkey⟩
    · exact absurd hempty hne
    · exact .inr ⟨hself, hsub hkey⟩

theorem checkRootOfTrust_of_stricter (h : q.AtLeastAsStrict p) {rot : Option RootOfTrust}
    (hq : checkRootOfTrust q rot = .ok ()) : checkRootOfTrust p rot = .ok () := by
  cases rot with
  | none =>
    rw [checkRootOfTrust_none] at hq ⊢
    rw [← Bool.not_eq_true] at hq ⊢
    exact fun hp => hq (h.verifiedBoot hp)
  | some rot =>
    simp only [checkRootOfTrust, bind_eq_ok, ensure_eq_ok, exists_const] at hq ⊢
    refine ⟨?_, checkBootState_of_stricter h hq.2⟩
    rintro ⟨hp, hunlocked⟩
    exact hq.1 ⟨h.deviceLocked hp, hunlocked⟩

/-- A serial the looser policy finds is one the stricter policy refused. -/
theorem checkStatus_of_stricter (h : q.AtLeastAsStrict p) {der : Bytes} {cert : Certificate}
    (hcert : cr.certificateFromDer der = .ok cert)
    (hq : ∀ list, q.statusList = some list → checkStatus cr list der = .ok ()) {list : StatusList}
    (hlist : p.statusList = some list) : checkStatus cr list der = .ok () := by
  rw [checkStatus_of_parse hcert]
  rcases hentry : list.lookupSerial (serialHex cert.tbsCertificate.serialNumber) with _ | entry
  · rfl
  · obtain ⟨qlist, hqlist, hfound⟩ := h.finds _ ⟨list, hlist, by rw [hentry, Option.isSome_some]⟩
    obtain ⟨qentry, hqentry⟩ := Option.isSome_iff_exists.mp hfound
    have hok := hq qlist hqlist
    rw [checkStatus_of_parse hcert, hqentry] at hok
    exact absurd hok fail_ne_ok

theorem Checks.of_stricter (h : q.AtLeastAsStrict p) {leaf : Certificate} {kd : KeyDescription}
    {spkiDer : Bytes} (hq : Checks cr pinnedRootsDer chain challenge q clockMs leaf kd spkiDer) :
    Checks cr pinnedRootsDer chain challenge p clockMs leaf kd spkiDer where
  chainValid := hq.chainValid
  notRevoked list hlist der hder := by
    obtain ⟨cert, hcert⟩ := parses_of_validateChain hq.chainValid der hder
    exact checkStatus_of_stricter h hcert (fun l hl => hq.notRevoked l hl der hder) hlist
  described := hq.described
  challenge_eq := hq.challenge_eq
  attestationLevel := meets_of_le h.level hq.attestationLevel
  keymintLevel := meets_of_le h.level hq.keymintLevel
  encoded := hq.encoded

/-! ### The verifier -/

/-- What a stricter policy accepts, a looser one accepts with the same outcome. -/
theorem verifyAttestation_of_stricter (h : q.AtLeastAsStrict p)
    (hq : verifyAttestation cr pinnedRootsDer chain challenge q clockMs = .ok outcome) :
    verifyAttestation cr pinnedRootsDer chain challenge p clockMs = .ok outcome := by
  rw [verifyAttestation_eq_ok] at hq ⊢
  obtain ⟨leaf, kd, spkiDer, hchecks, hrot, houtcome⟩ := hq
  exact ⟨leaf, kd, spkiDer, hchecks.of_stricter h, checkRootOfTrust_of_stricter h hrot, houtcome⟩

/-! ### Two policies for a self-signed boot -/

/-- A two-certificate chain of a device booted under the key `[9]` of its owner. -/
def selfSignedChain : List Certificate :=
  let attested := KeyDescription.extension 1 [7] (KeyDescription.rootOfTrustElement [9] 0xFF 1)
  [Crates.issue [1] [5] [0x0B] [0x0A] [attested],
    Crates.issue [2] [1] [0x0A] [0x0A] [Crates.caExtension]]

/-- Any security level, either of two boot keys, one serial revoked. -/
def lenient : Policy where
  minSecurityLevel := .software
  requireVerifiedBoot := false
  allowedSelfSignedKeys := [[8], [9]]
  requireDeviceLocked := false
  statusList := some (.singleton "06" keyCompromise)

/-- A locked device and its one boot key. -/
def strict : Policy where
  requireVerifiedBoot := false
  allowedSelfSignedKeys := [[9]]
  statusList := some (.singleton "06" keyCompromise)

theorem strict_atLeastAsStrict_lenient : strict.AtLeastAsStrict lenient where
  level := by decide
  verifiedBoot := id
  deviceLocked _ := rfl
  finds _ := id
  bootKeys := .inr (.inr ⟨by simp [strict], by simp [strict, lenient]⟩)

theorem selfSignedChain_lenient :
    ∃ outcome, verifyAttestation (.ofTables selfSignedChain []) [[2]] [[1], [2]] [7] strict 0 =
        .ok outcome ∧
      verifyAttestation (.ofTables selfSignedChain []) [[2]] [[1], [2]] [7] lenient 0 =
        .ok outcome := by
  obtain ⟨outcome, hok⟩ := exists_eq_ok (x := verifyAttestation (.ofTables selfSignedChain [])
    [[2]] [[1], [2]] [7] strict 0) (by decide +kernel)
  exact ⟨outcome, hok, verifyAttestation_of_stricter strict_atLeastAsStrict_lenient hok⟩

end Attestation.Android
