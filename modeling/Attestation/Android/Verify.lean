import Attestation.Android.KeyDescription
import Attestation.Android.Roots
import Attestation.Android.StatusList
import Attestation.Base.Hex
import Attestation.Core.Outcome

/-! The Android Key Attestation verifier: chain validation, revocation, the
attestation extension of the leaf and the caller's policy on it. -/

namespace Attestation.Android

open Result

/-- Policy knobs the caller supplies. -/
structure Policy where
  minSecurityLevel : SecurityLevel := .trustedEnvironment
  requireVerifiedBoot : Bool := true
  allowedSelfSignedKeys : List Bytes := []
  requireDeviceLocked : Bool := true
  statusList : Option StatusList := none

/-! ### Revocation -/

/-- The loop over the serial's bytes: zero bytes are skipped while `leading`. -/
def serialDigits : Bool → Bytes → List Char
  | _, [] => []
  | leading, b :: bs =>
    if leading && b == 0 then serialDigits true bs
    else Hex.byteDigits b ++ serialDigits false bs

def serialHex (serial : Bytes) : String :=
  let hex := serialDigits true serial
  if hex = [] then "0" else String.ofList hex

variable (cr : Crates)

def checkStatus (list : StatusList) (der : Bytes) : Result Error Unit := do
  let cert ← parse cr "cert parse for status" der
  let hex := serialHex cert.tbsCertificate.serialNumber
  match list.lookupSerial hex with
  | some entry => fail (.revoked hex entry.status entry.reason)
  | none => pure ()

/-- With a status list, every certificate of the chain is checked against it. -/
def checkRevocation (statusList : Option StatusList) (chain : List Bytes) : Result Error Unit :=
  match statusList with
  | some list => chain.forM (checkStatus cr list)
  | none => pure ()

/-! ### The leaf's extension -/

/-- The bytes inside the OCTET STRING wrapper of the attestation extension. -/
def extractAttestationExtension (leaf : Certificate) : Result Error Bytes := do
  let ext ← okOr .missingAttestationExtension
    (leaf.tbsCertificate.findExtension oidAndroidKeyAttestation)
  pure ext.extnValue

def canonicalChainHashInput (chain : List Bytes) : Bytes :=
  chain.flatMap fun c => beBytes 4 c.length ++ c

def toDerVec (spki : SubjectPublicKeyInfo) : Result Error Bytes :=
  ofExcept (fun e => .der ("SPKI encode: " ++ e.message)) spki.toDer

/-! ### Policy -/

/-- The match on the boot state, with its ordered guards. -/
def checkBootState (policy : Policy) (rot : RootOfTrust) : Result Error Unit :=
  match rot.verifiedBootState with
  | .verified => pure ()
  | state =>
    if policy.requireVerifiedBoot = false ∧ policy.allowedSelfSignedKeys = [] then pure ()
    else if state = .selfSigned ∧ policy.requireVerifiedBoot = false ∧
        rot.verifiedBootKey ∈ policy.allowedSelfSignedKeys then pure ()
    else fail (.unacceptableBootState state)

/-- Verified Boot: only `hardwareEnforced.rootOfTrust` is trusted. -/
def checkRootOfTrust (policy : Policy) : Option RootOfTrust → Result Error Unit
  | some rot => do
    ensure (¬ (policy.requireDeviceLocked = true ∧ rot.deviceLocked = false)) .deviceUnlocked
    checkBootState policy rot
  | none => ensure (policy.requireVerifiedBoot = false) (.unacceptableBootState .failed)

/-- What is done with the leaf of a valid chain: its extension is held against
the policy and its key is attested. -/
def attestLeaf (chain : List Bytes) (challenge : Bytes) (policy : Policy) (clockMs : UInt64)
    (leaf : Certificate) : Result Error Outcome := do
  let extValue ← extractAttestationExtension leaf
  let kd ← KeyDescription.fromDer extValue
  ensure (kd.attestationChallenge = challenge) .challengeMismatch
  ensure (kd.attestationSecurityLevel.meets policy.minSecurityLevel = true)
    (.insufficientSecurityLevel kd.attestationSecurityLevel policy.minSecurityLevel)
  ensure (kd.keymintSecurityLevel.meets policy.minSecurityLevel = true)
    (.insufficientSecurityLevel kd.keymintSecurityLevel policy.minSecurityLevel)
  checkRootOfTrust policy kd.hardwareEnforced.rootOfTrust
  let spkiDer ← toDerVec leaf.tbsCertificate.subjectPublicKeyInfo
  let detailHash := (cr.sha256 (canonicalChainHashInput chain)).toList
  pure {
    source := Sources.androidKeyAttest
    attestedValue := spkiDer
    challenge := challenge
    timestampMs := clockMs
    detailHash := detailHash }

/-- Verify an Android Key Attestation chain. -/
def verifyAttestation (pinnedRootsDer chain : List Bytes) (challenge : Bytes) (policy : Policy)
    (clockMs : UInt64) : Result Error Outcome := do
  let leaf ← validateChain cr pinnedRootsDer chain clockMs
  checkRevocation cr policy.statusList chain
  attestLeaf cr chain challenge policy clockMs leaf

/-! ### What an accepted call has checked -/

/-- The certificate carries an attestation extension that decodes to `kd`. -/
def Describes (leaf : Certificate) (kd : KeyDescription) : Prop :=
  ∃ ext, leaf.tbsCertificate.findExtension oidAndroidKeyAttestation = some ext ∧
    KeyDescription.fromDer ext.extnValue = .ok kd

theorem Describes.unique {leaf : Certificate} {kd kd' : KeyDescription} (h : Describes leaf kd)
    (h' : Describes leaf kd') : kd = kd' := by
  obtain ⟨ext, hext, hkd⟩ := h
  obtain ⟨ext', hext', hkd'⟩ := h'
  obtain rfl := Option.some.inj (hext.symm.trans hext')
  exact Except.ok.inj (hkd.symm.trans hkd')

variable {cr} {pinnedRootsDer chain : List Bytes} {challenge : Bytes} {policy : Policy}
  {clockMs : UInt64} {outcome : Outcome}

variable (cr pinnedRootsDer chain challenge policy clockMs) in
/-- Every check but the one on the root of trust. -/
structure Checks (leaf : Certificate) (kd : KeyDescription) (spkiDer : Bytes) : Prop where
  chainValid : validateChain cr pinnedRootsDer chain clockMs = .ok leaf
  notRevoked : ∀ list, policy.statusList = some list → ∀ der ∈ chain, checkStatus cr list der = .ok ()
  described : Describes leaf kd
  challenge_eq : kd.attestationChallenge = challenge
  attestationLevel : kd.attestationSecurityLevel.meets policy.minSecurityLevel = true
  keymintLevel : kd.keymintSecurityLevel.meets policy.minSecurityLevel = true
  encoded : leaf.tbsCertificate.subjectPublicKeyInfo.toDer = .ok spkiDer

variable (cr chain challenge clockMs) in
/-- The outcome of an accepted call. -/
def androidOutcome (spkiDer : Bytes) : Outcome where
  source := Sources.androidKeyAttest
  attestedValue := spkiDer
  challenge := challenge
  timestampMs := clockMs
  detailHash := (cr.sha256 (canonicalChainHashInput chain)).toList

theorem checkRevocation_eq_ok {statusList : Option StatusList} {u : Unit} :
    checkRevocation cr statusList chain = .ok u ↔
      ∀ list, statusList = some list → ∀ der ∈ chain, checkStatus cr list der = .ok () := by
  cases statusList with
  | none => simp [checkRevocation, pure_eq_ok]
  | some list =>
    simp only [checkRevocation, forM_eq_ok, Option.some.injEq]
    exact ⟨fun h _ hlist => hlist ▸ h, fun h => h list rfl⟩

theorem verifyAttestation_eq_ok :
    verifyAttestation cr pinnedRootsDer chain challenge policy clockMs = .ok outcome ↔
      ∃ leaf kd spkiDer, Checks cr pinnedRootsDer chain challenge policy clockMs leaf kd spkiDer ∧
        checkRootOfTrust policy kd.hardwareEnforced.rootOfTrust = .ok () ∧
        outcome = androidOutcome cr chain challenge clockMs spkiDer := by
  simp only [verifyAttestation, attestLeaf, extractAttestationExtension, toDerVec, bind_eq_ok, okOr_eq_ok,
    ofExcept_eq_ok, ensure_eq_ok, pure_eq_ok, checkRevocation_eq_ok, exists_const]
  constructor
  · rintro ⟨leaf, hleaf, hrev, _, ⟨ext, hext, rfl⟩, kd, hkd, hchal, hatt, hkm, _, hrot, spkiDer,
      hspki, rfl⟩
    exact ⟨leaf, kd, spkiDer, ⟨hleaf, hrev, ⟨ext, hext, hkd⟩, hchal, hatt, hkm, hspki⟩, hrot, rfl⟩
  · rintro ⟨leaf, kd, spkiDer, ⟨hleaf, hrev, ⟨ext, hext, hkd⟩, hchal, hatt, hkm, hspki⟩, hrot, rfl⟩
    exact ⟨leaf, hleaf, hrev, _, ⟨ext, hext, rfl⟩, kd, hkd, hchal, hatt, hkm, _, hrot, spkiDer,
      hspki, rfl⟩

end Attestation.Android
