import Attestation.X509.Checks

/-! The enumerations of the Android Key Attestation extension and the errors of
its verifier. -/

namespace Attestation.Android

/-- Where a key is kept, from the weakest to the strongest. -/
inductive SecurityLevel where
  | software
  | trustedEnvironment
  | strongBox
  deriving DecidableEq, Repr

namespace SecurityLevel

def fromI32 : ℤ → Option SecurityLevel
  | 0 => some .software
  | 1 => some .trustedEnvironment
  | 2 => some .strongBox
  | _ => none

def rank : SecurityLevel → ℕ
  | .software => 0
  | .trustedEnvironment => 1
  | .strongBox => 2

/-- `self` is at least as strong as `other`. -/
def meets (self other : SecurityLevel) : Bool := self.rank ≥ other.rank

def debug : SecurityLevel → String
  | .software => "Software"
  | .trustedEnvironment => "TrustedEnvironment"
  | .strongBox => "StrongBox"

theorem fromI32_bounds (n : ℤ) (level : SecurityLevel) (h : fromI32 n = some level) :
    0 ≤ n ∧ n ≤ 3 := by
  unfold fromI32 at h
  split at h <;> first | omega | cases h

theorem meets_iff {a b : SecurityLevel} : a.meets b = true ↔ b.rank ≤ a.rank := by simp [meets]

end SecurityLevel

inductive VerifiedBootState where
  /-- GREEN. -/
  | verified
  /-- YELLOW. -/
  | selfSigned
  /-- ORANGE. -/
  | unverified
  /-- RED. -/
  | failed
  deriving DecidableEq, Repr

namespace VerifiedBootState

def fromI32 : ℤ → Option VerifiedBootState
  | 0 => some .verified
  | 1 => some .selfSigned
  | 2 => some .unverified
  | 3 => some .failed
  | _ => none

def debug : VerifiedBootState → String
  | .verified => "Verified"
  | .selfSigned => "SelfSigned"
  | .unverified => "Unverified"
  | .failed => "Failed"

theorem fromI32_bounds (n : ℤ) (state : VerifiedBootState) (h : fromI32 n = some state) :
    0 ≤ n ∧ n ≤ 3 := by
  unfold fromI32 at h
  split at h <;> first | omega | cases h

theorem eq_zero_of_verified {n : ℤ} (h : fromI32 n = some .verified) : n = 0 := by
  unfold fromI32 at h
  split at h <;> first | rfl | cases h

end VerifiedBootState

inductive Error where
  | der (message : String)
  | emptyChain
  | untrustedChain
  | missingAttestationExtension
  | challengeMismatch
  | insufficientSecurityLevel (got required : SecurityLevel)
  | badAttestedKey (message : String)
  | revoked (serial status reason : String)
  | unacceptableBootState (state : VerifiedBootState)
  | deviceUnlocked
  deriving DecidableEq, Repr

def Error.message : Error → String
  | .der m => "DER decoding error: " ++ m
  | .emptyChain => "certificate chain is empty"
  | .untrustedChain =>
    "certificate chain does not anchor at any pinned Google attestation root"
  | .missingAttestationExtension =>
    "attestation extension (OID 1.3.6.1.4.1.11129.2.1.17) not present on leaf cert"
  | .challengeMismatch => "attestation challenge does not match expected value"
  | .insufficientSecurityLevel got required =>
    "attestation security level " ++ got.debug ++ " does not meet required minimum " ++
      required.debug
  | .badAttestedKey m => "attested public key encoding is malformed: " ++ m
  | .revoked serial status reason =>
    "certificate revoked or suspended: serial " ++ serial ++ ", status " ++ status ++
      ", reason " ++ reason
  | .unacceptableBootState state =>
    "verifiedBootState " ++ state.debug ++ " is not acceptable for this verifier"
  | .deviceUnlocked => "device is unlocked (root-of-trust deviceLocked = false)"

/-- The errors of the shared certificate checks. -/
def errors : X509.Errors Error := ⟨.der, .untrustedChain⟩

end Attestation.Android
