import Attestation.Crates

/-! The certificate checks the Apple and the Android chain validators have in
common: validity windows, the CA flag and ECDSA signatures. The two crates write
them out with error types of their own, so the checks here take the two errors
they raise as a parameter. -/

namespace Attestation.X509

open Result

/-- The errors of a verifier that the shared checks raise. -/
structure Errors (ε : Type) where
  der : String → ε
  untrustedChain : ε

/-- Milliseconds since the Unix epoch. -/
def systemTimeFromValidity : Time → ℕ
  | .utcTime secs => 1000 * secs
  | .generalTime secs => 1000 * secs

/-- The certificate's validity window includes the time. -/
def ValidAt (cert : Certificate) (nowMs : UInt64) : Prop :=
  systemTimeFromValidity cert.tbsCertificate.validity.notBefore ≤ nowMs.toNat ∧
    nowMs.toNat ≤ systemTimeFromValidity cert.tbsCertificate.validity.notAfter

instance (cert : Certificate) (nowMs : UInt64) : Decidable (ValidAt cert nowMs) :=
  inferInstanceAs (Decidable (_ ∧ _))

/-- The certificate carries a BasicConstraints extension with CA = TRUE. -/
def IsCa (cr : Crates) (cert : Certificate) : Prop :=
  ∃ ext, cert.tbsCertificate.findExtension .basicConstraints = some ext ∧
    cr.basicConstraintsFromDer ext.extnValue = .ok ⟨true⟩

variable {ε : Type} (errors : Errors ε) (cr : Crates)

def checkValidity (cert : Certificate) (nowMs : UInt64) : Result ε Unit := do
  let nb := systemTimeFromValidity cert.tbsCertificate.validity.notBefore
  let na := systemTimeFromValidity cert.tbsCertificate.validity.notAfter
  ensure (¬ nowMs.toNat < nb) (errors.der "cert not yet valid (notBefore in future)")
  ensure (¬ nowMs.toNat > na) (errors.der "cert expired (notAfter in past)")

def checkIsCa (cert : Certificate) : Result ε Unit := do
  let ext ← okOr (errors.der "missing BasicConstraints on CA cert")
    (cert.tbsCertificate.findExtension .basicConstraints)
  let bc ← ofExcept (fun e => errors.der ("BasicConstraints parse: " ++ e))
    (cr.basicConstraintsFromDer ext.extnValue)
  ensure (bc.ca = true) (errors.der "BasicConstraints CA flag is false")

/-- A key and a DER signature of a curve, then the check of one under the other. -/
def verifyEcdsa (curve : Ecdsa) (name : String)
    (check : curve.VerifyingKey → curve.DerSignature → Bool) (pk sig : Bytes) :
    Result ε Unit := do
  let key ← ofExcept (fun e => errors.der (name ++ " verifying key: " ++ e))
    (curve.fromSec1Bytes pk)
  let signature ← ofExcept (fun e => errors.der (name ++ " sig decode: " ++ e))
    (curve.signatureFromDer sig)
  ensure (check key signature = true) errors.untrustedChain

def verifyP256 (pk msg sig : Bytes) : Result ε Unit :=
  verifyEcdsa errors cr.p256 "p256" (fun key sig => cr.p256.verify key msg sig) pk sig

def verifyP384 (pk msg sig : Bytes) : Result ε Unit :=
  verifyEcdsa errors cr.p384 "p384" (fun key sig => cr.p384.verify key msg sig) pk sig

/-- A P-384 key over a SHA-256 prehash. -/
def verifyP384Sha256 (pk msg sig : Bytes) : Result ε Unit :=
  verifyEcdsa errors cr.p384 "p384"
    (fun key sig => cr.p384.verifyPrehash key (cr.sha256 msg) sig) pk sig

variable {errors cr}

theorem checkValidity_eq_ok {cert : Certificate} {nowMs : UInt64} {u : Unit} :
    checkValidity errors cert nowMs = .ok u ↔ ValidAt cert nowMs := by
  simp only [checkValidity, bind_eq_ok, ensure_eq_ok, not_lt, exists_const, ValidAt]

theorem checkIsCa_eq_ok {cert : Certificate} {u : Unit} :
    checkIsCa errors cr cert = .ok u ↔ IsCa cr cert := by
  simp only [checkIsCa, bind_eq_ok, okOr_eq_ok, ofExcept_eq_ok, ensure_eq_ok, IsCa]
  constructor
  · rintro ⟨ext, hext, ⟨ca⟩, hbc, rfl⟩
    exact ⟨ext, hext, hbc⟩
  · rintro ⟨ext, hext, hbc⟩
    exact ⟨ext, hext, _, hbc, rfl⟩

theorem checkValidity_returns (cert : Certificate) (nowMs : UInt64) :
    Returns (checkValidity errors cert nowMs) :=
  .bind (.ensure _ _) fun _ _ => .ensure _ _

theorem checkIsCa_returns (cert : Certificate) : Returns (checkIsCa errors cr cert) :=
  .bind (.okOr _ _) fun _ _ => .bind (.ofExcept _ _) fun _ _ => .ensure _ _

theorem verifyEcdsa_returns (curve : Ecdsa) (name : String)
    (check : curve.VerifyingKey → curve.DerSignature → Bool) (pk sig : Bytes) :
    Returns (verifyEcdsa errors curve name check pk sig) :=
  .bind (.ofExcept _ _) fun _ _ => .bind (.ofExcept _ _) fun _ _ => .ensure _ _

end Attestation.X509
