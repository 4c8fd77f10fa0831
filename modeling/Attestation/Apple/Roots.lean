import Attestation.Apple.Cbor

/-! Chain validation for App Attest: an x5c chain, leaf first, whose top is signed
by the pinned Apple App Attestation Root CA. The pinned root is a parameter. -/

namespace Attestation.Apple

open Result

variable (cr : Crates)

def checkValidity (cert : Certificate) (nowMs : UInt64) : Result Error Unit :=
  X509.checkValidity errors cert nowMs

def checkIsCa (cert : Certificate) : Result Error Unit := X509.checkIsCa errors cr cert

def verifyP256 (pk msg sig : Bytes) : Result Error Unit := X509.verifyP256 errors cr pk msg sig

def verifyP384 (pk msg sig : Bytes) : Result Error Unit := X509.verifyP384 errors cr pk msg sig

def verifyP384Sha256 (pk msg sig : Bytes) : Result Error Unit :=
  X509.verifyP384Sha256 errors cr pk msg sig

/-- Verify `cert.signature` over `cert.tbsCertificate` under `issuer`'s public key. -/
def verifySignature (cert issuer : Certificate) : Result Error Unit := do
  let issuerSpki := issuer.tbsCertificate.subjectPublicKeyInfo
  let issuerPkBytes ← okOr (.der "issuer public key not byte-aligned")
    issuerSpki.subjectPublicKey.asBytes
  -- the algorithm identifier of the issuer's key is not looked at, only its curve
  let curve ← okOr (.der "issuer SPKI missing named-curve parameter")
    (issuerSpki.algorithm.parameters.bind cr.decodeAsOid)
  let sigAlgOid := cert.signatureAlgorithm.oid
  let tbsBytes ← ofExcept (fun e => Error.der ("tbs encode: " ++ e))
    (cr.tbsCertificateToDer cert.tbsCertificate)
  let sigBytes ← okOr (.der "signature not byte-aligned") cert.signature.asBytes
  if curve = .secp256r1 ∧ sigAlgOid = .ecdsaSha256 then
    verifyP256 cr issuerPkBytes tbsBytes sigBytes
  else if curve = .secp384r1 ∧ sigAlgOid = .ecdsaSha384 then
    verifyP384 cr issuerPkBytes tbsBytes sigBytes
  else if curve = .secp384r1 ∧ sigAlgOid = .ecdsaSha256 then
    verifyP384Sha256 cr issuerPkBytes tbsBytes sigBytes
  else fail (.der ("unsupported curve/sig combination: curve=" ++ curve.toString ++
    " sig=" ++ sigAlgOid.toString))

def parse (what : String) (der : Bytes) : Result Error Certificate :=
  ofExcept (fun e => .der (what ++ ": " ++ e)) (cr.certificateFromDer der)

/-- Validate an x5c chain, leaf first, intermediates after. -/
def validateX5cChain (rootDer : Bytes) (x5c : List Bytes) (clockMs : UInt64) :
    Result Error Certificate := do
  ensure (¬ x5c = []) .emptyX5c
  let certs ← x5c.mapM (parse cr "cert parse")
  certs.forM fun cert => checkValidity cert clockMs
  certs.tail.forM (checkIsCa cr)
  (certs.zip certs.tail).forM fun (cert, issuer) => verifySignature cr cert issuer
  let root ← parse cr "pinned root parse" rootDer
  checkValidity root clockMs
  checkIsCa cr root
  let top ← expect certs.getLast?
  verifySignature cr top root
  expect certs.head?

variable {cr} {rootDer : Bytes} {x5c : List Bytes} {clockMs : UInt64}

theorem parse_eq_ok {what : String} {der : Bytes} {cert : Certificate} :
    parse cr what der = .ok cert ↔ cr.certificateFromDer der = .ok cert := ofExcept_eq_ok

/-- The certificate returned is the first of the chain. -/
theorem leaf_of_validateX5cChain {leaf : Certificate}
    (h : validateX5cChain cr rootDer x5c clockMs = .ok leaf) :
    ∃ der, x5c.head? = some der ∧ cr.certificateFromDer der = .ok leaf := by
  simp only [validateX5cChain, bind_eq_ok, mapM_eq_ok, parse_eq_ok, expect_eq_ok] at h
  obtain ⟨-, -, certs, hparse, -, -, -, -, -, -, -, -, -, -, -, -, -, -, -, -, hleaf⟩ := h
  cases hparse with
  | nil => cases hleaf
  | cons hder _ =>
    obtain rfl := Option.some.inj hleaf
    exact ⟨_, rfl, hder⟩

end Attestation.Apple
