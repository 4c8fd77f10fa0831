import Attestation.Apple.NonceBinding

/-! The key an accepted attestation identifies. It is written in four places: the
leaf certificate, the COSE key of the authData, the credentialId in front of it and
the caller's key id. Verification compares the COSE key with the key id; that the
leaf certifies this key and that the credentialId names it is not looked at. -/

namespace Attestation.Apple

open Result

/-- The subjectPublicKey bytes of a certificate. -/
def certifiedKey (cert : Certificate) : Option Bytes :=
  cert.tbsCertificate.subjectPublicKeyInfo.subjectPublicKey.asBytes

namespace Call

/-- The x5c leaf certificate. -/
def leaf (cr : Crates) (c : Call) : Result Error Certificate := do
  let stmt ← decodeAttestationObject cr c.attestationObject
  let der ← okOr .emptyX5c stmt.x5c.head?
  parse cr "cert parse" der

def parsedAuthData (cr : Crates) (c : Call) : Result Error AuthData := do
  let stmt ← decodeAttestationObject cr c.attestationObject
  AuthData.parse stmt.authData

end Call

variable (cr : Crates) (rootDer : Bytes)

/-- An accepted call returns the key its leaf certifies, and its key id and its
credentialId are the hash of this key. -/
def KeyIdentified (c : Call) : Prop :=
  ∀ out, c.verify cr rootDer = .ok out → ∃ leaf auth,
    c.leaf cr = .ok leaf ∧ c.parsedAuthData cr = .ok auth ∧
      certifiedKey leaf = some out.attestedValue ∧
      (cr.sha256 out.attestedValue).toList = c.keyId ∧ auth.credentialId = c.keyId

/-- An object that passes the checks made of it carries the same key in its leaf as in
its authData, and the key id in its credentialId. -/
def KeysAgree (c : Call) : Prop :=
  ∀ stmt auth leaf pk,
    Checks cr rootDer c.attestationObject c.keyId c.challenge c.appId c.production c.clockMs
      stmt auth leaf pk →
    certifiedKey leaf = some pk.toList ∧ auth.credentialId = c.keyId

variable {cr} {rootDer} {c : Call} {stmt : AttestationStatement} {auth : AuthData}
  {leaf : Certificate} {pk : P256Pk}

theorem Call.leaf_of_checks
    (h : Checks cr rootDer c.attestationObject c.keyId c.challenge c.appId c.production c.clockMs
      stmt auth leaf pk) : c.leaf cr = .ok leaf := by
  obtain ⟨der, hder, hleaf⟩ := leaf_of_validateX5cChain h.chainValid
  simp only [Call.leaf, bind_eq_ok, okOr_eq_ok, parse_eq_ok]
  exact ⟨stmt, h.decoded, der, hder, hleaf⟩

theorem Call.parsedAuthData_of_checks
    (h : Checks cr rootDer c.attestationObject c.keyId c.challenge c.appId c.production c.clockMs
      stmt auth leaf pk) : c.parsedAuthData cr = .ok auth := by
  simp only [Call.parsedAuthData, bind_eq_ok]
  exact ⟨stmt, h.decoded, h.parsed⟩

/-- The key of a call is identified exactly when the two comparisons that are not made
would have passed. -/
theorem keyIdentified_iff (cr : Crates) (rootDer : Bytes) (c : Call) :
    KeyIdentified cr rootDer c ↔ KeysAgree cr rootDer c := by
  constructor
  · intro h stmt auth leaf pk hchecks
    obtain ⟨leaf', auth', hleaf, hauth, hkey, -, hcred⟩ :=
      h _ (verifyAppAttest_eq_ok.mpr ⟨stmt, auth, leaf, pk, hchecks, rfl⟩)
    obtain rfl := Except.ok.inj ((Call.leaf_of_checks hchecks).symm.trans hleaf)
    obtain rfl := Except.ok.inj ((Call.parsedAuthData_of_checks hchecks).symm.trans hauth)
    exact ⟨hkey, hcred⟩
  · intro h out hout
    obtain ⟨stmt, auth, leaf, pk, hchecks, rfl⟩ := verifyAppAttest_eq_ok.mp hout
    obtain ⟨hkey, hcred⟩ := h stmt auth leaf pk hchecks
    exact ⟨leaf, auth, Call.leaf_of_checks hchecks, Call.parsedAuthData_of_checks hchecks, hkey,
      hchecks.keyId_eq, hcred⟩

/-! ### A leaf for another key -/

namespace KeyIdentitySample

/-- The point opposite the generator. -/
def otherKey : P256.Point where
  x := P256.generator.x
  y := 0xb01cbd1c01e58065711814b583f061e9d431cca994cea1313449bf97c840ae0a
  x_lt := by decide
  y_lt := by decide
  onCurve := by decide

/-- The sample's objects under a leaf that certifies the other key. -/
def crates : Crates :=
  .ofTables [Crates.issue [0x10] [1] otherKey.uncompressed [0x0A] [sampleNonce [7]], sampleRoot]
    sampleItems

def certified : Result Error (Option Bytes) :=
  ((sampleCall [0xA3] 0).leaf crates).map certifiedKey

end KeyIdentitySample

open KeyIdentitySample in
/-- The returned key is not the one the leaf certifies. -/
theorem otherKey_accepted : ¬ KeyIdentified crates [0x1F] (sampleCall [0xA3] 0) := by
  intro h
  obtain ⟨out, hout⟩ := exists_eq_ok (x := (sampleCall [0xA3] 0).verify crates [0x1F])
    (by decide +kernel)
  obtain ⟨leaf, auth, hleaf, -, hkey, -, -⟩ := h out hout
  have hvalue : ((sampleCall [0xA3] 0).verify crates [0x1F]).map Outcome.attestedValue =
      .ok samplePk := by
    decide +kernel
  have hcertified : certified = .ok (some otherKey.uncompressed) := by decide +kernel
  rw [hout] at hvalue
  rw [certified, hleaf] at hcertified
  have heq : some samplePk = some otherKey.uncompressed := by
    rw [← Except.ok.inj hvalue, ← hkey]
    exact Except.ok.inj hcertified
  exact absurd heq (by decide +kernel)

end Attestation.Apple
