import Attestation.Apple.Verify
import Attestation.Base.P256

/-! What the nonce extension of an App Attest leaf certificate commits to. The
nonce hashes the authData followed by the hash of the challenge. The hash has a
fixed length, so the concatenation has one reading, and everything else an
attestation is checked for is read from the authData. -/

namespace Attestation.Apple

open Result

variable {cr : Crates} {rootDer : Bytes}

/-- The arguments of a call of the attestation verifier. -/
structure Call where
  attestationObject : Bytes
  keyId : Bytes
  challenge : Bytes
  appId : String
  production : Bool
  clockMs : UInt64

namespace Call

def verify (cr : Crates) (rootDer : Bytes) (c : Call) : Result Error Outcome :=
  verifyAppAttest cr rootDer c.attestationObject c.keyId c.challenge c.appId c.production c.clockMs

def authData (cr : Crates) (c : Call) : Result Error Bytes := do
  let stmt ← decodeAttestationObject cr c.attestationObject
  pure stmt.authData

/-- The nonce extension of the x5c leaf certificate. -/
def leafNonce (cr : Crates) (c : Call) : Result Error Digest := do
  let stmt ← decodeAttestationObject cr c.attestationObject
  let der ← okOr .emptyX5c stmt.x5c.head?
  let leaf ← parse cr "cert parse" der
  extractNonceExtension leaf

/-- The message behind the nonce, the challenge and the app id: what a call hashes
to compare with the object it was given. -/
def hashed (cr : Crates) (c : Call) : List Bytes :=
  match c.authData cr with
  | .ok authData => [authData ++ (cr.sha256 c.challenge).toList, c.challenge, asBytes c.appId]
  | .error _ => []

/-- An accepted call has read its leaf's nonce off its authData and challenge. -/
theorem leafNonce_of_checks {c : Call} {stmt : AttestationStatement} {auth : AuthData}
    {leaf : Certificate} {pk : P256Pk}
    (h : Checks cr rootDer c.attestationObject c.keyId c.challenge c.appId c.production c.clockMs
      stmt auth leaf pk) :
    c.leafNonce cr = .ok (expectedNonce cr stmt.authData c.challenge) := by
  obtain ⟨der, hder, hleaf⟩ := leaf_of_validateX5cChain h.chainValid
  simp only [leafNonce, bind_eq_ok, okOr_eq_ok, parse_eq_ok]
  exact ⟨stmt, h.decoded, der, hder, leaf, hleaf, h.nonce⟩

theorem authData_of_checks {c : Call} {stmt : AttestationStatement} {auth : AuthData}
    {leaf : Certificate} {pk : P256Pk}
    (h : Checks cr rootDer c.attestationObject c.keyId c.challenge c.appId c.production c.clockMs
      stmt auth leaf pk) :
    c.authData cr = .ok stmt.authData := by
  rw [authData, h.decoded]
  rfl

end Call

theorem aaguid_injective {p q : Bool}
    (h : (if p then aaguidProduction else aaguidDevelopment) =
      if q then aaguidProduction else aaguidDevelopment) : p = q := by
  revert p q
  decide

/-- Two accepted calls whose leaf certificates carry the same nonce have the same
authData, challenge, key id, app and environment, and attest the same key. -/
theorem nonce_determines_call {c₁ c₂ : Call} {out₁ out₂ : Outcome}
    (h₁ : c₁.verify cr rootDer = .ok out₁) (h₂ : c₂.verify cr rootDer = .ok out₂)
    (hnonce : c₁.leafNonce cr = c₂.leafNonce cr)
    (hhash : CollisionFreeOn cr.sha256 (c₁.hashed cr ++ c₂.hashed cr)) :
    c₁.authData cr = c₂.authData cr ∧ c₁.challenge = c₂.challenge ∧ c₁.keyId = c₂.keyId ∧
      c₁.appId = c₂.appId ∧ c₁.production = c₂.production ∧
      out₁.attestedValue = out₂.attestedValue := by
  obtain ⟨stmt₁, auth₁, leaf₁, pk₁, hc₁, rfl⟩ := verifyAppAttest_eq_ok.mp h₁
  obtain ⟨stmt₂, auth₂, leaf₂, pk₂, hc₂, rfl⟩ := verifyAppAttest_eq_ok.mp h₂
  have ha₁ := Call.authData_of_checks hc₁
  have ha₂ := Call.authData_of_checks hc₂
  rw [Call.leafNonce_of_checks hc₁, Call.leafNonce_of_checks hc₂, Except.ok.injEq] at hnonce
  simp only [Call.hashed, ha₁, ha₂] at hhash
  have hmessage := hhash _ (by simp) _ (by simp) hnonce
  -- the hash of the challenge is the last 32 bytes of either message
  obtain ⟨hauthData, hdigest⟩ := List.append_inj' hmessage (by simp)
  have hchallenge := hhash _ (by simp) _ (by simp) (Vector.toList_inj.mp hdigest)
  have hauth : auth₁ = auth₂ := by
    have hparsed := hc₁.parsed
    rw [hauthData, hc₂.parsed, Except.ok.injEq] at hparsed
    exact hparsed.symm
  subst hauth
  have hpk : pk₁ = pk₂ := Except.ok.inj (hc₁.key.symm.trans hc₂.key)
  subst hpk
  have happ := hhash _ (by simp) _ (by simp) (hc₁.rpIdHash_eq.symm.trans hc₂.rpIdHash_eq)
  exact ⟨by rw [ha₁, ha₂, hauthData], hchallenge, hc₁.keyId_eq.symm.trans hc₂.keyId_eq,
    asBytes_injective happ, aaguid_injective (hc₁.aaguid_eq.symm.trans hc₂.aaguid_eq), rfl⟩

/-! ### One leaf in two objects -/

section Sample

def samplePk : Bytes := P256.generator.uncompressed

def sampleAuthData : Bytes :=
  (sha256 (asBytes "T.app")).toList ++ [0x40, 0, 0, 0, 0] ++ aaguidDevelopment.toList ++
    [0, 1, 0x01] ++ [0xA5]

/-- The nonce extension for a challenge, under the sample's authData. -/
def sampleNonce (challenge : Bytes) : Extension :=
  ⟨appleNonceExtension, Der.tlv .sequence (Der.tlv (.contextSpecific 1) (Der.tlv .octetString
    (sha256 (sampleAuthData ++ (sha256 challenge).toList)).toList))⟩

def sampleLeaf : Certificate := Crates.issue [0x10] [1] samplePk [0x0A] [sampleNonce [7]]

def sampleRoot : Certificate := Crates.issue [0x1F] [2] [0x0A] [0x0A] [Crates.caExtension]

def sampleCose : List (Cbor.Value × Cbor.Value) :=
  [(.integer 1, .integer 2), (.integer 3, .integer (-7)), (.integer (-1), .integer 1),
    (.integer (-2), .bytes (beBytes 32 P256.generator.x)),
    (.integer (-3), .bytes (beBytes 32 P256.generator.y))]

/-- The COSE key of the sample, and its attestation object without and with a receipt. -/
def sampleItems : List (Bytes × Cbor.Value) :=
  let x5c : Cbor.Value × Cbor.Value := (.text "x5c", .array [.bytes [0x10]])
  [([0xA5], .map sampleCose),
    ([0xA3], .map [(.text "fmt", .text "apple-appattest"),
      (.text "authData", .bytes sampleAuthData), (.text "attStmt", .map [x5c])]),
    ([0xA4], .map [(.text "attStmt", .map [(.text "receipt", .bytes [1]), x5c]),
      (.text "authData", .bytes sampleAuthData), (.text "fmt", .text "apple-appattest")])]

def sampleCrates : Crates := .ofTables [sampleLeaf, sampleRoot] sampleItems

def sampleCall (attestationObject : Bytes) (clockMs : UInt64) : Call where
  attestationObject := attestationObject
  keyId := (sha256 samplePk).toList
  challenge := [7]
  appId := "T.app"
  production := false
  clockMs := clockMs

theorem nonce_determines_call_sample :
    ∃ out₁ out₂, (sampleCall [0xA3] 0).verify sampleCrates [0x1F] = .ok out₁ ∧
      (sampleCall [0xA4] 5000).verify sampleCrates [0x1F] = .ok out₂ ∧
      out₁.attestedValue = out₂.attestedValue := by
  obtain ⟨out₁, h₁⟩ := exists_eq_ok (x := (sampleCall [0xA3] 0).verify sampleCrates [0x1F])
    (by decide +kernel)
  obtain ⟨out₂, h₂⟩ := exists_eq_ok (x := (sampleCall [0xA4] 5000).verify sampleCrates [0x1F])
    (by decide +kernel)
  have hcall := nonce_determines_call h₁ h₂ (by decide +kernel) (by decide +kernel)
  exact ⟨out₁, out₂, h₁, h₂, hcall.2.2.2.2.2⟩

end Sample

end Attestation.Apple
