import Attestation.Apple.AuthData
import Attestation.Apple.Roots
import Attestation.Core.Outcome

/-! The Apple verifiers: App Attest attestation objects, and the assertions an
attested key signs afterwards. -/

namespace Attestation.Apple

open Result

/-- `"appattest"` and seven null bytes. -/
def aaguidProduction : Vector UInt8 16 :=
  #v[0x61, 0x70, 0x70, 0x61, 0x74, 0x74, 0x65, 0x73, 0x74, 0, 0, 0, 0, 0, 0, 0]

/-- `"appattestdevelop"`. -/
def aaguidDevelopment : Vector UInt8 16 :=
  #v[0x61, 0x70, 0x70, 0x61, 0x74, 0x74, 0x65, 0x73, 0x74, 0x64, 0x65, 0x76, 0x65, 0x6C, 0x6F, 0x70]

variable (cr : Crates)

/-- The nonce a leaf must carry for this authData and this challenge. -/
def expectedNonce (authData challenge : Bytes) : Digest :=
  cr.sha256 (authData ++ (cr.sha256 challenge).toList)

/-- Verify an Apple App Attest attestation object. -/
def verifyAppAttest (rootDer attestationObject keyId challenge : Bytes) (appId : String)
    (production : Bool) (clockMs : UInt64) : Result Error Outcome := do
  let stmt ← decodeAttestationObject cr attestationObject
  ensure (stmt.fmt = "apple-appattest") (.wrongFormat stmt.fmt)
  let auth ← AuthData.parse stmt.authData
  let leaf ← validateX5cChain cr rootDer stmt.x5c clockMs
  let certNonce ← extractNonceExtension leaf
  ensure (certNonce = expectedNonce cr stmt.authData challenge) .nonceMismatch
  let pk ← extractP256Pk cr auth.credentialPublicKey
  let computedKeyId := cr.sha256 (keyIdInput pk)
  ensure (computedKeyId.toList = keyId) .keyIdMismatch
  let expectedAaguid := if production then aaguidProduction else aaguidDevelopment
  ensure (auth.aaguid = expectedAaguid) (.aaguidMismatch
    (if production then "appattest" else "appattestdevelop") auth.aaguid.toList)
  let expectedRp := cr.sha256 (asBytes appId)
  ensure (auth.rpIdHash = expectedRp) .rpIdHashMismatch
  ensure (auth.signCount = 0) (.signCountNotZero auth.signCount)
  let detailHash := (cr.sha256 attestationObject).toList
  pure {
    source := Sources.appleAppAttest
    attestedValue := pk.toList
    challenge := challenge
    timestampMs := clockMs
    detailHash := detailHash }

/-- Verify an Apple App Attest assertion against a previously attested key. -/
def verifyAssertion (assertionObject clientData attestedKey : Bytes) (appId : String)
    (clockMs : UInt64) : Result Error Outcome := do
  let (signature, authData) ← decodeAssertion cr assertionObject
  ensure (¬ authData.length < 37)
    (.cbor ("authenticatorData too short: " ++ toString authData.length ++ " bytes"))
  let rpIdHash ← slice authData 0 32
  let expectedRp := cr.sha256 (asBytes appId)
  ensure (rpIdHash = expectedRp.toList) .rpIdHashMismatch
  let clientDataHash := cr.sha256 clientData
  let signedDigest := cr.sha256 (authData ++ clientDataHash.toList)
  let key ← ofExcept (fun e => Error.der ("attested key parse: " ++ e))
    (cr.p256.fromSec1Bytes attestedKey)
  let sig ← ofExcept (fun e => Error.der ("assertion signature parse: " ++ e))
    (cr.p256.signatureFromDer signature)
  ensure (cr.p256.verifyPrehash key signedDigest sig = true) .untrustedChain
  let detailHash := (cr.sha256 assertionObject).toList
  pure {
    source := Sources.appleAppAttestAssertion
    attestedValue := attestedKey
    challenge := clientData
    timestampMs := clockMs
    detailHash := detailHash }

/-! ### What an accepted attestation has checked -/

variable {cr} {rootDer attestationObject keyId challenge : Bytes} {appId : String}
  {production : Bool} {clockMs : UInt64} {outcome : Outcome}

variable (cr rootDer attestationObject keyId challenge appId production clockMs) in
structure Checks (stmt : AttestationStatement) (auth : AuthData) (leaf : Certificate)
    (pk : P256Pk) : Prop where
  decoded : decodeAttestationObject cr attestationObject = .ok stmt
  format : stmt.fmt = "apple-appattest"
  parsed : AuthData.parse stmt.authData = .ok auth
  chainValid : validateX5cChain cr rootDer stmt.x5c clockMs = .ok leaf
  nonce : extractNonceExtension leaf = .ok (expectedNonce cr stmt.authData challenge)
  key : extractP256Pk cr auth.credentialPublicKey = .ok pk
  keyId_eq : (cr.sha256 (keyIdInput pk)).toList = keyId
  aaguid_eq : auth.aaguid = if production then aaguidProduction else aaguidDevelopment
  rpIdHash_eq : auth.rpIdHash = cr.sha256 (asBytes appId)
  signCount_eq : auth.signCount = 0

variable (cr attestationObject challenge clockMs) in
/-- The outcome of an accepted attestation. -/
def appleOutcome (pk : P256Pk) : Outcome where
  source := Sources.appleAppAttest
  attestedValue := pk.toList
  challenge := challenge
  timestampMs := clockMs
  detailHash := (cr.sha256 attestationObject).toList

theorem verifyAppAttest_eq_ok :
    verifyAppAttest cr rootDer attestationObject keyId challenge appId production clockMs =
        .ok outcome ↔
      ∃ stmt auth leaf pk, Checks cr rootDer attestationObject keyId challenge appId production
          clockMs stmt auth leaf pk ∧
        outcome = appleOutcome cr attestationObject challenge clockMs pk := by
  simp only [verifyAppAttest, bind_eq_ok, ensure_eq_ok, pure_eq_ok, exists_const]
  constructor
  · rintro ⟨stmt, hdec, hfmt, auth, hauth, leaf, hleaf, _, hnonce, rfl, pk, hpk, hkey, haaguid,
      hrp, hcount, rfl⟩
    exact ⟨stmt, auth, leaf, pk,
      ⟨hdec, hfmt, hauth, hleaf, hnonce, hpk, hkey, haaguid, hrp, hcount⟩, rfl⟩
  · rintro ⟨stmt, auth, leaf, pk,
      ⟨hdec, hfmt, hauth, hleaf, hnonce, hpk, hkey, haaguid, hrp, hcount⟩, rfl⟩
    exact ⟨stmt, hdec, hfmt, auth, hauth, leaf, hleaf, _, hnonce, rfl, pk, hpk, hkey, haaguid,
      hrp, hcount, rfl⟩

end Attestation.Apple
