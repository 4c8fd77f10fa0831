import Attestation.Apple.Cbor

/-! The binary parts of an App Attest object: the `authData` record and the nonce
extension of the leaf certificate. -/

namespace Attestation.Apple

open Result

def atFlag : UInt8 := 0x40

structure AuthData where
  rpIdHash : Digest
  flags : UInt8
  signCount : UInt32
  aaguid : Vector UInt8 16
  credentialId : Bytes
  /-- Raw COSE_Key bytes. -/
  credentialPublicKey : Bytes
  deriving DecidableEq

/-- `rpIdHash(32) | flags(1) | signCount(4) | aaguid(16) | credentialIdLen(2) |
credentialId | credentialPublicKey`. -/
def AuthData.parse (bytes : Bytes) : Result Error AuthData := do
  ensure (¬ bytes.length < 37) (.authDataTooShort bytes.length)
  let rpIdHash ← slice bytes 0 32 >>= toArray 32
  let flags ← index bytes 32
  let signCount ← slice bytes 33 37 >>= toArray 4
  ensure (¬ flags &&& atFlag = 0) .noAttestedCredentialData
  ensure (¬ bytes.length < 37 + 16 + 2) (.authDataTooShort bytes.length)
  let aaguid ← slice bytes 37 53 >>= toArray 16
  let credIdLen ← slice bytes 53 55 >>= toArray 2
  let credIdEnd := 55 + ofBe credIdLen.toList
  ensure (¬ bytes.length < credIdEnd) (.authDataTooShort bytes.length)
  let credentialId ← slice bytes 55 credIdEnd
  let credentialPublicKey ← slice bytes credIdEnd bytes.length
  pure {
    rpIdHash, flags, aaguid, credentialId, credentialPublicKey
    signCount := UInt32.ofNat (ofBe signCount.toList) }

/-- Apple App Attest nonce extension. -/
def appleNonceExtension : ObjectIdentifier := ⟨[1, 2, 840, 113635, 100, 8, 2]⟩

/-- `AppleNonceExtension::from_der`: a SEQUENCE of `[1] EXPLICIT OCTET STRING`,
nothing left over at any level. -/
def nonceFromDer : Bytes → Result Der.Error Bytes :=
  Der.fromDer fun r => do
    let (body, r) ← Der.readValue .sequence r
    let (explicit, trailing) ← Der.readValue (.contextSpecific 1) body
    ensure (trailing = []) Der.Error.trailingData
    let (nonce, trailing) ← Der.octetString explicit
    ensure (trailing = []) Der.Error.trailingData
    pure (nonce, r)

def extractNonceExtension (cert : Certificate) : Result Error Digest := do
  let ext ← okOr .missingNonceExtension (cert.tbsCertificate.findExtension appleNonceExtension)
  let bytes ← mapErr (fun e => Error.der ("nonce extension: " ++ e.message))
    (nonceFromDer ext.extnValue)
  ensure (bytes.length = 32) (.der ("nonce must be 32 bytes, got " ++ toString bytes.length))
  toArray 32 bytes

end Attestation.Apple
