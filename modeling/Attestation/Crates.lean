import Attestation.Base.Der
import Attestation.Base.Sha256

/-! The interface of the third-party crates the verifiers are built on:
`x509-cert`, `spki`, `const-oid`, `p256`, `p384`, `rsa`, `sha2` and `ciborium`.
What the verifiers read of a parsed certificate or CBOR item is data here; how
it is parsed, encoded or verified is a parameter, and errors of these crates are
the texts they display. -/

namespace Attestation

/-! ### Certificates -/

/-- `const_oid::ObjectIdentifier`. -/
structure ObjectIdentifier where
  arcs : List ℕ
  deriving DecidableEq, Repr

namespace ObjectIdentifier

/-- The dotted form `Display` prints. -/
protected def toString (oid : ObjectIdentifier) : String :=
  ".".intercalate (oid.arcs.map toString)

/-- secp256r1 / NIST P-256 named-curve OID. -/
def secp256r1 : ObjectIdentifier := ⟨[1, 2, 840, 10045, 3, 1, 7]⟩
/-- secp384r1 / NIST P-384 named-curve OID. -/
def secp384r1 : ObjectIdentifier := ⟨[1, 3, 132, 0, 34]⟩
def ecPublicKey : ObjectIdentifier := ⟨[1, 2, 840, 10045, 2, 1]⟩
def rsaEncryption : ObjectIdentifier := ⟨[1, 2, 840, 113549, 1, 1, 1]⟩
/-- ecdsa-with-SHA256. -/
def ecdsaSha256 : ObjectIdentifier := ⟨[1, 2, 840, 10045, 4, 3, 2]⟩
/-- ecdsa-with-SHA384. -/
def ecdsaSha384 : ObjectIdentifier := ⟨[1, 2, 840, 10045, 4, 3, 3]⟩
def sha256WithRsa : ObjectIdentifier := ⟨[1, 2, 840, 113549, 1, 1, 11]⟩
/-- `BasicConstraints::OID`. -/
def basicConstraints : ObjectIdentifier := ⟨[2, 5, 29, 19]⟩

end ObjectIdentifier

/-- `der::asn1::Any`: a tag and the contents under it. -/
structure Any where
  tag : Der.Tag
  value : Bytes
  deriving DecidableEq, Repr

namespace Any

/-- The ANY that holds an object identifier. -/
def ofOid (oid : ObjectIdentifier) : Any := ⟨.objectIdentifier, Der.oidBody oid.arcs⟩

def toDer (a : Any) : Bytes := Der.tlv a.tag a.value

end Any

/-- `der::asn1::BitString`. -/
structure BitString where
  unusedBits : UInt8
  rawBytes : Bytes
  deriving DecidableEq, Repr

namespace BitString

/-- `BitString::as_bytes`: nothing unless the string is whole octets. -/
def asBytes (s : BitString) : Option Bytes := if s.unusedBits = 0 then some s.rawBytes else none

def toDer (s : BitString) : Bytes := Der.tlv .bitString (s.unusedBits :: s.rawBytes)

end BitString

structure AlgorithmIdentifier where
  oid : ObjectIdentifier
  parameters : Option Any
  deriving DecidableEq, Repr

def AlgorithmIdentifier.toDer (a : AlgorithmIdentifier) : Bytes :=
  Der.tlv .sequence ((Any.ofOid a.oid).toDer ++ (a.parameters.map Any.toDer).getD [])

structure SubjectPublicKeyInfo where
  algorithm : AlgorithmIdentifier
  subjectPublicKey : BitString
  deriving DecidableEq, Repr

/-- `Encode::to_der`, which refuses what is longer than a DER length can say. -/
def SubjectPublicKeyInfo.toDer (spki : SubjectPublicKeyInfo) : Except Der.Error Bytes :=
  let der := Der.tlv .sequence (spki.algorithm.toDer ++ spki.subjectPublicKey.toDer)
  if der.length ≤ Der.maxLength then .ok der else .error .overflow

/-- `x509_cert::time::Time`, in seconds since the Unix epoch. -/
inductive Time where
  | utcTime (secs : ℕ)
  | generalTime (secs : ℕ)
  deriving DecidableEq, Repr

structure Validity where
  notBefore : Time
  notAfter : Time
  deriving DecidableEq, Repr

structure Extension where
  extnId : ObjectIdentifier
  extnValue : Bytes
  deriving DecidableEq, Repr

/-- The fields of a TBSCertificate the verifiers read; `rest` stands for the
others, which only its encoding sees. -/
structure TbsCertificate where
  serialNumber : Bytes
  validity : Validity
  subjectPublicKeyInfo : SubjectPublicKeyInfo
  extensions : Option (List Extension)
  rest : Bytes
  deriving DecidableEq, Repr

structure Certificate where
  tbsCertificate : TbsCertificate
  signatureAlgorithm : AlgorithmIdentifier
  signature : BitString
  deriving DecidableEq, Repr

/-- The first extension with the given identifier, as `exts.iter().find(..)`. -/
def TbsCertificate.findExtension (tbs : TbsCertificate) (oid : ObjectIdentifier) :
    Option Extension :=
  tbs.extensions.bind fun exts => exts.find? fun e => e.extnId = oid

structure BasicConstraints where
  ca : Bool
  deriving DecidableEq, Repr

/-! ### CBOR -/

namespace Cbor

/-- `ciborium::value::Value`; map entries stand in wire order. -/
inductive Value where
  | integer (i : ℤ)
  | bytes (bs : Bytes)
  | float (bits : UInt64)
  | text (s : String)
  | bool (b : Bool)
  | null
  | tag (t : UInt64) (v : Value)
  | array (vs : List Value)
  | map (entries : List (Value × Value))

namespace Value

def asInteger : Value → Option ℤ
  | .integer i => some i
  | _ => none

def asBytes : Value → Option Bytes
  | .bytes bs => some bs
  | _ => none

def asText : Value → Option String
  | .text s => some s
  | _ => none

def asArray : Value → Option (List Value)
  | .array vs => some vs
  | _ => none

def asMap : Value → Option (List (Value × Value))
  | .map entries => some entries
  | _ => none

end Value

end Cbor

/-! ### The crates -/

/-- A curve's `ecdsa` module: keys in SEC1 form, signatures in DER. -/
structure Ecdsa where
  VerifyingKey : Type
  DerSignature : Type
  fromSec1Bytes : Bytes → Except String VerifyingKey
  signatureFromDer : Bytes → Except String DerSignature
  /-- Over the message, hashed with the curve's own digest. -/
  verify : VerifyingKey → Bytes → DerSignature → Bool
  verifyPrehash : VerifyingKey → Digest → DerSignature → Bool

/-- `rsa::pkcs1v15` over SHA-256. -/
structure RsaPkcs1v15Sha256 where
  PublicKey : Type
  Signature : Type
  fromPkcs1Der : Bytes → Except String PublicKey
  signatureFromBytes : Bytes → Except String Signature
  verify : PublicKey → Bytes → Signature → Bool

structure Crates where
  certificateFromDer : Bytes → Except String Certificate
  certificateToDer : Certificate → Except String Bytes
  tbsCertificateToDer : TbsCertificate → Except String Bytes
  basicConstraintsFromDer : Bytes → Except String BasicConstraints
  /-- `any.decode_as::<ObjectIdentifier>().ok()`. -/
  decodeAsOid : Any → Option ObjectIdentifier
  p256 : Ecdsa
  p384 : Ecdsa
  rsa : RsaPkcs1v15Sha256
  sha256 : Bytes → Digest
  /-- `ciborium::from_reader` on a cursor. -/
  cborFromReader : Bytes → Except String Cbor.Value
  /-- `str::to_lowercase`. -/
  toLowercase : String → String

/-! ### A table of certificates -/

namespace Crates

/-- A signature scheme whose signature of a message is the key and the message. -/
def transparentEcdsa : Ecdsa where
  VerifyingKey := Bytes
  DerSignature := Bytes
  fromSec1Bytes pk := .ok pk
  signatureFromDer sig := .ok sig
  verify key msg sig := sig = key ++ msg
  verifyPrehash key digest sig := sig = key ++ digest.toList

def transparentRsa : RsaPkcs1v15Sha256 where
  PublicKey := Bytes
  Signature := Bytes
  fromPkcs1Der pk := .ok pk
  signatureFromBytes sig := .ok sig
  verify key msg sig := sig = key ++ msg

/-- Crates that know finitely many certificates and CBOR items, with SHA-256 and
transparent signatures: a certificate is known by the encoding in `rest`. -/
def ofTables (certificates : List Certificate) (items : List (Bytes × Cbor.Value)) : Crates where
  certificateFromDer der :=
    match certificates.find? fun c => c.tbsCertificate.rest = der with
    | some c => .ok c
    | none => .error "unknown certificate"
  certificateToDer c := .ok c.tbsCertificate.rest
  tbsCertificateToDer tbs := .ok tbs.rest
  basicConstraintsFromDer value :=
    if value = [0x30, 0x03, 0x01, 0x01, 0xFF] then .ok ⟨true⟩
    else if value = [0x30, 0x00] then .ok ⟨false⟩
    else .error "unknown constraints"
  decodeAsOid a :=
    [ObjectIdentifier.secp256r1, .secp384r1].find? fun oid => Any.ofOid oid = a
  p256 := transparentEcdsa
  p384 := transparentEcdsa
  rsa := transparentRsa
  sha256 := Attestation.sha256
  cborFromReader bytes :=
    match items.lookup bytes with
    | some v => .ok v
    | none => .error "unknown item"
  toLowercase s := s.toLower

/-- A certificate for the P-256 key `pk`, known as `der` and signed with `issuerPk`,
valid in the first hundred seconds of the epoch. -/
def issue (der serial pk issuerPk : Bytes) (extensions : List Extension) : Certificate where
  tbsCertificate := {
    serialNumber := serial
    validity := ⟨.utcTime 0, .utcTime 100⟩
    subjectPublicKeyInfo := ⟨⟨.ecPublicKey, some (.ofOid .secp256r1)⟩, ⟨0, pk⟩⟩
    extensions := some extensions
    rest := der }
  signatureAlgorithm := ⟨.ecdsaSha256, none⟩
  signature := ⟨0, issuerPk ++ der⟩

/-- A BasicConstraints extension with the CA flag set. -/
def caExtension : Extension := ⟨.basicConstraints, [0x30, 0x03, 0x01, 0x01, 0xFF]⟩

end Crates

end Attestation
