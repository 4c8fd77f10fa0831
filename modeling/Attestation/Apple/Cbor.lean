import Attestation.X509.Checks

/-! The errors of the Apple verifier and its decoders for CBOR: the attestation
object, the assertion and the COSE key. Each walks the entries of a map in wire
order, so the last of several entries with one key counts. -/

namespace Attestation.Apple

open Result

inductive Error where
  | cbor (message : String)
  | der (message : String)
  | cose (message : String)
  | wrongFormat (fmt : String)
  | emptyX5c
  | untrustedChain
  | missingNonceExtension
  | nonceMismatch
  | keyIdMismatch
  | aaguidMismatch (expected : String) (got : Bytes)
  | rpIdHashMismatch
  | signCountNotZero (count : UInt32)
  | authDataTooShort (length : ℕ)
  | noAttestedCredentialData
  | notP256
  deriving DecidableEq, Repr

/-- A byte vector as `{:?}` prints it. -/
def debugBytes (bs : Bytes) : String := "[" ++ ", ".intercalate (bs.map toString) ++ "]"

def Error.message : Error → String
  | .cbor m => "CBOR decode error: " ++ m
  | .der m => "DER/X.509 error: " ++ m
  | .cose m => "COSE_Key parse error: " ++ m
  | .wrongFormat fmt =>
    "attestation has wrong fmt: expected 'apple-appattest', got '" ++ fmt ++ "'"
  | .emptyX5c => "x5c chain is empty"
  | .untrustedChain => "x5c chain does not terminate at Apple App Attestation Root CA"
  | .missingNonceExtension =>
    "missing Apple nonce extension (OID 1.2.840.113635.100.8.2) on leaf certificate"
  | .nonceMismatch => "computed nonce does not match certificate extension nonce"
  | .keyIdMismatch => "attested keyId does not match SHA-256 of the public key"
  | .aaguidMismatch expected got =>
    "aaguid mismatch: expected " ++ expected ++ ", got " ++ debugBytes got
  | .rpIdHashMismatch => "rpIdHash does not match SHA-256(app_id)"
  | .signCountNotZero count =>
    "signCount must be 0 on initial attestation, got " ++ toString count
  | .authDataTooShort length => "authData is too short: got " ++ toString length ++ " bytes"
  | .noAttestedCredentialData => "authData missing attested-credential-data flag"
  | .notP256 => "public key is not P-256"

/-- The errors of the shared certificate checks. -/
def errors : X509.Errors Error := ⟨.der, .untrustedChain⟩

variable (cr : Crates)

/-! ### The attestation object -/

structure AttestationStatement where
  fmt : String
  authData : Bytes
  x5c : List Bytes
  receipt : Bytes
  deriving DecidableEq, Repr

/-- The variables of the loop over the top-level map. -/
structure ObjectEntries where
  fmt : Option String := none
  authData : Option Bytes := none
  attStmt : Option Cbor.Value := none

def ObjectEntries.step (st : ObjectEntries) (entry : Cbor.Value × Cbor.Value) :
    Result Error ObjectEntries := do
  let key ← okOr (.cbor "non-text key at top level") entry.1.asText
  pure <| match key with
    | "fmt" => { st with fmt := entry.2.asText }
    | "authData" => { st with authData := entry.2.asBytes }
    | "attStmt" => { st with attStmt := some entry.2 }
    | _ => st

/-- The variables of the loop over the attestation statement. -/
structure StatementEntries where
  x5c : Option (List Bytes) := none
  receipt : Bytes := []

def StatementEntries.step (st : StatementEntries) (entry : Cbor.Value × Cbor.Value) :
    Result Error StatementEntries := do
  let key ← okOr (.cbor "non-text key in attStmt") entry.1.asText
  match key with
  | "x5c" => do
    let arr ← okOr (.cbor "x5c is not an array") entry.2.asArray
    let certs ← arr.mapM fun c => okOr (.cbor "x5c element is not bytes") c.asBytes
    pure { st with x5c := some certs }
  | "receipt" =>
    match entry.2.asBytes with
    | some b => pure { st with receipt := b }
    | none => pure st
  | _ => pure st

def decodeAttestationObject (bytes : Bytes) : Result Error AttestationStatement := do
  let value ← ofExcept (fun e => Error.cbor ("top-level decode: " ++ e)) (cr.cborFromReader bytes)
  let map ← okOr (.cbor "top-level value is not a map") value.asMap
  let st ← map.foldlM ObjectEntries.step {}
  let fmt ← okOr (.cbor "missing 'fmt'") st.fmt
  let authData ← okOr (.cbor "missing 'authData'") st.authData
  let attStmt ← okOr (.cbor "missing 'attStmt'") st.attStmt
  let attMap ← okOr (.cbor "attStmt is not a map") attStmt.asMap
  let st ← attMap.foldlM StatementEntries.step {}
  let x5c ← okOr (.cbor "missing 'x5c' in attStmt") st.x5c
  pure { fmt, authData, x5c, receipt := st.receipt }

/-! ### The assertion -/

/-- The variables of the loop over the assertion. -/
structure AssertionEntries where
  signature : Option Bytes := none
  authData : Option Bytes := none

def AssertionEntries.step (st : AssertionEntries) (entry : Cbor.Value × Cbor.Value) :
    Result Error AssertionEntries := do
  let key ← okOr (.cbor "non-text key in assertion") entry.1.asText
  pure <| match key with
    | "signature" => { st with signature := entry.2.asBytes }
    | "authenticatorData" => { st with authData := entry.2.asBytes }
    | _ => st

/-- Parse the assertion CBOR into `(signature, authData)`. -/
def decodeAssertion (bytes : Bytes) : Result Error (Bytes × Bytes) := do
  let value ← ofExcept (fun e => Error.cbor ("assertion decode: " ++ e)) (cr.cborFromReader bytes)
  let map ← okOr (.cbor "assertion not a map") value.asMap
  let st ← map.foldlM AssertionEntries.step {}
  let signature ← okOr (.cbor "missing signature") st.signature
  let authData ← okOr (.cbor "missing authenticatorData") st.authData
  pure (signature, authData)

/-! ### The COSE key -/

/-- P-256 public key in uncompressed SEC1 form. -/
abbrev P256Pk := Vector UInt8 65

/-- `i64::try_from(..).ok()`. -/
def toI64 (i : ℤ) : Option ℤ := if -2 ^ 63 ≤ i ∧ i < 2 ^ 63 then some i else none

/-- An `Option<i64>` as `{:?}` prints it. -/
def debugI64 : Option ℤ → String
  | some i => "Some(" ++ toString i ++ ")"
  | none => "None"

/-- The variables of the loop over the COSE key. -/
structure CoseEntries where
  kty : Option ℤ := none
  alg : Option ℤ := none
  crv : Option ℤ := none
  x : Option Bytes := none
  y : Option Bytes := none

/-- An entry whose key is not an `i64` is passed over. -/
def CoseEntries.step (st : CoseEntries) (entry : Cbor.Value × Cbor.Value) : CoseEntries :=
  match entry.1.asInteger.bind toI64 with
  | some 1 => { st with kty := entry.2.asInteger.bind toI64 }
  | some 3 => { st with alg := entry.2.asInteger.bind toI64 }
  | some (-1) => { st with crv := entry.2.asInteger.bind toI64 }
  | some (-2) => { st with x := entry.2.asBytes }
  | some (-3) => { st with y := entry.2.asBytes }
  | _ => st

def extractP256Pk (coseBytes : Bytes) : Result Error P256Pk := do
  let value ← ofExcept (fun e => Error.cose ("decode: " ++ e)) (cr.cborFromReader coseBytes)
  let map ← okOr (.cose "COSE_Key is not a map") value.asMap
  let st := map.foldl CoseEntries.step {}
  ensure (st.kty = some 2) .notP256
  ensure (st.alg = some (-7)) (.cose ("alg must be -7 (ES256), got " ++ debugI64 st.alg))
  ensure (st.crv = some 1) .notP256
  let x ← okOr (.cose "missing x coordinate") st.x
  let y ← okOr (.cose "missing y coordinate") st.y
  ensure (¬ (x.length ≠ 32 ∨ y.length ≠ 32)) (.cose ("x/y must be 32 bytes (got x=" ++
    toString x.length ++ ", y=" ++ toString y.length ++ ")"))
  toArray 65 (0x04 :: x ++ y)

/-- The bytes Apple's `keyId` hashes. -/
def keyIdInput (pk : P256Pk) : Bytes := pk.toList

end Attestation.Apple
