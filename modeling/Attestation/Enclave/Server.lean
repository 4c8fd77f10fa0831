import Attestation.Android.Verify
import Attestation.Apple.Verify
import Attestation.Base.Bcs

/-! The request handlers of the enclave server. A handler decodes the hex fields of
its request, runs a platform verifier, and asks the Nitro Security Module for a
document whose `user_data` is the hash of the payload it returns. The wall clock
and the module's answers are the caller's and the host's to choose. -/

namespace Attestation.Enclave

open Result

inductive AttestError where
  | invalidHex (field : String) (e : Hex.FromHexError)
  | verifyFailed (e : Apple.Error)
  | androidVerifyFailed (e : Android.Error)
  | bcs (e : Bcs.Error)
  | nsmInit
  | nsm (message : String)
  deriving DecidableEq, Repr

def AttestError.message : AttestError → String
  | .invalidHex field e => "invalid hex in field `" ++ field ++ "`: " ++ e.message
  | .verifyFailed e => "attest-apple verify failed: " ++ e.message
  | .androidVerifyFailed e => "attest-android verify failed: " ++ e.message
  | .bcs e => "bcs encode failed: " ++ e.message
  | .nsmInit => "NSM init failed (not running inside a Nitro enclave?)"
  | .nsm m => "NSM request failed: " ++ m

/-! ### The Nitro Security Module -/

inductive NsmResponse where
  | attestation (document : Bytes)
  | other (debug : String)
  deriving DecidableEq, Repr

/-- The module's driver: `nsm_init` and, for an attestation request with a public
key, user data and no nonce, `nsm_process_request`. -/
structure Nsm where
  init : ℤ
  processRequest : Bytes → Bytes → NsmResponse

/-- Request an attestation document binding the public key to the user data. -/
def requestNsmAttestation (nsm : Nsm) (publicKey userData : Bytes) :
    Result AttestError Bytes := do
  ensure (¬ nsm.init < 0) .nsmInit
  match nsm.processRequest publicKey userData with
  | .attestation document => pure document
  | .other debug => fail (.nsm ("unexpected NSM response: " ++ debug))

/-- What the image of the enclave and its boot fix. -/
structure Server where
  crates : Crates
  appleRootDer : Bytes
  pinnedRootsDer : List Bytes
  verifyingKey : Bytes

variable (server : Server) (nsm : Nsm)

/-- The BCS of a payload with these fields, hashed into the user data of a fresh
document. -/
def bindPayload (fields : List Bytes) : Result AttestError Bytes := do
  let payloadBcs ← ofExcept .bcs (Bcs.toBytes fields)
  let payloadHash := server.crates.sha256 payloadBcs
  requestNsmAttestation nsm server.verifyingKey payloadHash.toList

/-! ### `GET /attestation` -/

/-- A registration document, with no user data; a failure carries its status code. -/
def attestationDoc : Result (ℕ × String) String := do
  let doc ← mapErr (fun e : AttestError =>
      (match e with | .nsmInit => 501 | _ => 500, e.message))
    (requestNsmAttestation nsm server.verifyingKey [])
  pure (Hex.encode doc)

/-! ### `POST /attest/apple/attestation` -/

structure AppleRequest where
  attestationObjectHex : String
  keyIdHex : String
  challengeHex : String
  appId : String
  production : Bool

structure ApplePayload where
  attestedValue : Bytes
  challenge : Bytes
  detailHash : Bytes

/-- The fields in the order they are serialized. -/
def ApplePayload.fields (p : ApplePayload) : List Bytes :=
  [p.attestedValue, p.challenge, p.detailHash]

structure AttestResponse where
  nsmDocHex : String
  attestedValueHex : String
  challengeHex : String
  detailHashHex : String
  publicKeyHex : String
  deriving DecidableEq, Repr

def decodeHex (field : String) (s : String) : Result AttestError Bytes :=
  ofExcept (.invalidHex field) (Hex.decode s)

/-- The part of the handler up to the outcome of the verifier. -/
def verifyAppleRequest (req : AppleRequest) (stampMs : UInt64) : Result AttestError Outcome := do
  let attestationObject ← decodeHex "attestation_object_hex" req.attestationObjectHex
  let keyId ← decodeHex "key_id_hex" req.keyIdHex
  let challenge ← decodeHex "challenge_hex" req.challengeHex
  mapErr .verifyFailed (Apple.verifyAppAttest server.crates server.appleRootDer attestationObject
    keyId challenge req.appId req.production stampMs)

/-- The part of an attestation handler after the outcome of the verifier. -/
def respond (fields : List Bytes) (outcome : Outcome) : Result AttestError AttestResponse := do
  let nsmDoc ← bindPayload server nsm fields
  pure {
    nsmDocHex := Hex.encode nsmDoc
    attestedValueHex := Hex.encode outcome.attestedValue
    challengeHex := Hex.encode outcome.challenge
    detailHashHex := Hex.encode outcome.detailHash
    publicKeyHex := Hex.encode server.verifyingKey }

def attestAppleAttestation (req : AppleRequest) (stampMs : UInt64) :
    Result AttestError AttestResponse := do
  let outcome ← verifyAppleRequest server req stampMs
  let payload : ApplePayload := ⟨outcome.attestedValue, outcome.challenge, outcome.detailHash⟩
  respond server nsm payload.fields outcome

/-! ### `POST /attest/apple/assertion` -/

structure AppleAssertionRequest where
  assertionObjectHex : String
  clientDataHex : String
  attestedKeyHex : String
  appId : String

structure AssertionPayload where
  attestedKey : Bytes
  clientData : Bytes

def AssertionPayload.fields (p : AssertionPayload) : List Bytes := [p.attestedKey, p.clientData]

structure AssertionResponse where
  nsmDocHex : String
  attestedKeyHex : String
  clientDataHex : String
  publicKeyHex : String
  deriving DecidableEq, Repr

def verifyAssertionRequest (req : AppleAssertionRequest) (stampMs : UInt64) :
    Result AttestError Outcome := do
  let assertionObject ← decodeHex "assertion_object_hex" req.assertionObjectHex
  let clientData ← decodeHex "client_data_hex" req.clientDataHex
  let attestedKey ← decodeHex "attested_key_hex" req.attestedKeyHex
  mapErr .verifyFailed (Apple.verifyAssertion server.crates assertionObject clientData attestedKey
    req.appId stampMs)

def attestAppleAssertion (req : AppleAssertionRequest) (stampMs : UInt64) :
    Result AttestError AssertionResponse := do
  let outcome ← verifyAssertionRequest server req stampMs
  let payload : AssertionPayload := ⟨outcome.attestedValue, outcome.challenge⟩
  let nsmDoc ← bindPayload server nsm payload.fields
  pure {
    nsmDocHex := Hex.encode nsmDoc
    attestedKeyHex := Hex.encode outcome.attestedValue
    clientDataHex := Hex.encode outcome.challenge
    publicKeyHex := Hex.encode server.verifyingKey }

/-! ### `POST /attest/android/attestation` -/

structure AndroidRequest where
  chainHex : List String
  challengeHex : String
  minSecurityLevel : Option String := none
  requireVerifiedBoot : Bool := true
  requireDeviceLocked : Bool := true
  allowedSelfSignedKeysHex : List String := []
  statusListJson : Option String := none

def parseSecurityLevel (s : Option String) : Result AttestError Android.SecurityLevel :=
  match s.getD "tee" with
  | "software" => .ok .software
  | "tee" | "trustedenvironment" | "trusted_environment" => .ok .trustedEnvironment
  | "strongbox" => .ok .strongBox
  | other => fail (.nsm ("unknown min_security_level '" ++ other ++
      "' (want software|tee|strongbox)"))

structure AndroidPayload where
  attestedValue : Bytes
  challenge : Bytes
  detailHash : Bytes

def AndroidPayload.fields (p : AndroidPayload) : List Bytes :=
  [p.attestedValue, p.challenge, p.detailHash]

/-- A list of hex fields, each named by its index in the list. -/
def decodeHexList (field : String) (xs : List String) : Result AttestError (List Bytes) :=
  xs.zipIdx.mapM fun (h, i) => decodeHex (field ++ "[" ++ toString i ++ "]") h

def parseStatusList (json : Option String) : Result AttestError (Option Android.StatusList) :=
  match json with
  | some json => do
    let list ← mapErr .androidVerifyFailed (Android.StatusList.fromJson server.crates json)
    pure (some list)
  | none => pure none

def verifyAndroidRequest (req : AndroidRequest) (stampMs : UInt64) :
    Result AttestError Outcome := do
  let chain ← decodeHexList "chain" req.chainHex
  let challenge ← decodeHex "challenge_hex" req.challengeHex
  let minLevel ← parseSecurityLevel req.minSecurityLevel
  let allowedKeys ← decodeHexList "allowed_self_signed_keys_hex" req.allowedSelfSignedKeysHex
  let statusList ← parseStatusList server req.statusListJson
  let policy : Android.Policy := {
    minSecurityLevel := minLevel
    requireVerifiedBoot := req.requireVerifiedBoot
    allowedSelfSignedKeys := allowedKeys
    requireDeviceLocked := req.requireDeviceLocked
    statusList := statusList }
  mapErr .androidVerifyFailed (Android.verifyAttestation server.crates server.pinnedRootsDer chain
    challenge policy stampMs)

def attestAndroidAttestation (req : AndroidRequest) (stampMs : UInt64) :
    Result AttestError AttestResponse := do
  let outcome ← verifyAndroidRequest server req stampMs
  let payload : AndroidPayload := ⟨outcome.attestedValue, outcome.challenge, outcome.detailHash⟩
  respond server nsm payload.fields outcome

/-! ### What a handler that answered has done -/

variable {server nsm}

theorem requestNsmAttestation_eq_ok {publicKey userData document : Bytes} :
    requestNsmAttestation nsm publicKey userData = .ok document ↔
      ¬ nsm.init < 0 ∧ nsm.processRequest publicKey userData = .attestation document := by
  simp only [requestNsmAttestation, bind_eq_ok, ensure_eq_ok, exists_const]
  refine and_congr_right fun _ => ?_
  cases nsm.processRequest publicKey userData <;> simp [pure_eq_ok]

/-- A bound payload was asked for with the hash of its fields one after another. -/
theorem bindPayload_eq_ok {fields : List Bytes} {document : Bytes}
    (h : bindPayload server nsm fields = .ok document) :
    nsm.processRequest server.verifyingKey
      (server.crates.sha256 (Bcs.byteFields fields)).toList = .attestation document := by
  simp only [bindPayload, bind_eq_ok, ofExcept_eq_ok, requestNsmAttestation_eq_ok] at h
  obtain ⟨payloadBcs, hbcs, -, hdoc⟩ := h
  rwa [Bcs.toBytes_eq_ok hbcs] at hdoc

theorem respond_eq_ok {fields : List Bytes} {outcome : Outcome} {resp : AttestResponse} :
    respond server nsm fields outcome = .ok resp ↔
      ∃ document, bindPayload server nsm fields = .ok document ∧ resp = {
        nsmDocHex := Hex.encode document
        attestedValueHex := Hex.encode outcome.attestedValue
        challengeHex := Hex.encode outcome.challenge
        detailHashHex := Hex.encode outcome.detailHash
        publicKeyHex := Hex.encode server.verifyingKey } := by
  simp only [respond, bind_eq_ok, pure_eq_ok, eq_comm (a := resp)]

/-- The response to an accepted Apple attestation carries a document bound to the
outcome's fields, and these fields. -/
theorem attestAppleAttestation_eq_ok {req : AppleRequest} {stampMs : UInt64}
    {resp : AttestResponse} (h : attestAppleAttestation server nsm req stampMs = .ok resp) :
    ∃ out document, verifyAppleRequest server req stampMs = .ok out ∧
      nsm.processRequest server.verifyingKey (server.crates.sha256 (Bcs.byteFields
        [out.attestedValue, out.challenge, out.detailHash])).toList = .attestation document ∧
      resp = ⟨Hex.encode document, Hex.encode out.attestedValue, Hex.encode out.challenge,
        Hex.encode out.detailHash, Hex.encode server.verifyingKey⟩ := by
  simp only [attestAppleAttestation, bind_eq_ok, respond_eq_ok] at h
  obtain ⟨out, hout, document, hbind, rfl⟩ := h
  exact ⟨out, document, hout, bindPayload_eq_ok hbind, rfl⟩

theorem attestAppleAssertion_eq_ok {req : AppleAssertionRequest} {stampMs : UInt64}
    {resp : AssertionResponse} (h : attestAppleAssertion server nsm req stampMs = .ok resp) :
    ∃ out document, verifyAssertionRequest server req stampMs = .ok out ∧
      nsm.processRequest server.verifyingKey (server.crates.sha256 (Bcs.byteFields
        [out.attestedValue, out.challenge])).toList = .attestation document ∧
      resp = ⟨Hex.encode document, Hex.encode out.attestedValue, Hex.encode out.challenge,
        Hex.encode server.verifyingKey⟩ := by
  simp only [attestAppleAssertion, bind_eq_ok, pure_eq_ok] at h
  obtain ⟨out, hout, document, hbind, rfl⟩ := h
  exact ⟨out, document, hout, bindPayload_eq_ok hbind, rfl⟩

theorem attestAndroidAttestation_eq_ok {req : AndroidRequest} {stampMs : UInt64}
    {resp : AttestResponse} (h : attestAndroidAttestation server nsm req stampMs = .ok resp) :
    ∃ out document, verifyAndroidRequest server req stampMs = .ok out ∧
      nsm.processRequest server.verifyingKey (server.crates.sha256 (Bcs.byteFields
        [out.attestedValue, out.challenge, out.detailHash])).toList = .attestation document ∧
      resp = ⟨Hex.encode document, Hex.encode out.attestedValue, Hex.encode out.challenge,
        Hex.encode out.detailHash, Hex.encode server.verifyingKey⟩ := by
  simp only [attestAndroidAttestation, bind_eq_ok, respond_eq_ok] at h
  obtain ⟨out, hout, document, hbind, rfl⟩ := h
  exact ⟨out, document, hout, bindPayload_eq_ok hbind, rfl⟩

theorem attestationDoc_eq_ok {hex : String} (h : attestationDoc server nsm = .ok hex) :
    ∃ document, nsm.processRequest server.verifyingKey [] = .attestation document ∧
      hex = Hex.encode document := by
  simp only [attestationDoc, bind_eq_ok, mapErr_eq_ok, requestNsmAttestation_eq_ok, pure_eq_ok] at h
  obtain ⟨document, ⟨-, hdoc⟩, rfl⟩ := h
  exact ⟨document, hdoc, rfl⟩

/-- Every level but the one asked for by name is at least the TEE. -/
theorem parseSecurityLevel_eq_ok {s : Option String} {level : Android.SecurityLevel}
    (h : parseSecurityLevel s = .ok level) (hs : s ≠ some "software") :
    Android.SecurityLevel.trustedEnvironment.rank ≤ level.rank := by
  unfold parseSecurityLevel at h
  split at h
  · rename_i hsoft
    cases s with
    | none => exact absurd hsoft (by decide)
    | some t => exact absurd (congrArg some hsoft) hs
  · obtain rfl := Except.ok.inj h
    exact le_rfl
  · obtain rfl := Except.ok.inj h
    exact le_rfl
  · obtain rfl := Except.ok.inj h
    exact le_rfl
  · obtain rfl := Except.ok.inj h
    decide
  · exact absurd h fail_ne_ok

end Attestation.Enclave
