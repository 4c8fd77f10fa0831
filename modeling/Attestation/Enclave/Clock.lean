import Attestation.Apple.NonceBinding
import Attestation.Apple.TrustedPath
import Attestation.Enclave.Server

/-! The influence of the enclave's wall clock on an Apple attestation request. A
request is accepted when it passes the checks that do not read the clock and the
clock falls into every validity window of the chain and of the pinned root; two
clocks that both do get the same response. -/

namespace Attestation.Enclave

open Result X509

variable (server : Server) (nsm : Nsm)

/-! ### Runs of the handler -/

/-- The user data a run of the handler passes to the security module. -/
def appleUserData (req : AppleRequest) (stampMs : UInt64) : Result AttestError Bytes := do
  let outcome ← verifyAppleRequest server req stampMs
  let payload : ApplePayload := ⟨outcome.attestedValue, outcome.challenge, outcome.detailHash⟩
  let payloadBcs ← ofExcept .bcs (Bcs.toBytes payload.fields)
  pure (server.crates.sha256 payloadBcs).toList

variable {server nsm} in
/-- An accepted request has asked for a document with its user data. -/
theorem attestAppleAttestation_asks {req : AppleRequest} {stampMs : UInt64} {resp : AttestResponse}
    (h : attestAppleAttestation server nsm req stampMs = .ok resp) :
    ∃ userData document, appleUserData server req stampMs = .ok userData ∧
      nsm.processRequest server.verifyingKey userData = .attestation document ∧
      resp.nsmDocHex = Hex.encode document := by
  simp only [attestAppleAttestation, respond, bindPayload, bind_eq_ok, pure_eq_ok] at h
  obtain ⟨out, hout, document, ⟨payloadBcs, hbcs, hdoc⟩, rfl⟩ := h
  refine ⟨_, document, ?_, (requestNsmAttestation_eq_ok.mp hdoc).2, rfl⟩
  simp only [appleUserData, bind_eq_ok, pure_eq_ok]
  exact ⟨out, hout, payloadBcs, hbcs, rfl⟩

/-- At the two clocks, the handler makes the same decision and, when it accepts, passes
on the same user data and returns the same fields. -/
def ClockFree (req : AppleRequest) (c₁ c₂ : UInt64) : Prop :=
  ((∃ resp, attestAppleAttestation server nsm req c₁ = .ok resp) ↔
    ∃ resp, attestAppleAttestation server nsm req c₂ = .ok resp) ∧
  ∀ r₁ r₂, attestAppleAttestation server nsm req c₁ = .ok r₁ →
    attestAppleAttestation server nsm req c₂ = .ok r₂ →
    appleUserData server req c₁ = appleUserData server req c₂ ∧
      r₁.attestedValueHex = r₂.attestedValueHex ∧ r₁.challengeHex = r₂.challengeHex ∧
      r₁.detailHashHex = r₂.detailHashHex

/-! ### The checks that do not read the clock -/

/-- What verification reads off a request. -/
structure AppleEvidence where
  attestationObject : Bytes
  keyId : Bytes
  challenge : Bytes
  stmt : Apple.AttestationStatement
  auth : Apple.AuthData
  certs : List Certificate
  root : Certificate
  leaf : Certificate
  pk : Apple.P256Pk

namespace AppleEvidence

/-- The fields of the payload. -/
def fields (e : AppleEvidence) : List Bytes :=
  [e.pk.toList, e.challenge, (server.crates.sha256 e.attestationObject).toList]

/-- Every check of a request but those of the validity windows. -/
structure Checked (req : AppleRequest) (e : AppleEvidence) : Prop where
  objectHex : Hex.decode req.attestationObjectHex = .ok e.attestationObject
  keyIdHex : Hex.decode req.keyIdHex = .ok e.keyId
  challengeHex : Hex.decode req.challengeHex = .ok e.challenge
  decoded : Apple.decodeAttestationObject server.crates e.attestationObject = .ok e.stmt
  format : e.stmt.fmt = "apple-appattest"
  parsed : Apple.AuthData.parse e.stmt.authData = .ok e.auth
  certs : List.Forall₂ (fun der cert => server.crates.certificateFromDer der = .ok cert)
    e.stmt.x5c e.certs
  root : server.crates.certificateFromDer server.appleRootDer = .ok e.root
  chain : Apple.ChainSigned server.crates e.certs e.root
  leaf : e.certs.head? = some e.leaf
  nonce : Apple.extractNonceExtension e.leaf =
    .ok (Apple.expectedNonce server.crates e.stmt.authData e.challenge)
  key : Apple.extractP256Pk server.crates e.auth.credentialPublicKey = .ok e.pk
  keyId_eq : (server.crates.sha256 (Apple.keyIdInput e.pk)).toList = e.keyId
  aaguid_eq : e.auth.aaguid =
    if req.production then Apple.aaguidProduction else Apple.aaguidDevelopment
  rpIdHash_eq : e.auth.rpIdHash = server.crates.sha256 (asBytes req.appId)
  signCount_eq : e.auth.signCount = 0

/-- The clock falls into the validity window of every certificate. -/
def ValidAt (e : AppleEvidence) (clockMs : UInt64) : Prop :=
  ∀ cert ∈ e.root :: e.certs, X509.ValidAt cert clockMs

/-- The outcome of an accepted request. -/
def outcome (e : AppleEvidence) (clockMs : UInt64) : Outcome :=
  Apple.appleOutcome server.crates e.attestationObject e.challenge clockMs e.pk

end AppleEvidence

variable {server nsm} {req : AppleRequest} {stampMs : UInt64}

theorem forall₂_parse_unique {cr : Crates} {ders : List Bytes} {certs certs' : List Certificate}
    (h : List.Forall₂ (fun der cert => cr.certificateFromDer der = .ok cert) ders certs)
    (h' : List.Forall₂ (fun der cert => cr.certificateFromDer der = .ok cert) ders certs') :
    certs = certs' := by
  induction h generalizing certs' with
  | nil => cases h'; rfl
  | cons hd _ ih =>
    cases h' with
    | cons hd' htl' => rw [Except.ok.inj (hd.symm.trans hd'), ih htl']

/-- A request has one reading. -/
theorem AppleEvidence.Checked.unique {e e' : AppleEvidence} (h : e.Checked server req)
    (h' : e'.Checked server req) : e = e' := by
  obtain ⟨obj, keyId, chal, stmt, auth, certs, root, leaf, pk⟩ := e
  obtain ⟨obj', keyId', chal', stmt', auth', certs', root', leaf', pk'⟩ := e'
  obtain rfl : obj = obj' := Except.ok.inj (h.objectHex.symm.trans h'.objectHex)
  obtain rfl : keyId = keyId' := Except.ok.inj (h.keyIdHex.symm.trans h'.keyIdHex)
  obtain rfl : chal = chal' := Except.ok.inj (h.challengeHex.symm.trans h'.challengeHex)
  obtain rfl : stmt = stmt' := Except.ok.inj (h.decoded.symm.trans h'.decoded)
  obtain rfl : auth = auth' := Except.ok.inj (h.parsed.symm.trans h'.parsed)
  obtain rfl : certs = certs' := forall₂_parse_unique h.certs h'.certs
  obtain rfl : root = root' := Except.ok.inj (h.root.symm.trans h'.root)
  obtain rfl : leaf = leaf' := Option.some.inj (h.leaf.symm.trans h'.leaf)
  obtain rfl : pk = pk' := Except.ok.inj (h.key.symm.trans h'.key)
  rfl

/-- Verification splits into the checks that do not read the clock and the validity
windows. -/
theorem verifyAppleRequest_eq_ok {out : Outcome} :
    verifyAppleRequest server req stampMs = .ok out ↔
      ∃ e : AppleEvidence, e.Checked server req ∧ e.ValidAt stampMs ∧
        out = e.outcome server stampMs := by
  simp only [verifyAppleRequest, decodeHex, bind_eq_ok, ofExcept_eq_ok, mapErr_eq_ok,
    Apple.verifyAppAttest_eq_ok]
  constructor
  · rintro ⟨obj, hobj, keyId, hkeyId, chal, hchal, stmt, auth, leaf, pk, hc, rfl⟩
    obtain ⟨certs, root, hcerts, hroot, hchain, hvalid, hleaf⟩ :=
      Apple.validateX5cChain_eq_ok.mp hc.chainValid
    exact ⟨⟨obj, keyId, chal, stmt, auth, certs, root, leaf, pk⟩,
      ⟨hobj, hkeyId, hchal, hc.decoded, hc.format, hc.parsed, hcerts, hroot, hchain, hleaf,
        hc.nonce, hc.key, hc.keyId_eq, hc.aaguid_eq, hc.rpIdHash_eq, hc.signCount_eq⟩,
      hvalid, rfl⟩
  · rintro ⟨e, h, hvalid, rfl⟩
    have hchain := Apple.validateX5cChain_eq_ok.mpr
      ⟨e.certs, e.root, h.certs, h.root, h.chain, hvalid, h.leaf⟩
    exact ⟨_, h.objectHex, _, h.keyIdHex, _, h.challengeHex, e.stmt, e.auth, e.leaf, e.pk,
      ⟨h.decoded, h.format, h.parsed, hchain, h.nonce, h.key, h.keyId_eq, h.aaguid_eq,
        h.rpIdHash_eq, h.signCount_eq⟩, rfl⟩

variable (server nsm) in
/-- The security module answers for the payload of the evidence. -/
def AppleEvidence.Answered (e : AppleEvidence) : Prop :=
  ∃ document, bindPayload server nsm (e.fields server) = .ok document

theorem attestAppleAttestation_isOk :
    (∃ resp, attestAppleAttestation server nsm req stampMs = .ok resp) ↔
      ∃ e : AppleEvidence, e.Checked server req ∧ e.Answered server nsm ∧ e.ValidAt stampMs := by
  simp only [attestAppleAttestation, bind_eq_ok, respond_eq_ok, verifyAppleRequest_eq_ok]
  constructor
  · rintro ⟨_, _, ⟨e, h, hvalid, rfl⟩, document, hbind, -⟩
    exact ⟨e, h, ⟨document, hbind⟩, hvalid⟩
  · rintro ⟨e, h, ⟨document, hbind⟩, hvalid⟩
    exact ⟨_, _, ⟨e, h, hvalid, rfl⟩, document, hbind, rfl⟩

/-- Two outcomes of one request differ in their timestamps only. -/
theorem verifyAppleRequest_clock {c₁ c₂ : UInt64} {o₁ o₂ : Outcome}
    (h₁ : verifyAppleRequest server req c₁ = .ok o₁)
    (h₂ : verifyAppleRequest server req c₂ = .ok o₂) :
    o₁.attestedValue = o₂.attestedValue ∧ o₁.challenge = o₂.challenge ∧
      o₁.detailHash = o₂.detailHash := by
  obtain ⟨e, he, -, rfl⟩ := verifyAppleRequest_eq_ok.mp h₁
  obtain ⟨e', he', -, rfl⟩ := verifyAppleRequest_eq_ok.mp h₂
  obtain rfl := he.unique he'
  exact ⟨rfl, rfl, rfl⟩

theorem attestAppleAttestation_clock {c₁ c₂ : UInt64} {r₁ r₂ : AttestResponse}
    (h₁ : attestAppleAttestation server nsm req c₁ = .ok r₁)
    (h₂ : attestAppleAttestation server nsm req c₂ = .ok r₂) :
    appleUserData server req c₁ = appleUserData server req c₂ ∧
      r₁.attestedValueHex = r₂.attestedValueHex ∧ r₁.challengeHex = r₂.challengeHex ∧
      r₁.detailHashHex = r₂.detailHashHex := by
  obtain ⟨o₁, _, ho₁, -, rfl⟩ := attestAppleAttestation_eq_ok h₁
  obtain ⟨o₂, _, ho₂, -, rfl⟩ := attestAppleAttestation_eq_ok h₂
  obtain ⟨hvalue, hchallenge, hdetail⟩ := verifyAppleRequest_clock ho₁ ho₂
  refine ⟨?_, by rw [hvalue], by rw [hchallenge], by rw [hdetail]⟩
  simp only [appleUserData, ho₁, ho₂, Except.bind, bind, hvalue, hchallenge, hdetail]

/-- The clock has no influence on a request exactly when no check but the validity
windows can tell: the request fails another check, or both clocks fall into all
windows, or neither does. -/
theorem clockFree_iff (server : Server) (nsm : Nsm) (req : AppleRequest) (c₁ c₂ : UInt64) :
    ClockFree server nsm req c₁ c₂ ↔
      ∀ e : AppleEvidence, e.Checked server req → e.Answered server nsm →
        (e.ValidAt c₁ ↔ e.ValidAt c₂) := by
  simp only [ClockFree, attestAppleAttestation_isOk]
  constructor
  · rintro ⟨hdecision, -⟩ e he hanswered
    constructor
    · intro hvalid
      obtain ⟨e', he', -, hvalid'⟩ := hdecision.mp ⟨e, he, hanswered, hvalid⟩
      rwa [he.unique he']
    · intro hvalid
      obtain ⟨e', he', -, hvalid'⟩ := hdecision.mpr ⟨e, he, hanswered, hvalid⟩
      rwa [he.unique he']
  · intro h
    refine ⟨?_, fun r₁ r₂ h₁ h₂ => attestAppleAttestation_clock h₁ h₂⟩
    constructor
    · rintro ⟨e, he, hanswered, hvalid⟩
      exact ⟨e, he, hanswered, (h e he hanswered).mp hvalid⟩
    · rintro ⟨e, he, hanswered, hvalid⟩
      exact ⟨e, he, hanswered, (h e he hanswered).mpr hvalid⟩

/-! ### A clock after the last window -/

namespace ClockSample

def sampleServer : Server := ⟨Apple.sampleCrates, [0x1F], [], [9]⟩

def echo : Nsm := ⟨0, fun _ userData => .attestation userData⟩

/-- The sample attestation, whose certificates are valid for a hundred seconds. -/
def sampleRequest : AppleRequest where
  attestationObjectHex := "a3"
  keyIdHex := Hex.encode (sha256 Apple.samplePk).toList
  challengeHex := "07"
  appId := "T.app"
  production := false

end ClockSample

open ClockSample in
/-- A host that moves the clock on turns an accepted request into a rejected one. -/
theorem clock_rejects : ¬ ClockFree sampleServer echo sampleRequest 100000 100001 := by
  rintro ⟨hdecision, -⟩
  have haccepted :
      (attestAppleAttestation sampleServer echo sampleRequest 100000).isOk = true := by
    decide +kernel
  obtain ⟨resp, hresp⟩ := hdecision.mp (exists_eq_ok haccepted)
  have hrejected :
      (attestAppleAttestation sampleServer echo sampleRequest 100001).isOk = false := by
    decide +kernel
  rw [hresp] at hrejected
  cases hrejected

end Attestation.Enclave
