import Attestation.Base.Bcs
import Attestation.Base.Sha256

/-! The on-chain verifiers: each takes a Nitro attestation document of the pinned
enclave image and the fields of a payload, holds the document against the policy,
the payload and the clock, and returns a witness typed by its source. The three
modules differ in their payload and in the witness they return. -/

namespace Attestation.Move

open Result

/-- A Move call: a value, an abort with a code, or a runtime error. -/
abbrev Tx (α : Type) := Result ℕ α

/-- `a + b` on `u64`. -/
def addU64 (a b : UInt64) : Tx UInt64 :=
  if a.toNat + b.toNat < 2 ^ 64 then .ok (a + b) else .error .panic

/-! ### Documents and policies -/

/-- `sui::nitro_attestation::PCREntry`. -/
structure PcrEntry where
  index : UInt8
  value : Bytes
  deriving DecidableEq, Repr

/-- The fields of a `NitroAttestationDocument` the verifiers read. -/
structure NitroAttestationDocument where
  timestamp : UInt64
  userData : Option Bytes
  publicKey : Option Bytes
  pcrs : List PcrEntry
  deriving DecidableEq, Repr

/-- `kagi::enclave_policy::EnclavePolicy<ATTESTATION>`. -/
structure EnclavePolicy where
  pcr0 : Bytes
  pcr1 : Bytes
  pcr2 : Bytes
  deriving DecidableEq, Repr

def eStaleOutcome : ℕ := 1
def eFutureOutcome : ℕ := 2
def eWrongPcr : ℕ := 3
def eMissingUserData : ℕ := 4
def ePayloadMismatch : ℕ := 5
def eMissingPublicKey : ℕ := 6

def maxOutcomeAgeMs : UInt64 := 5 * 60 * 1000
def maxClockSkewMs : UInt64 := 30 * 1000

/-- The flags of the loop over the PCR entries. -/
structure Found where
  pcr0 : Bool := false
  pcr1 : Bool := false
  pcr2 : Bool := false
  deriving DecidableEq

def Found.step (policy : EnclavePolicy) (found : Found) (entry : PcrEntry) : Tx Found :=
  if entry.index = 0 then do
    ensure (entry.value = policy.pcr0) eWrongPcr
    pure { found with pcr0 := true }
  else if entry.index = 1 then do
    ensure (entry.value = policy.pcr1) eWrongPcr
    pure { found with pcr1 := true }
  else if entry.index = 2 then do
    ensure (entry.value = policy.pcr2) eWrongPcr
    pure { found with pcr2 := true }
  else pure found

def assertPcrsMatch (policy : EnclavePolicy) (doc : NitroAttestationDocument) : Tx Unit := do
  let found ← doc.pcrs.foldlM (Found.step policy) {}
  ensure ((found.pcr0 && found.pcr1 && found.pcr2) = true) eWrongPcr

variable (sha256 : Bytes → Digest)

/-- The document's `user_data` is the hash of the payload. -/
def assertUserData (doc : NitroAttestationDocument) (payloadBcs : Bytes) : Tx Bytes := do
  let expectedHash := (sha256 payloadBcs).toList
  ensure (doc.userData.isSome = true) eMissingUserData
  ensure (doc.userData = some expectedHash) ePayloadMismatch
  pure expectedHash

/-- The Nitro-signed timestamp is neither too old nor in the future. -/
def assertFresh (nsmTs now : UInt64) : Tx Unit := do
  let newest ← addU64 nsmTs maxOutcomeAgeMs
  ensure (newest ≥ now) eStaleOutcome
  let latest ← addU64 now maxClockSkewMs
  ensure (nsmTs ≤ latest) eFutureOutcome

/-- The checks the three verifiers share, on the BCS of their payload; returns the
document's timestamp and its `user_data`. -/
def verifyDocument (policy : EnclavePolicy) (doc : NitroAttestationDocument) (payloadBcs : Bytes)
    (now : UInt64) : Tx (UInt64 × Bytes) := do
  assertPcrsMatch policy doc
  let userData ← assertUserData sha256 doc payloadBcs
  assertFresh doc.timestamp now
  ensure (doc.publicKey.isSome = true) eMissingPublicKey
  pure (doc.timestamp, userData)

/-! ### Witnesses -/

/-- A typed attestation outcome; `Source` is phantom. -/
structure Witness (Source : Type) where
  attestedValue : Bytes
  challenge : Bytes
  timestampMs : UInt64
  detailHash : Bytes
  deriving DecidableEq, Repr

/-- Construct a witness: the caller must hold a value of the source's marker type. -/
def Witness.new {Source : Type} (_ : Source) (attestedValue challenge : Bytes)
    (timestampMs : UInt64) (detailHash : Bytes) : Witness Source :=
  ⟨attestedValue, challenge, timestampMs, detailHash⟩

/-- A P-256 public key was generated inside genuine Apple Secure Enclave hardware. -/
structure AppleAppAttest where

/-- An Apple-attested key signed a specific payload. -/
structure AppleAssertion where

/-- A key was attested by a chain anchored at a Google attestation root. -/
structure AndroidKeyAttestation where

namespace AppleAttestation

structure ApplePayload where
  attestedValue : Bytes
  challenge : Bytes
  detailHash : Bytes

def ApplePayload.toBcs (p : ApplePayload) : Bytes :=
  Bcs.byteFields [p.attestedValue, p.challenge, p.detailHash]

/-- `attest_apple::attestation::verify`. -/
def verify (policy : EnclavePolicy) (doc : NitroAttestationDocument)
    (attestedValue challenge detailHash : Bytes) (now : UInt64) : Tx (Witness AppleAppAttest) := do
  let payload : ApplePayload := ⟨attestedValue, challenge, detailHash⟩
  let (nsmTs, _) ← verifyDocument sha256 policy doc payload.toBcs now
  pure (.new {} payload.attestedValue payload.challenge nsmTs payload.detailHash)

end AppleAttestation

namespace AppleAssertion

structure AssertionPayload where
  attestedKey : Bytes
  clientData : Bytes

def AssertionPayload.toBcs (p : AssertionPayload) : Bytes :=
  Bcs.byteFields [p.attestedKey, p.clientData]

/-- `attest_apple::assertion::verify`. -/
def verify (policy : EnclavePolicy) (doc : NitroAttestationDocument)
    (attestedKey clientData : Bytes) (now : UInt64) : Tx (Witness AppleAssertion) := do
  let payload : AssertionPayload := ⟨attestedKey, clientData⟩
  let (nsmTs, userData) ← verifyDocument sha256 policy doc payload.toBcs now
  pure (.new {} payload.attestedKey payload.clientData nsmTs userData)

end AppleAssertion

namespace AndroidAttestation

structure AndroidPayload where
  attestedValue : Bytes
  challenge : Bytes
  detailHash : Bytes

def AndroidPayload.toBcs (p : AndroidPayload) : Bytes :=
  Bcs.byteFields [p.attestedValue, p.challenge, p.detailHash]

/-- `attest_android::attestation::verify`. -/
def verify (policy : EnclavePolicy) (doc : NitroAttestationDocument)
    (attestedValue challenge detailHash : Bytes) (now : UInt64) :
    Tx (Witness AndroidKeyAttestation) := do
  let payload : AndroidPayload := ⟨attestedValue, challenge, detailHash⟩
  let (nsmTs, _) ← verifyDocument sha256 policy doc payload.toBcs now
  pure (.new {} payload.attestedValue payload.challenge nsmTs payload.detailHash)

end AndroidAttestation

/-! ### What an accepted document has passed -/

/-- A document of this time is accepted at the clock's time, and neither bound
overflows. -/
def Fresh (nsmTs now : UInt64) : Prop :=
  nsmTs.toNat + 300000 < 2 ^ 64 ∧ now.toNat ≤ nsmTs.toNat + 300000 ∧
    now.toNat + 30000 < 2 ^ 64 ∧ nsmTs.toNat ≤ now.toNat + 30000

instance (nsmTs now : UInt64) : Decidable (Fresh nsmTs now) :=
  inferInstanceAs (Decidable (_ ∧ _ ∧ _ ∧ _))

theorem addU64_eq_ok {a b c : UInt64} :
    addU64 a b = .ok c ↔ a.toNat + b.toNat < 2 ^ 64 ∧ c.toNat = a.toNat + b.toNat := by
  unfold addU64
  split_ifs with h
  · rw [Except.ok.injEq, ← UInt64.toNat_inj, UInt64.toNat_add, Nat.mod_eq_of_lt h]
    exact ⟨fun he => ⟨h, he.symm⟩, fun he => he.2.symm⟩
  · simp only [h, false_and]

theorem assertFresh_eq_ok {nsmTs now : UInt64} {u : Unit} :
    assertFresh nsmTs now = .ok u ↔ Fresh nsmTs now := by
  have hage : maxOutcomeAgeMs.toNat = 300000 := rfl
  have hskew : maxClockSkewMs.toNat = 30000 := rfl
  simp only [assertFresh, bind_eq_ok, addU64_eq_ok, ensure_eq_ok, exists_const, hage, hskew, Fresh,
    ge_iff_le, UInt64.le_iff_toNat_le]
  constructor
  · rintro ⟨newest, ⟨h1, h2⟩, h3, latest, ⟨h4, h5⟩, h6⟩
    omega
  · rintro ⟨h1, h2, h3, h4⟩
    refine ⟨nsmTs + maxOutcomeAgeMs, ⟨h1, ?_⟩, ?_, now + maxClockSkewMs, ⟨h3, ?_⟩, ?_⟩ <;>
      rw [UInt64.toNat_add] <;> omega

variable {sha256} {policy : EnclavePolicy} {doc : NitroAttestationDocument} {payloadBcs : Bytes}
  {now : UInt64}

theorem assertUserData_eq_ok {userData : Bytes} :
    assertUserData sha256 doc payloadBcs = .ok userData ↔
      doc.userData = some (sha256 payloadBcs).toList ∧ userData = (sha256 payloadBcs).toList := by
  simp only [assertUserData, bind_eq_ok, ensure_eq_ok, pure_eq_ok, exists_const]
  constructor
  · rintro ⟨-, h, rfl⟩
    exact ⟨h, rfl⟩
  · rintro ⟨h, rfl⟩
    exact ⟨by rw [h]; rfl, h, rfl⟩

theorem verifyDocument_eq_ok {ts : UInt64} {userData : Bytes} :
    verifyDocument sha256 policy doc payloadBcs now = .ok (ts, userData) ↔
      assertPcrsMatch policy doc = .ok () ∧ doc.userData = some (sha256 payloadBcs).toList ∧
        Fresh doc.timestamp now ∧ doc.publicKey.isSome = true ∧ ts = doc.timestamp ∧
        userData = (sha256 payloadBcs).toList := by
  simp only [verifyDocument, bind_eq_ok, assertUserData_eq_ok, assertFresh_eq_ok, ensure_eq_ok,
    pure_eq_ok, exists_const, Prod.mk.injEq]
  constructor
  · rintro ⟨_, hpcr, _, ⟨hud, rfl⟩, hfresh, hpk, rfl, rfl⟩
    exact ⟨hpcr, hud, hfresh, hpk, rfl, rfl⟩
  · rintro ⟨hpcr, hud, hfresh, hpk, rfl, rfl⟩
    exact ⟨(), hpcr, _, ⟨hud, rfl⟩, hfresh, hpk, rfl, rfl⟩

/-- The document passes every check but the one of its payload. -/
structure Acceptable (policy : EnclavePolicy) (doc : NitroAttestationDocument) (now : UInt64) :
    Prop where
  pcrs : assertPcrsMatch policy doc = .ok ()
  fresh : Fresh doc.timestamp now
  publicKey : doc.publicKey.isSome = true

theorem appleAttestation_verify_eq_ok {a c d : Bytes} {w : Witness AppleAppAttest} :
    AppleAttestation.verify sha256 policy doc a c d now = .ok w ↔
      Acceptable policy doc now ∧
        doc.userData = some (sha256 (Bcs.byteFields [a, c, d])).toList ∧
        w = ⟨a, c, doc.timestamp, d⟩ := by
  simp only [AppleAttestation.verify, AppleAttestation.ApplePayload.toBcs, bind_eq_ok, pure_eq_ok,
    Prod.exists, verifyDocument_eq_ok, Witness.new]
  constructor
  · rintro ⟨_, _, ⟨hpcr, hud, hfresh, hpk, rfl, rfl⟩, rfl⟩
    exact ⟨⟨hpcr, hfresh, hpk⟩, hud, rfl⟩
  · rintro ⟨⟨hpcr, hfresh, hpk⟩, hud, rfl⟩
    exact ⟨_, _, ⟨hpcr, hud, hfresh, hpk, rfl, rfl⟩, rfl⟩

theorem appleAssertion_verify_eq_ok {k d : Bytes} {w : Witness AppleAssertion} :
    AppleAssertion.verify sha256 policy doc k d now = .ok w ↔
      Acceptable policy doc now ∧
        doc.userData = some (sha256 (Bcs.byteFields [k, d])).toList ∧
        w = ⟨k, d, doc.timestamp, (sha256 (Bcs.byteFields [k, d])).toList⟩ := by
  simp only [AppleAssertion.verify, AppleAssertion.AssertionPayload.toBcs, bind_eq_ok, pure_eq_ok,
    Prod.exists, verifyDocument_eq_ok, Witness.new]
  constructor
  · rintro ⟨_, _, ⟨hpcr, hud, hfresh, hpk, rfl, rfl⟩, rfl⟩
    exact ⟨⟨hpcr, hfresh, hpk⟩, hud, rfl⟩
  · rintro ⟨⟨hpcr, hfresh, hpk⟩, hud, rfl⟩
    exact ⟨_, _, ⟨hpcr, hud, hfresh, hpk, rfl, rfl⟩, rfl⟩

theorem androidAttestation_verify_eq_ok {a c d : Bytes} {w : Witness AndroidKeyAttestation} :
    AndroidAttestation.verify sha256 policy doc a c d now = .ok w ↔
      Acceptable policy doc now ∧
        doc.userData = some (sha256 (Bcs.byteFields [a, c, d])).toList ∧
        w = ⟨a, c, doc.timestamp, d⟩ := by
  simp only [AndroidAttestation.verify, AndroidAttestation.AndroidPayload.toBcs, bind_eq_ok,
    pure_eq_ok, Prod.exists, verifyDocument_eq_ok, Witness.new]
  constructor
  · rintro ⟨_, _, ⟨hpcr, hud, hfresh, hpk, rfl, rfl⟩, rfl⟩
    exact ⟨⟨hpcr, hfresh, hpk⟩, hud, rfl⟩
  · rintro ⟨⟨hpcr, hfresh, hpk⟩, hud, rfl⟩
    exact ⟨_, _, ⟨hpcr, hud, hfresh, hpk, rfl, rfl⟩, rfl⟩

end Attestation.Move
