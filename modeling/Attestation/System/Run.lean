import Attestation.Base.Runs
import Attestation.Enclave.Server
import Attestation.Move.Verify

/-! The deployed system: one enclave image that answers requests, other images
that obtain documents of their own, and a chain on which anyone calls the
verifiers with any document issued so far and any arguments. Documents cannot be
forged, so a call names an issued one. The state remembers, next to what the
parties see, where each document came from, which outcomes the platform
verifiers accepted and which messages were hashed. -/

namespace Attestation.System

open Result Move Enclave

/-- What is fixed before a run: the image with its trust anchors and its key, the
policy that pins the image, and the native that loads signed documents. -/
structure Deployment where
  server : Server
  policy : EnclavePolicy
  loadNitroAttestation : Bytes → Option NitroAttestationDocument

/-- A Security Module under the pinned image: a document it signs loads with the
key and the user data it was asked to bind and the measurements of the policy. -/
structure GenuineNsm (D : Deployment) extends Nsm where
  genuine : ∀ userData document,
    processRequest D.server.verifyingKey userData = .attestation document →
      ∃ doc, D.loadNitroAttestation document = some doc ∧
        doc.publicKey = some D.server.verifyingKey ∧
        (doc.userData = some userData ∨ userData = [] ∧ doc.userData = none) ∧
        assertPcrsMatch D.policy doc = .ok ()

/-- What a document was issued for. -/
inductive Origin where
  | registration
  | appleAttestation (req : AppleRequest) (outcome : Outcome)
  | appleAssertion (req : AppleAssertionRequest) (outcome : Outcome)
  | androidAttestation (req : AndroidRequest) (outcome : Outcome)
  | otherImage

/-- The endpoints that answer with a document. -/
inductive Endpoint where
  | registration
  | appleAttestation
  | appleAssertion
  | androidAttestation
  deriving DecidableEq, Repr

def Origin.endpoint : Origin → Option Endpoint
  | .registration => some .registration
  | .appleAttestation _ _ => some .appleAttestation
  | .appleAssertion _ _ => some .appleAssertion
  | .androidAttestation _ _ => some .androidAttestation
  | .otherImage => none

structure Issued where
  origin : Origin
  document : NitroAttestationDocument

structure State where
  issued : List Issued := []
  appleAccepted : List Outcome := []
  androidAccepted : List Outcome := []
  hashed : List Bytes := []
  appleWitnesses : List (Witness AppleAppAttest × Issued) := []
  assertionWitnesses : List (Witness AppleAssertion × Issued) := []
  androidWitnesses : List (Witness AndroidKeyAttestation × Issued) := []

/-- Requests come with the answers of the Security Module and the enclave's wall
clock; calls of a verifier name an issued document by its position. -/
inductive Event (D : Deployment) where
  | registration (nsm : GenuineNsm D)
  | appleAttestation (nsm : GenuineNsm D) (req : AppleRequest) (stampMs : UInt64)
  | appleAssertion (nsm : GenuineNsm D) (req : AppleAssertionRequest) (stampMs : UInt64)
  | androidAttestation (nsm : GenuineNsm D) (req : AndroidRequest) (stampMs : UInt64)
  | otherImage (document : NitroAttestationDocument)
  | verifyAppleAttestation (i : ℕ) (attestedValue challenge detailHash : Bytes) (now : UInt64)
  | verifyAppleAssertion (i : ℕ) (attestedKey clientData : Bytes) (now : UInt64)
  | verifyAndroidAttestation (i : ℕ) (attestedValue challenge detailHash : Bytes) (now : UInt64)

/-- The fields an attestation endpoint binds and returns. -/
def triple (out : Outcome) : List Bytes := [out.attestedValue, out.challenge, out.detailHash]

/-- The fields the assertion endpoint binds and returns. -/
def pair (out : Outcome) : List Bytes := [out.attestedValue, out.challenge]

namespace State

variable (s : State)

/-- A payload is hashed, by the enclave or by a verifier. -/
def hash (fields : List Bytes) : State := { s with hashed := s.hashed ++ [Bcs.byteFields fields] }

def acceptApple (out : Outcome) : State :=
  { s.hash (triple out) with appleAccepted := s.appleAccepted ++ [out] }

def acceptAssertion (out : Outcome) : State := s.hash (pair out)

def acceptAndroid (out : Outcome) : State :=
  { s.hash (triple out) with androidAccepted := s.androidAccepted ++ [out] }

def addIssued (i : Issued) : State := { s with issued := s.issued ++ [i] }

def addAppleWitness (w : Witness AppleAppAttest × Issued) : State :=
  { s with appleWitnesses := s.appleWitnesses ++ [w] }

def addAssertionWitness (w : Witness AppleAssertion × Issued) : State :=
  { s with assertionWitnesses := s.assertionWitnesses ++ [w] }

def addAndroidWitness (w : Witness AndroidKeyAttestation × Issued) : State :=
  { s with androidWitnesses := s.androidWitnesses ++ [w] }

variable (D : Deployment)

/-- The document of a response is loaded and kept. -/
def issue (origin : Origin) (nsmDocHex : String) : State :=
  match Hex.decode nsmDocHex with
  | .error _ => s
  | .ok bytes =>
    match D.loadNitroAttestation bytes with
    | none => s
    | some document => s.addIssued ⟨origin, document⟩

/-- A request: once the platform verifier accepts it, its outcome is remembered,
and so is the document of the response, if there is one. -/
def answer (verified : Result AttestError Outcome) (nsmDocHex : Result AttestError String)
    (accept : State → Outcome → State) (origin : Outcome → Origin) : State :=
  match verified with
  | .error _ => s
  | .ok out =>
    match nsmDocHex with
    | .error _ => accept s out
    | .ok hex => (accept s out).issue D (origin out) hex

/-- An issued document is handed to a verifier with the fields of a payload. -/
def call {α : Type} (i : ℕ) (fields : List Bytes) (verify : NitroAttestationDocument → Tx α)
    (record : State → α × Issued → State) : State :=
  match s.issued[i]? with
  | none => s
  | some issued =>
    match verify issued.document with
    | .error _ => s.hash fields
    | .ok w => record (s.hash fields) (w, issued)

end State

variable (D : Deployment)

def step (s : State) : Event D → State
  | .registration nsm =>
    match attestationDoc D.server nsm.toNsm with
    | .error _ => s
    | .ok nsmDocHex => s.issue D .registration nsmDocHex
  | .appleAttestation nsm req stampMs =>
    s.answer D (verifyAppleRequest D.server req stampMs)
      ((attestAppleAttestation D.server nsm.toNsm req stampMs).map (·.nsmDocHex))
      .acceptApple (.appleAttestation req)
  | .appleAssertion nsm req stampMs =>
    s.answer D (verifyAssertionRequest D.server req stampMs)
      ((attestAppleAssertion D.server nsm.toNsm req stampMs).map (·.nsmDocHex))
      .acceptAssertion (.appleAssertion req)
  | .androidAttestation nsm req stampMs =>
    s.answer D (verifyAndroidRequest D.server req stampMs)
      ((attestAndroidAttestation D.server nsm.toNsm req stampMs).map (·.nsmDocHex))
      .acceptAndroid (.androidAttestation req)
  | .otherImage document =>
    if assertPcrsMatch D.policy document = .ok () then s else s.addIssued ⟨.otherImage, document⟩
  | .verifyAppleAttestation i a c d now =>
    s.call i [a, c, d]
      (fun doc => AppleAttestation.verify D.server.crates.sha256 D.policy doc a c d now)
      .addAppleWitness
  | .verifyAppleAssertion i k d now =>
    s.call i [k, d]
      (fun doc => AppleAssertion.verify D.server.crates.sha256 D.policy doc k d now)
      .addAssertionWitness
  | .verifyAndroidAttestation i a c d now =>
    s.call i [a, c, d]
      (fun doc => AndroidAttestation.verify D.server.crates.sha256 D.policy doc a c d now)
      .addAndroidWitness

/-! ### What a step can do -/

/-- A document the Security Module signed under the image. -/
structure Binds (userData : Bytes) (doc : NitroAttestationDocument) : Prop where
  publicKey : doc.publicKey = some D.server.verifyingKey
  userData : doc.userData = some userData ∨ userData = [] ∧ doc.userData = none
  pcrs : assertPcrsMatch D.policy doc = .ok ()

/-- A document bound to the payload with these fields. -/
def BindsFields (fields : List Bytes) (doc : NitroAttestationDocument) : Prop :=
  Binds D (D.server.crates.sha256 (Bcs.byteFields fields)).toList doc

/-- Every effect an event can have on a state. -/
inductive Effect (s : State) : Event D → State → Prop where
  | idle (e) : Effect s e s
  | registration {nsm doc} (hdoc : Binds D [] doc) :
    Effect s (.registration nsm) (s.addIssued ⟨.registration, doc⟩)
  | otherImage {doc} (hdoc : assertPcrsMatch D.policy doc ≠ .ok ()) :
    Effect s (.otherImage doc) (s.addIssued ⟨.otherImage, doc⟩)
  | appleAccepted {nsm req stampMs out} (hout : verifyAppleRequest D.server req stampMs = .ok out) :
    Effect s (.appleAttestation nsm req stampMs) (s.acceptApple out)
  | appleIssued {nsm req stampMs out doc}
    (hout : verifyAppleRequest D.server req stampMs = .ok out)
    (hdoc : BindsFields D (triple out) doc) :
    Effect s (.appleAttestation nsm req stampMs)
      ((s.acceptApple out).addIssued ⟨.appleAttestation req out, doc⟩)
  | assertionAccepted {nsm req stampMs out}
    (hout : verifyAssertionRequest D.server req stampMs = .ok out) :
    Effect s (.appleAssertion nsm req stampMs) (s.acceptAssertion out)
  | assertionIssued {nsm req stampMs out doc}
    (hout : verifyAssertionRequest D.server req stampMs = .ok out)
    (hdoc : BindsFields D (pair out) doc) :
    Effect s (.appleAssertion nsm req stampMs)
      ((s.acceptAssertion out).addIssued ⟨.appleAssertion req out, doc⟩)
  | androidAccepted {nsm req stampMs out}
    (hout : verifyAndroidRequest D.server req stampMs = .ok out) :
    Effect s (.androidAttestation nsm req stampMs) (s.acceptAndroid out)
  | androidIssued {nsm req stampMs out doc}
    (hout : verifyAndroidRequest D.server req stampMs = .ok out)
    (hdoc : BindsFields D (triple out) doc) :
    Effect s (.androidAttestation nsm req stampMs)
      ((s.acceptAndroid out).addIssued ⟨.androidAttestation req out, doc⟩)
  | appleCalled {i a c d now} : Effect s (.verifyAppleAttestation i a c d now) (s.hash [a, c, d])
  | appleWitnessed {i a c d now issued w} (hi : s.issued[i]? = some issued)
    (hw : AppleAttestation.verify D.server.crates.sha256 D.policy issued.document a c d now =
      .ok w) :
    Effect s (.verifyAppleAttestation i a c d now)
      ((s.hash [a, c, d]).addAppleWitness (w, issued))
  | assertionCalled {i k d now} : Effect s (.verifyAppleAssertion i k d now) (s.hash [k, d])
  | assertionWitnessed {i k d now issued w} (hi : s.issued[i]? = some issued)
    (hw : AppleAssertion.verify D.server.crates.sha256 D.policy issued.document k d now = .ok w) :
    Effect s (.verifyAppleAssertion i k d now) ((s.hash [k, d]).addAssertionWitness (w, issued))
  | androidCalled {i a c d now} :
    Effect s (.verifyAndroidAttestation i a c d now) (s.hash [a, c, d])
  | androidWitnessed {i a c d now issued w} (hi : s.issued[i]? = some issued)
    (hw : AndroidAttestation.verify D.server.crates.sha256 D.policy issued.document a c d now =
      .ok w) :
    Effect s (.verifyAndroidAttestation i a c d now)
      ((s.hash [a, c, d]).addAndroidWitness (w, issued))

variable {D} {s : State}

/-- A signed document is loaded and kept. -/
theorem issue_encode (s : State) (origin : Origin) {nsm : GenuineNsm D}
    {userData document : Bytes}
    (h : nsm.processRequest D.server.verifyingKey userData = .attestation document) :
    ∃ doc, s.issue D origin (Hex.encode document) = s.addIssued ⟨origin, doc⟩ ∧
      Binds D userData doc := by
  obtain ⟨doc, hload, hkey, huser, hpcrs⟩ := nsm.genuine _ _ h
  refine ⟨doc, ?_, hkey, huser, hpcrs⟩
  rw [State.issue, Hex.decode_encode]
  simp only [hload]

/-- A request changes nothing, is accepted, or is accepted and answered. -/
theorem answer_cases {verified : Result AttestError Outcome}
    {nsmDocHex : Result AttestError String} {accept : State → Outcome → State}
    {origin : Outcome → Origin} :
    s.answer D verified nsmDocHex accept origin = s ∨ ∃ out, verified = .ok out ∧
      (s.answer D verified nsmDocHex accept origin = accept s out ∨
        ∃ hex, nsmDocHex = .ok hex ∧
          s.answer D verified nsmDocHex accept origin = (accept s out).issue D (origin out) hex) := by
  rcases verified with f | out
  · exact .inl rfl
  · rcases nsmDocHex with f | hex
    · exact .inr ⟨out, rfl, .inl rfl⟩
    · exact .inr ⟨out, rfl, .inr ⟨hex, rfl, rfl⟩⟩

section Call

variable {α : Type} {i : ℕ} {fields : List Bytes} {verify : NitroAttestationDocument → Tx α}
  {record : State → α × Issued → State}

/-- A call leaves the state, hashes a payload, or records a witness. -/
theorem call_cases :
    s.call i fields verify record = s ∨ s.call i fields verify record = s.hash fields ∨
      ∃ issued w, s.issued[i]? = some issued ∧ verify issued.document = .ok w ∧
        s.call i fields verify record = record (s.hash fields) (w, issued) := by
  unfold State.call
  rcases hi : s.issued[i]? with _ | issued
  · exact .inl rfl
  · rcases hv : verify issued.document with f | w
    · exact .inr (.inl (by simp only [hv]))
    · exact .inr (.inr ⟨issued, w, rfl, hv, by simp only [hv]⟩)

theorem call_of_ok {issued : Issued} {w : α} (hi : s.issued[i]? = some issued)
    (hv : verify issued.document = .ok w) :
    s.call i fields verify record = record (s.hash fields) (w, issued) := by
  simp only [State.call, hi, hv]

end Call

theorem step_effect (s : State) (e : Event D) : Effect D s e (step D s e) := by
  cases e with
  | registration nsm =>
    rcases h : attestationDoc D.server nsm.toNsm with f | hex <;> simp only [step, h]
    · exact .idle _
    · obtain ⟨document, hdoc, rfl⟩ := attestationDoc_eq_ok h
      obtain ⟨doc, heq, hbinds⟩ := issue_encode s .registration hdoc
      exact heq ▸ .registration hbinds
  | appleAttestation nsm req stampMs =>
    rw [step]
    rcases answer_cases with h | ⟨out, hout, h | ⟨hex, hhex, h⟩⟩ <;> rw [h]
    · exact .idle _
    · exact .appleAccepted hout
    · obtain ⟨resp, hresp, rfl⟩ := map_eq_ok.mp hhex
      obtain ⟨out', document, hout', hdoc, rfl⟩ := attestAppleAttestation_eq_ok hresp
      obtain rfl := Except.ok.inj (hout.symm.trans hout')
      obtain ⟨doc, heq, hbinds⟩ := issue_encode (s.acceptApple out) (.appleAttestation req out) hdoc
      exact heq ▸ .appleIssued hout hbinds
  | appleAssertion nsm req stampMs =>
    rw [step]
    rcases answer_cases with h | ⟨out, hout, h | ⟨hex, hhex, h⟩⟩ <;> rw [h]
    · exact .idle _
    · exact .assertionAccepted hout
    · obtain ⟨resp, hresp, rfl⟩ := map_eq_ok.mp hhex
      obtain ⟨out', document, hout', hdoc, rfl⟩ := attestAppleAssertion_eq_ok hresp
      obtain rfl := Except.ok.inj (hout.symm.trans hout')
      obtain ⟨doc, heq, hbinds⟩ :=
        issue_encode (s.acceptAssertion out) (.appleAssertion req out) hdoc
      exact heq ▸ .assertionIssued hout hbinds
  | androidAttestation nsm req stampMs =>
    rw [step]
    rcases answer_cases with h | ⟨out, hout, h | ⟨hex, hhex, h⟩⟩ <;> rw [h]
    · exact .idle _
    · exact .androidAccepted hout
    · obtain ⟨resp, hresp, rfl⟩ := map_eq_ok.mp hhex
      obtain ⟨out', document, hout', hdoc, rfl⟩ := attestAndroidAttestation_eq_ok hresp
      obtain rfl := Except.ok.inj (hout.symm.trans hout')
      obtain ⟨doc, heq, hbinds⟩ :=
        issue_encode (s.acceptAndroid out) (.androidAttestation req out) hdoc
      exact heq ▸ .androidIssued hout hbinds
  | otherImage document =>
    rw [step]
    split_ifs with h
    · exact .idle _
    · exact .otherImage h
  | verifyAppleAttestation i a c d now =>
    rw [step]
    rcases call_cases with h | h | ⟨issued, w, hi, hw, h⟩ <;> rw [h]
    · exact .idle _
    · exact .appleCalled
    · exact .appleWitnessed hi hw
  | verifyAppleAssertion i k d now =>
    rw [step]
    rcases call_cases with h | h | ⟨issued, w, hi, hw, h⟩ <;> rw [h]
    · exact .idle _
    · exact .assertionCalled
    · exact .assertionWitnessed hi hw
  | verifyAndroidAttestation i a c d now =>
    rw [step]
    rcases call_cases with h | h | ⟨issued, w, hi, hw, h⟩ <;> rw [h]
    · exact .idle _
    · exact .androidCalled
    · exact .androidWitnessed hi hw

end Attestation.System
