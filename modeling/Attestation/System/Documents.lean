import Attestation.System.Run

/-! What is known of every document of a run. A document of the pinned image binds
the payload of one accepted request, or nothing; a document of another image does
not pass the policy. With no collision among the hashed messages, a document that
a verifier accepts for some fields was issued for exactly these fields. -/

namespace Attestation.System

open Result Move Enclave

variable {D : Deployment} {s s' s'' : State}

/-- The fields bound to a document. -/
def Origin.fields : Origin → Option (List Bytes)
  | .appleAttestation _ out => some (triple out)
  | .androidAttestation _ out => some (triple out)
  | .appleAssertion _ out => some (pair out)
  | .registration => none
  | .otherImage => none

/-- The platform verifier accepted the request the document was issued for. -/
def Origin.Accepted (D : Deployment) (s : State) : Origin → Prop
  | .appleAttestation _ out => out ∈ s.appleAccepted
  | .androidAttestation req out =>
    out ∈ s.androidAccepted ∧ ∃ stampMs, verifyAndroidRequest D.server req stampMs = .ok out
  | _ => True

structure Genuine (D : Deployment) (s : State) (i : Issued) : Prop where
  image : assertPcrsMatch D.policy i.document = .ok () ↔ i.origin ≠ .otherImage
  publicKey : i.origin ≠ .otherImage → i.document.publicKey.isSome = true
  bound : ∀ fields, i.origin.fields = some fields →
    i.document.userData = some (D.server.crates.sha256 (Bcs.byteFields fields)).toList ∧
      Bcs.byteFields fields ∈ s.hashed
  unbound : i.origin = .registration → i.document.userData = none ∨ i.document.userData = some []
  accepted : i.origin.Accepted D s

theorem Genuine.appleAccepted {i : Issued} (h : Genuine D s i) {req : AppleRequest}
    {out : Outcome} (horigin : i.origin = .appleAttestation req out) : out ∈ s.appleAccepted := by
  have haccepted := h.accepted
  rwa [horigin] at haccepted

theorem Genuine.androidAccepted {i : Issued} (h : Genuine D s i) {req : AndroidRequest}
    {out : Outcome} (horigin : i.origin = .androidAttestation req out) :
    out ∈ s.androidAccepted ∧ ∃ stampMs, verifyAndroidRequest D.server req stampMs = .ok out := by
  have haccepted := h.accepted
  rwa [horigin] at haccepted

/-- Hashed messages and accepted outcomes are never forgotten. -/
structure Extends (s s' : State) : Prop where
  hashed : s.hashed ⊆ s'.hashed
  appleAccepted : s.appleAccepted ⊆ s'.appleAccepted
  androidAccepted : s.androidAccepted ⊆ s'.androidAccepted

theorem extends_step (e : Event D) : Extends s (step D s e) := by
  have heffect := step_effect s e
  generalize step D s e = s' at heffect ⊢
  cases heffect <;> constructor <;>
    simp [State.addIssued, State.acceptApple, State.acceptAssertion, State.acceptAndroid,
      State.hash, State.addAppleWitness, State.addAssertionWitness, State.addAndroidWitness]

theorem Genuine.extend {i : Issued} (h : Genuine D s i) (hext : Extends s s') : Genuine D s' i where
  image := h.image
  publicKey := h.publicKey
  bound fields hfields := (h.bound fields hfields).imp_right fun hmem => hext.hashed hmem
  unbound := h.unbound
  accepted := by
    have haccepted := h.accepted
    unfold Origin.Accepted at haccepted ⊢
    split at haccepted
    · exact hext.appleAccepted haccepted
    · exact haccepted.imp_left fun hmem => hext.androidAccepted hmem
    · trivial

/-- A document bound to an accepted payload is genuine. -/
theorem genuine_of_bindsFields {origin : Origin} {fields : List Bytes}
    {doc : NitroAttestationDocument} (hfields : origin.fields = some fields)
    (hdoc : BindsFields D fields doc) (hhashed : Bcs.byteFields fields ∈ s.hashed)
    (haccepted : origin.Accepted D s) : Genuine D s ⟨origin, doc⟩ where
  image := iff_of_true hdoc.pcrs (by rintro rfl; cases hfields)
  publicKey _ := by rw [hdoc.publicKey]; rfl
  bound fields' hfields' := by
    obtain rfl := Option.some.inj (hfields.symm.trans hfields')
    refine ⟨hdoc.userData.resolve_right ?_, hhashed⟩
    rintro ⟨hnil, -⟩
    simpa using congrArg List.length hnil
  unbound horigin := by
    obtain rfl : origin = .registration := horigin
    cases hfields
  accepted := haccepted

theorem genuine_registration {doc : NitroAttestationDocument} (hdoc : Binds D [] doc) :
    Genuine D s ⟨.registration, doc⟩ where
  image := iff_of_true hdoc.pcrs (fun h => nomatch h)
  publicKey _ := by rw [hdoc.publicKey]; rfl
  bound _ hfields := nomatch hfields
  unbound _ := hdoc.userData.symm.imp_left And.right
  accepted := trivial

theorem genuine_otherImage {doc : NitroAttestationDocument}
    (hdoc : assertPcrsMatch D.policy doc ≠ .ok ()) : Genuine D s ⟨.otherImage, doc⟩ where
  image := iff_of_false hdoc (fun h => h rfl)
  publicKey h := absurd rfl h
  bound _ hfields := nomatch hfields
  unbound h := nomatch h
  accepted := trivial

/-- Every document of a state is genuine. -/
def AllGenuine (D : Deployment) (s : State) : Prop := ∀ i ∈ s.issued, Genuine D s i

/-- A document after a step is an earlier one or a genuine one the step issued. -/
theorem mem_issued_step {e : Event D} {i : Issued} (h : i ∈ (step D s e).issued) :
    i ∈ s.issued ∨ Genuine D (step D s e) i := by
  have heffect := step_effect s e
  generalize step D s e = s' at heffect h ⊢
  cases heffect with
  | idle | appleCalled | appleWitnessed | assertionCalled | assertionWitnessed | androidCalled
  | androidWitnessed | appleAccepted | assertionAccepted | androidAccepted => exact .inl h
  | registration hdoc =>
    rcases List.mem_append.mp h with h | h
    · exact .inl h
    · obtain rfl := List.mem_singleton.mp h
      exact .inr (genuine_registration hdoc)
  | otherImage hdoc =>
    rcases List.mem_append.mp h with h | h
    · exact .inl h
    · obtain rfl := List.mem_singleton.mp h
      exact .inr (genuine_otherImage hdoc)
  | appleIssued hout hdoc =>
    rcases List.mem_append.mp h with h | h
    · exact .inl h
    · obtain rfl := List.mem_singleton.mp h
      exact .inr (genuine_of_bindsFields rfl hdoc (List.mem_append_right _ (by simp))
        (List.mem_append_right _ (by simp)))
  | assertionIssued hout hdoc =>
    rcases List.mem_append.mp h with h | h
    · exact .inl h
    · obtain rfl := List.mem_singleton.mp h
      exact .inr (genuine_of_bindsFields rfl hdoc (List.mem_append_right _ (by simp)) trivial)
  | androidIssued hout hdoc =>
    rcases List.mem_append.mp h with h | h
    · exact .inl h
    · obtain rfl := List.mem_singleton.mp h
      exact .inr (genuine_of_bindsFields rfl hdoc (List.mem_append_right _ (by simp))
        ⟨List.mem_append_right _ (by simp), _, hout⟩)

theorem allGenuine_step (h : AllGenuine D s) (e : Event D) : AllGenuine D (step D s e) := by
  intro i hi
  rcases mem_issued_step hi with hi | hi
  · exact (h i hi).extend (extends_step e)
  · exact hi

theorem allGenuine_run (events : List (Event D)) : AllGenuine D (run (step D) {} events) :=
  run_invariant (fun _ e h => allGenuine_step h e) (fun _ hi => nomatch hi)

/-! ### What an accepted call says about its document -/

/-- A document of the image whose user data is the hash of a payload was issued for
the payload's fields. -/
theorem fields_of_accepted {i : Issued} {fields : List Bytes} {messages : List Bytes}
    (hi : Genuine D s i) (himage : i.origin ≠ .otherImage)
    (huser : i.document.userData = some (D.server.crates.sha256 (Bcs.byteFields fields)).toList)
    (hhash : CollisionFreeOn D.server.crates.sha256 messages) (hsub : s.hashed ⊆ messages)
    (hmem : Bcs.byteFields fields ∈ messages) : i.origin.fields = some fields := by
  rcases hf : i.origin.fields with _ | fields'
  · -- a document that binds nothing has no user data of the length of a hash
    have hregistration : i.origin = .registration := by
      cases horigin : i.origin <;> simp_all [Origin.fields]
    rcases hi.unbound hregistration with hnone | hnil
    · rw [hnone] at huser
      cases huser
    · rw [hnil, Option.some.injEq] at huser
      simpa using congrArg List.length huser
  · obtain ⟨huser', hmem'⟩ := hi.bound fields' hf
    rw [huser, Option.some.injEq, Vector.toList_inj] at huser'
    exact congrArg some (Bcs.byteFields_injective (hhash _ (hsub hmem') _ hmem huser'.symm))

/-! ### A small deployment -/

section Sample

/-- A deployment whose Security Module signs a document that is its user data. -/
def echoDeployment (server : Server) : Deployment where
  server := server
  policy := ⟨[0], [1], [2]⟩
  loadNitroAttestation document :=
    some ⟨1000, some document, some server.verifyingKey, [⟨0, [0]⟩, ⟨1, [1]⟩, ⟨2, [2]⟩]⟩

def echoNsm (server : Server) : GenuineNsm (echoDeployment server) where
  init := 0
  processRequest _ userData := .attestation userData
  genuine userData document h := by
    obtain rfl := NsmResponse.attestation.inj h
    exact ⟨_, rfl, rfl, .inl rfl, rfl⟩

/-- An Android key at the given security level, under the root `[2]`. -/
def sampleAndroidLeaf (der challenge : Bytes) (level : UInt8) : Certificate :=
  Crates.issue der [1] [0x0B] [0x0A] [Android.KeyDescription.extension level challenge
    (Android.KeyDescription.rootOfTrustElement [9] 0xFF 0)]

def sampleServer : Server where
  crates := .ofTables [sampleAndroidLeaf [1] [7] 1,
    Crates.issue [2] [2] [0x0A] [0x0A] [Crates.caExtension], sampleAndroidLeaf [3] [8] 0] []
  appleRootDer := [0x1F]
  pinnedRootsDer := [[2]]
  verifyingKey := [0xEE]

def sampleDeployment : Deployment := echoDeployment sampleServer

def sampleNsm : GenuineNsm sampleDeployment := echoNsm sampleServer

def sampleAndroidRequest : AndroidRequest := { chainHex := ["01", "02"], challengeHex := "07" }

/-- A request that accepts a key kept in software. -/
def sampleSoftwareRequest : AndroidRequest :=
  { chainHex := ["03", "02"], challengeHex := "08", minSecurityLevel := some "software" }

/-- The attested value of both sample Android chains. -/
def sampleSpki : Bytes := Der.tlv .sequence
  (AlgorithmIdentifier.toDer ⟨.ecPublicKey, some (.ofOid .secp256r1)⟩ ++
    BitString.toDer ⟨0, [0x0B]⟩)

def sampleChainHash (chain : List Bytes) : Bytes :=
  (sha256 (Android.canonicalChainHashInput chain)).toList

/-- An Android document at the verifier of its own platform. -/
def androidUse : List (Event sampleDeployment) :=
  [.androidAttestation sampleNsm sampleAndroidRequest 0,
    .verifyAndroidAttestation 0 sampleSpki [7] (sampleChainHash [[1], [2]]) 1000]

end Sample

end Attestation.System
