import Attestation.System.Documents

/-! Documents of one endpoint at the verifiers of another. The hashed bytes carry no
tag, so what keeps the kinds apart is the number of fields: an assertion binds two,
an attestation three, and a registration document binds nothing. -/

namespace Attestation.System

open Move Enclave

variable {D : Deployment} {s : State} {i : Issued}

/-- The number of fields an endpoint binds. -/
def Endpoint.fieldCount : Endpoint → Option ℕ
  | .registration => none
  | .appleAttestation => some 3
  | .appleAssertion => some 2
  | .androidAttestation => some 3

theorem Origin.map_length_fields (o : Origin) :
    o.fields.map List.length = o.endpoint.bind Endpoint.fieldCount := by
  cases o <;> rfl

/-- No document has the user data of a payload with more or fewer fields than its
endpoint binds. -/
theorem userData_ne {e : Endpoint} {fields : List Bytes} {messages : List Bytes}
    (hi : Genuine D s i) (hendpoint : i.origin.endpoint = some e)
    (hcount : e.fieldCount ≠ some fields.length)
    (hhash : CollisionFreeOn D.server.crates.sha256 messages) (hsub : s.hashed ⊆ messages)
    (hmem : Bcs.byteFields fields ∈ messages) :
    i.document.userData ≠ some (D.server.crates.sha256 (Bcs.byteFields fields)).toList := by
  intro huser
  have himage : i.origin ≠ .otherImage := by
    intro h
    rw [h] at hendpoint
    cases hendpoint
  have hfields := fields_of_accepted hi himage huser hhash hsub hmem
  have hlength := i.origin.map_length_fields
  rw [hfields, hendpoint] at hlength
  exact hcount hlength.symm

/-- In every run, assertion and registration documents are rejected by the
attestation verifiers, and attestation and registration documents by the assertion
verifier, whatever the arguments. -/
theorem documentKinds_separate (events : List (Event D)) (hi : i ∈ (run (step D) {} events).issued)
    (policy : EnclavePolicy) (a c d k m : Bytes) (now : UInt64)
    (hhash : CollisionFreeOn D.server.crates.sha256
      (Bcs.byteFields [a, c, d] :: Bcs.byteFields [k, m] :: (run (step D) {} events).hashed)) :
    (i.origin.endpoint = some .appleAssertion ∨ i.origin.endpoint = some .registration →
      (∃ f, AppleAttestation.verify D.server.crates.sha256 policy i.document a c d now =
        .error f) ∧
      ∃ f, AndroidAttestation.verify D.server.crates.sha256 policy i.document a c d now =
        .error f) ∧
    (i.origin.endpoint = some .appleAttestation ∨ i.origin.endpoint = some .androidAttestation ∨
        i.origin.endpoint = some .registration →
      ∃ f, AppleAssertion.verify D.server.crates.sha256 policy i.document k m now = .error f) := by
  have hgenuine : Genuine D (run (step D) {} events) i := allGenuine_run events i hi
  have hsub : (run (step D) {} events).hashed ⊆
      Bcs.byteFields [a, c, d] :: Bcs.byteFields [k, m] :: (run (step D) {} events).hashed :=
    fun _ h => by simp [h]
  constructor
  · intro hendpoint
    have huser : i.document.userData ≠
        some (D.server.crates.sha256 (Bcs.byteFields [a, c, d])).toList := by
      rcases hendpoint with h | h
      · exact userData_ne hgenuine h (by simp [Endpoint.fieldCount]) hhash hsub (by simp)
      · exact userData_ne hgenuine h (by simp [Endpoint.fieldCount]) hhash hsub (by simp)
    exact ⟨Result.exists_eq_error fun w hw => huser (appleAttestation_verify_eq_ok.mp hw).2.1,
      Result.exists_eq_error fun w hw => huser (androidAttestation_verify_eq_ok.mp hw).2.1⟩
  · intro hendpoint
    have huser : i.document.userData ≠
        some (D.server.crates.sha256 (Bcs.byteFields [k, m])).toList := by
      rcases hendpoint with h | h | h
      · exact userData_ne hgenuine h (by simp [Endpoint.fieldCount]) hhash hsub (by simp)
      · exact userData_ne hgenuine h (by simp [Endpoint.fieldCount]) hhash hsub (by simp)
      · exact userData_ne hgenuine h (by simp [Endpoint.fieldCount]) hhash hsub (by simp)
    exact Result.exists_eq_error fun w hw => huser (appleAssertion_verify_eq_ok.mp hw).2.1

/-- A registration and an Android attestation. -/
def sampleRegistrations : List (Event sampleDeployment) :=
  [.registration sampleNsm, .androidAttestation sampleNsm sampleAndroidRequest 0]

/-- A registration and an Android document are not assertions. -/
theorem documentKinds_separate_sample :
    (run (step sampleDeployment) {} sampleRegistrations).issued.map (·.origin.endpoint) =
        [some .registration, some .androidAttestation] ∧
      ∀ i ∈ (run (step sampleDeployment) {} sampleRegistrations).issued,
        ∃ f, AppleAssertion.verify sha256 sampleDeployment.policy i.document [1] [2] 0 =
          .error f := by
  have hendpoints : (run (step sampleDeployment) {} sampleRegistrations).issued.map
      (·.origin.endpoint) = [some .registration, some .androidAttestation] := by
    decide +kernel
  refine ⟨hendpoints, fun i hi => ?_⟩
  have hmem := List.mem_map_of_mem (f := fun i : Issued => i.origin.endpoint) hi
  rw [hendpoints, List.mem_pair] at hmem
  have hsep := documentKinds_separate sampleRegistrations hi sampleDeployment.policy [] [] []
    [1] [2] 0 (by decide +kernel)
  refine hsep.2 ?_
  rcases hmem with h | h
  · exact .inr (.inr h)
  · exact .inr (.inl h)

end Attestation.System
