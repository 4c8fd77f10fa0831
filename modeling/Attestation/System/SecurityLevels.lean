import Attestation.System.Witnesses

/-! What an Android witness says about where its key is kept. The level a request
must meet is the requester's to choose and is not bound to the document, so a key
kept in software can become a witness; it does exactly when a document issued for
such a request is presented. -/

namespace Attestation.System

open Result Move Enclave

variable {D : Deployment} {s : State}

/-- The chain of an Android request, its leaf and what the leaf says of its key. -/
structure AttestedLeaf where
  chain : List Bytes
  leaf : Certificate
  description : Android.KeyDescription

def attestedLeaf (server : Server) (req : AndroidRequest) : Option AttestedLeaf := do
  let chain ← Except.toOption (decodeHexList "chain" req.chainHex)
  let der ← chain.head?
  let leaf ← Except.toOption (server.crates.certificateFromDer der)
  let ext ← leaf.tbsCertificate.findExtension Android.oidAndroidKeyAttestation
  let description ← Except.toOption (Android.KeyDescription.fromDer ext.extnValue)
  pure ⟨chain, leaf, description⟩

/-- The key, the challenge and the chain's hash. -/
def AttestedLeaf.fields (sha256 : Bytes → Digest) (l : AttestedLeaf) : Option (List Bytes) :=
  (Except.toOption l.leaf.tbsCertificate.subjectPublicKeyInfo.toDer).map fun spkiDer =>
    [spkiDer, l.description.attestationChallenge,
      (sha256 (Android.canonicalChainHashInput l.chain)).toList]

/-- Both security levels are at least the TEE. -/
def HardwareBacked (kd : Android.KeyDescription) : Prop :=
  kd.attestationSecurityLevel.meets .trustedEnvironment = true ∧
    kd.keymintSecurityLevel.meets .trustedEnvironment = true

instance : DecidablePred HardwareBacked := fun _ => inferInstanceAs (Decidable (_ ∧ _))

def Origin.androidRequest : Origin → Option AndroidRequest
  | .androidAttestation req _ => some req
  | _ => none

/-- The witnesses of documents issued for Android requests are for the leaves of the
requests' chains, and these keys are kept in hardware. -/
def HardwareWitnesses (D : Deployment) (s : State) : Prop :=
  ∀ p ∈ s.androidWitnesses, ∀ req ∈ p.2.origin.androidRequest,
    ∃ l ∈ attestedLeaf D.server req,
      l.fields D.server.crates.sha256 = some (vouched p.1) ∧ HardwareBacked l.description

instance : DecidablePred (HardwareWitnesses D) := fun s =>
  inferInstanceAs (Decidable (∀ p ∈ s.androidWitnesses, ∀ req ∈ p.2.origin.androidRequest, _))

/-- The request asks for no more than software, and its key is not kept in hardware. -/
def WeakRequest (server : Server) (req : AndroidRequest) : Prop :=
  req.minSecurityLevel = some "software" ∧
    ∃ l ∈ attestedLeaf server req, ¬ HardwareBacked l.description

instance (server : Server) : DecidablePred (WeakRequest server) := fun req =>
  inferInstanceAs (Decidable (_ ∧ ∃ l ∈ attestedLeaf server req, _))

/-- A document issued for a weak request is presented to the Android verifier, fresh
and with its own fields. -/
def WeakUse (s : State) : Event D → Prop
  | .verifyAndroidAttestation i a c d now =>
    Presents s (fun o => ∃ req ∈ o.androidRequest, WeakRequest D.server req) i [a, c, d] now
  | _ => False

instance (s : State) (e : Event D) : Decidable (WeakUse s e) := by
  cases e <;> unfold WeakUse <;> infer_instance

/-! ### An accepted request -/

theorem Origin.eq_of_mem_androidRequest {o : Origin} {req : AndroidRequest}
    (h : req ∈ o.androidRequest) : ∃ out, o = .androidAttestation req out := by
  cases o with
  | androidAttestation req' out =>
    obtain rfl := Option.some.inj h
    exact ⟨out, rfl⟩
  | _ => cases h

/-- An accepted request is for the leaf of its chain, whose key is kept in hardware
unless the request asked for software. -/
theorem attestedLeaf_of_verifyAndroidRequest {req : AndroidRequest} {stampMs : UInt64}
    {out : Outcome} (h : verifyAndroidRequest D.server req stampMs = .ok out) :
    ∃ l ∈ attestedLeaf D.server req, l.fields D.server.crates.sha256 = some (triple out) ∧
      (req.minSecurityLevel ≠ some "software" → HardwareBacked l.description) := by
  simp only [verifyAndroidRequest, bind_eq_ok, mapErr_eq_ok, Android.verifyAttestation_eq_ok] at h
  obtain ⟨chain, hchain, challenge, -, level, hlevel, _, -, _, -, leaf, kd, spkiDer, hchecks, -,
    rfl⟩ := h
  obtain ⟨der, hder, hleaf⟩ := Android.leaf_of_validateChain hchecks.chainValid
  obtain ⟨ext, hext, hkd⟩ := hchecks.described
  refine ⟨⟨chain, leaf, kd⟩, ?_, ?_, fun hminimum => ?_⟩
  · simp [attestedLeaf, hchain, hder, hleaf, hext, hkd, Except.toOption]
  · simp [AttestedLeaf.fields, hchecks.encoded, hchecks.challenge_eq, Except.toOption, triple,
      Android.androidOutcome]
  · have hrank := parseSecurityLevel_eq_ok hlevel hminimum
    exact ⟨Android.SecurityLevel.meets_iff.mpr
        (hrank.trans (Android.SecurityLevel.meets_iff.mp hchecks.attestationLevel)),
      Android.SecurityLevel.meets_iff.mpr
        (hrank.trans (Android.SecurityLevel.meets_iff.mp hchecks.keymintLevel))⟩

/-! ### One step and a run -/

theorem hardwareWitnesses_step {e : Event D} (hgenuine : AllGenuine D s)
    (hhash : CollisionFreeOn D.server.crates.sha256 (step D s e).hashed)
    (h : HardwareWitnesses D s) (hweak : ¬ WeakUse s e) : HardwareWitnesses D (step D s e) := by
  intro p hp req hreq
  rcases mem_androidWitnesses_step hgenuine hhash hp with
    hp | ⟨i, now, a, c, d, rfl, hi, hfields, hfresh, hvouched⟩
  · exact h p hp req hreq
  · obtain ⟨out, horigin⟩ := Origin.eq_of_mem_androidRequest hreq
    obtain ⟨-, stampMs, hout⟩ := (hgenuine p.2 (List.mem_of_getElem? hi)).androidAccepted horigin
    rw [horigin] at hfields
    obtain ⟨l, hl, htriple, hhardware⟩ := attestedLeaf_of_verifyAndroidRequest hout
    have hvouched' : vouched p.1 = triple out := hvouched.trans (Option.some.inj hfields).symm
    refine ⟨l, hl, hvouched' ▸ htriple, ?_⟩
    by_contra hsoftware
    have hminimum : req.minSecurityLevel = some "software" := by
      by_contra hne
      exact hsoftware (hhardware hne)
    exact hweak ⟨p.2, hi, ⟨req, hreq, hminimum, l, hl, hsoftware⟩, by rw [horigin]; exact hfields,
      hfresh⟩

theorem not_hardwareWitnesses_of_weakUse {e : Event D} (hgenuine : AllGenuine D s)
    (hweak : WeakUse s e) : ¬ HardwareWitnesses D (step D s e) := by
  intro hhardware
  cases e with
  | verifyAndroidAttestation i a c d now =>
    obtain ⟨issued, hi, ⟨req, hreq, -, l, hl, hsoftware⟩, hfields, hfresh⟩ := hweak
    rw [step_verifyAndroidAttestation hgenuine hi hfields hfresh] at hhardware
    obtain ⟨l', hl', -, hbacked⟩ := hhardware _
      (List.mem_append_right _ (List.mem_singleton.mpr rfl)) req hreq
    obtain rfl := Option.mem_unique hl hl'
    exact hsoftware hbacked
  | _ => exact hweak

/-- In a run without collisions the Android witnesses are of keys kept in hardware
exactly when no step uses a document issued for a weak request. -/
theorem hardwareWitnesses_iff_noWeakUse (events : List (Event D))
    (hhash : CollisionFreeOn D.server.crates.sha256 (run (step D) {} events).hashed) :
    Always (step D) (HardwareWitnesses D) {} events ↔
      EachStep (step D) (fun s e => ¬ WeakUse s e) {} events := by
  have hinv : ∀ s (e : Event D), AllGenuine D s → AllGenuine D (step D s e) :=
    fun _ e h => allGenuine_step h e
  refine always_iff_eachStep (K := fun s => CollisionFreeOn D.server.crates.sha256 s.hashed)
    (fun s e h => h.mono (extends_step e).hashed) hinv ?_ hhash ?_ ?_
  · intro s e hK hgenuine hP
    exact ⟨fun hs hweak => not_hardwareWitnesses_of_weakUse hgenuine hweak hs,
      hardwareWitnesses_step hgenuine hK hP⟩
  · exact fun _ h => nomatch h
  · exact fun _ h => nomatch h

section Sample

theorem hardwareWitnesses_iff_noWeakUse_sample :
    Always (step sampleDeployment) (HardwareWitnesses sampleDeployment) {} androidUse ∧
      (run (step sampleDeployment) {} androidUse).androidWitnesses.length = 1 :=
  ⟨(hardwareWitnesses_iff_noWeakUse androidUse (by decide +kernel)).mpr (by decide +kernel),
    by decide +kernel⟩

/-- A key kept in software, attested under a request that accepts this. -/
def softwareUse : List (Event sampleDeployment) :=
  [.androidAttestation sampleNsm sampleSoftwareRequest 0,
    .verifyAndroidAttestation 0 sampleSpki [8] (sampleChainHash [[3], [2]]) 1000]

theorem softwareUse_not_hardware :
    CollisionFreeOn sha256 (run (step sampleDeployment) {} softwareUse).hashed ∧
      ¬ Always (step sampleDeployment) (HardwareWitnesses sampleDeployment) {} softwareUse := by
  decide +kernel

end Sample

end Attestation.System
