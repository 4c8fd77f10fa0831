import Attestation.System.Documents

/-! What a response is worth on chain. Whoever holds one decodes its fields, loads its
document and calls the verifier of its platform; the call succeeds as long as the
document is fresh, and the witness is the outcome of the platform verifier under the
document's own time. -/

namespace Attestation.System

open Result Move Enclave

variable {D : Deployment}

/-- The document loads, and the call with it returns this witness while it is fresh, and
no other at any time. -/
def Redeems {Source : Type} (D : Deployment) (nsmDocHex : String)
    (verify : NitroAttestationDocument → UInt64 → Tx (Witness Source))
    (witness : UInt64 → Witness Source) : Prop :=
  ∃ bytes doc, Hex.decode nsmDocHex = .ok bytes ∧ D.loadNitroAttestation bytes = some doc ∧
    ∀ now w, verify doc now = .ok w ↔ Fresh doc.timestamp now ∧ w = witness doc.timestamp

/-- A document signed for some fields redeems at a verifier that accepts these. -/
theorem redeems_encode {Source : Type} {nsm : GenuineNsm D} {fields : List Bytes}
    {document : Bytes} {verify : NitroAttestationDocument → UInt64 → Tx (Witness Source)}
    {witness : UInt64 → Witness Source}
    (hverify : ∀ doc now w, verify doc now = .ok w ↔ Acceptable D.policy doc now ∧
      doc.userData = some (D.server.crates.sha256 (Bcs.byteFields fields)).toList ∧
      w = witness doc.timestamp)
    (h : nsm.processRequest D.server.verifyingKey
      (D.server.crates.sha256 (Bcs.byteFields fields)).toList = .attestation document) :
    Redeems D (Hex.encode document) verify witness := by
  obtain ⟨doc, hload, hkey, huser, hpcrs⟩ := nsm.genuine _ _ h
  have hsome : doc.userData = some (D.server.crates.sha256 (Bcs.byteFields fields)).toList := by
    refine huser.resolve_right ?_
    rintro ⟨hnil, -⟩
    simpa using congrArg List.length hnil
  refine ⟨document, doc, Hex.decode_encode _, hload, fun now w => ?_⟩
  rw [hverify]
  constructor
  · rintro ⟨haccept, -, rfl⟩
    exact ⟨haccept.fresh, rfl⟩
  · rintro ⟨hfresh, rfl⟩
    exact ⟨⟨hpcrs, hfresh, by rw [hkey]; rfl⟩, hsome, rfl⟩

/-- The fields of every response redeem at the verifier of its endpoint, for the outcome
that the platform verifier reached. -/
theorem responses_redeem (nsm : GenuineNsm D) (stampMs : UInt64) :
    (∀ req resp, attestAppleAttestation D.server nsm.toNsm req stampMs = .ok resp →
      ∃ out, verifyAppleRequest D.server req stampMs = .ok out ∧
        Hex.decode resp.attestedValueHex = .ok out.attestedValue ∧
        Hex.decode resp.challengeHex = .ok out.challenge ∧
        Hex.decode resp.detailHashHex = .ok out.detailHash ∧
        Redeems D resp.nsmDocHex (fun doc => AppleAttestation.verify D.server.crates.sha256
            D.policy doc out.attestedValue out.challenge out.detailHash)
          fun ts => ⟨out.attestedValue, out.challenge, ts, out.detailHash⟩) ∧
    (∀ req resp, attestAppleAssertion D.server nsm.toNsm req stampMs = .ok resp →
      ∃ out, verifyAssertionRequest D.server req stampMs = .ok out ∧
        Hex.decode resp.attestedKeyHex = .ok out.attestedValue ∧
        Hex.decode resp.clientDataHex = .ok out.challenge ∧
        Redeems D resp.nsmDocHex (fun doc => AppleAssertion.verify D.server.crates.sha256
            D.policy doc out.attestedValue out.challenge)
          fun ts => ⟨out.attestedValue, out.challenge, ts,
            (D.server.crates.sha256 (Bcs.byteFields (pair out))).toList⟩) ∧
    ∀ req resp, attestAndroidAttestation D.server nsm.toNsm req stampMs = .ok resp →
      ∃ out, verifyAndroidRequest D.server req stampMs = .ok out ∧
        Hex.decode resp.attestedValueHex = .ok out.attestedValue ∧
        Hex.decode resp.challengeHex = .ok out.challenge ∧
        Hex.decode resp.detailHashHex = .ok out.detailHash ∧
        Redeems D resp.nsmDocHex (fun doc => AndroidAttestation.verify D.server.crates.sha256
            D.policy doc out.attestedValue out.challenge out.detailHash)
          fun ts => ⟨out.attestedValue, out.challenge, ts, out.detailHash⟩ := by
  refine ⟨fun req resp h => ?_, fun req resp h => ?_, fun req resp h => ?_⟩
  · obtain ⟨out, document, hout, hdoc, rfl⟩ := attestAppleAttestation_eq_ok h
    exact ⟨out, hout, Hex.decode_encode _, Hex.decode_encode _, Hex.decode_encode _,
      redeems_encode (fun _ _ _ => appleAttestation_verify_eq_ok) hdoc⟩
  · obtain ⟨out, document, hout, hdoc, rfl⟩ := attestAppleAssertion_eq_ok h
    exact ⟨out, hout, Hex.decode_encode _, Hex.decode_encode _,
      redeems_encode (fun _ _ _ => appleAssertion_verify_eq_ok) hdoc⟩
  · obtain ⟨out, document, hout, hdoc, rfl⟩ := attestAndroidAttestation_eq_ok h
    exact ⟨out, hout, Hex.decode_encode _, Hex.decode_encode _, Hex.decode_encode _,
      redeems_encode (fun _ _ _ => androidAttestation_verify_eq_ok) hdoc⟩

theorem responses_redeem_sample : ∃ resp, ∃ out : Outcome,
    attestAndroidAttestation sampleServer sampleNsm.toNsm sampleAndroidRequest 0 = .ok resp ∧
      Redeems sampleDeployment resp.nsmDocHex (fun doc => AndroidAttestation.verify
          sampleServer.crates.sha256 sampleDeployment.policy doc out.attestedValue out.challenge
          out.detailHash)
        fun ts => ⟨out.attestedValue, out.challenge, ts, out.detailHash⟩ := by
  obtain ⟨resp, hresp⟩ := exists_eq_ok (x := attestAndroidAttestation sampleServer
    sampleNsm.toNsm sampleAndroidRequest 0) (by decide +kernel)
  obtain ⟨out, -, -, -, -, hredeems⟩ := (responses_redeem sampleNsm 0).2.2 _ _ hresp
  exact ⟨resp, out, hresp, hredeems⟩

end Attestation.System
