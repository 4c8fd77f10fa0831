import Attestation.Apple.AssertionBinding
import Attestation.Enclave.Clock
import Attestation.System.Documents

/-! The two encodings of a payload. The enclave and the chain each declare the
payload structs for themselves; the encodings agree field by field and are
unambiguous, so the document of a response passes the verifier's check of its user
data for exactly the fields the response returns. -/

namespace Attestation.System

open Result Move Enclave

variable {D : Deployment}

/-! ### The encodings on chain -/

theorem applePayload_toBcs_injective :
    Function.Injective AppleAttestation.ApplePayload.toBcs := by
  rintro ⟨a, c, d⟩ ⟨a', c', d'⟩ h
  obtain ⟨rfl, rfl, rfl⟩ : a = a' ∧ c = c' ∧ d = d' := by
    simpa using Bcs.byteFields_injective h
  rfl

theorem assertionPayload_toBcs_injective :
    Function.Injective AppleAssertion.AssertionPayload.toBcs := by
  rintro ⟨k, m⟩ ⟨k', m'⟩ h
  obtain ⟨rfl, rfl⟩ : k = k' ∧ m = m' := by
    simpa using Bcs.byteFields_injective h
  rfl

theorem androidPayload_toBcs_injective :
    Function.Injective AndroidAttestation.AndroidPayload.toBcs := by
  rintro ⟨a, c, d⟩ ⟨a', c', d'⟩ h
  obtain ⟨rfl, rfl, rfl⟩ : a = a' ∧ c = c' ∧ d = d' := by
    simpa using Bcs.byteFields_injective h
  rfl

/-! ### The document of a response -/

/-- The document loads, and passes the check of its user data for this payload and,
unless two of the encodings collide, for no other. -/
def BoundTo {π : Type} (D : Deployment) (nsmDocHex : String) (toBcs : π → Bytes) (payload : π) :
    Prop :=
  ∃ bytes doc, Hex.decode nsmDocHex = .ok bytes ∧ D.loadNitroAttestation bytes = some doc ∧
    ∀ other, CollisionFreeOn D.server.crates.sha256 [toBcs other, toBcs payload] →
      ((∃ hash, assertUserData D.server.crates.sha256 doc (toBcs other) = .ok hash) ↔
        other = payload)

theorem boundTo_encode {π : Type} {toBcs : π → Bytes} (hinj : Function.Injective toBcs)
    {nsm : GenuineNsm D} {payload : π} {document : Bytes}
    (h : nsm.processRequest D.server.verifyingKey
      (D.server.crates.sha256 (toBcs payload)).toList = .attestation document) :
    BoundTo D (Hex.encode document) toBcs payload := by
  obtain ⟨doc, hload, -, huser, -⟩ := nsm.genuine _ _ h
  have hsome : doc.userData = some (D.server.crates.sha256 (toBcs payload)).toList := by
    refine huser.resolve_right ?_
    rintro ⟨hnil, -⟩
    simpa using congrArg List.length hnil
  refine ⟨document, doc, Hex.decode_encode _, hload, fun other hhash => ⟨?_, ?_⟩⟩
  · rintro ⟨hash, hcheck⟩
    have hother := (assertUserData_eq_ok.mp hcheck).1
    rw [hsome, Option.some.injEq, Vector.toList_inj] at hother
    exact hinj (hhash _ (by simp) _ (by simp) hother.symm)
  · rintro rfl
    exact ⟨_, assertUserData_eq_ok.mpr ⟨hsome, rfl⟩⟩

/-! ### The three endpoints -/

/-- At each endpoint: the enclave encodes short fields as the chain does, the encoding
determines the fields, and a response's document is bound to the fields returned. -/
theorem payloads_bound (nsm : GenuineNsm D) :
    ((∀ p : AppleAttestation.ApplePayload,
        let fields := (ApplePayload.mk p.attestedValue p.challenge p.detailHash).fields
        (∀ f ∈ fields, f.length < 2 ^ 31) → Bcs.toBytes fields = .ok p.toBcs) ∧
      Function.Injective AppleAttestation.ApplePayload.toBcs ∧
      ∀ req stampMs resp, attestAppleAttestation D.server nsm.toNsm req stampMs = .ok resp →
        ∃ p : AppleAttestation.ApplePayload, Hex.decode resp.attestedValueHex = .ok p.attestedValue ∧
          Hex.decode resp.challengeHex = .ok p.challenge ∧
          Hex.decode resp.detailHashHex = .ok p.detailHash ∧
          BoundTo D resp.nsmDocHex AppleAttestation.ApplePayload.toBcs p) ∧
    ((∀ p : AppleAssertion.AssertionPayload,
        let fields := (AssertionPayload.mk p.attestedKey p.clientData).fields
        (∀ f ∈ fields, f.length < 2 ^ 31) → Bcs.toBytes fields = .ok p.toBcs) ∧
      Function.Injective AppleAssertion.AssertionPayload.toBcs ∧
      ∀ req stampMs resp, attestAppleAssertion D.server nsm.toNsm req stampMs = .ok resp →
        ∃ p : AppleAssertion.AssertionPayload, Hex.decode resp.attestedKeyHex = .ok p.attestedKey ∧
          Hex.decode resp.clientDataHex = .ok p.clientData ∧
          BoundTo D resp.nsmDocHex AppleAssertion.AssertionPayload.toBcs p) ∧
    ((∀ p : AndroidAttestation.AndroidPayload,
        let fields := (AndroidPayload.mk p.attestedValue p.challenge p.detailHash).fields
        (∀ f ∈ fields, f.length < 2 ^ 31) → Bcs.toBytes fields = .ok p.toBcs) ∧
      Function.Injective AndroidAttestation.AndroidPayload.toBcs ∧
      ∀ req stampMs resp, attestAndroidAttestation D.server nsm.toNsm req stampMs = .ok resp →
        ∃ p : AndroidAttestation.AndroidPayload,
          Hex.decode resp.attestedValueHex = .ok p.attestedValue ∧
          Hex.decode resp.challengeHex = .ok p.challenge ∧
          Hex.decode resp.detailHashHex = .ok p.detailHash ∧
          BoundTo D resp.nsmDocHex AndroidAttestation.AndroidPayload.toBcs p) := by
  refine ⟨⟨?_, applePayload_toBcs_injective, ?_⟩, ⟨?_, assertionPayload_toBcs_injective, ?_⟩,
    ⟨?_, androidPayload_toBcs_injective, ?_⟩⟩
  · exact fun p hshort => Bcs.toBytes_of_short hshort
  · intro req stampMs resp h
    obtain ⟨out, document, -, hdoc, rfl⟩ := attestAppleAttestation_eq_ok h
    exact ⟨⟨out.attestedValue, out.challenge, out.detailHash⟩, Hex.decode_encode _,
      Hex.decode_encode _, Hex.decode_encode _, boundTo_encode applePayload_toBcs_injective hdoc⟩
  · exact fun p hshort => Bcs.toBytes_of_short hshort
  · intro req stampMs resp h
    obtain ⟨out, document, -, hdoc, rfl⟩ := attestAppleAssertion_eq_ok h
    exact ⟨⟨out.attestedValue, out.challenge⟩, Hex.decode_encode _, Hex.decode_encode _,
      boundTo_encode assertionPayload_toBcs_injective hdoc⟩
  · exact fun p hshort => Bcs.toBytes_of_short hshort
  · intro req stampMs resp h
    obtain ⟨out, document, -, hdoc, rfl⟩ := attestAndroidAttestation_eq_ok h
    exact ⟨⟨out.attestedValue, out.challenge, out.detailHash⟩, Hex.decode_encode _,
      Hex.decode_encode _, Hex.decode_encode _, boundTo_encode androidPayload_toBcs_injective hdoc⟩

section Sample

def assertionServer : Server := ⟨Apple.AssertionSample.crates, [], [], [9]⟩

def assertionRequest : AppleAssertionRequest :=
  ⟨"a3", "07", Hex.encode Apple.AssertionSample.key, "T.app"⟩

/-- The payload of the sample Android request, with a challenge. -/
def samplePayload (challenge : Bytes) : AndroidAttestation.AndroidPayload :=
  ⟨sampleSpki, challenge, sampleChainHash [[1], [2]]⟩

/-- An answer of each endpoint; the document of the last vouches for the request's
challenge and not for another. -/
theorem payloads_bound_sample :
    (∃ resp p, attestAppleAttestation ClockSample.sampleServer
        (echoNsm ClockSample.sampleServer).toNsm ClockSample.sampleRequest 0 = .ok resp ∧
      Hex.decode resp.challengeHex = .ok p.challenge ∧
      BoundTo (echoDeployment ClockSample.sampleServer) resp.nsmDocHex
        AppleAttestation.ApplePayload.toBcs p) ∧
    (∃ resp p, attestAppleAssertion assertionServer (echoNsm assertionServer).toNsm
        assertionRequest 0 = .ok resp ∧
      Hex.decode resp.clientDataHex = .ok p.clientData ∧
      BoundTo (echoDeployment assertionServer) resp.nsmDocHex
        AppleAssertion.AssertionPayload.toBcs p) ∧
    ∃ resp bytes doc, attestAndroidAttestation sampleServer sampleNsm.toNsm sampleAndroidRequest 0 =
        .ok resp ∧
      Hex.decode resp.nsmDocHex = .ok bytes ∧
      sampleDeployment.loadNitroAttestation bytes = some doc ∧
      (∃ hash, assertUserData sha256 doc (samplePayload [7]).toBcs = .ok hash) ∧
      ¬∃ hash, assertUserData sha256 doc (samplePayload [8]).toBcs = .ok hash := by
  refine ⟨?_, ?_, ?_⟩
  · obtain ⟨resp, hresp⟩ := exists_eq_ok (x := attestAppleAttestation ClockSample.sampleServer
      (echoNsm ClockSample.sampleServer).toNsm ClockSample.sampleRequest 0) (by decide +kernel)
    obtain ⟨p, -, hchallenge, -, hbound⟩ := (payloads_bound (echoNsm _)).1.2.2 _ _ _ hresp
    exact ⟨resp, p, hresp, hchallenge, hbound⟩
  · obtain ⟨resp, hresp⟩ := exists_eq_ok (x := attestAppleAssertion assertionServer
      (echoNsm assertionServer).toNsm assertionRequest 0) (by decide +kernel)
    obtain ⟨p, -, hclientData, hbound⟩ := (payloads_bound (echoNsm _)).2.1.2.2 _ _ _ hresp
    exact ⟨resp, p, hresp, hclientData, hbound⟩
  · obtain ⟨resp, hresp⟩ := exists_eq_ok (x := attestAndroidAttestation sampleServer
      sampleNsm.toNsm sampleAndroidRequest 0) (by decide +kernel)
    obtain ⟨p, hvalue, hchallenge, hdetail, bytes, doc, hbytes, hdoc, hbound⟩ :=
      (payloads_bound sampleNsm).2.2.2.2 _ _ _ hresp
    have hreturned : (attestAndroidAttestation sampleServer sampleNsm.toNsm sampleAndroidRequest
        0).map (fun r => (Hex.decode r.attestedValueHex, Hex.decode r.challengeHex,
          Hex.decode r.detailHashHex)) =
        .ok (.ok sampleSpki, .ok [7], .ok (sampleChainHash [[1], [2]])) := by
      decide +kernel
    have hp : p = samplePayload [7] := by
      obtain ⟨a, c, d⟩ := p
      rw [hresp, Except.map, hvalue, hchallenge, hdetail] at hreturned
      simpa [samplePayload] using hreturned
    subst hp
    refine ⟨resp, bytes, doc, hresp, hbytes, hdoc, (hbound _ (by decide +kernel)).mpr rfl,
      fun h => ?_⟩
    exact absurd ((hbound _ (by decide +kernel)).mp h) (by simp [samplePayload])

end Sample

end Attestation.System
