import Attestation.Android.NoPanic
import Attestation.Android.Roots
import Attestation.Base.Windows
import Attestation.Enclave.Clock

/-! What the wall clock decides at each endpoint. An attestation request is passed on to
the Security Module at the times of one interval, always with the same user data, and the
response is the same but for the module's document; the clock decides nothing about an
assertion. -/

namespace Attestation

open Result

theorem X509.checkValidity_windowed {ε : Type} (errors : X509.Errors ε) (cert : Certificate) :
    Windowed id fun clockMs => X509.checkValidity errors cert clockMs := by
  refine .bind (.ensure _ ?_) fun _ => .ensure _ ?_
  · intro s t u hst _ hs _
    have hst := UInt64.le_iff_toNat_le.mp hst
    omega
  · intro s t u _ htu _ hu
    have htu := UInt64.le_iff_toNat_le.mp htu
    omega

theorem Apple.validateX5cChain_windowed {cr : Crates} (rootDer : Bytes) (x5c : List Bytes) :
    Windowed id fun clockMs => Apple.validateX5cChain cr rootDer x5c clockMs := by
  refine .bind (.const _) fun _ => .bind (.const _) fun certs => ?_
  refine .bind (.forM (fun _ => X509.checkValidity_windowed _ _) _) fun _ => ?_
  refine .bind (.const _) fun _ => .bind (.const _) fun _ => .bind (.const _) fun root => ?_
  refine .bind (X509.checkValidity_windowed _ _) fun _ => ?_
  exact .const _

/-! ### Android -/

namespace Android

variable {cr : Crates}

/-- The clock decides at most one root's turn, and whether that root is valid. -/
theorem anchor_windowed (top : Certificate) (roots : List Certificate) :
    Windowed id fun clockMs => anchor cr top clockMs roots := by
  induction roots with
  | nil => exact .const _
  | cons root roots ih =>
    by_cases hmatch : rootMatchesTop cr root top = true
    · simp only [anchor, hmatch, if_true]
      exact .const _
    · simp only [anchor, if_neg hmatch]
      rcases verifySignature cr top root with (e | _) | _
      · exact ih
      · exact .const _
      · exact .bind (X509.checkValidity_windowed _ _) fun _ => .const _

theorem validateChain_windowed (pinnedRootsDer chain : List Bytes) :
    Windowed id fun clockMs => validateChain cr pinnedRootsDer chain clockMs := by
  refine .bind (.const _) fun _ => .bind (.const _) fun certs => ?_
  refine .bind (.forM (fun _ => X509.checkValidity_windowed _ _) _) fun _ => ?_
  refine .bind (.const _) fun _ => .bind (.const _) fun _ => .bind (.const _) fun roots => ?_
  refine .bind (.const _) fun top => .bind (anchor_windowed top roots) fun _ => ?_
  exact .const _

end Android

/-! ### The endpoints -/

namespace Enclave

/-- What an endpoint binds of an outcome. -/
def boundFields (out : Outcome) : Bytes × Bytes × Bytes :=
  (out.attestedValue, out.challenge, out.detailHash)

variable {server : Server}

theorem verifyAppleRequest_windowed (req : AppleRequest) :
    Windowed boundFields fun stampMs => verifyAppleRequest server req stampMs := by
  refine .bind (.const _) fun _ => .bind (.const _) fun _ => .bind (.const _) fun _ => ?_
  refine .mapErr _ (.bind (.const _) fun _ => .bind (.const _) fun _ =>
    .bind (.const _) fun _ => ?_)
  refine .bind (Apple.validateX5cChain_windowed _ _) fun _ => .bind (.const _) fun _ => ?_
  refine .bind (.const _) fun _ => .bind (.const _) fun _ => .bind (.const _) fun _ => ?_
  refine .bind (.const _) fun _ => .bind (.const _) fun _ => .bind (.const _) fun _ => ?_
  exact .pure fun _ _ => rfl

theorem verifyAndroidRequest_windowed (req : AndroidRequest) :
    Windowed boundFields fun stampMs => verifyAndroidRequest server req stampMs := by
  refine .bind (.const _) fun _ => .bind (.const _) fun _ => .bind (.const _) fun _ => ?_
  refine .bind (.const _) fun _ => .bind (.const _) fun _ => .mapErr _ ?_
  refine .bind (Android.validateChain_windowed _ _) fun _ => .bind (.const _) fun _ => ?_
  refine .bind (.const _) fun _ => .bind (.const _) fun _ => .bind (.const _) fun _ => ?_
  refine .bind (.const _) fun _ => .bind (.const _) fun _ => .bind (.const _) fun _ => ?_
  exact .bind (.const _) fun _ => .pure fun _ _ => rfl

/-- The clock is not read but to stamp the outcome. -/
theorem verifyAssertionRequest_clock (req : AppleAssertionRequest) (s t : UInt64) :
    (verifyAssertionRequest server req s).map boundFields =
      (verifyAssertionRequest server req t).map boundFields := by
  simp only [verifyAssertionRequest, Apple.verifyAssertion, map_bind, map_mapErr]
  rfl

/-- Whatever the Security Module is at the time, it is asked for a document with this user
data, and its document completes the response. -/
def Asks {α : Type} (server : Server) (userData : Bytes) (respondWith : Bytes → α)
    (answer : Nsm → Result AttestError α) : Prop :=
  ∀ nsm, answer nsm = (requestNsmAttestation nsm server.verifyingKey userData).map respondWith

theorem asks_bindPayload {α : Type} {fields : List Bytes} {payloadBcs : Bytes}
    (h : Bcs.toBytes fields = .ok payloadBcs) (respondWith : Bytes → α) :
    Asks server (server.crates.sha256 payloadBcs).toList respondWith
      fun nsm => bindPayload server nsm fields >>= fun document => pure (respondWith document) := by
  intro nsm
  simp only [bindPayload, bind_of_eq_ok (ofExcept_eq_ok.mpr h)]
  exact bind_pure_comp respondWith _

/-- A verifier that succeeds in a window makes its endpoint ask in the window. -/
theorem asks_of_windowed {verify : UInt64 → Result AttestError Outcome}
    {answer : Nsm → UInt64 → Result AttestError AttestResponse}
    (hverify : Windowed boundFields verify)
    (hanswer : ∀ nsm t, answer nsm t = verify t >>= fun out =>
      respond server nsm [out.attestedValue, out.challenge, out.detailHash] out)
    {s u : UInt64} {nsm nsm' : Nsm} {resp resp' : AttestResponse} (hs : answer nsm s = .ok resp)
    (hu : answer nsm' u = .ok resp') :
    ∃ userData, ∀ t, s ≤ t → t ≤ u →
      Asks server userData (fun document => { resp with nsmDocHex := Hex.encode document })
        (answer · t) := by
  rw [hanswer] at hs hu
  obtain ⟨out, hout, hrespond⟩ := bind_eq_ok.mp hs
  obtain ⟨out', hout', -⟩ := bind_eq_ok.mp hu
  obtain ⟨document, hbind, rfl⟩ := respond_eq_ok.mp hrespond
  obtain ⟨payloadBcs, hbcs, -⟩ := bind_eq_ok.mp hbind
  rw [ofExcept_eq_ok] at hbcs
  refine ⟨(server.crates.sha256 payloadBcs).toList, fun t hst htu nsm'' => ?_⟩
  obtain ⟨o, ho⟩ := hverify.between hst htu hout hout'
  obtain ⟨hvalue, hchallenge, hdetail⟩ := by
    simpa only [boundFields, Prod.mk.injEq] using hverify.agree ho hout
  refine (hanswer nsm'' t).trans ?_
  rw [bind_of_eq_ok ho, respond, hvalue, hchallenge, hdetail]
  exact asks_bindPayload hbcs _ nsm''

/-- An assertion is answered the same way at all times. -/
theorem attestAppleAssertion_clock (nsm : Nsm) (req : AppleAssertionRequest) (s t : UInt64) :
    attestAppleAssertion server nsm req s = attestAppleAssertion server nsm req t := by
  refine bind_congr_map (verifyAssertionRequest_clock req s t) fun out out' h => ?_
  obtain ⟨hvalue, hchallenge, -⟩ := by simpa only [boundFields, Prod.mk.injEq] using h
  simp only [AssertionPayload.fields, hvalue, hchallenge]

/-- An assertion is refused with one error, or makes its endpoint ask, at all times. -/
theorem asks_attestAppleAssertion (req : AppleAssertionRequest) :
    (∃ e, ∀ nsm t, attestAppleAssertion server nsm req t = .error e) ∨
      ∃ (userData : Bytes) (resp : AssertionResponse), ∀ t,
        Asks server userData (fun document => { resp with nsmDocHex := Hex.encode document })
          (attestAppleAssertion server · req t) := by
  rcases hverify : verifyAssertionRequest server req 0 with e | out
  · refine .inl ⟨e, fun nsm t => ?_⟩
    rw [attestAppleAssertion_clock nsm req t 0, attestAppleAssertion, hverify]
    rfl
  rcases hbcs : Bcs.toBytes [out.attestedValue, out.challenge] with e | payloadBcs
  · refine .inl ⟨.err (.bcs e), fun nsm t => ?_⟩
    rw [attestAppleAssertion_clock nsm req t 0, attestAppleAssertion, bind_of_eq_ok hverify]
    simp only [AssertionPayload.fields, bindPayload, hbcs]
    rfl
  · let resp : AssertionResponse := ⟨"", Hex.encode out.attestedValue, Hex.encode out.challenge,
      Hex.encode server.verifyingKey⟩
    refine .inr ⟨(server.crates.sha256 payloadBcs).toList, resp, fun t nsm => ?_⟩
    refine (attestAppleAssertion_clock nsm req t 0).trans ?_
    rw [attestAppleAssertion, bind_of_eq_ok hverify]
    exact asks_bindPayload hbcs _ nsm

/-- An attestation that is answered at two times, each with the Security Module of its own,
is passed on to the module at every time between them with the same user data, and answered
with the same fields; an assertion is treated the same at all times. -/
theorem answers_windowed (server : Server) :
    (∀ req s u nsm nsm' resp resp',
      attestAppleAttestation server nsm req s = .ok resp →
      attestAppleAttestation server nsm' req u = .ok resp' →
      ∃ userData, ∀ t, s ≤ t → t ≤ u →
        Asks server userData (fun document => { resp with nsmDocHex := Hex.encode document })
          (attestAppleAttestation server · req t)) ∧
    (∀ req s u nsm nsm' resp resp',
      attestAndroidAttestation server nsm req s = .ok resp →
      attestAndroidAttestation server nsm' req u = .ok resp' →
      ∃ userData, ∀ t, s ≤ t → t ≤ u →
        Asks server userData (fun document => { resp with nsmDocHex := Hex.encode document })
          (attestAndroidAttestation server · req t)) ∧
    ∀ req, (∃ e, ∀ nsm t, attestAppleAssertion server nsm req t = .error e) ∨
      ∃ (userData : Bytes) (resp : AssertionResponse), ∀ t,
        Asks server userData (fun document => { resp with nsmDocHex := Hex.encode document })
          (attestAppleAssertion server · req t) := by
  refine ⟨fun req s u nsm nsm' resp resp' hs hu => ?_,
    fun req s u nsm nsm' resp resp' hs hu => ?_, asks_attestAppleAssertion⟩
  · exact asks_of_windowed (verifyAppleRequest_windowed req) (fun _ _ => rfl) hs hu
  · exact asks_of_windowed (verifyAndroidRequest_windowed req) (fun _ _ => rfl) hs hu

open ClockSample in
theorem answers_windowed_sample : ∃ (resp : AttestResponse) (userData : Bytes),
    ∀ t, 0 ≤ t → t ≤ 100000 →
      Asks sampleServer userData (fun document => { resp with nsmDocHex := Hex.encode document })
        (attestAppleAttestation sampleServer · sampleRequest t) := by
  obtain ⟨resp, hresp⟩ := exists_eq_ok
    (x := attestAppleAttestation sampleServer echo sampleRequest 0) (by decide +kernel)
  obtain ⟨resp', hresp'⟩ := exists_eq_ok
    (x := attestAppleAttestation sampleServer echo sampleRequest 100000) (by decide +kernel)
  exact ⟨resp, (answers_windowed sampleServer).1 _ _ _ _ _ _ _ hresp hresp'⟩

end Enclave

end Attestation
