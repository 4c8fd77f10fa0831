import Attestation.Android.Anchoring
import Attestation.Android.NoPanic
import Attestation.Android.StatusTruncation
import Attestation.Apple.AuthDataLayout
import Attestation.Apple.CborOrder
import Attestation.Enclave.Server

/-! No request makes a handler panic, whatever its fields, whatever the security module
answers and whatever time it is. A chain that is not empty has a first and a last
certificate; every other index, slice and fixed-size copy stands behind its own guard. -/

namespace Attestation

open Result

theorem mapM_ne_nil {ε α β : Type} {f : α → Result ε β} {xs : List α} {ys : List β} (hxs : xs ≠ [])
    (h : xs.mapM f = .ok ys) : ys ≠ [] := by
  have hlength := (mapM_eq_ok.mp h).length_eq
  rw [← List.length_pos_iff] at hxs ⊢
  omega

/-! ### Apple -/

namespace Apple

variable {cr : Crates}

theorem verifySignature_returns (cert issuer : Certificate) :
    Returns (verifySignature cr cert issuer) := by
  refine .bind (.okOr _ _) fun _ _ => .bind (.okOr _ _) fun _ _ => ?_
  refine .bind (.ofExcept _ _) fun _ _ => .bind (.okOr _ _) fun _ _ => ?_
  split_ifs
  · exact X509.verifyEcdsa_returns _ _ _ _ _
  · exact X509.verifyEcdsa_returns _ _ _ _ _
  · exact X509.verifyEcdsa_returns _ _ _ _ _
  · exact .fail _

theorem validateX5cChain_returns (rootDer : Bytes) (x5c : List Bytes) (clockMs : UInt64) :
    Returns (validateX5cChain cr rootDer x5c clockMs) := by
  refine .bind (.ensure _ _) fun _ hne => ?_
  refine .bind (.mapM (fun _ => .ofExcept _ _) _) fun certs hcerts => ?_
  have hnonempty := mapM_ne_nil (ensure_eq_ok.mp hne) hcerts
  refine .bind (.forM (fun _ => X509.checkValidity_returns _ _) _) fun _ _ => ?_
  refine .bind (.forM (fun _ => X509.checkIsCa_returns _) _) fun _ _ => ?_
  refine .bind (.forM (fun _ => verifySignature_returns _ _) _) fun _ _ => ?_
  refine .bind (.ofExcept _ _) fun _ _ => .bind (X509.checkValidity_returns _ _) fun _ _ => ?_
  refine .bind (X509.checkIsCa_returns _) fun _ _ => ?_
  refine .bind (.expect (by simpa using hnonempty)) fun _ _ => ?_
  exact .bind (verifySignature_returns _ _) fun _ _ => .expect (by simpa using hnonempty)

theorem nonceFromDer_returns (bytes : Bytes) : Returns (nonceFromDer bytes) := by
  refine .bind (Der.sliceReader_returns _) fun _ _ => .bind ?_ fun _ _ =>
    .bind (.ensure _ _) fun _ _ => .ok _
  refine .bind (Der.readValue_returns _ _) fun _ _ =>
    .bind (Der.readValue_returns _ _) fun _ _ => ?_
  refine .bind (.ensure _ _) fun _ _ => .bind (Der.readValue_returns _ _) fun _ _ => ?_
  exact .bind (.ensure _ _) fun _ _ => .ok _

theorem extractNonceExtension_returns (cert : Certificate) :
    Returns (extractNonceExtension cert) := by
  refine .bind (.okOr _ _) fun _ _ => .bind (.mapErr (nonceFromDer_returns _)) fun _ _ => ?_
  exact .bind (.ensure _ _) fun _ hlength => toArray_returns (ensure_eq_ok.mp hlength)

theorem extractP256Pk_returns (coseBytes : Bytes) : Returns (extractP256Pk cr coseBytes) := by
  refine .bind (.ofExcept _ _) fun _ _ => .bind (.okOr _ _) fun _ _ =>
    .bind (.ensure _ _) fun _ _ => ?_
  refine .bind (.ensure _ _) fun _ _ => .bind (.ensure _ _) fun _ _ =>
    .bind (.okOr _ _) fun x _ => ?_
  refine .bind (.okOr _ _) fun y _ => .bind (.ensure _ _) fun _ hlength => toArray_returns ?_
  have hxy := ensure_eq_ok.mp hlength
  simp only [not_or, not_not] at hxy
  simp [hxy.1, hxy.2]

theorem verifyAppAttest_returns (rootDer attestationObject keyId challenge : Bytes) (appId : String)
    (production : Bool) (clockMs : UInt64) : Returns (verifyAppAttest cr rootDer attestationObject
      keyId challenge appId production clockMs) := by
  refine .bind (decodeAttestationObject_returns _ _) fun _ _ => .bind (.ensure _ _) fun _ _ => ?_
  refine .bind (AuthData.parse_returns _) fun _ _ => ?_
  refine .bind (validateX5cChain_returns _ _ _) fun _ _ => ?_
  refine .bind (extractNonceExtension_returns _) fun _ _ => .bind (.ensure _ _) fun _ _ => ?_
  refine .bind (extractP256Pk_returns _) fun _ _ => .bind (.ensure _ _) fun _ _ => ?_
  refine .bind (.ensure _ _) fun _ _ => .bind (.ensure _ _) fun _ _ => ?_
  exact .bind (.ensure _ _) fun _ _ => .ok _

theorem verifyAssertion_returns (assertionObject clientData attestedKey : Bytes) (appId : String)
    (clockMs : UInt64) :
    Returns (verifyAssertion cr assertionObject clientData attestedKey appId clockMs) := by
  refine .bind (decodeAssertion_returns _ _) fun parts _ => ?_
  refine .bind (.ensure _ _) fun _ hlength => ?_
  have hlong := ensure_eq_ok.mp hlength
  refine .bind (slice_returns (by omega) (by omega)) fun _ _ => .bind (.ensure _ _) fun _ _ => ?_
  refine .bind (.ofExcept _ _) fun _ _ => .bind (.ofExcept _ _) fun _ _ => ?_
  exact .bind (.ensure _ _) fun _ _ => .ok _

end Apple

/-! ### Android -/

namespace Android

variable {cr : Crates}

theorem anchor_returns (top : Certificate) (clockMs : UInt64) (roots : List Certificate) :
    Returns (anchor cr top clockMs roots) := by
  induction roots with
  | nil => exact .ok _
  | cons root roots ih =>
    rw [anchor]
    split_ifs
    · exact .ok _
    rcases hsigned : verifySignature cr top root with (e | _) | _
    · exact ih
    · exact absurd hsigned (verifySignature_returns top root)
    · exact .bind (X509.checkValidity_returns _ _) fun _ _ => .ok _

theorem validateChain_returns (pinnedRootsDer chain : List Bytes) (clockMs : UInt64) :
    Returns (validateChain cr pinnedRootsDer chain clockMs) := by
  refine .bind (.ensure _ _) fun _ hne => ?_
  refine .bind (.mapM (fun _ => .ofExcept _ _) _) fun certs hcerts => ?_
  have hnonempty := mapM_ne_nil (ensure_eq_ok.mp hne) hcerts
  refine .bind (.forM (fun _ => X509.checkValidity_returns _ _) _) fun _ _ => ?_
  refine .bind (.forM (fun cert => .bind (.toOption (X509.checkIsCa_returns cert)) ?_) _) ?_
  · exact fun _ _ => .ok ()
  intro _ _
  refine .bind (.forM (fun _ => verifySignature_returns _ _) _) fun _ _ => ?_
  refine .bind (.mapM (fun _ => .ofExcept _ _) _) fun roots _ => ?_
  refine .bind (.expect (by simpa using hnonempty)) fun top _ => ?_
  refine .bind (anchor_returns top clockMs roots) fun _ _ => .bind (.ensure _ _) fun _ _ => ?_
  exact .expect (by simpa using hnonempty)

theorem checkStatus_returns (list : StatusList) (der : Bytes) :
    Returns (checkStatus cr list der) := by
  refine .bind (.ofExcept _ _) fun _ _ => ?_
  dsimp only
  split
  · exact .fail _
  · exact .ok _

theorem checkBootState_returns (policy : Policy) (rot : RootOfTrust) :
    Returns (checkBootState policy rot) := by
  unfold checkBootState
  split
  · exact .ok _
  · split_ifs
    · exact .ok _
    · exact .ok _
    · exact .fail _

theorem checkRootOfTrust_returns (policy : Policy) (rot : Option RootOfTrust) :
    Returns (checkRootOfTrust policy rot) := by
  cases rot with
  | none => exact .ensure _ _
  | some rot => exact .bind (.ensure _ _) fun _ _ => checkBootState_returns policy rot

theorem attestLeaf_returns (chain : List Bytes) (challenge : Bytes) (policy : Policy)
    (clockMs : UInt64) (leaf : Certificate) :
    Returns (attestLeaf cr chain challenge policy clockMs leaf) := by
  refine .bind (.bind (.okOr _ _) fun _ _ => .ok _) fun _ _ => ?_
  refine .bind (KeyDescription.fromDer_returns _) fun _ _ => .bind (.ensure _ _) fun _ _ => ?_
  refine .bind (.ensure _ _) fun _ _ => .bind (.ensure _ _) fun _ _ => ?_
  refine .bind (checkRootOfTrust_returns _ _) fun _ _ => ?_
  exact .bind (.ofExcept _ _) fun _ _ => .ok _

theorem verifyAttestation_returns (pinnedRootsDer chain : List Bytes) (challenge : Bytes)
    (policy : Policy) (clockMs : UInt64) :
    Returns (verifyAttestation cr pinnedRootsDer chain challenge policy clockMs) := by
  refine .bind (validateChain_returns _ _ _) fun _ _ => .bind ?_ fun _ _ =>
    attestLeaf_returns _ _ _ _ _
  cases policy.statusList with
  | none => exact .ok _
  | some list => exact .forM (checkStatus_returns list) _

end Android

/-! ### The handlers -/

namespace Enclave

variable {server : Server} {nsm : Nsm}

theorem requestNsmAttestation_returns (publicKey userData : Bytes) :
    Returns (requestNsmAttestation nsm publicKey userData) := by
  refine .bind (.ensure _ _) fun _ _ => ?_
  split
  · exact .ok _
  · exact .fail _

theorem bindPayload_returns (fields : List Bytes) : Returns (bindPayload server nsm fields) :=
  .bind (.ofExcept _ _) fun _ _ => requestNsmAttestation_returns _ _

theorem respond_returns (fields : List Bytes) (outcome : Outcome) :
    Returns (respond server nsm fields outcome) :=
  .bind (bindPayload_returns fields) fun _ _ => .ok _

theorem decodeHexList_returns (field : String) (xs : List String) :
    Returns (decodeHexList field xs) :=
  .mapM (fun _ => .ofExcept _ _) _

theorem parseSecurityLevel_returns (s : Option String) : Returns (parseSecurityLevel s) := by
  unfold parseSecurityLevel
  split
  · exact .ok _
  · exact .ok _
  · exact .ok _
  · exact .ok _
  · exact .ok _
  · exact .fail _

theorem parseStatusList_returns (json : Option String) : Returns (parseStatusList server json) := by
  cases json with
  | none => exact .ok _
  | some json =>
    exact .bind (.mapErr (Android.StatusList.fromJson_returns _ json)) fun _ _ => .ok _

variable (server nsm) in
/-- Every handler answers every request, with a response or with an error. -/
theorem handlers_return (stampMs : UInt64) :
    Returns (attestationDoc server nsm) ∧
      (∀ req, Returns (attestAppleAttestation server nsm req stampMs)) ∧
      (∀ req, Returns (attestAppleAssertion server nsm req stampMs)) ∧
      ∀ req, Returns (attestAndroidAttestation server nsm req stampMs) := by
  refine ⟨?_, fun req => ?_, fun req => ?_, fun req => ?_⟩
  · exact .bind (.mapErr (requestNsmAttestation_returns _ _)) fun _ _ => .ok _
  · refine .bind ?_ fun outcome _ => respond_returns _ outcome
    refine .bind (.ofExcept _ _) fun _ _ => .bind (.ofExcept _ _) fun _ _ => ?_
    exact .bind (.ofExcept _ _) fun _ _ => .mapErr (Apple.verifyAppAttest_returns _ _ _ _ _ _ _)
  · refine .bind ?_ fun _ _ => .bind (bindPayload_returns _) fun _ _ => .ok _
    refine .bind (.ofExcept _ _) fun _ _ => .bind (.ofExcept _ _) fun _ _ => ?_
    exact .bind (.ofExcept _ _) fun _ _ => .mapErr (Apple.verifyAssertion_returns _ _ _ _ _)
  · refine .bind ?_ fun outcome _ => respond_returns _ outcome
    refine .bind (decodeHexList_returns _ _) fun _ _ => .bind (.ofExcept _ _) fun _ _ => ?_
    refine .bind (parseSecurityLevel_returns _) fun _ _ => ?_
    refine .bind (decodeHexList_returns _ _) fun _ _ => ?_
    refine .bind (parseStatusList_returns _) fun _ _ => ?_
    exact .mapErr (Android.verifyAttestation_returns _ _ _ _ _)

end Enclave

end Attestation
