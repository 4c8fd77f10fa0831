import Attestation.Move.Verify

/-! When the on-chain verifiers accept a document. The loop over the PCR entries
keeps three flags and stops at the first wrong value; what it decides depends on
the set of entries only, so neither their order nor entries with other indices
matter, and every way it can fail has the same abort code. -/

namespace Attestation.Move

open Result

/-! ### The loop over the PCR entries -/

/-- The indices that are checked, and the policy's value for each. -/
def EnclavePolicy.required (policy : EnclavePolicy) : List (UInt8 × Bytes) :=
  [(0, policy.pcr0), (1, policy.pcr1), (2, policy.pcr2)]

/-- No entry with a required index has another value than the policy's. -/
def NoWrongPcr (policy : EnclavePolicy) (pcrs : List PcrEntry) : Prop :=
  ∀ entry ∈ pcrs, ∀ p ∈ policy.required, entry.index = p.1 → entry.value = p.2

/-- Every entry with a required index has the policy's value, and each of these
indices occurs. -/
def PcrsMatch (policy : EnclavePolicy) (pcrs : List PcrEntry) : Prop :=
  NoWrongPcr policy pcrs ∧ ∀ p ∈ policy.required, ∃ entry ∈ pcrs, entry.index = p.1

/-- The flags that are set once an entry has been seen. -/
def Found.mark (found : Found) (entry : PcrEntry) : Found where
  pcr0 := found.pcr0 || entry.index = 0
  pcr1 := found.pcr1 || entry.index = 1
  pcr2 := found.pcr2 || entry.index = 2

theorem Found.step_eq_ok {policy : EnclavePolicy} {found found' : Found} {entry : PcrEntry} :
    Found.step policy found entry = .ok found' ↔
      (∀ p ∈ policy.required, entry.index = p.1 → entry.value = p.2) ∧
        found' = found.mark entry := by
  unfold Found.step EnclavePolicy.required Found.mark
  split_ifs with h0 h1 h2
  · rw [bind_eq_ok]
    simp [ensure_eq_ok, pure_eq_ok, h0, eq_comm (a := found')]
  · rw [bind_eq_ok]
    simp [ensure_eq_ok, pure_eq_ok, h1, eq_comm (a := found')]
  · rw [bind_eq_ok]
    simp [ensure_eq_ok, pure_eq_ok, h2, eq_comm (a := found')]
  · simp [pure_eq_ok, h0, h1, h2, eq_comm (a := found')]

theorem Found.step_eq_error {policy : EnclavePolicy} {found : Found} {entry : PcrEntry}
    {e : Fault ℕ} (h : Found.step policy found entry = .error e) : e = .err eWrongPcr := by
  unfold Found.step at h
  split_ifs at h
  · rcases bind_eq_error.mp h with h | ⟨_, _, h⟩
    · exact (ensure_eq_error.mp h).2
    · cases h
  · rcases bind_eq_error.mp h with h | ⟨_, _, h⟩
    · exact (ensure_eq_error.mp h).2
    · cases h
  · rcases bind_eq_error.mp h with h | ⟨_, _, h⟩
    · exact (ensure_eq_error.mp h).2
    · cases h
  · cases h

/-- The loop passes when no entry is wrong, and its flags tell which required
indices it has seen. -/
theorem foldlM_step_eq_ok {policy : EnclavePolicy} {pcrs : List PcrEntry} {found found' : Found} :
    pcrs.foldlM (Found.step policy) found = .ok found' ↔
      NoWrongPcr policy pcrs ∧ found' = pcrs.foldl Found.mark found := by
  induction pcrs generalizing found with
  | nil => simp [NoWrongPcr, pure_eq_ok, eq_comm (a := found')]
  | cons entry pcrs ih =>
    rw [List.foldlM_cons, bind_eq_ok]
    simp only [Found.step_eq_ok, ih, NoWrongPcr, List.forall_mem_cons, List.foldl_cons]
    constructor
    · rintro ⟨_, ⟨hentry, rfl⟩, hpcrs, rfl⟩
      exact ⟨⟨hentry, hpcrs⟩, rfl⟩
    · rintro ⟨⟨hentry, hpcrs⟩, rfl⟩
      exact ⟨_, ⟨hentry, rfl⟩, hpcrs, rfl⟩

theorem foldlM_step_eq_error {policy : EnclavePolicy} {pcrs : List PcrEntry} {found : Found}
    {e : Fault ℕ} (h : pcrs.foldlM (Found.step policy) found = .error e) : e = .err eWrongPcr := by
  induction pcrs generalizing found with
  | nil => cases h
  | cons entry pcrs ih =>
    rw [List.foldlM_cons] at h
    rcases bind_eq_error.mp h with h | ⟨_, _, h⟩
    · exact Found.step_eq_error h
    · exact ih h

theorem foldl_mark (pcrs : List PcrEntry) (found : Found) :
    pcrs.foldl Found.mark found =
      ⟨found.pcr0 || pcrs.any (·.index = 0), found.pcr1 || pcrs.any (·.index = 1),
        found.pcr2 || pcrs.any (·.index = 2)⟩ := by
  induction pcrs generalizing found with
  | nil => simp
  | cons entry pcrs ih => simp [ih, Found.mark, Bool.or_assoc]

theorem assertPcrsMatch_eq_ok {policy : EnclavePolicy} {doc : NitroAttestationDocument}
    {u : Unit} : assertPcrsMatch policy doc = .ok u ↔ PcrsMatch policy doc.pcrs := by
  simp only [assertPcrsMatch, bind_eq_ok, foldlM_step_eq_ok, ensure_eq_ok, PcrsMatch]
  constructor
  · rintro ⟨_, ⟨hwrong, rfl⟩, hall⟩
    refine ⟨hwrong, ?_⟩
    simpa [foldl_mark, EnclavePolicy.required, and_assoc] using hall
  · rintro ⟨hwrong, hseen⟩
    refine ⟨_, ⟨hwrong, rfl⟩, ?_⟩
    simpa [foldl_mark, EnclavePolicy.required, and_assoc] using hseen

/-- A document with the wrong PCRs always aborts with the same code. -/
theorem assertPcrsMatch_of_not {policy : EnclavePolicy} {doc : NitroAttestationDocument}
    (h : ¬ PcrsMatch policy doc.pcrs) : assertPcrsMatch policy doc = fail eWrongPcr := by
  obtain ⟨e, he⟩ := exists_eq_error fun _ hok => h (assertPcrsMatch_eq_ok.mp hok)
  rw [he]
  rcases bind_eq_error.mp he with hloop | ⟨_, -, hall⟩
  · rw [foldlM_step_eq_error hloop]
    rfl
  · rw [(ensure_eq_error.mp hall).2]
    rfl

/-! ### Which entries matter -/

/-- The order of the entries and entries with other indices do not matter. -/
theorem pcrsMatch_congr (policy : EnclavePolicy) {pcrs pcrs' extra : List PcrEntry}
    (hextra : ∀ entry ∈ extra, 2 < entry.index) (hperm : pcrs'.Perm (pcrs ++ extra)) :
    PcrsMatch policy pcrs' ↔ PcrsMatch policy pcrs := by
  have hother : ∀ entry ∈ extra, ∀ p ∈ policy.required, entry.index ≠ p.1 := by
    intro entry hentry p hp hindex
    have hlt := hextra entry hentry
    have hle : ∀ p ∈ policy.required, p.1 ≤ 2 := by simp [EnclavePolicy.required]
    exact absurd (hle p hp) (UInt8.not_le.mpr (hindex ▸ hlt))
  simp only [PcrsMatch, NoWrongPcr, hperm.mem_iff, List.mem_append]
  constructor
  · rintro ⟨hwrong, hseen⟩
    refine ⟨fun entry hentry => hwrong entry (.inl hentry), fun p hp => ?_⟩
    obtain ⟨entry, hentry | hentry, hindex⟩ := hseen p hp
    · exact ⟨entry, hentry, hindex⟩
    · exact absurd hindex (hother entry hentry p hp)
  · rintro ⟨hwrong, hseen⟩
    refine ⟨?_, fun p hp => ?_⟩
    · rintro entry (hentry | hentry) p hp hindex
      · exact hwrong entry hentry p hp hindex
      · exact absurd hindex (hother entry hentry p hp)
    · obtain ⟨entry, hentry, hindex⟩ := hseen p hp
      exact ⟨entry, .inl hentry, hindex⟩

variable {sha256 : Bytes → Digest} {policy : EnclavePolicy} {doc : NitroAttestationDocument}
  {now : UInt64}

theorem verifyDocument_congr {pcrs' extra : List PcrEntry} {payloadBcs : Bytes}
    (hextra : ∀ entry ∈ extra, 2 < entry.index) (hperm : pcrs'.Perm (doc.pcrs ++ extra)) :
    verifyDocument sha256 policy { doc with pcrs := pcrs' } payloadBcs now =
      verifyDocument sha256 policy doc payloadBcs now := by
  have hpcrs : assertPcrsMatch policy { doc with pcrs := pcrs' } = assertPcrsMatch policy doc := by
    have hiff := pcrsMatch_congr policy hextra hperm
    by_cases h : PcrsMatch policy doc.pcrs
    · rw [assertPcrsMatch_eq_ok (u := ()) |>.mpr h, assertPcrsMatch_eq_ok (u := ())]
      exact hiff.mpr h
    · rw [assertPcrsMatch_of_not h, assertPcrsMatch_of_not]
      exact fun h' => h (hiff.mp h')
  simp only [verifyDocument, hpcrs]
  rfl

/-! ### Acceptance -/

variable (sha256 policy doc now) in
/-- The document is one of the policy's enclave, for this payload and this time. -/
structure Accepts (payloadBcs : Bytes) : Prop where
  pcrs : PcrsMatch policy doc.pcrs
  userData : doc.userData = some (sha256 payloadBcs).toList
  notStale : now.toNat ≤ doc.timestamp.toNat + 300000
  notFuture : doc.timestamp.toNat ≤ now.toNat + 30000
  publicKey : doc.publicKey.isSome = true

/-- A verifier of documents returns a witness exactly for the documents it should,
aborts on the others, and looks at no order and no other index of the entries. -/
structure VerifiesExactly {W : Type} (verify : NitroAttestationDocument → Tx W)
    (accepts : NitroAttestationDocument → Prop) (witness : NitroAttestationDocument → W) :
    Prop where
  accepts_iff : ∀ doc w, verify doc = .ok w ↔ accepts doc ∧ w = witness doc
  aborts : ∀ doc, ¬ accepts doc → ∃ fault, verify doc = .error fault
  pcrs_invariant : ∀ doc pcrs' extra, (∀ entry ∈ extra, 2 < entry.index) →
    pcrs'.Perm (doc.pcrs ++ extra) → verify { doc with pcrs := pcrs' } = verify doc

/-- Where the clock is not near its limit, the overflow checks on the document's
time decide nothing: a time that overflows is in the future. -/
theorem fresh_iff {nsmTs : UInt64} (hnow : now.toNat + 330000 < 2 ^ 64) :
    Fresh nsmTs now ↔
      now.toNat ≤ nsmTs.toNat + 300000 ∧ nsmTs.toNat ≤ now.toNat + 30000 := by
  unfold Fresh
  omega

variable (sha256 policy) in
/-- A verifier that builds its witness from the shared checks. -/
theorem verifiesExactly_of_verifyDocument {W : Type} (payloadBcs : Bytes)
    (hnow : now.toNat + 330000 < 2 ^ 64) (build : UInt64 → Bytes → W) :
    VerifiesExactly
      (fun doc => do
        let (nsmTs, userData) ← verifyDocument sha256 policy doc payloadBcs now
        pure (build nsmTs userData))
      (fun doc => Accepts sha256 policy doc now payloadBcs)
      (fun doc => build doc.timestamp (sha256 payloadBcs).toList) := by
  have hiff : ∀ doc w, (do
      let (nsmTs, userData) ← verifyDocument sha256 policy doc payloadBcs now
      pure (build nsmTs userData)) = (.ok w : Tx W) ↔
        Accepts sha256 policy doc now payloadBcs ∧
          w = build doc.timestamp (sha256 payloadBcs).toList := by
    intro doc w
    simp only [bind_eq_ok, pure_eq_ok, Prod.exists, verifyDocument_eq_ok, assertPcrsMatch_eq_ok,
      fresh_iff hnow]
    constructor
    · rintro ⟨_, _, ⟨hpcrs, huser, ⟨hstale, hfuture⟩, hkey, rfl, rfl⟩, rfl⟩
      exact ⟨⟨hpcrs, huser, hstale, hfuture, hkey⟩, rfl⟩
    · rintro ⟨⟨hpcrs, huser, hstale, hfuture, hkey⟩, rfl⟩
      exact ⟨_, _, ⟨hpcrs, huser, ⟨hstale, hfuture⟩, hkey, rfl, rfl⟩, rfl⟩
  refine ⟨hiff, fun doc hnot => ?_, fun doc pcrs' extra hextra hperm => ?_⟩
  · exact exists_eq_error fun w hok => hnot ((hiff doc w).mp hok).1
  · rw [verifyDocument_congr hextra hperm]

/-- Each of the three verifiers accepts exactly the documents of the policy's
enclave for its payload at the clock's time. -/
theorem verify_exactly (sha256 : Bytes → Digest) (policy : EnclavePolicy) (now : UInt64)
    (hnow : now.toNat + 330000 < 2 ^ 64) :
    (∀ attestedValue challenge detailHash : Bytes,
      VerifiesExactly
        (fun doc =>
          AppleAttestation.verify sha256 policy doc attestedValue challenge detailHash now)
        (fun doc => Accepts sha256 policy doc now
          (Bcs.byteFields [attestedValue, challenge, detailHash]))
        (fun doc => ⟨attestedValue, challenge, doc.timestamp, detailHash⟩)) ∧
    (∀ attestedKey clientData : Bytes,
      VerifiesExactly
        (fun doc => AppleAssertion.verify sha256 policy doc attestedKey clientData now)
        (fun doc => Accepts sha256 policy doc now (Bcs.byteFields [attestedKey, clientData]))
        (fun doc => ⟨attestedKey, clientData, doc.timestamp,
          (sha256 (Bcs.byteFields [attestedKey, clientData])).toList⟩)) ∧
    (∀ attestedValue challenge detailHash : Bytes,
      VerifiesExactly
        (fun doc =>
          AndroidAttestation.verify sha256 policy doc attestedValue challenge detailHash now)
        (fun doc => Accepts sha256 policy doc now
          (Bcs.byteFields [attestedValue, challenge, detailHash]))
        (fun doc => ⟨attestedValue, challenge, doc.timestamp, detailHash⟩)) := by
  refine ⟨fun a c d => ?_, fun k d => ?_, fun a c d => ?_⟩
  · exact verifiesExactly_of_verifyDocument sha256 policy (Bcs.byteFields [a, c, d]) hnow
      fun ts _ => (⟨a, c, ts, d⟩ : Witness AppleAppAttest)
  · exact verifiesExactly_of_verifyDocument sha256 policy (Bcs.byteFields [k, d]) hnow
      fun ts userData => (⟨k, d, ts, userData⟩ : Witness AppleAssertion)
  · exact verifiesExactly_of_verifyDocument sha256 policy (Bcs.byteFields [a, c, d]) hnow
      fun ts _ => (⟨a, c, ts, d⟩ : Witness AndroidKeyAttestation)

/-- A document with its entries out of order, one of them twice, and one more. -/
def sampleDoc : NitroAttestationDocument where
  timestamp := 1000
  userData := some (Attestation.sha256 (Bcs.byteFields [[1], [2], [3]])).toList
  publicKey := some [9]
  pcrs := [⟨2, [12]⟩, ⟨0, [10]⟩, ⟨8, []⟩, ⟨1, [11]⟩, ⟨0, [10]⟩]

theorem verify_exactly_sample :
    AppleAttestation.verify Attestation.sha256 ⟨[10], [11], [12]⟩ sampleDoc [1] [2] [3] 301000 =
      .ok ⟨[1], [2], 1000, [3]⟩ := by
  refine (((verify_exactly _ _ _ (by decide)).1 _ _ _).accepts_iff _ _).mpr
    ⟨⟨?_, rfl, by decide, by decide, rfl⟩, rfl⟩
  simp [PcrsMatch, NoWrongPcr, EnclavePolicy.required, sampleDoc]

end Attestation.Move
