import Attestation.Android.Verify

/-! Revocation by serial number. The verifier looks a serial up under the digits
of its bytes, two for each, with the leading zero bytes stripped; the status list
is keyed by minimal hex. The two agree on a serial whose leading byte has two
significant digits, and a serial listed with an odd number of digits is missed. -/

namespace Attestation.Android

open Result

variable {cr : Crates} {pinnedRootsDer chain : List Bytes} {challenge : Bytes} {policy : Policy}
  {clockMs : UInt64} {leaf : Certificate} {list : StatusList}

/-! ### The key of a serial -/

theorem serialDigits_false (bs : Bytes) : serialDigits false bs = bs.flatMap Hex.byteDigits := by
  induction bs with
  | nil => rfl
  | cons b bs ih => rw [serialDigits, Bool.false_and, if_neg Bool.false_ne_true, ih, List.flatMap_cons]

theorem serialDigits_true (bs : Bytes) :
    serialDigits true bs = (bs.dropWhile (· == 0)).flatMap Hex.byteDigits := by
  induction bs with
  | nil => rfl
  | cons b bs ih =>
    rw [serialDigits, Bool.true_and, List.dropWhile_cons]
    split_ifs
    · exact ih
    · rw [serialDigits_false, List.flatMap_cons]

/-- A serial is looked up under its whole-octet numeral. -/
theorem serialHex_eq_octetNumeral (serial : Bytes) : serialHex serial = Hex.octetNumeral serial := by
  have hnil : ∀ bs : Bytes, bs.flatMap Hex.byteDigits = [] ↔ bs = [] := by
    intro bs
    cases bs <;> simp [Hex.byteDigits]
  simp only [serialHex, Hex.octetNumeral, serialDigits_true, hnil, Hex.encode]

/-! ### Which calls end in revocation -/

/-- Some certificate of the chain and some key of the list stand in the relation. -/
def Listed (cr : Crates) (chain : List Bytes) (list : StatusList) (r : Bytes → String → Prop) :
    Prop :=
  ∃ der ∈ chain, ∃ cert, cr.certificateFromDer der = .ok cert ∧
    ∃ key ∈ list.entries, r cert.tbsCertificate.serialNumber key

def IsRevoked (e : Error) : Prop := ∃ serial status reason, e = .revoked serial status reason

theorem checkStatus_of_parse {der : Bytes} {cert : Certificate}
    (h : cr.certificateFromDer der = .ok cert) :
    checkStatus cr list der =
      match list.lookupSerial (serialHex cert.tbsCertificate.serialNumber) with
      | some entry =>
        fail (.revoked (serialHex cert.tbsCertificate.serialNumber) entry.status entry.reason)
      | none => .ok () := by
  rw [checkStatus, parse_eq_ok.mpr h]
  rfl

theorem lookupSerial_isSome {key : String} : (list.lookupSerial key).isSome ↔ key ∈ list.entries :=
  AList.lookup_isSome

theorem checkRevocation_eq_ok_iff (hparse : ∀ der ∈ chain, ∃ cert, cr.certificateFromDer der = .ok cert) :
    checkRevocation cr (some list) chain = .ok () ↔
      ¬ Listed cr chain list fun serial key => key = serialHex serial := by
  simp only [checkRevocation_eq_ok, Option.some.injEq, forall_eq']
  constructor
  · rintro h ⟨der, hder, cert, hcert, _, hkey, rfl⟩
    have hok := h der hder
    obtain ⟨entry, hentry⟩ := Option.isSome_iff_exists.mp (lookupSerial_isSome.mpr hkey)
    rw [checkStatus_of_parse hcert, hentry] at hok
    exact absurd hok fail_ne_ok
  · intro h der hder
    obtain ⟨cert, hcert⟩ := hparse der hder
    rw [checkStatus_of_parse hcert]
    rcases hentry : list.lookupSerial (serialHex cert.tbsCertificate.serialNumber) with _ | entry
    · rfl
    · exact absurd ⟨der, hder, cert, hcert, _, lookupSerial_isSome.mp (by simp [hentry]), rfl⟩ h

/-- With every certificate parsed, the check fails only by finding one revoked. -/
theorem checkRevocation_eq_error {f : Fault Error}
    (hparse : ∀ der ∈ chain, ∃ cert, cr.certificateFromDer der = .ok cert)
    (h : checkRevocation cr (some list) chain = .error f) : ∃ e, f = .err e ∧ IsRevoked e := by
  obtain ⟨der, hder, herr⟩ := forM_eq_error h
  obtain ⟨cert, hcert⟩ := hparse der hder
  rw [checkStatus_of_parse hcert] at herr
  split at herr
  · obtain ⟨⟩ := herr
    exact ⟨_, rfl, _, _, _, rfl⟩
  · cases herr

theorem checkBootState_raises (policy : Policy) (rot : RootOfTrust) :
    Raises (fun e => ¬ IsRevoked e) (checkBootState policy rot) := by
  have hboot : ∀ state, ¬ IsRevoked (.unacceptableBootState state) := by
    rintro state ⟨_, _, _, ⟨⟩⟩
  unfold checkBootState
  split
  · exact .pure _
  · split_ifs
    · exact .pure _
    · exact .pure _
    · exact .fail (hboot _)

theorem checkRootOfTrust_raises (policy : Policy) (rot : Option RootOfTrust) :
    Raises (fun e => ¬ IsRevoked e) (checkRootOfTrust policy rot) := by
  cases rot with
  | none => exact .ensure (by rintro ⟨_, _, _, ⟨⟩⟩)
  | some rot =>
    exact .bind (.ensure (by rintro ⟨_, _, _, ⟨⟩⟩)) fun _ => checkBootState_raises _ _

theorem attestLeaf_raises (chain : List Bytes) (challenge : Bytes) (policy : Policy)
    (clockMs : UInt64) (leaf : Certificate) :
    Raises (fun e => ¬ IsRevoked e) (attestLeaf cr chain challenge policy clockMs leaf) := by
  have hder : ∀ m, ¬ IsRevoked (.der m) := by rintro m ⟨_, _, _, ⟨⟩⟩
  refine .bind (.bind (.okOr (by rintro ⟨_, _, _, ⟨⟩⟩)) fun _ => .pure _) fun _ => ?_
  refine .bind (fun e he => ?_) fun kd => ?_
  · obtain ⟨m, rfl⟩ := KeyDescription.fromDer_raises _ e he
    exact hder m
  refine .bind (.ensure (by rintro ⟨_, _, _, ⟨⟩⟩)) fun _ => ?_
  refine .bind (.ensure (by rintro ⟨_, _, _, ⟨⟩⟩)) fun _ => ?_
  refine .bind (.ensure (by rintro ⟨_, _, _, ⟨⟩⟩)) fun _ => ?_
  refine .bind (checkRootOfTrust_raises _ _) fun _ => ?_
  exact .bind (.ofExcept fun _ => hder _) fun _ => .pure _

/-- A call with a status list ends in revocation exactly when some serial of the
chain is looked up under a key of the list. -/
theorem verifyAttestation_revoked_iff
    (hchain : validateChain cr pinnedRootsDer chain clockMs = .ok leaf)
    (hlist : policy.statusList = some list) :
    (∃ e, verifyAttestation cr pinnedRootsDer chain challenge policy clockMs = .error (.err e) ∧
        IsRevoked e) ↔ Listed cr chain list fun serial key => key = serialHex serial := by
  have hparse := parses_of_validateChain hchain
  have hverify : verifyAttestation cr pinnedRootsDer chain challenge policy clockMs =
      checkRevocation cr (some list) chain >>= fun _ =>
        attestLeaf cr chain challenge policy clockMs leaf := by
    rw [verifyAttestation, hchain, hlist]
    rfl
  rw [← not_not (a := Listed _ _ _ _), ← checkRevocation_eq_ok_iff hparse, hverify]
  constructor
  · rintro ⟨e, he, hrevoked⟩ hok
    rw [hok] at he
    -- past the revocation check no step raises a revocation
    exact attestLeaf_raises _ _ _ _ _ e he hrevoked
  · intro hne
    rcases hcheck : checkRevocation cr (some list) chain with f | _
    · obtain ⟨e, rfl, hrevoked⟩ := checkRevocation_eq_error hparse hcheck
      exact ⟨e, rfl, hrevoked⟩
    · exact absurd hcheck hne

/-! ### Exactness -/

/-- The integer a serial's DER contents encode, if it is not negative. -/
def serialValue (serial : Bytes) : Option ℕ :=
  if KeyDescription.isNegative serial = true then none else some (ofBe serial)

/-- The key is a base-16 numeral of the serial's value. -/
def NamesSerial (serial : Bytes) (key : String) : Prop :=
  ∃ v, serialValue serial = some v ∧ Hex.nat? key = some v

/-- A numeral without leading zeros. -/
def MinimalHex (key : String) : Prop := key = "0" ∨ key.toList.head? ≠ some '0'

/-- Revocation at one call: it ends in `Revoked` exactly when the list names a
serial of the chain, and it does not succeed when one is listed in minimal hex. -/
def RevocationExact (cr : Crates) (pinnedRootsDer chain : List Bytes) (challenge : Bytes)
    (policy : Policy) (clockMs : UInt64) (list : StatusList) : Prop :=
  ((∃ e, verifyAttestation cr pinnedRootsDer chain challenge policy clockMs = .error (.err e) ∧
      IsRevoked e) ↔ Listed cr chain list NamesSerial) ∧
  ((Listed cr chain list fun serial key => NamesSerial serial key ∧ MinimalHex key) →
    ∀ outcome, verifyAttestation cr pinnedRootsDer chain challenge policy clockMs ≠ .ok outcome)

/-- Revocation is exact at a call exactly when some serial of the chain is listed
by value just if one is listed in whole octets. -/
theorem revocationExact_iff
    (hchain : validateChain cr pinnedRootsDer chain clockMs = .ok leaf)
    (hlist : policy.statusList = some list) :
    RevocationExact cr pinnedRootsDer chain challenge policy clockMs list ↔
      (Listed cr chain list NamesSerial ↔ Listed cr chain list fun serial key =>
        Hex.WholeOctets key ∧ Hex.nat? key = some (ofBe serial)) := by
  simp only [RevocationExact, verifyAttestation_revoked_iff hchain hlist,
    serialHex_eq_octetNumeral, Hex.eq_octetNumeral_iff]
  constructor
  · rintro ⟨hexact, -⟩
    exact hexact.symm
  · intro h
    refine ⟨h.symm, ?_⟩
    rintro ⟨der, hder, cert, hcert, key, hkey, hnames, -⟩ outcome hok
    have hlisted := h.mp ⟨der, hder, cert, hcert, key, hkey, hnames⟩
    simp only [← Hex.eq_octetNumeral_iff, ← serialHex_eq_octetNumeral] at hlisted
    obtain ⟨e, he, -⟩ := (verifyAttestation_revoked_iff hchain hlist).mpr hlisted
    rw [hok] at he
    cases he

/-- A two-certificate chain whose leaf has the given serial. -/
def serialChain (serial : Bytes) : List Certificate :=
  let attested := KeyDescription.extension 1 [7] (KeyDescription.rootOfTrustElement [9] 0xFF 0)
  [Crates.issue [1] serial [0x0B] [0x0A] [attested],
    Crates.issue [2] [1] [0x0A] [0x0A] [Crates.caExtension]]

def keyCompromise : StatusEntry := ⟨"REVOKED", "KEY_COMPROMISE"⟩

theorem revocationExact_wholeOctets :
    RevocationExact (.ofTables (serialChain [0x5A, 0x11]) []) [[2]] [[1], [2]] [7]
      { statusList := some (.singleton "5a11" keyCompromise) } 0
      (.singleton "5a11" keyCompromise) := by
  have hchain : validateChain (.ofTables (serialChain [0x5A, 0x11]) []) [[2]] [[1], [2]] 0 =
      .ok (serialChain [0x5A, 0x11])[0] := by
    decide +kernel
  refine (revocationExact_iff hchain rfl).mpr (iff_of_true ?_ ?_)
  · exact ⟨[1], by simp, (serialChain [0x5A, 0x11])[0], by decide +kernel, "5a11",
      by decide +kernel, 0x5A11, by decide +kernel, by decide +kernel⟩
  · exact ⟨[1], by simp, (serialChain [0x5A, 0x11])[0], by decide +kernel, "5a11",
      by decide +kernel, by decide +kernel, by decide +kernel⟩

def oddSerial : Bytes := [0x03, 0x88, 0x26, 0x67, 0x60, 0x65, 0x89, 0x96, 0x85, 0x7D]

def oddList : StatusList := .singleton "388266760658996857d" keyCompromise

/-- A serial listed with an odd number of digits is attested. -/
theorem oddSerial_missed :
    StatusList.fromJson (.ofTables (serialChain oddSerial) [])
        ("\x7b\"entries\": \x7b\"388266760658996857d\": " ++
          "\x7b\"status\": \"REVOKED\", \"reason\": \"KEY_COMPROMISE\"\x7d\x7d\x7d") = .ok oddList ∧
      ¬ RevocationExact (.ofTables (serialChain oddSerial) []) [[2]] [[1], [2]] [7]
        { statusList := some oddList } 0 oddList := by
  refine ⟨by decide +kernel, ?_⟩
  rintro ⟨-, hminimal⟩
  obtain ⟨outcome, hok⟩ := exists_eq_ok (x := verifyAttestation
    (.ofTables (serialChain oddSerial) []) [[2]] [[1], [2]] [7]
    { statusList := some oddList } 0) (by decide +kernel)
  exact hminimal ⟨[1], by simp, (serialChain oddSerial)[0], by decide +kernel,
    "388266760658996857d", by decide +kernel,
    ⟨ofBe oddSerial, by decide +kernel, by decide +kernel⟩, .inr (by decide +kernel)⟩ outcome hok

end Attestation.Android
