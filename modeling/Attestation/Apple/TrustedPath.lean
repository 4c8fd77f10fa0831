import Attestation.Apple.Roots

/-! Trusted certificate paths of App Attest, defined along the path, and chain
validation, which checks parsing, validity, the CA flags, the adjacent signatures
and the anchor in loops of their own. The two agree on chains of every length. -/

namespace Attestation.Apple

open Result X509

variable (cr : Crates)

/-! ### Signatures -/

/-- A signature under one of the three supported pairs of an issuer's curve and a
certificate's signature algorithm. -/
inductive SignatureValid (pk msg sig : Bytes) : ObjectIdentifier → ObjectIdentifier → Prop
  | p256 {key : cr.p256.VerifyingKey} {s : cr.p256.DerSignature}
      (hkey : cr.p256.fromSec1Bytes pk = .ok key) (hsig : cr.p256.signatureFromDer sig = .ok s)
      (hverify : cr.p256.verify key msg s = true) :
      SignatureValid pk msg sig .secp256r1 .ecdsaSha256
  | p384 {key : cr.p384.VerifyingKey} {s : cr.p384.DerSignature}
      (hkey : cr.p384.fromSec1Bytes pk = .ok key) (hsig : cr.p384.signatureFromDer sig = .ok s)
      (hverify : cr.p384.verify key msg s = true) :
      SignatureValid pk msg sig .secp384r1 .ecdsaSha384
  | p384Sha256 {key : cr.p384.VerifyingKey} {s : cr.p384.DerSignature}
      (hkey : cr.p384.fromSec1Bytes pk = .ok key) (hsig : cr.p384.signatureFromDer sig = .ok s)
      (hverify : cr.p384.verifyPrehash key (cr.sha256 msg) s = true) :
      SignatureValid pk msg sig .secp384r1 .ecdsaSha256

/-- The certificate's signature verifies under the issuer's key. -/
def SignedBy (cert issuer : Certificate) : Prop :=
  ∃ pk curve tbs sig,
    issuer.tbsCertificate.subjectPublicKeyInfo.subjectPublicKey.asBytes = some pk ∧
    issuer.tbsCertificate.subjectPublicKeyInfo.algorithm.parameters.bind cr.decodeAsOid =
      some curve ∧
    cr.tbsCertificateToDer cert.tbsCertificate = .ok tbs ∧ cert.signature.asBytes = some sig ∧
    SignatureValid cr pk tbs sig curve cert.signatureAlgorithm.oid

variable {cr}

theorem verifyEcdsa_eq_ok {curve : Ecdsa} {name : String}
    {check : curve.VerifyingKey → curve.DerSignature → Bool} {pk sig : Bytes} {u : Unit} :
    verifyEcdsa errors curve name check pk sig = .ok u ↔
      ∃ key s, curve.fromSec1Bytes pk = .ok key ∧ curve.signatureFromDer sig = .ok s ∧
        check key s = true := by
  simp only [verifyEcdsa, bind_eq_ok, ofExcept_eq_ok, ensure_eq_ok]
  constructor
  · rintro ⟨key, hkey, s, hs, hcheck⟩
    exact ⟨key, s, hkey, hs, hcheck⟩
  · rintro ⟨key, s, hkey, hs, hcheck⟩
    exact ⟨key, hkey, s, hs, hcheck⟩

theorem signatureValid_iff {pk msg sig : Bytes} {curve alg : ObjectIdentifier} {u : Unit} :
    (if curve = .secp256r1 ∧ alg = .ecdsaSha256 then verifyP256 cr pk msg sig
      else if curve = .secp384r1 ∧ alg = .ecdsaSha384 then verifyP384 cr pk msg sig
      else if curve = .secp384r1 ∧ alg = .ecdsaSha256 then verifyP384Sha256 cr pk msg sig
      else fail (.der ("unsupported curve/sig combination: curve=" ++ curve.toString ++
        " sig=" ++ alg.toString))) = .ok u ↔ SignatureValid cr pk msg sig curve alg := by
  constructor
  · intro h
    split_ifs at h with h256 h384 h384'
    · obtain ⟨rfl, rfl⟩ := h256
      obtain ⟨key, s, hkey, hs, hcheck⟩ := verifyEcdsa_eq_ok.mp h
      exact .p256 hkey hs hcheck
    · obtain ⟨rfl, rfl⟩ := h384
      obtain ⟨key, s, hkey, hs, hcheck⟩ := verifyEcdsa_eq_ok.mp h
      exact .p384 hkey hs hcheck
    · obtain ⟨rfl, rfl⟩ := h384'
      obtain ⟨key, s, hkey, hs, hcheck⟩ := verifyEcdsa_eq_ok.mp h
      exact .p384Sha256 hkey hs hcheck
    · exact absurd h fail_ne_ok
  · intro h
    cases h with
    | p256 hkey hs hcheck => exact verifyEcdsa_eq_ok.mpr ⟨_, _, hkey, hs, hcheck⟩
    | p384 hkey hs hcheck => exact verifyEcdsa_eq_ok.mpr ⟨_, _, hkey, hs, hcheck⟩
    | p384Sha256 hkey hs hcheck => exact verifyEcdsa_eq_ok.mpr ⟨_, _, hkey, hs, hcheck⟩

theorem verifySignature_eq_ok {cert issuer : Certificate} {u : Unit} :
    verifySignature cr cert issuer = .ok u ↔ SignedBy cr cert issuer := by
  simp only [verifySignature, bind_eq_ok, okOr_eq_ok, ofExcept_eq_ok, signatureValid_iff, SignedBy]
  constructor
  · rintro ⟨pk, hpk, curve, hcurve, tbs, htbs, sig, hsig, hvalid⟩
    exact ⟨pk, curve, tbs, sig, hpk, hcurve, htbs, hsig, hvalid⟩
  · rintro ⟨pk, curve, tbs, sig, hpk, hcurve, htbs, hsig, hvalid⟩
    exact ⟨pk, hpk, curve, hcurve, tbs, htbs, sig, hsig, hvalid⟩

/-! ### Paths -/

variable (cr) in
/-- A path of certificates, leaf first, to the pinned root at a time. -/
inductive TrustedPath (rootDer : Bytes) (clockMs : UInt64) : List Bytes → Prop
  | anchor {der : Bytes} {cert root : Certificate}
      (hparse : cr.certificateFromDer der = .ok cert) (hvalid : ValidAt cert clockMs)
      (hroot : cr.certificateFromDer rootDer = .ok root) (hrootValid : ValidAt root clockMs)
      (hrootCa : IsCa cr root) (hsigned : SignedBy cr cert root) :
      TrustedPath rootDer clockMs [der]
  | link {der issuerDer : Bytes} {rest : List Bytes} {cert issuer : Certificate}
      (htrusted : TrustedPath rootDer clockMs (issuerDer :: rest))
      (hissuer : cr.certificateFromDer issuerDer = .ok issuer) (hca : IsCa cr issuer)
      (hparse : cr.certificateFromDer der = .ok cert) (hvalid : ValidAt cert clockMs)
      (hsigned : SignedBy cr cert issuer) :
      TrustedPath rootDer clockMs (der :: issuerDer :: rest)

variable (cr) in
/-- What chain validation checks of parsed certificates and a parsed root, the clock
apart. -/
structure ChainSigned (certs : List Certificate) (root : Certificate) : Prop where
  issuersCa : ∀ cert ∈ certs.tail, IsCa cr cert
  signed : ∀ p ∈ certs.zip certs.tail, SignedBy cr p.1 p.2
  rootCa : IsCa cr root
  topSigned : ∀ top, certs.getLast? = some top → SignedBy cr top root

variable {rootDer : Bytes} {x5c : List Bytes} {clockMs : UInt64} {leaf : Certificate}

theorem validateX5cChain_eq_ok :
    validateX5cChain cr rootDer x5c clockMs = .ok leaf ↔
      ∃ certs root, List.Forall₂ (fun der cert => cr.certificateFromDer der = .ok cert) x5c certs ∧
        cr.certificateFromDer rootDer = .ok root ∧ ChainSigned cr certs root ∧
        (∀ cert ∈ root :: certs, ValidAt cert clockMs) ∧ certs.head? = some leaf := by
  simp only [validateX5cChain, bind_eq_ok, mapM_eq_ok, parse_eq_ok, expect_eq_ok, forM_eq_ok,
    ensure_eq_ok, checkValidity, checkIsCa, checkValidity_eq_ok, checkIsCa_eq_ok,
    verifySignature_eq_ok, exists_const, List.forall_mem_cons]
  constructor
  · rintro ⟨-, certs, hparse, hvalid, hca, hsigned, root, hroot, hrootValid, hrootCa, top, htop,
      htopSigned, hleaf⟩
    refine ⟨certs, root, hparse, hroot, ⟨hca, hsigned, hrootCa, ?_⟩, ⟨hrootValid, hvalid⟩, hleaf⟩
    rw [htop]
    rintro _ ⟨⟩
    exact htopSigned
  · rintro ⟨certs, root, hparse, hroot, ⟨hca, hsigned, hrootCa, htop⟩, ⟨hrootValid, hvalid⟩, hleaf⟩
    obtain ⟨rest, rfl⟩ := List.head?_eq_some_iff.mp hleaf
    have hne : ¬ x5c = [] := by
      rintro rfl
      cases hparse
    have hlast := List.getLast?_eq_some_getLast (List.cons_ne_nil leaf rest)
    exact ⟨hne, _, hparse, hvalid, hca, hsigned, root, hroot, hrootValid, hrootCa, _, hlast,
      htop _ hlast, hleaf⟩

theorem chainSigned_singleton {cert root : Certificate} :
    ChainSigned cr [cert] root ↔ IsCa cr root ∧ SignedBy cr cert root := by
  constructor
  · intro h
    exact ⟨h.rootCa, h.topSigned cert rfl⟩
  · rintro ⟨hca, hsigned⟩
    refine ⟨by simp, by simp, hca, ?_⟩
    rintro _ ⟨⟩
    exact hsigned

theorem chainSigned_cons {cert issuer root : Certificate} {rest : List Certificate} :
    ChainSigned cr (cert :: issuer :: rest) root ↔
      ChainSigned cr (issuer :: rest) root ∧ IsCa cr issuer ∧ SignedBy cr cert issuer := by
  constructor
  · intro h
    refine ⟨⟨fun c hc => h.issuersCa c ?_, fun p hp => h.signed p ?_, h.rootCa, h.topSigned⟩,
      h.issuersCa issuer (by simp), h.signed (cert, issuer) (by simp)⟩
    · exact List.mem_cons_of_mem _ hc
    · exact List.mem_cons_of_mem _ hp
  · rintro ⟨h, hca, hsigned⟩
    refine ⟨?_, ?_, h.rootCa, h.topSigned⟩
    · exact List.forall_mem_cons.mpr ⟨hca, h.issuersCa⟩
    · exact List.forall_mem_cons.mpr ⟨hsigned, h.signed⟩

theorem trustedPath_iff :
    TrustedPath cr rootDer clockMs x5c ↔
      ∃ certs root, List.Forall₂ (fun der cert => cr.certificateFromDer der = .ok cert) x5c certs ∧
        cr.certificateFromDer rootDer = .ok root ∧ ChainSigned cr certs root ∧
        (∀ cert ∈ root :: certs, ValidAt cert clockMs) ∧ certs ≠ [] := by
  constructor
  · intro h
    induction h with
    | anchor hparse hvalid hroot hrootValid hrootCa hsigned =>
      refine ⟨[_], _, .cons hparse .nil, hroot, chainSigned_singleton.mpr ⟨hrootCa, hsigned⟩, ?_,
        by simp⟩
      simp [hrootValid, hvalid]
    | link htrusted hissuer hca hparse hvalid hsigned ih =>
      obtain ⟨certs, root, hcerts, hroot, hchain, hvalids, -⟩ := ih
      cases hcerts with
      | cons hissuer' hrest =>
        obtain rfl := Except.ok.inj (hissuer.symm.trans hissuer')
        refine ⟨_, root, .cons hparse (.cons hissuer hrest), hroot,
          chainSigned_cons.mpr ⟨hchain, hca, hsigned⟩, ?_, by simp⟩
        simp only [List.forall_mem_cons] at hvalids ⊢
        exact ⟨hvalids.1, hvalid, hvalids.2⟩
  · rintro ⟨certs, root, hcerts, hroot, hchain, hvalids, hne⟩
    -- the leaf is dropped at each step, and what remains is again a signed chain
    induction hcerts with
    | nil => exact absurd rfl hne
    | cons hparse hrest ih =>
      cases hrest with
      | nil =>
        obtain ⟨hca, hsigned⟩ := chainSigned_singleton.mp hchain
        exact .anchor hparse (hvalids _ (by simp)) hroot (hvalids _ (by simp)) hca hsigned
      | cons hissuer hrest =>
        obtain ⟨hchain', hca, hsigned⟩ := chainSigned_cons.mp hchain
        refine .link (ih hchain' ?_ (by simp)) hissuer hca hparse (hvalids _ (by simp)) hsigned
        simp only [List.forall_mem_cons] at hvalids ⊢
        exact ⟨hvalids.1, hvalids.2.2⟩

theorem trustedPath_of_validate (h : validateX5cChain cr rootDer x5c clockMs = .ok leaf) :
    TrustedPath cr rootDer clockMs x5c := by
  obtain ⟨certs, root, hparse, hroot, hchain, hvalid, hleaf⟩ := validateX5cChain_eq_ok.mp h
  refine trustedPath_iff.mpr ⟨certs, root, hparse, hroot, hchain, hvalid, ?_⟩
  rintro rfl
  cases hleaf

theorem validate_of_trustedPath (h : TrustedPath cr rootDer clockMs x5c) :
    ∃ leaf, validateX5cChain cr rootDer x5c clockMs = .ok leaf := by
  obtain ⟨certs, root, hparse, hroot, hchain, hvalid, hne⟩ := trustedPath_iff.mp h
  obtain ⟨leaf, rest, rfl⟩ := List.exists_cons_of_ne_nil hne
  exact ⟨leaf, validateX5cChain_eq_ok.mpr ⟨_, root, hparse, hroot, hchain, hvalid, rfl⟩⟩

theorem TrustedPath.tail {der issuerDer : Bytes} {rest : List Bytes}
    (h : TrustedPath cr rootDer clockMs (der :: issuerDer :: rest)) :
    TrustedPath cr rootDer clockMs (issuerDer :: rest) := by
  cases h with
  | link htrusted => exact htrusted

theorem TrustedPath.issuers_ca (h : TrustedPath cr rootDer clockMs x5c) :
    ∀ der ∈ x5c.tail, ∃ cert, cr.certificateFromDer der = .ok cert ∧ IsCa cr cert := by
  induction h with
  | anchor => simp
  | link _ hissuer hca _ _ _ ih => exact List.forall_mem_cons.mpr ⟨⟨_, hissuer, hca⟩, ih⟩

/-- Chain validation accepts exactly the trusted paths and returns the parse of the
first certificate; what it accepts stays accepted without its leaf, and every issuer
on it is a CA. -/
theorem validateX5cChain_iff_trustedPath (cr : Crates) (rootDer : Bytes) (x5c : List Bytes)
    (clockMs : UInt64) :
    (∀ leaf, validateX5cChain cr rootDer x5c clockMs = .ok leaf ↔
      TrustedPath cr rootDer clockMs x5c ∧
        ∃ der, x5c.head? = some der ∧ cr.certificateFromDer der = .ok leaf) ∧
    ((∃ leaf, validateX5cChain cr rootDer x5c clockMs = .ok leaf) ↔
      TrustedPath cr rootDer clockMs x5c) ∧
    (∀ der issuerDer rest leaf, x5c = der :: issuerDer :: rest →
      validateX5cChain cr rootDer x5c clockMs = .ok leaf →
      ∃ issuer, validateX5cChain cr rootDer (issuerDer :: rest) clockMs = .ok issuer) ∧
    (∀ leaf, validateX5cChain cr rootDer x5c clockMs = .ok leaf →
      ∀ der ∈ x5c.tail, ∃ cert, cr.certificateFromDer der = .ok cert ∧ IsCa cr cert) := by
  refine ⟨fun leaf => ⟨fun h => ?_, ?_⟩, ⟨?_, validate_of_trustedPath⟩, ?_, ?_⟩
  · exact ⟨trustedPath_of_validate h, leaf_of_validateX5cChain h⟩
  · rintro ⟨htrusted, der, hder, hleaf⟩
    obtain ⟨leaf', h⟩ := validate_of_trustedPath htrusted
    obtain ⟨der', hder', hleaf'⟩ := leaf_of_validateX5cChain h
    obtain rfl := Option.some.inj (hder.symm.trans hder')
    obtain rfl := Except.ok.inj (hleaf.symm.trans hleaf')
    exact h
  · rintro ⟨leaf, h⟩
    exact trustedPath_of_validate h
  · rintro der issuerDer rest leaf rfl h
    exact validate_of_trustedPath (trustedPath_of_validate h).tail
  · intro leaf h
    exact (trustedPath_of_validate h).issuers_ca

end Attestation.Apple
