import Attestation.Android.ChainForms
import Attestation.Apple.TrustedPath

/-! The two chain validators side by side. Each crate has its own copy of the loops and of
the signature check. Over issuers with EC keys and for one pinned root, the copies accept the
same chains, but for the CA check: the Android copy makes it and drops its result. -/

namespace Attestation.System

open Result X509

variable {cr : Crates} {rootDer : Bytes} {x5c : List Bytes} {clockMs : UInt64}
  {cert issuer root top leaf : Certificate} {certs : List Certificate}

/-! ### One signature -/

/-- The certificate is for an EC key. -/
def EcKey (cert : Certificate) : Prop :=
  cert.tbsCertificate.subjectPublicKeyInfo.algorithm.oid = .ecPublicKey

/-- Whether a signature verifies does not depend on the errors of the crate. -/
theorem verifyEcdsa_ok_iff {ε ε' : Type} {errors : Errors ε} {errors' : Errors ε'} {curve : Ecdsa}
    {name : String} {check : curve.VerifyingKey → curve.DerSignature → Bool} {pk sig : Bytes} :
    verifyEcdsa errors curve name check pk sig = .ok () ↔
      verifyEcdsa errors' curve name check pk sig = .ok () := by
  simp only [verifyEcdsa, bind_eq_ok, ofExcept_eq_ok, ensure_eq_ok]

theorem signatureValid_iff_android {pk msg sig : Bytes} {curve alg : ObjectIdentifier}
    {e : Android.Error} :
    (if curve = .secp256r1 ∧ alg = .ecdsaSha256 then Android.verifyP256 cr pk msg sig
      else if curve = .secp384r1 ∧ alg = .ecdsaSha384 then Android.verifyP384 cr pk msg sig
      else if curve = .secp384r1 ∧ alg = .ecdsaSha256 then Android.verifyP384Sha256 cr pk msg sig
      else fail e) = .ok () ↔ Apple.SignatureValid cr pk msg sig curve alg := by
  rw [← Apple.signatureValid_iff]
  split_ifs
  · exact verifyEcdsa_ok_iff
  · exact verifyEcdsa_ok_iff
  · exact verifyEcdsa_ok_iff
  · simp [fail_ne_ok]

/-- Under an EC key the Android crate accepts the signatures that the Apple crate does. -/
theorem signs_iff (hec : EcKey issuer) :
    Android.verifySignature cr cert issuer = .ok () ↔ Apple.SignedBy cr cert issuer := by
  unfold EcKey at hec
  simp only [Android.verifySignature, hec, if_true, bind_eq_ok, okOr_eq_ok, ofExcept_eq_ok,
    signatureValid_iff_android, Apple.SignedBy]
  constructor
  · rintro ⟨pk, hpk, tbs, htbs, sig, hsig, curve, hcurve, hvalid⟩
    exact ⟨pk, curve, tbs, sig, hpk, hcurve, htbs, hsig, hvalid⟩
  · rintro ⟨pk, curve, tbs, sig, hpk, hcurve, htbs, hsig, hvalid⟩
    exact ⟨pk, hpk, tbs, htbs, sig, hsig, curve, hcurve, hvalid⟩

/-! ### One chain -/

/-- A single root anchors exactly what it is or signs. -/
theorem anchor_singleton : Android.anchor cr top clockMs [root] = .ok true ↔
    Android.Anchors cr root top clockMs := by
  rw [Android.anchor_eq_ok_true]
  constructor
  · rintro ⟨root', hfind, hanchors⟩
    obtain rfl := List.mem_singleton.mp (List.mem_of_find?_eq_some hfind)
    exact hanchors
  · intro hanchors
    refine ⟨root, List.find?_cons_of_pos ?_, hanchors⟩
    simpa using hanchors.imp_right And.left

/-- The Android copy on parsed certificates and one parsed root. -/
theorem validateChain_singleton_eq_ok : Android.validateChain cr [rootDer] x5c clockMs = .ok leaf ↔
    ∃ certs root top, Android.ParsesTo cr x5c certs ∧ cr.certificateFromDer rootDer = .ok root ∧
      (∀ cert ∈ certs, ValidAt cert clockMs) ∧
      (∀ p ∈ certs.zip certs.tail, Android.verifySignature cr p.1 p.2 = .ok ()) ∧
      certs.getLast? = some top ∧ Android.Anchors cr root top clockMs ∧
      certs.head? = some leaf := by
  rw [Android.validateChain_eq_ok]
  constructor
  · rintro ⟨certs, ⟨-, hparsed, hvalid, hsigned, roots, top, hroots, htop, hanchor⟩, hleaf⟩
    obtain ⟨root, rest, hroot, hrest, rfl⟩ := List.forall₂_cons_left_iff.mp hroots
    obtain rfl := List.forall₂_nil_left_iff.mp hrest
    exact ⟨certs, root, top, hparsed, hroot, hvalid, hsigned, htop, anchor_singleton.mp hanchor,
      hleaf⟩
  · rintro ⟨certs, root, top, hparsed, hroot, hvalid, hsigned, htop, hanchors, hleaf⟩
    have hne : x5c ≠ [] := by
      rintro rfl
      cases hparsed
      cases hleaf
    exact ⟨certs, ⟨hne, hparsed, hvalid, hsigned, [root], top, .cons hroot .nil, htop,
      anchor_singleton.mpr hanchors⟩, hleaf⟩

/-- What holds of the certificates that a list of encodings parses to. -/
theorem forall_mem_iff_forall_der {P : Certificate → Prop} {ders : List Bytes}
    (h : Android.ParsesTo cr ders certs) : (∀ cert ∈ certs, P cert) ↔
      ∀ der ∈ ders, ∃ cert, cr.certificateFromDer der = .ok cert ∧ P cert := by
  unfold Android.ParsesTo at h
  induction h with
  | nil => simp
  | cons hder _ ih => simp [ih, hder]

theorem parsesTo_issuers (h : Android.ParsesTo cr x5c certs)
    (hroot : cr.certificateFromDer rootDer = .ok root) :
    Android.ParsesTo cr (x5c.tail ++ [rootDer]) (certs.tail ++ [root]) := by
  refine List.rel_append ?_ (.cons hroot .nil)
  cases h with
  | nil => exact .nil
  | cons _ hrest => exact hrest

theorem issuers_ec (h : Android.ParsesTo cr x5c certs)
    (hroot : cr.certificateFromDer rootDer = .ok root)
    (hec : ∀ der ∈ x5c.tail ++ [rootDer], ∀ cert, cr.certificateFromDer der = .ok cert →
      EcKey cert) : (∀ cert ∈ certs.tail, EcKey cert) ∧ EcKey root := by
  have hissuers := parsesTo_issuers h hroot
  rw [← List.forall_mem_singleton (p := EcKey) (a := root), ← List.forall_mem_append,
    forall_mem_iff_forall_der hissuers]
  intro der hder
  obtain ⟨cert, hcert, -⟩ :=
    (forall_mem_iff_forall_der hissuers).mp (fun _ _ => trivial) der hder
  exact ⟨cert, hcert, hec der hder cert hcert⟩

/-- Over EC issuers, and a self-signed root, the Apple validator accepts exactly the chains
that the Android validator accepts and whose issuers, the root included, are all CAs; it
returns the same leaf. -/
theorem validators_agree
    (hencodes : ∀ der der' cert cert', cr.certificateFromDer der = .ok cert →
      cr.certificateFromDer der' = .ok cert' → Android.Identical cr cert cert' → cert = cert')
    (hself : ∀ root, cr.certificateFromDer rootDer = .ok root →
      Android.verifySignature cr root root = .ok ())
    (hec : ∀ der ∈ x5c.tail ++ [rootDer], ∀ cert, cr.certificateFromDer der = .ok cert →
      EcKey cert) :
    Apple.validateX5cChain cr rootDer x5c clockMs = .ok leaf ↔
      Android.validateChain cr [rootDer] x5c clockMs = .ok leaf ∧
        ∀ der ∈ x5c.tail ++ [rootDer], ∃ cert, cr.certificateFromDer der = .ok cert ∧
          IsCa cr cert := by
  rw [Apple.validateX5cChain_eq_ok, validateChain_singleton_eq_ok]
  constructor
  · rintro ⟨certs, root, hparsed, hroot, hchain, hvalid, hleaf⟩
    obtain ⟨hrootValid, hvalid⟩ := List.forall_mem_cons.mp hvalid
    obtain ⟨hissuersEc, hrootEc⟩ := issuers_ec hparsed hroot hec
    obtain ⟨rest, rfl⟩ := List.head?_eq_some_iff.mp hleaf
    have htop := List.getLast?_eq_some_getLast (List.cons_ne_nil leaf rest)
    refine ⟨⟨_, root, _, hparsed, hroot, hvalid, fun p hp => ?_, htop, .inr ⟨?_, hrootValid⟩,
      hleaf⟩, (forall_mem_iff_forall_der (parsesTo_issuers hparsed hroot)).mp ?_⟩
    · exact (signs_iff (hissuersEc p.2 (List.of_mem_zip hp).2)).mpr (hchain.signed p hp)
    · exact (signs_iff hrootEc).mpr (hchain.topSigned _ htop)
    · exact List.forall_mem_append.mpr
        ⟨hchain.issuersCa, List.forall_mem_singleton.mpr hchain.rootCa⟩
  · rintro ⟨⟨certs, root, top, hparsed, hroot, hvalid, hsigned, htop, hanchors, hleaf⟩, hcas⟩
    obtain ⟨hissuersEc, hrootEc⟩ := issuers_ec hparsed hroot hec
    obtain ⟨hissuersCa, hrootCa⟩ := List.forall_mem_append.mp
      ((forall_mem_iff_forall_der (parsesTo_issuers hparsed hroot)).mpr hcas)
    have hrootSigns : Android.Signs cr root top ∧ ValidAt root clockMs := by
      rcases hanchors with hidentical | hsigns
      · -- the chain ends in the root itself, which the Android copy does not verify
        have hmem := List.mem_of_getLast? htop
        obtain ⟨der, -, _, hder, rfl⟩ := (Android.exists_mem_iff_exists_der
          (P := (top = ·)) hparsed).mp ⟨top, hmem, rfl⟩
        obtain rfl := hencodes _ _ _ _ hroot hder hidentical
        exact ⟨hself root hroot, hvalid root hmem⟩
      · exact hsigns
    refine ⟨certs, root, hparsed, hroot, ⟨hissuersCa, fun p hp => ?_,
      List.forall_mem_singleton.mp hrootCa, ?_⟩, List.forall_mem_cons.mpr ⟨hrootSigns.2, hvalid⟩,
      hleaf⟩
    · exact (signs_iff (hissuersEc p.2 (List.of_mem_zip hp).2)).mp (hsigned p hp)
    · intro top' htop'
      obtain rfl := Option.some.inj (htop.symm.trans htop')
      exact (signs_iff hrootEc).mp hrootSigns.1

section Sample

/-- A leaf, its issuer and a root, all with EC keys. -/
def ecCerts : List Certificate :=
  [Crates.issue [1] [1] [0x0C] [0x0B] [], Crates.issue [2] [2] [0x0B] [0x0A] [Crates.caExtension],
    Crates.issue [3] [3] [0x0A] [0x0A] [Crates.caExtension]]

theorem certificate_of_der {certificates : List Certificate} {items : List (Bytes × Cbor.Value)}
    {der : Bytes} (h : (Crates.ofTables certificates items).certificateFromDer der = .ok cert) :
    cert ∈ certificates ∧ cert.tbsCertificate.rest = der := by
  dsimp only [Crates.ofTables] at h
  split at h
  · rename_i found hfound
    obtain rfl := Except.ok.inj h
    exact ⟨List.mem_of_find?_eq_some hfound, by simpa using List.find?_some hfound⟩
  · cases h

theorem validators_agree_sample : ∃ leaf,
    Android.validateChain (.ofTables ecCerts []) [[3]] [[1], [2]] 0 = .ok leaf ∧
      ∀ der ∈ [[2], [3]], ∃ cert, (Crates.ofTables ecCerts []).certificateFromDer der = .ok cert ∧
        IsCa (.ofTables ecCerts []) cert := by
  obtain ⟨leaf, hleaf⟩ := exists_eq_ok (x := Apple.validateX5cChain (.ofTables ecCerts []) [3]
    [[1], [2]] 0) (by decide +kernel)
  refine ⟨leaf, (validators_agree ?_ ?_ ?_).mp hleaf⟩
  · rintro der der' cert cert' hder hder' ⟨_, hcert, hcert'⟩
    obtain rfl : der = der' := by
      rw [← (certificate_of_der hder).2, ← (certificate_of_der hder').2]
      exact Except.ok.inj (hcert.trans hcert'.symm)
    exact Except.ok.inj (hder.symm.trans hder')
  · intro root hroot
    have hknown : (Crates.ofTables ecCerts []).certificateFromDer [3] = .ok ecCerts[2] := by
      decide +kernel
    obtain rfl := Except.ok.inj (hroot.symm.trans hknown)
    decide +kernel
  · intro der _ cert hcert
    have hec : ∀ cert ∈ ecCerts, EcKey cert := by simp [ecCerts, EcKey, Crates.issue]
    exact hec cert (certificate_of_der hcert).1

end Sample

end Attestation.System
