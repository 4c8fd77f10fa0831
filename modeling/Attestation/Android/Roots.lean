import Attestation.Android.Errors

/-! Chain validation for Android Key Attestation: an X.509 chain, leaf first, up
to one of the pinned Google roots. The pinned roots are a parameter. -/

namespace Attestation.Android

open Result

variable (cr : Crates)

def checkValidity (cert : Certificate) (nowMs : UInt64) : Result Error Unit :=
  X509.checkValidity errors cert nowMs

def checkIsCa (cert : Certificate) : Result Error Unit := X509.checkIsCa errors cr cert

def verifyP256 (pk msg sig : Bytes) : Result Error Unit := X509.verifyP256 errors cr pk msg sig

def verifyP384 (pk msg sig : Bytes) : Result Error Unit := X509.verifyP384 errors cr pk msg sig

def verifyP384Sha256 (pk msg sig : Bytes) : Result Error Unit :=
  X509.verifyP384Sha256 errors cr pk msg sig

def verifyRsaPkcs1v15Sha256 (spkiBitString msg sig : Bytes) : Result Error Unit := do
  let pk ← ofExcept (fun e => Error.der ("rsa pkcs1 decode: " ++ e))
    (cr.rsa.fromPkcs1Der spkiBitString)
  let signature ← ofExcept (fun e => Error.der ("rsa sig decode: " ++ e))
    (cr.rsa.signatureFromBytes sig)
  ensure (cr.rsa.verify pk msg signature = true) .untrustedChain

/-- Verify `cert.signature` over `cert.tbsCertificate` under `issuer`'s SPKI. -/
def verifySignature (cert issuer : Certificate) : Result Error Unit := do
  let issuerSpki := issuer.tbsCertificate.subjectPublicKeyInfo
  let issuerPkBytes ← okOr (.der "issuer public key not byte-aligned")
    issuerSpki.subjectPublicKey.asBytes
  let sigAlgOid := cert.signatureAlgorithm.oid
  let tbsBytes ← ofExcept (fun e => Error.der ("tbs encode: " ++ e))
    (cr.tbsCertificateToDer cert.tbsCertificate)
  let sigBytes ← okOr (.der "signature not byte-aligned") cert.signature.asBytes
  let issuerAlg := issuerSpki.algorithm.oid
  if issuerAlg = .ecPublicKey then do
    let curve ← okOr (.der "issuer SPKI missing named-curve parameter")
      (issuerSpki.algorithm.parameters.bind cr.decodeAsOid)
    if curve = .secp256r1 ∧ sigAlgOid = .ecdsaSha256 then
      verifyP256 cr issuerPkBytes tbsBytes sigBytes
    else if curve = .secp384r1 ∧ sigAlgOid = .ecdsaSha384 then
      verifyP384 cr issuerPkBytes tbsBytes sigBytes
    else if curve = .secp384r1 ∧ sigAlgOid = .ecdsaSha256 then
      verifyP384Sha256 cr issuerPkBytes tbsBytes sigBytes
    else fail (.der ("unsupported EC curve/sig combination: curve=" ++ curve.toString ++
      " sig=" ++ sigAlgOid.toString))
  else if issuerAlg = .rsaEncryption then
    if sigAlgOid = .sha256WithRsa then
      verifyRsaPkcs1v15Sha256 cr issuerPkBytes tbsBytes sigBytes
    else fail (.der ("unsupported RSA sig: " ++ sigAlgOid.toString))
  else fail (.der ("unsupported issuer SPKI algorithm: " ++ issuerAlg.toString))

/-- `top` is byte-identical to `root`'s DER encoding. -/
def rootMatchesTop (root top : Certificate) : Bool :=
  match cr.certificateToDer root, cr.certificateToDer top with
  | .ok a, .ok b => a = b
  | _, _ => false

def parse (what : String) (der : Bytes) : Result Error Certificate :=
  ofExcept (fun e => .der (what ++ ": " ++ e)) (cr.certificateFromDer der)

/-- The loop over the roots: the first that is the top certificate anchors it,
and so does the first that verifies it, if that root is valid. -/
def anchor (top : Certificate) (clockMs : UInt64) : List Certificate → Result Error Bool
  | [] => pure false
  | root :: roots =>
    if rootMatchesTop cr root top then pure true
    else match verifySignature cr top root with
      | .ok _ => do
        checkValidity root clockMs
        pure true
      | .error .panic => .error .panic
      | .error (.err _) => anchor top clockMs roots

/-- Validate an X.509 chain ordered leaf-first, root-last. -/
def validateChain (pinnedRootsDer : List Bytes) (chain : List Bytes) (clockMs : UInt64) :
    Result Error Certificate := do
  ensure (¬ chain = []) .emptyChain
  let certs ← chain.mapM (parse cr "cert parse")
  certs.forM fun cert => checkValidity cert clockMs
  -- the CA check is made on every certificate but the leaf, and its result dropped
  certs.tail.forM fun cert => do
    let _ ← toOption (checkIsCa cr cert)
    pure ()
  (certs.zip certs.tail).forM fun (cert, issuer) => verifySignature cr cert issuer
  let roots ← pinnedRootsDer.mapM (parse cr "pinned root parse")
  let top ← expect certs.getLast?
  let anchored ← anchor cr top clockMs roots
  ensure (anchored = true) .untrustedChain
  expect certs.head?

/-! ### What an accepted chain has passed -/

variable {cr} {pinnedRootsDer chain : List Bytes} {clockMs : UInt64}

/-- What the validator establishes about a chain and the certificates in it. -/
structure Checked (cr : Crates) (pinnedRootsDer chain : List Bytes) (clockMs : UInt64)
    (certs : List Certificate) : Prop where
  nonempty : chain ≠ []
  parsed : List.Forall₂ (fun der cert => cr.certificateFromDer der = .ok cert) chain certs
  valid : ∀ cert ∈ certs, X509.ValidAt cert clockMs
  signed : ∀ p ∈ certs.zip certs.tail, verifySignature cr p.1 p.2 = .ok ()
  anchored : ∃ roots top,
    List.Forall₂ (fun der root => cr.certificateFromDer der = .ok root) pinnedRootsDer roots ∧
      certs.getLast? = some top ∧ anchor cr top clockMs roots = .ok true

theorem parse_eq_ok {what : String} {der : Bytes} {cert : Certificate} :
    parse cr what der = .ok cert ↔ cr.certificateFromDer der = .ok cert := ofExcept_eq_ok

theorem checkIsCa_ne_panic (cert : Certificate) : checkIsCa cr cert ≠ .error .panic := by
  have hreturns : Returns (checkIsCa cr cert) := by
    refine .bind (.okOr _ _) fun _ _ => .bind (.ofExcept _ _) fun _ _ => ?_
    exact .ensure _ _
  exact hreturns

/-- The validator accepts exactly the chains that pass the other checks. -/
theorem validateChain_eq_ok {leaf : Certificate} :
    validateChain cr pinnedRootsDer chain clockMs = .ok leaf ↔
      ∃ certs, Checked cr pinnedRootsDer chain clockMs certs ∧ certs.head? = some leaf := by
  simp only [validateChain, bind_eq_ok, ensure_eq_ok, mapM_eq_ok, parse_eq_ok, forM_eq_ok,
    pure_eq_ok, and_true, exists_toOption_eq_ok, ne_eq, checkIsCa_ne_panic, not_false_eq_true,
    implies_true, expect_eq_ok, checkValidity, X509.checkValidity_eq_ok, exists_const, true_and]
  constructor
  · rintro ⟨hne, certs, hparse, hvalid, hsigned, roots, hroots, top, htop, _, hanchor, rfl, hleaf⟩
    exact ⟨certs, ⟨hne, hparse, hvalid, hsigned, roots, top, hroots, htop, hanchor⟩, hleaf⟩
  · rintro ⟨certs, ⟨hne, hparse, hvalid, hsigned, roots, top, hroots, htop, hanchor⟩, hleaf⟩
    exact ⟨hne, certs, hparse, hvalid, hsigned, roots, hroots, top, htop, true, hanchor, rfl, hleaf⟩

/-- Every certificate of an accepted chain parses. -/
theorem parses_of_validateChain {leaf : Certificate}
    (h : validateChain cr pinnedRootsDer chain clockMs = .ok leaf) :
    ∀ der ∈ chain, ∃ cert, cr.certificateFromDer der = .ok cert := by
  obtain ⟨certs, hchecked, -⟩ := validateChain_eq_ok.mp h
  intro der hder
  obtain ⟨i, hi, rfl⟩ := List.mem_iff_getElem.mp hder
  exact ⟨certs.get ⟨i, hchecked.parsed.length_eq ▸ hi⟩, hchecked.parsed.get hi _⟩

/-- The leaf of an accepted chain is its first certificate. -/
theorem leaf_of_validateChain {leaf : Certificate}
    (h : validateChain cr pinnedRootsDer chain clockMs = .ok leaf) :
    ∃ der, chain.head? = some der ∧ cr.certificateFromDer der = .ok leaf := by
  obtain ⟨certs, hchecked, hleaf⟩ := validateChain_eq_ok.mp h
  cases hchecked.parsed with
  | nil => cases hleaf
  | cons hder _ =>
    obtain rfl := Option.some.inj hleaf
    exact ⟨_, rfl, hder⟩

end Attestation.Android
