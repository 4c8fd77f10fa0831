import Attestation.Android.Verify
import Attestation.Apple.NonceBinding
import Attestation.Move.Schemes

/-! The forms in which an attested P-256 key reaches a device binding. The Apple
verifier attests the X9.63 form of the key, which the scheme package compresses;
the Android verifier attests a `subjectPublicKeyInfo`, which the scheme package
reads at the same positions. For no point of the curve are the bytes it finds there
the point's own coordinate, though they may be that of another. -/

namespace Attestation.System

open Result Move

/-! ### The two forms -/

/-- The COSE key's coordinates are those of the point. -/
def CoseCarries (cr : Crates) (coseBytes : Bytes) (Q : P256.Point) : Prop :=
  ∃ entries, cr.cborFromReader coseBytes = .ok (.map entries) ∧
    (entries.foldl Apple.CoseEntries.step {}).x = some (beBytes 32 Q.x) ∧
    (entries.foldl Apple.CoseEntries.step {}).y = some (beBytes 32 Q.y)

/-- A P-256 key of a certificate, in either SEC1 form. -/
def SpkiCarries (spki : SubjectPublicKeyInfo) (Q : P256.Point) : Prop :=
  spki.algorithm = ⟨.ecPublicKey, some (.ofOid .secp256r1)⟩ ∧
    (spki.subjectPublicKey = ⟨0, Q.uncompressed⟩ ∨ spki.subjectPublicKey = ⟨0, Q.compressed⟩)

theorem extractP256Pk_of_carries {cr : Crates} {coseBytes : Bytes} {Q : P256.Point}
    {pk : Apple.P256Pk} (hcarries : CoseCarries cr coseBytes Q)
    (h : Apple.extractP256Pk cr coseBytes = .ok pk) : pk.toList = Q.uncompressed := by
  obtain ⟨entries, hentries, hx, hy⟩ := hcarries
  simp only [Apple.extractP256Pk, bind_eq_ok, ofExcept_eq_ok, okOr_eq_ok, toArray_eq_ok] at h
  obtain ⟨_, hvalue, map, hmap, -, -, -, -, -, -, x, hx', y, hy', -, -, hpk⟩ := h
  obtain rfl := Except.ok.inj (hentries.symm.trans hvalue)
  obtain rfl := Option.some.inj hmap
  obtain rfl := Option.some.inj (hx.symm.trans hx')
  obtain rfl := Option.some.inj (hy.symm.trans hy')
  exact hpk.symm

/-- Everything before the point in the `subjectPublicKeyInfo` of a P-256 key. -/
def spkiHeader : Bytes :=
  [0x30, 0x59, 0x30, 0x13, 0x06, 0x07, 0x2A, 0x86, 0x48, 0xCE, 0x3D, 0x02, 0x01, 0x06, 0x08, 0x2A,
    0x86, 0x48, 0xCE, 0x3D, 0x03, 0x01, 0x07, 0x03, 0x42, 0x00]

theorem algorithm_toDer :
    AlgorithmIdentifier.toDer ⟨.ecPublicKey, some (.ofOid .secp256r1)⟩ =
      (spkiHeader.drop 2).take 21 := by
  decide +kernel

theorem toDer_uncompressed (Q : P256.Point) :
    SubjectPublicKeyInfo.toDer ⟨⟨.ecPublicKey, some (.ofOid .secp256r1)⟩, ⟨0, Q.uncompressed⟩⟩ =
      .ok (spkiHeader ++ Q.uncompressed) := by
  have hbits : BitString.toDer ⟨0, Q.uncompressed⟩ = 0x03 :: 0x42 :: 0x00 :: Q.uncompressed := by
    simp [BitString.toDer, Der.tlv, Der.encodeLength, Der.Tag.bitString]
  simp only [SubjectPublicKeyInfo.toDer, algorithm_toDer, hbits]
  rw [if_pos (by simp [Der.tlv, Der.encodeLength, spkiHeader, Der.maxLength])]
  simp [Der.tlv, Der.encodeLength, spkiHeader, Der.Tag.sequence]

theorem length_toDer_compressed {Q : P256.Point} {der : Bytes}
    (h : SubjectPublicKeyInfo.toDer
      ⟨⟨.ecPublicKey, some (.ofOid .secp256r1)⟩, ⟨0, Q.compressed⟩⟩ = .ok der) :
    der.length = 59 := by
  simp only [SubjectPublicKeyInfo.toDer, algorithm_toDer] at h
  split_ifs at h
  obtain rfl := Except.ok.inj h
  simp [BitString.toDer, Der.tlv, Der.encodeLength, spkiHeader]

/-- The one number that compression would find as the coordinate of its own point. -/
def misreadX : ℕ := 0x59301306072a8648ce3d020106082a8648ce3d0301070342000459301306072a

theorem misreadX_not_on_curve : jacobiSym (P256.rhs misreadX) P256.p = -1 := by
  norm_num [P256.rhs, P256.p, P256.b, misreadX]

/-- A string that starts over after `ys` is determined by `ys`. -/
theorem eq_of_eq_append_take {xs ys : Bytes} {n : ℕ} (hn : n ≤ ys.length)
    (h : xs = ys ++ xs.take n) : xs = ys ++ ys.take n := by
  have htake := congrArg (List.take n) h
  rw [List.take_append_of_le_length hn] at htake
  rwa [htake] at h

/-- Compression finds the coordinate of its own point for this number only. -/
theorem eq_misreadX {Q : P256.Point}
    (h : ((spkiHeader ++ Q.uncompressed).drop 1).take 32 = beBytes 32 Q.x) : Q.x = misreadX := by
  have hread : beBytes 32 Q.x = (spkiHeader.drop 1 ++ [0x04]) ++ (beBytes 32 Q.x).take 6 := by
    conv_lhs => rw [← h]
    simp [spkiHeader, P256.Point.uncompressed, List.take_append_of_le_length]
  have hbytes := congrArg ofBe (eq_of_eq_append_take (by simp [spkiHeader]) hread)
  have hlt : Q.x < 256 ^ 32 := Q.x_lt.trans (by decide)
  rw [ofBe_beBytes, Nat.mod_eq_of_lt hlt] at hbytes
  rw [hbytes]
  decide +kernel

/-- Compression never finds a point's coordinate in the point's
`subjectPublicKeyInfo`. -/
theorem compress_spki_ne {spki : SubjectPublicKeyInfo} {Q : P256.Point} {der : Bytes}
    (hcarries : SpkiCarries spki Q) (hder : spki.toDer = .ok der) :
    Ecdsa.compress der ≠ .ok Q.compressed := by
  obtain ⟨alg, pk⟩ := spki
  obtain ⟨rfl, rfl | rfl⟩ := hcarries
  · rw [toDer_uncompressed] at hder
    obtain rfl := Except.ok.inj hder
    have hlen : 64 < (spkiHeader ++ Q.uncompressed).length := by simp [spkiHeader]
    rw [Ecdsa.compress_eq_ok (List.getElem?_eq_getElem hlen), Ne, Except.ok.injEq,
      P256.Point.compressed, List.cons.injEq]
    rintro ⟨-, hx⟩
    exact Q.jacobi_ne (eq_misreadX hx ▸ misreadX_not_on_curve)
  · -- a compressed point leaves the encoding shorter than the positions read
    rw [Ecdsa.compress_of_short (by rw [length_toDer_compressed hder]; norm_num)]
    simp

/-! ### Use of an attested key -/

inductive Platform where
  | apple
  | android
  deriving DecidableEq, Repr

/-- A platform's verifier attests the point and returns the outcome. -/
inductive Attests (cr : Crates) (appleRootDer : Bytes) (pinnedRootsDer : List Bytes)
    (Q : P256.Point) : Platform → Outcome → Prop where
  | apple {c : Apple.Call} {out : Outcome} {authData : Bytes} {auth : Apple.AuthData}
      (accepted : c.verify cr appleRootDer = .ok out) (hauthData : c.authData cr = .ok authData)
      (parsed : Apple.AuthData.parse authData = .ok auth)
      (carries : CoseCarries cr auth.credentialPublicKey Q) : Attests _ _ _ _ .apple out
  | android {chain : List Bytes} {challenge : Bytes} {policy : Android.Policy} {clockMs : UInt64}
      {out : Outcome} {leaf : Certificate}
      (accepted : Android.verifyAttestation cr pinnedRootsDer chain challenge policy clockMs =
        .ok out)
      (hleaf : Android.validateChain cr pinnedRootsDer chain clockMs = .ok leaf)
      (carries : SpkiCarries leaf.tbsCertificate.subjectPublicKeyInfo Q) :
      Attests _ _ _ _ .android out

/-- The attested value compresses to the point, and every valid signature by the
point over an action of a binding for it authorizes the action until it expires. -/
def Usable (native : NativeVerify) (ValidLowS : P256.Point → Bytes → Bytes → Prop)
    (Q : P256.Point) (attestedValue : Bytes) : Prop :=
  Ecdsa.compress attestedValue = .ok Q.compressed ∧
  ∀ (Source : Type) (w : Witness Source) (pk : Bytes) (clock : UInt64) (id : ObjectId)
    (binding : DeviceBinding Source Secp256r1), w.attestedValue = attestedValue →
    DeviceBinding.new w pk clock id = .ok binding →
    ∀ (domain actionHash : Bytes) (expiryMs now : UInt64) (signature : Bytes),
      ValidLowS Q (binding.actionMessage domain actionHash expiryMs) signature → now ≤ expiryMs →
      ∃ receipt, Secp256r1.verify native binding.pk
          (binding.actionMessage domain actionHash expiryMs) signature = .ok receipt ∧
        binding.verifyAction receipt domain actionHash expiryMs now = true

/-- A key in X9.63 form is usable. -/
theorem usable_uncompressed {native : NativeVerify} {ValidLowS : P256.Point → Bytes → Bytes → Prop}
    (hnative : ∀ Q message signature,
      native signature Q.compressed message Ecdsa.sha256 = true ↔ ValidLowS Q message signature)
    (Q : P256.Point) : Usable native ValidLowS Q Q.uncompressed := by
  refine ⟨Ecdsa.compress_uncompressed Q, ?_⟩
  intro Source w pk clock id binding hw hnew domain actionHash expiryMs now signature hvalid hnow
  obtain ⟨hpk, rfl⟩ := DeviceBinding.new_eq_ok.mp hnew
  rw [hw] at hpk
  subst hpk
  refine ⟨_, Ecdsa.verify_eq_ok.mpr
    ⟨Q.compressed, Ecdsa.compress_uncompressed Q, (hnative Q _ _).mpr hvalid, rfl⟩, ?_⟩
  exact DeviceBinding.verifyAction_iff.mpr ⟨hnow, rfl, rfl⟩

/-- An attested P-256 key is usable exactly when Apple's verifier attested it. -/
theorem usable_iff_apple {cr : Crates} {appleRootDer : Bytes} {pinnedRootsDer : List Bytes}
    {native : NativeVerify} {ValidLowS : P256.Point → Bytes → Bytes → Prop} {Q : P256.Point}
    {platform : Platform} {out : Outcome}
    (hnative : ∀ Q message signature,
      native signature Q.compressed message Ecdsa.sha256 = true ↔ ValidLowS Q message signature)
    (h : Attests cr appleRootDer pinnedRootsDer Q platform out) :
    Usable native ValidLowS Q out.attestedValue ↔ platform = .apple := by
  cases h with
  | apple accepted hauthData parsed carries =>
    obtain ⟨stmt, auth, leaf, pk, hchecks, rfl⟩ := Apple.verifyAppAttest_eq_ok.mp accepted
    rw [Apple.Call.authData_of_checks hchecks, Except.ok.injEq] at hauthData
    subst hauthData
    obtain rfl := Except.ok.inj (hchecks.parsed.symm.trans parsed)
    refine iff_of_true ?_ rfl
    rw [Apple.appleOutcome, extractP256Pk_of_carries carries hchecks.key]
    exact usable_uncompressed hnative Q
  | android accepted hleaf carries =>
    obtain ⟨leaf, kd, spkiDer, hchecks, -, rfl⟩ := Android.verifyAttestation_eq_ok.mp accepted
    obtain rfl := Except.ok.inj (hchecks.chainValid.symm.trans hleaf)
    refine iff_of_false ?_ (fun h => nomatch h)
    rintro ⟨hcompress, -⟩
    exact compress_spki_ne carries hchecks.encoded hcompress

section Sample

/-- A native check whose valid signatures are the key and the message. -/
def sampleNative : NativeVerify := fun signature key message hash =>
  signature == key ++ message && hash == Ecdsa.sha256

def SampleValid (Q : P256.Point) (message signature : Bytes) : Prop :=
  signature = Q.compressed ++ message

theorem sampleNative_iff (Q : P256.Point) (message signature : Bytes) :
    sampleNative signature Q.compressed message Ecdsa.sha256 = true ↔
      SampleValid Q message signature := by
  simp [sampleNative, SampleValid]

theorem usable_iff_apple_sample :
    ∃ out, (Apple.sampleCall [0xA3] 0).verify Apple.sampleCrates [0x1F] = .ok out ∧
      Usable sampleNative SampleValid P256.generator out.attestedValue := by
  obtain ⟨out, hout⟩ := exists_eq_ok
    (x := (Apple.sampleCall [0xA3] 0).verify Apple.sampleCrates [0x1F]) (by decide +kernel)
  obtain ⟨auth, hauth⟩ := exists_eq_ok (x := Apple.AuthData.parse Apple.sampleAuthData)
    (by decide +kernel)
  have hkey : auth.credentialPublicKey = [0xA5] := by
    have hmap : (Apple.AuthData.parse Apple.sampleAuthData).map
        (fun a => a.credentialPublicKey) = .ok [0xA5] := by decide +kernel
    rw [hauth] at hmap
    exact Except.ok.inj hmap
  have hattests : Attests Apple.sampleCrates [0x1F] [] P256.generator .apple out :=
    .apple hout (by decide +kernel) hauth
      (hkey ▸ ⟨Apple.sampleCose, rfl, by decide +kernel, by decide +kernel⟩)
  exact ⟨out, hout, (usable_iff_apple sampleNative_iff hattests).mpr rfl⟩

/-- An Android chain that attests the generator. -/
def generatorChain : List Certificate :=
  let attested := Android.KeyDescription.extension 1 [7]
    (Android.KeyDescription.rootOfTrustElement [9] 0xFF 0)
  [Crates.issue [1] [1] P256.generator.uncompressed [0x0A] [attested],
    Crates.issue [2] [2] [0x0A] [0x0A] [Crates.caExtension]]

/-- The generator, attested through Android, is not usable. -/
theorem generatorChain_unusable :
    ∃ out, Attests (.ofTables generatorChain []) [] [[2]] P256.generator .android out ∧
      ¬ Usable sampleNative SampleValid P256.generator out.attestedValue := by
  obtain ⟨out, hout⟩ := exists_eq_ok (x := Android.verifyAttestation (.ofTables generatorChain [])
    [[2]] [[1], [2]] [7] {} 0) (by decide +kernel)
  have hcarries : SpkiCarries (generatorChain[0]).tbsCertificate.subjectPublicKeyInfo
      P256.generator := ⟨rfl, .inl rfl⟩
  have hvalid : Android.validateChain (.ofTables generatorChain []) [[2]] [[1], [2]] 0 =
      .ok generatorChain[0] := by
    decide +kernel
  refine ⟨out, .android hout hvalid hcarries, ?_⟩
  rintro ⟨hcompress, -⟩
  obtain ⟨leaf, kd, spkiDer, hchecks, -, rfl⟩ := Android.verifyAttestation_eq_ok.mp hout
  have hleaf : leaf = generatorChain[0] := Except.ok.inj (hchecks.chainValid.symm.trans hvalid)
  subst hleaf
  exact compress_spki_ne hcarries hchecks.encoded hcompress

end Sample

end Attestation.System
