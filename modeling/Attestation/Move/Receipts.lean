import Attestation.Base.NamedCurves
import Attestation.Move.Schemes

/-! What a receipt of an ECDSA scheme package says about its key. The native check sees 33
bytes: the parity of byte 64 and the bytes 1 to 32. Nothing looks at the length of the key,
its first byte, the other bits of `Y` or what follows, so a receipt names the key that
signed exactly when the caller has handed over a key in X9.63 form. -/

namespace Attestation.Move

open Result

/-- The arguments of a scheme's `verify`. -/
structure ReceiptCall where
  pk : Bytes
  message : Bytes
  signature : Bytes
  deriving DecidableEq, Repr

/-- The key is 65 bytes, starts with `0x04`, and its coordinates are those of the point that
its compressed form names. -/
structure NamesSigner (c : Curve) (pk : Bytes) : Prop where
  length_eq : pk.length = 65
  head_eq : pk.head? = some 0x04
  point : ∃ Q : c.Point, ofBe ((pk.drop 1).take 32) = Q.x ∧ ofBe ((pk.drop 33).take 32) = Q.y ∧
    Ecdsa.compress pk = .ok Q.compressed

/-- Receipts given in any of the calls name the key that signed, and no two calls obtain one
for the same message, signature and signer with different keys. -/
structure ReceiptsNameSigners {Scheme : Type} (c : Curve)
    (verify : Bytes → Bytes → Bytes → Tx (Verified Scheme)) (calls : Set ReceiptCall) : Prop where
  named : ∀ call ∈ calls, ∀ receipt, verify call.pk call.message call.signature = .ok receipt →
    receipt.pk = call.pk ∧ NamesSigner c call.pk
  distinct : ∀ call ∈ calls, ∀ call' ∈ calls, ∀ receipt receipt',
    verify call.pk call.message call.signature = .ok receipt →
    verify call'.pk call'.message call'.signature = .ok receipt' →
    call.message = call'.message → call.signature = call'.signature →
    Ecdsa.compress call.pk = Ecdsa.compress call'.pk → call.pk = call'.pk

/-- The key is too short to be compressed, or the native check refuses the signature under
its compressed form. -/
def Refused (native : NativeVerify) (call : ReceiptCall) : Prop :=
  ∀ key, Ecdsa.compress call.pk = .ok key →
    native call.signature key call.message Ecdsa.sha256 = false

/-- The key is a point of the curve in X9.63 form. -/
def InX963 (c : Curve) (pk : Bytes) : Prop := ∃ Q : c.Point, pk = Q.uncompressed

theorem namesSigner_iff {c : Curve} {pk : Bytes} : NamesSigner c pk ↔ InX963 c pk := by
  constructor
  · rintro ⟨hlength, hhead, Q, hx, hy, -⟩
    obtain ⟨coordinates, rfl⟩ : ∃ coordinates, pk = 0x04 :: coordinates :=
      ⟨pk.tail, (List.cons_head?_tail hhead).symm⟩
    have hlen : coordinates.length = 64 := Nat.succ.inj hlength
    have hX : (coordinates.take 32).length = 32 := by simp [hlen]
    have hY : (coordinates.drop 32).length = 32 := by simp [hlen]
    simp only [List.drop_succ_cons, List.drop_zero, List.take_of_length_le hY.le] at hx hy
    refine ⟨Q, ?_⟩
    rw [Curve.Point.uncompressed, ← hx, ← hy, beBytes_ofBe_of_length hX, beBytes_ofBe_of_length hY,
      List.cons_append, List.take_append_drop]
  · rintro ⟨Q, rfl⟩
    obtain ⟨hx, hy⟩ := Q.ofBe_uncompressed
    exact ⟨by simp [Curve.Point.uncompressed], rfl, Q, hx, hy, Ecdsa.compress_coordinates Q.x Q.y⟩

theorem refused_iff {Scheme : Type} (scheme : Scheme) {native : NativeVerify} {call : ReceiptCall} :
    Refused native call ↔
      ∀ receipt, Ecdsa.verify scheme native call.pk call.message call.signature ≠ .ok receipt := by
  simp only [Ne, Ecdsa.verify_eq_ok]
  constructor
  · rintro h receipt ⟨key, hkey, hnative, -⟩
    rw [h key hkey] at hnative
    cases hnative
  · intro h key hkey
    by_contra hnative
    exact h ⟨call.pk, call.message⟩ ⟨key, hkey, Bool.of_not_eq_false hnative, rfl⟩

theorem receiptsNameSigners_iff {Scheme : Type} (scheme : Scheme) (c : Curve)
    (native : NativeVerify) (calls : Set ReceiptCall) :
    ReceiptsNameSigners c (Ecdsa.verify scheme native) calls ↔
      ∀ call ∈ calls, InX963 c call.pk ∨ Refused native call := by
  constructor
  · intro h call hcall
    by_cases hrefused : Refused native call
    · exact .inr hrefused
    · rw [refused_iff scheme] at hrefused
      obtain ⟨receipt, hreceipt⟩ := not_forall_not.mp hrefused
      exact .inl (namesSigner_iff.mp (h.named call hcall receipt hreceipt).2)
  · intro h
    have hkey : ∀ call ∈ calls, ∀ receipt,
        Ecdsa.verify scheme native call.pk call.message call.signature = .ok receipt →
          InX963 c call.pk := by
      intro call hcall receipt hreceipt
      refine (h call hcall).resolve_right fun hrefused => ?_
      exact (refused_iff scheme).mp hrefused receipt hreceipt
    refine ⟨fun call hcall receipt hreceipt => ⟨?_, ?_⟩, ?_⟩
    · obtain ⟨key, -, -, rfl⟩ := Ecdsa.verify_eq_ok.mp hreceipt
      rfl
    · exact namesSigner_iff.mpr (hkey call hcall receipt hreceipt)
    · intro call hcall call' hcall' receipt receipt' hreceipt hreceipt' _ _ hcompress
      obtain ⟨Q, hQ⟩ := hkey call hcall receipt hreceipt
      obtain ⟨Q', hQ'⟩ := hkey call' hcall' receipt' hreceipt'
      rw [hQ, hQ', Curve.Point.uncompressed, Curve.Point.uncompressed, Ecdsa.compress_coordinates,
        Ecdsa.compress_coordinates] at hcompress
      rw [hQ, hQ', Curve.Point.compressed_injective (Except.ok.inj hcompress)]

/-- A receipt of either package names the key that signed, in all of a set of calls, exactly
when every call that is not refused is for a key in X9.63 form. -/
theorem receipts_name_signers_iff (native : NativeVerify) (calls : Set ReceiptCall) :
    (ReceiptsNameSigners .secp256r1 (Secp256r1.verify native) calls ↔
      ∀ call ∈ calls, InX963 .secp256r1 call.pk ∨ Refused native call) ∧
    (ReceiptsNameSigners .secp256k1 (Secp256k1.verify native) calls ↔
      ∀ call ∈ calls, InX963 .secp256k1 call.pk ∨ Refused native call) :=
  ⟨receiptsNameSigners_iff _ _ native calls, receiptsNameSigners_iff _ _ native calls⟩

/-! ### A key with a byte behind it -/

/-- A P-256 key, and a signature of `miso-binding-test` by it. -/
def signerPk : Bytes := 0x04 ::
  beBytes 32 0x1c7650d32da9bd74ce2acad51fad14f7dd2359511cdb2dea24dd256ef70655d9 ++
  beBytes 32 0x6c6522ceceb15d5b923d78ca4ad2d6b0b60a20fedba20cc6b725228afba5f9e7

def signerSignature : Bytes :=
  beBytes 32 0xa0ff0691c3eb057dd78b652fdda0c635f5f1c2127629e04a939a7eafa6489429 ++
  beBytes 32 0x337332bddc50a5b2571bdaf132e39412ee0cab7abd6fad1a5f5a7fd3fb059258

def signedMessage : Bytes := asBytes "miso-binding-test"

/-- A native check that knows this signature only, under the compressed key. -/
def signerNative : NativeVerify := fun signature key message hash =>
  signature = signerSignature ∧ key = 0x03 :: (signerPk.drop 1).take 32 ∧ message = signedMessage ∧
    hash = Ecdsa.sha256

/-- The signer obtains a receipt for its key with a byte behind it. -/
theorem paddedKey_not_named : ¬ ReceiptsNameSigners .secp256r1 (Secp256r1.verify signerNative)
    {⟨signerPk ++ [0], signedMessage, signerSignature⟩} := by
  intro h
  obtain ⟨receipt, hreceipt⟩ := exists_eq_ok (x := Secp256r1.verify signerNative (signerPk ++ [0])
    signedMessage signerSignature) (by decide +kernel)
  have hlength := (h.named _ rfl receipt hreceipt).2.length_eq
  simp [signerPk] at hlength

end Attestation.Move
