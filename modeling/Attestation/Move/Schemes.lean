import Attestation.Base.P256
import Attestation.Move.DeviceBinding

/-! The scheme packages of device bindings. The two ECDSA packages take the binding's
key in X9.63 form, compress it and hand it to the native check of their curve; they
differ in that native only. The Ed25519 package hands the key to its native as it is. -/

namespace Attestation.Move

open Result

/-- A native ECDSA check: signature, compressed key, message, hash selector. -/
abbrev NativeVerify := Bytes → Bytes → Bytes → UInt8 → Bool

namespace Ecdsa

def eBadSignature : ℕ := 0

/-- `hash` selector (0 = keccak256, 1 = sha256). -/
def sha256 : UInt8 := 1

/-- The loop of `compress`: `count` bytes from index `i` on are pushed. -/
def pushBytes (uncompressed : Bytes) : ℕ → ℕ → Bytes → Tx Bytes
  | 0, _, out => pure out
  | count + 1, i, out => do
    let b ← index uncompressed i
    pushBytes uncompressed count (i + 1) (out ++ [b])

/-- `0x04 ‖ X ‖ Y` → `0x02 | parity ‖ X`, by position. -/
def compress (uncompressed : Bytes) : Tx Bytes := do
  let last ← index uncompressed 64
  let parity := last % 2
  pushBytes uncompressed 32 1 [2 + parity]

def verify {Scheme : Type} (scheme : Scheme) (native : NativeVerify)
    (pk message signature : Bytes) : Tx (Verified Scheme) := do
  let key ← compress pk
  ensure (native signature key message sha256 = true) eBadSignature
  pure (DeviceBinding.verified scheme pk message)

theorem pushBytes_eq_ok {uncompressed : Bytes} {count i : ℕ} {out : Bytes}
    (h : i + count ≤ uncompressed.length) :
    pushBytes uncompressed count i out = .ok (out ++ (uncompressed.drop i).take count) := by
  induction count generalizing i out with
  | zero => simp [pushBytes, pure, Except.pure]
  | succ count ih =>
    have hi : i < uncompressed.length := by omega
    simp only [pushBytes, index, List.getElem?_eq_getElem hi, expect, bind, Except.bind]
    rw [ih (by omega), List.append_assoc, List.singleton_append, ← List.take_succ_cons,
      List.cons_getElem_drop_succ]

theorem compress_eq_ok {uncompressed : Bytes} {last : UInt8} (h : uncompressed[64]? = some last) :
    compress uncompressed = .ok ((2 + last % 2) :: (uncompressed.drop 1).take 32) := by
  have hlen : 64 < uncompressed.length := (List.getElem?_eq_some_iff.mp h).1
  simp only [compress, index, h, expect, bind, Except.bind]
  rw [pushBytes_eq_ok (by omega), List.singleton_append]

theorem compress_of_short {uncompressed : Bytes} (h : uncompressed.length ≤ 64) :
    compress uncompressed = .error .panic := by
  rw [compress, index, List.getElem?_eq_none h]
  rfl

theorem verify_eq_ok {Scheme : Type} {scheme : Scheme} {native : NativeVerify}
    {pk message signature : Bytes} {receipt : Verified Scheme} :
    verify scheme native pk message signature = .ok receipt ↔
      ∃ key, compress pk = .ok key ∧ native signature key message sha256 = true ∧
        receipt = ⟨pk, message⟩ := by
  simp only [verify, bind_eq_ok, ensure_eq_ok, pure_eq_ok, exists_const, DeviceBinding.verified,
    eq_comm (a := receipt)]

/-- On the X9.63 form of two coordinates, `compress` is SEC1 compression. -/
theorem compress_coordinates (x y : ℕ) : compress (0x04 :: beBytes 32 x ++ beBytes 32 y) =
    .ok (UInt8.ofNat (2 + y % 2) :: beBytes 32 x) := by
  have hlast : (0x04 :: beBytes 32 x ++ beBytes 32 y)[64]? = some (UInt8.ofNat y) := by
    rw [beBytes_succ 31 y, ← List.append_assoc, List.getElem?_append_right (by simp)]
    simp
  have hparity : 2 + UInt8.ofNat y % 2 = UInt8.ofNat (2 + y % 2) := by
    apply UInt8.toNat_inj.mp
    simp
  rw [compress_eq_ok hlast, hparity]
  simp

theorem compress_uncompressed (Q : P256.Point) : compress Q.uncompressed = .ok Q.compressed :=
  compress_coordinates Q.x Q.y

end Ecdsa

/-- Scheme marker for secp256r1 device keys. -/
structure Secp256r1 where

/-- `device_binding_secp256r1::verify`. -/
def Secp256r1.verify (native : NativeVerify) (pk message signature : Bytes) :
    Tx (Verified Secp256r1) :=
  Ecdsa.verify {} native pk message signature

/-- Scheme marker for secp256k1 device keys. -/
structure Secp256k1 where

/-- `device_binding_secp256k1::verify`. -/
def Secp256k1.verify (native : NativeVerify) (pk message signature : Bytes) :
    Tx (Verified Secp256k1) :=
  Ecdsa.verify {} native pk message signature

/-- The native Ed25519 check: signature, public key, message. -/
abbrev Ed25519Verify := Bytes → Bytes → Bytes → Bool

/-- Scheme marker for Ed25519 device keys. -/
structure Ed25519 where

namespace Ed25519

def eBadSignature : ℕ := 0

/-- `device_binding_ed25519::verify`. -/
def verify (native : Ed25519Verify) (pk message signature : Bytes) : Tx (Verified Ed25519) := do
  ensure (native signature pk message = true) eBadSignature
  pure (DeviceBinding.verified {} pk message)

theorem verify_eq_ok {native : Ed25519Verify} {pk message signature : Bytes}
    {receipt : Verified Ed25519} :
    verify native pk message signature = .ok receipt ↔
      native signature pk message = true ∧ receipt = ⟨pk, message⟩ := by
  simp only [verify, bind_eq_ok, ensure_eq_ok, pure_eq_ok, exists_const, DeviceBinding.verified,
    eq_comm (a := receipt)]

end Ed25519

end Attestation.Move
