import Attestation.Base.Bytes
import Mathlib.Tactic.NormNum.LegendreSymbol

/-! Points of the NIST P-256 curve and their SEC1 encodings. -/

namespace Attestation.P256

/-- The field's prime. -/
def p : ℕ := 0xffffffff00000001000000000000000000000000ffffffffffffffffffffffff

/-- The constant of the curve `y ^ 2 = x ^ 3 - 3 x + b`. -/
def b : ℕ := 0x5ac635d8aa3a93e7b3ebbd55769886bc651d06b0cc53b0f63bce3c3e27d2604b

/-- The right-hand side of the curve's equation. -/
def rhs (x : ℕ) : ℕ := (x ^ 3 + (p - 3) * x + b) % p

structure Point where
  x : ℕ
  y : ℕ
  x_lt : x < p
  y_lt : y < p
  onCurve : y ^ 2 % p = rhs x

/-- `0x04 ‖ X ‖ Y`. -/
def Point.uncompressed (Q : Point) : Bytes := 0x04 :: beBytes 32 Q.x ++ beBytes 32 Q.y

/-- `0x02 | parity ‖ X`. -/
def Point.compressed (Q : Point) : Bytes := UInt8.ofNat (2 + Q.y % 2) :: beBytes 32 Q.x

@[simp] theorem length_uncompressed (Q : Point) : Q.uncompressed.length = 65 := by
  simp [Point.uncompressed]

@[simp] theorem length_compressed (Q : Point) : Q.compressed.length = 33 := by
  simp [Point.compressed]

def generator : Point where
  x := 0x6b17d1f2e12c4247f8bce6e563a440f277037d812deb33a0f4a13945d898c296
  y := 0x4fe342e2fe1a7f9b8ee7eb4a7c0f9e162bce33576b315ececbb6406837bf51f5
  x_lt := by decide
  y_lt := by decide
  onCurve := by decide

/-- The first coordinate of a point makes the right-hand side a square. -/
theorem Point.jacobi_ne (Q : Point) : jacobiSym (rhs Q.x) p ≠ -1 := by
  intro h
  refine ZMod.nonsquare_of_jacobiSym_eq_neg_one h ⟨Q.y, ?_⟩
  have hmod : (rhs Q.x : ZMod p) = (Q.y ^ 2 : ℕ) := by
    rw [← Q.onCurve, ZMod.natCast_mod]
  push_cast at hmod ⊢
  rw [hmod, sq]

end Attestation.P256
