import Attestation.Base.Bytes
import Mathlib.Algebra.Field.ZMod

/-! Curves `y ^ 2 = f x` over a prime field of at most 256 bits, and the SEC1 encodings
of their points. The compressed form keeps the parity of `y`, and the two square roots
of `f x` have different parities. -/

namespace Attestation

structure Curve where
  p : ℕ
  /-- The right-hand side of the curve's equation, reduced. -/
  rhs : ℕ → ℕ
  prime : p.Prime
  odd : p % 2 = 1
  p_le : p ≤ 256 ^ 32

namespace Curve

variable {c : Curve}

structure Point (c : Curve) where
  x : ℕ
  y : ℕ
  x_lt : x < c.p
  y_lt : y < c.p
  onCurve : y ^ 2 % c.p = c.rhs x

/-- `0x04 ‖ X ‖ Y`. -/
def Point.uncompressed (Q : c.Point) : Bytes := 0x04 :: beBytes 32 Q.x ++ beBytes 32 Q.y

/-- `0x02 | parity ‖ X`. -/
def Point.compressed (Q : c.Point) : Bytes := UInt8.ofNat (2 + Q.y % 2) :: beBytes 32 Q.x

/-- Two roots of one square are equal or add up to the field's prime. -/
theorem eq_or_add_eq_of_sq {y z : ℕ} (hy : y < c.p) (hz : z < c.p) (h : y ^ 2 % c.p = z ^ 2 % c.p) :
    y = z ∨ y + z = c.p := by
  have : Fact c.p.Prime := ⟨c.prime⟩
  have hsq : (y : ZMod c.p) ^ 2 = (z : ZMod c.p) ^ 2 := by
    exact_mod_cast (ZMod.natCast_eq_natCast_iff' _ _ _).mpr h
  rcases sq_eq_sq_iff_eq_or_eq_neg.mp hsq with heq | hneg
  · rw [ZMod.natCast_eq_natCast_iff', Nat.mod_eq_of_lt hy, Nat.mod_eq_of_lt hz] at heq
    exact .inl heq
  · have hdvd : c.p ∣ y + z := by
      rw [← ZMod.natCast_eq_zero_iff, Nat.cast_add, hneg, neg_add_cancel]
    obtain ⟨k, hk⟩ := hdvd
    have hk2 : k < 2 := by
      by_contra hge
      have := Nat.mul_le_mul_left c.p (not_lt.mp hge)
      omega
    interval_cases k
    · left; omega
    · right; omega

/-- A point is determined by its first coordinate and the parity of the second. -/
theorem Point.compressed_injective : Function.Injective (Point.compressed (c := c)) := by
  rintro ⟨x, y, hx, hy, hcurve⟩ ⟨x', y', hx', hy', hcurve'⟩ h
  simp only [Point.compressed, List.cons.injEq] at h
  obtain ⟨hparity, hcoordinate⟩ := h
  obtain rfl : x = x' := beBytes_inj (hx.trans_le c.p_le) (hx'.trans_le c.p_le) hcoordinate
  have hparity : y % 2 = y' % 2 := by
    have hbyte := congrArg UInt8.toNat hparity
    simp only [UInt8.toNat_ofNat'] at hbyte
    omega
  have hodd := c.odd
  obtain rfl | hsum := eq_or_add_eq_of_sq hy hy' (hcurve.trans hcurve'.symm)
  · rfl
  · omega

/-- The coordinates are read back from the uncompressed form. -/
theorem Point.ofBe_uncompressed (Q : c.Point) :
    ofBe ((Q.uncompressed.drop 1).take 32) = Q.x ∧
      ofBe ((Q.uncompressed.drop 33).take 32) = Q.y := by
  have hx := Q.x_lt.trans_le c.p_le
  have hy := Q.y_lt.trans_le c.p_le
  have htakeX : (Q.uncompressed.drop 1).take 32 = beBytes 32 Q.x := by
    simp [Point.uncompressed]
  have htakeY : (Q.uncompressed.drop 33).take 32 = beBytes 32 Q.y := by
    simp [Point.uncompressed]
  rw [htakeX, htakeY, ofBe_beBytes, ofBe_beBytes, Nat.mod_eq_of_lt hx, Nat.mod_eq_of_lt hy]
  exact ⟨rfl, rfl⟩

end Curve

end Attestation
