import Attestation.Base.Curve
import Attestation.Base.P256
import Attestation.Base.Primality
import Mathlib.Tactic.NormNum.Prime

/-! The curves secp256r1 and secp256k1, with the chains of numbers that show the primes of
their fields to be prime. -/

namespace Attestation.Curve

open Primality

/-! ### secp256r1 -/

def knownR1 : List ℕ :=
  [2, 3, 5, 7, 11, 17, 23, 53, 107, 173, 197, 257, 641, 1531, 2411, 3677, 3769, 17449,
    18169, 65537, 78283, 490463, 704251]

def chainR1 : List Witness :=
  [⟨6700417, 5, [2, 2, 2, 2, 2, 2, 2, 3, 17449]⟩,
    ⟨66417393611, 6, [2, 5, 53, 173, 197, 3677]⟩,
    ⟨11290956913871, 13, [2, 5, 17, 66417393611]⟩,
    ⟨46076956964474543, 5, [2, 23, 18169, 78283, 704251]⟩,
    ⟨204061199, 11, [2, 11, 23, 107, 3769]⟩,
    ⟨34282281433, 17, [2, 2, 2, 3, 7, 204061199]⟩,
    ⟨774023187263532362759620327192479577272145303, 3, [2, 3, 3, 2411, 34282281433,
      11290956913871, 46076956964474543]⟩,
    ⟨835945042244614951780389953367877943453916927241, 11, [2, 2, 2, 3, 3, 3, 5,
      774023187263532362759620327192479577272145303]⟩,
    ⟨115792089210356248762697446949407573530086143415290314195533631308867097853951, 6, [2, 3,
      5, 5, 17, 257, 641, 1531, 65537, 490463, 6700417,
      835945042244614951780389953367877943453916927241]⟩]

theorem prime_r1 : P256.p.Prime := by
  have hchain : Chain 256 knownR1 chainR1 := by decide +kernel
  exact hchain.prime (by norm_num [knownR1]) (chainR1.getLast (by simp [chainR1]))
    (List.getLast_mem _)

/-- NIST P-256. -/
def secp256r1 : Curve where
  p := P256.p
  rhs := P256.rhs
  prime := prime_r1
  odd := by decide
  p_le := by decide

/-! ### secp256k1 -/

/-- `2 ^ 256 - 2 ^ 32 - 977`. -/
def pK1 : ℕ := 0xfffffffffffffffffffffffffffffffffffffffffffffffffffffffefffffc2f

def knownK1 : List ℕ :=
  [2, 3, 5, 7, 11, 29, 31, 53, 971, 1373, 1627, 2621, 2657, 4423, 5323, 7723, 13441, 20113,
    24809, 41201, 96557]

def chainK1 : List Witness :=
  [⟨1206781, 10, [2, 2, 3, 5, 20113]⟩,
    ⟨7240687, 3, [2, 3, 1206781]⟩,
    ⟨107590001, 3, [2, 2, 2, 2, 5, 5, 5, 5, 7, 29, 53]⟩,
    ⟨255515944373312847190720520512484175977, 3, [2, 2, 2, 7, 7, 11, 1627, 2657, 4423, 41201,
      96557, 7240687, 107590001]⟩,
    ⟨13331831, 13, [2, 5, 971, 1373]⟩,
    ⟨173378833005251801, 6, [2, 2, 2, 5, 5, 2621, 24809, 13331831]⟩,
    ⟨22149492674086928081353, 5, [2, 2, 2, 3, 5323, 173378833005251801]⟩,
    ⟨132896956044521568488119, 6, [2, 3, 22149492674086928081353]⟩,
    ⟨205115282021455665897114700593932402728804164701536103180137503955397371, 10, [2, 3, 5, 29,
      29, 31, 7723, 132896956044521568488119, 255515944373312847190720520512484175977]⟩,
    ⟨115792089237316195423570985008687907853269984665640564039457584007908834671663, 3, [2, 3,
      7, 13441, 205115282021455665897114700593932402728804164701536103180137503955397371]⟩]

theorem prime_k1 : pK1.Prime := by
  have hchain : Chain 256 knownK1 chainK1 := by decide +kernel
  exact hchain.prime (by norm_num [knownK1]) (chainK1.getLast (by simp [chainK1]))
    (List.getLast_mem _)

/-- The curve `y ^ 2 = x ^ 3 + 7`. -/
def secp256k1 : Curve where
  p := pK1
  rhs x := (x ^ 3 + 7) % pK1
  prime := prime_k1
  odd := by decide
  p_le := by decide

end Attestation.Curve
