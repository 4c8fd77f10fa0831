import Mathlib.Algebra.BigOperators.Associated
import Mathlib.NumberTheory.LucasPrimality

/-! Primality of large numbers by computation. A number passes Lucas's test when some
residue has the full order, which is tested at the prime factors of the number less one;
these pass the test in their turn, down to primes that are known. -/

namespace Attestation.Primality

/-- `a ^ n % m` for an exponent of at most `bits` bits. -/
def powMod (m a : ℕ) : ℕ → ℕ → ℕ
  | 0, _ => 1 % m
  | bits + 1, n =>
    let r := powMod m a bits (n / 2)
    if n % 2 = 1 then r * r % m * a % m else r * r % m

theorem powMod_eq {m a bits n : ℕ} (h : n < 2 ^ bits) : powMod m a bits n = a ^ n % m := by
  induction bits generalizing n with
  | zero =>
    obtain rfl : n = 0 := Nat.lt_one_iff.mp h
    rfl
  | succ bits ih =>
    have hhalf : n / 2 < 2 ^ bits := by
      rw [pow_succ] at h
      omega
    have hsquare : a ^ (n / 2) % m * (a ^ (n / 2) % m) % m = a ^ (n / 2 + n / 2) % m := by
      rw [← Nat.mul_mod, ← pow_add]
    simp only [powMod, ih hhalf, hsquare]
    split_ifs with hodd
    · rw [Nat.mod_mul_mod, ← pow_succ]
      congr 2
      omega
    · congr 2
      omega

/-- A number with the residue and the factors, repeated as often as they occur, that show
it to be prime. -/
structure Witness where
  p : ℕ
  a : ℕ
  factors : List ℕ

/-- Lucas's test, the factors being known. -/
def Witness.Passes (bits : ℕ) (known : List ℕ) (w : Witness) : Prop :=
  1 < w.p ∧ w.p ≤ 2 ^ bits ∧ (∀ q ∈ w.factors, q ∈ known) ∧ w.factors.prod = w.p - 1 ∧
    powMod w.p w.a bits (w.p - 1) = 1 ∧ ∀ q ∈ w.factors, powMod w.p w.a bits ((w.p - 1) / q) ≠ 1

/-- Each number passes with those known and those before it. -/
def Chain (bits : ℕ) : List ℕ → List Witness → Prop
  | _, [] => True
  | known, w :: ws => w.Passes bits known ∧ Chain bits (w.p :: known) ws

instance (bits : ℕ) (known : List ℕ) (w : Witness) : Decidable (w.Passes bits known) :=
  inferInstanceAs (Decidable (_ ∧ _))

instance Chain.decidable (bits : ℕ) :
    ∀ (known : List ℕ) (ws : List Witness), Decidable (Chain bits known ws)
  | _, [] => inferInstanceAs (Decidable True)
  | known, w :: ws =>
    have := Chain.decidable bits (w.p :: known) ws
    inferInstanceAs (Decidable (w.Passes bits known ∧ Chain bits (w.p :: known) ws))

variable {bits : ℕ} {known : List ℕ}

theorem Witness.Passes.prime {w : Witness} (h : w.Passes bits known)
    (hknown : ∀ q ∈ known, q.Prime) : w.p.Prime := by
  obtain ⟨hp, hbits, hfactors, hprod, hone, hne⟩ := h
  have hpow : ∀ n < w.p, (w.a : ZMod w.p) ^ n = 1 ↔ powMod w.p w.a bits n = 1 := by
    intro n hn
    rw [powMod_eq (hn.trans_le hbits), ← Nat.cast_pow, ← Nat.cast_one,
      ZMod.natCast_eq_natCast_iff', Nat.mod_eq_of_lt hp]
  refine lucas_primality w.p w.a ((hpow _ (by omega)).mpr hone) fun q hq hdvd => ?_
  obtain ⟨r, hr, hqr⟩ := (Prime.dvd_prod_iff hq.prime).mp (hprod ▸ hdvd)
  obtain rfl := (Nat.prime_dvd_prime_iff_eq hq (hknown r (hfactors r hr))).mp hqr
  have hle := Nat.div_le_self (w.p - 1) q
  exact fun heq => hne q hr ((hpow _ (by omega)).mp heq)

theorem Chain.prime {ws : List Witness} (h : Chain bits known ws) (hknown : ∀ q ∈ known, q.Prime) :
    ∀ w ∈ ws, w.p.Prime := by
  induction ws generalizing known with
  | nil => exact fun _ h => nomatch h
  | cons w ws ih =>
    have hw := h.1.prime hknown
    exact List.forall_mem_cons.mpr ⟨hw, ih h.2 (List.forall_mem_cons.mpr ⟨hw, hknown⟩)⟩

end Attestation.Primality
