import Attestation.Base.Bytes
import Attestation.Base.SelfDelimiting

/-! ULEB128: a natural number in groups of seven bits, least significant first,
every byte but the last with its high bit set. The encoding is minimal and
self-delimiting. -/

namespace Attestation

/-- Base-128 digits as bytes, the continuation bit on all but the last. -/
def markDigits : List ℕ → Bytes
  | [] => []
  | [d] => [UInt8.ofNat d]
  | d :: e :: ds => UInt8.ofNat (d + 128) :: markDigits (e :: ds)

/-- The base-128 digits written for `n`: a single zero stands for zero. -/
def ulebDigits (n : ℕ) : List ℕ := if n = 0 then [0] else Nat.digits 128 n

def uleb128 (n : ℕ) : Bytes := markDigits (ulebDigits n)

theorem markDigits_selfDelimiting {ds es : List ℕ} (hds : ds ≠ []) (hes : es ≠ [])
    (hd : ∀ d ∈ ds, d < 128) (he : ∀ e ∈ es, e < 128) {r s : Bytes}
    (h : markDigits ds ++ r = markDigits es ++ s) : ds = es ∧ r = s := by
  induction ds generalizing es with
  | nil => exact absurd rfl hds
  | cons d ds ih =>
    rcases es with _ | ⟨e, es⟩
    · exact absurd rfl hes
    have hd0 : d < 128 := hd d (by simp)
    have he0 : e < 128 := he e (by simp)
    -- the continuation bit of the first byte tells whether a digit follows
    rcases ds with _ | ⟨d', ds⟩ <;> rcases es with _ | ⟨e', es⟩ <;>
      simp only [markDigits, List.cons_append, List.nil_append, List.cons.injEq] at h <;>
      have hb := congrArg UInt8.toNat h.1 <;>
      simp only [UInt8.toNat_ofNat'] at hb
    · exact ⟨by rw [show d = e by omega], h.2⟩
    · omega
    · omega
    · have htail : ∀ x ∈ e' :: es, x < 128 := fun x hx => he x (List.mem_cons_of_mem _ hx)
      obtain ⟨hrest, hr⟩ := ih (by simp) (by simp) (fun x hx => hd x (by simp [hx])) htail h.2
      exact ⟨by rw [show d = e by omega, hrest], hr⟩

theorem ulebDigits_ne_nil (n : ℕ) : ulebDigits n ≠ [] := by
  unfold ulebDigits
  split_ifs with h
  · simp
  · exact Nat.digits_ne_nil_iff_ne_zero.mpr h

theorem ulebDigits_lt (n : ℕ) : ∀ d ∈ ulebDigits n, d < 128 := by
  intro d hd
  unfold ulebDigits at hd
  split_ifs at hd
  · simp at hd; omega
  · exact Nat.digits_lt_base (by norm_num) hd

theorem ofDigits_ulebDigits (n : ℕ) : Nat.ofDigits 128 (ulebDigits n) = n := by
  unfold ulebDigits
  split_ifs with h
  · simp [h]
  · exact Nat.ofDigits_digits 128 n

theorem uleb128_selfDelimiting : SelfDelimiting uleb128 := by
  intro m n r s h
  obtain ⟨hd, hr⟩ := markDigits_selfDelimiting (ulebDigits_ne_nil m) (ulebDigits_ne_nil n)
    (ulebDigits_lt m) (ulebDigits_lt n) h
  refine ⟨?_, hr⟩
  rw [← ofDigits_ulebDigits m, hd, ofDigits_ulebDigits]

/-- The low seven bits come first, behind a continuation bit when more follow. -/
theorem uleb128_eq (n : ℕ) : uleb128 n =
    if n < 128 then [UInt8.ofNat n] else UInt8.ofNat (n % 128 + 128) :: uleb128 (n / 128) := by
  have hdigits : n ≠ 0 → Nat.digits 128 n = n % 128 :: Nat.digits 128 (n / 128) := fun hn =>
    Nat.digits_def' (by norm_num) (Nat.pos_of_ne_zero hn)
  split_ifs with h
  · rcases Nat.eq_zero_or_pos n with rfl | hpos
    · rfl
    · rw [uleb128, ulebDigits, if_neg hpos.ne', hdigits hpos.ne', Nat.div_eq_of_lt h,
        Nat.digits_zero, Nat.mod_eq_of_lt h]
      rfl
  · have hhigh : n / 128 ≠ 0 := by omega
    rw [uleb128, uleb128, ulebDigits, ulebDigits, if_neg (by omega), if_neg hhigh,
      hdigits (by omega)]
    obtain ⟨d, ds, hds⟩ := List.exists_cons_of_ne_nil (Nat.digits_ne_nil_iff_ne_zero.mpr hhigh)
    rw [hds]
    rfl

/-- The first byte says whether the number ends there and what its low digit is. -/
theorem uleb128_append_eq_cons {n : ℕ} {b : UInt8} {bs r : Bytes} :
    uleb128 n ++ r = b :: bs ↔ if b.toNat < 128 then n = b.toNat ∧ r = bs
      else ∃ k, k ≠ 0 ∧ n = b.toNat - 128 + 128 * k ∧ uleb128 k ++ r = bs := by
  have hb := b.toNat_lt
  have hbyte : ∀ k < 256, UInt8.ofNat k = b ↔ k = b.toNat := fun k hk => by
    rw [← UInt8.toNat_inj, UInt8.toNat_ofNat_of_lt' hk]
  rw [uleb128_eq]
  by_cases hn : n < 128
  · rw [if_pos hn, List.singleton_append, List.cons.injEq, hbyte n (by omega)]
    split_ifs with hlast
    · rfl
    · refine iff_of_false (fun h => hlast (h.1 ▸ hn)) ?_
      rintro ⟨k, hk, hnk, -⟩
      omega
  · rw [if_neg hn, List.cons_append, List.cons.injEq, hbyte _ (by omega)]
    split_ifs with hlast
    · exact iff_of_false (fun h => by omega) (fun h => by omega)
    · constructor
      · exact fun ⟨hlow, htail⟩ => ⟨n / 128, by omega, by omega, htail⟩
      · rintro ⟨k, hk, rfl, htail⟩
        have hdiv : (b.toNat - 128 + 128 * k) / 128 = k := by omega
        exact ⟨by omega, by rwa [hdiv]⟩

example : uleb128 200 = [0xC8, 0x01] := by decide +kernel

end Attestation
