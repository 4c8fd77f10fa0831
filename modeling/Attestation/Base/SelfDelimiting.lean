import Mathlib.Data.Set.List
import Mathlib.Logic.Nontrivial.Basic

/-! Self-delimiting encoders: an encoding followed by anything else determines
the encoded value and what follows it. Fixed-length injective encoders and
length-prefixed strings are self-delimiting, and a list of self-delimiting fields
written one after another is determined by its bytes, field by field. -/

namespace Attestation

variable {α β γ δ : Type*}

/-- No encoding followed by a string is another encoding followed by a string. -/
def SelfDelimiting (enc : α → List δ) : Prop :=
  ∀ ⦃x y : α⦄ ⦃r s : List δ⦄, enc x ++ r = enc y ++ s → x = y ∧ r = s

namespace SelfDelimiting

theorem injective {enc : α → List δ} (h : SelfDelimiting enc) : Function.Injective enc := by
  intro x y hxy
  exact (h (r := []) (s := []) (by simpa using hxy)).1

/-- A code word of a self-delimiting encoder that has another value to tell it
from is not empty. -/
theorem ne_nil [Nontrivial α] {enc : α → List δ} (h : SelfDelimiting enc) (x : α) :
    enc x ≠ [] := by
  intro hx
  obtain ⟨y, hy⟩ := exists_ne x
  exact hy (h (x := x) (y := y) (r := enc y) (s := []) (by simp [hx])).1.symm

theorem of_length {enc : α → List δ} {n : ℕ} (hlen : ∀ x, (enc x).length = n)
    (hinj : Function.Injective enc) : SelfDelimiting enc := by
  intro x y r s h
  obtain ⟨he, hr⟩ := List.append_inj h ((hlen x).trans (hlen y).symm)
  exact ⟨hinj he, hr⟩

/-- A string behind its self-delimiting length. -/
theorem lengthPrefixed {enc : ℕ → List δ} (h : SelfDelimiting enc) :
    SelfDelimiting (fun xs : List δ => enc xs.length ++ xs) := by
  intro xs ys r s hxy
  simp only [List.append_assoc] at hxy
  obtain ⟨hlen, htail⟩ := h hxy
  exact List.append_inj htail hlen

/-- The same for strings of a length the encoder is self-delimiting on. -/
theorem lengthPrefixedOn {enc : ℕ → List δ} {p : ℕ → Prop}
    (h : SelfDelimiting fun n : {n // p n} => enc n) :
    SelfDelimiting fun xs : {xs : List δ // p xs.length} => enc xs.1.length ++ xs.1 := by
  rintro ⟨xs, hxs⟩ ⟨ys, hys⟩ r s hxy
  simp only [List.append_assoc] at hxy
  obtain ⟨hlen, htail⟩ := h (x := ⟨xs.length, hxs⟩) (y := ⟨ys.length, hys⟩) hxy
  obtain ⟨rfl, hrest⟩ := List.append_inj htail (congrArg Subtype.val hlen)
  exact ⟨rfl, hrest⟩

theorem eq_nil_of_flatMap [Nontrivial α] {enc : α → List δ} (h : SelfDelimiting enc)
    {xs : List α} (hxs : xs.flatMap enc = []) : xs = [] := by
  rcases xs with _ | ⟨x, xs⟩
  · rfl
  · exact absurd (List.flatMap_eq_nil_iff.mp hxs x (by simp)) (h.ne_nil x)

/-- Sequences of different lengths never meet: dropping the common fields would
leave an empty code word. -/
theorem flatMap_injective [Nontrivial α] {enc : α → List δ} (h : SelfDelimiting enc) :
    Function.Injective (fun xs : List α => xs.flatMap enc) := by
  intro xs
  induction xs with
  | nil => exact fun ys hys => (h.eq_nil_of_flatMap hys.symm).symm
  | cons x xs ih =>
    intro ys hys
    rcases ys with _ | ⟨y, ys⟩
    · exact h.eq_nil_of_flatMap hys
    · simp only [List.flatMap_cons] at hys
      obtain ⟨rfl, htail⟩ := h hys
      rw [ih htail]

/-- Sequences of values the encoder is self-delimiting on are told apart by their bytes. -/
theorem flatMap_inj {enc : α → List δ} {p : α → Prop} [Nontrivial {x // p x}]
    (h : SelfDelimiting fun x : {x // p x} => enc x) {xs ys : List α} (hxs : ∀ x ∈ xs, p x)
    (hys : ∀ y ∈ ys, p y) (heq : xs.flatMap enc = ys.flatMap enc) : xs = ys := by
  lift xs to List {x // p x} using hxs
  lift ys to List {x // p x} using hys
  rw [List.flatMap_map, List.flatMap_map] at heq
  exact congrArg _ (h.flatMap_injective heq)

end SelfDelimiting

end Attestation
