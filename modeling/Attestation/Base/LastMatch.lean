import Attestation.Base.Fault
import Mathlib.Data.List.Induction
import Mathlib.Data.List.Nodup

/-! The last element of a list with a property, and the loops that look for it. A loop
that sets a variable at every element with the property leaves in it what the last one
gives. Where at most one element has the property the order of the list does not matter,
nor do elements without it. -/

namespace Attestation

variable {α β κ σ ε : Type} {p : α → Prop} [DecidablePred p]

/-! ### The last match -/

variable (p) in
def lastMatch (xs : List α) : Option α := (xs.filter p).getLast?

theorem lastMatch_concat (xs : List α) (x : α) :
    lastMatch p (xs ++ [x]) = if p x then some x else lastMatch p xs := by
  rw [lastMatch, List.filter_append]
  by_cases hx : p x
  · simp [hx]
  · simp [hx, lastMatch]

theorem lastMatch_cons_of_neg {x : α} (hx : ¬ p x) (xs : List α) :
    lastMatch p (x :: xs) = lastMatch p xs := by
  rw [lastMatch, List.filter_cons_of_neg (by simpa using hx), lastMatch]

variable (p) in
/-- At most one element has the property. -/
def UniqueMatch (xs : List α) : Prop := (xs.filter p).length ≤ 1

theorem UniqueMatch.filter_eq {xs : List α} (h : UniqueMatch p xs) :
    xs.filter p = [] ∨ ∃ x, xs.filter p = [x] := by
  rcases Nat.le_one_iff_eq_zero_or_eq_one.mp h with h | h
  · exact .inl (List.length_eq_zero_iff.mp h)
  · exact .inr (List.length_eq_one_iff.mp h)

/-- Elements with the property all have one key, and the keys are distinct. -/
theorem UniqueMatch.of_nodup {xs : List α} (key : α → κ) (k : κ) (hkey : ∀ x, p x → key x = k)
    (h : (xs.map key).Nodup) : UniqueMatch p xs := by
  have hnodup : ((xs.filter p).map key).Nodup := h.sublist (List.filter_sublist.map key)
  have hreplicate : (xs.filter p).map key = List.replicate ((xs.filter p).map key).length k := by
    refine List.eq_replicate_of_mem fun k' hk' => ?_
    obtain ⟨x, hx, rfl⟩ := List.mem_map.mp hk'
    exact hkey x (of_decide_eq_true (List.mem_filter.mp hx).2)
  rw [hreplicate, List.nodup_replicate, List.length_map] at hnodup
  exact hnodup

theorem UniqueMatch.lastMatch_eq_some_iff {xs : List α} (h : UniqueMatch p xs) {x : α} :
    lastMatch p xs = some x ↔ x ∈ xs ∧ p x := by
  have hmem : x ∈ xs ∧ p x ↔ x ∈ xs.filter p := by simp
  rw [hmem, lastMatch]
  rcases h.filter_eq with hfilter | ⟨y, hfilter⟩
  · rw [hfilter]
    simp
  · rw [hfilter]
    simp [eq_comm]

/-- A list in another order, with elements added that do not have the property. -/
theorem UniqueMatch.lastMatch_of_perm {xs ys zs : List α} (h : UniqueMatch p xs)
    (hys : ∀ y ∈ ys, ¬ p y) (hperm : (xs ++ ys).Perm zs) : lastMatch p zs = lastMatch p xs := by
  have hfilter := hperm.filter (fun x => decide (p x))
  have hnone : ys.filter (fun x => decide (p x)) = [] := by simpa using hys
  rw [List.filter_append, hnone, List.append_nil] at hfilter
  unfold lastMatch
  rcases h.filter_eq with hxs | ⟨x, hxs⟩
  · rw [hxs] at hfilter
    rw [hxs, List.nil_perm.mp hfilter]
  · rw [hxs] at hfilter
    rw [hxs, List.singleton_perm.mp hfilter]

/-! ### Loops -/

/-- A variable that is set at every match holds what the last match gives. -/
theorem foldl_lastMatch {step : σ → α → σ} {get : σ → β} {f : α → β}
    (hstep : ∀ s x, get (step s x) = if p x then f x else get s) (s : σ) (xs : List α) :
    get (xs.foldl step s) = (lastMatch p xs).elim (get s) f := by
  induction xs using List.reverseRecOn with
  | nil => rfl
  | append_singleton xs x ih =>
    rw [List.foldl_append, List.foldl_cons, List.foldl_nil, hstep, lastMatch_concat, ih]
    split_ifs <;> rfl

/-- The same for a loop that can fail. -/
theorem foldlM_lastMatch {step : σ → α → Except ε σ} {get : σ → β} {f : α → β} {s s' : σ}
    {xs : List α} (h : xs.foldlM step s = .ok s')
    (hstep : ∀ s x s', step s x = .ok s' → get s' = if p x then f x else get s) :
    get s' = (lastMatch p xs).elim (get s) f := by
  induction xs using List.reverseRecOn generalizing s' with
  | nil =>
    obtain rfl := Result.pure_eq_ok.mp h
    rfl
  | append_singleton xs x ih =>
    rw [List.foldlM_append, Result.bind_eq_ok] at h
    obtain ⟨t, ht, h⟩ := h
    rw [List.foldlM_cons, Result.bind_eq_ok] at h
    obtain ⟨t', hx, h⟩ := h
    obtain rfl := Result.pure_eq_ok.mp h
    rw [hstep t x t' hx, lastMatch_concat, ih ht]
    split_ifs <;> rfl

/-- A loop whose steps fail whatever the state comes to its end when none of them does. -/
theorem exists_foldlM_eq_ok_iff {step : σ → α → Except ε σ} {good : α → Prop} {xs : List α}
    (hstep : ∀ x ∈ xs, ∀ s, (∃ s', step s x = .ok s') ↔ good x) (s : σ) :
    (∃ s', xs.foldlM step s = .ok s') ↔ ∀ x ∈ xs, good x := by
  induction xs generalizing s with
  | nil => exact iff_of_true ⟨s, rfl⟩ fun _ hx => (List.not_mem_nil hx).elim
  | cons x xs ih =>
    obtain ⟨hx, hxs⟩ := List.forall_mem_cons.mp hstep
    simp only [List.foldlM_cons, Result.bind_eq_ok, List.forall_mem_cons, ← hx s]
    constructor
    · rintro ⟨s', t, ht, hs'⟩
      exact ⟨⟨t, ht⟩, (ih hxs t).mp ⟨s', hs'⟩⟩
    · rintro ⟨⟨t, ht⟩, hgood⟩
      obtain ⟨s', hs'⟩ := (ih hxs t).mpr hgood
      exact ⟨s', t, ht, hs'⟩

theorem lastMatch_eq_find?_reverse (xs : List α) :
    lastMatch p xs = xs.reverse.find? fun x => p x := by
  rw [lastMatch, List.getLast?_filter]

end Attestation
