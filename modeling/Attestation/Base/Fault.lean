import Mathlib.Data.List.Forall2

/-! Results of a Rust computation: a value, a returned error, or a panic. The
inversion lemmas say what a sequence, a check or a loop that succeeded must have
done; every later proof peels a computation apart with them. -/

namespace Attestation

/-- Why a computation stopped without a value. -/
inductive Fault (ε : Type) where
  | err (e : ε)
  | panic
  deriving DecidableEq, Repr

abbrev Result (ε α : Type) := Except (Fault ε) α

instance decidableEqExcept {ε α : Type*} [DecidableEq ε] [DecidableEq α] :
    DecidableEq (Except ε α)
  | .error e, .error f => decidable_of_iff (e = f) (by rw [Except.error.injEq])
  | .ok a, .ok b => decidable_of_iff (a = b) (by rw [Except.ok.injEq])
  | .error _, .ok _ => isFalse (by simp)
  | .ok _, .error _ => isFalse (by simp)

namespace Result

variable {ε ε' σ α β γ : Type}

/-- `return Err(e)`. -/
def fail (e : ε) : Result ε α := .error (.err e)

/-- An early return: `if !c { return Err(e) }`. -/
def ensure (c : Prop) [Decidable c] (e : ε) : Result ε Unit := if c then .ok () else fail e

/-- `.map_err(f)?` on a call that cannot panic. -/
def ofExcept (f : σ → ε) : Except σ α → Result ε α
  | .ok a => .ok a
  | .error e => fail (f e)

/-- `.map_err(f)?` on a call that may panic. -/
def mapErr (f : ε → ε') : Result ε α → Result ε' α
  | .ok a => .ok a
  | .error (.err e) => fail (f e)
  | .error .panic => .error .panic

/-- `.ok_or(e)?`. -/
def okOr (e : ε) : Option α → Result ε α
  | some a => .ok a
  | none => fail e

/-- `.ok()`, which forgets a returned error. -/
def toOption : Result ε α → Result ε' (Option α)
  | .ok a => .ok (some a)
  | .error (.err _) => .ok none
  | .error .panic => .error .panic

/-- `.expect(..)`. -/
def expect : Option α → Result ε α
  | some a => .ok a
  | none => .error .panic

theorem exists_eq_ok {x : Except σ α} (h : x.isOk = true) : ∃ a, x = .ok a := by
  cases x with
  | error e => cases h
  | ok a => exact ⟨a, rfl⟩

theorem exists_eq_error {x : Except σ α} (h : ∀ a, x ≠ .ok a) : ∃ e, x = .error e := by
  cases x with
  | error e => exact ⟨e, rfl⟩
  | ok a => exact absurd rfl (h a)

/-- A computation with one possible value. -/
theorem eq_ok_iff {x : Except σ α} {P : Prop} {a b : α} (hok : (∃ c, x = .ok c) ↔ P)
    (hvalue : ∀ c, x = .ok c → c = a) : x = .ok b ↔ P ∧ b = a := by
  constructor
  · exact fun h => ⟨hok.mp ⟨b, h⟩, hvalue b h⟩
  · rintro ⟨hP, rfl⟩
    obtain ⟨c, hc⟩ := hok.mpr hP
    rw [hc, hvalue c hc]

theorem map_eq_ok {f : α → β} {x : Except σ α} {b : β} :
    x.map f = .ok b ↔ ∃ a, x = .ok a ∧ f a = b := by
  cases x <;> simp [Except.map]

theorem map_bind {x : Except σ α} {f : α → Except σ β} {g : β → γ} :
    (x >>= f).map g = x >>= fun a => (f a).map g := by
  cases x <;> rfl

theorem bind_of_eq_ok {x : Except σ α} {f : α → Except σ β} {a : α} (h : x = .ok a) :
    (x >>= f) = f a := by
  rw [h]
  rfl

theorem bind_congr_ok {x : Except σ α} {f g : α → Except σ β} (h : ∀ a, x = .ok a → f a = g a) :
    (x >>= f) = (x >>= g) := by
  cases x with
  | error e => rfl
  | ok a => exact h a rfl

/-- What follows two computations that agree in a view may read what the view shows. -/
theorem bind_congr_map {x y : Except σ α} {view : α → γ} {f : α → Except σ β}
    (h : x.map view = y.map view) (hf : ∀ a b, view a = view b → f a = f b) :
    (x >>= f) = (y >>= f) := by
  cases x <;> cases y <;> simp only [Except.map, Except.error.injEq, Except.ok.injEq, reduceCtorEq] at h
  · exact congrArg Except.error h
  · exact hf _ _ h

theorem bind_eq_ok {x : Except σ α} {f : α → Except σ β} {b : β} :
    (x >>= f) = .ok b ↔ ∃ a, x = .ok a ∧ f a = .ok b := by
  cases x <;> simp [bind, Except.bind]

theorem bind_eq_error {x : Except σ α} {f : α → Except σ β} {e : σ} :
    (x >>= f) = .error e ↔ x = .error e ∨ ∃ a, x = .ok a ∧ f a = .error e := by
  cases x <;> simp [bind, Except.bind]

theorem pure_eq_ok {a b : α} : (pure a : Except σ α) = .ok b ↔ a = b := by
  simp [pure, Except.pure]

@[simp] theorem fail_ne_ok {e : ε} {a : α} : (fail e : Result ε α) ≠ .ok a := by simp [fail]

theorem ensure_eq_ok {c : Prop} [Decidable c] {e : ε} {u : Unit} :
    ensure c e = .ok u ↔ c := by
  by_cases h : c <;> simp [ensure, h]

theorem ensure_eq_error {c : Prop} [Decidable c] {e : ε} {f : Fault ε} :
    ensure c e = .error f ↔ ¬ c ∧ f = .err e := by
  by_cases h : c <;> simp [ensure, h, fail, eq_comm]

theorem ofExcept_eq_ok {f : σ → ε} {x : Except σ α} {a : α} :
    ofExcept f x = .ok a ↔ x = .ok a := by
  cases x <;> simp [ofExcept]

theorem ofExcept_eq_error {f : σ → ε} {x : Except σ α} {e : Fault ε} :
    ofExcept f x = .error e ↔ ∃ s, x = .error s ∧ e = .err (f s) := by
  cases x <;> simp [ofExcept, fail, eq_comm]

theorem mapErr_eq_ok {f : ε → ε'} {x : Result ε α} {a : α} :
    mapErr f x = .ok a ↔ x = .ok a := by
  rcases x with (_ | _) | _ <;> simp [mapErr]

theorem map_mapErr {f : ε → ε'} {x : Result ε α} {g : α → β} :
    (mapErr f x).map g = mapErr f (x.map g) := by
  rcases x with (_ | _) | _ <;> rfl

theorem okOr_eq_ok {e : ε} {x : Option α} {a : α} : okOr e x = .ok a ↔ x = some a := by
  cases x <;> simp [okOr]

theorem okOr_eq_error {e : ε} {x : Option α} {f : Fault ε} :
    okOr e x = .error f ↔ x = none ∧ f = .err e := by
  cases x <;> simp [okOr, fail, eq_comm]

theorem exists_toOption_eq_ok {x : Result ε α} :
    (∃ o, (toOption x : Result ε' (Option α)) = .ok o) ↔ x ≠ .error .panic := by
  rcases x with (_ | _) | _ <;> simp [toOption]

theorem expect_eq_ok {x : Option α} {a : α} : (expect x : Result ε α) = .ok a ↔ x = some a := by
  cases x <;> simp [expect]

/-- A loop of checks passes exactly when every check does. -/
theorem forM_eq_ok {f : α → Except σ Unit} {xs : List α} {u : Unit} :
    xs.forM f = .ok u ↔ ∀ x ∈ xs, f x = .ok () := by
  induction xs with
  | nil => simp [List.forM, pure, Except.pure]
  | cons x xs ih =>
    change (f x >>= fun _ => xs.forM f) = _ ↔ _
    rw [bind_eq_ok]
    simp only [ih, List.mem_cons, forall_eq_or_imp]
    exact ⟨fun ⟨_, hx, hs⟩ => ⟨hx, hs⟩, fun ⟨hx, hs⟩ => ⟨(), hx, hs⟩⟩

/-- A loop of checks fails with the error of one of them. -/
theorem forM_eq_error {f : α → Except σ Unit} {xs : List α} {e : σ}
    (h : xs.forM f = .error e) : ∃ x ∈ xs, f x = .error e := by
  induction xs with
  | nil => simp [List.forM, pure, Except.pure] at h
  | cons x xs ih =>
    change (f x >>= fun _ => xs.forM f) = _ at h
    rcases bind_eq_error.mp h with hx | ⟨_, _, hxs⟩
    · exact ⟨x, by simp, hx⟩
    · obtain ⟨y, hy, he⟩ := ih hxs
      exact ⟨y, by simp [hy], he⟩

/-- Collecting fallible results succeeds exactly when each one does, in order. -/
theorem mapM_eq_ok {f : α → Except σ β} {xs : List α} {ys : List β} :
    xs.mapM f = .ok ys ↔ List.Forall₂ (fun x y => f x = .ok y) xs ys := by
  induction xs generalizing ys with
  | nil => cases ys <;> simp [pure, Except.pure]
  | cons x xs ih =>
    rw [List.mapM_cons, bind_eq_ok]
    cases ys with
    | nil =>
      simp only [bind_eq_ok, pure_eq_ok, List.forall₂_nil_right_iff, reduceCtorEq, and_false,
        exists_false]
    | cons y ys =>
      simp only [bind_eq_ok, pure_eq_ok, List.cons.injEq, ih, List.forall₂_cons]
      constructor
      · rintro ⟨_, hx, _, hxs, rfl, rfl⟩
        exact ⟨hx, hxs⟩
      · rintro ⟨hx, hxs⟩
        exact ⟨y, hx, ys, hxs, rfl, rfl⟩

/-- Values that only have to pass a check are collected when all of them do. -/
theorem mapM_check {P : α → Prop} [DecidablePred P] {e : ε} (xs : List α) :
    xs.mapM (fun x => if P x then .ok x else (fail e : Result ε α)) =
      if ∀ x ∈ xs, P x then .ok xs else fail e := by
  induction xs with
  | nil => simp [pure, Except.pure]
  | cons x xs ih =>
    rw [List.mapM_cons, ih]
    by_cases hx : P x
    · by_cases hxs : ∀ y ∈ xs, P y
      · rw [if_pos hx, if_pos hxs, if_pos (List.forall_mem_cons.mpr ⟨hx, hxs⟩)]
        rfl
      · rw [if_pos hx, if_neg hxs, if_neg fun h => hxs (List.forall_mem_cons.mp h).2]
        rfl
    · rw [if_neg hx, if_neg fun h => hx (List.forall_mem_cons.mp h).1]
      rfl

/-! ### The errors a computation can return -/

/-- Every error the computation returns has the property. -/
def Raises (P : ε → Prop) (x : Result ε α) : Prop := ∀ e, x = .error (.err e) → P e

namespace Raises

variable {P : ε → Prop}

theorem pure (a : α) : Raises P (.ok a) := fun _ h => nomatch h

theorem fail {e : ε} (h : P e) : Raises P (Result.fail e : Result ε α) := by
  rintro _ ⟨⟩
  exact h

theorem bind {x : Result ε α} {f : α → Result ε β} (hx : Raises P x) (hf : ∀ a, Raises P (f a)) :
    Raises P (x >>= f) := by
  intro e h
  rcases bind_eq_error.mp h with h | ⟨a, -, h⟩
  · exact hx e h
  · exact hf a e h

theorem ensure {c : Prop} [Decidable c] {e : ε} (h : P e) : Raises P (Result.ensure c e) := by
  intro e' he'
  obtain ⟨-, ⟨⟩⟩ := ensure_eq_error.mp he'
  exact h

theorem okOr {e : ε} {x : Option α} (h : P e) : Raises P (Result.okOr e x) := by
  intro e' he'
  obtain ⟨-, ⟨⟩⟩ := okOr_eq_error.mp he'
  exact h

theorem ofExcept {f : σ → ε} {x : Except σ α} (h : ∀ s, P (f s)) :
    Raises P (Result.ofExcept f x) := by
  intro e' he'
  obtain ⟨s, -, ⟨⟩⟩ := ofExcept_eq_error.mp he'
  exact h s

theorem mapErr {f : ε' → ε} {x : Result ε' α} (h : ∀ s, P (f s)) :
    Raises P (Result.mapErr f x) := by
  intro e' he'
  rcases x with (s | _) | _
  · obtain ⟨⟩ := he'
    exact h s
  · cases he'
  · cases he'

end Raises

/-! ### Computations that do not panic -/

/-- The computation returns a value or an error. -/
def Returns (x : Result ε α) : Prop := x ≠ .error .panic

namespace Returns

theorem ok (a : α) : Returns (.ok a : Result ε α) := fun h => nomatch h

theorem fail (e : ε) : Returns (Result.fail e : Result ε α) := fun h => nomatch h

theorem bind {x : Result ε α} {f : α → Result ε β} (hx : Returns x)
    (hf : ∀ a, x = .ok a → Returns (f a)) : Returns (x >>= f) := by
  intro h
  rcases bind_eq_error.mp h with h | ⟨a, ha, h⟩
  · exact hx h
  · exact hf a ha h

theorem ensure (c : Prop) [Decidable c] (e : ε) : Returns (Result.ensure c e) := by
  intro h
  obtain ⟨-, ⟨⟩⟩ := ensure_eq_error.mp h

theorem okOr (e : ε) (x : Option α) : Returns (Result.okOr e x) := by
  intro h
  obtain ⟨-, ⟨⟩⟩ := okOr_eq_error.mp h

theorem ofExcept (f : σ → ε) (x : Except σ α) : Returns (Result.ofExcept f x) := by
  intro h
  obtain ⟨s, -, ⟨⟩⟩ := ofExcept_eq_error.mp h

theorem mapErr {f : ε → ε'} {x : Result ε α} (h : Returns x) : Returns (Result.mapErr f x) := by
  rcases x with (e | _) | a
  · exact fail (f e)
  · exact absurd rfl h
  · exact ok a

theorem mapM {f : α → Result ε β} (hf : ∀ a, Returns (f a)) (xs : List α) :
    Returns (xs.mapM f) := by
  induction xs with
  | nil => exact ok []
  | cons x xs ih =>
    rw [List.mapM_cons]
    exact bind (hf x) fun y _ => bind ih fun ys _ => ok (y :: ys)

theorem forM {f : α → Result ε Unit} (hf : ∀ a, Returns (f a)) (xs : List α) :
    Returns (xs.forM f) := by
  intro h
  obtain ⟨a, -, ha⟩ := forM_eq_error h
  exact hf a ha

theorem toOption {x : Result ε α} (h : Returns x) : Returns (Result.toOption x : Result ε' _) := by
  rcases x with (e | _) | a
  · exact ok none
  · exact absurd rfl h
  · exact ok (some a)

theorem expect {x : Option α} (h : x.isSome = true) : Returns (Result.expect x : Result ε α) := by
  obtain ⟨a, rfl⟩ := Option.isSome_iff_exists.mp h
  exact ok a

theorem foldlM {step : σ → α → Result ε σ} (hstep : ∀ s a, Returns (step s a)) (s : σ)
    (xs : List α) : Returns (xs.foldlM step s) := by
  induction xs generalizing s with
  | nil => exact ok s
  | cons x xs ih =>
    rw [List.foldlM_cons]
    exact bind (hstep s x) fun t _ => ih t

theorem exists_fail {x : Result ε α} (h : Returns x) (hok : ∀ a, x ≠ .ok a) :
    ∃ e, x = Result.fail e := by
  rcases x with (e | _) | a
  · exact ⟨e, rfl⟩
  · exact absurd rfl h
  · exact absurd rfl (hok a)

end Returns

end Result

end Attestation
