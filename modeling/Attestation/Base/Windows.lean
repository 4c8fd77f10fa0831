import Attestation.Base.Fault

/-! Computations that read a clock. A windowed one succeeds between any two times at
which it does, and what it returns is, up to a view of it, the same at all of them. A
sequence of windowed computations is windowed, and so is a loop of them. -/

namespace Attestation

open Result

variable {τ σ ε ε' α β γ δ : Type} [LE τ]

/-- The successes of the computation form an interval, and agree in the view. -/
structure Windowed (view : α → β) (f : τ → Except σ α) : Prop where
  between : ∀ {s t u a c}, s ≤ t → t ≤ u → f s = .ok a → f u = .ok c → ∃ b, f t = .ok b
  agree : ∀ {s t a b}, f s = .ok a → f t = .ok b → view a = view b

namespace Windowed

variable {view : α → β} {w : γ → δ}

theorem const (x : Except σ α) : Windowed view fun _ : τ => x where
  between _ _ h _ := ⟨_, h⟩
  agree h h' := congrArg view (Except.ok.inj (h.symm.trans h'))

/-- A value that is returned whatever the time. -/
theorem pure {a : τ → α} (h : ∀ s t, view (a s) = view (a t)) :
    Windowed view fun t => (.ok (a t) : Except σ α) where
  between _ _ _ _ := ⟨_, rfl⟩
  agree := by
    rintro s t _ _ ⟨⟩ ⟨⟩
    exact h s t

/-- What follows a windowed computation may read its value and the time. -/
theorem bind {f : τ → Except σ α} {g : τ → α → Except σ γ} (hf : Windowed id f)
    (hg : ∀ a, Windowed w (g · a)) : Windowed w fun t => f t >>= g t where
  between hst htu hs hu := by
    obtain ⟨a, ha, hga⟩ := bind_eq_ok.mp hs
    obtain ⟨c, hc, hgc⟩ := bind_eq_ok.mp hu
    obtain ⟨b, hb⟩ := hf.between hst htu ha hc
    obtain rfl : c = a := hf.agree hc ha
    obtain rfl : b = c := hf.agree hb ha
    obtain ⟨d, hd⟩ := (hg b).between hst htu hga hgc
    exact ⟨d, bind_eq_ok.mpr ⟨b, hb, hd⟩⟩
  agree hs ht := by
    obtain ⟨a, ha, hga⟩ := bind_eq_ok.mp hs
    obtain ⟨b, hb, hgb⟩ := bind_eq_ok.mp ht
    obtain rfl : b = a := hf.agree hb ha
    exact (hg b).agree hga hgb

theorem ensure {P : τ → Prop} [DecidablePred P] (e : ε)
    (h : ∀ {s t u}, s ≤ t → t ≤ u → P s → P u → P t) :
    Windowed id fun t => Result.ensure (P t) e where
  between hst htu hs hu :=
    ⟨(), ensure_eq_ok.mpr (h hst htu (ensure_eq_ok.mp hs) (ensure_eq_ok.mp hu))⟩
  agree _ _ := rfl

theorem mapErr {f : τ → Result ε α} (g : ε → ε') (hf : Windowed view f) :
    Windowed view fun t => Result.mapErr g (f t) where
  between hst htu hs hu := by
    obtain ⟨b, hb⟩ := hf.between hst htu (mapErr_eq_ok.mp hs) (mapErr_eq_ok.mp hu)
    exact ⟨b, mapErr_eq_ok.mpr hb⟩
  agree hs ht := hf.agree (mapErr_eq_ok.mp hs) (mapErr_eq_ok.mp ht)

theorem forM {f : τ → γ → Except σ Unit} (hf : ∀ x, Windowed id (f · x)) (xs : List γ) :
    Windowed id fun t => xs.forM (f t) where
  between hst htu hs hu := by
    refine ⟨(), forM_eq_ok.mpr fun x hx => ?_⟩
    obtain ⟨_, h⟩ := (hf x).between hst htu (forM_eq_ok.mp hs x hx) (forM_eq_ok.mp hu x hx)
    exact h
  agree _ _ := rfl

end Windowed

end Attestation
