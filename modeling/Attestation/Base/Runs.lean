import Mathlib.Data.List.Basic

/-! Runs of a deterministic system over a list of events. `Always` says what holds
in every state a run reaches and `EachStep` what holds at each of its steps; the
rules pass from a condition on the steps to a property of the states. -/

namespace Attestation

variable {σ ε : Type*} (step : σ → ε → σ)

/-- The state after a list of events. -/
def run (s : σ) (events : List ε) : σ := events.foldl step s

@[simp] theorem run_nil (s : σ) : run step s [] = s := rfl

@[simp] theorem run_cons (s : σ) (e : ε) (events : List ε) :
    run step s (e :: events) = run step (step s e) events := rfl

theorem run_append (s : σ) (events more : List ε) :
    run step s (events ++ more) = run step (run step s events) more := List.foldl_append

/-- The property holds in every state reached, the first and the last included. -/
def Always (P : σ → Prop) : σ → List ε → Prop
  | s, [] => P s
  | s, e :: events => P s ∧ Always P (step s e) events

/-- The condition holds at each step, of the state before it and its event. -/
def EachStep (C : σ → ε → Prop) : σ → List ε → Prop
  | _, [] => True
  | s, e :: events => C s e ∧ EachStep C (step s e) events

instance Always.decidable (P : σ → Prop) [DecidablePred P] :
    ∀ (s : σ) (events : List ε), Decidable (Always step P s events)
  | s, [] => inferInstanceAs (Decidable (P s))
  | s, e :: events =>
    have := Always.decidable P (step s e) events
    inferInstanceAs (Decidable (P s ∧ Always step P (step s e) events))

instance EachStep.decidable (C : σ → ε → Prop) [∀ s e, Decidable (C s e)] :
    ∀ (s : σ) (events : List ε), Decidable (EachStep step C s events)
  | _, [] => inferInstanceAs (Decidable True)
  | s, e :: events =>
    have := EachStep.decidable C (step s e) events
    inferInstanceAs (Decidable (C s e ∧ EachStep step C (step s e) events))

variable {step} {Inv K P : σ → Prop} {C : σ → ε → Prop} {s : σ} {events : List ε}

/-- What every step preserves holds after a run. -/
theorem run_invariant (hstep : ∀ s e, Inv s → Inv (step s e)) (h : Inv s) :
    Inv (run step s events) := by
  induction events generalizing s with
  | nil => exact h
  | cons e events ih => exact ih (hstep s e h)

/-- A condition that keeps an invariant gives, at every step of a run, what it gives at
one step together with the invariant. -/
theorem EachStep.of_invariant {C' : σ → ε → Prop} (heach : EachStep step C s events)
    (hinv : ∀ s e, Inv s → C s e → Inv (step s e)) (hC : ∀ s e, Inv s → C s e → C' s e)
    (h : Inv s) : EachStep step C' s events := by
  induction events generalizing s with
  | nil => trivial
  | cons e events ih => exact ⟨hC s e h heach.1, ih heach.2 (hinv s e h heach.1)⟩

/-- Where every step takes something off a measure, the run is no longer than the measure. -/
theorem EachStep.length_add_le {μ : σ → ℕ} (heach : EachStep step C s events)
    (hstep : ∀ s e, C s e → μ (step s e) < μ s) :
    events.length + μ (run step s events) ≤ μ s := by
  induction events generalizing s with
  | nil => simp
  | cons e events ih =>
    have hrest := ih heach.2
    have hfirst := hstep s e heach.1
    rw [run_cons, List.length_cons]
    omega

/-- A property that cannot be gained by a step held throughout if it holds at the end. -/
theorem of_run (hback : ∀ s e, K (step s e) → K s) (h : K (run step s events)) : K s := by
  induction events generalizing s with
  | nil => exact h
  | cons e events ih => exact hback s e (ih h)

/-- An invariant of a state and of the events behind it, which a step keeps where the run
is promised something of its end. -/
theorem run_history {Hist : List ε → σ → Prop} {seen : List ε}
    (hback : ∀ s e, K (step s e) → K s)
    (hstep : ∀ seen s e, K (step s e) → Hist seen s → Hist (seen ++ [e]) (step s e))
    (hK : K (run step s events)) (h : Hist seen s) :
    Hist (seen ++ events) (run step s events) := by
  induction events generalizing seen s with
  | nil => rwa [List.append_nil]
  | cons e events ih =>
    rw [List.append_cons]
    exact ih hK (hstep seen s e (of_run hback hK) h)

/-- Where a step keeps the property exactly when it meets the condition, the
property holds throughout a run exactly when every step meets the condition. `K`
is what the run is promised at its end, and so at each of its states. -/
theorem always_iff_eachStep (hback : ∀ s e, K (step s e) → K s)
    (hinv : ∀ s e, Inv s → Inv (step s e))
    (hstep : ∀ s e, K (step s e) → Inv s → P s → (P (step s e) ↔ C s e))
    (hK : K (run step s events)) (h : Inv s) (hP : P s) :
    Always step P s events ↔ EachStep step C s events := by
  induction events generalizing s with
  | nil => exact iff_of_true hP trivial
  | cons e events ih =>
    have hKe : K (step s e) := of_run hback hK
    have hnext : Always step P (step s e) events → P (step s e) := by
      cases events with
      | nil => exact id
      | cons _ _ => exact And.left
    constructor
    · rintro ⟨-, halways⟩
      have hPe := hnext halways
      exact ⟨(hstep s e hKe h hP).mp hPe, (ih hK (hinv s e h) hPe).mp halways⟩
    · rintro ⟨hC, heach⟩
      have hPe := (hstep s e hKe h hP).mpr hC
      exact ⟨hP, (ih hK (hinv s e h) hPe).mpr heach⟩

end Attestation
