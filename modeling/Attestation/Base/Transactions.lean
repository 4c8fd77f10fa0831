import Attestation.Base.Fault
import Attestation.Base.Runs

/-! Atomic transactions. A transaction opens a working state, runs its commands on it one
after another and commits; if a command or the commit stops, nothing has happened. What
every command keeps of the working state is kept by the transaction, and so by a run. -/

namespace Attestation

open Result

variable {σ ω τ κ ε : Type}

/-- How a kind of transaction is carried out: `σ` is the state between transactions and
`ω` the state a transaction works on. -/
structure Transactions (σ ω τ κ ε : Type) where
  start : σ → τ → ω
  commands : τ → List κ
  command : ω → κ → Result ε ω
  commit : ω → Result ε σ

namespace Transactions

variable (T : Transactions σ ω τ κ ε)

def execute (s : σ) (t : τ) : Result ε σ := do
  let w ← (T.commands t).foldlM T.command (T.start s t)
  T.commit w

/-- A transaction that does not succeed leaves the state as it was. -/
def step (s : σ) (t : τ) : σ :=
  match T.execute s t with
  | .ok s' => s'
  | .error _ => s

variable {T} {s s' : σ} {t : τ}

theorem step_of_execute (h : T.execute s t = .ok s') : T.step s t = s' := by
  simp only [step, h]

/-- A step is a transaction that succeeded or changes nothing. -/
theorem step_cases : T.step s t = s ∨ T.execute s t = .ok (T.step s t) := by
  rcases h : T.execute s t with e | s'
  · exact .inl (by simp only [step, h])
  · exact .inr (by rw [step_of_execute h])

theorem foldlM_invariant {command : ω → κ → Result ε ω} {K : ω → Prop} {commands : List κ}
    {w w' : ω} (hcommand : ∀ w c w', K w → command w c = .ok w' → K w') (hstart : K w)
    (h : commands.foldlM command w = .ok w') : K w' := by
  induction commands generalizing w with
  | nil => exact pure_eq_ok.mp h ▸ hstart
  | cons c commands ih =>
    rw [List.foldlM_cons, bind_eq_ok] at h
    obtain ⟨next, hnext, h⟩ := h
    exact ih (hcommand w c next hstart hnext) h

/-- A transaction that succeeded committed a working state with what every command keeps. -/
theorem execute_invariant (K : ω → Prop) (hcommand : ∀ w c w', K w → T.command w c = .ok w' → K w')
    (hstart : K (T.start s t)) (h : T.execute s t = .ok s') : ∃ w, K w ∧ T.commit w = .ok s' := by
  obtain ⟨w, hw, hcommit⟩ := bind_eq_ok.mp h
  exact ⟨w, foldlM_invariant hcommand hstart hw, hcommit⟩

/-- A property that transactions open with, every command keeps and a commit hands back
holds after a run of transactions. -/
theorem run_invariant (Inv : σ → Prop) (K : ω → Prop) {ts : List τ}
    (hstart : ∀ s t, Inv s → K (T.start s t))
    (hcommand : ∀ w c w', K w → T.command w c = .ok w' → K w')
    (hcommit : ∀ w s', K w → T.commit w = .ok s' → Inv s') (h : Inv s) :
    Inv (run T.step s ts) := by
  refine Attestation.run_invariant (fun s t hs => ?_) h
  rcases T.step_cases (s := s) (t := t) with heq | hexecute
  · rwa [heq]
  · obtain ⟨w, hw, hc⟩ := execute_invariant K hcommand (hstart s t hs) hexecute
    exact hcommit w _ hw hc

end Transactions

end Attestation
