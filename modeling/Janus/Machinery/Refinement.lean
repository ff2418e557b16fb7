import Mathlib.Data.List.Basic

/-!
# Machinery/Refinement — two machines asked the same

A machine answers one request after another, each from the state the last one left.  Where related
states answer a request alike and stay related (`Refines`), two machines answer every list of
requests alike (`Refines.run`), as long as each request fits the state it is asked of.
-/

namespace Refinement

variable {σ τ ι β : Type*}

/-- What a machine answers, request after request, and the state it leaves. -/
def run (step : σ → ι → β × σ) : σ → List ι → List β × σ
  | s, [] => ([], s)
  | s, i :: is => ((step s i).1 :: (run step (step s i).2 is).1, (run step (step s i).2 is).2)

/-- Every request fits the state it is asked of. -/
def Fit (fits : τ → ι → Prop) (step : τ → ι → β × τ) : τ → List ι → Prop
  | _, [] => True
  | t, i :: is => fits t i ∧ Fit fits step (step t i).2 is

/-- Related states answer a request that fits alike, and stay related. -/
def Refines (R : σ → τ → Prop) (fits : τ → ι → Prop) (impl : σ → ι → β × σ)
    (spec : τ → ι → β × τ) : Prop :=
  ∀ s t i, R s t → fits t i → (impl s i).1 = (spec t i).1 ∧ R (impl s i).2 (spec t i).2

variable {R : σ → τ → Prop} {fits : τ → ι → Prop} {impl : σ → ι → β × σ} {spec : τ → ι → β × τ}

/-- **Asked the same, the two answer the same**, and end in related states. -/
theorem Refines.run (h : Refines R fits impl spec) {s : σ} {t : τ} (hst : R s t) {is : List ι}
    (hfit : Fit fits spec t is) :
    (run impl s is).1 = (Refinement.run spec t is).1 ∧
      R (Refinement.run impl s is).2 (Refinement.run spec t is).2 := by
  induction is generalizing s t with
  | nil => exact ⟨rfl, hst⟩
  | cons i is ih =>
    obtain ⟨hanswer, hnext⟩ := h s t i hst hfit.1
    obtain ⟨hanswers, hlast⟩ := ih hnext hfit.2
    exact ⟨congrArg₂ List.cons hanswer hanswers, hlast⟩

end Refinement
