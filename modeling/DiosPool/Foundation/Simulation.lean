import Mathlib

/-!
# Observations of a run

A machine that answers one input at a time and may fail is observed by the answers it gave and
the failure, if any, that ended the run. Two machines whose states stay related make the same
observations.
-/

namespace DiosPool.Foundation

variable {ι σ τ ε ω : Type}

/-- The answers to a list of inputs, up to the first failure, and that failure. -/
def observe (step : ι → σ → Except ε (ω × σ)) : List ι → σ → List ω × Option ε
  | [], _ => ([], none)
  | input :: inputs, state =>
    match step input state with
    | .ok (answer, state') =>
      let (answers, failure) := observe step inputs state'
      (answer :: answers, failure)
    | .error error => ([], some error)

/-- One step of two machines in lockstep: the same answer and related states, or the same
failure. -/
inductive Lockstep (related : σ → τ → Prop) :
    Except ε (ω × σ) → Except ε (ω × τ) → Prop
  | answer (value : ω) {left : σ} {right : τ} (h : related left right) :
    Lockstep related (.ok (value, left)) (.ok (value, right))
  | failure (error : ε) : Lockstep related (.error error) (.error error)

theorem observe_eq_of_lockstep {stepLeft : ι → σ → Except ε (ω × σ)}
    {stepRight : ι → τ → Except ε (ω × τ)} {related : σ → τ → Prop}
    (hstep : ∀ input left right, related left right →
      Lockstep related (stepLeft input left) (stepRight input right))
    (inputs : List ι) {left : σ} {right : τ} (h : related left right) :
    observe stepLeft inputs left = observe stepRight inputs right := by
  induction inputs generalizing left right with
  | nil => rfl
  | cons input inputs ih =>
    simp only [observe]
    have hlock := hstep input left right h
    generalize stepLeft input left = first at hlock
    generalize stepRight input right = second at hlock
    cases hlock with
    | answer value hrelated => simp only [ih hrelated]
    | failure error => rfl

end DiosPool.Foundation
