import Mathlib

/-!
# Loops that ask a device for one answer a turn

A turn of such a loop looks at the answer to its request and either goes on from another state,
stops with a result or fails. The loop carries a budget that every turn which goes on lowers, so a
run is a total function. The device is a finite or infinite sequence of answers; where it ends, the
run is left waiting for its last request. Two loops that ask for the same and turn the same way
have the same runs.
-/

namespace DiosPool.Foundation

/-- Answers to the attempts of a run, in order. No answer means that the sequence has ended. -/
structure Device (Request Answer : Type) (Fits : Request → Answer → Prop) where
  answer : ℕ → Request → Option Answer
  fits : ∀ {index : ℕ} {request : Request} {value : Answer},
    answer index request = some value → Fits request value

/-- A loop with one request a turn. -/
structure Resumable (Request Answer State Result Fault : Type) where
  request : State → Request
  turn : State → Answer → Except Fault (State ⊕ Result)
  budget : State → ℕ
  decreases : ∀ {state : State} {answer : Answer} {next : State},
    turn state answer = .ok (.inl next) → budget next < budget state

namespace Resumable

variable {Request Answer State State' Result Result' Fault Fault' : Type}
  {Fits : Request → Answer → Prop}

/-- The requests of a run from its `index`th attempt on, and its result if the device lasts. -/
def run (loop : Resumable Request Answer State Result Fault) (device : Device Request Answer Fits)
    (index : ℕ) (state : State) : Except Fault (List Request × Option Result) :=
  match device.answer index (loop.request state) with
  | none => .ok ([loop.request state], none)
  | some answer =>
    match _h : loop.turn state answer with
    | .error fault => .error fault
    | .ok (.inr result) => .ok ([loop.request state], some result)
    | .ok (.inl next) =>
      match loop.run device (index + 1) next with
      | .error fault => .error fault
      | .ok rest => .ok (loop.request state :: rest.1, rest.2)
termination_by loop.budget state
decreasing_by exact loop.decreases _h

variable {loop : Resumable Request Answer State Result Fault} {device : Device Request Answer Fits}
  {index : ℕ} {state : State}

theorem run_of_wait (hanswer : device.answer index (loop.request state) = none) :
    loop.run device index state = .ok ([loop.request state], none) := by
  rw [run]
  simp only [hanswer]

theorem run_of_stop {answer : Answer} {result : Result}
    (hanswer : device.answer index (loop.request state) = some answer)
    (hturn : loop.turn state answer = .ok (.inr result)) :
    loop.run device index state = .ok ([loop.request state], some result) := by
  rw [run]
  simp only [hanswer]
  split <;> simp_all

theorem run_of_next {answer : Answer} {next : State} {rest : List Request × Option Result}
    (hanswer : device.answer index (loop.request state) = some answer)
    (hturn : loop.turn state answer = .ok (.inl next))
    (hrest : loop.run device (index + 1) next = .ok rest) :
    loop.run device index state = .ok (loop.request state :: rest.1, rest.2) := by
  rw [run]
  simp only [hanswer]
  split <;> simp_all

/-- A device that lasts brings a run to its end, with a result that the invariant of the states
allows. -/
theorem run_lasts {P : State → Prop} {Q : Result → Prop}
    (hlasts : ∀ index request, (device.answer index request).isSome)
    (hturn : ∀ state, P state → ∀ index answer,
      device.answer index (loop.request state) = some answer →
        ∃ outcome, loop.turn state answer = .ok outcome ∧ (∀ next, outcome = .inl next → P next) ∧
          ∀ result, outcome = .inr result → Q result)
    (hstate : P state) :
    ∃ requests result, loop.run device index state = .ok (requests, some result) ∧ Q result := by
  induction hbudget : loop.budget state using Nat.strong_induction_on generalizing index state
  rename_i budget ih
  obtain ⟨answer, hanswer⟩ := Option.isSome_iff_exists.mp (hlasts index (loop.request state))
  obtain ⟨outcome, houtcome, hnext, hresult⟩ := hturn state hstate index answer hanswer
  cases outcome with
  | inr result => exact ⟨_, result, run_of_stop hanswer houtcome, hresult result rfl⟩
  | inl next =>
    obtain ⟨requests, result, hrun, hfinal⟩ :=
      ih _ (hbudget ▸ loop.decreases houtcome) (hnext next rfl) rfl
    exact ⟨_, result, run_of_next hanswer houtcome hrun, hfinal⟩

/-- A run makes no more requests than the budget it started with, if a state it goes on from always has
some budget left, and a device that lasts brings it to its end. -/
theorem run_le_budget {P : State → Prop} (hbudget : ∀ state, P state → 0 < loop.budget state)
    (hturn : ∀ state, P state → ∀ index answer,
      device.answer index (loop.request state) = some answer →
        ∃ outcome, loop.turn state answer = .ok outcome ∧ ∀ next, outcome = .inl next → P next)
    (hstate : P state) :
    ∃ requests result, loop.run device index state = .ok (requests, result) ∧
      requests.length ≤ loop.budget state ∧
      ((∀ index request, (device.answer index request).isSome) → result.isSome) := by
  induction hless : loop.budget state using Nat.strong_induction_on generalizing index state
  rename_i budget ih
  have hpos := hless ▸ hbudget state hstate
  cases hanswer : device.answer index (loop.request state) with
  | none =>
    refine ⟨_, _, run_of_wait hanswer, hpos, fun hlasts ↦ ?_⟩
    have hsome := hlasts index (loop.request state)
    rw [hanswer] at hsome
    cases hsome
  | some answer =>
    obtain ⟨outcome, houtcome, hnext⟩ := hturn state hstate index answer hanswer
    cases outcome with
    | inr value => exact ⟨_, _, run_of_stop hanswer houtcome, hpos, fun _ ↦ rfl⟩
    | inl next =>
      have hdecreases := hless ▸ loop.decreases houtcome
      obtain ⟨requests, result, hrun, hlength, hlasts⟩ :=
        ih _ hdecreases (hnext next rfl) rfl
      refine ⟨_, _, run_of_next hanswer houtcome hrun, ?_, hlasts⟩
      rw [List.length_cons]
      exact Nat.lt_of_le_of_lt hlength hdecreases

/-- Two turns that go on in related states or stop with the same result. -/
inductive Match (R : State → State' → Prop) (convert : Result → Result') :
    Except Fault (State ⊕ Result) → Except Fault' (State' ⊕ Result') → Prop
  | next {state : State} {state' : State'} (related : R state state') :
      Match R convert (.ok (.inl state)) (.ok (.inl state'))
  | stop (result : Result) : Match R convert (.ok (.inr result)) (.ok (.inr (convert result)))

/-- Related loops make the same requests and stop at the same time with the same result, after at
most one attempt more than the budget they started with. -/
theorem run_eq_of_match (loop : Resumable Request Answer State Result Fault)
    (loop' : Resumable Request Answer State' Result' Fault') (device : Device Request Answer Fits)
    (R : State → State' → Prop) (convert : Result → Result')
    (hrequest : ∀ state state', R state state' → loop'.request state' = loop.request state)
    (hturn : ∀ state state', R state state' → ∀ index answer,
      device.answer index (loop.request state) = some answer →
        Match R convert (loop.turn state answer) (loop'.turn state' answer))
    (index : ℕ) (state : State) (state' : State') (hrelated : R state state') :
    ∃ requests result, loop.run device index state = .ok (requests, result) ∧
      loop'.run device index state' = .ok (requests, result.map convert) ∧
      requests.length ≤ loop.budget state + 1 ∧
      ((∀ index request, (device.answer index request).isSome) → result.isSome) := by
  -- the budget of the first loop drives the induction, so its turns are the ones to look at
  induction hbudget : loop.budget state using Nat.strong_induction_on generalizing index state state'
  rename_i budget ih
  have hsame := hrequest state state' hrelated
  cases hanswer : device.answer index (loop.request state) with
  | none =>
    refine ⟨[loop.request state], none, run_of_wait hanswer, ?_, by simp, fun hlasts ↦ ?_⟩
    · rw [run_of_wait (by rw [hsame, hanswer]), hsame]
      rfl
    · have := hlasts index (loop.request state)
      simp [hanswer] at this
  | some answer =>
    have hmatch := hturn state state' hrelated index answer hanswer
    cases hleft : loop.turn state answer with
    | error fault =>
      rw [hleft] at hmatch
      cases hmatch
    | ok outcome =>
      cases hright : loop'.turn state' answer with
      | error fault =>
        rw [hleft, hright] at hmatch
        cases hmatch
      | ok outcome' =>
        rw [hleft, hright] at hmatch
        cases hmatch with
        | next related =>
          have hless := loop.decreases hleft
          obtain ⟨requests, result, hrun, hrun', hlength, hlasts⟩ :=
            ih _ (hbudget ▸ hless) (index + 1) _ _ related rfl
          refine ⟨loop.request state :: requests, result, run_of_next hanswer hleft hrun, ?_, ?_,
            hlasts⟩
          · rw [run_of_next (by rw [hsame, hanswer]) hright hrun', hsame]
          · simp only [List.length_cons]
            omega
        | stop result =>
          refine ⟨[loop.request state], some result, run_of_stop hanswer hleft, ?_, by simp,
            by simp⟩
          rw [run_of_stop (by rw [hsame, hanswer]) hright, hsame]
          rfl

end Resumable

end DiosPool.Foundation
