import DiosPool.Foundation.Program

/-!
# Safety of interleaved programs

Pre- and postconditions for a program that shares its memory. Between two steps of the program the
memory changes as a rely relation allows, so a condition is useful only if it is stable. Besides the
postcondition, a safe program keeps a condition at every instant, and fails only in ways that are
tolerated.
-/

namespace DiosPool.Foundation

variable {σ ε α β : Type}

/-- A computation returns a value with a property, or fails in a tolerated way. -/
def Outcome {α : Type*} (tolerated : ε → Prop) (post : α → Prop) : Except ε α → Prop
  | .ok value => post value
  | .error error => tolerated error

namespace Outcome

variable {tolerated : ε → Prop}

theorem bind {post : α → Prop} {post' : β → Prop} {value : Except ε α} {next : α → Except ε β}
    (h : Outcome tolerated post value)
    (hnext : ∀ result, post result → Outcome tolerated post' (next result)) :
    Outcome tolerated post' (value >>= next) := by
  cases value with
  | ok result => exact hnext result h
  | error error => exact h

theorem mono {post post' : α → Prop} {value : Except ε α} (h : Outcome tolerated post value)
    (hmono : ∀ result, post result → post' result) : Outcome tolerated post' value := by
  cases value with
  | ok result => exact hmono result h
  | error error => exact h

/-- The image of a value, with what is known of the value. -/
theorem map {post : α → Prop} {value : Except ε α} (h : Outcome tolerated post value) (f : α → β) :
    Outcome tolerated (fun image ↦ ∃ result, image = f result ∧ post result) (value.map f) := by
  cases value with
  | ok result => exact ⟨result, rfl, h⟩
  | error error => exact h

end Outcome

/-- What the other parties may do between two steps, what holds at every instant, and which
failures are accepted. -/
structure Rules (σ ε : Type) where
  rely : σ → σ → Prop
  always : σ → Prop
  tolerated : ε → Prop

/-- A condition that holds on under interference, and that contains what always holds. -/
structure Rules.Stable (R : Rules σ ε) (condition : σ → Prop) : Prop where
  always : ∀ memory, condition memory → R.always memory
  rely : ∀ memory seen, condition memory → R.rely memory seen → condition seen

/-- Under interference, the program keeps what always holds, ends with the postcondition and fails
only in tolerated ways. -/
def Program.Safe (R : Rules σ ε) : Program σ ε α → (α → σ → Prop) → σ → Prop
  | .done value, post, memory => post value memory
  | .step action next, post, memory =>
    R.always memory ∧ ∀ seen, R.rely memory seen →
      Outcome R.tolerated (fun outcome ↦ (next outcome.1).Safe R post outcome.2) (action seen)

/-- A triple of precondition, program and postcondition. -/
def Rules.Triple (R : Rules σ ε) (pre : σ → Prop) (program : Program σ ε α)
    (post : α → σ → Prop) : Prop :=
  ∀ memory, pre memory → program.Safe R post memory

namespace Rules.Triple

variable {R : Rules σ ε} {pre : σ → Prop}

theorem done {value : α} {post : α → σ → Prop} (h : ∀ memory, pre memory → post value memory) :
    R.Triple pre (.done value) post := h

theorem bind {program : Program σ ε α} {continuation : α → Program σ ε β}
    {middle : α → σ → Prop} {post : β → σ → Prop} (h : R.Triple pre program middle)
    (hnext : ∀ value, R.Triple (middle value) (continuation value) post) :
    R.Triple pre (program >>= continuation) post := by
  intro memory hpre
  have hsafe := h memory hpre
  clear h hpre
  induction program generalizing memory with
  | done value => exact hnext value memory hsafe
  | step action next ih =>
    refine ⟨hsafe.1, fun seen hseen ↦ (hsafe.2 seen hseen).mono ?_⟩
    intro result hresult
    exact ih result.1 result.2 hresult

/-- Composition with a given condition in between. -/
theorem through {program : Program σ ε α} {continuation : α → Program σ ε β}
    (middle : α → σ → Prop) {post : β → σ → Prop} (h : R.Triple pre program middle)
    (hnext : ∀ value, R.Triple (middle value) (continuation value) post) :
    R.Triple pre (program >>= continuation) post := h.bind hnext

theorem mono {program : Program σ ε α} {post post' : α → σ → Prop} (h : R.Triple pre program post)
    (hmono : ∀ value memory, post value memory → post' value memory) :
    R.Triple pre program post' := by
  intro memory hpre
  have hsafe := h memory hpre
  clear h hpre
  induction program generalizing memory with
  | done value => exact hmono value memory hsafe
  | step action next ih =>
    refine ⟨hsafe.1, fun seen hseen ↦ (hsafe.2 seen hseen).mono ?_⟩
    intro result hresult
    exact ih result.1 result.2 hresult

theorem weaken {pre' : σ → Prop} {program : Program σ ε α} {post : α → σ → Prop}
    (h : R.Triple pre program post) (hpre : ∀ memory, pre' memory → pre memory) :
    R.Triple pre' program post :=
  fun memory hmemory ↦ h memory (hpre memory hmemory)

/-- A part of the precondition that does not depend on the memory. -/
theorem assume {fact : Prop} {program : Program σ ε α} {post : α → σ → Prop}
    (h : fact → R.Triple pre program post) :
    R.Triple (fun memory ↦ fact ∧ pre memory) program post :=
  fun memory hmemory ↦ h hmemory.1 memory hmemory.2

theorem act (hstable : R.Stable pre) {action : σ → Except ε (α × σ)} {post : α → σ → Prop}
    (h : ∀ memory, pre memory →
      Outcome R.tolerated (fun outcome ↦ post outcome.1 outcome.2) (action memory)) :
    R.Triple pre (.act action) post := by
  intro memory hpre
  refine ⟨hstable.always memory hpre, fun seen hseen ↦ ?_⟩
  exact h seen (hstable.rely memory seen hpre hseen)

theorem load (hstable : R.Stable pre) (read : σ → α) :
    R.Triple pre (.load read) fun value memory ↦ pre memory ∧ value = read memory := by
  intro memory hpre
  refine ⟨hstable.always memory hpre, fun seen hseen ↦ ?_⟩
  exact ⟨hstable.rely memory seen hpre hseen, rfl⟩

theorem fail (hstable : R.Stable pre) {error : ε} (h : R.tolerated error) {post : α → σ → Prop} :
    R.Triple pre (.fail error) post :=
  fun memory hpre ↦ ⟨hstable.always memory hpre, fun _ _ ↦ h⟩

theorem lift (hstable : R.Stable pre) {value : Except ε α} {post : α → Prop}
    (h : Outcome R.tolerated post value) :
    R.Triple pre (.lift value) fun result memory ↦ post result ∧ pre memory := by
  cases value with
  | ok result => exact fun memory hpre ↦ ⟨h, hpre⟩
  | error error => exact fail hstable h

end Rules.Triple

namespace Program.Safe

variable {R : Rules σ ε} {program : Program σ ε α} {post : α → σ → Prop} {memory : σ}

end Program.Safe

end DiosPool.Foundation
